import Overseer.Json.Decode

/-!
# Conversations with a model

A conversation is a list of messages. The model is asked with a conversation and the tools it may call;
it answers with text and tool calls, and is done when it asks for no more of them.
-/
namespace Overseer

inductive Role where
  | system
  | user
  | assistant
  | tool
  deriving DecidableEq, Repr, Inhabited

def Role.all : List Role := [.system, .user, .assistant, .tool]

def Role.name : Role → String
  | .system => "system"
  | .user => "user"
  | .assistant => "assistant"
  | .tool => "tool"

def Role.toJson (r : Role) : Json := .str r.name

def Role.decode : Json.Decoder Role := Json.Decoder.choice (all.map fun r => (r.name, r))

/-- A tool call that the model asks for. The tool's output goes back under the call's id. -/
structure ToolCall where
  id : String
  name : String
  arguments : Dict Json
  deriving Repr, Inhabited

namespace ToolCall

/-- A call with some arguments; anything but an object stands for no arguments. -/
def ofValue (id name : String) (arguments : Json) : ToolCall := ⟨id, name, arguments.fields⟩

def toJson (c : ToolCall) : Json :=
  .obj [("arguments", .obj c.arguments), ("id", .str c.id), ("name", .str c.name)]

open Json Decoder in
def decode : Decoder ToolCall :=
  record ["id", "name", "arguments"] fun row => do
    return {
      id := ← row.get "id" string
      name := ← row.get "name" string
      arguments := ← row.getD "arguments" (dict value) [] }

end ToolCall

/-- One turn of a conversation. -/
structure Message where
  role : Role
  content : String
  /-- What an assistant turn asks for. -/
  toolCalls : List ToolCall := []
  /-- The call that a tool turn answers. -/
  toolCallId : Option String := none
  deriving Repr, Inhabited

namespace Message

def system (content : String) : Message := { role := .system, content }

def user (content : String) : Message := { role := .user, content }

def assistant (content : String) (toolCalls : List ToolCall) : Message :=
  { role := .assistant, content, toolCalls }

def toolOutput (callId content : String) : Message :=
  { role := .tool, content, toolCallId := some callId }

/-- Absent tool calls and an absent call id are left out. -/
def toJson (m : Message) : Json :=
  .obj ([("content", .str m.content), ("role", m.role.toJson)] ++
    (match m.toolCallId with
      | none => []
      | some id => [("tool_call_id", .str id)]) ++
    (if m.toolCalls.isEmpty then [] else [("tool_calls", .arr (m.toolCalls.map ToolCall.toJson))]))

open Json Decoder in
def decode : Decoder Message :=
  record ["role", "content", "tool_calls", "tool_call_id"] fun row => do
    return {
      role := ← row.get "role" Role.decode
      content := ← row.get "content" string
      toolCalls := ← row.getD "tool_calls" (list ToolCall.decode) []
      toolCallId := ← row.getD "tool_call_id" (option string) none }

end Message

/-- A tool that the model may call, with the schema of its argument object. -/
structure ToolDefinition where
  name : String
  description : String
  schema : Json
  deriving Repr, Inhabited

namespace ToolDefinition

def toJson (t : ToolDefinition) : Json :=
  .obj [("description", .str t.description), ("name", .str t.name), ("schema", t.schema)]

open Json Decoder in
def decode : Decoder ToolDefinition :=
  record ["name", "description", "schema"] fun row => do
    return {
      name := ← row.get "name" string
      description := ← row.get "description" string
      schema := ← row.get "schema" value }

end ToolDefinition

inductive FinishReason where
  | endTurn
  | toolUse
  | maxTokens
  | other (reason : String)
  deriving DecidableEq, Repr, Inhabited

namespace FinishReason

def text : FinishReason → String
  | .endTurn => "end_turn"
  | .toolUse => "tool_use"
  | .maxTokens => "max_tokens"
  | .other reason => reason

def toJson : FinishReason → Json
  | .other reason => .obj [("other", .str reason)]
  | r => .str r.text

open Json Decoder in
def decode : Decoder FinishReason := fun depth d => do
  let (name, content, depth) ← alternative depth d
  if name = "other" then
    return .other (← string depth (← content))
  else if bare content then
    Dict.get? name ([FinishReason.endTurn, .toolUse, .maxTokens].map fun r => (r.text, r))
  else none

end FinishReason

/-- Tokens that one answer cost. -/
structure Usage where
  promptTokens : Nat := 0
  completionTokens : Nat := 0
  totalTokens : Nat := 0
  deriving DecidableEq, Repr, Inhabited

namespace Usage

/-- The usage with these parts, if their sum is a 64-bit word. -/
def ofParts? (prompt completion : Nat) : Option Usage :=
  if prompt + completion < Word.count64 then some ⟨prompt, completion, prompt + completion⟩ else none

def toJson (u : Usage) : Json :=
  .obj [("completion_tokens", .nat u.completionTokens), ("prompt_tokens", .nat u.promptTokens),
    ("total_tokens", .nat u.totalTokens)]

open Json Decoder in
def decode : Decoder Usage :=
  record ["prompt_tokens", "completion_tokens", "total_tokens"] fun row => do
    return {
      promptTokens := ← row.get "prompt_tokens" word64
      completionTokens := ← row.get "completion_tokens" word64
      totalTokens := ← row.get "total_tokens" word64 }

end Usage

structure ChatRequest where
  messages : List Message
  tools : List ToolDefinition
  deriving Repr, Inhabited

structure ChatResponse where
  content : String
  toolCalls : List ToolCall
  finishReason : FinishReason
  usage : Usage
  deriving Repr, Inhabited

namespace ChatResponse

def endTurn (content : String) (tokens : Nat) : ChatResponse :=
  ⟨content, [], .endTurn, { totalTokens := tokens }⟩

/-- An answer that only asks for tool calls. -/
def toolUse (toolCalls : List ToolCall) (tokens : Nat) : ChatResponse :=
  ⟨"", toolCalls, .toolUse, { totalTokens := tokens }⟩

def isFinal (r : ChatResponse) : Bool := r.toolCalls.isEmpty

end ChatResponse

end Overseer

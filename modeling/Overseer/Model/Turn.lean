import Overseer.Chat

/-!
# What a model's server is told

Messages become turns of a chat, one for one. A turn can hold a text, tool calls and the id of the call
that it answers. Of an assistant that calls tools only the calls are taken over. The server matches outputs
with calls by their order, so it is not told their ids.
-/
namespace Overseer.Model

structure Turn where
  role : Role
  text : Option String := none
  calls : List ToolCall := []
  callId : Option String := none
  deriving Repr, Inhabited

namespace Turn

/-- A message as a turn (`to_chat_message`). The text beside an assistant's calls is not taken over. -/
def ofMessage (m : Message) : Turn :=
  match m.role with
  | .tool => { role := .tool, text := some m.content, callId := some (m.toolCallId.getD "") }
  | .assistant =>
    if m.toolCalls.isEmpty then { role := .assistant, text := some m.content }
    else { role := .assistant, calls := m.toolCalls }
  | role => { role, text := some m.content }

def callJson (c : ToolCall) : Json :=
  .obj [("function", .obj [("arguments", .obj c.arguments), ("name", .str c.name)])]

/-- A turn as it is sent; an empty text is left out, unless it is an output. -/
def toJson (t : Turn) : Json :=
  let text := t.text.getD ""
  .obj ((if text.isEmpty ∧ t.role ≠ .tool then [] else [("content", .str text)]) ++
    [("role", t.role.toJson)] ++
    (if t.calls.isEmpty then [] else [("tool_calls", .arr (t.calls.map callJson))]))

end Turn

def toolJson (t : ToolDefinition) : Json :=
  .obj [
    ("function", .obj [
      ("description", .str t.description),
      ("name", .str t.name),
      ("parameters", t.schema)]),
    ("type", .str "function")]

def chatJson (model : String) (r : ChatRequest) : Json :=
  .obj ([
    ("messages", .arr (r.messages.map fun m => (Turn.ofMessage m).toJson)),
    ("model", .str model),
    ("stream", .bool true)] ++
    (if r.tools.isEmpty then [] else [("tools", .arr (r.tools.map toolJson))]))

end Overseer.Model

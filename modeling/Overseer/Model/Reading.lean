import Overseer.Chat
import Overseer.Json.Document

/-!
# Reading what a model says

A model's answer comes in lines, each a JSON object with a piece of it: a thought, some text, tool calls,
or the end with its cost. A line is taken for the first of these that it has, and the rest of it is
ignored; so is a line that makes no sense. What follows the end is not read, and an answer that breaks
off is taken for what it is.
-/
namespace Overseer.Model

/-- What has been read of an answer. -/
structure Reading where
  content : String := ""
  toolCalls : List ToolCall := []
  usage : Usage := {}
  isOver : Bool := false
  deriving Repr, Inhabited

namespace Reading

def madeUpId (random : Nat) : String := "call_" ++ ((toDigits 8 random))
where
  toDigits : Nat → Nat → String
    | 0, _ => ""
    | n + 1, r => toDigits n (r / 16) ++ String.singleton (Json.hexDigit (r % 16))

def text? (j : Option Json) : Option String :=
  match j with
  | some (.str s) => if s.isEmpty then none else some s
  | _ => none

def isThought (message : Json) : Bool :=
  match message.get? "thinking" with
  | some j => (text? (some j)).isSome
  | none => (text? (message.get? "reasoning_content")).isSome

/-- A tool call; without a name or arguments it makes no sense. -/
def call? (random : Nat) (j : Json) : Option ToolCall := do
  let function ← j.get? "function"
  let name ← (function.get? "name").bind Json.str?
  let arguments ← function.get? "arguments"
  let id := ((j.get? "id").bind Json.str?).getD (madeUpId random)
  return ToolCall.ofValue id name arguments

/-- A count of tokens: a signed 32-bit word, of which a negative one counts for nothing. -/
def tokens (j : Option Json) : Nat :=
  match j with
  | some (.num (.int n)) => if n < Word.half32 then n.toNat else 0
  | _ => 0

def cost (j : Json) : Usage :=
  let prompt := tokens (j.get? "prompt_eval_count")
  let completion := tokens (j.get? "eval_count")
  ⟨prompt, completion, prompt + completion⟩

def isEnd (j : Json) : Bool :=
  match j.get? "done" with
  | some (.bool b) => b
  | _ => false

def line (random : Nat → Nat) (r : Reading) (j : Json) : Reading :=
  if r.isOver then r
  else
    let message := (j.get? "message").getD .null
    if isThought message then r
    else
      match text? (message.get? "content"), message.get? "tool_calls" with
      | some s, _ => { r with content := r.content ++ s }
      | none, some (.arr (c :: cs)) =>
        let made := r.toolCalls.length
        match ((c :: cs).zipIdx).mapM fun (c, i) => call? (random (made + i)) c with
        | some calls => { r with toolCalls := r.toolCalls ++ calls }
        | none => r
      | none, _ => if isEnd j then { r with usage := cost j, isOver := true } else r

def ofText (random : Nat → Nat) (s : String) : Reading :=
  ((s.splitOn "\n").filterMap Json.parse?).foldl (line random) {}

/-- Reads the content of a reply; bytes that are no text say nothing. -/
def ofContent (random : Nat → Nat) (content : ByteArray) : Reading :=
  match String.fromUTF8? content with
  | some s => ofText random s
  | none => {}

def response (r : Reading) : ChatResponse where
  content := r.content
  toolCalls := r.toolCalls
  finishReason := if r.toolCalls.isEmpty then .endTurn else .toolUse
  usage := r.usage

end Reading

end Overseer.Model

import Overseer.Chat
import Overseer.Limits
import Overseer.Timestamp

/-!
# What a sub-agent is given

A context holds everything a run may see: the conversation so far, the tools it may call and its budget.
A list of allowed tools permits exactly the tools it names; without a list every tool is permitted.
-/
namespace Overseer

def isToolAllowed (allowed : Option (List String)) (tool : String) : Bool :=
  match allowed with
  | none => true
  | some names => names.contains tool

/-- What one sub-agent is given. -/
structure Context where
  id : String
  parentId : String
  skill : String
  allowedTools : Option (List String)
  limits : Limits
  history : List Message
  createdAt : Timestamp
  metadata : Dict String
  deriving Repr, Inhabited

namespace Context

/-- The first fault of a context. -/
def validate (c : Context) : Except Fault Unit :=
  if c.id.isEmpty then .error .emptyId
  else if c.parentId.isEmpty then .error .emptyParent
  else if c.skill.isEmpty then .error .emptySkill
  else c.limits.validate

/-- A context for a sub-agent of `parentId`, made under a new id. -/
def fork (id : String) (now : Timestamp) (parentId : String) (history : List Message) (skill : String)
    (allowedTools : Option (List String)) (limits : Limits) : Except Fault Context :=
  if parentId.isEmpty then .error .emptyParent
  else if skill.isEmpty then .error .emptySkill
  else do
    limits.validate
    return {
      id, parentId, skill, allowedTools, limits, history
      createdAt := now
      metadata := [] }

def toJson (c : Context) : Json :=
  .obj [
    ("allowed_tools", Json.ofOption Json.strings c.allowedTools),
    ("conversation_history", .arr (c.history.map Message.toJson)),
    ("created_at", c.createdAt.toJson),
    ("id", .str c.id),
    ("metadata", .obj (c.metadata.map fun e => (e.1, .str e.2))),
    ("parent_context_id", .str c.parentId),
    ("resource_limits", c.limits.toJson),
    ("skill_name", .str c.skill)]

open Json Decoder in
def decode : Decoder Context :=
  record ["id", "parent_context_id", "skill_name", "allowed_tools", "resource_limits",
    "conversation_history", "created_at", "metadata"] fun row => do
    return {
      id := ← row.get "id" string
      parentId := ← row.get "parent_context_id" string
      skill := ← row.get "skill_name" string
      allowedTools := ← row.getOption "allowed_tools" (list string)
      limits := ← row.get "resource_limits" Limits.decode
      history := ← row.get "conversation_history" (list Message.decode)
      createdAt := ← row.get "created_at" Timestamp.decode
      metadata := ← row.getD "metadata" (dict string) [] }

end Context

end Overseer

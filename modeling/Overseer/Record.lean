import Overseer.Chat
import Overseer.Status
import Overseer.Timestamp

/-!
# The record of a run

A record says how far a run has come and how it ended. It starts out running with nothing done, and is
replaced once, when the run ends.
-/
namespace Overseer

structure Step where
  /-- Counted from 1. -/
  number : Nat
  /-- The finish reason and the number of tool calls asked for. -/
  action : String
  result : String
  tokens : Nat
  duration : Duration
  deriving DecidableEq, Repr, Inhabited

namespace Step

def toJson (s : Step) : Json :=
  .obj [("action", .str s.action), ("duration", Json.ofDuration s.duration), ("result", .str s.result),
    ("step_number", .nat s.number), ("tokens_used", .nat s.tokens)]

open Json Decoder in
def decode : Decoder Step :=
  record ["step_number", "action", "result", "tokens_used", "duration"] fun row => do
    return {
      number := ← row.get "step_number" word32
      action := ← row.get "action" string
      result := ← row.get "result" string
      tokens := ← row.get "tokens_used" word64
      duration := ← row.get "duration" Decoder.duration }

end Step

/-- How far a run has come and how it ended. -/
structure Record where
  id : String
  status : Status
  output : String
  error : String
  tokens : Nat
  toolCalls : Nat
  executionTime : Duration
  completedAt : Option Timestamp
  steps : List Step
  metadata : Dict Json
  deriving Repr, Inhabited

namespace Record

def running (id : String) : Record where
  id := id
  status := .running
  output := ""
  error := ""
  tokens := 0
  toolCalls := 0
  executionTime := Duration.zero
  completedAt := none
  steps := []
  metadata := []

def toJson (r : Record) : Json :=
  .obj [
    ("completed_at", Json.ofOption Timestamp.toJson r.completedAt),
    ("error_message", .str r.error),
    ("execution_time", Json.ofDuration r.executionTime),
    ("metadata", .obj r.metadata),
    ("output", .str r.output),
    ("status", r.status.toJson),
    ("step_results", .arr (r.steps.map Step.toJson)),
    ("subagent_id", .str r.id),
    ("tokens_used", .nat r.tokens),
    ("tool_calls_made", .nat r.toolCalls)]

open Json Decoder in
def decode : Decoder Record :=
  record ["subagent_id", "status", "output", "error_message", "tokens_used", "tool_calls_made",
    "execution_time", "completed_at", "step_results", "metadata"] fun row => do
    return {
      id := ← row.get "subagent_id" string
      status := ← row.get "status" Status.decode
      output := ← row.get "output" string
      error := ← row.get "error_message" string
      tokens := ← row.get "tokens_used" word64
      toolCalls := ← row.get "tool_calls_made" word64
      executionTime := ← row.get "execution_time" duration
      completedAt := ← row.getOption "completed_at" Timestamp.decode
      steps := ← row.get "step_results" (list Step.decode)
      metadata := ← row.getD "metadata" (dict value) [] }

end Record

end Overseer

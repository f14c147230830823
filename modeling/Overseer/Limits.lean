import Overseer.Json.Decode

/-!
# Resource limits

A run has a budget of tokens, of tool calls and of time. Zero tokens or tool calls stand for no limit;
a negative number or no time at all is a fault. A budget is exceeded only beyond its limit, never at it.
-/
namespace Overseer

/-- Why a request to run a sub-agent is invalid. -/
inductive Fault where
  | emptyId
  | emptyParent
  | emptySkill
  | noTime
  | negativeTokens (n : Int)
  | negativeToolCalls (n : Int)
  | other (reason : String)
  deriving DecidableEq, Repr, Inhabited

def Fault.message : Fault → String
  | .emptyId => "sub-agent id is empty"
  | .emptyParent => "parent context id is empty"
  | .emptySkill => "skill name is empty"
  | .noTime => "timeout must be greater than zero"
  | .negativeTokens n => "max_tokens must be >= 0, got " ++ toString n
  | .negativeToolCalls n => "max_tool_calls must be >= 0, got " ++ toString n
  | .other reason => reason

inductive Violation where
  | tokens (used limit : Nat)
  | toolCalls (made limit : Nat)
  | time (elapsed limit : Duration)
  deriving DecidableEq, Repr

def Violation.message : Violation → String
  | .tokens used limit => "token limit exceeded (" ++ toString used ++ "/" ++ toString limit ++ ")"
  | .toolCalls made limit => "tool call limit exceeded (" ++ toString made ++ "/" ++ toString limit ++ ")"
  | .time elapsed limit => "time limit exceeded (" ++ elapsed.text ++ " > " ++ limit.text ++ ")"

structure Limits where
  maxTokens : Int := 0
  maxToolCalls : Int := 0
  timeout : Duration := Duration.ofSeconds 300
  deriving DecidableEq, Repr, Inhabited

namespace Limits

def validate (l : Limits) : Except Fault Unit :=
  if l.timeout.isZero then .error .noTime
  else if l.maxTokens < 0 then .error (.negativeTokens l.maxTokens)
  else if l.maxToolCalls < 0 then .error (.negativeToolCalls l.maxToolCalls)
  else .ok ()

/-- A limit that is in force: a positive number. -/
def positive (n : Int) : Option Nat := if 0 < n then some n.toNat else none

def tokenLimit (l : Limits) : Option Nat := positive l.maxTokens

def toolCallLimit (l : Limits) : Option Nat := positive l.maxToolCalls

def exceeds (amount : Nat) : Option Nat → Bool
  | none => false
  | some limit => limit < amount

def check (l : Limits) (tokens toolCalls : Nat) (elapsed : Duration) : Except Violation Unit :=
  if exceeds tokens l.tokenLimit then .error (.tokens tokens (l.tokenLimit.getD 0))
  else if exceeds toolCalls l.toolCallLimit then .error (.toolCalls toolCalls (l.toolCallLimit.getD 0))
  else if l.timeout.isZero = false ∧ l.timeout < elapsed then .error (.time elapsed l.timeout)
  else .ok ()

def isWithin (l : Limits) (tokens toolCalls : Nat) (elapsed : Duration) : Bool :=
  (l.check tokens toolCalls elapsed).isOk

def toJson (l : Limits) : Json :=
  .obj [("max_tokens", .int l.maxTokens), ("max_tool_calls", .int l.maxToolCalls),
    ("timeout", Json.ofDuration l.timeout)]

open Json Decoder in
def decode : Decoder Limits :=
  record ["max_tokens", "max_tool_calls", "timeout"] fun row => do
    return {
      maxTokens := ← row.get "max_tokens" int64
      maxToolCalls := ← row.get "max_tool_calls" int64
      timeout := ← row.get "timeout" duration }

end Limits

end Overseer

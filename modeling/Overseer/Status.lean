import Overseer.Json.Decode

/-!
# Status of a sub-agent

A sub-agent is pending, then running, then in one of four terminal states, which it never leaves.
-/
namespace Overseer

inductive Status where
  | pending
  | running
  | complete
  | error
  | timeout
  | cancelled
  deriving DecidableEq, Repr, Inhabited

namespace Status

def isTerminal : Status → Bool
  | .pending | .running => false
  | .complete | .error | .timeout | .cancelled => true

def all : List Status := [.pending, .running, .complete, .error, .timeout, .cancelled]

def name : Status → String
  | .pending => "pending"
  | .running => "running"
  | .complete => "complete"
  | .error => "error"
  | .timeout => "timeout"
  | .cancelled => "cancelled"

def toJson (s : Status) : Json := .str s.name

def decode : Json.Decoder Status := Json.Decoder.choice (all.map fun s => (s.name, s))

end Status

end Overseer

import Overseer.Agent.InFlight
import Overseer.Agent.Run

/-!
# The executor

An executor works on any number of runs at a time. A run enters with a context and a scope, and is known
by its number from then on; it goes from move to move as its surroundings answer, and it leaves when it
has ended, whether it came to an ending, was dropped or panicked. One call of `execute` is all of this, from `enter`
to `leave`; `cancel` and `status` go by the id of a run in flight.
-/
namespace Overseer.Agent

def Sight.of (s : Signals) (now : Instant) (scope : Scope) : Sight where
  now := now
  cancelled := scope.isCancelled s
  expired := scope.isExpired now

/-- A run that an executor is at work on. -/
structure Active where
  scope : Scope
  run : Run
  deriving Repr, Inhabited

structure Executor where
  tools : List ToolDefinition
  /-- How often a run may ask the model, at least once. -/
  maxIterations : Nat
  inFlight : InFlight := []
  /-- All runs that have ever entered, by number; none for those that have left. -/
  runs : List (Option Active) := []
  deriving Repr, Inhabited

namespace Executor

def new (tools : List ToolDefinition) (maxIterations : Nat) : Executor where
  tools := tools
  maxIterations := max 1 maxIterations

/-- A run enters, unless its context is invalid or its id is in flight. -/
def enter (e : Executor) (c : Context) (scope : Scope) (s : Signals) (now : Instant) :
    Except Refusal (Nat × Executor) :=
  match c.validate with
  | .error f => .error (.invalid f)
  | .ok () => do
    let inFlight ← e.inFlight.enter c.id scope.token
    let run := Run.start (Task.of c e.tools e.maxIterations) (Sight.of s now scope)
    return (e.runs.length, { e with inFlight, runs := e.runs ++ [some ⟨scope, run⟩] })

def active? (e : Executor) (n : Nat) : Option Active := (e.runs[n]?).join

def move? (e : Executor) (n : Nat) : Option Move := (e.active? n).map (·.run.move)

def advance (e : Executor) (n : Nat) (s : Signals) (now : Instant) (f : Run → Sight → Run) : Executor :=
  match e.active? n with
  | none => e
  | some a => { e with runs := e.runs.set n (some { a with run := f a.run (Sight.of s now a.scope) }) }

def hearReply (e : Executor) (n : Nat) (s : Signals) (now : Instant)
    (reply : Except ModelError ChatResponse) : Executor :=
  e.advance n s now fun r sight => r.hearReply sight reply

def hearOutput (e : Executor) (n : Nat) (s : Signals) (now : Instant)
    (output : Except ToolError String) : Executor :=
  e.advance n s now fun r sight => r.hearOutput sight output

def record? (e : Executor) (n : Nat) (ending : Ending) (now : Instant) (time : Timestamp) : Option Record :=
  (e.active? n).map fun a => a.run.record ending now time

def leave (e : Executor) (n : Nat) : Executor :=
  match e.active? n with
  | none => e
  | some a =>
    { e with
      inFlight := e.inFlight.leave a.run.task.context.id
      runs := e.runs.set n none }

def cancel (e : Executor) (s : Signals) (id : String) : Except Refusal Signals := e.inFlight.cancel s id

def status (e : Executor) (id : String) : Except Refusal Status := e.inFlight.status id

end Executor

end Overseer.Agent

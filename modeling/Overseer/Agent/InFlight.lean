import Overseer.Error
import Overseer.Scope
import Overseer.Status

/-!
# Runs in flight

An executor knows its runs in flight by their ids, each with the token that stops it. A run is entered
when it begins and leaves when it ends, however it ends; meanwhile its id cannot be used again.
-/
namespace Overseer.Agent

abbrev InFlight := List (String × Token)

namespace InFlight

def enter (f : InFlight) (id : String) (t : Token) : Except Refusal InFlight :=
  if (f.lookup id).isSome then .error (.alreadyTracked id) else .ok ((id, t) :: f)

def leave (f : InFlight) (id : String) : InFlight := f.filter (·.1 ≠ id)

def find (f : InFlight) (id : String) : Except Refusal Token :=
  match f.lookup id with
  | some t => .ok t
  | none => .error (.notFound id)

def cancel (f : InFlight) (s : Signals) (id : String) : Except Refusal Signals :=
  (f.find id).map s.raise

/-- A run in flight is running. -/
def status (f : InFlight) (id : String) : Except Refusal Status :=
  (f.find id).map fun _ => Status.running

end InFlight

end Overseer.Agent

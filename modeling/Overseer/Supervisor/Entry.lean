import Overseer.Context
import Overseer.Error
import Overseer.Record
import Overseer.Scope

/-!
# Entries of the supervisor

An entry is what the supervisor knows of one run that it has started. Its record leaves the running state
once: the run's own result and a cancellation compete for that, and whichever comes second changes
nothing. A status latched before the start of the run has been announced is held back, and announced
right after it.
-/
namespace Overseer.Supervisor

inductive Outcome where
  | returned (record : Record)
  | rejected (reason : Refusal)
  | panicked
  deriving Repr, Inhabited

inductive Latch where
  /-- The record was terminal already; nothing has changed. -/
  | refused
  /-- The status is latched and has to be announced. -/
  | notify
  /-- The status is latched and will be announced after the start of the run. -/
  | held
  deriving DecidableEq, Repr, Inhabited

/-- What the supervisor knows of one run. -/
structure Entry where
  id : String
  started : Instant
  scope : Scope
  record : Record
  announced : Bool
  held : Option Status
  deriving Repr, Inhabited

namespace Entry

def new (id : String) (scope : Scope) (now : Instant) : Entry where
  id := id
  started := now
  scope := scope
  record := Record.running id
  announced := false
  held := none

def status (e : Entry) : Status := e.record.status

/-- What follows when a terminal status has just been latched. -/
def latched (e : Entry) : Entry × Latch :=
  if e.announced then (e, .notify) else ({ e with held := some e.record.status }, .held)

/-- Latches the final record of the run. -/
def complete (e : Entry) (r : Record) : Entry × Latch :=
  if e.status.isTerminal then (e, .refused) else { e with record := r }.latched

/-- Latches the cancellation of the run. -/
def cancel (e : Entry) (now : Instant) (time : Timestamp) : Entry × Latch :=
  if e.status ≠ .running then (e, .refused)
  else
    { e with record := { e.record with
        status := .cancelled
        error := "cancelled by supervisor"
        executionTime := now.since e.started
        completedAt := some time } }.latched

/-- Notes that the start of the run has been announced, and gives out a status held back. -/
def announce (e : Entry) : Entry × Option Status :=
  ({ e with announced := true, held := none }, e.held)

/-- The record of a run for which the executor gave none. -/
def failure (e : Entry) (now : Instant) (time : Timestamp) (message : String) : Record :=
  { Record.running e.id with
    status := .error
    error := message
    executionTime := now.since e.started
    completedAt := some time }

/-- A record that is not terminal stands for an error. -/
def settled (r : Record) : Record :=
  if r.status.isTerminal then r
  else { r with
    status := .error
    error := "executor returned non-terminal status '" ++ r.status.name ++ "'" }

def recordOf (e : Entry) (now : Instant) (time : Timestamp) : Outcome → Record
  | .returned r => settled r
  | .rejected reason => e.failure now time ("executor rejected run: " ++ reason.message)
  | .panicked => e.failure now time "executor panicked"

end Entry

end Overseer.Supervisor

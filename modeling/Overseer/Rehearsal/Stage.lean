import Overseer.Agent.Executor
import Overseer.Rehearsal.Script
import Overseer.Rehearsal.Task

/-!
# The stage of a rehearsal

Everything that a rehearsal plays on: the supervisor's machine, the runs in flight, the scripts of model
and tools as far as they are not used up, and a log of what has happened.
-/
namespace Overseer.Rehearsal

open Supervisor (Machine Policy Label Key)

/-- What is noted in the log. -/
inductive Note where
  | hooked (hook : String) (status : Status)
  | reacted (act : Act) (result : Result)
  | did (act : Act) (result : Result)

structure Happening where
  time : Instant
  id : String
  note : Note

structure Asked where
  time : Instant
  list : String
  request : ChatRequest

structure Called where
  time : Instant
  tool : String
  arguments : Dict Json

/-- A hook and the reactions it has left. -/
structure Hook where
  name : String
  reactions : List (String × Status × Act)

inductive Worker where
  | executor
  | standIn (parts : List (String × StandIn))

inductive Background where
  | pending
  | answered (r : Result)
  | taken

/-- An act that has been played: when it was over, what it came to, and what was logged meanwhile. -/
structure Played where
  time : Instant
  result : Result
  log : List Happening

structure Stage where
  machine : Machine
  policy : Policy := {}
  worker : Worker := .executor
  executor : Agent.Executor
  root : Scope
  /-- The root's token can be cancelled by the script. -/
  rootGiven : Bool := false
  scopes : List (String × Scope) := []
  replies : List (String × List Reply) := []
  tools : Tools
  hooks : List Hook := []
  background : List (String × Background) := []
  log : List Happening := []
  asked : List Asked := []
  called : List Called := []
  played : List Played := []

/-- The beginning of time in a rehearsal, some time after the clock's origin. -/
def origin : Instant := nanosPerSecond

instance : Timed Stage where
  now s := s.machine.now
  setNow s now := { s with machine := (s.machine.next? s.policy (.tick now)).getD s.machine }
  isCancelled s t := s.machine.signals.isCancelled t

namespace Stage

def empty (tools : Tools) (maxIterations : Nat) : Stage :=
  let (scope, signals) := Scope.root {}
  { machine := { now := origin, signals, threads := [[]] }
    executor := Agent.Executor.new tools.definitions maxIterations
    root := scope
    tools }

def follow (s : Stage) (l : Label) : Stage :=
  { s with machine := (s.machine.next? s.policy l).getD s.machine }

def note (s : Stage) (id : String) (n : Note) : Stage :=
  { s with log := s.log ++ [⟨s.machine.now, id, n⟩] }

def scope? (s : Stage) (name : String) : Option Scope := s.scopes.lookup name

def setScope (s : Stage) (name : String) (scope : Scope) : Stage :=
  { s with scopes := (name, scope) :: s.scopes.filter (·.1 ≠ name) }

def newRoot (s : Stage) : Scope × Stage := ((Scope.root s.machine.signals).1, s.follow .newToken)

def query (s : Stage) (scope : Scope) : Result :=
  .scope (scope.isCancelled s.machine.signals) (scope.isExpired s.machine.now)
    (scope.deadline.map fun d => Duration.ofNanos (d - origin))

def makeScope (s : Stage) (name : String) (source : Option String) (tokenOnly : Bool)
    (deadline child : Option Duration) : Result × Stage :=
  let (scope, s) := match source.bind s.scope? with
    | some scope => (scope, s)
    | none => s.newRoot
  let scope := if tokenOnly then .ofToken scope.token else scope
  let scope := match deadline with
    | some d => scope.withDeadline (origin + d.nanos)
    | none => scope
  match child with
  | none => (s.query scope, s.setScope name scope)
  | some timeout =>
    match scope.child? s.machine.signals s.machine.now timeout with
    | none => (.panicked Machine.clockPanic, s)
    | some (inner, _) =>
      let s := s.follow (.derive scope timeout)
      (s.query inner, s.setScope name inner)

/-- The list that answers a request, and its name: the one named by the first message, if there is one,
or else the list for all others. -/
def listFor (s : Stage) (r : ChatRequest) : String :=
  match r.messages with
  | m :: _ => if (s.replies.lookup m.content).isSome then m.content else "*"
  | [] => "*"

def nextReply (s : Stage) (r : ChatRequest) : String × Option Reply × Stage :=
  let name := s.listFor r
  let request : Asked := ⟨s.machine.now, name, r⟩
  let s : Stage := { s with asked := s.asked ++ [request] }
  match s.replies.lookup name with
  | some (reply :: rest) =>
    let replies := s.replies.map fun e => if e.1 = name then (name, rest) else e
    (name, some reply, { s with replies })
  | _ => (name, none, s)

def nextOutput (s : Stage) (call : ToolCall) : Output × Stage :=
  let invocation : Called := ⟨s.machine.now, call.name, call.arguments⟩
  let s : Stage := { s with called := s.called ++ [invocation] }
  let unknown : Output := ⟨{}, .error (.unknownTool call.name)⟩
  match s.tools with
  | .workspace w fs =>
    match w.execute fs call.name call.arguments with
    | (fs, .ok output) => (⟨{}, .answer output⟩, { s with tools := .workspace w fs })
    | (fs, .error e) => (⟨{}, .error e⟩, { s with tools := .workspace w fs })
  | .scripted defs outputs =>
    match outputs.lookup call.name with
    | some (.always o) => (o, s)
    | some (.inOrder (o :: rest)) =>
      let left := outputs.map fun e => if e.1 = call.name then (call.name, .inOrder rest) else e
      (o, { s with tools := .scripted defs left })
    | _ => (unknown, s)

def setHook (s : Stage) (name : String) (reactions : List (String × Status × Act)) : Stage :=
  let hook : Hook := ⟨name, reactions⟩
  { s with hooks := s.hooks ++ [hook] }.follow (.setHook s.hooks.length)

def takeReaction (s : Stage) (hook : Nat) (id : String) (status : Status) : Option (Act × Stage) :=
  match s.hooks[hook]? with
  | none => none
  | some h =>
    match h.reactions.findIdx? fun r => r.1 = id ∧ r.2.1 = status with
    | none => none
    | some i =>
      match h.reactions[i]? with
      | none => none
      | some r =>
        some (r.2.2, { s with hooks := s.hooks.set hook { h with reactions := h.reactions.eraseIdx i } })

def close (s : Stage) (logged : Nat) (result : Result) : Stage :=
  let played : Played := ⟨s.machine.now, result, s.log.drop logged⟩
  { s with played := s.played ++ [played] }

def hearReply (s : Stage) (run : Nat) (reply : Except ModelError ChatResponse) : Stage :=
  { s with executor := s.executor.hearReply run s.machine.signals s.machine.now reply }

def hearOutput (s : Stage) (run : Nat) (output : Except ToolError String) : Stage :=
  { s with executor := s.executor.hearOutput run s.machine.signals s.machine.now output }

def setBackground (s : Stage) (tag : String) (b : Background) : Stage :=
  { s with background := (tag, b) :: s.background.filter (·.1 ≠ tag) }

def poll (s : Stage) (tag : String) : Result × Stage :=
  match s.background.lookup tag with
  | some .pending => (.pending, s)
  | some (.answered r) => (r, s.setBackground tag .taken)
  | _ => (.taken, s)

end Stage

end Overseer.Rehearsal

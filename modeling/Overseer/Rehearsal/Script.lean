import Overseer.Agent.InFlight
import Overseer.Supervisor.Machine
import Overseer.Workspace

/-!
# Scripts

What is played in a rehearsal: the acts of the script, what the model and the tools will answer, what the
executor will do if it is only a stand-in, and how the monitoring hook reacts.
-/
namespace Overseer.Rehearsal

inductive Act where
  /-- Names a scope: another one or a new one, with its token only if asked, then with a deadline
  counted from the beginning, then a child of it. -/
  | newScope (name : String) (source : Option String) (tokenOnly : Bool) (deadline child : Option Duration)
  | queryScope (name : String)
  | cancelScope (name : String)
  /-- Has the executor cancel a run in flight. -/
  | cancelRun (id : String)
  /-- Asks the executor for a run in flight. -/
  | runStatus (id : String)
  /-- Has the executor run a context, under a named scope or one of its own. -/
  | execute (context : Context) (within : Option String)
  | start (context : Context) (within : Option String)
  | cancel (id : String)
  | status (id : String)
  | list
  | count
  | prune
  /-- Installs a hook with reactions to a status of an id. -/
  | setHook (name : String) (reactions : List (String × Status × Act))
  | panic
  | advance (millis : Nat)
  | settle
  | cancelRoot
  | wait (id : String) (capMillis : Nat)
  | shutdown (timeout : Option Duration)
  | spawnWait (tag id : String)
  | spawnShutdown (tag : String) (timeout : Option Duration)
  | poll (tag : String)
  deriving Inhabited

inductive Result where
  | ok
  | scope (cancelled expired : Bool) (deadline : Option Duration)
  | running
  | refused (reason : Refusal)
  | panicked (message : String)
  | record (r : Record)
  | ids (ids : List String)
  | count (n : Nat)
  | gaveUp
  | pending
  | taken
  deriving Inhabited

structure Cue where
  before : List Act := []
  delayMillis : Nat := 0
  after : List Act := []
  deriving Inhabited

inductive Line (ε α : Type) where
  | panic (message : String)
  | error (e : ε)
  | answer (a : α)
  deriving Inhabited

structure Reply where
  cue : Cue
  line : Line ModelError ChatResponse
  deriving Inhabited

structure Output where
  cue : Cue
  line : Line ToolError String
  deriving Inhabited

inductive Outputs where
  | always (o : Output)
  | inOrder (os : List Output)
  deriving Inhabited

/-- What a stand-in for the executor does with a run. -/
structure StandIn where
  delayMillis : Nat
  /-- It stops early if its scope tells it to. -/
  cooperative : Bool
  /-- A record is made for the id of the run. -/
  line : Line Refusal (String → Record)
  deriving Inhabited

inductive Tools where
  | scripted (definitions : List ToolDefinition) (outputs : List (String × Outputs))
  | workspace (w : Workspace) (fs : FileSystem)

def Tools.definitions : Tools → List ToolDefinition
  | .scripted definitions _ => definitions
  | .workspace _ _ => Workspace.definitions

end Overseer.Rehearsal

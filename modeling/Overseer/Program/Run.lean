import Overseer.Config.Load
import Overseer.Program.Session
import Overseer.Uuid

/-!
# The program

From a command line to an ending. `run` checks that the model can be asked, opens the workspace, forks a
context for a sub-agent, opens its transcript and has a session with it; what it prints is the record.
`tools` opens the workspace and prints what the model is told about its tools.
-/
namespace Overseer.Program

/-- What the program meets. -/
structure Surroundings where
  files : FileSystem
  environment : Environment
  exchange : Http.Exchange
  /-- Random numbers: a row for the ids of a run, and one for the answers to each request. -/
  random : Nat → Nat → Nat
  now : Instant
  clock : Instant → Timestamp

inductive Failure where
  | settings (f : SettingFault)
  | model (e : ModelError)
  | workspace (path : String) (e : OsError)
  | refused (reason : Refusal)
  | transcript (e : TranscriptError)

namespace Failure

def chain : Failure → String × Option String
  | .settings f => ("Invalid configuration", some (ConfigError.invalid f).message)
  | .model e => (e.message, none)
  | .workspace path e => ("Cannot open workspace " ++ path, some e.message)
  | .refused reason => (reason.message, none)
  | .transcript e => (e.message, none)

def report (f : Failure) : String :=
  "Error: " ++ f.chain.1 ++
    (match f.chain.2 with
      | some cause => "\n\nCaused by:\n    " ++ cause.replace "\n" "\n    "
      | none => "") ++ "\n"

end Failure

inductive Ending where
  /-- It explains itself, or complains of its command line. -/
  | usage (e : CommandLine.UsageError)
  | printed (j : Json)
  | failed (f : Failure)
  | panicked (message : String)
  /-- It is killed. -/
  | killed

namespace Ending

def code : Ending → Nat
  | .usage .help | .usage .version => 0
  | .usage _ => 2
  | .printed _ => 0
  | .failed _ => 1
  | .panicked _ => 101
  | .killed => 130

end Ending

/-- What the program leaves behind. -/
structure Finished where
  ending : Ending
  files : FileSystem
  sent : List Http.Request

def contextOf (w : Surroundings) (s : Settings) (o : RunOptions) : Except Fault Context :=
  Context.fork (Uuid.ofRandom (w.random 0 1)) (w.clock w.now) ("cli-" ++ Uuid.ofRandom (w.random 0 0))
    [Message.user o.task] o.skill s.allowedTools s.limits

def policyOf (w : Surroundings) (s : Settings) : Supervisor.Policy where
  maxRunning := s.maxRunning
  shutdownTimeout := s.shutdownTimeout
  clock := w.clock

/-- More actions than a session takes. -/
def fuel : Nat := 1000000000

/-- The session with a sub-agent, once its transcript is open. -/
def converse (w : Surroundings) (s : Settings) (client : Model.Client) (workspace : Workspace)
    (context : Context) (transcript : Transcript) (files : FileSystem) (x : Http.Exchange) : Finished :=
  let setting : Setting :=
    { id := context.id, client, workspace, transcript, policy := policyOf w s, random := w.random }
  let files := transcript.log files (w.clock w.now) (Event.ofContext context)
  let executor := Agent.Executor.new Workspace.definitions s.maxIterations
  let session := (Session.start context executor w.now files x).play setting fuel
  let ending : Ending := match session.phase with
    | .closed (.recorded r) => .printed r.toJson
    | .closed (.refused reason) => .failed (.refused reason)
    | .closed (.panicked message) => .panicked message
    | _ => .killed
  ⟨ending, session.files, session.exchange.sent⟩

def runTask (w : Surroundings) (s : Settings) (o : RunOptions) : Finished :=
  let client : Model.Client := { model := s.model, url := s.ollamaUrl }
  match client.check w.exchange with
  | (.error (.error e), x) => ⟨.failed (.model e), w.files, x.sent⟩
  | (.error .interrupted, x) => ⟨.killed, w.files, x.sent⟩
  | (.ok (), x) =>
    match Workspace.create w.files (Path.ofString s.workspace) with
    | (files, .error e) => ⟨.failed (.workspace s.workspace e), files, x.sent⟩
    | (files, .ok workspace) =>
      match contextOf w s o with
      | .error f => ⟨.failed (.refused (.invalid f)), files, x.sent⟩
      | .ok context =>
        match Transcript.create files workspace.root.path context.id with
        | (files, .error e) => ⟨.failed (.transcript e), files, x.sent⟩
        | (files, .ok transcript) => converse w s client workspace context transcript files x

def listTools (w : Surroundings) (s : Settings) : Finished :=
  match Workspace.create w.files (Path.ofString s.workspace) with
  | (files, .error e) => ⟨.failed (.workspace s.workspace e), files, w.exchange.sent⟩
  | (files, .ok _) =>
    ⟨.printed (.arr (Workspace.definitions.map ToolDefinition.toJson)), files, w.exchange.sent⟩

def perform (w : Surroundings) (command : Command) : Finished :=
  match Config.load w.files w.environment command with
  | .error f => ⟨.failed (.settings f), w.files, w.exchange.sent⟩
  | .ok s =>
    match command with
    | .run o => runTask w s o
    | .tools _ => listTools w s

/-- The program, given a command line without its own name. -/
def run (w : Surroundings) (args : List String) : Finished :=
  match CommandLine.parse args with
  | .error e => ⟨.usage e, w.files, w.exchange.sent⟩
  | .ok command => perform w command

end Overseer.Program

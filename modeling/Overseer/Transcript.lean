import Overseer.Context
import Overseer.FileSystem.Operations
import Overseer.Record

/-!
# Transcripts

A run is written down in a file of its own, one line of JSON for each event, in a directory beside the
workspace, where the tools of the workspace do not reach. Lines are only ever appended.
-/
namespace Overseer

inductive Event where
  | runStart (id parentId skill : String) (allowedTools : Option (List String))
      (maxTokens maxToolCalls : Int) (timeoutMillis historyLength : Nat)
  | step (number : Nat) (action result : String) (tokens durationMillis : Nat)
  | statusChange (status : Status)
  | runEnd (status : Status) (tokens toolCalls executionMillis : Nat) (error : String)
  deriving DecidableEq, Repr, Inhabited

namespace Event

def ofContext (c : Context) : Event :=
  .runStart c.id c.parentId c.skill c.allowedTools c.limits.maxTokens c.limits.maxToolCalls
    c.limits.timeout.millis c.history.length

/-- The events that end the transcript of a run: its steps in order, then how it ended. -/
def ofRecord (r : Record) : List Event :=
  r.steps.map (fun s => .step s.number s.action s.result s.tokens s.duration.millis) ++
    [.runEnd r.status r.tokens r.toolCalls r.executionTime.millis r.error]

/-- An optional list of tools is left out if there is none, and so is an empty error. -/
def toJson (time : Timestamp) : Event → Json
  | .runStart id parentId skill allowedTools maxTokens maxToolCalls timeoutMillis historyLength =>
    .obj ([
      ("event_type", .str "run_start"),
      ("timestamp", .str time.millisText),
      ("subagent_id", .str id),
      ("parent_context_id", .str parentId),
      ("skill_name", .str skill)] ++
      (match allowedTools with
        | none => []
        | some names => [("allowed_tools", Json.strings names)]) ++ [
      ("max_tokens", .int maxTokens),
      ("max_tool_calls", .int maxToolCalls),
      ("timeout_ms", .nat timeoutMillis),
      ("history_len", .nat historyLength)])
  | .step number action result tokens durationMillis =>
    .obj [
      ("event_type", .str "step"),
      ("timestamp", .str time.millisText),
      ("step_number", .nat number),
      ("action", .str action),
      ("result", .str result),
      ("tokens_used", .nat tokens),
      ("duration_ms", .nat durationMillis)]
  | .statusChange status =>
    .obj [
      ("event_type", .str "status_change"),
      ("timestamp", .str time.millisText),
      ("status", status.toJson)]
  | .runEnd status tokens toolCalls executionMillis error =>
    .obj ([
      ("event_type", .str "run_end"),
      ("timestamp", .str time.millisText),
      ("status", status.toJson),
      ("tokens_used", .nat tokens),
      ("tool_calls_made", .nat toolCalls),
      ("execution_ms", .nat executionMillis)] ++
      (if error.isEmpty then [] else [("error_message", .str error)]))

def line (time : Timestamp) (e : Event) : String := (e.toJson time).compact ++ "\n"

end Event

/-- A transcript that is open for appending. -/
structure Transcript where
  path : Path
  file : Location
  deriving DecidableEq, Repr, Inhabited

inductive TranscriptError where
  | noParent (workspace : Path)
  | io (error : OsError)
  deriving DecidableEq, Repr

def TranscriptError.message : TranscriptError → String
  | .noParent workspace => "Workspace path '" ++ workspace.display ++ "' has no parent directory"
  | .io error => error.message

namespace Transcript

/-- The directory of the transcripts for a workspace: beside it, by the text of its path (`log_dir_for`). -/
def directory (workspace : Path) : Except TranscriptError Path :=
  match workspace.parent? with
  | none => .error (.noParent workspace)
  | some parent => .ok (parent.join (Path.ofString ".delegate-logs"))

def create (fs : FileSystem) (workspace : Path) (id : String) :
    FileSystem × Except TranscriptError Transcript :=
  match directory workspace with
  | .error e => (fs, .error e)
  | .ok dir =>
    match fs.createDirAll dir with
    | (fs, .error e) => (fs, .error (.io e))
    | (fs, .ok ()) =>
      let path := dir.join (Path.ofString ("subagent-" ++ id ++ ".jsonl"))
      match fs.openForAppend path with
      | .error e => (fs, .error (.io e))
      | .ok (file, fs) => (fs, .ok ⟨path, file⟩)

def log (t : Transcript) (fs : FileSystem) (time : Timestamp) (e : Event) : FileSystem :=
  fs.append t.file (e.line time).toUTF8

def logAll (t : Transcript) (fs : FileSystem) (time : Timestamp) (events : List Event) : FileSystem :=
  events.foldl (fun fs e => t.log fs time e) fs

end Transcript

end Overseer

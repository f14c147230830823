import Overseer.Chat
import Overseer.Error
import Overseer.FileSystem.Operations

/-!
# File tools in a workspace

The tools `file_read`, `file_write` and `list_dir` of one workspace directory. Reading is unrestricted;
writing and listing are confined to the directory. A call that is malformed is an error, which ends the
run; whatever goes wrong with the files is told to the model in the tool's output.
-/
namespace Overseer

/-- A directory that tools work in, with all links on the way to it resolved. -/
structure Workspace where
  root : Location
  deriving DecidableEq, Repr, Inhabited

namespace Workspace

/-- Makes the directory if it is missing and resolves it. -/
def create (fs : FileSystem) (path : Path) : FileSystem × Except OsError Workspace :=
  match fs.createDirAll path with
  | (fs, .error e) => (fs, .error e)
  | (fs, .ok ()) => (fs, (fs.canonicalize path).map Workspace.mk)

/-- A path as seen from the workspace (`resolve`); an absolute one stands for itself. -/
def pathOf (w : Workspace) (path : String) : Path := Path.join w.root.path (Path.ofString path)

/-- The nearest thing on the way to `p` that is there, and the names that lead on from it; none if the
way there leads through a missing directory and up again. -/
def anchor (fs : FileSystem) : Nat → Path → List Name → Option (Path × List Name)
  | 0, _, _ => none
  | fuel + 1, p, tail =>
    if fs.exists? p then some (p, tail)
    else
      match Path.fileName? p, Path.parent? p with
      | some n, some q => anchor fs fuel q (n :: tail)
      | _, _ => none

/-- Whether a path leads to a place inside the workspace: the nearest thing on the way that is there is
resolved, and the names that lead on from it are taken as they stand. A link counts as being there even
if it leads nowhere, so that nothing is made behind it. -/
def contains (w : Workspace) (fs : FileSystem) (p : Path) : Except OsError Bool :=
  match anchor fs (p.length + 1) p [] with
  | none => .ok false
  | some (q, tail) => do
    let l ← fs.canonicalize q
    return w.root.isPrefixOf (l ++ tail)

/-- An output that tells the model what went wrong. -/
def failure (text : String) : String := (Json.obj [("error", .str text)]).compact

def requiredText (tool : String) (args : Dict Json) (key : String) : Except ToolError String :=
  match (Dict.get? key args).bind Json.str? with
  | some s => .ok s
  | none => .error (.invalidArguments tool ("missing or invalid '" ++ key ++ "' argument"))

def fileRead (w : Workspace) (fs : FileSystem) (path : String) : String :=
  match fs.readText (w.pathOf path) with
  | .ok content => content
  | .error e => failure ("file_read: " ++ e.message)

/-- Writes a file inside the workspace and makes the directories it needs. -/
def fileWrite (w : Workspace) (fs : FileSystem) (path content : String) : FileSystem × String :=
  let full := w.pathOf path
  match Path.parent? full with
  | none => (fs, failure "file_write: path has no parent directory")
  | some parent =>
    match w.contains fs full with
    | .error e => (fs, failure ("file_write: failed to resolve path: " ++ e.message))
    | .ok false =>
      (fs, failure ("file_write: path '" ++ path ++ "' is outside the workspace directory"))
    | .ok true =>
      match fs.createDirAll parent with
      | (fs, .error e) => (fs, failure ("file_write: failed to create directories: " ++ e.message))
      | (fs, .ok ()) =>
        match fs.writeFile full content.toUTF8 with
        | .error e => (fs, failure ("file_write: " ++ e.message))
        | .ok fs =>
          (fs, (Json.obj [("path", .str path), ("written_bytes", .nat content.utf8ByteSize)]).compact)

/-- How an entry is listed: a slash marks a directory. -/
def entryText (e : FileSystem.DirEntry) : String :=
  Utf8.lossy e.name ++ (if e.isDir then "/" else "")

/-- The entries of a directory inside the workspace in order. A failure between two entries is left out, as it is in
`readDir`: once the directory is found, all of it is listed. -/
def listDir (w : Workspace) (fs : FileSystem) (path : String) : String :=
  let dir := w.pathOf path
  match w.contains fs dir with
  | .error e => failure ("list_dir: " ++ e.message)
  | .ok false => failure ("list_dir: path '" ++ path ++ "' is outside the workspace directory")
  | .ok true =>
    match fs.readDir dir with
    | .error e => failure ("list_dir: " ++ e.message)
    | .ok entries =>
      let lines := (entries.map entryText).mergeSort fun a b => !(b < a)
      (Json.obj [("entries", Json.strings lines), ("path", .str path)]).compact

def execute (w : Workspace) (fs : FileSystem) (tool : String) (args : Dict Json) :
    FileSystem × Except ToolError String :=
  if tool = "file_read" then
    match requiredText tool args "path" with
    | .error e => (fs, .error e)
    | .ok path => (fs, .ok (w.fileRead fs path))
  else if tool = "file_write" then
    match requiredText tool args "path" with
    | .error e => (fs, .error e)
    | .ok path =>
      match requiredText tool args "content" with
      | .error e => (fs, .error e)
      | .ok content =>
        match w.fileWrite fs path content with
        | (fs, output) => (fs, .ok output)
  else if tool = "list_dir" then
    (fs, .ok (w.listDir fs (((Dict.get? "path" args).bind Json.str?).getD ".")))
  else (fs, .error (.unknownTool tool))

def textProperty (description : String) : Json :=
  .obj [("description", .str description), ("type", .str "string")]

def definitions : List ToolDefinition := [
  { name := "file_read"
    description := "Read the contents of a file. The path can be relative to the workspace root or absolute."
    schema := .obj [
      ("properties", .obj [("path", textProperty "File path, relative to workspace or absolute")]),
      ("required", Json.strings ["path"]),
      ("type", .str "object")] },
  { name := "file_write"
    description := "Write content to a file inside the workspace. Parent directories are created; " ++
      "writes outside the workspace are rejected."
    schema := .obj [
      ("properties", .obj [
        ("content", textProperty "Content to write to the file"),
        ("path", textProperty "File path relative to the workspace root")]),
      ("required", Json.strings ["path", "content"]),
      ("type", .str "object")] },
  { name := "list_dir"
    description := "List the entries of a workspace directory. Directories are suffixed with '/'."
    schema := .obj [
      ("properties", .obj [
        ("path", textProperty "Directory relative to the workspace root (default '.')")]),
      ("type", .str "object")] }]

end Workspace

end Overseer

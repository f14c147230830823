import Overseer.Program.Run

/-!
# The command line

Shows the program what it has to see of the disk, runs it, and puts on the disk what it has made. There
is no network here: every request is dropped, so no sub-agent gets as far as its transcript.
-/
namespace Overseer.Disk

def look (fs : FileSystem) (l : Location) : IO FileSystem := do
  let place := (← IO.currentDir) / l.path.display
  if ← place.isDir then return fs.put l .dir
  else
    try return fs.put l (.file (← IO.FS.readBinFile place))
    catch _ => return fs

def survey (fs : FileSystem) (p : Path) : IO FileSystem := do
  let mut fs := fs
  let mut place : Location := if p.isAbsolute then [] else fs.cwd
  for name in p.components do
    place := if name = Path.up then place.parent else place ++ [name]
    fs ← look fs place
  return fs

def surveyFor (fs : FileSystem) (env : Environment) (command : Command) : IO FileSystem := do
  let fs ← match Config.baseFile? env command with
    | some path => survey fs path
    | none => pure fs
  let fs ← survey fs (Config.ownFile command (Config.base fs env command))
  match Config.load fs env command with
  | .ok s => survey fs (Path.ofString s.workspace)
  | .error _ => return fs

def store (before after : FileSystem) : IO Unit := do
  for (l, object) in after.objects do
    let place := (← IO.currentDir) / l.path.display
    match before.get? l, object with
    | some _, .dir | _, .link _ => pure ()
    | none, .dir => IO.FS.createDirAll place
    | old, .file content =>
      if old.isSome && before.contentAt l == content then pure ()
      else
        if let some parent := place.parent then IO.FS.createDirAll parent
        IO.FS.writeBinFile place content

end Overseer.Disk

namespace Overseer.CommandLine

def usage : String :=
  "Usage: overseer run --skill <SKILL> --task <TASK> [OPTIONS]\n" ++
  "       overseer tools [--workspace <DIR>]\n"

end Overseer.CommandLine

open Overseer in
def main (args : List String) : IO UInt32 := do
  let env : Environment := { home := ← IO.getEnv "HOME", configHome := ← IO.getEnv "XDG_CONFIG_HOME" }
  let cwd := Path.ofString (← IO.currentDir).toString
  let before ← Disk.survey { cwd := cwd.components } cwd
  let before ← match CommandLine.parse args with
    | .ok command => Disk.surveyFor before env command
    | .error _ => pure before
  let seed ← IO.rand 0 (Word.count64 * Word.count64 - 1)
  let finished := Program.run
    { files := before
      environment := env
      exchange := { script := [] }
      random := fun row n => seed + row * Word.count64 + n
      now := ← IO.monoNanosNow
      clock := Timestamp.ofUnixNanos } args
  Disk.store before finished.files
  match finished.ending with
  | .usage .help => IO.print CommandLine.usage
  | .usage .version => IO.println "overseer 0.1.0"
  | .usage _ => IO.eprint CommandLine.usage
  | .printed j => IO.println j.pretty
  | .failed f => IO.eprint f.report
  | .panicked message => IO.eprintln message
  | .killed => pure ()
  return UInt32.ofNat finished.ending.code

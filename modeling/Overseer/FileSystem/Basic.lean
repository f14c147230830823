import Overseer.FileSystem.Path
import Overseer.OsError

/-!
# File trees

A file system maps locations to files, directories and symbolic links. A location is the list of names
that leads to it from the root directory, which is always there. Symbolic links play no part in it: they
matter only for how a path is resolved to a location.
-/
namespace Overseer

/-- The names that lead to a place from the root directory. -/
abbrev Location := List Name

namespace Location

/-- The directory a place is in; the root is in itself. -/
def parent (l : Location) : Location := l.dropLast

/-- The absolute path that names each directory on the way. -/
def path : Location → Path
  | [] => [Path.slash]
  | l => l.flatMap fun n => Path.slash :: n

end Location

inductive Object where
  | file (content : ByteArray)
  | dir
  | link (target : Path)
  deriving Inhabited

def Object.isDir : Object → Bool
  | .dir => true
  | _ => false

/-- A tree of files, directories and links, seen by a process with a working directory. -/
structure FileSystem where
  cwd : Location := []
  objects : List (Location × Object) := []
  deriving Inhabited

namespace FileSystem

def get? (fs : FileSystem) (l : Location) : Option Object :=
  if l = [] then some .dir else fs.objects.lookup l

def put (fs : FileSystem) (l : Location) (o : Object) : FileSystem :=
  { fs with objects := (l, o) :: fs.objects.filter (·.1 ≠ l) }

def isDirAt (fs : FileSystem) (l : Location) : Bool :=
  (fs.get? l).any Object.isDir

def namesIn (fs : FileSystem) (l : Location) : List Name :=
  fs.objects.filterMap fun e =>
    match e.1.getLast? with
    | some n => if e.1.dropLast = l then some n else none
    | none => none

end FileSystem

end Overseer

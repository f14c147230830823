import Overseer.FileSystem.Basic

/-!
# Path resolution

A path is resolved name by name from the root or the working directory. Every name but the last has to
lead to a directory; a symbolic link on the way is replaced by its target, at most forty times in all.
A link that the path ends with is followed or not, as the operation asks; a slash at the end always
follows it and demands a directory. The result is an object that exists, or a free place for one in a
directory that exists.
-/
namespace Overseer

/-- The names a path consists of, as the system reads it. -/
structure Route where
  absolute : Bool
  names : List Name
  /-- A slash stands at the end. -/
  slash : Bool
  deriving DecidableEq, Repr

namespace Route

def ofPath (p : Path) : Route where
  absolute := Path.isAbsolute p
  names := (Path.pieces p).filter (fun n => !n.isEmpty)
  slash := p.getLast? == some Path.slash

end Route

inductive Place where
  | found (l : Location)
  | free (dir : Location) (name : Name)
  deriving DecidableEq, Repr

namespace FileSystem

/-- The longest name, in bytes. -/
def maxName : Nat := 255

/-- The longest path, in bytes. -/
def maxPath : Nat := 4095

/-- How many links are followed for one path. -/
def maxLinks : Nat := 40

/-- How an operation treats the end of a path. -/
inductive Ending where
  /-- A link at the end is the object itself. -/
  | keepLink
  /-- A link at the end is followed. -/
  | follow
  /-- A link at the end is followed, and what is not there will be made as a file. -/
  | make
  deriving DecidableEq, Repr

/-- Goes on from a location by some names. `slash` says that a slash follows the last. -/
def walk (fs : FileSystem) (ending : Ending) (links : Nat) (here : Location) (names : List Name)
    (slash : Bool) : Except OsError Place :=
  match names with
  | [] => .ok (.found here)
  | name :: rest =>
    if fs.isDirAt here = false then .error .notDirectory
    else if name = Path.here then walk fs ending links here rest slash
    else if name = Path.up then walk fs ending links here.parent rest slash
    else if rest = [] ∧ ending = .make ∧ slash then .error .isDirectory
    else if name.length > maxName then .error .nameTooLong
    else
      match fs.get? (here ++ [name]) with
      | none => if rest = [] then .ok (.free here name) else .error .noEntry
      | some (.link target) =>
        if rest = [] ∧ ending = .keepLink ∧ slash = false then .ok (.found (here ++ [name]))
        else
          match links with
          | 0 => .error .tooManyLinks
          | links + 1 =>
            let route := Route.ofPath target
            walk fs ending links (if route.absolute then [] else here) (route.names ++ rest)
              (if rest = [] then slash || route.slash else slash)
      | some o =>
        if rest = [] ∧ slash ∧ o.isDir = false then .error .notDirectory
        else walk fs ending links (here ++ [name]) rest slash
termination_by (links, names.length)

/-- What the system refuses before it looks at any directory. -/
def screen (p : Path) : Except OsError Unit :=
  if p.contains 0 then .error .nulInName
  else if p = [] then .error .noEntry
  else if p.length > maxPath then .error .nameTooLong
  else .ok ()

/-- Where a path leads. -/
def resolve (fs : FileSystem) (ending : Ending) (p : Path) : Except OsError Place := do
  screen p
  let route := Route.ofPath p
  walk fs ending maxLinks (if route.absolute then [] else fs.cwd) route.names route.slash

def locate (fs : FileSystem) (ending : Ending) (p : Path) : Except OsError Location := do
  match ← fs.resolve ending p with
  | .found l => .ok l
  | .free _ _ => .error .noEntry

end FileSystem

end Overseer

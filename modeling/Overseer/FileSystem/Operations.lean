import Overseer.FileSystem.Resolve

/-!
# Operations on files

Reading and writing whole files, making directories, listing and resolving. Each operation either fails
and leaves the tree as it is, or does the whole of what it says; `createDirAll` alone may fail after it
has made some of the directories. Files and directories carry no permissions: whoever finds one may read and write it.
-/
namespace Overseer.FileSystem

/-- Whether a path leads to an object, be it a link that leads nowhere. -/
def exists? (fs : FileSystem) (p : Path) : Bool := (fs.locate .keepLink p).isOk

def isDir (fs : FileSystem) (p : Path) : Bool :=
  match fs.locate .follow p with
  | .ok l => fs.isDirAt l
  | .error _ => false

def canonicalize (fs : FileSystem) (p : Path) : Except OsError Location := fs.locate .follow p

def readFile (fs : FileSystem) (p : Path) : Except OsError ByteArray := do
  match fs.get? (← fs.locate .follow p) with
  | some (.file content) => .ok content
  | some .dir => .error .isDirectory
  | _ => .error .noEntry

def readText (fs : FileSystem) (p : Path) : Except OsError String := do
  match String.fromUTF8? (← fs.readFile p) with
  | some s => .ok s
  | none => .error .notText

def locateForWriting (fs : FileSystem) (p : Path) : Except OsError Location := do
  match ← fs.resolve .make p with
  | .free dir name => .ok (dir ++ [name])
  | .found l => if fs.isDirAt l then .error .isDirectory else .ok l

/-- The content of the file at a location, empty if there is none. -/
def contentAt (fs : FileSystem) (l : Location) : ByteArray :=
  match fs.get? l with
  | some (.file content) => content
  | _ => .empty

/-- Makes the content of a file anew; the file is made if it is not there. -/
def writeFile (fs : FileSystem) (p : Path) (content : ByteArray) : Except OsError FileSystem := do
  let l ← fs.locateForWriting p
  return fs.put l (.file content)

/-- Opens a file for appending: its location, and the tree with the file made if it was not there. -/
def openForAppend (fs : FileSystem) (p : Path) : Except OsError (Location × FileSystem) := do
  let l ← fs.locateForWriting p
  return (l, fs.put l (.file (fs.contentAt l)))

def append (fs : FileSystem) (l : Location) (more : ByteArray) : FileSystem :=
  fs.put l (.file (fs.contentAt l ++ more))

/-- Makes a symbolic link; nothing may stand in its place. -/
def createLink (fs : FileSystem) (target p : Path) : Except OsError FileSystem := do
  match ← fs.resolve .keepLink p with
  | .found _ => .error .exists_
  | .free dir name => .ok (fs.put (dir ++ [name]) (.link target))

def createDir (fs : FileSystem) (p : Path) : Except OsError FileSystem := do
  screen p
  let route := Route.ofPath p
  let start := if route.absolute then [] else fs.cwd
  match route.names.getLast? with
  | none => .error .exists_
  | some name =>
    match ← fs.walk .follow maxLinks start route.names.dropLast false with
    | .free _ _ => .error .noEntry
    | .found dir =>
      if fs.isDirAt dir = false then .error .notDirectory
      else if name = Path.here ∨ name = Path.up then .error .exists_
      else if name.length > maxName then .error .nameTooLong
      else if (fs.get? (dir ++ [name])).isSome then .error .exists_
      else .ok (fs.put (dir ++ [name]) .dir)

/-- Makes a directory and those above it that are missing. `fuel` bounds the number of directories. -/
def createDirAllWithin : Nat → FileSystem → Path → FileSystem × Except OsError Unit
  | 0, fs, _ => (fs, .error .noEntry)
  | fuel + 1, fs, p =>
    if p = [] then (fs, .ok ())
    else
      match fs.createDir p with
      | .ok fs => (fs, .ok ())
      | .error e =>
        if e = .noEntry then
          match Path.parent? p with
          | none => (fs, .error e)
          | some q =>
            match createDirAllWithin fuel fs q with
            | (fs, .error e) => (fs, .error e)
            | (fs, .ok ()) =>
              match fs.createDir p with
              | .ok fs => (fs, .ok ())
              | .error e => if fs.isDir p then (fs, .ok ()) else (fs, .error e)
        else if fs.isDir p then (fs, .ok ())
        else (fs, .error e)

def createDirAll (fs : FileSystem) (p : Path) : FileSystem × Except OsError Unit :=
  createDirAllWithin (p.length + 1) fs p

/-- An entry of a directory: its name, and whether the entry itself is a directory. -/
structure DirEntry where
  name : Name
  isDir : Bool
  deriving DecidableEq, Repr

/-- The entries of a directory, in the order of the tree. There are no permissions, so every directory can be read,
and reading does not break off on the way: what there is to fail is finding the directory. -/
def readDir (fs : FileSystem) (p : Path) : Except OsError (List DirEntry) := do
  let l ← fs.locate .follow p
  if fs.isDirAt l then
    .ok ((fs.namesIn l).map fun n => ⟨n, fs.isDirAt (l ++ [n])⟩)
  else .error .notDirectory

/-! ## Inventory -/

/-- Whether the bytes of one path come before those of another. -/
def pathBefore : Path → Path → Bool
  | [], _ :: _ => true
  | _, [] => false
  | a :: as, b :: bs => a < b || (a == b && pathBefore as bs)

/-- Everything below a location by its path from there, in the order of the paths' bytes. -/
def inventory (fs : FileSystem) (l : Location) : List (Path × Object) :=
  let below := fs.objects.filterMap fun e =>
    if l.isPrefixOf e.1 ∧ e.1 ≠ l then some (Path.ofPieces (e.1.drop l.length), e.2) else none
  below.mergeSort fun a b => !pathBefore b.1 a.1

end Overseer.FileSystem

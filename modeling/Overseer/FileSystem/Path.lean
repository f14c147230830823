import Overseer.Utf8

/-!
# Paths

A path is a string of bytes. Its components are separated by slashes; empty components and single dots
mean nothing, except a dot that a relative path begins with. `parent?` takes off the last component and
`join` goes on from a path, both by the text alone: no directory is looked at.
-/
namespace Overseer

abbrev Path := Bytes

abbrev Name := Bytes

namespace Path

def slash : UInt8 := 47

def dot : UInt8 := 46

/-- The name of a directory for itself. -/
def here : Name := [dot]

def up : Name := [dot, dot]

def ofString (s : String) : Path := Utf8.bytes s

def display (p : Path) : String := Utf8.lossy p

def isAbsolute : Path → Bool
  | b :: _ => b == slash
  | [] => false

/-- The pieces between slashes, empty ones included: one more than there are slashes. -/
def pieces : Path → List Name
  | [] => [[]]
  | b :: rest =>
    if b = slash then [] :: pieces rest
    else
      match pieces rest with
      | [] => [[b]]
      | p :: ps => (b :: p) :: ps

/-- The bytes of some pieces with slashes between them. -/
def ofPieces : List Name → Path
  | [] => []
  | [p] => p
  | p :: ps => p ++ slash :: ofPieces ps

/-- A piece that is no component: empty, or a single dot. -/
def isIdle (n : Name) : Bool := n.isEmpty || n == here

/-- What a path begins with: the root, the dot of a relative path, or nothing; and what follows. -/
def split (p : Path) : Path × Path :=
  match p with
  | [] => ([], [])
  | [b] => if b = slash ∨ b = dot then ([b], []) else ([], [b])
  | b :: c :: rest =>
    if b = slash then ([b], c :: rest)
    else if b = dot ∧ c = slash then ([b], c :: rest)
    else ([], b :: c :: rest)

/-- The pieces after the beginning of a path, last first; none if nothing follows it. -/
def backPieces (p : Path) : List Name :=
  if (split p).2.isEmpty then [] else (pieces (split p).2).reverse

/-- The path without its last component, and without idle pieces before that; none for the root and
for the empty path. -/
def parent? (p : Path) : Option Path :=
  match (backPieces p).dropWhile isIdle with
  | _ :: before => some ((split p).1 ++ ofPieces (before.dropWhile isIdle).reverse)
  | [] => if (split p).1 = [dot] then some [] else none

/-- The last component, unless it is the root, a dot or two. -/
def fileName? (p : Path) : Option Name :=
  match (backPieces p).dropWhile isIdle with
  | n :: _ => if n = up then none else some n
  | [] => none

/-- The components after the root or the dot of a relative path. -/
def components (p : Path) : List Name :=
  ((backPieces p).filter (fun n => !isIdle n)).reverse

/-- `q` as seen from `p`: `q` itself if it is absolute. -/
def join (p q : Path) : Path :=
  if isAbsolute q then q
  else
    match p.getLast? with
    | none => q
    | some b => if b = slash then p ++ q else p ++ slash :: q

end Path

end Overseer

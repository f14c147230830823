import Overseer.Toml.Scalar

/-!
# Reading TOML

`Toml.parse?` reads a document of TOML 1.1 as the entries of its root table, or refuses it as a whole.
-/
namespace Overseer.Toml

/-- A comment and what it may end with are left out; none if it holds a control character. -/
def skipComment : List Char → Option (List Char)
  | '#' :: rest =>
    let text := rest.takeWhile fun c => c ≠ '\n' && c ≠ '\r'
    let after := rest.drop text.length
    if text.all isPlain then some after else none
  | cs => some cs

/-- The end of a line: blanks, a comment, and a line break or the end of the text. -/
def endLine (cs : List Char) : Option (List Char) := do
  let cs ← skipComment (skipSpaces cs)
  match cs with
  | [] => some []
  | _ => lineBreak? cs

/-- Blanks, comments and line breaks left out. -/
def skipFiller : Nat → List Char → Option (List Char)
  | 0, cs => some cs
  | fuel + 1, cs => do
    let cs ← skipComment (skipSpaces cs)
    match lineBreak? cs with
    | some rest => skipFiller fuel rest
    | none => some cs

def isKeyChar (c : Char) : Bool := c.isAlphanum || c = '_' || c = '-'

def readKeyPart (cs : List Char) : Option (String × List Char) :=
  match cs with
  | '"' :: rest => readBasic (rest.length + 1) rest []
  | '\'' :: rest => readLiteral rest []
  | _ =>
    let part := cs.takeWhile isKeyChar
    if part = [] then none else some (String.ofList part, cs.drop part.length)

/-- A key of one or more parts with dots between them, and the blanks after it. -/
def readKey : Nat → List Char → Option (List String × List Char)
  | 0, _ => none
  | fuel + 1, cs => do
    let (part, rest) ← readKeyPart (skipSpaces cs)
    match skipSpaces rest with
    | '.' :: rest =>
      let (parts, rest) ← readKey fuel rest
      return (part :: parts, rest)
    | rest => some ([part], rest)

/-- How deep arrays and tables between braces may nest. -/
def maxNesting : Nat := 80

mutual

/-- A value. `fuel` bounds the number of values and separators, `depth` the nesting. -/
def readValue (fuel depth : Nat) (cs : List Char) : Option (Value × List Char) :=
  match fuel with
  | 0 => none
  | fuel + 1 =>
    match cs with
    | '[' :: rest =>
      if depth = 0 then none
      else do
        let (items, rest) ← readItems fuel (depth - 1) rest
        return (.array items, rest)
    | '{' :: rest =>
      if depth = 0 then none
      else do
        let (entries, rest) ← readEntries fuel (depth - 1) rest []
        return (.table .inline entries, rest)
    | '"' :: _ | '\'' :: _ => (readString cs).map fun (s, rest) => (.string s, rest)
    | _ => readWord cs

def readItems (fuel depth : Nat) (cs : List Char) : Option (List Value × List Char) :=
  match fuel with
  | 0 => none
  | fuel + 1 => do
    match ← skipFiller cs.length cs with
    | ']' :: rest => return ([], rest)
    | cs =>
      let (item, rest) ← readValue fuel depth cs
      match ← skipFiller rest.length rest with
      | ']' :: rest => return ([item], rest)
      | ',' :: rest =>
        let (items, rest) ← readItems fuel depth rest
        return (item :: items, rest)
      | _ => none

def readEntries (fuel depth : Nat) (cs : List Char) (entries : List (String × Value)) :
    Option (List (String × Value) × List Char) :=
  match fuel with
  | 0 => none
  | fuel + 1 => do
    match ← skipFiller cs.length cs with
    | '\x7d' :: rest => return (entries, rest)
    | cs =>
      let (key, rest) ← readKey cs.length cs
      let rest ← after? '=' rest
      let (value, rest) ← readValue fuel depth (skipSpaces rest)
      let entries ← assign key value entries
      match ← skipFiller rest.length rest with
      | '\x7d' :: rest => return (entries, rest)
      | ',' :: rest => readEntries fuel depth rest entries
      | _ => none

end

/-- The lines of a document, given the entries so far and the table opened last. -/
def readDocument : Nat → List Char → List (String × Value) → List String → Option (List (String × Value))
  | 0, _, _, _ => none
  | fuel + 1, cs, root, current => do
    match ← skipFiller cs.length cs with
    | [] => return root
    | '[' :: '[' :: rest =>
      let (path, rest) ← readKey rest.length rest
      let rest ← after? ']' (← after? ']' rest)
      readDocument fuel (← endLine rest) (← openItem path root) path
    | '[' :: rest =>
      let (path, rest) ← readKey rest.length rest
      let rest ← after? ']' rest
      readDocument fuel (← endLine rest) (← openTable path root) path
    | cs =>
      let (key, rest) ← readKey cs.length cs
      let rest ← after? '=' rest
      let (value, rest) ← readValue cs.length maxNesting (skipSpaces rest)
      let root ← alterAt (assign key value) current root
      readDocument fuel (← endLine rest) root current

/-- The entries of a document's root table. A byte order mark may stand at the front. -/
def parse? (text : String) : Option (List (String × Value)) :=
  let cs := match text.toList with
    | c :: rest => if c.toNat = 0xFEFF then rest else c :: rest
    | [] => []
  readDocument (cs.length + 1) cs [] []

end Overseer.Toml

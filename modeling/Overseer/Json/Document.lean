import Overseer.Json.Basic

/-!
# Reading JSON text

A document is JSON text with its structure made out: the fields of an object stand in their order, with
repeated keys, and leaves that have the right form but no value (a number too large, an escape for half
a surrogate pair) are kept. What a document means is for its decoders to say: they read past such a
leaf where they ignore the field it stands in, and `value?` refuses it.
-/
namespace Overseer.Json

/-- JSON text with its structure made out. -/
inductive Document where
  | null
  | bool (b : Bool)
  | num (l : Literal)
  /-- The text of a string, none if an escape in it is half a surrogate pair. -/
  | str (s : Option String)
  | arr (items : List Document)
  | obj (fields : List (Option String × Document))
  deriving Repr, Inhabited

namespace Document

def isBlank (c : Char) : Bool := c = ' ' || c = '\n' || c = '\t' || c = '\r'

def skipBlanks : List Char → List Char
  | [] => []
  | c :: rest => if isBlank c then skipBlanks rest else c :: rest

def digit? (c : Char) : Option Nat :=
  if '0' ≤ c ∧ c ≤ '9' then some (c.toNat - 48) else none

def hex? (c : Char) : Option Nat :=
  if '0' ≤ c ∧ c ≤ '9' then some (c.toNat - 48)
  else if 'a' ≤ c ∧ c ≤ 'f' then some (c.toNat - 87)
  else if 'A' ≤ c ∧ c ≤ 'F' then some (c.toNat - 55)
  else none

def hex4? (a b c d : Char) : Option Nat := do
  return (((← hex? a) * 16 + (← hex? b)) * 16 + (← hex? c)) * 16 + (← hex? d)

def escape? (c : Char) : Option Char :=
  if c = '"' then some '"'
  else if c = '\\' then some '\\'
  else if c = '/' then some '/'
  else if c = 'b' then some (Char.ofNat 8)
  else if c = 'f' then some (Char.ofNat 12)
  else if c = 'n' then some '\n'
  else if c = 'r' then some '\r'
  else if c = 't' then some '\t'
  else none

def isHighHalf (n : Nat) : Bool := 0xD800 ≤ n && n ≤ 0xDBFF

def isLowHalf (n : Nat) : Bool := 0xDC00 ≤ n && n ≤ 0xDFFF

/-- A string part way through: its characters so far, last first, the first half of a surrogate pair
if the second is yet to come, and whether every escape so far stood for a character. -/
structure Partial where
  chars : List Char
  half : Option Nat
  sound : Bool

namespace Partial

def empty : Partial := ⟨[], none, true⟩

def push (p : Partial) (c : Char) : Partial := ⟨c :: p.chars, none, p.sound && p.half.isNone⟩

/-- Takes in the UTF-16 unit of an escape. -/
def pushUnit (p : Partial) (n : Nat) : Partial :=
  match p.half with
  | some high =>
    if isLowHalf n then
      ⟨Char.ofNat (0x10000 + (high - 0xD800) * 0x400 + (n - 0xDC00)) :: p.chars, none, p.sound⟩
    else if isHighHalf n then ⟨p.chars, some n, false⟩
    else ⟨Char.ofNat n :: p.chars, none, false⟩
  | none =>
    if isHighHalf n then ⟨p.chars, some n, p.sound⟩
    else if isLowHalf n then ⟨p.chars, none, false⟩
    else ⟨Char.ofNat n :: p.chars, none, p.sound⟩

def finish (p : Partial) : Option String :=
  if p.sound && p.half.isNone then some (String.ofList p.chars.reverse) else none

end Partial

/-- The rest of a string, and what follows its closing quote. -/
def readString : List Char → Partial → Option (Option String × List Char)
  | [], _ => none
  | '"' :: rest, p => some (p.finish, rest)
  | '\\' :: 'u' :: a :: b :: c :: d :: rest, p =>
    match hex4? a b c d with
    | none => none
    | some n => readString rest (p.pushUnit n)
  | '\\' :: c :: rest, p =>
    match escape? c with
    | none => none
    | some e => readString rest (p.push e)
  | c :: rest, p => if c.toNat < 32 then none else readString rest (p.push c)

/-- The digits at the front of some text. -/
def takeDigits : List Char → List Nat × List Char
  | [] => ([], [])
  | c :: rest =>
    match digit? c with
    | none => ([], c :: rest)
    | some d => let (ds, rest') := takeDigits rest; (d :: ds, rest')

/-- The digits before the point: a zero stands alone. -/
def readWhole (cs : List Char) : Option (List Nat × List Char) :=
  match takeDigits cs with
  | ([], _) => none
  | (0 :: _ :: _, _) => none
  | (ds, rest) => some (ds, rest)

def readFraction : List Char → Option (Option (List Nat) × List Char)
  | '.' :: rest =>
    match takeDigits rest with
    | ([], _) => none
    | (ds, rest') => some (some ds, rest')
  | cs => some (none, cs)

def readExponent : List Char → Option (Option (Bool × List Nat) × List Char)
  | c :: rest =>
    if c = 'e' ∨ c = 'E' then
      let (negative, rest) := match rest with
        | '-' :: r => (true, r)
        | '+' :: r => (false, r)
        | r => (false, r)
      match takeDigits rest with
      | ([], _) => none
      | (ds, rest') => some (some (negative, ds), rest')
    else some (none, c :: rest)
  | [] => some (none, [])

def readNumber (cs : List Char) : Option (Literal × List Char) := do
  let (negative, cs) := match cs with
    | '-' :: rest => (true, rest)
    | _ => (false, cs)
  let (whole, cs) ← readWhole cs
  let (fraction, cs) ← readFraction cs
  let (exponent, cs) ← readExponent cs
  return (⟨negative, whole, fraction, exponent⟩, cs)

def word? : List Char → List Char → Option (List Char)
  | [], cs => some cs
  | w :: ws, c :: cs => if w = c then word? ws cs else none
  | _ :: _, [] => none

mutual

/-- One value after any blanks. `fuel` bounds the number of values and separators. -/
def readValue (fuel : Nat) (cs : List Char) : Option (Document × List Char) :=
  match fuel with
  | 0 => none
  | fuel + 1 =>
    match skipBlanks cs with
    | [] => none
    | c :: rest =>
      if c = 'n' then (word? ['u', 'l', 'l'] rest).map (.null, ·)
      else if c = 't' then (word? ['r', 'u', 'e'] rest).map (.bool true, ·)
      else if c = 'f' then (word? ['a', 'l', 's', 'e'] rest).map (.bool false, ·)
      else if c = '"' then do
        let (s, rest) ← readString rest .empty
        return (.str s, rest)
      else if c = '[' then
        match skipBlanks rest with
        | ']' :: rest => some (.arr [], rest)
        | rest => do
          let (items, rest) ← readItems fuel rest
          return (.arr items, rest)
      else if c = '{' then
        match skipBlanks rest with
        | '}' :: rest => some (.obj [], rest)
        | rest => do
          let (fields, rest) ← readFields fuel rest
          return (.obj fields, rest)
      else do
        let (l, rest) ← readNumber (c :: rest)
        return (.num l, rest)

def readItems (fuel : Nat) (cs : List Char) : Option (List Document × List Char) :=
  match fuel with
  | 0 => none
  | fuel + 1 => do
    let (item, rest) ← readValue fuel cs
    match skipBlanks rest with
    | ']' :: rest => some ([item], rest)
    | ',' :: rest =>
      let (items, rest) ← readItems fuel rest
      return (item :: items, rest)
    | _ => none

def readFields (fuel : Nat) (cs : List Char) : Option (List (Option String × Document) × List Char) :=
  match fuel with
  | 0 => none
  | fuel + 1 =>
    match skipBlanks cs with
    | '"' :: rest => do
      let (key, rest) ← readString rest .empty
      match skipBlanks rest with
      | ':' :: rest =>
        let (value, rest) ← readValue fuel rest
        match skipBlanks rest with
        | '}' :: rest => some ([(key, value)], rest)
        | ',' :: rest =>
          let (fields, rest) ← readFields fuel rest
          return ((key, value) :: fields, rest)
        | _ => none
      | _ => none
    | _ => none

end

def ofChars? (cs : List Char) : Option Document := do
  let (d, rest) ← readValue (cs.length + 1) cs
  if skipBlanks rest = [] then some d else none

def parse? (text : String) : Option Document := ofChars? text.toList

/-! ## Values -/

mutual

/-- The value of a document, whose arrays and objects may nest at most `depth` deep. In an object the
last field of a name counts. -/
def value? (depth : Nat) : Document → Option Json
  | .null => some .null
  | .bool b => some (.bool b)
  | .num l => (Number.ofLiteral? l).map .num
  | .str s => s.map .str
  | .arr items =>
    match depth with
    | 0 => none
    | depth + 1 => (itemValues? depth items).map .arr
  | .obj fields =>
    match depth with
    | 0 => none
    | depth + 1 => (fieldValues? depth fields).map fun fs => .obj (Dict.ofList fs)

def itemValues? (depth : Nat) : List Document → Option (List Json)
  | [] => some []
  | d :: rest => do
    let j ← value? depth d
    let js ← itemValues? depth rest
    return j :: js

def fieldValues? (depth : Nat) : List (Option String × Document) → Option (List (String × Json))
  | [] => some []
  | (k, d) :: rest => do
    let k ← k
    let j ← value? depth d
    let fs ← fieldValues? depth rest
    return (k, j) :: fs

end

/-- How deep arrays and objects may nest. -/
def maxDepth : Nat := 127

end Document

def parse? (text : String) : Option Json := do
  (← Document.parse? text).value? Document.maxDepth

end Overseer.Json

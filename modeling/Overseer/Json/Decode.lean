import Overseer.Json.Document
import Overseer.Duration

/-!
# Decoding typed values

A decoder reads a document as a value of some type, or refuses it. A record is read from an object, in
which unknown fields are ignored and known ones may not be repeated, or from an array that lists its
fields in order. A field that is not there takes its default if it has one; an optional field may be
missing from an object but not from an array.
-/
namespace Overseer.Json

/-- Reads a document in which arrays and objects may still nest so deep. -/
abbrev Decoder (α : Type) := Nat → Document → Option α

namespace Decoder

/-- A decoder for a whole text. -/
def run {α : Type} (decoder : Decoder α) (text : String) : Option α := do
  decoder Document.maxDepth (← Document.parse? text)

def value : Decoder Json := Document.value?

def string : Decoder String
  | _, .str s => s
  | _, _ => none

def bool : Decoder Bool
  | _, .bool b => some b
  | _, _ => none

def int : Decoder Int
  | _, .num l =>
    match Number.ofLiteral? l with
    | some (.int n) => some n
    | _ => none
  | _, _ => none

def natUpTo (max : Nat) : Decoder Nat := fun depth d => do
  let n ← int depth d
  if 0 ≤ n ∧ n ≤ max then some n.toNat else none

def word64 : Decoder Nat := natUpTo (Word.count64 - 1)

def word32 : Decoder Nat := natUpTo (Word.count32 - 1)

def int64 : Decoder Int := fun depth d => do
  let n ← int depth d
  if Word.isSigned64 n then some n else none

def option {α : Type} (decoder : Decoder α) : Decoder (Option α)
  | _, .null => some none
  | depth, d => (decoder depth d).map some

def list {α : Type} (decoder : Decoder α) : Decoder (List α)
  | depth + 1, .arr items => items.mapM (decoder depth)
  | _, _ => none

/-- An object read as a dictionary, in which the last field of a name counts. -/
def dict {α : Type} (decoder : Decoder α) : Decoder (Dict α)
  | depth + 1, .obj fields => do
    let entries ← fields.mapM fun f => do return (← f.1, ← decoder depth f.2)
    return Dict.ofList entries
  | _, _ => none

/-! ## Records -/

/-- The fields of a record that are there. `ordered` says that they came from an array. -/
structure Row where
  ordered : Bool
  fields : List (String × Document)
  depth : Nat

/-- The known ones among the fields of an object; none if one is repeated or a key has no value. -/
def knownFields (names : List String) :
    List (Option String × Document) → List (String × Document) → Option (List (String × Document))
  | [], seen => some seen.reverse
  | (none, _) :: _, _ => none
  | (some k, d) :: rest, seen =>
    if k ∉ names then knownFields names rest seen
    else if (Dict.get? k seen).isSome then none
    else knownFields names rest ((k, d) :: seen)

/-- A record with these fields. -/
def record {α : Type} (names : List String) (body : Row → Option α) : Decoder α
  | depth + 1, .obj fields => do body ⟨false, ← knownFields names fields [], depth⟩
  | depth + 1, .arr items =>
    if items.length ≤ names.length then body ⟨true, names.zip items, depth⟩ else none
  | _, _ => none

/-- A record that refuses unknown fields. -/
def closedRecord {α : Type} (names : List String) (body : Row → Option α) : Decoder α
  | depth, .obj fields =>
    if fields.all (fun f => f.1.any (· ∈ names)) then record names body depth (.obj fields) else none
  | depth, d => record names body depth d

namespace Row

variable {α : Type}

def get (row : Row) (name : String) (decoder : Decoder α) : Option α := do
  decoder row.depth (← Dict.get? name row.fields)

def getD (row : Row) (name : String) (decoder : Decoder α) (default : α) : Option α :=
  match Dict.get? name row.fields with
  | none => some default
  | some d => decoder row.depth d

def getOption (row : Row) (name : String) (decoder : Decoder α) : Option (Option α) :=
  match Dict.get? name row.fields with
  | none => if row.ordered then none else some none
  | some d => option decoder row.depth d

end Row

/-! ## Alternatives -/

/-- An alternative of a choice and what stands with it: its name alone, or as the only key of an
object. -/
def alternative : Nat → Document → Option (String × Option Document × Nat)
  | depth, .str s => s.map (·, none, depth)
  | depth + 1, .obj [(some k, d)] => some (k, some d, depth)
  | _, _ => none

/-- Nothing stands with the alternative: no content at all, or null. -/
def bare : Option Document → Bool
  | none => true
  | some .null => true
  | some _ => false

def choice {α : Type} (choices : List (String × α)) : Decoder α := fun depth d => do
  let (name, content, _) ← alternative depth d
  if bare content then Dict.get? name choices else none

end Decoder

/-! ## Durations -/

def ofDuration (d : Duration) : Json :=
  .obj [("nanos", .nat d.subsecond), ("secs", .nat d.seconds)]

/-- A duration as seconds and nanoseconds; a second or more of nanoseconds is carried. -/
def Decoder.duration : Decoder Duration :=
  closedRecord ["secs", "nanos"] fun row => do
    let secs ← row.get "secs" word64
    let nanos ← row.get "nanos" word32
    Duration.ofNanos? (secs * nanosPerSecond + nanos)

end Overseer.Json

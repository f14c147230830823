/-!
# TOML values and tables

A document is built up line by line: headers open tables, and each assignment enters a value under a
dotted key of the table opened last. A table remembers how it came to be, since that decides whether it
may be opened or added to again.
-/
namespace Overseer.Toml

/-- How a table came to be. -/
inductive Origin where
  /-- On the way to a table that a header opened. -/
  | implied
  /-- Opened by a header. -/
  | opened
  /-- On the way of a dotted key. -/
  | dotted
  /-- Written between braces, which closes it. -/
  | inline
  deriving DecidableEq, Repr, Inhabited

inductive Value where
  | string (s : String)
  | integer (n : Int)
  | float
  | boolean (b : Bool)
  | datetime
  /-- Written between brackets, which closes it. -/
  | array (items : List Value)
  /-- Tables opened under one name by doubled headers. -/
  | tables (items : List Value)
  | table (origin : Origin) (entries : List (String × Value))
  deriving Inhabited, Repr

namespace Value

def entries : Value → List (String × Value)
  | .table _ es => es
  | _ => []

def items? : Value → Option (List Value)
  | .array vs => some vs
  | .tables vs => some vs
  | _ => none

end Value

/-- The entries with `value` under `key`, which keeps its place if it is there. -/
def setEntry (key : String) (value : Value) : List (String × Value) → List (String × Value)
  | [] => [(key, value)]
  | (k, v) :: rest => if k = key then (k, value) :: rest else (k, v) :: setEntry key value rest

/-- Changes the table at the end of a header's path, given the entries where the path begins. Tables that
are missing on the way are made; of tables under one name the last is meant. -/
def alterAt (change : List (String × Value) → Option (List (String × Value))) :
    List String → List (String × Value) → Option (List (String × Value))
  | [], es => change es
  | key :: path, es =>
    match es.lookup key with
    | none => do return setEntry key (.table .implied (← alterAt change path [])) es
    | some (.table .inline _) => none
    | some (.table origin inner) => do
      return setEntry key (.table origin (← alterAt change path inner)) es
    | some (.tables items) =>
      match items.getLast? with
      | some (.table origin inner) => do
        return setEntry key (.tables (items.dropLast ++ [.table origin (← alterAt change path inner)])) es
      | _ => none
    | some _ => none

/-- Opens the table that a header names: one that is new, or that was only on the way to others. -/
def openTable (path : List String) (es : List (String × Value)) : Option (List (String × Value)) :=
  match path.getLast? with
  | none => none
  | some key =>
    alterAt (fun es =>
      match es.lookup key with
      | none => some (setEntry key (.table .opened []) es)
      | some (.table .implied inner) => some (setEntry key (.table .opened inner) es)
      | some _ => none) path.dropLast es

/-- Opens one more table under the name in a doubled header. -/
def openItem (path : List String) (es : List (String × Value)) : Option (List (String × Value)) :=
  match path.getLast? with
  | none => none
  | some key =>
    alterAt (fun es =>
      match es.lookup key with
      | none => some (setEntry key (.tables [.table .opened []]) es)
      | some (.tables items) => some (setEntry key (.tables (items ++ [.table .opened []])) es)
      | some _ => none) path.dropLast es

/-- Enters a value under a dotted key. The table that gets the value is new or was made by such a key; on
the way to it there may also be tables that were only on the way of headers, and the last of those under
one name. `fits` says whether this table may get the value. -/
def enter (fits : Bool) : List String → Value → List (String × Value) → Option (List (String × Value))
  | [], _, _ => none
  | [key], value, es => if !fits || (es.lookup key).isSome then none else some (setEntry key value es)
  | key :: path, value, es =>
    match es.lookup key with
    | none => do return setEntry key (.table .dotted (← enter true path value [])) es
    | some (.table .dotted inner) => do
      return setEntry key (.table .dotted (← enter true path value inner)) es
    | some (.table .implied inner) => do
      return setEntry key (.table .implied (← enter false path value inner)) es
    | some (.tables items) =>
      match items.getLast? with
      | some (.table origin inner) => do
        return setEntry key (.tables (items.dropLast ++ [.table origin (← enter false path value inner)])) es
      | _ => none
    | some _ => none

/-- Enters a value under a dotted key of the table at hand. -/
def assign : List String → Value → List (String × Value) → Option (List (String × Value)) := enter true

end Overseer.Toml

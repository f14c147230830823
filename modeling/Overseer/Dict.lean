/-!
# Dictionaries

A dictionary lists its entries by ascending key, each key once. `put` and `ofList` keep that form; of
several entries given for one key the last one counts.
-/
namespace Overseer

/-- Entries by ascending key. -/
abbrev Dict (α : Type) := List (String × α)

namespace Dict

variable {α β : Type}

/-- Ascending keys, none twice. -/
def Sorted (d : Dict α) : Prop := d.Pairwise (fun a b => a.1 < b.1)

def get? (key : String) : Dict α → Option α
  | [] => none
  | (k, v) :: rest => if k = key then some v else get? key rest

def put (key : String) (value : α) : Dict α → Dict α
  | [] => [(key, value)]
  | (k, v) :: rest =>
    if key < k then (key, value) :: (k, v) :: rest
    else if key = k then (key, value) :: rest
    else (k, v) :: put key value rest

def ofList (entries : List (String × α)) : Dict α :=
  entries.foldl (fun d e => put e.1 e.2 d) []

end Dict

end Overseer

import Overseer.Proofs.FileSystem.Content

/-!
# Trees as maps

A file system is written down as a list of objects with their locations. Where no location has two objects, the
list is a map: the order of its entries does not matter for what stands where, nor for where a path leads. It
shows in one thing only, the order in which the entries of a directory are enumerated.

* `Distinct.mem_namesIn_iff`, `Distinct.namesIn_nodup`: a directory has the names of what stands in it, each once.
* `Reordered`: two trees that differ in the order of enumeration, and what they have in common.
-/
namespace Overseer.FileSystem

variable {fs fs' : FileSystem} {l : Location} {o : Object} {n : Name}

/-- No location has two objects. -/
def Distinct (fs : FileSystem) : Prop := (fs.objects.map (·.1)).Nodup

instance (fs : FileSystem) : Decidable fs.Distinct := inferInstanceAs (Decidable (List.Nodup _))

theorem Distinct.get?_iff (h : fs.Distinct) (hl : l ≠ []) : fs.get? l = some o ↔ (l, o) ∈ fs.objects := by
  rw [get?, if_neg hl, List.lookup_eq_some_iff]
  constructor
  · rintro ⟨front, behind, heq, -⟩
    rw [heq]
    simp
  · intro hmem
    obtain ⟨front, behind, heq⟩ := List.append_of_mem hmem
    refine ⟨front, behind, heq, fun e he => bne_iff_ne.mpr (Ne.symm ?_)⟩
    rw [Distinct, heq, List.map_append, List.map_cons, List.nodup_append] at h
    exact h.2.2 e.1 (List.mem_map_of_mem he) l (List.mem_cons_self ..)

/-! ## The entries of a directory -/

/-- The name of an object in a directory. -/
def nameIn (l : Location) (e : Location × Object) : Option Name :=
  match e.1.getLast? with
  | some n => if e.1.dropLast = l then some n else none
  | none => none

theorem nameIn_eq_some_iff {e : Location × Object} : nameIn l e = some n ↔ e.1 = l ++ [n] := by
  obtain ⟨x, o⟩ := e
  rw [nameIn]
  constructor
  · intro h
    split at h
    · rename_i hlast
      obtain ⟨x, rfl⟩ := List.getLast?_eq_some_iff.mp hlast
      rw [List.dropLast_concat] at h
      split at h
      · cases h
        subst x
        rfl
      · cases h
    · cases h
  · rintro rfl
    simp

theorem namesIn_eq (fs : FileSystem) (l : Location) : fs.namesIn l = fs.objects.filterMap (nameIn l) := rfl

theorem Distinct.mem_namesIn_iff (h : fs.Distinct) : n ∈ fs.namesIn l ↔ ∃ o, fs.get? (l ++ [n]) = some o := by
  simp only [namesIn_eq, List.mem_filterMap, nameIn_eq_some_iff, Prod.exists, h.get?_iff (List.concat_ne_nil n l)]
  exact ⟨fun ⟨_, o, hmem, hx⟩ => ⟨o, hx ▸ hmem⟩, fun ⟨o, hmem⟩ => ⟨_, o, hmem, rfl⟩⟩

theorem Distinct.namesIn_nodup (h : fs.Distinct) (l : Location) : (fs.namesIn l).Nodup := by
  rw [namesIn_eq, List.Nodup, List.pairwise_filterMap]
  refine (List.pairwise_map.mp h).imp fun hne n hn n' hn' => ?_
  rw [nameIn_eq_some_iff] at hn hn'
  rintro rfl
  exact hne (hn.trans hn'.symm)

/-! ## The order of enumeration -/

/-- The same objects in another order. -/
structure Reordered (fs fs' : FileSystem) : Prop where
  cwd : fs'.cwd = fs.cwd
  objects : fs'.objects.Perm fs.objects

namespace Reordered

variable (h : fs.Reordered fs')
include h

theorem distinct (hd : fs.Distinct) : fs'.Distinct := (h.objects.map _).nodup_iff.mpr hd

theorem get? (hd : fs.Distinct) (l : Location) : fs'.get? l = fs.get? l := by
  by_cases hl : l = []
  · rw [hl]; rfl
  · ext o
    rw [hd.get?_iff hl, (h.distinct hd).get?_iff hl, h.objects.mem_iff]

theorem isDirAt (hd : fs.Distinct) (l : Location) : fs'.isDirAt l = fs.isDirAt l := by
  rw [FileSystem.isDirAt, h.get? hd, FileSystem.isDirAt]

theorem namesIn (l : Location) : (fs'.namesIn l).Perm (fs.namesIn l) := h.objects.filterMap _

theorem walk (hd : fs.Distinct) (e : Ending) (k : Nat) (x : Location) (a : List Name) (s : Bool) :
    fs'.walk e k x a s = fs.walk e k x a s := by
  induction k using Nat.strongRecOn generalizing x a s with
  | ind k ihk =>
    induction a generalizing x s with
    | nil => rw [walk_nil, walk_nil]
    | cons n a iha =>
      rw [FileSystem.walk, FileSystem.walk, h.isDirAt hd, h.get? hd]
      simp only [iha]
      cases fs.get? (x ++ [n]) with
      | none => rfl
      | some o =>
        cases o with
        | link target =>
          cases k with
          | zero => rfl
          | succ k => simp only [ihk k (Nat.lt_succ_self k)]
        | _ => rfl

theorem locate (hd : fs.Distinct) (e : Ending) (p : Path) : fs'.locate e p = fs.locate e p := by
  simp only [FileSystem.locate, resolve, h.walk hd, h.cwd]

end Reordered

end Overseer.FileSystem

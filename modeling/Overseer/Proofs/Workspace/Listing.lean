import Overseer.Proofs.Workspace.Containment

/-!
# Listings stay in the workspace

The check before a listing takes names that are not there as they stand, but a directory can only be listed
if its path is there as a whole, so the check has resolved it.

* `exists?_of_canonicalize`: a path that can be resolved is there, so `contains_of_canonicalize`.
* `listDir_cases`: an answer is a failure, or it lists a directory that is in the root.
-/
namespace Overseer

namespace FileSystem

variable {fs : FileSystem} {k : Nat} {h l : Location} {s : Bool} {p : Path}

/-- Where all links can be followed, a link at the end can be left alone. -/
theorem walk_keepLink_of_follow {a : List Name} (hw : fs.walk .follow k h a s = .ok (.found l)) :
    ∃ l', fs.walk .keepLink k h a s = .ok (.found l') := by
  induction k using Nat.strongRecOn generalizing h a s with
  | ind k ihk =>
    induction a generalizing h with
    | nil => exact ⟨h, walk_nil⟩
    | cons n a iha =>
      have dir := isDirAt_of_walk hw
      by_cases hh : n = Path.here
      · subst hh
        rw [walk_here dir] at hw ⊢
        exact iha hw
      by_cases hu : n = Path.up
      · subst hu
        rw [walk_up dir] at hw ⊢
        exact iha hw
      rw [walk_cons dir hh hu] at hw ⊢
      rw [if_neg (by simp)] at hw ⊢
      split at hw
      · cases hw
      rw [if_neg ‹_›]
      split at hw
      · split at hw <;> cases hw
      · rw [if_neg (by simp)] at hw
        split
        · exact ⟨_, rfl⟩
        cases k with
        | zero => cases hw
        | succ k => exact ihk k (Nat.lt_succ_self k) hw
      · split at hw
        · cases hw
        · rw [if_neg ‹_›]; exact iha hw

theorem exists?_of_canonicalize (hp : p.isAbsolute = true) (h : fs.canonicalize p = .ok l) :
    fs.exists? p = true := by
  obtain ⟨hs, hw⟩ := (locate_ok hp).mp h
  exact (exists?_iff hp).mpr ⟨hs, walk_keepLink_of_follow hw⟩

end FileSystem

namespace Workspace

open FileSystem

/-- The check is exact for a path that can be resolved. -/
theorem contains_of_canonicalize {fs : FileSystem} {p : Path} {l : Location} (w : Workspace)
    (hp : p.isAbsolute = true) (hc : fs.canonicalize p = .ok l) :
    w.contains fs p = .ok (w.root.isPrefixOf l) := by
  simp only [contains, anchor, exists?_of_canonicalize hp hc, if_true, hc, List.append_nil, bind, Except.bind, pure,
    Except.pure]

/-- The answer that lists the entries of the directory at a location. -/
def listing (fs : FileSystem) (l : Location) (path : String) : String :=
  let entries := (fs.namesIn l).map fun n => entryText ⟨n, fs.isDirAt (l ++ [n])⟩
  (Json.obj [("entries", Json.strings (entries.mergeSort fun a b => !(b < a))), ("path", .str path)]).compact

/-- An answer is a failure, or it lists the directory that the path leads to, and that is in the root. -/
theorem listDir_cases (w : Workspace) (fs : FileSystem) (path : String) :
    (∃ text, w.listDir fs path = failure text) ∨
      ∃ l, fs.canonicalize (w.pathOf path) = .ok l ∧ w.root <+: l ∧ fs.isDirAt l = true ∧
        w.listDir fs path = listing fs l path := by
  have hp := w.isAbsolute_pathOf path
  cases hc : w.contains fs (w.pathOf path) with
  | error e => exact Or.inl ⟨_, by simp only [listDir, hc]; rfl⟩
  | ok b =>
    cases b with
    | false => exact Or.inl ⟨_, by simp only [listDir, hc]; rfl⟩
    | true =>
      cases hr : fs.readDir (w.pathOf path) with
      | error e => exact Or.inl ⟨_, by simp only [listDir, hc, hr]; rfl⟩
      | ok entries =>
        right
        unfold readDir at hr
        cases hl : fs.locate .follow (w.pathOf path) with
        | error e => simp [hl, bind, Except.bind] at hr
        | ok l =>
          simp only [hl, bind, Except.bind] at hr
          split at hr
          · rename_i hdir
            cases hr
            have hcan : fs.canonicalize (w.pathOf path) = .ok l := hl
            have hin : w.root <+: l := by
              rw [w.contains_of_canonicalize hp hcan] at hc
              exact List.isPrefixOf_iff_prefix.mp (Except.ok.inj hc)
            have hread : fs.readDir (w.pathOf path) =
                .ok ((fs.namesIn l).map fun n => ⟨n, fs.isDirAt (l ++ [n])⟩) := by
              simp only [readDir, hl, bind, Except.bind, if_pos hdir]
            refine ⟨l, hcan, hin, hdir, ?_⟩
            simp only [listDir, listing, hc, hread, List.map_map, Function.comp_def]
          · cases hr

end Workspace

end Overseer

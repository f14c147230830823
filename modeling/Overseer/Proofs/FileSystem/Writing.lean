import Overseer.Proofs.FileSystem.Content

/-!
# Files that are written

A path that names a file for writing leads to it afterwards: the walk for writing has passed directories and
links only, none of which the new file can stand in the place of. So what is written is read back, whatever
links there are on the way.

* `walk_put_of_make`: where a path leads after a file has been put there.
* `readFile_of_writeFile`: what is written is read back.
* `WritesAt`, `AddsDirs`: what a write may change, and what is spared by one that fails.
-/
namespace Overseer.FileSystem

variable {fs fs' fs₁ : FileSystem} {p : Path} {k k' : Nat} {h l : Location} {s : Bool} {pl : Place}
  {content : ByteArray}

/-! ## What changes -/

/-- One file is written: `content` stands at `l`, where there was nothing or a file. All else that was there is
as it was, and all else that is new is a directory on the way to the file. -/
structure WritesAt (fs fs' : FileSystem) (l : Location) (content : ByteArray) : Prop where
  before : fs.get? l = none ∨ ∃ old, fs.get? l = some (.file old)
  written : fs'.get? l = some (.file content)
  kept : ∀ l' o, l' ≠ l → fs.get? l' = some o → fs'.get? l' = some o
  added : ∀ l' o, l' ≠ l → fs.get? l' = none → fs'.get? l' = some o → o = .dir ∧ l' <+: l

/-- All that was there is as it was, and all that is new is a directory. -/
structure AddsDirs (fs fs' : FileSystem) : Prop where
  kept : Grows fs fs'
  added : ∀ l o, fs.get? l = none → fs'.get? l = some o → o = .dir

theorem AddsDirs.refl (fs : FileSystem) : AddsDirs fs fs :=
  ⟨Grows.refl fs, fun _ _ hnone hget => by rw [hnone] at hget; cases hget⟩

/-- A file that is written where there was nothing or a file, once directories have been made on the way to it. -/
theorem AddsDirs.writesAt (h : AddsDirs fs fs₁) (hne : l ≠ [])
    (before : fs.get? l = none ∨ ∃ old, fs.get? l = some (.file old))
    (way : ∀ l' o, fs.get? l' = none → fs₁.get? l' = some o → l' <+: l) :
    WritesAt fs (fs₁.put l (.file content)) l content where
  before := before
  written := by rw [get?_put _ _ _ _ hne, if_pos rfl]
  kept l' o hl' hget := by rw [get?_put _ _ _ _ hne, if_neg hl']; exact h.kept l' o hget
  added l' o hl' hnone hget := by
    rw [get?_put _ _ _ _ hne, if_neg hl'] at hget
    exact ⟨h.added l' o hnone hget, way l' o hnone hget⟩

theorem addsDirs_createDirAll (fs : FileSystem) (p : Path) : AddsDirs fs (fs.createDirAll p).1 := by
  refine createDirAll_keeps (P := AddsDirs fs) (fun fs₁ l hfs hl hfree _ => ?_) (AddsDirs.refl fs)
  refine ⟨hfs.kept.put hl hfree, fun l' o hnone hget => ?_⟩
  rw [get?_put _ _ _ _ hl] at hget
  split at hget
  · cases hget; rfl
  · exact hfs.added l' o hnone hget

/-! ## Where a written path leads -/

/-- What names lead to when every link is followed is no link. -/
theorem Leads.not_link (ht : fs.IsTree) {a : List Name} (hl : Leads fs k h a k' l)
    (hh : ∀ t, fs.get? h ≠ some (.link t)) : ∀ t, fs.get? l ≠ some (.link t) := by
  have ofDir {h : Location} (hdir : fs.isDirAt h = true) (t : Path) : fs.get? h ≠ some (.link t) := by
    rw [isDirAt_iff.mp hdir]; simp
  induction hl with
  | nil => exact hh
  | here _ _ ih => exact ih hh
  | up dir _ ih => exact ih (ofDir (ht.isDirAt_parent dir))
  | object _ _ _ _ get notLink _ ih =>
    exact ih fun t hlink => notLink t (Option.some.inj (get.symm.trans hlink))
  | link dir _ _ _ _ _ ih =>
    refine ih fun t => ?_
    split
    · exact ofDir (isDirAt_root fs) t
    · exact ofDir dir t

/-- After a file has been put where a path leads for writing, the path leads to it. -/
theorem walk_put_of_make {a : List Name} (hne : pl.target ≠ []) (hdir : fs.isDirAt pl.target = false)
    (hlink : ∀ t, fs.get? pl.target ≠ some (.link t)) (hw : fs.walk .make k h a s = .ok pl) :
    (fs.put pl.target (.file content)).walk .follow k h a s = .ok (.found pl.target) := by
  have still {h : Location} (hh : fs.isDirAt h = true) : (fs.put pl.target (.file content)).isDirAt h = true := by
    rw [isDirAt_put_ne _ hne]
    · exact hh
    · rintro rfl; rw [hdir] at hh; cases hh
  -- on the links that are left, and then on the names: a link puts its own names in front
  induction k using Nat.strongRecOn generalizing h a s with
  | ind k ihk =>
    induction a generalizing h with
    | nil =>
      rw [walk_nil] at hw ⊢
      cases hw; rfl
    | cons n a iha =>
      have dir := isDirAt_of_walk hw
      by_cases hh : n = Path.here
      · subst hh
        rw [walk_here dir] at hw
        rw [walk_here (still dir)]
        exact iha hw
      by_cases hu : n = Path.up
      · subst hu
        rw [walk_up dir] at hw
        rw [walk_up (still dir)]
        exact iha hw
      rw [walk_cons dir hh hu] at hw
      rw [walk_cons (still dir) hh hu, get?_put _ _ _ _ hne, if_neg (by simp)]
      split at hw
      · cases hw
      rename_i hslash
      split at hw
      · cases hw
      rw [if_neg ‹_›]
      by_cases heq : h ++ [n] = pl.target
      · -- the file stands here, and nothing leads on from it
        rw [if_pos heq]
        have hlast : a = [] := by
          rw [heq] at hw
          split at hw
          · split at hw
            · assumption
            · cases hw
          · exact absurd ‹_› (hlink _)
          · split at hw
            · cases hw
            · cases a with
              | nil => rfl
              | cons m a =>
                have hbeyond := isDirAt_of_walk hw
                rw [hdir] at hbeyond; cases hbeyond
        subst hlast
        have hs : s = false := by simpa using hslash
        simp only [hs, Bool.false_eq_true, false_and, and_false, if_false]
        rw [walk_nil, heq]
      · rw [if_neg heq]
        split at hw
        · split at hw <;> cases hw
          exact absurd rfl heq
        · simp only [reduceCtorEq, false_and, and_false, if_false] at hw ⊢
          cases k with
          | zero => cases hw
          | succ k => exact ihk k (Nat.lt_succ_self k) hw
        · split at hw
          · cases hw
          · rw [if_neg ‹_›]; exact iha hw

/-- What is written for a path is the file at a place of its own, which the path leads to afterwards. -/
theorem writeFile_spec (ht : fs.IsTree) (hp : p.isAbsolute = true) (hw : fs.writeFile p content = .ok fs') :
    ∃ pl, screen p = .ok () ∧ fs.walkPath .make p = .ok pl ∧ fs' = fs.put pl.target (.file content) ∧
      pl.target ≠ [] ∧ (fs.get? pl.target = none ∨ ∃ old, fs.get? pl.target = some (.file old)) ∧
      fs'.walkPath .follow p = .ok (.found pl.target) := by
  unfold writeFile at hw
  cases hl : fs.locateForWriting p with
  | error e => simp [hl, bind, Except.bind] at hw
  | ok l =>
    simp only [hl, bind, Except.bind, pure, Except.pure] at hw
    cases hw
    obtain ⟨hs, ⟨pl, hmake, rfl⟩, hne, hdir, -⟩ := locateForWriting_spec ht hp hl
    have hlink : ∀ t, fs.get? pl.target ≠ some (.link t) := by
      cases pl with
      | free d n =>
        have hreal := real_of_walk ht ⟨.dir, rfl⟩ hmake
        intro t
        rw [Place.target, hreal.2]; simp
      | found l =>
        obtain ⟨k', hleads⟩ := leads_of_walk_found (by simp) hmake
        exact hleads.not_link ht (by simp [get?])
    refine ⟨pl, hs, hmake, rfl, hne, ?_, walk_put_of_make hne hdir hlink hmake⟩
    cases hget : fs.get? pl.target with
    | none => exact Or.inl rfl
    | some o =>
      cases o with
      | file old => exact Or.inr ⟨old, rfl⟩
      | dir => rw [isDirAt_iff.mpr hget] at hdir; cases hdir
      | link t => exact absurd hget (hlink t)

/-- What is written is read back. -/
theorem readFile_of_writeFile (ht : fs.IsTree) (hp : p.isAbsolute = true)
    (hw : fs.writeFile p content = .ok fs') : fs'.readFile p = .ok content := by
  obtain ⟨pl, hs, -, rfl, hne, -, hfound⟩ := writeFile_spec ht hp hw
  have hlocate := (locate_ok hp).mpr ⟨hs, hfound⟩
  simp only [readFile, hlocate, bind, Except.bind, get?_put _ _ _ _ hne, if_true]

end Overseer.FileSystem

import Overseer.FileSystem.Operations
import Overseer.Proofs.FileSystem.Walk

/-!
# Operations on absolute paths

What the operations on files do, said by walks from the root directory.

* `createDir_spec`: a directory that is made stands at a free place where the names of its path lead.
* `createDirAll_induct`: what every directory made on the way up keeps, the making of all of them keeps.
* `locateForWriting_spec`: what is written stands where the path leads.
-/
namespace Overseer.FileSystem

open Overseer.Path (names)

variable {fs fs' : FileSystem} {p q : Path} {e : Ending} {pl : Place} {l : Location}

/-- Where a walk over an absolute path ends. -/
def walkPath (fs : FileSystem) (e : Ending) (p : Path) : Except OsError Place :=
  fs.walk e maxLinks [] (names p) (Route.ofPath p).slash

theorem resolve_ok (hp : p.isAbsolute = true) :
    fs.resolve e p = .ok pl ↔ screen p = .ok () ∧ fs.walkPath e p = .ok pl := by
  have habs : (Route.ofPath p).absolute = true := hp
  unfold resolve walkPath
  cases hs : screen p with
  | error err => simp [bind, Except.bind]
  | ok u => simp [bind, Except.bind, habs]

theorem locate_ok (hp : p.isAbsolute = true) :
    fs.locate e p = .ok l ↔ screen p = .ok () ∧ fs.walkPath e p = .ok (.found l) := by
  rw [← resolve_ok hp]
  unfold locate
  cases hr : fs.resolve e p with
  | error err => simp [bind, Except.bind]
  | ok pl => cases pl <;> simp [bind, Except.bind]

theorem exists?_iff (hp : p.isAbsolute = true) :
    fs.exists? p = true ↔ screen p = .ok () ∧ ∃ l, fs.walkPath .keepLink p = .ok (.found l) := by
  unfold exists?
  cases hl : fs.locate .keepLink p with
  | error err =>
    simp only [Except.isOk, Except.toBool, Bool.false_eq_true, false_iff, not_and, not_exists]
    intro hs l hw
    rw [(locate_ok hp).mpr ⟨hs, hw⟩] at hl; cases hl
  | ok l =>
    obtain ⟨hs, hw⟩ := (locate_ok hp).mp hl
    simp only [Except.isOk, Except.toBool, true_iff]
    exact ⟨hs, l, hw⟩

/-- A path is refused for its text only if longer ones are. -/
theorem screen_of_longer (hpre : q <+: p) (hq : q ≠ []) (hp : screen p = .ok ()) : screen q = .ok () := by
  unfold screen at hp ⊢
  split at hp
  · cases hp
  rename_i hnul
  split at hp
  · cases hp
  split at hp
  · cases hp
  rename_i hlong
  have hle := hpre.length_le
  rw [if_neg, if_neg hq, if_neg (by omega)]
  simp only [List.contains_iff_mem] at hnul ⊢
  exact fun h => hnul (hpre.subset h)

/-! ## Making directories -/

/-- The place `d ++ [n]` that an absolute path leads to is free. -/
structure FreeAt (fs : FileSystem) (p : Path) (d : Location) (n : Name) : Prop where
  screened : screen p = .ok ()
  leads : ∃ a k, names p = a ++ [n] ∧ Leads fs maxLinks [] a k d
  dir : fs.isDirAt d = true
  notHere : n ≠ Path.here
  notUp : n ≠ Path.up
  short : n.length ≤ maxName
  free : fs.get? (d ++ [n]) = none

theorem createDir_spec (hp : p.isAbsolute = true) (h : fs.createDir p = .ok fs') :
    ∃ d n, FreeAt fs p d n ∧ fs' = fs.put (d ++ [n]) .dir := by
  have habs : (Route.ofPath p).absolute = true := hp
  unfold createDir at h
  cases hs : screen p with
  | error err => simp [hs, bind, Except.bind] at h
  | ok u =>
    simp only [hs, bind, Except.bind, habs, if_true] at h
    split at h
    · cases h
    rename_i n hlast
    split at h
    · cases h
    rename_i pl hw
    split at h
    · cases h
    rename_i d
    split at h
    · cases h
    rename_i hdir
    split at h
    · cases h
    rename_i hname
    split at h
    · cases h
    rename_i hshort
    split at h
    · cases h
    rename_i hfree
    cases h
    simp only [not_or] at hname
    obtain ⟨a, ha⟩ := List.getLast?_eq_some_iff.mp hlast
    rw [ha, List.dropLast_concat] at hw
    obtain ⟨k, hl⟩ := leads_of_walk_found (by simp) hw
    exact ⟨d, n, ⟨hs, ⟨a, k, ha, hl⟩, by simpa using hdir, hname.1, hname.2, Nat.not_lt.mp hshort,
      by simpa using hfree⟩, rfl⟩

theorem FreeAt.walk {d : Location} {n : Name} (h : FreeAt fs p d n) :
    fs.walk .follow maxLinks [] (names p) false = .ok (.free d n) := by
  obtain ⟨a, k, hn, hl⟩ := h.leads
  rw [hn, hl.walk_append (by simp), walk_cons h.dir h.notHere h.notUp]
  simp [h.free, Nat.not_lt.mpr h.short]

/-- A path that leads somewhere in a smaller tree has no free place on its way. -/
theorem FreeAt.not_found {fs₀ : FileSystem} {d : Location} {n : Name} {rest : List Name} {s : Bool}
    (h : FreeAt fs p d n) (hg : Grows fs₀ fs) (hq : names q = names p ++ rest) :
    fs₀.walk e maxLinks [] (names q) s ≠ .ok (.found l) := by
  intro hw
  obtain ⟨a, k, hn, hl⟩ := h.leads
  rw [hq, hn, List.append_assoc, List.singleton_append] at hw
  obtain ⟨k₀, d₀, hl₀⟩ := leads_of_walk_append (by simp) hw
  obtain ⟨rfl, rfl⟩ := (hl₀.mono hg).unique hl
  rw [hl₀.walk_append (by simp)] at hw
  rw [walk_cons (isDirAt_of_walk hw) h.notHere h.notUp] at hw
  have hnone : fs₀.get? (d₀ ++ [n]) = none := by
    cases hget : fs₀.get? (d₀ ++ [n]) with
    | none => rfl
    | some o => exact absurd h.free (by simp [hg _ _ hget])
  simp only [hnone] at hw
  repeat' split at hw
  all_goals cases hw

theorem FreeAt.put_isTree {d : Location} {n : Name} {o : Object} (h : FreeAt fs p d n) (ht : fs.IsTree) :
    (fs.put (d ++ [n]) o).IsTree := by
  refine ht.put (by simp) ?_ ?_
  · unfold isDirAt; rw [h.free]; rfl
  · rw [List.dropLast_concat]; exact h.dir

/-- What every directory made on the way up keeps, the making of all of them keeps. -/
theorem createDirAll_induct {P : FileSystem → Prop} {W : Path → Prop}
    (make : ∀ fs p fs', P fs → W p → fs.createDir p = .ok fs' → P fs')
    (up : ∀ p q, W p → p.parent? = some q → W q) (hP : P fs) (hW : W p) :
    P (fs.createDirAll p).1 := by
  have within (fuel : Nat) : ∀ fs p, P fs → W p → P (fs.createDirAllWithin fuel p).1 := by
    induction fuel with
    | zero => intro fs p hP _; exact hP
    | succ fuel ih =>
      intro fs p hP hW
      unfold createDirAllWithin
      split
      · exact hP
      split
      · exact make _ _ _ hP hW ‹_›
      split
      · split
        · exact hP
        rename_i q hq
        have hup := ih fs q hP (up p q hW hq)
        split
        · rename_i heq; rw [heq] at hup; exact hup
        · rename_i fs₁ heq
          rw [heq] at hup
          split
          · exact make _ _ _ hup hW ‹_›
          · split <;> exact hup
      · split <;> exact hP
  exact within _ fs p hP hW

/-! ## Writing -/

theorem locateForWriting_spec (ht : fs.IsTree) (hp : p.isAbsolute = true)
    (h : fs.locateForWriting p = .ok l) :
    screen p = .ok () ∧ (∃ pl, fs.walkPath .make p = .ok pl ∧ pl.target = l) ∧
      l ≠ [] ∧ fs.isDirAt l = false ∧ fs.isDirAt l.dropLast = true := by
  unfold locateForWriting at h
  cases hr : fs.resolve .make p with
  | error err => simp [hr, bind, Except.bind] at h
  | ok pl =>
    obtain ⟨hs, hw⟩ := (resolve_ok hp).mp hr
    have real := real_of_walk ht ⟨.dir, rfl⟩ hw
    simp only [hr, bind, Except.bind] at h
    cases pl with
    | free d n =>
      cases h
      refine ⟨hs, ⟨_, hw, rfl⟩, by simp, ?_, ?_⟩
      · unfold isDirAt; rw [real.2]; rfl
      · rw [List.dropLast_concat]; exact real.1
    | found x =>
      simp only at h
      split at h
      · cases h
      rename_i hdir
      cases h
      have hne : l ≠ [] := by
        rintro rfl
        exact hdir (isDirAt_root fs)
      obtain ⟨o, ho⟩ := real
      exact ⟨hs, ⟨_, hw, rfl⟩, hne, by simpa using hdir, ht l o hne ho⟩

end Overseer.FileSystem

import Overseer.Proofs.FileSystem.Path
import Overseer.Proofs.FileSystem.Tree

/-!
# Where paths lead

`FileSystem.walk` follows names one by one and counts the links it follows. `Leads` is the part of a walk
that is followed by more: every name is there, and every link is followed. A walk over some names and
more is a walk over the more from where the first lead to.

* `Leads.walk_append`, `leads_of_walk_append`: a walk splits.
* `Leads.mono`: what leads somewhere still does when something is put where nothing was.
* `Real`: what a walk finds exists, and what it finds free is a free place in a directory.
* `walk_plain`: a walk over names that lead to directories or to nothing goes where the names say.
-/
namespace Overseer

/-- The location of a place, be it free or not. -/
def Place.target : Place → Location
  | .found l => l
  | .free d n => d ++ [n]

namespace FileSystem

variable {fs fs' : FileSystem} {e : Ending} {k k' : Nat} {h l : Location} {n : Name} {rest : List Name}
  {s : Bool} {pl : Place}

/-! ## One name -/

theorem walk_nil : fs.walk e k h [] s = .ok (.found h) := by rw [walk]

theorem walk_cons (hd : fs.isDirAt h = true) (hh : n ≠ Path.here) (hu : n ≠ Path.up) :
    fs.walk e k h (n :: rest) s =
      if rest = [] ∧ e = .make ∧ s then .error .isDirectory
      else if n.length > maxName then .error .nameTooLong
      else
        match fs.get? (h ++ [n]) with
        | none => if rest = [] then .ok (.free h n) else .error .noEntry
        | some (.link target) =>
          if rest = [] ∧ e = .keepLink ∧ s = false then .ok (.found (h ++ [n]))
          else
            match k with
            | 0 => .error .tooManyLinks
            | k + 1 => fs.walk e k (if (Route.ofPath target).absolute then [] else h)
                ((Route.ofPath target).names ++ rest)
                (if rest = [] then s || (Route.ofPath target).slash else s)
        | some o =>
          if rest = [] ∧ s ∧ o.isDir = false then .error .notDirectory
          else fs.walk e k (h ++ [n]) rest s := by
  rw [walk, if_neg (by simp [hd]), if_neg hh]
  exact if_neg hu

theorem isDirAt_of_walk (hw : fs.walk e k h (n :: rest) s = .ok pl) : fs.isDirAt h = true := by
  rw [walk] at hw
  split at hw
  · cases hw
  · simpa using ‹¬fs.isDirAt h = false›

theorem walk_here (hd : fs.isDirAt h = true) :
    fs.walk e k h (Path.here :: rest) s = fs.walk e k h rest s := by
  rw [walk]; simp [hd]

theorem walk_dots {dots : List Name} (hd : fs.isDirAt h = true) (hdots : ∀ d ∈ dots, d = Path.here) :
    fs.walk e k h (dots ++ rest) s = fs.walk e k h rest s := by
  induction dots with
  | nil => rfl
  | cons d dots ih =>
    rw [List.cons_append, hdots d List.mem_cons_self, walk_here hd]
    exact ih fun d' h' => hdots d' (List.mem_cons_of_mem _ h')

theorem walk_up (hd : fs.isDirAt h = true) :
    fs.walk e k h (Path.up :: rest) s = fs.walk e k h.parent rest s := by
  rw [walk]; simp [hd, Path.here, Path.up]

/-- Where the names lead if every one of them is there and every link is followed, and how many links may
be followed from there on. -/
inductive Leads (fs : FileSystem) : Nat → Location → List Name → Nat → Location → Prop where
  | nil (k : Nat) (h : Location) : Leads fs k h [] k h
  | here {k k' : Nat} {h l : Location} {rest : List Name} (dir : fs.isDirAt h = true)
      (go : Leads fs k h rest k' l) : Leads fs k h (Path.here :: rest) k' l
  | up {k k' : Nat} {h l : Location} {rest : List Name} (dir : fs.isDirAt h = true)
      (go : Leads fs k h.parent rest k' l) : Leads fs k h (Path.up :: rest) k' l
  | object {k k' : Nat} {h l : Location} {n : Name} {o : Object} {rest : List Name}
      (dir : fs.isDirAt h = true) (notHere : n ≠ Path.here) (notUp : n ≠ Path.up)
      (short : n.length ≤ maxName) (get : fs.get? (h ++ [n]) = some o) (notLink : ∀ t, o ≠ .link t)
      (go : Leads fs k (h ++ [n]) rest k' l) : Leads fs k h (n :: rest) k' l
  | link {k k' : Nat} {h l : Location} {n : Name} {target : Path} {rest : List Name}
      (dir : fs.isDirAt h = true) (notHere : n ≠ Path.here) (notUp : n ≠ Path.up)
      (short : n.length ≤ maxName) (get : fs.get? (h ++ [n]) = some (.link target))
      (go : Leads fs k (if (Route.ofPath target).absolute then [] else h)
        ((Route.ofPath target).names ++ rest) k' l) : Leads fs (k + 1) h (n :: rest) k' l

/-! ## Walks split -/

theorem Leads.walk_append {a b : List Name} (hl : Leads fs k h a k' l) (hb : b ≠ []) :
    fs.walk e k h (a ++ b) s = fs.walk e k' l b s := by
  induction hl with
  | nil => rfl
  | here dir _ ih => rw [List.cons_append, walk_here dir, ih]
  | up dir _ ih => rw [List.cons_append, walk_up dir, ih]
  | @object k k' h l n o rest dir hh hu short get notLink _ ih =>
    have hne : rest ++ b ≠ [] := by simp [hb]
    rw [List.cons_append, walk_cons dir hh hu, get, ← ih]
    cases o with
    | link t => exact absurd rfl (notLink t)
    | _ => simp only [hne, false_and, if_false, Nat.not_lt.mpr short]
  | @link k k' h l n target rest dir hh hu short get _ ih =>
    have hne : rest ++ b ≠ [] := by simp [hb]
    rw [List.cons_append, walk_cons dir hh hu, get, ← ih]
    simp only [hne, false_and, if_false, Nat.not_lt.mpr short, List.append_assoc]

/-- What the names before the last ones lead to, if the walk over all of them succeeds. -/
theorem leads_of_walk_append {a b : List Name} (hb : b ≠ [])
    (hw : fs.walk e k h (a ++ b) s = .ok pl) : ∃ k' l, Leads fs k h a k' l := by
  -- on the links that are left, and then on the names: a link puts its own names in front
  induction k using Nat.strongRecOn generalizing h a with
  | ind k ihk =>
    induction a generalizing h with
    | nil => exact ⟨_, _, .nil _ _⟩
    | cons n a iha =>
      rw [List.cons_append] at hw
      have dir := isDirAt_of_walk hw
      have hne : a ++ b ≠ [] := by simp [hb]
      by_cases hh : n = Path.here
      · subst hh
        rw [walk_here dir] at hw
        obtain ⟨k', l, hl⟩ := iha hw
        exact ⟨k', l, .here dir hl⟩
      by_cases hu : n = Path.up
      · subst hu
        rw [walk_up dir] at hw
        obtain ⟨k', l, hl⟩ := iha hw
        exact ⟨k', l, .up dir hl⟩
      rw [walk_cons dir hh hu] at hw
      simp only [hne, false_and, if_false] at hw
      split at hw
      · cases hw
      rename_i hlong
      have short := Nat.not_lt.mp hlong
      split at hw
      · cases hw
      · rename_i target get
        cases k with
        | zero => cases hw
        | succ k =>
          rw [← List.append_assoc] at hw
          obtain ⟨k', l, hl⟩ := ihk k (Nat.lt_succ_self k) hw
          exact ⟨k', l, .link dir hh hu short get hl⟩
      · rename_i o notLink get
        obtain ⟨k', l, hl⟩ := iha hw
        exact ⟨k', l, .object dir hh hu short get notLink hl⟩

/-- What all the names lead to, if they are walked with a link at the end followed. -/
theorem leads_of_walk_found (he : e ≠ .keepLink) {a : List Name} (hw : fs.walk e k h a s = .ok (.found l)) :
    ∃ k', Leads fs k h a k' l := by
  induction k using Nat.strongRecOn generalizing h a s with
  | ind k ihk =>
    induction a generalizing h with
    | nil =>
      rw [walk_nil] at hw
      cases hw; exact ⟨_, .nil _ _⟩
    | cons n a iha =>
      have dir := isDirAt_of_walk hw
      by_cases hh : n = Path.here
      · subst hh
        rw [walk_here dir] at hw
        obtain ⟨k', hl⟩ := iha hw
        exact ⟨k', .here dir hl⟩
      by_cases hu : n = Path.up
      · subst hu
        rw [walk_up dir] at hw
        obtain ⟨k', hl⟩ := iha hw
        exact ⟨k', .up dir hl⟩
      rw [walk_cons dir hh hu] at hw
      split at hw
      · cases hw
      split at hw
      · cases hw
      rename_i hlong
      have short := Nat.not_lt.mp hlong
      split at hw
      · split at hw <;> cases hw
      · rename_i target get
        simp only [he, false_and, and_false, if_false] at hw
        cases k with
        | zero => cases hw
        | succ k =>
          obtain ⟨k', hl⟩ := ihk k (Nat.lt_succ_self k) hw
          exact ⟨k', .link dir hh hu short get hl⟩
      · rename_i o notLink get
        split at hw
        · cases hw
        obtain ⟨k', hl⟩ := iha hw
        exact ⟨k', .object dir hh hu short get notLink hl⟩

theorem Leads.unique {a : List Name} {k₁ k₂ : Nat} {l₁ l₂ : Location} (h₁ : Leads fs k h a k₁ l₁)
    (h₂ : Leads fs k h a k₂ l₂) : k₁ = k₂ ∧ l₁ = l₂ := by
  induction h₁ with
  | nil => cases h₂; exact ⟨rfl, rfl⟩
  | here _ _ ih =>
    cases h₂ with
    | here _ go => exact ih go
    | object _ hh => exact absurd rfl hh
    | link _ hh => exact absurd rfl hh
  | up _ _ ih =>
    cases h₂ with
    | up _ go => exact ih go
    | object _ _ hu => exact absurd rfl hu
    | link _ _ hu => exact absurd rfl hu
  | object _ hh hu _ get notLink _ ih =>
    cases h₂ with
    | here => exact absurd rfl hh
    | up => exact absurd rfl hu
    | object _ _ _ _ _ _ go => exact ih go
    | link _ _ _ _ get' =>
      rw [get] at get'
      cases get'; exact absurd rfl (notLink _)
  | link _ hh hu _ get _ ih =>
    cases h₂ with
    | here => exact absurd rfl hh
    | up => exact absurd rfl hu
    | object _ _ _ _ get' notLink =>
      rw [get] at get'
      cases get'; exact absurd rfl (notLink _)
    | link _ _ _ _ get' go =>
      rw [get] at get'
      cases get'; exact ih go

/-- Nothing that stands in the first tree is missing or another in the second. -/
def Grows (fs fs' : FileSystem) : Prop := ∀ l o, fs.get? l = some o → fs'.get? l = some o

theorem Grows.refl (fs : FileSystem) : Grows fs fs := fun _ _ h => h

theorem Grows.isDirAt (hg : Grows fs fs') (hd : fs.isDirAt l = true) : fs'.isDirAt l = true :=
  isDirAt_iff.mpr (hg _ _ (isDirAt_iff.mp hd))

theorem Grows.put (hg : Grows fs fs') {o : Object} (hl : l ≠ []) (hfree : fs'.get? l = none) :
    Grows fs (fs'.put l o) := by
  intro l' o' h'
  have := hg l' o' h'
  rw [get?_put _ _ _ _ hl]
  split
  · rename_i heq
    rw [heq, hfree] at this; cases this
  · exact this

theorem Leads.mono {a : List Name} (hg : Grows fs fs') (hl : Leads fs k h a k' l) :
    Leads fs' k h a k' l := by
  induction hl with
  | nil => exact .nil _ _
  | here dir _ ih => exact .here (hg.isDirAt dir) ih
  | up dir _ ih => exact .up (hg.isDirAt dir) ih
  | object dir hh hu short get notLink _ ih =>
    exact .object (hg.isDirAt dir) hh hu short (hg _ _ get) notLink ih
  | link dir hh hu short get _ ih => exact .link (hg.isDirAt dir) hh hu short (hg _ _ get) ih

/-! ## Where walks end -/

/-- What is found is there, and what is free is a place in a directory with nothing at it. -/
def Real (fs : FileSystem) : Place → Prop
  | .found l => ∃ o, fs.get? l = some o
  | .free d n => fs.isDirAt d = true ∧ fs.get? (d ++ [n]) = none

theorem IsTree.isDirAt_parent (ht : fs.IsTree) (hd : fs.isDirAt h = true) : fs.isDirAt h.parent = true := by
  by_cases hh : h = []
  · subst hh; exact hd
  · exact ht h _ hh (isDirAt_iff.mp hd)

theorem real_of_walk (ht : fs.IsTree) {a : List Name} (hex : ∃ o, fs.get? h = some o)
    (hw : fs.walk e k h a s = .ok pl) : Real fs pl := by
  induction k using Nat.strongRecOn generalizing h a s with
  | ind k ihk =>
    induction a generalizing h with
    | nil =>
      rw [walk_nil] at hw
      cases hw; exact hex
    | cons n a iha =>
      have dir := isDirAt_of_walk hw
      by_cases hh : n = Path.here
      · subst hh
        rw [walk_here dir] at hw
        exact iha hex hw
      by_cases hu : n = Path.up
      · subst hu
        rw [walk_up dir] at hw
        exact iha ⟨.dir, isDirAt_iff.mp (ht.isDirAt_parent dir)⟩ hw
      rw [walk_cons dir hh hu] at hw
      split at hw
      · cases hw
      split at hw
      · cases hw
      split at hw
      · rename_i get
        split at hw <;> cases hw
        exact ⟨dir, get⟩
      · rename_i target get
        split at hw
        · cases hw; exact ⟨_, get⟩
        cases k with
        | zero => cases hw
        | succ k =>
          refine ihk k (Nat.lt_succ_self k) ?_ hw
          split
          · exact ⟨.dir, rfl⟩
          · exact hex
      · rename_i o notLink get
        split at hw
        · cases hw
        · exact iha ⟨o, get⟩ hw

theorem walk_follow_of_make {a : List Name} (hw : fs.walk .make k h a s = .ok pl) :
    fs.walk .follow k h a s = .ok pl := by
  induction k using Nat.strongRecOn generalizing h a s with
  | ind k ihk =>
    induction a generalizing h with
    | nil => rwa [walk_nil] at hw ⊢
    | cons n a iha =>
      have dir := isDirAt_of_walk hw
      by_cases hh : n = Path.here
      · subst hh
        rw [walk_here dir] at hw ⊢
        exact iha hw
      by_cases hu : n = Path.up
      · subst hu
        rw [walk_up dir] at hw ⊢
        exact iha hw
      rw [walk_cons dir hh hu] at hw ⊢
      split at hw
      · cases hw
      rw [if_neg (by simp)]
      split at hw
      · cases hw
      rw [if_neg ‹_›]
      split at hw
      · exact hw
      · simp only [reduceCtorEq, false_and, and_false, if_false] at hw ⊢
        cases k with
        | zero => cases hw
        | succ k => exact ihk k (Nat.lt_succ_self k) hw
      · split at hw
        · cases hw
        · rw [if_neg ‹_›]; exact iha hw

theorem walk_dot_end {a : List Name} (hw : fs.walk e k h (a ++ [Path.here]) s = .ok pl) :
    ∃ d, pl = .found d ∧ fs.isDirAt d = true := by
  obtain ⟨k', d, hl⟩ := leads_of_walk_append (by simp) hw
  rw [hl.walk_append (by simp)] at hw
  have dir := isDirAt_of_walk hw
  rw [walk_here dir, walk_nil] at hw
  cases hw; exact ⟨d, rfl, dir⟩

theorem walk_make_slash {a : List Name} (hh : n ≠ Path.here) (hu : n ≠ Path.up) :
    fs.walk .make k h (a ++ [n]) true ≠ .ok pl := by
  intro hw
  obtain ⟨k', d, hl⟩ := leads_of_walk_append (by simp) hw
  rw [hl.walk_append (by simp)] at hw
  rw [walk_cons (isDirAt_of_walk hw) hh hu] at hw
  simp at hw

/-! ## Names that lead where they say -/

/-- Each of the names in turn leads to a directory or to nothing. -/
def Plain (fs : FileSystem) (l : Location) (t : List Name) : Prop :=
  ∀ t', t' <+: t → t' ≠ [] → fs.get? (l ++ t') = none ∨ fs.get? (l ++ t') = some .dir

theorem Plain.tail {t : List Name} (hp : Plain fs l (n :: t)) : Plain fs (l ++ [n]) t := by
  intro t' hpre hne
  have := hp (n :: t') (List.cons_prefix_cons.mpr ⟨rfl, hpre⟩) (by simp)
  rwa [List.append_assoc, List.singleton_append]

/-- A walk over plain names goes where the names say, the dots among them left out. -/
theorem walk_plain {a : List Name} (hp : Plain fs h (Path.dotless a)) (hu : Path.up ∉ a)
    (hw : fs.walk e k h a s = .ok pl) : pl.target = h ++ Path.dotless a := by
  induction a generalizing h with
  | nil =>
    rw [walk_nil] at hw
    cases hw; simp [Place.target]
  | cons n a ih =>
    have dir := isDirAt_of_walk hw
    have hua : Path.up ∉ a := fun h => hu (List.mem_cons_of_mem _ h)
    by_cases hh : n = Path.here
    · subst hh
      rw [walk_here dir] at hw
      rw [Path.dotless_here] at hp ⊢
      exact ih hp hua hw
    have hnu : n ≠ Path.up := fun h => hu (h ▸ List.mem_cons_self)
    rw [Path.dotless_cons hh] at hp ⊢
    rw [walk_cons dir hh hnu] at hw
    split at hw
    · cases hw
    split at hw
    · cases hw
    rcases hp [n] (by simp) (by simp) with get | get
    · simp only [get] at hw
      split at hw <;> cases hw
      rename_i ha
      simp [ha, Place.target]
    · rw [get] at hw
      simp only [Object.isDir, Bool.true_eq_false, and_false, if_false] at hw
      rw [ih hp.tail hua hw, List.append_assoc, List.singleton_append]

/-- The first name can be looked up at all if the walk succeeds. -/
theorem dir_short_of_walk {a t : List Name} (ha : Path.dotless a = n :: t) (hu : n ≠ Path.up)
    (hw : fs.walk e k h a s = .ok pl) : fs.isDirAt h = true ∧ n.length ≤ maxName := by
  induction a with
  | nil => simp at ha
  | cons m a ih =>
    have dir := isDirAt_of_walk hw
    by_cases hh : m = Path.here
    · subst hh
      rw [walk_here dir] at hw
      rw [Path.dotless_here] at ha
      exact ih ha hw
    · rw [Path.dotless_cons hh] at ha
      cases ha
      rw [walk_cons dir hh hu] at hw
      split at hw
      · cases hw
      split at hw
      · cases hw
      · exact ⟨dir, Nat.not_lt.mp ‹_›⟩

end FileSystem

end Overseer

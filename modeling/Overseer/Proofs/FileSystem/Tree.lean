import Overseer.FileSystem.Basic

/-!
# Trees

A file system is a tree if whatever stands somewhere stands in a directory. Directories and files put at
places that are not directories keep it one.

* `get?_put`: what stands where after a change.
* `IsTree.isDirAt_above`, `IsTree.get?_behind`: what stands above something, and behind nothing.
* `IsTree.put`: changes that keep a tree a tree.
-/
namespace Overseer.FileSystem

/-- Whatever stands somewhere stands in a directory. -/
def IsTree (fs : FileSystem) : Prop :=
  ∀ l o, l ≠ [] → fs.get? l = some o → fs.isDirAt l.dropLast = true

variable {fs : FileSystem} {l l' : Location} {o : Object}

theorem isDirAt_iff : fs.isDirAt l = true ↔ fs.get? l = some .dir := by
  unfold isDirAt
  cases h : fs.get? l with
  | none => simp
  | some o => cases o <;> simp [Object.isDir]

theorem isDirAt_root (fs : FileSystem) : fs.isDirAt [] = true := isDirAt_iff.mpr rfl

theorem lookup_filter_ne (objects : List (Location × Object)) (h : l' ≠ l) :
    (objects.filter (·.1 ≠ l)).lookup l' = objects.lookup l' := by
  induction objects with
  | nil => rfl
  | cons e rest ih =>
    obtain ⟨k, o⟩ := e
    by_cases hk : k = l
    · have hk' : (l' == k) = false := by rw [hk]; simpa using h
      simp only [List.filter_cons, hk, ne_eq, not_true, decide_false, Bool.false_eq_true, if_false]
      rw [List.lookup_cons, ← hk, hk', ← ih, hk]
    · simp only [List.filter_cons, ne_eq, hk, not_false_eq_true, decide_true, if_true]
      rw [List.lookup_cons, List.lookup_cons, ih]

theorem get?_put (fs : FileSystem) (l l' : Location) (o : Object) (hl : l ≠ []) :
    (fs.put l o).get? l' = if l' = l then some o else fs.get? l' := by
  unfold get? put
  by_cases hr : l' = []
  · subst hr; rw [if_pos rfl, if_pos rfl, if_neg (Ne.symm hl)]
  · rw [if_neg hr, if_neg hr]
    by_cases h : l' = l
    · subst h; rw [if_pos rfl]; simp
    · have hb : (l' == l) = false := by simpa using h
      rw [if_neg h]; simp only [List.lookup_cons, hb]; exact lookup_filter_ne _ h

theorem isDirAt_put_ne (h : l' ≠ l) (hl : l ≠ []) : (fs.put l o).isDirAt l' = fs.isDirAt l' := by
  unfold isDirAt; rw [get?_put _ _ _ _ hl, if_neg h]

/-- A prefix of something that exists is a directory. -/
theorem IsTree.isDirAt_above (h : fs.IsTree) {l l' : Location} {o : Object} (hl : fs.get? l = some o)
    (hp : l' <+: l) (hne : l' ≠ l) : fs.isDirAt l' = true := by
  obtain ⟨rest, rfl⟩ := hp
  induction rest generalizing l' with
  | nil => exact absurd (List.append_nil l').symm hne
  | cons n rest ih =>
    have hn : ∃ o', fs.get? (l' ++ [n]) = some o' := by
      rcases rest with _ | ⟨n', rest⟩
      · exact ⟨o, hl⟩
      · have hd : fs.isDirAt (l' ++ [n]) = true :=
          ih (by rwa [List.append_assoc, List.singleton_append]) (by simp)
        exact ⟨.dir, isDirAt_iff.mp hd⟩
    obtain ⟨o', ho'⟩ := hn
    have hpar := h _ o' (by simp) ho'
    rwa [List.dropLast_concat] at hpar

/-- Nothing stands behind a free place. -/
theorem IsTree.get?_behind (h : fs.IsTree) {n : Name} (hfree : fs.get? (l ++ [n]) = none) (t : List Name) :
    fs.get? (l ++ n :: t) = none := by
  cases hget : fs.get? (l ++ n :: t) with
  | none => rfl
  | some o =>
    by_cases hnil : t = []
    · rw [hnil, hfree] at hget; cases hget
    · have hdir : fs.isDirAt (l ++ [n]) = true :=
        h.isDirAt_above hget ⟨t, by simp⟩ (by simpa using Ne.symm hnil)
      rw [isDirAt_iff, hfree] at hdir; cases hdir

/-- An object that is put where no directory stands, in a directory, keeps a tree a tree. -/
theorem IsTree.put (h : fs.IsTree) (hl : l ≠ []) (hfree : fs.isDirAt l = false)
    (hpar : fs.isDirAt l.dropLast = true) : (fs.put l o).IsTree := by
  have hne : l.dropLast ≠ l := by
    intro heq
    rw [heq, hfree] at hpar; cases hpar
  intro x o' hx hget
  rw [get?_put _ _ _ _ hl] at hget
  split at hget
  · rename_i heq
    rw [heq, isDirAt_put_ne hne hl]; exact hpar
  · have hd := h x o' hx hget
    have hne' : x.dropLast ≠ l := by
      intro heq
      rw [heq, hfree] at hd; cases hd
    rw [isDirAt_put_ne hne' hl]; exact hd

end Overseer.FileSystem

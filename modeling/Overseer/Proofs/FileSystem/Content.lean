import Overseer.Proofs.FileSystem.Making
import Overseer.Proofs.Text.Encoding

/-!
# Contents of files

What making directories and opening and appending to files do to the contents of all files, and when the content
of a file can be read.

* `readText_eq_ok_iff`: what is read as a text is the content of the file that the path leads to.
* `contentAt_createDirAll`: making directories changes no content.
* `openForAppend_spec`: neither does opening a file for appending.
* `contentAt_append`: appending changes the content of one file, at its end.
-/
namespace Overseer.FileSystem

variable {fs fs' : FileSystem} {p : Path} {l l' : Location}

theorem contentAt_put_file (fs : FileSystem) (l' : Location) (content : ByteArray) (hl : l ≠ []) :
    (fs.put l (.file content)).contentAt l' = if l' = l then content else fs.contentAt l' := by
  unfold contentAt
  rw [get?_put _ _ _ _ hl]
  by_cases h : l' = l
  · rw [if_pos h, if_pos h]
  · rw [if_neg h, if_neg h]

/-- A directory at a free place has no content, and neither had the place. -/
theorem contentAt_put_dir (hl : l ≠ []) (hfree : fs.get? l = none) (l' : Location) :
    (fs.put l .dir).contentAt l' = fs.contentAt l' := by
  unfold contentAt
  rw [get?_put _ _ _ _ hl]
  by_cases h : l' = l
  · rw [if_pos h, h, hfree]
  · rw [if_neg h]

/-! ## Reading -/

theorem readFile_eq_ok_iff {content : ByteArray} :
    fs.readFile p = .ok content ↔ ∃ l, fs.canonicalize p = .ok l ∧ fs.get? l = some (.file content) := by
  unfold readFile canonicalize
  cases fs.locate .follow p with
  | error e => simp [bind, Except.bind]
  | ok l =>
    simp only [bind, Except.bind, Except.ok.injEq, exists_eq_left']
    split
    · rename_i h; simp [h]
    · rename_i h; simp [h]
    · rename_i h _
      exact ⟨fun h' => (by cases h'), fun h' => absurd h' (h content)⟩

/-- What is read as a text is the content of the file that the path leads to. -/
theorem readText_eq_ok_iff {text : String} :
    fs.readText p = .ok text ↔ ∃ l, fs.canonicalize p = .ok l ∧ fs.get? l = some (.file text.toUTF8) := by
  rw [← readFile_eq_ok_iff]
  unfold readText
  cases fs.readFile p with
  | error e => simp [bind, Except.bind]
  | ok content =>
    simp only [bind, Except.bind, Except.ok.injEq, ← Utf8.fromUTF8?_eq_some_iff]
    cases String.fromUTF8? content <;> simp

/-! ## Making directories -/

theorem isDirAt_of_free (hfree : fs.get? l = none) : fs.isDirAt l = false := by
  unfold isDirAt; rw [hfree]; rfl

theorem createDir_free (h : fs.createDir p = .ok fs') :
    ∃ l, l ≠ [] ∧ fs.get? l = none ∧ fs.isDirAt l.dropLast = true ∧ fs' = fs.put l .dir := by
  unfold createDir at h
  cases hs : screen p with
  | error e => simp [hs, bind, Except.bind] at h
  | ok u =>
    simp only [hs, bind, Except.bind] at h
    split at h
    · cases h
    rename_i n _
    split at h
    · cases h
    split at h
    · cases h
    rename_i d _
    split at h
    · cases h
    rename_i hdir
    split at h
    · cases h
    split at h
    · cases h
    split at h
    · cases h
    rename_i hfree
    cases h
    exact ⟨d ++ [n], by simp, by simpa using hfree, by simpa using hdir, rfl⟩

/-- What every directory made at a free place keeps, the making of all of them keeps. -/
theorem createDirAll_keeps {P : FileSystem → Prop}
    (make : ∀ fs l, P fs → l ≠ [] → fs.get? l = none → fs.isDirAt l.dropLast = true → P (fs.put l .dir))
    (hP : P fs) : P (fs.createDirAll p).1 := by
  refine createDirAll_induct (W := fun _ => True) (fun fs p fs' hfs _ hmake => ?_)
    (fun _ _ _ _ => trivial) hP trivial
  obtain ⟨l, hl, hfree, hdir, rfl⟩ := createDir_free hmake
  exact make fs l hfs hl hfree hdir

theorem contentAt_createDirAll (fs : FileSystem) (p : Path) (l : Location) :
    (fs.createDirAll p).1.contentAt l = fs.contentAt l :=
  createDirAll_keeps (P := fun fs' => fs'.contentAt l = fs.contentAt l)
    (fun _ _ hfs hl hfree _ => (contentAt_put_dir hl hfree _).trans hfs) rfl

theorem IsTree.createDirAll (ht : fs.IsTree) (p : Path) : (fs.createDirAll p).1.IsTree :=
  createDirAll_keeps (P := IsTree) (fun _ _ hfs hl hfree hdir => hfs.put hl (isDirAt_of_free hfree) hdir) ht

theorem grows_createDirAll (fs : FileSystem) (p : Path) : Grows fs (fs.createDirAll p).1 :=
  createDirAll_keeps (P := Grows fs) (fun _ _ hfs hl hfree _ => hfs.put hl hfree) (Grows.refl fs)

/-! ## Opening and appending -/

theorem openForAppend_spec (h : fs.openForAppend p = .ok (l, fs')) :
    fs.locateForWriting p = .ok l ∧ l ≠ [] ∧ fs' = fs.put l (.file (fs.contentAt l)) := by
  unfold openForAppend at h
  cases hl : fs.locateForWriting p with
  | error e => simp [hl, bind, Except.bind] at h
  | ok x =>
    simp only [hl, bind, Except.bind, pure, Except.pure, Except.ok.injEq, Prod.mk.injEq] at h
    obtain ⟨rfl, rfl⟩ := h
    refine ⟨rfl, ?_, rfl⟩
    rintro rfl
    unfold locateForWriting at hl
    cases hr : fs.resolve .make p with
    | error e => simp [hr, bind, Except.bind] at hl
    | ok pl =>
      cases pl with
      | free d n => simp [hr, bind, Except.bind] at hl
      | found x =>
        simp only [hr, bind, Except.bind] at hl
        split at hl
        · cases hl
        · cases hl
          exact absurd (isDirAt_root fs) ‹_›

theorem contentAt_put_self (hl : l ≠ []) (l' : Location) :
    (fs.put l (.file (fs.contentAt l))).contentAt l' = fs.contentAt l' := by
  rw [contentAt_put_file fs l' _ hl]
  split
  · rename_i h; rw [h]
  · rfl

theorem contentAt_append (fs : FileSystem) (l' : Location) (more : ByteArray) (hl : l ≠ []) :
    (fs.append l more).contentAt l' = if l' = l then fs.contentAt l ++ more else fs.contentAt l' :=
  contentAt_put_file fs l' _ hl

end Overseer.FileSystem

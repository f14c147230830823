import Mathlib
import Overseer.Proofs.FileSystem.Writing
import Overseer.Proofs.Json.Reading
import Overseer.Proofs.Workspace.Calls
import Overseer.Proofs.Workspace.Containment

/-!
# What is written is read back

A write and a read find their file by different ways: the write is checked by the text of its path, makes
directories and then walks the path for writing; the read just follows the path. They meet in one file, which
is all that a write changes apart from the directories on the way to it. A write that comes to nothing may
leave such directories behind, and never a file.

* `fileWrite_cases`: a write is reported with its length, or it is a failure.
* `written_is_read`: the same for every call, and what a read of the path gives afterwards.
-/
namespace Overseer.Workspace

open FileSystem

variable {fs fs' fs₁ : FileSystem} {p r : Path} {l root : Location} {content : ByteArray}

/-- The report tells the path and the number of bytes. -/
theorem written_inj {path path' : String} {n n' : Nat} (h : written path n = written path' n') :
    path = path' ∧ n = n' := by
  have read (path : String) (n : Nat) :
      Json.Document.parse? (written path n) = some (.obj [(some "path", .str (some path)),
        (some "written_bytes", .num (Json.Literal.ofInt n))]) :=
    Json.parse?_compact (.obj [("path", .str path), ("written_bytes", .nat n)]) rfl
  have hread := (read path n).symm.trans ((congrArg Json.Document.parse? h).trans (read path' n'))
  simp only [Option.some.injEq, Json.Document.obj.injEq, List.cons.injEq, Prod.mk.injEq, true_and, and_true,
    Json.Document.str.injEq, Json.Document.num.injEq, Json.Literal.ofInt, Json.Literal.mk.injEq,
    Int.natAbs_natCast] at hread
  refine ⟨hread.1, ?_⟩
  rw [← Json.ofDigits_decimals n, hread.2.2, Json.ofDigits_decimals]

theorem failure_ne_written (text path : String) (n : Nat) : failure text ≠ written path n := fun h =>
  absurd (Json.head_key_eq_of_compact_eq h) (by decide)

/-! ## One file -/

/-- What is written as text is read as the same text. -/
theorem fileRead_of_readFile {w : Workspace} {path text : String}
    (h : fs.readFile (w.pathOf path) = .ok text.toUTF8) : w.fileRead fs path = text := by
  simp only [fileRead, readText, h, bind, Except.bind, Utf8.fromUTF8?_toUTF8]

/-- A write that succeeds after the check writes one file, and the path leads to it. -/
theorem Cleared.writesAt (h : Cleared root fs p fs₁) (ht : fs.IsTree) (hp : p.isAbsolute = true)
    (hw : fs₁.writeFile p content = .ok fs') :
    ∃ l, fs'.canonicalize p = .ok l ∧ fs.WritesAt fs' l content := by
  have spec (ht₁ : fs₁.IsTree) := writeFile_spec ht₁ hp hw
  cases h with
  | there same =>
    subst same
    obtain ⟨pl, hs, -, rfl, hne, before, hfound⟩ := spec ht
    exact ⟨pl.target, (locate_ok hp).mpr ⟨hs, hfound⟩, (AddsDirs.refl _).writesAt hne before fun _ _ hnone hget =>
      by rw [hnone] at hget; cases hget⟩
  | @free l n t _ hfree hsprouted leads =>
    obtain ⟨pl, hs, hmake, rfl, hne, -, hfound⟩ := spec hsprouted.tree
    have htarget := leads pl hs hmake
    rw [htarget] at hne hfound ⊢
    refine ⟨_, (locate_ok hp).mpr ⟨hs, hfound⟩, ?_⟩
    refine AddsDirs.writesAt ⟨hsprouted.grows, fun x o hnone hget => (hsprouted.added x o hnone hget).1⟩ hne
      (Or.inl (ht.get?_behind hfree t)) fun x o hnone hget => ?_
    obtain ⟨-, s, -, hpre, rfl⟩ := hsprouted.added x o hnone hget
    exact (List.prefix_append_right_inj l).mpr hpre
  | barred same leads =>
    subst same
    obtain ⟨pl, hs, hmake, -, -, before, -⟩ := spec ht
    have hdir := isDirAt_iff.mp (leads pl hs hmake)
    rcases before with hnone | ⟨old, hold⟩
    · rw [hdir] at hnone; cases hnone
    · rw [hdir] at hold; cases hold

/-- A write is reported with its length, has written one file, and is read back; or it is a failure, and has
written none. -/
theorem fileWrite_cases (w : Workspace) (ht : fs.IsTree) (path content : String) :
    ((w.fileWrite fs path content).2 = written path content.utf8ByteSize ∧
      (w.fileWrite fs path content).1.readFile (w.pathOf path) = .ok content.toUTF8 ∧
      ∃ l, (w.fileWrite fs path content).1.canonicalize (w.pathOf path) = .ok l ∧
        fs.WritesAt (w.fileWrite fs path content).1 l content.toUTF8) ∨
    ((∃ text, (w.fileWrite fs path content).2 = failure text) ∧ fs.AddsDirs (w.fileWrite fs path content).1) := by
  have hp := w.isAbsolute_pathOf path
  have hend := w.fileWrite_end fs path content
  generalize w.fileWrite fs path content = result at hend
  cases hend with
  | refused text => exact Or.inr ⟨⟨text, rfl⟩, .refl fs⟩
  | stuck above inside text => exact Or.inr ⟨⟨text, rfl⟩, addsDirs_createDirAll fs _⟩
  | @done parent fs₁ fs' above inside dirs write =>
    have htree : fs₁.IsTree := by
      have := ht.createDirAll parent
      rwa [dirs] at this
    have hcleared : Cleared w.root fs (w.pathOf path) fs₁ := by
      have := cleared_of_contains ht hp above inside
      rwa [dirs] at this
    exact Or.inl ⟨rfl, readFile_of_writeFile htree hp write, hcleared.writesAt ht hp write⟩

/-- A write that is reported tells the number of bytes of its content and has written it to one file, the one
that its path leads to from then on: a read of the same path gives just this content, and nothing else has
changed but for new directories on the way to the file. A write that is answered in any other way, be it an
error or a failure, has changed no file and made none. -/
theorem written_is_read (w : Workspace) (ht : fs.IsTree) {args : Dict Json} {answer : Except ToolError String}
    (h : w.execute fs "file_write" args = (fs', answer)) :
    (∀ path n, answer = .ok (written path n) →
      textArgument args "path" = some path ∧
      ∃ content, textArgument args "content" = some content ∧ n = content.toUTF8.size ∧
        (∀ args', textArgument args' "path" = some path →
          w.execute fs' "file_read" args' = (fs', .ok content)) ∧
        ∃ l, fs'.canonicalize (w.pathOf path) = .ok l ∧ fs.WritesAt fs' l content.toUTF8) ∧
    ((∀ path n, answer ≠ .ok (written path n)) →
      ((∃ e, answer = .error e) ∨ ∃ text, answer = .ok (failure text)) ∧ fs.AddsDirs fs') := by
  by_cases hbad : Malformed "file_write" args
  · obtain ⟨e, he⟩ := execute_malformed hbad w fs
    rw [he] at h
    cases h
    exact ⟨fun _ _ hok => (by cases hok), fun _ => ⟨Or.inl ⟨e, rfl⟩, .refl fs⟩⟩
  obtain ⟨hname, -⟩ | ⟨-, path, content, hpath, hcontent⟩ | hname := wellFormed_cases hbad
  · exact absurd hname (by decide)
  · rw [execute_write hpath hcontent] at h
    cases h
    obtain ⟨hanswer, hread, l, hl, hwrites⟩ | ⟨⟨text, htext⟩, hdirs⟩ := w.fileWrite_cases ht path content
    · refine ⟨fun path' n hok => ?_, fun hnone => absurd (congrArg Except.ok hanswer) (hnone _ _)⟩
      obtain ⟨rfl, rfl⟩ := written_inj (hanswer.symm.trans (Except.ok.inj hok))
      refine ⟨hpath, content, hcontent, rfl, fun args' hargs' => ?_, l, hl, hwrites⟩
      rw [execute_read hargs', fileRead_of_readFile hread]
    · refine ⟨fun path' n hok => ?_, fun _ => ⟨Or.inr ⟨text, congrArg Except.ok htext⟩, hdirs⟩⟩
      exact absurd (htext.symm.trans (Except.ok.inj hok)) (failure_ne_written _ _ _)
  · exact absurd hname (by decide)

/-- A workspace `/w` with a directory `d` and a link `l` to it. -/
def linkedIn : FileSystem where
  objects := [([[119]], .dir), ([[119], [100]], .dir), ([[119], [108]], .link [100])]

theorem linkedIn_isTree : linkedIn.IsTree := by
  intro l o hl hget
  rw [get?, if_neg hl] at hget
  obtain ⟨front, behind, heq, -⟩ := List.lookup_eq_some_iff.mp hget
  have hmem : (l, o) ∈ linkedIn.objects := by rw [heq]; simp
  simp only [linkedIn, List.mem_cons, Prod.mk.injEq, List.not_mem_nil, or_false] at hmem
  rcases hmem with ⟨rfl, -⟩ | ⟨rfl, -⟩ | ⟨rfl, -⟩ <;> rfl

/-- A file in a new directory behind the link. -/
def behindLink : Dict Json := [("path", .str "l/n/f"), ("content", .str "hé")]

theorem written_is_read_behindLink :
    linkedIn.IsTree ∧ ∃ fs' l,
      execute ⟨[[119]]⟩ linkedIn "file_write" behindLink = (fs', .ok (written "l/n/f" 3)) ∧
      execute ⟨[[119]]⟩ fs' "file_read" [("path", .str "l/n/f")] = (fs', .ok "hé") ∧
      linkedIn.WritesAt fs' l "hé".toUTF8 := by
  have hanswer : (execute ⟨[[119]]⟩ linkedIn "file_write" behindLink).2 = .ok (written "l/n/f" 3) := by cbv
  have hwrite : execute ⟨[[119]]⟩ linkedIn "file_write" behindLink =
      ((execute ⟨[[119]]⟩ linkedIn "file_write" behindLink).1, .ok (written "l/n/f" 3)) := Prod.ext rfl hanswer
  obtain ⟨hreported, -⟩ := written_is_read ⟨[[119]]⟩ linkedIn_isTree hwrite
  obtain ⟨-, content, hcontent, -, hread, l, -, hwrites⟩ := hreported _ _ rfl
  obtain rfl : "hé" = content := Option.some.inj hcontent
  exact ⟨linkedIn_isTree, _, l, hwrite, hread _ rfl, hwrites⟩

end Overseer.Workspace

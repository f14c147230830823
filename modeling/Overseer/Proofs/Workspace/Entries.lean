import Mathlib
import Overseer.Proofs.FileSystem.Enumeration
import Overseer.Proofs.Json.Reading
import Overseer.Proofs.Workspace.Calls
import Overseer.Proofs.Workspace.Listing

/-!
# What a listing shows

A listing has one line for each entry of one directory, in the order of the lines' bytes. That order is all that
is seen of the list: in which order the system enumerates the directory makes no difference.

* `shows_sortedLines`: the lines of a listing are those of the directory.
* `Reordered.listDir`: the order of enumeration makes no difference.
* `list_shows_directory`: the same for every call, and which directories are listed.
-/
namespace Overseer

open FileSystem

namespace Workspace

variable {w : Workspace} {fs fs' : FileSystem} {l : Location} {p : Path} {path : String}

/-! ## Lines in order -/

/-- Lines in order. -/
def sortLines (lines : List String) : List String := lines.mergeSort fun a b => !(b < a)

theorem sortLines_pairwise (lines : List String) : (sortLines lines).Pairwise fun a b => a ≤ b := by
  have hle (a b : String) : (!decide (b < a)) = true ↔ a ≤ b := by
    rw [Bool.not_eq_true', decide_eq_false_iff_not, String.not_lt]
  refine (List.pairwise_mergeSort (fun a b c hab hbc => ?_) (fun a b => ?_) lines).imp fun h => (hle _ _).mp h
  · exact (hle a c).mpr (String.le_trans ((hle a b).mp hab) ((hle b c).mp hbc))
  · rw [Bool.or_eq_true, hle, hle]
    exact String.le_total a b

theorem sortLines_congr {a b : List String} (h : a.Perm b) : sortLines a = sortLines b :=
  (((List.mergeSort_perm a _).trans h).trans (List.mergeSort_perm b _).symm).eq_of_pairwise
    (fun _ _ _ _ => String.le_antisymm) (sortLines_pairwise a) (sortLines_pairwise b)

/-! ## The lines of a directory -/

/-- The answer that lists some lines. -/
def listed (path : String) (lines : List String) : String :=
  (Json.obj [("entries", Json.strings lines), ("path", .str path)]).compact

theorem failure_ne_listed (text path : String) (lines : List String) : failure text ≠ listed path lines :=
  fun h => absurd (Json.head_key_eq_of_compact_eq h) (by decide)

/-- The lines of a directory as it is enumerated. -/
def linesOf (fs : FileSystem) (l : Location) : List String :=
  (fs.namesIn l).map fun n => entryText ⟨n, fs.isDirAt (l ++ [n])⟩

/-- Lines that show a directory: each thing that stands in it has one line, in the order of the lines' bytes. -/
structure Shows (fs : FileSystem) (l : Location) (lines : List String) : Prop where
  each : ∃ names : List Name, names.Nodup ∧ (∀ n, n ∈ names ↔ ∃ o, fs.get? (l ++ [n]) = some o) ∧
    lines.Perm (names.map fun n => Utf8.lossy n ++ if fs.isDirAt (l ++ [n]) then "/" else "")
  sorted : lines.Pairwise fun a b => ¬List.Lex (· < ·) (Utf8.bytes b) (Utf8.bytes a)

theorem shows_sortedLines (hd : fs.Distinct) (l : Location) : Shows fs l (sortLines (linesOf fs l)) where
  each := ⟨fs.namesIn l, hd.namesIn_nodup l, fun _ => hd.mem_namesIn_iff, List.mergeSort_perm _ _⟩
  sorted := (sortLines_pairwise _).imp fun h hlex => h (Utf8.bytes_lex_iff.mp hlex)

/-- A directory in the root is listed. -/
theorem listDir_inside (hc : fs.canonicalize (w.pathOf path) = .ok l) (hin : w.root <+: l)
    (hdir : fs.isDirAt l = true) : w.listDir fs path = listed path (sortLines (linesOf fs l)) := by
  have hl : fs.locate .follow (w.pathOf path) = .ok l := hc
  have hcontains : w.contains fs (w.pathOf path) = .ok true := by
    rw [w.contains_of_canonicalize (w.isAbsolute_pathOf path) hc, List.isPrefixOf_iff_prefix.mpr hin]
  simp only [listDir, hcontains, readDir, hl, bind, Except.bind, if_pos hdir, List.map_map]
  rfl

end Workspace

/-! ## The order of enumeration -/

namespace FileSystem.Reordered

variable {fs fs' : FileSystem} (h : fs.Reordered fs')
include h

theorem anchor (hd : fs.Distinct) (fuel : Nat) (p : Path) (tail : List Name) :
    Workspace.anchor fs' fuel p tail = Workspace.anchor fs fuel p tail := by
  induction fuel generalizing p tail with
  | zero => rfl
  | succ fuel ih =>
    rw [Workspace.anchor, Workspace.anchor, exists?, exists?, h.locate hd]
    simp only [ih]

theorem contains (hd : fs.Distinct) (w : Workspace) (p : Path) : w.contains fs' p = w.contains fs p := by
  simp only [Workspace.contains, canonicalize, h.anchor hd, h.locate hd]

theorem listDir (hd : fs.Distinct) (w : Workspace) (path : String) : w.listDir fs' path = w.listDir fs path := by
  simp only [Workspace.listDir, h.contains hd, readDir, h.locate hd, h.isDirAt hd]
  cases fs.locate .follow (w.pathOf path) with
  | error e => rfl
  | ok l =>
    by_cases hdir : fs.isDirAt l = true
    · simp only [bind, Except.bind, if_pos hdir]
      have hlines := Workspace.sortLines_congr
        (((h.namesIn l).map fun n => DirEntry.mk n (fs.isDirAt (l ++ [n]))).map Workspace.entryText)
      rw [Workspace.sortLines, Workspace.sortLines] at hlines
      rw [hlines]
    · simp only [bind, Except.bind, if_neg hdir]

end FileSystem.Reordered

namespace Workspace

variable {fs : FileSystem}

/-- A listing changes nothing, and its answer does not depend on the order in which directories are enumerated.
Unless it is a failure it shows the directory that the path leads to, and that is in the root. Where the path leads
to something, it is a failure just if that is outside the root or no directory. -/
theorem list_shows_directory (w : Workspace) (hd : fs.Distinct) (args : Dict Json) {path : String}
    (hpath : path = (textArgument args "path").getD ".") :
    ∃ answer,
      (∀ fs', fs.Reordered fs' → w.execute fs' "list_dir" args = (fs', .ok answer)) ∧
      ((∃ text, answer = failure text) ∨ ∃ l lines, fs.canonicalize (w.pathOf path) = .ok l ∧ w.root <+: l ∧
        fs.isDirAt l = true ∧ answer = listed path lines ∧ Shows fs l lines) ∧
      ∀ l, fs.canonicalize (w.pathOf path) = .ok l →
        ((∃ text, answer = failure text) ↔ ¬(w.root <+: l ∧ fs.isDirAt l = true)) := by
  refine ⟨w.listDir fs path, fun fs' h => ?_, ?_, fun l hl => ⟨?_, fun hnot => ?_⟩⟩
  · rw [execute_list, ← hpath, h.listDir hd]
  · refine (w.listDir_cases fs path).imp_right fun ⟨l, hl, hin, hdir, heq⟩ => ?_
    exact ⟨l, _, hl, hin, hdir, heq, shows_sortedLines hd l⟩
  · rintro ⟨text, htext⟩ ⟨hin, hdir⟩
    exact failure_ne_listed _ _ _ (htext.symm.trans (listDir_inside hl hin hdir))
  · obtain htext | ⟨l', hl', hin, hdir, -⟩ := w.listDir_cases fs path
    · exact htext
    · cases hl.symm.trans hl'
      exact absurd ⟨hin, hdir⟩ hnot

/-- A workspace `/w` with a directory, a link to it and a file whose name is no text. -/
def mixed : FileSystem where
  objects := [([[119]], .dir), ([[119], [255]], .file .empty), ([[119], [108]], .link [98]), ([[119], [98]], .dir)]

/-- Asks for the workspace itself, by a way round. -/
def roundabout : Dict Json := [("path", .str "b/..")]

theorem list_shows_directory_mixed :
    mixed.Distinct ∧ ∀ fs', mixed.Reordered fs' →
      execute ⟨[[119]]⟩ fs' "list_dir" roundabout = (fs', .ok (listed "b/.." ["b/", "l", "\uFFFD"])) := by
  have hd : mixed.Distinct := by decide
  have hpath : "b/.." = (textArgument roundabout "path").getD "." := rfl
  obtain ⟨answer, hanswer, -⟩ := list_shows_directory ⟨[[119]]⟩ hd roundabout hpath
  have hlisted : (execute ⟨[[119]]⟩ mixed "list_dir" roundabout).2 =
      .ok (listed "b/.." ["b/", "l", "\uFFFD"]) := by cbv
  rw [hanswer mixed ⟨rfl, .refl _⟩] at hlisted
  cases hlisted
  exact ⟨hd, hanswer⟩

end Workspace

end Overseer

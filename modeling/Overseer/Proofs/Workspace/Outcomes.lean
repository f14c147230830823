import Overseer.Proofs.Json.Reading
import Overseer.Proofs.Workspace.Entries
import Overseer.Proofs.Workspace.Writing

/-!
# What comes of a call

A call is malformed, or it is done, or the files do not allow it. Only the first is an error: what goes wrong with
the files is told to the model, as an object with the one key `error`.

* `Done`: what a call comes to when the files allow it, and `execute_of_done`.
* `execute_failure`: a call that the files do not allow is answered by a failure.
* `execute_error_iff`: a call is an error just if it is malformed.
-/
namespace Overseer.Workspace

open FileSystem

variable {w : Workspace} {fs fs' : FileSystem} {tool path output : String} {args : Dict Json}

/-- The text of a failure is read as an object whose one key is `error`. -/
theorem parse?_failure (text : String) :
    Json.Document.parse? (failure text) = some (.obj [(some "error", .str (some text))]) :=
  Json.parse?_compact (.obj [("error", .str text)]) rfl

/-- The files allow a call: what it makes of them, and its answer. -/
inductive Done (w : Workspace) (fs : FileSystem) (tool : String) (args : Dict Json) :
    FileSystem → String → Prop where
  /-- The path leads to a file that holds a text. -/
  | read {path text : String} {l : Location} (name : tool = "file_read")
    (hpath : textArgument args "path" = some path) (found : fs.canonicalize (w.pathOf path) = .ok l)
    (file : fs.get? l = some (.file text.toUTF8)) : Done w fs tool args fs text
  /-- The path leads to a place inside, the directories on the way can be made, and the file can be written. -/
  | write {path content : String} {parent : Path} {fs₁ fs' : FileSystem} (name : tool = "file_write")
    (hpath : textArgument args "path" = some path) (hcontent : textArgument args "content" = some content)
    (above : Path.parent? (w.pathOf path) = some parent) (inside : w.contains fs (w.pathOf path) = .ok true)
    (dirs : fs.createDirAll parent = (fs₁, .ok ()))
    (write : fs₁.writeFile (w.pathOf path) content.toUTF8 = .ok fs') :
    Done w fs tool args fs' (written path content.utf8ByteSize)
  /-- The path leads to a directory inside. -/
  | list {l : Location} (name : tool = "list_dir")
    (found : fs.canonicalize (w.pathOf ((textArgument args "path").getD ".")) = .ok l) (inside : w.root <+: l)
    (dir : fs.isDirAt l = true) :
    Done w fs tool args fs (listing fs l ((textArgument args "path").getD "."))

theorem execute_of_done (h : Done w fs tool args fs' output) : w.execute fs tool args = (fs', .ok output) := by
  cases h with
  | read name hpath found file =>
    subst name
    rw [execute_read hpath]
    simp only [fileRead, readText_eq_ok_iff.mpr ⟨_, found, file⟩]
  | write name hpath hcontent above inside dirs write =>
    subst name
    rw [execute_write hpath hcontent]
    simp only [fileWrite, above, inside, dirs, write, written]
  | list name found inside dir =>
    subst name
    rw [execute_list, listDir_inside found inside dir]
    rfl

/-- A call that is neither malformed nor allowed by the files is answered by a failure. -/
theorem execute_failure (hform : ¬Malformed tool args) (hnot : ∀ fs' output, ¬Done w fs tool args fs' output) :
    ∃ text, (w.execute fs tool args).2 = .ok (failure text) := by
  obtain ⟨name, path, hpath⟩ | ⟨name, path, content, hpath, hcontent⟩ | name := wellFormed_cases hform
  · subst name
    rw [execute_read hpath]
    cases hread : fs.readText (w.pathOf path) with
    | error e => exact ⟨"file_read: " ++ e.message, by simp only [fileRead, hread]⟩
    | ok text =>
      obtain ⟨l, found, file⟩ := readText_eq_ok_iff.mp hread
      exact absurd (.read rfl hpath found file) (hnot _ _)
  · have hend := w.fileWrite_end fs path content
    subst name
    rw [execute_write hpath hcontent]
    generalize w.fileWrite fs path content = result at hend
    cases hend with
    | refused text => exact ⟨text, rfl⟩
    | stuck above inside text => exact ⟨text, rfl⟩
    | done above inside dirs write =>
      exact absurd (.write rfl hpath hcontent above inside dirs write) (hnot _ _)
  · subst name
    rw [execute_list]
    obtain ⟨text, htext⟩ | ⟨l, found, inside, dir, -⟩ := w.listDir_cases fs ((textArgument args "path").getD ".")
    · exact ⟨text, congrArg Except.ok htext⟩
    · exact absurd (.list rfl found inside dir) (hnot _ _)

/-- A call is an error just if it is malformed. -/
theorem execute_error_iff : (∃ e, (w.execute fs tool args).2 = .error e) ↔ Malformed tool args := by
  refine ⟨fun ⟨e, he⟩ => Decidable.byContradiction fun hform => ?_, fun h => ?_⟩
  · by_cases hdone : ∃ fs' output, Done w fs tool args fs' output
    · obtain ⟨fs', output, hdone⟩ := hdone
      rw [execute_of_done hdone] at he
      cases he
    · obtain ⟨text, htext⟩ := execute_failure hform fun fs' output h => hdone ⟨fs', output, h⟩
      rw [htext] at he
      cases he
  · obtain ⟨e, he⟩ := execute_malformed h w fs
    exact ⟨e, by rw [he]⟩

end Overseer.Workspace

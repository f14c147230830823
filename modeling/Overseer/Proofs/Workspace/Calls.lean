import Overseer.Workspace

/-!
# Calls of the tools

What a call is made of: the name of a tool and arguments, of which the tools read those that are texts. A call
that a tool cannot make sense of is malformed, and it fails before any file is looked at; for every other call
`Workspace.execute` is the tool itself.

* `execute_malformed`: a malformed call is an error, and nothing has happened.
* `execute_read`, `execute_write`, `execute_list`: a call that is well formed is answered by its tool.
* `execute_keeps`: what writing a file keeps, every tool keeps.
* `fileWrite_end`: how a write ends.
-/
namespace Overseer.Workspace

variable {w : Workspace} {fs : FileSystem} {tool path content : String} {args : Dict Json}

/-- The argument of a call under a key, if it is a text. -/
def textArgument (args : Dict Json) (key : String) : Option String := (Dict.get? key args).bind Json.str?

/-- No tool has the name, or the tool lacks a text that it needs. -/
inductive Malformed (tool : String) (args : Dict Json) : Prop where
  | unknown (name : tool ∉ ["file_read", "file_write", "list_dir"])
  | noPath (needs : tool = "file_read" ∨ tool = "file_write") (path : textArgument args "path" = none)
  | noContent (needs : tool = "file_write") (content : textArgument args "content" = none)

theorem malformed_iff : Malformed tool args ↔ tool ∉ ["file_read", "file_write", "list_dir"] ∨
    ((tool = "file_read" ∨ tool = "file_write") ∧ textArgument args "path" = none) ∨
    (tool = "file_write" ∧ textArgument args "content" = none) := by
  constructor
  · rintro (name | ⟨needs, path⟩ | ⟨needs, content⟩)
    · exact Or.inl name
    · exact Or.inr (Or.inl ⟨needs, path⟩)
    · exact Or.inr (Or.inr ⟨needs, content⟩)
  · rintro (name | ⟨needs, path⟩ | ⟨needs, content⟩)
    · exact .unknown name
    · exact .noPath needs path
    · exact .noContent needs content

instance (tool : String) (args : Dict Json) : Decidable (Malformed tool args) := decidable_of_iff' _ malformed_iff

theorem requiredText_eq (tool : String) (args : Dict Json) (key : String) :
    requiredText tool args key = match textArgument args key with
      | some s => .ok s
      | none => .error (.invalidArguments tool ("missing or invalid '" ++ key ++ "' argument")) := rfl

theorem execute_read (hpath : textArgument args "path" = some path) :
    w.execute fs "file_read" args = (fs, .ok (w.fileRead fs path)) := by
  simp only [execute, if_true, requiredText_eq, hpath]

theorem execute_write (hpath : textArgument args "path" = some path)
    (hcontent : textArgument args "content" = some content) :
    w.execute fs "file_write" args =
      ((w.fileWrite fs path content).1, .ok (w.fileWrite fs path content).2) := by
  simp only [execute, if_true, requiredText_eq, hpath, hcontent]
  rw [if_neg (by decide)]

theorem execute_list (w : Workspace) (fs : FileSystem) (args : Dict Json) :
    w.execute fs "list_dir" args = (fs, .ok (w.listDir fs ((textArgument args "path").getD "."))) := by
  simp only [execute]
  rw [if_neg (by decide), if_neg (by decide)]
  rfl

/-- A malformed call is an error, and no file has been looked at. -/
theorem execute_malformed (h : Malformed tool args) (w : Workspace) (fs : FileSystem) :
    ∃ e, w.execute fs tool args = (fs, .error e) := by
  cases h with
  | unknown name =>
    simp only [List.mem_cons, List.not_mem_nil, or_false, not_or] at name
    exact ⟨.unknownTool tool, by simp only [execute, name, if_false]⟩
  | noPath needs path =>
    rcases needs with rfl | rfl
    · exact ⟨_, by simp only [execute, if_true, requiredText_eq, path]; rfl⟩
    · exact ⟨_, by simp only [execute, if_true, requiredText_eq, path]; rfl⟩
  | noContent needs content =>
    subst needs
    cases hpath : textArgument args "path" with
    | none => exact ⟨_, by simp only [execute, if_true, requiredText_eq, hpath]; rfl⟩
    | some path => exact ⟨_, by simp only [execute, if_true, requiredText_eq, hpath, content]; rfl⟩

/-- A call that is not malformed has the arguments that its tool needs. -/
theorem wellFormed_cases (h : ¬Malformed tool args) :
    (tool = "file_read" ∧ ∃ path, textArgument args "path" = some path) ∨
      (tool = "file_write" ∧ ∃ path content, textArgument args "path" = some path ∧
        textArgument args "content" = some content) ∨ tool = "list_dir" := by
  have hname : tool ∈ ["file_read", "file_write", "list_dir"] :=
    Decidable.byContradiction fun hname => h (.unknown hname)
  have hpath (needs : tool = "file_read" ∨ tool = "file_write") : ∃ path, textArgument args "path" = some path :=
    Option.ne_none_iff_exists'.mp fun hnone => h (.noPath needs hnone)
  simp only [List.mem_cons, List.not_mem_nil, or_false] at hname
  rcases hname with hread | hwrite | hlist
  · exact Or.inl ⟨hread, hpath (Or.inl hread)⟩
  · obtain ⟨path, hpath⟩ := hpath (Or.inr hwrite)
    obtain ⟨content, hcontent⟩ := Option.ne_none_iff_exists'.mp fun hnone => h (.noContent hwrite hnone)
    exact Or.inr (Or.inl ⟨hwrite, path, content, hpath, hcontent⟩)
  · exact Or.inr (Or.inr hlist)

/-- What writing a file keeps, every tool keeps. -/
theorem execute_keeps {P : FileSystem → Prop} (hP : P fs)
    (write : ∀ path content, P (w.fileWrite fs path content).1) (tool : String) (args : Dict Json) :
    P (w.execute fs tool args).1 := by
  by_cases hbad : Malformed tool args
  · obtain ⟨e, he⟩ := execute_malformed hbad w fs
    rwa [he]
  obtain ⟨rfl, path, hpath⟩ | ⟨rfl, path, content, hpath, hcontent⟩ | rfl := wellFormed_cases hbad
  · rwa [execute_read hpath]
  · rw [execute_write hpath hcontent]
    exact write path content
  · rwa [execute_list]

/-! ## Writing -/

/-- The answer that reports what has been written. -/
def written (path : String) (bytes : Nat) : String :=
  (Json.obj [("path", .str path), ("written_bytes", .nat bytes)]).compact

/-- How a write ends: it is refused before anything is made, or it fails when directories have been made, or it is
done. -/
inductive WriteEnd (w : Workspace) (fs : FileSystem) (path content : String) : FileSystem × String → Prop where
  | refused (text : String) : WriteEnd w fs path content (fs, failure text)
  | stuck {parent : Path} (above : Path.parent? (w.pathOf path) = some parent)
    (inside : w.contains fs (w.pathOf path) = .ok true) (text : String) :
    WriteEnd w fs path content ((fs.createDirAll parent).1, failure text)
  | done {parent : Path} {fs₁ fs' : FileSystem} (above : Path.parent? (w.pathOf path) = some parent)
    (inside : w.contains fs (w.pathOf path) = .ok true) (dirs : fs.createDirAll parent = (fs₁, .ok ()))
    (write : fs₁.writeFile (w.pathOf path) content.toUTF8 = .ok fs') :
    WriteEnd w fs path content (fs', written path content.utf8ByteSize)

theorem fileWrite_end (w : Workspace) (fs : FileSystem) (path content : String) :
    WriteEnd w fs path content (w.fileWrite fs path content) := by
  simp only [fileWrite]
  split
  · exact .refused _
  rename_i parent above
  split
  · exact .refused _
  · exact .refused _
  rename_i inside
  have stuck (text : String) : WriteEnd w fs path content ((fs.createDirAll parent).1, failure text) :=
    .stuck above inside text
  split
  · rename_i dirs
    rw [dirs] at stuck
    exact stuck _
  rename_i dirs
  split
  · rw [dirs] at stuck
    exact stuck _
  · rename_i write
    exact .done above inside dirs write

end Overseer.Workspace

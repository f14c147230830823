import Mathlib
import Overseer.Proofs.Config.Layers

/-!
# The workspace that is configured

The workspace of a command is decided twice. It is looked up from the options and the base file, to find the file in it;
and it is a setting like all others, which that file may hold as well. So the file of a workspace can send a run
elsewhere, under the limits and the tools that it sets.

* `own_eq`: the file that counts is the one in the workspace that is looked up.
* `workspace_configured`: the two agree unless the file names another place, and no other file makes a difference.
* `workspace_moved`: a file that does.
-/
namespace Overseer.Config

/-- The workspace that is looked up for a command. -/
def lookedUp (fs : FileSystem) (env : Environment) (command : Command) : String :=
  (command.workspace?.or (base fs env command).workspace).getD "./workspace"

/-- What the file of that workspace sets. -/
def own (fs : FileSystem) (env : Environment) (command : Command) : Layer :=
  layerAt fs ((Path.ofString (lookedUp fs env command)).join (Path.ofString "delegate.toml"))

/-- Two texts spell one path, or lead to one place. -/
def SamePlace (fs : FileSystem) (a b : String) : Prop :=
  a = b ∨ ∃ l, fs.canonicalize (Path.ofString a) = .ok l ∧ fs.canonicalize (Path.ofString b) = .ok l

section

variable {fs fs' : FileSystem} {env : Environment} {command : Command} {s : Settings}

theorem own_eq (fs : FileSystem) (env : Environment) (command : Command) :
    layerAt fs (ownFile command (base fs env command)) = own fs env command := by
  rw [ownFile, consulted_eq]
  rfl

theorem settled_of_load (h : load fs env command = .ok s) :
    s = Layer.settled [.ofCommand command, own fs env command, base fs env command] := by
  rw [load_eq, own_eq] at h
  exact ((Layer.settle_merged _).mp h).2

/-- Two trees with the same base file and the same file in the workspace load the same settings. -/
theorem load_congr (hbase : base fs' env command = base fs env command)
    (hown : own fs' env command = own fs env command) : load fs' env command = load fs env command := by
  rw [load_eq, load_eq, own_eq, own_eq, hbase, hown]

/-- The workspace that is configured is the one that the options or its own file name, or else the one looked up. -/
theorem workspace_of_load (h : load fs env command = .ok s) :
    s.workspace = (command.workspace?.or (own fs env command).workspace).getD (lookedUp fs env command) := by
  have hoption : (Layer.ofCommand command).workspace = command.workspace? := by cases command <;> rfl
  rw [settled_of_load h, Layer.settled, lookedUp]
  simp only [List.findSome?_cons, List.findSome?_nil, hoption]
  cases command.workspace? <;> cases (own fs env command).workspace <;> cases (base fs env command).workspace <;> rfl

/-- The settings of a command are its options over the file of the workspace that is looked up, over the base file. That
workspace is the one that is configured, however it is spelled, unless the command names none and that file names
another place; then it is the one that the file names. No file but these two makes a difference. -/
theorem workspace_configured (h : load fs env command = .ok s) :
    s = Layer.settled [.ofCommand command, own fs env command, base fs env command] ∧
    s.workspace = (command.workspace?.or (own fs env command).workspace).getD (lookedUp fs env command) ∧
    (SamePlace fs s.workspace (lookedUp fs env command) ↔
      (command.workspace? = none → ∀ v, (own fs env command).workspace = some v →
        SamePlace fs v (lookedUp fs env command))) ∧
    ∀ fs', base fs' env command = base fs env command → own fs' env command = own fs env command →
      load fs' env command = .ok s := by
  have hworkspace := workspace_of_load h
  refine ⟨settled_of_load h, hworkspace, ?_, fun fs' hbase hown => (load_congr hbase hown).trans h⟩
  rw [hworkspace]
  cases hoption : command.workspace? with
  | some v =>
    have hnamed : lookedUp fs env command = v := by rw [lookedUp, hoption]; rfl
    rw [hnamed]
    exact ⟨fun _ hnone => (by cases hnone), fun _ => Or.inl rfl⟩
  | none =>
    cases (own fs env command).workspace with
    | none => exact ⟨fun _ _ _ hnone => (by cases hnone), fun _ => Or.inl rfl⟩
    | some v => simp

end

/-- A command that names no workspace. -/
def bareRun : Command := .run { skill := "x", task := "y" }

/-- A workspace `./workspace` with a file of settings, and a directory `other`. -/
def workspaceWith (file : String) : FileSystem where
  objects := [([Path.ofString "workspace"], .dir),
    ([Path.ofString "workspace", Path.ofString "delegate.toml"], .file file.toUTF8),
    ([Path.ofString "other"], .dir)]

/-- A file that names a workspace, and sets a limit. -/
def naming (workspace : String) : String :=
  "[general]\nworkspace = \"" ++ workspace ++ "\"\n[limits]\nmax_tokens = 5\n"

section

variable (file : String)

theorem canonicalize_default : (workspaceWith file).canonicalize (Path.ofString "./workspace") =
    .ok [Path.ofString "workspace"] := by cbv

theorem canonicalize_workspace : (workspaceWith file).canonicalize (Path.ofString "workspace") =
    .ok [Path.ofString "workspace"] := by cbv

theorem canonicalize_other : (workspaceWith file).canonicalize (Path.ofString "other") =
    .ok [Path.ofString "other"] := by cbv

theorem own_workspaceWith {l : Layer} (h : Layer.ofToml? file = some l) :
    own (workspaceWith file) {} bareRun = l := by
  have hlooked : lookedUp (workspaceWith file) {} bareRun = "./workspace" := rfl
  have hpath : (workspaceWith file).canonicalize
      ((Path.ofString "./workspace").join (Path.ofString "delegate.toml")) =
        .ok [Path.ofString "workspace", Path.ofString "delegate.toml"] := by cbv
  have hread := FileSystem.readText_eq_ok_iff.mpr ⟨_, hpath, rfl⟩
  rw [own, hlooked, layerAt, readLayer?, hread]
  exact congrArg (·.getD Layer.empty) h

theorem load_workspaceWith {l : Layer} (h : Layer.ofToml? file = some l) :
    load (workspaceWith file) {} bareRun = (Layer.merged [.ofCommand bareRun, l, .empty]).settle := by
  rw [load_eq, own_eq, own_workspaceWith file h]
  rfl

end

/-- The file names the workspace by another path: it is configured all the same. -/
theorem workspace_configured_otherSpelling : ∃ s, load (workspaceWith (naming "workspace")) {} bareRun = .ok s ∧
    s.workspace = "workspace" ∧ s.maxTokens = 5 ∧
    SamePlace (workspaceWith (naming "workspace")) s.workspace "./workspace" := by
  have hfile : Layer.ofToml? (naming "workspace") = some { workspace := some "workspace", maxTokens := some 5 } := by
    decide +kernel
  have h := load_workspaceWith _ hfile
  obtain ⟨-, -, hsame, -⟩ := workspace_configured (h.trans rfl)
  refine ⟨_, h.trans rfl, rfl, rfl, hsame.mpr fun _ v hv => ?_⟩
  rw [own_workspaceWith _ hfile] at hv
  cases hv
  exact Or.inr ⟨_, canonicalize_workspace _, canonicalize_default _⟩

/-- The file names another workspace: the run is there, and under the limit that the file sets. -/
theorem workspace_moved : ∃ s, load (workspaceWith (naming "other")) {} bareRun = .ok s ∧
    lookedUp (workspaceWith (naming "other")) {} bareRun = "./workspace" ∧
    (own (workspaceWith (naming "other")) {} bareRun).maxTokens = some 5 ∧ s.maxTokens = 5 ∧ s.workspace = "other" ∧
    ¬SamePlace (workspaceWith (naming "other")) s.workspace "./workspace" := by
  have hfile : Layer.ofToml? (naming "other") = some { workspace := some "other", maxTokens := some 5 } := by
    decide +kernel
  have hown := own_workspaceWith _ hfile
  refine ⟨_, (load_workspaceWith _ hfile).trans rfl, rfl, by rw [hown], rfl, rfl, ?_⟩
  rintro (heq | ⟨l, hl, hl'⟩)
  · exact absurd heq (by decide)
  · cases (canonicalize_other _).symm.trans hl
    exact absurd (Except.ok.inj ((canonicalize_default _).symm.trans hl')) (by decide)

end Overseer.Config

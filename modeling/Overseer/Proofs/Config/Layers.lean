import Overseer.Proofs.Config.Files

/-!
# Settings by layers

Each setting is decided on its own, by the first layer that holds it. So it does not matter how layers are
grouped when they are put one above the other, and a layer that holds nothing can be anywhere. The settings for a
command come from three layers: its own options, the file of the workspace that is consulted, and the base file,
which may itself say which workspace that is.

* `merged_eq`: what layers one above the other hold, each setting as the first has it that holds it.
* `Grouping.merge_eq`: layers can be grouped as one likes.
* `settle_merged`: what is settled, and when.
* `LimitsValid`, `chosen`: when the settings of a command are valid, and what they are, one by one.
* `load_layered`: all of it, for every command and every state of the files.
-/
namespace Overseer

namespace Layer

variable {α : Type} {s : Settings}

/-! ## One above the other -/

theorem above_assoc (a b c : Layer) : (a.above b).above c = a.above (b.above c) := by
  simp only [above, Option.orElse_eq_orElse, Option.orElse_eq_or, Option.or_assoc]

theorem empty_above (l : Layer) : empty.above l = l := by
  simp only [above, empty, Option.orElse_eq_orElse, Option.orElse_eq_or, Option.none_or]

theorem above_empty (l : Layer) : l.above empty = l := by
  simp only [above, empty, Option.orElse_eq_orElse, Option.orElse_eq_or, Option.or_none]

/-- Layers one above the other. -/
def merged (layers : List Layer) : Layer := layers.foldr above empty

theorem merged_append (a b : List Layer) : merged (a ++ b) = (merged a).above (merged b) := by
  induction a with
  | nil => exact (empty_above _).symm
  | cons l a ih =>
    show l.above (merged (a ++ b)) = (l.above (merged a)).above (merged b)
    rw [ih, above_assoc]

theorem findSome?_above (field : Layer → Option α) (l : Layer) (layers : List Layer) :
    (l :: layers).findSome? field = (field l <|> layers.findSome? field) := by
  rw [List.findSome?_cons]
  cases field l <;> rfl

/-- Each setting is held as the first layer has it that holds it. -/
theorem merged_eq (layers : List Layer) : merged layers = {
    model := layers.findSome? model
    workspace := layers.findSome? workspace
    ollamaUrl := layers.findSome? ollamaUrl
    maxTokens := layers.findSome? maxTokens
    maxToolCalls := layers.findSome? maxToolCalls
    timeoutSeconds := layers.findSome? timeoutSeconds
    maxIterations := layers.findSome? maxIterations
    allowedTools := layers.findSome? allowedTools
    maxRunning := layers.findSome? maxRunning
    shutdownSeconds := layers.findSome? shutdownSeconds } := by
  induction layers with
  | nil => rfl
  | cons l layers ih =>
    show l.above (merged layers) = _
    rw [ih]
    simp only [above, findSome?_above]

/-- A way to put layers one above the other. -/
inductive Grouping where
  | nothing
  | layer (l : Layer)
  | above (first second : Grouping)

namespace Grouping

def merge : Grouping → Layer
  | nothing => .empty
  | layer l => l
  | above first second => first.merge.above second.merge

/-- The layers, first to last. -/
def layers : Grouping → List Layer
  | nothing => []
  | layer l => [l]
  | above first second => first.layers ++ second.layers

/-- Layers can be grouped as one likes. -/
theorem merge_eq (g : Grouping) : g.merge = merged g.layers := by
  induction g with
  | nothing => rfl
  | layer l => exact (above_empty l).symm
  | above first second ih₁ ih₂ => rw [merge, layers, merged_append, ih₁, ih₂]

end Grouping

/-! ## Settling -/

/-- The limits that layers amount to are valid. -/
structure Valid (layers : List Layer) : Prop where
  tokens : 0 ≤ (layers.findSome? maxTokens).getD 0
  toolCalls : 0 ≤ (layers.findSome? maxToolCalls).getD 0
  time : 0 < (layers.findSome? timeoutSeconds).getD 300
  iterations : 0 < (layers.findSome? maxIterations).getD 50

/-- Each setting as the first layer has it that holds it, or its default. -/
def settled (layers : List Layer) : Settings where
  model := (layers.findSome? model).getD "llama3.2"
  workspace := (layers.findSome? workspace).getD "./workspace"
  ollamaUrl := (layers.findSome? ollamaUrl).getD "http://localhost:11434"
  maxTokens := (layers.findSome? maxTokens).getD 0
  maxToolCalls := (layers.findSome? maxToolCalls).getD 0
  timeoutSeconds := ((layers.findSome? timeoutSeconds).getD 300).toNat
  maxIterations := (layers.findSome? maxIterations).getD 50
  allowedTools := layers.findSome? allowedTools
  maxRunning := (layers.findSome? maxRunning).getD 0
  shutdownSeconds := (layers.findSome? shutdownSeconds).getD 30

/-- Layers are settled if their limits are valid, each setting by itself. -/
theorem settle_merged (layers : List Layer) :
    (merged layers).settle = .ok s ↔ Valid layers ∧ s = settled layers := by
  rw [merged_eq]
  unfold settle
  dsimp only
  constructor
  · intro h
    split at h
    · cases h
    split at h
    · cases h
    split at h
    · cases h
    split at h
    · cases h
    rename_i tokens toolCalls time iterations
    cases h
    exact ⟨⟨Int.not_lt.mp tokens, Int.not_lt.mp toolCalls, Int.not_le.mp time, Nat.pos_of_ne_zero iterations⟩, rfl⟩
  · rintro ⟨valid, rfl⟩
    have iterations : ¬(layers.findSome? maxIterations).getD defaultMaxIterations = 0 :=
      Nat.ne_of_gt valid.iterations
    rw [if_neg (Int.not_lt.mpr valid.tokens), if_neg (Int.not_lt.mpr valid.toolCalls),
      if_neg (Int.not_le.mpr valid.time), if_neg iterations]
    rfl

/-- A limit that is invalid is not passed over for a valid one below it. -/
example : (merged [{ maxTokens := some (-1) }, { maxTokens := some 5 }]).settle = .error (.negativeTokens (-1)) :=
  rfl

end Layer

/-! ## Commands -/

/-- The model that a command names. -/
def Command.model? : Command → Option String
  | .run o => o.model
  | .tools _ => none

def Command.maxTokens? : Command → Option Int
  | .run o => o.maxTokens
  | .tools _ => none

def Command.maxToolCalls? : Command → Option Int
  | .run o => o.maxToolCalls
  | .tools _ => none

def Command.timeout? : Command → Option Int
  | .run o => o.timeout
  | .tools _ => none

/-- The list of tools that a command gives: the empty one if it is to do without. -/
def Command.tools? : Command → Option (List String)
  | .run o => if o.noTools then some [] else o.tools
  | .tools _ => none

namespace Config

theorem ofCommand_eq (command : Command) : Layer.ofCommand command = {
    model := command.model?
    workspace := command.workspace?
    maxTokens := command.maxTokens?
    maxToolCalls := command.maxToolCalls?
    timeoutSeconds := command.timeout?
    allowedTools := command.tools? } := by
  cases command <;> rfl

theorem load_eq (fs : FileSystem) (env : Environment) (command : Command) :
    load fs env command =
      (Layer.merged [.ofCommand command, layerAt fs (ownFile command (base fs env command)),
        base fs env command]).settle := by
  simp only [load, Layer.merged, List.foldr_cons, List.foldr_nil, Layer.above_empty, Layer.above_assoc]

/-- The limits of a command are valid, each taken from its option, or else from the file of the workspace, or else
from the base file, or else by default. -/
structure LimitsValid (command : Command) (own base : Layer) : Prop where
  tokens : 0 ≤ (command.maxTokens?.or (own.maxTokens.or base.maxTokens)).getD 0
  toolCalls : 0 ≤ (command.maxToolCalls?.or (own.maxToolCalls.or base.maxToolCalls)).getD 0
  time : 0 < (command.timeout?.or (own.timeoutSeconds.or base.timeoutSeconds)).getD 300
  iterations : 0 < (own.maxIterations.or base.maxIterations).getD 50

/-- The settings of a command, each taken from its option if there is one, or else from the file of the workspace, or
else from the base file, or else by default. -/
def chosen (command : Command) (own base : Layer) : Settings where
  model := (command.model?.or (own.model.or base.model)).getD "llama3.2"
  workspace := (command.workspace?.or (own.workspace.or base.workspace)).getD "./workspace"
  ollamaUrl := (own.ollamaUrl.or base.ollamaUrl).getD "http://localhost:11434"
  maxTokens := (command.maxTokens?.or (own.maxTokens.or base.maxTokens)).getD 0
  maxToolCalls := (command.maxToolCalls?.or (own.maxToolCalls.or base.maxToolCalls)).getD 0
  timeoutSeconds := ((command.timeout?.or (own.timeoutSeconds.or base.timeoutSeconds)).getD 300).toNat
  maxIterations := (own.maxIterations.or base.maxIterations).getD 50
  allowedTools := command.tools?.or (own.allowedTools.or base.allowedTools)
  maxRunning := (own.maxRunning.or base.maxRunning).getD 0
  shutdownSeconds := (own.shutdownSeconds.or base.shutdownSeconds).getD 30

theorem findSome?_three {α : Type} (field : Layer → Option α) (a b c : Layer) :
    [a, b, c].findSome? field = (field a).or ((field b).or (field c)) := by
  rw [Layer.findSome?_above, Layer.findSome?_above, List.findSome?_singleton]
  simp only [Option.orElse_eq_orElse, Option.orElse_eq_or]

variable {command : Command} {own base : Layer}

theorem limitsValid_iff : Layer.Valid [.ofCommand command, own, base] ↔ LimitsValid command own base := by
  rw [ofCommand_eq]
  constructor
  · rintro ⟨tokens, toolCalls, time, iterations⟩
    simp only [findSome?_three, Option.none_or] at tokens toolCalls time iterations
    exact ⟨tokens, toolCalls, time, iterations⟩
  · intro h
    constructor <;> simp only [findSome?_three, Option.none_or]
    · exact h.tokens
    · exact h.toolCalls
    · exact h.time
    · exact h.iterations

theorem settled_eq_chosen : Layer.settled [.ofCommand command, own, base] = chosen command own base := by
  simp only [Layer.settled, chosen, findSome?_three, ofCommand_eq, Option.none_or]

/-- Exactly one layer is made of the file in the workspace, and one of the base file, and the settings for a command
are loaded if the limits are valid that these two and its options amount to. -/
theorem load_consulted (fs : FileSystem) (env : Environment) (command : Command) :
    ∃ own base, (∀ own' base', Consults fs env command own' base' ↔ own' = own ∧ base' = base) ∧
      ∀ s, load fs env command = .ok s ↔ LimitsValid command own base ∧ s = chosen command own base := by
  refine ⟨layerAt fs (ownFile command (base fs env command)), base fs env command, fun own' base' => ?_,
    fun s => ?_⟩
  · rw [consults_iff]
    constructor
    · rintro ⟨rfl, rfl⟩
      exact ⟨rfl, rfl⟩
    · rintro ⟨rfl, rfl⟩
      exact ⟨rfl, rfl⟩
  · rw [load_eq, Layer.settle_merged, limitsValid_iff, settled_eq_chosen]

/-- The settings for a command are loaded just if the limits are valid that its options amount to with what the two
files set that count for it, the one in the workspace and the base file. Then each setting is as the option has it,
or else as the file in the workspace has it, or else as the base file has it, or else it has its default. Putting
layers one above the other is associative, a layer that holds nothing makes no difference, and so layers can be
grouped as one likes. -/
theorem load_layered (fs : FileSystem) (env : Environment) (command : Command) :
    (∃ own base, (∀ own' base', Consults fs env command own' base' ↔ own' = own ∧ base' = base) ∧
      ∀ s, load fs env command = .ok s ↔ LimitsValid command own base ∧ s = chosen command own base) ∧
    (∀ a b c : Layer, (a.above b).above c = a.above (b.above c)) ∧
    (∀ l : Layer, Layer.empty.above l = l ∧ l.above .empty = l) ∧
    ∀ g : Layer.Grouping, g.merge = Layer.merged g.layers :=
  ⟨load_consulted fs env command, Layer.above_assoc, fun l => ⟨Layer.empty_above l, Layer.above_empty l⟩,
    Layer.Grouping.merge_eq⟩

/-! ## A command with two files -/

def lowText : String :=
  "[general]\nmodel = \"low\"\nworkspace = \"space\"\n[limits]\nmax_tokens = 7\nmax_tool_calls = 3\n"

def spaceText : String := "[limits]\nmax_tokens = 5\nallowed_tools = [\"list_dir\"]\n"

/-- A base file, and the workspace that it names with a file of its own. -/
def twoFiles : FileSystem where
  objects := [
    ([Path.ofString "base.toml"], .file lowText.toUTF8),
    ([Path.ofString "space"], .dir),
    ([Path.ofString "space", Path.ofString "delegate.toml"], .file spaceText.toUTF8)]

def twoFilesRun : Command :=
  .run { skill := "x", task := "y", model := some "high", config := some "base.toml" }

def lowLayer : Layer where
  model := some "low"
  workspace := some "space"
  maxTokens := some 7
  maxToolCalls := some 3

def spaceLayer : Layer where
  maxTokens := some 5
  allowedTools := some ["list_dir"]

theorem consults_twoFiles : Consults twoFiles {} twoFilesRun spaceLayer lowLayer where
  baseSets := by
    have hfile : Layer.ofToml? lowText = some lowLayer := by decide +kernel
    have hfound : twoFiles.canonicalize (Path.ofString "base.toml") = .ok [Path.ofString "base.toml"] := by cbv
    obtain ⟨root, parsed, values⟩ := Layer.ofToml?_eq_some_iff.mp hfile
    exact .named rfl (.something hfound rfl parsed values)
  ownSets := by
    have hfile : Layer.ofToml? spaceText = some spaceLayer := by decide +kernel
    have hfound : twoFiles.canonicalize ((Path.ofString "space").join (Path.ofString "delegate.toml")) =
        .ok [Path.ofString "space", Path.ofString "delegate.toml"] := by cbv
    obtain ⟨root, parsed, values⟩ := Layer.ofToml?_eq_some_iff.mp hfile
    exact .something hfound rfl parsed values

/-- The model is as the option has it, the limit on tokens and the tools as the file in the workspace, the workspace
and the limit on calls as the base file, and for the time there is the default. -/
theorem load_layered_twoFiles : ∃ s, load twoFiles {} twoFilesRun = .ok s ∧ s.model = "high" ∧
    s.workspace = "space" ∧ s.maxTokens = 5 ∧ s.maxToolCalls = 3 ∧ s.timeoutSeconds = 300 ∧
    s.allowedTools = some ["list_dir"] := by
  obtain ⟨⟨own, base, hconsults, hload⟩, -⟩ := load_layered twoFiles {} twoFilesRun
  obtain ⟨rfl, rfl⟩ := (hconsults _ _).mp consults_twoFiles
  exact ⟨_, (hload _).mpr ⟨⟨by decide, by decide, by decide, by decide⟩, rfl⟩, rfl, rfl, rfl, rfl, rfl, rfl⟩

end Config

end Overseer

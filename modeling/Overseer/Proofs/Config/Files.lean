import Mathlib
import Overseer.Config.Load
import Overseer.Proofs.FileSystem.Content

/-!
# What configuration files set

Which settings a file makes is said here by its values alone: where in the file a setting stands, and what it may
be there. A file sets something only if all that it says about settings is of this form; otherwise it counts as one
that sets nothing, like a file that is missing or holds no text.

* `Layer.ReadFrom`: what the values of a file set, and `ofToml?_eq_some_iff`: that this is read.
* `Config.Sets`: what the file at a path sets, and `sets_iff`: that this is the layer made of it.
* `Config.Consults`: which files count for a command, and `consults_iff`: that these are looked up.
-/
namespace Overseer

namespace Layer

variable {α : Type} {root : List (String × Toml.Value)} {v : Toml.Value} {sec : Option Section}

/-! ## Values -/

def IsText (v : Toml.Value) (s : String) : Prop := v = .string s

/-- A whole number that a signed word of 64 bits holds. -/
def IsSigned (v : Toml.Value) (n : Int) : Prop :=
  v = .integer n ∧ -0x8000000000000000 ≤ n ∧ n < 0x8000000000000000

/-- A whole number from zero on, below a limit. -/
def IsCount (limit : Nat) (v : Toml.Value) (n : Nat) : Prop := v = .integer n ∧ n < limit

/-- An array, or tables under one name. -/
def IsRow (v : Toml.Value) (items : List Toml.Value) : Prop := v = .array items ∨ v = .tables items

def AreTexts (v : Toml.Value) (ss : List String) : Prop := IsRow v (ss.map .string)

theorem text_eq_some_iff {s : String} : text v = some s ↔ IsText v s := by
  unfold text IsText
  split <;> simp_all

theorem signed_eq_some_iff {n : Int} : signed v = some n ↔ IsSigned v n := by
  unfold signed IsSigned
  split
  · rename_i m
    have hword : Word.isSigned64 m = true ↔ -0x8000000000000000 ≤ m ∧ m < 0x8000000000000000 := by
      unfold Word.isSigned64 Word.half64
      rw [decide_eq_true_iff]
      exact Iff.rfl
    rw [Option.ite_none_right_eq_some, hword]
    simp only [Option.some.injEq, Toml.Value.integer.injEq]
    omega
  · simp_all

theorem unsigned_eq_some_iff {limit n : Nat} : unsigned limit v = some n ↔ IsCount limit v n := by
  unfold unsigned IsCount
  split
  · rename_i m
    simp only [Option.ite_none_right_eq_some, Option.some.injEq, Toml.Value.integer.injEq]
    omega
  · simp_all

theorem items?_eq_some_iff {items : List Toml.Value} : v.items? = some items ↔ IsRow v items := by
  unfold Toml.Value.items? IsRow
  split <;> simp_all

theorem mapM_text_eq_some_iff {items : List Toml.Value} {ss : List String} :
    items.mapM text = some ss ↔ items = ss.map .string := by
  induction items generalizing ss with
  | nil => cases ss <;> simp
  | cons v items ih =>
    rw [List.mapM_cons]
    simp only [bind, Option.bind_eq_some_iff, text_eq_some_iff, ih, IsText]
    constructor
    · rintro ⟨s, rfl, ss, rfl, heq⟩
      cases heq
      rfl
    · intro h
      cases ss with
      | nil => cases h
      | cons s ss =>
        obtain ⟨rfl, rfl⟩ := List.cons.inj h
        exact ⟨s, rfl, ss, rfl, rfl⟩

theorem texts_eq_some_iff {ss : List String} : texts v = some ss ↔ AreTexts v ss := by
  unfold texts AreTexts
  simp only [bind, Option.bind_eq_some_iff, items?_eq_some_iff, mapM_text_eq_some_iff]
  exact exists_eq_right

/-! ## Sections -/

/-- What stands under the name of a section, if anything: a table, or a row of values. A date is a table without
keys of its own. -/
inductive Stands (root : List (String × Toml.Value)) (name : String) : Option Section → Prop where
  | absent (found : root.lookup name = none) : Stands root name none
  | table {origin : Toml.Origin} {entries : List (String × Toml.Value)}
      (found : root.lookup name = some (.table origin entries)) : Stands root name (some (.table entries))
  | date (found : root.lookup name = some .datetime) : Stands root name (some (.table []))
  | row {v : Toml.Value} {items : List Toml.Value} (found : root.lookup name = some v) (isRow : IsRow v items) :
      Stands root name (some (.row items))

theorem section?_eq_some_iff {name : String} : section? root name = some sec ↔ Stands root name sec := by
  unfold section?
  constructor
  · intro h
    split at h
    · cases h
      exact .absent ‹_›
    · cases h
      exact .table ‹_›
    · cases h
      exact .date ‹_›
    · rename_i found
      split at h
      · rename_i hitems
        cases h
        exact .row found (items?_eq_some_iff.mp hitems)
      · cases h
  · intro h
    cases h with
    | absent found => rw [found]
    | table found => rw [found]
    | date found => rw [found]
    | row found isRow =>
      rw [found]
      rcases isRow with rfl | rfl <;> rfl

/-- What a section gives for a setting of which values say what `reads` says: the value under its key in a table,
or the value at its place in a row, which has to reach that far. -/
inductive Gives (reads : Toml.Value → α → Prop) (key : String) (place : Nat) :
    Option Section → Option α → Prop where
  | noSection : Gives reads key place none none
  | noKey {entries : List (String × Toml.Value)} (absent : entries.lookup key = none) :
      Gives reads key place (some (.table entries)) none
  | entry {entries : List (String × Toml.Value)} {v : Toml.Value} {x : α} (found : entries.lookup key = some v)
      (value : reads v x) : Gives reads key place (some (.table entries)) (some x)
  | item {items : List Toml.Value} {v : Toml.Value} {x : α} (found : items[place]? = some v) (value : reads v x) :
      Gives reads key place (some (.row items)) (some x)

theorem setting_eq_some_iff {read : Toml.Value → Option α} {reads : Toml.Value → α → Prop} {key : String}
    {place : Nat} {x : Option α} (hread : ∀ {v y}, read v = some y ↔ reads v y) :
    setting read key place sec = some x ↔ Gives reads key place sec x := by
  have value {v : Toml.Value} : (read v).map some = some x ↔ ∃ y, reads v y ∧ some y = x := by
    simp only [Option.map_eq_some_iff, hread]
  unfold setting
  constructor
  · intro h
    split at h
    · cases h
      exact .noSection
    · split at h
      · cases h
        exact .noKey ‹_›
      · obtain ⟨y, hy, rfl⟩ := value.mp h
        exact .entry ‹_› hy
    · split at h
      · cases h
      · obtain ⟨y, hy, rfl⟩ := value.mp h
        exact .item ‹_› hy
  · intro h
    cases h with
    | noSection => rfl
    | noKey absent => simp only [absent]
    | entry found hy =>
      simp only [found]
      exact value.mpr ⟨_, hy, rfl⟩
    | item found hy =>
      simp only [found]
      exact value.mpr ⟨_, hy, rfl⟩

/-! ## Files -/

/-- The settings that three sections give. -/
structure GivenBy (general limits supervisor : Option Section) (l : Layer) : Prop where
  model : Gives IsText "model" 0 general l.model
  workspace : Gives IsText "workspace" 1 general l.workspace
  ollamaUrl : Gives IsText "ollama_url" 2 general l.ollamaUrl
  maxTokens : Gives IsSigned "max_tokens" 0 limits l.maxTokens
  maxToolCalls : Gives IsSigned "max_tool_calls" 1 limits l.maxToolCalls
  timeoutSeconds : Gives IsSigned "timeout_secs" 2 limits l.timeoutSeconds
  maxIterations : Gives (IsCount 0x100000000) "max_iterations" 3 limits l.maxIterations
  allowedTools : Gives AreTexts "allowed_tools" 4 limits l.allowedTools
  maxRunning : Gives (IsCount 0x10000000000000000) "max_running" 0 supervisor l.maxRunning
  shutdownSeconds : Gives (IsCount 0x10000000000000000) "shutdown_timeout_secs" 1 supervisor l.shutdownSeconds

/-- What the values of a file set. -/
def ReadFrom (root : List (String × Toml.Value)) (l : Layer) : Prop :=
  ∃ general limits supervisor, Stands root "general" general ∧ Stands root "limits" limits ∧
    Stands root "supervisor" supervisor ∧ GivenBy general limits supervisor l

/-- A file sets something just if it can be parsed, and then what its values set. -/
theorem ofToml?_eq_some_iff {file : String} {l : Layer} :
    ofToml? file = some l ↔ ∃ root, Toml.parse? file = some root ∧ ReadFrom root l := by
  constructor
  · intro h
    obtain ⟨root, hroot, h⟩ := Option.bind_eq_some_iff.mp h
    obtain ⟨general, hgeneral, h⟩ := Option.bind_eq_some_iff.mp h
    obtain ⟨limits, hlimits, h⟩ := Option.bind_eq_some_iff.mp h
    obtain ⟨supervisor, hsupervisor, h⟩ := Option.bind_eq_some_iff.mp h
    obtain ⟨_, model, h⟩ := Option.bind_eq_some_iff.mp h
    obtain ⟨_, workspace, h⟩ := Option.bind_eq_some_iff.mp h
    obtain ⟨_, ollamaUrl, h⟩ := Option.bind_eq_some_iff.mp h
    obtain ⟨_, maxTokens, h⟩ := Option.bind_eq_some_iff.mp h
    obtain ⟨_, maxToolCalls, h⟩ := Option.bind_eq_some_iff.mp h
    obtain ⟨_, timeoutSeconds, h⟩ := Option.bind_eq_some_iff.mp h
    obtain ⟨_, maxIterations, h⟩ := Option.bind_eq_some_iff.mp h
    obtain ⟨_, allowedTools, h⟩ := Option.bind_eq_some_iff.mp h
    obtain ⟨_, maxRunning, h⟩ := Option.bind_eq_some_iff.mp h
    obtain ⟨_, shutdownSeconds, ⟨⟩⟩ := Option.bind_eq_some_iff.mp h
    rw [section?_eq_some_iff] at hgeneral hlimits hsupervisor
    refine ⟨root, hroot, general, limits, supervisor, hgeneral, hlimits, hsupervisor, ?_⟩
    exact {
      model := (setting_eq_some_iff text_eq_some_iff).mp model
      workspace := (setting_eq_some_iff text_eq_some_iff).mp workspace
      ollamaUrl := (setting_eq_some_iff text_eq_some_iff).mp ollamaUrl
      maxTokens := (setting_eq_some_iff signed_eq_some_iff).mp maxTokens
      maxToolCalls := (setting_eq_some_iff signed_eq_some_iff).mp maxToolCalls
      timeoutSeconds := (setting_eq_some_iff signed_eq_some_iff).mp timeoutSeconds
      maxIterations := (setting_eq_some_iff unsigned_eq_some_iff).mp maxIterations
      allowedTools := (setting_eq_some_iff texts_eq_some_iff).mp allowedTools
      maxRunning := (setting_eq_some_iff unsigned_eq_some_iff).mp maxRunning
      shutdownSeconds := (setting_eq_some_iff unsigned_eq_some_iff).mp shutdownSeconds }
  · rintro ⟨root, hroot, general, limits, supervisor, hgeneral, hlimits, hsupervisor, h⟩
    have next {α β : Type} {x : Option α} {f : α → Option β} {a : α} {b : β} (hx : x = some a) (hf : f a = some b) :
        (x >>= f) = some b := Option.bind_eq_some_iff.mpr ⟨a, hx, hf⟩
    refine next hroot (next (section?_eq_some_iff.mpr hgeneral) ?_)
    refine next (section?_eq_some_iff.mpr hlimits) (next (section?_eq_some_iff.mpr hsupervisor) ?_)
    refine next ((setting_eq_some_iff text_eq_some_iff).mpr h.model) ?_
    refine next ((setting_eq_some_iff text_eq_some_iff).mpr h.workspace) ?_
    refine next ((setting_eq_some_iff text_eq_some_iff).mpr h.ollamaUrl) ?_
    refine next ((setting_eq_some_iff signed_eq_some_iff).mpr h.maxTokens) ?_
    refine next ((setting_eq_some_iff signed_eq_some_iff).mpr h.maxToolCalls) ?_
    refine next ((setting_eq_some_iff signed_eq_some_iff).mpr h.timeoutSeconds) ?_
    refine next ((setting_eq_some_iff unsigned_eq_some_iff).mpr h.maxIterations) ?_
    refine next ((setting_eq_some_iff texts_eq_some_iff).mpr h.allowedTools) ?_
    refine next ((setting_eq_some_iff unsigned_eq_some_iff).mpr h.maxRunning) ?_
    refine next ((setting_eq_some_iff unsigned_eq_some_iff).mpr h.shutdownSeconds) rfl

/-- One value of another kind, and the file sets nothing. -/
example : ofToml? "[general]\nmodel = \"m\"\n[limits]\nmax_tokens = \"5\"\n" = none := by decide +kernel

end Layer

/-! ## Commands -/

/-- The base file that a command names. -/
def Command.config? : Command → Option String
  | .run o => o.config
  | .tools _ => none

/-- The workspace that a command names. -/
def Command.workspace? : Command → Option String
  | .run o => o.workspace
  | .tools workspace => workspace

namespace Config

variable {fs : FileSystem} {env : Environment} {command : Command} {p : Path} {l own base : Layer}

/-- What the file at a path sets: it is there, it holds a text that can be parsed, and its values set something;
or nothing. -/
inductive Sets (fs : FileSystem) (p : Path) : Layer → Prop where
  | something {place : Location} {text : String} {root : List (String × Toml.Value)} {l : Layer}
      (found : fs.canonicalize p = .ok place) (file : fs.get? place = some (.file text.toUTF8))
      (parsed : Toml.parse? text = some root) (values : l.ReadFrom root) : Sets fs p l
  | nothing (malformed : ∀ place text root l, fs.canonicalize p = .ok place →
      fs.get? place = some (.file text.toUTF8) → Toml.parse? text = some root → ¬Layer.ReadFrom root l) :
      Sets fs p .empty

theorem readLayer?_eq_some_iff : readLayer? fs p = some l ↔
    ∃ place text root, fs.canonicalize p = .ok place ∧ fs.get? place = some (.file text.toUTF8) ∧
      Toml.parse? text = some root ∧ l.ReadFrom root := by
  unfold readLayer?
  constructor
  · intro h
    split at h
    · rename_i text hread
      obtain ⟨place, found, file⟩ := FileSystem.readText_eq_ok_iff.mp hread
      obtain ⟨root, parsed, values⟩ := Layer.ofToml?_eq_some_iff.mp h
      exact ⟨place, text, root, found, file, parsed, values⟩
    · cases h
  · rintro ⟨place, text, root, found, file, parsed, values⟩
    rw [FileSystem.readText_eq_ok_iff.mpr ⟨place, found, file⟩]
    exact Layer.ofToml?_eq_some_iff.mpr ⟨root, parsed, values⟩

theorem sets_iff : Sets fs p l ↔ l = layerAt fs p := by
  unfold layerAt
  constructor
  · intro h
    cases h with
    | something found file parsed values =>
      rw [readLayer?_eq_some_iff.mpr ⟨_, _, _, found, file, parsed, values⟩]
      rfl
    | nothing malformed =>
      cases hread : readLayer? fs p with
      | none => rfl
      | some l =>
        obtain ⟨place, text, root, found, file, parsed, values⟩ := readLayer?_eq_some_iff.mp hread
        exact absurd values (malformed place text root l found file parsed)
  · rintro rfl
    cases hread : readLayer? fs p with
    | some l =>
      obtain ⟨place, text, root, found, file, parsed, values⟩ := readLayer?_eq_some_iff.mp hread
      exact .something found file parsed values
    | none =>
      refine .nothing fun place text root l found file parsed values => ?_
      cases hread.symm.trans (readLayer?_eq_some_iff.mpr ⟨place, text, root, found, file, parsed, values⟩)

/-! ## Which files -/

/-- The user's own file: where the environment says that configurations are, if that is an absolute path, or else
in the home directory. -/
inductive UserFile (env : Environment) : Path → Prop where
  | configHome {dir : String} (given : env.configHome = some dir) (absolute : (Path.ofString dir).isAbsolute = true) :
      UserFile env (((Path.ofString dir).join (Path.ofString "delegate")).join (Path.ofString "delegate.toml"))
  | home {dir : String} (noConfigHome : ∀ d, env.configHome = some d → (Path.ofString d).isAbsolute = false)
      (given : env.home = some dir) (named : dir ≠ "") :
      UserFile env ((((Path.ofString dir).join (Path.ofString ".config")).join (Path.ofString "delegate")).join
        (Path.ofString "delegate.toml"))

theorem userFile?_eq_some_iff : userFile? env = some p ↔ UserFile env p := by
  unfold userFile?
  extract_lets inHome chosen
  have hhome {q : Path} : inHome = some q ↔
      ∃ dir, env.home = some dir ∧ dir ≠ "" ∧ (Path.ofString dir).join (Path.ofString ".config") = q := by
    simp only [inHome]
    cases env.home with
    | none => simp
    | some dir => simp [String.isEmpty_iff]
  rw [Option.map_eq_some_iff]
  constructor
  · rintro ⟨d, hd, rfl⟩
    simp only [chosen] at hd
    split at hd
    · rename_i dir given
      split at hd
      · rename_i absolute
        cases hd
        exact .configHome given absolute
      · rename_i absolute
        obtain ⟨home, found, named, rfl⟩ := hhome.mp hd
        refine .home (fun d hgiven => ?_) found named
        cases given.symm.trans hgiven
        exact Bool.eq_false_iff.mpr absolute
    · rename_i absent
      obtain ⟨home, found, named, rfl⟩ := hhome.mp hd
      exact .home (fun d hgiven => by cases absent.symm.trans hgiven) found named
  · intro h
    cases h with
    | configHome given absolute =>
      refine ⟨_, ?_, rfl⟩
      simp only [chosen, given]
      exact if_pos absolute
    | home noConfigHome given named =>
      refine ⟨_, ?_, rfl⟩
      simp only [chosen]
      split
      · rename_i d hgiven
        rw [if_neg (Bool.eq_false_iff.mp (noConfigHome d hgiven))]
        exact hhome.mpr ⟨_, given, named, rfl⟩
      · exact hhome.mpr ⟨_, given, named, rfl⟩

/-- What the base file sets: the one that the command names, or else the user's own, if there is one. -/
inductive BaseSets (fs : FileSystem) (env : Environment) (command : Command) : Layer → Prop where
  | named {file : String} {l : Layer} (named : command.config? = some file) (sets : Sets fs (Path.ofString file) l) :
      BaseSets fs env command l
  | user {p : Path} {l : Layer} (unnamed : command.config? = none) (user : UserFile env p) (sets : Sets fs p l) :
      BaseSets fs env command l
  | nothing (unnamed : command.config? = none) (noUser : ∀ p, ¬UserFile env p) : BaseSets fs env command .empty

theorem baseFile?_eq : baseFile? env command = (command.config?.map Path.ofString).or (userFile? env) := by
  cases command with
  | run o =>
    rw [baseFile?, Command.config?]
    cases o.config <;> rfl
  | tools workspace => rfl

theorem baseSets_iff : BaseSets fs env command l ↔ l = Config.base fs env command := by
  unfold Config.base
  rw [baseFile?_eq]
  constructor
  · intro h
    cases h with
    | named named sets =>
      rw [named]
      exact sets_iff.mp sets
    | user unnamed user sets =>
      rw [unnamed, userFile?_eq_some_iff.mpr user]
      exact sets_iff.mp sets
    | nothing unnamed noUser =>
      have habsent : userFile? env = none := Option.eq_none_iff_forall_ne_some.mpr fun p hp =>
        noUser p (userFile?_eq_some_iff.mp hp)
      rw [unnamed, habsent]
      rfl
  · rintro rfl
    cases hnamed : command.config? with
    | some file => exact .named hnamed (sets_iff.mpr rfl)
    | none =>
      cases huser : userFile? env with
      | some p => exact .user hnamed (userFile?_eq_some_iff.mp huser) (sets_iff.mpr rfl)
      | none =>
        refine .nothing hnamed fun p hp => ?_
        cases huser.symm.trans (userFile?_eq_some_iff.mpr hp)

/-- What the files set that count for a command: the one in the workspace that the command names, or else the base
file, or else by default, and the base file. -/
structure Consults (fs : FileSystem) (env : Environment) (command : Command) (own base : Layer) : Prop where
  baseSets : BaseSets fs env command base
  ownSets : Sets fs ((Path.ofString ((command.workspace?.or base.workspace).getD "./workspace")).join
    (Path.ofString "delegate.toml")) own

theorem consulted_eq (command : Command) (base : Layer) :
    consulted command base = (command.workspace?.or base.workspace).getD "./workspace" := by
  have hoption : (Layer.ofCommand command).workspace = command.workspace? := by cases command <;> rfl
  rw [consulted, hoption]
  cases command.workspace? <;> rfl

theorem consults_iff : Consults fs env command own base ↔
    base = Config.base fs env command ∧ own = layerAt fs (ownFile command base) := by
  have hown : ownFile command base = (Path.ofString ((command.workspace?.or base.workspace).getD "./workspace")).join
      (Path.ofString "delegate.toml") := by
    rw [ownFile, consulted_eq]
    rfl
  rw [hown, ← sets_iff, ← baseSets_iff]
  exact ⟨fun h => ⟨h.baseSets, h.ownSets⟩, fun ⟨hbase, hown⟩ => ⟨hbase, hown⟩⟩

end Config

end Overseer

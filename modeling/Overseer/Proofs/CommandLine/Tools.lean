import Mathlib.Data.List.Basic
import Overseer.Proofs.CommandLine.Arguments

/-!
# What a command line says about tools

The two options about tools have no letter. So of a command line that is accepted, `--no-tools` is given if it
stands there, and `--tools` is given the arguments that follow it and what stands behind it and an equals sign.

* `namedTools`: the tools that arguments name.
* `has_turns`, `values?_turns`: what all arguments are to a switch, and to an option that takes texts.
* `noTools_iff`, `tools_eq`: what `run` is told.
-/
namespace Overseer.CommandLine

/-! ## The tools that are named -/

/-- The texts between the commas of a value. -/
def pieces (value : String) : List String := (value.toList.splitOn ',').map String.ofList

/-- What stands in an argument behind an option and an equals sign. -/
def attached? (flag arg : String) : Option String :=
  (arg.toList.dropPrefix? (flag ++ "=").toList).map String.ofList

/-- The values that some arguments give to an option. `waits` says that the option stands right before them. -/
def valuesOf (flag : String) : (waits : Bool) → List String → List String
  | _, [] => []
  | true, value :: rest => value :: valuesOf flag false rest
  | false, arg :: rest =>
    if arg = flag then valuesOf flag true rest
    else (attached? flag arg).toList ++ valuesOf flag false rest

/-- The tools that a command line names, if it names any. -/
def namedTools (args : List String) : Option (List String) :=
  match valuesOf "--tools" false args with
  | [] => none
  | values => some (values.flatMap pieces)

example : namedTools ["run", "--tools", "a,b", "-s", "x", "--tools=c"] = some ["a", "b", "c"] := by decide +kernel

variable {opts : List Opt} {name flag arg value : String} {g g' : Given} {p p' : Progress} {o : Opt}
  {raw args : List String}

/-! ## A switch -/

section

variable (hn : Unlettered opts name .switch)
include hn

theorem has_flush (hp : p.Proper opts) (h : p.flush = .ok g) : g.has name = p.given.has name := by
  unfold Progress.flush at h
  split at h
  · cases h
    rfl
  · rename_i o raw hopen
    obtain ⟨mem, takes⟩ := hp o raw hopen
    have hne : o.name ≠ name := fun heq => by
      rw [hn.kind o mem heq] at takes
      cases takes
    exact congrArg Option.isSome (values?_enter_ne hne h)

theorem has_take_ne (hp : p.Proper opts) (hne : o.name ≠ name) (h : p.take o raw = .ok p') :
    p'.given.has name = p.given.has name := by
  obtain ⟨g, hflush, henter, -⟩ := take_inv h
  exact (congrArg Option.isSome (values?_enter_ne hne henter)).trans (has_flush hn hp hflush)

theorem has_passes (hp : p.Proper opts) (h : Passes opts name p p') : p'.given.has name = p.given.has name := by
  induction h with
  | take _ other h => exact has_take_ne hn hp other h
  | expect _ _ _ h => exact has_flush hn hp (expect_inv h).1
  | more _ other h _ ih =>
    obtain ⟨-, -, -, hopen⟩ := take_inv h
    exact (ih (.of_none hopen)).trans (has_take_ne hn hp other h)

/-- The switch is given by its name after two dashes. -/
theorem has_turn (hp : p.Proper opts) (h : Turn opts name p arg p') :
    p'.given.has name = true ↔ arg.toList = '-' :: '-' :: name.toList ∨ p.given.has name = true := by
  have switch {o : Opt} (mem : o ∈ opts) (named : o.name = name) : o.kind.takesValue ≠ true := by
    rw [hn.kind o mem named]
    decide
  cases h with
  | value o _ undashed eq =>
    subst eq
    exact (or_iff_right (undashed _)).symm
  | switch o _ named _ eq h =>
    obtain ⟨g, -, henter, -⟩ := take_inv h
    exact ⟨fun _ => Or.inl eq, fun _ => named ▸ has_enter henter⟩
  | option o mem named takes => exact absurd takes (switch mem named)
  | attached o _ mem named takes => exact absurd takes (switch mem named)
  | other passes unnamed =>
    rw [has_passes hn hp passes]
    exact (or_iff_right unnamed).symm

/-- The switch is given just if its name stands among the arguments after two dashes. -/
theorem has_turns (hp : p.Proper opts) (h : Turns opts name p args g) :
    g.has name = true ↔ (∃ arg ∈ args, arg.toList = '-' :: '-' :: name.toList) ∨ p.given.has name = true := by
  induction h with
  | done h =>
    rw [has_flush hn hp h]
    simp
  | dashes h =>
    rw [has_flush hn hp h]
    simp only [List.mem_singleton, exists_eq_left]
    exact (or_iff_right hn.dashes.1).symm
  | next turn _ ih =>
    rw [ih (turn.proper hp), has_turn hn hp turn]
    simp [or_assoc, or_left_comm]

end

/-! ## An option that takes texts -/

/-- Texts are added to those that were there. -/
theorem values?_enter_texts (hkind : o.kind = .texts) (h : enter g o raw = .ok g') :
    raw ≠ [] ∧ g'.values? o.name = some ((g.values? o.name).getD [] ++ raw.flatMap pieces) := by
  unfold enter at h
  rw [hkind] at h
  dsimp only at h
  split at h
  · cases h
  · rename_i hraw
    cases h
    refine ⟨hraw, ?_⟩
    rw [Given.values?, List.lookup_cons_self]
    rfl

/-- Values after those that were there, if any. -/
def added (old : Option (List String)) : List String → Option (List String)
  | [] => old
  | values => some (old.getD [] ++ values.flatMap pieces)

theorem added_append (old : Option (List String)) (a b : List String) : added (added old a) b = added old (a ++ b) := by
  cases a <;> cases b <;> simp [added]

/-- What has been said of an option, with what is at hand. -/
def Progress.listed (name : String) (p : Progress) : Option (List String) :=
  match p.open? with
  | some (o, raw) => added (p.given.values? name) (if o.name = name then raw else [])
  | none => p.given.values? name

/-- The option is at hand, and has no value yet. -/
def Progress.waits (name : String) (p : Progress) : Bool := p.awaiting?.any (·.name = name)

section

variable (hn : Unlettered opts name .texts)
include hn

theorem values?_enter (mem : o ∈ opts) (h : enter g o raw = .ok g') :
    g'.values? name = added (g.values? name) (if o.name = name then raw else []) := by
  by_cases hne : o.name = name
  · obtain ⟨hraw, hvalues⟩ := values?_enter_texts (hn.kind o mem hne) h
    rw [if_pos hne, ← hne, hvalues]
    cases raw with
    | nil => exact absurd rfl hraw
    | cons => rfl
  · rw [if_neg hne, values?_enter_ne hne h]
    rfl

theorem values?_flush (hp : p.Proper opts) (h : p.flush = .ok g) :
    p.waits name = false ∧ g.values? name = p.listed name := by
  unfold Progress.flush at h
  unfold Progress.waits Progress.listed Progress.awaiting?
  split at h
  · rename_i hopen
    cases h
    rw [hopen]
    exact ⟨rfl, rfl⟩
  · rename_i o raw hopen
    obtain ⟨mem, -⟩ := hp o raw hopen
    rw [hopen]
    refine ⟨?_, values?_enter hn mem h⟩
    cases raw with
    | cons => rfl
    | nil =>
      refine decide_eq_false fun heq => ?_
      exact (values?_enter_texts (hn.kind o mem heq) h).1 rfl

theorem values?_take (hp : p.Proper opts) (mem : o ∈ opts) (h : p.take o raw = .ok p') :
    p.waits name = false ∧ p'.waits name = false ∧
      p'.listed name = added (p.listed name) (if o.name = name then raw else []) := by
  obtain ⟨g, hflush, henter, hopen⟩ := take_inv h
  obtain ⟨hwaits, hlisted⟩ := values?_flush hn hp hflush
  refine ⟨hwaits, by rw [Progress.waits, Progress.awaiting?, hopen]; rfl, ?_⟩
  rw [← hlisted, ← values?_enter hn mem henter, Progress.listed, hopen]

theorem values?_expect (hp : p.Proper opts) (h : p.expect o = .ok p') :
    p.waits name = false ∧ p'.waits name = decide (o.name = name) ∧ p'.listed name = p.listed name := by
  obtain ⟨hflush, hopen⟩ := expect_inv h
  obtain ⟨hwaits, hlisted⟩ := values?_flush hn hp hflush
  refine ⟨hwaits, by rw [Progress.waits, Progress.awaiting?, hopen]; rfl, ?_⟩
  rw [← hlisted, Progress.listed, hopen]
  dsimp only
  rw [ite_self]
  rfl

theorem values?_passes (hp : p.Proper opts) (h : Passes opts name p p') :
    p.waits name = false ∧ p'.waits name = false ∧ p'.listed name = p.listed name := by
  induction h with
  | take mem other h =>
    have htake := values?_take hn hp mem h
    rwa [if_neg other] at htake
  | expect _ _ other h =>
    have hexpect := values?_expect hn hp h
    rwa [decide_eq_false other] at hexpect
  | more mem other h _ ih =>
    obtain ⟨hwaits, -, hlisted⟩ := values?_take hn hp mem h
    obtain ⟨-, -, -, hopen⟩ := take_inv h
    obtain ⟨-, hwaits', hlisted'⟩ := ih (.of_none hopen)
    rw [if_neg other] at hlisted
    exact ⟨hwaits, hwaits', hlisted'.trans hlisted⟩

end

theorem attached?_eq_some_iff : attached? flag arg = some value ↔ arg = flag ++ "=" ++ value := by
  unfold attached?
  simp only [Option.map_eq_some_iff, List.dropPrefix?_eq_some_iff, beq_iff_eq, exists_eq_right]
  constructor
  · rintro ⟨cs, h, rfl⟩
    rw [← String.toList_inj, String.toList_append, String.toList_ofList]
    simpa using h
  · rintro rfl
    exact ⟨value.toList, String.toList_append, String.ofList_toList⟩

theorem eq_flag_iff : arg = "--" ++ name ↔ arg.toList = '-' :: '-' :: name.toList := by
  rw [← String.toList_inj, String.toList_append]
  rfl

theorem attached?_flag : attached? ("--" ++ name) arg = some value ↔
    arg.toList = '-' :: '-' :: name.toList ++ '=' :: value.toList := by
  rw [attached?_eq_some_iff, ← String.toList_inj]
  simp [String.toList_append]

/-- An argument that is neither the option nor has a value of it. -/
theorem valuesOf_other (unnamed : arg.toList ≠ '-' :: '-' :: name.toList)
    (unattached : ∀ value, arg.toList ≠ '-' :: '-' :: name.toList ++ '=' :: value) (rest : List String) :
    valuesOf ("--" ++ name) false (arg :: rest) = valuesOf ("--" ++ name) false rest := by
  have hnone : attached? ("--" ++ name) arg = none := Option.eq_none_iff_forall_ne_some.mpr fun value h =>
    unattached _ (attached?_flag.mp h)
  rw [valuesOf, if_neg (fun h => unnamed (eq_flag_iff.mp h)), hnone]
  rfl

section

variable (hn : Unlettered opts name .texts)
include hn

/-- What has been said of the option and what is to come say the same, one argument later. -/
theorem values?_turn (hp : p.Proper opts) (h : Turn opts name p arg p') (rest : List String) :
    added (p'.listed name) (valuesOf ("--" ++ name) (p'.waits name) rest) =
      added (p.listed name) (valuesOf ("--" ++ name) (p.waits name) (arg :: rest)) := by
  cases h with
  | value o awaits undashed eq =>
    subst eq
    have hopen := open?_of_awaiting? awaits
    have hlisted : p.listed name = p.given.values? name := by
      rw [Progress.listed, hopen]
      dsimp only
      rw [ite_self]
      rfl
    have hwaits : p.waits name = decide (o.name = name) := by
      rw [Progress.waits, awaits]
      rfl
    rw [hlisted, hwaits]
    show added (added (p.given.values? name) (if o.name = name then [arg] else [])) (valuesOf _ false rest) =
      added (p.given.values? name) (valuesOf _ (decide (o.name = name)) (arg :: rest))
    by_cases hname : o.name = name
    · rw [if_pos hname, decide_eq_true hname, added_append]
      rfl
    · rw [if_neg hname, decide_eq_false hname, valuesOf_other (undashed _) fun _ => undashed _]
      rfl
  | switch o mem named takes =>
    rw [hn.kind o mem named] at takes
    cases takes
  | option o _ named _ eq h =>
    obtain ⟨hwaits, hwaits', hlisted⟩ := values?_expect hn hp h
    rw [hwaits, hwaits', hlisted, decide_eq_true named, valuesOf, if_pos (eq_flag_iff.mpr eq)]
  | attached o value mem named _ eq h =>
    obtain ⟨hwaits, hwaits', hlisted⟩ := values?_take hn hp mem h
    have hattached : attached? ("--" ++ name) arg = some (String.ofList value) :=
      attached?_flag.mpr (eq.trans (by rw [String.toList_ofList]))
    have hne : arg ≠ "--" ++ name := fun hflag => by
      have := congrArg List.length (eq.symm.trans (eq_flag_iff.mp hflag))
      simp at this
    rw [hwaits, hwaits', hlisted, if_pos named, added_append, valuesOf, if_neg hne, hattached]
    rfl
  | other passes unnamed unattached =>
    obtain ⟨hwaits, hwaits', hlisted⟩ := values?_passes hn hp passes
    rw [hwaits, hwaits', hlisted, valuesOf_other unnamed unattached]

/-- The option has the values that the arguments give to it. -/
theorem values?_turns (hp : p.Proper opts) (h : Turns opts name p args g) :
    g.values? name = added (p.listed name) (valuesOf ("--" ++ name) (p.waits name) args) := by
  induction h with
  | done h =>
    rw [(values?_flush hn hp h).2]
    rfl
  | dashes h =>
    obtain ⟨hwaits, hvalues⟩ := values?_flush hn hp h
    rw [hwaits, hvalues, valuesOf_other hn.dashes.1 hn.dashes.2]
    rfl
  | next turn _ ih => rw [ih (turn.proper hp), values?_turn hn hp turn]

end

/-! ## The command `run` -/

theorem unlettered_noTools : Unlettered runOpts "no-tools" .switch where
  kind := by decide
  noLetter := by decide
  plain := by decide
  named := by decide

theorem unlettered_tools : Unlettered runOpts "tools" .texts where
  kind := by decide
  noLetter := by decide
  plain := by decide
  named := by decide

/-- What `run` is told of tools are the two options. -/
theorem readRun_inv {o : RunOptions} (h : readRun args = .ok (.run o)) :
    ∃ given, readOptions runOpts ⟨[], none⟩ args = .ok given ∧ o.tools = given.values? "tools" ∧
      o.noTools = given.has "no-tools" := by
  obtain ⟨given, hgiven, h⟩ := bind_eq_ok h
  split at h
  · cases h
  split at h
  · cases h
    exact ⟨given, hgiven, rfl, rfl⟩
  · cases h

/-- A command line asks for a run by its first argument. -/
theorem parse_run {o : RunOptions} (h : parse args = .ok (.run o)) :
    ∃ rest, args = "run" :: rest ∧ readRun rest = .ok (.run o) := by
  unfold parse at h
  split at h
  · cases h
  split at h
  · rename_i arg rest hrun
    exact ⟨rest, by rw [hrun], h⟩
  split at h
  · obtain ⟨given, -, h⟩ := bind_eq_ok h
    cases h
  split at h
  · unfold readHelp at h
    split at h
    · cases h
    · split at h <;> cases h
    · cases h
  split at h
  · split at h
    · cases h
    · split at h <;> cases h
  split at h
  · obtain ⟨-, -, h⟩ := bind_eq_ok h
    cases h
  · cases h

/-- A run does without tools just if its command line says `--no-tools`. -/
theorem noTools_iff {o : RunOptions} (h : parse args = .ok (.run o)) : o.noTools = true ↔ "--no-tools" ∈ args := by
  obtain ⟨rest, rfl, h⟩ := parse_run h
  obtain ⟨given, hgiven, -, hnoTools⟩ := readRun_inv h
  have hhas := has_turns unlettered_noTools (.of_none rfl) (readOptions_turns unlettered_noTools hgiven)
  rw [hnoTools, hhas, or_iff_left (by decide), List.mem_cons, or_iff_right (by decide)]
  constructor
  · rintro ⟨arg, harg, heq⟩
    obtain rfl : arg = "--no-tools" := String.toList_inj.mp heq
    exact harg
  · exact fun harg => ⟨_, harg, rfl⟩

/-- A run has the list of tools that its command line names. -/
theorem tools_eq {o : RunOptions} (h : parse args = .ok (.run o)) : o.tools = namedTools args := by
  obtain ⟨rest, rfl, h⟩ := parse_run h
  obtain ⟨given, hgiven, htools, -⟩ := readRun_inv h
  have hvalues : given.values? "tools" = added none (valuesOf "--tools" false rest) :=
    values?_turns unlettered_tools (.of_none rfl) (readOptions_turns unlettered_tools hgiven)
  have hrest : valuesOf "--tools" false ("run" :: rest) = valuesOf "--tools" false rest :=
    @valuesOf_other "tools" "run" (by decide) (fun value heq => by simp at heq) rest
  rw [htools, hvalues, namedTools, hrest]
  cases valuesOf "--tools" false rest <;> rfl

end Overseer.CommandLine

import Mathlib.Data.List.TakeWhile
import Overseer.CommandLine.Command

/-!
# Arguments of a command line

An argument that begins with two dashes is always an option, so no other option takes it for its value. An option
without a letter is therefore given where its name stands after two dashes, alone or before an equals sign, and
nowhere else.

* `Turn`, `argument_turn`: what one argument is to an option without a letter.
* `Turns`, `readOptions_turns`: what all arguments are to it.
* `take_inv`, `expect_inv`, `enter_inv`: when an option is entered, and where.
* `Turn.proper`: the option at hand takes a value.
-/
namespace Overseer.CommandLine

variable {opts : List Opt} {name arg : String} {g g' : Given} {p p' : Progress} {o : Opt} {raw : List String}
  {kind : Kind}

/-! ## One argument -/

/-- Options of some name are of one kind and have no letter. -/
structure Unlettered (opts : List Opt) (name : String) (kind : Kind) : Prop where
  kind : ∀ o ∈ opts, o.name = name → o.kind = kind
  noLetter : ∀ o ∈ opts, o.name = name → o.short = none
  plain : '=' ∉ name.toList
  named : name ≠ ""

/-- Options with other names are taken, one or more. -/
inductive Passes (opts : List Opt) (name : String) : Progress → Progress → Prop where
  | take {o : Opt} {raw : List String} {p p' : Progress} (mem : o ∈ opts) (other : o.name ≠ name)
      (h : p.take o raw = .ok p') : Passes opts name p p'
  | expect {o : Opt} {p p' : Progress} (mem : o ∈ opts) (takes : o.kind.takesValue = true) (other : o.name ≠ name)
      (h : p.expect o = .ok p') : Passes opts name p p'
  | more {o : Opt} {p p₁ p' : Progress} (mem : o ∈ opts) (other : o.name ≠ name) (h : p.take o [] = .ok p₁)
      (rest : Passes opts name p₁ p') : Passes opts name p p'

/-- What an argument is to the option of some name that has no letter. -/
inductive Turn (opts : List Opt) (name : String) (p : Progress) (arg : String) (p' : Progress) : Prop where
  /-- It is the value of the option before it. -/
  | value (o : Opt) (awaits : p.awaiting? = some o) (undashed : ∀ body, arg.toList ≠ '-' :: '-' :: body)
      (eq : p' = { p with open? := some (o, [arg]) })
  | switch (o : Opt) (mem : o ∈ opts) (named : o.name = name) (takes : o.kind.takesValue = false)
      (eq : arg.toList = '-' :: '-' :: name.toList) (h : p.take o [] = .ok p')
  /-- It is the option, and its value is still to come. -/
  | option (o : Opt) (mem : o ∈ opts) (named : o.name = name) (takes : o.kind.takesValue = true)
      (eq : arg.toList = '-' :: '-' :: name.toList) (h : p.expect o = .ok p')
  | attached (o : Opt) (value : List Char) (mem : o ∈ opts) (named : o.name = name)
      (takes : o.kind.takesValue = true) (eq : arg.toList = '-' :: '-' :: name.toList ++ '=' :: value)
      (h : p.take o [String.ofList value] = .ok p')
  | other (passes : Passes opts name p p') (unnamed : arg.toList ≠ '-' :: '-' :: name.toList)
      (unattached : ∀ value, arg.toList ≠ '-' :: '-' :: name.toList ++ '=' :: value)

theorem takeWhile_name {cs : List Char} (h : '=' ∉ cs) (value : List Char) :
    cs.takeWhile (· ≠ '=') = cs ∧ (cs ++ '=' :: value).takeWhile (· ≠ '=') = cs := by
  have hall : ∀ c ∈ cs, decide (c ≠ '=') = true := fun c hc => by
    have hne : c ≠ '=' := by rintro rfl; exact h hc
    simpa using hne
  refine ⟨List.takeWhile_eq_self_iff.mpr hall, ?_⟩
  rw [List.takeWhile_append_of_pos hall]
  simp

/-- What stands before an equals sign is all, or the equals sign comes next. -/
theorem drop_name (body : List Char) :
    (body.drop (body.takeWhile (· ≠ '=')).length = [] ∧ body.takeWhile (· ≠ '=') = body) ∨
      ∃ value, body.drop (body.takeWhile (· ≠ '=')).length = '=' :: value ∧
        body = body.takeWhile (· ≠ '=') ++ '=' :: value := by
  induction body with
  | nil => exact Or.inl ⟨rfl, rfl⟩
  | cons c body ih =>
    by_cases hc : c = '='
    · subst hc
      exact Or.inr ⟨body, rfl, rfl⟩
    · rw [List.takeWhile_cons_of_pos (by simpa using hc), List.length_cons, List.drop_succ_cons]
      rcases ih with ⟨hdrop, htake⟩ | ⟨value, hdrop, hbody⟩
      · exact Or.inl ⟨hdrop, congrArg _ htake⟩
      · exact Or.inr ⟨value, hdrop, congrArg (c :: ·) hbody⟩

theorem bind_eq_ok {α β : Type} {x : Except UsageError α} {f : α → Except UsageError β} {b : β}
    (h : x >>= f = .ok b) : ∃ a, x = .ok a ∧ f a = .ok b := by
  cases x with
  | error e => cases h
  | ok a => exact ⟨a, rfl, h⟩

/-- An option that is found by its letter is not one without. -/
theorem lettered_ne (noLetter : ∀ o ∈ opts, o.name = name → o.short = none) {c : Char}
    (hfind : opts.find? (fun o => o.short = some c) = some o) : o.name ≠ name := fun heq => by
  have hletter : o.short = some c := by simpa using List.find?_some hfind
  rw [noLetter o (List.mem_of_find?_eq_some hfind) heq] at hletter
  cases hletter

theorem long_turn (plain : '=' ∉ name.toList) {body : List Char} (harg : arg.toList = '-' :: '-' :: body)
    (h : p.long opts body = .ok p') : Turn opts name p arg p' := by
  unfold Progress.long at h
  dsimp only at h
  split at h
  · cases h
  rename_i o hfind
  have hmem := List.mem_of_find?_eq_some hfind
  have hname : o.name.toList = body.takeWhile (· ≠ '=') := by simpa using List.find?_some hfind
  have other (hne : o.name ≠ name) (hpass : Passes opts name p p') : Turn opts name p arg p' := by
    refine .other hpass (fun heq => hne ?_) (fun value heq => hne ?_)
    · cases harg.symm.trans heq
      exact String.toList_inj.mp (hname.trans (takeWhile_name plain []).1)
    · cases harg.symm.trans heq
      exact String.toList_inj.mp (hname.trans (takeWhile_name plain value).2)
  by_cases hne : o.name = name
  · rw [← hne, hname] at plain
    rcases drop_name body with ⟨hdrop, hbody⟩ | ⟨value, hdrop, hbody⟩
    · rw [hdrop] at h
      rw [← hbody, ← hname, hne] at harg
      split at h
      · exact .option o hmem hne ‹_› harg h
      · cases ‹[] = _ :: _›
      · exact .switch o hmem hne ‹_› harg h
      · cases h
    · rw [hdrop] at h
      rw [hbody, ← hname, hne] at harg
      split at h
      · cases ‹_ :: _ = []›
      · rename_i heq
        cases heq
        exact .attached o value hmem hne ‹_› harg h
      · cases ‹_ :: _ = []›
      · cases h
  · split at h
    · exact other hne (.expect hmem ‹_› hne h)
    · exact other hne (.take hmem hne h)
    · exact other hne (.take hmem hne h)
    · cases h

theorem shorts_passes (noLetter : ∀ o ∈ opts, o.name = name → o.short = none) {c : Char} {cs : List Char}
    (h : Progress.shorts opts p (c :: cs) = .ok p') : Passes opts name p p' := by
  induction cs generalizing p c with
  | nil =>
    rw [Progress.shorts] at h
    split at h
    · cases h
    rename_i o hfind
    have hmem := List.mem_of_find?_eq_some hfind
    have hne := lettered_ne noLetter hfind
    split at h
    · exact .expect hmem ‹_› hne h
    · obtain ⟨p₁, htake, h⟩ := bind_eq_ok h
      cases h
      exact .take hmem hne htake
  | cons d cs ih =>
    rw [Progress.shorts] at h
    split at h
    · cases h
    rename_i o hfind
    have hmem := List.mem_of_find?_eq_some hfind
    have hne := lettered_ne noLetter hfind
    split at h
    · split at h
      · cases ‹_ :: _ = []›
      · exact .take hmem hne h
      · exact .take hmem hne h
    · obtain ⟨p₁, htake, h⟩ := bind_eq_ok h
      exact .more hmem hne htake (ih h)

theorem argument_turn (hn : Unlettered opts name kind) (h : p.argument opts arg = .ok p') :
    Turn opts name p arg p' := by
  -- an argument that is the value of the option at hand
  have asValue {o : Opt} (awaits : p.awaiting? = some o) (undashed : ∀ body, arg.toList ≠ '-' :: '-' :: body)
      (h : (.ok { p with open? := some (o, [arg]) } : Except UsageError Progress) = .ok p') :
      Turn opts name p arg p' := by
    cases h
    exact .value o awaits undashed rfl
  have asShorts {c : Char} {cs : List Char} (undashed : ∀ body, arg.toList ≠ '-' :: '-' :: body)
      (h : Progress.shorts opts p (c :: cs) = .ok p') : Turn opts name p arg p' :=
    .other (shorts_passes hn.noLetter h) (undashed _) fun _ => undashed _
  unfold Progress.argument at h
  dsimp only at h
  split at h
  · rename_i body harg
    exact long_turn hn.plain harg h
  · rename_i c body hdashes harg
    have undashed (b : List Char) : arg.toList ≠ '-' :: '-' :: b := fun heq => by
      cases harg.symm.trans heq
      exact hdashes rfl
    split at h
    · split at h
      · exact asValue ‹_› undashed h
      · exact asShorts undashed h
    · exact asShorts undashed h
  · rename_i hdashes _
    split at h
    · exact asValue ‹_› (fun body heq => hdashes body heq) h
    · cases h

/-! ## All arguments -/

/-- What arguments are to the option, one after the other. Two dashes alone may stand at their end. -/
inductive Turns (opts : List Opt) (name : String) : Progress → List String → Given → Prop where
  | done {p : Progress} {g : Given} (h : p.flush = .ok g) : Turns opts name p [] g
  | dashes {p : Progress} {g : Given} (h : p.flush = .ok g) : Turns opts name p ["--"] g
  | next {p p' : Progress} {g : Given} {arg : String} {args : List String} (turn : Turn opts name p arg p')
      (rest : Turns opts name p' args g) : Turns opts name p (arg :: args) g

theorem readOptions_turns (hn : Unlettered opts name kind) {args : List String}
    (h : readOptions opts p args = .ok g) : Turns opts name p args g := by
  induction args generalizing p with
  | nil => exact .done h
  | cons arg args ih =>
    unfold readOptions at h
    split at h
    · rename_i hdashes
      subst hdashes
      split at h
      · exact .dashes h
      · cases h
    · obtain ⟨p', harg, h⟩ := bind_eq_ok h
      exact .next (argument_turn hn harg) (ih h)

/-- Two dashes alone are not the option, nor do they have a value of it. -/
theorem Unlettered.dashes (hn : Unlettered opts name kind) :
    "--".toList ≠ '-' :: '-' :: name.toList ∧ ∀ value, "--".toList ≠ '-' :: '-' :: name.toList ++ '=' :: value := by
  have hname : name.toList ≠ [] := fun h => hn.named (String.toList_eq_nil_iff.mp h)
  refine ⟨fun h => hname (List.cons.inj (List.cons.inj h).2).2.symm, fun value h => ?_⟩
  exact hname (List.append_eq_nil_iff.mp (List.cons.inj (List.cons.inj h).2).2.symm).1

/-! ## Options that are entered -/

theorem take_inv (h : p.take o raw = .ok p') :
    ∃ g, p.flush = .ok g ∧ enter g o raw = .ok p'.given ∧ p'.open? = none := by
  obtain ⟨g, hflush, h⟩ := bind_eq_ok h
  obtain ⟨g', henter, h⟩ := bind_eq_ok h
  cases h
  exact ⟨g, hflush, henter, rfl⟩

theorem expect_inv (h : p.expect o = .ok p') : p.flush = .ok p'.given ∧ p'.open? = some (o, []) := by
  obtain ⟨g, hflush, h⟩ := bind_eq_ok h
  cases h
  exact ⟨hflush, rfl⟩

theorem open?_of_awaiting? (h : p.awaiting? = some o) : p.open? = some (o, []) := by
  unfold Progress.awaiting? at h
  split at h
  · cases h
    assumption
  · cases h

/-- An option that is entered comes before those that were there. -/
theorem enter_inv (h : enter g o raw = .ok g') : ∃ vs, g' = (o.name, vs) :: g := by
  unfold enter at h
  split at h
  · cases h
  · cases h
  · split at h <;> cases h
    exact ⟨_, rfl⟩
  · split at h <;> cases h
    exact ⟨_, rfl⟩
  all_goals
    split at h
    · cases h
    split at h
    · cases h
    split at h
    · cases h
    split at h <;> cases h
    exact ⟨_, rfl⟩

theorem values?_enter_ne (hne : o.name ≠ name) (h : enter g o raw = .ok g') : g'.values? name = g.values? name := by
  obtain ⟨vs, rfl⟩ := enter_inv h
  have hbeq : (name == o.name) = false := by simpa using Ne.symm hne
  rw [Given.values?, List.lookup_cons, hbeq]
  rfl

theorem has_enter (h : enter g o raw = .ok g') : g'.has o.name = true := by
  obtain ⟨vs, rfl⟩ := enter_inv h
  simp [Given.has]

/-- The option at hand is one of those that take a value. -/
def Progress.Proper (opts : List Opt) (p : Progress) : Prop :=
  ∀ o raw, p.open? = some (o, raw) → o ∈ opts ∧ o.kind.takesValue = true

theorem Progress.Proper.of_none (h : p.open? = none) : p.Proper opts := fun _ _ hopen => by cases h.symm.trans hopen

theorem Passes.proper (h : Passes opts name p p') : p'.Proper opts := by
  induction h with
  | take _ _ h =>
    obtain ⟨-, -, -, hopen⟩ := take_inv h
    exact .of_none hopen
  | expect mem takes _ h =>
    intro _ _ hopen
    cases (expect_inv h).2.symm.trans hopen
    exact ⟨mem, takes⟩
  | more _ _ _ _ ih => exact ih

theorem Turn.proper (hp : p.Proper opts) (h : Turn opts name p arg p') : p'.Proper opts := by
  cases h with
  | value o awaits _ eq =>
    subst eq
    rintro _ _ ⟨⟩
    exact hp _ _ (open?_of_awaiting? awaits)
  | switch o _ _ _ _ h =>
    obtain ⟨-, -, -, hopen⟩ := take_inv h
    exact .of_none hopen
  | option o mem _ takes _ h =>
    intro _ _ hopen
    cases (expect_inv h).2.symm.trans hopen
    exact ⟨mem, takes⟩
  | attached o _ _ _ _ _ h =>
    obtain ⟨-, -, -, hopen⟩ := take_inv h
    exact .of_none hopen
  | other passes => exact passes.proper

end Overseer.CommandLine

import Overseer.Proofs.Agent.Answers

/-!
# Runs beside one another

An executor works on any number of runs at a time. Whatever the others do, a run goes on as it would by
itself, and it stays in flight under its id, with the token of its own scope, until it leaves.

* `Executor.Amid`: a run hears some answers, and other runs enter, hear answers and leave meanwhile.
* `Executor.Amid.run`: it has become what the answers alone make of it.
* `Executor.Tidy`: each run that is at work is in flight, under an id that no other has. Whatever an
  executor does keeps it so, from the beginning on.
-/
namespace Overseer.Agent

namespace Run

/-! ## The task of a run -/

variable {scope : Scope} {r r' : Run} {h : Heard}

theorem task_iterate (r : Run) (s : Sight) (i : Nat) : (r.iterate s i).task = r.task := by
  unfold iterate
  repeat' split
  all_goals rfl

theorem task_proceed (r : Run) (s : Sight) (i : Nat) (calls : List ToolCall) :
    (r.proceed s i calls).task = r.task := by
  cases calls with
  | nil =>
    simp only [proceed]
    split
    · rfl
    · exact task_iterate _ _ _
  | cons call more =>
    simp only [proceed]
    split
    · rfl
    split <;> rfl

/-- A run keeps to its task. -/
theorem task_hear? (hear : r.hear? scope h = some r') : r'.task = r.task := by
  cases hear?_iff.mp hear with
  | noReply | noOutput => rfl
  | output => exact task_proceed _ _ _ _
  | reply =>
    simp only [accept]
    split
    · rfl
    split
    · rfl
    · exact task_proceed _ _ _ _

end Run

/-- When a run leaves, its id is free and the others stay in flight. -/
theorem InFlight.lookup_leave (f : InFlight) (id k : String) :
    (f.leave k).lookup id = if id = k then none else f.lookup id := by
  induction f with
  | nil => simp [leave]
  | cons x f ih =>
    obtain ⟨key, t⟩ := x
    rw [leave] at ih ⊢
    by_cases hk : key = k
    · subst hk
      rw [List.filter_cons_of_neg (by simp), ih]
      by_cases hid : id = key
      · rw [if_pos hid, if_pos hid]
      · rw [if_neg hid, if_neg hid, List.lookup_cons, beq_false_of_ne hid]
    · rw [List.filter_cons_of_pos (by simpa using hk), List.lookup_cons, List.lookup_cons, ih]
      by_cases hid : id = key
      · subst hid
        simp [hk]
      · rw [beq_false_of_ne hid]

namespace Executor

variable {e e' : Executor} {n m k : Nat} {c : Context} {scope : Scope} {s : Signals} {now : Instant}

/-! ## What an executor does -/

/-- A run that enters had its id to itself, and comes after all others. -/
theorem enter_inv (h : e.enter c scope s now = .ok (m, e')) :
    e.inFlight.lookup c.id = none ∧ m = e.runs.length ∧
      e' = { e with
        inFlight := (c.id, scope.token) :: e.inFlight
        runs := e.runs ++
          [some ⟨scope, Run.start (Task.of c e.tools e.maxIterations) (Sight.of s now scope)⟩] } := by
  unfold enter at h
  split at h
  · cases h
  · unfold InFlight.enter at h
    split at h
    · cases h
    · rename_i hfree
      cases h
      exact ⟨Option.not_isSome_iff_eq_none.mp hfree, rfl, rfl⟩

/-- Only the run of a valid context enters. -/
theorem valid_of_enter (h : e.enter c scope s now = .ok (m, e')) : c.validate = .ok () := by
  unfold enter at h
  split at h
  · cases h
  · assumption

/-- A run that hears an answer is at work. -/
theorem hear?_inv {h : Heard} (hh : e.hear? m h = some e') :
    ∃ scope r r', e.active? m = some ⟨scope, r⟩ ∧ r.hear? scope h = some r' ∧
      e' = { e with runs := e.runs.set m (some ⟨scope, r'⟩) } := by
  cases ha : e.active? m with
  | none => cases h <;> simp [hear?, move?, ha] at hh
  | some a =>
    rw [hear?_eq ha] at hh
    obtain ⟨r', hr', rfl⟩ := Option.map_eq_some_iff.mp hh
    exact ⟨a.scope, a.run, r', rfl, hr', rfl⟩

theorem active?_append {inFlight : InFlight} {a b : Active} :
    active? { e with inFlight, runs := e.runs ++ [some b] } k = some a ↔
      e.active? k = some a ∨ k = e.runs.length ∧ a = b := by
  unfold active?
  rw [List.getElem?_append]
  split
  · rename_i hk
    exact ⟨Or.inl, fun h => h.resolve_right fun hb => Nat.ne_of_lt hk hb.1⟩
  · rename_i hk
    rw [List.getElem?_eq_none (Nat.not_lt.mp hk), List.getElem?_singleton]
    simp only [Option.join_none, reduceCtorEq, false_or]
    split
    · simp [show k = e.runs.length by omega, eq_comm]
    · simp [show k ≠ e.runs.length by omega]

theorem active?_set_ne {inFlight : InFlight} {x : Option Active} (hne : m ≠ k) :
    active? { e with inFlight, runs := e.runs.set m x } k = e.active? k := by
  unfold active?
  rw [List.getElem?_set_ne hne]

/-- Who is at work when a run has left. -/
theorem active?_leave {a : Active} : (e.leave m).active? k = some a ↔ k ≠ m ∧ e.active? k = some a := by
  unfold leave
  split
  · rename_i hnone
    refine ⟨fun h => ⟨?_, h⟩, fun h => h.2⟩
    rintro rfl
    rw [hnone] at h; cases h
  · rename_i b hb
    by_cases hk : m = k
    · subst hk
      simp [active?, List.getElem?_set_self (lt_of_active? hb)]
    · rw [active?_set_ne hk]
      exact ⟨fun h => ⟨Ne.symm hk, h⟩, fun h => h.2⟩

/-- Who is at work on what when a run has heard an answer. -/
theorem active?_hear? {h : Heard} (hh : e.hear? m h = some e') :
    (∃ r, e'.active? k = some ⟨scope, r⟩ ∧ r.task.context = c) ↔
      ∃ r, e.active? k = some ⟨scope, r⟩ ∧ r.task.context = c := by
  obtain ⟨scope₁, r₁, r₂, ha, hhear, rfl⟩ := hear?_inv hh
  by_cases hk : m = k
  · subst hk
    rw [active?_set (lt_of_active? ha), ha]
    have htask := Run.task_hear? hhear
    constructor
    · rintro ⟨r, heq, hc⟩
      cases heq
      exact ⟨r₁, rfl, htask ▸ hc⟩
    · rintro ⟨r, heq, hc⟩
      cases heq
      exact ⟨r₂, rfl, htask ▸ hc⟩
  · rw [active?_set_ne hk]

/-! ## Other runs -/

/-- Another run than `n` does something. -/
inductive Beside (n : Nat) (e : Executor) : Executor → Prop where
  | enters {c : Context} {scope : Scope} {s : Signals} {now : Instant} {m : Nat} {e' : Executor}
      (enter : e.enter c scope s now = .ok (m, e')) : Beside n e e'
  | hears {m : Nat} {h : Heard} {e' : Executor} (other : m ≠ n) (hear : e.hear? m h = some e') : Beside n e e'
  | leaves {m : Nat} (other : m ≠ n) : Beside n e (e.leave m)

/-- The run `n` hears some answers, and other runs do as they will meanwhile. -/
inductive Amid (n : Nat) : Executor → List Heard → Executor → Prop where
  | nil (e : Executor) : Amid n e [] e
  | hears {e e₁ e₂ : Executor} {h : Heard} {rest : List Heard} (hear : e.hear? n h = some e₁)
      (amid : Amid n e₁ rest e₂) : Amid n e (h :: rest) e₂
  | beside {e e₁ e₂ : Executor} {heard : List Heard} (step : Beside n e e₁) (amid : Amid n e₁ heard e₂) :
      Amid n e heard e₂

theorem Beside.active?_eq {a : Active} (h : Beside n e e') (ha : e.active? n = some a) :
    e'.active? n = some a := by
  cases h with
  | enters enter =>
    obtain ⟨-, -, rfl⟩ := enter_inv enter
    exact active?_append.mpr (Or.inl ha)
  | hears other hear =>
    obtain ⟨_, _, _, -, -, rfl⟩ := hear?_inv hear
    rw [active?_set_ne other]
    exact ha
  | leaves other =>
    unfold leave
    split
    · exact ha
    · rw [active?_set_ne other]
      exact ha

/-- A run becomes what the answers that it hears make of it, whatever others do. -/
theorem Amid.run {r : Run} {heard : List Heard} (h : Amid n e heard e') (ha : e.active? n = some ⟨scope, r⟩) :
    ∃ r', r.hearAll? scope heard = some r' ∧ e'.active? n = some ⟨scope, r'⟩ := by
  induction h generalizing r with
  | nil e => exact ⟨r, rfl, ha⟩
  | @hears e e₁ e₂ h rest hear _ ih =>
    rw [hear?_eq ha] at hear
    obtain ⟨r₁, hr₁, rfl⟩ := Option.map_eq_some_iff.mp hear
    obtain ⟨r', hr', ha'⟩ := ih (active?_set (lt_of_active? ha) _)
    exact ⟨r', by rw [Run.hearAll?, hr₁]; exact hr', ha'⟩
  | beside step _ ih => exact ih (step.active?_eq ha)

/-! ## The runs in flight -/

/-- Each run that is at work is in flight with the token of its scope, under an id of its own. -/
structure Tidy (e : Executor) : Prop where
  tracked : ∀ m a, e.active? m = some a → e.inFlight.lookup a.run.task.context.id = some a.scope.token
  apart : ∀ m m' a a', e.active? m = some a → e.active? m' = some a' →
    a.run.task.context.id = a'.run.task.context.id → m = m'

theorem tidy_new (tools : List ToolDefinition) (maxIterations : Nat) : (new tools maxIterations).Tidy where
  tracked m a h := by cases h
  apart m m' a a' h := by cases h

theorem task_start (task : Task) (s : Sight) : (Run.start task s).task = task := Run.task_iterate _ _ _

theorem Tidy.enter (he : e.Tidy) (h : e.enter c scope s now = .ok (m, e')) : e'.Tidy := by
  obtain ⟨hfree, -, rfl⟩ := enter_inv h
  have hid {k : Nat} {a : Active} (ha : e.active? k = some a) : a.run.task.context.id ≠ c.id := fun heq => by
    have := he.tracked k a ha
    rw [heq, hfree] at this
    cases this
  constructor
  · intro k a ha
    rcases active?_append.mp ha with ha | ⟨-, rfl⟩
    · show List.lookup _ (_ :: _) = _
      rw [List.lookup_cons, beq_false_of_ne (hid ha)]
      exact he.tracked k a ha
    · rw [task_start]
      exact List.lookup_cons_self
  · intro k k' a a' ha ha' heq
    rcases active?_append.mp ha with ha | ⟨hk, rfl⟩ <;> rcases active?_append.mp ha' with ha' | ⟨hk', rfl⟩
    · exact he.apart k k' a a' ha ha' heq
    · rw [task_start] at heq
      exact absurd heq (hid ha)
    · rw [task_start] at heq
      exact absurd heq.symm (hid ha')
    · exact hk.trans hk'.symm

theorem Tidy.hear {h : Heard} (he : e.Tidy) (hh : e.hear? m h = some e') : e'.Tidy := by
  have hold {k : Nat} {a : Active} (ha : e'.active? k = some a) :
      ∃ r, e.active? k = some ⟨a.scope, r⟩ ∧ r.task.context = a.run.task.context :=
    (active?_hear? hh).mp ⟨a.run, ha, rfl⟩
  have hflight : e'.inFlight = e.inFlight := by
    obtain ⟨_, _, _, -, -, rfl⟩ := hear?_inv hh
    rfl
  constructor
  · intro k a ha
    obtain ⟨r, hr, hc⟩ := hold ha
    rw [hflight, ← hc]
    exact he.tracked k _ hr
  · intro k k' a a' ha ha' heq
    obtain ⟨r, hr, hc⟩ := hold ha
    obtain ⟨r', hr', hc'⟩ := hold ha'
    rw [← hc, ← hc'] at heq
    exact he.apart k k' _ _ hr hr' heq

theorem Tidy.leave (he : e.Tidy) (m : Nat) : (e.leave m).Tidy := by
  constructor
  · intro k a ha
    obtain ⟨hk, ha⟩ := active?_leave.mp ha
    unfold Executor.leave
    split
    · exact he.tracked k a ha
    · rename_i b hb
      rw [InFlight.lookup_leave, if_neg fun heq => hk (he.apart k m a b ha hb heq)]
      exact he.tracked k a ha
  · intro k k' a a' ha ha' heq
    exact he.apart k k' a a' (active?_leave.mp ha).2 (active?_leave.mp ha').2 heq

theorem Tidy.amid {heard : List Heard} (he : e.Tidy) (h : Amid n e heard e') : e'.Tidy := by
  induction h with
  | nil => exact he
  | hears hear _ ih => exact ih (he.hear hear)
  | beside step _ ih =>
    cases step with
    | enters enter => exact ih (he.enter enter)
    | hears _ hear => exact ih (he.hear hear)
    | leaves => exact ih (he.leave _)

end Executor

end Overseer.Agent

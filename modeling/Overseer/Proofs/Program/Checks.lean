import Overseer.Agent.Executor
import Overseer.Proofs.Config.Layers
import Overseer.Proofs.Supervisor.Refusal
import Overseer.Uuid

/-!
# Checks

What is asked of a sub-agent is checked four times: its limits when the settings are settled, all of it when a context
is forked for it, and the context when the supervisor starts it and when an executor begins with it. Each check is
written on its own, in its own order, and the first works on other numbers than the rest. They agree all the same:
what has passed one is not refused by the next.

* `Context.fork_eq`: a fork checks the context that it makes, but for its id.
* `Context.accepted`: a context that is valid is refused for a fault by no one.
* `Layer.validate_settled`, `Layer.refused_iff`: limits that are settled are valid, and which are not settled.
* `checks_agree`: all of it.
-/
namespace Overseer

theorem Uuid.ofRandom_ne_empty (n : Nat) : ofRandom n ≠ "" := by
  intro h
  have hlist := congrArg String.toList h
  simp [ofRandom] at hlist

/-! ## Starts -/

namespace Supervisor

open Machine in
/-- A start of a valid context that has not come back has yet to begin, has found no deadline for it, or is where one
can be that has a deadline. -/
theorem Machine.Over.starts_valid {m₁ m : Machine} {steps : List (Policy × Label)} {es : List Event} {i : Nat}
    {c : Context} {parent : Scope} {below : Thread} (h : m₁.Over i below steps es m) (hm : m₁.Sound)
    (hv : c.validate = .ok ()) (ht : m₁.threads[i]? = some (.start c parent :: below)) :
    m.threads[i]? = some (.start c parent :: below) ∨
      m.threads[i]? = some (.answer (.panicked clockPanic) :: below) ∨
      ∃ t, m.threads[i]? = some (t ++ below) ∧ Thread.Starts c es t := by
  have hb : Thread.HandsOver below := (hm.settled _ (List.mem_of_getElem? ht)).1
  induction h with
  | nil => exact Or.inl ht
  | @snoc steps es m m' p l run busy step ih =>
    have hsound := run.run.sound hm
    by_cases hl : l.thread? = some i
    · rcases ih with ht' | ht' | ⟨t, ht', hstarts⟩
      · obtain ⟨rfl, -⟩ := eq_step step hl ht' (Or.inl rfl)
        obtain ⟨m'', step', -, ⟨fault, hfault, -⟩ | ⟨-, -, hpanic⟩ | ⟨-, -, _, _, -, henroll⟩⟩ :=
          start_begins (p := p) hsound ht'
        · rw [hv] at hfault
          cases hfault
        · cases step.symm.trans step'
          exact Or.inr (Or.inl hpanic)
        · cases step.symm.trans step'
          exact Or.inr (Or.inr ⟨[.enroll c _], henroll, .enrolls rfl⟩)
      · exact absurd rfl (ne_answer_of_busy (t := [_]) busy ht' _)
      · exact Or.inr (Or.inr (hstarts.step (ne_answer_of_busy busy ht') hsound hb ht' step hl))
    · have hsame {t : Thread} (ht' : m.threads[i]? = some t) := (turn_of_next? step).thread_same hl ht'
      exact ih.imp hsame (Or.imp hsame fun ⟨t, ht', hstarts⟩ => ⟨t, hsame ht', hstarts.append _⟩)

/-- It does not come back with a fault. -/
theorem Machine.Over.ne_invalid {m₁ m : Machine} {steps : List (Policy × Label)} {es : List Event} {i : Nat}
    {c : Context} {parent : Scope} {below : Thread} (h : m₁.Over i below steps es m) (hm : m₁.Sound)
    (hv : c.validate = .ok ()) (ht : m₁.threads[i]? = some (.start c parent :: below)) (fault : Fault) :
    m.threads[i]? ≠ some (.answer (.refused (.invalid fault)) :: below) := by
  intro hback
  rcases h.starts_valid hm hv ht with ht' | ht' | ⟨t, ht', hstarts⟩
  · cases hback.symm.trans ht'
  · cases hback.symm.trans ht'
  · obtain rfl : t = [.answer (.refused (.invalid fault))] :=
      List.append_cancel_right (Option.some.inj (ht'.symm.trans hback))
    cases hstarts.started

end Supervisor

/-! ## Contexts -/

namespace Context

variable {c : Context} {id parentId skill : String} {now : Timestamp} {history : List Message}
  {allowedTools : Option (List String)} {limits : Limits} {fault : Fault}

/-- A fork checks the context that it makes, but for its id. -/
theorem fork_eq (h : c.id ≠ "") (id : String) (now : Timestamp) :
    fork id now c.parentId c.history c.skill c.allowedTools c.limits =
      c.validate.map fun _ => { c with id, createdAt := now, metadata := [] } := by
  have hid : ¬c.id.isEmpty = true := fun he => h (String.isEmpty_iff.mp he)
  unfold fork validate
  rw [if_neg hid]
  split
  · rfl
  split
  · rfl
  · cases c.limits.validate <;> rfl

theorem fork_error_iff (h : c.id ≠ "") :
    fork id now c.parentId c.history c.skill c.allowedTools c.limits = .error fault ↔ c.validate = .error fault := by
  rw [fork_eq h]
  cases c.validate <;> simp [Except.map]

theorem validate_of_fork (hid : id ≠ "") (h : fork id now parentId history skill allowedTools limits = .ok c) :
    c.validate = .ok () := by
  have heq := fork_eq (c := ⟨id, parentId, skill, allowedTools, limits, history, now, []⟩) hid id now
  cases hv : (⟨id, parentId, skill, allowedTools, limits, history, now, []⟩ : Context).validate with
  | error fault =>
    rw [hv] at heq
    cases h.symm.trans heq
  | ok =>
    rw [hv] at heq
    cases h.symm.trans heq
    exact hv

/-- Under limits that are valid, a fork is refused only for what is empty. -/
theorem fork_error_of_limits (h : limits.validate = .ok ()) :
    fork id now parentId history skill allowedTools limits = .error fault ↔
      parentId = "" ∧ fault = .emptyParent ∨ parentId ≠ "" ∧ skill = "" ∧ fault = .emptySkill := by
  by_cases hparent : parentId = ""
  · simpa [fork, hparent] using eq_comm
  by_cases hskill : skill = ""
  · simpa [fork, hparent, hskill, String.isEmpty_iff] using eq_comm
  · simp [fork, hparent, hskill, String.isEmpty_iff, h, bind, Except.bind, pure, Except.pure]

/-- No one who takes a context refuses it for a fault: neither the supervisor, however its start goes on, nor an
executor. -/
structure Accepted (c : Context) : Prop where
  started : ∀ {m₀ m m' : Supervisor.Machine} {steps steps' : List (Supervisor.Policy × Supervisor.Label)}
    {es es' : List Supervisor.Event} {i : Nat} {parent : Scope} {below : Supervisor.Thread}, m₀.Initial →
    Supervisor.Run m₀ steps es m → m.threads[i]? = some (.start c parent :: below) → m.Over i below steps' es' m' →
    ∀ fault, m'.threads[i]? ≠ some (.answer (.refused (.invalid fault)) :: below)
  executed : ∀ (e : Agent.Executor) (scope : Scope) (signals : Signals) (now : Instant) (fault : Fault),
    e.enter c scope signals now ≠ .error (.invalid fault)

theorem accepted (h : c.validate = .ok ()) : c.Accepted where
  started h₀ hrun ht hover := hover.ne_invalid (hrun.sound h₀.sound) h ht
  executed e scope signals now fault := by
    unfold Agent.Executor.enter Agent.InFlight.enter
    rw [h]
    dsimp only
    split <;> simp [bind, Except.bind, pure, Except.pure]

end Context

/-! ## Settings -/

theorem Duration.isZero_ofSeconds {n : Nat} (h : 0 < n) : (ofSeconds n).isZero = false := by
  have hpos : 0 < n * nanosPerSecond := Nat.mul_pos h (by decide)
  unfold ofSeconds ofNanos isZero
  split
  · simpa using Nat.ne_of_gt hpos
  · decide

namespace Layer

variable {layers : List Layer}

/-- Limits that are settled are valid. -/
theorem validate_settled (h : Valid layers) : (settled layers).limits.validate = .ok () := by
  have htime : ¬(settled layers).limits.timeout.isZero = true :=
    Bool.eq_false_iff.mp (Duration.isZero_ofSeconds (Int.pos_iff_toNat_pos.mp h.time))
  have htokens : ¬(settled layers).limits.maxTokens < 0 := Int.not_lt.mpr h.tokens
  have htoolCalls : ¬(settled layers).limits.maxToolCalls < 0 := Int.not_lt.mpr h.toolCalls
  rw [Limits.validate, if_neg htime, if_neg htokens, if_neg htoolCalls]

/-- What is not settled. -/
theorem refused_iff (layers : List Layer) : (∃ fault, (merged layers).settle = .error fault) ↔
    (layers.findSome? maxTokens).getD 0 < 0 ∨ (layers.findSome? maxToolCalls).getD 0 < 0 ∨
      (layers.findSome? timeoutSeconds).getD 300 ≤ 0 ∨ (layers.findSome? maxIterations).getD 50 = 0 := by
  have hvalid : Valid layers ↔ ¬((layers.findSome? maxTokens).getD 0 < 0 ∨ (layers.findSome? maxToolCalls).getD 0 < 0 ∨
      (layers.findSome? timeoutSeconds).getD 300 ≤ 0 ∨ (layers.findSome? maxIterations).getD 50 = 0) := by
    constructor
    · rintro ⟨tokens, toolCalls, time, iterations⟩
      omega
    · intro h
      constructor <;> omega
  cases hs : (merged layers).settle with
  | ok s =>
    have := hvalid.mp ((settle_merged layers).mp hs).1
    simpa using this
  | error fault =>
    have hnot : ¬Valid layers := fun valid => by
      rw [(settle_merged layers).mpr ⟨valid, rfl⟩] at hs
      cases hs
    rw [hvalid, not_not] at hnot
    simpa using hnot

end Layer

/-! ## Agreement -/

/-- A fork is refused for the fault that a context of the same fields has under an id, and the context that it makes is
refused for a fault by no one. Limits that are settled are valid, and a fork under them is refused only for what is
empty. What is not settled has a negative number of tokens or of tool calls, no time, or no iterations. -/
theorem checks_agree :
    (∀ (c : Context) (id : String) (now : Timestamp) (fault : Fault), c.id ≠ "" →
      (Context.fork id now c.parentId c.history c.skill c.allowedTools c.limits = .error fault ↔
        c.validate = .error fault)) ∧
    (∀ (random : Nat) (now : Timestamp) (parentId : String) (history : List Message) (skill : String)
      (allowedTools : Option (List String)) (limits : Limits) (c : Context),
      Context.fork (Uuid.ofRandom random) now parentId history skill allowedTools limits = .ok c →
        c.validate = .ok () ∧ c.Accepted) ∧
    (∀ (layers : List Layer) (s : Settings), (Layer.merged layers).settle = .ok s →
      s.limits.validate = .ok () ∧
      ∀ (id : String) (now : Timestamp) (parentId : String) (history : List Message) (skill : String)
        (allowedTools : Option (List String)) (fault : Fault),
        Context.fork id now parentId history skill allowedTools s.limits = .error fault ↔
          parentId = "" ∧ fault = .emptyParent ∨ parentId ≠ "" ∧ skill = "" ∧ fault = .emptySkill) ∧
    ∀ layers : List Layer, (∃ fault, (Layer.merged layers).settle = .error fault) ↔
      (layers.findSome? Layer.maxTokens).getD 0 < 0 ∨ (layers.findSome? Layer.maxToolCalls).getD 0 < 0 ∨
        (layers.findSome? Layer.timeoutSeconds).getD 300 ≤ 0 ∨
        (layers.findSome? Layer.maxIterations).getD 50 = 0 := by
  refine ⟨fun c id now fault => Context.fork_error_iff, fun random now _ _ _ _ _ c h => ?_, fun layers s h => ?_,
    Layer.refused_iff⟩
  · have hv := Context.validate_of_fork (Uuid.ofRandom_ne_empty random) h
    exact ⟨hv, Context.accepted hv⟩
  · obtain ⟨valid, rfl⟩ := (Layer.settle_merged layers).mp h
    have hlimits := Layer.validate_settled valid
    exact ⟨hlimits, fun _ _ _ _ _ _ _ => Context.fork_error_of_limits hlimits⟩

/-- A context with two faults, which a fork finds in the same order. -/
def twoFaults : Context := { Supervisor.plainContext "a" with skill := "", limits := { maxTokens := -1 } }

theorem checks_agree_twoFaults :
    Context.fork "b" default "parent" [] "" none { maxTokens := -1 } = .error .emptySkill ∧
    (∃ c, Context.fork (Uuid.ofRandom 0) default "parent" [] "skill" none {} = .ok c ∧ c.Accepted) ∧
    (∃ s, (Layer.merged [{ maxTokens := some 5 }, { maxTokens := some (-1) }]).settle = .ok s ∧
      s.limits.validate = .ok ()) ∧
    ∃ fault, (Layer.merged [{ maxTokens := some (-1) }, { maxTokens := some 5 }]).settle = .error fault := by
  obtain ⟨forks, forked, settles, refuses⟩ := checks_agree
  have fork := (forks twoFaults "b" default .emptySkill (by decide)).mpr rfl
  have settle := (settles [{ maxTokens := some 5 }, { maxTokens := some (-1) }] _ rfl).1
  exact ⟨fork, ⟨_, rfl, (forked 0 default "parent" [] "skill" none {} _ rfl).2⟩, ⟨_, rfl, settle⟩,
    (refuses _).mpr (Or.inl (by decide))⟩

end Overseer

import Overseer.Proofs.Agent.Surroundings

/-!
# Loosening the limits of a run

Limits end a run or leave it alone: nothing that it says or asks for depends on how much is left. So a run
that completes does the same with more to spend, if its surroundings answer as they did. Zero stands for no
limit, so it is looser than any number, and no number is looser than it.

* `Limits.Looser`: what is at least as loose.
* `Run.hear?_under`: what a run does with an answer, it does under looser limits, unless it is stopped.
* `Executor.loosened_completes`: a whole execution.
-/
namespace Overseer

namespace Limits

/-- A budget that is at least as loose: none at all, or as large a one. -/
def LooserBudget (n n' : Int) : Prop := n' = 0 ∨ 0 < n ∧ n ≤ n'

instance (n n' : Int) : Decidable (LooserBudget n n') := inferInstanceAs (Decidable (_ ∨ _))

/-- Limits that are at least as loose as others in every component. -/
structure Looser (l l' : Limits) : Prop where
  tokens : LooserBudget l.maxTokens l'.maxTokens
  toolCalls : LooserBudget l.maxToolCalls l'.maxToolCalls
  timeout : l.timeout ≤ l'.timeout

variable {l l' : Limits}

theorem exceeds_looser {n n' : Int} (h : LooserBudget n n') {amount : Nat}
    (hkept : exceeds amount (positive n) = false) : exceeds amount (positive n') = false := by
  rw [exceeds_positive] at hkept ⊢
  unfold LooserBudget at h
  omega

theorem Looser.isZero (h : l.Looser l') (hz : l.timeout.isZero = false) : l'.timeout.isZero = false := by
  have hle : l.timeout.nanos ≤ l'.timeout.nanos := h.timeout
  simp only [Duration.isZero, beq_eq_false_iff_ne] at hz ⊢
  omega

/-- What is within some limits is within looser ones. -/
theorem Looser.check (h : l.Looser l') (hz : l.timeout.isZero = false) {tokens calls : Nat} {elapsed : Duration}
    (hok : l.check tokens calls elapsed = .ok ()) : l'.check tokens calls elapsed = .ok () := by
  obtain ⟨htokens, hcalls, htime⟩ := (check_ok hz).mp hok
  refine (check_ok (h.isZero hz)).mpr ⟨?_, ?_, Nat.le_trans htime h.timeout⟩
  · exact exceeds_positive.mp (exceeds_looser h.tokens (exceeds_positive.mpr htokens))
  · exact exceeds_positive.mp (exceeds_looser h.toolCalls (exceeds_positive.mpr hcalls))

theorem Looser.validate (h : l.Looser l') (hv : l.validate = .ok ()) : l'.validate = .ok () := by
  have hz := h.isZero (timeout_of_validate hv)
  have htokens := h.tokens
  have hcalls := h.toolCalls
  unfold LooserBudget at htokens hcalls
  unfold Limits.validate
  rw [hz, if_neg (by simp), if_neg (by omega), if_neg (by omega)]

end Limits

theorem Context.validate_looser {c : Context} {l : Limits} (h : c.limits.Looser l) (hv : c.validate = .ok ()) :
    { c with limits := l }.validate = .ok () := by
  unfold validate at hv ⊢
  repeat' split at hv
  any_goals cases hv
  rename_i hid hparent hskill
  rw [if_neg hid, if_neg hparent, if_neg hskill]
  exact h.validate hv

namespace Agent

/-- The same task with limits that are at least as loose. -/
structure Task.Looser (task task' : Task) : Prop where
  context : task'.context = { task.context with limits := task'.context.limits }
  tools : task'.tools = task.tools
  iterations : task.maxIterations ≤ task'.maxIterations
  limits : task.context.limits.Looser task'.context.limits
  timed : task.context.limits.timeout.isZero = false

namespace Run

variable {task : Task} {w : Surroundings} {scope : Scope} {asked : List Move} {heard : List Heard} {h : Heard}
  {r r₁ r' : Run} {s : Sight} {i : Nat}

/-! ## One answer -/

/-- The run with another task. -/
def under (task : Task) (r : Run) : Run := { r with task }

/-- It has not been stopped: if it has ended, it is complete. -/
def Unbroken (r : Run) : Prop := ∀ e, r.point = .ended e → e.status = .complete

theorem not_unbroken_stop {status : Status} {error : String} (h : status ≠ .complete) :
    ¬(r.stop status error).Unbroken := fun hu => h (hu _ rfl)

theorem move_under (hl : r.task.Looser task) : (r.under task).move = r.move := by
  unfold move under
  cases r.point <;> simp only [hl.tools]

theorem iterate_under (hl : r.task.Looser task) (hu : (r.iterate s i).Unbroken) :
    (r.under task).iterate s i = (r.iterate s i).under task := by
  unfold iterate at hu ⊢
  split at hu
  · exact absurd hu (not_unbroken_stop (by simp))
  rename_i hi
  split at hu
  · exact absurd hu (not_unbroken_stop (by simp))
  rename_i hc
  split at hu
  · exact absurd hu (not_unbroken_stop (by simp))
  rename_i he
  split at hu
  · exact absurd hu (not_unbroken_stop (by simp))
  rename_i hok
  have hi' : ¬(r.under task).task.maxIterations < i :=
    Nat.not_lt.mpr (Nat.le_trans (Nat.not_lt.mp hi) hl.iterations)
  have hok' : (r.under task).limits.check (r.under task).tokens (r.under task).toolCalls
      ((r.under task).elapsed s) = .ok () := hl.limits.check hl.timed hok
  rw [if_neg hi', if_neg hc, if_neg he, hok', if_neg hi, if_neg hc, if_neg he]
  rfl

theorem callsSpent_under (hl : r.task.Looser task) (h : r.callsSpent = false) :
    (r.under task).callsSpent = false := by
  rw [callsSpent_eq_false] at h ⊢
  exact Limits.exceeds_positive.mp (Limits.exceeds_looser hl.limits.toolCalls (Limits.exceeds_positive.mpr h))

theorem proceed_under (hl : r.task.Looser task) {calls : List ToolCall} (hu : (r.proceed s i calls).Unbroken) :
    (r.under task).proceed s i calls = (r.proceed s i calls).under task := by
  cases calls with
  | nil =>
    simp only [proceed] at hu ⊢
    split at hu
    · rename_i v hv
      exact absurd hu (not_unbroken_stop (by cases v <;> simp [statusOf]))
    · rename_i hok
      have hok' : (r.under task).limits.check (r.under task).tokens (r.under task).toolCalls
          ((r.under task).elapsed s) = .ok () := hl.limits.check hl.timed hok
      rw [hok']
      exact iterate_under hl hu
  | cons call more =>
    simp only [proceed] at hu ⊢
    split at hu
    · exact absurd hu (not_unbroken_stop (by simp))
    rename_i hspent
    split at hu
    · exact absurd hu (not_unbroken_stop (by simp))
    rename_i hallowed
    have hspent' := callsSpent_under hl (Bool.eq_false_iff.mpr hspent)
    have hallowed' : ¬isToolAllowed (r.under task).task.context.allowedTools call.name = false := by
      rw [under, hl.context]; exact hallowed
    rw [if_neg (Bool.eq_false_iff.mp hspent'), if_neg hallowed', if_neg hspent, if_neg hallowed]
    rfl

theorem accept_under (hl : r.task.Looser task) {asked : Instant} {a : ChatResponse}
    (hu : (r.accept s i asked a).Unbroken) :
    (r.under task).accept s i asked a = (r.accept s i asked a).under task := by
  simp only [accept] at hu ⊢
  split at hu
  · exact absurd hu (not_unbroken_stop (by simp))
  rename_i hover
  have hkept' : Limits.exceeds (addTokens (r.under task).tokens a.usage.totalTokens)
      (r.under task).limits.tokenLimit = false :=
    Limits.exceeds_looser hl.limits.tokens (Bool.eq_false_iff.mpr hover)
  rw [if_neg (Bool.eq_false_iff.mp hkept'), if_neg hover]
  split at hu
  · rename_i hfinal
    rw [if_pos hfinal, if_pos hfinal]
    rfl
  · rename_i hfinal
    rw [if_neg hfinal, if_neg hfinal]
    exact proceed_under (r := r.accepted s i asked a) hl hu

/-- What a run makes of an answer it makes of it under looser limits, unless the answer has it stopped. -/
theorem hear?_under (hl : r.task.Looser task) (hear : r.hear? scope h = some r') (hu : r'.Unbroken) :
    (r.under task).hear? scope h = some (r'.under task) := by
  rw [hear?_iff] at hear ⊢
  cases hear with
  | noReply | noOutput => exact absurd hu (not_unbroken_stop (by simp))
  | reply point =>
    rw [← accept_under hl hu]
    exact .reply point
  | @output m text i call more point =>
    rw [← proceed_under (r := r.answered call text) hl hu]
    exact .output point

/-! ## A whole run -/

theorem start_under {task₀ : Task} (hl : task₀.Looser task) (hu : (start task₀ s).Unbroken) :
    start task s = (start task₀ s).under task := by
  have hhistory : task.context.history = task₀.context.history := by rw [hl.context]
  rw [start, hhistory]
  exact iterate_under (r := ⟨task₀, s.now, task₀.context.history, [], 0, 0, .asking 0 s.now⟩) hl hu

/-- A run that comes to an unbroken end has not been stopped before. -/
theorem EndsIn.unbroken (hends : r.EndsIn w scope asked heard r') (hu : r'.Unbroken) : r.Unbroken := by
  cases hends with
  | ended => exact hu
  | hears _ hear => exact fun e he => by rw [hear?_ended he] at hear; cases hear

/-- A run that completes hears and does the same under looser limits. -/
theorem EndsIn.under (hl : r.task.Looser task) (hends : r.EndsIn w scope asked heard r') (hu : r'.Unbroken) :
    (r.under task).EndsIn w scope asked heard (r'.under task) ∧
      (r.under task).moves scope heard = r.moves scope heard := by
  induction hends with
  | ended point => exact ⟨.ended point, by rw [moves, moves, move_under hl]⟩
  | hears answer hear goesOn ih =>
    have hear' := hear?_under hl hear (goesOn.unbroken hu)
    obtain ⟨hends', hmoves⟩ := ih ((task_hear? hear).symm ▸ hl) hu
    rw [← move_under hl] at answer hends'
    exact ⟨.hears answer hear' hends', by rw [moves_cons hear, moves_cons hear', hmoves, move_under hl]⟩

theorem EndsIn.task_eq (hends : r.EndsIn w scope asked heard r') : r'.task = r.task := by
  induction hends with
  | ended => rfl
  | hears _ hear _ ih => exact ih.trans (task_hear? hear)

end Run

/-! ## Runs of an executor -/

namespace Executor

/-- If the run of a valid context completes, it does so with looser limits and as many iterations or more, in
an executor with the same tools, under the same scope and in the same surroundings: it comes to an end there,
and when it does, it has made the same moves, heard the same answers, and leaves the same record but for the
time that it took. -/
theorem loosened_completes (e e' : Executor) (w : Surroundings) (c : Context) (l : Limits) (scope : Scope)
    (m₀ : Moment) (hv : c.validate = .ok ()) (hfree : e.inFlight.lookup c.id = none)
    (hfree' : e'.inFlight.lookup c.id = none) (hloose : c.limits.Looser l) (htools : e'.tools = e.tools)
    (hiterations : e.maxIterations ≤ e'.maxIterations) {heard : List Heard} {moves : List Move} {rec : Record}
    (h : e.ExecutesIn w c scope m₀ heard moves rec) (hcomplete : rec.status = .complete) :
    (∃ rec', e'.ExecutesIn w { c with limits := l } scope m₀ heard moves rec') ∧
      ∀ heard' moves' rec', e'.ExecutesIn w { c with limits := l } scope m₀ heard' moves' rec' →
        heard' = heard ∧ moves' = moves ∧ rec.Agrees rec' := by
  obtain ⟨r, ending, now, time, hends, hended, rfl, rfl⟩ := (executesIn_iff hv hfree).mp h
  have hl : (Task.of c e.tools e.maxIterations).Looser
      (Task.of { c with limits := l } e'.tools e'.maxIterations) :=
    ⟨rfl, by rw [htools]; rfl, hiterations, hloose, Context.timeout_of_validate hv⟩
  have hunbroken : r.Unbroken := fun e' he => by
    cases hended.symm.trans he
    exact hcomplete
  have htask : r.task = Task.of c e.tools e.maxIterations := hends.task_eq.trans (task_start _ _)
  have hstart := Run.start_under hl (hends.unbroken hunbroken)
  obtain ⟨hends', hmoves⟩ := hends.under (by rw [task_start]; exact hl) hunbroken
  rw [← hstart] at hends' hmoves
  have hv' := Context.validate_looser hloose hv
  refine ⟨⟨_, (executesIn_iff hv' hfree').mpr ⟨_, ending, now, time, hends', hended, hmoves.symm, rfl⟩⟩,
    fun heard' moves' rec' h' => ?_⟩
  obtain ⟨r', ending', now', time', hends'', hended', rfl, rfl⟩ := (executesIn_iff hv' hfree').mp h'
  obtain ⟨rfl, rfl⟩ := hends'.unique hends''
  cases hended.symm.trans hended'
  refine ⟨rfl, hmoves, ?_⟩
  simp only [Record.Agrees, Run.record, Run.under, htask]
  rfl

/-- No limit on tokens, one more call, and more time than `askTheTime` has. -/
def roomy : Limits := { maxToolCalls := 2, timeout := .ofSeconds 400 }

theorem loosened_completes_theTime :
    askTheTime.validate = .ok () ∧ askTheTime.limits.Looser roomy ∧
    ∃ moves rec rec',
      (new clockAndShell 2).ExecutesIn (clockAt 2) askTheTime ownScope ⟨{ fresh := 2 }, 0⟩ (toldAt 2) moves rec ∧
      rec.status = .complete ∧ rec.output = "It is noon." ∧ rec.tokens = 9 ∧
      (new clockAndShell 3).ExecutesIn (clockAt 2) { askTheTime with limits := roomy } ownScope ⟨{ fresh := 2 }, 0⟩
        (toldAt 2) moves rec' ∧ rec.Agrees rec' := by
  have hv : askTheTime.validate = .ok () := rfl
  have hloose : askTheTime.limits.Looser roomy := ⟨by decide, by decide, by decide⟩
  have hends : (new clockAndShell 2).ExecutesIn (clockAt 2) askTheTime ownScope ⟨{ fresh := 2 }, 0⟩
      (toldAt 2) _ _ :=
    ⟨_, _, _, _, 2, default, rfl, .hears rfl (.hears rfl (.hears rfl (.nil _))), rfl, ⟨rfl, rfl, rfl, trivial⟩,
      rfl, rfl⟩
  obtain ⟨⟨rec', h'⟩, hall⟩ := loosened_completes (new clockAndShell 2) (new clockAndShell 3) (clockAt 2) askTheTime
    roomy ownScope ⟨{ fresh := 2 }, 0⟩ hv rfl rfl hloose rfl (by decide) hends rfl
  exact ⟨hv, hloose, _, _, rec', hends, rfl, rfl, rfl, h', (hall _ _ _ h').2.2⟩

end Executor

end Agent

end Overseer

import Overseer.Proofs.Agent.Beside
import Overseer.Proofs.Agent.ToolSafety

/-!
# Cancelling a run

A run looks at its scope at the head of each iteration only. Once the scope is cancelled no iteration asks
the model any more: the one in progress makes the calls that it has been asked for, unless one of its own
exits comes first, and at its end the run stops as cancelled. The end of the last iteration that is
permitted is not followed by a head, so there the cancellation goes unseen, and the run is reported to have
used up its iterations.

* `Signal`: the ways in which the scope of a run is cancelled.
* `Run.cancelled_after`: what a run does from then on, by induction on what it hears.
* `Executor.cancelled_at_boundary`: the same for every run that enters an executor, among others.
* `Executor.cancellation_unseen`: the last iteration is an exception indeed.
-/
namespace Overseer.Agent

/-! ## Signals -/

/-- How the scope of the run of a context comes to be cancelled. -/
inductive Signal (e : Executor) (c : Context) (scope : Scope) (s : Signals) : Signals → Prop where
  /-- Through the executor, by the id of the run. -/
  | executor {s' : Signals} (h : e.cancel s c.id = .ok s') : Signal e c scope s s'
  /-- Through the scope of the run. -/
  | scope : Signal e c scope s (scope.cancel s)
  /-- Through a scope above it. -/
  | ancestor {t : Token} (h : t.key ∈ scope.token.above) : Signal e c scope s (s.raise t)

theorem Signals.isCancelled_of_raised {s : Signals} {t : Token} {k : Nat} (hk : k ∈ t.key :: t.above)
    (h : k ∈ s.raised) : s.isCancelled t = true := by
  unfold Signals.isCancelled
  exact List.any_eq_true.mpr ⟨k, hk, by simpa using h⟩

/-- A scope that has been cancelled stays so. -/
theorem Signal.isCancelled {e : Executor} {c : Context} {scope : Scope} {s s' later : Signals}
    (hflight : e.inFlight.lookup c.id = some scope.token) (h : Signal e c scope s s')
    (hlater : ∀ k ∈ s'.raised, k ∈ later.raised) : scope.isCancelled later = true := by
  unfold Scope.isCancelled
  cases h with
  | executor h =>
    simp only [Executor.cancel, InFlight.cancel, InFlight.find, hflight, Except.map] at h
    cases h
    exact Signals.isCancelled_of_raised List.mem_cons_self (hlater _ List.mem_cons_self)
  | scope => exact Signals.isCancelled_of_raised List.mem_cons_self (hlater _ List.mem_cons_self)
  | ancestor h =>
    exact Signals.isCancelled_of_raised (List.mem_cons_of_mem _ h) (hlater _ List.mem_cons_self)

/-! ## A run by itself -/

/-- The run stops as cancelled. -/
def cancelledEnding : Ending := ⟨.cancelled, "", "sub-agent cancelled"⟩

/-- The run has used up its `n` iterations. -/
def ceilingEnding (n : Nat) : Ending := ⟨.error, "", "exceeded maximum iterations (" ++ toString n ++ ")"⟩

/-- The calls that an answer asks for. -/
def Heard.calls : Heard → List ToolCall
  | .reply _ (.ok a) => a.toolCalls
  | _ => []

namespace Run

variable {scope : Scope} {r r₁ r' : Run} {h : Heard} {i : Nat} {s : Sight}

/-- The head of an iteration sees that the scope is cancelled, if the iteration is permitted. -/
theorem iterate_cancelled (hs : s.cancelled = true) (i : Nat) :
    (r.iterate s (i + 1)).point = .ended (if i < r.task.maxIterations then cancelledEnding
      else ceilingEnding r.task.maxIterations) := by
  unfold iterate
  split
  · rename_i hi
    rw [if_neg (by omega)]
    rfl
  · rename_i hi
    rw [if_pos (by omega)]
    rfl

theorem start_cancelled (hs : s.cancelled = true) (task : Task) :
    (start task s).point = .ended (if 0 < task.maxIterations then cancelledEnding
      else ceilingEnding task.maxIterations) := iterate_cancelled hs 0

/-- How many answers a run hears at most before its iteration is over: one of the model if it waits for that,
and an output for each call that it is asked for. -/
def due (r : Run) (heard : List Heard) : Nat :=
  match r.point with
  | .asking _ _ => 1 + (heard.flatMap Heard.calls).length
  | .calling _ _ more => 1 + more.length
  | .ended _ => 0

theorem due_pos (hi : r.point.iteration? = some i) (heard : List Heard) : 1 ≤ r.due heard := by
  unfold due
  cases hp : r.point with
  | ended => rw [hp] at hi; cases hi
  | _ => exact Nat.le_add_right _ _

theorem due_calling (r : Run) (i : Nat) (call : ToolCall) (more : List ToolCall) (heard : List Heard) :
    ({ r with point := .calling i call more } : Run).due heard = 1 + more.length := rfl

/-- A run that has calls to make has heard one of the answers that were due. -/
theorem Notes.due {calls : List ToolCall} (notes : r.Notes scope h i r₁ calls) (rest : List Heard) :
    1 + calls.length ≤ r.due (h :: rest) := by
  cases notes with
  | reply point =>
    rw [Run.due, point]
    simp [Heard.calls]
  | output point => exact Nat.le_of_eq (by rw [Run.due, point])

/-- In the iteration `i` the last answer that is heard ends the run by itself. -/
def EndsItself (scope : Scope) (r : Run) (i : Nat) (heard : List Heard) (ending : Ending) : Prop :=
  ∃ before h r', heard = before ++ [h] ∧ r.hearAll? scope before = some r' ∧
    r'.point.iteration? = some i ∧ r'.Exit scope h ending

/-- After the output of the last call nothing but the time ends a run. -/
theorem Exit.status_of_last {m : Moment} {text : String} {ending : Ending} {call : ToolCall}
    (exit : r.Exit scope (.output m (.ok text)) ending) (point : r.point = .calling i call []) :
    ending.status = .timeout := by
  cases exit with
  | late => rfl
  | calls notes | notAllowed notes =>
    cases notes with
    | output hp => rw [point] at hp; cases hp

theorem EndsItself.cons {rest : List Heard} {ending : Ending} (hh : r.hear? scope h = some r₁)
    (hends : r₁.EndsItself scope i rest ending) : r.EndsItself scope i (h :: rest) ending := by
  obtain ⟨before, last, r', rfl, hhear, hi, hexit⟩ := hends
  exact ⟨h :: before, last, r', rfl, by rw [hearAll?, hh]; exact hhear, hi, hexit⟩

theorem eq_of_hearAll?_ended {e : Ending} (hp : r.point = .ended e) {heard : List Heard}
    (hh : r.hearAll? scope heard = some r') : heard = [] ∧ r' = r := by
  cases heard with
  | nil => cases hh; exact ⟨rfl, rfl⟩
  | cons h rest => rw [hearAll?, hear?_ended hp] at hh; cases hh

/-- What becomes of a run in its iteration `i` when all that it hears comes after its scope is cancelled. -/
inductive Winds (scope : Scope) (r : Run) (i : Nat) (heard : List Heard) (r' : Run) : Prop where
  /-- It is still in that iteration, and answers are due, from then on the outputs of calls alone. -/
  | inside (iteration : r'.point.iteration? = some i) (waits : heard.length < r.due heard)
      (calls : heard ≠ [] → ∃ call, r'.move = .invoke call)
  /-- It has been ended by that iteration itself. -/
  | itself {ending : Ending} (point : r'.point = .ended ending) (exit : r.EndsItself scope i heard ending)
  /-- It has come to the end of the iteration. -/
  | boundary (point : r'.point = .ended (if i < r.task.maxIterations then cancelledEnding
      else ceilingEnding r.task.maxIterations))

/-- From the moment that its scope is cancelled a run hears no more answers than are due in the iteration that
it is in, and leaves that only for its ending. -/
theorem cancelled_after (hz : r.limits.timeout.isZero = false) (hr : r.Sober)
    (hi : r.point.iteration? = some i) {heard : List Heard}
    (hcancelled : ∀ h ∈ heard, scope.isCancelled h.moment.signals = true)
    (hh : r.hearAll? scope heard = some r') : heard.length ≤ r.due heard ∧ r.Winds scope i heard r' := by
  induction heard generalizing r with
  | nil =>
    cases hh
    exact ⟨Nat.zero_le _, .inside hi (due_pos hi _) fun hne => absurd rfl hne⟩
  | cons h rest ih =>
    obtain ⟨r₁, hhear, hrest⟩ := Option.bind_eq_some_iff.mp hh
    have hears := hears_of_hear? hr hz hhear
    have hseen : (h.moment.sight scope).cancelled = true := hcancelled h List.mem_cons_self
    cases hears with
    | @exit ending _ exit point =>
      obtain ⟨rfl, rfl⟩ := eq_of_hearAll?_ended point hrest
      exact ⟨due_pos hi _, .itself point ⟨[], h, r, rfl, rfl, hi, exit⟩⟩
    | @boundary j r₂ notes =>
      obtain rfl : j = i := Option.some.inj (notes.iteration.symm.trans hi)
      have hpoint := iterate_cancelled (r := r₂) hseen j
      rw [notes.task_eq] at hpoint
      obtain ⟨rfl, rfl⟩ := eq_of_hearAll?_ended hpoint hrest
      exact ⟨due_pos hi _, .boundary hpoint⟩
    | @call j r₂ call more notes allowed room =>
      obtain rfl : j = i := Option.some.inj (notes.iteration.symm.trans hi)
      have hnot (e : Ending) : ({ r₂ with point := .calling j call more } : Run).point ≠ .ended e :=
        fun he => by cases he
      have hsober := (Hears.call notes allowed room).sober hr hnot
      have htask : ({ r₂ with point := .calling j call more } : Run).task = r.task := notes.task_eq
      obtain ⟨hdue, hwinds⟩ := ih (by rw [limits, htask]; exact hz) hsober rfl
        (fun h hh => hcancelled h (List.mem_cons_of_mem _ hh)) hrest
      have hnotes : (call :: more).length + 1 ≤ r.due (h :: rest) := Nat.add_comm _ _ ▸ notes.due rest
      rw [due_calling] at hdue
      rw [List.length_cons] at hnotes ⊢
      refine ⟨by omega, ?_⟩
      cases hwinds with
      | inside iteration waits calls =>
        rw [due_calling] at waits
        refine .inside iteration (by rw [List.length_cons]; omega) fun _ => ?_
        cases rest with
        | nil => cases hrest; exact ⟨call, rfl⟩
        | cons => exact calls (List.cons_ne_nil _ _)
      | itself point exit => exact .itself point (exit.cons hhear)
      | boundary point => exact .boundary (htask ▸ point)

/-- What holds of a run that is at work, wherever it is. -/
structure Works (task : Task) (r : Run) : Prop where
  permitted : ∀ i, r.point.iteration? = some i → i ≤ task.maxIterations
  task : r.task = task
  sober : r.Sober

theorem Works.timed {task : Task} (hz : task.context.limits.timeout.isZero = false) (hr : r.Works task) :
    r.limits.timeout.isZero = false := by
  rw [limits, hr.task]
  exact hz

theorem iteration_iterate {j : Nat} (h : (r.iterate s i).point.iteration? = some j) :
    j = i ∧ i ≤ r.task.maxIterations := by
  unfold iterate at h
  split at h
  · cases h
  rename_i hi
  repeat' split at h
  all_goals cases h
  exact ⟨rfl, Nat.not_lt.mp hi⟩

theorem Works.hear {task : Task} (hz : task.context.limits.timeout.isZero = false) (hr : r.Works task)
    (hh : r.hear? scope h = some r') (hp : ∀ e, r'.point ≠ .ended e) : r'.Works task := by
  have hears := hears_of_hear? hr.sober (hr.timed hz) hh
  refine ⟨fun j hj => ?_, (task_hear? hh).trans hr.task, hears.sober hr.sober hp⟩
  cases hears with
  | exit _ point => exact absurd point (hp _)
  | call notes => cases hj; exact hr.permitted _ notes.iteration
  | boundary notes =>
    obtain ⟨rfl, hle⟩ := iteration_iterate hj
    rw [notes.task_eq, hr.task] at hle
    exact hle

theorem Works.hearAll {task : Task} (hz : task.context.limits.timeout.isZero = false) (hr : r.Works task)
    {heard : List Heard} (hh : r.hearAll? scope heard = some r') (hp : ∀ e, r'.point ≠ .ended e) :
    r'.Works task := by
  induction heard generalizing r with
  | nil => cases hh; exact hr
  | cons h rest ih =>
    obtain ⟨r₁, hhear, hrest⟩ := Option.bind_eq_some_iff.mp hh
    refine ih (hr.hear hz hhear fun e he => ?_) hrest
    obtain ⟨-, rfl⟩ := eq_of_hearAll?_ended he hrest
    exact hp e he

end Run

/-! ## Runs of an executor -/

namespace Executor

variable {e : Executor} {n : Nat}

/-- Whatever a run has heard since it began, it is at work until it has ended. -/
theorem works_of_start {c : Context} {scope : Scope} {s : Sight} {heard : List Heard} {r : Run}
    (hv : c.validate = .ok ())
    (hh : (Run.start (Task.of c e.tools e.maxIterations) s).hearAll? scope heard = some r)
    (hp : ∀ ending, r.point ≠ .ended ending) : r.Works (Task.of c e.tools e.maxIterations) := by
  rcases stands_start e c s with ⟨ending, hended⟩ | ⟨hstands, -, -⟩
  · obtain ⟨-, rfl⟩ := Run.eq_of_hearAll?_ended hended hh
    exact absurd hended (hp ending)
  · have hworks : (Run.start (Task.of c e.tools e.maxIterations) s).Works (Task.of c e.tools e.maxIterations) :=
      ⟨fun j hj => (Run.iteration_iterate hj).1 ▸ (Run.iteration_iterate hj).2, hstands.task, hstands.sober⟩
    exact hworks.hearAll (Context.timeout_of_validate hv) hh hp

theorem move?_ended {scope : Scope} {r : Run} {ending : Ending} (ha : e.active? n = some ⟨scope, r⟩)
    (hp : r.point = .ended ending) : e.move? n = some (.finish ending) := by
  rw [move?, ha, Option.map_some, Run.move_ended hp]

/-- A valid context whose id is not in flight enters. If its scope is cancelled before it begins, it stops
there. If it is cancelled in any way while the run is in its iteration `i`, the run asks the model no more,
and it stays in that iteration, for as long as answers are due and no longer, until it has ended: by one of
the exits of the iteration, or at its end; and there as cancelled, but for the last iteration that is
permitted. All this holds whatever other runs do meanwhile. -/
theorem cancelled_at_boundary (e : Executor) (c : Context) (scope : Scope) (m₀ : Moment) (he : e.Tidy)
    (hv : c.validate = .ok ()) (hfree : e.inFlight.lookup c.id = none) :
    ∃ n e₁, e.enter c scope m₀.signals m₀.now = .ok (n, e₁) ∧
      (scope.isCancelled m₀.signals = true → e₁.move? n =
        some (.finish (if 0 < e.maxIterations then cancelledEnding else ceilingEnding e.maxIterations))) ∧
      ∀ before e₂ r i s s' after e₃, Amid n e₁ before e₂ → e₂.active? n = some ⟨scope, r⟩ →
        r.point.iteration? = some i → Signal e₂ c scope s s' →
        (∀ h ∈ after, ∀ k ∈ s'.raised, k ∈ h.moment.signals.raised) → Amid n e₂ after e₃ →
        i ≤ e.maxIterations ∧ (after ≠ [] → ∀ q, e₃.move? n ≠ some (.ask q)) ∧ after.length ≤ r.due after ∧
        ((∃ r', e₃.active? n = some ⟨scope, r'⟩ ∧ r'.point.iteration? = some i ∧ after.length < r.due after) ∨
          ∃ ending, e₃.move? n = some (.finish ending) ∧
            (r.EndsItself scope i after ending ∨
              ending = if i < e.maxIterations then cancelledEnding else ceilingEnding e.maxIterations)) := by
  obtain ⟨e₁, henter, hactive⟩ := enter_ok scope m₀ hv hfree
  refine ⟨e.runs.length, e₁, henter, fun hcancelled => ?_, ?_⟩
  · exact move?_ended hactive (Run.start_cancelled hcancelled _)
  intro before e₂ r i s s' after e₃ hbefore hactive₂ hi hsignal hlater hafter
  obtain ⟨r₀, hhear, hactive₂'⟩ := hbefore.run hactive
  obtain rfl : r₀ = r := by
    rw [hactive₂] at hactive₂'
    cases hactive₂'
    rfl
  have hworks := works_of_start hv hhear fun ending hp => by rw [hp] at hi; cases hi
  have hlimits : r₀.limits.timeout.isZero = false := by
    rw [Run.limits, hworks.task]
    exact Context.timeout_of_validate hv
  have hflight := ((he.enter henter).amid hbefore).tracked _ _ hactive₂
  rw [hworks.task] at hflight
  have hcancelled : ∀ h ∈ after, scope.isCancelled h.moment.signals = true :=
    fun h hh => hsignal.isCancelled hflight (hlater h hh)
  obtain ⟨r', hhear', hactive₃⟩ := hafter.run hactive₂
  obtain ⟨hdue, hwinds⟩ := Run.cancelled_after hlimits hworks.sober hi hcancelled hhear'
  have hmove : e₃.move? e.runs.length = some r'.move := by rw [move?, hactive₃]; rfl
  refine ⟨hworks.permitted i hi, fun hne q => ?_, hdue, ?_⟩
  · rw [hmove]
    intro hask
    cases hwinds with
    | inside _ _ calls =>
      obtain ⟨call, hcall⟩ := calls hne
      rw [hcall] at hask
      cases hask
    | itself point | boundary point => rw [Run.move_ended point] at hask; cases hask
  cases hwinds with
  | inside iteration waits => exact Or.inl ⟨r', hactive₃, iteration, waits⟩
  | itself point exit => exact Or.inr ⟨_, move?_ended hactive₃ point, Or.inl exit⟩
  | boundary point =>
    refine Or.inr ⟨_, move?_ended hactive₃ point, Or.inr ?_⟩
    rw [hworks.task]
    rfl

/-- A scope of its own. -/
def ownScope : Scope := ⟨⟨0, []⟩, none⟩

/-- The model asks for the time once, and the tool tells it, while the scope is cancelled. -/
def toldWhileCancelled : List Heard :=
  [.reply ⟨⟨0, [0]⟩, 1⟩ (.ok (.toolUse [⟨"1", "clock", []⟩] 4)), .output ⟨⟨0, [0]⟩, 2⟩ (.ok "noon")]

theorem cancelled_at_boundary_toldWhileCancelled :
    (new clockAndShell 2).Tidy ∧ askTheTime.validate = .ok () ∧
    ∃ n e₁ e₃, (new clockAndShell 2).enter askTheTime ownScope {} 0 = .ok (n, e₁) ∧
      Amid n e₁ toldWhileCancelled e₃ ∧ (∀ q, e₃.move? n ≠ some (.ask q)) ∧
      e₃.move? n = some (.finish cancelledEnding) := by
  have he := tidy_new clockAndShell 2
  have hv : askTheTime.validate = .ok () := rfl
  obtain ⟨n, e₁, henter, -, hlater⟩ :=
    cancelled_at_boundary (new clockAndShell 2) askTheTime ownScope ⟨{}, 0⟩ he hv rfl
  cases henter
  obtain ⟨-, hasks, -, -⟩ := hlater [] _ _ 1 {} (ownScope.cancel {}) toldWhileCancelled _ (.nil _) rfl rfl
    .scope (by decide) (.hears rfl (.hears rfl (.nil _)))
  exact ⟨he, hv, _, _, _, rfl, .hears rfl (.hears rfl (.nil _)), hasks (List.cons_ne_nil _ _), rfl⟩

/-- In the last iteration that is permitted the cancellation goes unseen: nothing in the iteration ends the
run, and still it is not reported as cancelled. -/
theorem cancellation_unseen :
    ∃ n e₁ r e₃, (new clockAndShell 1).enter askTheTime ownScope {} 0 = .ok (n, e₁) ∧
      e₁.active? n = some ⟨ownScope, r⟩ ∧ r.point.iteration? = some 1 ∧
      (∀ h ∈ toldWhileCancelled, ownScope.isCancelled h.moment.signals = true) ∧
      Amid n e₁ toldWhileCancelled e₃ ∧ e₃.move? n = some (.finish (ceilingEnding 1)) ∧
      ¬r.EndsItself ownScope 1 toldWhileCancelled (ceilingEnding 1) := by
  refine ⟨0, _, _, _, rfl, rfl, rfl, by decide, .hears rfl (.hears rfl (.nil _)), rfl, fun hends => ?_⟩
  obtain ⟨before, h, r', hheard, hhear, -, hexit⟩ := hends
  have happend : before ++ [h] = [toldWhileCancelled[0]] ++ [toldWhileCancelled[1]] := hheard.symm
  obtain ⟨rfl, hlast⟩ := List.append_inj' happend rfl
  cases hlast
  cases hhear
  cases Run.Exit.status_of_last hexit rfl

end Executor

end Overseer.Agent

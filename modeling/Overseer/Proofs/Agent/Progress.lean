import Mathlib.Data.List.Induction
import Overseer.Proofs.Agent.Cancellation

/-!
# The progress of a run

A run that goes on has taken note of an answer and waits for the next one. What holds of a run when it
begins, and is kept whenever it goes on, holds of it for as long as it is at work; a run that has ended has
been at work until the last answer that it heard.

* `Run.noted`, `Run.hear?_noted`: what a run takes note of, however it goes on.
* `Executor.progress`: the induction over all that a run has heard.
* `Executor.ended_cases`: a run that has ended did so where it began, or by its last answer.
-/
namespace Overseer.Agent

theorem invoked_append (ms ms' : List Move) : invoked (ms ++ ms') = invoked ms ++ invoked ms' :=
  List.filterMap_append

theorem requested_append (ms ms' : List Move) : requested (ms ++ ms') = requested ms ++ requested ms' :=
  List.filterMap_append

namespace Run

variable {scope : Scope} {r r₁ r' : Run} {h : Heard} {heard : List Heard}

theorem ended_of_move {e : Ending} (h : r.move = .finish e) : r.point = .ended e := by
  unfold move at h
  split at h <;> cases h
  assumption

theorem iterate_point (r : Run) (s : Sight) (i : Nat) :
    r.iterate s i = { r with point := (r.iterate s i).point } := by
  unfold iterate
  repeat' split
  all_goals rfl

theorem proceed_point (r : Run) (s : Sight) (i : Nat) (calls : List ToolCall) :
    r.proceed s i calls = { r with point := (r.proceed s i calls).point } := by
  cases calls with
  | nil =>
    simp only [proceed]
    split
    · rfl
    · exact iterate_point _ _ _
  | cons call more =>
    simp only [proceed]
    split
    · rfl
    split <;> rfl

/-- The run once it has taken note of an answer, before it is settled how it goes on. -/
def noted (scope : Scope) (r : Run) : Heard → Run
  | .reply m (.ok a) =>
    match r.point with
    | .asking i asked =>
      if r.limits.AllowsTokens (addTokens r.tokens a.usage.totalTokens) then
        r.accepted (m.sight scope) i asked a
      else { r with tokens := addTokens r.tokens a.usage.totalTokens }
    | _ => r
  | .output _ (.ok text) =>
    match r.point with
    | .calling _ call _ => r.answered call text
    | _ => r
  | _ => r

/-- However a run goes on, it has taken note of the answer, and of nothing else. -/
theorem hear?_noted (hear : r.hear? scope h = some r') : r' = { r.noted scope h with point := r'.point } := by
  cases hear?_iff.mp hear with
  | noReply | noOutput => rfl
  | output point =>
    simp only [noted, point]
    exact proceed_point _ _ _ _
  | @reply m a i asked point =>
    have hexceeds :
        Limits.exceeds (addTokens r.tokens a.usage.totalTokens) r.limits.tokenLimit = false ↔
          r.limits.AllowsTokens (addTokens r.tokens a.usage.totalTokens) := Limits.exceeds_positive
    simp only [accept, noted, point, ← hexceeds]
    split
    · rename_i hover
      rw [if_neg (by simp [hover])]
      rfl
    rename_i hover
    rw [if_pos (Bool.eq_false_iff.mpr hover)]
    split
    · rfl
    · exact proceed_point _ _ _ _

theorem hearAll?_concat : r.hearAll? scope (heard ++ [h]) = (r.hearAll? scope heard).bind (·.hear? scope h) := by
  induction heard generalizing r with
  | nil => simp [hearAll?]
  | cons x rest ih =>
    rw [List.cons_append, hearAll?, hearAll?]
    cases r.hear? scope x with
    | none => rfl
    | some r₁ => exact ih

theorem moves_concat (hh : r.hearAll? scope heard = some r₁) (hear : r₁.hear? scope h = some r') :
    r.moves scope (heard ++ [h]) = r.moves scope heard ++ [r'.move] := by
  induction heard generalizing r with
  | nil =>
    cases hh
    simp [moves, hear]
  | cons x rest ih =>
    obtain ⟨r₂, hx, hrest⟩ := Option.bind_eq_some_iff.mp hh
    rw [List.cons_append, moves, moves, hx]
    simp only [ih hrest, List.cons_append]

/-- A run that has heard something last was not ended before. -/
theorem of_hearAll?_concat (hh : r.hearAll? scope (heard ++ [h]) = some r') :
    ∃ r₁, r.hearAll? scope heard = some r₁ ∧ r₁.hear? scope h = some r' ∧ ∀ e, r₁.point ≠ .ended e := by
  rw [hearAll?_concat] at hh
  obtain ⟨r₁, hr₁, hear⟩ := Option.bind_eq_some_iff.mp hh
  refine ⟨r₁, hr₁, hear, fun e he => ?_⟩
  rw [hear?_ended he] at hear
  cases hear

/-- A run of a task that has begun and asked the model for the first time. -/
def opening (task : Task) (s : Sight) : Run := ⟨task, s.now, task.context.history, [], 0, 0, .asking 1 s.now⟩

/-- A run is ended where it begins, or asks the model. -/
theorem start_cases (task : Task) (s : Sight) :
    (∃ e, (start task s).point = .ended e) ∨ start task s = opening task s := by
  unfold start
  exact iterate_cases _ s 1

end Run

namespace Executor

variable {e : Executor} {c : Context} {scope : Scope} {s : Sight} {heard : List Heard} {r : Run}

/-- What holds of a run of a valid context when it has begun, and is kept whenever it goes on, holds of it
after all that it has heard and all that it has asked for, until it ends. -/
theorem progress (hv : c.validate = .ok ()) {P : List Heard → List Move → Run → Prop}
    (opens : P [] [(Run.opening (Task.of c e.tools e.maxIterations) s).move]
      (Run.opening (Task.of c e.tools e.maxIterations) s))
    (goesOn : ∀ heard moves r h i r₁ calls, r.Works (Task.of c e.tools e.maxIterations) → P heard moves r →
      r.Notes scope h i r₁ calls →
      P (heard ++ [h]) (moves ++ [Run.move { r₁ with point := .after i h.moment.now calls }])
        { r₁ with point := .after i h.moment.now calls })
    (hh : (Run.start (Task.of c e.tools e.maxIterations) s).hearAll? scope heard = some r)
    (hp : ∀ ending, r.point ≠ .ended ending) :
    P heard ((Run.start (Task.of c e.tools e.maxIterations) s).moves scope heard) r := by
  -- on what is heard, the last answer apart: before it the run was at work
  induction heard using List.reverseRecOn generalizing r with
  | nil =>
    cases hh
    rcases Run.start_cases (Task.of c e.tools e.maxIterations) s with ⟨ending, hended⟩ | heq
    · exact absurd hended (hp ending)
    · rw [heq]; exact opens
  | append_singleton before h ih =>
    obtain ⟨r₀, hbefore, hear, hnot⟩ := Run.of_hearAll?_concat hh
    have hworks := works_of_start hv hbefore hnot
    have hz := hworks.timed (Context.timeout_of_validate hv)
    obtain ⟨i, r₁, calls, notes, rfl, -⟩ := (Run.hears_of_hear? hworks.sober hz hear).next hp
    rw [Run.moves_concat hbefore hear]
    exact goesOn _ _ _ _ _ _ _ hworks (ih hbefore hnot) notes

/-- A run that has ended did so where it began, or was at work until its last answer. -/
theorem ended_cases {task : Task} {ending : Ending}
    (hh : (Run.start task s).hearAll? scope heard = some r) (hp : r.point = .ended ending) :
    (heard = [] ∧ r = Run.start task s) ∨
      ∃ before h r₁, heard = before ++ [h] ∧ (Run.start task s).hearAll? scope before = some r₁ ∧
        r₁.hear? scope h = some r ∧ ∀ ending, r₁.point ≠ .ended ending := by
  rcases List.eq_nil_or_concat heard with rfl | ⟨before, h, rfl⟩
  · cases hh; exact Or.inl ⟨rfl, rfl⟩
  · rw [List.concat_eq_append] at hh ⊢
    obtain ⟨r₁, hbefore, hear, hnot⟩ := Run.of_hearAll?_concat hh
    exact Or.inr ⟨before, h, r₁, rfl, hbefore, hear, hnot⟩

end Executor

end Overseer.Agent

import Overseer.Proofs.Agent.Progress

/-!
# A run in its surroundings

What a run hears is up to the model and the tools, and to the time that they take. Here they answer by what
the run has asked for so far: what an answer is, when it comes and which tokens have been raised by then are
functions of that. In given surroundings a run has one course, and it comes to an end.

* `Executor.ExecutesIn`: an execution, in some surroundings.
* `Run.EndsIn`: the same for a run by itself, one answer after the other.
* `Run.EndsIn.unique`, `Run.exists_endsIn`: there is exactly one.
* `Executor.executesIn_iff`: an execution is the run of its context by itself.
-/
namespace Overseer

/-- The two records tell the same, but for the time of day and how long the run took. -/
def Record.Agrees (rec rec' : Record) : Prop :=
  rec' = { rec with executionTime := rec'.executionTime, completedAt := rec'.completedAt }

namespace Agent

/-- What answers a run: by the moves that it has made before, and by what it asks for now. -/
structure Surroundings where
  reply : List Move → ChatRequest → Moment × Except ModelError ChatResponse
  output : List Move → ToolCall → Moment × Except ToolError String

namespace Surroundings

variable (w : Surroundings)

/-- The answer to a move. -/
def answer? (asked : List Move) : Move → Option Heard
  | .ask request => some (.reply (w.reply asked request).1 (w.reply asked request).2)
  | .invoke call => some (.output (w.output asked call).1 (w.output asked call).2)
  | .finish _ => none

/-- After the moves `asked`, these answers are given to these moves, one after the other. -/
def Gives : List Move → List Move → List Heard → Prop
  | _, _, [] => True
  | _, [], _ :: _ => False
  | asked, move :: moves, h :: heard => w.answer? asked move = some h ∧ Gives (asked ++ [move]) moves heard

end Surroundings

/-- A context is executed from the moment `m₀` on, in some surroundings and beside other runs: its run enters,
makes these moves and hears these answers to them, comes to an ending, and leaves this record. -/
def Executor.ExecutesIn (e : Executor) (w : Surroundings) (c : Context) (scope : Scope) (m₀ : Moment)
    (heard : List Heard) (moves : List Move) (rec : Record) : Prop :=
  ∃ n e₁ e₂ ending now time, e.enter c scope m₀.signals m₀.now = .ok (n, e₁) ∧ Executor.Amid n e₁ heard e₂ ∧
    moves = e₁.moves n heard ∧ w.Gives [] moves heard ∧ e₂.move? n = some (.finish ending) ∧
    e₂.record? n ending now time = some rec

/-! ## A run by itself -/

namespace Run

variable {w : Surroundings} {task : Task} {scope : Scope} {asked : List Move} {heard heard' : List Heard}
  {h : Heard} {r r₁ r' r'' : Run}

/-- A run that has made the moves `asked` before hears these answers in its surroundings, and has ended then. -/
inductive EndsIn (w : Surroundings) (scope : Scope) : List Move → Run → List Heard → Run → Prop where
  | ended {asked : List Move} {r : Run} {e : Ending} (point : r.point = .ended e) : EndsIn w scope asked r [] r
  | hears {asked : List Move} {r r₁ r' : Run} {h : Heard} {heard : List Heard}
      (answer : w.answer? asked r.move = some h) (hear : r.hear? scope h = some r₁)
      (goesOn : EndsIn w scope (asked ++ [r.move]) r₁ heard r') : EndsIn w scope asked r (h :: heard) r'

theorem moves_cons (hear : r.hear? scope h = some r₁) (heard : List Heard) :
    r.moves scope (h :: heard) = r.move :: r₁.moves scope heard := by
  rw [moves, hear]

theorem endsIn_iff : r.EndsIn w scope asked heard r' ↔
    r.hearAll? scope heard = some r' ∧ w.Gives asked (r.moves scope heard) heard ∧
      ∃ e, r'.point = .ended e := by
  constructor
  · intro hends
    induction hends with
    | ended point => exact ⟨rfl, trivial, _, point⟩
    | hears answer hear _ ih =>
      obtain ⟨hhear, hgives, hended⟩ := ih
      rw [moves_cons hear, hearAll?, hear]
      exact ⟨hhear, ⟨answer, hgives⟩, hended⟩
  · rintro ⟨hhear, hgives, e, hended⟩
    induction heard generalizing r asked with
    | nil => cases hhear; exact .ended hended
    | cons h heard ih =>
      obtain ⟨r₁, hear, hrest⟩ := Option.bind_eq_some_iff.mp hhear
      rw [moves_cons hear] at hgives
      exact .hears hgives.1 hear (ih hrest hgives.2)

/-- What a run waits for is answered, unless it has ended. -/
theorem exists_answer (w : Surroundings) (scope : Scope) (asked : List Move) (hp : ∀ e, r.point ≠ .ended e) :
    ∃ h r₁, w.answer? asked r.move = some h ∧ r.hear? scope h = some r₁ := by
  cases point : r.point with
  | ended e => exact absurd point (hp e)
  | _ => exact ⟨_, _, by rw [move, point]; rfl, by rw [hear?, point]⟩

/-- In given surroundings a run hears one sequence of answers. -/
theorem EndsIn.unique (hends : r.EndsIn w scope asked heard r') (hends' : r.EndsIn w scope asked heard' r'') :
    heard' = heard ∧ r'' = r' := by
  induction hends generalizing heard' r'' with
  | ended point =>
    cases hends' with
    | ended => exact ⟨rfl, rfl⟩
    | hears _ hear => rw [hear?_ended point] at hear; cases hear
  | hears answer hear _ ih =>
    cases hends' with
    | ended point => rw [hear?_ended point] at hear; cases hear
    | hears answer' hear' goesOn' =>
      cases answer.symm.trans answer'
      cases hear.symm.trans hear'
      obtain ⟨rfl, rfl⟩ := ih goesOn'
      exact ⟨rfl, rfl⟩

/-- What is ahead of a run at most: half iterations, and calls in the one that it is in. -/
def ahead (r : Run) : Nat × Nat :=
  match r.point with
  | .asking i _ => (2 * (r.task.maxIterations - i) + 1, 0)
  | .calling i _ more => (2 * (r.task.maxIterations - i), more.length)
  | .ended _ => (0, 0)

/-- Every answer takes a run nearer to its end. -/
theorem Works.ahead_lt (hz : task.context.limits.timeout.isZero = false) (hr : r.Works task)
    (hear : r.hear? scope h = some r') (hp : ∀ e, r'.point ≠ .ended e) :
    Prod.Lex (· < ·) (· < ·) r'.ahead r.ahead := by
  have hr' := hr.hear hz hear hp
  obtain ⟨i, r₁, calls, notes, rfl, -⟩ := (hears_of_hear? hr.sober (hr.timed hz) hear).next hp
  have htask := notes.task_eq
  cases notes with
  | @reply m a _ asked point _ hne =>
    obtain ⟨call, more, hcalls⟩ := List.exists_cons_of_ne_nil hne
    simp only [ahead, hcalls, Point.after, point, htask]
    exact .left _ _ (Nat.lt_succ_self _)
  | output point =>
    cases calls with
    | nil =>
      have hle : i + 1 ≤ task.maxIterations := hr'.permitted _ rfl
      simp only [ahead, Point.after, point, htask, hr.task]
      exact .left _ _ (by omega)
    | cons call more =>
      simp only [ahead, Point.after, point, htask]
      exact .right _ (Nat.lt_succ_self _)

/-- A run at work comes to an end, whatever surrounds it. -/
theorem exists_endsIn (w : Surroundings) (scope : Scope) (hz : task.context.limits.timeout.isZero = false)
    (hr : r.Works task) (asked : List Move) : ∃ heard r', r.EndsIn w scope asked heard r' := by
  -- on what is ahead of the run
  induction hn : r.ahead using (Prod.lex Nat.lt_wfRel Nat.lt_wfRel).wf.induction generalizing r asked with
  | _ _ ih =>
    by_cases hp : ∃ e, r.point = .ended e
    · obtain ⟨e, he⟩ := hp
      exact ⟨[], r, .ended he⟩
    obtain ⟨h, r₁, answer, hear⟩ := exists_answer w scope asked fun e he => hp ⟨e, he⟩
    by_cases hp₁ : ∃ e, r₁.point = .ended e
    · obtain ⟨e, he⟩ := hp₁
      exact ⟨[h], r₁, .hears answer hear (.ended he)⟩
    have hnot : ∀ e, r₁.point ≠ .ended e := fun e he => hp₁ ⟨e, he⟩
    obtain ⟨heard, r', hends⟩ :=
      ih r₁.ahead (hn ▸ hr.ahead_lt hz hear hnot) (hr.hear hz hear hnot) (asked ++ [r.move]) rfl
    exact ⟨h :: heard, r', .hears answer hear hends⟩

end Run

/-! ## Runs of an executor -/

namespace Executor

variable {e : Executor} {w : Surroundings} {c : Context} {scope : Scope} {m₀ : Moment} {heard : List Heard}
  {moves : List Move} {rec : Record}

theorem amid_of_hearAll? {e' : Executor} {n : Nat} (h : e.hearAll? n heard = some e') : Amid n e heard e' := by
  induction heard generalizing e with
  | nil => cases h; exact .nil _
  | cons x rest ih =>
    obtain ⟨e₁, hear, hrest⟩ := Option.bind_eq_some_iff.mp h
    exact .hears hear (ih hrest)

/-- An execution of a valid context whose id is not in flight is its run by itself. -/
theorem executesIn_iff (hv : c.validate = .ok ()) (hfree : e.inFlight.lookup c.id = none) :
    e.ExecutesIn w c scope m₀ heard moves rec ↔
      ∃ r ending now time,
        (Run.start (Task.of c e.tools e.maxIterations) (m₀.sight scope)).EndsIn w scope [] heard r ∧
        r.point = .ended ending ∧
        moves = (Run.start (Task.of c e.tools e.maxIterations) (m₀.sight scope)).moves scope heard ∧
        rec = r.record ending now time := by
  obtain ⟨e₁, henter, hactive⟩ := enter_ok scope m₀ hv hfree
  constructor
  · rintro ⟨n, e₁', e₂, ending, now, time, henter', hamid, rfl, hgives, hmove, hrec⟩
    rw [henter] at henter'
    cases henter'
    obtain ⟨r, hhear, hactive₂⟩ := hamid.run hactive
    rw [move?, hactive₂] at hmove
    rw [record?, hactive₂] at hrec
    rw [moves_eq hactive] at hgives ⊢
    have hpoint := Run.ended_of_move (Option.some.inj hmove)
    exact ⟨r, ending, now, time, Run.endsIn_iff.mpr ⟨hhear, hgives, _, hpoint⟩, hpoint, rfl,
      (Option.some.inj hrec).symm⟩
  · rintro ⟨r, ending, now, time, hends, hpoint, rfl, rfl⟩
    obtain ⟨hhear, hgives, -⟩ := Run.endsIn_iff.mp hends
    obtain ⟨e₂, hhear₂, hactive₂⟩ := (hearAll?_spec hactive heard).1 r hhear
    refine ⟨_, e₁, e₂, ending, now, time, henter, amid_of_hearAll? hhear₂, (moves_eq hactive heard).symm,
      hgives, move?_ended hactive₂ hpoint, ?_⟩
    rw [record?, hactive₂]
    rfl

/-- The run of a valid context comes to an end, whatever surrounds it. -/
theorem exists_executesIn (w : Surroundings) (scope : Scope) (m₀ : Moment) (hv : c.validate = .ok ())
    (hfree : e.inFlight.lookup c.id = none) : ∃ heard moves rec, e.ExecutesIn w c scope m₀ heard moves rec := by
  have hend : ∃ heard r,
      (Run.start (Task.of c e.tools e.maxIterations) (m₀.sight scope)).EndsIn w scope [] heard r := by
    by_cases hp : ∃ ending, (Run.start (Task.of c e.tools e.maxIterations) (m₀.sight scope)).point = .ended ending
    · obtain ⟨ending, hended⟩ := hp
      exact ⟨[], _, .ended hended⟩
    · have hworks := works_of_start hv (Run.hearAll?.eq_1 scope _) fun ending hended => hp ⟨ending, hended⟩
      exact Run.exists_endsIn w scope (Context.timeout_of_validate hv) hworks []
  obtain ⟨heard, r, hends⟩ := hend
  obtain ⟨-, -, ending, hended⟩ := Run.endsIn_iff.mp hends
  exact ⟨heard, _, _, (executesIn_iff hv hfree).mpr ⟨r, ending, m₀.now, default, hends, hended, rfl, rfl⟩⟩

/-- The model asks for the time, the clock tells it at `t`, and the model answers at once. -/
def clockAt (t : Instant) : Surroundings where
  reply
    | [], _ => (⟨{ fresh := 2 }, 0⟩, .ok theTime.answer)
    | _ :: _, _ => (⟨{ fresh := 2 }, t⟩, .ok (.endTurn "It is noon." 5))
  output _ _ := (⟨{ fresh := 2 }, t⟩, .ok "noon")

/-- What is heard then. -/
def toldAt (t : Instant) : List Heard :=
  [.reply ⟨{ fresh := 2 }, 0⟩ (.ok theTime.answer), .output ⟨{ fresh := 2 }, t⟩ (.ok "noon"),
    .reply ⟨{ fresh := 2 }, t⟩ (.ok (.endTurn "It is noon." 5))]

end Executor

end Agent

end Overseer

import Overseer.Proofs.Agent.Surroundings

/-!
# The two ways to run out of time

A run is out of time when more has gone by than its limits allow, and when the deadline of its scope has
come. With a deadline as far away as the limit, the two differ in one instant: a run that has used up its
time exactly is within its limits, and at its deadline. So a deadline changes nothing, unless an iteration
begins at that instant; there it stops a run that would go on without it.

* `Run.Parts`, `Run.hear?_parts`: one answer, with the deadline and without it.
* `Run.EndsIn.parts`: a whole run, by induction on what it hears.
* `Executor.timeouts_agree`: the two executions of a context.
* `Executor.timeouts_differ`: they are not always the same.
-/
namespace Overseer

/-- A child of a scope without a deadline has its own. -/
theorem Scope.deadline_child? {parent child : Scope} {s s' : Signals} {now : Instant} {d : Duration}
    (hparent : parent.deadline = none) (h : parent.child? s now d = some (child, s')) :
    child.deadline = some (now + d.nanos) ∧ Instant.Representable (now + d.nanos) := by
  unfold Scope.child? Instant.after? at h
  split at h
  · cases h
  · rename_i own hown
    split at hown
    · cases hown
      cases h
      exact ⟨by rw [hparent]; rfl, ‹_›⟩
    · cases hown

namespace Agent

/-! ## Time -/

/-- How a run ends that has come to its deadline, when `d` has gone by. -/
def overdue (d : Duration) : Ending := ⟨.timeout, "", "deadline exceeded after " ++ d.text⟩

/-- The time that is allowed is over, and not more than that has gone by. -/
theorem elapsed_eq {t₀ now : Nat} {d : Duration} (hd : Instant.Representable (t₀ + d.nanos))
    (hdue : t₀ + d.nanos ≤ now) (hin : Instant.since now t₀ ≤ d) :
    now = t₀ + d.nanos ∧ Instant.since now t₀ = d := by
  have hbound : d.nanos + 1 < Duration.bound := by
    have hlt : t₀ + d.nanos < Word.half64 * nanosPerSecond := (Nat.div_lt_iff_lt_mul (by decide)).mp hd
    have hmax : Word.half64 * nanosPerSecond + 1 < Duration.bound := by decide
    omega
  have hin : (Duration.ofNanos (now - t₀)).nanos ≤ d.nanos := hin
  unfold Duration.ofNanos at hin
  split at hin
  · rename_i hlt
    have hnow : now = t₀ + d.nanos := by
      have hin : now - t₀ ≤ d.nanos := hin
      omega
    refine ⟨hnow, Duration.eq_of_nanos ?_⟩
    rw [Instant.since, Duration.nanos_ofNanos hlt, hnow, Nat.add_sub_cancel_left]
  · have hin : Duration.bound - 1 ≤ d.nanos := hin
    omega

/-! ## Requests at an instant -/

/-- After the answer with the index `k`, which comes at `t`, the model is asked. -/
def AsksAt (t : Instant) (k : Nat) (heard : List Heard) (moves : List Move) : Prop :=
  ∃ h q, heard[k]? = some h ∧ h.moment.now = t ∧ moves[k + 1]? = some (.ask q)

/-- And after no answer before. -/
def AsksFirstAt (t : Instant) (k : Nat) (heard : List Heard) (moves : List Move) : Prop :=
  AsksAt t k heard moves ∧ ∀ j < k, ¬AsksAt t j heard moves

section

variable {t : Instant} {j k : Nat} {h : Heard} {heard : List Heard} {move : Move} {moves : List Move}

theorem asksAt_succ : AsksAt t (k + 1) (h :: heard) (move :: moves) ↔ AsksAt t k heard moves := Iff.rfl

theorem not_asksAt_cons (hzero : ¬AsksAt t 0 (h :: heard) (move :: moves)) (hnone : ∀ k, ¬AsksAt t k heard moves)
    (k : Nat) : ¬AsksAt t k (h :: heard) (move :: moves) := by
  cases k with
  | zero => exact hzero
  | succ k => exact fun hk => hnone k (asksAt_succ.mp hk)

theorem AsksFirstAt.cons (hzero : ¬AsksAt t 0 (h :: heard) (move :: moves)) (hk : AsksFirstAt t k heard moves) :
    AsksFirstAt t (k + 1) (h :: heard) (move :: moves) := by
  refine ⟨asksAt_succ.mpr hk.1, fun j hj => ?_⟩
  cases j with
  | zero => exact hzero
  | succ j => exact fun hasks => hk.2 j (Nat.lt_of_succ_lt_succ hj) (asksAt_succ.mp hasks)

theorem AsksFirstAt.unique (hj : AsksFirstAt t j heard moves) (hk : AsksFirstAt t k heard moves) : j = k := by
  rcases Nat.lt_trichotomy j k with hlt | heq | hlt
  · exact absurd hj.1 (hk.2 j hlt)
  · exact heq
  · exact absurd hk.1 (hj.2 k hlt)

end

/-! ## Scopes -/

/-- The scope is not cancelled at the moment `m₀`, nor when an answer comes. -/
structure Surroundings.Quiet (w : Surroundings) (m₀ : Moment) (scope : Scope) : Prop where
  first : scope.isCancelled m₀.signals = false
  reply : ∀ asked q, scope.isCancelled (w.reply asked q).1.signals = false
  output : ∀ asked call, scope.isCancelled (w.output asked call).1.signals = false

theorem Surroundings.Quiet.moment {w : Surroundings} {m₀ : Moment} {scope : Scope} (hw : w.Quiet m₀ scope)
    {asked : List Move} {move : Move} {h : Heard} (answer : w.answer? asked move = some h) :
    scope.isCancelled h.moment.signals = false := by
  cases move with
  | ask q => cases answer; exact hw.reply _ _
  | invoke call => cases answer; exact hw.output _ _
  | finish e => cases answer

/-- One scope has no deadline, the other has it `d` after `m₀`, and neither is cancelled. -/
structure Setting (w : Surroundings) (m₀ : Moment) (d : Duration) (bare child : Scope) : Prop where
  endless : bare.deadline = none
  due : child.deadline = some (m₀.now + d.nanos)
  shown : Instant.Representable (m₀.now + d.nanos)
  quietBare : w.Quiet m₀ bare
  quietChild : w.Quiet m₀ child

/-- Under the two scopes a run sees the same, but for the deadline. -/
theorem Setting.sight {w : Surroundings} {m₀ m : Moment} {d : Duration} {bare child : Scope}
    (hset : Setting w m₀ d bare child) (hbare : bare.isCancelled m.signals = false)
    (hchild : child.isCancelled m.signals = false) :
    m.sight bare = ⟨m.now, false, false⟩ ∧ m.sight child = ⟨m.now, false, decide (m₀.now + d.nanos ≤ m.now)⟩ := by
  simp [Moment.sight, Sight.of, hbare, hchild, Scope.isExpired, hset.endless, hset.due]

/-! ## One answer -/

namespace Run

variable {w : Surroundings} {bare child : Scope} {m₀ : Moment} {d : Duration} {asked : List Move}
  {heard : List Heard} {h : Heard} {r r₁ r' : Run} {s : Sight}

/-- What becomes of a run without a deadline and with one, when the two have heard the same: they are the
same, or the deadline is there and one has been stopped where the other asks the model in time. -/
inductive Parts (s : Sight) : Run → Run → Prop where
  | same {r : Run} (goesOn : s.expired = true → ∀ q, r.move ≠ .ask q) : Parts s r r
  | due {r : Run} {i : Nat} (expired : s.expired = true) (inTime : r.elapsed s ≤ r.limits.timeout)
      (point : r.point = .asking i s.now) : Parts s r { r with point := .ended (overdue (r.elapsed s)) }

theorem Parts.ended {e : Ending} (hp : r.point = .ended e) : Parts s r r :=
  .same fun _ q hq => by rw [move_ended hp] at hq; cases hq

theorem iterate_parts (hc : s.cancelled = false) (hin : r.elapsed s ≤ r.limits.timeout)
    (hok : r.limits.check r.tokens r.toolCalls (r.elapsed s) = .ok ()) (i : Nat) :
    Parts s (r.iterate { s with expired := false } i) (r.iterate s i) := by
  have hok' : r.limits.check r.tokens r.toolCalls (r.elapsed { s with expired := false }) = .ok () := hok
  by_cases hi : r.task.maxIterations < i
  · rw [iterate, iterate, if_pos hi, if_pos hi]
    exact .ended rfl
  have hasks : r.iterate { s with expired := false } i = { r with point := .asking i s.now } := by
    rw [iterate, if_neg hi, hok']
    simp [hc]
  rw [hasks]
  cases he : s.expired with
  | false =>
    have hsight : { s with expired := false } = s := by rw [← he]
    rw [hsight] at hasks
    rw [hasks]
    exact .same fun h => by rw [he] at h; cases h
  | true =>
    rw [iterate, if_neg hi, hc, he]
    exact .due (i := i) he hin rfl

theorem proceed_parts (hz : r.limits.timeout.isZero = false) (hc : s.cancelled = false) (i : Nat)
    (calls : List ToolCall) : Parts s (r.proceed { s with expired := false } i calls) (r.proceed s i calls) := by
  cases calls with
  | nil =>
    simp only [proceed]
    have hsame : r.elapsed { s with expired := false } = r.elapsed s := rfl
    rw [hsame]
    split
    · exact .ended rfl
    · rename_i hok
      exact iterate_parts hc ((Limits.check_ok hz).mp hok).2.2 hok (i + 1)
  | cons call more =>
    simp only [proceed]
    split
    · exact .ended rfl
    split
    · exact .ended rfl
    · exact .same fun _ q hq => by cases hq

theorem accept_parts (hz : r.limits.timeout.isZero = false) (hc : s.cancelled = false) (i : Nat)
    (asked : Instant) (a : ChatResponse) :
    Parts s (r.accept { s with expired := false } i asked a) (r.accept s i asked a) := by
  simp only [accept]
  split
  · exact .ended rfl
  split
  · exact .ended rfl
  · exact proceed_parts (r := r.accepted s i asked a) hz hc i a.toolCalls

/-- Every answer leaves the two the same, or parts them for good. -/
theorem hear?_parts (child : Scope) (hz : r.limits.timeout.isZero = false)
    (hbare : h.moment.sight bare = { h.moment.sight child with expired := false })
    (hc : (h.moment.sight child).cancelled = false) (hear : r.hear? bare h = some r₁) :
    ∃ r₂, r.hear? child h = some r₂ ∧ Parts (h.moment.sight child) r₁ r₂ := by
  cases hear?_iff.mp hear with
  | noReply point => exact ⟨_, hear?_iff.mpr (.noReply point), .ended rfl⟩
  | noOutput point => exact ⟨_, hear?_iff.mpr (.noOutput point), .ended rfl⟩
  | @reply m a i asked point =>
    refine ⟨_, hear?_iff.mpr (.reply point), ?_⟩
    rw [show m.sight bare = { m.sight child with expired := false } from hbare]
    exact accept_parts hz hc i asked a
  | @output m text i call more point =>
    refine ⟨_, hear?_iff.mpr (.output point), ?_⟩
    rw [show m.sight bare = { m.sight child with expired := false } from hbare]
    exact proceed_parts (r := r.answered call text) hz hc i more

theorem started_hear? {scope : Scope} (hear : r.hear? scope h = some r') : r'.started = r.started := by
  rw [hear?_noted hear]
  show (r.noted scope h).started = r.started
  unfold noted
  repeat' split
  all_goals rfl

/-! ## A whole run -/

theorem getElem?_moves_zero (scope : Scope) (r : Run) (heard : List Heard) :
    (r.moves scope heard)[0]? = some r.move := by
  cases heard with
  | nil => rfl
  | cons h rest => rw [moves]; split <;> rfl

/-- A run that comes to its end without a deadline comes to the same end with one, unless it asks the model
when the deadline has just come; the first time that it does, the deadline stops it. -/
theorem EndsIn.parts (hset : Setting w m₀ d bare child) (hz : d.isZero = false) (hlimit : r.limits.timeout = d)
    (hstarted : r.started = m₀.now) (hends : r.EndsIn w bare asked heard r') :
    ((∀ k, ¬AsksAt (m₀.now + d.nanos) k heard (r.moves bare heard)) ∧ r.EndsIn w child asked heard r' ∧
        r.moves child heard = r.moves bare heard) ∨
      ∃ (k : Nat) (r₁ : Run), AsksFirstAt (m₀.now + d.nanos) k heard (r.moves bare heard) ∧
        r.EndsIn w child asked (heard.take (k + 1)) { r₁ with point := .ended (overdue d) } ∧
        r.moves child (heard.take (k + 1)) = (r.moves bare heard).take (k + 1) ++ [.finish (overdue d)] := by
  induction hends with
  | ended point =>
    refine Or.inl ⟨fun k hk => ?_, .ended point, rfl⟩
    obtain ⟨_, _, hnone, _⟩ := hk
    cases hnone
  | @hears asked r r₁ r' h heard answer hear goesOn ih =>
    obtain ⟨hbare, hchild⟩ := hset.sight (hset.quietBare.moment answer) (hset.quietChild.moment answer)
    obtain ⟨r₂, hear', hparts⟩ := hear?_parts child (by rw [hlimit]; exact hz)
      (by rw [hbare, hchild]) (by rw [hchild]) hear
    have hlimit₁ : r₁.limits.timeout = d := by rw [limits, task_hear? hear]; exact hlimit
    have hstarted₁ : r₁.started = m₀.now := (started_hear? hear).trans hstarted
    rw [moves_cons hear]
    cases hparts with
    | same hnot =>
      have hzero : ¬AsksAt (m₀.now + d.nanos) 0 (h :: heard) (r.move :: r₁.moves bare heard) := by
        rintro ⟨h', q, hh, hnow, hq⟩
        cases hh
        refine hnot ?_ q (Option.some.inj ((getElem?_moves_zero _ _ _).symm.trans hq))
        rw [hchild, hnow]
        exact decide_eq_true (Nat.le_refl _)
      rcases ih hlimit₁ hstarted₁ with ⟨hnone, hends, hmoves⟩ | ⟨k, r₃, hfirst, hends, hmoves⟩
      · exact Or.inl ⟨not_asksAt_cons hzero hnone, .hears answer hear' hends, by rw [moves_cons hear', hmoves]⟩
      · refine Or.inr ⟨k + 1, r₃, hfirst.cons hzero, .hears answer hear' hends, ?_⟩
        rw [List.take_succ_cons, moves_cons hear', hmoves]
        rfl
    | due expired inTime point =>
      rw [hchild] at expired
      rw [elapsed, hchild, hstarted₁, hlimit₁] at inTime
      obtain ⟨hnow, helapsed⟩ := elapsed_eq hset.shown (of_decide_eq_true expired) inTime
      have hsame : r₁.elapsed (h.moment.sight child) = d := by rw [elapsed, hchild, hstarted₁]; exact helapsed
      rw [hsame] at hear'
      have hasks : (r₁.moves bare heard)[0]? = some (.ask ⟨r₁.conversation, r₁.task.tools⟩) := by
        rw [getElem?_moves_zero, move, point]
      refine Or.inr ⟨0, r₁, ⟨⟨h, _, rfl, hnow, hasks⟩, fun j hj => absurd hj j.not_lt_zero⟩,
        .hears answer hear' (.ended rfl), ?_⟩
      show r.moves child [h] = [r.move, .finish (overdue d)]
      rw [moves_cons hear']
      rfl

end Run

/-! ## Runs of an executor -/

namespace Executor

/-- A valid context is executed in an executor where its id is not in flight, under a scope without a deadline,
and under a child scope with the time that the context allows, made when the run begins; nothing is cancelled.
Both executions come to an end. They are the same but for the time of day, unless the one without a deadline
asks the model when its time has just been used up. When it does so for the first time, the other has been
stopped there, as out of time. -/
theorem timeouts_agree (e : Executor) (w : Surroundings) (c : Context) (m₀ : Moment) {bare parent child : Scope}
    {s : Signals} (hv : c.validate = .ok ()) (hfree : e.inFlight.lookup c.id = none)
    (hbare : bare.deadline = none) (hparent : parent.deadline = none)
    (hchild : parent.child? s m₀.now c.limits.timeout = some (child, m₀.signals))
    (hquiet : w.Quiet m₀ bare) (hquiet' : w.Quiet m₀ child) :
    (∃ heard moves rec, e.ExecutesIn w c bare m₀ heard moves rec) ∧
      (∃ heard moves rec, e.ExecutesIn w c child m₀ heard moves rec) ∧
      ∀ heard moves rec heard' moves' rec', e.ExecutesIn w c bare m₀ heard moves rec →
        e.ExecutesIn w c child m₀ heard' moves' rec' →
        ((∀ k, ¬AsksAt (m₀.now + c.limits.timeout.nanos) k heard moves) →
          heard' = heard ∧ moves' = moves ∧ rec.Agrees rec') ∧
        ∀ k, AsksFirstAt (m₀.now + c.limits.timeout.nanos) k heard moves →
          heard' = heard.take (k + 1) ∧
            moves' = moves.take (k + 1) ++ [.finish (overdue c.limits.timeout)] ∧ rec'.status = .timeout := by
  refine ⟨exists_executesIn w bare m₀ hv hfree, exists_executesIn w child m₀ hv hfree,
    fun heard moves rec heard' moves' rec' h h' => ?_⟩
  obtain ⟨hdeadline, hshown⟩ := Scope.deadline_child? hparent hchild
  have hset : Setting w m₀ c.limits.timeout bare child := ⟨hbare, hdeadline, hshown, hquiet, hquiet'⟩
  have hz : c.limits.timeout.isZero = false := Context.timeout_of_validate hv
  -- the run begins before its deadline
  have hsight : m₀.sight child = m₀.sight bare := by
    obtain ⟨hb, hc⟩ := hset.sight hquiet.first hquiet'.first
    have hpos : 0 < c.limits.timeout.nanos := Nat.pos_of_ne_zero (by simpa [Duration.isZero] using hz)
    have hnot : ¬m₀.now + c.limits.timeout.nanos ≤ m₀.now := Nat.not_le.mpr (Nat.lt_add_of_pos_right hpos)
    rw [hb, hc, decide_eq_false hnot]
  obtain ⟨r, ending, now, time, hends, hended, rfl, rfl⟩ := (executesIn_iff hv hfree).mp h
  obtain ⟨r', ending', now', time', hends', hended', rfl, rfl⟩ := (executesIn_iff hv hfree).mp h'
  rw [hsight] at hends' ⊢
  have hlimit : (Run.start (Task.of c e.tools e.maxIterations) (m₀.sight bare)).limits.timeout =
      c.limits.timeout := by rw [Run.limits, task_start]; rfl
  have hstarted : (Run.start (Task.of c e.tools e.maxIterations) (m₀.sight bare)).started = m₀.now := by
    rw [Run.start, Run.iterate_point]; rfl
  rcases hends.parts hset hz hlimit hstarted with ⟨hnone, hsame, hmoves⟩ | ⟨k, r₁, hfirst, hcut, hmoves⟩
  · obtain ⟨rfl, rfl⟩ := hsame.unique hends'
    cases hended.symm.trans hended'
    exact ⟨fun _ => ⟨rfl, hmoves, rfl⟩, fun k hk => absurd hk.1 (hnone k)⟩
  · obtain ⟨rfl, rfl⟩ := hcut.unique hends'
    refine ⟨fun hnone => absurd hfirst.1 (hnone k), fun j hj => ?_⟩
    obtain rfl := hj.unique hfirst
    cases hended'
    exact ⟨rfl, hmoves, rfl⟩

/-- A scope below `ownScope`, made when the clock begins, for as long as `askTheTime` may take. -/
def timedScope : Scope := ⟨⟨1, [0]⟩, some 300000000000⟩

/-- The clock takes a nanosecond too long, which both find out when it has told the time. -/
theorem timeouts_agree_slowClock :
    askTheTime.validate = .ok () ∧
    ownScope.child? { fresh := 1 } 0 askTheTime.limits.timeout = some (timedScope, { fresh := 2 }) ∧
    ∃ heard moves rec rec',
      (new clockAndShell 2).ExecutesIn (clockAt 300000000001) askTheTime ownScope ⟨{ fresh := 2 }, 0⟩
        heard moves rec ∧ rec.status = .timeout ∧ (∀ k, ¬AsksAt 300000000000 k heard moves) ∧
      (new clockAndShell 2).ExecutesIn (clockAt 300000000001) askTheTime timedScope ⟨{ fresh := 2 }, 0⟩
        heard moves rec' ∧ rec.Agrees rec' := by
  have hv : askTheTime.validate = .ok () := rfl
  have hchild : ownScope.child? { fresh := 1 } 0 askTheTime.limits.timeout =
      some (timedScope, { fresh := 2 }) := rfl
  have hquiet (scope : Scope) (h : scope.isCancelled { fresh := 2 } = false) :
      (clockAt 300000000001).Quiet ⟨{ fresh := 2 }, 0⟩ scope :=
    ⟨h, fun asked _ => by cases asked <;> exact h, fun _ _ => h⟩
  obtain ⟨-, ⟨heard', moves', rec', h'⟩, hall⟩ := timeouts_agree (new clockAndShell 2) (clockAt 300000000001)
    askTheTime ⟨{ fresh := 2 }, 0⟩ hv rfl (rfl : ownScope.deadline = none) rfl hchild (hquiet _ rfl) (hquiet _ rfl)
  have h : (new clockAndShell 2).ExecutesIn (clockAt 300000000001) askTheTime ownScope ⟨{ fresh := 2 }, 0⟩
      ((toldAt 300000000001).take 2) _ _ :=
    ⟨_, _, _, _, 300000000001, default, rfl, .hears rfl (.hears rfl (.nil _)), rfl, ⟨rfl, rfl, trivial⟩, rfl, rfl⟩
  have hnone (moves : List Move) (k : Nat) : ¬AsksAt 300000000000 k ((toldAt 300000000001).take 2) moves := by
    rintro ⟨h, q, hh, hnow, -⟩
    rcases k with _ | _ | k <;> cases hh <;> cases hnow
  obtain ⟨rfl, rfl, hagrees⟩ := (hall _ _ _ _ _ _ h h').1 (hnone _)
  exact ⟨hv, hchild, _, _, _, rec', h, rfl, hnone _, h', hagrees⟩

/-- The clock takes just the time that there is: without a deadline the run goes on and completes, with one it
is stopped. -/
theorem timeouts_differ :
    ownScope.child? { fresh := 1 } 0 askTheTime.limits.timeout = some (timedScope, { fresh := 2 }) ∧
    (∃ moves rec,
      (new clockAndShell 2).ExecutesIn (clockAt 300000000000) askTheTime ownScope ⟨{ fresh := 2 }, 0⟩
        (toldAt 300000000000) moves rec ∧ rec.status = .complete ∧ rec.output = "It is noon.") ∧
    ∃ moves rec,
      (new clockAndShell 2).ExecutesIn (clockAt 300000000000) askTheTime timedScope ⟨{ fresh := 2 }, 0⟩
        ((toldAt 300000000000).take 2) moves rec ∧ rec.status = .timeout ∧ rec.output = "" := by
  have h : (new clockAndShell 2).ExecutesIn (clockAt 300000000000) askTheTime ownScope ⟨{ fresh := 2 }, 0⟩
      (toldAt 300000000000) _ _ :=
    ⟨_, _, _, _, 300000000000, default, rfl, .hears rfl (.hears rfl (.hears rfl (.nil _))), rfl,
      ⟨rfl, rfl, rfl, trivial⟩, rfl, rfl⟩
  have h' : (new clockAndShell 2).ExecutesIn (clockAt 300000000000) askTheTime timedScope ⟨{ fresh := 2 }, 0⟩
      ((toldAt 300000000000).take 2) _ _ :=
    ⟨_, _, _, _, 300000000000, default, rfl, .hears rfl (.hears rfl (.nil _)), rfl, ⟨rfl, rfl, trivial⟩, rfl, rfl⟩
  exact ⟨rfl, ⟨_, _, h, rfl, rfl⟩, _, _, h', rfl, rfl⟩

end Executor

end Agent

end Overseer

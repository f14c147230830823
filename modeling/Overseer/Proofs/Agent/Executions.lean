import Overseer.Agent.Executor

/-!
# Executions

An execution is a run from its entry to its ending, with the answers it heard on the way. Whatever the
model and the tools answer, and whenever the scope is cancelled or expires, is a list of answers, each
with the moment it came at; a run hears an answer only if it waits for one of its kind.

* `Executor.executes_iff`: an execution is the run of its context by itself.
* `Executor.fair_of_executes`: whatever it heard, an execution completes, or it ends in error, cancelled or
  out of time and has no output.
-/
namespace Overseer.Agent

/-- When something happens, and which tokens have been raised by then. -/
structure Moment where
  signals : Signals
  now : Instant

/-- How a scope stands then. -/
def Moment.sight (m : Moment) (scope : Scope) : Sight := Sight.of m.signals m.now scope

/-- An answer, and when it came. -/
inductive Heard where
  | reply (m : Moment) (reply : Except ModelError ChatResponse)
  | output (m : Moment) (output : Except ToolError String)

/-! ## Runs by themselves -/

namespace Run

/-- Goes on with an answer, if it is one of the kind the run waits for. -/
def hear? (scope : Scope) (r : Run) : Heard → Option Run
  | .reply m a =>
    match r.point with
    | .asking _ _ => some (r.hearReply (m.sight scope) a)
    | _ => none
  | .output m o =>
    match r.point with
    | .calling _ _ _ => some (r.hearOutput (m.sight scope) o)
    | _ => none

/-- Goes on with some answers, one after the other. -/
def hearAll? (scope : Scope) (r : Run) : List Heard → Option Run
  | [] => some r
  | h :: rest => (r.hear? scope h).bind fun r' => r'.hearAll? scope rest

end Run

/-- Complete, or stopped without an output. -/
def Ending.Fair (e : Ending) : Prop :=
  e.status = .complete ∨
    ((e.status = .error ∨ e.status = .timeout ∨ e.status = .cancelled) ∧ e.output = "")

namespace Run

/-- If it has ended, it is complete or has been stopped without an output. -/
def Fair (r : Run) : Prop := ∀ e, r.point = .ended e → e.Fair

variable {r : Run} {s : Sight} {scope : Scope}

theorem fair_stop (r : Run) {status : Status} (error : String)
    (h : status = .error ∨ status = .timeout ∨ status = .cancelled) : (r.stop status error).Fair := by
  intro e he
  cases he; exact Or.inr ⟨h, rfl⟩

theorem fair_iterate (r : Run) (s : Sight) (i : Nat) : (r.iterate s i).Fair := by
  unfold iterate
  split
  · exact fair_stop _ _ (by simp)
  split
  · exact fair_stop _ _ (by simp)
  split
  · exact fair_stop _ _ (by simp)
  split
  · exact fair_stop _ _ (by simp)
  · intro e he; cases he

theorem fair_proceed (r : Run) (s : Sight) (i : Nat) (calls : List ToolCall) : (r.proceed s i calls).Fair := by
  cases calls with
  | nil =>
    simp only [proceed]
    split
    · rename_i v _
      exact fair_stop _ _ (by cases v <;> simp [statusOf])
    · exact fair_iterate _ _ _
  | cons call more =>
    simp only [proceed]
    split
    · exact fair_stop _ _ (by simp)
    split
    · exact fair_stop _ _ (by simp)
    · intro e he; cases he

theorem fair_accept (r : Run) (s : Sight) (i : Nat) (asked : Instant) (a : ChatResponse) :
    (r.accept s i asked a).Fair := by
  simp only [accept]
  split
  · exact fair_stop _ _ (by simp)
  split
  · intro e he; cases he; exact Or.inl rfl
  · exact fair_proceed _ _ _ _

theorem fair_hear {h : Heard} {r' : Run} (hear : r.hear? scope h = some r') : r'.Fair := by
  cases h with
  | reply m a =>
    simp only [hear?] at hear
    split at hear <;> cases hear
    rename_i i asked hpoint
    simp only [hearReply, hpoint]
    cases a with
    | error e => exact fair_stop _ _ (by simp)
    | ok a => exact fair_accept _ _ _ _ _
  | output m o =>
    simp only [hear?] at hear
    split at hear <;> cases hear
    rename_i i call more hpoint
    simp only [hearOutput, hpoint]
    cases o with
    | error e => exact fair_stop _ _ (by simp)
    | ok text => exact fair_proceed _ _ _ _

theorem fair_hearAll {heard : List Heard} {r' : Run} (hr : r.Fair) (h : r.hearAll? scope heard = some r') :
    r'.Fair := by
  induction heard generalizing r with
  | nil => cases h; exact hr
  | cons x rest ih =>
    obtain ⟨r₁, h₁, h₂⟩ := Option.bind_eq_some_iff.mp h
    exact ih (fair_hear h₁) h₂

end Run

/-! ## Runs of an executor -/

namespace Executor

/-- A run of an executor goes on with an answer, if it is one of the kind the run waits for. -/
def hear? (e : Executor) (n : Nat) : Heard → Option Executor
  | .reply m a =>
    match e.move? n with
    | some (.ask _) => some (e.hearReply n m.signals m.now a)
    | _ => none
  | .output m o =>
    match e.move? n with
    | some (.invoke _) => some (e.hearOutput n m.signals m.now o)
    | _ => none

def hearAll? (e : Executor) (n : Nat) : List Heard → Option Executor
  | [] => some e
  | h :: rest => (e.hear? n h).bind fun e' => e'.hearAll? n rest

/-- A context is executed from the moment `m₀` on: its run enters, hears some answers, comes to an ending,
and leaves this record. -/
def Executes (e : Executor) (c : Context) (scope : Scope) (m₀ : Moment) (heard : List Heard) (r : Record) :
    Prop :=
  ∃ n e₁ e₂ ending now time, e.enter c scope m₀.signals m₀.now = .ok (n, e₁) ∧
    e₁.hearAll? n heard = some e₂ ∧ e₂.move? n = some (.finish ending) ∧
    e₂.record? n ending now time = some r

variable {e : Executor} {n : Nat} {scope : Scope} {r : Run}

theorem active?_set (hn : n < e.runs.length) (a : Active) :
    active? { e with runs := e.runs.set n (some a) } n = some a := by
  simp [active?, hn]

theorem lt_of_active? {a : Active} (h : e.active? n = some a) : n < e.runs.length := by
  unfold active? at h
  cases hr : e.runs[n]? with
  | none => rw [hr] at h; cases h
  | some x => exact (List.getElem?_eq_some_iff.mp hr).1

theorem hear?_eq (ha : e.active? n = some ⟨scope, r⟩) (h : Heard) :
    e.hear? n h = (r.hear? scope h).map fun r' =>
      { e with runs := e.runs.set n (some ⟨scope, r'⟩) } := by
  cases h <;>
    simp only [hear?, Run.hear?, move?, ha, Option.map_some, Run.move, hearReply, hearOutput, advance] <;>
    cases r.point <;> rfl

theorem hearAll?_spec (ha : e.active? n = some ⟨scope, r⟩) (heard : List Heard) :
    (∀ r', r.hearAll? scope heard = some r' →
      ∃ e', e.hearAll? n heard = some e' ∧ e'.active? n = some ⟨scope, r'⟩) ∧
    (∀ e', e.hearAll? n heard = some e' →
      ∃ r', r.hearAll? scope heard = some r' ∧ e'.active? n = some ⟨scope, r'⟩) := by
  induction heard generalizing e r with
  | nil =>
    constructor
    · intro r' h; cases h; exact ⟨e, rfl, ha⟩
    · intro e' h; cases h; exact ⟨r, rfl, ha⟩
  | cons x rest ih =>
    simp only [hearAll?, Run.hearAll?, hear?_eq ha]
    cases hx : r.hear? scope x with
    | none => simp
    | some r₁ => exact ih (active?_set (lt_of_active? ha) _)

theorem enter_ok (scope : Scope) (m₀ : Moment) {c : Context} (hv : c.validate = .ok ()) (hfree : e.inFlight.lookup c.id = none) :
    ∃ e₁, e.enter c scope m₀.signals m₀.now = .ok (e.runs.length, e₁) ∧
      e₁.active? e.runs.length =
        some ⟨scope, Run.start (Task.of c e.tools e.maxIterations) (m₀.sight scope)⟩ := by
  simp [enter, hv, InFlight.enter, hfree, bind, Except.bind, pure, Except.pure, active?, Moment.sight]

/-- An execution of a valid context whose id is not in flight is its run by itself. -/
theorem executes_iff {c : Context} {m₀ : Moment} {heard : List Heard} {rec : Record}
    (hv : c.validate = .ok ()) (hfree : e.inFlight.lookup c.id = none) :
    e.Executes c scope m₀ heard rec ↔
      ∃ r ending now time,
        (Run.start (Task.of c e.tools e.maxIterations) (m₀.sight scope)).hearAll? scope heard = some r ∧
        r.point = .ended ending ∧ rec = r.record ending now time := by
  obtain ⟨e₁, henter, hactive⟩ := enter_ok scope m₀ hv hfree
  obtain ⟨hforth, hback⟩ := hearAll?_spec hactive heard
  constructor
  · rintro ⟨n, e₁', e₂, ending, now, time, henter', hhear, hmove, hrec⟩
    rw [henter] at henter'
    cases henter'
    obtain ⟨r, hr, hactive₂⟩ := hback e₂ hhear
    simp only [move?, hactive₂, Option.map_some, Option.some.injEq, Run.move] at hmove
    simp only [record?, hactive₂, Option.map_some, Option.some.injEq] at hrec
    split at hmove <;> cases hmove
    exact ⟨r, _, now, time, hr, ‹_›, hrec.symm⟩
  · rintro ⟨r, ending, now, time, hr, hpoint, rfl⟩
    obtain ⟨e₂, hhear, hactive₂⟩ := hforth r hr
    refine ⟨_, e₁, e₂, ending, now, time, henter, hhear, ?_, ?_⟩
    · simp [move?, hactive₂, Run.move, hpoint]
    · simp [record?, hactive₂]

theorem fair_of_executes {c : Context} {m₀ : Moment} {heard : List Heard} {rec : Record}
    (hv : c.validate = .ok ()) (hfree : e.inFlight.lookup c.id = none)
    (h : e.Executes c scope m₀ heard rec) :
    rec.status = .complete ∨
      ((rec.status = .error ∨ rec.status = .timeout ∨ rec.status = .cancelled) ∧ rec.output = "") := by
  obtain ⟨r, ending, now, time, hr, hpoint, rfl⟩ := (executes_iff hv hfree).mp h
  exact Run.fair_hearAll (Run.fair_iterate _ _ _) hr ending hpoint

end Executor

end Overseer.Agent

import Mathlib.Algebra.GroupWithZero.Nat
import Overseer.Proofs.Agent.Executions

/-!
# When a run completes

A run completes if each of its iterations finds the scope open and the budgets kept, every answer but the
last asks for tools that are allowed and give their outputs, and the last asks for none. `Succeeds` says
this of the answers that were heard, without a run; `executes_complete_iff` says that these are the
executions that complete, and that all others that come to an ending have no output.

* `Run.completes_iterate`, `Run.completes_accept`, `Run.completes_proceed`: the exits of one iteration.
* `Run.completes_iff_wins`: an iteration at a time, by induction on what is heard.
* `wins_iff`: the same for all iterations at once.
-/
namespace Overseer

/-! ## Limits -/

namespace Limits

variable {l : Limits}

/-- The budget of tokens, if there is one, is kept. -/
def AllowsTokens (l : Limits) (n : Nat) : Prop := 0 < l.maxTokens → (n : Int) ≤ l.maxTokens

/-- The budget of tool calls, if there is one, is kept. -/
def AllowsCalls (l : Limits) (n : Nat) : Prop := 0 < l.maxToolCalls → (n : Int) ≤ l.maxToolCalls

instance (l : Limits) (n : Nat) : Decidable (l.AllowsTokens n) :=
  inferInstanceAs (Decidable (0 < l.maxTokens → (n : Int) ≤ l.maxTokens))

instance (l : Limits) (n : Nat) : Decidable (l.AllowsCalls n) :=
  inferInstanceAs (Decidable (0 < l.maxToolCalls → (n : Int) ≤ l.maxToolCalls))

theorem exceeds_positive {n : Nat} {limit : Int} :
    exceeds n (positive limit) = false ↔ (0 < limit → (n : Int) ≤ limit) := by
  unfold positive
  split
  · simp only [exceeds, decide_eq_false_iff_not, Nat.not_lt]
    omega
  · simp only [exceeds, true_iff]
    omega

theorem check_ok (hz : l.timeout.isZero = false) {tokens calls : Nat} {elapsed : Duration} :
    l.check tokens calls elapsed = .ok () ↔
      l.AllowsTokens tokens ∧ l.AllowsCalls calls ∧ elapsed ≤ l.timeout := by
  have htokens : exceeds tokens l.tokenLimit = false ↔ l.AllowsTokens tokens := exceeds_positive
  have hcalls : exceeds calls l.toolCallLimit = false ↔ l.AllowsCalls calls := exceeds_positive
  have htime : ¬ l.timeout < elapsed ↔ elapsed ≤ l.timeout := Nat.not_lt
  unfold check
  rw [← htokens, ← hcalls, ← htime, hz]
  cases exceeds tokens l.tokenLimit <;> cases exceeds calls l.toolCallLimit <;>
    by_cases h : l.timeout < elapsed <;> simp [h]

/-- If tokens and calls are within the budget, it is the time that a check finds exceeded. -/
theorem check_error {tokens calls : Nat} {elapsed : Duration} {v : Violation}
    (htokens : l.AllowsTokens tokens) (hcalls : l.AllowsCalls calls)
    (h : l.check tokens calls elapsed = .error v) : v = .time elapsed l.timeout ∧ l.timeout < elapsed := by
  have hT : exceeds tokens l.tokenLimit = false := exceeds_positive.mpr htokens
  have hC : exceeds calls l.toolCallLimit = false := exceeds_positive.mpr hcalls
  unfold check at h
  rw [if_neg (Bool.eq_false_iff.mp hT), if_neg (Bool.eq_false_iff.mp hC)] at h
  split at h
  · rename_i hlate
    cases h
    exact ⟨rfl, hlate.2⟩
  · cases h

theorem timeout_of_validate (h : l.validate = .ok ()) : l.timeout.isZero = false := by
  unfold validate at h
  split at h
  · cases h
  · exact Bool.eq_false_iff.mpr ‹_›

end Limits

theorem Context.timeout_of_validate {c : Context} (h : c.validate = .ok ()) :
    c.limits.timeout.isZero = false := by
  unfold validate at h
  repeat' split at h
  any_goals cases h
  exact Limits.timeout_of_validate h

namespace Agent

/-- Counts that stop at the largest are over a limit below it exactly if the true counts are. -/
theorem allowsTokens_min {l : Limits} (hl : l.maxTokens < Word.half64) (n : Nat) :
    l.AllowsTokens (min n maxTokens) ↔ l.AllowsTokens n := by
  have hmax : (l.maxTokens : Int) < (maxTokens : Nat) := by
    have : ((Word.half64 : Nat) : Int) < (maxTokens : Nat) := by decide
    omega
  unfold Limits.AllowsTokens
  constructor <;> intro h hpos <;> have := h hpos <;> omega

theorem addTokens_min (a b : Nat) : addTokens (min a maxTokens) b = min (a + b) maxTokens := by
  unfold addTokens; omega

/-! ## The exits of an iteration -/

namespace Run

variable {r : Run} {s : Sight} {scope : Scope} {i : Nat} {heard rest : List Heard} {o : String}

/-- Hearing these answers the run completes with an output. -/
def Completes (scope : Scope) (r : Run) (heard : List Heard) (o : String) : Prop :=
  ∃ r' error, r.hearAll? scope heard = some r' ∧ r'.point = .ended ⟨.complete, o, error⟩

theorem completes_cons {h : Heard} :
    r.Completes scope (h :: rest) o ↔ ∃ r', r.hear? scope h = some r' ∧ r'.Completes scope rest o := by
  unfold Completes
  simp only [hearAll?, Option.bind_eq_some_iff]
  constructor
  · rintro ⟨r', e, ⟨r₁, h₁, h₂⟩, hp⟩; exact ⟨r₁, h₁, r', e, h₂, hp⟩
  · rintro ⟨r₁, h₁, r', e, h₂, hp⟩; exact ⟨r', e, ⟨r₁, h₁, h₂⟩, hp⟩

theorem completes_ended {e : Ending} (hp : r.point = .ended e) :
    r.Completes scope heard o ↔ heard = [] ∧ e.status = .complete ∧ e.output = o := by
  cases heard with
  | nil =>
    unfold Completes
    constructor
    · rintro ⟨r', error, h, hp'⟩
      cases h
      rw [hp] at hp'
      cases hp'; exact ⟨rfl, rfl, rfl⟩
    · rintro ⟨-, hs, rfl⟩
      refine ⟨r, e.error, rfl, hp.trans ?_⟩
      rw [← hs]
  | cons h rest =>
    rw [completes_cons]
    cases h <;> simp [hear?, hp]

theorem not_completes_stop {status : Status} {error : String} (h : status ≠ .complete) :
    ¬ (r.stop status error).Completes scope heard o := by
  rw [completes_ended rfl]
  exact fun hc => h hc.2.1

theorem completes_asking {asked : Instant} (hp : r.point = .asking i asked) :
    r.Completes scope heard o ↔ ∃ m a rest, heard = .reply m (.ok a) :: rest ∧
      (r.accept (m.sight scope) i asked a).Completes scope rest o := by
  cases heard with
  | nil => simp [Completes, hearAll?, hp]
  | cons h rest =>
    rw [completes_cons]
    cases h with
    | output m out => simp [hear?, hp]
    | reply m a =>
      simp only [hear?, hp, hearReply, Option.some.injEq, exists_eq_left']
      cases a with
      | error e => exact iff_of_false (not_completes_stop (by simp)) (by simp)
      | ok a =>
        constructor
        · intro h; exact ⟨m, a, rest, rfl, h⟩
        · rintro ⟨m', a', rest', heq, h⟩
          cases heq; exact h

theorem completes_calling {call : ToolCall} {more : List ToolCall} (hp : r.point = .calling i call more) :
    r.Completes scope heard o ↔ ∃ m text rest, heard = .output m (.ok text) :: rest ∧
      ({ r with
        toolCalls := r.toolCalls + 1
        conversation := r.conversation ++ [Message.toolOutput call.id text] }.proceed
          (m.sight scope) i more).Completes scope rest o := by
  cases heard with
  | nil => simp [Completes, hearAll?, hp]
  | cons h rest =>
    rw [completes_cons]
    cases h with
    | reply m a => simp [hear?, hp]
    | output m out =>
      simp only [hear?, hp, hearOutput, Option.some.injEq, exists_eq_left']
      cases out with
      | error e => exact iff_of_false (not_completes_stop (by simp)) (by simp)
      | ok text =>
        constructor
        · intro h; exact ⟨m, text, rest, rfl, h⟩
        · rintro ⟨m', text', rest', heq, h⟩
          cases heq; exact h

/-- The head of an iteration is passed. -/
def Open (r : Run) (s : Sight) (i : Nat) : Prop :=
  i ≤ r.task.maxIterations ∧ s.cancelled = false ∧ s.expired = false ∧
    r.limits.AllowsTokens r.tokens ∧ r.limits.AllowsCalls r.toolCalls ∧ r.elapsed s ≤ r.limits.timeout

theorem completes_iterate (hz : r.limits.timeout.isZero = false) :
    (r.iterate s i).Completes scope heard o ↔
      r.Open s i ∧ { r with point := .asking i s.now }.Completes scope heard o := by
  have hcheck : r.limits.check r.tokens r.toolCalls (r.elapsed s) = .ok () ↔ _ := Limits.check_ok hz
  unfold iterate Open
  split
  · rename_i hi
    exact iff_of_false (not_completes_stop (by simp)) fun h => Nat.not_le.mpr hi h.1.1
  rename_i hi
  split
  · rename_i hc
    exact iff_of_false (not_completes_stop (by simp)) fun h => by rw [h.1.2.1] at hc; cases hc
  rename_i hc
  split
  · rename_i he
    exact iff_of_false (not_completes_stop (by simp)) fun h => by rw [h.1.2.2.1] at he; cases he
  rename_i he
  split
  · rename_i v hv
    refine iff_of_false (not_completes_stop (by simp)) fun h => ?_
    rw [hcheck.mpr h.1.2.2.2] at hv
    cases hv
  · rename_i hv
    have hopen := hcheck.mp hv
    exact ⟨fun h => ⟨⟨Nat.not_lt.mp hi, Bool.eq_false_iff.mpr hc, Bool.eq_false_iff.mpr he, hopen⟩, h⟩,
      fun h => h.2⟩

/-- The run once it has taken note of an answer. -/
def accepted (r : Run) (s : Sight) (i : Nat) (asked : Instant) (a : ChatResponse) : Run :=
  { r with
    tokens := addTokens r.tokens a.usage.totalTokens
    conversation := r.conversation ++ [Message.assistant a.content a.toolCalls]
    steps := r.steps ++ [stepOf i asked s a] }

theorem completes_accept {asked : Instant} {a : ChatResponse} :
    (r.accept s i asked a).Completes scope heard o ↔
      r.limits.AllowsTokens (addTokens r.tokens a.usage.totalTokens) ∧
        ((a.toolCalls = [] ∧ a.content = o ∧ heard = []) ∨
          (a.toolCalls ≠ [] ∧
            ((r.accepted s i asked a).proceed s i a.toolCalls).Completes scope heard o)) := by
  have hexceeds : Limits.exceeds (addTokens r.tokens a.usage.totalTokens) r.limits.tokenLimit = false ↔ _ :=
    Limits.exceeds_positive
  simp only [accept]
  split
  · rename_i h
    refine iff_of_false (not_completes_stop (by simp)) fun hc => ?_
    rw [hexceeds.mpr hc.1] at h; cases h
  rename_i h
  have hallow := hexceeds.mp (Bool.eq_false_iff.mpr h)
  split
  · rename_i hfinal
    have hnil : a.toolCalls = [] := by simpa [ChatResponse.isFinal] using hfinal
    rw [completes_ended rfl]
    constructor
    · rintro ⟨rfl, -, ho⟩; exact ⟨hallow, Or.inl ⟨hnil, ho, rfl⟩⟩
    · rintro ⟨-, ⟨-, ho, hh⟩ | ⟨hne, -⟩⟩
      · exact ⟨hh, rfl, ho⟩
      · exact absurd hnil hne
  · rename_i hfinal
    have hne : a.toolCalls ≠ [] := by simpa [ChatResponse.isFinal] using hfinal
    constructor
    · intro hc; exact ⟨hallow, Or.inr ⟨hne, hc⟩⟩
    · rintro ⟨-, ⟨hnil, -⟩ | ⟨-, hc⟩⟩
      · exact absurd hnil hne
      · exact hc

theorem completes_proceed_nil (hz : r.limits.timeout.isZero = false) :
    (r.proceed s i []).Completes scope heard o ↔
      (r.limits.AllowsTokens r.tokens ∧ r.limits.AllowsCalls r.toolCalls ∧
        r.elapsed s ≤ r.limits.timeout) ∧ (r.iterate s (i + 1)).Completes scope heard o := by
  have hcheck : r.limits.check r.tokens r.toolCalls (r.elapsed s) = .ok () ↔ _ := Limits.check_ok hz
  simp only [proceed]
  split
  · rename_i v hv
    refine iff_of_false (not_completes_stop (by cases v <;> simp [statusOf])) fun h => ?_
    rw [hcheck.mpr h.1] at hv
    cases hv
  · rename_i hv
    exact ⟨fun h => ⟨hcheck.mp hv, h⟩, fun h => h.2⟩

theorem callsSpent_eq_false : r.callsSpent = false ↔ r.limits.AllowsCalls (r.toolCalls + 1) := by
  unfold callsSpent Limits.AllowsCalls Limits.toolCallLimit Limits.positive
  by_cases h : 0 < r.limits.maxToolCalls
  · simp only [h, if_true, decide_eq_false_iff_not, true_imp_iff]
    omega
  · simp [h]

theorem completes_proceed_cons {call : ToolCall} {more : List ToolCall} :
    (r.proceed s i (call :: more)).Completes scope heard o ↔
      r.limits.AllowsCalls (r.toolCalls + 1) ∧
        isToolAllowed r.task.context.allowedTools call.name = true ∧
        { r with point := .calling i call more }.Completes scope heard o := by
  simp only [proceed]
  split
  · rename_i hs
    refine iff_of_false (not_completes_stop (by simp)) fun h => ?_
    rw [callsSpent_eq_false.mpr h.1] at hs; cases hs
  rename_i hs
  split
  · rename_i ha
    refine iff_of_false (not_completes_stop (by simp)) fun h => ?_
    rw [h.2.1] at ha; cases ha
  · rename_i ha
    exact ⟨fun h => ⟨callsSpent_eq_false.mp (Bool.eq_false_iff.mpr hs), by simpa using ha, h⟩, fun h => h.2.2⟩

end Run

/-! ## Rounds -/

/-- The output of a tool call, and when it came. -/
abbrev Output := Moment × String

def Output.heard (x : Output) : Heard := .output x.1 (.ok x.2)

/-- When the last of some outputs came; `m` if there is none. -/
def lastMoment (m : Moment) (outputs : List Output) : Moment := (outputs.getLast?.map Prod.fst).getD m

theorem lastMoment_cons (m : Moment) (x : Output) (outputs : List Output) :
    lastMoment m (x :: outputs) = lastMoment x.1 outputs := by
  cases outputs with
  | nil => rfl
  | cons y outputs => simp [lastMoment, List.getLast?_cons]

/-- An answer of the model and the outputs of the calls it asks for. -/
structure Round where
  replied : Moment
  answer : ChatResponse
  outputs : List Output

namespace Round

def heard (x : Round) : List Heard := .reply x.replied (.ok x.answer) :: x.outputs.map Output.heard

/-- When the last output came. -/
def finished (x : Round) : Moment := lastMoment x.replied x.outputs

def tokens (x : Round) : Nat := x.answer.usage.totalTokens

/-- How many calls the answer asks for. -/
def calls (x : Round) : Nat := x.answer.toolCalls.length

end Round

/-! ## One iteration after the other -/

section

variable (task : Task) (scope : Scope) (t₀ : Instant)

/-- The iteration `i` begins at `m` with the scope open and the budgets kept, after `T` tokens and `C` tool
calls. -/
def Begins (i T C : Nat) (m : Moment) : Prop :=
  i ≤ task.maxIterations ∧ (m.sight scope).cancelled = false ∧ (m.sight scope).expired = false ∧
    task.context.limits.AllowsTokens T ∧ task.context.limits.AllowsCalls C ∧
    m.now.since t₀ ≤ task.context.limits.timeout

/-- The answer asks for tools, which are all allowed, and each gives an output in time. -/
def Passes (T C : Nat) (x : Round) : Prop :=
  task.context.limits.AllowsTokens (T + x.tokens) ∧ x.answer.toolCalls ≠ [] ∧
    x.outputs.length = x.calls ∧
    (∀ call ∈ x.answer.toolCalls, isToolAllowed task.context.allowedTools call.name = true) ∧
    task.context.limits.AllowsCalls (C + x.calls) ∧
    x.finished.now.since t₀ ≤ task.context.limits.timeout

/-- From the iteration `i` on, the rounds pass one after the other, and then the answer `last` ends the run
with the output `o`. -/
def Wins (last : ChatResponse) (o : String) : Nat → Nat → Nat → Moment → List Round → Prop
  | i, T, C, m, [] =>
    Begins task scope t₀ i T C m ∧ task.context.limits.AllowsTokens (T + last.usage.totalTokens) ∧
      last.toolCalls = [] ∧ last.content = o
  | i, T, C, m, x :: rounds =>
    Begins task scope t₀ i T C m ∧ Passes task t₀ T C x ∧
      Wins last o (i + 1) (T + x.tokens) (C + x.calls) x.finished rounds

/-- A run of a task, begun at `t₀`, that has used `T` tokens and made `C` tool calls. -/
structure Run.At (T C : Nat) (r : Run) : Prop where
  task : r.task = task
  started : r.started = t₀
  tokens : r.tokens = min T maxTokens
  toolCalls : r.toolCalls = C

variable {task scope t₀} {r : Run} {o : String} {i T C : Nat}

namespace Run

theorem At.accepted (h : r.At task t₀ T C) (s : Sight) (i : Nat) (asked : Instant) (a : ChatResponse) :
    (r.accepted s i asked a).At task t₀ (T + a.usage.totalTokens) C :=
  ⟨h.task, h.started, by simp only [Run.accepted, h.tokens, addTokens_min], h.toolCalls⟩

theorem completes_proceed (hz : task.context.limits.timeout.isZero = false)
    (hmax : task.context.limits.maxTokens < Word.half64) (hr : r.At task t₀ T C) (m : Moment)
    (calls : List ToolCall) (heard : List Heard) {P : Moment → List Heard → Prop}
    (next : ∀ (r' : Run) m' rest, r'.At task t₀ T (C + calls.length) → rest.length ≤ heard.length →
      ((r'.iterate (m'.sight scope) (i + 1)).Completes scope rest o ↔ P m' rest)) :
    (r.proceed (m.sight scope) i calls).Completes scope heard o ↔
      ∃ outputs rest, heard = outputs.map Output.heard ++ rest ∧ outputs.length = calls.length ∧
        (∀ call ∈ calls, isToolAllowed task.context.allowedTools call.name = true) ∧
        (calls ≠ [] → task.context.limits.AllowsCalls (C + calls.length)) ∧
        (task.context.limits.AllowsTokens T ∧ task.context.limits.AllowsCalls (C + calls.length) ∧
          (lastMoment m outputs).now.since t₀ ≤ task.context.limits.timeout) ∧
        P (lastMoment m outputs) rest := by
  induction calls generalizing r C m heard with
  | nil =>
    have hP := next r m heard hr (Nat.le_refl _)
    obtain ⟨rfl, rfl, htokens, rfl⟩ := hr
    rw [completes_proceed_nil hz, hP, htokens]
    have hT : r.limits.AllowsTokens (min T maxTokens) ↔ r.task.context.limits.AllowsTokens T :=
      allowsTokens_min hmax T
    rw [hT]
    constructor
    · rintro ⟨hkept, hP⟩
      exact ⟨[], heard, rfl, rfl, by simp, by simp, hkept, hP⟩
    · rintro ⟨outputs, rest, rfl, hlen, -, -, hkept, hP⟩
      obtain rfl := List.length_eq_zero_iff.mp hlen
      exact ⟨hkept, hP⟩
  | cons call more ih =>
    have hlen : C + (call :: more).length = C + 1 + more.length := by simp; omega
    rw [hlen] at next ⊢
    obtain ⟨rfl, rfl, htokens, rfl⟩ := hr
    rw [completes_proceed_cons, completes_calling rfl]
    -- the run once it has an output is one with a call more and a call less to make
    have step (m' : Moment) (text : String) (rest : List Heard) (hrest : rest.length ≤ heard.length) :=
      ih (r := { r with
        point := .calling i call more
        toolCalls := r.toolCalls + 1
        conversation := r.conversation ++ [Message.toolOutput call.id text] }) (C := r.toolCalls + 1)
        ⟨rfl, rfl, htokens, rfl⟩ m' rest fun r' m'' rest' hr' hle =>
          next r' m'' rest' hr' (Nat.le_trans hle hrest)
    constructor
    · rintro ⟨hcalls, hallowed, m', text, rest, rfl, hc⟩
      obtain ⟨outputs, rest', rfl, hlen', hall, hmore, hkept, hP⟩ :=
        (step m' text rest (by simp)).mp hc
      refine ⟨(m', text) :: outputs, rest', rfl, by simp [hlen'], ?_, fun _ => hkept.2.1, ?_, ?_⟩
      · exact List.forall_mem_cons.mpr ⟨hallowed, hall⟩
      · rw [lastMoment_cons]; exact hkept
      · rw [lastMoment_cons]; exact hP
    · rintro ⟨outputs, rest', rfl, hlen', hall, hcalls, hkept, hP⟩
      obtain _ | ⟨⟨m', text⟩, outputs⟩ := outputs
      · cases hlen'
      obtain ⟨hallowed, hall⟩ := List.forall_mem_cons.mp hall
      rw [lastMoment_cons] at hkept hP
      refine ⟨?_, hallowed, m', text, outputs.map Output.heard ++ rest', rfl, ?_⟩
      · intro hpos
        have := hkept.2.1 hpos
        have hlim : r.limits = r.task.context.limits := rfl
        rw [hlim]
        omega
      · exact (step m' text _ (by simp)).mpr
          ⟨outputs, rest', rfl, by simpa using hlen', hall, fun _ => hkept.2.1, hkept, hP⟩

theorem At.open_iff (hmax : task.context.limits.maxTokens < Word.half64) (hr : r.At task t₀ T C) (m : Moment) :
    r.Open (m.sight scope) i ↔ Begins task scope t₀ i T C m := by
  obtain ⟨rfl, rfl, htokens, rfl⟩ := hr
  have hT : r.limits.AllowsTokens (min T maxTokens) ↔ r.task.context.limits.AllowsTokens T :=
    allowsTokens_min hmax T
  unfold Open Begins
  rw [htokens, hT]
  exact Iff.rfl

/-- An answer completes the run if it is the last and no more is heard, or if its calls make a round that passes and
what is heard after them completes the run. -/
theorem completes_answer (hz : task.context.limits.timeout.isZero = false)
    (hmax : task.context.limits.maxTokens < Word.half64) (hr : r.At task t₀ T C) (m m' : Moment) (a : ChatResponse)
    (heard : List Heard) {P : Moment → List Heard → Prop}
    (next : ∀ (r' : Run) m'' rest, r'.At task t₀ (T + a.usage.totalTokens) (C + a.toolCalls.length) →
      rest.length ≤ heard.length → ((r'.iterate (m''.sight scope) (i + 1)).Completes scope rest o ↔ P m'' rest)) :
    (accept { r with point := .asking i m.now } (m'.sight scope) i m.now a).Completes scope heard o ↔
      task.context.limits.AllowsTokens (T + a.usage.totalTokens) ∧
        ((a.toolCalls = [] ∧ a.content = o ∧ heard = []) ∨
          (a.toolCalls ≠ [] ∧ ∃ outputs rest, heard = outputs.map Output.heard ++ rest ∧
            Passes task t₀ T C ⟨m', a, outputs⟩ ∧ P (lastMoment m' outputs) rest)) := by
  have hasking : ({ r with point := .asking i m.now } : Run).At task t₀ T C :=
    ⟨hr.task, hr.started, hr.tokens, hr.toolCalls⟩
  have hproceed := completes_proceed hz hmax (hasking.accepted (m'.sight scope) i m.now a) m' a.toolCalls heard next
  have hallow : r.limits.AllowsTokens (addTokens r.tokens a.usage.totalTokens) ↔
      task.context.limits.AllowsTokens (T + a.usage.totalTokens) := by
    rw [limits, hr.task, hr.tokens, addTokens_min]
    exact allowsTokens_min hmax _
  rw [completes_accept, hproceed]
  refine and_congr hallow (or_congr Iff.rfl (and_congr_right fun hne => ?_))
  constructor
  · rintro ⟨outputs, rest, hrest, hlen, hall, -, ⟨htok, hcalls, htime⟩, hP⟩
    exact ⟨outputs, rest, hrest, ⟨htok, hne, hlen, hall, hcalls, htime⟩, hP⟩
  · rintro ⟨outputs, rest, hrest, ⟨htok, -, hlen, hall, hcalls, htime⟩, hP⟩
    exact ⟨outputs, rest, hrest, hlen, hall, fun _ => hcalls, ⟨htok, hcalls, htime⟩, hP⟩

/-- From the head of an iteration the answers that are heard complete the run exactly if they are those
of some rounds that pass and a last answer that asks for no tools. -/
theorem completes_iff_wins (hz : task.context.limits.timeout.isZero = false)
    (hmax : task.context.limits.maxTokens < Word.half64) (hr : r.At task t₀ T C) (m : Moment)
    (heard : List Heard) :
    (r.iterate (m.sight scope) i).Completes scope heard o ↔
      ∃ rounds m' last, heard = rounds.flatMap Round.heard ++ [.reply m' (.ok last)] ∧
        Wins task scope t₀ last o i T C m rounds := by
  -- on the length of what is heard: each iteration hears at least the model's answer
  induction hn : heard.length using Nat.strongRecOn generalizing r i T C m heard with
  | ind n ih =>
    have hz' : r.limits.timeout.isZero = false := by rw [limits, hr.task]; exact hz
    rw [completes_iterate hz', hr.open_iff hmax, completes_asking rfl]
    have haccept (m' : Moment) (a : ChatResponse) (rest : List Heard) (hrest : rest.length < n) :=
      completes_answer hz hmax hr m m' a rest (i := i) fun r' m'' rest' hr' hle =>
        ih _ (Nat.lt_of_le_of_lt hle hrest) (i := i + 1) hr' m'' rest' rfl
    constructor
    · rintro ⟨hbegins, m', a, rest, rfl, hc⟩
      obtain ⟨htok, ⟨hnil, ho, rfl⟩ | ⟨-, outputs, rest', rfl, hpasses, rounds, m'', last, rfl, hwins⟩⟩ :=
        (haccept m' a rest (by rw [← hn]; simp)).mp hc
      · exact ⟨[], m', a, rfl, hbegins, htok, hnil, ho⟩
      · exact ⟨⟨m', a, outputs⟩ :: rounds, m'', last, by simp [Round.heard], hbegins, hpasses, hwins⟩
    · rintro ⟨rounds, m'', last, rfl, hwins⟩
      cases rounds with
      | nil =>
        obtain ⟨hbegins, htok, hnil, ho⟩ := hwins
        exact ⟨hbegins, m'', last, [], rfl, (haccept m'' last [] (by rw [← hn]; simp)).mpr
          ⟨htok, Or.inl ⟨hnil, ho, rfl⟩⟩⟩
      | cons x rounds =>
        obtain ⟨hbegins, hpasses, hwins⟩ := hwins
        refine ⟨hbegins, x.replied, x.answer,
          x.outputs.map Output.heard ++ (rounds.flatMap Round.heard ++ [.reply m'' (.ok last)]),
          by simp [Round.heard], ?_⟩
        refine (haccept _ _ _ (by rw [← hn]; simp [Round.heard])).mpr ⟨hpasses.1, Or.inr ⟨hpasses.2.1, ?_⟩⟩
        exact ⟨x.outputs, _, rfl, hpasses, rounds, m'', last, rfl, hwins⟩

end Run

/-! ## All iterations at once -/

theorem forall_le_succ {n : Nat} {P : Nat → Prop} :
    (∀ j ≤ n + 1, P j) ↔ P 0 ∧ ∀ j ≤ n, P (j + 1) := by
  constructor
  · intro h; exact ⟨h 0 (by omega), fun j hj => h (j + 1) (by omega)⟩
  · rintro ⟨h0, h⟩ j hj
    cases j with
    | zero => exact h0
    | succ j => exact h j (by omega)

/-- The scope is open, and the run, begun at `t₀`, is in time. -/
def Ready (l : Limits) (scope : Scope) (t₀ : Instant) (m : Moment) : Prop :=
  (m.sight scope).cancelled = false ∧ (m.sight scope).expired = false ∧ m.now.since t₀ ≤ l.timeout

instance (l : Limits) (scope : Scope) (t₀ : Instant) (m : Moment) : Decidable (Ready l scope t₀ m) :=
  inferInstanceAs (Decidable (_ ∧ _ ∧ _))

/-- The answer asks for tools, which are all allowed, and each gives an output before time is up. -/
def Round.Fulfilled (c : Context) (t₀ : Instant) (x : Round) : Prop :=
  x.answer.toolCalls ≠ [] ∧ x.outputs.length = x.calls ∧
    (∀ call ∈ x.answer.toolCalls, isToolAllowed c.allowedTools call.name = true) ∧
    x.finished.now.since t₀ ≤ c.limits.timeout

instance (c : Context) (t₀ : Instant) (x : Round) : Decidable (x.Fulfilled c t₀) :=
  inferInstanceAs (Decidable (_ ∧ _ ∧ _ ∧ _))

/-- The tokens that some answers took. -/
def tokensOf (answers : List ChatResponse) : Nat := (answers.map fun a => a.usage.totalTokens).sum

/-- The calls that the answers of some rounds asked for. -/
def callsOf (rounds : List Round) : Nat := (rounds.map Round.calls).sum

theorem tokensOf_take_cons (a : ChatResponse) (answers : List ChatResponse) (j : Nat) :
    tokensOf ((a :: answers).take (j + 1)) = a.usage.totalTokens + tokensOf (answers.take j) := by
  simp [tokensOf]

theorem callsOf_take_cons (x : Round) (rounds : List Round) (j : Nat) :
    callsOf ((x :: rounds).take (j + 1)) = x.calls + callsOf (rounds.take j) := by
  simp [callsOf]

theorem wins_iff {last : ChatResponse} {m : Moment} {rounds : List Round} :
    Wins task scope t₀ last o i T C m rounds ↔
      i + rounds.length ≤ task.maxIterations ∧
      (∀ x ∈ m :: rounds.map Round.finished, Ready task.context.limits scope t₀ x) ∧
      (∀ j ≤ rounds.length + 1,
        task.context.limits.AllowsTokens (T + tokensOf ((rounds.map Round.answer ++ [last]).take j))) ∧
      (∀ x ∈ rounds, x.Fulfilled task.context t₀) ∧
      (∀ j ≤ rounds.length, task.context.limits.AllowsCalls (C + callsOf (rounds.take j))) ∧
      last.toolCalls = [] ∧ last.content = o := by
  induction rounds generalizing i T C m with
  | nil =>
    constructor
    · rintro ⟨⟨hi, hc, he, hT, hC, ht⟩, hlast, hnil, ho⟩
      refine ⟨hi, List.forall_mem_singleton.mpr ⟨hc, he, ht⟩, forall_le_succ.mpr ⟨hT, fun j hj => ?_⟩,
        by simp, fun j _ => ?_, hnil, ho⟩
      · obtain rfl := Nat.le_zero.mp hj
        exact hlast
      · rw [List.take_nil]; exact hC
    · rintro ⟨hi, hready, htok, -, hcalls, hnil, ho⟩
      obtain ⟨hc, he, ht⟩ := hready m List.mem_cons_self
      obtain ⟨hT, hlast⟩ := forall_le_succ.mp htok
      exact ⟨⟨hi, hc, he, hT, hcalls 0 (Nat.le_refl 0), ht⟩, hlast 0 (Nat.le_refl 0), hnil, ho⟩
  | cons x rounds ih =>
    rw [Wins, ih]
    simp only [List.map_cons, List.cons_append, List.length_cons]
    constructor
    · rintro ⟨⟨hi, hc, he, hT, hC, ht⟩, ⟨hTx, hne, hlen, hall, hCx, htx⟩, hi', hready, htok, hful, hcalls, hlast⟩
      refine ⟨by omega, List.forall_mem_cons.mpr ⟨⟨hc, he, ht⟩, hready⟩,
        forall_le_succ.mpr ⟨hT, fun j hj => ?_⟩, List.forall_mem_cons.mpr ⟨⟨hne, hlen, hall, htx⟩, hful⟩,
        forall_le_succ.mpr ⟨hC, fun j hj => ?_⟩, hlast⟩
      · rw [tokensOf_take_cons, ← Nat.add_assoc]; exact htok j hj
      · rw [callsOf_take_cons, ← Nat.add_assoc]; exact hcalls j hj
    · rintro ⟨hi, hready, htok, hful, hcalls, hlast⟩
      obtain ⟨⟨hc, he, ht⟩, hready⟩ := List.forall_mem_cons.mp hready
      obtain ⟨hT, htok⟩ := forall_le_succ.mp htok
      obtain ⟨⟨hne, hlen, hall, htx⟩, hful⟩ := List.forall_mem_cons.mp hful
      obtain ⟨hC, hcalls⟩ := forall_le_succ.mp hcalls
      have htok' : ∀ j ≤ rounds.length + 1, task.context.limits.AllowsTokens
          (T + x.tokens + tokensOf ((rounds.map Round.answer ++ [last]).take j)) := by
        intro j hj
        have := htok j hj
        rwa [tokensOf_take_cons, ← Nat.add_assoc] at this
      have hcalls' : ∀ j ≤ rounds.length,
          task.context.limits.AllowsCalls (C + x.calls + callsOf (rounds.take j)) := by
        intro j hj
        have := hcalls j hj
        rwa [callsOf_take_cons, ← Nat.add_assoc] at this
      exact ⟨⟨by omega, hc, he, hT, hC, ht⟩,
        ⟨htok' 0 (Nat.zero_le _), hne, hlen, hall, hcalls' 0 (Nat.zero_le _), htx⟩,
        by omega, hready, htok', hful, hcalls', hlast⟩

end

/-- What is heard lets the execution complete with the output `o`: some rounds and then a last answer, at
most `n` answers in all. -/
structure Succeeds (c : Context) (n : Nat) (scope : Scope) (m₀ : Moment) (heard : List Heard) (o : String)
    (rounds : List Round) (m : Moment) (last : ChatResponse) : Prop where
  heard : heard = rounds.flatMap Round.heard ++ [.reply m (.ok last)]
  iterations : rounds.length + 1 ≤ n
  /-- Each iteration begins when the outputs of the one before are there. -/
  heads : ∀ x ∈ m₀ :: rounds.map Round.finished, Ready c.limits scope m₀.now x
  tokens : ∀ j ≤ rounds.length + 1,
    c.limits.AllowsTokens (tokensOf ((rounds.map Round.answer ++ [last]).take j))
  fulfilled : ∀ x ∈ rounds, x.Fulfilled c m₀.now
  calls : ∀ j ≤ rounds.length, c.limits.AllowsCalls (callsOf (rounds.take j))
  final : last.toolCalls = [] ∧ last.content = o

namespace Executor

/-- A run by itself completes exactly if what it hears succeeds. -/
theorem completes_start_iff {e : Executor} {c : Context} {scope : Scope} {m₀ : Moment}
    (hv : c.validate = .ok ()) (hword : c.limits.maxTokens < Word.half64) (heard : List Heard) (o : String) :
    (Run.start (Task.of c e.tools e.maxIterations) (m₀.sight scope)).Completes scope heard o ↔
      ∃ rounds m last, Succeeds c e.maxIterations scope m₀ heard o rounds m last := by
  have hstart : (⟨Task.of c e.tools e.maxIterations, m₀.now, c.history, [], 0, 0, .asking 0 m₀.now⟩ : Run).At
      (Task.of c e.tools e.maxIterations) m₀.now 0 0 := ⟨rfl, rfl, rfl, rfl⟩
  refine (Run.completes_iff_wins (Context.timeout_of_validate hv) hword hstart m₀ heard).trans ?_
  constructor
  · rintro ⟨rounds, m, last, hheard, hwins⟩
    obtain ⟨hi, hready, htok, hful, hcalls, hlast⟩ := wins_iff.mp hwins
    refine ⟨rounds, m, last, hheard, ?_, hready, fun j hj => ?_, hful, fun j hj => ?_, hlast⟩
    · rw [Nat.add_comm]; exact hi
    · have := htok j hj
      rwa [Nat.zero_add] at this
    · have := hcalls j hj
      rwa [Nat.zero_add] at this
  · rintro ⟨rounds, m, last, h⟩
    refine ⟨rounds, m, last, h.heard, wins_iff.mpr ⟨?_, h.heads, fun j hj => ?_, h.fulfilled,
      fun j hj => ?_, h.final⟩⟩
    · have := h.iterations
      rw [Nat.add_comm]; exact this
    · rw [Nat.zero_add]; exact h.tokens j hj
    · rw [Nat.zero_add]; exact h.calls j hj

/-- An execution of a valid context whose id is not in flight completes with an output exactly if what it
hears succeeds; in every other case, if it comes to an ending at all, it ends in error, out of time or
cancelled, with no output. -/
theorem executes_complete_iff (e : Executor) (c : Context) (scope : Scope) (m₀ : Moment)
    (hv : c.validate = .ok ()) (hfree : e.inFlight.lookup c.id = none)
    (hword : Word.isSigned64 c.limits.maxTokens = true) (heard : List Heard) :
    (∀ o, (∃ rec, e.Executes c scope m₀ heard rec ∧ rec.status = .complete ∧ rec.output = o) ↔
      ∃ rounds m last, Succeeds c e.maxIterations scope m₀ heard o rounds m last) ∧
    ∀ rec, e.Executes c scope m₀ heard rec →
      (¬ ∃ o rounds m last, Succeeds c e.maxIterations scope m₀ heard o rounds m last) →
      (rec.status = .error ∨ rec.status = .timeout ∨ rec.status = .cancelled) ∧ rec.output = "" := by
  have hcompletes (o : String) :
      (∃ rec, e.Executes c scope m₀ heard rec ∧ rec.status = .complete ∧ rec.output = o) ↔
        (Run.start (Task.of c e.tools e.maxIterations) (m₀.sight scope)).Completes scope heard o := by
    simp only [executes_iff hv hfree]
    constructor
    · rintro ⟨_, ⟨r, ⟨status, output, error⟩, now, time, hr, hpoint, rfl⟩, hs, ho⟩
      have hs : status = .complete := hs
      have ho : output = o := ho
      subst hs ho
      exact ⟨r, error, hr, hpoint⟩
    · rintro ⟨r, error, hr, hpoint⟩
      exact ⟨_, ⟨r, _, 0, default, hr, hpoint, rfl⟩, rfl, rfl⟩
  have hmax : c.limits.maxTokens < Word.half64 := (of_decide_eq_true hword).2
  have hiff (o : String) := (hcompletes o).trans (completes_start_iff hv hmax heard o)
  refine ⟨hiff, fun rec hrec hnot => ?_⟩
  rcases fair_of_executes hv hfree hrec with hs | hstopped
  · exact absurd ⟨rec.output, (hiff rec.output).mp ⟨rec, hrec, hs, rfl⟩⟩ hnot
  · exact hstopped

/-- One call of one tool, nine tokens. -/
def askTheTime : Context where
  id := "a"
  parentId := "parent"
  skill := "skill"
  allowedTools := some ["clock"]
  limits := { maxTokens := 9, maxToolCalls := 1 }
  history := []
  createdAt := default
  metadata := []

/-- The model asks for the time, hears it, and answers, all of this within the budget. -/
def theTime : Round where
  replied := ⟨{}, 1⟩
  answer := ⟨"", [⟨"1", "clock", []⟩], .toolUse, { totalTokens := 4 }⟩
  outputs := [(⟨{}, 2⟩, "noon")]

theorem executes_complete_askTheTime :
    askTheTime.validate = .ok () ∧ Word.isSigned64 askTheTime.limits.maxTokens = true ∧
    ∃ rec, (new [] 2).Executes askTheTime ⟨⟨0, []⟩, none⟩ ⟨{}, 0⟩
        (theTime.heard ++ [.reply ⟨{}, 3⟩ (.ok (.endTurn "It is noon." 5))]) rec ∧
      rec.status = .complete ∧ rec.output = "It is noon." := by
  have hv : askTheTime.validate = .ok () := rfl
  have hword : Word.isSigned64 askTheTime.limits.maxTokens = true := by decide
  refine ⟨hv, hword, ?_⟩
  obtain ⟨hiff, -⟩ := executes_complete_iff (new [] 2) askTheTime ⟨⟨0, []⟩, none⟩ ⟨{}, 0⟩ hv rfl hword
    (theTime.heard ++ [.reply ⟨{}, 3⟩ (.ok (.endTurn "It is noon." 5))])
  exact (hiff _).mpr ⟨[theTime], ⟨{}, 3⟩, .endTurn "It is noon." 5,
    { heard := rfl, iterations := by decide, heads := by decide, tokens := by decide
      fulfilled := by decide, calls := by decide, final := ⟨rfl, rfl⟩ }⟩

end Executor

end Agent

end Overseer

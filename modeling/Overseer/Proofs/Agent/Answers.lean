import Overseer.Proofs.Agent.Success

/-!
# What an answer makes of a run

A run that hears an answer is ended by its own iteration, goes on with the next call that the model has
asked for, or comes to the end of the iteration. `Run.Hears` tells these apart, with the reason for each
exit, and everything about tools and cancellation is proved from it.

* `Run.hear?_iff`: what is done with an answer, by its kind.
* `Run.Exit`: the seven ways in which an iteration ends a run by itself.
* `Run.hears_of_hear?`: every answer that is heard does one of the three.
* `Run.Hears.next`: where a run goes on that does not end.
-/
namespace Overseer.Agent

/-- When an answer came. -/
def Heard.moment : Heard → Moment
  | .reply m _ => m
  | .output m _ => m

/-- The iteration that a run is in. -/
def Point.iteration? : Point → Option Nat
  | .asking i _ | .calling i _ _ => some i
  | .ended _ => none

/-- What a run waits for in the iteration `i` with some calls to make; without any, it has asked the model
in the next iteration, at `t`. -/
def Point.after (i : Nat) (t : Instant) : List ToolCall → Point
  | [] => .asking (i + 1) t
  | call :: more => .calling i call more

namespace Run

/-- The run once it has taken note of the output of a call. -/
def answered (r : Run) (call : ToolCall) (text : String) : Run :=
  { r with
    toolCalls := r.toolCalls + 1
    conversation := r.conversation ++ [Message.toolOutput call.id text] }

/-- What a run does with an answer of the kind that it waits for. -/
inductive Takes (scope : Scope) (r : Run) : Heard → Run → Prop where
  | noReply {m : Moment} {e : ModelError} {i : Nat} {asked : Instant} (point : r.point = .asking i asked) :
      Takes scope r (.reply m (.error e)) (r.stop .error ("LLM call failed: " ++ e.message))
  | reply {m : Moment} {a : ChatResponse} {i : Nat} {asked : Instant} (point : r.point = .asking i asked) :
      Takes scope r (.reply m (.ok a)) (r.accept (m.sight scope) i asked a)
  | noOutput {m : Moment} {e : ToolError} {i : Nat} {call : ToolCall} {more : List ToolCall}
      (point : r.point = .calling i call more) :
      Takes scope r (.output m (.error e)) (r.stop .error ("tool '" ++ call.name ++ "' failed: " ++ e.message))
  | output {m : Moment} {text : String} {i : Nat} {call : ToolCall} {more : List ToolCall}
      (point : r.point = .calling i call more) :
      Takes scope r (.output m (.ok text)) ((r.answered call text).proceed (m.sight scope) i more)

theorem hear?_iff {scope : Scope} {r r' : Run} {h : Heard} : r.hear? scope h = some r' ↔ r.Takes scope h r' := by
  constructor
  · intro hear
    cases h with
    | reply m reply =>
      simp only [hear?] at hear
      split at hear <;> cases hear
      rename_i i asked point
      simp only [hearReply, point]
      cases reply with
      | error e => exact .noReply point
      | ok a => exact .reply point
    | output m output =>
      simp only [hear?] at hear
      split at hear <;> cases hear
      rename_i i call more point
      simp only [hearOutput, point]
      cases output with
      | error e => exact .noOutput point
      | ok text => exact .output point
  · intro takes
    cases takes with
    | noReply point | reply point => simp only [hear?, hearReply, point]
    | noOutput point => simp only [hear?, hearOutput, point]
    | output point => simp only [hear?, hearOutput, point, answered]

/-- In the iteration `i` the run takes note of an answer, and has some calls to make. -/
inductive Notes (scope : Scope) (r : Run) : Heard → Nat → Run → List ToolCall → Prop where
  | reply {m : Moment} {a : ChatResponse} {i : Nat} {asked : Instant} (point : r.point = .asking i asked)
      (tokens : r.limits.AllowsTokens (addTokens r.tokens a.usage.totalTokens)) (calls : a.toolCalls ≠ []) :
      Notes scope r (.reply m (.ok a)) i (r.accepted (m.sight scope) i asked a) a.toolCalls
  | output {m : Moment} {text : String} {i : Nat} {call : ToolCall} {more : List ToolCall}
      (point : r.point = .calling i call more) :
      Notes scope r (.output m (.ok text)) i (r.answered call text) more

/-- How an iteration ends a run by itself, by what is heard last. -/
inductive Exit (scope : Scope) (r : Run) : Heard → Ending → Prop where
  /-- The model fails. -/
  | noReply {m : Moment} {e : ModelError} {i : Nat} {asked : Instant} (point : r.point = .asking i asked) :
      Exit scope r (.reply m (.error e)) ⟨.error, "", "LLM call failed: " ++ e.message⟩
  /-- The answer takes more tokens than are left. -/
  | tokens {m : Moment} {a : ChatResponse} {i : Nat} {asked : Instant} (point : r.point = .asking i asked)
      (excess : ¬r.limits.AllowsTokens (addTokens r.tokens a.usage.totalTokens)) :
      Exit scope r (.reply m (.ok a)) ⟨.error, "",
        (Violation.tokens (addTokens r.tokens a.usage.totalTokens) (r.limits.tokenLimit.getD 0)).message⟩
  /-- The answer is final. -/
  | answer {m : Moment} {a : ChatResponse} {i : Nat} {asked : Instant} (point : r.point = .asking i asked)
      (final : a.toolCalls = []) : Exit scope r (.reply m (.ok a)) ⟨.complete, a.content, ""⟩
  /-- One more call would be too many. -/
  | calls {h : Heard} {i : Nat} {r₁ : Run} {call : ToolCall} {more : List ToolCall}
      (notes : r.Notes scope h i r₁ (call :: more)) (spent : ¬r.limits.AllowsCalls (r₁.toolCalls + 1)) :
      Exit scope r h ⟨.error, "", "tool call limit reached (" ++
        toString (r.limits.toolCallLimit.getD 0) ++ "); refusing to run '" ++ call.name ++ "'"⟩
  /-- The tool is not allowed. -/
  | notAllowed {h : Heard} {i : Nat} {r₁ : Run} {call : ToolCall} {more : List ToolCall}
      (notes : r.Notes scope h i r₁ (call :: more))
      (forbidden : isToolAllowed r.task.context.allowedTools call.name = false) :
      Exit scope r h ⟨.error, "", "tool '" ++ call.name ++ "' is not allowed for this sub-agent"⟩
  /-- The tool fails. -/
  | noOutput {m : Moment} {e : ToolError} {i : Nat} {call : ToolCall} {more : List ToolCall}
      (point : r.point = .calling i call more) :
      Exit scope r (.output m (.error e)) ⟨.error, "", "tool '" ++ call.name ++ "' failed: " ++ e.message⟩
  /-- After the last call the time is over. -/
  | late {m : Moment} {text : String} {i : Nat} {call : ToolCall} (point : r.point = .calling i call [])
      (late : r.limits.timeout < r.elapsed (m.sight scope)) :
      Exit scope r (.output m (.ok text)) ⟨.timeout, "",
        (Violation.time (r.elapsed (m.sight scope)) r.limits.timeout).message⟩

/-- What an answer makes of a run. -/
inductive Hears (scope : Scope) (r : Run) (h : Heard) : Run → Prop where
  /-- The iteration ends the run. -/
  | exit {e : Ending} {r' : Run} (exit : r.Exit scope h e) (point : r'.point = .ended e) : Hears scope r h r'
  /-- The next call is made. -/
  | call {i : Nat} {r₁ : Run} {call : ToolCall} {more : List ToolCall}
      (notes : r.Notes scope h i r₁ (call :: more))
      (allowed : isToolAllowed r.task.context.allowedTools call.name = true)
      (room : r.limits.AllowsCalls (r₁.toolCalls + 1)) :
      Hears scope r h { r₁ with point := .calling i call more }
  /-- The iteration is over, and the next would begin. -/
  | boundary {i : Nat} {r₁ : Run} (notes : r.Notes scope h i r₁ []) :
      Hears scope r h (r₁.iterate (h.moment.sight scope) (i + 1))

variable {scope : Scope} {r r₁ r' : Run} {h : Heard} {i : Nat} {s : Sight} {calls : List ToolCall}

theorem Notes.task_eq (n : r.Notes scope h i r₁ calls) : r₁.task = r.task := by
  cases n <;> rfl

theorem Notes.limits_eq (n : r.Notes scope h i r₁ calls) : r₁.limits = r.limits := by
  rw [limits, n.task_eq, limits]

theorem Notes.iteration (n : r.Notes scope h i r₁ calls) : r.point.iteration? = some i := by
  cases n with
  | reply point => rw [point]; rfl
  | output point => rw [point]; rfl

/-- What leaves no calls to make is the output of the last one. -/
theorem Notes.last (n : r.Notes scope h i r₁ []) : ∃ m text call, h = .output m (.ok text) ∧
    r.point = .calling i call [] ∧ r₁ = r.answered call text := by
  generalize hc : ([] : List ToolCall) = calls at n
  cases n with
  | reply _ _ hne => exact absurd hc.symm hne
  | output point => subst hc; exact ⟨_, _, _, rfl, point, rfl⟩

/-- The budgets are kept. -/
structure Sober (r : Run) : Prop where
  tokens : r.limits.AllowsTokens r.tokens
  calls : r.limits.AllowsCalls r.toolCalls
  /-- So they are when the call that the run waits for is made. -/
  next : ∀ i call more, r.point = .calling i call more → r.limits.AllowsCalls (r.toolCalls + 1)

theorem Notes.sober (n : r.Notes scope h i r₁ calls) (hr : r.Sober) :
    r₁.limits.AllowsTokens r₁.tokens ∧ r₁.limits.AllowsCalls r₁.toolCalls := by
  cases n with
  | reply point tokens => exact ⟨tokens, hr.calls⟩
  | output point => exact ⟨hr.tokens, hr.next _ _ _ point⟩

/-- A run that has taken note of an answer goes on with the calls that it has to make. -/
theorem Notes.proceed (n : r.Notes scope h i r₁ calls) (hr : r.Sober) (hz : r.limits.timeout.isZero = false) :
    r.Hears scope h (r₁.proceed (h.moment.sight scope) i calls) := by
  have hlim := n.limits_eq
  obtain ⟨htokens, hcalls⟩ := n.sober hr
  cases calls with
  | cons call more =>
    simp only [Run.proceed]
    split
    · rename_i hspent
      refine .exit (.calls n fun hroom => ?_) (by rw [← hlim]; rfl)
      rw [callsSpent_eq_false.mpr (hlim ▸ hroom)] at hspent
      cases hspent
    rename_i hspent
    split
    · rename_i hforbidden
      exact .exit (.notAllowed n (n.task_eq ▸ hforbidden)) rfl
    · rename_i hallowed
      refine .call n (by rw [← n.task_eq]; simpa using hallowed) ?_
      rw [← hlim]
      exact callsSpent_eq_false.mp (Bool.eq_false_iff.mpr hspent)
  | nil =>
    simp only [Run.proceed]
    split
    · rename_i v hv
      -- tokens and calls are kept, so it is the time that is over
      have htime : ¬(r₁.elapsed (h.moment.sight scope) ≤ r₁.limits.timeout) := fun hle => by
        rw [(Limits.check_ok (hlim ▸ hz)).mpr ⟨htokens, hcalls, hle⟩] at hv
        cases hv
      have hlate : r₁.limits.timeout < r₁.elapsed (h.moment.sight scope) := Nat.not_le.mp htime
      obtain ⟨rfl, -⟩ := Limits.check_error htokens hcalls hv
      obtain ⟨m, text, call, rfl, point, rfl⟩ := n.last
      exact .exit (.late point hlate) rfl
    · exact .boundary n

/-- Every answer that a run hears ends it, lets it make the next call, or ends the iteration. -/
theorem hears_of_hear? (hr : r.Sober) (hz : r.limits.timeout.isZero = false)
    (hear : r.hear? scope h = some r') : r.Hears scope h r' := by
  cases hear?_iff.mp hear with
  | noReply point => exact .exit (.noReply point) rfl
  | noOutput point => exact .exit (.noOutput point) rfl
  | output point => exact (Notes.output point).proceed hr hz
  | @reply m a i asked point =>
    have hexceeds : Limits.exceeds (addTokens r.tokens a.usage.totalTokens) r.limits.tokenLimit = false ↔ _ :=
      Limits.exceeds_positive
    simp only [accept]
    split
    · rename_i hover
      refine .exit (.tokens point fun hkept => ?_) rfl
      rw [hexceeds.mpr hkept] at hover
      cases hover
    rename_i hover
    split
    · rename_i hfinal
      exact .exit (.answer point (by simpa [ChatResponse.isFinal] using hfinal)) rfl
    · rename_i hfinal
      have hkept := hexceeds.mp (Bool.eq_false_iff.mpr hover)
      exact (Notes.reply point hkept (by simpa [ChatResponse.isFinal] using hfinal)).proceed hr hz

/-- The head of an iteration ends the run or asks the model. -/
theorem iterate_cases (r : Run) (s : Sight) (i : Nat) :
    (∃ e, (r.iterate s i).point = .ended e) ∨ r.iterate s i = { r with point := .asking i s.now } := by
  unfold iterate
  split
  · exact Or.inl ⟨_, rfl⟩
  split
  · exact Or.inl ⟨_, rfl⟩
  split
  · exact Or.inl ⟨_, rfl⟩
  split
  · exact Or.inl ⟨_, rfl⟩
  · exact Or.inr rfl

/-- A run that goes on has taken note of the answer, and makes the next call, which is allowed, or asks the
model again. -/
theorem Hears.next (hears : r.Hears scope h r') (hp : ∀ e, r'.point ≠ .ended e) :
    ∃ i r₁ calls, r.Notes scope h i r₁ calls ∧ r' = { r₁ with point := .after i h.moment.now calls } ∧
      ∀ call ∈ calls.head?, isToolAllowed r.task.context.allowedTools call.name = true := by
  cases hears with
  | exit _ point => exact absurd point (hp _)
  | call notes allowed => exact ⟨_, _, _, notes, rfl, by simpa using allowed⟩
  | @boundary i r₁ notes =>
    rcases iterate_cases r₁ (h.moment.sight scope) (i + 1) with ⟨e, he⟩ | heq
    · exact absurd he (hp e)
    · exact ⟨i, r₁, [], notes, heq, by simp⟩

/-- A run that has not ended keeps to its budgets. -/
theorem Hears.sober (hears : r.Hears scope h r') (hr : r.Sober) (hp : ∀ e, r'.point ≠ .ended e) :
    r'.Sober := by
  cases hears with
  | exit _ point => exact absurd point (hp _)
  | call notes allowed room =>
    obtain ⟨htokens, hcalls⟩ := notes.sober hr
    refine ⟨htokens, hcalls, fun _ _ _ _ => ?_⟩
    rw [← notes.limits_eq] at room
    exact room
  | @boundary i r₁ notes =>
    obtain ⟨htokens, hcalls⟩ := notes.sober hr
    rcases iterate_cases r₁ (h.moment.sight scope) (i + 1) with ⟨e, he⟩ | heq
    · exact absurd he (hp e)
    · rw [heq]
      exact ⟨htokens, hcalls, fun _ _ _ hpoint => by cases hpoint⟩

/-- An ended run hears nothing. -/
theorem hear?_ended {e : Ending} (hp : r.point = .ended e) : r.hear? scope h = none := by
  cases h <;> simp [hear?, hp]

end Run

end Overseer.Agent

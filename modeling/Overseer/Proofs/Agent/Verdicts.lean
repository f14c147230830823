import Overseer.Proofs.Agent.Accounting
import Overseer.Proofs.Agent.Surroundings

/-!
# How a stopped run is classified

The budgets are checked in two places, and each has its own idea of what an exceeded budget means: at the
head of an iteration it is a timeout, whatever it is, and after the last call of an answer all but the time
are an error. The two never disagree. Tokens are counted when an answer comes and calls before they are made,
so when a run comes to a check nothing but its time can be over.

* `AtCheck`, `Refuses`: where a run is, read off what it has heard.
* `Run.Follows`: a run at work owes just the calls that it has been asked for.
* `Executor.stops_classified`: how every run is judged that enters an executor.
-/
namespace Overseer.Agent

/-! ## Where a run is -/

/-- The calls that the model has asked for. -/
def askedFor (heard : List Heard) : List ToolCall := (answersOf heard).flatMap (·.toolCalls)

/-- A run that has heard this comes to a check of its budgets: it has just begun, or the last call of an
answer has given its output. -/
def AtCheck (heard : List Heard) : Prop :=
  match heard.getLast? with
  | none => True
  | some (.output _ (.ok _)) => (askedFor heard).length = (outputsOf heard).length
  | some _ => False

/-- The next call that a run has been asked for is refused: it is one too many, or not allowed. -/
def Refuses (c : Context) (heard : List Heard) : Prop :=
  match heard.getLast? with
  | some (.reply _ (.ok _)) | some (.output _ (.ok _)) =>
    ∃ call, (askedFor heard)[(outputsOf heard).length]? = some call ∧
      (¬c.limits.AllowsCalls ((outputsOf heard).length + 1) ∨ isToolAllowed c.allowedTools call.name = false)
  | _ => False

/-- When a run that began at `m₀` has heard the last answer so far. -/
def latest (m₀ : Moment) (heard : List Heard) : Moment := (heard.getLast?.map Heard.moment).getD m₀

section

variable (heard : List Heard) (h : Heard) (m m₀ : Moment)

@[simp] theorem latest_concat : latest m₀ (heard ++ [h]) = h.moment := by
  rw [latest, List.getLast?_concat]
  rfl

@[simp] theorem askedFor_reply (a : ChatResponse) :
    askedFor (heard ++ [.reply m (.ok a)]) = askedFor heard ++ a.toolCalls := by
  simp [askedFor]

@[simp] theorem askedFor_output (o : Except ToolError String) :
    askedFor (heard ++ [.output m o]) = askedFor heard := by
  simp [askedFor]

theorem not_atCheck_reply (reply : Except ModelError ChatResponse) : ¬AtCheck (heard ++ [.reply m reply]) := by
  rw [AtCheck, List.getLast?_concat]
  exact id

theorem not_atCheck_noOutput (e : ToolError) : ¬AtCheck (heard ++ [.output m (.error e)]) := by
  rw [AtCheck, List.getLast?_concat]
  exact id

theorem atCheck_output (text : String) : AtCheck (heard ++ [.output m (.ok text)]) ↔
    (askedFor heard).length = (outputsOf heard).length + 1 := by
  rw [AtCheck, List.getLast?_concat]
  simp

theorem not_refuses_noReply (c : Context) (e : ModelError) : ¬Refuses c (heard ++ [.reply m (.error e)]) := by
  rw [Refuses, List.getLast?_concat]
  exact id

theorem not_refuses_noOutput (c : Context) (e : ToolError) : ¬Refuses c (heard ++ [.output m (.error e)]) := by
  rw [Refuses, List.getLast?_concat]
  exact id

end

/-! ## One answer -/

namespace Run

variable {task : Task} {t₀ : Instant} {scope : Scope} {heard : List Heard} {r r₁ r' : Run} {h : Heard}
  {i : Nat} {s : Sight} {e : Ending}

/-- A run at work: its books agree with what it has heard, and it owes the calls that are without an output. -/
structure Follows (task : Task) (t₀ : Instant) (heard : List Heard) (r : Run) : Prop where
  books : r.At task t₀ (tokensOf (answersOf heard)) (outputsOf heard).length
  owes : ∃ made, askedFor heard = made ++ r.pending ∧ made.length = (outputsOf heard).length

theorem Follows.opening (task : Task) (s : Sight) : (Run.opening task s).Follows task s.now [] :=
  ⟨⟨rfl, rfl, rfl, rfl⟩, [], rfl, rfl⟩

/-- A run that waits for the model owes nothing. -/
theorem Follows.asked {t : Instant} (hr : r.Follows task t₀ heard) (point : r.point = .asking i t) :
    (askedFor heard).length = (outputsOf heard).length := by
  obtain ⟨made, howes, hlength⟩ := hr.owes
  rw [howes, pending, point, List.append_nil]
  exact hlength

theorem Follows.length_eq (hr : r.Follows task t₀ heard) :
    (askedFor heard).length = (outputsOf heard).length + r.pending.length := by
  obtain ⟨made, howes, hlength⟩ := hr.owes
  rw [howes, List.length_append, hlength]

theorem Follows.goesOn {calls : List ToolCall} (hr : r.Follows task t₀ heard)
    (notes : r.Notes scope h i r₁ calls) :
    Follows task t₀ (heard ++ [h]) { r₁ with point := .after i h.moment.now calls } := by
  obtain ⟨made, howes, hlength⟩ := hr.owes
  cases notes with
  | @reply m a _ asked point _ _ =>
    have hbooks := hr.books.accepted (m.sight scope) i asked a
    refine ⟨⟨hbooks.task, hbooks.started, ?_, ?_⟩, made, ?_, ?_⟩
    · rw [answersOf_reply, tokensOf_concat]; exact hbooks.tokens
    · rw [outputsOf_reply]; exact hbooks.toolCalls
    · rw [askedFor_reply, howes, pending, point, List.append_nil, pending_after]
    · rw [outputsOf_reply]; exact hlength
  | @output m text _ call _ point =>
    refine ⟨⟨hr.books.task, hr.books.started, ?_, ?_⟩, made ++ [call], ?_, ?_⟩
    · rw [answersOf_output]; exact hr.books.tokens
    · show r.toolCalls + 1 = _
      rw [outputsOf_output, List.length_append, hr.books.toolCalls]; rfl
    · rw [askedFor_output, howes, pending, point, pending_after, List.append_assoc]; rfl
    · rw [outputsOf_output, List.length_append, List.length_append, hlength]; rfl

/-- What stops a run at the head of an iteration, when tokens and calls are within the budget. -/
theorem iterate_stops (htokens : r.limits.AllowsTokens r.tokens) (hcalls : r.limits.AllowsCalls r.toolCalls)
    (hp : (r.iterate s i).point = .ended e) :
    (e.status = .timeout → r.limits.timeout < r.elapsed s ∨ s.expired = true) ∧
      (e.status = .cancelled → s.cancelled = true) := by
  unfold iterate at hp
  split at hp
  · cases hp
    exact ⟨nofun, nofun⟩
  split at hp
  · rename_i hcancelled
    cases hp
    exact ⟨nofun, fun _ => hcancelled⟩
  split at hp
  · rename_i hexpired
    cases hp
    exact ⟨fun _ => Or.inr hexpired, nofun⟩
  split at hp
  · rename_i v hv
    cases hp
    obtain ⟨-, hlate⟩ := Limits.check_error htokens hcalls hv
    exact ⟨fun _ => Or.inl hlate, nofun⟩
  · cases hp

/-- An answer that has a run stopped for want of time, or as cancelled, is the output of a last call. -/
theorem Hears.stops (hr : r.Sober) (hears : r.Hears scope h r') (hp : r'.point = .ended e)
    (he : e.status = .timeout ∨ e.status = .cancelled) :
    (∃ m text i call, h = .output m (.ok text) ∧ r.point = .calling i call []) ∧
      (e.status = .timeout → r.limits.timeout < r.elapsed (h.moment.sight scope) ∨
        (h.moment.sight scope).expired = true) ∧
      (e.status = .cancelled → (h.moment.sight scope).cancelled = true) := by
  cases hears with
  | call => cases hp
  | exit exit point =>
    rw [hp] at point
    cases point
    cases exit with
    | late point late => exact ⟨⟨_, _, _, _, rfl, point⟩, fun _ => Or.inl late, nofun⟩
    | _ => rcases he with he | he <;> cases he
  | @boundary i r₁ notes =>
    obtain ⟨htokens, hcalls⟩ := notes.sober hr
    have hstops := iterate_stops htokens hcalls hp
    obtain ⟨m, text, call, rfl, point, rfl⟩ := notes.last
    exact ⟨⟨m, text, i, call, rfl, point⟩, hstops⟩

/-- A call that is refused is an error. -/
theorem proceed_refused {call : ToolCall} {calls : List ToolCall} (hnext : calls.head? = some call)
    (h : ¬r.limits.AllowsCalls (r.toolCalls + 1) ∨ isToolAllowed r.task.context.allowedTools call.name = false) :
    ∃ ending, (r.proceed s i calls).move = .finish ending ∧ ending.status = .error := by
  obtain ⟨more, rfl⟩ := List.head?_eq_some_iff.mp hnext
  simp only [proceed]
  split
  · exact ⟨_, rfl, rfl⟩
  rename_i hspent
  split
  · exact ⟨_, rfl, rfl⟩
  rename_i hallowed
  rcases h with hover | hforbidden
  · exact absurd (callsSpent_eq_false.mp (Bool.eq_false_iff.mpr hspent)) hover
  · exact absurd hforbidden hallowed

/-- So is an answer that takes more tokens than there are. -/
theorem accept_over {asked : Instant} {a : ChatResponse}
    (h : ¬r.limits.AllowsTokens (addTokens r.tokens a.usage.totalTokens)) :
    ∃ ending, (r.accept s i asked a).move = .finish ending ∧ ending.status = .error := by
  have hover : Limits.exceeds (addTokens r.tokens a.usage.totalTokens) r.limits.tokenLimit = true := by
    rw [← Bool.not_eq_false]
    exact fun hkept => h (Limits.exceeds_positive.mp hkept)
  simp only [accept]
  rw [if_pos hover]
  exact ⟨_, rfl, rfl⟩

theorem accept_refused {asked : Instant} {a : ChatResponse} {call : ToolCall}
    (hnext : a.toolCalls.head? = some call)
    (h : ¬r.limits.AllowsCalls (r.toolCalls + 1) ∨ isToolAllowed r.task.context.allowedTools call.name = false) :
    ∃ ending, (r.accept s i asked a).move = .finish ending ∧ ending.status = .error := by
  have hfinal : a.isFinal = false := by
    obtain ⟨more, hmore⟩ := List.head?_eq_some_iff.mp hnext
    simp [ChatResponse.isFinal, hmore]
  simp only [accept]
  split
  · exact ⟨_, rfl, rfl⟩
  rw [if_neg (Bool.eq_false_iff.mp hfinal)]
  exact proceed_refused (r := r.accepted s i asked a) hnext h

/-- Once the time is over the run stops after its last call, and is out of time. -/
theorem proceed_late (hz : r.limits.timeout.isZero = false) (htokens : r.limits.AllowsTokens r.tokens)
    (hcalls : r.limits.AllowsCalls r.toolCalls) (hlate : r.limits.timeout < r.elapsed s) :
    ∃ ending, (r.proceed s i []).move = .finish ending ∧ ending.status = .timeout := by
  simp only [proceed]
  split
  · rename_i v hv
    obtain ⟨rfl, -⟩ := Limits.check_error htokens hcalls hv
    exact ⟨_, rfl, rfl⟩
  · rename_i hok
    exact absurd ((Limits.check_ok hz).mp hok).2.2 (Nat.not_le.mpr hlate)

end Run

/-! ## A whole run -/

/-- How a run of a context that began at `m₀` is judged when it has heard its answers so far, and has become
`r`. -/
structure Judged (c : Context) (scope : Scope) (m₀ : Moment) (heard : List Heard) (r : Run) : Prop where
  /-- It is out of time only at a check, where its time is over or its deadline has come. -/
  timeout : ∀ ending, r.move = .finish ending → ending.status = .timeout → AtCheck heard ∧
    (c.limits.timeout < (latest m₀ heard).now.since m₀.now ∨ scope.isExpired (latest m₀ heard).now = true)
  /-- It is cancelled only at a check, where its scope is. -/
  cancelled : ∀ ending, r.move = .finish ending → ending.status = .cancelled → AtCheck heard ∧
    scope.isCancelled (latest m₀ heard).signals = true
  /-- More tokens than there are end it, with an error. -/
  tokens : overran c.limits heard = true → ∃ ending, r.move = .finish ending ∧ ending.status = .error
  /-- So does a call that is refused. -/
  calls : Refuses c heard → ∃ ending, r.move = .finish ending ∧ ending.status = .error
  /-- A check finds the time exceeded, or nothing. -/
  check : AtCheck heard → ∀ elapsed v, c.limits.check r.tokens r.toolCalls elapsed = .error v →
    v = .time elapsed c.limits.timeout
  /-- If the time is over after the last call of an answer, the run ends, and is out of time. -/
  late : heard ≠ [] → AtCheck heard → c.limits.timeout < (latest m₀ heard).now.since m₀.now →
    ∃ ending, r.move = .finish ending ∧ ending.status = .timeout

namespace Run

variable {c : Context} {m₀ : Moment} {scope : Scope} {heard : List Heard} {r r' : Run} {h : Heard}

/-- A failure of the model or of a tool is an error, and no check. -/
theorem judged_failed (error : String) (hcheck : ¬AtCheck heard) (hrefuses : ¬Refuses c heard) :
    Judged c scope m₀ heard (r.stop .error error) where
  timeout ending hmove hstatus := by cases hmove; cases hstatus
  cancelled ending hmove hstatus := by cases hmove; cases hstatus
  tokens _ := ⟨_, rfl, rfl⟩
  calls h := absurd h hrefuses
  check h := absurd h hcheck
  late _ h := absurd h hcheck

/-- An answer of the model is no check. It ends a run only with an error, or as its last answer. -/
theorem Follows.judged_reply {task : Task} {m : Moment} {a : ChatResponse} {i : Nat} {asked : Instant}
    (hr : r.Follows task m₀.now heard) (hsober : r.Sober) (hmax : task.context.limits.maxTokens < Word.half64)
    (point : r.point = .asking i asked)
    (hears : r.Hears scope (.reply m (.ok a)) (r.accept (m.sight scope) i asked a)) :
    Judged task.context scope m₀ (heard ++ [.reply m (.ok a)]) (r.accept (m.sight scope) i asked a) := by
  have hlimits : r.limits = task.context.limits := by rw [limits, hr.books.task]
  have hnot := not_atCheck_reply heard m (.ok a)
  refine ⟨fun ending hmove hstatus => ?_, fun ending hmove hstatus => ?_, fun hover => ?_, fun hrefuses => ?_,
    fun h => absurd h hnot, fun _ h => absurd h hnot⟩
  · obtain ⟨⟨_, _, _, _, hheard, _⟩, _⟩ := hears.stops hsober (ended_of_move hmove) (Or.inl hstatus)
    cases hheard
  · obtain ⟨⟨_, _, _, _, hheard, _⟩, _⟩ := hears.stops hsober (ended_of_move hmove) (Or.inr hstatus)
    cases hheard
  · apply accept_over
    rw [hlimits, hr.books.tokens, addTokens_min, allowsTokens_min hmax]
    rw [overran_reply] at hover
    simpa using hover
  · rw [Refuses, List.getLast?_concat] at hrefuses
    obtain ⟨call, hcall, hwhy⟩ := hrefuses
    -- nothing was owed, so the call is the first of this answer
    rw [askedFor_reply, outputsOf_reply, ← hr.asked point, List.getElem?_append_right (Nat.le_refl _),
      Nat.sub_self, ← List.head?_eq_getElem?] at hcall
    apply accept_refused hcall
    rw [hlimits, hr.books.toolCalls, hr.books.task]
    rwa [outputsOf_reply] at hwhy

/-- The output of a call is a check if no more calls are owed. -/
theorem Follows.judged_output {task : Task} {m : Moment} {text : String} {i : Nat} {call : ToolCall}
    {more : List ToolCall} (hr : r.Follows task m₀.now heard) (hsober : r.Sober)
    (hz : task.context.limits.timeout.isZero = false) (point : r.point = .calling i call more)
    (hears : r.Hears scope (.output m (.ok text)) ((r.answered call text).proceed (m.sight scope) i more)) :
    Judged task.context scope m₀ (heard ++ [.output m (.ok text)])
      ((r.answered call text).proceed (m.sight scope) i more) := by
  have hlimits : r.limits = task.context.limits := by rw [limits, hr.books.task]
  have helapsed (s : Sight) : r.elapsed s = s.now.since m₀.now := by rw [elapsed, hr.books.started]
  have hlength : (askedFor heard).length = (outputsOf heard).length + (more.length + 1) := by
    rw [hr.length_eq, pending, point]
    rfl
  have hlast : AtCheck (heard ++ [.output m (.ok text)]) → more = [] := fun hat => by
    rw [atCheck_output, hlength] at hat
    exact List.length_eq_zero_iff.mp (by omega)
  have hnotes : r.Notes scope (.output m (.ok text)) i (r.answered call text) more := .output point
  obtain ⟨htokens, hcalls⟩ := hnotes.sober hsober
  refine ⟨fun ending hmove hstatus => ?_, fun ending hmove hstatus => ?_, fun hover => ?_, fun hrefuses => ?_,
    fun hat d v hv => ?_, fun _ hat hlate => ?_⟩
  · obtain ⟨⟨_, _, _, _, _, hpoint⟩, hwhy, -⟩ := hears.stops hsober (ended_of_move hmove) (Or.inl hstatus)
    cases point.symm.trans hpoint
    rw [hlimits, helapsed] at hwhy
    rw [atCheck_output, hlength, latest_concat]
    exact ⟨rfl, hwhy hstatus⟩
  · obtain ⟨⟨_, _, _, _, _, hpoint⟩, -, hwhy⟩ := hears.stops hsober (ended_of_move hmove) (Or.inr hstatus)
    cases point.symm.trans hpoint
    rw [atCheck_output, hlength, latest_concat]
    exact ⟨rfl, hwhy hstatus⟩
  · rw [overran_output] at hover
    cases hover
  · rw [Refuses, List.getLast?_concat] at hrefuses
    obtain ⟨next, hnext, hwhy⟩ := hrefuses
    -- the call that gave its output is behind, so this is the first of those left
    obtain ⟨made, howes, hmade⟩ := hr.owes
    rw [askedFor_output, outputsOf_output, List.length_append, ← hmade, howes, pending, point,
      List.getElem?_append_right (by simp), Nat.add_sub_cancel_left] at hnext
    have hhead : more.head? = some next := by rw [List.head?_eq_getElem?]; exact hnext
    apply proceed_refused hhead
    rw [outputsOf_output, List.length_append] at hwhy
    rw [hnotes.limits_eq, hnotes.task_eq, hlimits, hr.books.task]
    show ¬task.context.limits.AllowsCalls (r.toolCalls + 1 + 1) ∨ _
    rw [hr.books.toolCalls]
    exact hwhy
  · obtain rfl := hlast hat
    rw [proceed_point] at hv
    rw [hnotes.limits_eq, hlimits] at htokens hcalls
    exact (Limits.check_error htokens hcalls hv).1
  · obtain rfl := hlast hat
    rw [latest_concat] at hlate
    refine proceed_late (by rw [hnotes.limits_eq, hlimits]; exact hz) htokens hcalls ?_
    rw [hnotes.limits_eq, hlimits]
    show _ < r.elapsed _
    rw [helapsed]
    exact hlate

/-- A run at work is judged by the next answer that it hears. -/
theorem Follows.judged {task : Task} (hr : r.Follows task m₀.now heard) (hsober : r.Sober)
    (hz : task.context.limits.timeout.isZero = false) (hmax : task.context.limits.maxTokens < Word.half64)
    (hear : r.hear? scope h = some r') : Judged task.context scope m₀ (heard ++ [h]) r' := by
  have htimed : r.limits.timeout.isZero = false := by rw [limits, hr.books.task]; exact hz
  have hears := hears_of_hear? hsober htimed hear
  cases hear?_iff.mp hear with
  | noReply => exact judged_failed _ (not_atCheck_reply _ _ _) (not_refuses_noReply _ _ _ _)
  | noOutput => exact judged_failed _ (not_atCheck_noOutput _ _ _) (not_refuses_noOutput _ _ _ _)
  | reply point => exact hr.judged_reply hsober hmax point hears
  | output point => exact hr.judged_output hsober hz point hears

/-- A run is judged where it begins. -/
theorem judged_start (task : Task) : Judged task.context scope m₀ [] (start task (m₀.sight scope)) := by
  have htokens : task.context.limits.AllowsTokens 0 := fun hpos => Int.le_of_lt hpos
  have hcalls : task.context.limits.AllowsCalls 0 := fun hpos => Int.le_of_lt hpos
  have hstops := fun ending hmove => iterate_stops (s := m₀.sight scope) (i := 1) (e := ending)
    (r := ⟨task, m₀.now, task.context.history, [], 0, 0, .asking 0 m₀.now⟩) htokens hcalls (ended_of_move hmove)
  refine ⟨fun ending hmove hstatus => ⟨trivial, ?_⟩, fun ending hmove hstatus => ⟨trivial, ?_⟩, nofun, nofun,
    fun _ d v hv => ?_, fun hne => absurd rfl hne⟩
  · exact (hstops ending hmove).1 hstatus
  · exact (hstops ending hmove).2 hstatus
  · rw [start, iterate_point] at hv
    exact (Limits.check_error htokens hcalls hv).1

end Run

/-! ## Runs of an executor -/

namespace Executor

/-- Whatever the run of a valid context hears, it is judged by that. -/
theorem judged_of_hearAll? {e : Executor} {c : Context} {scope : Scope} {m₀ : Moment} {heard : List Heard}
    {r : Run} (hv : c.validate = .ok ()) (hmax : c.limits.maxTokens < Word.half64)
    (hh : (Run.start (Task.of c e.tools e.maxIterations) (m₀.sight scope)).hearAll? scope heard = some r) :
    Judged c scope m₀ heard r := by
  rcases List.eq_nil_or_concat heard with rfl | ⟨before, h, rfl⟩
  · cases hh
    exact Run.judged_start (Task.of c e.tools e.maxIterations)
  · rw [List.concat_eq_append] at hh ⊢
    obtain ⟨r₁, hbefore, hear, hnot⟩ := Run.of_hearAll?_concat hh
    have hworks := works_of_start hv hbefore hnot
    have hfollows : r₁.Follows (Task.of c e.tools e.maxIterations) m₀.now before :=
      progress (P := fun heard _ r => r.Follows _ m₀.now heard) hv (.opening _ (m₀.sight scope))
        (fun _ _ _ _ _ _ _ _ hr notes => hr.goesOn notes) hbefore hnot
    exact hfollows.judged hworks.sober (Context.timeout_of_validate hv) hmax hear

/-- A valid context whose id is not in flight enters. Whatever its run hears among other runs, it is out of time
or cancelled only at a check, and only if it is so there; too many tokens and a call that is refused end it with
an error; and a check finds nothing exceeded but the time, which after the last call of an answer always makes
the run out of time. -/
theorem stops_classified (e : Executor) (c : Context) (scope : Scope) (m₀ : Moment) (hv : c.validate = .ok ())
    (hfree : e.inFlight.lookup c.id = none) (hword : Word.isSigned64 c.limits.maxTokens = true) :
    ∃ n e₁, e.enter c scope m₀.signals m₀.now = .ok (n, e₁) ∧ ∀ heard e₂, Amid n e₁ heard e₂ →
      ∃ r, e₂.active? n = some ⟨scope, r⟩ ∧ Judged c scope m₀ heard r := by
  obtain ⟨e₁, henter, hactive⟩ := enter_ok scope m₀ hv hfree
  refine ⟨e.runs.length, e₁, henter, fun heard e₂ hamid => ?_⟩
  obtain ⟨r, hhear, hactive₂⟩ := hamid.run hactive
  exact ⟨r, hactive₂, judged_of_hearAll? hv (of_decide_eq_true hword).2 hhear⟩

/-- The clock takes longer than there is time, and the model would ask for more. -/
def slowClock : List Heard := (toldAt 300000000001).take 2

theorem stops_classified_slowClock :
    askTheTime.validate = .ok () ∧ Word.isSigned64 askTheTime.limits.maxTokens = true ∧
    ∃ n e₁ e₂ r ending, (new clockAndShell 2).enter askTheTime ownScope {} 0 = .ok (n, e₁) ∧
      Amid n e₁ slowClock e₂ ∧ AtCheck slowClock ∧ e₂.active? n = some ⟨ownScope, r⟩ ∧
      r.move = .finish ending ∧ ending.status = .timeout ∧ Judged askTheTime ownScope ⟨{}, 0⟩ slowClock r := by
  have hv : askTheTime.validate = .ok () := rfl
  have hword : Word.isSigned64 askTheTime.limits.maxTokens = true := by decide
  obtain ⟨n, e₁, henter, hall⟩ :=
    stops_classified (new clockAndShell 2) askTheTime ownScope ⟨{}, 0⟩ hv rfl hword
  cases henter
  obtain ⟨r, hactive, hjudged⟩ := hall slowClock _ (.hears rfl (.hears rfl (.nil _)))
  obtain ⟨ending, hmove, hstatus⟩ := hjudged.late nofun rfl (by decide)
  exact ⟨hv, hword, _, _, _, r, ending, rfl, .hears rfl (.hears rfl (.nil _)), rfl, hactive, hmove, hstatus, hjudged⟩

end Executor

end Overseer.Agent

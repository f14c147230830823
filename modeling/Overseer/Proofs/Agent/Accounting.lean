import Overseer.Proofs.Agent.Progress

/-!
# What the record of a run accounts for

A run keeps books on what it hears: the tokens that the model's answers took, the outputs of its calls, a
step for each answer within the budget of tokens, and the conversation. However it ends, its record tells
the same as a count over all that it has heard.

* `Run.Hears.clear`: only a complete run has no error.
* `Run.Books`, `Run.Keeps`: the books of a run, in terms of what it has heard.
* `Executor.record_accounts`: the record of every run that ends.
-/
namespace Overseer

theorem Violation.message_ne (v : Violation) : v.message ≠ "" := by
  unfold Violation.message
  split <;> simp only [ne_eq, String.append_eq_empty_iff, String.reduceEq, false_and, and_self,
    not_false_eq_true]

namespace Agent

/-! ## What is heard -/

/-- The answers that the model has given. -/
def answersOf (heard : List Heard) : List ChatResponse :=
  heard.filterMap fun
    | .reply _ (.ok a) => some a
    | _ => none

/-- The outputs that tools have given. -/
def outputsOf (heard : List Heard) : List String :=
  heard.filterMap fun
    | .output _ (.ok text) => some text
    | _ => none

/-- The last thing heard is that the model has failed. -/
def unanswered (heard : List Heard) : Bool :=
  match heard.getLast? with
  | some (.reply _ (.error _)) => true
  | _ => false

/-- The last thing heard is an answer that takes more tokens than the budget has. -/
def overran (l : Limits) (heard : List Heard) : Bool :=
  match heard.getLast? with
  | some (.reply _ (.ok _)) => !decide (l.AllowsTokens (tokensOf (answersOf heard)))
  | _ => false

theorem tokensOf_concat (answers : List ChatResponse) (a : ChatResponse) :
    tokensOf (answers ++ [a]) = tokensOf answers + a.usage.totalTokens := by
  simp [tokensOf]

section

variable (heard : List Heard) (m : Moment)

@[simp] theorem answersOf_reply (a : ChatResponse) :
    answersOf (heard ++ [.reply m (.ok a)]) = answersOf heard ++ [a] := List.filterMap_append

@[simp] theorem answersOf_noReply (e : ModelError) :
    answersOf (heard ++ [.reply m (.error e)]) = answersOf heard :=
  List.filterMap_append.trans (List.append_nil _)

@[simp] theorem answersOf_output (o : Except ToolError String) :
    answersOf (heard ++ [.output m o]) = answersOf heard :=
  List.filterMap_append.trans (List.append_nil _)

@[simp] theorem outputsOf_reply (reply : Except ModelError ChatResponse) :
    outputsOf (heard ++ [.reply m reply]) = outputsOf heard :=
  List.filterMap_append.trans (List.append_nil _)

@[simp] theorem outputsOf_output (text : String) :
    outputsOf (heard ++ [.output m (.ok text)]) = outputsOf heard ++ [text] := List.filterMap_append

@[simp] theorem outputsOf_noOutput (e : ToolError) :
    outputsOf (heard ++ [.output m (.error e)]) = outputsOf heard :=
  List.filterMap_append.trans (List.append_nil _)

@[simp] theorem unanswered_reply (a : ChatResponse) : unanswered (heard ++ [.reply m (.ok a)]) = false := by
  rw [unanswered, List.getLast?_concat]

@[simp] theorem unanswered_noReply (e : ModelError) : unanswered (heard ++ [.reply m (.error e)]) = true := by
  rw [unanswered, List.getLast?_concat]

@[simp] theorem unanswered_output (o : Except ToolError String) :
    unanswered (heard ++ [.output m o]) = false := by
  rw [unanswered, List.getLast?_concat]

@[simp] theorem overran_reply (l : Limits) (a : ChatResponse) :
    overran l (heard ++ [.reply m (.ok a)]) =
      !decide (l.AllowsTokens (tokensOf (answersOf heard) + a.usage.totalTokens)) := by
  rw [overran, List.getLast?_concat, answersOf_reply, tokensOf_concat]

@[simp] theorem overran_noReply (l : Limits) (e : ModelError) :
    overran l (heard ++ [.reply m (.error e)]) = false := by
  rw [overran, List.getLast?_concat]

@[simp] theorem overran_output (l : Limits) (o : Except ToolError String) :
    overran l (heard ++ [.output m o]) = false := by
  rw [overran, List.getLast?_concat]

end

/-! ## Endings -/

namespace Run

variable {task : Task} {scope : Scope} {heard : List Heard} {moves : List Move} {r r₁ r' : Run} {h : Heard}
  {i : Nat} {s : Sight} {e : Ending}

/-- The head of an iteration ends a run only with an error. -/
theorem iterate_ended (he : (r.iterate s i).point = .ended e) : e.status ≠ .complete ∧ e.error ≠ "" := by
  unfold iterate at he
  split at he
  · cases he; simp
  split at he
  · cases he; simp
  split at he
  · cases he; simp
  split at he
  · cases he; exact ⟨nofun, Violation.message_ne _⟩
  · cases he

/-- An iteration ends a run with an error, or the run is complete. -/
theorem Exit.clear (exit : r.Exit scope h e) : e.error = "" ↔ e.status = .complete := by
  cases exit with
  | answer => exact iff_of_true rfl rfl
  | tokens => exact iff_of_false (Violation.message_ne (.tokens _ _)) nofun
  | late => exact iff_of_false (Violation.message_ne (.time _ _)) nofun
  | noReply => exact iff_of_false (by simp) nofun
  | calls => exact iff_of_false (by simp) nofun
  | notAllowed => exact iff_of_false (by simp) nofun
  | noOutput => exact iff_of_false (by simp) nofun

theorem Hears.clear (hears : r.Hears scope h r') (hp : r'.point = .ended e) :
    e.error = "" ↔ e.status = .complete := by
  cases hears with
  | exit exit point =>
    rw [hp] at point
    cases point
    exact exit.clear
  | call => cases hp
  | boundary => exact iff_of_false (iterate_ended hp).2 (iterate_ended hp).1

/-- A run that has ended as complete has taken note of an answer without calls, within the budget. -/
theorem complete_of_hear (hr : r.Sober) (hz : r.limits.timeout.isZero = false)
    (hear : r.hear? scope h = some r') (hp : r'.point = .ended e) (he : e.status = .complete) :
    ∃ m a i asked, h = .reply m (.ok a) ∧ e.output = a.content ∧
      r' = { r.accepted (m.sight scope) i asked a with point := .ended e } := by
  have hears := hears_of_hear? hr hz hear
  cases hears with
  | call => cases hp
  | boundary => exact absurd he (iterate_ended hp).1
  | exit exit point =>
    rw [hp] at point
    cases point
    cases exit with
    | @answer m a i asked point final =>
      refine ⟨m, a, i, asked, rfl, rfl, ?_⟩
      simp only [hear?, point, Option.some.injEq] at hear
      subst hear
      simp only [hearReply, point, accept] at hp ⊢
      split at hp
      · cases hp
      · rename_i hover
        rw [if_neg hover, if_pos (by rw [ChatResponse.isFinal, final]; rfl)]
        rfl
    | _ => cases he

/-! ## Books -/

/-- What a step tells, but for the time that it took. -/
def gist (s : Step) : Nat × String × String × Nat := (s.number, s.action, s.result, s.tokens)

/-- The books of a run after what it has heard, with a step for each of these answers. -/
structure Books (task : Task) (heard : List Heard) (answers : List ChatResponse) (r : Run) : Prop where
  tokens : r.tokens = min (tokensOf (answersOf heard)) maxTokens
  toolCalls : r.toolCalls = (outputsOf heard).length
  steps : r.steps.map gist = answers.mapIdx fun k a =>
    (k + 1, a.finishReason.text ++ ": " ++ toString a.toolCalls.length ++ " tool call(s)", a.content,
      a.usage.totalTokens)
  conversation : r.conversation.length = task.context.history.length + answers.length + r.toolCalls
  task : r.task = task

theorem Books.opening (task : Task) (s : Sight) : (Run.opening task s).Books task [] [] :=
  ⟨rfl, rfl, rfl, rfl, rfl⟩

theorem Books.length_steps {answers : List ChatResponse} (hr : r.Books task heard answers) :
    r.steps.length = answers.length := by
  have := congrArg List.length hr.steps
  simpa using this

theorem Books.accepted (hr : r.Books task heard (answersOf heard)) {m : Moment} {a : ChatResponse}
    {asked : Instant} (hi : i = (answersOf heard).length + 1) :
    (r.accepted s i asked a).Books task (heard ++ [.reply m (.ok a)])
      (answersOf (heard ++ [.reply m (.ok a)])) := by
  rw [answersOf_reply]
  refine ⟨?_, ?_, ?_, ?_, hr.task⟩
  · simp only [Run.accepted, answersOf_reply, tokensOf_concat, hr.tokens, addTokens_min]
  · rw [outputsOf_reply]; exact hr.toolCalls
  · rw [List.mapIdx_concat, ← hr.steps, hi]
    simp [Run.accepted, gist, stepOf]
  · simp only [Run.accepted, List.length_append, List.length_singleton, hr.conversation]
    omega

theorem Books.answered {answers : List ChatResponse} (hr : r.Books task heard answers) (m : Moment)
    (text : String) (call : ToolCall) :
    (r.answered call text).Books task (heard ++ [.output m (.ok text)]) answers := by
  refine ⟨?_, ?_, hr.steps, ?_, hr.task⟩
  · rw [answersOf_output]; exact hr.tokens
  · simp [Run.answered, hr.toolCalls]
  · simp only [Run.answered, List.length_append, List.length_singleton, hr.conversation]
    omega

/-- An answer beyond the budget counts with its tokens, but makes no step. -/
theorem Books.overran {answers : List ChatResponse} (hr : r.Books task heard answers) {m : Moment}
    {a : ChatResponse} :
    Books task (heard ++ [.reply m (.ok a)]) answers
      { r with tokens := addTokens r.tokens a.usage.totalTokens } := by
  refine ⟨?_, ?_, hr.steps, hr.conversation, hr.task⟩
  · simp only [answersOf_reply, tokensOf_concat, hr.tokens, addTokens_min]
  · rw [outputsOf_reply]; exact hr.toolCalls

/-- A failure is not in the books. -/
theorem Books.failed {answers : List ChatResponse} (hr : r.Books task heard answers)
    (hanswers : answersOf (heard ++ [h]) = answersOf heard)
    (houtputs : outputsOf (heard ++ [h]) = outputsOf heard) : r.Books task (heard ++ [h]) answers :=
  ⟨by rw [hanswers]; exact hr.tokens, by rw [houtputs]; exact hr.toolCalls, hr.steps, hr.conversation, hr.task⟩

/-- The books do not depend on what the run waits for. -/
theorem Books.at {answers : List ChatResponse} (hr : r.Books task heard answers) (p : Point) :
    Books task heard answers { r with point := p } :=
  ⟨hr.tokens, hr.toolCalls, hr.steps, hr.conversation, hr.task⟩

/-- The books of a run at work, which has asked the model once in each iteration. -/
structure Keeps (task : Task) (heard : List Heard) (moves : List Move) (r : Run) : Prop where
  books : r.Books task heard (answersOf heard)
  asked : ∀ i, r.point.iteration? = some i → (requested moves).length = i
  asking : ∀ i t, r.point = .asking i t → i = (answersOf heard).length + 1
  calling : ∀ i call more, r.point = .calling i call more → i = (answersOf heard).length

theorem Keeps.opening (task : Task) (s : Sight) : (Run.opening task s).Keeps task [] [(Run.opening task s).move] where
  books := .opening task s
  asked i hi := by cases hi; rfl
  asking i t hp := by cases hp; rfl
  calling i call more hp := by cases hp

theorem Keeps.goesOn {calls : List ToolCall} (hr : r.Keeps task heard moves)
    (notes : r.Notes scope h i r₁ calls) :
    Keeps task (heard ++ [h]) (moves ++ [Run.move { r₁ with point := .after i h.moment.now calls }])
      { r₁ with point := .after i h.moment.now calls } := by
  have hasked := hr.asked i notes.iteration
  cases notes with
  | @reply m a _ asked point _ hne =>
    have hi := hr.asking i asked point
    obtain ⟨call, more, hcalls⟩ := List.exists_cons_of_ne_nil hne
    rw [hcalls]
    refine ⟨(hr.books.accepted hi).at _, fun j hj => ?_, fun j t hp => (by cases hp), fun j _ _ hp => ?_⟩
    · cases hj
      rw [requested_append, List.length_append, hasked]; rfl
    · cases hp; simpa using hi
  | @output m text _ call _ point =>
    have hi := hr.calling i call calls point
    have hbooks := (hr.books.answered m text call).at
      (.after i (Heard.output m (.ok text)).moment.now calls)
    rw [← answersOf_output heard m (.ok text)] at hbooks
    refine ⟨hbooks, fun j hj => ?_, fun j t hp => ?_, fun j _ _ hp => ?_⟩
    · rw [requested_append, List.length_append, hasked]
      cases calls <;> cases hj <;> rfl
    · rw [answersOf_output]
      cases calls <;> cases hp
      rw [hi]
    · rw [answersOf_output]
      cases calls <;> cases hp
      exact hi

/-- The books of a run when it has heard its last answer: the model's answers are all in them, but for one
beyond the budget. -/
theorem Keeps.last (hmax : task.context.limits.maxTokens < Word.half64) (hr : r.Keeps task heard moves)
    (hear : r.hear? scope h = some r') :
    ∃ answers, r'.Books task (heard ++ [h]) answers ∧ answers <+: answersOf (heard ++ [h]) ∧
      (answersOf (heard ++ [h])).length =
        answers.length + (overran task.context.limits (heard ++ [h])).toNat ∧
      (requested moves).length = answers.length +
        (unanswered (heard ++ [h]) || overran task.context.limits (heard ++ [h])).toNat := by
  have hnoted := hear?_noted hear
  cases hear?_iff.mp hear with
  | @noReply m e i asked point =>
    have hi := hr.asking i asked point
    have hasked : (requested moves).length = i := hr.asked i (by rw [point]; rfl)
    have hbooks := hr.books.failed (h := .reply m (.error e)) (by simp) (by simp)
    exact ⟨_, hbooks.at _, by simp, by simp, by simp [hasked, hi]⟩
  | @noOutput m e i call more point =>
    have hi := hr.calling i call more point
    have hasked : (requested moves).length = i := hr.asked i (by rw [point]; rfl)
    have hbooks := hr.books.failed (h := .output m (.error e)) (by simp) (by simp)
    exact ⟨_, hbooks.at _, by simp, by simp, by simp [hasked, hi]⟩
  | @output m text i call more point =>
    have hi := hr.calling i call more point
    have hasked : (requested moves).length = i := hr.asked i (by rw [point]; rfl)
    rw [hnoted]
    simp only [noted, point]
    exact ⟨_, (hr.books.answered m text call).at _, by simp, by simp, by simp [hasked, hi]⟩
  | @reply m a i asked point =>
    have hi := hr.asking i asked point
    have hasked : (requested moves).length = i := hr.asked i (by rw [point]; rfl)
    have hT : r.limits.AllowsTokens (addTokens r.tokens a.usage.totalTokens) ↔
        task.context.limits.AllowsTokens (tokensOf (answersOf heard) + a.usage.totalTokens) := by
      rw [limits, hr.books.task, hr.books.tokens, addTokens_min, allowsTokens_min hmax]
    rw [hnoted]
    simp only [noted, point]
    split
    · rename_i hkept
      exact ⟨_, (hr.books.accepted hi).at _, by simp, by simp [hT.mp hkept], by simp [hT.mp hkept, hasked, hi]⟩
    · rename_i hover
      exact ⟨_, hr.books.overran.at _, by simp, by simp [mt hT.mpr hover],
        by simp [mt hT.mpr hover, hasked, hi]⟩

end Run

/-! ## Records -/

/-- What the record of a run tells of all that the run has heard and asked for, if the model may be asked
`n` times. -/
structure Accounts (c : Context) (n : Nat) (heard : List Heard) (moves : List Move) (rec : Record) : Prop where
  /-- The tokens of all answers, as far as a word can count them. -/
  tokens : rec.tokens = min (tokensOf (answersOf heard)) (2 ^ 64 - 1)
  toolCalls : rec.toolCalls = (outputsOf heard).length
  /-- The steps are numbered from one on, and each tells of the answer with its number. -/
  steps : rec.steps.map Run.gist = ((answersOf heard).take rec.steps.length).mapIdx fun k a =>
    (k + 1, a.finishReason.text ++ ": " ++ toString a.toolCalls.length ++ " tool call(s)", a.content,
      a.usage.totalTokens)
  permitted : rec.steps.length ≤ n
  /-- Each answer has a step, but for one that takes more tokens than there are. -/
  answers : (answersOf heard).length = rec.steps.length + (overran c.limits heard).toNat
  /-- The model is asked once for each step, and once more if it fails or takes more tokens than there are. -/
  requests : (requested moves).length =
    rec.steps.length + (unanswered heard || overran c.limits heard).toNat
  conversation : Dict.get? "conversation_len" rec.metadata =
    some (.nat (c.history.length + rec.steps.length + rec.toolCalls))
  error : rec.error = "" ↔ rec.status = .complete
  output : rec.status = .complete → ∃ step, rec.steps.getLast? = some step ∧ rec.output = step.result

namespace Executor

/-- Whatever the run of a valid context has heard when it ends, its record accounts for it. -/
theorem accounts_of_ended {e : Executor} {c : Context} {scope : Scope} {s : Sight} {heard : List Heard} {r : Run}
    {ending : Ending} (hv : c.validate = .ok ()) (hmax : c.limits.maxTokens < Word.half64)
    (hh : (Run.start (Task.of c e.tools e.maxIterations) s).hearAll? scope heard = some r)
    (hp : r.point = .ended ending) (now : Instant) (time : Timestamp) :
    Accounts c e.maxIterations heard
      ((Run.start (Task.of c e.tools e.maxIterations) s).moves scope heard) (r.record ending now time) := by
  rcases ended_cases hh hp with ⟨rfl, rfl⟩ | ⟨before, h, r₁, rfl, hbefore, hear, hnot⟩
  · -- it has ended where it would have begun
    have hended : (Run.iterate ⟨Task.of c e.tools e.maxIterations, s.now, c.history, [], 0, 0,
        .asking 0 s.now⟩ s 1).point = .ended ending := hp
    obtain ⟨hstatus, herror⟩ := Run.iterate_ended hended
    rw [Run.moves_ended hp, Run.start, Run.iterate_point]
    exact ⟨rfl, rfl, rfl, Nat.zero_le _, rfl, rfl, rfl, iff_of_false herror hstatus,
      fun hcomplete => absurd hcomplete hstatus⟩
  · have hworks := works_of_start hv hbefore hnot
    have hz := hworks.timed (Context.timeout_of_validate hv)
    have hkeeps : r₁.Keeps (Task.of c e.tools e.maxIterations) before
        ((Run.start (Task.of c e.tools e.maxIterations) s).moves scope before) :=
      progress (P := fun heard moves r => r.Keeps _ heard moves) hv (.opening _ _)
        (fun _ _ _ _ _ _ _ _ hr notes => hr.goesOn notes) hbefore hnot
    obtain ⟨answers, hbooks, hprefix, hanswers, hrequests⟩ := hkeeps.last hmax hear
    have hlength := hbooks.length_steps
    have hmoves : requested ((Run.start (Task.of c e.tools e.maxIterations) s).moves scope (before ++ [h])) =
        requested ((Run.start (Task.of c e.tools e.maxIterations) s).moves scope before) := by
      rw [Run.moves_concat hbefore hear, Run.move_ended hp, requested_append]
      exact List.append_nil _
    have hclear := (Run.hears_of_hear? hworks.sober hz hear).clear hp
    refine ⟨hbooks.tokens, hbooks.toolCalls, ?_, ?_, ?_, ?_, ?_, hclear, fun hcomplete => ?_⟩
    · show r.steps.map Run.gist = ((answersOf (before ++ [h])).take r.steps.length).mapIdx _
      rw [hlength, ← List.prefix_iff_eq_take.mp hprefix]
      exact hbooks.steps
    · show r.steps.length ≤ _
      obtain ⟨i, hi⟩ : ∃ i, r₁.point.iteration? = some i := by
        cases hr₁ : r₁.point with
        | ended e => exact absurd hr₁ (hnot e)
        | _ => exact ⟨_, rfl⟩
      have hle := hworks.permitted i hi
      have hasked := hkeeps.asked i hi
      rw [hlength]
      exact Nat.le_trans (by omega) hle
    · show _ = r.steps.length + _
      rw [hlength]; exact hanswers
    · show _ = r.steps.length + _
      rw [hmoves, hlength]; exact hrequests
    · show some (Json.nat r.conversation.length) = some (Json.nat (c.history.length + r.steps.length + r.toolCalls))
      rw [hbooks.conversation, hlength]
      rfl
    · obtain ⟨m, a, i, asked, rfl, houtput, rfl⟩ := Run.complete_of_hear hworks.sober hz hear hp hcomplete
      exact ⟨_, List.getLast?_concat, houtput⟩

/-- A valid context whose id is not in flight enters. However its run ends, when it has heard some answers
among other runs, the record that it leaves accounts for all of them. -/
theorem record_accounts (e : Executor) (c : Context) (scope : Scope) (m₀ : Moment) (hv : c.validate = .ok ())
    (hfree : e.inFlight.lookup c.id = none) (hword : Word.isSigned64 c.limits.maxTokens = true) :
    ∃ n e₁, e.enter c scope m₀.signals m₀.now = .ok (n, e₁) ∧
      ∀ heard e₂ ending now time rec, Amid n e₁ heard e₂ → e₂.move? n = some (.finish ending) →
        e₂.record? n ending now time = some rec →
        Accounts c e.maxIterations heard (e₁.moves n heard) rec := by
  obtain ⟨e₁, henter, hactive⟩ := enter_ok scope m₀ hv hfree
  refine ⟨e.runs.length, e₁, henter, fun heard e₂ ending now time rec hamid hmove hrec => ?_⟩
  have hmax : c.limits.maxTokens < Word.half64 := (of_decide_eq_true hword).2
  obtain ⟨r, hhear, hactive₂⟩ := hamid.run hactive
  rw [move?, hactive₂] at hmove
  rw [record?, hactive₂] at hrec
  cases hrec
  rw [moves_eq hactive]
  exact accounts_of_ended hv hmax hhear (Run.ended_of_move (Option.some.inj hmove)) now time

theorem record_accounts_theTime :
    askTheTime.validate = .ok () ∧ Word.isSigned64 askTheTime.limits.maxTokens = true ∧
    ∃ n e₁ e₂ rec, (new clockAndShell 2).enter askTheTime ownScope {} 0 = .ok (n, e₁) ∧
      Amid n e₁ (theTime.heard ++ [.reply ⟨{}, 3⟩ (.ok (.endTurn "It is noon." 5))]) e₂ ∧
      e₂.record? n ⟨.complete, "It is noon.", ""⟩ 3 default = some rec ∧
      rec.tokens = 9 ∧ rec.toolCalls = 1 ∧ rec.steps.length = 2 ∧
      Accounts askTheTime 2 (theTime.heard ++ [.reply ⟨{}, 3⟩ (.ok (.endTurn "It is noon." 5))])
        (e₁.moves n (theTime.heard ++ [.reply ⟨{}, 3⟩ (.ok (.endTurn "It is noon." 5))])) rec := by
  have hv : askTheTime.validate = .ok () := rfl
  have hword : Word.isSigned64 askTheTime.limits.maxTokens = true := by decide
  obtain ⟨n, e₁, henter, hall⟩ :=
    record_accounts (new clockAndShell 2) askTheTime ownScope ⟨{}, 0⟩ hv rfl hword
  cases henter
  exact ⟨hv, hword, _, _, _, _, rfl, .hears rfl (.hears rfl (.hears rfl (.nil _))), rfl, rfl, rfl, rfl,
    hall _ _ _ _ _ _ (.hears rfl (.hears rfl (.hears rfl (.nil _)))) rfl rfl⟩

end Executor

end Agent

end Overseer

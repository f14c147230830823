import Mathlib.Data.List.Infix
import Overseer.Proofs.Agent.Progress

/-!
# The conversation of a run

Each request tells the model the whole conversation: the history of the context, and then for each round
the model's answer and the outputs of its calls, in the order in which it asked for them. A run asks the
model only between rounds, when all calls have their outputs, and what has been said is never changed.

* `Round.messages`: what a round adds to the conversation.
* `Run.Converses`: what a run at work has said and asked for, by the rounds that it has come through.
* `Executor.conversation_complete`: every request of every run is the conversation so far.
-/
namespace Overseer.Agent

/-- The outputs of some calls, each under the id of its call. -/
def toolTurns (calls : List ToolCall) (outputs : List Output) : List Message :=
  List.zipWith (fun call output => Message.toolOutput call.id output.2) calls outputs

theorem toolTurns_append {calls more : List ToolCall} {outputs later : List Output}
    (h : outputs.length = calls.length) :
    toolTurns (calls ++ more) (outputs ++ later) = toolTurns calls outputs ++ toolTurns more later :=
  List.zipWith_append h.symm

/-- Outputs ask for nothing. -/
theorem toolCalls_toolTurns (calls : List ToolCall) (outputs : List Output) :
    ∀ m ∈ toolTurns calls outputs, m.toolCalls = [] := by
  intro m hm
  obtain ⟨k, hk, rfl⟩ := List.getElem_of_mem hm
  simp [toolTurns, Message.toolOutput]

/-- As many outputs as there are calls answer each of them, in order. -/
theorem answered_toolTurns {calls : List ToolCall} {outputs : List Output} (h : outputs.length = calls.length) :
    (toolTurns calls outputs).filterMap (·.toolCallId) = calls.map (·.id) := by
  induction calls generalizing outputs with
  | nil => rfl
  | cons call calls ih =>
    obtain _ | ⟨output, outputs⟩ := outputs
    · cases h
    · show call.id :: (toolTurns calls outputs).filterMap (·.toolCallId) = _
      rw [ih (Nat.succ.inj h)]
      rfl

namespace Round

/-- The answer, and under the ids of its calls the outputs that are there. -/
def messages (x : Round) : List Message :=
  Message.assistant x.answer.content x.answer.toolCalls :: toolTurns x.answer.toolCalls x.outputs

/-- All calls have their outputs. -/
def Whole (x : Round) : Prop := x.outputs.length = x.calls

/-- The round with one output more. -/
def add (x : Round) (output : Output) : Round := { x with outputs := x.outputs ++ [output] }

variable {x : Round} {done more : List ToolCall} {call : ToolCall}

theorem heard_add (x : Round) (m : Moment) (text : String) :
    (x.add (m, text)).heard = x.heard ++ [.output m (.ok text)] := by
  simp [add, heard, Output.heard]

/-- One more output is one more message, which answers the call whose turn it is. -/
theorem messages_add (hcalls : x.answer.toolCalls = done ++ call :: more)
    (houtputs : x.outputs.length = done.length) (output : Output) :
    (x.add output).messages = x.messages ++ [Message.toolOutput call.id output.2] := by
  have hbefore : toolTurns (done ++ call :: more) (x.outputs ++ []) =
      toolTurns done x.outputs ++ toolTurns (call :: more) [] := toolTurns_append houtputs
  rw [List.append_nil] at hbefore
  simp only [messages, add, hcalls, toolTurns_append houtputs, hbefore]
  simp [toolTurns]

/-- In a whole round each call is answered once, in order. -/
theorem answered_eq_asked (h : x.Whole) :
    x.messages.filterMap (·.toolCallId) = x.messages.flatMap fun m => m.toolCalls.map (·.id) := by
  have hasked : ((toolTurns x.answer.toolCalls x.outputs).flatMap fun m => m.toolCalls.map (·.id)) = [] :=
    List.flatMap_eq_nil_iff.mpr fun m hm => by rw [toolCalls_toolTurns _ _ m hm]; rfl
  simp [messages, Message.assistant, answered_toolTurns h, hasked]

end Round

namespace Task

/-- What has been said after some rounds. -/
def said (task : Task) (rounds : List Round) : List Message :=
  task.context.history ++ rounds.flatMap Round.messages

/-- What the model is asked after some rounds. -/
def request (task : Task) (rounds : List Round) : ChatRequest := ⟨task.said rounds, task.tools⟩

theorem said_concat (task : Task) (rounds : List Round) (x : Round) :
    task.said (rounds ++ [x]) = task.said rounds ++ x.messages := by
  simp [said]

end Task

/-- Each list of rounds that another begins with has more rounds after it. -/
theorem pairwise_inits (rounds : List Round) :
    rounds.inits.Pairwise fun a b => ∃ x rest, b = a ++ x :: rest := by
  induction rounds using List.reverseRecOn with
  | nil => simp
  | append_singleton rounds x ih =>
    rw [List.inits_append]
    refine List.pairwise_append.mpr ⟨ih, by simp, fun a ha b hb => ?_⟩
    obtain ⟨rest, rfl⟩ := (List.mem_inits _ _).mp ha
    obtain rfl : b = a ++ (rest ++ [x]) := by simpa using hb
    cases rest with
    | nil => exact ⟨x, [], rfl⟩
    | cons y rest => exact ⟨y, rest ++ [x], rfl⟩

/-- What has been said is a proper beginning of what is said later. -/
theorem requests_grow (task : Task) (rounds : List Round) :
    (rounds.inits.map task.request).Pairwise fun q q' =>
      q.messages <+: q'.messages ∧ q.messages.length < q'.messages.length := by
  refine List.pairwise_map.mpr ((pairwise_inits rounds).imp ?_)
  rintro before _ ⟨x, rest, rfl⟩
  have hmessages : (task.request (before ++ x :: rest)).messages =
      (task.request before).messages ++ (x.messages ++ rest.flatMap Round.messages) := by
    simp [Task.request, Task.said]
  rw [hmessages]
  refine ⟨List.prefix_append _ _, ?_⟩
  rw [List.length_append]
  exact Nat.lt_add_of_pos_right (by simp [Round.messages])

/-! ## A run at work -/

/-- What a run has said and asked for when it has heard these answers and made these moves, of which the last
is not answered yet. -/
inductive Run.Converses (task : Task) (heard : List Heard) (moves : List Move) (r : Run) : Prop where
  /-- It has come through some rounds, and has asked the model. -/
  | asking (rounds : List Round) {i : Nat} {t : Instant} (point : r.point = .asking i t)
      (heard : heard = rounds.flatMap Round.heard) (whole : ∀ x ∈ rounds, x.Whole)
      (said : r.conversation = task.said rounds)
      (calls : invoked moves = rounds.flatMap fun x => x.answer.toolCalls)
      (requests : requested moves = rounds.inits.map task.request)
  /-- It is part way through another round: of the calls that the model asked for, `done` have outputs. -/
  | calling (rounds : List Round) (x : Round) (done : List ToolCall) {i : Nat} {call : ToolCall}
      {more : List ToolCall}
      (point : r.point = .calling i call more)
      (heard : heard = rounds.flatMap Round.heard ++ x.heard) (whole : ∀ x ∈ rounds, x.Whole)
      (asked : x.answer.toolCalls = done ++ call :: more) (outputs : x.outputs.length = done.length)
      (said : r.conversation = task.said rounds ++ x.messages)
      (calls : invoked moves = rounds.flatMap (fun x => x.answer.toolCalls) ++ (done ++ [call]))
      (requests : requested moves = rounds.inits.map task.request)

namespace Run

variable {task : Task} {scope : Scope} {heard : List Heard} {moves : List Move} {r r₁ : Run} {h : Heard}
  {i : Nat} {calls : List ToolCall}

theorem Converses.opening (task : Task) (s : Sight) :
    (opening task s).Converses task [] [(opening task s).move] :=
  .asking [] rfl rfl (fun _ hx => by cases hx) (List.append_nil _).symm rfl
    (by simp [requested, move, Run.opening, Task.request, Task.said])

/-- The model asks for some calls: a round has begun. -/
theorem Converses.reply {m : Moment} {a : ChatResponse} {asked : Instant} {call : ToolCall} {more : List ToolCall}
    (hr : r.Converses task heard moves) (point : r.point = .asking i asked) (hcalls : a.toolCalls = call :: more) :
    Converses task (heard ++ [.reply m (.ok a)]) (moves ++ [.invoke call])
      { r.accepted (m.sight scope) i asked a with point := .calling i call more } := by
  cases hr with
  | calling _ _ _ hp => rw [point] at hp; cases hp
  | asking rounds _ hheard whole said calls requests =>
    refine .calling rounds ⟨m, a, []⟩ [] rfl (by rw [hheard]; rfl) whole hcalls rfl ?_ ?_ ?_
    · simp [accepted, said, Round.messages, toolTurns]
    · rw [invoked_append, calls]; rfl
    · rw [requested_append, requests]; exact List.append_nil _

/-- A call has its output: the next call is made, or the round is whole. -/
theorem Converses.output {m : Moment} {text : String} {call : ToolCall} {more : List ToolCall} {t : Instant}
    (htask : r.task = task) (hr : r.Converses task heard moves) (point : r.point = .calling i call more) :
    Converses task (heard ++ [.output m (.ok text)])
      (moves ++ [Run.move { r.answered call text with point := .after i t more }])
      { r.answered call text with point := .after i t more } := by
  cases hr with
  | asking _ hp => rw [point] at hp; cases hp
  | calling rounds x done hp hheard whole asked outputs said calls requests =>
    rw [point] at hp
    cases hp
    have hheard' : heard ++ [.output m (.ok text)] = rounds.flatMap Round.heard ++ (x.add (m, text)).heard := by
      rw [hheard, Round.heard_add, List.append_assoc]
    have hsaid : (r.answered call text).conversation = task.said rounds ++ (x.add (m, text)).messages := by
      rw [Round.messages_add asked outputs, answered, said, List.append_assoc]
    cases more with
    | cons next more =>
      refine .calling rounds (x.add (m, text)) (done ++ [call]) rfl hheard' whole ?_ ?_ hsaid ?_ ?_
      · simp [Round.add, asked]
      · simp [Round.add, outputs]
      · rw [invoked_append, calls, List.append_assoc]; rfl
      · rw [requested_append, requests]; exact List.append_nil _
    | nil =>
      refine .asking (rounds ++ [x.add (m, text)]) rfl ?_ ?_ ?_ ?_ ?_
      · simp [hheard']
      · intro y hy
        rcases List.mem_append.mp hy with hy | hy
        · exact whole y hy
        · obtain rfl := List.mem_singleton.mp hy
          simp [Round.Whole, Round.calls, Round.add, outputs, asked]
      · rw [Task.said_concat]; exact hsaid
      · rw [invoked_append, calls]; simp [invoked, move, Point.after, Round.add, asked]
      · have hasks : Run.move { r.answered call text with point := .after i t [] } =
            .ask (task.request (rounds ++ [x.add (m, text)])) := by
          show Move.ask ⟨(r.answered call text).conversation, r.task.tools⟩ = _
          rw [hsaid, htask, Task.request, Task.said_concat]
        rw [requested_append, requests, List.inits_append, hasks]
        simp [requested]

theorem Converses.goesOn (htask : r.task = task) (hr : r.Converses task heard moves)
    (notes : r.Notes scope h i r₁ calls) :
    Converses task (heard ++ [h]) (moves ++ [Run.move { r₁ with point := .after i h.moment.now calls }])
      { r₁ with point := .after i h.moment.now calls } := by
  cases notes with
  | @reply m a _ asked point _ hne =>
    obtain ⟨call, more, hcalls⟩ := List.exists_cons_of_ne_nil hne
    rw [hcalls]
    exact hr.reply point hcalls
  | output point => exact hr.output htask point

end Run

/-! ## Runs of an executor -/

namespace Executor

/-- A valid context whose id is not in flight enters. Whenever its run asks the model, it has come through
some rounds, each of them whole, and tells the model the history of the context and all that has been said
in these rounds; every call has been answered once, in order. So it has been with all of its requests so
far, of which each is a proper beginning of the next. All this holds whatever other runs do meanwhile. -/
theorem conversation_complete (e : Executor) (c : Context) (scope : Scope) (m₀ : Moment)
    (hv : c.validate = .ok ()) (hfree : e.inFlight.lookup c.id = none) :
    ∃ n e₁, e.enter c scope m₀.signals m₀.now = .ok (n, e₁) ∧
      ∀ heard e₂ q, Amid n e₁ heard e₂ → e₂.move? n = some (.ask q) →
        ∃ rounds : List Round, heard = rounds.flatMap Round.heard ∧
          (∀ x ∈ rounds, x.outputs.length = x.answer.toolCalls.length) ∧
          invoked (e₁.moves n heard) = rounds.flatMap (fun x => x.answer.toolCalls) ∧
          q.messages = c.history ++ rounds.flatMap Round.messages ∧
          (rounds.flatMap Round.messages).filterMap (·.toolCallId) =
            (rounds.flatMap Round.messages).flatMap (fun m => m.toolCalls.map (·.id)) ∧
          requested (e₁.moves n heard) = rounds.inits.map (fun earlier =>
            ⟨c.history ++ earlier.flatMap Round.messages, advertised e.tools c⟩) ∧
          (requested (e₁.moves n heard)).Pairwise fun q q' =>
            q.messages <+: q'.messages ∧ q.messages.length < q'.messages.length := by
  obtain ⟨e₁, henter, hactive⟩ := enter_ok scope m₀ hv hfree
  refine ⟨e.runs.length, e₁, henter, fun heard e₂ q hamid hmove => ?_⟩
  obtain ⟨r, hhear, hactive₂⟩ := hamid.run hactive
  rw [move?, hactive₂] at hmove
  have hmove : r.move = .ask q := Option.some.inj hmove
  have hnot (ending : Ending) : r.point ≠ .ended ending := fun hp => by
    rw [Run.move_ended hp] at hmove
    cases hmove
  have hworks := works_of_start hv hhear hnot
  have hconverses := progress hv (Run.Converses.opening _ _)
    (fun _ _ _ _ _ _ _ hworks hr notes => hr.goesOn hworks.task notes) hhear hnot
  rw [moves_eq hactive]
  cases hconverses with
  | calling _ _ _ hp => rw [Run.move, hp] at hmove; cases hmove
  | asking rounds hp hheard whole said calls requests =>
    rw [Run.move, hp] at hmove
    cases hmove
    refine ⟨rounds, hheard, whole, calls, said, ?_, requests, ?_⟩
    · rw [List.filterMap_flatMap, List.flatMap_assoc]
      exact List.flatMap_congr fun x hx => Round.answered_eq_asked (whole x hx)
    · rw [requests]
      exact requests_grow _ rounds

/-- A parent asks for the time. -/
def parentAsks : Context := { askTheTime with history := [.user "What time is it?"] }

theorem conversation_complete_theTime :
    parentAsks.validate = .ok () ∧
    ∃ n e₁ e₂ q, (new clockAndShell 2).enter parentAsks ownScope {} 0 = .ok (n, e₁) ∧
      Amid n e₁ theTime.heard e₂ ∧ e₂.move? n = some (.ask q) ∧
      q.messages = [.user "What time is it?", .assistant "" [⟨"1", "clock", []⟩], .toolOutput "1" "noon"] ∧
      ∃ rounds : List Round, theTime.heard = rounds.flatMap Round.heard ∧
        q.messages = parentAsks.history ++ rounds.flatMap Round.messages ∧
        (requested (e₁.moves n theTime.heard)).Pairwise fun q q' =>
          q.messages <+: q'.messages ∧ q.messages.length < q'.messages.length := by
  have hv : parentAsks.validate = .ok () := rfl
  obtain ⟨n, e₁, henter, hall⟩ :=
    conversation_complete (new clockAndShell 2) parentAsks ownScope ⟨{}, 0⟩ hv rfl
  cases henter
  obtain ⟨rounds, hheard, -, -, hmessages, -, -, hgrow⟩ :=
    hall theTime.heard _ _ (.hears rfl (.hears rfl (.nil _))) rfl
  exact ⟨hv, _, _, _, _, rfl, .hears rfl (.hears rfl (.nil _)), rfl, rfl, rounds, hheard, hmessages, hgrow⟩

end Executor

end Overseer.Agent

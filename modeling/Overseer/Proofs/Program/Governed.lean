import Overseer.Proofs.Agent.Guarded
import Overseer.Proofs.Program.Order
import Overseer.Proofs.Supervisor.Contexts

/-!
# Sessions under a list of tools

All runs of a session are of one context, and so under the list of tools that it has. In whatever order things
happen and whatever the model says, the runs ask the model with the tools that are on the list, and call no tool
that is not; and what an action does to the executor, the files and the server is what the runs ask for.

* `Workspace.definitionsFor`, `Allows`: which tools a list allows.
* `Session.Deed`: all that an action can do.
* `Session.Governed`: all runs, and all contexts on their way to one, are of one context.
* `Governed.next`, `Governed.follow`: one action, and a whole session.
* `Session.Obeys`, `Governed.obeys`: what a session under a list keeps to.
-/
namespace Overseer

/-- A list allows a tool if it is on it, and no list allows all. -/
def Allows (allowed : Option (List String)) (tool : String) : Prop := ∀ names, allowed = some names → tool ∈ names

theorem isToolAllowed_iff {allowed : Option (List String)} {tool : String} :
    isToolAllowed allowed tool = true ↔ Allows allowed tool := by
  cases allowed with
  | none => simp [isToolAllowed, Allows]
  | some names => simp [isToolAllowed, Allows]

/-- The tools that the model is told of under a list. -/
def Workspace.definitionsFor : Option (List String) → List ToolDefinition
  | none => definitions
  | some names => definitions.filter fun t => t.name ∈ names

theorem Workspace.advertised_eq (c : Context) : Agent.advertised definitions c = definitionsFor c.allowedTools := by
  unfold Agent.advertised definitionsFor
  cases c.allowedTools with
  | none => exact List.filter_eq_self.mpr fun _ _ => rfl
  | some names =>
    refine List.filter_congr fun t _ => ?_
    show names.contains t.name = decide (t.name ∈ names)
    rw [List.contains_eq_mem]

theorem Workspace.definitionsFor_nil : definitionsFor (some []) = [] :=
  List.filter_eq_nil_iff.mpr (by simp)

namespace Program

open Supervisor (Machine Policy Frame Label)

namespace Session

/-- What an action does to the executor, the files and the server, all runs of which are under a list of tools. -/
inductive Deed (g : Setting) (allowed : Option (List String)) (s s' : Session) : Prop where
  | nothing (executor : s'.executor = s.executor) (files : s'.files = s.files) (exchange : s'.exchange = s.exchange)
  /-- Something is written into the transcript. -/
  | logs (events : List Event) (executor : s'.executor = s.executor)
      (files : s'.files = g.transcript.logAll s.files (g.policy.clock s.now) events)
      (exchange : s'.exchange = s.exchange)
  | enters (n : Nat) (c : Context) (scope : Scope) (given : c.allowedTools = allowed)
      (executor : s.executor.enter c scope s.signals s.now = .ok (n, s'.executor)) (files : s'.files = s.files)
      (exchange : s'.exchange = s.exchange)
  /-- A run asks the model, and tells it of the tools that the list allows. -/
  | asks (n : Nat) (request : ChatRequest) (sent : Http.Request) (move : s.executor.move? n = some (.ask request))
      (told : request.tools = Workspace.definitionsFor allowed) (chat : g.client.chat request = .ok sent)
      (executor : s'.executor = s.executor) (files : s'.files = s.files)
      (exchange : s'.exchange = (s.exchange.send sent).2)
  /-- A run hears a reply of the model. -/
  | hears (n : Nat) (reply : Except ModelError ChatResponse)
      (executor : s'.executor = s.executor.hearReply n s.signals s.now reply) (files : s'.files = s.files)
      (exchange : s'.exchange = s.exchange)
  /-- A run calls a tool that the list allows, and hears its output. -/
  | invokes (n : Nat) (call : ToolCall) (move : s.executor.move? n = some (.invoke call))
      (allows : Allows allowed call.name)
      (executor : s'.executor = s.executor.hearOutput n s.signals s.now
        (g.workspace.execute s.files call.name call.arguments).2)
      (files : s'.files = (g.workspace.execute s.files call.name call.arguments).1)
      (exchange : s'.exchange = s.exchange)
  | leaves (n : Nat) (ending : Agent.Ending) (move : s.executor.move? n = some (.finish ending))
      (executor : s'.executor = s.executor.leave n) (files : s'.files = s.files) (exchange : s'.exchange = s.exchange)

/-- All runs of the session keep to one context, and there is no other in sight. -/
structure Governed (c : Context) (s : Session) : Prop where
  contexts : ∀ c', s.machine.Holds c' → c' = c
  tools : s.executor.tools = Workspace.definitions
  runs : s.executor.Every (Agent.Run.KeepsTo c Workspace.definitions)

variable {g : Setting} {c : Context} {s s' : Session} {m : Machine} {l : Label} {thread n : Nat}

/-- The session goes on with the supervisor alone. -/
theorem Governed.machine (h : s.Governed c) (hnext : s.machine.next? g.policy l = some m)
    (hl : ∀ i c' parent, l ≠ .call i (.start c' parent)) : ∀ c', m.Holds c' → c' = c := by
  intro c' hc
  rcases Machine.given_of_next? hnext hc with hc | ⟨i, parent, rfl⟩
  · exact h.contexts c' hc
  · exact absurd rfl (hl i c' parent)

theorem Governed.hear (h : s.Governed c) (n : Nat) (reply : Except ModelError ChatResponse) :
    (s.hear n reply).Governed c where
  contexts := h.contexts
  tools := (Agent.Executor.tools_advance ..).trans h.tools
  runs := h.runs.advance n s.signals s.now fun _ sight hr => hr.hearReply sight reply

theorem Governed.announce (h : s.Governed c) (hs : s.announce? g thread = some s') :
    s'.Governed c ∧ Deed g c.allowedTools s s' := by
  unfold announce? at hs
  split at hs
  · rename_i status _ _
    simp only [bind, Option.bind_eq_some_iff] at hs
    obtain ⟨m, hm, hs⟩ := hs
    cases hs
    exact ⟨⟨h.machine hm (by simp), h.tools, h.runs⟩, .logs [.statusChange status] rfl rfl rfl⟩
  · cases hs

theorem Governed.enter {scope : Scope} (h : s.Governed c) (hs : s.enter? g thread c scope = some s') :
    s'.Governed c ∧ Deed g c.allowedTools s s' := by
  unfold enter? at hs
  split at hs
  · obtain ⟨m, hm, rfl⟩ := Option.map_eq_some_iff.mp hs
    exact ⟨⟨h.machine hm (by simp), h.tools, h.runs⟩, .nothing rfl rfl rfl⟩
  · rename_i n executor henter
    cases hs
    have hstart := Agent.Run.keepsTo_start c Workspace.definitions s.executor.maxIterations
    refine ⟨⟨h.contexts, ?_, h.runs.enter henter (h.tools ▸ hstart _)⟩, .enters n c scope rfl henter rfl rfl⟩
    obtain ⟨-, -, rfl⟩ := Agent.Executor.enter_inv henter
    exact h.tools

/-- What a run that is under way asks of its surroundings. -/
theorem Governed.move_cases {move : Agent.Move} (h : s.Governed c) (hmove : s.executor.move? n = some move) :
    (∃ messages, move = .ask ⟨messages, Workspace.definitionsFor c.allowedTools⟩) ∨
      (∃ call, move = .invoke call ∧ Allows c.allowedTools call.name) ∨ ∃ ending, move = .finish ending := by
  obtain ⟨a, ha, rfl⟩ := Option.map_eq_some_iff.mp hmove
  rw [← Workspace.advertised_eq]
  simp only [← isToolAllowed_iff]
  exact (h.runs n a ha).move_cases

theorem Governed.move (h : s.Governed c) (hs : s.move? g thread n = some s') :
    s'.Governed c ∧ Deed g c.allowedTools s s' := by
  simp only [move?, bind, Option.bind_eq_some_iff] at hs
  obtain ⟨move, hmove, hs⟩ := hs
  rcases h.move_cases hmove with ⟨messages, rfl⟩ | ⟨call, rfl, hallowed⟩ | ⟨ending, rfl⟩
  · dsimp only at hs
    split at hs
    · cases hs
      exact ⟨h.hear n _, .hears n _ rfl rfl rfl⟩
    · rename_i request hchat
      cases hs
      exact ⟨⟨h.contexts, h.tools, h.runs⟩, .asks n _ request hmove rfl hchat rfl rfl rfl⟩
  · cases hs
    exact ⟨⟨h.contexts, (Agent.Executor.tools_advance ..).trans h.tools,
      h.runs.advance n s.signals s.now fun _ sight hr => hr.hearOutput sight _⟩,
      .invokes n call hmove hallowed rfl rfl rfl⟩
  · simp only [Option.bind_eq_some_iff] at hs
    obtain ⟨r, -, m, hm, hs⟩ := hs
    cases hs
    exact ⟨⟨h.machine hm (by simp), (Agent.Executor.tools_leave ..).trans h.tools, h.runs.leave n⟩,
      .leaves n ending hmove rfl rfl rfl⟩

theorem Governed.work (h : s.Governed c) (hs : s.work? g thread = some s') :
    s'.Governed c ∧ Deed g c.allowedTools s s' := by
  unfold work? at hs
  split at hs
  · rename_i given key rest ht
    obtain rfl : given = c := h.contexts given ⟨_, Machine.mem_frames ht List.mem_cons_self, rfl⟩
    split at hs
    · simp only [bind, Option.bind_eq_some_iff] at hs
      obtain ⟨e, -, hs⟩ := hs
      exact h.enter hs
    · exact h.move hs
    · cases hs
  · cases hs

theorem Governed.interrupt (h : s.Governed c) (hs : s.interrupt? g = some s') :
    s'.Governed c ∧ Deed g c.allowedTools s s' := by
  unfold interrupt? at hs
  split at hs
  · simp only [bind, Option.bind_eq_some_iff] at hs
    obtain ⟨m, hm, m', hm', hs⟩ := hs
    cases hs
    have hwaits : (s.withMachine m).Governed c := ⟨h.machine hm (by simp), h.tools, h.runs⟩
    exact ⟨⟨hwaits.machine hm' (by simp), h.tools, h.runs⟩, .nothing rfl rfl rfl⟩
  · cases hs

theorem Governed.callNext {f : Frame} {phase : Phase} (h : s.Governed c) (hs : s.callNext? g f phase = some s')
    (hf : f.given? = none) :
    s'.Governed c ∧ s'.executor = s.executor ∧ s'.files = s.files ∧ s'.exchange = s.exchange := by
  simp only [callNext?, bind, Option.bind_eq_some_iff] at hs
  obtain ⟨m, hm, hs⟩ := hs
  cases hs
  refine ⟨⟨h.machine hm ?_, h.tools, h.runs⟩, rfl, rfl, rfl⟩
  rintro i c' parent ⟨⟩
  cases hf

theorem Governed.proceed (h : s.Governed c) (hs : s.proceed? g = some s') :
    s'.Governed c ∧ Deed g c.allowedTools s s' := by
  unfold proceed? at hs
  split at hs
  · simp only [bind, Option.bind_eq_some_iff] at hs
    obtain ⟨m, hm, hs⟩ := hs
    have htaken : (s.withMachine m).Governed c := ⟨h.machine hm (by simp), h.tools, h.runs⟩
    have same {phase : Phase} (heq : some { s.withMachine m with phase } = some s') :
        s'.Governed c ∧ Deed g c.allowedTools s s' := by
      cases heq
      exact ⟨⟨htaken.contexts, htaken.tools, htaken.runs⟩, .nothing rfl rfl rfl⟩
    have called {f : Frame} {phase : Phase} (hf : f.given? = none)
        (hs : (s.withMachine m).callNext? g f phase = some s') : s'.Governed c ∧ Deed g c.allowedTools s s' := by
      obtain ⟨hgoverned, executor, files, exchange⟩ := htaken.callNext hs hf
      exact ⟨hgoverned, .nothing executor files exchange⟩
    split at hs
    · exact same hs
    · exact called rfl hs
    · exact called rfl hs
    · exact same hs
    · exact same hs
    · exact same hs
    · cases hs
  · cases hs

/-- Whatever happens in a session, a list that governs it goes on to govern it. -/
theorem Governed.next {a : Action} (h : s.Governed c) (hs : s.next? g a = some s') :
    s'.Governed c ∧ Deed g c.allowedTools s s' := by
  have alone {l : Label} (hl : ∀ i c' parent, l ≠ .call i (.start c' parent))
      (hs : (s.machine.next? g.policy l).map s.withMachine = some s') :
      s'.Governed c ∧ Deed g c.allowedTools s s' := by
    obtain ⟨m, hm, rfl⟩ := Option.map_eq_some_iff.mp hs
    exact ⟨⟨h.machine hm hl, h.tools, h.runs⟩, .nothing rfl rfl rfl⟩
  cases a with
  | step => exact alone (by simp) hs
  | announce => exact h.announce hs
  | work => exact h.work hs
  | answer =>
    simp only [next?, answer?] at hs
    split at hs
    · cases hs
      exact ⟨h.hear _ _, .hears _ _ rfl rfl rfl⟩
    · cases hs
  | fail e =>
    simp only [next?, fail?] at hs
    split at hs
    · cases hs
      exact ⟨h.hear _ _, .hears _ _ rfl rfl rfl⟩
    · cases hs
  | interrupt => exact h.interrupt hs
  | proceed => exact h.proceed hs
  | report =>
    simp only [next?, report?] at hs
    split at hs
    · cases hs
      exact ⟨⟨h.contexts, h.tools, h.runs⟩, .logs _ rfl rfl rfl⟩
    · cases hs
  | tick => exact alone (by simp) hs

theorem governed_start (c : Context) (maxIterations : Nat) (now : Instant) (files : FileSystem)
    (exchange : Http.Exchange) :
    (start c (Agent.Executor.new Workspace.definitions maxIterations) now files exchange).Governed c where
  contexts c' := by
    rintro ⟨f, hf, hc⟩
    obtain rfl : f = _ := List.mem_singleton.mp hf
    cases hc
    rfl
  tools := rfl
  runs := Agent.Executor.every_new _ _ _

theorem Governed.follow {actions : List Action} (h : s.Governed c) (hs : s.follow? g actions = some s') :
    s'.Governed c := by
  induction actions generalizing s with
  | nil =>
    cases hs
    exact h
  | cons a actions ih =>
    obtain ⟨s₁, hnext, hs⟩ := Option.bind_eq_some_iff.mp hs
    exact ih (h.next hnext).1 hs

/-! ## Whole sessions -/

/-- A session under a list: what its runs ask for, and what can happen next. -/
structure Obeys (g : Setting) (allowed : Option (List String)) (s : Session) : Prop where
  told : ∀ n request, s.executor.move? n = some (.ask request) →
    request.tools = Workspace.definitionsFor allowed
  calls : ∀ n call, s.executor.move? n = some (.invoke call) → Allows allowed call.name
  next : ∀ a s', s.next? g a = some s' → Deed g allowed s s'

theorem Governed.obeys (h : s.Governed c) (g : Setting) : s.Obeys g c.allowedTools where
  told n request hmove := by
    rcases h.move_cases hmove with ⟨messages, heq⟩ | ⟨call, heq, -⟩ | ⟨ending, heq⟩
    · cases heq
      rfl
    · cases heq
    · cases heq
  calls n call hmove := by
    rcases h.move_cases hmove with ⟨messages, heq⟩ | ⟨call, heq, hallowed⟩ | ⟨ending, heq⟩
    · cases heq
    · cases heq
      exact hallowed
    · cases heq
  next a s' hnext := (h.next hnext).2

/-- Under an empty list the model is told of no tools, and none is called. -/
theorem Obeys.bare (h : s.Obeys g (some [])) :
    (∀ n request, s.executor.move? n = some (.ask request) → request.tools = []) ∧
      ∀ n call, s.executor.move? n ≠ some (.invoke call) := by
  constructor
  · intro n request hmove
    rw [h.told n request hmove, Workspace.definitionsFor_nil]
  · intro n call hmove
    cases h.calls n call hmove [] rfl

/-- The request asks the model, and tells it of the tools that a list allows. -/
def Tells (client : Model.Client) (allowed : Option (List String)) (r : Http.Request) : Prop :=
  ∃ messages request, client.chat ⟨messages, Workspace.definitionsFor allowed⟩ = .ok request ∧
    r = { request with url := request.url.target }

theorem Deed.sent {allowed : Option (List String)} (h : Deed g allowed s s') :
    ∀ r ∈ s'.exchange.sent, r ∈ s.exchange.sent ∨ Tells g.client allowed r := by
  cases h with
  | asks n request sent _ told chat _ _ exchange =>
    intro r hr
    have hsent : (s.exchange.send sent).2.sent = s.exchange.sent ++ [{ sent with url := sent.url.target }] := by
      unfold Http.Exchange.send
      split <;> rfl
    rw [exchange, hsent] at hr
    rcases List.mem_append.mp hr with hr | hr
    · exact Or.inl hr
    · exact Or.inr ⟨request.messages, sent, told ▸ chat, List.mem_singleton.mp hr⟩
  | nothing | logs | enters | hears | invokes | leaves =>
    rename_i exchange
    exact fun r hr => Or.inl (exchange ▸ hr)

theorem Governed.sent {actions : List Action} (h : s.Governed c) (hs : s.follow? g actions = some s') :
    ∀ r ∈ s'.exchange.sent, r ∈ s.exchange.sent ∨ Tells g.client c.allowedTools r := by
  induction actions generalizing s with
  | nil =>
    cases hs
    exact fun r hr => Or.inl hr
  | cons a actions ih =>
    obtain ⟨s₁, hnext, hs⟩ := Option.bind_eq_some_iff.mp hs
    obtain ⟨hgoverned, hdeed⟩ := h.next hnext
    intro r hr
    rcases ih hgoverned hs r hr with hr | htells
    · exact hdeed.sent r hr
    · exact Or.inr htells

/-- The session has come to its end, or nothing goes on by itself. -/
def Over (g : Setting) (s : Session) : Prop := (∃ c, s.phase = .closed c) ∨ (s.choose g).bind (s.next? g) = none

/-- A session that is played is one of those that can happen, and it is played to its end. -/
theorem exists_follow_play (g : Setting) (fuel : Nat) (s : Session) :
    ∃ actions, s.follow? g actions = some (s.play g fuel) ∧
      ((s.play g fuel).Over g ∨ actions.length = fuel) := by
  induction fuel generalizing s with
  | zero => exact ⟨[], rfl, Or.inr rfl⟩
  | succ fuel ih =>
    rw [play]
    split
    · rename_i close hphase
      exact ⟨[], rfl, Or.inl (Or.inl ⟨close, hphase⟩)⟩
    · split
      · rename_i s₁ hs₁
        obtain ⟨a, -, hnext⟩ := Option.bind_eq_some_iff.mp hs₁
        obtain ⟨actions, hactions, hend⟩ := ih s₁
        refine ⟨a :: actions, by rw [follow?, hnext]; exact hactions, hend.imp id fun hlength => ?_⟩
        rw [List.length_cons, hlength]
      · rename_i hnone
        exact ⟨[], rfl, Or.inl (Or.inr hnone)⟩

end Session

end Program

end Overseer

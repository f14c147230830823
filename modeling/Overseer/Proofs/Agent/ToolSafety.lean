import Overseer.Proofs.Agent.Answers
import Overseer.Proofs.Agent.Beside

/-!
# The tools that a run calls

The calls that a run makes are those that the model has asked for, one after the other and unchanged, each
of them allowed and no more of them than the budget permits. The model is told of the same tools with every
request: those that a call would be allowed to.

* `Executor.moves`: what a run asks of its surroundings, from its entry on.
* `Run.moves_safe`: what holds of the moves from any point of a run on, by induction on what is heard.
* `Executor.tools_safe`: what holds of all runs of valid contexts.
-/
namespace Overseer.Agent

/-! ## Moves -/

/-- What a run asks of its surroundings, now and after each answer. -/
def Run.moves (scope : Scope) (r : Run) : List Heard → List Move
  | [] => [r.move]
  | h :: rest =>
    match r.hear? scope h with
    | some r' => r.move :: r'.moves scope rest
    | none => [r.move]

/-- What a run of an executor asks of its surroundings, now and after each answer. -/
def Executor.moves (e : Executor) (n : Nat) : List Heard → List Move
  | [] => (e.move? n).toList
  | h :: rest =>
    match e.hear? n h with
    | some e' => (e.move? n).toList ++ e'.moves n rest
    | none => (e.move? n).toList

/-- The calls that are handed to tools. -/
def invoked (moves : List Move) : List ToolCall :=
  moves.filterMap fun
    | .invoke call => some call
    | _ => none

/-- The requests that are made of the model. -/
def requested (moves : List Move) : List ChatRequest :=
  moves.filterMap fun
    | .ask request => some request
    | _ => none

/-- The answers of the model that keep to the budget of tokens, when `T` tokens have been used before. -/
def kept (l : Limits) : Nat → List Heard → List ChatResponse
  | _, [] => []
  | T, .reply _ (.ok a) :: rest =>
    if l.AllowsTokens (T + a.usage.totalTokens) then a :: kept l (T + a.usage.totalTokens) rest
    else kept l (T + a.usage.totalTokens) rest
  | T, .reply _ (.error _) :: rest => kept l T rest
  | T, .output _ _ :: rest => kept l T rest

/-- A run of an executor moves as it does by itself. -/
theorem Executor.moves_eq {e : Executor} {n : Nat} {scope : Scope} {r : Run}
    (ha : e.active? n = some ⟨scope, r⟩) (heard : List Heard) : e.moves n heard = r.moves scope heard := by
  have hmove : e.move? n = some r.move := by rw [move?, ha]; rfl
  induction heard generalizing e r with
  | nil => rw [moves, hmove]; rfl
  | cons h rest ih =>
    rw [moves, Run.moves, hear?_eq ha, hmove]
    cases hh : r.hear? scope h with
    | none => rfl
    | some r' =>
      have ha' := active?_set (lt_of_active? ha) ⟨scope, r'⟩
      have hmove' : move? { e with runs := e.runs.set n (some ⟨scope, r'⟩) } n = some r'.move := by
        rw [move?, ha']; rfl
      simp only [Option.map_some, Option.toList_some, List.cons_append, List.nil_append]
      rw [ih ha' hmove']

/-- After all that it hears a run waits at its last move. -/
theorem Run.getLast?_moves {scope : Scope} {r r' : Run} {heard : List Heard}
    (hh : r.hearAll? scope heard = some r') : (r.moves scope heard).getLast? = some r'.move := by
  induction heard generalizing r with
  | nil => cases hh; rfl
  | cons h rest ih =>
    obtain ⟨r₁, hhear, hrest⟩ := Option.bind_eq_some_iff.mp hh
    have hlast := ih hrest
    rw [moves, hhear]
    show (r.move :: r₁.moves scope rest).getLast? = _
    rw [List.getLast?_cons, hlast]
    rfl

namespace Run

variable {task : Task} {T : Nat} {scope : Scope} {r r₁ r' : Run} {h : Heard} {i : Nat} {calls : List ToolCall}

theorem move_ended {e : Ending} (hp : r.point = .ended e) : r.move = .finish e := by
  unfold move
  rw [hp]

theorem moves_ended {e : Ending} (hp : r.point = .ended e) (heard : List Heard) :
    r.moves scope heard = [.finish e] := by
  cases heard with
  | nil => rw [moves, move_ended hp]
  | cons h rest => rw [moves, hear?_ended hp, move_ended hp]

/-! ## One answer -/

/-- The call that the run waits for. -/
def current (r : Run) : List ToolCall :=
  match r.point with
  | .calling _ call _ => [call]
  | _ => []

/-- The calls that the model has asked for and that are still without an output. -/
def pending (r : Run) : List ToolCall :=
  match r.point with
  | .calling _ call more => call :: more
  | _ => []

theorem invoked_cons (r : Run) (ms : List Move) : invoked (r.move :: ms) = r.current ++ invoked ms := by
  unfold invoked current move
  cases r.point <;> rfl

theorem mem_requested_cons {ms : List Move} {q : ChatRequest} (hq : q ∈ requested (r.move :: ms)) :
    q.tools = r.task.tools ∨ q ∈ requested ms := by
  unfold requested move at hq
  cases hp : r.point with
  | asking i asked =>
    rw [hp] at hq
    rcases List.mem_cons.mp hq with rfl | hq
    · exact Or.inl rfl
    · exact Or.inr hq
  | _ => rw [hp] at hq; exact Or.inr hq

theorem current_prefix (r : Run) : r.current <+: r.pending := by
  unfold current pending
  cases r.point with
  | calling i call more => exact ⟨more, rfl⟩
  | _ => exact List.prefix_refl _

/-- A run of a task that has used `T` tokens, and whose current call is allowed. -/
structure Stands (task : Task) (T : Nat) (r : Run) : Prop where
  allowed : ∀ call ∈ r.current, isToolAllowed task.context.allowedTools call.name = true
  task : r.task = task
  tokens : r.tokens = min T maxTokens
  sober : r.Sober

theorem Stands.room (hr : r.Stands task T) : r.limits.AllowsCalls (r.toolCalls + r.current.length) := by
  unfold current
  cases hp : r.point with
  | calling i call more => exact hr.sober.next i call more hp
  | _ => exact hr.sober.calls

theorem pending_after (r : Run) (i : Nat) (t : Instant) (calls : List ToolCall) :
    ({ r with point := .after i t calls } : Run).pending = calls := by
  cases calls <;> rfl

theorem current_after (r : Run) (i : Nat) (t : Instant) (calls : List ToolCall) :
    ({ r with point := .after i t calls } : Run).current = calls.head?.toList := by
  cases calls <;> rfl

/-- An answer that does not end the run: nothing that the model has asked for is lost or added. -/
theorem Stands.hear (hr : r.Stands task T) (hmax : task.context.limits.maxTokens < Word.half64)
    (hears : r.Hears scope h r') (hp : ∀ e, r'.point ≠ .ended e) (rest : List Heard) :
    ∃ T', r'.Stands task T' ∧ r'.toolCalls = r.toolCalls + r.current.length ∧
      r.current ++ (r'.pending ++ (kept task.context.limits T' rest).flatMap (·.toolCalls)) =
        r.pending ++ (kept task.context.limits T (h :: rest)).flatMap (·.toolCalls) := by
  have hsober := hears.sober hr.sober hp
  obtain ⟨i, r₁, calls, notes, rfl, hallowed⟩ := hears.next hp
  have hallowed : ∀ call ∈ ({ r₁ with point := .after i h.moment.now calls } : Run).current,
      isToolAllowed task.context.allowedTools call.name = true := by
    intro call hcall
    rw [current_after, Option.mem_toList] at hcall
    rw [← hr.task]
    exact hallowed call hcall
  have htask : r₁.task = task := notes.task_eq.trans hr.task
  rw [pending_after]
  cases notes with
  | @reply m a i asked point tokens hne =>
    have hlim : r.limits = task.context.limits := by rw [limits, hr.task]
    have hsum : addTokens r.tokens a.usage.totalTokens = min (T + a.usage.totalTokens) maxTokens := by
      rw [hr.tokens, addTokens_min]
    have hkept : task.context.limits.AllowsTokens (T + a.usage.totalTokens) := by
      rw [hlim, hsum] at tokens
      exact (allowsTokens_min hmax _).mp tokens
    refine ⟨T + a.usage.totalTokens, ⟨hallowed, htask, hsum, hsober⟩, ?_, ?_⟩
    · simp [current, point, accepted]
    · rw [kept, if_pos hkept]
      simp [current, pending, point]
  | @output m text i call more point =>
    refine ⟨T, ⟨hallowed, htask, hr.tokens, hsober⟩, ?_, ?_⟩
    · simp [current, point, answered]
    · rw [kept]
      simp [current, pending, point]

/-! ## A whole run -/

/-- Moves that are safe: the calls handed to tools are the first of `calls`, each allowed, and within the
budget when `C` have been made before; and the model is told of the same tools each time. -/
structure SafeMoves (task : Task) (C : Nat) (calls : List ToolCall) (moves : List Move) : Prop where
  inOrder : invoked moves <+: calls
  allowed : ∀ call ∈ invoked moves, isToolAllowed task.context.allowedTools call.name = true
  room : task.context.limits.AllowsCalls (C + (invoked moves).length)
  tools : ∀ q ∈ requested moves, q.tools = task.tools

/-- The move that a run waits at, if no others come after it but an ending. -/
theorem Stands.safe_last (hr : r.Stands task T) (more : List ToolCall) {ms : List Move}
    (hcalls : invoked ms = []) (hasks : requested ms = []) :
    SafeMoves task r.toolCalls (r.pending ++ more) (r.move :: ms) := by
  have hinvoked : invoked (r.move :: ms) = r.current := by rw [invoked_cons, hcalls, List.append_nil]
  refine ⟨?_, ?_, ?_, fun q hq => ?_⟩
  · rw [hinvoked]; exact r.current_prefix.trans (List.prefix_append _ _)
  · rw [hinvoked]; exact hr.allowed
  · rw [hinvoked, ← hr.task]; exact hr.room
  · rcases mem_requested_cons hq with hq | hq
    · rw [hq, hr.task]
    · rw [hasks] at hq; cases hq

/-- Whatever a run hears, its moves are safe. -/
theorem moves_safe (scope : Scope) (hz : task.context.limits.timeout.isZero = false)
    (hmax : task.context.limits.maxTokens < Word.half64) (hr : r.Stands task T) (heard : List Heard) :
    SafeMoves task r.toolCalls (r.pending ++ (kept task.context.limits T heard).flatMap (·.toolCalls))
      (r.moves scope heard) := by
  induction heard generalizing r T with
  | nil => exact hr.safe_last _ rfl rfl
  | cons h rest ih =>
    rw [moves]
    cases hh : r.hear? scope h with
    | none => exact hr.safe_last _ rfl rfl
    | some r' =>
      have hears := hears_of_hear? hr.sober (by rw [limits, hr.task]; exact hz) hh
      show SafeMoves _ _ _ (r.move :: r'.moves scope rest)
      by_cases hp : ∃ e, r'.point = .ended e
      · obtain ⟨e, he⟩ := hp
        rw [moves_ended he]
        exact hr.safe_last _ rfl rfl
      · obtain ⟨T', hr', hcalls, hbalance⟩ := hr.hear hmax hears (fun e he => hp ⟨e, he⟩) rest
        have hsafe := ih hr'
        rw [← hbalance]
        refine ⟨?_, fun call hcall => ?_, ?_, fun q hq => ?_⟩
        · rw [invoked_cons]
          exact (List.prefix_append_right_inj _).mpr hsafe.inOrder
        · rw [invoked_cons] at hcall
          exact (List.mem_append.mp hcall).elim (hr.allowed call) (hsafe.allowed call)
        · have hroom := hsafe.room
          rw [hcalls, Nat.add_assoc] at hroom
          rw [invoked_cons, List.length_append]
          exact hroom
        · rcases mem_requested_cons hq with hq | hq
          · rw [hq, hr.task]
          · exact hsafe.tools q hq

end Run

/-! ## Runs of an executor -/

namespace Executor

/-- A run that enters is ended at once, or stands with nothing used and no calls to make. -/
theorem stands_start (e : Executor) (c : Context) (s : Sight) :
    (∃ ending, (Run.start (Task.of c e.tools e.maxIterations) s).point = .ended ending) ∨
      (Run.start (Task.of c e.tools e.maxIterations) s).Stands (Task.of c e.tools e.maxIterations) 0 ∧
      (Run.start (Task.of c e.tools e.maxIterations) s).toolCalls = 0 ∧
      (Run.start (Task.of c e.tools e.maxIterations) s).pending = [] := by
  unfold Run.start
  rcases Run.iterate_cases _ s 1 with hended | heq
  · exact Or.inl hended
  · refine Or.inr ?_
    rw [heq]
    have hsober : Run.Sober ⟨Task.of c e.tools e.maxIterations, s.now, c.history, [], 0, 0, .asking 1 s.now⟩ :=
      ⟨fun hpos => Int.le_of_lt hpos, fun hpos => Int.le_of_lt hpos, fun _ _ _ hp => by cases hp⟩
    exact ⟨⟨by simp [Run.current], rfl, rfl, hsober⟩, rfl, rfl⟩

/-- A valid context whose id is not in flight enters; and whatever its run hears from then on, every call
that it hands to a tool is allowed, they are no more than the budget permits, they are the first of those
that the answers within the budget of tokens asked for, and each request tells the model of the same tools,
those that are allowed. Nothing in this changes when other runs go on beside it: the move that it waits at is
the last of these. -/
theorem tools_safe (e : Executor) (c : Context) (scope : Scope) (m₀ : Moment) (hv : c.validate = .ok ())
    (hfree : e.inFlight.lookup c.id = none) (hword : Word.isSigned64 c.limits.maxTokens = true) :
    ∃ n e₁, e.enter c scope m₀.signals m₀.now = .ok (n, e₁) ∧ ∀ heard,
      (∀ call ∈ invoked (e₁.moves n heard), isToolAllowed c.allowedTools call.name = true) ∧
      (0 < c.limits.maxToolCalls → ((invoked (e₁.moves n heard)).length : Int) ≤ c.limits.maxToolCalls) ∧
      invoked (e₁.moves n heard) <+: (kept c.limits 0 heard).flatMap (·.toolCalls) ∧
      (∀ q ∈ requested (e₁.moves n heard),
        q.tools = e.tools.filter (fun t => isToolAllowed c.allowedTools t.name) ∧
        ∀ t ∈ e.tools, t ∈ q.tools ↔ isToolAllowed c.allowedTools t.name = true) ∧
      ∀ e₂, Amid n e₁ heard e₂ → e₂.move? n = (e₁.moves n heard).getLast? := by
  obtain ⟨e₁, henter, hactive⟩ := enter_ok scope m₀ hv hfree
  refine ⟨e.runs.length, e₁, henter, fun heard => ?_⟩
  have hmax : c.limits.maxTokens < Word.half64 := (of_decide_eq_true hword).2
  rw [moves_eq hactive]
  have hsafe : Run.SafeMoves (Task.of c e.tools e.maxIterations) 0
      ((kept c.limits 0 heard).flatMap (·.toolCalls))
      ((Run.start (Task.of c e.tools e.maxIterations) (m₀.sight scope)).moves scope heard) := by
    rcases stands_start e c (m₀.sight scope) with ⟨ending, hended⟩ | ⟨hstands, hcalls, hpending⟩
    · rw [Run.moves_ended hended]
      exact ⟨List.nil_prefix, by simp [invoked], fun hpos => Int.le_of_lt hpos, by simp [requested]⟩
    · have hsafe := Run.moves_safe scope (Context.timeout_of_validate hv) hmax hstands heard
      rwa [hcalls, hpending] at hsafe
  refine ⟨hsafe.allowed, fun hpos => ?_, hsafe.inOrder, fun q hq => ?_, fun e₂ hamid => ?_⟩
  · have hroom := hsafe.room hpos
    rwa [Nat.zero_add] at hroom
  · have htools : q.tools = e.tools.filter (fun t => isToolAllowed c.allowedTools t.name) := hsafe.tools q hq
    refine ⟨htools, fun t ht => ?_⟩
    rw [htools, List.mem_filter]
    exact and_iff_right ht
  · obtain ⟨r', hhear, hactive₂⟩ := hamid.run hactive
    rw [Run.getLast?_moves hhear, move?, hactive₂]
    rfl

/-- The tools of an executor, one of which `askTheTime` does not allow. -/
def clockAndShell : List ToolDefinition :=
  [⟨"clock", "Tells the time.", .obj []⟩, ⟨"shell", "Runs a command.", .obj []⟩]

/-- The model asks for the time twice in one answer, and hears it once. -/
def askTwice : List Heard :=
  [.reply ⟨{}, 1⟩ (.ok (.toolUse [⟨"1", "clock", []⟩, ⟨"2", "clock", []⟩] 4)), .output ⟨{}, 2⟩ (.ok "noon")]

theorem tools_safe_askTwice :
    askTheTime.validate = .ok () ∧ Word.isSigned64 askTheTime.limits.maxTokens = true ∧
    ∃ n e₁, (new clockAndShell 2).enter askTheTime ⟨⟨0, []⟩, none⟩ {} 0 = .ok (n, e₁) ∧
      invoked (e₁.moves n askTwice) = [⟨"1", "clock", []⟩] ∧
      ((invoked (e₁.moves n askTwice)).length : Int) ≤ askTheTime.limits.maxToolCalls ∧
      ∀ q ∈ requested (e₁.moves n askTwice),
        q.tools = clockAndShell.filter fun t => isToolAllowed askTheTime.allowedTools t.name := by
  have hv : askTheTime.validate = .ok () := rfl
  have hword : Word.isSigned64 askTheTime.limits.maxTokens = true := by decide
  obtain ⟨n, e₁, henter, hsafe⟩ :=
    tools_safe (new clockAndShell 2) askTheTime ⟨⟨0, []⟩, none⟩ ⟨{}, 0⟩ hv rfl hword
  obtain ⟨-, hroom, -, htools, -⟩ := hsafe askTwice
  refine ⟨hv, hword, n, e₁, henter, ?_, hroom (by decide), fun q hq => (htools q hq).1⟩
  cases henter
  rfl

end Executor

end Overseer.Agent

import Overseer.Proofs.Agent.ToolSafety

/-!
# What every run of an executor keeps to

Whatever a run hears, it stays with its context: the tools that it tells the model of are those that the context
allows, and so is the tool of every call that it makes. This needs nothing of the context, of the answers or of
their order, so it is stated of all runs of an executor at once.

* `Run.KeepsTo`: a run that stays with a context; `keepsTo_start`, `KeepsTo.hearReply`, `KeepsTo.hearOutput`.
* `Executor.Every`: a property of all runs that are at work, and what preserves it.
-/
namespace Overseer.Agent

namespace Run

variable {c : Context} {tools : List ToolDefinition} {r r' : Run}

/-- The run is one of `c`, and tells the model of no tools, and makes no call, that `c` does not allow. -/
structure KeepsTo (c : Context) (tools : List ToolDefinition) (r : Run) : Prop where
  context : r.task.context = c
  told : r.task.tools = advertised tools c
  allowed : ∀ call ∈ r.current, isToolAllowed c.allowedTools call.name = true

theorem KeepsTo.goOn (h : r.KeepsTo c tools) (task : r'.task = r.task)
    (allowed : ∀ call ∈ r'.current, isToolAllowed r.task.context.allowedTools call.name = true) :
    r'.KeepsTo c tools where
  context := task ▸ h.context
  told := task ▸ h.told
  allowed := h.context ▸ allowed

theorem current_iterate (r : Run) (s : Sight) (i : Nat) : (r.iterate s i).current = [] := by
  rcases iterate_cases r s i with ⟨e, he⟩ | heq
  · rw [current, he]
  · rw [heq]
    rfl

/-- A call is made only if it is allowed. -/
theorem allowed_proceed (r : Run) (s : Sight) (i : Nat) (calls : List ToolCall) :
    ∀ call ∈ (r.proceed s i calls).current, isToolAllowed r.task.context.allowedTools call.name = true := by
  intro call hcall
  cases calls with
  | nil =>
    simp only [proceed] at hcall
    split at hcall
    · cases hcall
    · rw [current_iterate] at hcall
      cases hcall
  | cons next more =>
    simp only [proceed] at hcall
    split at hcall
    · cases hcall
    split at hcall
    · cases hcall
    · rename_i hallowed
      rw [List.mem_singleton.mp hcall]
      simpa using hallowed

theorem keepsTo_start (c : Context) (tools : List ToolDefinition) (n : Nat) (s : Sight) :
    (start (Task.of c tools n) s).KeepsTo c tools where
  context := congrArg Task.context (task_iterate _ _ _)
  told := congrArg Task.tools (task_iterate _ _ _)
  allowed call hcall := by
    rw [start, current_iterate] at hcall
    cases hcall

theorem KeepsTo.hearReply (h : r.KeepsTo c tools) (s : Sight) (reply : Except ModelError ChatResponse) :
    (r.hearReply s reply).KeepsTo c tools := by
  unfold Run.hearReply
  split
  · split
    · exact h.goOn rfl fun _ hcall => nomatch hcall
    · unfold accept
      simp only
      split
      · exact h.goOn rfl fun _ hcall => nomatch hcall
      split
      · exact h.goOn rfl fun _ hcall => nomatch hcall
      · exact h.goOn (task_proceed _ _ _ _) (allowed_proceed _ _ _ _)
  · exact h

theorem KeepsTo.hearOutput (h : r.KeepsTo c tools) (s : Sight) (output : Except ToolError String) :
    (r.hearOutput s output).KeepsTo c tools := by
  unfold Run.hearOutput
  split
  · split
    · exact h.goOn rfl fun _ hcall => nomatch hcall
    · exact h.goOn (task_proceed _ _ _ _) (allowed_proceed _ _ _ _)
  · exact h

/-- What a run that keeps to a context asks of its surroundings. -/
theorem KeepsTo.move_cases (h : r.KeepsTo c tools) :
    (∃ messages, r.move = .ask ⟨messages, advertised tools c⟩) ∨
      (∃ call, r.move = .invoke call ∧ isToolAllowed c.allowedTools call.name = true) ∨
      ∃ ending, r.move = .finish ending := by
  unfold move
  cases hp : r.point with
  | asking => exact Or.inl ⟨_, by rw [h.told]⟩
  | calling i call more =>
    exact Or.inr (Or.inl ⟨call, rfl, h.allowed call (by rw [current, hp]; exact List.mem_singleton_self _)⟩)
  | ended e => exact Or.inr (Or.inr ⟨e, rfl⟩)

end Run

namespace Executor

variable {P : Run → Prop} {e e' : Executor} {n m : Nat} {c : Context} {scope : Scope} {s : Signals} {now : Instant}

/-- All runs that are at work are like this. -/
def Every (P : Run → Prop) (e : Executor) : Prop := ∀ n a, e.active? n = some a → P a.run

theorem every_new (P : Run → Prop) (tools : List ToolDefinition) (maxIterations : Nat) :
    (new tools maxIterations).Every P := fun n a h => by
  simp [active?, new] at h

theorem Every.enter (h : e.Every P) (hent : e.enter c scope s now = .ok (m, e'))
    (hstart : P (Run.start (Task.of c e.tools e.maxIterations) (Sight.of s now scope))) : e'.Every P := by
  obtain ⟨-, -, rfl⟩ := enter_inv hent
  intro n a ha
  rcases active?_append.mp ha with ha | ⟨-, rfl⟩
  · exact h n a ha
  · exact hstart

theorem Every.advance {f : Run → Sight → Run} (h : e.Every P) (n : Nat) (s : Signals) (now : Instant)
    (hf : ∀ r sight, P r → P (f r sight)) : (e.advance n s now f).Every P := by
  unfold Executor.advance
  split
  · exact h
  · rename_i a ha
    intro k b hb
    by_cases hk : n = k
    · subst hk
      rw [active?_set (lt_of_active? ha)] at hb
      cases hb
      exact hf _ _ (h n a ha)
    · rw [active?_set_ne hk] at hb
      exact h k b hb

theorem Every.leave (h : e.Every P) (n : Nat) : (e.leave n).Every P := fun k a ha =>
  h k a (active?_leave.mp ha).2

theorem tools_advance (e : Executor) (n : Nat) (s : Signals) (now : Instant) (f : Run → Sight → Run) :
    (e.advance n s now f).tools = e.tools := by
  unfold advance
  split <;> rfl

theorem tools_leave (e : Executor) (n : Nat) : (e.leave n).tools = e.tools := by
  unfold leave
  split <;> rfl

end Executor

end Overseer.Agent

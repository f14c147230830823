import Overseer.Proofs.Supervisor.Reports
import Overseer.Proofs.Supervisor.Separation
import Overseer.Proofs.Supervisor.Succession

/-!
# Where the record of an entry comes from

Ids are used again, and a run may still be at work when its entry has been cancelled and evicted and its id
stands for another. But a run keeps the key of the entry that it was set off for, and a cancel the key of the
entry that it has found. So the final record of an entry is what became of its own run, or it was cancelled by a
call that had found just this entry.

* `Marked`, `marks_of_next?`: which step leaves a run set off, a run that is over, or a cancel that has found
  its entry.
* `SetsOff`, `RunReturns`, `CancelFinds`: the same, told of all the steps of a run.
* `Machine.Traced`, `Run.traced`: behind every such frame there is such a step.
* `Fate`, `Ends`: what has become of an entry, and the one step in which it came to its end.
* `results_keep_apart`: every entry has come to its end in one way, and no step changes an entry that it is not
  about.
-/
namespace Overseer.Supervisor

/-! ## Marks -/

/-- The frame shows that a run has been set off or is over, or that a cancel has found its entry. -/
def Frame.marks : Frame → Bool
  | .latch _ | .run _ _ | .executing _ _ | .finish _ _ => true
  | _ => false

/-- The frame is in the stack of the thread. -/
def Machine.Has (m : Machine) (j : Nat) (f : Frame) : Prop := ∃ t, m.threads[j]? = some t ∧ f ∈ t

/-- The step from which the thread `j` has such a frame. -/
inductive Marked (m : Machine) : Label → Nat → Frame → Prop where
  | found {j : Nat} {id : String} {k : Key} {below : Thread} (ht : m.threads[j]? = some (.cancel id :: below))
      (find : m.find? id = some k) : Marked m (.step j) j (.latch k)
  | setOff {i j : Nat} {c : Context} {k : Key} {below : Thread} (ht : m.threads[i]? = some (.spawn c k :: below))
      (new : j = m.threads.length) : Marked m (.step i) j (.run c k)
  | begun {j : Nat} {c : Context} {k : Key} {below : Thread} (ht : m.threads[j]? = some (.run c k :: below)) :
      Marked m (.step j) j (.executing c k)
  | returned {j : Nat} {c : Context} {k : Key} {o : Outcome} {below : Thread}
      (ht : m.threads[j]? = some (.executing c k :: below)) : Marked m (.executorReturns j o) j (.finish k o)

/-- No token is taken back, and every mark that is new comes from the step. -/
structure Machine.Marks (m : Machine) (l : Label) (m' : Machine) : Prop where
  raised : m.signals.raised ⊆ m'.signals.raised
  marked : ∀ j f, m'.Has j f → f.marks = true → m.Has j f ∨ Marked m l j f

theorem Frame.marks_of_isCall {f : Frame} (h : f.isCall = true) : f.marks = false := by
  cases f <;> first | rfl | cases h

section

variable {p : Policy} {m m' : Machine} {l : Label} {i : Nat} {f : Frame} {below : Thread}

namespace Machine

/-- A thread goes on, with no marks that are not accounted for. -/
theorem Marks.go (pre post : Thread) (ht : m.threads[i]? = some (pre ++ below))
    (hthr : m'.threads = m.threads.set i (post ++ below)) (raised : m.signals.raised ⊆ m'.signals.raised)
    (hpost : ∀ f ∈ post, f.marks = true → Marked m l i f) : m.Marks l m' where
  raised := raised
  marked j f hf hmarks := by
    obtain ⟨t, ht', hf⟩ := hf
    rw [hthr] at ht'
    by_cases hj : i = j
    · subst hj
      rw [List.getElem?_set_self (List.getElem?_eq_some_iff.mp ht).1] at ht'
      cases ht'
      rcases List.mem_append.mp hf with hf | hf
      · exact Or.inr (hpost f hf hmarks)
      · exact Or.inl ⟨_, ht, List.mem_append_right _ hf⟩
    · rw [List.getElem?_set_ne hj] at ht'
      exact Or.inl ⟨t, ht', hf⟩

theorem Marks.panic {message : String} (ht : m.threads[i]? = some (f :: below)) :
    m.Marks l (m.setThread i (panicked message below)) := by
  obtain ⟨pre, hpre⟩ := unwound_suffix below
  exact .go (f :: pre) [.answer (.panicked message)] (by rw [ht, List.cons_append, ← hpre]) rfl
    (List.Subset.refl _) (by simp [Frame.marks])

/-- No thread moves. -/
theorem Marks.outside (hthr : m'.threads = m.threads ∨ m'.threads = m.threads ++ [[]])
    (raised : m.signals.raised ⊆ m'.signals.raised) : m.Marks l m' where
  raised := raised
  marked j f hf _ := by
    obtain ⟨t, ht, hf⟩ := hf
    rcases hthr with heq | heq <;> rw [heq] at ht
    · exact Or.inl ⟨t, ht, hf⟩
    · rcases Nat.lt_or_ge j m.threads.length with hj | hj
      · rw [List.getElem?_append_left hj] at ht
        exact Or.inl ⟨t, ht, hf⟩
      · rw [List.getElem?_append_right hj] at ht
        rw [List.mem_singleton.mp (List.mem_of_getElem? ht)] at hf
        cases hf

theorem raised_child? {scope child : Scope} {s s' : Signals} {now : Instant} {timeout : Duration}
    (h : scope.child? s now timeout = some (child, s')) : s'.raised = s.raised := by
  unfold Scope.child? at h
  split at h
  · cases h
  · cases h; rfl

/-- A run is set off, in a thread of its own. -/
theorem spawn_marks {c : Context} {k : Key} (ht : m.threads[i]? = some (.spawn c k :: below)) :
    m.Marks (.step i) { m with threads := (m.threads.set i (.answer .done :: below)) ++ [[.run c k]] } := by
  have goes : m.Marks (.step i) (m.setThread i (.answer .done :: below)) :=
    .go [_] [_] ht rfl (List.Subset.refl _) (by simp [Frame.marks])
  refine ⟨goes.raised, fun j f hf hmarks => ?_⟩
  obtain ⟨t, ht', hf⟩ := hf
  rcases Nat.lt_or_ge j (m.setThread i (.answer .done :: below)).threads.length with hj | hj
  · exact goes.marked j f ⟨t, (List.getElem?_append_left hj).symm.trans ht', hf⟩ hmarks
  · -- the thread of the run is new
    have hlen : (m.setThread i (.answer .done :: below)).threads.length = m.threads.length := by simp [setThread]
    have ht' := (List.getElem?_append_right hj).symm.trans ht'
    obtain ⟨hlt, rfl⟩ := List.getElem?_eq_some_iff.mp ht'
    obtain rfl : f = .run c k := by simpa using hf
    refine Or.inr (.setOff ht ?_)
    rw [List.length_singleton] at hlt
    omega

end Machine

open Machine in
theorem Step.marks (h : Step p m i f below m') (ht : m.threads[i]? = some (f :: below)) : m.Marks (.step i) m' := by
  have same := List.Subset.refl m.signals.raised
  cases h with
  | invalid | tracked | claims | counts | full | cancelsNone | asksNone | asks | shows | waitsNone | waits | ended
  | sleeps | wakes | scans | looks | lists | sweeps | evicts | spares | swept | polls | resumes | notifies =>
    exact .go [_] [_] ht rfl same (by simp [Frame.marks])
  | begins _ child => exact .go [_] [_] ht rfl (raised_child? child ▸ same) (by simp [Frame.marks])
  | enrolls | admits | shuts | silences | drains => exact .go [_] [_, _] ht rfl same (by simp [Frame.marks])
  | told | silenced | drained | late | rests => exact .go [_, _] [_] ht rfl same (by simp [Frame.marks])
  | overflows | overruns => exact .panic ht
  | @announces c k e =>
    exact .go [_] (e.held.toList.map (.notify k) ++ [.spawn c k]) ht (by simp [setThread, setEntry]) same
      (by simp [Frame.marks, or_imp, forall_and])
  | spawns => exact spawn_marks ht
  | cancels _ find => exact .go [_] [_] ht rfl same (by simpa using fun _ => .found ht find)
  | @latches k _ _ latch =>
    exact .go [_] (latch.notice k .cancelled ++ [.answer .done]) ht (by simp [setThread, setEntry])
      (List.subset_cons_self _ _) (by simp [Frame.marks, or_imp, forall_and])
  | runs => exact .go [_] [_] ht rfl same (by simpa using fun _ => .begun ht)
  | @finishes k _ _ _ latch => exact .go [_] (latch.notice k _) ht rfl same (by simp [Frame.marks])
  | skips => exact .go [_] [] ht rfl same (by simp)

/-- Every step that is possible takes no token back, and leaves no marks but its own. -/
theorem Machine.marks_of_next? (h : m.next? p l = some m') : m.Marks l m' := by
  have same := List.Subset.refl m.signals.raised
  cases next?_eq_some_iff.mp h with
  | step ht step => exact step.marks ht
  | call isCall ht => exact .go [] [_] ht rfl same (by simp [Frame.marks_of_isCall isCall])
  | take ht | hookReturns ht | giveUp ht => exact .go [_] [] ht rfl same (by simp)
  | hookPanics ht => exact .panic ht
  | executorReturns ht => exact .go [_] [_] ht rfl same (by simpa using fun _ => .returned ht)
  | newThread => exact .outside (Or.inr rfl) same
  | tick | newToken | setHook => exact .outside (Or.inl rfl) same
  | derive child => exact .outside (Or.inl rfl) (raised_child? child ▸ same)
  | raise => exact .outside (Or.inl rfl) (List.subset_cons_self _ _)

end

/-! ## What has happened -/

/-- In one of these steps a start sets off the run of an entry, as the thread `j`. -/
inductive SetsOff (m₀ : Machine) (c : Context) (k : Key) (j : Nat) : List (Policy × Label) → Prop where
  | intro {before after : List (Policy × Label)} {es : List Event} {m : Machine} {p : Policy} {i : Nat}
      {below : Thread} (run : Run m₀ before es m) (ht : m.threads[i]? = some (.spawn c k :: below))
      (new : j = m.threads.length) : SetsOff m₀ c k j (before ++ (p, .step i) :: after)

/-- In one of these steps the executor comes back from the run that was set off for an entry. -/
inductive RunReturns (m₀ : Machine) (c : Context) (k : Key) (j : Nat) (o : Outcome) :
    List (Policy × Label) → Prop where
  | intro {before after : List (Policy × Label)} {es : List Event} {m : Machine} {p : Policy} {below : Thread}
      (run : Run m₀ before es m) (setOff : SetsOff m₀ c k j before)
      (ht : m.threads[j]? = some (.executing c k :: below)) :
      RunReturns m₀ c k j o (before ++ (p, .executorReturns j o) :: after)

/-- In one of these steps a cancel of `id` finds an entry. -/
inductive CancelFinds (m₀ : Machine) (id : String) (k : Key) (j : Nat) : List (Policy × Label) → Prop where
  | intro {before after : List (Policy × Label)} {es : List Event} {m : Machine} {p : Policy} {below : Thread}
      (run : Run m₀ before es m) (ht : m.threads[j]? = some (.cancel id :: below)) (find : m.find? id = some k) :
      CancelFinds m₀ id k j (before ++ (p, .step j) :: after)

section

variable {m₀ m m' : Machine} {steps : List (Policy × Label)} {es : List Event} {p : Policy} {l : Label}
  {c : Context} {id : String} {k : Key} {j : Nat} {o : Outcome} {e : Entry}

theorem SetsOff.append (h : SetsOff m₀ c k j steps) (rest : List (Policy × Label)) :
    SetsOff m₀ c k j (steps ++ rest) := by
  obtain ⟨run, ht, new⟩ := h
  rw [List.append_assoc]
  exact .intro run ht new

theorem RunReturns.append (h : RunReturns m₀ c k j o steps) (rest : List (Policy × Label)) :
    RunReturns m₀ c k j o (steps ++ rest) := by
  obtain ⟨run, setOff, ht⟩ := h
  rw [List.append_assoc]
  exact .intro run setOff ht

theorem CancelFinds.append (h : CancelFinds m₀ id k j steps) (rest : List (Policy × Label)) :
    CancelFinds m₀ id k j (steps ++ rest) := by
  obtain ⟨run, ht, find⟩ := h
  rw [List.append_assoc]
  exact .intro run ht find

/-- The run of an entry was set off with a context of its id. -/
theorem RunReturns.id_eq (h : RunReturns m₀ c k j o steps) (h₀ : m₀.Initial) (run : Run m₀ steps es m)
    (he : m.entry? k = some e) : c.id = e.id := by
  obtain ⟨run₁, -, ht⟩ := h
  obtain ⟨e₁, he₁, hid₁⟩ := (run₁.ordered h₀).named _ (Machine.mem_frames ht List.mem_cons_self) c k rfl
  obtain ⟨es₂, run₂, -⟩ := run₁.ahead run
  obtain ⟨e', he', hid, -⟩ := run₂.persists (run₁.sound h₀.sound) he₁
  cases he.symm.trans he'
  rw [hid, hid₁]

/-- A cancel finds entries of the id that it was called with. -/
theorem CancelFinds.id_eq (h : CancelFinds m₀ id k j steps) (h₀ : m₀.Initial) (run : Run m₀ steps es m)
    (he : m.entry? k = some e) : id = e.id := by
  obtain ⟨run₁, ht, find⟩ := h
  obtain ⟨e₁, he₁, hid₁⟩ := run₁.filed h₀ id k (Machine.mem_of_find? find)
  obtain ⟨es₂, run₂, -⟩ := run₁.ahead run
  obtain ⟨e', he', hid, -⟩ := run₂.persists (run₁.sound h₀.sound) he₁
  cases he.symm.trans he'
  rw [hid, hid₁]

/-- What has happened is what the marks tell. -/
structure Machine.Traced (m₀ : Machine) (steps : List (Policy × Label)) (m : Machine) : Prop where
  ran : ∀ j c k, m.Has j (.run c k) → SetsOff m₀ c k j steps
  runs : ∀ j c k, m.Has j (.executing c k) → SetsOff m₀ c k j steps
  returned : ∀ j k o, m.Has j (.finish k o) → ∃ c, RunReturns m₀ c k j o steps
  found : ∀ j k, m.Has j (.latch k) → ∃ id, CancelFinds m₀ id k j steps

theorem Machine.Initial.traced (h : m.Initial) : m.Traced [] m := by
  have none (j : Nat) (f : Frame) (hf : f.isCall = false) : ¬m.Has j f := by
    rintro ⟨t, ht, hmem⟩
    have := h.frames_isCall (mem_frames ht hmem)
    rw [hf] at this
    cases this
  exact ⟨fun j c k hf => absurd hf (none j _ rfl), fun j c k hf => absurd hf (none j _ rfl),
    fun j k o hf => absurd hf (none j _ rfl), fun j k hf => absurd hf (none j _ rfl)⟩

theorem Run.traced (h : Run m₀ steps es m) (h₀ : m₀.Initial) : m₀.Traced steps m := by
  induction h with
  | nil => exact h₀.traced
  | @snoc steps es m m' p l run step ih =>
    have marked := (Machine.marks_of_next? step).marked
    have has {j : Nat} {f : Frame} {below : Thread} (ht : m.threads[j]? = some (f :: below)) : m.Has j f :=
      ⟨_, ht, List.mem_cons_self⟩
    refine ⟨fun j c k hf => ?_, fun j c k hf => ?_, fun j k o hf => ?_, fun j k hf => ?_⟩
    · rcases marked j _ hf rfl with hold | hnew
      · exact (ih.ran j c k hold).append _
      · cases hnew with
        | setOff ht new => exact .intro run ht new
    · rcases marked j _ hf rfl with hold | hnew
      · exact (ih.runs j c k hold).append _
      · cases hnew with
        | begun ht => exact (ih.ran j c k (has ht)).append _
    · rcases marked j _ hf rfl with hold | hnew
      · exact (ih.returned j k o hold).imp fun c h => h.append _
      · cases hnew with
        | returned ht => exact ⟨_, .intro run (ih.runs j _ k (has ht)) ht⟩
    · rcases marked j _ hf rfl with hold | hnew
      · exact (ih.found j k hold).imp fun id h => h.append _
      · cases hnew with
        | found ht find => exact ⟨_, .intro run ht find⟩

end

/-! ## Setups and ends -/

section

variable {p : Policy} {m m' : Machine} {i : Nat} {k : Key} {e e' : Entry} {below : Thread}

theorem Entry.setup_latched {r : Record} {latch : Latch} (h : { e with record := r }.latched = (e', latch)) :
    e' = { e with record := e'.record, announced := e'.announced, held := e'.held } := by
  unfold latched at h
  split at h <;> cases h <;> rfl

theorem Entry.setup_complete {r : Record} {latch : Latch} (h : e.complete r = (e', latch)) :
    e' = { e with record := e'.record, announced := e'.announced, held := e'.held } := by
  unfold complete at h
  split at h
  · cases h; rfl
  · exact setup_latched h

theorem Entry.setup_cancel {now : Instant} {time : Timestamp} {latch : Latch}
    (h : e.cancel now time = (e', latch)) :
    e' = { e with record := e'.record, announced := e'.announced, held := e'.held } := by
  unfold cancel at h
  split at h
  · cases h; rfl
  · exact setup_latched h

open Machine in
/-- The id, the scope and the start of an entry are never changed. -/
theorem Move.setup {es : List Event} (h : Move m es m') (he : m.entry? k = some e) (he' : m'.entry? k = some e') :
    e' = { e with record := e'.record, announced := e'.announced, held := e'.held } := by
  have same (h : m.entry? k = some e') :
      e' = { e with record := e'.record, announced := e'.announced, held := e'.held } := by
    cases he.symm.trans h
    rfl
  cases h with
  | register =>
    rcases entry?_register he' with h | ⟨-, h, -⟩
    · exact same h
    · rw [he] at h; cases h
  | announce ht he₁ =>
    rcases entry?_setEntry he' with ⟨rfl, rfl⟩ | ⟨-, h⟩
    · cases he.symm.trans he₁; rfl
    · exact same h
  | cancel signals ht he₁ hl =>
    rcases entry?_setEntry he' with ⟨rfl, rfl⟩ | ⟨-, h⟩
    · cases he.symm.trans he₁
      exact Entry.setup_cancel hl
    · exact same h
  | complete ht he₁ hl =>
    rcases entry?_setEntry he' with ⟨rfl, rfl⟩ | ⟨-, h⟩
    · cases he.symm.trans he₁
      exact Entry.setup_complete hl
    · exact same h
  | _ => exact same he'

end

/-- What has become of an entry. -/
inductive Fate where
  /-- Its run has returned a record that is terminal. -/
  | returned (r : Record)
  /-- Its run has returned a record that is not. -/
  | coerced (r : Record)
  /-- Its run has come back with an error. -/
  | rejected (reason : Refusal)
  | panicked
  /-- It has been cancelled. -/
  | cancelled

namespace Fate

/-- The frame whose step seals it. -/
def frame (k : Key) : Fate → Frame
  | .returned r | .coerced r => .finish k (.returned r)
  | .rejected reason => .finish k (.rejected reason)
  | .panicked => .finish k .panicked
  | .cancelled => .latch k

/-- The record that the entry has from then on. -/
def record (e : Entry) (now : Instant) (time : Timestamp) : Fate → Record
  | .returned r => r
  | .coerced r => { r with
      status := .error
      error := "executor returned non-terminal status '" ++ r.status.name ++ "'" }
  | .rejected reason => { Record.running e.id with
      status := .error
      error := "executor rejected run: " ++ reason.message
      executionTime := now.since e.started
      completedAt := some time }
  | .panicked => { Record.running e.id with
      status := .error
      error := "executor panicked"
      executionTime := now.since e.started
      completedAt := some time }
  | .cancelled => { Record.running e.id with
      status := .cancelled
      error := "cancelled by supervisor"
      executionTime := now.since e.started
      completedAt := some time }

/-- What has led to it: the thread `j` is the run of this entry and has come back, or is a cancel of its id that
has found it. -/
def Caused (m₀ : Machine) (before : List (Policy × Label)) (j : Nat) (k : Key) (e : Entry) : Fate → Prop
  | .returned r => r.status.isTerminal = true ∧ ∃ c, c.id = e.id ∧ RunReturns m₀ c k j (.returned r) before
  | .coerced r => r.status.isTerminal = false ∧ ∃ c, c.id = e.id ∧ RunReturns m₀ c k j (.returned r) before
  | .rejected reason => ∃ c, c.id = e.id ∧ RunReturns m₀ c k j (.rejected reason) before
  | .panicked => ∃ c, c.id = e.id ∧ RunReturns m₀ c k j .panicked before
  | .cancelled => CancelFinds m₀ e.id k j before

/-- The two that seal themselves alike are told apart by the record that has come back. -/
theorem eq_of_frame {m₀ m₀' : Machine} {before before' : List (Policy × Label)} {j j' : Nat} {k : Key} {e e' : Entry}
    {x y : Fate} (h : x.frame k = y.frame k) (hx : x.Caused m₀ before j k e) (hy : y.Caused m₀' before' j' k e') :
    x = y := by
  cases x <;> cases y <;> cases h <;> first | rfl | exact absurd (hx.1.symm.trans hy.1) (by decide)

end Fate

/-- In the one of these steps that latched a status of the entry its fate was sealed: until then it was running,
no attempt after that has succeeded, and its scope is cancelled if it was. -/
inductive Ends (m₀ : Machine) (k : Key) (e : Entry) (x : Fate) :
    List (Policy × Label) → List Event → Machine → Prop where
  | intro {before after : List (Policy × Label)} {es₁ es₂ : List Event} {m₁ m₂ m : Machine} {p : Policy} {j : Nat}
      {below : Thread} {latch : Latch} (run₁ : Run m₀ before es₁ m₁) (running : m₁.isRunning k = true)
      (first : ∀ l, .latched k l ∉ es₁) (ht : m₁.threads[j]? = some (x.frame k :: below))
      (caused : x.Caused m₀ before j k e) (step : m₁.next? p (.step j) = some m₂)
      (latched : m₁.observe p (.step j) = [.latched k latch]) (won : latch ≠ .refused)
      (record : e.record = x.record e m₁.now (p.clock m₁.now)) (run₂ : Run m₂ after es₂ m)
      (refused : ∀ l, .latched k l ∈ es₂ → l = .refused)
      (scope : x = .cancelled → e.scope.isCancelled m.signals = true) :
      Ends m₀ k e x (before ++ (p, .step j) :: after) (es₁ ++ .latched k latch :: es₂) m

namespace Machine

variable {p : Policy} {m m' : Machine} {i : Nat} {k : Key} {e e' : Entry} {below : Thread}

/-- A cancel that has found a running entry makes it cancelled, with its scope. -/
theorem cancelled_of_next? (ht : m.threads[i]? = some (.latch k :: below)) (he : m.entry? k = some e)
    (hr : e.status = .running) (hrec : e.record = Record.running e.id) (step : m.next? p (.step i) = some m')
    (he' : m'.entry? k = some e') :
    e'.record = Fate.cancelled.record e m.now (p.clock m.now) ∧ m'.signals = e.scope.cancel m.signals := by
  cases step_of_next? ht step with
  | latches he₁ hl =>
    cases he.symm.trans he₁
    cases (entry?_setEntry_self he).symm.trans he'
    rw [Entry.record_cancel hr hl, hrec]
    exact ⟨rfl, rfl⟩

/-- A run that has come back makes a running entry what comes of its outcome. -/
theorem completed_of_next? {o : Outcome} (ht : m.threads[i]? = some (.finish k o :: below))
    (he : m.entry? k = some e) (hr : e.status = .running) (step : m.next? p (.step i) = some m')
    (he' : m'.entry? k = some e') : e'.record = e.recordOf m.now (p.clock m.now) o := by
  cases step_of_next? ht step with
  | finishes he₁ hl =>
    cases he.symm.trans he₁
    cases (entry?_setEntry_self he).symm.trans he'
    rw [Entry.complete, if_neg (by simp [hr, Status.isTerminal])] at hl
    have heq := congrArg (·.1.record) hl
    simp only [Entry.record_latched] at heq
    exact heq.symm

end Machine

section

variable {m₀ m m' : Machine} {steps : List (Policy × Label)} {es : List Event} {p : Policy} {l : Label} {k : Key}
  {e : Entry} {x : Fate}

/-- The fate of an entry whose run has come back. -/
theorem Fate.of_outcome {c : Context} {j : Nat} {o : Outcome} (hid : c.id = e.id)
    (h : RunReturns m₀ c k j o steps) : ∃ x : Fate, x.frame k = .finish k o ∧ x.Caused m₀ steps j k e ∧
      x ≠ .cancelled ∧ ∀ (e : Entry) now time, x.record e now time = e.recordOf now time o := by
  cases o with
  | returned r =>
    cases hs : r.status.isTerminal with
    | true =>
      refine ⟨.returned r, rfl, ⟨hs, c, hid, h⟩, by simp, fun _ _ _ => ?_⟩
      simp [record, Entry.recordOf, Entry.settled, hs]
    | false =>
      refine ⟨.coerced r, rfl, ⟨hs, c, hid, h⟩, by simp, fun _ _ _ => ?_⟩
      simp [record, Entry.recordOf, Entry.settled, hs]
  | rejected reason => exact ⟨.rejected reason, rfl, ⟨c, hid, h⟩, by simp, fun _ _ _ => rfl⟩
  | panicked => exact ⟨.panicked, rfl, ⟨c, hid, h⟩, by simp, fun _ _ _ => rfl⟩

theorem Scope.isCancelled_mono {scope : Scope} {s s' : Signals} (h : scope.isCancelled s = true)
    (hs : s.raised ⊆ s'.raised) : scope.isCancelled s' = true := by
  simp only [Scope.isCancelled, Signals.isCancelled, List.any_eq_true, List.contains_iff_mem] at h ⊢
  exact h.imp fun t ht => ⟨ht.1, hs ht.2⟩

/-- An entry that has come to its end stays as it is but for its announcement. -/
theorem Ends.snoc (h : Ends m₀ k e x steps es m) (step : m.next? p l = some m') {announced : Bool}
    {held : Option Status} (refused : ∀ r, .latched k r ∈ m.observe p l → r = .refused) :
    Ends m₀ k { e with announced, held } x (steps ++ [(p, l)]) (es ++ m.observe p l) m' := by
  obtain ⟨run₁, running, first, ht, caused, step₁, latched, won, record, run₂, hlast, scope⟩ := h
  rw [List.append_assoc, List.append_assoc]
  refine .intro run₁ running first ht ?_ step₁ latched won ?_ (run₂.snoc step) (fun r hr => ?_) fun hx => ?_
  · cases x <;> exact caused
  · cases x <;> exact record
  · exact (List.mem_append.mp hr).elim (hlast r) (refused r)
  · exact Scope.isCancelled_mono (scope hx) (Machine.marks_of_next? step).raised

open Machine in
/-- The step that ends a running entry seals its fate. -/
theorem Run.sealed {e₁ : Entry} {r : Latch} (h : Run m₀ steps es m) (h₀ : m₀.Initial) (he : m.entry? k = some e₁)
    (hr : e₁.status = .running) (step : m.next? p l = some m') (he' : m'.entry? k = some e)
    (latched : m.observe p l = [.latched k r]) (won : r ≠ .refused) :
    ∃ x, Ends m₀ k e x (steps ++ [(p, l)]) (es ++ m.observe p l) m' := by
  have hm := h.sound h₀.sound
  obtain ⟨hrec, first⟩ : e₁.record = Record.running e₁.id ∧ ∀ l, .latched k l ∉ es := by
    cases h.history h₀ he with
    | running record untouched => exact ⟨record, untouched⟩
    | latched _ _ terminal => exact absurd hr (Status.isTerminal_ne_running terminal)
  have hsetup := (move_of_next? step).setup he he'
  obtain ⟨j, f, below, rfl, ht, hf⟩ := latched_of_observe (latched ▸ List.mem_singleton_self _)
  -- the same entry, as it is set up
  have same {x : Fate} {now : Instant} {time : Timestamp} : x.record e now time = x.record e₁ now time := by
    rw [hsetup]; cases x <;> rfl
  have run' := h.snoc step
  rw [latched]
  rcases hf with rfl | ⟨o, rfl⟩
  · obtain ⟨hrecord, hsignals⟩ := cancelled_of_next? ht he hr hrec step he'
    obtain ⟨id, hfinds⟩ := (h.traced h₀).found j k ⟨_, ht, List.mem_cons_self⟩
    have hcaused : Fate.cancelled.Caused m₀ steps j k e := by
      obtain rfl := (hfinds.append _).id_eq h₀ run' he'
      exact hfinds
    refine ⟨.cancelled, .intro h (isRunning_iff.mpr ⟨e₁, he, hr⟩) first ht hcaused step latched won
      (hrecord.trans same.symm) .nil (by simp) fun _ => ?_⟩
    have hscope : e.scope = e₁.scope := by rw [hsetup]
    simp [hscope, hsignals, Scope.cancel, Scope.isCancelled, Signals.isCancelled, Signals.raise]
  · obtain ⟨c, hreturns⟩ := (h.traced h₀).returned j k o ⟨_, ht, List.mem_cons_self⟩
    obtain ⟨x, hframe, hcaused, hne, hrecord⟩ :=
      Fate.of_outcome ((hreturns.append _).id_eq h₀ run' he') hreturns
    refine ⟨x, .intro h (isRunning_iff.mpr ⟨e₁, he, hr⟩) first (hframe ▸ ht) hcaused step latched won ?_ .nil
      (by simp) fun hx => absurd hx hne⟩
    rw [completed_of_next? ht he hr step he', same, hrecord]

/-- An entry that is finished has come to its end in one step. -/
theorem Run.ends (h : Run m₀ steps es m) (h₀ : m₀.Initial) (he : m.entry? k = some e)
    (hterm : e.status.isTerminal = true) : ∃ x, Ends m₀ k e x steps es m := by
  induction h generalizing e with
  | nil => simp [Machine.entry?_eq, h₀.entries] at he
  | @snoc steps es m₁ m p l run step ih =>
    have move := Machine.move_of_next? step
    have hc := move.change (run.sound h₀.sound) he
    cases hk : m₁.entry? k with
    | none =>
      rw [hk] at hc
      cases hc with
      | registered fresh => rw [Entry.status_of_record fresh.1] at hterm; cases hterm
    | some e₁ =>
      rw [hk] at hc
      cases hs : e₁.status.isTerminal with
      | true =>
        obtain ⟨hrec, hrefused, -⟩ := hc.final hs
        obtain ⟨x, hends⟩ := ih hk hs
        have hsetup := move.setup hk he
        rw [hrec] at hsetup
        rw [hsetup]
        exact ⟨x, hends.snoc step hrefused⟩
      | false =>
        have hr : e₁.status = .running := by
          rcases (run.sound h₀.sound).entries e₁ (Machine.entry?_mem hk) with ⟨hrec, -⟩ | ⟨ht, -⟩
          · exact Entry.status_of_record hrec
          · rw [hs] at ht; cases ht
        cases hc with
        | kept _ record => rw [Entry.status_eq_of_record record, hs] at hterm; cases hterm
        | latching attempt terminal log =>
          refine run.sealed h₀ hk hr step he log ?_
          rintro rfl
          cases attempt with
          | refused ht => rw [hs] at ht; cases ht

/-! ## One fate -/

/-- No status of an entry is latched before the first. -/
theorem Run.not_latched_before {before mid : List (Policy × Label)} {es₁ es₂ : List Event} {m₁ m₂ m₃ : Machine}
    {r : Latch} (run₁ : Run m₀ before es₁ m₁) (step : m₁.next? p l = some m₂)
    (latched : m₁.observe p l = [.latched k r]) (run₂ : Run m₀ (before ++ (p, l) :: mid) es₂ m₃)
    (first : ∀ r, .latched k r ∉ es₂) : False := by
  rw [List.append_cons] at run₂
  obtain ⟨es₃, -, rfl⟩ := (run₁.snoc step).ahead run₂
  refine first r ?_
  rw [latched]
  simp

/-- There is one step in which the first status of an entry is latched. -/
theorem Run.latched_first_once {before before' after after' : List (Policy × Label)} {es₁ es₁' : List Event}
    {m₁ m₁' m₂ m₂' : Machine} {p' : Policy} {l' : Label} {r r' : Latch} (run : Run m₀ before es₁ m₁)
    (step : m₁.next? p l = some m₂) (latched : m₁.observe p l = [.latched k r]) (first : ∀ r, .latched k r ∉ es₁)
    (run' : Run m₀ before' es₁' m₁') (step' : m₁'.next? p' l' = some m₂')
    (latched' : m₁'.observe p' l' = [.latched k r']) (first' : ∀ r, .latched k r ∉ es₁')
    (same : before ++ (p, l) :: after = before' ++ (p', l') :: after') : before = before' ∧ p = p' ∧ l = l' := by
  -- if one step came before the other, the other would not be the first
  rcases List.append_eq_append_iff.mp same with ⟨mid, rfl, heq⟩ | ⟨mid, rfl, heq⟩
  · cases mid with
    | nil => cases heq; exact ⟨(List.append_nil _).symm, rfl, rfl⟩
    | cons z mid => cases heq; exact (run.not_latched_before step latched run' first').elim
  · cases mid with
    | nil => cases heq; exact ⟨List.append_nil _, rfl, rfl⟩
    | cons z mid => cases heq; exact (run'.not_latched_before step' latched' run first).elim

/-- An entry comes to its end once. -/
theorem Ends.unique {steps' : List (Policy × Label)} {es' : List Event} {e' : Entry} {y : Fate}
    (h : Ends m₀ k e x steps es m) (h' : Ends m₀ k e' y steps' es' m') (same : steps = steps') : x = y := by
  obtain ⟨run, -, first, ht, caused, step, latched⟩ := h
  obtain ⟨run', -, first', ht', caused', step', latched'⟩ := h'
  obtain ⟨rfl, rfl, hl⟩ := run.latched_first_once step latched first run' step' latched' first' same
  cases hl
  obtain ⟨-, rfl⟩ := run.unique run'
  have hframe : x.frame k = y.frame k := (List.cons.inj (Option.some.inj (ht.symm.trans ht'))).1
  exact Fate.eq_of_frame hframe caused caused'

/-- Results go to their own entry. A finished entry has come to its end in one way, and only in one: its record
is the one that its own run has returned, if that is terminal, or the error that stands for it, or for a run
that came back with none, or it was cancelled by a call that had found this entry, and then its scope is
cancelled. A step belongs to one entry at most, and it changes no other: neither the record, nor what is held
back and announced of it, nor its notifications. -/
theorem results_keep_apart (h₀ : m₀.Initial) (h : Run m₀ steps es m) :
    (∀ k e, m.entry? k = some e → e.status.isTerminal = true → ∃! x, Ends m₀ k e x steps es m) ∧
    ∀ p l m', m.next? p l = some m' → (∀ k k', m.Concerns l k → m.Concerns l k' → k = k') ∧
      ∀ k e, m.entry? k = some e → ¬m.Concerns l k →
        m'.entry? k = some e ∧ m'.duties k = m.duties k ∧ ∀ ev ∈ m.observe p l, ev.key ≠ k := by
  refine ⟨fun k e he hterm => ?_, fun p l m' step => ⟨fun _ _ => Machine.Concerns.unique, fun k e he hnot => ?_⟩⟩
  · obtain ⟨x, hx⟩ := h.ends h₀ he hterm
    exact ⟨x, hx, fun y hy => hy.unique hx rfl⟩
  · exact untouched (h.sound h₀.sound) (h.ordered h₀).stacked step he hnot

end

/-- The second run under an id comes back with a record, and then the first, which has been cancelled. -/
def lateReturn : List Label :=
  hastySuccessor ++ [.executorReturns 3 (.returned completeRecord), .step 3,
    .executorReturns 2 (.returned unfinishedRecord)]

/-- What the first run has returned does not get into the entry of the second. -/
theorem results_keep_apart_lateReturn : ∃ es m m' e e',
    Run twoCallers (lateReturn.map fun l => ({}, l)) es m ∧ m.next? {} (.step 2) = some m' ∧
    m.Concerns (.step 2) 0 ∧ m.entry? 0 = some e ∧ e.id = "a" ∧ e.status = .cancelled ∧
    (∃! x, Ends twoCallers 0 e x (lateReturn.map fun l => ({}, l)) es m) ∧
    m.entry? 1 = some e' ∧ e'.id = "a" ∧ e'.record = completeRecord ∧
    (∃! x, Ends twoCallers 1 e' x (lateReturn.map fun l => ({}, l)) es m) ∧ m'.entry? 1 = some e' := by
  obtain ⟨es, m, m', e, e', run, step, old, he, hid, hs, he', hid', hrec⟩ : ∃ es m m' e e',
      Run twoCallers (lateReturn.map fun l => ({}, l)) es m ∧ m.next? {} (.step 2) = some m' ∧
      m.Concerns (.step 2) 0 ∧ m.entry? 0 = some e ∧ e.id = "a" ∧ e.status = .cancelled ∧
      m.entry? 1 = some e' ∧ e'.id = "a" ∧ e'.record = completeRecord :=
    ⟨_, _, _, _, _, Run.of_run? {} lateReturn rfl, rfl, ⟨2, .finish 0 (.returned unfinishedRecord), [], rfl, rfl, rfl⟩,
      rfl, rfl, rfl, rfl, rfl, rfl⟩
  obtain ⟨ends, steps⟩ := results_keep_apart twoCallers_initial run
  obtain ⟨one, others⟩ := steps {} (.step 2) m' step
  have hnot : ¬m.Concerns (.step 2) 1 := fun h => absurd (one 0 1 old h) Nat.zero_ne_one
  exact ⟨es, m, m', e, e', run, step, old, he, hid, hs, ends 0 e he (by rw [hs]; rfl), he', hid', hrec,
    ends 1 e' he' (by rw [Entry.status, hrec]; rfl), (others 1 e' he' hnot).1⟩

end Overseer.Supervisor

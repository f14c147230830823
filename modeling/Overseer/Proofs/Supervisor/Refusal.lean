import Overseer.Proofs.Supervisor.Starting

/-!
# Refusals

A start looks for a reason to refuse in a fixed order: a fault of its context, a deadline that the clock cannot
show, an id that is in use, too many running entries. It changes nothing before it has found none of them; then it
registers its entry, and the rest of what it does follows from that.

Between its steps the other threads go on, and may register, evict and finish entries until the start has the map
to itself. So what it has counted is kept with the run: each entry that it has looked at, and whether it was running
then.

* `Machine.Unmoved`: a step that only moves its own thread.
* `Machine.Weighs`: a run over which a start is not decided, with what it has seen.
* `Machine.Weighing`, `Machine.Weighs.weighing`: where the start is meanwhile.
* `Machine.Decided`: the step in which it is decided.
* `start_all_or_nothing`: the order of the refusals, and that none of them leaves a trace.
-/
namespace Overseer.Supervisor

/-- A start that has a deadline, and looks for a reason to refuse. -/
def Frame.weighs : Frame → Bool
  | .enroll _ _ | .counting _ _ _ _ => true
  | _ => false

namespace Machine

/-- The next step of thread `i` leads to `m'`, and changes nothing but where that thread stands over `below`: no
entry and no record, nothing that can be found, no other thread, and no scope that an entry or a call holds. -/
structure Unmoved (p : Policy) (i : Nat) (below : Thread) (m m' : Machine) : Prop where
  now : m'.now = m.now
  entries : m'.entries = m.entries
  tracked : m'.tracked = m.tracked
  hook : m'.hook = m.hook
  cancelled : ∀ t : Token, m'.signals.isCancelled t = m.signals.isCancelled t
  /-- No run is set off. -/
  threads : ∃ f, m'.threads = m.threads.set i (f :: below)
  /-- No notification is made. -/
  quiet : m.observe p (.step i) = []

/-- The thread is at a start that has a deadline and is not decided. -/
def undecided (m : Machine) (i : Nat) : Bool := (m.threads[i]?.getD []).head?.any Frame.weighs

/-- What a start of thread `i` sees as it counts an entry: which one it is, and whether it is running. -/
def looks (m : Machine) (i : Nat) (l : Label) : List (Key × Bool) :=
  match l.thread?, m.threads[i]? with
  | some j, some (.counting _ _ (k :: _) _ :: _) => if j = i then [(k, m.isRunning k)] else []
  | _, _ => []

/-- A run over which the start of thread `i` is not decided, with what it has seen. Its own steps are under `p`. -/
inductive Weighs (p : Policy) (i : Nat) (m : Machine) :
    List (Policy × Label) → List (Key × Bool) → Machine → Prop where
  | nil : Weighs p i m [] [] m
  | snoc {steps : List (Policy × Label)} {seen : List (Key × Bool)} {m' m'' : Machine} {q : Policy} {l : Label}
      (run : Weighs p i m steps seen m') (own : l.thread? = some i → q = p) (step : m'.next? q l = some m'')
      (undecided : m''.undecided i = true) : Weighs p i m (steps ++ [(q, l)]) (seen ++ m'.looks i l) m''

/-- Where a start of `c` stands that is not decided. While it counts it has the map to itself, so all that can be
found is what it has seen and what it has yet to look at. -/
inductive Weighing (p : Policy) (i : Nat) (c : Context) (e : Entry) (below : Thread) (m : Machine) :
    List (Key × Bool) → Prop where
  | waits (ht : m.threads[i]? = some (.enroll c e :: below)) : Weighing p i c e below m []
  | counts {seen : List (Key × Bool)} {todo : List Key} (limited : 0 < p.maxRunning)
      (ht : m.threads[i]? = some (.counting c e todo (seen.countP (·.2)) :: below))
      (order : seen.map (·.1) ++ todo = p.visit m.keys) : Weighing p i c e below m seen

/-- There is a limit, and what a start has seen running has reached it. -/
def Full (p : Policy) (seen : List (Key × Bool)) : Prop := 0 < p.maxRunning ∧ p.maxRunning ≤ seen.countP (·.2)

/-- The step from `m` to `m'` in which a start of `c` is decided that has seen `seen`. -/
structure Decided (p : Policy) (i : Nat) (c : Context) (e : Entry) (below : Thread) (m : Machine)
    (seen : List (Key × Bool)) (m' : Machine) : Prop where
  tracked : ∀ id, m'.threads[i]? = some (.answer (.refused (.alreadyTracked id)) :: below) ↔
    id = c.id ∧ (m.find? c.id).isSome = true
  /-- It has counted all that can be found, each entry once. -/
  counted : m.find? c.id = none → 0 < p.maxRunning → (seen.map (·.1)).Perm m.keys
  full : m.find? c.id = none → ∀ running limit,
    m'.threads[i]? = some (.answer (.refused (.capacityExceeded running limit)) :: below) ↔
      Full p seen ∧ running = seen.countP (·.2) ∧ limit = p.maxRunning
  registered : m.find? c.id = none → ¬Full p seen → m' = m.register i c e below
  unmoved : ∀ a, m'.threads[i]? = some (.answer a :: below) → m.Unmoved p i below m'

end Machine

section

variable {p q : Policy} {m m' m₁ : Machine} {l : Label} {i : Nat} {c : Context} {e : Entry} {below : Thread}
  {seen : List (Key × Bool)} {steps : List (Policy × Label)}

open Machine

/-! ## While a start is not decided -/

namespace Machine

theorem looks_of_other (hl : l.thread? ≠ some i) : m.looks i l = [] := by
  unfold looks
  split
  · rename_i j _ _ _ _ _ _ hj _
    exact if_neg fun h => hl (hj.trans (congrArg some h))
  · rfl

theorem looks_enroll (ht : m.threads[i]? = some (.enroll c e :: below)) : m.looks i l = [] := by
  unfold looks
  split
  · rename_i ht'
    cases ht.symm.trans ht'
  · rfl

theorem looks_counting {k : Key} {todo : List Key} {n : Nat}
    (ht : m.threads[i]? = some (.counting c e (k :: todo) n :: below)) :
    m.looks i (.step i) = [(k, m.isRunning k)] := by
  simp [looks, ht, Label.thread?]

/-- A start that goes on without a change to anything else. -/
theorem unmoved_setThread {f : Frame} (g : Frame) (ht : m.threads[i]? = some (f :: below))
    (quiet : m.observeFrame p f = []) : m.Unmoved p i below (m.setThread i (g :: below)) where
  now := rfl
  entries := rfl
  tracked := rfl
  hook := rfl
  cancelled _ := rfl
  threads := ⟨g, rfl⟩
  quiet := by rw [observe, ht]; exact quiet

theorem undecided_eq {f : Frame} (ht : m.threads[i]? = some (f :: below)) : m.undecided i = f.weighs := by
  simp [undecided, ht]

theorem Weighing.undecided (h : m.Weighing p i c e below seen) : m.undecided i = true := by
  cases h with
  | waits ht => exact undecided_eq ht
  | counts _ ht => exact undecided_eq ht

/-- While the others go on, a start stands where it stood. -/
theorem Weighing.other (h : m.Weighing p i c e below seen) (hlock : m.Locked) (hnext : m.next? q l = some m')
    (hl : l.thread? ≠ some i) : m'.Weighing p i c e below seen := by
  have hturn := turn_of_next? hnext
  cases h with
  | waits ht => exact .waits (hturn.thread_same hl ht)
  | counts limited ht order =>
    have hkeys : m'.keys = m.keys := by rw [keys, hturn.tracked_same hlock ht rfl hl]; rfl
    exact .counts limited (hturn.thread_same hl ht) (hkeys ▸ order)

/-! ## The steps of a start -/

theorem decided_known (ht : m.threads[i]? = some (.enroll c e :: below)) (known : (m.find? c.id).isSome = true) :
    Decided p i c e below m seen (m.setThread i (.answer (.refused (.alreadyTracked c.id)) :: below)) := by
  have ht' := getElem?_setThread ht (.answer (.refused (.alreadyTracked c.id)) :: below)
  have absurd' {P : Prop} (unknown : m.find? c.id = none) : P := by
    rw [unknown] at known
    cases known
  refine ⟨fun id => ?_, absurd', absurd', absurd', fun _ _ => unmoved_setThread _ ht rfl⟩
  rw [ht']
  simp [known, eq_comm]

theorem decided_full {todo : List Key} {n : Nat} (ht : m.threads[i]? = some (.counting c e todo n :: below))
    (unknown : m.find? c.id = none) (counted : (seen.map (·.1)).Perm m.keys) (full : Full p seen) :
    Decided p i c e below m seen
      (m.setThread i (.answer (.refused (.capacityExceeded (seen.countP (·.2)) p.maxRunning)) :: below)) := by
  have ht' := getElem?_setThread ht
    (.answer (.refused (.capacityExceeded (seen.countP (·.2)) p.maxRunning)) :: below)
  refine ⟨fun id => ?_, fun _ _ => counted, fun _ running limit => ?_, fun _ hroom => absurd full hroom,
    fun _ _ => unmoved_setThread _ ht rfl⟩
  · rw [ht']
    simp [unknown]
  · rw [ht']
    simp [full, eq_comm]

theorem decided_register {f : Frame} (ht : m.threads[i]? = some (f :: below)) (unknown : m.find? c.id = none)
    (counted : 0 < p.maxRunning → (seen.map (·.1)).Perm m.keys) (room : ¬Full p seen) :
    Decided p i c e below m seen (m.register i c e below) := by
  have ht' := getElem?_register ht c e below
  refine ⟨fun id => ?_, fun _ => counted, fun _ running limit => ?_, fun _ _ => rfl, fun a ha => ?_⟩
  · rw [ht']
    simp [unknown]
  · rw [ht']
    simp [room]
  · cases ht'.symm.trans ha

/-- A step of a start that is not decided: it is not decided afterwards, and nothing else has changed, or it is
decided by it. -/
theorem Weighing.step (h : m.Weighing p i c e below seen) (id : e.id = c.id) (fair : p.Fair) (hindexed : m.Indexed)
    (hnext : m.next? p (.step i) = some m') :
    (m'.Weighing p i c e below (seen ++ m.looks i (.step i)) ∧ m.Unmoved p i below m') ∨
      (m'.undecided i = false ∧ Decided p i c e below m seen m') := by
  cases h with
  | waits ht =>
    rw [looks_enroll ht, List.append_nil]
    cases step_of_next? ht hnext with
    | tracked _ known =>
      rw [id] at known ⊢
      exact Or.inr ⟨undecided_eq (getElem?_setThread ht _), decided_known ht known⟩
    | enrolls _ unknown unlimited =>
      have nolimit : ¬0 < p.maxRunning := Nat.not_lt.mpr (Nat.le_of_eq unlimited)
      exact Or.inr ⟨undecided_eq (getElem?_register ht ..),
        decided_register ht (id ▸ unknown) (fun hp => absurd hp nolimit) fun full => nolimit full.1⟩
    | claims _ _ limited =>
      exact Or.inl ⟨.counts (Nat.pos_of_ne_zero limited) (getElem?_setThread ht _) rfl, unmoved_setThread _ ht rfl⟩
  | counts limited ht order =>
    have unknown : m.find? c.id = none := id ▸ hindexed.unused _ _ _ _ (mem_frames ht List.mem_cons_self)
    have counted (done : seen.map (·.1) ++ [] = p.visit m.keys) : (seen.map (·.1)).Perm m.keys := by
      rw [List.append_nil] at done
      exact done ▸ fair m.keys
    cases step_of_next? ht hnext with
    | @counts _ _ k todo =>
      rw [looks_counting ht]
      have hcount : (if m.isRunning k = true then seen.countP (·.2) + 1 else seen.countP (·.2)) =
          (seen ++ [(k, m.isRunning k)]).countP (·.2) := by
        rw [List.countP_append, List.countP_singleton]
        split <;> rfl
      have order' : (seen ++ [(k, m.isRunning k)]).map (·.1) ++ todo = p.visit m.keys := by
        rw [List.map_append, List.append_assoc]
        exact order
      exact Or.inl ⟨.counts limited (hcount ▸ getElem?_setThread ht _) order', unmoved_setThread _ ht rfl⟩
    | full full =>
      exact Or.inr ⟨undecided_eq (getElem?_setThread ht _), decided_full ht unknown (counted order) ⟨limited, full⟩⟩
    | admits room =>
      exact Or.inr ⟨undecided_eq (getElem?_register ht ..),
        decided_register ht unknown (fun _ => counted order) fun full => Nat.not_le.mpr room full.2⟩

theorem Weighs.run (h : m₁.Weighs p i steps seen m) : ∃ es, Run m₁ steps es m := by
  induction h with
  | nil => exact ⟨[], .nil⟩
  | snoc _ _ step _ ih =>
    obtain ⟨es, hrun⟩ := ih
    exact ⟨_, hrun.snoc step⟩

/-- Over a run on which a start is not decided, it stands where what it has seen says. -/
theorem Weighs.weighing {m₀ : Machine} {steps₀ : List (Policy × Label)} {es₀ : List Event} (h : m₁.Weighs p i steps seen m)
    (h₀ : m₀.Initial) (h₁ : Run m₀ steps₀ es₀ m₁) (id : e.id = c.id) (fair : p.Fair)
    (ht : m₁.threads[i]? = some (.enroll c e :: below)) : m.Weighing p i c e below seen := by
  induction h with
  | nil => exact .waits ht
  | @snoc steps seen m m' q l run own step hundecided ih =>
    obtain ⟨es, hrun⟩ := run.run
    have hrun := h₁.trans hrun
    by_cases hl : l.thread? = some i
    · obtain rfl := own hl
      obtain rfl : l = .step i := by
        cases ih with
        | waits ht => exact (eq_step step hl ht (Or.inl rfl)).1
        | counts _ ht => exact (eq_step step hl ht (Or.inl rfl)).1
      rcases ih.step id fair (hrun.indexed h₀) step with ⟨hweighing, -⟩ | ⟨hclosed, -⟩
      · exact hweighing
      · rw [hundecided] at hclosed
        cases hclosed
    · rw [looks_of_other hl, List.append_nil]
      exact ih.other (hrun.locked h₀) step hl

/-- The first step of a start: a fault of its context, a deadline that the clock cannot show, or an entry that is
not registered yet. Nothing has changed but that a token has been made. -/
theorem start_begins {parent : Scope} (hm : m.Sound) (ht : m.threads[i]? = some (.start c parent :: below)) :
    ∃ m₁, m.next? p (.step i) = some m₁ ∧ m.Unmoved p i below m₁ ∧
      ((∃ fault, c.validate = .error fault ∧
          m₁.threads[i]? = some (.answer (.refused (.invalid fault)) :: below)) ∨
        (c.validate = .ok () ∧ ¬Instant.Representable (m.now + c.limits.timeout.nanos) ∧
          m₁.threads[i]? = some (.answer (.panicked clockPanic) :: below)) ∨
        (c.validate = .ok () ∧ Instant.Representable (m.now + c.limits.timeout.nanos) ∧
          ∃ scope signals, parent.child? m.signals m.now c.limits.timeout = some (scope, signals) ∧
            m₁.threads[i]? = some (.enroll c (Entry.new c.id scope m.now) :: below))) := by
  have hb : Thread.HandsOver below := (hm.settled _ (List.mem_of_getElem? ht)).1
  cases hv : c.validate with
  | error fault =>
    exact ⟨_, next?_of_step ht (.invalid hv), unmoved_setThread _ ht rfl,
      Or.inl ⟨fault, rfl, getElem?_setThread ht _⟩⟩
  | ok =>
    by_cases hshown : Instant.Representable (m.now + c.limits.timeout.nanos)
    · simp only [Scope.child?, Instant.after?, if_pos hshown]
      have step : m.next? p (.step i) = some _ :=
        next?_of_step ht (.begins hv (by simp only [Scope.child?, Instant.after?, if_pos hshown]; rfl))
      exact ⟨_, step, { unmoved_setThread (m := m) _ ht rfl with },
        Or.inr (Or.inr ⟨trivial, hshown, _, _, rfl, getElem?_setThread (m := { m with signals := _ }) ht _⟩)⟩
    · have step : m.next? p (.step i) = some _ :=
        next?_of_step ht (.overflows hv (by simp only [Scope.child?, Instant.after?, if_neg hshown]))
      rw [panicked, unwound_of_handsOver hb] at step
      exact ⟨_, step, unmoved_setThread _ ht rfl, Or.inr (Or.inl ⟨rfl, hshown, getElem?_setThread ht _⟩)⟩

end Machine

end

/-! ## All or nothing -/

open Machine in
/-- Over every interleaving, a start under any scope looks for a reason to refuse in a fixed order. Its first step
answers with the first fault of the context, if it has one, and panics if the clock cannot show its deadline.
Otherwise the start is decided later, and can be: it is refused if and only if its id is in use then; if not, it is
refused for want of room if and only if there is a limit and the entries that it has seen running have reached it,
each entry that can be found having been looked at once; if not, it registers one new entry under its id. No step
before that, and none that refuses or panics, changes anything. -/
theorem start_all_or_nothing {m₀ m : Machine} {steps : List (Policy × Label)} {es : List Event} {i : Nat} {c : Context}
    {parent : Scope} {below : Thread} {p : Policy} (h₀ : m₀.Initial) (h : Run m₀ steps es m) (fair : p.Fair)
    (ht : m.threads[i]? = some (.start c parent :: below)) :
    ∃ m₁, m.next? p (.step i) = some m₁ ∧ m.Unmoved p i below m₁ ∧ m₁.Returns p i below ∧
      (∀ fault, m₁.threads[i]? = some (.answer (.refused (.invalid fault)) :: below) ↔ c.validate = .error fault) ∧
      (∀ message, m₁.threads[i]? = some (.answer (.panicked message) :: below) ↔ c.validate = .ok () ∧
        ¬Instant.Representable (m.now + c.limits.timeout.nanos) ∧ message = clockPanic) ∧
      (c.validate = .ok () → Instant.Representable (m.now + c.limits.timeout.nanos) → ∃ scope signals,
        parent.child? m.signals m.now c.limits.timeout = some (scope, signals) ∧ m₁.undecided i = true ∧
        ∀ steps' seen m' m'', m₁.Weighs p i steps' seen m' → m'.next? p (.step i) = some m'' →
          (m''.undecided i = true ∧ m'.Unmoved p i below m'') ∨
          (m''.undecided i = false ∧ Decided p i c (Entry.new c.id scope m.now) below m' seen m'')) := by
  obtain ⟨m₁, step, unmoved, ⟨fault, hv, ht₁⟩ | ⟨hv, hover, ht₁⟩ | ⟨hv, hshown, scope, signals, hchild, ht₁⟩⟩ :=
    start_begins (p := p) (h.sound h₀.sound) ht
  · refine ⟨m₁, step, unmoved, .here ht₁, fun fault' => ?_, fun message => ?_, fun hok => ?_⟩
    · rw [ht₁, hv]
      simp
    · rw [ht₁, hv]
      simp
    · rw [hv] at hok
      cases hok
  · refine ⟨m₁, step, unmoved, .here ht₁, fun fault' => ?_, fun message => ?_, fun _ hshown => absurd hshown hover⟩
    · rw [ht₁, hv]
      simp
    · rw [ht₁]
      simp [hv, hover, eq_comm]
  · have hrun := h.snoc step
    refine ⟨m₁, step, unmoved, returns_waiting (hrun.locked h₀) ht₁ rfl fun _ => returns_free, fun fault' => ?_,
      fun message => ?_, fun _ _ => ⟨scope, signals, hchild, undecided_eq ht₁, ?_⟩⟩
    · rw [ht₁, hv]
      simp
    · rw [ht₁]
      simp [hshown]
    · intro steps' seen m' m'' hweighs step'
      obtain ⟨es', hrun'⟩ := hweighs.run
      have hweighing := hweighs.weighing h₀ hrun rfl fair ht₁
      rcases hweighing.step rfl fair ((hrun.trans hrun').indexed h₀) step' with ⟨hweighing', unmoved'⟩ | hdecided
      · exact Or.inl ⟨hweighing'.undecided, unmoved'⟩
      · exact Or.inr hdecided

/-- A run has the only place, and a start of `t` waits. -/
def placeTaken (t : Thread) (fresh : Nat) : Machine :=
  let scope : Scope := ⟨⟨0, [0]⟩, some (plainContext "a").limits.timeout.nanos⟩
  { now := 0, signals := { fresh },
    entries := [Entry.new "a" scope 0], tracked := [("a", 0)],
    threads := [[.notify 0 .running, .announce (plainContext "a") 0], t] }

/-- The second start counts the first run, and is refused without a trace. -/
theorem start_all_or_nothing_placeTaken : ∃ es m₁ m' m'',
    Run twoCallers ([.call 0 (.plainStart "a"), .step 0, .step 0, .step 0, .call 1 (.plainStart "b")].map
      fun l => ({ maxRunning := 1 }, l)) es (placeTaken [.plainStart "b"] 1) ∧
    (placeTaken [.plainStart "b"] 1).next? { maxRunning := 1 } (.step 1) = some m₁ ∧
    (placeTaken [.plainStart "b"] 1).Unmoved { maxRunning := 1 } 1 [] m₁ ∧
    m₁.Weighs { maxRunning := 1 } 1 [({ maxRunning := 1 }, .step 1), ({ maxRunning := 1 }, .step 1)] [(0, true)] m' ∧
    m'.next? { maxRunning := 1 } (.step 1) = some m'' ∧ m'.Unmoved { maxRunning := 1 } 1 [] m'' ∧
    m''.threads[1]? = some [.answer (.refused (.capacityExceeded 1 1))] := by
  have fair : Policy.Fair { maxRunning := 1 } := fun ks => .refl ks
  have h : Run twoCallers _ _ (placeTaken [.plainStart "b"] 1) := Run.of_run? { maxRunning := 1 }
    [.call 0 (.plainStart "a"), .step 0, .step 0, .step 0, .call 1 (.plainStart "b")] rfl
  have ht : (placeTaken [.plainStart "b"] 1).threads[1]? = some [.start (plainContext "b") ⟨⟨0, []⟩, none⟩] := rfl
  obtain ⟨m₁, step, unmoved, -, -, -, hdecides⟩ := start_all_or_nothing twoCallers_initial h fair ht
  obtain ⟨scope, signals, hchild, -, hdecides⟩ := hdecides rfl (by decide)
  obtain rfl : placeTaken [.enroll (plainContext "b") (Entry.new "b" scope 0)] 2 = m₁ := by
    cases hchild
    exact Option.some.inj step
  have begins := Machine.Weighs.nil (p := { maxRunning := 1 }) (i := 1)
    (m := placeTaken [.enroll (plainContext "b") (Entry.new "b" scope 0)] 2)
  have claims := begins.snoc (q := { maxRunning := 1 }) (l := .step 1) (fun _ => rfl) rfl rfl
  have looks := claims.snoc (q := { maxRunning := 1 }) (l := .step 1) (fun _ => rfl) rfl rfl
  obtain ⟨hundecided, -⟩ | ⟨-, hdecided⟩ := hdecides _ _ _ _ looks rfl
  · cases hundecided
  · exact ⟨_, _, _, _, h, step, unmoved, looks, rfl, hdecided.unmoved _ rfl, rfl⟩

end Overseer.Supervisor

import Overseer.Supervisor.Machine

/-!
# The steps of the supervisor

`Machine.next?` computes what a label does. Here the same is told as a relation, with a constructor for each way
in which a frame can go on: what has to be so, and what the machine is afterwards. A proof about all steps goes by
these constructors, and need not open the function.

* `Step`: the steps of a thread, by its innermost frame.
* `Next`: what the labels do.
* `next?_eq_some_iff`: a label does what the relation says, and all that it says is possible.
-/
namespace Overseer.Supervisor

/-- A stack that hands over to the surroundings: it is empty, or they act in its innermost frame. -/
def Thread.HandsOver : Thread → Prop
  | [] => True
  | f :: _ => f.isOpen = true

/-- The notification that is due once a status has been latched. -/
def Latch.notice (l : Latch) (k : Key) (s : Status) : Thread :=
  if l = .notify then [.notify k s] else []

@[simp] theorem Latch.mem_notice {l : Latch} {k : Key} {s : Status} {f : Frame} :
    f ∈ l.notice k s ↔ l = .notify ∧ f = .notify k s := by
  unfold notice
  split <;> simp [*]

/-- A scan looks at an entry: what it has found comes in one form, whether the entry is running or not. -/
theorem Machine.stepFrame?_look (p : Policy) (m : Machine) (i : Nat) (below : Thread) (k : Key) (todo : List Key)
    (found : List String) :
    m.stepFrame? p i below (.scanning (k :: todo) found) = some (m.setThread i (.scanning todo (found ++
      ((m.entry? k).toList.filter (·.status = .running)).map (·.id)) :: below)) := by
  simp only [Machine.stepFrame?]
  cases he : m.entry? k with
  | none => simp
  | some e => by_cases hr : e.status = .running <;> simp [hr]

/-- A thread goes on whose innermost frame is the given one, upon the others. -/
inductive Step (p : Policy) (m : Machine) (i : Nat) : Frame → Thread → Machine → Prop where
  -- a start
  | invalid {c : Context} {parent : Scope} {below : Thread} {fault : Fault} (fails : c.validate = .error fault) :
      Step p m i (.start c parent) below (m.setThread i (.answer (.refused (.invalid fault)) :: below))
  /-- The clock cannot show the deadline. -/
  | overflows {c : Context} {parent : Scope} {below : Thread} (valid : c.validate = .ok ())
      (child : parent.child? m.signals m.now c.limits.timeout = none) :
      Step p m i (.start c parent) below (m.setThread i (Machine.panicked Machine.clockPanic below))
  | begins {c : Context} {parent scope : Scope} {signals : Signals} {below : Thread} (valid : c.validate = .ok ())
      (child : parent.child? m.signals m.now c.limits.timeout = some (scope, signals)) :
      Step p m i (.start c parent) below
        ({ m with signals }.setThread i (.enroll c (Entry.new c.id scope m.now) :: below))
  | tracked {c : Context} {e : Entry} {below : Thread} (free : m.canWrite = true)
      (known : (m.find? e.id).isSome = true) :
      Step p m i (.enroll c e) below (m.setThread i (.answer (.refused (.alreadyTracked e.id)) :: below))
  /-- There is no limit to keep. -/
  | enrolls {c : Context} {e : Entry} {below : Thread} (free : m.canWrite = true) (unknown : m.find? e.id = none)
      (unlimited : p.maxRunning = 0) : Step p m i (.enroll c e) below (m.register i c e below)
  | claims {c : Context} {e : Entry} {below : Thread} (free : m.canWrite = true) (unknown : m.find? e.id = none)
      (limited : p.maxRunning ≠ 0) :
      Step p m i (.enroll c e) below
        (m.setThread i (.counting c e (p.visit (m.tracked.map (·.2))) 0 :: below))
  | counts {c : Context} {e : Entry} {k : Key} {todo : List Key} {running : Nat} {below : Thread} :
      Step p m i (.counting c e (k :: todo) running) below
        (m.setThread i (.counting c e todo (if m.isRunning k then running + 1 else running) :: below))
  | full {c : Context} {e : Entry} {running : Nat} {below : Thread} (full : p.maxRunning ≤ running) :
      Step p m i (.counting c e [] running) below
        (m.setThread i (.answer (.refused (.capacityExceeded running p.maxRunning)) :: below))
  | admits {c : Context} {e : Entry} {running : Nat} {below : Thread} (room : running < p.maxRunning) :
      Step p m i (.counting c e [] running) below (m.register i c e below)
  | announces {c : Context} {k : Key} {e : Entry} {below : Thread} (he : m.entry? k = some e) :
      Step p m i (.announce c k) below ((m.setEntry k e.announce.1).setThread i
        (e.held.toList.map (.notify k) ++ .spawn c k :: below))
  | spawns {c : Context} {k : Key} {below : Thread} :
      Step p m i (.spawn c k) below
        { m with threads := (m.threads.set i (.answer .done :: below)) ++ [[.run c k]] }
  -- calls that look up an id
  | cancelsNone {id : String} {below : Thread} (free : m.canRead = true) (unknown : m.find? id = none) :
      Step p m i (.cancel id) below (m.setThread i (.answer (.refused (.notFound id)) :: below))
  | cancels {id : String} {k : Key} {below : Thread} (free : m.canRead = true) (find : m.find? id = some k) :
      Step p m i (.cancel id) below (m.setThread i (.latch k :: below))
  | latches {k : Key} {e e' : Entry} {latch : Latch} {below : Thread} (he : m.entry? k = some e)
      (cancel : e.cancel m.now (p.clock m.now) = (e', latch)) :
      Step p m i (.latch k) below (({ m with signals := e.scope.cancel m.signals }.setEntry k e').setThread i
        (latch.notice k .cancelled ++ Frame.answer .done :: below))
  | asksNone {id : String} {below : Thread} (free : m.canRead = true) (unknown : m.find? id = none) :
      Step p m i (.status id) below (m.setThread i (.answer (.refused (.notFound id)) :: below))
  | asks {id : String} {k : Key} {below : Thread} (free : m.canRead = true) (find : m.find? id = some k) :
      Step p m i (.status id) below (m.setThread i (.snapshot k :: below))
  | shows {k : Key} {e : Entry} {below : Thread} (he : m.entry? k = some e) :
      Step p m i (.snapshot k) below (m.setThread i (.answer (.record e.record) :: below))
  | waitsNone {id : String} {below : Thread} (free : m.canRead = true) (unknown : m.find? id = none) :
      Step p m i (.wait id) below (m.setThread i (.answer (.refused (.notFound id)) :: below))
  | waits {id : String} {k : Key} {below : Thread} (free : m.canRead = true) (find : m.find? id = some k) :
      Step p m i (.wait id) below (m.setThread i (.check id k :: below))
  | ended {id : String} {k : Key} {e : Entry} {below : Thread} (he : m.entry? k = some e)
      (terminal : e.status.isTerminal = true) :
      Step p m i (.check id k) below (m.setThread i (.answer (.record e.record) :: below))
  | sleeps {id : String} {k : Key} {e : Entry} {below : Thread} (he : m.entry? k = some e)
      (live : e.status.isTerminal = false) :
      Step p m i (.check id k) below (m.setThread i (.doze id (m.now + pollInterval.nanos) :: below))
  | wakes {id : String} {wake : Instant} {below : Thread} (due : wake ≤ m.now) :
      Step p m i (.doze id wake) below (m.setThread i (.wait id :: below))
  -- calls that go through the map
  | scans {below : Thread} (free : m.canRead = true) :
      Step p m i .listRunning below (m.setThread i (.scanning (p.visit (m.tracked.map (·.2))) [] :: below))
  | looks {k : Key} {todo : List Key} {found : List String} {below : Thread} :
      Step p m i (.scanning (k :: todo) found) below (m.setThread i (.scanning todo (found ++
        ((m.entry? k).toList.filter (·.status = .running)).map (·.id)) :: below))
  | lists {found : List String} {below : Thread} :
      Step p m i (.scanning [] found) below (m.setThread i (.answer (.ids found) :: below))
  | sweeps {below : Thread} (free : m.canWrite = true) :
      Step p m i .prune below (m.setThread i (.sweeping (p.visit (m.tracked.map (·.2))) 0 :: below))
  | evicts {k : Key} {todo : List Key} {evicted : Nat} {below : Thread} (finished : m.isFinished k = true) :
      Step p m i (.sweeping (k :: todo) evicted) below
        ({ m with tracked := m.tracked.filter (·.2 ≠ k) }.setThread i (.sweeping todo (evicted + 1) :: below))
  | spares {k : Key} {todo : List Key} {evicted : Nat} {below : Thread} (live : m.isFinished k = false) :
      Step p m i (.sweeping (k :: todo) evicted) below (m.setThread i (.sweeping todo evicted :: below))
  | swept {evicted : Nat} {below : Thread} :
      Step p m i (.sweeping [] evicted) below (m.setThread i (.answer (.count evicted) :: below))
  -- a shutdown
  | shuts {timeout : Option Duration} {below : Thread} :
      Step p m i (.shutdown timeout) below
        (m.setThread i (.listRunning :: .silence (timeout.getD p.shutdownTimeout) :: below))
  | told {timeout : Duration} {ids : List String} {below : Thread} :
      Step p m i (.answer (.ids ids)) (.silence timeout :: below) (m.setThread i (.silencing timeout ids :: below))
  | silences {timeout : Duration} {id : String} {ids : List String} {below : Thread} :
      Step p m i (.silencing timeout (id :: ids)) below
        (m.setThread i (.cancel id :: .silencing timeout ids :: below))
  | silenced {timeout : Duration} {ids : List String} {a : Answer} {below : Thread} :
      Step p m i (.answer a) (.silencing timeout ids :: below) (m.setThread i (.silencing timeout ids :: below))
  /-- The clock cannot show the deadline. -/
  | overruns {timeout : Duration} {below : Thread} (deadline : Instant.after? m.now timeout = none) :
      Step p m i (.silencing timeout []) below (m.setThread i (Machine.panicked Machine.clockPanic below))
  | polls {timeout : Duration} {deadline : Instant} {below : Thread}
      (hdeadline : Instant.after? m.now timeout = some deadline) :
      Step p m i (.silencing timeout []) below (m.setThread i (.drain timeout deadline :: below))
  | drains {timeout : Duration} {deadline : Instant} {below : Thread} :
      Step p m i (.drain timeout deadline) below
        (m.setThread i (.listRunning :: .drained timeout deadline :: below))
  | drained {timeout : Duration} {deadline : Instant} {below : Thread} :
      Step p m i (.answer (.ids [])) (.drained timeout deadline :: below)
        (m.setThread i (.answer .done :: below))
  | late {timeout : Duration} {deadline : Instant} {id : String} {ids : List String} {below : Thread}
      (late : deadline ≤ m.now) :
      Step p m i (.answer (.ids (id :: ids))) (.drained timeout deadline :: below)
        (m.setThread i (.answer (.refused (.shutdownTimeout timeout (id :: ids).length)) :: below))
  | rests {timeout : Duration} {deadline : Instant} {id : String} {ids : List String} {below : Thread}
      (early : m.now < deadline) :
      Step p m i (.answer (.ids (id :: ids))) (.drained timeout deadline :: below)
        (m.setThread i (.rest timeout deadline (m.now + pollInterval.nanos) :: below))
  | resumes {timeout : Duration} {deadline wake : Instant} {below : Thread} (due : wake ≤ m.now) :
      Step p m i (.rest timeout deadline wake) below (m.setThread i (.drain timeout deadline :: below))
  -- a run, and its notifications
  | runs {c : Context} {k : Key} {below : Thread} :
      Step p m i (.run c k) below (m.setThread i (.executing c k :: below))
  | finishes {k : Key} {o : Outcome} {e e' : Entry} {latch : Latch} {below : Thread} (he : m.entry? k = some e)
      (complete : e.complete (e.recordOf m.now (p.clock m.now) o) = (e', latch)) :
      Step p m i (.finish k o) below ((m.setEntry k e').setThread i
        (latch.notice k (e.recordOf m.now (p.clock m.now) o).status ++ below))
  | skips {k : Key} {s : Status} {below : Thread} (none : m.hook = none) :
      Step p m i (.notify k s) below (m.setThread i below)
  | notifies {k : Key} {s : Status} {h : Nat} {below : Thread} (hook : m.hook = some h) :
      Step p m i (.notify k s) below (m.setThread i (.hook h k s :: below))

/-- What a label does. -/
inductive Next (p : Policy) (m : Machine) : Label → Machine → Prop where
  | step {i : Nat} {f : Frame} {below : Thread} {m' : Machine} (ht : m.threads[i]? = some (f :: below))
      (step : Step p m i f below m') : Next p m (.step i) m'
  | call {i : Nat} {f : Frame} {t : Thread} (isCall : f.isCall = true) (ht : m.threads[i]? = some t)
      (hands : t.HandsOver) : Next p m (.call i f) (m.setThread i (f :: t))
  | take {i : Nat} {a : Answer} {below : Thread} (ht : m.threads[i]? = some (.answer a :: below))
      (hands : Thread.HandsOver below) : Next p m (.take i) (m.setThread i below)
  | hookReturns {i h : Nat} {k : Key} {s : Status} {below : Thread}
      (ht : m.threads[i]? = some (.hook h k s :: below)) : Next p m (.hookReturns i) (m.setThread i below)
  | hookPanics {i h : Nat} {k : Key} {s : Status} {below : Thread} {message : String}
      (ht : m.threads[i]? = some (.hook h k s :: below)) :
      Next p m (.hookPanics i message) (m.setThread i (Machine.panicked message below))
  | executorReturns {i : Nat} {c : Context} {k : Key} {o : Outcome} {below : Thread}
      (ht : m.threads[i]? = some (.executing c k :: below)) :
      Next p m (.executorReturns i o) (m.setThread i (.finish k o :: below))
  | giveUp {i : Nat} {id : String} {wake : Instant} {below : Thread}
      (ht : m.threads[i]? = some (.doze id wake :: below)) : Next p m (.giveUp i) (m.setThread i below)
  | newThread : Next p m .newThread { m with threads := m.threads ++ [[]] }
  | tick {now : Instant} (later : m.now ≤ now) : Next p m (.tick now) { m with now }
  | newToken : Next p m .newToken { m with signals := m.signals.root.2 }
  | derive {scope child : Scope} {timeout : Duration} {signals : Signals}
      (hchild : scope.child? m.signals m.now timeout = some (child, signals)) :
      Next p m (.derive scope timeout) { m with signals }
  | raise {token : Token} : Next p m (.raise token) { m with signals := m.signals.raise token }
  | setHook {h : Nat} : Next p m (.setHook h) { m with hook := some h }

namespace Machine

variable {p : Policy} {m m' : Machine} {l : Label} {i : Nat} {f : Frame} {below : Thread}

/-! ## The function goes by the relation -/

/-- A call that looks up an id is refused, or goes on with the entry found. -/
theorem lookup_inv {id : String} {g : Key → Frame}
    (h : (if m.canRead = false then none
      else match m.find? id with
        | none => some (m.setThread i (.answer (.refused (.notFound id)) :: below))
        | some key => some (m.setThread i (g key :: below))) = some m') :
    m.canRead = true ∧
      (m.find? id = none ∧ m' = m.setThread i (.answer (.refused (.notFound id)) :: below) ∨
        ∃ k, m.find? id = some k ∧ m' = m.setThread i (g k :: below)) := by
  split at h
  · cases h
  refine ⟨(Bool.not_eq_false _).mp ‹_›, ?_⟩
  split at h
  · cases h; exact Or.inl ⟨‹_›, rfl⟩
  · cases h; exact Or.inr ⟨_, ‹_›, rfl⟩

theorem step_of_start {c : Context} {parent : Scope} (h : m.stepFrame? p i below (.start c parent) = some m') :
    Step p m i (.start c parent) below m' := by
  simp only [stepFrame?] at h
  split at h
  · cases h; exact .invalid ‹_›
  · split at h <;> cases h
    · exact .overflows ‹_› ‹_›
    · exact .begins ‹_› ‹_›

theorem step_of_enroll {c : Context} {e : Entry} (h : m.stepFrame? p i below (.enroll c e) = some m') :
    Step p m i (.enroll c e) below m' := by
  simp only [stepFrame?] at h
  split at h
  · cases h
  have free : m.canWrite = true := (Bool.not_eq_false _).mp ‹_›
  split at h
  · cases h; exact .tracked free ‹_›
  have unknown : m.find? e.id = none := Option.not_isSome_iff_eq_none.mp ‹_›
  split at h <;> cases h
  · exact .enrolls free unknown ‹_›
  · exact .claims free unknown ‹_›

theorem step_of_counting {c : Context} {e : Entry} {todo : List Key} {running : Nat}
    (h : m.stepFrame? p i below (.counting c e todo running) = some m') :
    Step p m i (.counting c e todo running) below m' := by
  cases todo with
  | cons k todo => cases h; exact .counts
  | nil =>
    simp only [stepFrame?] at h
    split at h <;> cases h
    · exact .full ‹_›
    · exact .admits (Nat.not_le.mp ‹_›)

theorem step_of_announce {c : Context} {k : Key} (h : m.stepFrame? p i below (.announce c k) = some m') :
    Step p m i (.announce c k) below m' := by
  simp only [stepFrame?] at h
  split at h
  · cases h
  · rename_i e he
    have step : Step p m i (.announce c k) below _ := .announces he
    cases held : e.held <;> simp only [Entry.announce, held] at h step <;> cases h <;> exact step

theorem step_of_latch {k : Key} (h : m.stepFrame? p i below (.latch k) = some m') :
    Step p m i (.latch k) below m' := by
  simp only [stepFrame?] at h
  split at h
  · cases h
  · rename_i e he
    cases cancel : e.cancel m.now (p.clock m.now) with
    | mk e' latch =>
      have step : Step p m i (.latch k) below _ := .latches he cancel
      rw [cancel] at h
      cases latch <;> cases h <;> exact step

theorem step_of_finish {k : Key} {o : Outcome} (h : m.stepFrame? p i below (.finish k o) = some m') :
    Step p m i (.finish k o) below m' := by
  simp only [stepFrame?] at h
  split at h
  · cases h
  · rename_i e he
    cases complete : e.complete (e.recordOf m.now (p.clock m.now) o) with
    | mk e' latch =>
      have step : Step p m i (.finish k o) below _ := .finishes he complete
      rw [complete] at h
      cases latch <;> cases h <;> exact step

theorem step_of_sweeping {todo : List Key} {evicted : Nat}
    (h : m.stepFrame? p i below (.sweeping todo evicted) = some m') :
    Step p m i (.sweeping todo evicted) below m' := by
  cases todo with
  | nil => cases h; exact .swept
  | cons k todo =>
    simp only [stepFrame?] at h
    split at h <;> cases h
    · exact .evicts ‹_›
    · exact .spares (Bool.eq_false_iff.mpr ‹_›)

theorem step_of_silencing {timeout : Duration} {ids : List String}
    (h : m.stepFrame? p i below (.silencing timeout ids) = some m') :
    Step p m i (.silencing timeout ids) below m' := by
  cases ids with
  | cons id ids => cases h; exact .silences
  | nil =>
    simp only [stepFrame?] at h
    split at h <;> cases h
    · exact .overruns ‹_›
    · exact .polls ‹_›

theorem step_of_answer {a : Answer} (h : m.stepFrame? p i below (.answer a) = some m') :
    Step p m i (.answer a) below m' := by
  simp only [stepFrame?] at h
  split at h
  · split at h <;> cases h
    exact .told
  · cases h; exact .silenced
  · split at h
    · cases h; exact .drained
    · rename_i ids hids
      cases ids with
      | nil => exact absurd rfl hids
      | cons id ids =>
        split at h <;> cases h
        · exact .late ‹_›
        · exact .rests (Nat.not_le.mp ‹_›)
    · cases h
  · cases h

theorem step_of_stepFrame? (h : m.stepFrame? p i below f = some m') : Step p m i f below m' := by
  cases f with
  | start => exact step_of_start h
  | enroll => exact step_of_enroll h
  | counting => exact step_of_counting h
  | announce => exact step_of_announce h
  | spawn => cases h; exact .spawns
  | cancel =>
    obtain ⟨free, ⟨unknown, rfl⟩ | ⟨k, find, rfl⟩⟩ := lookup_inv (g := .latch) h
    · exact .cancelsNone free unknown
    · exact .cancels free find
  | latch => exact step_of_latch h
  | status =>
    obtain ⟨free, ⟨unknown, rfl⟩ | ⟨k, find, rfl⟩⟩ := lookup_inv (g := .snapshot) h
    · exact .asksNone free unknown
    · exact .asks free find
  | snapshot =>
    simp only [stepFrame?] at h
    split at h <;> cases h
    exact .shows ‹_›
  | wait id =>
    obtain ⟨free, ⟨unknown, rfl⟩ | ⟨k, find, rfl⟩⟩ := lookup_inv (g := .check id) h
    · exact .waitsNone free unknown
    · exact .waits free find
  | check =>
    simp only [stepFrame?] at h
    split at h
    · cases h
    · split at h <;> cases h
      · exact .ended ‹_› ‹_›
      · exact .sleeps ‹_› (Bool.eq_false_iff.mpr ‹_›)
  | doze =>
    simp only [stepFrame?] at h
    split at h <;> cases h
    exact .wakes (Nat.not_lt.mp ‹_›)
  | listRunning =>
    simp only [stepFrame?] at h
    split at h <;> cases h
    exact .scans ((Bool.not_eq_false _).mp ‹_›)
  | scanning todo =>
    cases todo with
    | cons => rw [stepFrame?_look] at h; cases h; exact .looks
    | nil => cases h; exact .lists
  | prune =>
    simp only [stepFrame?] at h
    split at h <;> cases h
    exact .sweeps ((Bool.not_eq_false _).mp ‹_›)
  | sweeping => exact step_of_sweeping h
  | shutdown => cases h; exact .shuts
  | silencing => exact step_of_silencing h
  | drain => cases h; exact .drains
  | rest =>
    simp only [stepFrame?] at h
    split at h <;> cases h
    exact .resumes (Nat.not_lt.mp ‹_›)
  | run => cases h; exact .runs
  | finish => exact step_of_finish h
  | notify =>
    simp only [stepFrame?] at h
    split at h <;> cases h
    · exact .skips ‹_›
    · exact .notifies ‹_›
  | answer => exact step_of_answer h
  | silence | drained | executing | hook => cases h

theorem next_of_next? (h : m.next? p l = some m') : Next p m l m' := by
  cases l with
  | step i =>
    simp only [next?] at h
    split at h
    · exact .step ‹_› (step_of_stepFrame? h)
    · cases h
  | call i f =>
    simp only [next?] at h
    split at h
    · cases h
    have isCall : f.isCall = true := (Bool.not_eq_false _).mp ‹_›
    split at h
    · cases h; exact .call isCall ‹_› trivial
    · split at h <;> cases h
      exact .call isCall ‹_› ‹_›
    · cases h
  | take i =>
    simp only [next?] at h
    split at h
    · cases h; exact .take ‹_› trivial
    · split at h <;> cases h
      exact .take ‹_› ‹_›
    · cases h
  | hookReturns i => simp only [next?] at h; split at h <;> cases h; exact .hookReturns ‹_›
  | hookPanics i => simp only [next?] at h; split at h <;> cases h; exact .hookPanics ‹_›
  | executorReturns i => simp only [next?] at h; split at h <;> cases h; exact .executorReturns ‹_›
  | giveUp i => simp only [next?] at h; split at h <;> cases h; exact .giveUp ‹_›
  | newThread => cases h; exact .newThread
  | tick => simp only [next?] at h; split at h <;> cases h; exact .tick ‹_›
  | newToken => cases h; exact .newToken
  | derive => simp only [next?] at h; split at h <;> cases h; exact .derive ‹_›
  | raise => cases h; exact .raise
  | setHook => cases h; exact .setHook

/-! ## The relation goes by the function -/

theorem stepFrame?_of_step (h : Step p m i f below m') : m.stepFrame? p i below f = some m' := by
  cases h with
  | invalid fails => simp only [stepFrame?, fails]
  | overflows valid child | begins valid child => simp only [stepFrame?, valid, child]
  | tracked free known => simp [stepFrame?, free, known]
  | enrolls free unknown unlimited => simp [stepFrame?, free, unknown, unlimited]
  | claims free unknown limited => simp [stepFrame?, free, unknown, limited]
  | full full => simp [stepFrame?, full]
  | admits room => simp [stepFrame?, Nat.not_le.mpr room]
  | @announces _ _ e _ he =>
    cases held : e.held <;> simp [stepFrame?, he, Entry.announce, held]
  | cancelsNone free find | cancels free find | asksNone free find | asks free find | waitsNone free find
  | waits free find => simp [stepFrame?, free, find]
  | @latches _ _ _ latch _ he cancel =>
    cases latch <;> simp [stepFrame?, he, cancel, Latch.notice]
  | shows he => simp [stepFrame?, he]
  | ended he status | sleeps he status => simp [stepFrame?, he, status]
  | wakes due | resumes due => simp [stepFrame?, due]
  | scans free | sweeps free => simp [stepFrame?, free]
  | looks => exact stepFrame?_look ..
  | evicts status | spares status => simp [stepFrame?, status]
  | overruns deadline | polls deadline => simp only [stepFrame?, deadline]
  | late late => simp [stepFrame?, late]
  | rests early => simp [stepFrame?, Nat.not_le.mpr early]
  | @finishes _ _ _ _ latch _ he complete =>
    cases latch <;> simp [stepFrame?, he, complete, Latch.notice]
  | skips hook | notifies hook => simp only [stepFrame?, hook]
  | counts | spawns | lists | swept | shuts | told | silences | silenced | drains | drained | runs => rfl

theorem next?_of_next (h : Next p m l m') : m.next? p l = some m' := by
  cases h with
  | step ht step => simp only [next?, ht, stepFrame?_of_step step]
  | @call _ _ t isCall ht hands =>
    cases t with
    | nil => simp [next?, isCall, ht]
    | cons f t => simp only [Thread.HandsOver] at hands; simp [next?, isCall, ht, hands]
  | @take _ _ below ht hands =>
    cases below with
    | nil => simp only [next?, ht]
    | cons f below => simp only [Thread.HandsOver] at hands; simp only [next?, ht, hands, if_true]
  | hookReturns ht | hookPanics ht | executorReturns ht | giveUp ht => simp only [next?, ht]
  | tick later => simp only [next?, later, if_true]
  | derive child => simp only [next?, child]
  | newThread | newToken | raise | setHook => rfl

theorem next?_step (p : Policy) (ht : m.threads[i]? = some (f :: below)) :
    m.next? p (.step i) = m.stepFrame? p i below f := by
  simp only [next?, ht]

theorem next?_of_step (ht : m.threads[i]? = some (f :: below)) (h : Step p m i f below m') :
    m.next? p (.step i) = some m' := next?_of_next (.step ht h)

theorem step_of_next? (ht : m.threads[i]? = some (f :: below)) (h : m.next? p (.step i) = some m') :
    Step p m i f below m' :=
  step_of_stepFrame? ((next?_step p ht).symm.trans h)

/-- A label does what the relation says, and all that it says is possible. -/
theorem next?_eq_some_iff : m.next? p l = some m' ↔ Next p m l m' := ⟨next_of_next?, next?_of_next⟩

end Machine

end Overseer.Supervisor

import Overseer.Proofs.Supervisor.Steps

/-!
# The moves of the supervisor

`Machine.next?` has a rule for each point of each call. For what happens to entries and notifications
most of these rules are alike: a thread goes on within calls that are in charge of no entry. `Move` sorts
the rules by what they do to entries, to frames in charge of an entry, and to the log of events.

* `Thread.Settled`: what the frames of a stack hold and what each may sit upon.
* `Event`, `Machine.observe`: what can be observed of a step.
* `move_of_next?`: every step that is possible is a move, with the events observed.
-/
namespace Overseer.Supervisor

/-! ## Frames and stacks -/

/-- Registered a moment ago: running, not announced, nothing held back. -/
def Entry.Fresh (e : Entry) : Prop :=
  e.record = Record.running e.id ∧ e.announced = false ∧ e.held = none

theorem Entry.new_fresh (id : String) (scope : Scope) (now : Instant) :
    (Entry.new id scope now).Fresh := ⟨rfl, rfl, rfl⟩

/-- The entry whose start, run or notification a frame is part of. -/
def Frame.charge? : Frame → Option Key
  | .announce _ k | .spawn _ k | .run _ k | .executing _ k | .finish k _ | .notify k _
  | .hook _ k _ => some k
  | _ => none

/-- What a frame holds, and what it may sit upon: a call that can panic was made by the surroundings, the
entry that a start has made goes by the id of its context, and the first notification of an entry is made
by the start that goes on to announce it. -/
def Frame.Fits (below : Thread) : Frame → Prop
  | .start _ _ | .shutdown _ | .silence _ | .silencing _ _ => Thread.HandsOver below
  | .enroll c e | .counting c e _ _ => e.Fresh ∧ e.id = c.id
  | .notify k .running | .hook _ k .running => ∃ c rest, below = .announce c k :: rest
  | _ => True

/-- Every frame of a stack fits upon those below it. -/
def Thread.Settled : Thread → Prop
  | [] => True
  | f :: below => f.Fits below ∧ Thread.Settled below

theorem Thread.Settled.tail {pre below : Thread} (h : Thread.Settled (pre ++ below)) :
    Thread.Settled below := by
  induction pre with
  | nil => exact h
  | cons f pre ih => exact ih h.2

theorem Frame.fits_of_isCall {f : Frame} {below : Thread} (h : f.isCall = true)
    (hb : Thread.HandsOver below) : f.Fits below := by
  cases f <;> trivial

theorem Frame.charge?_of_isCall {f : Frame} (h : f.isCall = true) : f.charge? = none := by
  cases f <;> first | rfl | cases h

namespace Machine

theorem unwound_of_handsOver {t : Thread} (h : Thread.HandsOver t) : unwound t = t := by
  cases t with
  | nil => rfl
  | cons f rest => simp only [Thread.HandsOver] at h; simp [unwound, h]

theorem unwound_suffix (t : Thread) : ∃ pre, t = pre ++ unwound t := by
  induction t with
  | nil => exact ⟨[], rfl⟩
  | cons f rest ih =>
    obtain ⟨pre, h⟩ := ih
    unfold unwound
    split
    · exact ⟨[], rfl⟩
    · exact ⟨f :: pre, by rw [List.cons_append, ← h]⟩

end Machine

/-! ## Events -/

/-- What can be observed of a step. -/
inductive Event where
  /-- The result of an attempt to latch a status. -/
  | latched (key : Key) (latch : Latch)
  /-- A record has been read. -/
  | shown (key : Key) (record : Record)
  /-- A notification begins. -/
  | notified (key : Key) (status : Status)
  /-- A notification has come back. -/
  | noted (key : Key) (status : Status)
  /-- A notification has ended in a panic. -/
  | broken (key : Key) (status : Status)
  /-- The executor begins with a run. -/
  | executed (key : Key)
  deriving Repr

namespace Machine

/-- The events of the next step of a thread whose innermost frame is this. -/
def observeFrame (p : Policy) (m : Machine) : Frame → List Event
  | .latch key =>
    match m.entry? key with
    | some e => [.latched key (e.cancel m.now (p.clock m.now)).2]
    | none => []
  | .finish key outcome =>
    match m.entry? key with
    | some e => [.latched key (e.complete (e.recordOf m.now (p.clock m.now) outcome)).2]
    | none => []
  | .snapshot key | .check _ key =>
    match m.entry? key with
    | some e => [.shown key e.record]
    | none => []
  | .run _ key => [.executed key]
  | .notify key status =>
    match m.hook with
    | some _ => [.notified key status]
    | none => [.notified key status, .noted key status]
  | _ => []

/-- The events of a label that is possible. -/
def observe (p : Policy) (m : Machine) : Label → List Event
  | .step i =>
    match m.threads[i]? with
    | some (f :: _) => m.observeFrame p f
    | _ => []
  | .hookReturns i =>
    match m.threads[i]? with
    | some (.hook _ key status :: _) => [.noted key status]
    | _ => []
  | .hookPanics i _ =>
    match m.threads[i]? with
    | some (.hook _ key status :: _) => [.broken key status]
    | _ => []
  | _ => []

end Machine

/-! ## Moves -/

/-- What a step does to the entries and to the frames in charge of them, and the events it leaves. -/
inductive Move (m : Machine) : List Event → Machine → Prop where
  /-- The clock, the tokens or the hook change. -/
  | outside (now : Instant) (signals : Signals) (hook : Option Nat) :
      Move m [] { m with now, signals, hook }
  | newThread : Move m [] { m with threads := m.threads ++ [[]] }
  /-- A thread goes on within calls that are in charge of no entry; it may read records and evict
  entries. What is new on top of others is a call of the surroundings. -/
  | pass (pre post : Thread) {i : Nat} {below : Thread} {signals : Signals} {tracked : List (String × Key)}
      {es : List Event} (ht : m.threads[i]? = some (pre ++ below))
      (hpre : ∀ f ∈ pre, f.charge? = none) (hpost : ∀ f ∈ post, f.charge? = none)
      (hs : Thread.Settled (pre ++ below) → Thread.Settled (post ++ below)) (htr : tracked ⊆ m.tracked)
      (hes : ∀ ev ∈ es, ∃ k e, m.entry? k = some e ∧ ev = .shown k e.record)
      (hcall : pre = [] → Thread.HandsOver below) :
      Move m es ({ m with signals, tracked }.setThread i (post ++ below))
  /-- A call of the surroundings panics. -/
  | panic {i : Nat} {f : Frame} {below : Thread} {message : String}
      (ht : m.threads[i]? = some (f :: below)) (hf : f.charge? = none)
      (hs : Thread.Settled (f :: below) → Thread.HandsOver below) :
      Move m [] (m.setThread i (Machine.panicked message below))
  | register {i : Nat} {f : Frame} {below : Thread} {context : Context} {entry : Entry}
      (ht : m.threads[i]? = some (f :: below)) (hf : f.charge? = none)
      (he : Thread.Settled (f :: below) → entry.Fresh ∧ entry.id = context.id) :
      Move m [] (m.register i context entry below)
  | announce {i : Nat} {context : Context} {key : Key} {below : Thread} {e : Entry}
      (ht : m.threads[i]? = some (.announce context key :: below)) (he : m.entry? key = some e) :
      Move m [] ((m.setEntry key e.announce.1).setThread i
        (e.held.toList.map (.notify key) ++ .spawn context key :: below))
  | spawn {i : Nat} {context : Context} {key : Key} {below : Thread}
      (ht : m.threads[i]? = some (.spawn context key :: below)) :
      Move m [] { m with threads := (m.threads.set i (.answer .done :: below)) ++ [[.run context key]] }
  | cancel (signals : Signals) {i : Nat} {key : Key} {below : Thread} {e e' : Entry} {latch : Latch}
      {now : Instant} {time : Timestamp} (ht : m.threads[i]? = some (.latch key :: below))
      (he : m.entry? key = some e) (hl : e.cancel now time = (e', latch)) :
      Move m [.latched key latch] (({ m with signals }.setEntry key e').setThread i
        (latch.notice key .cancelled ++ Frame.answer .done :: below))
  | execute {i : Nat} {context : Context} {key : Key} {below : Thread}
      (ht : m.threads[i]? = some (.run context key :: below)) :
      Move m [.executed key] (m.setThread i (.executing context key :: below))
  | outcome {i : Nat} {context : Context} {key : Key} {below : Thread} {outcome : Outcome}
      (ht : m.threads[i]? = some (.executing context key :: below)) :
      Move m [] (m.setThread i (.finish key outcome :: below))
  | complete {i : Nat} {key : Key} {below : Thread} {e e' : Entry} {latch : Latch} {now : Instant}
      {time : Timestamp} {outcome : Outcome} (ht : m.threads[i]? = some (.finish key outcome :: below))
      (he : m.entry? key = some e) (hl : e.complete (e.recordOf now time outcome) = (e', latch)) :
      Move m [.latched key latch] ((m.setEntry key e').setThread i
        (latch.notice key (e.recordOf now time outcome).status ++ below))
  | skip {i : Nat} {key : Key} {status : Status} {below : Thread}
      (ht : m.threads[i]? = some (.notify key status :: below)) :
      Move m [.notified key status, .noted key status] (m.setThread i below)
  | notify {i hook : Nat} {key : Key} {status : Status} {below : Thread}
      (ht : m.threads[i]? = some (.notify key status :: below)) :
      Move m [.notified key status] (m.setThread i (.hook hook key status :: below))
  | noted {i hook : Nat} {key : Key} {status : Status} {below : Thread}
      (ht : m.threads[i]? = some (.hook hook key status :: below)) :
      Move m [.noted key status] (m.setThread i below)
  | broken {i hook : Nat} {key : Key} {status : Status} {below : Thread} {message : String}
      (ht : m.threads[i]? = some (.hook hook key status :: below)) :
      Move m [.broken key status] (m.setThread i (Machine.panicked message below))

namespace Move

variable {m : Machine} {i : Nat} {f g : Frame} {below : Thread}

/-- The innermost frame is replaced by one frame. -/
theorem replace (g : Frame) {signals : Signals} (ht : m.threads[i]? = some (f :: below))
    (hf : f.charge? = none) (hg : g.charge? = none) (hs : f.Fits below → g.Fits below) :
    Move m [] ({ m with signals }.setThread i (g :: below)) :=
  .pass [f] [g] ht (by simpa using hf) (by simpa using hg) (fun h => ⟨hs h.1, h.2⟩)
    (List.Subset.refl _) (by simp) (by simp)

/-- The innermost frame calls another. -/
theorem push (f' g : Frame) (ht : m.threads[i]? = some (f :: below)) (hf : f.charge? = none)
    (hg : g.charge? = none) (hf' : f'.charge? = none)
    (hs : f.Fits below → g.Fits (f' :: below) ∧ f'.Fits below) :
    Move m [] (m.setThread i (g :: f' :: below)) :=
  .pass [f] [g, f'] ht (by simpa using hf) (by simp [hg, hf'])
    (fun h => ⟨(hs h.1).1, (hs h.1).2, h.2⟩) (List.Subset.refl _) (by simp) (by simp)

/-- The answer of a call goes to the frame that made it, which goes on as another. -/
theorem pop (g' : Frame) (ht : m.threads[i]? = some (f :: g :: below)) (hf : f.charge? = none)
    (hg : g.charge? = none) (hg' : g'.charge? = none) (hs : g.Fits below → g'.Fits below) :
    Move m [] (m.setThread i (g' :: below)) :=
  .pass [f, g] [g'] ht (by simp [hf, hg]) (by simpa using hg')
    (fun h => ⟨hs h.2.1, h.2.2⟩) (List.Subset.refl _) (by simp) (by simp)

/-- The innermost frame reads a record, and is replaced by one frame. -/
theorem read {k : Key} {e : Entry} (g : Frame) (ht : m.threads[i]? = some (f :: below))
    (hf : f.charge? = none) (he : m.entry? k = some e) (hg : g.charge? = none) (hs : g.Fits below) :
    Move m [.shown k e.record] (m.setThread i (g :: below)) :=
  .pass [f] [g] ht (by simpa using hf) (by simpa using hg)
    (fun h => ⟨hs, h.2⟩) (List.Subset.refl _) (fun ev hev => ⟨k, e, he, by simpa using hev⟩)
    (by simp)

end Move

/-! ## Every step is a move -/

section

variable {p : Policy} {m m' : Machine} {i : Nat} {f : Frame} {below : Thread}

theorem Step.move (h : Step p m i f below m') (ht : m.threads[i]? = some (f :: below)) :
    Move m (m.observeFrame p f) m' := by
  cases h with
  | invalid | tracked | full | cancelsNone | cancels | asksNone | asks | waitsNone | waits | wakes | scans | looks
  | lists | sweeps | spares | swept | polls | resumes => exact .replace _ ht rfl rfl fun _ => trivial
  | overflows | overruns => exact .panic ht rfl fun h => h.1
  | begins => exact .replace _ ht rfl rfl fun _ => ⟨Entry.new_fresh .., rfl⟩
  | claims | counts => exact .replace _ ht rfl rfl id
  | enrolls | admits => exact .register ht rfl fun h => h.1
  | announces he => exact .announce ht he
  | spawns => exact .spawn ht
  | latches he cancel =>
    rw [Machine.observeFrame, he]
    dsimp only
    rw [cancel]
    exact .cancel _ ht he cancel
  | shows he | ended he | sleeps he =>
    rw [Machine.observeFrame, he]
    exact .read _ ht rfl he rfl trivial
  | evicts =>
    exact .pass [_] [_] ht (by simp [Frame.charge?]) (by simp [Frame.charge?]) (fun h => h)
      List.filter_sublist.subset (by simp [Machine.observeFrame]) (by simp)
  | shuts | silences => exact .push _ _ ht rfl rfl rfl fun h => ⟨trivial, h⟩
  | drains => exact .push _ _ ht rfl rfl rfl fun _ => ⟨trivial, trivial⟩
  | told | silenced => exact .pop _ ht rfl rfl rfl id
  | drained | late | rests => exact .pop _ ht rfl rfl rfl fun _ => trivial
  | runs => exact .execute ht
  | finishes he complete =>
    rw [Machine.observeFrame, he]
    dsimp only
    rw [complete]
    exact .complete ht he complete
  | skips hook => rw [Machine.observeFrame, hook]; exact .skip ht
  | notifies hook => rw [Machine.observeFrame, hook]; exact .notify ht

/-- Every step that is possible is a move, with the events observed. -/
theorem Machine.move_of_next? {l : Label} (h : m.next? p l = some m') : Move m (m.observe p l) m' := by
  cases next?_eq_some_iff.mp h with
  | step ht step => rw [observe, ht]; exact step.move ht
  | @call _ f t isCall ht hands =>
    exact .pass [] [f] ht (by simp) (by simpa using Frame.charge?_of_isCall isCall)
      (fun h => ⟨Frame.fits_of_isCall isCall hands, h⟩) (List.Subset.refl _) (by simp [observe]) fun _ => hands
  | take ht | giveUp ht =>
    exact .pass [_] [] ht (by simp [Frame.charge?]) (by simp) (fun h => h.2) (List.Subset.refl _)
      (by simp [observe]) (by simp)
  | hookReturns ht => rw [observe, ht]; exact .noted ht
  | hookPanics ht => rw [observe, ht]; exact .broken ht
  | executorReturns ht => exact .outcome ht
  | newThread => exact .newThread
  | tick | newToken | derive | raise | setHook => exact .outside ..

end

end Overseer.Supervisor

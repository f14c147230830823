import Overseer.Proofs.Supervisor.Latch

/-!
# The turns of the supervisor

The map from ids to entries is shared by readers or held by one writer. A start holds it while it counts,
a prune while it sweeps, and scans share it. `Turn` sorts the steps of the machine by what they do with
the map, as `Move` sorts them by what they do to the entries; everything about admission, scans and
eviction is proved from it.

* `Thread.Goes`: what a step makes of the stack of its thread.
* `turn_of_next?`: every step that is possible is a turn.
* `Turn.thread_same`, `Turn.thread_goes`: it moves one thread at most.
-/
namespace Overseer.Supervisor

/-! ## Frames that handle the map -/

/-- The next step of the frame takes, uses or gives back the map. -/
def Frame.handles : Frame → Bool
  | .enroll _ _ | .counting _ _ _ _ | .listRunning | .scanning _ _ | .prune | .sweeping _ _ => true
  | _ => false

/-- The frame has the map, to itself or with others. -/
def Frame.holds (f : Frame) : Bool := f.writes || f.reads

/-- The frame does not hold the map and is no refusal for want of room. Only frames that handle the map
are followed by others. -/
def Frame.aside : Frame → Bool
  | .counting _ _ _ _ | .scanning _ _ | .sweeping _ _ | .answer (.refused (.capacityExceeded _ _)) => false
  | _ => true

/-- The frame is a shutdown at work. -/
def Frame.drains : Frame → Bool
  | .silence _ | .silencing _ _ | .drain _ _ | .drained _ _ | .rest _ _ _ => true
  | _ => false

/-- The frame is a shutdown, and makes its next step by itself. -/
def Frame.shuts : Frame → Bool
  | .shutdown _ | .silencing _ _ | .drain _ _ | .rest _ _ _ => true
  | _ => false

/-- The frame is aside, and is not a shutdown at work. -/
def Frame.plain (f : Frame) : Bool := f.aside && !f.drains

/-- The frame goes on with the answer of a call that it has made. -/
def Frame.awaits : Frame → Bool
  | .silence _ | .silencing _ _ | .drained _ _ => true
  | _ => false

theorem Frame.holds_of_aside {f : Frame} (h : f.aside = true) : f.holds = false := by
  cases f <;> first | rfl | cases h

theorem Frame.aside_of_isCall {f : Frame} (h : f.isCall = true) : f.aside = true := by
  cases f <;> first | rfl | cases h

theorem Frame.aside_of_drains {f : Frame} (h : f.drains = true) : f.aside = true := by
  cases f <;> first | rfl | cases h

theorem Frame.aside_of_plain {f : Frame} (h : f.plain = true) : f.aside = true :=
  (Bool.and_eq_true_iff.mp h).1

theorem Frame.drains_of_plain {f : Frame} (h : f.plain = true) : f.drains = false := by
  simpa using (Bool.and_eq_true_iff.mp h).2

theorem Frame.drains_of_isCall {f : Frame} (h : f.isCall = true) : f.drains = false := by
  cases f <;> first | rfl | cases h

theorem Frame.aside_of_isOpen {f : Frame} (h : f.isOpen = true) : f.aside = true := by
  cases f <;> first | rfl | cases h

theorem Frame.handles_of_isOpen {f : Frame} (h : f.isOpen = true) : f.handles = false := by
  cases f <;> first | rfl | cases h

/-! ## Stacks -/

/-- What a step makes of the stack of its thread. -/
inductive Thread.Goes : Thread → Thread → Prop where
  /-- The surroundings make a call. -/
  | call {f : Frame} {t : Thread} (hf : f.isCall = true) (ht : Thread.HandsOver t) : Goes t (f :: t)
  /-- The innermost frame goes on as some others, or is done. -/
  | step {f : Frame} {rest : Thread} (post : Thread) (hpost : ∀ g ∈ post, g.drains = false)
      (h : f.handles = false → ∀ g ∈ post, g.aside = true) : Goes (f :: rest) (post ++ rest)
  /-- A shutdown goes on, and may make a call. -/
  | shut {f : Frame} {rest : Thread} (calls : Thread) (g : Frame) (hf : f.shuts = true)
      (hg : g.drains = true) (hcalls : ∀ c ∈ calls, c.isCall = true) :
      Goes (f :: rest) (calls ++ g :: rest)
  /-- The innermost frame is the answer that the frame below it goes on with. -/
  | back {a : Answer} {g : Frame} {rest : Thread} (g' : Frame) (hg : g.awaits = true)
      (hg' : g'.aside = true) : Goes (.answer a :: g :: rest) (g' :: rest)
  | panic {f : Frame} {rest : Thread} (message : String) :
      Goes (f :: rest) (Machine.panicked message rest)

/-- The innermost frame does not handle the map. -/
def Thread.Aside (t : Thread) : Prop := ∀ f ∈ t.head?, f.handles = false

theorem Thread.Goes.mem_aside {t t' : Thread} (h : Goes t t') (ht : t.Aside) {f : Frame} (hf : f ∈ t') :
    f.aside = true ∨ f ∈ t.tail := by
  cases h with
  | call hg hb =>
    rcases List.mem_cons.mp hf with rfl | hf
    · exact Or.inl (Frame.aside_of_isCall hg)
    cases t with
    | nil => cases hf
    | cons g rest =>
      rcases List.mem_cons.mp hf with rfl | hf
      · exact Or.inl (Frame.aside_of_isOpen hb)
      · exact Or.inr hf
  | step post _ h =>
    rcases List.mem_append.mp hf with hf | hf
    · exact Or.inl (h (ht _ rfl) f hf)
    · exact Or.inr hf
  | shut calls g _ hg hcalls =>
    rcases List.mem_append.mp hf with hf | hf
    · exact Or.inl (Frame.aside_of_isCall (hcalls f hf))
    · rcases List.mem_cons.mp hf with rfl | hf
      · exact Or.inl (Frame.aside_of_drains hg)
      · exact Or.inr hf
  | back g' hg hg' =>
    rcases List.mem_cons.mp hf with rfl | hf
    · exact Or.inl hg'
    · exact Or.inr (List.mem_cons_of_mem _ hf)
  | @panic g rest message =>
    rcases List.mem_cons.mp hf with rfl | hf
    · exact Or.inl rfl
    · obtain ⟨pre, hpre⟩ := Machine.unwound_suffix rest
      refine Or.inr ?_
      rw [List.tail_cons, hpre]
      exact List.mem_append_right _ hf

/-- The frames of all threads. -/
def Machine.frames (m : Machine) : List Frame := m.threads.flatten

namespace Machine

variable {m m' : Machine} {i : Nat} {f : Frame}

theorem mem_frames {t : Thread} (ht : m.threads[i]? = some t) (hf : f ∈ t) : f ∈ m.frames :=
  List.mem_flatten.mpr ⟨t, List.mem_of_getElem? ht, hf⟩

theorem Initial.frames_isCall (h : m.Initial) (hf : f ∈ m.frames) : f.isCall = true := by
  obtain ⟨t, ht, hf⟩ := List.mem_flatten.mp hf
  rcases h.threads t ht with rfl | ⟨g, hg, rfl⟩
  · cases hf
  · rwa [List.mem_singleton.mp hf]

theorem mem_frames_set {t : Thread} (hthr : m'.threads = m.threads.set i t) (hf : f ∈ m'.frames) :
    f ∈ t ∨ ∃ j u, j ≠ i ∧ m.threads[j]? = some u ∧ f ∈ u := by
  obtain ⟨u, hu, hf⟩ := List.mem_flatten.mp hf
  obtain ⟨j, hj⟩ := List.getElem?_of_mem hu
  rw [hthr, List.getElem?_set] at hj
  split at hj
  · split at hj
    · cases hj; exact Or.inl hf
    · cases hj
  · exact Or.inr ⟨j, u, fun h => ‹i ≠ j› h.symm, hj, hf⟩

/-- A frame was there before, or is one of those that the thread goes on as. -/
theorem mem_frames_go {below : Thread} (pre post : Thread) (ht : m.threads[i]? = some (pre ++ below))
    (hthr : m'.threads = m.threads.set i (post ++ below)) (hf : f ∈ m'.frames) : f ∈ post ∨ f ∈ m.frames := by
  rcases mem_frames_set hthr hf with hf | ⟨j, u, -, hu, hf⟩
  · exact (List.mem_append.mp hf).imp_right fun hf => mem_frames ht (List.mem_append_right _ hf)
  · exact Or.inr (mem_frames hu hf)

theorem additive_flatten_set {α : Type} {q : List α → Nat} (hq : ∀ a b, q (a ++ b) = q a + q b) {l : List (List α)}
    {t : List α} (h : l[i]? = some t) (t' : List α) : q (l.set i t').flatten + q t = q l.flatten + q t' := by
  induction l generalizing i with
  | nil => cases h
  | cons u l ih =>
    cases i with
    | zero =>
      obtain rfl : u = t := by simpa using h
      simp only [List.set_cons_zero, List.flatten_cons, hq]
      omega
    | succ i =>
      have := ih (by simpa using h)
      simp only [List.set_cons_succ, List.flatten_cons, hq]
      omega

/-- What a thread that goes on makes of a number that adds up over the frames. -/
theorem additive_frames_set {q : List Frame → Nat} (hq : ∀ a b, q (a ++ b) = q a + q b) (pre post : Thread)
    {below : Thread} (ht : m.threads[i]? = some (pre ++ below))
    (hthr : m'.threads = m.threads.set i (post ++ below)) : q m'.frames + q pre = q m.frames + q post := by
  have h := additive_flatten_set hq ht (post ++ below)
  rw [← hthr, hq, hq] at h
  simp only [frames]
  omega

end Machine

/-! ## Turns -/

/-- The thread that a label is about. -/
def Label.thread? : Label → Option Nat
  | .step i | .call i _ | .take i | .hookReturns i | .hookPanics i _ | .executorReturns i _
  | .giveUp i => some i
  | _ => none

/-- The keys of the entries that can be found. -/
def Machine.keys (m : Machine) : List Key := m.tracked.map (·.2)

/-- What a step does with the map. -/
inductive Turn (p : Policy) (m : Machine) : Label → Machine → Prop where
  /-- No thread moves. -/
  | outside {l : Label} {m' : Machine} (hl : l.thread? = none) (tracked : m'.tracked = m.tracked)
      (entries : m'.entries.length = m.entries.length)
      (threads : m'.threads = m.threads ∨ m'.threads = m.threads ++ [[]]) : Turn p m l m'
  /-- A thread moves whose innermost frame does not handle the map; it may set off a run. -/
  | aside {l : Label} {m' : Machine} {i : Nat} {t t' : Thread} (hl : l.thread? = some i)
      (ht : m.threads[i]? = some t) (hf : t.Aside) (goes : Thread.Goes t t')
      (tracked : m'.tracked = m.tracked) (entries : m'.entries.length = m.entries.length)
      (threads : m'.threads = m.threads.set i t' ∨
        ∃ c k, m'.threads = m.threads.set i t' ++ [[.run c k]]) : Turn p m l m'
  /-- A start that does not have to count registers its entry. -/
  | enroll {i : Nat} {context : Context} {entry : Entry} {below : Thread}
      (ht : m.threads[i]? = some (.enroll context entry :: below)) (free : m.canWrite = true)
      (unknown : m.find? entry.id = none) (hp : p.maxRunning = 0) :
      Turn p m (.step i) (m.register i context entry below)
  /-- A start takes the map and finds its id in use. -/
  | known {i : Nat} {context : Context} {entry : Entry} {below : Thread}
      (ht : m.threads[i]? = some (.enroll context entry :: below))
      (known : (m.find? entry.id).isSome = true) :
      Turn p m (.step i) (m.setThread i (.answer (.refused (.alreadyTracked entry.id)) :: below))
  /-- A start takes the map to count. -/
  | claim {i : Nat} {context : Context} {entry : Entry} {below : Thread}
      (ht : m.threads[i]? = some (.enroll context entry :: below)) (free : m.canWrite = true)
      (unknown : m.find? entry.id = none) :
      Turn p m (.step i) (m.setThread i (.counting context entry (p.visit m.keys) 0 :: below))
  | count {i : Nat} {context : Context} {entry : Entry} {k : Key} {todo : List Key} {running : Nat}
      {below : Thread} (ht : m.threads[i]? = some (.counting context entry (k :: todo) running :: below)) :
      Turn p m (.step i) (m.setThread i
        (.counting context entry todo (if m.isRunning k then running + 1 else running) :: below))
  | refuse {i : Nat} {context : Context} {entry : Entry} {running : Nat} {below : Thread}
      (ht : m.threads[i]? = some (.counting context entry [] running :: below))
      (full : p.maxRunning ≤ running) :
      Turn p m (.step i)
        (m.setThread i (.answer (.refused (.capacityExceeded running p.maxRunning)) :: below))
  /-- A start that has counted registers its entry. -/
  | accept {i : Nat} {context : Context} {entry : Entry} {running : Nat} {below : Thread}
      (ht : m.threads[i]? = some (.counting context entry [] running :: below))
      (room : running < p.maxRunning) : Turn p m (.step i) (m.register i context entry below)
  /-- A scan takes the map. -/
  | scan {i : Nat} {below : Thread} (ht : m.threads[i]? = some (.listRunning :: below))
      (free : m.canRead = true) :
      Turn p m (.step i) (m.setThread i (.scanning (p.visit m.keys) [] :: below))
  | look {i : Nat} {k : Key} {todo : List Key} {found : List String} {below : Thread}
      (ht : m.threads[i]? = some (.scanning (k :: todo) found :: below)) :
      Turn p m (.step i) (m.setThread i (.scanning todo (found ++
        ((m.entry? k).toList.filter (·.status = .running)).map (·.id)) :: below))
  | found {i : Nat} {found : List String} {below : Thread}
      (ht : m.threads[i]? = some (.scanning [] found :: below)) :
      Turn p m (.step i) (m.setThread i (.answer (.ids found) :: below))
  /-- A prune takes the map. -/
  | sweep {i : Nat} {below : Thread} (ht : m.threads[i]? = some (.prune :: below))
      (free : m.canWrite = true) :
      Turn p m (.step i) (m.setThread i (.sweeping (p.visit m.keys) 0 :: below))
  | evict {i : Nat} {k : Key} {todo : List Key} {evicted : Nat} {below : Thread}
      (ht : m.threads[i]? = some (.sweeping (k :: todo) evicted :: below)) (hk : m.isFinished k = true) :
      Turn p m (.step i) ({ m with tracked := m.tracked.filter (·.2 ≠ k) }.setThread i
        (.sweeping todo (evicted + 1) :: below))
  | spare {i : Nat} {k : Key} {todo : List Key} {evicted : Nat} {below : Thread}
      (ht : m.threads[i]? = some (.sweeping (k :: todo) evicted :: below)) (hk : m.isFinished k = false) :
      Turn p m (.step i) (m.setThread i (.sweeping todo evicted :: below))
  | swept {i : Nat} {evicted : Nat} {below : Thread}
      (ht : m.threads[i]? = some (.sweeping [] evicted :: below)) :
      Turn p m (.step i) (m.setThread i (.answer (.count evicted) :: below))

section

variable {p : Policy} {m m' : Machine} {i : Nat} {f : Frame} {below : Thread}

/-- The innermost frame does not handle the map, and goes on as some others. -/
theorem Turn.go {l : Label} (post : Thread) (hl : l.thread? = some i)
    (ht : m.threads[i]? = some (f :: below)) (hf : f.handles = false) (hpost : ∀ g ∈ post, g.plain = true)
    (tracked : m'.tracked = m.tracked) (entries : m'.entries.length = m.entries.length)
    (threads : m'.threads = m.threads.set i (post ++ below)) : Turn p m l m' :=
  .aside hl ht (by simpa [Thread.Aside] using hf)
    (.step post (fun g hg => Frame.drains_of_plain (hpost g hg)) fun _ g hg => Frame.aside_of_plain (hpost g hg))
    tracked entries (Or.inl threads)

theorem Turn.unwind {l : Label} {message : String} (hl : l.thread? = some i)
    (ht : m.threads[i]? = some (f :: below)) (hf : f.handles = false) :
    Turn p m l (m.setThread i (Machine.panicked message below)) :=
  .aside hl ht (by simpa [Thread.Aside] using hf) (.panic message) rfl rfl (Or.inl rfl)

/-- The innermost frame goes on as one that does not hold the map. -/
theorem Turn.one (g : Frame) (ht : m.threads[i]? = some (f :: below)) (hf : f.handles = false)
    (hg : g.plain = true) : Turn p m (.step i) (m.setThread i (g :: below)) :=
  .go [g] rfl ht hf (by simpa using hg) rfl rfl rfl

/-- A shutdown goes on, and may make a call. -/
theorem Turn.shut (calls : Thread) (g : Frame) (ht : m.threads[i]? = some (f :: below)) (hf : f.shuts = true)
    (hg : g.drains = true) (hcalls : ∀ c ∈ calls, c.isCall = true) :
    Turn p m (.step i) (m.setThread i (calls ++ g :: below)) := by
  have hside : f.handles = false := by cases f <;> first | rfl | cases hf
  exact .aside rfl ht (by simpa [Thread.Aside] using hside) (.shut calls g hf hg hcalls) rfl rfl (Or.inl rfl)

/-- The answer of a call goes to the frame that made it, which goes on as another. -/
theorem Turn.back {a : Answer} {g : Frame} (g' : Frame) (ht : m.threads[i]? = some (.answer a :: g :: below))
    (hg : g.awaits = true) (hg' : g'.aside = true) : Turn p m (.step i) (m.setThread i (g' :: below)) :=
  .aside rfl ht (by simp [Thread.Aside, Frame.handles]) (.back g' hg hg') rfl rfl (Or.inl rfl)

theorem Latch.plain_of_mem {latch : Latch} {k : Key} {s : Status} (h : f ∈ latch.notice k s) : f.plain = true := by
  rw [(mem_notice.mp h).2]; rfl

theorem Step.turn (h : Step p m i f below m') (ht : m.threads[i]? = some (f :: below)) :
    Turn p m (.step i) m' := by
  cases h with
  | invalid | cancelsNone | cancels | asksNone | asks | shows | waitsNone | waits | ended | sleeps | wakes | runs
  | notifies => exact .one _ ht rfl rfl
  | overflows | overruns => exact .unwind rfl ht rfl
  | begins => exact .go [_] rfl ht rfl (by simp [Frame.plain, Frame.aside, Frame.drains]) rfl rfl rfl
  | tracked _ known => exact .known ht known
  | enrolls free unknown unlimited => exact .enroll ht free unknown unlimited
  | claims free unknown => exact .claim ht free unknown
  | counts => exact .count ht
  | full full => exact .refuse ht full
  | admits room => exact .accept ht room
  | @announces c k e =>
    exact .go (e.held.toList.map (.notify k) ++ [.spawn c k]) rfl ht rfl
      (by simp [Frame.plain, Frame.aside, Frame.drains, or_imp, forall_and]) rfl (Machine.length_setEntry ..)
      (by simp [Machine.setThread, Machine.setEntry])
  | @spawns c k =>
    exact .aside rfl ht (by simp [Thread.Aside, Frame.handles])
      (.step [.answer .done] (by simp [Frame.drains]) fun _ => by simp [Frame.aside]) rfl rfl
      (Or.inr ⟨c, k, rfl⟩)
  | @latches k _ _ latch =>
    exact .go (latch.notice k .cancelled ++ [.answer .done]) rfl ht rfl
      (fun g hg => (List.mem_append.mp hg).elim Latch.plain_of_mem fun hg => by rw [List.mem_singleton.mp hg]; rfl)
      rfl (Machine.length_setEntry ..) (by simp [Machine.setThread, Machine.setEntry])
  | scans free => exact .scan ht free
  | looks => exact .look ht
  | lists => exact .found ht
  | sweeps free => exact .sweep ht free
  | evicts finished => exact .evict ht finished
  | spares live => exact .spare ht live
  | swept => exact .swept ht
  | shuts | drains => exact .shut [.listRunning] _ ht rfl rfl (by simp [Frame.isCall])
  | silences => exact .shut [.cancel _] _ ht rfl rfl (by simp [Frame.isCall])
  | polls | resumes => exact .shut [] _ ht rfl rfl (by simp)
  | told | silenced | drained | late | rests => exact .back _ ht rfl rfl
  | @finishes k _ _ _ latch =>
    exact .go (latch.notice k _) rfl ht rfl (fun _ hg => Latch.plain_of_mem hg) rfl
      (Machine.length_setEntry ..) rfl
  | skips => exact .go [] rfl ht rfl (by simp) rfl rfl rfl

/-- Every step that is possible is a turn. -/
theorem Machine.turn_of_next? {l : Label} (h : m.next? p l = some m') : Turn p m l m' := by
  cases next?_eq_some_iff.mp h with
  | step ht step => exact step.turn ht
  | @call i f t isCall ht hands =>
    have side : t.Aside := by
      cases t with
      | nil => simp [Thread.Aside]
      | cons g t => simpa [Thread.Aside] using Frame.handles_of_isOpen hands
    exact .aside rfl ht side (.call isCall hands) rfl rfl (Or.inl rfl)
  | take ht | hookReturns ht | giveUp ht => exact .go [] rfl ht rfl (by simp) rfl rfl rfl
  | hookPanics ht => exact .unwind rfl ht rfl
  | executorReturns ht =>
    exact .go [_] rfl ht rfl (by simp [Frame.plain, Frame.aside, Frame.drains]) rfl rfl rfl
  | newThread => exact .outside rfl rfl rfl (Or.inr rfl)
  | tick | newToken | derive | raise | setHook => exact .outside rfl rfl rfl (Or.inl rfl)

/-! ## Threads over a turn -/

/-- A thread has the stack it was given, also where it has set off a run. -/
theorem Machine.getElem?_given {t t' : Thread} (ht : m.threads[i]? = some t)
    (threads : m'.threads = m.threads.set i t' ∨ ∃ c k, m'.threads = m.threads.set i t' ++ [[.run c k]]) :
    m'.threads[i]? = some t' := by
  have hi : i < m.threads.length := (List.getElem?_eq_some_iff.mp ht).1
  rcases threads with heq | ⟨c, k, heq⟩
  · rw [heq, List.getElem?_set_self hi]
  · rw [heq, List.getElem?_append_left (by simpa using hi), List.getElem?_set_self hi]

namespace Turn

variable {l : Label} {t : Thread}

/-- The stacks after a turn: one thread goes on, and maybe sets off a run, or no thread moves. -/
theorem threads_eq (h : Turn p m l m') :
    (l.thread? = none ∧ (m'.threads = m.threads ∨ m'.threads = m.threads ++ [[]])) ∨
      ∃ i t t', l.thread? = some i ∧ m.threads[i]? = some t ∧ Thread.Goes t t' ∧
        (m'.threads = m.threads.set i t' ∨ ∃ c k, m'.threads = m.threads.set i t' ++ [[.run c k]]) := by
  have go {i : Nat} {f : Frame} {below : Thread} (post : Thread) (ht : m.threads[i]? = some (f :: below))
      (hf : f.handles = true) (hpost : ∀ g ∈ post, g.drains = false) (hl : l = .step i)
      (hthr : m'.threads = m.threads.set i (post ++ below)) :
      ∃ i t t', l.thread? = some i ∧ m.threads[i]? = some t ∧ Thread.Goes t t' ∧
        (m'.threads = m.threads.set i t' ∨ ∃ c k, m'.threads = m.threads.set i t' ++ [[.run c k]]) :=
    ⟨i, _, _, by rw [hl]; rfl, ht, .step post hpost (by simp [hf]), Or.inl hthr⟩
  cases h with
  | outside hl _ _ threads => exact Or.inl ⟨hl, threads⟩
  | aside hl ht _ goes _ _ threads => exact Or.inr ⟨_, _, _, hl, ht, goes, threads⟩
  | enroll ht | accept ht => exact Or.inr (go [_, _] ht rfl (by simp [Frame.drains]) rfl rfl)
  | known ht | claim ht | count ht | refuse ht | scan ht | look ht | found ht | sweep ht | evict ht
  | spare ht | swept ht => exact Or.inr (go [_] ht rfl (by simp [Frame.drains]) rfl rfl)

theorem thread_same (h : Turn p m l m') (hl : l.thread? ≠ some i) (ht : m.threads[i]? = some t) :
    m'.threads[i]? = some t := by
  have hi : i < m.threads.length := (List.getElem?_eq_some_iff.mp ht).1
  rcases h.threads_eq with ⟨-, heq | heq⟩ | ⟨j, u, u', hj, -, -, heq⟩
  · rw [heq, ht]
  · rw [heq, List.getElem?_append_left hi, ht]
  · have hne : j ≠ i := by rintro rfl; exact hl hj
    have hset : (m.threads.set j u')[i]? = some t := by rw [List.getElem?_set_ne hne, ht]
    rcases heq with heq | ⟨c, k, heq⟩
    · rw [heq, hset]
    · rw [heq, List.getElem?_append_left (by simpa using hi), hset]

theorem thread_goes (h : Turn p m l m') (hl : l.thread? = some i) :
    ∃ t t', m.threads[i]? = some t ∧ m'.threads[i]? = some t' ∧ Thread.Goes t t' := by
  rcases h.threads_eq with ⟨hn, -⟩ | ⟨j, t, t', hj, ht, goes, heq⟩
  · rw [hl] at hn; cases hn
  obtain rfl : j = i := Option.some.inj (hj.symm.trans hl)
  exact ⟨t, t', ht, Machine.getElem?_given ht heq, goes⟩

/-- A thread that was not there before is new, and has nothing to do but a run. -/
theorem thread_new (h : Turn p m l m') (ht : m.threads[i]? = none) (ht' : m'.threads[i]? = some t) :
    t = [] ∨ ∃ c k, t = [.run c k] := by
  have hi : m.threads.length ≤ i := List.getElem?_eq_none_iff.mp ht
  have new {ts : List Thread} {u : Thread} (hts : ts.length ≤ i) (heq : m'.threads = ts ++ [u]) : t = u := by
    rw [heq, List.getElem?_append_right hts] at ht'
    exact List.mem_singleton.mp (List.mem_of_getElem? ht')
  rcases h.threads_eq with ⟨-, heq | heq⟩ | ⟨j, u, u', -, -, -, heq | ⟨c, k, heq⟩⟩
  · rw [heq, ht] at ht'; cases ht'
  · exact Or.inl (new hi heq)
  · rw [heq, List.getElem?_eq_none (by simpa using hi)] at ht'; cases ht'
  · exact Or.inr ⟨c, k, new (by simpa using hi) heq⟩

/-- What is not aside was there before if the step is. -/
theorem mem_frames_aside {t' : Thread} (ht : m.threads[i]? = some t) (hf : t.Aside) (goes : Thread.Goes t t')
    (threads : m'.threads = m.threads.set i t' ∨ ∃ c k, m'.threads = m.threads.set i t' ++ [[.run c k]])
    (hmem : f ∈ m'.frames) : f.aside = true ∨ f ∈ m.frames := by
  have hset (m' : Machine) (hthr : m'.threads = m.threads.set i t') (hmem : f ∈ m'.frames) :
      f.aside = true ∨ f ∈ m.frames := by
    rcases Machine.mem_frames_set hthr hmem with hmem | ⟨j, u, -, hu, hmem⟩
    · exact (goes.mem_aside hf hmem).imp_right fun h => Machine.mem_frames ht (List.mem_of_mem_tail h)
    · exact Or.inr (Machine.mem_frames hu hmem)
  rcases threads with heq | ⟨c, k, heq⟩
  · exact hset m' heq hmem
  · rw [Machine.frames, heq, List.flatten_append] at hmem
    rcases List.mem_append.mp hmem with hmem | hmem
    · exact hset { m with threads := m.threads.set i t' } rfl hmem
    · obtain rfl : f = .run c k := by simpa using hmem
      exact Or.inl rfl

end Turn

end

end Overseer.Supervisor

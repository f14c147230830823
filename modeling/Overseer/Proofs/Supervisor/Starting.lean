import Overseer.Proofs.Supervisor.Frames
import Overseer.Proofs.Supervisor.Phases

/-!
# Starting a sub-agent

A start checks its context first. A context that passes may still allow more time than the clock can show:
any time that a duration can hold is accepted, and the deadline is the sum of that and the present. Where the
sum cannot be shown the start panics, before it has changed anything. Everywhere else it comes back: with its
entry registered, or with a refusal, unless the hook that it tells of its entry panics.

* `Started`: what a start comes back with once it has a deadline.
* `Move.inside`: a frame in charge of an entry stays until its turn comes, or is unwound by a hook.
* `Thread.Starts`, `Machine.Over.starts`: where a start stands, on every run while it is under way.
* `Machine.Returns`: steps of the threads alone lead to its return, whoever has the map.
* `start_comes_back`: the two cases; `start_overflows`: the first of them happens.
-/
namespace Overseer.Supervisor

/-! ## Frames that stay -/

section

variable {m m' : Machine} {i : Nat} {f : Frame} {k : Key} {pre below : Thread}

/-- The frames `pre'` are those further in than `f`, or some of them. -/
theorem Thread.inside_of_append (pre' : Thread) {below' : Thread} (h : pre' ++ below' = pre ++ f :: below)
    (hpre : pre ≠ []) (hf : pre'.length = 1 ∨ f ∉ pre') : ∃ a, below' = a ++ f :: below := by
  rcases List.append_eq_append_iff.mp h with ⟨a, -, heq⟩ | ⟨b, heq, hb⟩
  · exact ⟨a, heq⟩
  · cases b with
    | nil => exact ⟨[], hb.symm⟩
    | cons g b =>
      cases hb
      rcases hf with hlen | hnot
      · rw [heq, List.length_append, List.length_cons] at hlen
        exact absurd (List.eq_nil_of_length_eq_zero (by omega)) hpre
      · exact absurd (heq ▸ by simp) hnot

open Machine in
/-- While there are others further in, a frame in charge of an entry stays as it is, unless a hook that panics
takes it with it. -/
theorem Move.inside {es : List Event} (h : Move m es m') (hm : m.Sound)
    (ht : m.threads[i]? = some (pre ++ f :: below)) (hpre : pre ≠ []) (hf : f.charge? = some k)
    (hopen : f.isOpen = false) :
    (∃ pre', m'.threads[i]? = some (pre' ++ f :: below)) ∨
      ∃ k' s message, es = [.broken k' s] ∧
        m'.threads[i]? = some (.answer (.panicked message) :: unwound below) := by
  have hi : i < m.threads.length := (List.getElem?_eq_some_iff.mp ht).1
  have goOn {j : Nat} {below' : Thread} (pre' post : Thread) (ht' : m.threads[j]? = some (pre' ++ below'))
      (hfree : pre'.length = 1 ∨ f ∉ pre') (hthr : m'.threads[i]? = (m.threads.set j (post ++ below'))[i]?) :
      ∃ pre', m'.threads[i]? = some (pre' ++ f :: below) := by
    rw [hthr]
    by_cases hj : j = i
    · subst hj
      obtain ⟨a, rfl⟩ := Thread.inside_of_append pre' (Option.some.inj (ht'.symm.trans ht)) hpre hfree
      exact ⟨post ++ a, by rw [List.getElem?_set_self hi, List.append_assoc]⟩
    · exact ⟨pre, by rw [List.getElem?_set_ne hj, ht]⟩
  cases h with
  | outside => exact Or.inl ⟨pre, ht⟩
  | newThread => exact Or.inl ⟨pre, by rw [List.getElem?_append_left hi, ht]⟩
  | pass pre' post ht' hpre' =>
    refine Or.inl (goOn pre' post ht' (Or.inr fun hmem => ?_) rfl)
    rw [hpre' f hmem] at hf
    cases hf
  | @panic j g below' message ht' _ hs =>
    have hb := hs (hm.settled _ (List.mem_of_getElem? ht'))
    exact Or.inl (goOn [g] [.answer (.panicked message)] ht' (Or.inl rfl)
      (by simp [setThread, panicked, unwound_of_handsOver hb]))
  | register ht' => exact Or.inl (goOn [_] [_, _] ht' (Or.inl rfl) rfl)
  | @announce j c key below' e ht' he =>
    exact Or.inl (goOn [_] (e.held.toList.map (.notify key) ++ [.spawn c key]) ht' (Or.inl rfl)
      (by simp [setThread, Machine.setEntry]))
  | @spawn j c key below' ht' =>
    refine Or.inl (goOn [_] [.answer .done] ht' (Or.inl rfl) ?_)
    exact List.getElem?_append_left (by simpa using hi)
  | @cancel signals j key below' e e' latch now time ht' =>
    exact Or.inl (goOn [_] (latch.notice key .cancelled ++ [.answer .done]) ht' (Or.inl rfl)
      (by simp [setThread, Machine.setEntry]))
  | execute ht' => exact Or.inl (goOn [_] [_] ht' (Or.inl rfl) rfl)
  | outcome ht' => exact Or.inl (goOn [_] [_] ht' (Or.inl rfl) rfl)
  | complete ht' => exact Or.inl (goOn [_] (Latch.notice _ _ _) ht' (Or.inl rfl) rfl)
  | skip ht' => exact Or.inl (goOn [_] [] ht' (Or.inl rfl) rfl)
  | notify ht' => exact Or.inl (goOn [_] [_] ht' (Or.inl rfl) rfl)
  | noted ht' => exact Or.inl (goOn [_] [] ht' (Or.inl rfl) rfl)
  | @broken j h key s below' message ht' =>
    by_cases hj : j = i
    · subst hj
      obtain ⟨a, rfl⟩ :=
        Thread.inside_of_append [.hook h key s] (Option.some.inj (ht'.symm.trans ht)) hpre (Or.inl rfl)
      rw [getElem?_setThread ht']
      rcases unwound_append a (f :: below) with ⟨a', heq⟩ | heq
      · exact Or.inl ⟨.answer (.panicked message) :: a', by rw [panicked, heq]; rfl⟩
      · refine Or.inr ⟨key, s, message, rfl, ?_⟩
        rw [panicked, heq, unwound, hopen]
        rfl
    · exact Or.inl ⟨pre, by rw [setThread, List.getElem?_set_ne hj, ht]⟩

end

/-! ## A start under way -/

/-- What a start of `c` may come back with once its entry has a deadline, by the events since. -/
inductive Started (c : Context) (es : List Event) : Answer → Prop where
  | done : Started c es .done
  | tracked : Started c es (.refused (.alreadyTracked c.id))
  | full {running limit : Nat} (h : limit ≤ running) : Started c es (.refused (.capacityExceeded running limit))
  /-- The hook has panicked. -/
  | broken {k : Key} {s : Status} (message : String) (h : .broken k s ∈ es) : Started c es (.panicked message)

/-- The frames of a start of `c`, once its entry has a deadline. -/
inductive Thread.Starts (c : Context) (es : List Event) : Thread → Prop where
  | enrolls {e : Entry} (id : e.id = c.id) : Starts c es [.enroll c e]
  | counts {e : Entry} {todo : List Key} {running : Nat} (id : e.id = c.id) :
      Starts c es [.counting c e todo running]
  | announces (pre : Thread) {k : Key} : Starts c es (pre ++ [.announce c k])
  | spawns (pre : Thread) {k : Key} : Starts c es (pre ++ [.spawn c k])
  | returns {a : Answer} (h : Started c es a) : Starts c es [.answer a]

/-- What the call of thread `i` over its outermost `d` frames has come back with. -/
def Machine.returned? (m : Machine) (i d : Nat) : Option Answer :=
  match m.above i d with
  | [.answer a] => some a
  | _ => none

/-- A run on which thread `i` does not come back to the frames `below` before its end. -/
inductive Machine.Over (i : Nat) (below : Thread) (m : Machine) :
    List (Policy × Label) → List Event → Machine → Prop where
  | nil : Over i below m [] [] m
  | snoc {steps : List (Policy × Label)} {es : List Event} {m' m'' : Machine} {p : Policy} {l : Label}
      (run : Over i below m steps es m') (busy : m'.returned? i below.length = none)
      (step : m'.next? p l = some m'') : Over i below m (steps ++ [(p, l)]) (es ++ m'.observe p l) m''

section

variable {p : Policy} {m m' : Machine} {l : Label} {i : Nat} {c : Context} {es : List Event} {t below : Thread}

theorem Started.append {a : Answer} (h : Started c es a) (es' : List Event) : Started c (es ++ es') a := by
  cases h with
  | done => exact .done
  | tracked => exact .tracked
  | full h => exact .full h
  | broken message h => exact .broken message (List.mem_append_left _ h)

theorem Thread.Starts.append (h : Starts c es t) (es' : List Event) : Starts c (es ++ es') t := by
  cases h with
  | enrolls id => exact .enrolls id
  | counts id => exact .counts id
  | announces pre => exact .announces pre
  | spawns pre => exact .spawns pre
  | returns h => exact .returns (h.append es')

open Machine in
/-- A step of the thread of a start leads on in the start, or back. -/
theorem Thread.Starts.step (h : Starts c es t) (hbusy : ∀ a, t ≠ [.answer a]) (hm : m.Sound)
    (hb : Thread.HandsOver below) (ht : m.threads[i]? = some (t ++ below)) (hnext : m.next? p l = some m')
    (hl : l.thread? = some i) :
    ∃ t', m'.threads[i]? = some (t' ++ below) ∧ Starts c (es ++ m.observe p l) t' := by
  -- a frame that waits for a notification, and what is further in
  have inside {pre : Thread} {f : Frame} {k : Key} (ht : m.threads[i]? = some (pre ++ [f] ++ below))
      (hpre : pre ≠ []) (hf : f.charge? = some k) (hopen : f.isOpen = false)
      (h : ∀ pre', Starts c (es ++ m.observe p l) (pre' ++ [f])) :
      ∃ t', m'.threads[i]? = some (t' ++ below) ∧ Starts c (es ++ m.observe p l) t' := by
    rw [List.append_assoc, List.singleton_append] at ht
    rcases (move_of_next? hnext).inside hm ht hpre hf hopen with ⟨pre', ht'⟩ | ⟨k', s, message, hes, ht'⟩
    · exact ⟨pre' ++ [f], by rw [ht', List.append_assoc]; rfl, h pre'⟩
    · rw [unwound_of_handsOver hb] at ht'
      have hmem : .broken k' s ∈ es ++ m.observe p l := List.mem_append_right _ (hes ▸ List.mem_singleton_self _)
      exact ⟨[.answer (.panicked message)], ht', .returns (.broken message hmem)⟩
  cases h with
  | returns => exact absurd rfl (hbusy _)
  | @enrolls e id =>
    obtain ⟨rfl, hs⟩ := eq_step hnext hl ht (Or.inl rfl)
    cases hs with
    | tracked => exact ⟨[_], getElem?_setThread ht _, .returns (id ▸ .tracked)⟩
    | enrolls => exact ⟨[_, _], getElem?_register ht .., .announces [_]⟩
    | claims => exact ⟨[_], getElem?_setThread ht _, .counts id⟩
  | @counts e todo running id =>
    obtain ⟨rfl, hs⟩ := eq_step hnext hl ht (Or.inl rfl)
    cases hs with
    | counts => exact ⟨[_], getElem?_setThread ht _, .counts id⟩
    | full full => exact ⟨[_], getElem?_setThread ht _, .returns (.full full)⟩
    | admits => exact ⟨[_, _], getElem?_register ht .., .announces [_]⟩
  | @announces pre k =>
    by_cases hpre : pre = []
    · subst hpre
      obtain ⟨rfl, hs⟩ := eq_step hnext hl ht (Or.inl rfl)
      cases hs with
      | @announces _ _ e =>
        refine ⟨e.held.toList.map (.notify k) ++ [.spawn c k], ?_, .spawns _⟩
        rw [List.append_assoc]
        exact getElem?_setThread (m := m.setEntry k e.announce.1) ht _
    · exact inside ht hpre rfl rfl fun pre' => .announces pre'
  | @spawns pre k =>
    by_cases hpre : pre = []
    · subst hpre
      obtain ⟨rfl, hs⟩ := eq_step hnext hl ht (Or.inl rfl)
      cases hs with
      | spawns => exact ⟨[.answer .done], getElem?_given ht (Or.inr ⟨_, _, rfl⟩), .returns .done⟩
    · exact inside ht hpre rfl rfl fun pre' => .spawns pre'

namespace Machine

variable {m₁ : Machine} {steps : List (Policy × Label)}

theorem returned?_of_answer {a : Answer} (ht : m.threads[i]? = some (.answer a :: below)) :
    m.returned? i below.length = some a := by
  have habove : m.above i below.length = [.answer a] := by
    rw [above, ht, Option.getD_some]
    exact Thread.above_append [.answer a] below
  rw [returned?, habove]

theorem ne_answer_of_busy (busy : m.returned? i below.length = none) (ht : m.threads[i]? = some (t ++ below))
    (a : Answer) : t ≠ [.answer a] := by
  rintro rfl
  have hback : m.returned? i below.length = some a := returned?_of_answer ht
  rw [hback] at busy
  cases busy

theorem Over.run (h : m₁.Over i below steps es m) : Run m₁ steps es m := by
  induction h with
  | nil => exact .nil
  | snoc _ _ step ih => exact .snoc ih step

/-- While a start has not come back, its thread is where a start can be. -/
theorem Over.starts {e : Entry} (h : m₁.Over i below steps es m) (hm : m₁.Sound) (hb : Thread.HandsOver below)
    (id : e.id = c.id) (ht : m₁.threads[i]? = some (.enroll c e :: below)) :
    ∃ t, m.threads[i]? = some (t ++ below) ∧ Thread.Starts c es t := by
  induction h with
  | nil => exact ⟨[.enroll c e], ht, .enrolls id⟩
  | @snoc steps es m m' p l run busy step ih =>
    obtain ⟨t, ht', hstarts⟩ := ih
    by_cases hl : l.thread? = some i
    · exact hstarts.step (ne_answer_of_busy busy ht') (run.run.sound hm) hb ht' step hl
    · exact ⟨t, (turn_of_next? step).thread_same hl ht', hstarts.append _⟩

end Machine

theorem Thread.Starts.started {a : Answer} (h : Starts c es [.answer a]) : Started c es a := by
  generalize ht : [Frame.answer a] = t at h
  cases h with
  | returns h => cases ht; exact h
  | announces pre | spawns pre =>
    have hlast := congrArg List.getLast? ht
    rw [List.getLast?_concat] at hlast
    cases hlast
  | _ => cases ht

end

/-! ## Coming back -/

/-- How much the frames that have the map have still to look at. -/
def Machine.visits (m : Machine) : Nat := (m.frames.map Frame.visits).sum

/-- Steps of the threads alone, and the return of its own hook, lead to the return of thread `i` to the frames
`below`. -/
inductive Machine.Returns (p : Policy) (i : Nat) (below : Thread) : Machine → Prop where
  | here {m : Machine} {a : Answer} (ht : m.threads[i]? = some (.answer a :: below)) : Returns p i below m
  | go {m m' : Machine} {l : Label} (hl : (∃ j, l = .step j) ∨ l = .hookReturns i) (step : m.next? p l = some m')
      (rest : Returns p i below m') : Returns p i below m

namespace Machine

variable {p : Policy} {m m' : Machine} {i j : Nat} {c : Context} {e : Entry} {k : Key} {below t : Thread} {f : Frame}

theorem visits_set (pre post : Thread) (ht : m.threads[j]? = some (pre ++ t))
    (hthr : m'.threads = m.threads.set j (post ++ t)) :
    m'.visits + (pre.map Frame.visits).sum = m.visits + (post.map Frame.visits).sum := by
  refine additive_frames_set (q := fun l => (l.map Frame.visits).sum) (fun a b => ?_) pre post ht hthr
  rw [List.map_append, List.sum_append]

/-- A step of any thread leads to the return if it comes from where the step leads. -/
theorem returns_step (ht : m.threads[j]? = some (f :: t)) (step : Step p m j f t m')
    (rest : m'.Returns p i below) : m.Returns p i below :=
  .go (Or.inl ⟨j, rfl⟩) (next?_of_step ht step) rest

theorem returns_spawn (ht : m.threads[i]? = some (.spawn c k :: below)) : m.Returns p i below :=
  returns_step ht .spawns (.here (getElem?_given ht (Or.inr ⟨_, _, rfl⟩)))

/-- The start goes on once its notification has come back. -/
theorem returns_notify {s : Status} (ht : m.threads[i]? = some (.notify k s :: t))
    (next : ∀ m' : Machine, m'.threads[i]? = some t → m'.entries = m.entries → m'.Returns p i below) :
    m.Returns p i below := by
  cases hh : m.hook with
  | none => exact returns_step ht (.skips hh) (next _ (getElem?_setThread ht t) rfl)
  | some h =>
    have ht₁ := getElem?_setThread ht (.hook h k s :: t)
    have back := next?_of_next (p := p) (.hookReturns ht₁)
    exact returns_step ht (.notifies hh) (.go (Or.inr rfl) back (next _ (getElem?_setThread ht₁ t) rfl))

theorem returns_announce (he : m.entry? k = some e) (ht : m.threads[i]? = some (.announce c k :: below)) :
    m.Returns p i below := by
  have hset (t' : Thread) : ((m.setEntry k e.announce.1).setThread i t').threads[i]? = some t' :=
    getElem?_setThread (m := m.setEntry k e.announce.1) ht t'
  have ht' := hset (e.held.toList.map (.notify k) ++ .spawn c k :: below)
  refine returns_step ht (.announces he) ?_
  generalize e.held = held at ht' ⊢
  cases held with
  | none => exact returns_spawn ht'
  | some s => exact returns_notify ht' fun m' ht' _ => returns_spawn ht'

theorem returns_register (ht : m.threads[i]? = some (f :: below)) : (m.register i c e below).Returns p i below := by
  refine returns_notify (getElem?_register ht c e below) fun m' ht' hent => ?_
  have he : m'.entry? m.entries.length = some e := by
    rw [entry?_eq, hent]
    exact entry?_register_self m i c e below
  exact returns_announce he ht'

theorem returns_counting {todo : List Key} {running : Nat}
    (ht : m.threads[i]? = some (.counting c e todo running :: below)) : m.Returns p i below := by
  induction todo generalizing m running with
  | cons k todo ih => exact returns_step ht .counts (ih (getElem?_setThread ht _))
  | nil =>
    by_cases hfull : p.maxRunning ≤ running
    · exact returns_step ht (.full hfull) (.here (getElem?_setThread ht _))
    · exact returns_step ht (.admits (Nat.not_le.mp hfull)) (returns_register ht)

/-- A start that finds the map free comes back by itself. -/
theorem returns_free (free : m.canWrite = true) (ht : m.threads[i]? = some (.enroll c e :: below)) :
    m.Returns p i below := by
  cases hknown : m.find? e.id with
  | some k => exact returns_step ht (.tracked free (hknown ▸ rfl)) (.here (getElem?_setThread ht _))
  | none =>
    by_cases hp : p.maxRunning = 0
    · exact returns_step ht (.enrolls free hknown hp) (returns_register ht)
    · exact returns_step ht (.claims free hknown hp) (returns_counting (getElem?_setThread ht _))

/-- Who has to wait for the map gets it in the end: those that have it can go on until they give it back. -/
theorem returns_waiting (hlock : m.Locked) (ht : m.threads[i]? = some (f :: below)) (hf : f.holds = false)
    (hfree : ∀ m' : Machine, m'.canWrite = true → m'.threads[i]? = some (f :: below) → m'.Returns p i below) :
    m.Returns p i below := by
  -- on what those that have the map have still to look at
  induction hn : m.visits using Nat.strong_induction_on generalizing m with
  | _ n ih =>
    cases free : m.canWrite with
    | true => exact hfree m free ht
    | false =>
      obtain ⟨j, g, rest, hj, hholds⟩ := hlock.exists_head (fun _ => id) fun hall => by
        rw [canWrite_iff.mpr hall] at free
        cases free
      have hne : j ≠ i := by
        rintro rfl
        cases hj.symm.trans ht
        rw [hf] at hholds
        cases hholds
      obtain ⟨m', post, step, hthr, hless⟩ := holder_goes p hj hholds
      have hvisits := visits_set [g] post hj hthr
      rw [List.map_singleton, List.sum_singleton] at hvisits
      refine .go (Or.inl ⟨j, rfl⟩) step (ih m'.visits (by omega) ((turn_of_next? step).locked hlock) ?_ rfl)
      exact (turn_of_next? step).thread_same (by simpa [Label.thread?] using hne) ht

end Machine

/-! ## What a start does -/

open Machine in
/-- Over every interleaving, a start of a valid context under any scope goes by whether the clock can show the
sum of its time and the present. If not, it panics and nothing has changed. Otherwise it gets a deadline, and
can come back from there, whatever the other threads are at; and it comes back with its entry registered, with
one of the two refusals, or with a panic of the hook. -/
theorem start_comes_back {m₀ m : Machine} {steps : List (Policy × Label)} {es : List Event} {i : Nat} {c : Context}
    {parent : Scope} {below : Thread} (h₀ : m₀.Initial) (h : Run m₀ steps es m)
    (ht : m.threads[i]? = some (.start c parent :: below)) (hv : c.validate = .ok ()) (p : Policy) :
    (¬Instant.Representable (m.now + c.limits.timeout.nanos) →
      m.next? p (.step i) = some (m.setThread i (.answer (.panicked clockPanic) :: below))) ∧
    (Instant.Representable (m.now + c.limits.timeout.nanos) → ∃ m₁, m.next? p (.step i) = some m₁ ∧
      m₁.Returns p i below ∧
      ∀ steps' es' m' a, m₁.Over i below steps' es' m' → m'.threads[i]? = some (.answer a :: below) →
        Started c es' a) := by
  have hm := h.sound h₀.sound
  have hb : Thread.HandsOver below := (hm.settled _ (List.mem_of_getElem? ht)).1
  constructor
  · intro hover
    simp only [next?, ht, stepFrame?, hv, Scope.child?, Instant.after?, if_neg hover]
    rw [panicked, unwound_of_handsOver hb]
  · intro hshown
    obtain ⟨e, signals, hid, step⟩ : ∃ e signals, e.id = c.id ∧
        m.next? p (.step i) = some ({ m with signals }.setThread i (.enroll c e :: below)) := by
      simp only [next?, ht, stepFrame?, hv, Scope.child?, Instant.after?, if_pos hshown]
      exact ⟨_, _, rfl, rfl⟩
    have hrun := Run.snoc h step
    have ht₁ := getElem?_setThread (m := { m with signals }) ht (.enroll c e :: below)
    have hreturns := returns_waiting (p := p) (hrun.locked h₀) ht₁ rfl fun _ => returns_free
    refine ⟨_, step, hreturns, fun steps' es' m' a hover hreturned => ?_⟩
    obtain ⟨t, ht', hstarts⟩ := hover.starts (hrun.sound h₀.sound) hb hid ht₁
    rw [hreturned] at ht'
    obtain rfl : t = [.answer a] := (List.append_cancel_right (Option.some.inj ht')).symm
    exact hstarts.started

/-- A start of `a` that has a deadline. -/
def enrolledStart : Machine :=
  let scope : Scope := ⟨⟨0, [0]⟩, some (plainContext "a").limits.timeout.nanos⟩
  { now := 0, signals := { fresh := 1 },
    threads := [[.enroll (plainContext "a") (Entry.new "a" scope 0)], []] }

theorem start_comes_back_plainStart : (plainContext "a").validate = .ok () ∧ ∃ m m' es,
    Run twoCallers [({}, .call 0 (.plainStart "a"))] [] m ∧
    Instant.Representable (m.now + (plainContext "a").limits.timeout.nanos) ∧
    m.next? {} (.step 0) = some enrolledStart ∧ enrolledStart.Returns {} 0 [] ∧
    enrolledStart.Over 0 [] [({}, .step 0), ({}, .step 0), ({}, .step 0), ({}, .step 0)] es m' ∧
    m'.threads[0]? = some [.answer .done] ∧ Started (plainContext "a") es .done := by
  have hv : (plainContext "a").validate = .ok () := rfl
  have h : Run twoCallers [({}, .call 0 (.plainStart "a"))] [] (twoCallers.setThread 0 [.plainStart "a"]) :=
    Run.of_run? {} [.call 0 (.plainStart "a")] rfl
  have ht : (twoCallers.setThread 0 [.plainStart "a"]).threads[0]? = some [.plainStart "a"] := rfl
  obtain ⟨m₁, step, hreturns, hall⟩ := (start_comes_back twoCallers_initial h ht hv {}).2 (by decide)
  obtain rfl : enrolledStart = m₁ := Option.some.inj step
  have begins : enrolledStart.Over 0 [] [] [] enrolledStart := .nil
  have registers := begins.snoc (p := {}) (l := .step 0) rfl rfl
  have notifies := registers.snoc (p := {}) (l := .step 0) rfl rfl
  have announces := notifies.snoc (p := {}) (l := .step 0) rfl rfl
  have hover := announces.snoc (p := {}) (l := .step 0) rfl rfl
  exact ⟨hv, _, _, _, h, by decide, rfl, hreturns, hover, rfl, hall _ _ _ _ hover rfl⟩

/-- A context that allows the longest time of whole seconds. -/
def endlessContext : Context :=
  { plainContext "a" with limits := { timeout := Duration.ofSeconds (Word.count64 - 1) } }

/-- It is valid, and its start panics. -/
theorem start_overflows : endlessContext.validate = .ok () ∧ ∃ m m',
    Run twoCallers [({}, .call 0 (.start endlessContext ⟨⟨0, []⟩, none⟩))] [] m ∧
    m.next? {} (.step 0) = some m' ∧ m'.threads[0]? = some [.answer (.panicked Machine.clockPanic)] :=
  ⟨rfl, _, _, Run.of_run? {} [.call 0 (.start endlessContext ⟨⟨0, []⟩, none⟩)] rfl, rfl, rfl⟩

end Overseer.Supervisor

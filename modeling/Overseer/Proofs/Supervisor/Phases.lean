import Overseer.Proofs.Supervisor.Watch

/-!
# The phases of a shutdown

A shutdown lists what runs, cancels it id by id, and polls until a scan finds nothing. While it lists and
cancels it owes the cancelling of what it found registered and has not come to; when it polls it owes
nothing, and a scan counts only what was registered later. `Watch.Phase` says so for each point of the way.

* `Watch.Phase.of_next?`: the steps of other threads leave a phase as it is.
* `Watch.Phase.step`: the steps of the thread itself lead from one phase to another.
* `Watched.phase`: on every run the phase is what the notes say.
-/
namespace Overseer.Supervisor

/-! ## Holding the map -/

/-- While a scan is at work nothing is registered. -/
theorem Turn.entries_same {p : Policy} {m m' : Machine} {l : Label} {i : Nat} {todo : List Key}
    {found : List String} {below : Thread} (h : Turn p m l m') (hlock : m.Locked)
    (ht : m.threads[i]? = some (.scanning todo found :: below)) : m'.entries.length = m.entries.length := by
  have shared (free : m.canWrite = true) : False := by
    have hfree := Machine.canWrite_iff.mp free _ (List.mem_of_getElem? ht) _ List.mem_cons_self
    cases hfree
  cases h with
  | outside _ _ entries => exact entries
  | aside _ _ _ _ _ entries => exact entries
  | enroll _ free => exact (shared free).elim
  | accept ht' =>
    obtain rfl := hlock.alone ht' ht rfl rfl
    rw [ht'] at ht
    cases ht
  | _ => rfl

/-! ## The phases of a shutdown -/

namespace Watch

/-- A shutdown polls: nothing is left of what was registered at its snapshot. -/
structure Polls (w : Watch) (m : Machine) (timeout : Duration) (deadline : Instant) : Prop where
  owed : m.Owed w.registered [] []
  began : ∃ start, w.polling = some start ∧ deadline = start + timeout.nanos

/-- An entry has been registered since the snapshot. -/
def Late (w : Watch) (m : Machine) : Prop := w.registered < m.entries.length

/-- What a scan has counted: entries registered since the snapshot, each once. -/
structure Counts (w : Watch) (m : Machine) (found : List String) : Prop where
  found : found.length = w.counted.length
  once : w.counted.Nodup
  late : ∀ k ∈ w.counted, w.registered ≤ k ∧ k < m.entries.length

/-- A scan has yet to look at `todo`; what runs it has counted or will look at. -/
structure Scans (w : Watch) (m : Machine) (todo : List Key) : Prop where
  once : todo.Nodup
  ahead : ∀ k ∈ todo, k ∉ w.counted
  running : ∀ k, m.isRunning k = true → k ∈ w.counted ∨ k ∈ todo

/-- What the notes say at each point of a shutdown, from its frames. -/
inductive Phase (w : Watch) (m : Machine) : Thread → Prop where
  | idle {t : Thread} (h : t.Idle) : Phase w m t
  | begins {timeout : Duration} : Phase w m [.listRunning, .silence timeout]
  | lists {timeout : Duration} {todo : List Key} {found : List String}
      (owed : m.Owed w.registered todo found) : Phase w m [.scanning todo found, .silence timeout]
  | listed {timeout : Duration} {ids : List String} (owed : m.Owed w.registered [] ids) :
      Phase w m [.answer (.ids ids), .silence timeout]
  | silences {timeout : Duration} {ids : List String} (owed : m.Owed w.registered [] ids) :
      Phase w m [.silencing timeout ids]
  | cancels {timeout : Duration} {id : String} {ids : List String}
      (owed : m.Owed w.registered [] (id :: ids)) : Phase w m [.cancel id, .silencing timeout ids]
  | latches {timeout : Duration} {k : Key} {ids : List String} (owed : m.Owed w.registered [k] ids) :
      Phase w m [.latch k, .silencing timeout ids]
  /-- A cancel is answered, and its hook may be at work. -/
  | cancelling {timeout : Duration} {t : Thread} {a : Answer} {ids : List String} (pre : Thread)
      (ht : t = pre ++ [.answer a, .silencing timeout ids]) (owed : m.Owed w.registered [] ids) : Phase w m t
  | polls {timeout : Duration} {deadline : Instant} (polls : w.Polls m timeout deadline)
      (first : w.scans = 0 ∨ w.Late m) : Phase w m [.drain timeout deadline]
  | asks {timeout : Duration} {deadline : Instant} (polls : w.Polls m timeout deadline)
      (first : w.scans = 0 ∨ w.Late m) : Phase w m [.listRunning, .drained timeout deadline]
  | scans {timeout : Duration} {deadline : Instant} {todo : List Key} {found : List String}
      (polls : w.Polls m timeout deadline) (first : w.scans = 1 ∨ w.Late m) (counts : w.Counts m found)
      (scans : w.Scans m todo) : Phase w m [.scanning todo found, .drained timeout deadline]
  | scanned {timeout : Duration} {deadline : Instant} {found : List String}
      (polls : w.Polls m timeout deadline) (first : w.scans = 1 ∨ w.Late m) (counts : w.Counts m found)
      (running : w.counted = [] → w.running = []) :
      Phase w m [.answer (.ids found), .drained timeout deadline]
  | rests {timeout : Duration} {deadline wake : Instant} (polls : w.Polls m timeout deadline)
      (late : w.Late m) : Phase w m [.rest timeout deadline wake]

variable {p : Policy} {w : Watch} {m m' : Machine} {l : Label} {timeout : Duration} {deadline : Instant}
  {todo : List Key} {found : List String}

/-! ### Steps of other threads -/

theorem Late.of_next? (h : w.Late m) (hs : m.next? p l = some m') : w.Late m' :=
  Nat.lt_of_lt_of_le h (Machine.length_le_of_next? hs)

theorem Polls.of_next? (h : w.Polls m timeout deadline) (hm : m.Sound) (hs : m.next? p l = some m') :
    w.Polls m' timeout deadline :=
  ⟨h.owed.of_next? hm hs, h.began⟩

theorem Counts.of_next? (h : w.Counts m found) (hs : m.next? p l = some m') : w.Counts m' found where
  found := h.found
  once := h.once
  late k hk := ⟨(h.late k hk).1, Nat.lt_of_lt_of_le (h.late k hk).2 (Machine.length_le_of_next? hs)⟩

theorem Scans.of_next? (h : w.Scans m todo) (hm : m.Sound) (hs : m.next? p l = some m')
    (hlen : m'.entries.length = m.entries.length) : w.Scans m' todo where
  once := h.once
  ahead := h.ahead
  running k hk :=
    h.running k (Machine.isRunning_of_next? hm hs (hlen ▸ Machine.isRunning_lt hk) hk)

/-- What the notes say does not depend on the steps of other threads. -/
theorem Phase.of_next? {i : Nat} {t below : Thread} (h : w.Phase m t) (hm : m.Sound) (hlock : m.Locked)
    (ht : m.threads[i]? = some (t ++ below)) (hs : m.next? p l = some m') : w.Phase m' t := by
  have late {n : Nat} (h : w.scans = n ∨ w.Late m) : w.scans = n ∨ w.Late m' :=
    h.imp_right fun h => h.of_next? hs
  cases h with
  | idle h => exact .idle h
  | begins => exact .begins
  | lists owed => exact .lists (owed.of_next? hm hs)
  | listed owed => exact .listed (owed.of_next? hm hs)
  | silences owed => exact .silences (owed.of_next? hm hs)
  | cancels owed => exact .cancels (owed.of_next? hm hs)
  | latches owed => exact .latches (owed.of_next? hm hs)
  | cancelling pre ht owed => exact .cancelling pre ht (owed.of_next? hm hs)
  | polls polls first => exact .polls (polls.of_next? hm hs) (late first)
  | asks polls first => exact .asks (polls.of_next? hm hs) (late first)
  | scans polls first counts scans =>
    have hlen := (Machine.turn_of_next? hs).entries_same hlock ht
    exact .scans (polls.of_next? hm hs) (late first) (counts.of_next? hs) (scans.of_next? hm hs hlen)
  | scanned polls first counts running =>
    exact .scanned (polls.of_next? hm hs) (late first) (counts.of_next? hs) running
  | rests polls isLate => exact .rests (polls.of_next? hm hs) (isLate.of_next? hs)

end Watch

/-! ### Steps of the thread itself -/

/-- Only its own thread moves the frame on. -/
def Frame.driven : Frame → Bool
  | .answer _ | .hook _ _ _ | .executing _ _ | .doze _ _ => false
  | _ => true

namespace Machine

variable {p : Policy} {m m' : Machine} {l : Label} {i : Nat} {f g : Frame} {rest : Thread}

/-- What the surroundings do with a thread they do in a frame that they own or may drop, or that answers
them. -/
theorem eq_step (h : m.next? p l = some m') (hl : l.thread? = some i) (ht : m.threads[i]? = some (f :: rest))
    (hf : f.driven = true ∨ ∃ a g rest', f = .answer a ∧ rest = g :: rest' ∧ g.isOpen = false) :
    l = .step i ∧ Step p m i f rest m' := by
  cases next?_eq_some_iff.mp h with
  | step hj step =>
    cases hl
    cases hj.symm.trans ht
    exact ⟨rfl, step⟩
  | call isCall hj hands =>
    cases hl
    cases hj.symm.trans ht
    have hopen : f.isOpen = false := by
      rcases hf with hf | ⟨a, -, -, rfl, -⟩
      · cases f <;> first | rfl | cases hf
      · rfl
    cases hopen.symm.trans hands
  | take hj hands =>
    cases hl
    cases hj.symm.trans ht
    rcases hf with hf | ⟨_, g, _, _, rfl, hg⟩
    · cases hf
    · cases hg.symm.trans hands
  | hookReturns hj | hookPanics hj | executorReturns hj | giveUp hj =>
    cases hl
    cases hj.symm.trans ht
    rcases hf with hf | ⟨_, _, _, heq, _⟩
    · cases hf
    · cases heq
  | _ => cases hl

end Machine

namespace Watch

section

variable {p : Policy} {w : Watch} {m m' : Machine} {l : Label} {i : Nat} {t t' below : Thread}

theorem after_step (ht : m.threads[i]? = some (t ++ below)) :
    w.after i below.length m (.step i) = w.note m t := by
  simp [after, Machine.above, ht, Thread.above_append]

theorem above_set (ht : m.threads[i]? = some t) (hthr : m'.threads = m.threads.set i (t' ++ below)) :
    m'.above i below.length = t' := by
  have hi : i < m.threads.length := (List.getElem?_eq_some_iff.mp ht).1
  rw [Machine.above, hthr, List.getElem?_set_self hi, Option.getD_some, Thread.above_append]

/-- The thread goes on as `t'`, and what is noted is `w'`. -/
theorem Phase.land {w' : Watch} (t' : Thread) (ht : m.threads[i]? = some (t ++ below)) (hw : w.note m t = w')
    (hthr : m'.threads = m.threads.set i (t' ++ below)) (h : w'.Phase m' t') :
    (w.after i below.length m (.step i)).Phase m' (m'.above i below.length) := by
  rw [after_step ht, hw, above_set ht hthr]
  exact h

/-- A shutdown that is unwound is no longer watched. -/
theorem Phase.unwind {message : String} {f : Frame} (ht : m.threads[i]? = some (f :: below)) :
    w.Phase (m.setThread i (Machine.panicked message below))
      ((m.setThread i (Machine.panicked message below)).above i below.length) := by
  have hi : i < m.threads.length := (List.getElem?_eq_some_iff.mp ht).1
  refine .idle ?_
  rw [Machine.above, Machine.setThread, List.getElem?_set_self hi]
  exact Thread.idle_panicked message below

/-- What is no shutdown stays so, or a shutdown begins. -/
theorem Phase.idle_step {d : Nat} (h : (m.above i d).Idle) (hs : m.next? p l = some m')
    (hl : l.thread? = some i) : (w.after i d m l).Phase m' (m'.above i d) := by
  have hafter : w.after i d m l = w := by
    unfold after
    split
    · split
      · exact note_of_idle h
      · rfl
    · rfl
  rw [hafter]
  obtain ⟨t, t', ht, ht', goes⟩ := (Machine.turn_of_next? hs).thread_goes hl
  have habove : m.above i d = Thread.above d t := by rw [Machine.above, ht]; rfl
  have habove' : m'.above i d = Thread.above d t' := by rw [Machine.above, ht']; rfl
  rcases goes.idle (habove ▸ h) with hidle | ⟨timeout, rest, rfl, rfl⟩
  · exact .idle (habove' ▸ hidle)
  · obtain ⟨-, hs⟩ := Machine.eq_step hs hl ht (Or.inl rfl)
    have hthr : m'.threads =
        m.threads.set i ([.listRunning, .silence (timeout.getD p.shutdownTimeout)] ++ rest) := by
      cases hs
      rfl
    rw [above_set ht hthr]
    exact .begins

/-! The steps of a shutdown, in the order in which it makes them. -/

/-- It takes the list of what runs, and will see all of it. -/
theorem Phase.begins_step {timeout : Duration} (hm : m.Sound) (hi : m.Indexed) (hp : p.Fair)
    (ht : m.threads[i]? = some ([.listRunning, .silence timeout] ++ below))
    (hnext : m.next? p (.step i) = some m')
    (hs : Step p m i .listRunning (.silence timeout :: below) m') :
    (w.after i below.length m (.step i)).Phase m' (m'.above i below.length) := by
  have howed := (Machine.Owed.start hi hp).of_next? hm hnext
  cases hs
  exact .land [.scanning (p.visit m.keys) [], .silence timeout] ht rfl rfl (.lists howed)

theorem Phase.lists_step {timeout : Duration} {todo : List Key} {found : List String} (hm : m.Sound)
    (howed : m.Owed w.registered todo found)
    (ht : m.threads[i]? = some ([.scanning todo found, .silence timeout] ++ below))
    (hnext : m.next? p (.step i) = some m')
    (hs : Step p m i (.scanning todo found) (.silence timeout :: below) m') :
    (w.after i below.length m (.step i)).Phase m' (m'.above i below.length) := by
  cases hs with
  | lists =>
    have howed' := howed.of_next? hm hnext
    exact .land [.answer (.ids found), .silence timeout] ht rfl rfl (.listed howed')
  | looks =>
    have howed' := howed.look.of_next? hm hnext
    exact .land [.scanning _ _, .silence timeout] ht rfl rfl (.lists howed')

theorem Phase.listed_step {timeout : Duration} {ids : List String} (hm : m.Sound)
    (howed : m.Owed w.registered [] ids)
    (ht : m.threads[i]? = some ([.answer (.ids ids), .silence timeout] ++ below))
    (hnext : m.next? p (.step i) = some m')
    (hs : Step p m i (.answer (.ids ids)) (.silence timeout :: below) m') :
    (w.after i below.length m (.step i)).Phase m' (m'.above i below.length) := by
  have howed' := howed.of_next? hm hnext
  cases hs
  exact .land [.silencing timeout ids] ht rfl rfl (.silences howed')

/-- It cancels the next id, or begins to poll when there is none. -/
theorem Phase.silences_step {timeout : Duration} {ids : List String} (hm : m.Sound)
    (howed : m.Owed w.registered [] ids) (ht : m.threads[i]? = some ([.silencing timeout ids] ++ below))
    (hnext : m.next? p (.step i) = some m')
    (hs : Step p m i (.silencing timeout ids) below m') :
    (w.after i below.length m (.step i)).Phase m' (m'.above i below.length) := by
  have howed' := howed.of_next? hm hnext
  cases hs with
  | silences => exact .land [.cancel _, .silencing timeout _] ht rfl rfl (.cancels howed')
  | overruns =>
    rw [after_step ht]
    exact .unwind ht
  | @polls _ deadline _ hdeadline =>
    have hbegan : deadline = m.now + timeout.nanos := by
      unfold Instant.after? at hdeadline
      split at hdeadline <;> simp_all
    exact .land [.drain timeout deadline] ht rfl rfl (.polls ⟨howed', m.now, rfl, hbegan⟩ (Or.inl rfl))

theorem Phase.cancels_step {timeout : Duration} {id : String} {ids : List String} (hm : m.Sound)
    (hi : m.Indexed) (howed : m.Owed w.registered [] (id :: ids))
    (ht : m.threads[i]? = some ([.cancel id, .silencing timeout ids] ++ below))
    (hnext : m.next? p (.step i) = some m')
    (hs : Step p m i (.cancel id) (.silencing timeout ids :: below) m') :
    (w.after i below.length m (.step i)).Phase m' (m'.above i below.length) := by
  cases hs with
  | cancelsNone _ hid =>
    have howed' := (howed.lost hi hid).of_next? hm hnext
    exact .land [.answer _, .silencing timeout ids] ht rfl rfl (.cancelling [] rfl howed')
  | cancels _ hid =>
    have howed' := (howed.traced hi hid).of_next? hm hnext
    exact .land [.latch _, .silencing timeout ids] ht rfl rfl (.latches howed')

/-- The entry that it has cancelled does not run. -/
theorem Phase.latches_step {timeout : Duration} {k : Key} {ids : List String} (hm : m.Sound)
    (howed : m.Owed w.registered [k] ids)
    (ht : m.threads[i]? = some ([.latch k, .silencing timeout ids] ++ below))
    (hnext : m.next? p (.step i) = some m')
    (hs : Step p m i (.latch k) (.silencing timeout ids :: below) m') :
    (w.after i below.length m (.step i)).Phase m' (m'.above i below.length) := by
  have howed' := howed.of_next? hm hnext
  cases hs with
  | @latches _ e e' latch _ he hl =>
    have hterm : e'.status.isTerminal = true := by
      cases Entry.latching_cancel (hm.entries e (Machine.entry?_mem he)) hl with
      | refused terminal same => exact same ▸ terminal
      | notify _ _ _ _ _ status => rw [status]; rfl
      | held _ _ _ _ _ status => rw [status]; rfl
    refine .land (latch.notice k .cancelled ++ [.answer .done, .silencing timeout ids]) ht rfl
      (by simp [Machine.setThread, Machine.setEntry])
      (.cancelling (latch.notice k .cancelled) rfl (howed'.paid (Bool.eq_false_iff.mpr fun hr => ?_)))
    obtain ⟨e₁, he₁, hr⟩ := Machine.isRunning_iff.mp hr
    rw [Machine.entry?_eq] at he₁
    cases (List.getElem?_set_self (Machine.entry?_lt he)).symm.trans he₁
    exact Status.isTerminal_ne_running hterm hr

/-- The hook may do as it likes; then the shutdown goes on with the other ids. -/
theorem Phase.cancelling_step {timeout : Duration} {a : Answer} {ids : List String} {pre : Thread}
    (hm : m.Sound) (howed : m.Owed w.registered [] ids)
    (ht : m.threads[i]? = some (pre ++ [.answer a, .silencing timeout ids] ++ below))
    (hnext : m.next? p l = some m') (hl : l.thread? = some i) :
    (w.after i below.length m l).Phase m' (m'.above i below.length) := by
  have howed' := howed.of_next? hm hnext
  by_cases hpre : pre = []
  · subst hpre
    obtain ⟨rfl, hs⟩ := Machine.eq_step hnext hl ht (Or.inr ⟨a, _, _, rfl, rfl, rfl⟩)
    cases hs
    exact .land [.silencing timeout ids] ht rfl rfl (.silences howed')
  · have hafter : w.after i below.length m l = w := by
      unfold after
      split
      · split
        · rw [Machine.above, ht, Option.getD_some, Thread.above_append]
          exact note_of_cancelling
        · rfl
      · rfl
    rw [hafter]
    obtain ⟨t, t', ht₁, ht', goes⟩ := (Machine.turn_of_next? hnext).thread_goes hl
    have habove : m'.above i below.length = Thread.above below.length t' := by rw [Machine.above, ht']; rfl
    rw [ht, List.append_assoc] at ht₁
    rw [habove]
    rcases goes.cancelling (Option.some.inj ht₁).symm hpre with ⟨pre', heq⟩ | hidle
    · have hpre' : Thread.above below.length t' = pre' ++ [.answer a, .silencing timeout ids] := by
        rw [heq, List.append_cons, List.append_cons]
        exact (Thread.above_append _ below).trans (List.append_assoc ..)
      exact .cancelling pre' hpre' howed'
    · exact .idle hidle

section

variable {timeout : Duration} {deadline : Instant}

theorem Phase.polls_step (hm : m.Sound) (hpolls : w.Polls m timeout deadline) (first : w.scans = 0 ∨ w.Late m)
    (ht : m.threads[i]? = some ([.drain timeout deadline] ++ below)) (hnext : m.next? p (.step i) = some m')
    (hs : Step p m i (.drain timeout deadline) below m') :
    (w.after i below.length m (.step i)).Phase m' (m'.above i below.length) := by
  have hpolls' := hpolls.of_next? hm hnext
  have first' : w.scans = 0 ∨ w.Late m' := first.imp_right fun h => h.of_next? hnext
  cases hs
  exact .land [.listRunning, .drained timeout deadline] ht rfl rfl (.asks hpolls' first')

/-- A scan begins: it has counted nothing and will look at all that runs. -/
theorem Phase.asks_step (hm : m.Sound) (hi : m.Indexed) (hp : p.Fair) (hpolls : w.Polls m timeout deadline)
    (first : w.scans = 0 ∨ w.Late m)
    (ht : m.threads[i]? = some ([.listRunning, .drained timeout deadline] ++ below))
    (hnext : m.next? p (.step i) = some m')
    (hs : Step p m i .listRunning (.drained timeout deadline :: below) m') :
    (w.after i below.length m (.step i)).Phase m' (m'.above i below.length) := by
  have hpolls' := hpolls.of_next? hm hnext
  have first' : w.scans = 0 ∨ w.Late m' := first.imp_right fun h => h.of_next? hnext
  have hscans : Scans { w with scans := w.scans + 1, counted := [] } m (p.visit m.keys) :=
    { once := (hp m.keys).nodup_iff.mpr hi.keys_nodup
      ahead := by simp
      running := fun k hk => Or.inr ((hp m.keys).mem_iff.mpr (hi.mem_keys hk)) }
  have hcounts : Counts { w with scans := w.scans + 1, counted := [] } m [] :=
    { found := rfl, once := List.nodup_nil, late := by simp }
  have hcounts' := hcounts.of_next? hnext
  cases hs
  have hscans' := hscans.of_next? hm hnext rfl
  exact .land [.scanning (p.visit m.keys) [], .drained timeout deadline] ht rfl rfl
    (.scans ⟨hpolls'.owed, hpolls'.began⟩ (first'.imp_left (congrArg (· + 1))) hcounts' hscans')

/-- What the scan finds running was registered after the snapshot. -/
theorem Counts.look {k : Key} {todo : List Key} {found : List String} (hcounts : w.Counts m found)
    (hscans : w.Scans m (k :: todo)) (howed : m.Owed w.registered [] []) :
    ({ w with counted := if m.isRunning k then w.counted ++ [k] else w.counted } : Watch).Counts m
      (found ++ ((m.entry? k).toList.filter (·.status = .running)).map (·.id)) := by
  have hlen : ((m.entry? k).toList.filter (·.status = .running)).length = if m.isRunning k then 1 else 0 := by
    unfold Machine.isRunning
    cases m.entry? k with
    | none => rfl
    | some e => by_cases hr : e.status = .running <;> simp [hr]
  have hfound := hcounts.found
  constructor
  · rw [List.length_append, List.length_map, hlen, hfound]
    split <;> simp
  · show (if m.isRunning k then w.counted ++ [k] else w.counted).Nodup
    split
    · refine List.nodup_append.mpr ⟨hcounts.once, by simp, fun a ha b hb heq => ?_⟩
      rw [List.mem_singleton.mp hb] at heq
      exact hscans.ahead k List.mem_cons_self (heq ▸ ha)
    · exact hcounts.once
  · intro k' hk'
    by_cases hr : m.isRunning k = true
    · simp only [hr, if_true] at hk'
      rcases List.mem_append.mp hk' with hk' | hk'
      · exact hcounts.late k' hk'
      · obtain rfl := List.mem_singleton.mp hk'
        exact ⟨howed.le_of_isRunning hr, Machine.isRunning_lt hr⟩
    · simp only [hr] at hk'
      exact hcounts.late k' hk'

theorem Scans.look {k : Key} {todo : List Key} (h : w.Scans m (k :: todo)) :
    ({ w with counted := if m.isRunning k then w.counted ++ [k] else w.counted } : Watch).Scans m todo := by
  have hk : k ∉ todo := (List.nodup_cons.mp h.once).1
  constructor
  · exact (List.nodup_cons.mp h.once).2
  · intro k' hk'
    have hne : k' ≠ k := by rintro rfl; exact hk hk'
    have hout := h.ahead k' (List.mem_cons_of_mem _ hk')
    show k' ∉ if m.isRunning k then w.counted ++ [k] else w.counted
    split <;> simp [hout, hne]
  · intro k' hr
    show k' ∈ (if m.isRunning k then w.counted ++ [k] else w.counted) ∨ k' ∈ todo
    rcases h.running k' hr with hmem | hmem
    · split <;> simp [hmem]
    · rcases List.mem_cons.mp hmem with rfl | hmem
      · simp [hr]
      · exact Or.inr hmem

theorem Phase.scans_step {todo : List Key} {found : List String} (hm : m.Sound) (hlock : m.Locked)
    (hpolls : w.Polls m timeout deadline) (first : w.scans = 1 ∨ w.Late m) (hcounts : w.Counts m found)
    (hscans : w.Scans m todo)
    (ht : m.threads[i]? = some ([.scanning todo found, .drained timeout deadline] ++ below))
    (hnext : m.next? p (.step i) = some m')
    (hs : Step p m i (.scanning todo found) (.drained timeout deadline :: below) m') :
    (w.after i below.length m (.step i)).Phase m' (m'.above i below.length) := by
  have hpolls' := hpolls.of_next? hm hnext
  have first' : w.scans = 1 ∨ w.Late m' := first.imp_right fun h => h.of_next? hnext
  have hlen := (Machine.turn_of_next? hnext).entries_same hlock ht
  cases hs with
  | lists =>
    have hcounts' := hcounts.of_next? hnext
    have hrunning : w.counted = [] → (List.range m.entries.length).filter m.isRunning = [] := by
      intro hnone
      refine List.filter_eq_nil_iff.mpr fun k _ hr => ?_
      rcases hscans.running k hr with hmem | hmem
      · rw [hnone] at hmem; cases hmem
      · cases hmem
    exact .land [.answer (.ids found), .drained timeout deadline] ht rfl rfl
      (.scanned ⟨hpolls'.owed, hpolls'.began⟩ first' ⟨hcounts'.found, hcounts'.once, hcounts'.late⟩ hrunning)
  | looks =>
    have hcounts' := (hcounts.look hscans hpolls.owed).of_next? hnext
    have hscans' := hscans.look.of_next? hm hnext hlen
    exact .land [.scanning _ _, .drained timeout deadline] ht rfl rfl
      (.scans ⟨hpolls'.owed, hpolls'.began⟩ first' hcounts' hscans')

/-- An entry that is counted was registered after the snapshot. -/
theorem Counts.isLate {id : String} {ids : List String} (h : w.Counts m (id :: ids)) : w.Late m := by
  have hlen := h.found
  cases hc : w.counted with
  | nil => rw [hc] at hlen; cases hlen
  | cons k ks =>
    obtain ⟨hle, hlt⟩ := h.late k (by rw [hc]; exact List.mem_cons_self)
    exact Nat.lt_of_le_of_lt hle hlt

/-- It is done, gives up, or rests until the next scan. -/
theorem Phase.scanned_step {found : List String} (hm : m.Sound) (hpolls : w.Polls m timeout deadline)
    (hcounts : w.Counts m found)
    (ht : m.threads[i]? = some ([.answer (.ids found), .drained timeout deadline] ++ below))
    (hnext : m.next? p (.step i) = some m')
    (hs : Step p m i (.answer (.ids found)) (.drained timeout deadline :: below) m') :
    (w.after i below.length m (.step i)).Phase m' (m'.above i below.length) := by
  have hpolls' := hpolls.of_next? hm hnext
  have done {a : Answer} : Thread.Idle [.answer a] := by simp [Thread.Idle, Frame.drains]
  cases hs with
  | drained | late => exact .land [.answer _] ht rfl rfl (.idle done)
  | rests =>
    have hlate := hcounts.isLate.of_next? hnext
    exact .land [.rest timeout deadline _] ht rfl rfl (.rests hpolls' hlate)

theorem Phase.rests_step {wake : Instant} (hm : m.Sound) (hpolls : w.Polls m timeout deadline) (late : w.Late m)
    (ht : m.threads[i]? = some ([.rest timeout deadline wake] ++ below))
    (hnext : m.next? p (.step i) = some m')
    (hs : Step p m i (.rest timeout deadline wake) below m') :
    (w.after i below.length m (.step i)).Phase m' (m'.above i below.length) := by
  have hpolls' := hpolls.of_next? hm hnext
  have late' := late.of_next? hnext
  cases hs
  exact .land [.drain timeout deadline] ht rfl rfl (.polls hpolls' (Or.inr late'))

end

/-- What the notes say after a step of the thread itself. -/
theorem Phase.step (h : w.Phase m t) (hm : m.Sound) (hlock : m.Locked) (hi : m.Indexed) (hp : p.Fair)
    (ht : m.threads[i]? = some (t ++ below)) (hnext : m.next? p l = some m') (hl : l.thread? = some i) :
    (w.after i below.length m l).Phase m' (m'.above i below.length) := by
  have driven {f : Frame} {pre : Thread} (heq : t = f :: pre) (hf : f.driven = true) :
      l = .step i ∧ Step p m i f (pre ++ below) m' :=
    Machine.eq_step hnext hl (by rw [ht, heq]; rfl) (Or.inl hf)
  have answered {a : Answer} {g : Frame} {pre : Thread} (heq : t = .answer a :: g :: pre)
      (hg : g.isOpen = false) :
      l = .step i ∧ Step p m i (.answer a) (g :: pre ++ below) m' :=
    Machine.eq_step hnext hl (by rw [ht, heq]; rfl) (Or.inr ⟨a, g, _, rfl, rfl, hg⟩)
  cases h with
  | idle h =>
    have habove : m.above i below.length = t := by rw [Machine.above, ht, Option.getD_some, Thread.above_append]
    exact idle_step (habove ▸ h) hnext hl
  | begins => obtain ⟨rfl, hs⟩ := driven rfl rfl; exact begins_step hm hi hp ht hnext hs
  | lists owed => obtain ⟨rfl, hs⟩ := driven rfl rfl; exact lists_step hm owed ht hnext hs
  | listed owed => obtain ⟨rfl, hs⟩ := answered rfl rfl; exact listed_step hm owed ht hnext hs
  | silences owed => obtain ⟨rfl, hs⟩ := driven rfl rfl; exact silences_step hm owed ht hnext hs
  | cancels owed => obtain ⟨rfl, hs⟩ := driven rfl rfl; exact cancels_step hm hi owed ht hnext hs
  | latches owed => obtain ⟨rfl, hs⟩ := driven rfl rfl; exact latches_step hm owed ht hnext hs
  | cancelling pre heq owed => exact cancelling_step hm owed (heq ▸ ht) hnext hl
  | polls polls first => obtain ⟨rfl, hs⟩ := driven rfl rfl; exact polls_step hm polls first ht hnext hs
  | asks polls first => obtain ⟨rfl, hs⟩ := driven rfl rfl; exact asks_step hm hi hp polls first ht hnext hs
  | scans polls first counts scans =>
    obtain ⟨rfl, hs⟩ := driven rfl rfl
    exact scans_step hm hlock polls first counts scans ht hnext hs
  | scanned polls _ counts =>
    obtain ⟨rfl, hs⟩ := answered rfl rfl
    exact scanned_step hm polls counts ht hnext hs
  | rests polls late => obtain ⟨rfl, hs⟩ := driven rfl rfl; exact rests_step hm polls late ht hnext hs

end

end Watch

theorem Machine.exists_below {m : Machine} {i d : Nat} (h : m.above i d ≠ []) :
    ∃ below, below.length = d ∧ m.threads[i]? = some (m.above i d ++ below) := by
  cases ht : m.threads[i]? with
  | none => rw [above, ht] at h; exact absurd List.take_nil h
  | some t =>
    have habove : m.above i d = Thread.above d t := by rw [above, ht]; rfl
    rw [habove] at h ⊢
    refine ⟨t.drop (t.length - d), ?_, by rw [Thread.above_append_drop]⟩
    have hlt : t.length - d ≠ 0 := by
      intro h0
      rw [Thread.above, h0, List.take_zero] at h
      exact h rfl
    rw [List.length_drop]
    omega

theorem Machine.Initial.idle {m : Machine} (h : m.Initial) (i d : Nat) : (m.above i d).Idle := by
  rw [above, Thread.idle_above_iff]
  intro f hf
  have hf := List.mem_reverse.mp (List.mem_of_getElem? hf)
  cases ht : m.threads[i]? with
  | none => rw [ht] at hf; cases hf
  | some t => rw [ht] at hf; exact Frame.drains_of_isCall (h.frames_isCall (mem_frames ht hf))

/-- The steps of other threads make no shutdown. -/
theorem Turn.idle_above {p : Policy} {m m' : Machine} {l : Label} {i d : Nat} (h : Turn p m l m')
    (hl : l.thread? ≠ some i) (habove : m.above i d = []) : (m'.above i d).Idle := by
  have hnil : Thread.Idle [] := by simp [Thread.Idle]
  cases ht : m.threads[i]? with
  | some t =>
    have ht' := h.thread_same hl ht
    rw [Machine.above, ht] at habove
    rw [Machine.above, ht', habove]
    exact hnil
  | none =>
    rw [Machine.above, Thread.idle_above_iff]
    intro f hf
    have hf := List.mem_reverse.mp (List.mem_of_getElem? hf)
    cases ht' : m'.threads[i]? with
    | none => rw [ht'] at hf; cases hf
    | some t =>
      rw [ht', Option.getD_some] at hf
      rcases h.thread_new ht ht' with rfl | ⟨c, k, rfl⟩
      · cases hf
      · rw [List.mem_singleton.mp hf]; rfl

/-- On every run the notes on a shutdown say what its phase is. -/
theorem Watched.phase {i d : Nat} {w₀ w : Watch} {m₀ m : Machine} {steps : List (Policy × Label)}
    (h : Watched i d w₀ m₀ steps w m) (h₀ : m₀.Initial) (hp : ∀ x ∈ steps, x.1.Fair) :
    w.Phase m (m.above i d) := by
  induction h with
  | nil => exact .idle (h₀.idle i d)
  | @snoc steps w m m' p l run step ih =>
    have ih := ih fun x hx => hp x (List.mem_append_left _ hx)
    obtain ⟨es, hrun⟩ := run.run
    have hm := hrun.sound h₀.sound
    have hlock := hrun.locked h₀
    have hi := hrun.indexed h₀
    have hfair : p.Fair := hp (p, l) (by simp)
    by_cases hl : l.thread? = some i
    · by_cases habove : m.above i d = []
      · exact Watch.Phase.idle_step (by simp [habove, Thread.Idle]) step hl
      · obtain ⟨below, rfl, ht⟩ := Machine.exists_below habove
        exact ih.step hm hlock hi hfair ht step hl
    · have hafter : w.after i d m l = w := by
        unfold Watch.after
        split
        · exact if_neg fun heq => hl (congrArg some heq)
        · rfl
      rw [hafter]
      by_cases habove : m.above i d = []
      · exact .idle (Turn.idle_above (Machine.turn_of_next? step) hl habove)
      · obtain ⟨below, rfl, ht⟩ := Machine.exists_below habove
        have ht' := (Machine.turn_of_next? step).thread_same hl ht
        have habove' : m'.above i below.length = m.above i below.length := by
          rw [Machine.above, ht', Option.getD_some, Thread.above_append]
        rw [habove']
        exact ih.of_next? hm hlock ht step

end Overseer.Supervisor

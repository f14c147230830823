import Overseer.Proofs.Supervisor.Phases

/-!
# Shutdown

A shutdown cancels all that runs and then polls. Whatever the other threads and the hooks do meanwhile,
of the entries that were registered when it took its list none is left when it polls: one that was found
running is cancelled by its id, and one whose id has been evicted or used again was finished before that.
So what keeps it from being done has been registered since.

* `shutdown_drains`: what holds when a shutdown polls and when it returns, and that it returns at once if
  nothing has been registered since it took its list.
-/
namespace Overseer.Supervisor

/-! ## Returning -/

theorem Thread.ne_above {a : Answer} {f : Frame} {below : Thread} (hf : f.drains = true) (pre : Thread) :
    Frame.answer a :: below ≠ pre ++ f :: below := by
  intro heq
  have hlen := congrArg List.length heq
  rw [List.length_append, List.length_cons, List.length_cons] at hlen
  obtain rfl : pre = [] := List.eq_nil_of_length_eq_zero (by omega)
  cases heq
  cases hf

/-- A shutdown is left by a step of its own, by an answer it goes on with, or by a panic. -/
theorem Thread.Goes.returns {pre below : Thread} {f : Frame} {a : Answer}
    (h : Goes (pre ++ f :: below) (.answer a :: below)) (hf : f.drains = true) :
    (∃ message, a = .panicked message) ∨ pre = [] ∨ ∃ a', pre = [.answer a'] := by
  generalize ht : pre ++ f :: below = t at h
  generalize ht' : Frame.answer a :: below = t' at h
  cases pre with
  | nil => exact Or.inr (Or.inl rfl)
  | cons f₁ pre =>
    cases h with
    | @call g _ _ _ => exact absurd (by rw [ht', ← ht]; rfl) (ne_above hf (g :: f₁ :: pre))
    | @step _ rest post =>
      cases ht
      exact absurd (ht'.trans (List.append_assoc ..).symm) (ne_above hf (post ++ pre))
    | @shut _ rest calls g =>
      cases ht
      exact absurd (ht'.trans (List.append_assoc calls (g :: pre) _).symm) (ne_above hf (calls ++ g :: pre))
    | @back a' g rest g' hg =>
      cases ht'
      have hlen := congrArg List.length ht
      simp only [List.length_append, List.length_cons] at hlen
      obtain rfl : pre = [] := List.eq_nil_of_length_eq_zero (by omega)
      cases ht
      exact Or.inr (Or.inr ⟨a', rfl⟩)
    | panic message =>
      cases ht'
      exact Or.inl ⟨message, rfl⟩

namespace Machine

variable {p : Policy} {m m' : Machine} {l : Label} {i : Nat} {t pre below : Thread} {f : Frame} {a : Answer}

theorem eq_of_setThread (hi : i < m.threads.length) (h : m' = m.setThread i t)
    (ht' : m'.threads[i]? = some (.answer a :: below)) : t = .answer a :: below := by
  rw [h, setThread, List.getElem?_set_self hi] at ht'
  exact Option.some.inj ht'

/-- A shutdown that returns by a step of its own has come upon a deadline that the clock does not reach. -/
theorem panicked_of_step (hf : f.drains = true) (hi : i < m.threads.length) (hs : Step p m i f below m')
    (ht' : m'.threads[i]? = some (.answer a :: below)) : a = .panicked clockPanic := by
  cases hs with
  | overruns =>
    obtain ⟨heq, -⟩ := List.cons.inj (eq_of_setThread hi rfl ht')
    cases heq
    rfl
  | silences | polls | drains | resumes => cases eq_of_setThread hi rfl ht'
  | _ => cases hf

/-- A shutdown that returns when it is answered has been told who is running, and it has waited for nobody or
until its deadline. -/
theorem drained_of_answer {a' : Answer} (hi : i < m.threads.length) (hs : Step p m i (.answer a') (f :: below) m')
    (ht' : m'.threads[i]? = some (.answer a :: below)) :
    ∃ timeout deadline found, a' = .ids found ∧ f = .drained timeout deadline ∧
      (found = [] ∧ a = .done ∨
        found ≠ [] ∧ deadline ≤ m.now ∧ a = .refused (.shutdownTimeout timeout found.length)) := by
  cases hs with
  | drained =>
    cases eq_of_setThread hi rfl ht'
    exact ⟨_, _, [], rfl, rfl, Or.inl ⟨rfl, rfl⟩⟩
  | @late timeout deadline id ids _ late =>
    cases eq_of_setThread hi rfl ht'
    exact ⟨timeout, deadline, id :: ids, rfl, rfl, Or.inr ⟨by simp, late, rfl⟩⟩
  | told | silenced | rests => cases eq_of_setThread hi rfl ht'

/-- What a shutdown comes back with: a panic, or the answer that its last scan leads to. -/
theorem shutdown_returns (ht : m.threads[i]? = some (pre ++ f :: below)) (hf : f.drains = true)
    (hnext : m.next? p l = some m') (ht' : m'.threads[i]? = some (.answer a :: below)) :
    (∃ message, a = .panicked message) ∨
      ∃ timeout deadline found, pre = [.answer (.ids found)] ∧ f = .drained timeout deadline ∧
        (found = [] ∧ a = .done ∨
          found ≠ [] ∧ deadline ≤ m.now ∧ a = .refused (.shutdownTimeout timeout found.length)) := by
  have hi : i < m.threads.length := (List.getElem?_eq_some_iff.mp ht).1
  have hl : l.thread? = some i := by
    refine Decidable.byContradiction fun hl => ?_
    rw [(turn_of_next? hnext).thread_same hl ht] at ht'
    exact Thread.ne_above hf pre (Option.some.inj ht').symm
  obtain ⟨t, t', ht₁, ht₁', goes⟩ := (turn_of_next? hnext).thread_goes hl
  obtain rfl : pre ++ f :: below = t := Option.some.inj (ht.symm.trans ht₁)
  obtain rfl : .answer a :: below = t' := Option.some.inj (ht'.symm.trans ht₁')
  rcases goes.returns hf with hpanic | rfl | ⟨a', rfl⟩
  · exact Or.inl hpanic
  · have hdriven : f.driven = true := by cases f <;> first | rfl | cases hf
    obtain ⟨-, hs⟩ := eq_step hnext hl ht (Or.inl hdriven)
    exact Or.inl ⟨_, panicked_of_step hf hi hs ht'⟩
  · have hopen : f.isOpen = false := by cases f <;> first | rfl | cases hf
    obtain ⟨-, hs⟩ := eq_step hnext hl ht (Or.inr ⟨a', f, below, rfl, rfl, hopen⟩)
    obtain ⟨timeout, deadline, found, rfl, hf', hdone⟩ := drained_of_answer hi hs ht'
    exact Or.inr ⟨timeout, deadline, found, rfl, hf', hdone⟩

end Machine

namespace Watch

variable {p : Policy} {w : Watch} {m m' : Machine} {l : Label} {i : Nat} {below : Thread} {timeout : Duration}
  {deadline : Instant}

/-- The scan that a shutdown goes on with, and its notes. -/
theorem Phase.of_scanned {a : Answer} (h : w.Phase m [.answer a, .drained timeout deadline]) :
    ∃ found, a = .ids found ∧ w.Polls m timeout deadline ∧ (w.scans = 1 ∨ w.Late m) ∧ w.Counts m found ∧
      (w.counted = [] → w.running = []) := by
  generalize ht : [Frame.answer a, .drained timeout deadline] = t at h
  cases h with
  | idle h => exact absurd (h (.drained timeout deadline) (by rw [← ht]; rfl)) (by simp [Frame.drains])
  | cancelling pre heq =>
    have hlast := congrArg List.getLast? (ht.trans heq)
    simp at hlast
  | scanned polls first counts running =>
    cases ht
    exact ⟨_, rfl, polls, first, counts, running⟩
  | _ => cases ht

theorem Phase.of_polls (h : w.Phase m [.drain timeout deadline]) :
    w.Polls m timeout deadline ∧ (w.scans = 0 ∨ w.Late m) := by
  generalize ht : [Frame.drain timeout deadline] = t at h
  cases h with
  | idle h => exact absurd (h (.drain timeout deadline) (by rw [← ht]; rfl)) (by simp [Frame.drains])
  | cancelling pre heq =>
    have hlast := congrArg List.getLast? (ht.trans heq)
    simp at hlast
  | polls polls first => cases ht; exact ⟨polls, first⟩
  | _ => cases ht

theorem Phase.of_rests {wake : Instant} (h : w.Phase m [.rest timeout deadline wake]) : w.Late m := by
  generalize ht : [Frame.rest timeout deadline wake] = t at h
  cases h with
  | idle h => exact absurd (h (.rest timeout deadline wake) (by rw [← ht]; rfl)) (by simp [Frame.drains])
  | cancelling pre heq =>
    have hlast := congrArg List.getLast? (ht.trans heq)
    simp at hlast
  | rests polls late => cases ht; exact late
  | _ => cases ht

end Watch

/-! ## A shutdown on its own -/

/-- The thread `i` alone goes on, its hook returning at once: time stands still, nothing is registered or
evicted, and the map is as free to read as it was. -/
structure Alone (p : Policy) (i d : Nat) (w : Watch) (m : Machine) (w' : Watch) (m' : Machine) : Prop where
  run : ∃ steps, Watched i d w m steps w' m' ∧ ∀ x ∈ steps, x = (p, .step i) ∨ x = (p, .hookReturns i)
  now : m'.now = m.now
  entries : m'.entries.length = m.entries.length
  tracked : m'.tracked = m.tracked
  reads : m.canRead = true → m'.canRead = true

namespace Alone

variable {p : Policy} {i d : Nat} {w w' w'' : Watch} {m m' m'' : Machine} {l : Label} {pre post below : Thread}

theorem refl : Alone p i d w m w m where
  run := ⟨[], .nil, by simp⟩
  now := rfl
  entries := rfl
  tracked := rfl
  reads := id

theorem trans (h : Alone p i d w m w' m') (h' : Alone p i d w' m' w'' m'') : Alone p i d w m w'' m'' where
  run := by
    obtain ⟨steps, hrun, hsteps⟩ := h.run
    obtain ⟨steps', hrun', hsteps'⟩ := h'.run
    exact ⟨steps ++ steps', hrun.trans hrun', fun x hx => (List.mem_append.mp hx).elim (hsteps x) (hsteps' x)⟩
  now := h'.now.trans h.now
  entries := h'.entries.trans h.entries
  tracked := h'.tracked.trans h.tracked
  reads := h'.reads ∘ h.reads

/-- One step, by which the innermost frames `pre` become `post`. -/
theorem go (pre post : Thread) (hl : l = .step i ∨ l = .hookReturns i) (hnext : m.next? p l = some m')
    (ht : m.threads[i]? = some (pre ++ below)) (hthr : m'.threads = m.threads.set i (post ++ below))
    (hpost : ∀ f ∈ post, f.writes = false) (hnow : m'.now = m.now)
    (hent : m'.entries.length = m.entries.length) (htr : m'.tracked = m.tracked) :
    Alone p i d w m (w.after i d m l) m' ∧ m'.threads[i]? = some (post ++ below) := by
  have hi : i < m.threads.length := (List.getElem?_eq_some_iff.mp ht).1
  have hthr' : m'.threads[i]? = some (post ++ below) := by rw [hthr, List.getElem?_set_self hi]
  refine ⟨⟨⟨[] ++ [(p, l)], .snoc .nil hnext, fun x hx => ?_⟩, hnow, hent, htr, fun hr => ?_⟩, hthr'⟩
  · obtain rfl : x = (p, l) := by simpa using hx
    exact hl.imp (congrArg _) (congrArg _)
  · rw [Machine.canRead_iff] at hr ⊢
    intro t hmem f hf
    rw [hthr] at hmem
    rcases List.mem_or_eq_of_mem_set hmem with hmem | rfl
    · exact hr t hmem f hf
    · rcases List.mem_append.mp hf with hf | hf
      · exact hpost f hf
      · exact hr _ (List.mem_of_getElem? ht) f (List.mem_append_right _ hf)

/-- A step of the shutdown by which its frames `f :: pre` become `post`, and which is noted as `w'`. -/
theorem step {f : Frame} (pre post : Thread) (ht : m.threads[i]? = some (f :: pre ++ below))
    (hs : Step p m i f (pre ++ below) m') (hw : w.note m (f :: pre) = w')
    (hthr : m'.threads = m.threads.set i (post ++ below)) (hpost : ∀ f ∈ post, f.writes = false)
    (hnow : m'.now = m.now) (hent : m'.entries.length = m.entries.length) (htr : m'.tracked = m.tracked) :
    Alone p i below.length w m w' m' ∧ m'.threads[i]? = some (post ++ below) := by
  have hnext : m.next? p (.step i) = some m' := Machine.next?_of_next (.step ht hs)
  have h := go (w := w) (d := below.length) (f :: pre) post (Or.inl rfl) hnext ht hthr hpost hnow hent htr
  rw [Watch.after_step ht, hw] at h
  exact h

/-- Such a step that changes nothing else. -/
theorem set {f : Frame} (pre post : Thread) (ht : m.threads[i]? = some (f :: pre ++ below))
    (hs : Step p m i f (pre ++ below) (m.setThread i (post ++ below)))
    (hw : w.note m (f :: pre) = w') (hpost : ∀ f ∈ post, f.writes = false) :
    ∃ m', Alone p i below.length w m w' m' ∧ m'.threads[i]? = some (post ++ below) ∧ m'.entries = m.entries := by
  obtain ⟨h, ht'⟩ := step pre post ht hs hw rfl hpost rfl rfl rfl
  exact ⟨_, h, ht', rfl⟩

end Alone

section

variable {p : Policy} {i : Nat} {w : Watch} {m : Machine} {below : Thread} {timeout : Duration}
  {ids : List String}

/-- The cancel of a shutdown is answered. -/
theorem Alone.answered {a : Answer} (ht : m.threads[i]? = some ([.answer a, .silencing timeout ids] ++ below)) :
    ∃ m', Alone p i below.length w m w m' ∧ m'.threads[i]? = some ([.silencing timeout ids] ++ below) := by
  obtain ⟨m₁, h₁, ht₁, -⟩ := Alone.set (p := p) (w := w) [.silencing timeout ids] [.silencing timeout ids] ht
    .silenced rfl (by simp [Frame.writes])
  exact ⟨m₁, h₁, ht₁⟩

/-- The hook is told of a cancelled entry. -/
theorem Alone.notified {k : Key} {s : Status} {a : Answer}
    (ht : m.threads[i]? = some ([.notify k s, .answer a, .silencing timeout ids] ++ below)) :
    ∃ m', Alone p i below.length w m w m' ∧
      m'.threads[i]? = some ([.answer a, .silencing timeout ids] ++ below) := by
  cases hh : m.hook with
  | none =>
    obtain ⟨m₁, h₁, ht₁, -⟩ := Alone.set (p := p) (w := w) [.answer a, .silencing timeout ids]
      [.answer a, .silencing timeout ids] ht (.skips hh) rfl (by simp [Frame.writes])
    exact ⟨m₁, h₁, ht₁⟩
  | some h =>
    obtain ⟨m₁, h₁, ht₁, -⟩ := Alone.set (p := p) (w := w) [.answer a, .silencing timeout ids]
      [.hook h k s, .answer a, .silencing timeout ids] ht (.notifies hh) rfl (by simp [Frame.writes])
    have hnext : m₁.next? p (.hookReturns i) =
        some (m₁.setThread i ([.answer a, .silencing timeout ids] ++ below)) :=
      Machine.next?_of_next (.hookReturns ht₁)
    obtain ⟨h₂, ht₂⟩ := Alone.go (w := w) (d := below.length) [.hook h k s, .answer a, .silencing timeout ids]
      [.answer a, .silencing timeout ids] (Or.inr rfl) hnext ht₁ rfl (by simp [Frame.writes]) rfl rfl rfl
    exact ⟨_, h₁.trans h₂, ht₂⟩

/-- A shutdown cancels the entry that it has found. -/
theorem Alone.latched {k : Key} {e : Entry} (he : m.entry? k = some e)
    (ht : m.threads[i]? = some ([.latch k, .silencing timeout ids] ++ below)) :
    ∃ m', Alone p i below.length w m w m' ∧ m'.threads[i]? = some ([.silencing timeout ids] ++ below) := by
  cases hc : e.cancel m.now (p.clock m.now) with
  | mk e' latch =>
    obtain ⟨h₁, ht₁⟩ := Alone.step (w := w) [.silencing timeout ids]
      (latch.notice k .cancelled ++ [.answer .done, .silencing timeout ids]) ht (.latches he hc) rfl
      (by simp [Machine.setThread, Machine.setEntry]) (by simp [Frame.writes, or_imp, forall_and]) rfl
      (Machine.length_setEntry ..) rfl
    cases latch with
    | refused | held =>
      obtain ⟨m', h₂, ht₂⟩ := Alone.answered (p := p) (w := w) ht₁
      exact ⟨m', h₁.trans h₂, ht₂⟩
    | notify =>
      obtain ⟨m₂, h₂, ht₂⟩ := Alone.notified (p := p) (w := w) ht₁
      obtain ⟨m₃, h₃, ht₃⟩ := Alone.answered (p := p) (w := w) ht₂
      exact ⟨m₃, (h₁.trans h₂).trans h₃, ht₃⟩

/-- A shutdown cancels the next id. -/
theorem Alone.cancelled {id : String} (hr : m.canRead = true) (hnamed : ∀ x ∈ m.tracked, x.2 < m.entries.length)
    (ht : m.threads[i]? = some ([.silencing timeout (id :: ids)] ++ below)) :
    ∃ m', Alone p i below.length w m w m' ∧ m'.threads[i]? = some ([.silencing timeout ids] ++ below) := by
  obtain ⟨m₁, h₁, ht₁, -⟩ := Alone.set (p := p) (w := w) [] [.cancel id, .silencing timeout ids] ht .silences
    rfl (by simp [Frame.writes])
  have hr₁ := h₁.reads hr
  cases hid : m₁.find? id with
  | none =>
    obtain ⟨m₂, h₂, ht₂, -⟩ := Alone.set (p := p) (w := w) [.silencing timeout ids]
      [.answer (.refused (.notFound id)), .silencing timeout ids] ht₁ (.cancelsNone hr₁ hid) rfl
      (by simp [Frame.writes])
    obtain ⟨m₃, h₃, ht₃⟩ := Alone.answered (p := p) (w := w) ht₂
    exact ⟨m₃, (h₁.trans h₂).trans h₃, ht₃⟩
  | some k =>
    obtain ⟨m₂, h₂, ht₂, hent⟩ := Alone.set (p := p) (w := w) [.silencing timeout ids]
      [.latch k, .silencing timeout ids] ht₁ (.cancels hr₁ hid) rfl (by simp [Frame.writes])
    have hlt : k < m₂.entries.length := by
      rw [hent, h₁.entries]
      exact hnamed (id, k) (h₁.tracked ▸ Machine.mem_of_find? hid)
    obtain ⟨m₃, h₃, ht₃⟩ := Alone.latched (p := p) (w := w) (List.getElem?_eq_getElem hlt) ht₂
    exact ⟨m₃, (h₁.trans h₂).trans h₃, ht₃⟩

/-- A shutdown cancels what it has listed and begins to poll. -/
theorem Alone.silenced {deadline : Instant} (hr : m.canRead = true)
    (hnamed : ∀ x ∈ m.tracked, x.2 < m.entries.length) (hd : Instant.after? m.now timeout = some deadline)
    (ht : m.threads[i]? = some ([.silencing timeout ids] ++ below)) :
    ∃ w' m', Alone p i below.length w m w' m' ∧ w'.registered = w.registered ∧
      m'.threads[i]? = some ([.drain timeout deadline] ++ below) := by
  induction ids generalizing m with
  | nil =>
    obtain ⟨m₁, h₁, ht₁, -⟩ := Alone.set (p := p) (w := w) [] [.drain timeout deadline] ht
      (.polls hd) rfl (by simp [Frame.writes])
    exact ⟨_, m₁, h₁, rfl, ht₁⟩
  | cons id ids ih =>
    obtain ⟨m₁, h₁, ht₁⟩ := Alone.cancelled (p := p) (w := w) hr hnamed ht
    have hnamed₁ : ∀ x ∈ m₁.tracked, x.2 < m₁.entries.length := by rw [h₁.tracked, h₁.entries]; exact hnamed
    obtain ⟨w', m', h₂, hw, ht₂⟩ := ih (h₁.reads hr) hnamed₁ (by rw [h₁.now]; exact hd) ht₁
    exact ⟨w', m', h₁.trans h₂, hw, ht₂⟩

/-- A scan that finds nothing running. -/
theorem Alone.scanned {deadline : Instant} {todo : List Key} (hnone : ∀ e ∈ m.entries, e.status ≠ .running)
    (ht : m.threads[i]? = some ([.scanning todo [], .drained timeout deadline] ++ below)) :
    ∃ w' m', Alone p i below.length w m w' m' ∧ w'.scans = w.scans ∧
      m'.threads[i]? = some ([.answer (.ids []), .drained timeout deadline] ++ below) := by
  induction todo generalizing m w with
  | nil =>
    obtain ⟨m₁, h₁, ht₁, -⟩ := Alone.set (p := p) (w := w) [.drained timeout deadline]
      [.answer (.ids []), .drained timeout deadline] ht .lists rfl (by simp [Frame.writes])
    exact ⟨_, m₁, h₁, rfl, ht₁⟩
  | cons k todo ih =>
    have hfound : [] ++ ((m.entry? k).toList.filter (·.status = .running)).map (·.id) = [] := by
      cases he : m.entry? k with
      | none => rfl
      | some e => simp [hnone e (Machine.entry?_mem he)]
    have hs : Step p m i (.scanning (k :: todo) []) ([.drained timeout deadline] ++ below) _ := .looks
    rw [hfound] at hs
    obtain ⟨m₁, h₁, ht₁, hent⟩ := Alone.set (w := w) [.drained timeout deadline]
      [.scanning todo [], .drained timeout deadline] ht hs rfl (by simp [Frame.writes])
    obtain ⟨w', m', h₂, hw, ht₂⟩ := ih (hent ▸ hnone) ht₁
    exact ⟨w', m', h₁.trans h₂, hw, ht₂⟩

/-- A shutdown polls and finds nothing running. -/
theorem Alone.drained {deadline : Instant} (hr : m.canRead = true) (hnone : ∀ e ∈ m.entries, e.status ≠ .running)
    (ht : m.threads[i]? = some ([.drain timeout deadline] ++ below)) :
    ∃ w' m', Alone p i below.length w m w' m' ∧ w'.scans = w.scans + 1 ∧
      m'.threads[i]? = some ([.answer .done] ++ below) := by
  obtain ⟨m₁, h₁, ht₁, hent₁⟩ := Alone.set (p := p) (w := w) [] [.listRunning, .drained timeout deadline] ht
    .drains rfl (by simp [Frame.writes])
  have hr₁ := h₁.reads hr
  obtain ⟨m₂, h₂, ht₂, hent₂⟩ := Alone.set (p := p) (w := w) [.drained timeout deadline]
    [.scanning (p.visit m₁.keys) [], .drained timeout deadline] ht₁ (.scans hr₁) rfl (by simp [Frame.writes])
  obtain ⟨w₃, m₃, h₃, hw, ht₃⟩ := Alone.scanned (p := p) (by rw [hent₂, hent₁]; exact hnone) ht₂
  obtain ⟨m₄, h₄, ht₄, -⟩ := Alone.set (p := p) (w := w₃) [.drained timeout deadline] [.answer .done] ht₃ .drained
    rfl (by simp [Frame.writes])
  exact ⟨w₃, m₄, ((h₁.trans h₂).trans h₃).trans h₄, hw, ht₄⟩

end

/-! ## What a shutdown does -/

/-- A thread that has the map to itself can go on. -/
theorem Machine.Locked.writer_goes {m : Machine} (h : m.Locked) (hr : m.canRead = false) (p : Policy) :
    ∃ j m', m.next? p (.step j) = some m' := by
  have holds {f : Frame} (hf : f.writes = true) : f.holds = true := by rw [Frame.holds, hf, Bool.true_or]
  obtain ⟨j, f, rest, hj, hw⟩ := h.exists_head (fun _ => holds) fun hall => by
    rw [canRead_iff.mpr hall] at hr
    cases hr
  obtain ⟨m', -, step, -⟩ := holder_goes p hj (holds hw)
  exact ⟨j, m', step⟩

/-- What a shutdown may come back with, going by its notes. -/
inductive Watch.Returns (w : Watch) (m : Machine) : Answer → Prop where
  /-- Its last scan has found nothing running, and nothing was when it ended. -/
  | done (counted : w.counted = []) (running : w.running = []) : Returns w m .done
  /-- Its time has passed, and its last scan has found running what was registered after the snapshot. -/
  | timeout {timeout : Duration} {remaining : Nat} {start : Instant} (some_left : 1 ≤ remaining)
      (remaining_eq : remaining = w.counted.length) (once : w.counted.Nodup)
      (late : ∀ k ∈ w.counted, w.registered ≤ k ∧ k < m.entries.length) (began : w.polling = some start)
      (elapsed : start + timeout.nanos ≤ m.now) : Returns w m (.refused (.shutdownTimeout timeout remaining))
  /-- Its hook or its clock has panicked. -/
  | panicked (message : String) : Returns w m (.panicked message)

/-- What holds of a shutdown of thread `i` over the frames `below`, going by its notes. -/
structure Watch.Drains (w : Watch) (m : Machine) (i : Nat) (below : Thread) : Prop where
  /-- When it polls, all that was registered before its snapshot is finished. -/
  silenced : ∀ timeout deadline, m.threads[i]? = some (.drain timeout deadline :: below) →
    ∀ k < w.registered, m.isFinished k = true
  returns : ∀ p l m' pre f a, m.threads[i]? = some (pre ++ f :: below) → f.drains = true →
    m.next? p l = some m' → m'.threads[i]? = some (.answer a :: below) → w.Returns m a
  /-- If nothing has been registered since the snapshot, it does not rest, and it is done after one scan. -/
  prompt : m.entries.length = w.registered →
    (∀ timeout deadline wake, m.threads[i]? ≠ some (.rest timeout deadline wake :: below)) ∧
    ∀ p l m' pre f a, m.threads[i]? = some (pre ++ f :: below) → f.drains = true →
      m.next? p l = some m' → m'.threads[i]? = some (.answer a :: below) →
      (a = .done ∧ w.scans = 1) ∨ ∃ message, a = .panicked message
  /-- Nor does it need more than its own steps to be done, once it may read the map. -/
  alone : ∀ p timeout, p.Fair → m.entries.length = w.registered →
    ((∃ ids deadline, m.threads[i]? = some (.silencing timeout ids :: below) ∧
        Instant.after? m.now timeout = some deadline) ∨
      ∃ deadline, m.threads[i]? = some (.drain timeout deadline :: below)) →
    (m.canRead = false ∧ ∃ j m', m.next? p (.step j) = some m') ∨
    ∃ w' m', Alone p i below.length w m w' m' ∧ m'.threads[i]? = some (.answer .done :: below) ∧ w'.scans = 1

section

variable {i : Nat} {w : Watch} {m₀ m : Machine} {steps : List (Policy × Label)} {below : Thread}

/-- What is over `below` is in the phase that the notes say. -/
theorem Watched.phase_of (h : Watched i below.length {} m₀ steps w m) (h₀ : m₀.Initial)
    (hp : ∀ x ∈ steps, x.1.Fair) (pre : Thread) (ht : m.threads[i]? = some (pre ++ below)) : w.Phase m pre := by
  have hphase := h.phase h₀ hp
  rwa [Machine.above, ht, Option.getD_some, Thread.above_append] at hphase

/-- A shutdown that polls while nothing has been registered since its snapshot is done by itself. -/
theorem Watched.drained (h : Watched i below.length {} m₀ steps w m) (h₀ : m₀.Initial)
    (hp : ∀ x ∈ steps, x.1.Fair) (hsame : m.entries.length = w.registered) (hr : m.canRead = true) (p : Policy)
    {timeout : Duration} {deadline : Instant} (ht : m.threads[i]? = some (.drain timeout deadline :: below)) :
    ∃ w' m', Alone p i below.length w m w' m' ∧ m'.threads[i]? = some (.answer .done :: below) ∧
      w'.scans = 1 := by
  obtain ⟨es, hrun⟩ := h.run
  obtain ⟨hpolls, first⟩ := (h.phase_of h₀ hp [.drain timeout deadline] ht).of_polls
  have hfirst : w.scans = 0 := first.resolve_right (by rw [Watch.Late, hsame]; exact Nat.lt_irrefl _)
  have hnone : ∀ e ∈ m.entries, e.status ≠ .running := by
    intro e he hrunning
    obtain ⟨k, hk⟩ := List.getElem?_of_mem he
    have hlt : k < m.entries.length := (List.getElem?_eq_some_iff.mp hk).1
    have hle := hpolls.owed.le_of_isRunning (Machine.isRunning_iff.mpr ⟨e, hk, hrunning⟩)
    omega
  obtain ⟨w', m', halone, hw, ht'⟩ := Alone.drained (p := p) (w := w) hr hnone ht
  exact ⟨w', m', halone, ht', by rw [hw, hfirst]⟩

/-- Over every interleaving, whatever the executor and the hooks do: when a shutdown polls, nothing is left
of what was registered before its snapshot; if it is done, nothing was running; if it gives up, it is after
its time, and for the sake of entries that were registered since. If none was, it is done at once. -/
theorem shutdown_drains (h₀ : m₀.Initial) (h : Watched i below.length {} m₀ steps w m)
    (hp : ∀ x ∈ steps, x.1.Fair) : w.Drains m i below := by
  obtain ⟨es, hrun⟩ := h.run
  have hm := hrun.sound h₀.sound
  have hi := hrun.indexed h₀
  have phase := h.phase_of h₀ hp
  constructor
  · intro timeout deadline ht k hk
    exact (phase [_] ht).of_polls.1.owed.isFinished hm hk
  · intro p l m' pre f a ht hf hnext ht'
    rcases Machine.shutdown_returns ht hf hnext ht' with
      ⟨message, rfl⟩ | ⟨timeout, deadline, found, rfl, rfl, ha⟩
    · exact .panicked message
    obtain ⟨found', heq, hpolls, -, hcounts, hrunning⟩ := (phase [_, _] ht).of_scanned
    cases heq
    have hfound := hcounts.found
    rcases ha with ⟨rfl, rfl⟩ | ⟨hne, helapsed, rfl⟩
    · have hnone : w.counted = [] := List.eq_nil_of_length_eq_zero hfound.symm
      exact .done hnone (hrunning hnone)
    · obtain ⟨start, hstart, rfl⟩ := hpolls.began
      exact .timeout (List.length_pos_iff.mpr hne) hfound hcounts.once hcounts.late hstart helapsed
  · intro hsame
    have notLate : ¬w.Late m := by rw [Watch.Late, hsame]; exact Nat.lt_irrefl _
    refine ⟨fun timeout deadline wake ht => notLate (phase [_] ht).of_rests, ?_⟩
    intro p l m' pre f a ht hf hnext ht'
    rcases Machine.shutdown_returns ht hf hnext ht' with hpanic | ⟨timeout, deadline, found, rfl, rfl, ha⟩
    · exact Or.inr hpanic
    obtain ⟨found', heq, -, first, hcounts, -⟩ := (phase [_, _] ht).of_scanned
    cases heq
    rcases ha with ⟨-, rfl⟩ | ⟨hne, -, -⟩
    · exact Or.inl ⟨rfl, first.resolve_right notLate⟩
    · obtain ⟨id, ids, rfl⟩ := List.exists_cons_of_ne_nil hne
      exact absurd hcounts.isLate notLate
  · intro p timeout hfair hsame hat
    cases hr : m.canRead with
    | false => exact Or.inl ⟨rfl, (hrun.locked h₀).writer_goes hr p⟩
    | true =>
      refine Or.inr ?_
      rcases hat with ⟨ids, deadline, ht, hd⟩ | ⟨deadline, ht⟩
      · have hnamed : ∀ x ∈ m.tracked, x.2 < m.entries.length := fun x hx =>
          hi.keys_lt x.2 (List.mem_map_of_mem hx)
        obtain ⟨w₁, m₁, halone, hw, ht₁⟩ := Alone.silenced (p := p) (w := w) hr hnamed hd ht
        obtain ⟨steps₁, hrun₁, hsteps₁⟩ := halone.run
        have hp₁ : ∀ x ∈ steps ++ steps₁, x.1.Fair := by
          intro x hx
          rcases List.mem_append.mp hx with hx | hx
          · exact hp x hx
          · rcases hsteps₁ x hx with rfl | rfl <;> exact hfair
        obtain ⟨w₂, m₂, halone₂, ht₂, hscans⟩ := (h.trans hrun₁).drained h₀ hp₁
          (by rw [halone.entries, hw, hsame]) (halone.reads hr) p ht₁
        exact ⟨w₂, m₂, halone.trans halone₂, ht₂, hscans⟩
      · exact h.drained h₀ hp hsame hr p ht

end

/-! ## A closed run -/

/-- The watch and the machine that the labels lead to under one policy, if all are possible. -/
def Machine.watch? (p : Policy) (i d : Nat) (w : Watch) (m : Machine) : List Label → Option (Watch × Machine)
  | [] => some (w, m)
  | l :: rest =>
    match m.next? p l with
    | none => none
    | some m' => m'.watch? p i d (w.after i d m l) rest

theorem Watched.of_watch? {p : Policy} {i d : Nat} (ls : List Label) {w w' : Watch} {m m' : Machine}
    (h : m.watch? p i d w ls = some (w', m')) : Watched i d w m (ls.map fun l => (p, l)) w' m' := by
  induction ls generalizing m w with
  | nil => cases h; exact .nil
  | cons l rest ih =>
    simp only [Machine.watch?] at h
    split at h
    · cases h
    · rename_i m₁ step
      exact (Watched.snoc .nil step).trans (ih h)

/-- A shutdown without time to wait, and a start that comes after its snapshot. -/
def lateStart : List Label :=
  [.call 0 (.plainStart "a"), .step 0, .step 0, .step 0, .step 0, .step 0, .take 0,
    .call 0 (.shutdown (some (Duration.ofSeconds 0))), .step 0, .step 0, .step 0, .step 0, .step 0,
    .call 1 (.plainStart "b"), .step 1, .step 1,
    .step 0, .step 0, .step 0, .step 0, .step 0, .step 0, .step 0, .step 0, .step 0, .step 0, .step 0]

theorem shutdown_drains_lateStart : ∃ w m m',
    Watched 0 0 {} twoCallers (lateStart.map fun l => ({}, l)) w m ∧ w.Drains m 0 [] ∧
    w.registered = 1 ∧ m.isFinished 0 = true ∧ w.counted = [1] ∧ m.next? {} (.step 0) = some m' ∧
    m'.threads[0]? = some [.answer (.refused (.shutdownTimeout (Duration.ofSeconds 0) 1))] := by
  have hp : ∀ x ∈ lateStart.map fun l => (({} : Policy), l), x.1.Fair := by
    intro x hx
    obtain ⟨l, -, rfl⟩ := List.mem_map.mp hx
    exact fun ks => List.Perm.refl ks
  have h := Watched.of_watch? (p := {}) (i := 0) (d := 0) lateStart (w := {}) (m := twoCallers) rfl
  exact ⟨_, _, _, h, shutdown_drains twoCallers_initial h hp, rfl, rfl, rfl, rfl, rfl⟩

end Overseer.Supervisor

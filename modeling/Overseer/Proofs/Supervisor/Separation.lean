import Overseer.Proofs.Supervisor.Frames
import Overseer.Proofs.Supervisor.Notices

/-!
# Entries that leave each other alone

A call or a run that works on an entry keeps its key, and an id may stand for another entry by then. Whatever
such a step does, it does to the entry that it is about: to its record, to what is held back and announced of it,
and to its notifications. All other entries stay as they are.

* `Frame.subject?`, `Machine.Concerns`: the entry that a step is about.
* `Move.apart`: a move changes an entry only if its thread is at a frame that is about it.
* `untouched`, `Run.untouched`: what a step, or a whole run, that is not about an entry leaves of it.
-/
namespace Overseer.Supervisor

/-- The entry that the next step of a frame is about. -/
def Frame.subject? : Frame → Option Key
  | .announce _ k | .spawn _ k | .latch k | .snapshot k | .check _ k | .run _ k | .executing _ k | .finish k _
  | .notify k _ | .hook _ k _ => some k
  | _ => none

/-- The step belongs to the entry: it is a step of a call or a run that works on it. -/
def Machine.Concerns (m : Machine) (l : Label) (k : Key) : Prop :=
  ∃ i f below, l.thread? = some i ∧ m.threads[i]? = some (f :: below) ∧ f.subject? = some k

section

variable {p : Policy} {m m' : Machine} {l : Label} {i : Nat} {k : Key} {e : Entry}

/-- A step belongs to one entry at most. -/
theorem Machine.Concerns.unique {k' : Key} (h : m.Concerns l k) (h' : m.Concerns l k') : k = k' := by
  obtain ⟨i, f, below, hl, ht, hf⟩ := h
  obtain ⟨j, g, rest, hl', ht', hg⟩ := h'
  obtain rfl : i = j := Option.some.inj (hl.symm.trans hl')
  cases ht.symm.trans ht'
  exact Option.some.inj (hf.symm.trans hg)

theorem Frame.key_of_observe {f : Frame} {ev : Event} (h : ev ∈ m.observeFrame p f) : f.subject? = some ev.key := by
  cases f with
  | latch | finish | snapshot | check =>
    simp only [Machine.observeFrame] at h
    split at h
    · rw [List.mem_singleton.mp h]; rfl
    · cases h
  | notify =>
    simp only [Machine.observeFrame] at h
    split at h
    · rw [List.mem_singleton.mp h]; rfl
    · rcases List.mem_pair.mp h with rfl | rfl <;> rfl
  | run => rw [List.mem_singleton.mp h]; rfl
  | _ => cases h

/-- What can be observed of a step is about the entry that it belongs to. -/
theorem Machine.concerns_of_observe {ev : Event} (h : ev ∈ m.observe p l) : m.Concerns l ev.key := by
  cases l with
  | step i =>
    simp only [observe] at h
    split at h
    · exact ⟨i, _, _, rfl, ‹_›, Frame.key_of_observe h⟩
    · cases h
  | hookReturns i | hookPanics i _ =>
    simp only [observe] at h
    split at h
    · rw [List.mem_singleton.mp h]
      exact ⟨i, _, _, rfl, ‹_›, rfl⟩
    · cases h
  | _ => cases h

/-- Frames in charge of others have no duties about the entry. -/
theorem Thread.duties_of_charge? {t : Thread} (h : ∀ f ∈ t, f.charge? ≠ some k) : duties k t = [] :=
  duties_eq_nil fun f hf => Frame.duty?_eq_none (h f hf)

theorem Latch.charge?_of_mem {latch : Latch} {key : Key} {s : Status} {f : Frame} (h : f ∈ latch.notice key s) :
    f.charge? = some key := by
  rw [(mem_notice.mp h).2]; rfl

/-- A stack that has gone on is not the one that it was. -/
theorem Latch.notice_ne {latch : Latch} {key : Key} {s : Status} {f : Frame} {below : Thread}
    (hf : f.tells? = none) : latch.notice key s ++ below ≠ f :: below := by
  unfold notice
  split
  · rintro heq
    cases heq
    cases hf
  · exact fun heq => List.cons_ne_self _ _ heq.symm

namespace Machine

/-- An entry and the duties about it are as they were, or a thread has gone on that was at a frame about it. -/
def Apart (k : Key) (e : Entry) (m m' : Machine) : Prop :=
  (m'.entry? k = some e ∧ m'.duties k = m.duties k) ∨ ∃ (i : Nat) (f : Frame) (below : Thread),
    m.threads[i]? = some (f :: below) ∧ m'.threads[i]? ≠ some (f :: below) ∧ f.subject? = some k

theorem Sound.duties_of_others {below : Thread} (hm : m.Sound) (pre post : Thread)
    (ht : m.threads[i]? = some (pre ++ below)) (hthr : m'.threads = m.threads.set i (post ++ below))
    (hpre : ∀ f ∈ pre, f.charge? ≠ some k) (hpost : ∀ f ∈ post, f.charge? ≠ some k) :
    m'.duties k = m.duties k := by
  rw [duties, hthr]
  refine duties_set_eq ht ?_ hm.settled
  rw [Thread.duties_append, Thread.duties_append, Thread.duties_of_charge? hpre, Thread.duties_of_charge? hpost]

/-- A thread goes on that was at a frame about the entry `key`, with that entry. -/
theorem Sound.apart {f : Frame} {below : Thread} {key : Key} (hm : m.Sound) (post : Thread)
    (ht : m.threads[i]? = some (f :: below)) (hthr : m'.threads = m.threads.set i (post ++ below))
    (hne : post ++ below ≠ f :: below) (hf : f.subject? = some key) (hpre : f.charge? = none ∨ f.charge? = some key)
    (hpost : ∀ g ∈ post, g.charge? = none ∨ g.charge? = some key) (hent : key ≠ k → m'.entry? k = some e) :
    Apart k e m m' := by
  by_cases hk : key = k
  · refine Or.inr ⟨i, f, below, ht, ?_, hk ▸ hf⟩
    rw [hthr, List.getElem?_set_self (List.getElem?_eq_some_iff.mp ht).1]
    exact fun heq => hne (Option.some.inj heq)
  · have others {g : Frame} (hg : g.charge? = none ∨ g.charge? = some key) : g.charge? ≠ some k := by
      rcases hg with hg | hg <;> simp [hg, hk]
    exact Or.inl ⟨hent hk, hm.duties_of_others [f] post ht hthr (by simpa using others hpre)
      fun g hg => others (hpost g hg)⟩

theorem entry?_of_set {key : Key} {e₁ : Entry} (hk : key ≠ k) (hent : m'.entries = m.entries.set key e₁)
    (he : m.entry? k = some e) : m'.entry? k = some e := by
  rw [entry?_eq, hent, List.getElem?_set_ne hk]
  exact he

end Machine

open Machine in
/-- A move leaves an entry and the duties about it as they are, or a thread goes on that was at a frame about it. -/
theorem Move.apart {es : List Event} (h : Move m es m') (hm : m.Sound) (hs : ∀ t ∈ m.threads, t.Stacked)
    (he : m.entry? k = some e) : Apart k e m m' := by
  have free {f : Frame} (hf : f.charge? = none) : ∀ g ∈ [f], g.charge? ≠ some k := by simp [hf]
  cases h with
  | outside => exact Or.inl ⟨he, rfl⟩
  | newThread => exact Or.inl ⟨he, by simp [duties, Thread.duties]⟩
  | pass pre post ht hpre hpost =>
    exact Or.inl ⟨he, hm.duties_of_others pre post ht rfl (fun f hf => by simp [hpre f hf]) (fun f hf => by simp [hpost f hf])⟩
  | @panic i f below message ht hf hb =>
    have hb := hb (hm.settled _ (List.mem_of_getElem? ht))
    refine Or.inl ⟨he, hm.duties_of_others [f] [.answer (.panicked message)] ht ?_ (free hf) (free rfl)⟩
    simp [setThread, panicked, unwound_of_handsOver hb]
  | @register i f below context entry ht hf =>
    have hlt : k < m.entries.length := entry?_lt he
    refine Or.inl ⟨?_, hm.duties_of_others [f] [_, _] ht rfl (free hf) ?_⟩
    · exact (List.getElem?_append_left hlt).trans he
    · have hne : m.entries.length ≠ k := Nat.ne_of_gt hlt
      simp [Frame.charge?, hne]
  | @announce i c key below e₁ ht he₁ =>
    refine hm.apart (e₁.held.toList.map (.notify key) ++ [.spawn c key]) ht ?_ ?_ rfl (Or.inr rfl) ?_ fun hk => entry?_of_set hk rfl he
    · simp [setThread, Machine.setEntry]
    · cases e₁.held <;> simp
    · cases e₁.held <;> simp [Frame.charge?]
  | @spawn i c key below ht =>
    -- the new thread has no duties
    have hset : (m.setThread i (.answer .done :: below)).duties k = m.duties k := by
      refine duties_set_eq ht ?_ hm.settled
      rw [Thread.duties_cons, Thread.duties_cons]
      rfl
    refine Or.inl ⟨he, ?_⟩
    rw [← hset]
    simp [duties, setThread, Thread.duties, Frame.duty?]
  | @cancel signals i key below e₁ e' latch now time ht he₁ hl =>
    refine hm.apart (latch.notice key .cancelled ++ [.answer .done]) ht ?_ ?_ rfl (Or.inl rfl) ?_ fun hk => entry?_of_set hk rfl he
    · simp [setThread, Machine.setEntry]
    · rw [List.append_assoc]
      unfold Latch.notice
      split <;> simp
    · intro f hf
      rcases List.mem_append.mp hf with hf | hf
      · exact Or.inr (Latch.charge?_of_mem hf)
      · rw [List.mem_singleton.mp hf]
        exact Or.inl rfl
  | @execute i c key below ht =>
    exact hm.apart [.executing c key] ht rfl (by simp) rfl (Or.inr rfl) (by simp [Frame.charge?]) fun _ => he
  | @outcome i c key below o ht =>
    exact hm.apart [.finish key o] ht rfl (by simp) rfl (Or.inr rfl) (by simp [Frame.charge?]) fun _ => he
  | @complete i key below e₁ e' latch now time o ht he₁ hl =>
    exact hm.apart (latch.notice key _) ht rfl (Latch.notice_ne rfl) rfl (Or.inr rfl)
      (fun f hf => Or.inr (Latch.charge?_of_mem hf)) fun hk => entry?_of_set hk rfl he
  | @skip i key status below ht =>
    exact hm.apart [] ht rfl (List.cons_ne_self _ _).symm rfl (Or.inr rfl) (by simp) fun _ => he
  | @notify i hook key status below ht =>
    exact hm.apart [.hook hook key status] ht rfl (by simp) rfl (Or.inr rfl) (by simp [Frame.charge?]) fun _ => he
  | @noted i hook key status below ht =>
    exact hm.apart [] ht rfl (List.cons_ne_self _ _).symm rfl (Or.inr rfl) (by simp) fun _ => he
  | @broken i hook key status below message ht =>
    by_cases hk : key = k
    · refine Or.inr ⟨i, _, below, ht, ?_, hk ▸ rfl⟩
      rw [getElem?_setThread ht]
      simp [panicked]
    · -- what the panic drops is the start that waits for this notification, or in charge of nothing
      obtain ⟨pre, hpre, hfree⟩ := Thread.dropped_by_hook (hs _ (List.mem_of_getElem? ht))
      refine Or.inl ⟨he, hm.duties_of_others (.hook hook key status :: pre) [.answer (.panicked message)]
        (by rw [ht, List.cons_append, ← hpre]) rfl (fun f hf => ?_) (free rfl)⟩
      rcases List.mem_cons.mp hf with rfl | hf
      · simpa [Frame.charge?] using hk
      · rcases hfree f hf with h | h <;> simp [h, hk]

open Machine in
/-- A step that does not belong to an entry changes nothing of it, does nothing about its notifications, and
nothing of it can be observed. -/
theorem untouched (hm : m.Sound) (hs : ∀ t ∈ m.threads, t.Stacked) (step : m.next? p l = some m')
    (he : m.entry? k = some e) (hnot : ¬m.Concerns l k) :
    m'.entry? k = some e ∧ m'.duties k = m.duties k ∧ ∀ ev ∈ m.observe p l, ev.key ≠ k := by
  have hquiet : ∀ ev ∈ m.observe p l, ev.key ≠ k := by
    rintro ev hev rfl
    exact hnot (concerns_of_observe hev)
  rcases (move_of_next? step).apart hm hs he with ⟨he', hd⟩ | ⟨i, f, below, ht, hne, hf⟩
  · exact ⟨he', hd, hquiet⟩
  · refine absurd ⟨i, f, below, ?_, ht, hf⟩ hnot
    exact Decidable.byContradiction fun hl => hne ((turn_of_next? step).thread_same hl ht)

/-- Over any further run in which no step belongs to an entry nothing happens to it. -/
theorem Run.untouched {m₀ : Machine} {steps steps' : List (Policy × Label)} {es es' : List Event}
    (h₀ : m₀.Initial) (h : Run m₀ steps es m) (h' : Run m steps' es' m') (he : m.entry? k = some e)
    (hnot : ∀ before p l after es₁ m₁, steps' = before ++ (p, l) :: after → Run m before es₁ m₁ →
      ¬m₁.Concerns l k) :
    m'.entry? k = some e ∧ m'.duties k = m.duties k ∧ ∀ ev ∈ es', ev.key ≠ k := by
  induction h' with
  | nil => exact ⟨he, rfl, by simp⟩
  | @snoc steps' es' m₁ m₂ p l run step ih =>
    obtain ⟨he₁, hd₁, hquiet₁⟩ := ih fun before p' l' after es₁ m₁ heq =>
      hnot before p' l' (after ++ [(p, l)]) es₁ m₁ (by rw [heq, List.append_assoc]; rfl)
    have hrun := h.trans run
    obtain ⟨he₂, hd₂, hquiet₂⟩ := Supervisor.untouched (hrun.sound h₀.sound) (hrun.ordered h₀).stacked step he₁
      (hnot _ p l [] _ _ rfl run)
    refine ⟨he₂, hd₂.trans hd₁, fun ev hev => ?_⟩
    exact (List.mem_append.mp hev).elim (hquiet₁ ev) (hquiet₂ ev)

end

end Overseer.Supervisor

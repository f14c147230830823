import Overseer.Proofs.Supervisor.Turns

/-!
# Whose context a run has

A start is given a context, and hands it on: to the frames in which it registers and announces its entry, to the
run that it sets off, and to the executor. Nothing else makes a context, and no frame changes the one that it has
been given.

* `Frame.given?`: the context of a frame.
* `given_of_next?`: over a step, every context was there before, or is that of a start called for.
-/
namespace Overseer.Supervisor

/-- The context that a frame has been given. -/
def Frame.given? : Frame → Option Context
  | .start c _ | .enroll c _ | .counting c _ _ _ | .announce c _ | .spawn c _ | .run c _ | .executing c _ => some c
  | _ => none

/-- Some frame has been given the context. -/
def Machine.Holds (m : Machine) (c : Context) : Prop := ∃ f ∈ m.frames, f.given? = some c

section

variable {p : Policy} {m m' : Machine} {l : Label} {i : Nat} {f : Frame} {below : Thread} {c : Context}

namespace Machine

/-- A thread goes on, and no frame that is new has a context that the others did not have. -/
theorem holds_go (pre post : Thread) (ht : m.threads[i]? = some (pre ++ below))
    (hthr : m'.threads = m.threads.set i (post ++ below))
    (hpost : ∀ g ∈ post, g.given? = none ∨ ∃ f ∈ pre, g.given? = f.given?) (h : m'.Holds c) : m.Holds c := by
  obtain ⟨g, hg, hc⟩ := h
  rcases mem_frames_go pre post ht hthr hg with hg | hg
  · rcases hpost g hg with hnone | ⟨f, hf, heq⟩
    · rw [hnone] at hc
      cases hc
    · exact ⟨f, mem_frames ht (List.mem_append_left _ hf), heq ▸ hc⟩
  · exact ⟨g, hg, hc⟩

theorem holds_panic {message : String} (ht : m.threads[i]? = some (f :: below))
    (hthr : m'.threads = m.threads.set i (panicked message below)) (h : m'.Holds c) : m.Holds c := by
  obtain ⟨pre, hpre⟩ := unwound_suffix below
  exact holds_go (f :: pre) [.answer (.panicked message)] (by rw [ht, List.cons_append, ← hpre]) hthr
    (by simp [Frame.given?]) h

end Machine

open Machine in
/-- A frame hands its context on, or lets go of it. -/
theorem Step.holds (h : Step p m i f below m') (ht : m.threads[i]? = some (f :: below)) (hc : m'.Holds c) :
    m.Holds c := by
  cases h with
  | invalid | begins | tracked | claims | counts | full | cancelsNone | cancels | asksNone | asks | shows | waitsNone
  | waits | ended | sleeps | wakes | scans | looks | lists | sweeps | evicts | spares | swept | polls | resumes | runs
  | notifies => exact holds_go [_] [_] ht rfl (by simp [Frame.given?]) hc
  | enrolls | admits | shuts | silences | drains => exact holds_go [_] [_, _] ht rfl (by simp [Frame.given?]) hc
  | told | silenced | drained | late | rests => exact holds_go [_, _] [_] ht rfl (by simp [Frame.given?]) hc
  | overflows | overruns => exact holds_panic ht rfl hc
  | @announces given k e =>
    exact holds_go [_] (e.held.toList.map (.notify k) ++ [.spawn given k]) ht (by simp [setThread, setEntry])
      (by simp [Frame.given?, or_imp, forall_and]) hc
  | spawns =>
    obtain ⟨g, hg, hc⟩ := hc
    simp only [frames, List.flatten_append, List.mem_append, List.flatten_cons, List.flatten_nil,
      List.append_nil, List.mem_singleton] at hg
    rcases hg with hg | rfl
    · have hg : g ∈ (m.setThread i (.answer .done :: below)).frames := hg
      exact holds_go [_] [.answer .done] ht rfl (by simp [Frame.given?]) ⟨g, hg, hc⟩
    · exact ⟨_, mem_frames ht List.mem_cons_self, hc⟩
  | @latches k _ _ latch =>
    exact holds_go [_] (latch.notice k .cancelled ++ [.answer .done]) ht (by simp [setThread, setEntry])
      (by simp [Frame.given?, or_imp, forall_and]) hc
  | @finishes k _ _ _ latch => exact holds_go [_] (latch.notice k _) ht rfl (by simp [Frame.given?]) hc
  | skips => exact holds_go [_] [] ht rfl (by simp) hc

namespace Machine

/-- The surroundings make a call. -/
theorem holds_of_call {t : Thread} (ht : m.threads[i]? = some t) (hcall : f.isCall = true)
    (h : (m.setThread i (f :: t)).Holds c) : m.Holds c ∨ ∃ parent, f = .start c parent := by
  obtain ⟨g, hg, hc⟩ := h
  have ht : m.threads[i]? = some ([] ++ t) := ht
  rcases mem_frames_go [] [f] ht rfl hg with hg | hg
  · rw [List.mem_singleton.mp hg] at hc
    cases f with
    | start => cases hc; exact Or.inr ⟨_, rfl⟩
    | enroll | counting | announce | spawn | run | executing => cases hcall
    | _ => cases hc
  · exact Or.inl ⟨g, hg, hc⟩

/-- Over a step, a context was there before, or it is that of a start that is called for. -/
theorem given_of_next? (hnext : m.next? p l = some m') (h : m'.Holds c) :
    m.Holds c ∨ ∃ i parent, l = .call i (.start c parent) := by
  cases next?_eq_some_iff.mp hnext with
  | step ht step => exact Or.inl (step.holds ht h)
  | @call i f t isCall ht hands =>
    obtain hold | ⟨parent, rfl⟩ := holds_of_call ht isCall h
    · exact Or.inl hold
    · exact Or.inr ⟨i, parent, rfl⟩
  | take ht | hookReturns ht | giveUp ht => exact Or.inl (holds_go [_] [] ht rfl (by simp) h)
  | hookPanics ht => exact Or.inl (holds_panic ht rfl h)
  | executorReturns ht => exact Or.inl (holds_go [_] [_] ht rfl (by simp [Frame.given?]) h)
  | newThread =>
    obtain ⟨g, hg, hc⟩ := h
    exact Or.inl ⟨g, by simpa [frames] using hg, hc⟩
  | tick | newToken | derive | raise | setHook => exact Or.inl h

end Machine

end

end Overseer.Supervisor

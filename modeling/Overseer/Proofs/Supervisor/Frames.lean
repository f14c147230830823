import Mathlib.Data.List.Chain
import Overseer.Proofs.Supervisor.Map

/-!
# Where frames come from, and what sits upon them

A frame in charge of an entry comes from the frame before it in the life of that entry: a start announces
what it has registered, spawns what it has announced, and so on up to the outcome of the run. And a start
that waits for a notification has that notification upon it and nothing else, so that a panic which goes
through a stack drops nothing of another call.

* `Frame.Arises`, `Move.arises`: where a frame comes from that is there after a move.
* `Thread.Stacked`: what sits upon what.
* `Machine.Ordered`, `Run.ordered`: the stacks of a run, and what its frames say of their entries.
-/
namespace Overseer.Supervisor

section

variable {m m' : Machine} {i : Nat} {f : Frame}

/-! ## Origins -/

/-- Where a frame comes from that is there after a move from `m` to `m'`. -/
inductive Frame.Arises (m m' : Machine) : Frame → Prop where
  | old {f : Frame} (h : f ∈ m.frames) : Arises m m' f
  | free {f : Frame} (h : f.charge? = none) : Arises m m' f
  | greeting : Arises m m' (.notify m.entries.length .running)
  | announce {c : Context} {e : Entry} (new : m'.entry? m.entries.length = some e) (id : e.id = c.id) :
      Arises m m' (.announce c m.entries.length)
  | spawn {c : Context} {k : Key} (h : .announce c k ∈ m.frames) : Arises m m' (.spawn c k)
  | run {c : Context} {k : Key} (h : .spawn c k ∈ m.frames) : Arises m m' (.run c k)
  | executing {c : Context} {k : Key} (h : .run c k ∈ m.frames) : Arises m m' (.executing c k)
  | finish {i : Nat} {c : Context} {k : Key} {o : Outcome} {below : Thread}
      (ht : m.threads[i]? = some (.executing c k :: below))
      (ht' : m'.threads[i]? = some (.finish k o :: below)) : Arises m m' (.finish k o)
  | report {k : Key} {e : Entry} (he : m'.entry? k = some e) (terminal : e.status.isTerminal = true) :
      Arises m m' (.notify k e.status)
  | hook {h k : Nat} {s : Status} (hf : .notify k s ∈ m.frames) : Arises m m' (.hook h k s)

theorem Frame.Arises.of_notice {k : Key} {e e' : Entry} {s : Status} {l : Latch}
    (hlat : Entry.Latching e e' s l) (hs : s.isTerminal = true) (he : m'.entry? k = some e')
    (hf : f ∈ l.notice k s) : f.Arises m m' := by
  unfold Latch.notice at hf
  split at hf
  · rename_i hl
    subst hl
    obtain rfl := List.mem_singleton.mp hf
    cases hlat with
    | notify _ _ _ _ _ status => exact status ▸ .report he (status ▸ hs)
  · cases hf

namespace Machine

theorem getElem?_setThread {t : Thread} (ht : m.threads[i]? = some t) (t' : Thread) :
    (m.setThread i t').threads[i]? = some t' :=
  List.getElem?_set_self (List.getElem?_eq_some_iff.mp ht).1

theorem getElem?_register {t : Thread} (ht : m.threads[i]? = some t) (c : Context) (e : Entry) (below : Thread) :
    (m.register i c e below).threads[i]? =
      some (.notify m.entries.length .running :: .announce c m.entries.length :: below) :=
  List.getElem?_set_self (List.getElem?_eq_some_iff.mp ht).1

theorem entry?_setEntry_self {k : Key} {e e' : Entry} (h : m.entry? k = some e) :
    Machine.entry? (m.setEntry k e') k = some e' :=
  List.getElem?_set_self (entry?_lt h)

theorem entry?_register_self (m : Machine) (i : Nat) (context : Context) (entry : Entry) (below : Thread) :
    Machine.entry? (m.register i context entry below) m.entries.length = some entry := by
  simp [entry?_eq, register, setThread]

end Machine

open Machine in
theorem Move.arises {es : List Event} (h : Move m es m') (hm : m.Sound) (hf : f ∈ m'.frames) :
    f.Arises m m' := by
  have goOn {i : Nat} {below : Thread} (pre post : Thread) (ht : m.threads[i]? = some (pre ++ below))
      (hthr : m'.threads = m.threads.set i (post ++ below)) (hpost : ∀ g ∈ post, g.Arises m m') :
      f.Arises m m' :=
    (mem_frames_go pre post ht hthr hf).elim (hpost f) .old
  cases h with
  | outside => exact .old hf
  | newThread => exact .old (by simpa [frames] using hf)
  | pass pre post ht hpre hpost => exact goOn pre post ht rfl fun g hg => .free (hpost g hg)
  | @panic i f' below message ht hf' hs =>
    have hb := hs (hm.settled _ (List.mem_of_getElem? ht))
    exact goOn [f'] [.answer (.panicked message)] ht
      (by simp [setThread, panicked, unwound_of_handsOver hb]) (by simpa using .free rfl)
  | @register i f' below context entry ht hf' he =>
    have hid := (he (hm.settled _ (List.mem_of_getElem? ht))).2
    have hnew := entry?_register_self m i context entry below
    refine goOn [f'] [_, _] ht rfl fun g hg => ?_
    rcases List.mem_pair.mp hg with rfl | rfl
    · exact .greeting
    · exact .announce hnew hid
  | @announce i context key below e ht he =>
    have hold := mem_frames ht List.mem_cons_self
    refine goOn [_] (e.held.toList.map (.notify key) ++ [.spawn context key]) ht
      (by simp [setThread, Machine.setEntry]) fun g hg => ?_
    rcases List.mem_append.mp hg with hg | hg
    · obtain ⟨s, hs, rfl⟩ := List.mem_map.mp hg
      obtain ⟨-, hnone⟩ | ⟨hterm, hheld⟩ := hm.entries e (entry?_mem he)
      · rw [hnone] at hs; cases hs
      · rw [hheld s (Option.mem_toList.mp hs)]
        exact .report (e := e.announce.1) (entry?_setEntry_self he) hterm
    · rw [List.mem_singleton.mp hg]; exact .spawn hold
  | @spawn i context key below ht =>
    have hold := mem_frames ht List.mem_cons_self
    rw [frames, List.flatten_append] at hf
    rcases List.mem_append.mp hf with hf | hf
    · have hf : f ∈ (m.setThread i (.answer .done :: below)).frames := hf
      rcases mem_frames_go [_] [.answer .done] ht rfl hf with hf | hf
      · rw [List.mem_singleton.mp hf]; exact .free rfl
      · exact .old hf
    · obtain rfl : f = .run context key := by simpa using hf
      exact .run hold
  | @cancel signals i key below e e' latch now time ht he hl =>
    have hlat := Entry.latching_cancel (hm.entries e (entry?_mem he)) hl
    refine goOn [_] (latch.notice key .cancelled ++ [.answer .done]) ht
      (by simp [setThread, Machine.setEntry]) fun g hg => ?_
    rcases List.mem_append.mp hg with hg | hg
    · exact .of_notice hlat rfl (entry?_setEntry_self (m := { m with signals }) he) hg
    · rw [List.mem_singleton.mp hg]; exact .free rfl
  | @execute i context key below ht =>
    have hold := mem_frames ht List.mem_cons_self
    exact goOn [_] [.executing context key] ht rfl (by simpa using Frame.Arises.executing hold)
  | @outcome i context key below o ht =>
    have hnew := getElem?_setThread ht (.finish key o :: below)
    exact goOn [_] [.finish key o] ht rfl (by simpa using Frame.Arises.finish ht hnew)
  | @complete i key below e e' latch now time o ht he hl =>
    have hterm := Entry.recordOf_isTerminal e now time o
    have hlat := Entry.latching_complete (hm.entries e (entry?_mem he)) hl
    exact goOn [_] (latch.notice key _) ht rfl
      fun g hg => .of_notice hlat hterm (entry?_setEntry_self he) hg
  | skip ht => exact goOn [_] [] ht rfl (by simp)
  | @notify i h key status below ht =>
    have hold := mem_frames ht List.mem_cons_self
    exact goOn [_] [.hook h key status] ht rfl (by simpa using Frame.Arises.hook hold)
  | noted ht => exact goOn [_] [] ht rfl (by simp)
  | @broken i h key status below message ht =>
    obtain ⟨pre, hpre⟩ := unwound_suffix below
    exact goOn (.hook h key status :: pre) [.answer (.panicked message)]
      (by rw [ht, List.cons_append, ← hpre]) rfl (by simpa using .free rfl)

end

/-! ## Stacks -/

/-- The notification that a frame makes. -/
def Frame.tells? : Frame → Option (Key × Status)
  | .notify k s | .hook _ k s => some (k, s)
  | _ => none

/-- What may sit upon a frame. A start that waits for a notification has that notification upon it; a
notification or a run that has not begun, and a run that is over, have nothing upon them. -/
def Frame.Upon (f : Frame) : Frame → Prop
  | .announce _ k => f.tells? = some (k, .running)
  | .spawn _ k => ∃ s, s ≠ .running ∧ f.tells? = some (k, s)
  | .notify _ _ | .run _ _ | .finish _ _ => False
  | _ => True

/-- Anything may sit upon the frame. -/
def Frame.bears : Frame → Bool
  | .announce _ _ | .spawn _ _ | .notify _ _ | .run _ _ | .finish _ _ => false
  | _ => true

/-- Every frame of a stack may sit upon the one below it. -/
def Thread.Stacked (t : Thread) : Prop := t.IsChain Frame.Upon

/-- Anything may sit upon a stack. -/
def Thread.Bears (t : Thread) : Prop := ∀ g ∈ t.head?, g.bears = true

theorem Frame.upon_of_bears {f g : Frame} (h : g.bears = true) : f.Upon g := by
  cases g <;> trivial

theorem Frame.Upon.bears {f g : Frame} (h : f.Upon g) (hf : f.tells? = none) : g.bears = true := by
  cases g <;> simp_all [Upon, Frame.bears]

theorem Frame.bears_of_charge? {f : Frame} (h : f.charge? = none) : f.bears = true := by
  cases f <;> first | rfl | cases h

/-- What bears anything and is not open is in charge of no entry. -/
theorem Frame.charge?_of_bears {f : Frame} (hb : f.bears = true) (ho : f.isOpen = false) : f.charge? = none := by
  cases f <;> first | rfl | contradiction

theorem Frame.tells?_of_charge? {f : Frame} (h : f.charge? = none) : f.tells? = none := by
  cases f <;> first | rfl | cases h

namespace Thread

variable {t pre post below : Thread} {f : Frame}

theorem HandsOver.bears (h : HandsOver t) : Bears t := by
  intro g hg
  cases t with
  | nil => cases hg
  | cons g' rest =>
    obtain rfl : g' = g := by simpa using hg
    cases g' <;> first | rfl | cases h

theorem stacked_cons : Stacked (f :: below) ↔ (∀ g ∈ below.head?, f.Upon g) ∧ Stacked below :=
  List.isChain_cons

/-- What sits below a frame that makes no notification bears anything. -/
theorem Stacked.bears_below (h : Stacked (f :: below)) (hf : f.tells? = none) : Bears below :=
  fun g hg => ((stacked_cons.mp h).1 g hg).bears hf

theorem Stacked.put (h : Stacked (pre ++ below)) (hb : Bears below) (hp : Stacked post) :
    Stacked (post ++ below) :=
  List.isChain_append.mpr
    ⟨hp, List.IsChain.right_of_append h, fun _ _ g hg => Frame.upon_of_bears (hb g hg)⟩

/-- Frames in charge of no entry may sit upon each other. -/
theorem stacked_of_charge? (h : ∀ g ∈ post, g.charge? = none) : Stacked post := by
  induction post with
  | nil => exact .nil
  | cons f rest ih =>
    refine stacked_cons.mpr ⟨fun g hg => Frame.upon_of_bears (Frame.bears_of_charge? ?_),
      ih fun g hg => h g (List.mem_cons_of_mem _ hg)⟩
    exact h g (List.mem_cons_of_mem _ (List.mem_of_mem_head? hg))

/-- What a panic leaves of a stack is the surroundings' own. -/
theorem handsOver_unwound (t : Thread) : HandsOver (Machine.unwound t) := by
  induction t with
  | nil => trivial
  | cons f rest ih =>
    unfold Machine.unwound
    split
    · assumption
    · exact ih

/-- A panic that comes upon what bears anything drops no frame in charge of an entry. -/
theorem dropped_free (hs : Stacked t) (hb : Bears t) :
    ∃ pre, t = pre ++ Machine.unwound t ∧ ∀ f ∈ pre, f.charge? = none := by
  induction t with
  | nil => exact ⟨[], rfl, by simp⟩
  | cons f rest ih =>
    unfold Machine.unwound
    split
    · exact ⟨[], rfl, by simp⟩
    · rename_i ho
      have hf : f.charge? = none := Frame.charge?_of_bears (hb f rfl) (Bool.eq_false_iff.mpr ho)
      obtain ⟨pre, hpre, hfree⟩ := ih (stacked_cons.mp hs).2 (hs.bears_below (Frame.tells?_of_charge? hf))
      refine ⟨f :: pre, by rw [List.cons_append, ← hpre], fun g hg => ?_⟩
      rcases List.mem_cons.mp hg with rfl | hg
      · exact hf
      · exact hfree g hg

/-- A panic of a hook drops no frame in charge of another entry. -/
theorem dropped_by_hook {h k : Nat} {s : Status} (hs : Stacked (.hook h k s :: below)) :
    ∃ pre, below = pre ++ Machine.unwound below ∧ ∀ f ∈ pre, f.charge? = none ∨ f.charge? = some k := by
  obtain ⟨hupon, hs⟩ := stacked_cons.mp hs
  cases below with
  | nil => exact ⟨[], rfl, by simp⟩
  | cons g rest =>
    by_cases hg : g.bears = true
    · obtain ⟨pre, hpre, hfree⟩ := dropped_free hs fun g' hg' => by cases hg'; exact hg
      exact ⟨pre, hpre, fun f hf => Or.inl (hfree f hf)⟩
    -- the start that waits for this notification
    have start (htells : g.tells? = none) (hopen : g.isOpen ≠ true) (hcharge : g.charge? = some k) :
        ∃ pre, g :: rest = pre ++ Machine.unwound (g :: rest) ∧ ∀ f ∈ pre, f.charge? = none ∨ f.charge? = some k := by
      obtain ⟨pre, hpre, hfree⟩ := dropped_free (stacked_cons.mp hs).2 (hs.bears_below htells)
      refine ⟨g :: pre, by rw [Machine.unwound, if_neg hopen, List.cons_append, ← hpre], fun f hf => ?_⟩
      rcases List.mem_cons.mp hf with rfl | hf
      · exact Or.inr hcharge
      · exact Or.inl (hfree f hf)
    have hg' := hupon g rfl
    cases g with
    | announce c key => cases hg'; exact start rfl (by simp [Frame.isOpen]) rfl
    | spawn c key => obtain ⟨s', -, heq⟩ := hg'; cases heq; exact start rfl (by simp [Frame.isOpen]) rfl
    | notify | run | finish => cases hg'
    | _ => exact absurd rfl hg

theorem stacked_notice (l : Latch) (k : Key) (s : Status) : Stacked (l.notice k s) := by
  unfold Latch.notice
  split
  · exact .singleton _
  · exact .nil

end Thread

open Machine in
theorem Move.stacked {m m' : Machine} {es : List Event} (h : Move m es m') (hm : m.Sound)
    (hs : ∀ t ∈ m.threads, t.Stacked) : ∀ t ∈ m'.threads, t.Stacked := by
  have goOn {m' : Machine} {i : Nat} {below : Thread} (pre post : Thread)
      (ht : m.threads[i]? = some (pre ++ below)) (hthr : m'.threads = m.threads.set i (post ++ below))
      (hp : Thread.Stacked (pre ++ below) → Thread.Stacked (post ++ below)) :
      ∀ t ∈ m'.threads, t.Stacked := by
    intro t ht'
    rw [hthr] at ht'
    rcases List.mem_or_eq_of_mem_set ht' with ht' | rfl
    · exact hs t ht'
    · exact hp (hs _ (List.mem_of_getElem? ht))
  -- The innermost frame makes no notification, so what is below it bears whatever comes after it.
  have replace {m' : Machine} {i : Nat} {f : Frame} {below : Thread} (post : Thread)
      (ht : m.threads[i]? = some (f :: below)) (hthr : m'.threads = m.threads.set i (post ++ below))
      (hf : f.tells? = none) (hp : Thread.Stacked post) : ∀ t ∈ m'.threads, t.Stacked :=
    goOn [f] post ht hthr fun h =>
      Thread.Stacked.put h (Thread.Stacked.bears_below h hf) hp
  have append {t : Thread} (hm' : m'.threads = m.threads ++ [t]) (ht : t.Stacked) : ∀ t ∈ m'.threads, t.Stacked := by
    intro u hu
    rw [hm'] at hu
    rcases List.mem_append.mp hu with hu | hu
    · exact hs u hu
    · exact List.mem_singleton.mp hu ▸ ht
  cases h with
  | outside => exact hs
  | newThread => exact append rfl .nil
  | @pass pre post i below signals tracked es ht hpre hpost _ _ _ hcall =>
    refine goOn pre post ht rfl fun h => Thread.Stacked.put h ?_ (Thread.stacked_of_charge? hpost)
    rcases List.eq_nil_or_concat pre with rfl | ⟨pre, f, rfl⟩
    · exact (hcall rfl).bears
    · rw [List.concat_eq_append, List.append_assoc] at h
      have hf := hpre f (by simp)
      exact Thread.Stacked.bears_below (List.IsChain.right_of_append h) (Frame.tells?_of_charge? hf)
  | @panic i f below message ht hf hb =>
    have hb := hb (hm.settled _ (List.mem_of_getElem? ht))
    exact replace [.answer (.panicked message)] ht
      (by simp [setThread, panicked, unwound_of_handsOver hb]) (Frame.tells?_of_charge? hf) (.singleton _)
  | register ht hf =>
    exact replace [_, _] ht rfl (Frame.tells?_of_charge? hf) (.cons_cons rfl (.singleton _))
  | @announce i context key below e ht he =>
    refine replace (e.held.toList.map (.notify key) ++ [.spawn context key]) ht
      (by simp [setThread, Machine.setEntry]) rfl ?_
    cases hh : e.held with
    | none => exact .singleton _
    | some s =>
      refine .cons_cons ⟨s, ?_, rfl⟩ (.singleton _)
      obtain ⟨-, hnone⟩ | ⟨hterm, hheld⟩ := hm.entries e (entry?_mem he)
      · rw [hh] at hnone; cases hnone
      · rw [hheld s hh]; exact Status.isTerminal_ne_running hterm
  | @spawn i context key below ht =>
    intro t ht'
    rcases List.mem_append.mp ht' with ht' | ht'
    · have hset : ∀ t ∈ (m.setThread i (.answer .done :: below)).threads, t.Stacked :=
        replace [.answer .done] ht rfl rfl (.singleton _)
      exact hset t ht'
    · rw [List.mem_singleton.mp ht']; exact .singleton _
  | @cancel signals i key below e e' latch now time ht he hl =>
    refine replace (latch.notice key .cancelled ++ [.answer .done]) ht
      (by simp [setThread, Machine.setEntry]) rfl ?_
    unfold Latch.notice
    split
    · exact .cons_cons trivial (.singleton _)
    · exact .singleton _
  | execute ht => exact replace [_] ht rfl rfl (.singleton _)
  | outcome ht => exact replace [_] ht rfl rfl (.singleton _)
  | @complete i key below e e' latch now time o ht he hl =>
    exact replace (latch.notice key _) ht rfl rfl (Thread.stacked_notice ..)
  | skip ht => exact goOn [_] [] ht rfl fun h => (Thread.stacked_cons.mp h).2
  | @notify i hook key status below ht =>
    exact goOn [_] [.hook hook key status] ht rfl fun h => Thread.stacked_cons.mpr (Thread.stacked_cons.mp h :)
  | noted ht => exact goOn [_] [] ht rfl fun h => (Thread.stacked_cons.mp h).2
  | @broken i h key status below message ht =>
    obtain ⟨pre, hpre⟩ := unwound_suffix below
    refine goOn (.hook h key status :: pre) [.answer (.panicked message)]
      (by rw [ht, List.cons_append, ← hpre]) rfl fun h => ?_
    exact Thread.Stacked.put h (Thread.handsOver_unwound below).bears (.singleton _)

/-! ## Machines -/

/-- The context of a frame that sees to an entry, with that entry. -/
def Frame.context? : Frame → Option (Context × Key)
  | .announce c k | .spawn c k | .run c k | .executing c k => some (c, k)
  | _ => none

theorem Frame.context?_of_charge? {f : Frame} (h : f.charge? = none) : f.context? = none := by
  cases f <;> first | rfl | cases h

/-- What the stacks and the frames of a run are like: whoever tells of an end tells of an entry that is
finished, and whoever has a context for an entry has one with its id. -/
structure Machine.Ordered (m : Machine) : Prop where
  stacked : ∀ t ∈ m.threads, t.Stacked
  told : ∀ f ∈ m.frames, ∀ k s, f.tells? = some (k, s) → s ≠ .running → m.isFinished k = true
  named : ∀ f ∈ m.frames, ∀ c k, f.context? = some (c, k) → ∃ e, m.entry? k = some e ∧ e.id = c.id

namespace Machine

variable {m m' : Machine}

theorem isFinished_iff {k : Key} :
    m.isFinished k = true ↔ ∃ e, m.entry? k = some e ∧ e.status.isTerminal = true := by
  unfold isFinished
  cases m.entry? k <;> simp

theorem Initial.ordered (h : m.Initial) : m.Ordered where
  stacked t ht := by
    rcases h.threads t ht with rfl | ⟨f, -, rfl⟩
    · exact .nil
    · exact .singleton _
  told f hf k s hs := by
    rw [Frame.tells?_of_charge? (Frame.charge?_of_isCall (h.frames_isCall hf))] at hs; cases hs
  named f hf c k hc := by
    rw [Frame.context?_of_charge? (Frame.charge?_of_isCall (h.frames_isCall hf))] at hc; cases hc

theorem Ordered.of_next? {p : Policy} {l : Label} (h : m.Ordered) (hm : m.Sound)
    (hnext : m.next? p l = some m') : m'.Ordered where
  stacked := (move_of_next? hnext).stacked hm h.stacked
  told f hf k s hs hne := by
    -- What was finished stays so, and a new report is about an entry that has just been finished.
    have old {g : Frame} (hg : g ∈ m.frames) (hs : g.tells? = some (k, s)) : m'.isFinished k = true := by
      obtain ⟨e, he, ht⟩ := isFinished_iff.mp (h.told g hg k s hs hne)
      obtain ⟨e', he', -, hfin⟩ := (Run.snoc .nil hnext).persists hm he
      exact isFinished_iff.mpr ⟨e', he', by rw [Entry.status_eq_of_record (hfin ht).1]; exact ht⟩
    cases (move_of_next? hnext).arises hm hf with
    | old h' => exact old h' hs
    | free h' => rw [Frame.tells?_of_charge? h'] at hs; cases hs
    | greeting => cases hs; exact absurd rfl hne
    | report he ht => cases hs; exact isFinished_iff.mpr ⟨_, he, ht⟩
    | hook h' => exact old h' hs
    | _ => cases hs
  named f hf c k hc := by
    have old {g : Frame} (hg : g ∈ m.frames) (hc : g.context? = some (c, k)) :
        ∃ e, m'.entry? k = some e ∧ e.id = c.id := by
      obtain ⟨e, he, hid⟩ := h.named g hg c k hc
      obtain ⟨e', he', hid', -⟩ := (Run.snoc .nil hnext).persists hm he
      exact ⟨e', he', hid'.trans hid⟩
    cases (move_of_next? hnext).arises hm hf with
    | old h' => exact old h' hc
    | free h' => rw [Frame.context?_of_charge? h'] at hc; cases hc
    | announce new id => cases hc; exact ⟨_, new, id⟩
    | spawn h' => exact old h' hc
    | run h' => exact old h' hc
    | executing h' => exact old h' hc
    | _ => cases hc

end Machine

theorem Run.ordered {m₀ m : Machine} {steps : List (Policy × Label)} {es : List Event}
    (h : Run m₀ steps es m) (h₀ : m₀.Initial) : m.Ordered := by
  induction h with
  | nil => exact h₀.ordered
  | snoc run step ih => exact ih.of_next? (run.sound h₀.sound) step

end Overseer.Supervisor

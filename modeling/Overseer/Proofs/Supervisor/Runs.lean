import Mathlib.Data.List.Induction
import Overseer.Proofs.Supervisor.Moves

/-!
# Runs of the supervisor

A run is any sequence of steps that are possible one after the other, each under a policy of its own:
the handles of one supervisor share its entries and may differ in their settings. `Machine.Sound` is what
holds in every machine that a run leads to.

* `Entry.Latching`: what an attempt to latch a status does to an entry, be it the end of its run or a
  cancellation.
* `Run.sound`: every machine that a run leads to is sound.
-/
namespace Overseer.Supervisor

/-- Nothing has been started; some threads may be about to make their first call. -/
structure Machine.Initial (m : Machine) : Prop where
  entries : m.entries = []
  tracked : m.tracked = []
  threads : ∀ t ∈ m.threads, t = [] ∨ ∃ f : Frame, f.isCall = true ∧ t = [f]

/-- The steps from one machine to another, and the events on the way. -/
inductive Run (m : Machine) : List (Policy × Label) → List Event → Machine → Prop where
  | nil : Run m [] [] m
  | snoc {steps : List (Policy × Label)} {es : List Event} {m' m'' : Machine} {p : Policy} {l : Label}
      (run : Run m steps es m') (step : m'.next? p l = some m'') :
      Run m (steps ++ [(p, l)]) (es ++ m'.observe p l) m''

/-! ## Entries -/

theorem Status.isTerminal_ne_running {s : Status} (h : s.isTerminal = true) : s ≠ .running := by
  rintro rfl; cases h

namespace Entry

/-- Running with nothing done, or in a terminal state, which is what may be held back. -/
def Sound (e : Entry) : Prop :=
  (e.record = Record.running e.id ∧ e.held = none) ∨
    (e.status.isTerminal = true ∧ ∀ s, e.held = some s → s = e.status)

theorem Fresh.sound {e : Entry} (h : e.Fresh) : e.Sound := Or.inl ⟨h.1, h.2.2⟩

theorem status_of_record {e : Entry} (h : e.record = Record.running e.id) : e.status = .running := by
  simp [status, h, Record.running]

theorem Sound.running_or_terminal {e : Entry} (h : e.Sound) :
    (e.status = .running ∧ e.record = Record.running e.id ∧ e.held = none) ∨
      e.status.isTerminal = true := by
  rcases h with ⟨hr, hh⟩ | ⟨ht, -⟩
  · exact Or.inl ⟨status_of_record hr, hr, hh⟩
  · exact Or.inr ht

/-- What an attempt to latch `s` makes of an entry. -/
inductive Latching (e e' : Entry) (s : Status) : Latch → Prop where
  | refused (terminal : e.status.isTerminal = true) (same : e' = e) : Latching e e' s .refused
  | notify (running : e.status = .running) (announced : e.announced = true) (id : e'.id = e.id)
      (announced' : e'.announced = true) (held : e'.held = e.held) (status : e'.status = s) :
      Latching e e' s .notify
  | held (running : e.status = .running) (announced : e.announced = false) (id : e'.id = e.id)
      (announced' : e'.announced = false) (held : e'.held = some s) (status : e'.status = s) :
      Latching e e' s .held

theorem latching_latched {e : Entry} {r : Record} (hr : e.status = .running) :
    Latching e ({ e with record := r }.latched).1 r.status ({ e with record := r }.latched).2 := by
  unfold latched
  cases ha : e.announced
  · simp only [Bool.false_eq_true, if_false]; exact .held hr ha rfl rfl rfl rfl
  · simp only [if_true]; exact .notify hr ha rfl rfl rfl rfl

theorem settled_isTerminal (r : Record) : (settled r).status.isTerminal = true := by
  unfold settled
  split
  · assumption
  · rfl

theorem recordOf_isTerminal (e : Entry) (now : Instant) (time : Timestamp) (o : Outcome) :
    (e.recordOf now time o).status.isTerminal = true := by
  cases o with
  | returned r => exact settled_isTerminal r
  | rejected reason => rfl
  | panicked => rfl

theorem latching_complete {e e' : Entry} {r : Record} {latch : Latch} (hs : e.Sound)
    (h : e.complete r = (e', latch)) : Latching e e' r.status latch := by
  unfold complete at h
  rcases hs.running_or_terminal with ⟨hr, -, -⟩ | ht
  · rw [hr] at h
    simp only [Status.isTerminal, Bool.false_eq_true, if_false] at h
    have := latching_latched (r := r) hr
    rwa [h] at this
  · rw [if_pos ht] at h
    cases h; exact .refused ht rfl

theorem latching_cancel {e e' : Entry} {now : Instant} {time : Timestamp} {latch : Latch} (hs : e.Sound)
    (h : e.cancel now time = (e', latch)) : Latching e e' .cancelled latch := by
  unfold cancel at h
  rcases hs.running_or_terminal with ⟨hr, -, -⟩ | ht
  · rw [if_neg (by simpa using hr)] at h
    have := latching_latched (r := { e.record with
      status := .cancelled, error := "cancelled by supervisor", executionTime := now.since e.started,
      completedAt := some time }) hr
    rwa [h] at this
  · rw [if_pos (Status.isTerminal_ne_running ht)] at h
    cases h; exact .refused ht rfl

theorem Latching.sound {e e' : Entry} {s : Status} {latch : Latch} (h : Latching e e' s latch)
    (he : e.Sound) (ht : s.isTerminal = true) : e'.Sound := by
  cases h with
  | refused _ same => exact same ▸ he
  | notify hr _ _ _ hh hs =>
    have hn : e.held = none := by
      rcases he.running_or_terminal with ⟨-, -, hn⟩ | hx
      · exact hn
      · rw [hr] at hx; cases hx
    exact Or.inr ⟨hs ▸ ht, by simp [hh, hn]⟩
  | held _ _ _ _ hh hs => exact Or.inr ⟨hs ▸ ht, by simp [hh, hs]⟩

theorem sound_announce {e : Entry} (h : e.Sound) : e.announce.1.Sound := by
  rcases h with ⟨hr, -⟩ | ⟨ht, -⟩
  · exact Or.inl ⟨hr, rfl⟩
  · exact Or.inr ⟨ht, by simp [announce]⟩

end Entry

/-! ## Machines -/

namespace Machine

/-- What holds in every machine that a run leads to. -/
structure Sound (m : Machine) : Prop where
  entries : ∀ e ∈ m.entries, e.Sound
  settled : ∀ t ∈ m.threads, Thread.Settled t
  charged : ∀ t ∈ m.threads, ∀ f ∈ t, ∀ k, f.charge? = some k → k < m.entries.length

theorem Initial.sound {m : Machine} (h : m.Initial) : m.Sound where
  entries := by simp [h.entries]
  settled t ht := by
    rcases h.threads t ht with rfl | ⟨f, hf, rfl⟩
    · trivial
    · exact ⟨Frame.fits_of_isCall hf trivial, trivial⟩
  charged t ht f hf k hk := by
    rcases h.threads t ht with rfl | ⟨g, hg, rfl⟩
    · cases hf
    · rw [List.mem_singleton.mp hf, Frame.charge?_of_isCall hg] at hk; cases hk
variable {m m' : Machine}

theorem entry?_eq (m : Machine) (k : Key) : m.entry? k = m.entries[k]? := rfl

theorem entry?_mem {k : Key} {e : Entry} (h : m.entry? k = some e) : e ∈ m.entries :=
  List.mem_of_getElem? h

theorem entry?_lt {k : Key} {e : Entry} (h : m.entry? k = some e) : k < m.entries.length :=
  (List.getElem?_eq_some_iff.mp h).1

/-- The frames `pre` of a thread become `post`, and maybe an entry becomes another. -/
theorem Sound.goOn (h : m.Sound) (pre post : Thread) {i : Nat} {below : Thread}
    (ht : m.threads[i]? = some (pre ++ below)) (hthr : m'.threads = m.threads.set i (post ++ below))
    (hent : ∀ e ∈ m'.entries, e.Sound) (hlen : m.entries.length ≤ m'.entries.length)
    (hs : Thread.Settled (pre ++ below) → Thread.Settled (post ++ below))
    (hc : ∀ k ∈ post.filterMap Frame.charge?, k < m'.entries.length) : m'.Sound where
  entries := hent
  settled u hu := by
    rw [hthr] at hu
    rcases List.mem_or_eq_of_mem_set hu with hu | rfl
    · exact h.settled u hu
    · exact hs (h.settled _ (List.mem_of_getElem? ht))
  charged u hu f hf k hk := by
    rw [hthr] at hu
    have old {t : Thread} (ht : t ∈ m.threads) (hf : f ∈ t) : k < m'.entries.length :=
      Nat.lt_of_lt_of_le (h.charged t ht f hf k hk) hlen
    rcases List.mem_or_eq_of_mem_set hu with hu | rfl
    · exact old hu hf
    rcases List.mem_append.mp hf with hf | hf
    · exact hc k (List.mem_filterMap.mpr ⟨f, hf, hk⟩)
    · exact old (List.mem_of_getElem? ht) (List.mem_append_right _ hf)

theorem Sound.charged_head (h : m.Sound) {i : Nat} {f : Frame} {below : Thread} {k : Key}
    (ht : m.threads[i]? = some (f :: below)) (hf : f.charge? = some k) : k < m.entries.length :=
  h.charged _ (List.mem_of_getElem? ht) f List.mem_cons_self k hf

theorem Sound.setEntry (h : m.Sound) {k : Key} {e : Entry} (he : e.Sound) :
    ∀ e' ∈ (m.setEntry k e).entries, e'.Sound := by
  intro e' he'
  rcases List.mem_or_eq_of_mem_set he' with he' | rfl
  · exact h.entries e' he'
  · exact he

theorem length_setEntry (m : Machine) (k : Key) (e : Entry) :
    (m.setEntry k e).entries.length = m.entries.length := List.length_set

end Machine

theorem Frame.fits_notify {below : Thread} {k : Key} {s : Status} (h : s.isTerminal = true) :
    (Frame.notify k s).Fits below := by
  cases s <;> trivial

theorem Frame.fits_hook {below : Thread} {h k : Nat} {s : Status} :
    (Frame.hook h k s).Fits below ↔ (Frame.notify k s).Fits below := by
  cases s <;> exact Iff.rfl

theorem Thread.settled_notice {below : Thread} {l : Latch} {k : Key} {s : Status}
    (ht : s.isTerminal = true) (h : Thread.Settled below) : Thread.Settled (l.notice k s ++ below) := by
  unfold Latch.notice
  split
  · exact ⟨Frame.fits_notify ht, h⟩
  · exact h

theorem Latch.charge?_notice {l : Latch} {k : Key} {s : Status} :
    ∀ k' ∈ (l.notice k s).filterMap Frame.charge?, k' = k := by
  unfold notice
  split <;> simp [Frame.charge?]

namespace Machine

variable {m : Machine} {i : Nat} {k : Key} {c : Context} {e : Entry} {below : Thread}

theorem Sound.register {f : Frame} (hm : m.Sound) (ht : m.threads[i]? = some (f :: below))
    (fresh : e.Fresh) : (m.register i c e below).Sound := by
  refine hm.goOn [f] [.notify m.entries.length .running, .announce c m.entries.length] ht rfl
    (fun e' he' => ?_) (by simp [Machine.register, setThread])
    (fun h => ⟨⟨_, _, rfl⟩, trivial, h.2⟩) (by simp [Frame.charge?, Machine.register, setThread])
  rcases List.mem_append.mp he' with he' | he'
  · exact hm.entries e' he'
  · rw [List.mem_singleton.mp he']; exact fresh.sound

theorem Sound.announce (hm : m.Sound) (ht : m.threads[i]? = some (.announce c k :: below))
    (he : m.entry? k = some e) : ((m.setEntry k e.announce.1).setThread i
      (e.held.toList.map (.notify k) ++ .spawn c k :: below)).Sound := by
  have hsnd := hm.entries e (entry?_mem he)
  refine hm.goOn [.announce c k] (e.held.toList.map (.notify k) ++ [.spawn c k]) ht
    (by simp [setThread, Machine.setEntry]) (hm.setEntry (Entry.sound_announce hsnd))
    (Nat.le_of_eq (length_setEntry ..).symm) (fun h => ?_) ?_
  · cases hh : e.held with
    | none => exact ⟨trivial, h.2⟩
    | some s =>
      refine ⟨Frame.fits_notify ?_, trivial, h.2⟩
      rcases hsnd with ⟨-, hn⟩ | ⟨hterm, hs⟩
      · rw [hh] at hn; cases hn
      · rw [hs s hh]; exact hterm
  · have hlt := hm.charged_head ht rfl
    cases e.held <;> simpa [Frame.charge?, setThread, Machine.setEntry] using hlt

theorem Sound.spawn (hm : m.Sound) (ht : m.threads[i]? = some (.spawn c k :: below)) :
    Machine.Sound { m with threads := (m.threads.set i (.answer .done :: below)) ++ [[.run c k]] } := by
  have hlt := hm.charged_head ht rfl
  have hm' : (m.setThread i (.answer .done :: below)).Sound :=
    hm.goOn [.spawn c k] [.answer .done] ht rfl hm.entries (Nat.le_refl _)
      (fun h => ⟨trivial, h.2⟩) (by simp [Frame.charge?])
  refine ⟨hm.entries, fun t ht' => ?_, fun t ht' f hf k hk => ?_⟩ <;>
    rcases List.mem_append.mp ht' with ht' | ht'
  · exact hm'.settled t ht'
  · rw [List.mem_singleton.mp ht']; exact ⟨trivial, trivial⟩
  · exact hm'.charged t ht' f hf k hk
  · rw [List.mem_singleton.mp ht'] at hf
    rw [List.mem_singleton.mp hf] at hk
    cases hk; exact hlt

end Machine

open Machine in
/-- A move keeps a machine sound. -/
theorem Move.sound {m m' : Machine} {es : List Event} (h : Move m es m') (hm : m.Sound) : m'.Sound := by
  cases h with
  | outside => exact ⟨hm.entries, hm.settled, hm.charged⟩
  | newThread =>
    refine ⟨hm.entries, fun t ht => ?_, fun t ht f hf => ?_⟩ <;>
      rcases List.mem_append.mp ht with ht | ht
    · exact hm.settled t ht
    · rw [List.mem_singleton.mp ht]; trivial
    · exact hm.charged t ht f hf
    · rw [List.mem_singleton.mp ht] at hf; cases hf
  | pass pre post ht hpre hpost hs htr =>
    refine hm.goOn pre post ht rfl hm.entries (Nat.le_refl _) hs fun k hk => ?_
    obtain ⟨f, hf, hk⟩ := List.mem_filterMap.mp hk
    rw [hpost f hf] at hk; cases hk
  | @panic i f below message ht hf hs =>
    have hset := hm.settled _ (List.mem_of_getElem? ht)
    refine hm.goOn [f] [.answer (.panicked message)] ht ?_ hm.entries (Nat.le_refl _)
      (fun h => ⟨trivial, h.2⟩) (by simp [Frame.charge?])
    simp [setThread, panicked, unwound_of_handsOver (hs hset)]
  | register ht hf he => exact hm.register ht (he (hm.settled _ (List.mem_of_getElem? ht))).1
  | announce ht he => exact hm.announce ht he
  | spawn ht => exact hm.spawn ht
  | @cancel signals i key below e e' latch now time ht he hl =>
    have hlat := Entry.latching_cancel (hm.entries e (entry?_mem he)) hl
    refine hm.goOn [.latch key] (latch.notice key .cancelled ++ [.answer .done]) ht
      (by simp [setThread, Machine.setEntry])
      (hm.setEntry (hlat.sound (hm.entries e (entry?_mem he)) rfl))
      (Nat.le_of_eq (length_setEntry ..).symm) (fun h => ?_) fun k hk => ?_
    · rw [List.append_assoc]; exact Thread.settled_notice rfl ⟨trivial, h.2⟩
    · rw [Latch.charge?_notice (s := .cancelled) k (by simpa [Frame.charge?] using hk)]
      exact Nat.lt_of_lt_of_eq (entry?_lt he) (length_setEntry ..).symm
  | @execute i context key below ht =>
    exact hm.goOn [.run context key] [.executing context key] ht rfl hm.entries (Nat.le_refl _)
      (fun h => ⟨trivial, h.2⟩) (by simpa [Frame.charge?, setThread] using hm.charged_head ht rfl)
  | @outcome i context key below o ht =>
    exact hm.goOn [.executing context key] [.finish key o] ht rfl hm.entries (Nat.le_refl _)
      (fun h => ⟨trivial, h.2⟩) (by simpa [Frame.charge?, setThread] using hm.charged_head ht rfl)
  | @complete i key below e e' latch now time o ht he hl =>
    have hterm := Entry.recordOf_isTerminal e now time o
    have hlat := Entry.latching_complete (hm.entries e (entry?_mem he)) hl
    refine hm.goOn [.finish key o] (latch.notice key _) ht rfl
      (hm.setEntry (hlat.sound (hm.entries e (entry?_mem he)) hterm))
      (Nat.le_of_eq (length_setEntry ..).symm) (fun h => Thread.settled_notice hterm h.2) fun k hk => ?_
    rw [Latch.charge?_notice k hk]
    exact Nat.lt_of_lt_of_eq (entry?_lt he) (length_setEntry ..).symm
  | @skip i key status below ht =>
    exact hm.goOn [.notify key status] [] ht rfl hm.entries (Nat.le_refl _) (fun h => h.2) (by simp)
  | @notify i hook key status below ht =>
    exact hm.goOn [.notify key status] [.hook hook key status] ht rfl hm.entries (Nat.le_refl _)
      (fun h => ⟨Frame.fits_hook.mpr h.1, h.2⟩)
      (by simpa [Frame.charge?, setThread] using hm.charged_head ht rfl)
  | @noted i hook key status below ht =>
    exact hm.goOn [.hook hook key status] [] ht rfl hm.entries (Nat.le_refl _) (fun h => h.2) (by simp)
  | @broken i hook key status below message ht =>
    obtain ⟨pre, hpre⟩ := unwound_suffix below
    refine hm.goOn (.hook hook key status :: pre) [.answer (.panicked message)]
      (by rw [ht, List.cons_append, ← hpre]) rfl hm.entries (Nat.le_refl _) (fun h => ?_)
      (by simp [Frame.charge?])
    exact ⟨trivial, Thread.Settled.tail h.2⟩

theorem Run.sound {m m' : Machine} {steps : List (Policy × Label)} {es : List Event}
    (h : Run m steps es m') (hm : m.Sound) : m'.Sound := by
  induction h with
  | nil => exact hm
  | snoc _ step ih => exact (Machine.move_of_next? step).sound ih

theorem Run.trans {m m' m'' : Machine} {steps steps' : List (Policy × Label)} {es es' : List Event}
    (h : Run m steps es m') (h' : Run m' steps' es' m'') : Run m (steps ++ steps') (es ++ es') m'' := by
  induction h' with
  | nil => simpa using h
  | snoc _ step ih => rw [← List.append_assoc, ← List.append_assoc]; exact .snoc ih step

section

variable {m₀ m m' m₁ : Machine} {steps before rest : List (Policy × Label)} {es es' es₁ : List Event} {p : Policy}
  {l : Label}

theorem Run.concat_inv {all : List (Policy × Label)} (h : Run m₀ all es m) (hall : all = steps ++ [(p, l)]) :
    ∃ es₁ m₁, Run m₀ steps es₁ m₁ ∧ m₁.next? p l = some m ∧ es = es₁ ++ m₁.observe p l := by
  cases h with
  | nil => simp at hall
  | snoc run step =>
    obtain ⟨rfl, heq⟩ := List.append_inj' hall rfl
    cases heq
    exact ⟨_, _, run, step, rfl⟩

/-- The steps of a run say what it leads to. -/
theorem Run.unique (h : Run m₀ steps es m) (h' : Run m₀ steps es' m') : es = es' ∧ m = m' := by
  induction h generalizing es' m' with
  | nil =>
    generalize hall : ([] : List (Policy × Label)) = all at h'
    cases h' with
    | nil => exact ⟨rfl, rfl⟩
    | snoc => simp at hall
  | snoc run step ih =>
    obtain ⟨es₁, m₁, run', step', rfl⟩ := h'.concat_inv rfl
    obtain ⟨rfl, rfl⟩ := ih run'
    rw [step] at step'
    cases step'
    exact ⟨rfl, rfl⟩

/-- A run goes on from where its beginning leads to. -/
theorem Run.ahead (h : Run m₀ before es₁ m₁) (h' : Run m₀ (before ++ rest) es m) :
    ∃ es₂, Run m₁ rest es₂ m ∧ es = es₁ ++ es₂ := by
  induction rest using List.reverseRecOn generalizing es m with
  | nil =>
    rw [List.append_nil] at h'
    obtain ⟨rfl, rfl⟩ := h.unique h'
    exact ⟨[], .nil, (List.append_nil _).symm⟩
  | append_singleton rest x ih =>
    rw [← List.append_assoc] at h'
    obtain ⟨es', m', run, step, rfl⟩ := h'.concat_inv rfl
    obtain ⟨es₂, run₂, rfl⟩ := ih run
    exact ⟨_, run₂.snoc step, List.append_assoc ..⟩

end

/-- The events and the last machine of a run under one policy, if all its labels are possible. -/
def Machine.run? (p : Policy) (m : Machine) : List Label → Option (List Event × Machine)
  | [] => some ([], m)
  | l :: rest =>
    match m.next? p l with
    | none => none
    | some m' => (m'.run? p rest).map fun r => (m.observe p l ++ r.1, r.2)

theorem Run.of_run? (p : Policy) (ls : List Label) {m m' : Machine} {es : List Event}
    (h : m.run? p ls = some (es, m')) : Run m (ls.map fun l => (p, l)) es m' := by
  induction ls generalizing m es with
  | nil => cases h; exact .nil
  | cons l rest ih =>
    simp only [Machine.run?] at h
    split at h
    · cases h
    · rename_i m₁ step
      obtain ⟨⟨es₁, m₂⟩, hrest, heq⟩ := Option.map_eq_some_iff.mp h
      cases heq
      exact (Run.snoc .nil step).trans (ih hrest)

/-! ## Closed runs -/

/-- A supervisor at its beginning, with two threads for calls. -/
def twoCallers : Machine := { now := 0, threads := [[], []] }

theorem twoCallers_initial : twoCallers.Initial where
  entries := rfl
  tracked := rfl
  threads t ht := Or.inl (by simpa [twoCallers] using ht)

/-- A context that passes its checks. -/
def plainContext (id : String) : Context where
  id := id
  parentId := "parent"
  skill := "skill"
  allowedTools := none
  limits := {}
  history := []
  createdAt := default
  metadata := []

/-- A start of a context under a scope of its own. -/
def Frame.plainStart (id : String) : Frame := .start (plainContext id) ⟨⟨0, []⟩, none⟩

end Overseer.Supervisor

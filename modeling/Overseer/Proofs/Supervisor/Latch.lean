import Overseer.Proofs.Supervisor.Runs

/-!
# The record of an entry is written once

A record is that of a run that has just begun until one attempt to latch a status succeeds, be it the end
of the run or a cancellation; from then on nothing changes it. `Entry.Change` says what one move can do to
one entry, `History` what the log of a run can say of it.

* `record_latched_once`: over any run, the first attempt to latch a status of an entry succeeds, all
  others are refused, and whoever reads the record sees it as it began before that and as it ended after.
-/
namespace Overseer.Supervisor

/-- What a move that leaves the events `es` can make of the entry with the key `k`. -/
inductive Entry.Change (k : Key) (es : List Event) : Option Entry → Entry → Prop where
  | registered {e : Entry} (fresh : e.Fresh) (silent : es = []) : Change k es none e
  | kept {e e' : Entry} (id : e'.id = e.id) (record : e'.record = e.record)
      (untouched : ∀ l, .latched k l ∉ es) (read : ∀ r, .shown k r ∈ es → r = e.record) :
      Change k es (some e) e'
  | latching {e e' : Entry} {s : Status} {l : Latch} (attempt : Entry.Latching e e' s l)
      (terminal : s.isTerminal = true) (log : es = [.latched k l]) : Change k es (some e) e'

theorem Entry.Latching.id_eq {e e' : Entry} {s : Status} {l : Latch} (h : Latching e e' s l) :
    e'.id = e.id := by
  cases h with
  | refused _ same => rw [same]
  | notify _ _ id => exact id
  | held _ _ id => exact id

namespace Machine

theorem entry?_setEntry {m : Machine} {k k' : Key} {e e' : Entry}
    (h : Machine.entry? (m.setEntry k e) k' = some e') :
    (k' = k ∧ e' = e) ∨ (k' ≠ k ∧ m.entry? k' = some e') := by
  simp only [Machine.entry?_eq, setEntry, List.getElem?_set] at h
  by_cases hk : k = k'
  · rw [if_pos hk] at h
    split at h
    · cases h; exact Or.inl ⟨hk.symm, rfl⟩
    · cases h
  · rw [if_neg hk] at h; exact Or.inr ⟨fun h => hk h.symm, h⟩

theorem entry?_register {m : Machine} {i : Nat} {context : Context} {entry e' : Entry} {below : Thread}
    {k : Key} (h : Machine.entry? (m.register i context entry below) k = some e') :
    m.entry? k = some e' ∨ (k = m.entries.length ∧ m.entry? k = none ∧ e' = entry) := by
  simp only [Machine.entry?_eq, register, setThread] at h ⊢
  rcases Nat.lt_or_ge k m.entries.length with hk | hk
  · rw [List.getElem?_append_left hk] at h; exact Or.inl h
  · rw [List.getElem?_append_right hk, List.getElem?_singleton] at h
    split at h
    · rename_i hzero
      cases h
      exact Or.inr ⟨Nat.le_antisymm (Nat.sub_eq_zero_iff_le.mp hzero) hk, List.getElem?_eq_none hk, rfl⟩
    · cases h

theorem length_le_of_move {m m' : Machine} {es : List Event} (h : Move m es m') :
    m.entries.length ≤ m'.entries.length := by
  cases h with
  | register => simp [register, setThread]
  | announce => exact Nat.le_of_eq (length_setEntry ..).symm
  | cancel => exact Nat.le_of_eq (length_setEntry ..).symm
  | complete => exact Nat.le_of_eq (length_setEntry ..).symm
  | _ => exact Nat.le_refl _

end Machine

open Machine in
theorem Move.change {m m' : Machine} {es : List Event} (h : Move m es m') (hm : m.Sound) {k : Key}
    {e' : Entry} (he' : m'.entry? k = some e') : Entry.Change k es (m.entry? k) e' := by
  have kept (h : m.entry? k = some e') (hu : ∀ l, Event.latched k l ∉ es)
      (hr : ∀ r, Event.shown k r ∉ es) : Entry.Change k es (m.entry? k) e' := by
    rw [h]; exact .kept rfl rfl hu (fun r hr' => absurd hr' (hr r))
  cases h with
  | pass pre post ht hpre hpost hs htr hes =>
    have he : m.entry? k = some e' := he'
    rw [he]
    refine .kept rfl rfl (fun l hl => ?_) (fun r hr => ?_)
    · obtain ⟨_, _, _, heq⟩ := hes _ hl; cases heq
    · obtain ⟨_, e, hk, heq⟩ := hes _ hr
      cases heq; rw [he] at hk; cases hk; rfl
  | register ht hf he =>
    rcases entry?_register he' with h | ⟨-, h, rfl⟩
    · exact kept h (by simp) (by simp)
    · rw [h]; exact .registered (he (hm.settled _ (List.mem_of_getElem? ht))).1 rfl
  | announce ht he =>
    rcases entry?_setEntry he' with ⟨rfl, rfl⟩ | ⟨-, h⟩
    · rw [he]; exact .kept rfl rfl (by simp) (by simp)
    · exact kept h (by simp) (by simp)
  | cancel signals ht he hl =>
    rcases entry?_setEntry he' with ⟨rfl, rfl⟩ | ⟨hne, h⟩
    · rw [he]; exact .latching (Entry.latching_cancel (hm.entries _ (entry?_mem he)) hl) rfl rfl
    · exact kept h (by simp [hne]) (by simp)
  | complete ht he hl =>
    rcases entry?_setEntry he' with ⟨rfl, rfl⟩ | ⟨hne, h⟩
    · rw [he]
      exact .latching (Entry.latching_complete (hm.entries _ (entry?_mem he)) hl)
        (Entry.recordOf_isTerminal ..) rfl
    · exact kept h (by simp [hne]) (by simp)
  | _ => exact kept he' (by simp) (by simp)

/-! ## The log -/

/-- The entry an event is about. -/
def Event.key : Event → Key
  | .latched k _ | .shown k _ | .notified k _ | .noted k _ | .broken k _ | .executed k => k

open Machine in
theorem Move.key_lt {m m' : Machine} {es : List Event} (h : Move m es m') (hm : m.Sound) :
    ∀ ev ∈ es, ev.key < m.entries.length := by
  cases h with
  | pass pre post ht hpre hpost hs htr hes =>
    intro ev hev
    obtain ⟨k, e, hk, rfl⟩ := hes ev hev
    exact entry?_lt hk
  | cancel signals ht he hl => simpa [Event.key] using entry?_lt he
  | complete ht he hl => simpa [Event.key] using entry?_lt he
  | execute ht => simpa [Event.key] using hm.charged_head ht rfl
  | skip ht => simpa [Event.key] using hm.charged_head ht rfl
  | notify ht => simpa [Event.key] using hm.charged_head ht rfl
  | noted ht => simpa [Event.key] using hm.charged_head ht rfl
  | broken ht => simpa [Event.key] using hm.charged_head ht rfl
  | _ => simp

theorem Run.key_lt {m m' : Machine} {steps : List (Policy × Label)} {es : List Event}
    (h : Run m steps es m') (hm : m.Sound) : ∀ ev ∈ es, ev.key < m'.entries.length := by
  induction h with
  | nil => simp
  | snoc run step ih =>
    have move := Machine.move_of_next? step
    intro ev hev
    refine Nat.lt_of_lt_of_le ?_ (Machine.length_le_of_move move)
    rcases List.mem_append.mp hev with hev | hev
    · exact ih ev hev
    · exact move.key_lt (run.sound hm) ev hev

/-- What the log of a run says of the record of an entry with the key `k`: it is as it began as long as
nobody has tried to latch a status; the first attempt wins, and from then on the record is final. -/
inductive History (k : Key) (e : Entry) (es : List Event) : Prop where
  | running (record : e.record = Record.running e.id) (untouched : ∀ l, .latched k l ∉ es)
      (read : ∀ r, .shown k r ∈ es → r = Record.running e.id)
  | latched (before after : List Event) {l : Latch} (terminal : e.status.isTerminal = true)
      (log : es = before ++ .latched k l :: after) (won : l ≠ .refused)
      (untouched : ∀ l', .latched k l' ∉ before)
      (readBefore : ∀ r, .shown k r ∈ before → r = Record.running e.id)
      (refused : ∀ l', .latched k l' ∈ after → l' = .refused)
      (readAfter : ∀ r, .shown k r ∈ after → r = e.record)

theorem Entry.status_eq_of_record {e e' : Entry} (h : e'.record = e.record) : e'.status = e.status := by
  simp only [Entry.status, h]

theorem History.step {k : Key} {e e' : Entry} {es es' : List Event} (h : History k e es)
    (hc : Entry.Change k es' (some e) e') : History k e' (es ++ es') := by
  cases hc with
  | kept id record untouched read =>
    cases h with
    | running hr hu hs =>
      refine .running (by rw [record, id, hr]) (fun l hl => ?_) (fun r hr' => ?_)
      · rcases List.mem_append.mp hl with hl | hl
        · exact hu l hl
        · exact untouched l hl
      · rw [id]
        rcases List.mem_append.mp hr' with hr' | hr'
        · exact hs r hr'
        · rw [read r hr', hr]
    | @latched before after l ht hlog won hu hb hrf ha =>
      refine .latched before (after ++ es') (by rwa [Entry.status_eq_of_record record])
        (by rw [hlog]; simp) won hu (by rwa [id]) (fun l' hl' => ?_) (fun r hr => ?_)
      · rcases List.mem_append.mp hl' with hl' | hl'
        · exact hrf l' hl'
        · exact absurd hl' (untouched l')
      · rw [record]
        rcases List.mem_append.mp hr with hr | hr
        · exact ha r hr
        · exact read r hr
  | @latching _ _ s l attempt terminal log =>
    subst log
    cases h with
    | running hr hu hs =>
      have hrun := Entry.status_of_record hr
      have won (hl : l ≠ .refused) (hs' : e'.status = s) : History k e' (es ++ [.latched k l]) :=
        .latched es [] (hs' ▸ terminal) rfl hl hu (by rwa [attempt.id_eq]) (by simp) (by simp)
      cases attempt with
      | refused ht => rw [hrun] at ht; cases ht
      | notify _ _ _ _ _ hs' => exact won (by simp) hs'
      | held _ _ _ _ _ hs' => exact won (by simp) hs'
    | latched before after ht hlog wn hu hb hrf ha =>
      cases attempt with
      | refused _ same =>
        subst same
        refine .latched before (after ++ [.latched k .refused]) ht (by rw [hlog]; simp) wn hu hb (fun l' hl' => ?_)
          (fun r hr => ?_)
        · rcases List.mem_append.mp hl' with hl' | hl'
          · exact hrf l' hl'
          · simpa using hl'
        · rcases List.mem_append.mp hr with hr | hr
          · exact ha r hr
          · simp at hr
      | notify hr => rw [hr] at ht; cases ht
      | held hr => rw [hr] at ht; cases ht

theorem Run.history {m₀ m : Machine} {steps : List (Policy × Label)} {es : List Event}
    (h : Run m₀ steps es m) (h₀ : m₀.Initial) {k : Key} {e : Entry} (he : m.entry? k = some e) :
    History k e es := by
  induction h generalizing e with
  | nil => simp [Machine.entry?_eq, h₀.entries] at he
  | @snoc steps es m₁ m p l run step ih =>
    have hm := run.sound h₀.sound
    have move := Machine.move_of_next? step
    have hc := move.change hm he
    cases hk : m₁.entry? k with
    | some e₁ =>
      rw [hk] at hc
      exact (ih hk).step hc
    | none =>
      rw [hk] at hc
      cases hc with
      | registered fresh silent =>
        have unknown : ∀ ev ∈ es, ev.key ≠ k := by
          rintro ev hev rfl
          exact Nat.not_lt.mpr (List.getElem?_eq_none_iff.mp hk) (run.key_lt h₀.sound ev hev)
        rw [silent, List.append_nil]
        exact .running fresh.1 (fun l hl => unknown _ hl rfl) (fun r hr => absurd rfl (unknown _ hr))

/-! ## Later runs -/

/-- A terminal record is final. -/
theorem Entry.Change.final {k : Key} {es : List Event} {e e' : Entry} (h : Change k es (some e) e')
    (ht : e.status.isTerminal = true) :
    e'.record = e.record ∧ (∀ l, .latched k l ∈ es → l = .refused) ∧ ∀ r, .shown k r ∈ es → r = e.record := by
  cases h with
  | kept id record untouched read => exact ⟨record, fun l hl => absurd hl (untouched l), read⟩
  | latching attempt terminal log =>
    cases attempt with
    | refused _ same => subst same log; simp
    | notify hr => rw [hr] at ht; cases ht
    | held hr => rw [hr] at ht; cases ht

theorem Entry.Change.id_eq {k : Key} {es : List Event} {e e' : Entry} (h : Change k es (some e) e') :
    e'.id = e.id := by
  cases h with
  | kept id => exact id
  | latching attempt => exact attempt.id_eq

open Machine in
theorem Run.persists {m m' : Machine} {steps : List (Policy × Label)} {es : List Event}
    (h : Run m steps es m') (hm : m.Sound) {k : Key} {e : Entry} (he : m.entry? k = some e) :
    ∃ e', m'.entry? k = some e' ∧ e'.id = e.id ∧ (e.status.isTerminal = true → e'.record = e.record ∧
      (∀ l, .latched k l ∈ es → l = .refused) ∧ ∀ r, .shown k r ∈ es → r = e.record) := by
  induction h with
  | nil => exact ⟨e, he, rfl, fun _ => ⟨rfl, by simp, by simp⟩⟩
  | @snoc steps es m₁ m₂ p l run step ih =>
    obtain ⟨e₁, he₁, hid, hfin⟩ := ih
    have move := move_of_next? step
    have hlt : k < m₂.entries.length := Nat.lt_of_lt_of_le (entry?_lt he₁) (length_le_of_move move)
    have hc := move.change (run.sound hm) (k := k) (List.getElem?_eq_getElem hlt)
    rw [he₁] at hc
    refine ⟨m₂.entries[k], List.getElem?_eq_getElem hlt, hc.id_eq.trans hid, fun ht => ?_⟩
    obtain ⟨h1, h2, h3⟩ := hfin ht
    obtain ⟨h4, h5, h6⟩ := hc.final (by rwa [Entry.status_eq_of_record h1])
    refine ⟨h4.trans h1, fun l hl => ?_, fun r hr => ?_⟩
    · exact (List.mem_append.mp hl).elim (h2 l) (h5 l)
    · exact (List.mem_append.mp hr).elim (h3 r) (fun h => (h6 r h).trans h1)

open Machine in
/-- The entry that is found under an id has that id. -/
theorem Run.filed {m₀ m : Machine} {steps : List (Policy × Label)} {es : List Event}
    (h : Run m₀ steps es m) (h₀ : m₀.Initial) :
    ∀ id k, (id, k) ∈ m.tracked → ∃ e, m.entry? k = some e ∧ e.id = id := by
  induction h with
  | nil => simp [h₀.tracked]
  | @snoc steps es m₁ m₂ p l run step ih =>
    have old (id : String) (k : Key) (hk : (id, k) ∈ m₁.tracked) : ∃ e, m₂.entry? k = some e ∧ e.id = id := by
      obtain ⟨e, he, hid⟩ := ih id k hk
      obtain ⟨e', he', hid', -⟩ := (Run.snoc .nil step).persists (run.sound h₀.sound) he
      exact ⟨e', he', hid'.trans hid⟩
    intro id k hk
    have move := move_of_next? step
    generalize m₁.observe p l = ev at move
    cases move with
    | pass _ _ _ _ _ _ htr => exact old id k (htr hk)
    | register ht hf he =>
      rcases List.mem_append.mp hk with hk | hk
      · exact old id k hk
      · obtain ⟨rfl, rfl⟩ := Prod.mk.inj (List.mem_singleton.mp hk)
        exact ⟨_, by simp [Machine.entry?_eq, Machine.register, setThread], rfl⟩
    | _ => exact old id k hk

/-- The first attempt to latch a status of an entry wins and all others are refused; until then the
record is that of a run that has just begun, from then on nothing changes it, and so it is seen by
whoever reads it. -/
theorem record_latched_once {m₀ m m' : Machine} {steps steps' : List (Policy × Label)}
    {es es' : List Event} (h₀ : m₀.Initial) (h : Run m₀ steps es m) (h' : Run m steps' es' m')
    {k : Key} {e : Entry} (he : m.entry? k = some e) :
    (∀ id, (id, k) ∈ m.tracked → e.id = id) ∧
    (e.status = .running ∨ e.status.isTerminal = true) ∧ History k e es ∧
    ∃ e', m'.entry? k = some e' ∧ e'.id = e.id ∧ History k e' (es ++ es') ∧
      (e.status.isTerminal = true → e'.record = e.record ∧
        (∀ l, .latched k l ∈ es' → l = .refused) ∧ ∀ r, .shown k r ∈ es' → r = e.record) := by
  have hm := h.sound h₀.sound
  have hist := h.history h₀ he
  obtain ⟨e', he', hid, hfin⟩ := h'.persists hm he
  refine ⟨fun id hk => ?_, ?_, hist, e', he', hid, (h.trans h').history h₀ he', hfin⟩
  · obtain ⟨e₁, he₁, hid₁⟩ := h.filed h₀ id k hk
    rw [he] at he₁; cases he₁; exact hid₁
  · cases hist with
    | running record => exact Or.inl (Entry.status_of_record record)
    | latched _ _ terminal => exact Or.inr terminal

/-- A run is cancelled before it has been announced. -/
def earlyCancel : List Label :=
  [.call 0 (.plainStart "a"), .step 0, .step 0, .call 1 (.cancel "a"), .step 1, .step 1]

/-- Then its record is read, it is cancelled again, and it ends in a panic. -/
def lateRivals : List Label :=
  [.take 1, .call 1 (.status "a"), .step 1, .step 1, .take 1, .call 1 (.cancel "a"), .step 1, .step 1,
    .step 0, .step 0, .step 0, .step 0, .step 2, .executorReturns 2 .panicked, .step 2]

theorem record_latched_once_earlyCancel : ∃ es m es' m' e,
    Run twoCallers (earlyCancel.map fun l => ({}, l)) es m ∧
    Run m (lateRivals.map fun l => ({}, l)) es' m' ∧ m.entry? 0 = some e ∧
    e.status = .cancelled ∧ History 0 e es ∧ (∀ l, .latched 0 l ∈ es' → l = .refused) ∧
    ∃ e', m'.entry? 0 = some e' ∧ e'.record = e.record ∧ History 0 e' (es ++ es') := by
  obtain ⟨-, -, hist, e', he', -, hist', hfin⟩ := record_latched_once twoCallers_initial
    (Run.of_run? {} earlyCancel rfl) (Run.of_run? {} lateRivals rfl)
    (k := 0) rfl
  obtain ⟨hrec, href, -⟩ := hfin rfl
  exact ⟨_, _, _, _, _, Run.of_run? _ _ rfl, Run.of_run? _ _ rfl, rfl, rfl, hist, href, e', he', hrec, hist'⟩

end Overseer.Supervisor

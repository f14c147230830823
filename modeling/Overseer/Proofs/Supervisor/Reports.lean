import Overseer.Proofs.Supervisor.Frames

/-!
# Records as they are read

A record is well formed for an id if it has that id, and a time of completion exactly if its status is
terminal. Suppose the executor returns nothing but records that are well formed for the id of the context.
Then so is every record that a status call or a wait comes back with, whichever way the run ended, but for
one: a record that the executor returned although it was not terminal stands for an error from then on,
and still has no time of completion.

* `Machine.honest`: the executor returns well-formed records only.
* `Entry.Recorded`, `Move.recorded`: where the record of an entry comes from after a move.
* `Machine.Accounted`: what the records of a run are like.
* `Reveals`: a call for a record finds an entry and comes back with its record.
* `revealed_well_formed`: what is read is well formed, or has been coerced.
-/
namespace Overseer

/-- The record is that of `id`, and it has a time of completion exactly if its status is terminal. -/
def Record.WellFormed (r : Record) (id : String) : Prop :=
  r.id = id ∧ r.completedAt.isSome = r.status.isTerminal

instance (r : Record) (id : String) : Decidable (r.WellFormed id) :=
  inferInstanceAs (Decidable (r.id = id ∧ r.completedAt.isSome = r.status.isTerminal))

namespace Supervisor

/-! ## The executor -/

/-- If the label has the executor return a record, that is well formed for the id of the context. -/
def Machine.trusts (m : Machine) : Label → Bool
  | .executorReturns i (.returned r) =>
    match m.threads[i]? with
    | some (.executing c _ :: _) => r.WellFormed c.id
    | _ => true
  | _ => true

/-- Every record that the executor returns in these steps is well formed for the id of the context. -/
def Machine.honest (m : Machine) : List (Policy × Label) → Bool
  | [] => true
  | (p, l) :: rest =>
    m.trusts l && match m.next? p l with
      | none => true
      | some m' => m'.honest rest

/-- The executor has returned the record. -/
def Reported (steps : List (Policy × Label)) (r : Record) : Prop :=
  ∃ p i, (p, .executorReturns i (.returned r)) ∈ steps

theorem Run.honest_append {m₀ m : Machine} {steps : List (Policy × Label)} {es : List Event}
    (h : Run m₀ steps es m) (rest : List (Policy × Label)) :
    m₀.honest (steps ++ rest) = (m₀.honest steps && m.honest rest) := by
  induction h generalizing rest with
  | nil => simp [Machine.honest]
  | @snoc steps es m₁ m₂ p l run step ih =>
    rw [List.append_assoc, ih, ih, List.singleton_append, Machine.honest, Machine.honest, step]
    simp [Machine.honest, Bool.and_assoc]

section

variable {p : Policy} {m m' : Machine} {l : Label} {k : Key} {e e' : Entry}

/-- Only the executor ends its own work. -/
theorem Machine.executorReturns_of_next? {i : Nat} {c : Context} {k' : Key} {o : Outcome} {below below' : Thread}
    (step : m.next? p l = some m') (ht : m.threads[i]? = some (.executing c k :: below))
    (ht' : m'.threads[i]? = some (.finish k' o :: below')) : l = .executorReturns i o := by
  have hl : l.thread? = some i := by
    refine Decidable.byContradiction fun hne => ?_
    rw [(turn_of_next? step).thread_same hne ht] at ht'
    cases ht'
  cases next?_eq_some_iff.mp step with
  | step hj step =>
    cases hl
    cases hj.symm.trans ht
    cases step
  | call isCall hj =>
    cases hl
    rw [getElem?_setThread hj] at ht'
    cases ht'
    cases isCall
  | executorReturns hj =>
    cases hl
    rw [getElem?_setThread hj] at ht'
    cases ht'; rfl
  | take hj | hookReturns hj | hookPanics hj | giveUp hj =>
    cases hl
    cases hj.symm.trans ht
  | _ => cases hl

/-! ## Where records come from -/

/-- Where the record comes from that the entry `e` with the key `k` has after a move from `m`. -/
inductive Entry.Recorded (m : Machine) (k : Key) (e : Entry) : Record → Prop where
  | kept : Recorded m k e e.record
  | cancelled {now : Instant} {time : Timestamp} (running : e.record = Record.running e.id) :
      Recorded m k e { e.record with
        status := .cancelled
        error := "cancelled by supervisor"
        executionTime := now.since e.started
        completedAt := some time }
  | completed {now : Instant} {time : Timestamp} {o : Outcome} (h : .finish k o ∈ m.frames) :
      Recorded m k e (e.recordOf now time o)

theorem Entry.record_latched (e : Entry) : e.latched.1.record = e.record := by
  unfold latched
  split <;> rfl

/-- A cancel that finds an entry running writes its record. -/
theorem Entry.record_cancel {now : Instant} {time : Timestamp} {latch : Latch} (hr : e.status = .running)
    (h : e.cancel now time = (e', latch)) : e'.record = { e.record with
      status := .cancelled
      error := "cancelled by supervisor"
      executionTime := now.since e.started
      completedAt := some time } := by
  rw [cancel, if_neg (by simpa using hr)] at h
  have heq := congrArg (·.1.record) h
  simp only [record_latched] at heq
  exact heq.symm

theorem Entry.record_complete {r : Record} {latch : Latch} (h : e.complete r = (e', latch)) :
    e'.record = e.record ∨ e'.record = r := by
  unfold complete at h
  split at h
  · cases h; exact Or.inl rfl
  · have := record_latched { e with record := r }
    rw [h] at this; exact Or.inr this

open Machine in
theorem Move.recorded {es : List Event} (h : Move m es m') (hm : m.Sound) (he' : m'.entry? k = some e') :
    (m.entry? k = none ∧ e'.Fresh) ∨ ∃ e, m.entry? k = some e ∧ e'.id = e.id ∧ e.Recorded m k e'.record := by
  have same (h : m.entry? k = some e') : (m.entry? k = none ∧ e'.Fresh) ∨
      ∃ e, m.entry? k = some e ∧ e'.id = e.id ∧ e.Recorded m k e'.record :=
    Or.inr ⟨e', h, rfl, .kept⟩
  cases h with
  | register ht hf he =>
    rcases entry?_register he' with h | ⟨-, h, rfl⟩
    · exact same h
    · exact Or.inl ⟨h, (he (hm.settled _ (List.mem_of_getElem? ht))).1⟩
  | announce ht he =>
    rcases entry?_setEntry he' with ⟨rfl, rfl⟩ | ⟨-, h⟩
    · exact Or.inr ⟨_, he, rfl, .kept⟩
    · exact same h
  | @cancel signals i key below e e₁ latch now time ht he hl =>
    rcases entry?_setEntry he' with ⟨rfl, rfl⟩ | ⟨-, h⟩
    · have hsound := hm.entries e (entry?_mem he)
      refine Or.inr ⟨e, he, (Entry.latching_cancel hsound hl).id_eq, ?_⟩
      rcases hsound.running_or_terminal with ⟨hrun, hrec, -⟩ | hterm
      · rw [Entry.record_cancel hrun hl]; exact .cancelled hrec
      · rw [Entry.cancel, if_pos (Status.isTerminal_ne_running hterm)] at hl
        cases hl; exact .kept
    · exact same h
  | @complete i key below e e₁ latch now time o ht he hl =>
    rcases entry?_setEntry he' with ⟨rfl, rfl⟩ | ⟨-, h⟩
    · refine Or.inr ⟨e, he, (Entry.latching_complete (hm.entries e (entry?_mem he)) hl).id_eq, ?_⟩
      rcases Entry.record_complete hl with heq | heq
      · rw [heq]; exact .kept
      · rw [heq]; exact .completed (mem_frames ht List.mem_cons_self)
    · exact same h
  | _ => exact same he'

/-! ## Accounts -/

/-- The record is well formed for the id, or stands for one that the executor has returned unfinished. -/
def Accountable (steps : List (Policy × Label)) (r : Record) (id : String) : Prop :=
  r.WellFormed id ∨ ∃ r₀, Reported steps r₀ ∧ r₀.WellFormed id ∧ r₀.status.isTerminal = false ∧
    r = Entry.settled r₀

/-- What the records are like after these steps, those of the entries and those that runs have still to
hand in. -/
structure Machine.Accounted (steps : List (Policy × Label)) (m : Machine) : Prop where
  records : ∀ k e, m.entry? k = some e → Accountable steps e.record e.id
  returned : ∀ k r, .finish k (.returned r) ∈ m.frames →
    Reported steps r ∧ ∃ e, m.entry? k = some e ∧ r.WellFormed e.id

variable {steps : List (Policy × Label)}

theorem Reported.append {r : Record} (h : Reported steps r) (rest : List (Policy × Label)) :
    Reported (steps ++ rest) r := by
  obtain ⟨p, i, hmem⟩ := h
  exact ⟨p, i, List.mem_append_left _ hmem⟩

theorem Accountable.append {r : Record} {id : String} (h : Accountable steps r id)
    (rest : List (Policy × Label)) : Accountable (steps ++ rest) r id := by
  rcases h with h | ⟨r₀, hrep, h⟩
  · exact Or.inl h
  · exact Or.inr ⟨r₀, hrep.append rest, h⟩

theorem Accountable.id_eq {r : Record} {id : String} (h : Accountable steps r id) : r.id = id := by
  rcases h with h | ⟨r₀, -, h, hs, rfl⟩
  · exact h.1
  · simpa [Entry.settled, hs] using h.1

theorem Record.running_wellFormed (id : String) : (Record.running id).WellFormed id := ⟨rfl, rfl⟩

/-- What becomes of a record that the executor has returned. -/
theorem accountable_settled {r : Record} {id : String} (h : r.WellFormed id) (hr : Reported steps r) :
    Accountable steps (Entry.settled r) id := by
  cases hs : r.status.isTerminal with
  | true =>
    rw [Entry.settled, if_pos hs]
    exact Or.inl h
  | false => exact Or.inr ⟨r, hr, h, hs, rfl⟩

namespace Machine

theorem Initial.accounted (h : m.Initial) : m.Accounted [] where
  records := by simp [entry?_eq, h.entries]
  returned k r hf := by cases h.frames_isCall hf

/-- Whatever the record of an entry comes from, it can be accounted for. -/
theorem Accounted.recorded {r : Record} (ha : m.Accounted steps) (he : m.entry? k = some e)
    (h : e.Recorded m k r) : Accountable steps r e.id := by
  cases h with
  | kept => exact ha.records k e he
  | cancelled running => exact Or.inl ⟨by rw [running]; rfl, rfl⟩
  | @completed now time o hf =>
    cases o with
    | returned r =>
      obtain ⟨hrep, e₁, he₁, hwf⟩ := ha.returned k r hf
      rw [he] at he₁; cases he₁
      exact accountable_settled hwf hrep
    | rejected reason => exact Or.inl ⟨rfl, rfl⟩
    | panicked => exact Or.inl ⟨rfl, rfl⟩

theorem Accounted.of_next? (ha : m.Accounted steps) (hm : m.Sound) (ho : m.Ordered)
    (step : m.next? p l = some m') (honest : m.trusts l = true) : m'.Accounted (steps ++ [(p, l)]) where
  records k e' he' := by
    rcases (move_of_next? step).recorded hm he' with ⟨-, fresh⟩ | ⟨e, he, hid, hrec⟩
    · rw [fresh.1]; exact Or.inl (Record.running_wellFormed _)
    · rw [hid]; exact (ha.recorded he hrec).append _
  returned k r hf := by
    have persists {e : Entry} (he : m.entry? k = some e) (hwf : r.WellFormed e.id) :
        ∃ e', m'.entry? k = some e' ∧ r.WellFormed e'.id := by
      obtain ⟨e', he', hid, -⟩ := (Run.snoc .nil step).persists hm he
      exact ⟨e', he', hid ▸ hwf⟩
    cases (move_of_next? step).arises hm hf with
    | old hf =>
      obtain ⟨hrep, e, he, hwf⟩ := ha.returned k r hf
      exact ⟨hrep.append _, persists he hwf⟩
    | free hf => cases hf
    | @finish i c _ _ below ht ht' =>
      obtain rfl := executorReturns_of_next? step ht ht'
      obtain ⟨e, he, hid⟩ := ho.named _ (mem_frames ht List.mem_cons_self) c k rfl
      have hwf : r.WellFormed c.id := by simpa [trusts, ht] using honest
      exact ⟨⟨p, i, by simp⟩, persists he (hid ▸ hwf)⟩

end Machine

theorem Run.accounted {m₀ m : Machine} {es : List Event} (h : Run m₀ steps es m) (h₀ : m₀.Initial)
    (honest : m₀.honest steps = true) : m.Accounted steps := by
  induction h with
  | nil => exact h₀.accounted
  | @snoc steps es m₁ m₂ p l run step ih =>
    obtain ⟨hold, hnew⟩ := Bool.and_eq_true_iff.mp (run.honest_append [(p, l)] ▸ honest)
    have htrust : m₁.trusts l = true := (Bool.and_eq_true_iff.mp hnew).1
    exact (ih hold).of_next? (run.sound h₀.sound) (run.ordered h₀) step htrust

/-! ## Calls for a record -/

/-- In the last of these steps a status call or a wait for `id` comes back with the record `r`: it has
found an entry in an earlier step of its thread, in which nothing has happened since. -/
inductive Reveals (m₀ : Machine) (id : String) (r : Record) : List (Policy × Label) → Prop where
  | intro {before between : List (Policy × Label)} {es es' : List Event} {m₁ m₂ m₃ m₄ : Machine}
      {p p' : Policy} {i : Nat} {f : Frame} {below : Thread} (before_run : Run m₀ before es m₁)
      (call : m₁.threads[i]? = some (f :: below)) (hf : f = .status id ∨ f = .wait id)
      (find : m₁.next? p (.step i) = some m₂) (between_run : Run m₂ between es' m₃)
      (quiet : ∀ x ∈ between, x.2.thread? ≠ some i) (read : m₃.next? p' (.step i) = some m₄)
      (answer : m₄.threads[i]? = some (.answer (.record r) :: below)) :
      Reveals m₀ id r (before ++ [(p, .step i)] ++ between ++ [(p', .step i)])

theorem Run.thread_same {m m' : Machine} {es : List Event} {i : Nat} {t : Thread} (h : Run m steps es m')
    (quiet : ∀ x ∈ steps, x.2.thread? ≠ some i) (ht : m.threads[i]? = some t) : m'.threads[i]? = some t := by
  induction h with
  | nil => exact ht
  | snoc run step ih =>
    have hold := ih fun x hx => quiet x (List.mem_append_left _ hx)
    exact (Machine.turn_of_next? step).thread_same
      (quiet _ (List.mem_append_right _ (List.mem_singleton_self _))) hold

namespace Machine

variable {i : Nat} {id : String} {below : Thread}

/-- A call for the record of `id` finds an entry with that id, or is refused. -/
theorem lookup_of_next? {f : Frame} (ht : m.threads[i]? = some (f :: below))
    (hf : f = .status id ∨ f = .wait id) (step : m.next? p (.step i) = some m') :
    m'.threads[i]? = some (.answer (.refused (.notFound id)) :: below) ∨
      ∃ k, m.find? id = some k ∧ m'.entry? k = m.entry? k ∧
        (m'.threads[i]? = some (.snapshot k :: below) ∨ m'.threads[i]? = some (.check id k :: below)) := by
  rcases hf with rfl | rfl
  · cases step_of_next? ht step with
    | asksNone => exact Or.inl (getElem?_setThread ht _)
    | asks _ find => exact Or.inr ⟨_, find, rfl, Or.inl (getElem?_setThread ht _)⟩
  · cases step_of_next? ht step with
    | waitsNone => exact Or.inl (getElem?_setThread ht _)
    | waits _ find => exact Or.inr ⟨_, find, rfl, Or.inr (getElem?_setThread ht _)⟩

/-- A call that has found an entry comes back with its record. -/
theorem record_of_next? {f : Frame} {r : Record} (ht : m.threads[i]? = some (f :: below))
    (hf : f = .snapshot k ∨ f = .check id k) (step : m.next? p (.step i) = some m')
    (answer : m'.threads[i]? = some (.answer (.record r) :: below)) :
    ∃ e, m.entry? k = some e ∧ r = e.record := by
  rcases hf with rfl | rfl
  · cases step_of_next? ht step with
    | shows he =>
      rw [getElem?_setThread ht] at answer
      cases answer; exact ⟨_, he, rfl⟩
  · cases step_of_next? ht step with
    | ended he =>
      rw [getElem?_setThread ht] at answer
      cases answer; exact ⟨_, he, rfl⟩
    | sleeps =>
      rw [getElem?_setThread ht] at answer
      cases answer

/-- A refusal is not a record. -/
theorem refused_of_next? {reason : Refusal} {r : Record}
    (ht : m.threads[i]? = some (.answer (.refused reason) :: below)) (step : m.next? p (.step i) = some m') :
    m'.threads[i]? ≠ some (.answer (.record r) :: below) := by
  intro answer
  cases step_of_next? ht step with
  | silenced =>
    rw [getElem?_setThread ht] at answer
    cases answer

end Machine

open Machine in
/-- The record that a call for it comes back with is that of an entry with the id asked for. -/
theorem Reveals.entry {m₀ : Machine} {id : String} {r : Record} (h : Reveals m₀ id r steps)
    (h₀ : m₀.Initial) : ∃ before rest es m k e, steps = before ++ rest ∧ Run m₀ before es m ∧
      m.entry? k = some e ∧ e.id = id ∧ r = e.record := by
  obtain @⟨before, between, es, es', m₁, m₂, m₃, m₄, p, p', i, f, below, run, call, hf, find, wait, quiet, read,
    answer⟩ := h
  have hm₁ := run.sound h₀.sound
  rcases lookup_of_next? call hf find with ht | ⟨k, hk, -, ht⟩
  · exact absurd answer (refused_of_next? (wait.thread_same quiet ht) read)
  · obtain ⟨e₁, he₁, hid⟩ := run.filed h₀ id k (mem_of_find? hk)
    have run₃ := (run.snoc find).trans wait
    obtain ⟨e₃, he₃, hid₃, -⟩ := ((Run.snoc .nil find).trans wait).persists hm₁ he₁
    obtain ⟨g, hg, ht₃⟩ : ∃ g, (g = .snapshot k ∨ g = .check id k) ∧ m₃.threads[i]? = some (g :: below) := by
      rcases ht with ht | ht
      · exact ⟨_, Or.inl rfl, wait.thread_same quiet ht⟩
      · exact ⟨_, Or.inr rfl, wait.thread_same quiet ht⟩
    obtain ⟨e, he, hr⟩ := record_of_next? ht₃ hg read answer
    rw [he₃] at he; cases he
    exact ⟨_, _, _, m₃, k, e₃, rfl, run₃, he₃, hid₃.trans hid, hr⟩

/-- If the executor returns well-formed records only, then a status call or a wait for `id` comes back with
a record of `id` that is well formed, or with one that stands for a record which the executor has returned
unfinished, and which has no time of completion although it is terminal. -/
theorem revealed_well_formed {m₀ : Machine} {id : String} {r : Record} (h₀ : m₀.Initial)
    (honest : m₀.honest steps = true) (h : Reveals m₀ id r steps) :
    r.id = id ∧ (r.WellFormed id ∨ ∃ r₀, Reported steps r₀ ∧ r₀.WellFormed id ∧
      r₀.status.isTerminal = false ∧ r = Entry.settled r₀) := by
  obtain ⟨before, rest, es, m, k, e, rfl, run, he, rfl, rfl⟩ := h.entry h₀
  have hbefore : m₀.honest before = true := (Bool.and_eq_true_iff.mp (run.honest_append rest ▸ honest)).1
  have hacc : Accountable (before ++ rest) e.record e.id := ((run.accounted h₀ hbefore).records k e he).append rest
  exact ⟨hacc.id_eq, hacc⟩

end

/-- A run comes back with a record, after which a status call is made. -/
def answeredStart (r : Record) : List Label :=
  [.call 0 (.plainStart "a"), .step 0, .step 0, .step 0, .step 0, .step 0, .take 0, .step 2,
    .executorReturns 2 (.returned r), .step 2, .step 2, .call 0 (.status "a")]

/-- The same, with the two steps of the status call. -/
def answeredStatus (r : Record) : List (Policy × Label) :=
  let look : List (Policy × Label) := [({}, .step 0)]
  (answeredStart r).map (fun l => (({} : Policy), l)) ++ look ++ [] ++ look

theorem reveals_answeredStatus {r r' : Record} {es : List Event} {m₁ m₂ m₃ : Machine}
    (run : twoCallers.run? {} (answeredStart r) = some (es, m₁)) (call : m₁.threads[0]? = some [.status "a"])
    (find : m₁.next? {} (.step 0) = some m₂) (read : m₂.next? {} (.step 0) = some m₃)
    (answer : m₃.threads[0]? = some [.answer (.record r')]) :
    Reveals twoCallers "a" r' (answeredStatus r) :=
  .intro (Run.of_run? {} _ run) call (Or.inl rfl) find .nil (by simp) read answer

def completeRecord : Record := { Record.running "a" with status := .complete, completedAt := some default }

theorem revealed_well_formed_answeredStatus : ∃ steps, twoCallers.honest steps = true ∧
    Reveals twoCallers "a" completeRecord steps ∧ completeRecord.id = "a" := by
  have honest : twoCallers.honest (answeredStatus completeRecord) = true := by decide
  have h : Reveals twoCallers "a" completeRecord (answeredStatus completeRecord) :=
    reveals_answeredStatus rfl rfl rfl rfl rfl
  exact ⟨_, honest, h, (revealed_well_formed twoCallers_initial honest h).1⟩

def unfinishedRecord : Record := { Record.running "a" with output := "half" }

/-- A record that the executor has returned unfinished is read as a terminal one that has no time of
completion. -/
theorem unfinished_uncompleted : ∃ steps, twoCallers.honest steps = true ∧
    Reveals twoCallers "a" (Entry.settled unfinishedRecord) steps ∧
    (Entry.settled unfinishedRecord).status = .error ∧ (Entry.settled unfinishedRecord).completedAt = none :=
  ⟨answeredStatus unfinishedRecord, by decide, reveals_answeredStatus rfl rfl rfl rfl rfl, rfl, rfl⟩

end Supervisor

end Overseer

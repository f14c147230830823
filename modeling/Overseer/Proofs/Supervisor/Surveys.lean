import Overseer.Proofs.Supervisor.Admission
import Overseer.Proofs.Supervisor.Frames
import Overseer.Proofs.Supervisor.Phases

/-!
# Surveys

A list call and a start under a limit look at the entries one by one. The map is theirs meanwhile, with other readers
or alone, but the entries are not: between two looks the other threads may finish and cancel what has been looked at
and what has not. So what a survey has seen need not be what ran at any one moment. It errs to one side: an entry
stops to run once and for all, and none can be registered or evicted before the survey is over.

* `Machine.Surveys`: a run over which a thread is at a survey.
* `Machine.Finds`: what a list has found ran when it began, each entry once.
* `Machine.Surveying.step`: where a survey stands, or how it ends, after any step.
* `survey_brackets`: what it ends with lies between what ran when it began and what runs when it ends.
-/
namespace Overseer.Supervisor

/-- The frame looks at the entries one by one, to find or to count those that run. -/
def Frame.surveys : Frame → Bool
  | .counting _ _ _ _ | .scanning _ _ => true
  | _ => false

theorem Frame.holds_of_surveys {f : Frame} (h : f.surveys = true) : f.holds = true := by
  cases f <;> first | rfl | cases h

theorem Frame.driven_of_surveys {f : Frame} (h : f.surveys = true) : f.driven = true := by
  cases f <;> first | rfl | cases h

namespace Machine

/-- The thread is at a survey. -/
def surveying (m : Machine) (i : Nat) : Bool := (m.threads[i]?.getD []).head?.any Frame.surveys

/-- A run over which thread `i` is at a survey. -/
inductive Surveys (i : Nat) (m : Machine) : List (Policy × Label) → Machine → Prop where
  | nil (here : m.surveying i = true) : Surveys i m [] m
  | snoc {steps : List (Policy × Label)} {m' m'' : Machine} {q : Policy} {l : Label}
      (run : Surveys i m steps m') (step : m'.next? q l = some m'') (here : m''.surveying i = true) :
      Surveys i m (steps ++ [(q, l)]) m''

/-- What a list that was begun at `m` and has ended at `m'` says of the entries. -/
structure Listed (m m' : Machine) (ids : List String) : Prop where
  complete : ∀ k e, m'.entry? k = some e → e.status = .running → e.id ∈ ids
  sound : ∀ id ∈ ids, ∃ k e, m.entry? k = some e ∧ e.status = .running ∧ e.id = id
  once : ids.Nodup

/-- How a survey of thread `i` that was begun at `m` ends with a step from `m'` under `q`, by the call that began it. -/
inductive Surveyed (q : Policy) (i : Nat) (below : Thread) (m m' : Machine) : Frame → Machine → Prop where
  | listed {ids : List String} (listed : m.Listed m' ids) :
      Surveyed q i below m m' .listRunning (m'.setThread i (.answer (.ids ids) :: below))
  | full {c : Context} {e : Entry} {running : Nat} (least : m'.runningCount ≤ running)
      (most : running ≤ m.runningCount) (full : q.maxRunning ≤ running) :
      Surveyed q i below m m' (.enroll c e)
        (m'.setThread i (.answer (.refused (.capacityExceeded running q.maxRunning)) :: below))
  | room {c : Context} {e : Entry} {running : Nat} (least : m'.runningCount ≤ running)
      (most : running ≤ m.runningCount) (room : running < q.maxRunning) :
      Surveyed q i below m m' (.enroll c e) (m'.register i c e below)

/-- A list that was begun at `m` has found `found` and has yet to look at `todo`: what it has found ran at `m`, and is
not among what is to come. -/
structure Finds (m : Machine) (todo : List Key) (found : List String) : Prop where
  ahead : todo.Nodup
  known : ∀ k ∈ todo, k < m.entries.length
  once : found.Nodup
  ran : ∀ id ∈ found, ∃ k e, k ∉ todo ∧ m.entry? k = some e ∧ e.status = .running ∧ e.id = id

/-- Where a survey stands at `m'` that was begun at `m`, by the call that began it. -/
inductive Surveying (i : Nat) (below : Thread) (m m' : Machine) : Frame → Prop where
  | lists {todo : List Key} {found : List String} (ht : m'.threads[i]? = some (.scanning todo found :: below))
      (owed : m'.Owed m'.entries.length todo found) (finds : m.Finds todo found) :
      Surveying i below m m' .listRunning
  | counts {c : Context} {e : Entry} {todo : List Key} {running : Nat}
      (ht : m'.threads[i]? = some (.counting c e todo running :: below))
      (counts : m'.CountsUpTo m.runningCount todo running) : Surveying i below m m' (.enroll c e)

section

variable {p q : Policy} {m m' m'' m₁ m₂ : Machine} {l : Label} {i : Nat} {k : Key} {e : Entry} {f : Frame}
  {below : Thread} {todo : List Key} {found : List String} {steps : List (Policy × Label)} {es : List Event}

/-! ## What a list finds -/

theorem Finds.start (hi : m.Indexed) (hp : p.Fair) : m.Finds (p.visit m.keys) [] where
  ahead := (hp m.keys).nodup_iff.mpr hi.keys_nodup
  known k hk := hi.keys_lt k ((hp m.keys).subset hk)
  once := List.nodup_nil
  ran := by simp

/-- Two entries that run do not go by one id. -/
theorem Indexed.eq_of_running (hi : m.Indexed) {k k' : Key} {e e' : Entry} (he : m.entry? k = some e)
    (he' : m.entry? k' = some e') (hr : e.status = .running) (hr' : e'.status = .running) (hid : e.id = e'.id) :
    k = k' := by
  have hk := hi.find?_of_mem (hi.kept k e he (by rw [hr]; rfl))
  have hk' := hi.find?_of_mem (hi.kept k' e' he' (by rw [hr']; rfl))
  rw [hid, hk'] at hk
  exact (Option.some.inj hk).symm

/-- An entry that is looked at and does not run is not found. -/
theorem Finds.skip (h : m.Finds (k :: todo) found) : m.Finds todo found where
  ahead := (List.nodup_cons.mp h.ahead).2
  known k' hk' := h.known k' (List.mem_cons_of_mem _ hk')
  once := h.once
  ran id hmem := by
    obtain ⟨k', e, hk', he⟩ := h.ran id hmem
    exact ⟨k', e, fun hmem => hk' (List.mem_cons_of_mem _ hmem), he⟩

/-- One that does has not been found before. -/
theorem Finds.take (h : m.Finds (k :: todo) found) (hi : m.Indexed) (he : m.entry? k = some e)
    (hr : e.status = .running) : m.Finds todo (found ++ [e.id]) where
  ahead := h.skip.ahead
  known := h.skip.known
  once := by
    have hnew : ∀ id ∈ found, id ≠ e.id := by
      rintro id hmem hid
      obtain ⟨k₀, e₀, hk₀, he₀, hr₀, hid₀⟩ := h.ran id hmem
      obtain rfl := hi.eq_of_running he₀ he hr₀ hr (hid₀.trans hid)
      exact hk₀ List.mem_cons_self
    exact List.nodup_append.mpr ⟨h.once, by simp, by simpa using hnew⟩
  ran id hmem := by
    rcases List.mem_append.mp hmem with hmem | hmem
    · exact h.skip.ran id hmem
    · exact ⟨k, e, (List.nodup_cons.mp h.ahead).1, he, hr, (List.mem_singleton.mp hmem).symm⟩

/-- What is found running did run when the list was begun. -/
theorem Finds.look (h : m.Finds (k :: todo) found) (hi : m.Indexed) (hm : m.Sound) (run : Run m steps es m') :
    m.Finds todo (found ++ ((m'.entry? k).toList.filter (·.status = .running)).map (·.id)) := by
  have hlt : k < m.entries.length := h.known k List.mem_cons_self
  have he : m.entry? k = some m.entries[k] := List.getElem?_eq_getElem hlt
  obtain ⟨e', he', hid, -⟩ := run.persists hm he
  by_cases hr' : e'.status = .running
  · have hfound := h.take hi he (running_of_run run hm he he' hr')
    simpa [he', hr', hid] using hfound
  · simpa [he', hr'] using h.skip

/-- All has been looked at. -/
theorem Finds.listed {ids : List String} (h : m.Finds [] ids) (howed : m'.Owed m'.entries.length [] ids) :
    m.Listed m' ids where
  complete k e he hr := (howed.running k e (entry?_lt he) he hr).resolve_left (by simp)
  sound id hmem := by
    obtain ⟨k, e, -, he⟩ := h.ran id hmem
    exact ⟨k, e, he⟩
  once := h.once

/-- An empty list says that nothing runs. -/
theorem Listed.isRunning (h : m.Listed m' []) (k : Key) : m'.isRunning k = false := by
  rw [← Bool.not_eq_true, isRunning_iff]
  rintro ⟨e, he, hr⟩
  cases h.complete k e he hr

/-! ## Where a survey stands -/

theorem surveying_eq (ht : m.threads[i]? = some (f :: below)) : m.surveying i = f.surveys := by
  simp [surveying, ht]

theorem Surveying.thread (h : Surveying i below m m' f) :
    ∃ g, m'.threads[i]? = some (g :: below) ∧ g.surveys = true := by
  cases h with
  | lists ht => exact ⟨_, ht, rfl⟩
  | counts ht => exact ⟨_, ht, rfl⟩

/-- A step that leads to a survey takes the map for it. -/
theorem Surveying.start (hm : m.Sound) (hlock : m.Locked) (hi : m.Indexed) (hp : p.Fair)
    (ht : m.threads[i]? = some (f :: below)) (hf : f.surveys = false) (hnext : m.next? p (.step i) = some m')
    (here : m'.surveying i = true) : Surveying i below m m' f := by
  have leads {g : Frame} {below' : Thread} (hg : m'.threads[i]? = some (g :: below')) : g.surveys = true := by
    rw [← surveying_eq hg, here]
  have same {g : Frame} {below' : Thread} (ht' : m.threads[i]? = some (g :: below')) : g = f ∧ below' = below := by
    rw [ht] at ht'
    cases ht'
    exact ⟨rfl, rfl⟩
  cases turn_of_next? hnext with
  | scan ht' =>
    obtain ⟨rfl, rfl⟩ := same ht'
    have howed := (Owed.start hi hp).of_next? hm hnext
    exact .lists (getElem?_setThread ht _) howed (.start hi hp)
  | claim ht' =>
    obtain ⟨rfl, rfl⟩ := same ht'
    have hcounts := (CountsUpTo.start hp (Nat.le_refl m.runningCount)).of_next? hi hm hnext rfl
    exact .counts (getElem?_setThread ht _) hcounts
  | count ht' | look ht' =>
    obtain ⟨rfl, -⟩ := same ht'
    cases hf
  | enroll ht' | accept ht' => cases leads (getElem?_register ht' ..)
  | known ht' | refuse ht' | found ht' | sweep ht' | spare ht' | swept ht' => cases leads (getElem?_setThread ht' _)
  | evict ht' => cases leads (List.getElem?_set_self (List.getElem?_eq_some_iff.mp ht').1)
  | outside hl => cases hl
  | @aside _ _ j t t' hl ht' hside goes _ _ threads =>
    cases hl
    have hland : m'.threads[i]? = some t' := getElem?_given ht' threads
    cases t' with
    | nil => simp [surveying, hland] at here
    | cons g rest =>
      have hholds := Frame.holds_of_surveys (leads hland)
      rcases goes.mem_aside hside List.mem_cons_self with haside | hmem
      · rw [Frame.holds_of_aside haside] at hholds
        cases hholds
      · rw [hlock.innermost t (List.mem_of_getElem? ht') g hmem] at hholds
        cases hholds

/-- While the other threads go on, a survey stands where it stood. -/
theorem Surveying.other (h : Surveying i below m m' f) (hm : m'.Sound) (hlock : m'.Locked) (hi : m'.Indexed)
    (hnext : m'.next? q l = some m'') (hl : l.thread? ≠ some i) : Surveying i below m m'' f := by
  have hturn := turn_of_next? hnext
  cases h with
  | lists ht owed finds =>
    have howed := owed.of_next? hm hnext
    rw [← hturn.entries_same hlock ht] at howed
    exact .lists (hturn.thread_same hl ht) howed finds
  | counts ht counts =>
    have hkeys : m''.keys = m'.keys := by rw [keys, hturn.tracked_same hlock ht rfl hl]; rfl
    exact .counts (hturn.thread_same hl ht) (counts.of_next? hi hm hnext hkeys)

/-- A survey can always go on: it looks at one more entry, or it is over. -/
theorem Surveying.step (h : Surveying i below m m' f) (run : Run m steps es m') (hm : m.Sound) (hi : m.Indexed)
    (hi' : m'.Indexed) (q : Policy) :
    ∃ m'', m'.next? q (.step i) = some m'' ∧ (Surveying i below m m'' f ∨ Surveyed q i below m m' f m'') := by
  have hm' := run.sound hm
  cases h with
  | @lists todo found ht owed finds =>
    cases todo with
    | nil => exact ⟨_, next?_of_step ht .lists, Or.inr (.listed (finds.listed owed))⟩
    | cons k todo =>
      have step := next?_of_step (p := q) ht .looks
      have howed := owed.look.of_next? hm' step
      exact ⟨_, step, Or.inl (.lists (getElem?_setThread ht _) howed (finds.look hi hm run))⟩
  | @counts c e todo running ht counts =>
    cases todo with
    | nil =>
      obtain ⟨least, most⟩ := counts.done
      rcases Nat.lt_or_ge running q.maxRunning with room | full
      · exact ⟨_, next?_of_step ht (.admits room), Or.inr (.room least most room)⟩
      · exact ⟨_, next?_of_step ht (.full full), Or.inr (.full least most full)⟩
    | cons k todo =>
      have step := next?_of_step (p := q) ht .counts
      have hcounts := counts.count.of_next? hi' hm' step rfl
      exact ⟨_, step, Or.inl (.counts (getElem?_setThread ht _) hcounts)⟩

/-! ## How a survey ends -/

theorem Surveyed.over {g : Frame} {rest : Thread} (h : Surveyed q i below m m' f m'')
    (ht : m'.threads[i]? = some (g :: rest)) : m''.surveying i = false := by
  cases h with
  | listed | full => exact surveying_eq (getElem?_setThread ht _)
  | room => exact surveying_eq (getElem?_register ht ..)

theorem Surveyed.of_empty {g : Frame} {rest : Thread} (h : Surveyed q i below m m' f m'')
    (ht : m'.threads[i]? = some (g :: rest)) (hids : m''.threads[i]? = some (.answer (.ids []) :: below)) (k : Key) :
    m'.isRunning k = false := by
  cases h with
  | listed listed =>
    cases (getElem?_setThread ht _).symm.trans hids
    exact listed.isRunning k
  | full => cases (getElem?_setThread ht _).symm.trans hids
  | room => cases (getElem?_register ht ..).symm.trans hids

theorem Surveyed.of_registered {g : Frame} {rest : Thread} {c : Context} (h : Surveyed q i below m m' f m'')
    (ht : m'.threads[i]? = some (g :: rest)) (hreg : m'' = m'.register i c e below) :
    m'.runningCount < q.maxRunning := by
  have ht' := hreg ▸ getElem?_register ht c e below
  cases h with
  | listed | full => cases (getElem?_setThread ht _).symm.trans ht'
  | room least _ room => exact Nat.lt_of_le_of_lt least room

/-! ## Runs -/

theorem Surveys.begun (h : m₁.Surveys i steps m₂) : m₁.surveying i = true := by
  induction h with
  | nil here => exact here
  | snoc _ _ _ ih => exact ih

theorem Surveys.run (h : m₁.Surveys i steps m₂) : ∃ es, Run m₁ steps es m₂ := by
  induction h with
  | nil => exact ⟨[], .nil⟩
  | snoc _ step _ ih =>
    obtain ⟨es, hrun⟩ := ih
    exact ⟨_, hrun.snoc step⟩

/-- Over a run on which a thread is at a survey, it is at the one that it has begun. -/
theorem Surveys.surveying {m₀ : Machine} {steps₀ steps₁ : List (Policy × Label)} {es₀ : List Event}
    (h : m₁.Surveys i steps m₂) (h₀ : m₀.Initial) (run₀ : Run m₀ steps₀ es₀ m) (run₁ : Run m steps₁ es m₁)
    (begins : Surveying i below m m₁ f) : Surveying i below m m₂ f := by
  induction h with
  | nil => exact begins
  | @snoc steps m' m'' q l survey step here ih =>
    obtain ⟨es', run'⟩ := survey.run
    have run := run₁.trans run'
    have all := run₀.trans run
    by_cases hl : l.thread? = some i
    · obtain ⟨g, ht, hg⟩ := ih.thread
      obtain ⟨rfl, -⟩ := eq_step step hl ht (Or.inl (Frame.driven_of_surveys hg))
      obtain ⟨m₃, step', hgoes⟩ := ih.step run (run₀.sound h₀.sound) (run₀.indexed h₀) (all.indexed h₀) q
      rw [step] at step'
      cases step'
      refine hgoes.resolve_right fun hover => ?_
      rw [hover.over ht] at here
      cases here
    · exact ih.other (all.sound h₀.sound) (all.locked h₀) (all.indexed h₀) step hl

/-- How much thread `i` has still to look at. -/
def ahead (m : Machine) (i : Nat) : Nat := ((m.threads[i]?.getD []).map Frame.visits).sum

/-- The next step of a survey leaves less to look at. -/
theorem Surveying.ahead_lt (h : Surveying i below m m' f) (hnext : m'.next? q (.step i) = some m'') :
    m''.ahead i < m'.ahead i := by
  obtain ⟨g, ht, hg⟩ := h.thread
  obtain ⟨m₃, post, step, hthr, hless⟩ := holder_goes q ht (Frame.holds_of_surveys hg)
  rw [hnext] at step
  cases step
  have ht' : m''.threads[i]? = some (post ++ below) := by
    rw [hthr, List.getElem?_set_self (List.getElem?_eq_some_iff.mp ht).1]
  simp only [ahead, ht, ht', Option.getD_some, List.map_append, List.map_cons, List.sum_append, List.sum_cons]
  omega

end

end Machine

open Machine in
/-- Over every interleaving, a survey can always go on, and has less to look at then. When a list call is over it names
every entry that still runs, only entries that ran when it took the map, and each once; when a start is over with its
count, that is no less than how many still run and no more than how many ran when it took the map. So nothing runs at
the end of a list that is empty, and a start registers its entry only if fewer run than are allowed. -/
theorem survey_brackets {m₀ m m₁ m₂ : Machine} {steps steps' : List (Policy × Label)} {es : List Event} {p : Policy}
    {i : Nat} {f : Frame} {below : Thread} (h₀ : m₀.Initial) (h : Run m₀ steps es m) (fair : p.Fair)
    (ht : m.threads[i]? = some (f :: below)) (hf : f.surveys = false) (begins : m.next? p (.step i) = some m₁)
    (survey : m₁.Surveys i steps' m₂) (q : Policy) :
    ∃ m₃, m₂.next? q (.step i) = some m₃ ∧ m₃.ahead i < m₂.ahead i ∧ (m₃.surveying i = false →
      Surveyed q i below m m₂ f m₃ ∧
      (m₃.threads[i]? = some (.answer (.ids []) :: below) → ∀ k, m₂.isRunning k = false) ∧
      ∀ c e, m₃ = m₂.register i c e below → m₂.runningCount < q.maxRunning) := by
  have hm := h.sound h₀.sound
  have hi := h.indexed h₀
  have hstart := Surveying.start hm (h.locked h₀) hi fair ht hf begins survey.begun
  have run₁ := (Run.nil (m := m)).snoc begins
  have hstands := survey.surveying h₀ h run₁ hstart
  obtain ⟨es', run'⟩ := survey.run
  have run := run₁.trans run'
  obtain ⟨m₃, step, hgoes⟩ := hstands.step run hm hi ((h.trans run).indexed h₀) q
  refine ⟨m₃, step, hstands.ahead_lt step, fun hover => ?_⟩
  obtain ⟨g, ht', -⟩ := hstands.thread
  have hsurveyed : Surveyed q i below m m₂ f m₃ := hgoes.resolve_left fun hon => by
    obtain ⟨g', ht₃, hg'⟩ := hon.thread
    rw [surveying_eq ht₃, hg'] at hover
    cases hover
  exact ⟨hsurveyed, hsurveyed.of_empty ht', fun _ _ => hsurveyed.of_registered ht'⟩

/-- One sub-agent may run at a time. -/
def onePlace : Policy := { maxRunning := 1 }

/-- A run has the only place, a cancel has found it, and the first thread is at `t`. -/
def cancelBegun (t : Thread) (fresh : Nat) : Machine :=
  let scope : Scope := ⟨⟨0, [0]⟩, some (plainContext "a").limits.timeout.nanos⟩
  { now := 0, signals := { fresh },
    entries := [{ Entry.new "a" scope 0 with announced := true }], tracked := [("a", 0)],
    threads := [t, [.latch 0], [.run (plainContext "a") 0]] }

/-- What leads there. -/
def cancelBegins (call : List Label) : List Label :=
  [.call 0 (.plainStart "a"), .step 0, .step 0, .step 0, .step 0, .step 0, .step 0, .take 0,
    .call 1 (.cancel "a"), .step 1] ++ call

open Machine in
/-- The run is cancelled after a survey has seen it. The list names it and the count has it, though nothing runs when
they are over. -/
theorem survey_brackets_cancelBegun :
    (∃ es m₁ m₂ m₃, Run twoCallers ((cancelBegins [.call 0 .listRunning]).map fun l => (onePlace, l)) es
        (cancelBegun [.listRunning] 1) ∧
      (cancelBegun [.listRunning] 1).next? onePlace (.step 0) = some m₁ ∧
      m₁.Surveys 0 [(onePlace, .step 0), (onePlace, .step 1)] m₂ ∧ m₂.runningCount = 0 ∧
      m₂.next? onePlace (.step 0) = some m₃ ∧ m₃.threads[0]? = some [.answer (.ids ["a"])] ∧
      Surveyed onePlace 0 [] (cancelBegun [.listRunning] 1) m₂ .listRunning m₃) ∧
    ∃ es e m₁ m₂ m₃, Run twoCallers
        ((cancelBegins [.call 0 (.plainStart "b"), .step 0]).map fun l => (onePlace, l)) es
        (cancelBegun [.enroll (plainContext "b") e] 2) ∧
      (cancelBegun [.enroll (plainContext "b") e] 2).next? onePlace (.step 0) = some m₁ ∧
      m₁.Surveys 0 [(onePlace, .step 0), (onePlace, .step 1)] m₂ ∧ m₂.runningCount = 0 ∧
      m₂.next? onePlace (.step 0) = some m₃ ∧
      m₃.threads[0]? = some [.answer (.refused (.capacityExceeded 1 1))] ∧
      Surveyed onePlace 0 [] (cancelBegun [.enroll (plainContext "b") e] 2) m₂ (.enroll (plainContext "b") e) m₃ := by
  have fair : onePlace.Fair := fun ks => .refl ks
  constructor
  · have h : Run twoCallers _ _ (cancelBegun [.listRunning] 1) :=
      Run.of_run? onePlace (cancelBegins [.call 0 .listRunning]) rfl
    have survey : (cancelBegun [.scanning [0] []] 1).Surveys 0 [(onePlace, .step 0), (onePlace, .step 1)] _ :=
      .snoc (.snoc (.nil rfl) rfl rfl) rfl rfl
    obtain ⟨m₃, step, -, ends⟩ := survey_brackets twoCallers_initial h fair rfl rfl rfl survey onePlace
    cases step
    exact ⟨_, _, _, _, h, rfl, survey, rfl, rfl, rfl, (ends rfl).1⟩
  · let e := Entry.new "b" ⟨⟨1, [0]⟩, some (plainContext "b").limits.timeout.nanos⟩ 0
    have h : Run twoCallers _ _ (cancelBegun [.enroll (plainContext "b") e] 2) :=
      Run.of_run? onePlace (cancelBegins [.call 0 (.plainStart "b"), .step 0]) rfl
    have survey : (cancelBegun [.counting (plainContext "b") e [0] 0] 2).Surveys 0
        [(onePlace, .step 0), (onePlace, .step 1)] _ :=
      .snoc (.snoc (.nil rfl) rfl rfl) rfl rfl
    obtain ⟨m₃, step, -, ends⟩ := survey_brackets twoCallers_initial h fair rfl rfl rfl survey onePlace
    cases step
    exact ⟨_, e, _, _, _, h, rfl, survey, rfl, rfl, rfl, (ends rfl).1⟩

end Overseer.Supervisor

import Overseer.Proofs.Agent.Beside
import Overseer.Proofs.Agent.Success

/-!
# The registry of runs in flight

Calls of an executor come in any order, from clones of it, and from within the calls that its runs make:
contexts are executed, runs hear answers and leave, be it with their record, in a panic or because nobody
waits for them, and ids are asked about and cancelled. The ids in flight are at any time those of the runs
that have entered and not left, each with the token of its own run.

* `World.perform?`: what a call does, and what it comes back with.
* `Course`: a sequence of calls with what each came back with; `Underway`: the runs that have entered and
  not left, read off it.
* `World.Exact`: what the registry answers, in terms of the runs under way.
* `registry_exact`: it does, after every course.
-/
namespace Overseer.Agent

/-- How a run leaves. -/
inductive Departure where
  /-- It has come to its ending, and returns its record. -/
  | returned
  /-- The model or the tool that it has called panics. -/
  | panicked
  /-- Nobody waits for it any more. -/
  | dropped
  deriving DecidableEq, Repr

/-- A run that waits for this may leave that way. -/
def Departure.fits : Departure → Move → Bool
  | .returned, .finish _ => true
  | .panicked, .ask _ | .panicked, .invoke _ => true
  | .dropped, _ => true
  | _, _ => false

/-- A call of an executor, or what its surroundings do meanwhile. -/
inductive Act where
  | execute (context : Context) (scope : Scope)
  /-- The model answers a run. -/
  | reply (n : Nat) (reply : Except ModelError ChatResponse)
  /-- A tool gives a run its output. -/
  | output (n : Nat) (output : Except ToolError String)
  | leave (n : Nat) (exit : Departure)
  | cancel (id : String)
  | status (id : String)
  /-- What comes next comes through a clone that may ask the model this often. -/
  | through (maxIterations : Nat)
  | raise (token : Token)
  | pass (now : Instant)

/-- What an act comes back with. -/
inductive Response where
  | entered (n : Nat)
  | refused (reason : Refusal)
  | status (status : Status)
  | done

/-- An executor at a moment. -/
structure World where
  executor : Executor
  moment : Moment

namespace World

/-- What an act does and comes back with, if it is possible. -/
def perform? (w : World) : Act → Option (Response × World)
  | .execute c scope =>
    match w.executor.enter c scope w.moment.signals w.moment.now with
    | .ok (n, executor) => some (.entered n, { w with executor })
    | .error reason => some (.refused reason, w)
  | .reply n reply =>
    (w.executor.hear? n (.reply w.moment reply)).map fun executor => (.done, { w with executor })
  | .output n output =>
    (w.executor.hear? n (.output w.moment output)).map fun executor => (.done, { w with executor })
  | .leave n exit =>
    match w.executor.move? n with
    | some move => if exit.fits move then some (.done, { w with executor := w.executor.leave n }) else none
    | none => none
  | .cancel id =>
    match w.executor.cancel w.moment.signals id with
    | .ok signals => some (.done, { w with moment.signals := signals })
    | .error reason => some (.refused reason, w)
  | .status id =>
    match w.executor.status id with
    | .ok status => some (.status status, w)
    | .error reason => some (.refused reason, w)
  | .through maxIterations => some (.done, { w with executor.maxIterations := max 1 maxIterations })
  | .raise token => some (.done, { w with moment.signals := w.moment.signals.raise token })
  | .pass now => if w.moment.now ≤ now then some (.done, { w with moment.now := now }) else none

end World

/-- Acts one after the other, with what each came back with. -/
inductive Course (w₀ : World) : List (Act × Response) → World → Prop where
  | nil : Course w₀ [] w₀
  | snoc {log : List (Act × Response)} {w w' : World} {act : Act} {response : Response}
      (course : Course w₀ log w) (step : w.perform? act = some (response, w')) :
      Course w₀ (log ++ [(act, response)]) w'

/-- The run `n` has entered with this context and scope, and has not left. -/
structure Underway (log : List (Act × Response)) (n : Nat) (c : Context) (scope : Scope) : Prop where
  entered : (.execute c scope, .entered n) ∈ log
  stays : ∀ exit response, (.leave n exit, response) ∉ log

/-- What the registry answers, in terms of the runs that are under way. -/
structure World.Exact (log : List (Act × Response)) (w : World) : Prop where
  /-- The ids in flight are those of the runs under way, each with the token of its run. -/
  registered : ∀ id t, w.executor.inFlight.lookup id = some t ↔
    ∃ n c scope, Underway log n c scope ∧ c.id = id ∧ scope.token = t
  apart : ∀ n n' c c' scope scope', Underway log n c scope → Underway log n' c' scope' → c.id = c'.id → n = n'
  /-- A context whose id is in flight is refused, after its own faults, and nothing else happens. -/
  refuses : ∀ n c scope, Underway log n c scope → ∀ c' scope', c'.id = c.id →
    w.perform? (.execute c' scope') = some (.refused (match c'.validate with
      | .ok () => .alreadyTracked c.id
      | .error fault => .invalid fault), w)
  /-- A run under way is running, and can be cancelled by its id. -/
  answers : ∀ n c scope, Underway log n c scope →
    w.perform? (.status c.id) = some (.status .running, w) ∧
    ∃ w', w.perform? (.cancel c.id) = some (.done, w') ∧ w'.executor = w.executor ∧
      scope.isCancelled w'.moment.signals = true
  /-- An id that is not in flight is not found, and can be used. -/
  free : ∀ id, (∀ n c scope, Underway log n c scope → c.id ≠ id) →
    w.perform? (.status id) = some (.refused (.notFound id), w) ∧
    w.perform? (.cancel id) = some (.refused (.notFound id), w) ∧
    ∀ c scope, c.id = id → c.validate = .ok () → ∃ n w', w.perform? (.execute c scope) = some (.entered n, w')
  /-- When a run has left, whichever way, its id can be used again. -/
  frees : ∀ n c scope, Underway log n c scope → ∀ exit response w',
    w.perform? (.leave n exit) = some (response, w') → w'.executor.inFlight.lookup c.id = none ∧
    ∀ c' scope', c'.id = c.id → c'.validate = .ok () →
      ∃ n' w'', w'.perform? (.execute c' scope') = some (.entered n', w'')

/-! ## Who is under way -/

section

variable {log : List (Act × Response)} {act : Act} {response : Response} {n k : Nat} {c c' : Context}
  {scope scope' : Scope}

theorem mem_of_leave_mem (hl : ∀ n exit, act ≠ .leave n exit) {exit : Departure} {response' : Response}
    (h : (.leave n exit, response') ∈ log ++ [(act, response)]) : (.leave n exit, response') ∈ log := by
  refine (List.mem_append.mp h).resolve_right fun heq => ?_
  cases List.mem_singleton.mp heq
  exact hl n exit rfl

/-- No run enters and none leaves. -/
theorem underway_append (hr : ∀ n, response ≠ .entered n) (hl : ∀ n exit, act ≠ .leave n exit) :
    Underway (log ++ [(act, response)]) n c scope ↔ Underway log n c scope := by
  constructor
  · rintro ⟨entered, stays⟩
    refine ⟨(List.mem_append.mp entered).resolve_right fun h => ?_, fun exit r hmem =>
      stays exit r (List.mem_append_left _ hmem)⟩
    cases List.mem_singleton.mp h
    exact hr n rfl
  · rintro ⟨entered, stays⟩
    exact ⟨List.mem_append_left _ entered, fun exit r hmem => stays exit r (mem_of_leave_mem hl hmem)⟩

theorem underway_entered (hn : ∀ exit response, (.leave n exit, response) ∉ log) :
    Underway (log ++ [(.execute c scope, .entered n)]) k c' scope' ↔
      Underway log k c' scope' ∨ k = n ∧ c' = c ∧ scope' = scope := by
  constructor
  · rintro ⟨entered, stays⟩
    rcases List.mem_append.mp entered with h | h
    · exact Or.inl ⟨h, fun exit r hmem => stays exit r (List.mem_append_left _ hmem)⟩
    · cases List.mem_singleton.mp h
      exact Or.inr ⟨rfl, rfl, rfl⟩
  · rintro (⟨entered, stays⟩ | ⟨rfl, rfl, rfl⟩)
    · exact ⟨List.mem_append_left _ entered, fun exit r hmem => stays exit r (by simpa using hmem)⟩
    · exact ⟨by simp, fun exit r hmem => hn exit r (by simpa using hmem)⟩

theorem underway_left {exit : Departure} :
    Underway (log ++ [(.leave n exit, response)]) k c scope ↔ k ≠ n ∧ Underway log k c scope := by
  constructor
  · rintro ⟨entered, stays⟩
    refine ⟨?_, by simpa using entered, fun exit r hmem => stays exit r (List.mem_append_left _ hmem)⟩
    rintro rfl
    exact stays exit response (by simp)
  · rintro ⟨hne, entered, stays⟩
    refine ⟨List.mem_append_left _ entered, fun exit r hmem => ?_⟩
    refine (List.mem_append.mp hmem).elim (stays exit r) fun h => ?_
    cases List.mem_singleton.mp h
    exact hne rfl

end

/-! ## What a course keeps -/

/-- The runs at work are those under way, and only they are in flight. -/
structure World.Tracks (log : List (Act × Response)) (w : World) : Prop where
  tidy : w.executor.Tidy
  owned : ∀ id t, w.executor.inFlight.lookup id = some t →
    ∃ n a, w.executor.active? n = some a ∧ a.run.task.context.id = id
  known : ∀ n c scope, Underway log n c scope ↔ ∃ r, w.executor.active? n = some ⟨scope, r⟩ ∧ r.task.context = c
  numbered : ∀ n exit response, (.leave n exit, response) ∈ log → n < w.executor.runs.length

namespace World

variable {log : List (Act × Response)} {w w' : World} {act : Act} {response : Response} {n : Nat}

theorem tracks_new (tools : List ToolDefinition) (maxIterations : Nat) (moment : Moment) :
    Tracks [] ⟨Executor.new tools maxIterations, moment⟩ where
  tidy := Executor.tidy_new tools maxIterations
  owned id t h := by cases h
  known n c scope := ⟨fun h => (by cases h.entered), fun ⟨r, h, _⟩ => (by cases h)⟩
  numbered n exit response h := by cases h

/-- No run enters, hears an answer or leaves. -/
theorem Tracks.quiet (h : w.Tracks log) (hf : w'.executor.inFlight = w.executor.inFlight)
    (hr : w'.executor.runs = w.executor.runs) (hresponse : ∀ n, response ≠ .entered n)
    (hact : ∀ n exit, act ≠ .leave n exit) : w'.Tracks (log ++ [(act, response)]) := by
  have hactive (k : Nat) : w'.executor.active? k = w.executor.active? k := by
    rw [Executor.active?, hr, Executor.active?]
  refine ⟨⟨fun m a ha => ?_, fun m m' a a' ha ha' => ?_⟩, fun id t ht => ?_, fun n c scope => ?_,
    fun n exit r hmem => ?_⟩
  · rw [hf]; exact h.tidy.tracked m a (hactive m ▸ ha)
  · exact h.tidy.apart m m' a a' (hactive m ▸ ha) (hactive m' ▸ ha')
  · simp only [hactive]; exact h.owned id t (hf ▸ ht)
  · rw [underway_append hresponse hact, hactive]; exact h.known n c scope
  · rw [hr]; exact h.numbered n exit r (mem_of_leave_mem hact hmem)

theorem Tracks.enter {c : Context} {scope : Scope} {e : Executor} (h : w.Tracks log)
    (henter : w.executor.enter c scope w.moment.signals w.moment.now = .ok (n, e)) :
    Tracks (log ++ [(.execute c scope, .entered n)]) { w with executor := e } := by
  have htidy := h.tidy.enter henter
  obtain ⟨-, rfl, rfl⟩ := Executor.enter_inv henter
  have hnew (exit : Departure) (response : Response) : (.leave w.executor.runs.length exit, response) ∉ log :=
    fun hmem => Nat.lt_irrefl _ (h.numbered _ exit response hmem)
  refine ⟨htidy, fun id t ht => ?_, fun k c' scope' => ?_, fun k exit r hmem => ?_⟩
  · rw [List.lookup_cons] at ht
    split at ht
    · rename_i heq
      refine ⟨w.executor.runs.length, _, Executor.active?_append.mpr (Or.inr ⟨rfl, rfl⟩), ?_⟩
      rw [Executor.task_start]
      exact (by simpa using heq : id = c.id).symm
    · obtain ⟨k, a, ha, hid⟩ := h.owned id t ht
      exact ⟨k, a, Executor.active?_append.mpr (Or.inl ha), hid⟩
  · rw [underway_entered hnew, h.known]
    simp only [Executor.active?_append]
    constructor
    · rintro (⟨r, ha, hc⟩ | ⟨rfl, rfl, rfl⟩)
      · exact ⟨r, Or.inl ha, hc⟩
      · exact ⟨_, Or.inr ⟨rfl, rfl⟩, by rw [Executor.task_start]; rfl⟩
    · rintro ⟨r, ha | ⟨rfl, heq⟩, hc⟩
      · exact Or.inl ⟨r, ha, hc⟩
      · cases heq
        rw [Executor.task_start] at hc
        exact Or.inr ⟨rfl, hc.symm, rfl⟩
  · have := h.numbered k exit r (mem_of_leave_mem (fun _ _ heq => by cases heq) hmem)
    simp only [List.length_append, List.length_singleton]
    omega

theorem Tracks.hear {heard : Heard} {e : Executor} (h : w.Tracks log) (hear : w.executor.hear? n heard = some e)
    (hresponse : ∀ n, response ≠ .entered n) (hact : ∀ n exit, act ≠ .leave n exit) :
    Tracks (log ++ [(act, response)]) { w with executor := e } := by
  have hactive (k : Nat) (c : Context) (scope : Scope) :
      (∃ r, e.active? k = some ⟨scope, r⟩ ∧ r.task.context = c) ↔
        ∃ r, w.executor.active? k = some ⟨scope, r⟩ ∧ r.task.context = c := Executor.active?_hear? hear
  have htidy := h.tidy.hear hear
  obtain ⟨_, _, _, -, -, heq⟩ := Executor.hear?_inv hear
  refine ⟨htidy, fun id t ht => ?_, fun k c scope => ?_, fun k exit r hmem => ?_⟩
  · have ht' : w.executor.inFlight.lookup id = some t := by rw [heq] at ht; exact ht
    obtain ⟨k, a, ha, hid⟩ := h.owned id t ht'
    obtain ⟨r, hr, hc⟩ := (hactive _ _ _).mpr ⟨a.run, ha, rfl⟩
    exact ⟨k, _, hr, by rw [← hid, ← hc]⟩
  · rw [underway_append hresponse hact, h.known]; exact (hactive k c scope).symm
  · have := h.numbered k exit r (mem_of_leave_mem hact hmem)
    rw [heq]; simpa using this

theorem Tracks.leave {exit : Departure} {a : Active} (h : w.Tracks log) (ha : w.executor.active? n = some a) :
    Tracks (log ++ [(.leave n exit, response)]) { w with executor := w.executor.leave n } := by
  have heq : w.executor.leave n = { w.executor with
      inFlight := w.executor.inFlight.leave a.run.task.context.id
      runs := w.executor.runs.set n none } := by rw [Executor.leave, ha]
  refine ⟨h.tidy.leave n, fun id t ht => ?_, fun k c scope => ?_, fun k exit' r hmem => ?_⟩
  · rw [heq, InFlight.lookup_leave] at ht
    obtain ⟨hne, ht⟩ := Option.ite_none_left_eq_some.mp ht
    obtain ⟨k, b, hb, hid⟩ := h.owned id t ht
    refine ⟨k, b, Executor.active?_leave.mpr ⟨?_, hb⟩, hid⟩
    rintro rfl
    rw [ha] at hb; cases hb
    exact hne hid.symm
  · rw [underway_left, h.known]
    simp only [Executor.active?_leave]
    exact ⟨fun ⟨hk, r, hr, hc⟩ => ⟨r, ⟨hk, hr⟩, hc⟩, fun ⟨r, ⟨hk, hr⟩, hc⟩ => ⟨hk, r, hr, hc⟩⟩
  · rw [heq]
    show k < (w.executor.runs.set n none).length
    rw [List.length_set]
    rcases List.mem_append.mp hmem with hmem | hmem
    · exact h.numbered k exit' r hmem
    · cases List.mem_singleton.mp hmem
      exact Executor.lt_of_active? ha

theorem active_of_leave {exit : Departure} (h : w.perform? (.leave n exit) = some (response, w')) :
    (∃ a, w.executor.active? n = some a) ∧ w' = { w with executor := w.executor.leave n } := by
  simp only [perform?] at h
  split at h
  · rename_i move hmove
    obtain ⟨a, ha, -⟩ := Option.map_eq_some_iff.mp hmove
    split at h
    · cases h; exact ⟨⟨a, ha⟩, rfl⟩
    · cases h
  · cases h

theorem Tracks.of_perform? (h : w.Tracks log) (step : w.perform? act = some (response, w')) :
    w'.Tracks (log ++ [(act, response)]) := by
  cases act with
  | execute c scope =>
    simp only [perform?] at step
    split at step
    · cases step; exact h.enter ‹_›
    · cases step; exact h.quiet rfl rfl nofun nofun
  | reply n reply =>
    obtain ⟨e, hear, heq⟩ := Option.map_eq_some_iff.mp step
    cases heq; exact h.hear hear nofun nofun
  | output n output =>
    obtain ⟨e, hear, heq⟩ := Option.map_eq_some_iff.mp step
    cases heq; exact h.hear hear nofun nofun
  | leave n exit =>
    obtain ⟨⟨a, ha⟩, rfl⟩ := active_of_leave step
    exact h.leave ha
  | cancel id =>
    simp only [perform?] at step
    split at step <;> cases step <;> exact h.quiet rfl rfl nofun nofun
  | status id =>
    simp only [perform?] at step
    split at step <;> cases step <;> exact h.quiet rfl rfl nofun nofun
  | through maxIterations => cases step; exact h.quiet rfl rfl nofun nofun
  | raise token => cases step; exact h.quiet rfl rfl nofun nofun
  | pass now =>
    simp only [perform?] at step
    split at step <;> cases step
    exact h.quiet rfl rfl nofun nofun

theorem tracks_of_course {tools : List ToolDefinition} {maxIterations : Nat} {moment : Moment}
    (h : Course ⟨Executor.new tools maxIterations, moment⟩ log w) : w.Tracks log := by
  induction h with
  | nil => exact tracks_new tools maxIterations moment
  | snoc _ step ih => exact ih.of_perform? step

/-! ## What the registry answers -/

/-- The ids in flight are those of the runs under way. -/
theorem Tracks.lookup_iff (h : w.Tracks log) {id : String} {t : Token} :
    w.executor.inFlight.lookup id = some t ↔
      ∃ n c scope, Underway log n c scope ∧ c.id = id ∧ scope.token = t := by
  constructor
  · intro ht
    obtain ⟨n, a, ha, hid⟩ := h.owned id t ht
    have htoken := h.tidy.tracked n a ha
    rw [hid, ht] at htoken
    exact ⟨n, _, a.scope, (h.known n _ _).mpr ⟨a.run, ha, rfl⟩, hid, (Option.some.inj htoken).symm⟩
  · rintro ⟨n, c, scope, hn, rfl, rfl⟩
    obtain ⟨r, ha, rfl⟩ := (h.known n c scope).mp hn
    exact h.tidy.tracked n _ ha

theorem Tracks.lookup_eq_none (h : w.Tracks log) {id : String}
    (hfree : ∀ n c scope, Underway log n c scope → c.id ≠ id) : w.executor.inFlight.lookup id = none := by
  refine Option.eq_none_iff_forall_ne_some.mpr fun t ht => ?_
  obtain ⟨n, c, scope, hn, hid, -⟩ := h.lookup_iff.mp ht
  exact hfree n c scope hn hid

theorem Tracks.apart {n' : Nat} {c c' : Context} {scope scope' : Scope} (h : w.Tracks log)
    (hn : Underway log n c scope) (hn' : Underway log n' c' scope') (hid : c.id = c'.id) : n = n' := by
  obtain ⟨r, ha, rfl⟩ := (h.known n c scope).mp hn
  obtain ⟨r', ha', rfl⟩ := (h.known n' c' scope').mp hn'
  exact h.tidy.apart n n' _ _ ha ha' hid

/-- A valid context enters if its id is not in flight. -/
theorem enters_of_lookup_eq_none {c : Context} (hnone : w.executor.inFlight.lookup c.id = none)
    (hv : c.validate = .ok ()) (scope : Scope) : ∃ n w', w.perform? (.execute c scope) = some (.entered n, w') := by
  obtain ⟨e, henter, -⟩ := Executor.enter_ok scope w.moment hv hnone
  exact ⟨w.executor.runs.length, { w with executor := e }, by simp [perform?, henter]⟩

theorem Tracks.exact (h : w.Tracks log) : w.Exact log where
  registered id t := h.lookup_iff
  apart n n' c c' scope scope' hn hn' hid := h.apart hn hn' hid
  refuses n c scope hn c' scope' hid := by
    have hused := h.lookup_iff.mpr ⟨n, c, scope, hn, rfl, rfl⟩
    cases hv : c'.validate with
    | error fault => simp [perform?, Executor.enter, hv]
    | ok => simp [perform?, Executor.enter, hv, InFlight.enter, hid, hused, bind, Except.bind]
  answers n c scope hn := by
    have hused := h.lookup_iff.mpr ⟨n, c, scope, hn, rfl, rfl⟩
    refine ⟨?_, { w with moment.signals := w.moment.signals.raise scope.token }, ?_, rfl, ?_⟩
    · simp [perform?, Executor.status, InFlight.status, InFlight.find, hused, Except.map]
    · simp [perform?, Executor.cancel, InFlight.cancel, InFlight.find, hused, Except.map]
    · simp [Scope.isCancelled, Signals.isCancelled, Signals.raise]
  free id hfree := by
    have hnone := h.lookup_eq_none hfree
    refine ⟨?_, ?_, ?_⟩
    · simp [perform?, Executor.status, InFlight.status, InFlight.find, hnone, Except.map]
    · simp [perform?, Executor.cancel, InFlight.cancel, InFlight.find, hnone, Except.map]
    · rintro c scope rfl hv
      exact enters_of_lookup_eq_none hnone hv scope
  frees n c scope hn exit response w' step := by
    have hnone : w'.executor.inFlight.lookup c.id = none := by
      refine (h.of_perform? step).lookup_eq_none fun n' c' scope' hn' hid => ?_
      obtain ⟨hne, hn'⟩ := underway_left.mp hn'
      exact hne (h.apart hn' hn hid)
    exact ⟨hnone, fun c' scope' hid hv => enters_of_lookup_eq_none (hid ▸ hnone) hv scope'⟩

end World

/-- After every course of an executor, its registry answers for exactly the runs that are under way. -/
theorem registry_exact {tools : List ToolDefinition} {maxIterations : Nat} {moment : Moment}
    {log : List (Act × Response)} {w : World}
    (h : Course ⟨Executor.new tools maxIterations, moment⟩ log w) : w.Exact log :=
  (World.tracks_of_course h).exact

/-- What some acts come back with and where they lead to, if they are possible. -/
def World.performAll? (w : World) (log : List (Act × Response)) :
    List Act → Option (List (Act × Response) × World)
  | [] => some (log, w)
  | act :: rest =>
    match w.perform? act with
    | none => none
    | some (response, w') => w'.performAll? (log ++ [(act, response)]) rest

theorem Course.of_performAll? {w₀ w w' : World} {log log' : List (Act × Response)} (acts : List Act)
    (course : Course w₀ log w) (h : w.performAll? log acts = some (log', w')) : Course w₀ log' w' := by
  induction acts generalizing w log with
  | nil => cases h; exact course
  | cons act rest ih =>
    simp only [World.performAll?] at h
    split at h
    · cases h
    · exact ih (course.snoc ‹_›) h

/-- An executor with nothing to do, at the beginning. -/
def dawn : World := ⟨Executor.new [] 2, ⟨{}, 0⟩⟩

/-- A scope of its own. -/
def ownScope (key : Nat) : Scope := ⟨⟨key, []⟩, none⟩

/-- A context is executed twice, and cancelled; its run panics, and it is executed again. -/
def reusedId : List (Act × Response) :=
  [(.execute Executor.askTheTime (ownScope 0), .entered 0),
    (.execute Executor.askTheTime (ownScope 1), .refused (.alreadyTracked "a")), (.cancel "a", .done),
    (.leave 0 .panicked, .done), (.execute Executor.askTheTime (ownScope 2), .entered 1)]

theorem registry_exact_reusedId :
    ∃ w, Course dawn reusedId w ∧ w.executor.inFlight.lookup "a" = some (ownScope 2).token := by
  obtain ⟨w, h⟩ : ∃ w, Course dawn reusedId w :=
    ⟨_, Course.of_performAll? (reusedId.map (·.1)) .nil rfl⟩
  have hn : Underway reusedId 1 Executor.askTheTime (ownScope 2) := ⟨by simp [reusedId], by simp [reusedId]⟩
  exact ⟨w, h, ((registry_exact h).registered "a" _).mpr ⟨1, _, _, hn, rfl, rfl⟩⟩

/-- A context that has a fault, and an id in flight, is refused for its fault. -/
theorem fault_before_id : ∃ log w, Course dawn log w ∧ Underway log 0 Executor.askTheTime (ownScope 0) ∧
    w.perform? (.execute { Executor.askTheTime with parentId := "" } (ownScope 1)) =
      some (.refused (.invalid .emptyParent), w) := by
  have h : ∃ w, Course dawn [(.execute Executor.askTheTime (ownScope 0), .entered 0)] w ∧
      w.perform? (.execute { Executor.askTheTime with parentId := "" } (ownScope 1)) =
        some (.refused (.invalid .emptyParent), w) :=
    ⟨_, Course.of_performAll? [.execute Executor.askTheTime (ownScope 0)] .nil rfl, rfl⟩
  obtain ⟨w, h, hrefused⟩ := h
  exact ⟨_, w, h, ⟨by simp, by simp⟩, hrefused⟩

end Overseer.Agent

import Overseer.Proofs.Supervisor.Latch

/-!
# Notifications of an entry

The hook hears of an entry that it runs, and then once how it ended. A status latched before the first
of these has come back is held back, and reported by the start that made it; one latched later is
reported by whoever latched it. `Machine.duties` lists what is still to be done about the notifications
of an entry, in the frames of all threads; `Telling` says which duties there are at each point of the
way, and what has been reported by then.

* `notified_in_order`: over any run in which the hook returns, the notifications of an entry are a prefix
  of running and its final status, in this order, each once; the second begins, and the executor begins,
  only when the first has come back; and once nothing is left to be done both have been made.
-/
namespace Overseer.Supervisor

/-! ## Duties -/

/-- What a frame has to do about the notifications of an entry. -/
inductive Duty where
  /-- A notification is due. -/
  | due (status : Status)
  /-- A notification has begun. -/
  | underway (status : Status)
  /-- The start has to announce the entry. -/
  | announce
  deriving DecidableEq, Repr

def Frame.duty? (k : Key) : Frame → Option Duty
  | .notify key s => if key = k then some (.due s) else none
  | .hook _ key s => if key = k then some (.underway s) else none
  | .announce _ key => if key = k then some .announce else none
  | _ => none

def Thread.duties (k : Key) (t : Thread) : List Duty := t.filterMap (Frame.duty? k)

/-- What is still to be done about the notifications of an entry. -/
def Machine.duties (m : Machine) (k : Key) : List Duty := m.threads.flatMap (Thread.duties k)

theorem Frame.duty?_eq_none {k : Key} {f : Frame} (h : f.charge? ≠ some k) : f.duty? k = none := by
  cases f <;> simp_all [charge?, duty?]

/-- A first notification that is due or has begun sits upon the frame that will announce the entry. -/
theorem Frame.Fits.announce_below {k : Key} {f : Frame} {below : Thread} (hf : f.Fits below)
    (h : f.duty? k = some (.due .running) ∨ f.duty? k = some (.underway .running)) :
    ∃ c rest, below = .announce c k :: rest := by
  cases f with
  | notify key s =>
    by_cases hk : key = k
    · have hs : s = .running := by simpa [duty?, hk] using h
      subst hk hs; exact hf
    · simp [duty?, hk] at h
  | hook hook key s =>
    by_cases hk : key = k
    · have hs : s = .running := by simpa [duty?, hk] using h
      subst hk hs; exact hf
    · simp [duty?, hk] at h
  | announce c key => simp only [duty?] at h; split at h <;> simp at h
  | _ => simp [duty?] at h

namespace Thread

theorem duties_append (k : Key) (a b : Thread) : duties k (a ++ b) = duties k a ++ duties k b :=
  List.filterMap_append ..

theorem duties_cons (k : Key) (f : Frame) (t : Thread) :
    duties k (f :: t) = (f.duty? k).toList ++ duties k t := by
  cases h : f.duty? k <;> simp [duties, h]

theorem duties_cons_free {f : Frame} (h : f.charge? = none) (k : Key) (t : Thread) :
    duties k (f :: t) = duties k t := by
  rw [duties_cons, Frame.duty?_eq_none (by simp [h]), Option.toList_none, List.nil_append]

theorem duties_eq_nil {k : Key} {t : Thread} (h : ∀ f ∈ t, f.duty? k = none) : duties k t = [] :=
  List.filterMap_eq_nil_iff.mpr h

theorem announce_mem_duties {k : Key} {t : Thread} (hs : Settled t)
    (h : .due .running ∈ duties k t ∨ .underway .running ∈ duties k t) : .announce ∈ duties k t := by
  have h : ∃ f ∈ t, f.duty? k = some (.due .running) ∨ f.duty? k = some (.underway .running) := by
    rcases h with h | h <;> obtain ⟨f, hf, hd⟩ := List.mem_filterMap.mp h
    · exact ⟨f, hf, Or.inl hd⟩
    · exact ⟨f, hf, Or.inr hd⟩
  obtain ⟨f, hf, hd⟩ := h
  obtain ⟨pre, below, rfl⟩ := List.append_of_mem hf
  obtain ⟨c, rest, rfl⟩ := (Settled.tail hs).1.announce_below hd
  exact List.mem_filterMap.mpr ⟨.announce c k, by simp, by simp [Frame.duty?]⟩

end Thread

namespace Machine

variable {m : Machine} {k : Key}

/-- The duties in one thread, and those in the threads before and behind it. -/
theorem duties_split {i : Nat} {t : Thread} (ht : m.threads[i]? = some t)
    (hs : ∀ t ∈ m.threads, Thread.Settled t) :
    ∃ a b, m.duties k = a ++ Thread.duties k t ++ b ∧
      (∀ t', (m.threads.set i t').flatMap (Thread.duties k) = a ++ Thread.duties k t' ++ b) ∧
      (.due .running ∈ a ∨ .underway .running ∈ a → .announce ∈ a) := by
  obtain ⟨hi, rfl⟩ := List.getElem?_eq_some_iff.mp ht
  have hset (t' : Thread) : (m.threads.set i t').flatMap (Thread.duties k) =
      (m.threads.take i).flatMap (Thread.duties k) ++ Thread.duties k t' ++
        (m.threads.drop (i + 1)).flatMap (Thread.duties k) := by
    rw [List.set_eq_take_append_cons_drop, if_pos hi]; simp
  refine ⟨_, _, ?_, hset, fun h => ?_⟩
  · rw [← hset, List.set_getElem_self, duties]
  · have h : ∃ t ∈ m.threads.take i,
        .due .running ∈ Thread.duties k t ∨ .underway .running ∈ Thread.duties k t := by
      rcases h with h | h <;> obtain ⟨t, ht, hd⟩ := List.mem_flatMap.mp h
      · exact ⟨t, ht, Or.inl hd⟩
      · exact ⟨t, ht, Or.inr hd⟩
    obtain ⟨t, ht, hd⟩ := h
    exact List.mem_flatMap.mpr ⟨t, ht, Thread.announce_mem_duties (hs t (List.mem_of_mem_take ht)) hd⟩

/-- A thread that goes on with the same duties changes nothing. -/
theorem duties_set_eq {i : Nat} {t t' : Thread} (ht : m.threads[i]? = some t)
    (h : Thread.duties k t' = Thread.duties k t) (hs : ∀ t ∈ m.threads, Thread.Settled t) :
    (m.threads.set i t').flatMap (Thread.duties k) = m.duties k := by
  obtain ⟨a, b, hd, hset, -⟩ := duties_split ht hs (k := k)
  rw [hset, hd, h]

theorem Sound.duties_eq_nil (h : m.Sound) (hk : m.entries.length ≤ k) : m.duties k = [] := by
  simp only [duties, List.flatMap_eq_nil_iff]
  refine fun t ht => Thread.duties_eq_nil fun f hf => Frame.duty?_eq_none fun hc => ?_
  exact Nat.not_lt.mpr hk (h.charged t ht f hf k hc)

end Machine

/-! ## What has been told -/

/-- The status of a notification of the entry that begins. -/
def Event.begun? (k : Key) : Event → Option Status
  | .notified key s => if key = k then some s else none
  | _ => none

/-- The status of a notification of the entry that has come back. -/
def Event.done? (k : Key) : Event → Option Status
  | .noted key s => if key = k then some s else none
  | _ => none

/-- The notifications of an entry that have begun, in order. -/
def begun (k : Key) (es : List Event) : List Status := es.filterMap (Event.begun? k)

/-- The notifications of an entry that have come back, in order. -/
def done (k : Key) (es : List Event) : List Status := es.filterMap (Event.done? k)

theorem begun_append (k : Key) (es es' : List Event) : begun k (es ++ es') = begun k es ++ begun k es' :=
  List.filterMap_append ..

theorem done_append (k : Key) (es es' : List Event) : done k (es ++ es') = done k es ++ done k es' :=
  List.filterMap_append ..

/-- The duties about an entry at each point of the way, and the notifications that have begun and come
back by then. -/
inductive Telling (e : Entry) : List Duty → List Status → List Status → Prop where
  | registered (early : e.announced = false) (held : e.held = if e.status = .running then none else some e.status) :
      Telling e [.due .running, .announce] [] []
  | greeting (early : e.announced = false) (held : e.held = if e.status = .running then none else some e.status) :
      Telling e [.underway .running, .announce] [.running] []
  | greeted (early : e.announced = false) (held : e.held = if e.status = .running then none else some e.status) :
      Telling e [.announce] [.running] [.running]
  | running (announced : e.announced = true) (running : e.status = .running) :
      Telling e [] [.running] [.running]
  | latched (announced : e.announced = true) (terminal : e.status.isTerminal = true) :
      Telling e [.due e.status] [.running] [.running]
  | reporting (announced : e.announced = true) (terminal : e.status.isTerminal = true) :
      Telling e [.underway e.status] [.running, e.status] [.running]
  | told (announced : e.announced = true) (terminal : e.status.isTerminal = true) :
      Telling e [] [.running, e.status] [.running, e.status]

/-- What one move can do to an entry and the duties about it, and the notifications of the entry that
begin and come back with it. -/
inductive Shift : Option Entry → List Duty → Entry → List Duty → List Status → List Status → Prop where
  | rest {e : Entry} {ds : List Duty} : Shift (some e) ds e ds [] []
  | register {e : Entry} (fresh : e.Fresh) : Shift none [] e [.due .running, .announce] [] []
  | announce {e : Entry} {a b : List Duty}
      (first : .due .running ∈ a ∨ .underway .running ∈ a → .announce ∈ a) :
      Shift (some e) (a ++ .announce :: b) e.announce.1 (a ++ e.held.toList.map .due ++ b) [] []
  | latch {e e' : Entry} {s : Status} {l : Latch} {a b : List Duty} (attempt : Entry.Latching e e' s l)
      (terminal : s.isTerminal = true) :
      Shift (some e) (a ++ b) e' (a ++ (if l = .notify then [.due s] else []) ++ b) [] []
  | begins {e : Entry} {s : Status} {a b : List Duty} :
      Shift (some e) (a ++ .due s :: b) e (a ++ .underway s :: b) [s] []
  | skips {e : Entry} {s : Status} {a b : List Duty} :
      Shift (some e) (a ++ .due s :: b) e (a ++ b) [s] [s]
  | ends {e : Entry} {s : Status} {a b : List Duty} :
      Shift (some e) (a ++ .underway s :: b) e (a ++ b) [] [s]

theorem Telling.latching {e e' : Entry} {s : Status} {l : Latch} {a b : List Duty} {bs fs : List Status}
    (h : Telling e (a ++ b) bs fs) (attempt : Entry.Latching e e' s l) (terminal : s.isTerminal = true) :
    Telling e' (a ++ (if l = .notify then [.due s] else []) ++ b) bs fs := by
  have hs := Status.isTerminal_ne_running terminal
  generalize hds : a ++ b = ds at h
  cases attempt with
  | refused _ same => simpa [same, hds] using h
  | notify running announced _ announced' _ status =>
    subst status
    cases h with
    | running =>
      obtain ⟨rfl, rfl⟩ := List.append_eq_nil_iff.mp hds
      exact .latched announced' terminal
    | registered early | greeting early | greeted early => rw [announced] at early; cases early
    | latched _ ht | reporting _ ht | told _ ht => rw [running] at ht; cases ht
  | held running announced _ announced' held status =>
    subst status
    have held : e'.held = if e'.status = .running then none else some e'.status := by rw [if_neg hs, held]
    simp only [reduceCtorEq, if_false, List.append_nil, hds]
    cases h with
    | registered => exact .registered announced' held
    | greeting => exact .greeting announced' held
    | greeted => exact .greeted announced' held
    | running h | latched h | reporting h | told h => rw [announced] at h; cases h

theorem Telling.step {o : Option Entry} {e' : Entry} {ds ds' : List Duty} {bs fs bs' fs' : List Status}
    (h : Shift o ds e' ds' bs' fs') (ht : ∀ e, o = some e → e.Sound ∧ Telling e ds bs fs)
    (hn : o = none → bs = [] ∧ fs = []) : Telling e' ds' (bs ++ bs') (fs ++ fs') := by
  cases h with
  | rest => simpa using (ht _ rfl).2
  | register fresh =>
    obtain ⟨rfl, rfl⟩ := hn rfl
    exact .registered fresh.2.1 (by simp [fresh.2.2, Entry.status_of_record fresh.1])
  | @announce e a b first =>
    obtain ⟨hs, ht⟩ := ht _ rfl
    generalize hds : a ++ .announce :: b = ds at ht
    cases ht with
    | registered | greeting =>
      rcases a with _ | ⟨d, _ | ⟨d', a⟩⟩ <;> simp at hds
      obtain ⟨rfl, rfl⟩ := hds
      simp at first
    | greeted early held =>
      have hab : a = [] ∧ b = [] := by rcases a with _ | ⟨d, a⟩ <;> simp_all
      obtain ⟨rfl, rfl⟩ := hab
      rw [held]
      rcases hs.running_or_terminal with ⟨hr, -, -⟩ | hterm
      · simpa [hr] using Telling.running (e := e.announce.1) rfl hr
      · rw [if_neg (Status.isTerminal_ne_running hterm)]
        exact .latched rfl hterm
    | _ => rcases a with _ | ⟨d, _ | ⟨d', a⟩⟩ <;> simp at hds
  | latch attempt terminal => simpa using (ht _ rfl).2.latching attempt terminal
  | @begins e s a b =>
    have ht := (ht _ rfl).2
    generalize hds : a ++ .due s :: b = ds at ht
    cases ht with
    | registered early held =>
      rcases a with _ | ⟨d, _ | ⟨d', a⟩⟩ <;> simp at hds
      obtain ⟨rfl, rfl⟩ := hds
      exact .greeting early held
    | latched announced terminal =>
      rcases a with _ | ⟨d, a⟩ <;> simp at hds
      obtain ⟨rfl, rfl⟩ := hds
      exact .reporting announced terminal
    | _ => rcases a with _ | ⟨d, _ | ⟨d', a⟩⟩ <;> simp at hds
  | @skips e s a b =>
    have ht := (ht _ rfl).2
    generalize hds : a ++ .due s :: b = ds at ht
    cases ht with
    | registered early held =>
      rcases a with _ | ⟨d, _ | ⟨d', a⟩⟩ <;> simp at hds
      obtain ⟨rfl, rfl⟩ := hds
      exact .greeted early held
    | latched announced terminal =>
      rcases a with _ | ⟨d, a⟩ <;> simp at hds
      obtain ⟨rfl, rfl⟩ := hds
      exact .told announced terminal
    | _ => rcases a with _ | ⟨d, _ | ⟨d', a⟩⟩ <;> simp at hds
  | @ends e s a b =>
    have ht := (ht _ rfl).2
    generalize hds : a ++ .underway s :: b = ds at ht
    cases ht with
    | greeting early held =>
      rcases a with _ | ⟨d, _ | ⟨d', a⟩⟩ <;> simp at hds
      obtain ⟨rfl, rfl⟩ := hds
      exact .greeted early held
    | reporting announced terminal =>
      rcases a with _ | ⟨d, a⟩ <;> simp at hds
      obtain ⟨rfl, rfl⟩ := hds
      exact .told announced terminal
    | _ => rcases a with _ | ⟨d, _ | ⟨d', a⟩⟩ <;> simp at hds

/-! ## Every move is a shift -/

section

variable {m m' : Machine} {es : List Event} {k : Key} {e e' : Entry}

open Machine in
/-- Whoever latches a status has its notification to make, unless it is held back. -/
theorem shift_of_latching {i : Nat} {pre post : Thread} {key : Key} {e₁ : Entry} {s : Status} {l : Latch}
    (hm : m.Sound) (ht : m.threads[i]? = some pre) (hd : ∀ k, Thread.duties k post = Thread.duties k pre)
    (he : m.entry? key = some e) (attempt : Entry.Latching e e₁ s l) (terminal : s.isTerminal = true)
    (he' : Machine.entry? (m.setEntry key e₁) k = some e') :
    Shift (m.entry? k) (m.duties k) e'
      ((m.threads.set i (l.notice key s ++ post)).flatMap (Thread.duties k)) [] [] := by
  obtain ⟨a, b, hold, hset, -⟩ := duties_split ht hm.settled (k := k)
  have hnotice : Thread.duties k (l.notice key s) =
      if key = k then (if l = .notify then [.due s] else []) else [] := by
    unfold Latch.notice
    by_cases hk : key = k <;> split <;> simp [Thread.duties, Frame.duty?, hk]
  rw [hset, hold, Thread.duties_append, hnotice, hd, ← List.append_assoc, List.append_assoc a,
    List.append_assoc (a ++ _)]
  rcases entry?_setEntry he' with ⟨rfl, rfl⟩ | ⟨hk, h⟩
  · rw [he, if_pos rfl]; exact .latch attempt terminal
  · rw [h, if_neg (Ne.symm hk), List.append_nil]; exact .rest

open Machine in
theorem Move.shift (h : Move m es m') (hm : m.Sound) (hb : ∀ k s, .broken k s ∉ es)
    (he' : m'.entry? k = some e') :
    Shift (m.entry? k) (m.duties k) e' (m'.duties k) (begun k es) (done k es) := by
  have rest (he : m.entry? k = some e') (hd : m'.duties k = m.duties k)
      (hbeg : begun k es = []) (hdon : done k es = []) :
      Shift (m.entry? k) (m.duties k) e' (m'.duties k) (begun k es) (done k es) := by
    rw [he, hd, hbeg, hdon]; exact .rest
  -- A notification goes on, of this entry or of another one.
  have tell (key : Key) {i : Nat} {t t' : Thread} (ht : m.threads[i]? = some t) (h' : m' = m.setThread i t')
      (own : key = k → ∀ a b, Shift (some e') (a ++ Thread.duties k t ++ b) e' (a ++ Thread.duties k t' ++ b)
        (begun k es) (done k es))
      (other : key ≠ k → Thread.duties k t' = Thread.duties k t ∧ begun k es = [] ∧ done k es = []) :
      Shift (m.entry? k) (m.duties k) e' (m'.duties k) (begun k es) (done k es) := by
    subst h'
    by_cases hk : key = k
    · obtain ⟨a, b, hd, hset, -⟩ := duties_split ht hm.settled (k := k)
      have he : m.entry? k = some e' := he'
      have hd' : (m.setThread i t').duties k = a ++ Thread.duties k t' ++ b := hset t'
      rw [he, hd, hd']
      exact own hk a b
    · obtain ⟨hd, hbeg, hdon⟩ := other hk
      exact rest he' (duties_set_eq ht hd hm.settled) hbeg hdon
  cases h with
  | outside => exact rest he' rfl rfl rfl
  | newThread => exact rest he' (by simp [duties, Thread.duties]) rfl rfl
  | pass pre post ht hpre hpost hs htr hes =>
    have silent {α : Type} (g : Event → Option α) (hg : ∀ k r, g (.shown k r) = none) : es.filterMap g = [] :=
      List.filterMap_eq_nil_iff.mpr fun ev hev => by obtain ⟨_, _, _, rfl⟩ := hes ev hev; exact hg ..
    refine rest he' (duties_set_eq ht ?_ hm.settled) (silent _ fun _ _ => rfl) (silent _ fun _ _ => rfl)
    rw [Thread.duties_append, Thread.duties_append,
      Thread.duties_eq_nil (t := pre) fun f hf => Frame.duty?_eq_none (by simp [hpre f hf]),
      Thread.duties_eq_nil (t := post) fun f hf => Frame.duty?_eq_none (by simp [hpost f hf])]
  | @panic i f below message ht hf hs =>
    refine rest he' (duties_set_eq ht ?_ hm.settled) rfl rfl
    rw [panicked, unwound_of_handsOver (hs (hm.settled _ (List.mem_of_getElem? ht))),
      Thread.duties_cons_free hf, Thread.duties_cons_free rfl]
  | @register i f below context entry ht hf he =>
    rcases entry?_register he' with h | ⟨rfl, h, rfl⟩
    · have hk : m.entries.length ≠ k := Nat.ne_of_gt (entry?_lt h)
      refine rest h (duties_set_eq ht ?_ hm.settled) rfl rfl
      rw [Thread.duties_cons_free hf]
      simp [Thread.duties_cons, Frame.duty?, hk]
    · obtain ⟨a, b, hd, hset, -⟩ := duties_split ht hm.settled (k := m.entries.length)
      have hnone : m.duties m.entries.length = [] := hm.duties_eq_nil (Nat.le_refl _)
      rw [hnone, List.nil_eq, List.append_eq_nil_iff, List.append_eq_nil_iff] at hd
      obtain ⟨⟨rfl, hbelow⟩, rfl⟩ := hd
      rw [Thread.duties_cons_free hf] at hbelow
      have hd' : (m.register i context e' below).duties m.entries.length = [.due .running, .announce] := by
        refine (hset _).trans ?_
        simp [Thread.duties_cons, Frame.duty?, hbelow]
      rw [h, hnone, hd']
      exact .register (he (hm.settled _ (List.mem_of_getElem? ht))).1
  | @announce i context key below e ht he =>
    have hheld : Thread.duties k (e.held.toList.map (.notify key) ++ .spawn context key :: below) =
        (if key = k then e.held.toList.map .due else []) ++ Thread.duties k below := by
      rw [Thread.duties_append, Thread.duties_cons]
      by_cases hk : key = k <;> cases e.held <;> simp [Thread.duties, Frame.duty?, hk]
    rcases entry?_setEntry he' with ⟨rfl, rfl⟩ | ⟨hk, h⟩
    · obtain ⟨a, b, hd, hset, first⟩ := duties_split ht hm.settled (k := k)
      have hd' := hset (e.held.toList.map (.notify k) ++ .spawn context k :: below)
      rw [hheld, if_pos rfl, ← List.append_assoc, List.append_assoc _ _ b] at hd'
      rw [Thread.duties_cons, Frame.duty?, if_pos rfl, Option.toList_some, List.append_assoc,
        List.singleton_append, List.cons_append] at hd
      rw [he, hd]
      exact Eq.mpr (congrArg (Shift _ _ _ · _ _) hd') (.announce first)
    · refine rest h (duties_set_eq ht ?_ hm.settled) rfl rfl
      rw [hheld, if_neg (Ne.symm hk)]
      simp [Thread.duties_cons, Frame.duty?, Ne.symm hk]
  | @spawn i context key below ht =>
    refine rest he' ?_ rfl rfl
    have hd : (m.threads.set i (.answer .done :: below)).flatMap (Thread.duties k) = m.duties k :=
      duties_set_eq ht (by simp [Thread.duties_cons, Frame.duty?]) hm.settled
    rw [duties, List.flatMap_append, hd]
    simp [Thread.duties, Frame.duty?]
  | cancel signals ht he hl =>
    exact shift_of_latching hm ht (fun k => by simp [Thread.duties_cons, Frame.duty?]) he
      (Entry.latching_cancel (hm.entries _ (entry?_mem he)) hl) rfl he'
  | complete ht he hl =>
    exact shift_of_latching hm ht (fun k => by simp [Thread.duties_cons, Frame.duty?]) he
      (Entry.latching_complete (hm.entries _ (entry?_mem he)) hl) (Entry.recordOf_isTerminal ..) he'
  | execute ht =>
    exact rest he' (duties_set_eq ht (by simp [Thread.duties_cons, Frame.duty?]) hm.settled) rfl rfl
  | outcome ht =>
    exact rest he' (duties_set_eq ht (by simp [Thread.duties_cons, Frame.duty?]) hm.settled) rfl rfl
  | @skip i key status below ht =>
    refine tell key ht rfl (fun hk a b => ?_) fun hk => ?_
    · subst hk
      simpa [Thread.duties_cons, Frame.duty?, begun, done, List.filterMap, Event.begun?, Event.done?] using
        Shift.skips
    · simp [Thread.duties_cons, Frame.duty?, begun, done, Event.begun?, Event.done?, hk]
  | @notify i hook key status below ht =>
    refine tell key ht rfl (fun hk a b => ?_) fun hk => ?_
    · subst hk
      simpa [Thread.duties_cons, Frame.duty?, begun, done, List.filterMap, Event.begun?, Event.done?] using
        Shift.begins
    · simp [Thread.duties_cons, Frame.duty?, begun, done, Event.begun?, Event.done?, hk]
  | @noted i hook key status below ht =>
    refine tell key ht rfl (fun hk a b => ?_) fun hk => ?_
    · subst hk
      simpa [Thread.duties_cons, Frame.duty?, begun, done, List.filterMap, Event.begun?, Event.done?] using
        Shift.ends
    · simp [Thread.duties_cons, Frame.duty?, begun, done, Event.begun?, Event.done?, hk]
  | @broken i hook key status below message ht => exact absurd (List.mem_singleton_self _) (hb key status)

end

section

variable {m₀ m : Machine} {steps : List (Policy × Label)} {es : List Event} {k : Key} {e : Entry}

theorem begun_eq_nil (h : ∀ ev ∈ es, ev.key ≠ k) : begun k es = [] :=
  List.filterMap_eq_nil_iff.mpr fun ev hev => by
    have := h ev hev
    cases ev <;> simp_all [Event.begun?, Event.key]

theorem done_eq_nil (h : ∀ ev ∈ es, ev.key ≠ k) : done k es = [] :=
  List.filterMap_eq_nil_iff.mpr fun ev hev => by
    have := h ev hev
    cases ev <;> simp_all [Event.done?, Event.key]

theorem mem_done {s : Status} : s ∈ done k es ↔ .noted k s ∈ es := by
  refine List.mem_filterMap.trans ⟨fun ⟨ev, hev, hs⟩ => ?_, fun h => ⟨_, h, by simp [Event.done?]⟩⟩
  cases ev <;> simp only [Event.done?] at hs
  case noted key s' => split at hs <;> cases hs; simp_all
  all_goals cases hs

/-- What there is to do about an entry, and what has been reported of it, at any time of a run in which
the hook returns. -/
theorem Run.telling (h : Run m₀ steps es m) (h₀ : m₀.Initial) (hb : ∀ k s, .broken k s ∉ es)
    (he : m.entry? k = some e) : Telling e (m.duties k) (begun k es) (done k es) := by
  induction h generalizing e with
  | nil => simp [Machine.entry?_eq, h₀.entries] at he
  | @snoc steps es m₁ m p l run step ih =>
    have hm := run.sound h₀.sound
    have shift := (Machine.move_of_next? step).shift hm
      (fun k s h => hb k s (List.mem_append_right _ h)) he
    rw [begun_append, done_append]
    refine Telling.step shift (fun e₁ he₁ => ?_) (fun hn => ?_)
    · exact ⟨hm.entries _ (Machine.entry?_mem he₁),
        ih (fun k s h => hb k s (List.mem_append_left _ h)) he₁⟩
    · have unknown : ∀ ev ∈ es, ev.key ≠ k := by
        rintro ev hev rfl
        exact Nat.not_lt.mpr (List.getElem?_eq_none_iff.mp hn) (run.key_lt h₀.sound ev hev)
      exact ⟨begun_eq_nil unknown, done_eq_nil unknown⟩

/-- The start that has come to announce an entry has had its first notification answered. -/
theorem Telling.greeted_of_announce {a b : List Duty} {bs fs : List Status}
    (h : Telling e (a ++ .announce :: b) bs fs)
    (first : .due .running ∈ a ∨ .underway .running ∈ a → .announce ∈ a) : .running ∈ fs := by
  generalize hds : a ++ .announce :: b = ds at h
  cases h with
  | registered | greeting =>
    rcases a with _ | ⟨d, _ | ⟨d', a⟩⟩ <;> simp at hds
    obtain ⟨rfl, rfl⟩ := hds
    simp at first
  | greeted => simp
  | _ => rcases a with _ | ⟨d, _ | ⟨d', a⟩⟩ <;> simp at hds

/-- The terminal notification of an entry is due only when the first has come back. -/
theorem Telling.greeted_of_due {s : Status} {ds : List Duty} {bs fs : List Status} (h : Telling e ds bs fs)
    (hs : .due s ∈ ds) (ht : s.isTerminal = true) : .running ∈ fs := by
  cases h with
  | registered => 
    have : s = .running := by simpa using hs
    rw [this] at ht; cases ht
  | latched => simp
  | _ => simp at hs

/-- The entry whose run a frame sets off. -/
def Frame.launch? : Frame → Option Key
  | .spawn _ k | .run _ k => some k
  | _ => none

/-- No run is set off before the first notification of its entry has come back. -/
def Machine.Launched (m : Machine) (es : List Event) : Prop :=
  ∀ t ∈ m.threads, ∀ f ∈ t, ∀ k, f.launch? = some k → .noted k .running ∈ es

theorem Frame.launch?_eq_none {f : Frame} (h : f.charge? = none) : f.launch? = none := by
  cases f <;> first | rfl | cases h

theorem Machine.Launched.goOn {m m' : Machine} {es es' : List Event} (h : m.Launched es)
    (pre post : Thread) {i : Nat} {below : Thread} (ht : m.threads[i]? = some (pre ++ below))
    (hthr : m'.threads = m.threads.set i (post ++ below))
    (hpost : ∀ f ∈ post, ∀ k, f.launch? = some k → .noted k .running ∈ es) : m'.Launched (es ++ es') := by
  intro t ht' f hf k hk
  refine List.mem_append_left _ ?_
  rw [hthr] at ht'
  rcases List.mem_or_eq_of_mem_set ht' with ht' | rfl
  · exact h t ht' f hf k hk
  · rcases List.mem_append.mp hf with hf | hf
    · exact hpost f hf k hk
    · exact h _ (List.mem_of_getElem? ht) f (List.mem_append_right _ hf) k hk

open Machine in
theorem Move.launched {m m' : Machine} {es es' : List Event} (h : Move m es' m') (hm : m.Sound)
    (hl : m.Launched es) (htell : ∀ k e, m.entry? k = some e → Telling e (m.duties k) (begun k es) (done k es)) :
    m'.Launched (es ++ es') := by
  have quiet {g : Frame} (hg : g.launch? = none) : ∀ f ∈ [g], ∀ k, f.launch? = some k → .noted k .running ∈ es := by
    intro f hf k hk
    rw [List.mem_singleton.mp hf, hg] at hk; cases hk
  cases h with
  | outside => exact fun t ht f hf k hk => List.mem_append_left _ (hl t ht f hf k hk)
  | newThread =>
    intro t ht f hf k hk
    rcases List.mem_append.mp ht with ht | ht
    · exact List.mem_append_left _ (hl t ht f hf k hk)
    · rw [List.mem_singleton.mp ht] at hf; cases hf
  | pass pre post ht hpre hpost =>
    refine hl.goOn pre post ht rfl fun f hf k hk => ?_
    rw [Frame.launch?_eq_none (hpost f hf)] at hk; cases hk
  | @panic i f below message ht hf hs =>
    refine hl.goOn [f] [.answer (.panicked message)] ht ?_ (quiet rfl)
    simp [setThread, panicked, unwound_of_handsOver (hs (hm.settled _ (List.mem_of_getElem? ht)))]
  | @register i f below context entry ht hf he =>
    exact hl.goOn [f] [.notify _ .running, .announce context _] ht rfl
      (by simp [Frame.launch?])
  | @announce i context key below e ht he =>
    refine hl.goOn [.announce context key]
      (e.held.toList.map (.notify key) ++ [.spawn context key]) ht
      (by simp [setThread, Machine.setEntry]) fun f hf k hk => ?_
    have hk : key = k := by
      rcases List.mem_append.mp hf with hf | hf
      · obtain ⟨s, -, rfl⟩ := List.mem_map.mp hf; cases hk
      · rw [List.mem_singleton.mp hf] at hk; cases hk; rfl
    subst hk
    obtain ⟨a, b, hd, -, first⟩ := duties_split ht hm.settled (k := key)
    have htell := htell key e he
    rw [hd, Thread.duties_cons, Frame.duty?, if_pos rfl, Option.toList_some, List.append_assoc,
      List.singleton_append, List.cons_append] at htell
    exact mem_done.mp (htell.greeted_of_announce first)
  | @spawn i context key below ht =>
    have hkey : .noted key .running ∈ es := hl _ (List.mem_of_getElem? ht) _ List.mem_cons_self key rfl
    intro t ht' f hf k hk
    rcases List.mem_append.mp ht' with ht' | ht'
    · have hdone : (m.setThread i (.answer .done :: below)).Launched (es ++ []) :=
        hl.goOn [.spawn context key] [.answer .done] ht rfl (quiet rfl)
      simpa using hdone t ht' f hf k hk
    · rw [List.mem_singleton.mp ht'] at hf
      rw [List.mem_singleton.mp hf] at hk
      cases hk; exact List.mem_append_left _ hkey
  | @cancel signals i key below e e₁ latch now time ht he hl' =>
    refine hl.goOn [.latch key] (latch.notice key .cancelled ++ [.answer .done]) ht
      (by simp [setThread, Machine.setEntry]) fun f hf k hk => ?_
    rcases List.mem_append.mp hf with hf | hf
    · rw [(Latch.mem_notice.mp hf).2] at hk; cases hk
    · exact quiet rfl f hf k hk
  | @complete i key below e e₁ latch now time o ht he hl' =>
    refine hl.goOn [.finish key o] (latch.notice key _) ht rfl fun f hf k hk => ?_
    rw [(Latch.mem_notice.mp hf).2] at hk; cases hk
  | @execute i context key below ht => exact hl.goOn [_] [_] ht rfl (quiet rfl)
  | @outcome i context key below o ht => exact hl.goOn [_] [_] ht rfl (quiet rfl)
  | @skip i key status below ht => exact hl.goOn [_] [] ht rfl (by simp)
  | @notify i hook key status below ht => exact hl.goOn [_] [_] ht rfl (quiet rfl)
  | @noted i hook key status below ht => exact hl.goOn [_] [] ht rfl (by simp)
  | @broken i hook key status below message ht =>
    obtain ⟨pre, hpre⟩ := unwound_suffix below
    exact hl.goOn (.hook hook key status :: pre) [.answer (.panicked message)]
      (by rw [ht, List.cons_append, ← hpre]) rfl (quiet rfl)

/-- What the first notification of an entry has to come before. -/
def Event.InOrder (es : List Event) : Event → Prop
  | .notified k s => s.isTerminal = true → .noted k .running ∈ es
  | .executed k => .noted k .running ∈ es
  | _ => True

theorem Event.InOrder.append {ev : Event} (h : ev.InOrder es) (es' : List Event) : ev.InOrder (es ++ es') := by
  cases ev with
  | notified => exact fun ht => List.mem_append_left _ (h ht)
  | executed => exact List.mem_append_left _ h
  | _ => trivial

open Machine in
theorem Move.inOrder {m m' : Machine} {es es' : List Event} (h : Move m es' m') (hm : m.Sound)
    (hl : m.Launched es) (htell : ∀ k e, m.entry? k = some e → Telling e (m.duties k) (begun k es) (done k es)) :
    ∀ ev ∈ es', ev.InOrder es := by
  have due {i : Nat} {key : Key} {s : Status} {below : Thread}
      (ht : m.threads[i]? = some (.notify key s :: below)) : Event.InOrder es (.notified key s) := by
    intro hterm
    have hlt := hm.charged_head ht rfl
    refine mem_done.mp ((htell key _ (List.getElem?_eq_getElem hlt)).greeted_of_due ?_ hterm)
    refine List.mem_flatMap.mpr ⟨_, List.mem_of_getElem? ht, ?_⟩
    simp [Thread.duties_cons, Frame.duty?]
  cases h with
  | pass pre post ht hpre hpost hs htr hes =>
    intro ev hev
    obtain ⟨k, e, -, rfl⟩ := hes ev hev
    trivial
  | execute ht =>
    exact List.forall_mem_singleton.mpr (hl _ (List.mem_of_getElem? ht) _ List.mem_cons_self _ rfl)
  | skip ht => exact List.forall_mem_cons.mpr ⟨due ht, List.forall_mem_singleton.mpr trivial⟩
  | notify ht => exact List.forall_mem_singleton.mpr (due ht)
  | cancel | complete | noted | broken => exact List.forall_mem_singleton.mpr trivial
  | _ => exact fun _ h => nomatch h

theorem Run.launched (h : Run m₀ steps es m) (h₀ : m₀.Initial) (hb : ∀ k s, .broken k s ∉ es) :
    m.Launched es := by
  induction h with
  | nil =>
    intro t ht f hf k hk
    rcases h₀.threads t ht with rfl | ⟨g, hg, rfl⟩
    · cases hf
    · rw [List.mem_singleton.mp hf, Frame.launch?_eq_none (Frame.charge?_of_isCall hg)] at hk; cases hk
  | @snoc steps es m₁ m p l run step ih =>
    have hb' : ∀ k s, .broken k s ∉ es := fun k s h => hb k s (List.mem_append_left _ h)
    exact (Machine.move_of_next? step).launched (run.sound h₀.sound) (ih hb')
      (fun k e he => run.telling h₀ hb' he)

theorem Run.inOrder (h : Run m₀ steps es m) (h₀ : m₀.Initial) (hb : ∀ k s, .broken k s ∉ es) :
    ∀ es₁ ev es₂, es = es₁ ++ ev :: es₂ → ev.InOrder es₁ := by
  induction h with
  | nil => intro es₁ ev es₂ h; simp at h
  | @snoc steps es m₁ m p l run step ih =>
    have hb' : ∀ k s, .broken k s ∉ es := fun k s h => hb k s (List.mem_append_left _ h)
    intro es₁ ev es₂ heq
    rcases List.append_eq_append_iff.mp heq with ⟨es₃, rfl, h⟩ | ⟨es₃, rfl, h⟩
    · have hev : ev ∈ m₁.observe p l := by rw [h]; simp
      exact ((Machine.move_of_next? step).inOrder (run.sound h₀.sound) (run.launched h₀ hb')
        (fun k e he => run.telling h₀ hb' he) ev hev).append es₃
    · rcases es₃ with _ | ⟨ev', es₃⟩
      · have hev : ev ∈ m₁.observe p l := by rw [List.nil_append] at h; rw [← h]; simp
        have := (Machine.move_of_next? step).inOrder (run.sound h₀.sound) (run.launched h₀ hb')
          (fun k e he => run.telling h₀ hb' he) ev hev
        simpa using this
      · rw [List.cons_append] at h
        cases h; exact ih hb' es₁ ev es₃ rfl

/-- The notifications of an entry, over any run in which no hook panics: they are a prefix of running and
the status that was latched; the second begins, and so does the executor, only when the first has come
back; and once an entry is terminal and no thread has anything left to do about its notifications, both
have been made and have come back. -/
theorem notified_in_order (h₀ : m₀.Initial) (h : Run m₀ steps es m) (hb : ∀ k s, .broken k s ∉ es)
    (he : m.entry? k = some e) :
    begun k es <+: .running :: (if e.status.isTerminal then [e.status] else []) ∧
    done k es <+: begun k es ∧
    (∀ es₁ s es₂, es = es₁ ++ .notified k s :: es₂ → s.isTerminal = true → .noted k .running ∈ es₁) ∧
    (∀ es₁ es₂, es = es₁ ++ .executed k :: es₂ → .noted k .running ∈ es₁) ∧
    (e.status.isTerminal = true → (∀ t ∈ m.threads, ∀ f ∈ t, f.duty? k = none) →
      begun k es = [.running, e.status] ∧ done k es = [.running, e.status]) := by
  have ht := h.telling h₀ hb he
  refine ⟨?_, ?_, fun es₁ s es₂ heq => h.inOrder h₀ hb es₁ _ es₂ heq,
    fun es₁ es₂ heq => h.inOrder h₀ hb es₁ _ es₂ heq, fun hterm hidle => ?_⟩
  · generalize m.duties k = ds, begun k es = bs, done k es = fs at ht
    cases ht with
    | registered => exact List.nil_prefix
    | greeting | greeted | running | latched => exact ⟨_, rfl⟩
    | reporting _ hterm | told _ hterm => exact ⟨[], by rw [List.append_nil, if_pos hterm]⟩
  · generalize m.duties k = ds, begun k es = bs, done k es = fs at ht
    cases ht with
    | registered | greeting => exact List.nil_prefix
    | greeted | running | latched | told => exact List.prefix_rfl
    | reporting => exact ⟨_, rfl⟩
  · have hnil : m.duties k = [] :=
      List.flatMap_eq_nil_iff.mpr fun t ht => Thread.duties_eq_nil (hidle t ht)
    rw [hnil] at ht
    generalize begun k es = bs, done k es = fs at ht
    cases ht with
    | running _ hr => rw [hr] at hterm; cases hterm
    | told => exact ⟨rfl, rfl⟩

end

/-- A run is cancelled before it has been announced, and its start reports both. -/
def lateGreeting : List Label :=
  .setHook 0 :: earlyCancel ++
    [.step 0, .hookReturns 0, .step 0, .step 0, .hookReturns 0, .step 0, .step 2]

theorem notified_in_order_lateGreeting : ∃ es m e,
    Run twoCallers (lateGreeting.map fun l => ({}, l)) es m ∧ m.entry? 0 = some e ∧
    e.status = .cancelled ∧ .executed 0 ∈ es ∧
    begun 0 es = [.running, .cancelled] ∧ done 0 es = [.running, .cancelled] := by
  obtain ⟨m, e, h, he, hs, hidle⟩ : ∃ m e, Run twoCallers (lateGreeting.map fun l => ({}, l))
      [.latched 0 .held, .notified 0 .running, .noted 0 .running, .notified 0 .cancelled,
        .noted 0 .cancelled, .executed 0] m ∧
      m.entry? 0 = some e ∧ e.status = .cancelled ∧ ∀ t ∈ m.threads, ∀ f ∈ t, f.duty? 0 = none :=
    ⟨_, _, Run.of_run? {} lateGreeting rfl, rfl, rfl, by decide⟩
  obtain ⟨-, -, -, -, hdone⟩ := notified_in_order twoCallers_initial h (by simp) he
  rw [hs] at hdone
  obtain ⟨hbeg, hend⟩ := hdone rfl hidle
  exact ⟨_, m, e, h, he, hs, by simp, hbeg, hend⟩

end Overseer.Supervisor

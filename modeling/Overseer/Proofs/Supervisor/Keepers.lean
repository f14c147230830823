import Overseer.Proofs.Supervisor.Frames

/-!
# Who sees to a running entry

A running entry leaves that state by a cancellation or by the end of its run. The first comes from outside
if it comes at all; the second is up to its keeper: the start that has still to set off the run, or the
run itself. A running entry has one keeper, for every executor and every hook that returns. A hook that
panics on the first notification takes the start with it, and the entry is left with no keeper: it stays
running, and counts as running, until somebody cancels it. A panic of the executor does not do that.

* `Machine.keepers`: how many frames see to an entry.
* `Move.handover`: what a move makes of the keepers of an entry.
* `kept_unless_broken`: a running entry has one keeper, which sees to its end by itself, unless its first
  notification has panicked; then it has none, now and later.
-/
namespace Overseer.Supervisor

/-- The entry that a frame sees to: it has still to set off the run, or is the run. -/
def Frame.keeps? : Frame → Option Key
  | .announce _ k | .spawn _ k | .run _ k | .executing _ k | .finish k _ => some k
  | _ => none

/-- How many frames of a stack see to an entry. -/
def Thread.keepers (k : Key) (t : Thread) : Nat := t.countP (·.keeps? = some k)

/-- How many frames see to an entry. -/
def Machine.keepers (m : Machine) (k : Key) : Nat := Thread.keepers k m.frames

theorem Frame.charge?_of_keeps? {f : Frame} {k : Key} (h : f.keeps? = some k) : f.charge? = some k := by
  cases f <;> first | exact h | cases h

theorem Frame.keeps?_of_charge? {f : Frame} (h : f.charge? = none) : f.keeps? = none := by
  cases f <;> first | rfl | cases h

namespace Thread

variable {k : Key} {f : Frame} {t below : Thread}

theorem keepers_append (k : Key) (a b : Thread) : keepers k (a ++ b) = keepers k a + keepers k b :=
  List.countP_append

theorem keepers_cons (k : Key) (f : Frame) (t : Thread) :
    keepers k (f :: t) = keepers k t + if f.keeps? = some k then 1 else 0 := by
  simp [keepers, List.countP_cons]

@[simp]
theorem keepers_nil (k : Key) : keepers k [] = 0 := rfl

/-- A frame that sees to no entry does not count. -/
@[simp]
theorem keepers_cons_free (k : Key) (t : Thread) (h : f.keeps? = none) : keepers k (f :: t) = keepers k t := by
  rw [keepers_cons, h]; rfl

theorem keepers_eq_zero (h : ∀ f ∈ t, f.keeps? ≠ some k) : keepers k t = 0 :=
  List.countP_eq_zero.mpr (by simpa using h)

/-- A panic that comes upon what bears anything drops no frame that sees to an entry. -/
theorem keepers_unwound (k : Key) (hs : Stacked t) (hb : Bears t) :
    keepers k (Machine.unwound t) = keepers k t := by
  obtain ⟨pre, hpre, hfree⟩ := dropped_free hs hb
  have hnone : keepers k pre = 0 := keepers_eq_zero fun f hf => by simp [Frame.keeps?_of_charge? (hfree f hf)]
  calc keepers k (Machine.unwound t) = keepers k (pre ++ Machine.unwound t) := by
        rw [keepers_append, hnone, Nat.zero_add]
    _ = keepers k t := by rw [← hpre]

/-- A panic of a hook drops at most the start that waits for this notification, and does drop it if it is
the first. -/
theorem keepers_unwound_hook {h k' : Nat} {s : Status} (k : Key) (hs : Stacked (.hook h k' s :: below))
    (hfit : (Frame.hook h k' s).Fits below) :
    ((k = k' → s ≠ .running) ∧ keepers k (Machine.unwound below) = keepers k below) ∨
      k = k' ∧ keepers k (Machine.unwound below) + 1 = keepers k below := by
  obtain ⟨hupon, hs⟩ := stacked_cons.mp hs
  have late (hb : ∀ c rest, below ≠ .announce c k' :: rest) : s ≠ .running := by
    rintro rfl
    obtain ⟨c, rest, heq⟩ := hfit
    exact hb c rest heq
  cases below with
  | nil => exact Or.inl ⟨fun _ => late (by simp), rfl⟩
  | cons g rest =>
    have hg := hupon g rfl
    by_cases hb : g.bears = true
    · refine Or.inl ⟨fun _ => late ?_, keepers_unwound k hs fun g' hg' => ?_⟩
      · rintro c rest' heq
        cases heq; cases hb
      · cases hg'; exact hb
    have start (hkeeps : g.keeps? = some k') (ho : g.isOpen ≠ true) (htells : g.tells? = none) :
        ((k = k' → s ≠ .running) ∧ keepers k (Machine.unwound (g :: rest)) = keepers k (g :: rest)) ∨
          k = k' ∧ keepers k (Machine.unwound (g :: rest)) + 1 = keepers k (g :: rest) := by
      have hrest := keepers_unwound k (stacked_cons.mp hs).2 (Stacked.bears_below hs htells)
      rw [Machine.unwound, if_neg ho, keepers_cons, hkeeps, hrest]
      by_cases hk : k = k'
      · exact Or.inr ⟨hk, by rw [if_pos (by rw [hk])]⟩
      · exact Or.inl ⟨fun h => absurd h hk, by rw [if_neg (by simpa using Ne.symm hk)]; rfl⟩
    cases g with
    | announce c key => cases hg; exact start rfl (by simp [Frame.isOpen]) rfl
    | spawn c key => obtain ⟨s', -, heq⟩ := hg; cases heq; exact start rfl (by simp [Frame.isOpen]) rfl
    | notify | run | finish => cases hg
    | _ => exact absurd rfl hb

end Thread

namespace Machine

variable {m m' : Machine} {i : Nat} {k : Key}

/-- What a thread that goes on makes of the number of keepers. -/
theorem keepers_set (pre post : Thread) {below : Thread} (ht : m.threads[i]? = some (pre ++ below))
    (hthr : m'.threads = m.threads.set i (post ++ below)) (k : Key) :
    m'.keepers k + Thread.keepers k pre = m.keepers k + Thread.keepers k post :=
  additive_frames_set (fun _ _ => List.countP_append) pre post ht hthr

theorem Sound.keepers_eq_zero (h : m.Sound) (hk : m.entries.length ≤ k) : m.keepers k = 0 := by
  refine Thread.keepers_eq_zero fun f hf heq => ?_
  obtain ⟨t, ht, hf⟩ := List.mem_flatten.mp hf
  exact Nat.not_lt.mpr hk (h.charged t ht f hf k (Frame.charge?_of_keeps? heq))

theorem exists_keeper (h : 0 < m.keepers k) : ∃ (i : Nat) (above : Thread) (f : Frame) (below : Thread),
    m.threads[i]? = some (above ++ f :: below) ∧ f.keeps? = some k := by
  obtain ⟨f, hf, hkeeps⟩ := List.countP_pos_iff.mp h
  obtain ⟨t, ht, hf⟩ := List.mem_flatten.mp hf
  obtain ⟨i, ht⟩ := List.getElem?_of_mem ht
  obtain ⟨above, below, rfl⟩ := List.append_of_mem hf
  exact ⟨i, above, f, below, ht, by simpa using hkeeps⟩

end Machine

/-! ## Handing over -/

/-- What a move that leaves the events `es` makes of the entry with the key `k` and of the number of its
keepers. -/
inductive Entry.Handover (k : Key) (es : List Event) : Option Entry → Nat → Entry → Nat → Prop where
  | registered {e : Entry} (fresh : e.Fresh) (silent : es = []) : Handover k es none 0 e 1
  /-- Its keeper goes on, as itself or as the next one, if there is one. -/
  | kept {e e' : Entry} {n : Nat} (status : e'.status = e.status ∨ e'.status = .cancelled)
      (quiet : .broken k .running ∉ es) : Handover k es (some e) n e' n
  /-- It is finished, and its keeper goes. -/
  | released {e e' : Entry} {n : Nat} (terminal : e'.status.isTerminal = true) :
      Handover k es (some e) (n + 1) e' n
  /-- Its keeper is lost in a panic of the hook. -/
  | lost {e e' : Entry} {n : Nat} (log : .broken k .running ∈ es) : Handover k es (some e) (n + 1) e' n

/-- What can be said of an entry with `n` keepers, after the events `es`. -/
structure Entry.Guarded (k : Key) (es : List Event) (e : Entry) (n : Nat) : Prop where
  kept : e.status = .running → .broken k .running ∉ es → n = 1
  orphaned : .broken k .running ∈ es → n = 0
  once : n ≤ 1
  early : n = 1 → e.status = .running ∨ e.status = .cancelled

theorem Entry.Guarded.step {k : Key} {es es' : List Event} {o : Option Entry} {e' : Entry} {n n' : Nat}
    (h : Handover k es' o n e' n') (hold : ∀ e, o = some e → e.Guarded k es n)
    (hnew : o = none → .broken k .running ∉ es) : e'.Guarded k (es ++ es') n' := by
  cases h with
  | registered fresh silent =>
    subst silent
    have hrun := Entry.status_of_record fresh.1
    exact ⟨fun _ _ => rfl, fun hb => absurd (by simpa using hb) (hnew rfl), Nat.le_refl _, fun _ => Or.inl hrun⟩
  | @kept e _ n status quiet =>
    have hg := hold e rfl
    refine ⟨fun hr hb => ?_, fun hb => ?_, hg.once, fun hn => ?_⟩
    · rcases status with heq | heq
      · exact hg.kept (heq ▸ hr) fun hb' => hb (List.mem_append_left _ hb')
      · rw [heq] at hr; cases hr
    · exact hg.orphaned ((List.mem_append.mp hb).resolve_right quiet)
    · rcases status with heq | heq
      · rw [heq]; exact hg.early hn
      · exact Or.inr heq
  | @released e _ n terminal =>
    have honce := (hold e rfl).once
    refine ⟨fun hr => ?_, fun _ => by omega, by omega, fun hn => by omega⟩
    exact absurd hr (Status.isTerminal_ne_running terminal)
  | @lost e _ n log =>
    have honce := (hold e rfl).once
    exact ⟨fun _ hb => absurd (List.mem_append_right _ log) hb, fun _ => by omega, by omega, fun hn => by omega⟩

theorem Entry.Latching.status_eq {e e' : Entry} {s : Status} {l : Latch} (h : Latching e e' s l) :
    e'.status = e.status ∨ e'.status = s := by
  cases h with
  | refused _ same => exact Or.inl (by rw [same])
  | notify _ _ _ _ _ status | held _ _ _ _ _ status => exact Or.inr status

theorem Entry.Latching.terminal {e e' : Entry} {s : Status} {l : Latch} (h : Latching e e' s l)
    (hs : s.isTerminal = true) : e'.status.isTerminal = true := by
  cases h with
  | refused terminal same => rw [same]; exact terminal
  | notify _ _ _ _ _ status | held _ _ _ _ _ status => rw [status]; exact hs

/-- The notifications that a latch calls for see to no entry. -/
theorem Latch.keepers_notice (l : Latch) (k k' : Key) (s : Status) : Thread.keepers k (l.notice k' s) = 0 :=
  Thread.keepers_eq_zero fun f hf => by simp [(Latch.mem_notice.mp hf).2, Frame.keeps?]

section

variable {m m' : Machine} {es : List Event} {k : Key} {e' : Entry}

namespace Machine

/-- The start of a new entry has become its keeper. -/
theorem handover_register {i : Nat} {f : Frame} {below : Thread} {c : Context} {e : Entry} (hm : m.Sound)
    (ht : m.threads[i]? = some (f :: below)) (hf : f.charge? = none)
    (hfresh : Thread.Settled (f :: below) → e.Fresh ∧ e.id = c.id)
    (he' : Machine.entry? (m.register i c e below) k = some e') :
    Entry.Handover k [] (m.entry? k) (m.keepers k) e' ((m.register i c e below).keepers k) := by
  have hn : (m.register i c e below).keepers k + Thread.keepers k [f] = m.keepers k +
      Thread.keepers k [.notify m.entries.length .running, .announce c m.entries.length] :=
    keepers_set _ _ ht rfl k
  rw [Thread.keepers_cons_free k [] (Frame.keeps?_of_charge? hf)] at hn
  simp only [Thread.keepers_cons, Thread.keepers_nil, Frame.keeps?, Option.some.injEq] at hn
  rcases entry?_register he' with hold | ⟨rfl, hnone, rfl⟩
  · have hne : m.entries.length ≠ k := Nat.ne_of_gt (entry?_lt hold)
    rw [hold, show (m.register i c e below).keepers k = m.keepers k by simpa [hne] using hn]
    exact .kept (Or.inl rfl) (by simp)
  · rw [hm.keepers_eq_zero (Nat.le_refl _), if_pos rfl] at hn
    rw [hnone, hm.keepers_eq_zero (Nat.le_refl _), show (m.register i c e' below).keepers _ = 1 by simpa using hn]
    exact .registered (hfresh (hm.settled _ (List.mem_of_getElem? ht))).1 rfl

/-- A hook that panics takes the keeper with it that waits for it, if there is one. -/
theorem handover_broken {i h : Nat} {key : Key} {s : Status} {below : Thread} {message : String} (hm : m.Sound)
    (ho : m.Ordered) (ht : m.threads[i]? = some (.hook h key s :: below)) (he : m.entry? k = some e') :
    Entry.Handover k [.broken key s] (some e') (m.keepers k) e'
      ((m.setThread i (panicked message below)).keepers k) := by
  obtain ⟨pre, hpre⟩ := unwound_suffix below
  have hmem := List.mem_of_getElem? ht
  have hn : (m.setThread i (panicked message below)).keepers k + Thread.keepers k (.hook h key s :: pre) =
      m.keepers k + Thread.keepers k [.answer (.panicked message)] :=
    keepers_set _ _ (by rw [ht, List.cons_append, ← hpre]) rfl k
  have hbelow : Thread.keepers k below = Thread.keepers k pre + Thread.keepers k (unwound below) := by
    rw [← Thread.keepers_append, ← hpre]
  rw [Thread.keepers_cons_free k pre rfl, Thread.keepers_cons_free k [] rfl, Thread.keepers_nil] at hn
  rcases Thread.keepers_unwound_hook k (ho.stacked _ hmem) (hm.settled _ hmem).1 with ⟨late, heq⟩ | ⟨rfl, heq⟩
  · rw [show (m.setThread i (panicked message below)).keepers k = m.keepers k by omega]
    exact .kept (Or.inl rfl) (by simpa using fun hk => Ne.symm (late hk))
  · rw [show m.keepers k = (m.setThread i (panicked message below)).keepers k + 1 by omega]
    by_cases hs : s = .running
    · exact .lost (by simp [hs])
    · obtain ⟨e, he₁, hterm⟩ := isFinished_iff.mp (ho.told _ (mem_frames ht List.mem_cons_self) k s rfl hs)
      cases he.symm.trans he₁
      exact .released hterm

end Machine

open Machine in
theorem Move.handover (h : Move m es m') (hm : m.Sound) (ho : m.Ordered) (he' : m'.entry? k = some e') :
    Entry.Handover k es (m.entry? k) (m.keepers k) e' (m'.keepers k) := by
  -- Most moves leave the entries as they are, and put one keeper in the place of another.
  have same (he : m.entry? k = some e') (hn : m'.keepers k = m.keepers k) (hes : .broken k .running ∉ es) :
      Entry.Handover k es (m.entry? k) (m.keepers k) e' (m'.keepers k) := by
    rw [he, hn]; exact .kept (Or.inl rfl) hes
  have count {i : Nat} {below : Thread} (pre post : Thread) (ht : m.threads[i]? = some (pre ++ below))
      (hthr : m'.threads = m.threads.set i (post ++ below))
      (hn : Thread.keepers k post = Thread.keepers k pre) : m'.keepers k = m.keepers k := by
    have := keepers_set pre post ht hthr k
    omega
  have free {t : Thread} (h : ∀ f ∈ t, f.charge? = none) : Thread.keepers k t = 0 :=
    Thread.keepers_eq_zero fun f hf => by simp [Frame.keeps?_of_charge? (h f hf)]
  cases h with
  | outside => exact same he' rfl (by simp)
  | newThread => exact same he' (by simp [keepers, frames]) (by simp)
  | pass pre post ht hpre hpost _ _ hes =>
    refine same he' (count pre post ht rfl ((free hpost).trans (free hpre).symm)) fun hmem => ?_
    obtain ⟨_, _, _, heq⟩ := hes _ hmem
    cases heq
  | @panic i f below message ht hf hb =>
    have hb := hb (hm.settled _ (List.mem_of_getElem? ht))
    refine same he' (count [f] [.answer (.panicked message)] ht ?_ ?_) (by simp)
    · simp [setThread, panicked, unwound_of_handsOver hb]
    · rw [free (by simp [Frame.charge?]), free (by simpa using hf)]
  | register ht hf he => exact handover_register hm ht hf he he'
  | @announce i context key below e ht he =>
    have hn := count [.announce context key] (e.held.toList.map (.notify key) ++ [.spawn context key]) ht
      (by simp [setThread, Machine.setEntry]) (by
        rw [Thread.keepers_append, Thread.keepers_eq_zero (by simp [Frame.keeps?])]
        simp [Thread.keepers_cons, Thread.keepers_nil, Frame.keeps?])
    rcases entry?_setEntry he' with ⟨rfl, rfl⟩ | ⟨-, hold⟩
    · rw [he, hn]; exact .kept (Or.inl rfl) (by simp)
    · exact same hold hn (by simp)
  | @spawn i context key below ht =>
    have hn : (m.setThread i (.answer .done :: below)).keepers k + Thread.keepers k [.spawn context key] =
        m.keepers k + Thread.keepers k [.answer .done] := keepers_set _ _ ht rfl k
    have hrun : Thread.keepers k [.run context key] = Thread.keepers k [.spawn context key] := by
      rw [Thread.keepers_cons, Thread.keepers_cons]; rfl
    refine same he' ?_ (by simp)
    rw [keepers, frames, List.flatten_append, Thread.keepers_append, List.flatten_singleton, hrun]
    exact hn
  | @cancel signals i key below e e₁ latch now time ht he hl =>
    have hn := count [.latch key] (latch.notice key .cancelled ++ [.answer .done]) ht
      (by simp [setThread, Machine.setEntry]) (by
        rw [Thread.keepers_append, Latch.keepers_notice]
        simp [Thread.keepers_cons, Thread.keepers_nil, Frame.keeps?])
    rcases entry?_setEntry he' with ⟨rfl, rfl⟩ | ⟨-, hold⟩
    · have hlat := Entry.latching_cancel (hm.entries e (entry?_mem he)) hl
      rw [he, hn]; exact .kept hlat.status_eq (by simp)
    · exact same hold hn (by simp)
  | @execute i context key below ht =>
    exact same he' (count [.run context key] [.executing context key] ht rfl
      (by simp [Thread.keepers_cons, Frame.keeps?])) (by simp)
  | @outcome i context key below o ht =>
    exact same he' (count [.executing context key] [.finish key o] ht rfl
      (by simp [Thread.keepers_cons, Frame.keeps?])) (by simp)
  | @complete i key below e e₁ latch now time o ht he hl =>
    have hn : Machine.keepers ((m.setEntry key e₁).setThread i
        (latch.notice key (e.recordOf now time o).status ++ below)) k + Thread.keepers k [.finish key o] =
        m.keepers k + Thread.keepers k (latch.notice key (e.recordOf now time o).status) :=
      keepers_set _ _ ht rfl k
    rw [Latch.keepers_notice] at hn
    simp only [Thread.keepers_cons, Thread.keepers_nil, Frame.keeps?, Option.some.injEq] at hn
    rcases entry?_setEntry he' with ⟨rfl, rfl⟩ | ⟨hne, hold⟩
    · have hlat := Entry.latching_complete (hm.entries e (entry?_mem he)) hl
      rw [he, ← show _ = m.keepers k by simpa using hn]
      exact .released (hlat.terminal (Entry.recordOf_isTerminal ..))
    · exact same hold (by simpa [Ne.symm hne] using hn) (by simp)
  | @skip i key status below ht =>
    exact same he' (count [.notify key status] [] ht rfl
      (by simp [Thread.keepers_cons, Thread.keepers_nil, Frame.keeps?])) (by simp)
  | @notify i h key status below ht =>
    exact same he' (count [.notify key status] [.hook h key status] ht rfl
      (by simp [Thread.keepers_cons, Frame.keeps?])) (by simp)
  | @noted i h key status below ht =>
    exact same he' (count [.hook h key status] [] ht rfl
      (by simp [Thread.keepers_cons, Thread.keepers_nil, Frame.keeps?])) (by simp)
  | broken ht =>
    have he : m.entry? k = some e' := he'
    rw [he]
    exact handover_broken hm ho ht he

theorem Run.guarded {m₀ : Machine} {steps : List (Policy × Label)} {e : Entry} (h : Run m₀ steps es m)
    (h₀ : m₀.Initial) (he : m.entry? k = some e) : e.Guarded k es (m.keepers k) := by
  induction h generalizing e with
  | nil => simp [Machine.entry?_eq, h₀.entries] at he
  | snoc run step ih =>
    have hand := (Machine.move_of_next? step).handover (run.sound h₀.sound) (run.ordered h₀) he
    refine Entry.Guarded.step hand (fun e he => ih he) fun hnone hb => ?_
    exact Nat.not_lt.mpr (List.getElem?_eq_none_iff.mp hnone) (run.key_lt h₀.sound _ hb)

end

/-! ## Seeing a run through -/

/-- The label by which a frame goes on, if the executor comes back with `o`. -/
def Frame.goes (i : Nat) (o : Outcome) : Frame → Label
  | .executing _ _ => .executorReturns i o
  | _ => .step i

/-- Steps of its keepers alone lead to the end of an entry. -/
inductive Machine.SeenThrough (p : Policy) (o : Outcome) (k : Key) : Machine → Prop where
  | done {m : Machine} (h : m.isFinished k = true) : SeenThrough p o k m
  | go {m m' : Machine} {i : Nat} {f : Frame} {below : Thread} (ht : m.threads[i]? = some (f :: below))
      (hf : f.keeps? = some k) (step : m.next? p (f.goes i o) = some m') (rest : SeenThrough p o k m') :
      SeenThrough p o k m

namespace Machine

variable {p : Policy} {o : Outcome} {m : Machine} {i : Nat} {k : Key} {c : Context} {below : Thread}

theorem isFinished_setEntry {e e' : Entry} (he : m.entry? k = some e) (hs : e'.status.isTerminal = true) :
    Machine.isFinished (m.setEntry k e') k = true :=
  isFinished_iff.mpr ⟨e', entry?_setEntry_self he, hs⟩

theorem seenThrough_finish {o' : Outcome} (hm : m.Sound)
    (ht : m.threads[i]? = some (.finish k o' :: below)) : m.SeenThrough p o k := by
  obtain ⟨e, he⟩ : ∃ e, m.entry? k = some e := ⟨_, List.getElem?_eq_getElem (hm.charged_head ht rfl)⟩
  cases hl : e.complete (e.recordOf m.now (p.clock m.now) o') with
  | mk e' latch =>
    have hs := (Entry.latching_complete (hm.entries e (entry?_mem he)) hl).terminal
      (Entry.recordOf_isTerminal ..)
    have hfin : Machine.isFinished (m.setEntry k e') k = true := isFinished_setEntry he hs
    exact .go ht rfl (next?_of_step ht (.finishes he hl)) (.done hfin)

theorem seenThrough_executing (hm : m.Sound) (ht : m.threads[i]? = some (.executing c k :: below)) :
    m.SeenThrough p o k := by
  have hm' : Machine.Sound (m.setThread i (.finish k o :: below)) := (Move.outcome ht).sound hm
  have hnext := seenThrough_finish (p := p) (o := o) hm' (getElem?_setThread ht _)
  exact .go ht rfl (next?_of_next (.executorReturns ht)) hnext

theorem seenThrough_run (hm : m.Sound) (ht : m.threads[i]? = some (.run c k :: below)) :
    m.SeenThrough p o k := by
  have hnext := seenThrough_executing (p := p) (o := o) ((Move.execute ht).sound hm) (getElem?_setThread ht _)
  exact .go ht rfl (next?_of_step ht .runs) hnext

theorem seenThrough_spawn (hm : m.Sound) (ht : m.threads[i]? = some (.spawn c k :: below)) :
    m.SeenThrough p o k := by
  have hm' := (Move.spawn ht).sound hm
  have hrun : (m.threads.set i (.answer .done :: below) ++ [[.run c k]])[m.threads.length]? =
      some [.run c k] := by simp
  have hnext := seenThrough_run (p := p) (o := o) hm' hrun
  exact .go ht rfl (next?_of_step ht .spawns) hnext

theorem seenThrough_announce (hm : m.Sound) (ht : m.threads[i]? = some (.announce c k :: below)) :
    m.SeenThrough p o k := by
  obtain ⟨e, he⟩ : ∃ e, m.entry? k = some e := ⟨_, List.getElem?_eq_getElem (hm.charged_head ht rfl)⟩
  have hsound := (Move.announce ht he).sound hm
  refine .go ht rfl (next?_of_step ht (.announces he)) ?_
  have ht' := getElem?_setThread (m := m.setEntry k e.announce.1) ht
    (e.held.toList.map (.notify k) ++ .spawn c k :: below)
  cases hh : e.held with
  | none =>
    rw [hh] at hsound ht'
    exact seenThrough_spawn hsound ht'
  | some s =>
    obtain ⟨-, hnone⟩ | ⟨hterm, -⟩ := hm.entries e (entry?_mem he)
    · rw [hh] at hnone; cases hnone
    · exact .done (isFinished_setEntry he hterm)

/-- A keeper that is the innermost frame sees to the end of its entry. -/
theorem seenThrough {f : Frame} (hm : m.Sound) (ht : m.threads[i]? = some (f :: below))
    (hf : f.keeps? = some k) : m.SeenThrough p o k := by
  cases f with
  | announce c key => cases hf; exact seenThrough_announce hm ht
  | spawn c key => cases hf; exact seenThrough_spawn hm ht
  | run c key => cases hf; exact seenThrough_run hm ht
  | executing c key => cases hf; exact seenThrough_executing hm ht
  | finish key o' => cases hf; exact seenThrough_finish hm ht
  | _ => cases hf

end Machine

/-- How the keeper of an entry gets to its end from beneath the frames `above`. -/
inductive Frame.Attends (m : Machine) (k : Key) : Thread → Frame → Prop where
  /-- It is the innermost frame, and sees to the end by itself, whatever the executor comes back with. -/
  | innermost {f : Frame} (h : ∀ p o, m.SeenThrough p o k) : Attends m k [] f
  /-- The executor is at work, and may have calls of its own to make. -/
  | executing {above : Thread} {c : Context} : Attends m k above (.executing c k)
  /-- The first notification of the entry comes back to the start that has made it. -/
  | greeting {above : Thread} {g : Frame} {c : Context} (h : g.tells? = some (k, .running)) :
      Attends m k (above ++ [g]) (.announce c k)

section

variable {m₀ m : Machine} {steps : List (Policy × Label)} {es : List Event} {k : Key} {e : Entry}

open Machine in
theorem Machine.Ordered.attends {i : Nat} {above below : Thread} {f : Frame} (ho : m.Ordered) (hm : m.Sound)
    (he : m.entry? k = some e) (hr : e.status = .running)
    (ht : m.threads[i]? = some (above ++ f :: below)) (hf : f.keeps? = some k) : f.Attends m k above := by
  have hs := ho.stacked _ (List.mem_of_getElem? ht)
  rcases List.eq_nil_or_concat above with rfl | ⟨above, g, rfl⟩
  · exact .innermost fun p o => seenThrough hm ht hf
  rw [List.concat_eq_append] at ht hs ⊢
  have hg : g.Upon f := by
    rw [List.append_assoc] at hs
    exact (Thread.stacked_cons.mp (List.IsChain.right_of_append hs)).1 f rfl
  cases f with
  | announce c key => cases hf; exact .greeting hg
  | executing c key => cases hf; exact .executing
  | spawn c key =>
    -- A start that reports an end has an entry that is finished.
    cases hf
    obtain ⟨s, hs, htells⟩ := hg
    obtain ⟨e', he', hterm⟩ := isFinished_iff.mp (ho.told g (mem_frames ht (by simp)) k s htells hs)
    rw [he] at he'; cases he'
    exact absurd hr (Status.isTerminal_ne_running hterm)
  | run | finish => cases hg
  | _ => cases hf

namespace Machine

variable {p : Policy} {l : Label} {m' : Machine}

/-- A status is latched by a cancel that has found the entry, or by the run that is over. -/
theorem latched_of_observe {r : Latch} (h : .latched k r ∈ m.observe p l) :
    ∃ i f below, l = .step i ∧ m.threads[i]? = some (f :: below) ∧ (f = .latch k ∨ ∃ o, f = .finish k o) := by
  cases l with
  | step i =>
    simp only [observe] at h
    split at h
    · rename_i f below ht
      refine ⟨i, f, below, rfl, ht, ?_⟩
      cases f with
      | latch key =>
        simp only [observeFrame] at h
        split at h
        · obtain ⟨rfl, -⟩ : k = key ∧ _ := by simpa using h
          exact Or.inl rfl
        · cases h
      | finish key o =>
        simp only [observeFrame] at h
        split at h
        · obtain ⟨rfl, -⟩ : k = key ∧ _ := by simpa using h
          exact Or.inr ⟨o, rfl⟩
        · cases h
      | snapshot | check | notify =>
        simp only [observeFrame] at h
        split at h <;> simp at h
      | run => simp [observeFrame] at h
      | _ => cases h
    · cases h
  | hookReturns i | hookPanics i _ =>
    simp only [observe] at h
    split at h <;> simp at h
  | _ => cases h

/-- Only a cancel ends an entry that runs and has no keeper. -/
theorem ended_by_cancel (hm : m.Sound) (he : m.entry? k = some e) (hr : e.status = .running)
    (hn : m.keepers k = 0) (step : m.next? p l = some m') (hfin : m'.isFinished k = true) :
    ∃ i below, l = .step i ∧ m.threads[i]? = some (.latch k :: below) := by
  obtain ⟨e', he', hterm⟩ := isFinished_iff.mp hfin
  have hc := (move_of_next? step).change hm he'
  rw [he] at hc
  cases hc with
  | kept id record =>
    rw [Entry.status_eq_of_record record, hr] at hterm; cases hterm
  | @latching _ _ s r attempt terminal log =>
    have hlog : .latched k r ∈ m.observe p l := by rw [log]; exact List.mem_singleton_self _
    obtain ⟨i, f, below, hl, ht, rfl | ⟨o, rfl⟩⟩ := latched_of_observe hlog
    · exact ⟨i, below, hl, ht⟩
    · have hmem := mem_frames ht List.mem_cons_self
      have := List.countP_eq_zero.mp hn _ hmem
      simp [Frame.keeps?] at this

end Machine

/-- A running entry has one keeper, which gets to its end from where it stands, unless its first
notification has ended in a panic: then it has none, and nothing but a cancel ends it. -/
theorem kept_unless_broken (h₀ : m₀.Initial) (h : Run m₀ steps es m) (he : m.entry? k = some e)
    (hr : e.status = .running) :
    (.broken k .running ∉ es → m.keepers k = 1 ∧ ∃ (i : Nat) (above : Thread) (f : Frame) (below : Thread),
      m.threads[i]? = some (above ++ f :: below) ∧ f.keeps? = some k ∧ f.Attends m k above) ∧
    (.broken k .running ∈ es → m.keepers k = 0 ∧ ∀ p l m', m.next? p l = some m' → m'.isFinished k = true →
      ∃ i below, l = .step i ∧ m.threads[i]? = some (.latch k :: below)) := by
  have hg := h.guarded h₀ he
  have hm := h.sound h₀.sound
  refine ⟨fun hb => ?_, fun hb => ?_⟩
  · have hone := hg.kept hr hb
    obtain ⟨i, above, f, below, ht, hf⟩ := Machine.exists_keeper (by rw [hone]; exact Nat.one_pos)
    exact ⟨hone, i, above, f, below, ht, hf, (h.ordered h₀).attends hm he hr ht hf⟩
  · have hnone := hg.orphaned hb
    exact ⟨hnone, fun p l m' step hfin => Machine.ended_by_cancel hm he hr hnone step hfin⟩

end

/-- A start whose first notification comes back, up to its run being at work. -/
def heardStart : List Label :=
  [.setHook 0, .call 0 (.plainStart "a"), .step 0, .step 0, .step 0, .hookReturns 0, .step 0, .step 0, .step 2]

theorem kept_unless_broken_heardStart : ∃ es m e, Run twoCallers (heardStart.map fun l => ({}, l)) es m ∧
    m.entry? 0 = some e ∧ e.status = .running ∧ m.keepers 0 = 1 := by
  obtain ⟨m, e, h, he, hr⟩ : ∃ m e, Run twoCallers (heardStart.map fun l => ({}, l))
      [.notified 0 .running, .noted 0 .running, .executed 0] m ∧ m.entry? 0 = some e ∧ e.status = .running :=
    ⟨_, _, Run.of_run? {} heardStart rfl, rfl, rfl⟩
  obtain ⟨hone, -⟩ := (kept_unless_broken twoCallers_initial h he hr).1 (by simp)
  exact ⟨_, m, e, h, he, hr, hone⟩

/-- The hook panics on the first notification, and another start comes later. -/
def brokenStart : List Label :=
  [.setHook 0, .call 0 (.plainStart "a"), .step 0, .step 0, .step 0, .step 0, .hookPanics 0 "hook panic",
    .take 0, .call 1 (.plainStart "b"), .step 1, .step 1, .step 1, .step 1]

/-- The entry whose first notification has panicked is running, can be found, and has the only place there
is, but nobody sees to it. -/
theorem orphaned_by_hook : ∃ es m e, Run twoCallers (brokenStart.map fun l => ({ maxRunning := 1 }, l)) es m ∧
    m.entry? 0 = some e ∧ e.status = .running ∧ m.find? "a" = some 0 ∧ m.keepers 0 = 0 ∧
    m.threads = [[], [.answer (.refused (.capacityExceeded 1 1))]] :=
  ⟨_, _, _, Run.of_run? { maxRunning := 1 } brokenStart rfl, rfl, rfl, rfl, rfl, rfl⟩

end Overseer.Supervisor

import Overseer.Proofs.Supervisor.Map

/-!
# Watching a shutdown

A shutdown takes a list of what runs, cancels by id, and then polls. In between its thread may be in the
hook, where the surroundings may call the supervisor again, so a shutdown is known by its thread and by
how many frames it sits on. `Watch` is what is written down of it beside the machine, and changes nothing.

* `Thread.Goes.idle`, `Thread.Goes.cancelling`: what a step of the thread does to a shutdown on it.
* `Watched`: a run with what was noted on the way; every run can be watched (`Run.watched`).
* `Machine.Owed`: what a shutdown has still to cancel of what it found registered. No step adds to that.
-/
namespace Overseer.Supervisor

/-! ## Frames over others -/

/-- The frames of a thread over the outermost `d`. -/
def Thread.above (d : Nat) (t : Thread) : Thread := t.take (t.length - d)

/-- The frames of a thread over its outermost `d`. -/
def Machine.above (m : Machine) (i d : Nat) : Thread := Thread.above d ((m.threads[i]?).getD [])

/-- None of the frames is a shutdown that sits on those left out. -/
def Thread.Idle (t : Thread) : Prop := ∀ f, t.getLast? = some f → f.drains = false

namespace Thread

theorem above_append (pre below : Thread) : above below.length (pre ++ below) = pre := by
  simp [above]

theorem above_append_drop (d : Nat) (t : Thread) : above d t ++ t.drop (t.length - d) = t :=
  List.take_append_drop _ t

theorem getLast?_above (d : Nat) (t : Thread) : (above d t).getLast? = t.reverse[d]? := by
  rw [above, List.getLast?_eq_head?_reverse, List.reverse_take, List.head?_drop]
  rcases Nat.lt_or_ge d t.length with hd | hd
  · rw [Nat.sub_sub_self (Nat.le_of_lt hd)]
  · rw [Nat.sub_eq_zero_of_le hd, List.getElem?_eq_none (by simp), List.getElem?_eq_none (by simpa using hd)]

theorem idle_above_iff {d : Nat} {t : Thread} :
    (above d t).Idle ↔ ∀ f, t.reverse[d]? = some f → f.drains = false := by
  rw [Idle, getLast?_above]

/-- At most an answer is left over the frames that a panic leaves of those below. -/
theorem idle_panicked (message : String) (below : Thread) :
    (above below.length (Machine.panicked message below)).Idle := by
  obtain ⟨pre, hpre⟩ := Machine.unwound_suffix below
  have hle : (Machine.unwound below).length ≤ below.length := by
    conv => rhs; rw [hpre]
    simp
  rw [idle_above_iff]
  intro f hf
  rw [Machine.panicked, List.reverse_cons, List.getElem?_append] at hf
  split at hf
  · rename_i hlt
    rw [List.length_reverse] at hlt
    omega
  · obtain rfl : f = .answer (.panicked message) := List.mem_singleton.mp (List.mem_of_getElem? hf)
    rfl

/-- What is put on top is idle if it does no part of a shutdown. -/
theorem idle_above_of_le (post : Thread) {rest : Thread} {d : Nat} (hd : rest.length ≤ d)
    (hpost : ∀ g ∈ post, g.drains = false) : (above d (post ++ rest)).Idle := by
  rw [idle_above_iff]
  intro g hg
  rw [List.reverse_append, List.getElem?_append_right (by simpa using hd)] at hg
  exact hpost g (List.mem_reverse.mp (List.mem_of_getElem? hg))

/-- What goes on further in does not matter. -/
theorem idle_above_of_lt (pre post : Thread) {rest : Thread} {d : Nat} (hd : d < rest.length)
    (hidle : (above d (pre ++ rest)).Idle) : (above d (post ++ rest)).Idle := by
  have hlt : d < rest.reverse.length := by simpa using hd
  rw [idle_above_iff, List.reverse_append, List.getElem?_append_left hlt] at hidle ⊢
  exact hidle

end Thread

/-- A step of a thread does not make a shutdown of what sits on its outermost `d` frames, unless one has
been called there. -/
theorem Thread.Goes.idle {t t' : Thread} {d : Nat} (h : Goes t t') (hidle : (above d t).Idle) :
    (above d t').Idle ∨ ∃ timeout rest, t = .shutdown timeout :: rest ∧ rest.length = d := by
  have hat := idle_above_iff.mp hidle
  cases h with
  | @call f _ hf =>
    rcases Nat.lt_or_ge d t.length with hd | hd
    · exact Or.inl (idle_above_of_lt [] [f] hd hidle)
    · exact Or.inl (idle_above_of_le [f] hd (by simpa using Frame.drains_of_isCall hf))
  | @step f rest post hpost =>
    rcases Nat.lt_or_ge d rest.length with hd | hd
    · exact Or.inl (idle_above_of_lt [f] post hd hidle)
    · exact Or.inl (idle_above_of_le post hd hpost)
  | @shut f rest calls g hf hg hcalls =>
    have hcalls' : ∀ c ∈ calls, c.drains = false := fun c hc => Frame.drains_of_isCall (hcalls c hc)
    rcases Nat.lt_trichotomy d rest.length with hd | hd | hd
    · refine Or.inl ?_
      rw [List.append_cons]
      exact idle_above_of_lt [f] _ hd hidle
    · -- the frame that goes on is the one that sits there
      have hf' : f.drains = false := hat f (by rw [List.reverse_cons, hd, ← List.length_reverse]; simp)
      cases f with
      | shutdown timeout => exact Or.inr ⟨timeout, rest, rfl, hd.symm⟩
      | silencing | drain | rest => cases hf'
      | _ => cases hf
    · exact Or.inl (idle_above_of_le calls (show (g :: rest).length ≤ d from hd) hcalls')
  | @back a g rest g' hg =>
    have hg' : g.drains = true := by cases g <;> first | rfl | cases hg
    rcases Nat.lt_trichotomy d rest.length with hd | hd | hd
    · exact Or.inl (idle_above_of_lt [.answer a, g] [g'] hd hidle)
    · have := hat g (by rw [List.reverse_cons, List.reverse_cons, hd, ← List.length_reverse]; simp)
      rw [hg'] at this
      cases this
    · exact Or.inl (idle_above_of_le [] (show (g' :: rest).length ≤ d from hd) (by simp))
  | @panic f rest message =>
    obtain ⟨pre, hpre⟩ := Machine.unwound_suffix rest
    rcases Nat.lt_or_ge d (Machine.unwound rest).length with hd | hd
    · rw [hpre, ← List.cons_append] at hidle
      exact Or.inl (idle_above_of_lt _ [.answer (.panicked message)] hd hidle)
    · exact Or.inl (idle_above_of_le [.answer (.panicked message)] hd (by simp [Frame.drains]))

theorem Machine.unwound_append (pre below : Thread) :
    (∃ pre', unwound (pre ++ below) = pre' ++ below) ∨ unwound (pre ++ below) = unwound below := by
  induction pre with
  | nil => exact Or.inr rfl
  | cons f pre ih =>
    rw [List.cons_append, unwound]
    split
    · exact Or.inl ⟨f :: pre, rfl⟩
    · exact ih

/-- While a shutdown cancels, what its thread does in the meantime leaves it as it is or unwinds it. -/
theorem Thread.Goes.cancelling {t t' pre below : Thread} {a : Answer} {timeout : Duration} {ids : List String}
    (h : Goes t t') (ht : t = pre ++ .answer a :: .silencing timeout ids :: below) (hpre : pre ≠ []) :
    (∃ pre', t' = pre' ++ .answer a :: .silencing timeout ids :: below) ∨ (above below.length t').Idle := by
  subst ht
  obtain ⟨f, pre, rfl⟩ := List.exists_cons_of_ne_nil hpre
  generalize hbase : Frame.answer a :: .silencing timeout ids :: below = base
  generalize hr : pre ++ base = rest at h
  rw [List.cons_append, hbase, hr] at h
  cases h with
  | call hf => exact Or.inl ⟨_ :: f :: pre, by rw [← hr]; rfl⟩
  | step post => exact Or.inl ⟨post ++ pre, by rw [← hr, List.append_assoc]⟩
  | shut calls g => exact Or.inl ⟨calls ++ g :: pre, by rw [← hr, List.append_assoc]; rfl⟩
  | @back a' g rest' g' hg =>
    cases pre with
    | nil => rw [← hbase] at hr; cases hr; cases hg
    | cons g₁ pre => cases hr; exact Or.inl ⟨g' :: pre, rfl⟩
  | panic message =>
    rcases Machine.unwound_append pre base with ⟨pre', heq⟩ | heq
    · exact Or.inl ⟨.answer (.panicked message) :: pre', by rw [Machine.panicked, ← hr, heq]; rfl⟩
    · refine Or.inr ?_
      have : Machine.panicked message rest = Machine.panicked message below := by
        rw [Machine.panicked, ← hr, heq, ← hbase]; rfl
      rw [this]
      exact idle_panicked message below

/-! ## What is noted -/

/-- What is noted of a shutdown. -/
structure Watch where
  /-- How many entries were registered when it took the list of what to cancel. -/
  registered : Nat := 0
  /-- When it began to poll. -/
  polling : Option Instant := none
  /-- How many scans it has begun since. -/
  scans : Nat := 0
  /-- The entries that its latest scan has found running. -/
  counted : List Key := []
  /-- The entries that were running when its latest scan ended. -/
  running : List Key := []

namespace Watch

/-- What is noted when the shutdown makes its next step, from its frames. -/
def note (w : Watch) (m : Machine) : Thread → Watch
  | [.listRunning, .silence _] => { registered := m.entries.length }
  | [.silencing _ []] => { registered := w.registered, polling := some m.now }
  | [.listRunning, .drained _ _] => { w with scans := w.scans + 1, counted := [] }
  | [.scanning (k :: _) _, .drained _ _] =>
    { w with counted := if m.isRunning k then w.counted ++ [k] else w.counted }
  | [.scanning [] _, .drained _ _] =>
    { w with running := (List.range m.entries.length).filter m.isRunning }
  | _ => w

/-- The notes on the shutdown of thread `i` over its outermost `d` frames, after a step. -/
def after (w : Watch) (i d : Nat) (m : Machine) : Label → Watch
  | .step j => if j = i then w.note m (m.above i d) else w
  | _ => w

end Watch

/-- A run on which a shutdown of thread `i` over its outermost `d` frames is watched. -/
inductive Watched (i d : Nat) (w₀ : Watch) (m₀ : Machine) : List (Policy × Label) → Watch → Machine → Prop where
  | nil : Watched i d w₀ m₀ [] w₀ m₀
  | snoc {steps : List (Policy × Label)} {w : Watch} {m m' : Machine} {p : Policy} {l : Label}
      (run : Watched i d w₀ m₀ steps w m) (step : m.next? p l = some m') :
      Watched i d w₀ m₀ (steps ++ [(p, l)]) (w.after i d m l) m'

section

variable {i d : Nat} {w₀ w w' : Watch} {m₀ m m' : Machine} {steps steps' : List (Policy × Label)}

theorem Watched.run (h : Watched i d w₀ m₀ steps w m) : ∃ es, Run m₀ steps es m := by
  induction h with
  | nil => exact ⟨[], .nil⟩
  | snoc _ step ih =>
    obtain ⟨es, ih⟩ := ih
    exact ⟨_, .snoc ih step⟩

/-- Every run can be watched. -/
theorem Run.watched {es : List Event} (h : Run m₀ steps es m) (i d : Nat) (w₀ : Watch) :
    ∃ w, Watched i d w₀ m₀ steps w m := by
  induction h with
  | nil => exact ⟨w₀, .nil⟩
  | snoc _ step ih =>
    obtain ⟨w, ih⟩ := ih
    exact ⟨_, .snoc ih step⟩

theorem Watched.trans (h : Watched i d w₀ m₀ steps w m) (h' : Watched i d w m steps' w' m') :
    Watched i d w₀ m₀ (steps ++ steps') w' m' := by
  induction h' with
  | nil => simpa using h
  | snoc _ step ih => rw [← List.append_assoc]; exact .snoc ih step

end

namespace Watch

theorem note_of_idle {w : Watch} {m : Machine} {t : Thread} (h : t.Idle) : w.note m t = w := by
  unfold note
  split
  case h_6 => rfl
  all_goals exact absurd (h _ rfl) (by simp [Frame.drains])

theorem note_of_cancelling {w : Watch} {m : Machine} {pre : Thread} {a : Answer} {timeout : Duration}
    {ids : List String} : w.note m (pre ++ [.answer a, .silencing timeout ids]) = w := by
  generalize ht : pre ++ [.answer a, .silencing timeout ids] = t
  have hlast : t.getLast? = some (.silencing timeout ids) := by rw [← ht]; simp
  have hlen : t.length = pre.length + 2 := by rw [← ht]; simp
  unfold note
  split
  case h_2 => simp at hlen
  case h_6 => rfl
  all_goals simp at hlast

end Watch

/-! ## What is still to be cancelled -/

/-- Of the first `n` entries, those that still run are among `keys` or go by one of `ids`. -/
structure Machine.Owed (m : Machine) (n : Nat) (keys : List Key) (ids : List String) : Prop where
  known : n ≤ m.entries.length
  running : ∀ k e, k < n → m.entry? k = some e → e.status = .running → k ∈ keys ∨ e.id ∈ ids

namespace Machine

variable {p : Policy} {m m' : Machine} {l : Label} {n : Nat} {keys : List Key} {ids : List String}

/-- No step adds to what is owed. -/
theorem Owed.of_next? (h : m.Owed n keys ids) (hm : m.Sound) (hs : m.next? p l = some m') :
    m'.Owed n keys ids where
  known := Nat.le_trans h.known (length_le_of_next? hs)
  running k e' hk he' hr' := by
    have hk' : k < m.entries.length := Nat.lt_of_lt_of_le hk h.known
    obtain ⟨e, he, hr⟩ := isRunning_iff.mp (isRunning_of_next? hm hs hk' (isRunning_iff.mpr ⟨e', he', hr'⟩))
    obtain ⟨e₁, he₁, hid, -⟩ := entry?_of_next? hm hs hk' he'
    obtain rfl : e = e₁ := Option.some.inj (he.symm.trans he₁)
    rw [hid]
    exact h.running k e hk he hr

/-- A list that is about to be taken visits all that runs. -/
theorem Owed.start (hi : m.Indexed) (hp : p.Fair) : m.Owed m.entries.length (p.visit m.keys) [] where
  known := Nat.le_refl _
  running _ e _ he hr :=
    Or.inl ((hp m.keys).mem_iff.mpr (hi.mem_keys (isRunning_iff.mpr ⟨e, he, hr⟩)))

/-- The list names what it has found running. -/
theorem Owed.look {k : Key} {todo : List Key} {found : List String} (h : m.Owed n (k :: todo) found) :
    m.Owed n todo (found ++ ((m.entry? k).toList.filter (·.status = .running)).map (·.id)) where
  known := h.known
  running _ e hk he hr := by
    rcases h.running _ e hk he hr with hmem | hmem
    · rcases List.mem_cons.mp hmem with rfl | hmem
      · exact Or.inr (List.mem_append_right _ (by simp [he, hr]))
      · exact Or.inl hmem
    · exact Or.inr (List.mem_append_left _ hmem)

/-- No entry that runs goes by an id that cannot be found. -/
theorem Owed.lost {id : String} (h : m.Owed n [] (id :: ids)) (hi : m.Indexed) (hid : m.find? id = none) :
    m.Owed n [] ids where
  known := h.known
  running k e hk he hr := by
    rcases List.mem_cons.mp ((h.running k e hk he hr).resolve_left (by simp)) with heq | hmem
    · have hmem := hi.kept k e he (by rw [hr]; rfl)
      rw [heq] at hmem
      exact absurd hmem (find?_eq_none.mp hid k)
    · exact Or.inr hmem

/-- The entry that runs under an id is the one that is found. -/
theorem Owed.traced {id : String} {key : Key} (h : m.Owed n [] (id :: ids)) (hi : m.Indexed)
    (hid : m.find? id = some key) : m.Owed n [key] ids where
  known := h.known
  running k e hk he hr := by
    rcases List.mem_cons.mp ((h.running k e hk he hr).resolve_left (by simp)) with heq | hmem
    · have hfind := hi.find?_of_mem (hi.kept k e he (by rw [hr]; rfl))
      rw [heq, hid] at hfind
      exact Or.inl (List.mem_singleton.mpr (Option.some.inj hfind).symm)
    · exact Or.inr hmem

/-- An entry that does not run is not owed. -/
theorem Owed.paid {key : Key} (h : m.Owed n [key] ids) (hk : m.isRunning key = false) : m.Owed n [] ids where
  known := h.known
  running k e hk' he hr := by
    refine (h.running k e hk' he hr).imp_left fun hmem => ?_
    obtain rfl : k = key := List.mem_singleton.mp hmem
    rw [isRunning_iff.mpr ⟨e, he, hr⟩] at hk
    cases hk

/-- Nothing is owed: the first `n` entries are finished. -/
theorem Owed.isFinished (h : m.Owed n [] []) (hm : m.Sound) {k : Key} (hk : k < n) : m.isFinished k = true := by
  have hk' : k < m.entries.length := Nat.lt_of_lt_of_le hk h.known
  rw [hm.isFinished_eq hk', Bool.not_eq_true', ← Bool.not_eq_true, isRunning_iff]
  rintro ⟨e, he, hr⟩
  rcases h.running k e hk he hr with hmem | hmem <;> cases hmem

/-- What runs was registered after what nothing is owed of. -/
theorem Owed.le_of_isRunning (h : m.Owed n [] []) {k : Key} (hk : m.isRunning k = true) : n ≤ k := by
  obtain ⟨e, he, hr⟩ := isRunning_iff.mp hk
  rcases Nat.lt_or_ge k n with hlt | hge
  · rcases h.running k e hlt he hr with hmem | hmem <;> cases hmem
  · exact hge

end Machine

end Overseer.Supervisor

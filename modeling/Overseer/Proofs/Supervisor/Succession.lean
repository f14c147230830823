import Overseer.Proofs.Supervisor.Keepers

/-!
# Entries that follow each other under one id

An id is in use as long as its entry can be found, and a start of an id in use is refused. But an entry is
finished as soon as it is cancelled, and a prune evicts it then, while its run may still be at work: a
start of the same id sets off a second run beside the first. That is the one way to two runs under one id.

* `Machine.Succeeded`: of two entries with one id only the later can be found.
* `executing_apart`: of two runs at work under one id, one has been cancelled and evicted.
-/
namespace Overseer.Supervisor

/-- Of two entries with one id only the later can be found. -/
def Machine.Succeeded (m : Machine) : Prop :=
  ∀ k k' e e', k < k' → m.entry? k = some e → m.entry? k' = some e' → e.id = e'.id → k ∉ m.keys

/-- The entry of a run that was given up: it has been cancelled, and evicted since. -/
def Machine.GivenUp (m : Machine) (k : Key) : Prop :=
  ∃ e, m.entry? k = some e ∧ e.status = .cancelled ∧ k ∉ m.keys

section

variable {p : Policy} {m m' : Machine} {l : Label}

/-- A step evicts entries or registers one, under an id that is not in use. -/
theorem Turn.registers (h : Turn p m l m') (hi : m.Indexed) :
    (m'.entries.length = m.entries.length ∧ m'.tracked ⊆ m.tracked) ∨
      ∃ entry, m.find? entry.id = none ∧ m'.entries = m.entries ++ [entry] ∧
        m'.tracked = m.tracked ++ [(entry.id, m.entries.length)] := by
  cases h with
  | outside _ tracked entries | aside _ _ _ _ tracked entries =>
    exact Or.inl ⟨entries, tracked ▸ List.Subset.refl _⟩
  | enroll _ _ unknown => exact Or.inr ⟨_, unknown, rfl, rfl⟩
  | accept ht =>
    exact Or.inr ⟨_, hi.unused _ _ _ _ (Machine.mem_frames ht List.mem_cons_self), rfl, rfl⟩
  | evict => exact Or.inl ⟨rfl, List.filter_sublist.subset⟩
  | _ => exact Or.inl ⟨rfl, List.Subset.refl _⟩

namespace Machine

theorem Initial.succeeded (h : m.Initial) : m.Succeeded := by
  intro k k' e e' _ he
  simp [entry?_eq, h.entries] at he

theorem Succeeded.of_next? (hs : m.Succeeded) (hm : m.Sound) (hi : m.Indexed)
    (step : m.next? p l = some m') : m'.Succeeded := by
  intro k k' e e' hlt he he' hid hk
  rcases (turn_of_next? step).registers hi with ⟨hlen, htr⟩ | ⟨entry, unknown, hent, htr⟩
  · obtain ⟨e₁, he₁, hid₁, -⟩ := entry?_of_next? hm step (hlen ▸ entry?_lt he) he
    obtain ⟨e₁', he₁', hid₁', -⟩ := entry?_of_next? hm step (hlen ▸ entry?_lt he') he'
    refine hs k k' e₁ e₁' hlt he₁ he₁' (by rw [← hid₁, ← hid₁', hid]) ?_
    exact List.map_subset _ htr hk
  · have hle : k' ≤ m.entries.length := by
      have := entry?_lt he'
      rw [hent, List.length_append, List.length_singleton] at this
      exact Nat.le_of_lt_succ this
    obtain ⟨e₁, he₁, hid₁, -⟩ := entry?_of_next? hm step (Nat.lt_of_lt_of_le hlt hle) he
    have hk : k ∈ m.keys := by
      rw [keys, htr, List.map_append, List.mem_append] at hk
      refine hk.resolve_right fun h => ?_
      have hnew : k = m.entries.length := by simpa using h
      exact Nat.lt_irrefl k (Nat.lt_of_lt_of_le hlt (hnew ▸ hle))
    rcases Nat.lt_or_eq_of_le hle with hlt' | rfl
    · obtain ⟨e₁', he₁', hid₁', -⟩ := entry?_of_next? hm step hlt' he'
      exact hs k k' e₁ e₁' hlt he₁ he₁' (by rw [← hid₁, ← hid₁', hid]) hk
    · -- The later entry is the new one, and the earlier would be found under its id.
      obtain rfl : entry = e' := by
        rw [entry?_eq, hent, List.getElem?_concat_length] at he'
        exact Option.some.inj he'
      obtain ⟨⟨id, k⟩, hmem, rfl⟩ := List.mem_map.mp hk
      obtain ⟨e₂, he₂, hid₂⟩ := hi.named id k hmem
      rw [he₁] at he₂; cases he₂
      refine find?_eq_none.mp unknown k ?_
      rwa [← hid, hid₁, hid₂]

theorem two_le_countP {α : Type} {q : α → Bool} {l : List α} {a b : Nat} {x y : α} (hab : a < b)
    (ha : l[a]? = some x) (hx : q x = true) (hb : l[b]? = some y) (hy : q y = true) : 2 ≤ l.countP q := by
  have hfront : 0 < (l.take b).countP q :=
    List.countP_pos_iff.mpr ⟨x, List.mem_of_getElem? (by rwa [List.getElem?_take_of_lt hab]), hx⟩
  have hback : y ∈ l.drop b :=
    List.mem_of_getElem? (by rw [List.getElem?_drop, Nat.add_zero]; exact hb : (l.drop b)[0]? = some y)
  have hrest : 0 < (l.drop b).countP q := List.countP_pos_iff.mpr ⟨y, hback, hy⟩
  rw [← List.take_append_drop b l, List.countP_append]
  omega

/-- Two frames that see to one entry are counted both. -/
theorem keepers_apart {a b : Nat} {f f' : Frame} {k : Key} (hab : a ≠ b) (ha : m.frames[a]? = some f)
    (hf : f.keeps? = some k) (hb : m.frames[b]? = some f') (hf' : f'.keeps? = some k) : 2 ≤ m.keepers k := by
  have hf : decide (f.keeps? = some k) = true := by simpa using hf
  have hf' : decide (f'.keeps? = some k) = true := by simpa using hf'
  rcases Nat.lt_or_gt_of_ne hab with hlt | hlt
  · exact two_le_countP hlt ha hf hb hf'
  · exact two_le_countP hlt hb hf' ha hf

/-- An entry that a run is at work on, and that cannot be found, has been cancelled. -/
theorem givenUp_of_not_mem {es : List Event} {k : Key} {e : Entry} {f : Frame} (hi : m.Indexed)
    (hg : e.Guarded k es (m.keepers k)) (he : m.entry? k = some e) (hf : f ∈ m.frames)
    (hfk : f.keeps? = some k) (hk : k ∉ m.keys) : m.GivenUp k := by
  have hpos : 0 < m.keepers k := List.countP_pos_iff.mpr ⟨f, hf, by simpa using hfk⟩
  have honce := hg.once
  refine ⟨e, he, (hg.early (by omega)).resolve_left fun hr => hk ?_, hk⟩
  exact hi.mem_keys (isRunning_iff.mpr ⟨e, he, hr⟩)

end Machine

end

section

variable {m₀ m : Machine} {steps : List (Policy × Label)} {es : List Event}

theorem Run.succeeded (h : Run m₀ steps es m) (h₀ : m₀.Initial) : m.Succeeded := by
  induction h with
  | nil => exact h₀.succeeded
  | snoc run step ih => exact ih.of_next? (run.sound h₀.sound) (run.indexed h₀) step

/-- Two frames in which the executor is at work on runs with one id are at work on two entries, and the
earlier of these has been cancelled and evicted. -/
theorem executing_apart (h₀ : m₀.Initial) (h : Run m₀ steps es m) {a b : Nat} {c c' : Context} {k k' : Key}
    (hab : a ≠ b) (ha : m.frames[a]? = some (.executing c k)) (hb : m.frames[b]? = some (.executing c' k'))
    (hid : c.id = c'.id) : (k < k' ∧ m.GivenUp k) ∨ (k' < k ∧ m.GivenUp k') := by
  have hf := List.mem_of_getElem? ha
  have hf' := List.mem_of_getElem? hb
  have hord := h.ordered h₀
  have hidx := h.indexed h₀
  obtain ⟨e, he, hname⟩ := hord.named _ hf c k rfl
  obtain ⟨e', he', hname'⟩ := hord.named _ hf' c' k' rfl
  have hsame : e.id = e'.id := by rw [hname, hname', hid]
  rcases Nat.lt_trichotomy k k' with hlt | rfl | hlt
  · have hk := h.succeeded h₀ k k' e e' hlt he he' hsame
    exact Or.inl ⟨hlt, Machine.givenUp_of_not_mem hidx (h.guarded h₀ he) he hf rfl hk⟩
  · have honce := (h.guarded h₀ he).once
    have htwo := Machine.keepers_apart hab ha rfl hb rfl
    omega
  · have hk := h.succeeded h₀ k' k e' e hlt he' he hsame.symm
    exact Or.inr ⟨hlt, Machine.givenUp_of_not_mem hidx (h.guarded h₀ he') he' hf' rfl hk⟩

end

/-- A run is cancelled, its entry is evicted, and its id is started again. -/
def hastySuccessor : List Label :=
  [.call 0 (.plainStart "a"), .step 0, .step 0, .step 0, .step 0, .step 0, .take 0, .step 2,
    .call 0 (.cancel "a"), .step 0, .step 0, .step 0, .take 0, .call 0 .prune, .step 0, .step 0, .step 0, .take 0,
    .call 0 (.plainStart "a"), .step 0, .step 0, .step 0, .step 0, .step 0, .take 0, .step 3]

theorem executing_apart_hastySuccessor : ∃ es m,
    Run twoCallers (hastySuccessor.map fun l => ({}, l)) es m ∧ m.GivenUp 0 := by
  obtain ⟨es, m, h, hf⟩ : ∃ es m, Run twoCallers (hastySuccessor.map fun l => ({}, l)) es m ∧
      m.frames = [.executing (plainContext "a") 0, .executing (plainContext "a") 1] :=
    ⟨_, _, Run.of_run? {} hastySuccessor rfl, rfl⟩
  obtain ⟨-, hgone⟩ | ⟨hlt, -⟩ := executing_apart twoCallers_initial h (Nat.zero_ne_one) (by rw [hf]; rfl)
    (by rw [hf]; rfl) rfl
  · exact ⟨es, m, h, hgone⟩
  · exact absurd hlt (by decide)

/-- Two runs with one id are at work at a time. -/
theorem executing_twice : ∃ es m, Run twoCallers (hastySuccessor.map fun l => ({}, l)) es m ∧
    m.threads = [[], [], [.executing (plainContext "a") 0], [.executing (plainContext "a") 1]] :=
  ⟨_, _, Run.of_run? {} hastySuccessor rfl, rfl⟩

end Overseer.Supervisor

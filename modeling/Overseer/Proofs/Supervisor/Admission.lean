import Overseer.Proofs.Supervisor.Map

/-!
# Admission

A start counts the running entries one by one while it has the map to itself. Meanwhile entries may
finish, but none can be registered or evicted; so what it has counted is never less than what still runs
of the entries it has seen, and never more than what ran when it began. `Machine.Admits` carries both
bounds through every interleaving.

* `admission_bound`: under a limit that all handles share, there are never more running entries than it
  allows, and a start that is refused for want of room reports exactly the limit.
-/
namespace Overseer.Supervisor

namespace Machine

/-- How many of the entries that can be found are running. -/
def runningCount (m : Machine) : Nat := m.keys.countP m.isRunning

/-- A start has counted `running` entries and has yet to look at `todo`: of those it has seen no more than
that still run, and with those to come they are no more than `n`. -/
def CountsUpTo (n : Nat) (m : Machine) (todo : List Key) (running : Nat) : Prop :=
  ∃ seen, (seen ++ todo).Perm m.keys ∧ seen.countP m.isRunning ≤ running ∧
    running + todo.countP m.isRunning ≤ n

/-- No more than `n` entries run, no start counts more, and none has been refused below that. -/
structure Admits (n : Nat) (m : Machine) : Prop where
  running : m.runningCount ≤ n
  counting : ∀ c e todo r, Frame.counting c e todo r ∈ m.frames → m.CountsUpTo n todo r
  refused : ∀ r limit, Frame.answer (.refused (.capacityExceeded r limit)) ∈ m.frames → r = n ∧ limit = n

variable {p : Policy} {m m' : Machine} {l : Label} {n : Nat}

theorem Initial.admits (h : m.Initial) (n : Nat) : m.Admits n where
  running := by simp [runningCount, keys, h.tracked]
  counting c e todo r hf := by cases h.frames_isCall hf
  refused r limit hf := by cases h.frames_isCall hf

/-- Of some entries that were registered before a step no more run after it. -/
theorem countP_isRunning_le (hm : m.Sound) (h : m.next? p l = some m') {ks : List Key}
    (hks : ∀ k ∈ ks, k < m.entries.length) : ks.countP m'.isRunning ≤ ks.countP m.isRunning :=
  List.countP_mono_left fun k hk hr => isRunning_of_next? hm h (hks k hk) hr

/-- A start looks at one more entry. -/
theorem CountsUpTo.count {k : Key} {todo : List Key} {r : Nat} (h : m.CountsUpTo n (k :: todo) r) :
    m.CountsUpTo n todo (if m.isRunning k then r + 1 else r) := by
  obtain ⟨seen, hperm, hseen, htodo⟩ := h
  refine ⟨seen ++ [k], by simpa using hperm, ?_, ?_⟩
  · rw [List.countP_append, List.countP_singleton]
    split <;> omega
  · rw [List.countP_cons] at htodo
    split
    · simp_all
      omega
    · simp_all

theorem CountsUpTo.start (hp : p.Fair) (h : m.runningCount ≤ n) : m.CountsUpTo n (p.visit m.keys) 0 :=
  ⟨[], hp m.keys, Nat.le_refl 0, by rw [Nat.zero_add, (hp m.keys).countP_eq]; exact h⟩

/-- A step that registers nothing and evicts nothing lets every count go on. -/
theorem CountsUpTo.of_next? (hi : m.Indexed) (hm : m.Sound) (h : m.next? p l = some m')
    (hkeys : m'.keys = m.keys) {todo : List Key} {r : Nat} (hc : m.CountsUpTo n todo r) :
    m'.CountsUpTo n todo r := by
  obtain ⟨seen, hperm, hseen, htodo⟩ := hc
  have hlt : ∀ k ∈ seen ++ todo, k < m.entries.length := fun k hk => hi.keys_lt k (hperm.subset hk)
  have hle := countP_isRunning_le hm h fun k hk => hlt k (List.mem_append_left _ hk)
  have hle' := countP_isRunning_le hm h fun k hk => hlt k (List.mem_append_right _ hk)
  exact ⟨seen, hkeys ▸ hperm, Nat.le_trans hle hseen, Nat.le_trans (Nat.add_le_add_left hle' r) htodo⟩

/-- A step that registers nothing and evicts nothing, and leaves only frames that were there before, that
are aside, or that keep to the bounds. -/
theorem Admits.of_next? (ha : m.Admits n) (hi : m.Indexed) (hm : m.Sound) (h : m.next? p l = some m')
    (hkeys : m'.keys = m.keys)
    (hcount : ∀ c e todo r, Frame.counting c e todo r ∈ m'.frames →
      Frame.counting c e todo r ∈ m.frames ∨ m.CountsUpTo n todo r)
    (hrefused : ∀ r limit, Frame.answer (.refused (.capacityExceeded r limit)) ∈ m'.frames →
      Frame.answer (.refused (.capacityExceeded r limit)) ∈ m.frames ∨ r = n ∧ limit = n) :
    m'.Admits n where
  running := by
    rw [runningCount, hkeys]
    exact Nat.le_trans (countP_isRunning_le hm h hi.keys_lt) ha.running
  counting c e todo r hf :=
    ((hcount c e todo r hf).elim (ha.counting c e todo r) id).of_next? hi hm h hkeys
  refused r limit hf := (hrefused r limit hf).elim (ha.refused r limit) id

/-- All has been seen. -/
theorem CountsUpTo.done {r : Nat} (h : m.CountsUpTo n [] r) : m.runningCount ≤ r ∧ r ≤ n := by
  obtain ⟨seen, hperm, hseen, hle⟩ := h
  rw [List.append_nil] at hperm
  exact ⟨by rw [runningCount, ← hperm.countP_eq]; exact hseen, hle⟩

/-- A start that has the map to itself registers its entry while there is room. -/
theorem Admits.register (ha : m.Admits n) (hi : m.Indexed) (hm : m.Sound) {i : Nat} {f : Frame}
    {context : Context} {entry : Entry} {below : Thread} (ht : m.threads[i]? = some (f :: below))
    (h : m.next? p l = some (m.register i context entry below)) (hroom : m.runningCount < n)
    (hcount : ∀ c e todo r, Frame.counting c e todo r ∉ (m.register i context entry below).frames) :
    (m.register i context entry below).Admits n where
  running := by
    have hle : m.keys.countP (m.register i context entry below).isRunning ≤ m.runningCount :=
      countP_isRunning_le hm h hi.keys_lt
    have hkeys : (m.register i context entry below).keys = m.keys ++ [m.entries.length] :=
      List.map_append
    rw [runningCount, hkeys, List.countP_append, List.countP_singleton]
    split <;> omega
  counting c e todo r hf := absurd hf (hcount c e todo r)
  refused r limit hf := by
    rcases mem_frames_go [_] [.notify _ .running, .announce context _] ht rfl hf with hf | hf
    · simp at hf
    · exact ha.refused r limit hf

/-- A step that evicts entries, with the map to itself. -/
theorem Admits.evict (ha : m.Admits n) (hi : m.Indexed) (hm : m.Sound) (h : m.next? p l = some m')
    (hkeys : m'.keys.Sublist m.keys)
    (hcount : ∀ c e todo r, Frame.counting c e todo r ∉ m'.frames)
    (hrefused : ∀ r limit, Frame.answer (.refused (.capacityExceeded r limit)) ∈ m'.frames →
      Frame.answer (.refused (.capacityExceeded r limit)) ∈ m.frames) : m'.Admits n where
  running := calc
    m'.keys.countP m'.isRunning ≤ m.keys.countP m'.isRunning := hkeys.countP_le
    _ ≤ m.keys.countP m.isRunning := countP_isRunning_le hm h hi.keys_lt
    _ ≤ n := ha.running
  counting c e todo r hf := absurd hf (hcount c e todo r)
  refused r limit hf := ha.refused r limit (hrefused r limit hf)

end Machine

open Machine in
/-- A turn under the limit `n` keeps to it. -/
theorem Turn.admits {p : Policy} {m m' : Machine} {l : Label} {n : Nat} (h : Turn p m l m')
    (hnext : m.next? p l = some m') (hm : m.Sound) (hlock : m.Locked) (hi : m.Indexed) (hn : 0 < n)
    (hp : p.maxRunning = n) (hfair : p.Fair) (ha : m.Admits n) : m'.Admits n := by
  have go {i : Nat} {f : Frame} {below : Thread} (g : Frame) (ht : m.threads[i]? = some (f :: below))
      (hthr : m'.threads = m.threads.set i ([g] ++ below)) (hkeys : m'.keys = m.keys)
      (hcount : ∀ c e todo r, Frame.counting c e todo r = g → m.CountsUpTo n todo r)
      (hrefused : ∀ r limit, Frame.answer (.refused (.capacityExceeded r limit)) = g → r = n ∧ limit = n) :
      m'.Admits n := by
    refine ha.of_next? hi hm hnext hkeys (fun c e todo r hf => ?_) (fun r limit hf => ?_)
    · exact (mem_frames_go [_] [g] ht hthr hf).elim
        (fun hf => Or.inr (hcount c e todo r (List.mem_singleton.mp hf))) Or.inl
    · exact (mem_frames_go [_] [g] ht hthr hf).elim
        (fun hf => Or.inr (hrefused r limit (List.mem_singleton.mp hf))) Or.inl
  cases h with
  | outside _ htr _ threads =>
    have hframes {f : Frame} (hf : f ∈ m'.frames) : f ∈ m.frames := by
      rcases threads with heq | heq
      · rwa [frames, heq] at hf
      · simpa [frames, heq] using hf
    exact ha.of_next? hi hm hnext (by rw [keys, htr]; rfl) (fun _ _ _ _ hf => Or.inl (hframes hf))
      (fun _ _ hf => Or.inl (hframes hf))
  | aside _ ht hf goes htr _ threads =>
    refine ha.of_next? hi hm hnext (by rw [keys, htr]; rfl) (fun c e todo r hmem => Or.inl ?_)
      (fun r limit hmem => Or.inl ?_) <;>
    exact (mem_frames_aside ht hf goes threads hmem).resolve_left (by simp [Frame.aside])
  | enroll _ _ _ hzero => omega
  | accept ht room =>
    have hdone := (ha.counting _ _ _ _ (mem_frames ht List.mem_cons_self)).done
    have hroom := Nat.lt_of_le_of_lt hdone.1 (hp ▸ room)
    exact ha.register hi hm ht hnext hroom (not_counting_register (hlock.below_free ht)
      fun j t hj ht' => hlock.others_free ht rfl hj ht')
  | @refuse i c e r below ht full =>
    have hdone := (ha.counting _ _ _ _ (mem_frames ht List.mem_cons_self)).done
    refine go _ ht rfl rfl (by simp) fun r' limit heq => ?_
    cases heq
    omega
  | claim ht =>
    refine go _ ht rfl rfl (fun c e todo r heq => ?_) (by simp)
    cases heq; exact .start hfair ha.running
  | count ht =>
    refine go _ ht rfl rfl (fun c e todo r heq => ?_) (by simp)
    cases heq; exact (ha.counting _ _ _ _ (mem_frames ht List.mem_cons_self)).count
  | known ht | found ht | swept ht | scan ht | look ht | sweep ht | spare ht =>
    exact go _ ht rfl rfl (by simp) (by simp)
  | @evict i k todo evicted below ht hk =>
    refine ha.evict hi hm hnext (List.filter_sublist.map _) (fun c e todo' r hmem => ?_) (fun r limit hmem => ?_)
    · rcases mem_frames_go [_] [_] ht rfl hmem with hmem | hmem
      · simp at hmem
      · cases hlock.eq_of_holds ht rfl hmem rfl
    · exact (mem_frames_go [_] [_] ht rfl hmem).resolve_left (by simp)

section

variable {m₀ m : Machine} {steps : List (Policy × Label)} {es : List Event} {n : Nat}

theorem Run.admits (h : Run m₀ steps es m) (h₀ : m₀.Initial) (hn : 0 < n)
    (hp : ∀ x ∈ steps, x.1.maxRunning = n ∧ x.1.Fair) : m.Admits n := by
  induction h with
  | nil => exact h₀.admits n
  | @snoc steps es m m' p l run step ih =>
    obtain ⟨hmax, hfair⟩ := hp (p, l) (by simp)
    exact (Machine.turn_of_next? step).admits step (run.sound h₀.sound) (run.locked h₀) (run.indexed h₀) hn hmax
      hfair (ih fun x hx => hp x (List.mem_append_left _ hx))

/-- Under a limit that all handles share, over every interleaving: no more entries run than it allows, and
a start that is refused for want of room reports the limit, both as what runs and as what is allowed. -/
theorem admission_bound (h₀ : m₀.Initial) (h : Run m₀ steps es m) (hn : 0 < n)
    (hp : ∀ x ∈ steps, x.1.maxRunning = n ∧ x.1.Fair) :
    m.runningCount ≤ n ∧
    ∀ r limit, Frame.answer (.refused (.capacityExceeded r limit)) ∈ m.frames → r = n ∧ limit = n := by
  have ha := h.admits h₀ hn hp
  exact ⟨ha.running, ha.refused⟩

end

/-- Two starts compete for the one place, and the second counts the first. -/
def crowdedStarts : List Label :=
  [.call 0 (.plainStart "a"), .call 1 (.plainStart "b"), .step 0, .step 1, .step 0, .step 0, .step 1,
    .step 0, .step 1, .step 1]

theorem admission_bound_crowdedStarts : ∃ es m,
    Run twoCallers (crowdedStarts.map fun l => ({ maxRunning := 1 }, l)) es m ∧
    m.isRunning 0 = true ∧ m.runningCount ≤ 1 ∧
    .answer (.refused (.capacityExceeded 1 1)) ∈ m.frames ∧
    ∀ r limit, Frame.answer (.refused (.capacityExceeded r limit)) ∈ m.frames → r = 1 ∧ limit = 1 := by
  have hp : ∀ x ∈ crowdedStarts.map fun l => (({ maxRunning := 1 } : Policy), l),
      x.1.maxRunning = 1 ∧ x.1.Fair := by
    intro x hx
    obtain ⟨l, -, rfl⟩ := List.mem_map.mp hx
    exact ⟨rfl, fun ks => List.Perm.refl ks⟩
  have h := Run.of_run? { maxRunning := 1 } crowdedStarts (m := twoCallers) rfl
  obtain ⟨hcount, hrefused⟩ := admission_bound twoCallers_initial h Nat.one_pos hp
  have hmem : [.answer (.refused (.capacityExceeded 1 1))] ∈ [[Frame.announce (plainContext "a") 0],
      [.answer (.refused (.capacityExceeded 1 1))]] := List.mem_cons_of_mem _ List.mem_cons_self
  exact ⟨_, _, h, rfl, hcount, List.mem_flatten.mpr ⟨_, hmem, List.mem_cons_self⟩, hrefused⟩

end Overseer.Supervisor

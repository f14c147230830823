import Overseer.Proofs.Supervisor.Starting

/-!
# The ledger of the map

What can be found is kept by two calls: a start registers its entry, and a prune evicts what it finds
terminal. The ledger of a run lists what they did, by how each of them goes on: which entry a start goes on to
announce, and at which visits the number of a prune goes up. It accounts for the map at every moment.

* `Machine.ledger`: the postings of a run.
* `Posts`: what a step does with the map, and what it posts.
* `Machine.Balanced`: the map as its ledger has it.
* `Sweeps`: what a prune has done while it has the map.
* `nothing_lost`: all of it, over every interleaving.
-/
namespace Overseer.Supervisor

/-! ## Postings -/

inductive Posting where
  /-- A start has registered its entry under an id. -/
  | registered (id : String) (key : Key)
  /-- A prune has looked at an entry, whose status was this, and has evicted it or not. -/
  | visited (key : Key) (status : Status) (evicted : Bool)
  /-- A prune has come back with a number. -/
  | pruned (n : Nat)
  deriving DecidableEq, Repr

namespace Posting

def isRegistration : Posting → Bool
  | .registered _ _ => true
  | _ => false

def isEviction : Posting → Bool
  | .visited _ _ evicted => evicted
  | _ => false

/-- The number that a prune comes back with. -/
def number : Posting → Nat
  | .pruned n => n
  | _ => 0

end Posting

/-- What a call posts as its innermost frame goes on as the stack `t`. -/
def Frame.posts (m : Machine) : Frame → Thread → List Posting
  | .enroll _ e, .notify key .running :: _ => [.registered e.id key]
  | .counting _ e _ _, .notify key .running :: _ => [.registered e.id key]
  | .sweeping (k :: _) n, .sweeping _ n' :: _ =>
    (m.entry? k).toList.map fun e => .visited k e.status (n' != n)
  | .sweeping _ _, .answer (.count n) :: _ => [.pruned n]
  | _, _ => []

namespace Machine

/-- What a step posts. -/
def posts (p : Policy) (m : Machine) (l : Label) : List Posting :=
  match l.thread?, m.next? p l with
  | some i, some m' =>
    match m.threads[i]?, m'.threads[i]? with
    | some (f :: _), some t => f.posts m t
    | _, _ => []
  | _, _ => []

/-- What the steps of a run post. -/
def ledger (m : Machine) : List (Policy × Label) → List Posting
  | [] => []
  | (p, l) :: rest =>
    m.posts p l ++
      match m.next? p l with
      | some m' => m'.ledger rest
      | none => []

end Machine

theorem Run.ledger_append {m₀ m : Machine} {steps : List (Policy × Label)} {es : List Event} (h : Run m₀ steps es m)
    (rest : List (Policy × Label)) : m₀.ledger (steps ++ rest) = m₀.ledger steps ++ m.ledger rest := by
  induction h generalizing rest with
  | nil => simp [Machine.ledger]
  | snoc run step ih =>
    rw [List.append_assoc, ih, ih, List.singleton_append, Machine.ledger, Machine.ledger, step]
    simp [Machine.ledger]

theorem Run.ledger_snoc {m₀ m m' : Machine} {steps : List (Policy × Label)} {es : List Event} {p : Policy}
    {l : Label} (h : Run m₀ steps es m) (step : m.next? p l = some m') :
    m₀.ledger (steps ++ [(p, l)]) = m₀.ledger steps ++ m.posts p l := by
  rw [h.ledger_append]
  simp [Machine.ledger, step]

/-- The entry `k` has been registered under `id`, and has not been evicted since. -/
def Stands (id : String) (k : Key) (book : List Posting) : Prop :=
  ∃ before after, book = before ++ .registered id k :: after ∧ ∀ s, .visited k s true ∉ after

theorem stands_concat {id : String} {k : Key} {book : List Posting} {x : Posting} :
    Stands id k (book ++ [x]) ↔
      x = .registered id k ∨ (Stands id k book ∧ ∀ s, x ≠ .visited k s true) := by
  constructor
  · rintro ⟨before, after, heq, hnot⟩
    rcases List.eq_nil_or_concat after with rfl | ⟨after, y, rfl⟩
    · exact Or.inl (by simpa using (List.append_inj' heq rfl).2)
    · rw [List.concat_eq_append] at heq hnot
      rw [← List.cons_append, ← List.append_assoc] at heq
      obtain ⟨rfl, hy⟩ := List.append_inj' heq rfl
      obtain rfl : x = y := by simpa using hy
      refine Or.inr ⟨⟨before, after, rfl, fun s hs => hnot s (List.mem_append_left _ hs)⟩, ?_⟩
      rintro s rfl
      exact hnot s (List.mem_append_right _ (List.mem_singleton_self _))
  · rintro (rfl | ⟨⟨before, after, rfl, hnot⟩, hx⟩)
    · exact ⟨book, [], rfl, by simp⟩
    · refine ⟨before, after ++ [x], by simp, fun s hs => ?_⟩
      rcases List.mem_append.mp hs with hs | hs
      · exact hnot s hs
      · exact hx s (List.mem_singleton.mp hs).symm

/-! ## What a step posts -/

/-- How many entries a prune at work has evicted. -/
def Frame.evicted : Frame → Nat
  | .sweeping _ n => n
  | _ => 0

namespace Machine

/-- How many entries the prunes at work have evicted. -/
def pending (m : Machine) : Nat := (m.frames.map Frame.evicted).sum

/-- No other thread holds the map. -/
def HasMap (m : Machine) (i : Nat) : Prop :=
  ∀ j t, j ≠ i → m.threads[j]? = some t → ∀ f ∈ t, f.holds = false

/-- A prune has yet to look at entries that can be found, at each of them once. -/
def Due (m : Machine) : Prop :=
  ∀ todo n, Frame.sweeping todo n ∈ m.frames → todo.Nodup ∧ todo ⊆ m.keys

end Machine

/-- What a step does with the map, and what it posts. -/
inductive Posts (m : Machine) : Label → List Posting → Machine → Prop where
  /-- The map stays as it is, and no prune goes on that has it. -/
  | none {l : Label} {m' : Machine} (tracked : m'.tracked = m.tracked) (pending : m'.pending = m.pending)
      (idle : ∀ i todo n below, l.thread? = some i → m.threads[i]? ≠ some (.sweeping todo n :: below)) :
      Posts m l [] m'
  /-- A start registers its entry, under an id that is not in use. -/
  | registered {i : Nat} {f : Frame} {c : Context} {entry : Entry} {below : Thread} {m' : Machine}
      (ht : m.threads[i]? = some (f :: below))
      (start : f = .enroll c entry ∨ ∃ todo running, f = .counting c entry todo running) (alone : m.HasMap i)
      (unknown : m.find? entry.id = none) (entries : m'.entries = m.entries ++ [entry])
      (tracked : m'.tracked = m.tracked ++ [(entry.id, m.entries.length)]) (pending : m'.pending = m.pending) :
      Posts m (.step i) [.registered entry.id m.entries.length] m'
  /-- A prune looks at an entry that can be found, and evicts it if it is terminal. -/
  | visited {i : Nat} {k : Key} {todo : List Key} {n : Nat} {below : Thread} {e : Entry} {m' : Machine}
      (ht : m.threads[i]? = some (.sweeping (k :: todo) n :: below)) (alone : m.HasMap i) (found : k ∈ m.keys)
      (entry : m.entry? k = some e)
      (tracked : m'.tracked = if e.status.isTerminal then m.tracked.filter (·.2 ≠ k) else m.tracked)
      (thread : m'.threads[i]? = some (.sweeping todo (if e.status.isTerminal then n + 1 else n) :: below))
      (pending : m'.pending = if e.status.isTerminal then m.pending + 1 else m.pending) :
      Posts m (.step i) [.visited k e.status e.status.isTerminal] m'
  /-- A prune comes back with the number of entries that it has evicted. -/
  | pruned {i : Nat} {n : Nat} {below : Thread} {m' : Machine}
      (ht : m.threads[i]? = some (.sweeping [] n :: below)) (alone : m.HasMap i)
      (tracked : m'.tracked = m.tracked) (thread : m'.threads[i]? = some (.answer (.count n) :: below))
      (pending : m'.pending + n = m.pending) : Posts m (.step i) [.pruned n] m'

section

variable {p : Policy} {m m' : Machine} {l : Label} {i : Nat} {f : Frame} {below : Thread}

theorem Frame.posts_of_not_handles {t : Thread} (h : f.handles = false) : f.posts m t = [] := by
  cases f <;> first | rfl | cases h

theorem Frame.evicted_of_free (h : f.holds = false) : f.evicted = 0 := by
  cases f <;> first | rfl | cases h

namespace Machine

theorem posts_eq {t : Thread} (hnext : m.next? p l = some m') (hl : l.thread? = some i)
    (ht : m.threads[i]? = some (f :: below)) (ht' : m'.threads[i]? = some t) : m.posts p l = f.posts m t := by
  simp only [posts, hl, hnext, ht, ht']

theorem pending_set (m' : Machine) (pre post : Thread) (ht : m.threads[i]? = some (pre ++ below))
    (hthr : m'.threads = m.threads.set i (post ++ below)) :
    m'.pending + (pre.map Frame.evicted).sum = m.pending + (post.map Frame.evicted).sum := by
  refine additive_frames_set (q := fun l => (l.map Frame.evicted).sum) (fun a b => ?_) pre post ht hthr
  rw [List.map_append, List.sum_append]

theorem pending_head {g : Frame} (ht : m.threads[i]? = some (f :: below))
    (hthr : m'.threads = m.threads.set i (g :: below)) : m'.pending + f.evicted = m.pending + g.evicted := by
  simpa using pending_set m' [f] [g] ht hthr

/-- A prune looks at an entry, and counts it or not. -/
theorem pending_visit {k : Key} {todo : List Key} {n d : Nat}
    (ht : m.threads[i]? = some (.sweeping (k :: todo) n :: below))
    (hthr : m'.threads = m.threads.set i (.sweeping todo (n + d) :: below)) : m'.pending = m.pending + d := by
  have h := pending_head ht hthr
  simp only [Frame.evicted] at h
  omega

theorem pending_eq_zero {t : Thread} (h : ∀ f ∈ t, f.holds = false) : (t.map Frame.evicted).sum = 0 := by
  induction t with
  | nil => rfl
  | cons f rest ih =>
    rw [List.map_cons, List.sum_cons, Frame.evicted_of_free (h f List.mem_cons_self), Nat.zero_add]
    exact ih fun g hg => h g (List.mem_cons_of_mem _ hg)

/-- A thread that goes on beside the map leaves what prunes have evicted as it is. -/
theorem pending_aside {t t' : Thread} (hlock : m.Locked) (ht : m.threads[i]? = some t) (hf : t.Aside)
    (goes : Thread.Goes t t')
    (threads : m'.threads = m.threads.set i t' ∨ ∃ c k, m'.threads = m.threads.set i t' ++ [[.run c k]]) :
    m'.pending = m.pending := by
  have htail : ∀ f ∈ t.tail, f.holds = false := hlock.innermost t (List.mem_of_getElem? ht)
  have hfree' : ∀ f ∈ t', f.holds = false := fun f hf' =>
    (goes.mem_aside hf hf').elim Frame.holds_of_aside (htail f)
  have hfree : ∀ f ∈ t, f.holds = false := by
    cases t with
    | nil => simp
    | cons g rest =>
      rintro f (_ | ⟨_, hmem⟩)
      · have hg : g.handles = false := hf g rfl
        cases g <;> first | rfl | cases hg
      · exact htail f hmem
  have hset (m₁ : Machine) (hthr : m₁.threads = m.threads.set i t') : m₁.pending = m.pending := by
    have h : m₁.pending + (t.map Frame.evicted).sum = m.pending + (t'.map Frame.evicted).sum :=
      pending_set m₁ t t' (by rw [List.append_nil, ht]) (by rw [List.append_nil, hthr])
    rw [pending_eq_zero hfree, pending_eq_zero hfree'] at h
    exact h
  rcases threads with heq | ⟨c, k, heq⟩
  · exact hset m' heq
  · rw [← hset { m with threads := m.threads.set i t' } rfl]
    simp [pending, frames, heq, Frame.evicted]

theorem hasMap_of_free (h : m.canWrite = true) : m.HasMap i := fun _ t _ ht =>
  canWrite_iff.mp h t (List.mem_of_getElem? ht)

theorem Locked.hasMap (h : m.Locked) (ht : m.threads[i]? = some (f :: below)) (hf : f.writes = true) :
    m.HasMap i := fun _ _ hj ht' => h.others_free ht hf hj ht'

/-- A prune posts each entry that it looks at, with the status that it finds. -/
theorem posts_visit {k : Key} {todo : List Key} {n : Nat} {e : Entry}
    (ht : m.threads[i]? = some (.sweeping (k :: todo) n :: below)) (hnext : m.next? p (.step i) = some m')
    (alone : m.HasMap i) (found : k ∈ m.keys) (he : m.entry? k = some e) :
    Posts m (.step i) (m.posts p (.step i)) m' := by
  have hfinished : m.isFinished k = e.status.isTerminal := by simp [isFinished, he]
  cases step_of_next? ht hnext with
  | evicts finished =>
    rw [hfinished] at finished
    have hposts : m.posts p (.step i) = [.visited k e.status e.status.isTerminal] := by
      rw [posts_eq hnext rfl ht (getElem?_setThread ht _)]
      simp [Frame.posts, he, finished]
    rw [hposts]
    refine .visited ht alone found he (if_pos finished).symm ?_ ?_
    · rw [if_pos finished]; exact getElem?_setThread ht _
    · rw [if_pos finished]; exact pending_visit ht rfl
  | spares live =>
    have hlive : ¬e.status.isTerminal = true := by rw [← hfinished, live]; exact Bool.false_ne_true
    have hposts : m.posts p (.step i) = [.visited k e.status e.status.isTerminal] := by
      rw [posts_eq hnext rfl ht (getElem?_setThread ht _)]
      simp [Frame.posts, he, hlive]
    rw [hposts]
    refine .visited ht alone found he (if_neg hlive).symm ?_ ?_
    · rw [if_neg hlive]; exact getElem?_setThread ht _
    · rw [if_neg hlive]; exact pending_visit (d := 0) ht rfl

end Machine

open Machine in
/-- Every step that is possible posts what it does. -/
theorem Turn.posts (h : Turn p m l m') (hnext : m.next? p l = some m') (hlock : m.Locked) (hi : m.Indexed)
    (hdue : m.Due) : Posts m l (m.posts p l) m' := by
  -- a frame that handles the map goes on as others, which post nothing
  have quiet {i : Nat} {f : Frame} {below : Thread} (post : Thread) (ht : m.threads[i]? = some (f :: below))
      (hl : l = .step i) (hthr : m'.threads = m.threads.set i (post ++ below)) (htr : m'.tracked = m.tracked)
      (hposts : f.posts m (post ++ below) = []) (hsum : f.evicted = (post.map Frame.evicted).sum)
      (hf : ∀ todo n, f ≠ .sweeping todo n) : Posts m l (m.posts p l) m' := by
    have hi : i < m.threads.length := (List.getElem?_eq_some_iff.mp ht).1
    rw [posts_eq hnext (hl ▸ rfl) ht (by rw [hthr, List.getElem?_set_self hi]), hposts]
    have hpending := pending_set m' [f] post ht hthr
    rw [List.map_singleton, List.sum_singleton] at hpending
    refine .none htr (by omega) fun j todo n below' hj ht' => ?_
    subst hl
    cases hj
    cases ht.symm.trans ht'
    exact hf _ _ rfl
  have register {i : Nat} {f : Frame} {c : Context} {entry : Entry} {below : Thread}
      (ht : m.threads[i]? = some (f :: below)) (hl : l = .step i)
      (start : f = .enroll c entry ∨ ∃ todo running, f = .counting c entry todo running) (alone : m.HasMap i)
      (unknown : m.find? entry.id = none) (hm' : m' = m.register i c entry below) :
      Posts m l (m.posts p l) m' := by
    subst hl hm'
    have hi : i < m.threads.length := (List.getElem?_eq_some_iff.mp ht).1
    rw [posts_eq hnext rfl ht (List.getElem?_set_self hi)]
    have hpending := pending_set (m.register i c entry below) [f] [.notify _ .running, .announce c _] ht rfl
    obtain rfl | ⟨todo, running, rfl⟩ := start
    · exact .registered ht (Or.inl rfl) alone unknown rfl rfl hpending
    · exact .registered ht (Or.inr ⟨todo, running, rfl⟩) alone unknown rfl rfl hpending
  cases h with
  | @outside _ _ hl tracked _ threads =>
    have hnone : m.posts p l = [] := by simp only [Machine.posts, hl]
    rw [hnone]
    refine .none tracked ?_ fun j _ _ _ hj => ?_
    · rcases threads with heq | heq <;> simp [pending, frames, heq]
    · rw [hl] at hj; cases hj
  | @aside _ _ i t t' hl ht hf goes tracked _ threads =>
    have hnone : m.posts p l = [] := by
      cases t with
      | nil => simp only [Machine.posts, hl, hnext, ht]
      | cons g rest =>
        obtain ⟨u, hu⟩ : ∃ u, m'.threads[i]? = some u := by
          obtain ⟨-, u, -, hu, -⟩ := (turn_of_next? hnext).thread_goes hl
          exact ⟨u, hu⟩
        rw [posts_eq hnext hl ht hu, Frame.posts_of_not_handles (hf g rfl)]
    rw [hnone]
    refine .none tracked (pending_aside hlock ht hf goes threads) fun j todo n below hj ht' => ?_
    obtain rfl : i = j := Option.some.inj (hl.symm.trans hj)
    rw [ht] at ht'
    cases ht'
    cases hf _ rfl
  | enroll ht free unknown => exact register ht rfl (Or.inl rfl) (hasMap_of_free free) unknown rfl
  | accept ht =>
    have unknown := hi.unused _ _ _ _ (mem_frames ht List.mem_cons_self)
    exact register ht rfl (Or.inr ⟨_, _, rfl⟩) (hlock.hasMap ht rfl) unknown rfl
  | known ht | claim ht | count ht | refuse ht | scan ht | look ht | found ht | sweep ht =>
    exact quiet [_] ht rfl rfl rfl rfl rfl (by simp)
  | evict ht | spare ht =>
    have hfound := (hdue _ _ (mem_frames ht List.mem_cons_self)).2 List.mem_cons_self
    have he := List.getElem?_eq_getElem (hi.keys_lt _ hfound)
    exact posts_visit ht hnext (hlock.hasMap ht rfl) hfound he
  | @swept i n below ht =>
    rw [posts_eq hnext rfl ht (getElem?_setThread ht _)]
    exact .pruned ht (hlock.hasMap ht rfl) rfl (getElem?_setThread ht _)
      (pending_head (g := .answer (.count n)) ht rfl)

open Machine in
/-- A prune takes the map to look at every entry that can be found, and nothing comes in between. -/
theorem Turn.due (h : Turn p m l m') (fair : p.Fair) (hlock : m.Locked) (hi : m.Indexed) (hdue : m.Due) :
    m'.Due := by
  have keep (hkeys : m.keys ⊆ m'.keys) (hf : ∀ todo n, Frame.sweeping todo n ∈ m'.frames →
      Frame.sweeping todo n ∈ m.frames ∨ (todo.Nodup ∧ todo ⊆ m.keys)) : m'.Due := fun todo n hmem => by
    obtain ⟨hnodup, hsub⟩ := (hf todo n hmem).elim (hdue todo n) id
    exact ⟨hnodup, List.Subset.trans hsub hkeys⟩
  have go {i : Nat} {f : Frame} {below : Thread} (post : Thread) (ht : m.threads[i]? = some (f :: below))
      (hkeys : m.keys ⊆ m'.keys) (hthr : m'.threads = m.threads.set i (post ++ below))
      (hpost : ∀ todo n, Frame.sweeping todo n ∈ post → todo.Nodup ∧ todo ⊆ m.keys) : m'.Due :=
    keep hkeys fun todo n hmem => (mem_frames_go [_] post ht hthr hmem).elim (fun hf => Or.inr (hpost todo n hf)) Or.inl
  have hsame (htr : m'.tracked = m.tracked) : m.keys ⊆ m'.keys := by
    rw [keys, keys, htr]
    exact List.Subset.refl _
  have hlock' : m'.Locked := h.locked hlock
  cases h with
  | outside _ tracked _ threads =>
    refine keep (hsame tracked) fun todo n hmem => Or.inl ?_
    rcases threads with heq | heq
    · rwa [frames, heq] at hmem
    · simpa [frames, heq] using hmem
  | aside _ ht hf goes tracked _ threads =>
    refine keep (hsame tracked) fun todo n hmem => Or.inl ?_
    exact (mem_frames_aside ht hf goes threads hmem).resolve_left (by simp [Frame.aside])
  | enroll ht | accept ht => exact go [_, _] ht (List.map_subset _ (List.subset_append_left _ _)) rfl (by simp)
  | known ht | claim ht | count ht | refuse ht | scan ht | look ht | found ht | swept ht =>
    exact go [_] ht (hsame rfl) rfl (by simp)
  | sweep ht =>
    refine go [_] ht (hsame rfl) rfl fun todo n hmem => ?_
    cases List.mem_singleton.mp hmem
    exact ⟨(fair m.keys).nodup_iff.mpr hi.keys_nodup, (fair m.keys).subset⟩
  | spare ht =>
    refine go [_] ht (hsame rfl) rfl fun todo n hmem => ?_
    cases List.mem_singleton.mp hmem
    obtain ⟨hnodup, hsub⟩ := hdue _ _ (mem_frames ht List.mem_cons_self)
    exact ⟨(List.nodup_cons.mp hnodup).2, List.Subset.trans (List.subset_cons_self _ _) hsub⟩
  | @evict i k todo n below ht hk =>
    intro todo' n' hmem
    cases hlock'.eq_of_holds (getElem?_setThread ht _) rfl hmem rfl
    obtain ⟨hnodup, hsub⟩ := hdue _ _ (mem_frames ht List.mem_cons_self)
    obtain ⟨hnot, hnodup⟩ := List.nodup_cons.mp hnodup
    refine ⟨hnodup, fun k' hk' => ?_⟩
    obtain ⟨x, hx, rfl⟩ := List.mem_map.mp (hsub (List.mem_cons_of_mem _ hk'))
    have hne : x.2 ≠ k := by rintro rfl; exact hnot hk'
    exact List.mem_map_of_mem (List.mem_filter.mpr ⟨hx, by simpa using hne⟩)

end

theorem Run.due {m₀ m : Machine} {steps : List (Policy × Label)} {es : List Event} (h : Run m₀ steps es m)
    (h₀ : m₀.Initial) (fair : ∀ x ∈ steps, x.1.Fair) : m.Due := by
  induction h with
  | nil => exact fun todo n hf => by cases h₀.frames_isCall hf
  | @snoc steps es m m' p l run step ih =>
    exact (Machine.turn_of_next? step).due (fair (p, l) (by simp)) (run.locked h₀) (run.indexed h₀)
      (ih fun x hx => fair x (List.mem_append_left _ hx))

/-! ## The map by its ledger -/

/-- The map as the postings have it. -/
structure Machine.Balanced (m : Machine) (book : List Posting) : Prop where
  /-- What has been registered can be found or has been evicted. -/
  count : m.trackedCount + book.countP Posting.isEviction = book.countP Posting.isRegistration
  /-- Prunes come back with the numbers of what they have evicted. -/
  numbers : book.countP Posting.isEviction = (book.map Posting.number).sum + m.pending
  found : ∀ id k, m.find? id = some k ↔ Stands id k book

section

variable {m m' : Machine} {l : Label} {book xs : List Posting}

namespace Machine

theorem Indexed.find?_iff (h : m.Indexed) {id : String} {k : Key} : m.find? id = some k ↔ (id, k) ∈ m.tracked :=
  ⟨mem_of_find?, h.find?_of_mem⟩

theorem Indexed.length_evict (h : m.Indexed) {k : Key} (hk : k ∈ m.keys) :
    (m.tracked.filter (·.2 ≠ k)).length + 1 = m.tracked.length := by
  have hpos : 0 < m.keys.length := List.length_pos_of_mem hk
  have hlen : (m.keys.erase k).length = m.keys.length - 1 := List.length_erase_of_mem hk
  have herase : (m.keys.erase k).length = (m.tracked.filter (·.2 ≠ k)).length := by
    rw [h.keys_nodup.erase_eq_filter, keys, List.filter_map, List.length_map]
    congr 2
    funext x
    by_cases hx : x.2 = k <;> simp [hx]
  have hkeys : m.keys.length = m.tracked.length := List.length_map _
  omega

theorem Initial.balanced (h : m.Initial) : m.Balanced [] where
  count := by simp [trackedCount, h.tracked]
  numbers := by
    have hfree : ∀ f ∈ m.frames, f.holds = false := fun f hf =>
      Frame.holds_of_aside (Frame.aside_of_isCall (h.frames_isCall hf))
    simp [pending, pending_eq_zero hfree]
  found id k := by simp [find?, h.tracked, Stands]

theorem Balanced.of_posts (h : m.Balanced book) (hp : Posts m l xs m') (hi : m.Indexed) (hi' : m'.Indexed) :
    m'.Balanced (book ++ xs) := by
  obtain ⟨count, numbers, found⟩ := h
  cases hp with
  | none tracked pending => 
    rw [List.append_nil]
    exact ⟨by rwa [trackedCount, tracked], by rwa [pending], by simpa only [find?, tracked] using found⟩
  | @registered i f c entry below m' _ _ _ unknown _ tracked pending =>
    refine ⟨?_, ?_, fun id k => ?_⟩
    · simp only [trackedCount, tracked, List.countP_append, List.length_append] at count ⊢
      simp [Posting.isEviction, Posting.isRegistration]
      omega
    · simp [Posting.isEviction, Posting.number, pending, numbers]
    · rw [hi'.find?_iff, tracked, stands_concat, ← found, hi.find?_iff, List.mem_append]
      simp [or_comm, eq_comm]
  | @visited i k todo n below e m' _ _ hk _ tracked _ pending =>
    cases hterm : e.status.isTerminal with
    | false =>
      rw [hterm] at tracked pending
      refine ⟨?_, ?_, fun id k' => ?_⟩
      · simpa [trackedCount, tracked, Posting.isEviction, Posting.isRegistration] using count
      · simpa [pending, Posting.isEviction, Posting.number] using numbers
      · rw [stands_concat, ← found, find?, find?, tracked]
        simp
    | true =>
      rw [hterm, if_pos rfl] at tracked pending
      refine ⟨?_, ?_, fun id k' => ?_⟩
      · have hlen := hi.length_evict hk
        simp [trackedCount, tracked, Posting.isEviction, Posting.isRegistration] at count hlen ⊢
        omega
      · simp [pending, Posting.isEviction, Posting.number, numbers]
        omega
      · have hne : (∀ s, Posting.visited k e.status true ≠ .visited k' s true) ↔ k' ≠ k := by
          refine ⟨fun h heq => h e.status (by rw [heq]), fun h s heq => ?_⟩
          cases heq
          exact h rfl
        rw [hi'.find?_iff, tracked, stands_concat, hne, ← found, hi.find?_iff, List.mem_filter]
        simp
  | @pruned i n below m' _ _ tracked _ pending =>
    refine ⟨?_, ?_, fun id k => ?_⟩
    · simpa [trackedCount, tracked, Posting.isEviction, Posting.isRegistration] using count
    · simp [Posting.isEviction, Posting.number, numbers]
      omega
    · rw [stands_concat, ← found, find?, find?, tracked]
      simp

end Machine

end

theorem Run.balanced {m₀ m : Machine} {steps : List (Policy × Label)} {es : List Event} (h : Run m₀ steps es m)
    (h₀ : m₀.Initial) (fair : ∀ x ∈ steps, x.1.Fair) : m.Balanced (m₀.ledger steps) := by
  induction h with
  | nil => exact h₀.balanced
  | @snoc steps es m m' p l run step ih =>
    have hfair : ∀ x ∈ steps, x.1.Fair := fun x hx => fair x (List.mem_append_left _ hx)
    have hposts := (Machine.turn_of_next? step).posts step (run.locked h₀) (run.indexed h₀) (run.due h₀ hfair)
    rw [run.ledger_snoc step]
    exact (ih hfair).of_posts hposts (run.indexed h₀) ((Run.snoc run step).indexed h₀)

/-! ## A prune -/

/-- The entries that were terminal when a prune looked at them. -/
def ended (visits : List (Key × Status)) : List Key := (visits.filter (·.2.isTerminal)).map (·.1)

/-- What a prune posts for its visits: it evicts what is terminal, and nothing else. -/
def visitsPosted (visits : List (Key × Status)) : List Posting :=
  visits.map fun v => .visited v.1 v.2 v.2.isTerminal

/-- What a prune of the map of `m` has done when it comes back with `a`, its visits one after the other, each
with the status that the entry had then. -/
structure Swept (m m' : Machine) (visits : List (Key × Status)) (book : List Posting) (a : Answer) : Prop where
  /-- It has looked at everything that could be found, once. -/
  all : (visits.map (·.1)).Perm m.keys
  book : book = visitsPosted visits ++ [.pruned (ended visits).length]
  /-- What was terminal when it was looked at cannot be found any more; nothing else has changed. -/
  tracked : m'.tracked = m.tracked.filter (·.2 ∉ ended visits)
  answer : a = .count (ended visits).length

theorem ended_concat (visits : List (Key × Status)) (k : Key) (s : Status) :
    ended (visits ++ [(k, s)]) = if s.isTerminal then ended visits ++ [k] else ended visits := by
  cases hs : s.isTerminal <;> simp [ended, hs]

/-- Where a prune of thread `i` is that has taken the map of `m₁` to look at `ks`. -/
structure Sweeps (i : Nat) (below : Thread) (ks : List Key) (m₁ m : Machine) (book : List Posting)
    (visits : List (Key × Status)) (todo : List Key) : Prop where
  order : visits.map (·.1) ++ todo = ks
  tracked : m.tracked = m₁.tracked.filter (·.2 ∉ ended visits)
  stands : (m.threads[i]? = some (.sweeping todo (ended visits).length :: below) ∧ book = visitsPosted visits) ∨
    (todo = [] ∧ m.threads[i]? = some (.answer (.count (ended visits).length) :: below) ∧
      book = visitsPosted visits ++ [.pruned (ended visits).length])

section

variable {p : Policy} {m₁ m m' : Machine} {l : Label} {i : Nat} {below : Thread} {ks todo : List Key}
  {visits : List (Key × Status)} {book xs : List Posting}

/-- A step while a prune has the map: a visit, its return, or none of its business. -/
theorem Sweeps.step (h : Sweeps i below ks m₁ m book visits todo) (hbusy : m.returned? i below.length = none)
    (hstep : Posts m l xs m') (hsame : l.thread? ≠ some i → ∀ t, m.threads[i]? = some t → m'.threads[i]? = some t) :
    ∃ visits todo, Sweeps i below ks m₁ m' (book ++ xs) visits todo := by
  obtain ⟨order, tracked, ⟨ht, hbook⟩ | ⟨-, ht, -⟩⟩ := h
  swap
  · rw [Machine.returned?_of_answer ht] at hbusy
    cases hbusy
  -- no other thread does anything with the map meanwhile
  have mine {j : Nat} (alone : m.HasMap j) : j = i := by
    by_cases hj : i = j
    · exact hj.symm
    · have hfree := alone i _ hj ht _ List.mem_cons_self
      cases hfree
  cases hstep with
  | none htr _ idle =>
    have hl : l.thread? ≠ some i := fun hl => idle i _ _ _ hl ht
    exact ⟨visits, todo, order, htr ▸ tracked, Or.inl ⟨hsame hl _ ht, by rw [List.append_nil, hbook]⟩⟩
  | registered ht' start alone =>
    obtain rfl := mine alone
    cases ht.symm.trans ht'
    simp at start
  | @visited j k todo' n below' e m' ht' alone _ _ htr thread =>
    obtain rfl := mine alone
    cases ht.symm.trans ht'
    refine ⟨visits ++ [(k, e.status)], todo', by simpa using order, ?_, Or.inl ⟨?_, ?_⟩⟩
    · rw [htr, ended_concat]
      split
      · rw [tracked, List.filter_filter]
        simp [and_comm]
      · exact tracked
    · rw [thread, ended_concat]
      split <;> simp
    · simp [visitsPosted, hbook]
  | pruned ht' alone htr thread =>
    obtain rfl := mine alone
    cases ht.symm.trans ht'
    exact ⟨visits, [], order, htr ▸ tracked, Or.inr ⟨rfl, thread, by rw [hbook]⟩⟩

theorem Machine.Over.sweeps {m₀ : Machine} {steps steps' : List (Policy × Label)} {es es' : List Event}
    (h₀ : m₀.Initial) (h : Run m₀ steps es m₁) (hover : m₁.Over i below steps' es' m)
    (fair : ∀ x ∈ steps ++ steps', x.1.Fair) (ht : m₁.threads[i]? = some (.sweeping ks 0 :: below)) :
    ∃ visits todo, Sweeps i below ks m₁ m (m₁.ledger steps') visits todo := by
  induction hover with
  | nil =>
    refine ⟨[], ks, rfl, ?_, Or.inl ⟨ht, rfl⟩⟩
    simp [ended]
  | @snoc steps' es' m m' p l run busy step ih =>
    have hfair : ∀ x ∈ steps ++ steps', x.1.Fair := fun x hx => fair x (by simp at hx ⊢; tauto)
    obtain ⟨visits, todo, hsweeps⟩ := ih hfair
    have hrun := h.trans run.run
    have hturn := Machine.turn_of_next? step
    have hposts := hturn.posts step (hrun.locked h₀) (hrun.indexed h₀) (hrun.due h₀ hfair)
    rw [run.run.ledger_snoc step]
    exact hsweeps.step busy hposts fun hl t ht => hturn.thread_same hl ht

namespace Machine

theorem returns_sweeping {n : Nat} (ht : m.threads[i]? = some (.sweeping todo n :: below)) : m.Returns p i below := by
  induction todo generalizing m n with
  | nil => exact returns_step ht .swept (.here (getElem?_setThread ht _))
  | cons k todo ih =>
    cases hk : m.isFinished k with
    | true => exact returns_step ht (.evicts hk) (ih (getElem?_setThread ht _))
    | false => exact returns_step ht (.spares hk) (ih (getElem?_setThread ht _))

/-- A prune that finds the map free comes back by itself. -/
theorem returns_prune (free : m.canWrite = true) (ht : m.threads[i]? = some (.prune :: below)) :
    m.Returns p i below :=
  returns_step ht (.sweeps free) (returns_sweeping (getElem?_setThread ht _))

theorem sweep_of_next? (ht : m.threads[i]? = some (.prune :: below)) (hnext : m.next? p (.step i) = some m') :
    m' = m.setThread i (.sweeping (p.visit m.keys) 0 :: below) := by
  cases step_of_next? ht hnext
  rfl

end Machine

end

/-! ## Looking up -/

/-- The id that a call looks up, and how it goes on with the entry. -/
def Frame.looks? : Frame → Option (String × (Key → Frame))
  | .cancel id => some (id, .latch)
  | .status id => some (id, .snapshot)
  | .wait id => some (id, .check id)
  | _ => none

section

variable {p : Policy} {m m' : Machine} {i : Nat} {f : Frame} {id : String} {g : Key → Frame} {below : Thread}

namespace Machine

theorem looked_up (hf : f.looks? = some (id, g)) (ht : m.threads[i]? = some (f :: below))
    (hnext : m.next? p (.step i) = some m') :
    (∀ k, m.find? id = some k → m' = m.setThread i (g k :: below)) ∧
      (m.find? id = none → m' = m.setThread i (.answer (.refused (.notFound id)) :: below)) := by
  cases step_of_next? ht hnext with
  | cancelsNone _ unknown | asksNone _ unknown | waitsNone _ unknown =>
    cases hf
    exact ⟨fun k hk => (nomatch unknown.symm.trans hk), fun _ => rfl⟩
  | cancels _ find | asks _ find | waits _ find =>
    cases hf
    refine ⟨fun k hk => ?_, fun hnone => (nomatch hnone.symm.trans find)⟩
    cases find.symm.trans hk
    rfl
  | _ => cases hf

theorem pending_of_canRead (h : m.canRead = true) : m.pending = 0 := by
  rw [pending]
  have hall : ∀ f ∈ m.frames, f.evicted = 0 := fun f hf => by
    obtain ⟨t, ht, hf⟩ := List.mem_flatten.mp hf
    have hw := canRead_iff.mp h t ht f hf
    cases f <;> first | rfl | cases hw
  rw [List.map_congr_left hall]
  simp

end Machine

end

/-! ## The whole of it -/

/-- What the map, and the calls that use it, make of the postings so far. -/
structure Machine.Accounts (m : Machine) (book : List Posting) : Prop extends m.Balanced book where
  /-- Whoever can read the map counts what has been registered, less the numbers that prunes came back with. -/
  readable : m.canRead = true →
    m.trackedCount + (book.map Posting.number).sum = book.countP Posting.isRegistration
  /-- A call for an id goes on with the entry that has been registered under it and not evicted since, if there is
  one, and is refused if there is none. -/
  lookups : ∀ p i f id g below m', Frame.looks? f = some (id, g) → m.threads[i]? = some (f :: below) →
    m.next? p (.step i) = some m' →
      (∀ k, Stands id k book → m' = m.setThread i (g k :: below)) ∧
      ((∀ k, ¬Stands id k book) → m' = m.setThread i (.answer (.refused (.notFound id)) :: below))
  /-- Only starts add to the map, and only prunes take from it. -/
  steps : ∀ p l m', m.next? p l = some m' → Posts m l (m.posts p l) m'
  /-- A prune can come back, whoever has the map, and does so with what it has evicted. -/
  prunes : ∀ p i below, p.Fair → m.threads[i]? = some (.prune :: below) → m.Returns p i below ∧
    ∀ m₁ steps es m' a, m.next? p (.step i) = some m₁ → (∀ x ∈ steps, x.1.Fair) → m₁.Over i below steps es m' →
      m'.threads[i]? = some (.answer a :: below) → ∃ visits, Swept m m' visits (m₁.ledger steps) a

open Machine in
/-- Over every interleaving of calls and runs the map is what its ledger says: as many entries can be found as
have been registered by starts and not evicted by prunes, an id stands for the entry that was registered under it
and not evicted since, a prune evicts exactly what is terminal when it looks at it, and nothing else takes an entry
away or puts another in its place. -/
theorem nothing_lost {m₀ m : Machine} {steps : List (Policy × Label)} {es : List Event} (h₀ : m₀.Initial)
    (h : Run m₀ steps es m) (fair : ∀ x ∈ steps, x.1.Fair) : m.Accounts (m₀.ledger steps) := by
  have hlock := h.locked h₀
  have hindexed := h.indexed h₀
  have hbalanced := h.balanced h₀ fair
  refine { hbalanced with
    readable := fun hread => ?readable
    lookups := fun p i f id g below m' hf ht hnext => ?lookups
    steps := fun p l m' hnext => (turn_of_next? hnext).posts hnext hlock hindexed (h.due h₀ fair)
    prunes := fun p i below hfair ht => ⟨?returns, ?swept⟩ }
  case readable =>
    have hnumbers := hbalanced.numbers
    rw [pending_of_canRead hread, Nat.add_zero] at hnumbers
    rw [← hnumbers]
    exact hbalanced.count
  case lookups =>
    obtain ⟨hsome, hnone⟩ := looked_up hf ht hnext
    refine ⟨fun k hk => hsome k ((hbalanced.found id k).mpr hk), fun hall => hnone ?_⟩
    exact Option.eq_none_iff_forall_ne_some.mpr fun k hk => hall k ((hbalanced.found id k).mp hk)
  case returns => exact returns_waiting hlock ht rfl fun _ => returns_prune
  case swept =>
    intro m₁ steps' es' m' a hnext hfair' hover hreturned
    obtain rfl := sweep_of_next? ht hnext
    have hfairs : ∀ x ∈ (steps ++ [(p, .step i)]) ++ steps', x.1.Fair := by
      simp only [List.mem_append, List.mem_singleton]
      rintro x ((hx | rfl) | hx)
      · exact fair x hx
      · exact hfair
      · exact hfair' x hx
    obtain ⟨visits, todo, order, tracked, ⟨ht', -⟩ | ⟨rfl, ht', hbook⟩⟩ :=
      Over.sweeps h₀ (h.snoc hnext) hover hfairs (getElem?_setThread ht _)
    · cases hreturned.symm.trans ht'
    · cases hreturned.symm.trans ht'
      rw [List.append_nil] at order
      exact ⟨visits, order ▸ hfair m.keys, hbook, tracked, rfl⟩

/-- Two runs are started, one of them is cancelled, and a prune is called for. -/
def pruneCalled : List Label :=
  [.call 0 (.plainStart "a"), .step 0, .step 0, .step 0, .step 0, .step 0, .take 0,
    .call 0 (.plainStart "b"), .step 0, .step 0, .step 0, .step 0, .step 0, .take 0,
    .call 0 (.cancel "a"), .step 0, .step 0, .step 0, .take 0, .call 0 .prune]

/-- The supervisor then. -/
def pruneWaits : Machine :=
  let scope (k : Nat) : Scope := ⟨⟨k, [0]⟩, some (plainContext "a").limits.timeout.nanos⟩
  let cancelled := ((Entry.new "a" (scope 0) 0).announce.1.cancel 0 (Timestamp.ofUnixNanos 0)).1
  { now := 0, signals := { fresh := 2, raised := [0] },
    entries := [cancelled, (Entry.new "b" (scope 1) 0).announce.1],
    tracked := [("a", 0), ("b", 1)],
    threads := [[.prune], [], [.run (plainContext "a") 0], [.run (plainContext "b") 1]] }

theorem nothing_lost_pruneCalled : ∃ es m m' steps es' visits,
    Run twoCallers (pruneCalled.map fun l => ({}, l)) es pruneWaits ∧
    pruneWaits.Accounts [.registered "a" 0, .registered "b" 1] ∧ pruneWaits.trackedCount = 2 ∧
    pruneWaits.next? {} (.step 0) = some m ∧ m.Over 0 [] steps es' m' ∧
    Swept pruneWaits m' visits [.visited 0 .cancelled true, .visited 1 .running false, .pruned 1] (.count 1) ∧
    m'.tracked = [("b", 1)] := by
  have h : Run twoCallers (pruneCalled.map fun l => ({}, l)) _ pruneWaits := Run.of_run? {} pruneCalled rfl
  have hplain : Policy.Fair {} := fun ks => .refl ks
  have fair : ∀ x ∈ pruneCalled.map fun l => (({} : Policy), l), x.1.Fair := by
    intro x hx
    obtain ⟨l, -, rfl⟩ := List.mem_map.mp hx
    exact hplain
  have haccounts := nothing_lost twoCallers_initial h fair
  have begins : (pruneWaits.setThread 0 [.sweeping [0, 1] 0]).Over 0 [] [] [] _ := .nil
  have evicts := begins.snoc (p := {}) (l := .step 0) rfl rfl
  have spares := evicts.snoc (p := {}) (l := .step 0) rfl rfl
  have returns := spares.snoc (p := {}) (l := .step 0) rfl rfl
  obtain ⟨visits, hswept⟩ := (haccounts.prunes {} 0 [] hplain rfl).2 _ _ _ _ (.count 1) rfl
    (by simp [hplain]) returns rfl
  exact ⟨_, _, _, _, _, visits, h, haccounts, rfl, rfl, returns, hswept, rfl⟩

end Overseer.Supervisor

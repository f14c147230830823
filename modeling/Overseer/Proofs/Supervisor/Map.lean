import Mathlib.Algebra.GroupWithZero.Nat
import Overseer.Proofs.Supervisor.Turns

/-!
# The map of entries

Who holds the map from ids to entries, and what can be found in it. A start that counts and a prune that
sweeps have it to themselves, so an id that a start has found unused stays so until it registers its
entry; and a prune evicts only what is finished, so whatever still runs can be found.

* `Machine.Locked`: only innermost frames hold the map, and a writer holds it alone.
* `Machine.Indexed`: ids are found once each, and every entry that is not finished can be found.
* `Run.locked`, `Run.indexed`: both hold in every machine that a run leads to.
-/
namespace Overseer.Supervisor

/-- A scan visits every entry that can be found once, in some order. -/
def Policy.Fair (p : Policy) : Prop := ∀ ks, (p.visit ks).Perm ks

section

variable {p : Policy} {m m' : Machine} {i : Nat} {f : Frame} {below : Thread}

/-! ## Holding the map -/

/-- How much a frame that has the map has still to look at. -/
def Frame.visits : Frame → Nat
  | .counting _ _ todo _ | .scanning todo _ | .sweeping todo _ => todo.length + 1
  | _ => 0

/-- Only the innermost frame of a thread holds the map, and a writer holds it alone. -/
structure Machine.Locked (m : Machine) : Prop where
  innermost : ∀ t ∈ m.threads, ∀ f ∈ t.tail, f.holds = false
  alone : ∀ {i j : Nat} {f g : Frame} {rest rest' : Thread}, m.threads[i]? = some (f :: rest) →
    m.threads[j]? = some (g :: rest') → f.writes = true → g.holds = true → i = j

namespace Machine

theorem Initial.locked (h : m.Initial) : m.Locked where
  innermost t ht f hf := by
    rcases h.threads t ht with rfl | ⟨g, -, rfl⟩ <;> cases hf
  alone {i j f g rest rest'} hf _ hw _ := by
    rcases h.threads _ (List.mem_of_getElem? hf) with heq | ⟨g, hg, heq⟩
    · cases heq
    · cases heq
      have hfree := Frame.holds_of_aside (Frame.aside_of_isCall hg)
      rw [Frame.holds, hw] at hfree
      cases hfree

/-- The stack of a thread becomes another. -/
theorem Locked.set (h : m.Locked) {t : Thread} (hthr : m'.threads = m.threads.set i t)
    (htail : ∀ f ∈ t.tail, f.holds = false)
    (hw : ∀ f ∈ t.head?, f.writes = true → ∀ j g rest, j ≠ i → m.threads[j]? = some (g :: rest) →
      g.holds = false)
    (hr : ∀ f ∈ t.head?, f.holds = true → ∀ j g rest, j ≠ i → m.threads[j]? = some (g :: rest) →
      g.writes = false) : m'.Locked where
  innermost u hu f hf := by
    rw [hthr] at hu
    rcases List.mem_or_eq_of_mem_set hu with hu | rfl
    · exact h.innermost u hu f hf
    · exact htail f hf
  alone {a b f g rest rest'} ha hb hf hg := by
    have at_i {f : Frame} {rest : Thread} (h' : (m.threads.set i t)[i]? = some (f :: rest)) : f ∈ t.head? := by
      rw [List.getElem?_set] at h'
      split at h' <;> simp_all
    rw [hthr] at ha hb
    by_cases hai : a = i <;> by_cases hbi : b = i
    · rw [hai, hbi]
    · subst hai
      rw [List.getElem?_set_ne (Ne.symm hbi)] at hb
      rw [hw f (at_i ha) hf b g rest' hbi hb] at hg; cases hg
    · subst hbi
      rw [List.getElem?_set_ne (Ne.symm hai)] at ha
      rw [hr g (at_i hb) hg a f rest hai ha] at hf; cases hf
    · rw [List.getElem?_set_ne (Ne.symm hai)] at ha
      rw [List.getElem?_set_ne (Ne.symm hbi)] at hb
      exact h.alone ha hb hf hg

/-- The stack of a thread becomes one that does not hold the map. -/
theorem Locked.set_free (h : m.Locked) {t : Thread} (hthr : m'.threads = m.threads.set i t)
    (hfree : ∀ f ∈ t, f.holds = false) : m'.Locked := by
  refine h.set hthr (fun f hf => hfree f (List.mem_of_mem_tail hf)) (fun f hf hw => ?_) (fun f hf hr => ?_)
  · have := hfree f (List.mem_of_mem_head? hf)
    rw [Frame.holds, hw] at this; cases this
  · rw [hfree f (List.mem_of_mem_head? hf)] at hr; cases hr

theorem Locked.append (h : m.Locked) {t : Thread} (hthr : m'.threads = m.threads ++ [t])
    (hfree : ∀ f ∈ t, f.holds = false) : m'.Locked where
  innermost u hu f hf := by
    rw [hthr] at hu
    rcases List.mem_append.mp hu with hu | hu
    · exact h.innermost u hu f hf
    · rw [List.mem_singleton.mp hu] at hf; exact hfree f (List.mem_of_mem_tail hf)
  alone {a b f g rest rest'} ha hb hf hg := by
    have old {a : Nat} {f : Frame} {rest : Thread} (h' : (m.threads ++ [t])[a]? = some (f :: rest))
        (hf : f.holds = true) : m.threads[a]? = some (f :: rest) := by
      rcases Nat.lt_or_ge a m.threads.length with hlt | hge
      · rwa [List.getElem?_append_left hlt] at h'
      · rw [List.getElem?_append_right hge] at h'
        have hmem := List.mem_of_getElem? h'
        rw [← List.mem_singleton.mp hmem] at hfree
        rw [hfree f List.mem_cons_self] at hf; cases hf
    rw [hthr] at ha hb
    exact h.alone (old ha (by rw [Frame.holds, hf]; rfl)) (old hb hg) hf hg

theorem Locked.below_free (h : m.Locked) (ht : m.threads[i]? = some (f :: below)) :
    ∀ g ∈ below, g.holds = false :=
  h.innermost _ (List.mem_of_getElem? ht)

/-- While a writer holds the map no frame of another thread does. -/
theorem Locked.others_free (h : m.Locked) (ht : m.threads[i]? = some (f :: below)) (hf : f.writes = true)
    {j : Nat} {t : Thread} (hj : j ≠ i) (ht' : m.threads[j]? = some t) : ∀ g ∈ t, g.holds = false := by
  intro g hg
  cases t with
  | nil => cases hg
  | cons g' rest =>
    rcases List.mem_cons.mp hg with rfl | hg
    · exact Bool.eq_false_iff.mpr fun hh => hj (h.alone ht ht' hf hh).symm
    · exact h.below_free ht' g hg

/-- A writer is the only frame that holds the map. -/
theorem Locked.eq_of_holds (h : m.Locked) (ht : m.threads[i]? = some (f :: below)) (hf : f.writes = true)
    {g : Frame} (hg : g ∈ m.frames) (hh : g.holds = true) : g = f := by
  obtain ⟨t, ht', hg⟩ := List.mem_flatten.mp hg
  obtain ⟨j, hj⟩ := List.getElem?_of_mem ht'
  by_cases hji : j = i
  · subst hji
    rw [ht] at hj
    cases hj
    rcases List.mem_cons.mp hg with rfl | hg
    · rfl
    · rw [h.below_free ht g hg] at hh; cases hh
  · rw [h.others_free ht hf hji hj g hg] at hh; cases hh

/-- The innermost frame becomes another that holds the map no more than it did. -/
theorem Locked.replace (h : m.Locked) (g : Frame) (ht : m.threads[i]? = some (f :: below))
    (hthr : m'.threads = m.threads.set i (g :: below)) (hw : g.writes = true → f.writes = true)
    (hr : g.holds = true → f.holds = true) : m'.Locked := by
  refine h.set hthr (h.below_free ht) (fun f' hf' hw' j g' rest hj ht' => ?_)
    (fun f' hf' hr' j g' rest hj ht' => ?_)
  · obtain rfl : g = f' := by simpa using hf'
    exact h.others_free ht (hw hw') hj ht' g' List.mem_cons_self
  · obtain rfl : g = f' := by simpa using hf'
    exact Bool.eq_false_iff.mpr fun hw' => hj (h.alone ht' ht hw' (hr hr'))

theorem canWrite_iff : m.canWrite = true ↔ ∀ t ∈ m.threads, ∀ f ∈ t, f.holds = false := by
  simp [canWrite, Frame.holds]

theorem canRead_iff : m.canRead = true ↔ ∀ t ∈ m.threads, ∀ f ∈ t, f.writes = false := by
  simp [canRead]

/-- Who holds the map, and how, is seen from the innermost frames. -/
theorem Locked.exists_head (h : m.Locked) {q : Frame → Bool} (hq : ∀ f, q f = true → f.holds = true)
    (hex : ¬∀ t ∈ m.threads, ∀ f ∈ t, q f = false) :
    ∃ (j : Nat) (f : Frame) (rest : Thread), m.threads[j]? = some (f :: rest) ∧ q f = true := by
  simp only [Classical.not_forall] at hex
  obtain ⟨t, ht, f, hf, hqf⟩ := hex
  have hqf : q f = true := by simpa using hqf
  obtain ⟨j, hj⟩ := List.getElem?_of_mem ht
  cases t with
  | nil => cases hf
  | cons g rest =>
    rcases List.mem_cons.mp hf with rfl | hf
    · exact ⟨j, f, rest, hj, hqf⟩
    · have hfree := h.below_free hj f hf
      rw [hq f hqf] at hfree
      cases hfree

/-- A frame that has the map can go on, and has less to look at then. -/
theorem holder_goes (p : Policy) (ht : m.threads[i]? = some (f :: below)) (hf : f.holds = true) :
    ∃ m' post, m.next? p (.step i) = some m' ∧ m'.threads = m.threads.set i (post ++ below) ∧
      (post.map Frame.visits).sum < f.visits := by
  have goes {m' : Machine} (post : Thread) (step : Step p m i f below m')
      (hthr : m'.threads = m.threads.set i (post ++ below)) (less : (post.map Frame.visits).sum < f.visits) :
      ∃ m' post, m.next? p (.step i) = some m' ∧ m'.threads = m.threads.set i (post ++ below) ∧
        (post.map Frame.visits).sum < f.visits := ⟨m', post, next?_of_step ht step, hthr, less⟩
  cases f with
  | counting c e todo running =>
    cases todo with
    | cons k todo => exact goes [_] .counts rfl (by simp [Frame.visits])
    | nil =>
      rcases Nat.lt_or_ge running p.maxRunning with room | full
      · exact goes [_, _] (.admits room) rfl (by simp [Frame.visits])
      · exact goes [_] (.full full) rfl (by simp [Frame.visits])
  | scanning todo found =>
    cases todo with
    | cons k todo => exact goes [_] .looks rfl (by simp [Frame.visits])
    | nil => exact goes [_] .lists rfl (by simp [Frame.visits])
  | sweeping todo evicted =>
    cases todo with
    | cons k todo =>
      cases hk : m.isFinished k with
      | true => exact goes [_] (.evicts hk) rfl (by simp [Frame.visits])
      | false => exact goes [_] (.spares hk) rfl (by simp [Frame.visits])
    | nil => exact goes [_] .swept rfl (by simp [Frame.visits])
  | _ => cases hf

end Machine

open Machine in
theorem Turn.locked {l : Label} (h : Turn p m l m') (hm : m.Locked) : m'.Locked := by
  have released {i : Nat} {f : Frame} {below : Thread} (post : Thread)
      (ht : m.threads[i]? = some (f :: below)) (hpost : ∀ g ∈ post, g.holds = false)
      (hthr : m'.threads = m.threads.set i (post ++ below)) : m'.Locked :=
    hm.set_free hthr fun g hg => (List.mem_append.mp hg).elim (hpost g) (hm.below_free ht g)
  have claimed {i : Nat} {f : Frame} {below : Thread} (g : Frame) (ht : m.threads[i]? = some (f :: below))
      (free : m.canWrite = true) (hthr : m'.threads = m.threads.set i (g :: below)) : m'.Locked := by
    have hfree := canWrite_iff.mp free
    refine hm.set hthr (hm.below_free ht) (fun _ _ _ j g' rest _ ht' => ?_) (fun _ _ _ j g' rest _ ht' => ?_)
    · exact hfree _ (List.mem_of_getElem? ht') g' List.mem_cons_self
    · have := hfree _ (List.mem_of_getElem? ht') g' List.mem_cons_self
      exact (Bool.or_eq_false_iff.mp this).1
  cases h with
  | outside _ _ _ threads =>
    rcases threads with heq | heq
    · exact ⟨by rw [heq]; exact hm.innermost, by rw [heq]; exact hm.alone⟩
    · exact hm.append heq (by simp)
  | @aside _ _ i t t' _ ht hf goes _ _ threads =>
    have hfree : ∀ f ∈ t', f.holds = false := fun f hf' =>
      (goes.mem_aside hf hf').elim Frame.holds_of_aside (hm.innermost t (List.mem_of_getElem? ht) f)
    rcases threads with heq | ⟨c, k, heq⟩
    · exact hm.set_free heq hfree
    · have hset : Locked { m with threads := m.threads.set i t' } := hm.set_free rfl hfree
      exact hset.append heq (by simp [Frame.holds, Frame.writes, Frame.reads])
  | enroll ht => exact released [_, _] ht (by simp [Frame.holds, Frame.writes, Frame.reads]) rfl
  | accept ht => exact released [_, _] ht (by simp [Frame.holds, Frame.writes, Frame.reads]) rfl
  | known ht => exact released [_] ht (by simp [Frame.holds, Frame.writes, Frame.reads]) rfl
  | refuse ht => exact released [_] ht (by simp [Frame.holds, Frame.writes, Frame.reads]) rfl
  | found ht => exact released [_] ht (by simp [Frame.holds, Frame.writes, Frame.reads]) rfl
  | swept ht => exact released [_] ht (by simp [Frame.holds, Frame.writes, Frame.reads]) rfl
  | claim ht free => exact claimed _ ht free rfl
  | sweep ht free => exact claimed _ ht free rfl
  | @scan i below ht free =>
    refine hm.set rfl (hm.below_free ht) (fun f hf hw => ?_) (fun _ _ _ j g rest _ ht' => ?_)
    · obtain rfl : Frame.scanning (p.visit m.keys) [] = f := by simpa using hf
      cases hw
    · exact canRead_iff.mp free _ (List.mem_of_getElem? ht') g List.mem_cons_self
  | count ht => exact hm.replace _ ht rfl (fun _ => rfl) (fun _ => rfl)
  | look ht => exact hm.replace _ ht rfl (fun h => h) (fun _ => rfl)
  | evict ht => exact hm.replace _ ht rfl (fun _ => rfl) (fun _ => rfl)
  | spare ht => exact hm.replace _ ht rfl (fun _ => rfl) (fun _ => rfl)

/-- What can be found stays so while a thread has the map, whatever the others do. -/
theorem Turn.tracked_same {l : Label} (h : Turn p m l m') (hlock : m.Locked)
    (ht : m.threads[i]? = some (f :: below)) (hf : f.holds = true) (hl : l.thread? ≠ some i) :
    m'.tracked = m.tracked := by
  -- another thread that would add to the map, or take from it, would have to have it to itself
  have other {j : Nat} {g : Frame} {rest : Thread} (hj : some j ≠ some i)
      (ht' : m.threads[j]? = some (g :: rest)) (hg : g.writes = true) : False :=
    hj (congrArg some (hlock.alone ht' ht hg hf))
  cases h with
  | outside _ tracked => exact tracked
  | aside _ _ _ _ tracked => exact tracked
  | enroll _ free =>
    have hfree := Machine.canWrite_iff.mp free _ (List.mem_of_getElem? ht) _ List.mem_cons_self
    rw [hf] at hfree
    cases hfree
  | accept ht' => exact (other hl ht' rfl).elim
  | evict ht' => exact (other hl ht' rfl).elim
  | known | claim | count | refuse | scan | look | found | sweep | spare | swept => rfl

end

theorem Run.locked {m₀ m : Machine} {steps : List (Policy × Label)} {es : List Event}
    (h : Run m₀ steps es m) (h₀ : m₀.Initial) : m.Locked := by
  induction h with
  | nil => exact h₀.locked
  | snoc _ step ih => exact (Machine.turn_of_next? step).locked ih

/-! ## Entries over a step -/

section

variable {p : Policy} {m m' : Machine} {l : Label} {k : Key}

namespace Machine

theorem isRunning_iff : m.isRunning k = true ↔ ∃ e, m.entry? k = some e ∧ e.status = .running := by
  unfold isRunning
  cases m.entry? k <;> simp

theorem isRunning_lt (h : m.isRunning k = true) : k < m.entries.length := by
  obtain ⟨e, he, -⟩ := isRunning_iff.mp h
  exact entry?_lt he

/-- An entry that is registered runs or is finished. -/
theorem Sound.isFinished_eq (h : m.Sound) (hk : k < m.entries.length) :
    m.isFinished k = !m.isRunning k := by
  have he : m.entry? k = some m.entries[k] := List.getElem?_eq_getElem hk
  rcases (h.entries _ (entry?_mem he)).running_or_terminal with ⟨hr, -, -⟩ | ht
  · simp [isFinished, isRunning, he, hr, Status.isTerminal]
  · simp [isFinished, isRunning, he, ht, Status.isTerminal_ne_running ht]

/-- An entry that was there before a step has kept its id, and its status if that was final. -/
theorem entry?_of_next? (hm : m.Sound) (h : m.next? p l = some m') (hk : k < m.entries.length)
    {e' : Entry} (he' : m'.entry? k = some e') :
    ∃ e, m.entry? k = some e ∧ e'.id = e.id ∧ (e.status.isTerminal = true → e'.status = e.status) := by
  have he : m.entry? k = some m.entries[k] := List.getElem?_eq_getElem hk
  obtain ⟨e₁, he₁, hid, hfin⟩ := (Run.snoc .nil h).persists hm he
  rw [he'] at he₁; cases he₁
  exact ⟨_, he, hid, fun ht => Entry.status_eq_of_record (hfin ht).1⟩

theorem length_le_of_next? (h : m.next? p l = some m') : m.entries.length ≤ m'.entries.length :=
  length_le_of_move (move_of_next? h)

/-- What runs at the end of a run ran at its beginning, if it was registered. -/
theorem running_of_run {steps : List (Policy × Label)} {es : List Event} {e e' : Entry} (run : Run m steps es m')
    (hm : m.Sound) (he : m.entry? k = some e) (he' : m'.entry? k = some e') (hr : e'.status = .running) :
    e.status = .running := by
  obtain ⟨e₁, he₁, -, hfin⟩ := run.persists hm he
  obtain rfl : e' = e₁ := Option.some.inj (he'.symm.trans he₁)
  rcases (hm.entries _ (entry?_mem he)).running_or_terminal with ⟨hrun, -, -⟩ | ht
  · exact hrun
  · rw [Entry.status_eq_of_record (hfin ht).1] at hr
    exact absurd hr (Status.isTerminal_ne_running ht)

theorem isRunning_of_next? (hm : m.Sound) (h : m.next? p l = some m') (hk : k < m.entries.length)
    (hr : m'.isRunning k = true) : m.isRunning k = true := by
  obtain ⟨e', he', hr'⟩ := isRunning_iff.mp hr
  have he : m.entry? k = some m.entries[k] := List.getElem?_eq_getElem hk
  exact isRunning_iff.mpr ⟨_, he, running_of_run (.snoc .nil h) hm he he' hr'⟩

end Machine

end

/-! ## What can be found -/

/-- Ids are found once each, every entry that is not finished can be found, and a start that counts has
made sure that its id is not in use. -/
structure Machine.Indexed (m : Machine) : Prop where
  ids : (m.tracked.map (·.1)).Nodup
  named : ∀ id k, (id, k) ∈ m.tracked → ∃ e, m.entry? k = some e ∧ e.id = id
  kept : ∀ k e, m.entry? k = some e → e.status.isTerminal = false → (e.id, k) ∈ m.tracked
  unused : ∀ c e todo n, Frame.counting c e todo n ∈ m.frames → m.find? e.id = none

namespace Machine

variable {m : Machine}

theorem find?_eq_none {id : String} : m.find? id = none ↔ ∀ k, (id, k) ∉ m.tracked := by
  rw [find?, List.lookup_eq_none_iff]
  constructor
  · intro h k hk
    have := h _ hk
    simp at this
  · rintro h ⟨id', k⟩ hk
    refine bne_iff_ne.mpr ?_
    rintro rfl; exact h k hk

theorem mem_of_find? {id : String} {k : Key} (h : m.find? id = some k) : (id, k) ∈ m.tracked := by
  obtain ⟨l₁, l₂, heq, -⟩ := List.lookup_eq_some_iff.mp h
  rw [heq]; simp

theorem Indexed.find?_of_mem (h : m.Indexed) {id : String} {k : Key} (hk : (id, k) ∈ m.tracked) :
    m.find? id = some k := by
  obtain ⟨l₁, l₂, heq⟩ := List.append_of_mem hk
  refine List.lookup_eq_some_iff.mpr ⟨l₁, l₂, heq, fun x hx => ?_⟩
  have hids := h.ids
  rw [heq, List.map_append, List.map_cons, List.nodup_append] at hids
  have hne := hids.2.2 x.1 (List.mem_map_of_mem hx) id List.mem_cons_self
  simpa using Ne.symm hne

theorem Indexed.keys_lt (h : m.Indexed) : ∀ k ∈ m.keys, k < m.entries.length := by
  intro k hk
  obtain ⟨⟨id, k⟩, hx, rfl⟩ := List.mem_map.mp hk
  obtain ⟨e, he, -⟩ := h.named id k hx
  exact entry?_lt he

theorem Indexed.keys_nodup (h : m.Indexed) : m.keys.Nodup := by
  refine List.pairwise_map.mpr ((List.pairwise_map.mp h.ids).imp_of_mem fun {x y} hx hy hne heq => hne ?_)
  obtain ⟨e, he, hid⟩ := h.named x.1 x.2 hx
  obtain ⟨e', he', hid'⟩ := h.named y.1 y.2 hy
  rw [heq, he'] at he
  cases he
  rw [← hid, ← hid']

/-- What runs can be found. -/
theorem Indexed.mem_keys (h : m.Indexed) {k : Key} (hk : m.isRunning k = true) : k ∈ m.keys := by
  obtain ⟨e, he, hr⟩ := isRunning_iff.mp hk
  exact List.mem_map_of_mem (h.kept k e he (by rw [hr]; rfl))

theorem Initial.indexed (h : m.Initial) : m.Indexed where
  ids := by simp [h.tracked]
  named := by simp [h.tracked]
  kept := by simp [entry?_eq, h.entries]
  unused := by simp [find?, h.tracked]

end Machine

section

variable {p : Policy} {m m' : Machine} {l : Label}

namespace Machine

/-- An entry that was there before and is not finished was not finished and can be found. -/
theorem Indexed.kept_of_next? (hi : m.Indexed) (hm : m.Sound) (h : m.next? p l = some m') {k : Key}
    (hk : k < m.entries.length) {e : Entry} (he : m'.entry? k = some e) (ht : e.status.isTerminal = false) :
    (e.id, k) ∈ m.tracked ∧ m.isFinished k = false := by
  obtain ⟨e₁, he₁, hid, hfin⟩ := entry?_of_next? hm h hk he
  have ht₁ : e₁.status.isTerminal = false :=
    Bool.eq_false_iff.mpr fun hterm => by rw [hfin hterm, hterm] at ht; cases ht
  exact ⟨hid ▸ hi.kept k e₁ he₁ ht₁, by simp [isFinished, he₁, ht₁]⟩

/-- A step that registers nothing, and may evict what is finished. -/
theorem Indexed.of_shrunk (hi : m.Indexed) (hm : m.Sound) (h : m.next? p l = some m')
    (hnamed : ∀ id k, (id, k) ∈ m'.tracked → ∃ e, m'.entry? k = some e ∧ e.id = id)
    (hsub : m'.tracked.Sublist m.tracked) (hkept : ∀ x ∈ m.tracked, m.isFinished x.2 = false → x ∈ m'.tracked)
    (hlen : m'.entries.length = m.entries.length)
    (hun : ∀ c e todo n, Frame.counting c e todo n ∈ m'.frames →
      Frame.counting c e todo n ∈ m.frames ∨ m.find? e.id = none) : m'.Indexed where
  ids := (hsub.map _).nodup hi.ids
  named := hnamed
  kept k e he ht := by
    obtain ⟨hmem, hfin⟩ := hi.kept_of_next? hm h (hlen ▸ entry?_lt he) he ht
    exact hkept _ hmem hfin
  unused c e todo n hf := by
    have hnone := (hun c e todo n hf).elim (hi.unused c e todo n) id
    exact find?_eq_none.mpr fun k hk => find?_eq_none.mp hnone k (hsub.subset hk)

/-- A step that registers an entry under an id that is not in use, with the map to itself. -/
theorem Indexed.of_registered (hi : m.Indexed) (hm : m.Sound) (h : m.next? p l = some m') {entry : Entry}
    (hnamed : ∀ id k, (id, k) ∈ m'.tracked → ∃ e, m'.entry? k = some e ∧ e.id = id)
    (unknown : m.find? entry.id = none) (hent : m'.entries = m.entries ++ [entry])
    (htr : m'.tracked = m.tracked ++ [(entry.id, m.entries.length)])
    (hun : ∀ c e todo n, Frame.counting c e todo n ∉ m'.frames) : m'.Indexed where
  ids := by
    rw [htr, List.map_append, List.nodup_append]
    refine ⟨hi.ids, by simp, fun id hid id' hid' => ?_⟩
    obtain ⟨⟨id, k⟩, hk, rfl⟩ := List.mem_map.mp hid
    obtain rfl : id' = entry.id := by simpa using hid'
    rintro rfl; exact find?_eq_none.mp unknown k hk
  named := hnamed
  kept k e he ht := by
    rw [htr]
    rcases Nat.lt_or_ge k m.entries.length with hk | hk
    · exact List.mem_append_left _ (hi.kept_of_next? hm h hk he ht).1
    · rw [entry?_eq, hent, List.getElem?_append_right hk] at he
      obtain rfl : e = entry := by simpa using List.mem_of_getElem? he
      have hzero : k - m.entries.length = 0 := Nat.lt_one_iff.mp (List.getElem?_eq_some_iff.mp he).1
      obtain rfl : k = m.entries.length := Nat.le_antisymm (Nat.le_of_sub_eq_zero hzero) hk
      simp
  unused c e todo n hf := absurd hf (hun c e todo n)

/-- A start that registers its entry while it has the map to itself leaves no start that counts. -/
theorem not_counting_register {i : Nat} {context : Context} {entry : Entry} {below : Thread}
    (hbelow : ∀ g ∈ below, g.holds = false)
    (hothers : ∀ j t, j ≠ i → m.threads[j]? = some t → ∀ g ∈ t, g.holds = false) (c : Context) (e : Entry)
    (todo : List Key) (n : Nat) : Frame.counting c e todo n ∉ (m.register i context entry below).frames := by
  intro hmem
  have hfree : (Frame.counting c e todo n).holds = false := by
    rcases mem_frames_set (m := m) (i := i) rfl hmem with hmem | ⟨j, t, hj, ht', hmem⟩
    · have hmem : Frame.counting c e todo n ∈ below := by simpa using hmem
      exact hbelow _ hmem
    · exact hothers j t hj ht' _ hmem
  cases hfree

end Machine

open Machine in
theorem Turn.indexed (h : Turn p m l m') (hnext : m.next? p l = some m') (hm : m.Sound) (hlock : m.Locked)
    (hnamed : ∀ id k, (id, k) ∈ m'.tracked → ∃ e, m'.entry? k = some e ∧ e.id = id) (hi : m.Indexed) :
    m'.Indexed := by
  have same (htr : m'.tracked = m.tracked) (hlen : m'.entries.length = m.entries.length)
      (hun : ∀ c e todo n, Frame.counting c e todo n ∈ m'.frames →
        Frame.counting c e todo n ∈ m.frames ∨ m.find? e.id = none) : m'.Indexed :=
    hi.of_shrunk hm hnext hnamed (htr ▸ List.Sublist.refl _) (fun _ hx _ => htr ▸ hx) hlen hun
  have go {i : Nat} {f : Frame} {below : Thread} (g : Frame) (ht : m.threads[i]? = some (f :: below))
      (hthr : m'.threads = m.threads.set i ([g] ++ below))
      (hg : ∀ c e todo n, Frame.counting c e todo n = g → m.find? e.id = none) :
      ∀ c e todo n, Frame.counting c e todo n ∈ m'.frames →
        Frame.counting c e todo n ∈ m.frames ∨ m.find? e.id = none := fun c e todo n hf =>
    (mem_frames_go [_] [g] ht hthr hf).elim (fun hf => Or.inr (hg c e todo n (List.mem_singleton.mp hf))) Or.inl
  cases h with
  | outside _ htr hlen threads =>
    refine same htr hlen fun c e todo n hf => Or.inl ?_
    rcases threads with heq | heq
    · rwa [frames, heq] at hf
    · simpa [frames, heq] using hf
  | aside _ ht hf goes htr hlen threads =>
    refine same htr hlen fun c e todo n hmem => Or.inl ?_
    exact (mem_frames_aside ht hf goes threads hmem).resolve_left (by simp [Frame.aside])
  | enroll ht free unknown =>
    have hfree := canWrite_iff.mp free
    exact hi.of_registered hm hnext hnamed unknown rfl rfl (not_counting_register (hlock.below_free ht)
      fun j t _ ht' => hfree t (List.mem_of_getElem? ht'))
  | accept ht =>
    have unknown := hi.unused _ _ _ _ (mem_frames ht List.mem_cons_self)
    exact hi.of_registered hm hnext hnamed unknown rfl rfl (not_counting_register (hlock.below_free ht)
      fun j t hj ht' => hlock.others_free ht rfl hj ht')
  | known ht | refuse ht | found ht | swept ht | scan ht | look ht | sweep ht | spare ht =>
    exact same rfl rfl (go _ ht rfl (by simp))
  | claim ht _ unknown =>
    refine same rfl rfl (go _ ht rfl fun c e todo n heq => ?_)
    cases heq; exact unknown
  | count ht =>
    refine same rfl rfl (go _ ht rfl fun c e todo n heq => ?_)
    cases heq; exact hi.unused _ _ _ _ (mem_frames ht List.mem_cons_self)
  | @evict i k todo evicted below ht hk =>
    refine hi.of_shrunk hm hnext hnamed List.filter_sublist (fun x hx hfin => ?_) rfl (go _ ht rfl (by simp))
    refine List.mem_filter.mpr ⟨hx, ?_⟩
    have hne : x.2 ≠ k := by rintro rfl; rw [hk] at hfin; cases hfin
    simpa using hne

end

theorem Run.indexed {m₀ m : Machine} {steps : List (Policy × Label)} {es : List Event}
    (h : Run m₀ steps es m) (h₀ : m₀.Initial) : m.Indexed := by
  induction h with
  | nil => exact h₀.indexed
  | snoc run step ih =>
    exact (Machine.turn_of_next? step).indexed step (run.sound h₀.sound) (run.locked h₀)
      ((Run.snoc run step).filed h₀) ih

end Overseer.Supervisor

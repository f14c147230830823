import Overseer.FileSystem.Resolve

/-!
# Paths and the names they consist of

`Path.parent?` and `Path.fileName?` work on the text of a path, resolution on the names in it. For an
absolute path both agree up to dots: the names of a path are those of its parent, then the last name,
with dots before and behind it.

* `pieces_ofPieces`, `ofPieces_pieces`: splitting and joining undo each other.
* `parent?_spec`: what a path has more than its parent.
-/
namespace Overseer.Path

/-! ## Pieces -/

theorem pieces_ne_nil (p : Path) : pieces p ≠ [] := by
  cases p with
  | nil => simp [pieces]
  | cons b rest =>
    unfold pieces
    split
    · simp
    · split <;> simp

theorem slash_not_mem_pieces {p : Path} : ∀ n ∈ pieces p, slash ∉ n := by
  induction p with
  | nil => simp [pieces]
  | cons b rest ih =>
    unfold pieces
    split
    · intro n hn
      rcases List.mem_cons.mp hn with rfl | hn
      · simp
      · exact ih n hn
    · rename_i hb
      split
      · simpa using fun h => hb h.symm
      · rename_i q qs hq
        rw [hq] at ih
        intro n hn
        rcases List.mem_cons.mp hn with rfl | hn
        · have := ih q List.mem_cons_self
          simp only [List.mem_cons, not_or]
          exact ⟨fun h => hb h.symm, this⟩
        · exact ih n (List.mem_cons_of_mem _ hn)

theorem ofPieces_cons {n : Name} {ns : List Name} (h : ns ≠ []) :
    ofPieces (n :: ns) = n ++ slash :: ofPieces ns := by
  cases ns with
  | nil => exact absurd rfl h
  | cons => rfl

theorem ofPieces_pieces (p : Path) : ofPieces (pieces p) = p := by
  induction p with
  | nil => rfl
  | cons b rest ih =>
    unfold pieces
    split
    · rename_i hb
      rw [ofPieces_cons (pieces_ne_nil rest), ih, hb]; rfl
    · split
      · exact absurd ‹_› (pieces_ne_nil rest)
      · rename_i q qs hq
        rw [hq] at ih
        cases qs with
        | nil => simpa [ofPieces] using ih
        | cons q' qs =>
          rw [ofPieces_cons (by simp)] at ih ⊢
          rw [List.cons_append, ih]

theorem pieces_append_slash {n : Name} (h : slash ∉ n) (p : Path) :
    pieces (n ++ slash :: p) = n :: pieces p := by
  induction n with
  | nil => simp [pieces]
  | cons b n ih =>
    simp only [List.mem_cons, not_or] at h
    rw [List.cons_append, pieces, if_neg (Ne.symm h.1), ih h.2]

theorem pieces_name {n : Name} (h : slash ∉ n) : pieces n = [n] := by
  induction n with
  | nil => rfl
  | cons b n ih =>
    simp only [List.mem_cons, not_or] at h
    rw [pieces, if_neg (Ne.symm h.1), ih h.2]

theorem pieces_ofPieces {ns : List Name} (hne : ns ≠ []) (h : ∀ n ∈ ns, slash ∉ n) :
    pieces (ofPieces ns) = ns := by
  induction ns with
  | nil => exact absurd rfl hne
  | cons n ns ih =>
    have hn := h n List.mem_cons_self
    by_cases hns : ns = []
    · subst hns; exact pieces_name hn
    · rw [ofPieces_cons hns, pieces_append_slash hn, ih hns fun m hm => h m (List.mem_cons_of_mem _ hm)]

theorem ofPieces_append {a b : List Name} (ha : a ≠ []) (hb : b ≠ []) :
    ofPieces (a ++ b) = ofPieces a ++ slash :: ofPieces b := by
  induction a with
  | nil => exact absurd rfl ha
  | cons n a ih =>
    by_cases h : a = []
    · subst h; exact ofPieces_cons hb
    · rw [List.cons_append, ofPieces_cons (by simp [h]), ofPieces_cons h, ih h, List.append_assoc,
        List.cons_append]

/-! ## Absolute paths -/

/-- The names a path consists of, as the system reads it. -/
abbrev names (p : Path) : List Name := (Route.ofPath p).names

theorem isAbsolute_cons (r : Path) : isAbsolute (slash :: r) = true := by simp [isAbsolute]

theorem exists_cons_of_isAbsolute {p : Path} (h : isAbsolute p = true) : ∃ r, p = slash :: r := by
  cases p with
  | nil => cases h
  | cons b r =>
    have hb : b = slash := by simpa [isAbsolute] using h
    exact ⟨r, by rw [hb]⟩

theorem names_cons (r : Path) : names (slash :: r) = (pieces r).filter fun n => !n.isEmpty := by
  simp [names, Route.ofPath, pieces]

theorem split_cons (r : Path) : split (slash :: r) = ([slash], r) := by
  cases r <;> simp [split]

/-- The pieces of an absolute path, last first. -/
theorem backPieces_cons (r : Path) : backPieces (slash :: r) = if r = [] then [] else (pieces r).reverse := by
  unfold backPieces
  rw [split_cons]
  cases r <;> simp

theorem filter_isIdle {ns : List Name} (h : ∀ n ∈ ns, isIdle n = true) :
    ∀ n ∈ ns.filter fun n => !n.isEmpty, n = here := by
  intro n hn
  obtain ⟨hn, he⟩ := List.mem_filter.mp hn
  have := h n hn
  simp_all [isIdle]

/-- The path does not end with a slash or a dot, unless it has no names. -/
def Tidy (p : Path) : Prop :=
  names p ≠ [] → (Route.ofPath p).slash = false ∧ (names p).getLast? ≠ some here

theorem ofPieces_suffix (ns : List Name) (n : Name) : n <:+ ofPieces (ns ++ [n]) := by
  by_cases h : ns = []
  · subst h; exact List.suffix_rfl
  · rw [ofPieces_append h (by simp), List.append_cons]; exact ⟨_, rfl⟩

theorem tidy_ofPieces {ns : List Name} {n : Name} (hs : ∀ m ∈ ns ++ [n], slash ∉ m)
    (hn : isIdle n = false) : Tidy (slash :: ofPieces (ns ++ [n])) := by
  have hne : n ≠ [] ∧ n ≠ here := by simpa [isIdle] using hn
  intro _
  constructor
  · obtain ⟨x, hx⟩ := ofPieces_suffix ns n
    have hlast : (slash :: ofPieces (ns ++ [n])).getLast? = n.getLast? := by
      rw [← hx, ← List.cons_append, List.getLast?_append, Option.or_of_isSome]
      simpa using hne.1
    show ((slash :: ofPieces (ns ++ [n])).getLast? == some slash) = false
    rw [hlast]
    refine beq_eq_false_iff_ne.mpr fun h => ?_
    exact hs n (by simp) (List.mem_of_getLast? h)
  · rw [names_cons, pieces_ofPieces (by simp) hs, List.filter_append]
    simpa [hne.1] using hne.2

/-- What an absolute path has more than its parent: one name, and dots before and behind it. -/
structure Parting (p q : Path) (n : Name) : Prop where
  absolute : isAbsolute q = true
  text : q <+: p
  tidy : Tidy q
  notHere : n ≠ here
  last : fileName? p = if n = up then none else some n
  names : ∃ dots dots', (∀ d ∈ dots ++ dots', d = here) ∧
    names p = names q ++ (dots ++ n :: dots')

theorem names_ofPieces (ns : List Name) (h : ∀ n ∈ ns, slash ∉ n) :
    names (slash :: ofPieces ns) = ns.filter fun n => !n.isEmpty := by
  rw [names_cons]
  by_cases hns : ns = []
  · subst hns; simp [ofPieces, pieces]
  · rw [pieces_ofPieces hns h]

theorem exists_of_dropWhile {f : Name → Bool} {l rest : List Name} (h : l.dropWhile f = rest) :
    ∃ front, l = front ++ rest ∧ ∀ n ∈ front, f n = true :=
  ⟨l.takeWhile f, by rw [← h, List.takeWhile_append_dropWhile],
    List.all_eq_true.mp List.all_takeWhile⟩

theorem parent?_spec {p q : Path} (hp : isAbsolute p = true) (h : parent? p = some q) :
    ∃ n, Parting p q n := by
  obtain ⟨r, rfl⟩ := exists_cons_of_isAbsolute hp
  have hback := backPieces_cons r
  unfold parent? at h
  split at h
  · rename_i n before hdrop
    rw [split_cons] at h
    cases h
    by_cases hr : r = []
    · rw [hback, if_pos hr] at hdrop; cases hdrop
    rw [if_neg hr] at hback
    obtain ⟨behind, hbehind, hb⟩ := exists_of_dropWhile hdrop
    obtain ⟨between, hbetween, hw⟩ := exists_of_dropWhile (l := before) rfl
    generalize hrest : before.dropWhile isIdle = rest at hbetween
    have hn : isIdle n = false := by
      have := List.head?_dropWhile_not isIdle (backPieces (slash :: r))
      rw [hdrop] at this; simpa using this
    have hpieces : pieces r = rest.reverse ++ (between.reverse ++ n :: behind.reverse) := by
      have := congrArg List.reverse (hback.symm.trans hbehind)
      rw [List.reverse_reverse, hbetween] at this
      simpa using this
    have hslash : ∀ m ∈ rest.reverse, slash ∉ m := fun m hm =>
      slash_not_mem_pieces m (by rw [hpieces]; exact List.mem_append_left _ hm)
    have hne : n ≠ [] ∧ n ≠ here := by simpa [isIdle] using hn
    refine ⟨n, ?_, ?_, ?_, hne.2, ?_, ?_⟩
    · exact isAbsolute_cons _
    · rw [List.singleton_append, ← ofPieces_pieces r, hpieces, List.cons_prefix_cons]
      refine ⟨rfl, ?_⟩
      by_cases h : rest.reverse = []
      · rw [h]; exact List.nil_prefix
      · rw [ofPieces_append h (by simp)]; exact List.prefix_append ..
    · rw [List.singleton_append]
      cases rest with
      | nil => intro h; simp [ofPieces, names_cons, pieces] at h
      | cons m rest =>
        have hm := List.head?_dropWhile_not isIdle before
        rw [hrest] at hm
        rw [List.reverse_cons] at hslash ⊢
        exact tidy_ofPieces hslash (by simpa using hm)
    · unfold fileName?; rw [hdrop]
    · refine ⟨between.reverse.filter fun n => !n.isEmpty, behind.reverse.filter fun n => !n.isEmpty, ?_, ?_⟩
      · intro d hd
        rw [← List.filter_append] at hd
        refine filter_isIdle (fun m hm => ?_) d hd
        rcases List.mem_append.mp hm with hm | hm
        · exact hw m (List.mem_reverse.mp hm)
        · exact hb m (List.mem_reverse.mp hm)
      · rw [List.singleton_append, names_ofPieces _ hslash, names_cons, hpieces]
        simp [List.filter_append, hne.1]
  · rw [split_cons] at h
    simp [slash, dot] at h

/-- From a path up to another by the names `t`, none of which leads up again. -/
inductive Climb : Path → List Name → Path → Prop where
  | refl (p : Path) : Climb p [] p
  | step {p q c : Path} {n : Name} {t : List Name} (up : parent? p = some q) (name : fileName? p = some n)
      (rest : Climb q t c) : Climb p (t ++ [n]) c

/-- The names without the dots among them. -/
def dotless (ns : List Name) : List Name := ns.filter (· ≠ here)

@[simp] theorem dotless_nil : dotless [] = [] := rfl

@[simp] theorem dotless_here (ns : List Name) : dotless (here :: ns) = dotless ns := by simp [dotless]

theorem dotless_cons {n : Name} (h : n ≠ here) (ns : List Name) : dotless (n :: ns) = n :: dotless ns := by
  simp [dotless, h]

@[simp] theorem dotless_append (ns ns' : List Name) : dotless (ns ++ ns') = dotless ns ++ dotless ns' :=
  List.filter_append ..

theorem dotless_eq_nil {ns : List Name} (h : ∀ d ∈ ns, d = here) : dotless ns = [] := by
  simpa [dotless, List.filter_eq_nil_iff] using h

theorem Parting.dotless {p q : Path} {n : Name} (h : Parting p q n) :
    ∃ ns, Path.names p = Path.names q ++ ns ∧ Path.dotless ns = [n] := by
  obtain ⟨dots, dots', hd, hn⟩ := h.names
  refine ⟨_, hn, ?_⟩
  have h1 := dotless_eq_nil fun d hm => hd d (List.mem_append_left _ hm)
  have h2 := dotless_eq_nil fun d hm => hd d (List.mem_append_right _ hm)
  rw [dotless_append, dotless_cons h.notHere, h1, h2, List.nil_append]

/-- A tidy path does not end with dots. -/
theorem Parting.names_of_tidy {p q : Path} {n : Name} (h : Parting p q n) (ht : Tidy p) :
    ∃ dots, (∀ d ∈ dots, d = here) ∧ Path.names p = Path.names q ++ (dots ++ [n]) := by
  obtain ⟨dots, dots', hd, hn⟩ := h.names
  refine ⟨dots, fun d hm => hd d (List.mem_append_left _ hm), ?_⟩
  rcases List.eq_nil_or_concat dots' with rfl | ⟨ds, d, rfl⟩
  · exact hn
  · have hlast := (ht (by simp [hn])).2
    rw [hn, hd d (by simp), List.concat_eq_append, ← List.cons_append, ← List.append_assoc,
      ← List.append_assoc, List.getLast?_concat] at hlast
    exact absurd rfl hlast

theorem Climb.spec {p c : Path} {t : List Name} (h : Climb p t c) (hp : isAbsolute p = true) :
    isAbsolute c = true ∧ c <+: p ∧ (p = c ∧ t = [] ∨ Tidy c) ∧ up ∉ t ∧
      ∃ ns, names p = names c ++ ns ∧ dotless ns = t := by
  induction h with
  | refl p => exact ⟨hp, List.prefix_rfl, Or.inl ⟨rfl, rfl⟩, by simp, [], by simp⟩
  | @step p q c n t hup hname rest ih =>
    obtain ⟨n', part⟩ := parent?_spec hp hup
    obtain ⟨hc, hpre, htidy, hnoup, ns, hns, hfil⟩ := ih part.absolute
    obtain ⟨ns', hns', hfil'⟩ := part.dotless
    have hnup : n' ≠ up ∧ n' = n := by
      have := part.last
      rw [hname] at this
      split at this
      · cases this
      · cases this; exact ⟨‹_›, rfl⟩
    obtain ⟨hnup, rfl⟩ := hnup
    refine ⟨hc, hpre.trans part.text, Or.inr ?_, ?_, ns ++ ns', ?_, ?_⟩
    · rcases htidy with ⟨rfl, -⟩ | htidy
      · exact part.tidy
      · exact htidy
    · simpa [hnoup] using Ne.symm hnup
    · rw [hns', hns, List.append_assoc]
    · rw [dotless_append, hfil, hfil']

theorem isAbsolute_location (l : Location) : isAbsolute l.path = true := by
  cases l <;> simp [Location.path, isAbsolute]

end Overseer.Path

import Overseer.Proofs.FileSystem.Content

/-!
# Trees without links

Where no symbolic links are, an absolute path leads where its names say. What the text of a path says of its
names is then what it says of the place it leads to.

* `Path.names_join`, `Location.names_path`, `Location.dropLast_of_parent?`: the names of joined paths, of the
  path of a location and of its parent.
* `plain_of_canonicalize`: what a path is resolved to has names that say what they mean.
* `NoLinks.target_of_walk`: where a walk ends.
* `NoLinks.of_openForAppend`: what is opened for appending.
-/
namespace Overseer

namespace Path

theorem pieces_append (a b : Path) : pieces (a ++ slash :: b) = pieces a ++ pieces b := by
  induction a with
  | nil => simp [pieces]
  | cons c a ih =>
    rw [List.cons_append, pieces, pieces]
    split
    · rw [ih, List.cons_append]
    · rw [ih]
      cases h : pieces a with
      | nil => exact absurd h (pieces_ne_nil a)
      | cons n ns => rfl

theorem names_append (a b : Path) : names (a ++ slash :: b) = names a ++ names b := by
  simp [names, Route.ofPath, pieces_append]

theorem names_name {n : Name} (hn : n ≠ []) (hs : slash ∉ n) : names n = [n] := by
  simp [names, Route.ofPath, pieces_name hs, hn]

theorem of_mem_names {p : Path} {n : Name} (hn : n ∈ names p) : n ≠ [] ∧ slash ∉ n := by
  obtain ⟨hmem, hne⟩ := List.mem_filter.mp hn
  exact ⟨by simpa using hne, slash_not_mem_pieces n hmem⟩

/-- Going on by a name from an absolute path. -/
theorem names_join {p : Path} {n : Name} (hp : p.isAbsolute = true) (hn : n ≠ []) (hs : slash ∉ n) :
    names (join p n) = names p ++ [n] ∧ (join p n).isAbsolute = true := by
  have hrel : isAbsolute n = false := by
    cases n with
    | nil => exact absurd rfl hn
    | cons b n =>
      have hb : b ≠ slash := fun h => hs (h ▸ List.mem_cons_self)
      simpa [isAbsolute] using hb
  obtain ⟨r, rfl⟩ := exists_cons_of_isAbsolute hp
  unfold join
  rw [if_neg (by simp [hrel])]
  split
  · rename_i hlast; simp at hlast
  rename_i b hlast
  split
  · rename_i hb
    obtain ⟨front, hfront⟩ := List.getLast?_eq_some_iff.mp hlast
    have hnone : names [] = [] := rfl
    have hsplit : slash :: r ++ n = front ++ slash :: n := by
      rw [hfront, hb, List.append_assoc, List.singleton_append]
    refine ⟨?_, by rw [List.cons_append]; exact isAbsolute_cons _⟩
    rw [hsplit, names_append, names_name hn hs, hfront, hb, names_append, hnone, List.append_nil]
  · exact ⟨by rw [names_append, names_name hn hs], by rw [List.cons_append]; exact isAbsolute_cons _⟩

/-- A name that says what it means: it is not empty, has no slash in it and is not a dot or two. -/
structure Plain (n : Name) : Prop where
  ne_nil : n ≠ []
  slash_not_mem : slash ∉ n
  ne_here : n ≠ here
  ne_up : n ≠ up

end Path

namespace Location

/-- All names of a location say what they mean, as they do when a path has been resolved to it. -/
def Plain (l : Location) : Prop := ∀ n ∈ l, Path.Plain n

variable {l : Location}

theorem path_eq (hl : l ≠ []) : l.path = Path.slash :: Path.ofPieces l := by
  have hflat (n : Name) (l : Location) :
      (n :: l).flatMap (fun n => Path.slash :: n) = Path.slash :: Path.ofPieces (n :: l) := by
    induction l generalizing n with
    | nil => simp [Path.ofPieces]
    | cons m l ih => rw [List.flatMap_cons, ih, Path.ofPieces_cons (List.cons_ne_nil m l), List.cons_append]
  cases l with
  | nil => exact absurd rfl hl
  | cons n l => exact hflat n l

theorem names_path (h : l.Plain) : Path.names l.path = l := by
  by_cases hl : l = []
  · subst hl; rfl
  · rw [path_eq hl, Path.names_ofPieces _ fun n hn => (h n hn).slash_not_mem]
    exact List.filter_eq_self.mpr fun n hn => by simpa using (h n hn).ne_nil

/-- The parent of a location's path is the path of the location's parent, as far as its names go. -/
theorem dropLast_of_parent? {q : Path} (h : l.Plain) (hq : l.path.parent? = some q) :
    q.isAbsolute = true ∧ Path.names q = l.dropLast ∧ l ≠ [] := by
  obtain ⟨n, part⟩ := Path.parent?_spec (Path.isAbsolute_location l) hq
  obtain ⟨dots, dots', hdots, hnames⟩ := part.names
  rw [names_path h] at hnames
  have hnone : ∀ d ∈ dots ++ dots', False := fun d hd =>
    (h d (by rw [hnames]; rcases List.mem_append.mp hd with hd | hd <;> simp [hd])).ne_here (hdots d hd)
  have hd : dots = [] := List.eq_nil_iff_forall_not_mem.mpr fun d hd => hnone d (by simp [hd])
  have hd' : dots' = [] := List.eq_nil_iff_forall_not_mem.mpr fun d hd => hnone d (by simp [hd])
  rw [hd, hd', List.nil_append] at hnames
  refine ⟨part.absolute, ?_, by rw [hnames]; simp⟩
  rw [hnames, List.dropLast_concat]

end Location

namespace FileSystem

variable {fs fs' : FileSystem} {e : Ending} {k k' : Nat} {h l : Location} {s : Bool} {pl : Place} {p : Path}

theorem plain_of_leads {a : List Name} (hl : Leads fs k h a k' l)
    (ha : ∀ n ∈ a, n ≠ [] ∧ Path.slash ∉ n) (hh : Location.Plain h) : Location.Plain l := by
  induction hl with
  | nil => exact hh
  | here _ _ ih => exact ih (fun n hn => ha n (List.mem_cons_of_mem _ hn)) hh
  | up _ _ ih =>
    exact ih (fun n hn => ha n (List.mem_cons_of_mem _ hn)) fun n hn => hh n (List.dropLast_subset _ hn)
  | object _ hhere hup _ _ _ _ ih =>
    refine ih (fun n hn => ha n (List.mem_cons_of_mem _ hn)) fun n hn => ?_
    rcases List.mem_append.mp hn with hn | hn
    · exact hh n hn
    · obtain rfl := List.mem_singleton.mp hn
      obtain ⟨hne, hslash⟩ := ha n List.mem_cons_self
      exact ⟨hne, hslash, hhere, hup⟩
  | link _ _ _ _ _ _ ih =>
    refine ih (fun n hn => ?_) ?_
    · rcases List.mem_append.mp hn with hn | hn
      · exact Path.of_mem_names hn
      · exact ha n (List.mem_cons_of_mem _ hn)
    · split
      · intro n hn; cases hn
      · exact hh

/-- What a path is resolved to has names that say what they mean. -/
theorem plain_of_canonicalize (hp : p.isAbsolute = true) (hc : fs.canonicalize p = .ok l) :
    Location.Plain l := by
  obtain ⟨k', hl⟩ := leads_of_walk_found (by simp) ((locate_ok hp).mp hc).2
  exact plain_of_leads hl (fun n hn => Path.of_mem_names hn) fun n hn => by cases hn

/-- No symbolic link stands anywhere. -/
def NoLinks (fs : FileSystem) : Prop := ∀ l t, fs.get? l ≠ some (.link t)

theorem NoLinks.put (hn : fs.NoLinks) {o : Object} (hl : l ≠ []) (ho : ∀ t, o ≠ .link t) :
    (fs.put l o).NoLinks := by
  intro l' t
  rw [get?_put _ _ _ _ hl]
  split
  · exact fun heq => ho t (Option.some.inj heq)
  · exact hn l' t

theorem NoLinks.createDirAll (hn : fs.NoLinks) (p : Path) : (fs.createDirAll p).1.NoLinks :=
  createDirAll_keeps (P := NoLinks) (fun _ _ hfs hl _ _ => hfs.put hl (by simp)) hn

/-- A walk ends where its names say, the dots among them left out. -/
theorem NoLinks.target_of_walk (hn : fs.NoLinks) {a : List Name} (hu : Path.up ∉ a)
    (hw : fs.walk e k h a s = .ok pl) : pl.target = h ++ Path.dotless a := by
  induction a generalizing h with
  | nil =>
    rw [walk_nil] at hw
    cases hw; simp [Place.target]
  | cons n a ih =>
    have dir := isDirAt_of_walk hw
    have hua : Path.up ∉ a := fun h => hu (List.mem_cons_of_mem _ h)
    by_cases hh : n = Path.here
    · subst hh
      rw [walk_here dir] at hw
      rw [Path.dotless_here]
      exact ih hua hw
    have hnu : n ≠ Path.up := fun h => hu (h ▸ List.mem_cons_self)
    rw [walk_cons dir hh hnu] at hw
    rw [Path.dotless_cons hh]
    split at hw
    · cases hw
    split at hw
    · cases hw
    split at hw
    · split at hw <;> cases hw
      rename_i ha
      simp [ha, Place.target]
    · rename_i target get
      exact absurd get (hn _ target)
    · split at hw
      · cases hw
      rw [ih hua hw, List.append_assoc, List.singleton_append]

/-- What an absolute path of plain names is opened for is the file at that place. -/
theorem NoLinks.of_openForAppend (hn : fs.NoLinks) (ht : fs.IsTree) (hp : p.isAbsolute = true)
    (hplain : Location.Plain (Path.names p)) (ho : fs.openForAppend p = .ok (l, fs')) :
    l = Path.names p := by
  obtain ⟨hloc, -⟩ := openForAppend_spec ho
  obtain ⟨-, ⟨pl, hw, rfl⟩, -⟩ := locateForWriting_spec ht hp hloc
  have hup : Path.up ∉ Path.names p := fun hup => (hplain _ hup).ne_up rfl
  rw [hn.target_of_walk hup hw, List.nil_append]
  exact List.filter_eq_self.mpr fun n hmem => by simpa using (hplain n hmem).ne_here

end FileSystem

end Overseer

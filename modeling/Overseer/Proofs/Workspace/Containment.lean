import Overseer.Proofs.FileSystem.Making
import Overseer.Proofs.Json.Text
import Overseer.Proofs.Text.Encoding
import Overseer.Proofs.Workspace.Calls

/-!
# Writes stay in the workspace

`Workspace.contains` decides by the text of a path, the tree decides where a write ends up. The check finds
the nearest thing on the way that is there, and takes the names from there on as they stand; the write
agrees with it because the first of these names is free, so nothing stands behind it, or because it cannot
be looked up, and then the write fails.

* `anchor_spec`: what the check finds.
* `Missing`: a path with a part that is not there, and what making its directories can do.
* `Cleared`: what the check tells of a path once its directories are made.
* `execute_confined`: whatever tools are called, nothing outside the root changes.
-/
namespace Overseer

open FileSystem

namespace Workspace

variable {fs fs' : FileSystem} {p q c r : Path} {n : Name} {t tail : List Name} {l root : Location}

/-! ## What is kept -/

/-- Strictly below the root of the workspace. -/
def Inside (root l : Location) : Prop := root <+: l ∧ l ≠ root

/-- The second tree is one, and outside the root it is the first. -/
structure Kept (root : Location) (fs fs' : FileSystem) : Prop where
  outside : ∀ l, ¬ Inside root l → fs'.get? l = fs.get? l
  tree : fs'.IsTree

theorem Kept.refl (ht : fs.IsTree) : Kept root fs fs := ⟨fun _ _ => rfl, ht⟩

theorem Kept.trans {fs₁ fs₂ : FileSystem} (h : Kept root fs fs₁) (h' : Kept root fs₁ fs₂) :
    Kept root fs fs₂ :=
  ⟨fun l hl => (h'.outside l hl).trans (h.outside l hl), h'.tree⟩

theorem Kept.isDirAt_root (h : Kept root fs fs') (hr : fs.isDirAt root = true) :
    fs'.isDirAt root = true := by
  unfold FileSystem.isDirAt at hr ⊢
  rw [h.outside root fun hin => hin.2 rfl]; exact hr

theorem Kept.put {o : Object} (ht : (fs.put l o).IsTree) (hl : l ≠ []) (hin : Inside root l) :
    Kept root fs (fs.put l o) := by
  refine ⟨fun l' hl' => ?_, ht⟩
  rw [get?_put _ _ _ _ hl, if_neg]
  rintro rfl
  exact hl' hin

/-! ## The check -/

/-- The nearest thing on the way is the path itself, or it is the parent of the last path on the way up that
is not there. -/
theorem anchor_spec {fuel : Nat} {t₀ : List Name} (h : anchor fs fuel p t₀ = some (q, tail)) :
    fs.exists? q = true ∧ ((p = q ∧ tail = t₀) ∨
      ∃ c n t, Path.Climb p t c ∧ c.parent? = some q ∧ c.fileName? = some n ∧ fs.exists? c = false ∧
        tail = n :: t ++ t₀) := by
  induction fuel generalizing p t₀ with
  | zero => cases h
  | succ fuel ih =>
    simp only [anchor] at h
    split at h
    · cases h; exact ⟨‹_›, Or.inl ⟨rfl, rfl⟩⟩
    rename_i hgone
    have hgone : fs.exists? p = false := by simpa using hgone
    split at h
    · rename_i n' q' hname hup
      obtain ⟨hex, hrest⟩ := ih h
      refine ⟨hex, Or.inr ?_⟩
      rcases hrest with ⟨rfl, rfl⟩ | ⟨c, n, t, hclimb, hc, hn, hgone', rfl⟩
      · exact ⟨p, n', [], .refl p, hup, hname, hgone, rfl⟩
      · exact ⟨c, n, t ++ [n'], .step hup hname hclimb, hc, hn, hgone', by simp⟩
    · cases h

/-- A path that is not there: `c` is the last path on its way up that is not, and its parent `q` leads to
`l`. -/
structure Missing (fs : FileSystem) (p c q : Path) (n : Name) (t : List Name) (k : Nat) (l : Location) :
    Prop where
  absolute : c.isAbsolute = true
  climb : Path.Climb p t c
  up : c.parent? = some q
  part : Path.Parting c q n
  notUp : n ≠ Path.up
  tidy : p = c ∧ t = [] ∨ c.Tidy
  found : ∃ x, fs.walkPath .keepLink q = .ok (.found x)
  gone : fs.exists? c = false
  leads : Leads fs maxLinks [] (Path.names q) k l

theorem missing_of_anchor {l : Location} {n : Name} {t : List Name} (hp : p.isAbsolute = true)
    (hclimb : Path.Climb p t c) (hup : c.parent? = some q) (hname : c.fileName? = some n)
    (hgone : fs.exists? c = false) (hex : fs.exists? q = true) (hcan : fs.canonicalize q = .ok l) :
    ∃ k, Missing fs p c q n t k l := by
  obtain ⟨hc, -, htidy, -, -⟩ := hclimb.spec hp
  obtain ⟨n', part⟩ := Path.parent?_spec hc hup
  have hn : n' ≠ Path.up ∧ n' = n := by
    have := part.last
    rw [hname] at this
    split at this
    · cases this
    · cases this; exact ⟨‹_›, rfl⟩
  obtain ⟨hnu, rfl⟩ := hn
  obtain ⟨k, hl⟩ := leads_of_walk_found (by simp) ((locate_ok part.absolute).mp hcan).2
  exact ⟨k, hc, hclimb, hup, part, hnu, htidy, ((exists?_iff part.absolute).mp hex).2, hgone, hl⟩

namespace Missing

variable {k : Nat}

/-- What a path that climbs to `c` has more than `q`. -/
theorem names_of_climb (h : Missing fs p c q n t k l) {p' : Path} {t' : List Name}
    (hclimb : Path.Climb p' t' c) (hp' : p'.isAbsolute = true) :
    c <+: p' ∧ ∃ ns, Path.names p' = Path.names q ++ ns ∧ Path.dotless ns = n :: t' ∧ Path.up ∉ ns := by
  obtain ⟨-, hpre, -, hnoup, ns', hns', hdot'⟩ := hclimb.spec hp'
  obtain ⟨ns, hns, hdot⟩ := h.part.dotless
  have hdots : Path.dotless (ns ++ ns') = n :: t' := by
    rw [Path.dotless_append, hdot, hdot', List.singleton_append]
  refine ⟨hpre, ns ++ ns', by rw [hns', hns, List.append_assoc], hdots, fun hup => ?_⟩
  have hmem : Path.up ∈ Path.dotless (ns ++ ns') :=
    List.mem_filter.mpr ⟨hup, by simp [Path.up, Path.here]⟩
  rw [hdots] at hmem
  rcases List.mem_cons.mp hmem with heq | hmem
  · exact h.notUp heq.symm
  · exact hnoup hmem

/-- A walk over such a path is one over the names that it has more, from where `q` leads to. -/
theorem walk_eq (h : Missing fs p c q n t k l) (hg : Grows fs fs') {ns : List Name} {t' : List Name}
    (hdot : Path.dotless ns = n :: t') (e : Ending) (s : Bool) :
    fs'.walk e maxLinks [] (Path.names q ++ ns) s = fs'.walk e k l ns s := by
  refine (h.leads.mono hg).walk_append ?_
  rintro rfl
  cases hdot

/-- The first name that is not there is free, if it can be looked up at all. -/
theorem free (h : Missing fs p c q n t k l) (htidy : c.Tidy) (hs : screen c = .ok ())
    (hdir : fs.isDirAt l = true) (hshort : n.length ≤ maxName) : fs.get? (l ++ [n]) = none := by
  obtain ⟨dots, hdots, hns⟩ := h.part.names_of_tidy htidy
  cases hget : fs.get? (l ++ [n]) with
  | none => rfl
  | some o =>
    have hslash : (Route.ofPath c).slash = false := (htidy (by simp [hns])).1
    have hfound : fs.walkPath .keepLink c = .ok (.found (l ++ [n])) := by
      rw [walkPath, hns, h.leads.walk_append (by simp), walk_dots hdir hdots,
        walk_cons hdir h.part.notHere h.notUp, hget, hslash]
      cases o <;> simp [Nat.not_lt.mpr hshort, walk_nil]
    have := (exists?_iff h.absolute).mpr ⟨hs, _, hfound⟩
    rw [h.gone] at this; cases this

/-- The paths whose directories are made: those between `p` and `c`, `q`, and those above it. -/
def OnWay (c q : Path) (t : List Name) (p' : Path) : Prop :=
  p'.isAbsolute = true ∧
    ((∃ t', t' <+: t ∧ Path.Climb p' t' c) ∨ ∃ rest, Path.names q = Path.names p' ++ rest)

theorem OnWay.up (h : Missing fs p c q n t k l) {p' r : Path} (hw : OnWay c q t p')
    (hr : p'.parent? = some r) : OnWay c q t r := by
  obtain ⟨hp', hw⟩ := hw
  obtain ⟨m, part⟩ := Path.parent?_spec hp' hr
  refine ⟨part.absolute, ?_⟩
  rcases hw with ⟨t', ht', hclimb⟩ | ⟨rest, hrest⟩
  · cases hclimb with
    | refl =>
      rw [h.up] at hr
      cases hr
      exact Or.inr ⟨[], by simp⟩
    | step hup _ hclimb =>
      rw [hr] at hup
      cases hup
      exact Or.inl ⟨_, (List.prefix_append ..).trans ht', hclimb⟩
  · obtain ⟨ns, hns, -⟩ := part.dotless
    exact Or.inr ⟨ns ++ rest, by rw [hrest, hns, List.append_assoc]⟩

theorem onWay_parent (h : Missing fs p c q n t k l) (hp : p.isAbsolute = true) (hr : p.parent? = some r) :
    OnWay c q t r :=
  OnWay.up h ⟨hp, Or.inl ⟨t, List.prefix_rfl, h.climb⟩⟩ hr

/-- A walk over such a path succeeds only if the first missing name can be looked up, and goes where the
names say as long as they lead to directories or to nothing. -/
theorem walk_spec (h : Missing fs p c q n t k l) (hg : Grows fs fs') {p' : Path} {t' : List Name}
    {e : Ending} {s : Bool} {pl : Place} (ht' : t' <+: t) (hclimb : Path.Climb p' t' c)
    (hp' : p'.isAbsolute = true) (hs : screen p' = .ok ())
    (hw : fs'.walk e maxLinks [] (Path.names p') s = .ok pl) :
    screen c = .ok () ∧ fs'.isDirAt l = true ∧ n.length ≤ maxName ∧
      (Plain fs' l (n :: t) → pl.target = l ++ n :: t') := by
  obtain ⟨hpre, ns, hns, hdot, hnoup⟩ := h.names_of_climb hclimb hp'
  rw [hns, h.walk_eq hg hdot] at hw
  obtain ⟨hdir, hshort⟩ := dir_short_of_walk hdot h.notUp hw
  have hc : c ≠ [] := by
    intro hc
    have := h.absolute
    rw [hc] at this; cases this
  refine ⟨screen_of_longer hpre hc hs, hdir, hshort, fun hplain => ?_⟩
  rw [← hdot]
  refine walk_plain (fun s hs => ?_) hnoup hw
  exact hplain s (hs.trans (by rw [hdot]; exact List.cons_prefix_cons.mpr ⟨rfl, ht'⟩))

/-- What a directory that is made on the way tells. -/
theorem make_spec (h : Missing fs p c q n t k l) (hg : Grows fs fs') {p' : Path} {d : Location} {m : Name}
    (hw : OnWay c q t p') (hf : FreeAt fs' p' d m) :
    screen c = .ok () ∧ fs'.isDirAt l = true ∧ n.length ≤ maxName ∧
      (Plain fs' l (n :: t) → ∃ t', t' <+: t ∧ d ++ [m] = l ++ n :: t') := by
  obtain ⟨hp', ⟨t', ht', hclimb⟩ | ⟨rest, hrest⟩⟩ := hw
  · obtain ⟨hs, hdir, hshort, htarget⟩ := h.walk_spec hg ht' hclimb hp' hf.screened hf.walk
    exact ⟨hs, hdir, hshort, fun hplain => ⟨t', ht', htarget hplain⟩⟩
  · obtain ⟨x, hx⟩ := h.found
    exact absurd hx (hf.not_found hg hrest)

/-- If the first missing name cannot be looked up, no directory is made. -/
theorem createDirAll_of_blocked (h : Missing fs p c q n t k l) (hw : OnWay c q t r)
    (hblocked : ¬ (screen c = .ok () ∧ fs.isDirAt l = true ∧ n.length ≤ maxName)) :
    (fs.createDirAll r).1 = fs := by
  refine createDirAll_induct (P := (· = fs)) (W := OnWay c q t) ?_ (fun _ _ => OnWay.up h) rfl hw
  rintro _ p' fs' rfl hw hmake
  obtain ⟨d, m, hf, -⟩ := createDir_spec hw.1 hmake
  obtain ⟨hs, hdir, hshort, -⟩ := h.make_spec (Grows.refl _) hw hf
  exact absurd ⟨hs, hdir, hshort⟩ hblocked

/-- What the making of directories has done at any time: it has added directories on the way from `l` by
the names `s`, and nothing else. -/
structure Sprouted (fs : FileSystem) (l : Location) (s : List Name) (fs' : FileSystem) : Prop where
  tree : fs'.IsTree
  grows : Grows fs fs'
  plain : Plain fs' l s
  added : ∀ x o, fs.get? x = none → fs'.get? x = some o → o = .dir ∧ ∃ t', t' ≠ [] ∧ t' <+: s ∧ x = l ++ t'

theorem plain_of_free (ht : fs.IsTree) (hfree : fs.get? (l ++ [n]) = none) : Plain fs l (n :: t) := by
  intro t' ht' hne
  obtain ⟨m, t', rfl⟩ := List.exists_cons_of_ne_nil hne
  obtain ⟨rfl, -⟩ := List.cons_prefix_cons.mp ht'
  exact Or.inl (ht.get?_behind hfree t')

/-- A root that is there is not behind a free place, and so the way from that place is inside the root, if
its end is. -/
theorem inside_of_free (ht : fs.IsTree) (hr : fs.isDirAt root = true) (hfree : fs.get? (l ++ [n]) = none)
    (hin : root <+: l ++ n :: t) {t' : List Name} (ht' : t' <+: t) : Inside root (l ++ n :: t') := by
  have hpre : l ++ n :: t' <+: l ++ n :: t :=
    (List.prefix_append_right_inj l).mpr (List.cons_prefix_cons.mpr ⟨rfl, ht'⟩)
  have hfirst : l ++ [n] <+: l ++ n :: t' := ⟨t', by simp⟩
  have hnot : ¬ l ++ [n] <+: root := by
    intro hp
    by_cases heq : l ++ [n] = root
    · rw [← heq, isDirAt_iff, hfree] at hr; cases hr
    · have hdir := ht.isDirAt_above (isDirAt_iff.mp hr) hp heq
      rw [isDirAt_iff, hfree] at hdir; cases hdir
  refine ⟨(List.prefix_or_prefix_of_prefix hin hpre).resolve_right fun h => hnot (hfirst.trans h), ?_⟩
  intro heq
  exact hnot (heq ▸ hfirst)

theorem createDirAll_of_free (h : Missing fs p c q n t k l) (ht : fs.IsTree)
    (hfree : fs.get? (l ++ [n]) = none) (hw : OnWay c q t r) :
    Sprouted fs l (n :: t) (fs.createDirAll r).1 := by
  refine createDirAll_induct (P := Sprouted fs l (n :: t)) (W := OnWay c q t) ?_ (fun _ _ => OnWay.up h)
    ⟨ht, Grows.refl _, plain_of_free ht hfree, fun x o hnone hget => by rw [hnone] at hget; cases hget⟩ hw
  intro fs₁ p' fs₂ hs hw hmake
  obtain ⟨d, m, hf, rfl⟩ := createDir_spec hw.1 hmake
  obtain ⟨-, -, -, htarget⟩ := h.make_spec hs.grows hw hf
  obtain ⟨t', ht', heq⟩ := htarget hs.plain
  refine ⟨hf.put_isTree hs.tree, hs.grows.put (by simp) hf.free, fun s hpre hne => ?_, fun x o hnone hget => ?_⟩
  · rw [get?_put _ _ _ _ (by simp)]
    split
    · exact Or.inr rfl
    · exact hs.plain s hpre hne
  · rw [get?_put _ _ _ _ (by simp)] at hget
    split at hget
    · cases hget
      exact ⟨rfl, n :: t', by simp, List.cons_prefix_cons.mpr ⟨rfl, ht'⟩, by rw [‹x = _›, heq]⟩
    · exact hs.added x o hnone hget

/-- Directories that are made on the way from a free place to the inside of the root are all inside. -/
theorem Sprouted.kept (h : Sprouted fs l (n :: t) fs') (ht : fs.IsTree) (hr : fs.isDirAt root = true)
    (hfree : fs.get? (l ++ [n]) = none) (hin : root <+: l ++ n :: t) : Kept root fs fs' := by
  refine ⟨fun x hx => ?_, h.tree⟩
  cases hold : fs.get? x with
  | some o => exact h.grows x o hold
  | none =>
    cases hnew : fs'.get? x with
    | none => rfl
    | some o =>
      obtain ⟨-, s, hne, hpre, rfl⟩ := h.added x o hold hnew
      obtain ⟨m, t', rfl⟩ := List.exists_cons_of_ne_nil hne
      obtain ⟨rfl, ht'⟩ := List.cons_prefix_cons.mp hpre
      exact absurd (inside_of_free ht hr hfree hin ht') hx

end Missing

/-- Above something that is there no directory is made. -/
theorem createDirAll_above (hr : r.isAbsolute = true) (hn : ∃ rest, Path.names q = Path.names r ++ rest)
    (hq : ∃ x, fs.walkPath .keepLink q = .ok (.found x)) : (fs.createDirAll r).1 = fs := by
  obtain ⟨x, hx⟩ := hq
  refine createDirAll_induct (P := (· = fs))
    (W := fun p' => p'.isAbsolute = true ∧ ∃ rest, Path.names q = Path.names p' ++ rest) ?_ ?_ rfl ⟨hr, hn⟩
  · rintro _ p' fs' rfl ⟨hp', rest, hrest⟩ hmake
    obtain ⟨d, m, hf, -⟩ := createDir_spec hp' hmake
    exact absurd hx (hf.not_found (Grows.refl _) hrest)
  · rintro p' r' ⟨hp', rest, hrest⟩ hup
    obtain ⟨m, part⟩ := Path.parent?_spec hp' hup
    obtain ⟨ns, hns, -⟩ := part.dotless
    exact ⟨part.absolute, ns ++ rest, by rw [hrest, hns, List.append_assoc]⟩

/-! ## Writing a file -/

/-- A path that ends with a slash or with dots is never made as a file. -/
theorem isDirAt_of_untidy {pl : Place} (part : Path.Parting p q n) (hnu : n ≠ Path.up) (ht : ¬ p.Tidy)
    (hw : fs.walkPath .make p = .ok pl) : fs.isDirAt pl.target = true := by
  obtain ⟨dots, dots', hdots, hns⟩ := part.names
  unfold walkPath at hw
  rcases List.eq_nil_or_concat dots' with rfl | ⟨ds, d, rfl⟩
  · rw [hns, ← List.append_assoc] at hw
    cases hslash : (Route.ofPath p).slash with
    | true =>
      rw [hslash] at hw
      exact absurd hw (walk_make_slash part.notHere hnu)
    | false =>
      refine absurd (fun _ => ⟨hslash, ?_⟩) ht
      rw [hns, ← List.append_assoc, List.getLast?_concat]
      exact fun heq => part.notHere (Option.some.inj heq)
  · rw [hns, hdots d (by simp), List.concat_eq_append, ← List.cons_append, ← List.append_assoc,
      ← List.append_assoc] at hw
    obtain ⟨x, rfl, hdir⟩ := walk_dot_end hw
    exact hdir

theorem kept_writeFile {content : ByteArray} (ht : fs.IsTree) (hp : p.isAbsolute = true)
    (hin : ∀ pl, screen p = .ok () → fs.walkPath .make p = .ok pl → fs.isDirAt pl.target = false →
      Inside root pl.target)
    (h : fs.writeFile p content = .ok fs') : Kept root fs fs' := by
  unfold writeFile at h
  cases hl : fs.locateForWriting p with
  | error e => simp [hl, bind, Except.bind] at h
  | ok x =>
    simp only [hl, bind, Except.bind, pure, Except.pure] at h
    cases h
    obtain ⟨hs, ⟨pl, hw, rfl⟩, hne, hdir, hpar⟩ := locateForWriting_spec ht hp hl
    exact Kept.put (ht.put hne hdir hpar) hne (hin pl hs hw hdir)

/-- What the check tells of a path once the directories that it needs have been made. -/
inductive Cleared (root : Location) (fs : FileSystem) (p : Path) (fs₁ : FileSystem) : Prop where
  /-- The path leads to something that was there, in the root. -/
  | there {l : Location} (same : fs₁ = fs) (inRoot : root <+: l)
      (leads : fs.walkPath .follow p = .ok (.found l))
  /-- The path leads into the root by a free place, and directories have been made from there on. -/
  | free {l : Location} {n : Name} {t : List Name} (inRoot : root <+: l ++ n :: t)
      (free : fs.get? (l ++ [n]) = none) (sprouted : Missing.Sprouted fs l (n :: t) fs₁)
      (leads : ∀ pl, screen p = .ok () → fs₁.walkPath .make p = .ok pl → pl.target = l ++ n :: t)
  /-- Nothing has been made, and no file can be made at the path. -/
  | barred (same : fs₁ = fs)
      (leads : ∀ pl, screen p = .ok () → fs.walkPath .make p = .ok pl → fs.isDirAt pl.target = true)

theorem cleared_of_contains {w : Workspace} (ht : fs.IsTree) (hp : p.isAbsolute = true)
    (hparent : p.parent? = some r) (hc : w.contains fs p = .ok true) :
    Cleared w.root fs p (fs.createDirAll r).1 := by
  unfold contains at hc
  split at hc
  · cases hc
  rename_i q tail hanchor
  cases hcan : fs.canonicalize q with
  | error e => simp [hcan, bind, Except.bind] at hc
  | ok l =>
    have hin : w.root <+: l ++ tail := by
      simpa [hcan, bind, Except.bind, pure, Except.pure] using hc
    obtain ⟨hex, ⟨rfl, rfl⟩ | ⟨c, n, t, hclimb, hup, hname, hgone, rfl⟩⟩ := anchor_spec hanchor
    · rw [List.append_nil] at hin
      obtain ⟨m, part⟩ := Path.parent?_spec hp hparent
      obtain ⟨ns, hns, -⟩ := part.dotless
      exact .there (createDirAll_above part.absolute ⟨ns, hns⟩ ((exists?_iff hp).mp hex).2) hin
        ((locate_ok hp).mp hcan).2
    · rw [List.append_nil] at hin
      obtain ⟨k, miss⟩ := missing_of_anchor hp hclimb hup hname hgone hex hcan
      have hway := miss.onWay_parent hp hparent
      by_cases htidy : c.Tidy
      · by_cases hopen : screen c = .ok () ∧ fs.isDirAt l = true ∧ n.length ≤ maxName
        · have hfree := miss.free htidy hopen.1 hopen.2.1 hopen.2.2
          have hs := miss.createDirAll_of_free ht hfree hway
          refine .free hin hfree hs fun pl hscreen hw => ?_
          obtain ⟨-, -, -, htarget⟩ := miss.walk_spec hs.grows List.prefix_rfl hclimb hp hscreen hw
          exact htarget hs.plain
        · refine .barred (miss.createDirAll_of_blocked hway hopen) fun pl hscreen hw => absurd ?_ hopen
          obtain ⟨hs, hdir, hshort, -⟩ := miss.walk_spec (Grows.refl _) List.prefix_rfl hclimb hp hscreen hw
          exact ⟨hs, hdir, hshort⟩
      · obtain ⟨rfl, rfl⟩ := miss.tidy.resolve_right htidy
        rw [hup] at hparent
        cases hparent
        exact .barred (createDirAll_above miss.part.absolute ⟨[], by simp⟩ miss.found) fun pl _ hw =>
          isDirAt_of_untidy miss.part miss.notUp htidy hw

/-- Making the directories a path needs and writing a file at it stays inside the root if the check has
passed. -/
theorem kept_of_contains {w : Workspace} (content : ByteArray) (ht : fs.IsTree)
    (hr : fs.isDirAt w.root = true) (hp : p.isAbsolute = true) (hparent : p.parent? = some r)
    (hc : w.contains fs p = .ok true) :
    Kept w.root fs (fs.createDirAll r).1 ∧
      ∀ fs', FileSystem.writeFile (fs.createDirAll r).1 p content = .ok fs' →
        Kept w.root (fs.createDirAll r).1 fs' := by
  cases cleared_of_contains ht hp hparent hc with
  | @there l same hin leads =>
    rw [same]
    refine ⟨Kept.refl ht, fun fs' => kept_writeFile ht hp fun pl _ hw hdir => ?_⟩
    have hfollow : fs.walkPath .follow p = .ok pl := walk_follow_of_make hw
    rw [leads] at hfollow
    cases hfollow
    refine ⟨hin, fun heq => ?_⟩
    have hdir : fs.isDirAt l = false := hdir
    have heq : l = w.root := heq
    rw [heq, hr] at hdir; cases hdir
  | free hin hfree hs leads =>
    refine ⟨hs.kept ht hr hfree hin, fun fs' => kept_writeFile hs.tree hp fun pl hscreen hw _ => ?_⟩
    rw [leads pl hscreen hw]
    exact Missing.inside_of_free ht hr hfree hin List.prefix_rfl
  | barred same leads =>
    rw [same]
    refine ⟨Kept.refl ht, fun fs' => kept_writeFile ht hp fun pl hscreen hw hdir => ?_⟩
    rw [leads pl hscreen hw] at hdir; cases hdir

/-! ## The tools -/

theorem isAbsolute_pathOf (w : Workspace) (path : String) : (w.pathOf path).isAbsolute = true := by
  unfold pathOf Path.join
  obtain ⟨r, hr⟩ := Path.exists_cons_of_isAbsolute (Path.isAbsolute_location w.root)
  split
  · assumption
  · rw [hr]
    split
    · simp at *
    · split <;> rw [List.cons_append] <;> exact Path.isAbsolute_cons _

theorem kept_fileWrite (w : Workspace) (ht : fs.IsTree) (hr : fs.isDirAt w.root = true)
    (path content : String) : Kept w.root fs (w.fileWrite fs path content).1 := by
  have hp := w.isAbsolute_pathOf path
  have hend := w.fileWrite_end fs path content
  generalize w.fileWrite fs path content = result at hend
  cases hend with
  | refused text => exact Kept.refl ht
  | stuck above inside text => exact (kept_of_contains content.toUTF8 ht hr hp above inside).1
  | done above inside dirs write =>
    obtain ⟨hmake, hwrite⟩ := kept_of_contains content.toUTF8 ht hr hp above inside
    rw [dirs] at hmake hwrite
    exact hmake.trans (hwrite _ write)

/-- One call of a tool changes nothing outside the root, and leaves a tree. -/
theorem kept_execute (w : Workspace) (ht : fs.IsTree) (hr : fs.isDirAt w.root = true) (tool : String)
    (args : Dict Json) : Kept w.root fs (w.execute fs tool args).1 :=
  execute_keeps (P := Kept w.root fs) (Kept.refl ht) (w.kept_fileWrite ht hr) tool args

/-- The tree after some calls of tools, one after the other. -/
def executeAll (w : Workspace) (fs : FileSystem) : List (String × Dict Json) → FileSystem
  | [] => fs
  | (tool, args) :: rest => w.executeAll (w.execute fs tool args).1 rest

theorem kept_executeAll (w : Workspace) (ht : fs.IsTree) (hr : fs.isDirAt w.root = true)
    (calls : List (String × Dict Json)) : Kept w.root fs (w.executeAll fs calls) := by
  induction calls generalizing fs with
  | nil => exact Kept.refl ht
  | cons call rest ih =>
    have hstep := w.kept_execute ht hr call.1 call.2
    exact hstep.trans (ih hstep.tree (hstep.isDirAt_root hr))

/-! ## Refusals -/

/-- The answer that a path is outside the workspace. -/
def outside (path : String) : String :=
  failure ("file_write: path '" ++ path ++ "' is outside the workspace directory")

/-- The answer that a path could not be resolved. -/
def unresolved (e : OsError) : String := failure ("file_write: failed to resolve path: " ++ e.message)

theorem failure_inj {a b : String} (h : failure a = failure b) : a = b := Json.text_eq_of_compact_eq h

theorem head_description {m : Nat} {text : String} (h : OsError.descriptions.lookup m = some text) :
    (Utf8.bytes text).head?.any (fun b => b ≠ 112 ∧ b ≠ 102) = true := by
  have hall : ∀ d ∈ OsError.descriptions,
      (Utf8.bytes d.2).head?.any (fun b => b ≠ 112 ∧ b ≠ 102) = true := by decide +kernel
  obtain ⟨front, behind, heq, -⟩ := List.lookup_eq_some_iff.mp h
  exact hall (m, text) (by rw [heq]; simp)

/-- The messages of the system do not begin like the text of a refusal. -/
theorem message_ne (e : OsError) (rest : String) :
    e.message ≠ "path '" ++ rest ∧ e.message ≠ "failed to " ++ rest := by
  cases e with
  | code m =>
    have hhead : (Utf8.bytes (OsError.code m).message).head?.any (fun b => b ≠ 112 ∧ b ≠ 102) = true := by
      simp only [OsError.message, Utf8.bytes_append, List.append_assoc, List.head?_append]
      cases hl : OsError.descriptions.lookup m with
      | none =>
        rw [Option.getD_none, Utf8.bytes_append]
        rfl
      | some text =>
        have htext := head_description hl
        cases hh : (Utf8.bytes text).head? with
        | none => rw [hh] at htext; cases htext
        | some b =>
          rw [hh] at htext
          simpa [hh] using htext
    have hpath : (Utf8.bytes "path '").head? = some 112 := rfl
    have hfailed : (Utf8.bytes "failed to ").head? = some 102 := rfl
    constructor <;> intro h <;> rw [h, Utf8.bytes_append, List.head?_append] at hhead
    · rw [hpath] at hhead; cases hhead
    · rw [hfailed] at hhead; cases hhead
  | nulInName => constructor <;> intro h <;> have := congrArg String.toList h <;> simp [OsError.message] at this
  | notText => constructor <;> intro h <;> have := congrArg String.toList h <;> simp [OsError.message] at this

/-- A write that is refused leaves the tree as it is. -/
theorem fileWrite_refused (w : Workspace) (fs : FileSystem) (path content : String)
    (h : (∃ p, (w.fileWrite fs path content).2 = outside p) ∨
      ∃ e, (w.fileWrite fs path content).2 = unresolved e) :
    (w.fileWrite fs path content).1 = fs := by
  simp only [fileWrite] at h ⊢
  split
  · rfl
  rename_i parent hparent
  simp only [hparent] at h
  split
  · rfl
  · rfl
  · rename_i hc
    simp only [hc] at h
    exfalso
    split at h
    · rename_i e heq
      rcases h with ⟨p, h⟩ | ⟨e', h⟩ <;> have := congrArg String.toList (failure_inj h) <;> simp at this
    · split at h
      · rename_i e _
        rcases h with ⟨p, h⟩ | ⟨e', h⟩
        · have heq : "file_write: " ++ e.message =
              "file_write: " ++ ("path '" ++ (p ++ "' is outside the workspace directory")) := by
            rw [failure_inj h, ← String.append_assoc, ← String.append_assoc]; rfl
          exact (message_ne e _).1 ((String.append_right_inj _).mp heq)
        · have heq : "file_write: " ++ e.message =
              "file_write: " ++ ("failed to " ++ ("resolve path: " ++ e'.message)) := by
            rw [failure_inj h, ← String.append_assoc, ← String.append_assoc]; rfl
          exact (message_ne e _).2 ((String.append_right_inj _).mp heq)
      · rcases h with ⟨p, h⟩ | ⟨e', h⟩ <;>
          exact absurd (Json.head_key_eq_of_compact_eq h) (by decide)

theorem execute_refused (w : Workspace) (fs : FileSystem) (tool : String) (args : Dict Json)
    (h : (∃ p, (w.execute fs tool args).2 = .ok (outside p)) ∨
      ∃ e, (w.execute fs tool args).2 = .ok (unresolved e)) :
    (w.execute fs tool args).1 = fs := by
  simp only [execute] at h ⊢
  split
  · split <;> rfl
  rename_i hread
  simp only [hread, if_false] at h
  split
  · rename_i hwrite
    simp only [hwrite, if_true] at h
    split
    · rfl
    rename_i path hpath
    split
    · rfl
    rename_i content hcontent
    simp only [← hwrite, hpath, hcontent, Except.ok.injEq] at h
    exact w.fileWrite_refused fs path content h
  split <;> rfl

/-- Whatever tools are called in a workspace, and with whatever arguments, nothing outside its root is made,
removed or changed, and a write that is answered with a refusal changes nothing at all. -/
theorem execute_confined (w : Workspace) (ht : fs.IsTree) (hr : fs.isDirAt w.root = true)
    (calls : List (String × Dict Json)) :
    (∀ l, ¬ Inside w.root l → (w.executeAll fs calls).get? l = fs.get? l) ∧
    ∀ tool args, ((∃ path, (w.execute (w.executeAll fs calls) tool args).2 = .ok (outside path)) ∨
        ∃ e, (w.execute (w.executeAll fs calls) tool args).2 = .ok (unresolved e)) →
      (w.execute (w.executeAll fs calls) tool args).1 = w.executeAll fs calls :=
  ⟨(w.kept_executeAll ht hr calls).outside, fun tool args => w.execute_refused _ tool args⟩

/-- A workspace `/w` with a link `l` to `/o`, where a file `s` stands. -/
def linkedOut : FileSystem where
  objects := [([[119]], .dir), ([[111]], .dir), ([[111], [115]], .file ⟨#[1]⟩), ([[119], [108]], .link [47, 111])]

theorem linkedOut_isTree : linkedOut.IsTree := by
  intro l o hl hget
  rw [get?, if_neg hl] at hget
  obtain ⟨front, behind, heq, -⟩ := List.lookup_eq_some_iff.mp hget
  have hmem : (l, o) ∈ linkedOut.objects := by rw [heq]; simp
  simp only [linkedOut, List.mem_cons, Prod.mk.injEq, List.not_mem_nil, or_false] at hmem
  rcases hmem with ⟨rfl, -⟩ | ⟨rfl, -⟩ | ⟨rfl, -⟩ | ⟨rfl, -⟩ <;> rfl

theorem execute_confined_linkedOut :
    linkedOut.IsTree ∧ linkedOut.isDirAt [[119]] = true ∧
    (executeAll ⟨[[119]]⟩ linkedOut [("file_write", [("path", .str "l/s"), ("content", .str "")]),
      ("file_write", [("path", .str "../o/s"), ("content", .str "")])]).get? [[111], [115]] =
        some (.file ⟨#[1]⟩) := by
  have hroot : linkedOut.isDirAt [[119]] = true := rfl
  refine ⟨linkedOut_isTree, hroot, ?_⟩
  obtain ⟨houtside, -⟩ := execute_confined ⟨[[119]]⟩ linkedOut_isTree hroot
    [("file_write", [("path", .str "l/s"), ("content", .str "")]),
      ("file_write", [("path", .str "../o/s"), ("content", .str "")])]
  exact (houtside _ fun h => absurd h.1 (by decide)).trans rfl

end Workspace

end Overseer

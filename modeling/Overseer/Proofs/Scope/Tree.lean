import Overseer.Scope

/-!
# Scopes form a tree

Scopes are made on tokens of their own, on tokens that other scopes have, and below other scopes; they are
cancelled, and time passes. A family keeps all scopes that have been made, each with its origin, and the
numbers of those that have been cancelled.

* `Family.Under`: a scope has the token of another or one below it, as their origins tell.
* `Family.Traced`: what tokens and deadlines have from their origins, kept by every act.
* `Traced.under_iff`: the tokens above a scope are those of the scopes that it is under.
* `Family.Lawful`, `Family.Keeps`: what holds at any time, and of any act.
* `scopes_form_tree`: both hold after any acts.
-/
namespace Overseer.Scope

/-- What is done with a scope. -/
inductive Op where
  /-- A scope without a deadline is made on its token. -/
  | share
  | clone
  | withDeadline (deadline : Instant)
  | child (timeout : Duration)
  | cancel

inductive Act where
  /-- A scope is made on a token of its own. -/
  | new
  /-- Something is done with the scope of a number. -/
  | on (i : Nat) (op : Op)
  | wait (nanos : Nat)

/-- How a scope was made, and from which one. -/
inductive Origin where
  | own
  | shared (i : Nat)
  | cloned (i : Nat)
  | dated (i : Nat) (deadline : Instant)
  | child (i : Nat) (made : Instant) (timeout : Duration)
  deriving DecidableEq, Repr

/-- The scope whose token a scope was made on. -/
def Origin.alias? : Origin → Option Nat
  | .shared i | .cloned i | .dated i _ => some i
  | .own | .child _ _ _ => none

/-- The scope below which a scope was made. -/
def Origin.parent? : Origin → Option Nat
  | .child i _ _ => some i
  | .own | .shared _ | .cloned _ | .dated _ _ => none

/-- All scopes that have been made, in order, and the numbers of those that have been cancelled. -/
structure Family where
  now : Instant
  signals : Signals := {}
  members : List (Origin × Scope) := []
  cancelled : List Nat := []

/-- The nodes of the forest from a scope's token upwards. -/
def path (s : Scope) : List Nat := s.token.key :: s.token.above

theorem isCancelled_iff {s : Scope} {signals : Signals} : s.isCancelled signals = true ↔ ∃ k ∈ s.path, k ∈ signals.raised := by
  simp [isCancelled, Signals.isCancelled, path]

theorem isExpired_iff {s : Scope} {now : Instant} : s.isExpired now = true ↔ ∃ d, s.deadline = some d ∧ d ≤ now := by
  unfold isExpired
  cases s.deadline with
  | none => simp
  | some d => simp

namespace Family

def empty (now : Instant) : Family := { now }

def scope? (f : Family) (i : Nat) : Option Scope := f.members[i]?.map Prod.snd

def origin? (f : Family) (i : Nat) : Option Origin := f.members[i]?.map Prod.fst

def add (f : Family) (o : Origin) (s : Scope) : Family := { f with members := f.members ++ [(o, s)] }

/-- Does something with the scope `s` of number `i`. A child whose deadline the clock cannot show is not
made. -/
def perform (f : Family) (i : Nat) (s : Scope) : Op → Family
  | .share => f.add (.shared i) (.ofToken s.token)
  | .clone => f.add (.cloned i) s
  | .withDeadline d => f.add (.dated i d) (s.withDeadline d)
  | .child timeout =>
    match s.child? f.signals f.now timeout with
    | none => f
    | some (c, signals) => { f with signals }.add (.child i f.now timeout) c
  | .cancel => { f with signals := s.cancel f.signals, cancelled := i :: f.cancelled }

/-- The family after an act. On a scope that is not there nothing can be done. -/
def next (f : Family) : Act → Family
  | .new =>
    match Scope.root f.signals with
    | (s, signals) => { f with signals }.add .own s
  | .on i op =>
    match f.scope? i with
    | none => f
    | some s => f.perform i s op
  | .wait nanos => { f with now := f.now + nanos }

/-- The family after some acts. -/
def run (f : Family) (acts : List Act) : Family := acts.foldl next f

/-! ## What origins tell -/

/-- The scope `i` has the token of `j` or one below it. -/
inductive Under (f : Family) : Nat → Nat → Prop where
  | refl {i : Nat} {s : Scope} (h : f.scope? i = some s) : Under f i i
  | same {i i' j : Nat} {o : Origin} (origin : f.origin? i = some o) (source : o.alias? = some i')
      (h : Under f i' j) : Under f i j
  | child {i p j : Nat} {o : Origin} (origin : f.origin? i = some o) (parent : o.parent? = some p)
      (h : Under f p j) : Under f i j
  /-- What is under a scope is under those made on its token. -/
  | ofSame {i j j' : Nat} {o : Origin} (origin : f.origin? j = some o) (source : o.alias? = some j')
      (h : Under f i j') : Under f i j

/-- The scope `i` comes from `j` by a chain of children. Clones are as good as the scope itself. -/
inductive Derived (f : Family) : Nat → Nat → Prop where
  | refl (i : Nat) : Derived f i i
  | clone {i i' j : Nat} (origin : f.origin? i = some (.cloned i')) (h : Derived f i' j) : Derived f i j
  | child {i p j : Nat} {made : Instant} {timeout : Duration} (origin : f.origin? i = some (.child p made timeout))
      (h : Derived f p j) : Derived f i j

/-- The earlier of a deadline that a parent may have and the one that a child would have by itself. -/
def deadlineUnder (parent : Option Instant) (own : Instant) : Instant := parent.elim own (min · own)

/-- What the scope `s` of number `i` has from its origin. -/
def Gives (f : Family) (i : Nat) (s : Scope) : Origin → Prop
  | .own => s.token.above = [] ∧ s.deadline = none
  | .shared j => ∃ s', j < i ∧ f.scope? j = some s' ∧ s.token = s'.token ∧ s.deadline = none
  | .cloned j => ∃ s', j < i ∧ f.scope? j = some s' ∧ s.token = s'.token ∧ s.deadline = s'.deadline
  | .dated j d => ∃ s', j < i ∧ f.scope? j = some s' ∧ s.token = s'.token ∧ s.deadline = some d
  | .child j made timeout => ∃ s', j < i ∧ f.scope? j = some s' ∧ s.token.above = s'.path ∧
      s.deadline = some (deadlineUnder s'.deadline (made + timeout.nanos))

/-- All that tokens and deadlines have is from their origins. A scope that is not made on the token of
another has a token later than all before it. -/
structure Traced (f : Family) : Prop where
  gives (i : Nat) (o : Origin) (s : Scope) (h : f.members[i]? = some (o, s)) : f.Gives i s o
  fresh (i : Nat) (o : Origin) (s : Scope) (h : f.members[i]? = some (o, s)) : s.token.key < f.signals.fresh
  apart (i j : Nat) (o o' : Origin) (s s' : Scope) (hi : f.members[i]? = some (o, s))
    (hj : f.members[j]? = some (o', s')) (hlt : i < j) (own : o'.alias? = none) : s.token.key < s'.token.key
  raised (k : Nat) (h : k ∈ f.signals.raised) : ∃ i ∈ f.cancelled, ∃ s, f.scope? i = some s ∧ s.token.key = k
  called (i : Nat) (h : i ∈ f.cancelled) : ∃ s, f.scope? i = some s ∧ s.token.key ∈ f.signals.raised

section

variable {f : Family} {i j k : Nat} {o : Origin} {s s' c : Scope}

theorem earlier_eq (parent : Option Instant) (own : Instant) : earlier parent own = deadlineUnder parent own := by
  cases parent with
  | none => rfl
  | some d =>
    simp only [earlier, deadlineUnder, Option.elim_some]
    split
    · exact (Nat.min_eq_left (Nat.le_of_lt ‹_›)).symm
    · exact (Nat.min_eq_right (Nat.not_lt.mp ‹_›)).symm

theorem scope?_eq_some : f.scope? i = some s ↔ ∃ o, f.members[i]? = some (o, s) := by
  simp [scope?, Option.map_eq_some_iff]

theorem origin?_eq_some : f.origin? i = some o ↔ ∃ s, f.members[i]? = some (o, s) := by
  simp [origin?, Option.map_eq_some_iff]

theorem scope?_add (h : f.scope? i = some s) (o : Origin) (c : Scope) : (f.add o c).scope? i = some s := by
  obtain ⟨o', hi⟩ := scope?_eq_some.mp h
  exact scope?_eq_some.mpr ⟨o', (List.getElem?_append_left (List.getElem?_eq_some_iff.mp hi).1).trans hi⟩

theorem member_add {o' : Origin} (h : (f.add o c).members[i]? = some (o', s)) :
    f.members[i]? = some (o', s) ∨ i = f.members.length ∧ o' = o ∧ s = c := by
  rcases Nat.lt_or_ge i f.members.length with hi | hi
  · rw [add, List.getElem?_append_left hi] at h
    exact Or.inl h
  · rw [add, List.getElem?_append_right hi] at h
    obtain ⟨hlt, heq⟩ := List.getElem?_eq_some_iff.mp h
    have hi' : i = f.members.length := by simp at hlt; omega
    simp only [hi', Nat.sub_self, List.getElem_cons_zero, Prod.mk.injEq] at heq
    exact Or.inr ⟨hi', heq.1.symm, heq.2.symm⟩

/-- What an origin gives is there when more scopes have been made. -/
theorem Gives.mono {f' : Family} (h : f.Gives i s o) (hsub : ∀ j c, f.scope? j = some c → f'.scope? j = some c) :
    f'.Gives i s o := by
  cases o with
  | own => exact h
  | shared | cloned | dated | child =>
    obtain ⟨s', hj, hs', hrest⟩ := h
    exact ⟨s', hj, hsub _ _ hs', hrest⟩

/-- On the token of another scope. -/
theorem Gives.alias (h : f.Gives i s o) (source : o.alias? = some j) :
    ∃ s', j < i ∧ f.scope? j = some s' ∧ s.token = s'.token := by
  cases o with
  | own | child => cases source
  | shared | cloned | dated =>
    cases source
    obtain ⟨s', hj, hs', htoken, -⟩ := h
    exact ⟨s', hj, hs', htoken⟩

/-- On a token below that of another scope. -/
theorem Gives.parent (h : f.Gives i s o) (parent : o.parent? = some j) :
    ∃ s', j < i ∧ f.scope? j = some s' ∧ s.token.above = s'.path := by
  cases o with
  | own | shared | cloned | dated => cases parent
  | child =>
    cases parent
    obtain ⟨s', hj, hs', habove, -⟩ := h
    exact ⟨s', hj, hs', habove⟩

/-! ## Acts -/

/-- One more scope is made. -/
theorem Traced.add {signals : Signals} (hf : f.Traced) (hgives : f.Gives f.members.length c o)
    (hraised : signals.raised = f.signals.raised) (hfresh : f.signals.fresh ≤ signals.fresh)
    (hkey : c.token.key < signals.fresh) (hlater : o.alias? = none → f.signals.fresh ≤ c.token.key) :
    ({ f with signals }.add o c).Traced := by
  have hsub : ∀ j s, f.scope? j = some s → ({ f with signals }.add o c).scope? j = some s :=
    fun j s hs => scope?_add (f := { f with signals }) hs o c
  refine ⟨fun i o' s hi => ?_, fun i o' s hi => ?_, fun i j o₁ o₂ s₁ s₂ hi hj hij hnone => ?_, fun k hk => ?_,
    fun i hi => ?_⟩
  · rcases member_add hi with hi | ⟨rfl, rfl, rfl⟩
    · exact (hf.gives i o' s hi).mono hsub
    · exact hgives.mono hsub
  · rcases member_add hi with hi | ⟨rfl, rfl, rfl⟩
    · exact Nat.lt_of_lt_of_le (hf.fresh i o' s hi) hfresh
    · exact hkey
  · have hlt : i < f.members.length := by
      have hj' := (List.getElem?_eq_some_iff.mp hj).1
      simp only [Family.add, List.length_append, List.length_singleton] at hj'
      omega
    rcases member_add hi with hold | ⟨rfl, -, -⟩
    · rcases member_add hj with hj | ⟨rfl, rfl, rfl⟩
      · exact hf.apart i j o₁ o₂ s₁ s₂ hold hj hij hnone
      · exact Nat.lt_of_lt_of_le (hf.fresh i o₁ s₁ hold) (hlater hnone)
    · exact absurd hlt (Nat.lt_irrefl _)
  · rw [Family.add, hraised] at hk
    obtain ⟨i, hi, s, hs, heq⟩ := hf.raised k hk
    exact ⟨i, hi, s, hsub i s hs, heq⟩
  · obtain ⟨s, hs, hk⟩ := hf.called i hi
    exact ⟨s, hsub i s hs, hraised ▸ hk⟩

theorem Traced.next (hf : f.Traced) (a : Act) : (f.next a).Traced := by
  cases a with
  | new =>
    exact hf.add (o := .own) ⟨rfl, rfl⟩ rfl (Nat.le_succ _) (Nat.lt_succ_self _) fun _ => Nat.le_refl _
  | wait nanos => exact ⟨hf.gives, hf.fresh, hf.apart, hf.raised, hf.called⟩
  | on i op =>
    simp only [Family.next]
    split
    · exact hf
    rename_i s hs
    obtain ⟨o, hmem⟩ := scope?_eq_some.mp hs
    have hlt : i < f.members.length := (List.getElem?_eq_some_iff.mp hmem).1
    have hkey : s.token.key < f.signals.fresh := hf.fresh i o s hmem
    -- a scope made on the token of `s`
    have reuse {o' : Origin} {c : Scope} (hc : c.token = s.token) (ho : o'.alias? = some i)
        (hgives : f.Gives f.members.length c o') : (f.add o' c).Traced :=
      hf.add hgives rfl (Nat.le_refl _) (hc ▸ hkey) fun hnone => by rw [ho] at hnone; cases hnone
    cases op with
    | share => exact reuse rfl rfl ⟨s, hlt, hs, rfl, rfl⟩
    | clone => exact reuse rfl rfl ⟨s, hlt, hs, rfl, rfl⟩
    | withDeadline d => exact reuse rfl rfl ⟨s, hlt, hs, rfl, rfl⟩
    | child timeout =>
      simp only [perform, child?]
      split
      · exact hf
      rename_i heq
      split at heq
      · cases heq
      rename_i own hown
      cases heq
      have hown' : own = f.now + timeout.nanos := by
        simp only [Instant.after?] at hown
        split at hown <;> cases hown
        rfl
      exact hf.add (o := .child i f.now timeout) ⟨s, hlt, hs, rfl, by rw [hown', earlier_eq]⟩ rfl (Nat.le_succ _)
        (Nat.lt_succ_self _) fun _ => Nat.le_refl _
    | cancel =>
      refine ⟨hf.gives, hf.fresh, hf.apart, fun k hk => ?_, fun j hj => ?_⟩
      · rcases List.mem_cons.mp hk with rfl | hk
        · exact ⟨i, List.mem_cons_self, s, hs, rfl⟩
        · obtain ⟨j, hj, hrest⟩ := hf.raised k hk
          exact ⟨j, List.mem_cons_of_mem _ hj, hrest⟩
      · rcases List.mem_cons.mp hj with rfl | hj
        · exact ⟨s, hs, List.mem_cons_self⟩
        · obtain ⟨s', hs', hk⟩ := hf.called j hj
          exact ⟨s', hs', List.mem_cons_of_mem _ hk⟩

theorem Traced.run (hf : f.Traced) (acts : List Act) : (f.run acts).Traced := by
  induction acts generalizing f with
  | nil => exact hf
  | cons a acts ih => exact ih (hf.next a)

/-! ## The tree -/

/-- A scope made on the token of another. -/
theorem Traced.path_of_alias (hf : f.Traced) (origin : f.origin? i = some o) (source : o.alias? = some j) :
    ∃ s s', f.scope? i = some s ∧ f.scope? j = some s' ∧ j < i ∧ s.path = s'.path := by
  obtain ⟨s, hmem⟩ := origin?_eq_some.mp origin
  obtain ⟨s', hlt, hs', htoken⟩ := (hf.gives i o s hmem).alias source
  exact ⟨s, s', scope?_eq_some.mpr ⟨o, hmem⟩, hs', hlt, by rw [path, path, htoken]⟩

/-- A scope made below another. -/
theorem Traced.path_of_parent (hf : f.Traced) (origin : f.origin? i = some o) (parent : o.parent? = some j) :
    ∃ s s', f.scope? i = some s ∧ f.scope? j = some s' ∧ j < i ∧ s.path = s.token.key :: s'.path := by
  obtain ⟨s, hmem⟩ := origin?_eq_some.mp origin
  obtain ⟨s', hlt, hs', habove⟩ := (hf.gives i o s hmem).parent parent
  exact ⟨s, s', scope?_eq_some.mpr ⟨o, hmem⟩, hs', hlt, by rw [path, habove]⟩

theorem origin?_of_scope? (h : f.scope? i = some s) : ∃ o, f.origin? i = some o := by
  obtain ⟨o, hmem⟩ := scope?_eq_some.mp h
  exact ⟨o, origin?_eq_some.mpr ⟨s, hmem⟩⟩

/-- All nodes above a scope are above what is under it. -/
theorem Traced.suffix_of_under (hf : f.Traced) (h : f.Under i j) :
    ∃ s s', f.scope? i = some s ∧ f.scope? j = some s' ∧ s'.path <:+ s.path := by
  induction h with
  | refl h => exact ⟨_, _, h, h, List.suffix_refl _⟩
  | same origin source _ ih =>
    obtain ⟨s, s', hi', hj, hsuffix⟩ := ih
    obtain ⟨c, s₁, hi, hs₁, -, hpath⟩ := hf.path_of_alias origin source
    cases hi'.symm.trans hs₁
    exact ⟨c, s', hi, hj, hpath ▸ hsuffix⟩
  | child origin parent _ ih =>
    obtain ⟨s, s', hp, hj, hsuffix⟩ := ih
    obtain ⟨c, s₁, hi, hs₁, -, hpath⟩ := hf.path_of_parent origin parent
    cases hp.symm.trans hs₁
    exact ⟨c, s', hi, hj, hpath ▸ hsuffix.trans (List.suffix_cons _ _)⟩
  | ofSame origin source _ ih =>
    obtain ⟨s, s', hi, hj', hsuffix⟩ := ih
    obtain ⟨c, s₁, hj, hs₁, -, hpath⟩ := hf.path_of_alias origin source
    cases hj'.symm.trans hs₁
    exact ⟨s, c, hi, hj, hpath ▸ hsuffix⟩

theorem key_eq_of_path_eq (h : s.path = s'.path) : s.token.key = s'.token.key := (List.cons.inj h).1

/-- Scopes that are not made on the tokens of others have different tokens. -/
theorem Traced.eq_of_key_eq {o' : Origin} (hf : f.Traced) (hi : f.scope? i = some s) (hj : f.scope? j = some s')
    (origin : f.origin? i = some o) (origin' : f.origin? j = some o') (own : o.alias? = none)
    (own' : o'.alias? = none) (hkey : s.token.key = s'.token.key) : i = j := by
  obtain ⟨c, hmem⟩ := origin?_eq_some.mp origin
  obtain ⟨c', hmem'⟩ := origin?_eq_some.mp origin'
  cases hi.symm.trans (scope?_eq_some.mpr ⟨o, hmem⟩)
  cases hj.symm.trans (scope?_eq_some.mpr ⟨o', hmem'⟩)
  rcases Nat.lt_trichotomy i j with hlt | heq | hlt
  · exact absurd hkey (Nat.ne_of_lt (hf.apart i j o o' s s' hmem hmem' hlt own'))
  · exact heq
  · exact absurd hkey.symm (Nat.ne_of_lt (hf.apart j i o' o s' s hmem' hmem hlt own))

/-- Scopes have the same token only by being made on it. -/
theorem Traced.under_of_key_eq (hf : f.Traced) (hi : f.scope? i = some s) (hj : f.scope? j = some s')
    (hkey : s.token.key = s'.token.key) : f.Under i j := by
  induction hn : i + j using Nat.strongRecOn generalizing i j s s' with
  | ind n ih =>
    obtain ⟨o, origin⟩ := origin?_of_scope? hi
    obtain ⟨o', origin'⟩ := origin?_of_scope? hj
    cases hsource : o.alias? with
    | some k =>
      obtain ⟨c, s₁, hc, hk, hlt, hpath⟩ := hf.path_of_alias origin hsource
      cases hi.symm.trans hc
      exact .same origin hsource (ih (k + j) (by omega) hk hj ((key_eq_of_path_eq hpath).symm.trans hkey) rfl)
    | none =>
      cases hsource' : o'.alias? with
      | some k =>
        obtain ⟨c, s₁, hc, hk, hlt, hpath⟩ := hf.path_of_alias origin' hsource'
        cases hj.symm.trans hc
        exact .ofSame origin' hsource' (ih (i + k) (by omega) hi hk (hkey.trans (key_eq_of_path_eq hpath)) rfl)
      | none =>
        obtain rfl := hf.eq_of_key_eq hi hj origin origin' hsource hsource' hkey
        exact .refl hi

/-- The nodes above a scope are those of the scopes that it is under. -/
theorem Traced.under_iff (hf : f.Traced) (hi : f.scope? i = some s) (hj : f.scope? j = some s') :
    f.Under i j ↔ s'.token.key ∈ s.path := by
  constructor
  · intro h
    obtain ⟨s₁, s₁', hi', hj', hsuffix⟩ := hf.suffix_of_under h
    cases hi.symm.trans hi'
    cases hj.symm.trans hj'
    exact hsuffix.subset List.mem_cons_self
  · intro hmem
    induction i using Nat.strongRecOn generalizing s with
    | ind i ih =>
      rcases List.mem_cons.mp hmem with hkey | habove
      · exact hf.under_of_key_eq hi hj hkey.symm
      obtain ⟨o, origin⟩ := origin?_of_scope? hi
      cases o with
      | own =>
        obtain ⟨c, hmember⟩ := origin?_eq_some.mp origin
        cases hi.symm.trans (scope?_eq_some.mpr ⟨_, hmember⟩)
        rw [(hf.gives i .own s hmember).1] at habove
        cases habove
      | child k made timeout =>
        obtain ⟨c, s₁, hc, hk, hlt, hpath⟩ := hf.path_of_parent origin (j := k) rfl
        cases hi.symm.trans hc
        rw [path, List.cons.injEq] at hpath
        exact .child origin (p := k) rfl (ih k hlt hk (hpath.2 ▸ habove))
      | shared k | cloned k | dated k _ =>
        obtain ⟨c, s₁, hc, hk, hlt, hpath⟩ := hf.path_of_alias origin (j := k) rfl
        cases hi.symm.trans hc
        exact .same origin rfl (ih k hlt hk (hpath ▸ hmem))

/-- What a scope is under lies on one line. -/
theorem Traced.line (hf : f.Traced) (hj : f.Under i j) (hk : f.Under i k) : f.Under j k ∨ f.Under k j := by
  obtain ⟨s, sj, hs, hsj, hsuffixj⟩ := hf.suffix_of_under hj
  obtain ⟨s', sk, hs', hsk, hsuffixk⟩ := hf.suffix_of_under hk
  cases hs.symm.trans hs'
  rcases List.suffix_or_suffix_of_suffix hsuffixj hsuffixk with h | h
  · exact Or.inr ((hf.under_iff hsk hsj).mpr (h.subset List.mem_cons_self))
  · exact Or.inl ((hf.under_iff hsj hsk).mpr (h.subset List.mem_cons_self))

theorem Traced.parent_of_child {p : Nat} {made : Instant} {timeout : Duration} (hf : f.Traced)
    (origin : f.origin? i = some (.child p made timeout)) : f.Under i p ∧ ¬f.Under p i := by
  obtain ⟨s, s', hi, hp, -, hpath⟩ := hf.path_of_parent origin rfl
  refine ⟨.child origin rfl (.refl hp), fun h => ?_⟩
  obtain ⟨c', c, hp', hi', hsuffix⟩ := hf.suffix_of_under h
  cases hi.symm.trans hi'
  cases hp.symm.trans hp'
  have hle := hsuffix.length_le
  rw [hpath, List.length_cons] at hle
  omega

/-- A child is not under another child of its parent, or of a scope under its parent. -/
theorem Traced.not_under_sibling {p p' : Nat} {made made' : Instant} {timeout timeout' : Duration} (hf : f.Traced)
    (origin : f.origin? i = some (.child p made timeout)) (origin' : f.origin? j = some (.child p' made' timeout'))
    (below : f.Under p' p) (hne : i ≠ j) : ¬f.Under i j := by
  intro h
  obtain ⟨s, sp, hi, hp, -, hpath⟩ := hf.path_of_parent origin rfl
  obtain ⟨s', -, hj, -, -, -⟩ := hf.path_of_parent origin' rfl
  have hmem := (hf.under_iff hi hj).mp h
  rw [hpath] at hmem
  rcases List.mem_cons.mp hmem with hkey | habove
  · exact hne (hf.eq_of_key_eq hi hj origin origin' rfl rfl hkey.symm)
  · obtain ⟨c', c, hp', hc, hsuffix⟩ := hf.suffix_of_under below
    cases hp.symm.trans hc
    exact (hf.parent_of_child origin').2 ((hf.under_iff hp' hj).mpr (hsuffix.subset habove))

/-! ## Deadlines -/

theorem Traced.deadline_of_child {p : Nat} {made : Instant} {timeout : Duration} (hf : f.Traced)
    (origin : f.origin? i = some (.child p made timeout)) : ∃ s s', f.scope? i = some s ∧ f.scope? p = some s' ∧
      s.deadline = some (deadlineUnder s'.deadline (made + timeout.nanos)) := by
  obtain ⟨s, hmem⟩ := origin?_eq_some.mp origin
  obtain ⟨s', -, hs', -, hdeadline⟩ := hf.gives i _ s hmem
  exact ⟨s, s', scope?_eq_some.mpr ⟨_, hmem⟩, hs', hdeadline⟩

theorem Traced.deadline_of_clone (hf : f.Traced) (origin : f.origin? i = some (.cloned j)) :
    ∃ s s', f.scope? i = some s ∧ f.scope? j = some s' ∧ s.deadline = s'.deadline := by
  obtain ⟨s, hmem⟩ := origin?_eq_some.mp origin
  obtain ⟨s', -, hs', -, hdeadline⟩ := hf.gives i _ s hmem
  exact ⟨s, s', scope?_eq_some.mpr ⟨_, hmem⟩, hs', hdeadline⟩

/-- Down a chain of children deadlines never become later. -/
theorem Traced.deadline_le (hf : f.Traced) (h : f.Derived i j) {d : Instant} (hi : f.scope? i = some s)
    (hj : f.scope? j = some s') (hd : s'.deadline = some d) : ∃ d' ≤ d, s.deadline = some d' := by
  induction h generalizing s with
  | refl =>
    cases hi.symm.trans hj
    exact ⟨d, Nat.le_refl d, hd⟩
  | clone origin _ ih =>
    obtain ⟨c, c', hc, hc', hdeadline⟩ := hf.deadline_of_clone origin
    cases hi.symm.trans hc
    rw [hdeadline]
    exact ih hc' hj
  | child origin _ ih =>
    obtain ⟨c, c', hc, hc', hdeadline⟩ := hf.deadline_of_child origin
    cases hi.symm.trans hc
    obtain ⟨d', hle, hd'⟩ := ih hc' hj
    rw [hd'] at hdeadline
    exact ⟨_, Nat.le_trans (Nat.min_le_left _ _) hle, hdeadline⟩

/-- What has expired by some time, all that comes from it has expired by then. -/
theorem Traced.expired_of_derived {now later : Instant} (hf : f.Traced) (h : f.Derived i j)
    (hi : f.scope? i = some s) (hj : f.scope? j = some s') (hexpired : s'.isExpired now = true)
    (hlater : now ≤ later) : s.isExpired later = true := by
  obtain ⟨d, hd, hle⟩ := isExpired_iff.mp hexpired
  obtain ⟨d', hle', hd'⟩ := hf.deadline_le h hi hj hd
  exact isExpired_iff.mpr ⟨d', hd', Nat.le_trans hle' (Nat.le_trans hle hlater)⟩

/-! ## Cancellation -/

/-- A scope is cancelled if one that it is under has been. -/
theorem Traced.isCancelled_iff (hf : f.Traced) (hi : f.scope? i = some s) :
    s.isCancelled f.signals = true ↔ ∃ j ∈ f.cancelled, f.Under i j := by
  rw [Scope.isCancelled_iff]
  constructor
  · rintro ⟨k, hk, hraised⟩
    obtain ⟨j, hj, s', hs', rfl⟩ := hf.raised k hraised
    exact ⟨j, hj, (hf.under_iff hi hs').mpr hk⟩
  · rintro ⟨j, hj, hunder⟩
    obtain ⟨s', hs', hraised⟩ := hf.called j hj
    exact ⟨s'.token.key, (hf.under_iff hi hs').mp hunder, hraised⟩

/-- Scopes that have been made stay as they are. -/
theorem scope?_next (hi : f.scope? i = some s) (a : Act) : (f.next a).scope? i = some s := by
  cases a with
  | new => exact scope?_add (f := { f with signals := _ }) hi _ _
  | wait nanos => exact hi
  | on j op =>
    simp only [next]
    split
    · exact hi
    cases op with
    | share | clone | withDeadline => exact scope?_add hi _ _
    | child timeout =>
      simp only [perform]
      split
      · exact hi
      · exact scope?_add (f := { f with signals := _ }) hi _ _
    | cancel => exact hi

/-- Only a call of cancel cancels, and only what is under its scope. -/
theorem Traced.isCancelled_next (hf : f.Traced) (hi : f.scope? i = some s) (a : Act) :
    s.isCancelled (f.next a).signals = true ↔
      s.isCancelled f.signals = true ∨ ∃ j, a = .on j .cancel ∧ f.Under i j := by
  have same (hraised : (f.next a).signals.raised = f.signals.raised)
      (hnone : ∀ j, a = .on j .cancel → ¬f.Under i j) :
      s.isCancelled (f.next a).signals = true ↔
        s.isCancelled f.signals = true ∨ ∃ j, a = .on j .cancel ∧ f.Under i j := by
    rw [Scope.isCancelled_iff, Scope.isCancelled_iff, hraised]
    exact (or_iff_left fun ⟨j, ha, hunder⟩ => hnone j ha hunder).symm
  cases a with
  | new => exact same rfl fun _ ha => by cases ha
  | wait nanos => exact same rfl fun _ ha => by cases ha
  | on j op =>
    cases hj : f.scope? j with
    | none =>
      have hnext : f.next (.on j op) = f := by simp only [Family.next, hj]
      refine same (by rw [hnext]) fun k ha hunder => ?_
      cases ha
      obtain ⟨_, _, _, hj', -⟩ := hf.suffix_of_under hunder
      rw [hj] at hj'
      cases hj'
    | some sj =>
      have hnext : f.next (.on j op) = f.perform j sj op := by simp only [Family.next, hj]
      cases op with
      | share | clone | withDeadline => exact same (by rw [hnext]; rfl) fun _ ha => by cases ha
      | child timeout =>
        refine same ?_ fun _ ha => by cases ha
        rw [hnext]
        simp only [perform, child?]
        split
        · rfl
        rename_i heq
        split at heq <;> cases heq
        rfl
      | cancel =>
        rw [hnext, Scope.isCancelled_iff, Scope.isCancelled_iff]
        simp only [perform, Scope.cancel, Signals.raise, List.mem_cons]
        constructor
        · rintro ⟨k, hk, rfl | hraised⟩
          · exact Or.inr ⟨j, rfl, (hf.under_iff hi hj).mpr hk⟩
          · exact Or.inl ⟨k, hk, hraised⟩
        · rintro (⟨k, hk, hraised⟩ | ⟨j', ha, hunder⟩)
          · exact ⟨k, hk, Or.inr hraised⟩
          · cases ha
            exact ⟨sj.token.key, (hf.under_iff hi hj).mp hunder, Or.inl rfl⟩

theorem scope?_run (hi : f.scope? i = some s) (acts : List Act) : (f.run acts).scope? i = some s := by
  induction acts generalizing f with
  | nil => exact hi
  | cons a acts ih => exact ih (scope?_next hi a)

/-- A cancellation is never undone. -/
theorem Traced.isCancelled_run (hf : f.Traced) (hi : f.scope? i = some s) (acts : List Act)
    (h : s.isCancelled f.signals = true) : s.isCancelled (f.run acts).signals = true := by
  induction acts generalizing f with
  | nil => exact h
  | cons a acts ih => exact ih (hf.next a) (scope?_next hi a) ((hf.isCancelled_next hi a).mpr (Or.inl h))

/-- A child is made with the earlier deadline, unless the clock cannot show its own. -/
theorem next_child (hi : f.scope? i = some s) (timeout : Duration) :
    (Instant.Representable (f.now + timeout.nanos) → ∃ c,
      (f.next (.on i (.child timeout))).members = f.members ++ [(.child i f.now timeout, c)] ∧
      c.deadline = some (deadlineUnder s.deadline (f.now + timeout.nanos))) ∧
    (¬Instant.Representable (f.now + timeout.nanos) → f.next (.on i (.child timeout)) = f) := by
  simp only [next, hi, perform, child?, Instant.after?]
  constructor
  · intro hshown
    rw [if_pos hshown]
    exact ⟨_, rfl, by rw [earlier_eq]⟩
  · intro hover
    rw [if_neg hover]

end

/-! ## What holds at any time -/

/-- What holds of a family at any time. -/
structure Lawful (f : Family) : Prop where
  /-- A scope is cancelled if cancel has been called on one with its token or a token above it. -/
  cancelled (i : Nat) (s : Scope) (hi : f.scope? i = some s) :
    s.isCancelled f.signals = true ↔ ∃ j ∈ f.cancelled, f.Under i j
  /-- Upwards there is one way only. -/
  line (i j k : Nat) (hj : f.Under i j) (hk : f.Under i k) : f.Under j k ∨ f.Under k j
  /-- A child is under its parent, and the parent is not under the child. -/
  parent (i p : Nat) (made : Instant) (timeout : Duration) (origin : f.origin? i = some (.child p made timeout)) :
    f.Under i p ∧ ¬f.Under p i
  /-- Nor is another child of the parent, or of a scope with the parent's token. -/
  sibling (i j p p' : Nat) (made made' : Instant) (timeout timeout' : Duration)
    (origin : f.origin? i = some (.child p made timeout)) (origin' : f.origin? j = some (.child p' made' timeout'))
    (same : f.Under p' p) (hne : i ≠ j) : ¬f.Under i j
  /-- The deadline of a child is the earlier of its parent's and its own. -/
  deadline (i p : Nat) (made : Instant) (timeout : Duration) (origin : f.origin? i = some (.child p made timeout)) :
    ∃ s s', f.scope? i = some s ∧ f.scope? p = some s' ∧
      s.deadline = some (deadlineUnder s'.deadline (made + timeout.nanos))
  /-- Deadlines never become later down a chain of children. -/
  shrinking (i j : Nat) (s s' : Scope) (d : Instant) (chain : f.Derived i j) (hi : f.scope? i = some s)
    (hj : f.scope? j = some s') (hd : s'.deadline = some d) : ∃ d' ≤ d, s.deadline = some d'
  /-- Once a scope has expired, all down a chain from it have expired, and stay so. -/
  expired (i j : Nat) (s s' : Scope) (now later : Instant) (chain : f.Derived i j) (hi : f.scope? i = some s)
    (hj : f.scope? j = some s') (expired : s'.isExpired now = true) (hlater : now ≤ later) :
    s.isExpired later = true

/-- What an act does to a family, and what it leaves as it is. -/
structure Keeps (f : Family) (a : Act) : Prop where
  /-- Scopes that have been made stay as they are, their deadlines with them. -/
  made (i : Nat) (s : Scope) (hi : f.scope? i = some s) : (f.next a).scope? i = some s
  /-- A child is made with the earlier of two deadlines. If the clock cannot show its own, nothing is made. -/
  child (i : Nat) (s : Scope) (timeout : Duration) (hi : f.scope? i = some s) (ha : a = .on i (.child timeout)) :
    (Instant.Representable (f.now + timeout.nanos) → ∃ c,
      (f.next a).members = f.members ++ [(.child i f.now timeout, c)] ∧
      c.deadline = some (deadlineUnder s.deadline (f.now + timeout.nanos))) ∧
    (¬Instant.Representable (f.now + timeout.nanos) → f.next a = f)
  /-- Nothing but a call of cancel cancels a scope, the passing of a deadline neither. -/
  cancelled (i : Nat) (s : Scope) (hi : f.scope? i = some s) : s.isCancelled (f.next a).signals = true ↔
    s.isCancelled f.signals = true ∨ ∃ j, a = .on j .cancel ∧ f.Under i j
  /-- Nothing but time makes a scope expire. -/
  expired (i : Nat) (s : Scope) (hi : f.scope? i = some s) (timeless : ∀ nanos, a ≠ .wait nanos) :
    s.isExpired (f.next a).now = s.isExpired f.now

theorem Traced.lawful {f : Family} (hf : f.Traced) : f.Lawful where
  cancelled _ _ hi := hf.isCancelled_iff hi
  line _ _ _ hj hk := hf.line hj hk
  parent _ _ _ _ origin := hf.parent_of_child origin
  sibling _ _ _ _ _ _ _ _ origin origin' same hne := hf.not_under_sibling origin origin' same hne
  deadline _ _ _ _ origin := hf.deadline_of_child origin
  shrinking _ _ _ _ _ chain hi hj hd := hf.deadline_le chain hi hj hd
  expired _ _ _ _ _ _ chain hi hj expired hlater := hf.expired_of_derived chain hi hj expired hlater

theorem now_next {f : Family} {a : Act} (timeless : ∀ nanos, a ≠ .wait nanos) : (f.next a).now = f.now := by
  cases a with
  | new => rfl
  | wait nanos => exact absurd rfl (timeless nanos)
  | on i op =>
    simp only [next]
    split
    · rfl
    cases op with
    | share | clone | withDeadline | cancel => rfl
    | child timeout =>
      simp only [perform]
      split <;> rfl

theorem Traced.keeps {f : Family} (hf : f.Traced) (a : Act) : f.Keeps a where
  made _ _ hi := scope?_next hi a
  child _ _ timeout hi ha := by
    subst ha
    exact next_child hi timeout
  cancelled _ _ hi := hf.isCancelled_next hi a
  expired _ _ _ timeless := by rw [now_next timeless]

theorem traced_empty (now : Instant) : (empty now).Traced where
  gives _ _ _ h := by cases h
  fresh _ _ _ h := by cases h
  apart _ _ _ _ _ _ hi := by cases hi
  raised _ h := by cases h
  called _ h := by cases h

/-- Whatever is done with scopes, and however long it takes: cancellation goes down the tree and nowhere else,
deadlines only become earlier, and neither has to do with the other; no act undoes a cancellation. -/
theorem scopes_form_tree (now : Instant) (acts : List Act) :
    ((empty now).run acts).Lawful ∧
    (∀ a, ((empty now).run acts).Keeps a) ∧
    ∀ more i s, ((empty now).run acts).scope? i = some s →
      (((empty now).run acts).run more).scope? i = some s ∧
      (s.isCancelled ((empty now).run acts).signals = true →
        s.isCancelled (((empty now).run acts).run more).signals = true) := by
  have hf := (traced_empty now).run acts
  exact ⟨hf.lawful, hf.keeps, fun more i s hi => ⟨scope?_run hi more, hf.isCancelled_run hi more⟩⟩

/-- A scope with two children and a grandchild, of which the first child is cancelled: it takes the grandchild
with it, which was to end before the others. -/
example :
    let f := (empty 0).run [.new, .on 0 (.child (Duration.ofSeconds 9)),
      .on 0 (.child (Duration.ofSeconds 9)), .on 1 (.child (Duration.ofSeconds 4)), .on 1 .cancel,
      .wait (5 * nanosPerSecond)]
    f.members.map (fun m => (m.2.isCancelled f.signals, m.2.isExpired f.now)) =
      [(false, false), (true, false), (false, false), (true, true)] := by decide

end Family

end Overseer.Scope

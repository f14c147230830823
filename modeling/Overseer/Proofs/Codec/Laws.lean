import Overseer.Json.Decode
import Overseer.Proofs.Codec.Members

/-!
# Laws of decoders

Two laws of a decoder. It reads a written value as some result, however the members of objects are ordered
(`Decoder.Reads`); and all that it ever reads has some property (`Decoder.Yields`), be it written by
whomever. There is a law of each kind for each way to make a decoder, so that a type with a decoder made
of others has its laws from theirs.

* `reads_list`, `reads_dict`, `reads_record`: from the parts to the whole.
* `reads_value`: a value of words is read back as it is.
* `yields_list`, `yields_dict`, `yields_record`, `yields_value`: the same for what is read.
* `Reads.returns`: what is read from a document is read from its text.
-/
namespace Overseer.Json.Decoder

variable {α β : Type} {dec : Decoder α} {depth : Nat}

/-- However the members of its objects are ordered, the value is read as `a` where it may nest so deep. -/
def Reads (dec : Decoder α) (depth : Nat) (j : Json) (a : α) : Prop :=
  ∀ j', j.Shuffled j' → dec depth j'.document = some a

/-- All that is read has the property. -/
def Yields (dec : Decoder α) (P : α → Prop) : Prop := ∀ depth d a, dec depth d = some a → P a

/-! ## Leaves -/

theorem reads_string (s : String) : string.Reads depth (.str s) s := by
  rintro _ ⟨⟩
  rfl

theorem ofLiteral?_literal {x : Number} (hx : x.isWord = true) : Number.ofLiteral? x.literal = some x := by
  cases x with
  | int n =>
    simp only [Number.isWord, decide_eq_true_eq] at hx
    simp only [Number.literal, Literal.ofInt, Number.ofLiteral?, ofDigits_decimals]
    by_cases hn : n < 0
    · rw [if_neg (by simp [hn]), if_pos (by simp [hn]; omega)]
      congr 2
      omega
    · rw [if_pos (by simp [hn, Number.maxWord]; omega)]
      congr 2
      omega
  | real x =>
    obtain rfl : x = Binary64.zero true := by simpa [Number.isWord] using hx
    rfl

theorem reads_int {n : Int} (h : -(Word.half64 : Int) ≤ n ∧ n < Word.count64) : int.Reads depth (.int n) n := by
  rintro _ ⟨⟩
  have hliteral : Number.ofLiteral? (.ofInt n) = some (.int n) :=
    ofLiteral?_literal (x := .int n) (by simpa [Number.isWord] using h)
  simp [int, document, Number.literal, hliteral]

theorem reads_natUpTo {max n : Nat} (hmax : max < Word.count64) (h : n ≤ max) :
    (natUpTo max).Reads depth (.nat n) n := by
  intro j' hj'
  have hint : int depth j'.document = some (n : Int) := reads_int (by omega) j' hj'
  simp [natUpTo, hint, h]

theorem reads_word64 {n : Nat} (h : n < Word.count64) : word64.Reads depth (.nat n) n :=
  reads_natUpTo (by decide) (Nat.le_sub_one_of_lt h)

theorem reads_word32 {n : Nat} (h : n < Word.count32) : word32.Reads depth (.nat n) n :=
  reads_natUpTo (by decide) (Nat.le_sub_one_of_lt h)

theorem reads_int64 {n : Int} (h : Word.isSigned64 n = true) : int64.Reads depth (.int n) n := by
  intro j' hj'
  have hn : -(Word.half64 : Int) ≤ n ∧ n < Word.half64 := by simpa [Word.isSigned64] using h
  have hword : (Word.half64 : Int) < Word.count64 := by decide
  have hint : int depth j'.document = some n := reads_int ⟨hn.1, by omega⟩ j' hj'
  simp [int64, hint, h]

theorem yields_natUpTo (max : Nat) : (natUpTo max).Yields (· ≤ max) := by
  intro depth d n h
  simp only [natUpTo, bind, Option.bind_eq_some_iff] at h
  obtain ⟨m, -, h⟩ := h
  split at h <;> cases h
  rename_i hm
  omega

theorem yields_word64 : word64.Yields (· < Word.count64) := fun depth d n h =>
  Nat.lt_of_le_of_lt (yields_natUpTo _ depth d n h) (by decide)

theorem yields_word32 : word32.Yields (· < Word.count32) := fun depth d n h =>
  Nat.lt_of_le_of_lt (yields_natUpTo _ depth d n h) (by decide)

theorem yields_int64 : int64.Yields (Word.isSigned64 · = true) := by
  intro depth d n h
  simp only [int64, bind, Option.bind_eq_some_iff] at h
  obtain ⟨m, -, h⟩ := h
  split at h <;> cases h
  assumption

/-! ## Options -/

theorem reads_none : (option dec).Reads depth .null none := by
  rintro _ ⟨⟩
  rfl

theorem document_ne_null {j j' : Json} (hj : j ≠ .null) (h : j.Shuffled j') : j'.document ≠ .null := by
  cases h with
  | null => exact absurd rfl hj
  | bool | num | str | arr | obj => simp [document]

theorem reads_some {j : Json} {a : α} (h : dec.Reads depth j a) (hj : j ≠ .null) :
    (option dec).Reads depth j (some a) := by
  intro j' hj'
  unfold option
  split
  · exact absurd ‹_› (document_ne_null hj hj')
  · rw [h j' hj']
    rfl

theorem yields_option {P : α → Prop} (h : dec.Yields P) : (option dec).Yields fun o => ∀ a ∈ o, P a := by
  intro depth d o ho a ha
  unfold option at ho
  split at ho
  · cases ho
    cases ha
  · obtain ⟨b, hb, rfl⟩ := Option.map_eq_some_iff.mp ho
    cases ha
    exact h _ _ _ hb

/-! ## Lists and dictionaries -/

theorem mapM_eq_some {f : α → Option β} {l : List α} {r : List β} (h : List.Forall₂ (fun a b => f a = some b) l r) :
    l.mapM f = some r := by
  induction h with
  | nil => rfl
  | cons hab _ ih => simp [hab, ih]

theorem exists_of_mapM {f : α → Option β} {l : List α} {r : List β} (h : l.mapM f = some r) {b : β} (hb : b ∈ r) :
    ∃ a ∈ l, f a = some b := by
  induction l generalizing r with
  | nil =>
    cases h
    cases hb
  | cons a l ih =>
    simp only [List.mapM_cons, bind, Option.bind_eq_some_iff, pure, Option.some.injEq] at h
    obtain ⟨b', hb', r', hr', rfl⟩ := h
    rcases List.mem_cons.mp hb with rfl | hb
    · exact ⟨a, List.mem_cons_self, hb'⟩
    · obtain ⟨a', ha', hab⟩ := ih hr' hb
      exact ⟨a', List.mem_cons_of_mem _ ha', hab⟩

/-- Two lists that go along with a third go along with each other. -/
theorem forall₂_along {γ : Type} {R : γ → α → Prop} {S : γ → β → Prop} {T : α → β → Prop}
    (hT : ∀ c a b, R c a → S c b → T a b) {l : List γ} {as : List α} {bs : List β} (has : List.Forall₂ R l as)
    (hbs : List.Forall₂ S l bs) : List.Forall₂ T as bs := by
  induction has generalizing bs with
  | nil =>
    cases hbs
    exact .nil
  | cons ha _ ih =>
    cases hbs with
    | cons hb hbs => exact .cons (hT _ _ _ ha hb) (ih hbs)

theorem reads_list {items : List Json} {l : List α} (h : List.Forall₂ (dec.Reads depth) items l) :
    (list dec).Reads (depth + 1) (.arr items) l := by
  intro j' hj'
  cases hj' with
  | arr each =>
    rw [document, itemDocuments_eq]
    refine mapM_eq_some (List.forall₂_map_left_iff.mpr (forall₂_along ?_ each h))
    exact fun i i' a hi ha => ha i' hi

/-- The items of a list are each read back from what is written of them. -/
theorem reads_map {write : α → Json} {l : List α} (h : ∀ a ∈ l, dec.Reads depth (write a) a) :
    (list dec).Reads (depth + 1) (.arr (l.map write)) l :=
  reads_list (List.forall₂_map_left_iff.mpr (List.forall₂_same.mpr h))

theorem forall_of_list {P : α → Prop} (h : ∀ d a, dec depth d = some a → P a) {d : Document} {l : List α}
    (hl : list dec (depth + 1) d = some l) : ∀ a ∈ l, P a := by
  intro a ha
  cases d with
  | arr items =>
    obtain ⟨d', -, hd'⟩ := exists_of_mapM hl ha
    exact h d' a hd'
  | null | bool | num | str | obj => cases hl

theorem yields_list {P : α → Prop} (h : dec.Yields P) : (list dec).Yields fun l => ∀ a ∈ l, P a := by
  intro depth d l hl
  cases depth with
  | zero => cases d <;> cases hl
  | succ depth => exact forall_of_list (h depth) hl

theorem reads_dict {fields : List (String × Json)} {d : Dict α} (hd : d.Sorted)
    (h : List.Forall₂ (fun f e => f.1 = e.1 ∧ dec.Reads depth f.2 e.2) fields d) :
    (dict dec).Reads (depth + 1) (.obj fields) d := by
  intro j' hj'
  cases hj' with
  | obj perm each =>
    -- the entries in the order in which the members were written
    obtain ⟨entries, hentries, hperm⟩ := List.perm_comp_forall₂ perm.symm h
    rw [document, fieldDocuments_eq, dict]
    rw [mapM_eq_some (List.forall₂_map_left_iff.mpr (forall₂_along ?_ each hentries))]
    · exact congrArg some (Dict.ofList_eq hd hperm)
    · rintro f f' e ⟨key, hvalue⟩ ⟨hkey, he⟩
      obtain rfl : key = e.1 := hkey
      simp [he _ hvalue]

theorem forall_of_dict {P : α → Prop} (h : ∀ d a, dec depth d = some a → P a) {doc : Document} {d : Dict α}
    (hd : dict dec (depth + 1) doc = some d) : d.Sorted ∧ ∀ e ∈ d, P e.2 := by
  cases doc with
  | obj fields =>
    simp only [dict, bind, Option.bind_eq_some_iff, pure, Option.some.injEq] at hd
    obtain ⟨entries, hentries, rfl⟩ := hd
    refine ⟨Dict.sorted_ofList entries, fun e he => ?_⟩
    obtain ⟨f, -, hf⟩ := exists_of_mapM hentries (Dict.mem_of_mem_ofList he)
    simp only [Option.bind_eq_some_iff, Option.some.injEq] at hf
    obtain ⟨-, -, a, ha, rfl⟩ := hf
    exact h _ _ ha
  | null | bool | num | str | arr => cases hd

theorem yields_dict {P : α → Prop} (h : dec.Yields P) : (dict dec).Yields fun d => d.Sorted ∧ ∀ e ∈ d, P e.2 := by
  intro depth doc d hd
  cases depth with
  | zero => cases doc <;> cases hd
  | succ depth => exact forall_of_dict (h depth) hd

/-! ## Any value -/

theorem itemValues?_eq (depth : Nat) (items : List Document) :
    Document.itemValues? depth items = items.mapM (value depth) := by
  induction items with
  | nil => rfl
  | cons d items ih => rw [Document.itemValues?, ih, List.mapM_cons]; rfl

theorem fieldValues?_eq (depth : Nat) (fields : List (Option String × Document)) :
    Document.fieldValues? depth fields = fields.mapM fun f => do return (← f.1, ← value depth f.2) := by
  induction fields with
  | nil => rfl
  | cons f fields ih =>
    obtain ⟨k, d⟩ := f
    rw [Document.fieldValues?, ih, List.mapM_cons]
    cases k with
    | none => rfl
    | some k => cases h : Document.value? depth d <;> simp [value, h]

theorem value_arr (depth : Nat) (items : List Document) :
    value depth (.arr items) = (list value depth (.arr items)).map .arr := by
  cases depth with
  | zero => rfl
  | succ depth => rw [value, Document.value?, itemValues?_eq]; rfl

theorem value_obj (depth : Nat) (fields : List (Option String × Document)) :
    value depth (.obj fields) = (dict value depth (.obj fields)).map .obj := by
  cases depth with
  | zero => rfl
  | succ depth =>
    have h : value (depth + 1) (.obj fields) =
        (Document.fieldValues? depth fields).map fun fs => .obj (Dict.ofList fs) := by rw [value, Document.value?]
    rw [h, fieldValues?_eq, dict]
    cases fields.mapM fun f => do return (← f.1, ← value depth f.2) <;> rfl

/-- A value of words is read back as it is. -/
theorem reads_value {j : Json} (hwords : j.HasWords) (hordered : j.Ordered) {depth : Nat} (hdepth : j.depth ≤ depth) :
    value.Reads depth j j := by
  induction j using inductionOn generalizing depth with
  | null | bool | str =>
    rintro _ ⟨⟩
    rfl
  | num x =>
    rintro _ ⟨⟩
    have hx := ofLiteral?_literal (hwords (.num x) (List.mem_singleton.mpr rfl))
    simp [value, document, Document.value?, hx]
  | arr items ih =>
    rw [Json.depth] at hdepth
    obtain ⟨depth, rfl⟩ : ∃ k, depth = k + 1 := ⟨depth - 1, by omega⟩
    have hitems : (list value).Reads (depth + 1) (.arr items) items :=
      reads_list (List.forall₂_same.mpr fun i hi =>
        ih i hi (hasWords_arr.mp hwords i hi) (ordered_arr.mp hordered i hi)
          (itemsDepth_le.mp (Nat.le_of_succ_le_succ hdepth) i hi))
    intro j' hj'
    have h := hitems j' hj'
    cases hj' with
    | arr each =>
      rw [document] at h ⊢
      rw [value_arr, h]
      rfl
  | obj fields ih =>
    rw [Json.depth] at hdepth
    obtain ⟨depth, rfl⟩ : ∃ k, depth = k + 1 := ⟨depth - 1, by omega⟩
    obtain ⟨hsorted, hordered⟩ := ordered_obj.mp hordered
    have hfields : (dict value).Reads (depth + 1) (.obj fields) fields :=
      reads_dict hsorted (List.forall₂_same.mpr fun f hf =>
        ⟨rfl, ih f hf (hasWords_obj.mp hwords f hf) (hordered f hf)
          (fieldsDepth_le.mp (Nat.le_of_succ_le_succ hdepth) f hf)⟩)
    intro j' hj'
    have h := hfields j' hj'
    cases hj' with
    | obj perm each =>
      rw [document] at h ⊢
      rw [value_obj, h]
      rfl

theorem ordered_of_leaf {d : Document} {j : Json} (h : value depth d = some j) (harr : ∀ items, d ≠ .arr items)
    (hobj : ∀ fields, d ≠ .obj fields) : j.Ordered := by
  simp only [value] at h
  cases d with
  | null | bool =>
    simp only [Document.value?, Option.some.injEq] at h
    subst h
    simp [Ordered, parts, Json.fields, Dict.Sorted]
  | num | str =>
    simp only [Document.value?, Option.map_eq_some_iff] at h
    obtain ⟨_, -, rfl⟩ := h
    simp [Ordered, parts, Json.fields, Dict.Sorted]
  | arr items => exact absurd rfl (harr items)
  | obj fields => exact absurd rfl (hobj fields)

/-- The objects in a value that is read are dictionaries. -/
theorem yields_value : value.Yields Ordered := by
  intro depth
  induction depth with
  | zero =>
    intro d j h
    cases d with
    | null | bool | num | str => exact ordered_of_leaf h (by simp) (by simp)
    | arr items => cases h
    | obj fields => cases h
  | succ depth ih =>
    intro d j h
    cases d with
    | null | bool | num | str => exact ordered_of_leaf h (by simp) (by simp)
    | arr items =>
      rw [value_arr] at h
      obtain ⟨l, hl, rfl⟩ := Option.map_eq_some_iff.mp h
      exact ordered_arr.mpr (forall_of_list ih hl)
    | obj fields =>
      rw [value_obj] at h
      obtain ⟨d, hd, rfl⟩ := Option.map_eq_some_iff.mp h
      exact ordered_obj.mpr (forall_of_dict ih hd)

/-! ## Records -/

/-- A row has the members of an object, each in a document of its own. -/
structure Shows (row : Row) (fields : List (String × Json)) (depth : Nat) : Prop where
  ordered : row.ordered = false
  depth : row.depth = depth
  there {name : String} {j : Json} : Dict.get? name fields = some j →
    ∃ j', j.Shuffled j' ∧ Dict.get? name row.fields = some j'.document
  missing {name : String} : Dict.get? name fields = none → Dict.get? name row.fields = none

theorem knownFields_eq {names : List String} {fields : List (String × Json)} {seen : List (String × Document)}
    (hnames : ∀ f ∈ fields, f.1 ∈ names) (hnodup : (fields.map Prod.fst).Nodup)
    (hseen : ∀ f ∈ fields, Dict.get? f.1 seen = none) :
    knownFields names (fieldDocuments fields) seen =
      some (seen.reverse ++ fields.map fun f => (f.1, f.2.document)) := by
  induction fields generalizing seen with
  | nil => simp [fieldDocuments, knownFields]
  | cons f fields ih =>
    obtain ⟨k, j⟩ := f
    obtain ⟨hk, hnames⟩ := List.forall_mem_cons.mp hnames
    obtain ⟨hkseen, hseen⟩ := List.forall_mem_cons.mp hseen
    rw [List.map_cons, List.nodup_cons] at hnodup
    rw [fieldDocuments, knownFields, if_neg (not_not_intro hk), hkseen, Option.isSome_none, if_neg Bool.false_ne_true,
      ih hnames hnodup.2 fun f hf => ?_]
    · simp
    · have hne : k ≠ f.1 := fun heq => hnodup.1 (List.mem_map.mpr ⟨f, hf, heq.symm⟩)
      rw [Dict.get?, if_neg hne]
      exact hseen f hf

/-- Members in another order are found all the same. -/
theorem shows_of_shuffled {fields order fields' : List (String × Json)} (hnodup : (fields.map Prod.fst).Nodup)
    (perm : fields.Perm order) (each : List.Forall₂ ShuffledMember order fields') (depth : Nat) :
    Shows ⟨false, fields'.map fun f => (f.1, f.2.document), depth⟩ fields depth := by
  have hkeys : (fields'.map fun f => (f.1, f.2.document)).map Prod.fst = order.map Prod.fst := by
    rw [← keys_eq each, List.map_map]
    rfl
  have hnodup' : (order.map Prod.fst).Nodup := (perm.map Prod.fst).nodup_iff.mp hnodup
  refine ⟨rfl, rfl, fun {name j} hj => ?_, fun {name} hnone => ?_⟩
  · have hmem : (name, j) ∈ order := perm.mem_iff.mp (Dict.mem_of_get? hj)
    obtain ⟨f', hf', hmember⟩ := exists_of_forall₂ each.flip hmem
    cases hmember with
    | mk key hvalue =>
      refine ⟨_, hvalue, (Dict.get?_eq_some_iff (by rwa [hkeys])).mpr ?_⟩
      exact List.mem_map_of_mem (f := fun f => (f.1, f.2.document)) hf'
  · rw [Dict.get?_eq_none_iff] at hnone ⊢
    rw [hkeys]
    exact fun hmem => hnone ((perm.map Prod.fst).mem_iff.mpr hmem)

theorem reads_record {names : List String} {body : Row → Option α} {fields : List (String × Json)} {a : α}
    (hnames : ∀ f ∈ fields, f.1 ∈ names) (hnodup : (fields.map Prod.fst).Nodup)
    (h : ∀ row, Shows row fields depth → body row = some a) :
    (record names body).Reads (depth + 1) (.obj fields) a := by
  intro j' hj'
  cases hj' with
  | @obj _ order fields' perm each =>
    have hkeys : fields'.map Prod.fst = order.map Prod.fst := keys_eq each
    have hnodup' : (fields'.map Prod.fst).Nodup := hkeys ▸ (perm.map Prod.fst).nodup_iff.mp hnodup
    have hnames' : ∀ f ∈ fields', f.1 ∈ names := by
      intro f hf
      have hmem : f.1 ∈ order.map Prod.fst := hkeys ▸ List.mem_map_of_mem hf
      obtain ⟨g, hg, hkey⟩ := List.mem_map.mp hmem
      exact hkey ▸ hnames g (perm.mem_iff.mpr hg)
    have hknown : knownFields names (fieldDocuments fields') [] =
        some (fields'.map fun f => (f.1, f.2.document)) := knownFields_eq hnames' hnodup' fun _ _ => rfl
    rw [document, record, hknown]
    exact h _ (shows_of_shuffled hnodup perm each depth)

theorem reads_closedRecord {names : List String} {body : Row → Option α} {fields : List (String × Json)} {a : α}
    (hnames : ∀ f ∈ fields, f.1 ∈ names) (hnodup : (fields.map Prod.fst).Nodup)
    (h : ∀ row, Shows row fields depth → body row = some a) :
    (closedRecord names body).Reads (depth + 1) (.obj fields) a := by
  intro j' hj'
  have hrecord := reads_record hnames hnodup h j' hj'
  cases hj' with
  | @obj _ order fields' perm each =>
    rw [document] at hrecord ⊢
    rw [closedRecord, if_pos]
    · exact hrecord
    · rw [fieldDocuments_eq, List.all_map, List.all_eq_true]
      intro f hf
      have hmem : f.1 ∈ order.map Prod.fst := keys_eq each ▸ List.mem_map_of_mem hf
      obtain ⟨g, hg, hkey⟩ := List.mem_map.mp hmem
      simpa using hkey ▸ hnames g (perm.mem_iff.mpr hg)

theorem yields_record {names : List String} {body : Row → Option α} {P : α → Prop}
    (h : ∀ row a, body row = some a → P a) : (record names body).Yields P := by
  intro depth d a ha
  unfold record at ha
  split at ha
  · obtain ⟨fields, -, hbody⟩ := Option.bind_eq_some_iff.mp ha
    exact h _ _ hbody
  · split at ha
    · exact h _ _ ha
    · cases ha
  · cases ha

section Row

variable {row : Row} {fields : List (String × Json)} {name : String} {j : Json} {a default : α} {P : α → Prop}

theorem Shows.get (hrow : Shows row fields depth) (hj : Dict.get? name fields = some j) (h : dec.Reads depth j a) :
    row.get name dec = some a := by
  obtain ⟨j', hj', hget⟩ := hrow.there hj
  rw [Row.get, hget, hrow.depth]
  exact h j' hj'

theorem Shows.getD (hrow : Shows row fields depth) (hj : Dict.get? name fields = some j) (h : dec.Reads depth j a) :
    row.getD name dec default = some a := by
  obtain ⟨j', hj', hget⟩ := hrow.there hj
  rw [Row.getD, hget, hrow.depth]
  exact h j' hj'

theorem Shows.getD_missing (hrow : Shows row fields depth) (hj : Dict.get? name fields = none) :
    row.getD name dec default = some default := by
  rw [Row.getD, hrow.missing hj]

theorem Shows.getOption {o : Option α} (hrow : Shows row fields depth) (hj : Dict.get? name fields = some j)
    (h : (option dec).Reads depth j o) : row.getOption name dec = some o := by
  obtain ⟨j', hj', hget⟩ := hrow.there hj
  rw [Row.getOption, hget, hrow.depth]
  exact h j' hj'

theorem Yields.get (h : dec.Yields P) (ha : row.get name dec = some a) : P a := by
  obtain ⟨d, -, hd⟩ := Option.bind_eq_some_iff.mp ha
  exact h _ _ _ hd

theorem Yields.getD (h : dec.Yields P) (hdefault : P default) (ha : row.getD name dec default = some a) : P a := by
  unfold Row.getD at ha
  split at ha
  · cases ha
    exact hdefault
  · exact h _ _ _ ha

theorem Yields.getOption {o : Option α} (h : dec.Yields P) (ho : row.getOption name dec = some o) : ∀ a ∈ o, P a := by
  unfold Row.getOption at ho
  split at ho
  · split at ho <;> cases ho
    simp
  · exact yields_option h _ _ _ ho

end Row

/-! ## Choices and durations -/

theorem reads_choice {choices : List (String × α)} {name : String} {a : α} (h : Dict.get? name choices = some a) :
    (choice choices).Reads depth (.str name) a := by
  rintro _ ⟨⟩
  simp [choice, document, alternative, bare, h]

theorem reads_duration (d : Duration) : duration.Reads (depth + 1) (ofDuration d) d := by
  refine reads_closedRecord (by simp) (by simp) fun row hrow => ?_
  have hpos : 0 < nanosPerSecond := by decide
  have hsecs : d.seconds < Word.count64 := by
    have hlt := d.nanos_lt
    rw [Duration.bound, Nat.mul_comm] at hlt
    exact Nat.div_lt_of_lt_mul hlt
  have hnanos : d.subsecond < Word.count32 := Nat.lt_trans (Nat.mod_lt _ hpos) (by decide)
  have hwhole : d.seconds * nanosPerSecond + d.subsecond = d.nanos := Nat.div_add_mod' _ _
  have hfirst : row.get "secs" word64 = some d.seconds := hrow.get (by simp [Dict.get?]) (reads_word64 hsecs)
  have hsecond : row.get "nanos" word32 = some d.subsecond := hrow.get (by simp [Dict.get?]) (reads_word32 hnanos)
  simp only [hfirst, hsecond, hwhole, bind, Option.bind, Duration.ofNanos?, d.nanos_lt, dif_pos]

/-! ## Text -/

/-- However the members of its objects are ordered, the text of the value is read as `a`. -/
def Returns (dec : Decoder α) (j : Json) (a : α) : Prop := ∀ j', j.Shuffled j' → dec.run j'.compact = some a

/-- What is read from the document of a value is read from its text. -/
theorem Reads.returns {j : Json} {a : α} (h : dec.Reads Document.maxDepth j a) (hj : j.isWhole = true) :
    dec.Returns j a := by
  intro j' hj'
  rw [Decoder.run, parse?_compact j' (hj'.isWhole hj)]
  exact h j' hj'

theorem Yields.run {P : α → Prop} {a : α} (h : dec.Yields P) {text : String} (ha : dec.run text = some a) : P a := by
  obtain ⟨d, -, hd⟩ := Option.bind_eq_some_iff.mp ha
  exact h _ _ _ hd

end Overseer.Json.Decoder

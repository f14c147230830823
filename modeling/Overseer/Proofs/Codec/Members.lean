import Overseer.Proofs.Json.Reading
import Mathlib.Data.List.Perm.Basic
import Mathlib.Data.String.Basic

/-!
# The members of an object

A dictionary made from some entries does not depend on their order where no key comes twice, so an object
means the same however its members are ordered. `Shuffled` relates two values that differ in nothing else:
whoever writes a value may order its members as he likes.

* `Dict.sorted_ofList`: a dictionary lists its entries by ascending key.
* `Dict.ofList_eq`: the entries of a dictionary, in any order, make that dictionary.
* `Dict.get?_eq_some_iff`: where no key comes twice, an entry is found if and only if it is there.
* `Shuffled.isWhole`: the numbers of a value stay whole.
-/
namespace Overseer

namespace Dict

variable {α : Type} {key : String} {value : α}

instance (d : Dict α) : Decidable d.Sorted := inferInstanceAs (Decidable (List.Pairwise _ d))

/-! ## Entries in order -/

theorem mem_put {d : Dict α} {e : String × α} (h : e ∈ put key value d) : e = (key, value) ∨ e ∈ d := by
  induction d with
  | nil => exact Or.inl (List.mem_singleton.mp h)
  | cons f d ih =>
    obtain ⟨k, v⟩ := f
    rw [put] at h
    split at h
    · exact List.mem_cons.mp h
    split at h
    · exact (List.mem_cons.mp h).imp_right (List.mem_cons_of_mem _)
    · rcases List.mem_cons.mp h with rfl | h
      · exact Or.inr List.mem_cons_self
      · exact (ih h).imp_right (List.mem_cons_of_mem _)

theorem Sorted.put {d : Dict α} (hd : d.Sorted) : (put key value d).Sorted := by
  induction d with
  | nil => exact List.pairwise_singleton _ _
  | cons f d ih =>
    obtain ⟨k, v⟩ := f
    obtain ⟨hhead, htail⟩ := List.pairwise_cons.mp hd
    rw [Dict.put]
    split
    · rename_i hlt
      refine List.pairwise_cons.mpr ⟨fun e he => ?_, hd⟩
      rcases List.mem_cons.mp he with rfl | he
      · exact hlt
      · exact lt_trans hlt (hhead e he)
    · rename_i hnlt
      split
      · rename_i heq
        subst heq
        exact List.pairwise_cons.mpr ⟨hhead, htail⟩
      · rename_i hne
        have hlt : k < key := lt_of_le_of_ne (not_lt.mp hnlt) (Ne.symm hne)
        refine List.pairwise_cons.mpr ⟨fun e he => ?_, ih htail⟩
        rcases mem_put he with rfl | he
        · exact hlt
        · exact hhead e he

/-- A key that is not there yet is added. -/
theorem put_perm {d : Dict α} (h : ∀ e ∈ d, e.1 ≠ key) : (put key value d).Perm ((key, value) :: d) := by
  induction d with
  | nil => exact List.Perm.refl _
  | cons f d ih =>
    obtain ⟨k, v⟩ := f
    rw [put]
    split
    · exact List.Perm.refl _
    · rw [if_neg (Ne.symm (h _ List.mem_cons_self))]
      exact ((ih fun e he => h e (List.mem_cons_of_mem _ he)).cons _).trans (List.Perm.swap _ _ _)

theorem sorted_foldl {d : Dict α} (hd : d.Sorted) (entries : List (String × α)) :
    Sorted (entries.foldl (fun d e => put e.1 e.2 d) d) := by
  induction entries generalizing d with
  | nil => exact hd
  | cons e entries ih => exact ih hd.put

/-- A dictionary lists its entries by ascending key. -/
theorem sorted_ofList (entries : List (String × α)) : (ofList entries).Sorted :=
  sorted_foldl List.Pairwise.nil entries

theorem mem_foldl {d : Dict α} {e : String × α} {entries : List (String × α)}
    (h : e ∈ entries.foldl (fun d e => put e.1 e.2 d) d) : e ∈ d ∨ e ∈ entries := by
  induction entries generalizing d with
  | nil => exact Or.inl h
  | cons f entries ih =>
    rcases ih h with h | h
    · rcases mem_put h with rfl | h
      · exact Or.inr List.mem_cons_self
      · exact Or.inl h
    · exact Or.inr (List.mem_cons_of_mem _ h)

theorem mem_of_mem_ofList {e : String × α} {entries : List (String × α)} (h : e ∈ ofList entries) : e ∈ entries :=
  (mem_foldl h).resolve_left (List.not_mem_nil)

theorem foldl_perm {d : Dict α} {entries : List (String × α)} (hnodup : (entries.map Prod.fst).Nodup)
    (hnew : ∀ e ∈ d, e.1 ∉ entries.map Prod.fst) :
    (entries.foldl (fun d e => put e.1 e.2 d) d).Perm (entries ++ d) := by
  induction entries generalizing d with
  | nil => exact List.Perm.refl _
  | cons e entries ih =>
    rw [List.map_cons] at hnodup hnew
    obtain ⟨hfirst, hnodup⟩ := List.nodup_cons.mp hnodup
    have hput : (put e.1 e.2 d).Perm (e :: d) := put_perm fun f hf heq => hnew f hf (heq ▸ List.mem_cons_self)
    refine (ih hnodup fun f hf => ?_).trans ((hput.append_left _).trans List.perm_middle)
    rcases List.mem_cons.mp (hput.mem_iff.mp hf) with rfl | hf
    · exact hfirst
    · exact fun hmem => hnew f hf (List.mem_cons_of_mem _ hmem)

theorem Sorted.nodup {d : Dict α} (hd : d.Sorted) : (d.map Prod.fst).Nodup :=
  List.pairwise_map.mpr (hd.imp fun h => ne_of_lt h)

/-- The entries of a dictionary, in any order, make that dictionary. -/
theorem ofList_eq {d : Dict α} (hd : d.Sorted) {entries : List (String × α)} (h : entries.Perm d) :
    ofList entries = d := by
  have hnodup : (entries.map Prod.fst).Nodup := (h.map Prod.fst).nodup_iff.mpr hd.nodup
  have hperm : (ofList entries).Perm d := by
    have hfold := foldl_perm (d := []) hnodup (by simp)
    rw [List.append_nil] at hfold
    exact hfold.trans h
  exact hperm.eq_of_pairwise (fun a b _ _ hab hba => absurd hba (lt_asymm hab)) (sorted_ofList entries) hd

/-! ## Lookup -/

theorem mem_of_get? {d : Dict α} (h : get? key d = some value) : (key, value) ∈ d := by
  induction d with
  | nil => cases h
  | cons e d ih =>
    obtain ⟨k, v⟩ := e
    rw [get?] at h
    split at h
    · rename_i heq
      cases h
      exact heq ▸ List.mem_cons_self
    · exact List.mem_cons_of_mem _ (ih h)

/-- Where no key comes twice, an entry is found if and only if it is there. -/
theorem get?_eq_some_iff {d : Dict α} (hd : (d.map Prod.fst).Nodup) : get? key d = some value ↔ (key, value) ∈ d := by
  refine ⟨mem_of_get?, fun h => ?_⟩
  induction d with
  | nil => cases h
  | cons e d ih =>
    obtain ⟨k, v⟩ := e
    rw [List.map_cons, List.nodup_cons] at hd
    rw [get?]
    rcases List.mem_cons.mp h with heq | h
    · cases heq
      exact if_pos rfl
    · have hne : k ≠ key := by
        rintro rfl
        exact hd.1 (List.mem_map.mpr ⟨_, h, rfl⟩)
      rw [if_neg hne]
      exact ih hd.2 h

theorem get?_eq_none_iff {d : Dict α} : get? key d = none ↔ key ∉ d.map Prod.fst := by
  induction d with
  | nil => simp [get?]
  | cons e d ih =>
    obtain ⟨k, v⟩ := e
    rw [get?, List.map_cons, List.mem_cons, not_or]
    split
    · rename_i heq
      simp [heq]
    · rename_i hne
      rw [ih]
      exact ⟨fun h => ⟨Ne.symm hne, h⟩, fun h => h.2⟩

end Dict

namespace Json

/-! ## Values within values -/

/-- Induction over values, in which the items and the fields are met as members of their lists. -/
@[elab_as_elim]
theorem inductionOn {motive : Json → Prop} (j : Json) (null : motive .null) (bool : ∀ b, motive (.bool b))
    (num : ∀ x, motive (.num x)) (str : ∀ s, motive (.str s))
    (arr : ∀ items, (∀ i ∈ items, motive i) → motive (.arr items))
    (obj : ∀ fields, (∀ f ∈ fields, motive f.2) → motive (.obj fields)) : motive j :=
  @Json.rec motive (fun items => ∀ i ∈ items, motive i) (fun fields => ∀ f ∈ fields, motive f.2)
    (fun f => motive f.2) null bool num str arr obj
    (List.forall_mem_nil _) (fun _ _ hj hitems => List.forall_mem_cons.mpr ⟨hj, hitems⟩)
    (List.forall_mem_nil _) (fun _ _ hf hfields => List.forall_mem_cons.mpr ⟨hf, hfields⟩)
    (fun _ _ hj => hj) j

mutual

/-- The values in a value, itself included. -/
def parts : Json → List Json
  | .arr items => .arr items :: itemParts items
  | .obj fields => .obj fields :: fieldParts fields
  | .null => [.null]
  | .bool b => [.bool b]
  | .num x => [.num x]
  | .str s => [.str s]

def itemParts : List Json → List Json
  | [] => []
  | j :: rest => parts j ++ itemParts rest

def fieldParts : List (String × Json) → List Json
  | [] => []
  | (_, j) :: rest => parts j ++ fieldParts rest

end

mutual

/-- How deep arrays and objects nest in a value. -/
def depth : Json → Nat
  | .arr items => itemsDepth items + 1
  | .obj fields => fieldsDepth fields + 1
  | .null | .bool _ | .num _ | .str _ => 0

def itemsDepth : List Json → Nat
  | [] => 0
  | j :: rest => max (depth j) (itemsDepth rest)

def fieldsDepth : List (String × Json) → Nat
  | [] => 0
  | (_, j) :: rest => max (depth j) (fieldsDepth rest)

end

theorem mem_itemParts {j : Json} {items : List Json} : j ∈ itemParts items ↔ ∃ i ∈ items, j ∈ i.parts := by
  induction items with
  | nil => simp [itemParts]
  | cons i items ih => simp [itemParts, ih]

theorem mem_fieldParts {j : Json} {fields : List (String × Json)} :
    j ∈ fieldParts fields ↔ ∃ f ∈ fields, j ∈ f.2.parts := by
  induction fields with
  | nil => simp [fieldParts]
  | cons f fields ih => simp [fieldParts, ih]

theorem forall_parts_arr {Q : Json → Prop} {items : List Json} :
    (∀ p ∈ (Json.arr items).parts, Q p) ↔ Q (.arr items) ∧ ∀ i ∈ items, ∀ p ∈ i.parts, Q p := by
  rw [parts, List.forall_mem_cons]
  refine and_congr_right fun _ => ⟨fun h i hi p hp => h p (mem_itemParts.mpr ⟨i, hi, hp⟩), fun h p hp => ?_⟩
  obtain ⟨i, hi, hp⟩ := mem_itemParts.mp hp
  exact h i hi p hp

theorem forall_parts_obj {Q : Json → Prop} {fields : List (String × Json)} :
    (∀ p ∈ (Json.obj fields).parts, Q p) ↔ Q (.obj fields) ∧ ∀ f ∈ fields, ∀ p ∈ f.2.parts, Q p := by
  rw [parts, List.forall_mem_cons]
  refine and_congr_right fun _ => ⟨fun h f hf p hp => h p (mem_fieldParts.mpr ⟨f, hf, hp⟩), fun h p hp => ?_⟩
  obtain ⟨f, hf, hp⟩ := mem_fieldParts.mp hp
  exact h f hf p hp

theorem itemsDepth_le {n : Nat} {items : List Json} : itemsDepth items ≤ n ↔ ∀ i ∈ items, i.depth ≤ n := by
  induction items with
  | nil => simp [itemsDepth]
  | cons i items ih => simp [itemsDepth, ih]

theorem fieldsDepth_le {n : Nat} {fields : List (String × Json)} :
    fieldsDepth fields ≤ n ↔ ∀ f ∈ fields, f.2.depth ≤ n := by
  induction fields with
  | nil => simp [fieldsDepth]
  | cons f fields ih => simp [fieldsDepth, ih]

theorem isWhole_arr {items : List Json} : (Json.arr items).isWhole = true ↔ ∀ i ∈ items, i.isWhole = true := by
  rw [Json.isWhole]
  induction items with
  | nil => simp [areWhole]
  | cons i items ih => simp [areWhole, ih]

theorem isWhole_obj {fields : List (String × Json)} :
    (Json.obj fields).isWhole = true ↔ ∀ f ∈ fields, f.2.isWhole = true := by
  rw [Json.isWhole]
  induction fields with
  | nil => simp [haveWhole]
  | cons f fields ih => simp [haveWhole, ih]

@[simp] theorem isWhole_str (s : String) : (Json.str s).isWhole = true := rfl

@[simp] theorem isWhole_nat (n : Nat) : (Json.nat n).isWhole = true := rfl

/-- Whether a number is whole and a word of 64 bits holds it, signed or not. `-0` is read as a real number. -/
def Number.isWord : Number → Bool
  | .int n => -(Word.half64 : Int) ≤ n ∧ n < Word.count64
  | .real x => x = Binary64.zero true

/-- Whether a value is a word, if it is a number at all. -/
def fitsWord : Json → Bool
  | .num x => x.isWord
  | .null | .bool _ | .str _ | .arr _ | .obj _ => true

/-- All numbers in a value are words. -/
def HasWords (j : Json) : Prop := ∀ p ∈ j.parts, p.fitsWord = true

/-- The members of every object in a value stand by ascending key. -/
def Ordered (j : Json) : Prop := ∀ p ∈ j.parts, Dict.Sorted p.fields

instance (j : Json) : Decidable j.HasWords := inferInstanceAs (Decidable (∀ p ∈ j.parts, p.fitsWord = true))

instance (j : Json) : Decidable j.Ordered := inferInstanceAs (Decidable (∀ p ∈ j.parts, Dict.Sorted p.fields))

theorem hasWords_arr {items : List Json} : HasWords (.arr items) ↔ ∀ i ∈ items, i.HasWords :=
  forall_parts_arr.trans (and_iff_right rfl)

theorem hasWords_obj {fields : List (String × Json)} : HasWords (.obj fields) ↔ ∀ f ∈ fields, f.2.HasWords :=
  forall_parts_obj.trans (and_iff_right rfl)

theorem ordered_arr {items : List Json} : Ordered (.arr items) ↔ ∀ i ∈ items, i.Ordered :=
  forall_parts_arr.trans (and_iff_right List.Pairwise.nil)

theorem ordered_obj {fields : List (String × Json)} :
    Ordered (.obj fields) ↔ Dict.Sorted fields ∧ ∀ f ∈ fields, f.2.Ordered := forall_parts_obj

/-- Words are whole. -/
theorem HasWords.isWhole {j : Json} (hj : j.HasWords) : j.isWhole = true := by
  induction j using inductionOn with
  | null | bool | str => rfl
  | num x =>
    have hx : x.isWord = true := hj _ (List.mem_singleton.mpr rfl)
    cases x with
    | int n => rfl
    | real x => simpa [Json.isWhole, Number.isWhole, Number.isWord] using hx
  | arr items ih => exact isWhole_arr.mpr fun i hi => ih i hi (hasWords_arr.mp hj i hi)
  | obj fields ih => exact isWhole_obj.mpr fun f hf => ih f hf (hasWords_obj.mp hj f hf)

theorem itemDocuments_eq (items : List Json) : itemDocuments items = items.map document := by
  induction items with
  | nil => rfl
  | cons j items ih => rw [itemDocuments, ih, List.map_cons]

theorem fieldDocuments_eq (fields : List (String × Json)) :
    fieldDocuments fields = fields.map fun f => (some f.1, f.2.document) := by
  induction fields with
  | nil => rfl
  | cons f fields ih =>
    obtain ⟨k, j⟩ := f
    rw [fieldDocuments, ih, List.map_cons]

/-! ## Members in another order -/

mutual

/-- Values that differ in the order of the members of their objects only. -/
inductive Shuffled : Json → Json → Prop
  | null : Shuffled .null .null
  | bool (b : Bool) : Shuffled (.bool b) (.bool b)
  | num (x : Number) : Shuffled (.num x) (.num x)
  | str (s : String) : Shuffled (.str s) (.str s)
  | arr {items items' : List Json} (each : List.Forall₂ Shuffled items items') : Shuffled (.arr items) (.arr items')
  | obj {fields order fields' : List (String × Json)} (perm : fields.Perm order)
      (each : List.Forall₂ ShuffledMember order fields') : Shuffled (.obj fields) (.obj fields')

/-- Members of one key with such values. -/
inductive ShuffledMember : String × Json → String × Json → Prop
  | mk (key : String) {j j' : Json} (value : Shuffled j j') : ShuffledMember (key, j) (key, j')

end

theorem Shuffled.refl (j : Json) : j.Shuffled j := by
  induction j using inductionOn with
  | null => exact .null
  | bool b => exact .bool b
  | num x => exact .num x
  | str s => exact .str s
  | arr items ih => exact .arr (List.forall₂_same.mpr ih)
  | obj fields ih => exact .obj (List.Perm.refl _) (List.forall₂_same.mpr fun f hf => .mk f.1 (ih f hf))

/-- Each of the second list has its counterpart in the first. -/
theorem exists_of_forall₂ {α β : Type} {R : α → β → Prop} {l : List α} {l' : List β} (h : List.Forall₂ R l l')
    {b : β} (hb : b ∈ l') : ∃ a ∈ l, R a b := by
  induction h with
  | nil => exact absurd hb List.not_mem_nil
  | cons hab _ ih =>
    rcases List.mem_cons.mp hb with rfl | hb
    · exact ⟨_, List.mem_cons_self, hab⟩
    · obtain ⟨a, ha, hab⟩ := ih hb
      exact ⟨a, List.mem_cons_of_mem _ ha, hab⟩

/-- The numbers of a value stay whole. -/
theorem Shuffled.isWhole {j j' : Json} (h : j.Shuffled j') (hj : j.isWhole = true) : j'.isWhole = true := by
  induction j using inductionOn generalizing j' with
  | null | bool | num | str => cases h; exact hj
  | arr items ih =>
    cases h with
    | arr each =>
      rw [isWhole_arr] at hj ⊢
      intro i' hi'
      obtain ⟨i, hi, hshuffled⟩ := exists_of_forall₂ each hi'
      exact ih i hi hshuffled (hj i hi)
  | obj fields ih =>
    cases h with
    | obj perm each =>
      rw [isWhole_obj] at hj ⊢
      intro f' hf'
      obtain ⟨f, hf, hmember⟩ := exists_of_forall₂ each hf'
      cases hmember with
      | mk key hvalue => exact ih _ (perm.mem_iff.mpr hf) hvalue (hj _ (perm.mem_iff.mpr hf))

theorem keys_eq {order fields' : List (String × Json)} (each : List.Forall₂ ShuffledMember order fields') :
    fields'.map Prod.fst = order.map Prod.fst := by
  induction each with
  | nil => rfl
  | cons hmember _ ih =>
    cases hmember
    rw [List.map_cons, List.map_cons, ih]

end Json

end Overseer

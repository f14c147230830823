import Mathlib.Tactic.SplitIfs
import Overseer.Utf8

/-!
# The encoding of texts

UTF-8 keeps the order of texts: the bytes of a character come before those of every greater one, whatever
follows them. So sorting texts by their characters and by their bytes is the same.

* `fromUTF8?_eq_some_iff`: bytes are read as the text that they encode.
* `bytes_lex_iff`: texts are in the order of their bytes.
-/
namespace Overseer.Utf8

theorem bytes_append (a b : String) : bytes (a ++ b) = bytes a ++ bytes b := by
  simp [bytes, String.toByteArray_append]

theorem bytes_eq_flatMap (s : String) : bytes s = s.toList.flatMap String.utf8EncodeChar := by
  obtain ⟨cs, rfl⟩ : ∃ cs, s = String.ofList cs := ⟨s.toList, String.ofList_toList.symm⟩
  rw [String.toList_ofList, bytes, String.toUTF8_eq_toByteArray, String.toByteArray_ofList,
    List.utf8Encode, List.data_toByteArray]

/-- Bytes are read as the text that they encode. -/
theorem fromUTF8?_eq_some_iff {b : ByteArray} {s : String} : String.fromUTF8? b = some s ↔ b = s.toUTF8 := by
  unfold String.fromUTF8?
  constructor
  · intro h
    split at h
    · cases h; rfl
    · cases h
  · rintro rfl
    rw [String.toUTF8_eq_toByteArray, dif_pos s.isValidUTF8]
    rfl

theorem fromUTF8?_toUTF8 (s : String) : String.fromUTF8? s.toUTF8 = some s := fromUTF8?_eq_some_iff.mpr rfl

/-! ## Order -/

/-- The bytes of a character come before those of a greater one, whatever follows. -/
theorem encode_lex {c d : Char} (h : c < d) (x y : Bytes) :
    List.Lex (· < ·) (String.utf8EncodeChar c ++ x) (String.utf8EncodeChar d ++ y) := by
  have hlt : c.val.toNat < d.val.toNat := h
  have valid : d.val.toNat < 55296 ∨ (57343 < d.val.toNat ∧ d.val.toNat < 1114112) := d.valid
  -- the payloads of the bytes are the digits of the character to the base 64
  have digits (k : Nat) : k / 4096 = k / 64 / 64 ∧ k / 262144 = k / 64 / 64 / 64 := by omega
  simp only [String.utf8EncodeChar, fun k => (digits k).1, fun k => (digits k).2]
  generalize c.val.toNat = m at *
  generalize d.val.toNat = n at *
  split_ifs
  all_goals
    simp only [List.cons_append, List.nil_append, List.cons_lex_cons_iff, UInt8.lt_iff_toNat_lt,
      ← UInt8.toNat_inj, UInt8.toNat_ofNat']
    omega

theorem lex_append_left (x : Bytes) {y z : Bytes} (h : List.Lex (· < ·) y z) :
    List.Lex (· < ·) (x ++ y) (x ++ z) := by
  induction x with
  | nil => exact h
  | cons b x ih => exact .cons ih

theorem lex_flatMap {cs ds : List Char} (h : List.Lex (· < ·) cs ds) :
    List.Lex (· < ·) (cs.flatMap String.utf8EncodeChar) (ds.flatMap String.utf8EncodeChar) := by
  induction h with
  | @nil d ds =>
    obtain ⟨b, x, hbx⟩ := List.exists_cons_of_ne_nil (String.utf8EncodeChar_ne_nil (c := d))
    rw [List.flatMap_cons, hbx]
    exact .nil
  | rel h => exact encode_lex h _ _
  | cons _ ih => exact lex_append_left _ ih

/-- Texts are in the order of their bytes. -/
theorem bytes_lex_iff {s t : String} : List.Lex (· < ·) (bytes s) (bytes t) ↔ s < t := by
  have forth {s t : String} (h : s < t) : List.Lex (· < ·) (bytes s) (bytes t) := by
    rw [bytes_eq_flatMap, bytes_eq_flatMap]
    exact lex_flatMap h
  refine ⟨fun h => Decidable.byContradiction fun hst => ?_, forth⟩
  by_cases hts : t < s
  · exact List.lex_asymm (fun h h' => UInt8.lt_asymm h h') h (forth hts)
  · rw [String.le_antisymm hts hst] at h
    exact List.lex_irrefl UInt8.lt_irrefl _ h

end Overseer.Utf8

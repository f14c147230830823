import Overseer.Proofs.Json.Text
import Mathlib.Data.Nat.Digits.Defs

/-!
# Text that is written is read back

`Json.compact` is read back by `Document.parse?` where all numbers are whole, however large they are: the
document has a literal with the digits of the number. What a reader takes the literal for is its own affair.
The real number `-0` is whole too; it is what readers take `-0` for, and it is written with a fraction.

* `readNumber_text`: a whole number is read back.
* `readValue_chars`: a value is read back, and its reading stops where it ends.
* `parse?_compact`: the text of a value is read as its document.
* `newline_not_mem_chars`: the text of a value is one line.
-/
namespace Overseer.Json

open Document

/-! ## Digits -/

/-- The decimal digits of a number. -/
def decimals (n : Nat) : List Nat := (Nat.toDigits 10 n).map fun c => c.toNat - 48

/-- The literal written for a whole number. -/
def Literal.ofInt (n : Int) : Literal := ⟨decide (n < 0), decimals n.natAbs, none, none⟩

/-- The literal written for the real number `-0`. -/
def Literal.minusZero : Literal := ⟨true, [0], some [0], none⟩

/-- Whether a number is whole: a number read as whole, or `-0`. -/
def Number.isWhole : Number → Bool
  | .int _ => true
  | .real x => x = Binary64.zero true

@[simp] theorem Number.isWhole_int (n : Int) : (Number.int n).isWhole = true := rfl

/-- The literal written for a number that is whole. -/
def Number.literal : Number → Literal
  | .int n => .ofInt n
  | .real _ => .minusZero

theorem digit?_of_isDigit {c : Char} (h : c.isDigit = true) : digit? c = some (c.toNat - 48) := by
  simp only [Char.isDigit, Bool.and_eq_true, decide_eq_true_eq] at h
  exact if_pos h

theorem exists_digit (n : Nat) : ∃ c cs, Nat.toDigits 10 n = c :: cs ∧ c.isDigit = true := by
  obtain ⟨c, cs, hcs⟩ := List.exists_cons_of_length_pos (Nat.length_toDigits_pos (b := 10) (n := n))
  exact ⟨c, cs, hcs, Nat.isDigit_of_mem_toDigits (b := 10) (n := n) (by decide) (by decide) (by rw [hcs]; simp)⟩

theorem decimals_ne_nil (n : Nat) : decimals n ≠ [] := by
  obtain ⟨c, cs, hcs, -⟩ := exists_digit n
  simp [decimals, hcs]

theorem ofDigits_decimals (n : Nat) : Number.ofDigits (decimals n) = n := by
  have h : Nat.ofDigitChars 10 (Nat.toDigits 10 n) 0 = n := Nat.ofDigitChars_ten_toDigits
  rw [Nat.ofDigitChars] at h
  rw [Number.ofDigits, decimals, List.foldl_map]
  simpa [Nat.mul_comm] using h

/-- Only zero is written with a zero in front. -/
theorem eq_zero_of_head_decimals {n : Nat} (h : (decimals n).head? = some 0) : n = 0 := by
  induction n using Nat.strongRecOn with
  | ind n ih =>
    rw [decimals, List.head?_map] at h
    by_cases hn : n < 10
    · rw [Nat.toDigits_of_lt_base hn] at h
      have hall : ∀ m < 10, (Nat.digitChar m).toNat - 48 = m := by decide
      simpa [hall n hn] using h
    · rw [Nat.toDigits_of_base_le (by decide) (by omega), List.head?_append] at h
      obtain ⟨c, cs, hcs, -⟩ := exists_digit (n / 10)
      have hless := ih (n / 10) (by omega) (by rw [decimals, List.head?_map]; simpa [hcs] using h)
      omega

/-- What can follow a value: nothing, or the end of an item, an array or an object. -/
def Closing (rest : List Char) : Prop := ∀ c ∈ rest.head?, c = ',' ∨ c = ']' ∨ c = '}'

theorem closing_cons {c : Char} {rest : List Char} (h : c = ',' ∨ c = ']' ∨ c = '}') : Closing (c :: rest) := by
  intro d hd
  cases hd
  exact h

theorem takeDigits_append {cs rest : List Char} (hcs : ∀ c ∈ cs, c.isDigit = true) (hrest : Closing rest) :
    takeDigits (cs ++ rest) = (cs.map fun c => c.toNat - 48, rest) := by
  induction cs with
  | nil =>
    cases rest with
    | nil => rfl
    | cons c rest =>
      rcases hrest c rfl with rfl | rfl | rfl <;> rfl
  | cons c cs ih =>
    rw [List.cons_append, takeDigits, digit?_of_isDigit (hcs c List.mem_cons_self)]
    simp only [ih fun c hc => hcs c (List.mem_cons_of_mem _ hc), List.map_cons]

theorem readWhole_decimals (n : Nat) {rest : List Char} (hrest : Closing rest) :
    readWhole (Nat.toDigits 10 n ++ rest) = some (decimals n, rest) := by
  have htake : takeDigits (Nat.toDigits 10 n ++ rest) = (decimals n, rest) :=
    takeDigits_append (fun c hc => Nat.isDigit_of_mem_toDigits (by decide) (by decide) hc) hrest
  unfold readWhole
  split
  · rename_i heq
    rw [htake] at heq
    exact absurd (congrArg Prod.fst heq) (decimals_ne_nil n)
  · rename_i heq
    rw [htake] at heq
    have hdigits : decimals n = 0 :: _ :: _ := congrArg Prod.fst heq
    have hzero := eq_zero_of_head_decimals (n := n) (by rw [hdigits]; rfl)
    rw [hzero] at hdigits
    cases hdigits
  · rename_i heq
    rw [htake] at heq
    cases heq
    rfl

theorem text_ofNat (n : Nat) : (Number.int (Int.ofNat n)).text.toList = Nat.toDigits 10 n := Nat.toList_repr

theorem text_negSucc (n : Nat) : (Number.int (Int.negSucc n)).text.toList = '-' :: Nat.toDigits 10 (n + 1) := by
  have htext : (Number.int (Int.negSucc n)).text = "-" ++ Nat.repr (n + 1) := rfl
  rw [htext, String.toList_append, Nat.toList_repr]
  rfl

theorem readExponent_closing {rest : List Char} (hrest : Closing rest) :
    readExponent rest = some (none, rest) := by
  cases rest with
  | nil => rfl
  | cons c rest => rcases hrest c rfl with rfl | rfl | rfl <;> rfl

theorem readNumber_int (n : Int) {rest : List Char} (hrest : Closing rest) :
    readNumber ((Number.int n).text.toList ++ rest) = some (Literal.ofInt n, rest) := by
  have hfraction : readFraction rest = some (none, rest) := by
    cases rest with
    | nil => rfl
    | cons c rest => rcases hrest c rfl with rfl | rfl | rfl <;> rfl
  have hexponent := readExponent_closing hrest
  cases n with
  | ofNat n =>
    obtain ⟨c, cs, hcs, hc⟩ := exists_digit n
    have hfront : ∀ r, Nat.toDigits 10 n ++ rest ≠ '-' :: r := by
      intro r h
      rw [hcs] at h
      cases h
      cases hc
    rw [text_ofNat]
    unfold readNumber
    split
    rename_i h
    split at h
    · rename_i heq
      exact absurd heq (hfront _)
    cases h
    simp [readWhole_decimals n hrest, hfraction, hexponent, Literal.ofInt]
  | negSucc n =>
    rw [text_negSucc]
    unfold readNumber
    simp [readWhole_decimals (n + 1) hrest, hfraction, hexponent, Literal.ofInt]

theorem text_minusZero : (Number.real (Binary64.zero true)).text.toList = ['-', '0', '.', '0'] := rfl

theorem readNumber_minusZero {rest : List Char} (hrest : Closing rest) :
    readNumber (['-', '0', '.', '0'] ++ rest) = some (Literal.minusZero, rest) := by
  have hwhole : readWhole ('0' :: '.' :: '0' :: rest) = some ([0], '.' :: '0' :: rest) := rfl
  have hdigits : takeDigits (['0'] ++ rest) = ([0], rest) :=
    takeDigits_append (List.forall_mem_singleton.mpr rfl) hrest
  rw [List.singleton_append] at hdigits
  have hexponent := readExponent_closing hrest
  simp [readNumber, hwhole, Document.readFraction, hdigits, hexponent, Literal.minusZero]

/-- A whole number is read back. -/
theorem readNumber_text (x : Number) (hx : x.isWhole = true) {rest : List Char} (hrest : Closing rest) :
    readNumber (x.text.toList ++ rest) = some (x.literal, rest) := by
  cases x with
  | int n => exact readNumber_int n hrest
  | real x =>
    obtain rfl : x = Binary64.zero true := by simpa [Number.isWhole] using hx
    rw [text_minusZero]
    exact readNumber_minusZero hrest

/-! ## Values -/

mutual

/-- Whether all numbers in a value are whole. -/
def isWhole : Json → Bool
  | .num x => x.isWhole
  | .arr items => areWhole items
  | .obj fields => haveWhole fields
  | .null | .bool _ | .str _ => true

def areWhole : List Json → Bool
  | [] => true
  | j :: rest => isWhole j && areWhole rest

def haveWhole : List (String × Json) → Bool
  | [] => true
  | (_, j) :: rest => isWhole j && haveWhole rest

end

mutual

/-- What the text of a value is read as, if all numbers in it are whole. -/
def document : Json → Document
  | .null => .null
  | .bool b => .bool b
  | .num x => .num x.literal
  | .str s => .str (some s)
  | .arr items => .arr (itemDocuments items)
  | .obj fields => .obj (fieldDocuments fields)

def itemDocuments : List Json → List Document
  | [] => []
  | j :: rest => document j :: itemDocuments rest

def fieldDocuments : List (String × Json) → List (Option String × Document)
  | [] => []
  | (k, j) :: rest => (some k, document j) :: fieldDocuments rest

end

theorem skipBlanks_cons {c : Char} (h : Document.isBlank c = false) (rest : List Char) :
    skipBlanks (c :: rest) = c :: rest := by
  rw [skipBlanks, h]; rfl

/-- The character that a number begins with. -/
def Numeric (c : Char) : Prop := c = '-' ∨ c.isDigit = true

theorem Numeric.ne {c d : Char} (h : Numeric c) (hd : d ≠ '-' ∧ d.isDigit = false) : c ≠ d := by
  rintro rfl
  rcases h with h | h
  · exact hd.1 h
  · rw [hd.2] at h; cases h

theorem Numeric.isBlank {c : Char} (h : Numeric c) : Document.isBlank c = false := by
  simp only [Document.isBlank, Bool.or_eq_false_iff, decide_eq_false_iff_not]
  exact ⟨⟨⟨h.ne (by decide), h.ne (by decide)⟩, h.ne (by decide)⟩, h.ne (by decide)⟩

theorem front_int (n : Int) : ∃ c cs, (Number.int n).text.toList = c :: cs ∧ Numeric c := by
  cases n with
  | ofNat n =>
    obtain ⟨c, cs, hcs, hc⟩ := exists_digit n
    exact ⟨c, cs, (text_ofNat n).trans hcs, Or.inr hc⟩
  | negSucc n => exact ⟨'-', _, text_negSucc n, Or.inl rfl⟩

theorem front_number (x : Number) (hx : x.isWhole = true) : ∃ c cs, x.text.toList = c :: cs ∧ Numeric c := by
  cases x with
  | int n => exact front_int n
  | real x =>
    obtain rfl : x = Binary64.zero true := by simpa [Number.isWhole] using hx
    exact ⟨'-', _, text_minusZero, Or.inl rfl⟩

/-- The text of a value begins with a character that neither is blank nor ends an array. -/
theorem front_chars (j : Json) (hj : j.isWhole = true) :
    ∃ c cs, chars j = c :: cs ∧ Document.isBlank c = false ∧ c ≠ ']' := by
  cases j with
  | null => exact ⟨'n', _, by rw [chars], by decide, by decide⟩
  | bool b =>
    cases b with
    | true => exact ⟨'t', _, by rw [chars], by decide, by decide⟩
    | false => exact ⟨'f', _, by rw [chars], by decide, by decide⟩
  | num x =>
    rw [isWhole] at hj
    obtain ⟨c, cs, hcs, hc⟩ := front_number x hj
    exact ⟨c, cs, by rw [chars, hcs], hc.isBlank, hc.ne (by decide)⟩
  | str s => exact ⟨'"', _, by rw [chars, quoted], by decide, by decide⟩
  | arr items => exact ⟨'[', _, by rw [chars], by decide, by decide⟩
  | obj fields => exact ⟨'{', _, by rw [chars], by decide, by decide⟩

theorem itemChars_cons (j i : Json) (items : List Json) :
    itemChars (j :: i :: items) = chars j ++ ',' :: itemChars (i :: items) := by simp [itemChars]

theorem fieldChars_cons (k : String) (j : Json) (f : String × Json) (fields : List (String × Json)) :
    fieldChars ((k, j) :: f :: fields) = quoted k ++ ':' :: (chars j ++ ',' :: fieldChars (f :: fields)) := by
  simp [fieldChars]

theorem front_itemChars (j : Json) (items : List Json) (hj : j.isWhole = true) :
    ∃ c cs, itemChars (j :: items) = c :: cs ∧ Document.isBlank c = false ∧ c ≠ ']' := by
  obtain ⟨c, cs, hcs, hfront⟩ := front_chars j hj
  cases items with
  | nil => exact ⟨c, cs, by rw [itemChars, hcs], hfront⟩
  | cons i items => exact ⟨c, _, by rw [itemChars_cons, hcs, List.cons_append], hfront⟩

/-- The first field begins with a quote. -/
theorem front_fieldChars (f : String × Json) (fields : List (String × Json)) :
    ∃ cs, fieldChars (f :: fields) = '"' :: cs := by
  obtain ⟨k, j⟩ := f
  cases fields with
  | nil => exact ⟨_, by rw [fieldChars, quoted, List.cons_append]⟩
  | cons f fields => exact ⟨_, by rw [fieldChars_cons, quoted, List.cons_append]⟩

mutual

/-- A value is read back, and its reading stops where it ends. -/
theorem readValue_chars (j : Json) (hj : j.isWhole = true) (fuel : Nat) (hf : (chars j).length ≤ fuel)
    (rest : List Char) (hrest : Closing rest) :
    readValue fuel (chars j ++ rest) = some (document j, rest) := by
  obtain ⟨fuel, rfl⟩ : ∃ k, fuel = k + 1 := by
    obtain ⟨c, cs, hcs, -⟩ := front_chars j hj
    rw [hcs, List.length_cons] at hf
    exact ⟨fuel - 1, by omega⟩
  cases j with
  | null => rfl
  | bool b => cases b <;> rfl
  | num x =>
    rw [isWhole] at hj
    obtain ⟨c, cs, hcs, hc⟩ := front_number x hj
    have hnumber := readNumber_text x hj hrest
    rw [hcs, List.cons_append] at hnumber
    rw [chars, hcs, List.cons_append, readValue, skipBlanks_cons hc.isBlank]
    simp only [hc.ne (d := 'n') (by decide), hc.ne (d := 't') (by decide), hc.ne (d := 'f') (by decide),
      hc.ne (d := '"') (by decide), hc.ne (d := '[') (by decide), hc.ne (d := '{') (by decide), if_false,
      hnumber, document]
    rfl
  | str s =>
    obtain ⟨body, hbody, hread⟩ := readString_quoted s rest
    rw [chars, hbody, readValue, skipBlanks_cons (by decide)]
    simp only [Char.reduceEq, if_false, if_true, hread, document]
    rfl
  | arr items =>
    cases items with
    | nil => rfl
    | cons i items =>
      rw [isWhole] at hj
      have hi := hj
      rw [areWhole, Bool.and_eq_true] at hi
      obtain ⟨c, cs, hcs, hblank, hc⟩ := front_itemChars i items hi.1
      rw [chars, List.length_cons, List.length_append, List.length_singleton] at hf
      have hitems := readItems_chars (i :: items) (List.cons_ne_nil _ _) hj fuel (by omega) rest
      rw [hcs, List.cons_append] at hitems
      rw [chars, hcs, List.cons_append, List.append_assoc, List.cons_append, List.singleton_append, readValue,
        skipBlanks_cons (by decide)]
      simp only [Char.reduceEq, if_false, if_true, skipBlanks_cons hblank]
      split
      · rename_i heq
        cases heq
        exact absurd rfl hc
      rw [hitems, document]
      rfl
  | obj fields =>
    cases fields with
    | nil => rfl
    | cons f fields =>
      rw [isWhole] at hj
      obtain ⟨cs, hcs⟩ := front_fieldChars f fields
      rw [chars, List.length_cons, List.length_append, List.length_singleton] at hf
      have hfields := readFields_chars (f :: fields) (List.cons_ne_nil _ _) hj fuel (by omega) rest
      rw [hcs, List.cons_append] at hfields
      rw [chars, hcs, List.cons_append, List.append_assoc, List.cons_append, List.singleton_append, readValue,
        skipBlanks_cons (by decide)]
      simp only [Char.reduceEq, if_false, if_true, skipBlanks_cons (c := '"') (by decide)]
      split
      · rename_i heq; cases heq
      rw [hfields, document]
      rfl

/-- The items of an array are read back with the bracket behind them. -/
theorem readItems_chars (items : List Json) (hne : items ≠ []) (hw : areWhole items = true) (fuel : Nat)
    (hf : (itemChars items).length + 1 ≤ fuel) (rest : List Char) :
    readItems fuel (itemChars items ++ ']' :: rest) = some (itemDocuments items, rest) := by
  obtain ⟨fuel, rfl⟩ : ∃ k, fuel = k + 1 := ⟨fuel - 1, by omega⟩
  cases items with
  | nil => exact absurd rfl hne
  | cons j items =>
    rw [areWhole, Bool.and_eq_true] at hw
    cases items with
    | nil =>
      rw [itemChars] at hf ⊢
      have hj := readValue_chars j hw.1 fuel (by omega) (']' :: rest) (closing_cons (by decide))
      simp only [readItems, hj, skipBlanks_cons (c := ']') (by decide), bind, Option.bind]
      rfl
    | cons i items =>
      rw [itemChars_cons, List.length_append, List.length_cons] at hf
      rw [itemChars_cons, List.append_assoc, List.cons_append]
      have hj := readValue_chars j hw.1 fuel (by omega) (',' :: (itemChars (i :: items) ++ ']' :: rest))
        (closing_cons (by decide))
      have hitems := readItems_chars (i :: items) (List.cons_ne_nil _ _) hw.2 fuel (by omega) rest
      simp only [readItems, hj, skipBlanks_cons (c := ',') (by decide), hitems, bind, Option.bind]
      rfl

/-- The fields of an object are read back with the brace behind them. -/
theorem readFields_chars (fields : List (String × Json)) (hne : fields ≠ []) (hw : haveWhole fields = true)
    (fuel : Nat) (hf : (fieldChars fields).length + 1 ≤ fuel) (rest : List Char) :
    readFields fuel (fieldChars fields ++ '}' :: rest) = some (fieldDocuments fields, rest) := by
  obtain ⟨fuel, rfl⟩ : ∃ k, fuel = k + 1 := ⟨fuel - 1, by omega⟩
  cases fields with
  | nil => exact absurd rfl hne
  | cons f fields =>
    obtain ⟨k, j⟩ := f
    rw [haveWhole, Bool.and_eq_true] at hw
    cases fields with
    | nil =>
      rw [fieldChars, List.length_append, List.length_cons] at hf
      rw [fieldChars, List.append_assoc, List.cons_append]
      obtain ⟨body, hbody, hread⟩ := readString_quoted k (':' :: (chars j ++ '}' :: rest))
      have hj := readValue_chars j hw.1 fuel (by omega) ('}' :: rest) (closing_cons (by decide))
      rw [hbody]
      simp only [readFields, skipBlanks_cons (c := '"') (by decide), hread,
        skipBlanks_cons (c := ':') (by decide), hj, skipBlanks_cons (c := '}') (by decide), bind, Option.bind]
      rfl
    | cons f fields =>
      rw [fieldChars_cons, List.length_append, List.length_cons, List.length_append, List.length_cons] at hf
      rw [fieldChars_cons, List.append_assoc, List.cons_append, List.append_assoc, List.cons_append]
      obtain ⟨body, hbody, hread⟩ :=
        readString_quoted k (':' :: (chars j ++ ',' :: (fieldChars (f :: fields) ++ '}' :: rest)))
      have hj := readValue_chars j hw.1 fuel (by omega) (',' :: (fieldChars (f :: fields) ++ '}' :: rest))
        (closing_cons (by decide))
      have hfields := readFields_chars (f :: fields) (List.cons_ne_nil _ _) hw.2 fuel (by omega) rest
      rw [hbody]
      simp only [readFields, skipBlanks_cons (c := '"') (by decide), hread,
        skipBlanks_cons (c := ':') (by decide), hj, skipBlanks_cons (c := ',') (by decide), hfields, bind,
        Option.bind]
      rfl

end

theorem ofChars?_chars (j : Json) (hj : j.isWhole = true) : ofChars? (chars j) = some (document j) := by
  have hread := readValue_chars j hj ((chars j).length + 1) (by omega) [] (fun _ h => by cases h)
  rw [List.append_nil] at hread
  rw [ofChars?, hread]
  rfl

/-- The text of a value is read as its document. -/
theorem parse?_compact (j : Json) (hj : j.isWhole = true) : Document.parse? j.compact = some (document j) := by
  rw [Document.parse?, compact, String.toList_ofList, ofChars?_chars j hj]

/-! ## One line -/

theorem newline_not_mem_quotedChar (c : Char) : '\n' ∉ quotedChar c := by
  have hdigit : ∀ n < 32, hexDigit (n / 16) ≠ '\n' ∧ hexDigit (n % 16) ≠ '\n' := by decide
  unfold quotedChar
  split
  · decide
  split
  · decide
  split
  · decide
  split
  · decide
  split
  · decide
  split
  · decide
  split
  · decide
  split
  · rename_i h
    obtain ⟨hhigh, hlow⟩ := hdigit c.toNat h
    simp [hhigh.symm, hlow.symm]
  · rename_i hn _ _ _
    simp only [List.mem_singleton]
    rintro rfl
    exact hn rfl

theorem newline_not_mem_quoted (s : String) : '\n' ∉ quoted s := by
  simp only [quoted, List.mem_cons, List.mem_append, List.mem_flatMap, List.not_mem_nil, or_false, not_or,
    not_exists, not_and]
  exact ⟨by decide, fun c _ => newline_not_mem_quotedChar c, by decide⟩

theorem newline_not_mem_int (n : Int) : '\n' ∉ (Number.int n).text.toList := by
  have hdigits (n : Nat) : '\n' ∉ Nat.toDigits 10 n := fun h =>
    absurd (Nat.isDigit_of_mem_toDigits (by decide) (by decide) h) (by decide)
  cases n with
  | ofNat n =>
    rw [text_ofNat]
    exact hdigits n
  | negSucc n =>
    rw [text_negSucc, List.mem_cons, not_or]
    exact ⟨by decide, hdigits _⟩

mutual

/-- The text of a value is one line. -/
theorem newline_not_mem_chars (j : Json) (hj : j.isWhole = true) : '\n' ∉ chars j := by
  cases j with
  | null => decide
  | bool b => cases b <;> decide
  | num x =>
    rw [chars]
    cases x with
    | int n => exact newline_not_mem_int n
    | real x =>
      obtain rfl : x = Binary64.zero true := by simpa [isWhole, Number.isWhole] using hj
      rw [text_minusZero]
      decide
  | str s => rw [chars]; exact newline_not_mem_quoted s
  | arr items =>
    rw [isWhole] at hj
    have hitems := newline_not_mem_itemChars items hj
    rw [chars]
    simp [hitems]
  | obj fields =>
    rw [isWhole] at hj
    have hfields := newline_not_mem_fieldChars fields hj
    rw [chars]
    simp [hfields]

theorem newline_not_mem_itemChars (items : List Json) (hw : areWhole items = true) :
    '\n' ∉ itemChars items := by
  cases items with
  | nil => decide
  | cons j items =>
    rw [areWhole, Bool.and_eq_true] at hw
    have hj := newline_not_mem_chars j hw.1
    have hitems := newline_not_mem_itemChars items hw.2
    cases items with
    | nil => rw [itemChars]; exact hj
    | cons i items =>
      rw [itemChars_cons]
      simp [hj, hitems]

theorem newline_not_mem_fieldChars (fields : List (String × Json)) (hw : haveWhole fields = true) :
    '\n' ∉ fieldChars fields := by
  cases fields with
  | nil => decide
  | cons f fields =>
    obtain ⟨k, j⟩ := f
    rw [haveWhole, Bool.and_eq_true] at hw
    have hk := newline_not_mem_quoted k
    have hj := newline_not_mem_chars j hw.1
    have hfields := newline_not_mem_fieldChars fields hw.2
    cases fields with
    | nil =>
      rw [fieldChars]
      simp [hk, hj]
    | cons f fields =>
      rw [fieldChars_cons]
      simp [hk, hj, hfields]

end

end Overseer.Json

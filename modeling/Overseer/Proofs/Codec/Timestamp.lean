import Overseer.Timestamp
import Overseer.Proofs.Codec.Laws
import Mathlib.Data.Nat.Digits.Defs

/-!
# Timestamps are read back

Every part of a timestamp is written with all its digits and stands before a character that is no digit, so
a reader that takes fewer digits too stops where the part ends. The offset that is written is none. What is
read from any text is a real date and time: an offset moves the date by a day at most, and not out of the
calendar.

* `readDigits_append`: digits are read up to what follows them.
* `parse?_text`: a timestamp is read back, in any year and with a leap second too.
* `isValid_of_parse?`: what is read is a date and a time of day.
* `reads_timestamp`, `yields_timestamp`: the laws of the decoder.
-/
namespace Overseer.Timestamp

/-! ## Digits -/

/-- Digits that spell a number. -/
structure Spells (ds : List Char) (n : Nat) : Prop where
  digits : ∀ c ∈ ds, c.isDigit = true
  value : ds.foldl (fun n c => n * 10 + (c.toNat - 48)) 0 = n

/-- What follows the digits of a part: nothing, or a character that is no digit. -/
def Ends (rest : List Char) : Prop := ∀ c ∈ rest.head?, c.isDigit = false

theorem ends_cons {c : Char} {rest : List Char} (h : c.isDigit = false) : Ends (c :: rest) := by
  intro d hd
  cases hd
  exact h

theorem toList_pushn (s : String) (k : Nat) : (s.pushn '0' k).toList = s.toList ++ List.replicate k '0' := by
  rw [String.pushn_eq_repeat_push]
  induction k with
  | zero => simp [Nat.repeat]
  | succ k ih => rw [Nat.repeat, String.toList_push, ih, List.append_assoc, List.replicate_succ']

theorem toList_padded (width n : Nat) :
    (Duration.padded width n).toList =
      List.replicate (width - (Nat.toDigits 10 n).length) '0' ++ Nat.toDigits 10 n := by
  have hdigits : (toString n).toList = Nat.toDigits 10 n := Nat.toList_repr
  have hempty : "".toList = [] := rfl
  rw [Duration.padded, String.toList_append, toList_pushn, hempty, List.nil_append, ← String.length_toList, hdigits]

theorem spells_padded (width n : Nat) : Spells (Duration.padded width n).toList n := by
  have hvalue : (Nat.toDigits 10 n).foldl (fun n c => n * 10 + (c.toNat - 48)) 0 = n := by
    have h : Nat.ofDigitChars 10 (Nat.toDigits 10 n) 0 = n := Nat.ofDigitChars_ten_toDigits
    rw [Nat.ofDigitChars] at h
    simpa [Nat.mul_comm] using h
  have hzeros (k : Nat) : (List.replicate k '0').foldl (fun n c => n * 10 + (c.toNat - 48)) 0 = 0 := by
    induction k with
    | zero => rfl
    | succ k ih => rw [List.replicate_succ, List.foldl_cons]; exact ih
  rw [toList_padded]
  constructor
  · intro c hc
    rcases List.mem_append.mp hc with hc | hc
    · rw [List.eq_of_mem_replicate hc]
      rfl
    · exact Nat.isDigit_of_mem_toDigits (by decide) (by decide) hc
  · rw [List.foldl_append, hzeros, hvalue]

theorem padded_ne_nil (width n : Nat) : (Duration.padded width n).toList ≠ [] := by
  have hpos : 0 < (Nat.toDigits 10 n).length := Nat.length_toDigits_pos
  rw [toList_padded]
  intro h
  rw [(List.append_eq_nil_iff.mp h).2] at hpos
  cases hpos

theorem length_padded {width n : Nat} (hwidth : 0 < width) (hn : n < 10 ^ width) :
    (Duration.padded width n).toList.length = width := by
  have hlen : (Nat.toDigits 10 n).length ≤ width := (Nat.length_toDigits_le_iff (by decide) hwidth).mpr hn
  rw [toList_padded, List.length_append, List.length_replicate]
  omega

/-- Digits are read up to what follows them. -/
theorem readDigits_append {max n : Nat} {ds rest : List Char} (hds : Spells ds n) (hne : ds ≠ [])
    (hlen : ds.length ≤ max) (hrest : Ends rest) : readDigits max (ds ++ rest) = some (n, rest) := by
  have hend : (rest.take (max - ds.length)).takeWhile Char.isDigit = [] := by
    cases rest with
    | nil => simp
    | cons c rest =>
      cases max - ds.length with
      | zero => rfl
      | succ k => rw [List.take_succ_cons, List.takeWhile_cons, hrest c rfl]; rfl
  have htaken : ((ds ++ rest).take max).takeWhile Char.isDigit = ds := by
    rw [List.take_append, List.take_of_length_le hlen, List.takeWhile_append_of_pos hds.digits, hend, List.append_nil]
  simp only [readDigits, htaken, if_neg hne, hds.value, List.drop_left]

theorem isBlank_of_isDigit {c : Char} (h : c.isDigit = true) : isBlank c = false := by
  simp only [Char.isDigit, Bool.and_eq_true, decide_eq_true_eq] at h
  have hge : 48 ≤ c.toNat := h.1
  have hle : c.toNat ≤ 57 := h.2
  simp [isBlank, blankRanges]
  omega

/-- Nothing blank stands before digits. -/
theorem trimFront_append {n : Nat} {ds : List Char} (hds : Spells ds n) (hne : ds ≠ []) (rest : List Char) :
    trimFront (ds ++ rest) = ds ++ rest := by
  obtain ⟨c, cs, rfl⟩ := List.exists_cons_of_ne_nil hne
  rw [List.cons_append, trimFront, List.dropWhile_cons, isBlank_of_isDigit (hds.digits c List.mem_cons_self)]
  rfl

/-! ## Parts -/

/-- A part of two digits is read back. -/
theorem readPart_padded {n : Nat} (hn : n < 100) {rest : List Char} (hrest : Ends rest) :
    readPart ((Duration.padded 2 n).toList ++ rest) = some (n, rest) := by
  have hds := spells_padded 2 n
  rw [readPart, trimFront_append hds (padded_ne_nil 2 n)]
  exact readDigits_append hds (padded_ne_nil 2 n) (length_padded (by decide) hn).le hrest

theorem readMark_cons (mark : Char) (h : isBlank mark = false) (rest : List Char) :
    readMark mark (mark :: rest) = some rest := by
  rw [readMark, trimFront, List.dropWhile_cons, h]
  exact if_pos rfl

section Year

variable {n : Nat} {ds rest : List Char}

theorem readYear_digits (hds : Spells ds n) (hne : ds ≠ []) (hlen : ds.length ≤ 4) (hrest : Ends rest) :
    readYear (ds ++ rest) = some ((n : Int), rest) := by
  have hread := readDigits_append hds hne hlen hrest
  -- the first digit is no sign
  have hfront {c : Char} {cs : List Char} (heq : ds ++ rest = c :: cs) : c.isDigit = true := by
    obtain ⟨d, ds', rfl⟩ := List.exists_cons_of_ne_nil hne
    rw [List.cons_append] at heq
    exact (List.cons.inj heq).1 ▸ hds.digits d List.mem_cons_self
  rw [readYear, trimFront_append hds hne]
  split
  · rename_i heq
    cases hfront heq
  · rename_i heq
    cases hfront heq
  · rw [hread]
    rfl

/-- After a sign, digits are read without a bound. -/
theorem readDigits_all (hds : Spells ds n) (hne : ds ≠ []) (hrest : Ends rest) :
    readDigits (ds ++ rest).length (ds ++ rest) = some (n, rest) :=
  readDigits_append hds hne (by rw [List.length_append]; omega) hrest

theorem readYear_minus (hds : Spells ds n) (hne : ds ≠ []) (hrest : Ends rest) :
    readYear ('-' :: (ds ++ rest)) = some (-(n : Int), rest) := by
  have htrim : trimFront ('-' :: (ds ++ rest)) = '-' :: (ds ++ rest) := rfl
  rw [readYear, htrim]
  simp only [readDigits_all hds hne hrest, Option.map_some]

theorem readYear_plus (hds : Spells ds n) (hne : ds ≠ []) (hrest : Ends rest) :
    readYear ('+' :: (ds ++ rest)) = some ((n : Int), rest) := by
  have htrim : trimFront ('+' :: (ds ++ rest)) = '+' :: (ds ++ rest) := rfl
  rw [readYear, htrim]
  simp only [readDigits_all hds hne hrest, Option.map_some]

end Year

/-- A year is read back, be it written with a sign or without. -/
theorem readYear_yearText (y : Int) {rest : List Char} (hrest : Ends rest) :
    readYear ((yearText y).toList ++ rest) = some (y, rest) := by
  have hsign (sign : Char) (n : Nat) : (String.singleton sign ++ Duration.padded 4 n).toList ++ rest =
      sign :: ((Duration.padded 4 n).toList ++ rest) := by simp
  rw [yearText]
  split
  · rw [readYear_digits (spells_padded 4 _) (padded_ne_nil 4 _) (length_padded (by decide) (by omega)).le hrest]
    congr 2
    omega
  split
  · rw [show "-" = String.singleton '-' from rfl, hsign, readYear_minus (spells_padded 4 _) (padded_ne_nil 4 _) hrest]
    congr 2
    omega
  · rw [show "+" = String.singleton '+' from rfl, hsign, readYear_plus (spells_padded 4 _) (padded_ne_nil 4 _) hrest]
    congr 2
    omega

/-- A fraction of some digits is read back in nanoseconds. -/
theorem readFraction_padded {width n : Nat} (hwidth : 0 < width) (hn : n < 10 ^ width) (hle : width ≤ 9) :
    Timestamp.readFraction ('.' :: ((Duration.padded width n).toList ++ ['Z'])) =
      some (n * Nat.pow 10 (9 - width), ['Z']) := by
  have hlen := length_padded hwidth hn
  have hread : readDigits 9 ((Duration.padded width n).toList ++ ['Z']) = some (n, ['Z']) :=
    readDigits_append (spells_padded width n) (padded_ne_nil width n) (by omega) (ends_cons rfl)
  have hused : ((Duration.padded width n).toList ++ ['Z']).length - ['Z'].length = width := by
    rw [List.length_append, hlen]
    exact Nat.add_sub_cancel _ _
  simp only [Timestamp.readFraction, hread, bind, Option.bind, hused]
  rfl

/-- The fraction is read back, however many digits it needs. -/
theorem readFraction_fractionText {nanos : Nat} (h : nanos < nanosPerSecond) :
    Timestamp.readFraction ((fractionText nanos).toList ++ ['Z']) = some (nanos, ['Z']) := by
  have hdot (width n : Nat) : ("." ++ Duration.padded width n).toList ++ ['Z'] =
      '.' :: ((Duration.padded width n).toList ++ ['Z']) := by
    rw [String.toList_append]
    rfl
  have hbound : nanos < 1000000000 := h
  rw [fractionText]
  split
  · rename_i hzero
    rw [hzero]
    rfl
  split
  · rename_i hmillis
    rw [hdot, readFraction_padded (by decide) (by omega) (by decide)]
    congr 2
    exact Nat.div_mul_cancel (Nat.dvd_of_mod_eq_zero hmillis)
  split
  · rename_i hmicros
    rw [hdot, readFraction_padded (by decide) (by omega) (by decide)]
    congr 2
    exact Nat.div_mul_cancel (Nat.dvd_of_mod_eq_zero hmicros)
  · rw [hdot, readFraction_padded (by decide) (by omega) (by decide)]
    congr 2
    exact Nat.mul_one _

theorem ends_fraction (nanos : Nat) : Ends ((fractionText nanos).toList ++ ['Z']) := by
  rw [fractionText]
  split
  · exact ends_cons rfl
  split
  · rw [String.toList_append]
    exact ends_cons rfl
  split
  · rw [String.toList_append]
    exact ends_cons rfl
  · rw [String.toList_append]
    exact ends_cons rfl

/-! ## Whole timestamps -/

/-- What is valid in a date and a time of day. -/
theorem isValid_iff {t : Timestamp} : t.isValid = true ↔ yearInRange t.year = true ∧ 1 ≤ t.month ∧ t.month ≤ 12 ∧
    1 ≤ t.day ∧ t.day ≤ daysInMonth t.year t.month ∧ t.hour ≤ 23 ∧ t.minute ≤ 59 ∧ t.second ≤ 60 ∧
    t.nanos < nanosPerSecond := by
  simp [isValid, and_assoc]

theorem daysInMonth_le (y : Int) (m : Nat) : daysInMonth y m ≤ 31 := by
  rw [daysInMonth]
  split
  · split <;> omega
  · split <;> omega

theorem toList_text (t : Timestamp) : t.text.toList =
    (yearText t.year).toList ++ '-' :: ((Duration.padded 2 t.month).toList ++ '-' ::
      ((Duration.padded 2 t.day).toList ++ 'T' :: ((Duration.padded 2 t.hour).toList ++ ':' ::
        ((Duration.padded 2 t.minute).toList ++ ':' :: ((Duration.padded 2 t.second).toList ++
          ((fractionText t.nanos).toList ++ ['Z'])))))) := by
  simp [text, secondsText, String.toList_append]

theorem minusMinutes_zero {t : Timestamp} (hhour : t.hour ≤ 23) (hminute : t.minute ≤ 59) :
    t.minusMinutes 0 = t := by
  have hdiv : ((t.hour * 60 + t.minute : Nat) : Int) / 60 = t.hour := by omega
  have hmod : ((t.hour * 60 + t.minute : Nat) : Int) % 60 = t.minute := by omega
  rw [minusMinutes, Int.sub_zero, if_neg (by omega), if_neg (by omega)]
  simp only [hdiv, hmod, Int.toNat_natCast]

/-- A timestamp is read back, in any year and with a leap second too. -/
theorem parse?_text {t : Timestamp} (h : t.isValid = true) : parse? t.text = some t := by
  obtain ⟨hyear, -, hmonth, -, hday, hhour, hminute, hsecond, hnanos⟩ := isValid_iff.mp h
  have hday31 := daysInMonth_le t.year t.month
  have hdash (rest : List Char) : Ends ('-' :: rest) := ends_cons rfl
  have hcolon (rest : List Char) : Ends (':' :: rest) := ends_cons rfl
  have hT (rest : List Char) : Ends ('T' :: rest) := ends_cons rfl
  have htrimmed : trimFront ['Z'] = ['Z'] := rfl
  have hoffset : readOffset ['Z'] = some (0, []) := rfl
  simp only [parse?, toList_text, readYear_yearText t.year (hdash _), bind, Option.bind,
    readMark_cons '-' (by decide), readMark_cons ':' (by decide),
    readPart_padded (n := t.month) (by omega) (hdash _), readPart_padded (n := t.day) (by omega) (hT _),
    readPart_padded (n := t.hour) (by omega) (hcolon _), readPart_padded (n := t.minute) (by omega) (hcolon _),
    readPart_padded (n := t.second) (by omega) (ends_fraction t.nanos), readFraction_fractionText hnanos,
    true_or, if_true, htrimmed, hoffset]
  change (if trimFront [] = [] ∧ t.isValid = true ∧ yearInRange (t.minusMinutes 0).year = true
    then some (t.minusMinutes 0) else none) = some t
  rw [minusMinutes_zero hhour hminute, if_pos ⟨rfl, h, hyear⟩]

/-! ## What is read -/

theorem one_le_daysInMonth (y : Int) (m : Nat) : 1 ≤ daysInMonth y m := by
  rw [daysInMonth]
  split
  · split <;> omega
  · split <;> omega

theorem isValid_nextDay {t : Timestamp} (h : t.isValid = true) (hyear : yearInRange t.nextDay.year = true) :
    t.nextDay.isValid = true := by
  rw [isValid_iff] at h ⊢
  refine ⟨hyear, ?_⟩
  rw [nextDay]
  split
  · simp only
    omega
  split
  · have hfirst := one_le_daysInMonth t.year (t.month + 1)
    simp only
    omega
  · have hfirst := one_le_daysInMonth (t.year + 1) 1
    simp only
    omega

theorem isValid_previousDay {t : Timestamp} (h : t.isValid = true) (hyear : yearInRange t.previousDay.year = true) :
    t.previousDay.isValid = true := by
  rw [isValid_iff] at h ⊢
  refine ⟨hyear, ?_⟩
  rw [previousDay]
  split
  · simp only
    omega
  split
  · have hlast := one_le_daysInMonth t.year (t.month - 1)
    simp only
    omega
  · have hlast : daysInMonth (t.year - 1) 12 = 31 := rfl
    simp only [hlast]
    omega

/-- An offset moves a timestamp by a day at most. -/
theorem isValid_minusMinutes {t : Timestamp} (h : t.isValid = true) {minutes : Int}
    (hless : -1440 < minutes ∧ minutes < 1440) (hyear : yearInRange (t.minusMinutes minutes).year = true) :
    (t.minusMinutes minutes).isValid = true := by
  have hday {m : Int} (hm : 0 ≤ m ∧ m < 1440) :
      isValid { t with hour := (m / 60).toNat, minute := (m % 60).toNat } = true := by
    rw [isValid_iff] at h ⊢
    refine ⟨h.1, ?_⟩
    simp only
    omega
  have hparts := isValid_iff.mp h
  rw [minusMinutes] at hyear ⊢
  simp only at hyear ⊢
  split
  · rw [if_pos ‹_›] at hyear
    exact isValid_previousDay (hday (by omega)) hyear
  · rw [if_neg ‹_›] at hyear
    split
    · rw [if_pos ‹_›] at hyear
      exact isValid_nextDay (hday (by omega)) hyear
    · exact hday (by omega)

theorem readOffset_lt {cs rest : List Char} {minutes : Int} (h : readOffset cs = some (minutes, rest)) :
    -1440 < minutes ∧ minutes < 1440 := by
  -- hours and minutes after a sign
  have signed {sign : Int} {x : Option (Nat × List Char)} {y : Nat × List Char → Option (Nat × List Char)}
      (hsign : sign = 1 ∨ sign = -1)
      (h : (x.bind fun hours => (y hours).bind fun mins =>
        if mins.1 ≤ 59 ∧ hours.1 ≤ 23 then some (sign * (hours.1 * 60 + mins.1 : Nat), mins.2) else none) =
          some (minutes, rest)) : -1440 < minutes ∧ minutes < 1440 := by
    simp only [Option.bind_eq_some_iff] at h
    obtain ⟨hours, -, mins, -, h⟩ := h
    split at h <;> cases h
    rcases hsign with rfl | rfl <;> omega
  unfold readOffset at h
  split at h
  · cases h
    decide
  split at h
  · cases h
    decide
  · cases h
    decide
  · simp only [bind] at h
    split at h
    · obtain ⟨sign, hsign, h⟩ := Option.bind_eq_some_iff.mp h
      cases hsign
      exact signed (Or.inl rfl) h
    split at h
    · obtain ⟨sign, hsign, h⟩ := Option.bind_eq_some_iff.mp h
      cases hsign
      exact signed (Or.inr rfl) h
    · cases h
  · cases h

/-- What is read from any text is a date and a time of day. -/
theorem isValid_of_parse? {s : String} {t : Timestamp} (h : parse? s = some t) : t.isValid = true := by
  -- the parts are read one after the other, and only the offset counts for what comes out
  have peel {α β : Type} {x : Option α} {f : α → Option β} {b : β} (h : (x >>= f) = some b) :
      ∃ a, x = some a ∧ f a = some b := Option.bind_eq_some_iff.mp h
  unfold parse? at h
  obtain ⟨year, -, h⟩ := peel h
  obtain ⟨_, -, h⟩ := peel h
  obtain ⟨month, -, h⟩ := peel h
  obtain ⟨_, -, h⟩ := peel h
  obtain ⟨day, -, h⟩ := peel h
  dsimp only at h
  split at h
  · split at h
    · obtain ⟨_, -, h⟩ := peel h
      obtain ⟨hour, -, h⟩ := peel h
      obtain ⟨_, -, h⟩ := peel h
      obtain ⟨minute, -, h⟩ := peel h
      obtain ⟨_, -, h⟩ := peel h
      obtain ⟨second, -, h⟩ := peel h
      obtain ⟨nanos, -, h⟩ := peel h
      obtain ⟨offset, hoffset, h⟩ := peel h
      obtain ⟨⟨-, hvalid, hyear⟩, h⟩ := Option.ite_none_right_eq_some.mp h
      cases h
      exact isValid_minusMinutes hvalid (readOffset_lt hoffset) hyear
    · cases h
  · cases h

/-! ## The decoder -/

open Json.Decoder in
theorem reads_timestamp {t : Timestamp} (h : t.isValid = true) (depth : Nat) :
    Reads Timestamp.decode depth t.toJson t := by
  intro j' hj'
  rw [Timestamp.decode, reads_string t.text j' hj', Option.bind_eq_bind, Option.bind_some, parse?_text h]

theorem yields_timestamp : Json.Decoder.Yields Timestamp.decode (·.isValid = true) := by
  intro depth d t h
  unfold Timestamp.decode at h
  obtain ⟨s, -, hs⟩ := Option.bind_eq_some_iff.mp h
  exact isValid_of_parse? hs

end Overseer.Timestamp

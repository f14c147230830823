import Overseer.Json.Document

/-!
# Text in quotes

A string is written in quotes and read back by `readString`. Reading what has been written gives the string
and stops at its closing quote, so no two texts begin with the same quoted string unless the strings are
the same.

* `readString_quoted`: what is written in quotes is read back.
* `quoted_append_inj`: a quoted string is told by the text it begins.
-/
namespace Overseer.Json

open Document

theorem hex?_hexDigit {n : Nat} (h : n < 16) : hex? (hexDigit n) = some n := by
  have : ∀ n < 16, hex? (hexDigit n) = some n := by decide
  exact this n h

theorem eq_ofNat {c : Char} {n : Nat} (h : c.toNat = n) : c = Char.ofNat n := by
  rw [← h, Char.ofNat_toNat]

/-- One character in quotes is read back. -/
theorem readString_quotedChar (c : Char) (rest : List Char) (p : Partial) (hp : p.half = none) :
    readString (quotedChar c ++ rest) p = readString rest (p.push c) := by
  unfold quotedChar
  split
  · rename_i h; subst h; rfl
  split
  · rename_i h; subst h; rfl
  split
  · rename_i h; rw [eq_ofNat h]; rfl
  split
  · rename_i h; rw [eq_ofNat h]; rfl
  split
  · rename_i h; rw [eq_ofNat h]; rfl
  split
  · rename_i h; rw [eq_ofNat h]; rfl
  split
  · rename_i h; rw [eq_ofNat h]; rfl
  split
  · rename_i h
    have h0 : hex? '0' = some 0 := rfl
    have h4 : hex4? '0' '0' (hexDigit (c.toNat / 16)) (hexDigit (c.toNat % 16)) = some c.toNat := by
      simp only [hex4?, h0, hex?_hexDigit (n := c.toNat / 16) (by omega),
        hex?_hexDigit (n := c.toNat % 16) (by omega), bind, Option.bind, pure]
      congr 1; omega
    have hunit : p.pushUnit c.toNat = p.push c := by
      have hhigh : isHighHalf c.toNat = false := by simp [isHighHalf]; omega
      have hlow : isLowHalf c.toNat = false := by simp [isLowHalf]; omega
      simp [Partial.pushUnit, Partial.push, hp, hhigh, hlow]
    simp only [List.cons_append, List.nil_append, readString, h4, hunit]
  · rename_i hq hb _ _ _ _ _ h32
    rw [List.singleton_append, readString, if_neg h32]
    · exact fun h => hq h
    · exact fun _ _ _ _ _ h => absurd h hb
    · exact fun _ _ h => absurd h hb

theorem readString_flatMap (cs rest : List Char) (p : Partial) (hp : p.half = none) :
    readString (cs.flatMap quotedChar ++ '"' :: rest) p =
      some (Partial.finish { p with chars := cs.reverse ++ p.chars }, rest) := by
  induction cs generalizing p with
  | nil => rfl
  | cons c cs ih =>
    rw [List.flatMap_cons, List.append_assoc, readString_quotedChar c _ p hp, ih _ rfl]
    simp [Partial.push, hp]

/-- What is written in quotes is read back. -/
theorem readString_quoted (s : String) (rest : List Char) :
    ∃ body, quoted s ++ rest = '"' :: body ∧ readString body .empty = some (some s, rest) := by
  refine ⟨s.toList.flatMap quotedChar ++ '"' :: rest, by simp [quoted], ?_⟩
  rw [readString_flatMap _ _ _ rfl]
  simp [Partial.finish, Partial.empty, String.ofList_toList]

/-- A quoted string is told by the text it begins. -/
theorem quoted_append_inj {s s' : String} {rest rest' : List Char}
    (h : quoted s ++ rest = quoted s' ++ rest') : s = s' ∧ rest = rest' := by
  obtain ⟨body, hbody, hread⟩ := readString_quoted s rest
  obtain ⟨body', hbody', hread'⟩ := readString_quoted s' rest'
  have heq : body = body' := by
    rw [h, hbody'] at hbody
    exact (List.cons.inj hbody).2.symm
  rw [heq, hread'] at hread
  simp only [Option.some.injEq, Prod.mk.injEq] at hread
  exact ⟨hread.1.symm, hread.2.symm⟩

theorem compact_inj {j j' : Json} (h : j.compact = j'.compact) : j.chars = j'.chars := by
  have := congrArg String.toList h
  simpa [compact] using this

/-- Objects that are written alike begin with the same key. -/
theorem head_key_eq_of_compact_eq {k k' : String} {v v' : Json} {fields fields' : List (String × Json)}
    (h : (Json.obj ((k, v) :: fields)).compact = (Json.obj ((k', v') :: fields')).compact) : k = k' := by
  have hchars := compact_inj h
  have hsplit (k : String) (v : Json) (fields : List (String × Json)) :
      ∃ rest, chars (.obj ((k, v) :: fields)) = '{' :: (quoted k ++ rest) := by
    cases fields with
    | nil => exact ⟨':' :: (chars v ++ ['}']), by simp [chars, fieldChars]⟩
    | cons f fields =>
      exact ⟨':' :: (chars v ++ ',' :: (fieldChars (f :: fields) ++ ['}'])), by simp [chars, fieldChars]⟩
  obtain ⟨rest, hrest⟩ := hsplit k v fields
  obtain ⟨rest', hrest'⟩ := hsplit k' v' fields'
  rw [hrest, hrest'] at hchars
  exact (quoted_append_inj (List.cons.inj hchars).2).1

/-- Objects of one text that are written alike are the same. -/
theorem text_eq_of_compact_eq {k s s' : String}
    (h : (Json.obj [(k, .str s)]).compact = (Json.obj [(k, .str s')]).compact) : s = s' := by
  have hchars := compact_inj h
  simp only [chars, fieldChars, List.cons.injEq, true_and, List.append_assoc, List.append_cancel_left_eq,
    List.cons_append] at hchars
  exact (quoted_append_inj hchars).1

end Overseer.Json

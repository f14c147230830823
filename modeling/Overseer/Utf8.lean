/-!
# UTF-8 in byte lists

`Utf8.bytes` is the encoding of a text. `Utf8.lossy` decodes any bytes: each longest piece that begins
like an encoded character but does not end as one becomes U+FFFD.
-/
namespace Overseer

abbrev Bytes := List UInt8

namespace Utf8

def bytes (s : String) : Bytes := s.toUTF8.data.toList

def text? (bs : Bytes) : Option String := String.fromUTF8? ⟨bs.toArray⟩

/-- Stands for bytes that encode nothing. -/
def replacement : Char := Char.ofNat 0xFFFD

/-- For a first byte: the bounds of the second byte and the length of the encoding. -/
def shape? (b : UInt8) : Option (UInt8 × UInt8 × Nat) :=
  if 0xC2 ≤ b ∧ b ≤ 0xDF then some (0x80, 0xBF, 2)
  else if b = 0xE0 then some (0xA0, 0xBF, 3)
  else if b = 0xED then some (0x80, 0x9F, 3)
  else if 0xE1 ≤ b ∧ b ≤ 0xEF then some (0x80, 0xBF, 3)
  else if b = 0xF0 then some (0x90, 0xBF, 4)
  else if 0xF1 ≤ b ∧ b ≤ 0xF3 then some (0x80, 0xBF, 4)
  else if b = 0xF4 then some (0x80, 0x8F, 4)
  else none

def payload (b : UInt8) : Nat := b.toNat % 64

def follows (b : UInt8) : Bool := 0x80 ≤ b && b ≤ 0xBF

/-- The characters of some bytes, U+FFFD in place of each piece that encodes nothing. -/
def lossyChars : Bytes → List Char
  | [] => []
  | b :: rest =>
    if b < 0x80 then Char.ofNat b.toNat :: lossyChars rest
    else
      match shape? b with
      | none => replacement :: lossyChars rest
      | some (low, high, len) =>
        match rest with
        | [] => [replacement]
        | c :: rest1 =>
          if ¬ (low ≤ c ∧ c ≤ high) then replacement :: lossyChars (c :: rest1)
          else if len = 2 then Char.ofNat (b.toNat % 32 * 64 + payload c) :: lossyChars rest1
          else
            match rest1 with
            | [] => [replacement]
            | d :: rest2 =>
              if ¬ follows d then replacement :: lossyChars (d :: rest2)
              else if len = 3 then
                Char.ofNat ((b.toNat % 16 * 64 + payload c) * 64 + payload d) :: lossyChars rest2
              else
                match rest2 with
                | [] => [replacement]
                | e :: rest3 =>
                  if ¬ follows e then replacement :: lossyChars (e :: rest3)
                  else
                    Char.ofNat (((b.toNat % 8 * 64 + payload c) * 64 + payload d) * 64 + payload e) ::
                      lossyChars rest3
termination_by bs => bs.length

/-- The text of some bytes, U+FFFD in place of each piece that encodes nothing. -/
def lossy (bs : Bytes) : String := String.ofList (lossyChars bs)

end Utf8

end Overseer

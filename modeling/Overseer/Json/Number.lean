import Overseer.Word
import Overseer.Binary64

/-!
# JSON numbers

A number is a whole number that fits a 64-bit word, signed or not, or else a binary64 number. A literal
is read as whole only if it has neither fraction nor exponent; `-0` is not whole.
-/
namespace Overseer.Json

inductive Number where
  | int (n : Int)
  | real (x : Binary64)
  deriving DecidableEq, Repr, Inhabited

structure Literal where
  negative : Bool
  whole : List Nat
  fraction : Option (List Nat)
  exponent : Option (Bool × List Nat)
  deriving DecidableEq, Repr, Inhabited

namespace Number

def maxWord : Nat := Word.count64 - 1

def ofDigits (digits : List Nat) : Nat := digits.foldl (fun n d => n * 10 + d) 0

/-- Digits of a significand: its value and the decimal exponent so far. -/
structure Significand where
  value : Nat
  exponent : Int
  full : Bool

/-- Takes in one more digit before the point. Once the value has no room for one, this digit and those
after it only count for the exponent. -/
def Significand.whole (s : Significand) (d : Nat) : Significand :=
  if s.full ∨ s.value * 10 + d > maxWord then { s with exponent := s.exponent + 1, full := true }
  else { s with value := s.value * 10 + d }

/-- Takes in one more digit after the point; once there is no room for one, the rest is ignored. -/
def Significand.fraction (s : Significand) (d : Nat) : Significand :=
  if s.full ∨ s.value * 10 + d > maxWord then { s with full := true }
  else { s with value := s.value * 10 + d, exponent := s.exponent - 1 }

def realOf? (l : Literal) : Option Binary64 :=
  let s := l.whole.foldl Significand.whole ⟨0, 0, false⟩
  let s := (l.fraction.getD []).foldl Significand.fraction { s with full := false }
  match l.exponent with
  | none => Binary64.ofDecimal l.negative s.value s.exponent
  | some (negative, digits) =>
    let e := ofDigits digits
    if e ≥ Word.half32 then
      if s.value ≠ 0 ∧ negative = false then none else some (Binary64.zero l.negative)
    else
      Binary64.ofDecimal l.negative s.value (if negative then s.exponent - e else s.exponent + e)

/-- The value of a literal, none if it is too large. -/
def ofLiteral? (l : Literal) : Option Number :=
  match l.fraction, l.exponent with
  | none, none =>
    let n := ofDigits l.whole
    if l.negative = false ∧ n ≤ maxWord then some (.int n)
    else if l.negative = true ∧ 1 ≤ n ∧ n ≤ Word.half64 then some (.int (-n))
    else (realOf? l).map .real
  | _, _ => (realOf? l).map .real

def text : Number → String
  | .int n => toString n
  | .real x => x.text

end Number

end Overseer.Json

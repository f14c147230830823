import Overseer.Word

/-!
# Durations

A length of time in whole nanoseconds, as long as `2^64 - 1` seconds and 999 999 999 nanoseconds.
`Duration.text` is the form durations take inside messages: the largest of the units s, ms, µs and ns
whose whole part is not zero, with the fraction written out exactly and its trailing zeros left off.
-/
namespace Overseer

/-- Nanoseconds in a second. -/
def nanosPerSecond : Nat := 1000000000

/-- One more than the longest duration, in nanoseconds. -/
def Duration.bound : Nat := Word.count64 * nanosPerSecond

/-- A length of time in nanoseconds. -/
structure Duration where
  nanos : Nat
  nanos_lt : nanos < Duration.bound
  deriving DecidableEq, Repr

namespace Duration

/-- The length of `n` nanoseconds, if a duration can be that long. -/
def ofNanos? (n : Nat) : Option Duration :=
  if h : n < bound then some ⟨n, h⟩ else none

/-- The length of `n` nanoseconds, or the longest duration if that is shorter. -/
def ofNanos (n : Nat) : Duration :=
  if h : n < bound then ⟨n, h⟩ else ⟨bound - 1, by decide⟩

def zero : Duration := ⟨0, by decide⟩

instance : Inhabited Duration := ⟨zero⟩

def ofMillis (n : Nat) : Duration := ofNanos (n * 1000000)

def ofSeconds (n : Nat) : Duration := ofNanos (n * nanosPerSecond)

def seconds (d : Duration) : Nat := d.nanos / nanosPerSecond

def subsecond (d : Duration) : Nat := d.nanos % nanosPerSecond

def millis (d : Duration) : Nat := d.nanos / 1000000

instance : LT Duration := ⟨fun a b => a.nanos < b.nanos⟩
instance : LE Duration := ⟨fun a b => a.nanos ≤ b.nanos⟩

instance (a b : Duration) : Decidable (a < b) := inferInstanceAs (Decidable (a.nanos < b.nanos))
instance (a b : Duration) : Decidable (a ≤ b) := inferInstanceAs (Decidable (a.nanos ≤ b.nanos))

def isZero (d : Duration) : Bool := d.nanos == 0

@[simp] theorem nanos_ofNanos {n : Nat} (h : n < bound) : (ofNanos n).nanos = n := by
  simp [ofNanos, h]

theorem eq_of_nanos : ∀ {a b : Duration}, a.nanos = b.nanos → a = b
  | ⟨_, _⟩, ⟨_, _⟩, rfl => rfl

/-! ## Text -/

/-- The decimal digits of `n`, with zeros in front up to `width` of them. -/
def padded (width n : Nat) : String :=
  let digits := toString n
  "".pushn '0' (width - digits.length) ++ digits

/-- A fraction of `width` places, without its trailing zeros; empty if it is zero. -/
def fractionText (width n : Nat) : String :=
  if n = 0 then ""
  else "." ++ String.ofList ((padded width n).toList.reverse.dropWhile (· == '0')).reverse

/-- The form a duration takes inside messages, such as `1.5ms`. -/
def text (d : Duration) : String :=
  let n := d.nanos
  if n ≥ nanosPerSecond then
    toString (n / nanosPerSecond) ++ fractionText 9 (n % nanosPerSecond) ++ "s"
  else if n ≥ 1000000 then
    toString (n / 1000000) ++ fractionText 6 (n % 1000000) ++ "ms"
  else if n ≥ 1000 then
    toString (n / 1000) ++ fractionText 3 (n % 1000) ++ "µs"
  else
    toString n ++ "ns"

end Duration

end Overseer

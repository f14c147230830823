/-!
# Binary floating point in exact arithmetic

A finite binary64 number is `± mantissa · 2^exponent` with a mantissa below `2^53` and an exponent of
at least `-1074`. `ofRatio` rounds a ratio to the nearest such number, ties to the even mantissa, and
refuses what lies beyond the largest. `shortest` finds the fewest decimal digits that read back as the
same number, and among those the nearest; `text` writes them.
-/
namespace Overseer

/-- A finite binary64 number, `± mantissa · 2^exponent`. -/
structure Binary64 where
  negative : Bool
  mantissa : Nat
  exponent : Int
  deriving DecidableEq, Repr, Inhabited

namespace Binary64

def zero (negative : Bool) : Binary64 := ⟨negative, 0, 0⟩

def scaled (num den : Nat) (e : Int) : Nat × Nat :=
  if e ≥ 0 then (num, den * Nat.pow 2 e.toNat) else (num * Nat.pow 2 (-e).toNat, den)

/-- The quotient rounded to the nearest whole number, a tie to the even one. -/
def roundHalfEven (num den : Nat) : Nat :=
  let q := num / den
  let r := num % den
  if 2 * r > den ∨ (2 * r = den ∧ q % 2 = 1) then q + 1 else q

/-- The binary64 number nearest to `num / den`; none if that is beyond the largest finite one. -/
def ofRatio (negative : Bool) (num den : Nat) : Option Binary64 :=
  if num = 0 ∨ den = 0 then some (zero negative)
  else
    let guess : Int := (num.log2 : Int) - den.log2 - 52
    let fine := scaled num den guess
    let e := max (if fine.1 / fine.2 < Nat.pow 2 52 then guess - 1 else guess) (-1074)
    let parts := scaled num den e
    let m := roundHalfEven parts.1 parts.2
    let (m, e) := if m = Nat.pow 2 53 then (Nat.pow 2 52, e + 1) else (m, e)
    if e > 971 then none
    else if m = 0 then some (zero negative)
    else some ⟨negative, m, e⟩

def ratio (x : Binary64) : Nat × Nat :=
  if x.exponent ≥ 0 then (x.mantissa * Nat.pow 2 x.exponent.toNat, 1)
  else (x.mantissa, Nat.pow 2 (-x.exponent).toNat)

def mul (x y : Binary64) : Option Binary64 :=
  ofRatio (x.negative != y.negative) (x.ratio.1 * y.ratio.1) (x.ratio.2 * y.ratio.2)

/-- The rounded quotient, for a divisor other than zero. -/
def div (x y : Binary64) : Option Binary64 :=
  ofRatio (x.negative != y.negative) (x.ratio.1 * y.ratio.2) (x.ratio.2 * y.ratio.1)

/-- The number nearest to `10^k`, for `k` at most 308. -/
def tenPow (k : Nat) : Binary64 := (ofRatio false (Nat.pow 10 k) 1).getD (zero false)

/-- One rounding for the significand, then one for each factor: `significand · 10^e`, with the power
of ten divided out in steps of `10^308` where `e` is below `-308`. None if the result is too large. -/
def ofDecimal (negative : Bool) (significand : Nat) (e : Int) : Option Binary64 := do
  let f ← ofRatio negative significand 1
  go 4 f e
where
  /-- Four steps suffice: two divisions by `10^308` leave nothing of a 64-bit significand. -/
  go : Nat → Binary64 → Int → Option Binary64
    | 0, f, _ => some (zero f.negative)
    | fuel + 1, f, e =>
      if e.natAbs ≤ 308 then
        if e ≥ 0 then f.mul (tenPow e.natAbs) else f.div (tenPow e.natAbs)
      else if f.mantissa = 0 then some f
      else if e ≥ 0 then none
      else do
        let g ← f.div (tenPow 308)
        go fuel g (e + 308)

/-! ## Shortest decimal form -/

/-- How many digits stand before the decimal point of `num / den` (none or fewer below `1/10`):
`10^(k-1) ≤ num/den < 10^k`. -/
def magnitude (num den : Nat) : Int :=
  ((toString (num * Nat.pow 10 400 / den)).length : Int) - 400

def overTenPow (num den : Nat) (p : Int) : Nat × Nat :=
  if p ≥ 0 then (num, den * Nat.pow 10 p.toNat) else (num * Nat.pow 10 (-p).toNat, den)

/-- The best point of the grid `10^p` inside the interval of reals that round to `m · 2^e`, whose ends
belong to it iff the mantissa is even. -/
def gridPoint? (x : Binary64) (p : Int) : Option Nat :=
  let quarter : Nat × Nat :=
    if x.exponent ≥ 2 then (Nat.pow 2 (x.exponent - 2).toNat, 1) else (1, Nat.pow 2 (2 - x.exponent).toNat)
  let low := if x.mantissa = Nat.pow 2 52 ∧ x.exponent > -1074 then 4 * x.mantissa - 1 else 4 * x.mantissa - 2
  let high := 4 * x.mantissa + 2
  let unit := overTenPow quarter.1 quarter.2 p
  let inside (c : Nat) : Bool :=
    if x.mantissa % 2 = 0 then low * unit.1 ≤ c * unit.2 ∧ c * unit.2 ≤ high * unit.1
    else low * unit.1 < c * unit.2 ∧ c * unit.2 < high * unit.1
  let num := 4 * x.mantissa * unit.1
  let below := num / unit.2
  let nearest := roundHalfEven num unit.2
  if inside nearest then some nearest
  else if inside below then some below
  else if inside (below + 1) then some (below + 1)
  else none

/-- Digits `d` and exponent `p` of the shortest decimal `d · 10^p` that reads back as `x`. -/
def shortest (x : Binary64) : Nat × Int :=
  let k := magnitude x.ratio.1 x.ratio.2
  let found := (List.range 17).findSome? fun (i : Nat) =>
    let p := k - (i + 1 : Int)
    (x.gridPoint? p).map (·, p)
  found.getD (0, 0)

/-- Trailing zeros moved from the digits to the exponent. -/
def stripZeros : Nat → Nat × Int → Nat × Int
  | 0, d => d
  | fuel + 1, (d, p) => if d ≠ 0 ∧ d % 10 = 0 then stripZeros fuel (d / 10, p + 1) else (d, p)

/-- Shortest digits, positional from `1e-5` up to below `1e16`, scientific beyond, with a fraction part
always written in positional form. -/
def text (x : Binary64) : String :=
  let sign := if x.negative then "-" else ""
  if x.mantissa = 0 then sign ++ "0.0"
  else
    let (d, p) := stripZeros 20 x.shortest
    let digits := toString d
    let len : Int := digits.length
    let point := len + p
    if 0 ≤ p ∧ point ≤ 16 then
      sign ++ digits ++ "".pushn '0' p.toNat ++ ".0"
    else if 0 < point ∧ point ≤ 16 then
      sign ++ String.ofList (digits.toList.take point.toNat) ++ "." ++
        String.ofList (digits.toList.drop point.toNat)
    else if -5 < point ∧ point ≤ 0 then
      sign ++ "0." ++ "".pushn '0' (-point).toNat ++ digits
    else
      let head := String.ofList (digits.toList.take 1)
      let tail := String.ofList (digits.toList.drop 1)
      sign ++ head ++ (if tail.isEmpty then "" else "." ++ tail) ++ "e" ++ toString (point - 1)

end Binary64

end Overseer

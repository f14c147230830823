import Overseer.Binary64
import Overseer.Toml.Value

/-!
# TOML scalars

Strings in their four forms, numbers, dates and times. A reader takes characters and gives back what it
read and the characters after it.
-/
namespace Overseer.Toml

def isSpace (c : Char) : Bool := c = ' ' || c = '\t'

def skipSpaces (cs : List Char) : List Char := cs.dropWhile isSpace

/-- The characters after a line break at the front. -/
def lineBreak? : List Char → Option (List Char)
  | '\n' :: rest => some rest
  | '\r' :: '\n' :: rest => some rest
  | _ => none

/-- A character that may stand in a string or a comment as it is. -/
def isPlain (c : Char) : Bool := c = '\t' || (c.toNat ≥ 0x20 && c.toNat ≠ 0x7F)

/-! ## Strings -/

def hexValue? (c : Char) : Option Nat :=
  if '0' ≤ c ∧ c ≤ '9' then some (c.toNat - 48)
  else if 'a' ≤ c ∧ c ≤ 'f' then some (c.toNat - 87)
  else if 'A' ≤ c ∧ c ≤ 'F' then some (c.toNat - 55)
  else none

/-- The number that `count` hexadecimal digits at the front stand for. -/
def readHex : Nat → Nat → List Char → Option (Nat × List Char)
  | 0, n, cs => some (n, cs)
  | count + 1, n, c :: cs => do readHex count (n * 16 + (← hexValue? c)) cs
  | _ + 1, _, [] => none

/-- An escape after its backslash. -/
def readEscape : List Char → Option (Char × List Char)
  | [] => none
  | c :: rest =>
    let coded (count : Nat) : Option (Char × List Char) := do
      let (n, rest) ← readHex count 0 rest
      if n.isValidChar then some (Char.ofNat n, rest) else none
    if c = 'b' then some (Char.ofNat 8, rest)
    else if c = 't' then some ('\t', rest)
    else if c = 'n' then some ('\n', rest)
    else if c = 'f' then some (Char.ofNat 12, rest)
    else if c = 'r' then some ('\r', rest)
    else if c = 'e' then some (Char.ofNat 27, rest)
    else if c = '"' then some ('"', rest)
    else if c = '\\' then some ('\\', rest)
    else if c = 'x' then coded 2
    else if c = 'u' then coded 4
    else if c = 'U' then coded 8
    else none

/-- A basic string after its opening quote. -/
def readBasic : Nat → List Char → List Char → Option (String × List Char)
  | 0, _, _ => none
  | fuel + 1, cs, acc =>
    match cs with
    | [] => none
    | '"' :: rest => some (String.ofList acc.reverse, rest)
    | '\\' :: rest => do
      let (c, rest) ← readEscape rest
      readBasic fuel rest (c :: acc)
    | c :: rest => if isPlain c then readBasic fuel rest (c :: acc) else none

/-- A literal string after its opening quote. -/
def readLiteral : List Char → List Char → Option (String × List Char)
  | [], _ => none
  | '\'' :: rest, acc => some (String.ofList acc.reverse, rest)
  | c :: rest, acc => if isPlain c then readLiteral rest (c :: acc) else none

/-- How many of a quote stand at the front, up to five. -/
def quotesInFront (quote : Char) (cs : List Char) : Nat := ((cs.take 5).takeWhile (· = quote)).length

/-- Blanks and line breaks left out at the front. -/
def skipLines : Nat → List Char → List Char
  | 0, cs => cs
  | fuel + 1, cs =>
    let rest := skipSpaces cs
    match lineBreak? rest with
    | some after => skipLines fuel after
    | none => rest

/-- A string over several lines after its three opening quotes and the line break that may follow
them. Escapes count only between double quotes. -/
def readLines (quote : Char) : Nat → List Char → List Char → Option (String × List Char)
  | 0, _, _ => none
  | fuel + 1, cs, acc =>
    match cs with
    | [] => none
    | c :: rest =>
      if c = quote then
        let n := quotesInFront quote cs
        if n ≥ 3 then some (String.ofList (List.replicate (n - 3) quote ++ acc).reverse, cs.drop n)
        else readLines quote fuel rest (c :: acc)
      else if c = '\\' ∧ quote = '"' then
        match lineBreak? (skipSpaces rest) with
        | some after => readLines quote fuel (skipLines fuel after) acc
        | none => do
          let (e, rest) ← readEscape rest
          readLines quote fuel rest (e :: acc)
      else if c = '\r' then
        match rest with
        | '\n' :: after => readLines quote fuel after ('\n' :: '\r' :: acc)
        | _ => none
      else if c = '\n' ∨ isPlain c then readLines quote fuel rest (c :: acc)
      else none

/-- A string in any of its forms. -/
def readString (cs : List Char) : Option (String × List Char) :=
  match cs with
  | '"' :: '"' :: '"' :: rest => readLines '"' (rest.length + 1) ((lineBreak? rest).getD rest) []
  | '\'' :: '\'' :: '\'' :: rest => readLines '\'' (rest.length + 1) ((lineBreak? rest).getD rest) []
  | '"' :: rest => readBasic (rest.length + 1) rest []
  | '\'' :: rest => readLiteral rest []
  | _ => none

/-! ## Words -/

/-- Digits with single underscores between them, as their characters without the underscores. -/
def digits? (isDigit : Char → Bool) (cs : List Char) : Option (List Char) :=
  let groups := cs.splitOn '_'
  if groups.all (fun g => !g.isEmpty && g.all isDigit) then some groups.flatten else none

def numberOf (base : Nat) (digits : List Char) : Nat :=
  digits.foldl (fun n c => n * base + (hexValue? c).getD 0) 0

/-- Decimal digits without an idle zero in front. -/
def wholeDigits? (cs : List Char) : Option (List Char) := do
  let ds ← digits? Char.isDigit cs
  if ds.length > 1 ∧ ds.head? = some '0' then none else some ds

/-- A sign and what it stands before. -/
def signed : List Char → Bool × List Char
  | '-' :: rest => (true, rest)
  | '+' :: rest => (false, rest)
  | cs => (false, cs)

def signedNumber (negative : Bool) (digits : List Char) : Int :=
  let n : Int := numberOf 10 digits
  if negative then -n else n

/-- The largest and the smallest integer that can be written. -/
def maxInteger : Int := 340282366920938463463374607431768211455
def minInteger : Int := -170141183460469231731687303715884105728

def integer? (cs : List Char) : Option Value :=
  let based (base : Nat) (ok : Char → Bool) (digits : List Char) : Option Value := do
    return .integer (numberOf base (← digits? ok digits))
  let read : Option Value := match cs with
    | '0' :: 'x' :: ds => based 16 (fun c => (hexValue? c).isSome) ds
    | '0' :: 'o' :: ds => based 8 (fun c => '0' ≤ c && c ≤ '7') ds
    | '0' :: 'b' :: ds => based 2 (fun c => c = '0' || c = '1') ds
    | _ => do
      let (negative, ds) := signed cs
      return .integer (signedNumber negative (← wholeDigits? ds))
  match read with
  | some (.integer n) => if minInteger ≤ n ∧ n ≤ maxInteger then some (.integer n) else none
  | _ => none

/-- Whether the number of some digits times a power of ten is not beyond the binary64 numbers. -/
def isFinite (digits : List Char) (power : Int) : Bool :=
  let digits := digits.dropWhile (· = '0')
  let places : Int := digits.length + power
  if digits = [] || places ≤ 308 then true
  else if 309 < places then false
  else
    (Binary64.ofRatio false (numberOf 10 digits * Nat.pow 10 power.toNat) (Nat.pow 10 (-power).toNat)).isSome

/-- A number with a fraction, an exponent or both, an infinity, or no number at all. -/
def isFloat (cs : List Char) : Bool :=
  let body := (signed cs).2
  if body = ['i', 'n', 'f'] ∨ body = ['n', 'a', 'n'] then true
  else
    let mantissa := body.takeWhile fun c => c ≠ 'e' && c ≠ 'E'
    let exponent := body.drop mantissa.length
    let whole := mantissa.takeWhile (· ≠ '.')
    let fraction := mantissa.drop whole.length
    let (negative, power) := signed (exponent.drop 1)
    match wholeDigits? whole, if fraction = [] then some [] else digits? Char.isDigit (fraction.drop 1),
        if exponent = [] then some [] else digits? Char.isDigit power with
    | some whole, some places, some power =>
      (exponent ≠ [] || fraction ≠ []) &&
        isFinite (whole ++ places) (signedNumber negative power - places.length)
    | _, _, _ => false

/-! ## Dates and times -/

def readCount (count : Nat) (cs : List Char) : Option (Nat × List Char) :=
  let ds := cs.take count
  if ds.length = count ∧ ds.all Char.isDigit then some (numberOf 10 ds, cs.drop count) else none

def after? (c : Char) : List Char → Option (List Char)
  | d :: rest => if d = c then some rest else none
  | [] => none

def daysIn (year month : Nat) : Nat :=
  if month = 2 then
    (if year % 4 = 0 ∧ (year % 100 ≠ 0 ∨ year % 400 = 0) then 29 else 28)
  else if month = 4 ∨ month = 6 ∨ month = 9 ∨ month = 11 then 30 else 31

def afterDate? (cs : List Char) : Option (List Char) := do
  let (year, cs) ← readCount 4 cs
  let (month, cs) ← readCount 2 (← after? '-' cs)
  let (day, cs) ← readCount 2 (← after? '-' cs)
  if 1 ≤ month ∧ month ≤ 12 ∧ 1 ≤ day ∧ day ≤ daysIn year month then some cs else none

/-- What follows a time of day, whose seconds may be left out. -/
def afterTime? (cs : List Char) : Option (List Char) := do
  let (hour, cs) ← readCount 2 cs
  let (minute, cs) ← readCount 2 (← after? ':' cs)
  if hour > 23 ∨ minute > 59 then none
  else
    match cs with
    | ':' :: rest => do
      let (second, cs) ← readCount 2 rest
      if second > 60 then none
      else
        match cs with
        | '.' :: rest => if (rest.takeWhile Char.isDigit) = [] then none else some (rest.dropWhile Char.isDigit)
        | _ => some cs
    | _ => some cs

/-- Whether this is nothing or an offset from UTC. -/
def isOffset : List Char → Bool
  | [] => true
  | ['Z'] => true
  | ['z'] => true
  | c :: rest =>
    (c = '+' || c = '-') &&
      (match readCount 2 rest with
        | some (hour, ':' :: rest) =>
          (match readCount 2 rest with
            | some (minute, []) => hour ≤ 23 && minute ≤ 59
            | _ => false)
        | _ => false)

/-- A date, a time of day, or both, with an offset or without. -/
def isDatetime (cs : List Char) : Bool :=
  match afterDate? cs with
  | some [] => true
  | some (c :: rest) =>
    (c = 'T' || c = 't' || c = ' ') &&
      (match afterTime? rest with
        | some rest => isOffset rest
        | none => false)
  | none => afterTime? cs = some []

/-- The value of a word that stands without quotes. -/
def word? (cs : List Char) : Option Value :=
  if cs = ['t', 'r', 'u', 'e'] then some (.boolean true)
  else if cs = ['f', 'a', 'l', 's', 'e'] then some (.boolean false)
  else
    match integer? cs with
    | some v => some v
    | none =>
      if isFloat cs then some .float
      else if isDatetime cs then some .datetime
      else none

def endsWord (c : Char) : Bool :=
  isSpace c || c = '\n' || c = '\r' || c = ',' || c = ']' || c = '\x7d' || c = '#'

/-- A word that stands without quotes; a date may be followed by a blank and a time of day. -/
def readWord (cs : List Char) : Option (Value × List Char) :=
  let word := cs.takeWhile fun c => !endsWord c
  let rest := cs.drop word.length
  match rest with
  | ' ' :: d :: more =>
    if d.isDigit ∧ afterDate? word = some [] then
      let tail := (d :: more).takeWhile fun c => !endsWord c
      (word? (word ++ ' ' :: tail)).map (·, (d :: more).drop tail.length)
    else (word? word).map (·, rest)
  | _ => (word? word).map (·, rest)

end Overseer.Toml

import Overseer.Blank
import Overseer.Json.Decode

/-!
# Points in time

A timestamp is a date of the proleptic Gregorian calendar and a time of day, in UTC, to the nanosecond.
It is written by RFC 3339 with `Z` and as many fraction digits as it needs of 0, 3, 6 or 9. Reading is
more lenient: blanks around the parts of date and time, a blank in place of `T`, fewer digits, any
offset of less than a day, `UTC`. A leap second is second 60.
-/
namespace Overseer

/-- A date and a time of day in UTC. -/
structure Timestamp where
  year : Int
  month : Nat
  day : Nat
  hour : Nat
  minute : Nat
  second : Nat
  nanos : Nat
  deriving DecidableEq, Repr, Inhabited

namespace Timestamp

/-! ## The calendar -/

def isLeapYear (y : Int) : Bool := y % 4 = 0 && (y % 100 ≠ 0 || y % 400 = 0)

def daysInMonth (y : Int) (m : Nat) : Nat :=
  if m = 2 then (if isLeapYear y then 29 else 28)
  else if m = 4 ∨ m = 6 ∨ m = 9 ∨ m = 11 then 30 else 31

/-- The years a timestamp can have. -/
def yearInRange (y : Int) : Bool := -262143 ≤ y && y ≤ 262142

/-- A real date and time of day; second 60 is a leap second. -/
def isValid (t : Timestamp) : Bool :=
  yearInRange t.year && 1 ≤ t.month && t.month ≤ 12 && 1 ≤ t.day && t.day ≤ daysInMonth t.year t.month &&
    t.hour ≤ 23 && t.minute ≤ 59 && t.second ≤ 60 && t.nanos < nanosPerSecond

def nextDay (t : Timestamp) : Timestamp :=
  if t.day < daysInMonth t.year t.month then { t with day := t.day + 1 }
  else if t.month < 12 then { t with month := t.month + 1, day := 1 }
  else { t with year := t.year + 1, month := 1, day := 1 }

def previousDay (t : Timestamp) : Timestamp :=
  if 1 < t.day then { t with day := t.day - 1 }
  else if 1 < t.month then { t with month := t.month - 1, day := daysInMonth t.year (t.month - 1) }
  else { t with year := t.year - 1, month := 12, day := 31 }

/-- The time `minutes` earlier, for less than a day either way. -/
def minusMinutes (t : Timestamp) (minutes : Int) : Timestamp :=
  let m : Int := (t.hour * 60 + t.minute : Nat) - minutes
  let ofDay (m : Int) (t : Timestamp) : Timestamp :=
    { t with hour := (m / 60).toNat, minute := (m % 60).toNat }
  if m < 0 then (ofDay (m + 1440) t).previousDay
  else if m ≥ 1440 then (ofDay (m - 1440) t).nextDay
  else ofDay m t

/-- The date of a number of days after 1 January 1970. The calendar repeats every 146097 days; days are
counted from 1 March, so that a leap day ends its year. -/
def dateOfDays (days : Int) : Int × Nat × Nat :=
  let z := days + 719468
  let era := z / 146097
  let doe := z % 146097
  let yoe := (doe - doe / 1460 + doe / 36524 - doe / 146096) / 365
  let doy := doe - (365 * yoe + yoe / 4 - yoe / 100)
  let mp := (5 * doy + 2) / 153
  let day := doy - (153 * mp + 2) / 5 + 1
  let month := if mp < 10 then mp + 3 else mp - 9
  (yoe + era * 400 + (if month ≤ 2 then 1 else 0), month.toNat, day.toNat)

def ofUnixNanos (nanos : Nat) : Timestamp :=
  let seconds := nanos / nanosPerSecond
  let ofDay := seconds % 86400
  let (year, month, day) := dateOfDays (seconds / 86400 : Nat)
  { year, month, day
    hour := ofDay / 3600
    minute := ofDay % 3600 / 60
    second := ofDay % 60
    nanos := nanos % nanosPerSecond }

def epoch : Timestamp := ⟨1970, 1, 1, 0, 0, 0, 0⟩

/-! ## Writing -/

/-- Four digits, or a sign and at least four for years of more. -/
def yearText (y : Int) : String :=
  if 0 ≤ y ∧ y ≤ 9999 then Duration.padded 4 y.toNat
  else (if y < 0 then "-" else "+") ++ Duration.padded 4 y.natAbs

/-- The fraction in as many of 0, 3, 6 and 9 digits as it needs. -/
def fractionText (nanos : Nat) : String :=
  if nanos = 0 then ""
  else if nanos % 1000000 = 0 then "." ++ Duration.padded 3 (nanos / 1000000)
  else if nanos % 1000 = 0 then "." ++ Duration.padded 6 (nanos / 1000)
  else "." ++ Duration.padded 9 nanos

def secondsText (t : Timestamp) : String :=
  yearText t.year ++ "-" ++ Duration.padded 2 t.month ++ "-" ++ Duration.padded 2 t.day ++ "T" ++
    Duration.padded 2 t.hour ++ ":" ++ Duration.padded 2 t.minute ++ ":" ++ Duration.padded 2 t.second

def text (t : Timestamp) : String := t.secondsText ++ fractionText t.nanos ++ "Z"

def millisText (t : Timestamp) : String :=
  t.secondsText ++ "." ++ Duration.padded 3 (t.nanos / 1000000) ++ "Z"

/-! ## Reading -/

def readDigits (max : Nat) (cs : List Char) : Option (Nat × List Char) :=
  let ds := (cs.take max).takeWhile Char.isDigit
  if ds = [] then none
  else some (ds.foldl (fun n c => n * 10 + (c.toNat - 48)) 0, cs.drop ds.length)

/-- A number of one or two digits after any blanks. -/
def readPart (cs : List Char) : Option (Nat × List Char) := readDigits 2 (trimFront cs)

/-- A year after any blanks: one to four digits, or any number of them after a sign. -/
def readYear (cs : List Char) : Option (Int × List Char) :=
  match trimFront cs with
  | '-' :: rest => (readDigits rest.length rest).map fun (n, rest) => (-(n : Int), rest)
  | '+' :: rest => (readDigits rest.length rest).map fun (n, rest) => ((n : Int), rest)
  | rest => (readDigits 4 rest).map fun (n, rest) => ((n : Int), rest)

def readMark (mark : Char) (cs : List Char) : Option (List Char) :=
  match trimFront cs with
  | c :: rest => if c = mark then some rest else none
  | [] => none

/-- Nanoseconds after the point, if there is one; digits after the ninth are passed over. -/
def readFraction : List Char → Option (Nat × List Char)
  | '.' :: rest => do
    let (n, after) ← readDigits 9 rest
    let used := rest.length - after.length
    return (n * Nat.pow 10 (9 - used), after.dropWhile Char.isDigit)
  | cs => some (0, cs)

/-- The letters `word` of either case at the front of some text. -/
def dropWord : List Char → List Char → Option (List Char)
  | [], cs => some cs
  | w :: ws, c :: cs => if c.toUpper = w then dropWord ws cs else none
  | _ :: _, [] => none

/-- An offset from UTC in minutes. -/
def readOffset (cs : List Char) : Option (Int × List Char) :=
  match dropWord ['U', 'T', 'C'] cs with
  | some rest => some (0, rest)
  | none =>
    match cs with
    | 'Z' :: rest | 'z' :: rest => some (0, rest)
    | c :: rest => do
      let sign : Int ← if c = '+' then some 1 else if c = '-' ∨ c = '−' then some (-1) else none
      let twoDigits : List Char → Option (Nat × List Char)
        | a :: b :: rest =>
          if a.isDigit ∧ b.isDigit then some ((a.toNat - 48) * 10 + (b.toNat - 48), rest) else none
        | _ => none
      let (hours, rest) ← twoDigits rest
      let (minutes, rest) ← twoDigits (rest.dropWhile fun c => c = ':' || isBlank c)
      if minutes ≤ 59 ∧ hours ≤ 23 then some (sign * (hours * 60 + minutes : Nat), rest) else none
    | [] => none

def parse? (s : String) : Option Timestamp := do
  let (year, cs) ← readYear s.toList
  let (month, cs) ← readPart (← readMark '-' cs)
  let (day, cs) ← readPart (← readMark '-' cs)
  let cs ← match cs with
    | c :: rest => if c = 'T' ∨ c = 't' ∨ c = ' ' then some rest else none
    | [] => none
  let (hour, cs) ← readPart cs
  let (minute, cs) ← readPart (← readMark ':' cs)
  let (second, cs) ← readPart (← readMark ':' cs)
  let (nanos, cs) ← readFraction cs
  let (offset, cs) ← readOffset (trimFront cs)
  let stated : Timestamp := { year, month, day, hour, minute, second, nanos }
  let t := stated.minusMinutes offset
  if trimFront cs = [] ∧ stated.isValid ∧ yearInRange t.year then some t else none

def toJson (t : Timestamp) : Json := .str t.text

def decode : Json.Decoder Timestamp := fun depth d => do parse? (← Json.Decoder.string depth d)

end Timestamp

end Overseer

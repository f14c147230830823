/-!
# Hosts

The host of a URL is a name, an address of four bytes, or an address of eight groups of sixteen bits in
brackets. `host?` brings each into normal form: names in lower case with escapes undone, addresses of four
bytes as four decimal numbers, addresses of eight groups with their longest run of zeros left out. Names
are ASCII; others are refused.
-/
namespace Overseer.Http.Host

/-! ## Numbers -/

/-- The value of a digit in a base up to sixteen. -/
def digit? (base : Nat) (c : Char) : Option Nat :=
  let n :=
    if c.isDigit then c.toNat - 48
    else if 'a' ≤ c && c ≤ 'f' then c.toNat - 87
    else base
  if n < base then some n else none

def number? (base : Nat) (cs : List Char) : Option Nat := do
  let digits ← cs.mapM (digit? base)
  return digits.foldl (fun n d => n * base + d) 0

/-! ## Addresses of four bytes -/

def part? : List Char → Option Nat
  | '0' :: 'x' :: cs => number? 16 cs
  | '0' :: c :: cs => number? 8 (c :: cs)
  | [] => none
  | cs => number? 10 cs

def labels (name : List Char) : List (List Char) :=
  match (name.splitOn '.').reverse with
  | [] :: last :: rest => (last :: rest).reverse
  | ls => ls.reverse

/-- Whether a name has to be an address: its last part is a number. -/
def isNumeric (name : List Char) : Bool :=
  match (labels name).getLast? with
  | some l => !l.isEmpty && (l.all Char.isDigit || (part? l).isSome)
  | none => false

/-- An address of four bytes in normal form; the last part stands for all bytes that are left. -/
def fourBytes? (name : List Char) : Option String := do
  let parts ← (labels name).mapM part?
  let (rest, last) ← match parts.reverse with
    | last :: rest => some (rest.reverse, last)
    | [] => none
  let width := 8 * (4 - rest.length)
  if rest.length < 4 && rest.all (· < 256) && last < 1 <<< width then
    let value := (rest.foldl (fun n part => n * 256 + part) 0) <<< width + last
    return String.intercalate "." ([3, 2, 1, 0].map fun i => toString ((value >>> (8 * i)) % 256))
  else none

/-! ## Addresses of eight groups -/

/-- A group of up to four hexadecimal digits. -/
def group? (cs : List Char) : Option Nat :=
  if cs.isEmpty || 4 < cs.length then none else number? 16 cs

/-- A byte in decimal, without zeros in front. -/
def byte? : List Char → Option Nat
  | [] => none
  | ['0'] => some 0
  | '0' :: _ => none
  | cs => (number? 10 cs).filter (· < 256)

/-- The last of the groups, which may be two written as four bytes. -/
def lastGroups? (cs : List Char) : Option (List Nat) :=
  if cs.contains '.' then
    match (cs.splitOn '.').mapM byte? with
    | some [a, b, c, d] => some [a * 256 + b, c * 256 + d]
    | _ => none
  else (group? cs).map ([·])

/-- Groups between colons; only at the end of the address may there be bytes. -/
def groups? (atEnd : Bool) (cs : List Char) : Option (List Nat) :=
  if cs.isEmpty then some []
  else
    let texts := cs.splitOn ':'
    if atEnd then do
      let front ← texts.dropLast.mapM group?
      let last ← lastGroups? (texts.getLast?.getD [])
      return front ++ last
    else texts.mapM group?

/-- What stands before and behind the first two colons in a row. -/
def atGap : List Char → Option (List Char × List Char)
  | ':' :: ':' :: cs => some ([], cs)
  | c :: cs => (atGap cs).map fun (front, back) => (c :: front, back)
  | [] => none

/-- Eight groups, those left out filled in by zeros. -/
def eightGroups? (cs : List Char) : Option (List Nat) := do
  match atGap cs with
  | none =>
    let groups ← groups? true cs
    if groups.length = 8 then return groups else none
  | some (front, back) =>
    let front ← groups? false front
    let back ← groups? true back
    let given := front.length + back.length
    if given < 8 then return front ++ List.replicate (8 - given) 0 ++ back else none

/-- How many zeros a list begins with. -/
def leadingZeros (groups : List Nat) : Nat := (groups.takeWhile (· = 0)).length

/-- Start and length of the first of the longest runs of zeros. -/
def longestRun (groups : List Nat) : Nat × Nat :=
  (List.range groups.length).foldl (fun best i =>
    let n := leadingZeros (groups.drop i)
    if best.2 < n then (i, n) else best) (0, 0)

def groupsText (groups : List Nat) : String :=
  let texts := fun (gs : List Nat) =>
    String.intercalate ":" (gs.map fun g => String.ofList (Nat.toDigits 16 g))
  match longestRun groups with
  | (start, n) =>
    if n < 2 then texts groups
    else texts (groups.take start) ++ "::" ++ texts (groups.drop (start + n))

/-! ## Hosts -/

/-- Undoes the escapes of ASCII characters. -/
def unescape : List Char → List Char
  | '%' :: a :: b :: cs =>
    match number? 16 [a, b] with
    | some n => if n < 128 then (Char.ofNat n).toLower :: unescape cs else '%' :: unescape (a :: b :: cs)
    | none => '%' :: unescape (a :: b :: cs)
  | c :: cs => c :: unescape cs
  | [] => []

def isForbidden (c : Char) : Bool :=
  c.toNat ≤ 0x20 || 0x7f ≤ c.toNat || "#%/:<>?@[\\]^|".toList.contains c

def host? (cs : List Char) : Option String :=
  match cs.map Char.toLower with
  | [] => none
  | '[' :: rest =>
    if rest.getLast? = some ']' then
      (eightGroups? rest.dropLast).map fun groups => "[" ++ groupsText groups ++ "]"
    else none
  | cs =>
    let name := unescape cs
    if name.any isForbidden then none
    else if isNumeric name then fourBytes? name
    else some (String.ofList name)

end Overseer.Http.Host

import Overseer.Json.Basic

/-!
# Random identifiers

A version 4 UUID: 128 bits, of which six are fixed and the others random, written in lower case.
-/
namespace Overseer.Uuid

/-- `count` hexadecimal digits of `n`, the last ones. -/
def digits : Nat → Nat → List Char
  | 0, _ => []
  | count + 1, n => digits count (n / 16) ++ [Json.hexDigit (n % 16)]

/-- The identifier with the random bits of `n`. -/
def ofRandom (n : Nat) : String :=
  let variant := 8 + (n >>> 60) % 4
  String.ofList (
    digits 8 (n >>> 96) ++ '-' :: digits 4 (n >>> 80) ++ '-' :: '4' :: digits 3 (n >>> 64) ++
      '-' :: Json.hexDigit variant :: digits 3 (n >>> 48) ++ '-' :: digits 12 n)

def isHexDigit (c : Char) : Bool := c.isDigit || ('a' ≤ c && c ≤ 'f')

/-- Whether a text is a version 4 UUID in lower case. -/
def isVersion4 (s : String) : Bool :=
  match s.toList.splitOn '-' with
  | [a, b, c, d, e] =>
    a.length = 8 && b.length = 4 && c.length = 4 && d.length = 4 && e.length = 12 &&
      [a, b, c, d, e].all (fun g => g.all isHexDigit) && c.head? = some '4' &&
      d.head?.any (fun x => x = '8' || x = '9' || x = 'a' || x = 'b')
  | _ => false

end Overseer.Uuid

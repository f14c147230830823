import Overseer.Dict
import Overseer.Json.Number

/-!
# JSON values and their text

`Json.compact` writes a value on one line without blanks; `Json.pretty` writes it with two blanks of
indentation. Text is written as it is, apart from quotes, backslashes and control characters.
-/
namespace Overseer

/-- A JSON value. -/
inductive Json where
  | null
  | bool (b : Bool)
  | num (n : Json.Number)
  | str (s : String)
  | arr (items : List Json)
  | obj (fields : List (String × Json))
  deriving Repr, Inhabited

namespace Json

instance : Coe String Json := ⟨.str⟩
instance : Coe Bool Json := ⟨.bool⟩

def nat (n : Nat) : Json := .num (.int n)

def int (n : Int) : Json := .num (.int n)

def ofOption {α : Type} (f : α → Json) : Option α → Json
  | none => .null
  | some a => f a

def strings (l : List String) : Json := .arr (l.map .str)

def fields : Json → List (String × Json)
  | .obj fs => fs
  | _ => []

def str? : Json → Option String
  | .str s => some s
  | _ => none

def get? (j : Json) (key : String) : Option Json := Dict.get? key j.fields

/-! ## Text -/

def hexDigit (n : Nat) : Char :=
  if n < 10 then Char.ofNat (48 + n) else Char.ofNat (87 + n)

def quotedChar (c : Char) : List Char :=
  if c = '"' then ['\\', '"']
  else if c = '\\' then ['\\', '\\']
  else if c.toNat = 8 then ['\\', 'b']
  else if c.toNat = 9 then ['\\', 't']
  else if c.toNat = 10 then ['\\', 'n']
  else if c.toNat = 12 then ['\\', 'f']
  else if c.toNat = 13 then ['\\', 'r']
  else if c.toNat < 32 then ['\\', 'u', '0', '0', hexDigit (c.toNat / 16), hexDigit (c.toNat % 16)]
  else [c]

def quoted (s : String) : List Char :=
  '"' :: (s.toList.flatMap quotedChar ++ ['"'])

mutual

def chars : Json → List Char
  | .null => ['n', 'u', 'l', 'l']
  | .bool true => ['t', 'r', 'u', 'e']
  | .bool false => ['f', 'a', 'l', 's', 'e']
  | .num n => n.text.toList
  | .str s => quoted s
  | .arr items => '[' :: (itemChars items ++ [']'])
  | .obj fields => '{' :: (fieldChars fields ++ ['}'])

def itemChars : List Json → List Char
  | [] => []
  | [j] => chars j
  | j :: rest => chars j ++ ',' :: itemChars rest

def fieldChars : List (String × Json) → List Char
  | [] => []
  | [(k, v)] => quoted k ++ ':' :: chars v
  | (k, v) :: rest => quoted k ++ ':' :: (chars v ++ ',' :: fieldChars rest)

end

def compact (j : Json) : String := String.ofList (chars j)

def lineBreak (level : Nat) : List Char := '\n' :: List.replicate (2 * level) ' '

mutual

def prettyChars (level : Nat) : Json → List Char
  | .arr [] => ['[', ']']
  | .obj [] => ['{', '}']
  | .arr items => '[' :: (prettyItems (level + 1) items ++ lineBreak level ++ [']'])
  | .obj fields => '{' :: (prettyFields (level + 1) fields ++ lineBreak level ++ ['}'])
  | j => chars j

def prettyItems (level : Nat) : List Json → List Char
  | [] => []
  | [j] => lineBreak level ++ prettyChars level j
  | j :: rest => lineBreak level ++ prettyChars level j ++ ',' :: prettyItems level rest

def prettyFields (level : Nat) : List (String × Json) → List Char
  | [] => []
  | [(k, v)] => lineBreak level ++ quoted k ++ ':' :: ' ' :: prettyChars level v
  | (k, v) :: rest =>
    lineBreak level ++ quoted k ++ ':' :: ' ' :: (prettyChars level v ++ ',' :: prettyFields level rest)

end

def pretty (j : Json) : String := String.ofList (prettyChars 0 j)

end Json

end Overseer

import Overseer.Http.Host
import Overseer.Json.Basic
import Overseer.Utf8

/-!
# URLs

`Url.parse` reads an absolute URL for a request over HTTP and brings it into normal form: scheme and host
in lower case, the scheme's own port left out, a path that begins with a slash and has no `.` or `..` in
it, and everything else than plain characters escaped. Names and passwords before the host are dropped.
-/
namespace Overseer.Http

structure Url where
  scheme : String
  host : String
  port : Option Nat := none
  path : String := "/"
  query : Option String := none
  fragment : Option String := none
  deriving DecidableEq, Repr, Inhabited

inductive UrlFault where
  /-- It is not absolute or has no proper host. -/
  | malformed
  /-- It is a URL of another kind. -/
  | unsupported (url : String)
  deriving DecidableEq, Repr, Inhabited

def UrlFault.message : UrlFault → String
  | .malformed => "builder error"
  | .unsupported url => "builder error for url (" ++ url ++ ")"

namespace Url

/-- A URL without its fragment, as it is asked for. -/
def target (u : Url) : Url := { u with fragment := none }

def text (u : Url) : String :=
  u.scheme ++ "://" ++ u.host ++
    (match u.port with
      | some p => ":" ++ toString p
      | none => "") ++
    u.path ++
    (match u.query with
      | some q => "?" ++ q
      | none => "") ++
    (match u.fragment with
      | some f => "#" ++ f
      | none => "")

/-- Schemes with a host, and their ports. -/
def schemes : List (String × Nat) := [("http", 80), ("https", 443), ("ws", 80), ("wss", 443), ("ftp", 21)]

def isHttp (scheme : String) : Bool := scheme = "http" || scheme = "https"

/-! ## Escapes -/

def escapedByte (b : UInt8) : List Char :=
  ['%', (Json.hexDigit (b.toNat / 16)).toUpper, (Json.hexDigit (b.toNat % 16)).toUpper]

/-- Escapes control characters, all that is not ASCII, and the characters listed. -/
def escape (marked : List Char) (cs : List Char) : List Char :=
  cs.flatMap fun c =>
    if c.toNat ≤ 0x1f || 0x7f ≤ c.toNat || marked.contains c then
      (String.singleton c).toUTF8.toList.flatMap escapedByte
    else [c]

def inFragment : List Char := [' ', '"', '<', '>', Char.ofNat 0x60]

def inPath : List Char := inFragment ++ ['#', '?', '{', '}']

def inQuery : List Char := [' ', '"', '#', '<', '>', '\'']

/-! ## Authorities -/

/-- The port behind a host; none inside if it is the scheme's own or absent. -/
def port? (own : Nat) : List Char → Option (Option Nat)
  | [] => some none
  | ':' :: [] => some none
  | ':' :: digits =>
    match Host.number? 10 digits with
    | some n => if n = own then some none else if n < 65536 then some (some n) else none
    | none => none
  | _ => none

/-- What stands behind the last character of its kind, or everything. -/
def afterLast (c : Char) (cs : List Char) : List Char := (cs.reverse.takeWhile (· ≠ c)).reverse

def authority? (own : Nat) (cs : List Char) : Option (String × Option Nat) := do
  let cs := afterLast '@' cs
  let (name, rest) := match cs with
    | '[' :: _ => (cs.takeWhile (· ≠ ']') ++ (cs.dropWhile (· ≠ ']')).take 1, (cs.dropWhile (· ≠ ']')).drop 1)
    | _ => (cs.takeWhile (· ≠ ':'), cs.dropWhile (· ≠ ':'))
  return (← Host.host? name, ← port? own rest)

/-! ## Paths -/

def isSlash (c : Char) : Bool := c = '/' || c = '\\'

def isDot (segment : List Char) : Bool :=
  segment = ['.'] || segment.map Char.toLower = ['%', '2', 'e']

def isDotDot (segment : List Char) : Bool :=
  match segment with
  | '.' :: rest => isDot rest
  | a :: b :: c :: rest => isDot [a, b, c] && isDot rest
  | _ => false

/-- Goes through the segments of a path; those so far come last first. A dot at the end leaves an empty
segment there. -/
def walk (done : List (List Char)) : List (List Char) → List (List Char)
  | [] => done.reverse
  | s :: rest =>
    let last := rest.isEmpty
    if isDotDot s then walk (if last then [] :: done.tail else done.tail) rest
    else if isDot s then walk (if last then [] :: done else done) rest
    else walk (escape inPath s :: done) rest

/-- A path in normal form, from one that begins with a slash or is empty. -/
def pathText (cs : List Char) : String :=
  let segments := (cs.drop 1).map (fun c => if isSlash c then '/' else c) |>.splitOn '/'
  String.join ((walk [] segments).map fun s => "/" ++ String.ofList s)

/-! ## Reading -/

def isSchemeChar (c : Char) : Bool := c.isAlphanum || c = '+' || c = '-' || c = '.'

def scheme? (cs : List Char) : Option (String × List Char) :=
  match cs.takeWhile isSchemeChar, cs.dropWhile isSchemeChar with
  | c :: name, ':' :: rest =>
    if c.isAlpha then some (String.ofList ((c :: name).map Char.toLower), rest) else none
  | _, _ => none

/-- A text without the blanks around it and the line breaks in it. -/
def cleaned (s : String) : List Char :=
  let cs := s.toList.dropWhile fun c => c.toNat ≤ 0x20
  let cs := (cs.reverse.dropWhile fun c => c.toNat ≤ 0x20).reverse
  cs.filter fun c => c ≠ '\t' && c ≠ '\n' && c ≠ '\r'

/-- What stands before the first of a mark and, if there is one, behind it. -/
def cut (mark : Char) (cs : List Char) : List Char × Option (List Char) :=
  match cs.dropWhile (· ≠ mark) with
  | _ :: rest => (cs.takeWhile (· ≠ mark), some rest)
  | [] => (cs, none)

def ofScheme? (scheme : String) (port : Nat) (cs : List Char) : Option Url := do
  let (cs, fragment) := cut '#' (cs.dropWhile isSlash)
  let (cs, query) := cut '?' cs
  let isName := fun c => !isSlash c
  let (host, port) ← authority? port (cs.takeWhile isName)
  return {
    scheme, host, port
    path := pathText (cs.dropWhile isName)
    query := query.map fun q => String.ofList (escape inQuery q)
    fragment := fragment.map fun f => String.ofList (escape inFragment f) }

def parse (s : String) : Except UrlFault Url :=
  match scheme? (cleaned s) with
  | none => .error .malformed
  | some (scheme, rest) =>
    match schemes.lookup scheme with
    | none => .error (.unsupported (scheme ++ ":" ++ String.ofList rest))
    | some port =>
      match ofScheme? scheme port rest with
      | none => .error .malformed
      | some u => if isHttp scheme then .ok u else .error (.unsupported u.text)

end Url

end Overseer.Http

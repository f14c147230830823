import Overseer.Word

/-!
# Options on a command line

How options are told from values. A long option is `--name value` or `--name=value`; a short one is
`-n value`, `-nvalue` or `-n=value`, and switches may share a dash. An argument that begins with a dash
is no value, unless it looks like a number and the option takes negative ones. `--` ends the options.
A value counts only once the next option or the end has been reached: an unknown argument is reported
before a fault in the value in front of it.
-/
namespace Overseer.CommandLine

inductive UsageError where
  | missingRequired
  | unknownArgument
  | invalidNumber
  | missingValue
  | conflict
  | unknownCommand
  | tooManyValues
  | help
  | version
  | helpForNothing
  deriving DecidableEq, Repr, Inhabited

inductive Kind where
  | help
  | version
  | switch
  | text
  /-- Text that is not empty. -/
  | path
  /-- A signed 64-bit word. -/
  | integer
  /-- Any number of texts: separated by commas, and added up if the option is repeated. -/
  | texts
  deriving DecidableEq, Repr, Inhabited

def Kind.takesValue : Kind → Bool
  | .help | .version | .switch => false
  | .text | .path | .integer | .texts => true

structure Opt where
  name : String
  short : Option Char
  kind : Kind
  deriving DecidableEq, Repr, Inhabited

abbrev Given := List (String × List String)

namespace Given

def has (g : Given) (name : String) : Bool := (g.lookup name).isSome

def values? (g : Given) (name : String) : Option (List String) := g.lookup name

def value? (g : Given) (name : String) : Option String := (g.lookup name).bind List.head?

end Given

def integer? (s : String) : Option Int :=
  let (negative, digits) := match s.toList with
    | '-' :: rest => (true, rest)
    | '+' :: rest => (false, rest)
    | cs => (false, cs)
  if digits = [] ∨ ¬ digits.all Char.isDigit then none
  else
    let size : Nat := digits.foldl (fun n c => n * 10 + (c.toNat - 48)) 0
    let n : Int := if negative then -size else size
    if Word.isSigned64 n then some n else none

def Given.integer? (g : Given) (name : String) : Option Int :=
  (g.value? name).bind CommandLine.integer?

/-- Whether a text looks like a number without a sign: digits, one point after the first and before an
exponent, one `e` between digits. -/
def looksNumeric (cs : List Char) : Bool :=
  go cs false false true
where
  go : List Char → Bool → Bool → Bool → Bool
    | [], _, _, _ => true
    | c :: rest, point, exponent, first =>
      if c.isDigit then go rest point exponent false
      else if c = '.' ∧ !point ∧ !exponent ∧ !first then go rest true exponent false
      else if c = 'e' ∧ !exponent ∧ !first then rest ≠ [] && go rest point true false
      else false

def enter (g : Given) (o : Opt) (raw : List String) : Except UsageError Given :=
  match o.kind with
  | .help => .error .help
  | .version => .error .version
  | .switch => if g.has o.name then .error .conflict else .ok ((o.name, []) :: g)
  | .texts =>
    match raw with
    | [] => .error .missingValue
    | _ =>
      let new := raw.flatMap fun s => (s.toList.splitOn ',').map String.ofList
      .ok ((o.name, (g.values? o.name).getD [] ++ new) :: g)
  | .text | .path | .integer =>
    match raw with
    | [] => .error .missingValue
    | value :: _ =>
      if g.has o.name then .error .conflict
      else if o.kind = .integer ∧ (integer? value).isNone then .error .invalidNumber
      else if o.kind = .path ∧ value.isEmpty then .error .missingValue
      else .ok ((o.name, [value]) :: g)

/-- Options read so far, and one at hand whose values are not entered yet. -/
structure Progress where
  given : Given
  open? : Option (Opt × List String)

namespace Progress

def flush (p : Progress) : Except UsageError Given :=
  match p.open? with
  | none => .ok p.given
  | some (o, raw) => enter p.given o raw

def awaiting? (p : Progress) : Option Opt :=
  match p.open? with
  | some (o, []) => some o
  | _ => none

def take (p : Progress) (o : Opt) (raw : List String) : Except UsageError Progress := do
  return ⟨← enter (← p.flush) o raw, none⟩

def expect (p : Progress) (o : Opt) : Except UsageError Progress := do
  return ⟨← p.flush, some (o, [])⟩

/-- A long option: its name and what stands after an equals sign. -/
def long (p : Progress) (opts : List Opt) (body : List Char) : Except UsageError Progress :=
  let name := body.takeWhile (· ≠ '=')
  let attached := body.drop name.length
  match opts.find? fun o => o.name.toList = name with
  | none => .error .unknownArgument
  | some o =>
    match o.kind.takesValue, attached with
    | true, [] => p.expect o
    | true, _ :: value => p.take o [String.ofList value]
    | false, [] => p.take o []
    | false, _ :: _ => .error .tooManyValues

/-- Short options behind one dash. -/
def shorts (opts : List Opt) : Progress → List Char → Except UsageError Progress
  | p, [] => .ok p
  | p, c :: rest =>
    match opts.find? fun o => o.short = some c with
    | none => .error .unknownArgument
    | some o =>
      if o.kind.takesValue then
        match rest with
        | [] => p.expect o
        | '=' :: value => p.take o [String.ofList value]
        | value => p.take o [String.ofList value]
      else do shorts opts (← p.take o []) rest

/-- One argument before any `--`. -/
def argument (p : Progress) (opts : List Opt) (arg : String) : Except UsageError Progress :=
  let asValue : Except UsageError Progress :=
    match p.awaiting? with
    | some o => .ok { p with open? := some (o, [arg]) }
    | none => .error .unknownArgument
  match arg.toList with
  | '-' :: '-' :: body => p.long opts body
  | '-' :: c :: body =>
    match p.awaiting? with
    | some o =>
      if o.kind = .integer ∧ looksNumeric (c :: body) then asValue else shorts opts p (c :: body)
    | none => shorts opts p (c :: body)
  | _ => asValue

end Progress

def readOptions (opts : List Opt) : Progress → List String → Except UsageError Given
  | p, [] => p.flush
  | p, arg :: rest =>
    if arg = "--" then
      match rest with
      | [] => p.flush
      | _ :: _ => .error .unknownArgument
    else do readOptions opts (← p.argument opts arg) rest

end Overseer.CommandLine

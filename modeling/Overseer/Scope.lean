import Overseer.Clock

/-!
# Cancel scopes

A scope tells a run to stop in two ways that are kept apart: its token is cancelled, or its deadline has
passed. Tokens form a forest, and a token is cancelled when it or one above it has been raised. A child
scope has a token below its parent's, and the earlier of two deadlines: its parent's and its own.
-/
namespace Overseer

/-- A node of the forest of tokens, with the nodes above it, nearest first. -/
structure Token where
  key : Nat
  above : List Nat
  deriving DecidableEq, Repr, Inhabited

/-- The tokens handed out so far, and those on which cancellation was called. -/
structure Signals where
  fresh : Nat := 0
  raised : List Nat := []
  deriving DecidableEq, Repr, Inhabited

namespace Signals

def root (s : Signals) : Token × Signals := (⟨s.fresh, []⟩, { s with fresh := s.fresh + 1 })

def below (s : Signals) (t : Token) : Token × Signals :=
  (⟨s.fresh, t.key :: t.above⟩, { s with fresh := s.fresh + 1 })

def raise (s : Signals) (t : Token) : Signals := { s with raised := t.key :: s.raised }

def isCancelled (s : Signals) (t : Token) : Bool :=
  (t.key :: t.above).any fun k => s.raised.contains k

end Signals

/-- A token to watch, and a deadline if there is one. -/
structure Scope where
  token : Token
  deadline : Option Instant := none
  deriving DecidableEq, Repr, Inhabited

namespace Scope

/-- The scope of a token, without a deadline. Scopes may share a token. -/
def ofToken (t : Token) : Scope := ⟨t, none⟩

def root (s : Signals) : Scope × Signals :=
  match s.root with
  | (t, s) => (ofToken t, s)

/-- The same token with another deadline, whatever it had before. -/
def withDeadline (scope : Scope) (d : Instant) : Scope := { scope with deadline := some d }

/-- Cancels a scope: its token, and so all scopes that share it or have one below it. -/
def cancel (scope : Scope) (s : Signals) : Signals := s.raise scope.token

def isCancelled (scope : Scope) (s : Signals) : Bool := s.isCancelled scope.token

def isExpired (scope : Scope) (now : Instant) : Bool :=
  match scope.deadline with
  | none => false
  | some d => d ≤ now

/-- The earlier of a deadline that may be there and another. -/
def earlier (parent : Option Instant) (own : Instant) : Instant :=
  match parent with
  | some d => if d < own then d else own
  | none => own

/-- A scope below another, for at most `timeout` from now; none if the clock cannot show its deadline. -/
def child? (scope : Scope) (s : Signals) (now : Instant) (timeout : Duration) :
    Option (Scope × Signals) :=
  match Instant.after? now timeout with
  | none => none
  | some own =>
    match s.below scope.token with
    | (t, s) => some (⟨t, some (earlier scope.deadline own)⟩, s)

end Scope

end Overseer

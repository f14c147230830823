import Overseer.Scope

/-!
# Tasks in virtual time

A task is a program that acts on a shared state and now and then sleeps, until an instant or until a
token is cancelled. Tasks take turns: one runs until it sleeps or ends, then the one that has been ready
longest. Only when all are asleep does time move on, straight to the next instant that a task waits for.
One task leads: it goes first when it is awake, and the play is over when it ends.
-/
namespace Overseer.Rehearsal

/-- What a task has still to do. -/
inductive Task (σ : Type) where
  | done
  | act (f : σ → σ × Task σ)
  /-- Sleeps until an instant, or until a token is cancelled. -/
  | sleep (until? : Option Instant) (watched : Option Token) (next : Task σ)
  | fork (other next : Task σ)
  /-- Goes on when all other tasks are asleep. -/
  | settle (next : Task σ)

/-- A part of a task that yields a value. -/
def Play (σ α : Type) : Type := (α → Task σ) → Task σ

namespace Play

variable {σ α β : Type}

instance : Monad (Play σ) where
  pure a := fun k => k a
  bind m f := fun k => m fun a => f a k

def get : Play σ σ := fun k => .act fun s => (s, k s)

def modify (f : σ → σ) : Play σ Unit := fun k => .act fun s => (f s, k ())

def sleep (until? : Option Instant) (watched : Option Token) : Play σ Unit :=
  fun k => .sleep until? watched (k ())

def settle : Play σ Unit := fun k => .settle (k ())

/-- The task that a part is if nothing follows it. -/
def task (m : Play σ Unit) : Task σ := m fun _ => .done

def fork (m : Play σ Unit) : Play σ Unit := fun k => .fork m.task (k ())

end Play

class Timed (σ : Type) where
  now : σ → Instant
  setNow : σ → Instant → σ
  isCancelled : σ → Token → Bool

structure Sleeper (σ : Type) where
  until? : Option Instant
  watched : Option Token
  next : Task σ

inductive Lead (σ : Type) where
  | awake (t : Task σ)
  | asleep (s : Sleeper σ)
  | settling (t : Task σ)
  | ended

/-- All tasks but the leading one, and what they share. -/
structure Cast (σ : Type) where
  state : σ
  ready : List (Task σ) := []
  asleep : List (Sleeper σ) := []

namespace Cast

variable {σ : Type} [Timed σ]

/-- Timers go off at whole milliseconds. -/
def wholeMillis (i : Instant) : Instant := (i + 999999) / 1000000 * 1000000

def isDue (now : Instant) (s : Sleeper σ) : Bool :=
  match s.until? with
  | some i => i ≤ now
  | none => false

/-- Makes the sleepers ready that meet a condition, in the order in which they fell asleep. -/
def wake (c : Cast σ) (awake : Sleeper σ → Bool) : Cast σ :=
  { c with
    ready := c.ready ++ (c.asleep.filter awake).map (·.next)
    asleep := c.asleep.filter fun s => !awake s }

def wakeCancelled (c : Cast σ) : Cast σ :=
  c.wake fun s =>
    match s.watched with
    | some t => Timed.isCancelled c.state t
    | none => false

def runTask : Nat → Cast σ → Task σ → Cast σ × Lead σ
  | 0, c, _ => (c, .ended)
  | fuel + 1, c, t =>
    match t with
    | .done => (c, .ended)
    | .act f =>
      match f c.state with
      | (s, next) => runTask fuel { c with state := s }.wakeCancelled next
    | .sleep until? watched next =>
      let s : Sleeper σ := ⟨until?, watched, next⟩
      let cancelled := match watched with
        | some t => Timed.isCancelled c.state t
        | none => false
      if isDue (Timed.now c.state) s || cancelled then runTask fuel c next else (c, .asleep s)
    | .fork other next => runTask fuel { c with ready := c.ready ++ [other] } next
    | .settle next => (c, .settling next)

def nextInstant (c : Cast σ) (lead : Option Instant) : Option Instant :=
  (lead.toList ++ c.asleep.filterMap (·.until?)).min?

def play : Nat → Cast σ → Lead σ → σ
  | 0, c, _ => c.state
  | fuel + 1, c, lead =>
    match lead with
    | .ended => c.state
    | .awake t =>
      match runTask fuel c t with
      | (c, lead) => play fuel c lead
    | lead =>
      match c.ready with
      | t :: rest =>
        match runTask fuel { c with ready := rest } t with
        | (c, .asleep s) => play fuel { c with asleep := c.asleep ++ [s] } lead
        | (c, .settling next) => play fuel { c with ready := c.ready ++ [next] } lead
        | (c, _) => play fuel c lead
      | [] =>
        match lead with
        | .settling t => play fuel c (.awake t)
        | .asleep s =>
          match nextInstant c s.until? with
          | none => c.state
          | some i =>
            let now := wholeMillis i
            let c := { c with state := Timed.setNow c.state now }.wake (isDue now)
            play fuel c (if isDue now s then .awake s.next else .asleep s)
        | _ => c.state

end Cast

def perform {σ : Type} [Timed σ] (fuel : Nat) (s : σ) (m : Play σ Unit) : σ :=
  Cast.play fuel { state := s } (.awake m.task)

end Overseer.Rehearsal

import Overseer.Agent.Executor
import Overseer.Model.Client
import Overseer.Supervisor.Machine
import Overseer.Transcript
import Overseer.Workspace

/-!
# The session of one sub-agent

The main task of the program starts a sub-agent under the supervisor, waits until it has ended or the
program is interrupted, and writes its record into the transcript. Meanwhile the sub-agent runs in the
background, and the monitoring hook writes each change of its status into the same transcript. `next?`
says what each action of the two does; they may come in any order. `play` is the session in which the
main task goes first, then the background, then the model's server, and time moves last.
-/
namespace Overseer.Program

open Supervisor (Machine Policy Frame Answer Outcome)

structure Setting where
  id : String
  client : Model.Client
  workspace : Workspace
  transcript : Transcript
  policy : Policy
  /-- Random numbers for the answers to each request. -/
  random : Nat → Nat → Nat

inductive Close where
  | recorded (r : Record)
  | refused (reason : Refusal)
  | panicked (message : String)
  deriving Repr, Inhabited

/-- What the main task is at. -/
inductive Phase where
  | starting
  /-- It waits for the sub-agent, or for an interrupt. -/
  | waiting
  | stopping
  | asking
  | reporting (r : Record)
  | closed (c : Close)
  deriving Repr, Inhabited

/-- The state of a session. The main task has the supervisor's first thread. -/
structure Session where
  machine : Machine
  executor : Agent.Executor
  files : FileSystem
  exchange : Http.Exchange
  /-- What becomes of the request that waits for an answer. -/
  pending : Option Http.Fate := none
  /-- The number of the run, once it has entered the executor. -/
  run : Option Nat := none
  phase : Phase := .starting

/-- What can happen in a session. The main task and the background take their steps one at a time, in any order. -/
inductive Action where
  | step (thread : Nat)
  | announce (thread : Nat)
  /-- The run makes a move. -/
  | work (thread : Nat)
  | answer
  /-- The request that waits fails, though it has been sent. -/
  | fail (e : ModelError)
  | interrupt
  /-- The main task goes on with the answer of a call. -/
  | proceed
  | report
  | tick (now : Instant)
  deriving Repr, Inhabited

namespace Session

def start (context : Context) (executor : Agent.Executor) (now : Instant) (files : FileSystem)
    (exchange : Http.Exchange) : Session :=
  match Scope.root {} with
  | (scope, signals) =>
    { machine := { now, signals, hook := some 0, threads := [[.start context scope]] }
      executor, files, exchange }

def withMachine (s : Session) (m : Machine) : Session := { s with machine := m }

def signals (s : Session) : Signals := s.machine.signals

def now (s : Session) : Instant := s.machine.now

/-- The hook writes down a status and returns. -/
def announce? (g : Setting) (s : Session) (thread : Nat) : Option Session :=
  match s.machine.threads[thread]? with
  | some (.hook _ _ status :: _) => do
    let m ← s.machine.next? g.policy (.hookReturns thread)
    let files := g.transcript.log s.files (g.policy.clock s.now) (.statusChange status)
    return { s with machine := m, files }
  | _ => none

def hear (s : Session) (n : Nat) (reply : Except ModelError ChatResponse) : Session :=
  { s with executor := s.executor.hearReply n s.signals s.now reply, pending := none }

def enter? (g : Setting) (s : Session) (thread : Nat) (context : Context) (scope : Scope) :
    Option Session :=
  match s.executor.enter context scope s.signals s.now with
  | .error reason =>
    (s.machine.next? g.policy (.executorReturns thread (.rejected reason))).map s.withMachine
  | .ok (n, executor) => some { s with executor, run := some n }

def move? (g : Setting) (s : Session) (thread n : Nat) : Option Session := do
  match ← s.executor.move? n with
  | .ask request =>
    match g.client.chat request with
    | .error e => return s.hear n (.error e)
    | .ok r =>
      match s.exchange.send r with
      | (fate, exchange) => return { s with exchange, pending := some fate }
  | .invoke call =>
    match g.workspace.execute s.files call.name call.arguments with
    | (files, output) =>
      return { s with files, executor := s.executor.hearOutput n s.signals s.now output }
  | .finish ending =>
    let r ← s.executor.record? n ending s.now (g.policy.clock s.now)
    let m ← s.machine.next? g.policy (.executorReturns thread (.returned r))
    return { s with machine := m, executor := s.executor.leave n }

def work? (g : Setting) (s : Session) (thread : Nat) : Option Session :=
  match s.machine.threads[thread]? with
  | some (.executing context key :: _) =>
    match s.pending, s.run with
    | none, none => do
      let e ← s.machine.entry? key
      s.enter? g thread context e.scope
    | none, some n => s.move? g thread n
    | some _, _ => none
  | _ => none

def answer? (g : Setting) (s : Session) : Option Session :=
  match s.pending, s.run with
  | some (.answered a), some n =>
    some (s.hear n (.ok (Model.Client.hear (g.random s.exchange.sent.length) a)))
  | _, _ => none

def fail? (s : Session) (e : ModelError) : Option Session :=
  match s.pending, s.run with
  | some _, some n => some (s.hear n (.error e))
  | _, _ => none

def interrupt? (g : Setting) (s : Session) : Option Session :=
  match s.phase, s.pending with
  | .waiting, some .interrupted => do
    let m ← s.machine.next? g.policy (.giveUp 0)
    let m ← m.next? g.policy (.call 0 (.shutdown none))
    return { s with machine := m, phase := .stopping }
  | _, _ => none

def callNext? (g : Setting) (s : Session) (f : Frame) (phase : Phase) : Option Session := do
  let m ← s.machine.next? g.policy (.call 0 f)
  return { s with machine := m, phase }

/-- The main task goes on with the answer of its call. -/
def proceed? (g : Setting) (s : Session) : Option Session :=
  match s.machine.threads.head? with
  | some [.answer a] => do
    let m ← s.machine.next? g.policy (.take 0)
    let s := s.withMachine m
    match s.phase, a with
    | _, .panicked message => return { s with phase := .closed (.panicked message) }
    | .starting, .done => s.callNext? g (.wait g.id) .waiting
    | .stopping, _ => s.callNext? g (.status g.id) .asking
    | _, .refused reason => return { s with phase := .closed (.refused reason) }
    | .waiting, .record r | .asking, .record r => return { s with phase := .reporting r }
    | _, _ => none
  | _ => none

def report? (g : Setting) (s : Session) : Option Session :=
  match s.phase with
  | .reporting r =>
    let files := g.transcript.logAll s.files (g.policy.clock s.now) (Event.ofRecord r)
    some { s with files, phase := .closed (.recorded r) }
  | _ => none

def next? (g : Setting) (s : Session) : Action → Option Session
  | .step thread => (s.machine.next? g.policy (.step thread)).map s.withMachine
  | .announce thread => s.announce? g thread
  | .work thread => s.work? g thread
  | .answer => s.answer? g
  | .fail e => s.fail? e
  | .interrupt => s.interrupt? g
  | .proceed => s.proceed? g
  | .report => s.report? g
  | .tick now => (s.machine.next? g.policy (.tick now)).map s.withMachine

def turn? (g : Setting) (s : Session) (thread : Nat) : Option Action :=
  let candidates : List Action := [.step thread, .announce thread, .work thread]
  candidates.find? fun a => (s.next? g a).isSome

def wake? (s : Session) : Option Instant :=
  match s.machine.threads.head? with
  | some (.doze _ wake :: _) | some (.rest _ _ wake :: _) => some wake
  | _ => none

/-- What happens next in a session that is played. -/
def choose (g : Setting) (s : Session) : Option Action :=
  let here : List Action := [.report, .proceed]
  let outside : List Action := [.answer, .interrupt]
  here.find? (fun a => (s.next? g a).isSome) <|> s.turn? g 0 <|> s.turn? g 1 <|>
    outside.find? (fun a => (s.next? g a).isSome) <|> s.wake?.map .tick

def play (g : Setting) : Nat → Session → Session
  | 0, s => s
  | fuel + 1, s =>
    match s.phase with
    | .closed _ => s
    | _ =>
      match (s.choose g).bind (s.next? g) with
      | some s => play g fuel s
      | none => s

end Session

end Overseer.Program

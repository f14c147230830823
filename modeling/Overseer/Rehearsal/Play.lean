import Overseer.Rehearsal.Stage

/-!
# Playing a script

How each act is played on the stage: calls to the supervisor go step by step through its machine, the
hook reacts in the middle of them, and runs are done by the executor or by a stand-in for it. `Stage.rehearse` plays
the acts of a script one after the other and keeps what each came to.

Fuel bounds how deep calls, reactions and loops are nested in one another; a script that ends uses only as
much of it as it has steps.
-/
namespace Overseer.Rehearsal

open Supervisor (Answer Frame Outcome Label)

abbrev Playing := Play Stage

def change {α : Type} (f : Stage → α × Stage) : Playing α := do
  let s ← Play.get
  match f s with
  | (a, s') =>
    Play.modify fun _ => s'
    return a

def follow (l : Label) : Playing Unit := Play.modify (·.follow l)

def note (id : String) (n : Note) : Playing Unit := Play.modify (·.note id n)

def pause (millis : Nat) : Playing Unit := do
  let s ← Play.get
  Play.sleep (some (s.machine.now + millis * 1000000)) none

/-- How the work on a run ended. -/
inductive Worked where
  | returned (r : Record)
  | rejected (reason : Refusal)
  | panicked (message : String)

def Worked.outcome : Worked → Outcome
  | .returned r => .returned r
  | .rejected reason => .rejected reason
  | .panicked _ => .panicked

def Worked.result : Worked → Result
  | .returned r => .record r
  | .rejected reason => .refused reason
  | .panicked message => .panicked message

def resultOf : Answer → Result
  | .done => .ok
  | .refused reason => .refused reason
  | .record r => .record r
  | .ids ids => .ids (ids.mergeSort fun a b => !(b < a))
  | .count n => .count n
  | .panicked message => .panicked message

/-- What the surroundings have to do for a thread. -/
inductive Turn where
  /-- The machine can make a step. -/
  | step
  | sleep (wake : Instant)
  | hook (hook : Nat) (id : String) (status : Status)
  | work (context : Context) (scope : Scope)
  | answered (a : Answer)
  /-- There is nothing left in the thread. -/
  | idle

def turn (s : Stage) (thread : Nat) : Turn :=
  match s.machine.threads[thread]? with
  | none | some [] => .idle
  | some (f :: below) =>
    let handedOver := match below with
      | [] => true
      | g :: _ => g.isOpen
    match f with
    | .answer a => if handedOver then .answered a else .step
    | .doze _ wake | .rest _ _ wake => if s.machine.now < wake then .sleep wake else .step
    | .hook h key status => .hook h ((s.machine.entry? key).elim "" (·.id)) status
    | .executing context key =>
      match s.machine.entry? key with
      | some e => .work context e.scope
      | none => .idle
    | _ => .step

/-- A stand-in's work on a run: it sleeps, and stops early only if it cooperates. -/
def standIn (part : StandIn) (id : String) (scope : Scope) : Nat → Instant → Playing Worked
  | 0, _ => return .panicked ""
  | fuel + 1, wake => do
    let s ← Play.get
    if wake ≤ s.machine.now then
      match part.line with
      | .panic message => return .panicked message
      | .error reason => return .rejected reason
      | .answer recordFor => return .returned (recordFor id)
    else if part.cooperative then
      let interrupted (status : Status) : Worked :=
        .returned { Record.running id with status, output := "interrupted" }
      if scope.isCancelled s.machine.signals then return interrupted .cancelled
      else if scope.isExpired s.machine.now then return interrupted .timeout
      else
        let until? := match scope.deadline with
          | some d => min d wake
          | none => wake
        Play.sleep (some until?) (some scope.token)
        standIn part id scope fuel wake
    else
      Play.sleep (some wake) none
      standIn part id scope fuel wake

mutual

/-- Lets a thread go on until it has an answer or nothing left. A wait is dropped at `cap`, which gives no
answer either. -/
def drive (fuel : Nat) (thread : Nat) (cap : Option Instant) : Playing (Option Answer) :=
  match fuel with
  | 0 => return none
  | fuel + 1 => do
    let s ← Play.get
    match turn s thread with
    | .idle => return none
    | .answered a =>
      follow (.take thread)
      return some a
    | .sleep wake =>
      match cap with
      | some c =>
        if c ≤ s.machine.now then
          follow (.giveUp thread)
          return none
        else
          Play.sleep (some (min c wake)) none
          drive fuel thread cap
      | none =>
        Play.sleep (some wake) none
        drive fuel thread cap
    | .hook h id status =>
      note id (.hooked ((s.hooks[h]?).elim "" (·.name)) status)
      react fuel thread h id status
      drive fuel thread cap
    | .work context scope =>
      let worked ← work fuel thread scope context
      follow (.executorReturns thread worked.outcome)
      drive fuel thread cap
    | .step =>
      follow (.step thread)
      let after ← Play.get
      if s.machine.threads.length < after.machine.threads.length then
        Play.fork do
          let _ ← drive fuel s.machine.threads.length none
          return ()
      drive fuel thread cap

/-- The reactions of a hook to a notification, and then its return. -/
def react (fuel : Nat) (thread hook : Nat) (id : String) (status : Status) : Playing Unit :=
  match fuel with
  | 0 => return ()
  | fuel + 1 => do
    let s ← Play.get
    match s.takeReaction hook id status with
    | none => follow (.hookReturns thread)
    | some (act, s') =>
      Play.modify fun _ => s'
      match act with
      | .panic => follow (.hookPanics thread "hook panic")
      | act =>
        let result ← play fuel thread act
        note id (.reacted act result)
        react fuel thread hook id status

def call (fuel : Nat) (thread : Nat) (frame : Frame) : Playing Result :=
  match fuel with
  | 0 => return .pending
  | fuel + 1 => do
    follow (.call thread frame)
    return (← drive fuel thread none).elim .gaveUp resultOf

def work (fuel : Nat) (thread : Nat) (scope : Scope) (context : Context) : Playing Worked :=
  match fuel with
  | 0 => return .panicked ""
  | fuel + 1 => do
    let s ← Play.get
    match s.worker with
    | .executor => execute fuel thread scope context
    | .standIn parts =>
      match parts.lookup context.id <|> parts.lookup "*" with
      | none => return .panicked ""
      | some part => standIn part context.id scope fuel (s.machine.now + part.delayMillis * 1000000)

def execute (fuel : Nat) (thread : Nat) (scope : Scope) (context : Context) : Playing Worked :=
  match fuel with
  | 0 => return .panicked ""
  | fuel + 1 => do
    let s ← Play.get
    match s.executor.enter context scope s.machine.signals s.machine.now with
    | .error reason => return .rejected reason
    | .ok (run, executor) =>
      Play.modify fun s => { s with executor }
      let worked ← go fuel thread run
      Play.modify fun s => { s with executor := s.executor.leave run }
      return worked

def go (fuel : Nat) (thread run : Nat) : Playing Worked :=
  match fuel with
  | 0 => return .panicked ""
  | fuel + 1 => do
    let s ← Play.get
    match s.executor.move? run with
    | none => return .panicked ""
    | some (.finish ending) =>
      let now := s.machine.now
      return ((s.executor.record? run ending now (s.policy.clock now)).elim (.panicked "") .returned)
    | some (.ask request) =>
      let (name, reply) ← change fun s =>
        match s.nextReply request with
        | (name, reply, s) => ((name, reply), s)
      match reply with
      | none =>
        Play.modify (·.hearReply run (.error (.request "script exhausted")))
        go fuel thread run
      | some reply =>
        cue fuel thread name reply.cue
        match reply.line with
        | .panic message => return .panicked message
        | .error e =>
          Play.modify (·.hearReply run (.error e))
          go fuel thread run
        | .answer a =>
          Play.modify (·.hearReply run (.ok a))
          go fuel thread run
    | some (.invoke toolCall) =>
      let output ← change (·.nextOutput toolCall)
      cue fuel thread toolCall.name output.cue
      match output.line with
      | .panic message => return .panicked message
      | .error e =>
        Play.modify (·.hearOutput run (.error e))
        go fuel thread run
      | .answer a =>
        Play.modify (·.hearOutput run (.ok a))
        go fuel thread run

def cue (fuel : Nat) (thread : Nat) (name : String) (c : Cue) : Playing Unit :=
  match fuel with
  | 0 => return ()
  | fuel + 1 => do
    playAll fuel thread name c.before
    pause c.delayMillis
    playAll fuel thread name c.after

def playAll (fuel : Nat) (thread : Nat) (name : String) (acts : List Act) : Playing Unit :=
  match fuel with
  | 0 => return ()
  | fuel + 1 =>
    match acts with
    | [] => return ()
    | act :: rest => do
      let result ← play fuel thread act
      note name (.did act result)
      playAll fuel thread name rest

def play (fuel : Nat) (thread : Nat) (act : Act) : Playing Result :=
  match fuel with
  | 0 => return .pending
  | fuel + 1 => do
    match act with
    | .newScope name source tokenOnly deadline child =>
      change (·.makeScope name source tokenOnly deadline child)
    | .queryScope name =>
      let s ← Play.get
      return (s.scope? name).elim .pending s.query
    | .cancelScope name =>
      let s ← Play.get
      match s.scope? name with
      | some scope =>
        follow (.raise scope.token)
        return .ok
      | none => return .pending
    | .cancelRun id =>
      let s ← Play.get
      match s.executor.inFlight.find id with
      | .ok token =>
        follow (.raise token)
        return .ok
      | .error reason => return .refused reason
    | .runStatus id =>
      let s ← Play.get
      match s.executor.status id with
      | .ok _ => return .running
      | .error reason => return .refused reason
    | .execute context within =>
      let s ← Play.get
      match within.bind s.scope? with
      | some scope => return (← work fuel thread scope context).result
      | none =>
        let scope ← change (·.newRoot)
        return (← work fuel thread scope context).result
    | .start context within =>
      let s ← Play.get
      call fuel thread (.start context ((within.bind s.scope?).getD s.root))
    | .cancel id => call fuel thread (.cancel id)
    | .status id => call fuel thread (.status id)
    | .list => call fuel thread .listRunning
    | .count =>
      let s ← Play.get
      return .count s.machine.trackedCount
    | .prune => call fuel thread .prune
    | .setHook name reactions =>
      Play.modify (·.setHook name reactions)
      return .ok
    | .panic => return .panicked "hook panic"
    | .advance millis =>
      pause millis
      return .ok
    | .settle =>
      Play.settle
      return .ok
    | .cancelRoot =>
      let s ← Play.get
      if s.rootGiven then follow (.raise s.root.token)
      return .ok
    | .wait id capMillis =>
      let s ← Play.get
      follow (.call thread (.wait id))
      return (← drive fuel thread (some (s.machine.now + capMillis * 1000000))).elim .gaveUp resultOf
    | .shutdown timeout => call fuel thread (.shutdown timeout)
    | .spawnWait tag id =>
      aside fuel tag (.wait id)
      return .ok
    | .spawnShutdown tag timeout =>
      aside fuel tag (.shutdown timeout)
      return .ok
    | .poll tag => change (·.poll tag)

def aside (fuel : Nat) (tag : String) (frame : Frame) : Playing Unit :=
  match fuel with
  | 0 => return ()
  | fuel + 1 => do
    let s ← Play.get
    let thread := s.machine.threads.length
    follow .newThread
    Play.modify (·.setBackground tag .pending)
    Play.fork do
      let result ← call fuel thread frame
      Play.modify (·.setBackground tag (.answered result))
    Play.settle

end

/-- How deep calls, reactions and loops may be nested. -/
def fuel : Nat := 100000000

def playScript : List Act → Playing Unit
  | [] => return ()
  | act :: rest => do
    let before ← Play.get
    let result ← play fuel 0 act
    Play.modify (·.close before.log.length result)
    playScript rest

def Stage.rehearse (s : Stage) (acts : List Act) : Stage := perform fuel s (playScript acts)

end Overseer.Rehearsal

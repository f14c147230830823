import Overseer.Supervisor.Entry

/-!
# The supervisor as a machine of atomic steps

Any number of threads work on one supervisor. A thread is a stack of frames, each a call at some point of
its way; a step of the machine is one critical section of one thread. The map from ids to entries is
under a lock for many readers or one writer, and each entry is under a lock of its own, so a scan of the
map meets the entries one by one while their records may change.

The surroundings act where the supervisor hands over to them: in a monitoring hook, in the executor, and
in a thread that is not in a call. There they may call the supervisor again, let time pass, cancel any
token, and end the hook or the executor by returning or by a panic. `next?` says which labels are
possible and what they do; all interleavings of labels are the behaviours of the supervisor.
-/
namespace Overseer.Supervisor

/-- Identifies an entry: its place in the order of registrations. An id can be used again once its entry
has been evicted, a key never. -/
abbrev Key := Nat

/-- How a supervisor is set up. -/
structure Policy where
  /-- How many sub-agents may run at a time; zero is no limit. -/
  maxRunning : Nat := 0
  /-- How long a shutdown waits if it is not told. -/
  shutdownTimeout : Duration := Duration.ofSeconds 30
  clock : Instant → Timestamp := Timestamp.ofUnixNanos
  /-- The order in which a scan visits the entries. -/
  visit : List Key → List Key := id

/-- How often a waiting call looks again. -/
def pollInterval : Duration := Duration.ofMillis 100

inductive Answer where
  | done
  | refused (reason : Refusal)
  | record (r : Record)
  | ids (ids : List String)
  | count (n : Nat)
  | panicked (message : String)
  deriving Repr, Inhabited

/-- A call at some point of its way: `start`, `cancel`, `get_status`, `wait`, `list_running`, `prune_finished` or
`shutdown` between two of its critical sections, or the background that runs what was started. -/
inductive Frame where
  /-- A start that has not looked at its context. -/
  | start (context : Context) (parent : Scope)
  /-- A start that waits for the map. -/
  | enroll (context : Context) (entry : Entry)
  /-- A start that counts the running entries, and has the map to itself. -/
  | counting (context : Context) (entry : Entry) (todo : List Key) (running : Nat)
  /-- A start whose entry is registered and whose first notification has been made. -/
  | announce (context : Context) (key : Key)
  /-- A start that only has to set off its run. -/
  | spawn (context : Context) (key : Key)
  | cancel (id : String)
  | latch (key : Key)
  | status (id : String)
  | snapshot (key : Key)
  | wait (id : String)
  | check (id : String) (key : Key)
  /-- A wait that sleeps until it looks again. -/
  | doze (id : String) (wake : Instant)
  | listRunning
  /-- A scan for running entries, which shares the map with other readers. -/
  | scanning (todo : List Key) (found : List String)
  | prune
  /-- A prune, which has the map to itself. -/
  | sweeping (todo : List Key) (evicted : Nat)
  | shutdown (timeout : Option Duration)
  /-- A shutdown that waits for the list of what to cancel. -/
  | silence (timeout : Duration)
  /-- A shutdown that cancels these ids one by one. -/
  | silencing (timeout : Duration) (ids : List String)
  /-- A shutdown that looks for what is still running. -/
  | drain (timeout : Duration) (deadline : Instant)
  /-- A shutdown that waits for the list of what is still running. -/
  | drained (timeout : Duration) (deadline : Instant)
  /-- A shutdown that sleeps until it looks again. -/
  | rest (timeout : Duration) (deadline wake : Instant)
  | run (context : Context) (key : Key)
  | executing (context : Context) (key : Key)
  | finish (key : Key) (outcome : Outcome)
  /-- A notification that is due. -/
  | notify (key : Key) (status : Status)
  | hook (hook : Nat) (key : Key) (status : Status)
  /-- The answer of a call, for whoever made it. -/
  | answer (a : Answer)
  deriving Repr, Inhabited

/-- Where the surroundings act: in the hook and in the executor. -/
def Frame.isOpen : Frame → Bool
  | .hook _ _ _ | .executing _ _ => true
  | _ => false

def Frame.writes : Frame → Bool
  | .counting _ _ _ _ | .sweeping _ _ => true
  | _ => false

def Frame.reads : Frame → Bool
  | .scanning _ _ => true
  | _ => false

/-- The frames of a thread, the innermost call first. -/
abbrev Thread := List Frame

structure Machine where
  now : Instant
  signals : Signals := {}
  /-- All entries ever registered, in order. -/
  entries : List Entry := []
  /-- The ids that can be found, each with its entry. -/
  tracked : List (String × Key) := []
  hook : Option Nat := none
  threads : List Thread := []
  deriving Repr, Inhabited

/-- What can happen next. -/
inductive Label where
  | step (thread : Nat)
  | call (thread : Nat) (frame : Frame)
  /-- The surroundings take the answer of a call. -/
  | take (thread : Nat)
  | hookReturns (thread : Nat)
  | hookPanics (thread : Nat) (message : String)
  | executorReturns (thread : Nat) (outcome : Outcome)
  /-- The surroundings drop a wait that sleeps. -/
  | giveUp (thread : Nat)
  /-- A thread for calls of the surroundings. -/
  | newThread
  | tick (now : Instant)
  /-- The surroundings make a token of their own. -/
  | newToken
  | derive (scope : Scope) (timeout : Duration)
  | raise (token : Token)
  | setHook (hook : Nat)

def Frame.isCall : Frame → Bool
  | .start _ _ | .cancel _ | .status _ | .wait _ | .listRunning | .prune | .shutdown _ => true
  | _ => false

namespace Machine

def entry? (m : Machine) (k : Key) : Option Entry := m.entries[k]?

def setEntry (m : Machine) (k : Key) (e : Entry) : Machine := { m with entries := m.entries.set k e }

def setThread (m : Machine) (i : Nat) (t : Thread) : Machine := { m with threads := m.threads.set i t }

def find? (m : Machine) (id : String) : Option Key := m.tracked.lookup id

def isRunning (m : Machine) (k : Key) : Bool :=
  match m.entry? k with
  | some e => e.status = .running
  | none => false

def isFinished (m : Machine) (k : Key) : Bool :=
  match m.entry? k with
  | some e => e.status.isTerminal
  | none => false

def trackedCount (m : Machine) : Nat := m.tracked.length

/-- No thread has the map to itself. -/
def canRead (m : Machine) : Bool := m.threads.all fun t => t.all fun f => !f.writes

/-- No thread holds the map. -/
def canWrite (m : Machine) : Bool := m.threads.all fun t => t.all fun f => !f.writes && !f.reads

/-- What is left of a stack when a panic goes through it: the frames from the innermost on that belong to
the surroundings, which the panic is an answer for. -/
def unwound : Thread → Thread
  | [] => []
  | f :: rest => if f.isOpen then f :: rest else unwound rest

/-- A panic in a call. -/
def panicked (message : String) (below : Thread) : Thread := .answer (.panicked message) :: unwound below

def clockPanic : String := "overflow when adding duration to instant"

/-- Registers an entry, whose first notification is then due. -/
def register (m : Machine) (i : Nat) (context : Context) (entry : Entry) (below : Thread) : Machine :=
  let key := m.entries.length
  { m with
    entries := m.entries ++ [entry]
    tracked := m.tracked ++ [(entry.id, key)] }.setThread i
      (.notify key .running :: .announce context key :: below)

/-- The next step of a thread whose innermost frame is `frame`; none if it has to wait or is not to move
by itself. -/
def stepFrame? (p : Policy) (m : Machine) (i : Nat) (below : Thread) : Frame → Option Machine
  | .start context parent =>
    match context.validate with
    | .error f => some (m.setThread i (.answer (.refused (.invalid f)) :: below))
    | .ok () =>
      match parent.child? m.signals m.now context.limits.timeout with
      | none => some (m.setThread i (panicked clockPanic below))
      | some (scope, signals) =>
        some ({ m with signals }.setThread i
          (.enroll context (Entry.new context.id scope m.now) :: below))
  | .enroll context entry =>
    if m.canWrite = false then none
    else if (m.find? entry.id).isSome then
      some (m.setThread i (.answer (.refused (.alreadyTracked entry.id)) :: below))
    else if p.maxRunning = 0 then some (m.register i context entry below)
    else some (m.setThread i (.counting context entry (p.visit (m.tracked.map (·.2))) 0 :: below))
  | .counting context entry (k :: todo) running =>
    some (m.setThread i
      (.counting context entry todo (if m.isRunning k then running + 1 else running) :: below))
  | .counting context entry [] running =>
    if p.maxRunning ≤ running then
      some (m.setThread i (.answer (.refused (.capacityExceeded running p.maxRunning)) :: below))
    else some (m.register i context entry below)
  | .announce context key =>
    match m.entry? key with
    | none => none
    | some e =>
      match e.announce with
      | (e, none) => some ((m.setEntry key e).setThread i (.spawn context key :: below))
      | (e, some s) =>
        some ((m.setEntry key e).setThread i (.notify key s :: .spawn context key :: below))
  | .spawn context key =>
    some { m with threads := (m.threads.set i (.answer .done :: below)) ++ [[.run context key]] }
  | .cancel id =>
    if m.canRead = false then none
    else
      match m.find? id with
      | none => some (m.setThread i (.answer (.refused (.notFound id)) :: below))
      | some key => some (m.setThread i (.latch key :: below))
  | .latch key =>
    match m.entry? key with
    | none => none
    | some e =>
      let m := { m with signals := e.scope.cancel m.signals }
      match e.cancel m.now (p.clock m.now) with
      | (e, .notify) =>
        some ((m.setEntry key e).setThread i (.notify key .cancelled :: .answer .done :: below))
      | (e, _) => some ((m.setEntry key e).setThread i (.answer .done :: below))
  | .status id =>
    if m.canRead = false then none
    else
      match m.find? id with
      | none => some (m.setThread i (.answer (.refused (.notFound id)) :: below))
      | some key => some (m.setThread i (.snapshot key :: below))
  | .snapshot key =>
    match m.entry? key with
    | none => none
    | some e => some (m.setThread i (.answer (.record e.record) :: below))
  | .wait id =>
    if m.canRead = false then none
    else
      match m.find? id with
      | none => some (m.setThread i (.answer (.refused (.notFound id)) :: below))
      | some key => some (m.setThread i (.check id key :: below))
  | .check id key =>
    match m.entry? key with
    | none => none
    | some e =>
      if e.status.isTerminal then some (m.setThread i (.answer (.record e.record) :: below))
      else some (m.setThread i (.doze id (m.now + pollInterval.nanos) :: below))
  | .doze id wake => if m.now < wake then none else some (m.setThread i (.wait id :: below))
  | .listRunning =>
    if m.canRead = false then none
    else some (m.setThread i (.scanning (p.visit (m.tracked.map (·.2))) [] :: below))
  | .scanning (k :: todo) found =>
    let found := match m.entry? k with
      | some e => if e.status = .running then found ++ [e.id] else found
      | none => found
    some (m.setThread i (.scanning todo found :: below))
  | .scanning [] found => some (m.setThread i (.answer (.ids found) :: below))
  | .prune =>
    if m.canWrite = false then none
    else some (m.setThread i (.sweeping (p.visit (m.tracked.map (·.2))) 0 :: below))
  | .sweeping (k :: todo) evicted =>
    if m.isFinished k then
      some ({ m with tracked := m.tracked.filter (·.2 ≠ k) }.setThread i
        (.sweeping todo (evicted + 1) :: below))
    else some (m.setThread i (.sweeping todo evicted :: below))
  | .sweeping [] evicted => some (m.setThread i (.answer (.count evicted) :: below))
  | .shutdown timeout =>
    some (m.setThread i (.listRunning :: .silence (timeout.getD p.shutdownTimeout) :: below))
  | .silencing timeout (id :: ids) =>
    some (m.setThread i (.cancel id :: .silencing timeout ids :: below))
  | .silencing timeout [] =>
    match Instant.after? m.now timeout with
    | none => some (m.setThread i (panicked clockPanic below))
    | some deadline => some (m.setThread i (.drain timeout deadline :: below))
  | .drain timeout deadline =>
    some (m.setThread i (.listRunning :: .drained timeout deadline :: below))
  | .rest timeout deadline wake =>
    if m.now < wake then none else some (m.setThread i (.drain timeout deadline :: below))
  | .run context key => some (m.setThread i (.executing context key :: below))
  | .finish key outcome =>
    match m.entry? key with
    | none => none
    | some e =>
      let r := e.recordOf m.now (p.clock m.now) outcome
      match e.complete r with
      | (e, .notify) => some ((m.setEntry key e).setThread i (.notify key r.status :: below))
      | (e, _) => some ((m.setEntry key e).setThread i below)
  | .notify key status =>
    match m.hook with
    | none => some (m.setThread i below)
    | some h => some (m.setThread i (.hook h key status :: below))
  | .answer a =>
    match below with
    | .silence timeout :: below =>
      match a with
      | .ids ids => some (m.setThread i (.silencing timeout ids :: below))
      | _ => none
    | .silencing timeout ids :: below => some (m.setThread i (.silencing timeout ids :: below))
    | .drained timeout deadline :: below =>
      match a with
      | .ids [] => some (m.setThread i (.answer .done :: below))
      | .ids ids =>
        if deadline ≤ m.now then
          some (m.setThread i (.answer (.refused (.shutdownTimeout timeout ids.length)) :: below))
        else some (m.setThread i (.rest timeout deadline (m.now + pollInterval.nanos) :: below))
      | _ => none
    | _ => none
  | .silence _ | .drained _ _ | .executing _ _ | .hook _ _ _ => none

/-- What a label does, if it is possible. -/
def next? (p : Policy) (m : Machine) : Label → Option Machine
  | .step i =>
    match m.threads[i]? with
    | some (f :: below) => m.stepFrame? p i below f
    | _ => none
  | .call i frame =>
    if frame.isCall = false then none
    else
      match m.threads[i]? with
      | some [] => some (m.setThread i [frame])
      | some (f :: below) => if f.isOpen then some (m.setThread i (frame :: f :: below)) else none
      | none => none
  | .take i =>
    match m.threads[i]? with
    | some [.answer _] => some (m.setThread i [])
    | some (.answer _ :: f :: below) => if f.isOpen then some (m.setThread i (f :: below)) else none
    | _ => none
  | .hookReturns i =>
    match m.threads[i]? with
    | some (.hook _ _ _ :: below) => some (m.setThread i below)
    | _ => none
  | .hookPanics i message =>
    match m.threads[i]? with
    | some (.hook _ _ _ :: below) => some (m.setThread i (panicked message below))
    | _ => none
  | .executorReturns i outcome =>
    match m.threads[i]? with
    | some (.executing _ key :: below) => some (m.setThread i (.finish key outcome :: below))
    | _ => none
  | .giveUp i =>
    match m.threads[i]? with
    | some (.doze _ _ :: below) => some (m.setThread i below)
    | _ => none
  | .newThread => some { m with threads := m.threads ++ [[]] }
  | .tick now => if m.now ≤ now then some { m with now } else none
  | .newToken => some { m with signals := m.signals.root.2 }
  | .derive scope timeout =>
    match scope.child? m.signals m.now timeout with
    | some (_, signals) => some { m with signals }
    | none => none
  | .raise token => some { m with signals := m.signals.raise token }
  | .setHook h => some { m with hook := some h }

end Machine

end Overseer.Supervisor

import Overseer.Program.Session
import Overseer.Proofs.Supervisor.Runs
import Overseer.Proofs.Transcript.Reach
import Overseer.Proofs.Transcript.Reading

/-!
# The order of a transcript

Two threads write the transcript of a session: the background, by way of the hook, each status of the run,
and the main task its steps and its end. The last status can be looked up before the hook is told of it, so
the main task may come to the end of the run first; all else is in order.

* `Preparing`, `Waiting`, `Working`: what each of the two threads can be at, and what the background has
  written down by then.
* `Stage`, `Told`: how far an uninterrupted session is, with its transcript; `Told.next`: one action.
* `wrote_reported`, `transcript_in_order`: the transcript when the record is printed.
* `ending_unannounced`: a transcript without its last status.
-/
namespace Overseer.Program

open Supervisor (Machine Policy Frame Answer Outcome Entry Thread)

variable {context : Context} {g : Setting} {m m' : Machine} {p : Policy} {es : List Event}
  {entries : List Entry} {phase : Phase}

/-! ## The two threads -/

/-- The sub-agent of the session has not been set off: what is registered, what the main task is at, and
what has been written down. -/
inductive Preparing (context : Context) : List Entry → Thread → List Event → Prop where
  | start (scope : Scope) : Preparing context [] [.start context scope] []
  | enroll {e : Entry} (fresh : e.Fresh) (id : e.id = context.id) :
      Preparing context [] [.enroll context e] []
  | counting {e : Entry} {todo : List Supervisor.Key} (fresh : e.Fresh) (id : e.id = context.id) :
      Preparing context [] [.counting context e todo 0] []
  | notify {e : Entry} (fresh : e.Fresh) (id : e.id = context.id) :
      Preparing context [e] [.notify 0 .running, .announce context 0] []
  | hook {e : Entry} {h : Nat} (fresh : e.Fresh) (id : e.id = context.id) :
      Preparing context [e] [.hook h 0 .running, .announce context 0] []
  | announce {e : Entry} (fresh : e.Fresh) (id : e.id = context.id) :
      Preparing context [e] [.announce context 0] [.statusChange .running]
  | spawn {e : Entry} (running : e.status = .running) (announced : e.announced = true)
      (id : e.id = context.id) : Preparing context [e] [.spawn context 0] [.statusChange .running]
  | refused (reason : Refusal) : Preparing context [] [.answer (.refused reason)] []
  | panicked (message : String) : Preparing context [] [.answer (.panicked message)] []

/-- The main task waits, or has seen the last record of the entry. -/
inductive Waiting (id : String) (e : Entry) : Phase → Thread → Prop where
  | started : Waiting id e .starting [.answer .done]
  | wait : Waiting id e .waiting [.wait id]
  | check : Waiting id e .waiting [.check id 0]
  | doze (wake : Instant) : Waiting id e .waiting [.doze id wake]
  | told (terminal : e.status.isTerminal = true) : Waiting id e .waiting [.answer (.record e.record)]
  | reporting (terminal : e.status.isTerminal = true) : Waiting id e (.reporting e.record) []

/-- The background is at work, or has latched the last status of the entry, and what it has written down
of it. -/
inductive Working (context : Context) (e : Entry) : Thread → List Event → Prop where
  | run (running : e.status = .running) : Working context e [.run context 0] []
  | executing (running : e.status = .running) : Working context e [.executing context 0] []
  | finish (running : e.status = .running) (outcome : Outcome) : Working context e [.finish 0 outcome] []
  | notify (terminal : e.status.isTerminal = true) : Working context e [.notify 0 e.status] []
  | hook (terminal : e.status.isTerminal = true) (h : Nat) : Working context e [.hook h 0 e.status] []
  | ended (terminal : e.status.isTerminal = true) : Working context e [] [.statusChange e.status]

/-- The threads and entries of a machine with one sub-agent at most. -/
structure Hosts (m : Machine) (known : List Entry) (ts : List Thread) : Prop where
  entries : m.entries = known
  tracked : m.tracked = known.map fun e => (e.id, 0)
  threads : m.threads = ts
  hook : m.hook = some 0

/-- How far a session is that nobody has interrupted, and what it has written down. -/
inductive Stage (context : Context) (m : Machine) : Phase → List Event → Prop where
  | preparing {entries : List Entry} {main : Thread} {es : List Event} (hosts : Hosts m entries [main])
      (main : Preparing context entries main es) : Stage context m .starting es
  | underway {e : Entry} {phase : Phase} {main background : Thread} {es : List Event}
      (hosts : Hosts m [e] [main, background]) (id : e.id = context.id) (announced : e.announced = true)
      (main : Waiting context.id e phase main) (background : Working context e background es) :
      Stage context m phase (.statusChange .running :: es)
  | closed (c : Close) (es : List Event) : Stage context m (.closed c) es

namespace Hosts

variable {ts : List Thread}

theorem setThread (h : Hosts m entries ts) (i : Nat) (t : Thread) :
    Hosts (m.setThread i t) entries (ts.set i t) :=
  ⟨h.entries, h.tracked, by rw [Machine.setThread, h.threads], h.hook⟩

theorem of_same (h : Hosts m entries ts) (he : m'.entries = m.entries) (ht : m'.tracked = m.tracked)
    (hth : m'.threads = m.threads) (hh : m'.hook = m.hook) : Hosts m' entries ts :=
  ⟨he.trans h.entries, ht.trans h.tracked, hth.trans h.threads, hh.trans h.hook⟩

/-- A new record of the only entry. -/
theorem setEntry {e : Entry} (h : Hosts m [e] ts) {e' : Entry} (hid : e'.id = e.id) :
    Hosts (m.setEntry 0 e') [e'] ts := by
  refine ⟨?_, ?_, h.threads, h.hook⟩
  · rw [Machine.setEntry, h.entries]; rfl
  · rw [Machine.setEntry, h.tracked, List.map_singleton, List.map_singleton, hid]

theorem register {main below : Thread} (h : Hosts m [] [main]) (c : Context) (e : Entry) :
    Hosts (m.register 0 c e below) [e] [.notify 0 .running :: .announce c 0 :: below] := by
  refine ⟨?_, ?_, ?_, h.hook⟩
  · rw [Machine.register, Machine.setThread, h.entries]; rfl
  · simp [Machine.register, Machine.setThread, h.tracked, h.entries]
  · simp [Machine.register, Machine.setThread, h.threads, h.entries]

/-- The only thread. -/
theorem only {main t : Thread} {i : Nat} (h : Hosts m entries [main]) (ht : m.threads[i]? = some t) :
    i = 0 ∧ main = t := by
  rw [h.threads] at ht
  cases i with
  | zero => exact ⟨rfl, by simpa using ht⟩
  | succ i => simp at ht

/-- One of the two threads. -/
theorem either {main background t : Thread} {i : Nat} (h : Hosts m entries [main, background])
    (ht : m.threads[i]? = some t) : (i = 0 ∧ main = t) ∨ (i = 1 ∧ background = t) := by
  rw [h.threads] at ht
  match i with
  | 0 => exact Or.inl ⟨rfl, by simpa using ht⟩
  | 1 => exact Or.inr ⟨rfl, by simpa using ht⟩
  | i + 2 => simp at ht

theorem entry? {e : Entry} (h : Hosts m [e] ts) : m.entry? 0 = some e := by
  rw [Machine.entry?, h.entries]; rfl

theorem isRunning (h : Hosts m [] ts) (k : Supervisor.Key) : m.isRunning k = false := by
  rw [Machine.isRunning, Machine.entry?, h.entries]; rfl

end Hosts

/-- A step of the supervisor while the sub-agent is not set off. -/
theorem Preparing.step {main : Thread} (h : Preparing context entries main es) (hosts : Hosts m entries [main])
    {i : Nat} (hs : m.next? p (.step i) = some m') : Stage context m' .starting es := by
  obtain @⟨_, f, below, _, ht, step⟩ := Machine.next?_eq_some_iff.mp hs
  obtain ⟨rfl, rfl⟩ := hosts.only ht
  cases h with
  | start scope =>
    cases step with
    | invalid => exact .preparing (hosts.setThread 0 _) (.refused _)
    | overflows => exact .preparing (hosts.setThread 0 _) (.panicked _)
    | @begins _ _ _ signals =>
      have hosts' : Hosts { m with signals } [] [[.start context scope]] := hosts.of_same rfl rfl rfl rfl
      exact .preparing (hosts'.setThread 0 _) (.enroll (Supervisor.Entry.new_fresh _ _ _) rfl)
  | @enroll e fresh id =>
    cases step with
    | tracked => exact .preparing (hosts.setThread 0 _) (.refused _)
    | enrolls => exact .preparing (hosts.register context e) (.notify fresh id)
    | claims => exact .preparing (hosts.setThread 0 _) (.counting fresh id)
  | @counting e todo fresh id =>
    cases step with
    | @counts _ _ k =>
      rw [hosts.isRunning k]
      exact .preparing (hosts.setThread 0 _) (.counting fresh id)
    | full => exact .preparing (hosts.setThread 0 _) (.refused _)
    | admits => exact .preparing (hosts.register context e) (.notify fresh id)
  | notify fresh id =>
    cases step with
    | skips none => cases hosts.hook.symm.trans none
    | notifies => exact .preparing (hosts.setThread 0 _) (.hook fresh id)
  | @announce e fresh id =>
    cases step with
    | announces he =>
      cases hosts.entry?.symm.trans he
      rw [fresh.2.2]
      have hosts' : Hosts (m.setEntry 0 e.announce.1) [e.announce.1] [[.announce context 0]] := hosts.setEntry rfl
      exact .preparing (hosts'.setThread 0 _) (.spawn (Entry.status_of_record fresh.1) rfl id)
  | spawn running announced id =>
    cases step with
    | spawns =>
      exact .underway ⟨hosts.entries, hosts.tracked, by rw [hosts.threads]; rfl, hosts.hook⟩ id announced
        .started (.run running)
  | hook | refused | panicked => cases step

/-- While the entry is running, the main task has seen nothing of its record. -/
theorem Waiting.of_running {id : String} {e : Entry} {main : Thread} (h : Waiting id e phase main)
    (running : e.status = .running) (e' : Entry) : Waiting id e' phase main := by
  cases h with
  | started => exact .started
  | wait => exact .wait
  | check => exact .check
  | doze wake => exact .doze wake
  | told terminal => rw [running] at terminal; cases terminal
  | reporting terminal => rw [running] at terminal; cases terminal

theorem complete_announced {e : Entry} {r : Record} (running : e.status = .running)
    (announced : e.announced = true) : e.complete r = ({ e with record := r }, .notify) := by
  simp [Entry.complete, running, Status.isTerminal, Entry.latched, announced]

/-- A step of the supervisor once the sub-agent is set off, by either of the two threads. -/
theorem Waiting.step {e : Entry} {main background : Thread} (h : Waiting context.id e phase main)
    (hosts : Hosts m [e] [main, background]) (id : e.id = context.id) (announced : e.announced = true)
    (hb : Working context e background es) {i : Nat} (hs : m.next? p (.step i) = some m') :
    Stage context m' phase (.statusChange .running :: es) := by
  obtain @⟨_, f, below, _, ht, step⟩ := Machine.next?_eq_some_iff.mp hs
  rcases hosts.either ht with ⟨rfl, rfl⟩ | ⟨rfl, rfl⟩
  · have hfind : m.find? context.id = some 0 := by
      rw [Machine.find?, hosts.tracked, ← id]; simp
    cases h with
    | wait =>
      cases step with
      | waitsNone _ unknown => cases hfind.symm.trans unknown
      | waits _ find =>
        cases hfind.symm.trans find
        exact .underway (hosts.setThread 0 _) id announced .check hb
    | check =>
      cases step with
      | ended he terminal =>
        cases hosts.entry?.symm.trans he
        exact .underway (hosts.setThread 0 _) id announced (.told terminal) hb
      | sleeps => exact .underway (hosts.setThread 0 _) id announced (.doze _) hb
    | doze wake =>
      cases step with
      | wakes => exact .underway (hosts.setThread 0 _) id announced .wait hb
    | started | told => cases step
  · cases hb with
    | run running =>
      cases step with
      | runs => exact .underway (hosts.setThread 1 _) id announced h (.executing running)
    | finish running outcome =>
      cases step with
      | finishes he complete =>
        cases hosts.entry?.symm.trans he
        rw [complete_announced running announced] at complete
        cases complete
        have terminal := Entry.recordOf_isTerminal e m.now (p.clock m.now) outcome
        generalize e.recordOf m.now (p.clock m.now) outcome = r at terminal
        have hosts' : Hosts (m.setEntry 0 { e with record := r }) [{ e with record := r }] [main, _] :=
          hosts.setEntry rfl
        exact .underway (hosts'.setThread 1 _) id announced (h.of_running running _)
          (Working.notify (e := { e with record := r }) terminal)
    | notify terminal =>
      cases step with
      | skips none => cases hosts.hook.symm.trans none
      | notifies => exact .underway (hosts.setThread 1 _) id announced h (.hook terminal _)
    | executing | hook => cases step

/-! ## Actions -/

variable {s s' : Session} {i : Nat}

theorem Stage.step (h : Stage context m phase es) (hs : m.next? p (.step i) = some m') :
    Stage context m' phase es := by
  cases h with
  | preparing hosts main => exact main.step hosts hs
  | underway hosts id announced main background => exact main.step hosts id announced background hs
  | closed c => exact .closed c es

theorem Stage.tick (h : Stage context m phase es) {now : Instant}
    (hs : m.next? p (.tick now) = some m') : Stage context m' phase es := by
  cases Machine.next?_eq_some_iff.mp hs with
  | tick =>
    cases h with
    | preparing hosts main => exact .preparing (hosts.of_same rfl rfl rfl rfl) main
    | underway hosts id announced main background =>
      exact .underway (hosts.of_same rfl rfl rfl rfl) id announced main background
    | closed c => exact .closed c es

/-- The hook comes back, with one status more written down. -/
theorem Stage.hookReturns (h : Stage context m phase es) {n k : Nat} {status : Status} {below : Thread}
    (ht : m.threads[i]? = some (.hook n k status :: below))
    (hs : m.next? p (.hookReturns i) = some m') :
    Stage context m' phase (es ++ [.statusChange status]) := by
  cases Machine.next?_eq_some_iff.mp hs with
  | hookReturns ht' =>
    cases ht.symm.trans ht'
    cases h with
    | @preparing entries main _ hosts hmain =>
      obtain ⟨rfl, rfl⟩ := hosts.only ht
      cases hmain with
      | hook fresh id => exact .preparing (hosts.setThread 0 _) (.announce fresh id)
    | @underway e _ main background _ hosts id announced hmain hback =>
      rcases hosts.either ht with ⟨rfl, rfl⟩ | ⟨rfl, rfl⟩
      · cases hmain
      · cases hback with
        | hook terminal => exact .underway (hosts.setThread 1 _) id announced hmain (.ended terminal)
    | closed c => exact .closed c _

/-- The executor comes back. -/
theorem Stage.executorReturns (h : Stage context m phase es) {outcome : Outcome}
    (hs : m.next? p (.executorReturns i outcome) = some m') : Stage context m' phase es := by
  cases Machine.next?_eq_some_iff.mp hs with
  | executorReturns ht =>
    cases h with
    | @preparing entries main _ hosts hmain =>
      obtain ⟨rfl, rfl⟩ := hosts.only ht
      cases hmain
    | @underway e _ main background _ hosts id announced hmain hback =>
      rcases hosts.either ht with ⟨rfl, rfl⟩ | ⟨rfl, rfl⟩
      · cases hmain
      · cases hback with
        | executing running => exact .underway (hosts.setThread 1 _) id announced hmain (.finish running _)
    | closed c => exact .closed c _

/-- The background has come to its end, the last notification included. -/
def Session.isOver (s : Session) : Bool := (s.machine.threads[1]?).any List.isEmpty

/-- How far a session is that nobody has interrupted, whose transcript the tools do not reach: what has been
written down is what the transcript has more than before. -/
structure Told (g : Setting) (context : Context) (before : ByteArray) (s : Session) (es : List Event) :
    Prop where
  stage : Stage context s.machine s.phase es
  reach : Transcript.OutOfReach g.workspace g.transcript s.files
  wrote : Transcript.Wrote before (s.files.contentAt g.transcript.file) es

namespace Told

variable {before : ByteArray}

theorem announce (h : Told g context before s es) (hs : s.announce? g i = some s') :
    ∃ es', Told g context before s' es' := by
  unfold Session.announce? at hs
  split at hs
  · rename_i n k status below ht
    simp only [bind, Option.bind_eq_some_iff, pure, Option.some.injEq] at hs
    obtain ⟨m, hm, rfl⟩ := hs
    refine ⟨_, h.stage.hookReturns ht hm, h.reach.log _ _, h.wrote.trans ?_⟩
    exact Transcript.wrote_logAll h.reach.file_ne_nil s.files _ [.statusChange status]
  · cases hs

theorem enter {thread : Nat} {c : Context} {scope : Scope} (h : Told g context before s es)
    (hs : s.enter? g thread c scope = some s') : Told g context before s' es := by
  unfold Session.enter? at hs
  split at hs
  · simp only [Option.map_eq_some_iff] at hs
    obtain ⟨m, hm, rfl⟩ := hs
    exact ⟨h.stage.executorReturns hm, h.reach, h.wrote⟩
  · cases hs
    exact ⟨h.stage, h.reach, h.wrote⟩

theorem move {thread n : Nat} (h : Told g context before s es) (hs : s.move? g thread n = some s') :
    Told g context before s' es := by
  simp only [Session.move?, bind, Option.bind_eq_some_iff] at hs
  obtain ⟨move, -, hs⟩ := hs
  cases move with
  | ask request =>
    dsimp only at hs
    split at hs
    · cases hs
      exact ⟨h.stage, h.reach, h.wrote⟩
    · cases hs
      exact ⟨h.stage, h.reach, h.wrote⟩
  | invoke call =>
    cases hs
    refine ⟨h.stage, h.reach.execute _ _, ?_⟩
    have hcontent := h.reach.contentAt_execute call.name call.arguments
    have hwrote := h.wrote
    rw [← hcontent] at hwrote
    exact hwrote
  | finish ending =>
    simp only [Option.bind_eq_some_iff, pure, Option.some.injEq] at hs
    obtain ⟨r, -, m, hm, rfl⟩ := hs
    exact ⟨h.stage.executorReturns hm, h.reach, h.wrote⟩

theorem work (h : Told g context before s es) (hs : s.work? g i = some s') : Told g context before s' es := by
  unfold Session.work? at hs
  split at hs
  · split at hs
    · simp only [bind, Option.bind_eq_some_iff] at hs
      obtain ⟨e, -, hs⟩ := hs
      exact h.enter hs
    · exact h.move hs
    · cases hs
  · cases hs

theorem answer (h : Told g context before s es) (hs : s.answer? g = some s') : Told g context before s' es := by
  unfold Session.answer? at hs
  split at hs
  · cases hs
    exact ⟨h.stage, h.reach, h.wrote⟩
  · cases hs

theorem fail {e : ModelError} (h : Told g context before s es) (hs : s.fail? e = some s') :
    Told g context before s' es := by
  unfold Session.fail? at hs
  split at hs
  · cases hs
    exact ⟨h.stage, h.reach, h.wrote⟩
  · cases hs

theorem report (h : Told g context before s es) (hs : s.report? g = some s') :
    ∃ es', Told g context before s' es' := by
  unfold Session.report? at hs
  split at hs
  · cases hs
    exact ⟨_, .closed _ _, h.reach.logAll _ _,
      h.wrote.trans (Transcript.wrote_logAll h.reach.file_ne_nil _ _ _)⟩
  · cases hs

theorem proceed (hid : g.id = context.id) (h : Told g context before s es) (hs : s.proceed? g = some s') :
    Told g context before s' es := by
  obtain ⟨stage, reach, wrote⟩ := h
  unfold Session.proceed? at hs
  split at hs
  · rename_i a hhead
    simp only [bind, Option.bind_eq_some_iff] at hs
    obtain ⟨m, hm, hs⟩ := hs
    have ht : s.machine.threads[0]? = some [.answer a] := by rw [← List.head?_eq_getElem?]; exact hhead
    obtain rfl : s.machine.setThread 0 [] = m := by
      cases Machine.next?_eq_some_iff.mp hm with
      | take ht' =>
        cases ht.symm.trans ht'
        rfl
    have hphase : (s.withMachine (s.machine.setThread 0 [])).phase = s.phase := rfl
    rw [hphase] at hs
    generalize hp : s.phase = phase at stage hs
    cases stage with
    | preparing hosts main =>
      obtain ⟨-, rfl⟩ := hosts.only ht
      cases main with
      | refused reason =>
        cases hs
        exact ⟨.closed _ _, reach, wrote⟩
      | panicked message =>
        cases hs
        exact ⟨.closed _ _, reach, wrote⟩
    | underway hosts id announced main background =>
      rcases hosts.either ht with ⟨-, rfl⟩ | ⟨hi, -⟩
      · have hosts' := hosts.setThread 0 []
        have ht' : (s.machine.setThread 0 []).threads[0]? = some [] := by rw [hosts'.threads]; rfl
        cases main with
        | started =>
          obtain ⟨m, hm, hs⟩ := Option.bind_eq_some_iff.mp hs
          cases hs
          cases Machine.next?_eq_some_iff.mp hm with
          | call _ ht'' =>
            cases ht'.symm.trans ht''
            rw [hid]
            exact ⟨.underway (hosts'.setThread 0 _) id announced .wait background, reach, wrote⟩
        | told terminal =>
          cases hs
          exact ⟨.underway hosts' id announced (.reporting terminal) background, reach, wrote⟩
      · cases hi
    | closed c =>
      cases a with
      | panicked message =>
        cases hs
        exact ⟨.closed _ _, reach, wrote⟩
      | refused reason =>
        cases hs
        exact ⟨.closed _ _, reach, wrote⟩
      | _ => cases hs
  · cases hs

/-- Whatever happens, short of an interrupt. -/
theorem next (hid : g.id = context.id) (h : Told g context before s es) {a : Action} (ha : a ≠ .interrupt)
    (hs : s.next? g a = some s') : ∃ es', Told g context before s' es' := by
  cases a with
  | step i =>
    simp only [Session.next?, Option.map_eq_some_iff] at hs
    obtain ⟨m, hm, rfl⟩ := hs
    exact ⟨es, h.stage.step hm, h.reach, h.wrote⟩
  | announce i => exact h.announce hs
  | work i => exact ⟨es, h.work hs⟩
  | answer => exact ⟨es, h.answer hs⟩
  | fail e => exact ⟨es, h.fail hs⟩
  | interrupt => exact absurd rfl ha
  | proceed => exact ⟨es, h.proceed hid hs⟩
  | report => exact h.report hs
  | tick now =>
    simp only [Session.next?, Option.map_eq_some_iff] at hs
    obtain ⟨m, hm, rfl⟩ := hs
    exact ⟨es, h.stage.tick hm, h.reach, h.wrote⟩

/-- What the report of the main task adds, and whether the last status stands before it. -/
theorem report_spec (h : Told g context before s es) (hs : s.report? g = some s') :
    ∃ r told, s'.phase = .closed (.recorded r) ∧ r.status.isTerminal = true ∧
      Transcript.Wrote before (s'.files.contentAt g.transcript.file)
        (.statusChange .running :: told ++ Event.ofRecord r) ∧
      told = if s.isOver then [.statusChange r.status] else [] := by
  obtain ⟨stage, reach, wrote⟩ := h
  unfold Session.report? at hs
  split at hs
  · rename_i r hp
    cases hs
    rw [hp] at stage
    have wrote' := wrote.trans
      (Transcript.wrote_logAll reach.file_ne_nil s.files (g.policy.clock s.now) (Event.ofRecord r))
    cases stage with
    | @underway e _ main background told hosts id announced hmain hback =>
      have ht : s.machine.threads[1]? = some background := by rw [hosts.threads]; rfl
      cases hmain with
      | reporting terminal =>
        refine ⟨_, told, rfl, terminal, wrote', ?_⟩
        rw [Session.isOver, ht]
        cases hback <;> rfl
  · cases hs

end Told

/-! ## Sessions -/

/-- The session after some actions, if they are possible one after the other. -/
def Session.follow? (g : Setting) (s : Session) : List Action → Option Session
  | [] => some s
  | a :: actions => (s.next? g a).bind fun s => s.follow? g actions

/-- The main task has a record to write down. -/
def Session.isReporting (s : Session) : Bool :=
  match s.phase with
  | .reporting _ => true
  | _ => false

theorem report?_of_isReporting (h : s.isReporting = true) (g : Setting) : ∃ s', s.report? g = some s' := by
  simp only [Session.isReporting] at h
  simp only [Session.report?]
  cases hp : s.phase with
  | reporting r => exact ⟨_, rfl⟩
  | _ => rw [hp] at h; cases h

theorem told_start (context : Context) (executor : Agent.Executor) (now : Instant) {files : FileSystem}
    (exchange : Http.Exchange) (h : Transcript.OutOfReach g.workspace g.transcript files) :
    Told g context (files.contentAt g.transcript.file) (Session.start context executor now files exchange) [] :=
  ⟨.preparing ⟨rfl, rfl, rfl, rfl⟩ (.start _), h, Transcript.Wrote.refl _⟩

theorem told_follow (hid : g.id = context.id) {before : ByteArray} (h : Told g context before s es)
    {actions : List Action} (calm : ∀ a ∈ actions, a ≠ .interrupt) (hs : s.follow? g actions = some s') :
    ∃ es', Told g context before s' es' := by
  induction actions generalizing s es with
  | nil =>
    cases hs
    exact ⟨es, h⟩
  | cons a actions ih =>
    simp only [Session.follow?, Option.bind_eq_some_iff] at hs
    obtain ⟨s₁, hnext, hs⟩ := hs
    obtain ⟨es₁, h₁⟩ := h.next hid (calm a List.mem_cons_self) hnext
    exact ih h₁ (fun a ha => calm a (List.mem_cons_of_mem _ ha)) hs

/-- When the main task has written down the record that it goes on to print, the new lines of the transcript
are the start of the run, that it runs, how it ended if the background has come to its end by then, its steps
and its end. -/
theorem wrote_reported (hid : g.id = context.id) {files : FileSystem}
    (hreach : Transcript.OutOfReach g.workspace g.transcript files) {time : Timestamp}
    {executor : Agent.Executor} {now : Instant} {exchange : Http.Exchange} {actions : List Action}
    (calm : ∀ a ∈ actions, a ≠ .interrupt)
    (hrun : (Session.start context executor now (g.transcript.log files time (Event.ofContext context))
      exchange).follow? g actions = some s)
    (hreport : s.report? g = some s') :
    ∃ r, s'.phase = .closed (.recorded r) ∧ r.status.isTerminal = true ∧
      Transcript.Wrote (files.contentAt g.transcript.file) (s'.files.contentAt g.transcript.file)
        (Event.ofContext context :: .statusChange .running ::
          (if s.isOver then [.statusChange r.status] else []) ++ Event.ofRecord r) := by
  have hbegun : Transcript.Wrote (files.contentAt g.transcript.file)
      ((g.transcript.log files time (Event.ofContext context)).contentAt g.transcript.file)
      [Event.ofContext context] :=
    Transcript.wrote_logAll hreach.file_ne_nil files time [Event.ofContext context]
  obtain ⟨es, told⟩ := told_follow hid
    (told_start context executor now exchange (hreach.log time (Event.ofContext context))) calm hrun
  obtain ⟨r, last, hphase, terminal, hwrote, rfl⟩ := told.report_spec hreport
  exact ⟨r, hphase, terminal, hbegun.trans hwrote⟩

/-- Nobody interrupts the session, and the main task has written down the record that it goes on to print. If
the background had come to its end by then, the new lines of the transcript are the start of the run, that it
runs, how it ended, its steps and its end, in this order. If it had not, they are the same without the line
that says how the run ended. -/
theorem transcript_in_order (hid : g.id = context.id) {files : FileSystem}
    (hreach : Transcript.OutOfReach g.workspace g.transcript files) {time : Timestamp}
    {executor : Agent.Executor} {now : Instant} {exchange : Http.Exchange} {actions : List Action}
    (calm : ∀ a ∈ actions, a ≠ .interrupt)
    (hrun : (Session.start context executor now (g.transcript.log files time (Event.ofContext context))
      exchange).follow? g actions = some s)
    (hreport : s.report? g = some s') :
    ∃ r, s'.phase = .closed (.recorded r) ∧ r.status.isTerminal = true ∧
      (s.isOver = true →
        Transcript.Wrote (files.contentAt g.transcript.file) (s'.files.contentAt g.transcript.file)
          (Event.ofContext context :: .statusChange .running :: .statusChange r.status ::
            Event.ofRecord r)) ∧
      (s.isOver = false →
        Transcript.Wrote (files.contentAt g.transcript.file) (s'.files.contentAt g.transcript.file)
          (Event.ofContext context :: .statusChange .running :: Event.ofRecord r)) := by
  obtain ⟨r, hphase, terminal, hwrote⟩ := wrote_reported hid hreach calm hrun hreport
  refine ⟨r, hphase, terminal, fun hover => ?_, fun hbusy => ?_⟩
  · rwa [hover] at hwrote
  · rwa [hbusy] at hwrote

/-! ## A session that starts too late -/

def hurried : Context :=
  { Supervisor.plainContext (Uuid.ofRandom 0) with limits := { timeout := Duration.ofSeconds 1 } }

/-- The workspace `/w` and the transcript beside it. -/
def besideW : Setting where
  id := hurried.id
  client := { model := "llama3.2" }
  workspace := ⟨[[119]]⟩
  transcript := Transcript.first
  policy := {}
  random := fun _ _ => 0

def filesOfW : FileSystem :=
  (Transcript.create (Transcript.holding [119]) (Location.path [[119]]) (Uuid.ofRandom 0)).1

theorem outOfReach_filesOfW : Transcript.OutOfReach besideW.workspace besideW.transcript filesOfW := by
  have hc : Transcript.create (Transcript.holding [119]) (Location.path [[119]]) (Uuid.ofRandom 0) =
      (filesOfW, .ok Transcript.first) := Prod.ext rfl (by cbv)
  have hplain : Location.Plain [[119]] := fun n hn => by
    rw [List.mem_singleton.mp hn]
    exact ⟨by decide, by decide, by decide, by decide⟩
  exact Transcript.outOfReach_of_create (w := ⟨[[119]]⟩) (Transcript.isTree_holding [119])
    (Transcript.noLinks_holding [119]) rfl hplain (by decide +kernel) (Uuid.slash_not_mem_ofRandom 0) hc

def hurriedStart (files : FileSystem) : Session :=
  Session.start hurried (Agent.Executor.new [] 1) 0 files { script := [] }

/-- The files once the start of the run is in the transcript. -/
def begun : FileSystem := besideW.transcript.log filesOfW Timestamp.epoch (Event.ofContext hurried)

/-- The run starts too late, and its last status is latched. -/
def untilLatched : List Action :=
  [.step 0, .step 0, .step 0, .announce 0, .step 0, .step 0, .proceed, .step 1, .tick 1000000001, .work 1, .work 1,
    .step 1]

/-- The hook writes the status down. -/
def notification : List Action := [.step 1, .announce 1]

/-- The main task finds the run at its end. -/
def discovery : List Action := [.step 0, .step 0, .proceed]

theorem transcript_in_order_hurried :
    ∃ s s' r, (hurriedStart begun).follow? besideW (untilLatched ++ notification ++ discovery) = some s ∧
      s.report? besideW = some s' ∧ s'.phase = .closed (.recorded r) ∧
      Transcript.Wrote (filesOfW.contentAt Transcript.first.file) (s'.files.contentAt Transcript.first.file)
        (Event.ofContext hurried :: .statusChange .running :: .statusChange r.status ::
          Event.ofRecord r) := by
  have hcomputed (files : FileSystem) :
      ((hurriedStart files).follow? besideW (untilLatched ++ notification ++ discovery)).map
        (fun s => (s.isOver, s.isReporting)) = some (true, true) := by cbv
  obtain ⟨s, hs, hfacts⟩ := Option.map_eq_some_iff.mp (hcomputed begun)
  obtain ⟨hover, hreporting⟩ := Prod.mk.inj hfacts
  obtain ⟨s', hs'⟩ := report?_of_isReporting hreporting besideW
  obtain ⟨r, hphase, -, hwrote, -⟩ := transcript_in_order (g := besideW) rfl outOfReach_filesOfW
    (by simp [untilLatched, notification, discovery]) hs hs'
  exact ⟨s, s', r, hs, hs', hphase, hwrote hover⟩

/-- The main task may find the run at its end before the hook has written that down. Then the transcript goes
on to the end of the run without it. -/
theorem ending_unannounced :
    (∀ a ∈ untilLatched ++ discovery, a ≠ .interrupt) ∧
    ∃ s s' r, (hurriedStart begun).follow? besideW (untilLatched ++ discovery) = some s ∧
      s.report? besideW = some s' ∧ s'.phase = .closed (.recorded r) ∧
      ¬ Transcript.Wrote (filesOfW.contentAt Transcript.first.file) (s'.files.contentAt Transcript.first.file)
        (Event.ofContext hurried :: .statusChange .running :: .statusChange r.status ::
          Event.ofRecord r) := by
  have calm : ∀ a ∈ untilLatched ++ discovery, a ≠ .interrupt := by simp [untilLatched, discovery]
  have hcomputed (files : FileSystem) :
      ((hurriedStart files).follow? besideW (untilLatched ++ discovery)).map
        (fun s => (s.isOver, s.isReporting)) = some (false, true) := by cbv
  obtain ⟨s, hs, hfacts⟩ := Option.map_eq_some_iff.mp (hcomputed begun)
  obtain ⟨hover, hreporting⟩ := Prod.mk.inj hfacts
  obtain ⟨s', hs'⟩ := report?_of_isReporting hreporting besideW
  obtain ⟨r, hphase, -, hwrote⟩ := wrote_reported (g := besideW) rfl outOfReach_filesOfW calm hs hs'
  refine ⟨calm, s, s', r, hs, hs', hphase, fun hclaimed => ?_⟩
  rw [hover] at hwrote
  have hsame := congrArg List.length (hwrote.unique hclaimed)
  simp at hsame

end Overseer.Program

import Overseer.Program.Run
import Overseer.Proofs.CommandLine.Tools
import Overseer.Proofs.Config.Layers
import Overseer.Proofs.Program.Governed

/-!
# The allowlist of a run

Absent and empty lists of tools mean opposite things, and a list passes through many hands: the options of the
command line, two configuration files, the settings, the context, the frames of the supervisor, and the task of the
run, which consults it twice. It comes out as it went in, whatever the model asks for and whatever else happens
meanwhile.

* `allowlist`: where the list comes from.
* `Opens`, `Course`: the session that a run has, and what the run comes to.
* `course_run`: it is one of the sessions that begin with the context that has the list.
* `allowlist_governs`: all of it, from the command line on.
-/
namespace Overseer

theorem Context.allowedTools_fork {id parentId skill : String} {now : Timestamp} {history : List Message}
    {allowed : Option (List String)} {limits : Limits} {c : Context}
    (h : fork id now parentId history skill allowed limits = .ok c) : c.allowedTools = allowed := by
  unfold fork at h
  split at h
  · cases h
  split at h
  · cases h
  · simp only [bind, Except.bind] at h
    split at h <;> cases h
    rfl

namespace Program

variable {w : Surroundings} {s : Settings} {o : RunOptions} {c : Context} {args : List String} {own base : Layer}

/-! ## Where the list comes from -/

/-- The allowlist for a run, by its command line, the file of the workspace and the base file: the first list that
is given, and none at all if none is. -/
def allowlist (args : List String) (own base : Layer) : Option (List String) :=
  if "--no-tools" ∈ args then some []
  else (CommandLine.namedTools args).or (own.allowedTools.or base.allowedTools)

theorem allowlist_eq (hargs : CommandLine.parse args = .ok (.run o)) :
    allowlist args own base = (Config.chosen (.run o) own base).allowedTools := by
  unfold allowlist Config.chosen
  dsimp only [Command.tools?]
  by_cases hnone : "--no-tools" ∈ args
  · rw [if_pos hnone, if_pos ((CommandLine.noTools_iff hargs).mpr hnone)]
    rfl
  · rw [if_neg hnone, if_neg (mt (CommandLine.noTools_iff hargs).mp hnone), CommandLine.tools_eq hargs]

theorem allowedTools_contextOf (h : contextOf w s o = .ok c) : c.allowedTools = s.allowedTools :=
  Context.allowedTools_fork h

/-! ## What a run comes to -/

/-- The client that a run asks the model with. -/
def clientOf (s : Settings) : Model.Client := { model := s.model, url := s.ollamaUrl }

/-- All that comes before the session of a run is well: its settings, the model, the workspace, the context of the
sub-agent and the transcript. The session begins with that context, under an executor with the tools. -/
inductive Opens (w : Surroundings) (o : RunOptions) : Settings → Context → Setting → Session → Prop where
  | intro {s : Settings} {c : Context} {workspace : Workspace} {transcript : Transcript} {made opened : FileSystem}
      {x : Http.Exchange} (settings : Config.load w.files w.environment (.run o) = .ok s)
      (model : (clientOf s).check w.exchange = (.ok (), x))
      (making : Workspace.create w.files (Path.ofString s.workspace) = (made, .ok workspace))
      (context : contextOf w s o = .ok c)
      (opening : Transcript.create made workspace.root.path c.id = (opened, .ok transcript)) :
      Opens w o s c
        { id := c.id, client := clientOf s, workspace, transcript, policy := policyOf w s, random := w.random }
        (Session.start c (Agent.Executor.new Workspace.definitions s.maxIterations) w.now
          (transcript.log opened (w.clock w.now) (Event.ofContext c)) x)

/-- What a run comes to: nothing but the check of the model has been sent, if something is not well before its
session, or else the session that it opens has been played. -/
inductive Course (w : Surroundings) (o : RunOptions) (allowed : Option (List String)) (f : Finished) : Prop where
  | unopened (never : ∀ s c g begun, ¬Opens w o s c g begun)
      (sent : ∀ r ∈ f.sent, r ∈ w.exchange.sent ∨
        ∃ s, Config.load w.files w.environment (.run o) = .ok s ∧ r ∈ ((clientOf s).check w.exchange).2.sent)
  | opened {s : Settings} {c : Context} {g : Setting} {begun session : Session} {actions : List Action}
      (opens : Opens w o s c g begun) (given : c.allowedTools = allowed)
      (follows : begun.follow? g actions = some session) (ended : session.Over g ∨ actions.length = fuel)
      (files : f.files = session.files) (sent : f.sent = session.exchange.sent)

theorem course_runTask {allowed : Option (List String)}
    (hload : Config.load w.files w.environment (.run o) = .ok s)
    (hallowed : ∀ c, contextOf w s o = .ok c → c.allowedTools = allowed) : Course w o allowed (runTask w s o) := by
  -- something after the settings is not well
  have unopened {x : Http.Exchange} {outcome : Except Model.Trouble Unit} {f : Finished}
      (hcheck : (clientOf s).check w.exchange = (outcome, x)) (hf : f.sent = x.sent)
      (never : ∀ c g begun, ¬Opens w o s c g begun) : Course w o allowed f := by
    refine .unopened (fun s' c g begun hopens => ?_) fun r hr => Or.inr ⟨s, hload, ?_⟩
    · have hsettings : s' = s := by
        cases hopens with
        | intro settings => exact Except.ok.inj (settings.symm.trans hload)
      exact never c g begun (hsettings ▸ hopens)
    · rw [hcheck, ← hf]
      exact hr
  unfold runTask
  dsimp only
  split
  · rename_i hcheck
    refine unopened hcheck rfl ?_
    rintro _ _ _ ⟨-, model, -, -, -⟩
    cases hcheck.symm.trans model
  · rename_i hcheck
    refine unopened hcheck rfl ?_
    rintro _ _ _ ⟨-, model, -, -, -⟩
    cases hcheck.symm.trans model
  rename_i hcheck
  split
  · rename_i hmaking
    refine unopened hcheck rfl ?_
    rintro _ _ _ ⟨-, -, making, -, -⟩
    cases hmaking.symm.trans making
  rename_i hmaking
  split
  · rename_i hcontext
    refine unopened hcheck rfl ?_
    rintro _ _ _ ⟨-, -, -, context, -⟩
    cases hcontext.symm.trans context
  rename_i hcontext
  split
  · rename_i hopening
    refine unopened hcheck rfl ?_
    rintro _ _ _ ⟨-, -, making, context, opening⟩
    cases hmaking.symm.trans making
    cases hcontext.symm.trans context
    cases hopening.symm.trans opening
  · rename_i hopening
    obtain ⟨actions, follows, ended⟩ := Session.exists_follow_play _ fuel _
    exact .opened (.intro hload hcheck hmaking hcontext hopening) (hallowed _ hcontext) follows ended rfl rfl

theorem course_run (hargs : CommandLine.parse args = .ok (.run o)) {allowed : Option (List String)}
    (hallowed : ∀ s c, Config.load w.files w.environment (.run o) = .ok s → contextOf w s o = .ok c →
      c.allowedTools = allowed) : Course w o allowed (run w args) := by
  unfold run perform
  rw [hargs]
  dsimp only
  split
  · rename_i hload
    refine .unopened ?_ fun r => Or.inl
    rintro _ _ _ _ ⟨settings, -, -, -, -⟩
    cases hload.symm.trans settings
  · rename_i hload
    exact course_runTask hload fun c => hallowed _ c hload

/-- The allowlist of a run that the command line asks for is the empty one if it says `--no-tools`, or else the one
that it names, or else that of the workspace's file, or else that of the base file, and no two of them are ever put
together. It is what the context has that the session of the run begins with. It governs every session that begins
with this context, in whatever order things happen and whatever the model says: every run tells the model of the
tools on the list, every call is of a tool on it, and every action does what a run has asked for. Under an empty list
no tool is told of and none is called. -/
theorem allowlist_governs (hargs : CommandLine.parse args = .ok (.run o)) :
    ∃ own base, (∀ own' base', Config.Consults w.files w.environment (.run o) own' base' ↔
        own' = own ∧ base' = base) ∧
      Course w o (allowlist args own base) (run w args) ∧
      ∀ s c, Config.load w.files w.environment (.run o) = .ok s → contextOf w s o = .ok c →
        c.allowedTools = allowlist args own base ∧
        ∀ (g : Setting) (files : FileSystem) (exchange : Http.Exchange) (actions : List Action) (session : Session),
          (Session.start c (Agent.Executor.new Workspace.definitions s.maxIterations) w.now files exchange).follow? g
            actions = some session →
          session.Obeys g (allowlist args own base) ∧
          (∀ r ∈ session.exchange.sent, r ∈ exchange.sent ∨
            Session.Tells g.client (allowlist args own base) r) ∧
          (allowlist args own base = some [] →
            (∀ n request, session.executor.move? n = some (.ask request) → request.tools = []) ∧
            ∀ n call, session.executor.move? n ≠ some (.invoke call)) := by
  obtain ⟨own, base, hconsults, hload⟩ := Config.load_consulted w.files w.environment (.run o)
  have hallowed (s : Settings) (c : Context) (hs : Config.load w.files w.environment (.run o) = .ok s)
      (hcontext : contextOf w s o = .ok c) : c.allowedTools = allowlist args own base := by
    obtain ⟨-, rfl⟩ := (hload s).mp hs
    rw [allowedTools_contextOf hcontext, allowlist_eq hargs]
  refine ⟨own, base, hconsults, course_run hargs hallowed, fun s c hs hcontext => ⟨hallowed s c hs hcontext, ?_⟩⟩
  intro g files exchange actions session hfollow
  have hstart := Session.governed_start c s.maxIterations w.now files exchange
  have hobeys := (hstart.follow hfollow).obeys g
  have hsent := hstart.sent hfollow
  rw [hallowed s c hs hcontext] at hobeys hsent
  exact ⟨hobeys, hsent, fun hempty => (hempty ▸ hobeys).bare⟩

/-! ## A run without tools -/

def bareArgs : List String := ["run", "--skill", "helper", "--task", "go", "--no-tools"]

def bareOptions : RunOptions := { skill := "helper", task := "go", noTools := true }

def bareSettings : Settings where
  model := "llama3.2"
  workspace := Layer.defaultWorkspace
  ollamaUrl := Layer.defaultOllamaUrl
  maxTokens := 0
  maxToolCalls := 0
  timeoutSeconds := 300
  maxIterations := Layer.defaultMaxIterations
  allowedTools := some []
  maxRunning := 0
  shutdownSeconds := 30

def bareContext : Context where
  id := Uuid.ofRandom 0
  parentId := "cli-" ++ Uuid.ofRandom 0
  skill := "helper"
  allowedTools := some []
  limits := bareSettings.limits
  history := [Message.user "go"]
  createdAt := Timestamp.epoch
  metadata := []

/-- There are no files, and the server answers the check and no more. -/
def served : Surroundings where
  files := {}
  environment := {}
  exchange := { script := [.answered (.reply ⟨200, .empty⟩), .answered (.reply ⟨200, .empty⟩)] }
  random := fun _ _ => 0
  now := 0
  clock := fun _ => Timestamp.epoch

theorem check_served : ∃ x, (clientOf bareSettings).check served.exchange = (.ok (), x) := by
  have hok : ((clientOf bareSettings).check served.exchange).1.isOk = true := by decide +kernel
  cases hcheck : (clientOf bareSettings).check served.exchange with
  | mk outcome x =>
    rw [hcheck] at hok
    cases outcome with
    | error t => cases hok
    | ok => exact ⟨x, rfl⟩

def servedTranscript : Transcript where
  path := Path.ofString ("/.delegate-logs/subagent-" ++ bareContext.id ++ ".jsonl")
  file := [Path.ofString ".delegate-logs", Path.ofString ("subagent-" ++ bareContext.id ++ ".jsonl")]

theorem load_served : Config.load served.files served.environment (.run bareOptions) = .ok bareSettings := by cbv

theorem opens_served : ∃ g begun, Opens served bareOptions bareSettings bareContext g begun := by
  obtain ⟨x, hcheck⟩ := check_served
  have hmaking : (Workspace.create served.files (Path.ofString bareSettings.workspace)).2 =
      .ok ⟨[Path.ofString "workspace"]⟩ := by cbv
  have hopening : (Transcript.create (Workspace.create served.files (Path.ofString bareSettings.workspace)).1
      (Location.path [Path.ofString "workspace"]) bareContext.id).2 = .ok servedTranscript := by cbv
  exact ⟨_, _, .intro load_served hcheck (Prod.ext rfl hmaking) rfl (Prod.ext rfl hopening)⟩

/-- The run is set off, and is about to ask the model. -/
def untilAsked : List Action :=
  [.step 0, .step 0, .step 0, .announce 0, .step 0, .step 0, .step 1, .work 1]

def bareStart : Session :=
  Session.start bareContext (Agent.Executor.new Workspace.definitions bareSettings.maxIterations) 0 {} { script := [] }

/-- The run of this command line has a session, of a context whose list is empty, and no call is made in it. Where a
session of this context comes to ask the model, the model is told of no tools. -/
theorem allowlist_governs_bareOptions :
    CommandLine.parse bareArgs = .ok (.run bareOptions) ∧
    (∃ s c g begun actions session, Opens served bareOptions s c g begun ∧ c.allowedTools = some [] ∧
      begun.follow? g actions = some session ∧ (run served bareArgs).sent = session.exchange.sent ∧
      ∀ n call, session.executor.move? n ≠ some (.invoke call)) ∧
    ∃ session request, bareStart.follow? besideW untilAsked = some session ∧
      session.executor.move? 0 = some (.ask request) ∧ request.tools = [] := by
  have hargs : CommandLine.parse bareArgs = .ok (.run bareOptions) := by decide +kernel
  obtain ⟨own, base, -, hcourse, hgoverns⟩ := allowlist_governs (w := served) hargs
  have hempty : allowlist bareArgs own base = some [] := if_pos (by decide)
  refine ⟨hargs, ?_, ?_⟩
  · cases hcourse with
    | unopened never =>
      obtain ⟨g, begun, hopens⟩ := opens_served
      exact absurd hopens (never _ _ _ _)
    | opened opens given follows ended files sent =>
      refine ⟨_, _, _, _, _, _, opens, given.trans hempty, follows, sent, ?_⟩
      cases opens with
      | intro settings model making context opening =>
        exact (((hgoverns _ _ settings context).2 _ _ _ _ _ follows).2.2 hempty).2
  · have hasked : (bareStart.follow? besideW untilAsked).bind (fun s => s.executor.move? 0) =
        some (.ask ⟨bareContext.history, []⟩) := by cbv
    obtain ⟨session, hfollow, hmove⟩ := Option.bind_eq_some_iff.mp hasked
    have hbare := ((hgoverns _ _ load_served rfl).2 besideW _ _ _ _ hfollow).2.2 hempty
    exact ⟨session, _, hfollow, hmove, hbare.1 0 _ hmove⟩

end Program

end Overseer

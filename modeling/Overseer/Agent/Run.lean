import Overseer.Clock
import Overseer.Context
import Overseer.Error
import Overseer.Record

/-!
# The run of a sub-agent

A run alternates between asking the model and calling the tools it asks for, until the model asks for
none, something fails, or a budget is spent (`drive`). It is a process that waits for one answer at a time: `move`
says what it waits for, and `hearReply` and `hearOutput` go on with the answer. What it cannot know by
itself, the time and whether it has been told to stop, it is shown with each answer.

At the head of each iteration the run stops if it is cancelled, if its scope has expired or if a budget
is exceeded. Tokens are counted after an answer, tool calls before each call, and the budgets are checked
again after the last call that an answer asked for.
-/
namespace Overseer.Agent

/-- What a run is shown together with an answer. -/
structure Sight where
  now : Instant
  cancelled : Bool
  expired : Bool
  deriving DecidableEq, Repr, Inhabited

structure Task where
  context : Context
  tools : List ToolDefinition
  maxIterations : Nat
  deriving Repr, Inhabited

/-- The tools that the model is told about: those that a context allows (`advertised_tools`). -/
def advertised (tools : List ToolDefinition) (c : Context) : List ToolDefinition :=
  tools.filter fun t => isToolAllowed c.allowedTools t.name

def Task.of (context : Context) (tools : List ToolDefinition) (maxIterations : Nat) : Task :=
  ⟨context, advertised tools context, maxIterations⟩

structure Ending where
  status : Status
  output : String
  error : String
  deriving DecidableEq, Repr, Inhabited

/-- What a run waits for. -/
inductive Point where
  /-- The model's answer in an iteration, asked at some time. -/
  | asking (iteration : Nat) (asked : Instant)
  /-- The output of a tool call; more calls of the same answer may follow. -/
  | calling (iteration : Nat) (call : ToolCall) (more : List ToolCall)
  | ended (ending : Ending)
  deriving Repr, Inhabited

structure Run where
  task : Task
  started : Instant
  conversation : List Message
  steps : List Step
  tokens : Nat
  toolCalls : Nat
  point : Point
  deriving Repr, Inhabited

inductive Move where
  | ask (request : ChatRequest)
  | invoke (call : ToolCall)
  | finish (ending : Ending)
  deriving Repr, Inhabited

def maxTokens : Nat := Word.count64 - 1

/-- The sum of two counts of tokens, which stops at the largest. -/
def addTokens (a b : Nat) : Nat := min (a + b) maxTokens

namespace Run

def limits (r : Run) : Limits := r.task.context.limits

def elapsed (r : Run) (s : Sight) : Duration := s.now.since r.started

def move (r : Run) : Move :=
  match r.point with
  | .asking _ _ => .ask ⟨r.conversation, r.task.tools⟩
  | .calling _ call _ => .invoke call
  | .ended e => .finish e

def stop (r : Run) (status : Status) (error : String) : Run :=
  { r with point := .ended ⟨status, "", error⟩ }

/-- The head of an iteration. -/
def iterate (r : Run) (s : Sight) (iteration : Nat) : Run :=
  if r.task.maxIterations < iteration then
    r.stop .error ("exceeded maximum iterations (" ++ toString r.task.maxIterations ++ ")")
  else if s.cancelled then r.stop .cancelled "sub-agent cancelled"
  else if s.expired then r.stop .timeout ("deadline exceeded after " ++ (r.elapsed s).text)
  else
    match r.limits.check r.tokens r.toolCalls (r.elapsed s) with
    | .error v => r.stop .timeout v.message
    | .ok () => { r with point := .asking iteration s.now }

def start (task : Task) (s : Sight) : Run :=
  iterate {
    task
    started := s.now
    conversation := task.context.history
    steps := []
    tokens := 0
    toolCalls := 0
    point := .asking 0 s.now } s 1

def statusOf : Violation → Status
  | .time _ _ => .timeout
  | .tokens _ _ | .toolCalls _ _ => .error

def callsSpent (r : Run) : Bool :=
  match r.limits.toolCallLimit with
  | none => false
  | some limit => limit ≤ r.toolCalls

/-- The calls of an answer that are still to be made, and then the next iteration. -/
def proceed (r : Run) (s : Sight) (iteration : Nat) : List ToolCall → Run
  | [] =>
    match r.limits.check r.tokens r.toolCalls (r.elapsed s) with
    | .error v => r.stop (statusOf v) v.message
    | .ok () => r.iterate s (iteration + 1)
  | call :: more =>
    if r.callsSpent then
      r.stop .error ("tool call limit reached (" ++ toString (r.limits.toolCallLimit.getD 0) ++
        "); refusing to run '" ++ call.name ++ "'")
    else if isToolAllowed r.task.context.allowedTools call.name = false then
      r.stop .error ("tool '" ++ call.name ++ "' is not allowed for this sub-agent")
    else { r with point := .calling iteration call more }

def stepOf (iteration : Nat) (asked : Instant) (s : Sight) (a : ChatResponse) : Step where
  number := iteration
  action := a.finishReason.text ++ ": " ++ toString a.toolCalls.length ++ " tool call(s)"
  result := a.content
  tokens := a.usage.totalTokens
  duration := s.now.since asked

def accept (r : Run) (s : Sight) (iteration : Nat) (asked : Instant) (a : ChatResponse) : Run :=
  let tokens := addTokens r.tokens a.usage.totalTokens
  if Limits.exceeds tokens r.limits.tokenLimit then
    { r with tokens }.stop .error (Violation.tokens tokens (r.limits.tokenLimit.getD 0)).message
  else
    let r := { r with
      tokens
      conversation := r.conversation ++ [Message.assistant a.content a.toolCalls]
      steps := r.steps ++ [stepOf iteration asked s a] }
    if a.isFinal then { r with point := .ended ⟨.complete, a.content, ""⟩ }
    else r.proceed s iteration a.toolCalls

def hearReply (r : Run) (s : Sight) (reply : Except ModelError ChatResponse) : Run :=
  match r.point with
  | .asking iteration asked =>
    match reply with
    | .error e => r.stop .error ("LLM call failed: " ++ e.message)
    | .ok a => r.accept s iteration asked a
  | _ => r

/-- Goes on when a tool has given its output, or failed. -/
def hearOutput (r : Run) (s : Sight) (output : Except ToolError String) : Run :=
  match r.point with
  | .calling iteration call more =>
    match output with
    | .error e => r.stop .error ("tool '" ++ call.name ++ "' failed: " ++ e.message)
    | .ok text =>
      { r with
        toolCalls := r.toolCalls + 1
        conversation := r.conversation ++ [Message.toolOutput call.id text] }.proceed s iteration more
  | _ => r

def record (r : Run) (e : Ending) (now : Instant) (time : Timestamp) : Record where
  id := r.task.context.id
  status := e.status
  output := e.output
  error := e.error
  tokens := r.tokens
  toolCalls := r.toolCalls
  executionTime := now.since r.started
  completedAt := some time
  steps := r.steps
  metadata := [
    ("conversation_len", .nat r.conversation.length),
    ("parent_context_id", .str r.task.context.parentId),
    ("skill_name", .str r.task.context.skill)]

end Run

end Overseer.Agent

import Overseer.CommandLine.Command
import Overseer.Error
import Overseer.Toml.Reader

/-!
# Layers of settings

A layer holds some of the settings. Of several layers the first that holds a setting decides it, for
each setting on its own; what none holds has a default. The command line makes a layer, and so does a
configuration file.
-/
namespace Overseer

/-- Some of the settings. -/
structure Layer where
  model : Option String := none
  workspace : Option String := none
  ollamaUrl : Option String := none
  maxTokens : Option Int := none
  maxToolCalls : Option Int := none
  timeoutSeconds : Option Int := none
  maxIterations : Option Nat := none
  allowedTools : Option (List String) := none
  maxRunning : Option Nat := none
  shutdownSeconds : Option Nat := none
  deriving DecidableEq, Repr, Inhabited

structure Settings where
  model : String
  workspace : String
  ollamaUrl : String
  maxTokens : Int
  maxToolCalls : Int
  timeoutSeconds : Nat
  maxIterations : Nat
  allowedTools : Option (List String)
  maxRunning : Nat
  shutdownSeconds : Nat
  deriving DecidableEq, Repr, Inhabited

namespace Settings

def limits (s : Settings) : Limits where
  maxTokens := s.maxTokens
  maxToolCalls := s.maxToolCalls
  timeout := Duration.ofSeconds s.timeoutSeconds

def shutdownTimeout (s : Settings) : Duration := Duration.ofSeconds s.shutdownSeconds

end Settings

namespace Layer

def empty : Layer := {}

/-- The settings of the first layer, and those of the second that it leaves open (`with_fallback`). -/
def above (first second : Layer) : Layer where
  model := first.model <|> second.model
  workspace := first.workspace <|> second.workspace
  ollamaUrl := first.ollamaUrl <|> second.ollamaUrl
  maxTokens := first.maxTokens <|> second.maxTokens
  maxToolCalls := first.maxToolCalls <|> second.maxToolCalls
  timeoutSeconds := first.timeoutSeconds <|> second.timeoutSeconds
  maxIterations := first.maxIterations <|> second.maxIterations
  allowedTools := first.allowedTools <|> second.allowedTools
  maxRunning := first.maxRunning <|> second.maxRunning
  shutdownSeconds := first.shutdownSeconds <|> second.shutdownSeconds

def defaultWorkspace : String := "./workspace"

def defaultOllamaUrl : String := "http://localhost:11434"

def defaultMaxIterations : Nat := 50

/-- The settings of a layer and the defaults for what it leaves open, if they are valid (`finalize`). -/
def settle (l : Layer) : Except SettingFault Settings :=
  let maxTokens := l.maxTokens.getD 0
  let maxToolCalls := l.maxToolCalls.getD 0
  let timeoutSeconds := l.timeoutSeconds.getD 300
  let maxIterations := l.maxIterations.getD defaultMaxIterations
  if maxTokens < 0 then .error (.negativeTokens maxTokens)
  else if maxToolCalls < 0 then .error (.negativeToolCalls maxToolCalls)
  else if timeoutSeconds ≤ 0 then .error (.noTime timeoutSeconds)
  else if maxIterations = 0 then .error .noIterations
  else .ok {
    model := l.model.getD "llama3.2"
    workspace := l.workspace.getD defaultWorkspace
    ollamaUrl := l.ollamaUrl.getD defaultOllamaUrl
    maxTokens, maxToolCalls
    timeoutSeconds := timeoutSeconds.toNat
    maxIterations
    allowedTools := l.allowedTools
    maxRunning := l.maxRunning.getD 0
    shutdownSeconds := l.shutdownSeconds.getD 30 }

def ofCommand : Command → Layer
  | .run o => {
      model := o.model
      workspace := o.workspace
      maxTokens := o.maxTokens
      maxToolCalls := o.maxToolCalls
      timeoutSeconds := o.timeout
      allowedTools := if o.noTools then some [] else o.tools }
  | .tools workspace => { workspace }

/-! ## Configuration files -/

/-- A section of a file: a table by its keys, or an array of the values in order. -/
inductive Section where
  | table (entries : List (String × Toml.Value))
  | row (items : List Toml.Value)

/-- The section under a name. Absent is not the same as malformed. A date stands for a table without keys
of its own. -/
def section? (root : List (String × Toml.Value)) (name : String) : Option (Option Section) :=
  match root.lookup name with
  | none => some none
  | some (.table _ entries) => some (some (.table entries))
  | some .datetime => some (some (.table []))
  | some v =>
    match v.items? with
    | some items => some (some (.row items))
    | none => none

/-- A setting by its key, or by its place in a row, which has to reach that far. -/
def setting {α : Type} (read : Toml.Value → Option α) (key : String) (place : Nat) :
    Option Section → Option (Option α)
  | none => some none
  | some (.table entries) =>
    match entries.lookup key with
    | none => some none
    | some v => (read v).map some
  | some (.row items) =>
    match items[place]? with
    | none => none
    | some v => (read v).map some

def text : Toml.Value → Option String
  | .string s => some s
  | _ => none

def texts (v : Toml.Value) : Option (List String) := do (← v.items?).mapM text

def signed : Toml.Value → Option Int
  | .integer n => if Word.isSigned64 n then some n else none
  | _ => none

/-- A number from zero on, below a limit. -/
def unsigned (limit : Nat) : Toml.Value → Option Nat
  | .integer n => if 0 ≤ n ∧ n < limit then some n.toNat else none
  | _ => none

/-- What a configuration file sets (`to_partial`); none if it is malformed. Unknown keys mean nothing. -/
def ofToml? (file : String) : Option Layer := do
  let root ← Toml.parse? file
  let general ← section? root "general"
  let limits ← section? root "limits"
  let supervisor ← section? root "supervisor"
  return {
    model := ← setting text "model" 0 general
    workspace := ← setting text "workspace" 1 general
    ollamaUrl := ← setting text "ollama_url" 2 general
    maxTokens := ← setting signed "max_tokens" 0 limits
    maxToolCalls := ← setting signed "max_tool_calls" 1 limits
    timeoutSeconds := ← setting signed "timeout_secs" 2 limits
    maxIterations := ← setting (unsigned Word.count32) "max_iterations" 3 limits
    allowedTools := ← setting texts "allowed_tools" 4 limits
    maxRunning := ← setting (unsigned Word.count64) "max_running" 0 supervisor
    shutdownSeconds := ← setting (unsigned Word.count64) "shutdown_timeout_secs" 1 supervisor }

end Layer

end Overseer

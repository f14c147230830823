import Overseer.CommandLine.Options

/-!
# The commands

`run` gives a sub-agent a task, `tools` lists the tools, `help` explains.
-/
namespace Overseer

structure RunOptions where
  skill : String
  task : String
  model : Option String := none
  workspace : Option String := none
  config : Option String := none
  maxTokens : Option Int := none
  maxToolCalls : Option Int := none
  timeout : Option Int := none
  tools : Option (List String) := none
  noTools : Bool := false
  deriving DecidableEq, Repr, Inhabited

inductive Command where
  | run (options : RunOptions)
  | tools (workspace : Option String)
  deriving DecidableEq, Repr, Inhabited

namespace CommandLine

def helpOpt : Opt := ⟨"help", some 'h', .help⟩

def rootOpts : List Opt := [helpOpt, ⟨"version", some 'V', .version⟩]

def workspaceOpt : Opt := ⟨"workspace", some 'w', .path⟩

def toolsOpts : List Opt := [helpOpt, workspaceOpt]

def runOpts : List Opt := [
  helpOpt,
  ⟨"skill", some 's', .text⟩,
  ⟨"task", some 't', .text⟩,
  ⟨"model", some 'm', .text⟩,
  workspaceOpt,
  ⟨"config", some 'c', .path⟩,
  ⟨"max-tokens", none, .integer⟩,
  ⟨"max-tool-calls", none, .integer⟩,
  ⟨"timeout", none, .integer⟩,
  ⟨"tools", none, .texts⟩,
  ⟨"no-tools", none, .switch⟩]

def commandNames : List String := ["run", "tools", "help"]

def readRun (args : List String) : Except UsageError Command := do
  let given ← readOptions runOpts ⟨[], none⟩ args
  if given.has "tools" && given.has "no-tools" then .error .conflict
  else
    match given.value? "skill", given.value? "task" with
    | some skill, some task =>
      return .run {
        skill, task
        model := given.value? "model"
        workspace := given.value? "workspace"
        config := given.value? "config"
        maxTokens := given.integer? "max-tokens"
        maxToolCalls := given.integer? "max-tool-calls"
        timeout := given.integer? "timeout"
        tools := given.values? "tools"
        noTools := given.has "no-tools" }
    | _, _ => .error .missingRequired

def readTools (args : List String) : Except UsageError Command := do
  let given ← readOptions toolsOpts ⟨[], none⟩ args
  return .tools (given.value? "workspace")

def readHelp (topics : List String) : Except UsageError Command :=
  match topics with
  | [] => .error .help
  | [topic] => if topic ∈ commandNames then .error .help else .error .unknownCommand
  | _ => .error .unknownCommand

def parse : List String → Except UsageError Command
  | [] => .error .helpForNothing
  | arg :: rest =>
    if arg = "run" then readRun rest
    else if arg = "tools" then readTools rest
    else if arg = "help" then readHelp rest
    else if arg = "--" then
      match rest with
      | [] => .error .helpForNothing
      | next :: _ => if next ∈ commandNames then .error .unknownArgument else .error .unknownCommand
    else
      match arg.toList with
      | '-' :: _ :: _ => do
        let _ ← (⟨[], none⟩ : Progress).argument rootOpts arg
        .error .helpForNothing
      | _ => .error .unknownCommand

end CommandLine

end Overseer

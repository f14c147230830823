import Overseer.Limits
import Overseer.OsError

/-!
# Errors

The causes for which a request is refused, a model gives no answer, a tool call fails or a
configuration cannot be used, each with the one message it is reported by.
-/
namespace Overseer

inductive Refusal where
  | invalid (fault : Fault)
  | notFound (id : String)
  | alreadyTracked (id : String)
  | capacityExceeded (running limit : Nat)
  | shutdownTimeout (timeout : Duration) (remaining : Nat)
  deriving DecidableEq, Repr, Inhabited

def Refusal.message : Refusal → String
  | .invalid fault => "Invalid sub-agent request: " ++ fault.message
  | .notFound id => "Sub-agent not found: " ++ id
  | .alreadyTracked id => "Sub-agent already tracked: " ++ id
  | .capacityExceeded running limit =>
    "Max running sub-agents reached (" ++ toString running ++ "/" ++ toString limit ++ ")"
  | .shutdownTimeout timeout remaining =>
    "Shutdown timed out after " ++ timeout.text ++ "; " ++ toString remaining ++
      " sub-agent(s) still running"

inductive ModelError where
  | unavailable (url reason : String)
  | modelNotAvailable (model reason : String)
  | request (reason : String)
  deriving DecidableEq, Repr, Inhabited

def ModelError.message : ModelError → String
  | .unavailable url reason => "Ollama not reachable at " ++ url ++ ": " ++ reason
  | .modelNotAvailable model reason => "Model '" ++ model ++ "' not available in Ollama: " ++ reason
  | .request reason => "LLM request failed: " ++ reason

inductive ToolError where
  | unknownTool (name : String)
  | invalidArguments (tool reason : String)
  | failed (tool reason : String)
  deriving DecidableEq, Repr, Inhabited

def ToolError.message : ToolError → String
  | .unknownTool name => "Unknown tool: " ++ name
  | .invalidArguments tool reason => tool ++ ": invalid arguments: " ++ reason
  | .failed tool reason => tool ++ " failed: " ++ reason

inductive SettingFault where
  | negativeTokens (n : Int)
  | negativeToolCalls (n : Int)
  | noTime (n : Int)
  | noIterations
  | other (reason : String)
  deriving DecidableEq, Repr, Inhabited

def SettingFault.message : SettingFault → String
  | .negativeTokens n => "limits.max_tokens must be >= 0, got " ++ toString n
  | .negativeToolCalls n => "limits.max_tool_calls must be >= 0, got " ++ toString n
  | .noTime n => "limits.timeout_secs must be > 0, got " ++ toString n
  | .noIterations => "limits.max_iterations must be > 0"
  | .other reason => reason

inductive ConfigError where
  | io (error : OsError)
  | unreadable (path reason : String)
  | invalid (fault : SettingFault)
  deriving DecidableEq, Repr, Inhabited

def ConfigError.message : ConfigError → String
  | .io error => "I/O error: " ++ error.message
  | .unreadable path reason => "Failed to parse config at " ++ path ++ ": " ++ reason
  | .invalid fault => "Invalid config: " ++ fault.message

end Overseer

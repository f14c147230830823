import Overseer.Config.Layer
import Overseer.Error
import Overseer.Http.Exchange
import Overseer.Model.Provider
import Overseer.Model.Reading
import Overseer.Model.Turn

/-!
# The client of a model

A client can check whether the model's server is there and has the model, and have the model go on with
a chat. The check goes to the configured server, chats always go to the local one. The environment is taken to
hold no key of a hosted provider, so a model of one is never asked: `chat` fails before anything is sent.
-/
namespace Overseer.Model

structure Client where
  model : String
  url : String := Layer.defaultOllamaUrl
  deriving DecidableEq, Repr, Inhabited

inductive Trouble where
  | error (e : ModelError)
  | interrupted

namespace Client

/-- The server's URL without slashes at its end. -/
def base (c : Client) : String :=
  String.ofList (c.url.toList.reverse.dropWhile (· = '/')).reverse

def probe (c : Client) : Except ModelError Http.Request :=
  match Http.Url.parse (c.base ++ "/") with
  | .error f => .error (.unavailable c.base ("Is Ollama running? " ++ f.message))
  | .ok url => .ok { method := .get, url }

/-- Any reply will do. -/
def judgeProbe (c : Client) (r : Http.Request) : Http.Answer → Except ModelError Unit
  | .reply _ => .ok ()
  | .dropped => .error (.unavailable c.base ("Is Ollama running? " ++ r.dropped))

def inquiry (c : Client) : Except ModelError Http.Request :=
  match Http.Url.parse (c.base ++ "/api/show") with
  | .error f => .error (.modelNotAvailable c.model ("Failed to query model info: " ++ f.message))
  | .ok url => .ok { method := .post, url, body := some (.obj [("model", .str c.model)]) }

def judgeInquiry (c : Client) (r : Http.Request) : Http.Answer → Except ModelError Unit
  | .dropped => .error (.modelNotAvailable c.model ("Failed to query model info: " ++ r.dropped))
  | .reply a =>
    if a.isSuccess then .ok ()
    else
      .error (.modelNotAvailable c.model ("Model not found (HTTP " ++ a.statusText ++
        "). Run `ollama pull " ++ c.model ++ "` to download it."))

def ask (request : Except ModelError Http.Request)
    (judge : Http.Request → Http.Answer → Except ModelError Unit) (x : Http.Exchange) :
    Except Trouble Unit × Http.Exchange :=
  match request with
  | .error e => (.error (.error e), x)
  | .ok r =>
    match x.send r with
    | (.interrupted, x) => (.error .interrupted, x)
    | (.answered a, x) =>
      match judge r a with
      | .error e => (.error (.error e), x)
      | .ok () => (.ok (), x)

/-- Checks that the server is there and then that it has the model (`check_ready`). -/
def check (c : Client) (x : Http.Exchange) : Except Trouble Unit × Http.Exchange :=
  match ask c.probe c.judgeProbe x with
  | (.error t, x) => (.error t, x)
  | (.ok (), x) => ask c.inquiry c.judgeInquiry x

def chatUrl : Http.Url := { scheme := "http", host := "localhost", port := some 11434, path := "/api/chat" }

/-- Why a hosted model cannot be asked, there being no key for it. -/
def missingKey (model : String) (p : Provider) (variableName : String) : ModelError :=
  .request ("LLM stream error: Resolver error for model '" ++ model ++ " (adapter: " ++ p.name ++
    ")'.\nCause: ApiKeyEnvNotFound \x7b env_name: \"" ++ variableName ++ "\" \x7d")

/-- Has the model go on with a chat. -/
def chat (c : Client) (r : ChatRequest) : Except ModelError Http.Request :=
  let p := Provider.ofModel c.model
  match p.keyVariable? with
  | some variableName => .error (missingKey c.model p variableName)
  | none => .ok {
      method := .post
      url := chatUrl
      body := some (chatJson (Provider.bareName c.model) r) }

/-- What the model says; no proper reply says nothing. -/
def hear (random : Nat → Nat) : Http.Answer → ChatResponse
  | .reply a => (if a.isSuccess then Reading.ofContent random a.body else {}).response
  | .dropped => ({} : Reading).response

end Client

end Overseer.Model

/-!
# Providers of models

A model's name tells who provides it: the part before the first `::` if that names a provider, or else
how the name begins. Four providers are known, and models of no other are asked for; a name that tells nothing is
that of a model served by Ollama.
-/
namespace Overseer.Model

inductive Provider where
  | openAI
  | anthropic
  | gemini
  | ollama
  deriving DecidableEq, Repr, Inhabited

namespace Provider

def spaces : List (String × Provider) :=
  [("openai", .openAI), ("anthropic", .anthropic), ("gemini", .gemini), ("ollama", .ollama)]

def name : Provider → String
  | .openAI => "OpenAI"
  | .anthropic => "Anthropic"
  | .gemini => "Gemini"
  | .ollama => "Ollama"

def keyVariable? : Provider → Option String
  | .openAI => some "OPENAI_API_KEY"
  | .anthropic => some "ANTHROPIC_API_KEY"
  | .gemini => some "GEMINI_API_KEY"
  | .ollama => none

/-- Cuts a name at its first `::`. -/
def cut : List Char → Option (List Char × List Char)
  | ':' :: ':' :: rest => some ([], rest)
  | c :: rest => (cut rest).map fun (front, back) => (c :: front, back)
  | [] => none

def space? (model : String) : Option Provider := do
  let (front, _) ← cut model.toList
  spaces.lookup (String.ofList front)

def ofStart (model : String) : Provider :=
  if (model.startsWith "gpt" && !model.startsWith "gpt-oss") || model.startsWith "o1" ||
      model.startsWith "o3" || model.startsWith "chatgpt" then .openAI
  else if model.startsWith "claude" then .anthropic
  else if model.startsWith "gemini" then .gemini
  else .ollama

def ofModel (model : String) : Provider := (space? model).getD (ofStart model)

/-- The name of a model without what stands before its first `::`. -/
def bareName (model : String) : String :=
  match cut model.toList with
  | some (_, name) => String.ofList name
  | none => model

end Provider

end Overseer.Model

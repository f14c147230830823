import Overseer.Config.Layer
import Overseer.FileSystem.Operations

/-!
# Where settings come from

The command line comes before the file in the workspace, and that before the base file: the one named on
the command line, or else the user's own. A file that is missing, unreadable or malformed counts as one
that sets nothing. Which workspace has its file consulted is decided without that file. `load` is all of this, as
`load_config` does it for a command line.
-/
namespace Overseer

structure Environment where
  home : Option String := none
  configHome : Option String := none
  deriving DecidableEq, Repr, Inhabited

namespace Config

def fileName : Path := Path.ofString "delegate.toml"

/-- What a file sets; none if it cannot be read. -/
def readLayer? (fs : FileSystem) (p : Path) : Option Layer :=
  match fs.readText p with
  | .ok text => Layer.ofToml? text
  | .error _ => none

def layerAt (fs : FileSystem) (p : Path) : Layer := (readLayer? fs p).getD .empty

/-- The user's own configuration file. -/
def userFile? (env : Environment) : Option Path :=
  let inHome : Option Path :=
    match env.home with
    | some home =>
      if home.isEmpty then none else some ((Path.ofString home).join (Path.ofString ".config"))
    | none => none
  let dir := match env.configHome with
    | some dir => if (Path.ofString dir).isAbsolute then some (Path.ofString dir) else inHome
    | none => inHome
  dir.map fun d => (d.join (Path.ofString "delegate")).join fileName

def baseFile? (env : Environment) : Command → Option Path
  | .run o =>
    match o.config with
    | some path => some (Path.ofString path)
    | none => userFile? env
  | .tools _ => userFile? env

/-- The layer below all others. -/
def base (fs : FileSystem) (env : Environment) (command : Command) : Layer :=
  match baseFile? env command with
  | some path => layerAt fs path
  | none => .empty

/-- The workspace whose file is consulted. -/
def consulted (command : Command) (base : Layer) : String :=
  ((Layer.ofCommand command).workspace <|> base.workspace).getD Layer.defaultWorkspace

def ownFile (command : Command) (base : Layer) : Path :=
  (Path.ofString (consulted command base)).join fileName

def load (fs : FileSystem) (env : Environment) (command : Command) : Except SettingFault Settings :=
  let base := base fs env command
  (((Layer.ofCommand command).above (layerAt fs (ownFile command base))).above base).settle

end Config

end Overseer

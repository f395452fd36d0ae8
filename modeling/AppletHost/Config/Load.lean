import AppletHost.Config.Layer
import AppletHost.Config.Validation
import AppletHost.Toml.Reader

/-!
# Loading a configuration

The layers from the bottom up: built-in defaults, the user's file, a file that was asked for, the
environment. The merged tree is decoded and checked.
-/

namespace AppletHost.Config

/-- What is found under the path of a configuration file. -/
inductive File where
  | missing
  | unreadable
  | bytes (content : ByteArray)

/-- The tree of a text. -/
def treeOf (source : Source) (text : String) : Except ConfigError Value :=
  if maxFileSize < text.utf8ByteSize then .error (.tooLarge source text.utf8ByteSize)
  else
    match Toml.read? text with
    | some tree => .ok tree
    | none => .error (.malformed source)

/-- The tree of a file. Only the user's file may be missing. -/
def File.tree (source : Source) : File → Except ConfigError (Option Value)
  | .missing => if source = .user then .ok none else .error (.unreadable source)
  | .unreadable => .error (.unreadable source)
  | .bytes content =>
    match String.fromUTF8? content with
    | none => .error (.unreadable source)
    | some text => (treeOf source text).map some

/-- The tree of the built-in defaults. -/
def defaultTree : Value := Settings.standard.encode

/-- A layer over the tree, if there is one. -/
def withLayer (tree : Value) : Option Value → Value
  | none => tree
  | some overlay => deepMerge tree overlay

/-- The settings of the merged layers. -/
def load (user explicit : Option Value) (env : Environment) : Except ConfigError Settings := do
  let (tree, applied) := applyEnvironment (withLayer (withLayer defaultTree user) explicit) env
  let _ ← applied
  match Settings.decode? Toml.constant? tree with
  | none => .error (.malformed .merged)
  | some settings =>
    settings.validate
    .ok settings

end AppletHost.Config

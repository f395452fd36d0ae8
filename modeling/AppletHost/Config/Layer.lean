import AppletHost.Config.Error
import AppletHost.Text.Blank

/-!
# Layers of a configuration

A configuration is a tree of tables. A higher layer is merged over a lower one: where both hold a
table the tables are merged, everywhere else the higher layer wins. The environment comes on top of
all files; each of its variables sets one path.
-/

namespace AppletHost.Config

mutual

/-- Puts a layer over another. -/
def deepMerge (base overlay : Value) : Value :=
  match overlay with
  | .obj upper =>
    match base with
    | .obj fields => .obj (mergeFields fields upper)
    | _ => .obj upper
  | overlay => overlay

/-- Puts fields over others, one after another. -/
def mergeFields (base : Fields) : List (String × Value) → Fields
  | [] => base
  | (name, v) :: rest =>
    let merged := match Fields.get? base name with
      | some w => deepMerge w v
      | none => v
    mergeFields (Fields.set base name merged) rest

end

/-- Puts `leaf` at a path; whatever stands in the way of the path's tables gives way to them. -/
def setPath (tree : Value) (path : List String) (leaf : Value) : Value :=
  match path with
  | [] => leaf
  | name :: rest =>
    let fields := tree.obj?.getD []
    .obj (Fields.set fields name (setPath ((Fields.get? fields name).getD (.obj [])) rest leaf))

/-- What kind of setting a variable holds. -/
inductive VariableKind where
  | port
  | text
deriving DecidableEq, Repr

/-- A variable of the environment that overrides a setting. -/
structure Variable where
  name : String
  path : List String
  kind : VariableKind
deriving DecidableEq, Repr

/-- The variables that are recognised, in the order in which they are applied. -/
def knownVariables : List Variable :=
  [⟨"MINIAPP_CONTROL_PORT", ["server", "control_port"], .port⟩,
    ⟨"MINIAPP_PUSH_PORT", ["server", "push_port"], .port⟩,
    ⟨"MINIAPP_RENDER_PORT_BASE", ["server", "render_port_base"], .port⟩,
    ⟨"MINIAPP_APPS_DIR", ["apps", "dir"], .text⟩,
    ⟨"MINIAPP_LOG_LEVEL", ["logging", "level"], .text⟩]

/-- The dotted name of a path. -/
def dotted (path : List String) : String := ".".intercalate path

/-- The port that a text names: digits, perhaps after a plus sign and between blanks. -/
def portOf? (raw : String) : Option Nat :=
  let digits := match Text.trim raw.toList with
    | '+' :: cs => cs
    | cs => cs
  if digits ≠ [] ∧ digits.all Char.isDigit then
    let n := Number.ofDigits digits
    if n ≤ lastPort then some n else none
  else none

/-- The setting that a variable with this text asks for. -/
def Variable.value? (x : Variable) (raw : String) : Option Value :=
  match x.kind with
  | .port => (portOf? raw).map fun n => .int n
  | .text => some (.str raw)

/-- The environment: a text for each variable that is set. -/
abbrev Environment := List (String × String)

/--
Applies the given variables in order: the tree, and how many were set, or the first that holds no
setting of its kind. The tree keeps what was applied before an error.
-/
def applyVariables (env : Environment) : List Variable → Nat → Value →
    Value × Except ConfigError Nat
  | [], n, tree => (tree, .ok n)
  | x :: rest, n, tree =>
    match env.lookup x.name with
    | none => applyVariables env rest n tree
    | some raw =>
      match x.value? raw with
      | none => (tree, .error (.invalid (dotted x.path) (.notAPort x.name raw)))
      | some v => applyVariables env rest (n + 1) (setPath tree x.path v)

/-- Applies the environment to a tree. -/
def applyEnvironment (tree : Value) (env : Environment) : Value × Except ConfigError Nat :=
  applyVariables env knownVariables 0 tree

end AppletHost.Config

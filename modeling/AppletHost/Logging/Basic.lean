import AppletHost.Config.Basic
import AppletHost.Text.Search
import AppletHost.Value.Record

/-!
# Log output

How log lines are filtered, what they look like and where they go.
-/

namespace AppletHost.Logging

/-- What a log line looks like. -/
inductive Format where
  | pretty | compact | json | full
deriving DecidableEq, Repr, Inhabited

/-- The name of a format. -/
def Format.name : Format → String
  | .pretty => "pretty"
  | .compact => "compact"
  | .json => "json"
  | .full => "full"

/-- The format of that name, in lower case. -/
def Format.ofName? (name : String) : Option Format :=
  [Format.pretty, .compact, .json, .full].find? fun format => format.name = name

/-- Why logging cannot be set up. -/
inductive LogError where
  | unknownFormat (name : String)
  | badFilter
  | alreadySetUp
deriving DecidableEq, Repr, Inhabited

/-- The text of the error, where it has one of its own. -/
def LogError.message? : LogError → Option String
  | .unknownFormat name => some s!"Configuration error: unknown log format '{name}'"
  | .badFilter => none
  | .alreadySetUp => none

/-- The format that a text names in any letter case. -/
def Format.parse (text : String) : Except LogError Format :=
  let name := String.ofList (Text.lowercase text.toList)
  match Format.ofName? name with
  | some format => .ok format
  | none => .error (.unknownFormat name)

/-- Where log lines go. -/
inductive Target where
  | stdout
  | stderr
  | file (dir : String)
deriving DecidableEq, Repr, Inhabited

/-- The target that a value denotes. -/
def Target.decode? : Value → Option Target
  | .obj [("file", .str dir)] => some (.file dir)
  | v => v.constant?.bind fun name =>
    if name = "stdout" then some .stdout else if name = "stderr" then some .stderr else none

/-- The target as a value. -/
def Target.encode : Target → Value
  | .stdout => .str "stdout"
  | .stderr => .str "stderr"
  | .file dir => .obj [("file", .str dir)]

/-- All there is to say about log output. -/
structure LogConfig where
  level : String
  format : Format
  target : Target
  filePrefix : String
  timestamps : Bool
  fileInfo : Bool
  ansi : Bool
  directives : List String
deriving DecidableEq, Repr, Inhabited

namespace LogConfig

/-- Log output when nothing is given. -/
def standard : LogConfig :=
  { level := "info"
    format := .compact
    target := .stderr
    filePrefix := "miniapp"
    timestamps := true
    fileInfo := false
    ansi := true
    directives := [] }

/-- Standard output with another level. -/
def ofLevel (level : String) : LogConfig := { standard with level }

/-- The output that the logging section of a configuration asks for. -/
def ofSection (s : Config.Logging) : Except LogError LogConfig :=
  (Format.parse s.format).map fun format =>
    { standard with level := s.level, format, directives := s.directives }

/-- With another format. -/
def withFormat (c : LogConfig) (format : Format) : LogConfig := { c with format }

/-- With another target; files have no colours. -/
def withTarget (c : LogConfig) (target : Target) : LogConfig :=
  match target with
  | .file _ => { c with target, ansi := false }
  | _ => { c with target }

/-- With one more filter directive. -/
def withDirective (c : LogConfig) (directive : String) : LogConfig :=
  { c with directives := c.directives ++ [directive] }

/-- Without timestamps. -/
def withoutTimestamps (c : LogConfig) : LogConfig := { c with timestamps := false }

/-- Without colours. -/
def withoutAnsi (c : LogConfig) : LogConfig := { c with ansi := false }

/-- The output that a value denotes. -/
def decode? (v : Value) : Option LogConfig := do
  let r ← v.record? 8
  let level ← r.defaulted "level" 0 Value.str? standard.level
  let format ← r.defaulted "format" 1 (fun w => w.constant?.bind Format.ofName?) standard.format
  let target ← r.defaulted "target" 2 Target.decode? standard.target
  let filePrefix ← r.defaulted "file_prefix" 3 Value.str? standard.filePrefix
  let timestamps ← r.defaulted "timestamps" 4 Value.bool? standard.timestamps
  let fileInfo ← r.defaulted "file_info" 5 Value.bool? standard.fileInfo
  let ansi ← r.defaulted "ansi" 6 Value.bool? standard.ansi
  let directives ← r.defaulted "directives" 7 (Value.list? Value.str?) standard.directives
  some { level, format, target, filePrefix, timestamps, fileInfo, ansi, directives }

/-- The output as a value. -/
def encode (c : LogConfig) : Value :=
  .obj [("ansi", .bool c.ansi), ("directives", .arr (c.directives.map .str)),
    ("file_info", .bool c.fileInfo), ("file_prefix", .str c.filePrefix),
    ("format", .str c.format.name), ("level", .str c.level), ("target", c.target.encode),
    ("timestamps", .bool c.timestamps)]

end LogConfig

end AppletHost.Logging

import AppletHost.Number.Word
import AppletHost.Push.Reconnect
import AppletHost.Sandbox.Limits

/-!
# Settings

The settings of a host, in five sections. Whatever a configuration leaves out has its default, down
to the single setting.
-/

namespace AppletHost.Config

/-- Ports are numbers of 16 bits. -/
def lastPort : Nat := 65535

/-- Where the host listens. -/
structure Server where
  host : String
  controlPort : Nat
  pushPort : Nat
  renderPortBase : Nat
  renderPortLimit : Nat
  shutdownGrace : Nat
deriving DecidableEq, Repr, Inhabited

/-- The server section when nothing is given. -/
def Server.standard : Server := ⟨"127.0.0.1", 3000, 3003, 4100, 64, 2000⟩

/-- The last port of the render range, if the range has a port and stays within the ports. -/
def Server.renderPortEnd? (s : Server) : Option Nat :=
  if s.renderPortLimit = 0 then none
  else
    let last := s.renderPortBase + (s.renderPortLimit - 1)
    if last ≤ lastPort then some last else none

/-- What a launch does to the apps that are running. -/
inductive LaunchMode where
  | replace
  | coexist
deriving DecidableEq, Repr, Inhabited

/-- The name of a launch mode. -/
def LaunchMode.name : LaunchMode → String
  | .replace => "replace"
  | .coexist => "coexist"

/-- The launch mode of that name. -/
def LaunchMode.ofName? (name : String) : Option LaunchMode :=
  [LaunchMode.replace, .coexist].find? fun mode => mode.name = name

/-- Where apps are, what their files are called and how they are launched. -/
structure Apps where
  dir : String
  launchMode : LaunchMode
  templateFile : String
  scriptFile : String
  styleFile : String
deriving DecidableEq, Repr, Inhabited

/-- The apps section when nothing is given. -/
def Apps.standard : Apps := ⟨"apps", .replace, "app.axml", "app.rhai", "app.axss"⟩

/-- What is logged, and how. -/
structure Logging where
  level : String
  format : String
  directives : List String
deriving DecidableEq, Repr, Inhabited

/-- The logging section when nothing is given. -/
def Logging.standard : Logging := ⟨"info", "compact", []⟩

/-- All settings of a host. -/
structure Settings where
  server : Server
  apps : Apps
  sandbox : Sandbox.Limits
  client : Push.ReconnectPolicy
  logging : Logging
deriving DecidableEq, Repr, Inhabited

/-- The settings when nothing is given. -/
def Settings.standard : Settings :=
  ⟨Server.standard, Apps.standard, Sandbox.Limits.standard, Push.ReconnectPolicy.standard,
    Logging.standard⟩

/-! ## Values -/

/-- The server section that a value denotes. -/
def Server.decode? (v : Value) : Option Server := do
  let r ← v.record? 6
  let port (name : String) (position default : Nat) : Option Nat :=
    r.defaulted name position (Value.natBelow? Number.limit16) default
  let host ← r.defaulted "host" 0 Value.str? standard.host
  let controlPort ← port "control_port" 1 standard.controlPort
  let pushPort ← port "push_port" 2 standard.pushPort
  let renderPortBase ← port "render_port_base" 3 standard.renderPortBase
  let renderPortLimit ← port "render_port_limit" 4 standard.renderPortLimit
  let shutdownGrace ←
    r.defaulted "shutdown_grace_ms" 5 (Value.natBelow? Number.limit64) standard.shutdownGrace
  some ⟨host, controlPort, pushPort, renderPortBase, renderPortLimit, shutdownGrace⟩

/-- The apps section that a value denotes; `constant?` says how a value names a launch mode. -/
def Apps.decode? (constant? : Value → Option String) (v : Value) : Option Apps := do
  let r ← v.record? 5
  let dir ← r.defaulted "dir" 0 Value.str? standard.dir
  let launchMode ← r.defaulted "launch_mode" 1
    (fun w => (constant? w).bind LaunchMode.ofName?) standard.launchMode
  let templateFile ← r.defaulted "template_file" 2 Value.str? standard.templateFile
  let scriptFile ← r.defaulted "script_file" 3 Value.str? standard.scriptFile
  let styleFile ← r.defaulted "style_file" 4 Value.str? standard.styleFile
  some ⟨dir, launchMode, templateFile, scriptFile, styleFile⟩

/-- The client section that a value denotes. -/
def decodeClient? (v : Value) : Option Push.ReconnectPolicy := do
  let r ← v.record? 2
  let standard := Push.ReconnectPolicy.standard
  let baseDelay ←
    r.defaulted "base_delay_ms" 0 (Value.natBelow? Number.limit64) standard.baseDelay.milliseconds
  let maxAttempts ←
    r.defaulted "max_attempts" 1 (Value.natBelow? Number.limit32) standard.maxAttempts
  Push.ReconnectPolicy.ofFields? baseDelay maxAttempts

/-- The logging section that a value denotes. -/
def Logging.decode? (v : Value) : Option Logging := do
  let r ← v.record? 3
  let level ← r.defaulted "level" 0 Value.str? standard.level
  let format ← r.defaulted "format" 1 Value.str? standard.format
  let directives ← r.defaulted "directives" 2 (Value.list? Value.str?) standard.directives
  some ⟨level, format, directives⟩

/-- The settings that a value denotes. -/
def Settings.decode? (constant? : Value → Option String) (v : Value) : Option Settings := do
  let r ← v.record? 5
  let server ← r.defaulted "server" 0 Server.decode? standard.server
  let apps ← r.defaulted "apps" 1 (Apps.decode? constant?) standard.apps
  let sandbox ← r.defaulted "sandbox" 2 Sandbox.Limits.decode? standard.sandbox
  let client ← r.defaulted "client" 3 decodeClient? standard.client
  let logging ← r.defaulted "logging" 4 Logging.decode? standard.logging
  some ⟨server, apps, sandbox, client, logging⟩

/-- The server section as a value. -/
def Server.encode (s : Server) : Value :=
  .obj [("control_port", .int s.controlPort), ("host", .str s.host),
    ("push_port", .int s.pushPort), ("render_port_base", .int s.renderPortBase),
    ("render_port_limit", .int s.renderPortLimit), ("shutdown_grace_ms", .int s.shutdownGrace)]

/-- The apps section as a value. -/
def Apps.encode (a : Apps) : Value :=
  .obj [("dir", .str a.dir), ("launch_mode", .str a.launchMode.name),
    ("script_file", .str a.scriptFile), ("style_file", .str a.styleFile),
    ("template_file", .str a.templateFile)]

/-- The logging section as a value. -/
def Logging.encode (l : Logging) : Value :=
  .obj [("directives", .arr (l.directives.map .str)), ("format", .str l.format),
    ("level", .str l.level)]

/-- The settings as a value. -/
def Settings.encode (s : Settings) : Value :=
  .obj [("apps", s.apps.encode), ("client", s.client.encode), ("logging", s.logging.encode),
    ("sandbox", s.sandbox.encode), ("server", s.server.encode)]

end AppletHost.Config

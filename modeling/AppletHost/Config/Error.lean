import AppletHost.Config.Basic
import AppletHost.Number.Numeral

/-!
# What can be wrong with a configuration

A file that cannot be read, a text or tree that is no configuration, and settings that make no
sense.
-/

namespace AppletHost.Config

/-- Where a configuration comes from. -/
inductive Source where
  | user
  | explicit
  | merged
deriving DecidableEq, Repr, Inhabited

/-- Levels of logging, the most detailed first. -/
def logLevels : List String := ["trace", "debug", "info", "warn", "error"]

/-- Formats of logging. -/
def logFormats : List String := ["pretty", "compact", "json", "full"]

/-- Largest configuration file, in bytes. -/
def maxFileSize : Nat := 1048576

/-- Why a setting makes no sense. -/
inductive Fault where
  | fileTooLarge (size : Nat)
  | notAPort (variableName raw : String)
  | emptyHost
  | zeroPort
  | pushIsControl (port : Nat)
  | noRenderPorts
  | rangeTooLong (base limit : Nat)
  | rangeTaken (base last : Nat) (name : String) (port : Nat)
  | notPlainName (name : String)
  | noAttempts
  | unknownLevel (name : String)
  | unknownFormat (name : String)
deriving DecidableEq, Repr, Inhabited

/-- The text of the fault. -/
def Fault.message : Fault → String
  | .fileTooLarge size =>
    s!"config file is {size} bytes, exceeding the {maxFileSize} byte limit"
  | .notAPort variableName raw => s!"{variableName}='{raw}' is not a port number"
  | .emptyHost => "must not be empty"
  | .zeroPort => "port must be non-zero"
  | .pushIsControl port => s!"collides with control_port {port}"
  | .noRenderPorts => "must be at least 1"
  | .rangeTooLong base limit =>
    s!"range starting at {base} with {limit} ports runs past {lastPort}"
  | .rangeTaken base last name port => s!"render range {base}-{last} overlaps {name} {port}"
  | .notPlainName name => s!"'{name}' must be a plain file name"
  | .noAttempts => "must be at least 1"
  | .unknownLevel name =>
    s!"unknown level '{name}'; expected one of: " ++ ", ".intercalate logLevels
  | .unknownFormat name =>
    s!"unknown format '{name}'; expected one of: " ++ ", ".intercalate logFormats

/-- Why there is no configuration. -/
inductive ConfigError where
  | unreadable (file : Source)
  | malformed (source : Source)
  | tooLarge (file : Source) (size : Nat)
  | invalid (setting : String) (fault : Fault)
deriving DecidableEq, Repr, Inhabited

/-- The name of a source. -/
def Source.name : Source → String
  | .user => "user"
  | .explicit => "explicit"
  | .merged => "<merged config>"

namespace ConfigError

/-- The file or the setting that the error is about. -/
def subject : ConfigError → String
  | .unreadable file => file.name
  | .malformed source => source.name
  | .tooLarge file _ => file.name
  | .invalid setting _ => setting

/-- What is wrong with the value of the subject, if that is the error. -/
def fault? : ConfigError → Option Fault
  | .tooLarge _ size => some (.fileTooLarge size)
  | .invalid _ fault => some fault
  | _ => none

/-- The text of an error about a value. -/
def message? (e : ConfigError) : Option String :=
  e.fault?.map fun fault => s!"invalid config value for {e.subject}: {fault.message}"

end ConfigError

end AppletHost.Config

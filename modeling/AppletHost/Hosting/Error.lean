import AppletHost.Bridge.Reply
import AppletHost.Hosting.Files

/-!
# Errors of the host
-/

namespace AppletHost.Hosting

/-- Why an operation of the host failed. -/
inductive HostError where
  | appNotFound (name : String)
  /-- The operation is about the active app, and none is active. -/
  | noActiveApp
  | portsExhausted (base stop : Nat)
  /-- The sandbox is disposed. -/
  | sandboxDisposed
  /-- The sandbox cannot be started, for this reason. -/
  | sandboxFailed (reason : String)
  | bridge (error : Bridge.RequestError)
  | file (fault : FileFault)
  /-- A socket cannot be used, for this reason. -/
  | socket (reason : String)
deriving DecidableEq, Repr, Inhabited

/-- The text of the error. -/
def HostError.message : HostError → String
  | .appNotFound name => "App not found: " ++ name
  | .noActiveApp => "No active app instance"
  | .portsExhausted base stop =>
    "No free render port in " ++ Nat.repr base ++ ".." ++ Nat.repr stop
  | .sandboxDisposed => "Sandbox error: sandbox disposed"
  | .sandboxFailed reason => "Sandbox error: " ++ reason
  | .bridge error => "Bridge error: " ++ error.message
  | .file fault => "I/O error: " ++ fault.message
  | .socket reason => "I/O error: " ++ reason

end AppletHost.Hosting

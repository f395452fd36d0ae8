/-!
# Lifecycle hooks

An app may declare a callback for each of four moments of its life. They are called by the host and
never by name, so they are no methods of the app.
-/

namespace AppletHost.Sandbox

/-- The moments of an app's life. -/
inductive Hook where
  /-- Once, right after the app registered. -/
  | launch
  /-- The app became visible. -/
  | show
  /-- The app was hidden. -/
  | hide
  /-- A call committed data. -/
  | update
deriving DecidableEq, Repr, Inhabited

namespace Hook

/-- The name under which an app declares the callback. -/
def name : Hook → String
  | .launch => "onLaunch"
  | .show => "onShow"
  | .hide => "onHide"
  | .update => "onUpdate"

/-- The hook of that name. -/
def ofName? (name : String) : Option Hook :=
  [Hook.launch, .show, .hide, .update].find? fun hook => hook.name = name

theorem ofName?_name (hook : Hook) : ofName? hook.name = some hook := by
  cases hook <;> decide

end Hook

end AppletHost.Sandbox

import AppletHost.Number.Duration
import AppletHost.Value.Record

/-!
# Reconnecting

After the n-th failure in a row a client waits n times the base delay and tries again, at most
`maxAttempts` times; the failure after that ends it. An opened connection starts the count anew.
-/

namespace AppletHost.Push

open Number (Duration)

/-- How a client reconnects. -/
structure ReconnectPolicy where
  baseDelay : Duration
  /-- A count of 32 bits. -/
  maxAttempts : Nat
  maxAttempts_lt : maxAttempts < Number.limit32 := by decide
deriving DecidableEq, Repr

namespace ReconnectPolicy

/-- The policy when none is given. -/
def standard : ReconnectPolicy := { baseDelay := .ofMilliseconds 1000, maxAttempts := 5 }

instance : Inhabited ReconnectPolicy := ⟨standard⟩

/-- The policy of a base delay in milliseconds and a count, if the count has 32 bits. -/
def ofFields? (baseDelay maxAttempts : Nat) : Option ReconnectPolicy :=
  if h : maxAttempts < Number.limit32 then some ⟨.ofMilliseconds baseDelay, maxAttempts, h⟩ else none

/-- The policy that a value denotes. -/
def decode? (v : Value) : Option ReconnectPolicy := do
  let r ← v.record? 2
  let baseDelay ← r.required "base_delay_ms" 0 (Value.natBelow? Number.limit64)
  let maxAttempts ← r.required "max_attempts" 1 (Value.natBelow? Number.limit32)
  ofFields? baseDelay maxAttempts

/-- The policy as a value. A delay of more milliseconds than 64 bits hold is written as the most that
they do. -/
def encode (p : ReconnectPolicy) : Value :=
  .obj [("base_delay_ms", .int (min p.baseDelay.milliseconds (Number.limit64 - 1) : Nat)),
    ("max_attempts", .int p.maxAttempts)]

end ReconnectPolicy

/-- What to do after a failure. -/
inductive ReconnectDecision where
  /-- Try again after the delay. -/
  | retry (delay : Duration)
  | giveUp
deriving DecidableEq, Repr, Inhabited

/-- The failures in a row so far, and the policy that limits them. -/
structure ReconnectState where
  policy : ReconnectPolicy
  attempts : Nat := 0
deriving DecidableEq, Repr, Inhabited

namespace ReconnectState

/-- The connection opened. -/
def onOpen (s : ReconnectState) : ReconnectState := { s with attempts := 0 }

/-- The connection failed or closed. -/
def onFailure (s : ReconnectState) : ReconnectDecision × ReconnectState :=
  if s.policy.maxAttempts ≤ s.attempts then (.giveUp, s)
  else
    let attempts := min (s.attempts + 1) (Number.limit32 - 1)
    (.retry (s.policy.baseDelay.times attempts), { s with attempts })

end ReconnectState

end AppletHost.Push

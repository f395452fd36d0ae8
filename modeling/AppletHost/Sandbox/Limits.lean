import AppletHost.Number.Word
import AppletHost.Value.Record

/-!
# Limits of a sandbox

How much work, memory and how many timers the logic of one app may use. The first three limits, on work,
are part of the settings only: what runs here does not count operations, calls or the depth of
expressions.
-/

namespace AppletHost.Sandbox

/-- The limits of one sandbox; sizes in bytes or items, times in milliseconds. -/
structure Limits where
  maxOperations : Nat
  maxCallLevels : Nat
  maxExprDepth : Nat
  maxStringSize : Nat
  maxArraySize : Nat
  maxMapSize : Nat
  maxTimers : Nat
  minTimerInterval : Nat
deriving DecidableEq, Repr, Inhabited

namespace Limits

/-- The limits when none are given. -/
def standard : Limits :=
  { maxOperations := 1000000
    maxCallLevels := 64
    maxExprDepth := 64
    maxStringSize := 1048576
    maxArraySize := 10000
    maxMapSize := 10000
    maxTimers := 64
    minTimerInterval := 10 }

/-- The limits that a value denotes; what it does not name is as in `standard`. -/
def decode? (v : Value) : Option Limits := do
  let r ← v.record? 8
  let limit (name : String) (position default : Nat) : Option Nat :=
    r.defaulted name position (Value.natBelow? Number.limit64) default
  let maxOperations ← limit "max_operations" 0 standard.maxOperations
  let maxCallLevels ← limit "max_call_levels" 1 standard.maxCallLevels
  let maxExprDepth ← limit "max_expr_depth" 2 standard.maxExprDepth
  let maxStringSize ← limit "max_string_size" 3 standard.maxStringSize
  let maxArraySize ← limit "max_array_size" 4 standard.maxArraySize
  let maxMapSize ← limit "max_map_size" 5 standard.maxMapSize
  let maxTimers ← limit "max_timers" 6 standard.maxTimers
  let minTimerInterval ← limit "min_timer_interval_ms" 7 standard.minTimerInterval
  some { maxOperations, maxCallLevels, maxExprDepth, maxStringSize, maxArraySize, maxMapSize,
         maxTimers, minTimerInterval }

/-- The limits as a value. -/
def encode (l : Limits) : Value :=
  .obj [("max_array_size", .int l.maxArraySize), ("max_call_levels", .int l.maxCallLevels),
    ("max_expr_depth", .int l.maxExprDepth), ("max_map_size", .int l.maxMapSize),
    ("max_operations", .int l.maxOperations), ("max_string_size", .int l.maxStringSize),
    ("max_timers", .int l.maxTimers), ("min_timer_interval_ms", .int l.minTimerInterval)]

end Limits

end AppletHost.Sandbox

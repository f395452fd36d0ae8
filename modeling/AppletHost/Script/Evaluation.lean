import AppletHost.Script.Run

/-!
# Running programs

What a program does as a run. Every definition recurses on the text of the program.

A block has the value of its last statement; a closure has the value it yields, or else that of its
block. Of the limits, those on sizes are kept here. How many operations a run takes, and how deep its
calls and expressions go, is left out: `maxOperations`, `maxCallLevels` and `maxExprDepth` are not read,
and the one run that is stopped is the loop that never ends, whatever the limit on operations.
-/

namespace AppletHost.Script

/-! ## Functions of the host -/

/-- The functions that the host offers to programs. -/
inductive Capability where
  | setData
  | register
  | setTimer (repeats : Bool)
  | clearTimer
  | print
  | debug
deriving DecidableEq, Repr, Inhabited

/-- The function that a program calls by this name. -/
def Capability.ofName? : String → Option Capability
  | "setData" => some .setData
  | "App" => some .register
  | "setTimeout" => some (.setTimer false)
  | "setInterval" => some (.setTimer true)
  | "clearTimeout" => some .clearTimer
  | "clearInterval" => some .clearTimer
  | "print" => some .print
  | "debug" => some .debug
  | _ => none

/-- Calls a function of the host; `none` if it takes no such arguments. -/
def Capability.call? : Capability → List Datum → Option (Run Datum)
  | .setData, [.map update] => some (.ask (.setData update))
  | .register, [.map app] => some (.ask (.register app))
  | .setTimer repeats, [callback, .int delay] =>
    callback.closure?.map fun closure => .ask (.addTimer closure delay repeats)
  | .clearTimer, [.int id] => some (.ask (.clearTimer id))
  | .clearTimer, [.unit] => some (.done .unit)
  | .print, [d] => some (.ask (.log .log [.str d.display]))
  | .debug, [d] => some (.ask (.log .info [.str d.debug]))
  | _, _ => none

/-- Calls a function by name. -/
def callByName (name : String) (args : List Datum) : Run Datum :=
  match (Capability.ofName? name).bind (·.call? args) with
  | some run => run
  | none => .fault (.functionNotFound name)

/-- The most arguments a method of the console takes. -/
def consoleArity : Nat := 4

/-- Calls a method of the console. -/
def callConsole (method : String) (args : List Datum) : Run Datum :=
  match LogLevel.ofName? method with
  | some level =>
    if 1 ≤ args.length ∧ args.length ≤ consoleArity then .ask (.log level args)
    else .fault (.functionNotFound method)
  | none => .fault (.functionNotFound method)

/-! ## Statements -/

/-- Where a statement leaves its block: at a value, or with the value of the whole closure. -/
inductive Flow where
  | value (d : Datum)
  | yielded (d : Datum)
deriving Inhabited

/-- The value that a closure has when its block ends so. -/
def Flow.result : Flow → Datum
  | .value d => d
  | .yielded d => d

/-- Assigns a property of `this`, or a property of that property. -/
def assignSelf (name : String) (inner : Option String) (v : Datum) : Run Unit := do
  let self ← Run.self
  let property ← match inner with
    | none => pure v
    | some inner => do
      let old ← Run.require (self.follow [name])
      Run.require (old.assign inner v)
  let changed ← Run.require (self.assign name property)
  Run.setSelf changed

mutual

/-- The value of a term, with the variables it may use. -/
def Term.eval (vars : Fields Datum) : Term → Run Datum
  | .literal v => pure (.ofValue v)
  | .variable name =>
    match Fields.get? vars name with
    | some d => pure d
    | none => .fault (.variableNotFound name)
  | .self path => do
    let self ← Run.self
    Run.require (self.follow path)
  | .operate op a b => do
    let x ← a.eval vars
    let y ← b.eval vars
    .limits fun limits => Run.require (op.apply limits x y)
  | .array items => do
    let items ← Term.evalAll vars items
    Run.bounded (.array items)
  | .record fields => do
    let fields ← Term.evalFields vars fields
    Run.bounded (.map (Fields.ofList fields))
  | .closure params body => pure (.closure params body vars)
  | .call name args => do
    let args ← Term.evalAll vars args
    callByName name args
  | .console method args => do
    let args ← Term.evalAll vars args
    callConsole method args

/-- The values of terms, from left to right. -/
def Term.evalAll (vars : Fields Datum) : List Term → Run (List Datum)
  | [] => pure []
  | t :: ts => do
    let d ← t.eval vars
    let ds ← Term.evalAll vars ts
    pure (d :: ds)

/-- The values of the fields of a record, from first to last. -/
def Term.evalFields (vars : Fields Datum) : List (String × Term) → Run (List (String × Datum))
  | [] => pure []
  | (name, t) :: rest => do
    let d ← t.eval vars
    let ds ← Term.evalFields vars rest
    pure ((name, d) :: ds)

/-- Runs a statement: where it leaves the block, and the variables from then on. -/
def Statement.exec (vars : Fields Datum) : Statement → Run (Flow × Fields Datum)
  | .evaluate t => do
    let d ← t.eval vars
    pure (.value d, vars)
  | .assign name inner t => do
    let d ← t.eval vars
    assignSelf name inner d
    pure (.value .unit, vars)
  | .define name t => do
    let d ← t.eval vars
    pure (.value .unit, (name, d) :: vars)
  | .branch condition yes no => do
    let d ← condition.eval vars
    match d with
    | .bool true => do
      let flow ← Statement.execAll vars yes
      pure (flow, vars)
    | .bool false => do
      let flow ← Statement.execAll vars no
      pure (flow, vars)
    | d => .fault (.notBoolean d.typeName)
  | .raise t => do
    let d ← t.eval vars
    .fault (.raised d)
  | .yield t => do
    let d ← t.eval vars
    pure (.yielded d, vars)
  | .spin => .fault .tooManyOperations

/-- Runs a block. -/
def Statement.execAll (vars : Fields Datum) : List Statement → Run Flow
  | [] => pure (.value .unit)
  | s :: rest => do
    let (flow, vars) ← s.exec vars
    match flow, rest with
    | .yielded d, _ => pure (.yielded d)
    | flow, [] => pure flow
    | _, _ => Statement.execAll vars rest

end

/-- Runs a program from top to bottom. -/
def Program.run (p : Program) : Run Datum := do
  let flow ← Statement.execAll [] p
  pure flow.result

/-- Calls a closure; it takes as many arguments as it has parameters. -/
def Closure.apply (c : Closure) (args : List Datum) : Run Datum :=
  if args.length = c.params.length then do
    let flow ← Statement.execAll (c.params.zip args ++ c.captured) c.body
    pure flow.result
  else .fault (.functionNotFound closureName)

end AppletHost.Script

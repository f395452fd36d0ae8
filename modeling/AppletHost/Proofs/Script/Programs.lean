import AppletHost.Script.Evaluation
import AppletHost.Proofs.Script.Runs

/-!
# What programs ask for

The statements of a program touch the host only where they call one of its functions. An assignment or
a read asks for nothing beyond what its terms ask for (`calls_assign`, `exec_self`), a call of `setData`
asks for just that (`calls_setData`), and

> `Closure.only_apply`: whatever a callback meets, it does not use `setData` unless its text calls it,
> and it leaves `this` bound to a map.

The text of a closure inside the text does not count, for there is no way to call it from there.
-/

namespace AppletHost.Script

open Sandbox (HostCall)
open Run (calls_bind_of_silent calls_require)

/-! ## Statements -/

/-- To assign a property of `this` is no use of the host. -/
theorem calls_assignSelf (name : String) (inner : Option String) (v : Datum) (scene : Scene) :
    (assignSelf name inner v).calls scene = [] := by
  have hset : ∀ changed scene, (Run.setSelf changed).calls scene = [] := fun _ _ => rfl
  have hassign : ∀ (self property : Datum) (scene : Scene),
      ((Run.require (self.assign name property)) >>= Run.setSelf).calls scene = [] := by
    intro self property scene
    rw [calls_bind_of_silent _ hset, calls_require]
  unfold assignSelf
  rw [calls_bind_of_silent, Run.calls_self]
  intro self scene
  cases inner with
  | none => exact hassign self v scene
  | some inner =>
    dsimp only
    rw [calls_bind_of_silent, calls_require]
    intro old scene
    rw [calls_bind_of_silent _ (hassign self), calls_require]

/-- An assignment to `this` asks for what its term asks for. -/
theorem calls_assign (vars : Fields Datum) (name : String) (inner : Option String) (t : Term)
    (scene : Scene) :
    ((Statement.assign name inner t).exec vars).calls scene = (t.eval vars).calls scene := by
  rw [Statement.exec]
  refine calls_bind_of_silent _ fun d scene => ?_
  rw [calls_bind_of_silent _ fun _ _ => rfl, calls_assignSelf]

/-- To read `this`, or a property of it, asks for nothing, and leaves the scene as it is. -/
theorem exec_self (vars : Fields Datum) (path : List String) (scene : Scene) :
    ((Term.self path).eval vars).calls scene = [] ∧
      (((Term.self path).eval vars).exec scene).2 = scene := by
  rw [Term.eval]
  refine ⟨?_, ?_⟩
  · rw [calls_bind_of_silent _ fun _ _ => calls_require _ _, Run.calls_self]
  · rw [Run.exec_bind]
    obtain ⟨session, self⟩ := scene
    cases self with
    | none => rfl
    | some d =>
      show ((Run.require (d.follow path)).exec _).2 = _
      cases d.follow path with
      | ok v => rfl
      | error e => rfl

/-- A call of `setData` asks for that, once its argument is there. -/
theorem calls_setData (update : Fields Datum) (scene : Scene) :
    (callByName "setData" [.map update]).calls scene = [.setData update] :=
  Run.calls_ask _ _

/-! ## What is called -/

namespace Run

variable {α β : Type}

/-- Whatever the run meets, it uses the host in allowed ways only, and binds `this` to maps only. -/
def Only (allowed : HostCall → Prop) : Run α → Prop
  | .done _ => True
  | .fault _ => True
  | .look next => ∀ self, (next self).Only allowed
  | .rebind d next => (∃ fields, d = .map fields) ∧ next.Only allowed
  | .limits next => ∀ limits, (next limits).Only allowed
  | .use call next => allowed call ∧ ∀ result, (next result).Only allowed

variable {allowed : HostCall → Prop}

/-- A run that goes on with another calls only what the two of them call. -/
theorem Only.bind {r : Run α} {f : α → Run β} (h : r.Only allowed)
    (hf : ∀ a, (f a).Only allowed) : (r >>= f).Only allowed := by
  show (r.bind f).Only allowed
  induction r with
  | done a => exact hf a
  | fault e => trivial
  | look next ih => exact fun self => ih self (h self)
  | rebind d next ih => exact ⟨h.1, ih h.2⟩
  | limits next ih => exact fun limits => ih limits (h limits)
  | use call next ih => exact ⟨h.1, fun result => ih result (h.2 result)⟩

theorem only_require (result : Except Fault α) : (require result).Only allowed := by
  cases result <;> trivial

theorem only_self : self.Only allowed := by
  rintro (_ | d) <;> trivial

theorem only_bounded (d : Datum) : (bounded d).Only allowed := fun _ => only_require _

theorem only_ask {call : HostCall} (h : allowed call) : (ask call).Only allowed :=
  ⟨h, fun _ => only_require _⟩

/-- Every use that is made is an allowed one, whatever the host answers on the way. -/
theorem Only.calls {r : Run α} (h : r.Only allowed) (scene : Scene) :
    ∀ call ∈ r.calls scene, allowed call := by
  induction r generalizing scene with
  | done a | fault e => exact List.forall_mem_nil _
  | look next ih => exact ih scene.self (h scene.self) scene
  | rebind d next ih => exact ih h.2 _
  | limits next ih => exact ih scene.session.limits (h _) scene
  | use call next ih => exact List.forall_mem_cons.2 ⟨h.1, ih _ (h.2 _) _⟩

/-- Where `this` was a map it still is one. A fault on the way does not matter, as what was bound
before it stays bound. -/
theorem Only.exec_self {r : Run α} (h : r.Only allowed) {scene : Scene} {fields : Fields Datum}
    (hself : scene.self = some (.map fields)) :
    ∃ fields', (r.exec scene).2.self = some (.map fields') := by
  induction r generalizing scene fields with
  | done a | fault e => exact ⟨fields, hself⟩
  | look next ih => exact ih scene.self (h scene.self) hself
  | rebind d next ih =>
    obtain ⟨⟨fields', rfl⟩, hnext⟩ := h
    have hbound : (scene.self.map fun _ => Datum.map fields') = some (.map fields') := by
      rw [hself]
      rfl
    exact ih hnext hbound
  | limits next ih => exact ih scene.session.limits (h _) hself
  | use call next ih => exact ih _ (h.2 _) hself

end Run

mutual

/-- The functions that a term calls when it is evaluated, by name. -/
def Term.called : Term → List String
  | .literal _ => []
  | .variable _ => []
  | .self _ => []
  | .operate _ a b => a.called ++ b.called
  | .array items => Term.allCalled items
  | .record fields => Term.fieldsCalled fields
  | .closure _ _ => []
  | .call name args => name :: Term.allCalled args
  | .console _ args => Term.allCalled args

/-- `Term.called` term by term. -/
def Term.allCalled : List Term → List String
  | [] => []
  | t :: ts => t.called ++ Term.allCalled ts

/-- `Term.called` field by field. -/
def Term.fieldsCalled : List (String × Term) → List String
  | [] => []
  | (_, t) :: rest => t.called ++ Term.fieldsCalled rest

/-- The functions that a statement may call when it is run, by name. -/
def Statement.called : Statement → List String
  | .evaluate t => t.called
  | .assign _ _ t => t.called
  | .define _ t => t.called
  | .branch condition yes no =>
    condition.called ++ (Statement.allCalled yes ++ Statement.allCalled no)
  | .raise t => t.called
  | .yield t => t.called
  | .spin => []

/-- `Statement.called` statement by statement. -/
def Statement.allCalled : List Statement → List String
  | [] => []
  | s :: rest => s.called ++ Statement.allCalled rest

end

/-- `setData` is used only if it is one of these names. -/
def Covers (names : List String) : HostCall → Prop
  | .setData _ => "setData" ∈ names
  | _ => True

section Covers

variable {names : List String}

/-- A call by name reaches the host function of that name, and none if the name belongs to no host
function. -/
theorem only_callByName {name : String} (hname : name ∈ names) (args : List Datum) :
    (callByName name args).Only (Covers names) := by
  unfold callByName
  split
  next r hfound =>
    obtain ⟨capability, hcapability, hcall⟩ := Option.bind_eq_some_iff.mp hfound
    unfold Capability.call? at hcall
    split at hcall
    next =>
      -- of all names only one stands for `setData`
      cases hcall
      have hset : name = "setData" := by
        unfold Capability.ofName? at hcapability
        split at hcapability <;> first | rfl | cases hcapability
      rw [hset] at hname
      exact Run.only_ask hname
    next =>
      cases hcall
      exact Run.only_ask trivial
    next =>
      obtain ⟨closure, -, rfl⟩ := Option.map_eq_some_iff.1 hcall
      exact Run.only_ask trivial
    next =>
      cases hcall
      exact Run.only_ask trivial
    next =>
      cases hcall
      trivial
    next =>
      cases hcall
      exact Run.only_ask trivial
    next =>
      cases hcall
      exact Run.only_ask trivial
    next => cases hcall
  next => trivial

/-- The console is always at hand, and counts as covered. -/
theorem only_callConsole (method : String) (args : List Datum) :
    (callConsole method args).Only (Covers names) := by
  unfold callConsole
  split
  · split
    · exact Run.only_ask trivial
    · trivial
  · trivial

/-- An assignment to `this` is not a call, whatever is assigned and how deep. -/
theorem only_assignSelf (name : String) (inner : Option String) (v : Datum) :
    (assignSelf name inner v).Only (Covers names) := by
  have hassign : ∀ self property : Datum,
      ((Run.require (self.assign name property)) >>= Run.setSelf).Only (Covers names) := by
    intro self property
    cases self with
    | map fields => exact ⟨⟨_, rfl⟩, trivial⟩
    | _ => trivial
  refine Run.only_self.bind fun self => ?_
  cases inner with
  | none => exact hassign self v
  | some inner => exact (Run.only_require _).bind fun old =>
      (Run.only_require _).bind fun property => hassign self property

mutual

/-- The induction is on the term: it calls what its parts call, and the function whose name it has. -/
theorem Term.only_eval (vars : Fields Datum) :
    (t : Term) → t.called ⊆ names → (t.eval vars).Only (Covers names)
  | .literal v, _ => by
    rw [Term.eval]
    trivial
  | .variable name, _ => by
    rw [Term.eval]
    split <;> trivial
  | .self path, _ => by
    rw [Term.eval]
    exact Run.only_self.bind fun _ => Run.only_require _
  | .operate op a b, h => by
    rw [Term.called, List.append_subset] at h
    rw [Term.eval]
    exact (Term.only_eval vars a h.1).bind fun _ =>
      (Term.only_eval vars b h.2).bind fun _ _ => Run.only_require _
  | .array items, h => by
    rw [Term.called] at h
    rw [Term.eval]
    exact (Term.only_evalAll vars items h).bind fun _ => Run.only_bounded _
  | .record fields, h => by
    rw [Term.called] at h
    rw [Term.eval]
    exact (Term.only_evalFields vars fields h).bind fun _ => Run.only_bounded _
  | .closure params body, _ => by
    rw [Term.eval]
    trivial
  | .call name args, h => by
    rw [Term.called, List.cons_subset] at h
    rw [Term.eval]
    exact (Term.only_evalAll vars args h.2).bind fun _ => only_callByName h.1 _
  | .console method args, h => by
    rw [Term.called] at h
    rw [Term.eval]
    exact (Term.only_evalAll vars args h).bind fun _ => only_callConsole method _

theorem Term.only_evalAll (vars : Fields Datum) :
    (ts : List Term) → Term.allCalled ts ⊆ names → (Term.evalAll vars ts).Only (Covers names)
  | [], _ => by
    rw [Term.evalAll]
    trivial
  | t :: ts, h => by
    rw [Term.allCalled, List.append_subset] at h
    rw [Term.evalAll]
    exact (Term.only_eval vars t h.1).bind fun _ =>
      (Term.only_evalAll vars ts h.2).bind fun _ => trivial

theorem Term.only_evalFields (vars : Fields Datum) :
    (fs : List (String × Term)) → Term.fieldsCalled fs ⊆ names →
      (Term.evalFields vars fs).Only (Covers names)
  | [], _ => by
    rw [Term.evalFields]
    trivial
  | (_, t) :: rest, h => by
    rw [Term.fieldsCalled, List.append_subset] at h
    rw [Term.evalFields]
    exact (Term.only_eval vars t h.1).bind fun _ =>
      (Term.only_evalFields vars rest h.2).bind fun _ => trivial

/-- A statement calls what its terms call, and a branch what is called in either of its blocks. -/
theorem Statement.only_exec (vars : Fields Datum) :
    (s : Statement) → s.called ⊆ names → (s.exec vars).Only (Covers names)
  | .evaluate t, h => by
    rw [Statement.called] at h
    rw [Statement.exec]
    exact (Term.only_eval vars t h).bind fun _ => trivial
  | .assign name inner t, h => by
    rw [Statement.called] at h
    rw [Statement.exec]
    exact (Term.only_eval vars t h).bind fun _ =>
      (only_assignSelf name inner _).bind fun _ => trivial
  | .define name t, h => by
    rw [Statement.called] at h
    rw [Statement.exec]
    exact (Term.only_eval vars t h).bind fun _ => trivial
  | .branch condition yes no, h => by
    rw [Statement.called, List.append_subset, List.append_subset] at h
    rw [Statement.exec]
    refine (Term.only_eval vars condition h.1).bind fun d => ?_
    split
    · exact (Statement.only_execAll vars yes h.2.1).bind fun _ => trivial
    · exact (Statement.only_execAll vars no h.2.2).bind fun _ => trivial
    · trivial
  | .raise t, h => by
    rw [Statement.called] at h
    rw [Statement.exec]
    exact (Term.only_eval vars t h).bind fun _ => trivial
  | .yield t, h => by
    rw [Statement.called] at h
    rw [Statement.exec]
    exact (Term.only_eval vars t h).bind fun _ => trivial
  | .spin, _ => by
    rw [Statement.exec]
    trivial

/-- A block calls what its statements call, one after another. -/
theorem Statement.only_execAll (vars : Fields Datum) :
    (block : List Statement) → Statement.allCalled block ⊆ names →
      (Statement.execAll vars block).Only (Covers names)
  | [], _ => by
    rw [Statement.execAll]
    trivial
  | s :: rest, h => by
    rw [Statement.allCalled, List.append_subset] at h
    rw [Statement.execAll]
    refine (Statement.only_exec vars s h.1).bind fun result => ?_
    obtain ⟨flow, vars⟩ := result
    dsimp only
    split
    · trivial
    · trivial
    · exact Statement.only_execAll vars rest h.2

end

end Covers

/-- A call of a closure uses `setData` only where the text of its body calls it, and leaves `this` a
map, however it ends. -/
theorem Closure.only_apply (c : Closure) (args : List Datum) :
    (c.apply args).Only (Covers (Statement.allCalled c.body)) := by
  unfold Closure.apply
  split
  · exact (Statement.only_execAll _ c.body (List.Subset.refl _)).bind fun _ => trivial
  · trivial

end AppletHost.Script

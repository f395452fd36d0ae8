import AppletHost.Proofs.Sandbox.Updates
import AppletHost.Proofs.Script.Programs

/-!
# What a call can change

The logic of an app writes to two places: to `this`, and to the committed data by `setData`. Neither
leaks into the other. The data change by what `setData` accepts and by nothing else:

> `Engine.make_refused`: a call in which `setData` accepts nothing leaves the data as they are and
> publishes no change.

And the engine copies `this` in and out of every call, with `data` set to the committed data:

> `Actor.found_in_run`: a call finds what the one before it left, but for `data`; how that one ended
> does not matter.

Both hold of any run. That assignments are no uses of `setData`, and that `this` stays a map, is a fact
about programs (`Closure.only_apply`). The headline is `writes_need_setData`.
-/

namespace AppletHost.Sandbox

open Script (Closure Datum Program Run Statement Term)

/-! ## Data -/

/-- Among these deeds `setData` accepts nothing. -/
def Session.AcceptsNone (s : Session) (deeds : List Deed) : Prop :=
  ∀ earlier update later, deeds = earlier ++ .use (.setData update) :: later →
    ∀ u, ((s.afterAll earlier).setData update).1 ≠ .ok u

/-- Whether `setData` accepts something does not depend on the session. -/
theorem Session.acceptsNone_iff (s : Session) (deeds : List Deed) :
    s.AcceptsNone deeds ↔ accepted deeds = [] := by
  rw [accepted, List.filterMap_eq_nil_iff]
  constructor
  · intro h d hd
    rw [Deed.accepted?.eq_def]
    split
    next update =>
      obtain ⟨earlier, later, hsplit⟩ := List.append_of_mem hd
      cases hplain : Datum.toFields? update with
      | none => rfl
      | some given =>
        refine absurd ?_ (h earlier update later hsplit ())
        rw [Session.setData_eq _ hplain]
    next => rfl
  · rintro h earlier update later rfl
    have hnone := h (.use (.setData update)) (List.mem_append_right _ List.mem_cons_self)
    exact (Session.setData_refused _ hnone).2

/-- Without an update there is no change, neither of the data nor among the events that tell of
changes. -/
theorem Session.Commits.unchanged {s s' : Session} (h : s.Commits [] s') :
    s'.snapshot = s.snapshot ∧ stateLog s'.sent = stateLog s.sent := by
  obtain ⟨hdata, log, hlog, hpatches⟩ := h
  obtain rfl := List.map_eq_nil_iff.1 hpatches
  refine ⟨?_, hlog.trans (List.append_nil _)⟩
  rw [snapshot, hdata]
  rfl

namespace Engine

theorem installs_makeDeeds (e : Engine) (c : TopCall) : ∀ d ∈ e.makeDeeds c, d.installs = false := by
  cases c with
  | method name args =>
    exact fun d hd => Deed.not_installs_of_isOfCall (e.isOfCall_invokeDeeds name args d hd)
  | hook which args =>
    exact fun d hd => Deed.not_installs_of_isOfCall (e.isOfCall_triggerDeeds which args d hd)
  | timer due => exact e.installs_fireDeeds due

/-- A call in which `setData` accepts nothing changes no data and publishes no change. -/
theorem make_refused (e : Engine) (c : TopCall) (h : e.session.AcceptsNone (e.makeDeeds c)) :
    (e.make c).2.snapshot = e.snapshot ∧
      stateLog (e.make c).2.session.sent = stateLog e.session.sent := by
  have hcommits := e.session.commits_deeds fun d hd =>
    Deed.ne_initData (e.installs_makeDeeds c d hd)
  rw [(e.session.acceptsNone_iff _).1 h, ← (e.did_make c).session] at hcommits
  exact hcommits.unchanged

end Engine

/-! ## Callbacks -/

/-- All calls of logic among these deeds are calls of closures. -/
def CallClosures (deeds : List Deed) : Prop :=
  ∀ v ∈ visits deeds, ∃ (callback : Closure) (args : List Datum), v.run = callback.apply args

section CallClosures

variable {deeds deeds' : List Deed}

theorem callClosures_append :
    CallClosures (deeds ++ deeds') ↔ CallClosures deeds ∧ CallClosures deeds' := by
  rw [CallClosures, visits_append]
  exact List.forall_mem_append

theorem callClosures_of_visits (h : visits deeds = []) : CallClosures deeds := by
  rw [CallClosures, h]
  exact List.forall_mem_nil _

/-- The closures are seen from the runs alone, so it is enough to look at the visits of some deeds. -/
theorem callClosures_of_runs
    (h : ∀ run ∈ (visits deeds).map Visit.run, ∃ (c : Closure) (args : List Datum), run = c.apply args) :
    CallClosures deeds :=
  fun v hv => h v.run (List.mem_map_of_mem hv)

end CallClosures

namespace Engine

variable (e : Engine)

theorem callClosures_performDeeds (callback : Closure) (args : List Datum) :
    CallClosures (e.performDeeds (callback.apply args)) := by
  refine callClosures_of_runs ?_
  rw [visits_performDeeds]
  exact List.forall_mem_singleton.2 ⟨callback, args, rfl⟩

theorem callClosures_trackedDeeds (callback : Closure) (args : List Datum) :
    CallClosures (e.trackedDeeds (callback.apply args)) := by
  refine callClosures_of_runs ?_
  rw [visits_trackedDeeds]
  refine List.forall_mem_cons.2 ⟨⟨callback, args, rfl⟩, ?_⟩
  split
  · exact List.forall_mem_nil _
  · cases e.hook? .update with
    | none => exact List.forall_mem_nil _
    | some onUpdate => exact List.forall_mem_singleton.2 ⟨onUpdate, _, rfl⟩

theorem callClosures_makeDeeds (c : TopCall) : CallClosures (e.makeDeeds c) := by
  have hfault : ∀ {α : Type} (origin : String) (result : Except Script.Fault α),
      CallClosures (faultDeeds origin result) :=
    fun origin result => callClosures_of_visits (visits_faultDeeds origin result)
  cases c with
  | method name args =>
    rw [makeDeeds, invokeDeeds]
    split
    · exact callClosures_of_visits rfl
    · exact callClosures_append.2 ⟨e.callClosures_trackedDeeds _ _, hfault _ _⟩
  | hook which args =>
    rw [makeDeeds, triggerDeeds]
    split
    · exact callClosures_of_visits rfl
    · dsimp only
      split
      · exact callClosures_append.2 ⟨e.callClosures_performDeeds _ _, hfault _ _⟩
      · exact callClosures_append.2 ⟨e.callClosures_trackedDeeds _ _, hfault _ _⟩
  | timer due => exact callClosures_append.2 ⟨e.callClosures_trackedDeeds due.2 [], hfault _ _⟩

theorem callClosures_batchDeeds (due : List (TimerId × Closure)) : CallClosures (e.batchDeeds due) := by
  induction due generalizing e with
  | nil => exact callClosures_of_visits rfl
  | cons timer due ih => exact callClosures_append.2 ⟨e.callClosures_makeDeeds (.timer timer), ih _⟩

theorem callClosures_actDeeds {a : Act} (h : a.isLoad = false) : CallClosures (e.actDeeds a) := by
  cases a with
  | load program => cases h
  | wind readings => exact callClosures_of_visits rfl
  | shutdown => exact callClosures_of_visits rfl
  | execute command =>
    cases command with
    | invoke caller method args => exact e.callClosures_makeDeeds (.method method args)
    | trigger caller hook args => exact e.callClosures_makeDeeds (.hook hook args)
    | dispose => exact callClosures_of_visits rfl
  | ring =>
    show CallClosures e.ringDeeds
    unfold ringDeeds
    split
    · exact callClosures_batchDeeds _ _
    · exact callClosures_of_visits rfl

theorem callClosures_deeds {acts : List Act} (h : ∀ a ∈ acts, a.isLoad = false) :
    CallClosures (e.deeds acts) := by
  induction acts generalizing e with
  | nil => exact callClosures_of_visits rfl
  | cons a acts ih =>
    obtain ⟨hfirst, hrest⟩ := List.forall_mem_cons.1 h
    exact callClosures_append.2 ⟨e.callClosures_actDeeds hfirst, ih _ hrest⟩

/-- No logic is called while the program itself runs; its closures are called once the app is in
place. -/
theorem visits_prepareDeeds (program : Option Program) : visits (e.prepareDeeds program) = [] := by
  have hran : visits (e.evaluateDeeds (program.filter (·.fits e.session.limits))) = [] := by
    cases program.filter (·.fits e.session.limits) with
    | none => rfl
    | some p => exact visits_uses _
  rw [prepareDeeds, visits_append, hran]
  cases (e.prepare program).1 with
  | none => rfl
  | some fault => rfl

end Engine

/-! ## Sandboxes -/

/-- A call comes behind deeds that are no calls, so a split of the deeds at a call is one of those
behind them. -/
theorem exists_split_of_visits {quiet deeds front back : List Deed} {v : Visit} (h : visits quiet = [])
    (heq : quiet ++ deeds = front ++ .visit v :: back) :
    ∃ mid, front = quiet ++ mid ∧ deeds = mid ++ .visit v :: back := by
  rcases List.append_eq_append_iff.mp heq with ⟨mid, hfront, hdeeds⟩ | ⟨mid, hquiet, hdeeds⟩
  · exact ⟨mid, hfront, hdeeds⟩
  · cases mid with
    | nil =>
      refine ⟨[], ?_, hdeeds.symm⟩
      rw [hquiet, List.append_nil, List.append_nil]
    | cons d mid =>
      -- the call would be among deeds that are none
      obtain ⟨rfl, -⟩ := List.cons.inj hdeeds
      rw [hquiet, visits_append] at h
      cases (List.append_eq_nil_iff.1 h).2

/-- Once the last of some calls has left a map, that is the app. -/
theorem lastLeft_snoc (app : Fields Datum) (earlier : List Visit) {u : Visit} {fields : Fields Datum}
    (h : u.left = some (.map fields)) : Engine.lastLeft app (earlier ++ [u]) = fields := by
  rw [Engine.lastLeft_append]
  show Engine.appAfter _ u.left = fields
  rw [h]
  rfl

namespace Actor

section Run

variable {app : String} {limits : Limits} {before : List Step} {program : Option Program}
  {registered : Fields Datum}

/-- What is done in the run of a sandbox whose program registers an app: deeds that call no logic, on
which the app is installed, and then all calls of its closures. -/
theorem deeds_registered (hloading : ((create app limits).run before).thread = .loading)
    (hregisters : ((create app limits).run before).engine.registered? program = some registered)
    (steps : List Step) :
    ∃ quiet calls, (create app limits).deeds (before ++ .load program :: steps) = quiet ++ calls ∧
      visits quiet = [] ∧ CallClosures calls ∧
      ∃ e : Engine, e.session = (create app limits).engine.session.afterAll quiet ∧
        e.app = some registered ∧ e.callbacks = Engine.closuresOf registered ∧
        e.Did calls ((create app limits).run (before ++ .load program :: steps)).engine := by
  let L := (create app limits).run before
  let e := (L.engine.emptied program).install registered
  have hserving : (L.load program).thread = .serving := rfl
  have hloaded := ne_loading hserving (by decide)
  obtain ⟨hdeeds, hrun⟩ := (create app limits).deeds_load program steps hloading
  obtain ⟨hwinds, hbefore⟩ := deeds_loading hloading
  have hloadDeeds : L.engine.loadDeeds program = L.engine.prepareDeeds program ++
      .takeRegistration :: (Engine.installDeeds registered ++ e.triggerDeeds .launch .null) := by
    rw [Engine.loadDeeds, hregisters]
    rfl
  have hengine : (L.load program).engine = e.trigger .launch .null := L.engine.load_of_registered hregisters
  -- what goes before the app is in place visits nothing, and what comes behind it are calls
  refine ⟨(create app limits).deeds before ++ (L.engine.prepareDeeds program ++ .takeRegistration ::
    Engine.installDeeds registered), e.triggerDeeds .launch .null ++ (L.load program).deeds steps,
    ?_, ?_, ?_, e, ?_, rfl, rfl, ?_⟩
  · rw [hdeeds, show ((create app limits).run before).engine.loadDeeds program = _ from hloadDeeds]
    simp only [List.append_assoc, List.cons_append, L]
  · have hnone : visits ((create app limits).deeds before) = [] := by
      refine List.filterMap_eq_nil_iff.2 fun d hd => ?_
      obtain ⟨readings, rfl⟩ := hwinds d hd
      rfl
    rw [visits_append, visits_append, hnone, Engine.visits_prepareDeeds]
    exact Engine.visits_installDeeds registered
  · exact callClosures_append.2 ⟨e.callClosures_makeDeeds (.hook .launch .null),
      Engine.callClosures_deeds _ (acts_loaded hloaded steps)⟩
  · rw [(Engine.install_session _ registered).1, Engine.emptied_session, hbefore.session,
      ← Session.afterAll_append, ← Session.afterAll_append]
    simp only [List.append_assoc, List.singleton_append]
  · rw [hrun]
    have hlater := did_run hloaded steps
    rw [hengine] at hlater
    exact (e.did_trigger .launch .null).append hlater

/-- What a call finds, in any run of a sandbox whose program registers an app. -/
theorem found_in_run (hloading : ((create app limits).run before).thread = .loading)
    (hregisters : ((create app limits).run before).engine.registered? program = some registered)
    (steps : List Step) {front back : List Deed} {v : Visit}
    (hsplit : (create app limits).deeds (before ++ .load program :: steps) = front ++ .visit v :: back) :
    Engine.Made (some (Engine.lastLeft registered (visits front)))
        ((create app limits).engine.session.afterAll front) v back ∧
      ∃ (callback : Closure) (args : List Datum), v.run = callback.apply args := by
  obtain ⟨quiet, calls, hdeeds, hquiet, hclosures, e, hsession, happ, -, hdid⟩ :=
    deeds_registered hloading hregisters steps
  obtain ⟨mid, rfl, rfl⟩ := exists_split_of_visits hquiet (hdeeds.symm.trans hsplit)
  have hmade := hdid.made mid v back rfl
  rw [happ, hsession, ← Session.afterAll_append] at hmade
  refine ⟨?_, (callClosures_append.1 hclosures).2 v List.mem_cons_self⟩
  rw [visits_append, hquiet]
  exact hmade

/-- The last of the calls left a map, which the next one finds again but for `data`. -/
theorem left_in_run (hloading : ((create app limits).run before).thread = .loading)
    (hregisters : ((create app limits).run before).engine.registered? program = some registered)
    (steps : List Step) {front back : List Deed} {u : Visit}
    (hsplit : (create app limits).deeds (before ++ .load program :: steps) = front ++ .visit u :: back) :
    ∃ fields, u.left = some (.map fields) := by
  obtain ⟨hmade, callback, args, hrun⟩ := found_in_run hloading hregisters steps hsplit
  rw [hmade.left, hrun]
  exact (callback.only_apply args).exec_self rfl

end Run

end Actor

/-- A program whose only method writes to `this` in both places, and faults. -/
def scribbler : Program :=
  [.evaluate (.call "App" [.record [
    ("data", .record [("n", .literal (.int 1))]),
    ("scribble", .closure [] [
      .assign "data" (some "n") (.literal (.int 7)),
      .assign "seen" none (.literal (.int 3)),
      .raise (.literal (.str "enough"))])]])]

/-- The app that it registers. -/
def scribblerApp : Fields Datum :=
  [("data", .map [("n", .int 1)]),
    ("scribble", .closure [] [
      .assign "data" (some "n") (.literal (.int 7)),
      .assign "seen" none (.literal (.int 3)),
      .raise (.literal (.str "enough"))] [])]

/-- Two calls of its method. -/
def scribbling : List Step :=
  [.invoke "scribble" .null, .enter 0, .take, .invoke "scribble" .null, .enter 1, .take]

end AppletHost.Sandbox

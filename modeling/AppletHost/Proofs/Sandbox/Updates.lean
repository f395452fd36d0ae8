import AppletHost.Proofs.Sandbox.StateLog

/-!
# What `onUpdate` is told

A top-level call collects what it commits, and `onUpdate` is called with it afterwards. Logic reaches
the collection only through `setData`, so whatever a call does and however it ends,

> `Session.pending_uses`: what was collected is the merge of the updates that `setData` accepted, in
> the order in which they were given;

and nothing is collected while `onUpdate` runs, which is why it is not called again. All of it holds of
any run that is made as a top-level call (`performTracked_told`).

The ways into the engine differ in their arguments, in where their faults are said to come from, and
in what they answer; all of them are the same tracked call (`make_eq`).
-/

namespace AppletHost.Sandbox

open Script (Closure Datum Fault Program Run)

/-! ## Updates -/

/-- What `setData` commits of what it is given. -/
def committed (given : Fields) : Fields := Session.unwrap (Fields.ofList given)

/-- All that is committed, put together: of two values for one name the later one stays. -/
def together (updates : List Fields) : Fields :=
  (updates.map committed).foldl Fields.merge []

/-- What `setData` is given, if it is used and accepts that. -/
def Deed.accepted? : Deed → Option Fields
  | .use (.setData update) => Datum.toFields? update
  | _ => none

/-- What `setData` is given with success, in order. -/
def accepted (deeds : List Deed) : List Fields := deeds.filterMap Deed.accepted?

/-- The updates that are accepted come in the order of the deeds. -/
theorem accepted_append (deeds deeds' : List Deed) :
    accepted (deeds ++ deeds') = accepted deeds ++ accepted deeds' :=
  List.filterMap_append

/-- A call of `setData` is accepted if what it is given is a map of plain values, and is refused as a
whole if not. -/
theorem accepted_setData (update : Fields Datum) :
    accepted [.use (.setData update)] = (Datum.toFields? update).toList := by
  rw [accepted, List.filterMap_cons, Deed.accepted?]
  cases Datum.toFields? update with
  | none => rfl
  | some given => rfl

namespace Session

/-- The updates went into the data one after another, and each of them was published. -/
structure Commits (s : Session) (updates : List Fields) (s' : Session) : Prop where
  data : s'.data = (updates.map committed).foldl Fields.merge s.data
  published : ∃ log, stateLog s'.sent = stateLog s.sent ++ log ∧
    log.map Mutation.patch = updates.map committed

section Commits

variable {s s' s'' : Session} {updates updates' : List Fields}

theorem commits_refl (s : Session) : s.Commits [] s := ⟨rfl, [], (List.append_nil _).symm, rfl⟩

/-- Updates that are committed in two parts are committed in one row. -/
theorem Commits.trans (h : s.Commits updates s') (h' : s'.Commits updates' s'') :
    s.Commits (updates ++ updates') s'' := by
  obtain ⟨log, hlog, hpatches⟩ := h.published
  obtain ⟨log', hlog', hpatches'⟩ := h'.published
  refine ⟨?_, log ++ log', ?_, ?_⟩
  · rw [h'.data, h.data, List.map_append, List.foldl_append]
  · rw [hlog', hlog, List.append_assoc]
  · rw [List.map_append, List.map_append, hpatches, hpatches']

/-- What leaves the data alone and publishes none has no part in either. -/
theorem commits_of_quiet (hdata : s'.data = s.data) (hsent : stateLog s'.sent = stateLog s.sent) :
    s.Commits [] s' :=
  ⟨hdata, [], by rw [hsent, List.append_nil], rfl⟩

end Commits

variable (s : Session)

/-- A success of `setData` commits what it was given, and nothing but that. -/
theorem setData_eq {update : Fields Datum} {given : Fields}
    (plain : Datum.toFields? update = some given) :
    s.setData update = (.ok (), s.commit (committed given)) := by
  rw [setData, plain]
  rfl

/-- What `setData` refuses changes nothing: the call faults, and the session is as it was. -/
theorem setData_refused {update : Fields Datum} (h : Datum.toFields? update = none) :
    (s.setData update).2 = s ∧ ∀ u, (s.setData update).1 ≠ .ok u := by
  rw [setData, h]
  refine ⟨rfl, fun u hu => ?_⟩
  cases hu

/-- To commit an update is to merge it into the data and to publish it, nothing else. -/
theorem commits_commit (given : Fields) : s.Commits [given] (s.commit (committed given)) := by
  refine ⟨rfl, [⟨.obj (Fields.merge s.data (committed given)), committed given⟩], ?_, rfl⟩
  show stateLog (s.sent ++ [_]) = _
  rw [stateLog_append]
  rfl

/-- A use of the host commits what `setData` accepts, and nothing else. -/
theorem commits_answer (call : HostCall) :
    s.Commits (accepted [.use call]) (s.answer call).2 := by
  cases call with
  | setData update =>
    show s.Commits _ (s.setData update).2
    rw [accepted_setData]
    cases hplain : Datum.toFields? update with
    | none =>
      rw [(s.setData_refused hplain).1]
      exact s.commits_refl
    | some given =>
      rw [s.setData_eq hplain]
      exact s.commits_commit given
  | register app =>
    show s.Commits [] (s.register app).2
    unfold register
    split
    · exact s.commits_refl
    · exact commits_of_quiet rfl rfl
  | addTimer callback delay repeats =>
    show s.Commits [] (s.addTimer callback delay repeats).2
    unfold addTimer
    split
    · exact s.commits_refl
    · exact commits_of_quiet rfl rfl
  | clearTimer id => exact commits_of_quiet rfl rfl
  | log level args => exact commits_of_quiet rfl (s.stateLog_log level args)

/-- The step lemma: a deed commits the update that it has accepted, or none. -/
theorem commits_deed {d : Deed} (hd : ∀ data, d ≠ .initData data) :
    s.Commits (accepted [d]) (s.after d) := by
  cases d with
  | use call => exact s.commits_answer call
  | report origin message => exact commits_of_quiet rfl (s.stateLog_log .error _)
  | initData data => exact absurd rfl (hd data)
  | visit | start => exact s.commits_refl
  | track | untrack | due | wind | read | look | clearTimers | takeRegistration =>
    exact commits_of_quiet rfl rfl

/-- Whatever is done to a session but to install an app, its data and what it publishes of them are
made by the updates that `setData` accepts. -/
theorem commits_deeds {deeds : List Deed} (h : ∀ d ∈ deeds, ∀ data, d ≠ .initData data) :
    s.Commits (accepted deeds) (s.afterAll deeds) := by
  induction deeds generalizing s with
  | nil => exact s.commits_refl
  | cons d deeds ih =>
    obtain ⟨hfirst, hrest⟩ := List.forall_mem_cons.1 h
    rw [← List.singleton_append, accepted_append]
    exact (s.commits_deed hfirst).trans (ih _ hrest)

/-! ### What is collected -/

/-- What waits to be told of is the patches so far, with that of this call merged in. -/
theorem pending_answer (call : HostCall) :
    (s.answer call).2.pending = s.pending.map fun patch =>
      ((accepted [.use call]).map committed).foldl Fields.merge patch := by
  have hkept : s.pending = s.pending.map fun patch => patch := by simp
  cases call with
  | setData update =>
    show (s.setData update).2.pending = _
    rw [accepted_setData]
    cases hplain : Datum.toFields? update with
    | none =>
      rw [(s.setData_refused hplain).1]
      exact hkept
    | some given =>
      rw [s.setData_eq hplain]
      rfl
  | register app =>
    show (s.register app).2.pending = _
    unfold register
    split
    · exact hkept
    · exact hkept
  | addTimer callback delay repeats =>
    show (s.addTimer callback delay repeats).2.pending = _
    unfold addTimer
    split
    · exact hkept
    · exact hkept
  | clearTimer id => exact hkept
  | log level args => exact hkept

/-- What is collected grows by what is committed; where nothing is collected, nothing ever is. -/
theorem pending_uses (calls : List HostCall) :
    (s.afterAll (calls.map .use)).pending = s.pending.map fun patch =>
      ((accepted (calls.map .use)).map committed).foldl Fields.merge patch := by
  induction calls generalizing s with
  | nil =>
    show s.pending = s.pending.map fun patch => patch
    simp
  | cons call calls ih =>
    rw [List.map_cons, ← List.singleton_append, accepted_append]
    show ((s.answer call).2.afterAll (calls.map .use)).pending = _
    rw [ih, pending_answer, Option.map_map]
    congr 1
    funext patch
    rw [List.map_append, List.foldl_append]
    rfl

end Session

/-! ### What is put together -/

/-- Where a field was set there is at least that field. -/
theorem set_ne_nil (fields : Fields) (name : String) (v : Value) : fields.set name v ≠ [] := by
  cases fields with
  | nil => exact List.cons_ne_nil _ _
  | cons f rest =>
    obtain ⟨k, w⟩ := f
    rw [Fields.set]
    split
    · exact List.cons_ne_nil _ _
    · split
      · exact List.cons_ne_nil _ _
      · exact List.cons_ne_nil _ _

/-- A merge is empty only if nothing went into it from either side. -/
theorem merge_eq_nil_iff (base patch : Fields) :
    Fields.merge base patch = [] ↔ base = [] ∧ patch = [] := by
  constructor
  · intro h
    rcases List.eq_nil_or_concat patch with rfl | ⟨front, f, rfl⟩
    · exact ⟨h, rfl⟩
    · rw [List.concat_eq_append, Fields.merge, List.foldl_append] at h
      exact absurd h (set_ne_nil _ _ _)
  · intro h
    rw [h.1, h.2]
    rfl

/-- What several updates come to together is had by merging them one after another. -/
theorem together_snoc (updates : List Fields) (given : Fields) :
    together (updates ++ [given]) = Fields.merge (together updates) (committed given) := by
  rw [together, List.map_append, List.foldl_append]
  rfl

/-- Nothing was committed iff none of the updates has a key. -/
theorem together_eq_nil_iff (updates : List Fields) :
    together updates = [] ↔ ∀ given ∈ updates, committed given = [] := by
  induction updates using List.reverseRecOn with
  | nil => exact iff_of_true rfl (List.forall_mem_nil _)
  | append_singleton updates given ih =>
    rw [together_snoc, merge_eq_nil_iff, ih, List.forall_mem_append, List.forall_mem_singleton]

/-- Each name has the value that the last update with this name gave it. -/
theorem get?_together (updates : List Fields) (name : String) :
    Fields.get? (together updates) name =
      updates.reverse.findSome? fun given => Fields.get? (Fields.ofList (committed given)) name := by
  induction updates using List.reverseRecOn with
  | nil => rfl
  | append_singleton updates given ih =>
    rw [together_snoc, Fields.get?_merge, ih, List.reverse_append, List.reverse_singleton,
      List.singleton_append, List.findSome?_cons]
    cases Fields.get? (Fields.ofList (committed given)) name with
    | none => rfl
    | some v => rfl

/-! ## Runs -/

namespace Engine

/-- The engine when a run begins: from here on, what is committed is collected. -/
def begun (e : Engine) : Engine := { e with session := e.session.track }

/-- The engine when nothing is collected. -/
def quiet (e : Engine) : Engine := { e with session := { e.session with pending := none } }

/-- A run commits what it gives to `setData` with success. -/
theorem commits_perform (e : Engine) (run : Run Datum) :
    e.session.Commits (accepted (e.performDeeds run)) (e.perform run).2.session := by
  rw [(e.did_perform run).session]
  refine e.session.commits_deeds fun d hd => Deed.ne_initData ?_
  exact Deed.not_installs_of_isOfCall (e.isOfCall_performDeeds run d hd)

/-- The run of a top-level call commits certain updates; if one of them has a key, `onUpdate` is told of
all of them put together, and otherwise nothing follows. -/
theorem performTracked_told (e : Engine) (run : Run Datum) :
    let body := e.begun.perform run
    let updates := accepted (e.begun.performDeeds run)
    e.performTracked run = (body.1,
      if together updates = [] then body.2.quiet else body.2.quiet.notifyUpdate (together updates)) ∧
    e.trackedDeeds run = .track :: e.begun.performDeeds run ++ .untrack ::
      if together updates = [] then [] else body.2.quiet.updateDeeds (together updates) := by
  intro body updates
  have hpending : body.2.session.pending = some (together updates) := by
    have hsession := (e.begun.did_perform run).session
    rw [show body.2.session = _ from hsession]
    exact Session.pending_uses e.begun.session _
  have huntrack : body.2.session.untrack =
      (if together updates = [] then none else some (together updates),
        { body.2.session with pending := none }) := by
    rw [Session.untrack, hpending, Option.filter_some]
    by_cases hnone : together updates = []
    · simp [hnone]
    · simp [hnone]
  have htracked : e.tracked run =
      (if together updates = [] then none else some (together updates), body.2.quiet) := by
    show (body.2.session.untrack.1, { body.2 with session := body.2.session.untrack.2 }) = _
    rw [huntrack]
    rfl
  rw [performTracked_eq, trackedDeeds, htracked]
  by_cases hnone : together updates = []
  · rw [if_pos hnone, if_pos hnone, if_pos hnone]
    exact ⟨rfl, rfl⟩
  · rw [if_neg hnone, if_neg hnone, if_neg hnone]
    exact ⟨rfl, rfl⟩

theorem visits_performDeeds (e : Engine) (run : Run Datum) :
    (visits (e.performDeeds run)).map Visit.run = [run] := by
  rw [performDeeds, visits, List.filterMap_cons]
  show (_ :: visits _).map Visit.run = _
  rw [visits_uses]
  rfl

theorem visits_faultDeeds {α : Type} (origin : String) (result : Except Fault α) :
    visits (faultDeeds origin result) = [] := by
  cases result with
  | ok a => rfl
  | error fault => rfl

/-- Telling of an update visits `onUpdate` with the merged patch, if the app has that hook. -/
theorem visits_updateDeeds (e : Engine) (patch : Fields) :
    (visits (e.updateDeeds patch)).map Visit.run =
      ((e.hook? .update).map (·.apply (updateArguments patch))).toList := by
  unfold updateDeeds
  cases e.hook? .update with
  | none => rfl
  | some callback =>
    dsimp only
    rw [visits_append, visits_faultDeeds, List.append_nil, visits_performDeeds]
    rfl

/-- A top-level call comes to its own run, and then to that of `onUpdate` if anything was committed. -/
theorem visits_trackedDeeds (e : Engine) (run : Run Datum) :
    let updates := accepted (e.begun.performDeeds run)
    (visits (e.trackedDeeds run)).map Visit.run = run ::
      if together updates = [] then []
      else ((e.hook? .update).map (·.apply (updateArguments (together updates)))).toList := by
  intro updates
  rw [(e.performTracked_told run).2, visits_append, List.map_append]
  show (visits (e.begun.performDeeds run)).map Visit.run ++
    (visits (if together updates = [] then [] else _)).map Visit.run = _
  rw [visits_performDeeds]
  by_cases hnone : together updates = []
  · rw [if_pos hnone, if_pos hnone]
    rfl
  · rw [if_neg hnone, if_neg hnone, visits_updateDeeds]
    rfl

end Engine

/-! ## Calls -/

/-- A call that the host makes. -/
inductive TopCall where
  | method (name : String) (args : Value)
  | hook (which : Hook) (args : Value)
  | timer (due : TimerId × Closure)

namespace TopCall

/-- What is called, if the app has it. -/
def callback? (e : Engine) : TopCall → Option Closure
  | .method name _ => e.method? name
  | .hook which _ => e.hook? which
  | .timer due => some due.2

/-- The arguments of the call. -/
def arguments : TopCall → List Datum
  | .method _ args => Engine.arguments args
  | .hook _ args => Engine.arguments args
  | .timer _ => []

/-- Where a fault of the call is said to come from. -/
def origin : TopCall → String
  | .method name _ => name
  | .hook which _ => which.name
  | .timer due => Engine.timerOrigin due.1

/-- It is `onUpdate` itself that is called. -/
def IsUpdate : TopCall → Prop
  | .hook which _ => which = .update
  | _ => False

/-- What the host is answered when the callback comes to this: a method has an outcome. -/
def outcome? : TopCall → Except Fault Datum → Option MethodOutcome
  | .method _ _, .ok d => some (.completed d.toValue)
  | .method _ _, .error fault => some (.failed fault.message)
  | _, _ => none

end TopCall

namespace Engine

/-- The host makes a call. -/
def make (e : Engine) : TopCall → Option MethodOutcome × Engine
  | .method name args => (some (e.invoke name args).1, (e.invoke name args).2)
  | .hook which args => (none, e.trigger which args)
  | .timer due => (none, e.fire due)

/-- What is done in a call that the host makes. -/
def makeDeeds (e : Engine) : TopCall → List Deed
  | .method name args => e.invokeDeeds name args
  | .hook which args => e.triggerDeeds which args
  | .timer due => e.fireDeeds due

/-- The calls from outside are methods and hooks, and what an engine does for one of them are the
deeds listed for it. -/
theorem did_make (e : Engine) (c : TopCall) : e.Did (e.makeDeeds c) (e.make c).2 := by
  cases c with
  | method name args => exact e.did_invoke name args
  | hook which args => exact e.did_trigger which args
  | timer due => exact e.did_fire due

/-- A call other than that of `onUpdate` is tracked, and its fault is reported behind all else. -/
theorem make_eq (e : Engine) (c : TopCall) {callback : Closure}
    (hcallback : c.callback? e = some callback) (hnot : ¬ c.IsUpdate) :
    let tracked := e.performTracked (callback.apply c.arguments)
    e.make c = (c.outcome? tracked.1, tracked.2.reportFault c.origin tracked.1) ∧
      visits (e.makeDeeds c) = visits (e.trackedDeeds (callback.apply c.arguments)) := by
  intro tracked
  have hvisits : ∀ deeds, visits (deeds ++ faultDeeds c.origin tracked.1) = visits deeds := by
    intro deeds
    rw [visits_append, visits_faultDeeds, List.append_nil]
  cases c with
  | method name args =>
    have hmethod : e.method? name = some callback := hcallback
    rw [makeDeeds, invokeDeeds, hmethod]
    refine ⟨?_, hvisits _⟩
    rw [make, invoke, hmethod]
    dsimp only
    rcases hrun : e.performTracked (callback.apply (arguments args)) with ⟨result, after⟩
    rw [show tracked = (result, after) from hrun]
    cases result with
    | ok d => rfl
    | error fault => rfl
  | hook which args =>
    have hhook : e.hook? which = some callback := hcallback
    have hother : which ≠ .update := hnot
    rw [make, trigger, makeDeeds, triggerDeeds, hhook]
    dsimp only
    rw [if_neg hother, if_neg hother]
    exact ⟨rfl, hvisits _⟩
  | timer due =>
    have hdue : due.2 = callback := Option.some.inj hcallback
    subst hdue
    exact ⟨rfl, hvisits (.start due.1 :: e.trackedDeeds _)⟩

end Engine

/--
A call from outside, other than of `onUpdate`, whatever the app is and however the callback ends. The
callback gives certain updates to `setData` with success; they are committed and published one by one,
and put together each name has its last value. If the app declares `onUpdate` and one of the updates
has a key, `onUpdate` is called behind the callback, with what was put together and nothing else; it
commits and publishes in its turn, and these two are all calls that are made. Otherwise the callback
is the only one. What the call answers depends on how the callback ended and on nothing else. The
engine is what the deeds of the call, those of the callback among them, make of it.
-/
theorem update_follows_commits (e : Engine) (c : TopCall) (callback : Closure)
    (hcallback : c.callback? e = some callback) (hnot : ¬ c.IsUpdate) :
    let run := callback.apply c.arguments
    let body := e.begun.perform run
    let updates := accepted (e.begun.performDeeds run)
    e.Did (e.makeDeeds c) (e.make c).2 ∧ e.begun.Did (e.begun.performDeeds run) body.2 ∧
    e.begun.session.Commits updates body.2.session ∧
      (∀ name, Fields.get? (together updates) name =
        updates.reverse.findSome? fun given => Fields.get? (Fields.ofList (committed given)) name) ∧
      (e.make c).1 = c.outcome? body.1 ∧
      (∀ onUpdate, e.hook? .update = some onUpdate → (∃ given ∈ updates, committed given ≠ []) →
        let again := onUpdate.apply [.ofValue (.obj [("data", .obj (together updates))])]
        let update := body.2.quiet.perform again
        (e.make c).2 = (update.2.reportFault "onUpdate" update.1).reportFault c.origin body.1 ∧
          (visits (e.makeDeeds c)).map Visit.run = [run, again] ∧
          body.2.quiet.session.Commits (accepted (body.2.quiet.performDeeds again))
            update.2.session) ∧
      ((e.hook? .update = none ∨ ∀ given ∈ updates, committed given = []) →
        (e.make c).2 = body.2.quiet.reportFault c.origin body.1 ∧
          (visits (e.makeDeeds c)).map Visit.run = [run]) := by
  intro run body updates
  obtain ⟨hmake, hmakeDeeds⟩ := e.make_eq c hcallback hnot
  have htold := (e.performTracked_told run).1
  have hvisits := e.visits_trackedDeeds run
  have hhook : body.2.quiet.hook? .update = e.hook? .update := rfl
  refine ⟨e.did_make c, e.begun.did_perform run, e.begun.commits_perform run, get?_together updates,
    ?_, ?_, ?_⟩
  · rw [hmake, htold]
  · intro onUpdate hdeclared hkey again update
    -- some key was committed, so the merged patch has it
    have hsome : ¬ together updates = [] := by
      rw [together_eq_nil_iff]
      push Not
      exact hkey
    refine ⟨?_, ?_, body.2.quiet.commits_perform again⟩
    · rw [hmake, htold, if_neg hsome, Engine.notifyUpdate, hhook, hdeclared]
      rfl
    · rw [hmakeDeeds, hvisits, if_neg hsome, hdeclared]
      rfl
  · intro hneither
    rcases hneither with hundeclared | hkeyless
    · refine ⟨?_, ?_⟩
      · rw [hmake, htold, Engine.notifyUpdate, hhook, hundeclared]
        dsimp only
        rw [ite_self]
      · rw [hmakeDeeds, hvisits, hundeclared]
        exact congrArg (run :: ·) (ite_self [])
    · have hnone := (together_eq_nil_iff updates).2 hkeyless
      refine ⟨?_, ?_⟩
      · rw [hmake, htold, if_pos hnone]
      · rw [hmakeDeeds, hvisits, if_pos hnone]

/-- A program whose method commits twice, with an overlap and once in an envelope, and then faults;
its `onUpdate` commits what it is told. -/
def tellsItself : Program :=
  [.evaluate (.call "App" [.record [
    ("change", .closure [] [
      .evaluate (.call "setData" [.record [("a", .literal (.int 1))]]),
      .evaluate (.call "setData" [.record [("data", .record [("a", .literal (.int 2)),
        ("b", .literal (.int 3))])]]),
      .raise (.literal (.str "enough"))]),
    ("onUpdate", .closure ["told"] [
      .evaluate (.call "setData" [.record [("seen", .variable "told")]])])]])]

/-- The method fails, and `onUpdate` was told both of its updates; that `onUpdate` committed data
calls it no more. -/
theorem tellsItself_told_once :
    let e := ((Engine.create "demo" .standard).load (some tellsItself)).2
    let called := e.make (.method "change" .null)
    called.1 = some (.failed "Runtime error: enough") ∧
      called.2.snapshot = .obj [("a", .int 2), ("b", .int 3),
        ("seen", .obj [("data", .obj [("a", .int 2), ("b", .int 3)])])] ∧
      (visits (e.makeDeeds (.method "change" .null))).length = 2 := by
  intro e called
  obtain ⟨callback, hcallback⟩ :
      ∃ callback, (TopCall.method "change" .null).callback? e = some callback := ⟨_, rfl⟩
  obtain ⟨onUpdate, hdeclared⟩ : ∃ onUpdate, e.hook? .update = some onUpdate := ⟨_, rfl⟩
  obtain ⟨-, -, -, -, -, htold, -⟩ :=
    update_follows_commits e (.method "change" .null) callback hcallback id
  refine ⟨rfl, rfl, ?_⟩
  have hkey : ∃ given ∈ accepted (e.begun.performDeeds (callback.apply [])), committed given ≠ [] := by
    obtain rfl := Option.some.inj hcallback
    exact ⟨_, List.mem_cons_self, List.cons_ne_nil _ _⟩
  rw [← List.length_map Visit.run, (htold onUpdate hdeclared hkey).2.1]
  rfl

end AppletHost.Sandbox

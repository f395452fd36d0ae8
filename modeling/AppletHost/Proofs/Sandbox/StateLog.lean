import AppletHost.Proofs.Sandbox.Acts
import Mathlib

/-!
# The log of the state

Every change of the data is published with a snapshot and a patch. Two operations publish: `commit`
puts a patch over the data, and `initData` puts the initial data of a registration in place of all
data, and publishes them as the patch too. So folding the patches gives the snapshots from one
`initData` to the next, and a sandbox, which loads once, has one at most: the one that installs the app
its program has registered.

> `Session.Logged.deed`: whatever else is done to a session keeps its log consistent, up to its data.

What was committed before the initial data is lost unless they have the key (`replaces_self_iff`); the
headline `state_log` says where in the log of a run they stand, and what is lost there.
-/

namespace AppletHost.Sandbox

/-! ## Consistent logs -/

/-- One published change of the data. -/
structure Mutation where
  snapshot : Value
  patch : Fields

/-- The change that an event publishes. -/
def mutation? : Event → Option Mutation
  | .stateMutated _ snapshot patch => some ⟨snapshot, patch⟩
  | _ => none

/-- The published changes, in order. -/
def stateLog (events : List Event) : List Mutation := events.filterMap mutation?

/-- The snapshot of the last change, or what there was at the start. -/
def latest (start : Value) (log : List Mutation) : Value :=
  (log.getLast?.map Mutation.snapshot).getD start

/-- `after` is `before` with exactly the keys of the patch replaced by the patch's values. -/
def Replaces (before : Value) (patch : Fields) (after : Value) : Prop :=
  (∃ fields, after = .obj fields) ∧
    ∀ name, after.get? name = ((Fields.ofList patch).get? name).or (before.get? name)

/-- Every snapshot is the one before it with the keys of the patch replaced. -/
def Consistent (start : Value) (log : List Mutation) : Prop :=
  ∀ before m after, log = before ++ m :: after → Replaces (latest start before) m.patch m.snapshot

/-- Mutations are read off the events in the order in which these were published. -/
theorem stateLog_append (events events' : List Event) :
    stateLog (events ++ events') = stateLog events ++ stateLog events' :=
  List.filterMap_append

/-- To log a line is no change of the data. -/
theorem Session.stateLog_log (s : Session) (level : LogLevel) (args : List Script.Datum) :
    stateLog (s.log level args).sent = stateLog s.sent := by
  show stateLog (s.sent ++ [_]) = _
  rw [stateLog_append]
  exact List.append_nil _

/-- After a mutation the data are those of its snapshot. -/
theorem latest_snoc (start : Value) (log : List Mutation) (m : Mutation) :
    latest start (log ++ [m]) = m.snapshot := by
  simp [latest]

/-- Behind a change, only its snapshot matters: what the later ones start from is what the earlier
ones have led to. -/
theorem latest_append (start : Value) (log log' : List Mutation) :
    latest start (log ++ log') = latest (latest start log) log' := by
  rcases List.eq_nil_or_concat log' with rfl | ⟨log', m, rfl⟩
  · simp [latest]
  · rw [List.concat_eq_append, ← List.append_assoc, latest_snoc, latest_snoc]

theorem consistent_nil (start : Value) : Consistent start [] := by
  intro before m after h
  cases before <;> cases h

/-- A log is consistent in two parts if the second is so from where the first has led. -/
theorem consistent_append (start : Value) (log log' : List Mutation) :
    Consistent start (log ++ log') ↔
      Consistent start log ∧ Consistent (latest start log) log' := by
  constructor
  · intro h
    refine ⟨fun before m after heq => ?_, fun before m after heq => ?_⟩
    · exact h before m (after ++ log') (by rw [heq]; simp)
    · rw [← latest_append]
      exact h (log ++ before) m after (by rw [heq]; simp)
  · rintro ⟨h, h'⟩ before m after heq
    rcases List.append_eq_append_iff.mp heq with ⟨mid, hbefore, hmid⟩ | ⟨mid, hlog, hmid⟩
    · rw [hbefore, latest_append]
      exact h' mid m after hmid
    · cases mid with
      | nil =>
        rw [List.append_nil] at hlog
        rw [← hlog]
        exact h' [] m after hmid.symm
      | cons x mid =>
        obtain ⟨rfl, -⟩ := List.cons.inj hmid
        exact h before m mid hlog

/-- A single mutation is consistent if its snapshot is the data with the patch laid over them. -/
theorem consistent_singleton (start : Value) (m : Mutation) :
    Consistent start [m] ↔ Replaces start m.patch m.snapshot := by
  constructor
  · exact fun h => h [] m [] rfl
  · intro h before m' after heq
    cases before with
    | nil =>
      cases heq
      exact h
    | cons x before => cases before <;> cases heq

/-- A merge replaces the keys of the patch and no others, so a commit is published as what it does. -/
theorem replaces_merge (data patch : Fields) :
    Replaces (.obj data) patch (.obj (Fields.merge data patch)) :=
  ⟨⟨_, rfl⟩, Fields.get?_merge data patch⟩

/-- Data that are put in place of all data replace their own keys iff no other key is lost. -/
theorem replaces_self_iff (before : Value) {data : Fields} (hdata : (Fields.names data).Nodup) :
    Replaces before data (.obj data) ↔
      ∀ name, before.get? name ≠ none → data.get? name ≠ none := by
  have hget : ∀ name, (Value.obj data).get? name = data.get? name := fun _ => rfl
  constructor
  · rintro ⟨-, h⟩ name hbefore hnone
    have hname := h name
    rw [hget, hnone, Fields.get?_ofList_of_nodup hdata, hnone, Option.none_or] at hname
    exact hbefore hname.symm
  · refine fun h => ⟨⟨data, rfl⟩, fun name => ?_⟩
    rw [hget, Fields.get?_ofList_of_nodup hdata]
    cases hname : data.get? name with
    | some v => rfl
    | none =>
      have hbefore : before.get? name = none := by
        by_contra hne
        exact h name hne hname
      rw [hbefore]
      rfl

/-! ## Sessions -/

/-- Behind `base`, the session has published a consistent log from `start` on, up to its data. -/
def Session.Logged (start : Value) (base : List Mutation) (s : Session) : Prop :=
  ∃ log, stateLog s.sent = base ++ log ∧ Consistent start log ∧ s.snapshot = latest start log

section Logged

variable {start : Value} {base : List Mutation} {s s' : Session}

/-- The data are the snapshot of the last change, if they were where the log begins. -/
theorem Session.Logged.snapshot_eq (h : s.Logged start base) (hbase : latest (.obj []) base = start) :
    s.snapshot = latest (.obj []) (stateLog s.sent) := by
  obtain ⟨log, hlog, -, hlatest⟩ := h
  rw [hlog, latest_append, hbase, hlatest]

/-- What publishes no change and changes no data keeps the log true. Most of what a session does is of
this kind. -/
theorem Session.Logged.quiet (h : s.Logged start base) (hdata : s'.data = s.data)
    (hsent : stateLog s'.sent = stateLog s.sent) : s'.Logged start base := by
  obtain ⟨log, hlog, hconsistent, hlatest⟩ := h
  refine ⟨log, hsent.trans hlog, hconsistent, ?_⟩
  rw [← hlatest, Session.snapshot, Session.snapshot, hdata]

/-- A commit publishes the data that it leaves, with the patch that led there. -/
theorem Session.Logged.commit (h : s.Logged start base) (update : Fields) :
    (s.commit update).Logged start base := by
  obtain ⟨log, hlog, hconsistent, hlatest⟩ := h
  let m : Mutation := ⟨.obj (Fields.merge s.data update), update⟩
  refine ⟨log ++ [m], ?_, ?_, ?_⟩
  · show stateLog (s.sent ++ [_]) = _
    rw [stateLog_append, hlog, List.append_assoc]
    rfl
  · rw [consistent_append, consistent_singleton, ← hlatest]
    exact ⟨hconsistent, replaces_merge s.data update⟩
  · rw [latest_snoc]
    rfl

theorem Session.Logged.log (h : s.Logged start base) (level : LogLevel)
    (args : List Script.Datum) : (s.log level args).Logged start base :=
  h.quiet rfl (s.stateLog_log level args)

/-- A use of the host by logic keeps the log true: `setData` commits what it publishes, and nothing
else changes the data. -/
theorem Session.Logged.answer (h : s.Logged start base) (call : HostCall) :
    (s.answer call).2.Logged start base := by
  cases call with
  | setData update =>
    show (s.setData update).2.Logged start base
    unfold Session.setData
    split
    · exact h.commit _
    · exact h
  | register app =>
    show (s.register app).2.Logged start base
    unfold Session.register
    split
    · exact h
    · exact h.quiet rfl rfl
  | addTimer callback delay repeats =>
    show (s.addTimer callback delay repeats).2.Logged start base
    unfold Session.addTimer
    split
    · exact h
    · exact h.quiet rfl rfl
  | clearTimer id => exact h.quiet rfl rfl
  | log level args => exact h.log level args

/-- Every deed but putting initial data in place keeps the log. -/
theorem Session.Logged.deed (h : s.Logged start base) {d : Deed} (hd : ∀ data, d ≠ .initData data) :
    (s.after d).Logged start base := by
  cases d with
  | use call => exact h.answer call
  | report origin message => exact h.log .error _
  | initData data => exact absurd rfl (hd data)
  | visit | start => exact h
  | track | untrack | due | wind | read | look | clearTimers | takeRegistration =>
    exact h.quiet rfl rfl

/-- The run lemma: along deeds that install no app the log says how the data came to be what they
are. -/
theorem Session.Logged.deeds (h : s.Logged start base) {deeds : List Deed}
    (hdeeds : ∀ d ∈ deeds, ∀ data, d ≠ .initData data) : (s.afterAll deeds).Logged start base :=
  Session.afterAll_keeps (fun _ d hd hs => hs.deed (hdeeds d hd)) h

/-- Initial data begin a new log behind all that was published. -/
theorem Session.Logged.initData (h : s.Logged start base) (data : Fields) :
    ∃ log, stateLog s.sent = base ++ log ∧ Consistent start log ∧
      (s.initData data).Logged (.obj data) (base ++ log ++ [⟨.obj data, data⟩]) := by
  obtain ⟨log, hlog, hconsistent, -⟩ := h
  refine ⟨log, hlog, hconsistent, [], ?_, consistent_nil _, rfl⟩
  show stateLog (s.sent ++ [_]) = _
  rw [stateLog_append, hlog, List.append_nil]
  rfl

end Logged

/-- Initial data are set by installing an app, and by no other deed. -/
theorem Deed.ne_initData {d : Deed} (h : d.installs = false) (data : Fields) : d ≠ .initData data := by
  rintro rfl
  cases h

/-! ## Engines -/

namespace Engine

variable {e : Engine}

/-- The value of a datum has its fields in order, if it is an object. -/
theorem sorted_toValue {d : Script.Datum} {fields : Fields} (h : d.toValue = .obj fields) :
    fields.Sorted := by
  rw [Script.Datum.toValue] at h
  cases hvalue : d.toValue? with
  | none =>
    rw [hvalue] at h
    cases h
  | some v =>
    obtain rfl : v = .obj fields := by simpa [hvalue] using h
    cases d with
    | map pairs =>
      obtain ⟨values, -, hobject⟩ := Option.map_eq_some_iff.mp hvalue
      exact Value.obj.inj hobject ▸ Fields.sorted_ofList values
    | array items =>
      obtain ⟨values, -, hobject⟩ := Option.map_eq_some_iff.mp hvalue
      cases hobject
    | float x =>
      rw [Script.Datum.toValue?] at hvalue
      split at hvalue <;> cases hvalue
    | _ => cases hvalue

/-- The data that an app begins with are sorted by name, as all data are. -/
theorem sorted_startData (app : Fields Script.Datum) : (startData app).Sorted := by
  unfold startData
  split
  next data hdata => exact sorted_toValue hdata
  next => exact .nil

/-- The program itself keeps the log, whatever it does and whether or not it faults, since it cannot
install an app by itself. -/
theorem logged_prepare (h : e.session.Logged (.obj []) []) (program : Option Script.Program) :
    (e.prepare program).2.session.Logged (.obj []) [] := by
  rw [(e.did_prepare program).session]
  refine h.deeds fun d hd => Deed.ne_initData ?_
  exact Deed.not_installs_of_isOfCall (e.isOfCall_prepareDeeds program d hd)

/-- An app is installed with a new log, which its initial data begin. -/
theorem logged_install (h : e.session.Logged (.obj []) []) (app : Fields Script.Datum) :
    (e.install app).session.Logged (.obj (startData app))
      (stateLog e.session.sent ++ [⟨.obj (startData app), startData app⟩]) := by
  obtain ⟨hsession, complaint, hdeeds, hreports⟩ := e.install_session app
  -- a complaint about the initial data is a log line
  have hcomplained : (e.session.afterAll complaint).Logged (.obj []) [] ∧
      stateLog (e.session.afterAll complaint).sent = stateLog e.session.sent := by
    let P : Session → Prop := fun s => s.Logged (.obj []) [] ∧ stateLog s.sent = stateLog e.session.sent
    refine Session.afterAll_keeps (P := P) ?_ ⟨h, rfl⟩
    rintro s d hd ⟨hlogged, hsent⟩
    obtain ⟨message, rfl⟩ := hreports d hd
    exact ⟨hlogged.log .error _, (s.stateLog_log .error _).trans hsent⟩
  obtain ⟨hlogged, hsent⟩ := hcomplained
  obtain ⟨log, hlog, -, hinit⟩ := hlogged.initData (startData app)
  rw [List.nil_append] at hlog hinit
  rw [hsent] at hlog
  rw [hsession, hdeeds, Session.afterAll_append, hlog]
  exact hinit

/-- Loading goes on with the log of the program, or begins a new one with the initial data of the app
that the program registers. -/
theorem logged_load (h : e.session.Logged (.obj []) []) (program : Option Script.Program) :
    (e.registered? program = none → (e.load program).2.session.Logged (.obj []) []) ∧
      ∀ app, e.registered? program = some app →
        (e.load program).2.session.Logged (.obj (startData app))
          (stateLog (e.prepare program).2.session.sent ++ [⟨.obj (startData app), startData app⟩]) := by
  have hemptied : (e.emptied program).session.Logged (.obj []) [] :=
    (logged_prepare h program).quiet rfl rfl
  constructor
  · intro hnone
    rw [e.load_of_unregistered hnone]
    exact hemptied
  · intro app hregisters
    rw [e.load_of_registered hregisters, (did_trigger _ _ _).session]
    refine (logged_install hemptied app).deeds fun d hd => Deed.ne_initData ?_
    exact Deed.not_installs_of_isOfCall (isOfCall_triggerDeeds _ _ _ d hd)

end Engine

/-! ## Sandboxes -/

/-- Before a program is loaded nothing is published, and the data are the empty object. -/
theorem Actor.logged_loading {app : String} {limits : Limits} {before : List Step}
    (h : ((create app limits).run before).thread = .loading) :
    ((create app limits).run before).engine.session.Logged (.obj []) [] ∧
      ((create app limits).run before).engine.session.sent = [] := by
  let P : Session → Prop := fun s => s.Logged (.obj []) [] ∧ s.sent = []
  have hcreate : P (create app limits).engine.session :=
    ⟨⟨[], rfl, consistent_nil _, rfl⟩, rfl⟩
  rw [run_session]
  refine Session.afterAll_keeps (P := P) ?_ hcreate
  rintro s d hd ⟨hlogged, hsent⟩
  obtain ⟨readings, rfl⟩ := (deeds_loading h).1 d hd
  exact ⟨hlogged.quiet rfl rfl, hsent⟩

/-- From loading on, whatever happens to the sandbox keeps the log. -/
theorem Actor.logged_loaded {a : Actor} {program : Option Script.Program} (h : a.thread = .loading)
    {start : Value} {base : List Mutation} (hload : (a.engine.load program).2.session.Logged start base)
    (after : List Step) : (a.run (.load program :: after)).engine.session.Logged start base := by
  have hserving : (a.load program).thread = .serving := rfl
  have hloaded := ne_loading hserving (by decide)
  have hrun : a.run (.load program :: after) = (a.load program).run after :=
    congrArg (fun b => Actor.run b after) (if_pos h)
  rw [hrun, (did_run hloaded after).session]
  exact Session.Logged.deeds hload fun d hd =>
    Deed.ne_initData (installs_deeds_loaded hloaded after d hd)

/-- The data of a sandbox are the snapshot of the last change. -/
theorem Actor.snapshot_latest (app : String) (limits : Limits) (steps : List Step) :
    ((create app limits).run steps).snapshot =
      latest (.obj []) (stateLog ((create app limits).run steps).engine.session.sent) := by
  by_cases hthread : ((create app limits).run steps).thread = .loading
  · exact (Actor.logged_loading hthread).1.snapshot_eq rfl
  · obtain ⟨before, program, after, rfl, hbefore⟩ := Actor.exists_load rfl hthread
    obtain ⟨hunregistered, hregistered⟩ := Engine.logged_load (logged_loading hbefore).1 program
    rw [run_append]
    cases hregisters : ((create app limits).run before).engine.registered? program with
    | none => exact (logged_loaded hbefore (hunregistered hregisters) after).snapshot_eq rfl
    | some registered =>
      refine (logged_loaded hbefore (hregistered registered hregisters) after).snapshot_eq ?_
      exact latest_snoc _ _ _

/--
The published changes of every run, and the data after it. The data are the snapshot of the last
change. Nothing is published until a program is loaded; what the program itself publishes is a
consistent log from the empty object on. If it registers no app, the log of the run is consistent as a
whole. If it does, its log is followed by one change that puts the initial data of that app in place of
all data, and by a consistent log from there on; and all of them together are consistent iff no key
that was there before is lost.
-/
theorem state_log (app : String) (limits : Limits) (steps : List Step) :
    let a := (Actor.create app limits).run steps
    let log := stateLog a.engine.session.sent
    a.snapshot = latest (.obj []) log ∧
      (a.thread = .loading ∧ log = [] ∨
        ∃ before program after, steps = before ++ .load program :: after ∧
          ((Actor.create app limits).run before).thread = .loading ∧
          let e := ((Actor.create app limits).run before).engine
          let earlier := stateLog (e.prepare program).2.session.sent
          Consistent (.obj []) earlier ∧
          (e.registered? program = none → Consistent (.obj []) log) ∧
          ∀ registered, e.registered? program = some registered →
            let data := Engine.startData registered
            ∃ later, log = earlier ++ ⟨.obj data, data⟩ :: later ∧ Consistent (.obj data) later ∧
              (Consistent (.obj []) log ↔ ∀ name, (latest (.obj []) earlier).get? name ≠ none →
                Fields.get? data name ≠ none)) := by
  intro a log
  refine ⟨Actor.snapshot_latest app limits steps, ?_⟩
  by_cases hthread : a.thread = .loading
  · refine .inl ⟨hthread, ?_⟩
    show stateLog a.engine.session.sent = []
    rw [(Actor.logged_loading hthread).2]
    rfl
  · obtain ⟨before, program, after, rfl, hbefore⟩ := Actor.exists_load rfl hthread
    have hfresh := (Actor.logged_loading hbefore).1
    obtain ⟨earlier, hsent, hearlier, -⟩ := Engine.logged_prepare hfresh program
    obtain ⟨hunregistered, hregistered⟩ := Engine.logged_load hfresh program
    -- what loading has left to the log is carried through the rest of the run
    have hafter : ∀ {start base},
        (((Actor.create app limits).run before).engine.load program).2.session.Logged start base →
          a.engine.session.Logged start base := by
      intro start base h
      have hlogged := Actor.logged_loaded hbefore h after
      rw [← Actor.run_append] at hlogged
      exact hlogged
    have hprogram : Consistent (.obj [])
        (stateLog (((Actor.create app limits).run before).engine.prepare program).2.session.sent) := by
      rw [hsent]
      exact hearlier
    refine .inr ⟨before, program, after, rfl, hbefore, hprogram, ?_, ?_⟩
    · intro hregisters
      obtain ⟨log', hlog, hconsistent, -⟩ := hafter (hunregistered hregisters)
      have hlog' : log = log' := hlog
      exact hlog' ▸ hconsistent
    · intro registered hregisters
      obtain ⟨later, hlog, hlater, -⟩ := hafter (hregistered registered hregisters)
      have hlog' : log = _ ++ _ ++ later := hlog
      refine ⟨later, by rw [hlog', List.append_assoc]; rfl, hlater, ?_⟩
      -- the event of loading replaces all data by its own, which is consistent if it has no fewer
      -- names
      rw [hlog', consistent_append, consistent_append, consistent_singleton, latest_snoc,
        replaces_self_iff _ (Engine.sorted_startData registered).nodup]
      exact ⟨fun h => h.1.2, fun h => ⟨⟨hprogram, h⟩, hlater⟩⟩

/-- A program that commits data before it registers an app with other data. -/
def commitsFirst : Script.Program :=
  [.evaluate (.call "setData" [.record [("a", .literal (.int 1))]]),
    .evaluate (.call "App" [.record [("data", .record [("b", .literal (.int 2))])]])]

/-- What it commits is lost: the log of its run is not consistent. -/
theorem commitsFirst_not_consistent :
    ¬ Consistent (.obj []) (stateLog
      ((Actor.create "demo" .standard).run [.load (some commitsFirst)]).engine.session.sent) := by
  have hlog : stateLog
      ((Actor.create "demo" .standard).run [.load (some commitsFirst)]).engine.session.sent
        = [⟨.obj [("a", .int 1)], [("a", .int 1)]⟩, ⟨.obj [("b", .int 2)], [("b", .int 2)]⟩] := by
    cbv
  intro h
  obtain ⟨-, hget⟩ := h [⟨.obj [("a", .int 1)], [("a", .int 1)]⟩] _ [] hlog
  have ha := hget "a"
  simp [latest, Value.get?, Fields.get?, Fields.ofList, Fields.merge, Fields.set] at ha

end AppletHost.Sandbox

import AppletHost.Proofs.Hosting.Showing

/-!
# Runs of a host as the viewers see them

`Host.Shown` says what the members of the set are shown. For a whole run there is more to tell:

* which template an app renders: the one that its last launch has loaded (`LaunchedFrom`);
* who is a member: every viewer that has connected, until it is evicted or leaves (`tracked_run`);
* who sends: the active app, and one that becomes it (`Host.SendsActiveOnly`).

> `viewers_see_active_app`: the viewers see the latest render of the active app, which shows its data,
> and are sent nothing of any other app.
-/

namespace AppletHost.Hosting

open Push (Connection Connections ConnectionId Envelope)

namespace Host

/-! ## Who is a member -/

/-- The viewer left, after it had connected. -/
def Left (s : Config.Settings) (steps : List HostStep) (id : ConnectionId) : Prop :=
  ∃ before after, steps = before ++ .closeViewer id :: after ∧
    id < ((ofSettings s).run before).outlets.viewers.next

/-- Who has left stays gone, since it is the past that tells of it. -/
theorem Left.snoc {s : Config.Settings} {steps : List HostStep} {id : ConnectionId}
    (hleft : Left s steps id) (step : HostStep) : Left s (steps ++ [step]) id := by
  obtain ⟨before, after, rfl, hid⟩ := hleft
  exact ⟨before, after ++ [step], by simp, hid⟩

/-- Every connection is in the set, was evicted, or has left. -/
def Tracked (left : ConnectionId → Prop) (cs : Connections) : Prop :=
  ∀ c ∈ cs.all, c.isClosed = false ∧ (c.isMember = true ∨ c.isEvicted = true ∨ left c.id)

section Tracked

variable {left : ConnectionId → Prop} {cs : Connections}

/-- A broadcast may end membership, but only by an eviction, which is noted on the connection. -/
theorem Tracked.broadcastAll (ht : Tracked left cs) (frames : List Envelope) :
    Tracked left (cs.broadcastAll frames) := by
  intro c hc
  rw [Connections.broadcastAll_eq] at hc
  obtain ⟨d, hd, rfl⟩ := List.mem_map.1 hc
  obtain ⟨hopen, hd'⟩ := ht d hd
  obtain ⟨hopen', hmember, hevicted⟩ := Connection.receiveAll_of_open hopen frames
  refine ⟨hopen', ?_⟩
  rw [Connection.id_receiveAll]
  rcases hd' with h | h | h
  · exact (hmember h).elim Or.inl fun h => Or.inr (Or.inl h)
  · exact Or.inr (Or.inl (hevicted h))
  · exact Or.inr (Or.inr h)

theorem Tracked.send (ht : Tracked left cs) (id : ConnectionId) (e : Envelope) :
    Tracked left (cs.send id e).2 := by
  intro c hc
  obtain ⟨d, hd, rfl | rfl⟩ := Connections.mem_send hc
  · exact ht c hd
  · rcases d.send_eq e with heq | heq
    · rw [heq]
      exact ht d hd
    · rw [heq]
      exact ht d hd

theorem Tracked.takeNext (ht : Tracked left cs) (id : ConnectionId) :
    Tracked left (cs.modify id (·.takeNext)) := by
  intro c hc
  obtain ⟨d, hd, ⟨-, rfl⟩ | ⟨-, rfl⟩⟩ := Connections.mem_modify hc
  · rcases d.takeNext_eq with heq | ⟨_, _, -, heq⟩
    · rw [heq]
      exact ht d hd
    · rw [heq]
      exact ht d hd
  · exact ht c hd

variable {h h' : Host} {step : HostStep}

/-- The step lemma: whatever happens at the host, each viewer is a member, or has left, or was
evicted. -/
theorem Tracked.change (hs : h.Shown) (ht : Tracked left h.outlets.viewers)
    (hstays : ∀ id, step ≠ .closeViewer id) (hchange : Change step h h') :
    Tracked left h'.outlets.viewers := by
  cases hchange with
  | act name i i' o' runs acts =>
    obtain ⟨frames, -, -, hviewers, -, -⟩ := acts.viewers
    show Tracked left o'.viewers
    rw [hviewers]
    split
    · exact ht.broadcastAll frames
    · exact ht
  | remove name =>
    rw [outlets_remove]
    exact ht
  | exhaust | giveBack => exact ht
  | start env name app port i o' _ _ _ _ _ starts =>
    show Tracked left ((i.setActive true).router.announce o').viewers
    rw [announce_eq (r := (i.setActive true).router) starts.current.shows, starts.viewers]
    exact ht.broadcastAll [_]
  | connect =>
    rw [h.connectViewer_viewers hs.numbered]
    intro c hc
    rcases List.mem_append.1 hc with hc | hc
    · exact ht c hc
    · cases List.mem_singleton.1 hc
      exact ⟨rfl, Or.inl rfl⟩
  | send id p _ => exact ht.send id _
  | write id => exact ht.takeNext id
  | close id asked => exact absurd asked (hstays id)
  | tick now => exact ht

end Tracked

/-- The run lemma: after any steps each viewer is a member, was evicted, or has left. -/
theorem tracked_run (s : Config.Settings) (steps : List HostStep) :
    Tracked (Left s steps) ((ofSettings s).run steps).outlets.viewers := by
  induction steps using List.reverseRecOn with
  | nil => exact nofun
  | append_singleton steps step ih =>
    have hs := shown_run s steps
    have ht : Tracked (Left s (steps ++ [step])) ((ofSettings s).run steps).outlets.viewers :=
      fun c hc => ⟨(ih c hc).1, (ih c hc).2.imp_right fun h => h.imp_right fun h => h.snoc step⟩
    rw [run_snoc]
    rcases Classical.em (∃ id, step = .closeViewer id) with ⟨id, rfl⟩ | hstays
    · intro c hc
      obtain ⟨d, hd, ⟨heq, rfl⟩ | ⟨-, rfl⟩⟩ := Connections.mem_modify hc
      · have hleft : Left s (steps ++ [.closeViewer id]) d.id :=
          ⟨steps, [], by rw [heq], hs.numbered d hd⟩
        exact ⟨(ht d hd).1, Or.inr (Or.inr hleft)⟩
      · exact ht c hd
    · -- that the viewers are numbered is carried along, as connecting relies on it
      let P : Host → Prop := fun a => a.Shown ∧ Tracked (Left s (steps ++ [step])) a.outlets.viewers
      have hkeeps : P (((ofSettings s).run steps).step step) := by
        refine (((ofSettings s).run steps).step_changes step).keeps ?_ ⟨hs, ht⟩
        rintro a b hchange ⟨ha, hta⟩
        exact ⟨ha.change hchange, hta.change ha (fun id h => hstays ⟨id, h⟩) hchange⟩
      exact hkeeps.2

/-! ## Templates -/

/-- The app of that name was last launched from this bundle. -/
def LaunchedFrom (catalog : Catalog) (steps : List HostStep) (name : String) (app : AppBundle) :
    Prop :=
  ∃ before env after, steps = before ++ .launch env name :: after ∧
    catalog.load env.files name = .ok app ∧
    ∀ env', .launch env' name ∈ after → ∃ e, catalog.load env'.files name = .error e

/-- The app renders this template, or the placeholder. -/
def Renders (template : Option String) (i : Instance) : Prop :=
  i.router.server.renderer = { Renderer.ofSource template with latest := i.latest }

/-- An app renders in one template, that of its launch, whatever it does. -/
theorem renders_of_acts {template : Option String} {i i' : Instance} {o o' : Outlets}
    (hacts : i.Acts o i' o') (hi : Renders template i) : Renders template i' := by
  have hi : i.router.server.renderer = { Renderer.ofSource template with latest := i.latest } := hi
  rw [Renders, hacts.renderer, hi]

/-- Every app that runs ran before, with the same template. -/
def Carried (h h' : Host) : Prop :=
  ∀ name i', h'.instance? name = some i' →
    ∃ i, h.instance? name = some i ∧ ∀ template, Renders template i → Renders template i'

section Templates

variable {h h' : Host} {step : HostStep}

/-- A step that leaves the instances alone carries every app over as it is. -/
theorem carried_of_instances (hinstances : h'.instances = h.instances) : Carried h h' := by
  intro name i hi
  refine ⟨i, ?_, fun _ => id⟩
  rwa [instance?, hinstances] at hi

/-- Apps that are carried over twice are carried over. -/
theorem Carried.trans {h'' : Host} (hc : Carried h h') (hc' : Carried h' h'') : Carried h h'' := by
  intro name i'' hi''
  obtain ⟨i', hi', hrenders'⟩ := hc' name i'' hi''
  obtain ⟨i, hi, hrenders⟩ := hc name i' hi'
  exact ⟨i, hi, fun template ht => hrenders' template (hrenders template ht)⟩

/-- Only a launch brings an app that did not run before. -/
theorem carried_change (hstays : ∀ env name, step ≠ .launch env name) (hchange : Change step h h') :
    Carried h h' := by
  cases hchange with
  | act name i i' o' runs acts =>
    intro n j hj
    have hj : (Fields.set h.instances name i').get? n = some j := hj
    rw [Fields.get?_set] at hj
    split at hj
    next heq =>
      cases hj
      exact ⟨i, heq ▸ runs, fun _ => renders_of_acts acts⟩
    next => exact ⟨j, hj, fun _ => id⟩
  | remove name =>
    intro n j hj
    rw [instance?_remove] at hj
    split at hj
    · cases hj
    · exact ⟨j, hj, fun _ => id⟩
  | start env name _ _ _ _ launch => exact absurd launch (hstays env name)
  | connect =>
    obtain ⟨o, heq⟩ := h.connectViewer_eq
    rw [heq]
    exact carried_of_instances rfl
  | exhaust | giveBack | send | write | close | tick => exact carried_of_instances rfl

/-- An app that is still found when room was made has another name and was there before. -/
theorem instance?_of_makeRoom {name other : String} {i : Instance}
    (hi : (h.makeRoom name).instance? other = some i) :
    name ≠ other ∧ h.instance? other = some i := by
  refine ⟨fun heq => ?_, ?_⟩
  · rw [← heq, instance?_makeRoom] at hi
    cases hi
  · unfold makeRoom at hi
    split at hi
    · rw [instance?, instances_removeAll, Fields.get?_nil] at hi
      cases hi
    · rw [instance?_remove] at hi
      split at hi
      · cases hi
      · exact hi

/-- An app that runs after an operation was launched by it, or ran before and was not launched. -/
theorem step_carries {name : String} {i' : Instance} (hi' : (h.step step).instance? name = some i') :
    (∃ env app, step = .launch env name ∧ h.catalog.load env.files name = .ok app ∧
      Renders app.template i') ∨
    (∃ i, h.instance? name = some i ∧ (∀ template, Renders template i → Renders template i') ∧
      ∀ env, step = .launch env name → ∃ e, h.catalog.load env.files name = .error e) := by
  rcases Classical.em (∃ env launched, step = .launch env launched) with ⟨env, launched, rfl⟩ | hstays
  · have hi' : (h.launch env launched).2.instance? name = some i' := hi'
    have hlaunches := h.launch_launches env launched
    generalize h.launch env launched = outcome at hlaunches hi'
    have hroom : ∀ i, (h.makeRoom launched).instance? name = some i →
        h.instance? name = some i ∧ ∀ env', HostStep.launch env launched = .launch env' name →
          ∃ e, h.catalog.load env'.files name = .error e := by
      intro i hi
      -- room was made for the launched app, so this is another one
      obtain ⟨hne, hi⟩ := instance?_of_makeRoom hi
      refine ⟨hi, ?_⟩
      rintro _ ⟨⟩
      exact absurd rfl hne
    cases hlaunches with
    | notLoaded e fails =>
      refine Or.inr ⟨i', hi', fun _ => id, ?_⟩
      rintro _ ⟨⟩
      exact ⟨e, fails⟩
    | noPort app e loaded exhausted =>
      obtain ⟨hi, hnot⟩ := hroom i' hi'
      exact Or.inr ⟨i', hi, fun _ => id, hnot⟩
    | notStarted app port e loaded leased =>
      obtain ⟨hi, hnot⟩ := hroom i' hi'
      exact Or.inr ⟨i', hi, fun _ => id, hnot⟩
    | started app port report i o' loaded leased starts =>
      rw [instance?_activate] at hi'
      split at hi'
      next heq =>
        cases hi'
        have hname : launched = name :=
          (Catalog.name_of_load loaded).symm.trans (starts.name.symm.trans heq)
        subst hname
        exact Or.inl ⟨env, app, rfl, loaded, starts.source⟩
      next =>
        obtain ⟨j, hj, rfl⟩ := Option.map_eq_some_iff.1 hi'
        obtain ⟨hi, hnot⟩ := hroom j hj
        exact Or.inr ⟨j, hi, fun _ => id, hnot⟩
  · have hcarried : Carried h (h.step step) := by
      refine (h.step_changes step).keeps (P := Carried h) ?_ (carried_of_instances rfl)
      intro a b hchange ha
      exact ha.trans (carried_change (fun env name heq => hstays ⟨env, name, heq⟩) hchange)
    obtain ⟨i, hi, hrenders⟩ := hcarried name i' hi'
    exact Or.inr ⟨i, hi, hrenders, fun env heq => absurd ⟨env, name, heq⟩ hstays⟩

end Templates

/-- Every running app was launched from the catalog, and renders in the template that the catalog had
for it. -/
theorem launched_run (s : Config.Settings) (steps : List HostStep) (name : String) (i : Instance)
    (hi : ((ofSettings s).run steps).instance? name = some i) :
    ∃ app, LaunchedFrom (ofSettings s).catalog steps name app ∧ Renders app.template i := by
  induction steps using List.reverseRecOn generalizing i with
  | nil => exact absurd hi (not_runs_ofSettings s name i)
  | append_singleton steps step ih =>
    rw [run_snoc] at hi
    have hcatalog : ((ofSettings s).run steps).catalog = (ofSettings s).catalog :=
      (run_fixed _ steps).1
    rcases step_carries hi with ⟨env, app, rfl, hload, hrenders⟩ | ⟨j, hj, hrenders, hnot⟩
    · rw [hcatalog] at hload
      exact ⟨app, ⟨steps, env, [], rfl, hload, nofun⟩, hrenders⟩
    · obtain ⟨app, ⟨before, env, after, rfl, hload, hafter⟩, hbefore⟩ := ih j hj
      refine ⟨app, ⟨before, env, after ++ [step], by simp, hload, fun env' hmem => ?_⟩,
        hrenders app.template hbefore⟩
      rcases List.mem_append.1 hmem with hmem | hmem
      · exact hafter env' hmem
      · rw [← hcatalog]
        exact hnot env' (List.mem_singleton.1 hmem).symm

/-! ## What is sent -/

/-- The viewers are sent nothing, or what the logic of the active app tells. -/
def FedByActive (h : Host) (cs : Connections) : Prop :=
  cs = h.outlets.viewers ∨ ∃ i frames, h.activeInstance? = some i ∧
    i.Emits h.outlets.now frames ∧ cs = h.outlets.viewers.broadcastAll frames

/-- What an operation sends the viewers. What a running app is asked to do reaches them only if it is
the active one. A launch shows them the latest render of the app that it starts, once this is the
active one; a viewer that connects is shown that of the active app; and a text is replied to. -/
def SendsActiveOnly (h : Host) (step : HostStep) : Prop :=
  let viewers := (h.step step).outlets.viewers
  match step with
  | .request name _ _ | .trigger name _ | .fire name _ =>
    h.FedByActive viewers ∧ (h.active ≠ some name → viewers = h.outlets.viewers)
  | .callActive _ _ | .setVisible _ => h.FedByActive viewers
  | .launch _ _ =>
    viewers = h.outlets.viewers ∨ ∃ i output, (h.step step).activeInstance? = some i ∧
      i.latest = some output ∧
      viewers = (h.outlets.viewers.broadcast (renderFrame output h.outlets.now)).2
  | .terminate _ | .shutdown | .tick _ => viewers = h.outlets.viewers
  | .connectViewer => ∃ c, viewers.all = h.outlets.viewers.all ++ [c] ∧
    c.accepted = .ofPayload (.connection true h.outlets.now) h.outlets.now
      :: (h.greeting?.map fun output => renderFrame output h.outlets.now).toList
  | .receiveText id _ => ∃ cs p, h.FedByActive cs ∧
    (p.kind = .methodCallResponse ∨ p.kind = .error) ∧
    viewers = (cs.send id (.ofPayload p h.outlets.now)).2
  | .writeFrame _ | .closeViewer _ =>
    viewers.all.map Connection.accepted = h.outlets.viewers.all.map Connection.accepted

section Sends

variable {h : Host}

/-- What a running app is asked to do. -/
theorem withInstance_sends {α : Type} (ho : h.Orderly) (name : String)
    {act : Instance → Outlets → α × Instance × Outlets}
    (hacts : ∀ (i : Instance) (o : Outlets), i.Acts o (act i o).2.1 (act i o).2.2) :
    h.FedByActive (h.withInstance name act).2.outlets.viewers ∧
      (h.active ≠ some name → (h.withInstance name act).2.outlets.viewers = h.outlets.viewers) ∧
      (h.withInstance name act).2.outlets.now = h.outlets.now := by
  unfold withInstance
  split
  next => exact ⟨Or.inl rfl, fun _ => rfl, rfl⟩
  next i hruns =>
    have hact := hacts i h.outlets
    obtain ⟨frames, -, hemits, hviewers, -, -⟩ := hact.viewers
    show h.FedByActive (act i h.outlets).2.2.viewers ∧
      (_ → (act i h.outlets).2.2.viewers = _) ∧ (act i h.outlets).2.2.now = _
    rw [hviewers]
    have hflag := ho.flagged name i hruns
    by_cases hactive : h.active = some name
    · rw [if_pos (hflag.2 hactive)]
      have hfound : h.activeInstance? = some i := activeInstance?_eq_some.2 ⟨name, hactive, hruns⟩
      exact ⟨Or.inr ⟨i, frames, hfound, hemits, rfl⟩, fun hne => absurd hactive hne, hact.now⟩
    · rw [if_neg fun h => hactive (hflag.1 h)]
      exact ⟨Or.inl rfl, fun _ => rfl, hact.now⟩

/-- A call of the active app sends its viewers what that app renders and logs. -/
theorem callActive_sends (ho : h.Orderly) (method : String) (args : Value) :
    h.FedByActive (h.callActive method args).2.outlets.viewers ∧
      (h.callActive method args).2.outlets.now = h.outlets.now := by
  cases hactive : h.active with
  | none =>
    rw [callActive_of_none hactive]
    exact ⟨Or.inl rfl, rfl⟩
  | some name =>
    rw [callActive_of_active hactive]
    obtain ⟨hfed, -, hnow⟩ := withInstance_sends ho name fun i o => i.request_acts method args o
    exact ⟨hfed, hnow⟩

/-- So does a change of visibility, whose hooks are those of the active app. -/
theorem changeVisibility_sends (ho : h.Orderly) (isVisible : Bool) :
    h.FedByActive (h.changeVisibility isVisible).2.outlets.viewers := by
  cases hactive : h.active with
  | none =>
    rw [changeVisibility_of_none hactive]
    exact Or.inl rfl
  | some name =>
    rw [changeVisibility_of_active hactive]
    obtain ⟨i, hruns⟩ := Option.ne_none_iff_exists'.1 (ho.active_runs name hactive)
    have hshown : h.setVisible name isVisible
        = { h with instances := Fields.set h.instances name { i with isVisible } } := by
      rw [setVisible, withInstance, hruns]
    have ho' : (h.setVisible name isVisible).Orderly :=
      ho.changes (setVisible_changes (.setVisible isVisible) h name isVisible)
    have hfound : (h.setVisible name isVisible).activeInstance? = some { i with isVisible } := by
      rw [hshown]
      exact activeInstance?_eq_some.2 ⟨name, hactive, Fields.get?_set_self h.instances name _⟩
    have houtlets : (h.setVisible name isVisible).outlets = h.outlets := by rw [hshown]
    rcases (withInstance_sends ho' name fun i o =>
      i.trigger_acts (if isVisible then .show else .hide) o).1 with hsame | ⟨j, frames, hj, hemits, hsent⟩
    · exact Or.inl (hsame.trans (by rw [houtlets]))
    · rw [hfound] at hj
      cases hj
      rw [houtlets] at hemits hsent
      exact Or.inr ⟨i, frames, activeInstance?_eq_some.2 ⟨name, hactive, hruns⟩, hemits, hsent⟩

theorem outlets_removeEach (h : Host) (names : List String) :
    (names.foldl remove h).outlets = h.outlets := by
  induction names generalizing h with
  | nil => rfl
  | cons name names ih => exact (ih (h.remove name)).trans (outlets_remove h name)

theorem outlets_makeRoom (h : Host) (name : String) : (h.makeRoom name).outlets = h.outlets := by
  unfold makeRoom
  split
  · exact outlets_removeEach h _
  · exact outlets_remove h name

/-- A launch sends what the launched app has rendered, since it is the active one from then on. -/
theorem launch_sends (h : Host) (env : Surroundings) (name : String) :
    h.SendsActiveOnly (.launch env name) := by
  have houtlets := h.outlets_makeRoom name
  show (h.launch env name).2.outlets.viewers = h.outlets.viewers ∨
    ∃ i output, (h.launch env name).2.activeInstance? = some i ∧ i.latest = some output ∧
      (h.launch env name).2.outlets.viewers
        = (h.outlets.viewers.broadcast (renderFrame output h.outlets.now)).2
  have hlaunches := h.launch_launches env name
  generalize h.launch env name = outcome at hlaunches ⊢
  cases hlaunches with
  | notLoaded e fails => exact Or.inl rfl
  | noPort app e loaded exhausted => exact Or.inl (congrArg Outlets.viewers houtlets)
  | notStarted app port e loaded leased => exact Or.inl (congrArg Outlets.viewers houtlets)
  | started app port report i o' loaded leased starts =>
    refine Or.inr ⟨i.setActive true, _, activeInstance?_activate _ i, starts.current.shows, ?_⟩
    show ((i.setActive true).router.announce o').viewers = _
    rw [announce_eq (r := (i.setActive true).router) starts.current.shows, starts.viewers,
      starts.now, houtlets]

/-- Whatever is done, the viewers are sent nothing of an app that is not active. -/
theorem Shown.sends (hs : h.Shown) (step : HostStep) : h.SendsActiveOnly step := by
  cases step with
  | launch env name => exact launch_sends h env name
  | terminate name =>
    show (h.terminate name).2.outlets.viewers = h.outlets.viewers
    unfold terminate
    split
    · rfl
    next name _ => exact congrArg Outlets.viewers (outlets_remove h name)
  | shutdown => exact congrArg Outlets.viewers (outlets_removeEach h _)
  | setVisible isVisible => exact changeVisibility_sends hs.orderly isVisible
  | callActive method args => exact (callActive_sends hs.orderly method args).1
  | request name method args =>
    obtain ⟨hfed, hnot, -⟩ :=
      withInstance_sends hs.orderly name fun i o => i.request_acts method args o
    exact ⟨hfed, hnot⟩
  | trigger name hook =>
    obtain ⟨hfed, hnot, -⟩ := withInstance_sends hs.orderly name fun i o => i.trigger_acts hook o
    exact ⟨hfed, hnot⟩
  | fire name now =>
    have hacts : ∀ (i : Instance) (o : Outlets), i.Acts o (i.fire now o).1 (i.fire now o).2 :=
      fun i o => i.fire_acts now o
    have hsends : h.FedByActive (h.fire name now).2.outlets.viewers ∧
        (h.active ≠ some name → (h.fire name now).2.outlets.viewers = h.outlets.viewers) ∧
        (h.fire name now).2.outlets.now = h.outlets.now :=
      withInstance_sends hs.orderly name hacts
    exact ⟨hsends.1, hsends.2.1⟩
  | connectViewer =>
    show ∃ c, h.connectViewer.2.outlets.viewers.all = _ ∧ _
    rw [h.connectViewer_viewers hs.numbered]
    exact ⟨_, rfl, rfl⟩
  | receiveText id text =>
    obtain ⟨h₁, p, heq, hkind, hcall⟩ := h.receiveText_cases id text
    -- a text may first make the active app act, and is answered in any case
    have hfirst : h.FedByActive h₁.outlets.viewers ∧ h₁.outlets.now = h.outlets.now := by
      rcases hcall with rfl | ⟨method, args, rfl⟩
      · exact ⟨Or.inl rfl, rfl⟩
      · exact callActive_sends hs.orderly method args
    refine ⟨h₁.outlets.viewers, p, hfirst.1, hkind, ?_⟩
    show (h.receiveText id text).outlets.viewers = _
    rw [heq, ← hfirst.2]
    rfl
  | writeFrame id => exact Connections.map_modify _ id _ Connection.accepted_takeNext
  | closeViewer id => exact Connections.map_modify _ id _ fun _ => rfl
  | tick now => rfl

end Sends

/--
After every run of a host: the latest render of every running app shows the data of its sandbox in the
template of its last launch, or in the placeholder. Every viewer that has connected is in the set,
unless it was evicted or has left. Every member of the set was last shown the latest render of the
active app. And whatever is done next, the viewers are sent nothing of an app that is not active.
-/
theorem viewers_see_active_app (s : Config.Settings) (steps : List HostStep) :
    let h := (ofSettings s).run steps
    (∀ name i, h.instance? name = some i → ∃ app, LaunchedFrom h.catalog steps name app ∧
      i.latest = some ⟨Template.render (Template.compile (app.template.getD placeholderTemplate))
        i.snapshot, i.snapshot⟩) ∧
    (∀ c ∈ h.outlets.viewers.all, c.isMember = true ∨ c.isEvicted = true ∨ Left s steps c.id) ∧
    (∀ i output, h.activeInstance? = some i → i.latest = some output →
      ∀ c ∈ h.outlets.viewers.all, c.isMember = true → LastShown c.accepted output) ∧
    ∀ step, h.SendsActiveOnly step := by
  intro h
  have hs : h.Shown := shown_run s steps
  refine ⟨fun name i hi => ?_, fun c hc => (tracked_run s steps c hc).2, hs.allShow, hs.sends⟩
  -- the template is that of the launch, the data are those of the sandbox
  obtain ⟨app, hlaunched, hrenders⟩ := launched_run s steps name i hi
  have hcatalog : h.catalog = (ofSettings s).catalog := (run_fixed _ steps).1
  refine ⟨app, hcatalog ▸ hlaunched, ?_⟩
  have hrenders : i.router.server.renderer = { Renderer.ofSource app.template with latest := i.latest } :=
    hrenders
  rw [(hs.current name i hi).shows, hrenders]
  rfl

end Host

end AppletHost.Hosting

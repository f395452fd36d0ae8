import AppletHost.Hosting.Run
import AppletHost.Proofs.Hosting.Instances
import Mathlib.Logic.Relation

/-!
# What an operation does to a host

Every operation of a host is a sequence of few kinds of changes: a running app does something, an app
is removed, a launch leases a port and starts an app on it or gives it back, and the rest is about the
viewers and the clock. What each `Host.Change` keeps, every run keeps:

> `step_changes`: an operation is one change after another.

A launch is the one operation with several outcomes; `Host.Launches` lists them.
-/

namespace AppletHost.Hosting.Host

open Relation (ReflTransGen)

/-! ## Finding running apps -/

/-- An app that is removed is gone, and the others are as before. -/
theorem instance?_remove (h : Host) (name other : String) :
    (h.remove name).instance? other = if name = other then none else h.instance? other := by
  unfold remove
  split
  next hnone =>
    split
    next heq => exact heq ▸ hnone
    next => rfl
  next i _ => exact Fields.get?_erase h.instances name other

theorem instance?_removeEach (h : Host) (names : List String) (other : String) :
    (names.foldl remove h).instance? other = if other ∈ names then none else h.instance? other := by
  induction names generalizing h with
  | nil => rfl
  | cons name names ih =>
    rw [List.foldl_cons, ih, instance?_remove]
    by_cases hmem : other ∈ names
    · rw [if_pos hmem, if_pos (List.mem_cons_of_mem name hmem)]
    · rw [if_neg hmem]
      by_cases heq : name = other
      · rw [if_pos heq, if_pos (heq ▸ List.mem_cons_self)]
      · rw [if_neg heq, if_neg fun h => (List.mem_cons.1 h).elim (fun h => heq h.symm) hmem]

/-- A host in which no name has an instance has none at all. -/
theorem instances_eq_nil {h : Host} (hnone : ∀ name, h.instance? name = none) :
    h.instances = [] := by
  cases heq : h.instances with
  | nil => rfl
  | cons f rest =>
    have hfirst := hnone f.1
    rw [instance?, heq, Fields.get?, if_pos rfl] at hfirst
    cases hfirst

theorem instances_removeAll (h : Host) : h.removeAll.instances = [] := by
  refine instances_eq_nil fun name => ?_
  rw [removeAll, instance?_removeEach]
  split
  next => rfl
  next hnot => exact Fields.get?_eq_none_of_not_mem hnot

/-- The app that becomes active is there and active, and every other one that is there is not. -/
theorem instance?_activate (h : Host) (i : Instance) (other : String) :
    (h.activate i).instance? other =
      if i.name = other then some (i.setActive true)
      else (h.instance? other).map fun j => j.setActive false := by
  show Fields.get? (Fields.set _ i.name _) other = _
  rw [Fields.get?_set]
  split
  · rfl
  · exact Fields.get?_map h.instances (fun j => j.setActive false) other

/-! ## Changes -/

/-- What a part of an operation does to a host. -/
inductive Change (step : HostStep) : Host → Host → Prop
  /-- A running app does something. -/
  | act (h : Host) (name : String) (i i' : Instance) (o' : Outlets)
      (runs : h.instance? name = some i) (acts : i.Acts h.outlets i' o') :
      Change step h { h with outlets := o', instances := Fields.set h.instances name i' }
  | remove (h : Host) (name : String) : Change step h (h.remove name)
  /-- No port can be leased. -/
  | exhaust (h : Host) (probe : Nat → Bool) (exhausted : (h.ports.lease? probe).1 = none) :
      Change step h { h with ports := (h.ports.lease? probe).2 }
  /-- A port is leased, and given back as the launch fails. -/
  | giveBack (h : Host) (probe : Nat → Bool) (port : Nat)
      (leased : (h.ports.lease? probe).1 = some port) :
      Change step h { h with ports := (h.ports.lease? probe).2.release port }
  /-- A port is leased, and an app is started on it. -/
  | start (h : Host) (env : Surroundings) (name : String) (app : AppBundle) (port : Nat)
      (i : Instance) (o' : Outlets) (launch : step = .launch env name)
      (loaded : h.catalog.load env.files name = .ok app)
      (room : h.instance? name = none) (alone : h.mode = .replace → h.instances = [])
      (leased : (h.ports.lease? env.isBindable).1 = some port)
      (starts : Instance.Starts app (env.reportedPort port) h.outlets i o') :
      Change step h
        ({ h with ports := (h.ports.lease? env.isBindable).2, outlets := o' }.activate i)
  | connect (h : Host) (asked : step = .connectViewer) : Change step h h.connectViewer.2
  /-- A viewer is sent something that is no render. -/
  | send (h : Host) (id : Push.ConnectionId) (p : Push.Payload) (other : p.kind ≠ .render) :
      Change step h (h.sendTo id p)
  | write (h : Host) (id : Push.ConnectionId) :
      Change step h (h.withViewers fun viewers => viewers.modify id (·.takeNext))
  | close (h : Host) (id : Push.ConnectionId) (asked : step = .closeViewer id) :
      Change step h (h.closeViewer id)
  | tick (h : Host) (now : Int) : Change step h { h with outlets.now := now }

/-- Changes, one after another. -/
abbrev Changes (step : HostStep) : Host → Host → Prop := ReflTransGen (Change step)

/-- Apps that are removed give back what they held, each in the host that the one before has left. -/
theorem removeEach_changes (step : HostStep) (h : Host) (names : List String) :
    Changes step h (names.foldl remove h) := by
  induction names generalizing h with
  | nil => exact .refl
  | cons name names ih => exact .head (.remove h name) (ih (h.remove name))

/-- Making room for an app removes what stands in its way: every app, or the one of that name. -/
theorem makeRoom_changes (step : HostStep) (h : Host) (name : String) :
    Changes step h (h.makeRoom name) := by
  unfold makeRoom
  split
  · exact removeEach_changes step h _
  · exact .single (.remove h name)

/-- A viewer that connects is a matter of what the apps share. -/
theorem connectViewer_eq (h : Host) : ∃ o, h.connectViewer.2 = { h with outlets := o } := by
  show ∃ o, greetViewer _ _ = _
  unfold greetViewer
  split
  · exact ⟨_, rfl⟩
  · exact ⟨_, rfl⟩

/-- Catalog and mode of a host stay. -/
theorem Change.fixed {step : HostStep} {h h' : Host} (hchange : Change step h h') :
    h'.catalog = h.catalog ∧ h'.mode = h.mode := by
  cases hchange with
  | remove name =>
    unfold Host.remove
    split
    · exact ⟨rfl, rfl⟩
    · exact ⟨rfl, rfl⟩
  | connect asked =>
    obtain ⟨o, heq⟩ := h.connectViewer_eq
    rw [heq]
    exact ⟨rfl, rfl⟩
  | _ => exact ⟨rfl, rfl⟩

/-- Catalogue and mode are those that the host was built with, whatever changes. -/
theorem Changes.fixed {step : HostStep} {h h' : Host} (hchanges : Changes step h h') :
    h'.catalog = h.catalog ∧ h'.mode = h.mode := by
  induction hchanges with
  | refl => exact ⟨rfl, rfl⟩
  | tail _ hlast ih => exact ⟨hlast.fixed.1.trans ih.1, hlast.fixed.2.trans ih.2⟩

/-! ## Operations -/

/-- Once there is room, no app of that name is left. -/
theorem instance?_makeRoom (h : Host) (name : String) : (h.makeRoom name).instance? name = none := by
  unfold makeRoom
  split
  · rw [instance?, instances_removeAll, Fields.get?_nil]
  · rw [instance?_remove, if_pos rfl]

/-- And where an app replaces every other one, no app is left at all. -/
theorem instances_makeRoom {h : Host} (hreplace : h.mode = .replace) (name : String) :
    (h.makeRoom name).instances = [] := by
  rw [makeRoom, hreplace]
  exact instances_removeAll h

/-- Whatever is done with one instance and the outlets of its server changes no other instance, and no
port. -/
theorem withInstance_changes {α : Type} (step : HostStep) (h : Host) (name : String)
    (act : Instance → Outlets → α × Instance × Outlets)
    (hacts : ∀ (i : Instance) (o : Outlets), i.Acts o (act i o).2.1 (act i o).2.2) :
    Changes step h (h.withInstance name act).2 := by
  unfold withInstance
  split
  next => exact .refl
  next i hruns => exact .single (.act h name i _ _ hruns (hacts i h.outlets))

theorem request_changes (step : HostStep) (h : Host) (name method : String) (args : Value) :
    Changes step h (h.request name method args).2 :=
  withInstance_changes step h name _ fun i o => i.request_acts method args o

theorem trigger_changes (step : HostStep) (h : Host) (name : String) (hook : Sandbox.Hook) :
    Changes step h (h.trigger name hook).2 :=
  withInstance_changes step h name _ fun i o => i.trigger_acts hook o

theorem fire_changes (step : HostStep) (h : Host) (name : String) (now : Nat) :
    Changes step h (h.fire name now).2 :=
  withInstance_changes step h name _ fun i o => i.fire_acts now o

theorem setVisible_changes (step : HostStep) (h : Host) (name : String) (isVisible : Bool) :
    Changes step h (h.setVisible name isVisible) :=
  withInstance_changes step h name _ fun i o => i.visible_acts isVisible o

/-- Without an active app there is nobody to call, and the host stays as it is. -/
theorem callActive_of_none {h : Host} (hnone : h.active = none) (method : String) (args : Value) :
    (h.callActive method args).2 = h := by
  rw [callActive, hnone]

/-- A call to the active app is a request to it by its name. -/
theorem callActive_of_active {h : Host} {name : String} (hactive : h.active = some name)
    (method : String) (args : Value) :
    (h.callActive method args).2 = (h.request name method args).2 := by
  rw [callActive, hactive]
  dsimp only
  -- the reply depends on the outcome, the host does not
  rcases h.request name method args with ⟨_ | _ | _, _⟩ <;> rfl

theorem changeVisibility_of_none {h : Host} (hnone : h.active = none) (isVisible : Bool) :
    (h.changeVisibility isVisible).2 = h := by
  rw [changeVisibility, hnone]

/-- The active app is told of its visibility first, and then its hook is triggered. -/
theorem changeVisibility_of_active {h : Host} {name : String} (hactive : h.active = some name)
    (isVisible : Bool) :
    (h.changeVisibility isVisible).2 =
      ((h.setVisible name isVisible).trigger name (if isVisible then .show else .hide)).2 := by
  rw [changeVisibility, hactive]
  dsimp only
  rcases (h.setVisible name isVisible).trigger name (if isVisible then .show else .hide) with
    ⟨_ | _ | _, _⟩ <;> rfl

theorem callActive_changes (step : HostStep) (h : Host) (method : String) (args : Value) :
    Changes step h (h.callActive method args).2 := by
  cases hactive : h.active with
  | none => rw [callActive_of_none hactive]
  | some name =>
    rw [callActive_of_active hactive]
    exact request_changes step h name method args

theorem changeVisibility_changes (step : HostStep) (h : Host) (isVisible : Bool) :
    Changes step h (h.changeVisibility isVisible).2 := by
  cases hactive : h.active with
  | none => rw [changeVisibility_of_none hactive]
  | some name =>
    rw [changeVisibility_of_active hactive]
    exact (setVisible_changes step h name isVisible).trans (trigger_changes step _ name _)

/-- A text of a viewer calls a method of the active app, or none; the reply is no render. -/
theorem receiveText_cases (h : Host) (id : Push.ConnectionId) (text : String) :
    ∃ h₁ p, h.receiveText id text = h₁.sendTo id p ∧ (p.kind = .methodCallResponse ∨ p.kind = .error) ∧
      (h₁ = h ∨ ∃ method args, h₁ = (h.callActive method args).2) := by
  unfold receiveText
  cases Push.Inbound.ofText text with
  | call method args =>
    obtain ⟨response, hresponse⟩ : ∃ response,
        answerCall method args h = (response, (h.callActive method args).2) := by
      rw [answerCall]
      rcases h.callActive method args with ⟨_ | _, _⟩ <;> exact ⟨_, rfl⟩
    refine ⟨_, .methodCallResponse response, ?_, Or.inl rfl, Or.inr ⟨method, args, rfl⟩⟩
    show (Host.sendTo (answerCall method args h).2 id
      (.methodCallResponse (answerCall method args h).1)) = _
    rw [hresponse]
  | unknownType name => exact ⟨h, _, rfl, Or.inr rfl, Or.inl rfl⟩
  | malformed => exact ⟨h, _, rfl, Or.inr rfl, Or.inl rfl⟩

/-- What a launch comes to. -/
inductive Launches (h : Host) (env : Surroundings) (name : String) :
    Except HostError LaunchReport × Host → Prop
  | notLoaded (e : HostError) (fails : h.catalog.load env.files name = .error e) :
      Launches h env name (.error e, h)
  | noPort (app : AppBundle) (e : HostError) (loaded : h.catalog.load env.files name = .ok app)
      (exhausted : ((h.makeRoom name).ports.lease? env.isBindable).1 = none) :
      Launches h env name (.error e,
        { h.makeRoom name with ports := ((h.makeRoom name).ports.lease? env.isBindable).2 })
  | notStarted (app : AppBundle) (port : Nat) (e : HostError)
      (loaded : h.catalog.load env.files name = .ok app)
      (leased : ((h.makeRoom name).ports.lease? env.isBindable).1 = some port) :
      Launches h env name (.error e,
        { h.makeRoom name with
          ports := ((h.makeRoom name).ports.lease? env.isBindable).2.release port })
  | started (app : AppBundle) (port : Nat) (report : LaunchReport) (i : Instance) (o' : Outlets)
      (loaded : h.catalog.load env.files name = .ok app)
      (leased : ((h.makeRoom name).ports.lease? env.isBindable).1 = some port)
      (starts : Instance.Starts app (env.reportedPort port) (h.makeRoom name).outlets i o') :
      Launches h env name (.ok report,
        { h.makeRoom name with
          ports := ((h.makeRoom name).ports.lease? env.isBindable).2, outlets := o' }.activate i)

/-- A launch without a port fails and leaves everything else as it is; otherwise the port is taken and
its server bound. -/
theorem lease_cases (h : Host) (env : Surroundings) :
    (∃ e, (h.ports.lease? env.isBindable).1 = none ∧
      h.lease env = (.error e, { h with ports := (h.ports.lease? env.isBindable).2 })) ∨
    ∃ port, (h.ports.lease? env.isBindable).1 = some port ∧
      ((∃ e, h.lease env
        = (.error e, { h with ports := (h.ports.lease? env.isBindable).2.release port })) ∨
      h.lease env = (.ok port, { h with ports := (h.ports.lease? env.isBindable).2 })) := by
  unfold lease
  rcases h.ports.lease? env.isBindable with ⟨_ | port, ports⟩
  · exact Or.inl ⟨_, rfl, rfl⟩
  · refine Or.inr ⟨port, rfl, ?_⟩
    cases env.listenerFault with
    | some reason => exact Or.inl ⟨_, rfl⟩
    | none => exact Or.inr rfl

/-- A launch, taken apart along the steps of the host: room is made, a port is leased, the app is
loaded and put in place. -/
theorem launch_launches (h : Host) (env : Surroundings) (name : String) :
    h.Launches env name (h.launch env name) := by
  unfold launch
  split
  next e hload => exact .notLoaded e hload
  next app hload =>
    rcases (h.makeRoom name).lease_cases env with
      ⟨e, hnone, heq⟩ | ⟨port, hsome, ⟨e, heq⟩ | heq⟩
    · rw [heq]
      exact .noPort app e hload hnone
    · rw [heq]
      exact .notStarted app port e hload hsome
    · rw [heq]
      unfold startOn
      cases env.sandboxFault with
      | some reason => exact .notStarted app port _ hload hsome
      | none => exact .started app port _ _ _ hload hsome (Instance.start_starts ..)

/-- A text from a viewer is a call to the active app, or it is answered without one. -/
theorem receiveText_changes (step : HostStep) (h : Host) (id : Push.ConnectionId) (text : String) :
    Changes step h (h.receiveText id text) := by
  obtain ⟨h₁, p, heq, hkind, hcall⟩ := h.receiveText_cases id text
  rw [heq]
  have hother : p.kind ≠ .render := by
    rcases hkind with hkind | hkind <;> rw [hkind] <;> decide
  have hfirst : Changes step h h₁ := by
    rcases hcall with rfl | ⟨method, args, rfl⟩
    · exact .refl
    · exact callActive_changes step h method args
  exact hfirst.tail (.send h₁ id p hother)

/-- Every operation is one change after another. -/
theorem step_changes (h : Host) (step : HostStep) : Changes step h (h.step step) := by
  cases step with
  | launch env name =>
    have hroom := makeRoom_changes (.launch env name) h name
    show Changes _ h (h.launch env name).2
    have hlaunches := h.launch_launches env name
    generalize h.launch env name = outcome at hlaunches ⊢
    cases hlaunches with
    | notLoaded e fails => exact .refl
    | noPort app e loaded exhausted => exact hroom.tail (.exhaust _ _ exhausted)
    | notStarted app port e loaded leased => exact hroom.tail (.giveBack _ _ port leased)
    | started app port report i o' loaded leased starts =>
      -- the app was loaded before room was made for it, by the same catalog
      obtain ⟨hcatalog, hmode⟩ := hroom.fixed
      rw [← hcatalog] at loaded
      exact hroom.tail (.start _ env name app port i o' rfl loaded (instance?_makeRoom h name)
        (fun hreplace => instances_makeRoom (hmode ▸ hreplace) name) leased starts)
  | terminate name =>
    show Changes _ h (h.terminate name).2
    unfold terminate
    split
    · exact .refl
    next name _ => exact .single (.remove h name)
  | shutdown => exact removeEach_changes _ h _
  | setVisible isVisible => exact changeVisibility_changes _ h isVisible
  | callActive method args => exact callActive_changes _ h method args
  | request name method args => exact request_changes _ h name method args
  | trigger name hook => exact trigger_changes _ h name hook
  | fire name now => exact fire_changes _ h name now
  | connectViewer => exact .single (.connect h rfl)
  | receiveText id text => exact receiveText_changes _ h id text
  | writeFrame id => exact .single (.write h id)
  | closeViewer id => exact .single (.close h id rfl)
  | tick now => exact .single (.tick h now)

/-! ## Runs -/

/-- What every change of an operation keeps, the operation keeps. -/
theorem Changes.keeps {P : Host → Prop} {step : HostStep} {h h' : Host}
    (hchanges : Changes step h h') (hkeeps : ∀ a b, Change step a b → P a → P b) (hP : P h) : P h' := by
  induction hchanges with
  | refl => exact hP
  | tail _ hlast ih => exact hkeeps _ _ hlast ih

/-- What every change of the operations of a run keeps, the run keeps. -/
theorem run_keeps {P : Host → Prop} {steps : List HostStep}
    (hkeeps : ∀ step ∈ steps, ∀ a b, Change step a b → P a → P b) {h : Host} (hP : P h) :
    P (h.run steps) := by
  induction steps generalizing h with
  | nil => exact hP
  | cons step steps ih =>
    have hfirst : P (h.step step) :=
      (h.step_changes step).keeps (hkeeps step List.mem_cons_self) hP
    exact ih (fun s hs => hkeeps s (List.mem_cons_of_mem step hs)) hfirst

theorem run_snoc (h : Host) (steps : List HostStep) (step : HostStep) :
    h.run (steps ++ [step]) = (h.run steps).step step := by
  simp [run]

theorem run_fixed (h : Host) (steps : List HostStep) :
    (h.run steps).catalog = h.catalog ∧ (h.run steps).mode = h.mode := by
  refine run_keeps (P := fun a => a.catalog = h.catalog ∧ a.mode = h.mode) ?_ ⟨rfl, rfl⟩
  rintro step - a b hchange ⟨hcatalog, hmode⟩
  exact ⟨hchange.fixed.1.trans hcatalog, hchange.fixed.2.trans hmode⟩

end AppletHost.Hosting.Host

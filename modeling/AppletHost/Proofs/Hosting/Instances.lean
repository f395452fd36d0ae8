import AppletHost.Hosting.Instance
import AppletHost.Proofs.Push.Connections
import AppletHost.Proofs.Sandbox.StateLog

/-!
# What the logic of a running app can do

Whatever an app is asked to do, its logic does something to the session, and its router then takes the
events that came of it. So all of these operations have the same effects on what the host sees:

> `Instance.Acts`: name, port and the active flag stay; the viewers are sent the frames of the events
> if the app is active, and nothing else; the last of these frames that is a render is the latest one.

An app is `Instance.Current` if its latest render shows its data and no event waits for the router. It
is so as soon as it is started (`start_current`), and every operation keeps it so.
-/

namespace AppletHost.Sandbox

namespace Actor

/-- A call is a run. -/
theorem call_run (a : Actor) (first : Step) : ∃ steps, (a.call first).2 = a.run steps := by
  let entered := a.run [first, .enter a.calls]
  refine ⟨[first, .enter a.calls] ++ ((entered.queue.map fun _ => .take) ++ [.leave, .hangUp]), ?_⟩
  rw [run_append, run_append]
  rfl

/-- A sandbox that was loaded stays so, and its data are the snapshot of the last change. -/
theorem run_latest {a : Actor} (hthread : a.thread ≠ .loading) (hsent : a.engine.session.sent = [])
    (steps : List Step) :
    (a.run steps).thread ≠ .loading ∧
      (a.run steps).snapshot = latest a.snapshot (stateLog (a.run steps).engine.session.sent) := by
  have hlogged : a.engine.session.Logged a.snapshot [] :=
    ⟨[], by rw [hsent]; rfl, consistent_nil _, rfl⟩
  have hrun : (a.run steps).engine.session.Logged a.snapshot [] := by
    rw [(did_run hthread steps).session]
    exact hlogged.deeds fun d hd => Deed.ne_initData (installs_deeds_loaded hthread steps d hd)
  obtain ⟨log, hlog, -, hlatest⟩ := hrun
  rw [hlog, List.nil_append]
  exact ⟨run_loaded hthread steps, hlatest⟩

end Actor

end AppletHost.Sandbox

namespace AppletHost.Hosting

open Sandbox (mutation? stateLog)

/-! ## Routers -/

namespace Router

/-- What those that watch are sent for an event. -/
def payload? (r : Router) : Event → Option Push.Payload
  | .stateMutated _ snapshot _ => some (renderPayload (r.server.renderer.render snapshot))
  | .logEmitted _ level args => some (.console level args)
  | .methodRequested .. => none

/-- The frames for some events. -/
def frames (r : Router) (now : Int) (events : List Event) : List Push.Envelope :=
  (events.filterMap r.payload?).map fun p => .ofPayload p now

/-- The render that some events leave as the latest, if they change the state. -/
def lastOutput? (r : Router) (events : List Event) : Option RenderOutput :=
  (stateLog events).getLast?.map fun m => r.server.renderer.render m.snapshot

/-- The frames of events come in the order of the events. -/
theorem frames_append (r : Router) (now : Int) (events events' : List Event) :
    r.frames now (events ++ events') = r.frames now events ++ r.frames now events' := by
  simp only [frames, List.filterMap_append, List.map_append]

/-- The last output is that of the later events, or of the earlier ones if the later have none. -/
theorem lastOutput?_append (r : Router) (events events' : List Event) :
    r.lastOutput? (events ++ events') = (r.lastOutput? events').or (r.lastOutput? events) := by
  simp only [lastOutput?, Sandbox.stateLog_append, List.getLast?_append, Option.map_or]

/-- What becomes of a router, and of what the apps share, when it takes some events. -/
structure Takes (r : Router) (o : Outlets) (events : List Event) (r' : Router) (o' : Outlets) :
    Prop where
  isActive : r'.isActive = r.isActive
  renderer : r'.server.renderer
    = { r.server.renderer with latest := (r.lastOutput? events).or r.latest }
  now : o'.now = o.now
  viewers : o'.viewers
    = if r.isActive then o.viewers.broadcastAll (r.frames o.now events) else o.viewers

theorem takes_nil (r : Router) (o : Outlets) : r.Takes o [] r o where
  isActive := rfl
  renderer := rfl
  now := rfl
  viewers := by
    split
    · rfl
    · rfl

/-- A router that receives an event takes it: it keeps what was rendered, and sends it on if its app
is active. -/
theorem receive_takes (r : Router) (o : Outlets) (e : Event) :
    r.Takes o [e] (r.receive o e).1 (r.receive o e).2 := by
  cases e with
  | stateMutated _ snapshot _ =>
    refine ⟨rfl, rfl, ?_, ?_⟩
    · show (if r.isActive then _ else _ : Outlets).now = o.now
      split
      · rfl
      · rfl
    · show (if r.isActive then _ else _ : Outlets).viewers = _
      split
      · rfl
      · rfl
  | logEmitted _ level args =>
    refine ⟨rfl, rfl, ?_, ?_⟩
    · show (if r.isActive then _ else _ : Outlets).now = o.now
      split
      · rfl
      · rfl
    · show (if r.isActive then _ else _ : Outlets).viewers = _
      split
      · rfl
      · rfl
  | methodRequested _ _ _ =>
    refine ⟨rfl, rfl, rfl, ?_⟩
    split
    · rfl
    · rfl

/-- Events that are taken in two rows are taken in one. The induction over a row of events rests on
it. -/
theorem Takes.trans {r r' r'' : Router} {o o' o'' : Outlets} {events events' : List Event}
    (h : r.Takes o events r' o') (h' : r'.Takes o' events' r'' o'') :
    r.Takes o (events ++ events') r'' o'' := by
  -- the template stays, so the renders of the later events are those of the first router
  have hrender : r'.server.renderer.render = r.server.renderer.render := by
    rw [h.renderer]
    rfl
  have hframes : r'.frames o'.now events' = r.frames o.now events' := by
    have hpayload : r'.payload? = r.payload? := by
      funext e
      cases e <;> simp only [payload?, hrender]
    rw [frames, frames, hpayload, h.now]
  have houtput : r'.lastOutput? events' = r.lastOutput? events' := by
    rw [lastOutput?, lastOutput?, hrender]
  have hlatest : r'.latest = (r.lastOutput? events).or r.latest := congrArg Renderer.latest h.renderer
  refine ⟨h'.isActive.trans h.isActive, ?_, h'.now.trans h.now, ?_⟩
  · rw [h'.renderer, h.renderer, houtput, hlatest]
    rw [lastOutput?_append, Option.or_assoc]
  · rw [h'.viewers, h.viewers, h.isActive, hframes]
    split
    · rw [frames_append, Push.Connections.broadcastAll_append]
    · rfl

theorem receiveAll_takes (r : Router) (o : Outlets) (events : List Event) :
    r.Takes o events (r.receiveAll o events).1 (r.receiveAll o events).2 := by
  induction events using List.reverseRecOn with
  | nil => exact takes_nil r o
  | append_singleton events e ih =>
    have hsnoc : r.receiveAll o (events ++ [e])
        = (r.receiveAll o events).1.receive (r.receiveAll o events).2 e := by
      simp [receiveAll]
    rw [hsnoc]
    exact ih.trans (receive_takes _ _ e)

/-- The last render among the frames is the one that is left as the latest. -/
theorem lastRender?_frames (r : Router) (now : Int) (events : List Event) :
    Push.lastRender? (r.frames now events)
      = (r.lastOutput? events).map fun output => .ofPayload (renderPayload output) now := by
  induction events using List.reverseRecOn with
  | nil => rfl
  | append_singleton events e ih =>
    have hlast : Push.lastRender? (r.frames now [e])
        = (r.lastOutput? [e]).map fun output => .ofPayload (renderPayload output) now := by
      cases e with
      | stateMutated _ _ _ => rfl
      | logEmitted _ _ _ => rfl
      | methodRequested _ _ _ => rfl
    rw [frames_append, Push.lastRender?_append, lastOutput?_append, ih, hlast, Option.map_or]

end Router

/-! ## Running apps -/

namespace Instance

/-- The latest render shows the data of the sandbox, and no event waits for the router. -/
structure Current (i : Instance) : Prop where
  loaded : i.sandbox.thread ≠ .loading
  settled : i.sandbox.engine.session.sent = []
  shows : i.latest = some (i.router.server.renderer.render i.snapshot)

/-- The frames are those for what the logic of the app may tell next. -/
def Emits (i : Instance) (now : Int) (frames : List Push.Envelope) : Prop :=
  frames = [] ∨ ∃ steps, frames = i.router.frames now (i.sandbox.run steps).engine.session.sent

/-- What an operation on a running app does to it, and to what the apps share. -/
structure Acts (i : Instance) (o : Outlets) (i' : Instance) (o' : Outlets) : Prop where
  name : i'.name = i.name
  port : i'.port = i.port
  isActive : i'.isActive = i.isActive
  renderer : i'.router.server.renderer = { i.router.server.renderer with latest := i'.latest }
  now : o'.now = o.now
  current : i.Current → i'.Current
  viewers : ∃ (frames : List Push.Envelope) (output? : Option RenderOutput),
    i.Emits o.now frames ∧
      o'.viewers = (if i.isActive then o.viewers.broadcastAll frames else o.viewers) ∧
      Push.lastRender? frames = (output?.map fun output =>
        .ofPayload (Router.renderPayload output) o.now) ∧
      i'.latest = output?.or i.latest

/-- The logic does something, and the router takes what came of it. -/
theorem settle_acts (i : Instance) (o : Outlets) (steps : List Sandbox.Step) :
    i.Acts o (({ i with sandbox := i.sandbox.run steps } : Instance).settle o).1
      (({ i with sandbox := i.sandbox.run steps } : Instance).settle o).2 := by
  let events := (i.sandbox.run steps).engine.session.sent
  have htakes : i.router.Takes o events (i.router.receiveAll o events).1
      (i.router.receiveAll o events).2 := i.router.receiveAll_takes o events
  have hlatest : (i.router.receiveAll o events).1.latest
      = (i.router.lastOutput? events).or i.latest := congrArg Renderer.latest htakes.renderer
  refine ⟨rfl, rfl, htakes.isActive, ?_, htakes.now, ?_,
    i.router.frames o.now events, i.router.lastOutput? events, Or.inr ⟨steps, rfl⟩,
    htakes.viewers, i.router.lastRender?_frames o.now events, hlatest⟩
  · show (i.router.receiveAll o events).1.server.renderer
      = { i.router.server.renderer with latest := (i.router.receiveAll o events).1.latest }
    rw [hlatest]
    exact htakes.renderer
  · rintro ⟨hloaded, hsettled, hshows⟩
    obtain ⟨hloaded', hsnapshot⟩ := Sandbox.Actor.run_latest hloaded hsettled steps
    refine ⟨hloaded', rfl, ?_⟩
    have hrender : (i.router.receiveAll o events).1.server.renderer.render
        = i.router.server.renderer.render := by
      rw [htakes.renderer]
      rfl
    show (i.router.receiveAll o events).1.latest
      = some ((i.router.receiveAll o events).1.server.renderer.render (i.sandbox.run steps).snapshot)
    rw [hlatest, hrender, hsnapshot, Router.lastOutput?, Sandbox.latest]
    -- without a change the latest render stays, and so do the data
    cases (stateLog events).getLast? with
    | none => exact hshows
    | some m => rfl

/-- A call of the sandbox, after which the router takes what came of it. -/
theorem call_acts (i : Instance) (o : Outlets) (first : Sandbox.Step) :
    i.Acts o (({ i with sandbox := (i.sandbox.call first).2 } : Instance).settle o).1
      (({ i with sandbox := (i.sandbox.call first).2 } : Instance).settle o).2 := by
  obtain ⟨steps, hsteps⟩ := i.sandbox.call_run first
  rw [hsteps]
  exact i.settle_acts o steps

/-- A call of a method makes the app act, and whatever it publishes goes through its router. -/
theorem request_acts (i : Instance) (method : String) (args : Value) (o : Outlets) :
    i.Acts o (i.request method args o).2.1 (i.request method args o).2.2 := by
  have hacts := i.call_acts o (.request method args)
  unfold request
  generalize i.sandbox.call (.request method args) = called at hacts ⊢
  exact hacts

theorem trigger_acts (i : Instance) (hook : Sandbox.Hook) (o : Outlets) :
    i.Acts o (i.trigger hook o).2.1 (i.trigger hook o).2.2 := by
  have hacts := i.call_acts o (.trigger hook.name .null)
  unfold trigger
  generalize i.sandbox.call (.trigger hook.name .null) = called at hacts ⊢
  exact hacts

theorem fire_acts (i : Instance) (now : Nat) (o : Outlets) :
    i.Acts o (i.fire now o).1 (i.fire now o).2 :=
  i.settle_acts o [.wind [now], .fire]

/-- To show or hide an app is no matter of its logic. -/
theorem visible_acts (i : Instance) (isVisible : Bool) (o : Outlets) :
    i.Acts o { i with isVisible } o where
  name := rfl
  port := rfl
  isActive := rfl
  renderer := rfl
  now := rfl
  current := fun h => ⟨h.loaded, h.settled, h.shows⟩
  viewers := ⟨[], none, Or.inl rfl, (ite_self _).symm, rfl, rfl⟩

/-- What starting an app comes to: it is not active yet, so the viewers see nothing of it. -/
structure Starts (app : AppBundle) (port : Nat) (o : Outlets) (i : Instance) (o' : Outlets) :
    Prop where
  name : i.name = app.name
  port : i.port = port
  isActive : i.isActive = false
  source : i.router.server.renderer = { Renderer.ofSource app.template with latest := i.latest }
  now : o'.now = o.now
  viewers : o'.viewers = o.viewers
  current : i.Current

/-- A program that is loaded and an app that is installed come to what `Starts` lists: the bundle, the
port and the style are those that were given, and whatever was published meanwhile went through the
router. -/
theorem start_starts (app : AppBundle) (port : Nat) (limits : Sandbox.Limits) (o : Outlets) :
    Starts app port o (start app port limits o).1 (start app port limits o).2 := by
  let load : Sandbox.Step := .load (Script.Program.read? app.script)
  have hsnapshot : ((Sandbox.Actor.create app.name limits).step load).snapshot = Sandbox.latest
      (.obj []) (stateLog ((Sandbox.Actor.create app.name limits).step load).engine.session.sent) :=
    Sandbox.Actor.snapshot_latest app.name limits [load]
  have hloaded : ((Sandbox.Actor.create app.name limits).step load).thread ≠ .loading := nofun
  unfold start
  -- how the logic is loaded no longer matters
  generalize (Sandbox.Actor.create app.name limits).step
    (.load (Script.Program.read? app.script)) = sandbox at hsnapshot hloaded ⊢
  let server : RenderServer := { style := app.style, renderer := .ofSource app.template }
  let created : Instance :=
    { name := app.name, port, sandbox, router := { app := app.name, server } }
  have htakes := created.router.receiveAll_takes o sandbox.engine.session.sent
  have hviewers : (created.settle o).2.viewers = o.viewers := htakes.viewers
  have hrenderer : (created.settle o).1.router.server.renderer
      = { Renderer.ofSource app.template with
          latest := (created.router.lastOutput? sandbox.engine.session.sent).or none } :=
    htakes.renderer
  dsimp only
  split
  next output hfirst =>
    have hlast : created.router.lastOutput? sandbox.engine.session.sent = some output :=
      (Option.or_none).symm.trans ((congrArg Renderer.latest hrenderer).symm.trans hfirst)
    refine ⟨rfl, rfl, htakes.isActive, ?_, htakes.now, hviewers, hloaded, rfl, ?_⟩
    · show (created.settle o).1.router.server.renderer = { Renderer.ofSource app.template with
        latest := (created.settle o).1.router.server.renderer.latest }
      rw [hrenderer]
    · show (created.settle o).1.router.server.renderer.latest
        = some ((created.settle o).1.router.server.renderer.render sandbox.snapshot)
      rw [hrenderer, hlast, hsnapshot, Sandbox.latest]
      -- the first render is that of the last change
      obtain ⟨m, hlog, rfl⟩ := Option.map_eq_some_iff.1 hlast
      rw [hlog]
      rfl
  next =>
    refine ⟨rfl, rfl, htakes.isActive, ?_, htakes.now, hviewers, hloaded, rfl, rfl⟩
    have hcached : ∀ data, ((created.settle o).1.router.server.renderer.renderAndCache data).2
        = { Renderer.ofSource app.template with
            latest := some ((created.settle o).1.router.server.renderer.render data) } := by
      intro data
      rw [hrenderer]
      rfl
    exact hcached _

end Instance

end AppletHost.Hosting

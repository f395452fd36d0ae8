import AppletHost.Proofs.Hosting.Bookkeeping
import Mathlib.Data.List.Forall2

/-!
# What the viewers are shown

Every running app keeps its latest render, and the viewers of the push channel are shown that of the
active app. So viewers are shown something at three moments: when the active app renders, when an app
becomes the active one, and when a viewer joins. `Host.Shown` says what every change keeps:

> `Shown.change`: the latest render of an app shows its data, and the last render that a member of the
> set was sent is the latest one of the active app.
-/

namespace AppletHost.Hosting

open Push (Connection Connections ConnectionId Envelope lastRender?)

/-- The frame of a render. -/
def renderFrame (output : RenderOutput) (now : Int) : Envelope :=
  .ofPayload (Router.renderPayload output) now

theorem kind_renderFrame (output : RenderOutput) (now : Int) :
    (renderFrame output now).kind = .render := rfl

/-- The frame shows the render. -/
def Shows (e : Envelope) (output : RenderOutput) : Prop := ∃ now, e = renderFrame output now

/-- The render that is published for an event. -/
def published? (r : Renderer) : Event → Option RenderOutput
  | .stateMutated _ snapshot _ => some (r.render snapshot)
  | _ => none

/-- The latest render is no matter for those that are published. -/
theorem published?_latest (r : Renderer) (latest : Option RenderOutput) (e : Event) :
    published? { r with latest } e = published? r e := by
  cases e <;> rfl

/-- A router keeps the render that it publishes. -/
theorem latest_receive (r : Router) (o : Outlets) (e : Event) :
    (r.receive o e).1.server.renderer =
      { r.server.renderer with latest := (published? r.server.renderer e).or r.latest } := by
  have houtput : r.lastOutput? [e] = published? r.server.renderer e := by
    cases e <;> rfl
  rw [(r.receive_takes o e).renderer, houtput]

/-- Of the frames for an event those that are renders show what is published. -/
theorem shows_frames (r : Router) (now : Int) (e : Event) :
    List.Forall₂ Shows ((r.frames now [e]).filter fun e => e.kind = .render)
      (published? r.server.renderer e).toList := by
  cases e with
  | stateMutated _ snapshot _ => exact .cons ⟨now, rfl⟩ .nil
  | logEmitted | methodRequested => exact .nil

/-- The last of some frames shows the last of the renders that they show. -/
theorem getLast?_shows {frames : List Envelope} {outputs : List RenderOutput}
    (h : List.Forall₂ Shows frames outputs) : Option.Rel Shows frames.getLast? outputs.getLast? := by
  induction h with
  | nil => exact .none
  | cons hfirst hrest ih =>
    cases hrest with
    | nil => exact .some hfirst
    | cons => exact ih

/-- The last render that these frames show. -/
def LastShown (frames : List Envelope) (output : RenderOutput) : Prop :=
  ∃ now, lastRender? frames = some (renderFrame output now)

/-- All members of the set show the render. -/
def AllShow (cs : Connections) (output : RenderOutput) : Prop :=
  ∀ c ∈ cs.all, c.isMember = true → LastShown c.accepted output

/-! ## What is sent -/

section AllShow

variable {cs : Connections} {output : RenderOutput}

/-- After some broadcasts the last render among them is shown, or what was shown before. -/
theorem AllShow.broadcastAll (h : AllShow cs output) {frames : List Envelope}
    {output? : Option RenderOutput} {now : Int}
    (hlast : lastRender? frames = output?.map fun output => renderFrame output now)
    {latest : RenderOutput} (hlatest : some latest = output?.or (some output)) :
    AllShow (cs.broadcastAll frames) latest := by
  intro c hc hmember
  rw [Connections.broadcastAll_eq] at hc
  obtain ⟨d, hd, rfl⟩ := List.mem_map.1 hc
  obtain ⟨hbefore, haccepted⟩ := Connection.accepted_of_receiveAll hmember
  rw [LastShown, haccepted, Push.lastRender?_append, hlast]
  cases output? with
  | none =>
    cases hlatest
    exact h d hd hbefore
  | some newer =>
    cases hlatest
    exact ⟨now, rfl⟩

/-- A render that is broadcast is shown by all that are still in the set. -/
theorem allShow_broadcast (cs : Connections) (output : RenderOutput) (now : Int) :
    AllShow (cs.broadcast (renderFrame output now)).2 output := by
  intro c hc hmember
  obtain ⟨d, -, rfl⟩ := List.mem_map.1 hc
  obtain ⟨-, haccepted⟩ := Connection.accepted_of_receive hmember
  refine ⟨now, ?_⟩
  rw [haccepted, Push.lastRender?_snoc, if_pos (kind_renderFrame output now)]

/-- What is sent to one connection and is no render changes nothing. -/
theorem AllShow.send (h : AllShow cs output) (id : ConnectionId) {e : Envelope}
    (hother : e.kind ≠ .render) : AllShow (cs.send id e).2 output := by
  intro c hc hmember
  obtain ⟨d, hd, rfl | rfl⟩ := Connections.mem_send hc
  · exact h c hd hmember
  · rcases d.send_eq e with heq | heq
    · rw [heq] at hmember ⊢
      exact h d hd hmember
    · rw [heq] at hmember ⊢
      have haccepted : ({ d with queue := d.queue ++ [e] } : Connection).accepted
          = d.accepted ++ [e] := by
        simp [Connection.accepted]
      rw [LastShown, haccepted, Push.lastRender?_snoc, if_neg hother]
      exact h d hd hmember

/-- To change connections without queueing anything, or letting any in, changes nothing. -/
theorem AllShow.modify (h : AllShow cs output) (id : ConnectionId) {f : Connection → Connection}
    (haccepted : ∀ c, (f c).accepted = c.accepted)
    (hmember : ∀ c, (f c).isMember = true → c.isMember = true) :
    AllShow (cs.modify id f) output := by
  intro c hc hc'
  obtain ⟨d, hd, ⟨-, rfl⟩ | ⟨-, rfl⟩⟩ := Connections.mem_modify hc
  · rw [haccepted]
    exact h d hd (hmember d hc')
  · exact h c hd hc'

end AllShow

namespace Host

/-! ## Viewers that connect -/

/-- Nothing is replayed to a viewer before the app has rendered. -/
theorem replay_of_none {r : Router} {o : Outlets} {id : ConnectionId} (h : r.latest = none) :
    r.replay o id = o := by
  have hlatest : r.server.renderer.latest = none := h
  rw [Router.replay, Renderer.withLatest, hlatest]

/-- What was rendered last is sent to the viewer, and to no other. -/
theorem replay_of_some {r : Router} {o : Outlets} {id : ConnectionId} {output : RenderOutput}
    (h : r.latest = some output) :
    r.replay o id = { o with viewers := (o.viewers.send id (renderFrame output o.now)).2 } := by
  have hlatest : r.server.renderer.latest = some output := h
  rw [Router.replay, Renderer.withLatest, hlatest]
  rfl

/-- An app that comes to the front sends its last render to all viewers. -/
theorem announce_eq {r : Router} {o : Outlets} {output : RenderOutput} (h : r.latest = some output) :
    r.announce o = { o with viewers := (o.viewers.broadcast (renderFrame output o.now)).2 } := by
  have hlatest : r.server.renderer.latest = some output := h
  rw [Router.announce, Renderer.withLatest, hlatest]
  rfl

/-- The render that a viewer is greeted with. -/
def greeting? (h : Host) : Option RenderOutput := h.activeInstance?.bind Instance.latest

/-- A viewer that connects is a member, and has got its greeting; the others see nothing of it. -/
theorem connectViewer_viewers (h : Host)
    (hnumbered : h.outlets.viewers.Numbered) :
    h.connectViewer.2.outlets.viewers =
      { all := h.outlets.viewers.all ++ [{
          id := h.outlets.viewers.next
          queue := .ofPayload (.connection true h.outlets.now) h.outlets.now
            :: (h.greeting?.map fun output => renderFrame output h.outlets.now).toList
          isMember := true }]
        next := h.outlets.viewers.next + 1 } := by
  have hold : ∀ c ∈ h.outlets.viewers.all, c.id ≠ h.outlets.viewers.next :=
    fun c hc => Nat.ne_of_lt (hnumbered c hc)
  let connected : Envelope := .ofPayload (.connection true h.outlets.now) h.outlets.now
  let next := h.outlets.viewers.next
  let joined := h.openViewer.2.joinViewer next
  have hjoined : joined.outlets.viewers
      = { all := h.outlets.viewers.all ++ [{ id := next, queue := [connected], isMember := true }]
          next := next + 1 } := by
    let opened : Connections :=
      { all := h.outlets.viewers.all ++ [{ id := next, capacity := Push.queueCapacity }]
        next := next + 1 }
    show (opened.send next connected).2.insert next = _
    -- the connection is not in the set yet when it is told that it is connected
    rw [Connections.send_newest hold rfl, Connections.insert, Connections.modify_newest hold rfl]
    rfl
  show (joined.greetViewer next).outlets.viewers = _
  have hactive : joined.activeInstance? = h.activeInstance? := rfl
  rw [greetViewer, hactive, greeting?]
  cases h.activeInstance? with
  | none => exact hjoined
  | some i =>
    show (i.router.replay joined.outlets next).viewers = _
    rw [Option.bind_some]
    cases hlatest : i.latest with
    | none =>
      rw [replay_of_none hlatest]
      exact hjoined
    | some output =>
      rw [replay_of_some hlatest]
      show (joined.outlets.viewers.send next (renderFrame output h.outlets.now)).2 = _
      rw [hjoined, Connections.send_newest hold rfl]
      rfl

/-! ## The invariant -/

/-- The latest renders show the data, and the members of the set show the active app. -/
structure Shown (h : Host) : Prop where
  orderly : h.Orderly
  current : ∀ name i, h.instance? name = some i → i.Current
  allShow : ∀ i output, h.activeInstance? = some i → i.latest = some output →
    AllShow h.outlets.viewers output
  numbered : h.outlets.viewers.Numbered

section Shown

variable {h h' : Host} {step : HostStep}

/-- What concerns neither the running apps nor the viewers. -/
theorem Shown.congr (hs : h.Shown) (ho : h'.Orderly) (hinstances : h'.instances = h.instances)
    (hactive : h'.active = h.active)
    (hviewers : ∀ output, AllShow h.outlets.viewers output → AllShow h'.outlets.viewers output)
    (hnumbered : h'.outlets.viewers.Numbered) : h'.Shown := by
  have hget : h'.instance? = h.instance? := by
    funext name
    rw [instance?, instance?, hinstances]
  have hfound : h'.activeInstance? = h.activeInstance? := by
    rw [activeInstance?, activeInstance?, hactive, hget]
  refine ⟨ho, fun name i hi => hs.current name i (hget ▸ hi), fun i output hi hlatest => ?_,
    hnumbered⟩
  exact hviewers output (hs.allShow i output (hfound ▸ hi) hlatest)

/-- The active instance is the one that runs under the active name. -/
theorem activeInstance?_eq_some {i : Instance} :
    h.activeInstance? = some i ↔ ∃ name, h.active = some name ∧ h.instance? name = some i :=
  Option.bind_eq_some_iff

/-- An app that was brought to the front is the active one. -/
theorem activeInstance?_activate (h : Host) (i : Instance) :
    (h.activate i).activeInstance? = some (i.setActive true) := by
  refine activeInstance?_eq_some.2 ⟨i.name, rfl, ?_⟩
  rw [instance?_activate, if_pos rfl]

/-- The step lemma for an app that acts: it sends what it renders if it is active, and is not seen if
it is not. -/
theorem Shown.act (hs : h.Shown) {name : String} {i i' : Instance} {o' : Outlets}
    (hruns : h.instance? name = some i) (hacts : i.Acts h.outlets i' o') :
    ({ h with outlets := o', instances := Fields.set h.instances name i' } : Host).Shown := by
  have hi := hs.current name i hruns
  obtain ⟨frames, output?, -, hviewers, hlast, hlatest⟩ := hacts.viewers
  have hget : ∀ n, ({ h with outlets := o', instances := Fields.set h.instances name i' } : Host).instance? n
      = if name = n then some i' else h.instance? n :=
    fun n => Fields.get?_set h.instances name n i'
  have ho : ({ h with outlets := o', instances := Fields.set h.instances name i' } : Host).Orderly :=
    hs.orderly.congr (hs.orderly.sorted.set name i') (sameApps_act hruns hacts) rfl rfl
  refine ⟨ho, fun n j hj => ?_, fun j output hj houtput => ?_, ?_⟩
  · rw [hget] at hj
    split at hj
    · cases hj
      exact hacts.current hi
    · exact hs.current n j hj
  · obtain ⟨n, hactive, hj⟩ := activeInstance?_eq_some.1 hj
    have hactive : h.active = some n := hactive
    rw [hget] at hj
    show AllShow o'.viewers output
    split at hj
    next heq =>
      -- it is the active one, so the viewers were sent its frames
      cases hj
      subst heq
      have hflag : i.isActive = true := (hs.orderly.flagged name i hruns).2 hactive
      have hbefore := hs.allShow i _ (activeInstance?_eq_some.2 ⟨name, hactive, hruns⟩) hi.shows
      rw [hviewers, if_pos hflag]
      exact hbefore.broadcastAll hlast (by rw [← houtput, hlatest, hi.shows])
    next hne =>
      -- another app is active, and the viewers were sent nothing
      have hflag : ¬ i.isActive = true := fun hflag =>
        hne (Option.some.inj (((hs.orderly.flagged name i hruns).1 hflag).symm.trans hactive))
      rw [hviewers, if_neg hflag]
      exact hs.allShow j output (activeInstance?_eq_some.2 ⟨n, hactive, hj⟩) houtput
  · show o'.viewers.Numbered
    rw [hviewers]
    split
    · exact hs.numbered.broadcastAll frames
    · exact hs.numbered

theorem outlets_remove (h : Host) (name : String) : (h.remove name).outlets = h.outlets := by
  unfold Host.remove
  split
  · rfl
  · rfl

/-- Removing an app sends nothing. If it was the active one there is no render left that the viewers
would have to have seen. -/
theorem Shown.remove (hs : h.Shown) (name : String) : (h.remove name).Shown := by
  refine ⟨hs.orderly.remove name, fun n j hj => ?_, fun j output hj houtput => ?_, ?_⟩
  · rw [instance?_remove] at hj
    split at hj
    · cases hj
    · exact hs.current n j hj
  · obtain ⟨n, hactive, hj⟩ := activeInstance?_eq_some.1 hj
    rw [instance?_remove] at hj
    rw [hs.orderly.active_remove] at hactive
    rw [outlets_remove]
    split at hj
    · cases hj
    · split at hactive
      · cases hactive
      · exact hs.allShow j output (activeInstance?_eq_some.2 ⟨n, hactive, hj⟩) houtput
  · rw [outlets_remove]
    exact hs.numbered

/-- An app that becomes the active one is shown to all viewers. -/
theorem Shown.activate (hs : h.Shown) {i : Instance} (hi : i.Current)
    (alone : h.mode = .replace → h.instances = []) : (h.activate i).Shown := by
  have houtlets : (h.activate i).outlets = { h.outlets with
      viewers := (h.outlets.viewers.broadcast
        (renderFrame (i.router.server.renderer.render i.snapshot) h.outlets.now)).2 } :=
    announce_eq (r := (i.setActive true).router) hi.shows
  refine ⟨hs.orderly.activate i alone, fun n j hj => ?_, fun j output hj houtput => ?_, ?_⟩
  · rw [instance?_activate] at hj
    split at hj
    · cases hj
      exact ⟨hi.loaded, hi.settled, hi.shows⟩
    · obtain ⟨k, hk, rfl⟩ := Option.map_eq_some_iff.1 hj
      have hcurrent := hs.current n k hk
      exact ⟨hcurrent.loaded, hcurrent.settled, hcurrent.shows⟩
  · rw [activeInstance?_activate] at hj
    cases hj
    have hlatest : i.latest = some output := houtput
    rw [hi.shows] at hlatest
    cases hlatest
    rw [houtlets]
    exact allShow_broadcast _ _ _
  · rw [houtlets]
    exact hs.numbered.broadcastAll [_]

/-- A viewer that joins is shown the last render at once, as the others were. -/
theorem Shown.connect (hs : h.Shown) : h.connectViewer.2.Shown := by
  obtain ⟨o, heq⟩ := h.connectViewer_eq
  have hviewers := h.connectViewer_viewers hs.numbered
  rw [heq] at hviewers ⊢
  have ho : ({ h with outlets := o } : Host).Orderly :=
    hs.orderly.congr hs.orderly.sorted (sameApps_of_instances rfl) rfl rfl
  refine ⟨ho, hs.current, fun i output hi houtput c hc hmember => ?_, fun c hc => ?_⟩
  · have hi : h.activeInstance? = some i := hi
    rw [hviewers] at hc
    rcases List.mem_append.1 hc with hc | hc
    · exact hs.allShow i output hi houtput c hc hmember
    · cases List.mem_singleton.1 hc
      have hgreeting : h.greeting? = some output := by
        rw [greeting?, hi]
        exact houtput
      rw [hgreeting]
      exact ⟨h.outlets.now, rfl⟩
  · rw [hviewers] at hc ⊢
    rcases List.mem_append.1 hc with hc | hc
    · exact Nat.lt_succ_of_lt (hs.numbered c hc)
    · cases List.mem_singleton.1 hc
      exact Nat.lt_succ_self _

/-- The step lemma: every change leaves each viewer with the last render of the active app before its
eyes. -/
theorem Shown.change (hs : h.Shown) (hchange : Change step h h') : h'.Shown := by
  have ho := hs.orderly.change hchange
  cases hchange with
  | act name i i' o' runs acts => exact hs.act runs acts
  | remove name => exact hs.remove name
  | exhaust | giveBack => exact hs.congr ho rfl rfl (fun _ h => h) hs.numbered
  | start env name app port i o' _ _ _ alone _ starts =>
    have hroom : ({ h with ports := (h.ports.lease? env.isBindable).2, outlets := o' } : Host).Shown := by
      refine hs.congr (hs.orderly.congr hs.orderly.sorted (sameApps_of_instances rfl) rfl rfl)
        rfl rfl (fun _ h => ?_) ?_
      · exact starts.viewers ▸ h
      · exact starts.viewers ▸ hs.numbered
    exact hroom.activate starts.current alone
  | connect => exact hs.connect
  | send id p other =>
    exact hs.congr ho rfl rfl (fun _ h => h.send id other) (hs.numbered.send id _)
  | write id =>
    refine hs.congr ho rfl rfl (fun _ h => h.modify id Connection.accepted_takeNext ?_)
      (hs.numbered.modify id Connection.id_takeNext)
    intro c hmember
    rwa [Connection.isMember_takeNext] at hmember
  | close id =>
    exact hs.congr ho rfl rfl (fun _ h => h.modify id (fun _ => rfl) nofun)
      (hs.numbered.modify id fun _ => rfl)
  | tick now => exact hs.congr ho rfl rfl (fun _ h => h) hs.numbered

end Shown

/-- The run lemma: so it is after any steps of the host. -/
theorem shown_run (s : Config.Settings) (steps : List HostStep) :
    ((ofSettings s).run steps).Shown := by
  refine run_keeps (fun _ _ _ _ hchange hs => hs.change hchange) ?_
  exact ⟨orderly_ofSettings s, fun name i hi => absurd hi (not_runs_ofSettings s name i),
    fun _ _ _ _ => nofun, nofun⟩

end Host

end AppletHost.Hosting

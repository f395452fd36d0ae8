import AppletHost.Proofs.Hosting.Showing
import AppletHost.Proofs.Push.Broadcasts
import Mathlib.Data.List.Chain

/-!
# A viewer that joins while the active app tells something

A viewer connects in three steps: it is told that it is connected, it joins the set, and it is shown
the latest render. The active app may render and log before, between and after them. What the viewer is
sent then depends on where the renders fall. Say that `early` were published before the viewer joined,
`between` until it is shown the latest one, and `late` after that; then it is sent

> `between`, the last of `early ++ between`, and `late`.

This is `Seen`, and `Follows.step` keeps it, if the queue of the viewer does not overflow. So a viewer
skips nothing once it has been sent its first render, and is sent one render twice at most
(`Seen.indices`). The headline is `joining_viewer_follows`.
-/

namespace AppletHost.Hosting

open Push (Connection Connections ConnectionId Envelope lastRender?)

/-- How far a viewer has come that connects. -/
inductive JoinPhase where
  | outside
  /-- It was told that it is connected. -/
  | opened (id : ConnectionId)
  | joined (id : ConnectionId)
  /-- It was shown the latest render. -/
  | greeted (id : ConnectionId)
deriving DecidableEq, Repr, Inhabited

/-- The number of the viewer, once it has one. -/
def JoinPhase.viewer? : JoinPhase → Option ConnectionId
  | .outside => none
  | .opened id | .joined id | .greeted id => some id

/-- Broadcasts reach the viewer. -/
def JoinPhase.isIn : JoinPhase → Bool
  | .joined _ | .greeted _ => true
  | _ => false

/-- A step of the viewer, of its writer, of the active app, or of the clock. -/
inductive JoinStep where
  /-- The viewer connects, joins, or is greeted, whatever is next. -/
  | proceed
  /-- The logic of the active app tells something. -/
  | tell (e : Event)
  | write
  | tick (now : Int)
deriving Repr, Inhabited

/-- A host with a viewer that connects. -/
structure Joining where
  host : Host
  phase : JoinPhase := .outside
deriving Inhabited

/-- The router of the active app takes an event. -/
def Host.tell (h : Host) (e : Event) : Host :=
  match h.active with
  | none => h
  | some name => (h.withInstance name fun i o =>
      let (router, o) := i.router.receive o e
      ((), { i with router }, o)).2

namespace Joining

/-- One step. -/
def step (j : Joining) : JoinStep → Joining
  | .proceed =>
    match j.phase with
    | .outside =>
      let (id, host) := j.host.openViewer
      { host, phase := .opened id }
    | .opened id => { host := j.host.joinViewer id, phase := .joined id }
    | .joined id => { host := j.host.greetViewer id, phase := .greeted id }
    | .greeted _ => j
  | .tell e => { j with host := j.host.tell e }
  | .write =>
    match j.phase.viewer? with
    | none => j
    | some id => { j with host := j.host.withViewers fun viewers => viewers.modify id (·.takeNext) }
  | .tick now => { j with host.outlets.now := now }

/-- Steps one after another. -/
def run (j : Joining) (steps : List JoinStep) : Joining := steps.foldl step j

/-- The connection of the viewer. -/
def viewer? (j : Joining) : Option Connection := j.phase.viewer?.bind j.host.outlets.viewers.get?

/-- The step sends the viewer a frame: it is in the set and the app tells something, or it is greeted. -/
def sends (j : Joining) : JoinStep → Bool
  | .proceed =>
    match j.phase with
    | .joined _ => true
    | _ => false
  | .tell e => j.phase.isIn && e.direction = .toHost
  | _ => false

/-- The viewer is sent a frame and its queue is full. -/
def overflows (j : Joining) (s : JoinStep) : Bool :=
  j.sends s && j.viewer?.any fun c => c.capacity ≤ c.queue.length

/-- No step finds the queue of the viewer full. -/
def hasRoom : Joining → List JoinStep → Bool
  | _, [] => true
  | j, s :: steps => !j.overflows s && (j.step s).hasRoom steps

end Joining

/-- The render that a step publishes. -/
def JoinStep.published? (r : Renderer) : JoinStep → Option RenderOutput
  | .tell e => Hosting.published? r e
  | _ => none

/-! ## What is seen -/

/-- The renders that a viewer was sent, of those that were the latest one after another. -/
inductive Seen (renders : List RenderOutput) : JoinPhase → List RenderOutput → Prop
  | opened (id : ConnectionId) : Seen renders (.opened id) []
  | joined (id : ConnectionId) (early late : List RenderOutput) (parts : renders = early ++ late) :
    Seen renders (.joined id) late
  | greeted (id : ConnectionId) (early between late : List RenderOutput)
      (parts : renders = early ++ between ++ late) :
    Seen renders (.greeted id) (between ++ (early ++ between).getLast?.toList ++ late)

/-- The frames that a viewer was sent: that it is connected, and then these renders among others. -/
structure Sees (c : Connection) (outputs : List RenderOutput) : Prop where
  isOpen : c.isClosed = false
  connected : ∃ now, c.accepted.head? = some (.ofPayload (.connection true now) now)
  renders : List.Forall₂ Shows (c.accepted.filter fun e => e.kind = .render) outputs

section Seen

variable {c : Connection} {outputs renders : List RenderOutput} {phase : JoinPhase}

/-- A run of renders by their places. The places of what a viewer has seen are a range of this kind,
but for one overlap. -/
theorem map_getElem?_range' (before run after : List RenderOutput) :
    (List.range' before.length run.length).map (fun k => (before ++ run ++ after)[k]?)
      = run.map some := by
  induction run generalizing before with
  | nil => rfl
  | cons output run ih =>
    have hrest := ih (before ++ [output])
    rw [List.length_append, List.length_singleton] at hrest
    rw [List.length_cons, List.range'_succ, List.map_cons, List.map_cons]
    congr 1
    · simp
    · rw [← hrest]
      simp

/-- Two runs of places, of which the second begins where the first ends. -/
theorem isChain_overlap {a m c n : Nat} (h : m = 0 ∨ c + 1 = a + m) :
    (List.range' a m ++ List.range' c n).IsChain (fun x y => x ≤ y ∧ y ≤ x + 1) := by
  have hrange : ∀ a m, (List.range' a m).IsChain fun x y => x ≤ y ∧ y ≤ x + 1 := fun a m =>
    (List.isChain_range' a m 1).imp fun x y hxy => by omega
  refine (hrange a m).append (hrange c n) fun x hx y hy => ?_
  rw [List.getLast?_range'] at hx
  rw [List.head?_range'] at hy
  split at hx
  · cases hx
  · split at hy
    · cases hy
    · cases hx
      cases hy
      omega

theorem count_overlap {a m c n : Nat} (h : m = 0 ∨ c + 1 = a + m) (x : Nat) :
    (List.range' a m ++ List.range' c n).count x ≤ if x = c then 2 else 1 := by
  have hrange : ∀ a m, (List.range' a m).count x ≤ 1 := fun a m =>
    List.nodup_iff_count_le_one.1 (List.nodup_range' 1) x
  have hfirst := hrange a m
  have hsecond := hrange c n
  rw [List.count_append]
  split
  · omega
  next hne =>
    -- a place in both runs is the first of the second one
    have hnot : x ∉ List.range' a m ∨ x ∉ List.range' c n := by
      rw [List.mem_range'_1, List.mem_range'_1]
      omega
    rcases hnot with hnot | hnot
    · rw [List.count_eq_zero_of_not_mem hnot]
      omega
    · rw [List.count_eq_zero_of_not_mem hnot]
      omega

/-- The renders that were sent, by their places among all: no place is skipped, and one at most comes
twice. -/
theorem Seen.indices (h : Seen renders phase outputs) :
    ∃ indices : List Nat, indices.map (fun k => renders[k]?) = outputs.map some ∧
      indices.IsChain (fun a b => a ≤ b ∧ b ≤ a + 1) ∧
      ∃ k, ∀ a, indices.count a ≤ if a = k then 2 else 1 := by
  cases h with
  | opened => exact ⟨[], rfl, List.isChain_nil, 0, fun a => Nat.zero_le _⟩
  | joined id early late parts =>
    have hplaces : outputs.length = 0 ∨
        early.length + outputs.length - 1 + 1 = early.length + outputs.length := by
      omega
    refine ⟨List.range' early.length outputs.length
      ++ List.range' (early.length + outputs.length - 1) 0, ?_,
      isChain_overlap hplaces, _, count_overlap hplaces⟩
    subst parts
    simpa using map_getElem?_range' early outputs []
  | greeted id early between late parts =>
    subst parts
    -- the latest render is the last one before the greeting, and `late` goes on from there
    rcases List.eq_nil_or_concat (early ++ between) with hnone | ⟨before, last, hlast⟩
    · obtain ⟨rfl, rfl⟩ := List.append_eq_nil_iff.1 hnone
      refine ⟨List.range' 0 0 ++ List.range' 0 late.length, ?_,
        isChain_overlap (Or.inl rfl), _, count_overlap (Or.inl rfl)⟩
      simpa using map_getElem?_range' [] late []
    · have hlength : before.length + 1 = early.length + between.length := by
        have := congrArg List.length hlast
        simp at this
        omega
      refine ⟨List.range' early.length between.length ++ List.range' before.length (late.length + 1), ?_,
        isChain_overlap (Or.inr hlength), _, count_overlap (Or.inr hlength)⟩
      have hfirst := map_getElem?_range' early between late
      have hsecond := map_getElem?_range' before (last :: late) []
      rw [List.map_append, hfirst, hlast]
      simpa using hsecond

/-- What is shown last, once the viewer was greeted, is the render that is the latest. -/
theorem Seen.getLast? {id : ConnectionId} (h : Seen renders (.greeted id) outputs) :
    outputs.getLast? = renders.getLast? := by
  cases h with
  | greeted _ early between late parts =>
    subst parts
    have hsingle : ∀ last? : Option RenderOutput, last?.toList.getLast? = last? := by
      intro last?
      cases last? with
      | none => rfl
      | some last => rfl
    simp only [List.getLast?_append, hsingle]
    cases between.getLast? with
    | none => simp
    | some last => rfl

theorem Sees.lastShown (h : Sees c outputs) {output : RenderOutput}
    (hlast : outputs.getLast? = some output) : LastShown c.accepted output := by
  have hrel := getLast?_shows h.renders
  rw [hlast] at hrel
  rw [LastShown, lastRender?]
  generalize (c.accepted.filter fun e => e.kind = .render).getLast? = last? at hrel ⊢
  cases hrel with
  | some hshows => exact hshows.imp fun now heq => congrArg some heq

/-- A frame that is queued is seen. What it shows, if it is a render, comes behind what was shown
before. -/
theorem Sees.push (h : Sees c outputs) (e : Envelope) {more : List RenderOutput}
    (hmore : List.Forall₂ Shows ([e].filter fun e => e.kind = .render) more) :
    Sees { c with queue := c.queue ++ [e] } (outputs ++ more) := by
  have haccepted : ({ c with queue := c.queue ++ [e] } : Connection).accepted = c.accepted ++ [e] :=
    (List.append_assoc _ _ _).symm
  refine ⟨h.isOpen, ?_, ?_⟩
  · obtain ⟨now, hconnected⟩ := h.connected
    refine ⟨now, ?_⟩
    rw [haccepted, List.head?_append, hconnected]
    rfl
  · rw [haccepted, List.filter_append]
    exact List.rel_append h.renders hmore

theorem Sees.takeNext (h : Sees c outputs) : Sees c.takeNext outputs := by
  refine ⟨?_, ?_, ?_⟩
  · rcases c.takeNext_eq with heq | ⟨_, _, -, heq⟩
    · rw [heq]
      exact h.isOpen
    · rw [heq]
      exact h.isOpen
  · rw [Connection.accepted_takeNext]
    exact h.connected
  · rw [Connection.accepted_takeNext]
    exact h.renders

/-- A render that is published is sent to the viewer once it is in the set. -/
theorem Seen.publish (h : Seen renders phase outputs) (more : List RenderOutput) :
    Seen (renders ++ more) phase (if phase.isIn then outputs ++ more else outputs) := by
  cases h with
  | opened id => exact .opened id
  | joined id early late parts =>
    subst parts
    exact .joined id early _ (List.append_assoc early outputs more)
  | greeted id early between late parts =>
    subst parts
    have hseen := Seen.greeted id early between (late ++ more)
      (List.append_assoc (early ++ between) late more)
    rwa [← List.append_assoc] at hseen

end Seen

/-! ## The active app -/

namespace Host

variable {h : Host} {r : Renderer} {renders : List RenderOutput}

/-- The active app, which knows that it is active, has this renderer; its latest render is the last of
these. -/
def Publishes (h : Host) (r : Renderer) (renders : List RenderOutput) : Prop :=
  ∃ i, h.activeInstance? = some i ∧ i.isActive = true ∧
    i.router.server.renderer = { r with latest := renders.getLast? }

/-- What the active app tells reaches the viewers, and a render becomes the latest one. -/
theorem Publishes.tell (hp : h.Publishes r renders) (e : Event) :
    (h.tell e).Publishes r (renders ++ (published? r e).toList) ∧
      ((h.tell e).outlets.viewers = h.outlets.viewers ∧ published? r e = none ∨
        e.direction = .toHost ∧
          ∃ frame, (h.tell e).outlets.viewers = (h.outlets.viewers.broadcast frame).2 ∧
            List.Forall₂ Shows ([frame].filter fun e => e.kind = .render)
              (published? r e).toList) := by
  obtain ⟨i, hi, hflag, hrenderer⟩ := hp
  obtain ⟨name, hactive, hruns⟩ := activeInstance?_eq_some.1 hi
  let i' : Instance := { i with router := (i.router.receive h.outlets e).1 }
  have htell : h.tell e = { h with
      outlets := (i.router.receive h.outlets e).2
      instances := Fields.set h.instances name i' } := by
    simp only [Host.tell, hactive, withInstance, hruns]
    rfl
  have htakes := i.router.receive_takes h.outlets e
  have hviewers : (h.tell e).outlets.viewers
      = h.outlets.viewers.broadcastAll (i.router.frames h.outlets.now [e]) := by
    rw [htell]
    exact htakes.viewers.trans (if_pos hflag)
  have hpublished : published? i.router.server.renderer e = published? r e := by
    rw [hrenderer, published?_latest]
  refine ⟨⟨i', ?_, htakes.isActive.trans hflag, ?_⟩, ?_⟩
  · rw [htell]
    exact activeInstance?_eq_some.2 ⟨name, hactive, Fields.get?_set_self _ _ _⟩
  · have hlatest : i.router.latest = renders.getLast? := congrArg Renderer.latest hrenderer
    rw [latest_receive, hpublished, hlatest, hrenderer, List.getLast?_append]
    cases published? r e with
    | none => rfl
    | some output => rfl
  · have hshows := shows_frames i.router h.outlets.now e
    rw [hpublished] at hshows
    rw [hviewers]
    cases e with
    | stateMutated | logEmitted => exact Or.inr ⟨rfl, _, rfl, hshows⟩
    | methodRequested => exact Or.inl ⟨rfl, rfl⟩

end Host

/-! ## The viewer -/

namespace Joining

/-- The viewer was sent what it should be, of these renders. -/
structure Follows (j : Joining) (r : Renderer) (renders : List RenderOutput) : Prop where
  publishes : j.host.Publishes r renders
  numbered : j.phase = .outside → j.host.outlets.viewers.Numbered
  sees : ∀ id, j.phase.viewer? = some id → ∃ c outputs,
    j.host.outlets.viewers.get? id = some c ∧ c.isMember = j.phase.isIn ∧
      Seen renders j.phase outputs ∧ Sees c outputs

variable {j : Joining} {r : Renderer} {renders : List RenderOutput} {id : ConnectionId}
  {c : Connection}

theorem viewer?_eq (hviewer : j.phase.viewer? = some id)
    (found : j.host.outlets.viewers.get? id = some c) : j.viewer? = some c := by
  rw [viewer?, hviewer]
  exact found

theorem room_of_sends {s : JoinStep} (hroom : j.overflows s = false) (hsends : j.sends s = true)
    (hviewer : j.viewer? = some c) : c.queue.length < c.capacity := by
  simpa [overflows, hsends, hviewer] using hroom

/-- A viewer is told first that it is connected, before it is in the set and can get any other
frame. -/
theorem Follows.enter (hj : j.Follows r renders) (hphase : j.phase = .outside) :
    (j.step .proceed).Follows r renders := by
  let o := j.host.outlets
  let connected : Envelope := .ofPayload (.connection true o.now) o.now
  -- its number is new, so no other connection is meant by it
  have hold : ∀ c ∈ o.viewers.all, c.id ≠ o.viewers.next :=
    fun c hc => Nat.ne_of_lt (hj.numbered hphase c hc)
  have hstep : j.step .proceed
      = { host := j.host.openViewer.2, phase := .opened o.viewers.next } := by
    simp only [step, hphase]
    rfl
  rw [hstep]
  refine ⟨hj.publishes, fun hphase => (by cases hphase), fun id hid => ?_⟩
  cases hid
  refine ⟨{ id := o.viewers.next, queue := [connected] }, [], ?_, rfl, .opened _, rfl, ⟨o.now, rfl⟩,
    .nil⟩
  show (({ all := o.viewers.all ++ [{ id := o.viewers.next, capacity := Push.queueCapacity }]
           next := o.viewers.next + 1 } : Connections).send _ connected).2.get? _ = _
  rw [Connections.send_newest hold rfl]
  exact Connections.get?_newest hold rfl

/-- A viewer that comes into the set is sent nothing yet. -/
theorem Follows.enroll (hj : j.Follows r renders) (hphase : j.phase = .opened id) :
    (j.step .proceed).Follows r renders := by
  obtain ⟨c, outputs, found, -, hseen, hsees⟩ := hj.sees id (by rw [hphase]; rfl)
  have hstep : j.step .proceed = { host := j.host.joinViewer id, phase := .joined id } := by
    simp only [step, hphase]
  have hc : c.step (.insert id) = { c with isMember := true } :=
    if_pos (Connections.id_of_get? found)
  rw [hphase] at hseen
  cases hseen
  rw [hstep]
  refine ⟨hj.publishes, fun hphase => (by cases hphase), fun other hother => ?_⟩
  cases hother
  refine ⟨{ c with isMember := true }, [], ?_, rfl,
    .joined id renders [] (List.append_nil renders).symm, hsees.isOpen, hsees.connected,
    hsees.renders⟩
  rw [← hc]
  exact Connections.get?_step found (.insert id)

/-- A viewer that is greeted is sent the latest render, which it may have got by a broadcast already.
This is the one place where a render can come twice. -/
theorem Follows.greet (hj : j.Follows r renders) (hphase : j.phase = .joined id)
    (hroom : j.overflows .proceed = false) : (j.step .proceed).Follows r renders := by
  have hviewer : j.phase.viewer? = some id := by
    rw [hphase]
    rfl
  obtain ⟨c, outputs, found, hmember, hseen, hsees⟩ := hj.sees id hviewer
  obtain ⟨i, hi, -, hrenderer⟩ := hj.publishes
  have hlatest : i.router.latest = renders.getLast? := congrArg Renderer.latest hrenderer
  have hstep : j.step .proceed = { host := j.host.greetViewer id, phase := .greeted id } := by
    simp only [step, hphase]
  have hgreet : j.host.greetViewer id
      = { j.host with outlets := i.router.replay j.host.outlets id } := by
    rw [Host.greetViewer, hi]
  rw [hstep, hgreet]
  refine ⟨hj.publishes, fun hphase => (by cases hphase), fun other hother => ?_⟩
  cases hother
  rw [hphase] at hmember hseen
  cases hseen with
  | joined _ early late parts =>
    -- what was published since it joined comes before the latest render, which is the last of it
    have hparts : renders = early ++ outputs ++ [] := parts.trans (List.append_nil _).symm
    have hgreeted := Seen.greeted id early outputs [] hparts
    rw [List.append_nil, ← parts] at hgreeted
    cases hlast : renders.getLast? with
    | none =>
      rw [hlast, Option.toList_none, List.append_nil] at hgreeted
      rw [Host.replay_of_none (hlatest.trans hlast)]
      exact ⟨c, outputs, found, hmember, hgreeted, hsees⟩
    | some output =>
      rw [hlast] at hgreeted
      rw [Host.replay_of_some (hlatest.trans hlast)]
      have hsends : j.sends .proceed = true := by
        simp only [sends, hphase]
      have hfits := room_of_sends hroom hsends (viewer?_eq hviewer found)
      exact ⟨_, _, Connections.get?_send found hsees.isOpen hfits _, hmember, hgreeted,
        hsees.push _ (.cons ⟨_, rfl⟩ .nil)⟩

/-- What the active app tells is sent to a viewer that is in the set. -/
theorem Follows.tell (hj : j.Follows r renders) (e : Event) (hroom : j.overflows (.tell e) = false) :
    (j.step (.tell e)).Follows r (renders ++ (published? r e).toList) := by
  obtain ⟨hpublishes, htold⟩ := hj.publishes.tell e
  refine ⟨hpublishes, fun hphase => ?_, fun id hviewer => ?_⟩
  · show (j.host.tell e).outlets.viewers.Numbered
    rcases htold with ⟨hviewers, -⟩ | ⟨-, frame, hviewers, -⟩
    · exact hviewers ▸ hj.numbered hphase
    · exact hviewers ▸ (hj.numbered hphase).broadcastAll [frame]
  · have hviewer : j.phase.viewer? = some id := hviewer
    obtain ⟨c, outputs, found, hmember, hseen, hsees⟩ := hj.sees id hviewer
    have hseen' := hseen.publish (published? r e).toList
    show ∃ c outputs, (j.host.tell e).outlets.viewers.get? id = some c ∧ c.isMember = j.phase.isIn ∧
      Seen _ j.phase outputs ∧ Sees c outputs
    rcases htold with ⟨hviewers, hnone⟩ | ⟨hdirection, frame, hviewers, hframe⟩
    · rw [hnone, Option.toList_none, List.append_nil] at hseen' ⊢
      rw [hviewers]
      exact ⟨c, outputs, found, hmember, hseen, hsees⟩
    · have hreceived : (j.host.tell e).outlets.viewers.get? id = some (c.receive frame) := by
        rw [hviewers]
        exact Connections.get?_step found (.broadcast frame)
      rw [hreceived]
      cases hin : j.phase.isIn with
      | false =>
        -- the viewer is not in the set yet
        rw [hin] at hmember hseen'
        rw [Connection.receive, if_neg (Bool.eq_false_iff.1 hmember)]
        exact ⟨c, outputs, rfl, hmember, hseen', hsees⟩
      | true =>
        rw [hin] at hmember hseen'
        have hsends : j.sends (.tell e) = true := by
          simp only [sends, hin, hdirection, decide_true, Bool.and_self]
        have hfits := room_of_sends hroom hsends (viewer?_eq hviewer found)
        have hoffer := Connection.offer_of_room hsees.isOpen hfits frame
        rw [Connection.receive_of_ok hmember hoffer]
        exact ⟨_, _, rfl, hmember, hseen', hsees.push frame hframe⟩

/-- Every step keeps it, if the queue of the viewer does not overflow. -/
theorem Follows.step (hj : j.Follows r renders) (s : JoinStep) (hroom : j.overflows s = false) :
    (j.step s).Follows r (renders ++ (s.published? r).toList) := by
  cases s with
  | tell e => exact hj.tell e hroom
  | tick now =>
    show Follows _ r (renders ++ [])
    rw [List.append_nil]
    exact ⟨hj.publishes, hj.numbered, hj.sees⟩
  | proceed =>
    show Follows _ r (renders ++ [])
    rw [List.append_nil]
    cases hphase : j.phase with
    | outside => exact hj.enter hphase
    | opened id => exact hj.enroll hphase
    | joined id => exact hj.greet hphase hroom
    | greeted id =>
      have hstep : j.step .proceed = j := by
        simp only [Joining.step, hphase]
      exact hstep.symm ▸ hj
  | write =>
    show Follows _ r (renders ++ [])
    rw [List.append_nil]
    cases hviewer : j.phase.viewer? with
    | none =>
      have hstep : j.step .write = j := by
        simp only [Joining.step, hviewer]
      exact hstep.symm ▸ hj
    | some id =>
      have hstep : j.step .write = { j with
          host := j.host.withViewers fun viewers => viewers.modify id (·.takeNext) } := by
        simp only [Joining.step, hviewer]
      obtain ⟨c, outputs, found, hmember, hseen, hsees⟩ := hj.sees id hviewer
      rw [hstep]
      refine ⟨hj.publishes, fun hphase => ?_, fun other hother => ?_⟩
      · exact (hj.numbered hphase).modify id Connection.id_takeNext
      · cases hviewer.symm.trans hother
        have found' := Connections.get?_modify found id Connection.id_takeNext
        rw [if_pos (Connections.id_of_get? found)] at found'
        exact ⟨_, outputs, found', c.isMember_takeNext.trans hmember, hseen, hsees.takeNext⟩

theorem Follows.run (hj : j.Follows r renders) (steps : List JoinStep) (hroom : j.hasRoom steps = true) :
    (j.run steps).Follows r (renders ++ steps.filterMap (·.published? r)) := by
  induction steps generalizing j renders with
  | nil =>
    rw [List.filterMap_nil, List.append_nil]
    exact hj
  | cons s steps ih =>
    obtain ⟨hfirst, hrest⟩ := (Bool.and_eq_true _ _).mp hroom
    have hrun := ih (hj.step s ((Bool.not_eq_true' _).mp hfirst)) hrest
    rw [List.append_assoc] at hrun
    have hfilter : (s :: steps).filterMap (·.published? r)
        = (s.published? r).toList ++ steps.filterMap (·.published? r) := by
      rw [List.filterMap_cons]
      cases s.published? r with
      | none => rfl
      | some output => rfl
    rw [hfilter]
    exact hrun

end Joining

/--
Whatever the active app does while a viewer connects: let `renders` be what it had rendered last, and
then all that it publishes. Its latest render is the last of them. If the queue of the viewer never
overflows, the first frame that the viewer is sent tells that it is connected. The renders that it is
sent are some of these by their places: no place is skipped and none comes before an earlier one, and
one of them at most comes twice. And as soon as the viewer was greeted, the last of them is the latest.
(That the active app knows that it is, and that numbers are not given out twice, is so in every run of
a host, by `Host.shown_run`.)
-/
theorem joining_viewer_follows (h : Host) (i : Instance) (hactive : h.activeInstance? = some i)
    (hflag : i.isActive = true) (hnumbered : h.outlets.viewers.Numbered) (steps : List JoinStep)
    (hroom : ({ host := h } : Joining).hasRoom steps = true) :
    let j := ({ host := h } : Joining).run steps
    let renders :=
      i.latest.toList ++ steps.filterMap (·.published? i.router.server.renderer)
    (∃ i', j.host.activeInstance? = some i' ∧ i'.latest = renders.getLast?) ∧
    ∀ id, j.phase.viewer? = some id → ∃ c, j.viewer? = some c ∧
      (∃ now, c.accepted.head? = some (.ofPayload (.connection true now) now)) ∧
      ∃ (outputs : List RenderOutput) (places : List Nat),
        List.Forall₂ Shows (c.accepted.filter fun e => e.kind = .render) outputs ∧
        places.map (fun k => renders[k]?) = outputs.map some ∧
        places.IsChain (fun a b => a ≤ b ∧ b ≤ a + 1) ∧
        (∃ k, ∀ a, places.count a ≤ if a = k then 2 else 1) ∧
        (j.phase = .greeted id → ∀ output, renders.getLast? = some output →
          LastShown c.accepted output) := by
  intro j renders
  have hstart : ({ host := h } : Joining).Follows i.router.server.renderer i.latest.toList := by
    refine ⟨⟨i, hactive, hflag, ?_⟩, fun _ => hnumbered, nofun⟩
    -- the renders begin with the one that was kept when the viewer came
    have hlast : i.latest.toList.getLast? = i.router.server.renderer.latest := by
      show i.latest.toList.getLast? = i.latest
      cases i.latest with
      | none => rfl
      | some output => rfl
    rw [hlast]
  have hj : j.Follows i.router.server.renderer renders := hstart.run steps hroom
  refine ⟨?_, fun id hviewer => ?_⟩
  · obtain ⟨i', hi', -, hrenderer⟩ := hj.publishes
    exact ⟨i', hi', congrArg Renderer.latest hrenderer⟩
  · obtain ⟨c, outputs, found, -, hseen, hsees⟩ := hj.sees id hviewer
    obtain ⟨places, hplaces, hchain, hcount⟩ := hseen.indices
    refine ⟨c, Joining.viewer?_eq hviewer found, hsees.connected, outputs, places, hsees.renders,
      hplaces, hchain, hcount, fun hphase output hlast => ?_⟩
    rw [hphase] at hseen
    exact hsees.lastShown (hseen.getLast?.trans hlast)

/-- A host with an app that counts. -/
def countingHost : Host := (default : Host).activate { (default : Instance) with name := "counter" }

/-- A viewer connects while the app counts to four. -/
def joiningSteps : List JoinStep :=
  let count (n : Int) : JoinStep := .tell (.stateMutated "counter" (.obj [("n", .int n)]) [])
  [count 1, .proceed, count 2, .proceed, count 3, .proceed, .write, count 4,
    .tell (.logEmitted "counter" .log [])]

/-- The third render is sent twice, as it falls before the greeting, and the fourth is the last. -/
theorem viewer_of_counter_follows :
    let j := ({ host := countingHost } : Joining).run joiningSteps
    ∃ c, j.viewer? = some c ∧ (c.accepted.filter fun e => e.kind = .render).length = 3 ∧
      LastShown c.accepted ⟨"", .obj [("n", .int 4)]⟩ := by
  intro j
  have hj := joining_viewer_follows countingHost _ (Host.activeInstance?_activate _ _) rfl nofun
    joiningSteps (by decide +kernel)
  have hphase : j.phase = .greeted 0 := by
    decide +kernel
  have hlength : j.viewer?.map (fun c => (c.accepted.filter fun e => e.kind = .render).length)
      = some 3 := by
    decide +kernel
  obtain ⟨-, hviewer⟩ := hj
  obtain ⟨c, hc, -, outputs, places, -, -, -, -, hlast⟩ := hviewer 0 (congrArg _ hphase)
  rw [hc] at hlength
  exact ⟨c, hc, Option.some.inj hlength, hlast hphase _ rfl⟩

end AppletHost.Hosting

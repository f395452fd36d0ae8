import AppletHost.Proofs.Push.Connections

/-!
# Broadcasts to a set that changes

Connections come into the set and leave it, their writers take frames at their own pace or go, and
frames are broadcast in between. `Connections.step` is one of these operations, `Connection.step` what
it does to one connection. The connections do not touch each other:

> `get?_run`: in every run of the set a connection becomes what it becomes on its own.

So a run is looked at from one connection. It is a member from its insertion on, and stays so until it
is removed or a broadcast cannot be queued for it (`Connection.Ends`). Two facts tell the rest:

> `Keeps.member`: for a connection that stays a member every broadcast is queued.
>
> `stranger_run`: for one that is no member nothing is queued, until it is inserted again.

The headline is `broadcasts_while_member`.
-/

namespace AppletHost.Push

/-- An operation on the set, or on the queue of one connection. -/
inductive SetStep where
  | add (capacity : Nat)
  | insert (id : ConnectionId)
  | remove (id : ConnectionId)
  | broadcast (e : Envelope)
  /-- The writer of a connection takes the next frame. -/
  | write (id : ConnectionId)
  /-- The writer of a connection goes. -/
  | close (id : ConnectionId)
deriving Repr, Inhabited

namespace SetStep

/-- The step is a broadcast, or one of that connection. -/
def concerns (id : ConnectionId) : SetStep → Bool
  | .add _ => false
  | .broadcast _ => true
  | .insert other | .remove other | .write other | .close other => id == other

/-- The frame that is broadcast. -/
def frame? : SetStep → Option Envelope
  | .broadcast e => some e
  | _ => none

/-- Of all steps of the set only a broadcast has a frame for every connection. -/
theorem frame?_eq_some {s : SetStep} {e : Envelope} : s.frame? = some e ↔ s = .broadcast e := by
  cases s <;> simp [frame?]

/-- The frames that are broadcast, oldest first. -/
def frames (steps : List SetStep) : List Envelope := steps.filterMap frame?

end SetStep

/-! ## One connection -/

namespace Connection

/-- A broadcast is queued for the connection. -/
def queues (c : Connection) (e : Envelope) : Bool := c.isMember && (c.offer e).isOk

/-- What a step does to one connection. -/
def step (c : Connection) : SetStep → Connection
  | .add _ => c
  | .insert id => if c.id = id then { c with isMember := true } else c
  | .remove id => if c.id = id then { c with isMember := false } else c
  | .broadcast e => c.receive e
  | .write id => if c.id = id then c.takeNext else c
  | .close id => if c.id = id then c.close else c

/-- Steps one after another. -/
def run (c : Connection) (steps : List SetStep) : Connection := steps.foldl step c

/-- The broadcast that a step queues for the connection, if it does. -/
def acceptedIn (c : Connection) : SetStep → List Envelope
  | .broadcast e => if c.queues e then [e] else []
  | _ => []

/-- The broadcasts that are queued for the connection, oldest first. -/
def acceptedBy : Connection → List SetStep → List Envelope
  | _, [] => []
  | c, step :: steps => c.acceptedIn step ++ (c.step step).acceptedBy steps

/-- The step ends a membership: the connection is removed, or a broadcast is refused. -/
inductive Ends (c : Connection) : SetStep → Option Refusal → Prop
  | removed : c.Ends (.remove c.id) none
  | refused {e : Envelope} {refusal : Refusal} (refused : c.offer e = .error refusal) :
    c.Ends (.broadcast e) (some refusal)

/-- No step ends the membership. -/
def Keeps (c : Connection) (steps : List SetStep) : Prop :=
  ∀ before step after, steps = before ++ step :: after → ∀ why, ¬ (c.run before).Ends step why

variable {c d : Connection} {e : Envelope} {refusal : Refusal} {s : SetStep}

/-- A row of steps may be cut in two: the connection goes through the first part, and then through the
second. -/
theorem run_append (c : Connection) (steps steps' : List SetStep) :
    c.run (steps ++ steps') = (c.run steps).run steps' :=
  List.foldl_append

/-- What was accepted over two rows of steps is what the first gave it, and then the second from where
the first has led. -/
theorem acceptedBy_append (c : Connection) (steps steps' : List SetStep) :
    c.acceptedBy (steps ++ steps') = c.acceptedBy steps ++ (c.run steps).acceptedBy steps' := by
  induction steps generalizing c with
  | nil => rfl
  | cons step steps ih =>
    rw [List.cons_append, acceptedBy, ih, ← List.append_assoc]
    rfl

/-- An open connection whose queue has room accepts the frame, behind those that wait. -/
theorem offer_of_room (hopen : c.isClosed = false) (hroom : c.queue.length < c.capacity)
    (e : Envelope) : c.offer e = .ok { c with queue := c.queue ++ [e] } :=
  offer_eq_ok_iff.2 ⟨hopen, hroom, rfl⟩

/-- A member whose queue accepts the frame is left with it there, and stays a member. -/
theorem receive_of_ok (member : c.isMember = true) (h : c.offer e = .ok d) : c.receive e = d := by
  rw [receive, if_pos member, h]

/-- A member that refuses a frame is a member no more. It counts as evicted if it was refused for
being full, and not if it was closed. -/
theorem receive_of_error (member : c.isMember = true) (h : c.offer e = .error refusal) :
    (c.receive e).isMember = false ∧
      ((c.receive e).isEvicted = true ↔ c.isEvicted = true ∨ refusal = .full) := by
  rw [receive, if_pos member, h]
  cases refusal with
  | full => exact ⟨rfl, iff_of_true rfl (Or.inr rfl)⟩
  | closed => exact ⟨rfl, (or_iff_left nofun).symm⟩

/-- A frame that a member accepts is queued. -/
theorem queues_of_ok (member : c.isMember = true) (h : c.offer e = .ok d) : c.queues e = true := by
  rw [queues, member, h]
  rfl

theorem not_queues_of_error (h : c.offer e = .error refusal) : c.queues e = false := by
  rw [queues, h]
  exact Bool.and_false _

/-- What a broadcast does, by whether it is queued. -/
theorem receive_of_queues (h : c.queues e = true) :
    c.receive e = { c with queue := c.queue ++ [e] } ∧ c.isMember = true ∧ c.isClosed = false := by
  obtain ⟨member, hok⟩ := (Bool.and_eq_true _ _).mp h
  cases hoffer : c.offer e with
  | error refusal =>
    rw [hoffer] at hok
    cases hok
  | ok d =>
    obtain ⟨hopen, -, rfl⟩ := offer_eq_ok_iff.1 hoffer
    exact ⟨receive_of_ok member hoffer, member, hopen⟩

/-- What a connection has taken, is going to take, and does not queue, stays as it is. -/
theorem receive_of_not_queues (h : c.queues e = false) :
    (c.receive e).taken = c.taken ∧ (c.receive e).queue = c.queue ∧
      (c.receive e).isClosed = c.isClosed := by
  have hreceives := c.receive_receives e
  unfold receive at hreceives ⊢
  split
  next member =>
    split
    next d hoffer => exact absurd (h.symm.trans (queues_of_ok member hoffer)) nofun
    next => exact ⟨rfl, rfl, rfl⟩
    next => exact ⟨rfl, rfl, rfl⟩
  next => exact ⟨rfl, rfl, rfl⟩

/-- A connection has one number for life; no step gives it another. -/
theorem id_step (c : Connection) (step : SetStep) : (c.step step).id = c.id := by
  cases step with
  | add => rfl
  | broadcast e => exact c.id_receive e
  | insert id | remove id | close id =>
    simp only [Connection.step]
    split
    · rfl
    · rfl
  | write id =>
    simp only [Connection.step]
    split
    · exact c.id_takeNext
    · rfl

theorem id_run (c : Connection) (steps : List SetStep) : (c.run steps).id = c.id := by
  induction steps generalizing c with
  | nil => rfl
  | cons step steps ih => exact (ih (c.step step)).trans (c.id_step step)

/-! ### What concerns a connection -/

/-- Steps that concern other connections pass this one by: connections are independent of each
other. -/
theorem step_of_not_concerns (h : s.concerns c.id = false) : c.step s = c := by
  cases s with
  | add => rfl
  | broadcast => cases h
  | insert id | remove id | write id | close id =>
    exact if_neg (beq_eq_false_iff_ne.1 h)

theorem acceptedIn_of_not_concerns (h : s.concerns c.id = false) : c.acceptedIn s = [] := by
  cases s with
  | broadcast => cases h
  | add | insert | remove | write | close => rfl

/-- Only the broadcasts and its own steps matter for a connection. -/
theorem run_filter (c : Connection) (steps : List SetStep) :
    c.run (steps.filter (·.concerns c.id)) = c.run steps ∧
      c.acceptedBy (steps.filter (·.concerns c.id)) = c.acceptedBy steps := by
  induction steps generalizing c with
  | nil => exact ⟨rfl, rfl⟩
  | cons s steps ih =>
    obtain ⟨hrun, haccepted⟩ := ih (c.step s)
    rw [id_step] at hrun haccepted
    cases h : s.concerns c.id with
    | true =>
      rw [List.filter_cons_of_pos h]
      exact ⟨hrun, congrArg (c.acceptedIn s ++ ·) haccepted⟩
    | false =>
      have hstep : c.step s = c := step_of_not_concerns h
      have hrun' : c.run (s :: steps) = (c.step s).run steps := rfl
      rw [List.filter_cons_of_neg (Bool.eq_false_iff.1 h), hrun', acceptedBy,
        acceptedIn_of_not_concerns h, List.nil_append]
      rw [hstep] at hrun haccepted ⊢
      exact ⟨hrun, haccepted⟩

/-! ### What the queue holds -/

/-- These are the frames that were queued: the writer has taken the first of them, and unless it is
gone the others wait for it. -/
structure Carries (c : Connection) (frames : List Envelope) : Prop where
  taken : c.taken <+: frames
  waiting : c.isClosed = false → c.accepted = frames

theorem carries_accepted (c : Connection) : c.Carries c.accepted :=
  ⟨List.prefix_append _ _, fun _ => rfl⟩

/-- Taking a frame from the queue moves it from there to what was sent, so all that was accepted is
still accounted for. -/
theorem Carries.takeNext {frames : List Envelope} (h : c.Carries frames) :
    c.takeNext.Carries frames := by
  refine ⟨?_, fun hopen => ?_⟩
  · unfold Connection.takeNext
    split
    · exact h.taken
    next e queue hqueue =>
      split
      · exact h.taken
      next hopen =>
        -- what is taken is the first of those that wait
        rw [← h.waiting (Bool.eq_false_iff.2 hopen), accepted, hqueue]
        exact ⟨queue, List.append_assoc _ _ _⟩
  · rw [accepted_takeNext]
    refine h.waiting ?_
    rcases c.takeNext_eq with heq | ⟨_, _, -, heq⟩
    · rwa [heq] at hopen
    · rwa [heq] at hopen

/-- A step adds to what the connection carries just the frames that it has accepted in it, at the
end. -/
theorem Carries.step {frames : List Envelope} (h : c.Carries frames) (s : SetStep) :
    (c.step s).Carries (frames ++ c.acceptedIn s) := by
  cases s with
  | broadcast e =>
    cases hqueues : c.queues e with
    | true =>
      obtain ⟨heq, -, hopen⟩ := receive_of_queues hqueues
      simp only [Connection.step, acceptedIn, hqueues, ↓reduceIte, heq]
      refine ⟨h.taken.trans (List.prefix_append _ _), fun _ => ?_⟩
      rw [← h.waiting hopen]
      exact (List.append_assoc _ _ _).symm
    | false =>
      obtain ⟨htaken, hqueue, hclosed⟩ := receive_of_not_queues hqueues
      simp only [Connection.step, acceptedIn, hqueues, Bool.false_eq_true, ↓reduceIte,
        List.append_nil]
      refine ⟨htaken ▸ h.taken, fun hopen => ?_⟩
      rw [accepted, htaken, hqueue]
      exact h.waiting (hclosed ▸ hopen)
  | add =>
    simp only [Connection.step, acceptedIn, List.append_nil]
    exact h
  | insert id | remove id =>
    simp only [Connection.step, acceptedIn, List.append_nil]
    split
    · exact ⟨h.taken, h.waiting⟩
    · exact h
  | write id =>
    simp only [Connection.step, acceptedIn, List.append_nil]
    split
    · exact h.takeNext
    · exact h
  | close id =>
    simp only [Connection.step, acceptedIn, List.append_nil]
    split
    · exact ⟨h.taken, fun hopen => absurd hopen.symm Bool.false_ne_true⟩
    · exact h

/-- And so does a run: accepted, carried and sent frames agree at every moment, in the order of
acceptance. -/
theorem Carries.run {frames : List Envelope} (h : c.Carries frames) (steps : List SetStep) :
    (c.run steps).Carries (frames ++ c.acceptedBy steps) := by
  induction steps generalizing c frames with
  | nil =>
    rw [acceptedBy, List.append_nil]
    exact h
  | cons s steps ih =>
    rw [acceptedBy, ← List.append_assoc]
    exact ih (h.step s)

/-! ### Memberships -/

theorem keeps_nil (c : Connection) : c.Keeps [] := by
  intro before s after heq
  simp at heq

/-- A connection is kept by a row of steps if the first does not end it and it is kept by the rest. -/
theorem keeps_cons (steps : List SetStep) :
    c.Keeps (s :: steps) ↔ (∀ why, ¬ c.Ends s why) ∧ (c.step s).Keeps steps := by
  constructor
  · intro h
    refine ⟨h [] s steps rfl, fun before s' after heq => ?_⟩
    exact h (s :: before) s' after (congrArg (s :: ·) heq)
  · rintro ⟨hfirst, hrest⟩ before s' after heq
    cases before with
    | nil =>
      cases heq
      exact hfirst
    | cons _ before =>
      cases heq
      exact hrest before s' after rfl

/-- A run falls into the time before the step that ends the membership, and the rest. -/
theorem exists_keeps (c : Connection) (steps : List SetStep) :
    ∃ stay rest, steps = stay ++ rest ∧ c.Keeps stay ∧
      (rest = [] ∨ ∃ leaving after why, rest = leaving :: after ∧ (c.run stay).Ends leaving why) := by
  induction steps generalizing c with
  | nil => exact ⟨[], [], rfl, c.keeps_nil, Or.inl rfl⟩
  | cons s steps ih =>
    by_cases hends : ∃ why, c.Ends s why
    · obtain ⟨why, hends⟩ := hends
      exact ⟨[], s :: steps, rfl, c.keeps_nil, Or.inr ⟨s, steps, why, rfl, hends⟩⟩
    · obtain ⟨stay, rest, rfl, hkeeps, hrest⟩ := ih (c.step s)
      exact ⟨s :: stay, rest, rfl, (keeps_cons stay).2 ⟨not_exists.1 hends, hkeeps⟩, hrest⟩

/-- Only its insertion, its removal and a broadcast change where a connection stands. -/
theorem standing_step (hsilent : s.frame? = none) (hinsert : s ≠ .insert c.id)
    (hremove : s ≠ .remove c.id) :
    (c.step s).isMember = c.isMember ∧ (c.step s).isEvicted = c.isEvicted ∧ c.acceptedIn s = [] := by
  cases s with
  | add => exact ⟨rfl, rfl, rfl⟩
  | broadcast => cases hsilent
  | insert id =>
    have hne : c.id ≠ id := fun heq => hinsert (congrArg SetStep.insert heq.symm)
    rw [Connection.step, if_neg hne]
    exact ⟨rfl, rfl, rfl⟩
  | remove id =>
    have hne : c.id ≠ id := fun heq => hremove (congrArg SetStep.remove heq.symm)
    rw [Connection.step, if_neg hne]
    exact ⟨rfl, rfl, rfl⟩
  | write id =>
    simp only [Connection.step]
    split
    · rcases c.takeNext_eq with heq | ⟨_, _, -, heq⟩
      · rw [heq]
        exact ⟨rfl, rfl, rfl⟩
      · rw [heq]
        exact ⟨rfl, rfl, rfl⟩
    · exact ⟨rfl, rfl, rfl⟩
  | close id =>
    simp only [Connection.step]
    split
    · exact ⟨rfl, rfl, rfl⟩
    · exact ⟨rfl, rfl, rfl⟩

/-- A step that does not end the membership queues the frame that is broadcast, if it is a broadcast. -/
theorem member_step (member : c.isMember = true) (hnot : ∀ why, ¬ c.Ends s why) :
    (c.step s).isMember = true ∧ (c.step s).isEvicted = c.isEvicted ∧
      c.acceptedIn s = s.frame?.toList := by
  have hremove : s ≠ .remove c.id := by
    rintro rfl
    exact hnot none .removed
  by_cases hinsert : s = .insert c.id
  · subst hinsert
    rw [Connection.step, if_pos rfl]
    exact ⟨rfl, rfl, rfl⟩
  cases hframe : s.frame? with
  | none =>
    obtain ⟨hmember, hevicted, haccepted⟩ := standing_step hframe hinsert hremove
    exact ⟨hmember.trans member, hevicted, haccepted⟩
  | some e =>
    obtain rfl := SetStep.frame?_eq_some.1 hframe
    cases hoffer : c.offer e with
    | error refusal => exact absurd (.refused hoffer) (hnot (some refusal))
    | ok d =>
      obtain ⟨-, -, rfl⟩ := offer_eq_ok_iff.1 hoffer
      rw [Connection.step, receive_of_ok member hoffer, acceptedIn,
        if_pos (queues_of_ok member hoffer)]
      exact ⟨member, rfl, rfl⟩

/-- While a connection stays a member, every broadcast is queued for it. -/
theorem Keeps.member {steps : List SetStep} (hkeeps : c.Keeps steps) (member : c.isMember = true) :
    (c.run steps).isMember = true ∧ (c.run steps).isEvicted = c.isEvicted ∧
      c.acceptedBy steps = SetStep.frames steps := by
  induction steps generalizing c with
  | nil => exact ⟨member, rfl, rfl⟩
  | cons s steps ih =>
    obtain ⟨hnot, hkeeps⟩ := (keeps_cons steps).1 hkeeps
    obtain ⟨member', hevicted, haccepted⟩ := member_step member hnot
    obtain ⟨hmember, hevicted', haccepted'⟩ := ih hkeeps member'
    refine ⟨hmember, hevicted'.trans hevicted, ?_⟩
    rw [acceptedBy, haccepted, haccepted', SetStep.frames, SetStep.frames, List.filterMap_cons]
    cases s.frame? with
    | none => rfl
    | some e => rfl

/-- The step that ends the membership queues nothing, and evicts if it finds the queue full. -/
theorem Ends.leaves {why : Option Refusal} (hends : c.Ends s why) (member : c.isMember = true) :
    (c.step s).isMember = false ∧
      ((c.step s).isEvicted = true ↔ c.isEvicted = true ∨ why = some .full) ∧
      c.acceptedIn s = [] := by
  cases hends with
  | removed =>
    rw [Connection.step, if_pos rfl]
    exact ⟨rfl, (or_iff_left nofun).symm, rfl⟩
  | refused hrefused =>
    obtain ⟨hmember, hevicted⟩ := receive_of_error member hrefused
    refine ⟨hmember, hevicted.trans (or_congr_right (Option.some_inj).symm), ?_⟩
    rw [acceptedIn, not_queues_of_error hrefused]
    rfl

/-- Nothing is queued for a connection that is no member, and it stays none until it is inserted. -/
theorem stranger_step (stranger : c.isMember = false) (hinsert : s ≠ .insert c.id) :
    (c.step s).isMember = false ∧ (c.step s).isEvicted = c.isEvicted ∧ c.acceptedIn s = [] := by
  by_cases hremove : s = .remove c.id
  · subst hremove
    rw [Connection.step, if_pos rfl]
    exact ⟨rfl, rfl, rfl⟩
  cases hframe : s.frame? with
  | none =>
    obtain ⟨hmember, hevicted, haccepted⟩ := standing_step hframe hinsert hremove
    exact ⟨hmember.trans stranger, hevicted, haccepted⟩
  | some e =>
    obtain rfl := SetStep.frame?_eq_some.1 hframe
    rw [Connection.step, receive, stranger, acceptedIn, queues, stranger]
    exact ⟨stranger, rfl, rfl⟩

/-- A connection that is not in the set stays out of it and accepts nothing, as long as nobody inserts
it. -/
theorem stranger_run {steps : List SetStep} (stranger : c.isMember = false)
    (hnot : .insert c.id ∉ steps) :
    (c.run steps).isMember = false ∧ (c.run steps).isEvicted = c.isEvicted ∧
      c.acceptedBy steps = [] := by
  induction steps generalizing c with
  | nil => exact ⟨stranger, rfl, rfl⟩
  | cons s steps ih =>
    have hfirst : s ≠ .insert c.id := fun heq => hnot (heq ▸ List.mem_cons_self)
    obtain ⟨stranger', hevicted, haccepted⟩ := stranger_step stranger hfirst
    have hrest : .insert (c.step s).id ∉ steps := by
      rw [id_step]
      exact fun hmem => hnot (List.mem_cons_of_mem s hmem)
    obtain ⟨hmember, hevicted', haccepted'⟩ := ih stranger' hrest
    refine ⟨hmember, hevicted'.trans hevicted, ?_⟩
    rw [acceptedBy, haccepted, haccepted']
    rfl

/-- Once the membership has ended, nothing more is queued until the connection is inserted again. -/
theorem Keeps.left {stay later : List SetStep} {leaving : SetStep} {why : Option Refusal}
    (hkeeps : c.Keeps stay) (member : c.isMember = true) (hends : (c.run stay).Ends leaving why)
    (hinsert : .insert c.id ∉ later) :
    (c.run (stay ++ leaving :: later)).isMember = false ∧
      ((c.run (stay ++ leaving :: later)).isEvicted = true ↔
        c.isEvicted = true ∨ why = some .full) ∧
      c.acceptedBy (stay ++ leaving :: later) = SetStep.frames stay := by
  obtain ⟨hstays, hkept, haccepted⟩ := hkeeps.member member
  obtain ⟨hleft, hevicted, hnone⟩ := hends.leaves hstays
  have hid : ((c.run stay).step leaving).id = c.id := (id_step _ _).trans (c.id_run stay)
  obtain ⟨hmember, hevicted', hnone'⟩ := stranger_run hleft (hid.symm ▸ hinsert)
  rw [run_append, acceptedBy_append, haccepted, acceptedBy, hnone, hnone']
  refine ⟨hmember, ?_, List.append_nil _⟩
  show (((c.run stay).step leaving).run later).isEvicted = true ↔ _
  rw [hevicted', hevicted, hkept]

end Connection

/-! ## The set -/

namespace Connections

/-- One operation. -/
def step (cs : Connections) : SetStep → Connections
  | .add capacity => (cs.add capacity).2
  | .insert id => cs.insert id
  | .remove id => cs.remove id
  | .broadcast e => (cs.broadcast e).2
  | .write id => cs.modify id (·.takeNext)
  | .close id => cs.modify id (·.close)

/-- Operations one after another. -/
def run (cs : Connections) (steps : List SetStep) : Connections := steps.foldl step cs

/-- The broadcasts that are queued for the connection of that number, oldest first. -/
def acceptedBy (id : ConnectionId) : Connections → List SetStep → List Envelope
  | _, [] => []
  | cs, s :: steps =>
    ((cs.get? id).map (·.acceptedIn s)).getD [] ++ (cs.step s).acceptedBy id steps

/-- The step ends the membership of the connection of that number. -/
def Ends (cs : Connections) (id : ConnectionId) (s : SetStep) (why : Option Refusal) : Prop :=
  ∃ c, cs.get? id = some c ∧ c.Ends s why

/-- No step ends the membership of the connection of that number. -/
def Keeps (cs : Connections) (id : ConnectionId) (steps : List SetStep) : Prop :=
  ∀ before s after, steps = before ++ s :: after → ∀ why, ¬ (cs.run before).Ends id s why

variable {cs : Connections} {id : ConnectionId} {c : Connection}

theorem id_of_get? (found : cs.get? id = some c) : c.id = id :=
  beq_iff_eq.1 (List.find?_some found :)

/-- What is done to all connections is done to the one that is looked up. -/
theorem get?_map (cs : Connections) (id : ConnectionId) {f : Connection → Connection}
    (hid : ∀ c, (f c).id = c.id) :
    ({ cs with all := cs.all.map f } : Connections).get? id = (cs.get? id).map f := by
  have hfind : (fun c : Connection => c.id == id) ∘ f = fun c => c.id == id :=
    funext fun c => congrArg (· == id) (hid c)
  rw [get?, List.find?_map, hfind]
  rfl

/-- Changing one connection changes what is found under its number, and leaves what is found under the
others. -/
theorem get?_modify (found : cs.get? id = some c) (other : ConnectionId)
    {f : Connection → Connection} (hid : ∀ c, (f c).id = c.id) :
    (cs.modify other f).get? id = some (if c.id = other then f c else c) := by
  have hid' : ∀ c : Connection, (if c.id = other then f c else c).id = c.id := by
    intro c
    split
    · exact hid c
    · rfl
  rw [modify, get?_map cs id hid', found]
  rfl

/-- The set does with each connection what the connection does by itself. All that is said of one
connection goes over to the set by this. -/
theorem get?_step (found : cs.get? id = some c) (s : SetStep) :
    (cs.step s).get? id = some (c.step s) := by
  cases s with
  | add capacity =>
    have hfirst : cs.all.find? (fun c => c.id == id) = some c := found
    show (cs.all ++ [_]).find? _ = some c
    rw [List.find?_append, hfirst]
    rfl
  | insert other | remove other | close other => exact get?_modify found other fun _ => rfl
  | write other => exact get?_modify found other Connection.id_takeNext
  | broadcast e =>
    show Connections.get? { cs with all := cs.all.map (·.receive e) } id = some (c.receive e)
    rw [get?_map cs id (·.id_receive e), found]
    rfl

/-- A frame that is sent to a connection with room is queued. -/
theorem get?_send (found : cs.get? id = some c) (hopen : c.isClosed = false)
    (hroom : c.queue.length < c.capacity) (e : Envelope) :
    (cs.send id e).2.get? id = some { c with queue := c.queue ++ [e] } := by
  have hoffer := Connection.offer_of_room hopen hroom e
  have hsend : c.send e = { c with queue := c.queue ++ [e] } := by
    rw [Connection.send, hoffer]
  rw [send, found]
  dsimp only
  rw [hoffer]
  have found' := get?_modify found id (Connection.id_send · e)
  rwa [if_pos (id_of_get? found), hsend] at found'

/-- In a run of the set every connection goes its own way. -/
theorem get?_run (found : cs.get? id = some c) (steps : List SetStep) :
    (cs.run steps).get? id = some (c.run steps) ∧ cs.acceptedBy id steps = c.acceptedBy steps := by
  induction steps generalizing cs c with
  | nil => exact ⟨found, rfl⟩
  | cons s steps ih =>
    obtain ⟨hrun, haccepted⟩ := ih (get?_step found s)
    refine ⟨hrun, ?_⟩
    rw [acceptedBy, found, haccepted]
    rfl

/-- So a step ends a connection in the set when it ends the connection, and for the same reason. -/
theorem ends_iff (found : cs.get? id = some c) {s : SetStep} {why : Option Refusal} :
    cs.Ends id s why ↔ c.Ends s why := by
  rw [Ends, found]
  simp

/-- And the set keeps a connection as long as the connection keeps itself. -/
theorem keeps_iff (found : cs.get? id = some c) (steps : List SetStep) :
    cs.Keeps id steps ↔ c.Keeps steps := by
  have hends : ∀ before s why, (cs.run before).Ends id s why ↔ (c.run before).Ends s why :=
    fun before s why => ends_iff (get?_run found before).1
  simp only [Keeps, Connection.Keeps, hends]

/-- Those that are left in the set after a broadcast are those that it was queued for. -/
theorem isMember_receive (c : Connection) (e : Envelope) : (c.receive e).isMember = c.queues e := by
  cases hmember : c.isMember with
  | false => simp [Connection.receive, Connection.queues, hmember]
  | true =>
    cases hoffer : c.offer e with
    | ok d =>
      obtain ⟨-, -, rfl⟩ := Connection.offer_eq_ok_iff.1 hoffer
      rw [Connection.receive_of_ok hmember hoffer, Connection.queues_of_ok hmember hoffer]
      exact hmember
    | error refusal =>
      rw [(Connection.receive_of_error hmember hoffer).1, Connection.not_queues_of_error hoffer]

/-- A broadcast tells how many connections it was queued for, which are those left in the set. -/
theorem broadcast_count (cs : Connections) (e : Envelope) :
    (cs.broadcast e).1 = (cs.all.filter (·.queues e)).length ∧
      (cs.broadcast e).1 = (cs.broadcast e).2.members.length := by
  have hleft : (cs.broadcast e).2.members.length = (cs.all.filter (·.queues e)).length := by
    show ((cs.all.map (·.receive e)).filter (·.isMember)).length = _
    have hqueues : (fun c : Connection => c.isMember) ∘ (fun c : Connection => c.receive e)
        = fun c => c.queues e :=
      funext fun c => isMember_receive c e
    rw [List.filter_map, List.length_map, hqueues]
  exact ⟨hleft, rfl⟩

/--
Whatever is done to a set and to the queues of its connections: nothing is queued for a connection
that is no member before it is inserted. From its insertion on it is queued the broadcasts one after
another, all of them, until it is removed or a broadcast is refused; from then on, and until it is
inserted again, it is queued none and is no member, and it was evicted iff the queue was full at that
moment. What was queued is what the writer takes, in this order. All this is so for whatever else
becomes of the other connections. And a broadcast tells how many connections it was queued for, which
are those left in the set.
-/
theorem broadcasts_while_member (cs : Connections) (id : ConnectionId) (c : Connection)
    (found : cs.get? id = some c) (steps : List SetStep) :
    let joined := cs.insert id
    (c.isMember = false → .insert id ∉ steps → cs.acceptedBy id steps = []) ∧
    (∃ stay rest, steps = stay ++ rest ∧ joined.Keeps id stay ∧
      joined.acceptedBy id stay = SetStep.frames stay ∧
      (∃ d, (joined.run stay).get? id = some d ∧ d.isMember = true ∧ d.isEvicted = c.isEvicted) ∧
      (rest = [] ∨ ∃ leaving after why, rest = leaving :: after ∧
        (joined.run stay).Ends id leaving why ∧
        ∀ later, later <+: after → .insert id ∉ later →
          joined.acceptedBy id (stay ++ leaving :: later) = SetStep.frames stay ∧
          ∃ d, (joined.run (stay ++ leaving :: later)).get? id = some d ∧ d.isMember = false ∧
            (d.isEvicted = true ↔ c.isEvicted = true ∨ why = some .full))) ∧
    (∃ d, (joined.run steps).get? id = some d ∧
      d.Carries (c.accepted ++ joined.acceptedBy id steps)) ∧
    (∀ (cs' : Connections) (steps' : List SetStep), cs'.get? id = some c →
      steps'.filter (·.concerns id) = steps.filter (·.concerns id) →
      ((cs'.insert id).run steps').get? id = (joined.run steps).get? id ∧
        (cs'.insert id).acceptedBy id steps' = joined.acceptedBy id steps) ∧
    ∀ before e after, steps = before ++ .broadcast e :: after →
      let now := joined.run before
      (now.broadcast e).1 = (now.all.filter (·.queues e)).length ∧
        (now.broadcast e).1 = (now.broadcast e).2.members.length := by
  intro joined
  have hid : c.id = id := id_of_get? found
  let entered : Connection := { c with isMember := true }
  have hentered : ∀ cs' : Connections, cs'.get? id = some c →
      (cs'.insert id).get? id = some entered :=
    fun _ found' => (get?_step found' (.insert id)).trans (congrArg some (if_pos hid))
  have hjoined : joined.get? id = some entered := hentered cs found
  -- before the insertion, while it is a member and after that, its queue, the others, the count
  refine ⟨fun stranger hinsert => ?_, ?_, ?_, fun cs' steps' found' hsame => ?_,
    fun before e _ _ => broadcast_count _ e⟩
  · rw [(get?_run found steps).2]
    exact (Connection.stranger_run stranger (hid.symm ▸ hinsert)).2.2
  · obtain ⟨stay, rest, hsteps, hkeeps, hrest⟩ := entered.exists_keeps steps
    obtain ⟨hmember, hevicted, haccepted⟩ := hkeeps.member rfl
    obtain ⟨hstay, hqueued⟩ := get?_run hjoined stay
    refine ⟨stay, rest, hsteps, (keeps_iff hjoined stay).2 hkeeps, hqueued.trans haccepted,
      ⟨_, hstay, hmember, hevicted⟩, hrest.imp_right ?_⟩
    rintro ⟨leaving, after, why, rfl, hends⟩
    refine ⟨leaving, after, why, rfl, (ends_iff hstay).2 hends, fun later _ hinsert => ?_⟩
    obtain ⟨hleft, hevicted', haccepted'⟩ := hkeeps.left rfl hends (hid.symm ▸ hinsert)
    obtain ⟨hlater, hqueued'⟩ := get?_run hjoined (stay ++ leaving :: later)
    exact ⟨hqueued'.trans haccepted', _, hlater, hleft, hevicted'⟩
  · obtain ⟨hrun, hqueued⟩ := get?_run hjoined steps
    refine ⟨_, hrun, ?_⟩
    rw [hqueued]
    exact entered.carries_accepted.run steps
  · -- the two runs are the same to this connection
    obtain ⟨hrun, hqueued⟩ := get?_run hjoined steps
    obtain ⟨hrun', hqueued'⟩ := get?_run (hentered cs' found') steps'
    obtain ⟨hown, howned⟩ := entered.run_filter steps
    obtain ⟨hown', howned'⟩ := entered.run_filter steps'
    have hfilter : steps'.filter (·.concerns entered.id) = steps.filter (·.concerns entered.id) :=
      hid.symm ▸ hsame
    rw [hrun, hrun', hqueued, hqueued', ← hown, ← hown', ← howned, ← howned', hfilter]
    exact ⟨rfl, rfl⟩

/-- A set with a short queue and a longer one. -/
def twoViewers : Connections := run {} [.add 2, .add 8, .insert 1]

/-- Three log lines, of which the second connection takes the first, and then one more for which there
would be room again. -/
def stallingSteps : List SetStep :=
  let line : SetStep := .broadcast (.ofPayload (.console .log []) 0)
  [line, line, .write 1, line, .write 0, line]

/-- A queue that is full ends the membership, and the frame for which there is room later is not
queued. -/
theorem stalled_viewer_left_out :
    twoViewers.get? 0 = some { id := 0, capacity := 2 } ∧
      ∃ stay leaving after, stallingSteps = stay ++ leaving :: after ∧
        (SetStep.frames stay).length = 2 ∧
        ((twoViewers.insert 0).run stay).Ends 0 leaving (some .full) := by
  have found : twoViewers.get? 0 = some { id := 0, capacity := 2 } := rfl
  have hinsert : .insert 0 ∉ stallingSteps := by simp [stallingSteps]
  have hqueued : ((twoViewers.insert 0).acceptedBy 0 stallingSteps).length = 2 := by
    decide +kernel
  have hleft : (((twoViewers.insert 0).run stallingSteps).get? 0).any
      (fun d => !d.isMember && d.isEvicted) = true := by
    decide +kernel
  obtain ⟨-, ⟨stay, rest, hsteps, -, -, ⟨d, hd, hmember, -⟩, hrest⟩, -⟩ :=
    broadcasts_while_member twoViewers 0 _ found stallingSteps
  rcases hrest with rfl | ⟨leaving, after, why, rfl, hends, hafter⟩
  · rw [List.append_nil] at hsteps
    rw [hsteps, hd, Option.any_some, hmember] at hleft
    cases hleft
  · have hnot : .insert 0 ∉ after := fun hmem =>
      hinsert (hsteps ▸ List.mem_append_right stay (List.mem_cons_of_mem leaving hmem))
    obtain ⟨haccepted, d, hd, -, hevicted⟩ := hafter after List.prefix_rfl hnot
    rw [hsteps] at hqueued hleft
    rw [haccepted] at hqueued
    rw [hd, Option.any_some] at hleft
    have hfull : why = some .full :=
      (hevicted.1 ((Bool.and_eq_true _ _).mp hleft).2).resolve_left nofun
    exact ⟨found, stay, leaving, after, hsteps, hqueued, hfull ▸ hends⟩

end Connections

end AppletHost.Push

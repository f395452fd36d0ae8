import AppletHost.Push.Connections

/-!
# What members of the set are sent

A connection that is still in the set after some broadcasts was in it before, and every one of them
was queued for it: what cannot be queued ends the membership.

> `accepted_of_receiveAll`: a member has accepted all frames of the broadcasts, in order.

Of what a connection has accepted, `lastRender?` is the render that its viewer shows in the end.
-/

namespace AppletHost.Push

namespace Connection

/-- Broadcasts reach the connection one after another. -/
def receiveAll (c : Connection) (frames : List Envelope) : Connection := frames.foldl receive c

/-- What a broadcast does to a connection: a member that cannot queue the frame leaves the set. -/
inductive Receives (c : Connection) (e : Envelope) : Connection → Prop
  | skips (stranger : c.isMember = false) : Receives c e c
  | queues (member : c.isMember = true) (isOpen : c.isClosed = false) :
    Receives c e { c with queue := c.queue ++ [e] }
  | evicts (member : c.isMember = true) (isOpen : c.isClosed = false) :
    Receives c e { c with isMember := false, isEvicted := true }
  | drops (member : c.isMember = true) (closed : c.isClosed = true) :
    Receives c e { c with isMember := false }

/-- What a connection does with a frame of a broadcast is one of the ways that `Receives` lists. -/
theorem receive_receives (c : Connection) (e : Envelope) : c.Receives e (c.receive e) := by
  unfold receive
  split
  next member =>
    split
    next d h =>
      obtain ⟨hopen, -, rfl⟩ := offer_eq_ok_iff.1 h
      exact .queues member hopen
    next h => exact .evicts member (offer_eq_full_iff.1 h).1
    next h => exact .drops member (offer_eq_closed_iff.1 h)
  next stranger => exact .skips (Bool.eq_false_iff.2 stranger)

theorem id_receive (c : Connection) (e : Envelope) : (c.receive e).id = c.id := by
  have hreceives := c.receive_receives e
  generalize c.receive e = d at hreceives ⊢
  cases hreceives <;> rfl

/-- A connection keeps its number, whatever it is sent. -/
theorem id_receiveAll (c : Connection) (frames : List Envelope) : (c.receiveAll frames).id = c.id := by
  induction frames generalizing c with
  | nil => rfl
  | cons e frames ih => exact (ih (c.receive e)).trans (c.id_receive e)

/-- Whoever is a member after a frame was one before and has accepted the frame, since a refusal ends
membership. -/
theorem accepted_of_receive {c : Connection} {e : Envelope} (h : (c.receive e).isMember = true) :
    c.isMember = true ∧ (c.receive e).accepted = c.accepted ++ [e] := by
  have hreceives := c.receive_receives e
  generalize c.receive e = d at hreceives h ⊢
  cases hreceives with
  | skips stranger => exact absurd (stranger.symm.trans h) nofun
  | queues member _ => exact ⟨member, (List.append_assoc _ _ _).symm⟩
  | evicts | drops => cases h

/-- A connection whose writer is there leaves the set by a broadcast only if it is evicted. -/
theorem receive_of_open {c : Connection} (hopen : c.isClosed = false) (e : Envelope) :
    (c.receive e).isClosed = false ∧
      (c.isMember = true → (c.receive e).isMember = true ∨ (c.receive e).isEvicted = true) ∧
      (c.isEvicted = true → (c.receive e).isEvicted = true) := by
  have hreceives := c.receive_receives e
  generalize c.receive e = d at hreceives ⊢
  cases hreceives with
  | skips _ => exact ⟨hopen, Or.inl, fun h => h⟩
  | queues member _ => exact ⟨hopen, fun _ => Or.inl member, fun h => h⟩
  | evicts _ _ => exact ⟨hopen, fun _ => Or.inr rfl, fun _ => rfl⟩
  | drops _ closed => exact absurd (hopen.symm.trans closed) nofun

/-- An open connection stays open under broadcasts. It may be evicted for being full, which is not
forgotten. -/
theorem receiveAll_of_open {c : Connection} (hopen : c.isClosed = false) (frames : List Envelope) :
    (c.receiveAll frames).isClosed = false ∧
      (c.isMember = true → (c.receiveAll frames).isMember = true ∨
        (c.receiveAll frames).isEvicted = true) ∧
      (c.isEvicted = true → (c.receiveAll frames).isEvicted = true) := by
  induction frames generalizing c with
  | nil => exact ⟨hopen, Or.inl, fun h => h⟩
  | cons e frames ih =>
    obtain ⟨hopen', hmember, hevicted⟩ := receive_of_open hopen e
    obtain ⟨hopen'', hmember', hevicted'⟩ := ih hopen'
    refine ⟨hopen'', fun h => ?_, fun h => hevicted' (hevicted h)⟩
    rcases hmember h with h | h
    · exact hmember' h
    · exact Or.inr (hevicted' h)

/-- A member has accepted all that was broadcast. -/
theorem accepted_of_receiveAll {c : Connection} {frames : List Envelope}
    (h : (c.receiveAll frames).isMember = true) :
    c.isMember = true ∧ (c.receiveAll frames).accepted = c.accepted ++ frames := by
  induction frames generalizing c with
  | nil => exact ⟨h, (List.append_nil _).symm⟩
  | cons e frames ih =>
    obtain ⟨hmember, haccepted⟩ := ih h
    obtain ⟨hbefore, hfirst⟩ := accepted_of_receive hmember
    refine ⟨hbefore, haccepted.trans ?_⟩
    rw [hfirst, List.append_assoc]
    rfl

/-- A frame that is sent to one connection is queued, or nothing happens. -/
theorem send_eq (c : Connection) (e : Envelope) :
    c.send e = c ∨ c.send e = { c with queue := c.queue ++ [e] } := by
  unfold send
  split
  next d h =>
    obtain ⟨-, -, rfl⟩ := offer_eq_ok_iff.1 h
    exact Or.inr rfl
  next => exact Or.inl rfl

/-- Taking from an empty queue does nothing; from any other it moves the frame in front to those that
were taken. -/
theorem takeNext_eq (c : Connection) :
    c.takeNext = c ∨ ∃ e queue, c.queue = e :: queue ∧
      c.takeNext = { c with taken := c.taken ++ [e], queue } := by
  unfold takeNext
  split
  · exact Or.inl rfl
  next e queue hqueue =>
    split
    · exact Or.inl rfl
    · exact Or.inr ⟨e, queue, hqueue, rfl⟩

theorem id_takeNext (c : Connection) : c.takeNext.id = c.id := by
  rcases c.takeNext_eq with heq | ⟨_, _, -, heq⟩
  · rw [heq]
  · rw [heq]

/-- Whether a connection is a member does not depend on how fast its frames are taken. -/
theorem isMember_takeNext (c : Connection) : c.takeNext.isMember = c.isMember := by
  rcases c.takeNext_eq with heq | ⟨_, _, -, heq⟩
  · rw [heq]
  · rw [heq]

theorem id_send (c : Connection) (e : Envelope) : (c.send e).id = c.id := by
  rcases c.send_eq e with heq | heq
  · rw [heq]
  · rw [heq]

/-- A frame for one connection that cannot be queued is dropped, and the connection stays as it
was. -/
theorem send_of_error {c : Connection} {e : Envelope} {refusal : Refusal}
    (h : c.offer e = .error refusal) : c.send e = c := by
  rw [send, h]

end Connection

namespace Connections

/-- Broadcasts frames one after another. -/
def broadcastAll (cs : Connections) (frames : List Envelope) : Connections :=
  frames.foldl (fun cs e => (cs.broadcast e).2) cs

/-- Frames are broadcast one after another, so that two rows of them are one row. -/
theorem broadcastAll_append (cs : Connections) (frames frames' : List Envelope) :
    cs.broadcastAll (frames ++ frames') = (cs.broadcastAll frames).broadcastAll frames' :=
  List.foldl_append

/-- Broadcasting to the set is broadcasting to every connection in it, each by itself. -/
theorem broadcastAll_eq (cs : Connections) (frames : List Envelope) :
    cs.broadcastAll frames = { cs with all := cs.all.map (·.receiveAll frames) } := by
  induction frames generalizing cs with
  | nil => simp [broadcastAll, Connection.receiveAll]
  | cons e frames ih =>
    have hhead : cs.broadcastAll (e :: frames) = (cs.broadcast e).2.broadcastAll frames := rfl
    rw [hhead, ih]
    simp [broadcast, Connection.receiveAll]

/-- Whatever is sent, every connection is one from before, and it is sent the frame if it is meant. -/
theorem mem_send {cs : Connections} {id : ConnectionId} {e : Envelope} {c : Connection}
    (h : c ∈ (cs.send id e).2.all) : ∃ d ∈ cs.all, c = d ∨ c = d.send e := by
  unfold send at h
  split at h
  · exact ⟨c, h, Or.inl rfl⟩
  · split at h
    · obtain ⟨d, hd, rfl⟩ := List.mem_map.1 h
      refine ⟨d, hd, ?_⟩
      split
      · exact Or.inr rfl
      · exact Or.inl rfl
    · exact ⟨c, h, Or.inl rfl⟩

/-- A connection in a changed set is one of the set before, and changed if it has the number in
question. -/
theorem mem_modify {cs : Connections} {id : ConnectionId} {f : Connection → Connection}
    {c : Connection} (h : c ∈ (cs.modify id f).all) :
    ∃ d ∈ cs.all, (d.id = id ∧ c = f d) ∨ (d.id ≠ id ∧ c = d) := by
  obtain ⟨d, hd, rfl⟩ := List.mem_map.1 h
  refine ⟨d, hd, ?_⟩
  split
  next heq => exact Or.inl ⟨heq, rfl⟩
  next hne => exact Or.inr ⟨hne, rfl⟩

/-- What a change of one connection keeps, it keeps of all. -/
theorem map_modify {α : Type} (cs : Connections) (id : ConnectionId) {f : Connection → Connection}
    (g : Connection → α) (hf : ∀ c, g (f c) = g c) : (cs.modify id f).all.map g = cs.all.map g := by
  rw [modify, List.map_map]
  refine List.map_congr_left fun c _ => ?_
  show g (if c.id = id then f c else c) = g c
  split
  · exact hf c
  · rfl

/-- No number is given out a second time. -/
def Numbered (cs : Connections) : Prop := ∀ c ∈ cs.all, c.id < cs.next

/-- Broadcasts leave the numbers of the set distinct and below the next one. -/
theorem Numbered.broadcastAll {cs : Connections} (h : cs.Numbered) (frames : List Envelope) :
    (cs.broadcastAll frames).Numbered := by
  intro c hc
  rw [broadcastAll_eq] at hc ⊢
  obtain ⟨d, hd, rfl⟩ := List.mem_map.1 hc
  rw [Connection.id_receiveAll]
  exact h d hd

theorem Numbered.modify {cs : Connections} (h : cs.Numbered) (id : ConnectionId)
    {f : Connection → Connection} (hid : ∀ c, (f c).id = c.id) : (cs.modify id f).Numbered := by
  intro c hc
  show c.id < cs.next
  obtain ⟨d, hd, ⟨-, rfl⟩ | ⟨-, rfl⟩⟩ := mem_modify hc
  · rw [hid]
    exact h d hd
  · exact h c hd

theorem next_send (cs : Connections) (id : ConnectionId) (e : Envelope) :
    (cs.send id e).2.next = cs.next := by
  unfold send
  split
  · rfl
  · split
    · rfl
    · rfl

theorem Numbered.send {cs : Connections} (h : cs.Numbered) (id : ConnectionId) (e : Envelope) :
    (cs.send id e).2.Numbered := by
  intro c hc
  rw [next_send]
  obtain ⟨d, hd, rfl | rfl⟩ := mem_send hc
  · exact h c hd
  · rcases d.send_eq e with heq | heq
    · rw [heq]
      exact h d hd
    · rw [heq]
      exact h d hd

section Newest

variable {all : List Connection} {id next : ConnectionId} {d : Connection}

/-- What is done to the newest connection is done to no other. -/
theorem modify_newest (hall : ∀ c ∈ all, c.id ≠ id) (hd : d.id = id) (f : Connection → Connection) :
    ({ all := all ++ [d], next } : Connections).modify id f = { all := all ++ [f d], next } := by
  have hold : (all.map fun c => if c.id = id then f c else c) = all :=
    calc
      _ = all.map fun c => c := List.map_congr_left fun c hc => if_neg (hall c hc)
      _ = all := List.map_id' all
  rw [modify, List.map_append, hold, List.map_singleton, if_pos hd]

/-- A connection that has just got its number is found under it, since no other has it. -/
theorem get?_newest (hall : ∀ c ∈ all, c.id ≠ id) (hd : d.id = id) :
    ({ all := all ++ [d], next } : Connections).get? id = some d := by
  have hold : all.find? (fun c => c.id == id) = none := by
    simpa using hall
  rw [get?, List.find?_append, hold, Option.none_or]
  simp [hd]

/-- So a frame for that number goes to the newest connection and to no other. -/
theorem send_newest (hall : ∀ c ∈ all, c.id ≠ id) (hd : d.id = id) (e : Envelope) :
    (({ all := all ++ [d], next } : Connections).send id e).2
      = { all := all ++ [d.send e], next } := by
  rw [send, get?_newest hall hd]
  dsimp only
  cases hoffer : d.offer e with
  | ok _ => exact modify_newest hall hd _
  | error refusal => rw [Connection.send_of_error hoffer]

end Newest

end Connections

/-! ## The render a viewer shows -/

/-- The last render among some frames. -/
def lastRender? (frames : List Envelope) : Option Envelope :=
  (frames.filter fun e => e.kind = .render).getLast?

/-- The last render of two rows of frames is that of the second, or of the first if the second has
none. -/
theorem lastRender?_append (frames frames' : List Envelope) :
    lastRender? (frames ++ frames') = (lastRender? frames').or (lastRender? frames) := by
  simp only [lastRender?, List.filter_append, List.getLast?_append]

/-- One more frame is the last render if it is a render, and else changes nothing about it. -/
theorem lastRender?_snoc (frames : List Envelope) (e : Envelope) :
    lastRender? (frames ++ [e]) = if e.kind = .render then some e else lastRender? frames := by
  rw [lastRender?_append]
  by_cases h : e.kind = .render <;> simp [lastRender?, h]

end AppletHost.Push

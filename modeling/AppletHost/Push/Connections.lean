import AppletHost.Push.Envelope

/-!
# Connections of the push channel

Every viewer has a queue of frames that its writer takes one after another. The queue is bounded, and
a frame that finds it full, or finds the writer gone, is not queued.

A frame is sent to one connection, or broadcast to all that are in the set. What a broadcast cannot
be queued for leaves the set at once, and is evicted if its queue was full: a viewer that is too slow
starts over rather than miss a frame in silence. A frame that is sent to one connection and cannot be
queued is dropped, and nothing else changes.
-/

namespace AppletHost.Push

/-- The number of a connection; numbers are never reused. -/
abbrev ConnectionId := Nat

/-- How many frames a queue holds. -/
def queueCapacity : Nat := 256

/-- Why a frame is not queued. -/
inductive Refusal where
  | full
  | closed
deriving DecidableEq, Repr, Inhabited

/-- One connection. -/
structure Connection where
  id : ConnectionId
  capacity : Nat := queueCapacity
  /-- The frames that the writer has taken, oldest first. -/
  taken : List Envelope := []
  /-- The frames that wait for the writer, oldest first. -/
  queue : List Envelope := []
  /-- The writer is gone. -/
  isClosed : Bool := false
  /-- Broadcasts reach the connection. -/
  isMember : Bool := false
  /-- A broadcast found the queue full. -/
  isEvicted : Bool := false
deriving Repr, Inhabited

namespace Connection

/-- All frames that were queued so far, oldest first. -/
def accepted (c : Connection) : List Envelope := c.taken ++ c.queue

/-- Queues a frame. -/
def offer (c : Connection) (e : Envelope) : Except Refusal Connection :=
  if c.isClosed then .error .closed
  else if c.capacity ≤ c.queue.length then .error .full
  else .ok { c with queue := c.queue ++ [e] }

/-- A broadcast reaches the connection. -/
def receive (c : Connection) (e : Envelope) : Connection :=
  if c.isMember then
    match c.offer e with
    | .ok c => c
    | .error .full => { c with isMember := false, isEvicted := true }
    | .error .closed => { c with isMember := false }
  else c

/-- A frame is sent to this connection alone. -/
def send (c : Connection) (e : Envelope) : Connection :=
  match c.offer e with
  | .ok c => c
  | .error _ => c

/-- The writer takes the next frame. -/
def takeNext (c : Connection) : Connection :=
  match c.queue with
  | [] => c
  | e :: queue => if c.isClosed then c else { c with taken := c.taken ++ [e], queue }

/-- The writer goes, and what it has not taken goes with it. -/
def close (c : Connection) : Connection := { c with isClosed := true, queue := [] }

theorem offer_eq_ok_iff {c d : Connection} {e : Envelope} : c.offer e = .ok d ↔
    c.isClosed = false ∧ c.queue.length < c.capacity ∧ d = { c with queue := c.queue ++ [e] } := by
  unfold offer
  split
  next hclosed => exact iff_of_false nofun fun h => absurd (hclosed.symm.trans h.1) nofun
  next hopen =>
    split
    next hfull => exact iff_of_false nofun fun h => absurd h.2.1 (Nat.not_lt.2 hfull)
    next hroom =>
      simp only [Bool.not_eq_true] at hopen
      simp [hopen, Nat.lt_of_not_le hroom, eq_comm]

theorem offer_eq_full_iff {c : Connection} {e : Envelope} :
    c.offer e = .error .full ↔ c.isClosed = false ∧ c.capacity ≤ c.queue.length := by
  unfold offer
  split
  next hclosed => simp [hclosed]
  next hopen =>
    split
    next hfull => simp [hopen, hfull]
    next hroom => simp [hroom]

theorem offer_eq_closed_iff {c : Connection} {e : Envelope} :
    c.offer e = .error .closed ↔ c.isClosed = true := by
  unfold offer
  split
  next hclosed => simp [hclosed]
  next hopen => split <;> simp [hopen]

theorem accepted_takeNext (c : Connection) : c.takeNext.accepted = c.accepted := by
  simp only [takeNext]
  split
  · rfl
  · split
    · rfl
    · next h _ => simp [accepted, h]

end Connection

/-- All connections, in or out of the set. -/
structure Connections where
  all : List Connection := []
  next : ConnectionId := 0
deriving Repr, Inhabited

namespace Connections

/-- The connection of that number. -/
def get? (cs : Connections) (id : ConnectionId) : Option Connection :=
  cs.all.find? fun c => c.id == id

/-- The connections in the set. -/
def members (cs : Connections) : List Connection := cs.all.filter (·.isMember)

/-- How many connections are in the set. -/
def count (cs : Connections) : Nat := cs.members.length

/-- Changes one connection. -/
def modify (cs : Connections) (id : ConnectionId) (f : Connection → Connection) : Connections :=
  { cs with all := cs.all.map fun c => if c.id = id then f c else c }

/-- A new connection, not yet in the set. -/
def add (cs : Connections) (capacity : Nat) : ConnectionId × Connections :=
  (cs.next, { all := cs.all ++ [{ id := cs.next, capacity }], next := cs.next + 1 })

/-- Puts a connection into the set. -/
def insert (cs : Connections) (id : ConnectionId) : Connections :=
  cs.modify id fun c => { c with isMember := true }

/-- Takes a connection out of the set. -/
def remove (cs : Connections) (id : ConnectionId) : Connections :=
  cs.modify id fun c => { c with isMember := false }

/-- Sends a frame to one connection; tells whether it was queued. -/
def send (cs : Connections) (id : ConnectionId) (e : Envelope) : Bool × Connections :=
  match cs.get? id with
  | none => (false, cs)
  | some c =>
    match c.offer e with
    | .ok _ => (true, cs.modify id (·.send e))
    | .error _ => (false, cs)

/-- Sends a frame to every connection in the set; tells how many are left in it. -/
def broadcast (cs : Connections) (e : Envelope) : Nat × Connections :=
  let cs := { cs with all := cs.all.map (·.receive e) }
  (cs.count, cs)

end Connections

end AppletHost.Push

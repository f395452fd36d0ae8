import AppletHost.Proofs.Push.Connections
import AppletHost.Push.Server
import Mathlib.Data.List.Induction
import Mathlib.Data.List.Nodup

/-!
# Replies to the texts of a viewer

Every text that is read is answered, and the reply goes to the queue of its sender. A broadcast that
finds the queue full ends the membership; a reply that does is dropped, and the connection stays as it
is. So a viewer may miss a reply and never know:

> `replies_of_open`: an open connection has accepted the replies to its texts that found room, each
> once and in the order of the texts; and these are all of them iff none found the queue full.

> `reply_dropped`: with the queues that viewers have, a reply is dropped while the connection is open
> and a member.

No broadcast is a reply, and viewers are not greeted with one.
-/

namespace AppletHost.Push

/-- The kinds of frames that answer a text. -/
def MessageType.isReply : MessageType → Bool
  | .methodCallResponse => true
  | .error => true
  | _ => false

/-- The replies that a connection has accepted, oldest first. -/
def Connection.replies (c : Connection) : List Envelope := c.accepted.filter (·.kind.isReply)

/-! ## What sends no reply -/

/-- What becomes of a connection that is sent no reply; one that is closed stays so. -/
structure Connection.Quiet (c d : Connection) : Prop where
  number : d.id = c.id
  replies : d.isClosed = false → c.isClosed = false ∧ d.replies = c.replies

namespace Connection

theorem Quiet.refl (c : Connection) : c.Quiet c := ⟨rfl, fun h => ⟨h, rfl⟩⟩

theorem Quiet.trans {c d e : Connection} (h : c.Quiet d) (h' : d.Quiet e) : c.Quiet e := by
  refine ⟨h'.number.trans h.number, fun hopen => ?_⟩
  obtain ⟨hopen', heq'⟩ := h'.replies hopen
  obtain ⟨hopen'', heq⟩ := h.replies hopen'
  exact ⟨hopen'', heq'.trans heq⟩

/-- A frame that is queued and is no reply leaves the replies of the connection as they are. -/
theorem quiet_push (c : Connection) {e : Envelope} (hother : e.kind.isReply = false) :
    c.Quiet { c with queue := c.queue ++ [e] } := by
  refine ⟨rfl, fun hopen => ⟨hopen, ?_⟩⟩
  simp [replies, accepted, hother]

/-- A connection to which anything but a reply is sent has the same replies waiting as before, if it
is still open. -/
theorem quiet_send (c : Connection) {e : Envelope} (hother : e.kind.isReply = false) :
    c.Quiet (c.send e) := by
  rcases c.send_eq e with heq | heq
  · rw [heq]
    exact .refl c
  · rw [heq]
    exact c.quiet_push hother

theorem quiet_receive (c : Connection) {e : Envelope} (hother : e.kind.isReply = false) :
    c.Quiet (c.receive e) := by
  have hreceives := c.receive_receives e
  generalize c.receive e = d at hreceives ⊢
  cases hreceives with
  | skips _ => exact .refl c
  | queues _ _ => exact c.quiet_push hother
  | evicts _ _ | drops _ _ => exact ⟨rfl, fun hopen => ⟨hopen, rfl⟩⟩

/-- Writing a frame out may take a reply off the queue, but never adds one or loses one on the way. -/
theorem quiet_takeNext (c : Connection) : c.Quiet c.takeNext := by
  refine ⟨c.id_takeNext, fun hopen => ⟨?_, ?_⟩⟩
  · rcases c.takeNext_eq with heq | ⟨_, _, -, heq⟩
    · rwa [heq] at hopen
    · rwa [heq] at hopen
  · rw [replies, accepted_takeNext, replies]

theorem quiet_close (c : Connection) : c.Quiet c.close := ⟨rfl, nofun⟩

end Connection

/-- Every connection stays, and none is sent a reply. -/
structure Connections.Quiet (cs ds : Connections) : Prop where
  next : ds.next = cs.next
  all : ∃ f, ds.all = cs.all.map f ∧ ∀ c, Connection.Quiet c (f c)

namespace Connections

theorem Quiet.refl (cs : Connections) : cs.Quiet cs :=
  ⟨rfl, id, (List.map_id _).symm, Connection.Quiet.refl⟩

theorem Quiet.trans {cs ds es : Connections} (h : cs.Quiet ds) (h' : ds.Quiet es) : cs.Quiet es := by
  obtain ⟨f, hf, hquiet⟩ := h.all
  obtain ⟨g, hg, hquiet'⟩ := h'.all
  refine ⟨h'.next.trans h.next, g ∘ f, ?_, fun c => (hquiet c).trans (hquiet' (f c))⟩
  rw [hg, hf, List.map_map]

/-- What is quiet on one connection is quiet on all of them. -/
theorem quiet_modify (cs : Connections) (id : ConnectionId) {f : Connection → Connection}
    (hquiet : ∀ c : Connection, c.Quiet (f c)) : cs.Quiet (cs.modify id f) := by
  refine ⟨rfl, _, rfl, fun c => ?_⟩
  split
  · exact hquiet c
  · exact .refl c

/-- A connection to which anything but a reply is sent has the same replies waiting as before, if it
is still open. -/
theorem quiet_send (cs : Connections) (id : ConnectionId) {e : Envelope}
    (hother : e.kind.isReply = false) : cs.Quiet (cs.send id e).2 := by
  unfold send
  split
  · exact .refl cs
  · split
    · exact cs.quiet_modify id fun c => Connection.quiet_send c hother
    · exact .refl cs

theorem quiet_broadcast (cs : Connections) {e : Envelope} (hother : e.kind.isReply = false) :
    cs.Quiet (cs.broadcast e).2 :=
  ⟨rfl, _, rfl, fun c => c.quiet_receive hother⟩

end Connections

/-- The text that a session has read but not answered. -/
def SessionPhase.unanswered : SessionPhase → List Inbound
  | .answering inbound _ => [inbound]
  | _ => []

namespace Server

variable {σ : Type} {s s' : Server σ} {id : ConnectionId}

/-! ## Steps -/

/-- A session that enters a phase leaves the phases of all others alone. -/
theorem phase?_enter_of_ne {other : ConnectionId} (hne : other ≠ id) (phase : SessionPhase) :
    (s.enter id phase).phase? other = s.phase? other := by
  show List.lookup other (s.sessions.map _) = List.lookup other s.sessions
  induction s.sessions with
  | nil => rfl
  | cons session sessions ih =>
    obtain ⟨k, q⟩ := session
    by_cases hk : k = id
    · have hother : (other == id) = false := beq_eq_false_iff_ne.2 hne
      simp only [List.map_cons, List.lookup_cons, hk, ↓reduceIte, hother, ih]
    · simp only [List.map_cons, if_neg hk, List.lookup_cons, ih]

theorem phase?_enter_self (hfound : s.phase? id ≠ none) (phase : SessionPhase) :
    (s.enter id phase).phase? id = some phase := by
  have hlookup : List.lookup id s.sessions ≠ none := hfound
  show List.lookup id (s.sessions.map _) = some phase
  generalize s.sessions = sessions at hlookup
  induction sessions with
  | nil => exact absurd rfl hlookup
  | cons session sessions ih =>
    obtain ⟨k, q⟩ := session
    by_cases hk : k = id
    · simp only [List.map_cons, if_pos hk, List.lookup_cons, beq_self_eq_true]
    · have hid : (id == k) = false := beq_eq_false_iff_ne.2 (Ne.symm hk)
      simp only [List.lookup_cons, hid] at hlookup
      simp only [List.map_cons, if_neg hk, List.lookup_cons, hid]
      exact ih hlookup

/-- What one step does to a server. -/
inductive Move (h : Handler σ) (s : Server σ) : Server σ → Prop
  | stay : Move h s s
  /-- No reply is sent. -/
  | quiet (connections : Connections) (now : Int) (quiet : s.connections.Quiet connections) :
      Move h s { s with connections, now }
  /-- No reply is sent, and a session goes on, which has nothing to answer. -/
  | advance (id : ConnectionId) (before after : SessionPhase) (connections : Connections)
      (quiet : s.connections.Quiet connections) (found : s.phase? id = some before)
      (idle : before.unanswered = []) (idle' : after.unanswered = []) :
      Move h s ({ s with connections }.enter id after)
  | accept (capacity : Nat) (connections : Connections)
      (quiet : (s.connections.add capacity).2.Quiet connections) :
      Move h s { s with
        connections, sessions := s.sessions ++ [(s.connections.next, SessionPhase.opened)] }
  | receive (id : ConnectionId) (inbound : Inbound) (found : s.phase? id = some .serving) :
      Move h s ({ s with
        state := ((inbound.reply h.call).run s.state).2
        received := s.received ++ [(id, inbound)] }.enter id
          (.answering inbound ((inbound.reply h.call).run s.state).1))
  | answer (id : ConnectionId) (inbound : Inbound) (reply : Payload)
      (found : s.phase? id = some (.answering inbound reply)) :
      Move h s ((s.answer id inbound reply).enter id .serving)

/-- Greetings go to one connection and are no replies, however many there are. So nothing of what was
answered is touched by them. -/
theorem greet_eq (s : Server σ) (id : ConnectionId) (payloads : List Payload)
    (hother : ∀ p ∈ payloads, p.kind.isReply = false) :
    ∃ connections, payloads.foldl (fun s p => s.send id p) s = { s with connections } ∧
      s.connections.Quiet connections := by
  induction payloads generalizing s with
  | nil => exact ⟨s.connections, rfl, .refl _⟩
  | cons p payloads ih =>
    obtain ⟨connections, heq, hquiet⟩ :=
      ih (s.send id p) fun q hq => hother q (List.mem_cons_of_mem p hq)
    have hfirst : s.connections.Quiet (s.send id p).connections :=
      s.connections.quiet_send id (hother p List.mem_cons_self)
    exact ⟨connections, heq, hfirst.trans hquiet⟩

/-- Every step of the server is one of its moves, with a greeting and with broadcasts that are no
replies. -/
theorem step_moves (h : Handler σ) (hgreet : ∀ state, ∀ p ∈ h.greet state, p.kind.isReply = false)
    (s : Server σ) (step : ServerStep) (hbroadcast : ∀ e, step = .broadcast e → e.kind.isReply = false) :
    s.Move h (s.step h step) := by
  cases step with
  | tick now => exact .quiet s.connections now (.refl _)
  | accept capacity =>
    exact .accept capacity _ (Connections.quiet_send _ _ rfl)
  | join id =>
    rw [Server.step]
    split
    next found =>
      exact .advance id .opened .joined _ (s.connections.quiet_modify id fun c => ⟨rfl, fun h => ⟨h, rfl⟩⟩)
        found rfl rfl
    next => exact .stay
  | greet id =>
    rw [Server.step]
    split
    next found =>
      obtain ⟨connections, heq, hquiet⟩ := s.greet_eq id (h.greet s.state) (hgreet s.state)
      rw [heq]
      exact .advance id .joined .serving connections hquiet found rfl rfl
    next => exact .stay
  | receive id text =>
    rw [Server.step]
    split
    next found =>
      split
      · exact .stay
      · exact .receive id (.ofText text) found
    next => exact .stay
  | answer id =>
    rw [Server.step]
    split
    next inbound reply found => exact .answer id inbound reply found
    next => exact .stay
  | leave id =>
    rw [Server.step]
    split
    next found =>
      -- removing and closing a connection touch none of its replies
      have hremove : s.connections.Quiet (s.connections.remove id) :=
        s.connections.quiet_modify id fun c => ⟨rfl, fun h => ⟨h, rfl⟩⟩
      refine .advance id .serving .left _ ?_ found rfl rfl
      split
      · exact hremove.trans ((s.connections.remove id).quiet_modify id Connection.quiet_close)
      · exact hremove
    next => exact .stay
  | write id =>
    exact .quiet _ s.now (s.connections.quiet_modify id Connection.quiet_takeNext)
  | hangUp id => exact .quiet _ s.now (s.connections.quiet_modify id Connection.quiet_close)
  | broadcast e => exact .quiet _ s.now (s.connections.quiet_broadcast (hbroadcast e rfl))

/-! ## Texts and their answers -/

/-- The texts of one viewer that were read. -/
def textsFrom (s : Server σ) (id : ConnectionId) : List Inbound :=
  (s.received.filter fun text => text.1 = id).map Prod.snd

/-- The texts of one viewer that were answered. -/
def answersTo (s : Server σ) (id : ConnectionId) : List Answer :=
  s.answers.filter fun a => a.sender = id

/-- The text of one viewer that was read, and is not answered yet. -/
def unanswered (s : Server σ) (id : ConnectionId) : List Inbound :=
  match s.phase? id with
  | some phase => phase.unanswered
  | none => []

/-- What a session is going to answer is a reply. -/
def AnswersByReplies (s : Server σ) : Prop :=
  ∀ id inbound reply, s.phase? id = some (.answering inbound reply) → reply.kind.isReply = true

/-- A text is answered, by a reply, before the next one of its sender is read. -/
structure Accounted (s : Server σ) : Prop where
  texts : ∀ id, s.textsFrom id = (s.answersTo id).map Answer.inbound ++ s.unanswered id
  replies : s.AnswersByReplies

/-- What the connections have accepted. -/
structure Answered (s : Server σ) : Prop where
  numbers : s.connections.all.map Connection.id = List.range s.connections.next
  sessions : ∀ session ∈ s.sessions, session.1 < s.connections.next
  senders : ∀ a ∈ s.answers, a.sender < s.connections.next
  replies : ∀ c ∈ s.connections.all, c.isClosed = false →
    c.replies = ((s.answersTo c.id).filter (·.refusal?.isNone)).map Answer.reply
  refusals : ∀ c ∈ s.connections.all, c.isClosed = false →
    ∀ a ∈ s.answersTo c.id, a.refusal? ≠ some .closed

/-- What sends no reply keeps the account of the answers, as long as the connections keep their
numbers. -/
theorem Answered.quiet (ha : s.Answered)
    (hquiet : s.connections.Quiet s'.connections) (hanswers : s'.answers = s.answers)
    (hsessions : ∀ session ∈ s'.sessions, session.1 < s.connections.next) : s'.Answered := by
  obtain ⟨f, hall, hf⟩ := hquiet.all
  have hto : ∀ id, s'.answersTo id = s.answersTo id := by
    intro id
    rw [answersTo, hanswers, answersTo]
  refine ⟨?_, ?_, ?_, fun c hc hopen => ?_, fun c hc hopen => ?_⟩
  · have hid : Connection.id ∘ f = Connection.id := funext fun c => (hf c).number
    rw [hall, List.map_map, hid, hquiet.next]
    exact ha.numbers
  · rw [hquiet.next]
    exact hsessions
  · rw [hanswers, hquiet.next]
    exact ha.senders
  · rw [hall] at hc
    obtain ⟨d, hd, rfl⟩ := List.mem_map.1 hc
    obtain ⟨hopen', heq⟩ := (hf d).replies hopen
    rw [heq, hto, (hf d).number]
    exact ha.replies d hd hopen'
  · rw [hall] at hc
    obtain ⟨d, hd, rfl⟩ := List.mem_map.1 hc
    rw [hto, (hf d).number]
    exact ha.refusals d hd ((hf d).replies hopen).1

/-- A connection that is added is sent no reply yet, and has a number that no session has. -/
theorem Answered.add (ha : s.Answered) (capacity : Nat) :
    ({ s with connections := (s.connections.add capacity).2 } : Server σ).Answered := by
  have hnone : s.answersTo s.connections.next = [] :=
    List.filter_eq_nil_iff.2 fun a hmem => by
      simpa using Nat.ne_of_lt (ha.senders a hmem)
  refine ⟨?_, fun session hmem => ?_, fun a hmem => ?_, fun c hc hopen => ?_, fun c hc hopen => ?_⟩
  · show List.map Connection.id (s.connections.all ++ [_]) = List.range (s.connections.next + 1)
    rw [List.map_append, ha.numbers, List.range_succ]
    rfl
  · exact Nat.lt_succ_of_lt (ha.sessions session hmem)
  · exact Nat.lt_succ_of_lt (ha.senders a hmem)
  · rcases List.mem_append.1 hc with hc | hc
    · exact ha.replies c hc hopen
    · cases List.mem_singleton.1 hc
      show _ = ((s.answersTo s.connections.next).filter _).map _
      rw [hnone]
      rfl
  · rcases List.mem_append.1 hc with hc | hc
    · exact ha.refusals c hc hopen
    · cases List.mem_singleton.1 hc
      show ∀ a ∈ s.answersTo s.connections.next, _
      rw [hnone]
      exact nofun

/-- No two connections have one number, so an answer goes to one connection at most. -/
theorem Answered.unique (ha : s.Answered) {c d : Connection} (hc : c ∈ s.connections.all)
    (hd : d ∈ s.connections.all) (heq : c.id = d.id) : c = d := by
  have hnodup : (s.connections.all.map Connection.id).Nodup := by
    rw [ha.numbers]
    exact List.nodup_range
  exact List.inj_on_of_nodup_map hnodup hc hd heq

/-- What an answer does to the connections: that of the sender accepts it, unless it is refused. -/
theorem Answered.mem_answer (ha : s.Answered) (id : ConnectionId) (inbound : Inbound)
    {reply : Payload} (hreply : reply.kind.isReply = true) {c : Connection}
    (hc : c ∈ (s.answer id inbound reply).connections.all) :
    ∃ d ∈ s.connections.all, c.id = d.id ∧ c.isClosed = d.isClosed ∧ (d.id ≠ id → c = d) ∧
      (d.id = id →
        (s.refusal? id (.ofPayload reply s.now) = none ∧
          c.replies = d.replies ++ [.ofPayload reply s.now]) ∨
        (s.refusal? id (.ofPayload reply s.now) = some .full ∧ c.replies = d.replies) ∨
        (d.isClosed = true ∧ c.replies = d.replies)) := by
  let e : Envelope := .ofPayload reply s.now
  have hkind : e.kind.isReply = true := hreply
  have hc : c ∈ (s.connections.send id e).2.all := hc
  show ∃ d ∈ s.connections.all, c.id = d.id ∧ c.isClosed = d.isClosed ∧ (d.id ≠ id → c = d) ∧
    (d.id = id → (s.refusal? id e = none ∧ c.replies = d.replies ++ [e]) ∨
      (s.refusal? id e = some .full ∧ c.replies = d.replies) ∨
      (d.isClosed = true ∧ c.replies = d.replies))
  unfold refusal?
  unfold Connections.send at hc
  cases hget : s.connections.get? id with
  | none =>
    rw [hget] at hc
    refine ⟨c, hc, rfl, rfl, fun _ => rfl, fun hid => ?_⟩
    exact absurd (beq_iff_eq.2 hid) (List.find?_eq_none.1 hget c hc)
  | some found =>
    have hmem : found ∈ s.connections.all := List.mem_of_find?_eq_some hget
    have hid : found.id = id := beq_iff_eq.1 (List.find?_some hget :)
    rw [hget] at hc
    dsimp only at hc ⊢
    cases hoffer : found.offer e with
    | ok queued =>
      rw [hoffer] at hc
      obtain ⟨d, hd, ⟨heq, rfl⟩ | ⟨hne, rfl⟩⟩ := Connections.mem_modify hc
      · -- the sender has one connection only
        have hsame := ha.unique hd hmem (heq.trans hid.symm)
        subst hsame
        obtain ⟨-, -, rfl⟩ := Connection.offer_eq_ok_iff.1 hoffer
        have hsend : d.send e = { d with queue := d.queue ++ [e] } := by rw [Connection.send, hoffer]
        rw [hsend]
        refine ⟨d, hd, rfl, rfl, fun hne => absurd heq hne, fun _ => Or.inl ⟨rfl, ?_⟩⟩
        simp [Connection.replies, Connection.accepted, hkind]
      · exact ⟨c, hd, rfl, rfl, fun _ => rfl, fun heq => absurd heq hne⟩
    | error refusal =>
      rw [hoffer] at hc
      refine ⟨c, hc, rfl, rfl, fun _ => rfl, fun heq => Or.inr ?_⟩
      cases ha.unique hc hmem (heq.trans hid.symm)
      cases refusal with
      | full => exact Or.inl ⟨rfl, rfl⟩
      | closed => exact Or.inr ⟨Connection.offer_eq_closed_iff.1 hoffer, rfl⟩

/-- An answer is entered for the session it goes to, with whether the queue has refused it, and for no
other one. -/
theorem answersTo_answer (s : Server σ) (id : ConnectionId) (inbound : Inbound) (reply : Payload)
    (other : ConnectionId) : (s.answer id inbound reply).answersTo other = s.answersTo other ++
      if id = other then
        [⟨id, inbound, .ofPayload reply s.now, s.refusal? id (.ofPayload reply s.now)⟩]
      else [] := by
  rw [answersTo, answer, answersTo]
  dsimp only
  rw [List.filter_append]
  by_cases h : id = other
  · simp [h]
  · simp [h]

/-- An answer changes no number, and gives none out. -/
theorem ids_answer (s : Server σ) (id : ConnectionId) (inbound : Inbound) (reply : Payload) :
    (s.answer id inbound reply).connections.next = s.connections.next ∧
      (s.answer id inbound reply).connections.all.map Connection.id
        = s.connections.all.map Connection.id := by
  refine ⟨s.connections.next_send id _, ?_⟩
  show ((s.connections.send id _).2.all).map Connection.id = _
  unfold Connections.send
  split
  · rfl
  · split
    · exact Connections.map_modify _ id Connection.id fun c => c.id_send _
    · rfl

/-- A reply is accepted once if there is room for it, and else not at all. -/
theorem Answered.answer (ha : s.Answered) {id : ConnectionId} (hid : id < s.connections.next)
    (inbound : Inbound) {reply : Payload} (hreply : reply.kind.isReply = true) :
    (s.answer id inbound reply).Answered := by
  obtain ⟨hnext, hids⟩ := s.ids_answer id inbound reply
  refine ⟨?_, ?_, fun a hin => ?_, fun c hc hopen => ?_, fun c hc hopen => ?_⟩
  · rw [hids, hnext]
    exact ha.numbers
  · rw [hnext]
    exact ha.sessions
  · rw [hnext]
    rcases List.mem_append.1 hin with hin | hin
    · exact ha.senders a hin
    · cases List.mem_singleton.1 hin
      exact hid
  · obtain ⟨d, hd, hnumber, hclosed, hother, hself⟩ := ha.mem_answer id inbound hreply hc
    rw [hclosed] at hopen
    rw [hnumber, answersTo_answer]
    by_cases heq : d.id = id
    · rw [if_pos heq.symm, List.filter_append, List.map_append, ← ha.replies d hd hopen]
      rcases hself heq with ⟨hnone, hreplies⟩ | ⟨hfull, hreplies⟩ | ⟨hgone, -⟩
      · rw [hreplies, hnone]
        rfl
      · rw [hreplies, hfull]
        exact (List.append_nil _).symm
      · exact absurd (hopen.symm.trans hgone) nofun
    · rw [hother heq, if_neg (Ne.symm heq), List.append_nil]
      exact ha.replies d hd hopen
  · obtain ⟨d, hd, hnumber, hclosed, -, hself⟩ := ha.mem_answer id inbound hreply hc
    rw [hclosed] at hopen
    rw [hnumber, answersTo_answer]
    intro a hin
    rcases List.mem_append.1 hin with hin | hin
    · exact ha.refusals d hd hopen a hin
    · split at hin
      next heq =>
        cases List.mem_singleton.1 hin
        rcases hself heq.symm with ⟨hnone, -⟩ | ⟨hfull, -⟩ | ⟨hgone, -⟩
        · exact fun h => absurd (hnone.symm.trans h) nofun
        · exact fun h => absurd (hfull.symm.trans h) nofun
        · exact absurd (hopen.symm.trans hgone) nofun
      next => cases hin

/-- No session comes or goes when one enters a phase. -/
theorem mem_sessions_enter {phase : SessionPhase} {session : ConnectionId × SessionPhase}
    (h : session ∈ (s.enter id phase).sessions) : ∃ before ∈ s.sessions, session.1 = before.1 := by
  obtain ⟨before, hbefore, rfl⟩ := List.mem_map.1 h
  refine ⟨before, hbefore, ?_⟩
  split
  next heq => exact heq.symm
  next => rfl

/-- A phase that is entered changes no answer that was given. -/
theorem Answered.enter (ha : s.Answered) (id : ConnectionId) (phase : SessionPhase) :
    (s.enter id phase).Answered := by
  refine ha.quiet (.refl _) rfl fun session hmem => ?_
  obtain ⟨before, hbefore, heq⟩ := mem_sessions_enter hmem
  rw [heq]
  exact ha.sessions before hbefore

/-- Every session has the number of a connection that was made. -/
theorem Answered.lt_next (ha : s.Answered) {phase : SessionPhase} (found : s.phase? id = some phase) :
    id < s.connections.next := by
  obtain ⟨before, after, heq, -⟩ := List.lookup_eq_some_iff.1 found
  refine ha.sessions (id, phase) ?_
  rw [heq]
  exact List.mem_append_right before List.mem_cons_self

/-- A move of the server enters the answer that it gives, and loses none. -/
theorem Answered.move {h : Handler σ} (ha : s.Answered) (hc : s.Accounted) (hmove : s.Move h s') :
    s'.Answered := by
  cases hmove with
  | stay => exact ha
  | quiet connections now hquiet => exact ha.quiet hquiet rfl ha.sessions
  | advance id before after connections hquiet found _ _ =>
    have hfirst : ({ s with connections } : Server σ).Answered := ha.quiet hquiet rfl ha.sessions
    exact hfirst.enter id after
  | accept capacity connections hquiet =>
    refine (ha.add capacity).quiet hquiet rfl fun session hmem => ?_
    rcases List.mem_append.1 hmem with hmem | hmem
    · exact Nat.lt_succ_of_lt (ha.sessions session hmem)
    · cases List.mem_singleton.1 hmem
      exact Nat.lt_succ_self _
  | receive id inbound found =>
    have hfirst : ({ s with
        state := ((inbound.reply h.call).run s.state).2
        received := s.received ++ [(id, inbound)] } : Server σ).Answered :=
      ha.quiet (.refl _) rfl ha.sessions
    exact hfirst.enter id _
  | answer id inbound reply found =>
    exact (ha.answer (ha.lt_next found) inbound (hc.replies id inbound reply found)).enter id .serving

/-- What a session is yet to answer, its phase tells. -/
theorem unanswered_of_phase {phase : SessionPhase} (found : s.phase? id = some phase) :
    s.unanswered id = phase.unanswered := by
  rw [unanswered, found]

/-- Entering a phase changes what is to be answered in that session only. -/
theorem unanswered_enter {before : SessionPhase} (found : s.phase? id = some before)
    (phase : SessionPhase) (other : ConnectionId) :
    (s.enter id phase).unanswered other = if other = id then phase.unanswered else s.unanswered other := by
  have hfound : s.phase? id ≠ none := by
    rw [found]
    exact nofun
  split
  next heq =>
    subst heq
    exact unanswered_of_phase (phase?_enter_self hfound phase)
  next hne => rw [unanswered, phase?_enter_of_ne hne, unanswered]

/-- A session answers by replies in whatever phase, if what it is about to send is one. -/
theorem AnswersByReplies.enter (hr : s.AnswersByReplies) {before phase : SessionPhase}
    (found : s.phase? id = some before)
    (hphase : ∀ inbound reply, phase = .answering inbound reply → reply.kind.isReply = true) :
    (s.enter id phase).AnswersByReplies := by
  intro other inbound reply hother
  have hfound : s.phase? id ≠ none := by
    rw [found]
    exact nofun
  by_cases heq : other = id
  · rw [heq, phase?_enter_self hfound] at hother
    exact hphase inbound reply (Option.some.inj hother)
  · rw [phase?_enter_of_ne heq] at hother
    exact hr other inbound reply hother

/-- Whatever comes in, what the handler answers is a reply: a response to a call, or an error. -/
theorem isReply_of_reply (h : Handler σ) (inbound : Inbound) (state : σ) :
    ((inbound.reply h.call).run state).1.kind.isReply = true := by
  cases inbound with
  | call method args => rfl
  | unknownType name => rfl
  | malformed => rfl

/-- What came in and was not answered is what the phases of the sessions say, after every move. -/
theorem Accounted.move {h : Handler σ} (hc : s.Accounted) (hmove : s.Move h s') : s'.Accounted := by
  cases hmove with
  | stay => exact hc
  | quiet connections now _ => exact ⟨hc.texts, hc.replies⟩
  | advance id before after connections _ found idle idle' =>
    have hreplies : ({ s with connections } : Server σ).AnswersByReplies := hc.replies
    refine ⟨fun other => ?_, hreplies.enter found ?_⟩
    · rw [unanswered_enter (s := { s with connections }) found, idle']
      split
      next heq =>
        have htexts := hc.texts other
        rwa [heq, unanswered_of_phase found, idle, ← heq] at htexts
      next => exact hc.texts other
    · rintro inbound reply rfl
      cases idle'
  | accept capacity connections _ =>
    -- the new session comes last, so a session that was found before is still found
    have hphase : ∀ other, List.lookup other (s.sessions ++ [(s.connections.next, .opened)])
        = (s.phase? other).or (if other == s.connections.next then some .opened else none) := by
      intro other
      rw [List.lookup_append, List.lookup_cons, List.lookup_nil]
      rw [phase?]
      cases other == s.connections.next <;> rfl
    refine ⟨fun other => ?_, fun other inbound reply hother => ?_⟩
    · have hsame : s.unanswered other = match List.lookup other
          (s.sessions ++ [(s.connections.next, .opened)]) with
        | some phase => phase.unanswered
        | none => [] := by
        rw [hphase, unanswered]
        cases s.phase? other with
        | some phase => rfl
        | none => cases other == s.connections.next <;> rfl
      exact (hc.texts other).trans (congrArg _ hsame)
    · have hother : List.lookup other (s.sessions ++ [(s.connections.next, .opened)])
          = some (.answering inbound reply) := hother
      rw [hphase] at hother
      cases hfound : s.phase? other with
      | some phase =>
        rw [hfound] at hother
        exact hc.replies other inbound reply (hfound.trans hother)
      | none =>
        rw [hfound] at hother
        cases hnext : other == s.connections.next <;> rw [hnext] at hother <;> cases hother
  | receive id inbound found =>
    let read : Server σ := { s with
      state := ((inbound.reply h.call).run s.state).2
      received := s.received ++ [(id, inbound)] }
    have hread : ∀ other, read.textsFrom other
        = s.textsFrom other ++ if id = other then [inbound] else [] := by
      intro other
      rw [textsFrom, List.filter_append, List.map_append, textsFrom]
      by_cases heq : id = other
      · simp [heq]
      · simp [heq]
    have hreplies : read.AnswersByReplies := hc.replies
    refine ⟨fun other => ?_, hreplies.enter found ?_⟩
    · show read.textsFrom other = (s.answersTo other).map _ ++ (read.enter id _).unanswered other
      rw [unanswered_enter (s := read) found, hread, hc.texts other]
      by_cases heq : other = id
      · subst heq
        rw [if_pos rfl, if_pos rfl, unanswered_of_phase found]
        exact congrArg (· ++ _) (List.append_nil _)
      · rw [if_neg heq, if_neg (Ne.symm heq), List.append_nil]
        rfl
    · rintro _ _ ⟨⟩
      exact isReply_of_reply h inbound s.state
  | answer id inbound reply found =>
    -- the text goes from the one that is being answered to the answered ones
    have hreplies : (s.answer id inbound reply).AnswersByReplies := hc.replies
    refine ⟨fun other => ?_, hreplies.enter found nofun⟩
    show s.textsFrom other = ((s.answer id inbound reply).answersTo other).map _
      ++ ((s.answer id inbound reply).enter id .serving).unanswered other
    rw [unanswered_enter (s := s.answer id inbound reply) found, answersTo_answer, hc.texts other]
    by_cases heq : other = id
    · subst heq
      rw [if_pos rfl, if_pos rfl, unanswered_of_phase found, List.map_append]
      exact (List.append_nil _).symm
    · rw [if_neg heq, if_neg (Ne.symm heq), List.append_nil]
      rfl

/-! ## Runs -/

/-- What every step keeps, every run keeps: the answers that were given are those in the queues, and
what came in was answered or is under way. -/
theorem kept_run (h : Handler σ) (start : σ) (steps : List ServerStep)
    (hbroadcast : ∀ e, .broadcast e ∈ steps → e.kind.isReply = false)
    (hgreet : ∀ state, ∀ p ∈ h.greet state, p.kind.isReply = false) :
    (run h { state := start } steps).Answered ∧ (run h { state := start } steps).Accounted := by
  induction steps using List.reverseRecOn with
  | nil => exact ⟨⟨rfl, nofun, nofun, nofun, nofun⟩, ⟨fun _ => rfl, nofun⟩⟩
  | append_singleton steps step ih =>
    obtain ⟨ha, hc⟩ := ih fun e he => hbroadcast e (List.mem_append_left _ he)
    have hmove := step_moves h hgreet (run h { state := start } steps) step fun e he =>
      hbroadcast e (List.mem_append_right _ (List.mem_singleton.2 he.symm))
    have hsnoc : run h { state := start } (steps ++ [step])
        = (run h { state := start } steps).step h step := by
      simp [run]
    rw [hsnoc]
    exact ⟨ha.move hc hmove, hc.move hmove⟩

/--
In every run in which no broadcast and no greeting is a reply: of every viewer the texts that were read
are those that were answered, in the same order, and the one that is being answered. An open connection
has accepted the replies that were not refused, each once and in this order. Refused is a reply only
because the queue is full, so these are all replies iff no reply found it full.
-/
theorem replies_of_open (h : Handler σ) (start : σ) (steps : List ServerStep)
    (hbroadcast : ∀ e, .broadcast e ∈ steps → e.kind.isReply = false)
    (hgreet : ∀ state, ∀ p ∈ h.greet state, p.kind.isReply = false) :
    let s := run h { state := start } steps
    (∀ id, s.textsFrom id = (s.answersTo id).map Answer.inbound ++ s.unanswered id) ∧
    ∀ c ∈ s.connections.all, c.isClosed = false →
      c.replies = ((s.answersTo c.id).filter (·.refusal?.isNone)).map Answer.reply ∧
      (∀ a ∈ s.answersTo c.id, a.refusal? = none ∨ a.refusal? = some .full) ∧
      (c.replies = (s.answersTo c.id).map Answer.reply ↔
        ∀ a ∈ s.answersTo c.id, a.refusal? ≠ some .full) := by
  intro s
  obtain ⟨ha, hc⟩ := kept_run h start steps hbroadcast hgreet
  refine ⟨hc.texts, fun c hmem hopen => ?_⟩
  have hreplies := ha.replies c hmem hopen
  -- an open connection refuses a reply for one reason only
  have hrefusals : ∀ a ∈ s.answersTo c.id, a.refusal? = none ∨ a.refusal? = some .full := by
    intro a hin
    have hnot := ha.refusals c hmem hopen a hin
    cases hrefusal : a.refusal? with
    | none => exact Or.inl rfl
    | some refusal =>
      cases refusal with
      | full => exact Or.inr rfl
      | closed => exact absurd hrefusal hnot
  refine ⟨hreplies, hrefusals, ?_⟩
  rw [hreplies]
  constructor
  · intro heq a hin hfull
    have hlength : ((s.answersTo c.id).filter (·.refusal?.isNone)).length
        = (s.answersTo c.id).length := by
      have hmapped := congrArg List.length heq
      rwa [List.length_map, List.length_map] at hmapped
    have hnone := List.length_filter_eq_length_iff.1 hlength a hin
    rw [hfull] at hnone
    cases hnone
  · intro hnot
    have hall : (s.answersTo c.id).filter (·.refusal?.isNone) = s.answersTo c.id := by
      refine List.filter_eq_self.2 fun a hin => ?_
      rw [(hrefusals a hin).resolve_right (hnot a hin)]
      rfl
    rw [hall]

/-- A handler that greets nobody, and whose methods return nothing. -/
def idleHandler : Handler Unit where
  greet _ := []
  call method _ := pure (.ofOutcome method (.completed .null))

/-- A viewer connects, and some log lines are broadcast before it sends a text that is no frame. -/
def chattyRun (lines : Nat) : List ServerStep :=
  [.accept queueCapacity, .join 0, .greet 0]
    ++ List.replicate lines (.broadcast (.ofPayload (.console .log []) 0))
    ++ [.receive 0 "", .answer 0]

/-- The run below broadcasts lines only, and no replies. -/
theorem isReply_chattyRun (lines : Nat) (e : Envelope) (h : .broadcast e ∈ chattyRun lines) :
    e.kind.isReply = false := by
  rcases List.mem_append.1 h with h | h
  · rcases List.mem_append.1 h with h | h
    · simp at h
    · cases List.eq_of_mem_replicate h
      rfl
  · simp at h

/-- While there is room, every text is replied to. -/
theorem replied_in_chattyRun :
    (∀ e, .broadcast e ∈ chattyRun 3 → e.kind.isReply = false) ∧
      (∀ state, ∀ p ∈ idleHandler.greet state, p.kind.isReply = false) ∧
      ((run idleHandler { state := () } (chattyRun 3)).answersTo 0).length = 1 ∧
      ∃ c ∈ (run idleHandler { state := () } (chattyRun 3)).connections.all,
        c.replies = ((run idleHandler { state := () } (chattyRun 3)).answersTo 0).map Answer.reply := by
  have hbroadcast := isReply_chattyRun 3
  have hgreet : ∀ state, ∀ p ∈ idleHandler.greet state, p.kind.isReply = false := fun _ => nofun
  have hanswered : ((run idleHandler { state := () } (chattyRun 3)).answersTo 0).all
      (·.refusal?.isNone) = true := by
    decide +kernel
  have hopen : (run idleHandler { state := () } (chattyRun 3)).connections.all.any
      (fun c => c.id = 0 ∧ c.isClosed = false) = true := by
    decide +kernel
  obtain ⟨c, hc, hfound⟩ := List.any_eq_true.1 hopen
  obtain ⟨hid, hclosed⟩ := of_decide_eq_true hfound
  obtain ⟨-, -, hall⟩ :=
    (replies_of_open idleHandler () (chattyRun 3) hbroadcast hgreet).2 c hc hclosed
  rw [hid] at hall
  refine ⟨hbroadcast, hgreet, by decide +kernel, c, hc, hall.2 fun a ha hfull => ?_⟩
  have hnone := List.all_eq_true.1 hanswered a ha
  rw [hfull] at hnone
  cases hnone

/-- Once the queue is full, the reply is dropped: the viewer, which is still in the set, was neither
evicted nor closed, gets none. -/
theorem reply_dropped :
    let s := run idleHandler { state := () } (chattyRun 255)
    (s.textsFrom 0).length = 1 ∧ (s.unanswered 0).length = 0 ∧
      ∃ c ∈ s.connections.all, c.id = 0 ∧ c.isMember = true ∧ c.isEvicted = false ∧
        c.isClosed = false ∧ c.replies = [] := by
  have hmember : (run idleHandler { state := () } (chattyRun 255)).connections.all.any (fun c =>
      c.id = 0 ∧ c.isMember = true ∧ c.isEvicted = false ∧ c.isClosed = false ∧
        c.replies.length = 0) = true := by
    decide +kernel
  obtain ⟨c, hc, hfound⟩ := List.any_eq_true.1 hmember
  obtain ⟨hid, hin, hnot, hopen, hnone⟩ := of_decide_eq_true hfound
  exact ⟨by decide +kernel, by decide +kernel, c, hc, hid, hin, hnot, hopen,
    List.length_eq_zero_iff.1 hnone⟩

end Server

end AppletHost.Push

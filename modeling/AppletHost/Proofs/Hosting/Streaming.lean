import AppletHost.Proofs.Hosting.Showing
import Mathlib.Data.List.Range

/-!
# What the streams of an app tell

The viewers of a stream watch one app. All that its logic tells is sent to all streams, and each stream
is read at its own pace out of the texts that are kept for all of them. A text is known by its place,
which is how many were sent before it. What a stream can do next is said once, by `EventStreams.Next`;
and `Watched.Follows` is kept from the subscription on: a stream has told the latest render, and then
the texts at some places, each later than the one before.

Which places these are depends on when the stream is read:

> `Follows.places_of_keepsUp`: a stream that never lags tells all of them.
>
> `Follows.accounts`: the text at a place is told when the stream passes it, unless so many were sent
> after it before the stream got there that it was no longer kept.

The headlines are `stream_tells_every_render` and `last_render_told_iff`.
-/

namespace AppletHost.Hosting

open Push (Envelope)

namespace EventStreams

/-- The place of the oldest text that is kept. -/
def oldest (s : EventStreams) : Nat := s.sent - s.kept.length

/-- No more is kept than there is room for, or than was sent. -/
def Bounded (s : EventStreams) : Prop := s.kept.length ≤ streamBuffer ∧ s.kept.length ≤ s.sent

/-- From that place on these texts were sent; those that were kept then are `older`. -/
structure Holds (s : EventStreams) (since : Nat) (older texts : List String) : Prop where
  bounded : older.length ≤ since
  sent : s.sent = since + texts.length
  kept : s.kept = (older ++ texts).drop ((older ++ texts).length - streamBuffer)

/-- The place of the text that is told, if it is a text, by the stream after it. -/
def placeOf : StreamEvent × EventStream → List Nat
  | (.message _, stream) => [stream.position - 1]
  | (.hello _, _) => []

/-- What a stream may tell next: its first event, the text at its place or at the oldest one that is
kept, or nothing. -/
inductive Next (s : EventStreams) (since : Nat) (texts : List String) (stream : EventStream) :
    Option (StreamEvent × EventStream) → Prop
  | hello (replay : Option String) (opening : stream.opening = some replay) :
    Next s since texts stream (some (.hello replay, { stream with opening := none }))
  | message (place : Nat) (text : String) (opening : stream.opening = none)
      (isNext : place = max stream.position s.oldest) (found : texts[place - since]? = some text) :
    Next s since texts stream
      (some (.message text, { stream with position := place + 1, opening := none }))
  | nothing (opening : stream.opening = none) (caughtUp : s.sent ≤ stream.position) :
    Next s since texts stream none

variable {s : EventStreams} {since : Nat} {older texts : List String} {stream : EventStream}

/-- However much is published, a stream keeps what its buffer has room for and no more. -/
theorem bounded_publish (h : s.Bounded) (text : String) : (s.publish text).Bounded := by
  obtain ⟨hroom, hsent⟩ := h
  refine ⟨s.length_kept_publish text hroom, ?_⟩
  simp only [publish, List.length_drop, List.length_append, List.length_singleton]
  omega

/-- What is kept from now on: nothing is known of the texts before, and none has come since. -/
theorem Bounded.holds (h : s.Bounded) : s.Holds s.sent s.kept [] := by
  refine ⟨h.2, rfl, ?_⟩
  rw [List.append_nil, Nat.sub_eq_zero_of_le h.1, List.drop_zero]

/-- A text that is published is the newest of those that are kept, and the oldest one makes room for
it. -/
theorem Holds.publish (h : s.Holds since older texts) (text : String) :
    (s.publish text).Holds since older (texts ++ [text]) := by
  have hkept := h.kept
  refine ⟨h.bounded, ?_, ?_⟩
  · show s.sent + 1 = since + (texts ++ [text]).length
    rw [h.sent, List.length_append, List.length_singleton, Nat.add_assoc]
  · show (s.kept ++ [text]).drop ((s.kept ++ [text]).length - streamBuffer) = _
    rw [← List.append_assoc]
    generalize older ++ texts = all at hkept
    have hlonger : s.kept ++ [text] = (all ++ [text]).drop (all.length - streamBuffer) := by
      rw [hkept, List.drop_append_of_le_length (Nat.sub_le _ _)]
    -- what is dropped now and what was dropped before
    rw [hlonger, List.drop_drop]
    refine congrArg (fun n => (all ++ [text]).drop n) ?_
    simp only [List.length_drop, List.length_append, List.length_singleton]
    omega

/-- What is kept is no matter of the streams, so reading one of them leaves it as it is. -/
theorem Holds.withStreams (h : s.Holds since older texts) (streams : List EventStream) :
    ({ s with streams } : EventStreams).Holds since older texts :=
  ⟨h.bounded, h.sent, h.kept⟩

/-- What is kept is all there was, up to what the buffer has room for. -/
theorem Holds.length_kept (h : s.Holds since older texts) :
    s.kept.length = min streamBuffer (older.length + texts.length) := by
  rw [h.kept, List.length_drop, List.length_append]
  omega

/-- A text is no longer kept once so many were sent after it. -/
theorem Holds.lt_oldest_iff (h : s.Holds since older texts) {place : Nat} (hplace : since ≤ place) :
    place < s.oldest ↔ place + streamBuffer < s.sent := by
  have hbounded := h.bounded
  have hsent := h.sent
  rw [oldest, h.length_kept]
  omega

/-- The text at a place that is kept is found where the place stands behind the oldest one. -/
theorem Holds.getElem?_kept (h : s.Holds since older texts) {place : Nat} (hplace : since ≤ place)
    (hkept : s.oldest ≤ place) : s.kept[place - s.oldest]? = texts[place - since]? := by
  have hbounded := h.bounded
  have hlength := h.length_kept
  have holdest : s.oldest = since + texts.length - s.kept.length := by
    rw [oldest, h.sent]
  have hplaces : (older ++ texts).length - streamBuffer + (place - s.oldest)
      = older.length + (place - since) := by
    rw [List.length_append]
    omega
  rw [h.kept, List.getElem?_drop, hplaces, List.getElem?_append_right (Nat.le_add_right _ _),
    Nat.add_sub_cancel_left]

/-- A reader that is not behind gets the text at its place; one that is behind is set forward to the
oldest text, and gets that. -/
theorem Holds.next (h : s.Holds since older texts) (hopen : stream.isOver = false)
    (hsince : since ≤ stream.position) : Next s since texts stream (s.next? stream) := by
  have holdest : s.oldest = since + texts.length - s.kept.length := by
    rw [oldest, h.sent]
  unfold next?
  rw [if_neg (Bool.eq_false_iff.1 hopen)]
  cases hopening : stream.opening with
  | some replay => exact .hello replay hopening
  | none =>
    dsimp only
    have hplace : since ≤ max stream.position s.oldest := le_max_of_le_left hsince
    have hfound := h.getElem?_kept hplace (Nat.le_max_right _ _)
    rw [oldest] at hfound
    rw [hfound]
    cases htext : texts[max stream.position (s.sent - s.kept.length) - since]? with
    | some text => exact .message _ text hopening rfl htext
    | none =>
      refine .nothing hopening ?_
      have hlength := h.length_kept
      have hsent := h.sent
      have hroom : 0 < streamBuffer := by decide
      rw [List.getElem?_eq_none_iff] at htext
      omega

end EventStreams

/-! ## An app that is watched -/

/-- A step of an app, of its streams, or of the clock. -/
inductive WatchStep where
  /-- The logic of the app tells something. -/
  | tell (e : Event)
  /-- A viewer opens a stream. -/
  | subscribe
  /-- A stream tells what is next. -/
  | read (k : Nat)
  | tick (now : Int)
deriving Repr, Inhabited

/-- An app that is watched: where its events go, and what it shares with other apps. -/
structure Watched where
  router : Router
  outlets : Outlets := {}
deriving Inhabited

namespace Watched

/-- The streams of the app. -/
def streams (w : Watched) : EventStreams := w.router.server.streams

/-- What a stream begins with that is opened now. -/
def opening (w : Watched) : Option String :=
  w.router.latest.map fun output => RenderServer.renderText output w.outlets.now

/-- What a stream tells next, with the stream after it. -/
def next? (w : Watched) (k : Nat) : Option (StreamEvent × EventStream) :=
  w.streams.streams[k]?.bind w.streams.next?

/-- One step. -/
def step (w : Watched) : WatchStep → Watched
  | .tell e =>
    let (router, outlets) := w.router.receive w.outlets e
    { router, outlets }
  | .subscribe => { w with router.server := w.router.server.openStream w.outlets.now }
  | .read k =>
    match w.next? k with
    | none => w
    | some (_, stream) =>
      { w with router.server.streams.streams := w.streams.streams.set k stream }
  | .tick now => { w with outlets.now := now }

/-- Steps one after another. -/
def run (w : Watched) (steps : List WatchStep) : Watched := steps.foldl step w

/-- What is noted at the steps of a run, one after another. -/
def trace {α : Type} (note : Watched → WatchStep → List α) : Watched → List WatchStep → List α
  | _, [] => []
  | w, s :: steps => note w s ++ (w.step s).trace note steps

/-- The frames that are sent to all streams in a step. -/
def sends (w : Watched) : WatchStep → List Envelope
  | .tell e => w.router.frames w.outlets.now [e]
  | _ => []

/-- What a stream tells in a step. -/
def tells (k : Nat) (w : Watched) : WatchStep → List StreamEvent
  | .read j => if j = k then ((w.next? k).map Prod.fst).toList else []
  | _ => []

/-- The place of the text that a stream tells in a step. -/
def places (k : Nat) (w : Watched) : WatchStep → List Nat
  | .read j => if j = k then (w.next? k).toList.flatMap EventStreams.placeOf else []
  | _ => []

/-- The stream is so slow that the text it would tell next is no longer kept. -/
def lags (w : Watched) (k : Nat) : Bool :=
  w.streams.streams[k]?.any fun stream =>
    stream.opening.isNone && stream.position < w.streams.oldest

/-- So many texts were sent after the one at that place, before the stream got there, that it is no
longer kept. -/
def isBehind (w : Watched) (k place : Nat) : Bool :=
  w.streams.streams[k]?.any fun stream =>
    stream.position ≤ place && place + streamBuffer < w.streams.sent

/-- At some moment of the run the stream was behind the text at that place. -/
def Missed (w : Watched) (k place : Nat) (steps : List WatchStep) : Prop :=
  ∃ before, before <+: steps ∧ (w.run before).isBehind k place = true

/-- Whether a stream lags in a step that reads it. -/
def lagsIn (k : Nat) (w : Watched) : WatchStep → List Bool
  | .read j => if j = k then [w.lags k] else []
  | _ => []

/-- The stream has nothing to tell. -/
def caughtUp (w : Watched) (k : Nat) : Bool := (w.next? k).isNone

end Watched

/-- The render that a step publishes. -/
def WatchStep.published? (r : Renderer) : WatchStep → Option RenderOutput
  | .tell e => Hosting.published? r e
  | _ => none

namespace Watched

variable {w : Watched}

/-- A run is watched in two parts by watching the second from where the first has led. -/
theorem run_append (w : Watched) (steps steps' : List WatchStep) :
    w.run (steps ++ steps') = (w.run steps).run steps' :=
  List.foldl_append

/-- And what is noted along the way is what is noted in the one part and then in the other. -/
theorem trace_append {α : Type} (note : Watched → WatchStep → List α) (w : Watched)
    (steps steps' : List WatchStep) :
    w.trace note (steps ++ steps') = w.trace note steps ++ (w.run steps).trace note steps' := by
  induction steps generalizing w with
  | nil => rfl
  | cons s steps ih =>
    rw [List.cons_append, trace, trace, ih, List.append_assoc]
    rfl

theorem trace_snoc {α : Type} (note : Watched → WatchStep → List α) (w : Watched)
    (steps : List WatchStep) (s : WatchStep) :
    w.trace note (steps ++ [s]) = w.trace note steps ++ note (w.run steps) s := by
  rw [trace_append, trace, trace, List.append_nil]

theorem run_snoc (w : Watched) (steps : List WatchStep) (s : WatchStep) :
    w.run (steps ++ [s]) = (w.run steps).step s :=
  run_append w steps [s]

/-! ### One stream -/

end Watched

namespace EventStream

/-- The texts at these places, as they are told. -/
def messages (since : Nat) (frames : List Envelope) (places : List Nat) : List StreamEvent :=
  places.filterMap fun place => frames[place - since]?.map fun e => .message e.toJson

/-- What a stream has told since it was opened: what was the latest render then, and after it the texts
at these places, each later than the one before. -/
structure HasTold (stream : EventStream) (since : Nat) (replay : Option String)
    (frames : List Envelope) (told : List StreamEvent) (places : List Nat) : Prop where
  isOpen : stream.isOver = false
  since_le : since ≤ stream.position
  position_le : stream.position ≤ since + frames.length
  ordered : places.Pairwise (· < ·)
  within : ∀ place ∈ places, since ≤ place ∧ place < stream.position
  told : (stream.opening = some replay ∧ told = [] ∧ places = []) ∨
    (stream.opening = none ∧ told = .hello replay :: messages since frames places)

variable {stream stream' : EventStream} {since : Nat} {replay : Option String}
  {frames : List Envelope} {told : List StreamEvent} {places : List Nat} {older : List String}
  {s : EventStreams} {e : StreamEvent}

/-- The messages of one place more, if there is a frame at that place. -/
theorem messages_snoc {place : Nat} {e : Envelope} (found : frames[place - since]? = some e) :
    messages since frames (places ++ [place])
      = messages since frames places ++ [.message e.toJson] := by
  simp only [messages, List.filterMap_append, List.filterMap_cons, List.filterMap_nil, found]
  rfl

/-- The messages of the first places are the first frames. -/
theorem messages_range' (since : Nat) (frames : List Envelope) {n : Nat} (hn : n ≤ frames.length) :
    messages since frames (List.range' since n) = (frames.take n).map fun e => .message e.toJson := by
  induction n with
  | zero => rfl
  | succ n ih =>
    have hnext := ih (Nat.le_of_succ_le hn)
    rw [messages] at hnext ⊢
    rw [List.range'_1_concat, List.filterMap_append, hnext, List.take_add_one, List.map_append]
    simp only [List.filterMap_cons, List.filterMap_nil, Nat.add_sub_cancel_left]
    cases frames[n]? with
    | none => rfl
    | some e => rfl

/-- What was told does not change when more is sent; the frames that it was taken from are still the
first ones. -/
theorem HasTold.grow (h : stream.HasTold since replay frames told places) (more : List Envelope) :
    stream.HasTold since replay (frames ++ more) told places := by
  have hsame : messages since (frames ++ more) places = messages since frames places := by
    refine List.filterMap_congr fun place hplace => ?_
    have hwithin := h.within place hplace
    have hposition := h.position_le
    rw [List.getElem?_append_left (by omega)]
  refine ⟨h.isOpen, h.since_le, ?_, h.ordered, h.within, hsame.symm ▸ h.told⟩
  rw [List.length_append]
  exact h.position_le.trans (by omega)

/-- What a stream tells next is the rest of its replay, or the frame at the place where it stands. -/
theorem HasTold.next (h : stream.HasTold since replay frames told places)
    (hnext : s.Next since (frames.map (·.toJson)) stream (some (e, stream'))) :
    stream'.HasTold since replay frames (told ++ [e])
      (places ++ EventStreams.placeOf (e, stream')) := by
  cases hnext with
  | hello replay' opening =>
    rcases h.told with ⟨hopening, rfl, rfl⟩ | ⟨hopening, -⟩
    · cases opening.symm.trans hopening
      exact ⟨h.isOpen, h.since_le, h.position_le, h.ordered, h.within, Or.inr ⟨rfl, rfl⟩⟩
    · cases opening.symm.trans hopening
  | message place text opening isNext found =>
    have hsince := h.since_le
    obtain ⟨e, hframe, rfl⟩ := Option.map_eq_some_iff.1 ((List.getElem?_map ..).symm.trans found)
    obtain ⟨hplace, -⟩ := List.getElem?_eq_some_iff.1 hframe
    rcases h.told with ⟨hopening, -⟩ | ⟨-, rfl⟩
    · cases opening.symm.trans hopening
    -- all that it has told so far is older, as it never goes back
    have hlater : ∀ p ∈ places, p < place := by
      intro p hp
      have hwithin := h.within p hp
      omega
    show HasTold _ since replay frames _ (places ++ [place + 1 - 1])
    rw [Nat.add_sub_cancel]
    refine ⟨h.isOpen, ?_, ?_, ?_, fun p hp => ?_, Or.inr ⟨rfl, ?_⟩⟩
    · show since ≤ place + 1
      omega
    · show place + 1 ≤ since + frames.length
      omega
    · rw [List.pairwise_append]
      exact ⟨h.ordered, List.pairwise_singleton _ _,
        fun p hp q hq => List.mem_singleton.1 hq ▸ hlater p hp⟩
    · show since ≤ p ∧ p < place + 1
      rcases List.mem_append.1 hp with hp | hp
      · exact ⟨(h.within p hp).1, Nat.lt_succ_of_lt (hlater p hp)⟩
      · cases List.mem_singleton.1 hp
        omega
    · rw [messages_snoc hframe]
      rfl

end EventStream

namespace Watched

/-- The app is running, and no more is kept for its streams than there is room for. -/
structure Running (w : Watched) : Prop where
  running : w.router.server.isShut = false
  bounded : w.streams.Bounded

/-- The app is running, and a stream that was opened when so many texts had been sent has told this of
the frames that were sent since. -/
structure Follows (w : Watched) (k since : Nat) (older : List String) (replay : Option String)
    (frames : List Envelope) (told : List StreamEvent) (places : List Nat) (stream : EventStream) :
    Prop where
  running : w.router.server.isShut = false
  holds : w.streams.Holds since older (frames.map (·.toJson))
  found : w.streams.streams[k]? = some stream
  hasTold : stream.HasTold since replay frames told places

/-- What a step does to a stream: it stays where it is, or it tells the text at its place, or at the
oldest one that is kept. -/
inductive Moves (w : Watched) (k : Nat) (s : WatchStep) (stream : EventStream) : EventStream → Prop
  | stays (stream' : EventStream) (position : stream'.position = stream.position)
    (silent : w.places k s = []) : Moves w k s stream stream'
  | reads (place : Nat) (isNext : place = max stream.position w.streams.oldest)
    (sent : place < w.streams.sent) (opening : stream.opening = none) (isRead : s = .read k)
    (told : w.places k s = [place]) :
    Moves w k s stream { stream with position := place + 1, opening := none }

variable {w : Watched} {k since : Nat} {older : List String} {replay : Option String}
  {frames : List Envelope} {told : List StreamEvent} {places : List Nat} {stream : EventStream}

/-- What the logic tells is sent to the streams as one text, if it is sent at all. -/
theorem tell_streams (w : Watched) (e : Event) :
    (w.step (.tell e)).router.server.isShut = w.router.server.isShut ∧
      (w.sends (.tell e) = [] ∧ (w.step (.tell e)).streams = w.streams ∨
        ∃ frame, w.sends (.tell e) = [frame] ∧
          (w.step (.tell e)).streams = w.streams.publish frame.toJson) := by
  cases e with
  | stateMutated | logEmitted => exact ⟨rfl, Or.inr ⟨_, rfl, rfl⟩⟩
  | methodRequested => exact ⟨rfl, Or.inl ⟨rfl, rfl⟩⟩

/-- While the server runs, a subscription opens one more stream, which starts behind all that was sent
before. -/
theorem subscribe_streams (hrunning : w.router.server.isShut = false) :
    (w.step .subscribe).streams = w.streams.subscribe w.opening := by
  show (if w.router.server.isShut then _ else _ : EventStreams) = _
  rw [hrunning]
  rfl

/-- An event of the app lengthens the frames that a stream is yet to tell, by what the server makes of
it. -/
theorem Follows.tell (hf : w.Follows k since older replay frames told places stream) (e : Event) :
    (w.step (.tell e)).Follows k since older replay (frames ++ w.sends (.tell e)) told places
      stream := by
  obtain ⟨hshut, ⟨hsends, hstreams⟩ | ⟨frame, hsends, hstreams⟩⟩ := w.tell_streams e
  · rw [hsends, List.append_nil]
    exact ⟨hshut.trans hf.running, hstreams ▸ hf.holds, hstreams ▸ hf.found, hf.hasTold⟩
  · rw [hsends]
    refine ⟨hshut.trans hf.running, ?_, hstreams ▸ hf.found, hf.hasTold.grow [frame]⟩
    rw [hstreams, List.map_append]
    exact hf.holds.publish frame.toJson

/-- Another subscription opens a stream behind all those there are. -/
theorem Follows.subscribe (hf : w.Follows k since older replay frames told places stream) :
    (w.step .subscribe).Follows k since older replay frames told places stream := by
  have hstreams := subscribe_streams hf.running
  have hlt : k < w.streams.streams.length := (List.getElem?_eq_some_iff.1 hf.found).1
  refine ⟨hf.running, ?_, ?_, hf.hasTold⟩
  · rw [hstreams]
    exact hf.holds.withStreams _
  · rw [hstreams]
    exact (List.getElem?_append_left hlt).trans hf.found

/-- What becomes of a stream when it is read: it tells one thing more and is one place further, or
there was nothing to tell and it stays. -/
theorem Follows.read (hf : w.Follows k since older replay frames told places stream) :
    ∃ stream', (w.step (.read k)).Follows k since older replay frames (told ++ w.tells k (.read k))
      (places ++ w.places k (.read k)) stream' ∧ w.Moves k (.read k) stream stream' := by
  have hnext := hf.holds.next hf.hasTold.isOpen hf.hasTold.since_le
  have hwhole : w.next? k = w.streams.next? stream := by
    rw [next?, hf.found]
    rfl
  have htells : w.tells k (.read k) = ((w.streams.next? stream).map Prod.fst).toList := by
    rw [tells, if_pos rfl, hwhole]
  have hplaces : w.places k (.read k)
      = (w.streams.next? stream).toList.flatMap EventStreams.placeOf := by
    rw [Watched.places, if_pos rfl, hwhole]
  cases hcase : w.streams.next? stream with
  -- there is nothing to tell yet, and the stream waits where it is
  | none =>
    have hstep : w.step (.read k) = w := by
      simp only [Watched.step, hwhole, hcase]
    rw [hcase] at htells hplaces
    rw [hstep, htells, hplaces]
    refine ⟨stream, ?_, .stays stream rfl hplaces⟩
    simpa using hf
  | some next =>
    obtain ⟨e, stream'⟩ := next
    rw [hcase] at hnext htells hplaces
    have hplaces : w.places k (.read k) = EventStreams.placeOf (e, stream') := by
      rw [hplaces]
      exact List.append_nil _
    have hstep : w.step (.read k)
        = { w with router.server.streams.streams := w.streams.streams.set k stream' } := by
      simp only [Watched.step, hwhole, hcase]
    have hlt : k < w.streams.streams.length := (List.getElem?_eq_some_iff.1 hf.found).1
    refine ⟨stream', ?_, ?_⟩
    · rw [hstep, htells, hplaces]
      exact ⟨hf.running, hf.holds.withStreams _, List.getElem?_set_self hlt, hf.hasTold.next hnext⟩
    · cases hnext with
      | hello replay' opening => exact .stays _ rfl hplaces
      | message place text opening isNext found =>
        refine .reads place isNext ?_ opening rfl hplaces
        have hsent := hf.holds.sent
        have hsince := hf.hasTold.since_le
        obtain ⟨hplace, -⟩ := List.getElem?_eq_some_iff.1 found
        omega

/-- Reading from another stream leaves this one where it stands. -/
theorem Follows.readOther (hf : w.Follows k since older replay frames told places stream) {j : Nat}
    (hj : j ≠ k) : (w.step (.read j)).Follows k since older replay frames told places stream := by
  cases hnext : w.next? j with
  | none =>
    have hstep : w.step (.read j) = w := by
      simp only [Watched.step, hnext]
    rwa [hstep]
  | some next =>
    have hstep : w.step (.read j)
        = { w with router.server.streams.streams := w.streams.streams.set j next.2 } := by
      simp only [Watched.step, hnext]
    rw [hstep]
    exact ⟨hf.running, hf.holds.withStreams _, (List.getElem?_set_ne hj).trans hf.found, hf.hasTold⟩

/-- Every step keeps it, with the frames, the tellings and the places that the step adds. -/
theorem Follows.step (hf : w.Follows k since older replay frames told places stream)
    (s : WatchStep) :
    ∃ stream', (w.step s).Follows k since older replay (frames ++ w.sends s) (told ++ w.tells k s)
      (places ++ w.places k s) stream' ∧ w.Moves k s stream stream' := by
  cases s with
  | tell e =>
    refine ⟨stream, ?_, .stays stream rfl rfl⟩
    simp only [Watched.places, tells, List.append_nil]
    exact hf.tell e
  | subscribe =>
    refine ⟨stream, ?_, .stays stream rfl rfl⟩
    simp only [Watched.places, tells, sends, List.append_nil]
    exact hf.subscribe
  | tick now =>
    refine ⟨stream, ?_, .stays stream rfl rfl⟩
    simp only [Watched.places, tells, sends, List.append_nil]
    exact ⟨hf.running, hf.holds, hf.found, hf.hasTold⟩
  | read j =>
    simp only [sends, List.append_nil]
    by_cases hj : j = k
    · subst hj
      exact hf.read
    · have hsilent : w.places k (.read j) = [] := if_neg hj
      refine ⟨stream, ?_, .stays stream rfl hsilent⟩
      rw [hsilent, tells, if_neg hj, List.append_nil, List.append_nil]
      exact hf.readOther hj

/-- So a stream can be followed through any run, whatever is told, subscribed and read in between. -/
theorem Follows.run (hf : w.Follows k since older replay frames told places stream)
    (steps : List WatchStep) :
    ∃ stream', (w.run steps).Follows k since older replay (frames ++ w.trace sends steps)
      (told ++ w.trace (tells k) steps) (places ++ w.trace (Watched.places k) steps) stream' := by
  induction steps generalizing w frames told places stream with
  | nil =>
    simp only [trace, List.append_nil]
    exact ⟨stream, hf⟩
  | cons s steps ih =>
    obtain ⟨_, hstep, -⟩ := hf.step s
    obtain ⟨stream', hrun⟩ := ih hstep
    simp only [List.append_assoc] at hrun
    exact ⟨stream', hrun⟩

/-! ### A stream that keeps up -/

/-- A stream that never lags tells one text after another. -/
theorem Follows.places_of_keepsUp
    (hf : w.Follows k since older replay frames told places stream)
    (hplaces : places = List.range' since (stream.position - since)) (steps : List WatchStep)
    (hkeeps : true ∉ w.trace (lagsIn k) steps) :
    ∃ stream', (w.run steps).Follows k since older replay (frames ++ w.trace sends steps)
        (told ++ w.trace (tells k) steps) (places ++ w.trace (Watched.places k) steps) stream' ∧
      places ++ w.trace (Watched.places k) steps
        = List.range' since (stream'.position - since) := by
  induction steps generalizing w frames told places stream with
  | nil =>
    simp only [trace, List.append_nil]
    exact ⟨stream, hf, hplaces⟩
  | cons s steps ih =>
    obtain ⟨hfirst, hrest⟩ := not_or.1 (mt List.mem_append.2 hkeeps)
    obtain ⟨stream', hstep, hmoves⟩ := hf.step s
    have hplaces' : places ++ w.places k s = List.range' since (stream'.position - since) := by
      cases hmoves with
      | stays _ position silent => rw [silent, List.append_nil, position, hplaces]
      | reads place isNext sent opening isRead told =>
        subst isRead
        -- as it does not lag, the text it tells is the one at its own place
        have hlags : w.lags k = false := by
          rw [lagsIn, if_pos rfl, List.mem_singleton] at hfirst
          exact Bool.eq_false_iff.2 fun hlags => hfirst hlags.symm
        have hkept : w.streams.oldest ≤ stream.position := by
          simpa [lags, hf.found, opening] using hlags
        have hsince := hf.hasTold.since_le
        have hplace : place = since + (stream.position - since) := by
          omega
        rw [told, hplaces, hplace, ← List.range'_1_concat]
        congr 1
        show _ = since + (stream.position - since) + 1 - since
        omega
    obtain ⟨stream'', hrun, hplaces''⟩ := ih hstep hplaces' hrest
    simp only [List.append_assoc] at hrun hplaces''
    exact ⟨stream'', hrun, hplaces''⟩

/-! ### What a stream misses -/

/-- A stream is behind a place just if it has yet to read it and the buffer has let go of it. -/
theorem Follows.isBehind_iff (hf : w.Follows k since older replay frames told places stream)
    {place : Nat} (hplace : since ≤ place) :
    w.isBehind k place = true ↔ stream.position ≤ place ∧ place < w.streams.oldest := by
  rw [isBehind, hf.found, hf.holds.lt_oldest_iff hplace]
  simp

/-- A place is missed if it was missed before, or the last step has let go of it. -/
theorem missed_snoc (w : Watched) (k place : Nat) (steps : List WatchStep) (s : WatchStep) :
    w.Missed k place (steps ++ [s]) ↔
      w.Missed k place steps ∨ ((w.run steps).step s).isBehind k place = true := by
  constructor
  · rintro ⟨before, hprefix, hbehind⟩
    rcases List.prefix_concat_iff.1 hprefix with rfl | hprefix
    · rw [run_snoc] at hbehind
      exact Or.inr hbehind
    · exact Or.inl ⟨before, hprefix, hbehind⟩
  · rintro (⟨before, hprefix, hbehind⟩ | hbehind)
    · exact ⟨before, hprefix.trans (List.prefix_append _ _), hbehind⟩
    · rw [← run_snoc] at hbehind
      exact ⟨steps ++ [s], List.prefix_rfl, hbehind⟩

/-- A stream that waits for a place is behind it if it ever was, and one that has passed it has told its
text, unless it missed it. -/
structure Accounts (w : Watched) (k place : Nat) (steps : List WatchStep) (stream : EventStream) :
    Prop where
  waits : w.Missed k place steps → stream.position ≤ place →
    (w.run steps).isBehind k place = true
  passes : place ∈ w.trace (Watched.places k) steps ↔
    place < stream.position ∧ ¬ w.Missed k place steps

section Accounts

variable {place : Nat} {steps : List WatchStep} {s : WatchStep} {old new : EventStream}
  {more : List Envelope} {told' : List StreamEvent} {places' : List Nat}

/-- Nothing is missed any more once the stream has passed it. -/
theorem Follows.missed_iff
    (hnew : ((w.run steps).step s).Follows k since older replay frames told places new)
    (hplace : since ≤ place) (hpassed : place < new.position) :
    w.Missed k place (steps ++ [s]) ↔ w.Missed k place steps := by
  rw [missed_snoc, hnew.isBehind_iff hplace]
  exact or_iff_left fun hbehind => Nat.not_le.2 hpassed hbehind.1

/-- What is no longer kept does not come back, so a place that was missed is missed for good. -/
theorem Follows.oldest_mono (hold : w.Follows k since older replay frames told places old)
    (hnew : (w.step s).Follows k since older replay (frames ++ more) told' places' new)
    (hplace : since ≤ place) (hgone : place < w.streams.oldest) :
    place < (w.step s).streams.oldest := by
  rw [hold.holds.lt_oldest_iff hplace, hold.holds.sent] at hgone
  rw [hnew.holds.lt_oldest_iff hplace, hnew.holds.sent, List.map_append, List.length_append]
  omega

/-- A place that a stream has yet to read waits after the step as before, or is missed with it, or is
read by it. -/
theorem Accounts.waits_snoc (ha : w.Accounts k place steps old)
    (hold : (w.run steps).Follows k since older replay frames told places old)
    (hnew : ((w.run steps).step s).Follows k since older replay (frames ++ more) told' places' new)
    (hmoves : (w.run steps).Moves k s old new) (hplace : since ≤ place)
    (hmissed : w.Missed k place (steps ++ [s])) (hahead : new.position ≤ place) :
    ((w.run steps).step s).isBehind k place = true := by
  rcases (missed_snoc w k place steps s).1 hmissed with hmissed | hbehind
  · cases hmoves with
    | stays _ position silent =>
      have hold' : old.position ≤ place := position ▸ hahead
      have hgone := ((hold.isBehind_iff hplace).1 (ha.waits hmissed hold')).2
      exact (hnew.isBehind_iff hplace).2 ⟨hahead, hold.oldest_mono hnew hplace hgone⟩
    | reads q isNext sent opening isRead told =>
      -- it has told a text that was kept, and this one is newer
      have hahead : q + 1 ≤ place := hahead
      have hgone := ((hold.isBehind_iff hplace).1 (ha.waits hmissed (by omega))).2
      omega
  · exact hbehind

/-- A place behind which a stream stands already was told or missed, and no step changes that. -/
theorem Accounts.passes_snoc (ha : w.Accounts k place steps old)
    (hold : (w.run steps).Follows k since older replay frames told places old)
    (hnew : ((w.run steps).step s).Follows k since older replay (frames ++ more) told' places' new)
    (hmoves : (w.run steps).Moves k s old new) (hplace : since ≤ place) :
    place ∈ w.trace (Watched.places k) (steps ++ [s]) ↔
      place < new.position ∧ ¬ w.Missed k place (steps ++ [s]) := by
  have hmissed := hnew.missed_iff hplace
  rw [trace_snoc, List.mem_append, ha.passes]
  cases hmoves with
  | stays _ position silent =>
    rw [position] at hmissed
    rw [silent, position, or_iff_left List.not_mem_nil]
    exact and_congr_right fun hpassed => not_congr (hmissed hpassed).symm
  | reads q isNext sent opening isRead told =>
    have hmissed : place < q + 1 → (w.Missed k place (steps ++ [s]) ↔ w.Missed k place steps) :=
      hmissed
    rw [told, List.mem_singleton]
    show _ ↔ place < q + 1 ∧ _
    constructor
    · rintro (⟨hpassed, hnot⟩ | rfl)
      · have hpassed : place < q + 1 := by omega
        exact ⟨hpassed, mt (hmissed hpassed).1 hnot⟩
      · refine ⟨Nat.lt_succ_self _, fun hmiss => ?_⟩
        have hmiss := (hmissed (Nat.lt_succ_self _)).1 hmiss
        have hgone := ((hold.isBehind_iff hplace).1 (ha.waits hmiss (by omega))).2
        omega
    · rintro ⟨hpassed, hnot⟩
      rw [hmissed hpassed] at hnot
      by_cases hbefore : place < old.position
      · exact Or.inl ⟨hbefore, hnot⟩
      · -- it would have told this text, had it still been kept
        refine Or.inr (Classical.byContradiction fun hne => hnot ⟨steps, List.prefix_rfl, ?_⟩)
        exact (hold.isBehind_iff hplace).2 ⟨Nat.not_lt.1 hbefore, by omega⟩

/-- The text at a place is told when the stream passes it, unless it is no longer kept. -/
theorem Follows.accounts (hf : w.Follows k since older replay [] [] [] stream)
    (hplace : since ≤ place) (steps : List WatchStep) :
    ∃ stream', (w.run steps).Follows k since older replay (w.trace sends steps)
      (w.trace (tells k) steps) (w.trace (Watched.places k) steps) stream' ∧
      w.Accounts k place steps stream' := by
  induction steps using List.reverseRecOn with
  | nil =>
    have hposition : stream.position ≤ place := hf.hasTold.position_le.trans hplace
    refine ⟨stream, hf, ?_, iff_of_false nofun fun hpassed => ?_⟩
    · rintro ⟨before, hprefix, hbehind⟩ -
      rwa [List.prefix_nil.1 hprefix] at hbehind
    · exact Nat.not_lt.2 hposition hpassed.1
  | append_singleton steps s ih =>
    obtain ⟨old, hold, ha⟩ := ih
    obtain ⟨new, hnew, hmoves⟩ := hold.step s
    refine ⟨new, ?_, fun hmissed hahead => ?_, ha.passes_snoc hold hnew hmoves hplace⟩
    · rw [trace_snoc, trace_snoc, trace_snoc, run_snoc]
      exact hnew
    · rw [run_snoc]
      exact ha.waits_snoc hold hnew hmoves hplace hmissed hahead

end Accounts

/-! ### The whole run -/

/-- Nothing that a viewer or an app does shuts the server down. -/
theorem Running.step (h : w.Running) (s : WatchStep) : (w.step s).Running := by
  cases s with
  | tell e =>
    obtain ⟨hshut, ⟨-, hstreams⟩ | ⟨frame, -, hstreams⟩⟩ := w.tell_streams e
    · exact ⟨hshut.trans h.running, hstreams ▸ h.bounded⟩
    · exact ⟨hshut.trans h.running, hstreams ▸ EventStreams.bounded_publish h.bounded frame.toJson⟩
  | subscribe =>
    refine ⟨h.running, ?_⟩
    rw [subscribe_streams h.running]
    exact h.bounded
  | tick now => exact ⟨h.running, h.bounded⟩
  | read k =>
    simp only [Watched.step]
    split
    · exact h
    · exact ⟨h.running, h.bounded⟩

theorem Running.run (h : w.Running) (steps : List WatchStep) : (w.run steps).Running := by
  induction steps generalizing w with
  | nil => exact h
  | cons s steps ih => exact ih (h.step s)

/-- To take events is to take them one after another, as the router of an app does it. -/
theorem run_tell (w : Watched) (events : List Event) :
    w.run (events.map .tell) = { router := (w.router.receiveAll w.outlets events).1
                                 outlets := (w.router.receiveAll w.outlets events).2 } := by
  induction events generalizing w with
  | nil => rfl
  | cons e events ih => exact ih (w.step (.tell e))

/-- An app that is started is running: whatever its program has published so far, the server is not
shut. -/
theorem running_start (app : AppBundle) (port : Nat) (limits : Sandbox.Limits) (o : Outlets) :
    ({ router := (Instance.start app port limits o).1.router
       outlets := (Instance.start app port limits o).2 } : Watched).Running := by
  unfold Instance.start
  -- how the logic is loaded does not matter
  generalize (Sandbox.Actor.create app.name limits).step
    (.load (Script.Program.read? app.script)) = sandbox
  let server : RenderServer := { style := app.style, renderer := .ofSource app.template }
  let fresh : Watched := { router := { app := app.name, server }, outlets := o }
  have hfresh : fresh.Running := ⟨rfl, Nat.zero_le _, Nat.zero_le _⟩
  have htold := hfresh.run (sandbox.engine.session.sent.map .tell)
  rw [run_tell] at htold
  dsimp only
  split
  · exact htold
  · exact ⟨htold.running, htold.bounded⟩

/-- A stream that is opened has told nothing yet, and stands behind all that was sent before. -/
theorem Running.subscribe (h : w.Running) :
    (w.step .subscribe).Follows w.streams.streams.length w.streams.sent w.streams.kept w.opening
      [] [] [] { position := w.streams.sent, opening := some w.opening } := by
  have hstreams := subscribe_streams h.running
  refine ⟨h.running, ?_, ?_, rfl, Nat.le_refl _, Nat.le_refl _, .nil, nofun, Or.inl ⟨rfl, rfl, rfl⟩⟩
  · rw [hstreams]
    exact h.bounded.holds.withStreams _
  · rw [hstreams]
    exact List.getElem?_concat_length

/-- A stream that has nothing more to tell has come to the last text. -/
theorem Follows.caughtUp (hf : w.Follows k since older replay frames told places stream)
    (hcaughtUp : w.caughtUp k = true) :
    stream.position = since + frames.length ∧
      told = .hello replay :: EventStream.messages since frames places := by
  have hnext := hf.holds.next hf.hasTold.isOpen hf.hasTold.since_le
  have hnone : w.streams.next? stream = none := by
    rw [Watched.caughtUp, next?, hf.found] at hcaughtUp
    exact Option.isNone_iff_eq_none.1 hcaughtUp
  rw [hnone] at hnext
  cases hnext with
  | nothing opening hsent =>
    rw [hf.holds.sent, List.length_map] at hsent
    refine ⟨Nat.le_antisymm hf.hasTold.position_le hsent, ?_⟩
    rcases hf.hasTold.told with ⟨hopening, -⟩ | ⟨-, htold⟩
    · cases opening.symm.trans hopening
    · exact htold

/-! ### The renders -/

/-- What is published does not hang on what was published last. -/
theorem published?_latest (r : Renderer) (latest : Option RenderOutput) :
    WatchStep.published? { r with latest } = WatchStep.published? r := by
  funext s
  cases s with
  | tell e => exact Hosting.published?_latest r latest e
  | subscribe | read | tick => rfl

/-- Only the latest render changes in the renderer, and it is the one that a step publishes, if it
publishes any. -/
theorem renderer_step (w : Watched) (s : WatchStep) :
    (w.step s).router.server.renderer = { w.router.server.renderer with
      latest := (s.published? w.router.server.renderer).or w.router.latest } := by
  cases s with
  | tell e => exact latest_receive w.router w.outlets e
  | subscribe | tick => rfl
  | read k =>
    simp only [Watched.step]
    split
    · rfl
    · rfl

/-- The renders among the frames of a step show what the renderer publishes in it, one frame for one
render. -/
theorem shows_step (w : Watched) (s : WatchStep) :
    List.Forall₂ Shows ((w.sends s).filter fun e => e.kind = .render)
      (s.published? w.router.server.renderer).toList := by
  cases s with
  | tell e => exact shows_frames w.router w.outlets.now e
  | subscribe | read | tick => exact .nil

/-- In a run the renders that are sent show what is published, and the last of them is the latest. -/
theorem renders_run (w : Watched) (steps : List WatchStep) :
    let renders := steps.filterMap (·.published? w.router.server.renderer)
    List.Forall₂ Shows ((w.trace sends steps).filter fun e => e.kind = .render) renders ∧
      (w.run steps).router.latest = renders.getLast?.or w.router.latest := by
  induction steps generalizing w with
  | nil => exact ⟨.nil, rfl⟩
  | cons s steps ih =>
    obtain ⟨hshows, hlatest⟩ := ih (w.step s)
    have hrenderer := w.renderer_step s
    have hstep : (w.step s).router.latest
        = (s.published? w.router.server.renderer).or w.router.latest :=
      congrArg Renderer.latest hrenderer
    rw [hrenderer, published?_latest] at hshows hlatest
    have hrenders : (s :: steps).filterMap (·.published? w.router.server.renderer)
        = (s.published? w.router.server.renderer).toList
          ++ steps.filterMap (·.published? w.router.server.renderer) := by
      simp only [List.filterMap_eq_flatMap_toList, List.flatMap_cons]
    rw [hrenders, trace, List.filter_append]
    refine ⟨List.rel_append (w.shows_step s) hshows, hlatest.trans ?_⟩
    rw [hstep, List.getLast?_append, Option.or_assoc]
    cases s.published? w.router.server.renderer with
    | none => rfl
    | some output => rfl

/--
Whatever an app tells and whoever else reads or subscribes: a stream that is opened at any moment, and
that never lags when it is read, tells first what is the latest render at that moment, if there is one,
and then every frame that is sent afterwards, once and in order; as soon as it has nothing more to tell,
it has told all of them. The renders among these frames show what the app publishes from then on, one
after another.
-/
theorem stream_tells_every_render (w : Watched) (h : w.Running) (before after : List WatchStep) :
    let now := w.run before
    let opened := now.step .subscribe
    let k := now.streams.streams.length
    let frames := opened.trace sends after
    let all : List StreamEvent := .hello now.opening :: frames.map fun e => .message e.toJson
    true ∉ opened.trace (lagsIn k) after →
      opened.trace (tells k) after <+: all ∧
      ((opened.run after).caughtUp k = true → opened.trace (tells k) after = all) ∧
      List.Forall₂ Shows (frames.filter fun e => e.kind = .render)
        (after.filterMap (·.published? now.router.server.renderer)) := by
  intro now opened k frames all hkeeps
  have hnow : now.Running := h.run before
  obtain ⟨stream, hf, hplaces⟩ := hnow.subscribe.places_of_keepsUp
    (by rw [Nat.sub_self]; rfl) after hkeeps
  simp only [List.nil_append] at hf hplaces
  have hlength : stream.position - now.streams.sent ≤ frames.length := by
    have hposition := hf.hasTold.position_le
    exact Nat.sub_le_of_le_add (Nat.add_comm _ _ ▸ hposition)
  have hmessages := EventStream.messages_range' now.streams.sent frames hlength
  rw [← hplaces] at hmessages
  -- it has told the first frames, as many as it has passed
  refine ⟨?_, fun hcaughtUp => ?_, ?_⟩
  · rcases hf.hasTold.told with ⟨-, htold, -⟩ | ⟨-, htold⟩
    · exact htold ▸ List.nil_prefix
    · rw [htold, hmessages]
      exact List.cons_prefix_cons.2 ⟨rfl, (List.take_prefix _ _).map _⟩
  · obtain ⟨hposition, htold⟩ := hf.caughtUp hcaughtUp
    have hwhole : stream.position - now.streams.sent = frames.length := by
      rw [hposition, Nat.add_sub_cancel_left]
    rw [htold, hmessages, hwhole, List.take_length]
  · have hshows := (opened.renders_run after).1
    rwa [now.renderer_step, published?_latest] at hshows

/-- An app that counts, to which nobody has subscribed yet. -/
def countingApp : Watched := { router := { app := "counter", server := { renderer := .ofSource none } } }

/-- The app counts to one and logs some lines, and only then a stream is read. -/
def chattySteps (lines : Nat) : List WatchStep :=
  .read 0 :: .tell (.stateMutated "counter" (.obj [("n", .int 1)]) [])
    :: (List.replicate lines (.tell (.logEmitted "counter" .log []))
      ++ List.replicate (lines + 1) (.read 0))

/-- With three lines the stream does not lag, and tells the render and all of them. -/
theorem render_and_lines_told :
    let opened := countingApp.step .subscribe
    let frames := opened.trace sends (chattySteps 3)
    frames.length = 4 ∧ true ∉ opened.trace (lagsIn 0) (chattySteps 3) ∧
      opened.trace (tells 0) (chattySteps 3)
        = .hello none :: frames.map fun e => .message e.toJson := by
  intro opened frames
  have hkeeps : true ∉ opened.trace (lagsIn 0) (chattySteps 3) := by
    decide +kernel
  have hcaughtUp : (opened.run (chattySteps 3)).caughtUp 0 = true := by
    decide +kernel
  have htold := stream_tells_every_render countingApp ⟨rfl, by decide, by decide⟩ []
    (chattySteps 3) hkeeps
  exact ⟨rfl, hkeeps, htold.2.1 hcaughtUp⟩

/-- Of places in order, of which none beyond one is taken, the last that is taken is that one if it is
among them. -/
theorem getLast?_filter_eq_some {places : List Nat} (hordered : places.Pairwise (· < ·))
    {p : Nat → Bool} {place : Nat} (hplace : p place = true)
    (hlast : ∀ x ∈ places, p x = true → x ≤ place) :
    (places.filter p).getLast? = some place ↔ place ∈ places := by
  constructor
  · intro h
    exact (List.mem_filter.1 (List.mem_of_getLast? h)).1
  · intro h
    have hmem : place ∈ places.filter p := List.mem_filter.2 ⟨h, hplace⟩
    cases hfound : (places.filter p).getLast? with
    | none =>
      rw [List.getLast?_eq_none_iff.1 hfound] at hmem
      cases hmem
    | some last =>
      obtain ⟨hin, hp⟩ := List.mem_filter.1 (List.mem_of_getLast? hfound)
      obtain ⟨before, hsplit⟩ := List.getLast?_eq_some_iff.1 hfound
      have hpairs := hordered.filter p
      rw [hsplit] at hmem hpairs
      rcases List.mem_append.1 hmem with hmem | hmem
      · have hlater : place < last :=
          (List.pairwise_append.1 hpairs).2.2 place hmem last (List.mem_singleton_self _)
        exact absurd (hlast last hin hp) (Nat.not_le.2 hlater)
      · exact congrArg some (List.mem_singleton.1 hmem).symm

/--
Whatever an app tells and whoever else reads or subscribes: let a stream be opened at any moment, and
read at any pace until it has nothing more to tell. It has told what was the latest render when it was
opened, and then frames that were sent since, in order. If none of these is a render, the latest render
is still the one it was opened with. If there are some, the last one that was sent is the latest render
of the app; and it is the last one that the stream has told iff the stream was never behind it, with so
many frames sent after it that it was no longer kept.
-/
theorem last_render_told_iff (w : Watched) (h : w.Running) (before after : List WatchStep) :
    let now := w.run before
    let opened := now.step .subscribe
    let k := now.streams.streams.length
    let since := now.streams.sent
    let frames := opened.trace sends after
    let told := opened.trace (Watched.places k) after
    let isRender := fun place => frames[place - since]?.any fun e => e.kind = .render
    (opened.run after).caughtUp k = true →
      opened.trace (tells k) after = .hello now.opening :: EventStream.messages since frames told ∧
      told.Pairwise (· < ·) ∧
      ((∀ e ∈ frames, e.kind ≠ .render) →
        (opened.run after).router.latest = now.router.latest) ∧
      ∀ early e later, frames = early ++ e :: later → e.kind = .render →
        (∀ e ∈ later, e.kind ≠ .render) →
        (∃ output, (opened.run after).router.latest = some output ∧ Shows e output) ∧
        ((told.filter isRender).getLast? = some (since + early.length) ↔
          ¬ opened.Missed k (since + early.length) after) := by
  intro now opened k since frames told isRender hcaughtUp
  have hnow : now.Running := h.run before
  obtain ⟨hshows, hlatest⟩ := opened.renders_run after
  have hlast := getLast?_shows hshows
  obtain ⟨stream, hf⟩ := hnow.subscribe.run after
  simp only [List.nil_append] at hf
  refine ⟨(hf.caughtUp hcaughtUp).2, hf.hasTold.ordered, fun hnone => ?_,
    fun early e later hframes hrender hlater => ?_⟩
  · have hfilter : frames.filter (fun e => e.kind = .render) = [] := by
      simpa [List.filter_eq_nil_iff] using hnone
    rw [hfilter, List.getLast?_nil] at hlast
    generalize (after.filterMap _).getLast? = last? at hlast hlatest
    cases hlast with
    | none => exact hlatest
  · have hfilter : (frames.filter fun e => e.kind = .render).getLast? = some e := by
      have hnone : later.filter (fun e => e.kind = .render) = [] := by
        simpa [List.filter_eq_nil_iff] using hlater
      simp [hframes, hnone, hrender]
    have hfound : frames[early.length]? = some e := by
      simp [hframes]
    refine ⟨?_, ?_⟩
    · rw [hfilter] at hlast
      generalize (after.filterMap _).getLast? = last? at hlast hlatest
      cases hlast with
      | some hshow => exact ⟨_, hlatest, hshow⟩
    · -- the stream has passed the render, so it has told it unless it missed it
      obtain ⟨stream', hf', haccounts⟩ :=
        hnow.subscribe.accounts (Nat.le_add_right since early.length) after
      have hposition : stream'.position = since + frames.length := (hf'.caughtUp hcaughtUp).1
      have hpassed : since + early.length < stream'.position := by
        obtain ⟨hlt, -⟩ := List.getElem?_eq_some_iff.1 hfound
        omega
      have hisRender : isRender (since + early.length) = true := by
        show (frames[since + early.length - since]?).any _ = true
        rw [Nat.add_sub_cancel_left, hfound]
        exact decide_eq_true hrender
      rw [getLast?_filter_eq_some hf.hasTold.ordered hisRender, haccounts.passes, and_iff_right hpassed]
      -- what is told after it is no render
      intro place hplace hrender'
      refine Nat.le_of_not_lt fun hafter => ?_
      obtain ⟨e', hfound', hkind⟩ := (Option.any_eq_true _ _).1 hrender'
      rw [hframes, List.append_cons, List.getElem?_append_right (by simp; omega)] at hfound'
      exact hlater e' (List.mem_of_getElem? hfound') (of_decide_eq_true hkind)

/-- With 63 lines after it the render is still kept when the stream is read. -/
theorem render_not_missed :
    let opened := countingApp.step .subscribe
    (opened.run (chattySteps 63)).caughtUp 0 = true ∧ ¬ opened.Missed 0 0 (chattySteps 63) := by
  intro opened
  have hcaughtUp : (opened.run (chattySteps 63)).caughtUp 0 = true := by
    decide +kernel
  have hkinds : (opened.trace sends (chattySteps 63)).map (·.kind)
      = .render :: List.replicate 63 .console := by
    decide +kernel
  have hlast : ((opened.trace (Watched.places 0) (chattySteps 63)).filter fun place =>
      (opened.trace sends (chattySteps 63))[place]?.any fun e => e.kind = .render).getLast?
        = some 0 := by
    decide +kernel
  obtain ⟨-, -, -, htold⟩ := last_render_told_iff countingApp ⟨rfl, by decide, by decide⟩ []
    (chattySteps 63) hcaughtUp
  obtain ⟨e, later, hframes, hrender, hlines⟩ := List.map_eq_cons_iff.1 hkinds
  refine ⟨hcaughtUp, (htold [] e later hframes hrender fun e he heq => ?_).2.1 hlast⟩
  have hline := List.eq_of_mem_replicate (hlines ▸ List.mem_map_of_mem he)
  exact absurd (heq.symm.trans hline) nofun

/-- With 64 lines after it the stream never tells the render, though it tells all that is kept for it:
its viewer is shown none, and the app has rendered. -/
theorem render_lost_among_lines :
    let opened := countingApp.step .subscribe
    let frames := opened.trace sends (chattySteps 64)
    let told := opened.trace (Watched.places 0) (chattySteps 64)
    (opened.run (chattySteps 64)).caughtUp 0 = true ∧ countingApp.opening = none ∧
      Push.lastRender? (told.filterMap fun place => frames[place]?) = none ∧
      (opened.run (chattySteps 64)).router.latest
        = some (countingApp.router.server.renderer.render (.obj [("n", .int 1)])) := by
  intro opened frames told
  have hnone : (Push.lastRender? (told.filterMap fun place => frames[place]?)).isNone = true := by
    decide +kernel
  have hlatest := (opened.renders_run (chattySteps 64)).2
  exact ⟨by decide +kernel, rfl, Option.isNone_iff_eq_none.1 hnone, hlatest⟩

end Watched

end AppletHost.Hosting

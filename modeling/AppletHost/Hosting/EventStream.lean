/-!
# Event streams

Viewers that only watch follow an app through a stream of text events. Every text is sent to all
streams at once, but a stream is written at its own pace: the newest `streamBuffer` texts are kept,
and a stream that is slower than that goes on at the oldest one kept.

An event is written as lines. A stream starts with the time after which to connect again, in the same
event as the latest render, if there is one.
-/

namespace AppletHost.Hosting

/-- How many texts are kept for slow streams. -/
def streamBuffer : Nat := 64

/-- A stream that was opened. -/
structure EventStream where
  /-- How many texts had been sent before the one that is written next. -/
  position : Nat
  /-- The latest render when the stream was opened, if there was one; `none` once it is written. -/
  opening : Option (Option String)
  isOver : Bool := false
deriving DecidableEq, Repr, Inhabited

/-- What a stream tells its viewer next. -/
inductive StreamEvent where
  /-- The first event, with the latest render if there is one. -/
  | hello (replay : Option String)
  | message (text : String)
deriving DecidableEq, Repr, Inhabited

/-- The streams of an app, with the texts that are kept for them. -/
structure EventStreams where
  /-- The newest texts, oldest first. -/
  kept : List String := []
  /-- How many texts were sent in all. -/
  sent : Nat := 0
  streams : List EventStream := []
deriving DecidableEq, Repr, Inhabited

namespace EventStreams

/-- Sends a text to all streams. -/
def publish (s : EventStreams) (text : String) : EventStreams :=
  let kept := s.kept ++ [text]
  { s with kept := kept.drop (kept.length - streamBuffer), sent := s.sent + 1 }

/-- Opens a stream, for texts that are sent from now on. -/
def subscribe (s : EventStreams) (replay : Option String) : EventStreams :=
  { s with streams := s.streams ++ [⟨s.sent, some replay, false⟩] }

/-- How many streams are open. -/
def openCount (s : EventStreams) : Nat := (s.streams.filter fun stream => !stream.isOver).length

/-- Ends all streams, whatever they have not written yet. -/
def endAll (s : EventStreams) : EventStreams :=
  { s with streams := s.streams.map fun stream => { stream with isOver := true } }

/-- What a stream tells next, with the stream after it; `none` if there is nothing to tell. -/
def next? (s : EventStreams) (stream : EventStream) : Option (StreamEvent × EventStream) :=
  if stream.isOver then none
  else
    match stream.opening with
    | some replay => some (.hello replay, { stream with opening := none })
    | none =>
      let position := max stream.position (s.sent - s.kept.length)
      s.kept[position - (s.sent - s.kept.length)]?.map fun text =>
        (.message text, { stream with position := position + 1 })

/-- All that a stream has to tell. -/
def told (s : EventStreams) (stream : EventStream) : (limit : Nat) → List StreamEvent × EventStream
  | 0 => ([], stream)
  | limit + 1 =>
    match s.next? stream with
    | none => ([], stream)
    | some (e, stream) =>
      let (es, stream) := s.told stream limit
      (e :: es, stream)

/-- Every stream tells all that it has to tell. -/
def drain (s : EventStreams) : List (List StreamEvent) × EventStreams :=
  let told := s.streams.map fun stream => s.told stream (s.kept.length + 1)
  (told.map Prod.fst, { s with streams := told.map Prod.snd })

theorem length_kept_publish (s : EventStreams) (text : String) (h : s.kept.length ≤ streamBuffer) :
    (s.publish text).kept.length ≤ streamBuffer := by
  simp only [publish, List.length_drop, List.length_append, List.length_cons, List.length_nil]
  simp only [streamBuffer] at *
  omega

end EventStreams

namespace StreamEvent

/-- The milliseconds after which a viewer connects again. -/
def retryDelay : Nat := 10000

/-- The lines of a text: a new line is marked behind every character that ends one. -/
def marked : List Char → List Char
  | [] => []
  | c :: cs =>
    if c = '\n' ∨ c = '\r' then c :: ("data: ".toList ++ marked cs) else c :: marked cs

/-- The data of an event; there is no line for an empty text. -/
def dataLines (text : List Char) : List Char :=
  if text = [] then [] else "data: ".toList ++ marked text ++ ['\n']

/-- An event as it is written. -/
def write : StreamEvent → List Char
  | .hello replay =>
    "retry: ".toList ++ Nat.toDigits 10 retryDelay ++ ['\n']
      ++ (match replay with
        | some text => dataLines text.toList
        | none => ": connected\n".toList)
      ++ ['\n']
  | .message text => dataLines text.toList ++ ['\n']

end StreamEvent

end AppletHost.Hosting

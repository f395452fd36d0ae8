import AppletHost.Proofs.Hosting.Streaming
import AppletHost.Proofs.Json.Plain

/-!
# What a viewer reads off a stream

A viewer reads a stream line by line. A line ends at a line feed, at a carriage return, or at both; it
has a field with a value, or it is a comment, and an empty line ends an event. What the event carries is
the values of its `data` fields, joined by line feeds; an event without any is none (`received`).

All that is written of an app in a stream is the text of envelopes, and such a text is one line
(`plain_envelope`), so that

> `received_write`: an event that was told with an envelope is received as one event with its text,
> whatever is read after it.

From there it is one event after another: `received_flatMap`.
-/

namespace AppletHost.Hosting

open Json (Plain plain_cons)
open Push (Envelope)

/-! ## Reading -/

/-- The lines of a text, behind what was read of the line that is not over, its newest character first.
A line that does not end is none. -/
def linesFrom (line : List Char) : List Char → List (List Char)
  | [] => []
  | '\r' :: '\n' :: cs => line.reverse :: linesFrom [] cs
  | c :: cs =>
    if c = '\n' ∨ c = '\r' then line.reverse :: linesFrom [] cs else linesFrom (c :: line) cs

/-- The field of a line, with its value, which a space may precede; `none` for a comment. -/
def field? (line : List Char) : Option (List Char × List Char) :=
  if line.head? = some ':' then none
  else
    let value := (line.dropWhile (· ≠ ':')).drop 1
    some (line.takeWhile (· ≠ ':'), if value.head? = some ' ' then value.drop 1 else value)

/-- An event that a viewer has received, with its fields and their values. -/
structure ReceivedEvent where
  fields : List (List Char × List Char)
deriving DecidableEq, Repr

namespace ReceivedEvent

/-- The values of the fields with data. -/
def dataValues (e : ReceivedEvent) : List (List Char) :=
  (e.fields.filter fun field => field.1 = "data".toList).map Prod.snd

/-- The data of an event. -/
def data (e : ReceivedEvent) : List Char := ['\n'].intercalate e.dataValues

end ReceivedEvent

/-- The events of these lines, behind the fields that were read of the event that is not over. An event
without data is none, and one that does not end is none. -/
def eventsFrom (fields : List (List Char × List Char)) : List (List Char) → List ReceivedEvent
  | [] => []
  | [] :: lines =>
    let rest := eventsFrom [] lines
    if (ReceivedEvent.mk fields).dataValues = [] then rest else ⟨fields⟩ :: rest
  | line :: lines => eventsFrom (fields ++ (field? line).toList) lines

/-- The events of a text. -/
def received (text : List Char) : List ReceivedEvent := eventsFrom [] (linesFrom [] text)

/-! ## Lines -/

/-- A plain text up to the end of its line is one line. -/
theorem linesFrom_plain {text : List Char} (h : Plain text) (line rest : List Char) :
    linesFrom line (text ++ '\n' :: rest) = (line.reverse ++ text) :: linesFrom [] rest := by
  induction text generalizing line with
  | nil =>
    rw [List.nil_append, List.append_nil, linesFrom, if_pos (Or.inl rfl)]
    rintro _ ⟨⟩
  | cons c text ih =>
    have hfeed : '\n' ≠ c := List.ne_of_not_mem_cons (h.notMem (by decide))
    have hreturn : '\r' ≠ c := List.ne_of_not_mem_cons (h.notMem (by decide))
    rw [List.cons_append, linesFrom, if_neg (not_or.2 ⟨hfeed.symm, hreturn.symm⟩),
      ih (plain_cons.1 h).2, List.reverse_cons, List.append_assoc, List.singleton_append]
    exact fun _ hc => absurd hc.symm hreturn

/-- A line with a field that is read. -/
theorem eventsFrom_plain {line : List Char} (h : Plain line) (hne : line ≠ [])
    (fields : List (List Char × List Char)) (rest : List Char) :
    eventsFrom fields (linesFrom [] (line ++ '\n' :: rest))
      = eventsFrom (fields ++ (field? line).toList) (linesFrom [] rest) := by
  rw [linesFrom_plain h, List.reverse_nil, List.nil_append, eventsFrom]
  exact hne

/-- An event that is over. -/
theorem eventsFrom_end (fields : List (List Char × List Char)) (rest : List Char) :
    eventsFrom fields (linesFrom [] ('\n' :: rest))
      = if (ReceivedEvent.mk fields).dataValues = [] then received rest
        else ⟨fields⟩ :: received rest := by
  rw [linesFrom, if_pos (Or.inl rfl)]
  · rfl
  · rintro _ ⟨⟩

/-! ## Events -/

/-- An envelope is one line, whatever it carries. -/
theorem plain_envelope (e : Envelope) : Plain e.write := by
  have hopen : Plain "\x7b\"type\":".toList := by decide
  have hpayload : Plain ",\"payload\":".toList := by decide
  have htimestamp : Plain ",\"timestamp\":".toList := by decide
  have hkind := (hopen.append (Json.plain_quote e.kind.name)).append hpayload
  have hvalue := (hkind.append (Json.plain_write e.payload)).append htimestamp
  exact (hvalue.append (Json.plain_intText e.timestamp)).append (by decide)

namespace StreamEvent

/-- The texts that an event was told with. -/
def texts : StreamEvent → List String
  | .hello replay => replay.toList
  | .message text => [text]

theorem write_message (text : String) : (message text).write = dataLines text.toList ++ ['\n'] := rfl

theorem write_hello (text : String) :
    (hello (some text)).write
      = "retry: ".toList ++ Nat.toDigits 10 retryDelay ++ ['\n'] ++ dataLines text.toList ++ ['\n'] :=
  rfl

theorem write_hello_none :
    (hello none).write = "retry: ".toList ++ Nat.toDigits 10 retryDelay ++ ['\n']
      ++ ": connected\n".toList ++ ['\n'] :=
  rfl

/-- A text without carriage returns is written line by line. -/
theorem dataLines_eq_flatMap {text : List Char} (hne : text ≠ []) (hreturn : '\r' ∉ text) :
    dataLines text = (text.splitOn '\n').flatMap fun line => "data: ".toList ++ line ++ ['\n'] := by
  rw [dataLines, if_neg hne]
  clear hne
  induction text with
  | nil => rfl
  | cons c text ih =>
    have htext := ih (fun hmem => hreturn (List.mem_cons_of_mem c hmem))
    rw [List.splitOn_cons_eq_if_modifyHead]
    by_cases hfeed : c = '\n'
    · rw [hfeed, if_pos (beq_self_eq_true _), List.flatMap_cons, ← htext, marked, if_pos (Or.inl rfl)]
      simp only [List.append_assoc, List.nil_append, List.cons_append]
    · have hc : ¬ (c = '\n' ∨ c = '\r') := by
        rintro (rfl | rfl)
        · exact hfeed rfl
        · exact hreturn List.mem_cons_self
      rw [if_neg (mt eq_of_beq hfeed), marked, if_neg hc]
      cases hlines : text.splitOn '\n' with
      | nil => exact absurd hlines (List.splitOn_ne_nil '\n' text)
      | cons line lines =>
        -- the character belongs to the first of the lines
        rw [hlines, List.flatMap_cons] at htext
        rw [List.modifyHead_cons, List.flatMap_cons]
        simp only [List.append_assoc, List.append_cancel_left_eq, List.cons_append,
          List.cons.injEq, true_and] at htext ⊢
        exact htext

/-- A plain text is one line. -/
theorem dataLines_plain {text : List Char} (h : Plain text) (hne : text ≠ []) :
    dataLines text = "data: ".toList ++ text ++ ['\n'] := by
  have hreturn : '\r' ∉ text := h.notMem (by decide)
  have hfeed : '\n' ∉ text := h.notMem (by decide)
  rw [dataLines_eq_flatMap hne hreturn, List.splitOn_eq_singleton hfeed, List.flatMap_singleton]

/-- The line with a plain text is read back as the data of an event that had none before. -/
theorem eventsFrom_dataLines {text : List Char} (h : Plain text) (hne : text ≠ [])
    {fields : List (List Char × List Char)} (hfields : (ReceivedEvent.mk fields).dataValues = [])
    (rest : List Char) :
    ∃ event, eventsFrom fields (linesFrom [] (dataLines text ++ '\n' :: rest))
      = event :: received rest ∧ event.data = text := by
  have hline : Plain ("data: ".toList ++ text) := Plain.append (by decide) h
  have hvalues : (ReceivedEvent.mk (fields ++ [("data".toList, text)])).dataValues = [text] := by
    rw [ReceivedEvent.dataValues, List.filter_append, List.map_append]
    exact congrArg (· ++ [text]) hfields
  refine ⟨⟨fields ++ [("data".toList, text)]⟩, ?_, ?_⟩
  · rw [dataLines_plain h hne, List.append_assoc, List.singleton_append,
      eventsFrom_plain hline nofun, eventsFrom_end]
    exact if_neg (hvalues ▸ List.cons_ne_nil _ _)
  · rw [ReceivedEvent.data, hvalues, List.intercalate_singleton]

/-- The fields of the line that a stream starts with; it has no data. -/
def retryFields : List (List Char × List Char) := [("retry".toList, "10000".toList)]

/-- A stream starts with a line of its own, whatever else there is in its first event. -/
theorem received_retry (lines rest : List Char) :
    received ("retry: ".toList ++ Nat.toDigits 10 retryDelay ++ ['\n'] ++ lines ++ ['\n'] ++ rest)
      = eventsFrom retryFields (linesFrom [] (lines ++ '\n' :: rest)) := by
  have hline : Plain ("retry: ".toList ++ Nat.toDigits 10 retryDelay) := by decide
  have hread := eventsFrom_plain hline (by decide) [] (lines ++ '\n' :: rest)
  simp only [List.append_assoc, List.cons_append, List.nil_append] at hread ⊢
  exact hread

/-- An event that was told with an envelope is received as one event with its text, whatever follows. -/
theorem received_write (e : Envelope) {s : StreamEvent} (hs : s.texts = [e.toJson])
    (rest : List Char) :
    ∃ event, received (s.write ++ rest) = event :: received rest ∧ event.data = e.write := by
  have hplain := plain_envelope e
  have hne : e.write ≠ [] := List.cons_ne_nil _ _
  have htext : e.toJson.toList = e.write := String.toList_ofList
  generalize e.write = written at hplain hne htext ⊢
  cases s with
  | message text =>
    obtain rfl : text = e.toJson := List.singleton_inj.1 hs
    rw [write_message, htext, List.append_assoc]
    exact eventsFrom_dataLines hplain hne (by decide) rest
  | hello replay =>
    obtain rfl : replay = some e.toJson := Option.toList_eq_singleton_iff.1 hs
    rw [write_hello, htext, received_retry]
    exact eventsFrom_dataLines hplain hne (by decide) rest

/-- An event that was told without one is not received. -/
theorem received_hello_none (rest : List Char) :
    received ((StreamEvent.hello none).write ++ rest) = received rest := by
  have hcomment : Plain ": connected".toList := by decide
  have hread := eventsFrom_plain hcomment (by decide) retryFields ('\n' :: rest)
  rw [write_hello_none, received_retry]
  exact hread.trans (eventsFrom_end retryFields rest)

/-- Events that were told with envelopes are received one after another, each as one event. -/
theorem received_flatMap {told : List StreamEvent}
    (htold : ∀ text ∈ told.flatMap texts, ∃ e : Envelope, text = e.toJson) :
    (received (told.flatMap write)).map ReceivedEvent.data
      = (told.flatMap texts).map String.toList := by
  induction told with
  | nil => rfl
  | cons s told ih =>
    rw [List.flatMap_cons, List.forall_mem_append] at htold
    obtain ⟨hs, htold⟩ := htold
    rw [List.flatMap_cons, List.flatMap_cons, List.map_append, ← ih htold]
    have hsingle : ∀ text, s.texts = [text] →
        (received (s.write ++ told.flatMap write)).map ReceivedEvent.data
          = s.texts.map String.toList ++ (received (told.flatMap write)).map ReceivedEvent.data := by
      intro text htext
      obtain ⟨e, rfl⟩ := hs text (htext ▸ List.mem_singleton_self text)
      obtain ⟨event, hevent, hdata⟩ := received_write e htext (told.flatMap write)
      rw [hevent, List.map_cons, hdata, htext, List.map_singleton, List.singleton_append,
        Envelope.toJson, String.toList_ofList]
    cases s with
    | message text => exact hsingle text rfl
    | hello replay =>
      cases replay with
      | some text => exact hsingle text rfl
      | none =>
        rw [received_hello_none]
        rfl

end StreamEvent

/-! ## A stream -/

/-- A stream tells nothing but the latest render when it was opened, and what was sent since. -/
theorem EventStream.HasTold.texts {stream : EventStream} {since : Nat} {replay : Option String}
    {frames : List Envelope} {told : List StreamEvent} {places : List Nat}
    (h : stream.HasTold since replay frames told places) {text : String}
    (htext : text ∈ told.flatMap StreamEvent.texts) :
    replay = some text ∨ ∃ e ∈ frames, e.toJson = text := by
  obtain ⟨s, hs, hmem⟩ := List.mem_flatMap.1 htext
  rcases h.told with ⟨-, rfl, -⟩ | ⟨-, rfl⟩
  · cases hs
  rcases List.mem_cons.1 hs with rfl | hs
  · exact Or.inl (Option.mem_toList.1 hmem)
  · obtain ⟨place, -, hplace⟩ := List.mem_filterMap.1 hs
    obtain ⟨e, he, rfl⟩ := Option.map_eq_some_iff.1 hplace
    exact Or.inr ⟨e, List.mem_of_getElem? he, (List.mem_singleton.1 hmem).symm⟩

namespace Watched

/-- What a stream begins with is the text of an envelope. -/
theorem opening_eq_some {w : Watched} {text : String} (h : w.opening = some text) :
    ∃ e : Envelope, text = e.toJson := by
  obtain ⟨output, -, rfl⟩ := Option.map_eq_some_iff.1 h
  exact ⟨_, rfl⟩

/--
Whatever an envelope carries, be it any render or any line of a log: what is written for it in a stream
is received as exactly one event, whose data is its text, and what follows is received as if it stood
alone. So however an app and its viewers go on, and whenever a stream is opened: the data of the events
that are received are the texts that the stream has told, one after another, and each of these is the
latest render when the stream was opened, or a frame that was sent since.
-/
theorem events_read_back :
    (∀ (e : Envelope) (s : StreamEvent), s.texts = [e.toJson] → ∀ rest : List Char,
      ∃ event, received (s.write ++ rest) = event :: received rest ∧ event.data = e.write) ∧
    ∀ w : Watched, w.Running → ∀ before after : List WatchStep,
      let now := w.run before
      let opened := now.step .subscribe
      let told := opened.trace (tells now.streams.streams.length) after
      (received (told.flatMap StreamEvent.write)).map ReceivedEvent.data
          = (told.flatMap StreamEvent.texts).map String.toList ∧
        ∀ text ∈ told.flatMap StreamEvent.texts,
          now.opening = some text ∨ ∃ e ∈ opened.trace sends after, e.toJson = text := by
  refine ⟨fun e s hs rest => StreamEvent.received_write e hs rest, ?_⟩
  intro w h before after now opened told
  obtain ⟨stream, hf⟩ := (h.run before).subscribe.run after
  simp only [List.nil_append] at hf
  have htexts : ∀ text ∈ told.flatMap StreamEvent.texts, _ := fun _ => hf.hasTold.texts
  refine ⟨StreamEvent.received_flatMap fun text htext => ?_, htexts⟩
  rcases htexts text htext with hopening | ⟨e, -, rfl⟩
  · exact opening_eq_some hopening
  · exact ⟨e, rfl⟩

/-- What an app logs that would forge an event: the end of one, and another one after it. -/
def forgery : List Value := [.str "\r\n\r\ndata: 1\n\n"]

/-- It is told in one event, and received as one. -/
theorem forgery_read_back :
    let line := Envelope.ofPayload (.console .log forgery) 0
    let opened := countingApp.step .subscribe
    let steps := [.read 0, .tell (.logEmitted "counter" .log forgery), .read 0]
    let told := opened.trace (tells 0) steps
    (∃ event, received (StreamEvent.message line.toJson).write = [event] ∧
      event.data = line.write) ∧
    told.length = 2 ∧ told.flatMap StreamEvent.texts = [line.toJson] ∧
      (received (told.flatMap StreamEvent.write)).map ReceivedEvent.data = [line.toJson.toList] := by
  intro line opened steps told
  have hrunning : countingApp.Running := ⟨rfl, by decide, by decide⟩
  have halone := events_read_back.1 line (.message line.toJson) rfl []
  rw [List.append_nil] at halone
  have htexts : told.flatMap StreamEvent.texts = [line.toJson] := rfl
  have hread := (events_read_back.2 countingApp hrunning [] steps).1
  exact ⟨halone, rfl, htexts, hread.trans (congrArg (List.map String.toList) htexts)⟩

end Watched

end AppletHost.Hosting

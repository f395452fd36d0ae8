import AppletHost.Proofs.Push.Framing
import AppletHost.Proofs.Push.Replies

/-!
# What a text is answered with

A text from a viewer is checked in layers: it has to be JSON of an object, its type, its payload and
its timestamp are looked at in this order, then the type is looked up, and last the payload of a call
is decoded. A text that fails several checks at once is settled by the first, and no later layer sees
it. Put together, the layers come to two questions only, is the text a frame (`IsFrame`), and is it
that of a call (`IsCall`):

> `Inbound.ofText_eq_call_iff`: a call is asked for by the texts of calls;
> `Inbound.ofText_eq_unknownType_iff`: every other frame counts as one of an unknown type, whether or
> not the type has a meaning elsewhere;
> `Inbound.ofText_eq_malformed_iff`: all that is left is malformed.

The three exclude each other, and each has its own reply:

> `Handler.text_answered`: a text is answered by one frame, and the handler is called once by a call
> and never by anything else.
-/

namespace AppletHost.Push

/-! ## Frames and calls -/

/-- What may stand for a timestamp: nothing, `null`, or a number. -/
def IsTimestamp : Option Value → Prop
  | none | some .null | some (.int _) | some (.float _) => True
  | some _ => False

/-- The text is JSON of at most 127 levels, for an object with this type and this payload and with
what may stand for a timestamp. -/
def IsFrame (text type : String) (payload : Fields) : Prop :=
  ∃ fields : Fields, Json.readWithin? 127 text = some (.obj fields) ∧
    fields.get? "type" = some (.str type) ∧ fields.get? "payload" = some (.obj payload) ∧
    IsTimestamp (fields.get? "timestamp")

/-- The text is a frame that calls a method; arguments that are missing are `null`. -/
def IsCall (text method : String) (args : Value) : Prop :=
  ∃ payload, IsFrame text "callMethod" payload ∧
    payload.get? "methodName" = some (.str method) ∧ (payload.get? "args").getD .null = args

/-- A text is a frame of one type and one payload at most. -/
theorem IsFrame.unique {text type type' : String} {payload payload' : Fields}
    (h : IsFrame text type payload) (h' : IsFrame text type' payload') :
    type = type' ∧ payload = payload' := by
  obtain ⟨fields, hread, htype, hpayload, -⟩ := h
  obtain ⟨fields', hread', htype', hpayload', -⟩ := h'
  cases hread.symm.trans hread'
  cases htype.symm.trans htype'
  cases hpayload.symm.trans hpayload'
  exact ⟨rfl, rfl⟩

/-- A timestamp is what the reader takes for one, the default of a missing one included. -/
theorem isTimestamp_iff_isSome (now : Int) (v : Option Value) :
    IsTimestamp v ↔ (Envelope.timestamp? now v).isSome := by
  match v with
  | none | some .null | some (.int _) | some (.float _) | some (.bool _) | some (.str _)
  | some (.arr _) | some (.obj _) => simp [IsTimestamp, Envelope.timestamp?]

/-- Types and their names go together one to one. -/
theorem MessageType.ofName?_eq_some_iff {name : String} {kind : MessageType} :
    ofName? name = some kind ↔ kind.name = name := by
  constructor
  · intro h
    simpa using List.find?_some h
  · rintro rfl
    exact ofName?_name kind

namespace Envelope

/-- What becomes of a frame is a matter of its type. -/
theorem parse_of_isFrame {text type : String} {payload : Fields} (h : IsFrame text type payload)
    (now : Int) :
    (∀ kind, MessageType.ofName? type = some kind →
      ∃ timestamp, parse now text = .ok ⟨kind, .obj payload, timestamp⟩) ∧
    (MessageType.ofName? type = none → parse now text = .error (.unknownType type)) := by
  obtain ⟨fields, hread, htype, hpayload, htimestamp⟩ := h
  have hread' : Json.read? text = some (.obj fields) := hread
  obtain ⟨timestamp, htime⟩ :=
    Option.isSome_iff_exists.1 ((isTimestamp_iff_isSome now _).1 htimestamp)
  unfold parse ofValue
  simp only [hread', htype, hpayload, htime]
  constructor
  · intro kind hkind
    rw [hkind]
    exact ⟨timestamp, rfl⟩
  · intro hnone
    rw [hnone]

/-- A text that is no frame fails one of the checks before the type is looked up. -/
theorem parse_of_not_isFrame {text : String} (h : ∀ type payload, ¬ IsFrame text type payload)
    (now : Int) : ∃ fault, parse now text = .error (.malformed fault) := by
  unfold parse
  cases hread : Json.read? text with
  | none => exact ⟨_, rfl⟩
  | some v =>
    show ∃ fault, ofValue now v = .error (.malformed fault)
    unfold ofValue
    split
    next fields =>
      split
      next name htype =>
        split
        next payload hpayload =>
          split
          next timestamp htime =>
            refine absurd ⟨fields, hread, htype, hpayload, ?_⟩ (h name payload)
            exact (isTimestamp_iff_isSome now _).2 (Option.isSome_of_eq_some htime)
          next => exact ⟨_, rfl⟩
        next => exact ⟨_, rfl⟩
      next => exact ⟨_, rfl⟩
    next => exact ⟨_, rfl⟩

end Envelope

/-! ## What a text asks for -/

namespace Inbound

/-- The payload of a call, decoded. -/
theorem decode?_callMethod (payload : Fields) :
    Payload.decode? .callMethod (.obj payload) =
      ((payload.get? "methodName").bind Value.str?).map fun method =>
        .callMethod method ((payload.get? "args").getD .null) := by
  have hargs : Value.Record.defaulted (.named payload) "args" 1 Value.any? .null =
      some ((payload.get? "args").getD .null) := by
    rw [Value.Record.defaulted, Value.Record.get?]
    cases payload.get? "args" <;> rfl
  show ((payload.get? "methodName").bind Value.str?).bind (fun method =>
    (Value.Record.defaulted (.named payload) "args" 1 Value.any? .null).bind fun args =>
      some (Payload.callMethod method args)) = _
  rw [hargs]
  cases (payload.get? "methodName").bind Value.str? <;> rfl

/-- Whatever is a call of a method is read as that call. -/
theorem ofText_of_isCall {text method : String} {args : Value} (h : IsCall text method args) :
    ofText text = .call method args := by
  obtain ⟨payload, hframe, hmethod, hargs⟩ := h
  obtain ⟨timestamp, hparse⟩ := (Envelope.parse_of_isFrame hframe 0).1 .callMethod (by decide)
  have hdecode : Payload.decode? .callMethod (.obj payload) = some (.callMethod method args) := by
    rw [decode?_callMethod, hmethod, hargs]
    rfl
  unfold ofText
  simp only [hparse, Envelope.payload?, hdecode]

/-- A frame of another type is answered by its type, known or not. -/
theorem ofText_of_isFrame {text type : String} {payload : Fields} (h : IsFrame text type payload)
    (hother : type ≠ "callMethod") : ofText text = .unknownType type := by
  obtain ⟨hknown, hunknown⟩ := Envelope.parse_of_isFrame h 0
  unfold ofText
  cases hkind : MessageType.ofName? type with
  | none => rw [hunknown hkind]
  | some kind =>
    obtain ⟨timestamp, hparse⟩ := hknown kind hkind
    rw [MessageType.ofName?_eq_some_iff] at hkind
    rw [hparse, ← hkind]
    cases kind with
    | callMethod => exact absurd hkind.symm hother
    | render | console | methodCallResponse | connection | error => rfl

/-- What is neither of the two is malformed: a frame of a call without the name of a method, or no
frame at all. -/
theorem ofText_of_not {text : String} (hcall : ∀ method args, ¬ IsCall text method args)
    (hother : ∀ type payload, IsFrame text type payload → type = "callMethod") :
    ofText text = .malformed := by
  unfold ofText
  by_cases hframe : ∃ type payload, IsFrame text type payload
  · obtain ⟨type, payload, hframe⟩ := hframe
    obtain rfl := hother type payload hframe
    obtain ⟨timestamp, hparse⟩ := (Envelope.parse_of_isFrame hframe 0).1 .callMethod (by decide)
    have hmethod : (payload.get? "methodName").bind Value.str? = none := by
      rw [Option.bind_eq_none_iff]
      intro v hv
      cases v with
      | str method => exact absurd ⟨payload, hframe, hv, rfl⟩ (hcall method _)
      | null | bool _ | int _ | float _ | arr _ | obj _ => rfl
    have hdecode : Payload.decode? .callMethod (.obj payload) = none := by
      rw [decode?_callMethod, hmethod]
      rfl
    simp only [hparse, Envelope.payload?, hdecode]
  · obtain ⟨fault, hparse⟩ :=
      Envelope.parse_of_not_isFrame (fun type payload h => hframe ⟨type, payload, h⟩) 0
    simp only [hparse]

/-- Every text is a call, a frame of another type, or neither. -/
theorem ofText_cases (text : String) :
    (∃ method args, IsCall text method args ∧ ofText text = .call method args) ∨
    (∃ type payload, IsFrame text type payload ∧ type ≠ "callMethod" ∧
      ofText text = .unknownType type) ∨
    ((∀ method args, ¬ IsCall text method args) ∧
      (∀ type payload, IsFrame text type payload → type = "callMethod") ∧
      ofText text = .malformed) := by
  by_cases hcall : ∃ method args, IsCall text method args
  · obtain ⟨method, args, hcall⟩ := hcall
    exact .inl ⟨method, args, hcall, ofText_of_isCall hcall⟩
  · have hcall' : ∀ method args, ¬ IsCall text method args := fun method args h =>
      hcall ⟨method, args, h⟩
    by_cases hother : ∃ type payload, IsFrame text type payload ∧ type ≠ "callMethod"
    · obtain ⟨type, payload, hframe, hne⟩ := hother
      exact .inr (.inl ⟨type, payload, hframe, hne, ofText_of_isFrame hframe hne⟩)
    · have hother' : ∀ type payload, IsFrame text type payload → type = "callMethod" :=
        fun type payload h => by_contra fun hne => hother ⟨type, payload, h, hne⟩
      exact .inr (.inr ⟨hcall', hother', ofText_of_not hcall' hother'⟩)

theorem ofText_eq_call_iff {text method : String} {args : Value} :
    ofText text = .call method args ↔ IsCall text method args := by
  refine ⟨fun h => ?_, ofText_of_isCall⟩
  rcases ofText_cases text with ⟨method', args', hcall, heq⟩ | ⟨_, _, _, _, heq⟩ | ⟨_, _, heq⟩
  · cases h.symm.trans heq
    exact hcall
  · cases h.symm.trans heq
  · cases h.symm.trans heq

/-- A text is of an unknown type just if it is a frame whose type is not that of calls. -/
theorem ofText_eq_unknownType_iff {text type : String} :
    ofText text = .unknownType type ↔
      type ≠ "callMethod" ∧ ∃ payload, IsFrame text type payload := by
  refine ⟨fun h => ?_, fun ⟨hne, _, hframe⟩ => ofText_of_isFrame hframe hne⟩
  rcases ofText_cases text with ⟨_, _, _, heq⟩ | ⟨_, payload, hframe, hne, heq⟩ | ⟨_, _, heq⟩
  · cases h.symm.trans heq
  · cases h.symm.trans heq
    exact ⟨hne, payload, hframe⟩
  · cases h.symm.trans heq

/-- What is left is malformed: no frame at all, or a frame of a call without a method. -/
theorem ofText_eq_malformed_iff {text : String} :
    ofText text = .malformed ↔ (∀ method args, ¬ IsCall text method args) ∧
      ∀ type payload, IsFrame text type payload → type = "callMethod" := by
  refine ⟨fun h => ?_, fun ⟨hcall, hother⟩ => ofText_of_not hcall hother⟩
  rcases ofText_cases text with ⟨_, _, _, heq⟩ | ⟨_, _, _, _, heq⟩ | ⟨hcall, hother, -⟩
  · cases h.symm.trans heq
  · cases h.symm.trans heq
  · exact ⟨hcall, hother⟩

/-- Of two things that are wrong the first counts: this type is none, whatever the payload. -/
example : ofText "\x7b\"type\":7,\"payload\":\x7b\"methodName\":\"add\"\x7d\x7d" = .malformed := by
  cbv

/-- A call that was built and written is read as that call, unless it nests too deep. -/
theorem ofText_toJson {method : String} {args : Value} {timestamp : Int} (hargs : Plain args)
    (htimestamp : Number.isSigned64 timestamp = true) :
    let e := Envelope.ofPayload (.callMethod method args) timestamp
    ofText e.toJson =
      if Json.depth e.value ≤ Json.maxDepth then .call method args else .malformed := by
  intro e
  have hbuilt : (Payload.callMethod method args).Built := .callMethod method hargs
  have hread := Envelope.read?_toJson (e := e) hbuilt.plain_encode htimestamp
  have hparse := Envelope.ofValue_object (e := e) rfl htimestamp 0
  have hpayload : e.payload? = some (.callMethod method args) := hbuilt.decode?_encode
  have hkind : e.kind = .callMethod := rfl
  unfold ofText Envelope.parse
  rw [hread]
  by_cases hdepth : Json.depth e.value ≤ Json.maxDepth
  · simp only [if_pos hdepth, hparse]
    simp only [hkind, hpayload]
  · simp only [if_neg hdepth]

end Inbound

/-! ## Replies -/

variable {σ : Type}

namespace Handler

/-- Takes in one text, and gives the frame that answers it. -/
def respond (h : Handler σ) (now : Int) (text : String) : StateM σ Envelope := do
  let reply ← (Inbound.ofText text).reply h.call
  return .ofPayload reply now

/-- The handler with a list of the calls that it was given, oldest first. -/
def recording (h : Handler σ) : Handler (σ × List (String × Value)) where
  greet s := h.greet s.1
  call method args := fun (state, calls) =>
    let (response, state) := (h.call method args).run state
    (response, state, calls ++ [(method, args)])

end Handler

/-- A session that reads a text and then answers it has responded to it. -/
theorem Server.step_receive_answer {h : Handler σ} {s : Server σ} {id : ConnectionId}
    (hserving : s.phase? id = some .serving) (hstays : s.isEvicted id = false) (text : String) :
    ∃ refusal?, ((s.step h (.receive id text)).step h (.answer id)).answers = s.answers ++
        [⟨id, .ofText text, ((h.respond s.now text).run s.state).1, refusal?⟩] ∧
      ((s.step h (.receive id text)).step h (.answer id)).state =
        ((h.respond s.now text).run s.state).2 := by
  have hreceive : s.step h (.receive id text) =
      Server.enter { s with
        state := (((Inbound.ofText text).reply h.call).run s.state).2
        received := s.received ++ [(id, .ofText text)] } id
        (.answering (.ofText text) (((Inbound.ofText text).reply h.call).run s.state).1) := by
    rw [Server.step, hserving]
    simp only [hstays, Bool.false_eq_true, if_false]
    rfl
  have hphase : (s.step h (.receive id text)).phase? id =
      some (.answering (.ofText text) (((Inbound.ofText text).reply h.call).run s.state).1) := by
    rw [hreceive]
    exact Server.phase?_enter_self (hserving.trans_ne (Option.some_ne_none _)) _
  generalize s.step h (.receive id text) = s' at hreceive hphase
  rw [Server.step, hphase, hreceive]
  exact ⟨_, rfl, rfl⟩

namespace Handler

/-- A call is answered with the result of the handler, which is run once and on just this call. -/
theorem run_respond_of_call {h : Handler σ} {now : Int} {text method : String} {args : Value}
    (hcall : Inbound.ofText text = .call method args) (state : σ) :
    (h.recording.respond now text).run (state, []) =
      (.ofPayload (.methodCallResponse ((h.call method args).run state).1) now,
        ((h.call method args).run state).2, [(method, args)]) := by
  rw [respond, hcall]
  rfl

/-- A frame of another type is refused by its name, and the handler is left alone. -/
theorem run_respond_of_unknownType {h : Handler σ} {now : Int} {text type : String}
    (hother : Inbound.ofText text = .unknownType type) (state : σ) :
    (h.recording.respond now text).run (state, []) =
      (.ofPayload (.error ("Unknown message type: " ++ type) (some "UNKNOWN_TYPE")) now, state, []) := by
  rw [respond, hother]
  rfl

theorem run_respond_of_malformed {h : Handler σ} {now : Int} {text : String}
    (hmalformed : Inbound.ofText text = .malformed) (state : σ) :
    (h.recording.respond now text).run (state, []) =
      (.ofPayload (.error "Invalid message format" (some "INVALID_FORMAT")) now, state, []) := by
  rw [respond, hmalformed]
  rfl

end Handler

/-- Error frames tell their messages apart. -/
theorem Envelope.ofPayload_error_inj {now : Int} {message message' code code' : String}
    (h : ofPayload (.error message (some code)) now = ofPayload (.error message' (some code')) now) :
    message = message' ∧ code = code' := by
  simpa [ofPayload, Payload.encode, Payload.optionalField, Payload.kind, and_comm] using h

/--
Whatever the text, it is answered by one frame. If it is a call, the handler is called once, with the
method and the arguments of the call, and its response is the reply. If it is a frame of any other
type, known or not, the reply is the error about that type; and if it is neither, that about its form.
Each of the three replies is given in this case only, and short of a call the handler is not called.
-/
theorem Handler.text_answered (h : Handler σ) (now : Int) (text : String) (state : σ) :
    ∃ reply state' calls,
      (h.recording.respond now text).run (state, []) = (reply, state', calls) ∧
      (reply.kind = .methodCallResponse ↔ ∃ method args, IsCall text method args) ∧
      (∀ method args, IsCall text method args → calls = [(method, args)] ∧
        ∃ response, (h.call method args).run state = (response, state') ∧
          reply = .ofPayload (.methodCallResponse response) now) ∧
      ((∀ method args, ¬ IsCall text method args) → calls = [] ∧ state' = state) ∧
      (∀ type, reply =
          .ofPayload (.error ("Unknown message type: " ++ type) (some "UNKNOWN_TYPE")) now ↔
        type ≠ "callMethod" ∧ ∃ payload, IsFrame text type payload) ∧
      (reply = .ofPayload (.error "Invalid message format" (some "INVALID_FORMAT")) now ↔
        (∀ method args, ¬ IsCall text method args) ∧
          ∀ type payload, IsFrame text type payload → type = "callMethod") := by
  rw [← Inbound.ofText_eq_malformed_iff]
  simp only [← Inbound.ofText_eq_call_iff, ← Inbound.ofText_eq_unknownType_iff]
  have hkinds : ∀ (response : MethodCallResponse) (message code : String),
      Envelope.ofPayload (.methodCallResponse response) now ≠
        .ofPayload (.error message (some code)) now := by
    intro response message code heq
    cases congrArg Envelope.kind heq
  -- what the text asks for decides the reply, and no two of the three replies are equal
  cases hask : Inbound.ofText text with
  | call method args =>
    refine ⟨_, _, _, run_respond_of_call hask state, ⟨fun _ => ⟨method, args, rfl⟩, fun _ => rfl⟩,
      ?_, fun hnone => absurd rfl (hnone method args), fun type => ?_, ?_⟩
    · intro method' args' heq
      cases heq
      exact ⟨rfl, _, rfl, rfl⟩
    · exact ⟨fun heq => absurd heq (hkinds _ _ _), nofun⟩
    · exact ⟨fun heq => absurd heq (hkinds _ _ _), nofun⟩
  | unknownType name =>
    refine ⟨_, _, _, run_respond_of_unknownType hask state, ⟨nofun, nofun⟩, nofun,
      fun _ => ⟨rfl, rfl⟩, fun type => ⟨fun heq => ?_, fun heq => ?_⟩, fun heq => ?_, nofun⟩
    · obtain ⟨hmessage, -⟩ := Envelope.ofPayload_error_inj heq
      rw [String.append_right_inj] at hmessage
      rw [hmessage]
    · cases heq
      rfl
    · exact absurd (Envelope.ofPayload_error_inj heq).2 (by decide)
  | malformed =>
    refine ⟨_, _, _, run_respond_of_malformed hask state, ⟨nofun, nofun⟩, nofun,
      fun _ => ⟨rfl, rfl⟩, fun type => ⟨fun heq => ?_, nofun⟩, fun _ => rfl, fun _ => rfl⟩
    exact absurd (Envelope.ofPayload_error_inj heq).2 (by decide)

end AppletHost.Push

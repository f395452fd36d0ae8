import AppletHost.Proofs.Json.RoundTrip
import AppletHost.Push.Envelope

/-!
# Frames of the push channel

An envelope is built from a typed payload, travels as one text, and is checked and decoded by hand on
the other side. The text is that of an object (`Envelope.toJson_eq_text`), so the law of the round trip
of JSON texts applies to it; what is left is that every payload that a builder makes is a value which
survives such a trip (`Payload.Built.plain_encode`), and that decoding undoes encoding for it
(`Payload.Built.decode?_encode`).

Only the writer has no limit on nesting, so a frame that nests too deep is lost:

> `Envelope.parse_toJson`: the text of a frame of at most 127 levels is parsed as the envelope, with
> the payload that the builder was given, and the text of a deeper one is refused as no JSON.
-/

namespace AppletHost.Push

/-! ## Payloads -/

/-- A value as it can be passed to a builder: canonical, and every number in it an integer. -/
structure Plain (v : Value) : Prop where
  canonical : v.Canonical
  integral : Json.Integral v

theorem plain_str (s : String) : Plain (.str s) := ⟨.str s, .str s⟩

theorem plain_bool (b : Bool) : Plain (.bool b) := ⟨.bool b, .bool b⟩

theorem plain_arr {items : List Value} (each : ∀ v ∈ items, Plain v) : Plain (.arr items) :=
  ⟨.arr fun v hv => (each v hv).canonical, .arr fun v hv => (each v hv).integral⟩

theorem plain_obj {fields : Fields} (sorted : fields.Sorted) (each : ∀ f ∈ fields, Plain f.2) :
    Plain (.obj fields) :=
  ⟨.obj sorted fun name v hv => (each (name, v) hv).canonical,
    .obj fun name v hv => (each (name, v) hv).integral⟩

/-- A timestamp is an integer that a text keeps. -/
theorem plain_int {n : Int} (h : Number.isSigned64 n = true) : Plain (.int n) := by
  simp only [Number.isSigned64, Bool.and_eq_true, decide_eq_true_eq] at h
  refine ⟨.int n, .int h.1 ?_⟩
  have hlimits : (Number.signedLimit : Int) ≤ Json.maxInt := by decide
  omega

namespace Payload

/-- The payloads that the builders of envelopes make, of plain values and times of 64 bits. -/
inductive Built : Payload → Prop
  | render (html : String) {data : Value} (h : Plain data) : Built (.render html data)
  | console (level : LogLevel) {args : List Value} (h : ∀ v ∈ args, Plain v) :
    Built (.console level args)
  | callMethod (method : String) {args : Value} (h : Plain args) : Built (.callMethod method args)
  | outcome (method : String) {outcome : MethodOutcome} (h : ∀ v, outcome = .completed v → Plain v) :
    Built (.methodCallResponse (.ofOutcome method outcome))
  | failure (method message : String) : Built (.methodCallResponse (.failure method message))
  | connection (connected : Bool) {timestamp : Int} (h : Number.isSigned64 timestamp = true) :
    Built (.connection connected timestamp)
  | error (message : String) (code : Option String) : Built (.error message code)

theorem Built.exists_encode {p : Payload} (h : p.Built) : ∃ fields, p.encode = .obj fields := by
  cases p <;> exact ⟨_, rfl⟩

theorem names_optionalField_sublist (name : String) (v : Option Value) :
    (Fields.names (optionalField name v)).Sublist [name] := by
  cases v with
  | none => exact List.nil_sublist _
  | some v => exact List.Sublist.refl _

/-- A response is decoded as what was encoded, unless its result is `null`. -/
theorem decode?_encode_methodCallResponse {r : MethodCallResponse} (h : r.result ≠ some .null) :
    decode? .methodCallResponse (encode (.methodCallResponse r)) = some (.methodCallResponse r) := by
  obtain ⟨success, method, result, error⟩ := r
  cases result with
  | none => cases error <;> rfl
  | some v =>
    cases v with
    | null => exact absurd rfl h
    | bool _ | int _ | float _ | str _ | arr _ | obj _ => cases error <;> rfl

/-- No outcome has `null` as its result: a method that returned it has none. -/
theorem result?_ne_null (outcome : MethodOutcome) : outcome.result? ≠ some .null := by
  cases outcome with
  | notFound | failed _ => nofun
  | completed v => cases v <;> nofun

/-- A payload that was built is decoded as what was encoded. -/
theorem Built.decode?_encode {p : Payload} (h : p.Built) : decode? p.kind p.encode = some p := by
  cases h with
  | render html _ => rfl
  | console level _ => cases level <;> rfl
  | callMethod method _ => rfl
  | @outcome method outcome _ => exact decode?_encode_methodCallResponse (result?_ne_null outcome)
  | failure method message => rfl
  | @connection connected timestamp h =>
    have htimestamp : Value.int64? (.int timestamp) = some timestamp := if_pos h
    have hstatus : status? (.str (statusName connected)) = some connected := by
      cases connected <;> rfl
    show (do
      let status ← status? (.str (statusName connected))
      let timestamp ← Value.int64? (.int timestamp)
      some (Payload.connection status timestamp)) = _
    rw [hstatus, htimestamp]
    rfl
  | error message code => cases code <;> rfl

theorem plain_optionalField {name : String} {v : Option Value} (h : ∀ w, v = some w → Plain w) :
    ∀ f ∈ optionalField name v, Plain f.2 := by
  cases v with
  | none => nofun
  | some w =>
    intro f hf
    rw [List.mem_singleton.1 hf]
    exact h w rfl

/-- The payload of a reply lists its fields by name, whichever of them are there. -/
theorem plain_encode_methodCallResponse {r : MethodCallResponse}
    (h : ∀ v, r.result = some v → Plain v) : Plain (encode (.methodCallResponse r)) := by
  refine plain_obj ?_ ?_
  · have hall : ["error", "methodName", "result", "success"].Pairwise (· < ·) := by decide
    refine hall.sublist ?_
    simp only [Fields.names, List.map_append]
    exact (((names_optionalField_sublist "error" _).append (List.Sublist.refl ["methodName"])).append
      (names_optionalField_sublist "result" _)).append (List.Sublist.refl ["success"])
  · intro f hf
    simp only [List.mem_append, List.mem_singleton] at hf
    rcases hf with ((hf | rfl) | hf) | rfl
    · refine plain_optionalField ?_ f hf
      intro w hw
      obtain ⟨message, -, rfl⟩ := Option.map_eq_some_iff.1 hw
      exact plain_str message
    · exact plain_str r.method
    · exact plain_optionalField h f hf
    · exact plain_bool r.success

/-- The payload of a builder is plain if all that it is given is. -/
theorem Built.plain_encode {p : Payload} (h : p.Built) : Plain p.encode := by
  cases h with
  | render html h =>
    refine plain_obj (show ["data", "html"].Pairwise (· < ·) by decide) ?_
    simp [plain_str, h]
  | console level h =>
    refine plain_obj (show ["args", "level"].Pairwise (· < ·) by decide) ?_
    simp [plain_str, plain_arr h]
  | callMethod method h =>
    refine plain_obj (show ["args", "methodName"].Pairwise (· < ·) by decide) ?_
    simp [plain_str, h]
  | @outcome method outcome h =>
    refine plain_encode_methodCallResponse ?_
    intro v hv
    refine h v ?_
    cases outcome with
    | notFound | failed _ => cases hv
    | completed w => cases w <;> cases hv <;> rfl
  | failure method message => exact plain_encode_methodCallResponse nofun
  | connection connected h =>
    refine plain_obj (show ["status", "timestamp"].Pairwise (· < ·) by decide) ?_
    simp [plain_str, plain_int h]
  | error message code =>
    have hall : ["code", "message"].Pairwise (· < ·) := by decide
    refine plain_obj (hall.sublist ?_) ?_
    · rw [Fields.names, List.map_append]
      exact (names_optionalField_sublist "code" _).append (List.Sublist.refl ["message"])
    · intro f hf
      rcases List.mem_append.1 hf with hf | hf
      · refine plain_optionalField ?_ f hf
        intro w hw
        obtain ⟨text, -, rfl⟩ := Option.map_eq_some_iff.1 hw
        exact plain_str text
      · rw [List.mem_singleton.1 hf]
        exact plain_str message

end Payload

namespace Envelope

/-- The object that a frame is the text of; its fields stand in the order of the frame. -/
def value (e : Envelope) : Value :=
  .obj [("type", .str e.kind.name), ("payload", e.payload), ("timestamp", .int e.timestamp)]

/-- A frame nests one level more than its payload. -/
theorem depth_value (e : Envelope) : Json.depth e.value = Json.depth e.payload + 1 := by
  simp [value, Json.depth, Json.depthFields]

/-- The text of an envelope is that of its value. -/
theorem toJson_eq_text (e : Envelope) : e.toJson = Json.text e.value := by
  have hwrite : e.write = Json.write e.value := by
    unfold write
    simp only [List.append_assoc]
    rfl
  rw [toJson, Json.text, hwrite]

/-- The text of an envelope with a plain payload is read as its frame if that nests no deeper than a
reader allows, and is no JSON for the reader otherwise. -/
theorem read?_toJson {e : Envelope} (hpayload : Plain e.payload)
    (htimestamp : Number.isSigned64 e.timestamp = true) :
    Json.read? e.toJson =
      if Json.depth e.value ≤ Json.maxDepth then
        some (Value.object [("type", .str e.kind.name), ("payload", e.payload),
          ("timestamp", .int e.timestamp)])
      else none := by
  have hplain : ∀ name v, (name, v) ∈ [("type", .str e.kind.name), ("payload", e.payload),
      ("timestamp", .int e.timestamp)] → Plain v := by
    intro name v hv
    simp only [List.mem_cons, Prod.mk.injEq, List.not_mem_nil, or_false] at hv
    rcases hv with ⟨-, rfl⟩ | ⟨-, rfl⟩ | ⟨-, rfl⟩
    · exact plain_str e.kind.name
    · exact hpayload
    · exact plain_int htimestamp
  rw [toJson_eq_text]
  exact Json.readWithin?_text_obj (fun name v hv => (hplain name v hv).canonical)
    (fun name v hv => (hplain name v hv).integral) Json.maxDepth

/-- The object of a frame is the envelope. -/
theorem ofValue_object {e : Envelope} {fields : Fields} (hpayload : e.payload = .obj fields)
    (htimestamp : Number.isSigned64 e.timestamp = true) (now : Int) :
    ofValue now (Value.object [("type", .str e.kind.name), ("payload", e.payload),
      ("timestamp", .int e.timestamp)]) = .ok e := by
  obtain ⟨kind, payload, timestamp⟩ := e
  cases hpayload
  have hnodup : (Fields.names [("type", Value.str kind.name), ("payload", .obj fields),
      ("timestamp", .int timestamp)]).Nodup :=
    show ["type", "payload", "timestamp"].Nodup by decide
  have hget := Fields.get?_ofList_of_nodup hnodup
  have hlt : timestamp < Number.signedLimit := by
    simp only [Number.isSigned64, Bool.and_eq_true, decide_eq_true_eq] at htimestamp
    exact htimestamp.2
  unfold ofValue Value.object
  simp only [hget, Fields.get?, String.reduceEq, ↓reduceIte, timestamp?, hlt,
    MessageType.ofName?_name]

/-! ## Frames -/

/--
For every payload that a builder makes of strings and of values whose numbers are integers, and for
all times of 64 bits: if the frame nests at most 127 levels, its text is parsed as the envelope, of
the same kind and with the same payload and timestamp, and the payload is decoded as what the builder
was given; if it nests deeper, the text is refused.
-/
theorem parse_toJson {p : Payload} (hp : p.Built) {timestamp : Int}
    (h : Number.isSigned64 timestamp = true) (now : Int) :
    let e := ofPayload p timestamp
    (Json.depth e.value ≤ Json.maxDepth → parse now e.toJson = .ok e ∧ e.payload? = some p) ∧
      (Json.maxDepth < Json.depth e.value → parse now e.toJson = .error (.malformed .invalidJson)) := by
  intro e
  obtain ⟨fields, hfields⟩ := hp.exists_encode
  have hread := read?_toJson (e := e) hp.plain_encode h
  unfold parse
  rw [hread]
  constructor
  · intro hdepth
    rw [if_pos hdepth]
    exact ⟨ofValue_object hfields h now, hp.decode?_encode⟩
  · intro hdeep
    rw [if_neg (by omega)]

/-- Arrays around `null`, so many of them. -/
def nested : Nat → Value
  | 0 => .null
  | n + 1 => .arr [nested n]

theorem plain_nested (n : Nat) : Plain (nested n) := by
  induction n with
  | zero => exact ⟨.null, .null⟩
  | succ n ih => exact plain_arr (List.forall_mem_singleton.2 ih)

/-- Nested lists are as deep as they were nested, so that among them the limit on depth is seen to be
sharp. -/
theorem depth_nested (n : Nat) : Json.depth (nested n) = n := by
  induction n with
  | zero => rfl
  | succ n ih => simp [nested, Json.depth, Json.depthItems, ih]

/-- A call whose arguments nest 125 levels arrives, since the payload and the frame add one level
each; one level more, and it does not. -/
theorem parse_toJson_nested :
    let call n := ofPayload (.callMethod "fold" (nested n)) (-1)
    parse 0 (call 125).toJson = .ok (call 125) ∧
      (call 125).payload? = some (.callMethod "fold" (nested 125)) ∧
      parse 0 (call 126).toJson = .error (.malformed .invalidJson) := by
  intro call
  have hcall : ∀ n, (Payload.callMethod "fold" (nested n)).Built := fun n =>
    .callMethod "fold" (plain_nested n)
  have hdepth : ∀ n, Json.depth (call n).value = n + 2 := by
    intro n
    rw [depth_value]
    simp [call, ofPayload, Payload.encode, Json.depth, Json.depthFields, depth_nested]
  have htime : Number.isSigned64 (-1) = true := by decide
  have hfits : Json.depth (call 125).value ≤ Json.maxDepth := by rw [hdepth]; decide
  have hdeep : Json.maxDepth < Json.depth (call 126).value := by rw [hdepth]; decide
  obtain ⟨hparse, hpayload⟩ := (parse_toJson (hcall 125) htime 0).1 hfits
  exact ⟨hparse, hpayload, (parse_toJson (hcall 126) htime 0).2 hdeep⟩

end Envelope

end AppletHost.Push

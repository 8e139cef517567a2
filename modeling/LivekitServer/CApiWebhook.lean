import LivekitServer.CApiTransport

/-!
# Webhooks over the C ABI

The object of an event determines the event: `readEvent` gets it back from the JSON. The secrets
of a map and a callback that answers from the same map give the same result, which is that of the
receiver over the map.
-/

namespace LivekitServer.CApi
open Value Program

section Events

def readPart {α : Type} (members : Members) (name : String) (read : Members → Option α) :
    Option (Option α) :=
  match members.lookup (ascii name) with
  | none => some none
  | some (.object part) => (read part).map some
  | some _ => none

def readRoom (part : Members) : Option WebhookRoom := do
  let sid ← readText part "sid"
  let name ← readText part "name"
  let metadata ← readText part "metadata"
  return ⟨sid, name, metadata⟩

def readParticipant (part : Members) : Option WebhookParticipant := do
  let sid ← readText part "sid"
  let identity ← readText part "identity"
  let name ← readText part "name"
  let metadata ← readText part "metadata"
  return ⟨sid, identity, name, metadata⟩

def readTrack (part : Members) : Option WebhookTrack := do
  let sid ← readText part "sid"
  let name ← readText part "name"
  return ⟨sid, name⟩

def readEgress (part : Members) : Option WebhookEgress := do
  let egressId ← readText part "egress_id"
  let roomId ← readText part "room_id"
  let roomName ← readText part "room_name"
  return ⟨egressId, roomId, roomName⟩

def readIngress (part : Members) : Option WebhookIngress := do
  let ingressId ← readText part "ingress_id"
  let name ← readText part "name"
  let roomName ← readText part "room_name"
  return ⟨ingressId, name, roomName⟩

/-- The event that a host reads off the value of an envelope. -/
def readEventObject (members : Members) : Option WebhookEvent := do
  let event ← readText members "event"
  let id ← readText members "id"
  let createdAt ← readInteger members "created_at"
  let room ← readPart members "room" readRoom
  let participant ← readPart members "participant" readParticipant
  let track ← readPart members "track" readTrack
  let egress ← readPart members "egress" readEgress
  let ingress ← readPart members "ingress" readIngress
  let rawBody ← readText members "raw_body"
  if h : InInt64 createdAt then
    some ⟨event, id, createdAt, room, participant, track, egress, ingress, rawBody, h⟩
  else none

def readEvent (json : Bytes) : Option WebhookEvent :=
  match Json.parse json with
  | some (.object envelope) =>
    match envelope.lookup (ascii "value") with
    | some (.object members) => readEventObject members
    | _ => none
  | _ => none

variable {fields : Fields} {members : Members}

/-- Fields of distinct names, and their members. -/
structure Reflects (fields : Fields) (members : Members) : Prop where
  agrees : AgreesFields (· = ·) PrintedAs fields members
  names : (fields.map Prod.fst).Nodup

theorem Reflects.text (h : Reflects fields members) (name : String) {s : Bytes}
    (hfield : fields.lookup (ascii name) = some (.string s)) : readText members name = some s := by
  rcases h.agrees.lookup (h.agrees.nodup h.names) (ascii name) with
    ⟨hnone, -⟩ | ⟨v, item, hv, hitem, hagree⟩
  · rw [hnone] at hfield
    cases hfield
  · obtain rfl := Option.some.inj (hv.symm.trans hfield)
    obtain ⟨t, rfl, rfl⟩ := agrees_string.mp hagree
    rw [readText, hitem]

theorem Reflects.part {α : Type} (h : Reflects fields members) {name : String}
    {read : Members → Option α} {object : α → List (String × Bytes)} {o : Option α}
    (hfield : fields.lookup (ascii name) = o.map fun a => newObject (object a))
    (hread : ∀ a part, AgreesFields (· = ·) PrintedAs
      ((object a).map fun f => (ascii f.1, .string f.2)) part → read part = some a) :
    readPart members name read = some o := by
  rcases h.agrees.lookup (h.agrees.nodup h.names) (ascii name) with
    ⟨hnone, hmember⟩ | ⟨v, item, hv, hitem, hagree⟩
  · rw [hnone] at hfield
    obtain rfl := Option.map_eq_none_iff.mp hfield.symm
    rw [readPart, hmember]
  · rw [hv] at hfield
    obtain ⟨a, rfl, rfl⟩ := Option.map_eq_some_iff.mp hfield.symm
    obtain ⟨part, rfl, hpart⟩ := agrees_struct.mp hagree
    rw [readPart, hitem]
    exact congrArg (Option.map some) (hread a part hpart)

/-- The fields of an event, with those that may be missing. -/
def eventTable (event : WebhookEvent) : List (Bytes × Option Value) :=
  [(ascii "event", some (.string event.event)), (ascii "id", some (.string event.id)),
    (ascii "raw_body", some (.string event.rawBody)),
    (ascii "created_at", some (.string (Decimal.signed event.createdAt))),
    (ascii "room", event.room.map fun room =>
      newObject [("sid", room.sid), ("name", room.name), ("metadata", room.metadata)]),
    (ascii "participant", event.participant.map fun participant =>
      newObject [("sid", participant.sid), ("identity", participant.identity),
        ("name", participant.name), ("metadata", participant.metadata)]),
    (ascii "track", event.track.map fun track =>
      newObject [("sid", track.sid), ("name", track.name)]),
    (ascii "egress", event.egress.map fun egress =>
      newObject [("egress_id", egress.egressId), ("room_id", egress.roomId),
        ("room_name", egress.roomName)]),
    (ascii "ingress", event.ingress.map fun ingress =>
      newObject [("ingress_id", ingress.ingressId), ("name", ingress.name),
        ("room_name", ingress.roomName)])]

theorem eventFields_eq (event : WebhookEvent) :
    eventFields event = AssocList.present (eventTable event) := by
  obtain ⟨name, id, createdAt, room, participant, track, egress, ingress, rawBody, hrange⟩ := event
  cases room <;> cases participant <;> cases track <;> cases egress <;> cases ingress <;> rfl

theorem lookup_eventFields (event : WebhookEvent) (name : Bytes) :
    (eventFields event).lookup name = ((eventTable event).lookup name).join := by
  have hnames : ((eventTable event).map Prod.fst).Nodup :=
    (by decide : eventNames.Nodup)
  rw [eventFields_eq]
  exact AssocList.lookup_present hnames name

theorem readRoom_agrees {room : WebhookRoom}
    (h : AgreesFields (· = ·) PrintedAs [(ascii "sid", .string room.sid),
      (ascii "name", .string room.name), (ascii "metadata", .string room.metadata)] members) :
    readRoom members = some room := by
  have hnames : (["sid", "name", "metadata"].map ascii).Nodup := by decide
  have h : Reflects _ members := ⟨h, hnames⟩
  rw [readRoom, h.text "sid" rfl, h.text "name" rfl, h.text "metadata" rfl]
  rfl

theorem readParticipant_agrees {participant : WebhookParticipant}
    (h : AgreesFields (· = ·) PrintedAs [(ascii "sid", .string participant.sid),
      (ascii "identity", .string participant.identity), (ascii "name", .string participant.name),
      (ascii "metadata", .string participant.metadata)] members) :
    readParticipant members = some participant := by
  have hnames : (["sid", "identity", "name", "metadata"].map ascii).Nodup := by decide
  have h : Reflects _ members := ⟨h, hnames⟩
  rw [readParticipant, h.text "sid" rfl, h.text "identity" rfl, h.text "name" rfl,
    h.text "metadata" rfl]
  rfl

theorem readTrack_agrees {track : WebhookTrack}
    (h : AgreesFields (· = ·) PrintedAs [(ascii "sid", .string track.sid),
      (ascii "name", .string track.name)] members) : readTrack members = some track := by
  have hnames : (["sid", "name"].map ascii).Nodup := by decide
  have h : Reflects _ members := ⟨h, hnames⟩
  rw [readTrack, h.text "sid" rfl, h.text "name" rfl]
  rfl

theorem readEgress_agrees {egress : WebhookEgress}
    (h : AgreesFields (· = ·) PrintedAs [(ascii "egress_id", .string egress.egressId),
      (ascii "room_id", .string egress.roomId), (ascii "room_name", .string egress.roomName)]
      members) : readEgress members = some egress := by
  have hnames : (["egress_id", "room_id", "room_name"].map ascii).Nodup := by decide
  have h : Reflects _ members := ⟨h, hnames⟩
  rw [readEgress, h.text "egress_id" rfl, h.text "room_id" rfl, h.text "room_name" rfl]
  rfl

theorem readIngress_agrees {ingress : WebhookIngress}
    (h : AgreesFields (· = ·) PrintedAs [(ascii "ingress_id", .string ingress.ingressId),
      (ascii "name", .string ingress.name), (ascii "room_name", .string ingress.roomName)]
      members) : readIngress members = some ingress := by
  have hnames : (["ingress_id", "name", "room_name"].map ascii).Nodup := by decide
  have h : Reflects _ members := ⟨h, hnames⟩
  rw [readIngress, h.text "ingress_id" rfl, h.text "name" rfl, h.text "room_name" rfl]
  rfl

/-- The object of an event determines every field of it. -/
theorem readEventObject_agrees {event : WebhookEvent}
    (h : AgreesFields (· = ·) PrintedAs (eventFields event) members) :
    readEventObject members = some event := by
  have h : Reflects (eventFields event) members := ⟨h, (wellFormed_eventFields event).1⟩
  have hfield (name : String) := lookup_eventFields event (ascii name)
  have hcreated : readInteger members "created_at" = some event.createdAt := by
    rw [readInteger, h.text "created_at" (hfield "created_at"), Option.bind_some,
      stoll_signed event.createdAt_range]
  have hroom : readPart members "room" readRoom = some event.room :=
    h.part (hfield "room") fun _ _ hpart => readRoom_agrees hpart
  have hparticipant : readPart members "participant" readParticipant = some event.participant :=
    h.part (hfield "participant") fun _ _ hpart => readParticipant_agrees hpart
  have htrack : readPart members "track" readTrack = some event.track :=
    h.part (hfield "track") fun _ _ hpart => readTrack_agrees hpart
  have hegress : readPart members "egress" readEgress = some event.egress :=
    h.part (hfield "egress") fun _ _ hpart => readEgress_agrees hpart
  have hingress : readPart members "ingress" readIngress = some event.ingress :=
    h.part (hfield "ingress") fun _ _ hpart => readIngress_agrees hpart
  rw [readEventObject, h.text "event" (hfield "event"), h.text "id" (hfield "id"), hcreated, hroom,
    hparticipant, htrack, hegress, hingress, h.text "raw_body" (hfield "raw_body")]
  exact dif_pos event.createdAt_range

/-- The envelope of an event determines it. -/
theorem Output.Conveys.readEvent {output : Output} {event : WebhookEvent}
    (h : output.Conveys (.ok (.struct (eventFields event)))) :
    ∃ json, output = ⟨some (json ++ [0]), json.length⟩ ∧ readEvent json = some event := by
  obtain ⟨json, members, item, rfl, hparse, hperm, hagree⟩ := h
  obtain ⟨fields, rfl, hfields⟩ := agrees_struct.mp hagree
  have hnames : [ascii "value", ascii "ok"].Nodup := by decide
  have hlookup := AssocList.lookup_perm hperm.symm hnames (ascii "value")
  refine ⟨json, rfl, ?_⟩
  have hvalue : members.lookup (ascii "value") = some (.object fields) := hlookup.symm.trans rfl
  rw [CApi.readEvent, hparse]
  simp only [hvalue]
  exact readEventObject_agrees hfields

end Events

section Keys

/-- The key that a host reads off the JSON of the key callback. -/
def readKey (json : Bytes) : Option Bytes :=
  match Json.parse json with
  | some (.object members) => do
    guard (readText members "kind" = some (ascii "key"))
    readText members "key"
  | _ => none

/-- The host answers every key with what the map has for it. -/
def AnswersKeys (outside : ∀ outgoing, Outcome (OutgoingReply outgoing))
    (secrets : StringMap) : Prop :=
  ∀ json key, readKey json = some key → ∃ reply, outside (.callback json) = .ok reply ∧
    HoldsStrings reply [(ascii "secret", Webhook.keyMap secrets key)]

variable {native : Native} (hreads : ReadsJson native.surroundings.parseStruct)
  (hprint : PrintsJson native.print)

include hprint in
/-- A key gets to the host. -/
theorem print_keyRequest {key : Bytes} (hkey : Utf8.Valid key) :
    ∃ json, native.print (keyRequest key) = some json ∧ readKey json = some key := by
  have hnames : [ascii "kind", ascii "key"].Nodup := by decide
  have hvalid : ∀ p ∈ [(ascii "kind", ascii "key"), (ascii "key", key)],
      Utf8.Valid p.1 ∧ Utf8.Valid p.2 := by
    rw [List.forall_mem_cons, List.forall_mem_singleton]
    exact ⟨⟨Utf8.valid_ascii (by decide), Utf8.valid_ascii (by decide)⟩,
      Utf8.valid_ascii (by decide), hkey⟩
  obtain ⟨json, members, hjson, -, hparse, hperm⟩ := hprint.strings hvalid hnames
  have hlookup := AssocList.lookup_perm hperm.symm hnames
  have htext (name : String) {s : Bytes} (h : members.lookup (ascii name) = some (.string s)) :
      readText members name = some s := by
    rw [readText, h]
  refine ⟨json, hjson, ?_⟩
  simp only [readKey, hparse, htext "kind" ((hlookup _).symm.trans rfl),
    htext "key" ((hlookup _).symm.trans rfl)]
  rfl

variable {outside : ∀ outgoing, Outcome (OutgoingReply outgoing)} {secrets : StringMap}

include hreads hprint in
/-- The round trip of a key through the host is a lookup in the map. -/
theorem result_provideKey (hhost : AnswersKeys outside secrets) {key : Bytes}
    (hkey : Utf8.Valid key) :
    (provideKey native true key).result outside = .ok (Webhook.keyMap secrets key) := by
  obtain ⟨json, hjson, hread⟩ := print_keyRequest hprint hkey
  obtain ⟨reply, hreply, hholds⟩ := hhost json key hread
  have hnames : [ascii "secret"].Nodup := by decide
  obtain ⟨obj, hobj, hlookup⟩ := readReply_strings hreads hholds hnames rfl
  have hfield := congrArg (·.getD .notSet) (hlookup (ascii "secret"))
  rw [provideKey, result_bind, result, run_exchange (encode_ok.mpr hjson), hreply]
  change readReply native reply >>= _ = _
  rw [hobj]
  exact string_ok.mpr (Or.inr (string?_eq_some.mpr hfield))

end Keys

section Receiver

/-- The receiver over a map of secrets, on the native clock. -/
def receiver (native : Native) (secrets : StringMap) (body authorization : Bytes) :
    Outcome WebhookEvent :=
  (Webhook.receiveAt (services native) native.surroundings.clock native.surroundings.now body
    authorization).result fun key => .ok (Webhook.keyMap secrets key)

theorem ends_digitLoop (text : Bytes) (value : ℤ) :
    Ends (fun _ => True) (Webhook.digitLoop text value) := by
  induction text generalizing value with
  | nil => trivial
  | cons ch rest ih =>
      rw [Webhook.digitLoop]
      by_cases hdigit : Decimal.isDigit ch
      · rw [if_pos hdigit]
        change Ends _ (ite _ _ _)
        split_ifs
        · exact ends_raise (Utf8.valid_ascii (by decide))
        · exact ih _
      · rw [if_neg hdigit]
        trivial

theorem ends_integerAfterColon (text : Bytes) :
    Ends (fun _ => True) (Webhook.integerAfterColon text) := by
  rw [Webhook.integerAfterColon]
  split
  · exact ends_raise (Utf8.valid_ascii (by decide))
  · rename_i ch _ _
    by_cases hdigit : Decimal.isDigit ch
    · rw [if_pos hdigit]
      exact (ends_digitLoop _ _).map fun _ _ => trivial
    · rw [if_neg hdigit]
      exact ends_raise (Utf8.valid_ascii (by decide))

theorem ends_jsonIntegerField (json : Bytes) (name : String) :
    Ends (fun _ => True) (Webhook.jsonIntegerField json name) := by
  unfold Webhook.jsonIntegerField
  cases Bytes.findText (Webhook.marker name) json with
  | none => trivial
  | some position =>
      cases hcolon : json.find 0x3a (position + (Webhook.marker name).length) with
      | none => simp only [hcolon]; exact ends_raise (Utf8.valid_ascii (by decide))
      | some position => simp only [hcolon]; exact ends_integerAfterColon _

theorem ends_checkTimes (clock : SystemClock) (now : TimePoint) (claims : Bytes) :
    Ends (fun _ => True) (Webhook.checkTimes clock now claims) :=
  (ends_jsonIntegerField claims "exp").bind fun _ _ =>
    (ends_throwIf (Utf8.valid_ascii (by decide))).bind fun _ _ =>
      (ends_jsonIntegerField claims "nbf").bind fun _ _ =>
        ends_throwIf (Utf8.valid_ascii (by decide))

variable {native : Native} (htexts : Texts native)
include htexts

theorem ends_jsonStringField (json : Bytes) (name : String) :
    Ends Utf8.Valid (Webhook.jsonStringField (services native).parseStruct json name) := by
  unfold Webhook.jsonStringField
  cases hparse : (services native).parseStruct json with
  | none => exact ends_raise (Utf8.valid_ascii (by decide))
  | some object =>
      have hall := allFields_iff.mp (htexts.struct json object hparse)
      cases hlookup : object.lookup (ascii name) with
      | none =>
          simp only [hlookup]
          exact Utf8.valid_nil
      | some v =>
          simp only [hlookup]
          cases v with
          | string value => exact (hall _ (AssocList.mem_of_lookup hlookup)).2
          | _ => exact ends_raise (Utf8.valid_ascii (by decide))

theorem ends_checkBody (claims body : Bytes) :
    Ends (fun _ => True) (Webhook.checkBody (services native) claims body) :=
  (ends_jsonStringField htexts claims "sha256").bind fun _ _ =>
    (ends_sha256 _ body).bind fun _ _ => ends_throwIf (Utf8.valid_ascii (by decide))

variable {provider : Bytes → Outcome Bytes}
  (hprovider : ∀ key, Ends (fun _ => True) (provider key))
include hprovider

theorem ends_verify (authorization : Bytes) (firstDot secondDot : ℕ) :
    Ends (fun _ => True)
      ((Webhook.verify (services native) authorization firstDot secondDot).result provider) := by
  rw [Webhook.verify, result_bind]
  refine (ends_base64UrlDecode _).bind fun header _ => ?_
  rw [result_bind]
  refine (ends_jsonStringField htexts header "alg").bind fun alg _ => ?_
  rw [result_bind]
  refine (ends_throwIf (Utf8.valid_ascii (by decide))).bind fun _ _ => ?_
  rw [result_bind]
  refine (ends_base64UrlDecode _).bind fun claims _ => ?_
  rw [result_bind]
  refine (ends_jsonStringField htexts claims "iss").bind fun issuer _ => ?_
  rw [result_bind]
  refine (ends_throwIf (Utf8.valid_ascii (by decide))).bind fun _ _ => ?_
  rw [result_bind]
  refine (hprovider issuer).bind fun secret _ => ?_
  rw [result_bind]
  refine (ends_throwIf (Utf8.valid_ascii (by decide))).bind fun _ _ => ?_
  rw [result_bind]
  refine (ends_hmacSha256 _ secret _).bind fun expected _ => ?_
  rw [result_bind]
  refine (ends_base64UrlDecode _).bind fun actual _ => ?_
  rw [result_bind]
  exact (ends_throwIf (Utf8.valid_ascii (by decide))).bind fun _ _ => trivial

theorem ends_authenticate (authorization : Bytes) :
    Ends (fun _ => True)
      ((Webhook.authenticate (services native) authorization).result provider) := by
  simp only [Webhook.authenticate]
  split_ifs
  · exact ends_raise (Utf8.valid_ascii (by decide))
  · split
    · split_ifs
      · exact ends_raise (Utf8.valid_ascii (by decide))
      · exact ends_verify htexts hprovider _ _ _
    · exact ends_raise (Utf8.valid_ascii (by decide))

omit hprovider

theorem ends_parseBody (body : Bytes) :
    Ends (fun event => Plain (.struct (eventFields event)))
      (Webhook.parseBody (services native) body) := by
  cases hevent : Webhook.parseBody (services native) body with
  | ok event => exact htexts.event body event hevent
  | error e =>
      unfold Webhook.parseBody at hevent
      cases hparse : (services native).parseEvent body with
      | ok parsed =>
          rw [hparse] at hevent
          cases hevent
      | error status =>
          rw [hparse] at hevent
          obtain rfl := Except.error.inj hevent
          have hinvalid : Utf8.Valid (ascii "webhook JSON is invalid: ") :=
            Utf8.valid_ascii (by decide)
          exact printable_raise (hinvalid.append (htexts.event_status body status hparse))

theorem ends_receiver (secrets : StringMap) (body authorization : Bytes) :
    Ends (fun event => Plain (.struct (eventFields event)))
      (receiver native secrets body authorization) := by
  have hprovider (key : Bytes) :
      Ends (fun _ => True) (.ok (Webhook.keyMap secrets key) : Outcome Bytes) := trivial
  rw [receiver, Webhook.receiveAt, result_bind]
  refine (ends_authenticate htexts hprovider authorization).bind fun claims _ => ?_
  exact (ends_checkTimes _ _ claims).bind fun _ _ =>
    (ends_checkBody htexts claims body).bind fun _ _ => ends_parseBody htexts body

end Receiver

section Runs

/-- An input that asks for the webhook operation with these options, on this body and
authorization. -/
structure AsksWebhook (native : Native) (input : Option Memory) (length : ℕ) (options : Fields)
    (body authorization : Bytes) : Prop where
  input : ∃ text obj, readInput input length = .ok text ∧ parse native text = .ok obj ∧
    string obj "operation" = .ok (ascii "webhook") ∧ object obj "options" = .ok options
  body : decodeBody options "body" = .ok body
  authorization : string options "authorization" = .ok authorization

variable {native : Native} {callback : Bool} {input : Option Memory} {length : ℕ}
  {options : Fields} {body authorization : Bytes}
  {outside : ∀ outgoing, Outcome (OutgoingReply outgoing)} {secrets : StringMap}

theorem executeInput_webhook (h : AsksWebhook native input length options body authorization) :
    executeInput native callback input length = receive native callback options := by
  obtain ⟨text, obj, htext, hobj, hoperation, hoptions⟩ := h.input
  have htoken : ascii "webhook" ≠ ascii "token" := by decide
  rw [executeInput_eq htext hobj, execute, hoperation]
  change (Program.done (object obj "options") >>= _) = _
  rw [hoptions]
  simp only [done_ok_bind, if_neg htoken, if_true]

/-- The receiver over a provider that answers the keys of a token as the map does. -/
theorem result_receiveWith (h : AsksWebhook native input length options body authorization)
    (htexts : Texts native) {provider : Bytes → HostProgram Bytes}
    (hprovider : ∀ key, Utf8.Valid key →
      (provider key).result outside = .ok (Webhook.keyMap secrets key)) :
    (receiveWith native options provider).result outside =
      receiver native secrets body authorization := by
  have harguments : receiveArguments native options = .ok (body, authorization) := by
    unfold receiveArguments
    rw [h.body, h.authorization]
    cases native.bodyFirst <;> rfl
  have hissuer (claims issuer : Bytes)
      (hclaim : Webhook.jsonStringField (services native).parseStruct claims "iss" = .ok issuer) :
      Utf8.Valid issuer := by
    have hends := ends_jsonStringField htexts claims "iss"
    rw [hclaim] at hends
    exact hends
  have hcalls := (Webhook.callsAtMost_receiveAt _ hissuer native.surroundings.clock
    native.surroundings.now body authorization).log fun key => .ok (Webhook.keyMap secrets key)
  have hsame := run_congr _ _ fun key hkey => (hprovider key (hcalls.2 key hkey)).symm
  rw [receiveWith, result_bind]
  change receiveArguments native options >>= _ = _
  rw [harguments]
  change result outside (translate _ _) = _
  rw [result, run_translate, receiver, result, result, hsame]

theorem result_receive_map (h : AsksWebhook native input length options body authorization)
    (htexts : Texts native) {entries : Fields}
    (huse : boolean options "use_key_provider" = .ok false)
    (hobject : object options "secrets" = .ok entries)
    (hmap : stringMap entries = .ok secrets) :
    (receive native callback options).result outside =
      (receiver native secrets body authorization).map fun event => .struct (eventFields event) := by
  rw [receive, huse]
  change (Program.done (object options "secrets") >>= _ : HostProgram Value).result outside = _
  rw [hobject]
  change (Program.done (stringMap entries) >>= _ : HostProgram Value).result outside = _
  rw [hmap, done_ok_bind, result_bind, result_receiveWith h htexts fun _ _ => rfl]
  cases receiver native secrets body authorization <;> rfl

variable (hreads : ReadsJson native.surroundings.parseStruct) (hprint : PrintsJson native.print)
include hreads hprint

theorem result_receive_provider (h : AsksWebhook native input length options body authorization)
    (htexts : Texts native) (huse : boolean options "use_key_provider" = .ok true)
    (hhost : AnswersKeys outside secrets) :
    (receive native true options).result outside =
      (receiver native secrets body authorization).map fun event => .struct (eventFields event) := by
  have hprovider (key : Bytes) (hkey : Utf8.Valid key) :
      (provideKey native true key).result outside = .ok (Webhook.keyMap secrets key) :=
    result_provideKey hreads hprint hhost hkey
  rw [receive, huse]
  change (receiveWith native options (provideKey native true) >>= _).result outside = _
  rw [result_bind, result_receiveWith h htexts hprovider]
  cases receiver native secrets body authorization <;> rfl

/-- The envelope over a map of secrets is the envelope over a host that answers from the map, and
it carries what the receiver over the map ends in: an event in full, or an error. -/
theorem webhook_faithful (htexts : Texts native) {input' : Option Memory} {length' : ℕ}
    {options' entries : Fields}
    (hasks : AsksWebhook native input length options body authorization)
    (hsource : boolean options "use_key_provider" = .ok false)
    (hobject : object options "secrets" = .ok entries) (hmap : stringMap entries = .ok secrets)
    (hasks' : AsksWebhook native input' length' options' body authorization)
    (hsource' : boolean options' "use_key_provider" = .ok true)
    (hhost : AnswersKeys outside secrets) :
    ∃ output,
      (lksInvoke native callback input length Faults.none).result outside = .ok output ∧
      (lksInvoke native true input' length' Faults.none).result outside = .ok output ∧
      (∀ event, receiver native secrets body authorization = .ok event →
        ∃ json, output = ⟨some (json ++ [0]), json.length⟩ ∧ readEvent json = some event) ∧
      ∀ e, receiver native secrets body authorization = .error e → output.Conveys (.error e) := by
  have hresult : (executeInput native callback input length).result outside =
      (receiver native secrets body authorization).map fun event => .struct (eventFields event) := by
    rw [executeInput_webhook hasks]
    exact result_receive_map hasks htexts hsource hobject hmap
  have hresult' : (executeInput native true input' length').result outside =
      (receiver native secrets body authorization).map fun event => .struct (eventFields event) := by
    rw [executeInput_webhook hasks']
    exact result_receive_provider hreads hprint hasks' htexts hsource' hhost
  have hends := (ends_receiver htexts secrets body authorization).map fun _ h => h
  have hconveys := conveys_finish hprint hends fun value hvalue =>
    (yields_executeInput native callback input length).result (hresult.trans hvalue)
  refine ⟨_, (congrArg Prod.snd (run_lksInvoke native callback input length)).trans
    (by rw [hresult]), (congrArg Prod.snd (run_lksInvoke native true input' length')).trans
    (by rw [hresult']), fun event hevent => ?_, fun e he => ?_⟩
  · rw [hevent] at hconveys ⊢
    exact hconveys.readEvent
  · rw [he] at hconveys ⊢
    exact hconveys

end Runs

section Sample

/-- A host that answers keys from a map. -/
def keyHost (secrets : StringMap) : ∀ outgoing, Outcome (OutgoingReply outgoing)
  | .callback json =>
    match readKey json with
    | some key =>
      .ok (.ofText ((printStruct [(ascii "secret",
        .string (Webhook.keyMap secrets key))]).getD []))
    | none => .ok ⟨1, none, 0⟩
  | .send _ => .error .unknown

def sampleSecrets : StringMap :=
  ⟨[(ascii "key", ascii "secret")], List.pairwise_singleton _ _⟩

theorem answersKeys_keyHost : AnswersKeys (keyHost sampleSecrets) sampleSecrets := by
  intro json key hkey
  have hreply : keyHost sampleSecrets (.callback json) = .ok (.ofText ((printStruct
      [(ascii "secret", .string (Webhook.keyMap sampleSecrets key))]).getD [])) := by
    simp only [keyHost, hkey]
  have hsecret : Webhook.keyMap sampleSecrets key ∈ [ascii "secret", []] := by
    by_cases h : key = ascii "key"
    · subst h
      decide
    · have hmissing : sampleSecrets.find key = none := by
        simp only [SortedMap.find, sampleSecrets, List.lookup_cons]
        split
        · rename_i hbeq
          exact absurd (eq_of_beq hbeq) h
        · rfl
      rw [Webhook.keyMap, hmissing]
      exact List.mem_cons_of_mem _ List.mem_cons_self
  have hsecrets : ∀ secret ∈ [ascii "secret", []], Utf8.Valid secret ∧
      ((printStruct [(ascii "secret", .string secret)]).getD []).length ≤ maxInt := by
    decide +kernel
  obtain ⟨hvalid, hsize⟩ := hsecrets _ hsecret
  have hnames : [ascii "secret"].Nodup := by decide
  have hpair : ∀ p ∈ [(ascii "secret", Webhook.keyMap sampleSecrets key)],
      Utf8.Valid p.1 ∧ Utf8.Valid p.2 :=
    List.forall_mem_singleton.mpr ⟨Utf8.valid_ascii (by decide), hvalid⟩
  obtain ⟨text, members, htext, hutf8, hparse, hperm⟩ :=
    printsJson_printStruct.strings hpair hnames
  have hprinted : printStruct [(ascii "secret", .string (Webhook.keyMap sampleSecrets key))] =
      some text := htext
  rw [hprinted] at hreply hsize
  refine ⟨_, hreply, rfl, hsize, .ofText text, members, rfl, ?_⟩
  change Utf8.Valid ((Memory.ofText text).read text.length) ∧
    Json.parse ((Memory.ofText text).read text.length) = _ ∧ _
  rw [Memory.read_ofText]
  exact ⟨hutf8, hparse, hperm⟩

/-- The sample token and body, with the keys from this source. -/
def webhookInput (source : String) : Bytes :=
  ascii "\x7b\"operation\":\"webhook\",\"options\":\x7b" ++ ascii source ++ ascii ",\"body\":\"" ++
    Crypto.base64UrlEncode Webhook.sampleBody ++ ascii "\",\"authorization\":\"" ++
    Webhook.sampleJwt ++ ascii "\"\x7d\x7d"

def mapInput : Bytes := webhookInput "\"secrets\":\x7b\"key\":\"secret\"\x7d"

def hostInput : Bytes := webhookInput "\"use_key_provider\":true"

/-- The text asks for the webhook operation with these arguments. -/
def asksFor (native : Native) (text body authorization : Bytes) (useKeyProvider : Bool)
    (secrets : StringMap) : Outcome Bool := do
  let obj ← parse native text
  let operation ← string obj "operation"
  let options ← object obj "options"
  let body' ← decodeBody options "body"
  let authorization' ← string options "authorization"
  let useKeyProvider' ← boolean options "use_key_provider"
  let entries ← object options "secrets"
  let secrets' ← stringMap entries
  return operation = ascii "webhook" ∧ body' = body ∧ authorization' = authorization ∧
    useKeyProvider' = useKeyProvider ∧ secrets'.entries = secrets.entries

theorem asks_of_asksFor {native : Native} {text body authorization : Bytes} {useKeyProvider : Bool}
    {secrets : StringMap} (hlength : text.length ≤ maxInt)
    (h : asksFor native text body authorization useKeyProvider secrets = .ok true) :
    ∃ options entries,
      AsksWebhook native (some (.ofText text)) text.length options body authorization ∧
      boolean options "use_key_provider" = .ok useKeyProvider ∧
      object options "secrets" = .ok entries ∧ stringMap entries = .ok secrets := by
  obtain ⟨obj, hobj, h⟩ := bind_ok.mp h
  obtain ⟨operation, hoperation, h⟩ := bind_ok.mp h
  obtain ⟨options, hoptions, h⟩ := bind_ok.mp h
  obtain ⟨body', hbody, h⟩ := bind_ok.mp h
  obtain ⟨authorization', hauthorization, h⟩ := bind_ok.mp h
  obtain ⟨useKeyProvider', huse, h⟩ := bind_ok.mp h
  obtain ⟨entries, hobject, h⟩ := bind_ok.mp h
  obtain ⟨secrets', hmap, h⟩ := bind_ok.mp h
  obtain ⟨rfl, rfl, rfl, rfl, hsecrets⟩ := of_decide_eq_true (Except.ok.inj h)
  obtain rfl : secrets' = secrets := by
    cases secrets'
    cases secrets
    simpa using hsecrets
  have htext : readInput (some (.ofText text)) text.length = .ok text := by
    rw [readInput, if_neg (not_lt.mpr hlength), Memory.read_ofText]
  exact ⟨options, entries, ⟨⟨text, obj, htext, hobj, hoperation, hoptions⟩, hbody, hauthorization⟩,
    huse, hobject, hmap⟩

theorem webhook_faithful_sample :
    ∃ output,
      (lksInvoke sampleNative false (some (.ofText mapInput)) mapInput.length
        Faults.none).result (keyHost sampleSecrets) = .ok output ∧
      (lksInvoke sampleNative true (some (.ofText hostInput)) hostInput.length
        Faults.none).result (keyHost sampleSecrets) = .ok output ∧
      (∀ event, receiver sampleNative sampleSecrets Webhook.sampleBody Webhook.sampleJwt =
          .ok event →
        ∃ json, output = ⟨some (json ++ [0]), json.length⟩ ∧ readEvent json = some event) ∧
      ∀ e, receiver sampleNative sampleSecrets Webhook.sampleBody Webhook.sampleJwt = .error e →
        output.Conveys (.error e) := by
  have hmapInput : asksFor sampleNative mapInput Webhook.sampleBody Webhook.sampleJwt false
      sampleSecrets = .ok true := by decide +kernel
  have hhostInput : asksFor sampleNative hostInput Webhook.sampleBody Webhook.sampleJwt true
      (SortedMap.ofList []) = .ok true := by decide +kernel
  have hlength : mapInput.length ≤ maxInt ∧ hostInput.length ≤ maxInt := by decide +kernel
  obtain ⟨options, entries, hasks, huse, hobject, hmap⟩ := asks_of_asksFor hlength.1 hmapInput
  obtain ⟨options', _, hasks', huse', -⟩ := asks_of_asksFor hlength.2 hhostInput
  exact webhook_faithful readsJson_readUtf8Struct printsJson_printStruct texts_sampleNative hasks
    huse hobject hmap hasks' huse' answersKeys_keyHost

end Sample

end LivekitServer.CApi

import LivekitServer.CApiWebhook
import LivekitServer.RustToken

/-!
# The webhook receiver of the Rust binding

A webhook goes to the native module with a map of secrets, or with a closure that is asked for the
secret of a key. `receive_refines` says that the binding returns what the C++ receiver over the
map or over the closure ends in: the event in full, the error, or the failure of the closure.
-/

namespace LivekitServer.RustBinding
open Value BufferArena Program

section Events

/-- A field of an optional type. Null stands for nothing. -/
def readOption {α : Type} (members : Members) (name : String) (read : Members → Option α) :
    Option (Option α) :=
  match members.lookup (ascii name) with
  | none => some none
  | some .null => some none
  | some (.object part) => (read part).map some
  | some _ => none

/-- The fields of an event, by their names. -/
def readEvent (members : Members) : Option WebhookEvent := do
  let event ← CApi.readText members "event"
  let id ← CApi.readText members "id"
  let createdAt ← (CApi.readText members "created_at").bind parseI64
  let rawBody ← CApi.readText members "raw_body"
  let room ← readOption members "room" CApi.readRoom
  let participant ← readOption members "participant" CApi.readParticipant
  let track ← readOption members "track" CApi.readTrack
  let egress ← readOption members "egress" CApi.readEgress
  let ingress ← readOption members "ingress" CApi.readIngress
  if h : InInt64 createdAt then
    some ⟨event, id, createdAt, room, participant, track, egress, ingress, rawBody, h⟩
  else none

/-- What the derived deserialization of an event does on a map. -/
def ReadsEvents {σ : Type} (fromValue : Json → Except σ WebhookEvent) : Prop :=
  ∀ members event, (Json.object members).DistinctNames → readEvent members = some event →
    fromValue (.object members) = .ok event

theorem readOption_of_readPart {α : Type} {members : Members} {name : String}
    {read : Members → Option α} {o : Option α} (h : CApi.readPart members name read = some o) :
    readOption members name read = some o := by
  rw [CApi.readPart] at h
  rw [readOption]
  cases hitem : members.lookup (ascii name) with
  | none =>
      rw [hitem] at h
      exact h
  | some item =>
      rw [hitem] at h
      cases item with
      | object part => exact h
      | _ => cases h

/-- The object of an event is read as the event. -/
theorem readEvent_agrees {event : WebhookEvent} {members : Members}
    (h : AgreesFields (· = ·) PrintedAs (CApi.eventFields event) members) :
    readEvent members = some event := by
  have h : CApi.Reflects (CApi.eventFields event) members :=
    ⟨h, (CApi.wellFormed_eventFields event).1⟩
  have hfield (name : String) := CApi.lookup_eventFields event (ascii name)
  have hcreated : (CApi.readText members "created_at").bind parseI64 = some event.createdAt := by
    rw [h.text "created_at" (hfield "created_at"), Option.bind_some,
      parseI64_signed event.createdAt_range]
  have hroom : readOption members "room" CApi.readRoom = some event.room :=
    readOption_of_readPart (h.part (hfield "room") fun _ _ hpart => CApi.readRoom_agrees hpart)
  have hparticipant :
      readOption members "participant" CApi.readParticipant = some event.participant :=
    readOption_of_readPart
      (h.part (hfield "participant") fun _ _ hpart => CApi.readParticipant_agrees hpart)
  have htrack : readOption members "track" CApi.readTrack = some event.track :=
    readOption_of_readPart (h.part (hfield "track") fun _ _ hpart => CApi.readTrack_agrees hpart)
  have hegress : readOption members "egress" CApi.readEgress = some event.egress :=
    readOption_of_readPart (h.part (hfield "egress") fun _ _ hpart => CApi.readEgress_agrees hpart)
  have hingress : readOption members "ingress" CApi.readIngress = some event.ingress :=
    readOption_of_readPart
      (h.part (hfield "ingress") fun _ _ hpart => CApi.readIngress_agrees hpart)
  rw [readEvent, h.text "event" (hfield "event"), h.text "id" (hfield "id"), hcreated,
    h.text "raw_body" (hfield "raw_body"), hroom, hparticipant, htrack, hegress, hingress]
  exact dif_pos event.createdAt_range

/-- The object of an event, as the native module writes it. -/
def eventValue (event : WebhookEvent) : Value := .struct (CApi.eventFields event)

end Events

section Receiver

variable {σ κ π : Type}

/-- Where the secrets of a receiver come from. -/
inductive Keys (κ π : Type)
  | secrets (map : TextMap)
  | provider (provide : Bytes → UserOutcome κ π (Option Text))

def Keys.members : Keys κ π → Members
  | .secrets map => map.members
  | .provider _ => []

def Keys.isProvider : Keys κ π → Bool
  | .secrets _ => false
  | .provider _ => true

/-- What the closure says of a key. A closure that is not there is not asked. -/
def Keys.ask : Keys κ π → Bytes → UserOutcome κ π (Option Bytes)
  | .secrets _, _ => .ok none
  | .provider provide, key =>
    match provide key with
    | .ok secret => .ok (secret.map Text.bytes)
    | .err e => .err e
    | .panic payload => .panic payload

/-- The receiver, without the callback that `dispatch` runs. -/
structure WebhookReceiver (κ π : Type) where
  native : NativeLibrary
  keys : Keys κ π

namespace WebhookReceiver

def new (native : NativeLibrary) (apiKey apiSecret : Text) : WebhookReceiver κ π where
  native := native
  keys := .secrets
    { map := SortedMap.ofList [(apiKey.bytes, apiSecret.bytes)]
      valid := List.forall_mem_singleton.mpr ⟨apiKey.valid, apiSecret.valid⟩ }

variable (receiver : WebhookReceiver κ π) (crates : Crates σ) (allocator : Allocator)

def host : Host κ π where
  transport _ := .ok ⟨0, []⟩
  key := receiver.keys.ask
  allocator := allocator

def optionMembers (body : Bytes) (authorization : Text) : Members :=
  [(ascii "body", .string (crates.encode body)),
    (ascii "authorization", .string authorization.bytes),
    (ascii "secrets", .object receiver.keys.members),
    (ascii "use_key_provider", .bool receiver.keys.isProvider)]

def inputMembers (body : Bytes) (authorization : Text) : Members :=
  [(ascii "operation", .string (ascii "webhook")),
    (ascii "options", .object (receiver.optionMembers crates body authorization))]

def invoke (body : Bytes) (authorization : Text) : Exit σ κ π × List Address :=
  receiver.native.invoke crates ⟨false, receiver.keys.isProvider⟩ (receiver.host allocator)
    (.object (receiver.inputMembers crates body authorization))

def receive (fromValue : Json → Except σ WebhookEvent) (body : Bytes) (authorization : Text) :
    Ending σ κ π WebhookEvent := do
  let value ← (receiver.invoke crates allocator body authorization).1.ending
  match fromValue value with
  | .ok event => .ok event
  | .error e => .error (.inr (.json e))

end WebhookReceiver

end Receiver

section Direct

variable {σ κ π : Type} (crates : Crates σ)

def secretMembers (secret : Option Bytes) : Members :=
  [(ascii "secret", .string (secret.getD []))]

/-- The secret of a closure, as the receiver gets it. -/
def acceptSecret (secret : Option Bytes) : Outcome Bytes :=
  if encodedLength crates (.object (secretMembers secret)) > maxInt then
    raise .transport (ascii "C ABI callback failed or returned an invalid buffer")
  else .ok (secret.getD [])

/-- The C++ receiver over the keys. -/
def Keys.receive (keys : Keys κ π) (native : Native) (body authorization : Bytes) :
    Ending σ κ π WebhookEvent :=
  match keys with
  | .secrets map =>
    (CApi.receiver native map.map body authorization).mapError fun e => .inr (ofThrown e)
  | .provider _ =>
    directly keys.ask (acceptSecret crates) (Webhook.receiveAt (CApi.services native)
      native.surroundings.clock native.surroundings.now body authorization)

end Direct

section Asking

variable {σ κ π : Type} {crates : Crates σ} {native : Native}

theorem single_authenticate (services : Services) (authorization : Bytes) :
    Single (fun _ => True) (Webhook.authenticate services authorization) := by
  have hverify (text : Bytes) (firstDot secondDot : ℕ) :
      Single (fun _ => True) (Webhook.verify services text firstDot secondDot) := by
    refine single_done_bind fun header => single_done_bind fun alg => single_done_bind fun _ =>
      single_done_bind fun claims => single_done_bind fun issuer => single_done_bind fun _ => ?_
    apply (single_perform issuer).bind_silent
    exact fun secret => callsAtMost_bind_done fun _ => callsAtMost_bind_done fun expected =>
      callsAtMost_bind_done fun actual => callsAtMost_bind_done fun _ => callsAtMost_done 0 _
  simp only [Webhook.authenticate]
  split_ifs
  · exact Single.done _
  · split
    · split_ifs
      · exact Single.done _
      · exact hverify _ _ _
    · exact Single.done _

theorem single_receiveAt (services : Services) (clock : SystemClock) (now : TimePoint)
    (body authorization : Bytes) :
    Single (fun _ => True) (Webhook.receiveAt services clock now body authorization) :=
  (single_authenticate services authorization).bind (fun _ => rfl) fun _ _ _ => trivial

/-- The receiver ends in UTF-8, whatever its keys are. -/
theorem ends_receiveAt (htexts : CApi.Texts native) {provider : Bytes → Outcome Bytes}
    (hprovider : ∀ key, CApi.Ends (fun _ => True) (provider key)) (body authorization : Bytes) :
    CApi.Ends (fun event => CApi.Plain (eventValue event))
      ((Webhook.receiveAt (CApi.services native) native.surroundings.clock
        native.surroundings.now body authorization).result provider) := by
  rw [Webhook.receiveAt, result_bind]
  refine (CApi.ends_authenticate htexts hprovider authorization).bind fun claims _ => ?_
  exact (CApi.ends_checkTimes _ _ claims).bind fun _ _ =>
    (CApi.ends_checkBody htexts claims body).bind fun _ _ => CApi.ends_parseBody htexts body

/-- The callback carries out the lookup of a key. -/
theorem provideKey_eq {key json : Bytes} (h : native.print (CApi.keyRequest key) = some json) :
    CApi.provideKey native true key =
      .call (.callback json) fun reply => .done (reply >>= fun reply =>
        CApi.readReply native reply >>= fun response => CApi.string response "secret") := by
  rw [CApi.provideKey, CApi.exchange, if_pos rfl, CApi.encode_ok.mpr h]
  change Program.call _ _ = _
  congr 1
  funext reply
  cases reply with
  | error e => rfl
  | ok reply =>
      change Program.onValue _ (CApi.readReply native reply) = Program.done _
      change _ = Program.done (CApi.readReply native reply >>= fun response =>
        CApi.string response "secret")
      cases CApi.readReply native reply <;> rfl

variable {library : NativeLibrary} (hcrates : crates.Faithful) (hsound : library.Sound)
include hcrates hsound

/-- The lookup of a key over the callback. -/
theorem carried_key {key : Bytes} (hkey : Utf8.Valid key) {closures : Closures}
    (hgiven : closures.key = true) (host : Host κ π)
    (hsecrets : ∀ secret, host.key key = .ok secret → Utf8.Valid (secret.getD [])) :
    Carried crates closures host (CApi.provideKey library.native true key) (host.key key)
      (fun secret => .object (secretMembers secret)) (acceptSecret crates) := by
  obtain ⟨json, members, hjson, hread⟩ := readTagged_key hsound.prints hkey
  refine ⟨json, _, provideKey_eq hjson, ?_, fun secret hsecret => ?_, rfl⟩
  · rw [respond]
    simp only [Host.callback, hcrates.requestFromSlice json members _ hread,
      hgiven, Bool.not_true, Bool.false_eq_true, if_false]
    rfl
  · have hone : [ascii "secret"].Nodup := List.nodup_singleton _
    let pairs := [(ascii "secret", secret.getD [])]
    have hpairs : ∀ p ∈ pairs, Utf8.Valid p.1 ∧ Utf8.Valid p.2 :=
      List.forall_mem_singleton.mpr ⟨Utf8.valid_ascii (by decide), hsecrets secret hsecret⟩
    have hmembers : Json.object (secretMembers secret) =
        .object [(ascii "secret", .string (secret.getD []))] := rfl
    obtain ⟨text, htext, hread⟩ :=
      readReply_written hcrates hsound.reads pairs hone hpairs rfl hmembers
    refine ⟨text, htext, ?_⟩
    rw [acceptSecret]
    by_cases hlong : encodedLength crates (.object (secretMembers secret)) > maxInt
    · rw [if_pos hlong] at hread ⊢
      rw [hread]
      rfl
    · rw [if_neg hlong] at hread ⊢
      obtain ⟨obj, hobj, hlookup⟩ := hread
      have hfield := congrArg (·.getD .notSet) (hlookup (ascii "secret"))
      rw [hobj]
      exact CApi.string_ok.mpr (Or.inr (string?_eq_some.mpr hfield))

end Asking

section Refinement

variable {σ κ π : Type} {crates : Crates σ} {receiver : WebhookReceiver κ π} {body : Bytes}
  {authorization : Text} {fromValue : Json → Except σ WebhookEvent}

theorem sendable_keys (keys : Keys κ π) : Sendable (.object keys.members) := by
  cases keys with
  | secrets map => exact sendable_attributes map
  | provider provide =>
      have hdepth : (Json.object []).depth ≤ 3 := by decide
      exact ⟨⟨List.nodup_nil, trivial⟩, trivial, hdepth⟩

theorem valid_ask {keys : Keys κ π} {key : Bytes} {secret : Option Bytes}
    (h : keys.ask key = .ok secret) : Utf8.Valid (secret.getD []) := by
  cases keys with
  | secrets map =>
      obtain rfl := UserOutcome.ok.inj h
      exact Utf8.valid_nil
  | provider provide =>
      rw [Keys.ask] at h
      cases hprovide : provide key with
      | ok text =>
          rw [hprovide] at h
          obtain rfl := UserOutcome.ok.inj h
          cases text with
          | none => exact Utf8.valid_nil
          | some text => exact text.valid
      | err e =>
          rw [hprovide] at h
          cases h
      | panic payload =>
          rw [hprovide] at h
          cases h

/-- The native module over a map of secrets. -/
theorem execution_secrets {text : Bytes} {options : Fields} {map : TextMap}
    (hasks : CApi.AsksWebhook receiver.native.native (some (.ofText text)) text.length options body
      authorization.bytes)
    (hread : ReadBack options (receiver.optionMembers crates body authorization))
    (hkeys : receiver.keys = .secrets map) :
    receiver.native.execution ⟨false, false⟩ text =
      .done ((CApi.receiver receiver.native.native map.map body authorization.bytes).map
        eventValue) := by
  have hmembers : receiver.keys.members = map.map.entries.map fun e => (e.1, .string e.2) := by
    rw [hkeys]
    rfl
  have hnames : (receiver.keys.members.map Prod.fst).Nodup :=
    (sendable_keys receiver.keys).distinct.1
  obtain ⟨entries, hobject, hentries⟩ := hread.object "secrets" rfl hnames
  rw [hmembers] at hentries
  obtain ⟨pairs, rfl, hperm⟩ := hentries.strings
  have huse : CApi.boolean options "use_key_provider" = .ok false := by
    rw [hread.boolean "use_key_provider" rfl, hkeys]
    rfl
  have harguments : CApi.receiveArguments receiver.native.native options =
      .ok (body, authorization.bytes) := by
    unfold CApi.receiveArguments
    rw [hasks.body, hasks.authorization]
    cases receiver.native.native.bodyFirst <;> rfl
  rw [NativeLibrary.execution, CApi.executeInput_webhook hasks, CApi.receive, huse]
  simp only [Program.liftM_eq, Program.done_ok_bind, Bool.false_eq_true, if_false, hobject,
    CApi.stringMap_ok rfl hperm, CApi.receiveWith, harguments]
  change (Program.translate (fun key => Program.done (.ok (Webhook.keyMap map.map key))) _ >>= _) =
    _
  rw [translate_done, CApi.receiver]
  cases Program.result _ _ <;> rfl

/-- The native module over a closure. -/
theorem execution_provider {text : Bytes} {options : Fields}
    (hasks : CApi.AsksWebhook receiver.native.native (some (.ofText text)) text.length options body
      authorization.bytes)
    (hread : ReadBack options (receiver.optionMembers crates body authorization))
    (hkeys : receiver.keys.isProvider = true) :
    receiver.native.execution ⟨false, true⟩ text =
      (Webhook.receiveAt (CApi.services receiver.native.native)
        receiver.native.native.surroundings.clock receiver.native.native.surroundings.now body
        authorization.bytes).translate (CApi.provideKey receiver.native.native true) >>=
        fun event => pure (eventValue event) := by
  have huse : CApi.boolean options "use_key_provider" = .ok true := by
    rw [hread.boolean "use_key_provider" rfl, hkeys]
  have harguments : CApi.receiveArguments receiver.native.native options =
      .ok (body, authorization.bytes) := by
    unfold CApi.receiveArguments
    rw [hasks.body, hasks.authorization]
    cases receiver.native.native.bodyFirst <;> rfl
  rw [NativeLibrary.execution, CApi.executeInput_webhook hasks, CApi.receive, huse]
  simp only [Program.liftM_eq, Program.done_ok_bind, if_true, CApi.receiveWith, harguments]
  rfl

theorem ends_acceptSecret (crates : Crates σ) (secret : Option Bytes) :
    CApi.Ends (fun _ => True) (acceptSecret crates secret) := by
  unfold acceptSecret
  split_ifs
  · exact CApi.ends_raise (Utf8.valid_ascii (by decide))
  · trivial

variable (hcrates : crates.Faithful) (hsound : receiver.native.Sound)
include hcrates hsound

/-- A webhook gets to the C ABI. -/
theorem asks_webhook (hfits : Fits crates (.object (receiver.inputMembers crates body
    authorization))) :
    ∃ text options,
      crates.toVec (.object (receiver.inputMembers crates body authorization)) = .ok text ∧
      CApi.AsksWebhook receiver.native.native (some (.ofText text)) text.length options body
        authorization.bytes ∧
      ReadBack options (receiver.optionMembers crates body authorization) := by
  have hkeys := sendable_keys receiver.keys
  have hbody : Utf8.Valid (crates.encode body) := by
    rw [hcrates.encode]
    exact CApi.valid_base64UrlEncode body
  have hoptions : ((receiver.optionMembers crates body authorization).map Prod.fst).Nodup := by
    change (["body", "authorization", "secrets", "use_key_provider"].map ascii).Nodup
    decide
  have hinput : ((receiver.inputMembers crates body authorization).map Prod.fst).Nodup := by
    change (["operation", "options"].map ascii).Nodup
    decide
  have hlimit :
      (Json.object (receiver.inputMembers crates body authorization)).depth ≤ nestingLimit := by
    have hdepth := hkeys.depth
    change max 1 (max (max 1 (max 1 (max (Json.object receiver.keys.members).depth
      (max 1 0))) + 1) 0) + 1 ≤ 16
    omega
  obtain ⟨text, obj, htext, hobj, hread⟩ := parse_toVec hcrates hsound.reads
    ⟨hinput, trivial, ⟨hoptions, trivial, trivial, hkeys.distinct, trivial, trivial⟩, trivial⟩
    ⟨⟨Utf8.valid_ascii (by decide), Utf8.valid_ascii (by decide)⟩,
      ⟨Utf8.valid_ascii (by decide), ⟨Utf8.valid_ascii (by decide), hbody⟩,
        ⟨Utf8.valid_ascii (by decide), authorization.valid⟩,
        ⟨Utf8.valid_ascii (by decide), hkeys.valid⟩, ⟨Utf8.valid_ascii (by decide), trivial⟩,
        trivial⟩, trivial⟩
    hlimit
  obtain ⟨options, hobject, hreadOptions⟩ := hread.object "options" rfl hoptions
  have hdecode : CApi.decodeBody options "body" = .ok body := by
    rw [CApi.decodeBody, hreadOptions.string "body" rfl, hcrates.encode]
    exact Crypto.decode_base64UrlEncode body
  exact ⟨text, options, htext, ⟨⟨text, obj, readInput_ofText (hfits text htext), hobj,
    hread.string "operation" rfl, hobject⟩, hdecode, hreadOptions.string "authorization" rfl⟩,
    hreadOptions⟩

/-- An invocation for a webhook ends as the C++ receiver over the keys does, and frees what the
module returned. -/
theorem invoke_webhook (allocator : Allocator) (hfits : Fits crates
    (.object (receiver.inputMembers crates body authorization))) :
    ∃ exit pointer, receiver.invoke crates allocator body authorization = (exit, [pointer]) ∧
      Meets eventValue (receiver.keys.receive crates receiver.native.native body
        authorization.bytes) exit := by
  obtain ⟨text, options, htext, hasks, hread⟩ := asks_webhook hcrates hsound hfits
  have hreceiver (provider : Bytes → Outcome Bytes)
      (h : ∀ key, CApi.Ends (fun _ => True) (provider key)) :=
    ends_receiveAt hsound.texts h body authorization.bytes
  cases hkeys : receiver.keys with
  | secrets map =>
      have hpresentable : Presentable
          ((CApi.receiver receiver.native.native map.map body authorization.bytes).map
            eventValue) :=
        presentable_map ((hreceiver (fun key => .ok (Webhook.keyMap map.map key))
          fun _ => trivial).map fun _ h => h) CApi.encodable_event
      obtain ⟨surfaced, pointer, hsurfaces, hinvoke⟩ :=
        NativeLibrary.invoke_done (receiver.host allocator) hcrates hsound.prints hsound.integers
          htext (execution_secrets hasks hread hkeys) hpresentable
      rw [WebhookReceiver.invoke, hkeys]
      exact ⟨_, pointer, hinvoke, meets_of_surfaces hsurfaces⟩
  | provider provide =>
      have hprovider : receiver.keys.isProvider = true := by
        rw [hkeys]
        rfl
      have hgiven : ((⟨false, true⟩ : Closures).transport || (⟨false, true⟩ : Closures).key) =
          true := rfl
      rw [Keys.receive, ← hkeys, WebhookReceiver.invoke, hprovider]
      refine invoke_carried hcrates hsound htext (single_receiveAt _ _ _ _ _) hgiven
        (execution_provider hasks hread hprovider) (fun secret => .object (secretMembers secret))
        ?_ (fun _ _ secret _ _ => ends_acceptSecret crates secret) (fun reply hreply => ?_)
        CApi.encodable_event
      · intro key next hcall
        have hissuer (claims issuer : Bytes) (hclaim : Webhook.jsonStringField
            (CApi.services receiver.native.native).parseStruct claims "iss" = .ok issuer) :
            Utf8.Valid issuer := by
          have hends := CApi.ends_jsonStringField hsound.texts claims "iss"
          rw [hclaim] at hends
          exact hends
        have hcalls := Webhook.callsAtMost_receiveAt _ hissuer
          receiver.native.native.surroundings.clock receiver.native.native.surroundings.now body
          authorization.bytes
        rw [hcall] at hcalls
        exact carried_key hcrates hsound hcalls.1 rfl (receiver.host allocator)
          fun secret hsecret => valid_ask hsecret
      · exact (hreceiver _ fun _ => hreply).map fun _ h => h

/-- The receiver of the binding returns what the C++ receiver over the same keys ends in, and frees
what the native module returned once. -/
theorem receive_refines (hreads : ReadsEvents fromValue) (allocator : Allocator)
    (hfits : Fits crates (.object (receiver.inputMembers crates body authorization))) :
    receiver.receive crates allocator fromValue body authorization =
        receiver.keys.receive crates receiver.native.native body authorization.bytes ∧
      (receiver.invoke crates allocator body authorization).2.length = 1 := by
  obtain ⟨exit, pointer, hinvoke, hmeets⟩ := invoke_webhook hcrates hsound allocator hfits
  rw [WebhookReceiver.receive, hinvoke]
  refine ⟨?_, rfl⟩
  revert hmeets
  cases receiver.keys.receive crates receiver.native.native body authorization.bytes with
  | ok event =>
      rintro ⟨item, rfl, hitem⟩
      have hdistinct := distinct_agrees (agrees_ordered hitem)
        (CApi.wellFormed_eventFields event)
      obtain ⟨members, hmembers, hagrees⟩ := agrees_struct.mp (agrees_ordered hitem)
      rw [hmembers] at hdistinct
      have hevent := hreads members event hdistinct (readEvent_agrees hagrees)
      have hending : (Exit.returned (.ok item.ordered) : Exit σ κ π).ending =
          .ok (.object members) := congrArg Except.ok hmembers
      rw [hending]
      change (match fromValue (.object members) with
        | .ok event => (.ok event : Ending σ κ π WebhookEvent)
        | .error e => .error (.inr (.json e))) = _
      rw [hevent]
  | error failure =>
      intro hmeets
      cases failure with
      | inl payload =>
          obtain rfl : exit = .resumed payload := hmeets
          rfl
      | inr e =>
          obtain rfl : exit = .returned (.error e) := hmeets
          rfl

end Refinement

section Sample

/-- A deserialization that reads events by the names of their fields. -/
def sampleFromValue : Json → Except Unit WebhookEvent
  | .object members => (readEvent members).elim (.error ()) .ok
  | _ => .error ()

theorem readsEvents_sampleFromValue : ReadsEvents sampleFromValue := by
  intro members event _ h
  simp only [sampleFromValue, h, Option.elim_some]

/-- A receiver over a closure that knows one key. -/
def sampleReceiver : WebhookReceiver ℕ ℕ where
  native := sampleLibrary
  keys := .provider fun key =>
    .ok (if key = ascii "key" then some sampleSecret else none)

def sampleAuthorization : Text := ⟨Webhook.sampleJwt, by decide +kernel⟩

theorem receive_refines_sample :
    sampleReceiver.receive referenceCrates bumpAllocator sampleFromValue Webhook.sampleBody
        sampleAuthorization =
        sampleReceiver.keys.receive referenceCrates CApi.sampleNative Webhook.sampleBody
          Webhook.sampleJwt ∧
      (sampleReceiver.invoke referenceCrates bumpAllocator Webhook.sampleBody
        sampleAuthorization).2.length = 1 := by
  have hfits : Fits referenceCrates (.object (sampleReceiver.inputMembers referenceCrates
      Webhook.sampleBody sampleAuthorization)) := by
    intro text h
    obtain rfl := Except.ok.inj h
    decide +kernel
  exact receive_refines faithful_referenceCrates sound_sampleLibrary readsEvents_sampleFromValue
    bumpAllocator hfits

end Sample

end LivekitServer.RustBinding

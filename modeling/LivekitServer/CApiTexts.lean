import LivekitServer.Base64
import LivekitServer.CApiEnvelope
import LivekitServer.EscapeJson

/-!
# Texts of the C ABI

JSON carries strings that are UTF-8 and an `int`. `Ends` says of a computation that it ends in
such an error or in a value of some kind. The protobuf runtime hands out UTF-8 only, and then so
does every operation of the C ABI.
-/

namespace LivekitServer.CApi
open Value

/-- An error that a failure envelope can carry as it is. -/
structure Printable (e : Thrown) : Prop where
  message : Utf8.Valid (asError e).message
  twirpCode : Utf8.Valid (asError e).twirpCode
  httpStatus : InInt32 (asError e).httpStatus

/-- Strings that are UTF-8, and no numbers. -/
def Plain (value : Value) : Prop := All Utf8.Valid (fun _ => False) value

section Ends

variable {α β : Type} {Q : α → Prop} {R : β → Prop}

/-- A value with `Q`, or a printable error. -/
def Ends (Q : α → Prop) : Outcome α → Prop
  | .ok a => Q a
  | .error e => Printable e

theorem printable_raise {code : ErrorCode} {message : Bytes} (h : Utf8.Valid message) :
    Printable (.error ⟨code, message, 0, []⟩) := by
  have hstatus : InInt32 0 := by decide
  exact ⟨h, Utf8.valid_nil, hstatus⟩

theorem ends_raise {code : ErrorCode} {message : Bytes} (h : Utf8.Valid message) :
    Ends Q (raise code message) := printable_raise h

theorem Ends.bind {o : Outcome α} {f : α → Outcome β} (h : Ends Q o)
    (hf : ∀ a, Q a → Ends R (f a)) : Ends R (o >>= f) := by
  cases o with
  | error e => exact h
  | ok a => exact hf a h

theorem Ends.map {o : Outcome α} {f : α → β} (h : Ends Q o) (hf : ∀ a, Q a → R (f a)) :
    Ends R (o.map f) := by
  cases o with
  | error e => exact h
  | ok a => exact hf a h

theorem Ends.mono {P : α → Prop} {o : Outcome α} (h : Ends Q o) (hQ : ∀ a, Q a → P a) :
    Ends P o := by
  cases o with
  | error e => exact h
  | ok a => exact hQ a h

/-- A check, and the rest. -/
theorem ends_check {c : Prop} [Decidable c] {code : ErrorCode} {message : Bytes}
    {rest : Outcome α} (hmessage : Utf8.Valid message) (hrest : Ends Q rest) :
    Ends Q (if c then (raise code message : Outcome Unit) >>= fun _ => rest else rest) := by
  by_cases hc : c
  · rw [if_pos hc]
    exact ends_raise hmessage
  · rw [if_neg hc]
    exact hrest

theorem ends_throwIf {condition : Bool} {code : ErrorCode} {message : String}
    (h : Utf8.Valid (ascii message)) : Ends (fun _ => True) (throwIf condition code message) := by
  cases condition with
  | false => trivial
  | true => exact ends_raise h

end Ends

section Conveying

/-- The output carries the value, or the error, unchanged. -/
def Output.Conveys (output : Output) : Except Thrown Value → Prop
  | .ok value => ∃ json members item, output = ⟨some (json ++ [0]), json.length⟩ ∧
      Json.parse json = some (.object members) ∧
      members.Perm [(ascii "value", item), (ascii "ok", .bool true)] ∧
      Agrees (· = ·) PrintedAs value item
  | .error e => ∃ json members code httpStatus, output = ⟨some (json ++ [0]), json.length⟩ ∧
      Json.parse json = some (.object members) ∧
      members.Perm [(ascii "ok", .bool false), (ascii "code", .number code),
        (ascii "http_status", .number httpStatus),
        (ascii "twirp_code", .string (asError e).twirpCode),
        (ascii "message", .string (asError e).what)] ∧
      code.value = (asError e).code.value ∧ httpStatus.value = (asError e).httpStatus

variable {native : Native} (hprint : PrintsJson native.print)
include hprint

theorem conveys_finish {result : Except Thrown Value} (h : Ends Plain result)
    (hencodable : ∀ value, result = .ok value → Encodable value) :
    (finish native Faults.none result).Conveys result := by
  cases result with
  | ok value =>
      have hvalid : ∀ name ∈ [ascii "value", ascii "ok"], Utf8.Valid name := by decide
      rw [List.forall_mem_cons, List.forall_mem_singleton] at hvalid
      have hvalue : All Utf8.Valid (fun q => ∃ k : ℤ, InInt32 k ∧ q = k) value :=
        All.mono (fun _ h => h) (fun _ h => h.elim) h
      have hwf := (hencodable value rfl).wellFormed
      obtain ⟨json, hjson, -⟩ := hprint.total _ (wellFormed_success hwf)
        ⟨⟨hvalid.1, hvalue⟩, ⟨hvalid.2, trivial⟩, trivial⟩ (depth_envelope hencodable)
      obtain ⟨members, item, hparse, hperm, hitem⟩ := success_print hprint hwf hjson
      refine ⟨json, members, item, ?_, hparse, hperm, hitem.exact h⟩
      rw [finish_none, envelope, hjson]
      rfl
  | error e =>
      obtain ⟨json, members, houtput, hparse, code, httpStatus, twirpCode, message, hperm, hcode,
        hstatus, htwirp, hmessage⟩ :=
        reporting_finish hprint h.message h.twirpCode h.httpStatus
      have hsmall : SmallInteger (asError e).httpStatus := by
        have hrange := h.httpStatus
        unfold InInt32 at hrange
        unfold SmallInteger
        omega
      rw [htwirp h.twirpCode, hmessage h.message.takeWhile_ne_zero] at hperm
      exact ⟨json, members, code, httpStatus, houtput, hparse, hperm, hcode,
        hstatus _ hsmall rfl⟩

end Conveying

section Readers

variable {α : Type} {obj : Fields} {name : String}

theorem ends_requireKind (get : Value → Option α) (value : Value) :
    Ends (fun _ => True) (requireKind get value) := by
  unfold requireKind
  cases get value with
  | some a => trivial
  | none => exact ends_raise (Utf8.valid_ascii (by decide))

theorem ends_readField (missing : α) (get : Value → Option α) :
    Ends (fun _ => True) (readField obj name missing get) := by
  unfold readField
  cases field obj name with
  | notSet => trivial
  | _ => exact ends_requireKind get _

theorem ends_integer : Ends (fun _ => True) (integer obj name) := by
  refine (ends_readField [] string?).bind fun text _ => ?_
  rcases stoll text with - | ⟨n, - | ⟨b, rest⟩⟩
  · exact ends_raise (Utf8.valid_ascii (by decide))
  · trivial
  · exact ends_raise (Utf8.valid_ascii (by decide))

theorem ends_base64UrlDecode (text : Bytes) :
    Ends (fun _ => True) (Crypto.base64UrlDecode text) := by
  rcases Crypto.base64UrlDecode_cases text with ⟨bytes, hbytes⟩ | ⟨message, hmem, hmessage⟩
  · rw [hbytes]
    trivial
  · have hvalid : ∀ message ∈ [ascii "JWT contains invalid base64url",
        ascii "JWT contains malformed base64url"], Utf8.Valid message := by decide
    rw [hmessage]
    exact ends_raise (hvalid message hmem)

end Readers

section Services

/-- What the runtime hands out is UTF-8, and a failure of it is a printable error. -/
structure Texts (native : Native) : Prop where
  struct : ∀ text fields, native.surroundings.parseStruct text = some fields →
    All Utf8.Valid (fun _ => True) (.struct fields)
  fromJson : ∀ type json status, native.protobuf.fromJson type json = .error status →
    Utf8.Valid status
  toJson : ∀ type message json, native.protobuf.toJson type message = .ok json → Utf8.Valid json
  toJson_status : ∀ type message status, native.protobuf.toJson type message = .error status →
    Utf8.Valid status
  event : ∀ body event, Webhook.parseBody (services native) body = .ok event →
    Plain (.struct (eventFields event))
  event_status : ∀ body status, native.parseEvent body = .error status → Utf8.Valid status
  random : Ends (fun _ => True) native.surroundings.random
  nonce : Ends (fun _ => True) native.surroundings.nonce

end Services

section Tokens

theorem ends_sha256 (backend : Crypto.Backend) (value : Bytes) :
    Ends (fun _ => True) (Crypto.sha256 backend value) := by
  unfold Crypto.sha256
  cases backend.evpDigest value with
  | none => exact ends_raise (Utf8.valid_ascii (by decide))
  | some digest =>
      change Ends _ (ite _ _ _)
      split_ifs
      · trivial
      · exact ends_raise (Utf8.valid_ascii (by decide))

theorem ends_hmacSha256 (backend : Crypto.Backend) (secret value : Bytes) :
    Ends (fun _ => True) (Crypto.hmacSha256 backend secret value) := by
  unfold Crypto.hmacSha256
  cases backend.evpMac secret value with
  | none => exact ends_raise (Utf8.valid_ascii (by decide))
  | some digest =>
      change Ends _ (ite _ _ _)
      split_ifs
      · trivial
      · exact ends_raise (Utf8.valid_ascii (by decide))

theorem ends_tokenFor {τ : Type} (surroundings : Surroundings) (context : ClientContext τ)
    (grant : RequestGrant) :
    Ends (fun _ => True) (ClientContext.tokenFor surroundings context grant) := by
  unfold ClientContext.tokenFor AccessToken.toJwt
  split_ifs
  · trivial
  · exact ends_raise (Utf8.valid_ascii (by decide))
  · have hmac := ends_hmacSha256 surroundings.backend
      (ClientContext.tokenOf context.apiKey context.apiSecret grant).apiSecret
      ((ClientContext.tokenOf context.apiKey context.apiSecret grant).unsignedToken
        surroundings.clock surroundings.loc surroundings.now)
    revert hmac
    cases Crypto.hmacSha256 _ _ _ with
    | error e => exact id
    | ok signature => exact fun _ => trivial

end Tokens

section Api

variable {native : Native}

theorem ends_normalizeUrl (url : Bytes) :
    Ends (fun _ => True) (ClientContext.normalizeUrl url) := by
  unfold ClientContext.normalizeUrl
  simp only
  split_ifs
  all_goals first | trivial | exact ends_raise (Utf8.valid_ascii (by decide))

theorem ends_new {create : Outcome Transport} {options : ApiOptions Transport}
    {transport : Transport} (h : options.transport = some transport) :
    Ends (fun _ => True) (ClientContext.new native.env create options) := by
  unfold ClientContext.new
  refine ends_check (Utf8.valid_ascii (by decide)) ((ends_normalizeUrl _).bind fun url _ => ?_)
  refine ends_check (Utf8.valid_ascii (by decide)) (ends_check (Utf8.valid_ascii (by decide)) ?_)
  rw [h]
  trivial

/-- A method of the table has messages of ASCII names. -/
theorem valid_findMethod {operation : Bytes} {method : Method}
    (h : findMethod operation = some method) :
    Utf8.Valid (ascii method.request) ∧ Utf8.Valid (ascii method.response) := by
  have hall : ∀ row ∈ dispatchTable,
      Utf8.Valid (ascii row.2.request) ∧ Utf8.Valid (ascii row.2.response) := by
    simp only [dispatchTable, List.forall_mem_cons]
    repeat' apply And.intro
    all_goals
      first | exact Utf8.valid_ascii (by decide) | exact fun _ h => absurd h List.not_mem_nil
  obtain ⟨row, hrow, rfl⟩ := Option.map_eq_some_iff.mp h
  exact hall row (List.mem_of_find?_eq_some hrow)

variable (htexts : Texts native)
include htexts

theorem ends_fromModel {type : String} (htype : Utf8.Valid (ascii type)) (json : Bytes) :
    Ends (fun _ => True) (fromModel native.protobuf type json) := by
  unfold fromModel
  cases hjson : native.protobuf.fromJson type json with
  | ok message => trivial
  | error status =>
      have hstatus := htexts.fromJson type json status hjson
      have hinvalid : Utf8.Valid (ascii "invalid ") := Utf8.valid_ascii (by decide)
      have hcolon : Utf8.Valid (ascii " JSON: ") := Utf8.valid_ascii (by decide)
      exact ends_raise (((hinvalid.append htype).append hcolon).append hstatus)

theorem ends_toModel {type : String} (htype : Utf8.Valid (ascii type))
    (message : native.protobuf.Message) :
    Ends Utf8.Valid (toModel native.protobuf type message) := by
  unfold toModel
  cases hjson : native.protobuf.toJson type message with
  | ok json => exact htexts.toJson type message json hjson
  | error status =>
      have hstatus := htexts.toJson_status type message status hjson
      have hinvalid : Utf8.Valid (ascii "could not encode ") := Utf8.valid_ascii (by decide)
      have hcolon : Utf8.Valid (ascii " as JSON: ") := Utf8.valid_ascii (by decide)
      exact ends_raise (((hinvalid.append htype).append hcolon).append hstatus)

theorem valid_jsonStringField (json : Bytes) (name : String) :
    Utf8.Valid (ClientContext.jsonStringField native.surroundings json name) := by
  unfold ClientContext.jsonStringField
  cases hparse : native.surroundings.parseStruct json with
  | none => exact Utf8.valid_nil
  | some fields =>
      have hall := allFields_iff.mp (htexts.struct json fields hparse)
      cases hlookup : fields.lookup (ascii name) with
      | none => simp only [hlookup]; exact Utf8.valid_nil
      | some v =>
          simp only [hlookup]
          cases v with
          | string value => exact (hall _ (AssocList.mem_of_lookup hlookup)).2
          | _ => exact Utf8.valid_nil

theorem ends_callResponse {ρ : Type} (parse : Bytes → Option ρ) {response : HttpResponse}
    (hstatus : InInt32 response.statusCode) :
    Ends (fun _ => True) (ClientContext.callResponse native.surroundings parse response) := by
  unfold ClientContext.callResponse
  by_cases hfailed : response.statusCode < 200 ∨ response.statusCode ≥ 300
  · rw [if_pos hfailed]
    refine ⟨?_, valid_jsonStringField htexts _ _, hstatus⟩
    change Utf8.Valid (ite _ _ _)
    split_ifs
    · have hreturned : Utf8.Valid (ascii "LiveKit server returned HTTP ") :=
        Utf8.valid_ascii (by decide)
      exact hreturned.append (AccessToken.valid_signed response.statusCode)
    · exact valid_jsonStringField htexts _ _
  · rw [if_neg hfailed]
    cases parse response.body with
    | none => exact ends_raise (Utf8.valid_ascii (by decide))
    | some result => trivial

theorem ends_callRequest {τ : Type} (context : ClientContext τ) (service method : String)
    (serialized : Option Bytes) (grant : RequestGrant) :
    Ends (fun _ => True)
      (ClientContext.callRequest native.surroundings context service method serialized grant) := by
  refine (ends_tokenFor _ _ _).bind fun token _ => htexts.random.bind fun random _ => ?_
  cases serialized with
  | none => exact ends_raise (Utf8.valid_ascii (by decide))
  | some body => trivial

variable {outside : ∀ _ : Transport × HttpRequest, Outcome HttpResponse}
  (houtside : ∀ sent, Ends (fun response => InInt32 response.statusCode) (outside sent))
include houtside

theorem ends_invoke (method : Method) (context : ClientContext Transport)
    (request : native.protobuf.Message) :
    Ends (fun _ => True) ((method.invoke native.surroundings native.protobuf context
      request).result outside) := by
  have hprepare : Ends (fun _ => True)
      (method.prepare native.surroundings native.protobuf request) := by
    unfold Method.prepare
    split_ifs
    · exact htexts.nonce.map fun _ _ => trivial
    · trivial
  rw [Method.invoke, Program.result_bind]
  refine hprepare.bind fun prepared _ => ?_
  rw [ClientContext.call, Program.result_bind]
  refine (ends_callRequest htexts _ _ _ _ _).bind fun request _ => ?_
  rw [Program.result_bind]
  exact (houtside _).bind fun response hstatus => ends_callResponse htexts _ hstatus

theorem ends_invokeModel {method : Method} (hrequest : Utf8.Valid (ascii method.request))
    (hresponse : Utf8.Valid (ascii method.response)) (context : ClientContext Transport)
    (json : Bytes) :
    Ends Utf8.Valid ((method.invokeModel native.surroundings native.protobuf context
      json).result outside) := by
  rw [Method.invokeModel, Program.result_bind]
  refine (ends_fromModel htexts hrequest json).bind fun request _ => ?_
  rw [Program.result_bind]
  exact (ends_invoke htexts houtside method context request).bind fun response _ =>
    ends_toModel htexts hresponse response

theorem ends_getDispatchModel (context : ClientContext Transport) (dispatchId room : Bytes) :
    Ends (fun result => ∀ json, result = some json → Utf8.Valid json)
      ((AgentDispatchClient.getDispatchModel native.surroundings native.protobuf context
        dispatchId room).result outside) := by
  rw [AgentDispatchClient.getDispatchModel, Program.result_bind]
  refine (ends_invoke htexts houtside _ context _).bind fun response _ => ?_
  cases native.protobuf.agentDispatches response with
  | nil => exact fun _ h => by cases h
  | cons first rest =>
      change Ends _ ((Program.done _ >>= _ : ClientContext.Sending Transport _).result outside)
      rw [Program.result_bind]
      refine (ends_toModel htexts (Utf8.valid_ascii (by decide)) first).bind fun json hjson => ?_
      rintro _ ⟨⟩
      exact hjson

theorem ends_callApi (context : ClientContext Transport) (operation : Bytes) (input : Fields) :
    Ends Plain
      ((callApi native context operation input).result outside) := by
  unfold callApi
  split_ifs
  · rw [Program.result_bind]
    refine (ends_readField [] string?).bind fun dispatchId _ => ?_
    rw [Program.result_bind]
    refine (ends_readField [] string?).bind fun room _ => ?_
    rw [Program.result_bind]
    refine (ends_getDispatchModel htexts houtside context dispatchId room).bind fun result h => ?_
    cases result with
    | none => trivial
    | some json => exact h json rfl
  · rw [Program.result_bind]
    refine (ends_readField [] string?).bind fun request _ => ?_
    cases hmethod : findMethod operation with
    | none => exact ends_raise (Utf8.valid_ascii (by decide))
    | some method =>
        obtain ⟨hrequest, hresponse⟩ := valid_findMethod hmethod
        change Ends _ ((_ >>= _ : ClientContext.Sending Transport _).result outside)
        rw [Program.result_bind]
        exact (ends_invokeModel htexts houtside hrequest hresponse context request).bind
          fun json hjson => hjson

/-- Over a transport of its own, a client ends in UTF-8. -/
theorem ends_executeApi {operation : Bytes} {input options : Fields}
    (h : boolean options "use_transport" = .ok true) :
    Ends Plain
      ((executeApi native operation input options).result outside) := by
  rw [executeApi, Program.result_bind]
  have htransport : Ends (fun api => api.transport = some .callback) (apiOptions options) := by
    refine (ends_readField [] string?).bind fun _ _ => (ends_readField [] string?).bind fun _ _ =>
      (ends_readField [] string?).bind fun _ _ => (ends_readField [] string?).bind fun _ _ =>
      ends_integer.bind fun _ _ => ?_
    rw [h]
    rfl
  refine htransport.bind fun api hapi => ?_
  rw [Program.result_bind]
  exact (ends_new hapi).bind fun context _ => ends_callApi htexts houtside context operation input

end Api

section Sample

theorem texts_sampleNative : Texts sampleNative where
  struct text fields h := all_readUtf8Struct h
  fromJson type json status h := by
    change (if json = _ then Except.ok _ else Except.error _) = _ at h
    split_ifs at h
    obtain rfl := Except.error.inj h
    exact Utf8.valid_ascii (by decide)
  toJson type (room : Bytes) json h := by
    change (if Utf8.Valid room then (if room = [] then _ else _) else _) = _ at h
    split_ifs at h with hroom hempty
    · obtain rfl := Except.ok.inj h
      exact Utf8.valid_ascii (by decide)
    · obtain rfl := Except.ok.inj h
      exact ((Utf8.valid_ascii (by decide)).append hroom).append (Utf8.valid_ascii (by decide))
  toJson_status type (room : Bytes) status h := by
    change (if Utf8.Valid room then (if room = [] then _ else _) else _) = _ at h
    split_ifs at h with hroom hempty
    obtain rfl := Except.error.inj h
    exact Utf8.valid_ascii (by decide)
  event body event h := by
    by_cases hbody : body = Webhook.sampleBody
    · subst hbody
      have hparse : (services sampleNative).parseEvent Webhook.sampleBody =
          .ok Webhook.sampleMessage := by
        change ite (Webhook.sampleBody = Webhook.sampleBody) _
          (Except.error (ascii "INVALID_ARGUMENT")) = _
        exact if_pos rfl
      rw [Webhook.parseBody, hparse] at h
      obtain rfl := Except.ok.inj h
      have hname {text : List Char} (h : text.all (·.toNat < 0x80)) := Utf8.valid_ascii h
      exact ⟨⟨hname (by decide), hname (by decide)⟩, ⟨hname (by decide), hname (by decide)⟩,
        ⟨hname (by decide), hname (by decide)⟩, ⟨hname (by decide), AccessToken.valid_signed 0⟩,
        trivial⟩
    · have hparse : (services sampleNative).parseEvent body =
          .error (ascii "INVALID_ARGUMENT") := if_neg hbody
      rw [Webhook.parseBody, hparse] at h
      cases h
  event_status body status h := by
    change (if body = _ then Except.ok _ else Except.error _) = _ at h
    split_ifs at h
    obtain rfl := Except.error.inj h
    exact Utf8.valid_ascii (by decide)
  random := trivial
  nonce := trivial

end Sample

end LivekitServer.CApi

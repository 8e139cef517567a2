import LivekitServer.Base64
import LivekitServer.CApiEnvelope

/-!
# Replies of the transport callback

The reply of the callback passes the helpers that read the options of a call, and what it gets
wrong is reported under their codes. `TransportFault` collects the replies that are reported as
transport errors.
-/

namespace LivekitServer.CApi
open Value Program

section Replies

variable (native : Native)

/-- The reply does not report an error. -/
def NoError (obj : Fields) : Prop := field obj "error" = .bool false ∨ field obj "error" = .notSet

/-- The status code is a number, and no response has it. -/
def BadStatus (obj : Fields) : Prop :=
  ∃ text status, field obj "status_code" = .string text ∧ stoll text = some (status, []) ∧
    (status < 100 ∨ status > 599)

/-- The host fails, reports an error or gives a status code that no response has. -/
def TransportFault (reply : HostReply) : Prop :=
  reply.status ≠ 0 ∨ reply.response = none ∨ reply.size > maxInt ∨
    ∃ memory obj, reply.response = some memory ∧
      native.surroundings.parseStruct (memory.read reply.size) = some obj ∧
      (field obj "error" = .bool true ∨ NoError obj ∧ BadStatus obj)

/-- An object with a status code and a body of base64, and without an error. -/
def WellFormedReply (reply : HostReply) : Prop :=
  reply.status = 0 ∧ reply.size ≤ maxInt ∧ ∃ memory obj text status body,
    reply.response = some memory ∧
    native.surroundings.parseStruct (memory.read reply.size) = some obj ∧ NoError obj ∧
    field obj "status_code" = .string text ∧ stoll text = some (status, []) ∧
    100 ≤ status ∧ status ≤ 599 ∧ field obj "body" = .string body ∧ Crypto.IsBase64 body

variable {obj : Fields} {name : String}

theorem boolean_true : boolean obj name = .ok true ↔ field obj name = .bool true := by
  rw [boolean_ok, Carries, bool?_eq_some]
  simp

theorem boolean_false : boolean obj "error" = .ok false ↔ NoError obj := by
  rw [boolean_ok, Carries, bool?_eq_some, NoError]
  simp [or_comm]

/-- A missing numeral is not a number. -/
theorem integer_string {n : ℤ} :
    integer obj name = .ok n ↔ ∃ text, field obj name = .string text ∧ stoll text = some (n, []) := by
  have hempty : stoll [] = none := by decide
  rw [integer_ok]
  constructor
  · rintro ⟨text, ⟨-, rfl⟩ | hsome, hstoll⟩
    · rw [hempty] at hstoll
      cases hstoll
    · exact ⟨text, string?_eq_some.mp hsome, hstoll⟩
  · rintro ⟨text, htext, hstoll⟩
    exact ⟨text, Or.inr (string?_eq_some.mpr htext), hstoll⟩

/-- What the transport makes of a reply. -/
def answer (reply : HostReply) : Outcome HttpResponse :=
  readReply native reply >>= transportResponse

/-- An error that the reply of a sound host cannot be blamed for. -/
def Misattributed (o : Outcome HttpResponse) : Prop :=
  ∃ code message, o = raise code message ∧ (code = .invalidArgument ∨ code = .authentication)

theorem badStatus_iff :
    BadStatus obj ↔ ∃ status, integer obj "status_code" = .ok status ∧
      (status < 100 ∨ status > 599) := by
  simp only [BadStatus, integer_string]
  constructor
  · rintro ⟨text, status, htext, hstoll, hrange⟩
    exact ⟨status, ⟨text, htext, hstoll⟩, hrange⟩
  · rintro ⟨status, ⟨text, htext, hstoll⟩, hrange⟩
    exact ⟨text, status, htext, hstoll, hrange⟩

theorem decodeBody_cases (obj : Fields) (name : String) :
    (∃ body, decodeBody obj name = .ok body) ∨ ∃ code message,
      decodeBody obj name = raise code message ∧
        (code = .invalidArgument ∨ code = .authentication) := by
  unfold decodeBody
  have hread : Settled (readField obj name [] string?) := settled_readField [] string?
  rcases hread with ⟨text, htext⟩ | ⟨message, hmessage⟩
  · rw [string, htext]
    rcases Crypto.base64UrlDecode_cases text with ⟨bytes, hbytes⟩ | ⟨message, -, hmessage⟩
    · exact Or.inl ⟨bytes, hbytes⟩
    · exact Or.inr ⟨.authentication, message, hmessage, Or.inr rfl⟩
  · rw [string, hmessage]
    exact Or.inr ⟨.invalidArgument, message, rfl, Or.inl rfl⟩

theorem transportResponse_badStatus (h : BadStatus obj) :
    transportResponse obj =
      raise .transport (ascii "C ABI transport returned invalid HTTP status") := by
  obtain ⟨status, hstatus, hrange⟩ := badStatus_iff.mp h
  rw [transportResponse, hstatus]
  exact (if_pos hrange).trans rfl

theorem transportResponse_cases (h : ¬BadStatus obj) :
    (∃ response, transportResponse obj = .ok response) ∨
      Misattributed (transportResponse obj) := by
  have hinteger : Settled (integer obj "status_code") := settled_integer
  rcases hinteger with ⟨status, hstatus⟩ | ⟨message, hmessage⟩
  · have hrange : ¬(status < 100 ∨ status > 599) := fun hrange =>
      h (badStatus_iff.mpr ⟨status, hstatus, hrange⟩)
    have hrest : transportResponse obj =
        decodeBody obj "body" >>= fun body => .ok ⟨status, body⟩ := by
      rw [transportResponse, hstatus]
      exact if_neg hrange
    rw [hrest]
    rcases decodeBody_cases obj "body" with ⟨body, hbody⟩ | ⟨code, message, hmessage, hcode⟩
    · exact Or.inl ⟨⟨status, body⟩, by rw [hbody]; rfl⟩
    · exact Or.inr ⟨code, message, by rw [hmessage]; rfl, hcode⟩
  · refine Or.inr ⟨.invalidArgument, message, ?_, Or.inl rfl⟩
    rw [transportResponse, hmessage]
    rfl

variable {native}

theorem replyText_sound {reply : HostReply} {memory : Memory} (hstatus : reply.status = 0)
    (hsize : reply.size ≤ maxInt) (hresponse : reply.response = some memory) :
    replyText reply = .ok (memory.read reply.size) := by
  have hsound : ¬(reply.status ≠ 0 ∨ reply.size > maxInt) := by
    rw [hstatus]
    simpa using hsize
  rw [replyText, hresponse]
  exact if_neg hsound

theorem replyText_unsound {reply : HostReply}
    (h : reply.status ≠ 0 ∨ reply.response = none ∨ reply.size > maxInt) :
    replyText reply =
      raise .transport (ascii "C ABI callback failed or returned an invalid buffer") := by
  unfold replyText
  cases hresponse : reply.response with
  | none => rfl
  | some memory =>
      rw [hresponse] at h
      exact if_pos (by simpa using h)

/-- What follows once the host has returned a buffer. -/
theorem answer_sound {reply : HostReply} {memory : Memory} (hstatus : reply.status = 0)
    (hsize : reply.size ≤ maxInt) (hresponse : reply.response = some memory) :
    answer native reply = (do
      let obj ← parse native (memory.read reply.size)
      let error ← boolean obj "error"
      if error then raise .transport (ascii "C ABI callback failed") else transportResponse obj) := by
  rw [answer, readReply, replyText_sound hstatus hsize hresponse]
  change (parse native (memory.read reply.size) >>= _) >>= _ = _
  cases parse native (memory.read reply.size) with
  | error e => rfl
  | ok obj =>
      change (boolean obj "error" >>= _) >>= _ = boolean obj "error" >>= _
      cases boolean obj "error" with
      | error e => rfl
      | ok error => cases error <;> rfl

theorem answer_fault {reply : HostReply} (h : TransportFault native reply) :
    ∃ message, Utf8.Valid message ∧ answer native reply = raise .transport message := by
  by_cases hsound : reply.status ≠ 0 ∨ reply.response = none ∨ reply.size > maxInt
  · refine ⟨ascii "C ABI callback failed or returned an invalid buffer", by decide, ?_⟩
    rw [answer, readReply, replyText_unsound hsound]
    rfl
  · push Not at hsound
    obtain ⟨hstatus, hset, hsize⟩ := hsound
    rcases h with h | h | h | ⟨memory, obj, hresponse, hparse, hobj⟩
    · exact absurd hstatus h
    · exact absurd h hset
    · exact absurd h (not_lt.mpr hsize)
    · rw [answer_sound hstatus hsize hresponse, parse_ok.mpr hparse]
      rcases hobj with herror | ⟨herror, hbad⟩
      · refine ⟨ascii "C ABI callback failed", by decide, ?_⟩
        change boolean obj "error" >>= _ = _
        rw [boolean_true.mpr herror]
        rfl
      · refine ⟨ascii "C ABI transport returned invalid HTTP status", by decide, ?_⟩
        change boolean obj "error" >>= _ = _
        rw [boolean_false.mpr herror]
        exact transportResponse_badStatus hbad

theorem answer_cases {reply : HostReply} (h : ¬TransportFault native reply) :
    (∃ response, answer native reply = .ok response) ∨ Misattributed (answer native reply) := by
  unfold TransportFault at h
  push Not at h
  obtain ⟨hstatus, hset, hsize, hobj⟩ := h
  obtain ⟨memory, hresponse⟩ := Option.ne_none_iff_exists'.mp hset
  rw [answer_sound hstatus hsize hresponse]
  cases hparse : native.surroundings.parseStruct (memory.read reply.size) with
  | none =>
      refine Or.inr ⟨.invalidArgument, ascii "invalid C ABI JSON", ?_, Or.inl rfl⟩
      rw [parse, hparse]
      rfl
  | some obj =>
      obtain ⟨herror, hbad⟩ := hobj memory obj hresponse hparse
      rw [parse_ok.mpr hparse]
      change (∃ response, boolean obj "error" >>= _ = _) ∨ Misattributed (boolean obj "error" >>= _)
      have hread : Settled (boolean obj "error") := settled_readField false bool?
      rcases hread with ⟨error, hflag⟩ | ⟨message, hmessage⟩
      · cases error with
        | true => exact absurd (boolean_true.mp hflag) herror
        | false =>
            rw [hflag]
            exact transportResponse_cases (hbad (boolean_false.mp hflag))
      · refine Or.inr ⟨.invalidArgument, message, ?_, Or.inl rfl⟩
        rw [hmessage]
        rfl

end Replies

section Runs

variable {native : Native} {callback : Bool} {outside : ∀ outgoing, Outcome (OutgoingReply outgoing)}

/-- An error of a call that was answered. -/
def Served (e : Thrown) : Prop :=
  ∃ error, e = .error error ∧ (error.code = .http ∨ error.code = .protocol)

theorem served_protocol (message : Bytes) : Served (.error ⟨.protocol, message, 0, []⟩) :=
  ⟨_, rfl, Or.inr rfl⟩

theorem served_callResponse {ρ : Type} {surroundings : Surroundings} {parse : Bytes → Option ρ}
    {response : HttpResponse} {e : Thrown}
    (h : ClientContext.callResponse surroundings parse response = .error e) : Served e := by
  unfold ClientContext.callResponse at h
  by_cases hstatus : response.statusCode < 200 ∨ response.statusCode ≥ 300
  · rw [if_pos hstatus] at h
    obtain rfl := Except.error.inj h
    exact ⟨_, rfl, Or.inl rfl⟩
  · rw [if_neg hstatus] at h
    cases hparse : parse response.body with
    | none =>
        rw [hparse] at h
        obtain rfl := Except.error.inj h
        exact served_protocol _
    | some result =>
        rw [hparse] at h
        cases h

theorem served_toModel {protobuf : Protobuf} {type : String} {message : protobuf.Message}
    {e : Thrown} (h : toModel protobuf type message = .error e) : Served e := by
  unfold toModel at h
  cases hjson : protobuf.toJson type message with
  | ok json =>
      rw [hjson] at h
      cases h
  | error status =>
      rw [hjson] at h
      obtain rfl := Except.error.inj h
      exact served_protocol _

theorem single_invoke (method : Method) (context : ClientContext Transport)
    (request : native.protobuf.Message) :
    Single Served (method.invoke native.surroundings native.protobuf context request) := by
  refine single_done_bind fun prepared => single_done_bind fun sent => ?_
  exact (single_perform _).bind (fun _ => rfl) fun response e h => served_callResponse h

theorem single_callApi (context : ClientContext Transport) (operation : Bytes) (input : Fields) :
    Single Served (callApi native context operation input) := by
  unfold callApi
  split_ifs
  · refine single_done_bind fun dispatchId => single_done_bind fun room => ?_
    refine Single.bind ?_ (fun _ => rfl) fun result e h => by cases h
    refine (single_invoke _ _ _).bind (g := fun response =>
      match native.protobuf.agentDispatches response with
      | [] => .ok none
      | first :: _ => (toModel native.protobuf "livekit.AgentDispatch" first).map some) ?_ ?_
    · intro response
      cases native.protobuf.agentDispatches response with
      | nil => rfl
      | cons first rest =>
          change (Program.done (toModel native.protobuf "livekit.AgentDispatch" first) >>= _) =
            Program.done ((toModel native.protobuf "livekit.AgentDispatch" first).map some)
          cases toModel native.protobuf "livekit.AgentDispatch" first <;> rfl
    · intro response e h
      cases hfound : native.protobuf.agentDispatches response with
      | nil =>
          simp only [hfound] at h
          cases h
      | cons first rest =>
          simp only [hfound] at h
          cases hjson : toModel native.protobuf "livekit.AgentDispatch" first with
          | error e' =>
              rw [hjson] at h
              obtain rfl : e' = e := Except.error.inj h
              exact served_toModel hjson
          | ok json =>
              rw [hjson] at h
              cases h
  · refine single_done_bind fun request => ?_
    cases findMethod operation with
    | none => exact Single.done _
    | some method =>
        refine Single.bind (single_done_bind fun message => ?_) (fun _ => rfl)
          fun json e h => by cases h
        exact (single_invoke _ _ _).bind (fun _ => rfl) fun response e h => served_toModel h

theorem single_executeApi (operation : Bytes) (input options : Fields) :
    Single Served (executeApi native operation input options) :=
  single_done_bind fun _ => single_done_bind fun context => single_callApi context operation input

theorem run_exchange {request : Fields} {json : Bytes} (h : encode native request = .ok json) :
    (exchange native true request).run outside =
      ([.callback json], outside (.callback json) >>= readReply native) := by
  rw [exchange, if_pos rfl, h]
  exact run_bind_compute outside (p := perform (Outgoing.callback json)) fun _ => rfl

theorem run_callbackSend {request : HttpRequest} {json : Bytes}
    (h : encode native (transportRequest request) = .ok json) :
    (callbackSend native true request).run outside =
      ([.callback json], outside (.callback json) >>= answer native) := by
  refine (run_bind_compute outside (p := exchange native true (transportRequest request))
    (g := transportResponse) fun _ => rfl).trans ?_
  rw [log, result, run_exchange h]
  cases outside (.callback json) <;> rfl

/-- A request that leaves on the callback, and what its reply becomes. -/
theorem sendOn_callback {sent : Transport × HttpRequest} {json : Bytes}
    (h : .callback json ∈ (sendOn native callback sent).log outside) :
    (sendOn native callback sent).result outside = outside (.callback json) >>= answer native := by
  obtain ⟨transport, request⟩ := sent
  cases transport with
  | default =>
      obtain h := List.mem_singleton.mp h
      cases h
  | callback =>
      change .callback json ∈ (callbackSend native callback request).log outside at h
      cases callback with
      | false => exact absurd h List.not_mem_nil
      | true =>
          cases hjson : encode native (transportRequest request) with
          | error e =>
              rw [callbackSend, exchange, if_pos rfl, hjson] at h
              exact absurd h List.not_mem_nil
          | ok text =>
              rw [log, run_callbackSend hjson] at h
              cases List.mem_singleton.mp h
              change (callbackSend native true request).result outside = _
              rw [result, run_callbackSend hjson]

/-- What is executed once the input is read. -/
theorem executeInput_eq {input : Option Memory} {length : ℕ} {text : Bytes} {obj : Fields}
    (htext : readInput input length = .ok text) (hobj : parse native text = .ok obj) :
    executeInput native callback input length = execute native callback obj := by
  rw [executeInput, htext]
  change (Program.done (parse native text) >>= _) = _
  rw [hobj]
  rfl

theorem executeInput_api {input : Option Memory} {length : ℕ} {text operation : Bytes}
    {obj options : Fields} (htext : readInput input length = .ok text)
    (hobj : parse native text = .ok obj) (hoperation : string obj "operation" = .ok operation)
    (hoptions : object obj "options" = .ok options) (h : OverTheApi operation) :
    executeInput native callback input length =
      (executeApi native operation obj options).translate (sendOn native callback) := by
  rw [executeInput_eq htext hobj, execute, hoperation]
  change (Program.done (object obj "options") >>= _) = _
  rw [hoptions]
  exact (if_neg h.1).trans (if_neg h.2)

/-- An error that the transport makes of the reply is the result, and no other error is of its
kind. -/
theorem executeInput_answer (hprint : PrintsJson native.print) {input : Option Memory}
    {length : ℕ} {json : Bytes}
    (hreach : .callback json ∈ (executeInput native callback input length).log outside)
    (hkind : HasKind "transport" json) :
    (∀ e, outside (.callback json) >>= answer native = .error e →
      (executeInput native callback input length).result outside = .error e) ∧
    ∀ response e, outside (.callback json) >>= answer native = .ok response →
      (executeInput native callback input length).result outside = .error e → Served e := by
  obtain ⟨text, obj, htext, hobj, operation, options, hoperation, hoptions, -, hleaves⟩ :=
    ((callsAtMost_executeInput callback hprint input length).log outside).2 _ hreach
  rcases hleaves with ⟨-, -, hkey⟩ | ⟨hapi, -, -⟩
  · exact absurd (hkind.unique hkey) (by decide)
  · rw [executeInput_api htext hobj hoperation hoptions hapi] at hreach ⊢
    rw [log, run_translate] at hreach
    obtain ⟨sent, hsent, hmem⟩ := List.mem_flatMap.mp hreach
    obtain ⟨sent', hlog, herror, hserved⟩ :=
      (single_executeApi operation obj options).result (List.ne_nil_of_mem hsent)
    rw [hlog] at hsent
    obtain rfl := List.mem_singleton.mp hsent
    have hresult := sendOn_callback hmem
    rw [result, run_translate]
    exact ⟨fun e he => herror e (hresult.trans he),
      fun response e hresponse he => hserved response e (hresult.trans hresponse) he⟩

/-- The reply of the transport callback is reported as a transport error when it is a
`TransportFault`. -/
theorem hasCode_transport_iff (hprint : PrintsJson native.print) {input : Option Memory}
    {length : ℕ} {json : Bytes} {reply : HostReply}
    (hreach : .callback json ∈ (executeInput native callback input length).log outside)
    (hkind : HasKind "transport" json) (hreply : outside (.callback json) = .ok reply) :
    (finish native Faults.none
        ((executeInput native callback input length).result outside)).HasCode .transport ↔
      TransportFault native reply := by
  obtain ⟨herror, hserved⟩ := executeInput_answer hprint hreach hkind
  rw [hreply] at herror hserved
  constructor
  · rintro ⟨error, hcode, hreporting⟩
    obtain ⟨e, he, hecode⟩ := code_of_reporting hprint
      (fun value h => ((yields_executeInput native callback input length).result h).wellFormed)
      hreporting
    rw [hcode] at hecode
    by_contra hfault
    rcases answer_cases hfault with ⟨response, hresponse⟩ | ⟨code, message, hmessage, hcodes⟩
    · obtain ⟨error', rfl, hcode'⟩ := hserved response e hresponse he
      change error'.code = _ at hecode
      rw [hecode] at hcode'
      rcases hcode' with h | h <;> cases h
    · have he' := herror _ hmessage
      rw [he] at he'
      obtain rfl := Except.error.inj he'
      change code = _ at hecode
      rw [hecode] at hcodes
      rcases hcodes with h | h <;> cases h
  · intro hfault
    obtain ⟨message, hvalid, hmessage⟩ := answer_fault hfault
    have hstatus : InInt32 0 := by decide
    rw [herror _ hmessage]
    exact ⟨_, rfl, reporting_finish hprint hvalid rfl hstatus⟩

/-- The envelope blames the transport, neither the caller's arguments nor its credentials. -/
structure Output.BlamesTransport (output : Output) : Prop where
  transport : output.HasCode .transport
  arguments : ¬output.HasCode .invalidArgument
  credentials : ¬output.HasCode .authentication

theorem Output.blamesTransport_iff {output : Output} :
    output.BlamesTransport ↔ output.HasCode .transport := by
  refine ⟨fun h => h.transport, fun h => ⟨h, fun h' => ?_, fun h' => ?_⟩⟩
  · cases h.unique h'
  · cases h.unique h'

/-- A call on which nothing fails by itself. -/
theorem run_lksInvoke (native : Native) (callback : Bool) (input : Option Memory) (length : ℕ) :
    (lksInvoke native callback input length Faults.none).run outside =
      ((executeInput native callback input length).log outside, .ok (finish native Faults.none
        ((executeInput native callback input length).result outside))) := by
  rw [lksInvoke, Faults.none, faulty_none, run_resume, run_pure, List.append_nil]
  rfl

/-- A call that reaches the transport callback blames the transport for every ill-formed reply
exactly when the reply is well formed or a `TransportFault`. -/
theorem lksInvoke_blamesTransport_iff (hprint : PrintsJson native.print) {input : Option Memory}
    {length : ℕ} {json : Bytes} {reply : HostReply}
    (hreach : .callback json ∈ (lksInvoke native callback input length Faults.none).log outside)
    (hkind : HasKind "transport" json) (hreply : outside (.callback json) = .ok reply) :
    ∃ output, (lksInvoke native callback input length Faults.none).result outside = .ok output ∧
      ((¬WellFormedReply native reply → output.BlamesTransport) ↔
        WellFormedReply native reply ∨ TransportFault native reply) := by
  rw [log, run_lksInvoke] at hreach
  refine ⟨_, congrArg Prod.snd (run_lksInvoke native callback input length), ?_⟩
  rw [Output.blamesTransport_iff, hasCode_transport_iff hprint hreach hkind hreply,
    ← or_iff_not_imp_left]

/-- The host replies with this text. -/
def replyingHost (text : Bytes) : ∀ outgoing, Outcome (OutgoingReply outgoing)
  | .callback _ => .ok (.ofText text)
  | .send _ => .error .unknown

/-- The request of `sampleInput`. -/
def sampleSent : HttpRequest where
  url := ascii "http://localhost:7880/twirp/livekit.RoomService/ListRooms"
  method := ascii "POST"
  headers := ClientContext.callHeaders (ascii "token") (ascii "00000000-0000-4000-8000-000000000000")
  body := []
  timeout := 30000

theorem lksInvoke_blamesTransport_sample :
    ∃ output, (lksInvoke sampleNative true (some (.ofText sampleInput)) sampleInput.length
        Faults.none).result failingHost = .ok output ∧
      ((¬WellFormedReply sampleNative ⟨1, none, 0⟩ → output.BlamesTransport) ↔
        WellFormedReply sampleNative ⟨1, none, 0⟩ ∨ TransportFault sampleNative ⟨1, none, 0⟩) := by
  have hprinted : sampleNative.print (transportRequest sampleSent) =
      some ((sampleNative.print (transportRequest sampleSent)).getD []) := rfl
  have hprint : PrintsJson sampleNative.print := printsJson_printStruct
  have hkind := hasKind_print hprint (wellFormed_transportRequest sampleSent)
    valid_transportRequest rfl (by decide) hprinted
  exact @lksInvoke_blamesTransport_iff sampleNative true failingHost hprint _ _ _ _
    (by decide +kernel) hkind rfl

/-- A reply that is no JSON is reported as an invalid argument. -/
theorem malformedReply_blamesArguments :
    (lksInvoke sampleNative true (some (.ofText sampleInput)) sampleInput.length
        Faults.none).run (replyingHost (ascii "\x7b")) =
      ([.callback ((printStruct (transportRequest sampleSent)).getD [])],
        .ok ⟨some (ascii ("\x7b\"ok\":false,\"code\":0,\"http_status\":0,\"twirp_code\":\"\"," ++
          "\"message\":\"invalid C ABI JSON\"\x7d") ++ [0]), 84⟩) ∧
      ¬WellFormedReply sampleNative (.ofText (ascii "\x7b")) := by
  refine ⟨by decide +kernel, ?_⟩
  rintro ⟨-, -, memory, obj, text, status, body, hresponse, hparse, -⟩
  obtain rfl := Option.some.inj hresponse
  cases hparse

-- What stands behind the `=` of a body is skipped.
example : ¬Crypto.IsBase64 (ascii "==!!") ∧
    answer sampleNative (.ofText (ascii "\x7b\"status_code\":\"200\",\"body\":\"==!!\"\x7d")) =
      .ok ⟨200, []⟩ := by
  rw [Crypto.isBase64_iff]
  exact ⟨by decide +kernel, rfl⟩

end Runs

end LivekitServer.CApi

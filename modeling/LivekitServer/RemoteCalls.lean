import LivekitServer.RoomScope
import LivekitServer.SignAndVerify

/-!
# Remote calls

A method of a client is meant to be a method of a server. The server is not part of the library:
`Server` has what it knows and does as parameters, and `SpeaksTwirp` is what Twirp over HTTP, with
a JWT for a token, promises of it and of the network before it. `application_remote` says that an
application which calls the methods of any clients, and goes on with what they return, behaves as
if it called the server's handler: every call is handled once, with the method, the grants and the
message it was made with.
-/

namespace LivekitServer

section Server

/-- How a server tells of a failure. -/
structure TwirpError where
  status : ℤ
  code : Bytes
  msg : Bytes

structure RemoteCall (protobuf : Protobuf) where
  service : Bytes
  name : Bytes
  claims : Members
  message : protobuf.Message

/-- A server: its URL, the secrets of its keys, its HMAC-SHA256, the claims it admits, the types of
the request and the response of its methods, what it reads off a request, and its handler, which
may change its state. -/
structure Server (protobuf : Protobuf) (σ : Type) where
  url : Bytes
  secret : Bytes → Option Bytes
  hmac : Bytes → Bytes → Bytes
  admits : Members → Prop
  schema : Bytes → Bytes → Option (String × String)
  read : HttpRequest → Option (RemoteCall protobuf)
  handle : σ → RemoteCall protobuf → Except TwirpError protobuf.Message × σ

/-- A body of an error, which may have other members than these two. -/
def Reports (body : Bytes) (e : TwirpError) : Prop :=
  ∃ members, Json.Portable body members ∧
    members.lookup (ascii "code") = some (.string e.code) ∧
    members.lookup (ascii "msg") = some (.string e.msg)

variable {protobuf : Protobuf} {σ τ : Type}

/-- A response for what a handler has come to. -/
def Conveys (type : String) (response : HttpResponse) :
    Except TwirpError protobuf.Message → Prop
  | .ok message =>
    200 ≤ response.statusCode ∧ response.statusCode < 300 ∧
      protobuf.parse type response.body = some message
  | .error e =>
    response.statusCode = e.status ∧ (e.status < 200 ∨ 300 ≤ e.status) ∧ Reports response.body e

/-- A JWT over these claims, which is signed with the secret of their issuer. -/
def Server.Signs (server : Server protobuf σ) (token : Bytes) (claims : Members) : Prop :=
  ∃ header fields text issuer secret,
    Json.Portable header fields ∧ fields.lookup (ascii "alg") = some (.string (ascii "HS256")) ∧
    Json.Portable text claims ∧ claims.lookup (ascii "iss") = some (.string issuer) ∧
    server.secret issuer = some secret ∧
    let signed := Crypto.base64UrlEncode header ++ 0x2e :: Crypto.base64UrlEncode text
    token = signed ++ [0x2e] ++ Crypto.base64UrlEncode (server.hmac secret signed)

/-- A server that follows Twirp reads a protobuf request for one of its methods when the token is
good. What it has read it handles once, and the network returns what the handler has come to. -/
structure Server.SpeaksTwirp (server : Server protobuf σ)
    (network : σ → τ × HttpRequest → Outcome HttpResponse × σ) : Prop where
  reads : ∀ (sent : HttpRequest) service name request response token claims message,
    server.schema service name = some (request, response) →
    sent.method = ascii "POST" →
    sent.url = server.url ++ ascii "/twirp/livekit." ++ service ++ [0x2f] ++ name →
    sent.headers.lookup (ascii "Content-Type") = some (ascii "application/protobuf") →
    sent.headers.lookup (ascii "Authorization") = some (ascii "Bearer " ++ token) →
    server.Signs token claims → server.admits claims →
    protobuf.parse request sent.body = some message →
    server.read sent = some ⟨service, name, claims, message⟩
  serves : ∀ s sent call request response, server.read sent.2 = some call →
    server.schema call.service call.name = some (request, response) →
    ∃ answer, network s sent = (.ok answer, (server.handle s call).2) ∧
      Conveys response answer (server.handle s call).1

/-- What the caller gets of it. An error without a message gets one. -/
def answered : Except TwirpError protobuf.Message → Outcome protobuf.Message
  | .ok message => .ok message
  | .error e =>
    let message :=
      if e.msg = [] then ascii "LiveKit server returned HTTP " ++ Decimal.signed e.status else e.msg
    .error (.error ⟨.http, message, e.status, e.code⟩)

end Server

section Calls

open ClientContext

variable {σ τ : Type} {protobuf : Protobuf}

/-- A call of a method of a client, in the surroundings that it finds. -/
structure ClientCall (τ : Type) (protobuf : Protobuf) where
  context : ClientContext τ
  surroundings : Surroundings
  method : Method
  request : protobuf.Message

namespace ClientCall

variable (call : ClientCall τ protobuf)

def token : AccessToken :=
  tokenOf call.context.apiKey call.context.apiSecret (call.method.grantFor protobuf call.request)

def issuedAt : ℤ := call.surroundings.clock.secondsSinceEpoch call.surroundings.now

def expiresAt : ℤ := call.token.expiresAt call.surroundings.clock call.surroundings.now

def claims : Members := call.token.claims call.issuedAt call.expiresAt

def invoke : Sending τ protobuf.Message :=
  call.method.invoke call.surroundings protobuf call.context call.request

/-- The HTTP request for a prepared message. -/
def sending (message : protobuf.Message) : Outcome HttpRequest :=
  callRequest call.surroundings call.context call.method.service call.method.name
    (protobuf.serialize message) (call.method.grantFor protobuf call.request)

/-- The call that it stands for, or the error that keeps the client from making it. -/
def remote : Outcome (RemoteCall protobuf) := do
  let message ← call.method.prepare call.surroundings protobuf call.request
  let _ ← call.sending message
  return ⟨ascii call.method.service, ascii call.method.name, call.claims, message⟩

end ClientCall

/-- The handler, called without a network. -/
def Server.direct (server : Server protobuf σ) (s : σ) (call : ClientCall τ protobuf) :
    Outcome protobuf.Message × σ :=
  match call.remote with
  | .error e => (.error e, s)
  | .ok remote => (answered (server.handle s remote).1, (server.handle s remote).2)

/-- A server and a client that signs with one of its keys. -/
structure Paired (server : Server protobuf σ) (surroundings : Surroundings)
    (context : ClientContext τ) : Prop where
  url : server.url = context.url
  signs : context.accessToken = []
  secret : server.secret context.apiKey = some context.apiSecret
  hmac : ∀ text mac, Crypto.hmacSha256 surroundings.backend context.apiSecret text = .ok mac →
    mac = server.hmac context.apiSecret text
  classic : surroundings.loc = Locale.classic
  reads : ReadsJson surroundings.parseStruct

/-- A call to a server that has the method and admits the claims, with a message that the protobuf
runtime reads as it was written. -/
structure Sendable (server : Server protobuf σ) (call : ClientCall τ protobuf) : Prop where
  paired : Paired server call.surroundings call.context
  method : server.schema (ascii call.method.service) (ascii call.method.name) =
    some (call.method.request, call.method.response)
  admits : server.admits call.claims
  utf8 : ∀ s ∈ call.token.strings, Utf8.Valid s
  message : ∀ prepared body,
    call.method.prepare call.surroundings protobuf call.request = .ok prepared →
    protobuf.serialize prepared = some body →
    protobuf.parse call.method.request body = some prepared

/-- No two methods have the same route. -/
theorem nodup_routes :
    (dispatchTable.map fun row => (ascii row.2.service, ascii row.2.name)).Nodup := by
  decide +kernel

end Calls

section Exchange

open ClientContext

variable {σ τ : Type} {protobuf : Protobuf} {server : Server protobuf σ}
  {call : ClientCall τ protobuf}

/-- The token of a client is signed for the server. -/
theorem signs_tokenFor (h : Sendable server call) {token : Bytes}
    (htoken : tokenFor call.surroundings call.context
      (call.method.grantFor protobuf call.request) = .ok token) :
    server.Signs token call.claims := by
  rw [tokenFor, if_neg (not_not_intro h.paired.signs), h.paired.classic] at htoken
  change call.token.toJwt call.surroundings.clock call.surroundings.backend Locale.classic
    call.surroundings.now = .ok token at htoken
  by_cases hunset : call.token.apiKey = [] ∨ call.token.apiSecret = []
  · rw [AccessToken.toJwt, if_pos hunset] at htoken
    cases htoken
  · obtain ⟨hkey, hsecret⟩ := not_or.mp hunset
    rw [AccessToken.toJwt_eq _ _ _ _ _ hkey hsecret] at htoken
    change AccessToken.jwtOver call.surroundings.backend call.context.apiSecret
      (AccessToken.claimsText Locale.classic call.token call.issuedAt call.expiresAt) = _ at htoken
    unfold AccessToken.jwtOver at htoken
    cases hmac : Crypto.hmacSha256 call.surroundings.backend call.context.apiSecret
        (AccessToken.signedPart
          (AccessToken.claimsText Locale.classic call.token call.issuedAt call.expiresAt)) with
    | error e =>
        rw [hmac] at htoken
        cases htoken
    | ok mac =>
        rw [hmac] at htoken
        obtain rfl := Except.ok.inj htoken
        have hportable := Webhook.portable_claims h.utf8
          (call.surroundings.clock.inInt64_secondsSinceEpoch call.surroundings.now)
          (inInt64_wrapInt64 (call.issuedAt + call.token.validFor))
        have hiss := (AccessToken.claims_decodesTo call.token call.issuedAt call.expiresAt).iss
        refine ⟨AccessToken.header, _, _, call.context.apiKey, call.context.apiSecret,
          Webhook.portable_header, rfl, hportable, hiss, h.paired.secret, ?_⟩
        rw [h.paired.hmac _ mac hmac, Webhook.signedPart_eq]
        rfl

/-- The server reads off the request of a call what it stands for. -/
theorem read_sending (h : Sendable server call)
    {network : σ → τ × HttpRequest → Outcome HttpResponse × σ}
    (hspeaks : server.SpeaksTwirp network)
    {message : protobuf.Message} {sent : HttpRequest}
    (hprepared : call.method.prepare call.surroundings protobuf call.request = .ok message)
    (hsent : call.sending message = .ok sent) :
    server.read sent =
      some ⟨ascii call.method.service, ascii call.method.name, call.claims, message⟩ := by
  obtain ⟨token, random, body, htoken, -, hbody, rfl⟩ := callRequest_ok.mp hsent
  refine hspeaks.reads _ _ _ _ _ token _ message h.method rfl ?_ rfl rfl (signs_tokenFor h htoken)
    h.admits (h.message message body hprepared hbody)
  rw [h.paired.url]
  rfl

theorem callResponse_conveys {surroundings : Surroundings}
    (hreads : ReadsJson surroundings.parseStruct) {type : String} {response : HttpResponse}
    {answer : Except TwirpError protobuf.Message} (h : Conveys type response answer) :
    callResponse surroundings (protobuf.parse type) response = answered answer := by
  rw [callResponse]
  cases answer with
  | ok message =>
      obtain ⟨hlow, hhigh, hparse⟩ := h
      rw [if_neg (by omega), hparse]
      rfl
  | error e =>
      obtain ⟨hstatus, hfailed, members, hportable, hcode, hmsg⟩ := h
      obtain ⟨fields, hfields, hstring⟩ := hreads.string hportable
      have hfield {name : String} {text : Bytes}
          (hname : members.lookup (ascii name) = some (.string text)) :
          jsonStringField surroundings response.body name = text := by
        rw [jsonStringField, hfields]
        simp only [hstring _ _ hname]
      rw [if_pos (hstatus ▸ hfailed), hfield hcode, hfield hmsg, hstatus]
      rfl

section Prepared

variable {message : protobuf.Message}
  (hprepared : call.method.prepare call.surroundings protobuf call.request = .ok message)
include hprepared

theorem invoke_prepared : call.invoke =
    (liftM (call.sending message) >>= fun sent =>
      Program.perform (call.context.transport, sent) >>= fun response => liftM
        (callResponse call.surroundings (protobuf.parse call.method.response) response) :
      Sending τ protobuf.Message) := by
  rw [ClientCall.invoke, Method.invoke, hprepared]
  rfl

theorem remote_prepared : call.remote = (call.sending message).map fun _ =>
    ⟨ascii call.method.service, ascii call.method.name, call.claims, message⟩ := by
  rw [ClientCall.remote, hprepared]
  rfl

end Prepared

/-- A call makes one request, and the server handles what it stands for. -/
theorem runFrom_clientCall (h : Sendable server call)
    {network : σ → τ × HttpRequest → Outcome HttpResponse × σ}
    (hspeaks : server.SpeaksTwirp network)
    (s : σ) : call.invoke.runFrom network s = server.direct s call := by
  rw [Server.direct]
  cases hprepared : call.method.prepare call.surroundings protobuf call.request with
  | error e =>
      rw [ClientCall.invoke, Method.invoke, ClientCall.remote, hprepared]
      rfl
  | ok message =>
      rw [invoke_prepared hprepared, remote_prepared hprepared]
      cases hsent : call.sending message with
      | error e => rfl
      | ok sent =>
          obtain ⟨response, hresponse, hconveys⟩ := hspeaks.serves s
            (call.context.transport, sent) _ _ _ (read_sending h hspeaks hprepared hsent) h.method
          have hended := callResponse_conveys h.paired.reads hconveys
          change (Program.perform (call.context.transport, sent) >>= fun response => liftM
            (callResponse call.surroundings (protobuf.parse call.method.response) response) :
              Sending τ protobuf.Message).runFrom network s = _
          rw [Program.runFrom_bind, Program.runFrom_perform, hresponse]
          exact Prod.ext hended rfl

end Exchange

section Applications

open ClientContext

variable {σ τ : Type} {protobuf : Protobuf}

/-- An application over the clients is the application over the handler. Whatever it calls next
after what was returned, every call that a client can make reaches the handler once and in its
turn, with the service and the name of its method, which no other method has, and with claims that
read back as the grants of the method. -/
theorem application_remote {α : Type} {server : Server protobuf σ}
    {network : σ → τ × HttpRequest → Outcome HttpResponse × σ}
    (hspeaks : server.SpeaksTwirp network)
    {application : Program (ClientCall τ protobuf) (fun _ => protobuf.Message) Thrown α}
    (hcalls : application.Makes (Sendable server)) (s : σ) :
    (application.translate ClientCall.invoke).runFrom network s =
        application.runFrom server.direct s ∧
      (∀ (call : ClientCall τ protobuf) remote, call.remote = .ok remote →
        remote.service = ascii call.method.service ∧ remote.name = ascii call.method.name ∧
        call.method.prepare call.surroundings protobuf call.request = .ok remote.message ∧
        call.token.DecodesTo call.issuedAt call.expiresAt remote.claims) ∧
      ∀ row ∈ dispatchTable, ∀ row' ∈ dispatchTable, ascii row.2.service = ascii row'.2.service →
        ascii row.2.name = ascii row'.2.name → row = row' := by
  refine ⟨?_, fun call remote hremote => ?_, fun row hrow row' hrow' hservice hname => ?_⟩
  · exact Program.runFrom_translate server.direct hcalls
      (fun call hcall s => runFrom_clientCall hcall hspeaks s) s
  · obtain ⟨message, hprepared, hremote⟩ := bind_ok.mp hremote
    obtain ⟨sent, -, hremote⟩ := bind_ok.mp hremote
    obtain rfl := Except.ok.inj hremote
    exact ⟨rfl, rfl, hprepared, AccessToken.claims_decodesTo _ _ _⟩
  · exact List.inj_on_of_nodup_map nodup_routes hrow hrow' (Prod.ext hservice hname)

def unavailable : TwirpError := ⟨503, ascii "unavailable", ascii "try later"⟩

def unavailableBody : Bytes :=
  ascii "\x7b\"code\":\"unavailable\",\"msg\":\"try later\"\x7d"

theorem reports_unavailable : Reports unavailableBody unavailable := by
  refine ⟨[(ascii "code", .string (ascii "unavailable")),
    (ascii "msg", .string (ascii "try later"))], ⟨by decide, rfl, ?_, by decide, ?_⟩, rfl, rfl⟩
  · exact ⟨by decide, trivial, trivial, trivial⟩
  · exact ⟨⟨trivial, trivial⟩, ⟨trivial, trivial⟩, trivial⟩

section Listing

def listingSecret (key : Bytes) : Outcome Bytes :=
  .ok (Webhook.singleKey (ascii "key") (ascii "secret") key)

def listingServices : Services :=
  { Webhook.sampleServices with
    backend := .constant Webhook.sampleDigest (List.replicate 32 0) }

/-- The claims of a token in a header, once its signature is checked. -/
def listingClaims (authorization : Bytes) : Option Members :=
  match (Webhook.authenticate listingServices authorization).result listingSecret with
  | .error _ => none
  | .ok claims =>
    match Json.parse claims with
    | some (.object members) => some members
    | _ => none

/-- The claims expire after the time of the sample. -/
def unexpired (claims : Members) : Bool :=
  match claims.lookup (ascii "exp") with
  | some (.number n) => decide (1700000000 < n.value)
  | _ => false

def listingRead (request : HttpRequest) : Option (RemoteCall roomProtobuf) := do
  guard (request.method = ascii "POST")
  guard (request.url = ascii "http://localhost:7880/twirp/livekit.RoomService/ListRooms")
  guard (request.headers.lookup (ascii "Content-Type") = some (ascii "application/protobuf"))
  let authorization ← request.headers.lookup (ascii "Authorization")
  let claims ← listingClaims authorization
  guard (unexpired claims)
  let message ← roomProtobuf.parse "livekit.ListRoomsRequest" request.body
  return ⟨ascii "RoomService", ascii "ListRooms", claims, message⟩

/-- A server that lists its room, once. -/
def listingServer : Server roomProtobuf ℕ where
  url := ascii "http://localhost:7880"
  secret key := if key = ascii "key" then some (ascii "secret") else none
  hmac _ _ := List.replicate 32 0
  admits claims := unexpired claims = true
  schema service name :=
    if service = ascii "RoomService" ∧ name = ascii "ListRooms" then
      some ("livekit.ListRoomsRequest", "livekit.ListRoomsResponse")
    else none
  read := listingRead
  handle served _ := (if served = 0 then .ok (ascii "stage") else .error unavailable, served + 1)

def listingNetwork (served : ℕ) (sent : Unit × HttpRequest) : Outcome HttpResponse × ℕ :=
  match listingRead sent.2 with
  | none => (.ok ⟨404, []⟩, served)
  | some _ => (.ok (if served = 0 then ⟨200, stageBody⟩ else ⟨503, unavailableBody⟩), served + 1)

theorem listingClaims_signs {token : Bytes} {claims : Members}
    (h : listingServer.Signs token claims) :
    listingClaims (ascii "Bearer " ++ token) = some claims := by
  obtain ⟨header, fields, text, issuer, secret, hheader, halg, htext, hiss, hsecret, rfl⟩ := h
  simp only [listingServer, Option.ite_none_right_eq_some, Option.some.injEq] at hsecret
  obtain ⟨rfl, rfl⟩ := hsecret
  have hdot := Webhook.notMem_base64UrlEncode (show (0x2e : UInt8) ∉ Crypto.urlAlphabet by decide)
  have hstrip (token : Bytes) : Webhook.stripBearer (ascii "Bearer " ++ token) = token :=
    if_pos (List.prefix_append ..)
  have hreads : ReadsJson listingServices.parseStruct := readsJson_readStruct
  have hsegments : Webhook.Segments (Webhook.stripBearer (ascii "Bearer " ++
      (Crypto.base64UrlEncode header ++ 0x2e :: Crypto.base64UrlEncode text ++ [0x2e] ++
        Crypto.base64UrlEncode (List.replicate 32 0))))
      (Crypto.base64UrlEncode header) (Crypto.base64UrlEncode text)
      (Crypto.base64UrlEncode (List.replicate 32 0)) := by
    refine ⟨?_, hdot _, hdot _, hdot _⟩
    rw [hstrip]
    simp only [List.append_assoc, List.cons_append, List.nil_append]
  have hsecret : listingSecret (ascii "key") = .ok (ascii "secret") := rfl
  have hmac : Crypto.hmacSha256 listingServices.backend (ascii "secret")
      (Crypto.base64UrlEncode header ++ 0x2e :: Crypto.base64UrlEncode text) =
        .ok (List.replicate 32 0) := rfl
  have hverify := Webhook.run_verify_signature (Crypto.decode_base64UrlEncode header)
    (Webhook.hasString_portable hreads hheader halg) (Crypto.decode_base64UrlEncode text)
    (Webhook.hasString_portable hreads htext hiss) (by decide) hsecret (by decide) hmac
    (Crypto.decode_base64UrlEncode (List.replicate 32 0))
  change listingClaims (ascii "Bearer " ++ (Crypto.base64UrlEncode header ++
    0x2e :: Crypto.base64UrlEncode text ++ [0x2e] ++
      Crypto.base64UrlEncode (List.replicate 32 0))) = _
  rw [listingClaims, Webhook.authenticate_segments _ hsegments, Program.result, hverify, if_pos rfl]
  simp only [htext.parses]

theorem speaksTwirp_listingServer : listingServer.SpeaksTwirp listingNetwork where
  reads sent service name request response token claims message hschema hmethod hurl htype hbearer
      hsigns hadmits hparse := by
    simp only [listingServer, Option.ite_none_right_eq_some, Option.some.injEq,
      Prod.mk.injEq] at hschema
    obtain ⟨⟨rfl, rfl⟩, rfl, rfl⟩ := hschema
    have hroute : sent.url =
        ascii "http://localhost:7880/twirp/livekit.RoomService/ListRooms" := hurl
    change unexpired claims = true at hadmits
    change listingRead sent = _
    simp only [listingRead, guard, hmethod, hroute, htype, hbearer, listingClaims_signs hsigns,
      hadmits, hparse, if_true, Option.pure_def, Option.bind_eq_bind, Option.bind_some]
  serves served sent call request response hread hschema := by
    change listingRead sent.2 = some call at hread
    simp only [listingServer, Option.ite_none_right_eq_some, Option.some.injEq,
      Prod.mk.injEq] at hschema
    rw [listingNetwork, hread]
    refine ⟨_, rfl, ?_⟩
    by_cases hfirst : served = 0
    · simp only [listingServer, if_pos hfirst]
      exact ⟨by decide, by decide, rfl⟩
    · simp only [listingServer, if_neg hfirst]
      exact ⟨rfl, Or.inr (by decide), reports_unavailable⟩

def listingCall : ClientCall Unit roomProtobuf where
  context := sampleContext "http://localhost:7880"
  surroundings :=
    { sampleSurroundings with
      backend := .constant Webhook.sampleDigest (List.replicate 32 0)
      parseStruct := readStruct }
  method := RoomServiceClient.listRooms
  request := []

theorem sendable_listingCall : Sendable listingServer listingCall where
  paired :=
    { url := rfl
      signs := rfl
      secret := rfl
      hmac := fun _ _ h => (Except.ok.inj h).symm
      classic := rfl
      reads := readsJson_readStruct }
  method := rfl
  admits := by
    change unexpired listingCall.claims = true
    decide +kernel
  utf8 := by decide
  message := by
    rintro _ _ ⟨⟩ ⟨⟩
    rfl

def listingApplication : Program (ClientCall Unit roomProtobuf) (fun _ => Bytes) Thrown Bytes := do
  let _ ← Program.perform listingCall
  Program.perform listingCall

theorem makes_listingApplication :
    listingApplication.Makes (Sendable listingServer) := by
  refine ⟨sendable_listingCall, ?_⟩
  intro reply
  cases reply with
  | error e => trivial
  | ok rooms => exact ⟨sendable_listingCall, fun _ => trivial⟩

/-- The second call fails, and the server has handled both. -/
theorem application_remote_sample :
    (listingApplication.translate ClientCall.invoke).runFrom listingNetwork 0 =
      (.error (.error ⟨.http, ascii "try later", 503, ascii "unavailable"⟩), 2) :=
  (application_remote speaksTwirp_listingServer makes_listingApplication 0).1

end Listing

end Applications

end LivekitServer

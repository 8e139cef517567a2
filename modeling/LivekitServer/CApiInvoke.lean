import LivekitServer.CApiToken
import LivekitServer.ServiceClients
import LivekitServer.WebhookReceiver

/-!
# The C ABI

`lksInvoke` parses its input, executes the operation and encodes what comes of it. On its way it
calls the callback of the host, as a transport or as a key provider, or sends a request on the
default transport. Exceptions may strike at any point; they end as a failure envelope or, where
that cannot be encoded, as a null pointer.
-/

namespace LivekitServer

/-- The bytes at a pointer. -/
abbrev Memory := ℕ → UInt8

def Memory.read (memory : Memory) (size : ℕ) : Bytes := (List.range size).map memory

/-- A text in memory. -/
def Memory.ofText (text : Bytes) : Memory := fun i => text.getD i 0

@[simp] theorem Memory.read_ofText (text : Bytes) : (ofText text).read text.length = text := by
  refine List.ext_getElem (by simp [read]) fun i _ h => ?_
  simp [read, ofText, List.getElem?_eq_getElem h]

/-- `std::numeric_limits<int>::max()`. -/
def maxInt : ℕ := 2 ^ 31 - 1

/-- What the callback of the host leaves behind. -/
structure HostReply where
  status : ℤ
  response : Option Memory
  size : ℕ

/-- The reply with a text. -/
def HostReply.ofText (text : Bytes) : HostReply := ⟨0, some (.ofText text), text.length⟩

/-- What leaves the library during a call of the C ABI. -/
inductive Outgoing
  | callback (json : Bytes)
  | send (request : HttpRequest)
  deriving DecidableEq

abbrev OutgoingReply : Outgoing → Type
  | .callback _ => HostReply
  | .send _ => HttpResponse

abbrev HostProgram := Program Outgoing OutgoingReply Thrown

/-- The transports of a client that is made by the C ABI. -/
inductive Transport
  | callback
  | default
  deriving DecidableEq

/-- What the C ABI runs on. The order in which the two arguments of `Receive` are evaluated is the
compiler's. -/
structure Native where
  surroundings : Surroundings
  env : Environment
  createDefaultHttpTransport : Outcome Unit
  protobuf : Protobuf
  parseEvent : Bytes → Except Bytes EventMessage
  print : Fields → Option Bytes
  bodyFirst : Bool

namespace CApi

section Exchange

variable (native : Native) (callback : Bool)

def parse (json : Bytes) : Outcome Fields :=
  match native.surroundings.parseStruct json with
  | some obj => .ok obj
  | none => raise .invalidArgument (ascii "invalid C ABI JSON")

def encode (obj : Fields) : Outcome Bytes :=
  match native.print obj with
  | some json => .ok json
  | none => raise .protocol (ascii "could not encode C ABI result")

variable {native} in
theorem parse_ok {json : Bytes} {obj : Fields} :
    parse native json = .ok obj ↔ native.surroundings.parseStruct json = some obj := by
  unfold parse
  cases native.surroundings.parseStruct json <;> simp [raise]

variable {native} in
theorem encode_ok {obj : Fields} {json : Bytes} :
    encode native obj = .ok json ↔ native.print obj = some json := by
  unfold encode
  cases native.print obj <;> simp [raise]

/-- The lambda around the callback, when it returns. -/
def replyText (reply : HostReply) : Outcome Bytes :=
  match reply.response with
  | some memory =>
    if reply.status ≠ 0 ∨ reply.size > maxInt then
      raise .transport (ascii "C ABI callback failed or returned an invalid buffer")
    else .ok (memory.read reply.size)
  | none => raise .transport (ascii "C ABI callback failed or returned an invalid buffer")

/-- What `Exchange` makes of the response. -/
def readReply (reply : HostReply) : Outcome Fields := do
  let response ← replyText reply
  let result ← parse native response
  let error ← boolean result "error"
  if error then raise .transport (ascii "C ABI callback failed")
  return result

def exchange (request : Fields) : HostProgram Fields :=
  if callback then do
    let json ← encode native request
    let reply ← Program.perform (Outgoing.callback json)
    readReply native reply
  else .done (raise .invalidArgument (ascii "C ABI callback is required"))

end Exchange

section Callbacks

variable (native : Native) (callback : Bool)

def transportRequest (request : HttpRequest) : Fields :=
  [(ascii "kind", .string (ascii "transport")),
    (ascii "url", .string request.url),
    (ascii "method", .string request.method),
    (ascii "body", .string (Crypto.base64UrlEncode request.body)),
    (ascii "timeout_ms", .string (Decimal.signed request.timeout)),
    (ascii "headers", .list (request.headers.map fun h => .list [.string h.1, .string h.2]))]

/-- The response that `CallbackTransport::Send` reads off the callback's object. -/
def transportResponse (response : Fields) : Outcome HttpResponse := do
  let status ← integer response "status_code"
  if status < 100 ∨ status > 599 then
    raise .transport (ascii "C ABI transport returned invalid HTTP status")
  let body ← decodeBody response "body"
  return ⟨status, body⟩

/-- `CallbackTransport::Send`. -/
def callbackSend (request : HttpRequest) : HostProgram HttpResponse := do
  let response ← exchange native callback (transportRequest request)
  transportResponse response

/-- A transport of the C ABI sends a request. -/
def sendOn : (sent : Transport × HttpRequest) → HostProgram HttpResponse
  | (.callback, request) => callbackSend native callback request
  | (.default, request) => Program.perform (Outgoing.send request)

def keyRequest (key : Bytes) : Fields :=
  [(ascii "kind", .string (ascii "key")), (ascii "key", .string key)]

/-- The key provider over the callback. -/
def provideKey (key : Bytes) : HostProgram Bytes := do
  let response ← exchange native callback (keyRequest key)
  string response "secret"

end Callbacks

section Operations

variable (native : Native) (callback : Bool)

def apiOptions (obj : Fields) : Outcome (ApiOptions Transport) := do
  let url ← string obj "url"
  let apiKey ← string obj "api_key"
  let apiSecret ← string obj "api_secret"
  let accessToken ← string obj "access_token"
  let timeout ← integer obj "timeout_ms"
  let useTransport ← boolean obj "use_transport"
  return ⟨url, apiKey, apiSecret, accessToken, timeout,
    if useTransport then some .callback else none⟩

/-- The object of a webhook event. -/
def eventFields (event : WebhookEvent) : Fields :=
  [(ascii "event", .string event.event), (ascii "id", .string event.id),
    (ascii "raw_body", .string event.rawBody),
    (ascii "created_at", .string (Decimal.signed event.createdAt))] ++
  (event.room.map fun room => (ascii "room",
    newObject [("sid", room.sid), ("name", room.name), ("metadata", room.metadata)])).toList ++
  (event.participant.map fun participant => (ascii "participant",
    newObject [("sid", participant.sid), ("identity", participant.identity),
      ("name", participant.name), ("metadata", participant.metadata)])).toList ++
  (event.track.map fun track => (ascii "track",
    newObject [("sid", track.sid), ("name", track.name)])).toList ++
  (event.egress.map fun egress => (ascii "egress",
    newObject [("egress_id", egress.egressId), ("room_id", egress.roomId),
      ("room_name", egress.roomName)])).toList ++
  (event.ingress.map fun ingress => (ascii "ingress",
    newObject [("ingress_id", ingress.ingressId), ("name", ingress.name),
      ("room_name", ingress.roomName)])).toList

/-- The two arguments of `Receive`, body and authorization. -/
def receiveArguments (options : Fields) : Outcome (Bytes × Bytes) :=
  if native.bodyFirst then do
    let body ← decodeBody options "body"
    let authorization ← string options "authorization"
    return (body, authorization)
  else do
    let authorization ← string options "authorization"
    let body ← decodeBody options "body"
    return (body, authorization)

def services : Services :=
  ⟨native.surroundings.backend, native.surroundings.parseStruct, native.parseEvent⟩

/-- The receiver over some key provider. -/
def receiveWith (options : Fields) (provider : Bytes → HostProgram Bytes) :
    HostProgram WebhookEvent := do
  let (body, authorization) ← receiveArguments native options
  (Webhook.receiveAt (services native) native.surroundings.clock native.surroundings.now body
    authorization).translate provider

def receive (options : Fields) : HostProgram Value := do
  let useKeyProvider ← boolean options "use_key_provider"
  if useKeyProvider then
    let event ← receiveWith native options (provideKey native callback)
    return .struct (eventFields event)
  else
    let entries ← object options "secrets"
    let secrets ← stringMap entries
    let event ← receiveWith native options fun key => pure (Webhook.keyMap secrets key)
    return .struct (eventFields event)

/-- `Call`: the method that an operation names. -/
def findMethod (operation : Bytes) : Option Method :=
  (dispatchTable.find? fun row => operation = ascii row.1).map Prod.snd

/-- What an operation does with a client. -/
def callApi (context : ClientContext Transport) (operation : Bytes) (input : Fields) :
    ClientContext.Sending Transport Value :=
  if operation = ascii "get_dispatch" then do
    let dispatchId ← string input "dispatch_id"
    let room ← string input "room"
    let result ← AgentDispatchClient.getDispatchModel native.surroundings native.protobuf context
      dispatchId room
    return result.elim .null .string
  else do
    let request ← string input "request"
    match findMethod operation with
    | none => .done (raise .invalidArgument (ascii "unknown C ABI server operation"))
    | some method =>
      let json ← method.invokeModel native.surroundings native.protobuf context request
      return .string json

/-- A client is made of the options and used once. -/
def executeApi (operation : Bytes) (input options : Fields) :
    ClientContext.Sending Transport Value := do
  let options ← apiOptions options
  let context ← ClientContext.new native.env
    (native.createDefaultHttpTransport.map fun _ => .default) options
  callApi native context operation input

def execute (input : Fields) : HostProgram Value := do
  let operation ← string input "operation"
  let options ← object input "options"
  if operation = ascii "token" then
    let token ← sign native.surroundings.clock native.surroundings.backend native.surroundings.loc
      options
    return .string token
  else if operation = ascii "webhook" then receive native callback options
  else (executeApi native operation input options).translate (sendOn native callback)

end Operations

section Invoke

variable (native : Native) (callback : Bool)

/-- The response to a failed call. -/
def failure (error : Error) : Fields :=
  [(ascii "ok", .bool false), (ascii "code", .number error.code.value),
    (ascii "http_status", .number error.httpStatus),
    (ascii "twirp_code", .string error.twirpCode), (ascii "message", .string error.what)]

/-- The error that stands for an exception. -/
def asError : Thrown → Error
  | .error e => e
  | .standard what => ⟨.unknown, what, 0, []⟩
  | .unknown => ⟨.unknown, ascii "unknown native C ABI failure", 0, []⟩

/-- Exceptions of the execution, of `Failure` and of `Copy`, and a `malloc` that fails. -/
structure Faults where
  execution : ℕ → Option Thrown
  failure : Option Thrown
  copy : Option Thrown
  outOfMemory : Bool

/-- Nothing fails by itself. -/
def Faults.none : Faults := ⟨fun _ => .none, .none, .none, false⟩

/-- The buffer that is returned, none for a null pointer, and the length that is stored. -/
structure Output where
  buffer : Option Bytes
  length : ℕ
  deriving DecidableEq

def respond (faults : Faults) : Except Thrown Value → Outcome Fields
  | .ok value => .ok [(ascii "value", value), (ascii "ok", .bool true)]
  | .error e =>
    match faults.failure with
    | some thrown => .error thrown
    | .none => .ok (failure (asError e))

def copy (faults : Faults) (result : Fields) : Outcome Output :=
  match faults.copy with
  | some thrown => .error thrown
  | .none => do
    let json ← encode native result
    return if faults.outOfMemory then ⟨.none, 0⟩ else ⟨some (json ++ [0]), json.length⟩

/-- The input as a text. -/
def readInput (input : Option Memory) (length : ℕ) : Outcome Bytes :=
  match input with
  | some memory =>
    if length > maxInt then raise .invalidArgument (ascii "invalid C ABI input buffer")
    else .ok (memory.read length)
  | none => raise .invalidArgument (ascii "invalid C ABI input buffer")

def executeInput (input : Option Memory) (length : ℕ) : HostProgram Value := do
  let text ← readInput input length
  let obj ← parse native text
  execute native callback obj

/-- What follows the execution: no exception gets past it. -/
def finish (faults : Faults) (result : Except Thrown Value) : Output :=
  match respond faults result >>= copy native faults with
  | .ok output => output
  | .error _ => ⟨none, 0⟩

def lksInvoke (input : Option Memory) (length : ℕ) (faults : Faults) : HostProgram Output :=
  ((executeInput native callback input length).faulty faults.execution).resume fun result =>
    pure (finish native faults result)

end Invoke

end CApi
end LivekitServer

import LivekitServer.Crypto
import LivekitServer.Program
import LivekitServer.SortedMap
import LivekitServer.Struct

/-!
# The webhook receiver

`receiveAt` follows `WebhookReceiver::ReceiveAt` stage by stage: the token is authenticated, which
calls the key provider, then its time claims are compared with the clock, then the checksum of
the body, and at last the body is parsed. `receiveAndDispatch` goes on to the callbacks.
-/

namespace LivekitServer

structure WebhookRoom where
  sid : Bytes
  name : Bytes
  metadata : Bytes
  deriving DecidableEq

structure WebhookParticipant where
  sid : Bytes
  identity : Bytes
  name : Bytes
  metadata : Bytes
  deriving DecidableEq

structure WebhookTrack where
  sid : Bytes
  name : Bytes
  deriving DecidableEq

structure WebhookEgress where
  egressId : Bytes
  roomId : Bytes
  roomName : Bytes
  deriving DecidableEq

structure WebhookIngress where
  ingressId : Bytes
  name : Bytes
  roomName : Bytes
  deriving DecidableEq

/-- The fields of the protobuf message `livekit.WebhookEvent` that the receiver reads. -/
structure EventMessage where
  event : Bytes
  id : Bytes
  createdAt : ℤ
  room : Option WebhookRoom
  participant : Option WebhookParticipant
  track : Option WebhookTrack
  egressInfo : Option WebhookEgress
  ingressInfo : Option WebhookIngress
  createdAt_range : InInt64 createdAt
  deriving DecidableEq

structure WebhookEvent where
  event : Bytes
  id : Bytes
  createdAt : ℤ
  room : Option WebhookRoom
  participant : Option WebhookParticipant
  track : Option WebhookTrack
  egress : Option WebhookEgress
  ingress : Option WebhookIngress
  rawBody : Bytes
  createdAt_range : InInt64 createdAt
  deriving DecidableEq

/-- The members of `WebhookCallbacks`. -/
inductive CallbackSlot
  | onEvent
  | onRoomStarted
  | onRoomFinished
  | onParticipantJoined
  | onParticipantLeft
  | onParticipantConnectionAborted
  | onTrackPublished
  | onTrackUnpublished
  | onEgressStarted
  | onEgressUpdated
  | onEgressEnded
  | onIngressStarted
  | onIngressEnded
  deriving DecidableEq

/-- What the receiver uses of the cryptographic library and of the protobuf runtime. The parser
of events reports the text of its status when it fails. -/
structure Services where
  backend : Crypto.Backend
  parseStruct : Bytes → Option Fields
  parseEvent : Bytes → Except Bytes EventMessage

/-- `if (condition) throw Error(code, message)`. -/
def throwIf (condition : Bool) (code : ErrorCode) (message : String) : Outcome Unit :=
  if condition then raise code (ascii message) else .ok ()

namespace Webhook

section KeyProviders

/-- The key provider over one key and its secret. -/
def singleKey (apiKey apiSecret requested : Bytes) : Bytes :=
  if requested = apiKey then apiSecret else []

/-- The key provider over a map of secrets. -/
def keyMap (secrets : SortedMap Bytes Bytes) (requested : Bytes) : Bytes :=
  (secrets.find requested).getD []

end KeyProviders

section Fields

def jsonStringField (parseStruct : Bytes → Option Fields) (json : Bytes) (name : String) :
    Outcome Bytes :=
  match parseStruct json with
  | none => raise .authentication (ascii "webhook JWT contains invalid JSON")
  | some object =>
    match object.lookup (ascii name) with
    | none => .ok []
    | some (.string value) => .ok value
    | some _ => raise .authentication (ascii "webhook JWT string claim is invalid")

/-- `std::isspace` in the C locale. -/
def isSpace (ch : UInt8) : Bool := ch = 0x20 || (0x09 ≤ ch && ch ≤ 0x0d)

/-- The digit loop of `JsonIntegerField`. -/
def digitLoop : Bytes → ℤ → Outcome ℤ
  | [], value => .ok value
  | ch :: rest, value =>
    if Decimal.isDigit ch then
      let digit : ℤ := Decimal.digitValue ch
      if value > (2 ^ 63 - 1 - digit).tdiv 10 then
        raise .authentication (ascii "webhook JWT time claim is too large")
      else digitLoop rest (value * 10 + digit)
    else .ok value

/-- What `JsonIntegerField` does after the colon. -/
def integerAfterColon (text : Bytes) : Outcome (Option ℤ) :=
  let text := text.dropWhile isSpace
  let negative := text.head? = some 0x2d
  let text := if negative then text.tail else text
  match text with
  | [] => raise .authentication (ascii "webhook JWT time claim is invalid")
  | ch :: _ =>
    if Decimal.isDigit ch then
      (digitLoop text 0).map fun value => some (if negative then -value else value)
    else raise .authentication (ascii "webhook JWT time claim is invalid")

def marker (name : String) : Bytes := [0x22] ++ ascii name ++ [0x22]

def jsonIntegerField (json : Bytes) (name : String) : Outcome (Option ℤ) :=
  match Bytes.findText (marker name) json with
  | none => .ok none
  | some position =>
    match json.find 0x3a (position + (marker name).length) with
    | none => raise .authentication (ascii "webhook JWT contains invalid JSON")
    | some position => integerAfterColon (json.drop (position + 1))

end Fields

section Stages

variable (services : Services)

/-- The key provider is called with a key and replies with its secret. -/
abbrev KeyProgram := Program Bytes (fun _ => Bytes) Thrown

/-- The checks on a token whose dots stand at two places. The claims are the result. -/
def verify (authorization : Bytes) (firstDot secondDot : ℕ) : KeyProgram Bytes := do
  let header ← Crypto.base64UrlDecode (authorization.substr 0 firstDot)
  let alg ← jsonStringField services.parseStruct header "alg"
  throwIf (alg ≠ ascii "HS256") .authentication "webhook JWT must use HS256"
  let claims ← Crypto.base64UrlDecode
    (authorization.substr (firstDot + 1) (secondDot - firstDot - 1))
  let issuer ← jsonStringField services.parseStruct claims "iss"
  throwIf (issuer = []) .authentication "webhook JWT issuer is missing"
  let secret ← Program.perform issuer
  throwIf (secret = []) .authentication "webhook API secret was not found"
  let expected ← Crypto.hmacSha256 services.backend secret (authorization.substr 0 secondDot)
  let actual ← Crypto.base64UrlDecode (authorization.drop (secondDot + 1))
  throwIf (!Crypto.constantTimeEqual expected actual) .authentication
    "webhook JWT signature is invalid"
  return claims

def stripBearer (authorization : Bytes) : Bytes :=
  if ascii "Bearer " <+: authorization then authorization.drop 7 else authorization

def authenticate (authorization : Bytes) : KeyProgram Bytes :=
  let authorization := stripBearer authorization
  if authorization = [] then
    .done (raise .authentication (ascii "webhook Authorization header is required"))
  else
    let notJwt : KeyProgram Bytes :=
      .done (raise .authentication (ascii "webhook Authorization header is not a JWT"))
    let firstDot := authorization.find 0x2e 0
    let secondDot := authorization.find 0x2e (Bytes.afterIndex firstDot)
    match firstDot, secondDot with
    | some first, some second =>
      if (authorization.find 0x2e (second + 1)).isSome then notJwt
      else verify services authorization first second
    | _, _ => notJwt

/-- `token_leeway`, in seconds. -/
def leeway : ℤ := 60

def checkTimes (clock : SystemClock) (now : TimePoint) (claims : Bytes) : Outcome Unit := do
  let nowSeconds := clock.secondsSinceEpoch now
  let expires ← jsonIntegerField claims "exp"
  throwIf (expires.any fun e => nowSeconds > wrapInt64 (e + leeway)) .authentication
    "webhook JWT has expired"
  let notBefore ← jsonIntegerField claims "nbf"
  throwIf (notBefore.any fun n => wrapInt64 (nowSeconds + leeway) < n) .authentication
    "webhook JWT is not valid yet"

def checkBody (claims body : Bytes) : Outcome Unit := do
  let claimed ← jsonStringField services.parseStruct claims "sha256"
  let digest ← Crypto.sha256 services.backend body
  throwIf (claimed = [] || !Crypto.constantTimeEqual claimed (Crypto.base64Encode digest))
    .authentication "webhook body checksum is invalid"

def parseBody (body : Bytes) : Outcome WebhookEvent :=
  match services.parseEvent body with
  | .error status => raise .protocol (ascii "webhook JSON is invalid: " ++ status)
  | .ok parsed =>
    .ok
      { event := parsed.event
        id := parsed.id
        createdAt := parsed.createdAt
        room := parsed.room
        participant := parsed.participant
        track := parsed.track
        egress := parsed.egressInfo
        ingress := parsed.ingressInfo
        rawBody := body
        createdAt_range := parsed.createdAt_range }

/-- What follows the authentication of a token. -/
def receiveClaims (clock : SystemClock) (now : TimePoint) (body claims : Bytes) :
    Outcome WebhookEvent := do
  checkTimes clock now claims
  checkBody services claims body
  parseBody services body

def receiveAt (clock : SystemClock) (now : TimePoint) (body authorization : Bytes) :
    KeyProgram WebhookEvent := do
  let claims ← authenticate services authorization
  receiveClaims services clock now body claims

variable {allowed : Bytes → Prop}
  (hallowed : ∀ claims issuer, jsonStringField services.parseStruct claims "iss" = .ok issuer →
    allowed issuer)
include hallowed

theorem callsAtMost_verify (authorization : Bytes) (firstDot secondDot : ℕ) :
    (verify services authorization firstDot secondDot).CallsAtMost allowed 1 := by
  refine Program.callsAtMost_bind_done fun header => Program.callsAtMost_bind_done fun alg =>
    Program.callsAtMost_bind_done fun _ => Program.callsAtMost_bind_done fun claims =>
    Program.callsAtMost_bind_ok fun issuer hissuer => Program.callsAtMost_bind_done fun _ => ?_
  refine (Program.callsAtMost_perform (hallowed claims issuer hissuer)).bind (n := 0)
    fun secret => ?_
  exact Program.callsAtMost_bind_done fun _ => Program.callsAtMost_bind_done fun expected =>
    Program.callsAtMost_bind_done fun actual => Program.callsAtMost_bind_done fun _ =>
    Program.callsAtMost_done 0 _

theorem callsAtMost_authenticate (authorization : Bytes) :
    (authenticate services authorization).CallsAtMost allowed 1 := by
  simp only [authenticate]
  split_ifs
  · exact Program.callsAtMost_done 1 _
  · split
    · split_ifs
      · exact Program.callsAtMost_done 1 _
      · exact callsAtMost_verify services hallowed _ _ _
    · exact Program.callsAtMost_done 1 _

/-- The key provider is called at most once, and with an issuer. -/
theorem callsAtMost_receiveAt (clock : SystemClock) (now : TimePoint)
    (body authorization : Bytes) :
    (receiveAt services clock now body authorization).CallsAtMost allowed 1 :=
  (callsAtMost_authenticate services hallowed authorization).bind fun _ =>
    Program.callsAtMost_done 0 _

end Stages

section Dispatch

/-- The callback for one kind of event. -/
def specificCallback (event : Bytes) : Option CallbackSlot :=
  if event = ascii "room_started" then some .onRoomStarted
  else if event = ascii "room_finished" then some .onRoomFinished
  else if event = ascii "participant_joined" then some .onParticipantJoined
  else if event = ascii "participant_left" then some .onParticipantLeft
  else if event = ascii "participant_connection_aborted" then
    some .onParticipantConnectionAborted
  else if event = ascii "track_published" then some .onTrackPublished
  else if event = ascii "track_unpublished" then some .onTrackUnpublished
  else if event = ascii "egress_started" then some .onEgressStarted
  else if event = ascii "egress_updated" then some .onEgressUpdated
  else if event = ascii "egress_ended" then some .onEgressEnded
  else if event = ascii "ingress_started" then some .onIngressStarted
  else if event = ascii "ingress_ended" then some .onIngressEnded
  else none

/-- What the receiver calls: the key provider and the callbacks. -/
inductive Call
  | provideKey (key : Bytes)
  | callback (slot : CallbackSlot) (event : WebhookEvent)

abbrev Reply : Call → Type
  | .provideKey _ => Bytes
  | .callback _ _ => Unit

/-- `Dispatch`, for the callbacks that are set. -/
def dispatch (callbacks : CallbackSlot → Bool) (event : WebhookEvent) :
    Program Call Reply Thrown Unit := do
  if callbacks .onEvent then Program.perform (Call.callback .onEvent event)
  match specificCallback event.event with
  | none => return ()
  | some slot => if callbacks slot then Program.perform (Call.callback slot event)

def receiveAndDispatch (services : Services) (callbacks : CallbackSlot → Bool)
    (clock : SystemClock) (now : TimePoint) (body authorization : Bytes) :
    Program Call Reply Thrown Unit := do
  let event ← (receiveAt services clock now body authorization).translate fun key =>
    Program.perform (Call.provideKey key)
  dispatch callbacks event

end Dispatch
end Webhook
end LivekitServer

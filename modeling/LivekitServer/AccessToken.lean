import LivekitServer.Crypto
import LivekitServer.Locale
import LivekitServer.SortedMap
import LivekitServer.Clock

/-!
# The access token builder

The builder and its encoder, as `access_token.cpp` writes them: the claims are put together by
hand on a string stream, and every integer on it, also inside a `\u` escape, is formatted with
the locale of the stream. A builder holds a positive lifetime because `SetValidFor` refuses any
other.
-/

namespace LivekitServer

instance : KeyOrder Bytes where
  trans _ _ _ := List.lt_trans
  asymm _ _ := List.lt_asymm
  connected _ _ hab hba := List.le_antisymm hba hab

abbrev StringMap := SortedMap Bytes Bytes

structure VideoGrant where
  roomCreate : Bool
  roomList : Bool
  roomRecord : Bool
  roomAdmin : Bool
  roomJoin : Bool
  room : Bytes
  destinationRoom : Bytes
  ingressAdmin : Bool
  canPublish : Option Bool
  canSubscribe : Option Bool
  canPublishData : Option Bool
  canUpdateOwnMetadata : Option Bool
  canPublishSources : List Bytes
  hidden : Bool
  recorder : Bool
  agent : Bool
  deriving DecidableEq

/-- `VideoGrant{}`. -/
def VideoGrant.none : VideoGrant :=
  ⟨false, false, false, false, false, [], [], false, Option.none, Option.none, Option.none,
    Option.none, [], false, false, false⟩

structure SipGrant where
  admin : Bool
  call : Bool
  deriving DecidableEq

structure AgentGrant where
  admin : Bool
  simulationAdmin : Bool
  deriving DecidableEq

structure AccessToken where
  apiKey : Bytes
  apiSecret : Bytes
  identity : Bytes
  name : Bytes
  metadata : Bytes
  attributes : StringMap
  validFor : ℤ
  videoGrant : Option VideoGrant
  sipGrant : Option SipGrant
  agentGrant : Option AgentGrant
  validFor_pos : 0 < validFor
  validFor_range : InInt64 validFor

/-- A stream of object members and the `first` flag that is threaded along with it. -/
structure MemberStream where
  text : Bytes
  first : Bool

namespace AccessToken

section Encoder

variable (loc : Locale)

def escapeByte (ch : UInt8) : Bytes :=
  if ch = 0x22 then ascii "\\\""
  else if ch = 0x5c then ascii "\\\\"
  else if ch = 0x08 then ascii "\\b"
  else if ch = 0x0c then ascii "\\f"
  else if ch = 0x0a then ascii "\\n"
  else if ch = 0x0d then ascii "\\r"
  else if ch = 0x09 then ascii "\\t"
  else if ch < 0x20 then ascii "\\u" ++ loc.insertHex 4 0x30 ch.toNat
  else [ch]

def escapeJson (value : Bytes) : Bytes := value.flatMap (escapeByte loc)

/-- `(first ? "" : ",")`. -/
def comma (first : Bool) : Bytes := if first then [] else [0x2c]

def addBool (json : MemberStream) (name : String) (value includeFalse : Bool) : MemberStream :=
  if !value && !includeFalse then json
  else
    ⟨json.text ++ (comma json.first ++ [0x22] ++ ascii name ++ ascii "\":" ++
      ascii (if value then "true" else "false")), false⟩

def addString (json : MemberStream) (name : String) (value : Bytes) : MemberStream :=
  if value = [] then json
  else
    ⟨json.text ++ (comma json.first ++ [0x22] ++ ascii name ++ ascii "\":\"" ++
      escapeJson loc value ++ [0x22]), false⟩

/-- A tri-state boolean: written when it is set, also when it is `false`. -/
def addOptional (json : MemberStream) (name : String) (value : Option Bool) : MemberStream :=
  match value with
  | none => json
  | some value => addBool json name value true

/-- The loop over `can_publish_sources`. -/
def sourceList : Bool → List Bytes → Bytes
  | _, [] => []
  | first, source :: sources =>
    comma first ++ [0x22] ++ escapeJson loc source ++ [0x22] ++ sourceList false sources

def addSources (json : MemberStream) (sources : List Bytes) : MemberStream :=
  if sources = [] then json
  else
    ⟨json.text ++ (comma json.first ++ ascii "\"canPublishSources\":[" ++
      sourceList loc true sources ++ [0x5d]), false⟩

def videoGrantJson (grant : VideoGrant) : Bytes :=
  let json : MemberStream := ⟨[0x7b], true⟩
  let json := addBool json "roomCreate" grant.roomCreate false
  let json := addBool json "roomList" grant.roomList false
  let json := addBool json "roomRecord" grant.roomRecord false
  let json := addBool json "roomAdmin" grant.roomAdmin false
  let json := addBool json "roomJoin" grant.roomJoin false
  let json := addString loc json "room" grant.room
  let json := addString loc json "destinationRoom" grant.destinationRoom
  let json := addBool json "ingressAdmin" grant.ingressAdmin false
  let json := addOptional json "canPublish" grant.canPublish
  let json := addOptional json "canSubscribe" grant.canSubscribe
  let json := addOptional json "canPublishData" grant.canPublishData
  let json := addOptional json "canUpdateOwnMetadata" grant.canUpdateOwnMetadata
  let json := addSources loc json grant.canPublishSources
  let json := addBool json "hidden" grant.hidden false
  let json := addBool json "recorder" grant.recorder false
  let json := addBool json "agent" grant.agent false
  json.text ++ [0x7d]

def sipGrantJson (grant : SipGrant) : Bytes :=
  let json : MemberStream := ⟨[0x7b], true⟩
  let json := addBool json "admin" grant.admin false
  let json := addBool json "call" grant.call false
  json.text ++ [0x7d]

def agentGrantJson (grant : AgentGrant) : Bytes :=
  let json : MemberStream := ⟨[0x7b], true⟩
  let json := addBool json "admin" grant.admin false
  let json := addBool json "simulationAdmin" grant.simulationAdmin false
  json.text ++ [0x7d]

/-- The loop over `attributes_`. -/
def attributeList : Bool → List (Bytes × Bytes) → Bytes
  | _, [] => []
  | first, (key, value) :: entries =>
    comma first ++ [0x22] ++ escapeJson loc key ++ ascii "\":\"" ++ escapeJson loc value ++
      [0x22] ++ attributeList false entries

/-- A string claim after the first ones: left out when it is empty. -/
def stringClaim (name : String) (value : Bytes) : Bytes :=
  if value = [] then []
  else ascii ",\"" ++ ascii name ++ ascii "\":\"" ++ escapeJson loc value ++ [0x22]

def attributesClaim (attributes : StringMap) : Bytes :=
  if attributes.entries = [] then []
  else ascii ",\"attributes\":\x7b" ++ attributeList loc true attributes.entries ++ [0x7d]

/-- A grant claim: left out when the grant is not set. -/
def grantClaim {γ : Type} (name : String) (json : γ → Bytes) (grant : Option γ) : Bytes :=
  match grant with
  | none => []
  | some grant => ascii ",\"" ++ ascii name ++ ascii "\":" ++ json grant

/-- The text that `ToJwt` collects in `claims`. -/
def claimsText (token : AccessToken) (issuedAt expiresAt : ℤ) : Bytes :=
  ascii "\x7b\"iss\":\"" ++ escapeJson loc token.apiKey ++ ascii "\",\"nbf\":" ++
    loc.insertInteger issuedAt ++ ascii ",\"exp\":" ++ loc.insertInteger expiresAt ++
    ascii ",\"iat\":" ++ loc.insertInteger issuedAt ++
    stringClaim loc "sub" token.identity ++ stringClaim loc "name" token.name ++
    stringClaim loc "metadata" token.metadata ++ attributesClaim loc token.attributes ++
    grantClaim "video" (videoGrantJson loc) token.videoGrant ++
    grantClaim "sip" sipGrantJson token.sipGrant ++
    grantClaim "agent" agentGrantJson token.agentGrant ++ [0x7d]

end Encoder

def header : Bytes := ascii "\x7b\"alg\":\"HS256\",\"typ\":\"JWT\"\x7d"

section Builder

variable (clock : SystemClock) (token : AccessToken)

/-- `AccessToken(api_key, api_secret)`, valid for six hours. -/
def new (apiKey apiSecret : Bytes) : AccessToken :=
  ⟨apiKey, apiSecret, [], [], [], SortedMap.empty, 21600, none, none, none, by decide, by decide⟩

def setIdentity (identity : Bytes) : AccessToken := { token with identity }

def setName (name : Bytes) : AccessToken := { token with name }

def setMetadata (metadata : Bytes) : AccessToken := { token with metadata }

def setAttributes (attributes : StringMap) : AccessToken := { token with attributes }

def setValidFor (validFor : ℤ) (hrange : InInt64 validFor) : Outcome AccessToken :=
  if h : validFor ≤ 0 then
    raise .invalidArgument (ascii "token lifetime must be positive")
  else .ok { token with validFor, validFor_pos := not_le.mp h, validFor_range := hrange }

def setVideoGrant (grant : VideoGrant) : AccessToken := { token with videoGrant := some grant }

def setSipGrant (grant : SipGrant) : AccessToken := { token with sipGrant := some grant }

def setAgentGrant (grant : AgentGrant) : AccessToken := { token with agentGrant := some grant }

def issuedAt (now : TimePoint) : ℤ := clock.secondsSinceEpoch now

def expiresAt (now : TimePoint) : ℤ := wrapInt64 (issuedAt clock now + token.validFor)

def unsignedToken (loc : Locale) (now : TimePoint) : Bytes :=
  Crypto.base64UrlEncode header ++ [0x2e] ++
    Crypto.base64UrlEncode
      (claimsText loc token (issuedAt clock now) (token.expiresAt clock now))

def toJwt (backend : Crypto.Backend) (loc : Locale) (now : TimePoint) : Outcome Bytes :=
  if token.apiKey = [] ∨ token.apiSecret = [] then
    raise .authentication (ascii "API key and secret are required to sign a token")
  else
    match Crypto.hmacSha256 backend token.apiSecret (token.unsignedToken clock loc now) with
    | .error e => .error e
    | .ok signature =>
      .ok (token.unsignedToken clock loc now ++ [0x2e] ++ Crypto.base64UrlEncode signature)

/-- The part of a token that is signed, for a text of the claims. -/
def signedPart (claims : Bytes) : Bytes :=
  Crypto.base64UrlEncode header ++ [0x2e] ++ Crypto.base64UrlEncode claims

/-- The token over a text of the claims. -/
def jwtOver (backend : Crypto.Backend) (secret claims : Bytes) : Outcome Bytes :=
  (Crypto.hmacSha256 backend secret (signedPart claims)).map fun signature =>
    signedPart claims ++ [0x2e] ++ Crypto.base64UrlEncode signature

theorem toJwt_eq (backend : Crypto.Backend) (loc : Locale) (now : TimePoint)
    (hkey : token.apiKey ≠ []) (hsecret : token.apiSecret ≠ []) :
    token.toJwt clock backend loc now = jwtOver backend token.apiSecret
      (claimsText loc token (issuedAt clock now) (token.expiresAt clock now)) := by
  have hset : ¬ (token.apiKey = [] ∨ token.apiSecret = []) := by simp [hkey, hsecret]
  have hpart : token.unsignedToken clock loc now = signedPart
      (claimsText loc token (issuedAt clock now) (token.expiresAt clock now)) := rfl
  rw [toJwt, if_neg hset, hpart, jwtOver]
  cases Crypto.hmacSha256 backend token.apiSecret _ with
  | error e => rfl
  | ok signature => rfl

end Builder

end AccessToken
end LivekitServer

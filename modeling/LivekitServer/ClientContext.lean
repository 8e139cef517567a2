import LivekitServer.AccessToken
import LivekitServer.Program
import LivekitServer.Struct
import Mathlib.Data.List.DropRight

/-!
# The client context

`ClientContext.new` resolves the URL and the credentials of a client, and `ClientContext.call`
makes one RPC: a token for the grant of the call, one request on the transport of the context, and
the error that a Twirp response stands for. The result of a call and its grant do not depend on
each other, so a call takes the request as the bytes it serializes to and the reader of its
response.
-/

namespace LivekitServer

structure HttpRequest where
  url : Bytes
  method : Bytes
  headers : List (Bytes × Bytes)
  body : Bytes
  timeout : ℤ
  deriving DecidableEq

/-- The headers of a response are not read. -/
structure HttpResponse where
  statusCode : ℤ
  body : Bytes
  deriving DecidableEq

structure RequestGrant where
  video : Option VideoGrant
  sip : Option SipGrant
  agent : Option AgentGrant
  deriving DecidableEq

/-- The variables that the context reads, empty where they are not set. -/
structure Environment where
  livekitUrl : Bytes
  livekitToken : Bytes
  livekitApiKey : Bytes
  livekitApiSecret : Bytes

structure ApiOptions (τ : Type) where
  url : Bytes
  apiKey : Bytes
  apiSecret : Bytes
  accessToken : Bytes
  timeout : ℤ
  transport : Option τ

structure ClientContext (τ : Type) where
  url : Bytes
  apiKey : Bytes
  apiSecret : Bytes
  accessToken : Bytes
  timeout : ℤ
  transport : τ
  deriving DecidableEq

/-- What one call takes from its surroundings: the digests, the clock and its time, the locale,
sixteen random bytes for the request id and for a nonce, and the reader of error bodies. -/
structure Surroundings where
  backend : Crypto.Backend
  clock : SystemClock
  loc : Locale
  now : TimePoint
  random : Outcome Bytes
  nonce : Outcome Bytes
  parseStruct : Bytes → Option Fields

namespace ClientContext

section Urls

/-- `std::tolower` in the C locale. -/
def toLower (b : UInt8) : UInt8 := if 0x41 ≤ b ∧ b ≤ 0x5a then b + 0x20 else b

def startsWithCaseInsensitive (value front : Bytes) : Bool :=
  front.length ≤ value.length && (value.take front.length).map toLower = front.map toLower

/-- `while (!url.empty() && url.back() == '/') url.pop_back();` -/
def stripSlashes (url : Bytes) : Bytes := url.rdropWhile (· = 0x2f)

def normalizeUrl (url : Bytes) : Outcome Bytes :=
  let url :=
    if startsWithCaseInsensitive url (ascii "ws://") then ascii "http://" ++ url.drop 5
    else if startsWithCaseInsensitive url (ascii "wss://") then ascii "https://" ++ url.drop 6
    else url
  if !startsWithCaseInsensitive url (ascii "http://") &&
      !startsWithCaseInsensitive url (ascii "https://") then
    raise .invalidArgument (ascii "LiveKit URL must use http, https, ws, or wss")
  else .ok (stripSlashes url)

end Urls

section Construction

variable {τ : Type}

/-- The credentials: API key, API secret and access token. -/
structure Credentials where
  apiKey : Bytes
  apiSecret : Bytes
  accessToken : Bytes
  deriving DecidableEq

/-- None of the three strings is set. -/
def Credentials.isEmpty (c : Credentials) : Bool :=
  c.accessToken = [] && c.apiKey = [] && c.apiSecret = []

/-- The two fallbacks of the constructor. The second one looks at what the first one filled in. -/
def resolveCredentials (env : Environment) (c : Credentials) : Credentials :=
  let c := if c.isEmpty then { c with accessToken := env.livekitToken } else c
  if c.isEmpty then { c with apiKey := env.livekitApiKey, apiSecret := env.livekitApiSecret }
  else c

def resolveUrl (env : Environment) (url : Bytes) : Bytes :=
  if url = [] then env.livekitUrl else url

/-- The credentials that the options set. -/
def explicit (options : ApiOptions τ) : Credentials :=
  ⟨options.apiKey, options.apiSecret, options.accessToken⟩

def credentials (context : ClientContext τ) : Credentials :=
  ⟨context.apiKey, context.apiSecret, context.accessToken⟩

def new (env : Environment) (createDefaultHttpTransport : Outcome τ) (options : ApiOptions τ) :
    Outcome (ClientContext τ) := do
  let url := resolveUrl env options.url
  if url = [] then
    raise .invalidArgument (ascii "LiveKit URL is required (ApiOptions::url or LIVEKIT_URL)")
  let url ← normalizeUrl url
  let c := resolveCredentials env (explicit options)
  if c.accessToken = [] ∧ (c.apiKey = [] ∨ c.apiSecret = []) then
    raise .authentication (ascii "provide an access token or both an API key and secret")
  if options.timeout ≤ 0 then
    raise .invalidArgument (ascii "HTTP timeout must be positive")
  let transport ← options.transport.elim createDefaultHttpTransport .ok
  return ⟨url, c.apiKey, c.apiSecret, c.accessToken, options.timeout, transport⟩

/-- An access token, or an API key and its secret. -/
def Credentials.Complete (c : Credentials) : Prop :=
  c.accessToken ≠ [] ∨ (c.apiKey ≠ [] ∧ c.apiSecret ≠ [])

theorem Credentials.complete_iff {c : Credentials} :
    c.Complete ↔ ¬(c.accessToken = [] ∧ (c.apiKey = [] ∨ c.apiSecret = [])) := by
  rw [Credentials.Complete, not_and_or, not_or]

variable {env : Environment} {create : Outcome τ} {options : ApiOptions τ}
  {context : ClientContext τ}

/-- What a constructed context is made of. -/
theorem new_ok :
    new env create options = .ok context ↔
      resolveUrl env options.url ≠ [] ∧
        normalizeUrl (resolveUrl env options.url) = .ok context.url ∧
        context.credentials = resolveCredentials env (explicit options) ∧
        context.credentials.Complete ∧ 0 < options.timeout ∧ context.timeout = options.timeout ∧
        options.transport.elim create .ok = .ok context.transport := by
  rw [new]
  simp only [check_ok, bind_ok, ← Credentials.complete_iff, not_le]
  constructor
  · rintro ⟨hurl, url, hnormal, hcomplete, htimeout, transport, htransport, h⟩
    obtain rfl := Except.ok.inj h
    exact ⟨hurl, hnormal, rfl, hcomplete, htimeout, rfl, htransport⟩
  · rintro ⟨hurl, hnormal, hcredentials, hcomplete, htimeout, heq, htransport⟩
    refine ⟨hurl, context.url, hnormal, hcredentials ▸ hcomplete, htimeout, context.transport,
      htransport, ?_⟩
    rw [← hcredentials, ← heq]
    rfl

end Construction

section Calls

variable {τ ρ : Type} (surroundings : Surroundings) (context : ClientContext τ)

/-- The builder of `TokenFor`. -/
def tokenOf (apiKey apiSecret : Bytes) (grant : RequestGrant) : AccessToken :=
  { AccessToken.new apiKey apiSecret with
    videoGrant := grant.video
    sipGrant := grant.sip
    agentGrant := grant.agent }

def tokenFor (grant : RequestGrant) : Outcome Bytes :=
  if context.accessToken ≠ [] then .ok context.accessToken
  else
    (tokenOf context.apiKey context.apiSecret grant).toJwt surroundings.clock surroundings.backend
      surroundings.loc surroundings.now

/-- A random UUID: version and variant bits are set, hyphens stand before some of the bytes. -/
def requestId (loc : Locale) (bytes : Bytes) : Bytes :=
  let bytes := (bytes.modify 6 fun b => b &&& 0x0f ||| 0x40).modify 8 fun b => b &&& 0x3f ||| 0x80
  bytes.zipIdx.flatMap fun (b, index) =>
    (if index = 4 ∨ index = 6 ∨ index = 8 ∨ index = 10 then [0x2d] else []) ++
      loc.insertHex 2 0x30 b.toNat

/-- A field of an error body, empty where there is none. -/
def jsonStringField (json : Bytes) (name : String) : Bytes :=
  match surroundings.parseStruct json with
  | none => []
  | some object =>
    match object.lookup (ascii name) with
    | some (.string value) => value
    | _ => []

def callUrl (service method : String) : Bytes :=
  context.url ++ ascii "/twirp/livekit." ++ ascii service ++ [0x2f] ++ ascii method

def callHeaders (token id : Bytes) : List (Bytes × Bytes) :=
  [(ascii "Content-Type", ascii "application/protobuf"),
    (ascii "Accept", ascii "application/protobuf"),
    (ascii "Authorization", ascii "Bearer " ++ token),
    (ascii "X-Livekit-Request-Id", id),
    (ascii "User-Agent", ascii "livekit-server-cpp/0.1")]

/-- The request of a call, up to its sending. -/
def callRequest (service method : String) (serialized : Option Bytes) (grant : RequestGrant) :
    Outcome HttpRequest := do
  let token ← tokenFor surroundings context grant
  let random ← surroundings.random
  match serialized with
  | none => raise .protocol (ascii "failed to serialize protobuf request")
  | some body =>
    return ⟨callUrl context service method, ascii "POST",
      callHeaders token (requestId surroundings.loc random), body, context.timeout⟩

variable {surroundings context} in
theorem callRequest_ok {service method : String} {serialized : Option Bytes} {grant : RequestGrant}
    {request : HttpRequest} :
    callRequest surroundings context service method serialized grant = .ok request ↔
      ∃ token random body, tokenFor surroundings context grant = .ok token ∧
        surroundings.random = .ok random ∧ serialized = some body ∧
        request = ⟨callUrl context service method, ascii "POST",
          callHeaders token (requestId surroundings.loc random), body, context.timeout⟩ := by
  simp only [callRequest, bind_ok]
  constructor
  · rintro ⟨token, htoken, random, hrandom, h⟩
    cases serialized with
    | none => cases h
    | some body => exact ⟨token, random, body, htoken, hrandom, rfl, (Except.ok.inj h).symm⟩
  · rintro ⟨token, random, body, htoken, hrandom, rfl, rfl⟩
    exact ⟨token, htoken, random, hrandom, rfl⟩

/-- What a call makes of the response. -/
def callResponse (parse : Bytes → Option ρ) (response : HttpResponse) : Outcome ρ :=
  if response.statusCode < 200 ∨ response.statusCode ≥ 300 then
    let twirpCode := jsonStringField surroundings response.body "code"
    let message := jsonStringField surroundings response.body "msg"
    let message :=
      if message = [] then
        ascii "LiveKit server returned HTTP " ++ Decimal.signed response.statusCode
      else message
    .error (.error ⟨.http, message, response.statusCode, twirpCode⟩)
  else
    match parse response.body with
    | none => raise .protocol (ascii "failed to parse protobuf response")
    | some result => .ok result

/-- A transport sends a request and replies with a response. -/
abbrev Sending (τ : Type) := Program (τ × HttpRequest) (fun _ => HttpResponse) Thrown

def call (service method : String) (serialized : Option Bytes) (parse : Bytes → Option ρ)
    (grant : RequestGrant) : Sending τ ρ := do
  let request ← callRequest surroundings context service method serialized grant
  let response ← Program.perform (context.transport, request)
  callResponse surroundings parse response

/-- A context that signs with a key and a secret. -/
def sampleContext (url : String) : ClientContext Unit :=
  ⟨ascii url, ascii "key", ascii "secret", [], 10000, ()⟩

def sampleSurroundings : Surroundings where
  backend := .constant [] []
  clock := .nanoseconds
  loc := Locale.classic
  now := sampleNow
  random := .ok (List.replicate 16 0)
  nonce := .ok (List.replicate 16 0)
  parseStruct _ := none

end Calls

end ClientContext
end LivekitServer

import LivekitServer.ClientContext

/-!
# The transport over WinHTTP

`WinHttpTransport::Send` up to the arrival of the response, as a program that calls Windows. Sizes
and the timeout are narrowed on the way to `int` and `DWORD`. `narrowings_iff` says for which
requests every narrowed value is the one that was meant.
-/

namespace LivekitServer.WinHttpTransport

/-- A wide string, by its UTF-16 units. -/
abbrev Wide := List UInt16

abbrev Handle := ℕ

section Narrowing

/-- `static_cast<int>(n)`. -/
def wrapInt32 (n : ℤ) : ℤ := (n + 2 ^ 31) % 2 ^ 32 - 2 ^ 31

/-- `static_cast<DWORD>(n)`. -/
def wrapDword (n : ℕ) : ℕ := n % 2 ^ 32

theorem wrapInt32_natCast_iff (n : ℕ) : wrapInt32 n = n ↔ n < 2 ^ 31 := by
  unfold wrapInt32
  omega

theorem wrapDword_iff (n : ℕ) : wrapDword n = n ↔ n < 2 ^ 32 := by
  unfold wrapDword
  omega

end Narrowing

section Calls

/-- What `WinHttpCrackUrl` finds in a URL. -/
structure UrlComponents where
  scheme : ℕ
  hostName : Wide
  port : ℕ
  urlPath : Wide
  extraInfo : Wide

/-- The arguments of `WinHttpSendRequest`. -/
structure Sending where
  handle : Handle
  headers : Wide
  headersLength : ℕ
  optional : Option Bytes
  optionalLength : ℕ
  totalLength : ℕ
  deriving DecidableEq

/-- The calls of `Send`: those of the system, and those of the map of connections. -/
inductive WinCall
  | wideLength (text : Bytes) (length : ℤ)
  | widen (text : Bytes) (length room : ℤ)
  | lastError
  | crackUrl (url : Wide) (length : ℕ)
  | findConnection (key : Wide)
  | connect (host : Wide) (port : ℕ)
  | emplaceConnection (key : Wide) (connection : Handle)
  | openRequest (connection : Handle) (method path : Wide) (secure : Bool)
  | setTimeouts (handle : Handle) (resolve connect send receive : ℤ)
  | sendRequest (sending : Sending)
  | receiveResponse (handle : Handle)

def WinCall.Reply : WinCall → Type
  | .wideLength _ _ => ℤ
  | .widen _ _ _ => Wide
  | .lastError => ℕ
  | .crackUrl _ _ => Option UrlComponents
  | .findConnection _ => Option Handle
  | .connect _ _ => Option Handle
  | .emplaceConnection _ _ => Unit
  | .openRequest _ _ _ _ => Option Handle
  | .setTimeouts _ _ _ _ _ => Bool
  | .sendRequest _ => Bool
  | .receiveResponse _ => Bool

abbrev WinProgram := Program WinCall WinCall.Reply Thrown

def ask (call : WinCall) : WinProgram call.Reply := Program.perform call

/-- `throw Error(code, WindowsMessage(operation))`. -/
def fail {α : Type} (code : ErrorCode) (operation : String) : WinProgram α := do
  let number : ℕ ← ask .lastError
  (raise code (ascii operation ++ ascii " failed with Windows error " ++
    Decimal.decimal number) : Outcome α)

def required {α : Type} (code : ErrorCode) (operation : String) : Option α → WinProgram α
  | none => fail code operation
  | some a => pure a

def succeeded (operation : String) : Bool → WinProgram Unit
  | false => fail .transport operation
  | true => pure ()

/-- A string of `length` zeros of which the call has written the front. -/
def fill (length : ℤ) (written : Wide) : Wide :=
  (written ++ List.replicate length.toNat 0).take length.toNat

def utf8ToWide (value : Bytes) : WinProgram Wide :=
  if value = [] then pure []
  else do
    let length : ℤ ← ask (.wideLength value (wrapInt32 value.length))
    if length ≤ 0 then
      (raise .invalidArgument (ascii "HTTP value is not valid UTF-8") : Outcome Wide)
    else
      let written : Wide ← ask (.widen value (wrapInt32 value.length) length)
      pure (fill length written)

/-- What a C string says of a wide string. -/
def cWide (text : Wide) : Wide := text.takeWhile (· ≠ 0)

/-- The connection to a host, opened when there is none. -/
def connection (host : Wide) (port : ℕ) : WinProgram Handle := do
  let key := host ++ 0x3a :: (Decimal.decimal port).map UInt8.toUInt16
  let found : Option Handle ← ask (.findConnection key)
  match found with
  | some existing => pure existing
  | none => do
    let handle ← required .transport "WinHttpConnect"
      (← ask (.connect (cWide host) port))
    ask (.emplaceConnection key handle)
    pure handle

def checkScheme (components : UrlComponents) : Outcome Unit :=
  if components.scheme ≠ 1 ∧ components.scheme ≠ 2 then
    raise .invalidArgument (ascii "HTTP transport requires an HTTP(S) URL")
  else .ok ()

def requestPath (components : UrlComponents) : Wide :=
  let path := components.urlPath ++ components.extraInfo
  if path = [] then [0x2f] else path

/-- The header block before its conversion. -/
def narrowHeaders (headers : List (Bytes × Bytes)) : Bytes :=
  headers.flatMap fun header => header.1 ++ ascii ": " ++ header.2 ++ ascii "\r\n"

/-- `Send` up to the call that sends. -/
def prepare (request : HttpRequest) : WinProgram Sending := do
  let url ← utf8ToWide request.url
  let components ← required .invalidArgument "WinHttpCrackUrl"
    (← ask (.crackUrl url (wrapDword url.length)))
  checkScheme components
  let connection ← connection components.hostName components.port
  let method ← utf8ToWide request.method
  let handle ← required .transport "WinHttpOpenRequest"
    (← ask (.openRequest connection (cWide method) (cWide (requestPath components))
      (components.scheme = 2)))
  let timeout := wrapInt32 (min request.timeout (2 ^ 31 - 1))
  succeeded "WinHttpSetTimeouts"
    (← ask (.setTimeouts handle timeout timeout timeout timeout))
  let headers ← utf8ToWide (narrowHeaders request.headers)
  pure
    { handle := handle
      headers := headers
      headersLength := wrapDword headers.length
      optional := if request.body = [] then none else some request.body
      optionalLength := wrapDword request.body.length
      totalLength := wrapDword request.body.length }

/-- `Send` up to the arrival of the response. -/
def send (request : HttpRequest) : WinProgram Unit := do
  let sending ← prepare request
  let sent : Bool ← ask (.sendRequest sending)
  match sent with
  | false => fail .transport "WinHTTP request"
  | true => succeeded "WinHTTP request" (← ask (.receiveResponse sending.handle))

end Calls

section Runs
open Program

variable {outside : ∀ call : WinCall, Except Thrown call.Reply}

theorem utf8ToWide_ok {value : Bytes} {log : List WinCall} {wide : Wide}
    (h : (utf8ToWide value).run outside = (log, .ok wide)) :
    (value = [] ∧ log = [] ∧ wide = []) ∨
      value ≠ [] ∧ ∃ (length : ℤ) (written : Wide), 0 < length ∧
        outside (.wideLength value (wrapInt32 value.length)) = .ok length ∧
        outside (.widen value (wrapInt32 value.length) length) = .ok written ∧
        wide = fill length written ∧
        log = [.wideLength value (wrapInt32 value.length),
          .widen value (wrapInt32 value.length) length] := by
  by_cases hvalue : value = []
  · left
    rw [utf8ToWide, if_pos hvalue, run_pure] at h
    obtain ⟨hlog, hwide⟩ := Prod.mk.inj h
    exact ⟨hvalue, hlog.symm, (Except.ok.inj hwide).symm⟩
  · right
    rw [utf8ToWide, if_neg hvalue] at h
    obtain ⟨(length : ℤ), rest, hlength, hrest, rfl⟩ := (run_perform_bind_ok outside).mp h
    by_cases hpositive : length ≤ 0
    · rw [if_pos hpositive] at hrest
      cases hrest
    · rw [if_neg hpositive] at hrest
      obtain ⟨written, last, hwritten, hlast, rfl⟩ := (run_perform_bind_ok outside).mp hrest
      obtain ⟨rfl, hwide⟩ := Prod.mk.inj hlast
      exact ⟨hvalue, length, written, not_le.mp hpositive, hlength, hwritten,
        (Except.ok.inj hwide).symm, rfl⟩

theorem fail_not_ok {α : Type} {code : ErrorCode} {operation : String} {log : List WinCall}
    {a : α} : (fail code operation : WinProgram α).run outside ≠ (log, .ok a) := by
  intro h
  obtain ⟨number, rest, -, h, -⟩ := (run_perform_bind_ok outside).mp h
  cases h

theorem required_ok {α : Type} {code : ErrorCode} {operation : String} {found : Option α}
    {log : List WinCall} {a : α}
    (h : (required code operation found).run outside = (log, .ok a)) :
    found = some a ∧ log = [] := by
  cases found with
  | none => exact absurd h fail_not_ok
  | some b =>
      obtain ⟨rfl, hb⟩ := Prod.mk.inj h
      exact ⟨congrArg some (Except.ok.inj hb), rfl⟩

theorem succeeded_ok {operation : String} {success : Bool} {log : List WinCall} {a : Unit}
    (h : (succeeded operation success).run outside = (log, .ok a)) : log = [] := by
  cases success with
  | false => exact absurd h fail_not_ok
  | true => exact (Prod.mk.inj h).1.symm

/-- The stages of a request that is not rejected before sending. -/
theorem prepare_ok {request : HttpRequest} {log : List WinCall} {sending : Sending}
    (h : (prepare request).run outside = (log, .ok sending)) :
    ∃ urlLog url components connectionLog handle methodLog method opened headersLog headers,
      (utf8ToWide request.url).run outside = (urlLog, .ok url) ∧
      (connection components.hostName components.port).run outside =
        (connectionLog, .ok handle) ∧
      (utf8ToWide request.method).run outside = (methodLog, .ok method) ∧
      (utf8ToWide (narrowHeaders request.headers)).run outside = (headersLog, .ok headers) ∧
      log = urlLog ++ .crackUrl url (wrapDword url.length) :: (connectionLog ++ (methodLog ++
        .openRequest handle (cWide method) (cWide (requestPath components))
            (components.scheme = 2) ::
          .setTimeouts opened (wrapInt32 (min request.timeout (2 ^ 31 - 1)))
            (wrapInt32 (min request.timeout (2 ^ 31 - 1)))
            (wrapInt32 (min request.timeout (2 ^ 31 - 1)))
            (wrapInt32 (min request.timeout (2 ^ 31 - 1))) :: headersLog)) ∧
      sending = ⟨opened, headers, wrapDword headers.length,
        if request.body = [] then none else some request.body,
        wrapDword request.body.length, wrapDword request.body.length⟩ := by
  obtain ⟨urlLog, url, _, hurl, h1, rfl⟩ := (run_bind_ok outside).mp h
  obtain ⟨cracked, _, -, h2, rfl⟩ := (run_perform_bind_ok outside).mp h1
  obtain ⟨_, components, _, hcracked, h3, rfl⟩ := (run_bind_ok outside).mp h2
  obtain ⟨-, rfl⟩ := required_ok hcracked
  obtain ⟨_, -, h4⟩ := (run_done_bind_ok outside).mp h3
  obtain ⟨connectionLog, handle, _, hconnection, h5, rfl⟩ := (run_bind_ok outside).mp h4
  obtain ⟨methodLog, method, _, hmethod, h6, rfl⟩ := (run_bind_ok outside).mp h5
  obtain ⟨reply, _, -, h7, rfl⟩ := (run_perform_bind_ok outside).mp h6
  obtain ⟨_, opened, _, hopened, h8, rfl⟩ := (run_bind_ok outside).mp h7
  obtain ⟨-, rfl⟩ := required_ok hopened
  obtain ⟨success, _, -, h9, rfl⟩ := (run_perform_bind_ok outside).mp h8
  obtain ⟨_, _, _, htimeouts, h10, rfl⟩ := (run_bind_ok outside).mp h9
  obtain rfl := succeeded_ok htimeouts
  obtain ⟨headersLog, headers, _, hheaders, h11, rfl⟩ := (run_bind_ok outside).mp h10
  obtain ⟨rfl, hsending⟩ := Prod.mk.inj h11
  refine ⟨urlLog, url, components, connectionLog, handle, methodLog, method, opened, headersLog,
    headers, hurl, hconnection, hmethod, hheaders, ?_, (Except.ok.inj hsending).symm⟩
  simp only [List.nil_append, List.append_nil]

/-- The call that sends follows what was prepared. -/
theorem send_log {request : HttpRequest} {log : List WinCall} {sending : Sending}
    (h : (prepare request).run outside = (log, .ok sending)) :
    ∃ rest, (send request).log outside = log ++ .sendRequest sending :: rest := by
  rw [Program.log, send, run_bind, h]
  exact ⟨_, rfl⟩

end Runs

section Faithful
open Program

/-- Every narrowed argument of the call is the value that was meant. -/
def FaithfulCall (request : HttpRequest) : WinCall → Prop
  | .wideLength text length => length = text.length ∧ 0 < length
  | .widen text length _ => length = text.length ∧ 0 < length
  | .setTimeouts _ resolve connect send receive =>
    ∀ timeout ∈ [resolve, connect, send, receive],
      timeout = min request.timeout (2 ^ 31 - 1) ∧ 0 < timeout
  | .sendRequest sending =>
    sending.optionalLength = request.body.length ∧ sending.totalLength = request.body.length
  | _ => True

/-- The sizes fit their types and the timeout is positive. -/
structure Fits (request : HttpRequest) : Prop where
  timeout : 0 < request.timeout
  body : request.body.length < 2 ^ 32
  url : request.url.length < 2 ^ 31
  method : request.method.length < 2 ^ 31
  headers : (narrowHeaders request.headers).length < 2 ^ 31

variable {outside : ∀ call : WinCall, Except Thrown call.Reply} {request : HttpRequest}
  {log : List WinCall}

theorem faithful_utf8ToWide {value : Bytes} {wide : Wide}
    (h : (utf8ToWide value).run outside = (log, .ok wide)) :
    (∀ call ∈ log, FaithfulCall request call) ↔ value.length < 2 ^ 31 := by
  rcases utf8ToWide_ok h with ⟨rfl, rfl, rfl⟩ | ⟨hvalue, length, written, -, -, -, -, rfl⟩
  · exact iff_of_true nofun (by norm_num)
  · have hpositive := List.length_pos_of_ne_nil hvalue
    rw [List.forall_mem_cons, List.forall_mem_singleton]
    change (wrapInt32 value.length = value.length ∧ 0 < wrapInt32 value.length) ∧
      (wrapInt32 value.length = value.length ∧ 0 < wrapInt32 value.length) ↔ _
    rw [and_self_iff, wrapInt32_natCast_iff, and_iff_left_iff_imp]
    intro hfits
    rw [(wrapInt32_natCast_iff _).mpr hfits]
    exact_mod_cast hpositive

theorem faithful_connection (host : Wide) (port : ℕ) :
    ∀ call ∈ (connection host port).log outside, FaithfulCall request call := by
  have hbound : CallsAtMost (FaithfulCall request) 3 (connection host port) := by
    refine ⟨trivial, fun found => ?_⟩
    rcases found with e | (_ | existing)
    · trivial
    · refine ⟨trivial, fun opened => ?_⟩
      rcases opened with e | (_ | handle)
      · trivial
      · exact ⟨trivial, fun number => by cases number <;> trivial⟩
      · exact ⟨trivial, fun added => by cases added <;> trivial⟩
    · trivial
  exact (hbound.log outside).2

theorem faithful_crackUrl (url : Wide) (length : ℕ) :
    FaithfulCall request (.crackUrl url length) := trivial

theorem faithful_openRequest (handle : Handle) (method path : Wide) (secure : Bool) :
    FaithfulCall request (.openRequest handle method path secure) := trivial

/-- The clamp from above keeps a large timeout faithful, and nothing clamps it from below. -/
theorem faithful_setTimeouts (handle : Handle) :
    FaithfulCall request (.setTimeouts handle (wrapInt32 (min request.timeout (2 ^ 31 - 1)))
      (wrapInt32 (min request.timeout (2 ^ 31 - 1)))
      (wrapInt32 (min request.timeout (2 ^ 31 - 1)))
      (wrapInt32 (min request.timeout (2 ^ 31 - 1)))) ↔ 0 < request.timeout := by
  have htimeout : (wrapInt32 (min request.timeout (2 ^ 31 - 1)) =
      min request.timeout (2 ^ 31 - 1) ∧
      0 < wrapInt32 (min request.timeout (2 ^ 31 - 1))) ↔ 0 < request.timeout := by
    unfold wrapInt32
    omega
  constructor
  · intro h
    exact htimeout.mp (h _ List.mem_cons_self)
  · intro h timeout hm
    simp only [List.mem_cons, List.not_mem_nil, or_false, or_self] at hm
    rw [hm]
    exact htimeout.mpr h

theorem faithful_sendRequest (handle : Handle) (headers : Wide) (length : ℕ)
    (optional : Option Bytes) :
    FaithfulCall request (.sendRequest ⟨handle, headers, length, optional,
      wrapDword request.body.length, wrapDword request.body.length⟩) ↔
        request.body.length < 2 ^ 32 := by
  rw [← wrapDword_iff]
  exact and_self_iff

/-- A request that is not rejected before sending is sent with faithful sizes and a faithful timeout
exactly when they fit. -/
theorem narrowings_iff {sending : Sending}
    (h : (prepare request).run outside = (log, .ok sending)) :
    (∀ call ∈ log ++ [.sendRequest sending], FaithfulCall request call) ↔ Fits request := by
  obtain ⟨urlLog, url, components, connectionLog, handle, methodLog, method, opened, headersLog,
    headers, hurl, hconnection, hmethod, hheaders, rfl, rfl⟩ := prepare_ok h
  have hlog : connectionLog = (connection components.hostName components.port).log outside := by
    rw [Program.log, hconnection]
  have hconnected : ∀ call ∈ connectionLog, FaithfulCall request call := by
    rw [hlog]
    exact faithful_connection components.hostName components.port
  simp only [List.forall_mem_append, List.forall_mem_cons, faithful_utf8ToWide hurl,
    faithful_utf8ToWide hmethod, faithful_utf8ToWide hheaders, faithful_crackUrl,
    faithful_openRequest, faithful_setTimeouts, faithful_sendRequest, true_and]
  constructor
  · rintro ⟨⟨hurl, -, hmethod, htimeout, hheaders⟩, hbody, -⟩
    exact ⟨htimeout, hbody, hurl, hmethod, hheaders⟩
  · intro h
    exact ⟨⟨h.url, hconnected, h.method, h.timeout, h.headers⟩, h.body, List.forall_mem_nil _⟩

/-- What `MultiByteToWideChar` converts: the given number of bytes, or a C string with its NUL. -/
def converted (text : Bytes) (length : ℤ) : Bytes :=
  if 0 ≤ length then text.take length.toNat else text.takeWhile (· ≠ 0) ++ [0]

/-- Windows for requests to a local host: it converts ASCII texts and refuses the others. -/
def localWindows : ∀ call : WinCall, Except Thrown call.Reply
  | .wideLength text length =>
    let count : ℤ :=
      if (converted text length).length < 2 ^ 31 ∧ (converted text length).all (· < 0x80) then
        (converted text length).length
      else 0
    .ok count
  | .widen text length _ => .ok ((converted text length).map UInt8.toUInt16)
  | .lastError => .ok (0 : ℕ)
  | .crackUrl _ _ => .ok (some ⟨1, (ascii "localhost").map UInt8.toUInt16, 80, [], []⟩)
  | .findConnection _ => .ok none
  | .connect _ _ => .ok (some 1)
  | .emplaceConnection _ _ => .ok ()
  | .openRequest _ _ _ _ => .ok (some 2)
  | .setTimeouts _ _ _ _ _ => .ok true
  | .sendRequest _ => .ok true
  | .receiveResponse _ => .ok true

def localRequest (headers : List (Bytes × Bytes)) (timeout : ℤ) : HttpRequest :=
  ⟨ascii "http://localhost", ascii "POST", headers, [], timeout⟩

def bodyRequest : HttpRequest :=
  { localRequest [(ascii "A", ascii "b"), (ascii "C", ascii "d e")] 1000 with body := ascii "xyz" }

/-- What `WinHttpSendRequest` gets of it. -/
def bodySending : Sending :=
  ⟨2, (ascii "A: b\r\nC: d e\r\n").map UInt8.toUInt16, 14, some (ascii "xyz"), 3, 3⟩

theorem run_bodyRequest : (prepare bodyRequest).run localWindows =
    ((prepare bodyRequest).log localWindows, .ok bodySending) := rfl

theorem narrowings_localRequest :
    (∃ rest, (send bodyRequest).log localWindows =
      (prepare bodyRequest).log localWindows ++ .sendRequest bodySending :: rest) ∧
    ∀ call ∈ (prepare bodyRequest).log localWindows ++ [.sendRequest bodySending],
      FaithfulCall bodyRequest call := by
  have hfits : Fits bodyRequest := by
    constructor <;> decide
  exact ⟨send_log run_bodyRequest, (narrowings_iff run_bodyRequest).mpr hfits⟩

/-- A timeout of zero is passed on as no timeout. -/
theorem narrowings_zeroTimeout :
    (prepare (localRequest [] 0)).result localWindows = .ok ⟨2, [], 0, none, 0, 0⟩ ∧
      ¬∀ call ∈ (prepare (localRequest [] 0)).log localWindows ++
        [.sendRequest ⟨2, [], 0, none, 0, 0⟩], FaithfulCall (localRequest [] 0) call := by
  refine ⟨rfl, fun h => ?_⟩
  have hmem : WinCall.setTimeouts 2 0 0 0 0 ∈
      (prepare (localRequest [] 0)).log localWindows ++ [.sendRequest ⟨2, [], 0, none, 0, 0⟩] :=
    List.mem_of_getElem? (i := 9) rfl
  exact absurd (h _ hmem 0 List.mem_cons_self).2 (lt_irrefl 0)

end Faithful

end LivekitServer.WinHttpTransport

import LivekitServer.RustNative

/-!
# The API client of the Rust binding

`LiveKitApi.call` goes through JSON to the C ABI and comes back, on the way out again through JSON
to the transport closure of the user. `direct` is a C++ client whose transport is the closure
itself: `call_refines` says that the two end alike, whatever the closure does.
-/

namespace LivekitServer.RustBinding
open Value BufferArena Program

/-- A `String`. -/
structure Text where
  bytes : Bytes
  valid : Utf8.Valid bytes

section Client

variable {σ κ π : Type}

/-- A panic, an error, or a value. -/
abbrev Ending (σ κ π α : Type) := Except (π ⊕ Error σ κ) α

def Exit.ending : Exit σ κ π → Ending σ κ π Json
  | .resumed payload => .error (.inl payload)
  | .returned (.error e) => .error (.inr e)
  | .returned (.ok value) => .ok value

structure ApiOptions (κ π : Type) where
  url : Text
  apiKey : Text
  apiSecret : Text
  accessToken : Text
  timeoutMs : ℤ
  transport : Option (HttpRequest → UserOutcome κ π HttpResponse)
  timeoutMs_range : InInt64 timeoutMs

def ApiOptions.members (options : ApiOptions κ π) : Members :=
  [(ascii "url", .string options.url.bytes), (ascii "api_key", .string options.apiKey.bytes),
    (ascii "api_secret", .string options.apiSecret.bytes),
    (ascii "access_token", .string options.accessToken.bytes),
    (ascii "timeout_ms", .string (Decimal.signed options.timeoutMs)),
    (ascii "use_transport", .bool options.transport.isSome)]

def ApiOptions.fields (options : ApiOptions κ π) : Json := .object options.members

/-- All clients of the module, with a timeout that is positive. -/
structure LiveKitApi (κ π : Type) where
  native : NativeLibrary
  options : ApiOptions κ π
  timeout_pos : 0 < options.timeoutMs

/-- An error is the text of an `InvalidArgument`. -/
def LiveKitApi.new (native : NativeLibrary) (options : ApiOptions κ π) :
    Except Bytes (LiveKitApi κ π) :=
  if h : options.timeoutMs ≤ 0 then .error (ascii "Timeout must be positive milliseconds")
  else .ok ⟨native, options, not_le.mp h⟩

variable (crates : Crates σ) (allocator : Allocator) (api : LiveKitApi κ π)

/-- The closures of a call. A closure that is not there is not asked. -/
def LiveKitApi.host : Host κ π where
  transport request := api.options.transport.elim (.ok ⟨0, []⟩) fun transport => transport request
  key _ := .ok none
  allocator := allocator

def LiveKitApi.invoke (input : Json) : Exit σ κ π × List Address :=
  api.native.invoke crates ⟨api.options.transport.isSome, false⟩ (api.host allocator) input

def callMembers (operation request : Text) : Members :=
  [(ascii "operation", .string operation.bytes), (ascii "request", .string request.bytes),
    (ascii "options", api.options.fields)]

def LiveKitApi.call (operation request : Text) : Ending σ κ π Bytes := do
  let value ← (api.invoke crates allocator (.object (callMembers api operation request))).1.ending
  match asString value with
  | some text => .ok text
  | none => .error (.inr (.binding (ascii "Expected native JSON string")))

def getDispatchMembers (dispatchId room : Text) : Members :=
  [(ascii "operation", .string (ascii "get_dispatch")),
    (ascii "dispatch_id", .string dispatchId.bytes), (ascii "room", .string room.bytes),
    (ascii "options", api.options.fields)]

def LiveKitApi.getDispatch (dispatchId room : Text) : Ending σ κ π (Option Bytes) := do
  let value ← (api.invoke crates allocator
    (.object (getDispatchMembers api dispatchId room))).1.ending
  match value with
  | .null => .ok none
  | value =>
    match asString value with
    | some json => .ok (some json)
    | none => .error (.inr (.binding (ascii "Expected dispatch JSON string or null")))

end Client

section Direct

variable {σ κ π α : Type} (crates : Crates σ)

/-- The request of a client, as its closure gets it. -/
def ofRequest (request : LivekitServer.HttpRequest) : HttpRequest :=
  ⟨request.url, request.method, request.headers, request.body, request.timeout⟩

def responseMembers (response : HttpResponse) : Members :=
  [(ascii "body", .string (crates.encode response.body)),
    (ascii "status_code", .string (Decimal.signed response.statusCode))]

/-- How long a value is on its way. -/
def encodedLength (value : Json) : ℕ :=
  match crates.toVec value with
  | .ok text => text.length
  | .error _ => 0

/-- The response of a closure, as the client gets it. -/
def accept (response : HttpResponse) : Outcome LivekitServer.HttpResponse :=
  if encodedLength crates (.object (responseMembers crates response)) > maxInt then
    raise .transport (ascii "C ABI callback failed or returned an invalid buffer")
  else if response.statusCode < 100 ∨ response.statusCode > 599 then
    raise .transport (ascii "C ABI transport returned invalid HTTP status")
  else .ok ⟨response.statusCode, response.body⟩

/-- A C++ program whose calls go to a closure of the user. When the closure fails, so does the
program. -/
def directly {ι ρ β : Type} (closure : ι → UserOutcome κ π β) (accept : β → Outcome ρ) :
    Program ι (fun _ => ρ) Thrown α → Ending σ κ π α
  | .done result => result.mapError fun e => .inr (ofThrown e)
  | .call request next =>
    match closure request with
    | .ok b => directly closure accept (next (accept b))
    | .err e => .error (.inr (.callback e))
    | .panic payload => .error (.inl payload)

/-- A C++ client whose transport is the closure. -/
def direct (transport : HttpRequest → UserOutcome κ π HttpResponse) :
    ClientContext.Sending Transport α → Ending σ κ π α :=
  directly (fun sent => transport (ofRequest sent.2)) (accept crates)

/-- The options of a C++ client. -/
def ApiOptions.toCore (options : ApiOptions κ π) : LivekitServer.ApiOptions Transport where
  url := options.url.bytes
  apiKey := options.apiKey.bytes
  apiSecret := options.apiSecret.bytes
  accessToken := options.accessToken.bytes
  timeout := options.timeoutMs
  transport := if options.transport.isSome then some .callback else none

/-- A C++ client that is made of the options and used once. -/
def useClient (native : Native) (options : LivekitServer.ApiOptions Transport)
    (use : ClientContext Transport → ClientContext.Sending Transport α) :
    ClientContext.Sending Transport α := do
  let context ← ClientContext.new native.env
    (native.createDefaultHttpTransport.map fun _ => .default) options
  use context

/-- The request that a client sends, if it sends one. -/
def firstSent : ClientContext.Sending Transport α → Option LivekitServer.HttpRequest
  | .done _ => none
  | .call sent _ => some sent.2

end Direct

section Responses

variable {σ κ π : Type} {crates : Crates σ} (hcrates : crates.Faithful) {native : Native}
include hcrates

/-- An answer of strings is read back, unless it is too long. -/
theorem readReply_written (hreads : ReadsJson native.surroundings.parseStruct)
    (pairs : List (Bytes × Bytes)) (hnames : (pairs.map Prod.fst).Nodup)
    (hvalid : ∀ p ∈ pairs, Utf8.Valid p.1 ∧ Utf8.Valid p.2)
    (herror : pairs.lookup (ascii "error") = none) {value : Json}
    (hvalue : value = .object (pairs.map fun p => (p.1, .string p.2))) :
    ∃ text, crates.toVec value = .ok text ∧
      if encodedLength crates value > maxInt then
        CApi.readReply native (.ofText text) =
          raise .transport (ascii "C ABI callback failed or returned an invalid buffer")
      else
        ∃ obj, CApi.readReply native (.ofText text) = .ok obj ∧
          ∀ name, obj.lookup name = (pairs.lookup name).map .string := by
  subst hvalue
  have hkeys : ((pairs.map fun p => (p.1, Json.string p.2)).map Prod.fst).Nodup := by
    rw [List.map_map]
    exact hnames
  have hdepth : (Json.object (pairs.map fun p => (p.1, Json.string p.2))).depth ≤ nestingLimit := by
    have hmembers : Json.membersDepth (pairs.map fun p => (p.1, Json.string p.2)) ≤ 1 :=
      Json.membersDepth_le (List.forall_mem_map.mpr fun p _ => le_refl 1)
    change Json.membersDepth _ + 1 ≤ 16
    omega
  obtain ⟨text, htext, hutf8, hparse⟩ :=
    hcrates.toVec (.object (pairs.map fun p => (p.1, .string p.2)))
      ⟨hkeys, Json.distinctMembers_iff.mpr (List.forall_mem_map.mpr fun p _ => trivial)⟩
      (Json.allMembers_iff.mpr (List.forall_mem_map.mpr fun p hp => hvalid p hp)) hdepth
  have hlength : encodedLength crates (.object (pairs.map fun p => (p.1, .string p.2))) =
      text.length := by rw [encodedLength, htext]
  refine ⟨text, htext, ?_⟩
  rw [hlength]
  split_ifs with hlong
  · rw [CApi.readReply, CApi.replyText_unsound (Or.inr (Or.inr hlong))]
    rfl
  · apply CApi.readReply_strings hreads _ hnames herror
    rw [Json.ordered_object] at hparse
    refine ⟨rfl, not_lt.mp hlong, .ofText text, Json.sortedMembers (pairs.map fun p =>
      (p.1, .string p.2)), rfl, ?_⟩
    change Utf8.Valid ((Memory.ofText text).read text.length) ∧
      Json.parse ((Memory.ofText text).read text.length) = _ ∧ _
    rw [Memory.read_ofText]
    refine ⟨hutf8, hparse, (Json.sortedMembers_perm _).trans ?_⟩
    rw [List.map_map]
    exact List.Perm.refl _

/-- The client gets the response of the closure, unless it is too long or has no status. -/
theorem answer_accept (hreads : ReadsJson native.surroundings.parseStruct)
    {response : HttpResponse} (hstatus : InInt32 response.statusCode) :
    ∃ text, crates.toVec (.object (responseMembers crates response)) = .ok text ∧
      CApi.answer native (.ofText text) = accept crates response := by
  have hnames : [ascii "body", ascii "status_code"].Nodup := by decide
  let pairs := [(ascii "body", Crypto.base64UrlEncode response.body),
    (ascii "status_code", Decimal.signed response.statusCode)]
  have hvalid : ∀ p ∈ pairs, Utf8.Valid p.1 ∧ Utf8.Valid p.2 := by
    rw [List.forall_mem_cons, List.forall_mem_singleton]
    exact ⟨⟨Utf8.valid_ascii (by decide), CApi.valid_base64UrlEncode _⟩,
      Utf8.valid_ascii (by decide), AccessToken.valid_signed _⟩
  have hmembers : Json.object (responseMembers crates response) =
      .object [(ascii "body", .string (Crypto.base64UrlEncode response.body)),
        (ascii "status_code", .string (Decimal.signed response.statusCode))] := by
    rw [responseMembers, hcrates.encode]
  obtain ⟨text, htext, hread⟩ := readReply_written hcrates hreads pairs hnames hvalid rfl hmembers
  refine ⟨text, htext, ?_⟩
  rw [accept, CApi.answer]
  by_cases hlong : encodedLength crates (.object (responseMembers crates response)) > maxInt
  · rw [if_pos hlong] at hread ⊢
    rw [hread]
    rfl
  · rw [if_neg hlong] at hread ⊢
    obtain ⟨obj, hobj, hlookup⟩ := hread
    have hfield (name : String) := congrArg (·.getD .notSet) (hlookup (ascii name))
    have hcode : CApi.integer obj "status_code" = .ok response.statusCode := by
      refine CApi.integer_string.mpr ⟨_, hfield "status_code", CApi.stoll_signed ?_⟩
      unfold InInt32 at hstatus
      unfold InInt64
      omega
    have hbody : CApi.decodeBody obj "body" = .ok response.body := by
      have htext : CApi.string obj "body" = .ok (Crypto.base64UrlEncode response.body) :=
        CApi.string_ok.mpr (Or.inr (string?_eq_some.mpr (hfield "body")))
      rw [CApi.decodeBody, htext]
      exact Crypto.decode_base64UrlEncode response.body
    rw [hobj]
    change CApi.transportResponse obj = _
    rw [CApi.transportResponse, hcode]
    by_cases hrange : response.statusCode < 100 ∨ response.statusCode > 599
    · rw [if_pos hrange]
      exact (if_pos hrange).trans rfl
    · rw [if_neg hrange]
      apply (if_neg hrange).trans
      rw [hbody]
      rfl

omit hcrates in
/-- A callback that fails is an error of the transport. -/
theorem answer_failed (native : Native) :
    CApi.answer native ⟨1, none, 0⟩ =
      raise .transport (ascii "C ABI callback failed or returned an invalid buffer") := rfl

/-- The closure of the user gets the request of the client. -/
theorem respond_transport {request : LivekitServer.HttpRequest} {json : Bytes} {members : Members}
    (htimeout : InInt64 request.timeout)
    (hread : IsRequest json members (.transport request.url request.method request.headers
      (Crypto.base64UrlEncode request.body) (Decimal.signed request.timeout)))
    {closures : Closures} (hgiven : closures.transport = true) (host : Host κ π) :
    respond crates closures (host.callback json) =
      RustBinding.answer crates (host.transport (ofRequest request)) fun response =>
        .object (responseMembers crates response) := by
  rw [respond]
  simp only [Host.callback, hcrates.requestFromSlice json members _ hread,
    hgiven, Bool.not_true, Bool.false_eq_true, if_false, hcrates.decode,
    parseI64_signed htimeout]
  rfl

end Responses

section Refinement

variable {σ κ π α : Type} {crates : Crates σ} {native : Native}

/-- An exit of `invoke` for an end of the client, whose value is sent as `f` has it. -/
def Meets (f : α → Value) (ending : Ending σ κ π α) (exit : Exit σ κ π) : Prop :=
  match ending with
  | .ok a => ∃ item, exit = .returned (.ok item.ordered) ∧ Agrees (· = ·) PrintedAs (f a) item
  | .error (.inl payload) => exit = .resumed payload
  | .error (.inr e) => exit = .returned (.error e)

theorem meets_of_surfaces {f : α → Value} {result : Except Thrown α}
    {surfaced : Except (Error σ κ) Json} (h : Surfaces (result.map f) surfaced) :
    Meets f (result.mapError fun e => .inr (ofThrown e) : Ending σ κ π α) (.returned surfaced) := by
  cases result with
  | error e => exact congrArg Exit.returned h
  | ok a =>
      obtain ⟨item, rfl, hitem⟩ := h
      exact ⟨item, rfl, hitem⟩

/-- The callback carries out the sending of a request. -/
theorem callbackSend_eq {request : LivekitServer.HttpRequest} {json : Bytes}
    (h : native.print (CApi.transportRequest request) = some json) :
    CApi.callbackSend native true request =
      .call (.callback json) fun reply => .done (reply >>= CApi.answer native) := by
  rw [CApi.callbackSend, CApi.exchange, if_pos rfl, CApi.encode_ok.mpr h]
  change Program.call _ _ = _
  congr 1
  funext reply
  cases reply with
  | error e => rfl
  | ok reply =>
      change Program.onValue _ (CApi.readReply native reply) = Program.done _
      change _ = Program.done (CApi.readReply native reply >>= CApi.transportResponse)
      cases CApi.readReply native reply <;> rfl

/-- The protobuf runtime of a module reads and prints JSON, and its texts are UTF-8. -/
structure NativeLibrary.Sound (library : NativeLibrary) : Prop where
  reads : ReadsJson library.native.surroundings.parseStruct
  prints : PrintsJson library.native.print
  integers : PrintsIntegers library.native.print
  texts : CApi.Texts library.native

/-- A text that asks for an operation of the API over the callback, by a client that ends in values
which are sent as `f` has them. -/
structure AsksApi (library : NativeLibrary) (text : Bytes)
    (client : ClientContext.Sending Transport α) (f : α → Value) : Prop where
  length : text.length ≤ maxInt
  execution : ∃ obj operation options, CApi.parse library.native text = .ok obj ∧
    CApi.string obj "operation" = .ok operation ∧ CApi.object obj "options" = .ok options ∧
    CApi.OverTheApi operation ∧ CApi.boolean options "use_transport" = .ok true ∧
    CApi.executeApi library.native operation obj options = client >>= fun a => pure (f a)
  single : Single (fun _ => True) client
  values : ∀ a, CApi.Encodable (f a)

variable {library : NativeLibrary} {text : Bytes} {client : ClientContext.Sending Transport α}
  {f : α → Value}

theorem presentable_map {result : Except Thrown α} (hends : CApi.Ends CApi.Plain (result.map f))
    (hvalues : ∀ a, CApi.Encodable (f a)) : Presentable (result.map f) := by
  refine ⟨hends, fun value h => ?_⟩
  cases result with
  | error e => cases h
  | ok a =>
      obtain rfl := Except.ok.inj h
      exact hvalues a

theorem ends_accept (crates : Crates σ) (response : HttpResponse) :
    CApi.Ends (fun response => InInt32 response.statusCode) (accept crates response) := by
  unfold accept
  split_ifs with hlong hrange
  · exact CApi.ends_raise (Utf8.valid_ascii (by decide))
  · exact CApi.ends_raise (Utf8.valid_ascii (by decide))
  · change InInt32 response.statusCode
    unfold InInt32
    omega

section Carrying

variable {ι ρ β : Type} {closures : Closures}

/-- A call of a C++ program gets to a closure of the user over the callback, and the answer of the
closure gets back. -/
def Carried (crates : Crates σ) (closures : Closures) (host : Host κ π) (perform : HostProgram ρ)
    (closure : UserOutcome κ π β) (write : β → Json) (accept : β → Outcome ρ) : Prop :=
  ∃ json reads,
    perform = .call (.callback json) (fun reply => .done (reply >>= reads)) ∧
    respond crates closures (host.callback json) = RustBinding.answer crates closure write ∧
    (∀ b, closure = .ok b → ∃ bytes, crates.toVec (write b) = .ok bytes ∧
      reads (.ofText bytes) = accept b) ∧
    reads ⟨1, none, 0⟩ =
      raise .transport (ascii "C ABI callback failed or returned an invalid buffer")

variable {p : Program ι (fun _ => ρ) Thrown α} {perform : ι → HostProgram ρ}
  {closure : ι → UserOutcome κ π β} {accept : β → Outcome ρ} {Q : ρ → Prop} {host : Host κ π}
  {input : Json}

/-- An invocation whose execution is a C++ program over the callback ends as the program over the
closure does, and frees what the module returned. -/
theorem invoke_carried (hcrates : crates.Faithful) (hsound : library.Sound)
    (htext : crates.toVec input = .ok text) (hp : Single (fun _ => True) p)
    (hgiven : (closures.transport || closures.key) = true)
    (hexecution : library.execution closures text = p.translate perform >>= fun a => pure (f a))
    (write : β → Json)
    (hcarried : ∀ request next, p = .call request next →
      Carried crates closures host (perform request) (closure request) write accept)
    (haccept : ∀ request next b, p = .call request next → closure request = .ok b →
      CApi.Ends Q (accept b))
    (hends : ∀ reply : Outcome ρ, CApi.Ends Q reply →
      CApi.Ends CApi.Plain ((p.result fun _ => reply).map f))
    (hvalues : ∀ a, CApi.Encodable (f a)) :
    ∃ exit pointer, library.invoke crates closures host input = (exit, [pointer]) ∧
      Meets f (directly closure accept p) exit := by
  have hfailed : CApi.Ends Q
      (raise .transport (ascii "C ABI callback failed or returned an invalid buffer")) :=
    CApi.ends_raise (Utf8.valid_ascii (by decide))
  cases hp with
  | done result =>
      have hdone : library.execution closures text = .done (result.map f) := by
        rw [hexecution]
        cases result <;> rfl
      obtain ⟨surfaced, pointer, hsurfaces, hinvoke⟩ :=
        NativeLibrary.invoke_done host hcrates hsound.prints hsound.integers htext hdone
          (presentable_map (hends _ hfailed) hvalues)
      exact ⟨_, pointer, hinvoke, meets_of_surfaces hsurfaces⟩
  | call request g hg =>
      obtain ⟨json, reads, hperform, hrespond, hwrite, hunread⟩ := hcarried request _ rfl
      have hcall : library.execution closures text = .call (.callback json) fun reply =>
          .done (reply >>= fun reply => (reads reply >>= g).map f) := by
        rw [hexecution, Program.translate, hperform]
        change Program.call _ _ = _
        congr 1
        funext reply
        cases reply with
        | error e => rfl
        | ok reply =>
            change Program.onValue _ (reads reply >>= g) =
              Program.done ((reads reply >>= g).map f)
            cases reads reply >>= g <;> rfl
      have hpresentable {reply : HostReply} (h : CApi.Ends Q (reads reply)) :
          Presentable ((reads reply >>= g).map f) := presentable_map (hends _ h) hvalues
      have hread {bytes : Bytes}
          (h : (respond crates closures (host.callback json)).caught = .ok bytes) :
          ∃ b, closure request = .ok b ∧ reads (.ofText bytes) = accept b := by
        rw [hrespond] at h
        cases hclosure : closure request with
        | err e =>
            rw [hclosure] at h
            cases h
        | panic payload =>
            rw [hclosure] at h
            cases h
        | ok b =>
            obtain ⟨bytes', hbytes, hreads⟩ := hwrite b hclosure
            rw [hclosure] at h
            simp only [RustBinding.answer, serialize, hbytes] at h
            obtain rfl := Caught.ok.inj h
            exact ⟨b, rfl, hreads⟩
      obtain ⟨exit, pointer, hinvoke, hexit⟩ :=
        NativeLibrary.invoke_call hcrates hsound.prints hsound.integers htext hgiven hcall
          (fun bytes hbytes => by
            obtain ⟨b, hclosure, hreads⟩ := hread hbytes
            exact hpresentable (hreads ▸ haccept request _ b rfl hclosure))
          (hpresentable (hunread ▸ hfailed))
      refine ⟨exit, pointer, hinvoke, ?_⟩
      rw [directly]
      cases hclosure : closure request with
      | err e =>
          rw [hrespond, hclosure] at hexit
          exact hexit
      | panic payload =>
          rw [hrespond, hclosure] at hexit
          exact hexit
      | ok b =>
          obtain ⟨bytes, hbytes, hreads⟩ := hwrite b hclosure
          have hcaught : (respond crates closures (host.callback json)).caught = .ok bytes := by
            rw [hrespond, hclosure]
            simp only [RustBinding.answer, serialize, hbytes]
          rw [hcaught] at hexit
          obtain ⟨surfaced, rfl, hsurfaces⟩ := hexit
          rw [hreads] at hsurfaces
          exact meets_of_surfaces hsurfaces

end Carrying

variable (hcrates : crates.Faithful) (hsound : library.Sound)
include hcrates hsound

/-- The sending of a request over the callback. -/
theorem carried_send {request : LivekitServer.HttpRequest} (hutf8 : CApi.Utf8Request request)
    (htimeout : InInt64 request.timeout) {closures : Closures}
    (hgiven : closures.transport = true) (host : Host κ π)
    (hstatus : ∀ response, host.transport (ofRequest request) = .ok response →
      InInt32 response.statusCode) :
    Carried crates closures host (CApi.callbackSend library.native true request)
      (host.transport (ofRequest request))
      (fun response => .object (responseMembers crates response)) (accept crates) := by
  obtain ⟨json, members, hjson, hread⟩ := readTagged_transport hsound.prints hutf8
  refine ⟨json, _, callbackSend_eq hjson, respond_transport hcrates htimeout hread hgiven host, ?_,
    answer_failed _⟩
  exact fun response hresponse => answer_accept hcrates hsound.reads (hstatus response hresponse)

/-- An invocation that asks for an operation of the API ends as the client over the closure of the
user, and frees what the module returned. -/
theorem invoke_direct {input : Json} (htext : crates.toVec input = .ok text)
    (hasks : AsksApi library text client f) {closures : Closures}
    (hgiven : closures.transport = true) (host : Host κ π)
    (hstatus : ∀ request response, host.transport request = .ok response →
      InInt32 response.statusCode)
    (hrequest : ∀ request, firstSent client = some request →
      CApi.Utf8Request request ∧ InInt64 request.timeout) :
    ∃ exit pointer, library.invoke crates closures host input = (exit, [pointer]) ∧
      Meets f (direct crates host.transport client) exit := by
  obtain ⟨obj, operation, options, hobj, hoperation, hoptions, hapi, huse, hclient⟩ :=
    hasks.execution
  have hany : (closures.transport || closures.key) = true := by rw [hgiven, Bool.true_or]
  have hexecution : library.execution closures text =
      client.translate (CApi.sendOn library.native true) >>= fun a => pure (f a) := by
    rw [NativeLibrary.execution, hany, CApi.executeInput_api (readInput_ofText hasks.length) hobj
      hoperation hoptions hapi, hclient, Program.translate_bind_pure]
  have hcalls := CApi.callsAtMost_executeApi library.native operation obj options
  rw [hclient] at hcalls
  have hends (reply : Outcome LivekitServer.HttpResponse)
      (hreply : CApi.Ends (fun response => InInt32 response.statusCode) reply) :
      CApi.Ends CApi.Plain ((client.result fun _ => reply).map f) := by
    have h : CApi.Ends CApi.Plain
        ((CApi.executeApi library.native operation obj options).result fun _ => reply) :=
      CApi.ends_executeApi hsound.texts (fun _ => hreply) huse
    rw [hclient, Program.result_bind] at h
    revert h
    cases client.result fun _ => reply <;> exact id
  refine invoke_carried hcrates hsound htext hasks.single hany hexecution
    (fun response => .object (responseMembers crates response)) ?_ ?_ hends hasks.values
  · rintro ⟨transport, request⟩ next rfl
    obtain ⟨hutf8, htimeout⟩ := hrequest request rfl
    obtain rfl : transport = .callback := by
      have hsent := hcalls.1
      rw [huse] at hsent
      simpa using hsent
    exact carried_send hcrates hsound hutf8 htimeout hgiven host (hstatus _)
  · intro _ _ response _ _
    exact ends_accept crates response

end Refinement

section Calls

variable {σ κ π : Type} {crates : Crates σ} {allocator : Allocator} {api : LiveKitApi κ π}
  {transport : HttpRequest → UserOutcome κ π HttpResponse}

/-- The C++ client of a method. -/
def callMethod (native : Native) (options : LivekitServer.ApiOptions Transport) (method : Method)
    (request : Bytes) : ClientContext.Sending Transport Bytes :=
  useClient native options fun context =>
    method.invokeModel native.surroundings native.protobuf context request

def callGetDispatch (native : Native) (options : LivekitServer.ApiOptions Transport)
    (dispatchId room : Bytes) : ClientContext.Sending Transport (Option Bytes) :=
  useClient native options fun context =>
    AgentDispatchClient.getDispatchModel native.surroundings native.protobuf context dispatchId room

theorem callsAtMost_invoke {native : Native} (method : Method) (context : ClientContext Transport)
    (request : native.protobuf.Message) :
    (method.invoke native.surroundings native.protobuf context request).CallsAtMost
      (fun sent => sent.2.timeout = context.timeout) 1 := by
  refine callsAtMost_bind_done fun prepared => ClientContext.callsAtMost_call fun sent hsent => ?_
  obtain ⟨_, _, _, -, -, -, rfl⟩ := ClientContext.callRequest_ok.mp hsent
  rfl

/-- A client sends with the timeout of its options. -/
theorem timeout_firstSent {α : Type} {native : Native}
    {options : LivekitServer.ApiOptions Transport}
    {use : ClientContext Transport → ClientContext.Sending Transport α}
    (huse : ∀ context, (use context).CallsAtMost (fun sent => sent.2.timeout = context.timeout) 1)
    {request : LivekitServer.HttpRequest}
    (h : firstSent (useClient native options use) = some request) :
    request.timeout = options.timeout := by
  have hcalls : (useClient native options use).CallsAtMost
      (fun sent => sent.2.timeout = options.timeout) 1 := by
    refine callsAtMost_bind_ok fun context hcontext => (huse context).imp fun sent hsent => ?_
    obtain ⟨-, -, -, -, -, htimeout, -⟩ := ClientContext.new_ok.mp hcontext
    exact hsent.trans htimeout
  revert hcalls h
  cases useClient native options use with
  | done result =>
      intro h
      cases h
  | call sent next =>
      intro h hcalls
      obtain rfl := Option.some.inj h
      exact hcalls.1

theorem callsAtMost_callMethod {native : Native} (method : Method) (request : Bytes)
    (context : ClientContext Transport) :
    (method.invokeModel native.surroundings native.protobuf context request).CallsAtMost
      (fun sent => sent.2.timeout = context.timeout) 1 :=
  callsAtMost_bind_done fun message =>
    (callsAtMost_invoke method context message).bind (n := 0) fun _ => callsAtMost_done 0 _

theorem callsAtMost_callGetDispatch {native : Native} (dispatchId room : Bytes)
    (context : ClientContext Transport) :
    (AgentDispatchClient.getDispatchModel native.surroundings native.protobuf context dispatchId
      room).CallsAtMost (fun sent => sent.2.timeout = context.timeout) 1 := by
  refine (callsAtMost_invoke _ context _).bind (n := 0) fun response => ?_
  cases native.protobuf.agentDispatches response with
  | nil => exact callsAtMost_done 0 _
  | cons first rest => exact callsAtMost_bind_done fun json => callsAtMost_done 0 _

theorem single_invoke {native : Native} (method : Method) (context : ClientContext Transport)
    (request : native.protobuf.Message) :
    Single (fun _ => True)
      (method.invoke native.surroundings native.protobuf context request) := by
  refine single_done_bind fun prepared => single_done_bind fun sent => ?_
  exact (single_perform _).bind (fun _ => rfl) fun _ _ _ => trivial

theorem single_callMethod (native : Native) (options : LivekitServer.ApiOptions Transport)
    (method : Method) (request : Bytes) :
    Single (fun _ => True) (callMethod native options method request) := by
  refine single_done_bind fun context => single_done_bind fun message => ?_
  exact (single_invoke method context message).bind (fun _ => rfl) fun _ _ _ => trivial

theorem single_callGetDispatch (native : Native) (options : LivekitServer.ApiOptions Transport)
    (dispatchId room : Bytes) :
    Single (fun _ => True) (callGetDispatch native options dispatchId room) := by
  refine single_done_bind fun context => ?_
  apply (single_invoke _ context _).bind (g := fun response =>
    match native.protobuf.agentDispatches response with
    | [] => .ok none
    | first :: _ => (toModel native.protobuf "livekit.AgentDispatch" first).map some)
  · intro response
    cases native.protobuf.agentDispatches response with
    | nil => rfl
    | cons first rest =>
        change (Program.done (toModel native.protobuf "livekit.AgentDispatch" first) >>= _) =
          Program.done ((toModel native.protobuf "livekit.AgentDispatch" first).map some)
        cases toModel native.protobuf "livekit.AgentDispatch" first <;> rfl
  · exact fun _ _ _ => trivial

/-- The options get to the C ABI. -/
theorem apiOptions_fields {fields : Fields} (h : ReadBack fields api.options.members) :
    CApi.apiOptions fields = .ok api.options.toCore := by
  have htimeout : CApi.integer fields "timeout_ms" = .ok api.options.timeoutMs :=
    CApi.integer_ok.mpr ⟨_, CApi.string_ok.mp (h.string "timeout_ms" rfl),
      CApi.stoll_signed api.options.timeoutMs_range⟩
  rw [CApi.apiOptions, h.string "url" rfl, h.string "api_key" rfl, h.string "api_secret" rfl,
    h.string "access_token" rfl, htimeout, h.boolean "use_transport" rfl]
  rfl

/-- An operation of the table is one of the API, and not `get_dispatch`. -/
theorem overTheApi_of_findMethod {operation : Bytes} {method : Method}
    (h : CApi.findMethod operation = some method) :
    CApi.OverTheApi operation ∧ operation ≠ ascii "get_dispatch" := by
  have htoken : CApi.findMethod (ascii "token") = none := by decide
  have hwebhook : CApi.findMethod (ascii "webhook") = none := by decide
  have hdispatch : CApi.findMethod (ascii "get_dispatch") = none := by decide
  refine ⟨⟨?_, ?_⟩, ?_⟩
  · rintro rfl
    rw [htoken] at h
    cases h
  · rintro rfl
    rw [hwebhook] at h
    cases h
  · rintro rfl
    rw [hdispatch] at h
    cases h

variable (api) in
theorem options_sendable : api.options.fields.DistinctNames ∧
    api.options.fields.All Utf8.Valid IsInt64 ∧ api.options.fields.depth = 2 := by
  have hnames : (api.options.members.map Prod.fst).Nodup := by
    change (["url", "api_key", "api_secret", "access_token", "timeout_ms", "use_transport"].map
      ascii).Nodup
    decide
  refine ⟨⟨hnames, trivial, trivial, trivial, trivial, trivial, trivial, trivial⟩, ?_, rfl⟩
  exact ⟨⟨Utf8.valid_ascii (by decide), api.options.url.valid⟩,
    ⟨Utf8.valid_ascii (by decide), api.options.apiKey.valid⟩,
    ⟨Utf8.valid_ascii (by decide), api.options.apiSecret.valid⟩,
    ⟨Utf8.valid_ascii (by decide), api.options.accessToken.valid⟩,
    ⟨Utf8.valid_ascii (by decide), AccessToken.valid_signed _⟩,
    ⟨Utf8.valid_ascii (by decide), trivial⟩, trivial⟩

variable (hcrates : crates.Faithful) (hsound : api.native.Sound)
  (htransport : api.options.transport = some transport)
include hcrates hsound htransport

/-- The input of a call asks for its method. -/
theorem asksApi_call {operation request : Text} {method : Method}
    (hmethod : CApi.findMethod operation.bytes = some method)
    (hlength : ∀ text, crates.toVec (.object (callMembers api operation request)) = .ok text →
      text.length ≤ maxInt) :
    ∃ text, crates.toVec (.object (callMembers api operation request)) = .ok text ∧
      AsksApi api.native text (callMethod api.native.native api.options.toCore method request.bytes)
        Value.string := by
  obtain ⟨hdistinct, hall, hdepth⟩ := options_sendable api
  have hnames : ((callMembers api operation request).map Prod.fst).Nodup := by
    change (["operation", "request", "options"].map ascii).Nodup
    decide
  have hlimit : (Json.object (callMembers api operation request)).depth ≤ nestingLimit := by
    change 3 ≤ 16
    decide
  obtain ⟨text, obj, htext, hobj, hread⟩ := parse_toVec hcrates hsound.reads
    ⟨hnames, trivial, trivial, hdistinct, trivial⟩
    ⟨⟨Utf8.valid_ascii (by decide), operation.valid⟩,
      ⟨Utf8.valid_ascii (by decide), request.valid⟩, ⟨Utf8.valid_ascii (by decide), hall⟩, trivial⟩
    hlimit
  obtain ⟨options, hoptions, hreadOptions⟩ := hread.object "options" rfl hdistinct.1
  obtain ⟨hapi, hdispatch⟩ := overTheApi_of_findMethod hmethod
  have huse : CApi.boolean options "use_transport" = .ok true := by
    rw [hreadOptions.boolean "use_transport" rfl, htransport]
    rfl
  refine ⟨text, htext, hlength text htext, ?_, single_callMethod _ _ _ _, CApi.encodable_string⟩
  refine ⟨obj, operation.bytes, options, hobj, hread.string "operation" rfl, hoptions, hapi, huse,
    ?_⟩
  rw [CApi.executeApi, apiOptions_fields hreadOptions, Program.liftM_eq, Program.done_ok_bind,
    callMethod, useClient]
  cases ClientContext.new api.native.native.env _ api.options.toCore with
  | error e => rfl
  | ok context =>
      simp only [Program.liftM_eq, Program.done_ok_bind]
      rw [CApi.callApi, if_neg hdispatch, hread.string "request" rfl, Program.liftM_eq,
        Program.done_ok_bind, hmethod]

/-- A dispatch, or null. -/
def dispatchValue (result : Option Bytes) : Value := result.elim .null .string

theorem asksApi_getDispatch {dispatchId room : Text}
    (hlength : ∀ text, crates.toVec (.object (getDispatchMembers api dispatchId room)) = .ok text →
      text.length ≤ maxInt) :
    ∃ text, crates.toVec (.object (getDispatchMembers api dispatchId room)) = .ok text ∧
      AsksApi api.native text
        (callGetDispatch api.native.native api.options.toCore dispatchId.bytes room.bytes)
        dispatchValue := by
  obtain ⟨hdistinct, hall, hdepth⟩ := options_sendable api
  have hnames : ((getDispatchMembers api dispatchId room).map Prod.fst).Nodup := by
    change (["operation", "dispatch_id", "room", "options"].map ascii).Nodup
    decide
  have hlimit : (Json.object (getDispatchMembers api dispatchId room)).depth ≤ nestingLimit := by
    change 3 ≤ 16
    decide
  obtain ⟨text, obj, htext, hobj, hread⟩ := parse_toVec hcrates hsound.reads
    ⟨hnames, trivial, trivial, trivial, hdistinct, trivial⟩
    ⟨⟨Utf8.valid_ascii (by decide), Utf8.valid_ascii (by decide)⟩,
      ⟨Utf8.valid_ascii (by decide), dispatchId.valid⟩,
      ⟨Utf8.valid_ascii (by decide), room.valid⟩, ⟨Utf8.valid_ascii (by decide), hall⟩, trivial⟩
    hlimit
  obtain ⟨options, hoptions, hreadOptions⟩ := hread.object "options" rfl hdistinct.1
  have hapi : CApi.OverTheApi (ascii "get_dispatch") := ⟨by decide, by decide⟩
  have huse : CApi.boolean options "use_transport" = .ok true := by
    rw [hreadOptions.boolean "use_transport" rfl, htransport]
    rfl
  refine ⟨text, htext, hlength text htext, ?_, single_callGetDispatch _ _ _ _, fun result => ?_⟩
  · refine ⟨obj, ascii "get_dispatch", options, hobj, hread.string "operation" rfl, hoptions, hapi,
      huse, ?_⟩
    rw [CApi.executeApi, apiOptions_fields hreadOptions, Program.liftM_eq, Program.done_ok_bind,
      callGetDispatch, useClient]
    cases ClientContext.new api.native.native.env _ api.options.toCore with
    | error e => rfl
    | ok context =>
        simp only [Program.liftM_eq, Program.done_ok_bind]
        rw [CApi.callApi, if_pos rfl, hread.string "dispatch_id" rfl, Program.liftM_eq,
          Program.done_ok_bind, hread.string "room" rfl, Program.liftM_eq, Program.done_ok_bind]
        rfl
  · cases result with
    | some json => exact CApi.encodable_string json
    | none => exact CApi.encodable_null

end Calls

section Returns

variable {σ κ π : Type} {crates : Crates σ} {allocator : Allocator} {api : LiveKitApi κ π}
  {transport : HttpRequest → UserOutcome κ π HttpResponse}

theorem ending_of_meets {ending : Ending σ κ π Bytes} {exit : Exit σ κ π} (message : Bytes)
    (h : Meets Value.string ending exit) :
    (exit.ending >>= fun value =>
      match asString value with
      | some text => .ok text
      | none => .error (.inr (.binding message))) = ending := by
  match ending with
  | .ok text =>
      obtain ⟨item, rfl, hitem⟩ := h
      obtain ⟨_, rfl, rfl⟩ := agrees_string.mp hitem
      rfl
  | .error (.inl payload) =>
      obtain rfl : exit = .resumed payload := h
      rfl
  | .error (.inr e) =>
      obtain rfl : exit = .returned (.error e) := h
      rfl

theorem dispatch_of_meets {ending : Ending σ κ π (Option Bytes)} {exit : Exit σ κ π}
    (h : Meets dispatchValue ending exit) :
    (exit.ending >>= fun value =>
      match value with
      | .null => .ok none
      | value =>
        match asString value with
        | some json => .ok (some json)
        | none => .error (.inr (.binding (ascii "Expected dispatch JSON string or null")))) =
      ending := by
  match ending with
  | .ok none =>
      obtain ⟨item, rfl, hitem⟩ := h
      cases item with
      | null => rfl
      | _ => exact hitem.elim
  | .ok (some json) =>
      obtain ⟨item, rfl, hitem⟩ := h
      obtain ⟨_, rfl, rfl⟩ := agrees_string.mp hitem
      rfl
  | .error (.inl payload) =>
      obtain rfl : exit = .resumed payload := h
      rfl
  | .error (.inr e) =>
      obtain rfl : exit = .returned (.error e) := h
      rfl

/-- What the native module takes of an input. -/
def Fits (crates : Crates σ) (input : Json) : Prop :=
  ∀ text, crates.toVec input = .ok text → text.length ≤ maxInt

/-- The requests that a client sends are UTF-8. -/
def SendsUtf8 {α : Type} (client : ClientContext.Sending Transport α) : Prop :=
  ∀ request, firstSent client = some request → CApi.Utf8Request request

/-- A call of the binding ends as the C++ client over the closure of the user does, and frees what
the module returned once. -/
theorem call_refines (hcrates : crates.Faithful) (hsound : api.native.Sound)
    (htransport : api.options.transport = some transport)
    (hstatus : ∀ request response, transport request = .ok response →
      InInt32 response.statusCode) :
    (∀ (operation request : Text) (method : Method),
      CApi.findMethod operation.bytes = some method →
      Fits crates (.object (callMembers api operation request)) →
      SendsUtf8 (callMethod api.native.native api.options.toCore method request.bytes) →
      api.call crates allocator operation request = direct crates transport
          (callMethod api.native.native api.options.toCore method request.bytes) ∧
        (api.invoke crates allocator (.object (callMembers api operation request))).2.length = 1) ∧
    ∀ dispatchId room : Text, Fits crates (.object (getDispatchMembers api dispatchId room)) →
      SendsUtf8 (callGetDispatch api.native.native api.options.toCore dispatchId.bytes
        room.bytes) →
      api.getDispatch crates allocator dispatchId room = direct crates transport
          (callGetDispatch api.native.native api.options.toCore dispatchId.bytes room.bytes) ∧
        (api.invoke crates allocator
          (.object (getDispatchMembers api dispatchId room))).2.length = 1 := by
  have hhost : (api.host allocator).transport = transport := by
    funext request
    simp only [LiveKitApi.host, htransport, Option.elim_some]
  have hgiven : (⟨api.options.transport.isSome, false⟩ : Closures).transport = true := by
    rw [htransport]
    rfl
  constructor
  · intro operation request method hmethod hfits hutf8
    obtain ⟨text, htext, hasks⟩ := asksApi_call hcrates hsound htransport hmethod hfits
    obtain ⟨exit, pointer, hinvoke, hmeets⟩ := invoke_direct hcrates hsound htext hasks hgiven
      (api.host allocator) (hhost ▸ hstatus) fun sent hsent =>
        ⟨hutf8 sent hsent, timeout_firstSent (callsAtMost_callMethod method request.bytes) hsent ▸
          api.options.timeoutMs_range⟩
    rw [hhost] at hmeets
    rw [LiveKitApi.call, LiveKitApi.invoke, hinvoke]
    exact ⟨ending_of_meets _ hmeets, rfl⟩
  · intro dispatchId room hfits hutf8
    obtain ⟨text, htext, hasks⟩ := asksApi_getDispatch hcrates hsound htransport hfits
    obtain ⟨exit, pointer, hinvoke, hmeets⟩ := invoke_direct hcrates hsound htext hasks hgiven
      (api.host allocator) (hhost ▸ hstatus) fun sent hsent =>
        ⟨hutf8 sent hsent, timeout_firstSent
          (callsAtMost_callGetDispatch dispatchId.bytes room.bytes) hsent ▸
          api.options.timeoutMs_range⟩
    rw [hhost] at hmeets
    rw [LiveKitApi.getDispatch, LiveKitApi.invoke, hinvoke]
    exact ⟨dispatch_of_meets hmeets, rfl⟩

end Returns

section Sample

def sampleLibrary : NativeLibrary := ⟨CApi.sampleNative, fun _ => .error .unknown, fun _ => 4096⟩

theorem sound_sampleLibrary : sampleLibrary.Sound :=
  ⟨readsJson_readUtf8Struct, printsJson_printStruct, printsIntegers_printStruct,
    CApi.texts_sampleNative⟩

/-- The response of the transport has a message. -/
def stageReply : HttpResponse := ⟨200, stageBody⟩

def sampleApi : LiveKitApi ℕ ℕ where
  native := sampleLibrary
  options :=
    { url := ⟨ascii "http://localhost:7880", by decide⟩
      apiKey := ⟨[], by decide⟩
      apiSecret := ⟨[], by decide⟩
      accessToken := ⟨ascii "token", by decide⟩
      timeoutMs := 30000
      transport := some fun _ => .ok stageReply
      timeoutMs_range := by decide }
  timeout_pos := by decide

def sampleOperation : Text := ⟨ascii "Room.ListRooms", by decide⟩

def sampleRequest : Text := ⟨ascii "{}", by decide⟩

theorem call_refines_sample :
    sampleApi.call referenceCrates bumpAllocator sampleOperation sampleRequest =
        .ok (ascii "\x7b\"room\":\"stage\"\x7d") ∧
      (sampleApi.invoke referenceCrates bumpAllocator
        (.object (callMembers sampleApi sampleOperation sampleRequest))).2.length = 1 := by
  have hstatus : ∀ (request : HttpRequest) (response : HttpResponse),
      (UserOutcome.ok stageReply : UserOutcome ℕ ℕ HttpResponse) = .ok response →
        InInt32 response.statusCode := by
    intro _ response h
    obtain rfl := UserOutcome.ok.inj h
    decide
  have htransport : sampleApi.options.transport = some fun _ => .ok stageReply := rfl
  have hvalue : direct referenceCrates (fun _ => .ok stageReply) (callMethod CApi.sampleNative
      sampleApi.options.toCore RoomServiceClient.listRooms (ascii "{}")) =
        (.ok (ascii "\x7b\"room\":\"stage\"\x7d") : Ending Unit ℕ ℕ Bytes) := by
    rfl
  rw [← hvalue]
  refine (call_refines faithful_referenceCrates sound_sampleLibrary htransport
    hstatus).1 sampleOperation sampleRequest RoomServiceClient.listRooms
    rfl ?_ ?_
  · intro text h
    obtain rfl := Except.ok.inj h
    decide +kernel
  · intro request h
    have hsent : firstSent (callMethod CApi.sampleNative sampleApi.options.toCore
        RoomServiceClient.listRooms (ascii "{}")) = some CApi.sampleSent := by
      decide +kernel
    obtain rfl := Option.some.inj (hsent.symm.trans h)
    exact CApi.utf8Request_sampleSent

end Sample

end LivekitServer.RustBinding

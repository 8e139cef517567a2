import LivekitServer.CApiInvoke
import LivekitServer.ClientUrl
import LivekitServer.ReferenceRuntime
import LivekitServer.RoomScope
import LivekitServer.WebhookAuthenticity

/-!
# The envelope of the C ABI

Whatever happens during a call, the output is a null pointer or one envelope, and at most one call
leaves the library, of the kind that the operation allows.
-/

namespace LivekitServer.CApi
open Value Program

section Values

variable (native : Native) (callback : Bool)

theorem wellFormed_newObject {fields : List (String × Bytes)}
    (h : (fields.map fun f => ascii f.1).Nodup) : WellFormed (newObject fields) := by
  refine ⟨by simpa [Function.comp_def] using h, wellFormedFields_iff.mpr fun f hf => ?_⟩
  obtain ⟨e, -, rfl⟩ := List.mem_map.mp hf
  trivial

theorem depth_newObject (fields : List (String × Bytes)) : depth (newObject fields) ≤ 2 := by
  apply Nat.succ_le_succ
  exact fieldsDepth_le (List.forall_mem_map.mpr fun f _ => le_refl 1)

/-- The names of an event's object, of which the last five may be missing. -/
def eventNames : List Bytes :=
  ["event", "id", "raw_body", "created_at", "room", "participant", "track", "egress",
    "ingress"].map ascii

theorem keys_eventFields (event : WebhookEvent) :
    ((eventFields event).map Prod.fst).Sublist eventNames := by
  have hoption {α : Type} (name : Bytes) (object : α → Value) (o : Option α) :
      ((o.map fun a => (name, object a)).toList.map Prod.fst).Sublist [name] := by
    cases o with
    | none => exact List.nil_sublist _
    | some a => exact List.Sublist.refl _
  have hnames : eventNames = ["event", "id", "raw_body", "created_at"].map ascii ++
      [ascii "room"] ++ [ascii "participant"] ++ [ascii "track"] ++ [ascii "egress"] ++
      [ascii "ingress"] := rfl
  rw [eventFields, hnames]
  simp only [List.map_append]
  exact (((((List.Sublist.refl _).append (hoption _ _ _)).append (hoption _ _ _)).append
    (hoption _ _ _)).append (hoption _ _ _)).append (hoption _ _ _)

theorem forall_optionField {α : Type} {P : Value → Prop} (name : Bytes) {object : α → Value}
    (h : ∀ a, P (object a)) (o : Option α) :
    ∀ f ∈ (o.map fun a => (name, object a)).toList, P f.2 := by
  cases o with
  | none => exact fun f hf => absurd hf List.not_mem_nil
  | some a =>
      intro f hf
      obtain rfl := List.mem_singleton.mp hf
      exact h a

theorem wellFormed_eventFields (event : WebhookEvent) :
    WellFormed (.struct (eventFields event)) := by
  refine ⟨(keys_eventFields event).nodup (by decide), wellFormedFields_iff.mpr ?_⟩
  simp only [eventFields, List.forall_mem_append]
  refine ⟨⟨⟨⟨⟨?_, forall_optionField _ (fun _ => wellFormed_newObject ?_) _⟩,
    forall_optionField _ (fun _ => wellFormed_newObject ?_) _⟩,
    forall_optionField _ (fun _ => wellFormed_newObject ?_) _⟩,
    forall_optionField _ (fun _ => wellFormed_newObject ?_) _⟩,
    forall_optionField _ (fun _ => wellFormed_newObject ?_) _⟩
  · simp [WellFormed]
  all_goals
    simp only [List.map_cons, List.map_nil]
    decide

theorem depth_eventFields (event : WebhookEvent) :
    depth (.struct (eventFields event)) < nestingLimit := by
  have hobject {α : Type} (name : Bytes) (fields : α → List (String × Bytes)) (o : Option α) :
      ∀ f ∈ (o.map fun a => (name, newObject (fields a))).toList, depth f.2 ≤ 2 :=
    forall_optionField (P := fun value => depth value ≤ 2) name (fun _ => depth_newObject _) o
  have hparts : ∀ f ∈ eventFields event, depth f.2 ≤ 2 := by
    simp only [eventFields, List.forall_mem_append]
    refine ⟨⟨⟨⟨⟨?_, hobject _ _ _⟩, hobject _ _ _⟩, hobject _ _ _⟩, hobject _ _ _⟩, hobject _ _ _⟩
    simp [depth]
  exact (Nat.succ_le_succ (fieldsDepth_le hparts)).trans_lt (by decide)

/-- A value that the runtime prints in an envelope. -/
structure Encodable (value : Value) : Prop where
  wellFormed : WellFormed value
  shallow : depth value < nestingLimit

theorem encodable_string (s : Bytes) : Encodable (.string s) := ⟨trivial, show 1 < 16 by decide⟩

theorem encodable_null : Encodable .null := ⟨trivial, show 1 < 16 by decide⟩

theorem encodable_event (event : WebhookEvent) : Encodable (.struct (eventFields event)) :=
  ⟨wellFormed_eventFields event, depth_eventFields event⟩

theorem yields_receive (options : Fields) :
    Yields Encodable (receive native callback options) := by
  refine yields_bind fun useKeyProvider => ?_
  cases useKeyProvider with
  | true => exact yields_bind fun event => encodable_event event
  | false =>
      exact yields_bind fun entries => yields_bind fun secrets => yields_bind fun event =>
        encodable_event event

theorem yields_callApi (context : ClientContext Transport) (operation : Bytes) (input : Fields) :
    Yields Encodable (callApi native context operation input) := by
  unfold callApi
  split
  · refine yields_bind fun dispatchId => yields_bind fun room => yields_bind fun result => ?_
    cases result with
    | none => exact encodable_null
    | some json => exact encodable_string json
  · refine yields_bind fun request => ?_
    cases findMethod operation with
    | none => trivial
    | some method => exact yields_bind fun json => encodable_string json

theorem yields_execute (input : Fields) : Yields Encodable (execute native callback input) := by
  refine yields_bind fun operation => yields_bind fun options => ?_
  split_ifs
  · exact yields_bind fun token => encodable_string token
  · exact yields_receive native callback options
  · exact Yields.translate
      (yields_bind fun options => yields_bind fun context =>
        yields_callApi native context operation input) _

theorem yields_executeInput (input : Option Memory) (length : ℕ) :
    Yields Encodable (executeInput native callback input length) :=
  yields_bind fun _ => yields_bind fun obj => yields_execute native callback obj

end Values

section Envelope

/-- `{ok: true, value}`. -/
def IsSuccess (members : Members) : Prop :=
  ∃ value, members.Perm [(ascii "value", value), (ascii "ok", .bool true)]

/-- `{ok: false, code, message, http_status, twirp_code}` with a code of the library. -/
def IsFailure (members : Members) : Prop :=
  ∃ (code : ErrorCode) (number httpStatus : Number) (twirpCode message : Bytes),
    number.value = code.value ∧
    members.Perm [(ascii "ok", .bool false), (ascii "code", .number number),
      (ascii "http_status", .number httpStatus), (ascii "twirp_code", .string twirpCode),
      (ascii "message", .string message)]

/-- The envelope of an error: its code, status, Twirp code and `what()`. -/
def Reports (error : Error) (members : Members) : Prop :=
  ∃ (code httpStatus : Number) (twirpCode message : Bytes),
    members.Perm [(ascii "ok", .bool false), (ascii "code", .number code),
      (ascii "http_status", .number httpStatus), (ascii "twirp_code", .string twirpCode),
      (ascii "message", .string message)] ∧
    code.value = error.code.value ∧ PrintedAs error.httpStatus httpStatus ∧
    SameText error.twirpCode twirpCode ∧ SameText error.what message

theorem Reports.isFailure {error : Error} {members : Members} (h : Reports error members) :
    IsFailure members := by
  obtain ⟨code, httpStatus, twirpCode, message, hperm, hcode, -⟩ := h
  exact ⟨error.code, code, httpStatus, twirpCode, message, hcode, hperm⟩

theorem Reports.code_eq {error error' : Error} {members : Members} (h : Reports error members)
    (h' : Reports error' members) : error.code = error'.code := by
  have hnames : (["ok", "code", "http_status", "twirp_code", "message"].map ascii).Nodup := by
    decide
  obtain ⟨code, _, _, _, hperm, hcode, -⟩ := h
  obtain ⟨code', _, _, _, hperm', hcode', -⟩ := h'
  have hlookup := AssocList.lookup_perm (hperm.symm.trans hperm') hnames (ascii "code")
  have hnumber : some (Json.number code) = some (Json.number code') := hlookup
  obtain rfl := Json.number.inj (Option.some.inj hnumber)
  have hvalue : error.code.value = error'.code.value := by
    rw [hcode] at hcode'
    exact_mod_cast hcode'
  revert hvalue
  cases error.code <;> cases error'.code <;> decide

/-- The output is the envelope of an error. -/
def Output.Reporting (output : Output) (error : Error) : Prop :=
  ∃ json members, output = ⟨some (json ++ [0]), json.length⟩ ∧
    Json.parse json = some (.object members) ∧ Reports error members

theorem Output.Reporting.code_eq {output : Output} {error error' : Error}
    (h : output.Reporting error) (h' : output.Reporting error') : error.code = error'.code := by
  obtain ⟨json, members, rfl, hparse, hreports⟩ := h
  obtain ⟨json', members', houtput, hparse', hreports'⟩ := h'
  obtain rfl : json = json' := by simpa using congrArg Output.buffer houtput
  obtain rfl : members' = members := by simpa [hparse] using hparse'.symm
  exact hreports.code_eq hreports'

/-- The output is the envelope of an error with this code. -/
def Output.HasCode (output : Output) (code : ErrorCode) : Prop :=
  ∃ error, error.code = code ∧ output.Reporting error

theorem Output.HasCode.unique {output : Output} {code code' : ErrorCode} (h : output.HasCode code)
    (h' : output.HasCode code') : code = code' := by
  obtain ⟨error, rfl, herror⟩ := h
  obtain ⟨error', rfl, herror'⟩ := h'
  exact herror.code_eq herror'

theorem not_failure_of_success {members : Members} (h : IsSuccess members) : ¬IsFailure members := by
  rintro ⟨_, _, _, _, _, -, hfailure⟩
  obtain ⟨_, hsuccess⟩ := h
  have hlength := (hsuccess.symm.trans hfailure).length_eq
  simp at hlength

theorem wellFormed_success {value : Value} (h : WellFormed value) :
    WellFormed (.struct [(ascii "value", value), (ascii "ok", .bool true)]) := by
  have hnames : [ascii "value", ascii "ok"].Nodup := by decide
  exact ⟨hnames, h, trivial, trivial⟩

theorem wellFormed_failure (error : Error) : WellFormed (.struct (failure error)) := by
  have hnames : (["ok", "code", "http_status", "twirp_code", "message"].map ascii).Nodup := by
    decide
  exact ⟨hnames, trivial, trivial, trivial, trivial, trivial, trivial⟩

variable {native : Native}

/-- What is encoded when nothing fails on the way. -/
def envelope : Except Thrown Value → Fields
  | .ok value => [(ascii "value", value), (ascii "ok", .bool true)]
  | .error e => failure (asError e)

theorem depth_failure (error : Error) : depth (.struct (failure error)) ≤ nestingLimit :=
  show 2 ≤ 16 by decide

/-- The envelope of a value nests one level deeper. -/
theorem depth_envelope {result : Except Thrown Value}
    (h : ∀ value, result = .ok value → Encodable value) :
    depth (.struct (envelope result)) ≤ nestingLimit := by
  cases result with
  | error e => exact depth_failure (asError e)
  | ok value =>
      have hpos : 1 ≤ depth value := by
        cases value <;> simp [depth]
      have hfields : fieldsDepth (envelope (.ok value)) ≤ depth value := by
        apply fieldsDepth_le
        rw [envelope, List.forall_mem_cons, List.forall_mem_singleton]
        exact ⟨le_refl _, hpos⟩
      exact (Nat.succ_le_succ hfields).trans (h value rfl).shallow

theorem finish_none (result : Except Thrown Value) :
    finish native Faults.none result =
      (native.print (envelope result)).elim ⟨none, 0⟩
        fun json => ⟨some (json ++ [0]), json.length⟩ := by
  have hrespond : respond Faults.none result = .ok (envelope result) := by
    cases result <;> rfl
  have hbind : respond Faults.none result >>= copy native Faults.none =
      copy native Faults.none (envelope result) := by
    rw [hrespond]
    rfl
  rw [finish, hbind]
  cases hjson : native.print (envelope result) with
  | none =>
      have hcopy : copy native Faults.none (envelope result) =
          raise .protocol (ascii "could not encode C ABI result") := by
        simp only [copy, Faults.none, encode, hjson]
        rfl
      rw [hcopy]
      rfl
  | some json =>
      have hcopy : copy native Faults.none (envelope result) =
          .ok ⟨some (json ++ [0]), json.length⟩ := by
        simp only [copy, Faults.none, encode, hjson]
        rfl
      rw [hcopy]
      rfl

variable (hprint : PrintsJson native.print)
include hprint

theorem success_print {value : Value} (hvalue : WellFormed value) {json : Bytes}
    (h : native.print [(ascii "value", value), (ascii "ok", .bool true)] = some json) :
    ∃ members item, Json.parse json = some (.object members) ∧
      members.Perm [(ascii "value", item), (ascii "ok", .bool true)] ∧
      Agrees SameText PrintedAs value item := by
  have hnames : ∀ name ∈ [ascii "value", ascii "ok"], Utf8.Valid name := by decide
  obtain ⟨members, items, hparse, hperm, hitems⟩ :=
    hprint.items (wellFormed_success hvalue) hnames h
  rcases hitems with _ | ⟨hitem, _ | ⟨hok, ⟨⟩⟩⟩
  obtain rfl := agrees_bool.mp hok
  exact ⟨members, _, hparse, hperm, hitem⟩

theorem reports_print {error : Error} {json : Bytes}
    (h : native.print (failure error) = some json) :
    ∃ members, Json.parse json = some (.object members) ∧ Reports error members := by
  have hnames : ∀ name ∈ ["ok", "code", "http_status", "twirp_code", "message"].map ascii,
      Utf8.Valid name := by decide
  obtain ⟨members, items, hparse, hperm, hitems⟩ :=
    hprint.items (wellFormed_failure error) hnames h
  rcases hitems with _ | ⟨hok, _ | ⟨hcode, _ | ⟨hstatus, _ | ⟨htwirp, _ | ⟨hmessage, ⟨⟩⟩⟩⟩⟩⟩
  obtain rfl := agrees_bool.mp hok
  obtain ⟨code, rfl, hcode⟩ := agrees_number.mp hcode
  obtain ⟨status, rfl, hstatus⟩ := agrees_number.mp hstatus
  obtain ⟨twirp, rfl, htwirp⟩ := agrees_string.mp htwirp
  obtain ⟨message, rfl, hmessage⟩ := agrees_string.mp hmessage
  refine ⟨members, hparse, code, status, twirp, message, hperm, ?_, hstatus, htwirp, hmessage⟩
  have hsmall : SmallInteger error.code.value := by
    unfold SmallInteger
    cases error.code <;> decide
  exact_mod_cast hcode error.code.value hsmall (by norm_cast)

/-- An error of printable texts is reported. -/
theorem reporting_finish {e : Thrown} (hmessage : Utf8.Valid (asError e).message)
    (htwirp : Utf8.Valid (asError e).twirpCode) (hstatus : InInt32 (asError e).httpStatus) :
    (finish native Faults.none (.error e)).Reporting (asError e) := by
  have hcode : InInt32 (asError e).code.value := by
    cases (asError e).code <;> decide
  have hnames : ∀ name ∈ ["ok", "code", "http_status", "twirp_code", "message"].map ascii,
      Utf8.Valid name := by decide
  have hall : All Utf8.Valid (fun q => ∃ k : ℤ, InInt32 k ∧ q = k)
      (.struct (failure (asError e))) := by
    simp only [List.map_cons, List.map_nil, List.forall_mem_cons] at hnames
    obtain ⟨hok, hcodeName, hstatusName, htwirpName, hmessageName, -⟩ := hnames
    exact ⟨⟨hok, trivial⟩, ⟨hcodeName, _, hcode, by norm_cast⟩, ⟨hstatusName, _, hstatus, rfl⟩,
      ⟨htwirpName, htwirp⟩, ⟨hmessageName, hmessage.takeWhile_ne_zero⟩, trivial⟩
  obtain ⟨text, htext, -⟩ := hprint.total _ (wellFormed_failure (asError e)) hall
    (depth_failure (asError e))
  obtain ⟨members, hparse, hreports⟩ := reports_print hprint htext
  refine ⟨text, members, ?_, hparse, hreports⟩
  rw [finish_none, envelope, htext]
  rfl

theorem code_of_reporting {result : Except Thrown Value} {error : Error}
    (hwf : ∀ value, result = .ok value → WellFormed value)
    (h : (finish native Faults.none result).Reporting error) :
    ∃ e, result = .error e ∧ (asError e).code = error.code := by
  obtain ⟨json, members, houtput, hparse, hreports⟩ := h
  rw [finish_none] at houtput
  cases hjson : native.print (envelope result) with
  | none =>
      rw [hjson] at houtput
      cases houtput
  | some text =>
      rw [hjson] at houtput
      obtain rfl : text = json := by simpa using congrArg Output.buffer houtput
      cases result with
      | ok value =>
          obtain ⟨members', item, hparse', hperm, -⟩ :=
            success_print hprint (hwf value rfl) hjson
          obtain rfl : members' = members := by simpa [hparse] using hparse'.symm
          exact absurd hreports.isFailure (not_failure_of_success ⟨item, hperm⟩)
      | error e =>
          obtain ⟨members', hparse', hreports'⟩ := reports_print hprint hjson
          obtain rfl : members' = members := by simpa [hparse] using hparse'.symm
          exact ⟨e, rfl, hreports'.code_eq hreports⟩

end Envelope

section Calls

variable (native : Native) (callback : Bool)

/-- An object whose `kind` is this one. -/
def HasKind (kind : String) (json : Bytes) : Prop :=
  ∃ members, Json.parse json = some (.object members) ∧
    members.lookup (ascii "kind") = some (.string (ascii kind))

theorem HasKind.unique {kind kind' : String} {json : Bytes} (h : HasKind kind json)
    (h' : HasKind kind' json) : ascii kind = ascii kind' := by
  obtain ⟨members, hparse, hkind⟩ := h
  obtain ⟨members', hparse', hkind'⟩ := h'
  obtain rfl : members' = members := by simpa [hparse] using hparse'.symm
  simpa [hkind] using hkind'

/-- A call of the API, as against `token` and `webhook`. -/
def OverTheApi (operation : Bytes) : Prop :=
  operation ≠ ascii "token" ∧ operation ≠ ascii "webhook"

/-- What may leave the library while it executes an input. -/
structure MayLeave (callback : Bool) (input : Fields) (outgoing : Outgoing) : Prop where
  leaves : ∃ operation options, string input "operation" = .ok operation ∧
    object input "options" = .ok options ∧
    match outgoing with
    | .callback json => callback = true ∧
        (operation = ascii "webhook" ∧ boolean options "use_key_provider" = .ok true ∧
            HasKind "key" json ∨
          OverTheApi operation ∧ boolean options "use_transport" = .ok true ∧
            HasKind "transport" json)
    | .send _ => OverTheApi operation ∧ boolean options "use_transport" = .ok false

theorem callsAtMost_exchange {permitted : Outgoing → Prop} {request : Fields}
    (h : callback = true → ∀ json, native.print request = some json →
      permitted (.callback json)) :
    (exchange native callback request).CallsAtMost permitted 1 := by
  unfold exchange
  by_cases hcallback : callback = true
  · rw [if_pos hcallback]
    refine callsAtMost_bind_ok fun json hjson => ?_
    exact (callsAtMost_perform (h hcallback json (encode_ok.mp hjson))).bind (n := 0) fun reply =>
      callsAtMost_done 0 _
  · rw [if_neg hcallback]
    exact callsAtMost_done 1 _

theorem callsAtMost_callApi (context : ClientContext Transport) (operation : Bytes)
    (input : Fields) :
    (callApi native context operation input).CallsAtMost
      (fun sent => sent.1 = context.transport) 1 := by
  have hinvoke (method : Method) (request : native.protobuf.Message) :
      (method.invoke native.surroundings native.protobuf context request).CallsAtMost
        (fun sent => sent.1 = context.transport) 1 :=
    callsAtMost_bind_done fun prepared => ClientContext.callsAtMost_call fun _ _ => rfl
  unfold callApi
  split_ifs
  · refine callsAtMost_bind_done fun dispatchId => callsAtMost_bind_done fun room => ?_
    refine CallsAtMost.bind (n := 0) ?_ fun result => callsAtMost_done 0 _
    refine (hinvoke _ _).bind (n := 0) fun response => ?_
    cases native.protobuf.agentDispatches response with
    | nil => exact callsAtMost_done 0 _
    | cons first rest => exact callsAtMost_bind_done fun json => callsAtMost_done 0 _
  · refine callsAtMost_bind_done fun request => ?_
    cases findMethod operation with
    | none => exact callsAtMost_done 1 _
    | some method =>
        refine CallsAtMost.bind (n := 0) (callsAtMost_bind_done fun message => ?_) fun json =>
          callsAtMost_done 0 _
        exact (hinvoke method message).bind (n := 0) fun response => callsAtMost_done 0 _

theorem apiOptions_transport {options : Fields} {api : ApiOptions Transport}
    (h : apiOptions options = .ok api) :
    ∃ useTransport, boolean options "use_transport" = .ok useTransport ∧
      api.transport = if useTransport then some .callback else none := by
  simp only [apiOptions, bind_ok] at h
  obtain ⟨_, -, _, -, _, -, _, -, _, -, useTransport, huse, h⟩ := h
  obtain rfl := Except.ok.inj h
  exact ⟨useTransport, huse, rfl⟩

/-- The transport of a client is the callback exactly when the options say so. -/
theorem transport_of_options {options : Fields} {api : ApiOptions Transport}
    {context : ClientContext Transport} (hoptions : apiOptions options = .ok api)
    (hnew : ClientContext.new native.env
      (native.createDefaultHttpTransport.map fun _ => .default) api = .ok context) :
    boolean options "use_transport" = .ok (context.transport = .callback) := by
  obtain ⟨useTransport, huse, htransport⟩ := apiOptions_transport hoptions
  obtain ⟨-, -, -, -, -, -, hcontext⟩ := ClientContext.new_ok.mp hnew
  rw [huse, Except.ok.injEq]
  cases useTransport with
  | true =>
      rw [htransport] at hcontext
      obtain hcontext : Transport.callback = context.transport := Except.ok.inj hcontext
      simp [← hcontext]
  | false =>
      rw [htransport] at hcontext
      change native.createDefaultHttpTransport.map (fun _ => Transport.default) =
        .ok context.transport at hcontext
      cases hcreate : native.createDefaultHttpTransport with
      | error e =>
          rw [hcreate] at hcontext
          cases hcontext
      | ok _ =>
          rw [hcreate] at hcontext
          obtain hcontext : Transport.default = context.transport := Except.ok.inj hcontext
          simp [← hcontext]

theorem callsAtMost_executeApi (operation : Bytes) (input options : Fields) :
    (executeApi native operation input options).CallsAtMost
      (fun sent => boolean options "use_transport" = .ok (sent.1 = .callback)) 1 := by
  refine callsAtMost_bind_ok fun api hoptions => callsAtMost_bind_ok fun context hnew => ?_
  refine (callsAtMost_callApi native context operation input).imp fun sent hsent => ?_
  rw [hsent]
  exact transport_of_options native hoptions hnew

theorem wellFormed_keyRequest (key : Bytes) : WellFormed (.struct (keyRequest key)) := by
  have hnames : (["kind", "key"].map ascii).Nodup := by decide
  exact ⟨hnames, trivial, trivial, trivial⟩

theorem valid_keyRequest {key : Bytes} : ∀ name ∈ (keyRequest key).map Prod.fst,
    Utf8.Valid name := by
  have hnames : ∀ name ∈ ["kind", "key"].map ascii, Utf8.Valid name := by decide
  exact hnames

theorem wellFormed_transportRequest (request : HttpRequest) :
    WellFormed (.struct (transportRequest request)) := by
  have hnames : (["kind", "url", "method", "body", "timeout_ms", "headers"].map ascii).Nodup := by
    decide
  refine ⟨hnames, trivial, trivial, trivial, trivial, trivial, wellFormedValues_iff.mpr ?_, trivial⟩
  rw [List.forall_mem_map]
  exact fun header _ => ⟨trivial, trivial, trivial⟩

theorem valid_transportRequest {request : HttpRequest} :
    ∀ name ∈ (transportRequest request).map Prod.fst, Utf8.Valid name := by
  have hnames : ∀ name ∈ ["kind", "url", "method", "body", "timeout_ms", "headers"].map ascii,
      Utf8.Valid name := by decide
  exact hnames

variable {native} (hprint : PrintsJson native.print)
include hprint

theorem hasKind_print {fields : Fields} {kind : String} {json : Bytes}
    (hwf : WellFormed (.struct fields)) (hkeys : ∀ name ∈ fields.map Prod.fst, Utf8.Valid name)
    (hkind : fields.lookup (ascii "kind") = some (.string (ascii kind)))
    (hvalid : Utf8.Valid (ascii kind)) (h : native.print fields = some json) :
    HasKind kind json := by
  obtain ⟨members, hparse, hlookup⟩ := hprint.lookup hwf (List.forall_mem_map.mp hkeys) h
  obtain ⟨item, hitem, hagree⟩ := hlookup _ _ hkind
  obtain ⟨text, rfl, htext⟩ := agrees_string.mp hagree
  rw [htext hvalid] at hitem
  exact ⟨members, hparse, hitem⟩

theorem callsAtMost_provideKey (key : Bytes) :
    (provideKey native callback key).CallsAtMost
      (fun outgoing => ∃ json, outgoing = .callback json ∧ callback = true ∧ HasKind "key" json)
      1 := by
  refine CallsAtMost.bind (n := 0) (callsAtMost_exchange native callback fun hcallback json hjson =>
    ⟨json, rfl, hcallback, ?_⟩) fun response => callsAtMost_done 0 _
  exact hasKind_print hprint (wellFormed_keyRequest key) valid_keyRequest rfl (by decide) hjson

theorem callsAtMost_sendOn (transport : Transport) (request : HttpRequest) :
    (sendOn native callback (transport, request)).CallsAtMost
      (fun outgoing => transport = .default ∧ outgoing = .send request ∨ transport = .callback ∧
        ∃ json, outgoing = .callback json ∧ callback = true ∧ HasKind "transport" json) 1 := by
  cases transport with
  | default => exact callsAtMost_perform (Or.inl ⟨rfl, rfl⟩)
  | callback =>
      refine CallsAtMost.bind (n := 0) (callsAtMost_exchange native callback
        fun hcallback json hjson => Or.inr ⟨rfl, json, rfl, hcallback, ?_⟩) fun response =>
          callsAtMost_done 0 _
      exact hasKind_print hprint (wellFormed_transportRequest request) valid_transportRequest rfl
        (by decide) hjson

theorem callsAtMost_receive {input options : Fields}
    (hoperation : string input "operation" = .ok (ascii "webhook"))
    (hoptions : object input "options" = .ok options) :
    (receive native callback options).CallsAtMost (MayLeave callback input) 1 := by
  have hwith (provider : Bytes → HostProgram Bytes)
      (hprovider : ∀ key, (provider key).CallsAtMost (MayLeave callback input) 1) :
      (receiveWith native options provider).CallsAtMost (MayLeave callback input) 1 :=
    callsAtMost_bind_done fun arguments =>
      (Webhook.callsAtMost_receiveAt _ (fun _ issuer _ => hprovider issuer) _ _ _ _).translate
        provider fun _ h => h
  refine callsAtMost_bind_ok fun useKeyProvider huse => ?_
  cases useKeyProvider with
  | true =>
      refine (hwith _ fun key => ?_).bind (n := 0) fun event => callsAtMost_done 0 _
      apply (callsAtMost_provideKey callback hprint key).imp
      rintro outgoing ⟨json, rfl, hcallback, hkind⟩
      exact ⟨_, options, hoperation, hoptions, hcallback, Or.inl ⟨rfl, huse, hkind⟩⟩
  | false =>
      refine callsAtMost_bind_done fun entries => callsAtMost_bind_done fun secrets => ?_
      exact (hwith _ fun key => callsAtMost_done 1 _).bind (n := 0) fun event =>
        callsAtMost_done 0 _

theorem callsAtMost_execute (input : Fields) :
    (execute native callback input).CallsAtMost (MayLeave callback input) 1 := by
  refine callsAtMost_bind_ok fun operation hoperation => callsAtMost_bind_ok fun options hoptions => ?_
  split_ifs with htoken hwebhook
  · exact callsAtMost_bind_done fun token => callsAtMost_done 1 _
  · exact callsAtMost_receive callback hprint (hwebhook ▸ hoperation) hoptions
  · apply (callsAtMost_executeApi native operation input options).translate _
    rintro ⟨transport, request⟩ huse
    apply (callsAtMost_sendOn callback hprint transport request).imp
    rintro outgoing (⟨rfl, rfl⟩ | ⟨rfl, json, rfl, hcallback, hkind⟩)
    · exact ⟨operation, options, hoperation, hoptions, ⟨htoken, hwebhook⟩, huse⟩
    · exact ⟨operation, options, hoperation, hoptions, hcallback,
        Or.inr ⟨⟨htoken, hwebhook⟩, huse, hkind⟩⟩

theorem callsAtMost_executeInput (input : Option Memory) (length : ℕ) :
    (executeInput native callback input length).CallsAtMost
      (fun outgoing => ∃ text obj, readInput input length = .ok text ∧
        parse native text = .ok obj ∧ MayLeave callback obj outgoing) 1 :=
  callsAtMost_bind_ok fun text htext => callsAtMost_bind_ok fun obj hobj =>
    (callsAtMost_execute callback hprint obj).imp fun _ h => ⟨text, obj, htext, hobj, h⟩

omit hprint

/-- Messages that are the name of a room. What is printed is UTF-8. -/
def sampleProtobuf : Protobuf :=
  { roomProtobuf with
    toJson := fun type (room : Bytes) =>
      if Utf8.Valid room then roomProtobuf.toJson type room else .error (ascii "INTERNAL") }

/-- The reference runtime, with one webhook event. -/
def sampleNative : Native where
  surroundings :=
    { ClientContext.sampleSurroundings with
      backend := Webhook.sampleServices.backend
      parseStruct := readUtf8Struct }
  env := ClientContext.sampleEnvironment
  createDefaultHttpTransport := .ok ()
  protobuf := sampleProtobuf
  parseEvent body :=
    if body = Webhook.sampleBody then .ok Webhook.sampleMessage
    else .error (ascii "INVALID_ARGUMENT")
  print := printStruct
  bodyFirst := false

/-- A list of the rooms, over the callback. -/
def sampleInput : Bytes :=
  ascii ("\x7b\"operation\":\"Room.ListRooms\",\"request\":\"\x7b\x7d\",\"options\":\x7b" ++
    "\"url\":\"http://localhost:7880\",\"access_token\":\"token\",\"timeout_ms\":\"30000\"," ++
    "\"use_transport\":true\x7d\x7d")

/-- A host whose callback fails. -/
def failingHost : ∀ outgoing, Outcome (OutgoingReply outgoing)
  | .callback _ => .ok ⟨1, none, 0⟩
  | .send _ => .error .unknown

end Calls

end LivekitServer.CApi

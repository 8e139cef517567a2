import LivekitServer.CApiTransport
import LivekitServer.JsonOrder
import LivekitServer.RustInvoke

/-!
# The Rust binding over the C ABI

`NativeLibrary.invoke` is an invocation of the Rust binding whose native module is the C ABI: the
callbacks of the module run the closures of the user, and its result is decoded. `Crates.Faithful`
says what the crates do on the texts of the two sides. What the module ends in then comes back
unchanged, an error with its code, message, status and Twirp code, and the request of a callback
reaches the closure as the client made it.
-/

namespace LivekitServer.RustBinding
open Value BufferArena

section Crates

/-- The tagged enumeration of requests, read off the members of an object. -/
def readTagged (members : Members) : Option Request :=
  match CApi.readText members "kind" with
  | none => none
  | some kind =>
    if kind = ascii "transport" then do
      let url ← CApi.readText members "url"
      let method ← CApi.readText members "method"
      let headers ← CApi.readHeaders members
      let body ← CApi.readText members "body"
      let timeoutMs ← CApi.readText members "timeout_ms"
      return .transport url method headers body timeoutMs
    else if kind = ascii "key" then (CApi.readText members "key").map .key
    else none

def IsInt64 (n : Number) : Prop := ∃ k : ℤ, InInt64 k ∧ n = .ofInt k

/-- A text of a tagged request, within the limits of every text of the binding. -/
structure IsRequest (text : Bytes) (members : Members) (request : Request) : Prop
    extends Json.Portable text members where
  read : readTagged members = some request

/-- What the crates do on the values and texts that the binding hands to them. Objects are sorted
maps, and base64 is the alphabet for URLs without padding. -/
structure Crates.Faithful {σ : Type} (crates : Crates σ) : Prop where
  toVec : ∀ value : Json, value.DistinctNames → value.All Utf8.Valid IsInt64 →
    value.depth ≤ nestingLimit →
    ∃ text, crates.toVec value = .ok text ∧ Utf8.Valid text ∧ Json.parse text = some value.ordered
  fromSlice : ∀ (text : Bytes) (value : Json), Utf8.Valid text → Json.parse text = some value →
    value.DistinctNames → value.All (fun _ => True) IsInt64 → value.depth ≤ nestingLimit →
    crates.fromSlice text = .ok value.ordered
  requestFromSlice : ∀ text members request, IsRequest text members request →
    crates.requestFromSlice text = .ok request
  encode : ∀ data, crates.encode data = Crypto.base64UrlEncode data
  decode : ∀ data, crates.decode (Crypto.base64UrlEncode data) = .ok data

/-- A printed number that is a small integer is written as one. -/
def PrintsIntegers (print : Fields → Option Bytes) : Prop :=
  ∀ fields text value, WellFormed (.struct fields) → print fields = some text →
    Json.parse text = some value →
    value.All (fun _ => True) fun n => ∀ k : ℤ, SmallInteger k → n.value = k → n = .ofInt k

theorem asI32_ofInt {k : ℤ} (h : InInt32 k) : asI32 (.number (.ofInt k)) = some k := by
  have hvalue : (if (Number.ofInt k).negative then -((Number.ofInt k).whole : ℤ)
      else (Number.ofInt k).whole) = k := by
    simp only [Number.ofInt, decide_eq_true_eq]
    split_ifs <;> omega
  have hinteger : (Number.ofInt k).IsInteger := ⟨rfl, rfl⟩
  have hzero : ¬((Number.ofInt k).negative = true ∧ (Number.ofInt k).whole = 0) := by
    simp only [Number.ofInt, decide_eq_true_eq]
    omega
  simp only [asI32, hvalue]
  exact if_pos ⟨hinteger, hzero, h⟩

theorem parseI64_signed {n : ℤ} (h : InInt64 n) : parseI64 (Decimal.signed n) = some n := by
  have hdigits : (Decimal.decimal n.natAbs).all Decimal.isDigit = true :=
    List.all_eq_true.mpr fun b hb => Decimal.isDigit_of_mem_decimal hb
  obtain ⟨d, rest, hd⟩ := List.exists_cons_of_ne_nil (Decimal.decimal_ne_nil n.natAbs)
  have hfirst : Decimal.isDigit d := Decimal.isDigit_of_mem_decimal (hd ▸ List.mem_cons_self)
  unfold parseI64 Decimal.signed
  by_cases hneg : n < 0
  · have hvalue : -((n.natAbs : ℤ)) = n := by omega
    simp only [if_pos hneg, List.head?_cons, if_true, true_or, List.tail_cons, hdigits,
      Decimal.value_decimal, hvalue, Decimal.decimal_ne_nil, h, ne_eq, not_false_eq_true, and_self]
  · have hvalue : (n.natAbs : ℤ) = n := by omega
    have hsign : d ≠ 0x2d ∧ d ≠ 0x2b := by
      constructor <;>
      · rintro rfl
        exact absurd hfirst (by decide)
    have hhead : (Decimal.decimal n.natAbs).head? = some d := by rw [hd]; rfl
    simp only [if_neg hneg, hhead, Option.some.injEq, hsign.1, hsign.2, or_self, if_false, hdigits,
      Decimal.value_decimal, hvalue, Decimal.decimal_ne_nil, h, ne_eq, not_false_eq_true, and_self,
      if_true]

end Crates

section Results

variable {σ κ : Type}

/-- An exception of the native module, as the binding has it. -/
def ofThrown (e : Thrown) : Error σ κ :=
  .native (CApi.asError e).code.value (CApi.asError e).what (CApi.asError e).httpStatus
    (CApi.asError e).twirpCode

/-- The binding has what the native module ended in. -/
def Surfaces (result : Except Thrown Value) (surfaced : Except (Error σ κ) Json) : Prop :=
  match result with
  | .ok value => ∃ item, surfaced = .ok item.ordered ∧ Agrees (· = ·) PrintedAs value item
  | .error e => surfaced = .error (ofThrown e)

/-- A map agrees with what its object agrees with. -/
theorem agrees_ordered {same : Bytes → Bytes → Prop} {count : ℚ → Number → Prop} {value : Value}
    {item : Json} (h : Agrees same count value item) : Agrees same count value item.ordered := by
  induction value generalizing item with
  | list values ih =>
      obtain ⟨items, rfl, hitems⟩ := agrees_list.mp h
      rw [Json.ordered, Json.orderedItems_eq]
      apply (agreesItems_iff _ _).mpr
      rw [List.forall₂_map_right_iff]
      have hmatched := (agreesItems_iff _ _).mp hitems
      refine List.forall₂_iff_zip.mpr ⟨hmatched.length_eq, fun {v item} hv => ?_⟩
      exact ih v (List.of_mem_zip hv).1 (List.forall₂_zip hmatched hv)
  | struct fields ih =>
      obtain ⟨members, rfl, hmembers⟩ := agrees_struct.mp h
      obtain ⟨matched, hperm, hmatched⟩ := (agreesFields_iff _ _).mp hmembers
      rw [Json.ordered_object]
      refine (agreesFields_iff _ _).mpr ⟨matched.map fun m => (m.1, m.2.ordered),
        (hperm.map _).trans (Json.sortedMembers_perm members).symm, ?_⟩
      rw [List.forall₂_map_right_iff]
      refine List.forall₂_iff_zip.mpr ⟨hmatched.length_eq, fun {f m} hf => ?_⟩
      obtain ⟨hname, hitem⟩ := List.forall₂_zip hmatched hf
      exact ⟨hname, ih f (List.of_mem_zip hf).1 hitem⟩
  | _ =>
      cases item with
      | array items => exact h.elim
      | object members => exact h.elim
      | _ => exact h

section Members

variable {same : Bytes → Bytes → Prop} {count : ℚ → Number → Prop}

/-- A member of an object agrees with a field. -/
theorem agrees_of_mem {fields : Fields} {members : Members}
    (h : AgreesFields same count fields members) {m : Bytes × Json} (hm : m ∈ members) :
    ∃ f ∈ fields, same f.1 m.1 ∧ Agrees same count f.2 m.2 := by
  obtain ⟨matched, hperm, hmatched⟩ := (agreesFields_iff _ _).mp h
  obtain ⟨i, hi, rfl⟩ := List.getElem_of_mem (hperm.symm.subset hm)
  have hlength : i < fields.length := hmatched.length_eq ▸ hi
  exact ⟨fields[i], List.getElem_mem hlength, hmatched.get hlength hi⟩

theorem agrees_of_mem_items {values : List Value} {items : List Json}
    (h : AgreesItems same count values items) {item : Json} (hitem : item ∈ items) :
    ∃ v ∈ values, Agrees same count v item := by
  have hmatched := (agreesItems_iff _ _).mp h
  obtain ⟨i, hi, rfl⟩ := List.getElem_of_mem hitem
  have hlength : i < values.length := hmatched.length_eq ▸ hi
  exact ⟨values[i], List.getElem_mem hlength, hmatched.get hlength hi⟩

/-- The printed form of a value has distinct names. -/
theorem distinct_agrees {value : Value} {item : Json} (h : Agrees (· = ·) count value item)
    (hwf : WellFormed value) : item.DistinctNames := by
  induction value generalizing item with
  | list values ih =>
      obtain ⟨items, rfl, hitems⟩ := agrees_list.mp h
      apply Json.distinctItems_iff.mpr
      intro item hitem
      obtain ⟨v, hv, hagrees⟩ := agrees_of_mem_items hitems hitem
      exact ih v hv hagrees (wellFormedValues_iff.mp hwf v hv)
  | struct fields ih =>
      obtain ⟨members, rfl, hmembers⟩ := agrees_struct.mp h
      refine ⟨hmembers.nodup hwf.1, Json.distinctMembers_iff.mpr fun m hm => ?_⟩
      obtain ⟨f, hf, -, hagrees⟩ := agrees_of_mem hmembers hm
      exact ih f hf hagrees (wellFormedFields_iff.mp hwf.2 f hf)
  | _ =>
      cases item with
      | array items => exact h.elim
      | object members => exact h.elim
      | _ => trivial

/-- The printed form of a value does not nest deeper than the value. -/
theorem depth_agrees {value : Value} {item : Json} (h : Agrees same count value item) :
    item.depth ≤ value.depth := by
  induction value generalizing item with
  | list values ih =>
      obtain ⟨items, rfl, hitems⟩ := agrees_list.mp h
      apply Nat.succ_le_succ
      apply Json.itemsDepth_le
      intro item hitem
      obtain ⟨v, hv, hagrees⟩ := agrees_of_mem_items hitems hitem
      exact (ih v hv hagrees).trans (depth_le_valuesDepth hv)
  | struct fields ih =>
      obtain ⟨members, rfl, hmembers⟩ := agrees_struct.mp h
      apply Nat.succ_le_succ
      apply Json.membersDepth_le
      intro m hm
      obtain ⟨f, hf, -, hagrees⟩ := agrees_of_mem hmembers hm
      exact (ih f hf hagrees).trans (depth_le_fieldsDepth hf)
  | _ =>
      cases item with
      | array items => exact h.elim
      | object members => exact h.elim
      | _ => exact le_refl 1

/-- The printed form of a plain value has names and strings of UTF-8 and no numbers. -/
theorem plain_agrees {value : Value} {item : Json} (h : Agrees (· = ·) count value item)
    (hplain : CApi.Plain value) : item.All Utf8.Valid fun _ => False := by
  induction value generalizing item with
  | number q => exact hplain.elim
  | string s =>
      obtain ⟨t, rfl, rfl⟩ := agrees_string.mp h
      exact hplain
  | list values ih =>
      obtain ⟨items, rfl, hitems⟩ := agrees_list.mp h
      apply Json.allItems_iff.mpr
      intro item hitem
      obtain ⟨v, hv, hagrees⟩ := agrees_of_mem_items hitems hitem
      exact ih v hv hagrees (allValues_iff.mp hplain v hv)
  | struct fields ih =>
      obtain ⟨members, rfl, hmembers⟩ := agrees_struct.mp h
      apply Json.allMembers_iff.mpr
      intro m hm
      obtain ⟨f, hf, hname, hagrees⟩ := agrees_of_mem hmembers hm
      obtain ⟨hkey, hvalue⟩ := allFields_iff.mp hplain f hf
      exact ⟨hname ▸ hkey, ih f hf hagrees hvalue⟩
  | _ =>
      cases item with
      | null => trivial
      | bool b => trivial
      | _ => exact h.elim

end Members

end Results

section Decoding

variable {σ κ : Type} {crates : Crates σ} (hcrates : crates.Faithful) {native : Native}
  (hprint : PrintsJson native.print)

include hprint in
/-- The envelope of a printable end is printed, in UTF-8. -/
theorem print_envelope {result : Except Thrown Value} (h : CApi.Ends CApi.Plain result)
    (hencodable : ∀ value, result = .ok value → CApi.Encodable value) :
    ∃ json, native.print (CApi.envelope result) = some json ∧ Utf8.Valid json ∧
      WellFormed (.struct (CApi.envelope result)) := by
  have henvelope : WellFormed (.struct (CApi.envelope result)) := by
    cases result with
    | ok value => exact CApi.wellFormed_success (hencodable value rfl).wellFormed
    | error e => exact CApi.wellFormed_failure _
  have hall : All Utf8.Valid (fun q => ∃ k : ℤ, InInt32 k ∧ q = k)
      (.struct (CApi.envelope result)) := by
    cases result with
    | ok value =>
        have hvalue : All Utf8.Valid (fun q => ∃ k : ℤ, InInt32 k ∧ q = k) value :=
          All.mono (fun _ h => h) (fun _ h => h.elim) h
        exact ⟨⟨Utf8.valid_ascii (by decide), hvalue⟩, ⟨Utf8.valid_ascii (by decide), trivial⟩,
          trivial⟩
    | error e =>
        have hcode : InInt32 (CApi.asError e).code.value := by
          cases (CApi.asError e).code <;> decide
        exact ⟨⟨Utf8.valid_ascii (by decide), trivial⟩,
          ⟨Utf8.valid_ascii (by decide), _, hcode, by norm_cast⟩,
          ⟨Utf8.valid_ascii (by decide), _, h.httpStatus, rfl⟩,
          ⟨Utf8.valid_ascii (by decide), h.twirpCode⟩,
          ⟨Utf8.valid_ascii (by decide), h.message.takeWhile_ne_zero⟩, trivial⟩
  obtain ⟨json, hjson, hvalid⟩ := hprint.total _ henvelope hall (CApi.depth_envelope hencodable)
  exact ⟨json, hjson, hvalid, henvelope⟩

include hcrates in
/-- An object is read as a map that finds what its members are. -/
theorem fromSlice_object {json : Bytes} {members entries : Members} (hvalid : Utf8.Valid json)
    (hparse : Json.parse json = some (.object members)) (hperm : members.Perm entries)
    (hnames : (entries.map Prod.fst).Nodup)
    (hentries : ∀ m ∈ entries, m.2.DistinctNames ∧ m.2.All (fun _ => True) IsInt64 ∧
      m.2.depth < nestingLimit) :
    ∃ value, crates.fromSlice json = .ok value ∧
      ∀ name, get value name = (entries.lookup (ascii name)).map Json.ordered := by
  have hmembers : (members.map Prod.fst).Nodup := (hperm.map Prod.fst).nodup_iff.mpr hnames
  have hitems : ∀ m ∈ members, m.2.DistinctNames ∧ m.2.All (fun _ => True) IsInt64 ∧
      m.2.depth < nestingLimit := fun m hm => hentries m (hperm.subset hm)
  refine ⟨_, hcrates.fromSlice json _ hvalid hparse ⟨hmembers, ?_⟩ ?_ ?_, ?_⟩
  · exact Json.distinctMembers_iff.mpr fun m hm => (hitems m hm).1
  · exact Json.allMembers_iff.mpr fun m hm => ⟨trivial, (hitems m hm).2.1⟩
  · have hdepth : Json.membersDepth members ≤ nestingLimit - 1 :=
      Json.membersDepth_le fun m hm => Nat.le_sub_one_of_lt (hitems m hm).2.2
    change Json.membersDepth members + 1 ≤ nestingLimit
    unfold nestingLimit at hdepth ⊢
    omega
  · intro name
    rw [Json.ordered_object, get, Json.lookup_sortedMembers hmembers,
      AssocList.lookup_perm hperm hmembers]

theorem decodeEnvelope_failure {json message twirpCode : Bytes} {code httpStatus : ℤ} {value : Json}
    (hvalue : crates.fromSlice json = .ok value) (hok : get value "ok" = some (.bool false))
    (hcode : get value "code" = some (.number (.ofInt code)))
    (hmessage : get value "message" = some (.string message))
    (hstatus : get value "http_status" = some (.number (.ofInt httpStatus)))
    (htwirp : get value "twirp_code" = some (.string twirpCode))
    (hranges : InInt32 code ∧ InInt32 httpStatus) :
    decodeEnvelope crates json =
      .error (.native code message httpStatus twirpCode : Error σ κ) := by
  have hfields : failureFields value = some (code, message, httpStatus, twirpCode) := by
    simp only [failureFields, hcode, hmessage, hstatus, htwirp, Option.bind_eq_bind,
      Option.bind_some, asI32_ofInt hranges.1, asI32_ofInt hranges.2]
    rfl
  rw [decodeEnvelope, hvalue]
  change (match get value "ok" >>= asBool with | _ => _) = _
  rw [hok]
  change (match failureFields value with | _ => _) = _
  rw [hfields]

include hcrates hprint in
/-- What the native module ends in is what the binding decodes. -/
theorem decodeEnvelope_finish (hintegers : PrintsIntegers native.print)
    {result : Except Thrown Value} (h : CApi.Ends CApi.Plain result)
    (hencodable : ∀ value, result = .ok value → CApi.Encodable value) :
    ∃ json, CApi.finish native CApi.Faults.none result = ⟨some (json ++ [0]), json.length⟩ ∧
      Surfaces result (decodeEnvelope crates json : Except (Error σ κ) Json) := by
  obtain ⟨json, hjson, hvalid, henvelope⟩ := print_envelope hprint h hencodable
  have houtput : CApi.finish native CApi.Faults.none result =
      ⟨some (json ++ [0]), json.length⟩ := by
    rw [CApi.finish_none, hjson]
    rfl
  refine ⟨json, houtput, ?_⟩
  have hconveys := CApi.conveys_finish hprint h hencodable
  rw [houtput] at hconveys
  cases result with
  | ok value =>
      obtain ⟨json', members, item, hsame, hparse, hperm, hitem⟩ := hconveys
      obtain rfl : json = json' := by simpa using congrArg CApi.Output.buffer hsame
      have hdistinct := distinct_agrees hitem (hencodable value rfl).wellFormed
      have hall := plain_agrees hitem h
      have hnames : [ascii "value", ascii "ok"].Nodup := by decide
      have hentries : ∀ m ∈ [(ascii "value", item), (ascii "ok", Json.bool true)],
          m.2.DistinctNames ∧ m.2.All (fun _ => True) IsInt64 ∧ m.2.depth < nestingLimit := by
        rw [List.forall_mem_cons, List.forall_mem_singleton]
        exact ⟨⟨hdistinct, hall.mono (fun _ _ => trivial) fun _ h => h.elim,
          (depth_agrees hitem).trans_lt (hencodable value rfl).shallow⟩, trivial, trivial,
          by decide⟩
      obtain ⟨parsed, hparsed, hget⟩ :=
        fromSlice_object hcrates hvalid hparse hperm hnames hentries
      have hok : get parsed "ok" = some (.bool true) := hget "ok"
      have hvalue : get parsed "value" = some item.ordered := hget "value"
      refine ⟨item, ?_, hitem⟩
      rw [decodeEnvelope, hparsed]
      change (match get parsed "ok" >>= asBool with | _ => _) = _
      rw [hok]
      change (match get parsed "value" with | _ => _) = _
      rw [hvalue]
  | error e =>
      obtain ⟨json', members, code, httpStatus, hsame, hparse, hperm, hcode, hstatus⟩ := hconveys
      obtain rfl : json = json' := by simpa using congrArg CApi.Output.buffer hsame
      have hcodeRange : InInt32 (CApi.asError e).code.value := by
        cases (CApi.asError e).code <;> decide
      have hnumbers := hintegers _ json _ henvelope hjson hparse
      have hwhole {name : Bytes} {n : Number} {k : ℤ} (hmem : (name, Json.number n) ∈ members)
          (hk : InInt32 k) (hn : n.value = k) : n = .ofInt k := by
        apply (Json.allMembers_iff.mp hnumbers _ hmem).2 k _ hn
        unfold InInt32 at hk
        unfold SmallInteger
        omega
      obtain rfl : code = .ofInt (CApi.asError e).code.value :=
        hwhole (hperm.symm.subset (.tail _ (.head _))) hcodeRange (by rw [hcode]; norm_cast)
      obtain rfl : httpStatus = .ofInt (CApi.asError e).httpStatus :=
        hwhole (hperm.symm.subset (.tail _ (.tail _ (.head _)))) h.httpStatus hstatus
      have hinteger {k : ℤ} (hk : InInt32 k) : IsInt64 (.ofInt k) := by
        refine ⟨k, ?_, rfl⟩
        unfold InInt32 at hk
        unfold InInt64
        omega
      have hnames : (["ok", "code", "http_status", "twirp_code", "message"].map ascii).Nodup := by
        decide
      have hone : 1 < nestingLimit := by decide
      obtain ⟨parsed, hparsed, hget⟩ :=
        fromSlice_object hcrates hvalid hparse hperm hnames (by
          simp only [List.forall_mem_cons, List.not_mem_nil, IsEmpty.forall_iff, implies_true,
            and_true]
          exact ⟨⟨trivial, trivial, hone⟩, ⟨trivial, hinteger hcodeRange, hone⟩,
            ⟨trivial, hinteger h.httpStatus, hone⟩, ⟨trivial, trivial, hone⟩, trivial, trivial,
            hone⟩)
      exact decodeEnvelope_failure hparsed (hget "ok") (hget "code") (hget "message")
        (hget "http_status") (hget "twirp_code") ⟨hcodeRange, h.httpStatus⟩

end Decoding

section Requests

variable {native : Native} (hprint : PrintsJson native.print)
include hprint

/-- The text of a plain message is that of the request that its members are read as. -/
theorem isRequest_printed {fields : Fields} {request : Request} {json : Bytes} {members : Members}
    (hwf : WellFormed (.struct fields)) (hplain : CApi.Plain (.struct fields))
    (hdepth : depth (.struct fields) ≤ nestingLimit) (hjson : native.print fields = some json)
    (hvalid : Utf8.Valid json) (hparse : Json.parse json = some (.object members))
    (hread : readTagged members = some request) : IsRequest json members request := by
  obtain ⟨-, printed, hprinted, hfields⟩ := hprint.prints fields json hwf hjson
  obtain rfl : printed = members :=
    Json.object.inj (Option.some.inj (hprinted.symm.trans hparse))
  have hagrees : Agrees SameText PrintedAs (.struct fields) (.object printed) := hfields
  have hexact := hagrees.exact hplain
  exact ⟨⟨hvalid, hparse, distinct_agrees hexact hwf, (depth_agrees hagrees).trans hdepth,
    (plain_agrees hexact hplain).mono (fun _ _ => trivial) fun _ h => h.elim⟩, hread⟩

/-- The request of a transport callback is read as the client made it. -/
theorem readTagged_transport {request : LivekitServer.HttpRequest}
    (hrequest : CApi.Utf8Request request) :
    ∃ json members, native.print (CApi.transportRequest request) = some json ∧
      IsRequest json members (.transport request.url request.method request.headers
        (Crypto.base64UrlEncode request.body) (Decimal.signed request.timeout)) := by
  have hwf := CApi.wellFormed_transportRequest request
  obtain ⟨json, hjson, hvalid⟩ := CApi.print_transportRequest hprint hrequest
  obtain ⟨members, items, hparse, hperm, hitems⟩ :=
    hprint.items hwf CApi.valid_transportRequest hjson
  refine ⟨json, members, hjson, isRequest_printed hprint hwf (CApi.plain_transportRequest hrequest)
    (CApi.depth_transportRequest request) hjson hvalid hparse ?_⟩
  rcases hitems with
    _ | ⟨hkind, _ | ⟨hurl, _ | ⟨hmethod, _ | ⟨hbody, _ | ⟨htime, _ | ⟨hheaders, ⟨⟩⟩⟩⟩⟩⟩⟩
  obtain ⟨kind, rfl, hkind'⟩ := agrees_string.mp hkind
  obtain ⟨url, rfl, hurl'⟩ := agrees_string.mp hurl
  obtain ⟨method, rfl, hmethod'⟩ := agrees_string.mp hmethod
  obtain ⟨body, rfl, hbody'⟩ := agrees_string.mp hbody
  obtain ⟨timeout, rfl, htime'⟩ := agrees_string.mp htime
  obtain ⟨headers, rfl, hheaders'⟩ := agrees_list.mp hheaders
  rw [hkind' (Utf8.valid_ascii (by decide)), hurl' hrequest.url, hmethod' hrequest.method,
    hbody' (CApi.valid_base64UrlEncode request.body),
    htime' (AccessToken.valid_signed request.timeout)] at hperm
  have hlookup := AssocList.lookup_perm hperm.symm hwf.1
  have htext (name : String) {s : Bytes} (h : members.lookup (ascii name) = some (.string s)) :
      CApi.readText members name = some s := by
    rw [CApi.readText, h]
  have hreadHeaders : CApi.readHeaders members = some request.headers := by
    rw [CApi.readHeaders, ← hlookup]
    exact CApi.readHeader_agrees hrequest.headers hheaders'
  simp only [readTagged, htext "kind" ((hlookup _).symm.trans rfl),
    htext "url" ((hlookup _).symm.trans rfl), htext "method" ((hlookup _).symm.trans rfl),
    hreadHeaders, htext "body" ((hlookup _).symm.trans rfl),
    htext "timeout_ms" ((hlookup _).symm.trans rfl)]
  rfl

theorem readTagged_key {key : Bytes} (hkey : Utf8.Valid key) :
    ∃ json members, native.print (CApi.keyRequest key) = some json ∧
      IsRequest json members (.key key) := by
  have hnames : [ascii "kind", ascii "key"].Nodup := by decide
  have hvalid : ∀ p ∈ [(ascii "kind", ascii "key"), (ascii "key", key)],
      Utf8.Valid p.1 ∧ Utf8.Valid p.2 := by
    rw [List.forall_mem_cons, List.forall_mem_singleton]
    exact ⟨⟨Utf8.valid_ascii (by decide), Utf8.valid_ascii (by decide)⟩,
      Utf8.valid_ascii (by decide), hkey⟩
  have hplain : CApi.Plain (.struct (CApi.keyRequest key)) :=
    allFields_iff.mpr (List.forall_mem_cons.mpr ⟨hvalid _ List.mem_cons_self,
      List.forall_mem_singleton.mpr (hvalid _ (List.mem_cons_of_mem _ List.mem_cons_self))⟩)
  have hdepth : depth (.struct (CApi.keyRequest key)) ≤ nestingLimit := show 2 ≤ 16 by decide
  obtain ⟨json, members, hjson, hutf8, hparse, hperm⟩ := hprint.strings hvalid hnames
  have hlookup := AssocList.lookup_perm hperm.symm hnames
  have htext (name : String) {s : Bytes} (h : members.lookup (ascii name) = some (.string s)) :
      CApi.readText members name = some s := by
    rw [CApi.readText, h]
  refine ⟨json, members, hjson, isRequest_printed hprint (CApi.wellFormed_keyRequest key) hplain
    hdepth hjson hutf8 hparse ?_⟩
  simp only [readTagged, htext "kind" ((hlookup _).symm.trans rfl),
    htext "key" ((hlookup _).symm.trans rfl)]
  rfl

end Requests

section Inputs

/-- Fields that the native module has read from an object of the binding. -/
structure ReadBack (fields : Fields) (members : Members) : Prop where
  agrees : AgreesFields (· = ·) ReadAs fields (Json.sortedMembers members)
  names : (members.map Prod.fst).Nodup

variable {fields : Fields} {members : Members}

theorem ReadBack.lookup (h : ReadBack fields members) (name : Bytes) :
    (fields.lookup name = none ∧ members.lookup name = none) ∨
      ∃ v item, fields.lookup name = some v ∧ members.lookup name = some item ∧
        Agrees (· = ·) ReadAs v item.ordered := by
  have hsorted := (Json.names_sortedMembers members).nodup_iff.mpr h.names
  have hlookup := Json.lookup_sortedMembers h.names name
  rcases h.agrees.lookup hsorted name with ⟨hnone, hmember⟩ | ⟨v, item, hv, hmember, hagrees⟩
  · rw [hlookup, Option.map_eq_none_iff] at hmember
    exact Or.inl ⟨hnone, hmember⟩
  · rw [hlookup] at hmember
    obtain ⟨item', hitem', rfl⟩ := Option.map_eq_some_iff.mp hmember
    exact Or.inr ⟨v, item', hv, hitem', hagrees⟩

theorem ReadBack.field (h : ReadBack fields members) {name : Bytes} {item : Json}
    (hitem : members.lookup name = some item) :
    ∃ v, fields.lookup name = some v ∧ Agrees (· = ·) ReadAs v item.ordered := by
  rcases h.lookup name with ⟨-, hnone⟩ | ⟨v, item', hv, hitem', hagrees⟩
  · rw [hnone] at hitem
    cases hitem
  · obtain rfl := Option.some.inj (hitem'.symm.trans hitem)
    exact ⟨v, hv, hagrees⟩

theorem ReadBack.absent (h : ReadBack fields members) {name : Bytes}
    (hitem : members.lookup name = none) : fields.lookup name = none := by
  rcases h.lookup name with ⟨hnone, -⟩ | ⟨_, _, _, hitem', -⟩
  · exact hnone
  · rw [hitem'] at hitem
    cases hitem

theorem ReadBack.lookup_string (h : ReadBack fields members) {name s : Bytes}
    (hitem : members.lookup name = some (.string s)) : fields.lookup name = some (.string s) := by
  obtain ⟨v, hv, hagrees⟩ := h.field hitem
  cases v with
  | string t =>
      obtain rfl : t = s := hagrees
      exact hv
  | _ => exact hagrees.elim

theorem ReadBack.lookup_bool (h : ReadBack fields members) {name : Bytes} {b : Bool}
    (hitem : members.lookup name = some (.bool b)) : fields.lookup name = some (.bool b) := by
  obtain ⟨v, hv, hagrees⟩ := h.field hitem
  cases v with
  | bool c =>
      obtain rfl : c = b := hagrees
      exact hv
  | _ => exact hagrees.elim

theorem ReadBack.lookup_object (h : ReadBack fields members) {name : Bytes} {inner : Members}
    (hitem : members.lookup name = some (.object inner)) (hnames : (inner.map Prod.fst).Nodup) :
    ∃ innerFields, fields.lookup name = some (.struct innerFields) ∧
      ReadBack innerFields inner := by
  obtain ⟨v, hv, hagrees⟩ := h.field hitem
  rw [Json.ordered_object] at hagrees
  cases v with
  | struct innerFields => exact ⟨innerFields, hv, hagrees, hnames⟩
  | _ => exact hagrees.elim

theorem ReadBack.string (h : ReadBack fields members) (name : String) {s : Bytes}
    (hitem : members.lookup (ascii name) = some (.string s)) :
    CApi.string fields name = .ok s := by
  refine CApi.string_ok.mpr (Or.inr (string?_eq_some.mpr ?_))
  rw [CApi.field, h.lookup_string hitem]
  rfl

theorem ReadBack.boolean (h : ReadBack fields members) (name : String) {b : Bool}
    (hitem : members.lookup (ascii name) = some (.bool b)) :
    CApi.boolean fields name = .ok b := by
  refine CApi.boolean_ok.mpr (Or.inr (bool?_eq_some.mpr ?_))
  rw [CApi.field, h.lookup_bool hitem]
  rfl

theorem ReadBack.object (h : ReadBack fields members) (name : String) {inner : Members}
    (hitem : members.lookup (ascii name) = some (.object inner))
    (hnames : (inner.map Prod.fst).Nodup) :
    ∃ innerFields, CApi.object fields name = .ok innerFields ∧ ReadBack innerFields inner := by
  obtain ⟨innerFields, hlookup, hinner⟩ := h.lookup_object hitem hnames
  refine ⟨innerFields, CApi.object_ok.mpr (Or.inr ?_), hinner⟩
  rw [CApi.field, hlookup]
  rfl

/-- An object of the binding gets to the native module. -/
theorem parse_toVec {σ : Type} {crates : Crates σ} (hcrates : crates.Faithful) {native : Native}
    (hreads : ReadsJson native.surroundings.parseStruct)
    (hdistinct : (Json.object members).DistinctNames)
    (hall : (Json.object members).All Utf8.Valid IsInt64)
    (hdepth : (Json.object members).depth ≤ nestingLimit) :
    ∃ text fields, crates.toVec (.object members) = .ok text ∧
      CApi.parse native text = .ok fields ∧ ReadBack fields members := by
  obtain ⟨text, htext, hvalid, hparse⟩ := hcrates.toVec _ hdistinct hall hdepth
  have hdistinct' := Json.distinctNames_ordered hdistinct
  have hweak : (Json.object members).All (fun _ => True) IsInt64 :=
    hall.mono (fun _ _ => trivial) fun _ h => h
  have hall' := Json.all_ordered hweak
  have hdepth' := (Json.depth_ordered_le (.object members)).trans hdepth
  rw [Json.ordered_object] at hparse hdistinct' hall' hdepth'
  obtain ⟨fields, hfields, hagrees⟩ := hreads.reads text _ hvalid hparse hdistinct' hdepth' hall'
  exact ⟨text, fields, htext, CApi.parse_ok.mpr hfields, hagrees, hdistinct.1⟩

end Inputs

section Conversation

variable {σ κ π α : Type}

/-- What the closures of the user do in an invocation, and where memory is found. A closure is
asked once at most. -/
structure Host (κ π : Type) where
  transport : HttpRequest → UserOutcome κ π HttpResponse
  key : Bytes → UserOutcome κ π (Option Bytes)
  allocator : Allocator

def Host.callback (host : Host κ π) (request : Bytes) : Callback κ π :=
  ⟨request, host.transport, host.key, host.allocator⟩

/-- What the native module finds after a callback: a status, and the bytes at the address. -/
def hostReply (context : Context σ κ π) (report : Report) : HostReply where
  status := report.status
  response := report.handed.bind fun handed =>
    (context.buffers.read handed.1).map Memory.ofText
  size := (report.handed.map Prod.snd).getD 0

/-- The loaded module: what it runs on, its own transport, and where it places its results. -/
structure NativeLibrary where
  native : Native
  send : LivekitServer.HttpRequest → Outcome LivekitServer.HttpResponse
  place : Bytes → Address

variable (crates : Crates σ) (closures : Closures) (host : Host κ π)

/-- The callbacks that a program of the native module makes, and what it ends in. -/
def converse (library : NativeLibrary) (context : Context σ κ π) :
    HostProgram α → List (Callback κ π) × Except Thrown α
  | .done result => ([], result)
  | .call (.callback json) next =>
    let callback := host.callback json
    let after := exchange crates closures context callback
    let rest := converse library after.1 (next (.ok (hostReply after.1 after.2)))
    (callback :: rest.1, rest.2)
  | .call (.send request) next => converse library context (next (library.send request))

/-- The pointer and the length that `lks_invoke` returns. -/
def NativeLibrary.result (library : NativeLibrary) : Except Thrown CApi.Output → NativeResult
  | .ok ⟨some buffer, length⟩ => some (library.place buffer, buffer.take length)
  | _ => none

/-- `NativeLibrary::invoke`, and the addresses that are freed in it. -/
def NativeLibrary.invoke (library : NativeLibrary) (input : Json) :
    Exit σ κ π × List Address :=
  match crates.toVec input with
  | .error e => (.returned (.error (.json e)), [])
  | .ok text =>
    let made := converse crates closures host library initial
      (CApi.lksInvoke library.native (closures.transport || closures.key) (some (.ofText text))
        text.length CApi.Faults.none)
    RustBinding.invoke crates closures input made.1 (library.result made.2)

end Conversation

section Invocation

variable {σ κ π : Type} {crates : Crates σ} {closures : Closures} {host : Host κ π}
  {library : NativeLibrary} {input : Json} {text : Bytes}

/-- The reply to the first callback is the response of the closure, or a failure. -/
theorem hostReply_exchange (json : Bytes) :
    hostReply (exchange crates closures initial (host.callback json)).1
        (exchange crates closures initial (host.callback json)).2 =
      match (respond crates closures (host.callback json)).caught with
      | .ok bytes => .ofText bytes
      | _ => ⟨1, none, 0⟩ := by
  have hinitial : ¬Latched (initial : Context σ κ π) := Bool.false_ne_true
  rcases exchange_cases crates closures hinitial (host.callback json) with
    ⟨bytes, hcaught, heq⟩ | ⟨e, hcaught, heq⟩ | ⟨payload, hcaught, heq⟩
  · rw [hcaught, heq]
    simp only [hostReply, Option.bind_some, Arena.read_push, Option.map_some, Option.getD_some]
    rfl
  · rw [hcaught, heq]
    rfl
  · rw [hcaught, heq]
    rfl

/-- An end of the native module that its envelope can carry. -/
structure Presentable (result : Except Thrown Value) : Prop where
  ends : CApi.Ends CApi.Plain result
  encodable : ∀ value, result = .ok value → CApi.Encodable value

variable (hcrates : crates.Faithful) (hprint : PrintsJson library.native.print)
  (hintegers : PrintsIntegers library.native.print) (htext : crates.toVec input = .ok text)

theorem readInput_ofText {text : Bytes} (h : text.length ≤ maxInt) :
    CApi.readInput (some (.ofText text)) text.length = .ok text := by
  rw [CApi.readInput, if_neg (not_lt.mpr h), Memory.read_ofText]

include hcrates hprint hintegers in
theorem result_finish {result : Except Thrown Value} (h : Presentable result) :
    ∃ pointer json, library.result
        (.ok (CApi.finish library.native CApi.Faults.none result)) = some (pointer, json) ∧
      Surfaces result (decodeEnvelope crates json : Except (Error σ κ) Json) := by
  obtain ⟨json, houtput, hsurfaces⟩ :=
    decodeEnvelope_finish hcrates hprint hintegers h.ends h.encodable
  refine ⟨library.place (json ++ [0]), json, ?_, hsurfaces⟩
  rw [houtput]
  change some (_, (json ++ [0]).take json.length) = _
  rw [List.take_left]

/-- The execution of the input. -/
def NativeLibrary.execution (library : NativeLibrary) (closures : Closures) (text : Bytes) :
    HostProgram Value :=
  CApi.executeInput library.native (closures.transport || closures.key) (some (.ofText text))
    text.length

include htext in
theorem NativeLibrary.invoke_eq {callbacks : List (Callback κ π)} {output : CApi.Output}
    (h : converse crates closures host library initial
      (CApi.lksInvoke library.native (closures.transport || closures.key) (some (.ofText text))
        text.length CApi.Faults.none) = (callbacks, .ok output)) :
    library.invoke crates closures host input =
      (exitOf crates (firstFailure crates closures (offered closures callbacks))
        (library.result (.ok output)), ((library.result (.ok output)).map Prod.fst).toList) := by
  obtain ⟨hfrees, hexit⟩ := invoke_exits htext callbacks (library.result (.ok output))
  rw [NativeLibrary.invoke, htext]
  dsimp only
  rw [h]
  exact Prod.ext hexit hfrees

include hcrates hprint hintegers htext

variable (host) in
/-- An invocation without a callback ends as the native module does. -/
theorem NativeLibrary.invoke_done {result : Except Thrown Value}
    (hexecution : library.execution closures text = .done result) (h : Presentable result) :
    ∃ surfaced pointer, Surfaces result surfaced ∧
      library.invoke crates closures host input = (.returned surfaced, [pointer]) := by
  obtain ⟨pointer, json, hresult, hsurfaces⟩ := result_finish (κ := κ) hcrates hprint hintegers h
  refine ⟨_, pointer, hsurfaces, ?_⟩
  have hconverse : converse crates closures host library initial
      (CApi.lksInvoke library.native (closures.transport || closures.key) (some (.ofText text))
        text.length CApi.Faults.none) =
        ([], .ok (CApi.finish library.native CApi.Faults.none result)) := by
    change library.execution closures text = _ at hexecution
    unfold NativeLibrary.execution at hexecution
    rw [CApi.lksInvoke, hexecution]
    rfl
  rw [NativeLibrary.invoke_eq htext hconverse, hresult, offered, ite_self]
  rfl

/-- An invocation with one callback ends as the closure does, when it fails, and then as the native
module does. -/
theorem NativeLibrary.invoke_call (hgiven : (closures.transport || closures.key) = true)
    {json : Bytes} {next : HostReply → Except Thrown Value}
    (hexecution : library.execution closures text =
      .call (.callback json) fun reply => .done (reply >>= next))
    (hnext : ∀ bytes, (respond crates closures (host.callback json)).caught = .ok bytes →
      Presentable (next (.ofText bytes)))
    (hfailed : Presentable (next ⟨1, none, 0⟩)) :
    ∃ exit pointer, library.invoke crates closures host input = (exit, [pointer]) ∧
      match (respond crates closures (host.callback json)).caught with
      | .ok bytes => ∃ surfaced, exit = .returned surfaced ∧
          Surfaces (next (.ofText bytes)) surfaced
      | .err e => exit = .returned (.error e)
      | .panic payload => exit = .resumed payload := by
  have hconverse : converse crates closures host library initial
      (CApi.lksInvoke library.native (closures.transport || closures.key) (some (.ofText text))
        text.length CApi.Faults.none) =
        ([host.callback json], .ok (CApi.finish library.native CApi.Faults.none
          (next (match (respond crates closures (host.callback json)).caught with
            | .ok bytes => .ofText bytes
            | _ => ⟨1, none, 0⟩)))) := by
    unfold NativeLibrary.execution at hexecution
    rw [CApi.lksInvoke, hexecution, ← hostReply_exchange]
    rfl
  have hoffered : offered closures [host.callback json] = [host.callback json] := if_pos hgiven
  have hinvoke := NativeLibrary.invoke_eq htext hconverse
  rw [hoffered] at hinvoke
  simp only [firstFailure, List.findSome?_cons, List.findSome?_nil] at hinvoke
  revert hinvoke hnext
  cases (respond crates closures (host.callback json)).caught with
  | ok bytes =>
      intro hnext hinvoke
      obtain ⟨pointer, json, hresult, hsurfaces⟩ :=
        result_finish (κ := κ) hcrates hprint hintegers (hnext bytes rfl)
      dsimp only at hinvoke
      rw [hresult] at hinvoke
      exact ⟨_, pointer, hinvoke, _, rfl, hsurfaces⟩
  | err e =>
      intro _ hinvoke
      obtain ⟨pointer, json, hresult, -⟩ :=
        result_finish (κ := κ) hcrates hprint hintegers hfailed
      dsimp only at hinvoke
      rw [hresult] at hinvoke
      exact ⟨_, pointer, hinvoke, rfl⟩
  | panic payload =>
      intro _ hinvoke
      obtain ⟨pointer, json, hresult, -⟩ :=
        result_finish (κ := κ) hcrates hprint hintegers hfailed
      dsimp only at hinvoke
      rw [hresult] at hinvoke
      exact ⟨_, pointer, hinvoke, rfl⟩

end Invocation

section Sample

/-- The crates over the JSON reader and the writer of this development. -/
def referenceCrates : Crates Unit where
  toVec value := .ok ((AccessToken.writer Locale.classic).write value.ordered)
  fromSlice text := (Json.parse text).elim (.error ()) fun value => .ok value.ordered
  requestFromSlice text :=
    match Json.parse text with
    | some (.object members) => (readTagged members).elim (.error ()) .ok
    | _ => .error ()
  failureError _ := ()
  encode := Crypto.base64UrlEncode
  decode text := (Crypto.base64UrlDecode text).mapError fun _ => ascii "Invalid input"

theorem faithful_referenceCrates : referenceCrates.Faithful where
  toVec value _ hall _ := by
    have hordered := Json.all_ordered hall
    refine ⟨_, rfl, Writer.valid_write _ ?_, Writer.parse_write AccessToken.writer_lossless _ ?_⟩
    · refine hordered.mono (fun s hs => AccessToken.valid_quoted hs) fun n hn => ?_
      obtain ⟨k, -, rfl⟩ := hn
      exact AccessToken.valid_number k
    · refine hordered.mono (fun s _ => trivial) fun n hn => ?_
      obtain ⟨k, -, rfl⟩ := hn
      exact AccessToken.readsNumber_ofInt k
  fromSlice text value _ hparse _ _ _ := by
    simp only [referenceCrates, hparse, Option.elim_some]
  requestFromSlice text members request h := by
    simp only [referenceCrates, h.parses, h.read, Option.elim_some]
  encode _ := rfl
  decode data := by
    simp only [referenceCrates, Crypto.decode_base64UrlEncode]
    rfl

theorem printsIntegers_printStruct : PrintsIntegers printStruct := by
  intro fields text value _ htext hparse
  obtain rfl := Option.some.inj htext
  have hall := all_true (.struct fields)
  have hwritten := Writer.parse_write AccessToken.writer_lossless (toJson (.struct fields))
    (all_toJson (fun _ _ => trivial) AccessToken.readsNumber_ofInt hall)
  obtain rfl : toJson (.struct fields) = value := Option.some.inj (hwritten.symm.trans hparse)
  refine all_toJson (fun _ _ => trivial) (fun m k _ h => ?_) hall
  rw [Number.value_ofInt] at h
  rw [Int.cast_injective h]

end Sample

end LivekitServer.RustBinding

import LivekitServer.EscapeJson
import LivekitServer.AssocList

/-!
# Reading the claims back

The members of the claims and of the grants are a table of fields some of which are absent. A
reader that looks each name up, and takes an absent boolean for `false`, an absent string for
the empty one and an absent optional for unset, recovers the builder. `claims_decode` is the
round trip from the builder through the signed text.
-/

namespace LivekitServer.AccessToken
open Json AssocList

section Tables

def boolField (value : Bool) : Option Json := if value then some (.bool true) else none

def stringField (value : Bytes) : Option Json := if value = [] then none else some (.string value)

def sourcesField (sources : List Bytes) : Option Json :=
  if sources = [] then none else some (.array (sources.map .string))

def attributesField (attributes : StringMap) : Option Json :=
  if attributes.entries = [] then none
  else some (.object (attributes.entries.map fun e => (e.1, .string e.2)))

theorem boolMember_eq (name : String) (value : Bool) :
    boolMember name value false = present [(ascii name, boolField value)] := by
  cases value <;> rfl

theorem optionalMember_eq (name : String) (value : Option Bool) :
    optionalMember name value = present [(ascii name, value.map .bool)] := by
  cases value <;> rfl

theorem stringMember_eq (name : String) (value : Bytes) :
    stringMember name value = present [(ascii name, stringField value)] := by
  unfold stringMember stringField
  split_ifs <;> rfl

theorem sourcesMember_eq (sources : List Bytes) :
    sourcesMember sources = present [(ascii "canPublishSources", sourcesField sources)] := by
  unfold sourcesMember sourcesField
  split_ifs <;> rfl

theorem attributesMember_eq (attributes : StringMap) :
    attributesMember attributes = present [(ascii "attributes", attributesField attributes)] := by
  unfold attributesMember attributesField
  split_ifs <;> rfl

theorem grantMember_eq {γ : Type} (name : String) (members : γ → Members) (grant : Option γ) :
    grantMember name members grant =
      present [(ascii name, grant.map fun g => .object (members g))] := by
  cases grant <;> rfl

def videoTable (grant : VideoGrant) : List (Bytes × Option Json) :=
  [(ascii "roomCreate", boolField grant.roomCreate), (ascii "roomList", boolField grant.roomList),
    (ascii "roomRecord", boolField grant.roomRecord),
    (ascii "roomAdmin", boolField grant.roomAdmin), (ascii "roomJoin", boolField grant.roomJoin),
    (ascii "room", stringField grant.room),
    (ascii "destinationRoom", stringField grant.destinationRoom),
    (ascii "ingressAdmin", boolField grant.ingressAdmin),
    (ascii "canPublish", grant.canPublish.map .bool),
    (ascii "canSubscribe", grant.canSubscribe.map .bool),
    (ascii "canPublishData", grant.canPublishData.map .bool),
    (ascii "canUpdateOwnMetadata", grant.canUpdateOwnMetadata.map .bool),
    (ascii "canPublishSources", sourcesField grant.canPublishSources),
    (ascii "hidden", boolField grant.hidden), (ascii "recorder", boolField grant.recorder),
    (ascii "agent", boolField grant.agent)]

def sipTable (grant : SipGrant) : List (Bytes × Option Json) :=
  [(ascii "admin", boolField grant.admin), (ascii "call", boolField grant.call)]

def agentTable (grant : AgentGrant) : List (Bytes × Option Json) :=
  [(ascii "admin", boolField grant.admin),
    (ascii "simulationAdmin", boolField grant.simulationAdmin)]

def claimsTable (token : AccessToken) (issuedAt expiresAt : ℤ) : List (Bytes × Option Json) :=
  [(ascii "iss", some (.string token.apiKey)), (ascii "nbf", some (.number (.ofInt issuedAt))),
    (ascii "exp", some (.number (.ofInt expiresAt))),
    (ascii "iat", some (.number (.ofInt issuedAt))), (ascii "sub", stringField token.identity),
    (ascii "name", stringField token.name), (ascii "metadata", stringField token.metadata),
    (ascii "attributes", attributesField token.attributes),
    (ascii "video", token.videoGrant.map fun g => .object (videoMembers g)),
    (ascii "sip", token.sipGrant.map fun g => .object (sipMembers g)),
    (ascii "agent", token.agentGrant.map fun g => .object (agentMembers g))]

theorem videoMembers_eq (grant : VideoGrant) :
    videoMembers grant = present (videoTable grant) := by
  simp only [videoMembers, boolMember_eq, stringMember_eq, optionalMember_eq, sourcesMember_eq,
    ← present_append]
  rfl

theorem sipMembers_eq (grant : SipGrant) : sipMembers grant = present (sipTable grant) := by
  simp only [sipMembers, boolMember_eq, ← present_append]
  rfl

theorem agentMembers_eq (grant : AgentGrant) :
    agentMembers grant = present (agentTable grant) := by
  simp only [agentMembers, boolMember_eq, ← present_append]
  rfl

theorem claims_eq (token : AccessToken) (issuedAt expiresAt : ℤ) :
    token.claims issuedAt expiresAt = present (token.claimsTable issuedAt expiresAt) := by
  have hfirst : (ascii "iss", Json.string token.apiKey) :: timeMembers issuedAt expiresAt =
      present [(ascii "iss", some (.string token.apiKey)),
        (ascii "nbf", some (.number (.ofInt issuedAt))),
        (ascii "exp", some (.number (.ofInt expiresAt))),
        (ascii "iat", some (.number (.ofInt issuedAt)))] := rfl
  simp only [claims, hfirst, stringMember_eq, attributesMember_eq, grantMember_eq,
    ← present_append]
  rfl

theorem nodup_videoTable (grant : VideoGrant) : ((videoTable grant).map Prod.fst).Nodup := by
  simp only [videoTable, List.map_cons, List.map_nil]
  decide

theorem nodup_sipTable (grant : SipGrant) : ((sipTable grant).map Prod.fst).Nodup := by
  simp only [sipTable, List.map_cons, List.map_nil]
  decide

theorem nodup_agentTable (grant : AgentGrant) : ((agentTable grant).map Prod.fst).Nodup := by
  simp only [agentTable, List.map_cons, List.map_nil]
  decide

theorem nodup_claimsTable (token : AccessToken) (issuedAt expiresAt : ℤ) :
    ((token.claimsTable issuedAt expiresAt).map Prod.fst).Nodup := by
  simp only [claimsTable, List.map_cons, List.map_nil]
  decide

end Tables

section Readers

variable (members : Members) (name : String)

def readBool : Option Bool :=
  match members.lookup (ascii name) with
  | none => some false
  | some (.bool b) => some b
  | some _ => none

def readOptional : Option (Option Bool) :=
  match members.lookup (ascii name) with
  | none => some none
  | some (.bool b) => some (some b)
  | some _ => none

def stringOf : Json → Option Bytes
  | .string s => some s
  | _ => none

def readString : Option Bytes :=
  match members.lookup (ascii name) with
  | none => some []
  | some item => stringOf item

def readStrings : Option (List Bytes) :=
  match members.lookup (ascii name) with
  | none => some []
  | some (.array items) => items.mapM stringOf
  | some _ => none

def readVideo : Json → Option VideoGrant
  | .object members => do
    let roomCreate ← readBool members "roomCreate"
    let roomList ← readBool members "roomList"
    let roomRecord ← readBool members "roomRecord"
    let roomAdmin ← readBool members "roomAdmin"
    let roomJoin ← readBool members "roomJoin"
    let room ← readString members "room"
    let destinationRoom ← readString members "destinationRoom"
    let ingressAdmin ← readBool members "ingressAdmin"
    let canPublish ← readOptional members "canPublish"
    let canSubscribe ← readOptional members "canSubscribe"
    let canPublishData ← readOptional members "canPublishData"
    let canUpdateOwnMetadata ← readOptional members "canUpdateOwnMetadata"
    let canPublishSources ← readStrings members "canPublishSources"
    let hidden ← readBool members "hidden"
    let recorder ← readBool members "recorder"
    let agent ← readBool members "agent"
    some ⟨roomCreate, roomList, roomRecord, roomAdmin, roomJoin, room, destinationRoom,
      ingressAdmin, canPublish, canSubscribe, canPublishData, canUpdateOwnMetadata,
      canPublishSources, hidden, recorder, agent⟩
  | _ => none

def readSip : Json → Option SipGrant
  | .object members => do
    let admin ← readBool members "admin"
    let call ← readBool members "call"
    some ⟨admin, call⟩
  | _ => none

def readAgent : Json → Option AgentGrant
  | .object members => do
    let admin ← readBool members "admin"
    let simulationAdmin ← readBool members "simulationAdmin"
    some ⟨admin, simulationAdmin⟩
  | _ => none

variable {members name} {table : List (Bytes × Option Json)} (hnodup : (table.map Prod.fst).Nodup)
include hnodup

theorem readBool_present {value : Bool} (h : table.lookup (ascii name) = some (boolField value)) :
    readBool (present table) name = some value := by
  rw [readBool, lookup_present hnodup, h]
  cases value <;> rfl

theorem readOptional_present {value : Option Bool}
    (h : table.lookup (ascii name) = some (value.map .bool)) :
    readOptional (present table) name = some value := by
  rw [readOptional, lookup_present hnodup, h]
  cases value <;> rfl

theorem readString_present {value : Bytes}
    (h : table.lookup (ascii name) = some (stringField value)) :
    readString (present table) name = some value := by
  rw [readString, lookup_present hnodup, h]
  unfold stringField
  split_ifs with hv
  · exact congrArg some hv.symm
  · rfl

omit hnodup in
theorem mapM_stringOf (sources : List Bytes) : (sources.map Json.string).mapM stringOf = some sources := by
  induction sources with
  | nil => rfl
  | cons source sources ih => simp [stringOf, ih]

theorem readStrings_present {sources : List Bytes}
    (h : table.lookup (ascii name) = some (sourcesField sources)) :
    readStrings (present table) name = some sources := by
  rw [readStrings, lookup_present hnodup, h]
  unfold sourcesField
  split_ifs with hs
  · exact congrArg some hs.symm
  · exact mapM_stringOf sources

end Readers

theorem readVideo_videoMembers (grant : VideoGrant) :
    readVideo (.object (videoMembers grant)) = some grant := by
  have hn := nodup_videoTable grant
  rw [videoMembers_eq, readVideo, readBool_present hn rfl, readBool_present hn rfl,
    readBool_present hn rfl, readBool_present hn rfl, readBool_present hn rfl,
    readString_present hn rfl, readString_present hn rfl, readBool_present hn rfl,
    readOptional_present hn rfl, readOptional_present hn rfl, readOptional_present hn rfl,
    readOptional_present hn rfl, readStrings_present hn rfl, readBool_present hn rfl,
    readBool_present hn rfl, readBool_present hn rfl]
  rfl

theorem readSip_sipMembers (grant : SipGrant) :
    readSip (.object (sipMembers grant)) = some grant := by
  have hn := nodup_sipTable grant
  rw [sipMembers_eq, readSip, readBool_present hn rfl, readBool_present hn rfl]
  rfl

theorem readAgent_agentMembers (grant : AgentGrant) :
    readAgent (.object (agentMembers grant)) = some grant := by
  have hn := nodup_agentTable grant
  rw [agentMembers_eq, readAgent, readBool_present hn rfl, readBool_present hn rfl]
  rfl

section Decoding

def claimNames : List Bytes :=
  ["iss", "nbf", "exp", "iat", "sub", "name", "metadata", "attributes", "video", "sip",
    "agent"].map ascii

def videoNames : List Bytes :=
  ["roomCreate", "roomList", "roomRecord", "roomAdmin", "roomJoin", "room", "destinationRoom",
    "ingressAdmin", "canPublish", "canSubscribe", "canPublishData", "canUpdateOwnMetadata",
    "canPublishSources", "hidden", "recorder", "agent"].map ascii

def sipNames : List Bytes := ["admin", "call"].map ascii

def agentNames : List Bytes := ["admin", "simulationAdmin"].map ascii

/-- A grant that is set is there as an object of its own fields, from which it is read back; a
grant that is not set is absent. -/
def Carries {γ : Type} (members : Members) (name : String) (names : List Bytes)
    (read : Json → Option γ) : Option γ → Prop
  | none => members.lookup (ascii name) = none
  | some grant => ∃ fields, members.lookup (ascii name) = some (.object fields) ∧
      (∀ f ∈ fields, f.1 ∈ names) ∧ read (.object fields) = some grant

/-- What a reader finds in the claims of a token. -/
structure DecodesTo (token : AccessToken) (issuedAt expiresAt : ℤ) (members : Members) : Prop where
  distinct : DistinctNames (.object members)
  closed : ∀ m ∈ members, m.1 ∈ claimNames
  iss : members.lookup (ascii "iss") = some (.string token.apiKey)
  nbf : members.lookup (ascii "nbf") = some (.number (.ofInt issuedAt))
  exp : members.lookup (ascii "exp") = some (.number (.ofInt expiresAt))
  iat : members.lookup (ascii "iat") = some (.number (.ofInt issuedAt))
  sub : members.lookup (ascii "sub") =
    if token.identity = [] then none else some (.string token.identity)
  name : members.lookup (ascii "name") =
    if token.name = [] then none else some (.string token.name)
  metadata : members.lookup (ascii "metadata") =
    if token.metadata = [] then none else some (.string token.metadata)
  attributes : members.lookup (ascii "attributes") =
    if token.attributes.entries = [] then none
    else some (.object (token.attributes.entries.map fun e => (e.1, .string e.2)))
  video : Carries members "video" videoNames readVideo token.videoGrant
  sip : Carries members "sip" sipNames readSip token.sipGrant
  agent : Carries members "agent" agentNames readAgent token.agentGrant

theorem mem_present {table : List (Bytes × Option Json)} {m : Bytes × Json}
    (h : m ∈ present table) : m.1 ∈ table.map Prod.fst :=
  (keys_present table).subset (List.mem_map_of_mem h)

theorem nodup_present {table : List (Bytes × Option Json)} (h : (table.map Prod.fst).Nodup) :
    ((present table).map Prod.fst).Nodup := (keys_present table).nodup h

/-- The item of a field, when it is there, has distinct names throughout. -/
def DistinctField (item : Option Json) : Prop := ∀ j ∈ item, DistinctNames j

theorem distinct_present {table : List (Bytes × Option Json)} (h : (table.map Prod.fst).Nodup)
    (hitems : ∀ e ∈ table, DistinctField e.2) : DistinctNames (.object (present table)) := by
  refine ⟨nodup_present h, distinctMembers_iff.mpr fun m hm => ?_⟩
  obtain ⟨e, he, hitem⟩ := List.mem_filterMap.mp hm
  obtain ⟨item, hi, rfl⟩ := Option.map_eq_some_iff.mp hitem
  exact hitems e he item hi

@[simp] theorem distinct_bool (value : Bool) : DistinctField (some (.bool value)) := by
  simp [DistinctField, DistinctNames]

@[simp] theorem distinct_number (n : Number) : DistinctField (some (.number n)) := by
  simp [DistinctField, DistinctNames]

@[simp] theorem distinct_string (s : Bytes) : DistinctField (some (.string s)) := by
  simp [DistinctField, DistinctNames]

@[simp] theorem distinct_absent : DistinctField none := by simp [DistinctField]

@[simp] theorem distinct_boolField (value : Bool) : DistinctField (boolField value) := by
  unfold boolField
  split_ifs <;> simp

@[simp] theorem distinct_optionalField (value : Option Bool) :
    DistinctField (value.map .bool) := by
  cases value <;> simp

@[simp] theorem distinct_stringField (value : Bytes) : DistinctField (stringField value) := by
  unfold stringField
  split_ifs <;> simp

@[simp] theorem distinct_sourcesField (sources : List Bytes) :
    DistinctField (sourcesField sources) := by
  unfold sourcesField
  split_ifs
  · simp
  · simp [DistinctField, DistinctNames, distinctItems_iff]

@[simp] theorem distinct_attributesField (attributes : StringMap) :
    DistinctField (attributesField attributes) := by
  have hkeys := attributes.keys_nodup
  unfold attributesField
  split_ifs
  · simp
  · intro item hi
    obtain rfl := Option.mem_some_iff.mp hi
    refine ⟨by simpa [Function.comp_def] using hkeys, distinctMembers_iff.mpr fun m hm => ?_⟩
    obtain ⟨e, _, rfl⟩ := List.mem_map.mp hm
    trivial

theorem distinct_videoMembers (grant : VideoGrant) :
    DistinctNames (.object (videoMembers grant)) := by
  rw [videoMembers_eq]
  exact distinct_present (nodup_videoTable grant) (by simp [videoTable])

theorem distinct_sipMembers (grant : SipGrant) : DistinctNames (.object (sipMembers grant)) := by
  rw [sipMembers_eq]
  exact distinct_present (nodup_sipTable grant) (by simp [sipTable])

theorem distinct_agentMembers (grant : AgentGrant) :
    DistinctNames (.object (agentMembers grant)) := by
  rw [agentMembers_eq]
  exact distinct_present (nodup_agentTable grant) (by simp [agentTable])

theorem distinct_grantField {γ : Type} {members : γ → Members}
    (h : ∀ g, DistinctNames (.object (members g))) (grant : Option γ) :
    DistinctField (grant.map fun g => .object (members g)) := by
  cases grant <;> simp [DistinctField, h]

theorem distinct_claims (token : AccessToken) (issuedAt expiresAt : ℤ) :
    DistinctNames (.object (token.claims issuedAt expiresAt)) := by
  rw [claims_eq]
  apply distinct_present (nodup_claimsTable token issuedAt expiresAt)
  simp [claimsTable, distinct_grantField distinct_videoMembers,
    distinct_grantField distinct_sipMembers, distinct_grantField distinct_agentMembers]

theorem carries_grant {γ : Type} {table : List (Bytes × Option Json)}
    (hnodup : (table.map Prod.fst).Nodup) {name : String} {names : List Bytes}
    {members : γ → Members} {read : Json → Option γ} (grant : Option γ)
    (hlookup : table.lookup (ascii name) = some (grant.map fun g => .object (members g)))
    (hnames : ∀ g, ∀ f ∈ members g, f.1 ∈ names)
    (hread : ∀ g, read (.object (members g)) = some g) :
    Carries (present table) name names read grant := by
  have h : (present table).lookup (ascii name) = grant.map fun g => .object (members g) := by
    rw [lookup_present hnodup, hlookup]
    rfl
  cases grant with
  | none => exact h
  | some g => exact ⟨members g, h, hnames g, hread g⟩

theorem claims_decodesTo (token : AccessToken) (issuedAt expiresAt : ℤ) :
    token.DecodesTo issuedAt expiresAt (token.claims issuedAt expiresAt) := by
  have hdistinct := distinct_claims token issuedAt expiresAt
  have hnodup := nodup_claimsTable token issuedAt expiresAt
  have hlookup := fun (name : String) => lookup_present hnodup (ascii name)
  rw [claims_eq] at hdistinct ⊢
  refine
    { distinct := hdistinct
      closed := fun m hm => mem_present hm
      iss := hlookup "iss"
      nbf := hlookup "nbf"
      exp := hlookup "exp"
      iat := hlookup "iat"
      sub := hlookup "sub"
      name := hlookup "name"
      metadata := hlookup "metadata"
      attributes := hlookup "attributes"
      video := carries_grant hnodup token.videoGrant rfl ?_ readVideo_videoMembers
      sip := carries_grant hnodup token.sipGrant rfl ?_ readSip_sipMembers
      agent := carries_grant hnodup token.agentGrant rfl ?_ readAgent_agentMembers }
  · intro g f hf
    rw [videoMembers_eq] at hf
    exact mem_present hf
  · intro g f hf
    rw [sipMembers_eq] at hf
    exact mem_present hf
  · intro g f hf
    rw [agentMembers_eq] at hf
    exact mem_present hf

end Decoding

section Classic

theorem parse_claimsText (token : AccessToken) (issuedAt expiresAt : ℤ) :
    Json.parse (claimsText Locale.classic token issuedAt expiresAt) =
      some (.object (token.claims issuedAt expiresAt)) := by
  rw [claimsText_eq_write]
  apply Writer.parse_write writer_lossless _
  rw [all_claims fun _ _ => trivial]
  exact ⟨fun _ _ => trivial, readsNumber_ofInt issuedAt, readsNumber_ofInt expiresAt⟩

theorem valid_plain {s : Bytes} (h : Plain s) : Utf8.Valid s :=
  Utf8.valid_of_ascii fun b hb => (h b hb).1

theorem valid_claimsText {token : AccessToken} (h : ∀ s ∈ token.strings, Utf8.Valid s)
    (issuedAt expiresAt : ℤ) :
    Utf8.Valid (claimsText Locale.classic token issuedAt expiresAt) := by
  have hall := all_claims (S := fun s => Utf8.Valid ((writer Locale.classic).token (.string s)))
    (N := fun n => Utf8.Valid ((writer Locale.classic).number n))
    (fun s hs => valid_quoted (valid_plain hs)) token issuedAt expiresAt
  rw [claimsText_eq_write]
  exact Writer.valid_write _ (hall.mpr
    ⟨fun s hs => valid_quoted (h s hs), valid_number issuedAt, valid_number expiresAt⟩)

/-- The claims text that `ToJwt` signs is one valid object that reads back as the builder. -/
theorem claims_decode (clock : SystemClock) (backend : Crypto.Backend) (token : AccessToken)
    (now : TimePoint) (hkey : token.apiKey ≠ []) (hsecret : token.apiSecret ≠ [])
    (hutf8 : ∀ s ∈ token.strings, Utf8.Valid s)
    (hfits : InInt64 (clock.secondsSinceEpoch now + token.validFor)) :
    ∃ text members,
      token.toJwt clock backend Locale.classic now = jwtOver backend token.apiSecret text ∧
      Utf8.Valid text ∧
      Json.parse text = some (.object members) ∧
      token.DecodesTo (clock.secondsSinceEpoch now)
        (clock.secondsSinceEpoch now + token.validFor) members := by
  have hexpires : token.expiresAt clock now = clock.secondsSinceEpoch now + token.validFor :=
    wrapInt64_eq hfits
  have hjwt := toJwt_eq clock token backend Locale.classic now hkey hsecret
  rw [hexpires] at hjwt
  exact ⟨_, _, hjwt, valid_claimsText hutf8 _ _, parse_claimsText token _ _,
    claims_decodesTo token _ _⟩

def sampleGrant : VideoGrant :=
  { VideoGrant.none with
    roomJoin := true
    room := ascii "stage\x0d"
    canPublish := some false
    canPublishSources := [ascii "camera", ascii "microphone"] }

def sampleToken : AccessToken :=
  { new (ascii "devkey") (ascii "secret") with
    identity := ascii "alice"
    name := ascii "A \"B\""
    attributes := SortedMap.ofList [(ascii "k", ascii "v"), (ascii "", ascii "x")]
    videoGrant := some sampleGrant
    sipGrant := some ⟨false, true⟩ }

/-- The digest that signs `sampleToken` at second 1700000000. -/
def sampleSignature : Bytes :=
  [13, 108, 210, 214, 121, 163, 75, 78, 32, 91, 65, 66, 51, 72, 114, 98, 182, 27, 50, 78, 53,
    114, 197, 121, 201, 89, 7, 11, 0, 168, 25, 216]

theorem claims_decode_sample :
    ∃ text members,
      sampleToken.toJwt .nanoseconds (.constant [] sampleSignature) Locale.classic
        sampleNow =
          jwtOver (.constant [] sampleSignature) (ascii "secret") text ∧
      Utf8.Valid text ∧
      Json.parse text = some (.object members) ∧
      sampleToken.DecodesTo 1700000000 1700021600 members :=
  claims_decode .nanoseconds (.constant [] sampleSignature) sampleToken
    sampleNow (by decide) (by decide) (by decide) (by decide)

end Classic

end LivekitServer.AccessToken

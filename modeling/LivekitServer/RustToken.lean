import LivekitServer.RustApi

/-!
# The token builder of the Rust binding

The builder of the binding is a map of JSON fields that the setters overwrite. `Tracks` says that
the map stands for a C++ builder, every setter keeps it, and `toJwtAt_refines` says that the token
of the binding is the token of the C++ builder after the same setters.
-/

namespace LivekitServer.RustBinding
open Value BufferArena Program

section Builder

/-- A map of fields, in some order. -/
structure FieldMap where
  entries : Members
  names : (entries.map Prod.fst).Nodup

def FieldMap.empty : FieldMap := ⟨[], List.nodup_nil⟩

/-- A field that is there is overwritten. -/
def FieldMap.insert (fields : FieldMap) (key : Bytes) (value : Json) : FieldMap where
  entries := (key, value) :: fields.entries.filter fun e => e.1 ≠ key
  names := by
    rw [List.map_cons, List.nodup_cons]
    refine ⟨?_, (List.filter_sublist.map Prod.fst).nodup fields.names⟩
    intro h
    obtain ⟨e, he, hkey⟩ := List.mem_map.mp h
    exact of_decide_eq_true (List.mem_filter.mp he).2 hkey

def FieldMap.lookup (fields : FieldMap) (key : Bytes) : Option Json := fields.entries.lookup key

theorem FieldMap.lookup_insert (fields : FieldMap) (key : Bytes) (value : Json) :
    (fields.insert key value).lookup =
      fun name => if name = key then some value else fields.lookup name := by
  funext name
  rw [lookup, insert, List.lookup_cons]
  by_cases hname : name = key
  · rw [if_pos hname, hname, beq_self_eq_true]
  · rw [if_neg hname, beq_false_of_ne hname]
    change (fields.entries.filter _).lookup name = fields.entries.lookup name
    induction fields.entries with
    | nil => rfl
    | cons e entries ih =>
        rw [List.filter_cons, List.lookup_cons]
        by_cases hkey : e.1 = key
        · rw [if_neg (by simpa using hkey), ih, beq_false_of_ne (hkey ▸ hname)]
        · rw [if_pos (by simpa using hkey), List.lookup_cons, ih]

structure VideoGrant extends LivekitServer.VideoGrant where
  room_valid : Utf8.Valid room
  destinationRoom_valid : Utf8.Valid destinationRoom
  sources_valid : ∀ source ∈ canPublishSources, Utf8.Valid source

/-- The fields of the JSON of a grant. An option that is not set is skipped. -/
def videoTable (grant : LivekitServer.VideoGrant) : List (Bytes × Option Json) :=
  [(ascii "room_create", some (.bool grant.roomCreate)),
    (ascii "room_list", some (.bool grant.roomList)),
    (ascii "room_record", some (.bool grant.roomRecord)),
    (ascii "room_admin", some (.bool grant.roomAdmin)),
    (ascii "room_join", some (.bool grant.roomJoin)),
    (ascii "room", some (.string grant.room)),
    (ascii "destination_room", some (.string grant.destinationRoom)),
    (ascii "ingress_admin", some (.bool grant.ingressAdmin)),
    (ascii "can_publish", grant.canPublish.map .bool),
    (ascii "can_subscribe", grant.canSubscribe.map .bool),
    (ascii "can_publish_data", grant.canPublishData.map .bool),
    (ascii "can_update_own_metadata", grant.canUpdateOwnMetadata.map .bool),
    (ascii "can_publish_sources", some (.array (grant.canPublishSources.map .string))),
    (ascii "hidden", some (.bool grant.hidden)), (ascii "recorder", some (.bool grant.recorder)),
    (ascii "agent", some (.bool grant.agent))]

def videoJson (grant : LivekitServer.VideoGrant) : Json :=
  .object (AssocList.present (videoTable grant))

def sipMembers (grant : SipGrant) : Members :=
  [(ascii "admin", .bool grant.admin), (ascii "call", .bool grant.call)]

def agentMembers (grant : AgentGrant) : Members :=
  [(ascii "admin", .bool grant.admin), (ascii "simulation_admin", .bool grant.simulationAdmin)]

/-- A `BTreeMap<String, String>`. -/
structure TextMap where
  map : StringMap
  valid : ∀ e ∈ map.entries, Utf8.Valid e.1 ∧ Utf8.Valid e.2

def TextMap.members (m : TextMap) : Members := m.map.entries.map fun e => (e.1, .string e.2)

structure TokenBuilder where
  native : NativeLibrary
  fields : FieldMap

namespace TokenBuilder

def new (native : NativeLibrary) (apiKey apiSecret : Text) : TokenBuilder where
  native := native
  fields := ((FieldMap.empty.insert (ascii "api_key") (.string apiKey.bytes)).insert
    (ascii "api_secret") (.string apiSecret.bytes)).insert (ascii "valid_for")
      (.string (ascii "21600"))

variable (builder : TokenBuilder)

def field (key : String) (value : Json) : TokenBuilder :=
  { builder with fields := builder.fields.insert (ascii key) value }

def withIdentity (value : Text) : TokenBuilder := builder.field "identity" (.string value.bytes)

def withName (value : Text) : TokenBuilder := builder.field "name" (.string value.bytes)

def withMetadata (value : Text) : TokenBuilder := builder.field "metadata" (.string value.bytes)

def withAttributes (value : TextMap) : TokenBuilder :=
  builder.field "attributes" (.object value.members)

/-- An error is the text of an `InvalidArgument`. -/
def withValidFor (seconds : ℤ) : Except Bytes TokenBuilder :=
  if seconds ≤ 0 then .error (ascii "Token lifetime must be positive seconds")
  else .ok (builder.field "valid_for" (.string (Decimal.signed seconds)))

def withVideoGrant (grant : VideoGrant) : TokenBuilder :=
  builder.field "video" (videoJson grant.toVideoGrant)

def withSipGrant (grant : SipGrant) : TokenBuilder :=
  builder.field "sip" (.object (sipMembers grant))

def withAgentGrant (grant : AgentGrant) : TokenBuilder :=
  builder.field "agent" (.object (agentMembers grant))

/-- The fields that are sent, with the time. -/
def sent (now : ℤ) : FieldMap := builder.fields.insert (ascii "now") (.string (Decimal.signed now))

def inputMembers (now : ℤ) : Members :=
  [(ascii "operation", .string (ascii "token")),
    (ascii "options", .object (builder.sent now).entries)]

variable {σ κ π : Type} (crates : Crates σ) (host : Host κ π)

def invoke (now : ℤ) : Exit σ κ π × List Address :=
  builder.native.invoke crates ⟨false, false⟩ host (.object (builder.inputMembers now))

/-- `to_jwt_at`. There is no closure to ask. -/
def toJwtAt (now : ℤ) : Ending σ κ π Bytes := do
  let value ← (builder.invoke crates host now).1.ending
  match asString value with
  | some text => .ok text
  | none => .error (.inr (.binding (ascii "Expected JWT string")))

end TokenBuilder

end Builder

section Setters

/-- The setters of a builder. -/
inductive Setter
  | identity (value : Text)
  | name (value : Text)
  | metadata (value : Text)
  | attributes (value : TextMap)
  | validFor (seconds : ℤ) (range : InInt64 seconds)
  | videoGrant (grant : VideoGrant)
  | sipGrant (grant : SipGrant)
  | agentGrant (grant : AgentGrant)

def Setter.rust (builder : TokenBuilder) : Setter → Except Bytes TokenBuilder
  | .identity value => .ok (builder.withIdentity value)
  | .name value => .ok (builder.withName value)
  | .metadata value => .ok (builder.withMetadata value)
  | .attributes value => .ok (builder.withAttributes value)
  | .validFor seconds _ => builder.withValidFor seconds
  | .videoGrant grant => .ok (builder.withVideoGrant grant)
  | .sipGrant grant => .ok (builder.withSipGrant grant)
  | .agentGrant grant => .ok (builder.withAgentGrant grant)

def Setter.cpp (token : AccessToken) : Setter → Outcome AccessToken
  | .identity value => .ok (token.setIdentity value.bytes)
  | .name value => .ok (token.setName value.bytes)
  | .metadata value => .ok (token.setMetadata value.bytes)
  | .attributes value => .ok (token.setAttributes value.map)
  | .validFor seconds range => token.setValidFor seconds range
  | .videoGrant grant => .ok (token.setVideoGrant grant.toVideoGrant)
  | .sipGrant grant => .ok (token.setSipGrant grant)
  | .agentGrant grant => .ok (token.setAgentGrant grant)

/-- A text that is not set is empty. -/
def TracksText (lookup : Bytes → Option Json) (name : String) (text : Bytes) : Prop :=
  lookup (ascii name) = some (.string text) ∨ lookup (ascii name) = none ∧ text = []

def attributesJson (attributes : StringMap) : Json :=
  .object (attributes.entries.map fun e => (e.1, .string e.2))

/-- The fields stand for a C++ builder. -/
structure Tracks (lookup : Bytes → Option Json) (token : AccessToken) : Prop where
  apiKey : lookup (ascii "api_key") = some (.string token.apiKey)
  apiSecret : lookup (ascii "api_secret") = some (.string token.apiSecret)
  identity : TracksText lookup "identity" token.identity
  name : TracksText lookup "name" token.name
  metadata : TracksText lookup "metadata" token.metadata
  attributes : lookup (ascii "attributes") = some (attributesJson token.attributes) ∨
    lookup (ascii "attributes") = none ∧ token.attributes.entries = []
  validFor : lookup (ascii "valid_for") = some (.string (Decimal.signed token.validFor))
  video : lookup (ascii "video") = token.videoGrant.map videoJson
  sip : lookup (ascii "sip") = token.sipGrant.map fun grant => .object (sipMembers grant)
  agent : lookup (ascii "agent") = token.agentGrant.map fun grant => .object (agentMembers grant)

/-- A value that the crates write and the native module reads. -/
structure Sendable (value : Json) : Prop where
  distinct : value.DistinctNames
  valid : value.All Utf8.Valid IsInt64
  depth : value.depth ≤ 3

/-- The builder of the binding stands for a C++ builder, and its fields can be sent. -/
structure TokenBuilder.Follows (builder : TokenBuilder) (token : AccessToken) : Prop where
  tracks : Tracks builder.fields.lookup token
  sendable : ∀ e ∈ builder.fields.entries, Utf8.Valid e.1 ∧ Sendable e.2

theorem sendable_string {text : Bytes} (h : Utf8.Valid text) : Sendable (.string text) := by
  have hdepth : (Json.string text).depth ≤ 3 := by
    change 1 ≤ 3
    decide
  exact ⟨trivial, h, hdepth⟩

theorem sendable_insert {fields : FieldMap}
    (h : ∀ e ∈ fields.entries, Utf8.Valid e.1 ∧ Sendable e.2) {key : Bytes} {value : Json}
    (hkey : Utf8.Valid key) (hvalue : Sendable value) :
    ∀ e ∈ (fields.insert key value).entries, Utf8.Valid e.1 ∧ Sendable e.2 :=
  List.forall_mem_cons.mpr ⟨⟨hkey, hvalue⟩, fun e he => h e (List.mem_of_mem_filter he)⟩

theorem sendable_attributes (m : TextMap) : Sendable (attributesJson m.map) := by
  refine ⟨⟨?_, Json.distinctMembers_iff.mpr ?_⟩, Json.allMembers_iff.mpr ?_, ?_⟩
  · rw [List.map_map]
    exact SortedMap.keys_nodup m.map
  · exact List.forall_mem_map.mpr fun e _ => trivial
  · exact List.forall_mem_map.mpr fun e he => m.valid e he
  · apply Nat.succ_le_succ
    apply Json.membersDepth_le
    exact List.forall_mem_map.mpr fun e _ => Nat.le_succ 1

/-- A value without objects in it. -/
structure Flat (item : Json) : Prop where
  distinct : item.DistinctNames
  valid : item.All Utf8.Valid IsInt64
  depth : item.depth ≤ 2

theorem flat_bool (b : Bool) : Flat (.bool b) := ⟨trivial, trivial, Nat.le_succ 1⟩

theorem flat_string {s : Bytes} (h : Utf8.Valid s) : Flat (.string s) :=
  ⟨trivial, h, Nat.le_succ 1⟩

theorem flat_strings {texts : List Bytes} (h : ∀ s ∈ texts, Utf8.Valid s) :
    Flat (.array (texts.map .string)) := by
  refine ⟨Json.distinctItems_iff.mpr ?_, Json.allItems_iff.mpr ?_, ?_⟩
  · exact List.forall_mem_map.mpr fun s _ => trivial
  · exact List.forall_mem_map.mpr h
  · apply Nat.succ_le_succ
    apply Json.itemsDepth_le
    exact List.forall_mem_map.mpr fun s _ => le_refl 1

/-- The object of the fields of a table that are there. -/
theorem sendable_present {table : List (Bytes × Option Json)} (hnames : (table.map Prod.fst).Nodup)
    (htable : ∀ e ∈ table, Utf8.Valid e.1 ∧ ∀ item, e.2 = some item → Flat item) :
    Sendable (.object (AssocList.present table)) := by
  have hmembers : ∀ m ∈ AssocList.present table, Utf8.Valid m.1 ∧ Flat m.2 := by
    intro m hm
    obtain ⟨e, he, hm⟩ := List.mem_filterMap.mp hm
    obtain ⟨item, hitem, rfl⟩ := Option.map_eq_some_iff.mp hm
    exact ⟨(htable e he).1, (htable e he).2 item hitem⟩
  refine ⟨⟨(AssocList.keys_present table).nodup hnames, Json.distinctMembers_iff.mpr ?_⟩,
    Json.allMembers_iff.mpr ?_, ?_⟩
  · exact fun m hm => (hmembers m hm).2.distinct
  · exact fun m hm => ⟨(hmembers m hm).1, (hmembers m hm).2.valid⟩
  · apply Nat.succ_le_succ
    apply Json.membersDepth_le
    exact fun m hm => (hmembers m hm).2.depth

theorem names_videoTable (grant : LivekitServer.VideoGrant) :
    ((videoTable grant).map Prod.fst).Nodup := by
  change (["room_create", "room_list", "room_record", "room_admin", "room_join", "room",
    "destination_room", "ingress_admin", "can_publish", "can_subscribe", "can_publish_data",
    "can_update_own_metadata", "can_publish_sources", "hidden", "recorder", "agent"].map
      ascii).Nodup
  decide

theorem sendable_video (grant : VideoGrant) : Sendable (videoJson grant.toVideoGrant) := by
  have hnames : ∀ name ∈ (videoTable grant.toVideoGrant).map Prod.fst, Utf8.Valid name := by
    change ∀ name ∈ ["room_create", "room_list", "room_record", "room_admin", "room_join", "room",
      "destination_room", "ingress_admin", "can_publish", "can_subscribe", "can_publish_data",
      "can_update_own_metadata", "can_publish_sources", "hidden", "recorder", "agent"].map ascii, _
    decide
  have hflag (b : Bool) : ∀ item, some (Json.bool b) = some item → Flat item := by
    intro item hitem
    obtain rfl := Option.some.inj hitem
    exact flat_bool b
  have htext {s : Bytes} (hs : Utf8.Valid s) :
      ∀ item, some (Json.string s) = some item → Flat item := by
    intro item hitem
    obtain rfl := Option.some.inj hitem
    exact flat_string hs
  have hoption (o : Option Bool) : ∀ item, o.map Json.bool = some item → Flat item := by
    intro item hitem
    obtain ⟨b, -, rfl⟩ := Option.map_eq_some_iff.mp hitem
    exact flat_bool b
  have hsources : ∀ item, some (Json.array (grant.canPublishSources.map .string)) = some item →
      Flat item := by
    intro item hitem
    obtain rfl := Option.some.inj hitem
    exact flat_strings grant.sources_valid
  apply sendable_present (names_videoTable _)
  intro e he
  refine ⟨hnames e.1 (List.mem_map_of_mem he), ?_⟩
  clear hnames
  revert e
  simp only [videoTable, List.forall_mem_cons, List.not_mem_nil, IsEmpty.forall_iff, implies_true,
    and_true]
  exact ⟨hflag _, hflag _, hflag _, hflag _, hflag _, htext grant.room_valid,
    htext grant.destinationRoom_valid, hflag _, hoption _, hoption _, hoption _, hoption _,
    hsources, hflag _, hflag _, hflag _⟩

theorem sendable_sip (grant : SipGrant) : Sendable (.object (sipMembers grant)) := by
  have hnames : (["admin", "call"].map ascii).Nodup := by decide
  have hdepth : (Json.object (sipMembers grant)).depth ≤ 3 := by
    change 2 ≤ 3
    decide
  exact ⟨⟨hnames, trivial, trivial, trivial⟩,
    ⟨⟨Utf8.valid_ascii (by decide), trivial⟩, ⟨Utf8.valid_ascii (by decide), trivial⟩, trivial⟩,
    hdepth⟩

theorem sendable_agent (grant : AgentGrant) : Sendable (.object (agentMembers grant)) := by
  have hnames : (["admin", "simulation_admin"].map ascii).Nodup := by decide
  have hdepth : (Json.object (agentMembers grant)).depth ≤ 3 := by
    change 2 ≤ 3
    decide
  exact ⟨⟨hnames, trivial, trivial, trivial⟩,
    ⟨⟨Utf8.valid_ascii (by decide), trivial⟩, ⟨Utf8.valid_ascii (by decide), trivial⟩, trivial⟩,
    hdepth⟩

/-- Both builders take a setter, or both refuse it. -/
theorem follows_setter {builder : TokenBuilder} {token : AccessToken} (h : builder.Follows token)
    (setter : Setter) :
    (∃ builder' token', setter.rust builder = .ok builder' ∧ setter.cpp token = .ok token' ∧
        builder'.Follows token' ∧ builder'.native = builder.native) ∨
      setter.rust builder = .error (ascii "Token lifetime must be positive seconds") ∧
        setter.cpp token =
          raise .invalidArgument (ascii "token lifetime must be positive") := by
  have hfield {key : String} (hkey : Utf8.Valid (ascii key)) {value : Json}
      (hvalue : Sendable value) {token' : AccessToken}
      (htracks : Tracks (fun name => if name = ascii key then some value
        else builder.fields.lookup name) token') : (builder.field key value).Follows token' := by
    refine ⟨?_, sendable_insert h.sendable hkey hvalue⟩
    rw [TokenBuilder.field, FieldMap.lookup_insert]
    exact htracks
  cases setter with
  | identity value =>
      have hvalue := sendable_string value.valid
      exact Or.inl ⟨_, _, rfl, rfl, hfield (Utf8.valid_ascii (by decide)) hvalue
        { h.tracks with identity := Or.inl rfl }, rfl⟩
  | name value =>
      have hvalue := sendable_string value.valid
      exact Or.inl ⟨_, _, rfl, rfl, hfield (Utf8.valid_ascii (by decide)) hvalue
        { h.tracks with name := Or.inl rfl }, rfl⟩
  | metadata value =>
      have hvalue := sendable_string value.valid
      exact Or.inl ⟨_, _, rfl, rfl, hfield (Utf8.valid_ascii (by decide)) hvalue
        { h.tracks with metadata := Or.inl rfl }, rfl⟩
  | attributes value =>
      have hvalue := sendable_attributes value
      exact Or.inl ⟨_, _, rfl, rfl, hfield (Utf8.valid_ascii (by decide)) hvalue
        { h.tracks with attributes := Or.inl rfl }, rfl⟩
  | validFor seconds range =>
      by_cases hpos : seconds ≤ 0
      · exact Or.inr ⟨if_pos hpos, dif_pos hpos⟩
      · exact Or.inl ⟨_, _, if_neg hpos, dif_neg hpos,
          hfield (Utf8.valid_ascii (by decide)) (sendable_string (AccessToken.valid_signed _))
            { h.tracks with validFor := rfl }, rfl⟩
  | videoGrant grant =>
      exact Or.inl ⟨_, _, rfl, rfl, hfield (Utf8.valid_ascii (by decide)) (sendable_video grant)
        { h.tracks with video := rfl }, rfl⟩
  | sipGrant grant =>
      exact Or.inl ⟨_, _, rfl, rfl, hfield (Utf8.valid_ascii (by decide)) (sendable_sip grant)
        { h.tracks with sip := rfl }, rfl⟩
  | agentGrant grant =>
      exact Or.inl ⟨_, _, rfl, rfl, hfield (Utf8.valid_ascii (by decide)) (sendable_agent grant)
        { h.tracks with agent := rfl }, rfl⟩

theorem follows_setters {builder : TokenBuilder} {token : AccessToken} (h : builder.Follows token)
    (setters : List Setter) :
    (∃ builder' token', setters.foldlM Setter.rust builder = .ok builder' ∧
        setters.foldlM Setter.cpp token = .ok token' ∧ builder'.Follows token' ∧
        builder'.native = builder.native) ∨
      setters.foldlM Setter.rust builder =
          .error (ascii "Token lifetime must be positive seconds") ∧
        setters.foldlM Setter.cpp token =
          raise .invalidArgument (ascii "token lifetime must be positive") := by
  induction setters generalizing builder token with
  | nil => exact Or.inl ⟨builder, token, rfl, rfl, h, rfl⟩
  | cons setter rest ih =>
      rw [List.foldlM_cons, List.foldlM_cons]
      rcases follows_setter h setter with
        ⟨builder', token', hrust, hcpp, hfollows, hnative⟩ | ⟨hrust, hcpp⟩
      · rw [hrust, hcpp, ← hnative]
        exact ih hfollows
      · rw [hrust, hcpp]
        exact Or.inr ⟨rfl, rfl⟩

theorem follows_new (native : NativeLibrary) (apiKey apiSecret : Text) :
    (TokenBuilder.new native apiKey apiSecret).Follows
      (AccessToken.new apiKey.bytes apiSecret.bytes) := by
  have hlifetime : ascii "21600" = Decimal.signed 21600 := by decide
  constructor
  · rw [TokenBuilder.new, FieldMap.lookup_insert, FieldMap.lookup_insert, FieldMap.lookup_insert]
    exact
      { apiKey := rfl
        apiSecret := rfl
        identity := Or.inr ⟨rfl, rfl⟩
        name := Or.inr ⟨rfl, rfl⟩
        metadata := Or.inr ⟨rfl, rfl⟩
        attributes := Or.inr ⟨rfl, rfl⟩
        validFor := congrArg (some ∘ Json.string) hlifetime
        video := rfl
        sip := rfl
        agent := rfl }
  · refine sendable_insert (sendable_insert (sendable_insert ?_ (Utf8.valid_ascii (by decide))
      (sendable_string apiKey.valid)) (Utf8.valid_ascii (by decide))
      (sendable_string apiSecret.valid)) (Utf8.valid_ascii (by decide))
      (sendable_string (Utf8.valid_ascii (by decide)))
    exact fun e he => absurd he List.not_mem_nil

end Setters

section Reading

variable {fields : Fields} {members : Members} {grant : LivekitServer.VideoGrant}

theorem carries_text (h : ReadBack fields members) {name : String} {text : Bytes}
    (htracks : TracksText (fun key => members.lookup key) name text) :
    CApi.Carries fields name [] Value.string? text := by
  rcases htracks with hitem | ⟨hitem, rfl⟩
  · right
    rw [CApi.field, h.lookup_string hitem]
    rfl
  · left
    refine ⟨?_, rfl⟩
    rw [CApi.field, h.absent hitem]
    rfl

theorem carries_integer (h : ReadBack fields members) {name : String} {n : ℤ} (hn : InInt64 n)
    (hitem : members.lookup (ascii name) = some (.string (Decimal.signed n))) :
    CApi.CarriesInteger fields name n :=
  CApi.carriesInteger_signed fields hn (h.lookup_string hitem)

theorem carries_bool (h : ReadBack fields members) {name : String} {b : Bool}
    (hitem : members.lookup (ascii name) = some (.bool b)) :
    CApi.Carries fields name false Value.bool? b := by
  right
  rw [CApi.field, h.lookup_bool hitem]
  rfl

theorem carries_option (h : ReadBack fields members) {name : String} {o : Option Bool}
    (hitem : members.lookup (ascii name) = o.map .bool) : CApi.CarriesOptional fields name o := by
  cases o with
  | none =>
      refine ⟨?_, fun value hvalue => by cases hvalue⟩
      rw [CApi.has, h.absent hitem]
      rfl
  | some b =>
      refine ⟨?_, fun value hvalue => ?_⟩
      · rw [CApi.has, h.lookup_bool hitem]
        rfl
      · obtain rfl := Option.some.inj hvalue
        exact carries_bool h hitem

theorem carries_strings (h : ReadBack fields members) {name : String} {texts : List Bytes}
    (hitem : members.lookup (ascii name) = some (.array (texts.map .string))) :
    CApi.Carries fields name [] Value.list? (texts.map .string) := by
  obtain ⟨v, hv, hagrees⟩ := h.field hitem
  cases v with
  | list values =>
      have hvalues : values = texts.map Value.string := by
        rw [Json.ordered, Json.orderedItems_eq, List.map_map] at hagrees
        have hmatched := (agreesItems_iff _ _).mp hagrees
        rw [List.forall₂_map_right_iff] at hmatched
        clear hagrees hv hitem
        induction hmatched with
        | nil => rfl
        | @cons v s values texts hs _ ih =>
            cases v with
            | string t =>
                obtain rfl : t = s := hs
                rw [List.map_cons, ih]
            | _ => exact hs.elim
      right
      rw [CApi.field, hv, hvalues]
      rfl
  | _ => exact hagrees.elim

/-- An object of strings is read as its strings, in some order. -/
theorem ReadBack.strings {pairs : List (Bytes × Bytes)}
    (h : ReadBack fields (pairs.map fun p => (p.1, .string p.2))) :
    ∃ entries : List (Bytes × Bytes), fields = entries.map (fun e => (e.1, .string e.2)) ∧
      entries.Perm pairs := by
  obtain ⟨matched, hperm, hmatched⟩ := (agreesFields_iff _ _).mp h.agrees
  have hsorted : matched.Perm (pairs.map fun p => (p.1, Json.string p.2)) := by
    refine (hperm.trans (Json.sortedMembers_perm _)).trans ?_
    rw [List.map_map]
    exact List.Perm.refl _
  have hback : pairs = (pairs.map fun p => (p.1, Json.string p.2)).map fun m =>
      (m.1, (asString m.2).getD []) := by
    rw [List.map_map]
    exact (List.map_id pairs).symm
  refine ⟨matched.map fun m => (m.1, (asString m.2).getD []), ?_, ?_⟩
  · have hstrings : ∀ m ∈ matched, ∃ s, m.2 = .string s := by
      intro m hm
      obtain ⟨p, -, rfl⟩ := List.mem_map.mp (hsorted.subset hm)
      exact ⟨p.2, rfl⟩
    clear hperm hsorted hback h
    induction hmatched with
    | nil => rfl
    | @cons f m fields matched hm _ ih =>
        obtain ⟨hstring, hrest⟩ := List.forall_mem_cons.mp hstrings
        obtain ⟨s, hs⟩ := hstring
        obtain ⟨key, v⟩ := f
        obtain ⟨name, item⟩ := m
        obtain ⟨rfl, hv⟩ := hm
        obtain rfl : item = .string s := hs
        rw [List.map_cons, List.map_cons, ← ih hrest]
        cases v with
        | string t =>
            obtain rfl : t = s := hv
            rfl
        | _ => exact hv.elim
  · rw [hback]
    exact hsorted.map _

theorem carries_map (h : ReadBack fields members) {name : String} {m : StringMap}
    (htracks : members.lookup (ascii name) = some (attributesJson m) ∨
      members.lookup (ascii name) = none ∧ m.entries = []) : CApi.CarriesMap fields name m := by
  rcases htracks with hitem | ⟨hitem, hempty⟩
  · have hnames : ((m.entries.map fun e => (e.1, Json.string e.2)).map Prod.fst).Nodup := by
      rw [List.map_map]
      exact SortedMap.keys_nodup m
    obtain ⟨inner, hlookup, hinner⟩ := h.lookup_object hitem hnames
    obtain ⟨entries, rfl, hperm⟩ := hinner.strings
    refine ⟨entries, Or.inr ?_, hperm⟩
    rw [CApi.field, hlookup]
    rfl
  · refine ⟨[], Or.inl ⟨?_, rfl⟩, by rw [hempty]⟩
    rw [CApi.field, h.absent hitem]
    rfl

theorem carries_video (h : ReadBack fields (AssocList.present (videoTable grant))) :
    CApi.CarriesVideo fields grant := by
  have hlookup (name : Bytes) := AssocList.lookup_present (names_videoTable grant) name
  exact
    { roomCreate := carries_bool h (hlookup _)
      roomList := carries_bool h (hlookup _)
      roomRecord := carries_bool h (hlookup _)
      roomAdmin := carries_bool h (hlookup _)
      roomJoin := carries_bool h (hlookup _)
      room := carries_text h (Or.inl (hlookup _))
      destinationRoom := carries_text h (Or.inl (hlookup _))
      ingressAdmin := carries_bool h (hlookup _)
      canPublish := carries_option h (hlookup _)
      canSubscribe := carries_option h (hlookup _)
      canPublishData := carries_option h (hlookup _)
      canUpdateOwnMetadata := carries_option h (hlookup _)
      canPublishSources := carries_strings h (hlookup _)
      hidden := carries_bool h (hlookup _)
      recorder := carries_bool h (hlookup _)
      agent := carries_bool h (hlookup _) }

/-- A grant stands in an object of its own, when it is set. -/
theorem carries_grant {γ : Type} (h : ReadBack fields members) {name : String} {grant : Option γ}
    (object : γ → Members) {carries : Fields → γ → Prop}
    (hnames : ∀ grant, ((object grant).map Prod.fst).Nodup)
    (hcarries : ∀ inner grant, ReadBack inner (object grant) → carries inner grant)
    (hitem : members.lookup (ascii name) = grant.map fun grant => .object (object grant)) :
    CApi.CarriesGrant fields name carries grant := by
  cases grant with
  | none =>
      change CApi.has fields name = false
      rw [CApi.has, h.absent hitem]
      rfl
  | some grant =>
      obtain ⟨inner, hlookup, hinner⟩ := h.lookup_object hitem (hnames grant)
      exact ⟨inner, hlookup, hcarries inner grant hinner⟩

/-- What a map that stands for a builder is read as carries the builder. -/
theorem carries_of_tracks (h : ReadBack fields members) {token : AccessToken} {now : ℤ}
    (htracks : Tracks (fun key => members.lookup key) token) (hnow : InInt64 now)
    (hitem : members.lookup (ascii "now") = some (.string (Decimal.signed now))) :
    CApi.CarriesToken fields token now where
  apiKey := carries_text h (Or.inl htracks.apiKey)
  apiSecret := carries_text h (Or.inl htracks.apiSecret)
  identity := carries_text h htracks.identity
  name := carries_text h htracks.name
  metadata := carries_text h htracks.metadata
  attributes := carries_map h htracks.attributes
  validFor := carries_integer h token.validFor_range htracks.validFor
  now := carries_integer h hnow hitem
  video := by
    apply carries_grant h (fun grant => AssocList.present (videoTable grant)) _ _ htracks.video
    · exact fun grant => (AssocList.keys_present _).nodup (names_videoTable grant)
    · exact fun _ _ hinner => carries_video hinner
  sip := by
    apply carries_grant h sipMembers _ _ htracks.sip
    · intro grant
      change (["admin", "call"].map ascii).Nodup
      decide
    · intro _ grant hinner
      exact ⟨carries_bool hinner rfl, carries_bool hinner rfl⟩
  agent := by
    apply carries_grant h agentMembers _ _ htracks.agent
    · intro grant
      change (["admin", "simulation_admin"].map ascii).Nodup
      decide
    · intro _ grant hinner
      exact ⟨carries_bool hinner rfl, carries_bool hinner rfl⟩

end Reading

section Signing

variable (surroundings : Surroundings)

/-- The token of a C++ builder at a time in seconds, as far as the clock reaches. -/
def signedAt (token : AccessToken) (now : ℤ) : Outcome Bytes :=
  if 0 ≤ now ∧ now + token.validFor ≤ surroundings.clock.maxSeconds then
    token.toJwt surroundings.clock surroundings.backend surroundings.loc
      (surroundings.clock.timePoint now)
  else
    raise .invalidArgument (ascii "token timestamp or lifetime exceeds native clock range")

/-- Options that carry a builder out of the range of the clock are refused. -/
theorem tokenOptions_outOfRange {options : Fields} {token : AccessToken} {now : ℤ}
    (h : CApi.CarriesToken options token now)
    (hrange : CApi.OutOfRange surroundings.clock now token.validFor) :
    CApi.tokenOptions surroundings.clock options =
      raise .invalidArgument (ascii "token timestamp or lifetime exceeds native clock range") := by
  obtain ⟨entries, hentries, hperm⟩ := h.attributes
  unfold CApi.tokenOptions
  rw [CApi.string_ok.mpr h.apiKey, CApi.string_ok.mpr h.apiSecret, CApi.string_ok.mpr h.identity,
    CApi.string_ok.mpr h.name, CApi.string_ok.mpr h.metadata, CApi.object_ok.mpr hentries,
    CApi.integer_ok.mpr h.validFor, CApi.integer_ok.mpr h.now]
  change (CApi.stringMap _ >>= _) = _
  rw [CApi.stringMap_ok rfl hperm]
  exact dif_pos hrange

theorem sign_of_carries {options : Fields} {token : AccessToken} {now : ℤ}
    (h : CApi.CarriesToken options token now) :
    CApi.sign surroundings.clock surroundings.backend surroundings.loc options =
      signedAt surroundings token now := by
  rw [CApi.sign, signedAt]
  by_cases hrange : 0 ≤ now ∧ now + token.validFor ≤ surroundings.clock.maxSeconds
  · rw [if_pos hrange, CApi.tokenOptions_of_carries surroundings.clock h hrange.1 hrange.2]
    rfl
  · have hout : CApi.OutOfRange surroundings.clock now token.validFor := by
      by_contra hin
      obtain ⟨hnow, -, hsum⟩ := (CApi.range_iff surroundings.clock).mp hin
      exact hrange ⟨hnow, hsum⟩
    rw [if_neg hrange, tokenOptions_outOfRange surroundings h hout]
    rfl

theorem ends_signedAt (token : AccessToken) (now : ℤ) :
    CApi.Ends Utf8.Valid (signedAt surroundings token now) := by
  unfold signedAt AccessToken.toJwt
  split_ifs
  · exact CApi.ends_raise (Utf8.valid_ascii (by decide))
  · have hdot : Utf8.Valid [0x2e] := rfl
    have hmac := CApi.ends_hmacSha256 surroundings.backend token.apiSecret
      (token.unsignedToken surroundings.clock surroundings.loc
        (surroundings.clock.timePoint now))
    revert hmac
    cases Crypto.hmacSha256 _ _ _ with
    | error e => exact id
    | ok signature =>
        intro _
        have hencoded (data : Bytes) := CApi.valid_base64UrlEncode data
        exact (((hencoded _).append hdot).append (hencoded _)).append hdot |>.append (hencoded _)
  · exact CApi.ends_raise (Utf8.valid_ascii (by decide))

end Signing

section Refinement

variable {σ κ π : Type} {crates : Crates σ} {host : Host κ π} {builder : TokenBuilder}
  {token : AccessToken} {now : ℤ}

/-- The fields of a builder get to the C ABI. -/
theorem asks_token (hcrates : crates.Faithful) (hsound : builder.native.Sound)
    (h : builder.Follows token) (hnow : InInt64 now)
    (hfits : Fits crates (.object (builder.inputMembers now))) :
    ∃ text, crates.toVec (.object (builder.inputMembers now)) = .ok text ∧
      builder.native.execution ⟨false, false⟩ text =
        .done ((signedAt builder.native.native.surroundings token now).map .string) := by
  have hsent : ∀ e ∈ (builder.sent now).entries, Utf8.Valid e.1 ∧ Sendable e.2 :=
    sendable_insert h.sendable (Utf8.valid_ascii (by decide))
      (sendable_string (AccessToken.valid_signed now))
  have hnames : ((builder.inputMembers now).map Prod.fst).Nodup := by
    change (["operation", "options"].map ascii).Nodup
    decide
  have hdepth : (Json.object (builder.inputMembers now)).depth ≤ nestingLimit := by
    have hfields : Json.membersDepth (builder.sent now).entries ≤ 3 :=
      Json.membersDepth_le fun e he => (hsent e he).2.depth
    change max 1 (max (Json.membersDepth (builder.sent now).entries + 1) 0) + 1 ≤ 16
    omega
  obtain ⟨text, obj, htext, hobj, hread⟩ := parse_toVec hcrates hsound.reads
    ⟨hnames, trivial, ⟨(builder.sent now).names, Json.distinctMembers_iff.mpr fun e he =>
      (hsent e he).2.distinct⟩, trivial⟩
    ⟨⟨Utf8.valid_ascii (by decide), Utf8.valid_ascii (by decide)⟩,
      ⟨Utf8.valid_ascii (by decide), Json.allMembers_iff.mpr fun e he =>
        ⟨(hsent e he).1, (hsent e he).2.valid⟩⟩, trivial⟩
    hdepth
  obtain ⟨options, hoptions, hreadOptions⟩ :=
    hread.object "options" rfl (builder.sent now).names
  have hcarries : CApi.CarriesToken options token now := by
    have hlookup : (builder.sent now).lookup = fun name =>
        if name = ascii "now" then some (.string (Decimal.signed now))
        else builder.fields.lookup name := FieldMap.lookup_insert _ _ _
    refine carries_of_tracks hreadOptions ?_ hnow (congrFun hlookup (ascii "now"))
    change Tracks (builder.sent now).lookup token
    rw [hlookup]
    exact { h.tracks with }
  refine ⟨text, htext, ?_⟩
  have hinput := readInput_ofText (hfits text htext)
  rw [NativeLibrary.execution, CApi.executeInput, hinput]
  simp only [Program.liftM_eq, Program.done_ok_bind, hobj]
  rw [CApi.execute, hread.string "operation" rfl]
  simp only [Program.liftM_eq, Program.done_ok_bind, hoptions, if_true]
  rw [sign_of_carries _ hcarries]
  cases signedAt builder.native.native.surroundings token now <;> rfl

variable (host) in
/-- The builder of the binding takes the setters that the C++ builder takes, and its token is the
token of the C++ builder or its error. -/
theorem toJwtAt_refines (hcrates : crates.Faithful) {native : NativeLibrary}
    (hsound : native.Sound) (apiKey apiSecret : Text) (setters : List Setter) (hnow : InInt64 now) :
    (setters.foldlM Setter.rust (TokenBuilder.new native apiKey apiSecret) =
        .error (ascii "Token lifetime must be positive seconds") ∧
      setters.foldlM Setter.cpp (AccessToken.new apiKey.bytes apiSecret.bytes) =
        raise .invalidArgument (ascii "token lifetime must be positive")) ∨
    ∃ builder token,
      setters.foldlM Setter.rust (TokenBuilder.new native apiKey apiSecret) = .ok builder ∧
      setters.foldlM Setter.cpp (AccessToken.new apiKey.bytes apiSecret.bytes) = .ok token ∧
      (Fits crates (.object (builder.inputMembers now)) →
        builder.toJwtAt crates host now = (signedAt native.native.surroundings token now).mapError
            (fun e => .inr (ofThrown e)) ∧
          (builder.invoke crates host now).2.length = 1) := by
  rcases follows_setters (follows_new native apiKey apiSecret) setters with
    ⟨builder, token, hrust, hcpp, hfollows, rfl⟩ | hrefused
  · refine Or.inr ⟨builder, token, hrust, hcpp, fun hfits => ?_⟩
    obtain ⟨text, htext, hexecution⟩ := asks_token hcrates hsound hfollows hnow hfits
    have hpresentable : Presentable
        ((signedAt builder.native.native.surroundings token now).map Value.string) := by
      refine presentable_map ?_ CApi.encodable_string
      exact (ends_signedAt builder.native.native.surroundings token now).map fun _ h => h
    obtain ⟨surfaced, pointer, hsurfaces, hinvoke⟩ :=
      NativeLibrary.invoke_done host hcrates hsound.prints hsound.integers htext hexecution
        hpresentable
    rw [TokenBuilder.toJwtAt, TokenBuilder.invoke, hinvoke]
    exact ⟨ending_of_meets _ (meets_of_surfaces hsurfaces), rfl⟩
  · exact Or.inl hrefused

end Refinement

section Sample

def sampleHost : Host ℕ ℕ := sampleApi.host bumpAllocator

/-- A lifetime is set twice. -/
def sampleSetters : List Setter :=
  [.identity ⟨ascii "ada", by decide⟩, .validFor 90 (by decide),
    .attributes ⟨SortedMap.ofList [(ascii "a", ascii "1")], by decide⟩,
    .sipGrant ⟨true, false⟩, .validFor 7200 (by decide)]

def sampleKey : Text := ⟨ascii "devkey", by decide⟩

def sampleSecret : Text := ⟨ascii "secret", by decide⟩

def sampleBuilder : TokenBuilder where
  native := sampleLibrary
  fields := ((((((TokenBuilder.new sampleLibrary sampleKey sampleSecret).fields.insert
    (ascii "identity") (.string (ascii "ada"))).insert (ascii "valid_for")
      (.string (Decimal.signed 90))).insert (ascii "attributes")
        (.object [(ascii "a", .string (ascii "1"))])).insert (ascii "sip")
          (.object [(ascii "admin", .bool true), (ascii "call", .bool false)])).insert
            (ascii "valid_for") (.string (Decimal.signed 7200)))

def sampleToken : AccessToken :=
  { AccessToken.new (ascii "devkey") (ascii "secret") with
    identity := ascii "ada"
    attributes := SortedMap.ofList [(ascii "a", ascii "1")]
    validFor := 7200
    sipGrant := some ⟨true, false⟩
    validFor_pos := by decide
    validFor_range := by decide }

theorem toJwtAt_refines_sample :
    sampleBuilder.toJwtAt referenceCrates sampleHost 1700000000 =
        (signedAt CApi.sampleNative.surroundings sampleToken 1700000000).mapError
          (fun e => .inr (ofThrown e)) ∧
      (sampleBuilder.invoke referenceCrates sampleHost 1700000000).2.length = 1 := by
  have hbuilder : sampleSetters.foldlM Setter.rust
      (TokenBuilder.new sampleLibrary sampleKey sampleSecret) = .ok sampleBuilder := rfl
  have htoken : sampleSetters.foldlM Setter.cpp
      (AccessToken.new sampleKey.bytes sampleSecret.bytes) = .ok sampleToken := rfl
  have hnow : InInt64 1700000000 := by decide
  rcases toJwtAt_refines sampleHost faithful_referenceCrates sound_sampleLibrary sampleKey
    sampleSecret sampleSetters hnow with
    ⟨hrefused, -⟩ | ⟨builder, token, hrust, hcpp, hjwt⟩
  · rw [hbuilder] at hrefused
    cases hrefused
  · obtain rfl := Except.ok.inj (hbuilder.symm.trans hrust)
    obtain rfl := Except.ok.inj (htoken.symm.trans hcpp)
    apply hjwt
    intro text h
    obtain rfl := Except.ok.inj h
    decide +kernel

end Sample

end LivekitServer.RustBinding

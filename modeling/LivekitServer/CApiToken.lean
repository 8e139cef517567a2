import LivekitServer.CApiFields

/-!
# The `token` operation

`sign` reads the options field by field, the grants as `grants.inc` does, and hands them to the
builder. `CarriesToken` says that an options object carries a builder, and `sign_refines` that the
operation then returns the token of that builder.
-/

namespace LivekitServer.CApi

section Sign

/-- `if (Has(fields, name)) member = Boolean(fields, name);` -/
def optionalBoolean (fields : Fields) (name : String) : Outcome (Option Bool) :=
  if has fields name then (boolean fields name).map some else .ok none

def videoGrant (fields : Fields) : Outcome VideoGrant := do
  let roomCreate ← boolean fields "room_create"
  let roomList ← boolean fields "room_list"
  let roomRecord ← boolean fields "room_record"
  let roomAdmin ← boolean fields "room_admin"
  let roomJoin ← boolean fields "room_join"
  let room ← string fields "room"
  let destinationRoom ← string fields "destination_room"
  let ingressAdmin ← boolean fields "ingress_admin"
  let canPublish ← optionalBoolean fields "can_publish"
  let canSubscribe ← optionalBoolean fields "can_subscribe"
  let canPublishData ← optionalBoolean fields "can_publish_data"
  let canUpdateOwnMetadata ← optionalBoolean fields "can_update_own_metadata"
  let canPublishSources ← stringList fields "can_publish_sources"
  let hidden ← boolean fields "hidden"
  let recorder ← boolean fields "recorder"
  let agent ← boolean fields "agent"
  return ⟨roomCreate, roomList, roomRecord, roomAdmin, roomJoin, room, destinationRoom,
    ingressAdmin, canPublish, canSubscribe, canPublishData, canUpdateOwnMetadata,
    canPublishSources, hidden, recorder, agent⟩

def sipGrant (fields : Fields) : Outcome SipGrant := do
  let admin ← boolean fields "admin"
  let call ← boolean fields "call"
  return ⟨admin, call⟩

def agentGrant (fields : Fields) : Outcome AgentGrant := do
  let admin ← boolean fields "admin"
  let simulationAdmin ← boolean fields "simulation_admin"
  return ⟨admin, simulationAdmin⟩

/-- A block of `grants.inc`: a grant that is there is read and set. -/
def grantBlock {γ : Type} (options : Fields) (name : String) (read : Fields → Outcome γ)
    (set : AccessToken → γ → AccessToken) (token : AccessToken) : Outcome AccessToken :=
  if has options name then do
    let fields ← object options name
    let grant ← read fields
    return set token grant
  else .ok token

def grants (options : Fields) (token : AccessToken) : Outcome AccessToken := do
  let token ← grantBlock options "video" videoGrant AccessToken.setVideoGrant token
  let token ← grantBlock options "sip" sipGrant AccessToken.setSipGrant token
  grantBlock options "agent" agentGrant AccessToken.setAgentGrant token

variable (clock : SystemClock)

/-- The range check of `Sign`. -/
def OutOfRange (now ttl : ℤ) : Prop :=
  now < 0 ∨ ttl ≤ 0 ∨ ttl > clock.maxSeconds ∨ now > wrapInt64 (clock.maxSeconds - ttl)

instance (now ttl : ℤ) : Decidable (OutOfRange clock now ttl) :=
  inferInstanceAs (Decidable (_ ∨ _))

theorem inInt64_of_inRange {now ttl : ℤ} (h : ¬ OutOfRange clock now ttl) : InInt64 ttl := by
  unfold OutOfRange at h
  exact clock.inInt64_of_le_maxSeconds (by omega) (by omega)

/-- What `Sign` does before it signs: the builder and the time. -/
def tokenOptions (options : Fields) : Outcome (AccessToken × TimePoint) := do
  let apiKey ← string options "api_key"
  let apiSecret ← string options "api_secret"
  let identity ← string options "identity"
  let name ← string options "name"
  let metadata ← string options "metadata"
  let attributes ← object options "attributes"
  let attributes ← stringMap attributes
  let token := (((AccessToken.new apiKey apiSecret).setIdentity identity).setName name).setMetadata
    metadata |>.setAttributes attributes
  let ttl ← integer options "valid_for"
  let now ← integer options "now"
  if h : OutOfRange clock now ttl then
    raise .invalidArgument (ascii "token timestamp or lifetime exceeds native clock range")
  else
    let token ← token.setValidFor ttl (inInt64_of_inRange clock h)
    let token ← grants options token
    return (token, clock.timePoint now)

def sign (backend : Crypto.Backend) (loc : Locale) (options : Fields) : Outcome Bytes := do
  let (token, now) ← tokenOptions clock options
  token.toJwt clock backend loc now

end Sign

section Carrying

/-- The options carry an optional boolean: the field is there when it is set. -/
def CarriesOptional (obj : Fields) (name : String) (b : Option Bool) : Prop :=
  has obj name = b.isSome ∧ ∀ value ∈ b, Carries obj name false Value.bool? value

structure CarriesVideo (fields : Fields) (grant : VideoGrant) : Prop where
  roomCreate : Carries fields "room_create" false Value.bool? grant.roomCreate
  roomList : Carries fields "room_list" false Value.bool? grant.roomList
  roomRecord : Carries fields "room_record" false Value.bool? grant.roomRecord
  roomAdmin : Carries fields "room_admin" false Value.bool? grant.roomAdmin
  roomJoin : Carries fields "room_join" false Value.bool? grant.roomJoin
  room : Carries fields "room" [] Value.string? grant.room
  destinationRoom : Carries fields "destination_room" [] Value.string? grant.destinationRoom
  ingressAdmin : Carries fields "ingress_admin" false Value.bool? grant.ingressAdmin
  canPublish : CarriesOptional fields "can_publish" grant.canPublish
  canSubscribe : CarriesOptional fields "can_subscribe" grant.canSubscribe
  canPublishData : CarriesOptional fields "can_publish_data" grant.canPublishData
  canUpdateOwnMetadata : CarriesOptional fields "can_update_own_metadata"
    grant.canUpdateOwnMetadata
  canPublishSources : Carries fields "can_publish_sources" [] Value.list?
    (grant.canPublishSources.map .string)
  hidden : Carries fields "hidden" false Value.bool? grant.hidden
  recorder : Carries fields "recorder" false Value.bool? grant.recorder
  agent : Carries fields "agent" false Value.bool? grant.agent

structure CarriesSip (fields : Fields) (grant : SipGrant) : Prop where
  admin : Carries fields "admin" false Value.bool? grant.admin
  call : Carries fields "call" false Value.bool? grant.call

structure CarriesAgent (fields : Fields) (grant : AgentGrant) : Prop where
  admin : Carries fields "admin" false Value.bool? grant.admin
  simulationAdmin : Carries fields "simulation_admin" false Value.bool? grant.simulationAdmin

/-- A grant that is set stands in an object of its own. -/
def CarriesGrant {γ : Type} (options : Fields) (name : String) (carries : Fields → γ → Prop) :
    Option γ → Prop
  | none => has options name = false
  | some grant => ∃ fields, options.lookup (ascii name) = some (.struct fields) ∧
      carries fields grant

/-- The options carry a string map, in any order of its entries. -/
def CarriesMap (options : Fields) (name : String) (m : StringMap) : Prop :=
  ∃ entries : List (Bytes × Bytes), Carries options name [] Value.struct?
    (entries.map fun e => (e.1, .string e.2)) ∧ entries.Perm m.entries

/-- The options carry an integer as text. -/
def CarriesInteger (options : Fields) (name : String) (n : ℤ) : Prop :=
  ∃ text, Carries options name [] Value.string? text ∧ stoll text = some (n, [])

structure CarriesToken (options : Fields) (token : AccessToken) (now : ℤ) : Prop where
  apiKey : Carries options "api_key" [] Value.string? token.apiKey
  apiSecret : Carries options "api_secret" [] Value.string? token.apiSecret
  identity : Carries options "identity" [] Value.string? token.identity
  name : Carries options "name" [] Value.string? token.name
  metadata : Carries options "metadata" [] Value.string? token.metadata
  attributes : CarriesMap options "attributes" token.attributes
  validFor : CarriesInteger options "valid_for" token.validFor
  now : CarriesInteger options "now" now
  video : CarriesGrant options "video" CarriesVideo token.videoGrant
  sip : CarriesGrant options "sip" CarriesSip token.sipGrant
  agent : CarriesGrant options "agent" CarriesAgent token.agentGrant

theorem optionalBoolean_of_carries {fields : Fields} {name : String} {b : Option Bool}
    (h : CarriesOptional fields name b) : optionalBoolean fields name = .ok b := by
  obtain ⟨hhas, hvalue⟩ := h
  unfold optionalBoolean
  cases b with
  | none => rw [hhas]; rfl
  | some value =>
      rw [hhas, boolean_ok.mpr (hvalue value rfl)]
      rfl

theorem videoGrant_of_carries {fields : Fields} {grant : VideoGrant}
    (h : CarriesVideo fields grant) : videoGrant fields = .ok grant := by
  unfold videoGrant
  rw [boolean_ok.mpr h.roomCreate, boolean_ok.mpr h.roomList, boolean_ok.mpr h.roomRecord,
    boolean_ok.mpr h.roomAdmin, boolean_ok.mpr h.roomJoin, string_ok.mpr h.room,
    string_ok.mpr h.destinationRoom, boolean_ok.mpr h.ingressAdmin,
    optionalBoolean_of_carries h.canPublish, optionalBoolean_of_carries h.canSubscribe,
    optionalBoolean_of_carries h.canPublishData,
    optionalBoolean_of_carries h.canUpdateOwnMetadata, stringList_ok.mpr h.canPublishSources,
    boolean_ok.mpr h.hidden, boolean_ok.mpr h.recorder, boolean_ok.mpr h.agent]
  rfl

theorem sipGrant_of_carries {fields : Fields} {grant : SipGrant} (h : CarriesSip fields grant) :
    sipGrant fields = .ok grant := by
  unfold sipGrant
  rw [boolean_ok.mpr h.admin, boolean_ok.mpr h.call]
  rfl

theorem agentGrant_of_carries {fields : Fields} {grant : AgentGrant}
    (h : CarriesAgent fields grant) : agentGrant fields = .ok grant := by
  unfold agentGrant
  rw [boolean_ok.mpr h.admin, boolean_ok.mpr h.simulationAdmin]
  rfl

theorem grantBlock_of_carries {γ : Type} {options : Fields} {name : String}
    {carries : Fields → γ → Prop} {read : Fields → Outcome γ}
    (hread : ∀ fields grant, carries fields grant → read fields = .ok grant)
    (set : AccessToken → γ → AccessToken) (token : AccessToken) {grant : Option γ}
    (h : CarriesGrant options name carries grant) :
    grantBlock options name read set token = .ok (grant.elim token (set token)) := by
  unfold grantBlock
  cases grant with
  | none =>
      rw [show has options name = false from h]
      rfl
  | some grant =>
      obtain ⟨fields, hfields, hcarries⟩ := h
      have hhas : has options name = true := by simp only [has, hfields, Option.isSome_some]
      have hobject : object options name = .ok fields := by
        apply object_ok.mpr
        right
        simp only [field, hfields, Option.getD_some, Value.struct?]
      rw [hhas, if_pos rfl, hobject]
      change (read fields >>= _) = _
      rw [hread fields grant hcarries]
      rfl

theorem grants_of_carries {options : Fields} {video : Option VideoGrant} {sip : Option SipGrant}
    {agent : Option AgentGrant} {token : AccessToken}
    (hvideo : CarriesGrant options "video" CarriesVideo video)
    (hsip : CarriesGrant options "sip" CarriesSip sip)
    (hagent : CarriesGrant options "agent" CarriesAgent agent)
    (hnone : token.videoGrant = none ∧ token.sipGrant = none ∧ token.agentGrant = none) :
    grants options token =
      .ok { token with videoGrant := video, sipGrant := sip, agentGrant := agent } := by
  obtain ⟨hv, hs, ha⟩ := hnone
  unfold grants
  rw [grantBlock_of_carries (fun _ _ h => videoGrant_of_carries h) _ _ hvideo]
  change (grantBlock _ _ _ _ _ >>= _) = _
  rw [grantBlock_of_carries (fun _ _ h => sipGrant_of_carries h) _ _ hsip]
  change grantBlock _ _ _ _ _ = _
  rw [grantBlock_of_carries (fun _ _ h => agentGrant_of_carries h) _ _ hagent]
  cases token
  simp only at hv hs ha
  subst hv hs ha
  cases video <;> cases sip <;> cases agent <;> rfl

end Carrying

section Admission

variable (clock : SystemClock)

/-- The range check of `Sign`, with its sum over the integers. -/
theorem range_iff {now ttl : ℤ} :
    ¬ OutOfRange clock now ttl ↔ 0 ≤ now ∧ 0 < ttl ∧ now + ttl ≤ clock.maxSeconds := by
  have hmax := clock.maxSeconds_lt
  have hwrap : 0 < ttl → ttl ≤ clock.maxSeconds →
      wrapInt64 (clock.maxSeconds - ttl) = clock.maxSeconds - ttl := by
    intro hpos hle
    apply wrapInt64_eq
    unfold InInt64
    omega
  unfold OutOfRange
  constructor
  · intro h
    simp only [not_or, not_lt, not_le] at h
    obtain ⟨hnow, hpos, hle, hsum⟩ := h
    rw [hwrap hpos hle] at hsum
    exact ⟨hnow, hpos, by omega⟩
  · rintro ⟨hnow, hpos, hsum⟩ h
    have hw := hwrap hpos (by omega)
    omega

/-- The options that carry a builder are read as that builder. -/
theorem tokenOptions_of_carries {options : Fields} {token : AccessToken} {now : ℤ}
    (h : CarriesToken options token now) (hnow : 0 ≤ now)
    (hsum : now + token.validFor ≤ clock.maxSeconds) :
    tokenOptions clock options = .ok (token, clock.timePoint now) := by
  have hadmitted := (range_iff clock).mpr ⟨hnow, token.validFor_pos, hsum⟩
  obtain ⟨entries, hentries, hperm⟩ := h.attributes
  unfold tokenOptions
  rw [string_ok.mpr h.apiKey, string_ok.mpr h.apiSecret, string_ok.mpr h.identity,
    string_ok.mpr h.name, string_ok.mpr h.metadata, object_ok.mpr hentries,
    integer_ok.mpr h.validFor, integer_ok.mpr h.now]
  change (stringMap _ >>= _) = _
  rw [stringMap_ok rfl hperm]
  change dite _ _ _ = _
  rw [dif_neg hadmitted]
  have hset : ∀ (t : AccessToken) (hr : InInt64 token.validFor),
      t.setValidFor token.validFor hr =
        .ok { t with
          validFor := token.validFor
          validFor_pos := token.validFor_pos
          validFor_range := token.validFor_range } := fun t hr =>
    dif_neg (not_le.mpr token.validFor_pos)
  rw [hset]
  change (grants _ _ >>= _) = _
  rw [grants_of_carries h.video h.sip h.agent ⟨rfl, rfl, rfl⟩]
  rfl

end Admission

section WrongKinds

/-- The kinds of the fields that `Sign` reads. -/
inductive FieldKind
  | string
  | boolean
  | strings

/-- A field of another kind, or a list with an item that is no string. -/
def FieldKind.Wrong (obj : Fields) (name : String) : FieldKind → Prop
  | .string => CApi.Wrong obj name Value.string?
  | .boolean => CApi.Wrong obj name Value.bool?
  | .strings => CApi.Wrong obj name Value.list? ∨
      ∃ values, field obj name = .list values ∧ ∃ v ∈ values, v.string? = none

def tokenFields : List (String × FieldKind) :=
  [("api_key", .string), ("api_secret", .string), ("identity", .string), ("name", .string),
    ("metadata", .string), ("valid_for", .string), ("now", .string)]

def videoFields : List (String × FieldKind) :=
  [("room_create", .boolean), ("room_list", .boolean), ("room_record", .boolean),
    ("room_admin", .boolean), ("room_join", .boolean), ("room", .string),
    ("destination_room", .string), ("ingress_admin", .boolean), ("can_publish", .boolean),
    ("can_subscribe", .boolean), ("can_publish_data", .boolean),
    ("can_update_own_metadata", .boolean), ("can_publish_sources", .strings),
    ("hidden", .boolean), ("recorder", .boolean), ("agent", .boolean)]

def sipFields : List (String × FieldKind) := [("admin", .boolean), ("call", .boolean)]

def agentFields : List (String × FieldKind) :=
  [("admin", .boolean), ("simulation_admin", .boolean)]

def grantFields : List (String × List (String × FieldKind)) :=
  [("video", videoFields), ("sip", sipFields), ("agent", agentFields)]

/-- A field that `Sign` reads has another kind. -/
def WrongToken (options : Fields) : Prop :=
  (∃ f ∈ tokenFields, f.2.Wrong options f.1) ∨
  (Wrong options "attributes" Value.struct? ∨
    ∃ entries, field options "attributes" = .struct entries ∧ ∃ e ∈ entries, e.2.string? = none) ∨
  ∃ g ∈ grantFields, Wrong options g.1 Value.struct? ∨
    ∃ fields, field options g.1 = .struct fields ∧ ∃ f ∈ g.2, f.2.Wrong fields f.1

variable {obj : Fields} {name : String}

theorem string_right {s : Bytes} (h : string obj name = .ok s) :
    ¬ FieldKind.string.Wrong obj name := (string_ok.mp h).not_wrong

theorem boolean_right {b : Bool} (h : boolean obj name = .ok b) :
    ¬ FieldKind.boolean.Wrong obj name := (boolean_ok.mp h).not_wrong

theorem integer_right {n : ℤ} (h : integer obj name = .ok n) :
    ¬ FieldKind.string.Wrong obj name := by
  obtain ⟨text, htext, -⟩ := integer_ok.mp h
  exact htext.not_wrong

theorem stringList_right {items : List Bytes} (h : stringList obj name = .ok items) :
    ¬ FieldKind.strings.Wrong obj name := by
  have hcarries := stringList_ok.mp h
  rintro (hwrong | ⟨values, hvalues, v, hv, hnone⟩)
  · exact hcarries.not_wrong hwrong
  · rcases hcarries with ⟨hunset, -⟩ | hlist
    · rw [hvalues] at hunset
      cases hunset
    · rw [hvalues] at hlist
      obtain rfl : values = items.map .string := Option.some.inj hlist
      obtain ⟨s, -, rfl⟩ := List.mem_map.mp hv
      cases hnone

theorem field_of_not_has (h : has obj name = false) : field obj name = .notSet := by
  have hnone : obj.lookup (ascii name) = none := by simpa [has] using h
  rw [field, hnone]
  rfl

theorem optionalBoolean_right {b : Option Bool} (h : optionalBoolean obj name = .ok b) :
    ¬ FieldKind.boolean.Wrong obj name := by
  unfold optionalBoolean at h
  by_cases hhas : has obj name = true
  · rw [if_pos hhas] at h
    cases hvalue : boolean obj name with
    | error e =>
        rw [hvalue] at h
        cases h
    | ok value => exact boolean_right hvalue
  · intro hwrong
    exact hwrong.1 (field_of_not_has (by simpa using hhas))

theorem settled_optionalBoolean : Settled (optionalBoolean obj name) := by
  unfold optionalBoolean
  split_ifs
  · exact settled_map (settled_readField false _)
  · exact settled_ok none

theorem videoGrant_right {fields : Fields} {grant : VideoGrant} (h : videoGrant fields = .ok grant) :
    ∀ f ∈ videoFields, ¬ f.2.Wrong fields f.1 := by
  unfold videoGrant at h
  simp only [bind_ok] at h
  obtain ⟨_, h1, _, h2, _, h3, _, h4, _, h5, _, h6, _, h7, _, h8, _, h9, _, h10, _, h11, _, h12,
    _, h13, _, h14, _, h15, _, h16, -⟩ := h
  simp only [videoFields, List.forall_mem_cons]
  exact ⟨boolean_right h1, boolean_right h2, boolean_right h3, boolean_right h4, boolean_right h5,
    string_right h6, string_right h7, boolean_right h8, optionalBoolean_right h9,
    optionalBoolean_right h10, optionalBoolean_right h11, optionalBoolean_right h12,
    stringList_right h13, boolean_right h14, boolean_right h15, boolean_right h16,
    fun f hf => absurd hf List.not_mem_nil⟩

theorem settled_boolean : Settled (boolean obj name) := settled_readField false _

theorem settled_string : Settled (string obj name) := settled_readField [] _

theorem settled_videoGrant (fields : Fields) : Settled (videoGrant fields) := by
  unfold videoGrant
  repeat refine settled_bind settled_boolean fun _ _ => ?_
  repeat refine settled_bind settled_string fun _ _ => ?_
  refine settled_bind settled_boolean fun _ _ => ?_
  repeat refine settled_bind settled_optionalBoolean fun _ _ => ?_
  refine settled_bind settled_stringList fun _ _ => ?_
  repeat refine settled_bind settled_boolean fun _ _ => ?_
  exact settled_ok _

theorem sipGrant_right {fields : Fields} {grant : SipGrant} (h : sipGrant fields = .ok grant) :
    ∀ f ∈ sipFields, ¬ f.2.Wrong fields f.1 := by
  unfold sipGrant at h
  simp only [bind_ok] at h
  obtain ⟨_, h1, _, h2, -⟩ := h
  simp only [sipFields, List.forall_mem_cons]
  exact ⟨boolean_right h1, boolean_right h2, fun f hf => absurd hf List.not_mem_nil⟩

theorem settled_sipGrant (fields : Fields) : Settled (sipGrant fields) :=
  settled_bind settled_boolean fun _ _ => settled_bind settled_boolean fun _ _ => settled_ok _

theorem agentGrant_right {fields : Fields} {grant : AgentGrant}
    (h : agentGrant fields = .ok grant) : ∀ f ∈ agentFields, ¬ f.2.Wrong fields f.1 := by
  unfold agentGrant at h
  simp only [bind_ok] at h
  obtain ⟨_, h1, _, h2, -⟩ := h
  simp only [agentFields, List.forall_mem_cons]
  exact ⟨boolean_right h1, boolean_right h2, fun f hf => absurd hf List.not_mem_nil⟩

theorem settled_agentGrant (fields : Fields) : Settled (agentGrant fields) :=
  settled_bind settled_boolean fun _ _ => settled_bind settled_boolean fun _ _ => settled_ok _

section Blocks

variable {γ : Type} {options : Fields} {read : Fields → Outcome γ}
  {set : AccessToken → γ → AccessToken} {token token' : AccessToken}

theorem settled_grantBlock (hread : ∀ fields, Settled (read fields)) :
    Settled (grantBlock options name read set token) := by
  unfold grantBlock
  split_ifs
  · exact settled_bind (settled_readField [] _) fun fields _ =>
      settled_bind (hread fields) fun grant _ => settled_ok (set token grant)
  · exact settled_ok token

theorem grantBlock_right {kinds : List (String × FieldKind)}
    (hread : ∀ fields grant, read fields = .ok grant → ∀ f ∈ kinds, ¬ f.2.Wrong fields f.1)
    (h : grantBlock options name read set token = .ok token') :
    ¬ (Wrong options name Value.struct? ∨
      ∃ fields, field options name = .struct fields ∧ ∃ f ∈ kinds, f.2.Wrong fields f.1) := by
  unfold grantBlock at h
  by_cases hhas : has options name = true
  · rw [if_pos hhas] at h
    simp only [bind_ok, object_ok] at h
    obtain ⟨fields, hcarries, grant, hgrant, -⟩ := h
    rintro (hwrong | ⟨fields', hfields, f, hf, hwrong⟩)
    · exact hcarries.not_wrong hwrong
    · rcases hcarries with ⟨hunset, -⟩ | hstruct
      · rw [hfields] at hunset
        cases hunset
      · rw [hfields] at hstruct
        obtain rfl : fields' = fields := Option.some.inj hstruct
        exact hread fields' grant hgrant f hf hwrong
  · have hunset := field_of_not_has (by simpa using hhas : has options name = false)
    rintro (hwrong | ⟨fields, hfields, -⟩)
    · exact hwrong.1 hunset
    · rw [hunset] at hfields
      cases hfields

end Blocks

theorem settled_grants (options : Fields) (token : AccessToken) :
    Settled (grants options token) :=
  settled_bind (settled_grantBlock settled_videoGrant) fun _ _ =>
    settled_bind (settled_grantBlock settled_sipGrant) fun _ _ =>
      settled_grantBlock settled_agentGrant

theorem grants_right {options : Fields} {token token' : AccessToken}
    (h : grants options token = .ok token') :
    ¬ ∃ g ∈ grantFields, Wrong options g.1 Value.struct? ∨
      ∃ fields, field options g.1 = .struct fields ∧ ∃ f ∈ g.2, f.2.Wrong fields f.1 := by
  unfold grants at h
  simp only [bind_ok] at h
  obtain ⟨_, hvideo, _, hsip, hagent⟩ := h
  rintro ⟨g, hg, hwrong⟩
  simp only [grantFields, List.mem_cons, List.not_mem_nil, or_false] at hg
  rcases hg with rfl | rfl | rfl
  · exact grantBlock_right (fun _ _ h => videoGrant_right h) hvideo hwrong
  · exact grantBlock_right (fun _ _ h => sipGrant_right h) hsip hwrong
  · exact grantBlock_right (fun _ _ h => agentGrant_right h) hagent hwrong

variable (clock : SystemClock)

theorem settled_setValidFor (token : AccessToken) {ttl : ℤ} (hrange : InInt64 ttl) :
    Settled (token.setValidFor ttl hrange) := by
  unfold AccessToken.setValidFor
  split_ifs
  · exact Or.inr ⟨_, rfl⟩
  · exact settled_ok _

theorem settled_tokenOptions (options : Fields) : Settled (tokenOptions clock options) := by
  unfold tokenOptions
  repeat refine settled_bind settled_string fun _ _ => ?_
  refine settled_bind (settled_readField [] _) fun _ _ => ?_
  refine settled_bind settled_stringMap fun _ _ => ?_
  repeat refine settled_bind settled_integer fun _ _ => ?_
  split_ifs
  · exact Or.inr ⟨_, rfl⟩
  · exact settled_bind (settled_setValidFor _ _) fun _ _ =>
      settled_bind (settled_grants options _) fun _ _ => settled_ok _

theorem tokenOptions_right {options : Fields} {result : AccessToken × TimePoint}
    (h : tokenOptions clock options = .ok result) : ¬ WrongToken options := by
  unfold tokenOptions at h
  simp only [bind_ok] at h
  obtain ⟨_, hkey, _, hsecret, _, hidentity, _, hname, _, hmetadata, entries, hentries, m, hm, _,
    hvalidFor, _, hnow, h⟩ := h
  split at h
  · cases h
  obtain ⟨_, _, h⟩ := bind_ok.mp h
  obtain ⟨_, hgrants, _⟩ := bind_ok.mp h
  have hfields : ∀ f ∈ tokenFields, ¬ f.2.Wrong options f.1 := by
    simp only [tokenFields, List.forall_mem_cons]
    exact ⟨string_right hkey, string_right hsecret, string_right hidentity, string_right hname,
      string_right hmetadata, integer_right hvalidFor, integer_right hnow,
      fun f hf => absurd hf List.not_mem_nil⟩
  have hcarries := object_ok.mp hentries
  rintro (⟨f, hf, hwrong⟩ | (hwrong | ⟨entries', hentries', e, he, hnone⟩) | hwrong)
  · exact hfields f hf hwrong
  · exact hcarries.not_wrong hwrong
  · rcases hcarries with ⟨hunset, -⟩ | hstruct
    · rw [hentries'] at hunset
      cases hunset
    · rw [hentries'] at hstruct
      obtain rfl : entries' = entries := Option.some.inj hstruct
      exact stringMap_strings hm he hnone
  · exact grants_right hgrants hwrong

end WrongKinds

section Refinement

variable (clock : SystemClock) (backend : Crypto.Backend) (loc : Locale) (options : Fields)

theorem sign_of_carries {token : AccessToken} {now : ℤ} (h : CarriesToken options token now)
    (hnow : 0 ≤ now) (hsum : now + token.validFor ≤ clock.maxSeconds) :
    sign clock backend loc options = token.toJwt clock backend loc (clock.timePoint now) := by
  unfold sign
  rw [tokenOptions_of_carries clock h hnow hsum]
  rfl

/-- The options that carry a builder, within the admitted range, are signed as the builder signs,
and a field of another kind is an invalid argument. -/
theorem sign_refines :
    (∀ token now, CarriesToken options token now → 0 ≤ now →
      now + token.validFor ≤ clock.maxSeconds →
      sign clock backend loc options = token.toJwt clock backend loc (clock.timePoint now)) ∧
    (WrongToken options →
      ∃ message, sign clock backend loc options = raise .invalidArgument message) := by
  constructor
  · intro token now hcarries hnow hsum
    exact sign_of_carries clock backend loc options hcarries hnow hsum
  · intro hwrong
    rcases settled_tokenOptions clock options with ⟨result, hok⟩ | ⟨message, hraise⟩
    · exact absurd hwrong (tokenOptions_right clock hok)
    · refine ⟨message, ?_⟩
      unfold sign
      rw [hraise]
      rfl

theorem carriesInteger_signed {name : String} {n : ℤ} (hrange : InInt64 n)
    (h : options.lookup (ascii name) = some (.string (Decimal.signed n))) :
    CarriesInteger options name n := by
  refine ⟨Decimal.signed n, Or.inr ?_, stoll_signed hrange⟩
  rw [field, h]
  rfl

/-- Options with a video grant whose `can_publish` is present and false. -/
def sampleOptions : Fields :=
  [(ascii "api_key", .string (ascii "devkey")), (ascii "api_secret", .string (ascii "secret")),
    (ascii "identity", .string (ascii "ada")), (ascii "valid_for", .string (Decimal.signed 3600)),
    (ascii "now", .string (Decimal.signed 1700000000)),
    (ascii "attributes", .struct [(ascii "b", .string (ascii "2")),
      (ascii "a", .string (ascii "1"))]),
    (ascii "video", .struct [(ascii "room_join", .bool true), (ascii "room", .string (ascii "r")),
      (ascii "can_publish", .bool false)])]

def optionsToken : AccessToken where
  apiKey := ascii "devkey"
  apiSecret := ascii "secret"
  identity := ascii "ada"
  name := []
  metadata := []
  attributes := SortedMap.ofList [(ascii "a", ascii "1"), (ascii "b", ascii "2")]
  validFor := 3600
  videoGrant := some { VideoGrant.none with
    roomJoin := true
    room := ascii "r"
    canPublish := some false }
  sipGrant := none
  agentGrant := none
  validFor_pos := by decide
  validFor_range := by decide

theorem carries_sampleOptions : CarriesToken sampleOptions optionsToken 1700000000 where
  apiKey := Or.inr rfl
  apiSecret := Or.inr rfl
  identity := Or.inr rfl
  name := Or.inl ⟨rfl, rfl⟩
  metadata := Or.inl ⟨rfl, rfl⟩
  attributes := ⟨[(ascii "b", ascii "2"), (ascii "a", ascii "1")], Or.inr rfl, by decide⟩
  validFor := carriesInteger_signed sampleOptions (by decide) rfl
  now := carriesInteger_signed sampleOptions (by decide) rfl
  video := by
    refine ⟨_, rfl, ?_⟩
    exact
      { roomCreate := Or.inl ⟨rfl, rfl⟩
        roomList := Or.inl ⟨rfl, rfl⟩
        roomRecord := Or.inl ⟨rfl, rfl⟩
        roomAdmin := Or.inl ⟨rfl, rfl⟩
        roomJoin := Or.inr rfl
        room := Or.inr rfl
        destinationRoom := Or.inl ⟨rfl, rfl⟩
        ingressAdmin := Or.inl ⟨rfl, rfl⟩
        canPublish := ⟨rfl, fun value h => by cases h; exact Or.inr rfl⟩
        canSubscribe := ⟨rfl, fun value h => by cases h⟩
        canPublishData := ⟨rfl, fun value h => by cases h⟩
        canUpdateOwnMetadata := ⟨rfl, fun value h => by cases h⟩
        canPublishSources := Or.inl ⟨rfl, rfl⟩
        hidden := Or.inl ⟨rfl, rfl⟩
        recorder := Or.inl ⟨rfl, rfl⟩
        agent := Or.inl ⟨rfl, rfl⟩ }
  sip := rfl
  agent := rfl

theorem sign_refines_sample :
    sign .nanoseconds (.constant [] (List.replicate 32 7)) .classic sampleOptions =
      optionsToken.toJwt .nanoseconds (.constant [] (List.replicate 32 7)) .classic
        (SystemClock.nanoseconds.timePoint 1700000000) :=
  (sign_refines .nanoseconds (.constant [] (List.replicate 32 7)) .classic sampleOptions).1
    optionsToken 1700000000 carries_sampleOptions (by decide) (by decide)

end Refinement

end LivekitServer.CApi

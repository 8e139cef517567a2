import LivekitServer.ClientCredentials
import LivekitServer.ServiceClients
import LivekitServer.TokenRoundTrip

/-!
# Scopes of minted tokens

What the token of an RPC lets its bearer do in rooms. `Scoped` is read off the claims of the
token, and `ScopedGrant` is the same of the grant that a client puts together.
-/

namespace LivekitServer

open AccessToken AssocList

/-- The field of a request that names its room. -/
def Method.roomField (method : Method) : String :=
  if method.service = "SIP" ∨ method.service = "Connector" then "room_name" else "room"

def Method.movesParticipant (method : Method) : Prop :=
  method.service = "RoomService" ∧
    (method.name = "ForwardParticipant" ∨ method.name = "MoveParticipant")

/-- A member of one of the objects in the claims. -/
def claim (claims : Members) (object name : String) : Option Json :=
  match claims.lookup (ascii object) with
  | some (.object members) => members.lookup (ascii name)
  | _ => none

structure Scoped (method : Method) (field : String → Bytes) (claims : Members) : Prop where
  roomAdmin : claim claims "video" "roomAdmin" ≠ none →
    field method.roomField ≠ [] ∧
      claim claims "video" "room" = some (.string (field method.roomField))
  destination : ∀ value, claim claims "video" "destinationRoom" = some value →
    method.movesParticipant ∧ value = .string (field "destination_room")
  never : ∀ name ∈ ["roomJoin", "hidden", "recorder", "agent"], claim claims "video" name = none
  noAgent : claims.lookup (ascii "agent") = none

structure ScopedGrant (method : Method) (field : String → Bytes) (grant : RequestGrant) : Prop where
  roomAdmin : ∀ video ∈ grant.video, video.roomAdmin = true →
    field method.roomField ≠ [] ∧ video.room = field method.roomField
  destination : ∀ video ∈ grant.video, video.destinationRoom ≠ [] →
    method.movesParticipant ∧ video.destinationRoom = field "destination_room"
  never : ∀ video ∈ grant.video, video.roomJoin = false ∧ video.hidden = false ∧
    video.recorder = false ∧ video.agent = false
  noAgent : grant.agent = none

section Claims

variable (apiKey apiSecret : Bytes) (grant : RequestGrant) (issuedAt expiresAt : ℤ)

/-- The claims of the token for a grant. -/
def mintedClaims : Members :=
  (ClientContext.tokenOf apiKey apiSecret grant).claims issuedAt expiresAt

theorem lookup_mintedClaims (name : String) {item : Option Json}
    (h : ((ClientContext.tokenOf apiKey apiSecret grant).claimsTable issuedAt expiresAt).lookup
      (ascii name) = some item) :
    (mintedClaims apiKey apiSecret grant issuedAt expiresAt).lookup (ascii name) = item := by
  rw [mintedClaims, claims_eq, lookup_present (nodup_claimsTable _ issuedAt expiresAt), h]
  rfl

theorem video_claim (name : String) {item : VideoGrant → Option Json}
    (h : ∀ video, (videoTable video).lookup (ascii name) = some (item video)) :
    claim (mintedClaims apiKey apiSecret grant issuedAt expiresAt) "video" name =
      grant.video.bind item := by
  have hvideo := lookup_mintedClaims apiKey apiSecret grant issuedAt expiresAt "video" rfl
  rw [claim, hvideo]
  change (match grant.video.map fun g => Json.object (videoMembers g) with
    | some (.object members) => members.lookup (ascii name)
    | _ => none) = _
  cases grant.video with
  | none => rfl
  | some video =>
      change (videoMembers video).lookup (ascii name) = item video
      rw [videoMembers_eq, lookup_present (nodup_videoTable video), h]
      rfl

theorem bool_claim (name : String) {value : VideoGrant → Bool}
    (h : ∀ video, (videoTable video).lookup (ascii name) = some (boolField (value video))) :
    claim (mintedClaims apiKey apiSecret grant issuedAt expiresAt) "video" name ≠ none ↔
      ∃ video ∈ grant.video, value video = true := by
  rw [video_claim apiKey apiSecret grant issuedAt expiresAt name h]
  cases grant.video with
  | none => simp
  | some video => simp [boolField]

theorem string_claim (name : String) {value : VideoGrant → Bytes}
    (h : ∀ video, (videoTable video).lookup (ascii name) = some (stringField (value video)))
    (item : Json) :
    claim (mintedClaims apiKey apiSecret grant issuedAt expiresAt) "video" name = some item ↔
      ∃ video ∈ grant.video, value video ≠ [] ∧ item = .string (value video) := by
  rw [video_claim apiKey apiSecret grant issuedAt expiresAt name h]
  cases grant.video with
  | none => simp
  | some video => simp [stringField, eq_comm]

/-- The claims of a token are scoped when its grant is. -/
theorem scoped_mintedClaims {method : Method} {field : String → Bytes} :
    Scoped method field (mintedClaims apiKey apiSecret grant issuedAt expiresAt) ↔
      ScopedGrant method field grant := by
  have hbool (name : String) (value : VideoGrant → Bool)
      (h : ∀ video, (videoTable video).lookup (ascii name) = some (boolField (value video))) :
      claim (mintedClaims apiKey apiSecret grant issuedAt expiresAt) "video" name = none ↔
        ∀ video ∈ grant.video, value video = false := by
    rw [← not_iff_not, ← ne_eq, bool_claim apiKey apiSecret grant issuedAt expiresAt name h]
    simp
  have hadmin := bool_claim apiKey apiSecret grant issuedAt expiresAt "roomAdmin" fun _ => rfl
  have hroom := string_claim apiKey apiSecret grant issuedAt expiresAt "room" fun _ => rfl
  have hdestination :=
    string_claim apiKey apiSecret grant issuedAt expiresAt "destinationRoom" fun _ => rfl
  have hagent := lookup_mintedClaims apiKey apiSecret grant issuedAt expiresAt "agent" rfl
  constructor
  · intro h
    refine ⟨fun video hvideo hset => ?_, fun video hvideo hset => ?_, fun video hvideo => ?_, ?_⟩
    · obtain ⟨hne, hclaim⟩ := h.roomAdmin (hadmin.mpr ⟨video, hvideo, hset⟩)
      obtain ⟨video', hvideo', -, heq⟩ := (hroom _).mp hclaim
      obtain rfl := Option.some.inj (hvideo.symm.trans hvideo')
      exact ⟨hne, (Json.string.inj heq).symm⟩
    · obtain ⟨hmoves, heq⟩ := h.destination _ ((hdestination _).mpr ⟨video, hvideo, hset, rfl⟩)
      exact ⟨hmoves, Json.string.inj heq⟩
    · exact ⟨(hbool "roomJoin" _ fun _ => rfl).mp (h.never _ (by simp)) video hvideo,
        (hbool "hidden" _ fun _ => rfl).mp (h.never _ (by simp)) video hvideo,
        (hbool "recorder" _ fun _ => rfl).mp (h.never _ (by simp)) video hvideo,
        (hbool "agent" _ fun _ => rfl).mp (h.never _ (by simp)) video hvideo⟩
    · have hnone := h.noAgent
      rw [hagent] at hnone
      exact Option.map_eq_none_iff.mp hnone
  · intro h
    refine ⟨fun hset => ?_, fun value hvalue => ?_, fun name hname => ?_, ?_⟩
    · obtain ⟨video, hvideo, hset⟩ := hadmin.mp hset
      obtain ⟨hne, heq⟩ := h.roomAdmin video hvideo hset
      exact ⟨hne, (hroom _).mpr ⟨video, hvideo, heq ▸ hne, congrArg Json.string heq.symm⟩⟩
    · obtain ⟨video, hvideo, hset, rfl⟩ := (hdestination _).mp hvalue
      obtain ⟨hmoves, heq⟩ := h.destination video hvideo hset
      exact ⟨hmoves, congrArg Json.string heq⟩
    · simp only [List.mem_cons, List.not_mem_nil, or_false] at hname
      rcases hname with rfl | rfl | rfl | rfl
      · exact (hbool "roomJoin" _ fun _ => rfl).mpr fun v hv => (h.never v hv).1
      · exact (hbool "hidden" _ fun _ => rfl).mpr fun v hv => (h.never v hv).2.1
      · exact (hbool "recorder" _ fun _ => rfl).mpr fun v hv => (h.never v hv).2.2.1
      · exact (hbool "agent" _ fun _ => rfl).mpr fun v hv => (h.never v hv).2.2.2
    · rw [hagent]
      exact Option.map_eq_none_iff.mpr h.noAgent

end Claims

section Methods

variable {method : Method} {field : String → Bytes}

theorem scoped_roomGrant (create list : Bool) {room destination : Bytes}
    (hroom : room = [] ∨ room = field method.roomField)
    (hdestination : destination = [] ∨
      (method.movesParticipant ∧ destination = field "destination_room")) :
    ScopedGrant method field (RoomServiceClient.roomGrant create list room destination) where
  roomAdmin := by
    rintro _ ⟨⟩ hset
    have hne : room ≠ [] := of_decide_eq_true hset
    have heq := hroom.resolve_left hne
    exact ⟨heq ▸ hne, heq⟩
  destination := by
    rintro _ ⟨⟩ hset
    exact hdestination.resolve_left hset
  never := by
    rintro _ ⟨⟩
    exact ⟨rfl, rfl, rfl, rfl⟩
  noAgent := rfl

/-- Grants that administer no room and name no destination. -/
theorem scoped_plain {grant : RequestGrant}
    (h : ∀ video ∈ grant.video, video.roomAdmin = false ∧ video.destinationRoom = [] ∧
      video.roomJoin = false ∧ video.hidden = false ∧ video.recorder = false ∧ video.agent = false)
    (hagent : grant.agent = none) : ScopedGrant method field grant where
  roomAdmin video hvideo hset := by
    rw [(h video hvideo).1] at hset
    cases hset
  destination video hvideo hset := absurd (h video hvideo).2.1 hset
  never video hvideo := (h video hvideo).2.2
  noAgent := hagent

theorem scoped_callGrant {room : Bytes} (hroom : room = [] ∨ room = field method.roomField) :
    ScopedGrant method field (SipClient.callGrant room) := by
  by_cases hempty : room = []
  · subst hempty
    exact scoped_plain (by rintro _ ⟨⟩) rfl
  · have heq := hroom.resolve_left hempty
    have hvideo : (SipClient.callGrant room).video =
        some { VideoGrant.none with roomAdmin := true, room := room } := if_neg hempty
    refine ⟨fun video h _ => ?_, fun video h hset => ?_, fun video h => ?_, rfl⟩
    · obtain rfl := Option.some.inj (hvideo.symm.trans h)
      exact ⟨heq ▸ hempty, heq⟩
    · obtain rfl := Option.some.inj (hvideo.symm.trans h)
      exact absurd rfl hset
    · obtain rfl := Option.some.inj (hvideo.symm.trans h)
      exact ⟨rfl, rfl, rfl, rfl⟩

/-- The grant of an agent dispatch administers a room whether or not the request names one. -/
theorem scoped_agentDispatch (name request response : String) :
    ScopedGrant (AgentDispatchClient.call name request response) field
      ((AgentDispatchClient.call name request response).grant field) ↔ field "room" ≠ [] := by
  constructor
  · exact fun h => (h.roomAdmin _ rfl rfl).1
  · intro hroom
    refine ⟨?_, ?_, ?_, rfl⟩
    · rintro _ ⟨⟩ -
      exact ⟨hroom, rfl⟩
    · rintro _ ⟨⟩ hset
      exact absurd rfl hset
    · rintro _ ⟨⟩
      exact ⟨rfl, rfl, rfl, rfl⟩

variable (field) in
/-- A method mints scoped tokens unless it is one of the agent dispatch and its request names no
room. -/
def ScopedRow (method : Method) : Prop :=
  ScopedGrant method field (method.grant field) ↔
    method.service ≠ "AgentDispatchService" ∨ field "room" ≠ []

theorem scopedRow_of_scoped (hservice : method.service ≠ "AgentDispatchService")
    (h : ScopedGrant method field (method.grant field)) : ScopedRow field method :=
  iff_of_true h (Or.inl hservice)

/-- A method of the room service with the room of its request, or without one. -/
theorem scopedRow_room {create list : Bool} {room destination : Bytes}
    (hservice : method.service = "RoomService")
    (hgrant : method.grant field = RoomServiceClient.roomGrant create list room destination)
    (hroom : room = [] ∨ room = field "room")
    (hdestination : destination = [] ∨
      (method.movesParticipant ∧ destination = field "destination_room")) :
    ScopedRow field method := by
  have hfield : method.roomField = "room" := by
    rw [Method.roomField, hservice]
    rfl
  apply scopedRow_of_scoped (by rw [hservice]; decide)
  rw [hgrant]
  exact scoped_roomGrant create list (hfield ▸ hroom) hdestination

theorem scopedRow_egress (name request response : String) :
    ScopedRow field (EgressClient.call name request response) := by
  refine scopedRow_of_scoped (by simp [EgressClient.call]) (scoped_plain ?_ rfl)
  rintro _ ⟨⟩
  exact ⟨rfl, rfl, rfl, rfl, rfl, rfl⟩

theorem scopedRow_ingress (name request response : String) :
    ScopedRow field (IngressClient.call name request response) := by
  refine scopedRow_of_scoped (by simp [IngressClient.call]) (scoped_plain ?_ rfl)
  rintro _ ⟨⟩
  exact ⟨rfl, rfl, rfl, rfl, rfl, rfl⟩

theorem scopedRow_sipAdmin (name request response : String) :
    ScopedRow field (SipClient.call name request response fun _ => SipClient.adminGrant) := by
  refine scopedRow_of_scoped (by simp [SipClient.call]) (scoped_plain ?_ rfl)
  rintro _ ⟨⟩

theorem scopedRow_sipCall (name request response : String) {room : (String → Bytes) → Bytes}
    (hroom : room field = [] ∨ room field = field "room_name") :
    ScopedRow field (SipClient.call name request response fun field =>
      SipClient.callGrant (room field)) :=
  scopedRow_of_scoped (by simp [SipClient.call]) (scoped_callGrant hroom)

theorem scopedRow_connector (name request response : String) (room : (String → Bytes) → Bytes) :
    ScopedRow field (ConnectorClient.call name request response room) := by
  refine scopedRow_of_scoped (by simp [ConnectorClient.call]) (scoped_plain ?_ rfl)
  rintro _ ⟨⟩
  exact ⟨rfl, rfl, rfl, rfl, rfl, rfl⟩

theorem scopedRow_agentDispatch (name request response : String) :
    ScopedRow field (AgentDispatchClient.call name request response) := by
  rw [ScopedRow, scoped_agentDispatch]
  exact (or_iff_right fun h => h rfl).symm

/-- Every method, case by case as the clients put their grants together. -/
theorem scopedRow_dispatchTable (field : String → Bytes) :
    ∀ row ∈ dispatchTable, ScopedRow field row.2 := by
  have hnone {create list : Bool} (name request response : String) :
      ScopedRow field (RoomServiceClient.call name request response fun _ =>
        RoomServiceClient.roomGrant create list [] []) :=
    scopedRow_room rfl rfl (Or.inl rfl) (Or.inl rfl)
  have hrequest (name request response : String) :
      ScopedRow field (RoomServiceClient.call name request response fun field =>
        RoomServiceClient.roomGrant false false (field "room") []) :=
    scopedRow_room rfl rfl (Or.inr rfl) (Or.inl rfl)
  have hsend : ScopedRow field RoomServiceClient.sendData :=
    scopedRow_room rfl rfl (Or.inr rfl) (Or.inl rfl)
  have hforward : ScopedRow field RoomServiceClient.forwardParticipant :=
    scopedRow_room rfl rfl (Or.inr rfl) (Or.inr ⟨⟨rfl, Or.inl rfl⟩, rfl⟩)
  have hmove : ScopedRow field RoomServiceClient.moveParticipant :=
    scopedRow_room rfl rfl (Or.inr rfl) (Or.inr ⟨⟨rfl, Or.inr rfl⟩, rfl⟩)
  have hcreate : ScopedRow field SipClient.createParticipant :=
    scopedRow_sipCall _ _ _ (Or.inl rfl)
  have htransfer : ScopedRow field SipClient.transferParticipant :=
    scopedRow_sipCall _ _ _ (Or.inr rfl)
  simp only [dispatchTable, List.forall_mem_cons, List.not_mem_nil, IsEmpty.forall_iff,
    implies_true, and_true]
  exact ⟨hnone _ _ _, hnone _ _ _, hnone _ _ _, hrequest _ _ _, hrequest _ _ _, hrequest _ _ _,
    hrequest _ _ _, hrequest _ _ _, hrequest _ _ _, hsend, hrequest _ _ _, hforward, hmove,
    hrequest _ _ _, scopedRow_egress _ _ _, scopedRow_egress _ _ _, scopedRow_egress _ _ _,
    scopedRow_egress _ _ _, scopedRow_egress _ _ _, scopedRow_egress _ _ _,
    scopedRow_egress _ _ _, scopedRow_egress _ _ _, scopedRow_egress _ _ _,
    scopedRow_egress _ _ _, scopedRow_ingress _ _ _, scopedRow_ingress _ _ _,
    scopedRow_ingress _ _ _, scopedRow_ingress _ _ _, scopedRow_sipAdmin _ _ _,
    scopedRow_sipAdmin _ _ _, scopedRow_sipAdmin _ _ _, scopedRow_sipAdmin _ _ _,
    scopedRow_sipAdmin _ _ _, scopedRow_sipAdmin _ _ _, scopedRow_sipAdmin _ _ _,
    scopedRow_sipAdmin _ _ _, scopedRow_sipAdmin _ _ _, scopedRow_sipAdmin _ _ _,
    scopedRow_sipAdmin _ _ _, scopedRow_sipAdmin _ _ _, scopedRow_sipAdmin _ _ _,
    scopedRow_sipAdmin _ _ _, hcreate, htransfer, scopedRow_agentDispatch _ _ _,
    scopedRow_agentDispatch _ _ _, scopedRow_agentDispatch _ _ _, scopedRow_connector _ _ _ _,
    scopedRow_connector _ _ _ _, scopedRow_connector _ _ _ _, scopedRow_connector _ _ _ _,
    scopedRow_connector _ _ _ _⟩

end Methods

section Tokens

open ClientContext

variable {τ : Type} (surroundings : Surroundings) (protobuf : Protobuf)

/-- Every request of a method bears the token for its grant, whose claims are scoped unless the
method is one of the agent dispatch and the request names no room. -/
theorem scopedToken_iff (context : ClientContext τ) (hsigns : context.accessToken = [])
    {operation : String} {method : Method} (hmethod : (operation, method) ∈ dispatchTable)
    (request : protobuf.Message) :
    (method.invoke surroundings protobuf context request).CallsAtMost
        (fun sent => ∃ token,
          (tokenOf context.apiKey context.apiSecret (method.grantFor protobuf request)).toJwt
            surroundings.clock surroundings.backend surroundings.loc surroundings.now = .ok token ∧
            Bears token sent.2) 1 ∧
      ∀ issuedAt expiresAt,
        Json.parse (claimsText Locale.classic
            (tokenOf context.apiKey context.apiSecret (method.grantFor protobuf request))
            issuedAt expiresAt) =
          some (.object (mintedClaims context.apiKey context.apiSecret
            (method.grantFor protobuf request) issuedAt expiresAt)) ∧
        (Scoped method (fun field => protobuf.field field request)
            (mintedClaims context.apiKey context.apiSecret (method.grantFor protobuf request)
              issuedAt expiresAt) ↔
          method.service ≠ "AgentDispatchService" ∨ protobuf.field "room" request ≠ []) := by
  refine ⟨Program.callsAtMost_bind_done fun prepared => callsAtMost_call fun sent hsent => ?_,
    fun issuedAt expiresAt => ⟨parse_claimsText _ issuedAt expiresAt, ?_⟩⟩
  · obtain ⟨token, _, _, htoken, _⟩ := callRequest_ok.mp hsent
    refine ⟨token, ?_, bears_callRequest htoken hsent⟩
    rw [tokenFor, if_neg (not_not_intro hsigns)] at htoken
    exact htoken
  · rw [scoped_mintedClaims]
    exact scopedRow_dispatchTable (fun field => protobuf.field field request) _ hmethod

/-- Messages of which only the room is set, as field 1. -/
def roomProtobuf : Protobuf where
  Message := Bytes
  empty := []
  field name room := if name = "room" then room else []
  setField name value room := if name = "room" then value else room
  agentDispatches _ := []
  serialize room := some (if room = [] then [] else 0x0a :: UInt8.ofNat room.length :: room)
  parse _ bytes :=
    match bytes with
    | [] => some []
    | 0x0a :: length :: room => if length.toNat = room.length then some room else none
    | _ => none
  fromJson _ json := if json = ascii "\x7b\x7d" then .ok [] else .error (ascii "INVALID_ARGUMENT")
  toJson _ room :=
    if room = [] then .ok (ascii "\x7b\x7d")
    else .ok (ascii "\x7b\"room\":\"" ++ room ++ ascii "\"\x7d")

/-- A serialized message whose room is `stage`. -/
def stageBody : Bytes := 0x0a :: 5 :: ascii "stage"

theorem scopedToken_sample :
    ((AgentDispatchClient.listDispatch.invoke sampleSurroundings roomProtobuf
        (sampleContext "http://localhost:7880") (ascii "stage")).CallsAtMost
          (fun sent => ∃ token, (tokenOf (ascii "key") (ascii "secret")
            (AgentDispatchClient.listDispatch.grantFor roomProtobuf (ascii "stage"))).toJwt
              .nanoseconds (.constant [] []) Locale.classic sampleNow = .ok token ∧
            Bears token sent.2) 1) ∧
      Scoped AgentDispatchClient.listDispatch (fun field => roomProtobuf.field field (ascii "stage"))
        (mintedClaims (ascii "key") (ascii "secret")
          (AgentDispatchClient.listDispatch.grantFor roomProtobuf (ascii "stage")) 0 1) := by
  have hmethod : ("AgentDispatch.ListDispatch", AgentDispatchClient.listDispatch) ∈
      dispatchTable := by simp [dispatchTable]
  obtain ⟨hbears, hclaims⟩ := scopedToken_iff sampleSurroundings roomProtobuf
    (sampleContext "http://localhost:7880") rfl hmethod (ascii "stage")
  exact ⟨hbears, (hclaims 0 1).2.mpr (Or.inr (by decide))⟩

/-- An agent dispatch without a room administers all rooms. -/
theorem listDispatch_unscoped :
    claim (mintedClaims (ascii "key") (ascii "secret")
        (AgentDispatchClient.listDispatch.grantFor roomProtobuf []) 0 1) "video" "roomAdmin" =
      some (.bool true) ∧
    claim (mintedClaims (ascii "key") (ascii "secret")
        (AgentDispatchClient.listDispatch.grantFor roomProtobuf []) 0 1) "video" "room" = none := by
  rw [video_claim _ _ _ _ _ "roomAdmin" fun _ => rfl, video_claim _ _ _ _ _ "room" fun _ => rfl]
  exact ⟨rfl, rfl⟩

end Tokens

end LivekitServer

import LivekitServer.ClientContext

/-!
# The service clients

Every method of the six clients is one Twirp call: the names of its service, its method and its
messages, and the grant of its token, which depends on string fields of the request. The
generated messages and the protobuf runtime are the parameter `Protobuf`.
-/

namespace LivekitServer

/-- Messages and what the protobuf runtime does with them. A parser of JSON and a printer report
the text of their status when they fail. -/
structure Protobuf where
  Message : Type
  /-- A message without fields set. -/
  empty : Message
  field : String → Message → Bytes
  setField : String → Bytes → Message → Message
  agentDispatches : Message → List Message
  serialize : Message → Option Bytes
  parse : (type : String) → Bytes → Option Message
  fromJson : (type : String) → Bytes → Except Bytes Message
  toJson : (type : String) → Message → Except Bytes Bytes

structure Method where
  service : String
  name : String
  request : String
  response : String
  grant : (String → Bytes) → RequestGrant
  /-- An empty `nonce` of the request is filled in. -/
  fillsNonce : Bool

namespace RoomServiceClient

def roomGrant (create list : Bool) (room destination : Bytes) : RequestGrant :=
  { video := some
      { VideoGrant.none with
        roomCreate := create
        roomList := list
        roomAdmin := room ≠ []
        room := room
        destinationRoom := destination }
    sip := none
    agent := none }

def call (name request response : String) (grant : (String → Bytes) → RequestGrant) : Method :=
  ⟨"RoomService", name, request, response, grant, false⟩

def createRoom : Method :=
  call "CreateRoom" "livekit.CreateRoomRequest" "livekit.Room" fun _ => roomGrant true false [] []

def listRooms : Method :=
  call "ListRooms" "livekit.ListRoomsRequest" "livekit.ListRoomsResponse"
    fun _ => roomGrant false true [] []

def deleteRoom : Method :=
  call "DeleteRoom" "livekit.DeleteRoomRequest" "livekit.DeleteRoomResponse"
    fun _ => roomGrant true false [] []

def listParticipants : Method :=
  call "ListParticipants" "livekit.ListParticipantsRequest" "livekit.ListParticipantsResponse"
    fun field => roomGrant false false (field "room") []

def getParticipant : Method :=
  call "GetParticipant" "livekit.RoomParticipantIdentity" "livekit.ParticipantInfo"
    fun field => roomGrant false false (field "room") []

def removeParticipant : Method :=
  call "RemoveParticipant" "livekit.RoomParticipantIdentity" "livekit.RemoveParticipantResponse"
    fun field => roomGrant false false (field "room") []

def mutePublishedTrack : Method :=
  call "MutePublishedTrack" "livekit.MuteRoomTrackRequest" "livekit.MuteRoomTrackResponse"
    fun field => roomGrant false false (field "room") []

def updateParticipant : Method :=
  call "UpdateParticipant" "livekit.UpdateParticipantRequest" "livekit.ParticipantInfo"
    fun field => roomGrant false false (field "room") []

def updateSubscriptions : Method :=
  call "UpdateSubscriptions" "livekit.UpdateSubscriptionsRequest"
    "livekit.UpdateSubscriptionsResponse" fun field => roomGrant false false (field "room") []

/-- The request gets a nonce when it has none, and the grant is of the request as it came. -/
def sendData : Method :=
  { call "SendData" "livekit.SendDataRequest" "livekit.SendDataResponse" fun field =>
      roomGrant false false (field "room") [] with
    fillsNonce := true }

def updateRoomMetadata : Method :=
  call "UpdateRoomMetadata" "livekit.UpdateRoomMetadataRequest" "livekit.Room"
    fun field => roomGrant false false (field "room") []

def forwardParticipant : Method :=
  call "ForwardParticipant" "livekit.ForwardParticipantRequest" "livekit.ForwardParticipantResponse"
    fun field => roomGrant false false (field "room") (field "destination_room")

def moveParticipant : Method :=
  call "MoveParticipant" "livekit.MoveParticipantRequest" "livekit.MoveParticipantResponse"
    fun field => roomGrant false false (field "room") (field "destination_room")

def performRpc : Method :=
  call "PerformRpc" "livekit.PerformRpcRequest" "livekit.PerformRpcResponse"
    fun field => roomGrant false false (field "room") []

end RoomServiceClient

namespace EgressClient

def call (name request response : String) : Method :=
  { service := "Egress"
    name := name
    request := request
    response := response
    grant := fun _ => ⟨some { VideoGrant.none with roomRecord := true }, none, none⟩
    fillsNonce := false }

def startEgress : Method := call "StartEgress" "livekit.StartEgressRequest" "livekit.EgressInfo"

def startRoomCompositeEgress : Method :=
  call "StartRoomCompositeEgress" "livekit.RoomCompositeEgressRequest" "livekit.EgressInfo"

def startWebEgress : Method := call "StartWebEgress" "livekit.WebEgressRequest" "livekit.EgressInfo"

def startParticipantEgress : Method :=
  call "StartParticipantEgress" "livekit.ParticipantEgressRequest" "livekit.EgressInfo"

def startTrackCompositeEgress : Method :=
  call "StartTrackCompositeEgress" "livekit.TrackCompositeEgressRequest" "livekit.EgressInfo"

def startTrackEgress : Method :=
  call "StartTrackEgress" "livekit.TrackEgressRequest" "livekit.EgressInfo"

def updateLayout : Method := call "UpdateLayout" "livekit.UpdateLayoutRequest" "livekit.EgressInfo"

def updateStream : Method := call "UpdateStream" "livekit.UpdateStreamRequest" "livekit.EgressInfo"

def listEgress : Method :=
  call "ListEgress" "livekit.ListEgressRequest" "livekit.ListEgressResponse"

def stopEgress : Method := call "StopEgress" "livekit.StopEgressRequest" "livekit.EgressInfo"

end EgressClient

namespace IngressClient

def call (name request response : String) : Method :=
  { service := "Ingress"
    name := name
    request := request
    response := response
    grant := fun _ => ⟨some { VideoGrant.none with ingressAdmin := true }, none, none⟩
    fillsNonce := false }

def createIngress : Method :=
  call "CreateIngress" "livekit.CreateIngressRequest" "livekit.IngressInfo"

def updateIngress : Method :=
  call "UpdateIngress" "livekit.UpdateIngressRequest" "livekit.IngressInfo"

def listIngress : Method :=
  call "ListIngress" "livekit.ListIngressRequest" "livekit.ListIngressResponse"

def deleteIngress : Method :=
  call "DeleteIngress" "livekit.DeleteIngressRequest" "livekit.IngressInfo"

end IngressClient

namespace SipClient

def adminGrant : RequestGrant := ⟨none, some ⟨true, false⟩, none⟩

def callGrant (room : Bytes) : RequestGrant :=
  { video :=
      if room = [] then none else some { VideoGrant.none with roomAdmin := true, room := room }
    sip := some ⟨false, true⟩
    agent := none }

def call (name request response : String) (grant : (String → Bytes) → RequestGrant) : Method :=
  ⟨"SIP", name, request, response, grant, false⟩

def createInboundTrunk : Method :=
  call "CreateSIPInboundTrunk" "livekit.CreateSIPInboundTrunkRequest" "livekit.SIPInboundTrunkInfo"
    fun _ => adminGrant

def createOutboundTrunk : Method :=
  call "CreateSIPOutboundTrunk" "livekit.CreateSIPOutboundTrunkRequest"
    "livekit.SIPOutboundTrunkInfo" fun _ => adminGrant

def updateInboundTrunk : Method :=
  call "UpdateSIPInboundTrunk" "livekit.UpdateSIPInboundTrunkRequest" "livekit.SIPInboundTrunkInfo"
    fun _ => adminGrant

def updateOutboundTrunk : Method :=
  call "UpdateSIPOutboundTrunk" "livekit.UpdateSIPOutboundTrunkRequest"
    "livekit.SIPOutboundTrunkInfo" fun _ => adminGrant

def getInboundTrunk : Method :=
  call "GetSIPInboundTrunk" "livekit.GetSIPInboundTrunkRequest" "livekit.GetSIPInboundTrunkResponse"
    fun _ => adminGrant

def getOutboundTrunk : Method :=
  call "GetSIPOutboundTrunk" "livekit.GetSIPOutboundTrunkRequest"
    "livekit.GetSIPOutboundTrunkResponse" fun _ => adminGrant

def listTrunks : Method :=
  call "ListSIPTrunk" "livekit.ListSIPTrunkRequest" "livekit.ListSIPTrunkResponse"
    fun _ => adminGrant

def listInboundTrunks : Method :=
  call "ListSIPInboundTrunk" "livekit.ListSIPInboundTrunkRequest"
    "livekit.ListSIPInboundTrunkResponse" fun _ => adminGrant

def listOutboundTrunks : Method :=
  call "ListSIPOutboundTrunk" "livekit.ListSIPOutboundTrunkRequest"
    "livekit.ListSIPOutboundTrunkResponse" fun _ => adminGrant

def deleteTrunk : Method :=
  call "DeleteSIPTrunk" "livekit.DeleteSIPTrunkRequest" "livekit.SIPTrunkInfo" fun _ => adminGrant

def createDispatchRule : Method :=
  call "CreateSIPDispatchRule" "livekit.CreateSIPDispatchRuleRequest" "livekit.SIPDispatchRuleInfo"
    fun _ => adminGrant

def updateDispatchRule : Method :=
  call "UpdateSIPDispatchRule" "livekit.UpdateSIPDispatchRuleRequest" "livekit.SIPDispatchRuleInfo"
    fun _ => adminGrant

def listDispatchRules : Method :=
  call "ListSIPDispatchRule" "livekit.ListSIPDispatchRuleRequest"
    "livekit.ListSIPDispatchRuleResponse" fun _ => adminGrant

def deleteDispatchRule : Method :=
  call "DeleteSIPDispatchRule" "livekit.DeleteSIPDispatchRuleRequest" "livekit.SIPDispatchRuleInfo"
    fun _ => adminGrant

def createParticipant : Method :=
  call "CreateSIPParticipant" "livekit.CreateSIPParticipantRequest" "livekit.SIPParticipantInfo"
    fun _ => callGrant []

def transferParticipant : Method :=
  call "TransferSIPParticipant" "livekit.TransferSIPParticipantRequest" "google.protobuf.Empty"
    fun field => callGrant (field "room_name")

end SipClient

namespace AgentDispatchClient

def call (name request response : String) : Method :=
  { service := "AgentDispatchService"
    name := name
    request := request
    response := response
    grant := fun field =>
      ⟨some { VideoGrant.none with roomAdmin := true, room := field "room" }, none, none⟩
    fillsNonce := false }

def createDispatch : Method :=
  call "CreateDispatch" "livekit.CreateAgentDispatchRequest" "livekit.AgentDispatch"

def deleteDispatch : Method :=
  call "DeleteDispatch" "livekit.DeleteAgentDispatchRequest" "livekit.AgentDispatch"

def listDispatch : Method :=
  call "ListDispatch" "livekit.ListAgentDispatchRequest" "livekit.ListAgentDispatchResponse"

end AgentDispatchClient

namespace ConnectorClient

def call (name request response : String) (room : (String → Bytes) → Bytes) : Method :=
  { service := "Connector"
    name := name
    request := request
    response := response
    grant := fun field =>
      ⟨some { VideoGrant.none with roomCreate := true, room := room field }, none, none⟩
    fillsNonce := false }

def dialWhatsAppCall : Method :=
  call "DialWhatsAppCall" "livekit.DialWhatsAppCallRequest" "livekit.DialWhatsAppCallResponse"
    fun field => field "room_name"

def disconnectWhatsAppCall : Method :=
  call "DisconnectWhatsAppCall" "livekit.DisconnectWhatsAppCallRequest"
    "livekit.DisconnectWhatsAppCallResponse" fun _ => []

def connectWhatsAppCall : Method :=
  call "ConnectWhatsAppCall" "livekit.ConnectWhatsAppCallRequest"
    "livekit.ConnectWhatsAppCallResponse" fun _ => []

def acceptWhatsAppCall : Method :=
  call "AcceptWhatsAppCall" "livekit.AcceptWhatsAppCallRequest" "livekit.AcceptWhatsAppCallResponse"
    fun field => field "room_name"

def connectTwilioCall : Method :=
  call "ConnectTwilioCall" "livekit.ConnectTwilioCallRequest" "livekit.ConnectTwilioCallResponse"
    fun field => field "room_name"

end ConnectorClient

/-- The operations of the C ABI, in the order of `dispatch.inc`. -/
def dispatchTable : List (String × Method) :=
  [("Room.CreateRoom", RoomServiceClient.createRoom),
    ("Room.ListRooms", RoomServiceClient.listRooms),
    ("Room.DeleteRoom", RoomServiceClient.deleteRoom),
    ("Room.ListParticipants", RoomServiceClient.listParticipants),
    ("Room.GetParticipant", RoomServiceClient.getParticipant),
    ("Room.RemoveParticipant", RoomServiceClient.removeParticipant),
    ("Room.MutePublishedTrack", RoomServiceClient.mutePublishedTrack),
    ("Room.UpdateParticipant", RoomServiceClient.updateParticipant),
    ("Room.UpdateSubscriptions", RoomServiceClient.updateSubscriptions),
    ("Room.SendData", RoomServiceClient.sendData),
    ("Room.UpdateRoomMetadata", RoomServiceClient.updateRoomMetadata),
    ("Room.ForwardParticipant", RoomServiceClient.forwardParticipant),
    ("Room.MoveParticipant", RoomServiceClient.moveParticipant),
    ("Room.PerformRpc", RoomServiceClient.performRpc),
    ("Egress.StartEgress", EgressClient.startEgress),
    ("Egress.StartRoomCompositeEgress", EgressClient.startRoomCompositeEgress),
    ("Egress.StartWebEgress", EgressClient.startWebEgress),
    ("Egress.StartParticipantEgress", EgressClient.startParticipantEgress),
    ("Egress.StartTrackCompositeEgress", EgressClient.startTrackCompositeEgress),
    ("Egress.StartTrackEgress", EgressClient.startTrackEgress),
    ("Egress.UpdateLayout", EgressClient.updateLayout),
    ("Egress.UpdateStream", EgressClient.updateStream),
    ("Egress.ListEgress", EgressClient.listEgress),
    ("Egress.StopEgress", EgressClient.stopEgress),
    ("Ingress.CreateIngress", IngressClient.createIngress),
    ("Ingress.UpdateIngress", IngressClient.updateIngress),
    ("Ingress.ListIngress", IngressClient.listIngress),
    ("Ingress.DeleteIngress", IngressClient.deleteIngress),
    ("Sip.CreateInboundTrunk", SipClient.createInboundTrunk),
    ("Sip.CreateOutboundTrunk", SipClient.createOutboundTrunk),
    ("Sip.UpdateInboundTrunk", SipClient.updateInboundTrunk),
    ("Sip.UpdateOutboundTrunk", SipClient.updateOutboundTrunk),
    ("Sip.GetInboundTrunk", SipClient.getInboundTrunk),
    ("Sip.GetOutboundTrunk", SipClient.getOutboundTrunk),
    ("Sip.ListTrunks", SipClient.listTrunks),
    ("Sip.ListInboundTrunks", SipClient.listInboundTrunks),
    ("Sip.ListOutboundTrunks", SipClient.listOutboundTrunks),
    ("Sip.DeleteTrunk", SipClient.deleteTrunk),
    ("Sip.CreateDispatchRule", SipClient.createDispatchRule),
    ("Sip.UpdateDispatchRule", SipClient.updateDispatchRule),
    ("Sip.ListDispatchRules", SipClient.listDispatchRules),
    ("Sip.DeleteDispatchRule", SipClient.deleteDispatchRule),
    ("Sip.CreateParticipant", SipClient.createParticipant),
    ("Sip.TransferParticipant", SipClient.transferParticipant),
    ("AgentDispatch.CreateDispatch", AgentDispatchClient.createDispatch),
    ("AgentDispatch.DeleteDispatch", AgentDispatchClient.deleteDispatch),
    ("AgentDispatch.ListDispatch", AgentDispatchClient.listDispatch),
    ("Connector.DialWhatsAppCall", ConnectorClient.dialWhatsAppCall),
    ("Connector.DisconnectWhatsAppCall", ConnectorClient.disconnectWhatsAppCall),
    ("Connector.ConnectWhatsAppCall", ConnectorClient.connectWhatsAppCall),
    ("Connector.AcceptWhatsAppCall", ConnectorClient.acceptWhatsAppCall),
    ("Connector.ConnectTwilioCall", ConnectorClient.connectTwilioCall)]

section Calls

variable {τ : Type} (surroundings : Surroundings) (protobuf : Protobuf)

/-- `FromModel`. -/
def fromModel (type : String) (json : Bytes) : Outcome protobuf.Message :=
  match protobuf.fromJson type json with
  | .ok message => .ok message
  | .error status =>
    raise .protocol (ascii "invalid " ++ ascii type ++ ascii " JSON: " ++ status)

/-- `ToModel`. -/
def toModel (type : String) (message : protobuf.Message) : Outcome Bytes :=
  match protobuf.toJson type message with
  | .ok json => .ok json
  | .error status =>
    raise .protocol (ascii "could not encode " ++ ascii type ++ ascii " as JSON: " ++ status)

namespace Method

variable (method : Method) (context : ClientContext τ)

def prepare (request : protobuf.Message) : Outcome protobuf.Message :=
  if method.fillsNonce ∧ protobuf.field "nonce" request = [] then
    surroundings.nonce.map fun nonce => protobuf.setField "nonce" nonce request
  else .ok request

def grantFor (request : protobuf.Message) : RequestGrant :=
  method.grant fun field => protobuf.field field request

/-- The method on protobuf messages. -/
def invoke (request : protobuf.Message) : ClientContext.Sending τ protobuf.Message := do
  let prepared ← method.prepare surroundings protobuf request
  ClientContext.call surroundings context method.service method.name (protobuf.serialize prepared)
    (protobuf.parse method.response) (method.grantFor protobuf request)

/-- The method on models, which are JSON texts. -/
def invokeModel (json : Bytes) : ClientContext.Sending τ Bytes := do
  let request ← fromModel protobuf method.request json
  let response ← method.invoke surroundings protobuf context request
  toModel protobuf method.response response

end Method

namespace AgentDispatchClient

variable (context : ClientContext τ)

def getDispatchModel (dispatchId room : Bytes) : ClientContext.Sending τ (Option Bytes) := do
  let request := protobuf.setField "room" room
    (protobuf.setField "dispatch_id" dispatchId protobuf.empty)
  let response ← listDispatch.invoke surroundings protobuf context request
  match protobuf.agentDispatches response with
  | [] => return none
  | first :: _ =>
    let json ← toModel protobuf "livekit.AgentDispatch" first
    return some json

end AgentDispatchClient

end Calls
end LivekitServer

import SpringStudy.MediaMonitor

/-!
# All the messages of the media server

The handlers that the socket model leaves to this place: monitoring, ice
candidates, recording, chat and data. The whole server is then one machine.
Each message, and each task of a timer, runs to its end as one step: what other
threads may do between the parts of one is the subject of `MediaThreads`.
Kurento numbers the endpoints it builds, so no two of them are the same.
-/
namespace MediaMessages

open Tables Outcomes MediaRoom MediaRoomManager MediaSession MediaBuffer MediaSocket

structure MonitorMessage where
  roomId : String
  isLeave : Bool
  deriving DecidableEq, Repr

structure CandidateMessage where
  roomId : Option String
  type : Option WebRtcEndpointType
  present : Option String
  iceCandidate : IceCandidate
  deriving DecidableEq, Repr

inductive RecordControlType where
  | start
  | stop
  deriving DecidableEq, Repr

structure ChatMessage where
  receiver : Option String
  message : Option String
  deriving DecidableEq, Repr

structure DataMessage where
  receiver : Option String
  data : Option String
  deriving DecidableEq, Repr

/-- The fields that `getWebRtcPeerDefaultCreate` reads, as in an offer. -/
def CandidateMessage.target (message : CandidateMessage) : OfferMessage :=
  ⟨message.roomId, message.type, message.present, ""⟩

/-- `handleJoin` of a monitoring user. -/
def handleMonitor (s : Server) (user : String) (message : MonitorMessage) : Outcome Server Failure :=
  match s.sessions.findSessionInfo user with
  | none => (s, some .nullPointer)
  | some info =>
    if info.ticketType = .monitor then
      if message.isLeave then MediaMonitor.leaveRoom s info.userId message.roomId
      else MediaMonitor.joinRoom s user info.userId message.roomId
    else (s, some (.common .invalidMonitorSessionType))

/-- The body that `handleCandidate` runs on the room, for a candidate that was not buffered. -/
def candidateInRoom (s : Server) (info : SessionInfo) (roomId : Option String) (message : CandidateMessage)
    (build : Option Endpoint) : Outcome Server Failure :=
  match roomId with
  | none => (s, some .nullPointer)
  | some roomId =>
    match s.rooms.roomIdRooms.lookup roomId with
    | none => (s, some (.common .notFoundRoom))
    | some r => s.withEndpoint r info.userId message.target build fun s _ e =>
        (s.callMedia (.addIceCandidate e message.iceCandidate), none)

def handleCandidate (s : Server) (user : String) (message : CandidateMessage) (build : Option Endpoint) :
    Outcome Server Failure :=
  match s.sessions.findSessionInfo user with
  | none => (s, some .nullPointer)
  | some info =>
    let roomId := roomOf info message.roomId
    let q := s.buffers.cache ⟨roomId, info.userId, message.present⟩ message.iceCandidate
    let s := { s with buffers := q.1 }
    if q.2 then (s, none) else candidateInRoom s info roomId message build

/-- `isAgent` is the flag of the session. Neither control does anything yet. -/
def handleRecord (s : Server) (user : String) (isAgent : Bool) (type : Option RecordControlType) :
    Outcome Server Failure :=
  match s.sessions.findSessionInfo user with
  | none => (s, some .nullPointer)
  | some info =>
    if isAgent then
      match info.roomId with
      | none => (s, some .nullPointer)
      | some roomId =>
        match s.rooms.roomIdRooms.lookup roomId, type with
        | none, _ => (s, some (.common .notFoundRoom))
        | some _, none => (s, some .nullPointer)
        | some _, some _ => (s, none)
    else (s, some (.common .recordUserNotAgent))

/-- A message goes to its receiver, who has to have a session, or to the whole room. -/
def dispatch (s : Server) (receiver : Option String) (unknown : CommonCode) (toUser : String → Message)
    (toRoom : Message) : Outcome Server Failure :=
  if hasText receiver then
    match s.sessions.findPrincipalByUserId receiver with
    | none => (s, some .nullPointer)
    | some none => (s, some (.common unknown))
    | some (some principal) => (s.send (toUser principal), none)
  else (s.send toRoom, none)

def handleChat (s : Server) (user : String) (message : ChatMessage) : Outcome Server Failure :=
  match s.sessions.findSessionInfo user with
  | none => (s, some .nullPointer)
  | some info =>
    if hasText message.message then
      let text := message.message.getD ""
      dispatch s message.receiver .notFoundReceiver (fun principal => .chatTo principal info.userId text)
        (.chat info.roomId info.userId text)
    else (s, some (.common .chatMessageIsNull))

def handleData (s : Server) (user : String) (message : DataMessage) : Outcome Server Failure :=
  match s.sessions.findSessionInfo user with
  | none => (s, some .nullPointer)
  | some info =>
    dispatch s message.receiver .unknownReceiverUser
      (fun principal => .dataTo principal info.userId message.data)
      (.data info.roomId info.userId message.data)

/-- A session with a monitor ticket. The handlers know such sessions; no caller of
`registerSession` in the source makes one yet. -/
def registerMonitor (s : Server) (user userId : String) : Outcome Server Failure :=
  match s.sessions.userIdIndex.lookup userId with
  | some _ => (s, some (.common .duplicatedLogin))
  | none => ({ s with sessions := s.sessions.registerSession ⟨user, .monitor, none, userId⟩ }, none)

structure Media where
  server : Server
  /-- The number of the next endpoint. -/
  endpoint : Endpoint

def Media.init (roomDeleteTtl : Nat) : Media := ⟨.init roomDeleteTtl, 0⟩

/-- `kurento` tells whether Kurento builds the endpoint that the handler may ask for. `fireTtl` is
the whole task of the timer: the expiry test, the removal of the entry and the release of the room. -/
inductive Event where
  | createRoom (roomId : String) (wrapper : Option PipelineWrapper) (now : Nat)
  | connect (user : String) (userId roomId : Option String)
  | connected (user : String) (userId roomId : Option String)
  | disconnect (user : String)
  | registerMonitor (user userId : String)
  | fireTtl (task : String × Nat) (now : Nat)
  | kurentoDown (order : Traversal RoomRef) (kmsUrl : String)
  | monitor (user : String) (message : MonitorMessage)
  | offer (user : String) (offer : OfferMessage) (kurento : Bool)
  | candidate (user : String) (message : CandidateMessage) (kurento : Bool)
  | record (user : String) (isAgent : Bool) (type : Option RecordControlType)
  | chat (user : String) (message : ChatMessage)
  | data (user : String) (message : DataMessage)

/-- The endpoint that Kurento builds if it is asked to. -/
def Media.build (s : Media) (kurento : Bool) : Option Endpoint := if kurento then some s.endpoint else none

def handle (s : Media) : Event → Outcome Server Failure
  | .createRoom roomId wrapper now => s.server.createRoom roomId wrapper now
  | .connect user userId roomId => s.server.preSend user userId roomId
  | .connected user userId roomId => s.server.handleSessionConnectedListener user userId roomId
  | .disconnect user => s.server.handleSessionDisconnectedListener user
  | .registerMonitor user userId => registerMonitor s.server user userId
  | .fireTtl task now => s.server.fireTtl task now
  | .kurentoDown order kmsUrl => s.server.kurentoDown order kmsUrl
  | .monitor user message => handleMonitor s.server user message
  | .offer user offer kurento => s.server.handleOffer user offer (s.build kurento)
  | .candidate user message kurento => handleCandidate s.server user message (s.build kurento)
  | .record user isAgent type => handleRecord s.server user isAgent type
  | .chat user message => handleChat s.server user message
  | .data user message => handleData s.server user message

def step (s : Media) (e : Event) : Media := ⟨(handle s e).1, s.endpoint + 1⟩

end MediaMessages

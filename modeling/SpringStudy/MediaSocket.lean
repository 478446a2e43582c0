import SpringStudy.MediaRoomManager
import SpringStudy.MediaSession
import SpringStudy.MediaBuffer
import SpringStudy.Outcomes

/-!
# The socket handlers of the media server

The server joins the session registry, the rooms, the candidate buffers and the
monitors. A handler runs as one step; what it has done before an exception
stays. Messages to clients and calls on endpoints are recorded in the order in
which they are made. Kurento may fail to build an endpoint, but once it is
built, `processOffer`, `addIceCandidate` and `connect` on it return: calls that
Kurento refuses are not modelled.
-/
namespace MediaSocket

open Tables MediaRoom MediaRoomManager MediaSession MediaBuffer Outcomes

inductive MemberNotificationType where
  | enter
  | leave
  deriving DecidableEq, Repr

inductive Message where
  /-- `sendChat` to everybody in the room. -/
  | chat (roomId : Option String) (sender text : String)
  /-- `sendChat` to one user. -/
  | chatTo (principal sender text : String)
  | data (roomId : Option String) (sender : String) (data : Option String)
  | dataTo (principal sender : String) (data : Option String)
  | answer (principal : String) (roomId : String) (epType : WebRtcEndpointType) (present : Option String)
  | member (principal : String) (info : SessionInfo) (state : MemberNotificationType)
  | endRoom (principal roomId : String)
  deriving DecidableEq, Repr

inductive MediaCall where
  | processOffer (e : Endpoint) (sdp : String)
  | addIceCandidate (e : Endpoint) (candidate : IceCandidate)
  | connect (source sink : Endpoint)
  deriving DecidableEq, Repr

structure Server where
  sessions : SessionManager
  rooms : RoomManager
  buffers : BufferManger
  userIdMonitorSession : MonitorSessions
  sent : List Message
  media : List MediaCall

def Server.init (roomDeleteTtl : Nat) : Server := ⟨.empty, .init roomDeleteTtl, .empty, ∅, [], []⟩

structure OfferMessage where
  roomId : Option String
  type : Option WebRtcEndpointType
  present : Option String
  sdp : String
  deriving DecidableEq, Repr

/-- `Character.isWhitespace`. -/
def isWhitespace (c : Char) : Bool :=
  let n := c.toNat
  (9 ≤ n && n ≤ 13) || (28 ≤ n && n ≤ 32) || n == 0x1680 || (0x2000 ≤ n && n ≤ 0x2006) ||
    (0x2008 ≤ n && n ≤ 0x200A) || n == 0x2028 || n == 0x2029 || n == 0x205F || n == 0x3000

/-- `StringUtils.hasText`. -/
def hasText (text : Option String) : Bool :=
  match text with
  | none => false
  | some t => t.toList.any fun c => !isWhitespace c

/-- The room a message is for: a conference session has its own. -/
def roomOf (info : SessionInfo) (roomId : Option String) : Option String :=
  if info.ticketType = .conference then info.roomId else roomId

namespace Server

def send (s : Server) (msg : Message) : Server := { s with sent := s.sent ++ [msg] }

def callMedia (s : Server) (call : MediaCall) : Server := { s with media := s.media ++ [call] }

/-! ## Rooms that close -/

def endRoomProcess (s : Server) (roomId : String) : Server :=
  { s with userIdMonitorSession := s.userIdMonitorSession.endRoomProcess roomId }

/-- The close callback of `RoomApiServiceImpl.createRoom`. -/
def closeRoomCallback (s : Server) (room : Room) : Outcome Server Failure :=
  andThen
    (forAll (fun s p => match s.sessions.findPrincipalByUserId (some p.userId) with
      | none => (s, some (.missingSession p.userId))
      | some none => (s, none)
      | some (some principal) => (s.send (.endRoom principal room.roomId), none)) s room.findParticipants)
    fun s => (s.endRoomProcess room.roomId, none)

/-- The close callbacks of the delete callbacks among the calls. -/
def closeRooms (s : Server) (calls : List (RoomRef × Call)) : Outcome Server Failure :=
  forAll (fun s c => match c.2 with
    | .deleteRoomCallBack room => s.closeRoomCallback room
    | _ => (s, none)) s calls

/-- The manager did `m`; the rooms it closed on the way report it. The callbacks
read the sessions, which the manager does not touch. A callback throws only for
a publisher of its room, and then it cuts the rest of the manager's work short:
`m` is either the work on a room without publishers, or up to the end of the
only callback in it. -/
def withRooms (s : Server) (m : RoomManager) : Outcome Server Failure :=
  ({ s with rooms := m } : Server).closeRooms (m.trace.drop s.rooms.trace.length)

/-- `MonitorManger.leaveAllRoom`. -/
def leaveAllRoom (s : Server) (userId : String) : Outcome Server Failure :=
  match s.userIdMonitorSession.lookup userId with
  | none => (s, none)
  | some roomIds =>
    forAll (fun s roomId => s.withRooms (s.rooms.handleRoom roomId (.leave userId)))
      { s with userIdMonitorSession := s.userIdMonitorSession.erase userId } roomIds

/-! ## Sessions -/

/-- The session lookup of `handleLeave` for one other participant. -/
def notifyLeave (s : Server) (info : SessionInfo) (p : Participant) : Outcome Server Failure :=
  match s.sessions.findPrincipalByUserId (some p.userId) with
  | some (some principal) => (s.send (.member principal info .leave), none)
  | _ => (s, some (.missingSession p.userId))

/-- A conference user leaves: the others are told, but the participant stays in
the room (`room.leave(userId)` is commented out in the source). -/
def leaveConference (s : Server) (info : SessionInfo) : Outcome Server Failure :=
  match info.roomId with
  | none => (s, some .nullPointer)
  | some roomId =>
    match s.rooms.roomIdRooms.lookup roomId with
    | none => (s, none)
    | some r =>
      match s.rooms.heap[r]? with
      | none => (s, none)
      | some room =>
        forAll (fun s p => s.notifyLeave info p) (s.send (.chat info.roomId info.userId "leave"))
          (room.findOtherParticipantsWithMonitoringUser info.userId)

def handleLeave (s : Server) (info : SessionInfo) : Outcome Server Failure :=
  let s := { s with buffers := s.buffers.release info.userId }
  match info.ticketType with
  | .monitor => s.leaveAllRoom info.userId
  | .conference => s.leaveConference info

/-- `unregister` with `handleLeave` as its callback. -/
def unregister (s : Server) (user : String) : Outcome Server Failure :=
  match MediaSession.unregister s.sessions user with
  | (m, .error e) => ({ s with sessions := m }, some e)
  | (m, .ok info) => ({ s with sessions := m } : Server).handleLeave info

def register (s : Server) (user : String) (userId roomId : Option String) : Outcome Server Failure :=
  let q := MediaSession.register s.sessions user userId roomId
  ({ s with sessions := q.1 }, q.2)

/-- The CONNECT interceptor: every exception but a `CommonException` is
reported as an internal server error. -/
def preSend (s : Server) (user : String) (userId roomId : Option String) : Outcome Server Failure :=
  match s.register user userId roomId with
  | (s, none) => (s, none)
  | (s, some (.common code)) => (s, some (.common code))
  | (s, some _) => (s, some (.common .internalServerError))

def handleSessionConnectedListener (s : Server) (user : String) (userId roomId : Option String) :
    Outcome Server Failure :=
  andThen (s.unregister user) fun s => s.register user userId roomId

def handleSessionDisconnectedListener (s : Server) (user : String) : Outcome Server Failure :=
  s.unregister user

/-! ## Offers -/

/-- `room.join(userId)` and the chat notice of `handleJoin`. -/
def joinConference (s : Server) (info : SessionInfo) (r : RoomRef) (build : Option Endpoint) :
    Outcome Server Failure :=
  match (s.rooms.heap[r]?).bind fun room => room.join info.userId build with
  | none => (s, some .kurento)
  | some _ =>
    (({ s with rooms := s.rooms.onRoom r fun room => room.call (.join info.userId build) } : Server).send
      (.chat info.roomId info.userId "enter"), none)

/-- The participant object of the room `r` is replaced by its changed self. -/
def putParticipant (s : Server) (r : RoomRef) (p : Participant) : Server :=
  { s with rooms := s.rooms.onRoom r fun room =>
      ({ room with userIdParticipants := room.userIdParticipants.insert p.userId p }, []) }

/-- `getWebRtcPeerDefaultCreate` on the participant of the user. A participant or an endpoint
that is not there is found out by the next call on it. -/
def getWebRtcPeerDefaultCreate (s : Server) (r : RoomRef) (userId : String)
    (epType : Option WebRtcEndpointType) (present : Option String) (build : Option Endpoint) :
    Except Failure (Server × WebRtcEndpointType × Endpoint) :=
  match (s.rooms.heap[r]?).bind fun room => room.findParticipant userId with
  | none => .error .nullPointer
  | some p =>
    match epType with
    | some .outgoing =>
      match p.outWebRtcEndpoint with
      | none => .error .nullPointer
      | some e => .ok (s, .outgoing, e)
    | some .incoming =>
      match present with
      | none => .error .nullPointer
      | some present =>
        match p.createInEp present build with
        | none => .error .kurento
        | some (p, e) => .ok (s.putParticipant r p, .incoming, e)
    | _ => .error .nullPointer

/-- The rest of a handler that works with the endpoint. -/
def withEndpoint (s : Server) (r : RoomRef) (userId : String) (offer : OfferMessage)
    (build : Option Endpoint) (next : Server → WebRtcEndpointType → Endpoint → Outcome Server Failure) :
    Outcome Server Failure :=
  match s.getWebRtcPeerDefaultCreate r userId offer.type offer.present build with
  | .error failure => (s, some failure)
  | .ok (s, epType, e) => next s epType e

/-- The offer is processed and answered, and the candidates that waited for it are added. -/
def answerOffer (s : Server) (user : String) (info : SessionInfo) (roomId : String)
    (offer : OfferMessage) (epType : WebRtcEndpointType) (e : Endpoint) : Server :=
  let s := (s.callMedia (.processOffer e offer.sdp)).send (.answer user roomId epType offer.present)
  let q := s.buffers.flushBuffer ⟨some roomId, info.userId, offer.present⟩
  { s with buffers := q.1, media := s.media ++ q.2.map fun c => .addIceCandidate e c }

/-- The session lookup of `handleOffer` for one other participant. -/
def notifyEnter (s : Server) (user : String) (info : SessionInfo) (p : Participant) :
    Outcome Server Failure :=
  match s.sessions.findSessionInfoByUserId p.userId with
  | none => (s, some (.missingSession p.userId))
  | some other =>
    ((s.send (.member user other .enter)).send (.member other.principal info .enter), none)

/-- The outgoing endpoint of `present` is connected to the new incoming one. -/
def connectPresent (s : Server) (r : RoomRef) (present : Option String) (e : Endpoint) :
    Outcome Server Failure :=
  match (s.rooms.heap[r]?).bind fun room => present.bind room.findParticipant with
  | none => (s, some .nullPointer)
  | some p =>
    match p.outWebRtcEndpoint with
    | none => (s, some .nullPointer)
    | some out => (s.callMedia (.connect out e), none)

/-- The switch at the end of `handleOffer`. -/
def conclude (s : Server) (user : String) (info : SessionInfo) (r : RoomRef) (present : Option String)
    (epType : WebRtcEndpointType) (e : Endpoint) : Outcome Server Failure :=
  match epType with
  | .outgoing =>
    forAll (fun s p => s.notifyEnter user info p) s
      (((s.rooms.heap[r]?).map fun room => room.findOtherParticipants info.userId).getD [])
  | .incoming => s.connectPresent r present e
  | _ => (s, some (.common .unknownWebrtcEpType))

/-- What `handleOffer` does once it has the endpoint. -/
def respond (user : String) (info : SessionInfo) (roomId : String) (r : RoomRef) (offer : OfferMessage)
    (s : Server) (epType : WebRtcEndpointType) (e : Endpoint) : Outcome Server Failure :=
  (s.answerOffer user info roomId offer epType e).conclude user info r offer.present epType e

/-- The body that `handleOffer` runs on the room. -/
def offerInRoom (s : Server) (user : String) (info : SessionInfo) (roomId : String) (r : RoomRef)
    (offer : OfferMessage) (build : Option Endpoint) : Outcome Server Failure :=
  andThen
    (if info.ticketType = .conference ∧ offer.type = some .outgoing then s.joinConference info r build
      else (s, none))
    fun s => s.withEndpoint r info.userId offer build (respond user info roomId r offer)

/-- An INCOMING offer must name a present user that has a session. -/
def checkPresent (s : Server) (offer : OfferMessage) : Option Failure :=
  if offer.type = some .incoming then
    if hasText offer.present then
      match s.sessions.findPrincipalByUserId offer.present with
      | none => some .nullPointer
      | some none => some (.common .unknownPresentUser)
      | some (some _) => none
    else some (.common .unknownPresentUser)
  else none

def handleOffer (s : Server) (user : String) (offer : OfferMessage) (build : Option Endpoint) :
    Outcome Server Failure :=
  match s.sessions.findSessionInfo user with
  | none => (s, some .nullPointer)
  | some info =>
    if offer.type = some .outgoing ∧ info.ticketType = .monitor then
      (s, some (.common .cannotConnectToOutgoing))
    else
      match s.checkPresent offer with
      | some failure => (s, some failure)
      | none =>
        match roomOf info offer.roomId with
        | none => (s, some .nullPointer)
        | some roomId =>
          match s.rooms.roomIdRooms.lookup roomId with
          | none => (s, some (.common .notFoundRoom))
          | some r => s.offerInRoom user info roomId r offer build

/-! ## Rooms -/

def createRoom (s : Server) (roomId : String) (wrapper : Option PipelineWrapper) (now : Nat) :
    Outcome Server Failure :=
  match s.rooms.createRoom roomId wrapper now with
  | none => (s, some (.common .notFoundValidMediaServer))
  | some m => ({ s with rooms := m }, none)

def fireTtl (s : Server) (task : String × Nat) (now : Nat) : Outcome Server Failure :=
  s.withRooms (s.rooms.fireTtl task now)

/-- The rooms of a media server that is down are closed one by one, each with its close callback
in its place: one that throws ends the loop. -/
def kurentoDown (s : Server) (order : Traversal RoomRef) (kmsUrl : String) : Outcome Server Failure :=
  forAll (fun s r => s.withRooms (s.rooms.onRoom r Room.releaseWithKurentoDown)) s
    (s.rooms.roomsOn order kmsUrl)

end Server

inductive Event where
  | createRoom (roomId : String) (wrapper : Option PipelineWrapper) (now : Nat)
  | connect (user : String) (userId roomId : Option String)
  | connected (user : String) (userId roomId : Option String)
  | disconnect (user : String)
  | offer (user : String) (offer : OfferMessage) (build : Option Endpoint)
  | fireTtl (task : String × Nat) (now : Nat)

def handle (s : Server) : Event → Outcome Server Failure
  | .createRoom roomId wrapper now => s.createRoom roomId wrapper now
  | .connect user userId roomId => s.preSend user userId roomId
  | .connected user userId roomId => s.handleSessionConnectedListener user userId roomId
  | .disconnect user => s.handleSessionDisconnectedListener user
  | .offer user offer build => s.handleOffer user offer build
  | .fireTtl task now => s.fireTtl task now

def step (s : Server) (e : Event) : Server := (handle s e).1

/-- The interceptor only changes what is reported. -/
theorem preSend_fst (s : Server) (user : String) (userId roomId : Option String) :
    (s.preSend user userId roomId).1 = (s.register user userId roomId).1 := by
  unfold Server.preSend
  split <;> simp [*]

/-! ## Parts of the handlers that only tell -/

/-- Clients have been told something, or the sets of the monitoring users have changed, and
everything else is as before. -/
structure Notifies (s s' : Server) : Prop where
  sessions : s'.sessions = s.sessions
  rooms : s'.rooms = s.rooms
  buffers : s'.buffers = s.buffers
  media : s'.media = s.media

theorem Notifies.refl (s : Server) : Notifies s s := ⟨rfl, rfl, rfl, rfl⟩

theorem Notifies.trans {s t u : Server} (h : Notifies s t) (h' : Notifies t u) : Notifies s u :=
  ⟨h'.sessions.trans h.sessions, h'.rooms.trans h.rooms, h'.buffers.trans h.buffers, h'.media.trans h.media⟩

theorem forAll_notifies {α : Type} {f : Server → α → Outcome Server Failure}
    (hf : ∀ s a, Notifies s (f s a).1) (s : Server) (as : List α) : Notifies s (forAll f s as).1 :=
  forAll_invariant (I := Notifies s) f (fun t a h => h.trans (hf t a)) s as (.refl s)

theorem closeRoomCallback_notifies (s : Server) (room : Room) : Notifies s (s.closeRoomCallback room).1 := by
  unfold Server.closeRoomCallback
  refine andThen_invariant (I := Notifies s) _ _ ?_ fun t h => h.trans ⟨rfl, rfl, rfl, rfl⟩
  apply forAll_notifies
  intro t p
  split <;> exact ⟨rfl, rfl, rfl, rfl⟩

theorem closeRooms_notifies (s : Server) (calls : List (RoomRef × Call)) : Notifies s (s.closeRooms calls).1 := by
  apply forAll_notifies
  intro t c
  split
  · exact closeRoomCallback_notifies t _
  · exact .refl t

/-- The close callbacks leave alone what the manager has done. -/
theorem withRooms_notifies (s : Server) (m : RoomManager) : Notifies { s with rooms := m } (s.withRooms m).1 :=
  closeRooms_notifies _ _

theorem notifyLeave_notifies (s : Server) (info : SessionInfo) (p : Participant) :
    Notifies s (s.notifyLeave info p).1 := by
  unfold Server.notifyLeave
  split <;> exact ⟨rfl, rfl, rfl, rfl⟩

theorem leaveConference_notifies (s : Server) (info : SessionInfo) : Notifies s (s.leaveConference info).1 := by
  unfold Server.leaveConference
  split
  · exact .refl s
  · split
    · exact .refl s
    · split
      · exact .refl s
      · have hchat : Notifies s (s.send (.chat info.roomId info.userId "leave")) := ⟨rfl, rfl, rfl, rfl⟩
        exact hchat.trans (forAll_notifies (fun t p => notifyLeave_notifies t info p) _ _)

theorem notifyEnter_notifies (s : Server) (user : String) (info : SessionInfo) (p : Participant) :
    Notifies s (s.notifyEnter user info p).1 := by
  unfold Server.notifyEnter
  split <;> exact ⟨rfl, rfl, rfl, rfl⟩

/-! ## Handlers that keep to the rooms -/

/-- The sessions, the candidate buffers and the calls to Kurento are as before. -/
structure Spares (s s' : Server) : Prop where
  sessions : s'.sessions = s.sessions
  buffers : s'.buffers = s.buffers
  media : s'.media = s.media

theorem Spares.refl (s : Server) : Spares s s := ⟨rfl, rfl, rfl⟩

theorem Spares.trans {s t u : Server} (h : Spares s t) (h' : Spares t u) : Spares s u :=
  ⟨h'.sessions.trans h.sessions, h'.buffers.trans h.buffers, h'.media.trans h.media⟩

theorem Notifies.spares {s s' : Server} (h : Notifies s s') : Spares s s' := ⟨h.sessions, h.buffers, h.media⟩

theorem withRooms_spares (s : Server) (m : RoomManager) : Spares s (s.withRooms m).1 :=
  have hrooms : Spares s { s with rooms := m } := ⟨rfl, rfl, rfl⟩
  hrooms.trans (withRooms_notifies s m).spares

theorem leaveAllRoom_spares (s : Server) (userId : String) : Spares s (s.leaveAllRoom userId).1 := by
  unfold Server.leaveAllRoom
  split
  · exact .refl s
  · exact forAll_invariant (I := Spares s) _ (fun t _ h => h.trans (withRooms_spares t _)) _ _ ⟨rfl, rfl, rfl⟩

theorem createRoom_spares (s : Server) (roomId : String) (wrapper : Option PipelineWrapper) (now : Nat) :
    Spares s (s.createRoom roomId wrapper now).1 := by
  unfold Server.createRoom
  split <;> exact ⟨rfl, rfl, rfl⟩

theorem kurentoDown_spares (s : Server) (order : Traversal RoomRef) (kmsUrl : String) :
    Spares s (s.kurentoDown order kmsUrl).1 :=
  forAll_invariant (I := Spares s) _ (fun t _ h => h.trans (withRooms_spares t _)) _ _ (.refl s)

/-! ## The end of an offer -/

theorem connectPresent_connects (s : Server) (r : RoomRef) (present : Option String) (e : Endpoint) :
    (s.connectPresent r present e).1 = s ∨
      ∃ out, (s.connectPresent r present e).1 = s.callMedia (.connect out e) := by
  unfold Server.connectPresent
  split
  · exact .inl rfl
  · split
    · exact .inl rfl
    · next out _ => exact .inr ⟨out, rfl⟩

/-- Clients have been told something, and endpoints have been connected. -/
structure Concludes (s s' : Server) : Prop where
  sessions : s'.sessions = s.sessions
  rooms : s'.rooms = s.rooms
  buffers : s'.buffers = s.buffers
  media : ∃ connections : List (Endpoint × Endpoint),
    s'.media = s.media ++ connections.map fun p => .connect p.1 p.2

theorem Notifies.concludes {s s' : Server} (h : Notifies s s') : Concludes s s' :=
  ⟨h.sessions, h.rooms, h.buffers, [], h.media.trans (List.append_nil _).symm⟩

theorem conclude_concludes (s : Server) (user : String) (info : SessionInfo) (r : RoomRef)
    (present : Option String) (epType : WebRtcEndpointType) (e : Endpoint) :
    Concludes s (s.conclude user info r present epType e).1 := by
  cases epType with
  | outgoing => exact (forAll_notifies (fun t p => notifyEnter_notifies t user info p) s _).concludes
  | incoming =>
    show Concludes s (s.connectPresent r present e).1
    rcases connectPresent_connects s r present e with h | ⟨out, h⟩
    · rw [h]
      exact (Notifies.refl s).concludes
    · rw [h]
      exact ⟨rfl, rfl, rfl, [(out, e)], rfl⟩
  | customOutgoing => exact (Notifies.refl s).concludes
  | customIncoming => exact (Notifies.refl s).concludes

/-- Once the endpoint is there, an offer stores nothing but the flushed buffer. -/
theorem respond_stores (user : String) (info : SessionInfo) (roomId : String) (r : RoomRef)
    (offer : OfferMessage) (s : Server) (epType : WebRtcEndpointType) (e : Endpoint) :
    (Server.respond user info roomId r offer s epType e).1.rooms = s.rooms ∧
      (Server.respond user info roomId r offer s epType e).1.sessions = s.sessions ∧
      (Server.respond user info roomId r offer s epType e).1.buffers =
        (s.buffers.flushBuffer ⟨some roomId, info.userId, offer.present⟩).1 := by
  have h := conclude_concludes (s.answerOffer user info roomId offer epType e) user info r offer.present epType e
  exact ⟨h.rooms, h.sessions, h.buffers⟩

/-- The offer comes first, then what its buffer had, then the connections. -/
theorem respond_media (user : String) (info : SessionInfo) (roomId : String) (r : RoomRef)
    (offer : OfferMessage) (s : Server) (epType : WebRtcEndpointType) (e : Endpoint) :
    ∃ connections : List (Endpoint × Endpoint),
      (Server.respond user info roomId r offer s epType e).1.media =
        s.media ++ (.processOffer e offer.sdp ::
          (s.buffers.flushBuffer ⟨some roomId, info.userId, offer.present⟩).2.map fun c => .addIceCandidate e c) ++
        connections.map fun p => .connect p.1 p.2 := by
  obtain ⟨connections, hm⟩ := (conclude_concludes (s.answerOffer user info roomId offer epType e) user info r
    offer.present epType e).media
  refine ⟨connections, ?_⟩
  rw [Server.respond, hm]
  simp [Server.answerOffer, Server.callMedia, Server.send]

/-! ## How far an offer gets -/

/-- How `getWebRtcPeerDefaultCreate` came by the endpoint `e`, and what it left behind. -/
inductive Found (s : Server) (r : RoomRef) (userId : String) (offer : OfferMessage)
    (build : Option Endpoint) : Server → WebRtcEndpointType → Endpoint → Prop where
  | outgoing {room : Room} {p : Participant} {e : Endpoint} (hr : s.rooms.heap[r]? = some room)
      (hp : room.userIdParticipants.lookup userId = some p) (htype : offer.type = some .outgoing)
      (he : p.outWebRtcEndpoint = some e) : Found s r userId offer build s .outgoing e
  | incoming {room : Room} {p p' : Participant} {present : String} {e : Endpoint}
      (hr : s.rooms.heap[r]? = some room) (hp : room.userIdParticipants.lookup userId = some p)
      (htype : offer.type = some .incoming) (hpresent : offer.present = some present)
      (he : p.createInEp present build = some (p', e)) :
      Found s r userId offer build (s.putParticipant r p') .incoming e

section
variable {s s' : Server} {r : RoomRef} {userId : String} {offer : OfferMessage}
  {build : Option Endpoint} {epType : WebRtcEndpointType} {e : Endpoint}

theorem Found.spares (h : Found s r userId offer build s' epType e) : Spares s s' := by
  cases h <;> exact ⟨rfl, rfl, rfl⟩

theorem getWebRtcPeerDefaultCreate_found
    (h : s.getWebRtcPeerDefaultCreate r userId offer.type offer.present build = .ok (s', epType, e)) :
    Found s r userId offer build s' epType e := by
  unfold Server.getWebRtcPeerDefaultCreate at h
  split at h
  · cases h
  · next p hp =>
    obtain ⟨room, hr, hp⟩ := Option.bind_eq_some_iff.mp hp
    split at h
    · next htype =>
      split at h
      · cases h
      · next he =>
        cases h
        exact .outgoing hr hp htype he
    · next htype =>
      split at h
      · cases h
      · next present hpresent =>
        split at h
        · cases h
        · next he =>
          cases h
          exact .incoming hr hp htype hpresent he
    · cases h

theorem getWebRtcPeerDefaultCreate_error {present : Option String} {type : Option WebRtcEndpointType}
    {failure : Failure} (h : s.getWebRtcPeerDefaultCreate r userId type present build = .error failure) :
    failure = .nullPointer ∨ failure = .kurento := by
  unfold Server.getWebRtcPeerDefaultCreate at h
  repeat' split at h
  all_goals cases h
  all_goals simp

/-- Without an endpoint the handler ends in an exception, and nothing has changed. -/
theorem withEndpoint_cases (s : Server) (r : RoomRef) (userId : String) (offer : OfferMessage)
    (build : Option Endpoint) (next : Server → WebRtcEndpointType → Endpoint → Outcome Server Failure) :
    (∃ failure, s.withEndpoint r userId offer build next = (s, some failure)) ∨
      ∃ s' epType e, Found s r userId offer build s' epType e ∧
        s.withEndpoint r userId offer build next = next s' epType e := by
  unfold Server.withEndpoint
  split
  · exact .inl ⟨_, rfl⟩
  · next h => exact .inr ⟨_, _, _, getWebRtcPeerDefaultCreate_found h, rfl⟩

end

/-- The offer passes the checks that come before its room, and the room is there. -/
structure ReachesRoom (s : Server) (user : String) (offer : OfferMessage) (info : SessionInfo)
    (roomId : String) (r : RoomRef) : Prop where
  session : s.sessions.findSessionInfo user = some info
  publishes : ¬ (offer.type = some .outgoing ∧ info.ticketType = .monitor)
  present : s.checkPresent offer = none
  room : roomOf info offer.roomId = some roomId
  stored : s.rooms.roomIdRooms.lookup roomId = some r

theorem ReachesRoom.handleOffer {s : Server} {user : String} {offer : OfferMessage} {info : SessionInfo}
    {roomId : String} {r : RoomRef} (h : ReachesRoom s user offer info roomId r) (build : Option Endpoint) :
    s.handleOffer user offer build = s.offerInRoom user info roomId r offer build := by
  simp only [Server.handleOffer, h.session, if_neg h.publishes, h.present, h.room, h.stored]

/-- An offer that is not rejected runs on the room object of its session. -/
theorem handleOffer_cases (s : Server) (user : String) (offer : OfferMessage) (build : Option Endpoint) :
    ((∃ failure, s.handleOffer user offer build = (s, some failure)) ∧
        ∀ info x r, ¬ ReachesRoom s user offer info x r) ∨
      ∃ info x r, ReachesRoom s user offer info x r ∧
        s.handleOffer user offer build = s.offerInRoom user info x r offer build := by
  by_cases hreach : ∃ info x r, ReachesRoom s user offer info x r
  · obtain ⟨info, x, r, h⟩ := hreach
    exact .inr ⟨info, x, r, h, h.handleOffer build⟩
  · refine .inl ⟨?_, fun info x r h => hreach ⟨info, x, r, h⟩⟩
    unfold Server.handleOffer
    split
    · exact ⟨_, rfl⟩
    · next info hinfo =>
      split
      · exact ⟨_, rfl⟩
      · next htype =>
        split
        · exact ⟨_, rfl⟩
        · next hpresent =>
          split
          · exact ⟨_, rfl⟩
          · next x hx =>
            split
            · exact ⟨_, rfl⟩
            · next r hr => exact absurd ⟨info, x, r, hinfo, htype, hpresent, hx, hr⟩ hreach

/-- The offers with which a conference user joins the room. -/
def JoinsFirst (info : SessionInfo) (offer : OfferMessage) : Prop :=
  info.ticketType = .conference ∧ offer.type = some .outgoing

/-- The state in which an offer asks for its endpoint. -/
def Entered (s : Server) (info : SessionInfo) (r : RoomRef) (offer : OfferMessage) (build : Option Endpoint)
    (t : Server) : Prop :=
  (¬ JoinsFirst info offer ∧ t = s) ∨ (JoinsFirst info offer ∧ s.joinConference info r build = (t, none))

theorem joinConference_cases (s : Server) (info : SessionInfo) (r : RoomRef) (build : Option Endpoint) :
    (∃ failure, s.joinConference info r build = (s, some failure)) ∨
      s.joinConference info r build =
        (({ s with rooms := s.rooms.onRoom r fun room => room.call (.join info.userId build) } : Server).send
          (.chat info.roomId info.userId "enter"), none) := by
  unfold Server.joinConference
  split
  · exact .inl ⟨_, rfl⟩
  · exact .inr rfl

theorem Entered.spares {s t : Server} {info : SessionInfo} {r : RoomRef} {offer : OfferMessage}
    {build : Option Endpoint} (h : Entered s info r offer build t) : Spares s t := by
  rcases h with ⟨-, rfl⟩ | ⟨-, hj⟩
  · exact .refl t
  · rcases joinConference_cases s info r build with ⟨failure, hfailed⟩ | hok
    · rw [hfailed] at hj
      cases hj
    · rw [hok] at hj
      cases hj
      exact ⟨rfl, rfl, rfl⟩

theorem Entered.offerInRoom {s t : Server} {info : SessionInfo} {r : RoomRef} {offer : OfferMessage}
    {build : Option Endpoint} (h : Entered s info r offer build t) (user roomId : String) :
    s.offerInRoom user info roomId r offer build =
      t.withEndpoint r info.userId offer build (Server.respond user info roomId r offer) := by
  unfold Server.offerInRoom
  rcases h with ⟨hstays, rfl⟩ | ⟨hjoins, hj⟩
  · rw [if_neg (show ¬ (_ ∧ _) from hstays), andThen_ok]
  · rw [if_pos (show _ ∧ _ from hjoins), hj, andThen_ok]

/-- An offer fails before anything has changed, or it fails after the join, or it gets an
endpoint and is answered. -/
theorem offerInRoom_cases (s : Server) (user : String) (info : SessionInfo) (roomId : String) (r : RoomRef)
    (offer : OfferMessage) (build : Option Endpoint) :
    (∃ failure, s.offerInRoom user info roomId r offer build = (s, some failure)) ∨
      ∃ t, Entered s info r offer build t ∧
        ((∃ failure, s.offerInRoom user info roomId r offer build = (t, some failure)) ∨
          ∃ t' epType e, Found t r info.userId offer build t' epType e ∧
            s.offerInRoom user info roomId r offer build =
              Server.respond user info roomId r offer t' epType e) := by
  have hentered : (∃ failure, s.offerInRoom user info roomId r offer build = (s, some failure)) ∨
      ∃ t, Entered s info r offer build t := by
    by_cases hjoins : JoinsFirst info offer
    · rcases joinConference_cases s info r build with ⟨failure, hj⟩ | hj
      · left
        rw [Server.offerInRoom, if_pos (show _ ∧ _ from hjoins), hj, andThen_failed]
        exact ⟨failure, rfl⟩
      · exact .inr ⟨_, .inr ⟨hjoins, hj⟩⟩
    · exact .inr ⟨s, .inl ⟨hjoins, rfl⟩⟩
  rcases hentered with hfailed | ⟨t, ht⟩
  · exact .inl hfailed
  · refine .inr ⟨t, ht, ?_⟩
    rw [ht.offerInRoom user roomId]
    exact withEndpoint_cases t r info.userId offer build _

end MediaSocket

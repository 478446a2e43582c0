import SpringStudy.ChatInvitations
import SpringStudy.MediaLifetimes

/-!
# Calls of the chat server and rooms of the media server

A request for a call posts its room id to the media server and stores what comes
back in the call; the ticket of a guest is written from the call. The two servers
share nothing else. The answer may be lost on its way, after the room has been
built, and the request is then rolled back on the one side only. As in
`MediaMessages`, a message or a TTL task of the media server is one step.
-/
namespace CallRooms

open Tables Runs ChatStore
open ChatCallFlow hiding Event step handle
open ChatInvitations (handleAcceptCall_invariant handleRequestCall_ok lookup_calls_commitRequest)
open MediaMessages (Media)
open MediaRoom (Room)
open MediaRoomManager (RoomManager RoomRef PipelineWrapper CalledBack)
open MediaActs (Persists step_persists ordinary)
open MediaLifetimes (Conferring step_conferring init_conferring)

/-- The two servers. `serverName` is the name of the media server in its properties. -/
structure World where
  chat : Chat
  media : Media
  serverName : String

/-- What a request for a call does not choose itself. Each server has its own clock. -/
structure Request where
  roomId : String
  uuid : String
  now : Nat
  /-- The pipeline that Kurento hands out, if the room has to be built. -/
  wrapper : Option PipelineWrapper
  mediaNow : Nat
  /-- The answer of the media server arrives. -/
  arrives : Bool

inductive Event where
  /-- A request among these does not reach the media server. -/
  | chat (e : ChatCallFlow.Event)
  | media (e : MediaMessages.Event)
  | requestCall (principal : String) (request : Request)

/-- `handleRequestCall` comes as far as the REST call. -/
def asksMedia (s : Chat) (principal : String) : Bool :=
  match s.findByPrincipalName principal with
  | none => false
  | some session => session.isHost && (s.users.lookup session.userId).isSome

/-- The `RoomResponse` for the room that the map holds under the id. -/
def roomResponse (serverName : String) (m : RoomManager) (roomId : String) : Option CreateRoomResponse :=
  ((m.roomIdRooms.lookup roomId).bind fun r => m.heap[r]?).map fun room =>
    ⟨some room.kurentoUrl, some serverName⟩

/-- `MultimediaClient.createRoom`: an exception of the media server is a 500, on which
the client throws. -/
def createRoom (w : World) (request : Request) : Media × Option ClientResponse :=
  let e := MediaMessages.Event.createRoom request.roomId request.wrapper request.mediaNow
  let media := MediaMessages.step w.media e
  (media,
    if (MediaMessages.handle w.media e).2 = none ∧ request.arrives = true then
      some ⟨200, some 200, roomResponse w.serverName media.server.rooms request.roomId⟩
    else none)

def Request.input (request : Request) (response : Option ClientResponse) : RequestInput :=
  ⟨request.roomId, response, request.uuid, request.now⟩

/-- A request that does not reach the media server is answered by an exception of the client. -/
def unanswered : ChatCallFlow.Event → ChatCallFlow.Event
  | .requestCall principal input => .requestCall principal { input with response := none }
  | e => e

/-- The request, and the REST call that it makes once it has found the host. -/
def requestCall (w : World) (principal : String) (request : Request) : World :=
  if asksMedia w.chat principal then
    let q := createRoom w request
    { w with
      media := q.1
      chat := ChatCallFlow.step w.chat (.requestCall principal (request.input q.2)) }
  else { w with chat := ChatCallFlow.step w.chat (.requestCall principal (request.input none)) }

def step (w : World) : Event → World
  | .chat e => { w with chat := ChatCallFlow.step w.chat (unanswered e) }
  | .media e => { w with media := MediaMessages.step w.media e }
  | .requestCall principal request => requestCall w principal request

def World.init (chatName mediaName : String) (inviteKeyTtl roomDeleteTtl : Nat) : World :=
  ⟨.init chatName inviteKeyTtl, .init roomDeleteTtl, mediaName⟩

/-! ## The chat server -/

/-- `good` holds of the room id and the two servers of every call and of every ticket sent. -/
structure Vouched (good : String → Option String → Option String → Prop) (s : Chat) : Prop where
  calls : ∀ id call, s.calls.lookup id = some call → good id call.multiMediaServer call.mediaServer
  tickets : ∀ principal ticket, .ticket principal ticket ∈ s.sent →
    good ticket.roomId ticket.multiMediaServer ticket.mediaServer

section
variable {good : String → Option String → Option String → Prop} {s t : Chat}

theorem Vouched.of_eq (h : Vouched good s) (hcalls : t.calls = s.calls) (hsent : t.sent = s.sent) :
    Vouched good t :=
  ⟨by rw [hcalls]; exact h.calls, by rw [hsent]; exact h.tickets⟩

/-- Other messages than tickets say nothing about rooms. -/
theorem Vouched.send (h : Vouched good s) {msg : Notification} (hmsg : ∀ principal ticket, msg ≠ .ticket principal ticket)
    (hcalls : t.calls = s.calls) (hsent : t.sent = s.sent ++ [msg]) : Vouched good t := by
  refine ⟨by rw [hcalls]; exact h.calls, fun principal ticket hm => ?_⟩
  rw [hsent, List.mem_append] at hm
  rcases hm with hm | hm
  · exact h.tickets principal ticket hm
  · exact absurd (List.mem_singleton.mp hm).symm (hmsg principal ticket)

/-- The ticket is written from the call of its room id. -/
theorem joinCall_vouched (h : Vouched good s) (principal : String) (guest : SessionCache)
    (hostId callId : String) : Vouched good (joinCall s principal guest hostId callId).1 := by
  unfold joinCall
  dsimp only
  split
  · exact h.of_eq rfl rfl
  · next call hcall =>
    refine ⟨h.calls, fun p ticket hm => ?_⟩
    rcases List.mem_append.mp hm with hm | hm
    · exact h.tickets p ticket hm
    · obtain ⟨-, rfl⟩ := Notification.ticket.inj (List.mem_singleton.mp hm)
      exact h.calls callId call hcall

theorem fireTtl_vouched (h : Vouched good s) (task : String × Nat) (now : Nat) :
    Vouched good (s.fireTtl task now).1 := by
  simp only [Chat.fireTtl]
  split
  · exact h.of_eq rfl rfl
  · unfold Chat.expireKey
    split
    · exact h.of_eq rfl rfl
    · dsimp only
      split
      · exact h.of_eq rfl rfl
      · split
        · exact h.of_eq rfl rfl
        · split
          · exact h.of_eq rfl rfl
          · exact h.send (fun _ _ hc => by cases hc) rfl rfl

theorem addSession_vouched (h : Vouched good s) (user : String) (authorization : Option String) :
    Vouched good (s.addSession user authorization).1 := by
  unfold Chat.addSession
  split
  · exact h
  · split
    · exact h.of_eq rfl rfl
    · exact h

theorem subscribe_vouched (h : Vouched good s) (user : String) :
    Vouched good (s.handleSessionSubscribeListener user).1 := by
  unfold Chat.handleSessionSubscribeListener
  split
  · exact h
  · split
    · exact h.of_eq rfl rfl
    · exact h

theorem requestCall_vouched (h : Vouched good s) (principal : String) (input : RequestInput)
    (hgood : ∀ room, checkResponse input.response = .ok room →
      good input.roomId room.multiMediaServer room.mediaServer) :
    Vouched good (ChatCallFlow.step s (.requestCall principal input)) := by
  simp only [ChatCallFlow.step, ChatCallFlow.handle]
  cases hreq : handleRequestCall s principal input with
  | error _ => exact h
  | ok t =>
    obtain ⟨session, host, room, -, hroom, rfl⟩ := handleRequestCall_ok s t principal input hreq
    refine ⟨fun id call hcall => ?_, fun p ticket hm => ?_⟩
    · dsimp only at hcall
      rw [lookup_calls_commitRequest] at hcall
      split at hcall
      · next hid =>
        obtain rfl := Option.some.inj hcall
        rw [hid]
        exact hgood room hroom
      · exact h.calls id call hcall
    · rcases List.mem_append.mp hm with hm | hm
      · exact h.tickets p ticket hm
      · cases List.mem_singleton.mp hm

/-- Only the answer to a request brings in a new room. -/
theorem chat_vouched (h : Vouched good s) (e : ChatCallFlow.Event) :
    Vouched good (ChatCallFlow.step s (unanswered e)) := by
  cases e with
  | connect principal authorization => exact addSession_vouched h principal authorization
  | disconnect principal =>
    show Vouched good (s.removeSession principal)
    unfold Chat.removeSession
    split
    · exact h
    · exact h.of_eq rfl rfl
  | subscribe principal => exact subscribe_vouched h principal
  | requestCall principal input => exact requestCall_vouched h principal _ fun room hroom => by cases hroom
  | acceptCall principal message now =>
    refine handleAcceptCall_invariant (P := Vouched good) ?_ ?_ ?_ s principal message now h
    · exact fun t k now ht => ht.of_eq (ChatAccept.useInviteKey_calls t k now) (ChatAccept.useInviteKey_sent t k now)
    · exact fun t principal guest hostId callId ht => joinCall_vouched ht principal guest hostId callId
    · exact fun t host guest k ht => ht.send (fun _ _ hc => by cases hc) rfl rfl
  | sessionAll => exact h.of_eq rfl rfl
  | fireTtl task now => exact fireTtl_vouched h task now

theorem Vouched.mono {good' : String → Option String → Option String → Prop} (h : Vouched good s)
    (himp : ∀ id multiMediaServer mediaServer, good id multiMediaServer mediaServer →
      good' id multiMediaServer mediaServer) : Vouched good' s :=
  ⟨fun id call hcall => himp _ _ _ (h.calls id call hcall), fun p t hm => himp _ _ _ (h.tickets p t hm)⟩

end

/-! ## The media server -/

/-- A room with that id was built on that Kurento server, by the media server of that name. -/
def Built (serverName : String) (m : RoomManager) (id : String) (multiMediaServer mediaServer : Option String) :
    Prop :=
  ∃ (r : RoomRef) (room : Room), m.heap[r]? = some room ∧ room.roomId = id ∧
    multiMediaServer = some serverName ∧ mediaServer = some room.kurentoUrl

theorem Built.persists {serverName id : String} {m m' : RoomManager} {multiMediaServer mediaServer : Option String}
    (h : Built serverName m id multiMediaServer mediaServer) (hrooms : Persists m m') :
    Built serverName m' id multiMediaServer mediaServer := by
  obtain ⟨r, room, hr, hid, hserver, hurl⟩ := h
  obtain ⟨room', hr', hsame⟩ := hrooms r room hr
  exact ⟨r, room', hr', (congrArg Room.roomId hsame).trans hid, hserver,
    hurl.trans (congrArg (fun room : Room => some room.kurentoUrl) hsame).symm⟩

/-- What passes the checks of the chat server is the answer of the media server. -/
theorem createRoom_response {w : World} {request : Request} {room : CreateRoomResponse}
    (h : checkResponse (createRoom w request).2 = .ok room) :
    roomResponse w.serverName (createRoom w request).1.server.rooms request.roomId = some room := by
  unfold createRoom at h ⊢
  dsimp only at h ⊢
  split at h
  · generalize roomResponse w.serverName _ request.roomId = response at h ⊢
    cases response with
    | none => cases h
    | some room' =>
      cases h
      rfl
  · cases h

theorem roomResponse_eq_some {serverName roomId : String} {m : RoomManager} {response : CreateRoomResponse}
    (h : roomResponse serverName m roomId = some response) :
    ∃ (r : RoomRef) (room : Room), m.roomIdRooms.lookup roomId = some r ∧ m.heap[r]? = some room ∧
      response = ⟨some room.kurentoUrl, some serverName⟩ := by
  obtain ⟨room, hroom, rfl⟩ := Option.map_eq_some_iff.mp h
  obtain ⟨r, hx, hr⟩ := Option.bind_eq_some_iff.mp hroom
  exact ⟨r, room, hx, hr, rfl⟩

/-- The rooms of the media server are in order, and the chat server names only what was built. -/
structure Agreed (w : World) : Prop where
  inv : MediaRoomManager.Inv w.media.server.rooms
  vouched : Vouched (Built w.serverName w.media.server.rooms) w.chat

theorem requestCall_agreed (w : World) (principal : String) (request : Request) (h : Agreed w) :
    Agreed (requestCall w principal request) := by
  unfold requestCall
  split
  · have hinv : MediaRoomManager.Inv (createRoom w request).1.server.rooms :=
      MediaActs.step_inv w.media _ h.inv
    have hvouched : Vouched (Built w.serverName (createRoom w request).1.server.rooms) w.chat :=
      h.vouched.mono fun _ _ _ hb => hb.persists (step_persists w.media _)
    refine ⟨hinv, requestCall_vouched hvouched principal _ fun room hroom => ?_⟩
    obtain ⟨r, room', hx, hr, rfl⟩ := roomResponse_eq_some (createRoom_response hroom)
    obtain ⟨room'', hr', hid⟩ := hinv.stored request.roomId r hx
    obtain rfl := Option.some.inj (hr.symm.trans hr')
    exact ⟨r, room', hr, hid, rfl, rfl⟩
  · exact ⟨h.inv, requestCall_vouched h.vouched principal _ fun room hroom => by cases hroom⟩

theorem step_agreed (w : World) (e : Event) (h : Agreed w) : Agreed (step w e) := by
  cases e with
  | chat e => exact ⟨h.inv, chat_vouched h.vouched e⟩
  | media e =>
    refine ⟨MediaActs.step_inv w.media e h.inv, h.vouched.mono fun _ _ _ hb => ?_⟩
    exact hb.persists (step_persists w.media e)
  | requestCall principal request => exact requestCall_agreed w principal request h

theorem run_agreed (chatName mediaName : String) (inviteKeyTtl roomDeleteTtl : Nat) (events : List Event) :
    Agreed (run step (World.init chatName mediaName inviteKeyTtl roomDeleteTtl) events) := by
  refine run_invariant step_agreed _ events ⟨MediaRoomManager.init_inv roomDeleteTtl, ?_, ?_⟩
  · intro id call hcall
    cases hcall
  · intro principal ticket hm
    cases hm

theorem step_serverName (w : World) (e : Event) : (step w e).serverName = w.serverName := by
  cases e with
  | chat e => rfl
  | media e => rfl
  | requestCall principal request =>
    show (requestCall w principal request).serverName = w.serverName
    unfold requestCall
    split <;> rfl

/-! ## Whole runs of the two servers -/

/-- Whatever is lost between the servers, every call that the chat server stores and every
ticket it sends names a room that the media server has built under this id, the Kurento
server it was built on, and the media server itself. -/
theorem run_names_built_rooms (chatName mediaName : String) (inviteKeyTtl roomDeleteTtl : Nat)
    (events : List Event) :
    let w := run step (World.init chatName mediaName inviteKeyTtl roomDeleteTtl) events
    (∀ id call, w.chat.calls.lookup id = some call →
      ∃ (r : RoomRef) (room : Room), w.media.server.rooms.heap[r]? = some room ∧ room.roomId = id ∧
        call.multiMediaServer = some mediaName ∧ call.mediaServer = some room.kurentoUrl) ∧
      ∀ principal ticket, .ticket principal ticket ∈ w.chat.sent →
        ∃ (r : RoomRef) (room : Room), w.media.server.rooms.heap[r]? = some room ∧
          room.roomId = ticket.roomId ∧ ticket.multiMediaServer = some mediaName ∧
          ticket.mediaServer = some room.kurentoUrl := by
  intro w
  have hagreed : Agreed w := run_agreed chatName mediaName inviteKeyTtl roomDeleteTtl events
  have hname : w.serverName = mediaName :=
    run_invariant (I := fun w : World => w.serverName = mediaName)
      (fun w e h => (step_serverName w e).trans h) _ events rfl
  rw [← hname]
  exact ⟨hagreed.vouched.calls, hagreed.vouched.tickets⟩

/-- The media server sees nothing but what the source brings about. -/
def ordinaryMedia : Event → Bool
  | .media e => ordinary e
  | .chat _ => true
  | .requestCall _ _ => true

theorem step_conferring_media (w : World) (e : Event) (he : ordinaryMedia e = true)
    (h : Conferring w.media) : Conferring (step w e).media := by
  cases e with
  | chat e => exact h
  | media e => exact (step_conferring w.media e he h).1
  | requestCall principal request =>
    show Conferring (requestCall w principal request).media
    unfold requestCall
    split
    · exact (step_conferring w.media _ rfl h).1
    · exact h

/-- With conference users only, and with messages and TTL tasks that are not interrupted, a
ticket leads into a room: the one it names is under its id in the map of the media server
from the moment somebody is in it. -/
theorem ticket_room_open (chatName mediaName : String) (inviteKeyTtl roomDeleteTtl : Nat) (events : List Event)
    (hevents : ∀ e ∈ events, ordinaryMedia e = true) (principal : String) (ticket : Ticket)
    (hticket : .ticket principal ticket ∈
      (run step (World.init chatName mediaName inviteKeyTtl roomDeleteTtl) events).chat.sent) :
    let m := (run step (World.init chatName mediaName inviteKeyTtl roomDeleteTtl) events).media.server.rooms
    ∃ (r : RoomRef) (room : Room), m.heap[r]? = some room ∧ room.roomId = ticket.roomId ∧
      ticket.mediaServer = some room.kurentoUrl ∧
      ∀ u p, room.findParticipant u = some p → m.roomIdRooms.lookup ticket.roomId = some r := by
  intro m
  obtain ⟨r, room, hr, hid, -, hurl⟩ :=
    (run_agreed chatName mediaName inviteKeyTtl roomDeleteTtl events).vouched.tickets principal ticket hticket
  have hconferring : Conferring (run step (World.init chatName mediaName inviteKeyTtl roomDeleteTtl) events).media := by
    refine run_invariant_of_mem (I := fun w : World => Conferring w.media) ?_ _ (init_conferring roomDeleteTtl)
    exact fun w e hmem h => step_conferring_media w e (hevents e hmem) h
  refine ⟨r, room, hr, hid, hurl, fun u p hp => ?_⟩
  have hjoined : CalledBack m r := by
    by_contra hnot
    rw [Room.findParticipant, hconferring.peopled.empty r room hr hnot] at hp
    cases hp
  obtain ⟨room', hr', hlisted⟩ := hconferring.peopled.listed r hjoined
  obtain rfl := Option.some.inj (hr.symm.trans hr')
  exact hid ▸ hlisted

/-- A host requests a call and joins its room; a guest accepts the invitation. -/
def acceptedCall : List Event :=
  [.chat (.connect "stomp-1" (some "kim/1")), .chat (.subscribe "stomp-1"),
    .requestCall "stomp-1" ⟨"call-1", "0a", 10, some ⟨"kms", some 7⟩, 20, true⟩,
    .media (.connect "ws-1" (some "kim") (some "call-1")),
    .media (.offer "ws-1" ⟨none, some .outgoing, none, "sdp"⟩ true),
    .chat (.connect "stomp-2" (some "lee/0")),
    .chat (.acceptCall "stomp-2" ⟨some "kim//0a", true⟩ 30)]

theorem ticket_room_open_accepted :
    let m := (run step (World.init "chat" "media" 60000 30) acceptedCall).media.server.rooms
    ∃ (r : RoomRef) (room : Room), m.heap[r]? = some room ∧ room.roomId = "call-1" ∧
      some "kms" = some room.kurentoUrl ∧
      ∀ u p, room.findParticipant u = some p → m.roomIdRooms.lookup "call-1" = some r :=
  ticket_room_open "chat" "media" 60000 30 acceptedCall (by decide) "stomp-2"
    ⟨some "media", some "kms", "call-1"⟩ (by decide)

end CallRooms

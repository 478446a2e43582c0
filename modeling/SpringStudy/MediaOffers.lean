import SpringStudy.MediaEndpoints
import SpringStudy.MediaPublishers

/-!
# Offers that fail

`handleOffer` makes its checks in several places. Most come before anything has
changed; but whether the present user of an INCOMING offer publishes, and
whether the other publishers of an OUTGOING offer have sessions, shows only
after the endpoint was made, the offer answered and the candidate buffer
flushed. What an offer must find for the rooms and the buffers to stay as they
were is said here exactly.
-/
namespace MediaOffers

open Tables Outcomes Runs TtlCaches MediaRoom MediaBuffer MediaMessages
open MediaRoomManager hiding Event step
open MediaSession hiding Event step
open MediaSocket hiding Event step handle
open MediaEndpoints (handleCandidate_cases putParticipant_heap handleRecord_notifies handleChat_notifies
  handleData_notifies)
open MediaPublishers (createInEp_fields)

/-! ## What every step keeps of every room -/

/-- A property of rooms that the methods called for conference users do not break. -/
structure Joining (I : Room → Prop) : Prop where
  new : ∀ roomId url pipeline, I (newRoom roomId url pipeline)
  join : ∀ room userId build, I room → I (room.call (.join userId build)).1
  release : ∀ room, I room → I (room.call .release).1
  createInEp : ∀ room userId p present build p' e, I room →
    room.userIdParticipants.lookup userId = some p → p.createInEp present build = some (p', e) →
    I { room with userIdParticipants := room.userIdParticipants.insert p'.userId p' }

/-- Those called for monitoring users do not break it either. -/
structure Lasting (I : Room → Prop) : Prop extends Joining I where
  joinWithOnlyIncoming : ∀ room userId, I room → I (room.call (.joinWithOnlyIncoming userId)).1
  leave : ∀ room userId, I room → I (room.call (.leave userId)).1

theorem Lasting.call {I : Room → Prop} (hI : Lasting I) (room : Room) (op : RoomOp) (h : I room) :
    I (room.call op).1 := by
  cases op with
  | join userId build => exact hI.join room userId build h
  | joinWithOnlyIncoming userId => exact hI.joinWithOnlyIncoming room userId h
  | leave userId => exact hI.leave room userId h
  | release => exact hI.release room h

def AllRooms (I : Room → Prop) (m : RoomManager) : Prop :=
  ∀ (r : RoomRef) (room : Room), m.heap[r]? = some room → I room

section

variable {I : Room → Prop}

theorem onRoom_allRooms {m : RoomManager} (h : AllRooms I m) (r : RoomRef) {f : Room → Room × List Call}
    (hf : ∀ room, m.heap[r]? = some room → I room → I (f room).1) : AllRooms I (m.onRoom r f) := by
  cases hr : m.heap[r]? with
  | none =>
    simp only [RoomManager.onRoom, hr]
    exact h
  | some room =>
    intro r' room' hr'
    rw [onRoom_heap hr] at hr'
    rcases set_cases hr' with ⟨-, rfl⟩ | ⟨-, hold⟩
    · exact hf room hr (h r room hr)
    · exact h r' room' hold

theorem handleRoom_allRooms (hI : Lasting I) {m : RoomManager} (h : AllRooms I m) (roomId : String)
    (op : RoomOp) : AllRooms I (m.handleRoom roomId op) := by
  unfold RoomManager.handleRoom
  split
  · exact h
  · exact onRoom_allRooms h _ fun room _ => hI.call room op

theorem fireTtl_allRooms (hI : Joining I) {m : RoomManager} (h : AllRooms I m) (task : String × Nat)
    (now : Nat) : AllRooms I (m.fireTtl task now) := by
  unfold RoomManager.fireTtl
  dsimp only
  split
  · exact h
  · refine onRoom_allRooms ?_ _ ?_
    · exact h
    · exact fun room _ => hI.release room

theorem withRooms_allRooms (s : Server) {m : RoomManager} (h : AllRooms I m) :
    AllRooms I (s.withRooms m).1.rooms := by
  rw [(withRooms_notifies s m).rooms]
  exact h

theorem kurentoDown_allRooms {s : Server} (h : AllRooms I s.rooms) (order : Traversal RoomRef) (kmsUrl : String) :
    AllRooms I (s.kurentoDown order kmsUrl).1.rooms := by
  refine forAll_invariant (I := fun t : Server => AllRooms I t.rooms) _ ?_ _ _ h
  exact fun t r ht => withRooms_allRooms t (onRoom_allRooms ht r fun _ _ hroom => hroom)

theorem leaveAllRoom_allRooms (hI : Lasting I) {s : Server} (h : AllRooms I s.rooms) (userId : String) :
    AllRooms I (s.leaveAllRoom userId).1.rooms := by
  unfold Server.leaveAllRoom
  split
  · exact h
  · refine forAll_invariant (I := fun t : Server => AllRooms I t.rooms) _ ?_ _ _ h
    exact fun t roomId ht => withRooms_allRooms t (handleRoom_allRooms hI ht roomId _)

theorem unregister_allRooms (hI : Lasting I) {s : Server} (h : AllRooms I s.rooms) (user : String) :
    AllRooms I (s.unregister user).1.rooms := by
  unfold Server.unregister
  split
  · exact h
  · unfold Server.handleLeave
    dsimp only
    split
    · refine leaveAllRoom_allRooms hI ?_ _
      exact h
    · rw [(leaveConference_notifies _ _).rooms]
      exact h

theorem handleMonitor_allRooms (hI : Lasting I) {s : Server} (h : AllRooms I s.rooms) (user : String)
    (message : MonitorMessage) : AllRooms I (handleMonitor s user message).1.rooms := by
  unfold handleMonitor
  split
  · exact h
  · rename_i info _
    split
    · split
      · exact withRooms_allRooms _ (handleRoom_allRooms hI h _ _)
      · unfold MediaMonitor.joinRoom
        dsimp only
        split
        · exact h
        · have hjoin : AllRooms I ((MediaMonitor.addRoom s info.userId message.roomId).rooms.handleRoom
              message.roomId (.joinWithOnlyIncoming info.userId)) := handleRoom_allRooms hI h _ _
          split
          · exact hjoin
          · rw [(MediaMonitor.notifyPublishers_notifies _ user _).rooms]
            exact hjoin
    · exact h

theorem found_allRooms (hI : Joining I) {s s' : Server} {r : RoomRef} {userId : String}
    {offer : OfferMessage} {build : Option Endpoint} {epType : WebRtcEndpointType} {e : Endpoint}
    (hfound : Found s r userId offer build s' epType e) (h : AllRooms I s.rooms) :
    AllRooms I s'.rooms := by
  cases hfound with
  | outgoing _ _ _ _ => exact h
  | incoming hr hp _ _ he =>
    refine onRoom_allRooms h r ?_
    intro room hroom hi
    obtain rfl := Option.some.inj (hr.symm.trans hroom)
    exact hI.createInEp _ _ _ _ _ _ _ hi hp he

theorem joinConference_allRooms (hI : Joining I) {s : Server} (h : AllRooms I s.rooms) (info : SessionInfo)
    (r : RoomRef) (build : Option Endpoint) : AllRooms I (s.joinConference info r build).1.rooms := by
  unfold Server.joinConference
  split
  · exact h
  · exact onRoom_allRooms h r fun room _ => hI.join room info.userId build

theorem entered_allRooms (hI : Joining I) {s t : Server} {info : SessionInfo} {r : RoomRef}
    {offer : OfferMessage} {build : Option Endpoint} (ht : Entered s info r offer build t)
    (h : AllRooms I s.rooms) : AllRooms I t.rooms := by
  rcases ht with ⟨-, rfl⟩ | ⟨-, hj⟩
  · exact h
  · have hjoined := joinConference_allRooms hI h info r build
    rw [hj] at hjoined
    exact hjoined

theorem handleOffer_allRooms (hI : Joining I) {s : Server} (h : AllRooms I s.rooms) (user : String)
    (offer : OfferMessage) (build : Option Endpoint) :
    AllRooms I (s.handleOffer user offer build).1.rooms := by
  rcases handleOffer_cases s user offer build with ⟨⟨failure, he⟩, -⟩ | ⟨info, x, r, -, he⟩
  · rw [he]
    exact h
  · rw [he]
    rcases offerInRoom_cases s user info x r offer build with
      ⟨failure, ho⟩ | ⟨t, ht, ⟨failure, ho⟩ | ⟨t', epType, e, hfound, ho⟩⟩
    · rw [ho]
      exact h
    · rw [ho]
      exact entered_allRooms hI ht h
    · rw [ho, (respond_stores user info x r offer t' epType e).1]
      exact found_allRooms hI hfound (entered_allRooms hI ht h)

theorem createRoom_allRooms (hI : Joining I) {s : Server} (h : AllRooms I s.rooms) (roomId : String)
    (wrapper : Option PipelineWrapper) (now : Nat) : AllRooms I (s.createRoom roomId wrapper now).1.rooms := by
  unfold Server.createRoom
  cases hc : s.rooms.createRoom roomId wrapper now with
  | none => exact h
  | some m =>
    rcases createRoom_cases hc with rfl | ⟨url, pipeline, -, -, rfl⟩
    · exact h
    · intro r room hr
      rcases append_cases hr with hr | rfl
      · exact h r room hr
      · exact hI.new roomId url pipeline

theorem step_allRooms (hI : Lasting I) (s : Media) (e : Event) (h : AllRooms I s.server.rooms) :
    AllRooms I (step s e).server.rooms := by
  cases e with
  | createRoom roomId wrapper now => exact createRoom_allRooms hI.toJoining h roomId wrapper now
  | connect user userId roomId =>
    show AllRooms I (s.server.preSend user userId roomId).1.rooms
    rw [preSend_fst]
    exact h
  | connected user userId roomId =>
    exact andThen_invariant (I := fun t : Server => AllRooms I t.rooms) _ _
      (unregister_allRooms hI h user) fun _ ht => ht
  | disconnect user => exact unregister_allRooms hI h user
  | registerMonitor user userId =>
    show AllRooms I (registerMonitor s.server user userId).1.rooms
    unfold registerMonitor
    split
    · exact h
    · exact h
  | fireTtl task now => exact withRooms_allRooms s.server (fireTtl_allRooms hI.toJoining h task now)
  | kurentoDown order kmsUrl => exact kurentoDown_allRooms h order kmsUrl
  | monitor user message => exact handleMonitor_allRooms hI h user message
  | offer user offer kurento => exact handleOffer_allRooms hI.toJoining h user offer _
  | candidate user message kurento =>
    show AllRooms I (handleCandidate s.server user message (s.build kurento)).1.rooms
    rcases handleCandidate_cases s.server user message (s.build kurento) with
      ⟨-, he⟩ | ⟨info, -, he | ⟨x, r, s', epType, e, -, -, -, hfound, he⟩⟩
    · rw [he]
      exact h
    · rw [he]
      exact h
    · have hs' : AllRooms I s'.rooms := found_allRooms hI.toJoining hfound h
      rw [he]
      exact hs'
  | record user isAgent type =>
    show AllRooms I (handleRecord s.server user isAgent type).1.rooms
    rw [(handleRecord_notifies s.server user isAgent type).rooms]
    exact h
  | chat user message =>
    show AllRooms I (handleChat s.server user message).1.rooms
    rw [(handleChat_notifies s.server user message).rooms]
    exact h
  | data user message =>
    show AllRooms I (handleData s.server user message).1.rooms
    rw [(handleData_notifies s.server user message).rooms]
    exact h

theorem run_allRooms (hI : Lasting I) (roomDeleteTtl : Nat) (events : List Event) :
    AllRooms I (run step (Media.init roomDeleteTtl) events).server.rooms :=
  run_invariant (I := fun s : Media => AllRooms I s.server.rooms) (step_allRooms hI) _ events
    (by intro r room hr; cases hr)

end

/-! ## Participants are stored under their own user id -/

def Keyed (room : Room) : Prop := ∀ u p, room.userIdParticipants.lookup u = some p → p.userId = u

theorem leave_keyed {room : Room} (h : Keyed room) (userId : String) : Keyed (room.leave userId).1 := by
  intro u p hp
  obtain ⟨q, hq, rfl⟩ := leave_lookup hp
  exact h u q hq

theorem insert_keyed {room : Room} (h : Keyed room) (p : Participant) :
    Keyed { room with userIdParticipants := room.userIdParticipants.insert p.userId p } := by
  intro u q hq
  dsimp only at hq
  rw [lookup_put] at hq
  split at hq
  · rename_i hu
    obtain rfl := Option.some.inj hq
    exact hu.symm
  · exact h u q hq

theorem keyed_lasting : Lasting Keyed where
  new _ _ _ u p hp := by cases hp
  join := by
    intro room userId build h
    simp only [Room.call, Room.join]
    split
    · exact h
    · exact h
    · rename_i e _
      exact insert_keyed h ⟨userId, some e, ∅⟩
  release := by
    intro room h
    rw [Room.call, Room.release_fst]
    intro u p hp
    cases hp
  createInEp _ _ _ _ _ p' _ h _ _ := insert_keyed h p'
  joinWithOnlyIncoming := by
    intro room userId h
    simp only [Room.call, Room.joinWithOnlyIncoming]
    split
    · exact h
    · exact insert_keyed h ⟨userId, none, ∅⟩
  leave _ userId h := leave_keyed h userId

/-! ## What an offer leaves as it was -/

/-- The participants of every room object with their endpoints, the rooms under their ids and
the TTL entries are as before. -/
structure KeptRooms (m m' : RoomManager) : Prop where
  participants : ∀ (r : RoomRef) (u : String),
    ((m'.heap[r]?).bind fun room => room.findParticipant u) = (m.heap[r]?).bind fun room => room.findParticipant u
  rooms : ∀ x, m'.roomIdRooms.lookup x = m.roomIdRooms.lookup x
  ttl : ∀ x, m'.roomTtl.cache.lookup x = m.roomTtl.cache.lookup x ∧
    m'.roomTtl.expirationTimes.lookup x = m.roomTtl.expirationTimes.lookup x

/-- So are all candidate buffers. -/
structure Kept (s s' : Server) : Prop where
  rooms : KeptRooms s.rooms s'.rooms
  buffers : ∀ key, s'.buffers.bufferMap.lookup key = s.buffers.bufferMap.lookup key

theorem KeptRooms.refl (m : RoomManager) : KeptRooms m m := ⟨fun _ _ => rfl, fun _ => rfl, fun _ => ⟨rfl, rfl⟩⟩

theorem Kept.refl (s : Server) : Kept s s := ⟨.refl s.rooms, fun _ => rfl⟩

/-- The room id has no TTL entry. -/
def Untimed (m : RoomManager) (x : String) : Prop :=
  m.roomTtl.cache.lookup x = none ∧ m.roomTtl.expirationTimes.lookup x = none

/-- The buffer of the key has been flushed before, and nothing is in it. -/
def Flushed (m : BufferManger) (key : BufferKey) : Prop :=
  ∃ b, m.bufferMap.lookup key = some b ∧ b.flush = true ∧ b.buffer = []

/-- What an offer that has got to its room must find there to leave it alone. A user who is
to join may not get an endpoint; one who has joined already joins again, which cancels the TTL
entry; and an endpoint that is there is answered, so that the buffer is flushed. An offer of
another type, or to receive without being in the room, finds no endpoint. -/
def SparedIn (s : Server) (info : SessionInfo) (roomId : String) (room : Room) (offer : OfferMessage)
    (build : Option Endpoint) : Prop :=
  match offer.type, room.findParticipant info.userId with
  | some .outgoing, none => build = none
  | some .outgoing, some p => Untimed s.rooms roomId ∧
      (p.outWebRtcEndpoint.isSome = true → Flushed s.buffers ⟨some roomId, info.userId, offer.present⟩)
  | some .incoming, some p => ∀ present, offer.present = some present →
      match p.presentInWebRtcPeer.lookup present with
      | none => build = none
      | some _ => Flushed s.buffers ⟨some roomId, info.userId, offer.present⟩
  | _, _ => True

/-- An offer that is rejected before its room is looked at has nothing to find. -/
def Spared (s : Server) (user : String) (offer : OfferMessage) (build : Option Endpoint) : Prop :=
  ∀ info roomId r room, ReachesRoom s user offer info roomId r → s.rooms.heap[r]? = some room →
    SparedIn s info roomId room offer build

theorem flushBuffer_kept_iff (m : BufferManger) (key : BufferKey) :
    (∀ k, (m.flushBuffer key).1.bufferMap.lookup k = m.bufferMap.lookup k) ↔ Flushed m key := by
  constructor
  · intro h
    have hkey := (h key).symm.trans (lookup_flushBuffer m key)
    exact ⟨_, hkey, rfl, rfl⟩
  · rintro ⟨b, hb, hflush, hnone⟩ k
    by_cases hk : k = key
    · rw [hk, lookup_flushBuffer, hb, getCandidateBuffer_present hb]
      cases b
      cases hflush
      cases hnone
      rfl
    · exact flushBuffer_others m key k hk

section
variable {s t : Server} {user roomId : String} {info : SessionInfo} {r : RoomRef} {room : Room}
  {offer : OfferMessage} {build : Option Endpoint} {p : Participant}

theorem respond_kept_iff (hbuffers : t.buffers = s.buffers) (epType : WebRtcEndpointType) (e : Endpoint) :
    Kept s (Server.respond user info roomId r offer t epType e).1 ↔
      KeptRooms s.rooms t.rooms ∧ Flushed s.buffers ⟨some roomId, info.userId, offer.present⟩ := by
  obtain ⟨hrooms, -, hflush⟩ := respond_stores user info roomId r offer t epType e
  rw [← flushBuffer_kept_iff, ← hbuffers]
  constructor
  · intro h
    refine ⟨hrooms ▸ h.rooms, fun k => ?_⟩
    rw [← hflush, h.buffers k, hbuffers]
  · rintro ⟨hkept, hsame⟩
    refine ⟨hrooms.symm ▸ hkept, fun k => ?_⟩
    rw [hflush, hsame k, hbuffers]

/-- The participant is put back as it was. -/
theorem putParticipant_kept (hr : s.rooms.heap[r]? = some room)
    (hp : room.userIdParticipants.lookup p.userId = some p) : KeptRooms s.rooms (s.putParticipant r p).rooms := by
  refine ⟨fun r' u => ?_, fun x => ?_, fun x => ?_⟩
  · by_cases hr' : r' = r
    · subst hr'
      rw [putParticipant_heap s r' p hr, set_self hr, hr]
      simp only [Option.bind_some, Room.findParticipant, lookup_put]
      split
      · next hu => rw [hu, hp]
      · rfl
    · rw [putParticipant_heap s r p hr, List.getElem?_set_ne (Ne.symm hr')]
  · simp only [Server.putParticipant]
    rw [onRoom_eq hr]
    rfl
  · simp only [Server.putParticipant]
    rw [onRoom_eq hr]
    exact ⟨rfl, rfl⟩

/-- Joining again calls the callback that cancels the TTL entry, and does nothing else. -/
theorem rejoin_kept_iff {m : RoomManager} {userId : String} (hr : m.heap[r]? = some room)
    (hp : room.userIdParticipants.lookup userId = some p) :
    KeptRooms m (m.onRoom r fun room => room.call (.join userId build)) ↔ Untimed m room.roomId := by
  have hcall : room.call (.join userId build) = (room, [.joinRoomCallBack room.roomId]) := by
    simp [Room.call, Room.join, hp]
  have heq : m.onRoom r (fun room => room.call (.join userId build)) =
      { m with roomTtl := (remove m.roomTtl room.roomId).1
               trace := m.trace ++ [(r, .joinRoomCallBack room.roomId)] } := by
    rw [onRoom_eq hr, hcall, set_same hr]
    rfl
  rw [heq]
  constructor
  · intro h
    obtain ⟨hcache, htimes⟩ := h.ttl room.roomId
    exact ⟨by simpa [remove] using hcache.symm, by simpa [remove] using htimes.symm⟩
  · rintro ⟨hcache, htimes⟩
    refine ⟨fun _ _ => rfl, fun _ => rfl, fun x => ?_⟩
    by_cases hx : x = room.roomId
    · subst hx
      simp [remove, hcache, htimes]
    · simp [remove, hx]

theorem joinConference_eq {q : Room × List Call} (hr : s.rooms.heap[r]? = some room)
    (hj : room.join info.userId build = some q) :
    s.joinConference info r build =
      (({ s with rooms := s.rooms.onRoom r fun room => room.call (.join info.userId build) } : Server).send
        (.chat info.roomId info.userId "enter"), none) := by
  simp [Server.joinConference, hr, hj]

/-- A user who joins now is in the room afterwards, whatever follows. -/
theorem newcomer_not_kept {e : Endpoint} (hjoins : JoinsFirst info offer) (hr : s.rooms.heap[r]? = some room)
    (hp : room.userIdParticipants.lookup info.userId = none) :
    ¬ Kept s (s.offerInRoom user info roomId r offer (some e)).1 := by
  obtain ⟨joined, hin, hj⟩ : ∃ joined : Room, joined.findParticipant info.userId = some ⟨info.userId, some e, ∅⟩ ∧
      room.join info.userId (some e) = some (joined, [.joinRoomCallBack room.roomId]) := by
    simp [Room.join, hp, Room.findParticipant]
  have hentered : Entered s info r offer (some e) _ := .inr ⟨hjoins, joinConference_eq hr hj⟩
  set t := ({ s with rooms := s.rooms.onRoom r fun room => room.call (.join info.userId (some e)) } : Server).send
    (.chat info.roomId info.userId "enter") with ht
  have hheap : t.rooms.heap[r]? = some joined := by
    show (s.rooms.onRoom r fun room => room.call (.join info.userId (some e))).heap[r]? = _
    rw [onRoom_heap_self hr, Room.call, hj]
    rfl
  have hanswer : s.offerInRoom user info roomId r offer (some e) =
      Server.respond user info roomId r offer t .outgoing e := by
    rw [hentered.offerInRoom]
    simp [Server.withEndpoint, Server.getWebRtcPeerDefaultCreate, hheap, hin, hjoins.2]
  rw [hanswer, respond_kept_iff hentered.spares.buffers]
  rintro ⟨hkept, -⟩
  have hlookup := hkept.participants r info.userId
  rw [hheap, hr, Option.bind_some, Option.bind_some, hin, Room.findParticipant, hp] at hlookup
  cases hlookup

/-- An OUTGOING offer of a user who is in the room. -/
theorem rejoin_offer_kept_iff (hjoins : JoinsFirst info offer) (hr : s.rooms.heap[r]? = some room)
    (hid : room.roomId = roomId) (hp : room.userIdParticipants.lookup info.userId = some p) :
    Kept s (s.offerInRoom user info roomId r offer build).1 ↔ Untimed s.rooms roomId ∧
      (p.outWebRtcEndpoint.isSome = true → Flushed s.buffers ⟨some roomId, info.userId, offer.present⟩) := by
  have hj : room.join info.userId build = some (room, [.joinRoomCallBack room.roomId]) := by
    simp [Room.join, hp]
  have hentered : Entered s info r offer build _ := .inr ⟨hjoins, joinConference_eq hr hj⟩
  set t := ({ s with rooms := s.rooms.onRoom r fun room => room.call (.join info.userId build) } : Server).send
    (.chat info.roomId info.userId "enter") with ht
  have hrooms : KeptRooms s.rooms t.rooms ↔ Untimed s.rooms roomId := hid ▸ rejoin_kept_iff hr hp
  have hheap : t.rooms.heap[r]? = some room := by
    show (s.rooms.onRoom r fun room => room.call (.join info.userId build)).heap[r]? = _
    rw [onRoom_heap_self hr, Room.call, hj]
    rfl
  rw [hentered.offerInRoom, ← hrooms]
  cases hout : p.outWebRtcEndpoint with
  | none =>
    have hfailed : t.withEndpoint r info.userId offer build (Server.respond user info roomId r offer) =
        (t, some .nullPointer) := by
      simp [Server.withEndpoint, Server.getWebRtcPeerDefaultCreate, hheap, Room.findParticipant, hp, hjoins.2, hout]
    rw [hfailed]
    constructor
    · exact fun h => ⟨h.rooms, fun hsome => by cases hsome⟩
    · exact fun h => ⟨h.1, fun _ => rfl⟩
  | some e =>
    have hanswer : t.withEndpoint r info.userId offer build (Server.respond user info roomId r offer) =
        Server.respond user info roomId r offer t .outgoing e := by
      simp [Server.withEndpoint, Server.getWebRtcPeerDefaultCreate, hheap, Room.findParticipant, hp, hjoins.2, hout]
    rw [hanswer, respond_kept_iff hentered.spares.buffers]
    simp

/-- An INCOMING offer of a user who is in the room. -/
theorem incoming_kept_iff {present : String} (htype : offer.type = some .incoming)
    (hpresent : offer.present = some present) (hr : s.rooms.heap[r]? = some room) (hk : Keyed room)
    (hp : room.userIdParticipants.lookup info.userId = some p) :
    Kept s (s.offerInRoom user info roomId r offer build).1 ↔
      match p.presentInWebRtcPeer.lookup present with
      | none => build = none
      | some _ => Flushed s.buffers ⟨some roomId, info.userId, offer.present⟩ := by
  have hstays : ¬ JoinsFirst info offer := fun h => absurd (h.2.symm.trans htype) (by decide)
  have hentered : Entered s info r offer build s := .inl ⟨hstays, rfl⟩
  rw [hentered.offerInRoom]
  have hfind : (s.rooms.heap[r]?.bind fun room => room.findParticipant info.userId) = some p := by
    rw [hr]
    exact hp
  cases hpeer : p.presentInWebRtcPeer.lookup present with
  | some e =>
    have hanswer : s.withEndpoint r info.userId offer build (Server.respond user info roomId r offer) =
        Server.respond user info roomId r offer (s.putParticipant r p) .incoming e := by
      simp [Server.withEndpoint, Server.getWebRtcPeerDefaultCreate, hfind, htype, hpresent,
        Participant.createInEp, hpeer]
    have hkey : p.userId = info.userId := hk info.userId p hp
    rw [hanswer, respond_kept_iff (s := s) (t := s.putParticipant r p) rfl]
    exact and_iff_right (putParticipant_kept hr (hkey ▸ hp))
  | none =>
    cases build with
    | none =>
      have hfailed : s.withEndpoint r info.userId offer none (Server.respond user info roomId r offer) =
          (s, some .kurento) := by
        simp [Server.withEndpoint, Server.getWebRtcPeerDefaultCreate, hfind, htype, hpresent,
          Participant.createInEp, hpeer]
      rw [hfailed]
      exact iff_of_true (.refl s) rfl
    | some e =>
      refine iff_of_false ?_ (by simp)
      set p' : Participant := { p with presentInWebRtcPeer := p.presentInWebRtcPeer.insert present e } with hp'
      have hanswer : s.withEndpoint r info.userId offer (some e) (Server.respond user info roomId r offer) =
          Server.respond user info roomId r offer (s.putParticipant r p') .incoming e := by
        simp [Server.withEndpoint, Server.getWebRtcPeerDefaultCreate, hfind, htype, hpresent,
          Participant.createInEp, hpeer, hp']
      rw [hanswer, respond_kept_iff (s := s) (t := s.putParticipant r p') rfl]
      rintro ⟨hkept, -⟩
      -- the participant has got the endpoint
      have hlookup := hkept.participants r info.userId
      have hkey : p'.userId = info.userId := hk info.userId p hp
      rw [putParticipant_heap s r p' hr, set_self hr, hr] at hlookup
      simp only [Option.bind_some, Room.findParticipant, lookup_put, hkey, if_true, hp] at hlookup
      have hsame := congrArg (fun q => q.presentInWebRtcPeer.lookup present) (Option.some.inj hlookup)
      simp [hp', hpeer] at hsame

/-- Without an endpoint to find, nothing is changed. -/
theorem unanswered_kept (failure : Failure) (hstays : ¬ JoinsFirst info offer)
    (hw : s.getWebRtcPeerDefaultCreate r info.userId offer.type offer.present build = .error failure) :
    Kept s (s.offerInRoom user info roomId r offer build).1 := by
  have hentered : Entered s info r offer build s := .inl ⟨hstays, rfl⟩
  rw [hentered.offerInRoom, Server.withEndpoint, hw]
  exact .refl s

theorem offerInRoom_kept_iff (hreach : ReachesRoom s user offer info roomId r)
    (hr : s.rooms.heap[r]? = some room) (hk : Keyed room) (hid : room.roomId = roomId) :
    Kept s (s.offerInRoom user info roomId r offer build).1 ↔ SparedIn s info roomId room offer build := by
  have hticket : offer.type = some .outgoing → JoinsFirst info offer := by
    intro htype
    cases hinfo : info.ticketType with
    | conference => exact ⟨hinfo, htype⟩
    | monitor => exact absurd ⟨htype, hinfo⟩ hreach.publishes
  unfold SparedIn
  split
  · next htype hp =>
    cases build with
    | some e => exact iff_of_false (newcomer_not_kept (hticket htype) hr hp) (by simp)
    | none =>
      have hfailed : s.offerInRoom user info roomId r offer none = (s, some .kurento) := by
        have hnone : s.joinConference info r none = (s, some .kurento) := by
          simp only [Room.findParticipant] at hp
          simp [Server.joinConference, hr, Room.join, hp]
        rw [Server.offerInRoom, if_pos (show _ ∧ _ from hticket htype), hnone, andThen_failed]
      rw [hfailed]
      exact iff_of_true (.refl s) rfl
  · next p htype hp => exact rejoin_offer_kept_iff (hticket htype) hr hid hp
  · next p htype hp =>
    cases hpresent : offer.present with
    | some present =>
      simp only [Option.some.injEq, forall_eq']
      rw [← hpresent]
      exact incoming_kept_iff htype hpresent hr hk hp
    | none =>
      refine iff_of_true (unanswered_kept .nullPointer ?_ ?_) (by simp)
      · exact fun h => absurd (h.2.symm.trans htype) (by decide)
      · simp [Server.getWebRtcPeerDefaultCreate, hr, hp, htype, hpresent]
  · next hnone hsome hincoming =>
    refine iff_of_true (unanswered_kept .nullPointer ?_ ?_) trivial
    · intro h
      cases hp : room.findParticipant info.userId with
      | none => exact hnone h.2 hp
      | some p => exact hsome p h.2 hp
    · cases hp : room.findParticipant info.userId with
      | none => simp [Server.getWebRtcPeerDefaultCreate, hr, hp]
      | some p =>
        have hout : offer.type ≠ some .outgoing := fun h => hsome p h hp
        have hin : offer.type ≠ some .incoming := fun h => hincoming p h hp
        simp only [Server.getWebRtcPeerDefaultCreate, hr, Option.bind_some, hp]

end

/-- In every reachable state, an offer, whether it fails or not, leaves the participants of
the rooms, their endpoints, the TTL entries and the candidate buffers as they were exactly if
it is spared. -/
theorem handleOffer_kept_iff (roomDeleteTtl : Nat) (events : List Event) (user : String)
    (offer : OfferMessage) (build : Option Endpoint) :
    let s := (run step (Media.init roomDeleteTtl) events).server
    Kept s (s.handleOffer user offer build).1 ↔ Spared s user offer build := by
  intro s
  have hkeyed : AllRooms Keyed s.rooms := run_allRooms keyed_lasting roomDeleteTtl events
  have hstored : Stored s.rooms := (MediaEndpoints.run_owned roomDeleteTtl events).stored
  rcases handleOffer_cases s user offer build with ⟨⟨failure, he⟩, hnone⟩ | ⟨info, x, r, hreach, he⟩
  · rw [he]
    exact iff_of_true (.refl s) fun info x r room hreach => absurd hreach (hnone info x r)
  · rw [he]
    obtain ⟨room, hr, hid⟩ := hstored x r hreach.stored
    rw [offerInRoom_kept_iff hreach hr (hkeyed r room hr) hid]
    constructor
    · intro h info' x' r' room' hreach' hr'
      obtain rfl := Option.some.inj (hreach.session.symm.trans hreach'.session)
      obtain rfl := Option.some.inj (hreach.room.symm.trans hreach'.room)
      obtain rfl := Option.some.inj (hreach.stored.symm.trans hreach'.stored)
      obtain rfl := Option.some.inj (hr.symm.trans hr')
      exact h
    · exact fun h => h info x r room hreach hr

def aliceRoom : List Event :=
  [.createRoom "a" (some ⟨"kms", some 1⟩) 0, .connect "p1" (some "alice") (some "a"),
    .offer "p1" ⟨none, some .outgoing, none, "sdp"⟩ true]

/-- Bob is connected, but has not joined the room. -/
def bobOutside : List Event := aliceRoom ++ [.connect "p2" (some "bob") (some "a")]

/-- The offer of Alice to receive Bob. -/
def receiveBob : OfferMessage := ⟨none, some .incoming, some "bob", "sdp"⟩

/-- Alice has sent it once. -/
def bobAwaited : List Event := bobOutside ++ [.offer "p1" receiveBob true]

/-- Sent again, the offer fails as it did before, and this time it changes nothing. -/
theorem handleOffer_failed_again :
    Spared (run step (Media.init 60) bobAwaited).server "p1" receiveBob (some 9) ∧
    ((run step (Media.init 60) bobAwaited).server.handleOffer "p1" receiveBob (some 9)).2 = some .nullPointer ∧
    Kept (run step (Media.init 60) bobAwaited).server
      ((run step (Media.init 60) bobAwaited).server.handleOffer "p1" receiveBob (some 9)).1 := by
  have hspared : Spared (run step (Media.init 60) bobAwaited).server "p1" receiveBob (some 9) := by
    intro info roomId r room hreach hr
    have hinfo : (run step (Media.init 60) bobAwaited).server.sessions.findSessionInfo "p1" =
        some ⟨"p1", .conference, some "a", "alice"⟩ := by decide +kernel
    have hmap : (run step (Media.init 60) bobAwaited).server.rooms.roomIdRooms.lookup "a" = some 0 := by
      decide +kernel
    obtain rfl := Option.some.inj (hinfo.symm.trans hreach.session)
    obtain rfl : "a" = roomId := Option.some.inj hreach.room
    obtain rfl := Option.some.inj (hmap.symm.trans hreach.stored)
    have hpeer : ∀ room ∈ (run step (Media.init 60) bobAwaited).server.rooms.heap[0]?,
        ∀ p ∈ room.findParticipant "alice", p.presentInWebRtcPeer.lookup "bob" = some 4 := by
      decide +kernel
    have hflushed : Flushed (run step (Media.init 60) bobAwaited).server.buffers ⟨some "a", "alice", some "bob"⟩ :=
      ⟨⟨1, [], true⟩, by decide +kernel, rfl, rfl⟩
    unfold SparedIn
    cases hp : room.findParticipant "alice" with
    | none => trivial
    | some p =>
      rintro present hpresent
      obtain rfl : "bob" = present := Option.some.inj hpresent
      rw [hpeer room hr p hp]
      exact hflushed
  exact ⟨hspared, by decide +kernel, (handleOffer_kept_iff 60 bobAwaited "p1" receiveBob (some 9)).mpr hspared⟩

/-- The endpoint of the room object `r` on which `userId` receives `present`. -/
def receives (s : Server) (r : RoomRef) (userId present : String) : Option Endpoint :=
  ((s.rooms.heap[r]?).bind fun room => room.findParticipant userId).bind fun p =>
    p.presentInWebRtcPeer.lookup present

/-- The offer fails because Bob does not publish; Alice has an endpoint to receive Bob and a
flushed buffer for it all the same. -/
theorem handleOffer_failed_changed :
    ((run step (Media.init 60) bobOutside).server.handleOffer "p1" receiveBob (some 7)).2 =
      some .nullPointer ∧
    receives (run step (Media.init 60) bobOutside).server 0 "alice" "bob" = none ∧
    receives ((run step (Media.init 60) bobOutside).server.handleOffer "p1" receiveBob (some 7)).1
      0 "alice" "bob" = some 7 ∧
    (run step (Media.init 60) bobOutside).server.buffers.bufferMap.lookup ⟨some "a", "alice", some "bob"⟩ =
      none ∧
    ((run step (Media.init 60) bobOutside).server.handleOffer "p1" receiveBob (some 7)).1.buffers.bufferMap.lookup
      ⟨some "a", "alice", some "bob"⟩ ≠ none := by
  decide +kernel

end MediaOffers

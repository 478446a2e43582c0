import SpringStudy.MediaMessages

/-!
# Where endpoints come from

Two kinds of steps are told apart. Connections, timers and monitoring users may
close rooms and take endpoints away, but bring none. An offer or a candidate
works on one room, and what it adds there is the endpoint Kurento has just
built. Every endpoint therefore belongs to one room object.
-/
namespace MediaEndpoints

open Tables Outcomes TtlCaches MediaRoom MediaBuffer MediaMessages Runs
open MediaRoomManager hiding Event step
open MediaSession hiding Event step
open MediaSocket hiding Event step handle

/-! ## Endpoints of a room -/

def HasEndpoint (p : Participant) (e : Endpoint) : Prop :=
  p.outWebRtcEndpoint = some e ∨ ∃ present, p.presentInWebRtcPeer.lookup present = some e

/-- The endpoint that the participant has for the type and the present user of a message. -/
def peerOf (p : Participant) (type : Option WebRtcEndpointType) (present : Option String) : Option Endpoint :=
  match type with
  | some .outgoing => p.outWebRtcEndpoint
  | some .incoming => present.bind fun present => p.presentInWebRtcPeer.lookup present
  | _ => none

def Has (room : Room) (e : Endpoint) : Prop :=
  ∃ userId p, room.userIdParticipants.lookup userId = some p ∧ HasEndpoint p e

/-- Nobody has an endpoint that they had not before. -/
def Loses (f : Room → Room × List Call) : Prop :=
  ∀ room, Local room (f room) ∧ ∀ e, Has (f room).1 e → Has room e

theorem emptied_has (room : Room) (e : Endpoint) : ¬ Has room.emptied e := by
  rintro ⟨userId, p, hp, -⟩
  cases hp

theorem leave_loses (userId : String) : Loses fun room => room.leave userId := by
  intro room
  refine ⟨leave_local room userId, ?_⟩
  rintro e ⟨u, p, hp, he⟩
  obtain ⟨q, hq, rfl⟩ := leave_lookup hp
  rcases he with he | ⟨present, he⟩
  · exact ⟨u, q, hq, .inl he⟩
  · exact ⟨u, q, hq, .inr ⟨present, (lookup_remove_eq_some.mp he).2⟩⟩

theorem release_loses : Loses Room.release := by
  intro room
  refine ⟨release_local room, fun e h => ?_⟩
  rw [Room.release_fst] at h
  exact absurd h (emptied_has room e)

theorem joinWithOnlyIncoming_loses (userId : String) :
    Loses fun room => room.call (.joinWithOnlyIncoming userId) := by
  intro room
  refine ⟨call_local room _, ?_⟩
  rintro e ⟨u, p, hp, he⟩
  simp only [Room.call, Room.joinWithOnlyIncoming] at hp
  split at hp
  · exact ⟨u, p, hp, he⟩
  · simp only [lookup_put] at hp
    split at hp
    · obtain rfl := Option.some.inj hp
      rcases he with he | ⟨q, hq⟩
      · cases he
      · cases hq
    · exact ⟨u, p, hp, he⟩

theorem releaseWithKurentoDown_loses : Loses Room.releaseWithKurentoDown :=
  fun _ => ⟨⟨rfl, by simp [Room.releaseWithKurentoDown, About]⟩, fun _ h => h⟩

/-! ## Candidates that reach an endpoint -/

/-- The candidates added, with their endpoints. -/
def adds (calls : List MediaCall) : List (Endpoint × IceCandidate) :=
  calls.filterMap fun
    | .addIceCandidate e c => some (e, c)
    | _ => none

@[simp] theorem adds_append (l₁ l₂ : List MediaCall) : adds (l₁ ++ l₂) = adds l₁ ++ adds l₂ :=
  List.filterMap_append

@[simp] theorem adds_connections (connections : List (Endpoint × Endpoint)) :
    adds (connections.map fun p => .connect p.1 p.2) = [] := by
  simp [adds]

/-! ## Steps that bring no endpoint -/

/-- Room objects lose endpoints at most, and the new ones have none. -/
def Wanes (m m' : RoomManager) : Prop :=
  ∀ (r : RoomRef) (room' : Room) (e : Endpoint), m'.heap[r]? = some room' → Has room' e →
    ∃ room, m.heap[r]? = some room ∧ Has room e

theorem Wanes.refl (m : RoomManager) : Wanes m m := fun _ room' _ hr he => ⟨room', hr, he⟩

theorem Wanes.trans {a b c : RoomManager} (h : Wanes a b) (h' : Wanes b c) : Wanes a c := by
  intro r room' e hr he
  obtain ⟨room, hr', he'⟩ := h' r room' e hr he
  exact h r room e hr' he'

theorem onRoom_wanes (m : RoomManager) (r : RoomRef) {f : Room → Room × List Call} (hf : Loses f) :
    Wanes m (m.onRoom r f) := by
  cases hr : m.heap[r]? with
  | none => simpa [RoomManager.onRoom, hr] using Wanes.refl m
  | some room =>
    intro r' room' e hr' he
    rw [onRoom_heap hr] at hr'
    rcases set_cases hr' with ⟨rfl, rfl⟩ | ⟨-, hr'⟩
    · exact ⟨room, hr, (hf room).2 e he⟩
    · exact ⟨room', hr', he⟩

theorem onRoom_stored_of_local (m : RoomManager) (r : RoomRef) {f : Room → Room × List Call}
    (hf : ∀ room, Local room (f room)) (h : Stored m) : Stored (m.onRoom r f) := by
  cases hr : m.heap[r]? with
  | none => simpa [RoomManager.onRoom, hr] using h
  | some room => exact onRoom_stored hr (hf room) h

/-- A step that touches no endpoint and makes no call on one. -/
structure Passive (s s' : Server) : Prop where
  stored : Stored s.rooms → Stored s'.rooms
  wanes : Wanes s.rooms s'.rooms
  media : s'.media = s.media

namespace Passive

theorem of_eq {s s' : Server} (hrooms : s'.rooms = s.rooms) (hmedia : s'.media = s.media) : Passive s s' :=
  ⟨fun h => hrooms ▸ h, hrooms ▸ Wanes.refl s.rooms, hmedia⟩

theorem of_notifies {s s' : Server} (h : Notifies s s') : Passive s s' := of_eq h.rooms h.media

theorem refl (s : Server) : Passive s s := of_eq rfl rfl

theorem trans {a b c : Server} (h : Passive a b) (h' : Passive b c) : Passive a c :=
  ⟨fun hs => h'.stored (h.stored hs), h.wanes.trans h'.wanes, h'.media.trans h.media⟩

end Passive

theorem withRooms_passive (s : Server) (m : RoomManager) (hs : Stored s.rooms → Stored m)
    (hw : Wanes s.rooms m) : Passive s (s.withRooms m).1 := by
  have hm : Passive s { s with rooms := m } := ⟨hs, hw, rfl⟩
  exact hm.trans (.of_notifies (withRooms_notifies s m))

theorem handleRoom_wanes (m : RoomManager) (roomId : String) (op : RoomOp)
    (hf : Loses fun room => room.call op) :
    (Stored m → Stored (m.handleRoom roomId op)) ∧ Wanes m (m.handleRoom roomId op) := by
  unfold RoomManager.handleRoom
  split
  · exact ⟨id, .refl m⟩
  · next r _ => exact ⟨onRoom_stored_of_local m r fun room => (hf room).1, onRoom_wanes m r hf⟩

theorem leaveAllRoom_passive (s : Server) (userId : String) : Passive s (s.leaveAllRoom userId).1 := by
  unfold Server.leaveAllRoom
  split
  · exact .refl s
  · refine forAll_invariant (I := Passive s) _ (fun t roomId h => ?_) _ _ (.of_eq rfl rfl)
    obtain ⟨hs, hw⟩ := handleRoom_wanes t.rooms roomId (.leave userId) (leave_loses userId)
    exact h.trans (withRooms_passive t _ hs hw)

theorem unregister_passive (s : Server) (user : String) : Passive s (s.unregister user).1 := by
  unfold Server.unregister
  split
  · exact .of_eq rfl rfl
  · next m info _ =>
    have hleft : Passive s { s with sessions := m, buffers := s.buffers.release info.userId } :=
      .of_eq rfl rfl
    unfold Server.handleLeave
    dsimp only
    split
    · exact hleft.trans (leaveAllRoom_passive _ info.userId)
    · exact hleft.trans (.of_notifies (leaveConference_notifies _ info))

theorem createRoom_passive (s : Server) (roomId : String) (wrapper : Option PipelineWrapper) (now : Nat) :
    Passive s (s.createRoom roomId wrapper now).1 := by
  unfold Server.createRoom
  cases hc : s.rooms.createRoom roomId wrapper now with
  | none => exact .refl s
  | some m =>
    refine ⟨createRoom_stored hc, ?_, rfl⟩
    rcases createRoom_cases hc with rfl | ⟨url, pipeline, -, -, rfl⟩
    · exact .refl _
    · intro r room' e hr he
      rcases append_cases hr with hr | rfl
      · exact ⟨room', hr, he⟩
      · obtain ⟨u, p, hp, -⟩ := he
        cases hp

theorem fireTtl_passive (s : Server) (task : String × Nat) (now : Nat) :
    Passive s (s.fireTtl task now).1 := by
  unfold Server.fireTtl RoomManager.fireTtl
  dsimp only
  split
  · exact withRooms_passive s _ id (.refl s.rooms)
  · next r _ =>
    let m : RoomManager := { s.rooms with roomTtl := (TtlCaches.fire hasCome s.rooms.roomTtl task now).1 }
    exact withRooms_passive s (m.onRoom r Room.release)
      (onRoom_stored_of_local m r fun room => (release_loses room).1) (onRoom_wanes m r release_loses)

theorem kurentoDown_passive (s : Server) (order : Traversal RoomRef) (kmsUrl : String) :
    Passive s (s.kurentoDown order kmsUrl).1 := by
  refine forAll_invariant (I := Passive s) _ (fun t r h => h.trans ?_) _ _ (.refl s)
  exact withRooms_passive t _ (onRoom_stored_of_local _ r fun room => (releaseWithKurentoDown_loses room).1)
    (onRoom_wanes _ r releaseWithKurentoDown_loses)

theorem joinRoom_passive (s : Server) (user userId roomId : String) :
    Passive s (MediaMonitor.joinRoom s user userId roomId).1 := by
  unfold MediaMonitor.joinRoom
  have hadd : Passive s (MediaMonitor.addRoom s userId roomId) := .of_eq rfl rfl
  dsimp only
  split
  · exact hadd
  · obtain ⟨hs, hw⟩ := handleRoom_wanes (MediaMonitor.addRoom s userId roomId).rooms roomId
      (.joinWithOnlyIncoming userId) (joinWithOnlyIncoming_loses userId)
    let m := (MediaMonitor.addRoom s userId roomId).rooms.handleRoom roomId (.joinWithOnlyIncoming userId)
    have hjoin : Passive s { MediaMonitor.addRoom s userId roomId with rooms := m } :=
      hadd.trans ⟨hs, hw, rfl⟩
    split
    · exact hjoin
    · exact hjoin.trans (.of_notifies (MediaMonitor.notifyPublishers_notifies _ user _))

theorem handleMonitor_spares (s : Server) (user : String) (message : MonitorMessage) :
    Spares s (handleMonitor s user message).1 := by
  unfold handleMonitor
  split
  · exact .refl s
  · next info _ =>
    split_ifs
    · have hremove : Spares s (MediaMonitor.removeRoom s info.userId message.roomId) := ⟨rfl, rfl, rfl⟩
      exact hremove.trans (withRooms_spares _ _)
    · unfold MediaMonitor.joinRoom
      let m := (MediaMonitor.addRoom s info.userId message.roomId).rooms.handleRoom message.roomId
        (.joinWithOnlyIncoming info.userId)
      have hjoin : Spares s { MediaMonitor.addRoom s info.userId message.roomId with rooms := m } :=
        ⟨rfl, rfl, rfl⟩
      dsimp only
      split
      · exact ⟨rfl, rfl, rfl⟩
      · split
        · exact hjoin
        · exact hjoin.trans (MediaMonitor.notifyPublishers_notifies _ user _).spares
    · exact .refl s

theorem handleMonitor_passive (s : Server) (user : String) (message : MonitorMessage) :
    Passive s (handleMonitor s user message).1 := by
  unfold handleMonitor
  split
  · exact .refl s
  · next info _ =>
    split_ifs
    · have hremove : Passive s (MediaMonitor.removeRoom s info.userId message.roomId) := .of_eq rfl rfl
      obtain ⟨hs, hw⟩ := handleRoom_wanes (MediaMonitor.removeRoom s info.userId message.roomId).rooms
        message.roomId (.leave info.userId) (leave_loses info.userId)
      exact hremove.trans (withRooms_passive _ _ hs hw)
    · exact joinRoom_passive s user info.userId message.roomId
    · exact .refl s

/-! ## Steps on one room -/

/-- The room object that the map holds under the room id of a message. -/
def Target (m : RoomManager) (roomId : Option String) (r : RoomRef) : Prop :=
  ∃ x, roomId = some x ∧ m.roomIdRooms.lookup x = some r

theorem Target.unique {m : RoomManager} {roomId : Option String} {r r' : RoomRef}
    (h : Target m roomId r) (h' : Target m roomId r') : r = r' := by
  obtain ⟨x, hx, hr⟩ := h
  obtain ⟨x', hx', hr'⟩ := h'
  obtain rfl := Option.some.inj (hx.symm.trans hx')
  exact Option.some.inj (hr.symm.trans hr')

/-- Only the room of `roomId` changes, and the one endpoint it may gain is `new`. -/
structure Touch (roomId : Option String) (new : Option Endpoint) (m m' : RoomManager) : Prop where
  stored : Stored m → Stored m'
  others : ∀ r, ¬ Target m roomId r → m'.heap[r]? = m.heap[r]?
  gains : ∀ r room' e, m'.heap[r]? = some room' → Has room' e →
    (∃ room, m.heap[r]? = some room ∧ Has room e) ∨ (new = some e ∧ Target m roomId r)
  map : ∀ x, m'.roomIdRooms.lookup x = m.roomIdRooms.lookup x
  ttl : ∀ x, roomId ≠ some x → m'.roomTtl.cache.lookup x = m.roomTtl.cache.lookup x ∧
    m'.roomTtl.expirationTimes.lookup x = m.roomTtl.expirationTimes.lookup x

section
variable {roomId : Option String} {new : Option Endpoint}

theorem Target.congr {m m' : RoomManager} {r : RoomRef}
    (h : ∀ x, m'.roomIdRooms.lookup x = m.roomIdRooms.lookup x) :
    Target m' roomId r ↔ Target m roomId r := by
  simp only [Target, h]

theorem Touch.refl (m : RoomManager) : Touch roomId new m m where
  stored := id
  others _ _ := rfl
  gains _ room' _ hr he := .inl ⟨room', hr, he⟩
  map _ := rfl
  ttl _ _ := ⟨rfl, rfl⟩

theorem Touch.trans {a b c : RoomManager} (h : Touch roomId new a b) (h' : Touch roomId new b c) :
    Touch roomId new a c where
  stored hs := h'.stored (h.stored hs)
  others r hr := (h'.others r fun ht => hr ((Target.congr h.map).mp ht)).trans (h.others r hr)
  gains r room' e hr he := by
    rcases h'.gains r room' e hr he with ⟨room, hroom, he'⟩ | ⟨hnew, ht⟩
    · exact h.gains r room e hroom he'
    · exact .inr ⟨hnew, (Target.congr h.map).mp ht⟩
  map x := (h'.map x).trans (h.map x)
  ttl x hx := ⟨(h'.ttl x hx).1.trans (h.ttl x hx).1, (h'.ttl x hx).2.trans (h.ttl x hx).2⟩

theorem Touch.mono {m m' : RoomManager} (h : Touch roomId new m m') {new' : Option Endpoint}
    (himp : ∀ e, new = some e → new' = some e) : Touch roomId new' m m' where
  stored := h.stored
  others := h.others
  gains r room' e hr he := (h.gains r room' e hr he).imp_right fun ⟨hnew, ht⟩ => ⟨himp e hnew, ht⟩
  map := h.map
  ttl := h.ttl

/-- What the methods do that a message calls: at most one endpoint is added, and at
most the join callback is called. -/
structure Adds (new : Option Endpoint) (room : Room) (q : Room × List Call) : Prop where
  roomId : q.1.roomId = room.roomId
  calls : q.2 = [] ∨ q.2 = [.joinRoomCallBack room.roomId]
  gains : ∀ e, Has q.1 e → Has room e ∨ new = some e

theorem Adds.toLocal {room : Room} {q : Room × List Call} (h : Adds new room q) : Local room q := by
  refine ⟨h.roomId, ?_⟩
  rcases h.calls with hc | hc <;> simp [hc, About]

theorem onRoom_touch {m : RoomManager} {x : String} {r : RoomRef} (hs : Stored m)
    (hx : m.roomIdRooms.lookup x = some r) {f : Room → Room × List Call}
    (hf : ∀ room, m.heap[r]? = some room → Adds new room (f room)) :
    Touch (some x) new m (m.onRoom r f) := by
  obtain ⟨room, hr, hid⟩ := hs x r hx
  have hadds := hf room hr
  have htarget : Target m (some x) r := ⟨x, rfl, hx⟩
  refine ⟨onRoom_stored hr hadds.toLocal, ?_, ?_, ?_, ?_⟩
  · intro r' hr'
    refine onRoom_heap_other hr ?_
    rintro rfl
    exact hr' htarget
  · intro r' room' e hr' he
    rw [onRoom_heap hr] at hr'
    rcases set_cases hr' with ⟨rfl, rfl⟩ | ⟨-, hr'⟩
    · rcases hadds.gains e he with he' | hnew
      · exact .inl ⟨room, hr, he'⟩
      · exact .inr ⟨hnew, htarget⟩
    · exact .inl ⟨room', hr', he⟩
  · intro y
    rw [onRoom_eq hr]
    rcases hadds.calls with hc | hc <;> rw [hc] <;> rfl
  · intro y hy
    have hne : y ≠ room.roomId := fun h => hy (by rw [h, hid])
    rw [onRoom_eq hr]
    rcases hadds.calls with hc | hc
    · rw [hc]
      exact ⟨rfl, rfl⟩
    · rw [hc]
      simp [RoomManager.performAll, RoomManager.perform, TtlCaches.remove, hne]

end

theorem join_adds (room : Room) (userId : String) (build : Option Endpoint) :
    Adds build room (room.call (.join userId build)) := by
  refine ⟨(call_local room _).roomId, ?_, ?_⟩
  · simp only [Room.call, Room.join]
    split <;> simp
  · rintro e ⟨u, p, hp, he⟩
    simp only [Room.call, Room.join] at hp
    split at hp
    · exact .inl ⟨u, p, hp, he⟩
    · exact .inl ⟨u, p, hp, he⟩
    · simp only [Option.getD_some, lookup_put] at hp
      split at hp
      · obtain rfl := Option.some.inj hp
        rcases he with he | ⟨q, hq⟩
        · exact .inr he
        · cases hq
      · exact .inl ⟨u, p, hp, he⟩

/-- The endpoint asked for is there, or it is the one just built. -/
theorem createInEp_has {p p' : Participant} {present : String} {build : Option Endpoint} {e : Endpoint}
    (h : p.createInEp present build = some (p', e)) :
    p'.presentInWebRtcPeer.lookup present = some e ∧
      ∀ e', HasEndpoint p' e' → HasEndpoint p e' ∨ (e' = e ∧ build = some e) := by
  unfold Participant.createInEp at h
  split at h
  · next e₀ hp =>
    obtain ⟨rfl, rfl⟩ := Prod.mk.inj (Option.some.inj h)
    exact ⟨hp, fun _ he => .inl he⟩
  · cases h
  · obtain ⟨rfl, rfl⟩ := Prod.mk.inj (Option.some.inj h)
    refine ⟨by simp, ?_⟩
    rintro e' (he | ⟨q, hq⟩)
    · exact .inl (.inl he)
    · simp only [lookup_put] at hq
      split at hq
      · exact .inr ⟨(Option.some.inj hq).symm, rfl⟩
      · exact .inl (.inr ⟨q, hq⟩)

section
variable {s s' : Server} {r : RoomRef} {userId : String} {offer : OfferMessage}
  {build : Option Endpoint} {epType : WebRtcEndpointType} {e : Endpoint}

theorem putParticipant_heap (s : Server) (r : RoomRef) (p : Participant) {room : Room}
    (hr : s.rooms.heap[r]? = some room) : (s.putParticipant r p).rooms.heap =
      s.rooms.heap.set r { room with userIdParticipants := room.userIdParticipants.insert p.userId p } := by
  simp only [Server.putParticipant]
  rw [onRoom_heap hr]

/-- The room has the endpoint afterwards. -/
theorem found_has (h : Found s r userId offer build s' epType e) :
    ∃ room', s'.rooms.heap[r]? = some room' ∧ Has room' e := by
  cases h with
  | outgoing hr hp _ he => exact ⟨_, hr, userId, _, hp, .inl he⟩
  | @incoming room p p' present e hr hp _ _ he =>
    have hheap : (s.putParticipant r p').rooms.heap[r]? =
        some { room with userIdParticipants := room.userIdParticipants.insert p'.userId p' } := by
      rw [putParticipant_heap s r p' hr, set_self hr]
    exact ⟨_, hheap, p'.userId, p', by simp, .inr ⟨present, (createInEp_has he).1⟩⟩

/-- What the room gains, if anything, is the endpoint found. -/
theorem found_touch (h : Found s r userId offer build s' epType e) {x : String} (hs : Stored s.rooms)
    (hx : s.rooms.roomIdRooms.lookup x = some r) :
    Touch (some x) (build.filter (· = e)) s.rooms s'.rooms := by
  cases h with
  | outgoing _ _ _ _ => exact .refl s.rooms
  | incoming hr hp _ _ he =>
    refine onRoom_touch hs hx fun room' hr' => ⟨rfl, .inl rfl, ?_⟩
    obtain rfl := Option.some.inj (hr.symm.trans hr')
    rintro e' ⟨u, q, hq, he'⟩
    simp only [lookup_put] at hq
    split at hq
    · obtain rfl := Option.some.inj hq
      rcases (createInEp_has he).2 e' he' with hold | ⟨rfl, hnew⟩
      · exact .inl ⟨userId, _, hp, hold⟩
      · exact .inr (by simp [hnew])
    · exact .inl ⟨u, q, hq, he'⟩

end

/-- A message for `roomId`, up to the connection that an INCOMING offer makes at its end. -/
structure Within (roomId : Option String) (new : Option Endpoint) (s s' : Server) : Prop where
  rooms : Touch roomId new s.rooms s'.rooms
  buffers : ∀ key, key.roomId ≠ roomId →
    s'.buffers.bufferMap.lookup key = s.buffers.bufferMap.lookup key
  media : ∃ calls, s'.media = s.media ++ calls ∧ ∀ source sink, .connect source sink ∉ calls

section
variable {roomId : Option String} {new : Option Endpoint}

theorem Within.of_eq {s s' : Server} (hrooms : s'.rooms = s.rooms) (hbuffers : s'.buffers = s.buffers)
    (hmedia : s'.media = s.media) : Within roomId new s s' :=
  ⟨by rw [hrooms]; exact .refl s.rooms, fun _ _ => by rw [hbuffers], [], by simp [hmedia]⟩

theorem Within.refl (s : Server) : Within roomId new s s := .of_eq rfl rfl rfl

theorem Within.trans {a b c : Server} (h : Within roomId new a b) (h' : Within roomId new b c) :
    Within roomId new a c := by
  refine ⟨h.rooms.trans h'.rooms, fun key hk => (h'.buffers key hk).trans (h.buffers key hk), ?_⟩
  obtain ⟨calls, hc, hn⟩ := h.media
  obtain ⟨calls', hc', hn'⟩ := h'.media
  refine ⟨calls ++ calls', by rw [hc', hc, List.append_assoc], fun source sink hm => ?_⟩
  rcases List.mem_append.mp hm with hm | hm
  · exact hn source sink hm
  · exact hn' source sink hm

end

theorem joinConference_within {s : Server} {r : RoomRef} {x : String} (hs : Stored s.rooms)
    (hx : s.rooms.roomIdRooms.lookup x = some r) (info : SessionInfo) (build : Option Endpoint) :
    Within (some x) build s (s.joinConference info r build).1 := by
  unfold Server.joinConference
  split
  · exact .refl s
  · exact ⟨onRoom_touch hs hx fun room _ => join_adds room info.userId build, fun _ _ => rfl, [], by
      simp [Server.send]⟩

theorem found_within {s s' : Server} {r : RoomRef} {userId : String} {offer : OfferMessage}
    {build : Option Endpoint} {epType : WebRtcEndpointType} {e : Endpoint}
    (h : Found s r userId offer build s' epType e) {x : String} (hs : Stored s.rooms)
    (hx : s.rooms.roomIdRooms.lookup x = some r) : Within (some x) build s s' :=
  ⟨(found_touch h hs hx).mono fun _ hb => (Option.filter_eq_some_iff.mp hb).1,
    fun _ _ => by rw [h.spares.buffers], [], by simp [h.spares.media]⟩

theorem answerOffer_within (s : Server) (user : String) (info : SessionInfo) (x : String)
    (offer : OfferMessage) (epType : WebRtcEndpointType) (e : Endpoint) {build : Option Endpoint} :
    Within (some x) build s (s.answerOffer user info x offer epType e) := by
  refine ⟨.refl s.rooms, fun key hk => ?_, ?_⟩
  · refine flushBuffer_others s.buffers _ key ?_
    rintro rfl
    exact hk rfl
  · refine ⟨.processOffer e offer.sdp ::
      (s.buffers.flushBuffer ⟨some x, info.userId, offer.present⟩).2.map fun c => .addIceCandidate e c,
      ?_, ?_⟩
    · simp [Server.answerOffer, Server.callMedia, Server.send]
    · simp

theorem notifyEnter_within {roomId : Option String} {new : Option Endpoint} (s : Server) (user : String)
    (info : SessionInfo) (p : Participant) : Within roomId new s (s.notifyEnter user info p).1 := by
  have h := notifyEnter_notifies s user info p
  exact .of_eq h.rooms h.buffers h.media

/-- The connection that an INCOMING offer ends with, between two endpoints of one room. -/
def Connects (roomId : Option String) (s s' : Server) : Prop :=
  ∃ r room source sink, Target s.rooms roomId r ∧ s.rooms.heap[r]? = some room ∧ Has room source ∧
    Has room sink ∧ s' = s.callMedia (.connect source sink)

theorem entered_within {s t : Server} {r : RoomRef} {x : String} {info : SessionInfo} {offer : OfferMessage}
    {build : Option Endpoint} (h : Entered s info r offer build t) (hs : Stored s.rooms)
    (hx : s.rooms.roomIdRooms.lookup x = some r) : Within (some x) build s t := by
  rcases h with ⟨-, rfl⟩ | ⟨-, hj⟩
  · exact .refl t
  · have hw := joinConference_within hs hx info build
    rw [hj] at hw
    exact hw

/-- The end of an offer makes at most one connection, within the room. -/
theorem conclude_within {s : Server} {r : RoomRef} {x : String} {room : Room} {e : Endpoint}
    (hx : s.rooms.roomIdRooms.lookup x = some r) (hr : s.rooms.heap[r]? = some room) (he : Has room e)
    (user : String) (info : SessionInfo) (present : Option String) (epType : WebRtcEndpointType)
    (build : Option Endpoint) :
    Within (some x) build s (s.conclude user info r present epType e).1 ∨
      Connects (some x) s (s.conclude user info r present epType e).1 := by
  cases epType with
  | outgoing =>
    exact .inl (forAll_invariant (I := Within (some x) build s) _
      (fun t p ht => ht.trans (notifyEnter_within t user info p)) _ _ (.refl s))
  | incoming =>
    dsimp only [Server.conclude, Server.connectPresent]
    split
    · exact .inl (.refl s)
    · next p hp =>
      split
      · exact .inl (.refl s)
      · next out hout =>
        obtain ⟨room', hr', hp⟩ := Option.bind_eq_some_iff.mp hp
        obtain rfl := Option.some.inj (hr.symm.trans hr')
        obtain ⟨q, -, hp⟩ := Option.bind_eq_some_iff.mp hp
        exact .inr ⟨r, room, out, e, ⟨x, rfl, hx⟩, hr, ⟨q, p, hp, .inl hout⟩, he, rfl⟩
  | customOutgoing => exact .inl (.refl s)
  | customIncoming => exact .inl (.refl s)

theorem offerInRoom_within {s : Server} {r : RoomRef} {x : String} (hs : Stored s.rooms)
    (hx : s.rooms.roomIdRooms.lookup x = some r) (user : String) (info : SessionInfo)
    (offer : OfferMessage) (build : Option Endpoint) :
    ∃ t, Within (some x) build s t ∧
      ((s.offerInRoom user info x r offer build).1 = t ∨
        Connects (some x) t (s.offerInRoom user info x r offer build).1) := by
  rcases offerInRoom_cases s user info x r offer build with
    ⟨failure, h⟩ | ⟨t, ht, ⟨failure, h⟩ | ⟨t', epType, e, hfound, h⟩⟩
  · rw [h]
    exact ⟨s, .refl s, .inl rfl⟩
  · rw [h]
    exact ⟨t, entered_within ht hs hx, .inl rfl⟩
  · rw [h]
    have hentered := entered_within ht hs hx
    have hx₁ := (hentered.rooms.map x).trans hx
    have hw := (hentered.trans (found_within hfound (hentered.rooms.stored hs) hx₁)).trans
      (answerOffer_within t' user info x offer epType e)
    obtain ⟨room, hr, he⟩ := found_has hfound
    rcases conclude_within (s := t'.answerOffer user info x offer epType e)
      ((hw.rooms.map x).trans hx) hr he user info offer.present epType build with hend | hconnects
    · exact ⟨_, hw.trans hend, .inl rfl⟩
    · exact ⟨_, hw, .inr hconnects⟩

/-- The buffer of a candidate has been asked to take it. -/
def cached (s : Server) (info : SessionInfo) (message : CandidateMessage) : BufferManger × Bool :=
  s.buffers.cache ⟨roomOf info message.roomId, info.userId, message.present⟩ message.iceCandidate

/-- A candidate that its buffer does not take goes to an endpoint of the room of its session. -/
theorem handleCandidate_cases (s : Server) (user : String) (message : CandidateMessage)
    (build : Option Endpoint) :
    (s.sessions.findSessionInfo user = none ∧ (handleCandidate s user message build).1 = s) ∨
      ∃ info, s.sessions.findSessionInfo user = some info ∧
        ((handleCandidate s user message build).1 = { s with buffers := (cached s info message).1 } ∨
          ∃ x r s' epType e, (cached s info message).2 = false ∧ roomOf info message.roomId = some x ∧
            s.rooms.roomIdRooms.lookup x = some r ∧
            Found { s with buffers := (cached s info message).1 } r info.userId message.target build
              s' epType e ∧
            (handleCandidate s user message build).1 =
              s'.callMedia (.addIceCandidate e message.iceCandidate)) := by
  unfold handleCandidate
  split
  · next hinfo => exact .inl ⟨hinfo, rfl⟩
  · next info hinfo =>
    refine .inr ⟨info, hinfo, ?_⟩
    dsimp only
    split
    · exact .inl rfl
    · next hflush =>
      unfold candidateInRoom
      split
      · exact .inl rfl
      · next x hx =>
        split
        · exact .inl rfl
        · next r hr =>
          rcases withEndpoint_cases { s with buffers := (cached s info message).1 } r info.userId
            message.target build
            fun s _ e => (s.callMedia (.addIceCandidate e message.iceCandidate), none) with
            ⟨failure, h⟩ | ⟨s', epType, e, hfound, h⟩
          · exact .inl (congrArg Prod.fst h)
          · exact .inr ⟨x, r, s', epType, e, Bool.eq_false_iff.mpr hflush, hx, hr, hfound,
              congrArg Prod.fst h⟩

theorem cached_within (s : Server) (info : SessionInfo) (message : CandidateMessage)
    {new : Option Endpoint} :
    Within (roomOf info message.roomId) new s { s with buffers := (cached s info message).1 } := by
  refine ⟨.refl s.rooms, fun key hk => ?_, [], by simp⟩
  refine cache_others s.buffers _ key _ ?_
  rintro rfl
  exact hk rfl

/-! ## Every endpoint is in one room -/

/-- `n` is the number of the next endpoint. -/
structure Owned (m : RoomManager) (n : Endpoint) : Prop where
  stored : Stored m
  below : ∀ (r : RoomRef) (room : Room) (e : Endpoint), m.heap[r]? = some room → Has room e → e < n
  apart : ∀ (r r' : RoomRef) (room room' : Room) (e : Endpoint), m.heap[r]? = some room →
    m.heap[r']? = some room' → Has room e → Has room' e → r = r'

theorem Owned.passive {s s' : Server} {n : Endpoint} (h : Owned s.rooms n) (hp : Passive s s') :
    Owned s'.rooms (n + 1) where
  stored := hp.stored h.stored
  below r room e hr he := by
    obtain ⟨room₀, hr₀, he₀⟩ := hp.wanes r room e hr he
    exact Nat.lt_succ_of_lt (h.below r room₀ e hr₀ he₀)
  apart r r' room room' e hr hr' he he' := by
    obtain ⟨room₀, hr₀, he₀⟩ := hp.wanes r room e hr he
    obtain ⟨room₁, hr₁, he₁⟩ := hp.wanes r' room' e hr' he'
    exact h.apart r r' room₀ room₁ e hr₀ hr₁ he₀ he₁

/-- The endpoint just built is in no room yet. -/
theorem Owned.touch {m m' : RoomManager} {n : Endpoint} {roomId : Option String} {new : Option Endpoint}
    (h : Owned m n) (ht : Touch roomId new m m') (hnew : ∀ e, new = some e → e = n) :
    Owned m' (n + 1) where
  stored := ht.stored h.stored
  below r room e hr he := by
    rcases ht.gains r room e hr he with ⟨room₀, hr₀, he₀⟩ | ⟨hn, -⟩
    · exact Nat.lt_succ_of_lt (h.below r room₀ e hr₀ he₀)
    · rw [hnew e hn]
      exact Nat.lt_succ_self n
  apart r r' room room' e hr hr' he he' := by
    rcases ht.gains r room e hr he with ⟨room₀, hr₀, he₀⟩ | ⟨hn, htarget⟩ <;>
      rcases ht.gains r' room' e hr' he' with ⟨room₁, hr₁, he₁⟩ | ⟨hn', htarget'⟩
    · exact h.apart r r' room₀ room₁ e hr₀ hr₁ he₀ he₁
    · exact absurd (hnew e hn') (Nat.ne_of_lt (h.below r room₀ e hr₀ he₀))
    · exact absurd (hnew e hn) (Nat.ne_of_lt (h.below r' room₁ e hr₁ he₁))
    · exact htarget.unique htarget'

theorem build_eq (s : Media) (kurento : Bool) (e : Endpoint) (h : s.build kurento = some e) :
    e = s.endpoint := by
  unfold Media.build at h
  split at h
  · exact (Option.some.inj h).symm
  · cases h

/-- The room that a message with the field `roomId` is for. -/
def messageRoom (s : Server) (user : String) (roomId : Option String) : Option String :=
  (s.sessions.findSessionInfo user).bind fun info => roomOf info roomId

theorem messageRoom_eq {s : Server} {user : String} {info : SessionInfo}
    (h : s.sessions.findSessionInfo user = some info) (roomId : Option String) :
    messageRoom s user roomId = roomOf info roomId := by
  simp [messageRoom, h]

theorem handleOffer_within (s : Server) (hs : Stored s.rooms) (user : String) (offer : OfferMessage)
    (build : Option Endpoint) :
    ∃ t, Within (messageRoom s user offer.roomId) build s t ∧
      ((s.handleOffer user offer build).1 = t ∨
        Connects (messageRoom s user offer.roomId) t (s.handleOffer user offer build).1) := by
  rcases handleOffer_cases s user offer build with ⟨⟨failure, h⟩, -⟩ | ⟨info, x, r, hreach, h⟩
  · rw [h]
    exact ⟨s, .refl s, .inl rfl⟩
  · rw [h, messageRoom_eq hreach.session, hreach.room]
    exact offerInRoom_within hs hreach.stored user info offer build

theorem handleCandidate_within (s : Server) (hs : Stored s.rooms) (user : String)
    (message : CandidateMessage) (build : Option Endpoint) :
    Within (messageRoom s user message.roomId) build s (handleCandidate s user message build).1 := by
  rcases handleCandidate_cases s user message build with
    ⟨-, h⟩ | ⟨info, hinfo, h | ⟨x, r, s', epType, e, -, hx, hr, hfound, h⟩⟩
  · rw [h]
    exact .refl s
  · rw [h, messageRoom_eq hinfo]
    exact cached_within s info message
  · have hw : Within (roomOf info message.roomId) build s _ := cached_within s info message
    rw [h, messageRoom_eq hinfo, hx]
    rw [hx] at hw
    refine (hw.trans (found_within hfound hs hr)).trans ⟨.refl _, fun _ _ => rfl, _, rfl, ?_⟩
    simp

theorem dispatch_notifies (s : Server) (receiver : Option String) (unknown : CommonCode)
    (toUser : String → Message) (toRoom : Message) : Notifies s (dispatch s receiver unknown toUser toRoom).1 := by
  unfold dispatch
  split
  · split <;> exact ⟨rfl, rfl, rfl, rfl⟩
  · exact ⟨rfl, rfl, rfl, rfl⟩

theorem handleRecord_notifies (s : Server) (user : String) (isAgent : Bool) (type : Option RecordControlType) :
    Notifies s (handleRecord s user isAgent type).1 := by
  unfold handleRecord
  split
  · exact ⟨rfl, rfl, rfl, rfl⟩
  · split
    · split
      · exact ⟨rfl, rfl, rfl, rfl⟩
      · split <;> exact ⟨rfl, rfl, rfl, rfl⟩
    · exact ⟨rfl, rfl, rfl, rfl⟩

theorem handleChat_notifies (s : Server) (user : String) (message : ChatMessage) :
    Notifies s (handleChat s user message).1 := by
  unfold handleChat
  split
  · exact ⟨rfl, rfl, rfl, rfl⟩
  · split
    · exact dispatch_notifies s _ _ _ _
    · exact ⟨rfl, rfl, rfl, rfl⟩

theorem handleData_notifies (s : Server) (user : String) (message : DataMessage) :
    Notifies s (handleData s user message).1 := by
  unfold handleData
  split
  · exact ⟨rfl, rfl, rfl, rfl⟩
  · exact dispatch_notifies s _ _ _ _

/-- The offers and candidates. -/
def isMedia : Event → Bool
  | .offer _ _ _ => true
  | .candidate _ _ _ => true
  | _ => false

theorem step_passive (s : Media) (e : Event) (he : isMedia e = false) :
    Passive s.server (step s e).server := by
  cases e with
  | createRoom roomId wrapper now => exact createRoom_passive s.server roomId wrapper now
  | connect user userId roomId =>
    show Passive s.server (s.server.preSend user userId roomId).1
    rw [preSend_fst]
    exact .of_eq rfl rfl
  | connected user userId roomId =>
    exact andThen_invariant (I := Passive s.server) _ _ (unregister_passive s.server user)
      fun t h => h.trans (.of_eq rfl rfl)
  | disconnect user => exact unregister_passive s.server user
  | registerMonitor user userId =>
    simp only [step, handle, registerMonitor]
    split <;> exact .of_eq rfl rfl
  | fireTtl task now => exact fireTtl_passive s.server task now
  | kurentoDown order kmsUrl => exact kurentoDown_passive s.server order kmsUrl
  | monitor user message => exact handleMonitor_passive s.server user message
  | offer user offer kurento => cases he
  | candidate user message kurento => cases he
  | record user isAgent type => exact .of_notifies (handleRecord_notifies s.server user isAgent type)
  | chat user message => exact .of_notifies (handleChat_notifies s.server user message)
  | data user message => exact .of_notifies (handleData_notifies s.server user message)

theorem step_owned (s : Media) (e : Event) (h : Owned s.server.rooms s.endpoint) :
    Owned (step s e).server.rooms (step s e).endpoint := by
  cases he : isMedia e with
  | false => exact h.passive (step_passive s e he)
  | true =>
    cases e with
    | offer user offer kurento =>
      obtain ⟨t, hw, ht⟩ := handleOffer_within s.server h.stored user offer (s.build kurento)
      have hrooms : (step s (.offer user offer kurento)).server.rooms = t.rooms := by
        rcases ht with ht | ⟨r, room, source, sink, -, -, -, -, ht⟩
        · exact congrArg Server.rooms ht
        · exact (congrArg Server.rooms ht :)
      rw [hrooms]
      exact h.touch hw.rooms (build_eq s kurento)
    | candidate user message kurento =>
      exact h.touch (handleCandidate_within s.server h.stored user message _).rooms (build_eq s kurento)
    | _ => cases he

theorem run_owned (roomDeleteTtl : Nat) (events : List Event) :
    Owned (run step (Media.init roomDeleteTtl) events).server.rooms
      (run step (Media.init roomDeleteTtl) events).endpoint := by
  refine run_invariant (I := fun s : Media => Owned s.server.rooms s.endpoint) step_owned _ events ?_
  refine ⟨?_, ?_, ?_⟩
  · rintro x r hx
    cases hx
  · rintro r room e hr
    cases hr
  · rintro r r' room room' e hr
    cases hr

end MediaEndpoints

import Mathlib.Logic.Relation
import SpringStudy.MediaOffers

/-!
# What the handlers ask of the room manager

However a message is handled, the rooms change only by a few calls: one call of a
conference user or of a timer, or a sequence of calls for a monitoring user or for
a media server that is down. What holds of the rooms over whole runs of the server
follows from what each of these calls does.
-/
namespace MediaActs

open Tables Outcomes TtlCaches Runs Relation MediaRoom MediaMessages
open MediaRoomManager hiding Event step
open MediaSession hiding Event step
open MediaSocket hiding Event step handle
open MediaEndpoints
open MediaPublishers (ConferenceOnly)

/-- `participant.createInEp` puts the changed participant back in its room. -/
def putBack (p : Participant) (room : Room) : Room × List Call :=
  ({ room with userIdParticipants := room.userIdParticipants.insert p.userId p }, [])

/-- A call that a conference user, a room request or a timer brings about. `new` is the
endpoint that Kurento builds if it is asked to. -/
inductive Act (cause : Event) (new : Option Endpoint) (m : RoomManager) : RoomManager → Prop where
  | createRoom {m' : RoomManager} {roomId : String} {wrapper : Option PipelineWrapper} {now : Nat}
      (hcause : cause = .createRoom roomId wrapper now) (hm : m.createRoom roomId wrapper now = some m') :
      Act cause new m m'
  | join {user : String} {offer : OfferMessage} {kurento : Bool} (hcause : cause = .offer user offer kurento)
      (roomId userId : String) : Act cause new m (m.handleRoom roomId (.join userId new))
  | createInEp {x : String} {r : RoomRef} {room : Room} {userId present : String} {p p' : Participant}
      {e : Endpoint} (hx : m.roomIdRooms.lookup x = some r) (hr : m.heap[r]? = some room)
      (hp : room.userIdParticipants.lookup userId = some p)
      (he : p.createInEp present new = some (p', e)) : Act cause new m (m.onRoom r (putBack p'))
  | fireTtl {task : String × Nat} {now : Nat} (hcause : cause = .fireTtl task now) :
      Act cause new m (m.fireTtl task now)

/-- A call for a monitoring user, or one that reports a media server as down. -/
inductive Watch (m : RoomManager) : RoomManager → Prop where
  | joinWithOnlyIncoming (roomId userId : String) :
      Watch m (m.handleRoom roomId (.joinWithOnlyIncoming userId))
  | leave (roomId userId : String) : Watch m (m.handleRoom roomId (.leave userId))
  | down (r : RoomRef) : Watch m (m.onRoom r Room.releaseWithKurentoDown)

/-- Nothing has been asked, or one thing for a conference user. -/
def AtMostOne (cause : Event) (new : Option Endpoint) (m m' : RoomManager) : Prop :=
  m' = m ∨ Act cause new m m'

/-! ## The handlers of conference users -/

theorem found_atMostOne (cause : Event) {s s' : Server} {r : RoomRef} {roomId userId : String}
    {offer : OfferMessage} {build : Option Endpoint} {epType : WebRtcEndpointType} {e : Endpoint}
    (hx : s.rooms.roomIdRooms.lookup roomId = some r)
    (hfound : Found s r userId offer build s' epType e) : AtMostOne cause build s.rooms s'.rooms := by
  cases hfound with
  | outgoing _ _ _ _ => exact .inl rfl
  | incoming hr hp _ _ he => exact .inr (.createInEp hx hr hp he)

theorem entered_atMostOne (cause : Event) {user : String} {offer : OfferMessage} {kurento : Bool}
    (hcause : cause = .offer user offer kurento) {s t : Server} {r : RoomRef} {roomId : String}
    {info : SessionInfo} {build : Option Endpoint} (hx : s.rooms.roomIdRooms.lookup roomId = some r)
    (ht : Entered s info r offer build t) : AtMostOne cause build s.rooms t.rooms := by
  rcases ht with ⟨-, rfl⟩ | ⟨-, hj⟩
  · exact .inl rfl
  · rcases joinConference_cases s info r build with ⟨failure, hfailed⟩ | hok
    · rw [hfailed] at hj
      cases hj
    · rw [hok] at hj
      cases hj
      have h : Act cause build s.rooms _ := .join hcause roomId info.userId
      simp only [RoomManager.handleRoom, hx] at h
      exact .inr h

/-- An OUTGOING offer joins the room and then finds the endpoint there; an INCOMING one does
not join. The rest of the handler, if it comes so far, has an endpoint of the room. -/
theorem offerInRoom_reaches (cause : Event) {user : String} {offer : OfferMessage} {kurento : Bool}
    (hcause : cause = .offer user offer kurento) {s : Server} {r : RoomRef} {roomId : String}
    (info : SessionInfo) (build : Option Endpoint) (hx : s.rooms.roomIdRooms.lookup roomId = some r) :
    ∃ t : Server, AtMostOne cause build s.rooms t.rooms ∧ Spares s t ∧
      ((s.offerInRoom user info roomId r offer build).1 = t ∨
        ∃ epType e, (∃ room, t.rooms.heap[r]? = some room ∧ Has room e) ∧
          s.offerInRoom user info roomId r offer build = Server.respond user info roomId r offer t epType e) := by
  rcases offerInRoom_cases s user info roomId r offer build with
    ⟨failure, h⟩ | ⟨t, ht, ⟨failure, h⟩ | ⟨t', epType, e, hfound, h⟩⟩
  · exact ⟨s, .inl rfl, .refl s, .inl (by rw [h])⟩
  · exact ⟨t, entered_atMostOne cause hcause hx ht, ht.spares, .inl (by rw [h])⟩
  · refine ⟨t', ?_, ht.spares.trans hfound.spares, .inr ⟨epType, e, found_has hfound, h⟩⟩
    have hentered := entered_atMostOne cause hcause hx ht
    -- only one of the two has changed the rooms
    rcases ht with ⟨-, rfl⟩ | ⟨hjoins, -⟩
    · exact found_atMostOne cause hx hfound
    · cases hfound with
      | outgoing _ _ _ _ => exact hentered
      | incoming _ _ htype _ _ => exact absurd (hjoins.2.symm.trans htype) (by decide)

theorem handleOffer_stores (s : Server) (user : String) (offer : OfferMessage) (kurento : Bool)
    (build : Option Endpoint) :
    AtMostOne (.offer user offer kurento) build s.rooms (s.handleOffer user offer build).1.rooms ∧
      (s.handleOffer user offer build).1.sessions = s.sessions := by
  rcases handleOffer_cases s user offer build with ⟨⟨failure, h⟩, -⟩ | ⟨info, x, r, hreach, h⟩
  · rw [h]
    exact ⟨.inl rfl, rfl⟩
  · obtain ⟨t, ht, hspares, heq | ⟨epType, e, -, heq⟩⟩ :=
      offerInRoom_reaches (.offer user offer kurento) rfl info build hreach.stored
    · rw [h, heq]
      exact ⟨ht, hspares.sessions⟩
    · obtain ⟨hrooms, hsessions, -⟩ := respond_stores user info x r offer t epType e
      rw [h, heq, hrooms, hsessions]
      exact ⟨ht, hspares.sessions⟩

theorem handleCandidate_stores (cause : Event) (s : Server) (user : String) (message : CandidateMessage)
    (build : Option Endpoint) :
    AtMostOne cause build s.rooms (handleCandidate s user message build).1.rooms ∧
      (handleCandidate s user message build).1.sessions = s.sessions := by
  rcases handleCandidate_cases s user message build with
    ⟨-, h⟩ | ⟨info, -, h | ⟨x, r, s', epType, e, -, -, hr, hfound, h⟩⟩
  · rw [h]
    exact ⟨.inl rfl, rfl⟩
  · rw [h]
    exact ⟨.inl rfl, rfl⟩
  · have hone := found_atMostOne (s := { s with buffers := (cached s info message).1 }) cause hr hfound
    have hsessions := hfound.spares.sessions
    rw [h]
    exact ⟨hone, hsessions⟩

theorem createRoom_atMostOne (s : Server) (roomId : String) (wrapper : Option PipelineWrapper) (now : Nat) :
    AtMostOne (.createRoom roomId wrapper now) none s.rooms (s.createRoom roomId wrapper now).1.rooms := by
  unfold Server.createRoom
  split
  · exact .inl rfl
  · next m hm => exact .inr (.createRoom rfl hm)

theorem withRooms_rooms (s : Server) (m : RoomManager) : (s.withRooms m).1.rooms = m :=
  (withRooms_notifies s m).rooms

/-! ## The handlers of monitoring users -/

/-- Some session has a monitor ticket. -/
def Monitored (s : Server) : Prop :=
  ∃ user info, s.sessions.findSessionInfo user = some info ∧ info.ticketType = .monitor

theorem not_monitored {s : Server} (h : ConferenceOnly s.sessions) : ¬ Monitored s := by
  rintro ⟨user, info, hinfo, hticket⟩
  exact absurd (hticket.symm.trans (h user info hinfo)) (by decide)

/-- The rooms stay, or some monitoring user has made the calls. -/
def Watched (s s' : Server) : Prop := s'.rooms = s.rooms ∨ ReflTransGen Watch s.rooms s'.rooms ∧ Monitored s

theorem leaveAllRoom_watches (s : Server) (userId : String) :
    ReflTransGen Watch s.rooms (s.leaveAllRoom userId).1.rooms := by
  unfold Server.leaveAllRoom
  split
  · exact .refl
  · refine forAll_invariant (I := fun t : Server => ReflTransGen Watch s.rooms t.rooms) _ ?_ _ _ .refl
    intro t roomId ht
    rw [withRooms_rooms]
    exact ht.tail (.leave roomId userId)

theorem kurentoDown_watches (s : Server) (order : Traversal RoomRef) (kmsUrl : String) :
    ReflTransGen Watch s.rooms (s.kurentoDown order kmsUrl).1.rooms := by
  refine forAll_invariant (I := fun t : Server => ReflTransGen Watch s.rooms t.rooms) _ ?_ _ _ .refl
  intro t r ht
  rw [withRooms_rooms]
  exact ht.tail (.down r)

/-- The session that `unregister` takes out tells whether the user watched or took part. -/
theorem unregister_watched (s : Server) (user : String) : Watched s (s.unregister user).1 := by
  unfold Server.unregister
  cases hs : s.sessions.findSessionInfo user with
  | none =>
    rw [unregister_none _ user hs]
    exact .inl rfl
  | some info =>
    rw [unregister_some _ user info hs]
    unfold Server.handleLeave
    dsimp only
    split
    · next hticket =>
      refine .inr ⟨?_, user, info, hs, hticket⟩
      generalize ht : ({ s with
        sessions := _, buffers := s.buffers.release info.userId } : Server) = t
      have hrooms : t.rooms = s.rooms := by rw [← ht]
      rw [← hrooms]
      exact leaveAllRoom_watches t info.userId
    · exact .inl (leaveConference_notifies _ info).rooms

theorem handleMonitor_watched (s : Server) (user : String) (message : MonitorMessage) :
    Watched s (handleMonitor s user message).1 := by
  unfold handleMonitor
  split
  · exact .inl rfl
  · next info hinfo =>
    split
    · next hticket =>
      refine .inr ⟨?_, user, info, hinfo, hticket⟩
      split
      · unfold MediaMonitor.leaveRoom
        rw [withRooms_rooms]
        exact .single (.leave message.roomId info.userId)
      · have hjoin : ReflTransGen Watch s.rooms
            (s.rooms.handleRoom message.roomId (.joinWithOnlyIncoming info.userId)) :=
          .single (.joinWithOnlyIncoming message.roomId info.userId)
        unfold MediaMonitor.joinRoom
        dsimp only
        split
        · exact .refl
        · split
          · exact hjoin
          · rw [(MediaMonitor.notifyPublishers_notifies _ user _).rooms]
            exact hjoin
    · exact .inl rfl

/-! ## Every step -/

/-- What some caller in the source brings about: no session gets a monitor ticket, and
nobody listens to the event of a media server that is down. -/
def ordinary : Event → Bool
  | .registerMonitor _ _ => false
  | .kurentoDown _ _ => false
  | _ => true

/-- What a step asks of the manager. -/
def Asks (s : Media) (e : Event) (m' : RoomManager) : Prop :=
  ∃ new, (∀ n, new = some n → n = s.endpoint) ∧
    (AtMostOne e new s.server.rooms m' ∨
      ReflTransGen Watch s.server.rooms m' ∧ (ordinary e = false ∨ Monitored s.server))

theorem Asks.same {s : Media} {e : Event} {m' : RoomManager} (h : m' = s.server.rooms) : Asks s e m' :=
  ⟨none, fun n hn => (by cases hn), .inl (.inl h)⟩

theorem Asks.watched {s : Media} {e : Event} {s' : Server} (h : Watched s.server s') : Asks s e s'.rooms := by
  rcases h with h | ⟨hw, hm⟩
  · exact .same h
  · exact ⟨none, fun n hn => (by cases hn), .inr ⟨hw, .inr hm⟩⟩

theorem step_asks (s : Media) (e : Event) : Asks s e (step s e).server.rooms := by
  cases e with
  | createRoom roomId wrapper now =>
    exact ⟨none, fun n hn => (by cases hn), .inl (createRoom_atMostOne s.server roomId wrapper now)⟩
  | connect user userId roomId =>
    refine .same ?_
    show (s.server.preSend user userId roomId).1.rooms = _
    rw [preSend_fst]
    rfl
  | connected user userId roomId =>
    have hw : Watched s.server (s.server.handleSessionConnectedListener user userId roomId).1 :=
      andThen_invariant (I := Watched s.server) _ _ (unregister_watched s.server user) fun _ ht => ht
    exact .watched hw
  | disconnect user => exact .watched (unregister_watched s.server user)
  | registerMonitor user userId =>
    refine .same ?_
    show (registerMonitor s.server user userId).1.rooms = _
    unfold registerMonitor
    split <;> rfl
  | fireTtl task now =>
    have hrooms : (step s (.fireTtl task now)).server.rooms = s.server.rooms.fireTtl task now :=
      withRooms_rooms s.server _
    rw [hrooms]
    exact ⟨none, fun n hn => (by cases hn), .inl (.inr (.fireTtl rfl))⟩
  | kurentoDown order kmsUrl =>
    exact ⟨none, fun n hn => (by cases hn), .inr ⟨kurentoDown_watches s.server order kmsUrl, .inl rfl⟩⟩
  | monitor user message => exact .watched (handleMonitor_watched s.server user message)
  | offer user offer kurento =>
    exact ⟨s.build kurento, build_eq s kurento, .inl (handleOffer_stores s.server user offer kurento _).1⟩
  | candidate user message kurento =>
    exact ⟨s.build kurento, build_eq s kurento, .inl (handleCandidate_stores _ s.server user message _).1⟩
  | record user isAgent type => exact .same (handleRecord_notifies s.server user isAgent type).rooms
  | chat user message => exact .same (handleChat_notifies s.server user message).rooms
  | data user message => exact .same (handleData_notifies s.server user message).rooms

/-! ## The sessions -/

theorem unregister_sessions (s : Server) (user : String) :
    (s.unregister user).1.sessions = (unregister s.sessions user).1 := by
  unfold Server.unregister
  split
  · next hm => rw [hm]
  · next m info hm =>
    rw [hm]
    unfold Server.handleLeave
    dsimp only
    split
    · exact (leaveAllRoom_spares _ info.userId).sessions
    · exact (leaveConference_notifies _ info).sessions

/-- Sessions come and go by `register` and `unregister` only. -/
theorem step_sessions {I : SessionManager → Prop}
    (hregister : ∀ m user userId roomId, I m → I (register m user userId roomId).1)
    (hunregister : ∀ m user, I m → I (unregister m user).1) (s : Media) (e : Event)
    (he : ordinary e = true) (h : I s.server.sessions) : I (step s e).server.sessions := by
  have same : ∀ {m : SessionManager}, m = s.server.sessions → I m := fun hm => hm ▸ h
  cases e with
  | createRoom roomId wrapper now => exact same (createRoom_spares s.server roomId wrapper now).sessions
  | connect user userId roomId =>
    show I (s.server.preSend user userId roomId).1.sessions
    rw [preSend_fst]
    exact hregister _ user userId roomId h
  | connected user userId roomId =>
    refine andThen_invariant (I := fun t : Server => I t.sessions) _ _ ?_
      fun t ht => hregister _ user userId roomId ht
    rw [unregister_sessions]
    exact hunregister _ user h
  | disconnect user =>
    show I (s.server.unregister user).1.sessions
    rw [unregister_sessions]
    exact hunregister _ user h
  | registerMonitor user userId => cases he
  | kurentoDown order kmsUrl => cases he
  | fireTtl task now => exact same (withRooms_spares s.server _).sessions
  | monitor user message => exact same (handleMonitor_spares s.server user message).sessions
  | offer user offer kurento => exact same (handleOffer_stores s.server user offer kurento _).2
  | candidate user message kurento =>
    exact same (handleCandidate_stores (.candidate user message kurento) s.server user message _).2
  | record user isAgent type => exact same (handleRecord_notifies s.server user isAgent type).sessions
  | chat user message => exact same (handleChat_notifies s.server user message).sessions
  | data user message => exact same (handleData_notifies s.server user message).sessions

/-! ## Invariants of the rooms -/

theorem watches_keep {I : RoomManager → Prop} (hwatch : ∀ m m', Watch m m' → I m → I m')
    {m m' : RoomManager} (hw : ReflTransGen Watch m m') (h : I m) : I m' := by
  induction hw with
  | refl => exact h
  | tail _ hlast ih => exact hwatch _ _ hlast ih

/-- What every call keeps, every step keeps. -/
theorem step_keeps {I : RoomManager → Prop} (s : Media) (e : Event) (hact : ∀ new m m', Act e new m m' → I m → I m')
    (hwatch : ∀ m m', Watch m m' → I m → I m') (h : I s.server.rooms) :
    I (step s e).server.rooms := by
  obtain ⟨new, -, (hsame | hone) | ⟨hw, -⟩⟩ := step_asks s e
  · rw [hsame]
    exact h
  · exact hact new _ _ hone h
  · exact watches_keep hwatch hw h

/-- A TTL task changes the cache, and it may release a room. -/
theorem fireTtl_shape (m : RoomManager) (task : String × Nat) (now : Nat) :
    ∃ roomTtl, m.fireTtl task now = { m with roomTtl := roomTtl } ∨
      ∃ r, m.fireTtl task now = ({ m with roomTtl := roomTtl } : RoomManager).onRoom r Room.release := by
  refine ⟨(TtlCaches.fire hasCome m.roomTtl task now).1, ?_⟩
  unfold RoomManager.fireTtl
  dsimp only
  split
  · exact .inl rfl
  · next r _ => exact .inr ⟨r, rfl⟩

section
variable {cause : Event} {new : Option Endpoint} {m m' : RoomManager}

/-- A method that calls nothing and keeps the id changes no store of the manager. -/
theorem onRoom_silent_inv (h : Inv m) (r : RoomRef) {f : Room → Room × List Call}
    (hf : ∀ room, (f room).1.roomId = room.roomId ∧ (f room).2 = []) : Inv (m.onRoom r f) := by
  cases hr : m.heap[r]? with
  | none =>
    simp only [RoomManager.onRoom, hr]
    exact h
  | some room =>
    obtain ⟨hid, hcalls⟩ := hf room
    have heq : m.onRoom r f = { m with heap := m.heap.set r (f room).1 } := by
      rw [onRoom_eq hr, hcalls]
      rfl
    have hlocal : Local room (f room) := ⟨hid, by simp [hcalls]⟩
    refine ⟨?_, onRoom_stored hr hlocal h.stored, onRoom_allocated hr h.allocated⟩
    rw [heq]
    exact h.key

theorem act_inv (hact : Act cause new m m') (h : Inv m) : Inv m' := by
  cases hact with
  | createRoom _ hm => exact createRoom_inv m m' _ _ _ hm h
  | join _ roomId userId => exact handleRoom_inv m roomId _ h
  | createInEp _ _ _ _ => exact onRoom_silent_inv h _ fun _ => ⟨rfl, rfl⟩
  | fireTtl _ => exact fireTtl_inv m _ _ h

theorem watch_inv (hwatch : Watch m m') (h : Inv m) : Inv m' := by
  cases hwatch with
  | joinWithOnlyIncoming roomId userId => exact handleRoom_inv m roomId _ h
  | leave roomId userId => exact handleRoom_inv m roomId _ h
  | down r => exact releaseWithKurentoDown_inv m r h

end

/-- The map and the TTL cache stay in step whatever messages come. -/
theorem step_inv (s : Media) (e : Event) (h : Inv s.server.rooms) : Inv (step s e).server.rooms :=
  step_keeps s e (fun _ _ _ => act_inv) (fun _ _ => watch_inv) h

/-! ## Room objects -/

/-- Every room object is still there, with the id, the url and the pipeline it was built with. -/
def Persists (m m' : RoomManager) : Prop :=
  ∀ (r : RoomRef) (room : Room), m.heap[r]? = some room →
    ∃ room', m'.heap[r]? = some room' ∧ room'.emptied = room.emptied

theorem Persists.refl (m : RoomManager) : Persists m m := fun _ room hr => ⟨room, hr, rfl⟩

theorem Persists.trans {a b c : RoomManager} (h : Persists a b) (h' : Persists b c) : Persists a c := by
  intro r room hr
  obtain ⟨room', hr', he⟩ := h r room hr
  obtain ⟨room'', hr'', he'⟩ := h' r room' hr'
  exact ⟨room'', hr'', he'.trans he⟩

section
variable {cause : Event} {new : Option Endpoint} {m m' : RoomManager}

theorem onRoom_persists (m : RoomManager) (r : RoomRef) {f : Room → Room × List Call}
    (hf : ∀ room, (f room).1.emptied = room.emptied) : Persists m (m.onRoom r f) := by
  intro r' room' hr'
  cases hr : m.heap[r]? with
  | none =>
    simp only [RoomManager.onRoom, hr]
    exact ⟨room', hr', rfl⟩
  | some room =>
    by_cases he : r' = r
    · subst he
      obtain rfl := Option.some.inj (hr.symm.trans hr')
      exact ⟨(f room).1, onRoom_heap_self hr, hf room⟩
    · exact ⟨room', (onRoom_heap_other hr he).trans hr', rfl⟩

theorem call_emptied (room : Room) (op : RoomOp) : (room.call op).1.emptied = room.emptied := by
  cases op with
  | join userId build =>
    simp only [Room.call, Room.join]
    split <;> rfl
  | joinWithOnlyIncoming userId =>
    simp only [Room.call, Room.joinWithOnlyIncoming]
    split <;> rfl
  | leave userId => exact Room.leave_emptied room userId
  | release =>
    simp only [Room.call, Room.release_fst]
    rfl

theorem handleRoom_persists (m : RoomManager) (roomId : String) (op : RoomOp) :
    Persists m (m.handleRoom roomId op) := by
  unfold RoomManager.handleRoom
  split
  · exact .refl m
  · exact onRoom_persists m _ fun room => call_emptied room op

theorem act_persists (hact : Act cause new m m') : Persists m m' := by
  cases hact with
  | createRoom _ hm =>
    rcases createRoom_cases hm with rfl | ⟨url, pipeline, -, -, rfl⟩
    · exact .refl m'
    · exact fun r room hr => ⟨room, heap_append _ hr, rfl⟩
  | join _ roomId userId => exact handleRoom_persists m roomId _
  | createInEp _ _ _ _ => exact onRoom_persists m _ fun room => rfl
  | @fireTtl task now _ =>
    obtain ⟨roomTtl, h | ⟨r, h⟩⟩ := fireTtl_shape m task now
    · rw [h]
      exact .refl m
    · rw [h]
      exact onRoom_persists { m with roomTtl := roomTtl } r fun room => call_emptied room .release

theorem watch_persists (hwatch : Watch m m') : Persists m m' := by
  cases hwatch with
  | joinWithOnlyIncoming roomId userId => exact handleRoom_persists m roomId _
  | leave roomId userId => exact handleRoom_persists m roomId _
  | down r => exact onRoom_persists m r fun _ => rfl

end

theorem step_persists (s : Media) (e : Event) : Persists s.server.rooms (step s e).server.rooms :=
  step_keeps s e (I := Persists s.server.rooms) (fun _ _ _ hact h => h.trans (act_persists hact))
    (fun _ _ hwatch h => h.trans (watch_persists hwatch)) (.refl _)

end MediaActs

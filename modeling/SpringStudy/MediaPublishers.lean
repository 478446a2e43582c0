import SpringStudy.MediaSocket

/-!
# Publishers and their sessions

A participant with an outgoing endpoint stays in its room until the room
closes, while its session goes with its socket. The handlers of the other
users look the session up by the participant's user id.
-/
namespace MediaPublishers

open Tables MediaRoom MediaSocket Outcomes TtlCaches
open MediaRoomManager hiding Event step
open MediaSession hiding Event step

/-- The room stored under `x` has the participant `u`, with an outgoing endpoint. -/
def Publishes (m : RoomManager) (x u : String) : Prop :=
  ∃ r room p, m.roomIdRooms.lookup x = some r ∧ m.heap[r]? = some room ∧
    room.userIdParticipants.lookup u = some p ∧ p.outWebRtcEndpoint.isSome = true

/-- Every publisher has a session, found by its user id, in the room it publishes in. -/
def Registered (s : Server) : Prop :=
  ∀ x u, Publishes s.rooms x u →
    ∃ info, s.sessions.findSessionInfoByUserId u = some info ∧ info.userId = u ∧ info.roomId = some x

/-- No session lookup for a participant comes back empty. -/
def FindsSessions (s : Server) (e : Event) : Prop :=
  ∀ u, (handle s e).2 ≠ some (.missingSession u)

/-- The session of a publisher is only replaced by one of the same user in the same room. -/
def KeepsPublishers (s : Server) : Event → Prop
  | .disconnect user => ∀ info, s.sessions.findSessionInfo user = some info →
      ∀ x, ¬ Publishes s.rooms x info.userId
  | .connected user userId roomId => ∀ info, s.sessions.findSessionInfo user = some info →
      ∀ x, Publishes s.rooms x info.userId → userId = some info.userId ∧ roomId = info.roomId
  | _ => True

/-! ## The rooms -/

/-- Everybody in the room publishes and is stored under their own user id. -/
def Publishing (room : Room) : Prop :=
  ∀ u p, room.userIdParticipants.lookup u = some p → p.userId = u ∧ p.outWebRtcEndpoint.isSome = true

/-- What holds of the rooms while only conference users come. -/
structure Conference (m : RoomManager) : Prop where
  stored : Stored m
  publishing : ∀ (r : RoomRef) room, m.heap[r]? = some room → Publishing room
  /-- A room that its TTL may still release is empty. -/
  unjoined : ∀ x r, m.roomTtl.cache.lookup x = some r →
    ∃ room, m.heap[r]? = some room ∧ room.roomId = x ∧ room.userIdParticipants = ∅

/-- The rooms stay those of a conference, and those who begin to publish are in
room `x` and in `who`. -/
structure Adds (m m' : RoomManager) (x : String) (who : String → Prop) : Prop where
  conference : Conference m'
  publishers : ∀ y v, Publishes m' y v → Publishes m y v ∨ (y = x ∧ who v)

theorem Adds.refl {m : RoomManager} (h : Conference m) (x : String) (who : String → Prop) :
    Adds m m x who :=
  ⟨h, fun _ _ hp => .inl hp⟩

theorem Adds.trans {m m' m'' : RoomManager} {x : String} {who : String → Prop} (h : Adds m m' x who)
    (h' : Adds m' m'' x who) : Adds m m'' x who := by
  refine ⟨h'.conference, ?_⟩
  intro y v hp
  rcases h'.publishers y v hp with hp | hp
  · exact h.publishers y v hp
  · exact .inr hp

section
variable {m : RoomManager} {r : RoomRef} {room : Room} {f : Room → Room × List Call}
  {who : String → Prop}

theorem onRoom_publishing (hr : m.heap[r]? = some room) (h : Conference m)
    (hpub : Publishing (f room).1) (r' : RoomRef) (room' : Room)
    (hr' : (m.onRoom r f).heap[r']? = some room') : Publishing room' := by
  rw [onRoom_heap hr] at hr'
  rcases set_cases hr' with ⟨-, rfl⟩ | ⟨-, hr'⟩
  · exact hpub
  · exact h.publishing r' room' hr'

/-- A method that leaves its room occupied has cancelled the room's TTL entry. -/
theorem onRoom_unjoined (hr : m.heap[r]? = some room) (hf : Local room (f room)) (h : Conference m)
    (hempty : m.roomTtl.cache.lookup room.roomId = some r →
      (f room).1.userIdParticipants = ∅ ∨ (f room).2.any isCallBack = true)
    (x : String) (r' : RoomRef) (hx : (m.onRoom r f).roomTtl.cache.lookup x = some r') :
    ∃ room', (m.onRoom r f).heap[r']? = some room' ∧ room'.roomId = x ∧
      room'.userIdParticipants = ∅ := by
  rw [onRoom_eq hr, performAll_ttl _ _ _ _ hf.about] at hx
  split at hx
  · cases hx
  · rename_i hkeep
    obtain ⟨room', hroom', hid, hnone⟩ := h.unjoined x r' hx
    by_cases he : r' = r
    · subst he
      rw [hr, Option.some.injEq] at hroom'
      subst hroom' hid
      refine ⟨(f room).1, onRoom_heap_self hr, hf.roomId, ?_⟩
      rcases hempty hx with hnobody | hcall
      · exact hnobody
      · exact absurd ⟨rfl, hcall⟩ hkeep
    · exact ⟨room', (onRoom_heap_other hr he).trans hroom', hid, hnone⟩

theorem onRoom_publishers (hr : m.heap[r]? = some room) (hf : Local room (f room)) (h : Stored m)
    (hnew : ∀ v p, (f room).1.userIdParticipants.lookup v = some p →
      who v ∨ ∃ p', room.userIdParticipants.lookup v = some p' ∧ p'.outWebRtcEndpoint.isSome = true)
    (y v : String) (hp : Publishes (m.onRoom r f) y v) :
    Publishes m y v ∨ (y = room.roomId ∧ who v) := by
  obtain ⟨r', room', p, hmap, hroom', hpart, hout⟩ := hp
  rw [onRoom_eq hr, performAll_rooms _ _ _ _ hf.about] at hmap
  rw [onRoom_heap hr] at hroom'
  split at hmap
  · cases hmap
  · rcases set_cases hroom' with ⟨rfl, rfl⟩ | ⟨-, hroom'⟩
    · obtain ⟨room'', hr'', hid⟩ := h y r' hmap
      rw [hr, Option.some.injEq] at hr''
      subst hr''
      rcases hnew v p hpart with hu | ⟨p', hp', hout'⟩
      · exact .inr ⟨hid.symm, hu⟩
      · exact .inl ⟨r', room, p', hmap, hr, hp', hout'⟩
    · exact .inl ⟨r', room', p, hmap, hroom', hpart, hout⟩

theorem onRoom_adds (hr : m.heap[r]? = some room) (hf : Local room (f room)) (h : Conference m)
    (hpub : Publishing (f room).1)
    (hempty : m.roomTtl.cache.lookup room.roomId = some r →
      (f room).1.userIdParticipants = ∅ ∨ (f room).2.any isCallBack = true)
    (hnew : ∀ v p, (f room).1.userIdParticipants.lookup v = some p →
      who v ∨ ∃ p', room.userIdParticipants.lookup v = some p' ∧ p'.outWebRtcEndpoint.isSome = true) :
    Adds m (m.onRoom r f) room.roomId who :=
  ⟨⟨onRoom_stored hr hf h.stored, onRoom_publishing hr h hpub, onRoom_unjoined hr hf h hempty⟩,
    onRoom_publishers hr hf h.stored hnew⟩

end

theorem join_adds {m : RoomManager} {r : RoomRef} {room : Room} (hr : m.heap[r]? = some room)
    (h : Conference m) (u : String) (build : Option Endpoint) :
    Adds m (m.onRoom r fun room => room.call (.join u build)) room.roomId (· = u) := by
  have hpub := h.publishing r room hr
  cases hu : room.userIdParticipants.lookup u with
  | some p =>
    have hcall : room.call (.join u build) = (room, [.joinRoomCallBack room.roomId]) := by
      simp [Room.call, Room.join, hu]
    apply onRoom_adds hr (call_local room _) h
    · simpa [hcall] using hpub
    · exact fun _ => .inr (by simp [hcall, isCallBack])
    · intro v p hv
      simp only [hcall] at hv
      exact .inr ⟨p, hv, (hpub v p hv).2⟩
  | none =>
    cases build with
    | none =>
      have hcall : room.call (.join u none) = (room, []) := by simp [Room.call, Room.join, hu]
      apply onRoom_adds hr (call_local room _) h
      · simpa [hcall] using hpub
      · intro hx
        obtain ⟨room', hroom', -, hnone⟩ := h.unjoined _ _ hx
        rw [hr, Option.some.injEq] at hroom'
        exact .inl (by rw [hcall, hroom', hnone])
      · intro v p hv
        simp only [hcall] at hv
        exact .inr ⟨p, hv, (hpub v p hv).2⟩
    | some e =>
      have hcall : room.call (.join u (some e)) =
          ({ room with userIdParticipants := room.userIdParticipants.insert u ⟨u, some e, ∅⟩ },
            [.joinRoomCallBack room.roomId]) := by simp [Room.call, Room.join, hu]
      apply onRoom_adds hr (call_local room _) h
      · intro v p hv
        simp only [hcall, lookup_put] at hv
        split at hv
        · rename_i he
          simp only [Option.some.injEq] at hv
          subst hv
          exact ⟨he.symm, rfl⟩
        · exact hpub v p hv
      · exact fun _ => .inr (by simp [hcall, isCallBack])
      · intro v p hv
        simp only [hcall, lookup_put] at hv
        split at hv
        · rename_i he; exact .inl he
        · exact .inr ⟨p, hv, (hpub v p hv).2⟩

theorem createRoom_adds {m m' : RoomManager} {roomId : String} {wrapper : Option PipelineWrapper}
    {now : Nat} (hc : m.createRoom roomId wrapper now = some m') (h : Conference m) :
    Adds m m' roomId fun _ => False := by
  have hstored := createRoom_stored hc h.stored
  rcases createRoom_cases hc with rfl | ⟨url, pipeline, -, -, rfl⟩
  · exact .refl h roomId _
  · refine ⟨⟨hstored, ?_, ?_⟩, ?_⟩
    · intro r room hr
      rcases append_cases hr with hr | rfl
      · exact h.publishing r room hr
      · intro u p hp
        simp [newRoom] at hp
    · intro x r hx
      simp only [lookup_cache_put] at hx
      split at hx
      · rename_i he
        simp only [Option.some.injEq] at hx
        subst hx he
        exact ⟨newRoom x url pipeline, by simp, rfl, rfl⟩
      · obtain ⟨room, hr, hid, hnone⟩ := h.unjoined x r hx
        exact ⟨room, heap_append _ hr, hid, hnone⟩
    · intro y v hp
      obtain ⟨r, room, p, hmap, hr, hpart, hout⟩ := hp
      rcases append_cases hr with hr | rfl
      · simp only [lookup_put] at hmap
        split at hmap
        · simp only [Option.some.injEq] at hmap
          subst hmap
          simp at hr
        · exact .inl ⟨r, room, p, hmap, hr, hpart, hout⟩
      · simp [newRoom] at hpart

theorem conference_of_ttl_le {m : RoomManager} {cache : Cache String RoomRef} (h : Conference m)
    (hle : ∀ x r, cache.cache.lookup x = some r → m.roomTtl.cache.lookup x = some r) :
    Conference { m with roomTtl := cache } :=
  ⟨h.stored, h.publishing, fun x r hx => h.unjoined x r (hle x r hx)⟩

/-- A TTL task that runs in a conference finds nothing to release, or closes one empty room. -/
theorem fireTtl_cases {m : RoomManager} (h : Conference m) (task : String × Nat) (now : Nat) :
    ∃ cache : Cache String RoomRef, Conference { m with roomTtl := cache } ∧
      (m.fireTtl task now = { m with roomTtl := cache } ∨
        ∃ (r : RoomRef) (room : Room), m.heap[r]? = some room ∧ room.userIdParticipants = ∅ ∧
          m.fireTtl task now = ({ m with roomTtl := cache } : RoomManager).onRoom r Room.release) := by
  have hcases := fire_cases hasCome m.roomTtl task now
  refine ⟨(fire hasCome m.roomTtl task now).1, ?_, ?_⟩
  · apply conference_of_ttl_le h
    intro x r hx
    rcases hcases with ⟨-, hc⟩ | ⟨-, hc⟩
    · rw [hc] at hx
      split at hx
      · cases hx
      · exact hx
    · rwa [hc] at hx
  · cases hv : (fire hasCome m.roomTtl task now).2 with
    | none => exact .inl (by simp [RoomManager.fireTtl, hv])
    | some r =>
      rcases hcases with ⟨hl, -⟩ | ⟨hl, -⟩
      · rw [hv] at hl
        obtain ⟨room, hr, -, hnone⟩ := h.unjoined task.1 r hl.symm
        exact .inr ⟨r, room, hr, hnone, by simp [RoomManager.fireTtl, hv]⟩
      · rw [hv] at hl
        cases hl

theorem release_adds {m : RoomManager} {r : RoomRef} {room : Room} (hr : m.heap[r]? = some room)
    (h : Conference m) : Adds m (m.onRoom r Room.release) room.roomId fun _ => False := by
  have hnobody : room.release.1.userIdParticipants = ∅ := by rw [Room.release_fst]; rfl
  apply onRoom_adds hr (release_local room) h
  · intro v p hv
    rw [hnobody] at hv
    cases hv
  · exact fun _ => .inl hnobody
  · intro v p hv
    rw [hnobody] at hv
    cases hv

/-! ## The sessions -/

theorem register_find {m : SessionManager} {v : String} {info : SessionInfo}
    (h : m.findSessionInfoByUserId v = some info) (user : String) (userId roomId : Option String) :
    (register m user userId roomId).1.findSessionInfoByUserId v = some info := by
  obtain ⟨p, hp, hs⟩ := Option.bind_eq_some_iff.mp h
  cases userId with
  | none => exact h
  | some u =>
    cases hu : m.userIdIndex.lookup u with
    | some q => rw [register_taken m user u roomId q hu]; exact h
    | none =>
      have hne : v ≠ u := by
        intro he
        rw [he, hu] at hp
        cases hp
      rw [SessionManager.findSessionInfoByUserId, register_free_index m user u roomId hu, if_neg hne, hp,
        Option.bind_some, SessionManager.findSessionInfo, register_free_sessions m user u roomId hu]
      split
      · rename_i hc
        rw [SessionManager.findSessionInfo, hc.1, hc.2] at hs
        cases hs
      · exact hs

theorem unregister_find {m : SessionManager} {user v : String} {info other : SessionInfo}
    (hs : m.findSessionInfo user = some info) (h : m.findSessionInfoByUserId v = some other)
    (hid : other.userId = v) (hne : v ≠ info.userId) :
    (unregister m user).1.findSessionInfoByUserId v = some other := by
  obtain ⟨p, hp, ho⟩ := Option.bind_eq_some_iff.mp h
  have hpu : p ≠ user := by
    rintro rfl
    rw [hs, Option.some.injEq] at ho
    exact hne (by rw [← hid, ho])
  rw [unregister_some m user info hs]
  simpa [SessionManager.findSessionInfoByUserId, SessionManager.findSessionInfo, hne, hp, hpu] using ho

theorem unregister_gone {m : SessionManager} {user : String} {info : SessionInfo}
    (hs : m.findSessionInfo user = some info) :
    (unregister m user).1.findSessionInfoByUserId info.userId = none := by
  rw [unregister_some m user info hs]
  simp [SessionManager.findSessionInfoByUserId]

theorem find_own {m : SessionManager} {user : String} {info : SessionInfo} (h : Indexed m)
    (hs : m.findSessionInfo user = some info) : m.findSessionInfoByUserId info.userId = some info := by
  rw [SessionManager.findSessionInfoByUserId, (h user info hs).1]
  exact hs

/-- All sessions are those of conference users. -/
def ConferenceOnly (m : SessionManager) : Prop :=
  ∀ p info, m.findSessionInfo p = some info → info.ticketType = .conference

theorem register_conferenceOnly (m : SessionManager) (user : String) (userId roomId : Option String)
    (h : ConferenceOnly m) : ConferenceOnly (register m user userId roomId).1 := by
  intro p info hp
  cases userId with
  | none => exact h p info hp
  | some u =>
    cases hu : m.userIdIndex.lookup u with
    | some q =>
      rw [register_taken m user u roomId q hu] at hp
      exact h p info hp
    | none =>
      rw [SessionManager.findSessionInfo, register_free_sessions m user u roomId hu] at hp
      split at hp
      · simp only [Option.some.injEq] at hp
        rw [← hp]
      · exact h p info hp

theorem unregister_conferenceOnly (m : SessionManager) (user : String) (h : ConferenceOnly m) :
    ConferenceOnly (unregister m user).1 := by
  cases hs : m.findSessionInfo user with
  | none => rw [unregister_none m user hs]; exact h
  | some info =>
    rw [unregister_some m user info hs]
    intro p other hp
    exact h p other (lookup_remove_eq_some.mp hp).2

/-! ## The handlers on sessions -/

/-- Only messages have been sent and buffers dropped. -/
def SameStores (s s' : Server) : Prop := s'.sessions = s.sessions ∧ s'.rooms = s.rooms

theorem notifyLeave_same (s : Server) (info : SessionInfo) (p : Participant) :
    SameStores s (s.notifyLeave info p).1 :=
  ⟨(notifyLeave_notifies s info p).sessions, (notifyLeave_notifies s info p).rooms⟩

theorem SameStores.trans {s s' s'' : Server} (h : SameStores s s') (h' : SameStores s' s'') :
    SameStores s s'' := ⟨h'.1.trans h.1, h'.2.trans h.2⟩

theorem leaveConference_same (s : Server) (info : SessionInfo) :
    SameStores s (s.leaveConference info).1 :=
  ⟨(leaveConference_notifies s info).sessions, (leaveConference_notifies s info).rooms⟩

/-- `leaveConference` fails only on a session without a room, where the others have sessions. -/
theorem leaveConference_failure (s : Server) (info : SessionInfo) (hc : Conference s.rooms)
    (h : ∀ x v, info.roomId = some x → v ≠ info.userId → Publishes s.rooms x v →
      ∃ principal, s.sessions.findPrincipalByUserId (some v) = some (some principal)) :
    (s.leaveConference info).2 = if info.roomId.isNone then some .nullPointer else none := by
  unfold Server.leaveConference
  cases hroom : info.roomId with
  | none => rfl
  | some x =>
    simp only [Option.isNone_some, Bool.false_eq_true, ↓reduceIte]
    split
    · rfl
    · rename_i r hmap
      split
      · rfl
      · rename_i room hr
        have hloop := forAll_ok (I := SameStores s) (fun s p => s.notifyLeave info p)
          (s.send (.chat (some x) info.userId "leave"))
          (room.findOtherParticipantsWithMonitoringUser info.userId) ?_ ⟨rfl, rfl⟩
        · exact hloop.2
        · intro s' hs' p hp
          refine ⟨hs'.trans (notifyLeave_same s' info p), ?_⟩
          simp only [Room.findOtherParticipantsWithMonitoringUser, List.mem_filter, mem_values_iff,
            decide_eq_true_eq] at hp
          obtain ⟨⟨v, hv⟩, hne⟩ := hp
          obtain ⟨hid, hout⟩ := hc.publishing r room hr v p hv
          obtain ⟨principal, hfound⟩ := h x p.userId hroom hne ⟨r, room, p, hmap, hr, hid ▸ hv, hout⟩
          rw [Server.notifyLeave, hs'.1, hfound]

/-- What every step keeps while only conference users come. -/
structure Background (s : Server) : Prop where
  indexed : Indexed s.sessions
  conferenceOnly : ConferenceOnly s.sessions
  rooms : Conference s.rooms

theorem unregister_stores (s : Server) (user : String) (h : ConferenceOnly s.sessions) :
    (s.unregister user).1.sessions = (unregister s.sessions user).1 ∧
    (s.unregister user).1.rooms = s.rooms := by
  unfold Server.unregister
  cases hs : s.sessions.findSessionInfo user with
  | none => simp [unregister_none s.sessions user hs]
  | some info =>
    simp only [unregister_some s.sessions user info hs, Server.handleLeave, h user info hs]
    exact leaveConference_same _ info

theorem findPrincipal_of_find {m : SessionManager} {v : String} {other : SessionInfo}
    (h : m.findSessionInfoByUserId v = some other) :
    m.findPrincipalByUserId (some v) = some (some other.principal) := by
  obtain ⟨p, hp, ho⟩ := Option.bind_eq_some_iff.mp h
  simp [SessionManager.findPrincipalByUserId, hp, ho]

/-- While every publisher is registered, `unregister` fails only for want of a
session or of a room id. -/
theorem unregister_failure (s : Server) (user : String) (hb : Background s) (hreg : Registered s) :
    (s.unregister user).2 = match s.sessions.findSessionInfo user with
      | none => some .nullPointer
      | some info => if info.roomId.isNone then some .nullPointer else none := by
  unfold Server.unregister
  cases hs : s.sessions.findSessionInfo user with
  | none => simp [unregister_none s.sessions user hs]
  | some info =>
    have hgone := unregister_some s.sessions user info hs
    simp only [hgone, Server.handleLeave, hb.conferenceOnly user info hs]
    refine leaveConference_failure _ info (hb.rooms :) ?_
    intro x v _ hne hpub
    obtain ⟨other, hfound, hid, -⟩ := hreg x v hpub
    have hstays := unregister_find hs hfound hid hne
    rw [hgone] at hstays
    exact ⟨other.principal, findPrincipal_of_find hstays⟩

theorem register_background (s : Server) (user : String) (userId roomId : Option String)
    (h : Background s) : Background (s.register user userId roomId).1 :=
  ⟨register_indexed _ user userId roomId h.indexed,
    register_conferenceOnly _ user userId roomId h.conferenceOnly, h.rooms⟩

theorem unregister_background (s : Server) (user : String) (h : Background s) :
    Background (s.unregister user).1 := by
  obtain ⟨hsess, hrooms⟩ := unregister_stores s user h.conferenceOnly
  refine ⟨?_, ?_, ?_⟩
  · rw [hsess]; exact unregister_indexed _ user h.indexed
  · rw [hsess]; exact unregister_conferenceOnly _ user h.conferenceOnly
  · rw [hrooms]; exact h.rooms

/-! ## Offers -/

/-- The offer of `u` in room `r`, stored under `x`, has come from `s` to `s'`. -/
structure Reached (s : Server) (r : RoomRef) (x u : String) (s' : Server) : Prop where
  sessions : s'.sessions = s.sessions
  rooms : Adds s.rooms s'.rooms x (· = u)
  mapped : s'.rooms.roomIdRooms.lookup x = some r

/-- The offer ends well or badly, but not for want of a session. -/
structure Served (s : Server) (r : RoomRef) (x u : String) (q : Outcome Server Failure) : Prop where
  reached : Reached s r x u q.1
  finds : ∀ v, q.2 ≠ some (.missingSession v)

section
variable {s s' s'' : Server} {r : RoomRef} {x u : String}

theorem Reached.same (h : Reached s r x u s') (h' : SameStores s' s'') : Reached s r x u s'' where
  sessions := h'.1.trans h.sessions
  rooms := h'.2 ▸ h.rooms
  mapped := h'.2 ▸ h.mapped

theorem Served.andThen {q : Outcome Server Failure} {f : Server → Outcome Server Failure}
    (hq : Served s r x u q) (hf : ∀ s', Reached s r x u s' → Served s r x u (f s')) :
    Served s r x u (Outcomes.andThen q f) where
  reached := andThen_invariant q f hq.reached fun s' hs' => (hf s' hs').reached
  finds v := andThen_failure_ne q f hq.reached (hq.finds v) fun s' hs' => (hf s' hs').finds v

theorem Reached.room (h : Reached s r x u s') :
    ∃ room, s'.rooms.heap[r]? = some room ∧ room.roomId = x :=
  h.rooms.conference.stored x r h.mapped

theorem Reached.onRoom (h : Reached s r x u s') {room : Room} {f : Room → Room × List Call}
    (hr : s'.rooms.heap[r]? = some room) (hid : room.roomId = x) (hf : Local room (f room))
    (hadds : Adds s'.rooms (s'.rooms.onRoom r f) room.roomId (· = u))
    (hopen : (f room).2.any Call.isDelete = false) (hsess : s''.sessions = s'.sessions)
    (hrooms : s''.rooms = s'.rooms.onRoom r f) : Reached s r x u s'' where
  sessions := hsess.trans h.sessions
  rooms := by
    rw [hrooms]
    exact h.rooms.trans (hid ▸ hadds)
  mapped := by
    rw [hrooms, onRoom_eq hr, performAll_rooms _ _ _ _ hf.about, hopen]
    simpa using h.mapped

/-- The participants that a handler meets in the room are publishers. -/
theorem Reached.publishes (h : Reached s r x u s') {room : Room} {p : Participant} {v : String}
    (hr : s'.rooms.heap[r]? = some room) (hv : room.userIdParticipants.lookup v = some p) :
    p.userId = v ∧ Publishes s'.rooms x v := by
  obtain ⟨hid, hout⟩ := h.rooms.conference.publishing r room hr v p hv
  exact ⟨hid, r, room, p, h.mapped, hr, hv, hout⟩

end

section
variable {s s' : Server} {r : RoomRef} {x u : String}

theorem joinConference_served (h : Reached s r x u s') (info : SessionInfo) (hu : info.userId = u)
    (build : Option Endpoint) : Served s r x u (s'.joinConference info r build) := by
  obtain ⟨room, hr, hid⟩ := h.room
  unfold Server.joinConference
  split
  · exact ⟨h, by simp⟩
  · rename_i q hq
    refine ⟨?_, by simp⟩
    have hjoin : room.join info.userId build = some q := by simpa [hr] using hq
    have hcalls := join_outer room q.1 info.userId build q.2 hjoin
    refine h.onRoom (f := fun room => room.call (.join info.userId build)) hr hid
      (call_local room _) ?_ ?_ rfl rfl
    · subst hu
      exact join_adds hr h.rooms.conference info.userId build
    · simp [Room.call, hjoin, hcalls, Call.isDelete]

theorem createInEp_fields {p q : Participant} {present : String} {build : Option Endpoint} {e : Endpoint}
    (h : p.createInEp present build = some (q, e)) :
    q.userId = p.userId ∧ q.outWebRtcEndpoint = p.outWebRtcEndpoint := by
  unfold Participant.createInEp at h
  split at h
  · simp only [Option.some.injEq, Prod.mk.injEq] at h
    exact h.1 ▸ ⟨rfl, rfl⟩
  · cases h
  · simp only [Option.some.injEq, Prod.mk.injEq] at h
    exact h.1 ▸ ⟨rfl, rfl⟩

/-- A participant that is replaced by itself with another incoming endpoint publishes as before. -/
theorem putParticipant_reached (h : Reached s r x u s') {room : Room} {p q : Participant} {v : String}
    (hr : s'.rooms.heap[r]? = some room) (hp : room.userIdParticipants.lookup v = some p)
    (hid : q.userId = p.userId) (hout : q.outWebRtcEndpoint = p.outWebRtcEndpoint) :
    Reached s r x u (s'.putParticipant r q) := by
  obtain ⟨room', hr', hx⟩ := h.room
  rw [hr, Option.some.injEq] at hr'
  subst hr'
  have hpub := h.rooms.conference.publishing r room hr
  obtain ⟨hv, hsome⟩ := hpub v p hp
  have hlookup : ∀ w q', (room.userIdParticipants.insert q.userId q).lookup w = some q' →
      (w = v ∧ q' = q) ∨ room.userIdParticipants.lookup w = some q' := by
    intro w q' hw
    rw [lookup_put] at hw
    split at hw
    · rename_i he
      simp only [Option.some.injEq] at hw
      exact .inl ⟨by rw [he, hid, hv], hw.symm⟩
    · exact .inr hw
  refine h.onRoom (f := fun room =>
      ({ room with userIdParticipants := room.userIdParticipants.insert q.userId q }, []))
    hr hx ⟨rfl, by simp⟩ ?_ rfl rfl rfl
  apply onRoom_adds hr ⟨rfl, by simp⟩ h.rooms.conference
  · intro w q' hw
    rcases hlookup w q' hw with ⟨rfl, rfl⟩ | hold
    · exact ⟨hid.trans hv, by rw [hout]; exact hsome⟩
    · exact hpub w q' hold
  · intro httl
    -- the room is occupied, so no TTL entry is left for it
    obtain ⟨room', hr', -, hnone⟩ := h.rooms.conference.unjoined _ _ httl
    rw [hr, Option.some.injEq] at hr'
    rw [hr', hnone] at hp
    cases hp
  · intro w q' hw
    rcases hlookup w q' hw with ⟨rfl, rfl⟩ | hold
    · exact .inr ⟨p, hp, hsome⟩
    · exact .inr ⟨q', hold, (hpub w q' hold).2⟩

theorem withEndpoint_served (h : Reached s r x u s') (userId : String) (offer : OfferMessage)
    (build : Option Endpoint) (next : Server → WebRtcEndpointType → Endpoint → Outcome Server Failure)
    (hnext : ∀ s' epType e, Reached s r x u s' → Served s r x u (next s' epType e)) :
    Served s r x u (s'.withEndpoint r userId offer build next) := by
  unfold Server.withEndpoint
  split
  · next failure hfailed =>
    -- without an endpoint, nothing has been looked up among the sessions
    refine ⟨h, ?_⟩
    rcases getWebRtcPeerDefaultCreate_error hfailed with rfl | rfl <;> simp
  · next hok =>
    refine hnext _ _ _ ?_
    cases getWebRtcPeerDefaultCreate_found hok with
    | outgoing _ _ _ _ => exact h
    | incoming hr hp _ _ he =>
      obtain ⟨hid, hout⟩ := createInEp_fields he
      exact putParticipant_reached h hr hp hid hout

theorem connectPresent_served (h : Reached s r x u s') (present : Option String) (e : Endpoint) :
    Served s r x u (s'.connectPresent r present e) := by
  unfold Server.connectPresent
  split
  · exact ⟨h, by simp⟩
  · split
    · exact ⟨h, by simp⟩
    · exact ⟨h.same ⟨rfl, rfl⟩, by simp⟩

theorem notifyEnter_same (s : Server) (user : String) (info : SessionInfo) (p : Participant) :
    SameStores s (s.notifyEnter user info p).1 :=
  ⟨(notifyEnter_notifies s user info p).sessions, (notifyEnter_notifies s user info p).rooms⟩

/-- The others of the room published before the offer, so their sessions are found. -/
theorem notifyEnter_served (hreg : Registered s) (h : Reached s r x u s') (user : String)
    (info : SessionInfo) (hu : info.userId = u) :
    Served s r x u (forAll (fun s p => s.notifyEnter user info p) s'
      (((s'.rooms.heap[r]?).map fun room => room.findOtherParticipants info.userId).getD [])) := by
  obtain ⟨room, hr, -⟩ := h.room
  rw [hr, Option.map_some, Option.getD_some]
  have hloop := forAll_ok (I := Reached s r x u) (fun s p => s.notifyEnter user info p) s'
    (room.findOtherParticipants info.userId) ?_ h
  · exact ⟨hloop.1, by simp [hloop.2]⟩
  · intro s'' hs'' p hp
    refine ⟨hs''.same (notifyEnter_same s'' user info p), ?_⟩
    simp only [Room.findOtherParticipants, Room.findParticipants, List.mem_filter, mem_values_iff,
      decide_eq_true_eq] at hp
    obtain ⟨⟨⟨⟨v, hv⟩, -⟩, hne⟩, -⟩ := hp
    obtain ⟨hid, hpub⟩ := h.publishes hr hv
    rcases h.rooms.publishers x v hpub with hold | ⟨-, rfl⟩
    · obtain ⟨other, hfound, -, -⟩ := hreg x v hold
      rw [Server.notifyEnter, hs''.sessions, hid, hfound]
    · exact absurd (hid.trans hu.symm) hne

theorem offerInRoom_served (hreg : Registered s) (h : Reached s r x u s) (user : String)
    (info : SessionInfo) (hu : info.userId = u) (offer : OfferMessage) (build : Option Endpoint) :
    Served s r x u (s.offerInRoom user info x r offer build) := by
  have hfirst : Served s r x u
      (if info.ticketType = .conference ∧ offer.type = some .outgoing then s.joinConference info r build
        else (s, none)) := by
    split
    · exact joinConference_served h info hu build
    · exact ⟨h, by simp⟩
  unfold Server.offerInRoom
  apply hfirst.andThen
  intro s' hs'
  apply withEndpoint_served hs'
  intro s'' epType e hs''
  have hanswer : Reached s r x u (s''.answerOffer user info x offer epType e) :=
    hs''.same ⟨rfl, rfl⟩
  cases epType with
  | outgoing => exact notifyEnter_served hreg hanswer user info hu
  | incoming => exact connectPresent_served hanswer offer.present e
  | customOutgoing => exact ⟨hanswer, fun _ hv => by cases hv⟩
  | customIncoming => exact ⟨hanswer, fun _ hv => by cases hv⟩

end

/-- An offer keeps the sessions, and adds at most its own user to the publishers
of the room of its session. -/
theorem handleOffer_cases (s : Server) (user : String) (offer : OfferMessage) (build : Option Endpoint)
    (hb : Background s) (hreg : Registered s) :
    ((s.handleOffer user offer build).1 = s ∧
      ∀ v, (s.handleOffer user offer build).2 ≠ some (.missingSession v)) ∨
    ∃ info r x, s.sessions.findSessionInfo user = some info ∧ info.roomId = some x ∧
      Served s r x info.userId (s.handleOffer user offer build) := by
  unfold Server.handleOffer
  cases hs : s.sessions.findSessionInfo user with
  | none => exact .inl ⟨rfl, by simp⟩
  | some info =>
    have hticket := hb.conferenceOnly user info hs
    simp only [hticket, roomOf, reduceCtorEq, and_false, ↓reduceIte]
    cases hcheck : s.checkPresent offer with
    | some failure =>
      refine .inl ⟨rfl, ?_⟩
      intro v hv
      simp only [Option.some.injEq] at hv
      subst hv
      unfold Server.checkPresent at hcheck
      split at hcheck
      · split at hcheck
        · split at hcheck <;> simp at hcheck
        · simp at hcheck
      · simp at hcheck
    | none =>
      cases hroom : info.roomId with
      | none => exact .inl ⟨rfl, by simp⟩
      | some x =>
        cases hmap : s.rooms.roomIdRooms.lookup x with
        | none => exact .inl ⟨by simp [hmap], by simp [hmap]⟩
        | some r =>
          have hstart : Reached s r x info.userId s := ⟨rfl, .refl hb.rooms x _, hmap⟩
          have hserved := offerInRoom_served hreg hstart user info rfl offer build
          exact .inr ⟨info, r, x, rfl, hroom, by simpa [hmap] using hserved⟩

/-! ## Whole runs -/

theorem closeRoomCallback_empty (s : Server) (room : Room) (h : room.userIdParticipants = ∅) :
    s.closeRoomCallback room = (s.endRoomProcess room.roomId, none) := by
  have hnobody : room.findParticipants = [] := by
    simp [Room.findParticipants, values, h]
  simp [Server.closeRoomCallback, hnobody, forAll]

/-- The room a TTL task closes in a conference is empty, so its close callback finds nobody. -/
theorem fireTtl_served (s : Server) (task : String × Nat) (now : Nat) (hb : Background s) :
    (s.fireTtl task now).1.sessions = s.sessions ∧ (s.fireTtl task now).2 = none ∧
    ∃ x, Adds s.rooms (s.fireTtl task now).1.rooms x fun _ => False := by
  obtain ⟨cache, hconf, hquiet | ⟨r, room, hr, hnone, hclose⟩⟩ := fireTtl_cases hb.rooms task now
  · have hstep : s.fireTtl task now = ({ s with rooms := { s.rooms with roomTtl := cache } }, none) := by
      simp [Server.fireTtl, Server.withRooms, hquiet, Server.closeRooms, forAll]
    rw [hstep]
    exact ⟨rfl, rfl, "", hconf, fun _ _ hp => .inl hp⟩
  · have hadds := release_adds (m := { s.rooms with roomTtl := cache }) hr hconf
    have hempty : room.isEmpty = true := (Room.isEmpty_iff room).mpr hnone
    have htrace : (s.rooms.fireTtl task now).trace.drop s.rooms.trace.length =
        [(r, .deleteRoomCallBack room), (r, .pipelineRelease room.mediaPipeline)] := by
      rw [hclose, onRoom_eq (m := { s.rooms with roomTtl := cache }) hr, performAll_trace,
        Room.release_empty room hempty]
      simp
    have hstep : s.fireTtl task now =
        (({ s with rooms := s.rooms.fireTtl task now } : Server).endRoomProcess room.roomId, none) := by
      simp [Server.fireTtl, Server.withRooms, htrace, Server.closeRooms, forAll,
        closeRoomCallback_empty _ room hnone]
    rw [hstep]
    refine ⟨rfl, rfl, room.roomId, (hclose ▸ hadds.conference :), ?_⟩
    intro y v hp
    exact hadds.publishers y v (hclose ▸ hp)

/-- A step that keeps the sessions; whoever begins to publish has a session in that room. -/
structure Quiet (s : Server) (q : Outcome Server Failure) : Prop where
  sessions : q.1.sessions = s.sessions
  rooms : Conference q.1.rooms
  publishers : ∀ y v, Publishes q.1.rooms y v → Publishes s.rooms y v ∨
    ∃ user info, s.sessions.findSessionInfo user = some info ∧ info.userId = v ∧ info.roomId = some y
  finds : ∀ v, q.2 ≠ some (.missingSession v)

theorem Quiet.background {s : Server} {q : Outcome Server Failure} (h : Quiet s q) (hb : Background s) :
    Background q.1 :=
  ⟨h.sessions ▸ hb.indexed, h.sessions ▸ hb.conferenceOnly, h.rooms⟩

theorem Quiet.registered {s : Server} {q : Outcome Server Failure} (h : Quiet s q) (hb : Background s)
    (hreg : Registered s) : Registered q.1 := by
  intro y v hp
  rw [h.sessions]
  rcases h.publishers y v hp with hold | ⟨user, info, hs, rfl, hroom⟩
  · exact hreg y v hold
  · exact ⟨info, find_own hb.indexed hs, rfl, hroom⟩

theorem createRoom_quiet (s : Server) (roomId : String) (wrapper : Option PipelineWrapper) (now : Nat)
    (hb : Background s) : Quiet s (s.createRoom roomId wrapper now) := by
  unfold Server.createRoom
  split
  · exact ⟨rfl, hb.rooms, fun _ _ hp => .inl hp, by simp⟩
  · rename_i m hm
    have hadds := createRoom_adds hm hb.rooms
    refine ⟨rfl, hadds.conference, ?_, by simp⟩
    intro y v hp
    rcases hadds.publishers y v hp with hold | ⟨-, hno⟩
    · exact .inl hold
    · exact hno.elim

theorem fireTtl_quiet (s : Server) (task : String × Nat) (now : Nat) (hb : Background s) :
    Quiet s (s.fireTtl task now) := by
  obtain ⟨hsess, hok, x, hadds⟩ := fireTtl_served s task now hb
  refine ⟨hsess, hadds.conference, ?_, by simp [hok]⟩
  intro y v hp
  rcases hadds.publishers y v hp with hold | ⟨-, hno⟩
  · exact .inl hold
  · exact hno.elim

theorem handleOffer_quiet (s : Server) (user : String) (offer : OfferMessage) (build : Option Endpoint)
    (hb : Background s) (hreg : Registered s) : Quiet s (s.handleOffer user offer build) := by
  rcases handleOffer_cases s user offer build hb hreg with ⟨hsame, hfinds⟩ | ⟨info, r, x, hs, hroom, hserved⟩
  · exact ⟨by rw [hsame], by rw [hsame]; exact hb.rooms, fun y v hp => .inl (hsame ▸ hp), hfinds⟩
  · refine ⟨hserved.reached.sessions, hserved.reached.rooms.conference, ?_, hserved.finds⟩
    intro y v hp
    rcases hserved.reached.rooms.publishers y v hp with hold | ⟨rfl, rfl⟩
    · exact .inl hold
    · exact .inr ⟨user, info, hs, rfl, hroom⟩

theorem handleSessionConnectedListener_background (s : Server) (user : String)
    (userId roomId : Option String) (hb : Background s) :
    Background (s.handleSessionConnectedListener user userId roomId).1 :=
  andThen_invariant _ _ (unregister_background s user hb)
    fun s hs => register_background s user userId roomId hs

theorem step_background (s : Server) (e : Event) (hb : Background s) (hreg : Registered s) :
    Background (step s e) := by
  cases e with
  | createRoom roomId wrapper now => exact (createRoom_quiet s roomId wrapper now hb).background hb
  | connect user userId roomId =>
    have h := register_background s user userId roomId hb
    rw [← preSend_fst] at h
    exact h
  | connected user userId roomId =>
    exact handleSessionConnectedListener_background s user userId roomId hb
  | disconnect user => exact unregister_background s user hb
  | offer user offer build => exact (handleOffer_quiet s user offer build hb hreg).background hb
  | fireTtl task now => exact (fireTtl_quiet s task now hb).background hb

/-- A registered publisher stays registered when another session is removed. -/
theorem unregister_registered (s : Server) (user : String) (hb : Background s) (hreg : Registered s)
    (x v : String) (hp : Publishes s.rooms x v)
    (hne : ∀ info, s.sessions.findSessionInfo user = some info → v ≠ info.userId) :
    ∃ info, (s.unregister user).1.sessions.findSessionInfoByUserId v = some info ∧ info.userId = v ∧
      info.roomId = some x := by
  obtain ⟨other, hfound, hid, hroom⟩ := hreg x v hp
  rw [(unregister_stores s user hb.conferenceOnly).1]
  cases hs : s.sessions.findSessionInfo user with
  | none =>
    rw [unregister_none s.sessions user hs]
    exact ⟨other, hfound, hid, hroom⟩
  | some info => exact ⟨other, unregister_find hs hfound hid (hne info hs), hid, hroom⟩

theorem disconnect_registered_iff (s : Server) (user : String) (hb : Background s) (hreg : Registered s) :
    Registered (s.unregister user).1 ↔ KeepsPublishers s (.disconnect user) := by
  have hrooms := (unregister_stores s user hb.conferenceOnly).2
  constructor
  · intro h info hs x hp
    obtain ⟨other, hfound, -, -⟩ := h x info.userId (hrooms ▸ hp)
    rw [(unregister_stores s user hb.conferenceOnly).1, unregister_gone hs] at hfound
    cases hfound
  · intro h x v hp
    rw [hrooms] at hp
    apply unregister_registered s user hb hreg x v hp
    rintro info hs rfl
    exact h info hs x hp

/-- A registration on a principal without a session answers for its own user id only. -/
theorem register_own {m : SessionManager} {user v : String} {userId roomId : Option String}
    {other : SessionInfo} (hfree : m.findSessionInfo user = none) (hgone : m.userIdIndex.lookup v = none)
    (h : (register m user userId roomId).1.findSessionInfoByUserId v = some other) :
    userId = some v ∧ other = ⟨user, .conference, roomId, v⟩ := by
  cases userId with
  | none => simp [register, SessionManager.findSessionInfoByUserId, hgone] at h
  | some u =>
    cases hu : m.userIdIndex.lookup u with
    | some q =>
      rw [register_taken m user u roomId q hu] at h
      simp [SessionManager.findSessionInfoByUserId, hgone] at h
    | none =>
      rw [SessionManager.findSessionInfoByUserId, register_free_index m user u roomId hu] at h
      by_cases hv : v = u
      · subst hv
        rw [if_pos rfl, Option.bind_some, SessionManager.findSessionInfo,
          register_free_sessions m user v roomId hu, if_pos ⟨rfl, hfree⟩, Option.some.injEq] at h
        exact ⟨rfl, h.symm⟩
      · rw [if_neg hv, hgone] at h
        cases h

/-- The stores after the listener: `register` runs only if `unregister` came to its end. -/
theorem connected_stores (s : Server) (user : String) (userId roomId : Option String)
    (hb : Background s) :
    (s.handleSessionConnectedListener user userId roomId).1.sessions =
      (if (s.unregister user).2 = none then
        (register (unregister s.sessions user).1 user userId roomId).1
      else (unregister s.sessions user).1) ∧
    (s.handleSessionConnectedListener user userId roomId).1.rooms = s.rooms := by
  obtain ⟨hsess, hrooms⟩ := unregister_stores s user hb.conferenceOnly
  unfold Server.handleSessionConnectedListener
  cases hq : s.unregister user with
  | mk s' failure =>
    rw [hq] at hsess hrooms
    cases failure with
    | some e => exact ⟨by simpa using hsess, by simpa using hrooms⟩
    | none =>
      refine ⟨?_, by simpa [Server.register] using hrooms⟩
      simp only [andThen_ok, Server.register, ↓reduceIte]
      rw [← hsess]

theorem connected_registered_iff (s : Server) (user : String) (userId roomId : Option String)
    (hb : Background s) (hreg : Registered s) :
    Registered (s.handleSessionConnectedListener user userId roomId).1 ↔
      KeepsPublishers s (.connected user userId roomId) := by
  obtain ⟨hsess, hrooms⟩ := connected_stores s user userId roomId hb
  constructor
  · intro h info hs x hp
    obtain ⟨other, hfound, -, hroom⟩ := h x info.userId (hrooms ▸ hp)
    obtain ⟨own, hown, -, hin⟩ := hreg x info.userId hp
    rw [find_own hb.indexed hs, Option.some.injEq] at hown
    rw [hsess] at hfound
    split at hfound
    · obtain ⟨hgone, hfree⟩ := unregister_free s.sessions user info hs
      obtain ⟨hid, hother⟩ := register_own hfree hgone hfound
      subst hown
      rw [hother] at hroom
      exact ⟨hid, by rw [hin]; exact hroom⟩
    · rw [unregister_gone hs] at hfound
      cases hfound
  · intro h x v hp
    rw [hrooms] at hp
    by_cases hown : ∃ info, s.sessions.findSessionInfo user = some info ∧ v = info.userId
    · obtain ⟨info, hs, rfl⟩ := hown
      obtain ⟨rfl, rfl⟩ := h info hs x hp
      obtain ⟨own, hfound, -, hin⟩ := hreg x info.userId hp
      rw [find_own hb.indexed hs, Option.some.injEq] at hfound
      subst hfound
      -- the publisher has a room, so `unregister` comes to its end
      have hok : (s.unregister user).2 = none := by
        rw [unregister_failure s user hb hreg, hs]
        simp [hin]
      obtain ⟨hgone, hfree⟩ := unregister_free s.sessions user info hs
      refine ⟨⟨user, .conference, info.roomId, info.userId⟩, ?_, rfl, hin⟩
      rw [hsess, if_pos hok, SessionManager.findSessionInfoByUserId,
        register_free_index _ user info.userId info.roomId hgone, if_pos rfl, Option.bind_some,
        SessionManager.findSessionInfo, register_free_sessions _ user info.userId info.roomId hgone,
        if_pos ⟨rfl, hfree⟩]
    · obtain ⟨other, hfound, hid, hroom⟩ := unregister_registered s user hb hreg x v hp
        fun info hs he => hown ⟨info, hs, he⟩
      rw [(unregister_stores s user hb.conferenceOnly).1] at hfound
      refine ⟨other, ?_, hid, hroom⟩
      rw [hsess]
      split
      · exact register_find hfound user userId roomId
      · exact hfound

theorem connect_registered (s : Server) (user : String) (userId roomId : Option String)
    (hreg : Registered s) : Registered (s.register user userId roomId).1 := by
  intro x v hp
  obtain ⟨other, hfound, hid, hroom⟩ := hreg x v hp
  exact ⟨other, register_find hfound user userId roomId, hid, hroom⟩

/-- One step keeps every publisher registered exactly when it keeps the publishers' sessions. -/
theorem step_registered_iff (s : Server) (e : Event) (hb : Background s) (hreg : Registered s) :
    Registered (step s e) ↔ KeepsPublishers s e := by
  cases e with
  | createRoom roomId wrapper now =>
    exact ⟨fun _ => trivial, fun _ => (createRoom_quiet s roomId wrapper now hb).registered hb hreg⟩
  | connect user userId roomId =>
    have h := connect_registered s user userId roomId hreg
    rw [← preSend_fst] at h
    exact ⟨fun _ => trivial, fun _ => h⟩
  | connected user userId roomId => exact connected_registered_iff s user userId roomId hb hreg
  | disconnect user => exact disconnect_registered_iff s user hb hreg
  | offer user offer build =>
    exact ⟨fun _ => trivial, fun _ => (handleOffer_quiet s user offer build hb hreg).registered hb hreg⟩
  | fireTtl task now =>
    exact ⟨fun _ => trivial, fun _ => (fireTtl_quiet s task now hb).registered hb hreg⟩

theorem register_finds (m : SessionManager) (user : String) (userId roomId : Option String) (v : String) :
    (register m user userId roomId).2 ≠ some (.missingSession v) := by
  unfold register
  split
  · simp
  · split <;> simp

theorem unregister_finds (s : Server) (user : String) (hb : Background s) (hreg : Registered s)
    (v : String) : (s.unregister user).2 ≠ some (.missingSession v) := by
  rw [unregister_failure s user hb hreg]
  split
  · simp
  · split <;> simp

/-- While every publisher is registered, no handler misses a session. -/
theorem registered_finds (s : Server) (e : Event) (hb : Background s) (hreg : Registered s) :
    FindsSessions s e := by
  intro v
  cases e with
  | createRoom roomId wrapper now => exact (createRoom_quiet s roomId wrapper now hb).finds v
  | connect user userId roomId =>
    simp only [handle, Server.preSend]
    split <;> simp
  | connected user userId roomId =>
    exact andThen_failure_ne (I := fun _ => True) _ _ trivial (unregister_finds s user hb hreg v)
      fun s' _ => register_finds s'.sessions user userId roomId v
  | disconnect user => exact unregister_finds s user hb hreg v
  | offer user offer build => exact (handleOffer_quiet s user offer build hb hreg).finds v
  | fireTtl task now => exact (fireTtl_quiet s task now hb).finds v

theorem init_background (ttl : Nat) : Background (.init ttl) where
  indexed := empty_indexed
  conferenceOnly := by
    intro p info h
    simp [Server.init, SessionManager.empty, SessionManager.findSessionInfo] at h
  rooms := by
    refine ⟨(init_inv ttl).stored, ?_, ?_⟩
    · intro r room hr
      simp [Server.init, RoomManager.init] at hr
    · intro x r hx
      simp [Server.init, RoomManager.init, Cache.empty] at hx

theorem init_registered (ttl : Nat) : Registered (.init ttl) := by
  intro x u hp
  obtain ⟨r, room, p, hmap, -⟩ := hp
  simp [Server.init, RoomManager.init] at hmap

/-- In every run of the media server all publishers are registered in their
rooms at all times, and every session lookup succeeds, exactly when no event
takes or changes the session of a publisher. -/
theorem registered_iff_keepsPublishers (ttl : Nat) (events : List Event) :
    (Runs.Throughout step Registered (.init ttl) events ∧
      Runs.Along step FindsSessions (.init ttl) events) ↔
    Runs.Along step KeepsPublishers (.init ttl) events := by
  have hiff := Runs.throughout_iff_along step_background step_registered_iff (.init ttl) events
    (init_background ttl) (init_registered ttl)
  constructor
  · exact fun h => hiff.mp h.1
  · intro h
    have hall := hiff.mpr h
    exact ⟨hall, hall.along step_background registered_finds _ _ (init_background ttl)⟩

/-- Alice publishes and disconnects; Bob connects to the same room. -/
def disconnectedPublisher : List Event :=
  [.createRoom "r" (some ⟨"ws://kms", some 0⟩) 0,
   .connect "p" (some "alice") (some "r"), .connected "p" (some "alice") (some "r"),
   .offer "p" ⟨none, some .outgoing, none, "sdp"⟩ (some 1), .disconnect "p",
   .connect "q" (some "bob") (some "r"), .connected "q" (some "bob") (some "r")]

/-- Alice stays in the room without a session, and Bob's CONNECTED listener fails on the lookup of Alice's. -/
theorem disconnected_publisher_missing :
    ¬ (Runs.Throughout step Registered (.init 3600) disconnectedPublisher ∧
      Runs.Along step FindsSessions (.init 3600) disconnectedPublisher) := by
  intro h
  obtain ⟨-, -, -, -, -, -, -, hconnected, -⟩ := h
  exact hconnected "alice" (by decide +kernel)

end MediaPublishers

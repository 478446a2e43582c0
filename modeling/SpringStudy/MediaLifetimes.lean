import SpringStudy.MediaResources

/-!
# How long rooms and endpoints last

A room that nobody joins is closed by its TTL task, which stays with the executor
for as long as the room needs it. A room that somebody has joined loses its TTL
entry, and from then on only the departure of its last participant or a report
that its media server is down can close it. The source brings about neither for
conference users, so such a room stays, and so do its endpoints. All of this is
said of runs in which a message, and a TTL task from its expiry test to the end
of the release, is one step. In between the source has a gap, which
`MediaStaleRooms` has an example of: who joins after the task has taken its
entry joins a room that is about to be released.
-/
namespace MediaLifetimes

open Tables Runs TtlCaches Relation MediaRoom MediaMessages MediaActs MediaResources
open MediaSession hiding Event step
open MediaSocket hiding Event step handle
open MediaRoomManager hiding Event step
open MediaDepartures (released)
open MediaOffers (AllRooms Keyed keyed_lasting step_allRooms)
open MediaPublishers (ConferenceOnly register_conferenceOnly unregister_conferenceOnly createInEp_fields)

/-! ## The TTL tasks of the rooms -/

/-- Entries and tasks may go, but no entry is left without its task. -/
structure Ticks (m m' : RoomManager) : Prop where
  ttl : m'.roomDeleteTtl = m.roomDeleteTtl
  scheduled : Scheduled m.roomTtl → Scheduled m'.roomTtl
  cache : ∀ x r, m'.roomTtl.cache.lookup x = some r → m.roomTtl.cache.lookup x = some r
  times : ∀ x t, m'.roomTtl.expirationTimes.lookup x = some t → m.roomTtl.expirationTimes.lookup x = some t

theorem Ticks.refl (m : RoomManager) : Ticks m m := ⟨rfl, id, fun _ _ h => h, fun _ _ h => h⟩

theorem Ticks.trans {a b c : RoomManager} (h : Ticks a b) (h' : Ticks b c) : Ticks a c :=
  ⟨h'.ttl.trans h.ttl, fun ha => h'.scheduled (h.scheduled ha), fun x r hr => h.cache x r (h'.cache x r hr),
    fun x t ht => h.times x t (h'.times x t ht)⟩

section
variable {m m' : RoomManager} {r : RoomRef} {f : Room → Room × List Call}

theorem remove_ticks (m : RoomManager) (x : String) (m' : RoomManager)
    (hm : m' = { m with roomTtl := (remove m.roomTtl x).1, roomIdRooms := m'.roomIdRooms, trace := m'.trace }) :
    Ticks m m' := by
  rw [hm]
  exact ⟨rfl, fun h => scheduled_remove h x, fun y r hr => (lookup_remove_eq_some.mp hr).2,
    fun y t ht => (lookup_remove_eq_some.mp ht).2⟩

theorem perform_ticks (m : RoomManager) (r : RoomRef) (c : Call) : Ticks m (m.perform r c) := by
  cases c with
  | joinRoomCallBack x => exact remove_ticks m x _ rfl
  | deleteRoomCallBack room => exact remove_ticks m room.roomId _ rfl
  | endpointRelease e => exact ⟨rfl, id, fun _ _ h => h, fun _ _ h => h⟩
  | pipelineRelease p => exact ⟨rfl, id, fun _ _ h => h, fun _ _ h => h⟩

theorem performAll_ticks (m : RoomManager) (r : RoomRef) (calls : List Call) :
    Ticks m (m.performAll r calls) := by
  induction calls generalizing m with
  | nil => exact .refl m
  | cons c rest ih => exact (perform_ticks m r c).trans (ih (m.perform r c))

theorem onRoom_ticks (m : RoomManager) (r : RoomRef) (f : Room → Room × List Call) :
    Ticks m (m.onRoom r f) := by
  unfold RoomManager.onRoom
  split
  · exact .refl m
  · next room _ =>
    have hcalls := performAll_ticks { m with heap := m.heap.set r (f room).1 } r (f room).2
    exact ⟨hcalls.ttl, hcalls.scheduled, hcalls.cache, hcalls.times⟩

theorem handleRoom_ticks (m : RoomManager) (roomId : String) (op : RoomOp) :
    Ticks m (m.handleRoom roomId op) := by
  unfold RoomManager.handleRoom
  split
  · exact .refl m
  · exact onRoom_ticks m _ _

theorem hasCome_late (t now : Nat) (h : t ≤ now) : hasCome t now = true := decide_eq_true h

theorem fire_entries (c : Cache String RoomRef) (task : String × Nat) (now : Nat) :
    (∀ x r, (fire hasCome c task now).1.cache.lookup x = some r → c.cache.lookup x = some r) ∧
      ∀ x t, (fire hasCome c task now).1.expirationTimes.lookup x = some t →
        c.expirationTimes.lookup x = some t := by
  unfold fire timer
  split
  · split
    · exact ⟨fun x r hr => (lookup_remove_eq_some.mp hr).2, fun x t ht => (lookup_remove_eq_some.mp ht).2⟩
    · exact ⟨fun _ _ h => h, fun _ _ h => h⟩
  · exact ⟨fun _ _ h => h, fun _ _ h => h⟩

theorem fireTtl_ticks (m : RoomManager) (task : String × Nat) (now : Nat) :
    Ticks m (m.fireTtl task now) := by
  obtain ⟨hcache, htimes⟩ := fire_entries m.roomTtl task now
  have hfire : Ticks m { m with roomTtl := (fire hasCome m.roomTtl task now).1 } :=
    ⟨rfl, fun h => scheduled_fire hasCome_late h task now, hcache, htimes⟩
  unfold RoomManager.fireTtl
  dsimp only
  split
  · exact hfire
  · exact hfire.trans (onRoom_ticks _ _ _)

theorem watch_ticks (hwatch : Watch m m') : Ticks m m' := by
  cases hwatch with
  | joinWithOnlyIncoming roomId userId => exact handleRoom_ticks m roomId _
  | leave roomId userId => exact handleRoom_ticks m roomId _
  | down r => exact onRoom_ticks m r _

end

/-- The room request that built the object `r`: there were `r` room objects before it. -/
def BuiltBy (h : List (Media × Event)) (x : String) (r : RoomRef) (created : Nat) : Prop :=
  ∃ s wrapper, (s, .createRoom x wrapper created) ∈ h ∧ s.server.rooms.heap.length = r ∧
    (step s (.createRoom x wrapper created)).server.rooms.heap.length = r + 1

/-- Every entry of the TTL cache has its task, which the request that built its room has timed. -/
structure Ticking (roomDeleteTtl : Nat) (h : List (Media × Event)) (m : RoomManager) : Prop where
  ttl : m.roomDeleteTtl = roomDeleteTtl
  scheduled : Scheduled m.roomTtl
  origin : ∀ x r t, m.roomTtl.cache.lookup x = some r → m.roomTtl.expirationTimes.lookup x = some t →
    ∃ created, BuiltBy h x r created ∧ t = created + roomDeleteTtl * 1000

theorem Ticking.ticks {roomDeleteTtl : Nat} {h h' : List (Media × Event)} {m m' : RoomManager}
    (hm : Ticking roomDeleteTtl h m) (hh : h ⊆ h') (ht : Ticks m m') : Ticking roomDeleteTtl h' m' := by
  refine ⟨ht.ttl.trans hm.ttl, ht.scheduled hm.scheduled, fun x r t hr htime => ?_⟩
  obtain ⟨created, ⟨s, wrapper, hmem, hbuilt⟩, heq⟩ := hm.origin x r t (ht.cache x r hr) (ht.times x t htime)
  exact ⟨created, ⟨s, wrapper, hh hmem, hbuilt⟩, heq⟩

theorem step_ticking {roomDeleteTtl : Nat} (h : List (Media × Event)) (s : Media) (e : Event)
    (hs : Ticking roomDeleteTtl h s.server.rooms) :
    Ticking roomDeleteTtl (h ++ [(s, e)]) (step s e).server.rooms := by
  have hticks : Ticks s.server.rooms (step s e).server.rooms →
      Ticking roomDeleteTtl (h ++ [(s, e)]) (step s e).server.rooms :=
    hs.ticks (List.subset_append_left h [(s, e)])
  obtain ⟨new, -, (hsame | hact) | ⟨hw, -⟩⟩ := step_asks s e
  · exact hticks (hsame ▸ .refl _)
  · generalize hm' : (step s e).server.rooms = m' at hact hticks ⊢
    cases hact with
    | @createRoom _ roomId wrapper now heq hm =>
      rcases createRoom_cases hm with rfl | ⟨url, pipeline, -, -, rfl⟩
      · exact hticks (.refl _)
      · -- the new entry is that of the room just built
        refine ⟨hs.ttl, scheduled_put hs.scheduled _ _ _ _, fun x r t hr ht => ?_⟩
        simp only [put, lookup_put] at hr ht
        by_cases hx : x = roomId
        · subst hx
          simp only [if_true, Option.some.injEq] at hr ht
          refine ⟨now, ⟨s, wrapper, ?_, hr, ?_⟩, ?_⟩
          · rw [heq]
            exact List.mem_append_right h (List.mem_singleton_self _)
          · rw [← heq, hm', ← hr]
            simp
          · rw [← ht, hs.ttl]
        · rw [if_neg hx] at hr ht
          obtain ⟨created, ⟨s', wrapper', hmem, hbuilt⟩, hat⟩ := hs.origin x r t hr ht
          exact ⟨created, ⟨s', wrapper', List.mem_append_left _ hmem, hbuilt⟩, hat⟩
    | join _ roomId userId => exact hticks (handleRoom_ticks _ roomId _)
    | createInEp _ _ _ _ => exact hticks (onRoom_ticks _ _ _)
    | fireTtl _ => exact hticks (fireTtl_ticks _ _ _)
  · exact hticks (watches_keep (I := Ticks s.server.rooms)
      (fun m m' hwatch hm => hm.trans (watch_ticks hwatch)) hw (.refl _))

theorem run_ticking (roomDeleteTtl : Nat) (events : List Event) :
    Ticking roomDeleteTtl (history step (Media.init roomDeleteTtl) events)
      (run step (Media.init roomDeleteTtl) events).server.rooms :=
  run_invariant_history (I := fun h s => Ticking roomDeleteTtl h s.server.rooms) step_ticking _
    ⟨rfl, scheduled_empty, fun x r t hr => (by cases hr)⟩ events

theorem run_inv (roomDeleteTtl : Nat) (events : List Event) :
    Inv (run step (Media.init roomDeleteTtl) events).server.rooms :=
  run_invariant (I := fun s : Media => Inv s.server.rooms) step_inv _ events (init_inv roomDeleteTtl)

/-! ## Rooms that nobody has joined -/

/-- The OUTGOING offer of a conference user gets to the room object `r`, and its user is there
already or Kurento builds their endpoint. -/
def JoinsRoom (s : Media) (r : RoomRef) : Event → Prop
  | .offer user offer kurento => ∃ info x room, ReachesRoom s.server user offer info x r ∧
      JoinsFirst info offer ∧ s.server.rooms.heap[r]? = some room ∧
      (room.join info.userId (s.build kurento)).isSome = true
  | _ => False

section
variable {s t : Server} {info : SessionInfo} {r r' : RoomRef} {offer : OfferMessage} {build : Option Endpoint}

theorem entered_calledBack (ht : Entered s info r offer build t) (h : CalledBack t.rooms r') :
    CalledBack s.rooms r' ∨ r' = r ∧ JoinsFirst info offer ∧
      ∃ room, s.rooms.heap[r]? = some room ∧ (room.join info.userId build).isSome = true := by
  rcases ht with ⟨-, rfl⟩ | ⟨hjoins, hj⟩
  · exact .inl h
  · rcases joinConference_cases s info r build with ⟨failure, hfailed⟩ | hok
    · rw [hfailed] at hj
      cases hj
    · rw [hok] at hj
      cases hj
      cases hr : s.rooms.heap[r]? with
      | none => exact .inl (by simpa [Server.send, RoomManager.onRoom, hr] using h)
      | some room =>
        rcases (onRoom_calledBack hr r').mp h with hold | ⟨rfl, hcalls⟩
        · exact .inl hold
        · obtain ⟨userId, build', heq, hsome⟩ := (call_calls room _).mp hcalls
          cases heq
          exact .inr ⟨rfl, hjoins, room, rfl, hsome⟩

theorem found_calledBack {userId : String} {epType : WebRtcEndpointType} {e : Endpoint}
    (hfound : Found s r userId offer build t epType e) (h : CalledBack t.rooms r') : CalledBack s.rooms r' := by
  cases hfound with
  | outgoing _ _ _ _ => exact h
  | incoming _ _ _ _ _ => exact (onRoom_silent (fun _ => by simp) r').mp h

end

theorem offer_calledBack (s : Media) (user : String) (offer : OfferMessage) (kurento : Bool) (r : RoomRef)
    (h : CalledBack (step s (.offer user offer kurento)).server.rooms r) :
    CalledBack s.server.rooms r ∨ JoinsRoom s r (.offer user offer kurento) := by
  change CalledBack (s.server.handleOffer user offer (s.build kurento)).1.rooms r at h
  rcases handleOffer_cases s.server user offer (s.build kurento) with
    ⟨⟨failure, he⟩, -⟩ | ⟨info, x, r', hreach, he⟩
  · rw [he] at h
    exact .inl h
  · have hentered : ∀ t, Entered s.server info r' offer (s.build kurento) t → CalledBack t.rooms r →
        CalledBack s.server.rooms r ∨ JoinsRoom s r (.offer user offer kurento) := by
      intro t ht hc
      refine (entered_calledBack ht hc).imp_right ?_
      rintro ⟨rfl, hjoins, room, hr, hsome⟩
      exact ⟨info, x, room, hreach, hjoins, hr, hsome⟩
    rw [he] at h
    rcases offerInRoom_cases s.server user info x r' offer (s.build kurento) with
      ⟨failure, ho⟩ | ⟨t, ht, ⟨failure, ho⟩ | ⟨t', epType, e, hfound, ho⟩⟩
    · rw [ho] at h
      exact .inl h
    · rw [ho] at h
      exact hentered t ht h
    · rw [ho, (respond_stores user info x r' offer t' epType e).1] at h
      exact hentered t ht (found_calledBack hfound h)

theorem handleRoom_silent (m : RoomManager) (roomId : String) {op : RoomOp}
    (hop : ∀ userId build, op ≠ .join userId build) {r : RoomRef} (h : CalledBack (m.handleRoom roomId op) r) :
    CalledBack m r := by
  unfold RoomManager.handleRoom at h
  split at h
  · exact h
  · refine (onRoom_silent (fun room hcalls => ?_) r).mp h
    obtain ⟨userId, build, heq, -⟩ := (call_calls room op).mp hcalls
    exact hop userId build heq

/-- No other message, timer or report calls the join callback. -/
theorem step_calledBack (s : Media) (e : Event) (r : RoomRef) (h : CalledBack (step s e).server.rooms r) :
    CalledBack s.server.rooms r ∨ JoinsRoom s r e := by
  by_cases hoffer : ∃ user offer kurento, e = .offer user offer kurento
  · obtain ⟨user, offer, kurento, rfl⟩ := hoffer
    exact offer_calledBack s user offer kurento r h
  · left
    obtain ⟨new, -, (hsame | hact) | ⟨hw, -⟩⟩ := step_asks s e
    · exact hsame ▸ h
    · revert h
      generalize (step s e).server.rooms = m' at hact
      intro h
      cases hact with
      | createRoom _ hm => rcases createRoom_cases hm with rfl | ⟨url, pipeline, -, -, rfl⟩ <;> exact h
      | join hcause _ _ => exact absurd ⟨_, _, _, hcause⟩ hoffer
      | createInEp _ _ _ _ => exact (onRoom_silent (fun _ => by simp [putBack]) r).mp h
      | @fireTtl task now _ =>
        obtain ⟨roomTtl, heq | ⟨r', heq⟩⟩ := fireTtl_shape s.server.rooms task now
        · rw [heq] at h
          exact h
        · rw [heq] at h
          exact (onRoom_silent (m := { s.server.rooms with roomTtl := roomTtl }) release_calls r).mp h
    · refine (watches_keep (I := fun m => CalledBack m r → CalledBack s.server.rooms r) ?_ hw id) h
      intro m m' hwatch hm hc
      refine hm ?_
      cases hwatch with
      | joinWithOnlyIncoming roomId userId => exact handleRoom_silent m roomId (by simp) hc
      | leave roomId userId => exact handleRoom_silent m roomId (by simp) hc
      | down r' => exact (onRoom_silent (by simp [Room.releaseWithKurentoDown]) r).mp hc

/-- What the steps of a run have joined is all that has been called back. -/
theorem run_not_calledBack (roomDeleteTtl : Nat) (events : List Event) (r : RoomRef)
    (h : Along step (fun s e => ¬ JoinsRoom s r e) (Media.init roomDeleteTtl) events) :
    ¬ CalledBack (run step (Media.init roomDeleteTtl) events).server.rooms r := by
  refine (throughout_of_along (I := fun s : Media => ¬ CalledBack s.server.rooms r) ?_ _ events ?_ h).run
  · intro s e hs hnot hcalled
    rcases step_calledBack s e r hcalled with hold | hjoins
    · exact hs hold
    · exact hnot hjoins
  · rintro ⟨x, hx⟩
    cases hx

/-- The task of an entry, at its time, closes the room of the entry. -/
theorem fireTtl_closes {m : RoomManager} (h : Inv m) {x : String} {r : RoomRef} {t now : Nat}
    (hr : m.roomTtl.cache.lookup x = some r) (ht : m.roomTtl.expirationTimes.lookup x = some t)
    (htask : (x, t) ∈ m.roomTtl.timers) (hnow : t ≤ now) :
    (m.fireTtl (x, t) now).roomIdRooms.lookup x = none ∧
      ∃ room, m.heap[r]? = some room ∧ (m.fireTtl (x, t) now).heap[r]? = some room.emptied ∧
        (r, .pipelineRelease room.mediaPipeline) ∈ (m.fireTtl (x, t) now).trace := by
  obtain ⟨room, hroom, rfl⟩ := h.stored x r ((h.key x r).mp hr).1
  have hfire := fire_scheduled hasCome_late hr ht htask hnow
  have heq : m.fireTtl (room.roomId, t) now =
      ({ m with roomTtl := (fire hasCome m.roomTtl (room.roomId, t) now).1 } : RoomManager).onRoom r
        Room.release := by
    simp only [RoomManager.fireTtl, hfire]
  rw [heq]
  set m₁ : RoomManager := { m with roomTtl := (fire hasCome m.roomTtl (room.roomId, t) now).1 }
  have hroom₁ : m₁.heap[r]? = some room := hroom
  refine ⟨?_, room, hroom, ?_, ?_⟩
  · rw [onRoom_eq hroom₁, performAll_rooms _ _ _ _ (release_local room).about]
    simp [release_deletes]
  · rw [onRoom_heap_self hroom₁, Room.release_fst]
  · rw [onRoom_eq hroom₁, performAll_trace]
    refine List.mem_append_right _ (List.mem_map.mpr ⟨_, ?_, rfl⟩)
    rw [Room.release]
    simp

/-- After every run, a room in the map that nobody has joined has its task with the
executor, due `roomDeleteTtl` seconds after the request that built the room; and the task,
whenever it runs from then on as one step, takes the room out of the map, empties it and
releases its pipeline. -/
theorem unjoined_room_expires (roomDeleteTtl : Nat) (events : List Event) (x : String) (r : RoomRef)
    (hx : (run step (Media.init roomDeleteTtl) events).server.rooms.roomIdRooms.lookup x = some r)
    (hjoined : Along step (fun s e => ¬ JoinsRoom s r e) (Media.init roomDeleteTtl) events) :
    let s := run step (Media.init roomDeleteTtl) events
    ∃ created, BuiltBy (history step (Media.init roomDeleteTtl) events) x r created ∧
      (x, created + roomDeleteTtl * 1000) ∈ s.server.rooms.roomTtl.timers ∧
      ∀ now, created + roomDeleteTtl * 1000 ≤ now →
        let m := (step s (.fireTtl (x, created + roomDeleteTtl * 1000) now)).server.rooms
        m.roomIdRooms.lookup x = none ∧
          ∃ room, s.server.rooms.heap[r]? = some room ∧ m.heap[r]? = some room.emptied ∧
            (r, .pipelineRelease room.mediaPipeline) ∈ m.trace := by
  intro s
  have hinv := run_inv roomDeleteTtl events
  have hticking := run_ticking roomDeleteTtl events
  have hentry := (hinv.key x r).mpr ⟨hx, run_not_calledBack roomDeleteTtl events r hjoined⟩
  obtain ⟨t, ht, htask⟩ := hticking.scheduled x r hentry
  obtain ⟨created, hbuilt, rfl⟩ := hticking.origin x r t hentry ht
  refine ⟨created, hbuilt, htask, fun now hnow => ?_⟩
  have hrooms : (step s (.fireTtl (x, created + roomDeleteTtl * 1000) now)).server.rooms =
      s.server.rooms.fireTtl (x, created + roomDeleteTtl * 1000) now := withRooms_rooms s.server _
  rw [hrooms]
  exact fireTtl_closes hinv hentry ht htask hnow

/-- Nobody joins the room of a request made at the time 5. -/
theorem unjoined_room_expires_created :
    let s := run step (Media.init 30) [.createRoom "daily" (some ⟨"kms", some 7⟩) 5]
    ∃ created, BuiltBy (history step (Media.init 30) [.createRoom "daily" (some ⟨"kms", some 7⟩) 5])
        "daily" 0 created ∧
      ("daily", created + 30 * 1000) ∈ s.server.rooms.roomTtl.timers ∧
      ∀ now, created + 30 * 1000 ≤ now →
        let m := (step s (.fireTtl ("daily", created + 30 * 1000) now)).server.rooms
        m.roomIdRooms.lookup "daily" = none ∧
          ∃ room, s.server.rooms.heap[0]? = some room ∧ m.heap[0]? = some room.emptied ∧
            (0, .pipelineRelease room.mediaPipeline) ∈ m.trace :=
  unjoined_room_expires 30 [.createRoom "daily" (some ⟨"kms", some 7⟩) 5] "daily" 0 rfl ⟨id, trivial⟩

/-! ## Rooms that somebody has joined -/

/-- The participants are still there, with the endpoints they publish on. -/
def Keeps (room room' : Room) : Prop :=
  room'.roomId = room.roomId ∧ ∀ u p, room.findParticipant u = some p →
    ∃ p', room'.findParticipant u = some p' ∧ p'.outWebRtcEndpoint = p.outWebRtcEndpoint

theorem Keeps.refl (room : Room) : Keeps room room := ⟨rfl, fun _ p hp => ⟨p, hp, rfl⟩⟩

theorem Keeps.trans {a b c : Room} (h : Keeps a b) (h' : Keeps b c) : Keeps a c := by
  refine ⟨h'.1.trans h.1, fun u p hp => ?_⟩
  obtain ⟨p', hp', hout⟩ := h.2 u p hp
  obtain ⟨p'', hp'', hout'⟩ := h'.2 u p' hp'
  exact ⟨p'', hp'', hout'.trans hout⟩

/-- No endpoint has been released, and no participant has gone. -/
structure Grows (m m' : RoomManager) : Prop where
  released : releasedBy m' = releasedBy m
  rooms : ∀ (r : RoomRef) (room : Room), m.heap[r]? = some room →
    ∃ room', m'.heap[r]? = some room' ∧ Keeps room room'

theorem Grows.refl (m : RoomManager) : Grows m m := ⟨rfl, fun _ room hr => ⟨room, hr, .refl room⟩⟩

theorem Grows.trans {a b c : RoomManager} (h : Grows a b) (h' : Grows b c) : Grows a c := by
  refine ⟨h'.released.trans h.released, fun r room hr => ?_⟩
  obtain ⟨room', hr', hk⟩ := h.rooms r room hr
  obtain ⟨room'', hr'', hk'⟩ := h'.rooms r room' hr'
  exact ⟨room'', hr'', hk.trans hk'⟩

/-- Only joined rooms have participants, and they are all in the map. -/
structure Peopled (m : RoomManager) : Prop where
  empty : ∀ (r : RoomRef) (room : Room), m.heap[r]? = some room → ¬ CalledBack m r → room.userIdParticipants = ∅
  listed : ∀ r, CalledBack m r → ∃ room, m.heap[r]? = some room ∧ m.roomIdRooms.lookup room.roomId = some r

section
variable {m m' : RoomManager} {r : RoomRef} {room : Room} {f : Room → Room × List Call}

/-- A method on a room of the map that closes and releases nothing. -/
theorem onRoom_grows (hp : Peopled m) (hr : m.heap[r]? = some room)
    (hmap : m.roomIdRooms.lookup room.roomId = some r) (hf : Local room (f room))
    (hdelete : (f room).2.any Call.isDelete = false) (hreleased : released (f room).2 = [])
    (hkeeps : Keeps room (f room).1) (hjoined : CalledBack (m.onRoom r f) r) :
    Peopled (m.onRoom r f) ∧ Grows m (m.onRoom r f) := by
  have hrooms : ∀ x, (m.onRoom r f).roomIdRooms.lookup x = m.roomIdRooms.lookup x := by
    intro x
    rw [onRoom_eq hr, performAll_rooms _ _ _ _ hf.about, hdelete]
    simp
  refine ⟨⟨?_, ?_⟩, ?_, ?_⟩
  · intro r' room' hr' hnot
    have hne : r' ≠ r := by
      rintro rfl
      exact hnot hjoined
    rw [onRoom_heap_other hr hne] at hr'
    exact hp.empty r' room' hr' fun hj => hnot ((onRoom_calledBack hr r').mpr (.inl hj))
  · intro r' hj
    by_cases hne : r' = r
    · subst hne
      refine ⟨(f room).1, onRoom_heap_self hr, ?_⟩
      rw [hrooms, hf.roomId]
      exact hmap
    · rcases (onRoom_calledBack hr r').mp hj with hj | ⟨rfl, -⟩
      · obtain ⟨room', hr', hlisted⟩ := hp.listed r' hj
        exact ⟨room', (onRoom_heap_other hr hne).trans hr', (hrooms _).trans hlisted⟩
      · exact absurd rfl hne
  · rw [releasedBy_onRoom hr, hreleased, List.append_nil]
  · intro r' room' hr'
    by_cases hne : r' = r
    · subst hne
      obtain rfl := Option.some.inj (hr.symm.trans hr')
      exact ⟨(f room).1, onRoom_heap_self hr, hkeeps⟩
    · exact ⟨room', (onRoom_heap_other hr hne).trans hr', .refl room'⟩

theorem join_keeps (room : Room) (userId : String) (new : Option Endpoint) {q : Room × List Call}
    (h : room.join userId new = some q) : q.2 = [.joinRoomCallBack room.roomId] ∧ Keeps room q.1 := by
  unfold Room.join at h
  split at h
  · obtain rfl := Option.some.inj h
    exact ⟨rfl, .refl room⟩
  · cases h
  · next e hnone =>
    obtain rfl := Option.some.inj h
    refine ⟨rfl, rfl, fun u p hp => ⟨p, ?_, rfl⟩⟩
    have hne : u ≠ userId := by
      rintro rfl
      rw [Room.findParticipant, hnone] at hp
      cases hp
    simp only [Room.findParticipant, lookup_put, if_neg hne]
    exact hp

theorem join_grows (hi : Inv m) (hp : Peopled m) (roomId userId : String) (new : Option Endpoint) :
    Peopled (m.handleRoom roomId (.join userId new)) ∧ Grows m (m.handleRoom roomId (.join userId new)) := by
  unfold RoomManager.handleRoom
  split
  · exact ⟨hp, .refl m⟩
  · next r hmap =>
    obtain ⟨room, hr, rfl⟩ := hi.stored roomId r hmap
    cases hjoin : room.join userId new with
    | none =>
      -- Kurento has not built the endpoint: the room stays as it was
      have hsame : m.onRoom r (fun room => room.call (.join userId new)) = m := by
        rw [onRoom_eq hr]
        simp only [Room.call, hjoin, Option.getD_none, set_same hr]
        rfl
      rw [hsame]
      exact ⟨hp, .refl m⟩
    | some q =>
      obtain ⟨hcalls, hkeeps⟩ := join_keeps room userId new hjoin
      have hcall : room.call (.join userId new) = q := by simp [Room.call, hjoin]
      refine onRoom_grows hp hr hmap (call_local room _) ?_ ?_ ?_ ?_
      · rw [hcall, hcalls]
        rfl
      · rw [hcall, hcalls]
        rfl
      · rw [hcall]
        exact hkeeps
      · refine (onRoom_calledBack hr r).mpr (.inr ⟨rfl, room.roomId, ?_⟩)
        rw [hcall, hcalls]
        exact List.mem_singleton_self _

theorem putBack_keeps {userId present : String} {p p' : Participant} {new : Option Endpoint} {e : Endpoint}
    (hkeyed : Keyed room) (hp : room.userIdParticipants.lookup userId = some p)
    (he : p.createInEp present new = some (p', e)) : Keeps room (putBack p' room).1 := by
  obtain ⟨hid, hout⟩ := createInEp_fields he
  have hkey : p'.userId = userId := hid.trans (hkeyed userId p hp)
  refine ⟨rfl, fun u q hq => ?_⟩
  simp only [putBack, Room.findParticipant, lookup_put, hkey]
  by_cases hu : u = userId
  · subst hu
    obtain rfl := Option.some.inj (hp.symm.trans hq)
    exact ⟨p', by simp, hout⟩
  · exact ⟨q, by rw [if_neg hu]; exact hq, rfl⟩

theorem createInEp_grows (hp : Peopled m) (hkeyed : AllRooms Keyed m) {userId present : String}
    {p p' : Participant} {new : Option Endpoint} {e : Endpoint} (hr : m.heap[r]? = some room)
    (hfound : room.userIdParticipants.lookup userId = some p)
    (he : p.createInEp present new = some (p', e)) :
    Peopled (m.onRoom r (putBack p')) ∧ Grows m (m.onRoom r (putBack p')) := by
  -- somebody is in the room, so it has been joined
  have hjoined : CalledBack m r := by
    by_contra hnot
    rw [hp.empty r room hr hnot] at hfound
    cases hfound
  obtain ⟨room', hr', hmap⟩ := hp.listed r hjoined
  obtain rfl := Option.some.inj (hr.symm.trans hr')
  exact onRoom_grows hp hr hmap ⟨rfl, fun c hc => (by cases hc)⟩ rfl rfl
    (putBack_keeps (hkeyed r room hr) hfound he) ((onRoom_calledBack hr r).mpr (.inl hjoined))

theorem createRoom_grows (hp : Peopled m) {roomId : String} {wrapper : Option PipelineWrapper} {now : Nat}
    (hm : m.createRoom roomId wrapper now = some m') : Peopled m' ∧ Grows m m' := by
  rcases createRoom_cases hm with rfl | ⟨url, pipeline, -, hfree, rfl⟩
  · exact ⟨hp, .refl m'⟩
  · refine ⟨⟨?_, ?_⟩, rfl, ?_⟩
    · intro r room hr hnot
      rcases append_cases hr with hr | rfl
      · exact hp.empty r room hr hnot
      · rfl
    · intro r hj
      obtain ⟨room, hr, hlisted⟩ := hp.listed r hj
      refine ⟨room, heap_append _ hr, ?_⟩
      have hne : room.roomId ≠ roomId := by
        intro heq
        rw [heq, hfree] at hlisted
        cases hlisted
      simp only [lookup_put, if_neg hne]
      exact hlisted
    · intro r room hr
      exact ⟨room, heap_append _ hr, .refl room⟩

/-- A TTL entry belongs to a room that nobody has joined, so the room it closes is empty. -/
theorem fireTtl_grows (hi : Inv m) (hp : Peopled m) (task : String × Nat) (now : Nat) :
    Peopled (m.fireTtl task now) ∧ Grows m (m.fireTtl task now) := by
  unfold RoomManager.fireTtl
  dsimp only
  split
  · exact ⟨⟨hp.empty, hp.listed⟩, rfl, fun r room hr => ⟨room, hr, .refl room⟩⟩
  · next r hfired =>
    have hentry : m.roomTtl.cache.lookup task.1 = some r := by
      rcases fire_cases hasCome m.roomTtl task now with ⟨hv, -⟩ | ⟨hv, -⟩
      · exact hv.symm.trans hfired
      · rw [hv] at hfired
        cases hfired
    obtain ⟨hmap, hnot⟩ := (hi.key task.1 r).mp hentry
    obtain ⟨room, hr, hid⟩ := hi.stored task.1 r hmap
    have hempty : room.isEmpty = true := (Room.isEmpty_iff room).mpr (hp.empty r room hr hnot)
    generalize (fire hasCome m.roomTtl task now).1 = roomTtl
    set m₁ : RoomManager := { m with roomTtl := roomTtl } with hm₁
    have hr₁ : m₁.heap[r]? = some room := hr
    have hheap : (m₁.onRoom r Room.release).heap = m.heap := by
      rw [onRoom_heap hr₁, Room.release_empty room hempty]
      exact set_same hr
    have hjoined : ∀ r', CalledBack (m₁.onRoom r Room.release) r' ↔ CalledBack m r' := by
      intro r'
      rw [onRoom_calledBack hr₁ r', Room.release_empty room hempty]
      simp [hm₁, CalledBack]
    refine ⟨⟨?_, ?_⟩, ?_, ?_⟩
    · intro r' room' hr' hj
      rw [hheap] at hr'
      exact hp.empty r' room' hr' fun h => hj ((hjoined r').mpr h)
    · intro r' hj
      obtain ⟨room', hr', hlisted⟩ := hp.listed r' ((hjoined r').mp hj)
      refine ⟨room', by rw [hheap]; exact hr', ?_⟩
      have hne : room'.roomId ≠ room.roomId := by
        intro heq
        rw [heq, hid, hmap] at hlisted
        exact hnot (Option.some.inj hlisted ▸ (hjoined r').mp hj)
      rw [onRoom_eq hr₁, performAll_rooms _ _ _ _ (release_local room).about, if_neg fun h => hne h.1]
      exact hlisted
    · rw [releasedBy_onRoom hr₁, Room.release_empty room hempty]
      exact List.append_nil _
    · intro r' room' hr'
      exact ⟨room', by rw [hheap]; exact hr', .refl room'⟩

theorem act_grows {cause : Event} {new : Option Endpoint} (hi : Inv m) (hkeyed : AllRooms Keyed m)
    (hp : Peopled m) (hact : Act cause new m m') : Peopled m' ∧ Grows m m' := by
  cases hact with
  | createRoom _ hm => exact createRoom_grows hp hm
  | join _ roomId userId => exact join_grows hi hp roomId userId new
  | createInEp _ hr hfound he => exact createInEp_grows hp hkeyed hr hfound he
  | fireTtl _ => exact fireTtl_grows hi hp _ _

end

/-- Only conference users have come. -/
structure Conferring (s : Media) : Prop where
  conferenceOnly : ConferenceOnly s.server.sessions
  inv : Inv s.server.rooms
  keyed : AllRooms Keyed s.server.rooms
  peopled : Peopled s.server.rooms

theorem step_conferring (s : Media) (e : Event) (he : ordinary e = true) (h : Conferring s) :
    Conferring (step s e) ∧ Grows s.server.rooms (step s e).server.rooms := by
  have hrooms : Peopled (step s e).server.rooms ∧ Grows s.server.rooms (step s e).server.rooms := by
    obtain ⟨new, -, (hsame | hact) | ⟨-, hnot | hmonitored⟩⟩ := step_asks s e
    · rw [hsame]
      exact ⟨h.peopled, .refl _⟩
    · exact act_grows h.inv h.keyed h.peopled hact
    · exact absurd (he.symm.trans hnot) (by decide)
    · exact absurd hmonitored (not_monitored h.conferenceOnly)
  refine ⟨⟨?_, step_inv s e h.inv, step_allRooms keyed_lasting s e h.keyed, hrooms.1⟩, hrooms.2⟩
  exact step_sessions register_conferenceOnly unregister_conferenceOnly s e he h.conferenceOnly

theorem init_conferring (roomDeleteTtl : Nat) : Conferring (Media.init roomDeleteTtl) where
  conferenceOnly := by intro p info h; cases h
  inv := init_inv roomDeleteTtl
  keyed := by intro r room hr; cases hr
  peopled := by
    constructor
    · intro r room hr
      cases hr
    · rintro r ⟨x, hx⟩
      cases hx

theorem run_conferring {s : Media} (h : Conferring s) (events : List Event)
    (he : ∀ e ∈ events, ordinary e = true) :
    Conferring (run step s events) ∧ Grows s.server.rooms (run step s events).server.rooms := by
  refine run_invariant_of_mem
    (I := fun t : Media => Conferring t ∧ Grows s.server.rooms t.server.rooms) ?_ s ⟨h, .refl _⟩
  intro t e hmem ht
  obtain ⟨hnext, hgrows⟩ := step_conferring t e (he e hmem) ht.1
  exact ⟨hnext, ht.2.trans hgrows⟩

/-- With messages and TTL tasks that are not interrupted: as long as all sessions are the
conference sessions that the source registers and no media server is reported down, nothing
is ever released. Who has joined a room stays in it with the endpoint they publish on,
whether they disconnect or not, and the room stays in the map. -/
theorem joined_room_lasts (roomDeleteTtl : Nat) (events later : List Event)
    (hordinary : ∀ e ∈ events ++ later, ordinary e = true) :
    let s := run step (Media.init roomDeleteTtl) events
    let s' := run step s later
    releasedBy s'.server.rooms = [] ∧
      ∀ (r : RoomRef) (room : Room) (u : String) (p : Participant), s.server.rooms.heap[r]? = some room →
        room.findParticipant u = some p →
        s'.server.rooms.roomIdRooms.lookup room.roomId = some r ∧
          ∃ room' p', s'.server.rooms.heap[r]? = some room' ∧ room'.findParticipant u = some p' ∧
            p'.outWebRtcEndpoint = p.outWebRtcEndpoint := by
  intro s s'
  obtain ⟨hs, hgrows⟩ := run_conferring (init_conferring roomDeleteTtl) events
    fun e he => hordinary e (List.mem_append_left _ he)
  obtain ⟨hs', hgrows'⟩ := run_conferring hs later fun e he => hordinary e (List.mem_append_right _ he)
  refine ⟨hgrows'.released.trans hgrows.released, fun r room u p hr hp => ?_⟩
  obtain ⟨room', hr', hid, hkeeps⟩ := hgrows'.rooms r room hr
  obtain ⟨p', hp', hout⟩ := hkeeps u p hp
  have hjoined : CalledBack s'.server.rooms r := by
    by_contra hnot
    rw [Room.findParticipant, hs'.peopled.empty r room' hr' hnot] at hp'
    cases hp'
  obtain ⟨room'', hr'', hlisted⟩ := hs'.peopled.listed r hjoined
  obtain rfl := Option.some.inj (hr'.symm.trans hr'')
  exact ⟨hid ▸ hlisted, room', p', hr', hp', hout⟩

/-- Somebody publishes in a room and disconnects. -/
theorem joined_room_lasts_disconnected :
    let s' := run step (run step (Media.init 30)
      [.createRoom "daily" (some ⟨"kms", some 7⟩) 5, .connect "ws-1" (some "kim") (some "daily"),
        .offer "ws-1" ⟨none, some .outgoing, none, "sdp"⟩ true]) [.disconnect "ws-1", .fireTtl ("daily", 30005) 40000]
    s'.server.rooms.roomIdRooms.lookup "daily" = some 0 ∧
      ∃ room' p', s'.server.rooms.heap[0]? = some room' ∧ room'.findParticipant "kim" = some p' ∧
        p'.outWebRtcEndpoint = some 2 :=
  (joined_room_lasts 30 [.createRoom "daily" (some ⟨"kms", some 7⟩) 5,
    .connect "ws-1" (some "kim") (some "daily"), .offer "ws-1" ⟨none, some .outgoing, none, "sdp"⟩ true]
    [.disconnect "ws-1", .fireTtl ("daily", 30005) 40000] (by decide)).2 0 _ "kim" _ rfl rfl

end MediaLifetimes

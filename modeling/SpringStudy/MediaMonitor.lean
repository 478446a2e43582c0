import SpringStudy.MediaSocket
import SpringStudy.Runs

/-!
# Monitoring users and the rooms they watch

`MonitorManger` notes the rooms that each monitoring user has joined. The note
is made before the room is looked up, and a room that is not there is passed
over in silence.
-/
namespace MediaMonitor

open Tables Outcomes TtlCaches MediaRoom MediaRoomManager MediaSession MediaSocket Runs

def addRoom (s : Server) (userId roomId : String) : Server :=
  { s with userIdMonitorSession := s.userIdMonitorSession.addRoom userId roomId }

def removeRoom (s : Server) (userId roomId : String) : Server :=
  { s with userIdMonitorSession := s.userIdMonitorSession.removeRoom userId roomId }

/-- The callback of `handleJoin`: the newcomer is told who publishes in the room. -/
def notifyPublishers (s : Server) (user : String) (room : Room) : Outcome Server Failure :=
  forAll (fun s p => match s.sessions.findSessionInfoByUserId p.userId with
    | none => (s, some (.missingSession p.userId))
    | some other => (s.send (.member user other .enter), none)) s room.findParticipants

theorem notifyPublishers_notifies (s : Server) (user : String) (room : Room) :
    Notifies s (notifyPublishers s user room).1 := by
  apply forAll_notifies
  intro t p
  split <;> exact ⟨rfl, rfl, rfl, rfl⟩

def joinRoom (s : Server) (user userId roomId : String) : Outcome Server Failure :=
  let s := addRoom s userId roomId
  match s.rooms.roomIdRooms.lookup roomId with
  | none => (s, none)
  | some r =>
    let s := { s with rooms := s.rooms.handleRoom roomId (.joinWithOnlyIncoming userId) }
    match s.rooms.heap[r]? with
    | none => (s, none)
    | some room => notifyPublishers s user room

def leaveRoom (s : Server) (userId roomId : String) : Outcome Server Failure :=
  let s := removeRoom s userId roomId
  s.withRooms (s.rooms.handleRoom roomId (.leave userId))

def releaseRoom (s : Server) (roomId : String) : Outcome Server Failure :=
  s.withRooms (s.rooms.handleRoom roomId .release)

inductive Event where
  | createRoom (roomId : String) (wrapper : Option PipelineWrapper) (now : Nat)
  | joinRoom (user userId roomId : String)
  | leaveRoom (userId roomId : String)
  | leaveAllRoom (userId : String)
  | releaseRoom (roomId : String)
  | fireTtl (task : String × Nat) (now : Nat)
  | kurentoDown (order : Traversal RoomRef) (kmsUrl : String)

def handle (s : Server) : Event → Outcome Server Failure
  | .createRoom roomId wrapper now => s.createRoom roomId wrapper now
  | .joinRoom user userId roomId => joinRoom s user userId roomId
  | .leaveRoom userId roomId => leaveRoom s userId roomId
  | .leaveAllRoom userId => s.leaveAllRoom userId
  | .releaseRoom roomId => releaseRoom s roomId
  | .fireTtl task now => s.fireTtl task now
  | .kurentoDown order kmsUrl => s.kurentoDown order kmsUrl

def step (s : Server) (e : Event) : Server := (handle s e).1

/-- The rooms in the user's `MonitorSession`. -/
def joined (s : Server) (userId : String) : List String := (s.userIdMonitorSession.lookup userId).getD []

/-- There is a room with that id and the user is one of its participants. -/
def Participates (m : RoomManager) (userId roomId : String) : Prop :=
  ∃ r room, m.roomIdRooms.lookup roomId = some r ∧ m.heap[r]? = some room ∧
    (room.findParticipant userId).isSome = true

def Matches (s : Server) : Prop := ∀ u x, x ∈ joined s u ↔ Participates s.rooms u x

/-- `joinRoom` is called with the id of a room that is there. -/
def JoinsExisting (s : Server) : Event → Prop
  | .joinRoom _ _ roomId => (s.rooms.roomIdRooms.lookup roomId).isSome = true
  | .createRoom _ _ _ => True
  | .leaveRoom _ _ => True
  | .leaveAllRoom _ => True
  | .releaseRoom _ => True
  | .fireTtl _ _ => True
  | .kurentoDown _ _ => True

instance decidableJoinsExisting (s : Server) : ∀ e, Decidable (JoinsExisting s e)
  | .joinRoom _ _ roomId => inferInstanceAs (Decidable ((s.rooms.roomIdRooms.lookup roomId).isSome = true))
  | .createRoom _ _ _ => .isTrue trivial
  | .leaveRoom _ _ => .isTrue trivial
  | .leaveAllRoom _ => .isTrue trivial
  | .releaseRoom _ => .isTrue trivial
  | .fireTtl _ _ => .isTrue trivial
  | .kurentoDown _ _ => .isTrue trivial

/-! ## The sets after a room has closed -/

theorem joined_addRoom (s : Server) (userId roomId u : String) :
    joined (addRoom s userId roomId) u = if u = userId then (joined s u).insert roomId else joined s u := by
  unfold joined addRoom MonitorSessions.addRoom
  by_cases hu : u = userId
  · subst hu
    simp
  · simp [hu]

theorem mem_joined_addRoom (s : Server) (userId roomId u x : String) :
    x ∈ joined (addRoom s userId roomId) u ↔ x ∈ joined s u ∨ (u = userId ∧ x = roomId) := by
  rw [joined_addRoom]
  by_cases hu : u = userId
  · simp only [hu, if_true, List.mem_insert_iff, true_and]
    exact or_comm
  · simp [hu]

theorem joined_removeRoom (s : Server) (userId roomId u : String) :
    joined (removeRoom s userId roomId) u = if u = userId then (joined s u).erase roomId else joined s u := by
  unfold joined removeRoom MonitorSessions.removeRoom
  by_cases hu : u = userId
  · subst hu
    cases h : s.userIdMonitorSession.lookup u with
    | none => simp [h]
    | some roomIds => simp
  · cases s.userIdMonitorSession.lookup userId with
    | none => simp [hu]
    | some roomIds => simp [hu]

theorem joined_endRoomProcess (s : Server) (roomId u : String) :
    joined (s.endRoomProcess roomId) u = (joined s u).erase roomId := by
  simp only [joined, Server.endRoomProcess, MonitorSessions.endRoomProcess, lookup_mapValues]
  cases s.userIdMonitorSession.lookup u with
  | none => rfl
  | some roomIds => rfl

/-- The ids of the rooms that the calls report as closed. -/
def closedIds (calls : List (RoomRef × Call)) : List String :=
  calls.filterMap fun c => match c.2 with
    | .deleteRoomCallBack room => some room.roomId
    | _ => none

theorem mem_closedIds (calls : List (RoomRef × Call)) (x : String) :
    x ∈ closedIds calls ↔ ∃ r room, (r, Call.deleteRoomCallBack room) ∈ calls ∧ room.roomId = x := by
  simp only [closedIds, List.mem_filterMap]
  constructor
  · rintro ⟨⟨r, c⟩, hc, he⟩
    cases c with
    | deleteRoomCallBack room => exact ⟨r, room, hc, by simpa using he⟩
    | joinRoomCallBack y => cases he
    | endpointRelease e => cases he
    | pipelineRelease p => cases he
  · rintro ⟨r, room, hc, rfl⟩
    exact ⟨_, hc, rfl⟩

/-- No room that the calls report as closed has a publisher. -/
def Silent (calls : List (RoomRef × Call)) : Prop :=
  ∀ r room, (r, Call.deleteRoomCallBack room) ∈ calls → room.findParticipants = []

/-- Without publishers the close callbacks find nobody to notify. -/
theorem closeRooms_silent (s : Server) (calls : List (RoomRef × Call)) (h : Silent calls) :
    s.closeRooms calls = ((closedIds calls).foldl Server.endRoomProcess s, none) := by
  induction calls generalizing s with
  | nil => rfl
  | cons c rest ih =>
    have hrest : Silent rest := fun r room hm => h r room (List.mem_cons_of_mem _ hm)
    obtain ⟨r, c⟩ := c
    simp only [Server.closeRooms, forAll] at ih ⊢
    cases c with
    | deleteRoomCallBack room =>
      have hnobody := h r room List.mem_cons_self
      simp only [Server.closeRoomCallback, hnobody, forAll, andThen_ok, closedIds, List.filterMap_cons,
        List.foldl_cons]
      exact ih _ hrest
    | joinRoomCallBack y => exact ih s hrest
    | endpointRelease e => exact ih s hrest
    | pipelineRelease p => exact ih s hrest

theorem foldl_endRoomProcess_rooms (ids : List String) (s : Server) :
    (ids.foldl Server.endRoomProcess s).rooms = s.rooms := by
  induction ids generalizing s with
  | nil => rfl
  | cons x rest ih => exact ih (s.endRoomProcess x)

theorem mem_joined_foldl (ids : List String) (s : Server) (u : String) (hd : (joined s u).Nodup) :
    (joined (ids.foldl Server.endRoomProcess s) u).Nodup ∧
      ∀ y, y ∈ joined (ids.foldl Server.endRoomProcess s) u ↔ y ∈ joined s u ∧ y ∉ ids := by
  induction ids generalizing s with
  | nil => simpa using hd
  | cons x rest ih =>
    have he := joined_endRoomProcess s x u
    obtain ⟨hnodup, hmem⟩ := ih (s.endRoomProcess x) (by rw [he]; exact hd.erase x)
    refine ⟨hnodup, fun y => ?_⟩
    rw [List.foldl_cons, hmem y, he, hd.mem_erase_iff, List.mem_cons]
    tauto

/-! ## Participants after a call on a room -/

theorem silent_iff (room : Room) : room.findParticipants = [] ↔
    ∀ u p, room.userIdParticipants.lookup u = some p → p.outWebRtcEndpoint = none := by
  simp only [Room.findParticipants, List.filter_eq_nil_iff, mem_values_iff, Bool.not_eq_true,
    Option.isSome_eq_false_iff, Option.isNone_iff_eq_none]
  exact ⟨fun h u p hp => h p ⟨u, hp⟩, fun h p ⟨u, hp⟩ => h u p hp⟩

section
variable {m : RoomManager} {r : RoomRef} {room : Room} {f : Room → Room × List Call}

theorem participates_iff (hmap : m.roomIdRooms.lookup room.roomId = some r) (hr : m.heap[r]? = some room)
    (u : String) : Participates m u room.roomId ↔ (room.findParticipant u).isSome = true := by
  constructor
  · rintro ⟨r', room', hmap', hr', hp⟩
    obtain rfl : r' = r := Option.some.inj (hmap'.symm.trans hmap)
    obtain rfl : room' = room := Option.some.inj (hr'.symm.trans hr)
    exact hp
  · exact fun hp => ⟨r, room, hmap, hr, hp⟩

/-- A call on a room of the map decides about that room only. -/
theorem participates_onRoom (hs : Stored m) (hmap : m.roomIdRooms.lookup room.roomId = some r)
    (hr : m.heap[r]? = some room) (hf : Local room (f room)) (u y : String) :
    Participates (m.onRoom r f) u y ↔
      if y = room.roomId then
        (f room).2.any Call.isDelete = false ∧ ((f room).1.findParticipant u).isSome = true
      else Participates m u y := by
  simp only [Participates, onRoom_eq hr, performAll_rooms _ _ _ _ hf.about, performAll_heap]
  by_cases hy : y = room.roomId
  · subst hy
    cases hd : (f room).2.any Call.isDelete with
    | true => simp
    | false => simp [hmap, set_self hr]
  · simp only [hy, false_and, if_false]
    -- another id leads to another object
    have hother : ∀ r', m.roomIdRooms.lookup y = some r' → r ≠ r' := by
      rintro r' hr' rfl
      obtain ⟨room', hroom', hid⟩ := hs y r hr'
      rw [hr, Option.some.injEq] at hroom'
      exact hy (by rw [hroom', hid])
    constructor
    · rintro ⟨r', room', hmap', hr', hp⟩
      exact ⟨r', room', hmap', by rwa [List.getElem?_set_ne (hother r' hmap')] at hr', hp⟩
    · rintro ⟨r', room', hmap', hr', hp⟩
      exact ⟨r', room', hmap', by rwa [List.getElem?_set_ne (hother r' hmap')], hp⟩

theorem onRoom_trace (hr : m.heap[r]? = some room) :
    (m.onRoom r f).trace = m.trace ++ (f room).2.map fun c => (r, c) := by
  rw [onRoom_eq hr, performAll_trace]

end

theorem mem_closedIds_map (r : RoomRef) (room : Room) (calls : List Call)
    (h : ∀ c ∈ calls, About room.roomId c) (x : String) :
    x ∈ closedIds (calls.map fun c => (r, c)) ↔ x = room.roomId ∧ calls.any Call.isDelete = true := by
  rw [mem_closedIds, List.any_eq_true]
  constructor
  · rintro ⟨r', room', hm, rfl⟩
    obtain ⟨c, hc, he⟩ := List.mem_map.mp hm
    obtain ⟨-, rfl⟩ := Prod.mk.inj he
    exact ⟨h _ hc, _, hc, rfl⟩
  · rintro ⟨rfl, c, hc, hd⟩
    cases c with
    | deleteRoomCallBack room' =>
      exact ⟨r, room', List.mem_map.mpr ⟨_, hc, rfl⟩, h _ hc⟩
    | joinRoomCallBack y => cases hd
    | endpointRelease e => cases hd
    | pipelineRelease p => cases hd

theorem silent_of_outer (r : RoomRef) (calls : List Call)
    (h : ∀ room, .deleteRoomCallBack room ∈ calls.filter Call.isOuter → room.findParticipants = []) :
    Silent (calls.map fun c => (r, c)) := by
  intro r' room hm
  obtain ⟨c, hc, he⟩ := List.mem_map.mp hm
  obtain ⟨-, rfl⟩ := Prod.mk.inj he
  exact h room (List.mem_filter.mpr ⟨hc, rfl⟩)

/-- The calls of `leave` report a room that has nobody in it, if any. -/
theorem leave_silent (r : RoomRef) (room : Room) (userId : String) :
    Silent ((room.leave userId).2.map fun c => (r, c)) := by
  refine silent_of_outer r _ fun room' houter => ?_
  rw [Room.leave_outer] at houter
  split at houter
  · obtain rfl : room' = room.emptied := by simpa using houter
    rfl
  · cases houter

theorem release_silent (r : RoomRef) (room : Room) (h : room.findParticipants = []) :
    Silent (room.release.2.map fun c => (r, c)) := by
  refine silent_of_outer r _ fun room' houter => ?_
  rw [Room.release_outer] at houter
  split at houter
  · obtain rfl : room' = room := by simpa using houter
    exact h
  · have hcases : room' = room ∨ room' = room.emptied := by simpa using houter
    rcases hcases with rfl | rfl
    · exact h
    · rfl

/-- A departure that does not close the room takes that user out and nobody else. -/
theorem leave_others_isSome (room : Room) (userId u : String) (h : room.isLast userId = false) :
    ((room.leave userId).1.findParticipant u).isSome = true ↔
      u ≠ userId ∧ (room.findParticipant u).isSome = true := by
  rw [Room.leave_others room userId h]
  simp only [Room.findParticipant, Room.removeInWebRtcPeers, Room.removeParticipant, lookup_mapValues,
    lookup_remove, Option.isSome_map]
  by_cases hu : u = userId
  · simp [hu]
  · simp [hu]

theorem leave_deletes (room : Room) (userId : String) :
    (room.leave userId).2.any Call.isDelete = room.isLast userId := by
  have hcount := call_deletes room (.leave userId)
  simp only [Room.call, Room.closings] at hcount
  cases h : room.isLast userId with
  | true =>
    rw [h] at hcount
    rw [List.any_eq_true, ← List.countP_pos_iff, hcount]
    decide
  | false =>
    rw [h] at hcount
    rw [List.any_eq_false]
    simpa [List.countP_eq_zero] using hcount

theorem leave_unpublished (room : Room) (userId : String) (h : room.findParticipants = []) :
    (room.leave userId).1.findParticipants = [] := by
  rw [silent_iff] at h ⊢
  intro u p hp
  obtain ⟨q, hq, rfl⟩ := leave_lookup hp
  exact h u q hq

theorem joinWithOnlyIncoming_unpublished (room : Room) (userId : String) (h : room.findParticipants = []) :
    (room.joinWithOnlyIncoming userId).findParticipants = [] := by
  rw [silent_iff] at h ⊢
  unfold Room.joinWithOnlyIncoming
  split
  · exact h
  · intro u p hp
    simp only [lookup_put] at hp
    split at hp
    · rw [← Option.some.inj hp]
    · exact h u p hp

/-! ## Rooms that close -/

/-- No room object has a publisher. -/
def Unpublished (heap : List Room) : Prop :=
  ∀ (r : RoomRef) (room : Room), heap[r]? = some room → room.findParticipants = []

/-- What the events below keep besides the property itself: nobody publishes, and
the sets are sets. -/
structure Background (s : Server) : Prop where
  rooms : Inv s.rooms
  silent : Unpublished s.rooms.heap
  distinct : ∀ u, (joined s u).Nodup

/-- The close callbacks run to their end and take the closed rooms out of the sets. -/
theorem withRooms_spec (s : Server) (m : RoomManager) (new : List (RoomRef × Call))
    (htrace : m.trace = s.rooms.trace ++ new) (hsilent : Silent new) (hd : ∀ u, (joined s u).Nodup) :
    (s.withRooms m).2 = none ∧ (s.withRooms m).1.rooms = m ∧
      (∀ u, (joined (s.withRooms m).1 u).Nodup) ∧
      ∀ u y, y ∈ joined (s.withRooms m).1 u ↔ y ∈ joined s u ∧ y ∉ closedIds new := by
  have hnew : m.trace.drop s.rooms.trace.length = new := by rw [htrace, List.drop_left]
  have hq : s.withRooms m = ((closedIds new).foldl Server.endRoomProcess { s with rooms := m }, none) := by
    rw [Server.withRooms, hnew, closeRooms_silent _ new hsilent]
  rw [hq]
  have hjoined := fun u => mem_joined_foldl (closedIds new) { s with rooms := m } u (hd u)
  exact ⟨rfl, foldl_endRoomProcess_rooms _ _, fun u => (hjoined u).1, fun u => (hjoined u).2⟩

/-- The manager has closed some rooms, none with a publisher, and done nothing else
to the participants. -/
structure Closes (m m' : RoomManager) : Prop where
  inv : Inv m'
  silent : Unpublished m'.heap
  calls : ∃ new, m'.trace = m.trace ++ new ∧ Silent new ∧
    ∀ u y, Participates m' u y ↔ Participates m u y ∧ y ∉ closedIds new

theorem withRooms_closes (s : Server) (m : RoomManager) (hb : Background s) (h : Closes s.rooms m)
    (hm : Matches s) : Background (s.withRooms m).1 ∧ Matches (s.withRooms m).1 := by
  obtain ⟨new, htrace, hsilent, hpart⟩ := h.calls
  obtain ⟨-, hrooms, hnodup, hmem⟩ := withRooms_spec s m new htrace hsilent hb.distinct
  refine ⟨⟨?_, ?_, hnodup⟩, fun u y => ?_⟩
  · rw [hrooms]; exact h.inv
  · rw [hrooms]; exact h.silent
  · rw [hmem, hrooms, hpart, hm u y]

/-- The participants and the calls made are the same. -/
theorem Closes.of_eq {m m' : RoomManager} (hi : Inv m') (hs : Unpublished m.heap)
    (hheap : m'.heap = m.heap) (hmap : m'.roomIdRooms = m.roomIdRooms) (htrace : m'.trace = m.trace) :
    Closes m m' := by
  refine ⟨hi, hheap ▸ hs, [], by rw [htrace, List.append_nil], ?_, fun u y => ?_⟩
  · intro r room h
    cases h
  · simp [closedIds, Participates, hheap, hmap]

theorem set_silent {heap : List Room} {r : RoomRef} {room' : Room}
    (h : Unpublished heap) (hroom : room'.findParticipants = []) : Unpublished (heap.set r room') := by
  intro r₁ room₁ h₁
  rcases set_cases h₁ with ⟨-, rfl⟩ | ⟨-, h₁⟩
  · exact hroom
  · exact h r₁ room₁ h₁

section
variable {m : RoomManager} {r : RoomRef} {room : Room}

theorem release_closes (hs : Unpublished m.heap) (hst : Stored m)
    (hmap : m.roomIdRooms.lookup room.roomId = some r) (hr : m.heap[r]? = some room)
    (hinv : Inv (m.onRoom r Room.release)) : Closes m (m.onRoom r Room.release) := by
  have hlocal := release_local room
  refine ⟨hinv, ?_, _, onRoom_trace hr, release_silent r room (hs r room hr), fun u y => ?_⟩
  · rw [onRoom_heap hr]
    refine set_silent hs ?_
    rw [Room.release_fst]
    rfl
  · rw [participates_onRoom hst hmap hr hlocal, mem_closedIds_map r room _ hlocal.about,
      release_deletes]
    by_cases hy : y = room.roomId
    · simp [hy]
    · simp [hy]

theorem down_closes (hi : Inv m) (hs : Unpublished m.heap) :
    Closes m (m.onRoom r Room.releaseWithKurentoDown) := by
  have hinv := releaseWithKurentoDown_inv m r hi
  cases hr : m.heap[r]? with
  | none =>
    have hsame : m.onRoom r Room.releaseWithKurentoDown = m := by simp [RoomManager.onRoom, hr]
    rw [hsame]
    exact .of_eq hi hs rfl rfl rfl
  | some room =>
    have hq : m.onRoom r Room.releaseWithKurentoDown = m.perform r (.deleteRoomCallBack room) := by
      rw [onRoom_eq hr]
      simp only [Room.releaseWithKurentoDown, set_same hr]
      rfl
    rw [hq] at hinv ⊢
    refine ⟨hinv, by rw [perform_heap]; exact hs, [(r, .deleteRoomCallBack room)], perform_trace m r _, ?_, ?_⟩
    · intro r' room' hm
      obtain ⟨-, he⟩ := Prod.mk.inj (List.mem_singleton.mp hm)
      obtain rfl := Call.deleteRoomCallBack.inj he
      exact hs r room' hr
    · intro u y
      simp only [Participates, perform_heap, perform_rooms m r room.roomId (.deleteRoomCallBack room) rfl]
      by_cases hy : y = room.roomId
      · simp [hy, Call.isDelete, closedIds]
      · simp [hy, closedIds]

end

theorem kurentoDown_matches (s : Server) (order : Traversal RoomRef) (kmsUrl : String) (hb : Background s)
    (hm : Matches s) : Background (s.kurentoDown order kmsUrl).1 ∧ Matches (s.kurentoDown order kmsUrl).1 :=
  forAll_invariant (I := fun s => Background s ∧ Matches s) _
    (fun t _ ht => withRooms_closes t _ ht.1 (down_closes ht.1.rooms ht.1.silent) ht.2) _ _ ⟨hb, hm⟩

theorem fireTtl_closes (m : RoomManager) (task : String × Nat) (now : Nat) (hi : Inv m)
    (hs : Unpublished m.heap) :
    Closes m (m.fireTtl task now) := by
  have hinv := fireTtl_inv m task now hi
  unfold RoomManager.fireTtl at hinv ⊢
  cases hv : (TtlCaches.fire hasCome m.roomTtl task now).2 with
  | none =>
    simp only [hv] at hinv ⊢
    exact .of_eq hinv hs rfl rfl rfl
  | some r =>
    simp only [hv] at hinv ⊢
    -- the entry that was taken out is the one of a room in the map
    have hmap : m.roomIdRooms.lookup task.1 = some r := by
      rcases TtlCaches.fire_cases hasCome m.roomTtl task now with ⟨he, -⟩ | ⟨he, -⟩
      · exact ((hi.key task.1 r).mp (he.symm.trans hv)).1
      · rw [hv] at he; cases he
    obtain ⟨room, hr, hid⟩ := hi.stored task.1 r hmap
    have hcloses := release_closes
      (m := { m with roomTtl := (TtlCaches.fire hasCome m.roomTtl task now).1 })
      hs hi.stored (hid ▸ hmap) hr hinv
    exact ⟨hcloses.inv, hcloses.silent, hcloses.calls⟩

theorem releaseRoom_closes (m : RoomManager) (roomId : String) (hi : Inv m) (hs : Unpublished m.heap) :
    Closes m (m.handleRoom roomId .release) := by
  have hinv := handleRoom_inv m roomId .release hi
  unfold RoomManager.handleRoom at hinv ⊢
  cases hmap : m.roomIdRooms.lookup roomId with
  | none => exact .of_eq hi hs rfl rfl rfl
  | some r =>
    simp only [hmap] at hinv ⊢
    obtain ⟨room, hr, hid⟩ := hi.stored roomId r hmap
    exact release_closes hs hi.stored (hid ▸ hmap) hr hinv

/-- A new room has nobody in it. -/
theorem participates_newRoom {m : RoomManager} {roomId : String} (hs : Stored m)
    (hnone : m.roomIdRooms.lookup roomId = none) (url : String) (pipeline now : Nat) (u y : String) :
    Participates { m with heap := m.heap ++ [newRoom roomId url pipeline]
                          roomIdRooms := m.roomIdRooms.insert roomId m.heap.length
                          roomTtl := TtlCaches.put m.roomTtl roomId m.heap.length
                            (m.roomDeleteTtl * 1000) now } u y ↔ Participates m u y := by
  by_cases hy : y = roomId
  · subst hy
    constructor
    · rintro ⟨r, room, hmap, hr, hp⟩
      obtain rfl : m.heap.length = r := by simpa using hmap
      obtain rfl : newRoom y url pipeline = room := by simpa using hr
      cases hp
    · rintro ⟨r, room, hmap, -⟩
      rw [hnone] at hmap
      cases hmap
  · constructor
    · rintro ⟨r, room, hmap, hr, hp⟩
      have hmap' : m.roomIdRooms.lookup y = some r := by simpa [hy] using hmap
      obtain ⟨room', hr', -⟩ := hs y r hmap'
      obtain rfl : room' = room := Option.some.inj ((heap_append _ hr').symm.trans hr)
      exact ⟨r, room', hmap', hr', hp⟩
    · rintro ⟨r, room, hmap, hr, hp⟩
      exact ⟨r, room, by simpa [hy] using hmap, heap_append _ hr, hp⟩

theorem createRoom_matches (s : Server) (roomId : String) (wrapper : Option PipelineWrapper) (now : Nat)
    (hb : Background s) (hm : Matches s) :
    Background (s.createRoom roomId wrapper now).1 ∧ Matches (s.createRoom roomId wrapper now).1 := by
  unfold Server.createRoom
  cases hc : s.rooms.createRoom roomId wrapper now with
  | none => exact ⟨hb, hm⟩
  | some m =>
    have hinv := createRoom_inv s.rooms m roomId wrapper now hc hb.rooms
    rcases createRoom_cases hc with rfl | ⟨url, pipeline, -, hnone, rfl⟩
    · exact ⟨hb, hm⟩
    · refine ⟨⟨hinv, ?_, hb.distinct⟩, fun u y => ?_⟩
      · intro r room hr
        rcases append_cases hr with hr | rfl
        · exact hb.silent r room hr
        · rfl
      · exact (hm u y).trans (participates_newRoom hb.rooms.stored hnone url pipeline now u y).symm

/-! ## Departures -/

/-- While `userId` is leaving the rooms of `rest`, the sets are right except that
these rooms are taken out already. -/
structure Away (s : Server) (userId : String) (rest : List String) : Prop where
  participates : ∀ u x, x ∈ joined s u → Participates s.rooms u x
  covered : ∀ u x, Participates s.rooms u x → x ∈ joined s u ∨ (u = userId ∧ x ∈ rest)
  gone : ∀ x ∈ rest, x ∉ joined s userId

theorem Away.matches {s : Server} {userId : String} (h : Away s userId []) : Matches s :=
  fun u x => ⟨h.participates u x, fun hp => (h.covered u x hp).resolve_right (by simp)⟩

/-- One departure: the user is out of the room, and everybody is if that closes it. -/
theorem leave_away (s : Server) (userId x : String) (rest : List String) (hb : Background s)
    (h : Away s userId (x :: rest)) :
    (s.withRooms (s.rooms.handleRoom x (.leave userId))).2 = none ∧
      Background (s.withRooms (s.rooms.handleRoom x (.leave userId))).1 ∧
      Away (s.withRooms (s.rooms.handleRoom x (.leave userId))).1 userId rest := by
  have hinv := handleRoom_inv s.rooms x (.leave userId) hb.rooms
  have hgone : ∀ y ∈ rest, y ∉ joined s userId := fun y hy => h.gone y (List.mem_cons_of_mem _ hy)
  cases hmap : s.rooms.roomIdRooms.lookup x with
  | none =>
    have hsame : s.rooms.handleRoom x (.leave userId) = s.rooms := by simp [RoomManager.handleRoom, hmap]
    have hq : s.withRooms s.rooms = (s, none) := by simp [Server.withRooms, Server.closeRooms, forAll]
    rw [hsame, hq]
    refine ⟨rfl, hb, h.participates, fun u y hp => ?_, hgone⟩
    rcases h.covered u y hp with hj | ⟨hu, hy⟩
    · exact .inl hj
    · rcases List.mem_cons.mp hy with rfl | hy
      · obtain ⟨r, room, hr, -⟩ := hp
        rw [hmap] at hr
        cases hr
      · exact .inr ⟨hu, hy⟩
  | some r =>
    obtain ⟨room, hr, rfl⟩ := hb.rooms.stored x r hmap
    have hm : s.rooms.handleRoom room.roomId (.leave userId) =
        s.rooms.onRoom r fun room => room.leave userId := by
      simp only [RoomManager.handleRoom, hmap]
      rfl
    rw [hm] at hinv ⊢
    have hlocal := leave_local room userId
    obtain ⟨hok, hrooms, hnodup, hmem⟩ := withRooms_spec s _ _
      (onRoom_trace (f := fun room => room.leave userId) hr) (leave_silent r room userId) hb.distinct
    have hclosed := mem_closedIds_map r room _ hlocal.about
    have hpart := participates_onRoom (f := fun room => room.leave userId) hb.rooms.stored hmap hr hlocal
    simp only [leave_deletes] at hclosed hpart
    -- who is in the room of `x` afterwards
    have hhere : ∀ u, (room.isLast userId = false ∧ ((room.leave userId).1.findParticipant u).isSome = true) ↔
        room.isLast userId = false ∧ u ≠ userId ∧ Participates s.rooms u room.roomId := by
      intro u
      rw [participates_iff hmap hr]
      exact and_congr_right fun hl => leave_others_isSome room userId u hl
    refine ⟨hok, ⟨?_, ?_, hnodup⟩, fun u y hj => ?_, fun u y hp => ?_, fun y hy hj => ?_⟩
    · rw [hrooms]; exact hinv
    · rw [hrooms, onRoom_heap hr]
      exact set_silent hb.silent (leave_unpublished room userId (hb.silent r room hr))
    · obtain ⟨hold, hopen⟩ := (hmem u y).mp hj
      rw [hclosed] at hopen
      rw [hrooms, hpart]
      have hp := h.participates u y hold
      split
      · next hy =>
        subst hy
        rw [hhere]
        refine ⟨?_, ?_, hp⟩
        · simpa using hopen
        · rintro rfl
          exact h.gone _ List.mem_cons_self hold
      · exact hp
    · rw [hrooms, hpart] at hp
      rw [hmem, hclosed]
      split at hp
      · next hy =>
        subst hy
        obtain ⟨hopen, hne, hp⟩ := (hhere u).mp hp
        rcases h.covered u _ hp with hj | ⟨hu, -⟩
        · exact .inl ⟨hj, by simp [hopen]⟩
        · exact absurd hu hne
      · next hy =>
        rcases h.covered u y hp with hj | ⟨hu, hm⟩
        · exact .inl ⟨hj, by simp [hy]⟩
        · exact .inr ⟨hu, (List.mem_cons.mp hm).resolve_left hy⟩
    · exact hgone y hy ((hmem userId y).mp hj).1

theorem leaveRoom_matches (s : Server) (userId roomId : String) (hb : Background s) (hm : Matches s) :
    Background (leaveRoom s userId roomId).1 ∧ Matches (leaveRoom s userId roomId).1 := by
  have hrooms : (removeRoom s userId roomId).rooms = s.rooms := rfl
  have hjoined := joined_removeRoom s userId roomId
  have hb' : Background (removeRoom s userId roomId) := by
    refine ⟨hrooms ▸ hb.rooms, hrooms ▸ hb.silent, fun u => ?_⟩
    rw [hjoined]
    split
    · exact (hb.distinct u).erase roomId
    · exact hb.distinct u
  have haway : Away (removeRoom s userId roomId) userId [roomId] := by
    refine ⟨fun u x hj => ?_, fun u x hp => ?_, fun x hx => ?_⟩
    · rw [hrooms, ← hm u x]
      rw [hjoined] at hj
      split at hj
      · exact List.mem_of_mem_erase hj
      · exact hj
    · rw [hrooms, ← hm u x] at hp
      rw [hjoined]
      by_cases hu : u = userId
      · by_cases hx : x = roomId
        · exact .inr ⟨hu, by simp [hx]⟩
        · exact .inl (by rw [if_pos hu]; exact (List.mem_erase_of_ne hx).mpr hp)
      · exact .inl (by rw [if_neg hu]; exact hp)
    · obtain rfl := List.mem_singleton.mp hx
      rw [hjoined, if_pos rfl]
      exact (hb.distinct userId).not_mem_erase
  obtain ⟨-, hback, haway'⟩ := leave_away _ userId roomId [] hb' haway
  exact ⟨hback, haway'.matches⟩

/-- The loop of `leaveAllRoom`. -/
theorem leaveAll_away (s : Server) (userId : String) (rest : List String) (hb : Background s)
    (h : Away s userId rest) :
    Background (forAll (fun s roomId => s.withRooms (s.rooms.handleRoom roomId (.leave userId))) s rest).1 ∧
      Away (forAll (fun s roomId => s.withRooms (s.rooms.handleRoom roomId (.leave userId))) s rest).1
        userId [] := by
  induction rest generalizing s with
  | nil => exact ⟨hb, h⟩
  | cons x rest ih =>
    obtain ⟨hok, hback, haway⟩ := leave_away s userId x rest hb h
    have hq : s.withRooms (s.rooms.handleRoom x (.leave userId)) =
        ((s.withRooms (s.rooms.handleRoom x (.leave userId))).1, none) := Prod.ext rfl hok
    rw [forAll, hq, andThen_ok]
    exact ih _ hback haway

theorem leaveAllRoom_matches (s : Server) (userId : String) (hb : Background s) (hm : Matches s) :
    Background (s.leaveAllRoom userId).1 ∧ Matches (s.leaveAllRoom userId).1 := by
  unfold Server.leaveAllRoom
  cases hl : s.userIdMonitorSession.lookup userId with
  | none => exact ⟨hb, hm⟩
  | some roomIds =>
    have hjoined : ∀ u, joined { s with userIdMonitorSession := s.userIdMonitorSession.erase userId } u =
        if u = userId then [] else joined s u := by
      intro u
      by_cases hu : u = userId
      · simp [joined, hu]
      · simp [joined, hu]
    have hold : joined s userId = roomIds := by simp [joined, hl]
    have hb' : Background { s with userIdMonitorSession := s.userIdMonitorSession.erase userId } := by
      refine ⟨hb.rooms, hb.silent, fun u => ?_⟩
      rw [hjoined]
      split
      · exact List.nodup_nil
      · exact hb.distinct u
    have haway : Away { s with userIdMonitorSession := s.userIdMonitorSession.erase userId } userId roomIds := by
      refine ⟨fun u x hj => ?_, fun u x hp => ?_, fun x _ hj => ?_⟩
      · rw [hjoined] at hj
        split at hj
        · cases hj
        · exact (hm u x).mp hj
      · have hj := (hm u x).mpr hp
        rw [hjoined]
        by_cases hu : u = userId
        · subst hu
          exact .inr ⟨rfl, hold ▸ hj⟩
        · exact .inl (by rw [if_neg hu]; exact hj)
      · rw [hjoined, if_pos rfl] at hj
        cases hj
    obtain ⟨hback, haway'⟩ := leaveAll_away _ userId roomIds hb' haway
    exact ⟨hback, haway'.matches⟩

/-! ## Joins -/

theorem joinWithOnlyIncoming_isSome (room : Room) (userId u : String) :
    ((room.joinWithOnlyIncoming userId).findParticipant u).isSome = true ↔
      u = userId ∨ (room.findParticipant u).isSome = true := by
  unfold Room.joinWithOnlyIncoming Room.findParticipant
  cases h : room.userIdParticipants.lookup userId with
  | none =>
    simp only [lookup_put]
    by_cases hu : u = userId
    · simp [hu]
    · simp [hu]
  | some p =>
    by_cases hu : u = userId
    · subst hu; simp [h]
    · simp [hu]

/-- A join keeps the sets right exactly when its room is there. -/
theorem joinRoom_matches (s : Server) (user userId roomId : String) (hb : Background s) (hm : Matches s) :
    Background (joinRoom s user userId roomId).1 ∧
      (Matches (joinRoom s user userId roomId).1 ↔ JoinsExisting s (.joinRoom user userId roomId)) := by
  have hmem := mem_joined_addRoom s userId roomId
  have hdistinct : ∀ u, (joined (addRoom s userId roomId) u).Nodup := by
    intro u
    rw [joined_addRoom]
    split
    · exact (hb.distinct u).insert
    · exact hb.distinct u
  unfold joinRoom JoinsExisting
  cases hmap : s.rooms.roomIdRooms.lookup roomId with
  | none =>
    have hmap' : (addRoom s userId roomId).rooms.roomIdRooms.lookup roomId = none := hmap
    simp only [hmap']
    refine ⟨⟨hb.rooms, hb.silent, hdistinct⟩, fun hbad => ?_, fun hj => by rw [hmap] at hj; cases hj⟩
    obtain ⟨r, room, hr, -⟩ := (hbad userId roomId).mp ((hmem userId roomId).mpr (.inr ⟨rfl, rfl⟩))
    rw [hmap'] at hr
    cases hr
  | some r =>
    have hmap' : (addRoom s userId roomId).rooms.roomIdRooms.lookup roomId = some r := hmap
    obtain ⟨room, hr, rfl⟩ := hb.rooms.stored roomId r hmap
    have hinv := handleRoom_inv s.rooms room.roomId (.joinWithOnlyIncoming userId) hb.rooms
    have hrooms : (addRoom s userId room.roomId).rooms.handleRoom room.roomId (.joinWithOnlyIncoming userId) =
        s.rooms.onRoom r fun room => room.call (.joinWithOnlyIncoming userId) := by
      simp only [RoomManager.handleRoom, hmap']
      rfl
    have hroom : (s.rooms.onRoom r fun room => room.call (.joinWithOnlyIncoming userId)).heap[r]? =
        some (room.joinWithOnlyIncoming userId) := onRoom_heap_self hr
    have hnobody := joinWithOnlyIncoming_unpublished room userId (hb.silent r room hr)
    simp only [hmap', hrooms, hroom, notifyPublishers, hnobody, forAll]
    refine ⟨⟨?_, ?_, hdistinct⟩, fun _ => by rw [hmap]; rfl, fun _ u y => ?_⟩
    · exact hrooms ▸ hinv
    · show Unpublished (s.rooms.onRoom r fun room => room.call (.joinWithOnlyIncoming userId)).heap
      rw [onRoom_heap hr]
      exact set_silent hb.silent hnobody
    · show y ∈ joined (addRoom s userId room.roomId) u ↔
        Participates (s.rooms.onRoom r fun room => room.call (.joinWithOnlyIncoming userId)) u y
      rw [hmem, hm u y, participates_onRoom hb.rooms.stored hmap hr (call_local room _)]
      split
      · next hy =>
        subst hy
        simp only [Room.call, List.any_nil, true_and, and_true]
        rw [joinWithOnlyIncoming_isSome, participates_iff hmap hr]
        exact or_comm
      · next hy => simp [hy]

/-! ## Whole runs -/

theorem step_matches (s : Server) (e : Event) (hb : Background s) (hm : Matches s) :
    Background (step s e) ∧ (Matches (step s e) ↔ JoinsExisting s e) := by
  -- every event but a join keeps the sets right
  have hkeep : Background (step s e) ∧ Matches (step s e) → JoinsExisting s e →
      Background (step s e) ∧ (Matches (step s e) ↔ JoinsExisting s e) :=
    fun h hj => ⟨h.1, fun _ => hj, fun _ => h.2⟩
  cases e with
  | createRoom roomId wrapper now => exact hkeep (createRoom_matches s roomId wrapper now hb hm) trivial
  | joinRoom user userId roomId => exact joinRoom_matches s user userId roomId hb hm
  | leaveRoom userId roomId => exact hkeep (leaveRoom_matches s userId roomId hb hm) trivial
  | leaveAllRoom userId => exact hkeep (leaveAllRoom_matches s userId hb hm) trivial
  | releaseRoom roomId =>
    exact hkeep (withRooms_closes s _ hb (releaseRoom_closes s.rooms roomId hb.rooms hb.silent) hm) trivial
  | fireTtl task now =>
    exact hkeep (withRooms_closes s _ hb (fireTtl_closes s.rooms task now hb.rooms hb.silent) hm) trivial
  | kurentoDown order kmsUrl => exact hkeep (kurentoDown_matches s order kmsUrl hb hm) trivial

theorem init_background (ttl : Nat) : Background (.init ttl) where
  rooms := init_inv ttl
  silent r room h := by simp [Server.init, RoomManager.init] at h
  distinct u := by simp [joined, Server.init]

theorem init_matches (ttl : Nat) : Matches (.init ttl) := by
  intro u x
  simp [joined, Participates, Server.init, RoomManager.init]

/-- The sets name exactly the rooms their users are in, after every event of a run,
exactly when every join of the run finds its room. -/
theorem matches_throughout_iff (ttl : Nat) (events : List Event) :
    Throughout step Matches (.init ttl) events ↔ Along step JoinsExisting (.init ttl) events :=
  throughout_iff_along (fun s e hb hm => (step_matches s e hb hm).1)
    (fun s e hb hm => (step_matches s e hb hm).2) _ events (init_background ttl) (init_matches ttl)

/-- A join of a room that is not there, and that room created afterwards. -/
theorem not_matches_missing_room :
    ¬ Matches (run step (.init 10) [.joinRoom "p" "watcher" "r1"]) ∧
      ¬ Matches (run step (.init 10)
        [.joinRoom "p" "watcher" "r1", .createRoom "r1" (some ⟨"kms", some 1⟩) 0]) := by
  constructor
  · intro h
    obtain ⟨r, room, hmap, -⟩ := (h "watcher" "r1").mp (by decide +kernel)
    cases hmap
  · intro h
    obtain ⟨r, room, hmap, hr, hp⟩ := (h "watcher" "r1").mp (by decide +kernel)
    cases hmap
    cases hr
    cases hp

end MediaMonitor

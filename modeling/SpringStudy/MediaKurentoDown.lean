import SpringStudy.MediaDepartures

/-!
# A media server goes down

`kurentoDown` closes the rooms of one media server while it goes through the
map they are taken out of, in the order in which the map happens to list them.
A room is closed through its own callback, which finds the entries of both
stores by the room's id, so what is taken out is what was met. The callback then
tells the publishers of the room; when it throws, which it does for a publisher
whose user id leads to no session, the rooms that come after are not met.
-/
namespace MediaKurentoDown

open Tables Outcomes MediaRoom Runs MediaDepartures
open TtlCaches (remove)
open MediaRoomManager hiding Event step
open MediaSocket (Server closeRoomCallback_notifies)
open MediaSession (Failure)
open MediaMessages (Media Event step)
open MediaEndpoints (run_owned)

/-- The room that the map has for `x` is on the media server. -/
def onServer (m : RoomManager) (kmsUrl x : String) : Bool :=
  ((m.roomIdRooms.lookup x).bind fun r => m.heap[r]?).any fun room => decide (room.kurentoUrl = kmsUrl)

theorem onServer_iff (m : RoomManager) (kmsUrl x : String) :
    onServer m kmsUrl x = true ↔ ∃ r room, m.roomIdRooms.lookup x = some r ∧ m.heap[r]? = some room ∧
      room.kurentoUrl = kmsUrl := by
  simp only [onServer, Option.any_eq_true, Option.bind_eq_some_iff, decide_eq_true_eq]
  constructor
  · rintro ⟨room, ⟨r, hx, hr⟩, hurl⟩
    exact ⟨r, room, hx, hr, hurl⟩
  · rintro ⟨r, room, hx, hr, hurl⟩
    exact ⟨room, ⟨r, hx, hr⟩, hurl⟩

/-- The rooms of the media server, and nothing else, are gone from both stores, and
each of them has called its callback once. -/
structure Down (m m' : RoomManager) (kmsUrl : String) : Prop where
  rooms : ∀ x, m'.roomIdRooms.lookup x = if onServer m kmsUrl x then none else m.roomIdRooms.lookup x
  ttl : ∀ x, ttlEntry m' x = if onServer m kmsUrl x then (none, none) else ttlEntry m x
  heap : m'.heap = m.heap
  callBacks : ∃ closed : List (RoomRef × Room), closed.Nodup ∧
    newCalls m m' = closed.map (fun p => (p.1, .deleteRoomCallBack p.2)) ∧
    ∀ r room, (r, room) ∈ closed ↔
      ∃ x, m.roomIdRooms.lookup x = some r ∧ m.heap[r]? = some room ∧ room.kurentoUrl = kmsUrl

/-! ## The loop -/

/-- Each reference with its room object. -/
def objects (m : RoomManager) (rooms : List RoomRef) : List (RoomRef × Room) :=
  rooms.filterMap fun r => (m.heap[r]?).map fun room => (r, room)

theorem mem_objects_iff (m : RoomManager) (rooms : List RoomRef) (r : RoomRef) (room : Room) :
    (r, room) ∈ objects m rooms ↔ r ∈ rooms ∧ m.heap[r]? = some room := by
  simp only [objects, List.mem_filterMap, Option.map_eq_some_iff, Prod.mk.injEq]
  constructor
  · rintro ⟨r', hr', room', hroom', rfl, rfl⟩
    exact ⟨hr', hroom'⟩
  · rintro ⟨hr, hroom⟩
    exact ⟨r, hr, room, hroom, rfl, rfl⟩

theorem releaseWithKurentoDown_eq {m : RoomManager} {r : RoomRef} {room : Room} (hr : m.heap[r]? = some room) :
    m.onRoom r Room.releaseWithKurentoDown =
      { m with
        roomIdRooms := m.roomIdRooms.erase room.roomId
        roomTtl := (remove m.roomTtl room.roomId).1
        trace := m.trace ++ [(r, .deleteRoomCallBack room)] } := by
  rw [onRoom_eq hr, Room.releaseWithKurentoDown, set_same hr]
  rfl

/-- What the loop does to the manager, whatever rooms it goes through. -/
theorem releaseAll_spec (rooms : List RoomRef) (m : RoomManager) :
    let m' := rooms.foldl (fun m r => m.onRoom r Room.releaseWithKurentoDown) m
    m'.heap = m.heap ∧
    m'.trace = m.trace ++ (objects m rooms).map (fun p => (p.1, .deleteRoomCallBack p.2)) ∧
    ∀ x, m'.roomIdRooms.lookup x =
        (if x ∈ (objects m rooms).map (fun p => p.2.roomId) then none else m.roomIdRooms.lookup x) ∧
      ttlEntry m' x = if x ∈ (objects m rooms).map (fun p => p.2.roomId) then (none, none) else ttlEntry m x := by
  induction rooms generalizing m with
  | nil => simp [objects]
  | cons r rest ih =>
    rw [List.foldl_cons]
    cases hr : m.heap[r]? with
    | none =>
      have hskip : m.onRoom r Room.releaseWithKurentoDown = m := by rw [RoomManager.onRoom, hr]
      have hobjects : objects m (r :: rest) = objects m rest := by simp [objects, hr]
      rw [hskip, hobjects]
      exact ih m
    | some room =>
      have hobjects : objects m (r :: rest) = (r, room) :: objects m rest := by simp [objects, hr]
      obtain ⟨hheap, htrace, hlookup⟩ := ih (m.onRoom r Room.releaseWithKurentoDown)
      rw [releaseWithKurentoDown_eq hr] at hheap htrace hlookup ⊢
      have hrest : objects { m with
          roomIdRooms := m.roomIdRooms.erase room.roomId
          roomTtl := (remove m.roomTtl room.roomId).1
          trace := m.trace ++ [(r, .deleteRoomCallBack room)] } rest = objects m rest := rfl
      rw [hrest] at htrace hlookup
      rw [hobjects]
      refine ⟨hheap, htrace.trans (by simp), fun x => ?_⟩
      obtain ⟨hmap, httl⟩ := hlookup x
      rw [hmap, httl]
      by_cases hx : x = room.roomId <;>
        by_cases hmem : x ∈ (objects m rest).map (fun p => p.2.roomId) <;>
        simp [hx, hmem, ttlEntry, remove]

/-! ## The rooms of a media server -/

section
variable {m : RoomManager} (hs : Stored m) (order : Traversal RoomRef) (kmsUrl : String)

theorem mem_roomsOn_iff (r : RoomRef) :
    r ∈ m.roomsOn order kmsUrl ↔ ∃ x room, m.roomIdRooms.lookup x = some r ∧ m.heap[r]? = some room ∧
      room.kurentoUrl = kmsUrl := by
  simp only [RoomManager.roomsOn, List.mem_filter, (order.perm _).mem_iff, mem_values_iff]
  constructor
  · rintro ⟨⟨x, hx⟩, hurl⟩
    cases hr : m.heap[r]? with
    | none =>
      rw [hr] at hurl
      cases hurl
    | some room =>
      rw [hr] at hurl
      exact ⟨x, room, hx, rfl, of_decide_eq_true hurl⟩
  · rintro ⟨x, room, hx, hr, hurl⟩
    refine ⟨⟨x, hx⟩, ?_⟩
    rw [hr]
    exact decide_eq_true hurl

include hs

theorem roomsOn_nodup : (m.roomsOn order kmsUrl).Nodup := by
  refine List.Nodup.filter _ ((order.perm _).nodup_iff.mpr (values_nodup _ fun x y r hx hy => ?_))
  obtain ⟨room, hr, hid⟩ := hs x r hx
  obtain ⟨room', hr', hid'⟩ := hs y r hy
  obtain rfl : room = room' := Option.some.inj (hr.symm.trans hr')
  exact hid.symm.trans hid'

/-- The ids under which the loop finds entries are those of the server's rooms. -/
theorem mem_ids_iff (x : String) :
    x ∈ (objects m (m.roomsOn order kmsUrl)).map (fun p => p.2.roomId) ↔ onServer m kmsUrl x = true := by
  rw [List.mem_map, onServer_iff]
  constructor
  · rintro ⟨⟨r, room⟩, hmem, rfl⟩
    obtain ⟨hr, hroom⟩ := (mem_objects_iff m _ r room).mp hmem
    obtain ⟨y, room', hy, hr', hurl⟩ := (mem_roomsOn_iff order kmsUrl r).mp hr
    obtain rfl : room = room' := Option.some.inj (hroom.symm.trans hr')
    obtain ⟨room', hr', hid⟩ := hs y r hy
    obtain rfl : room = room' := Option.some.inj (hroom.symm.trans hr')
    exact ⟨r, room, by rw [hid]; exact hy, hroom, hurl⟩
  · rintro ⟨r, room, hx, hroom, hurl⟩
    obtain ⟨room', hr', hid⟩ := hs x r hx
    obtain rfl : room = room' := Option.some.inj (hroom.symm.trans hr')
    refine ⟨(r, room), (mem_objects_iff m _ r room).mpr ⟨?_, hroom⟩, hid⟩
    exact (mem_roomsOn_iff order kmsUrl r).mpr ⟨x, room, hx, hroom, hurl⟩

/-- The loop that meets all of them. -/
theorem releaseAll_down :
    Down m ((m.roomsOn order kmsUrl).foldl (fun m r => m.onRoom r Room.releaseWithKurentoDown) m) kmsUrl := by
  obtain ⟨hheap, htrace, hlookup⟩ := releaseAll_spec (m.roomsOn order kmsUrl) m
  refine ⟨fun x => ?_, fun x => ?_, hheap, objects m (m.roomsOn order kmsUrl), ?_, ?_, fun r room => ?_⟩
  · simpa only [mem_ids_iff hs order] using (hlookup x).1
  · simpa only [mem_ids_iff hs order] using (hlookup x).2
  · refine List.Nodup.filterMap ?_ (roomsOn_nodup hs order kmsUrl)
    rintro r r' ⟨q, room⟩ hr hr'
    obtain ⟨_, -, hq⟩ := Option.map_eq_some_iff.mp hr
    obtain ⟨_, -, hq'⟩ := Option.map_eq_some_iff.mp hr'
    exact (Prod.mk.inj hq).1.trans (Prod.mk.inj hq').1.symm
  · rw [newCalls, htrace, List.drop_left]
  · rw [mem_objects_iff, mem_roomsOn_iff]
    constructor
    · rintro ⟨⟨x, room', hx, hr', hurl⟩, hroom⟩
      obtain rfl : room = room' := Option.some.inj (hroom.symm.trans hr')
      exact ⟨x, hx, hroom, hurl⟩
    · rintro ⟨x, hx, hroom, hurl⟩
      exact ⟨⟨x, room, hx, hroom, hurl⟩, hroom⟩

end

/-! ## The close callbacks -/

/-- No publisher of the room has a user id that leads to no session. -/
def Reports (s : Server) (r : RoomRef) : Prop :=
  ∀ room ∈ s.rooms.heap[r]?, ∀ p ∈ room.findParticipants,
    (s.sessions.findPrincipalByUserId (some p.userId)).isSome

instance decidableReports (s : Server) (r : RoomRef) : Decidable (Reports s r) :=
  inferInstanceAs (Decidable (∀ room ∈ s.rooms.heap[r]?, ∀ p ∈ room.findParticipants,
    (s.sessions.findPrincipalByUserId (some p.userId)).isSome))

theorem closeRoomCallback_spec (s : Server) (room : Room) :
    (s.closeRoomCallback room).1.rooms = s.rooms ∧ (s.closeRoomCallback room).1.sessions = s.sessions ∧
      ((s.closeRoomCallback room).2 = none ↔
        ∀ p ∈ room.findParticipants, (s.sessions.findPrincipalByUserId (some p.userId)).isSome) := by
  have htold := closeRoomCallback_notifies s room
  refine ⟨htold.rooms, htold.sessions, ?_⟩
  -- the monitor sets that come last have no part in it
  rw [Server.closeRoomCallback, andThen_ok_iff, and_iff_left rfl]
  refine (forAll_view (I := fun t : Server => t.sessions = s.sessions) _ (fun t => t.sessions) _ ?_ s
    room.findParticipants rfl).2
  intro t p ht
  rw [← ht]
  cases t.sessions.findPrincipalByUserId (some p.userId) with
  | none => exact ⟨rfl, rfl, by simp⟩
  | some found =>
    cases found with
    | none => exact ⟨rfl, rfl, by simp⟩
    | some principal => exact ⟨rfl, rfl, by simp⟩

/-- One room goes down: its entries are gone also when its callback throws. -/
theorem withRooms_down {s t : Server} (hsessions : t.sessions = s.sessions) (hheap : t.rooms.heap = s.rooms.heap)
    (r : RoomRef) :
    let q := t.withRooms (t.rooms.onRoom r Room.releaseWithKurentoDown)
    (q.1.sessions = s.sessions ∧ q.1.rooms.heap = s.rooms.heap) ∧
      q.1.rooms = t.rooms.onRoom r Room.releaseWithKurentoDown ∧ (q.2 = none ↔ Reports s r) := by
  unfold Reports
  rw [← hheap, ← hsessions]
  cases hr : t.rooms.heap[r]? with
  | none =>
    have hskip : t.rooms.onRoom r Room.releaseWithKurentoDown = t.rooms := by rw [RoomManager.onRoom, hr]
    simp [hskip, Server.withRooms, Server.closeRooms, forAll]
  | some room =>
    have hdown := releaseWithKurentoDown_eq hr
    obtain ⟨hrooms, hsess, hnone⟩ := closeRoomCallback_spec
      { t with rooms := t.rooms.onRoom r Room.releaseWithKurentoDown } room
    have hcalls : t.withRooms (t.rooms.onRoom r Room.releaseWithKurentoDown) =
        andThen (({ t with rooms := t.rooms.onRoom r Room.releaseWithKurentoDown } : Server).closeRoomCallback room)
          fun s => (s, none) := by
      rw [Server.withRooms, Server.closeRooms, hdown, List.drop_left]
      rfl
    have hend : ∀ q : Outcome Server Failure, andThen q (fun s => (s, none)) = q := by
      rintro ⟨t', failure⟩
      cases failure with
      | none => rfl
      | some failure => rfl
    intro q
    have hq : q = ({ t with rooms := t.rooms.onRoom r Room.releaseWithKurentoDown } : Server).closeRoomCallback room :=
      hcalls.trans (hend _)
    rw [hq]
    refine ⟨⟨hsess, ?_⟩, hrooms, hnone.trans ?_⟩
    · rw [hrooms, hdown]
    · simp

/-- On the rooms the loop of the server is that of the manager. -/
theorem kurentoDown_rooms (s : Server) (order : Traversal RoomRef) (kmsUrl : String) :
    (s.kurentoDown order kmsUrl).1.rooms =
        s.rooms.kurentoDown order kmsUrl (fun r => decide (Reports s r)) ∧
      ((s.kurentoDown order kmsUrl).2 = none ↔ ∀ r ∈ s.rooms.roomsOn order kmsUrl, Reports s r) := by
  have hloop := forAll_reached (I := fun t : Server => t.sessions = s.sessions ∧ t.rooms.heap = s.rooms.heap)
    (fun t r => t.withRooms (t.rooms.onRoom r Room.releaseWithKurentoDown)) Server.rooms
    (fun m r => m.onRoom r Room.releaseWithKurentoDown) (fun r => decide (Reports s r)) ?_ s
    (s.rooms.roomsOn order kmsUrl) ⟨rfl, rfl⟩
  · simpa only [Server.kurentoDown, RoomManager.kurentoDown, decide_eq_true_eq] using hloop
  · rintro t r ⟨hsessions, hheap⟩
    simpa using withRooms_down hsessions hheap r

/-- The rooms that were not met are still in the map. -/
theorem kurentoDown_down_iff {m : RoomManager} (hs : Stored m) (order : Traversal RoomRef) (kmsUrl : String)
    (returns : RoomRef → Bool) :
    Down m (m.kurentoDown order kmsUrl returns) kmsUrl ↔
      ∀ r ∈ (m.roomsOn order kmsUrl).dropLast, returns r = true := by
  rw [← reached_eq_iff, RoomManager.kurentoDown]
  constructor
  · intro hdown
    refine reached_eq_of_mem returns _ (roomsOn_nodup hs order kmsUrl) fun r hr => ?_
    obtain ⟨x, room, hx, hroom, hurl⟩ := (mem_roomsOn_iff order kmsUrl r).mp hr
    have hgone := hdown.rooms x
    rw [if_pos ((onServer_iff m kmsUrl x).mpr ⟨r, room, hx, hroom, hurl⟩)] at hgone
    have hlookup := ((releaseAll_spec (reached returns (m.roomsOn order kmsUrl)) m).2.2 x).1
    -- the entry of `x` is gone, so a room with this id was met, and it is `r`
    by_cases hmem : x ∈ (objects m (reached returns (m.roomsOn order kmsUrl))).map fun p => p.2.roomId
    · obtain ⟨⟨q, met⟩, hobject, rfl⟩ := List.mem_map.mp hmem
      obtain ⟨hreached, hmet⟩ := (mem_objects_iff m _ q met).mp hobject
      obtain ⟨y, -, hy, -, -⟩ := (mem_roomsOn_iff order kmsUrl q).mp (mem_of_reached returns _ q hreached)
      obtain ⟨stored, hstored, hid⟩ := hs y q hy
      obtain rfl : met = stored := Option.some.inj (hmet.symm.trans hstored)
      rw [hid, hy] at hx
      obtain rfl := Option.some.inj hx
      exact hreached
    · rw [if_neg hmem, hx] at hlookup
      exact absurd (hlookup.symm.trans hgone) (by simp)
  · intro hall
    rw [hall]
    exact releaseAll_down hs order kmsUrl

/-! ## Whole runs -/

/-- In every state of the server, and in whatever order the map is traversed: a media server that
goes down takes its rooms and nothing else with it exactly if no close callback throws, but for
that of the last room met. -/
theorem kurentoDown_takes_own_rooms_iff (ttl : Nat) (events : List Event) (order : Traversal RoomRef)
    (kmsUrl : String) :
    let s := (run step (Media.init ttl) events).server
    (Down s.rooms (s.kurentoDown order kmsUrl).1.rooms kmsUrl ↔
        ∀ r ∈ (s.rooms.roomsOn order kmsUrl).dropLast, Reports s r) ∧
      ((s.kurentoDown order kmsUrl).2 = none ↔ ∀ r ∈ s.rooms.roomsOn order kmsUrl, Reports s r) := by
  intro s
  obtain ⟨hrooms, hnone⟩ := kurentoDown_rooms s order kmsUrl
  refine ⟨?_, hnone⟩
  have hstored : Stored s.rooms := (run_owned ttl events).stored
  rw [hrooms, kurentoDown_down_iff hstored]
  simp only [decide_eq_true_eq]

/-- Bob publishes in the room and goes away. Someone connects as Carol and once more as Bob, and
goes away: Bob's user id leads to no session. -/
def bobDangling : List Event :=
  [.createRoom "b" (some ⟨"kms", some 1⟩) 0, .createRoom "a" (some ⟨"kms", some 2⟩) 0,
    .connect "p1" (some "bob") (some "a"), .connected "p1" (some "bob") (some "a"),
    .offer "p1" ⟨none, some .outgoing, none, "sdp"⟩ true, .disconnect "p1",
    .connect "p2" (some "carol") (some "b"), .connected "p2" (some "carol") (some "b"),
    .connect "p2" (some "bob") (some "b"), .disconnect "p2"]

/-- Bob's room is met first. Its callback throws, and the other room of the media server stays. -/
theorem not_down_bobDangling :
    let s := (run step (Media.init 60) bobDangling).server
    (s.kurentoDown .listed "kms").2 = some (.missingSession "bob") ∧
      (s.kurentoDown .listed "kms").1.rooms.roomIdRooms.lookup "b" = some 0 ∧
      ¬ Down s.rooms (s.kurentoDown .listed "kms").1.rooms "kms" := by
  intro s
  refine ⟨by decide +kernel, by decide +kernel, fun hdown => ?_⟩
  have hgone := hdown.rooms "b"
  revert hgone
  decide +kernel

end MediaKurentoDown

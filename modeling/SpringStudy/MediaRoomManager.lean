import SpringStudy.MediaRoom
import SpringStudy.TtlCaches

/-!
# The room manager

Rooms are objects: `heap` holds every `Room` ever built, and a `RoomRef` is its
place there, so that two rooms with one `roomId` stay apart. The map
`roomId_rooms` and the TTL cache hold references; the consumer of a TTL entry
is the reference of the room it releases. `trace` records every call a room
object has made, with the caller.
-/
namespace MediaRoomManager

open Tables Outcomes MediaRoom TtlCaches

abbrev RoomRef := Nat

structure PipelineWrapper where
  url : String
  mediaPipeline : Option Nat
  deriving DecidableEq

structure RoomManager where
  /-- `media.room-delete-ttl`, in seconds. -/
  roomDeleteTtl : Nat
  heap : List Room
  roomIdRooms : Table String RoomRef
  roomTtl : Cache String RoomRef
  trace : List (RoomRef × Call)

def RoomManager.init (roomDeleteTtl : Nat) : RoomManager := ⟨roomDeleteTtl, [], ∅, .empty, []⟩

namespace RoomManager

/-- A call of room `r` reaches the callbacks that `createRoom` gave it. Both find
their entries by the room's id. -/
def perform (m : RoomManager) (r : RoomRef) (c : Call) : RoomManager :=
  match c with
  | .joinRoomCallBack roomId =>
    { m with roomTtl := (remove m.roomTtl roomId).1, trace := m.trace ++ [(r, c)] }
  | .deleteRoomCallBack room =>
    { m with roomIdRooms := m.roomIdRooms.erase room.roomId
             roomTtl := (remove m.roomTtl room.roomId).1
             trace := m.trace ++ [(r, c)] }
  | .endpointRelease _ => { m with trace := m.trace ++ [(r, c)] }
  | .pipelineRelease _ => { m with trace := m.trace ++ [(r, c)] }

/-- The manager after all the calls that one method of room `r` makes. -/
def performAll (m : RoomManager) (r : RoomRef) (calls : List Call) : RoomManager :=
  calls.foldl (fun m c => m.perform r c) m

/-- The method `f` runs on the room object `r`. -/
def onRoom (m : RoomManager) (r : RoomRef) (f : Room → Room × List Call) : RoomManager :=
  match m.heap[r]? with
  | none => m
  | some room => ({ m with heap := m.heap.set r (f room).1 } : RoomManager).performAll r (f room).2

/-- `none` is the exception `NOT_FOUND_VALID_MEDIA_SERVER`, which leaves no entry behind. -/
def createRoom (m : RoomManager) (roomId : String) (wrapper : Option PipelineWrapper) (now : Nat) :
    Option RoomManager :=
  match m.roomIdRooms.lookup roomId with
  | some _ => some m
  | none =>
    match wrapper with
    | some ⟨url, some pipeline⟩ =>
      some { m with heap := m.heap ++ [newRoom roomId url pipeline]
                    roomIdRooms := m.roomIdRooms.insert roomId m.heap.length
                    roomTtl := put m.roomTtl roomId m.heap.length (m.roomDeleteTtl * 1000) now }
    | _ => none

def handleRoom (m : RoomManager) (roomId : String) (op : RoomOp) : RoomManager :=
  match m.roomIdRooms.lookup roomId with
  | none => m
  | some r => m.onRoom r (fun room => room.call op)

/-- The rooms that the stream over `roomId_rooms.values()` meets, in its order, whose media
server is `kmsUrl`. -/
def roomsOn (m : RoomManager) (order : Traversal RoomRef) (kmsUrl : String) : List RoomRef :=
  (order.arrange (values m.roomIdRooms)).filter fun r => match m.heap[r]? with
    | some room => decide (room.kurentoUrl = kmsUrl)
    | none => false

/-- `returns` tells which rooms have a close callback that returns: one that throws ends the loop. -/
def kurentoDown (m : RoomManager) (order : Traversal RoomRef) (kmsUrl : String)
    (returns : RoomRef → Bool) : RoomManager :=
  (reached returns (m.roomsOn order kmsUrl)).foldl (fun m r => m.onRoom r Room.releaseWithKurentoDown) m

/-- A room TTL task runs from its check to the end of the consumer it takes out, which releases
its own room. An entry is expired once its time has come. -/
def fireTtl (m : RoomManager) (task : String × Nat) (now : Nat) : RoomManager :=
  let q := fire hasCome m.roomTtl task now
  match q.2 with
  | none => { m with roomTtl := q.1 }
  | some r => ({ m with roomTtl := q.1 } : RoomManager).onRoom r Room.release

end RoomManager

inductive Event where
  | createRoom (roomId : String) (wrapper : Option PipelineWrapper) (now : Nat)
  | handleRoom (roomId : String) (op : RoomOp)
  | kurentoDown (order : Traversal RoomRef) (kmsUrl : String) (returns : RoomRef → Bool)
  | fireTtl (task : String × Nat) (now : Nat)

/-- A `createRoom` that throws leaves the manager as it was. -/
def step (m : RoomManager) : Event → RoomManager
  | .createRoom roomId wrapper now => (m.createRoom roomId wrapper now).getD m
  | .handleRoom roomId op => m.handleRoom roomId op
  | .kurentoDown order kmsUrl returns => m.kurentoDown order kmsUrl returns
  | .fireTtl task now => m.fireTtl task now

/-! ## What the calls of one room do to the map and the TTL cache -/

/-- The call names the room id `roomId`, if it names one. -/
def About (roomId : String) : Call → Prop
  | .joinRoomCallBack x => x = roomId
  | .deleteRoomCallBack room => room.roomId = roomId
  | _ => True

/-- The calls that cancel the room's TTL entry. -/
def isCallBack : Call → Bool
  | .joinRoomCallBack _ => true
  | .deleteRoomCallBack _ => true
  | _ => false

section
variable (m : RoomManager) (r : RoomRef) (roomId : String) (calls : List Call)

theorem perform_heap (c : Call) : (m.perform r c).heap = m.heap := by
  cases c <;> rfl

theorem perform_trace (c : Call) : (m.perform r c).trace = m.trace ++ [(r, c)] := by
  cases c <;> rfl

theorem perform_rooms (c : Call) (h : About roomId c) (x : String) :
    (m.perform r c).roomIdRooms.lookup x =
      if x = roomId ∧ c.isDelete then none else m.roomIdRooms.lookup x := by
  cases c <;> simp_all [RoomManager.perform, About, Call.isDelete]

theorem perform_ttl (c : Call) (h : About roomId c) (x : String) :
    (m.perform r c).roomTtl.cache.lookup x =
      if x = roomId ∧ isCallBack c then none else m.roomTtl.cache.lookup x := by
  cases c <;> simp_all [RoomManager.perform, About, isCallBack]

theorem performAll_heap : (m.performAll r calls).heap = m.heap := by
  induction calls generalizing m with
  | nil => rfl
  | cons c rest ih =>
    rw [RoomManager.performAll, List.foldl_cons, ← RoomManager.performAll, ih, perform_heap]

theorem performAll_trace :
    (m.performAll r calls).trace = m.trace ++ calls.map fun c => (r, c) := by
  induction calls generalizing m with
  | nil => simp [RoomManager.performAll]
  | cons c rest ih =>
    rw [RoomManager.performAll, List.foldl_cons, ← RoomManager.performAll, ih, perform_trace]
    simp

theorem performAll_rooms (h : ∀ c ∈ calls, About roomId c) (x : String) :
    (m.performAll r calls).roomIdRooms.lookup x =
      if x = roomId ∧ calls.any Call.isDelete then none else m.roomIdRooms.lookup x := by
  induction calls generalizing m with
  | nil => simp [RoomManager.performAll]
  | cons c rest ih =>
    rw [List.forall_mem_cons] at h
    rw [RoomManager.performAll, List.foldl_cons, ← RoomManager.performAll, ih _ h.2, perform_rooms m r roomId c h.1]
    by_cases hx : x = roomId <;> cases hc : c.isDelete <;> simp [hx, hc]

theorem performAll_ttl (h : ∀ c ∈ calls, About roomId c) (x : String) :
    (m.performAll r calls).roomTtl.cache.lookup x =
      if x = roomId ∧ calls.any isCallBack then none else m.roomTtl.cache.lookup x := by
  induction calls generalizing m with
  | nil => simp [RoomManager.performAll]
  | cons c rest ih =>
    rw [List.forall_mem_cons] at h
    rw [RoomManager.performAll, List.foldl_cons, ← RoomManager.performAll, ih _ h.2, perform_ttl m r roomId c h.1]
    by_cases hx : x = roomId <;> cases hc : isCallBack c <;> simp [hx, hc]

/-- Closing a room twice takes out no more than closing it once. -/
theorem performAll_eq (h : ∀ c ∈ calls, About roomId c) :
    m.performAll r calls =
      { m with
        roomIdRooms := if calls.any Call.isDelete then m.roomIdRooms.erase roomId else m.roomIdRooms
        roomTtl := if calls.any isCallBack then (remove m.roomTtl roomId).1 else m.roomTtl
        trace := m.trace ++ calls.map fun c => (r, c) } := by
  induction calls generalizing m with
  | nil => simp [RoomManager.performAll]
  | cons c rest ih =>
    rw [List.forall_mem_cons] at h
    have hone : m.perform r c =
        { m with
          roomIdRooms := if c.isDelete then m.roomIdRooms.erase roomId else m.roomIdRooms
          roomTtl := if isCallBack c then (remove m.roomTtl roomId).1 else m.roomTtl
          trace := m.trace ++ [(r, c)] } := by
      have hid := h.1
      cases c with
      | joinRoomCallBack x =>
        obtain rfl : x = roomId := hid
        rfl
      | deleteRoomCallBack room =>
        obtain rfl : room.roomId = roomId := hid
        rfl
      | endpointRelease e => rfl
      | pipelineRelease p => rfl
    have hrooms : (m.roomIdRooms.erase roomId).erase roomId = m.roomIdRooms.erase roomId :=
      erase_absent _ _ (by simp)
    have hcache : (m.roomTtl.cache.erase roomId).erase roomId = m.roomTtl.cache.erase roomId :=
      erase_absent _ _ (by simp)
    have htimes : (m.roomTtl.expirationTimes.erase roomId).erase roomId =
        m.roomTtl.expirationTimes.erase roomId := erase_absent _ _ (by simp)
    rw [RoomManager.performAll, List.foldl_cons, ← RoomManager.performAll, ih _ h.2, hone, List.any_cons,
      List.any_cons]
    cases c.isDelete <;> cases isCallBack c <;> cases rest.any Call.isDelete <;>
      cases rest.any isCallBack <;> simp [remove, hrooms, hcache, htimes]

end

/-- A method of a room keeps its id and names no other id in its calls. -/
structure Local (room : Room) (q : Room × List Call) : Prop where
  roomId : q.1.roomId = room.roomId
  about : ∀ c ∈ q.2, About room.roomId c

theorem about_of_outer (roomId : String) (calls : List Call)
    (h : ∀ c ∈ calls.filter Call.isOuter, About roomId c) : ∀ c ∈ calls, About roomId c := by
  intro c hc
  cases c with
  | endpointRelease e => trivial
  | pipelineRelease p => trivial
  | joinRoomCallBack x => exact h _ (List.mem_filter.mpr ⟨hc, rfl⟩)
  | deleteRoomCallBack room => exact h _ (List.mem_filter.mpr ⟨hc, rfl⟩)

theorem leave_local (room : Room) (userId : String) : Local room (room.leave userId) where
  roomId := (congrArg Room.roomId (Room.leave_emptied room userId) :)
  about := by
    apply about_of_outer
    rw [Room.leave_outer]
    split <;> simp [About, Room.emptied]

theorem release_local (room : Room) : Local room room.release where
  roomId := by rw [Room.release_fst]; rfl
  about := by
    apply about_of_outer
    rw [Room.release_outer]
    split <;> simp [About, Room.emptied]

theorem join_local (room : Room) (userId : String) (build : Option Endpoint) :
    Local room ((room.join userId build).getD (room, [])) := by
  unfold Room.join
  split
  · exact ⟨rfl, by simp [About]⟩
  · exact ⟨rfl, by simp⟩
  · exact ⟨rfl, by simp [About]⟩

theorem call_local (room : Room) (op : RoomOp) : Local room (room.call op) := by
  cases op with
  | join userId build => exact join_local room userId build
  | joinWithOnlyIncoming userId =>
    refine ⟨?_, by simp [Room.call]⟩
    simp only [Room.call, Room.joinWithOnlyIncoming]
    split <;> rfl
  | leave userId => exact leave_local room userId
  | release => exact release_local room

theorem set_self {heap : List Room} {r : RoomRef} {room room' : Room} (hr : heap[r]? = some room) :
    (heap.set r room')[r]? = some room' := by
  have hlt : r < heap.length := (List.getElem?_eq_some_iff.mp hr).1
  simp [hlt]

theorem set_same {heap : List Room} {r : RoomRef} {room : Room} (hr : heap[r]? = some room) :
    heap.set r room = heap := by
  obtain ⟨hlt, rfl⟩ := List.getElem?_eq_some_iff.mp hr
  exact List.set_getElem_self hlt

theorem set_cases {heap : List Room} {r r' : RoomRef} {new room : Room}
    (h : (heap.set r new)[r']? = some room) :
    (r' = r ∧ room = new) ∨ (r' ≠ r ∧ heap[r']? = some room) := by
  by_cases he : r' = r
  · subst he
    rw [List.getElem?_set_self'] at h
    obtain ⟨-, -, rfl⟩ := Option.map_eq_some_iff.mp h
    exact .inl ⟨rfl, rfl⟩
  · rw [List.getElem?_set_ne (Ne.symm he)] at h
    exact .inr ⟨he, h⟩

theorem append_cases {heap : List Room} {r : RoomRef} {new room : Room}
    (h : (heap ++ [new])[r]? = some room) : heap[r]? = some room ∨ room = new := by
  rw [List.getElem?_append] at h
  split at h
  · exact .inl h
  · exact .inr (List.mem_singleton.mp (List.mem_of_getElem? h))

theorem release_deletes (room : Room) : room.release.2.any Call.isDelete = true := by
  rw [List.any_eq_true]
  refine ⟨.deleteRoomCallBack room, ?_, rfl⟩
  rw [Room.release]
  simp

/-! ## The map and the TTL cache stay in step -/

/-- The room object `r` has called its join callback. -/
def CalledBack (m : RoomManager) (r : RoomRef) : Prop := ∃ x, (r, Call.joinRoomCallBack x) ∈ m.trace

/-- The TTL entry of `x` is there, and releases the room of `x`, exactly while that room has not
called its join callback. -/
def KeyInv (m : RoomManager) (x : String) : Prop :=
  ∀ r, m.roomTtl.cache.lookup x = some r ↔ m.roomIdRooms.lookup x = some r ∧ ¬ CalledBack m r

/-- A room is stored under its own id. -/
def Stored (m : RoomManager) : Prop :=
  ∀ x r, m.roomIdRooms.lookup x = some r → ∃ room, m.heap[r]? = some room ∧ room.roomId = x

structure Inv (m : RoomManager) : Prop where
  key : ∀ x, KeyInv m x
  stored : Stored m
  allocated : ∀ p ∈ m.trace, p.1 < m.heap.length

section
variable {m : RoomManager} {r : RoomRef} {room : Room} {f : Room → Room × List Call}

theorem onRoom_eq (hr : m.heap[r]? = some room) :
    m.onRoom r f = ({ m with heap := m.heap.set r (f room).1 } : RoomManager).performAll r (f room).2 := by
  simp [RoomManager.onRoom, hr]

theorem onRoom_calledBack (hr : m.heap[r]? = some room) (r' : RoomRef) :
    CalledBack (m.onRoom r f) r' ↔ CalledBack m r' ∨ (r' = r ∧ ∃ x, .joinRoomCallBack x ∈ (f room).2) := by
  simp only [CalledBack, onRoom_eq hr, performAll_trace, List.mem_append, List.mem_map, Prod.mk.injEq,
    exists_or]
  aesop

theorem onRoom_heap (hr : m.heap[r]? = some room) : (m.onRoom r f).heap = m.heap.set r (f room).1 := by
  rw [onRoom_eq hr, performAll_heap]

theorem onRoom_heap_self (hr : m.heap[r]? = some room) : (m.onRoom r f).heap[r]? = some (f room).1 := by
  rw [onRoom_heap hr, set_self hr]

theorem onRoom_heap_other {r' : RoomRef} (hr : m.heap[r]? = some room) (hne : r' ≠ r) :
    (m.onRoom r f).heap[r']? = m.heap[r']? := by
  rw [onRoom_heap hr, List.getElem?_set_ne (Ne.symm hne)]

theorem onRoom_stored (hr : m.heap[r]? = some room) (hf : Local room (f room)) (h : Stored m) :
    Stored (m.onRoom r f) := by
  intro x r' hx
  rw [onRoom_eq hr, performAll_rooms _ _ _ _ hf.about] at hx
  split at hx
  · cases hx
  · obtain ⟨room', hroom', hid⟩ := h x r' hx
    by_cases he : r' = r
    · subst he
      rw [hr, Option.some.injEq] at hroom'
      refine ⟨(f room).1, onRoom_heap_self hr, ?_⟩
      rw [hf.roomId, hroom', hid]
    · exact ⟨room', (onRoom_heap_other hr he).trans hroom', hid⟩

/-- Keys other than the room's own id keep their relation. -/
theorem onRoom_key_other (hr : m.heap[r]? = some room) (hf : Local room (f room)) (h : Stored m)
    (x : String) (hx : x ≠ room.roomId) (hk : KeyInv m x) : KeyInv (m.onRoom r f) x := by
  intro r'
  have hj := onRoom_calledBack (f := f) hr r'
  rw [onRoom_eq hr] at hj ⊢
  rw [hj, performAll_ttl _ _ _ _ hf.about, performAll_rooms _ _ _ _ hf.about]
  simp only [hx, false_and, ↓reduceIte]
  rw [hk r']
  constructor
  · rintro ⟨hmap, hnot⟩
    refine ⟨hmap, ?_⟩
    rintro (hjoined | ⟨rfl, -⟩)
    · exact hnot hjoined
    · obtain ⟨room', hroom', hid⟩ := h x r' hmap
      rw [hr, Option.some.injEq] at hroom'
      exact hx (by rw [hroom', hid])
  · rintro ⟨hmap, hnot⟩
    exact ⟨hmap, fun hjoined => hnot (.inl hjoined)⟩

/-- A closed room leaves neither a map entry nor a TTL entry under its id. -/
theorem onRoom_key_closed (hr : m.heap[r]? = some room) (hf : Local room (f room))
    (hd : (f room).2.any Call.isDelete = true) : KeyInv (m.onRoom r f) room.roomId := by
  have hc : (f room).2.any isCallBack = true := by
    rw [List.any_eq_true] at hd ⊢
    obtain ⟨c, hc, hdel⟩ := hd
    refine ⟨c, hc, ?_⟩
    cases c <;> simp_all [Call.isDelete, isCallBack]
  intro r'
  rw [onRoom_eq hr, performAll_ttl _ _ _ _ hf.about, performAll_rooms _ _ _ _ hf.about]
  simp [hd, hc]

/-- A call that does not close the room cancels its TTL entry exactly when it is a join. -/
theorem onRoom_key_open (hr : m.heap[r]? = some room) (hf : Local room (f room))
    (hd : (f room).2.any Call.isDelete = false) (hmap : m.roomIdRooms.lookup room.roomId = some r)
    (hk : KeyInv m room.roomId) : KeyInv (m.onRoom r f) room.roomId := by
  intro r'
  have hj := onRoom_calledBack (f := f) hr r'
  rw [onRoom_eq hr] at hj ⊢
  rw [hj, performAll_ttl _ _ _ _ hf.about, performAll_rooms _ _ _ _ hf.about]
  simp only [true_and, hd, Bool.false_eq_true, and_false, ↓reduceIte]
  by_cases hcall : (f room).2.any isCallBack = true
  · -- the only callback left is the join callback
    have hjoin : ∃ x, .joinRoomCallBack x ∈ (f room).2 := by
      rw [List.any_eq_true] at hcall
      obtain ⟨c, hc, hcb⟩ := hcall
      rw [List.any_eq_false] at hd
      have hnd := hd c hc
      cases c with
      | joinRoomCallBack x => exact ⟨x, hc⟩
      | deleteRoomCallBack q => exact absurd rfl hnd
      | endpointRelease e => cases hcb
      | pipelineRelease p => cases hcb
    simp only [hcall, ↓reduceIte, hmap, Option.some.injEq]
    constructor
    · intro h; cases h
    · rintro ⟨rfl, hnot⟩
      exact absurd (.inr ⟨rfl, hjoin⟩) hnot
  · have hnojoin : ¬ ∃ x, .joinRoomCallBack x ∈ (f room).2 := by
      rintro ⟨x, hx⟩
      exact hcall (List.any_eq_true.mpr ⟨_, hx, rfl⟩)
    simp only [hcall, Bool.false_eq_true, ↓reduceIte, hnojoin, and_false, or_false]
    exact hk r'

theorem onRoom_allocated (hr : m.heap[r]? = some room) (h : ∀ p ∈ m.trace, p.1 < m.heap.length) :
    ∀ p ∈ (m.onRoom r f).trace, p.1 < (m.onRoom r f).heap.length := by
  have hlt : r < m.heap.length := (List.getElem?_eq_some_iff.mp hr).1
  rw [onRoom_eq hr, performAll_trace, performAll_heap]
  intro p hp
  rw [List.mem_append, List.mem_map] at hp
  simp only [List.length_set]
  rcases hp with hp | ⟨c, -, rfl⟩
  · exact h p hp
  · exact hlt

end

/-- `createRoom` finds the room there, or builds one and enters it in both stores. -/
theorem createRoom_cases {m m' : RoomManager} {roomId : String} {wrapper : Option PipelineWrapper}
    {now : Nat} (hc : m.createRoom roomId wrapper now = some m') :
    m' = m ∨ ∃ url pipeline, wrapper = some ⟨url, some pipeline⟩ ∧ m.roomIdRooms.lookup roomId = none ∧
      m' = { m with heap := m.heap ++ [newRoom roomId url pipeline]
                    roomIdRooms := m.roomIdRooms.insert roomId m.heap.length
                    roomTtl := put m.roomTtl roomId m.heap.length (m.roomDeleteTtl * 1000) now } := by
  unfold RoomManager.createRoom at hc
  split at hc
  · simp only [Option.some.injEq] at hc
    exact .inl hc.symm
  · rename_i hnone
    split at hc
    · rename_i url pipeline
      simp only [Option.some.injEq] at hc
      exact .inr ⟨url, pipeline, rfl, hnone, hc.symm⟩
    · cases hc

theorem heap_append {heap : List Room} {r : RoomRef} {room : Room} (new : Room)
    (hr : heap[r]? = some room) : (heap ++ [new])[r]? = some room := by
  rw [List.getElem?_append_left (List.getElem?_eq_some_iff.mp hr).1, hr]

theorem createRoom_stored {m m' : RoomManager} {roomId : String} {wrapper : Option PipelineWrapper}
    {now : Nat} (hc : m.createRoom roomId wrapper now = some m') (h : Stored m) : Stored m' := by
  rcases createRoom_cases hc with rfl | ⟨url, pipeline, -, -, rfl⟩
  · exact h
  · intro x r hx
    simp only [lookup_put] at hx
    split at hx
    · rename_i heq
      simp only [Option.some.injEq] at hx
      subst hx heq
      exact ⟨newRoom x url pipeline, by simp, rfl⟩
    · obtain ⟨room, hroom, hid⟩ := h x r hx
      exact ⟨room, heap_append _ hroom, hid⟩

theorem createRoom_inv (m m' : RoomManager) (roomId : String) (wrapper : Option PipelineWrapper)
    (now : Nat) (hc : m.createRoom roomId wrapper now = some m') (h : Inv m) : Inv m' := by
  have hstored := createRoom_stored hc h.stored
  rcases createRoom_cases hc with rfl | ⟨url, pipeline, -, -, rfl⟩
  · exact h
  · refine ⟨?_, hstored, ?_⟩
    · intro x r
      by_cases hx : x = roomId
      · subst hx
        -- the new reference is beyond everything traced so far
        have hfresh : ¬ CalledBack m m.heap.length := by
          rintro ⟨y, hy⟩
          exact Nat.lt_irrefl _ (h.allocated _ hy)
        simp only [CalledBack] at hfresh
        simp only [lookup_cache_put, lookup_put, ↓reduceIte, Option.some.injEq, CalledBack]
        constructor
        · rintro rfl; exact ⟨rfl, hfresh⟩
        · exact fun hr => hr.1
      · have hk := h.key x r
        simpa [hx, CalledBack] using hk
    · intro p hp
      rw [List.length_append]
      exact Nat.lt_add_right _ (h.allocated p hp)

/-- A closing call on any room object restores the relation, whatever held of its own key. -/
theorem onRoom_closed_inv (m : RoomManager) (r : RoomRef) (room : Room) (f : Room → Room × List Call)
    (hr : m.heap[r]? = some room) (hf : Local room (f room))
    (hd : (f room).2.any Call.isDelete = true) (hs : Stored m)
    (ha : ∀ p ∈ m.trace, p.1 < m.heap.length) (hk : ∀ x, x ≠ room.roomId → KeyInv m x) :
    Inv (m.onRoom r f) where
  key := by
    intro x
    by_cases hx : x = room.roomId
    · subst hx
      exact onRoom_key_closed hr hf hd
    · exact onRoom_key_other hr hf hs x hx (hk x hx)
  stored := onRoom_stored hr hf hs
  allocated := onRoom_allocated hr ha

theorem handleRoom_inv (m : RoomManager) (roomId : String) (op : RoomOp) (h : Inv m) :
    Inv (m.handleRoom roomId op) := by
  unfold RoomManager.handleRoom
  split
  · exact h
  · rename_i r hmap
    obtain ⟨room, hr, hid⟩ := h.stored roomId r hmap
    subst hid
    have hf := call_local room op
    cases hd : (room.call op).2.any Call.isDelete with
    | true =>
      exact onRoom_closed_inv m r room (fun room => room.call op) hr hf hd h.stored h.allocated
        (fun x _ => h.key x)
    | false =>
      refine ⟨?_, onRoom_stored hr hf h.stored, onRoom_allocated hr h.allocated⟩
      intro x
      by_cases hx : x = room.roomId
      · subst hx
        exact onRoom_key_open (f := fun room => room.call op) hr hf hd hmap (h.key _)
      · exact onRoom_key_other (f := fun room => room.call op) hr hf h.stored x hx (h.key x)

theorem releaseWithKurentoDown_inv (m : RoomManager) (r : RoomRef) (h : Inv m) :
    Inv (m.onRoom r Room.releaseWithKurentoDown) := by
  cases hr : m.heap[r]? with
  | none => simpa [RoomManager.onRoom, hr] using h
  | some room =>
    have hf : Local room (Room.releaseWithKurentoDown room) :=
      ⟨rfl, by simp [Room.releaseWithKurentoDown, About]⟩
    exact onRoom_closed_inv m r room _ hr hf rfl h.stored h.allocated (fun x _ => h.key x)

theorem kurentoDown_inv (m : RoomManager) (order : Traversal RoomRef) (kmsUrl : String)
    (returns : RoomRef → Bool) (h : Inv m) : Inv (m.kurentoDown order kmsUrl returns) := by
  unfold RoomManager.kurentoDown
  generalize reached returns (m.roomsOn order kmsUrl) = rooms
  induction rooms generalizing m with
  | nil => exact h
  | cons r rest ih => exact ih _ (releaseWithKurentoDown_inv m r h)

/-- The entry that the task takes out is the one of the room it then releases. -/
theorem fireTtl_inv (m : RoomManager) (task : String × Nat) (now : Nat) (h : Inv m) :
    Inv (m.fireTtl task now) := by
  unfold RoomManager.fireTtl
  rcases fire_cases hasCome m.roomTtl task now with ⟨hv, hc⟩ | ⟨hv, hc⟩
  · simp only [hv]
    cases hl : m.roomTtl.cache.lookup task.1 with
    | none =>
      have hsame : ∀ x, (fire hasCome m.roomTtl task now).1.cache.lookup x =
          m.roomTtl.cache.lookup x := by
        intro x
        rw [hc]
        split
        · rename_i hx; rw [hx, hl]
        · rfl
      exact ⟨fun x r => by rw [hsame]; exact h.key x r, h.stored, h.allocated⟩
    | some r =>
      have hmap := ((h.key task.1 r).mp hl).1
      obtain ⟨room, hr, hid⟩ := h.stored task.1 r hmap
      refine onRoom_closed_inv _ r room Room.release hr (release_local room) (release_deletes room)
        h.stored h.allocated ?_
      intro x hx r'
      have hne : x ≠ task.1 := by rw [← hid]; exact hx
      rw [hc, if_neg hne]
      exact h.key x r'
  · simp only [hv]
    exact ⟨fun x r => by rw [hc]; exact h.key x r, h.stored, h.allocated⟩

theorem step_inv (m : RoomManager) (e : Event) (h : Inv m) : Inv (step m e) := by
  cases e with
  | createRoom roomId wrapper now =>
    cases hc : m.createRoom roomId wrapper now with
    | none => simpa [step, hc] using h
    | some m' => simpa [step, hc] using createRoom_inv m m' roomId wrapper now hc h
  | handleRoom roomId op => exact handleRoom_inv m roomId op h
  | kurentoDown order kmsUrl returns => exact kurentoDown_inv m order kmsUrl returns h
  | fireTtl task now => exact fireTtl_inv m task now h

theorem init_inv (ttl : Nat) : Inv (RoomManager.init ttl) where
  key := by intro x r; simp [RoomManager.init, Cache.empty]
  stored := by intro x r h; simp [RoomManager.init] at h
  allocated := by intro p hp; simp [RoomManager.init] at hp

/-! ## Joins -/

/-- The event is a `join` on the room object `r` that runs to its end. -/
def Joins (m : RoomManager) (r : RoomRef) : Event → Prop
  | .handleRoom roomId (.join userId build) => m.roomIdRooms.lookup roomId = some r ∧
      ∃ room, m.heap[r]? = some room ∧ (room.join userId build).isSome = true
  | _ => False

/-- Somebody has joined the room object `r` in the run: one of its events did. -/
def Joined (ttl : Nat) (events : List Event) (r : RoomRef) : Prop :=
  ∃ before e after, events = before ++ e :: after ∧ Joins (Runs.run step (.init ttl) before) r e

theorem outer_calls (calls : List Call) (h : ∀ x, .joinRoomCallBack x ∉ calls.filter Call.isOuter) :
    ¬ ∃ x, .joinRoomCallBack x ∈ calls := by
  rintro ⟨x, hx⟩
  exact h x (List.mem_filter.mpr ⟨hx, rfl⟩)

theorem leave_calls (room : Room) (userId : String) : ¬ ∃ x, .joinRoomCallBack x ∈ (room.leave userId).2 := by
  apply outer_calls
  intro x
  rw [Room.leave_outer]
  split <;> simp

theorem release_calls (room : Room) : ¬ ∃ x, .joinRoomCallBack x ∈ room.release.2 := by
  apply outer_calls
  intro x
  rw [Room.release_outer]
  split <;> simp

/-- Only a `join` that runs to its end calls the join callback. -/
theorem call_calls (room : Room) (op : RoomOp) : (∃ x, .joinRoomCallBack x ∈ (room.call op).2) ↔
    ∃ userId build, op = .join userId build ∧ (room.join userId build).isSome = true := by
  cases op with
  | join userId build =>
    cases hj : room.join userId build with
    | none => simp [Room.call, hj]
    | some q =>
      have hcalls := join_outer room q.1 userId build q.2 hj
      simp [Room.call, hj, hcalls]
  | joinWithOnlyIncoming userId => simp [Room.call]
  | leave userId => simpa [Room.call] using leave_calls room userId
  | release => simpa [Room.call] using release_calls room

theorem onRoom_silent {m : RoomManager} {r : RoomRef} {f : Room → Room × List Call}
    (hf : ∀ room, ¬ ∃ x, .joinRoomCallBack x ∈ (f room).2) (r' : RoomRef) :
    CalledBack (m.onRoom r f) r' ↔ CalledBack m r' := by
  cases hr : m.heap[r]? with
  | none => simp [RoomManager.onRoom, hr]
  | some room => simp only [onRoom_calledBack hr, hf room, and_false, or_false]

theorem releaseAll_calledBack (rooms : List RoomRef) (m : RoomManager) (r : RoomRef) :
    CalledBack (rooms.foldl (fun m r => m.onRoom r Room.releaseWithKurentoDown) m) r ↔ CalledBack m r := by
  induction rooms generalizing m with
  | nil => exact Iff.rfl
  | cons r' rest ih =>
    rw [List.foldl_cons, ih]
    exact onRoom_silent (by simp [Room.releaseWithKurentoDown]) r

theorem handleRoom_calledBack (m : RoomManager) (roomId : String) (op : RoomOp) (hs : Stored m) (r : RoomRef) :
    CalledBack (m.handleRoom roomId op) r ↔ CalledBack m r ∨ Joins m r (.handleRoom roomId op) := by
  have hjoins : Joins m r (.handleRoom roomId op) ↔ m.roomIdRooms.lookup roomId = some r ∧
      ∃ room, m.heap[r]? = some room ∧ ∃ userId build, op = .join userId build ∧
        (room.join userId build).isSome = true := by
    cases op <;> simp [Joins]
  unfold RoomManager.handleRoom
  cases hmap : m.roomIdRooms.lookup roomId with
  | none => simp [hjoins, hmap]
  | some r' =>
    obtain ⟨room, hr, -⟩ := hs roomId r' hmap
    simp only [onRoom_calledBack (f := fun room => room.call op) hr, call_calls, hjoins, hmap,
      Option.some.injEq]
    refine or_congr_right ⟨?_, ?_⟩
    · rintro ⟨rfl, hjoin⟩
      exact ⟨rfl, room, hr, hjoin⟩
    · rintro ⟨rfl, room', hr', hjoin⟩
      obtain rfl := Option.some.inj (hr.symm.trans hr')
      exact ⟨rfl, hjoin⟩

/-- A step calls the join callback of a room exactly if it is a join of that room. -/
theorem step_calledBack (m : RoomManager) (e : Event) (hs : Stored m) (r : RoomRef) :
    CalledBack (step m e) r ↔ CalledBack m r ∨ Joins m r e := by
  cases e with
  | createRoom roomId wrapper now =>
    simp only [step, Joins, or_false]
    cases hc : m.createRoom roomId wrapper now with
    | none => exact Iff.rfl
    | some m' => rcases createRoom_cases hc with rfl | ⟨url, pipeline, -, -, rfl⟩ <;> exact Iff.rfl
  | handleRoom roomId op => exact handleRoom_calledBack m roomId op hs r
  | kurentoDown order kmsUrl returns =>
    simp only [Joins, or_false]
    exact releaseAll_calledBack _ m r
  | fireTtl task now =>
    simp only [step, Joins, or_false, RoomManager.fireTtl]
    split
    · exact Iff.rfl
    · exact onRoom_silent release_calls r

/-- The callbacks that a run has called tell of its joins. -/
theorem calledBack_iff_joined (ttl : Nat) (events : List Event) (r : RoomRef) :
    CalledBack (Runs.run step (.init ttl) events) r ↔ Joined ttl events r := by
  have hnone := Runs.run_iff_along (I := fun m => ¬ CalledBack m r) (J := Inv)
    (P := fun m e => ¬ Joins m r e) step_inv ?_ ?_ (.init ttl) events (init_inv ttl) ?_
  · rw [Runs.along_iff_cut] at hnone
    rw [← not_iff_not, hnone]
    simp [Joined]
  · intro m e h hnot
    rw [step_calledBack m e h.stored]
    simp [hnot]
  · intro m e h hcalled
    rw [step_calledBack m e h.stored]
    exact fun hnot => hnot (.inl (not_not.mp hcalled))
  · rintro ⟨x, hx⟩
    cases hx

/-- After every run of the manager the TTL cache holds an entry for exactly the
rooms of the map that nobody has joined, each entry releases the room of its
own key, and every room is stored under its own id. -/
theorem roomTtl_iff_not_joined (ttl : Nat) (events : List Event) (x : String) (r : RoomRef) :
    ((Runs.run step (.init ttl) events).roomTtl.cache.lookup x = some r ↔
      (Runs.run step (.init ttl) events).roomIdRooms.lookup x = some r ∧ ¬ Joined ttl events r) ∧
    ((Runs.run step (.init ttl) events).roomIdRooms.lookup x = some r →
      ∃ room, (Runs.run step (.init ttl) events).heap[r]? = some room ∧ room.roomId = x) := by
  have h := Runs.run_invariant step_inv (.init ttl) events (init_inv ttl)
  refine ⟨?_, h.stored x r⟩
  rw [← calledBack_iff_joined]
  exact h.key x r

/-- A room is created and then joined by Alice: its entry is there up to the join, and not after it. -/
theorem roomTtl_iff_not_joined_alice :
    (Runs.run step (.init 60) [.createRoom "r" (some ⟨"kms", some 0⟩) 0]).roomTtl.cache.lookup "r" = some 0 ∧
    Joined 60 [.createRoom "r" (some ⟨"kms", some 0⟩) 0, .handleRoom "r" (.join "alice" (some 1))] 0 ∧
    (Runs.run step (.init 60) [.createRoom "r" (some ⟨"kms", some 0⟩) 0,
      .handleRoom "r" (.join "alice" (some 1))]).roomTtl.cache.lookup "r" ≠ some 0 := by
  have hjoined : Joined 60 [.createRoom "r" (some ⟨"kms", some 0⟩) 0,
      .handleRoom "r" (.join "alice" (some 1))] 0 :=
    ⟨[.createRoom "r" (some ⟨"kms", some 0⟩) 0], .handleRoom "r" (.join "alice" (some 1)), [], rfl, rfl,
      newRoom "r" "kms" 0, rfl, rfl⟩
  refine ⟨(roomTtl_iff_not_joined 60 _ "r" 0).1.mpr ⟨rfl, ?_⟩, hjoined, fun hentry =>
    ((roomTtl_iff_not_joined 60 _ "r" 0).1.mp hentry).2 hjoined⟩
  rw [← calledBack_iff_joined]
  rintro ⟨x, hx⟩
  cases hx

end MediaRoomManager

import SpringStudy.MediaRoomManager
import SpringStudy.MediaSession
import SpringStudy.Threads

/-!
# The threads of the media server

Here a call is no longer one step. `MonitorManger`'s methods and `Room`'s
methods are synchronized, `handleRoom` runs its handler in a block synchronized
on the room it has found, and the callbacks of a closing room lead back into
`MonitorManger.endRoomProcess`. A frame is one step of a thread; the map lookup
of `handleRoom`, the block that follows it, `createRoom`, every departure inside
`Room.release` and the delete-room callback are frames of their own.
-/
namespace MediaThreads

open Tables Threads MediaRoom TtlCaches
open MediaRoomManager hiding Event step
open MediaSession (MonitorSessions)

/-- The monitors that threads wait for. -/
inductive Lock where
  | monitorManger
  | room (r : RoomRef)
  deriving DecidableEq

/-- The bodies of the synchronized methods and blocks. -/
inductive Body where
  | joinRoom (userId roomId : String)
  | leaveRoom (userId roomId : String)
  | leaveAllRoom (userId : String)
  | endRoomProcess (roomId : String)
  /-- The `synchronized (room)` block of `handleRoom`. -/
  | block (r : RoomRef) (op : RoomOp)
  /-- A synchronized method of the room object. -/
  | method (r : RoomRef) (op : RoomOp)
  deriving DecidableEq

def Body.lock : Body → Lock
  | .block r _ => .room r
  | .method r _ => .room r
  | _ => .monitorManger

inductive Frame where
  /-- Wait for the monitor of the body and enter it. -/
  | enter (b : Body)
  | run (b : Body)
  | exit (l : Lock)
  /-- The map lookup of `handleRoom`. -/
  | handleRoom (roomId : String) (op : RoomOp)
  | deleteRoomCallBack (r : RoomRef)
  /-- The loop of `Room.release` over the participants. -/
  | departAll (r : RoomRef)
  | pipelineRelease (r : RoomRef)
  | createRoom (roomId : String) (wrapper : Option PipelineWrapper) (now : Nat)
  | fireTtl (task : String × Nat) (now : Nat)
  deriving DecidableEq

structure Stores where
  rooms : RoomManager
  monitors : MonitorSessions

structure System where
  stores : Stores
  threads : Stacks Frame

def System.init (roomDeleteTtl : Nat) : System := ⟨⟨.init roomDeleteTtl, ∅⟩, ∅⟩

/-- The body of a room's method. `leave` calls `release` when it has emptied the room. -/
def method (st : Stores) (r : RoomRef) (room : Room) : RoomOp → Stores × List Frame
  | .leave userId =>
    if room.isLast userId then
      ({ st with rooms := st.rooms.onRoom r fun room => room.removeParticipant userId },
        [.enter (.method r .release)])
    else ({ st with rooms := st.rooms.onRoom r fun room => room.leave userId }, [])
  | .release => (st, [.deleteRoomCallBack r, .departAll r, .pipelineRelease r])
  | op => ({ st with rooms := st.rooms.onRoom r fun room => room.call op }, [])

/-- What a frame does to the stores, and the frames that take its place. -/
def effect (st : Stores) : Frame → Stores × List Frame
  | .enter b => (st, [.run b, .exit b.lock])
  | .exit _ => (st, [])
  | .run (.joinRoom userId roomId) =>
    ({ st with monitors := st.monitors.addRoom userId roomId },
      [.handleRoom roomId (.joinWithOnlyIncoming userId)])
  | .run (.leaveRoom userId roomId) =>
    ({ st with monitors := st.monitors.removeRoom userId roomId },
      [.handleRoom roomId (.leave userId)])
  | .run (.leaveAllRoom userId) =>
    ({ st with monitors := st.monitors.erase userId },
      ((st.monitors.lookup userId).getD []).map fun roomId => .handleRoom roomId (.leave userId))
  | .run (.endRoomProcess roomId) =>
    ({ st with monitors := st.monitors.endRoomProcess roomId }, [])
  | .run (.block r op) => (st, [.enter (.method r op)])
  | .run (.method r op) =>
    match st.rooms.heap[r]? with
    | none => (st, [])
    | some room => method st r room op
  | .handleRoom roomId op =>
    match st.rooms.roomIdRooms.lookup roomId with
    | none => (st, [])
    | some r => (st, [.enter (.block r op)])
  | .deleteRoomCallBack r =>
    match st.rooms.heap[r]? with
    | none => (st, [])
    | some room =>
      ({ st with rooms := st.rooms.onRoom r fun room => (room, [.deleteRoomCallBack room]) },
        [.enter (.endRoomProcess room.roomId)])
  | .departAll r =>
    match st.rooms.heap[r]? with
    | none => (st, [])
    | some room => (st, room.userIdParticipants.keys.map fun userId => .enter (.method r (.leave userId)))
  | .pipelineRelease r =>
    ({ st with rooms := st.rooms.onRoom r fun room => (room, [.pipelineRelease room.mediaPipeline]) }, [])
  | .createRoom roomId wrapper now =>
    ({ st with rooms := (st.rooms.createRoom roomId wrapper now).getD st.rooms }, [])
  | .fireTtl task now =>
    let q := fire hasCome st.rooms.roomTtl task now
    ({ st with rooms := { st.rooms with roomTtl := q.1 } },
      match q.2 with
      | none => []
      | some r => [.enter (.method r .release)])

/-- A thread waits in front of a monitor that another thread holds. -/
def blocked (s : System) (t : Tid) : Frame → Bool
  | .enter b => hasOther s.threads t fun stack => decide (.exit b.lock ∈ stack)
  | _ => false

/-- The next frame of thread `t`, if it has one and can go on. -/
def advance (s : System) (t : Tid) : System :=
  match stackOf s.threads t with
  | [] => s
  | f :: rest =>
    if blocked s t f then s
    else ⟨(effect s.stores f).1, setStack s.threads t ((effect s.stores f).2 ++ rest)⟩

/-- The calls that come to the server from outside. -/
inductive Entry where
  | joinRoom (userId roomId : String)
  | leaveRoom (userId roomId : String)
  | leaveAllRoom (userId : String)
  | handleRoom (roomId : String) (op : RoomOp)
  | createRoom (roomId : String) (wrapper : Option PipelineWrapper) (now : Nat)
  | fireTtl (task : String × Nat) (now : Nat)

def Entry.frame : Entry → Frame
  | .joinRoom userId roomId => .enter (.joinRoom userId roomId)
  | .leaveRoom userId roomId => .enter (.leaveRoom userId roomId)
  | .leaveAllRoom userId => .enter (.leaveAllRoom userId)
  | .handleRoom roomId op => .handleRoom roomId op
  | .createRoom roomId wrapper now => .createRoom roomId wrapper now
  | .fireTtl task now => .fireTtl task now

inductive Event where
  /-- An idle thread begins a call. -/
  | start (t : Tid) (entry : Entry)
  | advance (t : Tid)

def step (s : System) : Event → System
  | .start t entry =>
    if stackOf s.threads t = [] then { s with threads := setStack s.threads t [entry.frame] } else s
  | .advance t => advance s t

/-! ## The shape of a stack -/

/-- The room object that a frame works on. -/
def Frame.room? : Frame → Option RoomRef
  | .enter (.block r _) => some r
  | .enter (.method r _) => some r
  | .run (.block r _) => some r
  | .run (.method r _) => some r
  | .exit (.room r) => some r
  | .deleteRoomCallBack r => some r
  | .departAll r => some r
  | .pipelineRelease r => some r
  | _ => none

/-- Frames that are only ever the next one. -/
def Frame.isTop : Frame → Bool
  | .enter (.block _ _) => true
  | .enter (.endRoomProcess _) => true
  | .run _ => true
  | .deleteRoomCallBack _ => true
  | _ => false

def NoRoom (rest : List Frame) : Prop := ∀ g ∈ rest, g.room? = none

def SameRoom (r : RoomRef) (rest : List Frame) : Prop := ∀ g ∈ rest, ∀ r', g.room? = some r' → r' = r

/-- The thread holds the monitor of `r` and of no other room. -/
def Inside (r : RoomRef) (rest : List Frame) : Prop := Frame.exit (.room r) ∈ rest ∧ SameRoom r rest

/-- What a frame stands over: a thread works on one room at a time, inside its
monitor, and calls into `MonitorManger` from there only to end the room. -/
def Under (rest : List Frame) : Frame → Prop
  | .run (.block r _) => Inside r rest
  | .run (.method r _) => Inside r rest
  | .deleteRoomCallBack r => Inside r rest
  | .departAll r => Inside r rest
  | .pipelineRelease r => Inside r rest
  -- the TTL task calls `release` from nowhere else
  | .enter (.method r _) => Inside r rest ∨ rest = []
  | .exit (.room r) => SameRoom r rest
  | .exit .monitorManger => True
  | .enter (.endRoomProcess _) => True
  | .run (.endRoomProcess _) => True
  | .fireTtl _ _ => rest = []
  | _ => NoRoom rest

def Fits (f : Frame) (rest : List Frame) : Prop := (∀ g ∈ rest, g.isTop = false) ∧ Under rest f

theorem NoRoom.sameRoom {rest : List Frame} (h : NoRoom rest) (r : RoomRef) : SameRoom r rest := by
  intro g hg r' hr'
  rw [h g hg] at hr'
  cases hr'

theorem NoRoom.append {above rest : List Frame} (ha : NoRoom above) (h : NoRoom rest) :
    NoRoom (above ++ rest) := by
  intro g hg
  rcases List.mem_append.mp hg with hg | hg
  · exact ha g hg
  · exact h g hg

theorem Inside.append {r : RoomRef} {rest : List Frame} (above : List Frame) (ha : SameRoom r above)
    (h : Inside r rest) : Inside r (above ++ rest) := by
  refine ⟨List.mem_append_right _ h.1, ?_⟩
  intro g hg
  rcases List.mem_append.mp hg with hg | hg
  · exact ha g hg
  · exact h.2 g hg

theorem tops_append {rest : List Frame} (above : List Frame) (ha : ∀ g ∈ above, g.isTop = false)
    (h : ∀ g ∈ rest, g.isTop = false) : ∀ g ∈ above ++ rest, g.isTop = false := by
  intro g hg
  rcases List.mem_append.mp hg with hg | hg
  · exact ha g hg
  · exact h g hg

/-- A list of frames of one kind is pushed: each of them fits if one does. -/
theorem layered_map {α : Type} (frame : α → Frame) (as : List α) (rest : List Frame)
    (h : Layered Fits rest) (hfits : ∀ a below, Fits (frame a) (List.map frame below ++ rest)) :
    Layered Fits (as.map frame ++ rest) := by
  apply layered_append _ _ h
  intro above f below he
  obtain ⟨as₁, as₂, -, -, hbelow⟩ := List.map_eq_append_iff.mp he
  obtain ⟨a, as₃, -, rfl, rfl⟩ := List.map_eq_cons_iff.mp hbelow
  exact hfits a as₃

theorem enter_layered (b : Body) (rest : List Frame) (h : Layered Fits (.enter b :: rest)) :
    Layered Fits (.run b :: .exit b.lock :: rest) := by
  obtain ⟨⟨htop, hunder⟩, hrest⟩ := h
  have htops : ∀ g ∈ Frame.exit b.lock :: rest, g.isTop = false := by
    intro g hg
    rcases List.mem_cons.mp hg with rfl | hg
    · rfl
    · exact htop g hg
  have hroom : ∀ r, SameRoom r rest → SameRoom r (.exit (.room r) :: rest) := by
    intro r hsame g hg r' hr'
    rcases List.mem_cons.mp hg with rfl | hg
    · exact (Option.some.inj hr').symm
    · exact hsame g hg r' hr'
  have hnone : NoRoom rest → NoRoom (.exit .monitorManger :: rest) := by
    intro hno g hg
    rcases List.mem_cons.mp hg with rfl | hg
    · rfl
    · exact hno g hg
  cases b with
  | joinRoom userId roomId => exact ⟨⟨htops, hnone hunder⟩, ⟨htop, trivial⟩, hrest⟩
  | leaveRoom userId roomId => exact ⟨⟨htops, hnone hunder⟩, ⟨htop, trivial⟩, hrest⟩
  | leaveAllRoom userId => exact ⟨⟨htops, hnone hunder⟩, ⟨htop, trivial⟩, hrest⟩
  | endRoomProcess roomId => exact ⟨⟨htops, trivial⟩, ⟨htop, trivial⟩, hrest⟩
  | block r op =>
    have hsame : SameRoom r rest := NoRoom.sameRoom hunder r
    exact ⟨⟨htops, List.mem_cons_self, hroom r hsame⟩, ⟨htop, hsame⟩, hrest⟩
  | method r op =>
    have hsame : SameRoom r rest := by
      rcases hunder with hin | rfl
      · exact hin.2
      · intro g hg
        cases hg
    exact ⟨⟨htops, List.mem_cons_self, hroom r hsame⟩, ⟨htop, hsame⟩, hrest⟩

theorem method_layered (st : Stores) (r : RoomRef) (room : Room) (op : RoomOp) (rest : List Frame)
    (htop : ∀ g ∈ rest, g.isTop = false) (hin : Inside r rest) (hrest : Layered Fits rest) :
    Layered Fits ((method st r room op).2 ++ rest) := by
  cases op with
  | join userId build => exact hrest
  | joinWithOnlyIncoming userId => exact hrest
  | leave userId =>
    simp only [method]
    split
    · exact ⟨⟨htop, .inl hin⟩, hrest⟩
    · exact hrest
  | release =>
    have hone : Inside r (.pipelineRelease r :: rest) :=
      Inside.append [.pipelineRelease r] (by simp [SameRoom, Frame.room?]) hin
    have htwo : Inside r (.departAll r :: .pipelineRelease r :: rest) :=
      Inside.append [.departAll r] (by simp [SameRoom, Frame.room?]) hone
    refine ⟨⟨?_, htwo⟩, ⟨?_, hone⟩, ⟨htop, hin⟩, hrest⟩
    · exact tops_append [.departAll r, .pipelineRelease r] (by simp [Frame.isTop]) htop
    · exact tops_append [.pipelineRelease r] (by simp [Frame.isTop]) htop

/-- The frames that take the place of the next one fit on the rest. -/
theorem effect_layered (st : Stores) (f : Frame) (rest : List Frame) (h : Layered Fits (f :: rest)) :
    Layered Fits ((effect st f).2 ++ rest) := by
  obtain ⟨⟨htop, hunder⟩, hrest⟩ := h
  cases f with
  | enter b => exact enter_layered b rest ⟨⟨htop, hunder⟩, hrest⟩
  | exit l => exact hrest
  | run b =>
    cases b with
    | joinRoom userId roomId => exact ⟨⟨htop, hunder⟩, hrest⟩
    | leaveRoom userId roomId => exact ⟨⟨htop, hunder⟩, hrest⟩
    | leaveAllRoom userId =>
      apply layered_map _ _ rest hrest
      intro roomId below
      refine ⟨tops_append _ ?_ htop, NoRoom.append ?_ hunder⟩ <;>
        simp [NoRoom, Frame.isTop, Frame.room?]
    | endRoomProcess roomId => exact hrest
    | block r op => exact ⟨⟨htop, .inl hunder⟩, hrest⟩
    | method r op =>
      simp only [effect]
      split
      · exact hrest
      · exact method_layered st r _ op rest htop hunder hrest
  | handleRoom roomId op =>
    simp only [effect]
    split
    · exact hrest
    · exact ⟨⟨htop, hunder⟩, hrest⟩
  | deleteRoomCallBack r =>
    simp only [effect]
    split
    · exact hrest
    · exact ⟨⟨htop, trivial⟩, hrest⟩
  | departAll r =>
    simp only [effect]
    split
    · exact hrest
    · apply layered_map _ _ rest hrest
      intro userId below
      refine ⟨tops_append _ ?_ htop, .inl (Inside.append _ ?_ hunder)⟩
      · simp [Frame.isTop]
      · intro g hg r' hr'
        obtain ⟨userId', -, rfl⟩ := List.mem_map.mp hg
        exact (Option.some.inj hr').symm
  | pipelineRelease r => exact hrest
  | createRoom roomId wrapper now => exact hrest
  | fireTtl task now =>
    have hnil : rest = [] := hunder
    subst hnil
    simp only [effect]
    split
    · exact hrest
    · exact ⟨⟨htop, .inr rfl⟩, hrest⟩

/-- Where a pushed frame comes from. -/
def Pushed (st : Stores) (f : Frame) : Frame → Prop
  | .run b => f = .enter b
  | .exit l => ∃ b, f = .enter b ∧ b.lock = l
  | .enter (.block r op) => ∃ roomId, f = .handleRoom roomId op ∧ st.rooms.roomIdRooms.lookup roomId = some r
  | .enter (.method r op) => f = .run (.block r op) ∨ (∃ userId, f = .run (.method r (.leave userId))) ∨
      f = .departAll r ∨ ∃ task now, f = .fireTtl task now ∧ op = .release ∧
        (fire hasCome st.rooms.roomTtl task now).2 = some r
  | .enter (.endRoomProcess _) => ∃ r, f = .deleteRoomCallBack r
  | .deleteRoomCallBack r => f = .run (.method r .release)
  | .departAll r => f = .run (.method r .release)
  | .pipelineRelease r => f = .run (.method r .release)
  | .handleRoom _ _ => ∃ b, f = .run b ∧ b.lock = .monitorManger
  | _ => False

theorem method_pushes (st : Stores) (r : RoomRef) (room : Room) (op : RoomOp) (g : Frame)
    (hg : g ∈ (method st r room op).2) : Pushed st (.run (.method r op)) g := by
  cases op with
  | join userId build => cases hg
  | joinWithOnlyIncoming userId => cases hg
  | leave userId =>
    simp only [method] at hg
    split at hg
    · simp only [List.mem_singleton] at hg
      subst hg
      exact .inr (.inl ⟨userId, rfl⟩)
    · cases hg
  | release =>
    simp only [method, List.mem_cons, List.not_mem_nil, or_false] at hg
    rcases hg with rfl | rfl | rfl <;> rfl

theorem effect_pushes (st : Stores) (f g : Frame) (hg : g ∈ (effect st f).2) : Pushed st f g := by
  cases f with
  | enter b =>
    simp only [effect, List.mem_cons, List.not_mem_nil, or_false] at hg
    rcases hg with rfl | rfl
    · rfl
    · exact ⟨b, rfl, rfl⟩
  | exit l => cases hg
  | run b =>
    cases b with
    | joinRoom userId roomId =>
      simp only [effect, List.mem_singleton] at hg
      subst hg
      exact ⟨_, rfl, rfl⟩
    | leaveRoom userId roomId =>
      simp only [effect, List.mem_singleton] at hg
      subst hg
      exact ⟨_, rfl, rfl⟩
    | leaveAllRoom userId =>
      obtain ⟨roomId, -, rfl⟩ := List.mem_map.mp hg
      exact ⟨_, rfl, rfl⟩
    | endRoomProcess roomId => cases hg
    | block r op =>
      simp only [effect, List.mem_singleton] at hg
      subst hg
      exact .inl rfl
    | method r op =>
      simp only [effect] at hg
      split at hg
      · cases hg
      · exact method_pushes st r _ op g hg
  | handleRoom roomId op =>
    simp only [effect] at hg
    split at hg
    · cases hg
    · simp only [List.mem_singleton] at hg
      subst hg
      exact ⟨roomId, rfl, ‹_›⟩
  | deleteRoomCallBack r =>
    simp only [effect] at hg
    split at hg
    · cases hg
    · simp only [List.mem_singleton] at hg
      subst hg
      exact ⟨r, rfl⟩
  | departAll r =>
    simp only [effect] at hg
    split at hg
    · cases hg
    · obtain ⟨userId, -, rfl⟩ := List.mem_map.mp hg
      exact .inr (.inr (.inl rfl))
  | pipelineRelease r => cases hg
  | createRoom roomId wrapper now => cases hg
  | fireTtl task now =>
    simp only [effect] at hg
    split at hg
    · cases hg
    · simp only [List.mem_singleton] at hg
      subst hg
      exact .inr (.inr (.inr ⟨task, now, rfl, rfl, ‹_›⟩))

/-- A thread that is chosen stays where it is or does its next frame. -/
theorem advance_cases (s : System) (t : Tid) :
    advance s t = s ∨ ∃ f rest, stackOf s.threads t = f :: rest ∧ blocked s t f = false ∧
      advance s t = ⟨(effect s.stores f).1, setStack s.threads t ((effect s.stores f).2 ++ rest)⟩ := by
  unfold advance
  cases hs : stackOf s.threads t with
  | nil => exact .inl rfl
  | cons f rest =>
    cases hb : blocked s t f with
    | true => exact .inl (by simp [hb])
    | false => exact .inr ⟨f, rest, rfl, hb, by simp [hb]⟩

/-! ## What every run keeps -/

/-- Stacks are well formed, and no monitor is held by two threads. -/
structure Sound (s : System) : Prop where
  layered : ∀ t, Layered Fits (stackOf s.threads t)
  exclusive : ∀ l, Exclusive s.threads (.exit l)

theorem entry_fits (entry : Entry) : Layered Fits [entry.frame] := by
  refine ⟨⟨by simp, ?_⟩, trivial⟩
  cases entry with
  | fireTtl task now => rfl
  | _ =>
    intro g hg
    cases hg

theorem exit_not_entry (entry : Entry) (l : Lock) : Frame.exit l ∉ [entry.frame] := by
  cases entry <;> simp [Entry.frame]

theorem advance_sound (s : System) (t : Tid) (h : Sound s) : Sound (advance s t) := by
  rcases advance_cases s t with hsame | ⟨f, rest, hstack, hfree, hstep⟩
  · rw [hsame]; exact h
  · rw [hstep]
    have hold := h.layered t
    rw [hstack] at hold
    refine ⟨?_, ?_⟩
    · intro t'
      rw [stackOf_setStack]
      split
      · exact effect_layered s.stores f rest hold
      · exact h.layered t'
    · intro l
      apply exclusive_setStack (h.exclusive l)
      intro hl
      rcases List.mem_append.mp hl with hnew | hkeep
      · obtain ⟨b, rfl, rfl⟩ := effect_pushes s.stores f _ hnew
        exact .inr hfree
      · exact .inl (by rw [hstack]; exact List.mem_cons_of_mem _ hkeep)

theorem step_sound (s : System) (e : Event) (h : Sound s) : Sound (step s e) := by
  cases e with
  | advance t => exact advance_sound s t h
  | start t entry =>
    simp only [step]
    split
    · refine ⟨?_, ?_⟩
      · intro t'
        rw [stackOf_setStack]
        split
        · exact entry_fits entry
        · exact h.layered t'
      · intro l
        exact exclusive_setStack (h.exclusive l) t _ fun hl => absurd hl (exit_not_entry entry l)
    · exact h

theorem init_sound (ttl : Nat) : Sound (.init ttl) where
  layered := fun _ => trivial
  exclusive := by
    intro l t t' ht
    simp [System.init] at ht

end MediaThreads

import SpringStudy.MediaThreads
import SpringStudy.Runs

/-!
# Calls that run alone

A call that no other thread disturbs does, frame by frame, what the room manager
does in one step: the interleavings of the threads contain every run of the room
manager.
-/
namespace MediaSerial

open Tables Threads MediaRoom TtlCaches
open MediaRoomManager hiding Event step
open MediaThreads

/-! ## Methods of one room, one after the other -/

/-- The manager after a method of room `r` that leaves the room and makes the calls in `q`. -/
def after (m : RoomManager) (r : RoomRef) (q : Room × List Call) : RoomManager :=
  ({ m with heap := m.heap.set r q.1 } : RoomManager).performAll r q.2

def withHeap (m : RoomManager) (heap : List Room) : RoomManager := { m with heap := heap }

theorem performAll_append (m : RoomManager) (r : RoomRef) (calls calls' : List Call) :
    m.performAll r (calls ++ calls') = (m.performAll r calls).performAll r calls' :=
  List.foldl_append

theorem performAll_withHeap (m : RoomManager) (r : RoomRef) (heap : List Room) (calls : List Call) :
    (withHeap m heap).performAll r calls = withHeap (m.performAll r calls) heap := by
  induction calls generalizing m with
  | nil => rfl
  | cons c rest ih =>
    have hperform : (withHeap m heap).perform r c = withHeap (m.perform r c) heap := by cases c <;> rfl
    rw [RoomManager.performAll, List.foldl_cons, hperform]
    exact ih (m.perform r c)

/-- The calls do not see the heap. -/
theorem after_eq (m : RoomManager) (r : RoomRef) (q : Room × List Call) :
    after m r q = withHeap (m.performAll r q.2) (m.heap.set r q.1) :=
  performAll_withHeap m r _ q.2

theorem after_after (m : RoomManager) (r : RoomRef) (q q' : Room × List Call) :
    after (after m r q) r q' = after m r (q'.1, q.2 ++ q'.2) := by
  rw [after_eq (after m r q), after_eq m r q, after_eq m, performAll_withHeap, performAll_append]
  simp only [withHeap, List.set_set]

theorem after_room {m : RoomManager} {r : RoomRef} {room : Room} (q : Room × List Call)
    (h : m.heap[r]? = some room) : (after m r q).heap[r]? = some q.1 := by
  rw [after, performAll_heap]
  exact set_self h

theorem onRoom_eq_after {m : RoomManager} {r : RoomRef} {room : Room} (f : Room → Room × List Call)
    (h : m.heap[r]? = some room) : m.onRoom r f = after m r (f room) :=
  onRoom_eq h

/-- Whenever room `r` is `room`, the frames do to the rooms what a method does that
leaves the room and makes the calls in `q`. -/
def Plays (r : RoomRef) (room : Room) (frames : List Frame) (q : Room × List Call) : Prop :=
  ∀ st : Stores, st.rooms.heap[r]? = some room →
    ∃ monitors, Completes effect st frames ⟨after st.rooms r q, monitors⟩

theorem Plays.append {r : RoomRef} {room : Room} {fs gs : List Frame} {q q' : Room × List Call}
    (h : Plays r room fs q) (h' : Plays r q.1 gs q') : Plays r room (fs ++ gs) (q'.1, q.2 ++ q'.2) := by
  intro st hr
  obtain ⟨monitors, hfs⟩ := h st hr
  obtain ⟨monitors', hgs⟩ := h' ⟨after st.rooms r q, monitors⟩ (after_room q hr)
  rw [after_after] at hgs
  exact ⟨monitors', hfs.append hgs⟩

/-- A frame that makes one method call of its own and goes on with others. -/
theorem Plays.next {r : RoomRef} {room : Room} {f : Frame} {gs : List Frame} {q q' : Room × List Call}
    (hf : ∀ st : Stores, st.rooms.heap[r]? = some room →
      ∃ monitors, effect st f = (⟨after st.rooms r q, monitors⟩, gs))
    (h : Plays r q.1 gs q') : Plays r room [f] (q'.1, q.2 ++ q'.2) := by
  intro st hr
  obtain ⟨monitors, he⟩ := hf st hr
  obtain ⟨monitors', hgs⟩ := h ⟨after st.rooms r q, monitors⟩ (after_room q hr)
  rw [after_after] at hgs
  refine ⟨monitors', .next ?_⟩
  rw [he, List.append_nil]
  exact hgs

theorem after_self {m : RoomManager} {r : RoomRef} {room : Room} (h : m.heap[r]? = some room) :
    after m r (room, []) = m := by
  obtain ⟨hlt, hroom⟩ := List.getElem?_eq_some_iff.mp h
  simp [after, RoomManager.performAll, ← hroom]

theorem plays_nil (r : RoomRef) (room : Room) : Plays r room [] (room, []) := by
  intro st hr
  refine ⟨st.monitors, ?_⟩
  rw [after_self hr]
  exact .done st

/-- A frame that does nothing to the rooms. -/
theorem Plays.skip {r : RoomRef} {room : Room} {f : Frame} {gs : List Frame} {q : Room × List Call}
    (hf : ∀ st : Stores, st.rooms.heap[r]? = some room →
      ∃ monitors, effect st f = (⟨st.rooms, monitors⟩, gs))
    (h : Plays r room gs q) : Plays r room [f] q := by
  refine Plays.next (q := (room, [])) ?_ h
  intro st hr
  rw [after_self hr]
  exact hf st hr

/-- A frame that makes one method call of its own and is done. -/
theorem Plays.once {r : RoomRef} {room : Room} {f : Frame} {q : Room × List Call}
    (hf : ∀ st : Stores, st.rooms.heap[r]? = some room →
      ∃ monitors, effect st f = (⟨after st.rooms r q, monitors⟩, [])) : Plays r room [f] q := by
  have h := Plays.next hf (plays_nil r q.1)
  rwa [List.append_nil] at h

/-- Entering a monitor and leaving it at the end changes nothing. -/
theorem Plays.enter {r : RoomRef} {room : Room} {b : Body} {q : Room × List Call}
    (h : Plays r room [.run b] q) : Plays r room [.enter b] q := by
  have hexit : Plays r q.1 [.exit b.lock] (q.1, []) :=
    .skip (fun st _ => ⟨st.monitors, rfl⟩) (plays_nil r q.1)
  have hboth := h.append hexit
  rw [List.append_nil] at hboth
  exact .skip (fun st _ => ⟨st.monitors, rfl⟩) hboth

/-! ## The frames of a room's methods -/

section
variable (r : RoomRef) (room : Room)

theorem plays_endRoomProcess (roomId : String) :
    Plays r room [.enter (.endRoomProcess roomId)] (room, []) :=
  .enter (.skip (fun st _ => ⟨st.monitors.endRoomProcess roomId, rfl⟩) (plays_nil r room))

theorem plays_deleteRoomCallBack :
    Plays r room [.deleteRoomCallBack r] (room, [.deleteRoomCallBack room]) := by
  refine Plays.next (q := (room, [.deleteRoomCallBack room])) ?_ (plays_endRoomProcess r room room.roomId)
  intro st hr
  refine ⟨st.monitors, ?_⟩
  simp only [effect, hr, onRoom_eq_after _ hr]

theorem plays_pipelineRelease :
    Plays r room [.pipelineRelease r] (room, [.pipelineRelease room.mediaPipeline]) := by
  apply Plays.once
  intro st hr
  exact ⟨st.monitors, by simp only [effect, onRoom_eq_after _ hr]⟩

/-- The three parts of `release`, once the loop over the participants is known. -/
theorem plays_release_of (hdepart : Plays r room [.departAll r] (room.departAll room.userIdParticipants.keys))
    (hpipe : (room.departAll room.userIdParticipants.keys).1.mediaPipeline = room.mediaPipeline) :
    Plays r room [.enter (.method r .release)] room.release := by
  apply Plays.enter
  have hparts := ((plays_deleteRoomCallBack r room).append hdepart).append (plays_pipelineRelease r _)
  rw [hpipe] at hparts
  rw [Room.release]
  refine .skip ?_ hparts
  intro st hr
  exact ⟨st.monitors, by simp [effect, method, hr]⟩

theorem plays_departAll (h : Plays r room
      (room.userIdParticipants.keys.map fun userId => .enter (.method r (.leave userId)))
      (room.departAll room.userIdParticipants.keys)) :
    Plays r room [.departAll r] (room.departAll room.userIdParticipants.keys) :=
  .skip (fun st hr => ⟨st.monitors, by simp only [effect, hr]⟩) h

theorem plays_release_empty (h : room.isEmpty = true) :
    Plays r room [.enter (.method r .release)] room.release := by
  have hkeys : room.userIdParticipants.keys = [] := List.isEmpty_iff.mp h
  have hnone : room.departAll room.userIdParticipants.keys = (room, []) := by rw [hkeys, Room.departAll]
  refine plays_release_of r room (plays_departAll r room ?_) (by rw [hnone])
  rw [hnone, hkeys]
  exact plays_nil r room

/-- A departure that empties the room goes on with `release`. -/
theorem plays_leave (userId : String) :
    Plays r room [.enter (.method r (.leave userId))] (room.leave userId) := by
  apply Plays.enter
  cases hlast : room.isLast userId with
  | true =>
    have hempty : (room.removeParticipant userId).1.isEmpty = true := hlast
    rw [Room.leave, dif_pos hempty]
    refine Plays.next (q := room.removeParticipant userId) ?_ (plays_release_empty r _ hempty)
    intro st hr
    exact ⟨st.monitors, by simp [effect, method, hr, hlast, onRoom_eq_after _ hr]⟩
  | false =>
    apply Plays.once
    intro st hr
    exact ⟨st.monitors, by simp [effect, method, hr, hlast, onRoom_eq_after _ hr]⟩

/-- The loop of `release`: one departure after the other. -/
theorem plays_departures (userIds : List String) :
    Plays r room (userIds.map fun userId => .enter (.method r (.leave userId))) (room.departAll userIds) := by
  induction userIds generalizing room with
  | nil =>
    rw [Room.departAll]
    exact plays_nil r room
  | cons userId rest ih =>
    rw [Room.departAll]
    exact (plays_leave r room userId).append (ih (room.leave userId).1)

theorem plays_release : Plays r room [.enter (.method r .release)] room.release := by
  have hfst : (room.departAll room.userIdParticipants.keys).1 = room.emptied := by
    have h := Room.release_fst room
    rwa [Room.release] at h
  exact plays_release_of r room (plays_departAll r room (plays_departures r room _)) (by rw [hfst]; rfl)

/-- A method of a room, frame by frame, is the method in one step. -/
theorem plays_method (op : RoomOp) : Plays r room [.enter (.method r op)] (room.call op) := by
  cases op with
  | join userId build =>
    refine .enter (.once fun st hr => ⟨st.monitors, ?_⟩)
    simp only [effect, method, hr, onRoom_eq_after _ hr]
  | joinWithOnlyIncoming userId =>
    refine .enter (.once fun st hr => ⟨st.monitors, ?_⟩)
    simp only [effect, method, hr, onRoom_eq_after _ hr]
  | leave userId => exact plays_leave r room userId
  | release => exact plays_release r room

end

/-! ## Calls of the room manager -/

section
variable (st : Stores)

theorem method_completes (r : RoomRef) (op : RoomOp) :
    ∃ monitors, Completes effect st [.enter (.method r op)]
      ⟨st.rooms.onRoom r fun room => room.call op, monitors⟩ := by
  cases hr : st.rooms.heap[r]? with
  | some room =>
    rw [onRoom_eq_after _ hr]
    exact plays_method r room op st hr
  | none =>
    have hnone : st.rooms.onRoom r (fun room => room.call op) = st.rooms := by
      simp only [RoomManager.onRoom, hr]
    have hrun : effect st (.run (.method r op)) = (st, []) := by simp only [effect, hr]
    refine ⟨st.monitors, .next (.next ?_)⟩
    rw [effect, hrun, hnone]
    exact .next (.done st)

theorem handleRoom_completes (roomId : String) (op : RoomOp) :
    ∃ monitors, Completes effect st [.handleRoom roomId op] ⟨st.rooms.handleRoom roomId op, monitors⟩ := by
  cases hx : st.rooms.roomIdRooms.lookup roomId with
  | none =>
    refine ⟨st.monitors, .next ?_⟩
    simp only [effect, RoomManager.handleRoom, hx]
    exact .done st
  | some r =>
    obtain ⟨monitors, hmethod⟩ := method_completes st r op
    refine ⟨monitors, .next ?_⟩
    simp only [effect, RoomManager.handleRoom, hx]
    -- the block on the room: enter, run the method, leave
    exact .next (.next (hmethod.append (.next (.done _))))

theorem fireTtl_completes (task : String × Nat) (now : Nat) :
    ∃ monitors, Completes effect st [.fireTtl task now] ⟨st.rooms.fireTtl task now, monitors⟩ := by
  cases hq : (fire hasCome st.rooms.roomTtl task now).2 with
  | none =>
    refine ⟨st.monitors, .next ?_⟩
    simp only [effect, RoomManager.fireTtl, hq]
    exact .done _
  | some r =>
    obtain ⟨monitors, hmethod⟩ :=
      method_completes { st with rooms := { st.rooms with roomTtl := (fire hasCome st.rooms.roomTtl task now).1 } }
        r .release
    refine ⟨monitors, .next ?_⟩
    simp only [effect, RoomManager.fireTtl, hq]
    exact hmethod

end

/-- The call of a thread for an event of the room manager. The threads have no
`kurentoDown`. -/
def entryOf : MediaRoomManager.Event → Option Entry
  | .createRoom roomId wrapper now => some (.createRoom roomId wrapper now)
  | .handleRoom roomId op => some (.handleRoom roomId op)
  | .kurentoDown _ _ _ => none
  | .fireTtl task now => some (.fireTtl task now)

theorem entry_completes (st : Stores) (e : MediaRoomManager.Event) (entry : Entry)
    (h : entryOf e = some entry) :
    ∃ monitors, Completes effect st [entry.frame] ⟨MediaRoomManager.step st.rooms e, monitors⟩ := by
  cases e with
  | createRoom roomId wrapper now =>
    obtain rfl := Option.some.inj h
    exact ⟨st.monitors, .next (.done _)⟩
  | handleRoom roomId op =>
    obtain rfl := Option.some.inj h
    exact handleRoom_completes st roomId op
  | kurentoDown order kmsUrl returns => cases h
  | fireTtl task now =>
    obtain rfl := Option.some.inj h
    exact fireTtl_completes st task now

/-! ## Runs of one thread -/

/-- No thread has anything to do. -/
def Idle (s : System) : Prop := ∀ t, stackOf s.threads t = []

theorem blocked_alone (s : System) (t : Tid) (f : Frame) (h : ∀ t', t' ≠ t → stackOf s.threads t' = []) :
    blocked s t f = false := by
  cases f with
  | enter b =>
    rw [blocked, Bool.eq_false_iff]
    intro hother
    obtain ⟨t', hne, hin⟩ := (hasOther_iff _ _ _ rfl).mp hother
    rw [h t' hne] at hin
    cases hin
  | _ => rfl

/-- A thread alone works off its frames by advancing. -/
theorem advance_completes (s : System) (t : Tid) (st : Stores)
    (halone : ∀ t', t' ≠ t → stackOf s.threads t' = [])
    (h : Completes effect s.stores (stackOf s.threads t) st) :
    ∃ n, Idle (Runs.run step s (List.replicate n (.advance t))) ∧
      (Runs.run step s (List.replicate n (.advance t))).stores = st := by
  generalize hfs : stackOf s.threads t = fs at h
  generalize hst : s.stores = st₀ at h
  induction h generalizing s with
  | done st =>
    refine ⟨0, ?_, hst⟩
    intro t'
    by_cases ht : t' = t
    · rw [ht]; exact hfs
    · exact halone t' ht
  | @next st₀ st f rest _ ih =>
    have hstep : step s (.advance t) =
        ⟨(effect st₀ f).1, setStack s.threads t ((effect st₀ f).2 ++ rest)⟩ := by
      simp only [step, advance, hfs, hst, blocked_alone s t f halone, Bool.false_eq_true, ↓reduceIte]
    obtain ⟨n, hidle, hstores⟩ := ih (step s (.advance t))
      (by intro t' ht; rw [hstep, stackOf_setStack, if_neg ht]; exact halone t' ht)
      (by rw [hstep, stackOf_setStack, if_pos rfl]) (by rw [hstep])
    exact ⟨n + 1, hidle, hstores⟩

theorem event_serial (s : System) (e : MediaRoomManager.Event) (hidle : Idle s)
    (h : (entryOf e).isSome = true) :
    ∃ es, Idle (Runs.run step s es) ∧
      (Runs.run step s es).stores.rooms = MediaRoomManager.step s.stores.rooms e := by
  obtain ⟨entry, hentry⟩ := Option.isSome_iff_exists.mp h
  obtain ⟨monitors, hcompletes⟩ := entry_completes s.stores e entry hentry
  have hstart : step s (.start 0 entry) = { s with threads := setStack s.threads 0 [entry.frame] } := by
    rw [step, if_pos (hidle 0)]
  obtain ⟨n, hdone, hstores⟩ := advance_completes (step s (.start 0 entry)) 0 _
    (by intro t' ht; rw [hstart, stackOf_setStack, if_neg ht]; exact hidle t')
    (by rw [hstart, stackOf_setStack, if_pos rfl]; exact hcompletes)
  refine ⟨.start 0 entry :: List.replicate n (.advance 0), hdone, ?_⟩
  rw [Runs.run_cons, hstores]

/-- Every run of the room manager without `kurentoDown` is a run of the threads, in
which one call is made after the other. -/
theorem exists_serial_run (ttl : Nat) (events : List MediaRoomManager.Event)
    (h : ∀ e ∈ events, (entryOf e).isSome = true) :
    ∃ es, (Runs.run step (.init ttl) es).stores.rooms =
      Runs.run MediaRoomManager.step (.init ttl) events := by
  have hserial : ∀ (events : List MediaRoomManager.Event) (s : System), Idle s →
      (∀ e ∈ events, (entryOf e).isSome = true) →
      ∃ es, (Runs.run step s es).stores.rooms = Runs.run MediaRoomManager.step s.stores.rooms events := by
    intro events
    induction events with
    | nil => exact fun s _ _ => ⟨[], rfl⟩
    | cons e events ih =>
      intro s hidle h
      rw [List.forall_mem_cons] at h
      obtain ⟨es, hidle', hrooms⟩ := event_serial s e hidle h.1
      obtain ⟨fs, hrest⟩ := ih (Runs.run step s es) hidle' h.2
      refine ⟨es ++ fs, ?_⟩
      rw [Runs.run_append, hrest, hrooms, Runs.run_cons]
  exact hserial events (.init ttl) (fun _ => rfl) h

end MediaSerial

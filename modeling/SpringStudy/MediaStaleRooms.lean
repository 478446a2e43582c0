import SpringStudy.MediaThreads
import SpringStudy.Runs

/-!
# Operations on rooms that are gone

`handleRoom` takes the room object from the map before it takes the object's
monitor, and a room that is closed leaves the map before its participants leave
it. A new room may be created under the same id in between, and the callbacks
of the old object find their entries by id.
-/
namespace MediaStaleRooms

open Tables Threads MediaRoom TtlCaches
open MediaRoomManager hiding Event step
open MediaThreads

/-- `joinWithOnlyIncoming` calls nothing back. -/
def isOnlyIncoming : RoomOp → Bool
  | .joinWithOnlyIncoming _ => true
  | _ => false

/-- The room object through whose id a frame, or one it leads to, may yet remove a
map entry or cancel a TTL entry. -/
def touches : Frame → Option RoomRef
  | .enter (.block r op) => if isOnlyIncoming op then none else some r
  | .enter (.method r op) => if isOnlyIncoming op then none else some r
  | .run (.block r op) => if isOnlyIncoming op then none else some r
  | .run (.method r op) => if isOnlyIncoming op then none else some r
  | .deleteRoomCallBack r => some r
  | .departAll r => some r
  | _ => none

/-- The stack has an operation on a room object with the id. -/
def pending (m : RoomManager) (roomId : String) (stack : List Frame) : Bool :=
  stack.any fun f => match (touches f).bind fun r => m.heap[r]? with
    | none => false
    | some room => decide (room.roomId = roomId)

/-- The id for which the next frame makes a new room, if the map has none. -/
def creates : List Frame → Option String
  | .createRoom roomId (some ⟨_, some _⟩) _ :: _ => some roomId
  | _ => none

/-- A room is created only when no operation on an earlier room object with its id is under way. -/
def CreatesFresh (s : System) : Event → Prop
  | .start _ _ => True
  | .advance t => ∀ roomId ∈ creates (stackOf s.threads t), s.stores.rooms.roomIdRooms.lookup roomId = none →
      hasOther s.threads t (pending s.stores.rooms roomId) = false

instance (s : System) : (e : Event) → Decidable (CreatesFresh s e)
  | .start _ _ => .isTrue trivial
  | .advance t => inferInstanceAs (Decidable (∀ roomId ∈ creates (stackOf s.threads t),
      s.stores.rooms.roomIdRooms.lookup roomId = none →
        hasOther s.threads t (pending s.stores.rooms roomId) = false))

/-- A frame that works on one room object takes no other object from the map and
cancels no other object's TTL entry. -/
def SparesOthers (s : System) : Event → Prop
  | .start _ _ => True
  | .advance t => ∀ f rest r, stackOf s.threads t = f :: rest → f.room? = some r →
      ∀ x r', r' ≠ r →
        (s.stores.rooms.roomIdRooms.lookup x = some r' →
          (advance s t).stores.rooms.roomIdRooms.lookup x = some r') ∧
        (s.stores.rooms.roomTtl.cache.lookup x = some r' →
          (advance s t).stores.rooms.roomTtl.cache.lookup x = some r')

/-- A frame that works on a room object spares the objects created later under the
same id: it takes none from the map and cancels no TTL entry of one. A room is
created only when the map has none of its id, so the later object came after
the earlier one had left the map. -/
def SparesLater (s : System) : Event → Prop
  | .start _ _ => True
  | .advance t => ∀ f rest r x r', stackOf s.threads t = f :: rest → f.room? = some r →
      (s.stores.rooms.heap[r]?).map Room.roomId = some x → r < r' →
        (s.stores.rooms.roomIdRooms.lookup x = some r' →
          (advance s t).stores.rooms.roomIdRooms.lookup x = some r') ∧
        (s.stores.rooms.roomTtl.cache.lookup x = some r' →
          (advance s t).stores.rooms.roomTtl.cache.lookup x = some r')

theorem SparesOthers.later {s : System} {e : Event} (h : SparesOthers s e) : SparesLater s e := by
  cases e with
  | start t entry => trivial
  | advance t =>
    intro f rest r x r' hstack hroom _ hlater
    exact h f rest r hstack hroom x r' (Nat.ne_of_gt hlater)

/-! ## What a frame does to the rooms -/

/-- Room objects keep their ids, and map and TTL entries are only lost, together or
the TTL entry first. -/
structure Narrows (m m' : RoomManager) : Prop where
  ids : ∀ (r : RoomRef) room, m.heap[r]? = some room →
    ∃ room', m'.heap[r]? = some room' ∧ room'.roomId = room.roomId
  map : ∀ x r, m'.roomIdRooms.lookup x = some r → m.roomIdRooms.lookup x = some r
  stored : Stored m → Stored m'
  ttl : (∀ x r, m.roomTtl.cache.lookup x = some r → m.roomIdRooms.lookup x = some r) →
    ∀ x r, m'.roomTtl.cache.lookup x = some r → m'.roomIdRooms.lookup x = some r

theorem Narrows.refl (m : RoomManager) : Narrows m m :=
  ⟨fun _ room hr => ⟨room, hr, rfl⟩, fun _ _ h => h, fun h => h, fun h => h⟩

theorem isCallBack_of_isDelete (calls : List Call) (h : calls.any Call.isDelete = true) :
    calls.any isCallBack = true := by
  rw [List.any_eq_true] at h ⊢
  obtain ⟨c, hc, hd⟩ := h
  refine ⟨c, hc, ?_⟩
  cases c <;> simp_all [Call.isDelete, isCallBack]

theorem onRoom_narrows (m : RoomManager) (r : RoomRef) (f : Room → Room × List Call)
    (hf : ∀ room, Local room (f room)) : Narrows m (m.onRoom r f) := by
  cases hr : m.heap[r]? with
  | none =>
    have hsame : m.onRoom r f = m := by simp [RoomManager.onRoom, hr]
    rw [hsame]
    exact .refl m
  | some room =>
    have hl := hf room
    refine ⟨?_, ?_, onRoom_stored hr hl, ?_⟩
    · intro r' room' hr'
      by_cases he : r' = r
      · subst he
        rw [hr, Option.some.injEq] at hr'
        exact ⟨(f room).1, onRoom_heap_self hr, by rw [hl.roomId, hr']⟩
      · exact ⟨room', (onRoom_heap_other hr he).trans hr', rfl⟩
    · intro x r' hx
      rw [onRoom_eq hr, performAll_rooms _ _ _ _ hl.about] at hx
      split at hx
      · cases hx
      · exact hx
    · intro hold x r' hx
      rw [onRoom_eq hr] at hx ⊢
      rw [performAll_ttl _ _ _ _ hl.about] at hx
      rw [performAll_rooms _ _ _ _ hl.about]
      split at hx
      · cases hx
      · rename_i hkeep
        -- who deletes the map entry also cancels the TTL entry
        rw [if_neg]
        · exact hold x r' hx
        · intro hgone
          exact hkeep ⟨hgone.1, isCallBack_of_isDelete _ hgone.2⟩

theorem removeParticipant_local (room : Room) (userId : String) :
    Local room (room.removeParticipant userId) where
  roomId := rfl
  about := by
    apply about_of_outer
    rw [Room.removeParticipant_outer]
    simp

theorem method_narrows (st : Stores) (r : RoomRef) (room : Room) (op : RoomOp) :
    Narrows st.rooms (method st r room op).1.rooms := by
  cases op with
  | join userId build => exact onRoom_narrows _ r _ fun room => call_local room _
  | joinWithOnlyIncoming userId => exact onRoom_narrows _ r _ fun room => call_local room _
  | leave userId =>
    simp only [method]
    split
    · exact onRoom_narrows _ r _ fun room => removeParticipant_local room userId
    · exact onRoom_narrows _ r _ fun room => leave_local room userId
  | release => exact .refl _

theorem fire_le (c : Cache String RoomRef) (task : String × Nat) (now : Nat) (x : String) (r : RoomRef)
    (h : (fire hasCome c task now).1.cache.lookup x = some r) : c.cache.lookup x = some r := by
  rcases fire_cases hasCome c task now with ⟨-, hc⟩ | ⟨-, hc⟩
  · rw [hc] at h
    split at h
    · cases h
    · exact h
  · rwa [hc] at h

theorem fire_some (c : Cache String RoomRef) (task : String × Nat) (now : Nat) (r : RoomRef)
    (h : (fire hasCome c task now).2 = some r) : c.cache.lookup task.1 = some r := by
  rcases fire_cases hasCome c task now with ⟨hv, -⟩ | ⟨hv, -⟩
  · rw [← hv, h]
  · rw [hv] at h
    cases h

/-- No frame but `createRoom` adds an entry or a room object. -/
theorem effect_narrows (st : Stores) (f : Frame) (hf : ∀ roomId wrapper now, f ≠ .createRoom roomId wrapper now) :
    Narrows st.rooms (effect st f).1.rooms := by
  cases f with
  | enter b => exact .refl _
  | exit l => exact .refl _
  | run b =>
    cases b with
    | method r op =>
      simp only [effect]
      split
      · exact .refl _
      · exact method_narrows st r _ op
    | _ => exact .refl _
  | handleRoom roomId op =>
    simp only [effect]
    split <;> exact .refl _
  | deleteRoomCallBack r =>
    simp only [effect]
    split
    · exact .refl _
    · exact onRoom_narrows _ r _ fun room => ⟨rfl, by simp [About]⟩
  | departAll r =>
    simp only [effect]
    split <;> exact .refl _
  | pipelineRelease r => exact onRoom_narrows _ r _ fun room => ⟨rfl, by simp [About]⟩
  | createRoom roomId wrapper now => exact absurd rfl (hf roomId wrapper now)
  | fireTtl task now =>
    refine ⟨fun _ room hr => ⟨room, hr, rfl⟩, fun _ _ h => h, fun h => h, ?_⟩
    intro hold x r hx
    exact hold x r (fire_le _ task now x r hx)

/-- A method that calls nothing back, or works under another id, leaves the entries of `x`. -/
theorem onRoom_keys {m : RoomManager} {r : RoomRef} {f : Room → Room × List Call} (x : String)
    (hf : ∀ room, Local room (f room))
    (hx : ∀ room, m.heap[r]? = some room → x ≠ room.roomId ∨ (f room).2.any isCallBack = false) :
    (m.onRoom r f).roomIdRooms.lookup x = m.roomIdRooms.lookup x ∧
    (m.onRoom r f).roomTtl.cache.lookup x = m.roomTtl.cache.lookup x := by
  cases hr : m.heap[r]? with
  | none => simp [RoomManager.onRoom, hr]
  | some room =>
    have hcall : ¬ (x = room.roomId ∧ (f room).2.any isCallBack = true) := by
      intro h
      rcases hx room hr with hx | hx
      · exact hx h.1
      · rw [hx] at h
        cases h.2
    have hdelete : ¬ (x = room.roomId ∧ (f room).2.any Call.isDelete = true) :=
      fun h => hcall ⟨h.1, isCallBack_of_isDelete _ h.2⟩
    rw [onRoom_eq hr, performAll_rooms _ _ _ _ (hf room).about, performAll_ttl _ _ _ _ (hf room).about,
      if_neg hcall, if_neg hdelete]
    exact ⟨rfl, rfl⟩

/-- A frame on the room object `r` leaves the entries of other ids, and all entries if it touches none. -/
theorem effect_keys (st : Stores) (f : Frame) (r : RoomRef) (hroom : f.room? = some r) (x : String)
    (hx : touches f = none ∨ ∀ room, st.rooms.heap[r]? = some room → x ≠ room.roomId) :
    (effect st f).1.rooms.roomIdRooms.lookup x = st.rooms.roomIdRooms.lookup x ∧
    (effect st f).1.rooms.roomTtl.cache.lookup x = st.rooms.roomTtl.cache.lookup x := by
  have hother : touches f = some r → ∀ room, st.rooms.heap[r]? = some room → x ≠ room.roomId := by
    intro ht
    rcases hx with hx | hx
    · rw [hx] at ht
      cases ht
    · exact hx
  cases f with
  | enter b => exact ⟨rfl, rfl⟩
  | exit l => exact ⟨rfl, rfl⟩
  | run b =>
    cases b with
    | method r' op =>
      cases hroom
      simp only [effect]
      split
      · exact ⟨rfl, rfl⟩
      · cases op with
        | join userId build =>
          exact onRoom_keys x (fun room => call_local room _) fun room hr => .inl (hother rfl room hr)
        | joinWithOnlyIncoming userId =>
          exact onRoom_keys x (fun room => call_local room _) fun _ _ => .inr rfl
        | leave userId =>
          simp only [method]
          split
          · exact onRoom_keys x (fun room => removeParticipant_local room userId)
              fun room hr => .inl (hother rfl room hr)
          · exact onRoom_keys x (fun room => leave_local room userId)
              fun room hr => .inl (hother rfl room hr)
        | release => exact ⟨rfl, rfl⟩
    | _ => exact ⟨rfl, rfl⟩
  | deleteRoomCallBack r' =>
    cases hroom
    simp only [effect]
    split
    · exact ⟨rfl, rfl⟩
    · exact onRoom_keys x (fun room => ⟨rfl, by simp [About]⟩) fun room hr => .inl (hother rfl room hr)
  | departAll r' =>
    simp only [effect]
    split <;> exact ⟨rfl, rfl⟩
  | pipelineRelease r' =>
    exact onRoom_keys x (fun room => ⟨rfl, by simp [About]⟩) fun _ _ => .inr rfl
  | handleRoom roomId op => cases hroom
  | createRoom roomId wrapper now => cases hroom
  | fireTtl task now => cases hroom

/-! ## Pending operations are on the room of the map -/

/-- Every operation under way is on the room object that its id leads to, if it leads to one. -/
structure Current (s : System) : Prop where
  sound : Sound s
  stored : Stored s.stores.rooms
  ttl : ∀ x r, s.stores.rooms.roomTtl.cache.lookup x = some r →
    s.stores.rooms.roomIdRooms.lookup x = some r
  pending : ∀ t f r, f ∈ stackOf s.threads t → touches f = some r →
    ∃ room, s.stores.rooms.heap[r]? = some room ∧
      ∀ r', s.stores.rooms.roomIdRooms.lookup room.roomId = some r' → r' = r

/-- A frame that works on a room touches that room or none. -/
theorem touches_room (f : Frame) (r r' : RoomRef) (hf : f.room? = some r) (ht : touches f = some r') :
    r' = r := by
  cases f with
  | enter b =>
    cases b <;> simp_all [touches, Frame.room?]
  | run b =>
    cases b <;> simp_all [touches, Frame.room?]
  | _ => simp_all [touches, Frame.room?]

theorem touches_none (f : Frame) (hf : f.room? = none) : touches f = none := by
  cases f with
  | enter b => cases b <;> simp_all [touches, Frame.room?]
  | run b => cases b <;> simp_all [touches, Frame.room?]
  | _ => simp_all [touches, Frame.room?]

/-- A pushed operation is one that was under way, or one on a room just found under its id. -/
theorem pushed_touches (s : System) (h : Current s) (f g : Frame) (r : RoomRef)
    (hp : Pushed s.stores f g) (hg : touches g = some r) :
    touches f = some r ∨ ∃ x, s.stores.rooms.roomIdRooms.lookup x = some r := by
  cases g with
  | enter b =>
    cases b with
    | block r' op =>
      obtain ⟨roomId, -, hmap⟩ := hp
      have hr : r' = r := touches_room _ r' r rfl hg |>.symm
      exact .inr ⟨roomId, hr ▸ hmap⟩
    | method r' op =>
      have hr : r' = r := touches_room _ r' r rfl hg |>.symm
      subst hr
      rcases hp with rfl | ⟨userId, rfl⟩ | rfl | ⟨task, now, rfl, -, hfire⟩
      · exact .inl hg
      · exact .inl rfl
      · exact .inl rfl
      · exact .inr ⟨task.1, h.ttl _ _ (fire_some _ task now r' hfire)⟩
    | _ => cases hg
  | run b =>
    have hf : f = .enter b := hp
    subst hf
    cases b with
    | block r' op => exact .inl hg
    | method r' op => exact .inl hg
    | _ => cases hg
  | deleteRoomCallBack r' =>
    cases hg
    have hf : f = .run (.method r .release) := hp
    exact .inl (by rw [hf]; rfl)
  | departAll r' =>
    cases hg
    have hf : f = .run (.method r .release) := hp
    exact .inl (by rw [hf]; rfl)
  | _ => cases hg

theorem pending_of_mem (m : RoomManager) (roomId : String) (stack : List Frame) (f : Frame) (r : RoomRef)
    (room : Room) (hf : f ∈ stack) (ht : touches f = some r) (hr : m.heap[r]? = some room)
    (hid : room.roomId = roomId) : pending m roomId stack = true := by
  rw [pending, List.any_eq_true]
  exact ⟨f, hf, by simp [ht, hr, hid]⟩

/-- Creating a room under an id on which nothing is under way. -/
theorem createRoom_current (s : System) (t : Tid) (roomId : String) (wrapper : Option PipelineWrapper)
    (now : Nat) (rest : List Frame) (hstack : stackOf s.threads t = .createRoom roomId wrapper now :: rest)
    (h : Current s) (hsound : Sound (advance s t)) (hfresh : CreatesFresh s (.advance t)) :
    Current (advance s t) := by
  have hno : NoRoom rest := by
    have hlayer := h.sound.layered t
    rw [hstack] at hlayer
    exact hlayer.1.2
  have hstep : advance s t = ⟨{ s.stores with rooms :=
      (s.stores.rooms.createRoom roomId wrapper now).getD s.stores.rooms }, setStack s.threads t rest⟩ := by
    simp [advance, hstack, blocked, effect]
  have hframes : ∀ t' f r, f ∈ stackOf (setStack s.threads t rest) t' → touches f = some r →
      t' ≠ t ∧ f ∈ stackOf s.threads t' := by
    intro t' f r hf ht
    rw [stackOf_setStack] at hf
    split at hf
    · rw [touches_none f (hno f hf)] at ht
      cases ht
    · exact ⟨‹_›, hf⟩
  rw [hstep] at hsound ⊢
  cases hc : s.stores.rooms.createRoom roomId wrapper now with
  | none =>
    refine ⟨by simpa [hc] using hsound, by simpa using h.stored, by simpa using h.ttl, ?_⟩
    intro t' f r hf ht
    simpa using h.pending t' f r (hframes t' f r hf ht).2 ht
  | some m =>
    have hstored := createRoom_stored hc h.stored
    rcases createRoom_cases hc with rfl | ⟨url, pipeline, rfl, hnone, rfl⟩
    · refine ⟨by simpa [hc] using hsound, h.stored, h.ttl, ?_⟩
      intro t' f r hf ht
      exact h.pending t' f r (hframes t' f r hf ht).2 ht
    · refine ⟨by simpa [hc] using hsound, hstored, ?_, ?_⟩
      · intro x r hx
        simp only [Option.getD_some, lookup_cache_put, lookup_put] at hx ⊢
        split at hx
        · rw [if_pos ‹_›]; exact hx
        · rw [if_neg ‹_›]; exact h.ttl x r hx
      · intro t' f r hf ht
        obtain ⟨hne, hold⟩ := hframes t' f r hf ht
        obtain ⟨room, hr, hmap⟩ := h.pending t' f r hold ht
        refine ⟨room, heap_append _ hr, ?_⟩
        have hid : room.roomId ≠ roomId := by
          intro hid
          have hfree := eq_false_of_hasOther rfl (hfresh roomId (by rw [hstack]; rfl) hnone) t' hne
          rw [pending_of_mem _ roomId _ f r room hold ht hr hid] at hfree
          cases hfree
        intro r' hr'
        simp only [Option.getD_some, lookup_put, if_neg hid] at hr'
        exact hmap r' hr'

theorem advance_current (s : System) (t : Tid) (h : Current s) (hfresh : CreatesFresh s (.advance t)) :
    Current (advance s t) := by
  have hsound := advance_sound s t h.sound
  rcases advance_cases s t with hsame | ⟨f, rest, hstack, -, hstep⟩
  · rw [hsame]; exact h
  · by_cases hcreate : ∃ roomId wrapper now, f = .createRoom roomId wrapper now
    · obtain ⟨roomId, wrapper, now, rfl⟩ := hcreate
      exact createRoom_current s t roomId wrapper now rest hstack h hsound hfresh
    · have hnarrow := effect_narrows s.stores f fun roomId wrapper now he =>
        hcreate ⟨roomId, wrapper, now, he⟩
      rw [hstep] at hsound ⊢
      refine ⟨hsound, hnarrow.stored h.stored, hnarrow.ttl h.ttl, ?_⟩
      -- a frame on the stack was there before, or is on a room just found
      have hlive : ∀ t' g r, g ∈ stackOf (setStack s.threads t ((effect s.stores f).2 ++ rest)) t' →
          touches g = some r → ∃ room, s.stores.rooms.heap[r]? = some room ∧
            ∀ r', s.stores.rooms.roomIdRooms.lookup room.roomId = some r' → r' = r := by
        intro t' g r hg ht
        rw [stackOf_setStack] at hg
        split at hg
        · rcases List.mem_append.mp hg with hpush | hrest
          · rcases pushed_touches s h f g r (effect_pushes s.stores f g hpush) ht with hf | ⟨x, hx⟩
            · exact h.pending t f r (by rw [hstack]; exact List.mem_cons_self) hf
            · obtain ⟨room, hr, hid⟩ := h.stored x r hx
              refine ⟨room, hr, ?_⟩
              intro r' hr'
              rw [hid, hx, Option.some.injEq] at hr'
              exact hr'.symm
          · exact h.pending t g r (by rw [hstack]; exact List.mem_cons_of_mem _ hrest) ht
        · exact h.pending t' g r hg ht
      intro t' g r hg ht
      obtain ⟨room, hr, hmap⟩ := hlive t' g r hg ht
      obtain ⟨room', hr', hid⟩ := hnarrow.ids r room hr
      refine ⟨room', hr', ?_⟩
      intro r' hx
      rw [hid] at hx
      exact hmap r' (hnarrow.map _ r' hx)

theorem entry_touches (entry : Entry) : touches entry.frame = none := by
  cases entry <;> rfl

theorem step_current (s : System) (e : Event) (h : Current s) (hfresh : CreatesFresh s e) :
    Current (step s e) := by
  cases e with
  | advance t => exact advance_current s t h hfresh
  | start t entry =>
    have hsound := step_sound s (.start t entry) h.sound
    simp only [step] at hsound ⊢
    split
    · rename_i hidle
      rw [if_pos hidle] at hsound
      refine ⟨hsound, h.stored, h.ttl, ?_⟩
      intro t' f r hf ht
      rw [stackOf_setStack] at hf
      split at hf
      · rw [List.mem_singleton] at hf
        rw [hf, entry_touches] at ht
        cases ht
      · exact h.pending t' f r hf ht
    · exact h

/-- An operation that is on the room of its id leaves every other room alone. -/
theorem current_spares (s : System) (e : Event) (h : Current s) : SparesOthers s e := by
  cases e with
  | start t entry => trivial
  | advance t =>
    intro f rest r hstack hroom x r' hne
    rcases advance_cases s t with hsame | ⟨g, rest', hstack', -, hstep⟩
    · rw [hsame]
      exact ⟨fun hx => hx, fun hx => hx⟩
    · rw [hstack, List.cons.injEq] at hstack'
      obtain ⟨rfl, rfl⟩ := hstack'
      rw [hstep]
      cases htouch : touches f with
      | none =>
        obtain ⟨hmap, httl⟩ := effect_keys s.stores f r hroom x (.inl htouch)
        exact ⟨fun hx => hmap.trans hx, fun hx => httl.trans hx⟩
      | some r'' =>
        have hr'' := touches_room f r r'' hroom htouch
        subst hr''
        obtain ⟨room, hr, honly⟩ := h.pending t f r'' (by rw [hstack]; exact List.mem_cons_self) htouch
        by_cases hx : x = room.roomId
        · refine ⟨fun hm => ?_, fun hm => ?_⟩
          · exact absurd (honly r' (hx ▸ hm)) hne
          · exact absurd (honly r' (hx ▸ h.ttl x r' hm)) hne
        · have hids : ∀ room', s.stores.rooms.heap[r'']? = some room' → x ≠ room'.roomId := by
            intro room' hr'
            rw [hr, Option.some.injEq] at hr'
            exact hr' ▸ hx
          obtain ⟨hmap, httl⟩ := effect_keys s.stores f r'' hroom x (.inr hids)
          exact ⟨fun hm => hmap.trans hm, fun hm => httl.trans hm⟩

theorem init_current (ttl : Nat) : Current (.init ttl) where
  sound := init_sound ttl
  stored := (init_inv ttl).stored
  ttl := by
    intro x r hx
    simp [System.init, RoomManager.init, Cache.empty] at hx
  pending := by
    intro t f r hf
    simp [System.init] at hf

/-- In every interleaving that creates a room only when nothing is under way on an
earlier one of its id, no operation on a room takes a later room of the id out of
the map or cancels its TTL. -/
theorem createsFresh_spares_later (ttl : Nat) (events : List Event)
    (h : Runs.Along step CreatesFresh (.init ttl) events) :
    Runs.Along step SparesLater (.init ttl) events :=
  (Runs.throughout_of_along step_current (.init ttl) events (init_current ttl) h).along
    (J := fun _ => True) (fun _ _ _ _ => trivial) (fun s e _ hs => (current_spares s e hs).later) _ _ trivial

/-- A room closes by its TTL and is created again; then a user joins the new room. -/
def recreatedInOrder : List Event :=
  [.start 0 (.createRoom "r" (some ⟨"ws://kms", some 0⟩) 0), .advance 0,
   .start 1 (.fireTtl ("r", 3600000) 3600000), .advance 1, .advance 1, .advance 1, .advance 1,
   .advance 1, .advance 1, .advance 1, .advance 1, .advance 1, .advance 1,
   .start 0 (.createRoom "r" (some ⟨"ws://kms", some 1⟩) 3600001), .advance 0,
   .start 2 (.handleRoom "r" (.join "alice" (some 2))), .advance 2, .advance 2, .advance 2,
   .advance 2, .advance 2, .advance 2, .advance 2]

theorem recreatedInOrder_spares_later :
    Runs.Along step CreatesFresh (.init 3600) recreatedInOrder ∧
      Runs.Along step SparesLater (.init 3600) recreatedInOrder :=
  ⟨by decide +kernel, createsFresh_spares_later 3600 recreatedInOrder (by decide +kernel)⟩

/-- The TTL task has taken its entry but not yet released the room when alice joins. The
release takes the room out of the map, the room is created again, and alice's departure
from the old object empties that: it is about to be released once more. -/
def joinedWhileClosing : List Event :=
  [.start 0 (.createRoom "r" (some ⟨"ws://kms", some 0⟩) 0), .advance 0,
   .start 1 (.fireTtl ("r", 3600000) 3600000), .advance 1,
   .start 2 (.handleRoom "r" (.join "alice" (some 2))), .advance 2, .advance 2, .advance 2,
   .advance 2, .advance 2, .advance 2, .advance 2,
   .advance 1, .advance 1, .advance 1,
   .start 0 (.createRoom "r" (some ⟨"ws://kms", some 1⟩) 3600001), .advance 0,
   .advance 1, .advance 1, .advance 1, .advance 1, .advance 1, .advance 1, .advance 1, .advance 1]

/-- The second `deleteRoomCallBack` of the old object removes the new room and its TTL entry. -/
theorem second_callback_removes_later :
    ¬ Runs.Along step SparesLater (.init 3600) (joinedWhileClosing ++ [.advance 1]) := by
  intro h
  have hlast := ((Runs.along_append _ _ _ _ _).mp h).2.1
  have hspared := (hlast (.deleteRoomCallBack 0) [.departAll 0, .pipelineRelease 0, .exit (.room 0),
    .exit (.room 0), .pipelineRelease 0, .exit (.room 0)] 0 "r" 1 (by decide +kernel) rfl (by decide +kernel)
    (by decide)).1 (by decide +kernel)
  revert hspared
  decide +kernel

end MediaStaleRooms

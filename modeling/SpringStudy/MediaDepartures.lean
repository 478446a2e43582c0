import SpringStudy.MediaOffers

/-!
# Who leaves a room, and what is released

An endpoint that a participant holds is either still held after a departure or
has been released by it. `release` ends with an empty room, so it has released
everything. A departure changes the room and the two stores of the manager in a
way that depends on whether the user was a participant at all.
-/
namespace MediaDepartures

open Tables Outcomes MediaRoom Runs
open TtlCaches (remove)
open MediaRoomManager hiding Event step
open MediaMessages (Media)

/-! ## Endpoints held and endpoints released -/

def Call.endpoint? : Call → Option Endpoint
  | .endpointRelease e => some e
  | .joinRoomCallBack _ => none
  | .deleteRoomCallBack _ => none
  | .pipelineRelease _ => none

def released (calls : List Call) : List Endpoint := calls.filterMap Call.endpoint?

/-- The outgoing endpoint and the incoming ones. -/
def holds (p : Participant) : List Endpoint := p.outWebRtcEndpoint.toList ++ values p.presentInWebRtcPeer

def held (room : Room) : List Endpoint := (values room.userIdParticipants).flatMap holds

theorem released_append (calls calls' : List Call) :
    released (calls ++ calls') = released calls ++ released calls' :=
  List.filterMap_append

/-- The callbacks and the pipeline are no endpoints. -/
theorem released_closing (room : Room) (pipeline : Nat) :
    released [.deleteRoomCallBack room, .pipelineRelease pipeline] = [] := rfl

section
variable (p : Participant) (present : String)

theorem released_removeInWebRtcPeer :
    released (p.removeInWebRtcPeer present).2 = (p.presentInWebRtcPeer.lookup present).toList := by
  unfold Participant.removeInWebRtcPeer
  split
  · next h => rw [h]; rfl
  · next e h => rw [h]; rfl

theorem removeInWebRtcPeer_conserves_in :
    (released (p.removeInWebRtcPeer present).2 ++
      values (p.removeInWebRtcPeer present).1.presentInWebRtcPeer).Perm (values p.presentInWebRtcPeer) := by
  rw [released_removeInWebRtcPeer, removeInWebRtcPeer_fst]
  cases h : p.presentInWebRtcPeer.lookup present with
  | none =>
    rw [erase_absent _ _ h]
    exact List.Perm.refl _
  | some e => exact values_erase_perm _ present e h

theorem removeInWebRtcPeer_conserves :
    (released (p.removeInWebRtcPeer present).2 ++ holds (p.removeInWebRtcPeer present).1).Perm (holds p) := by
  have hin := removeInWebRtcPeer_conserves_in p present
  rw [removeInWebRtcPeer_fst] at hin ⊢
  exact (List.perm_append_comm_assoc _ _ _).trans
    (hin.append_left p.outWebRtcEndpoint.toList)

end

/-- The loop over the incoming endpoints leaves none of those it comes to. -/
theorem removeAll_in (p : Participant) (presents : List String) (x : String) :
    (forEach Participant.removeInWebRtcPeer p presents).1.presentInWebRtcPeer.lookup x =
      if x ∈ presents then none else p.presentInWebRtcPeer.lookup x := by
  induction presents generalizing p with
  | nil => rfl
  | cons present rest ih =>
    refine (ih (p.removeInWebRtcPeer present).1).trans ?_
    rw [removeInWebRtcPeer_fst, lookup_remove]
    by_cases hx : x = present <;> by_cases hr : x ∈ rest <;> simp [hx, hr]

/-- A participant releases each of its endpoints. -/
theorem participant_release_released (p : Participant) : (released p.release.2).Perm (holds p) := by
  have hempty : (forEach Participant.removeInWebRtcPeer p p.presentInWebRtcPeer.keys).1.presentInWebRtcPeer =
      ∅ := by
    apply eq_empty_of_lookup
    intro x
    rw [removeAll_in]
    split
    · rfl
    · next hx => exact AList.lookup_eq_none.mpr fun hmem => hx (AList.mem_keys.mp hmem)
  have hloop := forEach_conserves (fun q : Participant => values q.presentInWebRtcPeer) Call.endpoint?
    Participant.removeInWebRtcPeer removeInWebRtcPeer_conserves_in p p.presentInWebRtcPeer.keys
  rw [hempty] at hloop
  have hout : released (p.outWebRtcEndpoint.toList.map Call.endpointRelease) = p.outWebRtcEndpoint.toList := by
    cases p.outWebRtcEndpoint <;> rfl
  rw [Participant.release, released_append, hout]
  refine List.Perm.append_left _ ?_
  simpa [values, released] using hloop

/-! ## Departures -/

theorem removeParticipant_conserves (room : Room) (userId : String) :
    (released (room.removeParticipant userId).2 ++ held (room.removeParticipant userId).1).Perm (held room) := by
  simp only [Room.removeParticipant, held]
  cases h : room.userIdParticipants.lookup userId with
  | none =>
    rw [erase_absent _ _ h]
    exact List.Perm.refl _
  | some p =>
    have hvalues := (values_erase_perm room.userIdParticipants userId p h).flatMap_right holds
    rw [List.flatMap_cons] at hvalues
    exact ((participant_release_released p).append_right _).trans hvalues

theorem removeInWebRtcPeers_conserves (room : Room) (userId : String) :
    (released (room.removeInWebRtcPeers userId).2 ++ held (room.removeInWebRtcPeers userId).1).Perm
      (held room) := by
  have hcalls : released (room.removeInWebRtcPeers userId).2 =
      (values room.userIdParticipants).flatMap fun p => released (p.removeInWebRtcPeer userId).2 := by
    simp only [Room.removeInWebRtcPeers, released, List.filterMap_flatMap]
  have hheld : held (room.removeInWebRtcPeers userId).1 =
      (values room.userIdParticipants).flatMap fun p => holds (p.removeInWebRtcPeer userId).1 := by
    simp only [Room.removeInWebRtcPeers, held, values_mapValues, List.flatMap_map]
  rw [hcalls, hheld]
  refine (List.flatMap_append_perm _ _ _).trans ?_
  exact List.Perm.flatMap_left _ fun p _ => removeInWebRtcPeer_conserves p userId

theorem held_emptied (room : Room) : held room.emptied = [] := rfl

theorem leave_conserves (room : Room) (userId : String) :
    (released (room.leave userId).2 ++ held (room.leave userId).1).Perm (held room) := by
  have hremoved := removeParticipant_conserves room userId
  cases hl : room.isLast userId with
  | true =>
    rw [Room.removeParticipant_last room userId hl] at hremoved
    rw [Room.leave_last room userId hl, released_append, released_closing, List.append_nil]
    exact hremoved
  | false =>
    rw [Room.leave_others room userId hl, released_append, List.append_assoc]
    exact ((removeInWebRtcPeers_conserves _ userId).append_left _).trans hremoved

theorem departAll_eq (room : Room) (userIds : List String) :
    room.departAll userIds = forEach Room.leave room userIds := by
  induction userIds generalizing room with
  | nil => rw [Room.departAll]; rfl
  | cons userId rest ih =>
    rw [Room.departAll, ih]
    rfl

/-- Whatever the order of the departures, an endpoint is released by one of them or still held. -/
theorem departAll_conserves (room : Room) (userIds : List String) :
    (released (room.departAll userIds).2 ++ held (room.departAll userIds).1).Perm (held room) := by
  rw [departAll_eq]
  exact forEach_conserves held Call.endpoint? Room.leave leave_conserves room userIds

/-- `release` releases every endpoint as often as it is held. -/
theorem release_released (room : Room) : (released room.release.2).Perm (held room) := by
  have hall := departAll_conserves room room.userIdParticipants.keys
  have hempty : (room.departAll room.userIdParticipants.keys).1 = room.emptied := by
    have := Room.release_fst room
    rwa [Room.release] at this
  rw [hempty, held_emptied, List.append_nil] at hall
  have hcalls : released room.release.2 = released (room.departAll room.userIdParticipants.keys).2 := by
    rw [Room.release]
    simp only [released, List.cons_append, List.filterMap_cons, List.filterMap_append, List.filterMap_nil,
      Call.endpoint?, List.append_nil]
  rw [hcalls]
  exact hall

/-! ## Runs of one room -/

/-- The calls that bring endpoints into a room and take them out; `kurento` tells
whether an endpoint that is asked for can be built. -/
inductive Visit where
  | join (userId : String) (kurento : Bool)
  | joinWithOnlyIncoming (userId : String)
  | createInEp (userId present : String) (kurento : Bool)
  | leave (userId : String)

/-- The room, and the number of the next endpoint that Kurento builds. -/
structure Visited where
  room : Room
  next : Endpoint

def Visited.build (s : Visited) (kurento : Bool) : Option Endpoint := if kurento then some s.next else none

def visit (s : Visited) : Visit → Visited
  | .join userId kurento => ⟨(s.room.call (.join userId (s.build kurento))).1, s.next + 1⟩
  | .joinWithOnlyIncoming userId => ⟨s.room.joinWithOnlyIncoming userId, s.next⟩
  | .createInEp userId present kurento =>
    match (s.room.findParticipant userId).bind fun p => p.createInEp present (s.build kurento) with
    | none => s
    | some (p, _) =>
      ⟨{ s.room with userIdParticipants := s.room.userIdParticipants.insert userId p }, s.next + 1⟩
  | .leave userId => ⟨(s.room.leave userId).1, s.next⟩

/-- No endpoint is held twice, and the ones held have been built. -/
structure Distinct (s : Visited) : Prop where
  nodup : (held s.room).Nodup
  below : ∀ e ∈ held s.room, e < s.next

/-- At most the endpoint just built is new. -/
theorem Distinct.grow {s : Visited} (h : Distinct s) {room : Room}
    (hroom : (held room).Perm (held s.room) ∨ (held room).Perm (s.next :: held s.room)) :
    Distinct ⟨room, s.next + 1⟩ := by
  rcases hroom with hroom | hroom
  · refine ⟨hroom.nodup_iff.mpr h.nodup, fun e he => ?_⟩
    exact Nat.lt_succ_of_lt (h.below e (hroom.mem_iff.mp he))
  · constructor
    · refine hroom.nodup_iff.mpr (List.nodup_cons.mpr ⟨fun hmem => ?_, h.nodup⟩)
      exact Nat.lt_irrefl _ (h.below _ hmem)
    · intro e he
      rcases List.mem_cons.mp (hroom.mem_iff.mp he) with rfl | he
      · exact Nat.lt_succ_self _
      · exact Nat.lt_succ_of_lt (h.below e he)

theorem held_insert_absent {room : Room} {userId : String} (p : Participant)
    (h : room.userIdParticipants.lookup userId = none) :
    held { room with userIdParticipants := room.userIdParticipants.insert userId p } = holds p ++ held room := by
  simp only [held, values_insert, List.flatMap_cons]
  rw [erase_absent _ _ h]

theorem join_held (s : Visited) (userId : String) (kurento : Bool) :
    (held (s.room.call (.join userId (s.build kurento))).1).Perm (held s.room) ∨
      (held (s.room.call (.join userId (s.build kurento))).1).Perm (s.next :: held s.room) := by
  simp only [Room.call, Room.join]
  cases hp : s.room.userIdParticipants.lookup userId with
  | some p => exact .inl (List.Perm.refl _)
  | none =>
    cases kurento with
    | false => exact .inl (List.Perm.refl _)
    | true =>
      refine .inr (List.Perm.of_eq ?_)
      exact held_insert_absent ⟨userId, some s.next, ∅⟩ hp

theorem createInEp_held {s : Visited} {present : String} {kurento : Bool} {p p' : Participant}
    {e : Endpoint} (h : p.createInEp present (s.build kurento) = some (p', e)) :
    (holds p').Perm (holds p) ∨ (holds p').Perm (s.next :: holds p) := by
  unfold Participant.createInEp at h
  split at h
  · obtain ⟨rfl, -⟩ := Prod.mk.inj (Option.some.inj h)
    exact .inl (List.Perm.refl _)
  · cases h
  · next e' hnone hbuild =>
    obtain ⟨rfl, -⟩ := Prod.mk.inj (Option.some.inj h)
    refine .inr ?_
    cases kurento with
    | false => cases hbuild
    | true =>
      obtain rfl : s.next = e' := Option.some.inj hbuild
      simp only [holds, values_insert]
      rw [erase_absent _ _ hnone]
      exact List.perm_middle

theorem visit_distinct (s : Visited) (v : Visit) (h : Distinct s) : Distinct (visit s v) := by
  cases v with
  | join userId kurento => exact h.grow (join_held s userId kurento)
  | joinWithOnlyIncoming userId =>
    simp only [visit, Room.joinWithOnlyIncoming]
    split
    · exact h
    · next hnone =>
      have hsame : held { s.room with userIdParticipants :=
          s.room.userIdParticipants.insert userId ⟨userId, none, ∅⟩ } = held s.room :=
        held_insert_absent ⟨userId, none, ∅⟩ hnone
      refine ⟨?_, fun e he => h.below e ?_⟩
      · rw [hsame]
        exact h.nodup
      · rwa [hsame] at he
  | createInEp userId present kurento =>
    simp only [visit]
    split
    · exact h
    · next p' e hbind =>
      obtain ⟨p, hp, hin⟩ := Option.bind_eq_some_iff.mp hbind
      have hvalues := (values_erase_perm s.room.userIdParticipants userId p hp).flatMap_right holds
      rw [List.flatMap_cons] at hvalues
      refine h.grow ?_
      simp only [held, values_insert, List.flatMap_cons]
      rcases createInEp_held hin with hsame | hnew
      · exact .inl ((hsame.append_right _).trans hvalues)
      · exact .inr ((hnew.append_right _).trans (hvalues.cons s.next))
  | leave userId =>
    have hall := leave_conserves s.room userId
    constructor
    · exact (List.nodup_append.mp (hall.nodup_iff.mpr h.nodup)).2.1
    · exact fun e he => h.below e (hall.mem_iff.mp (List.mem_append_right _ he))

/-- `release` empties every room that its calls can lead to, and releases every
endpoint that somebody held there once, and no other. -/
theorem release_empties_and_releases_once (roomId kurentoUrl : String) (pipeline : Nat)
    (visits : List Visit) :
    let room := (run visit ⟨newRoom roomId kurentoUrl pipeline, 0⟩ visits).room
    room.release.1.userIdParticipants = ∅ ∧
      ∀ e, (released room.release.2).count e = if e ∈ held room then 1 else 0 := by
  intro room
  have hdistinct : Distinct (run visit ⟨newRoom roomId kurentoUrl pipeline, 0⟩ visits) :=
    run_invariant visit_distinct _ visits ⟨List.nodup_nil, fun e he => by cases he⟩
  refine ⟨by rw [Room.release_fst]; rfl, fun e => ?_⟩
  rw [(release_released room).count_eq]
  exact List.Nodup.count hdistinct.nodup

/-! ## Departures in the manager -/

section
variable {m : RoomManager} {x u : String} {r : RoomRef} {room : Room}

/-- The TTL entry of a room id, as both tables of the cache have it. -/
def ttlEntry (m : RoomManager) (x : String) : Option RoomRef × Option Nat :=
  (m.roomTtl.cache.lookup x, m.roomTtl.expirationTimes.lookup x)

/-- The calls that came after those of `m`. -/
def newCalls (m m' : RoomManager) : List (RoomRef × Call) := m'.trace.drop m.trace.length

/-- The endpoints on which the other participants receive `u`. -/
def incomingFor (room : Room) (u : String) : List Endpoint :=
  (values (room.userIdParticipants.erase u)).flatMap fun q => (q.presentInWebRtcPeer.lookup u).toList

/-- What should come of the departure of `u` from the room `r` with the id `x`. -/
structure Departs (m m' : RoomManager) (x : String) (r : RoomRef) (room : Room) (u : String) : Prop where
  closes : m'.roomIdRooms.lookup x = none ↔ room.userIdParticipants.keys = [u]
  absent : room.findParticipant u = none → m' = m
  /-- The participant goes, and the others no longer receive it. -/
  room' : ∀ p, room.findParticipant u = some p → ∃ room', m'.heap[r]? = some room' ∧
    room'.emptied = room.emptied ∧
    ∀ v, room'.findParticipant v = if v = u then none else
      (room.findParticipant v).map fun q => { q with presentInWebRtcPeer := q.presentInWebRtcPeer.erase u }
  /-- These endpoints are released; a room that closes calls its callback and releases its pipeline. -/
  calls : ∀ p, room.findParticipant u = some p → ∃ calls, newCalls m m' = calls.map (fun c => (r, c)) ∧
    (released calls).Perm (holds p ++ incomingFor room u) ∧
    calls.filter Call.isOuter = if room.userIdParticipants.keys = [u] then
      [.deleteRoomCallBack room.emptied, .pipelineRelease room.mediaPipeline] else []
  stays : room.userIdParticipants.keys ≠ [u] → m'.roomIdRooms = m.roomIdRooms ∧ m'.roomTtl = m.roomTtl
  others : (∀ r', r' ≠ r → m'.heap[r']? = m.heap[r']?) ∧
    ∀ y, y ≠ x → m'.roomIdRooms.lookup y = m.roomIdRooms.lookup y ∧ ttlEntry m' y = ttlEntry m y

/-- The user is a participant, or somebody else is and nobody receives the user. -/
def Expected (room : Room) (u : String) : Prop :=
  (room.findParticipant u).isSome = true ∨
    room.userIdParticipants.keys ≠ [] ∧
      ∀ v ∈ room.userIdParticipants.keys, ∀ q ∈ room.findParticipant v, q.presentInWebRtcPeer.lookup u = none

instance decidableExpected (room : Room) (u : String) : Decidable (Expected room u) :=
  inferInstanceAs (Decidable (_ ∨ _ ∧ ∀ v ∈ room.userIdParticipants.keys,
    ∀ q ∈ room.findParticipant v, _))

theorem isLast_iff_keys (room : Room) (u : String) :
    room.isLast u = true ↔ room.userIdParticipants.keys = [] ∨ room.userIdParticipants.keys = [u] := by
  rw [Room.isLast_iff, eq_empty_iff, AList.keys_erase, List.erase_eq_nil_iff]

theorem any_outer (q : Call → Bool) (hq : ∀ e, q (.endpointRelease e) = false) (calls : List Call) :
    calls.any q = (calls.filter Call.isOuter).any q := by
  rw [List.any_filter]
  congr 1
  funext c
  cases c <;> simp [Call.isOuter, hq]

/-- The manager after a departure. -/
theorem handleRoom_leave_eq (hx : m.roomIdRooms.lookup x = some r) (hr : m.heap[r]? = some room)
    (hid : room.roomId = x) :
    m.handleRoom x (.leave u) =
      { m with
        heap := m.heap.set r (room.leave u).1
        roomIdRooms := if room.isLast u then m.roomIdRooms.erase x else m.roomIdRooms
        roomTtl := if room.isLast u then (remove m.roomTtl x).1 else m.roomTtl
        trace := m.trace ++ (room.leave u).2.map fun c => (r, c) } := by
  have hdelete : (room.leave u).2.any Call.isDelete = room.isLast u := by
    rw [any_outer Call.isDelete fun _ => rfl, Room.leave_outer]
    cases room.isLast u <;> rfl
  have hcall : (room.leave u).2.any isCallBack = room.isLast u := by
    rw [any_outer isCallBack fun _ => rfl, Room.leave_outer]
    cases room.isLast u <;> rfl
  have habout : ∀ c ∈ (room.leave u).2, About x c := hid ▸ (leave_local room u).about
  simp only [RoomManager.handleRoom, hx]
  rw [onRoom_eq hr]
  simp only [Room.call]
  rw [performAll_eq _ _ x _ habout, hdelete, hcall]

theorem leave_findParticipant (room : Room) (u v : String) :
    (room.leave u).1.findParticipant v = if v = u then none else
      (room.findParticipant v).map fun q =>
        { q with presentInWebRtcPeer := q.presentInWebRtcPeer.erase u } := by
  unfold Room.findParticipant
  cases hl : room.isLast u with
  | true =>
    have hempty := (Room.isLast_iff room u).mp hl
    rw [Room.leave_last room u hl]
    split
    · rfl
    · next hv =>
      have hnone : (room.userIdParticipants.erase u).lookup v = none := by rw [hempty]; rfl
      rw [lookup_remove, if_neg hv] at hnone
      rw [hnone]
      rfl
  | false =>
    rw [Room.leave_others room u hl]
    simp only [Room.removeInWebRtcPeers, Room.removeParticipant, lookup_mapValues, lookup_remove]
    split
    · rfl
    · refine congrArg (fun f => Option.map f _) (funext fun q => ?_)
      have hin := congrArg Participant.presentInWebRtcPeer (removeInWebRtcPeer_fst q u)
      unfold Participant.removeInWebRtcPeer at hin ⊢
      split
      · next h => rw [erase_absent _ _ h]
      · rfl

/-- A participant who leaves releases its endpoints and those on which it is received. -/
theorem leave_released (room : Room) (u : String) (p : Participant) (hp : room.findParticipant u = some p) :
    (released (room.leave u).2).Perm (holds p ++ incomingFor room u) := by
  have hown : released (room.removeParticipant u).2 = released p.release.2 := by
    simp only [Room.removeParticipant]
    rw [show room.userIdParticipants.lookup u = some p from hp]
  cases hl : room.isLast u with
  | true =>
    have hempty : incomingFor room u = [] := by
      rw [incomingFor, (Room.isLast_iff room u).mp hl]
      rfl
    rw [Room.leave_last room u hl, released_append, released_closing, hown, hempty]
    simpa using participant_release_released p
  | false =>
    have hpeers : released ((room.removeParticipant u).1.removeInWebRtcPeers u).2 = incomingFor room u := by
      simp only [Room.removeInWebRtcPeers, Room.removeParticipant, incomingFor, released,
        List.filterMap_flatMap]
      refine congrArg (List.flatMap · _) (funext fun q => ?_)
      exact released_removeInWebRtcPeer q u
    rw [Room.leave_others room u hl, released_append, hown, hpeers]
    exact (participant_release_released p).append_right _

/-- Nobody leaves and nobody is received: nothing happens. -/
theorem leave_nothing (room : Room) (u : String) (habsent : room.findParticipant u = none)
    (hne : room.userIdParticipants.keys ≠ [])
    (hnone : ∀ v ∈ room.userIdParticipants.keys, ∀ q ∈ room.findParticipant v,
      q.presentInWebRtcPeer.lookup u = none) :
    room.isLast u = false ∧ room.leave u = (room, []) := by
  have hu : u ∉ room.userIdParticipants.keys := by
    rw [← AList.mem_keys]
    exact AList.lookup_eq_none.mp habsent
  have hlast : room.isLast u = false := by
    rw [← Bool.not_eq_true, isLast_iff_keys]
    rintro (hk | hk)
    · exact hne hk
    · exact hu (hk ▸ List.mem_singleton_self u)
  have hstay : ∀ q ∈ values room.userIdParticipants, q.removeInWebRtcPeer u = (q, []) := by
    intro q hq
    obtain ⟨v, hv⟩ := (mem_values_iff _ q).mp hq
    have hkey : v ∈ room.userIdParticipants.keys :=
      AList.mem_keys.mp (AList.lookup_isSome.mp (by rw [hv]; rfl))
    simp only [Participant.removeInWebRtcPeer, hnone v hkey q hv]
  have htable : mapValues (fun q => (q.removeInWebRtcPeer u).1) room.userIdParticipants =
      room.userIdParticipants := by
    apply AList.ext
    refine (List.map_congr_left fun e he => ?_).trans (List.map_id _)
    have hq := hstay e.2 (List.mem_map_of_mem he)
    simp only [hq, id]
  have hcalls : (values room.userIdParticipants).flatMap (fun q => (q.removeInWebRtcPeer u).2) = [] := by
    rw [List.flatMap_eq_nil_iff]
    intro q hq
    rw [hstay q hq]
  refine ⟨hlast, ?_⟩
  rw [Room.leave_others room u hlast]
  simp only [Room.removeInWebRtcPeers, Room.removeParticipant]
  rw [erase_absent _ _ habsent, htable, hcalls, show room.userIdParticipants.lookup u = none from habsent]
  rfl

theorem expected_of_departs (hx : m.roomIdRooms.lookup x = some r) (hr : m.heap[r]? = some room)
    (hid : room.roomId = x) (h : Departs m (m.handleRoom x (.leave u)) x r room u) : Expected room u := by
  cases hu : room.findParticipant u with
  | some p => exact .inl (by rw [hu]; rfl)
  | none =>
    refine .inr ⟨fun hk => ?_, fun v _ q hq => ?_⟩
    · -- an empty room closes all the same
      have hlast := (isLast_iff_keys room u).mpr (.inl hk)
      have hkeys := h.closes.mp (by rw [handleRoom_leave_eq hx hr hid, hlast]; simp)
      rw [hk] at hkeys
      cases hkeys
    · have hsame : (room.leave u).1 = room := by
        have hheap : (m.heap.set r (room.leave u).1)[r]? = m.heap[r]? := by
          have hall := congrArg (fun m => m.heap[r]?) (h.absent hu)
          rw [handleRoom_leave_eq hx hr hid] at hall
          exact hall
        rw [set_self hr, hr] at hheap
        exact Option.some.inj hheap
      have hne : v ≠ u := by
        rintro rfl
        rw [hu] at hq
        cases hq
      have hv := leave_findParticipant room u v
      rw [hsame, if_neg hne, hq, Option.map_some] at hv
      have hin := congrArg (fun q => q.presentInWebRtcPeer.lookup u) (Option.some.inj hv)
      simpa using hin

theorem departs_of_participant (hx : m.roomIdRooms.lookup x = some r) (hr : m.heap[r]? = some room)
    (hid : room.roomId = x) {p : Participant} (hp : room.findParticipant u = some p) :
    Departs m (m.handleRoom x (.leave u)) x r room u := by
  have hmem : u ∈ room.userIdParticipants.keys :=
    AList.mem_keys.mp (AList.lookup_isSome.mp (by rw [show room.userIdParticipants.lookup u = some p from hp]; rfl))
  have hlast : room.isLast u = decide (room.userIdParticipants.keys = [u]) := by
    rw [Bool.eq_iff_iff, isLast_iff_keys, decide_eq_true_eq]
    refine ⟨fun h => h.resolve_left fun hnil => ?_, .inr⟩
    rw [hnil] at hmem
    cases hmem
  rw [handleRoom_leave_eq hx hr hid, hlast]
  constructor
  · by_cases hk : room.userIdParticipants.keys = [u]
    · simp [hk]
    · simp [hk, hx]
  · intro hnone
    rw [hp] at hnone
    cases hnone
  · exact fun _ _ => ⟨_, set_self hr, Room.leave_emptied room u, leave_findParticipant room u⟩
  · intro p' hp'
    refine ⟨(room.leave u).2, by simp [newCalls], leave_released room u p' hp', ?_⟩
    rw [Room.leave_outer, hlast]
    simp
  · intro hk
    simp [hk]
  · refine ⟨fun r' hne => List.getElem?_set_ne (Ne.symm hne), fun y hy => ?_⟩
    by_cases hk : room.userIdParticipants.keys = [u]
    · simp [hk, hy, ttlEntry, remove]
    · simp [hk, ttlEntry]

theorem departs_of_outsider (hx : m.roomIdRooms.lookup x = some r) (hr : m.heap[r]? = some room)
    (hid : room.roomId = x) (habsent : room.findParticipant u = none)
    (hne : room.userIdParticipants.keys ≠ [])
    (hnone : ∀ v ∈ room.userIdParticipants.keys, ∀ q ∈ room.findParticipant v,
      q.presentInWebRtcPeer.lookup u = none) :
    Departs m (m.handleRoom x (.leave u)) x r room u := by
  obtain ⟨hlast, hleave⟩ := leave_nothing room u habsent hne hnone
  have hsame : m.handleRoom x (.leave u) = m := by
    rw [handleRoom_leave_eq hx hr hid, hlast, hleave, set_same hr]
    simp
  have hkeys : room.userIdParticipants.keys ≠ [u] := by
    intro hk
    rw [(isLast_iff_keys room u).mpr (.inr hk)] at hlast
    cases hlast
  rw [hsame]
  refine ⟨?_, fun _ => rfl, ?_, ?_, fun _ => ⟨rfl, rfl⟩, fun _ _ => rfl, fun _ _ => ⟨rfl, rfl⟩⟩
  · rw [hx]
    exact ⟨fun h => absurd h (by simp), fun h => absurd h hkeys⟩
  · intro p hp
    rw [habsent] at hp
    cases hp
  · intro p hp
    rw [habsent] at hp
    cases hp

theorem departs_iff_expected (hx : m.roomIdRooms.lookup x = some r) (hr : m.heap[r]? = some room)
    (hid : room.roomId = x) : Departs m (m.handleRoom x (.leave u)) x r room u ↔ Expected room u := by
  refine ⟨expected_of_departs hx hr hid, ?_⟩
  rintro (hsome | ⟨hne, hnone⟩)
  · obtain ⟨p, hp⟩ := Option.isSome_iff_exists.mp hsome
    exact departs_of_participant hx hr hid hp
  · cases hp : room.findParticipant u with
    | some p => exact departs_of_participant hx hr hid hp
    | none => exact departs_of_outsider hx hr hid hp hne hnone

end

/-- In every room of the server, a departure does what it should exactly for the
participants, and for outsiders whom nobody receives, in a room with somebody in it. -/
theorem leave_departs_iff_expected (ttl : Nat) (events : List MediaMessages.Event) (x u : String) (r : RoomRef)
    (room : Room)
    (hx : (run MediaMessages.step (Media.init ttl) events).server.rooms.roomIdRooms.lookup x = some r)
    (hr : (run MediaMessages.step (Media.init ttl) events).server.rooms.heap[r]? = some room) :
    Departs (run MediaMessages.step (Media.init ttl) events).server.rooms
        ((run MediaMessages.step (Media.init ttl) events).server.rooms.handleRoom x (.leave u)) x r room u ↔
      Expected room u := by
  obtain ⟨room', hr', hid⟩ := (MediaEndpoints.run_owned ttl events).stored x r hx
  obtain rfl : room = room' := Option.some.inj (hr.symm.trans hr')
  exact departs_iff_expected hx hr hid

/-- Alice is alone in her room, and leaves it. -/
theorem alice_departs :
    ∃ room, (run MediaMessages.step (Media.init 60) MediaOffers.aliceRoom).server.rooms.heap[0]? = some room ∧
      Departs (run MediaMessages.step (Media.init 60) MediaOffers.aliceRoom).server.rooms
        ((run MediaMessages.step (Media.init 60) MediaOffers.aliceRoom).server.rooms.handleRoom "a"
          (.leave "alice")) "a" 0 room "alice" := by
  have hsome : (run MediaMessages.step (Media.init 60) MediaOffers.aliceRoom).server.rooms.heap[0]?.isSome =
      true := by decide +kernel
  obtain ⟨room, hroom⟩ := Option.isSome_iff_exists.mp hsome
  have hexpected : ∀ room ∈ (run MediaMessages.step (Media.init 60) MediaOffers.aliceRoom).server.rooms.heap[0]?,
      Expected room "alice" := by decide +kernel
  exact ⟨room, hroom, (leave_departs_iff_expected 60 MediaOffers.aliceRoom "a" "alice" 0 room
    (by decide +kernel) hroom).mpr (hexpected room hroom)⟩

/-- Bob, who never joined, leaves: an empty room closes, and Alice, who asked to
receive Bob, loses the endpoint for it. -/
theorem outsider_leaves :
    let empty := (run MediaMessages.step (Media.init 60) (MediaOffers.aliceRoom.take 1)).server.rooms
    let received := (run MediaMessages.step (Media.init 60)
      (MediaOffers.bobOutside ++ [.offer "p1" MediaOffers.receiveBob true])).server.rooms
    (∃ room, empty.roomIdRooms.lookup "a" = some 0 ∧ empty.heap[0]? = some room ∧
      ¬ Departs empty (empty.handleRoom "a" (.leave "bob")) "a" 0 room "bob") ∧
    ∃ room, received.roomIdRooms.lookup "a" = some 0 ∧ received.heap[0]? = some room ∧
      ¬ Departs received (received.handleRoom "a" (.leave "bob")) "a" 0 room "bob" := by
  intro empty received
  constructor
  · obtain ⟨room, hroom⟩ := Option.isSome_iff_exists.mp (show empty.heap[0]?.isSome = true by decide +kernel)
    refine ⟨room, by decide +kernel, hroom, fun h => ?_⟩
    have hgone : (empty.handleRoom "a" (.leave "bob")).roomIdRooms.lookup "a" = none := by decide +kernel
    have hkeys : ∀ room ∈ empty.heap[0]?, room.userIdParticipants.keys ≠ ["bob"] := by decide +kernel
    exact hkeys room hroom (h.closes.mp hgone)
  · obtain ⟨room, hroom⟩ := Option.isSome_iff_exists.mp (show received.heap[0]?.isSome = true by decide +kernel)
    refine ⟨room, by decide +kernel, hroom, fun h => ?_⟩
    have habsent : ∀ room ∈ received.heap[0]?, room.findParticipant "bob" = none := by decide +kernel
    have htrace := congrArg (fun m => m.trace.length) (h.absent (habsent room hroom))
    revert htrace
    decide +kernel

end MediaDepartures

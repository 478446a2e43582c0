import Mathlib.Algebra.Order.Ring.Nat
import Mathlib.Algebra.BigOperators.Group.List.Basic
import SpringStudy.Tables
import SpringStudy.Outcomes
import SpringStudy.Runs

/-!
# Rooms and participants of the media server

`Room.leave` and `Room.release` call each other: `release` empties the room
through `leave`, and the last `leave` calls `release` again. Both are written
as in the source, with `departAll` for the loop `keySet().forEach(this::leave)`.
A method returns the changed object and the calls it makes to its callbacks
and to Kurento.
-/
namespace MediaRoom

open Tables Outcomes

/-- A Kurento `WebRtcEndpoint`, known by a number. -/
abbrev Endpoint := Nat

inductive WebRtcEndpointType where
  | outgoing
  | incoming
  | customOutgoing
  | customIncoming
  deriving DecidableEq, Repr

structure Participant where
  userId : String
  outWebRtcEndpoint : Option Endpoint
  presentInWebRtcPeer : Table String Endpoint
  deriving DecidableEq

structure Room where
  roomId : String
  kurentoUrl : String
  mediaPipeline : Nat
  userIdParticipants : Table String Participant
  deriving DecidableEq

/-- What a room calls: its two callbacks and the Kurento objects it owns. -/
inductive Call where
  | joinRoomCallBack (roomId : String)
  | deleteRoomCallBack (room : Room)
  | endpointRelease (e : Endpoint)
  | pipelineRelease (pipeline : Nat)
  deriving DecidableEq

def Participant.removeInWebRtcPeer (p : Participant) (present : String) : Participant × List Call :=
  match p.presentInWebRtcPeer.lookup present with
  | none => (p, [])
  | some e =>
    ({ p with presentInWebRtcPeer := p.presentInWebRtcPeer.erase present }, [.endpointRelease e])

def Participant.release (p : Participant) : Participant × List Call :=
  let q := forEach Participant.removeInWebRtcPeer p p.presentInWebRtcPeer.keys
  (q.1, p.outWebRtcEndpoint.toList.map Call.endpointRelease ++ q.2)

/-- `none` when the endpoint is not there and Kurento does not build it. -/
def Participant.createInEp (p : Participant) (present : String) (build : Option Endpoint) :
    Option (Participant × Endpoint) :=
  match p.presentInWebRtcPeer.lookup present, build with
  | some e, _ => some (p, e)
  | none, none => none
  | none, some e => some ({ p with presentInWebRtcPeer := p.presentInWebRtcPeer.insert present e }, e)

namespace Room

def findParticipant (room : Room) (userId : String) : Option Participant :=
  room.userIdParticipants.lookup userId

/-- The participants that publish. -/
def findParticipants (room : Room) : List Participant :=
  (values room.userIdParticipants).filter fun p => p.outWebRtcEndpoint.isSome

def findOtherParticipants (room : Room) (userId : String) : List Participant :=
  (room.findParticipants.filter fun p => p.userId ≠ userId).filter fun p => p.outWebRtcEndpoint.isSome

def findOtherParticipantsWithMonitoringUser (room : Room) (userId : String) : List Participant :=
  (values room.userIdParticipants).filter fun p => p.userId ≠ userId

/-- `userId_participants.isEmpty()`. -/
def isEmpty (room : Room) : Bool := room.userIdParticipants.keys.isEmpty

/-- The part of `leave` before the emptiness test: take the participant out
and release its endpoints. -/
def removeParticipant (room : Room) (userId : String) : Room × List Call :=
  ({ room with userIdParticipants := room.userIdParticipants.erase userId },
    match room.userIdParticipants.lookup userId with
    | none => []
    | some participant => participant.release.2)

/-- The other participants drop the endpoint on which they received `userId`. -/
def removeInWebRtcPeers (room : Room) (userId : String) : Room × List Call :=
  ({ room with userIdParticipants :=
      mapValues (fun p => (p.removeInWebRtcPeer userId).1) room.userIdParticipants },
    (values room.userIdParticipants).flatMap fun p => (p.removeInWebRtcPeer userId).2)

/-- `none` when Kurento does not build the endpoint of a new participant: the
exception leaves `computeIfAbsent` without an entry and the callback uncalled. -/
def join (room : Room) (userId : String) (build : Option Endpoint) : Option (Room × List Call) :=
  match room.userIdParticipants.lookup userId, build with
  | some _, _ => some (room, [.joinRoomCallBack room.roomId])
  | none, none => none
  | none, some e =>
    some ({ room with userIdParticipants := room.userIdParticipants.insert userId ⟨userId, some e, ∅⟩ },
      [.joinRoomCallBack room.roomId])

def joinWithOnlyIncoming (room : Room) (userId : String) : Room :=
  match room.userIdParticipants.lookup userId with
  | some _ => room
  | none => { room with userIdParticipants := room.userIdParticipants.insert userId ⟨userId, none, ∅⟩ }

mutual

def leave (room : Room) (userId : String) : Room × List Call :=
  if _h : (room.removeParticipant userId).1.isEmpty then
    ((release (room.removeParticipant userId).1).1,
      (room.removeParticipant userId).2 ++ (release (room.removeParticipant userId).1).2)
  else
    (((room.removeParticipant userId).1.removeInWebRtcPeers userId).1,
      (room.removeParticipant userId).2 ++
        ((room.removeParticipant userId).1.removeInWebRtcPeers userId).2)
termination_by 3
decreasing_by
  all_goals
    have hkeys : (room.removeParticipant userId).1.userIdParticipants.keys = [] := List.isEmpty_iff.mp _h
    rw [hkeys]
    decide

def release (room : Room) : Room × List Call :=
  ((departAll room room.userIdParticipants.keys).1,
    .deleteRoomCallBack room :: (departAll room room.userIdParticipants.keys).2 ++
      [.pipelineRelease room.mediaPipeline])
termination_by 3 * room.userIdParticipants.keys.length + 2
decreasing_by all_goals omega

/-- `keySet().forEach(this::leave)` over the keys met. -/
def departAll (room : Room) (userIds : List String) : Room × List Call :=
  match userIds with
  | [] => (room, [])
  | userId :: rest =>
    ((departAll (leave room userId).1 rest).1,
      (leave room userId).2 ++ (departAll (leave room userId).1 rest).2)
termination_by 3 * userIds.length + 1
decreasing_by
  all_goals
    rw [List.length_cons]
    omega

end

def releaseWithKurentoDown (room : Room) : Room × List Call := (room, [.deleteRoomCallBack room])

/-- The room with nobody in it. -/
def emptied (room : Room) : Room := { room with userIdParticipants := ∅ }

theorem isEmpty_iff (room : Room) : room.isEmpty = true ↔ room.userIdParticipants = ∅ := by
  rw [isEmpty, List.isEmpty_iff, eq_empty_iff]

theorem emptied_of_isEmpty (room : Room) (h : room.isEmpty = true) : room.emptied = room := by
  cases room
  simp_all [emptied, isEmpty_iff]

/-- `userId` is the only participant, or there is none. -/
def isLast (room : Room) (userId : String) : Bool := (room.removeParticipant userId).1.isEmpty

theorem isLast_iff (room : Room) (userId : String) :
    room.isLast userId = true ↔ room.userIdParticipants.erase userId = ∅ := by
  rw [isLast, isEmpty_iff]
  rfl

theorem removeParticipant_last (room : Room) (userId : String) (h : room.isLast userId = true) :
    (room.removeParticipant userId).1 = room.emptied := by
  rw [isLast_iff] at h
  simp [removeParticipant, emptied, h]

/-- `release` on an empty room: its loop finds nobody to leave. -/
theorem release_empty (room : Room) (h : room.isEmpty = true) :
    room.release = (room, [.deleteRoomCallBack room, .pipelineRelease room.mediaPipeline]) := by
  have hk : room.userIdParticipants.keys = [] := by simpa [isEmpty] using h
  rw [release, hk, departAll]
  rfl

/-- The departure that empties the room closes it. -/
theorem leave_last (room : Room) (userId : String) (h : room.isLast userId = true) :
    room.leave userId = (room.emptied, (room.removeParticipant userId).2 ++
      [.deleteRoomCallBack room.emptied, .pipelineRelease room.mediaPipeline]) := by
  have he := removeParticipant_last room userId h
  have hemp : (room.removeParticipant userId).1.isEmpty = true := h
  rw [leave, dif_pos hemp, release_empty _ hemp, he]
  rfl

theorem leave_others (room : Room) (userId : String) (h : room.isLast userId = false) :
    room.leave userId = (((room.removeParticipant userId).1.removeInWebRtcPeers userId).1,
      (room.removeParticipant userId).2 ++
        ((room.removeParticipant userId).1.removeInWebRtcPeers userId).2) := by
  have hemp : ¬ (room.removeParticipant userId).1.isEmpty = true := by simpa [isLast] using h
  rw [leave, dif_neg hemp]

end Room

/-- Nothing but the endpoint for `present` goes. -/
theorem removeInWebRtcPeer_fst (p : Participant) (present : String) : (p.removeInWebRtcPeer present).1 =
    { p with presentInWebRtcPeer := p.presentInWebRtcPeer.erase present } := by
  unfold Participant.removeInWebRtcPeer
  split
  · next h => rw [erase_absent _ _ h]
  · rfl

/-- Who is in the room after a departure was there before it. -/
theorem leave_lookup {room : Room} {userId u : String} {p' : Participant}
    (h : (room.leave userId).1.userIdParticipants.lookup u = some p') :
    ∃ p, room.userIdParticipants.lookup u = some p ∧
      p' = { p with presentInWebRtcPeer := p.presentInWebRtcPeer.erase userId } := by
  cases hl : room.isLast userId with
  | true =>
    rw [Room.leave_last room userId hl] at h
    cases h
  | false =>
    rw [Room.leave_others room userId hl] at h
    simp only [Room.removeInWebRtcPeers, Room.removeParticipant, lookup_mapValues] at h
    obtain ⟨p, hp, rfl⟩ := Option.map_eq_some_iff.mp h
    exact ⟨p, (lookup_remove_eq_some.mp hp).2, removeInWebRtcPeer_fst p userId⟩

/-- Every call but the release of an endpoint. -/
def Call.isOuter : Call → Bool
  | .endpointRelease _ => false
  | _ => true

theorem removeInWebRtcPeer_outer (p : Participant) (present : String) :
    (p.removeInWebRtcPeer present).2.filter Call.isOuter = [] := by
  unfold Participant.removeInWebRtcPeer
  split <;> simp [Call.isOuter]

theorem removeAll_outer (p : Participant) (presents : List String) :
    (forEach Participant.removeInWebRtcPeer p presents).2.filter Call.isOuter = [] := by
  induction presents generalizing p with
  | nil => rfl
  | cons present rest ih =>
    rw [forEach_cons_snd, List.filter_append, removeInWebRtcPeer_outer, ih]
    rfl

theorem participantRelease_outer (p : Participant) : p.release.2.filter Call.isOuter = [] := by
  simp only [Participant.release, List.filter_append, removeAll_outer, List.append_nil]
  cases p.outWebRtcEndpoint <;> simp [Call.isOuter]

namespace Room

theorem removeParticipant_outer (room : Room) (userId : String) :
    (room.removeParticipant userId).2.filter Call.isOuter = [] := by
  simp only [removeParticipant]
  split
  · rfl
  · exact participantRelease_outer _

theorem removeInWebRtcPeers_outer (room : Room) (userId : String) :
    (room.removeInWebRtcPeers userId).2.filter Call.isOuter = [] := by
  simp only [removeInWebRtcPeers, List.filter_flatMap, List.flatMap_eq_nil_iff]
  intro p _
  exact removeInWebRtcPeer_outer p userId

theorem leave_outer (room : Room) (userId : String) :
    (room.leave userId).2.filter Call.isOuter = if room.isLast userId then
      [.deleteRoomCallBack room.emptied, .pipelineRelease room.mediaPipeline] else [] := by
  cases h : room.isLast userId with
  | true =>
    rw [leave_last room userId h, List.filter_append, removeParticipant_outer]
    simp [Call.isOuter]
  | false =>
    rw [leave_others room userId h, List.filter_append, removeParticipant_outer,
      removeInWebRtcPeers_outer]
    rfl

/-- A departure that leaves somebody keeps the other keys, in their order. -/
theorem leave_others_keys (room : Room) (userId : String) (h : room.isLast userId = false) :
    (room.leave userId).1.userIdParticipants.keys = room.userIdParticipants.keys.erase userId := by
  rw [leave_others room userId h]
  simp [removeInWebRtcPeers, removeParticipant]

theorem leave_emptied (room : Room) (userId : String) :
    (room.leave userId).1.emptied = room.emptied := by
  cases h : room.isLast userId with
  | true => rw [leave_last room userId h]; rfl
  | false => rw [leave_others room userId h]; rfl

theorem isLast_eq_of_keys (room : Room) (userId : String) (rest : List String)
    (h : room.userIdParticipants.keys = userId :: rest) : room.isLast userId = rest.isEmpty := by
  simp [isLast, isEmpty, removeParticipant, h]

/-- The loop of `release` over a room with somebody in it: every key leaves, and
exactly the last departure closes the room once more. -/
theorem departAll_keys (room : Room) (userIds : List String)
    (h : room.userIdParticipants.keys = userIds) (hne : userIds ≠ []) :
    (room.departAll userIds).1 = room.emptied ∧
    (room.departAll userIds).2.filter Call.isOuter =
      [.deleteRoomCallBack room.emptied, .pipelineRelease room.mediaPipeline] := by
  induction userIds generalizing room with
  | nil => exact absurd rfl hne
  | cons userId rest ih =>
    have hlast := isLast_eq_of_keys room userId rest h
    rw [departAll, List.filter_append, leave_outer, hlast]
    cases rest with
    | nil =>
      have hl : room.isLast userId = true := hlast
      rw [leave_last room userId hl, departAll]
      exact ⟨rfl, rfl⟩
    | cons next rest =>
      have hl : room.isLast userId = false := hlast
      have hkeys : (room.leave userId).1.userIdParticipants.keys = next :: rest := by
        rw [leave_others_keys room userId hl, h, List.erase_cons_head]
      obtain ⟨hroom, hcalls⟩ := ih (room.leave userId).1 hkeys (by simp)
      have hpipe : (room.leave userId).1.mediaPipeline = room.mediaPipeline :=
        (congrArg Room.mediaPipeline (leave_emptied room userId) :)
      rw [leave_emptied] at hroom hcalls
      rw [hpipe] at hcalls
      refine ⟨hroom, ?_⟩
      simpa using hcalls

/-- `release` leaves the room empty, however many participants it had. -/
theorem release_fst (room : Room) : room.release.1 = room.emptied := by
  cases h : room.isEmpty with
  | true => rw [release_empty room h, emptied_of_isEmpty room h]
  | false =>
    have hne : room.userIdParticipants.keys ≠ [] := by simpa [isEmpty] using h
    rw [release]
    exact (departAll_keys room _ rfl hne).1

/-- The calls of `release`: an occupied room is closed twice, once before the
loop and once by the last departure inside it. -/
theorem release_outer (room : Room) :
    room.release.2.filter Call.isOuter = if room.isEmpty then
      [.deleteRoomCallBack room, .pipelineRelease room.mediaPipeline]
    else [.deleteRoomCallBack room, .deleteRoomCallBack room.emptied,
      .pipelineRelease room.mediaPipeline, .pipelineRelease room.mediaPipeline] := by
  cases h : room.isEmpty with
  | true => rw [release_empty room h]; rfl
  | false =>
    have hne : room.userIdParticipants.keys ≠ [] := by simpa [isEmpty] using h
    rw [release]
    have hcalls := (departAll_keys room _ rfl hne).2
    simp only [List.cons_append, List.filter_cons, List.filter_append, hcalls]
    simp [Call.isOuter]

end Room

/-- The calls a room receives from its manager. -/
inductive RoomOp where
  | join (userId : String) (build : Option Endpoint)
  | joinWithOnlyIncoming (userId : String)
  | leave (userId : String)
  | release
  deriving DecidableEq

/-- One call on the room. A `join` whose endpoint is not built changes nothing. -/
def Room.call (room : Room) : RoomOp → Room × List Call
  | .join userId build => (room.join userId build).getD (room, [])
  | .joinWithOnlyIncoming userId => (room.joinWithOnlyIncoming userId, [])
  | .leave userId => room.leave userId
  | .release => room.release

def Call.isDelete : Call → Bool
  | .deleteRoomCallBack _ => true
  | _ => false

def Call.isPipelineRelease : Call → Bool
  | .pipelineRelease _ => true
  | _ => false

/-- A call that closes the room: `release`, or the departure of the last participant. -/
def Room.isClosing (room : Room) : RoomOp → Bool
  | .leave userId => room.isLast userId
  | .release => true
  | _ => false

/-- How often one call closes the room. -/
def Room.closings (room : Room) : RoomOp → Nat
  | .leave userId => if room.isLast userId then 1 else 0
  | .release => if room.isEmpty then 1 else 2
  | _ => 0

theorem join_outer (room room' : Room) (userId : String) (build : Option Endpoint)
    (calls : List Call) (h : room.join userId build = some (room', calls)) :
    calls = [.joinRoomCallBack room.roomId] := by
  unfold Room.join at h
  split at h
  · simp only [Option.some.injEq, Prod.mk.injEq] at h
    exact h.2.symm
  · cases h
  · simp only [Option.some.injEq, Prod.mk.injEq] at h
    exact h.2.symm

theorem countP_outer (q : Call → Bool) (hq : ∀ e, q (.endpointRelease e) = false) (calls : List Call) :
    calls.countP q = (calls.filter Call.isOuter).countP q := by
  rw [List.countP_filter]
  apply List.countP_congr
  intro c _
  cases c <;> simp [Call.isOuter, hq]

/-- Any kind of call that one closing makes once is made once per closing. -/
theorem call_count (q : Call → Bool) (he : ∀ e, q (.endpointRelease e) = false)
    (hj : ∀ roomId, q (.joinRoomCallBack roomId) = false)
    (hone : ∀ room p, [Call.deleteRoomCallBack room, .pipelineRelease p].countP q = 1)
    (room : Room) (op : RoomOp) : (room.call op).2.countP q = room.closings op := by
  rw [countP_outer q he]
  cases op with
  | join userId build =>
    cases h : room.join userId build with
    | none => simp [Room.call, h, Room.closings]
    | some q' =>
      have hc := join_outer room q'.1 userId build q'.2 h
      simp [Room.call, h, hc, Room.closings, Call.isOuter, hj]
  | joinWithOnlyIncoming userId => simp [Room.call, Room.closings]
  | leave userId =>
    rw [Room.call, Room.leave_outer, Room.closings]
    split
    · exact hone _ _
    · rfl
  | release =>
    rw [Room.call, Room.release_outer, Room.closings]
    split
    · exact hone _ _
    · have h₁ := hone room room.mediaPipeline
      have h₂ := hone room.emptied room.mediaPipeline
      simp only [List.countP_cons, List.countP_nil] at h₁ h₂ ⊢
      omega

theorem call_deletes (room : Room) (op : RoomOp) :
    (room.call op).2.countP Call.isDelete = room.closings op :=
  call_count Call.isDelete (fun _ => rfl) (fun _ => rfl) (fun _ _ => rfl) room op

theorem call_pipelineReleases (room : Room) (op : RoomOp) :
    (room.call op).2.countP Call.isPipelineRelease = room.closings op :=
  call_count Call.isPipelineRelease (fun _ => rfl) (fun _ => rfl) (fun _ _ => rfl) room op

/-! ## Whole runs of calls on one room -/

/-- The calls a room makes during a run of calls on it. -/
def Room.callsOf (room : Room) (ops : List RoomOp) : List Call := (forEach Room.call room ops).2

/-- Every call of the run with the room as it was before that call. -/
def Room.callHistory (room : Room) (ops : List RoomOp) : List (Room × RoomOp) :=
  Runs.history (fun r op => (r.call op).1) room ops

/-- The number of closings of a run is the sum of what its calls close. -/
theorem callsOf_count (q : Call → Bool)
    (hq : ∀ (room : Room) op, (room.call op).2.countP q = room.closings op)
    (room : Room) (ops : List RoomOp) :
    (room.callsOf ops).countP q = ((room.callHistory ops).map fun p => p.1.closings p.2).sum := by
  induction ops generalizing room with
  | nil => rfl
  | cons op ops ih =>
    have ih := ih (room.call op).1
    simp only [Room.callsOf, Room.callHistory] at ih
    simp [Room.callsOf, Room.callHistory, Runs.history, List.countP_append, hq, ih]

/-- A run that closes the room calls the delete callback once and releases the
media pipeline once. -/
def ClosedOnce (room : Room) (ops : List RoomOp) : Prop :=
  0 < (room.callsOf ops).countP Call.isDelete →
    (room.callsOf ops).countP Call.isDelete = 1 ∧
    (room.callsOf ops).countP Call.isPipelineRelease = 1

/-- At most one call of the run closes the room, and `release` is only called
on a room that everybody has left. -/
def ClosesByLastLeave (room : Room) (ops : List RoomOp) : Prop :=
  (room.callHistory ops).countP (fun p => p.1.isClosing p.2) ≤ 1 ∧
  ∀ p ∈ room.callHistory ops, p.2 = .release → p.1.isEmpty = true

theorem closings_zero_iff (room : Room) (op : RoomOp) :
    room.closings op = 0 ↔ room.isClosing op = false := by
  cases op with
  | release => simp only [Room.closings, Room.isClosing]; split <;> simp
  | leave userId => simp [Room.closings, Room.isClosing]
  | _ => simp [Room.closings, Room.isClosing]

theorem closings_le_one_iff (room : Room) (op : RoomOp) :
    room.closings op ≤ 1 ↔ (op = .release → room.isEmpty = true) := by
  cases op with
  | release => cases h : room.isEmpty <;> simp [Room.closings, h]
  | leave userId => simp only [Room.closings]; split <;> simp
  | _ => simp [Room.closings]

theorem closings_sum_zero_iff (history : List (Room × RoomOp)) :
    (history.map fun p => p.1.closings p.2).sum = 0 ↔
      history.countP (fun p => p.1.isClosing p.2) = 0 := by
  induction history with
  | nil => rfl
  | cons p rest ih =>
    have hz := closings_zero_iff p.1 p.2
    simp only [List.map_cons, List.sum_cons, List.countP_cons, Nat.add_eq_zero_iff, ih, hz]
    cases p.1.isClosing p.2 <;> simp

/-- A sum of closings is at most one exactly when at most one call closes and none closes twice. -/
theorem closings_sum_le_one_iff (history : List (Room × RoomOp)) :
    (history.map fun p => p.1.closings p.2).sum ≤ 1 ↔
      history.countP (fun p => p.1.isClosing p.2) ≤ 1 ∧
      ∀ p ∈ history, p.2 = .release → p.1.isEmpty = true := by
  induction history with
  | nil => simp
  | cons p rest ih =>
    have hz := closings_zero_iff p.1 p.2
    have ho := closings_le_one_iff p.1 p.2
    have hrest := closings_sum_zero_iff rest
    simp only [List.map_cons, List.sum_cons, List.countP_cons, List.forall_mem_cons, ← ho]
    cases hc : p.1.isClosing p.2 with
    | false =>
      have hzero := hz.mpr hc
      simp only [hzero, Nat.zero_add, Nat.zero_le, true_and, Bool.false_eq_true, ↓reduceIte, Nat.add_zero]
      exact ih
    | true =>
      have hpos : p.1.closings p.2 ≠ 0 := by rw [ne_eq, hz, hc]; simp
      simp only [↓reduceIte]
      constructor
      · intro h
        have hs : (rest.map fun p => p.1.closings p.2).sum = 0 := by omega
        have hall := (ih.mp (by omega)).2
        exact ⟨by rw [hrest.mp hs], by omega, hall⟩
      · rintro ⟨hcount, hle, -⟩
        have hs := hrest.mpr (by omega)
        omega

/-- A room is closed once in every run exactly when it is closed by a departure
that empties it, and by nothing after that. -/
theorem closedOnce_iff (room : Room) (ops : List RoomOp) :
    ClosedOnce room ops ↔ ClosesByLastLeave room ops := by
  rw [ClosesByLastLeave, ← closings_sum_le_one_iff, ClosedOnce,
    callsOf_count _ call_deletes, callsOf_count _ call_pipelineReleases]
  omega

/-- A room as `createRoom` builds it. -/
def newRoom (roomId kurentoUrl : String) (pipeline : Nat) : Room := ⟨roomId, kurentoUrl, pipeline, ∅⟩

/-- A monitor is in the room when its TTL releases it: two callbacks. -/
theorem ttlRelease_closes_twice :
    ¬ ClosedOnce (newRoom "r" "ws://kms" 0) [.joinWithOnlyIncoming "monitor", .release] := by
  unfold ClosedOnce
  decide +kernel

end MediaRoom

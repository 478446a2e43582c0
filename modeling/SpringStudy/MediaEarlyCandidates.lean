import Mathlib.Data.List.Forall2
import SpringStudy.MediaCandidates
import SpringStudy.MediaReleases
import SpringStudy.MediaResources

/-!
# The endpoint that a candidate waits for

A buffer keeps the candidates of a room, a user and a present user, but not the
type of endpoint that each of them is for. Here every candidate is followed from
its message to the endpoint it is added to. An offer empties the whole buffer
into its own endpoint, so what waits there has to be for an endpoint of the type
of the offer.
-/
namespace MediaEarlyCandidates

open Tables Outcomes Runs MediaRoom MediaBuffer MediaMessages MediaEndpoints MediaCandidates
open MediaRoomManager hiding Event step
open MediaSession hiding Event step
open MediaSocket hiding Event step handle
open MediaOffers (AllRooms Keyed keyed_lasting entered_allRooms joinConference_eq)
open MediaPublishers (createInEp_fields)
open MediaBufferIndex (getCandidateBuffer_absent lookup_foldl_erase)
open MediaReleases (step_moves handleOffer_buffers handleCandidate_buffers)
open MediaDepartures (holds held)
open MediaResources (Accounted step_accounted init_accounted heldBy)

/-! ## Candidates that are followed -/

/-- A candidate message as its buffer gets it, with the type that the buffer does not keep. -/
structure Arrival where
  key : BufferKey
  type : Option WebRtcEndpointType
  candidate : IceCandidate
  deriving DecidableEq, Repr

/-- The server, and the candidates that wait in its buffers in the order in which they came. -/
structure Watched where
  media : Media
  held : List Arrival

def arrival (s : Server) : Event → Option Arrival
  | .candidate user message _ => (s.sessions.findSessionInfo user).map fun info =>
      ⟨⟨roomOf info message.roomId, info.userId, message.present⟩, message.type, message.iceCandidate⟩
  | _ => none

/-- The buffer of the candidate is there and has not been flushed. -/
def waits (m : BufferManger) (a : Arrival) : Bool :=
  ((m.bufferMap.lookup a.key).map fun b => !b.flush).getD false

/-- Those that wait, and the one that the event brings. -/
def candidates (w : Watched) (e : Event) : List Arrival := w.held ++ (arrival w.media.server e).toList

/-- Those that wait no longer once the event has been handled. -/
def leaving (w : Watched) (e : Event) : List Arrival :=
  (candidates w e).filter fun a => !waits (step w.media e).server.buffers a

/-- The endpoint that the candidate belongs to: the one of its user, for its type and present user. -/
def endpointOf (m : RoomManager) (a : Arrival) : Option Endpoint :=
  (a.key.roomId.bind m.roomIdRooms.lookup).bind fun r => (m.heap[r]?).bind fun room =>
    (room.findParticipant a.key.userId).bind fun p => peerOf p a.type a.key.present

/-- What the event adds to endpoints are candidates that wait no longer, in their order and
each on the endpoint that it belongs to. -/
def Placed (w : Watched) (e : Event) : Prop :=
  List.SublistForall₂ (fun p a => endpointOf (step w.media e).server.rooms a = some p.1 ∧ a.candidate = p.2)
    (adds ((step w.media e).server.media.drop w.media.server.media.length)) (leaving w e)

section
variable {s t t' : Server} {user x : String} {info : SessionInfo} {r : RoomRef} {room : Room}
  {offer : OfferMessage} {build : Option Endpoint} {epType : WebRtcEndpointType} {e : Endpoint}

end

/-! ## The buffers hold what is followed -/

/-- The candidates for the buffer of the key. -/
def under (key : BufferKey) (held : List Arrival) : List Arrival := held.filter fun a => a.key = key

structure Lockstep (m : BufferManger) (held : List Arrival) : Prop where
  waiting : ∀ a ∈ held, waits m a = true
  buffers : ∀ key b, m.bufferMap.lookup key = some b → b.buffer = (under key held).map Arrival.candidate

theorem waits_eq {m : BufferManger} {a : Arrival} {b : CandidateBuffer} (h : m.bufferMap.lookup a.key = some b) :
    waits m a = !b.flush := by
  simp [waits, h]

section
variable {m m' : BufferManger} {held all : List Arrival}

/-- Nothing waits in a buffer that has been flushed, and everything in one that has not. -/
theorem under_waiting {key : BufferKey} {b : CandidateBuffer} (hb : m.bufferMap.lookup key = some b) :
    under key (all.filter (waits m)) = if b.flush then [] else under key all := by
  unfold under
  rw [List.filter_filter]
  split
  · next hflush =>
    refine List.filter_eq_nil_iff.mpr fun a _ => ?_
    simp only [Bool.and_eq_true, decide_eq_true_eq, not_and]
    rintro rfl
    simp [waits_eq hb, hflush]
  · next hflush =>
    refine List.filter_congr fun a _ => ?_
    by_cases hkey : a.key = key
    · subst hkey
      simp [waits_eq hb, hflush]
    · simp [hkey]

/-- What waits is in its buffer in the order of arrival. -/
theorem lockstep_of_buffers (h : ∀ key b, m.bufferMap.lookup key = some b →
    b.buffer = if b.flush then [] else (under key all).map Arrival.candidate) :
    Lockstep m (all.filter (waits m)) := by
  refine ⟨fun a ha => (List.mem_filter.mp ha).2, fun key b hb => ?_⟩
  rw [h key b hb, under_waiting hb]
  split <;> rfl

theorem Lockstep.filter_waits (h : Lockstep m held) : held.filter (waits m) = held :=
  List.filter_eq_self.mpr h.waiting

theorem Lockstep.buffer_eq (h : Lockstep m held) {key : BufferKey} {b : CandidateBuffer}
    (hb : m.bufferMap.lookup key = some b) :
    b.buffer = if b.flush then [] else (under key held).map Arrival.candidate := by
  have hunder : under key (held.filter (waits m)) = _ := under_waiting hb
  rw [h.filter_waits] at hunder
  split
  · next hflush =>
    rw [h.buffers key b hb, hunder, if_pos hflush]
    rfl
  · exact h.buffers key b hb

/-- A new buffer is empty, and nothing waits for it. -/
theorem Lockstep.getCandidateBuffer (h : Lockstep m held) (key : BufferKey) :
    (m.getCandidateBuffer key).2.buffer = (under key held).map Arrival.candidate := by
  cases hb : m.bufferMap.lookup key with
  | some b =>
    rw [getCandidateBuffer_present hb]
    exact h.buffers key b hb
  | none =>
    have hnone : under key held = [] := by
      refine List.filter_eq_nil_iff.mpr fun a ha => ?_
      have hwaits := h.waiting a ha
      simp only [decide_eq_true_eq]
      rintro rfl
      simp [waits, hb] at hwaits
    rw [getCandidateBuffer_absent hb, hnone]
    rfl

/-- Buffers that are taken away take with them what waits in them. -/
theorem Lockstep.shrink (h : Lockstep m held)
    (hm : ∀ key b, m'.bufferMap.lookup key = some b → m.bufferMap.lookup key = some b) :
    Lockstep m' (held.filter (waits m')) :=
  lockstep_of_buffers fun key b hb => h.buffer_eq (hm key b hb)

theorem Lockstep.flush (h : Lockstep m held) (key : BufferKey) :
    Lockstep (m.flushBuffer key).1 (held.filter (waits (m.flushBuffer key).1)) := by
  refine lockstep_of_buffers fun k b hb => ?_
  by_cases hk : k = key
  · rw [hk, lookup_flushBuffer] at hb
    obtain rfl := Option.some.inj hb
    rfl
  · rw [flushBuffer_others m key k hk] at hb
    exact h.buffer_eq hb

theorem Lockstep.cache (h : Lockstep m held) (a : Arrival) :
    Lockstep (m.cache a.key a.candidate).1 ((held ++ [a]).filter (waits (m.cache a.key a.candidate).1)) := by
  refine lockstep_of_buffers fun k b hb => ?_
  by_cases hk : k = a.key
  · subst hk
    rw [lookup_cache] at hb
    obtain rfl := Option.some.inj hb
    unfold CandidateBuffer.cache
    split
    · next hflush =>
      -- only a buffer that is in the map has been flushed
      cases hold : m.bufferMap.lookup a.key with
      | none =>
        rw [getCandidateBuffer_absent hold] at hflush
        cases hflush
      | some b =>
        rw [getCandidateBuffer_present hold] at hflush ⊢
        exact (h.buffer_eq hold).trans (if_pos hflush)
    · next hflush =>
      show (m.getCandidateBuffer a.key).2.buffer ++ [a.candidate] = _
      rw [h.getCandidateBuffer a.key]
      simp [under, List.filter_append]
  · rw [cache_others m a.key k a.candidate hk] at hb
    rw [h.buffer_eq hb]
    simp [under, List.filter_append, Ne.symm hk]

end

theorem Placed.mem {w : Watched} {e : Event} (h : Placed w e) {p : Endpoint × IceCandidate}
    (hp : p ∈ adds ((step w.media e).server.media.drop w.media.server.media.length)) :
    ∃ a ∈ leaving w e, endpointOf (step w.media e).server.rooms a = some p.1 ∧ a.candidate = p.2 := by
  unfold Placed at h
  generalize adds _ = added at h hp
  generalize leaving w e = left at h
  induction h with
  | nil => cases hp
  | cons hpa _ ih =>
    rcases List.mem_cons.mp hp with rfl | hp
    · exact ⟨_, List.mem_cons_self, hpa⟩
    · obtain ⟨a, ha, hap⟩ := ih hp
      exact ⟨a, List.mem_cons_of_mem _ ha, hap⟩
  | cons_right _ ih =>
    obtain ⟨a, ha, hap⟩ := ih hp
    exact ⟨a, List.mem_cons_of_mem _ ha, hap⟩

section
variable {w : Watched}

end

/-! ## Whole runs -/

end MediaEarlyCandidates

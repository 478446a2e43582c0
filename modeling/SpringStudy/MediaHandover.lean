import SpringStudy.MediaEndpoints
import SpringStudy.Handover

/-!
# Candidates that race with their offer

The calls of `handleCandidate` and `handleOffer` for one room, user and present
user, each in its own thread. Caching a candidate and flushing the buffer take
the buffer's lock for one step; what follows runs under the monitor of the
room. Seen from the buffer, the threads hand the candidates over to the
endpoint.
-/
namespace MediaHandover

open Tables Outcomes Threads Pools Handover MediaRoom MediaBuffer MediaMessages MediaEndpoints Runs
open MediaRoomManager hiding Event step
open MediaSession hiding Event step
open MediaSocket hiding Event step handle
open MediaMessages hiding Event step handle
open Handover hiding Body Call Frame Store effect program

/-- What the calls have in common: the session, its room and the endpoint they are for. -/
structure Key where
  user : String
  info : SessionInfo
  roomId : String
  room : RoomRef
  type : WebRtcEndpointType
  present : Option String

namespace Key

def buffer (k : Key) : BufferKey := ⟨some k.roomId, k.info.userId, k.present⟩

def offer (k : Key) (sdp : String) : OfferMessage := ⟨some k.roomId, some k.type, k.present, sdp⟩

def candidate (k : Key) (c : IceCandidate) : CandidateMessage := ⟨some k.roomId, some k.type, k.present, c⟩

/-- The endpoint that the participant has for the key. -/
def endpointOf (k : Key) (p : Participant) : Option Endpoint := peerOf p (some k.type) k.present

def endpoint (k : Key) (s : Server) : Option Endpoint :=
  (s.rooms.heap[k.room]?).bind fun room => (room.findParticipant k.info.userId).bind k.endpointOf

end Key

/-! ## The frames of a call -/

/-- `build` is the endpoint that Kurento builds if the call asks for one. -/
inductive Call where
  | candidate (c : IceCandidate) (build : Endpoint)
  | offer (sdp : String) (build : Endpoint)
  deriving DecidableEq

inductive Frame where
  /-- `getCandidateBuffer(...).cache(iceCandidate)`. -/
  | cache (c : IceCandidate) (build : Endpoint)
  /-- `synchronized (room)`. -/
  | enter (call : Call)
  | run (call : Call)
  /-- `getCandidateBuffer(...).flush()`. -/
  | flush (e : Endpoint)
  | addIceCandidate (e : Endpoint) (c : IceCandidate)
  /-- The switch at the end of `handleOffer`. -/
  | conclude (e : Endpoint)
  | exit
  deriving DecidableEq

structure Stores where
  server : Server
  /-- The accesses to the buffer of the key. -/
  log : List (Access IceCandidate)

section
variable (k : Key)

def getWebRtcPeerDefaultCreate (s : Server) (build : Endpoint) :
    Except Failure (Server × WebRtcEndpointType × Endpoint) :=
  s.getWebRtcPeerDefaultCreate k.room k.info.userId (some k.type) k.present (some build)

/-- `room.join(userId)` of a conference user that begins to publish. -/
def join (s : Server) (build : Endpoint) : Outcome Server Failure :=
  if k.info.ticketType = .conference ∧ k.type = .outgoing then
    s.joinConference k.info k.room (some build)
  else (s, none)

def conclude (s : Server) (e : Endpoint) : Outcome Server Failure :=
  s.conclude k.user k.info k.room k.present k.type e

/-- What a block does under the monitor of the room, and what is left of it. An
exception ends it; only the exit is left. -/
def block (s : Server) : Call → Server × List Frame
  | .candidate c build =>
    match getWebRtcPeerDefaultCreate k s build with
    | .error _ => (s, [])
    | .ok (s, _, e) => (s.callMedia (.addIceCandidate e c), [])
  | .offer sdp build =>
    match join k s build with
    | (s, some _) => (s, [])
    | (s, none) =>
      match getWebRtcPeerDefaultCreate k s build with
      | .error _ => (s, [])
      | .ok (s, _, e) => ((s.callMedia (.processOffer e sdp)).send (.answer k.user k.roomId k.type k.present),
          [.flush e])

def effect (st : Stores) : Frame → Stores × List Frame
  | .cache c build =>
    let q := st.server.buffers.cache k.buffer c
    (⟨{ st.server with buffers := q.1 }, st.log ++ [.put c]⟩,
      if q.2 then [] else [.enter (.candidate c build)])
  | .enter call => (st, [.run call, .exit])
  | .run call => ({ st with server := (block k st.server call).1 }, (block k st.server call).2)
  | .flush e =>
    let q := st.server.buffers.flushBuffer k.buffer
    (⟨{ st.server with buffers := q.1 }, st.log ++ [.flush]⟩,
      q.2.map (.addIceCandidate e) ++ [.conclude e])
  | .addIceCandidate e c => ({ st with server := st.server.callMedia (.addIceCandidate e c) }, [])
  | .conclude e => ({ st with server := (conclude k st.server e).1 }, [])
  | .exit => (st, [])

def program : Program Stores Frame Call where
  entry
    | .candidate c build => .cache c build
    | .offer sdp build => .enter (.offer sdp build)
  effect := effect k
  waits
    | .enter _ => true
    | _ => false
  exit := .exit

end

/-! ## A participant that stays -/

/-- The participant can have the endpoint of the key. -/
def Able (k : Key) (p : Participant) : Prop :=
  match k.type with
  | .outgoing => p.outWebRtcEndpoint.isSome = true
  | .incoming => k.present.isSome = true
  | _ => False

/-- The participant of the key is in its room. -/
def Standing (k : Key) (s : Server) : Prop :=
  ∃ room p, s.rooms.heap[k.room]? = some room ∧ room.userIdParticipants.lookup k.info.userId = some p ∧
    p.userId = k.info.userId ∧ Able k p

/-- The calls of the key are not rejected before they get to the buffer or to the room. -/
structure Admitted (k : Key) (s : Server) : Prop where
  session : s.sessions.findSessionInfo k.user = some k.info
  ticket : roomOf k.info (some k.roomId) = some k.roomId
  publishes : ¬ (k.type = .outgoing ∧ k.info.ticketType = .monitor)
  presents : ∀ sdp, s.checkPresent (k.offer sdp) = none
  stored : s.rooms.roomIdRooms.lookup k.roomId = some k.room

/-- The state from which the calls come in; the key has no buffer yet. -/
structure Ready (k : Key) (s : Server) : Prop extends Admitted k s where
  standing : Standing k s
  fresh : s.buffers.bufferMap.lookup k.buffer = none

section
variable {k : Key} {s : Server}

theorem endpoint_eq {room : Room} {p : Participant} (hr : s.rooms.heap[k.room]? = some room)
    (hp : room.userIdParticipants.lookup k.info.userId = some p) : k.endpoint s = k.endpointOf p := by
  simp [Key.endpoint, hr, Room.findParticipant, hp]

/-- What a step of a call leaves of the server: the participant, its endpoint once it
has one, and the buffers. -/
structure Keeps (k : Key) (s s' : Server) : Prop where
  standing : Standing k s'
  endpoint : ∀ e, k.endpoint s = some e → k.endpoint s' = some e
  buffers : s'.buffers = s.buffers

theorem getWebRtcPeerDefaultCreate_ok (h : Standing k s) (build : Endpoint) :
    ∃ s' e, getWebRtcPeerDefaultCreate k s build = .ok (s', k.type, e) ∧ Keeps k s s' ∧ s'.media = s.media ∧
      k.endpoint s' = some e := by
  obtain ⟨room, p, hr, hp, hid, hable⟩ := h
  have hendpoint := endpoint_eq hr hp
  cases htype : k.type with
  | outgoing =>
    simp only [Able, htype] at hable
    obtain ⟨e, he⟩ := Option.isSome_iff_exists.mp hable
    refine ⟨s, e, ?_, ⟨⟨room, p, hr, hp, hid, ?_⟩, fun _ h => h, rfl⟩, rfl, ?_⟩
    · simp [getWebRtcPeerDefaultCreate, Server.getWebRtcPeerDefaultCreate, hr, Room.findParticipant, hp, htype, he]
    · simp [Able, htype, he]
    · simp [hendpoint, Key.endpointOf, peerOf, htype, he]
  | incoming =>
    simp only [Able, htype] at hable
    obtain ⟨present, hpresent⟩ := Option.isSome_iff_exists.mp hable
    obtain ⟨p', e, hcreate, hid'⟩ : ∃ p' e, p.createInEp present (some build) = some (p', e) ∧
        p'.userId = p.userId := by
      cases hpeer : p.presentInWebRtcPeer.lookup present <;> simp [Participant.createInEp, hpeer]
    let room' : Room := { room with userIdParticipants := room.userIdParticipants.insert p'.userId p' }
    have hr' : (s.putParticipant k.room p').rooms.heap[k.room]? = some room' := by
      rw [putParticipant_heap s k.room p' hr, set_self hr]
    have hp' : room'.userIdParticipants.lookup k.info.userId = some p' := by
      simp [room', hid', hid]
    have hpeer' := (createInEp_has hcreate).1
    refine ⟨s.putParticipant k.room p', e, ?_,
      ⟨⟨room', p', hr', hp', hid'.trans hid, ?_⟩, fun e' he' => ?_, rfl⟩, rfl, ?_⟩
    · simp [getWebRtcPeerDefaultCreate, Server.getWebRtcPeerDefaultCreate, hr, Room.findParticipant, hp, htype, hpresent, hcreate]
    · simp [Able, htype, hpresent]
    · rw [endpoint_eq hr' hp']
      simp only [hendpoint, Key.endpointOf, peerOf, htype, hpresent, Option.bind_some] at he' ⊢
      have hsame : e = e' := by simp_all [Participant.createInEp]
      exact hsame ▸ hpeer'
    · rw [endpoint_eq hr' hp']
      simpa [Key.endpointOf, peerOf, htype, hpresent] using hpeer'
  | customOutgoing => simp [Able, htype] at hable
  | customIncoming => simp [Able, htype] at hable

/-- A participant that is there stays as it is when it joins again. -/
theorem join_ok (h : Standing k s) (build : Endpoint) :
    ∃ s', join k s build = (s', none) ∧ Keeps k s s' ∧ s'.media = s.media := by
  unfold join
  split
  · obtain ⟨room, p, hr, hp, hid, hable⟩ := h
    have hjoin : room.join k.info.userId (some build) = some (room, [.joinRoomCallBack room.roomId]) := by
      simp [Room.join, hp]
    have hheap : (s.rooms.onRoom k.room fun room => room.call (.join k.info.userId (some build))).heap[k.room]? =
        some room := by
      rw [onRoom_heap_self hr]
      simp only [Room.call, hjoin, Option.getD_some]
    have hsome : (s.rooms.heap[k.room]?.bind fun room => room.join k.info.userId (some build)) =
        some (room, [.joinRoomCallBack room.roomId]) := by
      rw [hr]
      exact hjoin
    unfold Server.joinConference
    rw [hsome]
    refine ⟨_, rfl, ⟨⟨room, p, hheap, hp, hid, hable⟩, ?_, rfl⟩, rfl⟩
    intro e he
    rw [endpoint_eq hr hp] at he
    rw [endpoint_eq hheap hp]
    exact he
  · exact ⟨s, rfl, ⟨h, fun _ he => he, rfl⟩, rfl⟩

theorem Keeps.of_rooms {s' : Server} (h : Standing k s) (hrooms : s'.rooms = s.rooms)
    (hbuffers : s'.buffers = s.buffers) : Keeps k s s' := by
  refine ⟨?_, fun e he => ?_, hbuffers⟩
  · unfold Standing
    rw [hrooms]
    exact h
  · unfold Key.endpoint
    rw [hrooms]
    exact he

theorem Keeps.trans {s' s'' : Server} (h : Keeps k s s') (h' : Keeps k s' s'') : Keeps k s s'' :=
  ⟨h'.standing, fun e he => h'.endpoint e (h.endpoint e he), h'.buffers.trans h.buffers⟩

/-- Both blocks come to an endpoint, which is the endpoint of the key from then on. -/
theorem block_ok (h : Standing k s) (call : Call) :
    ∃ e, Keeps k s (block k s call).1 ∧ k.endpoint (block k s call).1 = some e ∧
      match call with
      | .candidate c _ => (block k s call).1.media = s.media ++ [.addIceCandidate e c] ∧
          (block k s call).2 = []
      | .offer sdp _ => (block k s call).1.media = s.media ++ [.processOffer e sdp] ∧
          (block k s call).2 = [.flush e] := by
  cases call with
  | candidate c build =>
    obtain ⟨s', e, hpeer, hkeeps, hmedia, he⟩ := getWebRtcPeerDefaultCreate_ok h build
    simp only [block, hpeer]
    refine ⟨e, hkeeps.trans (.of_rooms hkeeps.standing rfl rfl), he, ?_⟩
    simp [Server.callMedia, hmedia]
  | offer sdp build =>
    obtain ⟨s₁, hjoin, hkeeps₁, hmedia₁⟩ := join_ok h build
    obtain ⟨s', e, hpeer, hkeeps, hmedia, he⟩ := getWebRtcPeerDefaultCreate_ok hkeeps₁.standing build
    simp only [block, hjoin, hpeer]
    refine ⟨e, hkeeps₁.trans (hkeeps.trans (.of_rooms hkeeps.standing rfl rfl)), he, ?_⟩
    simp [Server.callMedia, Server.send, hmedia, hmedia₁]

end

/-! ## The hand-over that the buffer sees -/

/-- The buffer of the key, and the candidates added since the calls in `base`. -/
def view (k : Key) (base : List MediaCall) (st : Stores) : Handover.Store IceCandidate where
  buffer := ((st.server.buffers.bufferMap.lookup k.buffer).map CandidateBuffer.buffer).getD []
  flushed := ((st.server.buffers.bufferMap.lookup k.buffer).map CandidateBuffer.flush).getD false
  delivered := (adds (st.server.media.drop base.length)).map Prod.snd
  log := st.log

def viewCall : Call → Handover.Call IceCandidate
  | .candidate c _ => .put c
  | .offer _ _ => .handover

def viewBody : Call → Handover.Body IceCandidate
  | .candidate c _ => .late c
  | .offer _ _ => .handover

def viewFrame : Frame → Handover.Frame IceCandidate
  | .cache c _ => .put c
  | .enter call => .enter (viewBody call)
  | .run call => .run (viewBody call)
  | .flush _ => .flush
  | .addIceCandidate _ c => .forward c
  | .conclude _ => .finish
  | .exit => .exit

def handoverView (k : Key) (base : List MediaCall) : View (program k) (Handover.program (α := IceCandidate)) where
  store := view k base
  frame := viewFrame
  call := viewCall
  entry c := by cases c <;> rfl
  waits f := by cases f <;> rfl
  exit f := by cases f <;> simp [viewFrame, program, Handover.program]

/-- The participant stays, and no call on an endpoint is taken back. -/
def Steady (k : Key) (base : List MediaCall) (st : Stores) : Prop :=
  Standing k st.server ∧ ∃ calls, st.server.media = base ++ calls

theorem Steady.length_le {k : Key} {base : List MediaCall} {st : Stores} (h : Steady k base st) :
    base.length ≤ st.server.media.length := by
  obtain ⟨-, calls, hmedia⟩ := h
  rw [hmedia, List.length_append]
  exact Nat.le_add_right _ _

/-- What every frame does to the server, buffers aside. -/
theorem effect_server {k : Key} {st : Stores} (h : Standing k st.server) (f : Frame) :
    Standing k (effect k st f).1.server ∧
      (∀ e, k.endpoint st.server = some e → k.endpoint (effect k st f).1.server = some e) ∧
      ∃ calls, (effect k st f).1.server.media = st.server.media ++ calls := by
  have hsame : ∀ s' : Server, s'.rooms = st.server.rooms →
      Standing k s' ∧ ∀ e, k.endpoint st.server = some e → k.endpoint s' = some e := by
    intro s' hrooms
    unfold Standing Key.endpoint
    rw [hrooms]
    exact ⟨h, fun _ he => he⟩
  cases f with
  | cache c build =>
    obtain ⟨hs, he⟩ := hsame _ rfl
    exact ⟨hs, he, [], by simp [effect]⟩
  | enter call => exact ⟨h, fun _ he => he, [], by simp [effect]⟩
  | run call =>
    obtain ⟨e, hkeeps, -, hcall⟩ := block_ok h call
    refine ⟨hkeeps.standing, hkeeps.endpoint, ?_⟩
    cases call with
    | candidate c build => exact ⟨_, hcall.1⟩
    | offer sdp build => exact ⟨_, hcall.1⟩
  | flush e =>
    obtain ⟨hs, he⟩ := hsame _ rfl
    exact ⟨hs, he, [], by simp [effect]⟩
  | addIceCandidate e c =>
    obtain ⟨hs, he⟩ := hsame _ rfl
    exact ⟨hs, he, _, rfl⟩
  | conclude e =>
    obtain ⟨-, hrooms, -, connections, hmedia⟩ := conclude_concludes st.server k.user k.info k.room k.present k.type e
    obtain ⟨hs, he⟩ := hsame _ hrooms
    exact ⟨hs, he, _, hmedia⟩
  | exit => exact ⟨h, fun _ he => he, [], by simp [effect]⟩

theorem effect_steady {k : Key} {base : List MediaCall} (st : Stores) (f : Frame) (h : Steady k base st) :
    Steady k base (effect k st f).1 := by
  obtain ⟨hs, -, calls', hmedia'⟩ := effect_server h.1 f
  obtain ⟨-, calls, hmedia⟩ := h
  exact ⟨hs, calls ++ calls', by rw [hmedia', hmedia, List.append_assoc]⟩

/-- The view of a server whose calls on endpoints have grown. -/
theorem view_grown (k : Key) (base : List MediaCall) (st st' : Stores) (hn : base.length ≤ st.server.media.length)
    {calls : List MediaCall} (hmedia : st'.server.media = st.server.media ++ calls)
    (hbuffers : st'.server.buffers = st.server.buffers) (hlog : st'.log = st.log) :
    view k base st' = { view k base st with
      delivered := (view k base st).delivered ++ (adds calls).map Prod.snd } := by
  simp only [view, hmedia, hbuffers, hlog, List.drop_append_of_le_length hn, adds_append, List.map_append]

theorem lookup_getCandidateBuffer (m : BufferManger) (key : BufferKey) :
    (m.getCandidateBuffer key).2.buffer = ((m.bufferMap.lookup key).map CandidateBuffer.buffer).getD [] ∧
      (m.getCandidateBuffer key).2.flush = ((m.bufferMap.lookup key).map CandidateBuffer.flush).getD false := by
  unfold BufferManger.getCandidateBuffer
  split
  · next b hb =>
    rw [hb]
    exact ⟨rfl, rfl⟩
  · next hb =>
    rw [hb]
    exact ⟨rfl, rfl⟩

theorem effect_view_cache (k : Key) (base : List MediaCall) (st : Stores) (c : IceCandidate) (build : Endpoint) :
    Handover.effect (view k base st) (.put c) =
      (view k base (effect k st (.cache c build)).1, (effect k st (.cache c build)).2.map viewFrame) := by
  obtain ⟨hbuffer, hflush⟩ := lookup_getCandidateBuffer st.server.buffers k.buffer
  have hview : view k base st = ⟨(st.server.buffers.getCandidateBuffer k.buffer).2.buffer,
      (st.server.buffers.getCandidateBuffer k.buffer).2.flush,
      (adds (st.server.media.drop base.length)).map Prod.snd, st.log⟩ := by
    rw [hbuffer, hflush]
    rfl
  rw [hview]
  cases hf : (st.server.buffers.getCandidateBuffer k.buffer).2.flush <;>
    simp [Handover.effect, effect, view, viewFrame, viewBody, BufferManger.cache, CandidateBuffer.cache, hf]

theorem effect_view_flush (k : Key) (base : List MediaCall) (st : Stores) (e : Endpoint) :
    Handover.effect (view k base st) .flush =
      (view k base (effect k st (.flush e)).1, (effect k st (.flush e)).2.map viewFrame) := by
  obtain ⟨hbuffer, -⟩ := lookup_getCandidateBuffer st.server.buffers k.buffer
  have hview : (view k base st).buffer = (st.server.buffers.getCandidateBuffer k.buffer).2.buffer := by
    rw [hbuffer]
    rfl
  simp only [Handover.effect, hview]
  simp [effect, view, viewFrame, BufferManger.flushBuffer, CandidateBuffer.flushed, Function.comp_def]

/-- Every frame does to the buffer and the endpoint what its view does. -/
theorem effect_view (k : Key) (base : List MediaCall) (st : Stores) (f : Frame) (h : Steady k base st) :
    Handover.effect (view k base st) (viewFrame f) =
      (view k base (effect k st f).1, (effect k st f).2.map viewFrame) := by
  cases f with
  | cache c build => exact effect_view_cache k base st c build
  | enter call => rfl
  | run call =>
    obtain ⟨e, hkeeps, -, hcall⟩ := block_ok h.1 call
    cases call with
    | candidate c build =>
      obtain ⟨hmedia, hrest⟩ := hcall
      rw [view_grown k base st (effect k st (.run (.candidate c build))).1 h.length_le hmedia hkeeps.buffers rfl]
      simp only [effect, hrest]
      rfl
    | offer sdp build =>
      obtain ⟨hmedia, hrest⟩ := hcall
      rw [view_grown k base st (effect k st (.run (.offer sdp build))).1 h.length_le hmedia hkeeps.buffers rfl]
      simp only [effect, hrest]
      simp [viewFrame, viewBody, Handover.effect, adds]
  | flush e => exact effect_view_flush k base st e
  | addIceCandidate e c =>
    rw [view_grown k base st (effect k st (.addIceCandidate e c)).1 h.length_le rfl rfl rfl]
    rfl
  | conclude e =>
    obtain ⟨-, -, hbuffers, connections, hmedia⟩ := conclude_concludes st.server k.user k.info k.room k.present k.type e
    rw [view_grown k base st (effect k st (.conclude e)).1 h.length_le hmedia hbuffers rfl, adds_connections]
    simp [viewFrame, Handover.effect, effect]
  | exit => rfl

/-! ## All candidates go to one endpoint -/

/-- A frame that has an endpoint in hand has the one of the key. -/
def Aims (k : Key) (st : Stores) : Frame → Prop
  | .flush e => k.endpoint st.server = some e
  | .addIceCandidate e _ => k.endpoint st.server = some e
  | .conclude e => k.endpoint st.server = some e
  | _ => True

/-- So have the candidates added since the calls in `base`. -/
def AddsAim (k : Key) (base : List MediaCall) (s : Server) : Prop :=
  ∀ p ∈ adds (s.media.drop base.length), k.endpoint s = some p.1

theorem aims_kept {k : Key} {st : Stores} (h : Standing k st.server) (f g : Frame) (hg : Aims k st g) :
    Aims k (effect k st f).1 g := by
  obtain ⟨-, hendpoint, -⟩ := effect_server h f
  cases g with
  | flush e => exact hendpoint e hg
  | addIceCandidate e c => exact hendpoint e hg
  | conclude e => exact hendpoint e hg
  | _ => trivial

theorem aims_pushed {k : Key} {st : Stores} (h : Standing k st.server) (f : Frame) (hf : Aims k st f) :
    ∀ g ∈ (effect k st f).2, Aims k (effect k st f).1 g := by
  intro g hg
  cases f with
  | cache c build =>
    simp only [effect] at hg
    split at hg
    · cases hg
    · rw [List.mem_singleton.mp hg]
      trivial
  | enter call =>
    simp only [effect, List.mem_cons, List.not_mem_nil, or_false] at hg
    rcases hg with rfl | rfl <;> trivial
  | run call =>
    obtain ⟨e, -, he, hcall⟩ := block_ok h call
    cases call with
    | candidate c build =>
      simp only [effect, hcall.2] at hg
      cases hg
    | offer sdp build =>
      simp only [effect, hcall.2] at hg
      rw [List.mem_singleton.mp hg]
      exact he
  | flush e =>
    simp only [effect, List.mem_append, List.mem_map, List.mem_singleton] at hg
    rcases hg with ⟨c, -, rfl⟩ | rfl <;> exact hf
  | addIceCandidate e c => cases hg
  | conclude e => cases hg
  | exit => cases hg

theorem addsAim_effect {k : Key} {base : List MediaCall} {st : Stores} (h : Steady k base st) (f : Frame)
    (hf : Aims k st f) (ha : AddsAim k base st.server) : AddsAim k base (effect k st f).1.server := by
  obtain ⟨-, hendpoint, -⟩ := effect_server h.1 f
  -- only the last call can be a new candidate
  have hgrown : ∀ calls, (effect k st f).1.server.media = st.server.media ++ calls →
      (∀ p ∈ adds calls, k.endpoint (effect k st f).1.server = some p.1) →
      AddsAim k base (effect k st f).1.server := by
    intro calls hmedia hcalls p hp
    rw [hmedia, List.drop_append_of_le_length h.length_le, adds_append, List.mem_append] at hp
    rcases hp with hp | hp
    · exact hendpoint _ (ha p hp)
    · exact hcalls p hp
  cases f with
  | run call =>
    obtain ⟨e, -, he, hcall⟩ := block_ok h.1 call
    cases call with
    | candidate c build =>
      have he' : k.endpoint (effect k st (.run (.candidate c build))).1.server = some e := he
      exact hgrown _ hcall.1 (by simpa [adds] using he')
    | offer sdp build => exact hgrown _ hcall.1 (by simp [adds])
  | addIceCandidate e c =>
    have he : k.endpoint (effect k st (.addIceCandidate e c)).1.server = some e := hendpoint e hf
    exact hgrown _ rfl (by simpa [adds] using he)
  | conclude e =>
    obtain ⟨-, -, -, connections, hmedia⟩ := conclude_concludes st.server k.user k.info k.room k.present k.type e
    exact hgrown _ hmedia (by simp)
  | cache c build => exact hgrown [] (by simp [effect]) (by simp [adds])
  | enter call => exact hgrown [] (by simp [effect]) (by simp [adds])
  | flush e => exact hgrown [] (by simp [effect]) (by simp [adds])
  | exit => exact hgrown [] (by simp [effect]) (by simp [adds])

theorem flushed_effect {k : Key} {st : Stores} (h : Standing k st.server) (f : Frame) (hf : Aims k st f)
    (hflushed : .flush ∈ st.log → ∃ e, k.endpoint st.server = some e) :
    .flush ∈ (effect k st f).1.log → ∃ e, k.endpoint (effect k st f).1.server = some e := by
  obtain ⟨-, hendpoint, -⟩ := effect_server h f
  intro hin
  cases f with
  | flush e => exact ⟨e, hendpoint e hf⟩
  | cache c build =>
    have hold : .flush ∈ st.log := by simpa [effect] using hin
    obtain ⟨e, he⟩ := hflushed hold
    exact ⟨e, hendpoint e he⟩
  | _ =>
    obtain ⟨e, he⟩ := hflushed hin
    exact ⟨e, hendpoint e he⟩

structure Aimed (k : Key) (base : List MediaCall) (w : Pool Stores Frame) : Prop where
  steady : Steady k base w.store
  frames : AllFrames (Aims k) w
  adds : AddsAim k base w.store.server
  flushed : .flush ∈ w.store.log → ∃ e, k.endpoint w.store.server = some e

theorem step_aimed (k : Key) (base : List MediaCall) (w : Pool Stores Frame) (e : Event Call) (h : Aimed k base w) :
    Aimed k base (step (program k) w e) := by
  have hframes : AllFrames (Aims k) (step (program k) w e) := by
    refine step_allFrames (I := Steady k base) (fun s call => ?_) (fun s f g hs _ hg => aims_kept hs.1 f g hg)
      (fun s f hs hf => aims_pushed hs.1 f hf) w e h.steady h.frames
    cases call <;> trivial
  cases e with
  | start call => exact ⟨h.steady, hframes, h.adds, h.flushed⟩
  | advance t =>
    change Aimed k base (advance (program k) w t)
    have hframes' : AllFrames (Aims k) (advance (program k) w t) := hframes
    rcases advance_cases (program k) w t with heq | ⟨f, rest, hgo, heq⟩
    · rw [heq]
      exact h
    · rw [heq] at hframes' ⊢
      have hf : Aims k w.store f := h.frames t f (by rw [hgo.top]; exact List.mem_cons_self)
      exact ⟨effect_steady w.store f h.steady, hframes', addsAim_effect h.steady f hf h.adds,
        flushed_effect h.steady.1 f hf h.flushed⟩

/-- The server at the start of a run, seen as an empty buffer. -/
theorem init_simulates {k : Key} {s : Server} (h : Ready k s) :
    Simulates (handoverView k s.media) (init ⟨s, []⟩) (init Handover.Store.empty) := by
  refine ⟨?_, rfl, fun t => rfl⟩
  simp only [init, handoverView, view, Handover.Store.empty]
  rw [h.fresh]
  simp [adds]

theorem run_simulates {k : Key} {s : Server} (h : Ready k s) (events : List (Event Call)) :
    Simulates (handoverView k s.media) (run (step (program k)) (init ⟨s, []⟩) events)
      (run (step Handover.program) (init Handover.Store.empty)
        (events.map (handoverView k s.media).event)) :=
  (init_simulates h).run (I := Steady k s.media) ⟨h.standing, [], (List.append_nil _).symm⟩ effect_steady
    (effect_view k s.media) events

theorem run_aimed {k : Key} {s : Server} (h : Ready k s) (events : List (Event Call)) :
    Aimed k s.media (run (step (program k)) (init ⟨s, []⟩) events) := by
  refine run_invariant (step_aimed k s.media) _ events ⟨⟨h.standing, [], by simp [init]⟩, ?_, ?_, ?_⟩
  · rintro t f hf
    cases hf
  · intro p hp
    simp [init, adds] at hp
  · intro hin
    cases hin

/-- The candidates of the calls in a run. -/
def candidates (events : List (Event Call)) : List IceCandidate :=
  events.filterMap fun
    | .start (.candidate c _) => some c
    | _ => none

theorem items_event (k : Key) (base : List MediaCall) (events : List (Event Call)) :
    items (events.map (handoverView k base).event) = candidates events := by
  induction events with
  | nil => rfl
  | cons e es ih =>
    cases e with
    | start call =>
      cases call with
      | candidate c build => exact congrArg (c :: ·) ih
      | offer sdp build => exact ih
    | advance t => exact ih

/-- Every candidate of the calls in `events` has been added once, since the calls in
`base`, and to the endpoint of the key. Those that were cached before the first
flush come first, in the order in which they were cached. -/
def AddedInOrder (k : Key) (base : List MediaCall) (events : List (Event Call)) (st : Stores) : Prop :=
  ∃ e before after lates calls, k.endpoint st.server = some e ∧ st.server.media = base ++ calls ∧
    st.log = before ++ .flush :: after ∧ .flush ∉ before ∧
    adds calls = (puts before ++ lates).map (fun c => (e, c)) ∧ lates.Perm (puts after) ∧
    (puts before ++ puts after).Perm (candidates events)

/-- However the calls for one key are interleaved: when all of them have finished,
and one of them was an offer, the candidates have been added in order. -/
theorem addedInOrder_of_idle (k : Key) (s : Server) (events : List (Event Call)) (hready : Ready k s)
    (hidle : Idle (run (step (program k)) (init ⟨s, []⟩) events))
    (hoffer : ∃ sdp build, .start (.offer sdp build) ∈ events) :
    AddedInOrder k s.media events (run (step (program k)) (init ⟨s, []⟩) events).store := by
  have hsim := run_simulates hready events
  have haimed := run_aimed hready events
  have hstart : Event.start Handover.Call.handover ∈ events.map (handoverView k s.media).event := by
    obtain ⟨sdp, build, hin⟩ := hoffer
    exact List.mem_map.mpr ⟨_, hin, rfl⟩
  obtain ⟨before, after, lates, hlog, hfirst, hdelivered, hlates, hall⟩ :=
    delivered_of_idle _ (hsim.idle_iff.mpr hidle) hstart
  rw [hsim.store] at hlog hdelivered
  rw [items_event] at hall
  generalize run (step (program k)) (init ⟨s, []⟩) events = w at haimed hlog hdelivered
  have hlog' : w.store.log = before ++ .flush :: after := hlog
  obtain ⟨e, he⟩ := haimed.flushed (by rw [hlog']; simp)
  obtain ⟨calls, hmedia⟩ := haimed.steady.2
  have hcalls : w.store.server.media.drop s.media.length = calls := by
    rw [hmedia, List.drop_left]
  have hadds : (adds calls).map Prod.snd = puts before ++ lates := by
    rw [← hcalls]
    exact hdelivered
  refine ⟨e, before, after, lates, calls, he, hmedia, hlog', hfirst, ?_, hlates, hall⟩
  have hsame : ∀ p ∈ adds calls, ((fun c => (e, c)) ∘ Prod.snd) p = id p := by
    intro p hp
    rw [← hcalls] at hp
    have hend := haimed.adds p hp
    rw [he] at hend
    exact Prod.ext (Option.some.inj hend) rfl
  rw [← hadds, List.map_map, List.map_congr_left hsame, List.map_id]

/-- Alice and bob publish in one room. -/
def published : List MediaMessages.Event :=
  [.createRoom "a" (some ⟨"kms", some 1⟩) 0, .connect "p1" (some "alice") (some "a"),
    .connect "p2" (some "bob") (some "a"), .offer "p2" ⟨none, some .outgoing, none, "sdp1"⟩ true,
    .offer "p1" ⟨none, some .outgoing, none, "sdp2"⟩ true]

/-- The endpoint on which alice receives bob. -/
def aliceFromBob : Key := ⟨"p1", ⟨"p1", .conference, some "a", "alice"⟩, "a", 0, .incoming, some "bob"⟩

/-- One candidate comes before the offer, one while the offer is processed, and one after the flush. -/
def race : List (Event Call) :=
  [.start (.candidate ⟨"c1", "0", 0⟩ 10), .advance 0, .start (.offer "sdp3" 11), .advance 1, .advance 1,
    .start (.candidate ⟨"c2", "0", 0⟩ 12), .advance 2, .advance 1,
    .start (.candidate ⟨"c3", "0", 0⟩ 13), .advance 3, .advance 3, .advance 1, .advance 1, .advance 1,
    .advance 1, .advance 3, .advance 3, .advance 3]

theorem race_addedInOrder :
    let s := (run MediaMessages.step (Media.init 60) published).server
    AddedInOrder aliceFromBob s.media race
      (run (step (program aliceFromBob)) (init ⟨s, []⟩) race).store := by
  refine addedInOrder_of_idle aliceFromBob _ race ?_ ?_ ⟨"sdp3", 11, by simp [race]⟩
  · exact ⟨⟨rfl, rfl, by decide, fun _ => rfl, rfl⟩, ⟨_, _, rfl, rfl, rfl, rfl⟩, rfl⟩
  · exact idle_of_values _ (by decide +kernel)

/-- No call waits for ever: from every state of a run, all calls can be brought to their end. -/
theorem calls_finish {k : Key} {s : Server} (h : Ready k s) (events : List (Event Call)) :
    ∃ ts : List Tid, Idle (run (step (program k)) (init ⟨s, []⟩) (events ++ ts.map .advance)) := by
  have hsim := run_simulates h events
  obtain ⟨ts, hts⟩ := exists_idle (run_inv (events.map (handoverView k s.media).event))
  refine ⟨ts, ?_⟩
  rw [run_append]
  have hevents : (ts.map Event.advance).map (handoverView k s.media).event = ts.map .advance := by
    rw [List.map_map]
    rfl
  have hrest := hsim.run (I := Steady k s.media) (run_aimed h events).steady effect_steady
    (effect_view k s.media) (ts.map .advance)
  rw [hevents] at hrest
  exact hrest.idle_iff.mp hts

/-! ## A call that runs alone -/

section
variable {k : Key} {s : Server}

theorem withEndpoint_eq {s' : Server} {e build : Endpoint}
    (h : getWebRtcPeerDefaultCreate k s build = .ok (s', k.type, e)) (sdp : String)
    (next : Server → WebRtcEndpointType → Endpoint → Outcome Server Failure) :
    s.withEndpoint k.room k.info.userId (k.offer sdp) (some build) next = next s' k.type e := by
  have hok : s.getWebRtcPeerDefaultCreate k.room k.info.userId (k.offer sdp).type (k.offer sdp).present
      (some build) = .ok (s', k.type, e) := h
  rw [Server.withEndpoint, hok]

/-- The thread of a candidate that nothing disturbs does what `handleCandidate` does. -/
theorem candidate_alone (h : Admitted k s) (hs : Standing k s) (c : IceCandidate) (build : Endpoint)
    (log : List (Access IceCandidate)) :
    Completes (effect k) ⟨s, log⟩ [.cache c build]
      ⟨(handleCandidate s k.user (k.candidate c) (some build)).1, log ++ [.put c]⟩ := by
  let s₁ : Server := { s with buffers := (s.buffers.cache k.buffer c).1 }
  have hhandle : handleCandidate s k.user (k.candidate c) (some build) =
      if (s.buffers.cache k.buffer c).2 then (s₁, none)
      else candidateInRoom s₁ k.info (some k.roomId) (k.candidate c) (some build) := by
    simp only [handleCandidate, h.session, Key.candidate, h.ticket]
    rfl
  rw [hhandle]
  cases hq : (s.buffers.cache k.buffer c).2 with
  | true =>
    refine .next ?_
    simp only [effect, hq]
    exact .done _
  | false =>
    have hs₁ : Standing k s₁ := hs
    obtain ⟨s₂, e, hpeer, -⟩ := getWebRtcPeerDefaultCreate_ok hs₁ build
    have hroom : candidateInRoom s₁ k.info (some k.roomId) (k.candidate c) (some build) =
        (s₂.callMedia (.addIceCandidate e c), none) := by
      have hstored : s₁.rooms.roomIdRooms.lookup k.roomId = some k.room := h.stored
      simp only [candidateInRoom, hstored]
      exact withEndpoint_eq hpeer "" _
    rw [if_neg Bool.false_ne_true, hroom]
    refine .next ?_
    simp only [effect, hq]
    -- enter, the block, exit
    refine .next (.next ?_)
    change Completes (effect k) ⟨(block k s₁ (.candidate c build)).1, _⟩
      ((block k s₁ (.candidate c build)).2 ++ [.exit]) _
    simp only [block, hpeer]
    exact .next (.done _)

theorem adds_alone (st : Stores) (e : Endpoint) (cs : List IceCandidate) :
    Completes (effect k) st (cs.map (.addIceCandidate e))
      ⟨{ st.server with media := st.server.media ++ cs.map fun c => .addIceCandidate e c }, st.log⟩ := by
  induction cs generalizing st with
  | nil =>
    simp only [List.map_nil, List.append_nil]
    exact .done st
  | cons c cs ih =>
    refine .next ?_
    have hrest := ih { st with server := st.server.callMedia (.addIceCandidate e c) }
    simp only [Server.callMedia, List.append_assoc, List.singleton_append] at hrest
    exact hrest

/-- So does the thread of an offer with `handleOffer`. -/
theorem offer_alone (h : Admitted k s) (hs : Standing k s) (sdp : String) (build : Endpoint)
    (log : List (Access IceCandidate)) :
    Completes (effect k) ⟨s, log⟩ [.enter (.offer sdp build)]
      ⟨(s.handleOffer k.user (k.offer sdp) (some build)).1, log ++ [.flush]⟩ := by
  obtain ⟨s₁, hjoin, hkeeps, -⟩ := join_ok hs build
  obtain ⟨s₂, e, hpeer, -⟩ := getWebRtcPeerDefaultCreate_ok hkeeps.standing build
  have hhandle : s.handleOffer k.user (k.offer sdp) (some build) =
      conclude k (s₂.answerOffer k.user k.info k.roomId (k.offer sdp) k.type e) e := by
    have hjoin' : (if k.info.ticketType = .conference ∧ (k.offer sdp).type = some .outgoing then
        s.joinConference k.info k.room (some build) else (s, none)) = (s₁, none) := by
      rw [← hjoin]
      simp [join, Key.offer]
    have hpublish : ¬ ((k.offer sdp).type = some .outgoing ∧ k.info.ticketType = .monitor) := by
      simpa [Key.offer] using h.publishes
    have hreach : ReachesRoom s k.user (k.offer sdp) k.info k.roomId k.room :=
      ⟨h.session, hpublish, h.presents sdp, h.ticket, h.stored⟩
    rw [hreach.handleOffer, Server.offerInRoom, hjoin', andThen_ok, withEndpoint_eq hpeer]
    rfl
  rw [hhandle]
  -- enter, then the block up to the answer
  refine .next (.next ?_)
  change Completes (effect k) ⟨(block k s (.offer sdp build)).1, _⟩
    ((block k s (.offer sdp build)).2 ++ [.exit]) _
  simp only [block, hjoin, hpeer]
  refine .next ?_
  simp only [effect, List.append_assoc]
  refine (adds_alone _ e _).append ?_
  exact .next (.next (.done _))

end

end MediaHandover

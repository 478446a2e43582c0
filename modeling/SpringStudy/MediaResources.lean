import SpringStudy.Ledgers
import SpringStudy.MediaActs
import SpringStudy.MediaDepartures

/-!
# The endpoints of the media server

The rooms hold the endpoints that Kurento has built, and what they call tells which
of them have been released. Over whole runs every endpoint is on one side of this
ledger: it is in one place of one room, or it has been released, once.
-/
namespace MediaResources

open Tables Runs Outcomes Relation Ledgers MediaRoom MediaMessages MediaActs
open MediaRoomManager hiding Event step
open MediaSession hiding Event step
open MediaSocket hiding Event step handle
open MediaEndpoints (Has HasEndpoint handleCandidate_cases found_has isMedia step_passive)
open MediaOffers (AllRooms Keyed keyed_lasting step_allRooms)
open MediaPublishers (createInEp_fields)
open MediaDepartures

/-- The rooms that have been taken out of the map count as well. -/
def heldBy (m : RoomManager) : List Endpoint := m.heap.flatMap held

def releasedBy (m : RoomManager) : List Endpoint := released (m.trace.map Prod.snd)

def ledger (m : RoomManager) : Ledger Endpoint := ⟨heldBy m, releasedBy m⟩

theorem mem_holds (p : Participant) (e : Endpoint) : e ∈ holds p ↔ HasEndpoint p e := by
  simp [holds, HasEndpoint, mem_values_iff]

theorem mem_held (room : Room) (e : Endpoint) : e ∈ held room ↔ Has room e := by
  simp only [held, List.mem_flatMap, mem_values_iff, mem_holds]
  constructor
  · rintro ⟨p, ⟨u, hu⟩, he⟩
    exact ⟨u, p, hu, he⟩
  · rintro ⟨u, p, hu, he⟩
    exact ⟨p, ⟨u, hu⟩, he⟩

theorem mem_heldBy {m : RoomManager} {r : RoomRef} {room : Room} {e : Endpoint}
    (hr : m.heap[r]? = some room) (he : Has room e) : e ∈ heldBy m :=
  List.mem_flatMap.mpr ⟨room, List.mem_of_getElem? hr, (mem_held room e).mpr he⟩

/-! ## What the calls do to the ledger -/

section
variable {m m' : RoomManager} {r : RoomRef} {room : Room}

/-- One room has changed, and what all the others hold is as before. -/
theorem heldBy_set (hr : m.heap[r]? = some room) (room' : Room) :
    (heldBy m).Perm (held room ++ (m.heap.eraseIdx r).flatMap held) ∧
      ((m.heap.set r room').flatMap held).Perm (held room' ++ (m.heap.eraseIdx r).flatMap held) := by
  obtain ⟨hlt, rfl⟩ := List.getElem?_eq_some_iff.mp hr
  constructor
  · exact ((List.getElem_cons_eraseIdx_perm hlt).flatMap_right held).symm
  · have hlt' : r < (m.heap.set r room').length := by simpa using hlt
    have hperm := ((List.getElem_cons_eraseIdx_perm hlt').flatMap_right held).symm
    simpa [List.eraseIdx_set_eq] using hperm

theorem releasedBy_onRoom (hr : m.heap[r]? = some room) {f : Room → Room × List Call} :
    releasedBy (m.onRoom r f) = releasedBy m ++ released (f room).2 := by
  rw [releasedBy, onRoom_eq hr, performAll_trace, List.map_append, released_append, List.map_map]
  have hid : (Prod.snd ∘ fun c : Call => (r, c)) = id := rfl
  rw [hid, List.map_id]
  rfl

/-- A method that only passes endpoints on keeps the books of the whole manager. -/
theorem onRoom_moves (hr : m.heap[r]? = some room) {f : Room → Room × List Call} {new : List Endpoint}
    (hf : (released (f room).2 ++ held (f room).1).Perm (new ++ held room)) :
    Moves new (ledger m) (ledger (m.onRoom r f)) := by
  obtain ⟨hbefore, hafter⟩ := heldBy_set hr (f room).1
  have hreleased := releasedBy_onRoom hr (f := f)
  constructor
  · rw [List.perm_iff_count] at hbefore hafter hf ⊢
    intro e
    have hb := hbefore e
    have ha := hafter e
    have he := hf e
    simp only [Ledger.all, ledger, hreleased, heldBy, onRoom_heap hr, List.count_append] at hb ha he ⊢
    omega
  · intro e he
    show e ∈ releasedBy (m.onRoom r f)
    rw [hreleased]
    exact List.mem_append_left _ he

/-- Endpoints move from one side to the other, and at most the one just built comes in. -/
def Books (new : Option Endpoint) (m m' : RoomManager) : Prop :=
  Moves [] (ledger m) (ledger m') ∨ ∃ n, new = some n ∧ Moves [n] (ledger m) (ledger m')

theorem onRoom_books (new : Option Endpoint) {f : Room → Room × List Call}
    (hf : ∀ room, m.heap[r]? = some room → (released (f room).2 ++ held (f room).1).Perm (held room) ∨
      ∃ n, new = some n ∧ (released (f room).2 ++ held (f room).1).Perm (n :: held room)) :
    Books new m (m.onRoom r f) := by
  cases hr : m.heap[r]? with
  | none =>
    simp only [RoomManager.onRoom, hr]
    exact .inl (.refl _)
  | some room =>
    rcases hf room hr with hsame | ⟨n, hnew, hone⟩
    · exact .inl (onRoom_moves hr hsame)
    · exact .inr ⟨n, hnew, onRoom_moves hr hone⟩

/-- A method that builds nothing. -/
theorem onRoom_conserves {f : Room → Room × List Call}
    (hf : ∀ room, (released (f room).2 ++ held (f room).1).Perm (held room)) :
    Moves [] (ledger m) (ledger (m.onRoom r f)) := by
  rcases onRoom_books (m := m) (r := r) none fun room _ => .inl (hf room) with h | ⟨n, hn, -⟩
  · exact h
  · cases hn

theorem join_conserves (room : Room) (userId : String) (new : Option Endpoint) :
    (released (room.call (.join userId new)).2 ++ held (room.call (.join userId new)).1).Perm (held room) ∨
      ∃ n, new = some n ∧ (released (room.call (.join userId new)).2 ++
        held (room.call (.join userId new)).1).Perm (n :: held room) := by
  simp only [Room.call, Room.join]
  cases hp : room.userIdParticipants.lookup userId with
  | some p => exact .inl (List.Perm.refl _)
  | none =>
    cases new with
    | none => exact .inl (List.Perm.refl _)
    | some n => exact .inr ⟨n, rfl, List.Perm.of_eq (held_insert_absent ⟨userId, some n, ∅⟩ hp)⟩

theorem joinWithOnlyIncoming_conserves (room : Room) (userId : String) :
    (released (room.call (.joinWithOnlyIncoming userId)).2 ++
      held (room.call (.joinWithOnlyIncoming userId)).1).Perm (held room) := by
  simp only [Room.call, Room.joinWithOnlyIncoming]
  cases hp : room.userIdParticipants.lookup userId with
  | some p => exact List.Perm.refl _
  | none => exact List.Perm.of_eq (held_insert_absent ⟨userId, none, ∅⟩ hp)

theorem release_conserves (room : Room) :
    (released room.release.2 ++ held room.release.1).Perm (held room) := by
  rw [Room.release_fst, held_emptied, List.append_nil]
  exact release_released room

/-- What a participant holds with its new incoming endpoint. -/
theorem createInEp_conserves {p p' : Participant} {present : String} {new : Option Endpoint} {e : Endpoint}
    (h : p.createInEp present new = some (p', e)) :
    (holds p').Perm (holds p) ∨ ∃ n, new = some n ∧ (holds p').Perm (n :: holds p) := by
  unfold Participant.createInEp at h
  split at h
  · obtain ⟨rfl, -⟩ := Prod.mk.inj (Option.some.inj h)
    exact .inl (List.Perm.refl _)
  · cases h
  · next n hnone =>
    obtain ⟨rfl, -⟩ := Prod.mk.inj (Option.some.inj h)
    refine .inr ⟨n, rfl, ?_⟩
    simp only [holds, values_insert]
    rw [erase_absent _ _ hnone]
    exact List.perm_middle

/-- The participant is put back under the key where it was found. -/
theorem putBack_conserves {userId present : String} {p p' : Participant} {new : Option Endpoint} {e : Endpoint}
    (hkeyed : Keyed room) (hp : room.userIdParticipants.lookup userId = some p)
    (he : p.createInEp present new = some (p', e)) :
    (released (putBack p' room).2 ++ held (putBack p' room).1).Perm (held room) ∨
      ∃ n, new = some n ∧ (released (putBack p' room).2 ++ held (putBack p' room).1).Perm (n :: held room) := by
  have hkey : p'.userId = userId := (createInEp_fields he).1.trans (hkeyed userId p hp)
  have hvalues := (values_erase_perm room.userIdParticipants userId p hp).flatMap_right holds
  rw [List.flatMap_cons] at hvalues
  simp only [putBack, held, values_insert, List.flatMap_cons, hkey]
  rcases createInEp_conserves he with hsame | ⟨n, hnew, hone⟩
  · exact .inl ((hsame.append_right _).trans hvalues)
  · exact .inr ⟨n, hnew, (hone.append_right _).trans (hvalues.cons n)⟩

theorem act_books {cause : Event} {new : Option Endpoint} (hact : Act cause new m m') (hkeyed : AllRooms Keyed m) :
    Books new m m' := by
  cases hact with
  | @createRoom _ roomId wrapper now _ hm =>
    rcases createRoom_cases hm with rfl | ⟨url, pipeline, -, -, rfl⟩
    · exact .inl (.refl _)
    · have hsame : heldBy { m with heap := m.heap ++ [newRoom roomId url pipeline] } = heldBy m := by
        simp only [heldBy, List.flatMap_append, List.flatMap_singleton]
        exact List.append_nil _
      refine .inl ⟨List.Perm.of_eq ?_, List.Subset.refl _⟩
      exact congrArg (releasedBy m ++ ·) hsame
  | join _ roomId userId =>
    unfold RoomManager.handleRoom
    split
    · exact .inl (.refl _)
    · exact onRoom_books new fun room _ => join_conserves room userId new
  | createInEp _ hr hp he =>
    refine onRoom_books new fun room' hr' => ?_
    obtain rfl := Option.some.inj (hr.symm.trans hr')
    exact putBack_conserves (hkeyed _ _ hr) hp he
  | @fireTtl task now _ =>
    obtain ⟨roomTtl, h | ⟨r, h⟩⟩ := fireTtl_shape m task now
    · rw [h]
      exact .inl (.refl (ledger m))
    · rw [h]
      exact .inl (onRoom_conserves (m := { m with roomTtl := roomTtl }) (r := r) release_conserves)

theorem watch_moves (hwatch : Watch m m') : Moves [] (ledger m) (ledger m') := by
  cases hwatch with
  | joinWithOnlyIncoming roomId userId =>
    unfold RoomManager.handleRoom
    split
    · exact .refl _
    · exact onRoom_conserves fun room => joinWithOnlyIncoming_conserves room userId
  | leave roomId userId =>
    unfold RoomManager.handleRoom
    split
    · exact .refl _
    · exact onRoom_conserves fun room => leave_conserves room userId
  | down r => exact onRoom_conserves fun _ => List.Perm.refl _

end

/-! ## Whole runs -/

/-- The ledger balances, and every participant is where `createInEp` puts it back. -/
structure Accounted (s : Media) : Prop where
  balanced : Balanced s.endpoint (ledger s.server.rooms)
  keyed : AllRooms Keyed s.server.rooms

theorem step_accounted (s : Media) (e : Event) (h : Accounted s) : Accounted (step s e) := by
  refine ⟨?_, step_allRooms keyed_lasting s e h.keyed⟩
  have hnext := h.balanced.mono (Nat.le_succ s.endpoint)
  obtain ⟨new, hnew, (hsame | hone) | ⟨hw, -⟩⟩ := step_asks s e
  · rw [hsame]
    exact hnext
  · rcases act_books hone h.keyed with hmoves | ⟨n, hn, hmoves⟩
    · exact hnext.move hmoves
    · obtain rfl := hnew n hn
      exact h.balanced.build hmoves
  · exact watches_keep (I := fun m => Balanced (s.endpoint + 1) (ledger m))
      (fun m m' hwatch hm => hm.move (watch_moves hwatch)) hw hnext

theorem init_accounted (roomDeleteTtl : Nat) : Accounted (Media.init roomDeleteTtl) :=
  ⟨balanced_empty 0, by intro r room hr; cases hr⟩

/-- The endpoints that a call to Kurento names. -/
def MediaCall.endpoints : MediaCall → List Endpoint
  | .processOffer e _ => [e]
  | .addIceCandidate e _ => [e]
  | .connect source sink => [source, sink]

/-- The calls made since `s` name endpoints that a room holds now. -/
def OnHeld (s s' : Server) : Prop :=
  ∃ calls, s'.media = s.media ++ calls ∧ ∀ c ∈ calls, ∀ n ∈ MediaCall.endpoints c, n ∈ heldBy s'.rooms

theorem OnHeld.same {s s' : Server} (h : s'.media = s.media) : OnHeld s s' :=
  ⟨[], by simp [h], fun c hc => (by cases hc)⟩

theorem OnHeld.snoc {s s' : Server} (h : OnHeld s s') (call : MediaCall)
    (hcall : ∀ n ∈ MediaCall.endpoints call, n ∈ heldBy s'.rooms) : OnHeld s (s'.callMedia call) := by
  obtain ⟨calls, hm, hall⟩ := h
  refine ⟨calls ++ [call], by simp [Server.callMedia, hm], fun c hc => ?_⟩
  rcases List.mem_append.mp hc with hc | hc
  · exact hall c hc
  · rw [List.mem_singleton.mp hc]
    exact hcall

/-- From the endpoint on, an offer calls this endpoint and the one that its present user publishes. -/
theorem respond_onHeld {s t : Server} {user roomId : String} {info : SessionInfo} {r : RoomRef}
    {offer : OfferMessage} (epType : WebRtcEndpointType) {e : Endpoint} (hmedia : t.media = s.media)
    (hhas : ∃ room, t.rooms.heap[r]? = some room ∧ Has room e) :
    OnHeld s (Server.respond user info roomId r offer t epType e).1 := by
  obtain ⟨room, hr, he⟩ := hhas
  have hheld : e ∈ heldBy t.rooms := mem_heldBy hr he
  set t' := t.answerOffer user info roomId offer epType e with ht'
  have hanswer : OnHeld s t' := by
    refine ⟨.processOffer e offer.sdp ::
      (t.buffers.flushBuffer ⟨some roomId, info.userId, offer.present⟩).2.map fun c => .addIceCandidate e c,
      ?_, ?_⟩
    · simp [ht', Server.answerOffer, Server.callMedia, Server.send, hmedia]
    · simp [ht', Server.answerOffer, Server.callMedia, Server.send, MediaCall.endpoints, hheld]
  show OnHeld s (t'.conclude user info r offer.present epType e).1
  cases epType with
  | outgoing =>
    refine forAll_invariant (I := OnHeld s) _ (fun u p hu => ?_) _ _ hanswer
    unfold Server.notifyEnter
    split
    · exact hu
    · exact hu
  | incoming =>
    dsimp only [Server.conclude, Server.connectPresent]
    split
    · exact hanswer
    · next p hp =>
      split
      · exact hanswer
      · next out hout =>
        obtain ⟨room', hr', hp⟩ := Option.bind_eq_some_iff.mp hp
        obtain ⟨present, -, hp⟩ := Option.bind_eq_some_iff.mp hp
        have hsource : out ∈ heldBy t.rooms := mem_heldBy hr' ⟨present, p, hp, .inl hout⟩
        refine hanswer.snoc (.connect out e) fun n hn => ?_
        rcases List.mem_pair.mp hn with rfl | rfl
        · exact hsource
        · exact hheld
  | customOutgoing => exact hanswer
  | customIncoming => exact hanswer

theorem step_onHeld (s : Media) (e : Event) : OnHeld s.server (step s e).server := by
  cases he : isMedia e with
  | false => exact .same (step_passive s e he).media
  | true =>
    cases e with
    | offer user offer kurento =>
      show OnHeld s.server (s.server.handleOffer user offer (s.build kurento)).1
      rcases handleOffer_cases s.server user offer (s.build kurento) with
        ⟨⟨failure, h⟩, -⟩ | ⟨info, x, r, hreach, h⟩
      · rw [h]
        exact .same rfl
      · obtain ⟨t, -, hspares, ht | ⟨epType, e, hhas, ht⟩⟩ :=
          offerInRoom_reaches (.offer user offer kurento) rfl info (s.build kurento) hreach.stored
        · rw [h, ht]
          exact .same hspares.media
        · rw [h, ht]
          exact respond_onHeld epType hspares.media hhas
    | candidate user message kurento =>
      show OnHeld s.server (handleCandidate s.server user message (s.build kurento)).1
      rcases handleCandidate_cases s.server user message (s.build kurento) with
        ⟨-, h⟩ | ⟨info, -, h | ⟨x, r, s', epType, e, -, -, -, hfound, h⟩⟩
      · rw [h]
        exact .same rfl
      · rw [h]
        exact .same rfl
      · rw [h]
        obtain ⟨room, hr, he⟩ := found_has hfound
        refine OnHeld.snoc (.same hfound.spares.media) _ fun n hn => ?_
        obtain rfl := List.mem_singleton.mp hn
        exact mem_heldBy hr he
    | _ => cases he

/-- What a room holds or has released stays on the books. -/
theorem step_keeps_booked (s : Media) (e : Event) (h : Accounted s) {n : Endpoint}
    (hn : n ∈ (ledger s.server.rooms).all) : n ∈ (ledger (step s e).server.rooms).all := by
  obtain ⟨new, -, (hsame | hone) | ⟨hw, -⟩⟩ := step_asks s e
  · rw [hsame]
    exact hn
  · rcases act_books hone h.keyed with hmoves | ⟨k, -, hmoves⟩
    · exact hmoves.conserves.mem_iff.mpr hn
    · exact hmoves.conserves.mem_iff.mpr (List.mem_cons_of_mem k hn)
  · exact watches_keep (I := fun m => n ∈ (ledger m).all)
      (fun m m' hwatch hm => (watch_moves hwatch).conserves.mem_iff.mpr hm) hw hn

/-- Every endpoint that was ever called is held or has been released. -/
def Booked (s : Media) : Prop :=
  ∀ c ∈ s.server.media, ∀ n ∈ MediaCall.endpoints c, n ∈ (ledger s.server.rooms).all

theorem step_booked (s : Media) (e : Event) (ha : Accounted s) (h : Booked s) : Booked (step s e) := by
  obtain ⟨calls, hm, hcalls⟩ := step_onHeld s e
  intro c hc n hn
  rw [hm] at hc
  rcases List.mem_append.mp hc with hc | hc
  · exact step_keeps_booked s e ha (h c hc n hn)
  · exact List.mem_append_right _ (hcalls c hc n hn)

/-- Over every run of the media server, no endpoint is released twice or held in two places
or after its release; whatever Kurento is asked to do, it is asked of an endpoint that is
held then; and no endpoint that was ever used drops out of the books. -/
theorem run_endpoint_ledger (roomDeleteTtl : Nat) (events : List Event) :
    let s := run step (Media.init roomDeleteTtl) events
    (releasedBy s.server.rooms ++ heldBy s.server.rooms).Nodup ∧
      (∀ c ∈ s.server.media, ∀ n ∈ MediaCall.endpoints c,
        n ∈ releasedBy s.server.rooms ++ heldBy s.server.rooms) ∧
      ∀ e, ∃ calls, (step s e).server.media = s.server.media ++ calls ∧
        ∀ c ∈ calls, ∀ n ∈ MediaCall.endpoints c,
          n ∈ heldBy (step s e).server.rooms ∧ n ∉ releasedBy (step s e).server.rooms := by
  intro s
  have hinv : Accounted s ∧ Booked s :=
    run_invariant (I := fun s => Accounted s ∧ Booked s)
      (fun s e h => ⟨step_accounted s e h.1, step_booked s e h.1 h.2⟩) _ events
      ⟨init_accounted roomDeleteTtl, fun c hc => (by cases hc)⟩
  refine ⟨hinv.1.balanced.nodup, hinv.2, fun e => ?_⟩
  obtain ⟨calls, hm, hcalls⟩ := step_onHeld s e
  refine ⟨calls, hm, fun c hc n hn => ⟨hcalls c hc n hn, ?_⟩⟩
  exact (step_accounted s e hinv.1).balanced.not_released (hcalls c hc n hn)

end MediaResources

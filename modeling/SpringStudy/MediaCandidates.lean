import SpringStudy.MediaEndpoints

/-!
# Candidates and the offers they wait for

A candidate waits in its buffer until an offer has flushed it; later ones go to
the endpoint at once. But the flag is the buffer's, and the buffer lives by
room, user and present, while the endpoint lives with the participant. A
candidate that finds the flag and not the endpoint makes a new one, for which
there was no offer.
-/
namespace MediaCandidates

open Tables Outcomes MediaRoom MediaBuffer MediaMessages MediaEndpoints Runs
open MediaRoomManager hiding Event step
open MediaSession hiding Event step
open MediaSocket hiding Event step handle

/-! ## Offers among the calls -/

/-- `processOffer` has been called on the endpoint. -/
def Offered (media : List MediaCall) (e : Endpoint) : Prop := ∃ sdp, .processOffer e sdp ∈ media

/-- No candidate is added to an endpoint without an offer for it before. -/
def OfferedFirst (media : List MediaCall) : Prop :=
  ∀ before e candidate after, media = before ++ .addIceCandidate e candidate :: after → Offered before e

theorem Offered.append {media : List MediaCall} {e : Endpoint} (h : Offered media e)
    (calls : List MediaCall) : Offered (media ++ calls) e := by
  obtain ⟨sdp, hm⟩ := h
  exact ⟨sdp, List.mem_append_left _ hm⟩

theorem offeredFirst_snoc (media : List MediaCall) (call : MediaCall) :
    OfferedFirst (media ++ [call]) ↔
      OfferedFirst media ∧ ∀ e candidate, call = .addIceCandidate e candidate → Offered media e := by
  constructor
  · intro h
    constructor
    · rintro before e candidate after rfl
      exact h before e candidate (after ++ [call]) (by simp)
    · rintro e candidate rfl
      exact h media e candidate [] rfl
  · rintro ⟨hmedia, hcall⟩ before e candidate after heq
    rcases List.eq_nil_or_concat after with rfl | ⟨after', last, rfl⟩
    · obtain ⟨rfl, hlast⟩ := List.append_inj' heq rfl
      exact hcall e candidate (List.singleton_inj.mp hlast)
    · have heq' : media ++ [call] = (before ++ .addIceCandidate e candidate :: after') ++ [last] := by
        simpa using heq
      exact hmedia before e candidate after' (List.append_inj' heq' rfl).1

/-- After the offer, the candidates of its endpoint and any connections may follow. -/
theorem offeredFirst_answer {media : List MediaCall} (h : OfferedFirst media) (e : Endpoint) (sdp : String)
    (candidates : List IceCandidate) :
    OfferedFirst (media ++ .processOffer e sdp :: candidates.map fun c => .addIceCandidate e c) := by
  induction candidates using List.reverseRecOn with
  | nil => exact (offeredFirst_snoc media _).mpr ⟨h, fun _ _ heq => by cases heq⟩
  | append_singleton candidates c ih =>
    rw [List.map_append, ← List.cons_append, ← List.append_assoc, List.map_singleton, offeredFirst_snoc]
    refine ⟨ih, fun e' c' heq => ?_⟩
    cases heq
    exact ⟨sdp, by simp⟩

/-! ## What an offer does -/

/-- No room has an endpoint that it had not in `s`, but for `e`. -/
def Gains (s : Server) (e : Endpoint) (s' : Server) : Prop :=
  ∀ (r : RoomRef) (room' : Room) (e' : Endpoint), s'.rooms.heap[r]? = some room' → Has room' e' →
    e' = e ∨ ∃ room, s.rooms.heap[r]? = some room ∧ Has room e'

/-- The offer was processed on the endpoint `e`. -/
structure Answered (s : Server) (e : Endpoint) (s' : Server) : Prop where
  media : ∃ (sdp : String) (candidates : List IceCandidate) (connections : List (Endpoint × Endpoint)),
    s'.media = s.media ++ (.processOffer e sdp :: candidates.map fun c => .addIceCandidate e c) ++
      connections.map fun p => .connect p.1 p.2
  has : ∃ (r : RoomRef) (room : Room), s'.rooms.heap[r]? = some room ∧ Has room e
  gains : Gains s e s'

section
variable {s s₁ : Server} {user roomId : String} {info : SessionInfo} {r : RoomRef} {offer : OfferMessage}
  {build : Option Endpoint} {epType : WebRtcEndpointType} {e : Endpoint}

theorem respond_answered (hmedia : s₁.media = s.media)
    (hhas : ∃ room, s₁.rooms.heap[r]? = some room ∧ Has room e) (hgains : Gains s e s₁) :
    Answered s e (Server.respond user info roomId r offer s₁ epType e).1 := by
  obtain ⟨connections, hm⟩ := respond_media user info roomId r offer s₁ epType e
  have hrooms := (respond_stores user info roomId r offer s₁ epType e).1
  refine ⟨⟨offer.sdp, _, connections, hmedia ▸ hm⟩, ⟨r, ?_⟩, ?_⟩
  · rw [hrooms]
    exact hhas
  · unfold Gains
    rw [hrooms]
    exact hgains

theorem gains_of_touch {new : Option Endpoint} {x : Option String}
    (h : Touch x new s.rooms s₁.rooms) (hnew : ∀ e', new = some e' → e' = e) : Gains s e s₁ := by
  intro r room' e' hr he
  rcases h.gains r room' e' hr he with hold | ⟨hn, -⟩
  · exact .inr hold
  · exact .inl (hnew e' hn)

theorem joinConference_join (h : s.joinConference info r build = (s₁, none)) :
    ∃ room q, s.rooms.heap[r]? = some room ∧ room.join info.userId build = some q ∧
      s₁.rooms.heap = s.rooms.heap.set r q.1 := by
  unfold Server.joinConference at h
  split at h
  · cases h
  · next q hq =>
    cases h
    obtain ⟨room, hr, hjoin⟩ := Option.bind_eq_some_iff.mp hq
    refine ⟨room, q, hr, hjoin, ?_⟩
    show (s.rooms.onRoom r fun room => room.call (.join info.userId build)).heap = _
    rw [onRoom_heap hr, Room.call, hjoin]
    rfl

/-- Either the participant was there before, or it has just got its outgoing endpoint. -/
theorem joinConference_heap (h : s.joinConference info r build = (s₁, none)) :
    s₁.rooms.heap = s.rooms.heap ∨
      ∃ e room p, build = some e ∧ s₁.rooms.heap[r]? = some room ∧
        room.userIdParticipants.lookup info.userId = some p ∧ p.outWebRtcEndpoint = some e := by
  obtain ⟨room, q, hr, hjoin, hheap⟩ := joinConference_join h
  rw [hheap]
  unfold Room.join at hjoin
  split at hjoin
  · obtain rfl := Option.some.inj hjoin
    exact .inl (set_same hr)
  · cases hjoin
  · next e _ =>
    obtain rfl := Option.some.inj hjoin
    exact .inr ⟨e, _, _, rfl, set_self hr, by simp; rfl, rfl⟩

/-- The join brings no endpoint, or it brings the one that the offer is then answered on. -/
theorem entered_cases (user : String) (ht : Entered s info r offer build s₁) (hs : Stored s.rooms)
    (hx : s.rooms.roomIdRooms.lookup roomId = some r) :
    Passive s s₁ ∨
      ∃ e, Gains s e s₁ ∧ (∃ room, s₁.rooms.heap[r]? = some room ∧ Has room e) ∧
        s.offerInRoom user info roomId r offer build = Server.respond user info roomId r offer s₁ .outgoing e := by
  have hw := entered_within ht hs hx
  have heq := ht.offerInRoom user roomId
  have hmedia := ht.spares.media
  rcases ht with ⟨-, rfl⟩ | ⟨hjoins, hj⟩
  · exact .inl (.refl s₁)
  · rcases joinConference_heap hj with hheap | ⟨e, room, p, rfl, hr, hp, he⟩
    · refine .inl ⟨hw.rooms.stored, fun r' room' e' hr' he' => ⟨room', ?_, he'⟩, hmedia⟩
      rw [← hheap]
      exact hr'
    · refine .inr ⟨e, gains_of_touch hw.rooms fun e' h => (Option.some.inj h).symm,
        ⟨room, hr, info.userId, p, hp, .inl he⟩, ?_⟩
      rw [heq]
      simp [Server.withEndpoint, Server.getWebRtcPeerDefaultCreate, hr, Room.findParticipant, hp, hjoins.2, he]

/-- An offer that does not reach `processOffer` brings no endpoint. -/
theorem offerInRoom_answered (hs : Stored s.rooms) (hx : s.rooms.roomIdRooms.lookup roomId = some r) :
    Passive s (s.offerInRoom user info roomId r offer build).1 ∨
      ∃ e, Answered s e (s.offerInRoom user info roomId r offer build).1 := by
  rcases offerInRoom_cases s user info roomId r offer build with ⟨failure, h⟩ | ⟨t, ht, hrest⟩
  · rw [h]
    exact .inl (.refl s)
  · rcases entered_cases user ht hs hx with hp | ⟨e, hgains, hhas, h⟩
    · rcases hrest with ⟨failure, h⟩ | ⟨t', epType, e, hfound, h⟩
      · rw [h]
        exact .inl hp
      · rw [h]
        refine .inr ⟨e, respond_answered (hfound.spares.media.trans hp.media) (found_has hfound) ?_⟩
        intro r' room' e' hr' he'
        have hx₁ := ((entered_within ht hs hx).rooms.map roomId).trans hx
        rcases gains_of_touch (found_touch hfound (hp.stored hs) hx₁)
          (fun e' hf => by simpa using (Option.filter_eq_some_iff.mp hf).2) r' room' e' hr' he' with
          rfl | ⟨room, hroom, he⟩
        · exact .inl rfl
        · exact .inr (hp.wanes r' room e' hroom he)
    · rw [h]
      exact .inr ⟨e, respond_answered ht.spares.media hhas hgains⟩

end

theorem handleOffer_answered {s : Server} (hs : Stored s.rooms) (user : String) (offer : OfferMessage)
    (build : Option Endpoint) : Passive s (s.handleOffer user offer build).1 ∨
      ∃ e, Answered s e (s.handleOffer user offer build).1 := by
  rcases handleOffer_cases s user offer build with ⟨⟨failure, h⟩, -⟩ | ⟨info, x, r, hreach, h⟩
  · rw [h]
    exact .inl (.refl s)
  · rw [h]
    exact offerInRoom_answered hs hreach.stored

/-! ## Candidates -/

/-- The buffer of the candidate has been flushed, but its participant has no
incoming endpoint for the present user: the candidate makes one. -/
def Orphaned (s : Server) (user : String) (message : CandidateMessage) : Prop :=
  ∃ info x r room p present, s.sessions.findSessionInfo user = some info ∧
    (∃ b, s.buffers.bufferMap.lookup ⟨roomOf info message.roomId, info.userId, message.present⟩ = some b ∧
      b.flush = true) ∧
    roomOf info message.roomId = some x ∧ s.rooms.roomIdRooms.lookup x = some r ∧
    s.rooms.heap[r]? = some room ∧ room.userIdParticipants.lookup info.userId = some p ∧
    message.type = some .incoming ∧ message.present = some present ∧
    p.presentInWebRtcPeer.lookup present = none

/-- Only a flushed buffer turns a candidate down. -/
theorem cache_refused_iff (m : BufferManger) (key : BufferKey) (candidate : IceCandidate) :
    (m.cache key candidate).2 = false ↔ ∃ b, m.bufferMap.lookup key = some b ∧ b.flush = true := by
  unfold BufferManger.cache BufferManger.getCandidateBuffer
  split
  · next b hb =>
    rw [hb]
    cases hf : b.flush <;> simp [CandidateBuffer.cache, hf]
  · next hb =>
    rw [hb]
    simp [CandidateBuffer.cache]

/-- A candidate that reaches an endpoint. -/
structure Delivered (s : Server) (e : Endpoint) (candidate : IceCandidate) (s' : Server) : Prop where
  media : s'.media = s.media ++ [.addIceCandidate e candidate]
  gains : Gains s e s'

/-- A candidate reaches an endpoint that is there, or it finds none and makes one. -/
theorem handleCandidate_delivered {s : Server} (hs : Stored s.rooms) (user : String)
    (message : CandidateMessage) (build : Option Endpoint) :
    Passive s (handleCandidate s user message build).1 ∨
      ∃ e, Delivered s e message.iceCandidate (handleCandidate s user message build).1 ∧
        ((∃ (r : RoomRef) (room : Room), s.rooms.heap[r]? = some room ∧ Has room e) ∨
          (build = some e ∧ Orphaned s user message)) := by
  rcases handleCandidate_cases s user message build with
    ⟨-, h⟩ | ⟨info, hinfo, h | ⟨x, r, s', epType, e, hflush, hx, hr, hfound, h⟩⟩
  · rw [h]
    exact .inl (.refl s)
  · rw [h]
    exact .inl (.of_eq rfl rfl)
  · refine .inr ⟨e, ?_, ?_⟩
    · rw [h]
      refine ⟨?_, gains_of_touch (found_touch hfound hs hr) fun e' hf => ?_⟩
      · rw [Server.callMedia, hfound.spares.media]
      · simpa using (Option.filter_eq_some_iff.mp hf).2
    · cases hfound with
      | outgoing hroom hp _ he => exact .inl ⟨r, _, hroom, info.userId, _, hp, .inl he⟩
      | @incoming room p p' present e hroom hp htype hpresent he =>
        cases hpeer : p.presentInWebRtcPeer.lookup present with
        | some e' =>
          have hsame : e' = e := by simp_all [Participant.createInEp]
          exact .inl ⟨r, room, hroom, info.userId, p, hp, .inr ⟨present, hsame ▸ hpeer⟩⟩
        | none =>
          have hbuild : build = some e := by
            cases build <;> simp_all [Participant.createInEp]
          exact .inr ⟨hbuild, info, x, r, room, p, present, hinfo, (cache_refused_iff _ _ _).mp hflush,
            hx, hr, hroom, hp, htype, hpresent, hpeer⟩

/-- Kurento's numbers: what has been offered or is in a room has one already. -/
structure Numbered (s : Media) : Prop where
  owned : Owned s.server.rooms s.endpoint
  offered : ∀ e, Offered s.server.media e → e < s.endpoint

theorem Answered.offered {s s' : Server} {e e' : Endpoint} (h : Answered s e s')
    (ho : Offered s'.media e') : Offered s.media e' ∨ e' = e := by
  obtain ⟨sdp, candidates, connections, hm⟩ := h.media
  obtain ⟨sdp', hmem⟩ := ho
  rw [hm] at hmem
  simp only [List.mem_append, List.mem_cons, List.mem_map, MediaCall.processOffer.injEq, reduceCtorEq,
    and_false, exists_false, or_false] at hmem
  rcases hmem with hmem | ⟨rfl, -⟩
  · exact .inl ⟨sdp', hmem⟩
  · exact .inr rfl

theorem Answered.first {s s' : Server} {e : Endpoint} (h : Answered s e s')
    (hf : OfferedFirst s.media) : OfferedFirst s'.media := by
  obtain ⟨sdp, candidates, connections, hm⟩ := h.media
  rw [hm]
  clear hm
  induction connections using List.reverseRecOn with
  | nil => simpa using offeredFirst_answer hf e sdp candidates
  | append_singleton connections p ih =>
    rw [List.map_append, ← List.append_assoc, List.map_singleton, offeredFirst_snoc]
    exact ⟨ih, fun _ _ heq => by cases heq⟩

theorem step_numbered (s : Media) (e : Event) (h : Numbered s) : Numbered (step s e) := by
  have howned := step_owned s e h.owned
  refine ⟨howned, fun e' ho => ?_⟩
  have hsame : (step s e).server.media = s.server.media → e' < (step s e).endpoint := fun hm =>
    Nat.lt_succ_of_lt (h.offered e' (hm ▸ ho))
  cases he : isMedia e with
  | false => exact hsame (step_passive s e he).media
  | true =>
    cases e with
    | offer user offer kurento =>
      rcases handleOffer_answered h.owned.stored user offer (s.build kurento) with hp | ⟨e₀, ha⟩
      · exact hsame hp.media
      · rcases ha.offered ho with hold | rfl
        · exact Nat.lt_succ_of_lt (h.offered e' hold)
        · obtain ⟨r, room, hr, hhas⟩ := ha.has
          exact howned.below r room e' hr hhas
    | candidate user message kurento =>
      rcases handleCandidate_delivered h.owned.stored user message (s.build kurento) with
        hp | ⟨e₀, hd, -⟩
      · exact hsame hp.media
      · obtain ⟨sdp, hmem⟩ := ho
        change _ ∈ (handleCandidate s.server user message (s.build kurento)).1.media at hmem
        rw [hd.media] at hmem
        exact Nat.lt_succ_of_lt (h.offered e' ⟨sdp, by simpa using hmem⟩)
    | _ => cases he

end MediaCandidates

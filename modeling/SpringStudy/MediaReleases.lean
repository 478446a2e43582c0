import SpringStudy.MediaBufferIndex
import SpringStudy.MediaEndpoints

/-!
# The buffers of a user who disconnects

The media server works on its candidate buffers in three places: an offer flushes
one, a candidate goes into one, and the end of a session releases those of its
user. After any run the release at a disconnect is therefore complete.
-/
namespace MediaReleases

open Tables Outcomes Runs MediaBuffer MediaRoom MediaMessages MediaEndpoints
open MediaRoomManager hiding Event step
open MediaSession hiding Event step
open MediaSocket hiding Event step handle
open MediaBufferIndex hiding Event step modify returned

/-! ## What a step does to the buffers -/

/-- One call on the buffers, or none. Only an offer flushes, and only a candidate is cached:
`media` tells whether the message is one of them. -/
inductive Moves (media : Bool) (m : BufferManger) : BufferManger → Prop where
  | same : Moves media m m
  | release (userId : String) : Moves media m (m.release userId)
  | flush (h : media = true) (key : BufferKey) : Moves media m (m.flushBuffer key).1
  | cache (h : media = true) (key : BufferKey) (candidate : IceCandidate) : Moves media m (m.cache key candidate).1

theorem Moves.of_eq {media : Bool} {m m' : BufferManger} (h : m' = m) : Moves media m m' := h ▸ .same

/-- The session that ends has its user's buffers released, whatever fails after that. -/
theorem unregister_buffers {s : Server} {user : String} {info : SessionInfo}
    (h : s.sessions.findSessionInfo user = some info) :
    (s.unregister user).1.buffers = s.buffers.release info.userId := by
  rw [Server.unregister, unregister_some s.sessions user info h]
  unfold Server.handleLeave
  dsimp only
  split
  · exact (leaveAllRoom_spares _ info.userId).buffers
  · exact (leaveConference_notifies _ info).buffers

theorem unregister_moves (media : Bool) (s : Server) (user : String) :
    Moves media s.buffers (s.unregister user).1.buffers := by
  cases h : s.sessions.findSessionInfo user with
  | some info =>
    rw [unregister_buffers h]
    exact .release info.userId
  | none =>
    have hnone : s.unregister user = (s, some .nullPointer) := by
      simp only [SessionManager.findSessionInfo] at h
      simp [Server.unregister, MediaSession.unregister, SessionManager.removeSession, h]
    rw [hnone]
    exact .same

/-- An offer that gets an endpoint flushes the buffer of its key. -/
theorem handleOffer_buffers (s : Server) (user : String) (offer : OfferMessage) (build : Option Endpoint) :
    (s.handleOffer user offer build).1.buffers = s.buffers ∨
      ∃ key, (s.handleOffer user offer build).1.buffers = (s.buffers.flushBuffer key).1 := by
  rcases handleOffer_cases s user offer build with ⟨⟨failure, h⟩, -⟩ | ⟨info, x, r, -, h⟩
  · rw [h]
    exact .inl rfl
  · rw [h]
    rcases offerInRoom_cases s user info x r offer build with
      ⟨failure, ho⟩ | ⟨t, ht, ⟨failure, ho⟩ | ⟨t', epType, e, hfound, ho⟩⟩
    · rw [ho]
      exact .inl rfl
    · rw [ho]
      exact .inl ht.spares.buffers
    · rw [ho, (respond_stores user info x r offer t' epType e).2.2, (ht.spares.trans hfound.spares).buffers]
      exact .inr ⟨_, rfl⟩

/-- The candidate of a session is offered to its buffer, whether that takes it or not. -/
theorem handleCandidate_buffers (s : Server) (user : String) (message : CandidateMessage) (build : Option Endpoint) :
    (s.sessions.findSessionInfo user = none ∧ (handleCandidate s user message build).1.buffers = s.buffers) ∨
      ∃ info, s.sessions.findSessionInfo user = some info ∧
        (handleCandidate s user message build).1.buffers = (cached s info message).1 := by
  rcases handleCandidate_cases s user message build with
    ⟨hnone, h⟩ | ⟨info, hinfo, h | ⟨x, r, s', epType, e, -, -, -, hfound, h⟩⟩
  · exact .inl ⟨hnone, congrArg Server.buffers h⟩
  · exact .inr ⟨info, hinfo, congrArg Server.buffers h⟩
  · exact .inr ⟨info, hinfo, (congrArg Server.buffers h).trans hfound.spares.buffers⟩

theorem step_moves (s : Media) (e : Event) :
    Moves (isMedia e) s.server.buffers (step s e).server.buffers := by
  cases e with
  | createRoom roomId wrapper now => exact .of_eq (createRoom_spares s.server roomId wrapper now).buffers
  | connect user userId roomId =>
    show Moves _ s.server.buffers (s.server.preSend user userId roomId).1.buffers
    rw [preSend_fst]
    exact .same
  | connected user userId roomId =>
    exact andThen_invariant (I := fun t : Server => Moves false s.server.buffers t.buffers) _ _
      (unregister_moves false s.server user) fun t h => h
  | disconnect user => exact unregister_moves false s.server user
  | registerMonitor user userId =>
    simp only [step, handle, registerMonitor]
    split <;> exact .same
  | fireTtl task now => exact .of_eq (withRooms_spares s.server _).buffers
  | kurentoDown order kmsUrl => exact .of_eq (kurentoDown_spares s.server order kmsUrl).buffers
  | monitor user message => exact .of_eq (handleMonitor_spares s.server user message).buffers
  | offer user offer kurento =>
    rcases handleOffer_buffers s.server user offer (s.build kurento) with h | ⟨key, h⟩
    · exact .of_eq h
    · exact h ▸ .flush rfl key
  | candidate user message kurento =>
    rcases handleCandidate_buffers s.server user message (s.build kurento) with ⟨-, h⟩ | ⟨info, -, h⟩
    · exact .of_eq h
    · exact h ▸ .cache rfl _ message.iceCandidate
  | record user isAgent type => exact .of_eq (handleRecord_notifies s.server user isAgent type).buffers
  | chat user message => exact .of_eq (handleChat_notifies s.server user message).buffers
  | data user message => exact .of_eq (handleData_notifies s.server user message).buffers

/-! ## Releases are complete -/

theorem Moves.indexed {media : Bool} {m m' : BufferManger} (h : Moves media m m') (hm : Indexed m) : Indexed m' := by
  cases h with
  | same => exact hm
  | release userId => exact release_indexed hm userId
  | flush _ key => exact flushBuffer_indexed hm key
  | cache _ key candidate => exact cache_indexed hm key candidate

theorem run_buffers_indexed (ttl : Nat) (events : List Event) :
    Indexed (run step (Media.init ttl) events).server.buffers :=
  run_invariant (I := fun s : Media => Indexed s.server.buffers)
    (fun s e h => (step_moves s e).indexed h) _ events empty_indexed

/-- When a session ends, no buffer of its user is left and every other buffer is as before. -/
theorem disconnect_releases_buffers (ttl : Nat) (events : List Event) (user : String) (info : SessionInfo)
    (h : (run step (Media.init ttl) events).server.sessions.findSessionInfo user = some info) (key : BufferKey) :
    (run step (Media.init ttl) (events ++ [.disconnect user])).server.buffers.bufferMap.lookup key =
      if key.userId = info.userId then none
      else (run step (Media.init ttl) events).server.buffers.bufferMap.lookup key := by
  rw [run_append, ← lookup_release (run_buffers_indexed ttl events), ← unregister_buffers h]
  rfl

/-- A candidate of Alice and one of Bob wait for an offer. -/
def bothWait : List Event :=
  [.createRoom "a" (some ⟨"kms", some 1⟩) 0, .connect "p1" (some "alice") (some "a"),
    .connect "p2" (some "bob") (some "a"), .candidate "p1" ⟨none, some .outgoing, none, ⟨"c1", "0", 0⟩⟩ true,
    .candidate "p2" ⟨none, some .outgoing, none, ⟨"c2", "0", 0⟩⟩ true]

theorem disconnect_releases_buffers_alice :
    let waiting := (run step (Media.init 60) bothWait).server.buffers.bufferMap
    let later := (run step (Media.init 60) (bothWait ++ [.disconnect "p1"])).server.buffers.bufferMap
    (waiting.lookup ⟨some "a", "alice", none⟩).isSome = true ∧ later.lookup ⟨some "a", "alice", none⟩ = none ∧
      (waiting.lookup ⟨some "a", "bob", none⟩).isSome = true ∧
      later.lookup ⟨some "a", "bob", none⟩ = waiting.lookup ⟨some "a", "bob", none⟩ := by
  have hkey := disconnect_releases_buffers 60 bothWait "p1" ⟨"p1", .conference, some "a", "alice"⟩ (by decide +kernel)
  exact ⟨by decide +kernel, hkey ⟨some "a", "alice", none⟩, by decide +kernel, hkey ⟨some "a", "bob", none⟩⟩

end MediaReleases

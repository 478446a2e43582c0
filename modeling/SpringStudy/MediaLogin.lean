import SpringStudy.MediaPublishers

/-!
# Logging in

A login is three calls on the session registry: the CONNECT interceptor
registers the client, and the CONNECTED listener unregisters and registers it
again. Each call is one step, and the steps of several clients interleave. Two
CONNECTED listeners do not: their method is synchronized.
-/
namespace MediaLogin

open Tables MediaRoom MediaSocket MediaPublishers Outcomes
open MediaRoomManager hiding Event step
open MediaSession hiding Event step

/-- How far a client has come. A client without an entry has not connected yet. -/
inductive Phase where
  | accepted
  | rejected
  /-- The CONNECTED listener has unregistered the client and not yet registered it again. -/
  | unregistered
  | connected
  /-- The CONNECTED listener has ended with an exception. -/
  | failed
  | disconnected
  deriving DecidableEq, Repr

/-- A client, known by its principal, with the headers of its CONNECT frame. -/
structure Client where
  userId : Option String
  roomId : Option String
  phase : Phase
  deriving DecidableEq, Repr

structure World where
  server : Server
  clients : Table String Client
  /-- The client whose CONNECTED listener holds the monitor of the event handler. -/
  listener : Option String

def World.init (roomDeleteTtl : Nat) : World := ⟨.init roomDeleteTtl, ∅, none⟩

inductive Event where
  | createRoom (roomId : String) (wrapper : Option PipelineWrapper) (now : Nat)
  | connect (p : String) (userId roomId : Option String)
  /-- The first half of the CONNECTED listener. -/
  | unregister (p : String)
  /-- The second half of the CONNECTED listener. -/
  | register (p : String)
  | disconnect (p : String)

/-- The client `c` of principal `p` goes on to `phase` with the server `s`. -/
def World.advance (w : World) (p : String) (c : Client) (phase : Phase) (listener : Option String)
    (s : Server) : World :=
  ⟨s, w.clients.insert p ⟨c.userId, c.roomId, phase⟩, listener⟩

/-- The events of one client come in order: an event out of turn is not one of the run and does nothing. -/
def handle (w : World) : Event → Outcome World Failure
  | .createRoom roomId wrapper now =>
    ({ w with server := (w.server.createRoom roomId wrapper now).1 },
      (w.server.createRoom roomId wrapper now).2)
  | .connect p userId roomId =>
    match w.clients.lookup p with
    | some _ => (w, none)
    | none =>
      match w.server.preSend p userId roomId with
      | (s, none) => (w.advance p ⟨userId, roomId, .accepted⟩ .accepted w.listener s, none)
      | (s, some e) => (w.advance p ⟨userId, roomId, .accepted⟩ .rejected w.listener s, some e)
  | .unregister p =>
    match w.clients.lookup p with
    | none => (w, none)
    | some c =>
      if c.phase = .accepted ∧ w.listener = none then
        match w.server.unregister p with
        | (s, none) => (w.advance p c .unregistered (some p) s, none)
        | (s, some e) => (w.advance p c .failed none s, some e)
      else (w, none)
  | .register p =>
    match w.clients.lookup p with
    | none => (w, none)
    | some c =>
      if c.phase = .unregistered then
        match w.server.register p c.userId c.roomId with
        | (s, none) => (w.advance p c .connected none s, none)
        | (s, some e) => (w.advance p c .failed none s, some e)
      else (w, none)
  | .disconnect p =>
    match w.clients.lookup p with
    | none => (w, none)
    | some c =>
      if c.phase = .unregistered then (w, none)
      else
        let q := w.server.handleSessionDisconnectedListener p
        (w.advance p c .disconnected w.listener q.1, q.2)

def step (w : World) (e : Event) : World := (handle w e).1

/-- With nobody in between, the two halves are the CONNECTED listener. -/
theorem halves_eq_listener (w : World) (p : String) (c : Client) (hc : w.clients.lookup p = some c)
    (hphase : c.phase = .accepted) (hlock : w.listener = none) :
    (Runs.run step w [.unregister p, .register p]).server =
      (w.server.handleSessionConnectedListener p c.userId c.roomId).1 := by
  unfold Server.handleSessionConnectedListener
  cases hq : w.server.unregister p with
  | mk s failure =>
    cases failure with
    | none =>
      simp only [Runs.run_cons, Runs.run_nil, step, handle, hc, hphase, hlock, hq, World.advance,
        and_self, ↓reduceIte, lookup_put, andThen_ok]
      split <;> simp [*]
    | some e => simp [step, handle, hc, hphase, hlock, hq, World.advance]

/-! ## What the calls on the registry do -/

/-- The registry holds no session of the user id. -/
def Free (m : SessionManager) (u : String) : Prop :=
  ∀ p info, m.findSessionInfo p = some info → info.userId ≠ u

theorem free_iff {m : SessionManager} (h : Inverse m) (u : String) :
    Free m u ↔ m.userIdIndex.lookup u = none := by
  constructor
  · intro hfree
    cases hu : m.userIdIndex.lookup u with
    | none => rfl
    | some p =>
      obtain ⟨info, hs, hid⟩ := (h u p).mp hu
      exact absurd hid (hfree p info hs)
  · intro hu p info hs hid
    have hi := (h u p).mpr ⟨info, hs, hid⟩
    rw [hu] at hi
    cases hi

/-- `register` on a principal without a session: it needs a user id, and one that is free. -/
theorem register_cases (m : SessionManager) (p : String) (userId roomId : Option String)
    (hinv : Inverse m) (hfresh : m.findSessionInfo p = none) :
    (register m p userId roomId = (m, some .nullPointer) ∧ userId = none) ∨
    (∃ u, userId = some u ∧ ¬ Free m u ∧ register m p userId roomId = (m, some (.common .duplicatedLogin))) ∨
    (∃ u, userId = some u ∧ Free m u ∧ (register m p userId roomId).2 = none ∧
      Inverse (register m p userId roomId).1 ∧
      ∀ q, (register m p userId roomId).1.findSessionInfo q =
        if q = p then some ⟨p, .conference, roomId, u⟩ else m.findSessionInfo q) := by
  cases userId with
  | none => exact .inl ⟨rfl, rfl⟩
  | some u =>
    cases hu : m.userIdIndex.lookup u with
    | some q =>
      refine .inr (.inl ⟨u, rfl, ?_, register_taken m p u roomId q hu⟩)
      rw [free_iff hinv, hu]
      simp
    | none =>
      refine .inr (.inr ⟨u, rfl, (free_iff hinv u).mpr hu, by simp [register, hu], ?_, ?_⟩)
      · exact (register_inverse_iff m p u roomId hinv hu).mpr hfresh
      · intro q
        rw [SessionManager.findSessionInfo, register_free_sessions m p u roomId hu]
        simp only [show m.principalNameSessionInfo.lookup p = none from hfresh, and_true]
        rfl

theorem unregister_find_all (m : SessionManager) (p q : String) :
    (unregister m p).1.findSessionInfo q = if q = p then none else m.findSessionInfo q := by
  cases hs : m.findSessionInfo p with
  | none =>
    rw [unregister_none m p hs]
    split
    · rename_i he; rw [he, hs]
    · rfl
  | some info =>
    rw [unregister_some m p info hs]
    simp [SessionManager.findSessionInfo]

/-! ## Clients and their sessions -/

/-- A client in this phase has a session. -/
def Phase.live : Phase → Bool
  | .accepted => true
  | .connected => true
  | _ => false

/-- The session of the client, if its phase has one. -/
def Client.Holds (c : Client) (session : Option SessionInfo) : Prop :=
  if c.phase.live then ∃ info, session = some info ∧ c.userId = some info.userId ∧ c.roomId = info.roomId
  else session = none

structure Consistent (w : World) : Prop where
  background : Background w.server
  inverse : Inverse w.server.sessions
  nobody : ∀ x u, ¬ Publishes w.server.rooms x u
  /-- Only clients have sessions. -/
  unknown : ∀ p, w.clients.lookup p = none → w.server.sessions.findSessionInfo p = none
  holds : ∀ p c, w.clients.lookup p = some c → c.Holds (w.server.sessions.findSessionInfo p)
  named : ∀ p c, w.clients.lookup p = some c → c.phase = .unregistered → c.userId ≠ none

theorem Consistent.registered {w : World} (h : Consistent w) : Registered w.server :=
  fun x u hp => absurd hp (h.nobody x u)

/-- A client goes on to a phase that fits its session, and the others keep theirs. -/
theorem Consistent.advance {w : World} (h : Consistent w) (p : String) (c : Client) (phase : Phase)
    (listener : Option String) (s : Server) (hb : Background s) (hinv : Inverse s.sessions)
    (hrooms : s.rooms = w.server.rooms)
    (hothers : ∀ q, q ≠ p → s.sessions.findSessionInfo q = w.server.sessions.findSessionInfo q)
    (hown : Client.Holds ⟨c.userId, c.roomId, phase⟩ (s.sessions.findSessionInfo p))
    (hnamed : phase = .unregistered → c.userId ≠ none) : Consistent (w.advance p c phase listener s) where
  background := hb
  inverse := hinv
  nobody := by
    intro x u
    simp only [World.advance, hrooms]
    exact h.nobody x u
  unknown := by
    intro q hq
    simp only [World.advance, lookup_put] at hq
    split at hq
    · cases hq
    · rename_i hne
      exact (hothers q hne).trans (h.unknown q hq)
  holds := by
    intro q c' hq
    simp only [World.advance, lookup_put] at hq
    split at hq
    · rename_i he
      simp only [Option.some.injEq] at hq
      subst he hq
      exact hown
    · rename_i hne
      simp only [World.advance, hothers q hne]
      exact h.holds q c' hq
  named := by
    intro q c' hq hphase
    simp only [World.advance, lookup_put] at hq
    split at hq
    · simp only [Option.some.injEq] at hq
      subst hq
      exact hnamed hphase
    · exact h.named q c' hq hphase

theorem Consistent.holds_none {w : World} (h : Consistent w) (p : String) (c : Client)
    (hc : w.clients.lookup p = some c) (hphase : c.phase.live = false) :
    w.server.sessions.findSessionInfo p = none := by
  have hholds := h.holds p c hc
  simpa [Client.Holds, hphase] using hholds

theorem createRoom_consistent (w : World) (roomId : String) (wrapper : Option PipelineWrapper)
    (now : Nat) (h : Consistent w) : Consistent (step w (.createRoom roomId wrapper now)) := by
  have hquiet := createRoom_quiet w.server roomId wrapper now h.background
  have hsess : (step w (.createRoom roomId wrapper now)).server.sessions = w.server.sessions :=
    hquiet.sessions
  refine ⟨hquiet.background h.background, ?_, ?_, ?_, ?_, h.named⟩
  · rw [hsess]; exact h.inverse
  · -- a new room has no participants
    intro x u hp
    simp only [step, handle, Server.createRoom] at hp
    split at hp
    · exact h.nobody x u hp
    · rename_i m hm
      rcases (createRoom_adds hm h.background.rooms).publishers x u hp with hold | ⟨-, hno⟩
      · exact h.nobody x u hold
      · exact hno
  · rw [hsess]; exact h.unknown
  · rw [hsess]; exact h.holds

theorem connect_spec (w : World) (p : String) (userId roomId : Option String) (h : Consistent w)
    (hnew : w.clients.lookup p = none) :
    Consistent (step w (.connect p userId roomId)) ∧
    (∃ phase, phase ≠ .failed ∧
      (step w (.connect p userId roomId)).clients = w.clients.insert p ⟨userId, roomId, phase⟩) ∧
    ((handle w (.connect p userId roomId)).2 = none ∨
      (handle w (.connect p userId roomId)).2 = some (.common .duplicatedLogin) ↔ userId ≠ none) := by
  have hfresh := h.unknown p hnew
  have hstay : ∀ (phase : Phase) (c : Client), phase.live = false → phase ≠ .unregistered →
      Consistent (w.advance p c phase w.listener w.server) := by
    intro phase c hlive hne
    refine h.advance p c phase _ _ h.background h.inverse rfl (fun _ _ => rfl) ?_ fun he => absurd he hne
    simp [Client.Holds, hlive, hfresh]
  simp only [step, handle, hnew]
  rcases register_cases w.server.sessions p userId roomId h.inverse hfresh with
    ⟨hq, rfl⟩ | ⟨u, rfl, -, hq⟩ | ⟨u, rfl, -, hok, hinv, hfind⟩
  · have hsend : w.server.preSend p none roomId = (w.server, some (.common .internalServerError)) := by
      simp [Server.preSend, Server.register, hq]
    rw [hsend]
    exact ⟨hstay .rejected _ rfl (by simp), ⟨.rejected, by simp, rfl⟩, by simp⟩
  · have hsend : w.server.preSend p (some u) roomId = (w.server, some (.common .duplicatedLogin)) := by
      simp [Server.preSend, Server.register, hq]
    rw [hsend]
    exact ⟨hstay .rejected _ rfl (by simp), ⟨.rejected, by simp, rfl⟩, by simp⟩
  · have hsend : w.server.preSend p (some u) roomId =
        ((w.server.register p (some u) roomId).1, none) := by
      simp [Server.preSend, Server.register, hok]
    rw [hsend]
    refine ⟨?_, ⟨.accepted, by simp, rfl⟩, by simp⟩
    refine h.advance p _ .accepted _ _ (register_background _ p _ roomId h.background) hinv rfl ?_ ?_ ?_
    · intro q hne
      simp only [Server.register, hfind, if_neg hne]
    · simp only [Server.register, hfind, ↓reduceIte, Client.Holds, Phase.live]
      exact ⟨_, rfl, rfl, rfl⟩
    · intro he
      cases he

/-- The session that a client in its first phase holds is removed; only a missing
ROOM header stops the listener. -/
theorem unregister_spec (w : World) (p : String) (c : Client) (h : Consistent w)
    (hc : w.clients.lookup p = some c) (hphase : c.phase = .accepted) (hlock : w.listener = none) :
    Consistent (step w (.unregister p)) ∧
    (step w (.unregister p)).clients = w.clients.insert p
      ⟨c.userId, c.roomId, if c.roomId = none then .failed else .unregistered⟩ ∧
    (handle w (.unregister p)).2 = if c.roomId = none then some .nullPointer else none := by
  have hholds := h.holds p c hc
  simp only [Client.Holds, hphase, Phase.live, ↓reduceIte] at hholds
  obtain ⟨info, hs, huser, hroom⟩ := hholds
  have hfailure := unregister_failure w.server p h.background h.registered
  rw [hs] at hfailure
  simp only [← hroom, Option.isNone_iff_eq_none] at hfailure
  obtain ⟨hsess, hrooms⟩ := unregister_stores w.server p h.background.conferenceOnly
  have hadvance : ∀ (phase : Phase) listener, phase.live = false →
      Consistent (w.advance p c phase listener (w.server.unregister p).1) := by
    intro phase listener hlive
    refine h.advance p c phase _ _ (unregister_background _ p h.background) ?_ hrooms ?_ ?_ ?_
    · rw [hsess]
      exact unregister_inverse _ p h.background.indexed h.inverse
    · intro q hne
      rw [hsess, unregister_find_all, if_neg hne]
    · rw [hsess, unregister_find_all, if_pos rfl]
      simp [Client.Holds, hlive]
    · exact fun _ => by simp [huser]
  simp only [step, handle, hc, hphase, hlock, and_self, ↓reduceIte]
  cases hq : w.server.unregister p with
  | mk s failure =>
    rw [hq] at hfailure hadvance
    simp only at hfailure hadvance
    rw [hfailure]
    by_cases hnone : c.roomId = none
    · simp only [hnone, ↓reduceIte]
      exact ⟨hadvance .failed none rfl, by rw [World.advance, hnone], trivial⟩
    · simp only [hnone, ↓reduceIte]
      exact ⟨hadvance .unregistered (some p) rfl, rfl, trivial⟩

/-- The client is registered again exactly if nobody has taken its user id in between. -/
theorem register_spec (w : World) (p : String) (c : Client) (h : Consistent w)
    (hc : w.clients.lookup p = some c) (hphase : c.phase = .unregistered) :
    ∃ u, c.userId = some u ∧ Consistent (step w (.register p)) ∧
      ((Free w.server.sessions u ∧ (handle w (.register p)).2 = none ∧
        (step w (.register p)).clients = w.clients.insert p ⟨c.userId, c.roomId, .connected⟩) ∨
      (¬ Free w.server.sessions u ∧ (handle w (.register p)).2 = some (.common .duplicatedLogin) ∧
        (step w (.register p)).clients = w.clients.insert p ⟨c.userId, c.roomId, .failed⟩)) := by
  have hfresh := h.holds_none p c hc (by rw [hphase]; rfl)
  have hnamed := h.named p c hc hphase
  simp only [step, handle, hc, hphase, ↓reduceIte]
  rcases register_cases w.server.sessions p c.userId c.roomId h.inverse hfresh with
    ⟨-, hnone⟩ | ⟨u, hu, htaken, hq⟩ | ⟨u, hu, hfree, hok, hinv, hfind⟩
  · exact absurd hnone hnamed
  · have hstep : w.server.register p c.userId c.roomId = (w.server, some (.common .duplicatedLogin)) := by
      simp only [Server.register, hq]
    rw [hstep]
    refine ⟨u, hu, ?_, .inr ⟨htaken, rfl, rfl⟩⟩
    refine h.advance p c .failed _ _ h.background h.inverse rfl (fun _ _ => rfl) ?_ (by simp)
    simp [Client.Holds, Phase.live, hfresh]
  · have hstep : w.server.register p c.userId c.roomId =
        ((w.server.register p c.userId c.roomId).1, none) := Prod.ext rfl hok
    rw [hstep]
    refine ⟨u, hu, ?_, .inl ⟨hfree, rfl, rfl⟩⟩
    refine h.advance p c .connected _ _ (register_background _ p c.userId c.roomId h.background) hinv rfl
      ?_ ?_ (by simp)
    · intro q hne
      simp only [Server.register, hfind, if_neg hne]
    · simp only [Server.register, hfind, ↓reduceIte]
      exact ⟨_, rfl, hu, rfl⟩

theorem disconnect_spec (w : World) (p : String) (c : Client) (h : Consistent w)
    (hc : w.clients.lookup p = some c) (hphase : c.phase ≠ .unregistered) :
    Consistent (step w (.disconnect p)) ∧
    (step w (.disconnect p)).clients = w.clients.insert p ⟨c.userId, c.roomId, .disconnected⟩ ∧
    ((handle w (.disconnect p)).2 = none ↔
      ∃ info, w.server.sessions.findSessionInfo p = some info ∧ info.roomId ≠ none) ∧
    (w.server.sessions.findSessionInfo p = none → (step w (.disconnect p)).server = w.server) := by
  obtain ⟨hsess, hrooms⟩ := unregister_stores w.server p h.background.conferenceOnly
  have hfailure := unregister_failure w.server p h.background h.registered
  simp only [step, handle, hc, hphase, ↓reduceIte, Server.handleSessionDisconnectedListener]
  refine ⟨?_, rfl, ?_, ?_⟩
  · refine h.advance p c .disconnected _ _ (unregister_background _ p h.background) ?_ hrooms ?_ ?_
      (by simp)
    · rw [hsess]
      exact unregister_inverse _ p h.background.indexed h.inverse
    · intro q hne
      rw [hsess, unregister_find_all, if_neg hne]
    · rw [hsess, unregister_find_all, if_pos rfl]
      simp [Client.Holds, Phase.live]
  · rw [hfailure]
    cases hs : w.server.sessions.findSessionInfo p with
    | none => simp
    | some info => cases hroom : info.roomId <;> simp [hroom]
  · intro hs
    simp only [World.advance, Server.unregister, unregister_none _ p hs]

theorem step_consistent (w : World) (e : Event) (h : Consistent w) : Consistent (step w e) := by
  cases e with
  | createRoom roomId wrapper now => exact createRoom_consistent w roomId wrapper now h
  | connect p userId roomId =>
    cases hc : w.clients.lookup p with
    | some c => simpa [step, handle, hc] using h
    | none => exact (connect_spec w p userId roomId h hc).1
  | unregister p =>
    cases hc : w.clients.lookup p with
    | none => simpa [step, handle, hc] using h
    | some c =>
      by_cases hrun : c.phase = .accepted ∧ w.listener = none
      · exact (unregister_spec w p c h hc hrun.1 hrun.2).1
      · simpa [step, handle, hc, hrun] using h
  | register p =>
    cases hc : w.clients.lookup p with
    | none => simpa [step, handle, hc] using h
    | some c =>
      by_cases hrun : c.phase = .unregistered
      · obtain ⟨u, -, hcons, -⟩ := register_spec w p c h hc hrun
        exact hcons
      · simpa [step, handle, hc, hrun] using h
  | disconnect p =>
    cases hc : w.clients.lookup p with
    | none => simpa [step, handle, hc] using h
    | some c =>
      by_cases hrun : c.phase = .unregistered
      · simpa [step, handle, hc, hrun] using h
      · exact (disconnect_spec w p c h hc hrun).1

theorem init_consistent (ttl : Nat) : Consistent (.init ttl) where
  background := init_background ttl
  inverse := empty_inverse
  nobody := by
    intro x u hp
    obtain ⟨r, room, p, hmap, -⟩ := hp
    simp [World.init, Server.init, RoomManager.init] at hmap
  unknown := fun _ _ => rfl
  holds := by
    intro p c hc
    simp [World.init] at hc
  named := by
    intro p c hc
    simp [World.init] at hc

/-! ## A client that has logged in keeps its session -/

/-- Every client whose CONNECTED listener has finished has its own session,
found by its principal and by its user id. -/
def OwnSessions (w : World) : Prop :=
  ∀ p c, w.clients.lookup p = some c → c.phase = .connected ∨ c.phase = .failed →
    ∃ info, w.server.sessions.findSessionInfo p = some info ∧ info.principal = p ∧
      c.userId = some info.userId ∧ w.server.sessions.findSessionInfoByUserId info.userId = some info

/-- The halves of the CONNECTED listener run with a ROOM header, and while no
session of the client's user id is there. -/
def ListenerUndisturbed (w : World) : Event → Prop
  | .unregister p => ∀ c, w.clients.lookup p = some c → c.phase = .accepted → w.listener = none →
      c.roomId ≠ none
  | .register p => ∀ c u, w.clients.lookup p = some c → c.phase = .unregistered → c.userId = some u →
      Free w.server.sessions u
  | _ => True

theorem undisturbed_unregister_iff {w : World} {p : String} {c : Client}
    (hc : w.clients.lookup p = some c) :
    ListenerUndisturbed w (.unregister p) ↔
      (c.phase = .accepted ∧ w.listener = none → c.roomId ≠ none) := by
  simp only [ListenerUndisturbed, hc, Option.some.injEq, forall_eq', and_imp]

theorem undisturbed_register_iff {w : World} {p : String} {c : Client}
    (hc : w.clients.lookup p = some c) :
    ListenerUndisturbed w (.register p) ↔
      (c.phase = .unregistered → ∀ u, c.userId = some u → Free w.server.sessions u) := by
  constructor
  · intro h hphase u hu
    exact h c u hc hphase hu
  · intro h d u hd hphase hu
    rw [hc, Option.some.injEq] at hd
    subst hd
    exact h hphase u hu

/-- Sessions are only lost by a listener that fails. -/
theorem ownSessions_iff (w : World) (h : Consistent w) :
    OwnSessions w ↔ ∀ p c, w.clients.lookup p = some c → c.phase ≠ .failed := by
  constructor
  · intro hown p c hc hphase
    obtain ⟨info, hs, -⟩ := hown p c hc (.inr hphase)
    rw [h.holds_none p c hc (by rw [hphase]; rfl)] at hs
    cases hs
  · intro hno p c hc hphase
    have hconn : c.phase = .connected := by
      rcases hphase with hphase | hphase
      · exact hphase
      · exact absurd hphase (hno p c hc)
    have hholds := h.holds p c hc
    simp only [Client.Holds, hconn, Phase.live, ↓reduceIte] at hholds
    obtain ⟨info, hs, huser, -⟩ := hholds
    exact ⟨info, hs, (h.background.indexed p info hs).2, huser, find_own h.background.indexed hs⟩

/-- Where one client goes on, somebody has failed exactly if that client has. -/
theorem noFailed_insert (w w' : World) (p : String) (c : Client)
    (hclients : w'.clients = w.clients.insert p c)
    (hold : ∀ p c, w.clients.lookup p = some c → c.phase ≠ .failed) :
    (∀ p c, w'.clients.lookup p = some c → c.phase ≠ .failed) ↔ c.phase ≠ .failed := by
  constructor
  · intro h
    exact h p c (by rw [hclients]; simp)
  · intro hc q d hq
    rw [hclients, lookup_put] at hq
    split at hq
    · simp only [Option.some.injEq] at hq
      exact hq ▸ hc
    · exact hold q d hq

theorem step_ownSessions_iff (w : World) (e : Event) (h : Consistent w) (hown : OwnSessions w) :
    OwnSessions (step w e) ↔ ListenerUndisturbed w e := by
  rw [ownSessions_iff w h] at hown
  rw [ownSessions_iff _ (step_consistent w e h)]
  cases e with
  | createRoom roomId wrapper now => exact ⟨fun _ => trivial, fun _ => hown⟩
  | connect p userId roomId =>
    refine ⟨fun _ => trivial, fun _ => ?_⟩
    cases hc : w.clients.lookup p with
    | some c => simpa [step, handle, hc] using hown
    | none =>
      obtain ⟨-, ⟨phase, hphase, hclients⟩, -⟩ := connect_spec w p userId roomId h hc
      exact (noFailed_insert w _ p _ hclients hown).mpr hphase
  | unregister p =>
    cases hc : w.clients.lookup p with
    | none => simpa [step, handle, hc, ListenerUndisturbed] using hown
    | some c =>
      rw [undisturbed_unregister_iff hc]
      by_cases hrun : c.phase = .accepted ∧ w.listener = none
      · obtain ⟨-, hclients, -⟩ := unregister_spec w p c h hc hrun.1 hrun.2
        rw [noFailed_insert w _ p _ hclients hown]
        cases hroom : c.roomId <;> simp [hrun]
      · simpa [step, handle, hc, hrun] using hown
  | register p =>
    cases hc : w.clients.lookup p with
    | none => simpa [step, handle, hc, ListenerUndisturbed] using hown
    | some c =>
      rw [undisturbed_register_iff hc]
      by_cases hrun : c.phase = .unregistered
      · obtain ⟨u, hu, -, ⟨hfree, -, hclients⟩ | ⟨htaken, -, hclients⟩⟩ := register_spec w p c h hc hrun
        · rw [noFailed_insert w _ p _ hclients hown]
          simp [hu, hfree]
        · rw [noFailed_insert w _ p _ hclients hown]
          simp [hrun, hu, htaken]
      · simpa [step, handle, hc, hrun] using hown
  | disconnect p =>
    refine ⟨fun _ => trivial, fun _ => ?_⟩
    cases hc : w.clients.lookup p with
    | none => simpa [step, handle, hc] using hown
    | some c =>
      by_cases hrun : c.phase = .unregistered
      · simpa [step, handle, hc, hrun] using hown
      · obtain ⟨-, hclients, -⟩ := disconnect_spec w p c h hc hrun
        exact (noFailed_insert w _ p _ hclients hown).mpr (by simp)

theorem init_ownSessions (ttl : Nat) : OwnSessions (.init ttl) := by
  intro p c hc
  simp [World.init] at hc

/-- Over every interleaving of logins, each client that has finished its login
has its session at all times exactly when no listener was disturbed. -/
theorem ownSessions_iff_undisturbed (ttl : Nat) (events : List Event) :
    Runs.Throughout step OwnSessions (.init ttl) events ↔
      Runs.Along step ListenerUndisturbed (.init ttl) events :=
  Runs.throughout_iff_along (fun w e h _ => step_consistent w e h) step_ownSessions_iff
    (.init ttl) events (init_consistent ttl) (init_ownSessions ttl)

/-- A second client connects with the user id between the two halves of the
first client's listener, which then ends with DUPLICATED_LOGIN. -/
theorem userId_taken_between_halves :
    ¬ Runs.Throughout step OwnSessions (.init 3600)
      [.connect "p" (some "alice") (some "r"), .unregister "p",
       .connect "q" (some "alice") (some "r"), .register "p"] := by
  intro h
  obtain ⟨-, -, -, -, hlast⟩ := h
  obtain ⟨info, hs, -⟩ := hlast "p" ⟨some "alice", some "r", .failed⟩ (by decide) (by decide)
  have hnone : (Runs.run step (.init 3600)
      [.connect "p" (some "alice") (some "r"), .unregister "p",
       .connect "q" (some "alice") (some "r"), .register "p"]).server.sessions.findSessionInfo "p" =
      none := by decide
  exact absurd (hnone.symm.trans hs) (by simp)

/-! ## The errors of a login -/

/-- Room creation is not one of the handlers of a login. -/
def Event.isCreateRoom : Event → Bool
  | .createRoom _ _ _ => true
  | _ => false

def Event.isConnect : Event → Bool
  | .connect _ _ _ => true
  | _ => false

/-- The handlers raise no error but DUPLICATED_LOGIN at CONNECT, and a DISCONNECT
without a session changes nothing. -/
def OnlyDuplicatedLogin (w : World) (e : Event) : Prop :=
  (e.isCreateRoom = false → (handle w e).2 = none ∨
    (e.isConnect = true ∧ (handle w e).2 = some (.common .duplicatedLogin))) ∧
  ∀ p, e = .disconnect p → w.server.sessions.findSessionInfo p = none → (step w e).server = w.server

/-- Headers are there, no listener is disturbed, and who disconnects has a session. -/
def Orderly (w : World) : Event → Prop
  | .connect p userId _ => w.clients.lookup p = none → userId ≠ none
  | .disconnect p => ∀ c, w.clients.lookup p = some c → c.phase ≠ .unregistered →
      ∃ info, w.server.sessions.findSessionInfo p = some info ∧ info.roomId ≠ none
  | .unregister p => ListenerUndisturbed w (.unregister p)
  | .register p => ListenerUndisturbed w (.register p)
  | .createRoom _ _ _ => True

theorem onlyDuplicatedLogin_of_skip {w : World} {e : Event} (h : handle w e = (w, none)) :
    OnlyDuplicatedLogin w e := by
  refine ⟨fun _ => .inl (by rw [h]), ?_⟩
  intro p _ _
  rw [step, h]

section
variable (w : World) (p : String)

theorem connect_only_iff (h : Consistent w) (userId roomId : Option String) :
    OnlyDuplicatedLogin w (.connect p userId roomId) ↔ Orderly w (.connect p userId roomId) := by
  cases hc : w.clients.lookup p with
  | some c =>
    have hskip : OnlyDuplicatedLogin w (.connect p userId roomId) :=
      onlyDuplicatedLogin_of_skip (by simp [handle, hc])
    simp [hskip, Orderly, hc]
  | none =>
    have herror := (connect_spec w p userId roomId h hc).2.2
    simp [OnlyDuplicatedLogin, Orderly, Event.isCreateRoom, Event.isConnect, hc, ← herror]

theorem unregister_only_iff (h : Consistent w) :
    OnlyDuplicatedLogin w (.unregister p) ↔ Orderly w (.unregister p) := by
  cases hc : w.clients.lookup p with
  | none =>
    have hskip : OnlyDuplicatedLogin w (.unregister p) :=
      onlyDuplicatedLogin_of_skip (by simp [handle, hc])
    simp [hskip, Orderly, ListenerUndisturbed, hc]
  | some c =>
    rw [Orderly, undisturbed_unregister_iff hc]
    by_cases hrun : c.phase = .accepted ∧ w.listener = none
    · obtain ⟨-, -, herror⟩ := unregister_spec w p c h hc hrun.1 hrun.2
      simp [OnlyDuplicatedLogin, Event.isCreateRoom, Event.isConnect, herror, hrun]
    · have hskip : OnlyDuplicatedLogin w (.unregister p) :=
        onlyDuplicatedLogin_of_skip (by simp [handle, hc, hrun])
      simp [hskip, hrun]

theorem register_only_iff (h : Consistent w) :
    OnlyDuplicatedLogin w (.register p) ↔ Orderly w (.register p) := by
  cases hc : w.clients.lookup p with
  | none =>
    have hskip : OnlyDuplicatedLogin w (.register p) :=
      onlyDuplicatedLogin_of_skip (by simp [handle, hc])
    simp [hskip, Orderly, ListenerUndisturbed, hc]
  | some c =>
    rw [Orderly, undisturbed_register_iff hc]
    by_cases hrun : c.phase = .unregistered
    · obtain ⟨u, hu, -, ⟨hfree, herror, -⟩ | ⟨htaken, herror, -⟩⟩ := register_spec w p c h hc hrun
      · simp [OnlyDuplicatedLogin, Event.isCreateRoom, Event.isConnect, herror, hu, hfree]
      · simp [OnlyDuplicatedLogin, Event.isCreateRoom, Event.isConnect, herror, hrun, hu, htaken]
    · have hskip : OnlyDuplicatedLogin w (.register p) :=
        onlyDuplicatedLogin_of_skip (by simp [handle, hc, hrun])
      simp [hskip, hrun]

theorem disconnect_only_iff (h : Consistent w) :
    OnlyDuplicatedLogin w (.disconnect p) ↔ Orderly w (.disconnect p) := by
  cases hc : w.clients.lookup p with
  | none =>
    have hskip : OnlyDuplicatedLogin w (.disconnect p) :=
      onlyDuplicatedLogin_of_skip (by simp [handle, hc])
    simp [hskip, Orderly, hc]
  | some c =>
    by_cases hrun : c.phase = .unregistered
    · have hskip : OnlyDuplicatedLogin w (.disconnect p) :=
        onlyDuplicatedLogin_of_skip (by simp [handle, hc, hrun])
      simp [hskip, Orderly, hc, hrun]
    · obtain ⟨-, -, herror, hsame⟩ := disconnect_spec w p c h hc hrun
      have hnothing : ∀ q, Event.disconnect p = .disconnect q →
          w.server.sessions.findSessionInfo q = none → (step w (.disconnect p)).server = w.server := by
        intro q hq hs
        cases hq
        exact hsame hs
      constructor
      · intro honly d _ _
        rcases honly.1 rfl with hok | ⟨hconnect, -⟩
        · exact herror.mp hok
        · cases hconnect
      · intro horder
        exact ⟨fun _ => .inl (herror.mpr (horder c hc hrun)), hnothing⟩

end

/-- In a consistent world a step is free of other errors exactly if it is orderly. -/
theorem onlyDuplicatedLogin_iff (w : World) (e : Event) (h : Consistent w) :
    OnlyDuplicatedLogin w e ↔ Orderly w e := by
  cases e with
  | createRoom roomId wrapper now => simp [OnlyDuplicatedLogin, Orderly, Event.isCreateRoom]
  | connect p userId roomId => exact connect_only_iff w p h userId roomId
  | unregister p => exact unregister_only_iff w p h
  | register p => exact register_only_iff w p h
  | disconnect p => exact disconnect_only_iff w p h

/-- Over every interleaving of clients, the handlers raise nothing but
DUPLICATED_LOGIN at CONNECT exactly when every step is orderly. -/
theorem onlyDuplicatedLogin_iff_orderly (ttl : Nat) (events : List Event) :
    Runs.Along step OnlyDuplicatedLogin (.init ttl) events ↔ Runs.Along step Orderly (.init ttl) events :=
  Runs.along_iff_of_invariant step_consistent onlyDuplicatedLogin_iff (.init ttl) events
    (init_consistent ttl)

/-- The second client with a user id is rejected; the DISCONNECT event that
follows finds no session and ends with a null dereference. -/
theorem rejected_disconnect_fails :
    ¬ Runs.Along step OnlyDuplicatedLogin (.init 3600)
      [.connect "p" (some "alice") (some "r"), .connect "q" (some "alice") (some "r"),
       .disconnect "q"] := by
  intro h
  obtain ⟨-, -, hlast, -⟩ := h
  exact absurd (hlast.1 (by decide)) (by decide)

end MediaLogin

import SpringStudy.Tables
import SpringStudy.Runs

/-!
# The session registry of the media server

`SessionManager` keeps two maps: the sessions by principal name, and an index
from user id to principal name. `register` and `unregister` of
`SocketSessionServiceImpl` are the only writers. Headers that a client may
leave out are `none`; a `null` key of a `ConcurrentHashMap` is an exception.
-/
namespace MediaSession

open Tables

/-- The codes of `CommonException` that the modelled handlers throw. -/
inductive CommonCode where
  | duplicatedLogin
  | notFoundRoom
  | cannotConnectToOutgoing
  | unknownPresentUser
  | unknownWebrtcEpType
  | internalServerError
  | notFoundValidMediaServer
  | invalidMonitorSessionType
  | recordUserNotAgent
  | chatMessageIsNull
  | notFoundReceiver
  | unknownReceiverUser
  deriving DecidableEq, Repr

/-- How a handler ends when it does not end normally. -/
inductive Failure where
  | common (code : CommonCode)
  | nullPointer
  /-- The null dereference where the session of a room's participant is looked up. -/
  | missingSession (userId : String)
  /-- Kurento did not build an endpoint. -/
  | kurento
  deriving DecidableEq, Repr

inductive TicketType where
  | conference
  | monitor
  deriving DecidableEq, Repr

structure SessionInfo where
  principal : String
  ticketType : TicketType
  roomId : Option String
  userId : String
  deriving DecidableEq, Repr

structure SessionManager where
  principalNameSessionInfo : Table String SessionInfo
  userIdIndex : Table String String
  deriving DecidableEq

namespace SessionManager

def empty : SessionManager := ⟨∅, ∅⟩

/-- `putIfAbsent` on the sessions, `computeIfAbsent` on the index. -/
def registerSession (m : SessionManager) (info : SessionInfo) : SessionManager where
  principalNameSessionInfo := match m.principalNameSessionInfo.lookup info.principal with
    | some _ => m.principalNameSessionInfo
    | none => m.principalNameSessionInfo.insert info.principal info
  userIdIndex := match m.userIdIndex.lookup info.userId with
    | some _ => m.userIdIndex
    | none => m.userIdIndex.insert info.userId info.principal

/-- `none` is the null dereference on a principal without a session; nothing has changed then. -/
def removeSession (m : SessionManager) (principal : String) : Option (SessionInfo × SessionManager) :=
  match m.principalNameSessionInfo.lookup principal with
  | none => none
  | some info => some (info, ⟨m.principalNameSessionInfo.erase principal, m.userIdIndex.erase info.userId⟩)

def findSessionInfo (m : SessionManager) (principal : String) : Option SessionInfo :=
  m.principalNameSessionInfo.lookup principal

/-- `none` stands both for the null key and for a principal without a session. -/
def findSessionInfoByUserId (m : SessionManager) (userId : String) : Option SessionInfo :=
  (m.userIdIndex.lookup userId).bind m.findSessionInfo

/-- The outer `none` is the null dereference on an index entry without a session. -/
def findPrincipalByUserId (m : SessionManager) (userId : Option String) : Option (Option String) :=
  match userId.bind m.userIdIndex.lookup with
  | none => some none
  | some name => (m.findSessionInfo name).map fun info => some info.principal

end SessionManager

def register (m : SessionManager) (user : String) (userId roomId : Option String) :
    SessionManager × Option Failure :=
  match userId with
  | none => (m, some .nullPointer)
  | some u =>
    match m.userIdIndex.lookup u with
    | some _ => (m, some (.common .duplicatedLogin))
    | none => (m.registerSession ⟨user, .conference, roomId, u⟩, none)

/-- `unregister` up to its callback, which receives the removed session. -/
def unregister (m : SessionManager) (user : String) : SessionManager × Except Failure SessionInfo :=
  match m.removeSession user with
  | none => (m, .error .nullPointer)
  | some (info, m') => (m', .ok info)

/-! ## Monitoring users -/

/-- `userId_monitorSession`: the rooms each monitoring user has joined. -/
abbrev MonitorSessions := Table String (List String)

namespace MonitorSessions

/-- `MonitorSession.addRoom` on the session of the user, built if missing. -/
def addRoom (sessions : MonitorSessions) (userId roomId : String) : MonitorSessions :=
  sessions.insert userId (((sessions.lookup userId).getD []).insert roomId)

/-- `MonitorSession.removeRoom`, if the user has a session. -/
def removeRoom (sessions : MonitorSessions) (userId roomId : String) : MonitorSessions :=
  match sessions.lookup userId with
  | none => sessions
  | some roomIds => sessions.insert userId (roomIds.erase roomId)

/-- `MonitorManger.endRoomProcess`. -/
def endRoomProcess (sessions : MonitorSessions) (roomId : String) : MonitorSessions :=
  mapValues (fun roomIds => roomIds.erase roomId) sessions

end MonitorSessions

/-! ## What the two operations do to the maps -/

section
variable (m : SessionManager) (user u : String) (roomId : Option String)

theorem register_taken (p : String) (h : m.userIdIndex.lookup u = some p) :
    register m user (some u) roomId = (m, some (.common .duplicatedLogin)) := by
  simp [register, h]

theorem register_free_index (h : m.userIdIndex.lookup u = none) (v : String) :
    (register m user (some u) roomId).1.userIdIndex.lookup v =
      if v = u then some user else m.userIdIndex.lookup v := by
  simp [register, h, SessionManager.registerSession]

theorem register_free_sessions (h : m.userIdIndex.lookup u = none) (p : String) :
    (register m user (some u) roomId).1.principalNameSessionInfo.lookup p =
      if p = user ∧ m.principalNameSessionInfo.lookup user = none then
        some ⟨user, .conference, roomId, u⟩ else m.principalNameSessionInfo.lookup p := by
  simp only [register, h, SessionManager.registerSession]
  cases hs : m.principalNameSessionInfo.lookup user with
  | none => simp
  | some info => simp

theorem unregister_some (info : SessionInfo) (h : m.principalNameSessionInfo.lookup user = some info) :
    unregister m user = (⟨m.principalNameSessionInfo.erase user, m.userIdIndex.erase info.userId⟩,
      .ok info) := by
  simp [unregister, SessionManager.removeSession, h]

/-- After `unregister` neither the principal nor the user id leads anywhere. -/
theorem unregister_free (info : SessionInfo) (h : m.principalNameSessionInfo.lookup user = some info) :
    (unregister m user).1.userIdIndex.lookup info.userId = none ∧
    (unregister m user).1.principalNameSessionInfo.lookup user = none := by
  rw [unregister_some m user info h]
  simp

theorem unregister_none (h : m.principalNameSessionInfo.lookup user = none) :
    unregister m user = (m, .error .nullPointer) := by
  simp [unregister, SessionManager.removeSession, h]

end

/-! ## The index and the sessions -/

/-- Every session is indexed under its user id. This half never breaks. -/
def Indexed (m : SessionManager) : Prop :=
  ∀ p info, m.principalNameSessionInfo.lookup p = some info →
    m.userIdIndex.lookup info.userId = some p ∧ info.principal = p

/-- The two maps are inverse to each other. -/
def Inverse (m : SessionManager) : Prop :=
  ∀ u p, m.userIdIndex.lookup u = some p ↔
    ∃ info, m.principalNameSessionInfo.lookup p = some info ∧ info.userId = u

theorem register_indexed (m : SessionManager) (user : String) (userId roomId : Option String)
    (h : Indexed m) : Indexed (register m user userId roomId).1 := by
  cases userId with
  | none => exact h
  | some u =>
    cases hu : m.userIdIndex.lookup u with
    | some p => rw [register_taken m user u roomId p hu]; exact h
    | none =>
      intro p info hp
      rw [register_free_sessions m user u roomId hu] at hp
      rw [register_free_index m user u roomId hu]
      split at hp
      · rename_i hc
        simp only [Option.some.injEq] at hp
        subst hp
        exact ⟨by simp [hc.1], hc.1.symm⟩
      · obtain ⟨hi, hn⟩ := h p info hp
        have hne : info.userId ≠ u := by
          intro he
          rw [he, hu] at hi
          cases hi
        exact ⟨by rw [if_neg hne]; exact hi, hn⟩

theorem unregister_indexed (m : SessionManager) (user : String) (h : Indexed m) :
    Indexed (unregister m user).1 := by
  cases hs : m.principalNameSessionInfo.lookup user with
  | none => rw [unregister_none m user hs]; exact h
  | some info =>
    rw [unregister_some m user info hs]
    intro p other hp
    simp only [lookup_remove] at hp ⊢
    split at hp
    · cases hp
    · rename_i hne
      obtain ⟨hi, hn⟩ := h p other hp
      have hdiff : other.userId ≠ info.userId := by
        intro he
        have hown := (h user info hs).1
        rw [← he, hi, Option.some.injEq] at hown
        exact hne hown
      exact ⟨by rw [if_neg hdiff]; exact hi, hn⟩

inductive Event where
  | register (user : String) (userId roomId : Option String)
  | unregister (user : String)

def step (m : SessionManager) : Event → SessionManager
  | .register user userId roomId => (register m user userId roomId).1
  | .unregister user => (unregister m user).1

theorem step_indexed (m : SessionManager) (e : Event) (h : Indexed m) : Indexed (step m e) := by
  cases e with
  | register user userId roomId => exact register_indexed m user userId roomId h
  | unregister user => exact unregister_indexed m user h

/-- A registration that is let through is for a principal without a session. -/
def FreshPrincipal (m : SessionManager) : Event → Prop
  | .register user (some u) _ =>
    m.userIdIndex.lookup u = none → m.principalNameSessionInfo.lookup user = none
  | _ => True

/-- One registration keeps the maps inverse exactly when its principal is fresh. -/
theorem register_inverse_iff (m : SessionManager) (user u : String) (roomId : Option String)
    (h : Inverse m) (hu : m.userIdIndex.lookup u = none) :
    Inverse (register m user (some u) roomId).1 ↔ m.principalNameSessionInfo.lookup user = none := by
  constructor
  · intro hinv
    -- the new index entry leads to `user`, so `user` must now have a session of `u`
    have hnew := register_free_index m user u roomId hu u
    rw [if_pos rfl] at hnew
    obtain ⟨info, hs, hid⟩ := (hinv u user).mp hnew
    rw [register_free_sessions m user u roomId hu] at hs
    cases hold : m.principalNameSessionInfo.lookup user with
    | none => rfl
    | some old =>
      simp only [hold, reduceCtorEq, and_false, ↓reduceIte, Option.some.injEq] at hs
      have hindex := (h u user).mpr ⟨old, hold, by rw [hs, hid]⟩
      rw [hu] at hindex
      cases hindex
  · intro hfresh v p
    rw [register_free_index m user u roomId hu, register_free_sessions m user u roomId hu]
    simp only [hfresh, and_true]
    by_cases hp : p = user
    · subst hp
      by_cases hv : v = u
      · simp [hv]
      · have hnot : m.userIdIndex.lookup v ≠ some p := by
          intro hi
          obtain ⟨info, hs, -⟩ := (h v p).mp hi
          rw [hfresh] at hs
          cases hs
        simp [hv, hnot, Ne.symm hv]
    · by_cases hv : v = u
      · subst hv
        have hnot := (h v p).not.mp (by simp [hu])
        simpa [hp, Ne.symm hp] using hnot
      · simp [hp, hv, h v p]

theorem unregister_inverse (m : SessionManager) (user : String) (hx : Indexed m) (h : Inverse m) :
    Inverse (unregister m user).1 := by
  cases hs : m.principalNameSessionInfo.lookup user with
  | none => rw [unregister_none m user hs]; exact h
  | some info =>
    rw [unregister_some m user info hs]
    intro u p
    simp only [lookup_remove]
    have hown := (hx user info hs).1
    by_cases hu : u = info.userId
    · subst hu
      simp only [↓reduceIte, reduceCtorEq, false_iff, not_exists, not_and]
      intro other hp hid
      split at hp
      · cases hp
      · rename_i hne
        have hother := (hx p other hp).1
        rw [hid, hown, Option.some.injEq] at hother
        exact hne hother.symm
    · rw [if_neg hu, h u p]
      by_cases hp : p = user
      · subst hp
        simp only [hs, Option.some.injEq, exists_eq_left', ↓reduceIte, reduceCtorEq, false_and,
          exists_false, iff_false]
        exact fun he => hu he.symm
      · simp [hp]

theorem step_inverse_iff (m : SessionManager) (e : Event) (hx : Indexed m) (h : Inverse m) :
    Inverse (step m e) ↔ FreshPrincipal m e := by
  cases e with
  | unregister user => exact ⟨fun _ => trivial, fun _ => unregister_inverse m user hx h⟩
  | register user userId roomId =>
    cases userId with
    | none => exact ⟨fun _ => trivial, fun _ => h⟩
    | some u =>
      cases hu : m.userIdIndex.lookup u with
      | some p =>
        simp only [step, register_taken m user u roomId p hu, FreshPrincipal, hu]
        exact ⟨fun _ => by simp, fun _ => h⟩
      | none =>
        simp only [step, FreshPrincipal, hu, forall_const]
        exact register_inverse_iff m user u roomId h hu

/-- An index entry that leads to no session of its user id. -/
def Dangling (m : SessionManager) (u p : String) : Prop :=
  m.userIdIndex.lookup u = some p ∧
    ∀ info, m.principalNameSessionInfo.lookup p = some info → info.userId ≠ u

/-- The direction from the index to the sessions is the one that breaks. -/
theorem not_inverse_iff (m : SessionManager) (hx : Indexed m) : ¬ Inverse m ↔ ∃ u p, Dangling m u p := by
  constructor
  · intro h
    by_contra hno
    apply h
    intro u p
    constructor
    · intro hi
      by_contra hnone
      exact hno ⟨u, p, hi, fun info hs hid => hnone ⟨info, hs, hid⟩⟩
    · intro hsession
      obtain ⟨info, hs, rfl⟩ := hsession
      exact (hx p info hs).1
  · intro hdangling h
    obtain ⟨u, p, hi, hnone⟩ := hdangling
    obtain ⟨info, hs, hid⟩ := (h u p).mp hi
    exact hnone info hs hid

theorem register_dangling (m : SessionManager) (user u p : String) (userId roomId : Option String)
    (h : Dangling m u p) : Dangling (register m user userId roomId).1 u p := by
  cases userId with
  | none => exact h
  | some v =>
    cases hv : m.userIdIndex.lookup v with
    | some q =>
      rw [register_taken m user v roomId q hv]
      exact h
    | none =>
      have hne : u ≠ v := by
        rintro rfl
        cases hv.symm.trans h.1
      constructor
      · rw [register_free_index m user v roomId hv, if_neg hne]
        exact h.1
      · intro info hs
        rw [register_free_sessions m user v roomId hv] at hs
        split at hs
        · obtain rfl := Option.some.inj hs
          exact Ne.symm hne
        · exact h.2 info hs

theorem unregister_dangling (m : SessionManager) (user u p : String) (hx : Indexed m)
    (h : Dangling m u p) : Dangling (unregister m user).1 u p := by
  cases hs : m.principalNameSessionInfo.lookup user with
  | none =>
    rw [unregister_none m user hs]
    exact h
  | some info =>
    have hne : u ≠ info.userId := by
      rintro rfl
      have hown := (hx user info hs).1
      rw [h.1, Option.some.injEq] at hown
      subst hown
      exact h.2 info hs rfl
    rw [unregister_some m user info hs]
    constructor
    · simpa only [lookup_remove, if_neg hne] using h.1
    · intro other hp
      exact h.2 other (lookup_remove_eq_some.mp hp).2

/-- An index entry without its session is never removed and never gets one. -/
theorem step_not_inverse (m : SessionManager) (e : Event) (hx : Indexed m) (h : ¬ Inverse m) :
    ¬ Inverse (step m e) := by
  obtain ⟨u, p, hdangling⟩ := (not_inverse_iff m hx).mp h
  rw [not_inverse_iff (step m e) (step_indexed m e hx)]
  cases e with
  | register user userId roomId => exact ⟨u, p, register_dangling m user u p userId roomId hdangling⟩
  | unregister user => exact ⟨u, p, unregister_dangling m user u p hx hdangling⟩

theorem empty_indexed : Indexed .empty := by
  intro p info h
  simp [SessionManager.empty] at h

theorem empty_inverse : Inverse .empty := by
  intro u p
  simp [SessionManager.empty]

/-- After any sequence of calls the two maps are inverse to each other exactly
when no call registered a second user id on a principal that had a session. -/
theorem inverse_iff_freshPrincipals (events : List Event) :
    Inverse (Runs.run step .empty events) ↔ Runs.Along step FreshPrincipal .empty events :=
  Runs.run_iff_along step_indexed step_inverse_iff step_not_inverse .empty events
    empty_indexed empty_inverse

/-- Two CONNECT frames on one socket: the index entry of the second user id
leads to the session of the first. -/
theorem second_connect_not_inverse :
    ¬ Inverse (Runs.run step .empty
      [.register "p" (some "alice") (some "r"), .register "p" (some "bob") (some "r")]) := by
  intro h
  have hi := (h "bob" "p").mp (by decide)
  obtain ⟨info, hs, hid⟩ := hi
  have hs' : (⟨"p", .conference, some "r", "alice"⟩ : SessionInfo) = info := by
    have : (Runs.run step SessionManager.empty
      [.register "p" (some "alice") (some "r"), .register "p" (some "bob") (some "r")]
      ).principalNameSessionInfo.lookup "p" = some ⟨"p", .conference, some "r", "alice"⟩ := by decide
    rw [this, Option.some.injEq] at hs
    exact hs
  rw [← hs'] at hid
  revert hid
  decide

end MediaSession

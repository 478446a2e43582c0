import SpringStudy.Tables
import SpringStudy.Runs

/-!
# The user registry of the filtering one-to-one call

`register` asks whether the name exists and then writes both maps, without a
lock, so other sessions may come in between. A session may register again, and
`removeBySession` finds the name to remove by the session alone. Messages of
one session are handled one after the other, and its closing comes last.
-/
namespace FilteringRegistry

open Tables Runs

/-- A user object, known by its number. -/
structure UserSession where
  id : Nat
  name : String
  session : String
  deriving DecidableEq, Repr

structure UserRegistry where
  usersByName : Table String UserSession
  usersBySessionId : Table String UserSession
  /-- The users whose names have been found free and are still to be registered, by session. -/
  pending : Table String UserSession
  closed : List String
  created : Nat
  /-- The `registerResponse` texts, with the sessions they went to. -/
  sent : List (String × String)

def UserRegistry.init : UserRegistry := ⟨∅, ∅, ∅, [], 0, []⟩

namespace UserRegistry

def register (r : UserRegistry) (user : UserSession) : UserRegistry :=
  { r with usersByName := r.usersByName.insert user.name user
           usersBySessionId := r.usersBySessionId.insert user.session user }

/-- `exists`. -/
def isTaken (r : UserRegistry) (name : String) : Bool := (r.usersByName.lookup name).isSome

def removeBySession (r : UserRegistry) (session : String) : UserRegistry :=
  match r.usersBySessionId.lookup session with
  | none => r
  | some user => { r with usersByName := r.usersByName.erase user.name
                          usersBySessionId := r.usersBySessionId.erase session }

def respond (r : UserRegistry) (session response : String) : UserRegistry :=
  { r with sent := r.sent ++ [(session, response)] }

/-- Whether the session can be served: it is open and no message of it is being handled. -/
def idle (r : UserRegistry) (session : String) : Bool :=
  decide (session ∉ r.closed) && (r.pending.lookup session).isNone

end UserRegistry

/-- `CallHandler.register` up to its `exists` and after it, and `afterConnectionClosed`. -/
inductive Event where
  | ask (session name : String)
  | write (session : String)
  | close (session : String)

/-- In a run without calls nobody is calling or called, so the `stop` of a closing has
nobody to tell. -/
def step (r : UserRegistry) : Event → UserRegistry
  | .ask session name =>
    if r.idle session then
      let caller : UserSession := ⟨r.created, name, session⟩
      let r := { r with created := r.created + 1 }
      if name.isEmpty then r.respond session "rejected: empty user name"
      else if r.isTaken name then r.respond session ("rejected: user '" ++ name ++ "' already registered")
      else { r with pending := r.pending.insert session caller }
    else r
  | .write session =>
    match r.pending.lookup session with
    | none => r
    | some caller =>
      ({ r with pending := r.pending.erase session } : UserRegistry).register caller |>.respond session "accepted"
  | .close session =>
    if r.idle session then { r.removeBySession session with closed := session :: r.closed } else r

/-- The two maps are inverse to each other. -/
structure Inverse (r : UserRegistry) : Prop where
  byName : ∀ name user, r.usersByName.lookup name = some user →
    user.name = name ∧ r.usersBySessionId.lookup user.session = some user
  bySession : ∀ session user, r.usersBySessionId.lookup session = some user →
    user.session = session ∧ r.usersByName.lookup user.name = some user

/-- No name is taken by a session that has closed. -/
def Freed (r : UserRegistry) : Prop :=
  ∀ name user, r.usersByName.lookup name = some user → user.session ∉ r.closed

/-- A name that is written is still free, and its session has none yet. -/
def Orderly (r : UserRegistry) : Event → Prop
  | .write session => ∀ user ∈ r.pending.lookup session,
      r.usersByName.lookup user.name = none ∧ r.usersBySessionId.lookup session = none
  | .ask _ _ => True
  | .close _ => True

/-! ## What always holds -/

/-- A pending user has its session, and nobody has taken its name with the same
session; a closed session has no user. -/
structure Sound (r : UserRegistry) : Prop where
  own : ∀ session user, r.pending.lookup session = some user → user.session = session
  others : ∀ session user, r.pending.lookup session = some user →
    ∀ taker, r.usersByName.lookup user.name = some taker → taker.session ≠ session
  closed : ∀ session ∈ r.closed,
    r.pending.lookup session = none ∧ r.usersBySessionId.lookup session = none

theorem init_sound : Sound .init where
  own _ _ h := by cases h
  others _ _ h := by cases h
  closed _ h := by cases h

theorem idle_iff (r : UserRegistry) (session : String) :
    r.idle session = true ↔ session ∉ r.closed ∧ r.pending.lookup session = none := by
  simp [UserRegistry.idle]

theorem removeBySession_byName {r : UserRegistry} {session name : String} {user : UserSession}
    (h : (r.removeBySession session).usersByName.lookup name = some user) :
    r.usersByName.lookup name = some user := by
  unfold UserRegistry.removeBySession at h
  split at h
  · exact h
  · exact (lookup_remove_eq_some.mp h).2

theorem removeBySession_bySession (r : UserRegistry) (session x : String) :
    (r.removeBySession session).usersBySessionId.lookup x =
      if x = session then none else r.usersBySessionId.lookup x := by
  unfold UserRegistry.removeBySession
  split
  · next hnone =>
    split
    · next hx => rw [hx, hnone]
    · rfl
  · exact lookup_remove _ _ _

theorem removeBySession_pending (r : UserRegistry) (session : String) :
    (r.removeBySession session).pending = r.pending := by
  unfold UserRegistry.removeBySession
  split <;> rfl

theorem ask_sound {r : UserRegistry} {session name : String} (h : Sound r)
    (hidle : r.idle session = true) (hfree : r.usersByName.lookup name = none) (id : Nat) :
    Sound { r with created := r.created + 1, pending := r.pending.insert session ⟨id, name, session⟩ } where
  own x user hx := by
    rw [lookup_put] at hx
    split at hx
    · next he => rw [he, ← Option.some.inj hx]
    · exact h.own x user hx
  others x user hx taker htaker := by
    rw [lookup_put] at hx
    split at hx
    · obtain rfl := Option.some.inj hx
      rw [hfree] at htaker
      cases htaker
    · exact h.others x user hx taker htaker
  closed x hx := by
    obtain ⟨hpending, hnone⟩ := h.closed x hx
    refine ⟨?_, hnone⟩
    rw [lookup_put, if_neg]
    · exact hpending
    · rintro rfl
      exact ((idle_iff r x).mp hidle).1 hx

theorem write_sound {r : UserRegistry} {session : String} {caller : UserSession} (h : Sound r)
    (hcaller : r.pending.lookup session = some caller) :
    Sound (({ r with pending := r.pending.erase session } : UserRegistry).register caller) where
  own x user hx := h.own x user (lookup_remove_eq_some.mp hx).2
  others x user hx taker htaker := by
    obtain ⟨hne, hpending⟩ := lookup_remove_eq_some.mp hx
    simp only [UserRegistry.register, lookup_put] at htaker
    split at htaker
    · rw [← Option.some.inj htaker, h.own session caller hcaller]
      exact Ne.symm hne
    · exact h.others x user hpending taker htaker
  closed x hx := by
    obtain ⟨hpending, hnone⟩ := h.closed x hx
    have hne : x ≠ session := by
      rintro rfl
      rw [hcaller] at hpending
      cases hpending
    simp only [UserRegistry.register, lookup_remove, lookup_put, if_neg hne]
    rw [h.own session caller hcaller, if_neg hne]
    exact ⟨hpending, hnone⟩

theorem close_sound {r : UserRegistry} {session : String} (h : Sound r) (hidle : r.idle session = true) :
    Sound { r.removeBySession session with closed := session :: r.closed } := by
  obtain ⟨-, hnone⟩ := (idle_iff r session).mp hidle
  have hpending := removeBySession_pending r session
  refine ⟨fun x user hx => ?_, fun x user hx taker htaker => ?_, fun x hx => ⟨?_, ?_⟩⟩
  · exact h.own x user (hpending ▸ hx)
  · exact h.others x user (hpending ▸ hx) taker (removeBySession_byName htaker)
  · refine (congrArg (AList.lookup x) hpending).trans ?_
    rcases List.mem_cons.mp hx with rfl | hx
    · exact hnone
    · exact (h.closed x hx).1
  · refine (removeBySession_bySession r session x).trans ?_
    rcases List.mem_cons.mp hx with rfl | hx
    · exact if_pos rfl
    · split
      · rfl
      · exact (h.closed x hx).2

theorem step_sound (r : UserRegistry) (e : Event) (h : Sound r) : Sound (step r e) := by
  cases e with
  | ask session name =>
    simp only [step]
    split
    · next hidle =>
      split
      · exact ⟨h.own, h.others, h.closed⟩
      · split
        · exact ⟨h.own, h.others, h.closed⟩
        · next htaken =>
          have hfree : r.usersByName.lookup name = none := by
            simpa [UserRegistry.isTaken] using htaken
          exact ask_sound h hidle hfree r.created
    · exact h
  | write session =>
    simp only [step]
    split
    · exact h
    · next caller hcaller =>
      have hs := write_sound h hcaller
      exact ⟨hs.own, hs.others, hs.closed⟩
  | close session =>
    simp only [step]
    split
    · next hidle => exact close_sound h hidle
    · exact h

/-! ## What a step does to the two maps -/

/-- A taken name is that of a session with a user, and closed sessions have none. -/
theorem Inverse.freed {r : UserRegistry} (h : Inverse r) (hs : Sound r) : Freed r := by
  intro name user hname hclosed
  have hsession := (h.byName name user hname).2
  rw [(hs.closed user.session hclosed).2] at hsession
  cases hsession

theorem register_inverse {r : UserRegistry} {caller : UserSession} (h : Inverse r)
    (hname : r.usersByName.lookup caller.name = none)
    (hsession : r.usersBySessionId.lookup caller.session = none) : Inverse (r.register caller) where
  byName name user hn := by
    simp only [UserRegistry.register, lookup_put] at hn ⊢
    split at hn
    · next he =>
      obtain rfl := Option.some.inj hn
      exact ⟨he.symm, if_pos rfl⟩
    · obtain ⟨hu, hs⟩ := h.byName name user hn
      refine ⟨hu, ?_⟩
      rw [if_neg]
      · exact hs
      · intro he
        rw [he, hsession] at hs
        cases hs
  bySession session user hs := by
    simp only [UserRegistry.register, lookup_put] at hs ⊢
    split at hs
    · next he =>
      obtain rfl := Option.some.inj hs
      exact ⟨he.symm, if_pos rfl⟩
    · obtain ⟨hu, hn⟩ := h.bySession session user hs
      refine ⟨hu, ?_⟩
      rw [if_neg]
      · exact hn
      · intro he
        rw [he, hname] at hn
        cases hn

/-- A name that was taken in the meantime, or a second name of the session, leaves an
entry behind that the other map does not have. -/
theorem register_inverse_iff {r : UserRegistry} {caller : UserSession} (h : Inverse r)
    (hothers : ∀ taker, r.usersByName.lookup caller.name = some taker → taker.session ≠ caller.session) :
    Inverse (r.register caller) ↔
      r.usersByName.lookup caller.name = none ∧ r.usersBySessionId.lookup caller.session = none := by
  refine ⟨fun hnew => ?_, fun hfree => register_inverse h hfree.1 hfree.2⟩
  have hname : r.usersByName.lookup caller.name = none := by
    cases hn : r.usersByName.lookup caller.name with
    | none => rfl
    | some taker =>
      obtain ⟨htaker, hs⟩ := h.byName caller.name taker hn
      have hother := hothers taker hn
      have hstill : (r.register caller).usersBySessionId.lookup taker.session = some taker := by
        rw [UserRegistry.register, lookup_put, if_neg hother, hs]
      have hback := (hnew.bySession taker.session taker hstill).2
      rw [UserRegistry.register, lookup_put, if_pos htaker] at hback
      exact absurd (congrArg UserSession.session (Option.some.inj hback)).symm hother
  refine ⟨hname, ?_⟩
  cases hs : r.usersBySessionId.lookup caller.session with
  | none => rfl
  | some old =>
    obtain ⟨hsession, hn⟩ := h.bySession caller.session old hs
    have hne : old.name ≠ caller.name := by
      intro he
      rw [he, hname] at hn
      cases hn
    have hstill : (r.register caller).usersByName.lookup old.name = some old := by
      rw [UserRegistry.register, lookup_put, if_neg hne, hn]
    have hback := (hnew.byName old.name old hstill).2
    rw [UserRegistry.register, lookup_put, if_pos hsession] at hback
    exact absurd (congrArg UserSession.name (Option.some.inj hback)).symm hne

theorem removeBySession_inverse {r : UserRegistry} (h : Inverse r) (session : String) :
    Inverse (r.removeBySession session) := by
  unfold UserRegistry.removeBySession
  cases hs : r.usersBySessionId.lookup session with
  | none => exact h
  | some user =>
    obtain ⟨hsession, hname⟩ := h.bySession session user hs
    refine ⟨fun name other hn => ?_, fun x other hx => ?_⟩
    · obtain ⟨hne, hn⟩ := lookup_remove_eq_some.mp hn
      obtain ⟨hother, hback⟩ := h.byName name other hn
      refine ⟨hother, lookup_remove_eq_some.mpr ⟨fun he => ?_, hback⟩⟩
      rw [he, hs] at hback
      obtain rfl := Option.some.inj hback
      exact hne hother.symm
    · obtain ⟨hne, hx⟩ := lookup_remove_eq_some.mp hx
      obtain ⟨hother, hback⟩ := h.bySession x other hx
      refine ⟨hother, lookup_remove_eq_some.mpr ⟨fun he => ?_, hback⟩⟩
      rw [he, hname] at hback
      obtain rfl := Option.some.inj hback
      exact hne (hother.symm.trans hsession)

theorem step_inverse_iff (r : UserRegistry) (e : Event) (hs : Sound r) (h : Inverse r) :
    Inverse (step r e) ↔ Orderly r e := by
  cases e with
  | ask session name =>
    refine ⟨fun _ => trivial, fun _ => ?_⟩
    simp only [step]
    split
    · split
      · exact ⟨h.byName, h.bySession⟩
      · split
        · exact ⟨h.byName, h.bySession⟩
        · exact ⟨h.byName, h.bySession⟩
    · exact h
  | write session =>
    simp only [step, Orderly]
    cases hcaller : r.pending.lookup session with
    | none =>
      refine ⟨fun _ user hmem => ?_, fun _ => h⟩
      cases hmem
    | some caller =>
      have hown := hs.own session caller hcaller
      have hiff : Inverse (({ r with pending := r.pending.erase session } : UserRegistry).register caller) ↔ _ :=
        register_inverse_iff (r := { r with pending := r.pending.erase session }) ⟨h.byName, h.bySession⟩
          (hown ▸ hs.others session caller hcaller)
      rw [hown] at hiff
      simp only [Option.mem_some_iff, forall_eq']
      refine Iff.trans ⟨fun hi => ⟨hi.byName, hi.bySession⟩, fun hi => ⟨hi.byName, hi.bySession⟩⟩ hiff
  | close session =>
    refine ⟨fun _ => trivial, fun _ => ?_⟩
    simp only [step]
    split
    · have hr := removeBySession_inverse h session
      exact ⟨hr.byName, hr.bySession⟩
    · exact h

theorem init_inverse : Inverse .init where
  byName _ _ h := by cases h
  bySession _ _ h := by cases h

/-- The maps stay inverse to each other, and closed sessions leave no name behind,
exactly if every name that is written is still free and the first of its session. -/
theorem inverse_throughout_iff (events : List Event) :
    Throughout step (fun r => Inverse r ∧ Freed r) .init events ↔ Along step Orderly .init events := by
  refine throughout_iff_along (J := Sound) (fun r e hs _ => step_sound r e hs) ?_ .init events init_sound
    ⟨init_inverse, init_inverse.freed init_sound⟩
  rintro r e hs ⟨h, -⟩
  rw [← step_inverse_iff r e hs h]
  exact ⟨fun hi => hi.1, fun hi => ⟨hi, hi.freed (step_sound r e hs)⟩⟩

/-- One session registers two names and closes; two sessions register one name. -/
def twoNames : List Event :=
  [.ask "s1" "anna", .write "s1", .ask "s1" "ben", .write "s1", .close "s1"]

def sameName : List Event := [.ask "s1" "anna", .ask "s2" "anna", .write "s1", .write "s2"]

/-- The first name of the closed session stays taken; the loser of the race is still
found by its session. -/
theorem not_inverse_twoNames_sameName :
    ¬ Freed (run step .init twoNames) ∧ ¬ Inverse (run step .init sameName) := by
  constructor
  · intro h
    have hname : (run step .init twoNames).usersByName.lookup "anna" = some ⟨0, "anna", "s1"⟩ := by decide +kernel
    exact h "anna" _ hname (by decide +kernel)
  · intro h
    have hsession : (run step .init sameName).usersBySessionId.lookup "s1" = some ⟨0, "anna", "s1"⟩ := by
      decide +kernel
    have hback := (h.bySession "s1" _ hsession).2
    revert hback
    decide +kernel

end FilteringRegistry

import SpringStudy.ChatInvitations

/-!
# Sessions of the chat server

A session is stored under the user id and found by the principal. A user who
connects again takes over the entry, and the disconnect of the older connection,
whenever it arrives, does not find it any more.
-/
namespace ChatSessions

open Tables Outcomes ChatStore ChatCallFlow ChatAccept ChatInvitations Runs

/-- The session that `addSession` saves, if the header has a user id and a host flag. -/
def sessionOf (user : String) (authorization : Option String) : Option SessionCache :=
  match authorization with
  | none => none
  | some text =>
    match splitSlash text with
    | userId :: host :: _ => some ⟨userId, decide (host = "1"), user⟩
    | _ => none

/-- The session an event adds. -/
def added : Event → Option SessionCache
  | .connect principal authorization => sessionOf principal authorization
  | _ => none

/-- The sessions of a run, in the order in which they are added. -/
def connections (events : List Event) : List SessionCache := events.filterMap added

/-- Every connection has a principal of its own. -/
def FreshPrincipals (events : List Event) : Prop :=
  ((connections events).map SessionCache.principalName).Nodup

/-- The event takes the session of the principal away, or that of everybody. -/
def removes (principal : String) : Event → Bool
  | .disconnect p => decide (p = principal)
  | .sessionAll => true
  | _ => false

/-- The session was added, its user has not connected since, and its principal has
not been removed since. -/
def Live (events : List Event) (session : SessionCache) : Prop :=
  ∃ pre e post, events = pre ++ e :: post ∧ added e = some session ∧
    (∀ later ∈ connections post, later.userId ≠ session.userId) ∧
    ∀ e' ∈ post, removes session.principalName e' = false

theorem live_snoc (events : List Event) (e : Event) (session : SessionCache) :
    Live (events ++ [e]) session ↔
      added e = some session ∨
      (Live events session ∧ (∀ later, added e = some later → later.userId ≠ session.userId) ∧
        removes session.principalName e = false) := by
  constructor
  · rintro ⟨pre, e', post, heq, hadd, hlater, hrem⟩
    rcases List.eq_nil_or_concat post with rfl | ⟨post', last, rfl⟩
    · obtain ⟨-, he⟩ := List.append_inj' heq rfl
      exact .inl ((List.cons.inj he).1 ▸ hadd)
    · rw [List.concat_eq_append, ← List.cons_append, ← List.append_assoc] at heq
      obtain ⟨hpre, he⟩ := List.append_inj' heq rfl
      obtain rfl : e = last := (List.cons.inj he).1
      rw [List.concat_eq_append] at hlater hrem
      refine .inr ⟨⟨pre, e', post', hpre, hadd, ?_, ?_⟩, ?_, ?_⟩
      · intro later hm
        refine hlater later ?_
        rw [connections, List.filterMap_append]
        exact List.mem_append_left _ hm
      · intro e'' hm
        exact hrem e'' (List.mem_append_left _ hm)
      · intro later hl
        refine hlater later (List.mem_filterMap.mpr ⟨e, ?_, hl⟩)
        exact List.mem_append_right _ List.mem_cons_self
      · exact hrem e (List.mem_append_right _ List.mem_cons_self)
  · rintro (hadd | ⟨⟨pre, e', post, rfl, hadd, hlater, hrem⟩, hl, hr⟩)
    · exact ⟨events, e, [], rfl, hadd, by simp [connections], by simp⟩
    · refine ⟨pre, e', post ++ [e], by simp, hadd, ?_, ?_⟩
      · intro later hm
        obtain ⟨e'', hm', ha⟩ := List.mem_filterMap.mp hm
        rcases List.mem_append.mp hm' with hm' | hm'
        · exact hlater later (List.mem_filterMap.mpr ⟨e'', hm', ha⟩)
        · exact hl later (List.mem_singleton.mp hm' ▸ ha)
      · intro e'' hm
        rcases List.mem_append.mp hm with hm | hm
        · exact hrem e'' hm
        · exact List.mem_singleton.mp hm ▸ hr

theorem Live.connection {events : List Event} {session : SessionCache} (h : Live events session) :
    session ∈ connections events := by
  obtain ⟨pre, e, post, rfl, hadd, -, -⟩ := h
  exact List.mem_filterMap.mpr ⟨e, List.mem_append_right _ List.mem_cons_self, hadd⟩

theorem FreshPrincipals.init {events : List Event} {e : Event} (h : FreshPrincipals (events ++ [e])) :
    FreshPrincipals events := by
  rw [FreshPrincipals, connections, List.filterMap_append, List.map_append] at h
  exact h.of_append_left

/-- With fresh principals, a principal tells its session. -/
theorem Live.eq_of_principal {events : List Event} (hfresh : FreshPrincipals events) {a b : SessionCache}
    (ha : Live events a) (hb : Live events b) (hp : a.principalName = b.principalName) : a = b :=
  List.inj_on_of_nodup_map hfresh ha.connection hb.connection hp

/-! ## What the events do to the stored sessions -/

theorem addSession_sessions (s : Chat) (user : String) (authorization : Option String) :
    (s.addSession user authorization).1.sessions =
      match sessionOf user authorization with
      | none => s.sessions
      | some session => s.sessions.insert session.userId session := by
  unfold Chat.addSession sessionOf
  cases authorization with
  | none => rfl
  | some text =>
    dsimp only
    rcases splitSlash text with _ | ⟨userId, _ | ⟨host, rest⟩⟩
    · rfl
    · rfl
    · rfl

/-- The events that neither add nor remove leave the sessions alone. -/
theorem step_sessions (s : Chat) (e : Event) (hadd : added e = none) (hrem : ∀ p, removes p e = false) :
    (step s e).sessions = s.sessions := by
  cases e with
  | connect principal authorization =>
    have hs := addSession_sessions s principal authorization
    rw [show sessionOf principal authorization = none from hadd] at hs
    exact hs
  | disconnect principal => simpa [removes] using hrem principal
  | subscribe principal =>
    show (s.handleSessionSubscribeListener principal).1.sessions = s.sessions
    unfold Chat.handleSessionSubscribeListener
    split
    · rfl
    · split <;> rfl
  | requestCall principal input =>
    rcases hr : handleRequestCall s principal input with err | t
    · simp [step, handle, hr]
    · obtain ⟨session, host, room, -, -, rfl⟩ := handleRequestCall_ok s t principal input hr
      simp [step, handle, hr, commitRequest, Chat.createInviteKey, Chat.send]
  | acceptCall principal message now => exact (handleAcceptCall_sameUsers s principal message now).sessions
  | sessionAll => simpa [removes] using hrem ""
  | fireTtl task now => exact (fireTtl_sameUsers s task now).sessions

/-! ## The store holds the live sessions -/

/-- The session stored under a user id is the live one of that user. -/
def Holds (events : List Event) (s : Chat) : Prop :=
  ∀ u session, s.sessions.lookup u = some session ↔ session.userId = u ∧ Live events session

theorem Holds.mem_values_iff {events : List Event} {s : Chat} (h : Holds events s) (session : SessionCache) :
    session ∈ values s.sessions ↔ Live events session := by
  rw [Tables.mem_values_iff]
  constructor
  · rintro ⟨u, hu⟩
    exact ((h u session).mp hu).2
  · intro hl
    exact ⟨session.userId, (h session.userId session).mpr ⟨rfl, hl⟩⟩

theorem Holds.findByPrincipalName_iff {events : List Event} {s : Chat} (h : Holds events s)
    (hfresh : FreshPrincipals events) (p : String) (session : SessionCache) :
    s.findByPrincipalName p = some session ↔ session.principalName = p ∧ Live events session := by
  constructor
  · intro hf
    have hp : session.principalName = p := by simpa using List.find?_some hf
    exact ⟨hp, (h.mem_values_iff session).mp (List.mem_of_find?_eq_some hf)⟩
  · rintro ⟨rfl, hl⟩
    cases hf : s.findByPrincipalName session.principalName with
    | none =>
      have hno := List.find?_eq_none.mp hf session ((h.mem_values_iff session).mpr hl)
      simp at hno
    | some other =>
      have hp : other.principalName = session.principalName := by simpa using List.find?_some hf
      have hother := (h.mem_values_iff other).mp (List.mem_of_find?_eq_some hf)
      rw [hother.eq_of_principal hfresh hl hp]

theorem holds_add {events : List Event} {s : Chat} (h : Holds events s) {e : Event} {new : SessionCache}
    (hadd : added e = some new) (hrem : ∀ p, removes p e = false) (t : Chat)
    (ht : t.sessions = s.sessions.insert new.userId new) : Holds (events ++ [e]) t := by
  intro u session
  rw [ht, lookup_put, live_snoc, hadd, hrem]
  by_cases hu : u = new.userId
  · rw [if_pos hu]
    constructor
    · intro he
      obtain rfl := Option.some.inj he
      exact ⟨hu.symm, .inl rfl⟩
    · rintro ⟨hid, hs | ⟨-, hl, -⟩⟩
      · exact hs
      · exact absurd (hu.symm.trans hid.symm) (hl new rfl)
  · rw [if_neg hu, h u session]
    refine and_congr_right fun hid => ?_
    have hne : new.userId ≠ session.userId := fun he => hu (hid ▸ he.symm)
    constructor
    · intro hl
      exact .inr ⟨hl, fun later he => Option.some.inj he ▸ hne, rfl⟩
    · rintro (hs | ⟨hl, -, -⟩)
      · exact absurd (congrArg SessionCache.userId (Option.some.inj hs)) hne
      · exact hl

/-- A disconnect finds the live session of its principal, if there is one, and no other. -/
theorem holds_disconnect {events : List Event} {s : Chat} (h : Holds events s)
    (hfresh : FreshPrincipals events) (p : String) :
    Holds (events ++ [.disconnect p]) (s.removeSession p) := by
  intro u session
  rw [live_snoc]
  simp only [added, removes, reduceCtorEq, false_or, false_implies, implies_true, true_and,
    decide_eq_false_iff_not]
  unfold Chat.removeSession
  cases hf : s.findByPrincipalName p with
  | none =>
    rw [h u session]
    refine and_congr_right fun _ => ⟨fun hl => ⟨hl, ?_⟩, fun hl => hl.1⟩
    intro hp
    have hfind := (h.findByPrincipalName_iff hfresh p session).mpr ⟨hp.symm, hl⟩
    rw [hf] at hfind
    cases hfind
  | some gone =>
    obtain ⟨hgone, hlive⟩ := (h.findByPrincipalName_iff hfresh p gone).mp hf
    simp only [lookup_remove]
    by_cases hu : u = gone.userId
    · rw [if_pos hu]
      simp only [reduceCtorEq, false_iff]
      rintro ⟨hid, hl, hp⟩
      have hsame : session = gone := by
        have hs := (h u session).mpr ⟨hid, hl⟩
        have hg := (h u gone).mpr ⟨hu.symm, hlive⟩
        exact Option.some.inj (hs.symm.trans hg)
      exact absurd (hsame ▸ hgone.symm) hp
    · rw [if_neg hu, h u session]
      refine and_congr_right fun hid => ⟨fun hl => ⟨hl, ?_⟩, fun hl => hl.1⟩
      intro hp
      have hsame := hl.eq_of_principal hfresh hlive (hp.symm.trans hgone.symm)
      exact hu (hid ▸ hsame ▸ rfl)

theorem holds_keep {events : List Event} {s t : Chat} (h : Holds events s) {e : Event}
    (hadd : added e = none) (hrem : ∀ p, removes p e = false) (ht : t.sessions = s.sessions) :
    Holds (events ++ [e]) t := by
  intro u session
  rw [ht, live_snoc, h u session]
  simp [hadd, hrem]

theorem run_holds (serverName : String) (ttl : Nat) (events : List Event) (hfresh : FreshPrincipals events) :
    Holds events (run step (.init serverName ttl) events) := by
  induction events using List.reverseRecOn with
  | nil =>
    intro u session
    constructor
    · intro hl
      cases hl
    · rintro ⟨-, pre, e, post, heq, -⟩
      simp at heq
  | append_singleton events e ih =>
    have hold := ih hfresh.init
    rw [run_append, run_cons, run_nil]
    cases e with
    | connect principal authorization =>
      cases hs : sessionOf principal authorization with
      | none =>
        exact holds_keep hold (e := .connect principal authorization) hs (fun _ => rfl)
          (step_sessions _ (.connect principal authorization) hs fun _ => rfl)
      | some new =>
        refine holds_add hold (e := .connect principal authorization) hs (fun _ => rfl) _ ?_
        have ht := addSession_sessions (run step (.init serverName ttl) events) principal authorization
        rw [hs] at ht
        exact ht
    | disconnect p => exact holds_disconnect hold hfresh.init p
    | sessionAll =>
      intro u session
      rw [live_snoc]
      simp [added, removes, step, handle]
    | subscribe principal => exact holds_keep hold rfl (fun _ => rfl) (step_sessions _ _ rfl fun _ => rfl)
    | requestCall principal input =>
      exact holds_keep hold rfl (fun _ => rfl) (step_sessions _ _ rfl fun _ => rfl)
    | acceptCall principal message now =>
      exact holds_keep hold rfl (fun _ => rfl) (step_sessions _ _ rfl fun _ => rfl)
    | fireTtl task now => exact holds_keep hold rfl (fun _ => rfl) (step_sessions _ _ rfl fun _ => rfl)

/-- A principal leads to the session it has connected with, as long as the user has not
connected again and the principal has not been removed; the disconnect of one principal
leaves the sessions of all others as they are. -/
theorem findByPrincipalName_iff_live (serverName : String) (ttl : Nat) (events : List Event)
    (hfresh : FreshPrincipals events) (p : String) :
    (∀ session, (run step (.init serverName ttl) events).findByPrincipalName p = some session ↔
      session.principalName = p ∧ Live events session) ∧
    (∀ q, q ≠ p → (run step (.init serverName ttl) (events ++ [.disconnect p])).findByPrincipalName q =
      (run step (.init serverName ttl) events).findByPrincipalName q) := by
  have hfresh' : FreshPrincipals (events ++ [.disconnect p]) := by
    rw [FreshPrincipals, connections, List.filterMap_append, show [Event.disconnect p].filterMap added = [] from rfl,
      List.append_nil]
    exact hfresh
  have hnow := (run_holds serverName ttl events hfresh).findByPrincipalName_iff hfresh
  have hlater := (run_holds serverName ttl _ hfresh').findByPrincipalName_iff hfresh'
  refine ⟨hnow p, ?_⟩
  intro q hq
  apply Option.ext
  intro session
  rw [hlater q session, hnow q session, live_snoc]
  refine and_congr_right fun hp => ?_
  have hkept : removes session.principalName (.disconnect p) = false := by
    simp only [removes, decide_eq_false_iff_not]
    exact fun he => hq (hp.symm.trans he.symm)
  simp [added, hkept]

/-- A user connects a second time. -/
def reconnected : List Event := [.connect "p1" (some "u/1"), .connect "p2" (some "u/1")]

/-- The first connection goes only then, and the second one keeps its session. -/
theorem findByPrincipalName_lateDisconnect :
    FreshPrincipals reconnected ∧
    (∀ session, (run step (.init "chat" 1000) reconnected).findByPrincipalName "p1" = some session ↔
      session.principalName = "p1" ∧ Live reconnected session) ∧
    ((run step (.init "chat" 1000) reconnected).findByPrincipalName "p2").isSome = true ∧
    (run step (.init "chat" 1000) (reconnected ++ [.disconnect "p1"])).findByPrincipalName "p2" =
      (run step (.init "chat" 1000) reconnected).findByPrincipalName "p2" := by
  have hfresh : FreshPrincipals reconnected := by
    unfold FreshPrincipals
    decide +kernel
  obtain ⟨hlive, hothers⟩ := findByPrincipalName_iff_live "chat" 1000 reconnected hfresh "p1"
  exact ⟨hfresh, hlive, by decide +kernel, hothers "p2" (by decide)⟩

end ChatSessions

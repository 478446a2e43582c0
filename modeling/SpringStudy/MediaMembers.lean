import SpringStudy.Brackets
import SpringStudy.MediaOffers

/-!
# Who is told that a member has entered or left

An OUTGOING offer tells the publishers of the room and the newcomer of each
other; the end of a session tells everybody in its room that the user has left.
The CONNECTED listener ends the session of the CONNECT frame and makes it anew,
so that it, too, tells of somebody leaving. The messages are matched when
nobody is told so of a user they do not believe to be there.
-/
namespace MediaMembers

open Tables Outcomes TtlCaches Runs Brackets MediaRoom MediaSocket
open MediaRoomManager hiding Event step
open MediaSession hiding Event step
open MediaPublishers (Publishing ConferenceOnly SameStores createInEp_fields find_own)
open MediaOffers (AllRooms Joining Keyed)

/-- Who a member message is about and who receives it, and whether it is an ENTER. -/
def mark : Message → Option ((String × String) × Bool)
  | .member principal info .enter => some ((info.userId, principal), true)
  | .member principal info .leave => some ((info.userId, principal), false)
  | _ => none

/-- The room object that the room id of the session leads to. -/
def roomFor (s : Server) (info : SessionInfo) : Option Room :=
  (info.roomId.bind s.rooms.roomIdRooms.lookup).bind fun r => s.rooms.heap[r]?

/-- The participants that `handleLeave` goes through for the session. -/
def othersOf (s : Server) (info : SessionInfo) : List Participant :=
  match roomFor s info with
  | none => []
  | some room => room.findOtherParticipantsWithMonitoringUser info.userId

/-- Who logs in is in no room and has no session yet; the CONNECTED listener is run for the
user of the session, while nobody else is in the room; a session that ends is that of a user
who has joined, if anybody else is in the room; and who joins finds only users with sessions. -/
def Orderly (s : Server) : Event → Prop
  | .connect user userId _ => ∀ u ∈ userId, s.sessions.userIdIndex.lookup u = none →
      s.sessions.findSessionInfo user = none ∧ ∀ room ∈ s.rooms.heap, room.findParticipant u = none
  | .connected user userId _ => ∀ info ∈ s.sessions.findSessionInfo user,
      userId = some info.userId ∧ othersOf s info = []
  | .disconnect user => ∀ info ∈ s.sessions.findSessionInfo user, othersOf s info = [] ∨
      ((roomFor s info).bind fun room => room.findParticipant info.userId).isSome = true
  | .offer user offer _ => offer.type = some .outgoing → ∀ info ∈ s.sessions.findSessionInfo user,
      ∀ p ∈ othersOf s info, (s.sessions.findSessionInfoByUserId p.userId).isSome = true
  | _ => True

instance decidableOrderly (s : Server) (e : Event) : Decidable (Orderly s e) := by
  cases e <;> unfold Orderly <;> infer_instance

/-- The user is a participant of the room object. -/
def InRoom (m : RoomManager) (r : RoomRef) (u : String) : Prop :=
  ∃ room p, m.heap[r]? = some room ∧ room.userIdParticipants.lookup u = some p

/-- Users of one room who have sessions have been told of each other, and all of the
messages so far are matched. -/
structure Acquainted (s : Server) : Prop where
  indexed : Indexed s.sessions
  inverse : Inverse s.sessions
  conferenceOnly : ConferenceOnly s.sessions
  publishing : AllRooms Publishing s.rooms
  met : ∀ r u v info other, u ≠ v → InRoom s.rooms r u → InRoom s.rooms r v →
    s.sessions.findSessionInfoByUserId u = some info → s.sessions.findSessionInfoByUserId v = some other →
    isOpen mark s.sent (u, other.principal) = true
  matched : Matched mark s.sent

/-! ## Sessions -/

theorem find_iff {m : SessionManager} (hx : Indexed m) (hi : Inverse m) (u : String) (info : SessionInfo) :
    m.findSessionInfoByUserId u = some info ↔
      m.findSessionInfo info.principal = some info ∧ info.userId = u := by
  constructor
  · intro h
    obtain ⟨p, hp, hs⟩ := Option.bind_eq_some_iff.mp h
    obtain ⟨info', hs', hid⟩ := (hi u p).mp hp
    obtain rfl := Option.some.inj (hs'.symm.trans hs)
    have hprincipal := (hx p info' hs').2
    rw [hprincipal]
    exact ⟨hs, hid⟩
  · rintro ⟨hs, rfl⟩
    exact find_own hx hs

/-- Two users with sessions have two principals. -/
theorem principal_injective {m : SessionManager} (hx : Indexed m) (hi : Inverse m) {u v : String}
    {info other : SessionInfo} (hu : m.findSessionInfoByUserId u = some info)
    (hv : m.findSessionInfoByUserId v = some other) (h : info.principal = other.principal) : u = v := by
  obtain ⟨hs, rfl⟩ := (find_iff hx hi u info).mp hu
  obtain ⟨hs', rfl⟩ := (find_iff hx hi v other).mp hv
  rw [h] at hs
  rw [Option.some.inj (hs.symm.trans hs')]

theorem findPrincipal_eq_some {m : SessionManager} {u principal : String}
    (h : m.findPrincipalByUserId (some u) = some (some principal)) :
    ∃ info, m.findSessionInfoByUserId u = some info ∧ info.principal = principal := by
  unfold SessionManager.findPrincipalByUserId at h
  split at h
  · cases h
  · rename_i name hname
    obtain ⟨info, hs, hp⟩ := Option.map_eq_some_iff.mp h
    refine ⟨info, ?_, Option.some.inj hp⟩
    rw [SessionManager.findSessionInfoByUserId, show m.userIdIndex.lookup u = some name from hname]
    exact hs

theorem unregister_find_inv {m : SessionManager} {user v : String} {info other : SessionInfo}
    (hs : m.findSessionInfo user = some info)
    (h : (unregister m user).1.findSessionInfoByUserId v = some other) :
    m.findSessionInfoByUserId v = some other ∧ v ≠ info.userId := by
  rw [unregister_some m user info hs] at h
  obtain ⟨p, hp, ho⟩ := Option.bind_eq_some_iff.mp h
  obtain ⟨hne, hindex⟩ := lookup_remove_eq_some.mp hp
  obtain ⟨-, hsession⟩ := lookup_remove_eq_some.mp ho
  refine ⟨?_, hne⟩
  rw [SessionManager.findSessionInfoByUserId, hindex]
  exact hsession

/-- A login adds at most the session of its own user. -/
theorem register_find_inv {m : SessionManager} (hi : Inverse m) {user v : String}
    {userId roomId : Option String} {other : SessionInfo} (hfree : m.findSessionInfo user = none)
    (h : (register m user userId roomId).1.findSessionInfoByUserId v = some other) :
    m.findSessionInfoByUserId v = some other ∨
      userId = some v ∧ m.userIdIndex.lookup v = none ∧ other.principal = user := by
  cases userId with
  | none => exact .inl h
  | some u =>
    cases hu : m.userIdIndex.lookup u with
    | some q =>
      rw [register_taken m user u roomId q hu] at h
      exact .inl h
    | none =>
      obtain ⟨p, hp, ho⟩ := Option.bind_eq_some_iff.mp h
      rw [register_free_index m user u roomId hu] at hp
      rw [SessionManager.findSessionInfo, register_free_sessions m user u roomId hu] at ho
      split at hp
      · rename_i hv
        obtain rfl := Option.some.inj hp
        rw [if_pos ⟨rfl, hfree⟩] at ho
        subst hv
        exact .inr ⟨rfl, hu, by rw [← Option.some.inj ho]⟩
      · -- an index entry of before leads to a session, and so not to `user`
        obtain ⟨info, hs, -⟩ := (hi v p).mp hp
        have hne : p ≠ user := by
          rintro rfl
          rw [SessionManager.findSessionInfo, hs] at hfree
          cases hfree
        rw [if_neg (fun hc => hne hc.1)] at ho
        refine .inl ?_
        rw [SessionManager.findSessionInfoByUserId, hp]
        exact ho

/-! ## The two loops over the others -/

/-- Each of `others` that can be told, has been told that the user is there: then the
messages of the loop are matched. -/
theorem notifyLeave_loop (info : SessionInfo) (others : List Participant) (s : Server)
    (hm : Matched mark s.sent)
    (hopen : ∀ p ∈ others, ∀ principal, s.sessions.findPrincipalByUserId (some p.userId) = some (some principal) →
      isOpen mark s.sent (info.userId, principal) = true)
    (hdistinct : others.Pairwise fun p q => ∀ principal,
      s.sessions.findPrincipalByUserId (some p.userId) = some (some principal) →
        s.sessions.findPrincipalByUserId (some q.userId) ≠ some (some principal)) :
    ∃ new, (forAll (fun s p => s.notifyLeave info p) s others).1.sent = s.sent ++ new ∧
      (∀ m ∈ new, ∃ principal, m = .member principal info .leave) ∧ Matched mark (s.sent ++ new) := by
  induction others generalizing s with
  | nil => exact ⟨[], by simp [forAll], by simp, by simpa using hm⟩
  | cons p others ih =>
    obtain ⟨hfirst, hrest⟩ := List.pairwise_cons.mp hdistinct
    rw [forAll]
    by_cases hfound : ∃ principal, s.sessions.findPrincipalByUserId (some p.userId) = some (some principal)
    · obtain ⟨principal, hp⟩ := hfound
      have hstep : s.notifyLeave info p = (s.send (.member principal info .leave), none) := by
        simp [Server.notifyLeave, hp]
      rw [hstep, andThen_ok]
      have hmatched : Matched mark (s.send (.member principal info .leave)).sent := by
        refine matched_snoc hm ?_
        intro k hk
        obtain rfl : (info.userId, principal) = k := congrArg Prod.fst (Option.some.inj hk)
        exact hopen p List.mem_cons_self principal hp
      obtain ⟨new, hsent, hnew, hall⟩ := ih (s.send (.member principal info .leave)) hmatched (by
        -- the message just sent went to another principal
        intro q hq principal' hq'
        have hne : principal ≠ principal' := by
          rintro rfl
          exact hfirst q hq principal hp hq'
        refine (isOpen_append_other ?_ s.sent).trans (hopen q (List.mem_cons_of_mem p hq) principal' hq')
        intro m hm opens hmark
        obtain rfl := List.mem_singleton.mp hm
        exact hne (congrArg (fun x => x.1.2) (Option.some.inj hmark))) hrest
      refine ⟨.member principal info .leave :: new, ?_, ?_, ?_⟩
      · rw [hsent]
        simp [Server.send]
      · intro m hm
        obtain rfl | hm := List.mem_cons.mp hm
        · exact ⟨principal, rfl⟩
        · exact hnew m hm
      · simpa [Server.send] using hall
    · have hstep : s.notifyLeave info p = (s, some (.missingSession p.userId)) := by
        unfold Server.notifyLeave
        split
        · rename_i principal hp
          exact absurd ⟨principal, hp⟩ hfound
        · rfl
      rw [hstep, andThen_failed]
      exact ⟨[], by simp, by simp, by simpa using hm⟩

/-- Everybody the loop meets is told of the newcomer, and the newcomer of them. -/
theorem notifyEnter_loop (user : String) (info : SessionInfo) (others : List Participant) (s : Server)
    (hfound : ∀ p ∈ others, (s.sessions.findSessionInfoByUserId p.userId).isSome = true) :
    ∃ new, (forAll (fun s p => s.notifyEnter user info p) s others).1.sent = s.sent ++ new ∧
      (∀ m ∈ new, ∀ k, mark m ≠ some (k, false)) ∧
      ∀ p ∈ others, ∀ other, s.sessions.findSessionInfoByUserId p.userId = some other →
        .member user other .enter ∈ new ∧ .member other.principal info .enter ∈ new := by
  induction others generalizing s with
  | nil => exact ⟨[], by simp [forAll], by simp, by simp⟩
  | cons p others ih =>
    obtain ⟨other, ho⟩ := Option.isSome_iff_exists.mp (hfound p List.mem_cons_self)
    have hstep : s.notifyEnter user info p =
        ((s.send (.member user other .enter)).send (.member other.principal info .enter), none) := by
      simp [Server.notifyEnter, ho]
    obtain ⟨new, hsent, hnew, hall⟩ :=
      ih ((s.send (.member user other .enter)).send (.member other.principal info .enter))
        fun q hq => hfound q (List.mem_cons_of_mem p hq)
    rw [forAll, hstep, andThen_ok]
    refine ⟨.member user other .enter :: .member other.principal info .enter :: new, ?_, ?_, ?_⟩
    · rw [hsent]
      simp [Server.send]
    · intro m hm k
      simp only [List.mem_cons] at hm
      obtain rfl | rfl | hm := hm
      · simp [mark]
      · simp [mark]
      · exact hnew m hm k
    · intro q hq other' hother'
      obtain rfl | hq := List.mem_cons.mp hq
      · obtain rfl := Option.some.inj (ho.symm.trans hother')
        simp
      · obtain ⟨h₁, h₂⟩ := hall q hq other' hother'
        exact ⟨by simp [h₁], by simp [h₂]⟩

/-! ## Steps on which nobody leaves -/

/-- The sessions stay, nobody is told of a leave, and new pairs in a room are told of each other. -/
theorem Acquainted.grow {s s' : Server} (h : Acquainted s) (hsessions : s'.sessions = s.sessions)
    (hpublishing : AllRooms Publishing s'.rooms) (new : List Message) (hsent : s'.sent = s.sent ++ new)
    (hnew : ∀ m ∈ new, ∀ k, mark m ≠ some (k, false))
    (hmet : ∀ r u v info other, u ≠ v → InRoom s'.rooms r u → InRoom s'.rooms r v →
      s.sessions.findSessionInfoByUserId u = some info → s.sessions.findSessionInfoByUserId v = some other →
      InRoom s.rooms r u ∧ InRoom s.rooms r v ∨ ∃ m ∈ new, mark m = some ((u, other.principal), true)) :
    Acquainted s' where
  indexed := hsessions ▸ h.indexed
  inverse := hsessions ▸ h.inverse
  conferenceOnly := hsessions ▸ h.conferenceOnly
  publishing := hpublishing
  met := by
    intro r u v info other hne hu hv hinfo hother
    rw [hsessions] at hinfo hother
    rw [hsent]
    refine isOpen_append_opening (fun m hm => hnew m hm _) ?_
    rcases hmet r u v info other hne hu hv hinfo hother with ⟨hu', hv'⟩ | hopens
    · exact .inl (h.met r u v info other hne hu' hv' hinfo hother)
    · exact .inr hopens
  matched := by
    rw [hsent]
    exact matched_append_opening h.matched new hnew

theorem publishing_joining : Joining Publishing where
  new _ _ _ u p hp := by cases hp
  join := by
    intro room userId build h
    simp only [Room.call, Room.join]
    split
    · exact h
    · exact h
    · intro u p hp
      simp only [Option.getD_some, lookup_put] at hp
      split at hp
      · rename_i hu
        rw [← Option.some.inj hp]
        exact ⟨hu.symm, rfl⟩
      · exact h u p hp
  release := by
    intro room _
    rw [Room.call, Room.release_fst]
    intro u p hp
    cases hp
  createInEp := by
    intro room userId p present build p' e h hp he u q hq
    obtain ⟨hid, hout⟩ := createInEp_fields he
    obtain ⟨hown, hsome⟩ := h userId p hp
    dsimp only at hq
    rw [lookup_put] at hq
    split at hq
    · rename_i hu
      rw [← Option.some.inj hq]
      exact ⟨hu.symm, by rw [hout]; exact hsome⟩
    · exact h u q hq

theorem keyed_of_publishing {room : Room} (h : Publishing room) : Keyed room := fun u p hp => (h u p hp).1

theorem createRoom_acquainted {s : Server} (h : Acquainted s) (roomId : String)
    (wrapper : Option PipelineWrapper) (now : Nat) : Acquainted (s.createRoom roomId wrapper now).1 := by
  have hpublishing := MediaOffers.createRoom_allRooms publishing_joining h.publishing roomId wrapper now
  revert hpublishing
  unfold Server.createRoom
  cases hc : s.rooms.createRoom roomId wrapper now with
  | none => exact fun _ => h
  | some m =>
    intro hpublishing
    refine h.grow rfl hpublishing [] (by simp) (by simp) ?_
    have hold : ∀ r u, InRoom m r u → InRoom s.rooms r u := by
      rintro r u ⟨room, p, hr, hp⟩
      rcases createRoom_cases hc with rfl | ⟨url, pipeline, -, -, rfl⟩
      · exact ⟨room, p, hr, hp⟩
      · rcases append_cases hr with hr | rfl
        · exact ⟨room, p, hr, hp⟩
        · cases hp
    intro r u v info other _ hu hv _ _
    exact .inl ⟨hold r u hu, hold r v hv⟩

/-- Only messages that are not about members have been sent. -/
structure Unmarked (s s' : Server) : Prop where
  sessions : s'.sessions = s.sessions
  rooms : s'.rooms = s.rooms
  sent : ∃ new, s'.sent = s.sent ++ new ∧ ∀ m ∈ new, mark m = none

theorem Unmarked.refl (s : Server) : Unmarked s s := ⟨rfl, rfl, [], by simp, by simp⟩

theorem Unmarked.send {s s' : Server} (h : Unmarked s s') {m : Message} (hm : mark m = none) :
    Unmarked s (s'.send m) := by
  obtain ⟨new, hsent, hnew⟩ := h.sent
  refine ⟨h.sessions, h.rooms, new ++ [m], ?_, ?_⟩
  · rw [Server.send, hsent, List.append_assoc]
  · intro m' hm'
    rcases List.mem_append.mp hm' with hold | hlast
    · exact hnew m' hold
    · rw [List.mem_singleton.mp hlast]
      exact hm

/-- The close callbacks tell of the end of a room, and of no member. -/
theorem closeRooms_unmarked (s : Server) (calls : List (RoomRef × Call)) :
    Unmarked s (s.closeRooms calls).1 := by
  refine forAll_invariant (I := Unmarked s) _ ?_ _ _ (.refl s)
  intro t c ht
  split
  · unfold Server.closeRoomCallback
    refine andThen_invariant (I := Unmarked s) _ _ ?_ ?_
    · refine forAll_invariant (I := Unmarked s) _ ?_ _ _ ht
      intro t p ht
      split
      · exact ht
      · exact ht
      · exact ht.send rfl
    · exact fun t ht => ⟨ht.sessions, ht.rooms, ht.sent⟩
  · exact ht

theorem fireTtl_inRoom {m : RoomManager} {task : String × Nat} {now : Nat} {r : RoomRef} {u : String}
    (h : InRoom (m.fireTtl task now) r u) : InRoom m r u := by
  obtain ⟨room, p, hr, hp⟩ := h
  unfold RoomManager.fireTtl at hr
  dsimp only at hr
  split at hr
  · exact ⟨room, p, hr, hp⟩
  · rename_i r' _
    cases hheap : m.heap[r']? with
    | none =>
      simp only [RoomManager.onRoom, hheap] at hr
      exact ⟨room, p, hr, hp⟩
    | some room' =>
      rw [onRoom_heap (m := { m with roomTtl := (TtlCaches.fire hasCome m.roomTtl task now).1 }) hheap] at hr
      rcases set_cases hr with ⟨-, rfl⟩ | ⟨-, hold⟩
      · rw [Room.release_fst] at hp
        cases hp
      · exact ⟨room, p, hold, hp⟩

theorem fireTtl_acquainted {s : Server} (h : Acquainted s) (task : String × Nat) (now : Nat) :
    Acquainted (s.fireTtl task now).1 := by
  have hclose := closeRooms_unmarked { s with rooms := s.rooms.fireTtl task now }
    ((s.rooms.fireTtl task now).trace.drop s.rooms.trace.length)
  obtain ⟨new, hsent, hnew⟩ := hclose.sent
  have hrooms : (s.fireTtl task now).1.rooms = s.rooms.fireTtl task now := hclose.rooms
  refine h.grow hclose.sessions ?_ new hsent ?_ ?_
  · rw [hrooms]
    exact MediaOffers.fireTtl_allRooms publishing_joining h.publishing task now
  · intro m hm k
    rw [hnew m hm]
    simp
  · intro r u v info other _ hu hv _ _
    rw [hrooms] at hu hv
    exact .inl ⟨fireTtl_inRoom hu, fireTtl_inRoom hv⟩

/-! ## Offers -/

theorem othersOf_eq {s : Server} {info : SessionInfo} {x : String} {r : RoomRef} {room : Room}
    (hx : info.roomId = some x) (hmap : s.rooms.roomIdRooms.lookup x = some r)
    (hr : s.rooms.heap[r]? = some room) :
    othersOf s info = room.findOtherParticipantsWithMonitoringUser info.userId := by
  simp [othersOf, roomFor, hx, hmap, hr]

theorem connectPresent_unmarked (s : Server) (r : RoomRef) (present : Option String) (e : Endpoint) :
    Unmarked s (s.connectPresent r present e).1 := by
  unfold Server.connectPresent
  split
  · exact .refl s
  · split
    · exact .refl s
    · exact ⟨rfl, rfl, [], by simp [Server.callMedia], by simp⟩

theorem putParticipant_inRoom {s : Server} {r r' : RoomRef} {room : Room} {userId v : String}
    {p p' : Participant} (hr : s.rooms.heap[r]? = some room)
    (hp : room.userIdParticipants.lookup userId = some p) (hid : p'.userId = userId)
    (h : InRoom (s.putParticipant r p').rooms r' v) : InRoom s.rooms r' v := by
  obtain ⟨room', q, hr', hq⟩ := h
  rw [MediaEndpoints.putParticipant_heap s r p' hr] at hr'
  rcases set_cases hr' with ⟨rfl, rfl⟩ | ⟨-, hold⟩
  · dsimp only at hq
    rw [lookup_put] at hq
    split at hq
    · rename_i hv
      rw [hv, hid]
      exact ⟨room, p, hr, hp⟩
    · exact ⟨room, q, hr, hq⟩
  · exact ⟨room', q, hold, hq⟩

/-- An INCOMING offer sends its answer and brings nobody into a room. -/
theorem incoming_acquainted {s s' : Server} (h : Acquainted s) {r : RoomRef} {info : SessionInfo}
    {offer : OfferMessage} {build : Option Endpoint} {epType : WebRtcEndpointType} {e : Endpoint}
    (hfound : Found s r info.userId offer build s' epType e)
    (htype : offer.type ≠ some .outgoing) (user roomId : String) :
    Acquainted (Server.respond user info roomId r offer s' epType e).1 := by
  have hpublishing := MediaOffers.found_allRooms publishing_joining hfound h.publishing
  cases hfound with
  | outgoing _ _ hout _ => exact absurd hout htype
  | @incoming room p p' present e hr hp _ _ he =>
    have hrespond := connectPresent_unmarked ((s.putParticipant r p').answerOffer user info roomId offer .incoming e)
      r offer.present e
    obtain ⟨new, hsent, hnew⟩ := hrespond.sent
    refine h.grow hrespond.sessions ?_ (.answer user roomId .incoming offer.present :: new) ?_ ?_ ?_
    · exact hrespond.rooms ▸ hpublishing
    · refine hsent.trans ?_
      simp [Server.answerOffer, Server.callMedia, Server.send, Server.putParticipant]
    · intro m hm k
      obtain rfl | hm := List.mem_cons.mp hm
      · simp [mark]
      · rw [hnew m hm]
        simp
    · intro r' u v _ _ _ hu hv _ _
      have hid : p'.userId = info.userId :=
        (createInEp_fields he).1.trans (h.publishing r room hr info.userId p hp).1
      have hrooms : (Server.respond user info roomId r offer (s.putParticipant r p') .incoming e).1.rooms =
          (s.putParticipant r p').rooms := hrespond.rooms
      rw [hrooms] at hu hv
      exact .inl ⟨putParticipant_inRoom hr hp hid hu, putParticipant_inRoom hr hp hid hv⟩

theorem mem_findOtherParticipants_iff (room : Room) (userId : String) (p : Participant) :
    p ∈ room.findOtherParticipants userId ↔
      (∃ u, room.userIdParticipants.lookup u = some p) ∧ p.userId ≠ userId ∧
        p.outWebRtcEndpoint.isSome = true := by
  simp only [Room.findOtherParticipants, Room.findParticipants, List.mem_filter, mem_values_iff,
    decide_eq_true_eq]
  constructor
  · rintro ⟨⟨⟨hu, -⟩, hne⟩, hout⟩
    exact ⟨hu, hne, hout⟩
  · rintro ⟨hu, hne, hout⟩
    exact ⟨⟨⟨hu, hout⟩, hne⟩, hout⟩

/-- The user publishes in the room object `r` if they are in it, and the other publishers have sessions. -/
structure Ready (s : Server) (info : SessionInfo) (r : RoomRef) (room : Room) : Prop where
  heap : s.rooms.heap[r]? = some room
  own : ∀ p, room.findParticipant info.userId = some p → p.outWebRtcEndpoint.isSome = true
  others : ∀ p ∈ room.findOtherParticipants info.userId,
    (s.sessions.findSessionInfoByUserId p.userId).isSome = true

/-- `joinConference` has come from `s` to `s'`, and the room object `r` from `room` to `room'`. -/
structure Joined (s : Server) (info : SessionInfo) (r : RoomRef) (room : Room) (s' : Server) (room' : Room) :
    Prop where
  sessions : s'.sessions = s.sessions
  sent : s'.sent = s.sent ++ [.chat info.roomId info.userId "enter"]
  heap : s'.rooms.heap = s.rooms.heap.set r room'
  participants : ∀ v p, room'.userIdParticipants.lookup v = some p →
    room.userIdParticipants.lookup v = some p ∨ v = info.userId ∧ p.userId = info.userId

/-- What happens if Kurento builds the endpoint. -/
theorem joinConference_joined {s : Server} {info : SessionInfo} {r : RoomRef} {room room' : Room}
    {calls : List Call} {build : Option Endpoint} (hr : s.rooms.heap[r]? = some room)
    (hj : room.join info.userId build = some (room', calls))
    (hparticipants : ∀ v p, room'.userIdParticipants.lookup v = some p →
      room.userIdParticipants.lookup v = some p ∨ v = info.userId ∧ p.userId = info.userId) :
    ∃ s', s.joinConference info r build = (s', none) ∧ Joined s info r room s' room' := by
  have hcall : (room.call (.join info.userId build)).1 = room' := by simp [Room.call, hj]
  have hheap := onRoom_heap (f := fun room : Room => room.call (.join info.userId build)) hr
  rw [hcall] at hheap
  exact ⟨_, MediaOffers.joinConference_eq hr hj, rfl, rfl, hheap, hparticipants⟩

theorem Joined.ready {s s' : Server} {info : SessionInfo} {r : RoomRef} {room room' : Room}
    (hj : Joined s info r room s' room') (h : Ready s info r room)
    (hown : ∀ p, room'.findParticipant info.userId = some p → p.outWebRtcEndpoint.isSome = true) :
    Ready s' info r room' where
  heap := by
    rw [hj.heap]
    exact set_self h.heap
  own := hown
  others p hp := by
    obtain ⟨⟨u, hu⟩, hne, hout⟩ := (mem_findOtherParticipants_iff _ _ _).mp hp
    rw [hj.sessions]
    rcases hj.participants u p hu with hold | ⟨-, hid⟩
    · exact h.others p ((mem_findOtherParticipants_iff _ _ _).mpr ⟨⟨u, hold⟩, hne, hout⟩)
    · exact absurd hid hne

/-- A user who does not come to join has changed nothing; otherwise the user publishes in the room. -/
theorem join_ready {s : Server} {info : SessionInfo} {r : RoomRef} {room : Room} (h : Ready s info r room)
    (build : Option Endpoint) :
    (∃ failure, s.joinConference info r build = (s, some failure)) ∨
    ∃ s' room' p, s.joinConference info r build = (s', none) ∧ Joined s info r room s' room' ∧
      Ready s' info r room' ∧ room'.findParticipant info.userId = some p ∧
      p.outWebRtcEndpoint.isSome = true := by
  cases hp : room.userIdParticipants.lookup info.userId with
  | some p =>
    have hj : room.join info.userId build = some (room, [.joinRoomCallBack room.roomId]) := by
      simp [Room.join, hp]
    obtain ⟨s', hs', hjoined⟩ := joinConference_joined h.heap hj fun v p hv => .inl hv
    right
    exact ⟨s', room, p, hs', hjoined, hjoined.ready h h.own, hp, h.own p hp⟩
  | none =>
    cases build with
    | none =>
      left
      have hj : room.join info.userId none = none := by simp [Room.join, hp]
      exact ⟨.kurento, by simp [Server.joinConference, h.heap, hj]⟩
    | some e =>
      have hj : room.join info.userId (some e) =
          some ({ room with userIdParticipants :=
            room.userIdParticipants.insert info.userId ⟨info.userId, some e, ∅⟩ },
            [.joinRoomCallBack room.roomId]) := by
        simp [Room.join, hp]
      have hself : (room.userIdParticipants.insert info.userId ⟨info.userId, some e, ∅⟩).lookup info.userId =
          some (⟨info.userId, some e, ∅⟩ : Participant) := by
        rw [lookup_put, if_pos rfl]
      obtain ⟨s', hs', hjoined⟩ := joinConference_joined h.heap hj (by
        intro v p hv
        dsimp only at hv
        rw [lookup_put] at hv
        split at hv
        · rename_i hsame
          exact .inr ⟨hsame, congrArg Participant.userId (Option.some.inj hv).symm⟩
        · exact .inl hv)
      right
      refine ⟨s', _, ⟨info.userId, some e, ∅⟩, hs', hjoined, hjoined.ready h ?_, hself, rfl⟩
      intro p hown
      rw [Room.findParticipant, hself] at hown
      rw [← Option.some.inj hown]
      rfl

/-- The endpoint of a user that has joined is there, so that the offer is answered. -/
theorem offerInRoom_outgoing {s : Server} {info : SessionInfo} {offer : OfferMessage} {r : RoomRef}
    {room : Room} (h : Ready s info r room) (hjoins : JoinsFirst info offer) (user roomId : String)
    (build : Option Endpoint) :
    (∃ failure, s.offerInRoom user info roomId r offer build = (s, some failure)) ∨
    ∃ s' room' e, Joined s info r room s' room' ∧ Ready s' info r room' ∧
      s.offerInRoom user info roomId r offer build = Server.respond user info roomId r offer s' .outgoing e := by
  obtain ⟨failure, hj⟩ | ⟨s', room', p, hj, hjoined, hready, hp, hout⟩ := join_ready h build
  · rw [Server.offerInRoom, if_pos (show _ ∧ _ from hjoins), hj, andThen_failed]
    exact .inl ⟨failure, rfl⟩
  · obtain ⟨e, he⟩ := Option.isSome_iff_exists.mp hout
    have hentered : Entered s info r offer build s' := .inr ⟨hjoins, hj⟩
    refine .inr ⟨s', room', e, hjoined, hready, ?_⟩
    rw [hentered.offerInRoom]
    simp [Server.withEndpoint, Server.getWebRtcPeerDefaultCreate, hready.heap, hp, hjoins.2, he]

/-- Who is in a room after somebody has joined. -/
theorem joined_inRoom {s s' : Server} {info : SessionInfo} {r r' : RoomRef} {room room' : Room} {v : String}
    (hr : s.rooms.heap[r]? = some room) (hj : Joined s info r room s' room') (h : InRoom s'.rooms r' v) :
    InRoom s.rooms r' v ∨ r' = r ∧ v = info.userId := by
  obtain ⟨room'', p, hr', hp⟩ := h
  rw [hj.heap] at hr'
  rcases set_cases hr' with ⟨rfl, rfl⟩ | ⟨-, hold⟩
  · rcases hj.participants v p hp with hbefore | ⟨hv, -⟩
    · exact .inl ⟨room, p, hr, hbefore⟩
    · exact .inr ⟨rfl, hv⟩
  · exact .inl ⟨room'', p, hold, hp⟩

theorem respond_outgoing_eq {s : Server} {r : RoomRef} {room : Room} (hr : s.rooms.heap[r]? = some room)
    (user : String) (info : SessionInfo) (roomId : String) (offer : OfferMessage) (e : Endpoint) :
    Server.respond user info roomId r offer s .outgoing e =
      forAll (fun s p => s.notifyEnter user info p) (s.answerOffer user info roomId offer .outgoing e)
        (room.findOtherParticipants info.userId) := by
  have hheap : (s.answerOffer user info roomId offer .outgoing e).rooms.heap[r]? = some room := hr
  have hothers : (((s.answerOffer user info roomId offer .outgoing e).rooms.heap[r]?).map fun room =>
      room.findOtherParticipants info.userId).getD [] = room.findOtherParticipants info.userId := by
    rw [hheap]
    rfl
  rw [← hothers]
  rfl

/-- An OUTGOING offer that is answered tells the user and the others of each other. -/
theorem outgoing_acquainted {s s' : Server} (h : Acquainted s) {r : RoomRef} {room room' : Room}
    {user : String} {info : SessionInfo} {offer : OfferMessage} {e : Endpoint}
    (hinfo : s.sessions.findSessionInfo user = some info) (hr : s.rooms.heap[r]? = some room)
    (hj : Joined s info r room s' room') (hready : Ready s' info r room') (hpublishing : AllRooms Publishing s'.rooms) (roomId : String) :
    Acquainted (Server.respond user info roomId r offer s' .outgoing e).1 := by
  set t := s'.answerOffer user info roomId offer .outgoing e with ht
  have hrespond := respond_outgoing_eq hready.heap user info roomId offer e
  obtain ⟨hrooms, hsessions, -⟩ := respond_stores user info roomId r offer s' .outgoing e
  obtain ⟨new, hsent, hnew, htold⟩ := notifyEnter_loop user info (room'.findOtherParticipants info.userId) t
    hready.others
  have hin : ∀ v other, InRoom s'.rooms r v → v ≠ info.userId →
      s.sessions.findSessionInfoByUserId v = some other →
      .member user other .enter ∈ new ∧ .member other.principal info .enter ∈ new := by
    rintro v other ⟨room'', p, hr'', hp⟩ hne hother
    obtain rfl := Option.some.inj (hready.heap.symm.trans hr'')
    obtain ⟨hid, hout⟩ := hpublishing r room' hready.heap v p hp
    refine htold p ?_ other ?_
    · exact (mem_findOtherParticipants_iff _ _ _).mpr ⟨⟨v, hp⟩, hid ▸ hne, hout⟩
    · rw [hid]
      show s'.sessions.findSessionInfoByUserId v = some other
      rw [hj.sessions]
      exact hother
  have hprincipal : info.principal = user := (h.indexed user info hinfo).2
  refine h.grow (hsessions.trans hj.sessions) ?_
    (.chat info.roomId info.userId "enter" :: .answer user roomId .outgoing offer.present :: new) ?_ ?_ ?_
  · rw [hrooms]
    exact hpublishing
  · rw [hrespond, hsent, ht]
    simp [Server.answerOffer, Server.callMedia, Server.send, hj.sent]
  · intro m hm k
    simp only [List.mem_cons] at hm
    obtain rfl | rfl | hm := hm
    · simp [mark]
    · simp [mark]
    · exact hnew m hm k
  · intro r' u v infoU other hne hu hv hu' hv'
    rw [hrooms] at hu hv
    rcases joined_inRoom hr hj hu with huold | ⟨rfl, rfl⟩
    · rcases joined_inRoom hr hj hv with hvold | ⟨rfl, rfl⟩
      · exact .inl ⟨huold, hvold⟩
      · -- the newcomer has been told of `u`
        obtain rfl := Option.some.inj ((find_own h.indexed hinfo).symm.trans hv')
        have huser : infoU.userId = u := ((find_iff h.indexed h.inverse u infoU).mp hu').2
        refine .inr ⟨.member user infoU .enter, ?_, ?_⟩
        · simp [(hin u infoU hu hne hu').1]
        · simp [mark, huser, hprincipal]
    · -- `v` has been told of the newcomer
      refine .inr ⟨.member other.principal info .enter, ?_, rfl⟩
      simp [(hin v other hv hne.symm hv').2]

theorem handleOffer_acquainted {s : Server} (h : Acquainted s) (user : String) (offer : OfferMessage)
    (build : Option Endpoint) (ho : Orderly s (.offer user offer build)) :
    Acquainted (s.handleOffer user offer build).1 := by
  rcases handleOffer_cases s user offer build with ⟨⟨failure, he⟩, -⟩ | ⟨info, x, r, hreach, he⟩
  · rw [he]
    exact h
  · have hinfo := hreach.session
    have hticket := h.conferenceOnly user info hinfo
    have hroomId : info.roomId = some x := by simpa [roomOf, hticket] using hreach.room
    have hall := MediaOffers.handleOffer_allRooms publishing_joining h.publishing user offer build
    rw [he] at hall ⊢
    by_cases htype : offer.type = some .outgoing
    · have hjoins : JoinsFirst info offer := ⟨hticket, htype⟩
      cases hr : s.rooms.heap[r]? with
      | none =>
        rw [Server.offerInRoom, if_pos (show _ ∧ _ from hjoins)]
        simpa [Server.joinConference, hr] using h
      | some room =>
        have hroom := h.publishing r room hr
        have hready : Ready s info r room := by
          refine ⟨hr, fun p hp => (hroom info.userId p hp).2, fun p hp => ?_⟩
          obtain ⟨hin, hne, -⟩ := (mem_findOtherParticipants_iff _ _ _).mp hp
          refine ho htype info hinfo p ?_
          rw [othersOf_eq hroomId hreach.stored hr]
          simp only [Room.findOtherParticipantsWithMonitoringUser, List.mem_filter, mem_values_iff,
            decide_eq_true_eq]
          exact ⟨hin, hne⟩
        obtain ⟨failure, hf⟩ | ⟨s', room', e, hj, hready', hrespond⟩ :=
          offerInRoom_outgoing hready hjoins user x build
        · rw [hf]
          exact h
        · have hpublishing : AllRooms Publishing s'.rooms := by
            rw [hrespond, (respond_stores user info x r offer s' .outgoing e).1] at hall
            exact hall
          rw [hrespond]
          exact outgoing_acquainted h hinfo hr hj hready' hpublishing x
    · have hentered : Entered s info r offer build s := .inl ⟨fun hjoins => htype hjoins.2, rfl⟩
      rw [hentered.offerInRoom]
      rcases withEndpoint_cases s r info.userId offer build (Server.respond user info x r offer) with
        ⟨failure, hw⟩ | ⟨s', epType, e, hfound, hw⟩
      · rw [hw]
        exact h
      · rw [hw]
        exact incoming_acquainted h hfound htype user x

/-! ## Sessions that end -/

theorem values_distinct {room : Room} (hk : Keyed room) :
    (values room.userIdParticipants).Pairwise fun p q => p.userId ≠ q.userId := by
  unfold values
  rw [List.pairwise_map]
  have hkeys : room.userIdParticipants.entries.Pairwise fun a b => a.1 ≠ b.1 :=
    List.pairwise_map.mp room.userIdParticipants.nodupKeys
  refine hkeys.imp_of_mem ?_
  intro a b ha hb hne
  have hida := hk a.1 a.2 ((mem_entries_iff _ a.1 a.2).mp ha)
  have hidb := hk b.1 b.2 ((mem_entries_iff _ b.1 b.2).mp hb)
  rw [hida, hidb]
  exact hne

/-- The messages of a session that ends are about its user, and matched. -/
structure Ended (s : Server) (info : SessionInfo) (s' : Server) : Prop where
  sent : ∃ new, s'.sent = s.sent ++ new ∧ (∀ m ∈ new, ∀ k opens, mark m = some (k, opens) → k.1 = info.userId) ∧
    Matched mark (s.sent ++ new)
  silent : othersOf s info = [] → ∃ new, s'.sent = s.sent ++ new ∧ ∀ m ∈ new, mark m = none

theorem Ended.of_sent {s s' : Server} {info : SessionInfo} (hm : Matched mark s.sent) (new : List Message)
    (hsent : s'.sent = s.sent ++ new) (hnew : ∀ m ∈ new, mark m = none) : Ended s info s' where
  sent := by
    refine ⟨new, hsent, ?_, matched_append_opening hm new ?_⟩
    · intro m hm' k opens hk
      rw [hnew m hm'] at hk
      cases hk
    · intro m hm' k
      rw [hnew m hm']
      simp
  silent _ := ⟨new, hsent, hnew⟩

/-- No two participants of a room have one principal. -/
theorem others_distinct {room : Room} (hk : Keyed room) {t : Server} (hx : Indexed t.sessions)
    (hi : Inverse t.sessions) (userId : String) :
    (room.findOtherParticipantsWithMonitoringUser userId).Pairwise fun p q =>
      ∀ principal, t.sessions.findPrincipalByUserId (some p.userId) = some (some principal) →
        t.sessions.findPrincipalByUserId (some q.userId) ≠ some (some principal) := by
  refine ((values_distinct hk).filter _).imp ?_
  intro p q hne principal hp hq
  obtain ⟨info₁, h₁, hp₁⟩ := findPrincipal_eq_some hp
  obtain ⟨info₂, h₂, hp₂⟩ := findPrincipal_eq_some hq
  exact hne (principal_injective hx hi h₁ h₂ (hp₁.trans hp₂.symm))

/-- While the others in the room who have sessions have been told that the user is there,
`leaveConference` sends matched messages. -/
theorem leaveConference_ended {s t : Server} {info : SessionInfo} (hm : Matched mark s.sent)
    (hpublishing : AllRooms Publishing s.rooms) (hx : Indexed t.sessions) (hi : Inverse t.sessions)
    (hrooms : t.rooms = s.rooms) (hsent : t.sent = s.sent)
    (hopen : ∀ p ∈ othersOf s info, ∀ other, t.sessions.findSessionInfoByUserId p.userId = some other →
      isOpen mark s.sent (info.userId, other.principal) = true) :
    Ended s info (t.leaveConference info).1 := by
  have hnothing : Ended s info t := .of_sent hm [] (by simp [hsent]) (by simp)
  unfold Server.leaveConference
  split
  · exact hnothing
  · rename_i x hroomId
    split
    · exact hnothing
    · rename_i r hmap
      split
      · exact hnothing
      · rename_i room hr
        rw [hrooms] at hmap hr
        have hothers := othersOf_eq hroomId hmap hr
        have hchat : Matched mark (s.sent ++ [.chat info.roomId info.userId "leave"]) :=
          matched_append_opening hm _ (by simp [mark])
        have hsent' : (t.send (.chat info.roomId info.userId "leave")).sent =
            s.sent ++ [.chat info.roomId info.userId "leave"] := by rw [Server.send, hsent]
        obtain ⟨new, hloop, hnew, hmatched⟩ := notifyLeave_loop info
          (room.findOtherParticipantsWithMonitoringUser info.userId)
          (t.send (.chat info.roomId info.userId "leave")) (hsent' ▸ hchat) (by
            intro p hp principal hprincipal
            obtain ⟨other, hother, rfl⟩ := findPrincipal_eq_some hprincipal
            rw [hsent']
            refine (isOpen_append_other (by simp [mark]) s.sent).trans (hopen p ?_ other hother)
            rw [hothers]
            exact hp)
          (others_distinct (keyed_of_publishing (hpublishing r room hr)) hx hi info.userId)
        rw [hsent'] at hloop hmatched
        refine ⟨⟨.chat info.roomId info.userId "leave" :: new, by rw [hloop]; simp, ?_, by simpa using hmatched⟩, ?_⟩
        · intro m hm' k opens hk
          obtain rfl | hm' := List.mem_cons.mp hm'
          · cases hk
          · obtain ⟨principal, rfl⟩ := hnew m hm'
            exact (congrArg (fun x => x.1.1) (Option.some.inj hk)).symm
        · intro hnobody
          rw [hothers] at hnobody
          refine ⟨[.chat info.roomId info.userId "leave"], ?_, by simp [mark]⟩
          rw [hnobody]
          exact hsent'

theorem unregister_unknown {s : Server} {user : String} (hs : s.sessions.findSessionInfo user = none) :
    s.unregister user = (s, some .nullPointer) := by
  simp [Server.unregister, unregister_none s.sessions user hs]

theorem unregister_ended {s : Server} (h : Acquainted s) {user : String} {info : SessionInfo}
    (hs : s.sessions.findSessionInfo user = some info)
    (hok : othersOf s info = [] ∨
      ((roomFor s info).bind fun room => room.findParticipant info.userId).isSome = true) :
    Ended s info (s.unregister user).1 := by
  have hgone := unregister_some s.sessions user info hs
  have hx := unregister_indexed s.sessions user h.indexed
  have hi := unregister_inverse s.sessions user h.indexed h.inverse
  have hfind := @unregister_find_inv s.sessions user
  rw [hgone] at hx hi hfind
  unfold Server.unregister
  simp only [hgone, Server.handleLeave, h.conferenceOnly user info hs]
  refine leaveConference_ended h.matched h.publishing hx hi rfl rfl ?_
  intro p hp other hother
  obtain ⟨hbefore, hne⟩ := hfind hs hother
  obtain hnobody | hjoined := hok
  · rw [hnobody] at hp
    cases hp
  · -- the user and the other are participants of one room
    obtain ⟨q, hjoined⟩ := Option.isSome_iff_exists.mp hjoined
    obtain ⟨room, hroom, hq⟩ := Option.bind_eq_some_iff.mp hjoined
    obtain ⟨r, -, hr⟩ := Option.bind_eq_some_iff.mp hroom
    rw [othersOf, hroom] at hp
    simp only [Room.findOtherParticipantsWithMonitoringUser, List.mem_filter, mem_values_iff,
      decide_eq_true_eq] at hp
    obtain ⟨⟨v, hv⟩, -⟩ := hp
    have hid := (h.publishing r room hr v p hv).1
    refine h.met r info.userId p.userId info other hne.symm ⟨room, q, hr, hq⟩ ?_ (find_own h.indexed hs) hbefore
    rw [hid]
    exact ⟨room, p, hr, hv⟩

theorem unregister_acquainted {s : Server} (h : Acquainted s) {user : String} {info : SessionInfo}
    (hs : s.sessions.findSessionInfo user = some info)
    (hok : othersOf s info = [] ∨
      ((roomFor s info).bind fun room => room.findParticipant info.userId).isSome = true) :
    Acquainted (s.unregister user).1 := by
  obtain ⟨hsessions, hrooms⟩ := MediaPublishers.unregister_stores s user h.conferenceOnly
  obtain ⟨new, hsent, hnew, hmatched⟩ := (unregister_ended h hs hok).sent
  refine ⟨?_, ?_, ?_, ?_, ?_, ?_⟩
  · rw [hsessions]
    exact unregister_indexed s.sessions user h.indexed
  · rw [hsessions]
    exact unregister_inverse s.sessions user h.indexed h.inverse
  · rw [hsessions]
    exact MediaPublishers.unregister_conferenceOnly s.sessions user h.conferenceOnly
  · rw [hrooms]
    exact h.publishing
  · intro r u v infoU other hne hu hv hu' hv'
    rw [hsessions] at hu' hv'
    rw [hrooms] at hu hv
    obtain ⟨hu', hneu⟩ := unregister_find_inv hs hu'
    obtain ⟨hv', -⟩ := unregister_find_inv hs hv'
    rw [hsent]
    refine (isOpen_append_other ?_ s.sent).trans (h.met r u v infoU other hne hu hv hu' hv')
    intro m hm opens hmark
    exact hneu (hnew m hm _ opens hmark)
  · rw [hsent]
    exact hmatched

/-! ## Sessions that begin -/

/-- A login keeps the users of a room told of each other, if the one who logs in and those
in a room with them have been. -/
theorem register_acquainted {s : Server} (h : Acquainted s) (user : String) (userId roomId : Option String)
    (hfree : ∀ u, userId = some u → s.sessions.userIdIndex.lookup u = none →
      s.sessions.findSessionInfo user = none)
    (hmet : ∀ u, userId = some u → s.sessions.userIdIndex.lookup u = none →
      ∀ r v other, u ≠ v → InRoom s.rooms r u → InRoom s.rooms r v →
        s.sessions.findSessionInfoByUserId v = some other →
        isOpen mark s.sent (u, other.principal) = true ∧ isOpen mark s.sent (v, user) = true) :
    Acquainted (s.register user userId roomId).1 := by
  cases userId with
  | none => exact h
  | some u =>
    cases hu : s.sessions.userIdIndex.lookup u with
    | some q =>
      have hsame : s.register user (some u) roomId = (s, some (.common .duplicatedLogin)) := by
        simp [Server.register, register_taken s.sessions user u roomId q hu]
      rw [hsame]
      exact h
    | none =>
      have hnew := hfree u rfl hu
      refine ⟨register_indexed _ user (some u) roomId h.indexed, ?_,
        MediaPublishers.register_conferenceOnly _ user (some u) roomId h.conferenceOnly, h.publishing, ?_,
        h.matched⟩
      · exact (register_inverse_iff s.sessions user u roomId h.inverse hu).mpr hnew
      · intro r v w infoV other hne hv hw hv' hw'
        rcases register_find_inv h.inverse hnew hv' with hvold | ⟨hvu, hvfree, -⟩
        · rcases register_find_inv h.inverse hnew hw' with hwold | ⟨hwu, hwfree, hprincipal⟩
          · exact h.met r v w infoV other hne hv hw hvold hwold
          · rw [hprincipal]
            exact (hmet w hwu hwfree r v infoV hne.symm hw hv hvold).2
        · rcases register_find_inv h.inverse hnew hw' with hwold | ⟨hwu, -, -⟩
          · exact (hmet v hvu hvfree r w other hne hv hw hwold).1
          · exact absurd (Option.some.inj (hvu.symm.trans hwu)) hne

theorem connected_acquainted {s : Server} (h : Acquainted s) (user : String) (userId roomId : Option String)
    (ho : Orderly s (.connected user userId roomId)) :
    Acquainted (s.handleSessionConnectedListener user userId roomId).1 := by
  unfold Server.handleSessionConnectedListener
  cases hs : s.sessions.findSessionInfo user with
  | none =>
    rw [unregister_unknown hs]
    exact h
  | some info =>
    obtain ⟨hid, hnobody⟩ := ho info hs
    have hended := unregister_ended h hs (.inl hnobody)
    have hafter := unregister_acquainted h hs (.inl hnobody)
    obtain ⟨hsessions, hrooms⟩ := MediaPublishers.unregister_stores s user h.conferenceOnly
    obtain ⟨new, hsent, hnew⟩ := hended.silent hnobody
    cases hq : s.unregister user with
    | mk s' failure =>
      rw [hq] at hafter hsessions hrooms hsent
      cases failure with
      | some failure => exact hafter
      | none =>
        rw [andThen_ok]
        refine register_acquainted hafter user userId roomId ?_ ?_
        · intro u _ _
          rw [hsessions]
          exact (unregister_free s.sessions user info hs).2
        · -- the session that is made anew is that of before
          intro u hu _ r v other hne huroom hvroom hother
          obtain rfl : info.userId = u := Option.some.inj (hid.symm.trans hu)
          rw [hrooms] at huroom hvroom
          rw [hsessions] at hother
          have hbefore := (unregister_find_inv hs hother).1
          have hown := find_own h.indexed hs
          have hprincipal := (h.indexed user info hs).2
          have hsame : ∀ k, isOpen mark s'.sent k = isOpen mark s.sent k := by
            intro k
            rw [hsent]
            refine isOpen_append_other ?_ s.sent
            intro m hm opens hmark
            rw [hnew m hm] at hmark
            cases hmark
          rw [hsame, hsame]
          refine ⟨h.met r info.userId v info other hne huroom hvroom hown hbefore, ?_⟩
          have hback := h.met r v info.userId other info hne.symm hvroom huroom hbefore hown
          rw [hprincipal] at hback
          exact hback

/-! ## Every run -/

theorem step_acquainted (s : Server) (e : Event) (h : Acquainted s) (ho : Orderly s e) :
    Acquainted (step s e) := by
  cases e with
  | createRoom roomId wrapper now => exact createRoom_acquainted h roomId wrapper now
  | connect user userId roomId =>
    show Acquainted (s.preSend user userId roomId).1
    rw [preSend_fst]
    refine register_acquainted h user userId roomId ?_ ?_
    · exact fun u hu hfree => (ho u hu hfree).1
    · rintro u hu hfree r v other - ⟨room, p, hr, hp⟩
      have hnone := (ho u hu hfree).2 room (List.mem_of_getElem? hr)
      rw [Room.findParticipant, hp] at hnone
      cases hnone
  | connected user userId roomId => exact connected_acquainted h user userId roomId ho
  | disconnect user =>
    show Acquainted (s.unregister user).1
    cases hs : s.sessions.findSessionInfo user with
    | none =>
      rw [unregister_unknown hs]
      exact h
    | some info => exact unregister_acquainted h hs (ho info hs)
  | offer user offer build => exact handleOffer_acquainted h user offer build ho
  | fireTtl task now => exact fireTtl_acquainted h task now

theorem init_acquainted (roomDeleteTtl : Nat) : Acquainted (.init roomDeleteTtl) where
  indexed := empty_indexed
  inverse := by
    intro u p
    simp [Server.init, SessionManager.empty]
  conferenceOnly := by
    intro p info hp
    cases hp
  publishing := by
    intro r room hr
    cases hr
  met := by
    rintro r u v info other - ⟨room, p, hr, -⟩
    cases hr
  matched := matched_nil

/-- In every orderly run each LEAVE about a user to a receiver comes after an ENTER about that
user to that receiver, with no LEAVE about them in between. -/
theorem members_matched_of_orderly (roomDeleteTtl : Nat) (events : List Event)
    (ho : Along step Orderly (.init roomDeleteTtl) events) :
    Matched mark (run step (.init roomDeleteTtl) events).sent :=
  (throughout_of_along step_acquainted _ events (init_acquainted roomDeleteTtl) ho).run.matched

def offerOutgoing : OfferMessage := ⟨none, some .outgoing, none, "sdp"⟩

/-- Alice and Bob connect, then both join, and Alice disconnects. -/
def bothConnectFirst : List Event :=
  [.createRoom "a" (some ⟨"kms", some 1⟩) 0,
    .connect "p" (some "alice") (some "a"), .connected "p" (some "alice") (some "a"),
    .connect "q" (some "bob") (some "a"), .connected "q" (some "bob") (some "a"),
    .offer "p" offerOutgoing (some 1), .offer "q" offerOutgoing (some 2), .disconnect "p"]

theorem members_matched_bothConnectFirst :
    Along step Orderly (.init 60) bothConnectFirst ∧
      Matched mark (run step (.init 60) bothConnectFirst).sent := by
  have ho : Along step Orderly (.init 60) bothConnectFirst := by decide +kernel
  exact ⟨ho, members_matched_of_orderly 60 bothConnectFirst ho⟩

/-- Alice has joined when Bob connects. -/
def bobConnectsLater : List Event :=
  [.createRoom "a" (some ⟨"kms", some 1⟩) 0,
    .connect "p" (some "alice") (some "a"), .connected "p" (some "alice") (some "a"),
    .offer "p" offerOutgoing (some 1),
    .connect "q" (some "bob") (some "a"), .connected "q" (some "bob") (some "a")]

/-- The CONNECTED listener tells Alice that Bob has left, who was never there. -/
theorem not_matched_bobConnectsLater : ¬ Matched mark (run step (.init 60) bobConnectsLater).sent := by
  intro h
  have hopen := h ((run step (.init 60) bobConnectsLater).sent.take 4)
    (.member "p" ⟨"q", .conference, some "a", "bob"⟩ .leave) [] ("bob", "p") (by decide +kernel) rfl
  exact absurd hopen (by decide +kernel)

end MediaMembers

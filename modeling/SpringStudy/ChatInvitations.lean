import SpringStudy.ChatAccept

/-!
# Invite keys over whole runs

Every key is announced by one `InviteMessage`, which names the host and the call
it was issued for. A step of the chat server either issues one key, or issues
none and keeps the issuer and the call of every key row. Both properties below
are read off runs that mix all events.
-/
namespace ChatInvitations

open Tables Outcomes TtlCaches ChatStore ChatCallFlow ChatAccept

/-- An `InviteMessage`: the key, the host that gets it, and the call passed to `createInviteKey`. -/
structure Invitation where
  key : String
  host : String
  call : String
  deriving DecidableEq

def invitation? : Notification → Option Invitation
  | .invite _ inviteKey callId sender => some ⟨inviteKey, sender, callId⟩
  | .ticket _ _ => none
  | .refuseInvite _ _ _ => none
  | .keyExpired _ _ _ => none

/-- The invitations sent so far, the newest first. -/
def invitations (s : Chat) : List Invitation := s.sent.reverse.filterMap invitation?

/-- The invitation with which a key was issued. -/
def issued (s : Chat) (k : String) : Option Invitation :=
  (invitations s).find? fun i => decide (i.key = k)

/-- The invitation of the last call a host requested. -/
def lastRequest (s : Chat) (host : String) : Option Invitation :=
  (invitations s).find? fun i => decide (i.host = host)

theorem invitations_append (s t : Chat) (msg : Notification) (h : t.sent = s.sent ++ [msg]) :
    invitations t = (invitation? msg).toList ++ invitations s := by
  unfold invitations
  rw [h, List.reverse_append, List.reverse_singleton, List.singleton_append, List.filterMap_cons]
  cases invitation? msg <;> rfl

/-! ## What a step does -/

/-- A key that is marked used has an expiry date. -/
def Dated (row : InviteKey) : Prop := row.isUsed = true → row.expiredDate ≠ none

/-- The row of a key that is used or expires. -/
structure Touched (row row' : InviteKey) : Prop where
  key : row'.key = row.key
  userId : row'.userId = row.userId
  call : row'.call = row.call
  dated : Dated row → Dated row'

theorem Touched.refl (row : InviteKey) : Touched row row := ⟨rfl, rfl, rfl, id⟩

theorem Touched.trans {a b c : InviteKey} (h : Touched a b) (h' : Touched b c) : Touched a c :=
  ⟨h'.key.trans h.key, h'.userId.trans h.userId, h'.call.trans h.call, h'.dated ∘ h.dated⟩

theorem touched_usedRow (row : InviteKey) (k : String) (now : Nat) :
    Touched row (Chat.usedRow row k now) := by
  refine ⟨usedRow_key k now row, usedRow_userId k now row, usedRow_call k now row, ?_⟩
  unfold Chat.usedRow
  split
  · intro _ _; simp
  · exact id

theorem touched_expired (row : InviteKey) (now : Nat) :
    Touched row { row with expiredDate := some now } :=
  ⟨rfl, rfl, rfl, fun _ _ => by simp⟩

/-- A step that issues no key. A `User` row with a call is an old one: only a
request puts a call there. -/
structure Unissued (s s' : Chat) : Prop where
  keys : ∀ k row', s'.inviteKeys.lookup k = some row' →
    ∃ row, s.inviteKeys.lookup k = some row ∧ Touched row row'
  users : ∀ h u c, s'.users.lookup h = some u → u.callId = some c → s.users.lookup h = some u
  calls : s'.calls = s.calls
  invitations : invitations s' = invitations s

namespace Unissued

theorem trans {s t u : Chat} (h : Unissued s t) (h' : Unissued t u) : Unissued s u where
  keys k row' hrow := by
    obtain ⟨row, ht, htouched⟩ := h'.keys k row' hrow
    obtain ⟨row₀, hs, htouched₀⟩ := h.keys k row ht
    exact ⟨row₀, hs, htouched₀.trans htouched⟩
  users x user c hx hc := h.users x user c (h'.users x user c hx hc) hc
  calls := h'.calls.trans h.calls
  invitations := h'.invitations.trans h.invitations

/-- A step that changes other stores only. -/
theorem of_eq {s t : Chat} (hk : t.inviteKeys = s.inviteKeys) (hu : t.users = s.users)
    (hc : t.calls = s.calls) (hi : ChatInvitations.invitations t = ChatInvitations.invitations s) :
    Unissued s t where
  keys _ row hrow := ⟨row, hk ▸ hrow, .refl row⟩
  users _ _ _ hx _ := hu ▸ hx
  calls := hc
  invitations := hi

theorem refl (s : Chat) : Unissued s s := of_eq rfl rfl rfl rfl

/-- A message other than an invitation is sent. -/
theorem of_sent {s t : Chat} (msg : Notification) (hmsg : invitation? msg = none)
    (hk : t.inviteKeys = s.inviteKeys) (hu : t.users = s.users) (hc : t.calls = s.calls)
    (hs : t.sent = s.sent ++ [msg]) : Unissued s t :=
  of_eq hk hu hc (by rw [invitations_append s t msg hs, hmsg]; rfl)

end Unissued

theorem useInviteKey_unissued (s : Chat) (k : String) (now : Nat) :
    Unissued s (s.useInviteKey k now).1 where
  keys x row' hrow := by
    rw [lookup_useInviteKey] at hrow
    split at hrow
    · rename_i hx
      subst hx
      obtain ⟨row, hlook, rfl⟩ := Option.map_eq_some_iff.mp hrow
      exact ⟨row, hlook, touched_usedRow row x now⟩
    · exact ⟨row', hrow, .refl row'⟩
  users x user c hx _ := by rwa [useInviteKey_users] at hx
  calls := useInviteKey_calls s k now
  invitations := by unfold invitations; rw [useInviteKey_sent]

theorem joinCall_unissued (t : Chat) (principal : String) (guest : SessionCache) (hostId callId : String) :
    Unissued t (joinCall t principal guest hostId callId).1 := by
  have hspec := joinCall_spec t principal guest hostId callId
  cases hcall : t.calls.lookup callId with
  | none =>
    unfold joinCall
    simp only [hcall]
    exact .of_eq rfl rfl rfl rfl
  | some call =>
    simp only [hcall] at hspec
    rw [hspec]
    exact .of_sent _ rfl rfl rfl rfl rfl

section
variable {P : Chat → Prop} (huse : ∀ t k now, P t → P (t.useInviteKey k now).1)
  (hjoin : ∀ t principal guest hostId callId, P t → P (joinCall t principal guest hostId callId).1)
  (hrefuse : ∀ t host guest k, P t → P (t.send (.refuseInvite host guest k)))

include huse hjoin hrefuse

/-- What `useInviteKey`, a join and a refusal preserve, an accept preserves. -/
theorem handleOutboundAcceptCall_invariant (t : Chat) (principal k : String) (isAccept : Bool)
    (now : Nat) (h : P t) : P (handleOutboundAcceptCall t principal k isAccept now).1 := by
  have hused := huse t k now h
  unfold handleOutboundAcceptCall
  rw [useInviteKey_eq t k now]
  cases t.findByPrincipalName principal with
  | none => exact h
  | some session =>
    by_cases hhost : session.isHost
    · simpa only [if_pos hhost] using h
    simp only [if_neg hhost]
    cases t.inviteKeys.lookup k with
    | none => exact hused
    | some row =>
      simp only [Option.map_some]
      -- The lookups change nothing; only the last branch goes on.
      split
      · exact hused
      · split
        · exact hused
        · next callId _ =>
          split_ifs
          · exact hjoin _ principal session _ callId hused
          · exact hrefuse _ _ _ _ hused

theorem handleAcceptCall_invariant (s : Chat) (principal : String) (message : AcceptCallMessage)
    (now : Nat) (h : P s) : P (handleAcceptCall s principal message now).1 := by
  unfold handleAcceptCall
  cases s.findByPrincipalName principal with
  | none => exact h
  | some session =>
    cases message.inviteKey with
    | none => exact h
    | some k =>
      have hused := huse s k now h
      simp only []
      rw [useInviteKey_eq s k now]
      cases s.inviteKeys.lookup k with
      | none => exact hused
      | some row =>
        simp only [Option.map_some]
        split_ifs
        · exact hused
        · exact handleOutboundAcceptCall_invariant huse hjoin hrefuse _ principal k message.isAccept
            now hused

end

/-- The users and their sessions are the same. -/
structure SameUsers (s t : Chat) : Prop where
  users : t.users = s.users
  sessions : t.sessions = s.sessions

theorem joinCall_sameUsers {s t : Chat} (h : SameUsers s t) (principal : String) (guest : SessionCache)
    (hostId callId : String) : SameUsers s (joinCall t principal guest hostId callId).1 := by
  unfold joinCall
  dsimp only
  split
  · exact ⟨h.users, h.sessions⟩
  · exact ⟨h.users, h.sessions⟩

theorem handleAcceptCall_sameUsers (s : Chat) (principal : String) (message : AcceptCallMessage) (now : Nat) :
    SameUsers s (handleAcceptCall s principal message now).1 := by
  refine handleAcceptCall_invariant (P := SameUsers s) ?_ ?_ ?_ s principal message now ⟨rfl, rfl⟩
  · intro t k now h
    exact ⟨(useInviteKey_users t k now).trans h.users, (useInviteKey_sessions t k now).trans h.sessions⟩
  · exact fun t principal guest hostId callId h => joinCall_sameUsers h principal guest hostId callId
  · exact fun t host guest k h => ⟨h.users, h.sessions⟩

/-- An expiring key changes its row and sends notices. -/
theorem fireTtl_sameUsers (s : Chat) (task : String × Nat) (now : Nat) :
    SameUsers s (s.fireTtl task now).1 := by
  simp only [Chat.fireTtl]
  split
  · exact ⟨rfl, rfl⟩
  · unfold Chat.expireKey
    split
    · exact ⟨rfl, rfl⟩
    · dsimp only
      split
      · exact ⟨rfl, rfl⟩
      · split
        · exact ⟨rfl, rfl⟩
        · split <;> exact ⟨rfl, rfl⟩

theorem handleAcceptCall_unissued (s : Chat) (principal : String) (message : AcceptCallMessage) (now : Nat) :
    Unissued s (handleAcceptCall s principal message now).1 :=
  handleAcceptCall_invariant (P := Unissued s)
    (fun t k now h => h.trans (useInviteKey_unissued t k now))
    (fun t principal guest hostId callId h => h.trans (joinCall_unissued t principal guest hostId callId))
    (fun _ _ _ _ h => h.trans (.of_sent _ rfl rfl rfl rfl rfl))
    s principal message now (.refl s)

/-- The row of an expiring key gets its date; the lookups that follow send at most a notice. -/
theorem expireKey_unissued (s : Chat) (k : String) (expiry : Expiry) (now : Nat) :
    Unissued s (s.expireKey k expiry now).1 := by
  unfold Chat.expireKey
  cases hrow : s.inviteKeys.lookup k with
  | none => exact .refl s
  | some row =>
    have hdate : Unissued s
        { s with inviteKeys := s.inviteKeys.insert k { row with expiredDate := some now } } :=
      { keys := by
          intro x row' hx
          rw [lookup_put] at hx
          split at hx
          · next heq =>
            subst heq
            obtain rfl := Option.some.inj hx
            exact ⟨row, hrow, touched_expired row now⟩
          · exact ⟨row', hx, .refl row'⟩
        users := fun _ _ _ hx _ => hx
        calls := rfl
        invitations := rfl }
    simp only []
    split
    · exact hdate
    · split
      · exact hdate
      · split
        · exact hdate
        · exact hdate.trans (.of_sent _ rfl rfl rfl rfl rfl)

theorem fireTtl_unissued (s : Chat) (task : String × Nat) (now : Nat) :
    Unissued s (s.fireTtl task now).1 := by
  have hcache : Unissued s { s with ttlCache := (fire hasPassed s.ttlCache task now).1 } :=
    .of_eq rfl rfl rfl rfl
  simp only [Chat.fireTtl]
  cases (fire hasPassed s.ttlCache task now).2 with
  | none => exact hcache
  | some expiry => exact hcache.trans (expireKey_unissued _ task.1 expiry now)

theorem addSession_unissued (s : Chat) (user : String) (authorization : Option String) :
    Unissued s (s.addSession user authorization).1 := by
  unfold Chat.addSession
  split
  · exact .refl s
  · split <;> exact .of_eq rfl rfl rfl rfl

theorem removeSession_unissued (s : Chat) (user : String) : Unissued s (s.removeSession user) := by
  unfold Chat.removeSession
  split <;> exact .of_eq rfl rfl rfl rfl

/-- A `User` row that a subscription writes has no call. -/
theorem subscribe_unissued (s : Chat) (user : String) :
    Unissued s (s.handleSessionSubscribeListener user).1 := by
  unfold Chat.handleSessionSubscribeListener
  cases s.findByPrincipalName user with
  | none => exact .refl s
  | some session =>
    by_cases hhost : session.isHost
    · simp only [if_pos hhost]
      refine ⟨fun _ row hx => ⟨row, hx, .refl row⟩, ?_, rfl, rfl⟩
      intro h u c hu hc
      rw [lookup_put] at hu
      split at hu
      · obtain rfl := Option.some.inj hu
        cases hc
      · exact hu
    · simpa only [if_neg hhost] using .refl s

theorem handleRequestCall_ok (s t : Chat) (principal : String) (input : RequestInput)
    (h : handleRequestCall s principal input = .ok t) :
    ∃ session host room, s.findByPrincipalName principal = some session ∧
      checkResponse input.response = .ok room ∧ t = commitRequest s principal session host input room := by
  unfold handleRequestCall at h
  cases hsession : s.findByPrincipalName principal with
  | none => simp [hsession] at h
  | some session =>
    simp only [hsession] at h
    split_ifs at h
    split at h
    · cases h
    · next host _ =>
      split at h
      · cases h
      · next room hroom =>
        cases h
        exact ⟨session, host, room, rfl, hroom, rfl⟩

/-- A step issues one key, in a request that commits, or none. -/
theorem step_cases (s : Chat) (e : Event) :
    Unissued s (step s e) ∨
      ∃ principal session host input room, step s e = commitRequest s principal session host input room := by
  cases e with
  | connect principal authorization => exact .inl (addSession_unissued s principal authorization)
  | disconnect principal => exact .inl (removeSession_unissued s principal)
  | subscribe principal => exact .inl (subscribe_unissued s principal)
  | requestCall principal input =>
    simp only [step, handle]
    cases h : handleRequestCall s principal input with
    | error _ => exact .inl (.refl s)
    | ok t =>
      obtain ⟨session, host, room, -, -, rfl⟩ := handleRequestCall_ok s t principal input h
      exact .inr ⟨principal, session, host, input, room, rfl⟩
  | acceptCall principal message now => exact .inl (handleAcceptCall_unissued s principal message now)
  | sessionAll => exact .inl (.of_eq rfl rfl rfl rfl)
  | fireTtl task now => exact .inl (fireTtl_unissued s task now)

section
variable (s : Chat) (principal : String) (session : SessionCache) (host : User) (input : RequestInput)
  (room : CreateRoomResponse)

/-- The invitation a committed request sends. -/
def newInvitation (session : SessionCache) (input : RequestInput) : Invitation :=
  ⟨session.userId ++ "//" ++ input.uuid, session.userId, input.roomId⟩

theorem lookup_inviteKeys_commitRequest (k : String) :
    (commitRequest s principal session host input room).inviteKeys.lookup k =
      if k = (newInvitation session input).key then
        some ⟨k, session.userId, .outboundClient, s.serverName, none, input.roomId, none, false⟩
      else s.inviteKeys.lookup k := by
  simp only [commitRequest, Chat.createInviteKey, Chat.send, lookup_put]
  by_cases heq : k = (newInvitation session input).key
  · rw [if_pos heq]
    subst heq
    exact if_pos rfl
  · rw [if_neg heq]
    exact if_neg heq

theorem lookup_users_commitRequest (h : String) :
    (commitRequest s principal session host input room).users.lookup h =
      if h = session.userId then some { host with callId := some input.roomId } else s.users.lookup h := by
  simp only [commitRequest, Chat.createInviteKey, Chat.send, lookup_put]

theorem lookup_calls_commitRequest (c : String) :
    (commitRequest s principal session host input room).calls.lookup c =
      if c = input.roomId then
        some ⟨c, .outboundClient, session.userId, session.userId, .uncompleted, room.multiMediaServer,
          room.mediaServer⟩
      else s.calls.lookup c := by
  simp only [commitRequest, Chat.createInviteKey, Chat.send, lookup_put, newCall]
  split_ifs with heq
  · subst heq; rfl
  · rfl

theorem invitations_commitRequest :
    invitations (commitRequest s principal session host input room) =
      newInvitation session input :: invitations s :=
  invitations_append s _ (.invite principal _ input.roomId session.userId) rfl

end

/-! ## What every run keeps -/

/-- A key row holds what its key was issued with, and the call of a `User` row is
the last one that user requested. -/
structure Kept (s : Chat) : Prop where
  dated : ∀ k row, s.inviteKeys.lookup k = some row → Dated row
  keys : ∀ k row, s.inviteKeys.lookup k = some row → issued s k = some ⟨k, row.userId, row.call⟩
  users : ∀ h u c, s.users.lookup h = some u → u.callId = some c →
    ∃ i, lastRequest s h = some i ∧ i.call = c
  calls : ∀ c call, s.calls.lookup c = some call → call.id = c

theorem init_kept (serverName : String) (ttl : Nat) : Kept (.init serverName ttl) where
  dated _ _ h := by cases h
  keys _ _ h := by cases h
  users _ _ _ h := by cases h
  calls _ _ h := by cases h

theorem Unissued.kept {s t : Chat} (h : Unissued s t) (hs : Kept s) : Kept t where
  dated k row' hrow := by
    obtain ⟨row, hold, htouched⟩ := h.keys k row' hrow
    exact htouched.dated (hs.dated k row hold)
  keys k row' hrow := by
    obtain ⟨row, hold, htouched⟩ := h.keys k row' hrow
    rw [issued, h.invitations, htouched.userId, htouched.call]
    exact hs.keys k row hold
  users x u c hu hc := by
    rw [lastRequest, h.invitations]
    exact hs.users x u c (h.users x u c hu hc) hc
  calls c call hcall := by
    rw [h.calls] at hcall
    exact hs.calls c call hcall

theorem commitRequest_kept (s : Chat) (principal : String) (session : SessionCache) (host : User)
    (input : RequestInput) (room : CreateRoomResponse) (hs : Kept s) :
    Kept (commitRequest s principal session host input room) where
  dated k row hrow := by
    rw [lookup_inviteKeys_commitRequest] at hrow
    split at hrow
    · obtain rfl := Option.some.inj hrow
      exact fun hused => by cases hused
    · exact hs.dated k row hrow
  keys k row hrow := by
    rw [lookup_inviteKeys_commitRequest] at hrow
    rw [issued, invitations_commitRequest]
    split at hrow
    · next heq =>
      obtain rfl := Option.some.inj hrow
      subst heq
      simp [newInvitation]
    · next hne =>
      rw [List.find?_cons_of_neg (by simpa using Ne.symm hne)]
      exact hs.keys k row hrow
  users x u c hu hc := by
    rw [lookup_users_commitRequest] at hu
    rw [lastRequest, invitations_commitRequest]
    split at hu
    · next heq =>
      obtain rfl := Option.some.inj hu
      obtain rfl := Option.some.inj hc
      subst heq
      exact ⟨newInvitation session input, by simp [newInvitation], rfl⟩
    · next hne =>
      rw [List.find?_cons_of_neg (by simp [newInvitation, Ne.symm hne])]
      exact hs.users x u c hu hc
  calls c call hcall := by
    rw [lookup_calls_commitRequest] at hcall
    split at hcall
    · obtain rfl := Option.some.inj hcall
      rfl
    · exact hs.calls c call hcall

theorem step_kept (s : Chat) (e : Event) (hs : Kept s) : Kept (step s e) := by
  rcases step_cases s e with h | ⟨principal, session, host, input, room, h⟩
  · exact h.kept hs
  · rw [h]
    exact commitRequest_kept s principal session host input room hs

/-! ## A key is used once -/

/-- The event is an accept of `k`, with `isAccept = true`, that completes normally. -/
def completes (k : String) (s : Chat) : Event → Bool
  | .acceptCall principal message now =>
    decide (message = ⟨some k, true⟩) && (handleAcceptCall s principal message now).2.isNone
  | _ => false

/-- The key is not marked used and has not expired. -/
def Unspent (s : Chat) (k : String) : Prop :=
  ∀ row ∈ s.inviteKeys.lookup k, row.isUsed = false ∧ row.expiredDate = none

instance decidableUnspent (s : Chat) (k : String) : Decidable (Unspent s k) :=
  inferInstanceAs (Decidable (∀ row ∈ s.inviteKeys.lookup k, row.isUsed = false ∧ row.expiredDate = none))

/-- At most one accept of the key completes, and only while the key is unspent. -/
structure UsedOnce (k : String) (s : Chat) (events : List Event) : Prop where
  once : ((Runs.history step s events).countP fun p => completes k p.1 p.2) ≤ 1
  unspent : ∀ p ∈ Runs.history step s events, completes k p.1 p.2 = true → Unspent p.1 k

/-- The event is an accept of `k` by a guest that has a session and is not the
key's issuer, and the issuer is registered with a call that exists. -/
def eligible (k : String) (s : Chat) : Event → Bool
  | .acceptCall principal message _ => decide (message = ⟨some k, true⟩) && (grant? s principal k).isSome
  | _ => false

/-- At most one eligible accept of the key arrives, and it does so before the TTL
consumer has dated the key. -/
structure AskedOnce (k : String) (s : Chat) (events : List Event) : Prop where
  once : ((Runs.history step s events).countP fun p => eligible k p.1 p.2) ≤ 1
  undated : ∀ p ∈ Runs.history step s events, eligible k p.1 p.2 = true →
    ∀ row, p.1.inviteKeys.lookup k = some row → row.expiredDate = none

theorem eligible_iff (k : String) (s : Chat) (e : Event) :
    eligible k s e = true ↔
      ∃ principal now g, e = .acceptCall principal ⟨some k, true⟩ now ∧ grant? s principal k = some g := by
  cases e with
  | acceptCall principal message now => simp [eligible, Option.isSome_iff_exists]
  | connect _ _ => simp [eligible]
  | disconnect _ => simp [eligible]
  | subscribe _ => simp [eligible]
  | requestCall _ _ => simp [eligible]
  | sessionAll => simp [eligible]
  | fireTtl _ _ => simp [eligible]

/-- The server completes every eligible accept, whatever became of the key. -/
theorem completes_eq_eligible (k : String) (s : Chat) (e : Event) : completes k s e = eligible k s e := by
  cases e with
  | acceptCall principal message now =>
    by_cases hmsg : message = ⟨some k, true⟩
    · subst hmsg
      rw [Bool.eq_iff_iff]
      simp [completes, eligible, Option.isSome_iff_exists, handleAcceptCall_ok_iff]
    · simp [completes, eligible, hmsg]
  | connect _ _ => rfl
  | disconnect _ => rfl
  | subscribe _ => rfl
  | requestCall _ _ => rfl
  | sessionAll => rfl
  | fireTtl _ _ => rfl

theorem unspent_iff (s : Chat) (k : String) (hs : Kept s) :
    Unspent s k ↔ ∀ row, s.inviteKeys.lookup k = some row → row.expiredDate = none := by
  constructor
  · exact fun h row hrow => (h row hrow).2
  · intro h row hrow
    refine ⟨?_, h row hrow⟩
    by_contra hused
    exact hs.dated k row hrow (by simpa using hused) (h row hrow)

/-- The server keeps a key to one use exactly when its clients do. -/
theorem usedOnce_iff_askedOnce (serverName : String) (ttl : Nat) (events : List Event) (k : String) :
    UsedOnce k (.init serverName ttl) events ↔ AskedOnce k (.init serverName ttl) events := by
  have hkept := Runs.history_invariant step_kept _ events (init_kept serverName ttl)
  constructor
  · intro h
    refine ⟨by simpa only [completes_eq_eligible] using h.once, fun p hp hask => ?_⟩
    rw [← completes_eq_eligible] at hask
    exact (unspent_iff p.1 k (hkept p hp)).mp (h.unspent p hp hask)
  · intro h
    refine ⟨by simpa only [completes_eq_eligible] using h.once, fun p hp hdone => ?_⟩
    rw [completes_eq_eligible] at hdone
    exact (unspent_iff p.1 k (hkept p hp)).mpr (h.undated p hp hdone)

/-- A host with one call and two guests. -/
def invited : List Event :=
  [.connect "p1" (some "host/1"), .connect "p2" (some "anna/0"), .connect "p3" (some "ben/0"),
    .subscribe "p1",
    .requestCall "p1" ⟨"call-1", some ⟨200, some 200, some ⟨some "kms", some "media"⟩⟩, "u1", 0⟩]

/-- Both guests accept the key, and one guest accepts it after it has expired. -/
theorem key_used_twice_and_late :
    ¬ UsedOnce "host//u1" (.init "chat" 1000)
      (invited ++ [.acceptCall "p2" ⟨some "host//u1", true⟩ 1, .acceptCall "p3" ⟨some "host//u1", true⟩ 2]) ∧
    ¬ UsedOnce "host//u1" (.init "chat" 1000)
      (invited ++ [.fireTtl ("host//u1", 1000) 1001, .acceptCall "p2" ⟨some "host//u1", true⟩ 1002]) := by
  constructor
  · intro h
    exact absurd h.once (by decide +kernel)
  · intro h
    exact absurd h.unspent (by decide +kernel)

/-! ## A guest joins the call of the key -/

/-- A guest is put into the call `c`: the `CallManager` entry, the `Participant` row and the ticket. -/
structure Joined (s s' : Chat) (principal guest c : String) : Prop where
  entry : s'.callManager = s.callManager.put c guest
  participant : s'.participants = s.participants ++ [⟨c, guest, .client⟩]
  ticket : ∃ multiMediaServer mediaServer,
    s'.sent = s.sent ++ [.ticket principal ⟨multiMediaServer, mediaServer, c⟩]

/-- An accept that completes puts its guest into the call the key was issued for. -/
def JoinsIssuedCall (s : Chat) (e : Event) : Prop :=
  ∀ principal k now guest, e = .acceptCall principal ⟨some k, true⟩ now →
    s.findByPrincipalName principal = some guest → (handle s e).2 = none →
    ∃ i, issued s k = some i ∧ Joined s (step s e) principal guest.userId i.call

/-- An eligible accept is of a key whose host has requested no other call since. -/
def AcceptsLatest (s : Chat) (e : Event) : Prop :=
  ∀ k, eligible k s e = true →
    ∀ i j, issued s k = some i → lastRequest s i.host = some j → j.call = i.call

theorem put_callId_inj (m : CallManager) (c c' guest : String) (h : m.put c guest = m.put c' guest) : c = c' := by
  have hindex := congrArg (fun m => m.userIdIndex.lookup guest) h
  simpa [CallManager.put] using hindex

/-- The call a granted accept joins is the last one its host requested. -/
theorem grant_call (s : Chat) (principal k : String) (g : Grant) (hs : Kept s)
    (hgrant : grant? s principal k = some g) :
    g.call.id = g.callId ∧
    ∃ i j, issued s k = some i ∧ lastRequest s i.host = some j ∧ j.call = g.callId := by
  obtain ⟨-, ⟨row, hrow, hhost⟩, ⟨hostUser, huser, hcallId⟩, hcall⟩ := grant?_lookups s principal k g hgrant
  obtain ⟨j, hlast, hj⟩ := hs.users _ _ _ huser hcallId
  rw [← hhost] at hlast
  exact ⟨hs.calls _ _ hcall, _, j, hs.keys k row hrow, hlast, hj⟩

theorem joined_of_grant (s : Chat) (principal k : String) (now : Nat) (g : Grant)
    (hid : g.call.id = g.callId) :
    Joined s (joined (useTwice s k now) principal g) principal g.guest.userId g.callId where
  entry := by simp [joined, useTwice]
  participant := by simp [joined, useTwice, hid]
  ticket := ⟨g.call.multiMediaServer, g.call.mediaServer, by simp [joined, useTwice]⟩

theorem joinsIssuedCall_iff (s : Chat) (e : Event) (hs : Kept s) :
    JoinsIssuedCall s e ↔ AcceptsLatest s e := by
  constructor
  · intro h k hask i j hi hj
    obtain ⟨principal, now, g, rfl, hgrant⟩ := (eligible_iff k s e).mp hask
    have hok := handleAcceptCall_of_grant s principal k now g hgrant
    obtain ⟨hid, i', j', hi', hj', hcall⟩ := grant_call s principal k g hs hgrant
    obtain ⟨i'', hi'', hjoined⟩ :=
      h principal k now g.guest rfl (grant?_lookups s principal k g hgrant).1 (by rw [handle, hok])
    obtain rfl := Option.some.inj (hi'.symm.trans hi)
    obtain rfl := Option.some.inj (hi'.symm.trans hi'')
    obtain rfl := Option.some.inj (hj'.symm.trans hj)
    have hentry := hjoined.entry
    rw [step, handle, hok, (joined_of_grant s principal k now g hid).entry] at hentry
    rw [hcall, put_callId_inj _ _ _ _ hentry]
  · intro h principal k now guest he hguest hok
    subst he
    obtain ⟨g, hgrant⟩ := (handleAcceptCall_ok_iff s principal k now).mp hok
    obtain ⟨hid, i, j, hi, hj, hcall⟩ := grant_call s principal k g hs hgrant
    have hlatest : j.call = i.call :=
      h k ((eligible_iff k s _).mpr ⟨principal, now, g, rfl, hgrant⟩) i j hi hj
    obtain rfl := Option.some.inj ((grant?_lookups s principal k g hgrant).1.symm.trans hguest)
    refine ⟨i, hi, ?_⟩
    rw [step, handle, handleAcceptCall_of_grant s principal k now g hgrant, ← hlatest, hcall]
    exact joined_of_grant s principal k now g hid

/-- Guests join the calls of their keys exactly as long as they accept the keys of
their hosts' last requests. -/
theorem joinsIssuedCall_iff_acceptsLatest (serverName : String) (ttl : Nat) (events : List Event) :
    Runs.Along step JoinsIssuedCall (.init serverName ttl) events ↔
      Runs.Along step AcceptsLatest (.init serverName ttl) events :=
  Runs.along_iff_of_invariant step_kept joinsIssuedCall_iff _ events (init_kept serverName ttl)

/-- The host requests a second call, and then a guest accepts the key of the first. -/
def secondRequest : List Event :=
  invited ++
    [.requestCall "p1" ⟨"call-2", some ⟨200, some 200, some ⟨some "kms", some "media"⟩⟩, "u2", 5⟩,
      .acceptCall "p2" ⟨some "host//u1", true⟩ 6]

theorem guest_joins_second_call :
    ¬ Runs.Along step JoinsIssuedCall (.init "chat" 1000) secondRequest := by
  intro h
  obtain ⟨-, -, -, -, -, -, haccept, -⟩ := h
  obtain ⟨i, hi, hjoined⟩ := haccept "p2" "host//u1" 6 ⟨"anna", false, "p2"⟩ rfl
    (by decide +kernel) (by decide +kernel)
  have hcall : i.call = "call-1" :=
    Option.some.inj ((congrArg (·.map Invitation.call) hi).symm.trans (by decide +kernel))
  have hrow := hjoined.participant
  rw [hcall] at hrow
  revert hrow
  decide +kernel

end ChatInvitations

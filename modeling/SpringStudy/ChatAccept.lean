import SpringStudy.ChatCallFlow

/-!
# Accepting an invite key

Whether an accept completes is decided by lookups alone: the guest's session, the
row of the key, the host's `User` row and the call that row names. Neither
`isUsed` nor `expiredDate` is among them, and neither is the call of the key.
-/
namespace ChatAccept

open Tables Outcomes TtlCaches ChatStore ChatCallFlow

/-! ## Using a key -/

section
variable (s : Chat) (k x : String) (now : Nat)

theorem useInviteKey_eq :
    s.useInviteKey k now =
      ((s.useInviteKey k now).1, (s.inviteKeys.lookup k).map fun row => Chat.usedRow row k now) := by
  unfold Chat.useInviteKey
  cases s.inviteKeys.lookup k <;> rfl

theorem lookup_useInviteKey :
    (s.useInviteKey k now).1.inviteKeys.lookup x =
      if x = k then (s.inviteKeys.lookup k).map fun row => Chat.usedRow row k now
      else s.inviteKeys.lookup x := by
  unfold Chat.useInviteKey
  cases hk : s.inviteKeys.lookup k with
  | none =>
    by_cases hx : x = k
    · subst hx; simp [hk]
    · simp [hx]
  | some row => simp

/-- Using a key changes its row and the TTL cache, nothing else. -/
theorem useInviteKey_frame :
    (s.useInviteKey k now).1 =
      { s with
        inviteKeys := (s.useInviteKey k now).1.inviteKeys
        ttlCache := (s.useInviteKey k now).1.ttlCache } := by
  unfold Chat.useInviteKey
  cases s.inviteKeys.lookup k <;> rfl

@[simp] theorem useInviteKey_sessions : (s.useInviteKey k now).1.sessions = s.sessions := by
  rw [useInviteKey_frame]

@[simp] theorem useInviteKey_users : (s.useInviteKey k now).1.users = s.users := by
  rw [useInviteKey_frame]

@[simp] theorem useInviteKey_calls : (s.useInviteKey k now).1.calls = s.calls := by
  rw [useInviteKey_frame]

@[simp] theorem useInviteKey_sent : (s.useInviteKey k now).1.sent = s.sent := by
  rw [useInviteKey_frame]

@[simp] theorem useInviteKey_participants :
    (s.useInviteKey k now).1.participants = s.participants := by
  rw [useInviteKey_frame]

@[simp] theorem useInviteKey_callManager :
    (s.useInviteKey k now).1.callManager = s.callManager := by
  rw [useInviteKey_frame]

@[simp] theorem findByPrincipalName_useInviteKey (principal : String) :
    (s.useInviteKey k now).1.findByPrincipalName principal = s.findByPrincipalName principal := by
  unfold Chat.findByPrincipalName
  rw [useInviteKey_sessions]

@[simp] theorem usedRow_key (row : InviteKey) : (Chat.usedRow row k now).key = row.key := by
  unfold Chat.usedRow; split <;> rfl

@[simp] theorem usedRow_userId (row : InviteKey) : (Chat.usedRow row k now).userId = row.userId := by
  unfold Chat.usedRow; split <;> rfl

@[simp] theorem usedRow_call (row : InviteKey) : (Chat.usedRow row k now).call = row.call := by
  unfold Chat.usedRow; split <;> rfl

end

/-! ## When an accept completes -/

/-- What the lookups of an accept find. -/
structure Grant where
  guest : SessionCache
  hostId : String
  callId : String
  call : Call

/-- The lookups of an accept of `k`, and the two tests on the guest. -/
def grant? (s : Chat) (principal k : String) : Option Grant :=
  match s.findByPrincipalName principal, s.inviteKeys.lookup k with
  | some guest, some row =>
    if row.userId = guest.userId ∨ guest.isHost then none
    else
      match s.users.lookup row.userId with
      | none => none
      | some hostUser =>
        match hostUser.callId with
        | none => none
        | some callId => (s.calls.lookup callId).map fun call => ⟨guest, row.userId, callId, call⟩
  | _, _ => none

theorem grant?_lookups (s : Chat) (principal k : String) (g : Grant) (h : grant? s principal k = some g) :
    s.findByPrincipalName principal = some g.guest ∧
    (∃ row, s.inviteKeys.lookup k = some row ∧ row.userId = g.hostId) ∧
    (∃ hostUser, s.users.lookup g.hostId = some hostUser ∧ hostUser.callId = some g.callId) ∧
    s.calls.lookup g.callId = some g.call := by
  unfold grant? at h
  split at h
  · next guest row hguest hrow =>
    split_ifs at h
    split at h
    · cases h
    · next hostUser hhost =>
      split at h
      · cases h
      · next callId hcallId =>
        obtain ⟨call, hcall, rfl⟩ := Option.map_eq_some_iff.mp h
        exact ⟨hguest, ⟨row, hrow, rfl⟩, ⟨hostUser, hhost, hcallId⟩, hcall⟩
  · cases h

/-- The key is used twice, by the two service methods. -/
def useTwice (s : Chat) (k : String) (now : Nat) : Chat :=
  ((s.useInviteKey k now).1.useInviteKey k now).1

/-- The guest of the grant goes into its call. -/
def joined (t : Chat) (principal : String) (g : Grant) : Chat where
  __ := t
  callManager := t.callManager.put g.callId g.guest.userId
  involvements := t.involvements ++ [⟨g.call.id, g.hostId, .handover⟩]
  participants := t.participants ++ [⟨g.call.id, g.guest.userId, .client⟩]
  sent := t.sent ++ [.ticket principal ⟨g.call.multiMediaServer, g.call.mediaServer, g.callId⟩]

theorem joinCall_spec (t : Chat) (principal : String) (guest : SessionCache) (hostId callId : String) :
    match t.calls.lookup callId with
    | some call => joinCall t principal guest hostId callId = (joined t principal ⟨guest, hostId, callId, call⟩, none)
    | none => (joinCall t principal guest hostId callId).2 ≠ none := by
  unfold joinCall
  cases h : t.calls.lookup callId with
  | none => simp [h]
  | some call => simp only [h]; rfl

/-- The rest of an accept, once the first service method has used the key. -/
theorem handleOutboundAcceptCall_spec (t : Chat) (principal k : String) (now : Nat) (guest : SessionCache)
    (row : InviteKey) (hguest : t.findByPrincipalName principal = some guest)
    (hrow : t.inviteKeys.lookup k = some row) (hself : row.userId ≠ guest.userId) :
    match grant? t principal k with
    | some g =>
      handleOutboundAcceptCall t principal k true now = (joined (t.useInviteKey k now).1 principal g, none)
    | none => (handleOutboundAcceptCall t principal k true now).2 ≠ none := by
  unfold grant? handleOutboundAcceptCall
  rw [useInviteKey_eq t k now]
  simp only [hguest, hrow, hself, Option.map_some, useInviteKey_users, false_or]
  rw [usedRow_userId]
  split_ifs with hhost
  · simp
  cases t.users.lookup row.userId with
  | none => simp
  | some hostUser =>
    cases hcall : hostUser.callId with
    | none => simp [hcall]
    | some callId =>
      have hjoin := joinCall_spec (t.useInviteKey k now).1 principal guest row.userId callId
      rw [useInviteKey_calls] at hjoin
      cases hc : t.calls.lookup callId with
      | none => simpa [hcall, hc] using hjoin
      | some call => simpa [hcall, hc] using hjoin

/-- Using a key changes no lookup of an accept. -/
theorem grant?_useInviteKey (s : Chat) (principal k : String) (now : Nat) :
    grant? (s.useInviteKey k now).1 principal k = grant? s principal k := by
  unfold grant?
  rw [findByPrincipalName_useInviteKey, lookup_useInviteKey, if_pos rfl, useInviteKey_users, useInviteKey_calls]
  cases s.inviteKeys.lookup k with
  | none => rfl
  | some row =>
    cases s.findByPrincipalName principal with
    | none => rfl
    | some guest =>
      simp only [Option.map_some]
      rw [usedRow_userId]

/-- An accept completes exactly when its lookups grant it. -/
theorem handleAcceptCall_spec (s : Chat) (principal k : String) (now : Nat) :
    match grant? s principal k with
    | some g => handleAcceptCall s principal ⟨some k, true⟩ now = (joined (useTwice s k now) principal g, none)
    | none => (handleAcceptCall s principal ⟨some k, true⟩ now).2 ≠ none := by
  simp only [handleAcceptCall]
  rw [useInviteKey_eq s k now]
  cases hguest : s.findByPrincipalName principal with
  | none => simp [grant?, hguest]
  | some guest =>
    cases hrow : s.inviteKeys.lookup k with
    | none => simp [grant?, hguest, hrow]
    | some row =>
      by_cases hself : row.userId = guest.userId
      · simp [grant?, hguest, hrow, hself]
      · have hout := handleOutboundAcceptCall_spec (s.useInviteKey k now).1 principal k now guest
          (Chat.usedRow row k now) (by rw [findByPrincipalName_useInviteKey, hguest])
          (by rw [lookup_useInviteKey, if_pos rfl, hrow, Option.map_some]) (by rwa [usedRow_userId])
        rw [grant?_useInviteKey] at hout
        simp only [Option.map_some, usedRow_userId, if_neg hself]
        exact hout

section
variable (s : Chat) (principal k : String) (now : Nat)

theorem handleAcceptCall_of_grant (g : Grant) (h : grant? s principal k = some g) :
    handleAcceptCall s principal ⟨some k, true⟩ now = (joined (useTwice s k now) principal g, none) := by
  have hspec := handleAcceptCall_spec s principal k now
  rwa [h] at hspec

theorem handleAcceptCall_ok_iff :
    (handleAcceptCall s principal ⟨some k, true⟩ now).2 = none ↔ ∃ g, grant? s principal k = some g := by
  constructor
  · intro hok
    have hspec := handleAcceptCall_spec s principal k now
    cases hgrant : grant? s principal k with
    | none =>
      rw [hgrant] at hspec
      exact absurd hok hspec
    | some g => exact ⟨g, rfl⟩
  · rintro ⟨g, hgrant⟩
    rw [handleAcceptCall_of_grant s principal k now g hgrant]

end

end ChatAccept

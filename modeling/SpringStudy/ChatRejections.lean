import SpringStudy.ChatInvitations

/-!
# Accepts that are rejected

An accept that throws has used its key before most of its checks: the pending
TTL entry is taken out, and a row that has expired is marked used. Nothing
else is written before the last check, because every `User` row with a call
names one that exists.
-/
namespace ChatRejections

open Tables Outcomes TtlCaches ChatStore ChatCallFlow ChatAccept ChatInvitations

/-- The TTL entry of a key, as both tables of the cache have it. -/
def pending (s : Chat) (k : String) : Option Expiry × Option Nat :=
  (s.ttlCache.cache.lookup k, s.ttlCache.expirationTimes.lookup k)

/-- What an accept writes to is as before. -/
structure Untouched (s s' : Chat) : Prop where
  inviteKeys : ∀ k, s'.inviteKeys.lookup k = s.inviteKeys.lookup k
  pending : ∀ k, ChatRejections.pending s' k = ChatRejections.pending s k
  callManager : s'.callManager = s.callManager
  involvements : s'.involvements = s.involvements
  participants : s'.participants = s.participants

theorem Untouched.refl (s : Chat) : Untouched s s := ⟨fun _ => rfl, fun _ => rfl, rfl, rfl, rfl⟩

/-- The accept comes to no key, or to one that waits for no expiry and whose row, if there is
one, has not expired or is marked used with the present date already. -/
def Harmless (s : Chat) (principal : String) (message : AcceptCallMessage) (now : Nat) : Prop :=
  (s.findByPrincipalName principal).isSome = true → ∀ k ∈ message.inviteKey,
    pending s k = (none, none) ∧ ∀ row ∈ s.inviteKeys.lookup k,
      row.expiredDate = none ∨ (row.isUsed = true ∧ row.expiredDate = some now)

instance decidableHarmless (s : Chat) (principal : String) (message : AcceptCallMessage) (now : Nat) :
    Decidable (Harmless s principal message now) :=
  inferInstanceAs (Decidable (_ → ∀ k ∈ message.inviteKey, _))

/-- Every row is stored under its own key. -/
def Labelled (s : Chat) : Prop := ∀ k row, s.inviteKeys.lookup k = some row → row.key = k

theorem step_labelled (s : Chat) (e : Event) (h : Labelled s) : Labelled (step s e) := by
  intro k row' hrow'
  rcases step_cases s e with hun | ⟨principal, session, user, input, room, he⟩
  · obtain ⟨row, hrow, htouched⟩ := hun.keys k row' hrow'
    exact htouched.key.trans (h k row hrow)
  · rw [he, lookup_inviteKeys_commitRequest] at hrow'
    split at hrow'
    · obtain rfl := Option.some.inj hrow'
      rfl
    · exact h k row' hrow'

/-! ## Using a key that is not granted -/

section
variable (s : Chat) (k x : String) (now : Nat)

theorem useInviteKey_involvements : (s.useInviteKey k now).1.involvements = s.involvements := by
  rw [useInviteKey_frame]

theorem pending_useInviteKey :
    pending (s.useInviteKey k now).1 x = if x = k then (none, none) else pending s x := by
  have hcache : (s.useInviteKey k now).1.ttlCache = (remove s.ttlCache k).1 := by
    unfold Chat.useInviteKey
    cases s.inviteKeys.lookup k <;> rfl
  simp only [pending, hcache, remove, lookup_remove]
  split <;> rfl

/-- To mark a row twice is to mark it once. -/
theorem usedRow_usedRow (row : InviteKey) :
    Chat.usedRow (Chat.usedRow row k now) k now = Chat.usedRow row k now := by
  by_cases h : row.expiredDate ≠ none ∧ row.key = k
  · simp [Chat.usedRow, h]
  · have hstay : Chat.usedRow row k now = row := by rw [Chat.usedRow, if_neg h]
    rw [hstay, hstay]

/-- What `useInviteKey` writes to a row is there already. -/
theorem usedRow_eq_iff {row : InviteKey} (hkey : row.key = k) :
    Chat.usedRow row k now = row ↔
      row.expiredDate = none ∨ (row.isUsed = true ∧ row.expiredDate = some now) := by
  obtain ⟨key, userId, callType, server, destnId, call, expiredDate, isUsed⟩ := row
  subst hkey
  cases expiredDate with
  | none => simp [Chat.usedRow]
  | some date => simp [Chat.usedRow, eq_comm, and_comm]

theorem useTwice_untouched_iff :
    Untouched s (useTwice s k now) ↔ Untouched s (s.useInviteKey k now).1 := by
  have hkeys : ∀ x, (useTwice s k now).inviteKeys.lookup x = (s.useInviteKey k now).1.inviteKeys.lookup x := by
    intro x
    simp only [useTwice, lookup_useInviteKey, if_true, Option.map_map]
    split
    · exact congrArg (fun f => Option.map f _) (funext fun row => usedRow_usedRow k now row)
    · rfl
  have hpending : ∀ x, pending (useTwice s k now) x = pending (s.useInviteKey k now).1 x := by
    intro x
    simp only [useTwice, pending_useInviteKey]
    split <;> rfl
  have hinvolvements : (useTwice s k now).involvements = (s.useInviteKey k now).1.involvements :=
    useInviteKey_involvements (s.useInviteKey k now).1 k now
  constructor
  · intro h
    exact ⟨fun x => (hkeys x).symm.trans (h.inviteKeys x), fun x => (hpending x).symm.trans (h.pending x),
      useInviteKey_callManager s k now, useInviteKey_involvements s k now, useInviteKey_participants s k now⟩
  · intro h
    refine ⟨fun x => (hkeys x).trans (h.inviteKeys x), fun x => (hpending x).trans (h.pending x), ?_,
      hinvolvements.trans h.involvements, ?_⟩
    · exact (useInviteKey_callManager _ k now).trans h.callManager
    · exact (useInviteKey_participants _ k now).trans h.participants

theorem useInviteKey_untouched_iff (hlabelled : Labelled s) :
    Untouched s (s.useInviteKey k now).1 ↔
      pending s k = (none, none) ∧ ∀ row ∈ s.inviteKeys.lookup k,
        row.expiredDate = none ∨ (row.isUsed = true ∧ row.expiredDate = some now) := by
  constructor
  · intro h
    constructor
    · have hk := h.pending k
      rw [pending_useInviteKey, if_pos rfl] at hk
      exact hk.symm
    · intro row hrow
      have hk := h.inviteKeys k
      rw [lookup_useInviteKey, if_pos rfl, hrow, Option.map_some] at hk
      exact (usedRow_eq_iff k now (hlabelled k row hrow)).mp (Option.some.inj hk)
  · rintro ⟨hnone, hrow⟩
    refine ⟨fun x => ?_, fun x => ?_, useInviteKey_callManager s k now, useInviteKey_involvements s k now,
      useInviteKey_participants s k now⟩
    · rw [lookup_useInviteKey]
      split
      · next hx =>
        subst hx
        cases hl : s.inviteKeys.lookup x with
        | none => rfl
        | some row => exact congrArg some ((usedRow_eq_iff x now (hlabelled x row hl)).mpr (hrow row hl))
      · rfl
    · rw [pending_useInviteKey]
      split
      · next hx => rw [hx, hnone]
      · rfl

end

/-! ## Where a rejected accept has come to -/

/-- Every `User` row with a call names a call that exists. -/
def Called (s : Chat) : Prop :=
  ∀ host u c, s.users.lookup host = some u → u.callId = some c → (s.calls.lookup c).isSome = true

theorem step_called (s : Chat) (e : Event) (h : Called s) : Called (step s e) := by
  intro host u c hu hc
  rcases step_cases s e with hun | ⟨principal, session, user, input, room, he⟩
  · rw [hun.calls]
    exact h host u c (hun.users host u c hu hc) hc
  · rw [he, lookup_users_commitRequest] at hu
    rw [he, lookup_calls_commitRequest]
    split
    · rfl
    · next hroom =>
      split at hu
      · obtain rfl := Option.some.inj hu
        exact absurd (Option.some.inj hc).symm hroom
      · exact h host u c hu hc

theorem Called.useInviteKey {s : Chat} (h : Called s) (k : String) (now : Nat) :
    Called (s.useInviteKey k now).1 := by
  intro host u c hu hc
  rw [useInviteKey_users] at hu
  rw [useInviteKey_calls]
  exact h host u c hu hc

/-- The second service method throws before it uses the key or after, but not in the call. -/
theorem handleOutboundAcceptCall_failed (t : Chat) (principal k : String) (isAccept : Bool) (now : Nat)
    (ht : Called t) (hfail : (handleOutboundAcceptCall t principal k isAccept now).2 ≠ none) :
    (handleOutboundAcceptCall t principal k isAccept now).1 = t ∨
      (handleOutboundAcceptCall t principal k isAccept now).1 = (t.useInviteKey k now).1 := by
  unfold handleOutboundAcceptCall at hfail ⊢
  cases hguest : t.findByPrincipalName principal with
  | none => exact .inl rfl
  | some guest =>
    simp only [hguest] at hfail ⊢
    split
    · exact .inl rfl
    · next hhost =>
      rw [if_neg hhost] at hfail
      rw [useInviteKey_eq t k now] at hfail ⊢
      cases hrow : t.inviteKeys.lookup k with
      | none => exact .inr rfl
      | some row =>
        simp only [hrow, Option.map_some, useInviteKey_users] at hfail ⊢
        cases huser : t.users.lookup (Chat.usedRow row k now).userId with
        | none => exact .inr rfl
        | some user =>
          simp only [huser] at hfail ⊢
          cases hcall : user.callId with
          | none => exact .inr rfl
          | some callId =>
            simp only [hcall] at hfail ⊢
            -- the call is there, so neither a join nor a refusal throws
            have hsome := ht _ user callId huser hcall
            obtain ⟨call, hlookup⟩ := Option.isSome_iff_exists.mp hsome
            cases isAccept with
            | false => exact absurd rfl hfail
            | true =>
              have hjoin := joinCall_spec (t.useInviteKey k now).1 principal guest
                (Chat.usedRow row k now).userId callId
              rw [useInviteKey_calls, hlookup] at hjoin
              simp only [if_true, hjoin] at hfail
              exact absurd rfl hfail

/-- A rejected accept has done nothing, or used its key once or twice. -/
theorem handleAcceptCall_failed (s : Chat) (principal : String) (message : AcceptCallMessage) (now : Nat)
    (hs : Called s) (hfail : (handleAcceptCall s principal message now).2 ≠ none) :
    ((s.findByPrincipalName principal = none ∨ message.inviteKey = none) ∧
      (handleAcceptCall s principal message now).1 = s) ∨
    ∃ guest k, s.findByPrincipalName principal = some guest ∧ message.inviteKey = some k ∧
      ((handleAcceptCall s principal message now).1 = (s.useInviteKey k now).1 ∨
        (handleAcceptCall s principal message now).1 = useTwice s k now) := by
  unfold handleAcceptCall at hfail ⊢
  cases hguest : s.findByPrincipalName principal with
  | none => exact .inl ⟨.inl rfl, rfl⟩
  | some guest =>
    cases hk : message.inviteKey with
    | none => exact .inl ⟨.inr rfl, rfl⟩
    | some k =>
      refine .inr ⟨guest, k, rfl, rfl, ?_⟩
      simp only [hguest, hk] at hfail ⊢
      rw [useInviteKey_eq s k now] at hfail ⊢
      cases hrow : s.inviteKeys.lookup k with
      | none => exact .inl rfl
      | some row =>
        simp only [hrow, Option.map_some] at hfail ⊢
        split
        · exact .inl rfl
        · next hself =>
          rw [if_neg hself] at hfail
          exact handleOutboundAcceptCall_failed _ principal k message.isAccept now
            (hs.useInviteKey k now) hfail

/-- A rejected accept leaves the key, its expiry, the `CallManager` and the tables as
they were exactly if it comes to no key or to one with nothing to lose. -/
theorem rejected_untouched_iff_harmless (serverName : String) (ttl : Nat) (events : List Event)
    (principal : String) (message : AcceptCallMessage) (now : Nat)
    (hfail : (handle (Runs.run step (.init serverName ttl) events)
      (.acceptCall principal message now)).2 ≠ none) :
    Untouched (Runs.run step (.init serverName ttl) events)
        (step (Runs.run step (.init serverName ttl) events) (.acceptCall principal message now)) ↔
      Harmless (Runs.run step (.init serverName ttl) events) principal message now := by
  have hs : Called (Runs.run step (.init serverName ttl) events) :=
    Runs.run_invariant step_called _ events fun _ _ _ hu => by cases hu
  have hlabelled : Labelled (Runs.run step (.init serverName ttl) events) :=
    Runs.run_invariant step_labelled _ events fun _ _ hrow => by cases hrow
  rcases handleAcceptCall_failed _ principal message now hs hfail with
    ⟨hnothing, heq⟩ | ⟨guest, k, hguest, hk, heq⟩
  · rw [step, handle, heq]
    refine ⟨fun _ hsome k hmem => ?_, fun _ => .refl _⟩
    rcases hnothing with hnone | hnone
    · rw [hnone] at hsome
      cases hsome
    · rw [hnone] at hmem
      cases hmem
  · have hused : Untouched (Runs.run step (.init serverName ttl) events)
          (step (Runs.run step (.init serverName ttl) events) (.acceptCall principal message now)) ↔
        Untouched (Runs.run step (.init serverName ttl) events)
          ((Runs.run step (.init serverName ttl) events).useInviteKey k now).1 := by
      rw [step, handle]
      rcases heq with heq | heq
      · rw [heq]
      · rw [heq]
        exact useTwice_untouched_iff _ k now
    rw [hused, useInviteKey_untouched_iff _ k now hlabelled]
    simp [Harmless, hguest, hk]

/-- A guest accepts a key that does not exist. -/
theorem unknown_key_untouched :
    (handle (Runs.run step (.init "chat" 1000) invited) (.acceptCall "p2" ⟨some "host//u9", true⟩ 1)).2 =
        some (.common .unknownInviteKey) ∧
      Untouched (Runs.run step (.init "chat" 1000) invited)
        (step (Runs.run step (.init "chat" 1000) invited) (.acceptCall "p2" ⟨some "host//u9", true⟩ 1)) :=
  ⟨by decide +kernel,
    (rejected_untouched_iff_harmless "chat" 1000 invited "p2" ⟨some "host//u9", true⟩ 1
      (by decide +kernel)).mpr (by decide +kernel)⟩

/-- The host tries its own key; the key no longer expires. -/
theorem own_key_loses_expiry :
    (handle (Runs.run step (.init "chat" 1000) invited) (.acceptCall "p1" ⟨some "host//u1", true⟩ 1)).2 =
        some (.common .notInviteYourself) ∧
      (pending (Runs.run step (.init "chat" 1000) invited) "host//u1").2 = some 1000 ∧
      pending (step (Runs.run step (.init "chat" 1000) invited) (.acceptCall "p1" ⟨some "host//u1", true⟩ 1))
        "host//u1" = (none, none) := by
  decide +kernel

end ChatRejections

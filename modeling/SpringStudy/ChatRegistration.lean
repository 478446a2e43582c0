import SpringStudy.ChatInvitations
import SpringStudy.Runs

/-!
# The call of a registered host

Two handlers write a host's `User` row. `handleRequestCall` sets its call, and
the listener for subscriptions saves a new row, with no call, whatever the
destination is. So the row tells what the later of the two has left.
-/
namespace ChatRegistration

open Tables Outcomes ChatStore ChatCallFlow ChatAccept ChatInvitations Runs

/-- The event is a subscription by a session of the host `h`. -/
def subscribes (h : String) (s : Chat) : Event → Bool
  | .subscribe principal =>
    (s.findByPrincipalName principal).any fun session => session.isHost && decide (session.userId = h)
  | _ => false

/-- The event is a call request by a session of `h`, and it completes. -/
def requests (h : String) (s : Chat) : Event → Bool
  | .requestCall principal input =>
    (handleRequestCall s principal input).toOption.isSome &&
      (s.findByPrincipalName principal).any fun session => decide (session.userId = h)
  | _ => false

def registers (h : String) (s : Chat) (e : Event) : Bool := subscribes h s e || requests h s e

/-- The call a request asks for; a subscription has none. -/
def requested : Event → Option String
  | .requestCall _ input => some input.roomId
  | _ => none

/-- The `callId` of the host's row, if there is a row. -/
def callIdOf (h : String) (s : Chat) : Option (Option String) := (s.users.lookup h).map User.callId

theorem subscribe_callId (s : Chat) (principal h : String) :
    callIdOf h (step s (.subscribe principal)) =
      if subscribes h s (.subscribe principal) then some none else callIdOf h s := by
  cases hs : s.findByPrincipalName principal with
  | none => simp [step, handle, Chat.handleSessionSubscribeListener, subscribes, hs]
  | some session =>
    by_cases hhost : session.isHost
    · by_cases hu : session.userId = h
      · simp [step, handle, Chat.handleSessionSubscribeListener, subscribes, hs, callIdOf, hhost, hu]
      · simp [step, handle, Chat.handleSessionSubscribeListener, subscribes, hs, callIdOf, hhost, hu,
          Ne.symm hu]
    · simp [step, handle, Chat.handleSessionSubscribeListener, subscribes, hs, hhost]

theorem requestCall_callId (s : Chat) (principal : String) (input : RequestInput) (h : String) :
    callIdOf h (step s (.requestCall principal input)) =
      if requests h s (.requestCall principal input) then some (some input.roomId)
      else callIdOf h s := by
  rcases hr : handleRequestCall s principal input with e | t
  · simp [step, handle, requests, hr, Except.toOption]
  · obtain ⟨session, host, room, hsession, -, rfl⟩ := handleRequestCall_ok s t principal input hr
    by_cases hu : session.userId = h
    · simp [step, handle, requests, hr, Except.toOption, callIdOf, lookup_users_commitRequest,
        hsession, hu]
    · simp [step, handle, requests, hr, Except.toOption, callIdOf, lookup_users_commitRequest,
        hsession, hu, Ne.symm hu]

/-- The row of a host is written by its subscriptions and its completed requests only. -/
theorem step_callId (h : String) (s : Chat) (e : Event) :
    callIdOf h (step s e) = if registers h s e then some (requested e) else callIdOf h s := by
  cases e with
  | subscribe principal =>
    simpa [registers, requests, requested] using subscribe_callId s principal h
  | requestCall principal input =>
    simpa [registers, subscribes, requested] using requestCall_callId s principal input h
  | connect principal authorization =>
    have hu : (s.addSession principal authorization).1.users = s.users := by
      unfold Chat.addSession
      split
      · rfl
      · split <;> rfl
    simp [registers, subscribes, requests, callIdOf, step, handle, hu]
  | disconnect principal =>
    have hu : (s.removeSession principal).users = s.users := by
      unfold Chat.removeSession
      split <;> rfl
    simp [registers, subscribes, requests, callIdOf, step, handle, hu]
  | acceptCall principal message now =>
    simp [registers, subscribes, requests, callIdOf, step, handle,
      (handleAcceptCall_sameUsers s principal message now).users]
  | sessionAll => simp [registers, subscribes, requests, callIdOf, step, handle]
  | fireTtl task now =>
    simp [registers, subscribes, requests, callIdOf, step, handle, (fireTtl_sameUsers s task now).users]

/-- The row of a host holds the call of its last completed request since its last
subscription, and none if there was no request since then. -/
theorem callId_eq_latest (serverName : String) (ttl : Nat) (events : List Event) (h : String) :
    callIdOf h (run step (.init serverName ttl) events) =
      (latest (registers h) (history step (.init serverName ttl) events)).map fun p => requested p.2 := by
  rw [run_eq_latest step (callIdOf h) (registers h) (fun _ e => some (requested e)) (step_callId h)]
  cases latest (registers h) (history step (.init serverName ttl) events) with
  | none => rfl
  | some p => rfl

/-- Once a request of a host has completed, its row holds the call of the last one. -/
def HoldsLastCall (serverName : String) (ttl : Nat) (events : List Event) : Prop :=
  ∀ h p, latest (requests h) (history step (.init serverName ttl) events) = some p →
    callIdOf h (run step (.init serverName ttl) events) = some (requested p.2)

/-- A second subscription of the host, after its request. -/
def resubscribed : List Event := invited ++ [.subscribe "p1"]

theorem not_holdsLastCall_resubscribed : ¬ HoldsLastCall "chat" 1000 resubscribed := by
  intro h
  have hsome : (latest (requests "host") (history step (.init "chat" 1000) resubscribed)).isSome = true := by
    decide +kernel
  obtain ⟨p, hp⟩ := Option.isSome_iff_exists.mp hsome
  have hcall : (latest (requests "host") (history step (.init "chat" 1000) resubscribed)).map
      (fun p => requested p.2) = some (some "call-1") := by
    decide +kernel
  rw [hp] at hcall
  have hcall' : requested p.2 = some "call-1" := Option.some.inj hcall
  have hrow := h "host" p hp
  rw [hcall'] at hrow
  revert hrow
  decide +kernel

end ChatRegistration

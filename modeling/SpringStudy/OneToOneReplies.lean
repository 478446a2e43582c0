import SpringStudy.OneToOneCalls

/-!
# What the call handler says to whom

A message of a session makes the handler say little: a call one thing, to the
callee or back to the caller, an accepted call one thing to each side. Who is
found under a name has registered it.
-/
namespace OneToOneReplies

open Tables Outcomes OneToOne OneToOneCalls

theorem sessions_unmoved (h : Handler) : Unmoved fun h₁ => sessions h₁ = sessions h where
  toInert := .of (fun h₁ u f hf hs => (sessions_modify h₁ u f hf).trans hs) (fun _ _ _ hs => hs)
    (fun _ _ hs => hs) fun _ _ hs => hs
  pipelines _ _ _ _ hs := hs

/-! ## Names -/

section
variable {nameOf : String → String}

/-- Who is found under a name has it. -/
def Named (nameOf : String → String) : Handler → Prop := Listed fun z name => nameOf z = name

theorem named_unmoved : Unmoved (Named nameOf) := listed_unmoved

theorem register_named {h : Handler} (hn : Named nameOf h) (session : String) (delivered : Bool) :
    Named nameOf (h.register session (some (nameOf session)) delivered).1 :=
  register_listed hn session _ (fun _ h => Option.some.inj h) delivered

theorem closed_named {h : Handler} (hn : Named nameOf h) (session : String) (delivered : Bool) :
    Named nameOf (step h (.closed session delivered)) := closed_listed hn session delivered

end

/-! ## What is said -/

theorem sendMessage_sent (h : Handler) (u : UserRef) (message : Message) (delivered : Bool) :
    (h.sendMessage u message delivered).1.sent = h.sent ∧ (h.sendMessage u message delivered).2 ≠ none ∨
      (h.sendMessage u message delivered).1.sent = h.sent ++ [(.user u, message)] ∧
        (h.sendMessage u message delivered).2 = none := by
  unfold Handler.sendMessage
  split
  · exact .inr ⟨rfl, rfl⟩
  · exact .inl ⟨rfl, by simp⟩

/-- A stop says at most that the communication has stopped. -/
theorem stop_sent (h : Handler) (session : String) (delivered : Bool) :
    ∃ stops, (h.stop session delivered).1.sent = h.sent ++ stops ∧ ∀ p ∈ stops, p.2 = .stopCommunication := by
  unfold Handler.stop
  split
  · exact ⟨[], (List.append_nil _).symm, by simp⟩
  · simp only [Handler.stopUsers, Handler.release]
    split
    · exact ⟨[], (List.append_nil _).symm, by simp⟩
    · split
      · exact ⟨[], (List.append_nil _).symm, by simp⟩
      · unfold Handler.sendMessage
        split
        · exact ⟨[(.user _, .stopCommunication)], rfl, by simp⟩
        · exact ⟨[], (List.append_nil _).symm, by simp⟩

/-- After an exception the session is told, unless the stop has thrown. -/
theorem handleErrorResponse_sent (h : Handler) (failure : Failure) (session : String) (id : ResponseId)
    (delivered : Bool) :
    ∃ stops last, (Handler.handleErrorResponse (h, some failure) session id delivered).1.sent =
        h.sent ++ (stops ++ last) ∧ (∀ p ∈ stops, p.2 = .stopCommunication) ∧
      (last = [] ∨ last = [(.session session, .rejected id failure)]) := by
  obtain ⟨stops, hsent, hstops⟩ := stop_sent h session delivered
  simp only [Handler.handleErrorResponse]
  rcases hq : h.stop session delivered with ⟨h₁, - | failure₁⟩
  · rw [hq] at hsent
    refine ⟨stops, [(.session session, .rejected id failure)], ?_, hstops, .inr rfl⟩
    rw [andThen_ok, Handler.send, hsent, List.append_assoc]
  · rw [hq] at hsent
    refine ⟨stops, [], ?_, hstops, .inl rfl⟩
    rw [andThen_failed, List.append_nil]
    exact hsent

theorem register_sent (h : Handler) (session : String) (name : Option String) (delivered : Bool) :
    ∃ replies, (h.register session name delivered).1.sent = h.sent ++ replies ∧
      ∀ p ∈ replies, ∃ response, p.2 = .registerResponse response := by
  unfold Handler.register
  split
  · exact ⟨[], (List.append_nil _).symm, by simp⟩
  · dsimp only [Handler.sendMessage]
    split
    · split
      · exact ⟨[(.user _, .registerResponse _)], rfl, by simp⟩
      · exact ⟨[], (List.append_nil _).symm, by simp⟩
    · split
      · split
        · exact ⟨[(.user _, .registerResponse _)], rfl, by simp⟩
        · exact ⟨[], (List.append_nil _).symm, by simp⟩
      · split
        · exact ⟨[(.user _, .registerResponse _)], rfl, by simp⟩
        · exact ⟨[], (List.append_nil _).symm, by simp⟩

/-- A call that does not throw says one thing: the callee gets it, or the caller is turned away. -/
theorem call_sent (h : Handler) (caller : Option UserRef) (callee callerName sdpOffer : Option String)
    (delivered : Bool) :
    let q := h.call caller callee callerName sdpOffer delivered
    q.2 ≠ none ∧ q.1.sent = h.sent ∨
      q.2 = none ∧ ∃ p, q.1.sent = h.sent ++ [p] ∧
        ((∃ name, callerName = some name ∧ p.2 = .incomingCall name) ∨
          ∃ c response, caller = some c ∧ p = (.user c, .callResponse response)) := by
  unfold Handler.call
  split
  · next callee callerName =>
    split
    · next u hu =>
      split
      · next c sdp =>
        unfold Handler.sendMessage
        split
        · exact .inr ⟨rfl, (.user u, .incomingCall callerName), rfl, .inl ⟨callerName, rfl, rfl⟩⟩
        · exact .inl ⟨by simp, rfl⟩
      · exact .inl ⟨by simp, rfl⟩
    · split
      · exact .inl ⟨by simp, rfl⟩
      · next c =>
        rcases sendMessage_sent h c
          (.callResponse ("rejected: user '" ++ callee ++ "' is not registered")) delivered with
          ⟨hs, hf⟩ | ⟨hs, hf⟩
        · exact .inl ⟨hf, hs⟩
        · exact .inr ⟨hf, _, hs, .inr ⟨c, _, rfl, rfl⟩⟩
  · exact .inl ⟨by simp, rfl⟩

theorem setWebRtcEndpoint_sent (h : Handler) (u : UserRef) (endpoint : Option Endpoint) (throws : Bool) :
    (h.setWebRtcEndpoint u endpoint throws).1.sent = h.sent := by
  unfold Handler.setWebRtcEndpoint
  dsimp only
  split
  · split <;> rfl
  · split <;> rfl

theorem listen_eq (h : Handler) (endpoint : Option Endpoint) (throws : Bool) :
    (h.listen endpoint throws).1 = h := by
  unfold Handler.listen
  split <;> rfl

theorem answer_sent (h : Handler) (u : UserRef) (endpoint : Option Endpoint) (sdp : Option String)
    (message : Message) (throws : Bool) :
    (h.answer u endpoint sdp message throws).2 ≠ none ∧ (h.answer u endpoint sdp message throws).1.sent = h.sent ∨
      (h.answer u endpoint sdp message throws).2 = none ∧
        (h.answer u endpoint sdp message throws).1.sent = h.sent ++ [(.user u, message)] := by
  unfold Handler.answer
  split
  · exact .inl ⟨by simp, rfl⟩
  · split
    · exact .inl ⟨by simp, rfl⟩
    · exact .inr ⟨rfl, rfl⟩

/-! ## Accepting -/

/-- Both sides have been answered, or an exception came before the caller was. -/
def Answered (calleer callee : UserRef) (sent : List (Receiver × Message)) (q : Outcome Handler Failure) : Prop :=
  q.2 = none ∧
      q.1.sent = sent ++ [(Receiver.user callee, Message.startCommunication),
        (Receiver.user calleer, Message.callResponse "accepted")] ∨
    q.2 ≠ none ∧ (q.1.sent = sent ∨ q.1.sent = sent ++ [(Receiver.user callee, Message.startCommunication)])

/-- A stage that says nothing may come first. -/
theorem Answered.after_silent {calleer callee : UserRef} {sent : List (Receiver × Message)}
    {q : Outcome Handler Failure} {f : Handler → Outcome Handler Failure} (hq : q.1.sent = sent)
    (hf : ∀ h, h.sent = sent → Answered calleer callee sent (f h)) :
    Answered calleer callee sent (andThen q f) := by
  obtain ⟨h, - | failure⟩ := q
  · exact hf h hq
  · exact .inr ⟨by simp, .inl hq⟩

/-- The answers are the last that may throw, if Kurento can be asked to gather candidates. -/
theorem connectUsers_answered (h : Handler) (calleer callee : UserRef) (pipeline : Nat) (sdpOffer : Option String)
    (input : AcceptInput) (hthrows : input.throws ≠ some .gatherCandidates) :
    Answered calleer callee h.sent (h.connectUsers calleer callee pipeline sdpOffer input) := by
  unfold Handler.connectUsers
  dsimp only
  refine .after_silent (setWebRtcEndpoint_sent h _ _ _) fun h₁ hs₁ => ?_
  refine .after_silent ((congrArg Handler.sent (listen_eq h₁ _ _)).trans hs₁) fun h₂ hs₂ => ?_
  refine .after_silent ((setWebRtcEndpoint_sent h₂ _ _ _).trans hs₂) fun h₃ hs₃ => ?_
  refine .after_silent ((congrArg Handler.sent (listen_eq h₃ _ _)).trans hs₃) fun h₄ hs₄ => ?_
  cases sdpOffer with
  | none => exact .inr ⟨by simp, .inl hs₄⟩
  | some sdp =>
    dsimp only
    generalize hq : h₄.answer callee _ (some sdp) .startCommunication _ = q
    have hcallee := answer_sent h₄ callee (if input.calleeEp then some (Endpoint.mk pipeline .callee) else none)
      (some sdp) .startCommunication (decide (input.throws = some .startCommunication))
    rw [hq, hs₄] at hcallee
    obtain ⟨h₅, - | failure⟩ := q
    · obtain ⟨hfail, -⟩ | ⟨-, hs₅⟩ := hcallee
      · exact absurd rfl hfail
      · rw [andThen_ok]
        generalize hq' : h₅.answer calleer _ _ (.callResponse "accepted") _ = q'
        have hcalleer := answer_sent h₅ calleer
          (if input.callerEp then some (Endpoint.mk pipeline .caller) else none)
          ((h₅.heap[calleer]?).bind UserSession.sdpOffer) (.callResponse "accepted")
          (decide (input.throws = some .callResponse))
        rw [hq', hs₅] at hcalleer
        obtain ⟨h₆, - | failure⟩ := q'
        · obtain ⟨hfail, -⟩ | ⟨-, hs₆⟩ := hcalleer
          · exact absurd rfl hfail
          · rw [andThen_ok, if_neg hthrows]
            refine .inl ⟨rfl, hs₆.trans ?_⟩
            rw [List.append_assoc]
            rfl
        · obtain ⟨-, hs₆⟩ | ⟨hok, -⟩ := hcalleer
          · exact .inr ⟨by simp, .inr hs₆⟩
          · cases hok
    · obtain ⟨-, hs₅⟩ | ⟨hok, -⟩ := hcallee
      · exact .inr ⟨by simp, .inl hs₅⟩
      · cases hok

/-- The caller is told once, and then the callee. -/
theorem rollBack_sent (h : Handler) (calleer : UserRef) (calleerSession : String)
    (callee : Option (UserRef × String)) (pipeline : Nat) (informed : Bool) :
    ∃ told stops, (h.rollBack calleer calleerSession callee pipeline informed).1.sent = h.sent ++ (told ++ stops) ∧
      (told = [] ∨ told = [(.user calleer, .callResponse "rejected")]) ∧ ∀ p ∈ stops, p.2 = .stopCommunication := by
  unfold Handler.rollBack
  dsimp only
  split
  · exact ⟨[], [], (List.append_nil _).symm, .inl rfl, by simp⟩
  · next u calleeSession =>
    unfold Handler.sendMessage
    split
    · refine ⟨[(.user calleer, .callResponse "rejected")], [(.user u, .stopCommunication)], ?_, .inr rfl, by simp⟩
      rw [andThen_ok]
      exact List.append_assoc _ _ _
    · exact ⟨[], [], (List.append_nil _).symm, .inl rfl, by simp⟩

/-- However accepting ends, each side gets one answer at most. -/
theorem accept_sent (h : Handler) (calleer : UserRef) (calleerSession : String)
    (callee : Option (UserRef × String)) (sdpOffer : Option String) (input : AcceptInput)
    (hthrows : input.throws ≠ some .gatherCandidates) :
    ∃ started told stops,
      (h.accept calleer calleerSession callee sdpOffer input).1.sent = h.sent ++ (started ++ (told ++ stops)) ∧
      (started = [] ∨ ∃ c, callee = some c ∧ started = [(.user c.1, .startCommunication)]) ∧
      (told = [] ∨ ∃ response, told = [(.user calleer, .callResponse response)]) ∧
      ∀ p ∈ stops, p.2 = .stopCommunication := by
  unfold Handler.accept
  dsimp only
  cases callee with
  | none =>
    obtain ⟨told, stops, hs, htold, hstops⟩ := rollBack_sent
      { h with built := h.built + 1, pipelines := h.pipelines.insert calleerSession h.built }
      calleer calleerSession none h.built input.informed
    exact ⟨[], told, stops, hs, .inl rfl, htold.imp_right fun ht => ⟨_, ht⟩, hstops⟩
  | some c =>
    have hanswered := connectUsers_answered
      { h with built := h.built + 1, pipelines := (h.pipelines.insert calleerSession h.built).insert c.2 h.built }
      calleer c.1 h.built sdpOffer input hthrows
    dsimp only at hanswered ⊢
    split
    · next h₁ hq =>
      rw [hq] at hanswered
      obtain ⟨-, hs⟩ | ⟨hfail, -⟩ := hanswered
      · refine ⟨[(.user c.1, .startCommunication)], [(.user calleer, .callResponse "accepted")], [], ?_,
          .inr ⟨c, rfl, rfl⟩, .inr ⟨_, rfl⟩, by simp⟩
        exact hs
      · exact absurd rfl hfail
    · next h₁ failure hq =>
      rw [hq] at hanswered
      obtain ⟨told, stops, hs, htold, hstops⟩ := rollBack_sent h₁ calleer calleerSession (some c) h.built input.informed
      obtain ⟨hok, -⟩ | ⟨-, hs₁ | hs₁⟩ := hanswered
      · cases hok
      · refine ⟨[], told, stops, ?_, .inl rfl, htold.imp_right fun ht => ⟨_, ht⟩, hstops⟩
        rw [List.nil_append]
        exact hs.trans (congrArg (· ++ (told ++ stops)) hs₁)
      · refine ⟨[(.user c.1, .startCommunication)], told, stops, ?_, .inr ⟨c, rfl, rfl⟩,
          htold.imp_right fun ht => ⟨_, ht⟩, hstops⟩
        rw [← List.append_assoc]
        exact hs.trans (congrArg (· ++ (told ++ stops)) hs₁)

end OneToOneReplies

import SpringStudy.OneToOne

/-!
# Releasing the pipelines of calls

A pipeline is stored under the sessions of both users. `stop` releases it twice
and takes out the entry of the session that stops, so that of the other user
refers to a released pipeline from then on.
-/
namespace OneToOnePipelines

open Tables Outcomes OneToOne Runs

/-- No pipeline has been released twice, and none that is stored has been released. -/
structure ReleasedOnce (h : Handler) : Prop where
  once : h.released.Nodup
  stored : ∀ session pipeline, h.pipelines.lookup session = some pipeline → pipeline ∉ h.released

/-- No session with a pipeline is stopped. -/
def StopsIdle (h : Handler) (e : Event) : Prop :=
  ∀ session, stops h e = some session → h.pipelines.lookup session = none

/-- Pipelines are numbered as they are built. -/
structure Numbered (h : Handler) : Prop where
  released : ∀ pipeline ∈ h.released, pipeline < h.built
  stored : ∀ session pipeline, h.pipelines.lookup session = some pipeline → pipeline < h.built

/-- The three fields about pipelines are the same. -/
structure SamePipelines (h h' : Handler) : Prop where
  pipelines : h'.pipelines = h.pipelines
  built : h'.built = h.built
  released : h'.released = h.released

theorem SamePipelines.refl (h : Handler) : SamePipelines h h := ⟨rfl, rfl, rfl⟩

theorem SamePipelines.releasedOnce_iff {h h' : Handler} (hs : SamePipelines h h') :
    ReleasedOnce h' ↔ ReleasedOnce h := by
  constructor
  · rintro ⟨hn, hst⟩
    rw [hs.released] at hn hst
    rw [hs.pipelines] at hst
    exact ⟨hn, hst⟩
  · rintro ⟨hn, hst⟩
    refine ⟨hs.released ▸ hn, ?_⟩
    rw [hs.released, hs.pipelines]
    exact hst

theorem SamePipelines.numbered {h h' : Handler} (hs : SamePipelines h h') (hj : Numbered h) :
    Numbered h' := by
  refine ⟨?_, ?_⟩
  · rw [hs.released, hs.built]
    exact hj.released
  · rw [hs.pipelines, hs.built]
    exact hj.stored

/-! ## What leaves the pipelines alone -/

theorem samePipelines_inert (h : Handler) : Inert (SamePipelines h) :=
  .of (fun _ _ _ _ hs => ⟨hs.pipelines, hs.built, hs.released⟩)
    (fun _ _ _ hs => ⟨hs.pipelines, hs.built, hs.released⟩) (fun _ _ hs => ⟨hs.pipelines, hs.built, hs.released⟩)
    fun _ _ hs => ⟨hs.pipelines, hs.built, hs.released⟩

theorem register_same (h : Handler) (session : String) (name : Option String) (delivered : Bool) :
    SamePipelines h (h.register session name delivered).1 := by
  unfold Handler.register
  split
  · exact .refl h
  · dsimp only
    split
    · refine (samePipelines_inert h).sendMessage ?_ _ _ _
      exact ⟨rfl, rfl, rfl⟩
    · split
      · refine (samePipelines_inert h).sendMessage ?_ _ _ _
        exact ⟨rfl, rfl, rfl⟩
      · refine (samePipelines_inert h).sendMessage ?_ _ _ _
        exact ⟨rfl, rfl, rfl⟩

theorem removeBySession_same {h h' : Handler} (hs : SamePipelines h h') (session : String) :
    SamePipelines h (h'.removeBySession session) := by
  unfold Handler.removeBySession
  split
  · exact hs
  · exact ⟨hs.pipelines, hs.built, hs.released⟩

/-! ## Stopping and accepting -/

/-- What a session with the pipeline `pipeline` leaves when it is stopped. -/
structure Stopped (h : Handler) (session : String) (pipeline : Nat) (h' : Handler) : Prop where
  pipelines : h'.pipelines = h.pipelines.erase session
  built : h'.built = h.built
  released : h'.released = h.released ++ [pipeline, pipeline]

theorem Stopped.same {h h' h'' : Handler} {session : String} {pipeline : Nat}
    (hs : Stopped h session pipeline h') (hsame : SamePipelines h' h'') : Stopped h session pipeline h'' :=
  ⟨hsame.pipelines.trans hs.pipelines, hsame.built.trans hs.built, hsame.released.trans hs.released⟩

theorem stop_idle (h : Handler) (session : String) (delivered : Bool)
    (hnone : h.pipelines.lookup session = none) : h.stop session delivered = (h, none) := by
  unfold Handler.stop
  rw [hnone]

theorem stop_stopped (h : Handler) (session : String) (delivered : Bool) (pipeline : Nat)
    (hsome : h.pipelines.lookup session = some pipeline) :
    Stopped h session pipeline (h.stop session delivered).1 := by
  simp only [Handler.stop, hsome]
  refine Stopped.same ?_ ((samePipelines_inert _).stopUsers (.refl _) session delivered)
  refine ⟨rfl, rfl, ?_⟩
  show (h.released ++ [pipeline]) ++ [pipeline] = h.released ++ [pipeline, pipeline]
  rw [List.append_assoc, List.singleton_append]

theorem Stopped.not_releasedOnce {h h' : Handler} {session : String} {pipeline : Nat}
    (hs : Stopped h session pipeline h') : ¬ ReleasedOnce h' := by
  intro hgood
  have hn := hgood.once
  rw [hs.released] at hn
  have htwice := hn.of_append_right
  simp at htwice

theorem Stopped.numbered {h h' : Handler} {session : String} {pipeline : Nat}
    (hs : Stopped h session pipeline h') (hsome : h.pipelines.lookup session = some pipeline)
    (hj : Numbered h) : Numbered h' := by
  refine ⟨?_, ?_⟩
  · rw [hs.released, hs.built]
    intro p hp
    rcases List.mem_append.mp hp with hp | hp
    · exact hj.released p hp
    · obtain rfl : p = pipeline := by simpa using hp
      exact hj.stored session p hsome
  · rw [hs.pipelines, hs.built]
    intro s p hl
    exact hj.stored s p (lookup_remove_eq_some.mp hl).2

/-- A new pipeline: either it is stored and has not been released, or it has been
released once and no entry has it; the other entries are old ones. -/
structure Accepted (h h' : Handler) : Prop where
  built : h'.built = h.built + 1
  released : h'.released = h.released ∨ h'.released = h.released ++ [h.built]
  pipelines : ∀ session pipeline, h'.pipelines.lookup session = some pipeline →
    h.pipelines.lookup session = some pipeline ∨ (pipeline = h.built ∧ h'.released = h.released)

theorem Accepted.same {h h' h'' : Handler} (ha : Accepted h h') (hs : SamePipelines h' h'') :
    Accepted h h'' := by
  refine ⟨hs.built.trans ha.built, ?_, ?_⟩
  · rw [hs.released]
    exact ha.released
  · rw [hs.released, hs.pipelines]
    exact ha.pipelines

theorem Accepted.releasedOnce {h h' : Handler} (ha : Accepted h h') (hj : Numbered h) (hg : ReleasedOnce h) :
    ReleasedOnce h' := by
  have hfresh : h.built ∉ h.released := fun hm => Nat.lt_irrefl _ (hj.released _ hm)
  refine ⟨?_, ?_⟩
  · rcases ha.released with hr | hr
    · exact hr ▸ hg.once
    · rw [hr, List.nodup_append]
      refine ⟨hg.once, by simp, ?_⟩
      intro p hp q hq he
      obtain rfl : q = h.built := by simpa using hq
      exact hfresh (he ▸ hp)
  · intro session pipeline hl
    rcases ha.pipelines session pipeline hl with hold | ⟨rfl, hr⟩
    · rcases ha.released with hr | hr
      · exact hr ▸ hg.stored session pipeline hold
      · rw [hr, List.mem_append, List.mem_singleton]
        rintro (hm | rfl)
        · exact hg.stored session pipeline hold hm
        · exact Nat.lt_irrefl _ (hj.stored session _ hold)
    · exact hr ▸ hfresh

theorem Accepted.numbered {h h' : Handler} (ha : Accepted h h') (hj : Numbered h) : Numbered h' := by
  refine ⟨?_, ?_⟩
  · intro p hp
    rw [ha.built]
    rcases ha.released with hr | hr
    · exact Nat.lt_succ_of_lt (hj.released p (hr ▸ hp))
    · rw [hr, List.mem_append, List.mem_singleton] at hp
      rcases hp with hp | rfl
      · exact Nat.lt_succ_of_lt (hj.released p hp)
      · exact Nat.lt_succ_self _
  · intro session p hl
    rw [ha.built]
    rcases ha.pipelines session p hl with hold | ⟨rfl, -⟩
    · exact Nat.lt_succ_of_lt (hj.stored session p hold)
    · exact Nat.lt_succ_self _

/-- The catch block: both entries go, and the pipeline is released once. -/
theorem rollBack_accepted {h h' : Handler} (calleer : UserRef) (calleerSession : String)
    (callee : Option (UserRef × String)) (informed : Bool) (hbuilt : h'.built = h.built + 1)
    (hreleased : h'.released = h.released)
    (hentries : ∀ session pipeline, h'.pipelines.lookup session = some pipeline →
      h.pipelines.lookup session = some pipeline ∨ session = calleerSession ∨
        ∃ u, callee = some (u, session)) :
    Accepted h (h'.rollBack calleer calleerSession callee h.built informed).1 := by
  unfold Handler.rollBack
  dsimp only
  split
  · refine ⟨hbuilt, .inr (congrArg (· ++ [h.built]) hreleased), ?_⟩
    intro session pipeline hl
    have hl' : (h'.pipelines.erase calleerSession).lookup session = some pipeline := hl
    obtain ⟨hne, hentry⟩ := lookup_remove_eq_some.mp hl'
    rcases hentries session pipeline hentry with hold | he | ⟨u, he⟩
    · exact .inl hold
    · exact absurd he hne
    · cases he
  · next u calleeSession =>
    refine andThen_invariant (I := Accepted h) _ _ ?_ ?_
    · refine Accepted.same ?_ ((samePipelines_inert _).sendMessage (.refl _) _ _ _)
      refine ⟨?_, ?_, ?_⟩
      · exact hbuilt
      · exact .inr (congrArg (· ++ [h.built]) hreleased)
      · intro session pipeline hl
        have hl' : ((h'.pipelines.erase calleerSession).erase calleeSession).lookup session = some pipeline := hl
        rw [lookup_remove, lookup_remove] at hl'
        split at hl'
        · cases hl'
        · next hcallee =>
          split at hl'
          · cases hl'
          · next hcaller =>
            rcases hentries session pipeline hl' with hold | he | ⟨v, he⟩
            · exact .inl hold
            · exact absurd he hcaller
            · exact absurd (Prod.mk.inj (Option.some.inj he)).2.symm hcallee
    · exact fun h'' ha => ha.same ⟨rfl, rfl, rfl⟩

/-- The entries once one pipeline has been put under two sessions. -/
theorem lookup_put_both {pipelines : Table String Nat} {calleerSession calleeSession session : String}
    {new pipeline : Nat}
    (hl : ((pipelines.insert calleerSession new).insert calleeSession new).lookup session = some pipeline) :
    session = calleeSession ∧ pipeline = new ∨ session = calleerSession ∧ pipeline = new ∨
      pipelines.lookup session = some pipeline := by
  rw [lookup_put, lookup_put] at hl
  split at hl
  · next he => exact .inl ⟨he, (Option.some.inj hl).symm⟩
  · split at hl
    · next he => exact .inr (.inl ⟨he, (Option.some.inj hl).symm⟩)
    · exact .inr (.inr hl)

theorem accept_accepted (h : Handler) (calleer : UserRef) (calleerSession : String)
    (callee : Option (UserRef × String)) (sdpOffer : Option String) (input : AcceptInput) :
    Accepted h (h.accept calleer calleerSession callee sdpOffer input).1 := by
  unfold Handler.accept
  dsimp only
  cases callee with
  | none =>
    refine rollBack_accepted calleer calleerSession none input.informed rfl rfl ?_
    intro session pipeline hl
    have hl' : (h.pipelines.insert calleerSession h.built).lookup session = some pipeline := hl
    rw [lookup_put] at hl'
    split at hl'
    · next he => exact .inr (.inl he)
    · exact .inl hl'
  | some c =>
    obtain ⟨u, calleeSession⟩ := c
    have hsame := (samePipelines_inert { h with
      built := h.built + 1
      pipelines := (h.pipelines.insert calleerSession h.built).insert calleeSession h.built }).connectUsers
      (.refl _) calleer u h.built sdpOffer input
    dsimp only
    split
    · next h' hq =>
      rw [hq] at hsame
      refine Accepted.same ?_ hsame
      refine ⟨rfl, .inl rfl, ?_⟩
      intro session pipeline hl
      rcases lookup_put_both hl with ⟨-, rfl⟩ | ⟨-, rfl⟩ | hold
      · exact .inr ⟨rfl, rfl⟩
      · exact .inr ⟨rfl, rfl⟩
      · exact .inl hold
    · next h' failure hq =>
      rw [hq] at hsame
      refine rollBack_accepted calleer calleerSession (some (u, calleeSession)) input.informed hsame.built
        hsame.released ?_
      intro session pipeline hl
      rw [hsame.pipelines] at hl
      rcases lookup_put_both hl with ⟨rfl, -⟩ | ⟨rfl, -⟩ | hold
      · exact .inr (.inr ⟨u, rfl⟩)
      · exact .inr (.inl rfl)
      · exact .inl hold

theorem incomingCallResponse_accepted (h : Handler) (callee : Option UserRef)
    (response callerName sdpOffer : Option String) (input : AcceptInput) :
    SamePipelines h (h.incomingCallResponse callee response callerName sdpOffer input).1 ∨
    Accepted h (h.incomingCallResponse callee response callerName sdpOffer input).1 := by
  unfold Handler.incomingCallResponse
  split
  · split
    · exact .inl (.refl h)
    · split
      · exact .inr (accept_accepted h _ _ _ _ _)
      · exact .inl ((samePipelines_inert h).sendMessage (.refl h) _ _ _)
  · exact .inl (.refl h)

/-! ## Steps -/

/-- The error path of `register` and `call`, which have left the pipelines alone. -/
theorem handleErrorResponse_cases {h : Handler} (q : Outcome Handler Failure) (session : String)
    (id : ResponseId) (delivered : Bool) (hs : SamePipelines h q.1) :
    (∃ pipeline, (q.2.map fun _ => session) = some session ∧ h.pipelines.lookup session = some pipeline ∧
      Stopped h session pipeline (Handler.handleErrorResponse q session id delivered).1) ∨
    ((∀ s, (q.2.map fun _ => session) = some s → h.pipelines.lookup s = none) ∧
      SamePipelines h (Handler.handleErrorResponse q session id delivered).1) := by
  obtain ⟨h', failure⟩ := q
  cases failure with
  | none => exact .inr ⟨by simp, hs⟩
  | some f =>
    simp only [Handler.handleErrorResponse]
    cases hl : h.pipelines.lookup session with
    | some pipeline =>
      have hl' : h'.pipelines.lookup session = some pipeline := hs.pipelines ▸ hl
      refine .inl ⟨pipeline, rfl, rfl, ?_⟩
      refine andThen_invariant (I := Stopped h session pipeline) _ _ ?_ ?_
      · have hst := stop_stopped h' session delivered pipeline hl'
        exact ⟨hs.pipelines ▸ hst.pipelines, hst.built.trans hs.built, hs.released ▸ hst.released⟩
      · exact fun h'' hst => hst.same ⟨rfl, rfl, rfl⟩
    | none =>
      have hl' : h'.pipelines.lookup session = none := hs.pipelines ▸ hl
      refine .inr ⟨?_, ?_⟩
      · intro s he
        obtain rfl : session = s := Option.some.inj he
        exact hl
      · rw [stop_idle h' session delivered hl']
        exact ⟨hs.pipelines, hs.built, hs.released⟩

/-- An event stops a session that has a pipeline, accepts a call, or leaves the pipelines alone. -/
theorem step_cases (h : Handler) (e : Event) :
    (∃ session pipeline, stops h e = some session ∧ h.pipelines.lookup session = some pipeline ∧
      Stopped h session pipeline (step h e)) ∨
    (StopsIdle h e ∧ (SamePipelines h (step h e) ∨ Accepted h (step h e))) := by
  cases e with
  | register session name delivered stopDelivered =>
    rcases handleErrorResponse_cases _ session .registerResponse stopDelivered
        (register_same h session name delivered) with
      ⟨pipeline, hst, hl, hs⟩ | ⟨hidle, hs⟩
    · exact .inl ⟨session, pipeline, hst, hl, hs⟩
    · exact .inr ⟨hidle, .inl hs⟩
  | call session callee callerName sdpOffer delivered stopDelivered =>
    rcases handleErrorResponse_cases _ session .callResponse stopDelivered ((samePipelines_inert h).call (.refl h)
        (h.usersBySessionId.lookup session) callee callerName sdpOffer delivered) with
      ⟨pipeline, hst, hl, hs⟩ | ⟨hidle, hs⟩
    · exact .inl ⟨session, pipeline, hst, hl, hs⟩
    · exact .inr ⟨hidle, .inl hs⟩
  | incomingCallResponse session response callerName sdpOffer input =>
    refine .inr ⟨?_, ?_⟩
    · intro s he
      cases he
    · exact incomingCallResponse_accepted h (h.usersBySessionId.lookup session) response callerName
        sdpOffer input
  | onIceCandidate session candidate =>
    refine .inr ⟨?_, .inl ?_⟩
    · intro s he
      cases he
    · show SamePipelines h (((h.usersBySessionId.lookup session).map fun u => h.addCandidate u candidate).getD h)
      cases h.usersBySessionId.lookup session with
      | none => exact .refl h
      | some u => exact (samePipelines_inert h).addCandidate (.refl h) u candidate
  | stop session delivered =>
    cases hl : h.pipelines.lookup session with
    | some pipeline => exact .inl ⟨session, pipeline, rfl, hl, stop_stopped h session delivered pipeline hl⟩
    | none =>
      refine .inr ⟨?_, .inl ?_⟩
      · intro s he
        obtain rfl : session = s := Option.some.inj he
        exact hl
      · show SamePipelines h (h.stop session delivered).1
        rw [stop_idle h session delivered hl]
        exact .refl h
  | closed session delivered =>
    cases hl : h.pipelines.lookup session with
    | some pipeline =>
      refine .inl ⟨session, pipeline, rfl, hl, ?_⟩
      refine andThen_invariant (I := Stopped h session pipeline) _ _
        (stop_stopped h session delivered pipeline hl) ?_
      exact fun h' hs => hs.same (removeBySession_same (.refl h') session)
    | none =>
      refine .inr ⟨?_, .inl ?_⟩
      · intro s he
        obtain rfl : session = s := Option.some.inj he
        exact hl
      · show SamePipelines h (h.afterConnectionClosed session delivered).1
        unfold Handler.afterConnectionClosed
        rw [stop_idle h session delivered hl, andThen_ok]
        exact removeBySession_same (.refl h) session

theorem step_numbered (h : Handler) (e : Event) (hj : Numbered h) : Numbered (step h e) := by
  rcases step_cases h e with ⟨session, pipeline, -, hl, hs⟩ | ⟨-, hs | ha⟩
  · exact hs.numbered hl hj
  · exact hs.numbered hj
  · exact ha.numbered hj

theorem step_releasedOnce_iff (h : Handler) (e : Event) (hj : Numbered h) (hg : ReleasedOnce h) :
    ReleasedOnce (step h e) ↔ StopsIdle h e := by
  rcases step_cases h e with ⟨session, pipeline, hst, hl, hs⟩ | ⟨hidle, hs⟩
  · constructor
    · exact fun hg' => absurd hg' hs.not_releasedOnce
    · intro hidle
      have hnone := hidle session hst
      rw [hl] at hnone
      cases hnone
  · refine ⟨fun _ => hidle, fun _ => ?_⟩
    rcases hs with hs | ha
    · exact hs.releasedOnce_iff.mpr hg
    · exact ha.releasedOnce hj hg

/-- Every pipeline is released at most once, and no stored one has been released, in all
states of a run exactly if no session is stopped while it has a pipeline. -/
theorem releasedOnce_throughout_iff (events : List Event) :
    Throughout step ReleasedOnce .init events ↔ Along step StopsIdle .init events := by
  have hnumbered : Numbered .init := ⟨by simp [Handler.init], by simp [Handler.init]⟩
  have honce : ReleasedOnce .init := ⟨List.nodup_nil, by simp [Handler.init]⟩
  exact throughout_iff_along (fun h e hj _ => step_numbered h e hj) step_releasedOnce_iff .init events
    hnumbered honce

/-- "a" calls "b", who accepts, and hangs up. -/
def hungUp : List Event :=
  [.register "s1" (some "a") true true, .register "s2" (some "b") true true,
    .call "s1" (some "b") (some "a") (some "sdp") true true,
    .incomingCallResponse "s2" (some "accept") (some "a") (some "sdp") smoothly, .stop "s1" true]

theorem not_releasedOnce_hungUp :
    (run step .init hungUp).released = [0, 0] ∧ (run step .init hungUp).pipelines.lookup "s2" = some 0 ∧
    ¬ Throughout step ReleasedOnce .init hungUp := by
  have htwice : (run step .init hungUp).released = [0, 0] := by decide +kernel
  refine ⟨htwice, by decide +kernel, ?_⟩
  intro hall
  have honce := hall.run.once
  rw [htwice] at honce
  simp at honce

end OneToOnePipelines

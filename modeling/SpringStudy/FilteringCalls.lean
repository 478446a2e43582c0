import SpringStudy.CallRecordingPipelines

/-!
# The one-to-one call with recording and filters

This application handles the messages of its users and the ends of its players as the
one with recording does. It differs in two places. Both listeners for the candidates of
a call are put on the endpoint of the callee. And a connection that closes stops its
call and gives up its name, but not its pipeline. The answers to the callee and to a
playback go out under the key `adpAnswer`, and the message at the end of a playback has
the id `playEnd`.
-/
namespace FilteringCalls

open Tables Outcomes Runs
open CallRecording hiding Event handle step

structure App where
  handler : Handler
  /-- The listeners for candidates: the endpoint that finds them, and the session they go to. -/
  listeners : List (Endpoint × String)
  /-- The candidates that went out, with the endpoint that found them and their receiver. -/
  forwarded : List (Endpoint × String × IceCandidate)
  /-- The sessions whose connection has closed. -/
  closed : List String

def App.init : App := ⟨.init, [], [], []⟩

namespace App

/-- A part of a handler that adds no listener. -/
def lift (a : App) (q : Outcome Handler Failure) : Outcome App Failure := ({ a with handler := q.1 }, q.2)

def addIceCandidateFoundListener (a : App) (e : Endpoint) (session : String) : App :=
  { a with listeners := a.listeners ++ [(e, session)] }

section
variable (kurento : Kurento)

def connectCallee (a : App) (callee : UserRef × UserSession) (pipeline : Nat) (sdpOffer : Option String)
    (throws : Option Stage) : Outcome App Failure :=
  let calleeEp : CallEndpoint := ⟨pipeline, .callee⟩
  andThen (a.lift (a.handler.setWebRtcEndpoint kurento callee.1 calleeEp)) fun a =>
  let a := a.addIceCandidateFoundListener (.call calleeEp) callee.2.session
  match sdpOffer with
  | none => (a, some .nullPointer)
  | some sdp =>
    andThen (a.lift (a.handler.answer kurento callee.1 calleeEp (some sdp) .startCommunication .startCommunication
      throws)) fun a => a.lift (a.handler.reach .calleeCandidates throws)

/-- The listener for the caller is put on the endpoint of the callee. -/
def connectCaller (a : App) (calleer : UserRef × UserSession) (pipeline : Nat) (throws : Option Stage) :
    Outcome App Failure :=
  let callerEp : CallEndpoint := ⟨pipeline, .caller⟩
  andThen (a.lift (a.handler.setWebRtcEndpoint kurento calleer.1 callerEp)) fun a =>
  let a := a.addIceCandidateFoundListener (.call ⟨pipeline, .callee⟩) calleer.2.session
  andThen (a.lift (a.handler.answer kurento calleer.1 callerEp ((a.handler.heap[calleer.1]?).bind UserSession.sdpOffer)
    (fun sdpAnswer => .callResponse "accepted" none (some sdpAnswer)) .callResponse throws)) fun a =>
  a.lift (a.handler.reach .callerCandidates throws)

def accept (a : App) (calleer : UserRef × UserSession) (callee : Option (UserRef × UserSession))
    (sdpOffer : Option String) (throws : Option Stage) : Outcome App Failure :=
  andThen (a.lift (a.handler.reach .pipeline throws)) fun a =>
  match callee with
  | none =>
    ({ a with handler := { a.handler with
        built := a.handler.built + 1
        pipelines := a.handler.pipelines.insert calleer.2.session a.handler.built } }, some .nullPointer)
  | some callee =>
    andThen (connectCallee kurento { a with handler := a.handler.enter calleer.2 callee.2 } callee a.handler.built
      sdpOffer throws) fun a' => a'.connectCaller kurento calleer a.handler.built throws

def incomingCallResponse (a : App) (callee : Option UserRef) (response callerName sdpOffer : Option String)
    (throws : Option Stage) (delivered : Bool) : Outcome App Failure :=
  match response, (callerName.bind a.handler.usersByName.lookup).bind a.handler.withUser with
  | some response, some calleer =>
    if response = "accept" then a.accept kurento calleer (callee.bind a.handler.withUser) sdpOffer throws
    else a.lift (a.handler.sendMessage (.user calleer.1) (.callResponse "rejected" none none) delivered)
  | _, _ => (a, some .nullPointer)

def playRecording (a : App) (u : UserRef) (session : String) (sdpOffer : Option String)
    (throws : Option Stage) : Outcome App Failure :=
  andThen (a.lift (a.handler.reach .pipeline throws)) fun a =>
  let pipeline := a.handler.built
  let a := addIceCandidateFoundListener { a with
    handler := ({ a.handler with built := a.handler.built + 1 } : Handler).modify u fun user =>
      { user with playingWebRtcEndpoint := some ⟨pipeline⟩ } } (.play ⟨pipeline⟩) session
  match sdpOffer with
  | none => (a, some .nullPointer)
  | some sdp =>
    match kurento.processOffer (.play ⟨pipeline⟩) (some sdp) with
    | none => (a, some .kurento)
    | some sdpAnswer =>
      andThen (a.lift (a.handler.reach .player throws)) fun a =>
      andThen (a.lift ((a.handler.startPlayer session pipeline).reach .playResponse throws)) fun a =>
      a.lift ((a.handler.send (.user u) (.playResponse "accepted" none (some sdpAnswer))).reach .playCandidates throws)

def play (a : App) (player : Option UserRef) (userName sdpOffer : Option String) (throws : Option Stage)
    (delivered : Bool) : Outcome App Failure :=
  match player.bind a.handler.withUser, userName with
  | some (u, user), some userName =>
    if (a.handler.usersByName.lookup userName).isSome ∧ (a.handler.usersBySessionId.lookup user.session).isSome then
      a.playRecording kurento u user.session sdpOffer throws
    else
      a.lift (a.handler.sendMessage (.user u) (.playResponse "rejected" (some ("No recording for user '" ++ userName ++
        "'. Please type a correct user in the 'Peer' field.")) none) delivered)
  | _, _ => (a, some .nullPointer)

end

/-- The listeners send the candidate on; that a message does not go out is logged. -/
def candidateFound (a : App) (e : Endpoint) (candidate : IceCandidate) (delivered : String → Bool) : App :=
  { a with forwarded := a.forwarded ++
      (a.listeners.filter fun l => l.1 = e && delivered l.2).map fun l => (l.1, l.2, candidate) }

def removeBySession (a : App) (session : String) : App :=
  match (a.handler.usersBySessionId.lookup session).bind a.handler.withUser with
  | none => a
  | some (_, user) =>
    { a with handler := { a.handler with
        usersByName := a.handler.usersByName.erase user.name
        usersBySessionId := a.handler.usersBySessionId.erase session } }

/-- If the other user cannot be told, the user stays in the registry. -/
def afterConnectionClosed (a : App) (session : String) (delivered : Bool) : Outcome App Failure :=
  let a := { a with closed := session :: a.closed }
  andThen (a.lift (a.handler.stop session delivered)) fun a => (a.removeBySession session, none)

end App

inductive Event where
  /-- A message of a user, or the end or an error of a player. -/
  | message (e : CallRecording.Event)
  | candidateFound (e : Endpoint) (candidate : IceCandidate) (delivered : String → Bool)
  | afterConnectionClosed (session : String) (delivered : Bool)

section
variable (kurento : Kurento)

def handle (a : App) : Event → Outcome App Failure
  | .message (.incomingCallResponse session response callerName sdpOffer throws delivered) =>
    a.incomingCallResponse kurento (a.handler.usersBySessionId.lookup session) response callerName sdpOffer throws
      delivered
  | .message (.play session userName sdpOffer throws delivered) =>
    a.play kurento (a.handler.usersBySessionId.lookup session) userName sdpOffer throws delivered
  | .message e => a.lift (CallRecording.handle kurento a.handler e)
  | .candidateFound e candidate delivered => (a.candidateFound e candidate delivered, none)
  | .afterConnectionClosed session delivered => a.afterConnectionClosed session delivered

def step (a : App) (e : Event) : App := (handle kurento a e).1

end

/-! ## Without the listeners, the application with recording -/

def forget (q : Outcome App Failure) : Outcome Handler Failure := (q.1.handler, q.2)

theorem forget_andThen {q : Outcome App Failure} {q' : Outcome Handler Failure}
    {f : App → Outcome App Failure} {f' : Handler → Outcome Handler Failure} (hq : forget q = q')
    (hf : ∀ a, forget (f a) = f' a.handler) : forget (andThen q f) = andThen q' f' := by
  subst hq
  obtain ⟨a, failure⟩ := q
  cases failure with
  | none => exact hf a
  | some failure => rfl

section
variable (kurento : Kurento)

theorem forget_connectCallee (a : App) (callee : UserRef × UserSession) (pipeline : Nat) (sdpOffer : Option String)
    (throws : Option Stage) :
    forget (a.connectCallee kurento callee pipeline sdpOffer throws) =
      a.handler.connectCallee kurento callee.1 pipeline sdpOffer throws := by
  refine forget_andThen rfl fun a => ?_
  cases sdpOffer with
  | none => rfl
  | some sdp => exact forget_andThen rfl fun a => rfl

theorem forget_connectCaller (a : App) (calleer : UserRef × UserSession) (pipeline : Nat) (throws : Option Stage) :
    forget (a.connectCaller kurento calleer pipeline throws) =
      a.handler.connectCaller kurento calleer.1 pipeline throws := by
  refine forget_andThen rfl fun a => ?_
  exact forget_andThen rfl fun a => rfl

theorem forget_accept (a : App) (calleer : UserRef × UserSession) (callee : Option (UserRef × UserSession))
    (sdpOffer : Option String) (throws : Option Stage) :
    forget (a.accept kurento calleer callee sdpOffer throws) =
      a.handler.accept kurento calleer callee sdpOffer throws := by
  refine forget_andThen rfl fun a => ?_
  cases callee with
  | none => rfl
  | some callee =>
    exact forget_andThen (forget_connectCallee kurento _ callee _ sdpOffer throws) fun a' =>
      forget_connectCaller kurento a' calleer _ throws

theorem forget_incomingCallResponse (a : App) (callee : Option UserRef)
    (response callerName sdpOffer : Option String) (throws : Option Stage) (delivered : Bool) :
    forget (a.incomingCallResponse kurento callee response callerName sdpOffer throws delivered) =
      a.handler.incomingCallResponse kurento callee response callerName sdpOffer throws delivered := by
  unfold App.incomingCallResponse Handler.incomingCallResponse
  generalize (callerName.bind fun name => a.handler.usersByName.lookup name).bind a.handler.withUser = calleer
  cases response with
  | none => rfl
  | some response =>
    cases calleer with
    | none => rfl
    | some calleer =>
      dsimp only
      split
      · exact forget_accept kurento a _ _ sdpOffer throws
      · rfl

theorem forget_playRecording (a : App) (u : UserRef) (session : String) (sdpOffer : Option String)
    (throws : Option Stage) :
    forget (a.playRecording kurento u session sdpOffer throws) =
      a.handler.playRecording kurento u session sdpOffer throws := by
  refine forget_andThen rfl fun a => ?_
  cases sdpOffer with
  | none => rfl
  | some sdp =>
    dsimp only
    cases kurento.processOffer (.play ⟨a.handler.built⟩) (some sdp) with
    | none => rfl
    | some sdpAnswer =>
      refine forget_andThen rfl fun a => ?_
      exact forget_andThen rfl fun a => rfl

theorem forget_play (a : App) (player : Option UserRef) (userName sdpOffer : Option String)
    (throws : Option Stage) (delivered : Bool) :
    forget (a.play kurento player userName sdpOffer throws delivered) =
      a.handler.play kurento player userName sdpOffer throws delivered := by
  unfold App.play Handler.play
  generalize player.bind a.handler.withUser = user
  cases user with
  | none => rfl
  | some user =>
    cases userName with
    | none => rfl
    | some userName =>
      dsimp only
      split
      · exact forget_playRecording kurento a _ _ sdpOffer throws
      · rfl

/-- A message is handled as in the application with recording. -/
theorem forget_message (a : App) (e : CallRecording.Event) :
    forget (handle kurento a (.message e)) = CallRecording.handle kurento a.handler e := by
  cases e with
  | incomingCallResponse session response callerName sdpOffer throws delivered =>
    exact forget_incomingCallResponse kurento a _ response callerName sdpOffer throws delivered
  | play session userName sdpOffer throws delivered =>
    exact forget_play kurento a _ userName sdpOffer throws delivered
  | _ => rfl

end

/-! ## The candidates of the caller's endpoint -/

/-- The endpoint is that of the caller in a call. -/
def OfCaller : Endpoint → Prop
  | .call e => e.side = .caller
  | .play _ => False

/-- `Q` does not look at the handler, and it allows the listeners that are put on other endpoints. -/
structure Listening (Q : App → Prop) : Prop where
  handler : ∀ a handler, Q a → Q { a with handler := handler }
  listener : ∀ a e session, ¬ OfCaller e → Q a → Q (a.addIceCandidateFoundListener e session)

namespace Listening

variable {Q : App → Prop} (hQ : Listening Q) (kurento : Kurento) {a : App}
include hQ

theorem connectCallee (h : Q a) (callee : UserRef × UserSession) (pipeline : Nat) (sdpOffer : Option String)
    (throws : Option Stage) : Q (a.connectCallee kurento callee pipeline sdpOffer throws).1 := by
  refine andThen_invariant _ _ (hQ.handler a _ h) fun a₁ h₁ => ?_
  have hlistens : Q (a₁.addIceCandidateFoundListener (.call ⟨pipeline, .callee⟩) callee.2.session) :=
    hQ.listener a₁ _ _ (by intro hside; cases hside) h₁
  cases sdpOffer with
  | none => exact hlistens
  | some sdp => exact andThen_invariant _ _ (hQ.handler _ _ hlistens) fun a₂ h₂ => hQ.handler a₂ _ h₂

theorem connectCaller (h : Q a) (calleer : UserRef × UserSession) (pipeline : Nat) (throws : Option Stage) :
    Q (a.connectCaller kurento calleer pipeline throws).1 := by
  refine andThen_invariant _ _ (hQ.handler a _ h) fun a₁ h₁ => ?_
  have hlistens : Q (a₁.addIceCandidateFoundListener (.call ⟨pipeline, .callee⟩) calleer.2.session) :=
    hQ.listener a₁ _ _ (by intro hside; cases hside) h₁
  exact andThen_invariant _ _ (hQ.handler _ _ hlistens) fun a₂ h₂ => hQ.handler a₂ _ h₂

theorem accept (h : Q a) (calleer : UserRef × UserSession) (callee : Option (UserRef × UserSession))
    (sdpOffer : Option String) (throws : Option Stage) : Q (a.accept kurento calleer callee sdpOffer throws).1 := by
  refine andThen_invariant _ _ (hQ.handler a _ h) fun a₁ h₁ => ?_
  cases callee with
  | none => exact hQ.handler a₁ _ h₁
  | some callee =>
    refine andThen_invariant _ _ (hQ.connectCallee kurento (hQ.handler a₁ _ h₁) callee _ sdpOffer throws)
      fun a₂ h₂ => ?_
    exact hQ.connectCaller kurento h₂ calleer _ throws

theorem playRecording (h : Q a) (u : UserRef) (session : String) (sdpOffer : Option String)
    (throws : Option Stage) : Q (a.playRecording kurento u session sdpOffer throws).1 := by
  refine andThen_invariant _ _ (hQ.handler a _ h) fun a₁ h₁ => ?_
  have hlistens : ∀ handler, Q (App.addIceCandidateFoundListener { a₁ with handler := handler }
      (.play ⟨a₁.handler.built⟩) session) :=
    fun handler => hQ.listener _ _ _ (fun hside => hside) (hQ.handler a₁ handler h₁)
  cases sdpOffer with
  | none => exact hlistens _
  | some sdp =>
    dsimp only
    split
    · exact hlistens _
    · refine andThen_invariant _ _ (hQ.handler _ _ (hlistens _)) fun a₂ h₂ => ?_
      exact andThen_invariant _ _ (hQ.handler a₂ _ h₂) fun a₃ h₃ => hQ.handler a₃ _ h₃

theorem message (h : Q a) (e : CallRecording.Event) : Q (step kurento a (.message e)) := by
  cases e with
  | incomingCallResponse session response callerName sdpOffer throws delivered =>
    show Q (a.incomingCallResponse kurento _ response callerName sdpOffer throws delivered).1
    unfold App.incomingCallResponse
    split
    · split
      · exact hQ.accept kurento h _ _ sdpOffer throws
      · exact hQ.handler a _ h
    · exact h
  | play session userName sdpOffer throws delivered =>
    show Q (a.play kurento _ userName sdpOffer throws delivered).1
    unfold App.play
    split
    · split
      · exact hQ.playRecording kurento h _ _ sdpOffer throws
      · exact hQ.handler a _ h
    · exact h
  | _ => exact hQ.handler a _ h

theorem removeBySession (h : Q a) (session : String) : Q (a.removeBySession session) := by
  unfold App.removeBySession
  split
  · exact h
  · exact hQ.handler a _ h

/-- A connection has closed, and its session is already among the closed ones. -/
theorem afterConnectionClosed (session : String) (delivered : Bool) (h : Q { a with closed := session :: a.closed }) :
    Q (a.afterConnectionClosed session delivered).1 :=
  andThen_invariant _ _ (hQ.handler _ _ h) fun _ h₁ => hQ.removeBySession h₁ session

end Listening

/-- Nobody listens to the endpoint of a caller, and nothing has come from one. -/
structure Deaf (a : App) : Prop where
  listeners : ∀ l ∈ a.listeners, ¬ OfCaller l.1
  forwarded : ∀ f ∈ a.forwarded, ¬ OfCaller f.1

theorem deaf_listening : Listening Deaf where
  handler _ _ h := ⟨h.listeners, h.forwarded⟩
  listener a e session he h := by
    refine ⟨fun l hl => ?_, h.forwarded⟩
    rcases List.mem_append.mp hl with hl | hl
    · exact h.listeners l hl
    · obtain rfl := List.mem_singleton.mp hl
      exact he

theorem candidateFound_deaf {a : App} (h : Deaf a) (e : Endpoint) (candidate : IceCandidate)
    (delivered : String → Bool) : Deaf (a.candidateFound e candidate delivered) := by
  refine ⟨h.listeners, fun f hf => ?_⟩
  rcases List.mem_append.mp hf with hf | hf
  · exact h.forwarded f hf
  · obtain ⟨l, hl, rfl⟩ := List.mem_map.mp hf
    exact h.listeners l (List.mem_of_mem_filter hl)

theorem step_deaf (kurento : Kurento) (a : App) (e : Event) (h : Deaf a) : Deaf (step kurento a e) := by
  cases e with
  | message e => exact deaf_listening.message kurento h e
  | candidateFound e candidate delivered => exact candidateFound_deaf h e candidate delivered
  | afterConnectionClosed session delivered =>
    exact deaf_listening.afterConnectionClosed session delivered ⟨h.listeners, h.forwarded⟩

/-- In no run does any session get a candidate that Kurento has found for the caller of a call: what
goes out has been found by the endpoint of a callee or of a playback. -/
theorem run_forwards_no_caller_candidate (kurento : Kurento) (events : List Event) :
    ∀ f ∈ (run (step kurento) App.init events).forwarded, ¬ OfCaller f.1 :=
  (run_invariant (step_deaf kurento) App.init events ⟨fun _ hl => (by cases hl), fun _ hf => by cases hf⟩).forwarded

/-- Kurento takes every candidate and every offer. -/
def willing : Kurento := ⟨fun _ _ => true, fun _ _ => some "answer"⟩

/-- Anna calls Ben, who accepts. -/
def accepted : List Event :=
  [.message (.register "s1" (some "anna") true), .message (.register "s2" (some "ben") true),
    .message (.call "s1" (some "ben") (some "anna") (some "offer") true),
    .message (.incomingCallResponse "s2" (some "accept") (some "anna") (some "offer") none true)]

/-- Each endpoint of a call finds a candidate, and only that of the callee's goes out, to both users. -/
theorem run_forwards_no_caller_candidate_accepted :
    let candidate : IceCandidate := ⟨"c", "0", 0⟩
    let a := run (step willing) App.init (accepted ++
      [.candidateFound (.call ⟨0, .caller⟩) candidate fun _ => true,
        .candidateFound (.call ⟨0, .callee⟩) candidate fun _ => true])
    a.forwarded = [(.call ⟨0, .callee⟩, "s2", candidate), (.call ⟨0, .callee⟩, "s1", candidate)] ∧
      ¬ OfCaller (.call ⟨0, .callee⟩) :=
  ⟨by decide +kernel, run_forwards_no_caller_candidate willing (accepted ++
    [.candidateFound (.call ⟨0, .caller⟩) ⟨"c", "0", 0⟩ fun _ => true,
      .candidateFound (.call ⟨0, .callee⟩) ⟨"c", "0", 0⟩ fun _ => true])
    (.call ⟨0, .callee⟩, "s2", ⟨"c", "0", 0⟩) (by decide +kernel)⟩

/-! ## What a message changes -/

/-- `P` survives all that a message of session `x` does: the pipeline it releases is that of the
session, or one that is `free`. -/
structure Steady (x : String) (free : Nat → Prop) (P : Handler → Prop) : Prop extends Lasting x P where
  owned : ∀ h, P h → Owned h
  drop : ∀ h, P h → P (h.dropPipeline x)
  playbackEnds : ∀ (h : Handler) pipeline, P h → P { h with playbacks := h.playbacks.erase pipeline }
  release : ∀ (h : Handler) pipeline, free pipeline → P h → P { h with released := h.released ++ [pipeline] }

namespace Steady

variable {x : String} {free : Nat → Prop} {P : Handler → Prop} (hP : Steady x free P) {h : Handler}
include hP

theorem releasePipeline (hp : P h) : P (h.releasePipeline (h.usersBySessionId.lookup x)).1 := by
  refine Inert.releasePipeline hP.toInert (fun _ => rfl) _ hp fun q hq => ?_
  obtain ⟨u, hu, huser⟩ := Option.bind_eq_some_iff.mp hq
  obtain ⟨user, hx, rfl⟩ := Option.map_eq_some_iff.mp huser
  have hown := hP.owned h hp x u hu
  rw [hx] at hown
  have hsession : user.session = x := Option.some.inj hown
  rw [hsession]
  exact hP.drop h hp

theorem sendPlayEnd (hp : P h) (session : String) {pipeline : Nat} (hfree : free pipeline) (delivered : Bool) :
    P (h.sendPlayEnd session pipeline delivered) :=
  hP.release _ pipeline hfree (hP.sendMessage hp _ _ _)

end Steady

/-- The session that has sent the message. -/
def sender : CallRecording.Event → Option String
  | .register session _ _ => some session
  | .call session _ _ _ _ => some session
  | .incomingCallResponse session _ _ _ _ _ => some session
  | .play session _ _ _ _ => some session
  | .onIceCandidate session _ => some session
  | .stop session _ => some session
  | .stopPlay session => some session
  | .endOfStream _ _ => none
  | .playerError _ _ => none

/-- The session for which the event is handled. -/
def speaks (h : Handler) : CallRecording.Event → Option String
  | .endOfStream pipeline _ => h.playbacks.lookup pipeline
  | .playerError pipeline _ => h.playbacks.lookup pipeline
  | e => sender e

/-- The player that the event is about. -/
def playerOf : CallRecording.Event → Option Nat
  | .endOfStream pipeline _ => some pipeline
  | .playerError pipeline _ => some pipeline
  | _ => none

theorem Steady.message {x : String} {free : Nat → Prop} {P : Handler → Prop} (hP : Steady x free P)
    (kurento : Kurento) {h : Handler} (hp : P h) (e : CallRecording.Event) (hx : speaks h e = some x)
    (hfree : ∀ pipeline ∈ playerOf e, free pipeline) :
    P (CallRecording.step kurento h e) := by
  cases e with
  | register session name delivered =>
    obtain rfl : session = x := Option.some.inj hx
    exact hP.register hp name delivered
  | call session callee callerName sdpOffer delivered =>
    exact hP.call (fun _ _ _ => rfl) (fun _ _ => rfl) hp _ callee callerName sdpOffer delivered
  | incomingCallResponse session response callerName sdpOffer throws delivered =>
    exact hP.incomingCallResponse kurento hp _ response callerName sdpOffer throws delivered
  | play session userName sdpOffer throws delivered =>
    exact hP.play kurento hp _ userName sdpOffer throws delivered
  | onIceCandidate session candidate => exact hP.onIceCandidate kurento hp session candidate
  | stop session delivered =>
    obtain rfl : session = x := Option.some.inj hx
    refine andThen_invariant _ _ (hP.stop (fun _ => rfl) hp session delivered) fun h' hp' => ?_
    exact hP.releasePipeline hp'
  | stopPlay session =>
    obtain rfl : session = x := Option.some.inj hx
    exact hP.releasePipeline hp
  | endOfStream pipeline delivered =>
    have hsession : h.playbacks.lookup pipeline = some x := hx
    simp only [CallRecording.step, CallRecording.handle, Handler.endOfStream, hsession]
    split
    · exact hp
    · refine andThen_invariant _ _ (hP.releasePipeline (hP.playbackEnds h pipeline hp)) fun h' hp' => ?_
      exact hP.sendPlayEnd hp' x (hfree pipeline rfl) delivered
  | playerError pipeline delivered =>
    have hsession : h.playbacks.lookup pipeline = some x := hx
    simp only [CallRecording.step, CallRecording.handle, Handler.playerError, hsession]
    split
    · exact hp
    · exact hP.sendPlayEnd hp x (hfree pipeline rfl) delivered

theorem speaks_player {h : Handler} {e : CallRecording.Event} {pipeline : Nat} {x : String}
    (he : pipeline ∈ playerOf e) (hx : speaks h e = some x) : h.playbacks.lookup pipeline = some x := by
  cases e with
  | endOfStream pipeline delivered =>
    obtain rfl := Option.mem_some_iff.mp he
    exact hx
  | playerError pipeline delivered =>
    obtain rfl := Option.mem_some_iff.mp he
    exact hx
  | _ => cases he

/-- Without the player there is nothing to handle. -/
theorem step_silent (kurento : Kurento) {h : Handler} {e : CallRecording.Event} (hx : speaks h e = none) :
    CallRecording.step kurento h e = h := by
  cases e with
  | endOfStream pipeline delivered =>
    have hnone : h.playbacks.lookup pipeline = none := hx
    simp only [CallRecording.step, CallRecording.handle, Handler.endOfStream, hnone]
  | playerError pipeline delivered =>
    have hnone : h.playbacks.lookup pipeline = none := hx
    simp only [CallRecording.step, CallRecording.handle, Handler.playerError, hnone]
  | _ => cases hx

/-! ## Users are found by their own session -/

theorem owned_congr {h h' : Handler} (hp : Owned h) (husers : h'.usersBySessionId = h.usersBySessionId)
    (hheap : h'.heap = h.heap) : Owned h' := by
  intro session u hu
  rw [hheap]
  exact hp session u (husers ▸ hu)

theorem dropPipeline_users (h : Handler) (session : String) :
    (h.dropPipeline session).usersBySessionId = h.usersBySessionId ∧ (h.dropPipeline session).heap = h.heap ∧
      (h.dropPipeline session).built = h.built ∧ (h.dropPipeline session).playbacks = h.playbacks := by
  unfold Handler.dropPipeline
  split <;> exact ⟨rfl, rfl, rfl, rfl⟩

theorem owned_steady (x : String) : Steady x (fun _ => True) Owned where
  modify _ u f hf hp := modify_owned u f hf hp
  send _ _ _ hp := owned_congr hp rfl rfl
  owned _ hp := hp
  candidates _ _ _ hp := owned_congr hp rfl rfl
  newUser _ name hp := newUser_owned x name hp
  newPipeline _ _ _ hp := owned_congr hp rfl rfl
  newPlayer _ _ _ hp := owned_congr hp rfl rfl
  drop h hp := owned_congr hp (dropPipeline_users h x).1 (dropPipeline_users h x).2.1
  playbackEnds _ _ hp := owned_congr hp rfl rfl
  release _ _ _ hp := owned_congr hp rfl rfl

theorem removeBySession_owned {a : App} (session : String) (hp : Owned a.handler) :
    Owned (a.removeBySession session).handler := by
  unfold App.removeBySession
  split
  · exact hp
  · exact fun y u hu => hp y u (lookup_remove_eq_some.mp hu).2

theorem step_handler (kurento : Kurento) (a : App) (e : CallRecording.Event) :
    (step kurento a (.message e)).handler = CallRecording.step kurento a.handler e :=
  congrArg Prod.fst (forget_message kurento a e)

theorem step_owned (kurento : Kurento) (a : App) (e : Event) (hp : Owned a.handler) :
    Owned (step kurento a e).handler := by
  cases e with
  | message e =>
    rw [step_handler]
    cases hx : speaks a.handler e with
    | some x => exact (owned_steady x).message kurento hp e hx fun _ _ => trivial
    | none =>
      rw [step_silent kurento hx]
      exact hp
  | candidateFound e candidate delivered => exact hp
  | afterConnectionClosed session delivered =>
    refine andThen_invariant (I := fun a : App => Owned a.handler) _ _ ?_ fun a₁ hp₁ =>
      removeBySession_owned session hp₁
    exact (owned_steady session).stop (fun _ => rfl) hp session delivered

/-! ## Pipelines of closed connections -/

/-- What is handled for session `x` has left a pipeline `p` as it was in `h₀`: it has not been
released, and neither a session nor a playback has got it. -/
structure Spares (p : Nat) (x : String) (h₀ h : Handler) : Prop where
  built : p < h.built
  playback : h.playbacks.lookup p = none
  released : h.released.count p = h₀.released.count p
  entries : ∀ y, h.pipelines.lookup y = some p → y ≠ x ∧ h₀.pipelines.lookup y = some p
  users : ∀ y, y ≠ x → h.usersBySessionId.lookup y = h₀.usersBySessionId.lookup y
  owned : Owned h

section
variable {p : Nat} {x : String} {h₀ h : Handler}

theorem spares_drop (hs : Spares p x h₀ h) : Spares p x h₀ (h.dropPipeline x) := by
  obtain ⟨husers, hheap, hbuilt, hplaybacks⟩ := dropPipeline_users h x
  have hother : (h.pipelines.lookup x).toList.count p = 0 := by
    rw [List.count_eq_zero, Option.mem_toList]
    exact fun hp => (hs.entries x hp).1 rfl
  refine ⟨hbuilt ▸ hs.built, hplaybacks ▸ hs.playback, ?_, fun y hy => ?_, fun y hy => ?_,
    owned_congr hs.owned husers hheap⟩
  · rw [dropPipeline_released, List.count_append, hother]
    exact hs.released
  · rw [dropPipeline_pipelines] at hy
    exact hs.entries y (lookup_remove_eq_some.mp hy).2
  · rw [husers]
    exact hs.users y hy

theorem spares_player (hs : Spares p x h₀ h) (session : String) :
    Spares p x h₀ (({ h with built := h.built + 1 } : Handler).startPlayer session h.built) := by
  have hne : p ≠ h.built := Nat.ne_of_lt hs.built
  refine ⟨Nat.lt_succ_of_lt hs.built, ?_, hs.released, fun y hy => ?_, hs.users, owned_congr hs.owned rfl rfl⟩
  · show (h.playbacks.insert h.built session).lookup p = none
    rw [lookup_put, if_neg hne]
    exact hs.playback
  · have hput : (h.pipelines.insert session h.built).lookup y = some p := hy
    rw [lookup_put] at hput
    split at hput
    · exact absurd (Option.some.inj hput).symm hne
    · exact hs.entries y hput

theorem spares_steady (p : Nat) (x : String) (h₀ : Handler) : Steady x (· ≠ p) (Spares p x h₀) where
  modify _ u f hf hs :=
    ⟨hs.built, hs.playback, hs.released, hs.entries, hs.users, modify_owned u f hf hs.owned⟩
  send _ _ _ hs := ⟨hs.built, hs.playback, hs.released, hs.entries, hs.users, owned_congr hs.owned rfl rfl⟩
  owned _ hs := hs.owned
  candidates _ _ _ hs := ⟨hs.built, hs.playback, hs.released, hs.entries, hs.users, owned_congr hs.owned rfl rfl⟩
  newUser h name hs := by
    refine ⟨hs.built, hs.playback, hs.released, hs.entries, fun y hy => ?_, newUser_owned x name hs.owned⟩
    rw [lookup_put, if_neg hy]
    exact hs.users y hy
  newPipeline h table htable hs := by
    refine ⟨Nat.lt_succ_of_lt hs.built, hs.playback, hs.released, fun y hy => ?_, hs.users,
      owned_congr hs.owned rfl rfl⟩
    rcases htable y p hy with hnew | hold
    · exact absurd hnew (Nat.ne_of_lt hs.built)
    · exact hs.entries y hold
  newPlayer _ session _ hs := spares_player hs session
  drop _ hs := spares_drop hs
  playbackEnds h pipeline hs := by
    refine ⟨hs.built, ?_, hs.released, hs.entries, hs.users, owned_congr hs.owned rfl rfl⟩
    show (h.playbacks.erase pipeline).lookup p = none
    rw [lookup_remove]
    split
    · rfl
    · exact hs.playback
  release h pipeline hne hs := by
    refine ⟨hs.built, hs.playback, ?_, hs.entries, hs.users, owned_congr hs.owned rfl rfl⟩
    show (h.released ++ [pipeline]).count p = h₀.released.count p
    rw [List.count_append, List.count_singleton, if_neg (by simpa using hne)]
    exact hs.released

end

/-- Every session that has the pipeline has closed its connection and given up its name, and no
player plays on it. -/
structure Abandoned (p : Nat) (a : App) : Prop where
  built : p < a.handler.built
  playback : a.handler.playbacks.lookup p = none
  entries : ∀ y, a.handler.pipelines.lookup y = some p →
    y ∈ a.closed ∧ a.handler.usersBySessionId.lookup y = none

/-- The session whose connection the event comes from. -/
def Event.session : Event → Option String
  | .message e => sender e
  | .afterConnectionClosed session _ => some session
  | .candidateFound _ _ _ => none

/-- Nothing comes from a connection that has closed. -/
def Live (a : App) (e : Event) : Prop := ∀ x ∈ e.session, x ∉ a.closed

instance decidableLive (a : App) (e : Event) : Decidable (Live a e) :=
  inferInstanceAs (Decidable (∀ x ∈ e.session, x ∉ a.closed))

section
variable {p : Nat} {a : App}

theorem Abandoned.spares (h : Abandoned p a) (ho : Owned a.handler) {x : String}
    (hx : x ∉ a.closed ∨ a.handler.usersBySessionId.lookup x ≠ none) : Spares p x a.handler a.handler := by
  refine ⟨h.built, h.playback, rfl, fun y hy => ⟨?_, hy⟩, fun _ _ => rfl, ho⟩
  rintro rfl
  obtain ⟨hclosed, hnone⟩ := h.entries y hy
  rcases hx with hx | hx
  · exact hx hclosed
  · exact hx hnone

theorem Spares.abandoned {x : String} {a' : App} (hs : Spares p x a.handler a'.handler) (h : Abandoned p a)
    (hclosed : a.closed ⊆ a'.closed) : Abandoned p a' := by
  refine ⟨hs.built, hs.playback, fun y hy => ?_⟩
  obtain ⟨hne, hold⟩ := hs.entries y hy
  obtain ⟨hmem, hnone⟩ := h.entries y hold
  exact ⟨hclosed hmem, (hs.users y hne).trans hnone⟩

theorem closed_listening (sessions : List String) : Listening fun a : App => a.closed = sessions :=
  ⟨fun _ _ h => h, fun _ _ _ _ h => h⟩

theorem sendPlayEnd_eq (h : Handler) (session : String) (pipeline : Nat) (delivered : Bool) :
    ∃ sent, h.sendPlayEnd session pipeline delivered =
      { h with sent := sent, released := h.released ++ [pipeline] } := by
  unfold Handler.sendPlayEnd Handler.sendMessage
  split
  · exact ⟨_, rfl⟩
  · exact ⟨h.sent, rfl⟩

/-- An event whose user is gone ends a playback at most, and does not touch another pipeline. -/
theorem player_abandoned (kurento : Kurento) {h : Handler} (hplayback : h.playbacks.lookup p = none)
    {e : CallRecording.Event} {pipeline : Nat} {x : String} (he : pipeline ∈ playerOf e)
    (hx : h.playbacks.lookup pipeline = some x) (hu : h.usersBySessionId.lookup x = none) :
    let h' := CallRecording.step kurento h e
    h'.built = h.built ∧ h'.playbacks.lookup p = none ∧ h'.pipelines = h.pipelines ∧
      h'.usersBySessionId = h.usersBySessionId ∧ h'.released.count p = h.released.count p := by
  have hne : pipeline ≠ p := by
    rintro rfl
    cases hplayback.symm.trans hx
  cases e with
  | endOfStream pipeline delivered =>
    obtain rfl := Option.mem_some_iff.mp he
    simp only [CallRecording.step, CallRecording.handle, Handler.endOfStream, hx]
    split
    · exact ⟨rfl, hplayback, rfl, rfl, rfl⟩
    · -- the listener throws before it releases anything
      simp only [hu, Handler.releasePipeline, Option.bind_none, andThen_failed]
      refine ⟨trivial, ?_, trivial, trivial, trivial⟩
      rw [lookup_remove, hplayback, ite_self]
  | playerError pipeline delivered =>
    obtain rfl := Option.mem_some_iff.mp he
    simp only [CallRecording.step, CallRecording.handle, Handler.playerError, hx]
    split
    · exact ⟨rfl, hplayback, rfl, rfl, rfl⟩
    · obtain ⟨sent, heq⟩ := sendPlayEnd_eq h x pipeline delivered
      rw [heq]
      refine ⟨rfl, hplayback, rfl, rfl, ?_⟩
      rw [List.count_append, List.count_singleton, if_neg (by simpa using hne)]
      rfl
  | _ => cases he

theorem message_abandoned (kurento : Kurento) (h : Abandoned p a) (ho : Owned a.handler) (e : CallRecording.Event)
    (hlive : Live a (.message e)) :
    Abandoned p (step kurento a (.message e)) ∧
      (step kurento a (.message e)).handler.released.count p = a.handler.released.count p := by
  have hclosed : (step kurento a (.message e)).closed = a.closed :=
    (closed_listening a.closed).message kurento rfl e
  cases hx : speaks a.handler e with
  | none =>
    have hsame := step_silent kurento hx
    refine ⟨⟨?_, ?_, ?_⟩, ?_⟩ <;> rw [step_handler, hsame]
    · exact h.built
    · exact h.playback
    · rw [hclosed]
      exact h.entries
  | some x =>
    by_cases hopen : x ∉ a.closed ∨ a.handler.usersBySessionId.lookup x ≠ none
    · have hspares : Spares p x a.handler (step kurento a (.message e)).handler := by
        rw [step_handler]
        refine (spares_steady p x a.handler).message kurento (h.spares ho hopen) e hx fun pipeline he => ?_
        rintro rfl
        have hplays : a.handler.playbacks.lookup pipeline = some x := speaks_player he hx
        cases h.playback.symm.trans hplays
      exact ⟨hspares.abandoned h (hclosed ▸ List.Subset.refl _), hspares.released⟩
    · -- only a player can still speak for a session that is gone
      simp only [not_or, not_not] at hopen
      obtain ⟨hgone, hu⟩ := hopen
      obtain ⟨pipeline, he⟩ : ∃ pipeline, pipeline ∈ playerOf e := by
        cases e with
        | endOfStream pipeline delivered => exact ⟨pipeline, rfl⟩
        | playerError pipeline delivered => exact ⟨pipeline, rfl⟩
        | _ => exact absurd hgone (hlive x hx)
      obtain ⟨hbuilt, hplayback, hpipelines, husers, hcount⟩ :=
        player_abandoned kurento h.playback he (speaks_player he hx) hu
      refine ⟨⟨?_, ?_, ?_⟩, ?_⟩ <;> rw [step_handler]
      · exact hbuilt ▸ h.built
      · exact hplayback
      · rw [hclosed, hpipelines, husers]
        exact h.entries
      · exact hcount

theorem removeBySession_spares {x : String} {h₀ : Handler} (hs : Spares p x h₀ a.handler) :
    Spares p x h₀ (a.removeBySession x).handler := by
  have ho := removeBySession_owned x hs.owned
  unfold App.removeBySession at ho ⊢
  split
  · exact hs
  · next hfound =>
    rw [hfound] at ho
    refine ⟨hs.built, hs.playback, hs.released, hs.entries, fun y hy => ?_, ho⟩
    show (a.handler.usersBySessionId.erase x).lookup y = h₀.usersBySessionId.lookup y
    rw [lookup_remove, if_neg hy]
    exact hs.users y hy

theorem closed_abandoned (h : Abandoned p a) (ho : Owned a.handler) (session : String) (delivered : Bool)
    (hlive : session ∉ a.closed) :
    Abandoned p (a.afterConnectionClosed session delivered).1 ∧
      (a.afterConnectionClosed session delivered).1.handler.released.count p = a.handler.released.count p := by
  have hclosed : (a.afterConnectionClosed session delivered).1.closed = session :: a.closed :=
    (closed_listening (session :: a.closed)).afterConnectionClosed session delivered rfl
  have hspares : Spares p session a.handler (a.afterConnectionClosed session delivered).1.handler := by
    refine andThen_invariant (I := fun a₁ : App => Spares p session a.handler a₁.handler) _ _ ?_ fun a₁ hs₁ => ?_
    · exact (spares_steady p session a.handler).stop (fun _ => rfl) (h.spares ho (.inl hlive)) session delivered
    · exact removeBySession_spares hs₁
  exact ⟨hspares.abandoned h (hclosed ▸ List.subset_cons_self _ _), hspares.released⟩

end

theorem step_abandoned {p : Nat} (kurento : Kurento) (a : App) (e : Event) (hlive : Live a e)
    (h : Abandoned p a) (ho : Owned a.handler) :
    Abandoned p (step kurento a e) ∧
      (step kurento a e).handler.released.count p = a.handler.released.count p := by
  cases e with
  | message e => exact message_abandoned kurento h ho e hlive
  | candidateFound e candidate delivered => exact ⟨⟨h.built, h.playback, h.entries⟩, rfl⟩
  | afterConnectionClosed session delivered => exact closed_abandoned h ho session delivered (hlive session rfl)

/-- Once all sessions that had a pipeline have closed their connections, nothing that the others do
releases it any more. -/
theorem abandoned_pipeline_is_never_released (kurento : Kurento) (events later : List Event) (p : Nat)
    (habandoned : Abandoned p (run (step kurento) App.init events))
    (hlive : Along (step kurento) Live (run (step kurento) App.init events) later) :
    (run (step kurento) App.init (events ++ later)).handler.released.count p =
      (run (step kurento) App.init events).handler.released.count p := by
  have howned : Owned (run (step kurento) App.init events).handler :=
    run_invariant (I := fun a : App => Owned a.handler) (step_owned kurento) App.init events
      fun _ _ hu => by cases hu
  rw [run_append]
  generalize run (step kurento) App.init events = a at habandoned hlive howned
  have hlater := throughout_of_along (I := fun b : App => Abandoned p b ∧ Owned b.handler ∧
      b.handler.released.count p = a.handler.released.count p) (fun b e hb he => ?_) a later
      ⟨habandoned, howned, rfl⟩ hlive
  · exact hlater.run.2.2
  · obtain ⟨hnext, hcount⟩ := step_abandoned kurento b e he hb.1 hb.2.1
    exact ⟨hnext, step_owned kurento b e hb.2.1, hcount.trans hb.2.2⟩

/-- Both users of a call close their connections. -/
def bothClosed : List Event := accepted ++ [.afterConnectionClosed "s1" true, .afterConnectionClosed "s2" true]

theorem bothClosed_abandoned : Abandoned 0 (run (step willing) App.init bothClosed) := by
  have hkeys : ∀ y ∈ (run (step willing) App.init bothClosed).handler.pipelines.keys,
      y ∈ (run (step willing) App.init bothClosed).closed ∧
        (run (step willing) App.init bothClosed).handler.usersBySessionId.lookup y = none := by
    decide +kernel
  refine ⟨by decide +kernel, by decide +kernel, fun y hy => hkeys y ?_⟩
  exact AList.mem_keys.mp (AList.lookup_isSome.mp (by rw [hy]; rfl))

/-- A third user registers and plays what was recorded; the pipeline of the call stays. -/
theorem abandoned_pipeline_is_never_released_closed :
    (run (step willing) App.init (bothClosed ++ [.message (.register "s3" (some "carl") true),
      .message (.play "s3" (some "carl") (some "offer") none true), .message (.endOfStream 1 true)])).handler.released.count 0
      = (run (step willing) App.init bothClosed).handler.released.count 0 :=
  abandoned_pipeline_is_never_released willing bothClosed _ 0 bothClosed_abandoned
    (by decide +kernel)

end FilteringCalls

import SpringStudy.Tables
import SpringStudy.Outcomes
import SpringStudy.Runs

/-!
# Video calls between two users

The handler of the one-to-one call. `UserSession` and `CallMediaPipeline` are
objects: a `UserRef` is a place in `heap`, and pipelines are numbered. The
registry finds a user by name and by web socket session; a session that
registers a second name leaves the object of the first in the map of names.
A message is one step. Sockets and Kurento may throw; what a method has done
before stays.
-/
namespace OneToOne

open Tables Outcomes

structure IceCandidate where
  candidate : String
  sdpMid : String
  sdpMLineIndex : Nat
  deriving DecidableEq, Repr

inductive Side where
  | caller
  | callee
  deriving DecidableEq, Repr

/-- An endpoint of a `CallMediaPipeline`. -/
structure Endpoint where
  pipeline : Nat
  side : Side
  deriving DecidableEq, Repr

abbrev UserRef := Nat

structure UserSession where
  name : String
  /-- The id of the web socket session. -/
  session : String
  sdpOffer : Option String
  callingTo : Option String
  callingFrom : Option String
  webRtcEndpoint : Option Endpoint
  candidateList : List IceCandidate
  deriving DecidableEq, Repr

inductive ResponseId where
  | registerResponse
  | callResponse
  deriving DecidableEq, Repr

/-- How a handler ends when it does not end normally. -/
inductive Failure where
  | nullPointer
  /-- A message could not be sent. -/
  | io
  | kurento
  deriving DecidableEq, Repr

inductive Message where
  | registerResponse (response : String)
  | incomingCall (caller : String)
  /-- `callResponse` with the given text. -/
  | callResponse (response : String)
  | startCommunication
  | stopCommunication
  /-- The caller gets the callee's own `incomingCallResponse` when the call is not accepted. -/
  | incomingCallResponse (response caller : String)
  | rejected (id : ResponseId) (reason : Failure)
  deriving DecidableEq, Repr

/-- A message goes to a user, through its `UserSession`, or to a session directly. -/
inductive Receiver where
  | user (u : UserRef)
  | session (id : String)
  deriving DecidableEq, Repr

inductive MediaCall where
  | addIceCandidate (e : Endpoint) (candidate : IceCandidate)
  | processOffer (e : Endpoint) (sdp : Option String)
  deriving DecidableEq, Repr

structure Handler where
  usersByName : Table String UserRef
  usersBySessionId : Table String UserRef
  heap : List UserSession
  /-- The `CallMediaPipeline` of a session, by its number. -/
  pipelines : Table String Nat
  /-- The number of pipelines built so far. -/
  built : Nat
  /-- The calls of `CallMediaPipeline.release`. -/
  released : List Nat
  /-- The calls of `UserSession.clear`. -/
  cleared : List UserRef
  sent : List (Receiver × Message)
  media : List MediaCall

def Handler.init : Handler := ⟨∅, ∅, [], ∅, 0, [], [], [], []⟩

namespace Handler

def send (h : Handler) (receiver : Receiver) (message : Message) : Handler :=
  { h with sent := h.sent ++ [(receiver, message)] }

/-- `UserSession.sendMessage`, which throws if the message does not go out. -/
def sendMessage (h : Handler) (u : UserRef) (message : Message) (delivered : Bool) :
    Outcome Handler Failure :=
  if delivered then (h.send (.user u) message, none) else (h, some .io)

def modify (h : Handler) (u : UserRef) (f : UserSession → UserSession) : Handler :=
  { h with heap := h.heap.modify u f }

/-- `UserSession.clear`. The names of the call stay. -/
def clear (h : Handler) (u : UserRef) : Handler :=
  { h.modify u fun user => { user with webRtcEndpoint := none, candidateList := [] } with
    cleared := h.cleared ++ [u] }

def release (h : Handler) (pipeline : Nat) : Handler := { h with released := h.released ++ [pipeline] }

/-! ## Ending a call -/

/-- The user that the stop of `user` concerns, by `callingFrom` or else by `callingTo`. -/
def stopperedUser (h : Handler) (user : UserSession) : Option UserRef :=
  match user.callingFrom with
  | some name => h.usersByName.lookup name
  | none => user.callingTo.bind h.usersByName.lookup

/-- The part of `stop` after the pipeline has gone. -/
def stopUsers (h : Handler) (session : String) (delivered : Bool) : Outcome Handler Failure :=
  match h.usersBySessionId.lookup session with
  | none => (h, none)
  | some stopper =>
    match (h.heap[stopper]?).bind h.stopperedUser with
    | none => (h.clear stopper, none)
    | some stoppered =>
      andThen (h.sendMessage stoppered .stopCommunication delivered) fun h =>
        ((h.clear stoppered).clear stopper, none)

/-- The pipeline is released, taken out of the map and released again. -/
def stop (h : Handler) (session : String) (delivered : Bool) : Outcome Handler Failure :=
  match h.pipelines.lookup session with
  | none => (h, none)
  | some pipeline =>
    stopUsers (({ h.release pipeline with pipelines := h.pipelines.erase session } : Handler).release pipeline)
      session delivered

/-- An exception in `register` or `call` stops the session's call. -/
def handleErrorResponse (q : Outcome Handler Failure) (session : String) (id : ResponseId)
    (delivered : Bool) : Outcome Handler Failure :=
  match q with
  | (h, none) => (h, none)
  | (h, some failure) =>
    andThen (h.stop session delivered) fun h => (h.send (.session session) (.rejected id failure), none)

/-! ## Registering and calling -/

def register (h : Handler) (session : String) (name : Option String) (delivered : Bool) :
    Outcome Handler Failure :=
  match name with
  | none => (h, some .nullPointer)
  | some name =>
    let caller := h.heap.length
    let h : Handler := { h with heap := h.heap ++ [⟨name, session, none, none, none, none, []⟩] }
    if name.isEmpty then
      h.sendMessage caller (.registerResponse "rejected: empty user name ") delivered
    else if (h.usersByName.lookup name).isSome then
      h.sendMessage caller (.registerResponse (" rejected: user '" ++ name ++ "' already registered")) delivered
    else
      ({ h with usersByName := h.usersByName.insert name caller
                usersBySessionId := h.usersBySessionId.insert session caller } : Handler).sendMessage
        caller (.registerResponse "accepted") delivered

/-- The name of the caller is the one in the message. -/
def call (h : Handler) (caller : Option UserRef) (callee callerName sdpOffer : Option String)
    (delivered : Bool) : Outcome Handler Failure :=
  match callee, callerName with
  | some callee, some callerName =>
    match h.usersByName.lookup callee with
    | some u =>
      match caller, sdpOffer with
      | some c, some sdp =>
        andThen ((h.modify c fun user => { user with sdpOffer := some sdp, callingTo := some callee }).sendMessage
            u (.incomingCall callerName) delivered) fun h =>
          (h.modify u fun user => { user with callingFrom := some callerName }, none)
      | _, _ => (h, some .nullPointer)
    | none =>
      match caller with
      | none => (h, some .nullPointer)
      | some c =>
        h.sendMessage c (.callResponse ("rejected: user '" ++ callee ++ "' is not registered")) delivered
  | _, _ => (h, some .nullPointer)

end Handler

/-! ## Accepting a call -/

/-- Where accepting a call may throw. -/
inductive AcceptStage where
  | calleeCandidates
  | calleeListener
  | callerCandidates
  | callerListener
  /-- The callee's offer is answered. -/
  | startCommunication
  | callResponse
  | gatherCandidates
  deriving DecidableEq, Repr

structure AcceptInput where
  /-- Whether the constructor of `CallMediaPipeline`, which swallows its exceptions, has built the endpoint. -/
  callerEp : Bool
  calleeEp : Bool
  throws : Option AcceptStage
  /-- Whether the caller can be told that accepting has failed. -/
  informed : Bool
  deriving DecidableEq, Repr

namespace Handler

/-- `UserSession.setWebRtcEndpoint`: the candidates are dropped once all of them have been added. -/
def setWebRtcEndpoint (h : Handler) (u : UserRef) (endpoint : Option Endpoint) (throws : Bool) :
    Outcome Handler Failure :=
  let candidates := ((h.heap[u]?).map UserSession.candidateList).getD []
  let h := h.modify u fun user => { user with webRtcEndpoint := endpoint }
  match endpoint with
  | none => if candidates = [] then (h, none) else (h, some .nullPointer)
  | some e =>
    if throws then (h, some .kurento)
    else
      ({ h.modify u fun user => { user with candidateList := [] } with
        media := h.media ++ candidates.map fun c => .addIceCandidate e c }, none)

/-- `addIceCandidateFoundListener` on an endpoint that may be null. -/
def listen (h : Handler) (endpoint : Option Endpoint) (throws : Bool) : Outcome Handler Failure :=
  match endpoint with
  | none => (h, some .nullPointer)
  | some _ => (h, if throws then some .kurento else none)

/-- An offer is processed and a user is told the answer. -/
def answer (h : Handler) (u : UserRef) (endpoint : Option Endpoint) (sdp : Option String)
    (message : Message) (throws : Bool) : Outcome Handler Failure :=
  match endpoint with
  | none => (h, some .nullPointer)
  | some e =>
    if throws then (h, some .kurento)
    else (({ h with media := h.media ++ [.processOffer e sdp] } : Handler).send (.user u) message, none)

/-- The body of the `try` block, once both users have the new pipeline. -/
def connectUsers (h : Handler) (calleer callee : UserRef) (pipeline : Nat) (sdpOffer : Option String)
    (input : AcceptInput) : Outcome Handler Failure :=
  let calleeEp := if input.calleeEp then some (Endpoint.mk pipeline .callee) else none
  let callerEp := if input.callerEp then some (Endpoint.mk pipeline .caller) else none
  andThen (h.setWebRtcEndpoint callee calleeEp (decide (input.throws = some .calleeCandidates))) fun h =>
  andThen (h.listen calleeEp (decide (input.throws = some .calleeListener))) fun h =>
  andThen (h.setWebRtcEndpoint calleer callerEp (decide (input.throws = some .callerCandidates))) fun h =>
  andThen (h.listen callerEp (decide (input.throws = some .callerListener))) fun h =>
  andThen (match sdpOffer with
    | none => (h, some .nullPointer)
    | some sdp =>
      h.answer callee calleeEp (some sdp) .startCommunication
        (decide (input.throws = some .startCommunication))) fun h =>
  andThen (h.answer calleer callerEp ((h.heap[calleer]?).bind UserSession.sdpOffer) (.callResponse "accepted")
    (decide (input.throws = some .callResponse))) fun h =>
  (h, if input.throws = some .gatherCandidates then some .kurento else none)

/-- The `catch` block; `callee` is none for a session without a user. -/
def rollBack (h : Handler) (calleer : UserRef) (calleerSession : String) (callee : Option (UserRef × String))
    (pipeline : Nat) (informed : Bool) : Outcome Handler Failure :=
  let h := { h.release pipeline with pipelines := h.pipelines.erase calleerSession }
  match callee with
  | none => (h, some .nullPointer)
  | some (u, calleeSession) =>
    andThen (({ h with pipelines := h.pipelines.erase calleeSession } : Handler).sendMessage calleer
      (.callResponse "rejected") informed) fun h => (h.send (.user u) .stopCommunication, none)

/-- The caller and the callee get one new pipeline, each under its session. -/
def accept (h : Handler) (calleer : UserRef) (calleerSession : String) (callee : Option (UserRef × String))
    (sdpOffer : Option String) (input : AcceptInput) : Outcome Handler Failure :=
  let pipeline := h.built
  let h := { h with built := h.built + 1, pipelines := h.pipelines.insert calleerSession pipeline }
  match callee with
  | none => h.rollBack calleer calleerSession none pipeline input.informed
  | some (u, calleeSession) =>
    match ({ h with pipelines := h.pipelines.insert calleeSession pipeline } : Handler).connectUsers
        calleer u pipeline sdpOffer input with
    | (h, none) => (h, none)
    | (h, some _) => h.rollBack calleer calleerSession (some (u, calleeSession)) pipeline input.informed

/-- A user object with its session. -/
def withSession (h : Handler) (u : UserRef) : Option (UserRef × String) :=
  (h.heap[u]?).map fun user => (u, user.session)

def incomingCallResponse (h : Handler) (callee : Option UserRef) (response callerName sdpOffer : Option String)
    (input : AcceptInput) : Outcome Handler Failure :=
  match response, callerName with
  | some response, some callerName =>
    match (h.usersByName.lookup callerName).bind h.withSession with
    | none => (h, some .nullPointer)
    | some (calleer, calleerSession) =>
      if response = "accept" then
        h.accept calleer calleerSession (callee.bind h.withSession) sdpOffer input
      else h.sendMessage calleer (.incomingCallResponse response callerName) input.informed
  | _, _ => (h, some .nullPointer)

/-! ## The other messages -/

/-- `UserSession.addCandidate`. -/
def addCandidate (h : Handler) (u : UserRef) (candidate : IceCandidate) : Handler :=
  match (h.heap[u]?).bind UserSession.webRtcEndpoint with
  | some e => { h with media := h.media ++ [.addIceCandidate e candidate] }
  | none => h.modify u fun user => { user with candidateList := user.candidateList ++ [candidate] }

/-- `UserRegistry.removeBySession`. -/
def removeBySession (h : Handler) (session : String) : Handler :=
  match (h.usersBySessionId.lookup session).bind fun u => h.heap[u]? with
  | none => h
  | some user => { h with usersByName := h.usersByName.erase user.name
                          usersBySessionId := h.usersBySessionId.erase session }

def afterConnectionClosed (h : Handler) (session : String) (delivered : Bool) : Outcome Handler Failure :=
  andThen (h.stop session delivered) fun h => (h.removeBySession session, none)

end Handler

inductive Event where
  | register (session : String) (name : Option String) (delivered stopDelivered : Bool)
  | call (session : String) (callee callerName sdpOffer : Option String) (delivered stopDelivered : Bool)
  | incomingCallResponse (session : String) (response callerName sdpOffer : Option String) (input : AcceptInput)
  | onIceCandidate (session : String) (candidate : IceCandidate)
  | stop (session : String) (delivered : Bool)
  | closed (session : String) (delivered : Bool)

/-- `handleTextMessage` and `afterConnectionClosed`. -/
def handle (h : Handler) : Event → Outcome Handler Failure
  | .register session name delivered stopDelivered =>
    Handler.handleErrorResponse (h.register session name delivered) session .registerResponse stopDelivered
  | .call session callee callerName sdpOffer delivered stopDelivered =>
    Handler.handleErrorResponse
      (h.call (h.usersBySessionId.lookup session) callee callerName sdpOffer delivered)
      session .callResponse stopDelivered
  | .incomingCallResponse session response callerName sdpOffer input =>
    h.incomingCallResponse (h.usersBySessionId.lookup session) response callerName sdpOffer input
  | .onIceCandidate session candidate =>
    (((h.usersBySessionId.lookup session).map fun u => h.addCandidate u candidate).getD h, none)
  | .stop session delivered => h.stop session delivered
  | .closed session delivered => h.afterConnectionClosed session delivered

def step (h : Handler) (e : Event) : Handler := (handle h e).1

/-- The session on which the event runs `stop`, for its own sake or after an exception. -/
def stops (h : Handler) : Event → Option String
  | .register session name delivered _ => (h.register session name delivered).2.map fun _ => session
  | .call session callee callerName sdpOffer delivered _ =>
    (h.call (h.usersBySessionId.lookup session) callee callerName sdpOffer delivered).2.map fun _ => session
  | .stop session _ => some session
  | .closed session _ => some session
  | _ => none

/-- Kurento builds both endpoints and nothing throws. -/
def smoothly : AcceptInput := ⟨true, true, none, true⟩

/-! ## What a handler leaves alone -/

/-- `P` does not look at the messages, the calls to Kurento and `clear`, nor at the fields
of a user other than its session and the names of its calls. -/
structure Steady (P : Handler → Prop) : Prop where
  modify : ∀ h u f, (∀ user : UserSession, (f user).session = user.session ∧
    (f user).callingFrom = user.callingFrom ∧ (f user).callingTo = user.callingTo) → P h → P (h.modify u f)
  send : ∀ h receiver message, P h → P (h.send receiver message)
  media : ∀ (h : Handler) media, P h → P { h with media := media }
  cleared : ∀ (h : Handler) cleared, P h → P { h with cleared := cleared }

/-- `P` does not look at the names of the calls either. -/
structure Inert (P : Handler → Prop) : Prop extends Steady P where
  dial : ∀ h u f, (∀ user : UserSession, (f user).session = user.session) → P h → P (h.modify u f)

/-- `P` does not look at the pipelines. -/
structure Lasting (P : Handler → Prop) : Prop extends Steady P where
  pipelines : ∀ (h : Handler) pipelines built released, P h →
    P { h with pipelines := pipelines, built := built, released := released }

/-- `P` looks neither at the pipelines nor at the names of the calls. -/
structure Unmoved (P : Handler → Prop) : Prop extends Inert P, Lasting P

namespace Steady

variable {P : Handler → Prop} {h : Handler}

theorem sendMessage (hP : Steady P) (hp : P h) (u : UserRef) (message : Message) (delivered : Bool) :
    P (h.sendMessage u message delivered).1 := by
  unfold Handler.sendMessage
  split
  · exact hP.send h _ _ hp
  · exact hp

theorem clear (hP : Steady P) (hp : P h) (u : UserRef) : P (h.clear u) := by
  refine hP.cleared _ _ (hP.modify h u _ ?_ hp)
  exact fun _ => ⟨rfl, rfl, rfl⟩

theorem stopUsers (hP : Steady P) (hp : P h) (session : String) (delivered : Bool) :
    P (h.stopUsers session delivered).1 := by
  unfold Handler.stopUsers
  split
  · exact hp
  · split
    · exact hP.clear hp _
    · refine andThen_invariant _ _ (hP.sendMessage hp _ _ _) ?_
      exact fun h' hp' => hP.clear (hP.clear hp' _) _

theorem setWebRtcEndpoint (hP : Steady P) (hp : P h) (u : UserRef) (endpoint : Option Endpoint) (throws : Bool) :
    P (h.setWebRtcEndpoint u endpoint throws).1 := by
  unfold Handler.setWebRtcEndpoint
  dsimp only
  have hset : P (h.modify u fun user => { user with webRtcEndpoint := endpoint }) := by
    refine hP.modify h u _ ?_ hp
    exact fun _ => ⟨rfl, rfl, rfl⟩
  split
  · split
    · exact hset
    · exact hset
  · split
    · exact hset
    · refine hP.media _ _ (hP.modify _ u _ ?_ hset)
      exact fun _ => ⟨rfl, rfl, rfl⟩

theorem listen (hp : P h) (endpoint : Option Endpoint) (throws : Bool) :
    P (h.listen endpoint throws).1 := by
  unfold Handler.listen
  split
  · exact hp
  · exact hp

theorem answer (hP : Steady P) (hp : P h) (u : UserRef) (endpoint : Option Endpoint) (sdp : Option String)
    (message : Message) (throws : Bool) : P (h.answer u endpoint sdp message throws).1 := by
  unfold Handler.answer
  split
  · exact hp
  · split
    · exact hp
    · exact hP.send _ _ _ (hP.media h _ hp)

theorem connectUsers (hP : Steady P) (hp : P h) (calleer callee : UserRef) (pipeline : Nat)
    (sdpOffer : Option String) (input : AcceptInput) :
    P (h.connectUsers calleer callee pipeline sdpOffer input).1 := by
  unfold Handler.connectUsers
  dsimp only
  refine andThen_invariant _ _ (hP.setWebRtcEndpoint hp _ _ _) fun h hp => ?_
  refine andThen_invariant _ _ (Steady.listen hp _ _) fun h hp => ?_
  refine andThen_invariant _ _ (hP.setWebRtcEndpoint hp _ _ _) fun h hp => ?_
  refine andThen_invariant _ _ (Steady.listen hp _ _) fun h hp => ?_
  refine andThen_invariant _ _ ?_ fun h hp => ?_
  · split
    · exact hp
    · exact hP.answer hp _ _ _ _ _
  · refine andThen_invariant _ _ (hP.answer hp _ _ _ _ _) fun h hp => ?_
    exact hp

theorem addCandidate (hP : Steady P) (hp : P h) (u : UserRef) (candidate : IceCandidate) :
    P (h.addCandidate u candidate) := by
  unfold Handler.addCandidate
  split
  · exact hP.media h _ hp
  · refine hP.modify h u _ ?_ hp
    exact fun _ => ⟨rfl, rfl, rfl⟩

end Steady

/-- Changes that keep the session include those that keep the names as well. -/
theorem Inert.of {P : Handler → Prop}
    (dial : ∀ h u f, (∀ user : UserSession, (f user).session = user.session) → P h → P (h.modify u f))
    (send : ∀ h receiver message, P h → P (h.send receiver message))
    (media : ∀ (h : Handler) media, P h → P { h with media := media })
    (cleared : ∀ (h : Handler) cleared, P h → P { h with cleared := cleared }) : Inert P :=
  ⟨⟨fun h u f hf => dial h u f fun user => (hf user).1, send, media, cleared⟩, dial⟩

theorem Inert.call {P : Handler → Prop} {h : Handler} (hP : Inert P) (hp : P h) (caller : Option UserRef) (callee callerName sdpOffer : Option String)
    (delivered : Bool) : P (h.call caller callee callerName sdpOffer delivered).1 := by
  unfold Handler.call
  split
  · split
    · split
      · refine andThen_invariant _ _ (hP.sendMessage (hP.dial h _ _ ?_ hp) _ _ _) ?_
        · exact fun _ => rfl
        · intro h' hp'
          refine hP.dial h' _ _ ?_ hp'
          exact fun _ => rfl
      · exact hp
    · split
      · exact hp
      · exact hP.sendMessage hp _ _ _
  · exact hp

namespace Lasting

variable {P : Handler → Prop} {h : Handler} (hP : Lasting P)

include hP

theorem stop (hp : P h) (session : String) (delivered : Bool) : P (h.stop session delivered).1 := by
  unfold Handler.stop
  split
  · exact hp
  · exact hP.stopUsers (hP.pipelines h _ _ _ hp) session delivered

theorem handleErrorResponse {q : Outcome Handler Failure} (hp : P q.1) (session : String) (id : ResponseId)
    (delivered : Bool) : P (Handler.handleErrorResponse q session id delivered).1 := by
  unfold Handler.handleErrorResponse
  split
  · exact hp
  · exact andThen_invariant _ _ (hP.stop hp session delivered) fun h₁ hp₁ => hP.send h₁ _ _ hp₁

theorem rollBack (hp : P h) (calleer : UserRef) (calleerSession : String)
    (callee : Option (UserRef × String)) (pipeline : Nat) (informed : Bool) :
    P (h.rollBack calleer calleerSession callee pipeline informed).1 := by
  unfold Handler.rollBack
  dsimp only
  split
  · exact hP.pipelines h _ _ _ hp
  · refine andThen_invariant _ _ (hP.sendMessage (hP.pipelines h _ _ _ hp) _ _ _) ?_
    exact fun h₁ hp₁ => hP.send h₁ _ _ hp₁

theorem accept (hp : P h) (calleer : UserRef) (calleerSession : String)
    (callee : Option (UserRef × String)) (sdpOffer : Option String) (input : AcceptInput) :
    P (h.accept calleer calleerSession callee sdpOffer input).1 := by
  unfold Handler.accept
  dsimp only
  cases callee with
  | none => exact hP.rollBack (hP.pipelines h _ _ _ hp) _ _ _ _ _
  | some c =>
    have hconnect := hP.connectUsers (hP.pipelines h ((h.pipelines.insert calleerSession h.built).insert c.2 h.built)
      (h.built + 1) h.released hp) calleer c.1 h.built sdpOffer input
    dsimp only
    split
    · next h₁ hq =>
      rw [hq] at hconnect
      exact hconnect
    · next h₁ failure hq =>
      rw [hq] at hconnect
      exact hP.rollBack hconnect _ _ _ _ _

theorem incomingCallResponse (hp : P h) (callee : Option UserRef) (response callerName sdpOffer : Option String)
    (input : AcceptInput) : P (h.incomingCallResponse callee response callerName sdpOffer input).1 := by
  unfold Handler.incomingCallResponse
  split
  · split
    · exact hp
    · split
      · exact hP.accept hp _ _ _ _ _
      · exact hP.sendMessage hp _ _ _
  · exact hp

theorem onIceCandidate (hp : P h) (session : String) (candidate : IceCandidate) :
    P (step h (.onIceCandidate session candidate)) := by
  show P (((h.usersBySessionId.lookup session).map fun u => h.addCandidate u candidate).getD h)
  cases h.usersBySessionId.lookup session with
  | none => exact hp
  | some u => exact hP.addCandidate hp u candidate

end Lasting

end OneToOne

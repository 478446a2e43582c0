import SpringStudy.Tables
import SpringStudy.Outcomes
import SpringStudy.Runs

/-!
# The one-to-one call with recording

A registered user calls another one, and both can play what was recorded of a
call. A user has one endpoint for the call and one for the playback; the
candidates of its browser go to both, and wait in a list while there is no
call. The pipelines of calls and playbacks are kept in one map, by session.
A message is one step. Sockets and Kurento may throw; nothing is caught, and
what a method has done before stays. A connection that closes leaves its user
registered.
-/
namespace CallRecording

open Tables Outcomes

/-- A `UserSession` object, as a place in the heap. -/
abbrev UserRef := Nat

inductive Side where
  | caller
  | callee
  deriving DecidableEq, Repr

/-- An endpoint of a `CallMediaPipeline`. -/
structure CallEndpoint where
  pipeline : Nat
  side : Side
  deriving DecidableEq, Repr

/-- The endpoint of a `PlayMediaPipeline`. -/
structure PlayEndpoint where
  pipeline : Nat
  deriving DecidableEq, Repr

inductive Endpoint where
  | call (e : CallEndpoint)
  | play (e : PlayEndpoint)
  deriving DecidableEq, Repr

structure IceCandidate where
  candidate : String
  sdpMid : String
  sdpMLineIndex : Nat
  deriving DecidableEq, Repr

structure UserSession where
  name : String
  /-- The id of the web socket session. -/
  session : String
  sdpOffer : Option String
  callingTo : Option String
  callingFrom : Option String
  webRtcEndpoint : Option CallEndpoint
  playingWebRtcEndpoint : Option PlayEndpoint
  /-- A candidate is known by its place in `received`. -/
  candidateList : List Nat
  deriving DecidableEq, Repr

/-- A candidate that came in, and the endpoints its user had then. -/
structure Received where
  candidate : IceCandidate
  webRtcEndpoint : Option CallEndpoint
  playingWebRtcEndpoint : Option PlayEndpoint
  deriving DecidableEq, Repr

inductive Message where
  | registerResponse (response : String)
  | incomingCall (caller : String)
  | callResponse (response : String) (message sdpAnswer : Option String)
  | startCommunication (sdpAnswer : String)
  | stopCommunication
  | playResponse (response : String) (error sdpAnswer : Option String)
  /-- Its id is `playEndd`; in the application with filters it is `playEnd`. -/
  | playEnd
  deriving DecidableEq, Repr

/-- A message goes to a user, through its `UserSession`, or to a session directly. -/
inductive Receiver where
  | user (u : UserRef)
  | session (id : String)
  deriving DecidableEq, Repr

/-- How a handler ends when it does not end normally. -/
inductive Failure where
  | nullPointer
  /-- A message could not be sent. -/
  | io
  | kurento
  deriving DecidableEq, Repr

/-- Where accepting a call or starting a playback may throw, apart from the candidates and the offers. -/
inductive Stage where
  | pipeline
  | startCommunication
  /-- `gatherCandidates` of the callee's endpoint. -/
  | calleeCandidates
  | callResponse
  /-- `gatherCandidates` of the caller's endpoint, and `record`. -/
  | callerCandidates
  | player
  | playResponse
  | playCandidates
  deriving DecidableEq, Repr

def Stage.failure : Stage → Failure
  | .startCommunication | .callResponse | .playResponse => .io
  | .pipeline | .calleeCandidates | .callerCandidates | .player | .playCandidates => .kurento

/-- What Kurento answers. -/
structure Kurento where
  /-- Whether `addIceCandidate` takes the candidate; otherwise it throws. -/
  takes : Endpoint → Nat → Bool
  /-- `processOffer`, with no answer when it throws. -/
  processOffer : Endpoint → Option String → Option String

structure Handler where
  usersByName : Table String UserRef
  usersBySessionId : Table String UserRef
  heap : List UserSession
  /-- The pipeline of a session, by its number. -/
  pipelines : Table String Nat
  /-- The number of pipelines built so far. -/
  built : Nat
  released : List Nat
  /-- The players that have not come to their end, by pipeline, with the session they play for. -/
  playbacks : Table Nat String
  received : List Received
  /-- The calls of `addIceCandidate` that returned. -/
  delivered : List (Endpoint × Nat)
  sent : List (Receiver × Message)

def Handler.init : Handler := ⟨∅, ∅, [], ∅, 0, [], ∅, [], [], []⟩

namespace Handler

def modify (h : Handler) (u : UserRef) (f : UserSession → UserSession) : Handler :=
  { h with heap := h.heap.modify u f }

def send (h : Handler) (receiver : Receiver) (message : Message) : Handler :=
  { h with sent := h.sent ++ [(receiver, message)] }

/-- `sendMessage`, which throws if the message does not go out. -/
def sendMessage (h : Handler) (receiver : Receiver) (message : Message) (delivered : Bool) :
    Outcome Handler Failure :=
  if delivered then (h.send receiver message, none) else (h, some .io)

/-- A user object with what it holds. -/
def withUser (h : Handler) (u : UserRef) : Option (UserRef × UserSession) :=
  (h.heap[u]?).map fun user => (u, user)

/-! ## Registering and calling -/

def register (h : Handler) (session : String) (name : Option String) (delivered : Bool) :
    Outcome Handler Failure :=
  match name with
  | none => (h, some .nullPointer)
  | some name =>
    if name.isEmpty then
      h.sendMessage (.session session) (.registerResponse "rejected: empty user name") delivered
    else if (h.usersByName.lookup name).isSome then
      h.sendMessage (.session session)
        (.registerResponse ("rejected: user '" ++ name ++ "' already registered")) delivered
    else
      ({ h with
          heap := h.heap ++ [⟨name, session, none, none, none, none, none, []⟩]
          usersByName := h.usersByName.insert name h.heap.length
          usersBySessionId := h.usersBySessionId.insert session h.heap.length } : Handler).sendMessage
        (.session session) (.registerResponse "accepted") delivered

/-- The callee remembers the name that the message gives for the caller. -/
def call (h : Handler) (caller : Option UserRef) (callee callerName sdpOffer : Option String)
    (delivered : Bool) : Outcome Handler Failure :=
  match callee, callerName, caller with
  | some callee, some callerName, some c =>
    match h.usersByName.lookup callee with
    | some u =>
      match sdpOffer with
      | none => (h, some .nullPointer)
      | some sdp =>
        andThen ((h.modify c fun user => { user with sdpOffer := some sdp, callingTo := some callee }).sendMessage
          (.user u) (.incomingCall callerName) delivered) fun h =>
        (h.modify u fun user => { user with callingFrom := some callerName }, none)
    | none =>
      h.sendMessage (.user c)
        (.callResponse "rejected" (some ("user '" ++ callee ++ "' is not registered")) none) delivered
  | _, _, _ => (h, some .nullPointer)

/-! ## Endpoints and candidates -/

/-- `setWebRtcEndpoint` and `setPlayingWebRtcEndpoint` of null. -/
def resetEndpoints (h : Handler) (u : UserRef) : Handler :=
  h.modify u fun user => { user with webRtcEndpoint := none, playingWebRtcEndpoint := none }

/-- `UserSession.clear`. The names of the call stay, and so does the playback. -/
def clear (h : Handler) (u : UserRef) : Handler :=
  h.modify u fun user => { user with webRtcEndpoint := none, candidateList := [] }

/-- The candidates that wait for a call of the user. -/
def listed (h : Handler) (u : UserRef) : List Nat :=
  ((h.heap[u]?).map UserSession.candidateList).getD []

section
variable (kurento : Kurento)

def addIceCandidate (h : Handler) (e : Endpoint) (n : Nat) : Outcome Handler Failure :=
  if kurento.takes e n then ({ h with delivered := h.delivered ++ [(e, n)] }, none) else (h, some .kurento)

/-- `UserSession.setWebRtcEndpoint` of an endpoint. The list is cleared after all its candidates were taken. -/
def setWebRtcEndpoint (h : Handler) (u : UserRef) (e : CallEndpoint) : Outcome Handler Failure :=
  andThen (forAll (fun h n => h.addIceCandidate kurento (.call e) n)
    (h.modify u fun user => { user with webRtcEndpoint := some e }) (h.listed u)) fun h =>
  (h.modify u fun user => { user with candidateList := [] }, none)

/-- `UserSession.addCandidate`. -/
def addCandidate (h : Handler) (u : UserRef) (user : UserSession) (candidate : IceCandidate) :
    Outcome Handler Failure :=
  let n := h.received.length
  let h : Handler := { h with
    received := h.received ++ [⟨candidate, user.webRtcEndpoint, user.playingWebRtcEndpoint⟩] }
  andThen
    (match user.webRtcEndpoint with
    | some e => h.addIceCandidate kurento (.call e) n
    | none => (h.modify u fun user => { user with candidateList := user.candidateList ++ [n] }, none)) fun h =>
  match user.playingWebRtcEndpoint with
  | some e => h.addIceCandidate kurento (.play e) n
  | none => (h, none)

/-! ## Accepting a call -/

def reach (h : Handler) (stage : Stage) (throws : Option Stage) : Outcome Handler Failure :=
  (h, if throws = some stage then some stage.failure else none)

theorem andThen_reach (h : Handler) (stage : Stage) (throws : Option Stage) (f : Handler → Outcome Handler Failure) :
    andThen (h.reach stage throws) f = if throws = some stage then (h, some stage.failure) else f h := by
  unfold reach
  split
  · rfl
  · rfl

/-- An offer is processed and its answer sent. -/
def answer (h : Handler) (u : UserRef) (e : CallEndpoint) (sdpOffer : Option String)
    (message : String → Message) (stage : Stage) (throws : Option Stage) : Outcome Handler Failure :=
  match kurento.processOffer (.call e) sdpOffer with
  | none => (h, some .kurento)
  | some sdpAnswer => andThen (h.reach stage throws) fun h => (h.send (.user u) (message sdpAnswer), none)

def connectCallee (h : Handler) (callee : UserRef) (pipeline : Nat) (sdpOffer : Option String)
    (throws : Option Stage) : Outcome Handler Failure :=
  let calleeEp : CallEndpoint := ⟨pipeline, .callee⟩
  andThen (h.setWebRtcEndpoint kurento callee calleeEp) fun h =>
  match sdpOffer with
  | none => (h, some .nullPointer)
  | some sdp =>
    andThen (h.answer kurento callee calleeEp (some sdp) .startCommunication .startCommunication throws) fun h =>
    h.reach .calleeCandidates throws

def connectCaller (h : Handler) (calleer : UserRef) (pipeline : Nat) (throws : Option Stage) :
    Outcome Handler Failure :=
  let callerEp : CallEndpoint := ⟨pipeline, .caller⟩
  andThen (h.setWebRtcEndpoint kurento calleer callerEp) fun h =>
  andThen (h.answer kurento calleer callerEp ((h.heap[calleer]?).bind UserSession.sdpOffer)
    (fun sdpAnswer => .callResponse "accepted" none (some sdpAnswer)) .callResponse throws) fun h =>
  h.reach .callerCandidates throws

/-- A new pipeline becomes the one of both users. -/
def enter (h : Handler) (calleer callee : UserSession) : Handler :=
  { h with
    built := h.built + 1
    pipelines := (h.pipelines.insert calleer.session h.built).insert callee.session h.built }

/-- The pipeline is the caller's before the callee is looked at. -/
def accept (h : Handler) (calleer : UserRef × UserSession) (callee : Option (UserRef × UserSession))
    (sdpOffer : Option String) (throws : Option Stage) : Outcome Handler Failure :=
  andThen (h.reach .pipeline throws) fun h =>
  match callee with
  | none =>
    ({ h with built := h.built + 1, pipelines := h.pipelines.insert calleer.2.session h.built },
      some .nullPointer)
  | some callee =>
    andThen ((h.enter calleer.2 callee.2).connectCallee kurento callee.1 h.built sdpOffer throws) fun h' =>
    h'.connectCaller kurento calleer.1 h.built throws

def incomingCallResponse (h : Handler) (callee : Option UserRef) (response callerName sdpOffer : Option String)
    (throws : Option Stage) (delivered : Bool) : Outcome Handler Failure :=
  match response, (callerName.bind h.usersByName.lookup).bind h.withUser with
  | some response, some calleer =>
    if response = "accept" then h.accept kurento calleer (callee.bind h.withUser) sdpOffer throws
    else h.sendMessage (.user calleer.1) (.callResponse "rejected" none none) delivered
  | _, _ => (h, some .nullPointer)

/-! ## Playing -/

/-- The player starts on a new pipeline, which becomes the one of the session. -/
def startPlayer (h : Handler) (session : String) (pipeline : Nat) : Handler :=
  { h with
    playbacks := h.playbacks.insert pipeline session
    pipelines := h.pipelines.insert session pipeline }

def playRecording (h : Handler) (u : UserRef) (session : String) (sdpOffer : Option String)
    (throws : Option Stage) : Outcome Handler Failure :=
  andThen (h.reach .pipeline throws) fun h =>
  let pipeline := h.built
  let h := ({ h with built := h.built + 1 } : Handler).modify u fun user =>
    { user with playingWebRtcEndpoint := some ⟨pipeline⟩ }
  match sdpOffer with
  | none => (h, some .nullPointer)
  | some sdp =>
    match kurento.processOffer (.play ⟨pipeline⟩) (some sdp) with
    | none => (h, some .kurento)
    | some sdpAnswer =>
      andThen (h.reach .player throws) fun h =>
      andThen ((h.startPlayer session pipeline).reach .playResponse throws) fun h =>
      (h.send (.user u) (.playResponse "accepted" none (some sdpAnswer))).reach .playCandidates throws

def play (h : Handler) (player : Option UserRef) (userName sdpOffer : Option String) (throws : Option Stage)
    (delivered : Bool) : Outcome Handler Failure :=
  match player.bind h.withUser, userName with
  | some (u, user), some userName =>
    if (h.usersByName.lookup userName).isSome ∧ (h.usersBySessionId.lookup user.session).isSome then
      h.playRecording kurento u user.session sdpOffer throws
    else
      h.sendMessage (.user u) (.playResponse "rejected" (some ("No recording for user '" ++ userName ++
        "'. Please type a correct user in the 'Peer' field.")) none) delivered
  | _, _ => (h, some .nullPointer)

end

/-! ## Ending calls and playbacks -/

/-- The other user of the call: the one the user was called from, or else has called. -/
def stoppedUser (h : Handler) (user : UserSession) : Option UserRef :=
  match user.callingFrom with
  | some name => h.usersByName.lookup name
  | none => user.callingTo.bind h.usersByName.lookup

def stop (h : Handler) (session : String) (delivered : Bool) : Outcome Handler Failure :=
  match h.usersBySessionId.lookup session with
  | none => (h, none)
  | some stopper =>
    match (h.heap[stopper]?).bind h.stoppedUser with
    | none => (h.clear stopper, none)
    | some stopped =>
      andThen (h.sendMessage (.user stopped) .stopCommunication delivered) fun h =>
      ((h.clear stopped).clear stopper, none)

/-- The pipeline of the session, if it has one, is released and taken out of the map. -/
def dropPipeline (h : Handler) (session : String) : Handler :=
  match h.pipelines.lookup session with
  | none => h
  | some pipeline => { h with released := h.released ++ [pipeline], pipelines := h.pipelines.erase session }

/-- Looking up the name null throws, as does a call on a user that was not found. -/
def releasePipeline (h : Handler) (user : Option UserRef) : Outcome Handler Failure :=
  match user.bind h.withUser with
  | none => (h, some .nullPointer)
  | some (u, user) =>
    let h := (h.dropPipeline user.session).resetEndpoints u
    match h.stoppedUser user with
    | none => (h, some .nullPointer)
    | some stopped => (h.resetEndpoints stopped, none)

/-- `sendPlayEnd`, which logs that the message does not go out. -/
def sendPlayEnd (h : Handler) (session : String) (pipeline : Nat) (delivered : Bool) : Handler :=
  let h := (h.sendMessage (.session session) .playEnd delivered).1
  { h with released := h.released ++ [pipeline] }

/-- The listener for the end of a stream. A player of a released pipeline is gone. -/
def endOfStream (h : Handler) (pipeline : Nat) (delivered : Bool) : Outcome Handler Failure :=
  match h.playbacks.lookup pipeline with
  | none => (h, none)
  | some session =>
    if pipeline ∈ h.released then (h, none)
    else
      let h := { h with playbacks := h.playbacks.erase pipeline }
      andThen (h.releasePipeline (h.usersBySessionId.lookup session)) fun h =>
      (h.sendPlayEnd session pipeline delivered, none)

/-- The listener for the errors of a player, which leaves the map of the pipelines alone. -/
def playerError (h : Handler) (pipeline : Nat) (delivered : Bool) : Handler :=
  match h.playbacks.lookup pipeline with
  | none => h
  | some session => if pipeline ∈ h.released then h else h.sendPlayEnd session pipeline delivered

end Handler

inductive Event where
  | register (session : String) (name : Option String) (delivered : Bool)
  | call (session : String) (callee callerName sdpOffer : Option String) (delivered : Bool)
  | incomingCallResponse (session : String) (response callerName sdpOffer : Option String)
      (throws : Option Stage) (delivered : Bool)
  | play (session : String) (userName sdpOffer : Option String) (throws : Option Stage) (delivered : Bool)
  | onIceCandidate (session : String) (candidate : Option IceCandidate)
  | stop (session : String) (delivered : Bool)
  | stopPlay (session : String)
  | endOfStream (pipeline : Nat) (delivered : Bool)
  | playerError (pipeline : Nat) (delivered : Bool)

section
variable (kurento : Kurento)

/-- `handleTextMessage`, and the listeners of a player. -/
def handle (h : Handler) : Event → Outcome Handler Failure
  | .register session name delivered => h.register session name delivered
  | .call session callee callerName sdpOffer delivered =>
    h.call (h.usersBySessionId.lookup session) callee callerName sdpOffer delivered
  | .incomingCallResponse session response callerName sdpOffer throws delivered =>
    h.incomingCallResponse kurento (h.usersBySessionId.lookup session) response callerName sdpOffer throws delivered
  | .play session userName sdpOffer throws delivered =>
    h.play kurento (h.usersBySessionId.lookup session) userName sdpOffer throws delivered
  | .onIceCandidate session candidate =>
    match candidate, (h.usersBySessionId.lookup session).bind h.withUser with
    | none, _ => (h, some .nullPointer)
    | some _, none => (h, none)
    | some candidate, some (u, user) => h.addCandidate kurento u user candidate
  | .stop session delivered =>
    andThen (h.stop session delivered) fun h => h.releasePipeline (h.usersBySessionId.lookup session)
  | .stopPlay session => h.releasePipeline (h.usersBySessionId.lookup session)
  | .endOfStream pipeline delivered => h.endOfStream pipeline delivered
  | .playerError pipeline delivered => (h.playerError pipeline delivered, none)

def step (h : Handler) (e : Event) : Handler := (handle kurento h e).1

end

/-! ## What users and messages do not touch -/

/-- `P` does not look at the messages, and of the users only at what `K` keeps. -/
structure Inert (K : UserSession → UserSession → Prop) (P : Handler → Prop) : Prop where
  modify : ∀ h u f, (∀ user, K user (f user)) → P h → P (h.modify u f)
  send : ∀ h receiver message, P h → P (h.send receiver message)

namespace Inert

variable {K : UserSession → UserSession → Prop} {P : Handler → Prop} {h : Handler}

theorem and {Q : Handler → Prop} (hP : Inert K P) (hQ : Inert K Q) : Inert K fun h => P h ∧ Q h where
  modify h u f hf hpq := ⟨hP.modify h u f hf hpq.1, hQ.modify h u f hf hpq.2⟩
  send h receiver message hpq := ⟨hP.send h receiver message hpq.1, hQ.send h receiver message hpq.2⟩

theorem sendMessage (hP : Inert K P) (hp : P h) (receiver : Receiver) (message : Message) (delivered : Bool) :
    P (h.sendMessage receiver message delivered).1 := by
  unfold Handler.sendMessage
  split
  · exact hP.send h receiver message hp
  · exact hp

theorem call (hP : Inert K P)
    (hto : ∀ user sdp name, K user { user with sdpOffer := some sdp, callingTo := some name })
    (hfrom : ∀ user name, K user { user with callingFrom := some name }) (hp : P h)
    (caller : Option UserRef) (callee callerName sdpOffer : Option String) (delivered : Bool) :
    P (h.call caller callee callerName sdpOffer delivered).1 := by
  unfold Handler.call
  split
  · split
    · split
      · exact hp
      · refine andThen_invariant _ _ (hP.sendMessage (hP.modify h _ _ ?_ hp) _ _ _) fun h' hp' => ?_
        · exact fun user => hto user _ _
        · exact hP.modify h' _ _ (fun user => hfrom user _) hp'
    · exact hP.sendMessage hp _ _ _
  · exact hp

theorem answer (hP : Inert K P) (hp : P h) (kurento : Kurento) (u : UserRef) (e : CallEndpoint)
    (sdpOffer : Option String) (message : String → Message) (stage : Stage) (throws : Option Stage) :
    P (h.answer kurento u e sdpOffer message stage throws).1 := by
  unfold Handler.answer
  split
  · exact hp
  · refine andThen_invariant _ _ ?_ fun h' hp' => hP.send h' _ _ hp'
    exact hp

theorem connectCallee (hP : Inert K P) (kurento : Kurento) (callee : UserRef) (pipeline : Nat)
    (sdpOffer : Option String) (throws : Option Stage)
    (hp : P (h.setWebRtcEndpoint kurento callee ⟨pipeline, .callee⟩).1) :
    P (h.connectCallee kurento callee pipeline sdpOffer throws).1 := by
  refine andThen_invariant _ _ hp fun h' hp' => ?_
  split
  · exact hp'
  · exact andThen_invariant _ _ (hP.answer hp' kurento _ _ _ _ _ _) fun _ hp'' => hp''

theorem connectCaller (hP : Inert K P) (kurento : Kurento) (calleer : UserRef) (pipeline : Nat)
    (throws : Option Stage) (hp : P (h.setWebRtcEndpoint kurento calleer ⟨pipeline, .caller⟩).1) :
    P (h.connectCaller kurento calleer pipeline throws).1 := by
  refine andThen_invariant _ _ hp fun h' hp' => ?_
  exact andThen_invariant _ _ (hP.answer hp' kurento _ _ _ _ _ _) fun _ hp'' => hp''

theorem stop (hP : Inert K P)
    (hclear : ∀ user, K user { user with webRtcEndpoint := none, candidateList := [] }) (hp : P h)
    (session : String) (delivered : Bool) : P (h.stop session delivered).1 := by
  have hclears : ∀ (h : Handler) u, P h → P (h.clear u) := fun h u hp => hP.modify h u _ hclear hp
  unfold Handler.stop
  split
  · exact hp
  · split
    · exact hclears h _ hp
    · refine andThen_invariant _ _ (hP.sendMessage hp _ _ _) fun h' hp' => ?_
      exact hclears _ _ (hclears h' _ hp')

/-- What the release of a pipeline keeps, apart from the pipeline itself. -/
theorem releasePipeline (hP : Inert K P)
    (hreset : ∀ user, K user { user with webRtcEndpoint := none, playingWebRtcEndpoint := none })
    (user : Option UserRef) (hp : P h)
    (hdrop : ∀ p ∈ user.bind h.withUser, P (h.dropPipeline p.2.session)) : P (h.releasePipeline user).1 := by
  unfold Handler.releasePipeline
  split
  · exact hp
  · next u user' hu =>
    have hown := hP.modify _ u _ hreset (hdrop _ hu)
    dsimp only
    split
    · exact hown
    · exact hP.modify _ _ _ hreset hown

end Inert

def SameSession (x y : UserSession) : Prop := y.session = x.session

/-! ## Messages that release nothing -/

/-- `P` survives the messages of session `x` that release nothing: users and candidates come in,
and the pipelines and players are new. -/
structure Lasting (x : String) (P : Handler → Prop) : Prop extends Inert SameSession P where
  candidates : ∀ h received delivered, P h → P { h with received := received, delivered := delivered }
  newUser : ∀ h name, P h → P { h with
    heap := h.heap ++ [⟨name, x, none, none, none, none, none, []⟩]
    usersByName := h.usersByName.insert name h.heap.length
    usersBySessionId := h.usersBySessionId.insert x h.heap.length }
  newPipeline : ∀ (h : Handler) (table : Table String Nat),
    (∀ session q, table.lookup session = some q → q = h.built ∨ h.pipelines.lookup session = some q) →
    P h → P { h with built := h.built + 1, pipelines := table }
  newPlayer : ∀ h session, (h.usersBySessionId.lookup session).isSome → P h →
    P (({ h with built := h.built + 1 } : Handler).startPlayer session h.built)

namespace Lasting

variable {x : String} {P : Handler → Prop} (hP : Lasting x P) (kurento : Kurento) {h : Handler}
include hP

theorem register (hp : P h) (name : Option String) (delivered : Bool) : P (h.register x name delivered).1 := by
  unfold Handler.register
  split
  · exact hp
  · split
    · exact hP.sendMessage hp _ _ _
    · split
      · exact hP.sendMessage hp _ _ _
      · exact hP.sendMessage (hP.newUser h _ hp) _ _ _

theorem addIceCandidate (hp : P h) (e : Endpoint) (n : Nat) : P (h.addIceCandidate kurento e n).1 := by
  unfold Handler.addIceCandidate
  split
  · exact hP.candidates h _ _ hp
  · exact hp

theorem setWebRtcEndpoint (hp : P h) (u : UserRef) (e : CallEndpoint) : P (h.setWebRtcEndpoint kurento u e).1 := by
  have hset := hP.modify h u (fun user => { user with webRtcEndpoint := some e }) (fun _ => rfl) hp
  refine andThen_invariant _ _ (forAll_invariant _ ?_ _ _ hset) fun h' hp' => ?_
  · exact fun h' n hp' => hP.addIceCandidate kurento hp' _ n
  · exact hP.modify h' u _ (fun _ => rfl) hp'

theorem onIceCandidate (hp : P h) (session : String) (candidate : Option IceCandidate) :
    P (step kurento h (.onIceCandidate session candidate)) := by
  simp only [step, handle]
  split
  · exact hp
  · exact hp
  · refine andThen_invariant _ _ ?_ fun h' hp' => ?_
    · split
      · exact hP.addIceCandidate kurento (hP.candidates h _ _ hp) _ _
      · exact hP.modify _ _ _ (fun _ => rfl) (hP.candidates h _ _ hp)
    · split
      · exact hP.addIceCandidate kurento hp' _ _
      · exact hp'

theorem accept (hp : P h) (calleer : UserRef × UserSession) (callee : Option (UserRef × UserSession))
    (sdpOffer : Option String) (throws : Option Stage) :
    P (h.accept kurento calleer callee sdpOffer throws).1 := by
  rw [Handler.accept, Handler.andThen_reach]
  split
  · exact hp
  · cases callee with
    | none =>
      refine hP.newPipeline h _ (fun session q hq => ?_) hp
      rw [lookup_put] at hq
      split at hq
      · exact .inl (Option.some.inj hq).symm
      · exact .inr hq
    | some callee =>
      have hentered : P (h.enter calleer.2 callee.2) := by
        refine hP.newPipeline h _ (fun session q hq => ?_) hp
        rw [lookup_put, lookup_put] at hq
        split at hq
        · exact .inl (Option.some.inj hq).symm
        · split at hq
          · exact .inl (Option.some.inj hq).symm
          · exact .inr hq
      refine andThen_invariant _ _ ?_ fun h' hp' => ?_
      · exact hP.connectCallee kurento _ _ _ _ (hP.setWebRtcEndpoint kurento hentered _ _)
      · exact hP.connectCaller kurento _ _ _ (hP.setWebRtcEndpoint kurento hp' _ _)

theorem incomingCallResponse (hp : P h) (callee : Option UserRef) (response callerName sdpOffer : Option String)
    (throws : Option Stage) (delivered : Bool) :
    P (h.incomingCallResponse kurento callee response callerName sdpOffer throws delivered).1 := by
  unfold Handler.incomingCallResponse
  split
  · split
    · exact hP.accept kurento hp _ _ sdpOffer throws
    · exact hP.sendMessage hp _ _ _
  · exact hp

theorem playRecording (hp : P h) (u : UserRef) (session : String)
    (huser : (h.usersBySessionId.lookup session).isSome) (sdpOffer : Option String) (throws : Option Stage) :
    P (h.playRecording kurento u session sdpOffer throws).1 := by
  rw [Handler.playRecording, Handler.andThen_reach]
  split
  · exact hp
  · have hset := hP.modify _ u (fun user => { user with playingWebRtcEndpoint := some ⟨h.built⟩ })
      (fun _ => rfl) (hP.newPipeline h h.pipelines (fun _ _ => .inr) hp)
    have hstarted := hP.modify _ u (fun user => { user with playingWebRtcEndpoint := some ⟨h.built⟩ })
      (fun _ => rfl) (hP.newPlayer h session huser hp)
    dsimp only
    split
    · exact hset
    · split
      · exact hset
      · rw [Handler.andThen_reach]
        split
        · exact hset
        · rw [Handler.andThen_reach]
          split
          · exact hstarted
          · exact hP.send _ _ _ hstarted

theorem play (hp : P h) (player : Option UserRef) (userName sdpOffer : Option String) (throws : Option Stage)
    (delivered : Bool) : P (h.play kurento player userName sdpOffer throws delivered).1 := by
  unfold Handler.play
  split
  · split
    · next hfound => exact hP.playRecording kurento hp _ _ hfound.2 sdpOffer throws
    · exact hP.sendMessage hp _ _ _
  · exact hp

end Lasting

end CallRecording

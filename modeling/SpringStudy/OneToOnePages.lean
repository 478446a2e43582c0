import SpringStudy.Mailboxes
import SpringStudy.OneToOneReplies

/-!
# The pages of a video call

A page of the one-to-one call talks to the handler over its web socket, and any
number of pages are open. Clicks, the callbacks of the WebRTC library and the
messages come in any order; a button that the page has disabled is not clicked.
What is under way for a page, from the click on `call` to the answer, is counted: the
server makes no more of it than it gets.
-/
namespace OneToOnePages

open Tables Outcomes Runs Mailboxes
open OneToOne hiding Event step handle
open OneToOneCalls OneToOneReplies

/-! ## The page -/

inductive RegisterState where
  | notRegistered
  | registering
  | registered
  deriving DecidableEq, Repr

inductive CallState where
  | noCall
  | processingCall
  | inCall
  deriving DecidableEq, Repr

inductive ReadyState where
  | connecting
  | opened
  | closed
  deriving DecidableEq, Repr

/-- What the page wants a peer for: `onOfferCall` or `onOfferIncomingCall` gets its offer. -/
inductive Purpose where
  | call
  | incomingCall
  deriving DecidableEq, Repr

/-- A callback that has not come back yet: of the constructor of a peer, or of `generateOffer`. -/
inductive Callback where
  | created (purpose : Purpose)
  | offered (purpose : Purpose)
  deriving DecidableEq, Repr

def Callback.purpose : Callback → Purpose
  | .created purpose => purpose
  | .offered purpose => purpose

structure Page where
  registerState : RegisterState
  callState : CallState
  /-- `webRtcPeer` is not null. -/
  webRtcPeer : Bool
  /-- The variable `from`. -/
  fromName : Option String
  /-- The state of the web socket. -/
  readyState : ReadyState
  deriving DecidableEq, Repr

inductive ClientMessage where
  | register (name : String)
  | call (fromName callee sdpOffer : String)
  | incomingCallResponse (fromName : Option String) (callResponse : String) (sdpOffer : Option String)
  | onIceCandidate (candidate : IceCandidate)
  | stop
  deriving DecidableEq, Repr

/-- The page after one of its functions, what it has sent, and the callbacks it waits for. -/
structure Reaction where
  page : Page
  messages : List ClientMessage
  callbacks : List Callback

namespace Page

def init : Page := ⟨.notRegistered, .noCall, false, none, .connecting⟩

def setRegisterState (p : Page) : RegisterState → Page
  | .notRegistered => { p with registerState := .notRegistered, callState := .noCall }
  | .registering => { p with registerState := .registering }
  | .registered => { p with registerState := .registered, callState := .noCall }

def sendMessage (p : Page) (message : ClientMessage) : List ClientMessage :=
  if p.readyState = .opened then [message] else []

/-- The button is enabled until the page is registering. -/
def register (p : Page) (name : String) : Reaction :=
  if p.registerState ≠ .notRegistered ∨ name = "" then ⟨p, [], []⟩
  else ⟨p.setRegisterState .registering, p.sendMessage (.register name), []⟩

/-- The button is enabled when there is no call, also before the page has registered. -/
def call (p : Page) (peer : String) : Reaction :=
  if p.callState ≠ .noCall ∨ peer = "" then ⟨p, [], []⟩
  else ⟨{ p with callState := .processingCall, webRtcPeer := true }, [], [.created .call]⟩

/-- `told` is the parameter `message`, which is there when the other side has ended the call. -/
def stop (p : Page) (told : Bool) : Reaction :=
  ⟨{ p with callState := .noCall, webRtcPeer := false },
    if p.webRtcPeer && !told then p.sendMessage .stop else [], []⟩

/-- A click on `terminate`. -/
def terminate (p : Page) : Reaction := if p.callState = .inCall then p.stop false else ⟨p, [], []⟩

/-- The callback of the constructor. It calls `generateOffer` on the peer that the page has now. -/
def created (p : Page) (purpose : Purpose) (err : Bool) : Reaction :=
  if err || !p.webRtcPeer then ⟨p, [], []⟩ else ⟨p, [], [.offered purpose]⟩

/-- `onOfferCall` and `onOfferIncomingCall`. The names are those in the input fields now. -/
def offered (p : Page) (purpose : Purpose) (offerSdp : Option String) (name peer : String) : Reaction :=
  match offerSdp with
  | none => ⟨p, [], []⟩
  | some sdp =>
    match purpose with
    | .call => ⟨p, p.sendMessage (.call name peer sdp), []⟩
    | .incomingCall => ⟨p, p.sendMessage (.incomingCallResponse p.fromName "accept" (some sdp)), []⟩

def onError (p : Page) : Page := { p with callState := .noCall }

def registerResponse (p : Page) (accepted : Bool) : Reaction :=
  ⟨p.setRegisterState (if accepted then .registered else .notRegistered), [], []⟩

def callResponse (p : Page) (accepted : Bool) : Reaction :=
  if accepted then ⟨{ p with callState := .inCall }, [], []⟩ else p.stop false

/-- A busy page rejects the call without asking its user. -/
def incomingCall (p : Page) (caller : String) (confirmed : Bool) : Reaction :=
  let reject := p.sendMessage (.incomingCallResponse (some caller) "reject" none)
  if p.callState ≠ .noCall then ⟨p, reject, []⟩
  else if confirmed then
    ⟨{ p with callState := .processingCall, fromName := some caller, webRtcPeer := true }, [],
      [.created .incomingCall]⟩
  else
    ⟨(p.stop false).page, reject ++ (p.stop false).messages, []⟩

def onmessage (p : Page) (confirmed : Bool) : Message → Reaction
  | .registerResponse response => p.registerResponse (response = "accepted")
  | .rejected .registerResponse _ => p.registerResponse false
  | .callResponse response => p.callResponse (response = "accepted")
  | .rejected .callResponse _ => p.callResponse false
  | .incomingCall caller => p.incomingCall caller confirmed
  | .startCommunication => ⟨{ p with callState := .inCall }, [], []⟩
  | .stopCommunication => p.stop true
  -- there is no case for this id, and the page logs an unrecognized message
  | .incomingCallResponse _ _ => ⟨p, [], []⟩

end Page

/-! ## Pages and server -/

structure Net where
  server : Handler
  pages : String → Page
  /-- The callbacks still to come, each with the session of its page. -/
  callbacks : List (String × Callback)
  toServer : List (String × ClientMessage)
  toPage : List (String × Message)

def Net.init : Net := ⟨.init, fun _ => .init, [], [], []⟩

/-- What may go wrong while the server handles a message. -/
structure Fate where
  delivered : Bool
  stopDelivered : Bool
  accept : AcceptInput
  deriving DecidableEq, Repr

def ClientMessage.event (session : String) (fate : Fate) : ClientMessage → OneToOne.Event
  | .register name => .register session (some name) fate.delivered fate.stopDelivered
  | .call fromName callee sdpOffer =>
    .call session (some callee) (some fromName) (some sdpOffer) fate.delivered fate.stopDelivered
  | .incomingCallResponse fromName callResponse sdpOffer =>
    .incomingCallResponse session (some callResponse) fromName sdpOffer fate.accept
  | .onIceCandidate candidate => .onIceCandidate session candidate
  | .stop => .stop session fate.stopDelivered

inductive Event where
  | onopen (session : String)
  | register (session name : String)
  | call (session peer : String)
  | terminate (session : String)
  | created (session : String) (purpose : Purpose) (err : Bool)
  | offered (session : String) (purpose : Purpose) (offerSdp : Option String) (name peer : String)
  | onIceCandidate (session : String) (candidate : IceCandidate)
  /-- A peer of the page reports an error. -/
  | onError (session : String)
  /-- The page handles the next message of the server; `confirmed` is the answer of its user. -/
  | onmessage (session : String) (confirmed : Bool)
  /-- The server handles the next message of the page. -/
  | handle (session : String) (fate : Fate)
  | closed (session : String) (delivered : Bool)
  deriving DecidableEq, Repr

def Event.session : Event → String
  | .onopen x | .register x _ | .call x _ | .terminate x | .created x _ _ | .offered x _ _ _ _
  | .onIceCandidate x _ | .onError x | .onmessage x _ | .handle x _ | .closed x _ => x

namespace Net

def act (n : Net) (x : String) (r : Reaction) : Net :=
  { n with
    pages := Function.update n.pages x r.page
    callbacks := n.callbacks ++ r.callbacks.map (x, ·)
    toServer := n.toServer ++ r.messages.map (x, ·) }

/-- The session that a message goes to. -/
def address (h : Handler) : Receiver → Option String
  | .user u => sessionOf h u
  | .session id => some id

def posted (h : Handler) (messages : List (Receiver × Message)) : List (String × Message) :=
  messages.filterMap fun p => (address h p.1).map (·, p.2)

@[simp] theorem posted_nil (h : Handler) : posted h [] = [] := rfl

/-- The server has done a step, and its messages are on the way. -/
def serve (n : Net) (h : Handler) : Net :=
  { n with server := h, toPage := n.toPage ++ posted h (h.sent.drop n.server.sent.length) }

/-- A page that is left sends and gets nothing any more. -/
def leave (n : Net) (x : String) : Net :=
  { n with
    pages := Function.update n.pages x { n.pages x with readyState := .closed }
    callbacks := n.callbacks.filter fun p => p.1 ≠ x
    toServer := n.toServer.filter fun p => p.1 ≠ x
    toPage := n.toPage.filter fun p => p.1 ≠ x }

/-- A callback comes back if the page waits for it. -/
def comeBack (n : Net) (x : String) (c : Callback) (r : Reaction) : Net :=
  if (x, c) ∈ n.callbacks then { n with callbacks := n.callbacks.erase (x, c) }.act x r else n

def handle (n : Net) : Event → Net
  | .onopen x => n.act x ⟨{ n.pages x with readyState := .opened }, [], []⟩
  | .register x name => n.act x ((n.pages x).register name)
  | .call x peer => n.act x ((n.pages x).call peer)
  | .terminate x => n.act x (n.pages x).terminate
  | .created x purpose err => n.comeBack x (.created purpose) ((n.pages x).created purpose err)
  | .offered x purpose offerSdp name peer =>
    n.comeBack x (.offered purpose) ((n.pages x).offered purpose offerSdp name peer)
  | .onIceCandidate x candidate => n.act x ⟨n.pages x, (n.pages x).sendMessage (.onIceCandidate candidate), []⟩
  | .onError x => n.act x ⟨(n.pages x).onError, [], []⟩
  | .onmessage x confirmed =>
    match receive x n.toPage with
    | none => n
    | some (message, rest) => { n with toPage := rest }.act x ((n.pages x).onmessage confirmed message)
  | .handle x fate =>
    match receive x n.toServer with
    | none => n
    | some (message, rest) => { n with toServer := rest }.serve (OneToOne.step n.server (message.event x fate))
  | .closed x delivered => (n.serve (OneToOne.step n.server (.closed x delivered))).leave x

end Net

def step (n : Net) (e : Event) : Net := if (n.pages e.session).readyState = .closed then n else n.handle e

/-! ## What is under way for a page -/

section
variable (nameOf : String → String)

/-- A callback of a call will ask for this session; one of an incoming call will answer, too, the user
that the variable `from` names. -/
def owedByCallback (pages : String → Page) (x : String) (p : String × Callback) : Nat :=
  match p.2.purpose with
  | .call => if p.1 = x then 1 else 0
  | .incomingCall => (if p.1 = x then 1 else 0) + if (pages p.1).fromName = some (nameOf x) then 1 else 0

def owedByRequest (x : String) (p : String × ClientMessage) : Nat :=
  match p.2 with
  | .call _ _ _ => if p.1 = x then 1 else 0
  | .incomingCallResponse fromName callResponse _ =>
    (if callResponse = "accept" ∧ p.1 = x then 1 else 0) + if fromName = some (nameOf x) then 1 else 0
  | .register _ | .onIceCandidate _ | .stop => 0

def owedByMessage (x : String) (p : String × Message) : Nat :=
  match p.2 with
  | .incomingCall caller => if caller = nameOf x then 1 else 0
  | .callResponse _ | .rejected .callResponse _ | .startCommunication => if p.1 = x then 1 else 0
  | .registerResponse _ | .rejected .registerResponse _ | .stopCommunication | .incomingCallResponse _ _ => 0

/-- How many answers the page of the session may still get, for its calls and for those it accepts. -/
def Net.outstanding (n : Net) (x : String) : Nat :=
  weigh (owedByCallback nameOf n.pages x) n.callbacks + weigh (owedByRequest nameOf x) n.toServer +
    weigh (owedByMessage nameOf x) n.toPage

/-- What the page has set under way. -/
def Reaction.owed (pages : String → Page) (r : Reaction) (y x : String) : Nat :=
  weigh (owedByCallback nameOf pages x) (r.callbacks.map (y, ·)) +
    weigh (owedByRequest nameOf x) (r.messages.map (y, ·))

/-- Users call and register under their own name. -/
def Signed (p : String × ClientMessage) : Prop :=
  match p.2 with
  | .register name => name = nameOf p.1
  | .call fromName _ _ => fromName = nameOf p.1
  | .incomingCallResponse _ _ _ | .onIceCandidate _ | .stop => True

/-- What a message of the server is worth, by where it goes. -/
def heard (h : Handler) (x : String) (p : Receiver × Message) : Nat :=
  ((Net.address h p.1).map fun z => owedByMessage nameOf x (z, p.2)).getD 0

end

/-! ## The server passes on what it gets -/

section
variable {nameOf : String → String} {h h' : Handler} {x y : String}

theorem weigh_posted (messages : List (Receiver × Message)) :
    weigh (owedByMessage nameOf x) (Net.posted h messages) = weigh (heard nameOf h x) messages := by
  induction messages with
  | nil => rfl
  | cons p messages ih =>
    rw [weigh_cons, ← ih, Net.posted, List.filterMap_cons, heard]
    cases Net.address h p.1 with
    | none => exact (Nat.zero_add _).symm
    | some z => exact weigh_cons _ _ _

theorem weigh_news {messages : List (Receiver × Message)} (hs : h'.sent = h.sent ++ messages) :
    weigh (owedByMessage nameOf x) (Net.posted h' (h'.sent.drop h.sent.length)) =
      weigh (heard nameOf h' x) messages := by
  rw [hs, List.drop_left, weigh_posted]

theorem heard_eq_zero {p : Receiver × Message} (hp : ∀ z, owedByMessage nameOf x (z, p.2) = 0) :
    heard nameOf h x p = 0 := by
  unfold heard
  cases Net.address h p.1 with
  | none => rfl
  | some z => exact hp z

theorem heard_stops {stops : List (Receiver × Message)} (hstops : ∀ p ∈ stops, p.2 = .stopCommunication) :
    weigh (heard nameOf h x) stops = 0 := by
  refine weigh_eq_zero fun p hp => heard_eq_zero fun z => ?_
  rw [hstops p hp]
  rfl

theorem heard_user {u : UserRef} {z : String} (hu : sessionOf h u = some z) (message : Message) :
    heard nameOf h x (.user u, message) = owedByMessage nameOf x (z, message) := by
  simp [heard, Net.address, hu]

theorem sessionOf_eq (hs : sessions h' = sessions h) (u : UserRef) : sessionOf h' u = sessionOf h u := by
  rw [sessionOf, hs, sessionOf]

/-- The call of a session turns into one message for it: an incoming call under its name, or an answer. -/
theorem call_heard (hinj : Function.Injective nameOf) (hj : Seated h) (callee sdpOffer : Option String)
    (delivered stopDelivered : Bool)
    (he : OneToOne.step h (.call y callee (some (nameOf y)) sdpOffer delivered stopDelivered) = h') :
    weigh (owedByMessage nameOf x) (Net.posted h' (h'.sent.drop h.sent.length)) ≤ if y = x then 1 else 0 := by
  subst he
  have hsessions : sessions (OneToOne.step h
      (.call y callee (some (nameOf y)) sdpOffer delivered stopDelivered)) = sessions h :=
    (sessions_unmoved h).handleErrorResponse ((sessions_unmoved h).call rfl _ _ _ _ _) _ _ _
  have hcall := call_sent h (h.usersBySessionId.lookup y) callee (some (nameOf y)) sdpOffer delivered
  simp only [OneToOne.step, OneToOne.handle] at hsessions ⊢
  generalize h.call (h.usersBySessionId.lookup y) callee (some (nameOf y)) sdpOffer delivered = q at hcall hsessions ⊢
  obtain ⟨h₁, - | failure⟩ := q
  · have hok : (Handler.handleErrorResponse (h₁, none) y .callResponse stopDelivered).1 = h₁ := rfl
    rw [hok] at hsessions ⊢
    obtain ⟨hfail, -⟩ | ⟨-, p, hs, ⟨name, hname, hp⟩ | ⟨c, response, hc, hp⟩⟩ := hcall
    · exact absurd rfl hfail
    · rw [weigh_news hs]
      obtain rfl := Option.some.inj hname
      unfold heard
      rw [weigh_cons, weigh_nil, Nat.add_zero, hp]
      cases Net.address h₁ p.1 with
      | none => exact Nat.zero_le _
      | some z =>
        show (if nameOf y = nameOf x then 1 else 0) ≤ _
        rw [if_congr hinj.eq_iff rfl rfl]
    · rw [weigh_news hs, hp, weigh_cons, weigh_nil,
        heard_user ((sessionOf_eq hsessions c).trans (hj y c hc))]
      exact Nat.le_refl _
  · obtain ⟨-, hs⟩ | ⟨hok, -⟩ := hcall
    · obtain ⟨stops, last, hsent, hstops, hlast⟩ :=
        handleErrorResponse_sent h₁ failure y .callResponse stopDelivered
      rw [weigh_news (hsent.trans (congrArg (· ++ _) hs)), weigh_append, heard_stops hstops, Nat.zero_add]
      rcases hlast with rfl | rfl
      · exact Nat.zero_le _
      · exact Nat.le_refl _
    · cases hok

/-- An accepted call turns into one answer for each side. -/
theorem accept_heard (hj : Seated h) (hn : Named nameOf h) (fromName sdpOffer : Option String) (input : AcceptInput)
    (hthrows : input.throws ≠ some .gatherCandidates)
    (he : OneToOne.step h (.incomingCallResponse y (some "accept") fromName sdpOffer input) = h') :
    weigh (owedByMessage nameOf x) (Net.posted h' (h'.sent.drop h.sent.length)) ≤
      (if y = x then 1 else 0) + if fromName = some (nameOf x) then 1 else 0 := by
  subst he
  have hsessions : sessions (OneToOne.step h (.incomingCallResponse y (some "accept") fromName sdpOffer input)) =
      sessions h := (sessions_unmoved h).incomingCallResponse rfl _ _ _ _ _
  simp only [OneToOne.step, OneToOne.handle, Handler.incomingCallResponse] at hsessions ⊢
  cases fromName with
  | none => simp
  | some name =>
    simp only at hsessions ⊢
    cases hu : h.usersByName.lookup name with
    | none => simp
    | some calleer =>
      obtain ⟨z, hz, hname⟩ := hn name calleer hu
      obtain ⟨user, huser, hsession⟩ : ∃ user, h.heap[calleer]? = some user ∧ user.session = z := by
        rw [sessionOf, sessions, List.getElem?_map] at hz
        exact Option.map_eq_some_iff.mp hz
      simp only [hu, Option.bind_some, Handler.withSession, huser, Option.map_some, if_true] at hsessions ⊢
      obtain ⟨started, told, stops, hs, hstarted, htold, hstops⟩ := accept_sent h calleer user.session
        ((h.usersBySessionId.lookup y).bind h.withSession) sdpOffer input hthrows
      rw [weigh_news hs, weigh_append, weigh_append, heard_stops hstops, Nat.add_zero]
      refine Nat.add_le_add ?_ ?_
      · rcases hstarted with rfl | ⟨c, hc, rfl⟩
        · exact Nat.zero_le _
        · obtain ⟨u, hy, hcu⟩ := Option.bind_eq_some_iff.mp hc
          obtain ⟨-, -, rfl⟩ := Option.map_eq_some_iff.mp hcu
          rw [weigh_cons, weigh_nil, heard_user ((sessionOf_eq hsessions u).trans (hj y u hy))]
          exact Nat.le_refl _
      · rcases htold with rfl | ⟨response, rfl⟩
        · exact Nat.zero_le _
        · rw [weigh_cons, weigh_nil, heard_user ((sessionOf_eq hsessions calleer).trans hz)]
          show (if z = x then 1 else 0) ≤ _
          split
          · next hzx => rw [if_pos (by rw [← hname, hzx])]
          · exact Nat.zero_le _

/-- A call that is not accepted leaves nothing to be answered. -/
theorem decline_heard (fromName sdpOffer : Option String) {response : String} (hresponse : response ≠ "accept")
    (input : AcceptInput)
    (he : OneToOne.step h (.incomingCallResponse y (some response) fromName sdpOffer input) = h') :
    weigh (owedByMessage nameOf x) (Net.posted h' (h'.sent.drop h.sent.length)) = 0 := by
  subst he
  simp only [OneToOne.step, OneToOne.handle, Handler.incomingCallResponse]
  cases fromName with
  | none => simp
  | some name =>
    simp only
    cases hu : (h.usersByName.lookup name).bind h.withSession with
    | none => simp
    | some calleer =>
      simp only [hresponse, if_false]
      rcases sendMessage_sent h calleer.1 (.incomingCallResponse response name) input.informed with
        ⟨hs, -⟩ | ⟨hs, -⟩
      · rw [weigh_news (hs.trans (List.append_nil _).symm), weigh_nil]
      · rw [weigh_news hs, weigh_cons, weigh_nil]
        exact heard_eq_zero fun z => rfl

theorem silent_heard {messages : List (Receiver × Message)} (hs : h'.sent = h.sent ++ messages)
    (hmessages : ∀ p ∈ messages, ∀ z, owedByMessage nameOf x (z, p.2) = 0) :
    weigh (owedByMessage nameOf x) (Net.posted h' (h'.sent.drop h.sent.length)) = 0 := by
  rw [weigh_news hs]
  exact weigh_eq_zero fun p hp => heard_eq_zero (hmessages p hp)

theorem register_heard (name : Option String) (delivered stopDelivered : Bool)
    (he : OneToOne.step h (.register y name delivered stopDelivered) = h') :
    weigh (owedByMessage nameOf x) (Net.posted h' (h'.sent.drop h.sent.length)) = 0 := by
  subst he
  obtain ⟨replies, hs, hreplies⟩ := register_sent h y name delivered
  simp only [OneToOne.step, OneToOne.handle]
  generalize h.register y name delivered = q at hs ⊢
  obtain ⟨h₁, - | failure⟩ := q
  · refine silent_heard hs fun p hp z => ?_
    obtain ⟨response, hp⟩ := hreplies p hp
    rw [hp]
    rfl
  · obtain ⟨stops, last, hsent, hstops, hlast⟩ :=
      handleErrorResponse_sent h₁ failure y .registerResponse stopDelivered
    rw [hs, List.append_assoc] at hsent
    refine silent_heard hsent fun p hp z => ?_
    rcases List.mem_append.mp hp with hp | hp
    · obtain ⟨response, hp⟩ := hreplies p hp
      rw [hp]
      rfl
    · rcases List.mem_append.mp hp with hp | hp
      · rw [hstops p hp]
        rfl
      · rcases hlast with rfl | rfl
        · cases hp
        · rw [List.mem_singleton.mp hp]
          rfl

theorem stop_heard (delivered : Bool) (he : OneToOne.step h (.stop y delivered) = h') :
    weigh (owedByMessage nameOf x) (Net.posted h' (h'.sent.drop h.sent.length)) = 0 := by
  subst he
  obtain ⟨stops, hs, hstops⟩ := stop_sent h y delivered
  refine silent_heard hs fun p hp z => ?_
  rw [hstops p hp]
  rfl

theorem closed_heard (delivered : Bool) (he : OneToOne.step h (.closed y delivered) = h') :
    weigh (owedByMessage nameOf x) (Net.posted h' (h'.sent.drop h.sent.length)) = 0 := by
  subst he
  obtain ⟨stops, hs, hstops⟩ := stop_sent h y delivered
  have hclosed : (OneToOne.step h (.closed y delivered)).sent = h.sent ++ stops := by
    refine andThen_invariant (I := fun h₁ : Handler => h₁.sent = h.sent ++ stops) _ _ hs fun h₁ hs₁ => ?_
    show (h₁.removeBySession y).sent = _
    unfold Handler.removeBySession
    split <;> exact hs₁
  refine silent_heard hclosed fun p hp z => ?_
  rw [hstops p hp]
  rfl

theorem onIceCandidate_sent (candidate : IceCandidate) :
    (OneToOne.step h (.onIceCandidate y candidate)).sent = h.sent := by
  simp only [OneToOne.step, OneToOne.handle]
  cases h.usersBySessionId.lookup y with
  | none => rfl
  | some u =>
    show (h.addCandidate u candidate).sent = h.sent
    unfold Handler.addCandidate
    split <;> rfl

/-- What the server says is worth no more than what it has been sent. -/
theorem handle_heard (hinj : Function.Injective nameOf) (hj : Seated h) (hn : Named nameOf h)
    {message : ClientMessage} (hsigned : Signed nameOf (y, message)) {fate : Fate}
    (hthrows : fate.accept.throws ≠ some .gatherCandidates) (he : OneToOne.step h (message.event y fate) = h') :
    weigh (owedByMessage nameOf x) (Net.posted h' (h'.sent.drop h.sent.length)) ≤
      owedByRequest nameOf x (y, message) := by
  cases message with
  | register name => exact Nat.le_of_eq (register_heard _ _ _ he)
  | call fromName callee sdpOffer =>
    obtain rfl : fromName = nameOf y := hsigned
    exact call_heard hinj hj _ _ _ _ he
  | incomingCallResponse fromName callResponse sdpOffer =>
    by_cases hresponse : callResponse = "accept"
    · subst hresponse
      simp only [owedByRequest, true_and]
      exact accept_heard hj hn _ _ _ hthrows he
    · rw [decline_heard _ _ hresponse _ he]
      exact Nat.zero_le _
  | onIceCandidate candidate =>
    subst he
    exact Nat.le_of_eq (silent_heard ((onIceCandidate_sent candidate).trans (List.append_nil _).symm) (by simp))
  | stop => exact Nat.le_of_eq (stop_heard _ he)

end

end OneToOnePages

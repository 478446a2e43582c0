import SpringStudy.HelloSessions

/-!
# The hello world page and its server

The page and the handler talk over one web socket, in order in each direction. The
page starts and stops at its own pace, and the callbacks of its WebRTC library come
back when they like, also after the stop of the attempt they belong to. Here a
handler of the server runs to its end before the next one starts, the listeners of
Kurento included. What they do in the middle of each other is the subject of
`HelloSessions`: a stop by a listener while an offer has not stored its pipeline yet
leaves that pipeline behind, however calm the page is.
-/
namespace HelloProtocol

open Tables Interleavings Runs HelloSessions

/-! ## The page -/

inductive UiState where
  | idle
  | starting
  | started
  deriving DecidableEq, Repr

inductive ReadyState where
  | connecting
  | opened
  | closed
  deriving DecidableEq, Repr

/-- `creating`, `offering` and `answering` count the callbacks that have not come back yet:
of the constructor of the peer, of `generateOffer` and of `processAnswer`. -/
structure Page where
  uiState : UiState
  /-- `webRtcPeer` is not null. -/
  webRtcPeer : Bool
  creating : Nat
  offering : Nat
  answering : Nat
  /-- The state of the web socket. -/
  readyState : ReadyState
  deriving DecidableEq, Repr

namespace Page

def init : Page := ⟨.idle, false, 0, 0, 0, .connecting⟩

def sendMessage (p : Page) (message : ClientMessage) : List ClientMessage :=
  if p.readyState = .opened then [message] else []

def sendError (p : Page) (message : String) : List ClientMessage := p.sendMessage (.error (some message))

def stop (p : Page) : Page × List ClientMessage :=
  if p.uiState = .idle then (p, [])
  else ({ p with webRtcPeer := false, uiState := .idle }, p.sendMessage .stop)

/-- The error is reported, and then the page stops. -/
def fail (p : Page) (message : String) : Page × List ClientMessage :=
  ((p.stop).1, p.sendError message ++ (p.stop).2)

/-- The button is enabled in the idle state only. -/
def uiStart (p : Page) : Page × List ClientMessage :=
  if p.uiState = .idle then
    ({ p with uiState := .starting, webRtcPeer := true, creating := p.creating + 1 }, [])
  else (p, [])

/-- The button is enabled in the started state only. -/
def uiStop (p : Page) : Page × List ClientMessage := if p.uiState = .started then p.stop else (p, [])

def explainUserMediaError (name err : String) : String :=
  if name = "NotFoundError" ∨ name = "DevicesNotFoundError" then "Missing webcam for required tracks"
  else if name = "NotReadableError" ∨ name = "TrackStartError" then "Webcam is already in use"
  else if name = "OverconstrainedError" ∨ name = "ConstraintNotSatisfiedError" then
    "Webcam doesn't provide required tracks"
  else if name = "NotAllowedError" ∨ name = "PermissionDeniedError" then
    "Webcam permission has been denied by the user"
  else if name = "TypeError" then "No media tracks have been requested"
  else "Unknown error: " ++ err

/-- The callback of the constructor; an error has a name and a text. It calls
`generateOffer` on the peer that the page has now. -/
def created (p : Page) (err : Option (String × String)) : Page × List ClientMessage :=
  if p.creating = 0 then (p, [])
  else
    let p := { p with creating := p.creating - 1 }
    match err with
    | some (name, text) => p.fail ("[start/WebRtcPeerSendrecv] Error: " ++ explainUserMediaError name text)
    | none => (if p.webRtcPeer then { p with offering := p.offering + 1 } else p, [])

/-- The callback of `generateOffer`. -/
def offered (p : Page) (result : Except String String) : Page × List ClientMessage :=
  if p.offering = 0 then (p, [])
  else
    let p := { p with offering := p.offering - 1 }
    match result with
    | .error err => p.fail ("[start/WebRtcPeerSendrecv/generateOffer] Error: " ++ err)
    | .ok sdpOffer => ({ p with uiState := .started }, p.sendMessage (.processSdpOffer (some sdpOffer)))

/-- The callback of `processAnswer`. -/
def answered (p : Page) (err : Option String) : Page × List ClientMessage :=
  if p.answering = 0 then (p, [])
  else
    let p := { p with answering := p.answering - 1 }
    match err with
    | some err => p.fail ("[handleProcessSdpAnswer] Error: " ++ err)
    | none => ({ p with uiState := .started }, [])

def onmessage (p : Page) : ServerMessage → Page × List ClientMessage
  | .processSdpAnswer _ => (if p.webRtcPeer then { p with answering := p.answering + 1 } else p, [])
  | .addIceCandidate _ => (p, [])
  | .error _ => p.stop

end Page

/-! ## The server, one handler at a time -/

/-- How many steps a handler has still to go at most. -/
def Task.rank : Task → Nat
  | .newUser _ _ => 9
  | .createMediaPipeline _ _ _ => 8
  | .setMediaPipeline _ _ _ => 7
  | .buildWebRtcEndpoint _ _ _ => 6
  | .setWebRtcEndpoint _ _ _ => 5
  | .initWebRtcEndpoint _ _ _ => 4
  | .sendAnswer _ _ _ => 3
  | .startWebRtcEndpoint _ _ => 2
  | .containsUser _ _ => 5
  | .getUser _ _ => 4
  | .getWebRtcEndpoint _ _ _ => 3
  | .addIceCandidate _ _ _ => 2
  | .handleError _ _ => 4
  | .sendError _ _ => 1
  | .removeUser _ => 3
  | .getMediaPipeline _ => 2
  | .release _ => 1
  | .errorEvent _ _ => 4
  | .candidateFound _ _ => 1
  | .connectionClosed _ => 4
  | .done => 0

/-- The handler takes `n` steps; `replies n` answers the last but `n` of them. -/
def finish (replies : Nat → Reply) : Nat → Shared → Task → Shared × Task
  | 0, s, t => (s, t)
  | n + 1, s, t => finish replies n (advance (replies n) s t).1 (advance (replies n) s t).2

/-- The handler runs to its end, with nothing in between. None has more steps than an offer. -/
def handle (replies : Nat → Reply) (s : Shared) (t : Task) : Shared := (finish replies 9 s t).1

/-- What goes over the socket to the server. -/
inductive Packet where
  | message (text : ClientMessage)
  | close
  deriving DecidableEq, Repr

def Packet.task (sessionId : String) : Packet → Task
  | .message text => handleTextMessage sessionId text
  | .close => .connectionClosed sessionId

structure Net where
  page : Page
  toServer : List Packet
  toPage : List ServerMessage
  server : Shared

def Net.init : Net := ⟨.init, [], [], .init⟩

inductive Event where
  | uiStart
  | uiStop
  | created (err : Option (String × String))
  | offered (result : Except String String)
  | answered (err : Option String)
  | onicecandidate (candidate : IceCandidate)
  /-- The page handles the next message of the server. -/
  | onmessage
  /-- The connection is there. -/
  | onopen
  /-- The page is left. -/
  | onbeforeunload
  /-- The connection breaks, and only the first `arrive` packets get through. -/
  | disconnect (arrive : Nat)
  /-- The server handles the next packet. -/
  | handle (replies : Nat → Reply)
  | errorEvent (description : String) (replies : Nat → Reply)
  | candidateFound (candidate : IceCandidate)

/-- The page has acted, and its messages are on the way. -/
def Net.act (n : Net) (q : Page × List ClientMessage) : Net :=
  { n with page := q.1, toServer := n.toServer ++ q.2.map .message }

/-- A handler of the server has run, and its messages are on the way. -/
def Net.serve (n : Net) (server : Shared) : Net :=
  { n with server := server, toPage := n.toPage ++ (server.sent.drop n.server.sent.length).map Prod.snd }

/-- The socket is closed; the server hears of it after what has still arrived. -/
def Net.hangUp (n : Net) (arrived : List Packet) : Net :=
  { n with
    page := { n.page with readyState := .closed }
    toServer := if n.page.readyState = .opened then arrived ++ [.close] else n.toServer }

def step (sessionId : String) (n : Net) : Event → Net
  | .uiStart => n.act n.page.uiStart
  | .uiStop => n.act n.page.uiStop
  | .created err => n.act (n.page.created err)
  | .offered result => n.act (n.page.offered result)
  | .answered err => n.act (n.page.answered err)
  | .onicecandidate candidate => n.act (n.page, n.page.sendMessage (.addIceCandidate (some candidate)))
  | .onmessage =>
    match n.toPage with
    | [] => n
    | message :: rest => { n with toPage := rest }.act (n.page.onmessage message)
  | .onopen =>
    if n.page.readyState = .connecting then { n with page := { n.page with readyState := .opened } } else n
  | .onbeforeunload => n.hangUp n.toServer
  | .disconnect arrive => n.hangUp (n.toServer.take arrive)
  | .handle replies =>
    match n.toServer with
    | [] => n
    | packet :: rest =>
      { n with toServer := rest }.serve (HelloProtocol.handle replies n.server (packet.task sessionId))
  | .errorEvent description replies =>
    n.serve (HelloProtocol.handle replies n.server (.errorEvent sessionId description))
  | .candidateFound candidate =>
    n.serve (HelloProtocol.handle (fun _ => .ok "") n.server (.candidateFound sessionId candidate))

/-! ## What a handler leaves behind -/

/-- The handler is one of this session. -/
def Task.About (sessionId : String) : Task → Prop
  | .newUser x _ => x = sessionId
  | .handleError x _ => x = sessionId
  | .removeUser x => x = sessionId
  | .errorEvent x _ => x = sessionId
  | .connectionClosed x => x = sessionId
  | _ => True

/-- The session is in the map when the handler has finished; `now` tells whether it is now. -/
def Task.leaves (now : Bool) : Task → Bool
  | .newUser _ _ => true
  | .handleError _ (some _) => false
  | .removeUser _ => false
  | .errorEvent _ _ => false
  | .connectionClosed _ => false
  | _ => now

/-- One step of a handler of this session. -/
structure Follows (sessionId : String) (s : Shared) (t : Task) (s' : Shared) (t' : Task) : Prop where
  about : Task.About sessionId t'
  leaves : Task.leaves (s'.users.lookup sessionId).isSome t' = Task.leaves (s.users.lookup sessionId).isSome t
  others : ∀ x, x ≠ sessionId → s'.users.lookup x = s.users.lookup x
  puts : t'.puts = none
  rank : Task.rank t' ≤ Task.rank t - 1

section
variable {sessionId : String} {s s' : Shared} {t t' : Task}

/-- The map stays, and so does what will become of it. -/
theorem Follows.same (husers : s'.users = s.users) (habout : Task.About sessionId t')
    (hleaves : ∀ now, Task.leaves now t' = Task.leaves now t) (hputs : t'.puts = none)
    (hrank : Task.rank t' ≤ Task.rank t - 1) : Follows sessionId s t s' t' :=
  ⟨habout, by rw [husers, hleaves], fun x _ => by rw [husers], hputs, hrank⟩

theorem advance_follows (reply : Reply) (s : Shared) (t : Task) (ht : Task.About sessionId t) :
    Follows sessionId s t (advance reply s t).1 (advance reply s t).2 := by
  cases t with
  | newUser x sdpOffer =>
    obtain rfl : x = sessionId := ht
    refine ⟨trivial, ?_, fun y hy => ?_, rfl, Nat.le_refl _⟩
    · show ((s.users.insert x s.heap.length).lookup x).isSome = true
      rw [lookup_put, if_pos rfl]
      rfl
    · show (s.users.insert x s.heap.length).lookup y = s.users.lookup y
      rw [lookup_put, if_neg hy]
  | createMediaPipeline x user sdpOffer =>
    cases reply with
    | ok _ => exact .same rfl trivial (fun _ => rfl) rfl (Nat.le_refl _)
    | error message => exact .same rfl trivial (fun _ => rfl) rfl (Nat.le_of_ble_eq_true rfl)
  | setMediaPipeline x user sdpOffer => exact .same rfl trivial (fun _ => rfl) rfl (Nat.le_refl _)
  | buildWebRtcEndpoint x user sdpOffer =>
    cases reply with
    | ok _ => exact .same rfl trivial (fun _ => rfl) rfl (Nat.le_refl _)
    | error message => exact .same rfl trivial (fun _ => rfl) rfl (Nat.le_of_ble_eq_true rfl)
  | setWebRtcEndpoint x user sdpOffer => exact .same rfl trivial (fun _ => rfl) rfl (Nat.le_refl _)
  | initWebRtcEndpoint x user sdpOffer =>
    unfold advance
    dsimp only
    split
    · exact .same rfl trivial (fun _ => rfl) rfl (Nat.le_of_ble_eq_true rfl)
    · exact .same rfl trivial (fun _ => rfl) rfl (Nat.le_of_ble_eq_true rfl)
  | sendAnswer x user sdpAnswer =>
    exact .same (sendMessage_quiet s x _).users trivial (fun _ => rfl) rfl (Nat.le_refl _)
  | startWebRtcEndpoint x user =>
    cases reply with
    | ok _ => exact .same rfl trivial (fun _ => rfl) rfl (Nat.le_of_ble_eq_true rfl)
    | error message => exact .same rfl trivial (fun _ => rfl) rfl (Nat.le_of_ble_eq_true rfl)
  | containsUser x candidate =>
    unfold advance
    dsimp only
    split
    · exact .same rfl trivial (fun _ => rfl) rfl (Nat.le_refl _)
    · exact .same rfl trivial (fun _ => rfl) rfl (Nat.le_of_ble_eq_true rfl)
  | getUser x candidate =>
    unfold advance
    dsimp only
    split
    · exact .same rfl trivial (fun _ => rfl) rfl (Nat.le_of_ble_eq_true rfl)
    · exact .same rfl trivial (fun _ => rfl) rfl (Nat.le_of_ble_eq_true rfl)
  | getWebRtcEndpoint x user candidate =>
    unfold advance
    dsimp only
    split
    · exact .same rfl trivial (fun _ => rfl) rfl (Nat.le_of_ble_eq_true rfl)
    · exact .same rfl trivial (fun _ => rfl) rfl (Nat.le_of_ble_eq_true rfl)
  | addIceCandidate x endpoint candidate =>
    cases reply with
    | ok _ => exact .same rfl trivial (fun _ => rfl) rfl (Nat.le_of_ble_eq_true rfl)
    | error message => exact .same rfl trivial (fun _ => rfl) rfl (Nat.le_of_ble_eq_true rfl)
  | handleError x message =>
    cases message with
    | some _ => exact .same rfl ht (fun _ => rfl) rfl (Nat.le_refl _)
    | none => exact .same rfl trivial (fun _ => rfl) rfl (Nat.le_of_ble_eq_true rfl)
  | sendError x errMsg => exact .same (sendError_quiet s x errMsg).users trivial (fun _ => rfl) rfl (Nat.le_of_ble_eq_true rfl)
  | removeUser x =>
    obtain rfl : x = sessionId := ht
    cases hl : s.users.lookup x with
    | none =>
      have heq : advance reply s (.removeUser x) = (s, .done) := by simp only [advance, hl]
      rw [heq]
      refine ⟨trivial, ?_, fun _ _ => rfl, rfl, Nat.le_of_ble_eq_true rfl⟩
      show (s.users.lookup x).isSome = false
      rw [hl]
      rfl
    | some user =>
      have heq : advance reply s (.removeUser x) =
          ({ s with users := s.users.erase x }, .getMediaPipeline user) := by simp only [advance, hl]
      rw [heq]
      refine ⟨trivial, ?_, fun y hy => ?_, rfl, Nat.le_refl _⟩
      · show ((s.users.erase x).lookup x).isSome = false
        rw [lookup_remove, if_pos rfl]
        rfl
      · show (s.users.erase x).lookup y = s.users.lookup y
        rw [lookup_remove, if_neg hy]
  | getMediaPipeline user =>
    unfold advance
    dsimp only
    split
    · exact .same rfl trivial (fun _ => rfl) rfl (Nat.le_refl _)
    · exact .same rfl trivial (fun _ => rfl) rfl (Nat.le_of_ble_eq_true rfl)
  | release pipeline => exact .same rfl trivial (fun _ => rfl) rfl (Nat.le_of_ble_eq_true rfl)
  | errorEvent x description =>
    exact .same (sendError_quiet s x _).users ht (fun _ => rfl) rfl (Nat.le_refl _)
  | candidateFound x candidate =>
    exact .same (sendMessage_quiet s x _).users trivial (fun _ => rfl) rfl (Nat.le_of_ble_eq_true rfl)
  | connectionClosed x => exact .same rfl ht (fun _ => rfl) rfl (Nat.le_refl _)
  | done => exact .same rfl trivial (fun _ => rfl) rfl (Nat.le_refl _)

end

theorem finish_follows {sessionId : String} (replies : Nat → Reply) (n : Nat) (s : Shared) (t : Task)
    (ht : Task.About sessionId t) (hn : Task.rank t ≤ n) :
    (finish replies n s t).2 = .done ∧
      ((finish replies n s t).1.users.lookup sessionId).isSome =
        Task.leaves (s.users.lookup sessionId).isSome t ∧
      ∀ x, x ≠ sessionId → (finish replies n s t).1.users.lookup x = s.users.lookup x := by
  induction n generalizing s t with
  | zero =>
    cases t with
    | done => exact ⟨rfl, rfl, fun _ _ => rfl⟩
    | _ => cases hn
  | succ n ih =>
    obtain ⟨habout, hleaves, hothers, -, hrank⟩ := advance_follows (replies n) s t ht
    obtain ⟨hdone, hlast, hlastOthers⟩ := ih _ _ habout (by omega)
    refine ⟨hdone, hlast.trans hleaves, fun x hx => (hlastOthers x hx).trans (hothers x hx)⟩

theorem rank_le (t : Task) : Task.rank t ≤ 9 := by
  cases t <;> exact Nat.le_of_ble_eq_true rfl

/-! ## What the packets on the way lead to -/

/-- The session is in the map of the server when all these packets have been handled. -/
def intent (sessionId : String) (packets : List Packet) (now : Bool) : Bool :=
  packets.foldl (fun now packet => Task.leaves now (packet.task sessionId)) now

/-- No offer among the packets meets a session. -/
def clean (sessionId : String) : List Packet → Bool → Bool
  | [], _ => true
  | packet :: rest, now =>
    ((packet.task sessionId).puts.isNone || !now) && clean sessionId rest (Task.leaves now (packet.task sessionId))

theorem leaves_mono {a b : Bool} (hab : a = true → b = true) (t : Task) (h : Task.leaves a t = true) :
    Task.leaves b t = true := by
  cases t with
  | newUser x sdpOffer => rfl
  | handleError x message =>
    cases message with
    | some _ => cases h
    | none => exact hab h
  | _ => first | exact hab h | cases h

/-- Only an offer brings a session. -/
theorem leaves_of_puts {t : Task} (hputs : t.puts = none) {now : Bool} (h : Task.leaves now t = true) :
    now = true := by
  cases t with
  | newUser x sdpOffer => cases hputs
  | handleError x message =>
    cases message with
    | some _ => cases h
    | none => exact h
  | _ => first | exact h | cases h

section
variable {sessionId : String}

theorem intent_append (packets more : List Packet) (now : Bool) :
    intent sessionId (packets ++ more) now = intent sessionId more (intent sessionId packets now) :=
  List.foldl_append

theorem intent_mono {a b : Bool} (packets : List Packet) (hab : a = true → b = true)
    (h : intent sessionId packets a = true) : intent sessionId packets b = true := by
  induction packets generalizing a b with
  | nil => exact hab h
  | cons packet rest ih => exact ih (leaves_mono hab _) h

theorem clean_append (packets more : List Packet) (now : Bool) :
    clean sessionId (packets ++ more) now =
      (clean sessionId packets now && clean sessionId more (intent sessionId packets now)) := by
  induction packets generalizing now with
  | nil => rfl
  | cons packet rest ih =>
    simp only [List.cons_append, clean, ih, intent, List.foldl_cons, Bool.and_assoc]

theorem clean_mono {a b : Bool} (packets : List Packet) (hab : a = true → b = true)
    (h : clean sessionId packets b = true) : clean sessionId packets a = true := by
  induction packets generalizing a b with
  | nil => rfl
  | cons packet rest ih =>
    simp only [clean, Bool.and_eq_true, Bool.or_eq_true, Bool.not_eq_true'] at h ⊢
    refine ⟨h.1.imp_right fun hb => ?_, ih (leaves_mono hab _) h.2⟩
    rw [← Bool.not_eq_true] at hb ⊢
    exact fun ha => hb (hab ha)

end

/-! ## What the page does at once -/

/-- A message that asks for no session. -/
def Mild : ClientMessage → Prop
  | .processSdpOffer _ => False
  | _ => True

/-- The attempts whose offer has not been made yet. -/
def Page.pending (p : Page) : Nat := p.creating + p.offering

inductive Acts (disturbing : Bool) (p : Page) : Page → List ClientMessage → Prop where
  | same {p' : Page} {out : List ClientMessage} (hready : p'.readyState = p.readyState)
      (hstate : p'.uiState = p.uiState) (hpending : p'.pending ≤ p.pending) (hout : ∀ text ∈ out, Mild text) :
      Acts disturbing p p' out
  | start {p' : Page} (hready : p'.readyState = p.readyState) (hidle : p.uiState = .idle)
      (hstarting : p'.uiState = .starting) (hpending : p'.pending = p.pending + 1) : Acts disturbing p p' []
  | stop {p' : Page} {out : List ClientMessage} (hready : p'.readyState = p.readyState)
      (hidle : p'.uiState = .idle)
      (hpending : p'.pending < p.pending ∨
        p'.pending = p.pending ∧ (disturbing = true ∨ p.uiState = .started))
      (hout : ∀ text ∈ out, Mild text) : Acts disturbing p p' (out ++ p.sendMessage .stop)
  | offer {p' : Page} (hready : p'.readyState = p.readyState) (hstarted : p'.uiState = .started)
      (hpending : p'.pending + 1 = p.pending) (sdpOffer : String) :
      Acts disturbing p p' (p.sendMessage (.processSdpOffer (some sdpOffer)))
  | ready {p' : Page} (hdisturbing : disturbing = true) (hready : p'.readyState = p.readyState)
      (hstarted : p'.uiState = .started) (hpending : p'.pending = p.pending) : Acts disturbing p p' []

section
variable {disturbing : Bool} {p p' : Page}

theorem mild_sendMessage (p : Page) {message : ClientMessage} (h : Mild message) :
    ∀ text ∈ p.sendMessage message, Mild text := by
  intro text htext
  unfold Page.sendMessage at htext
  split at htext
  · obtain rfl := List.mem_singleton.mp htext
    exact h
  · cases htext

/-- Whatever leads the page to stop, `p'` is the page at this point. -/
theorem stop_acts (out : List ClientMessage) (hready : p'.readyState = p.readyState)
    (hstate : p'.uiState = p.uiState)
    (hpending : p'.pending < p.pending ∨
      p'.pending = p.pending ∧ (disturbing = true ∨ p.uiState = .started))
    (hout : ∀ text ∈ out, Mild text) : Acts disturbing p p'.stop.1 (out ++ p'.stop.2) := by
  unfold Page.stop
  split
  · rw [List.append_nil]
    refine .same hready hstate ?_ hout
    rcases hpending with hless | ⟨heq, -⟩
    · exact Nat.le_of_lt hless
    · exact Nat.le_of_eq heq
  · have hsame : p'.sendMessage .stop = p.sendMessage .stop := by
      unfold Page.sendMessage
      rw [hready]
    rw [hsame]
    exact .stop hready rfl hpending hout

theorem uiStart_acts (p : Page) : Acts disturbing p p.uiStart.1 p.uiStart.2 := by
  unfold Page.uiStart
  split
  · next hidle => exact .start rfl hidle rfl (Nat.add_right_comm _ _ _)
  · exact .same rfl rfl (Nat.le_refl _) fun _ h => by cases h

theorem uiStop_acts (p : Page) : Acts disturbing p p.uiStop.1 p.uiStop.2 := by
  unfold Page.uiStop
  split
  · next hstarted => exact stop_acts [] rfl rfl (.inr ⟨rfl, .inr hstarted⟩) fun _ h => by cases h
  · exact .same rfl rfl (Nat.le_refl _) fun _ h => by cases h

theorem created_acts (p : Page) (err : Option (String × String)) :
    Acts disturbing p (p.created err).1 (p.created err).2 := by
  unfold Page.created
  split
  · exact .same rfl rfl (Nat.le_refl _) fun _ h => by cases h
  · next hcreating =>
    have hless : p.creating - 1 + p.offering < p.creating + p.offering := by omega
    cases err with
    | some e => exact stop_acts _ rfl rfl (.inl hless) (mild_sendMessage _ trivial)
    | none =>
      dsimp only
      split
      · refine .same rfl rfl ?_ fun _ h => by cases h
        show p.creating - 1 + (p.offering + 1) ≤ p.creating + p.offering
        omega
      · exact .same rfl rfl (Nat.le_of_lt hless) fun _ h => by cases h

theorem offered_acts (p : Page) (result : Except String String) :
    Acts disturbing p (p.offered result).1 (p.offered result).2 := by
  unfold Page.offered
  split
  · exact .same rfl rfl (Nat.le_refl _) fun _ h => by cases h
  · next hoffering =>
    have hless : p.creating + (p.offering - 1) + 1 = p.creating + p.offering := by omega
    cases result with
    | error err => exact stop_acts _ rfl rfl (.inl (Nat.lt_of_succ_le (Nat.le_of_eq hless))) (mild_sendMessage _ trivial)
    | ok sdpOffer =>
      have hoffer : Acts disturbing p { p with offering := p.offering - 1, uiState := .started }
          (p.sendMessage (.processSdpOffer (some sdpOffer))) := by
        refine .offer ?_ ?_ ?_ sdpOffer
        · rfl
        · rfl
        · exact hless
      exact hoffer

theorem answered_acts (p : Page) (err : Option String) : Acts true p (p.answered err).1 (p.answered err).2 := by
  unfold Page.answered
  split
  · exact .same rfl rfl (Nat.le_refl _) fun _ h => by cases h
  · cases err with
    | some err => exact stop_acts _ rfl rfl (.inr ⟨rfl, .inl rfl⟩) (mild_sendMessage _ trivial)
    | none => exact .ready rfl rfl rfl rfl

theorem onmessage_acts (p : Page) (message : ServerMessage) (herror : ∀ text, message = .error text → disturbing = true) :
    Acts disturbing p (p.onmessage message).1 (p.onmessage message).2 := by
  cases message with
  | processSdpAnswer sdpAnswer =>
    unfold Page.onmessage
    dsimp only
    split <;> exact .same rfl rfl (Nat.le_refl _) fun _ h => by cases h
  | addIceCandidate candidate => exact .same rfl rfl (Nat.le_refl _) fun _ h => by cases h
  | error text => exact stop_acts [] rfl rfl (.inr ⟨rfl, .inl (herror text rfl)⟩) fun _ h => by cases h

end

/-! ## What a step of the whole does -/

/-- The events that an attempt that is starting should not see: an error of the server, and
the callback of an answer, which must be that of an earlier attempt. -/
def disturbs (n : Net) : Event → Bool
  | .answered _ => true
  | .onmessage => n.toPage.head?.any fun message => match message with | .error _ => true | _ => false
  | _ => false

inductive Moves (sessionId : String) (disturbing : Bool) (n : Net) : Net → Prop where
  | act {p' : Page} {out : List ClientMessage} (hacts : Acts disturbing n.page p' out) (toPage : List ServerMessage) :
      Moves sessionId disturbing n ⟨p', n.toServer ++ out.map .message, toPage, n.server⟩
  | onopen (hready : n.page.readyState = .connecting) :
      Moves sessionId disturbing n { n with page := { n.page with readyState := .opened } }
  | hangUp {arrived lost : List Packet} (harrived : n.toServer = arrived ++ lost) :
      Moves sessionId disturbing n (n.hangUp arrived)
  | handle {packet : Packet} {rest : List Packet} (hpacket : n.toServer = packet :: rest)
      (replies : Nat → Reply) (toPage : List ServerMessage) :
      Moves sessionId disturbing n ⟨n.page, rest, toPage, handle replies n.server (packet.task sessionId)⟩
  | listener {t : Task} (ht : (∃ description, t = .errorEvent sessionId description) ∨
        ∃ candidate, t = .candidateFound sessionId candidate)
      (replies : Nat → Reply) (toPage : List ServerMessage) :
      Moves sessionId disturbing n ⟨n.page, n.toServer, toPage, handle replies n.server t⟩
  | stay : Moves sessionId disturbing n n

theorem step_moves (sessionId : String) (n : Net) (e : Event) :
    Moves sessionId (disturbs n e) n (step sessionId n e) := by
  cases e with
  | uiStart => exact .act (uiStart_acts n.page) _
  | uiStop => exact .act (uiStop_acts n.page) _
  | created err => exact .act (created_acts n.page err) _
  | offered result => exact .act (offered_acts n.page result) _
  | answered err => exact .act (answered_acts n.page err) _
  | onicecandidate candidate =>
    have hmild : Mild (.addIceCandidate (some candidate)) := trivial
    exact .act (.same rfl rfl (Nat.le_refl _) (mild_sendMessage n.page hmild)) _
  | onmessage =>
    cases hq : n.toPage with
    | nil =>
      have heq : step sessionId n .onmessage = n := by simp only [step, hq]
      rw [heq]
      exact .stay
    | cons message rest =>
      have heq : step sessionId n .onmessage = { n with toPage := rest }.act (n.page.onmessage message) := by
        simp only [step, hq]
      rw [heq]
      refine .act (onmessage_acts n.page message fun text hm => ?_) _
      simp only [disturbs, hq, hm]
      rfl
  | onopen =>
    unfold step
    dsimp only
    split
    · next hready => exact .onopen hready
    · exact .stay
  | onbeforeunload => exact .hangUp (List.append_nil _).symm
  | disconnect arrive => exact .hangUp (List.take_append_drop arrive _).symm
  | handle replies =>
    cases hq : n.toServer with
    | nil =>
      have heq : step sessionId n (.handle replies) = n := by simp only [step, hq]
      rw [heq]
      exact .stay
    | cons packet rest =>
      have heq : step sessionId n (.handle replies) =
          { n with toServer := rest }.serve (handle replies n.server (packet.task sessionId)) := by
        simp only [step, hq]
      rw [heq]
      exact .handle hq replies _
  | errorEvent description replies => exact .listener (.inl ⟨description, rfl⟩) replies _
  | candidateFound candidate => exact .listener (.inr ⟨candidate, rfl⟩) _ _

/-! ## A page at rest has no session -/

/-- The page is idle, or it cannot be heard. -/
def Page.Rests (p : Page) : Prop := p.uiState = .idle ∨ p.readyState ≠ .opened

/-- The server has a session for the page. -/
def Net.has (sessionId : String) (n : Net) : Bool := (n.server.users.lookup sessionId).isSome

/-- What is on the way leads to no session when the page is at rest, and there is no session
but that of the page. -/
structure Quits (sessionId : String) (n : Net) : Prop where
  rests : n.page.Rests → intent sessionId n.toServer (n.has sessionId) = false
  only : ∀ x, x ≠ sessionId → n.server.users.lookup x = none

theorem packet_about (sessionId : String) (packet : Packet) : Task.About sessionId (packet.task sessionId) := by
  cases packet with
  | close => rfl
  | message text =>
    cases text with
    | other id => cases id <;> trivial
    | processSdpOffer _ => rfl
    | stop => rfl
    | error _ => rfl
    | addIceCandidate _ => trivial

theorem mild_puts (sessionId : String) {text : ClientMessage} (h : Mild text) :
    ((Packet.message text).task sessionId).puts = none := by
  cases text with
  | processSdpOffer sdpOffer => cases h
  | other id => cases id <;> rfl
  | _ => rfl

section
variable {sessionId : String} {disturbing : Bool} {n n' : Net}

theorem handle_follows (replies : Nat → Reply) (s : Shared) {t : Task} (ht : Task.About sessionId t) :
    ((handle replies s t).users.lookup sessionId).isSome = Task.leaves (s.users.lookup sessionId).isSome t ∧
      ∀ x, x ≠ sessionId → (handle replies s t).users.lookup x = s.users.lookup x :=
  (finish_follows replies 9 s t ht (rank_le t)).2

/-- Messages that ask for no session bring none. -/
theorem intent_mild {out : List ClientMessage} (hout : ∀ text ∈ out, Mild text) {now : Bool}
    (h : intent sessionId (out.map .message) now = true) : now = true := by
  induction out generalizing now with
  | nil => exact h
  | cons text rest ih =>
    refine leaves_of_puts (mild_puts sessionId (hout text List.mem_cons_self)) ?_
    exact ih (fun t ht => hout t (List.mem_cons_of_mem _ ht)) h

theorem sendMessage_closed {p : Page} (h : p.readyState ≠ .opened) (message : ClientMessage) :
    p.sendMessage message = [] := if_neg h

theorem intent_stop {p : Page} (h : p.readyState = .opened) (out : List ClientMessage) (now : Bool) :
    intent sessionId ((out ++ p.sendMessage .stop).map .message) now = false := by
  unfold Page.sendMessage
  rw [if_pos h, List.map_append, intent_append]
  rfl

theorem moves_quits (hmoves : Moves sessionId disturbing n n') (h : Quits sessionId n) : Quits sessionId n' := by
  cases hmoves with
  | act hacts toPage =>
    refine ⟨fun hrests => ?_, h.only⟩
    show intent sessionId (n.toServer ++ _) (n.has sessionId) = false
    rw [intent_append]
    cases hacts with
    | same hready hstate _ hout =>
      have hbefore : intent sessionId n.toServer (n.has sessionId) = false := by
        refine h.rests ?_
        rwa [Page.Rests, ← hstate, ← hready]
      rw [hbefore, ← Bool.not_eq_true]
      intro hafter
      cases intent_mild hout hafter
    | start hready hidle hstarting hpending => exact h.rests (.inl hidle)
    | @stop out hready hidle hpending hout =>
      by_cases hopen : n.page.readyState = .opened
      · exact intent_stop hopen out _
      · rw [h.rests (.inr hopen), sendMessage_closed hopen, List.append_nil, ← Bool.not_eq_true]
        intro hafter
        cases intent_mild hout hafter
    | offer hready hstarted hpending sdpOffer =>
      have hclosed : n.page.readyState ≠ .opened := by
        rcases hrests with hidle | hclosed
        · rw [hstarted] at hidle
          cases hidle
        · rwa [← hready]
      rw [h.rests (.inr hclosed), sendMessage_closed hclosed]
      rfl
    | ready _ hready hstarted hpending =>
      rcases hrests with hidle | hclosed
      · rw [hstarted] at hidle
        cases hidle
      · rw [hready] at hclosed
        exact h.rests (.inr hclosed)
  | onopen hready => exact ⟨fun _ => h.rests (.inr (by rw [hready]; decide)), h.only⟩
  | @hangUp arrived lost harrived =>
    refine ⟨fun _ => ?_, h.only⟩
    show intent sessionId (if _ then _ else _) (n.has sessionId) = false
    split
    · rw [intent_append]
      rfl
    · next hclosed => exact h.rests (.inr hclosed)
  | @handle packet rest hpacket replies toPage =>
    obtain ⟨hleaves, hothers⟩ := handle_follows replies n.server (packet_about sessionId packet)
    refine ⟨fun hrests => ?_, fun x hx => (hothers x hx).trans (h.only x hx)⟩
    have hbefore := h.rests hrests
    rw [hpacket] at hbefore
    show intent sessionId rest ((handle replies n.server (packet.task sessionId)).users.lookup sessionId).isSome = false
    rw [hleaves]
    exact hbefore
  | @listener t ht replies toPage =>
    have habout : Task.About sessionId t ∧ t.puts = none := by
      rcases ht with ⟨description, rfl⟩ | ⟨candidate, rfl⟩
      · exact ⟨rfl, rfl⟩
      · exact ⟨trivial, rfl⟩
    obtain ⟨hleaves, hothers⟩ := handle_follows replies n.server habout.1
    refine ⟨fun hrests => ?_, fun x hx => (hothers x hx).trans (h.only x hx)⟩
    rw [← Bool.not_eq_true]
    intro hafter
    have hbefore := h.rests hrests
    rw [← Bool.not_eq_true] at hbefore
    exact hbefore (intent_mono _ (fun hnow => leaves_of_puts habout.2 (hleaves ▸ hnow)) hafter)
  | stay => exact h

theorem run_quits (sessionId : String) (events : List Event) :
    Quits sessionId (run (step sessionId) Net.init events) :=
  run_invariant (fun n e h => moves_quits (step_moves sessionId n e) h) _ events ⟨fun _ => rfl, fun _ _ => rfl⟩

end

/-- Whatever the page, its user and Kurento do: once the page is idle or its connection closed, and
the server has handled what was sent, the server has no session. -/
theorem resting_page_has_no_session (sessionId : String) (events : List Event) :
    let n := run (step sessionId) Net.init events
    (n.page.uiState = .idle ∨ n.page.readyState = .closed) → n.toServer = [] →
      ∀ x, n.server.users.lookup x = none := by
  intro n hrests hsent x
  obtain ⟨hquits, honly⟩ := run_quits sessionId events
  by_cases hx : x = sessionId
  · have hintent := hquits (hrests.imp_right fun hclosed => by rw [hclosed]; decide)
    rw [show (run (step sessionId) Net.init events).toServer = [] from hsent] at hintent
    subst hx
    exact Option.not_isSome_iff_eq_none.mp fun hsome => Bool.false_ne_true (hintent.symm.trans hsome)
  · exact honly x hx

/-- The user starts and stops before the answer has arrived. -/
def stoppedEarly : List Event :=
  [.onopen, .uiStart, .created none, .offered (.ok "v=0"), .handle fun _ => .ok "v=1", .uiStop, .onmessage,
    .handle fun _ => .ok ""]

theorem resting_page_has_no_session_stopped :
    (run (step "a") Net.init stoppedEarly).server.users.lookup "a" = none :=
  resting_page_has_no_session "a" stoppedEarly (by decide) (by decide) "a"

/-! ## No pipeline is lost -/

/-- No handler is at work: each pipeline is in its place. -/
structure Settled (s : Shared) : Prop where
  single : Single ⟨s, [.done]⟩
  kept : Kept ⟨s, [.done]⟩

theorem finish_kept {sessionId : String} (replies : Nat → Reply) (n : Nat) (s : Shared) (t : Task)
    (habout : Task.About sessionId t) (hputs : ∀ x ∈ t.puts, s.users.lookup x = none)
    (hsingle : Single ⟨s, [t]⟩) (hkept : Kept ⟨s, [t]⟩) :
    Single ⟨(finish replies n s t).1, [(finish replies n s t).2]⟩ ∧
      Kept ⟨(finish replies n s t).1, [(finish replies n s t).2]⟩ := by
  induction n generalizing s t with
  | zero => exact ⟨hsingle, hkept⟩
  | succ n ih =>
    -- the handler is a run of its own, with one thread
    have htidy : Tidy ⟨s, [t]⟩ ⟨0, replies n⟩ := by
      intro t₁ ht₁
      obtain rfl : t = t₁ := Option.some.inj ht₁
      refine ⟨hputs, fun x hx other hother hfilling => ?_⟩
      obtain rfl := List.mem_singleton.mp hother
      cases other with
      | removeUser y => cases hfilling
      | _ => cases hx
    have hfollows := advance_follows (replies n) s t habout
    refine ih _ _ hfollows.about ?_ (step_single ⟨s, [t]⟩ ⟨0, replies n⟩ hsingle)
      (step_kept ⟨s, [t]⟩ ⟨0, replies n⟩ hsingle.own hkept htidy)
    rw [hfollows.puts]
    exact fun x hx => by cases hx

theorem handle_settled {sessionId : String} (replies : Nat → Reply) {s : Shared} {t : Task} (hs : Settled s)
    (habout : Task.About sessionId t) (hputs : ∀ x ∈ t.puts, s.users.lookup x = none)
    (htaken : t.taken = none) (hfilling : t.filling = none) : Settled (handle replies s t) := by
  have hplaces : places ⟨s, [t]⟩ = places ⟨s, [.done]⟩ := by
    simp only [places, List.filterMap_cons, htaken]
    rfl
  have hsingle : Single ⟨s, [t]⟩ :=
    ⟨hs.single.own, fun u => by rw [hplaces]; exact hs.single.below u,
      fun u => by rw [hplaces]; exact hs.single.once u⟩
  have hkept : Kept ⟨s, [t]⟩ := by
    refine ⟨fun t₁ ht₁ u hu => ?_, fun u => by rw [hplaces]; exact hs.kept.placed u⟩
    obtain rfl := List.mem_singleton.mp ht₁
    rw [hfilling] at hu
    cases hu
  obtain ⟨hafter, hkeptAfter⟩ := finish_kept replies 9 s t habout hputs hsingle hkept
  rw [(finish_follows replies 9 s t habout (rank_le t)).1] at hafter hkeptAfter
  exact ⟨hafter, hkeptAfter⟩

/-- No attempt is begun before the last one has made its offer, and no offer meets a session. -/
structure Orderly (sessionId : String) (n : Net) : Prop where
  quits : Quits sessionId n
  pending : n.page.pending ≤ if n.page.uiState = .starting then 1 else 0
  starting : n.page.uiState = .starting → intent sessionId n.toServer (n.has sessionId) = false
  clean : clean sessionId n.toServer (n.has sessionId) = true
  settled : Settled n.server

section
variable {sessionId : String} {disturbing : Bool} {n n' : Net}

theorem clean_mild {out : List ClientMessage} (hout : ∀ text ∈ out, Mild text) (now : Bool) :
    clean sessionId (out.map .message) now = true := by
  induction out generalizing now with
  | nil => rfl
  | cons text rest ih =>
    simp only [List.map_cons, clean, mild_puts sessionId (hout text List.mem_cons_self), Option.isNone_none,
      Bool.true_or, Bool.true_and]
    exact ih (fun t ht => hout t (List.mem_cons_of_mem _ ht)) _

theorem packet_hands (sessionId : String) (packet : Packet) :
    (packet.task sessionId).taken = none ∧ (packet.task sessionId).filling = none := by
  cases packet with
  | close => exact ⟨rfl, rfl⟩
  | message text =>
    cases text with
    | other id => cases id <;> exact ⟨rfl, rfl⟩
    | _ => exact ⟨rfl, rfl⟩

theorem puts_about {t : Task} (h : Task.About sessionId t) {x : String} (hx : x ∈ t.puts) : x = sessionId := by
  cases t with
  | newUser y sdpOffer =>
    obtain rfl : y = x := Option.some.inj hx
    exact h
  | _ => cases hx

/-- An act of the page that the attempt it starts can bear. -/
theorem acts_orderly {p' : Page} {out : List ClientMessage} (hacts : Acts disturbing n.page p' out)
    (hcalm : n.page.uiState = .starting → disturbing = false) (h : Orderly sessionId n) :
    (p'.pending ≤ if p'.uiState = .starting then 1 else 0) ∧
      (p'.uiState = .starting →
        intent sessionId (out.map .message) (intent sessionId n.toServer (n.has sessionId)) = false) ∧
      clean sessionId (out.map .message) (intent sessionId n.toServer (n.has sessionId)) = true := by
  have hpending := h.pending
  have hquiet : n.page.uiState ≠ .starting → n.page.pending = 0 := by
    intro hne
    rw [if_neg hne] at hpending
    exact Nat.le_zero.mp hpending
  have hone : n.page.pending ≤ 1 := by
    split at hpending <;> omega
  cases hacts with
  | same hready hstate hless hout =>
    refine ⟨Nat.le_trans hless (by rw [hstate]; exact hpending), fun hstarting => ?_, clean_mild hout _⟩
    rw [h.starting (hstate ▸ hstarting), ← Bool.not_eq_true]
    intro hafter
    cases intent_mild hout hafter
  | start hready hidle hstarting hone' =>
    refine ⟨?_, fun _ => h.quits.rests (.inl hidle), rfl⟩
    rw [if_pos hstarting, hone', hquiet (by rw [hidle]; decide)]
  | stop hready hidle hless hout =>
    have hnot : p'.uiState ≠ .starting := by rw [hidle]; decide
    refine ⟨?_, fun hstarting => absurd hstarting hnot, ?_⟩
    · rw [if_neg hnot]
      rcases hless with hless | ⟨heq, hwhen⟩
      · omega
      · refine Nat.le_of_eq (heq.trans (hquiet fun hstarting => ?_))
        rw [hcalm hstarting, hstarting] at hwhen
        rcases hwhen with hwhen | hwhen <;> cases hwhen
    · refine clean_mild (fun text htext => ?_) _
      rcases List.mem_append.mp htext with htext | htext
      · exact hout text htext
      · have hmild : Mild .stop := trivial
        exact mild_sendMessage n.page hmild text htext
  | offer hready hstarted hless sdpOffer =>
    have hnot : p'.uiState ≠ .starting := by rw [hstarted]; decide
    have hstarting : n.page.uiState = .starting := by
      by_contra hne
      have := hquiet hne
      omega
    refine ⟨?_, fun hstarting' => absurd hstarting' hnot, ?_⟩
    · rw [if_neg hnot]
      omega
    · -- nothing on the way leads to a session, and so the offer meets none
      rw [h.starting hstarting]
      unfold Page.sendMessage
      split <;> rfl
  | ready hdisturbing hready hstarted heq =>
    have hnot : p'.uiState ≠ .starting := by rw [hstarted]; decide
    refine ⟨?_, fun hstarting => absurd hstarting hnot, rfl⟩
    rw [if_neg hnot]
    refine Nat.le_of_eq (heq.trans (hquiet fun hstarting => ?_))
    rw [hcalm hstarting] at hdisturbing
    cases hdisturbing

theorem moves_orderly (hmoves : Moves sessionId disturbing n n')
    (hcalm : n.page.uiState = .starting → disturbing = false) (h : Orderly sessionId n) :
    Orderly sessionId n' := by
  have hquits := moves_quits hmoves h.quits
  cases hmoves with
  | act hacts toPage =>
    obtain ⟨hpending, hstarting, hclean⟩ := acts_orderly hacts hcalm h
    refine ⟨hquits, hpending, fun hs => ?_, ?_, h.settled⟩
    · exact (intent_append _ _ _).trans (hstarting hs)
    · exact (clean_append _ _ _).trans (Bool.and_eq_true_iff.mpr ⟨h.clean, hclean⟩)
  | onopen hready => exact ⟨hquits, h.pending, h.starting, h.clean, h.settled⟩
  | @hangUp arrived lost harrived =>
    refine ⟨hquits, h.pending, fun _ => ?_, ?_, h.settled⟩
    · exact hquits.rests (.inr fun hopen => by cases hopen)
    · have hclean := h.clean
      show clean sessionId (if _ then _ else _) (n.has sessionId) = true
      split
      · rw [harrived, clean_append, Bool.and_eq_true] at hclean
        rw [clean_append, hclean.1]
        rfl
      · exact hclean
  | @handle packet rest hpacket replies toPage =>
    have habout := packet_about sessionId packet
    obtain ⟨hleaves, -⟩ := handle_follows replies n.server habout
    obtain ⟨htaken, hfilling⟩ := packet_hands sessionId packet
    have hstarting := h.starting
    have hclean := h.clean
    rw [hpacket] at hstarting hclean
    simp only [clean, Bool.and_eq_true, Bool.or_eq_true, Bool.not_eq_true'] at hclean
    refine ⟨hquits, h.pending, fun hs => ?_, ?_, handle_settled replies h.settled habout (fun x hx => ?_) htaken hfilling⟩
    · show intent sessionId rest (Option.isSome _) = false
      rw [hleaves]
      exact hstarting hs
    · show clean sessionId rest (Option.isSome _) = true
      rw [hleaves]
      exact hclean.2
    · obtain rfl := puts_about habout hx
      rcases hclean.1 with hnone | hhas
      · rw [Option.isNone_iff_eq_none] at hnone
        rw [hnone] at hx
        cases hx
      · exact Option.not_isSome_iff_eq_none.mp fun hsome => Bool.false_ne_true (hhas.symm.trans hsome)
  | @listener t ht replies toPage =>
    have hlistener : Task.About sessionId t ∧ t.puts = none ∧ t.taken = none ∧ t.filling = none := by
      rcases ht with ⟨description, rfl⟩ | ⟨candidate, rfl⟩
      · exact ⟨rfl, rfl, rfl, rfl⟩
      · exact ⟨trivial, rfl, rfl, rfl⟩
    obtain ⟨habout, hputs, htaken, hfilling⟩ := hlistener
    obtain ⟨hleaves, -⟩ := handle_follows replies n.server habout
    have hfewer : ((handle replies n.server t).users.lookup sessionId).isSome = true →
        n.has sessionId = true := fun hnow => leaves_of_puts hputs (hleaves ▸ hnow)
    refine ⟨hquits, h.pending, fun hs => ?_, clean_mono _ hfewer h.clean,
      handle_settled replies h.settled habout (fun x hx => ?_) htaken hfilling⟩
    · rw [← Bool.not_eq_true]
      exact fun hafter => Bool.false_ne_true ((h.starting hs).symm.trans (intent_mono _ hfewer hafter))
    · rw [hputs] at hx
      cases hx
  | stay => exact h

end

/-- An attempt is starting, and it sees no error of the server and no callback of an answer. -/
def Undisturbed (n : Net) (e : Event) : Prop := n.page.uiState = .starting → disturbs n e = false

instance decidableUndisturbed (n : Net) (e : Event) : Decidable (Undisturbed n e) :=
  inferInstanceAs (Decidable (_ → _))

theorem init_orderly (sessionId : String) : Orderly sessionId Net.init :=
  ⟨⟨fun _ => rfl, fun _ _ => rfl⟩, Nat.le_refl _, fun _ => rfl, rfl, start_single [.message "" (.other (some ""))],
    start_kept [.message "" (.other (some ""))]⟩

/-- With handlers that run to their end: as long as no attempt is disturbed while it starts,
every pipeline that was made for the page has been released or is that of its session, and
once the page is idle and the server has handled what was sent, all of them have been
released. -/
theorem undisturbed_page_leaves_no_pipeline (sessionId : String) (events : List Event)
    (hcalm : Along (step sessionId) Undisturbed Net.init events) :
    let n := run (step sessionId) Net.init events
    ∀ u, pipelineOf n.server.heap u ≠ none →
      u ∈ n.server.released ∨
        n.server.users.lookup sessionId = some u ∧ (n.page.uiState = .idle → n.toServer ≠ []) := by
  intro n u hu
  have horderly : Orderly sessionId n := by
    refine (throughout_of_along ?_ _ events (init_orderly sessionId) hcalm).run
    exact fun n e h hundisturbed => moves_orderly (step_moves sessionId n e) hundisturbed h
  have hplaced := horderly.settled.kept.placed u hu
  simp only [places, List.mem_append, List.mem_filterMap, mem_values_iff, List.mem_singleton] at hplaced
  rcases hplaced with hreleased | ⟨t, rfl, htaken⟩ | ⟨x, hx⟩
  · exact .inl hreleased
  · cases htaken
  · obtain rfl : x = sessionId := by
      by_contra hne
      rw [horderly.quits.only x hne] at hx
      cases hx
    refine .inr ⟨hx, fun hidle hsent => ?_⟩
    have hintent := horderly.quits.rests (.inl hidle)
    rw [hsent] at hintent
    exact Bool.false_ne_true (hintent.symm.trans (by rw [Net.has, hx]; rfl))

/-- The page makes two attempts, and Kurento reports an error during the second. -/
theorem undisturbed_page_leaves_no_pipeline_twice :
    let n := run (step "a") Net.init (stoppedEarly ++ [.uiStart, .created none, .offered (.ok "v=0"),
      .handle fun _ => .ok "v=1", .onmessage, .answered none, .errorEvent "no media" fun _ => .ok ""])
    n.server.released = [0, 1] ∧ (pipelineOf n.server.heap 1 ≠ none → 1 ∈ n.server.released ∨
      n.server.users.lookup "a" = some 1 ∧ (n.page.uiState = .idle → n.toServer ≠ [])) :=
  ⟨by decide, undisturbed_page_leaves_no_pipeline _ _ (by decide) 1⟩

end HelloProtocol

import SpringStudy.Tables
import SpringStudy.Outcomes
import SpringStudy.Runs

/-!
# One presenter and many viewers

The handler of the one-to-many call keeps the presenter, its media pipeline and
the viewers in three fields. The methods are synchronized, so a message is one
step. Kurento and the sockets may throw at any stage; what a method has done
before stays, and the sender is told that it is rejected.
-/
namespace OneToMany

open Tables Outcomes Runs

/-- A `WebRtcEndpoint` and the pipeline it was built on. -/
structure Endpoint where
  pipeline : Nat
  id : Nat
  deriving DecidableEq, Repr

structure UserSession where
  session : String
  webRtcEndpoint : Option Endpoint
  deriving DecidableEq, Repr

inductive ResponseId where
  | presenterResponse
  | viewerResponse
  deriving DecidableEq, Repr

/-- The texts that a rejection is sent with. -/
inductive Rejection where
  /-- Reads "Another user is currently acting as sender. Try again later ...". -/
  | anotherSender
  /-- Reads "No active sender now. Become sender or . Try again later ...". -/
  | noSender
  /-- Reads "You are already viewing in this session. Use a different browser to add additional viewers.". -/
  | alreadyViewing
  | thrown (message : String)
  deriving DecidableEq, Repr

inductive Message where
  | accepted (id : ResponseId) (sdpAnswer : String)
  | rejected (id : ResponseId) (reason : Rejection)
  | stopCommunication
  deriving DecidableEq, Repr

/-- The stages of a method that may throw. -/
inductive Stage where
  | pipeline
  | endpoint
  /-- The offer is processed and the answer is sent. -/
  | answer
  | gatherCandidates
  | socket
  | release
  deriving DecidableEq, Repr

structure Thrown where
  stage : Stage
  message : String
  deriving DecidableEq, Repr

inductive Released where
  | pipeline (pipeline : Nat)
  | endpoint (e : Endpoint)
  deriving DecidableEq, Repr

structure Handler where
  viewers : Table String UserSession
  mediaPipeline : Option Nat
  presenterUserSession : Option UserSession
  /-- Kurento's objects are numbered. -/
  built : Nat
  sent : List (String × Message)
  released : List Released

def Handler.init : Handler := ⟨∅, none, none, 0, [], []⟩

/-- Whether the exception is thrown at the stage. -/
def throwsAt (thrown : Option Thrown) (stage : Stage) : Bool := thrown.any fun t => decide (t.stage = stage)

namespace Handler

def send (h : Handler) (session : String) (message : Message) : Handler :=
  { h with sent := h.sent ++ [(session, message)] }

def presenter (h : Handler) (session sdpAnswer : String) (thrown : Option Thrown) :
    Outcome Handler Thrown :=
  match h.presenterUserSession with
  | some _ => (h.send session (.rejected .presenterResponse .anotherSender), none)
  | none =>
    let h := { h with presenterUserSession := some ⟨session, none⟩ }
    if throwsAt thrown .pipeline then (h, thrown)
    else
      let pipeline := h.built
      let h := { h with mediaPipeline := some pipeline, built := h.built + 1 }
      if throwsAt thrown .endpoint then (h, thrown)
      else
        let h := { h with presenterUserSession := some ⟨session, some ⟨pipeline, h.built⟩⟩
                          built := h.built + 1 }
        if throwsAt thrown .answer then (h, thrown)
        else
          (h.send session (.accepted .presenterResponse sdpAnswer),
            if throwsAt thrown .gatherCandidates then thrown else none)

/-- The viewer is entered before its endpoint is built. -/
def viewer (h : Handler) (session sdpAnswer : String) (thrown : Option Thrown) :
    Outcome Handler Thrown :=
  match h.presenterUserSession.bind UserSession.webRtcEndpoint with
  | none => (h.send session (.rejected .viewerResponse .noSender), none)
  | some _ =>
    match h.viewers.lookup session with
    | some _ => (h.send session (.rejected .viewerResponse .alreadyViewing), none)
    | none =>
      match h.mediaPipeline, throwsAt thrown .endpoint with
      | some pipeline, false =>
        let h := { h with viewers := h.viewers.insert session ⟨session, some ⟨pipeline, h.built⟩⟩
                          built := h.built + 1 }
        if throwsAt thrown .answer then (h, thrown)
        else
          (h.send session (.accepted .viewerResponse sdpAnswer),
            if throwsAt thrown .gatherCandidates then thrown else none)
      | _, _ =>
        ({ h with viewers := h.viewers.insert session ⟨session, none⟩ },
          some (thrown.getD ⟨.endpoint, "null"⟩))

/-- The loop of `stop` over the viewers. -/
def notifyViewers (h : Handler) (unreachable : List String) : Outcome Handler Thrown :=
  forAll (fun h viewer =>
    if viewer.session ∈ unreachable then (h, some ⟨.socket, viewer.session⟩)
    else (h.send viewer.session .stopCommunication, none)) h (values h.viewers)

/-- The presenter's stop ends the pipeline and leaves the viewers where they are. -/
def stop (h : Handler) (session : String) (unreachable : List String) (releases : Bool) :
    Outcome Handler Thrown :=
  if h.presenterUserSession.map UserSession.session = some session then
    andThen (h.notifyViewers unreachable) fun h =>
      match h.mediaPipeline with
      | none => ({ h with presenterUserSession := none }, none)
      | some pipeline =>
        if releases then
          ({ h with mediaPipeline := none, presenterUserSession := none
                    released := h.released ++ [.pipeline pipeline] }, none)
        else (h, some ⟨.release, session⟩)
  else
    match h.viewers.lookup session with
    | none => (h, none)
    | some viewer =>
      match viewer.webRtcEndpoint with
      | none => ({ h with viewers := h.viewers.erase session }, none)
      | some e =>
        if releases then
          ({ h with viewers := h.viewers.erase session, released := h.released ++ [.endpoint e] }, none)
        else (h, some ⟨.release, session⟩)

def handleErrorResponse (q : Outcome Handler Thrown) (session : String) (id : ResponseId) : Handler :=
  match q.2 with
  | none => q.1
  | some thrown => q.1.send session (.rejected id (.thrown thrown.message))

end Handler

/-- `stop` is also what `afterConnectionClosed` does. -/
inductive Event where
  | presenter (session sdpAnswer : String) (thrown : Option Thrown)
  | viewer (session sdpAnswer : String) (thrown : Option Thrown)
  | stop (session : String) (unreachable : List String) (releases : Bool)
  | closed (session : String) (unreachable : List String) (releases : Bool)

def step (h : Handler) : Event → Handler
  | .presenter session sdpAnswer thrown =>
    Handler.handleErrorResponse (h.presenter session sdpAnswer thrown) session .presenterResponse
  | .viewer session sdpAnswer thrown =>
    Handler.handleErrorResponse (h.viewer session sdpAnswer thrown) session .viewerResponse
  | .stop session unreachable releases => (h.stop session unreachable releases).1
  | .closed session unreachable releases => (h.stop session unreachable releases).1

/-! ## Viewers and the current presenter -/

/-- A presenter's stop comes to its end: all viewers can be told, and the pipeline is released. -/
def Ends (h : Handler) (unreachable : List String) (releases : Bool) : Prop :=
  (∀ viewer ∈ values h.viewers, viewer.session ∉ unreachable) ∧ (h.mediaPipeline.isSome → releases = true)

/-- A presenter ends its presentation only when nobody views it, and an endpoint
that a new viewer asks for is built. -/
def Orderly (h : Handler) : Event → Prop
  | .presenter _ _ _ => True
  | .viewer session _ thrown =>
    (h.presenterUserSession.bind UserSession.webRtcEndpoint).isSome = true →
      h.viewers.lookup session = none → throwsAt thrown .endpoint = false
  | .stop session unreachable releases =>
    h.presenterUserSession.map UserSession.session = some session → Ends h unreachable releases → h.viewers = ∅
  | .closed session unreachable releases =>
    h.presenterUserSession.map UserSession.session = some session → Ends h unreachable releases → h.viewers = ∅

/-- The three fields of the handler that decide who watches. -/
def SameCall (h h' : Handler) : Prop :=
  h'.viewers = h.viewers ∧ h'.mediaPipeline = h.mediaPipeline ∧
    h'.presenterUserSession = h.presenterUserSession

theorem handleErrorResponse_same (q : Outcome Handler Thrown) (session : String) (id : ResponseId) :
    SameCall q.1 (Handler.handleErrorResponse q session id) := by
  unfold Handler.handleErrorResponse
  split
  · exact ⟨rfl, rfl, rfl⟩
  · exact ⟨rfl, rfl, rfl⟩

/-- Who is told to be viewing already is among the viewers of `h`. -/
def RightlyTold (h : Handler) (m : String × Message) : Prop :=
  ∀ session, m = (session, .rejected .viewerResponse .alreadyViewing) → (h.viewers.lookup session).isSome = true

theorem rightlyTold_of_ne {h : Handler} {session : String} {message : Message}
    (hne : message ≠ .rejected .viewerResponse .alreadyViewing) : RightlyTold h (session, message) :=
  fun _ he => absurd (Prod.mk.inj he).2 hne

/-- Only messages of that kind come from `h` to `h'`. -/
def Tells (h h' : Handler) : Prop := ∃ msgs, h'.sent = h.sent ++ msgs ∧ ∀ m ∈ msgs, RightlyTold h m

theorem Tells.same {h h' : Handler} (hs : h'.sent = h.sent) : Tells h h' := ⟨[], by simp [hs], by simp⟩

theorem Tells.send {h h' : Handler} (ht : Tells h h') (session : String) (message : Message)
    (hm : RightlyTold h (session, message)) : Tells h (h'.send session message) := by
  obtain ⟨msgs, hsent, hall⟩ := ht
  refine ⟨msgs ++ [(session, message)], ?_, ?_⟩
  · show h'.sent ++ [(session, message)] = _
    rw [hsent, List.append_assoc]
  · intro m hmem
    rcases List.mem_append.mp hmem with hmem | hmem
    · exact hall m hmem
    · exact List.mem_singleton.mp hmem ▸ hm

theorem Tells.handleErrorResponse {h : Handler} {q : Outcome Handler Thrown} (ht : Tells h q.1)
    (session : String) (id : ResponseId) : Tells h (Handler.handleErrorResponse q session id) := by
  unfold Handler.handleErrorResponse
  split
  · exact ht
  · exact ht.send _ _ (rightlyTold_of_ne (by simp))

namespace Handler

/-- Why a request is turned away. -/
def refusal (h : Handler) (session : String) : ResponseId → Option Rejection
  | .presenterResponse => h.presenterUserSession.map fun _ => .anotherSender
  | .viewerResponse =>
    match h.presenterUserSession.bind UserSession.webRtcEndpoint with
    | none => some .noSender
    | some _ => (h.viewers.lookup session).map fun _ => .alreadyViewing

/-- `presenter` or `viewer`, where telling the sender that it is turned away may throw too. -/
def attempt (h : Handler) (id : ResponseId) (session sdpAnswer : String) (thrown : Option Thrown) :
    Outcome Handler Thrown :=
  if (h.refusal session id).isSome && throwsAt thrown .socket then (h, thrown)
  else
    match id with
    | .presenterResponse => h.presenter session sdpAnswer thrown
    | .viewerResponse => h.viewer session sdpAnswer thrown

/-- The message handled, with what `handleErrorResponse` sends. -/
def request (h : Handler) (id : ResponseId) (session sdpAnswer : String) (thrown : Option Thrown) : Handler :=
  handleErrorResponse (h.attempt id session sdpAnswer thrown) session id

end Handler

theorem SameCall.trans {a b c : Handler} (h : SameCall a b) (h' : SameCall b c) : SameCall a c :=
  ⟨h'.1.trans h.1, h'.2.1.trans h.2.1, h'.2.2.trans h.2.2⟩

theorem presenter_refused (h : Handler) (session sdpAnswer : String) (thrown : Option Thrown)
    (hr : (h.refusal session .presenterResponse).isSome = true) :
    SameCall h (h.presenter session sdpAnswer thrown).1 := by
  unfold Handler.presenter
  cases hp : h.presenterUserSession with
  | some p => exact ⟨rfl, rfl, rfl⟩
  | none =>
    rw [Handler.refusal, hp] at hr
    cases hr

theorem viewer_refused (h : Handler) (session sdpAnswer : String) (thrown : Option Thrown)
    (hr : (h.refusal session .viewerResponse).isSome = true) :
    SameCall h (h.viewer session sdpAnswer thrown).1 := by
  unfold Handler.viewer
  unfold Handler.refusal at hr
  cases he : h.presenterUserSession.bind UserSession.webRtcEndpoint with
  | none => exact ⟨rfl, rfl, rfl⟩
  | some e =>
    cases hv : h.viewers.lookup session with
    | some v => exact ⟨rfl, rfl, rfl⟩
    | none =>
      rw [he, hv] at hr
      cases hr

theorem attempt_refused (h : Handler) (id : ResponseId) (session sdpAnswer : String)
    (thrown : Option Thrown) (hr : (h.refusal session id).isSome = true) :
    SameCall h (h.attempt id session sdpAnswer thrown).1 := by
  unfold Handler.attempt
  split
  · exact ⟨rfl, rfl, rfl⟩
  · cases id with
    | presenterResponse => exact presenter_refused h session sdpAnswer thrown hr
    | viewerResponse => exact viewer_refused h session sdpAnswer thrown hr

/-- Whatever happens next, the session is the presenter. -/
theorem presenter_published (h : Handler) (session sdpAnswer : String) (thrown : Option Thrown)
    (hr : h.refusal session .presenterResponse = none) :
    ∃ endpoint, (h.presenter session sdpAnswer thrown).1.presenterUserSession = some ⟨session, endpoint⟩ := by
  have hp : h.presenterUserSession = none := Option.map_eq_none_iff.mp hr
  unfold Handler.presenter
  rw [hp]
  dsimp only
  split
  · exact ⟨none, rfl⟩
  · split
    · exact ⟨none, rfl⟩
    · split
      · exact ⟨_, rfl⟩
      · exact ⟨_, rfl⟩

/-- Whatever happens next, the session is a viewer of the same presenter. -/
theorem viewer_published (h : Handler) (session sdpAnswer : String) (thrown : Option Thrown)
    (hr : h.refusal session .viewerResponse = none) :
    (h.presenterUserSession.bind UserSession.webRtcEndpoint).isSome = true ∧
      h.viewers.lookup session = none ∧
      (h.viewer session sdpAnswer thrown).1.presenterUserSession = h.presenterUserSession ∧
      ∃ endpoint, (h.viewer session sdpAnswer thrown).1.viewers.lookup session = some ⟨session, endpoint⟩ := by
  unfold Handler.refusal at hr
  unfold Handler.viewer
  cases he : h.presenterUserSession.bind UserSession.webRtcEndpoint with
  | none =>
    rw [he] at hr
    cases hr
  | some e =>
    rw [he] at hr
    have hv : h.viewers.lookup session = none := Option.map_eq_none_iff.mp hr
    rw [hv]
    refine ⟨rfl, rfl, ?_⟩
    dsimp only
    split
    · split
      · exact ⟨rfl, _, by rw [lookup_put, if_pos rfl]⟩
      · exact ⟨rfl, _, by rw [Handler.send, lookup_put, if_pos rfl]⟩
    · exact ⟨rfl, none, by rw [lookup_put, if_pos rfl]⟩

/-- A request that is not turned away changes the call, however it ends. -/
theorem attempt_published (h : Handler) (id : ResponseId) (session sdpAnswer : String)
    (thrown : Option Thrown) (hr : h.refusal session id = none) :
    ¬ SameCall h (h.attempt id session sdpAnswer thrown).1 ∧
      ((h.attempt id session sdpAnswer thrown).1.refusal session id).isSome = true := by
  unfold Handler.attempt
  rw [hr, Option.isSome_none, Bool.false_and, if_neg (by simp)]
  cases id with
  | presenterResponse =>
    obtain ⟨endpoint, hp⟩ := presenter_published h session sdpAnswer thrown hr
    have hnone : h.presenterUserSession = none := Option.map_eq_none_iff.mp hr
    constructor
    · rintro ⟨-, -, hsame⟩
      rw [hp, hnone] at hsame
      cases hsame
    · simp [Handler.refusal, hp]
  | viewerResponse =>
    obtain ⟨hsome, hnone, hp, endpoint, hv⟩ := viewer_published h session sdpAnswer thrown hr
    obtain ⟨e, he⟩ := Option.isSome_iff_exists.mp hsome
    constructor
    · rintro ⟨hsame, -, -⟩
      rw [hsame, hnone] at hv
      cases hv
    · simp [Handler.refusal, hp, he, hv]

theorem request_same (h : Handler) (id : ResponseId) (session sdpAnswer : String) (thrown : Option Thrown) :
    SameCall (h.attempt id session sdpAnswer thrown).1 (h.request id session sdpAnswer thrown) :=
  handleErrorResponse_same _ session id

/-- A request that throws leaves the call as it was exactly if it had been turned away:
one that was not stays published, and its sender is turned away from then on. -/
theorem failed_request_keeps_call_iff (h : Handler) (id : ResponseId) (session sdpAnswer : String)
    (thrown : Option Thrown) :
    (((h.attempt id session sdpAnswer thrown).2 ≠ none →
        SameCall h (h.request id session sdpAnswer thrown)) ↔
      (h.attempt id session sdpAnswer thrown).2 = none ∨ (h.refusal session id).isSome = true) ∧
    (h.refusal session id = none →
      ((h.request id session sdpAnswer thrown).refusal session id).isSome = true) := by
  have hsent := request_same h id session sdpAnswer thrown
  constructor
  · constructor
    · intro hkeeps
      cases hr : h.refusal session id with
      | some r => exact .inr rfl
      | none =>
        refine .inl (Classical.byContradiction fun hfail => ?_)
        obtain ⟨hv, hm, hp⟩ := hkeeps hfail
        refine (attempt_published h id session sdpAnswer thrown hr).1 ⟨?_, ?_, ?_⟩
        · exact hsent.1.symm.trans hv
        · exact hsent.2.1.symm.trans hm
        · exact hsent.2.2.symm.trans hp
    · rintro (hok | hr) hfail
      · exact absurd hok hfail
      · exact (attempt_refused h id session sdpAnswer thrown hr).trans hsent
  · intro hr
    have hnext := (attempt_published h id session sdpAnswer thrown hr).2
    obtain ⟨hv, -, hp⟩ := hsent
    cases id with
    | presenterResponse =>
      rw [Handler.refusal, hp]
      exact hnext
    | viewerResponse =>
      rw [Handler.refusal, hp, hv]
      exact hnext

/-- Kurento gives "a" no pipeline, and "b" cannot present either. -/
theorem failed_presenter_blocks :
    let thrown : Option Thrown := some ⟨.pipeline, "no media server"⟩
    (Handler.init.attempt .presenterResponse "a" "answer" thrown).2 = thrown ∧
      ¬ SameCall .init (Handler.init.request .presenterResponse "a" "answer" thrown) ∧
      (Handler.init.request .presenterResponse "a" "answer" thrown).refusal "b" .presenterResponse =
        some .anotherSender := by
  refine ⟨by decide +kernel, ?_, by decide +kernel⟩
  rintro ⟨-, -, hp⟩
  revert hp
  decide +kernel

end OneToMany

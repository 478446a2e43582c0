import SpringStudy.Tables
import SpringStudy.Interleavings
import SpringStudy.Runs

/-!
# The sessions of the hello world handler

`HelloWorldHandler` keeps a `UserSession` for each web socket session. An offer puts
a new one into the map and then fills it, step by step, with what Kurento builds; a
stop takes it out and releases the pipeline it finds in it. Messages, the events of
Kurento and closed connections are handled by threads of their own, so their steps
may interleave. Only the methods of the map are atomic.
-/
namespace HelloSessions

open Tables Interleavings Runs

/-- A `UserSession` object, known by its place among those that were made. -/
abbrev UserRef := Nat

structure IceCandidate where
  candidate : String
  sdpMid : String
  sdpMLineIndex : Int
  deriving DecidableEq, Repr

/-- An offer has one pipeline and one endpoint built for the object that it puts into
the map, and both are known by the place of this object. -/
structure UserSession where
  mediaPipeline : Option UserRef
  webRtcEndpoint : Option UserRef
  deriving DecidableEq, Repr

inductive ServerMessage where
  | processSdpAnswer (sdpAnswer : String)
  | addIceCandidate (candidate : IceCandidate)
  | error (message : String)
  deriving DecidableEq, Repr

/-- `none` is a field that the JSON object does not have. -/
inductive ClientMessage where
  | processSdpOffer (sdpOffer : Option String)
  | addIceCandidate (candidate : Option IceCandidate)
  | stop
  | error (message : Option String)
  | other (id : Option String)
  deriving DecidableEq, Repr

structure Shared where
  users : Table String UserRef
  heap : List UserSession
  /-- The pipelines on which `release` has been called. -/
  released : List UserRef
  /-- The candidates that an endpoint has been given. -/
  added : List (UserRef × IceCandidate)
  /-- The web socket sessions that are not open any more. -/
  closed : List String
  sent : List (String × ServerMessage)

def Shared.init : Shared := ⟨∅, [], [], [], [], []⟩

/-- What Kurento says to the call that a step makes: its result, or the message of an exception. -/
abbrev Reply := Except String String

def Reply.text : Reply → String
  | .ok text => text
  | .error text => text

/-- Where a thread is in its handler, with the variables it still needs. -/
inductive Task where
  | newUser (sessionId : String) (sdpOffer : Option String)
  | createMediaPipeline (sessionId : String) (user : UserRef) (sdpOffer : Option String)
  | setMediaPipeline (sessionId : String) (user : UserRef) (sdpOffer : Option String)
  | buildWebRtcEndpoint (sessionId : String) (user : UserRef) (sdpOffer : Option String)
  | setWebRtcEndpoint (sessionId : String) (user : UserRef) (sdpOffer : Option String)
  | initWebRtcEndpoint (sessionId : String) (user : UserRef) (sdpOffer : Option String)
  | sendAnswer (sessionId : String) (user : UserRef) (sdpAnswer : String)
  | startWebRtcEndpoint (sessionId : String) (user : UserRef)
  | containsUser (sessionId : String) (candidate : Option IceCandidate)
  | getUser (sessionId : String) (candidate : Option IceCandidate)
  | getWebRtcEndpoint (sessionId : String) (user : UserRef) (candidate : IceCandidate)
  | addIceCandidate (sessionId : String) (endpoint : UserRef) (candidate : IceCandidate)
  | handleError (sessionId : String) (message : Option String)
  | sendError (sessionId errMsg : String)
  | removeUser (sessionId : String)
  | getMediaPipeline (user : UserRef)
  | release (pipeline : UserRef)
  /-- The listener for the errors of an endpoint. -/
  | errorEvent (sessionId description : String)
  /-- The listener for the candidates that an endpoint finds. -/
  | candidateFound (sessionId : String) (candidate : IceCandidate)
  | connectionClosed (sessionId : String)
  | done
  deriving DecidableEq

/-- `containsKey` and the write to the socket count as one step. -/
def Shared.sendMessage (s : Shared) (sessionId : String) (message : ServerMessage) : Shared :=
  if sessionId ∈ s.closed then s
  else if (s.users.lookup sessionId).isNone then s
  else { s with sent := s.sent ++ [(sessionId, message)] }

def Shared.sendError (s : Shared) (sessionId errMsg : String) : Shared :=
  if (s.users.lookup sessionId).isSome then s.sendMessage sessionId (.error errMsg) else s

/-- The catch clause of `handleTextMessage`. -/
def caught (sessionId message : String) : Task := .sendError sessionId ("[Kurento] Exception: " ++ message)

/-- What Java 17 says of `jsonMessage.get("id").getAsString()` without an id. -/
def missingId : String :=
  "Cannot invoke \"com.google.gson.JsonElement.getAsString()\" because the return value of " ++
    "\"com.google.gson.JsonObject.get(String)\" is null"

/-- The branches of `handleTextMessage`. A message without an id ends in the catch clause. -/
def handleTextMessage (sessionId : String) : ClientMessage → Task
  | .processSdpOffer sdpOffer => .newUser sessionId sdpOffer
  | .addIceCandidate candidate => .containsUser sessionId candidate
  | .stop => .removeUser sessionId
  | .error message => .handleError sessionId message
  | .other (some _) => .done
  | .other none => caught sessionId missingId

def pipelineOf (heap : List UserSession) (user : UserRef) : Option UserRef := (heap[user]?).bind (·.mediaPipeline)

/-- The next step of a thread. -/
def advance (reply : Reply) (s : Shared) : Task → Shared × Task
  | .newUser sessionId sdpOffer =>
    ({ s with heap := s.heap ++ [⟨none, none⟩], users := s.users.insert sessionId s.heap.length },
      .createMediaPipeline sessionId s.heap.length sdpOffer)
  | .createMediaPipeline sessionId user sdpOffer =>
    match reply with
    | .ok _ => (s, .setMediaPipeline sessionId user sdpOffer)
    | .error message => (s, caught sessionId message)
  | .setMediaPipeline sessionId user sdpOffer =>
    ({ s with heap := s.heap.modify user fun x => { x with mediaPipeline := some user } },
      .buildWebRtcEndpoint sessionId user sdpOffer)
  | .buildWebRtcEndpoint sessionId user sdpOffer =>
    match reply with
    | .ok _ => (s, .setWebRtcEndpoint sessionId user sdpOffer)
    | .error message => (s, caught sessionId message)
  | .setWebRtcEndpoint sessionId user sdpOffer =>
    ({ s with heap := s.heap.modify user fun x => { x with webRtcEndpoint := some user } },
      .initWebRtcEndpoint sessionId user sdpOffer)
  -- the endpoint is connected to itself and gets its listeners, then the offer is processed
  | .initWebRtcEndpoint sessionId user sdpOffer =>
    match sdpOffer, reply with
    | some _, .ok sdpAnswer => (s, .sendAnswer sessionId user sdpAnswer)
    | _, reply => (s, caught sessionId reply.text)
  | .sendAnswer sessionId user sdpAnswer =>
    (s.sendMessage sessionId (.processSdpAnswer sdpAnswer), .startWebRtcEndpoint sessionId user)
  | .startWebRtcEndpoint sessionId _ =>
    match reply with
    | .ok _ => (s, .done)
    | .error message => (s, caught sessionId message)
  | .containsUser sessionId candidate =>
    if (s.users.lookup sessionId).isSome then (s, .getUser sessionId candidate) else (s, .done)
  -- the user may be gone by now, and the candidate may lack a field
  | .getUser sessionId candidate =>
    match s.users.lookup sessionId, candidate with
    | some user, some candidate => (s, .getWebRtcEndpoint sessionId user candidate)
    | _, _ => (s, caught sessionId reply.text)
  | .getWebRtcEndpoint sessionId user candidate =>
    match (s.heap[user]?).bind (·.webRtcEndpoint) with
    | some endpoint => (s, .addIceCandidate sessionId endpoint candidate)
    | none => (s, caught sessionId reply.text)
  | .addIceCandidate sessionId endpoint candidate =>
    match reply with
    | .ok _ => ({ s with added := s.added ++ [(endpoint, candidate)] }, .done)
    | .error message => (s, caught sessionId message)
  | .handleError sessionId message =>
    match message with
    | some _ => (s, .removeUser sessionId)
    | none => (s, caught sessionId reply.text)
  | .sendError sessionId errMsg => (s.sendError sessionId errMsg, .done)
  | .removeUser sessionId =>
    match s.users.lookup sessionId with
    | some user => ({ s with users := s.users.erase sessionId }, .getMediaPipeline user)
    | none => (s, .done)
  | .getMediaPipeline user =>
    match pipelineOf s.heap user with
    | some pipeline => (s, .release pipeline)
    | none => (s, .done)
  | .release pipeline => ({ s with released := s.released ++ [pipeline] }, .done)
  | .errorEvent sessionId description =>
    (s.sendError sessionId ("[Kurento] " ++ description), .removeUser sessionId)
  | .candidateFound sessionId candidate => (s.sendMessage sessionId (.addIceCandidate candidate), .done)
  | .connectionClosed sessionId => ({ s with closed := sessionId :: s.closed }, .removeUser sessionId)
  | .done => (s, .done)

/-- Thread `thread` takes its next step, and Kurento answers with `reply`. -/
structure Turn where
  thread : Nat
  reply : Reply

def step (s : State Shared Task) (turn : Turn) : State Shared Task := s.act (advance turn.reply) turn.thread

/-- The handlers that have been started. -/
inductive Handler where
  | message (sessionId : String) (text : ClientMessage)
  | errorEvent (sessionId description : String)
  | candidateFound (sessionId : String) (candidate : IceCandidate)
  | connectionClosed (sessionId : String)

def Handler.task : Handler → Task
  | .message sessionId text => handleTextMessage sessionId text
  | .errorEvent sessionId description => .errorEvent sessionId description
  | .candidateFound sessionId candidate => .candidateFound sessionId candidate
  | .connectionClosed sessionId => .connectionClosed sessionId

def start (handlers : List Handler) : State Shared Task := ⟨.init, handlers.map Handler.task⟩

/-! ## What a step does to the sessions -/

/-- The session object that the thread has taken out of the map. -/
def Task.taken : Task → Option UserRef
  | .getMediaPipeline user => some user
  | .release pipeline => some pipeline
  | _ => none

/-- The session object for which the thread is about to make or to store a pipeline. -/
def Task.filling : Task → Option UserRef
  | .createMediaPipeline _ user _ => some user
  | .setMediaPipeline _ user _ => some user
  | _ => none

/-- The session map, the pipelines in the objects and those released stay as they are. -/
structure Quiet (s s' : Shared) : Prop where
  users : s'.users = s.users
  length : s'.heap.length = s.heap.length
  pipelines : ∀ user, pipelineOf s'.heap user = pipelineOf s.heap user
  released : s'.released = s.released

theorem Quiet.refl (s : Shared) : Quiet s s := ⟨rfl, rfl, fun _ => rfl, rfl⟩

theorem sendMessage_quiet (s : Shared) (sessionId : String) (message : ServerMessage) :
    Quiet s (s.sendMessage sessionId message) := by
  unfold Shared.sendMessage
  split
  · exact .refl s
  · split
    · exact .refl s
    · exact ⟨rfl, rfl, fun _ => rfl, rfl⟩

theorem sendError_quiet (s : Shared) (sessionId errMsg : String) : Quiet s (s.sendError sessionId errMsg) := by
  unfold Shared.sendError
  split
  · exact sendMessage_quiet s sessionId _
  · exact .refl s

theorem pipelineOf_modify (heap : List UserSession) (user : UserRef) (f : UserSession → UserSession) (u : UserRef) :
    pipelineOf (heap.modify user f) u =
      if u = user then (heap[u]?).bind fun x => (f x).mediaPipeline else pipelineOf heap u := by
  unfold pipelineOf
  rw [List.getElem?_modify]
  by_cases hu : u = user
  · subst hu
    cases heap[u]? <;> simp
  · rw [if_neg hu]
    cases heap[u]? <;> simp [Ne.symm hu]

/-- The steps that matter to the sessions, and all the others. -/
inductive Advance (s : Shared) : Task → Shared → Task → Prop where
  | newUser (sessionId : String) (sdpOffer : Option String) : Advance s (.newUser sessionId sdpOffer)
      { s with heap := s.heap ++ [⟨none, none⟩], users := s.users.insert sessionId s.heap.length }
      (.createMediaPipeline sessionId s.heap.length sdpOffer)
  | createMediaPipeline (sessionId : String) (user : UserRef) (sdpOffer : Option String) :
      Advance s (.createMediaPipeline sessionId user sdpOffer) s (.setMediaPipeline sessionId user sdpOffer)
  | setMediaPipeline (sessionId : String) (user : UserRef) (sdpOffer : Option String) :
      Advance s (.setMediaPipeline sessionId user sdpOffer)
        { s with heap := s.heap.modify user fun x => { x with mediaPipeline := some user } }
        (.buildWebRtcEndpoint sessionId user sdpOffer)
  | removeUser {sessionId : String} {user : UserRef} (h : s.users.lookup sessionId = some user) :
      Advance s (.removeUser sessionId) { s with users := s.users.erase sessionId } (.getMediaPipeline user)
  | getMediaPipeline {user pipeline : UserRef} (h : pipelineOf s.heap user = some pipeline) :
      Advance s (.getMediaPipeline user) s (.release pipeline)
  | noMediaPipeline {user : UserRef} (h : pipelineOf s.heap user = none) :
      Advance s (.getMediaPipeline user) s .done
  | release (pipeline : UserRef) :
      Advance s (.release pipeline) { s with released := s.released ++ [pipeline] } .done
  | quiet {t t' : Task} {s' : Shared} (hquiet : Quiet s s') (ht : t.taken = none) (ht' : t'.taken = none)
      (hfilling : t'.filling = none) : Advance s t s' t'

theorem advance_cases (reply : Reply) (s : Shared) (t : Task) :
    Advance s t (advance reply s t).1 (advance reply s t).2 := by
  cases t with
  | newUser sessionId sdpOffer => exact .newUser sessionId sdpOffer
  | createMediaPipeline sessionId user sdpOffer =>
    cases reply with
    | ok _ => exact .createMediaPipeline sessionId user sdpOffer
    | error message => exact .quiet (.refl s) rfl rfl rfl
  | setMediaPipeline sessionId user sdpOffer => exact .setMediaPipeline sessionId user sdpOffer
  | buildWebRtcEndpoint sessionId user sdpOffer =>
    cases reply with
    | ok _ => exact .quiet (.refl s) rfl rfl rfl
    | error message => exact .quiet (.refl s) rfl rfl rfl
  | setWebRtcEndpoint sessionId user sdpOffer =>
    refine .quiet ⟨rfl, List.length_modify _ _ _, fun u => ?_, rfl⟩ rfl rfl rfl
    simp only [advance, pipelineOf_modify]
    split
    · rfl
    · rfl
  | initWebRtcEndpoint sessionId user sdpOffer =>
    unfold advance
    dsimp only
    split
    · exact .quiet (.refl s) rfl rfl rfl
    · exact .quiet (.refl s) rfl rfl rfl
  | sendAnswer sessionId user sdpAnswer => exact .quiet (sendMessage_quiet s sessionId _) rfl rfl rfl
  | startWebRtcEndpoint sessionId user =>
    cases reply with
    | ok _ => exact .quiet (.refl s) rfl rfl rfl
    | error message => exact .quiet (.refl s) rfl rfl rfl
  | containsUser sessionId candidate =>
    unfold advance
    dsimp only
    split
    · exact .quiet (.refl s) rfl rfl rfl
    · exact .quiet (.refl s) rfl rfl rfl
  | getUser sessionId candidate =>
    unfold advance
    dsimp only
    split
    · exact .quiet (.refl s) rfl rfl rfl
    · exact .quiet (.refl s) rfl rfl rfl
  | getWebRtcEndpoint sessionId user candidate =>
    unfold advance
    dsimp only
    split
    · exact .quiet (.refl s) rfl rfl rfl
    · exact .quiet (.refl s) rfl rfl rfl
  | addIceCandidate sessionId endpoint candidate =>
    cases reply with
    | ok _ => exact .quiet ⟨rfl, rfl, fun _ => rfl, rfl⟩ rfl rfl rfl
    | error message => exact .quiet (.refl s) rfl rfl rfl
  | handleError sessionId message =>
    cases message with
    | some _ => exact .quiet (.refl s) rfl rfl rfl
    | none => exact .quiet (.refl s) rfl rfl rfl
  | sendError sessionId errMsg => exact .quiet (sendError_quiet s sessionId errMsg) rfl rfl rfl
  | removeUser sessionId =>
    unfold advance
    dsimp only
    split
    · next h => exact .removeUser h
    · exact .quiet (.refl s) rfl rfl rfl
  | getMediaPipeline user =>
    unfold advance
    dsimp only
    split
    · next h => exact .getMediaPipeline h
    · next h => exact .noMediaPipeline h
  | release pipeline => exact .release pipeline
  | errorEvent sessionId description => exact .quiet (sendError_quiet s sessionId _) rfl rfl rfl
  | candidateFound sessionId candidate => exact .quiet (sendMessage_quiet s sessionId _) rfl rfl rfl
  | connectionClosed sessionId => exact .quiet ⟨rfl, rfl, fun _ => rfl, rfl⟩ rfl rfl rfl
  | done => exact .quiet (.refl s) rfl rfl rfl

/-! ## Every session is in one place -/

/-- The objects of the sessions that are in the map, in the hands of a thread that took
them out, or released with their pipelines. -/
def places (s : State Shared Task) : List UserRef :=
  s.shared.released ++ (s.threads.filterMap Task.taken ++ values s.shared.users)

/-- What one thread and the shared state have of these. -/
def placesOf (s : Shared) (t : Task) : List UserRef := s.released ++ (t.taken.toList ++ values s.users)

theorem filterMap_cons_toList (f : Task → Option UserRef) (t : Task) (ts : List Task) :
    (t :: ts).filterMap f = (f t).toList ++ ts.filterMap f := by
  cases h : f t <;> simp [h]

section
variable {s : State Shared Task} {i : Nat} {t : Task} (hi : s.threads[i]? = some t) (u : UserRef)
include hi

theorem count_places :
    (places s).count u = (placesOf s.shared t).count u + ((others s.threads i).filterMap Task.taken).count u := by
  have hperm := (perm_others hi).filterMap Task.taken
  rw [filterMap_cons_toList] at hperm
  simp only [places, placesOf, List.count_append, ← hperm.count_eq u]
  omega

theorem count_places_set (s' : Shared) (t' : Task) :
    (places ⟨s', s.threads.set i t'⟩).count u =
      (placesOf s' t').count u + ((others s.threads i).filterMap Task.taken).count u := by
  have hperm := (set_perm_others hi t').filterMap Task.taken
  rw [filterMap_cons_toList] at hperm
  simp only [places, placesOf, List.count_append, hperm.count_eq u]
  omega

end

/-- The pipeline that an object has is its own. -/
def Own (heap : List UserSession) : Prop := ∀ u pipeline, pipelineOf heap u = some pipeline → pipeline = u

theorem pipelineOf_append (heap : List UserSession) (u : UserRef) :
    pipelineOf (heap ++ [⟨none, none⟩]) u = pipelineOf heap u := by
  unfold pipelineOf
  by_cases hu : u < heap.length
  · rw [List.getElem?_append_left hu]
  · have hnone : heap[u]? = none := List.getElem?_eq_none (Nat.le_of_not_lt hu)
    rw [List.getElem?_append_right (Nat.le_of_not_lt hu), hnone]
    cases u - heap.length <;> rfl

section
variable {s s' : Shared} {t t' : Task}

theorem advance_own (h : Advance s t s' t') (ho : Own s.heap) : Own s'.heap := by
  intro u pipeline hp
  cases h with
  | newUser sessionId sdpOffer =>
    rw [pipelineOf_append] at hp
    exact ho u pipeline hp
  | setMediaPipeline sessionId user sdpOffer =>
    rw [pipelineOf_modify] at hp
    split at hp
    · next hu =>
      obtain ⟨x, -, hx⟩ := Option.bind_eq_some_iff.mp hp
      exact (Option.some.inj hx).symm.trans hu.symm
    · exact ho u pipeline hp
  | quiet hquiet _ _ _ =>
    rw [hquiet.pipelines] at hp
    exact ho u pipeline hp
  | _ => exact ho u pipeline hp

/-- A step takes no object to a second place, and the only one it can bring in is new. -/
theorem advance_places (h : Advance s t s' t') (ho : Own s.heap) (u : UserRef) :
    s.heap.length ≤ s'.heap.length ∧
      (placesOf s' t').count u ≤ (placesOf s t).count u +
        if u = s.heap.length ∧ s.heap.length < s'.heap.length then 1 else 0 := by
  cases h with
  | newUser sessionId sdpOffer =>
    have hold := values_erase_count s.users sessionId u
    refine ⟨by simp, ?_⟩
    simp only [placesOf, Task.taken, Option.toList_none, List.nil_append, List.count_append, values_insert,
      List.count_cons, List.length_append, List.length_singleton, beq_iff_eq]
    by_cases hu : u = s.heap.length
    · subst hu
      simp only [true_and, if_true]
      rw [if_pos (Nat.lt_succ_self _)]
      omega
    · rw [if_neg (Ne.symm hu)]
      omega
  | createMediaPipeline sessionId user sdpOffer => exact ⟨Nat.le_refl _, Nat.le_add_right _ _⟩
  | setMediaPipeline sessionId user sdpOffer =>
    exact ⟨Nat.le_of_eq (List.length_modify _ _ _).symm, Nat.le_add_right _ _⟩
  | @removeUser sessionId user hl =>
    have hold := values_erase_count s.users sessionId u
    refine ⟨Nat.le_refl _, Nat.le_trans (Nat.le_of_eq ?_) (Nat.le_add_right _ _)⟩
    simp only [placesOf, Task.taken, Option.toList_none, Option.toList_some, List.nil_append, List.count_append,
      List.count_singleton, hl, Option.some.injEq, beq_iff_eq] at hold ⊢
    omega
  | getMediaPipeline hp =>
    obtain rfl := ho _ _ hp
    exact ⟨Nat.le_refl _, Nat.le_add_right _ _⟩
  | noMediaPipeline _ =>
    refine ⟨Nat.le_refl _, ?_⟩
    simp only [placesOf, Task.taken, Option.toList_none, Option.toList_some, List.nil_append, List.count_append]
    omega
  | release pipeline =>
    refine ⟨Nat.le_refl _, ?_⟩
    simp only [placesOf, Task.taken, Option.toList_none, Option.toList_some, List.nil_append, List.count_append]
    omega
  | quiet hquiet ht ht' _ =>
    refine ⟨Nat.le_of_eq hquiet.length.symm, ?_⟩
    simp only [placesOf, ht, ht', hquiet.users, hquiet.released]
    omega

end

/-- No object is in two places, and those that are in one have been made. -/
structure Single (s : State Shared Task) : Prop where
  own : Own s.shared.heap
  below : ∀ u, s.shared.heap.length ≤ u → (places s).count u = 0
  once : ∀ u, (places s).count u ≤ 1

theorem step_single (s : State Shared Task) (turn : Turn) (h : Single s) : Single (step s turn) := by
  rcases act_cases s (advance turn.reply) turn.thread with ⟨-, heq⟩ | ⟨t, hi, heq⟩
  · rw [step, heq]
    exact h
  · rw [step, heq]
    have hadvance := advance_cases turn.reply s.shared t
    generalize (advance turn.reply s.shared t).1 = s' at hadvance ⊢
    generalize (advance turn.reply s.shared t).2 = t' at hadvance ⊢
    refine ⟨advance_own hadvance h.own, fun u hu => ?_, fun u => ?_⟩
    · obtain ⟨hlength, hcount⟩ := advance_places hadvance h.own u
      have hzero := h.below u (Nat.le_trans hlength hu)
      rw [count_places hi] at hzero
      rw [count_places_set hi]
      have hnew : ¬ (u = s.shared.heap.length ∧ s.shared.heap.length < s'.heap.length) := by
        rintro ⟨rfl, hlt⟩
        exact Nat.lt_irrefl _ (Nat.lt_of_lt_of_le hlt hu)
      rw [if_neg hnew] at hcount
      omega
    · obtain ⟨-, hcount⟩ := advance_places hadvance h.own u
      have hone := h.once u
      rw [count_places hi] at hone
      rw [count_places_set hi]
      by_cases hnew : u = s.shared.heap.length ∧ s.shared.heap.length < s'.heap.length
      · have hzero := h.below u (Nat.le_of_eq hnew.1.symm)
        rw [count_places hi] at hzero
        rw [if_pos hnew] at hcount
        omega
      · rw [if_neg hnew] at hcount
        omega

theorem start_single (handlers : List Handler) : Single (start handlers) := by
  have hnone : (handlers.map Handler.task).filterMap Task.taken = [] := by
    rw [List.filterMap_map, List.filterMap_eq_nil_iff]
    intro handler _
    cases handler with
    | message sessionId text =>
      cases text with
      | other id => cases id <;> rfl
      | _ => rfl
    | _ => rfl
  have hplaces : places (start handlers) = [] := by
    simp only [places, start, hnone]
    rfl
  refine ⟨?_, fun u _ => by rw [hplaces]; rfl, fun u => by rw [hplaces]; exact Nat.zero_le 1⟩
  intro u pipeline hp
  cases hp

/-! ## Pipelines are released once -/

/-- What is released, or about to be, is a pipeline that an object has. -/
structure Made (s : State Shared Task) : Prop where
  released : ∀ u ∈ s.shared.released, pipelineOf s.shared.heap u = some u
  releasing : ∀ t ∈ s.threads, ∀ u, t = .release u → pipelineOf s.shared.heap u = some u

section
variable {s s' : Shared} {t t' : Task}

/-- An object keeps the pipeline it has. -/
theorem advance_pipeline (h : Advance s t s' t') {u : UserRef} (hu : pipelineOf s.heap u = some u) :
    pipelineOf s'.heap u = some u := by
  cases h with
  | newUser sessionId sdpOffer =>
    rw [pipelineOf_append]
    exact hu
  | setMediaPipeline sessionId user sdpOffer =>
    rw [pipelineOf_modify]
    split
    · next heq =>
      obtain ⟨x, hx, -⟩ := Option.bind_eq_some_iff.mp hu
      rw [hx, heq]
      rfl
    · exact hu
  | quiet hquiet _ _ _ =>
    rw [hquiet.pipelines]
    exact hu
  | _ => exact hu

theorem advance_made (h : Advance s t s' t') (ho : Own s.heap)
    (hreleased : ∀ u ∈ s.released, pipelineOf s.heap u = some u)
    (hreleasing : ∀ u, t = .release u → pipelineOf s.heap u = some u) :
    (∀ u ∈ s'.released, pipelineOf s'.heap u = some u) ∧
      ∀ u, t' = .release u → pipelineOf s'.heap u = some u := by
  have hkeep : ∀ u ∈ s.released, pipelineOf s'.heap u = some u :=
    fun u hu => advance_pipeline h (hreleased u hu)
  cases h with
  | getMediaPipeline hp =>
    refine ⟨hkeep, fun u heq => ?_⟩
    obtain rfl := Task.release.inj heq
    obtain rfl := ho _ _ hp
    exact hp
  | release pipeline =>
    refine ⟨fun u hu => ?_, fun u heq => by cases heq⟩
    rcases List.mem_append.mp hu with hu | hu
    · exact hreleased u hu
    · obtain rfl := List.mem_singleton.mp hu
      exact hreleasing u rfl
  | quiet hquiet _ ht' _ =>
    refine ⟨fun u hu => hkeep u (hquiet.released ▸ hu), fun u heq => ?_⟩
    subst heq
    cases ht'
  | _ => exact ⟨hkeep, fun u heq => by cases heq⟩

end

theorem step_made (s : State Shared Task) (turn : Turn) (ho : Own s.shared.heap) (h : Made s) :
    Made (step s turn) := by
  rcases act_cases s (advance turn.reply) turn.thread with ⟨-, heq⟩ | ⟨t, hi, heq⟩
  · rw [step, heq]
    exact h
  · rw [step, heq]
    have hadvance := advance_cases turn.reply s.shared t
    generalize (advance turn.reply s.shared t).1 = s' at hadvance ⊢
    generalize (advance turn.reply s.shared t).2 = t' at hadvance ⊢
    obtain ⟨hreleased, hreleasing⟩ :=
      advance_made hadvance ho h.released fun u hu => h.releasing t (List.mem_of_getElem? hi) u hu
    refine ⟨hreleased, forall_set hi hreleasing fun t₂ ht₂ u hu => ?_⟩
    exact advance_pipeline hadvance (h.releasing t₂ (mem_of_mem_others ht₂) u hu)

theorem start_made (handlers : List Handler) : Made (start handlers) := by
  refine ⟨fun u hu => (by cases hu), fun t ht u heq => ?_⟩
  subst heq
  obtain ⟨handler, -, htask⟩ := List.mem_map.mp ht
  cases handler with
  | message sessionId text =>
    cases text with
    | other id => cases id <;> cases htask
    | _ => cases htask
  | _ => cases htask

/-- However the handlers of any sessions interleave, no pipeline is released twice, only
pipelines are that were made, and none that a session of the map still has. -/
theorem run_releases_once (handlers : List Handler) (turns : List Turn) :
    let s := (run step (start handlers) turns).shared
    s.released.Nodup ∧ ∀ u ∈ s.released, pipelineOf s.heap u = some u ∧
      ∀ sessionId, s.users.lookup sessionId ≠ some u := by
  intro s
  obtain ⟨hsingle, hmade⟩ := run_invariant (I := fun s => Single s ∧ Made s)
    (fun s turn h => ⟨step_single s turn h.1, step_made s turn h.1.own h.2⟩) _ turns
    ⟨start_single handlers, start_made handlers⟩
  have hnodup := List.nodup_append.mp (List.nodup_iff_count_le_one.mpr hsingle.once)
  refine ⟨hnodup.1, fun u hu => ⟨hmade.released u hu, fun sessionId hl => ?_⟩⟩
  exact hnodup.2.2 u hu u (List.mem_append_right _ ((mem_values_iff _ u).mpr ⟨sessionId, hl⟩)) rfl

/-! ## No pipeline is lost -/

/-- The session that the next step of the thread puts into the map. -/
def Task.puts : Task → Option String
  | .newUser sessionId _ => some sessionId
  | _ => none

/-- The session that the next step of the thread takes out of it. -/
def Task.removes : Task → Option String
  | .removeUser sessionId => some sessionId
  | _ => none

/-- No offer overwrites a session, and no session is taken out while its offer has still to
store the pipeline in it. -/
def Tidy (s : State Shared Task) (turn : Turn) : Prop :=
  ∀ t ∈ s.threads[turn.thread]?, (∀ sessionId ∈ t.puts, s.shared.users.lookup sessionId = none) ∧
    ∀ sessionId ∈ t.removes, ∀ other ∈ s.threads, other.filling.isSome = true →
      s.shared.users.lookup sessionId ≠ other.filling

instance decidableTidy (s : State Shared Task) (turn : Turn) : Decidable (Tidy s turn) :=
  inferInstanceAs (Decidable (∀ t ∈ s.threads[turn.thread]?, (∀ _ ∈ t.puts, _) ∧
    ∀ _ ∈ t.removes, ∀ other ∈ s.threads, other.filling.isSome = true → _ ≠ other.filling))

/-- What the offers are filling is in the map, and what has a pipeline is in one of the places. -/
structure Kept (s : State Shared Task) : Prop where
  filling : ∀ t ∈ s.threads, ∀ u, t.filling = some u → ∃ sessionId, s.shared.users.lookup sessionId = some u
  placed : ∀ u, pipelineOf s.shared.heap u ≠ none → u ∈ places s

section
variable {s s' : Shared} {t t' : Task}

/-- Only the offer that fills an object gives it a pipeline. -/
theorem advance_filled (h : Advance s t s' t') {u : UserRef} (hu : pipelineOf s'.heap u ≠ none) :
    pipelineOf s.heap u ≠ none ∨ t.filling = some u := by
  cases h with
  | newUser sessionId sdpOffer =>
    rw [pipelineOf_append] at hu
    exact .inl hu
  | setMediaPipeline sessionId user sdpOffer =>
    rw [pipelineOf_modify] at hu
    split at hu
    · next heq => exact .inr (congrArg some heq.symm)
    · exact .inl hu
  | quiet hquiet _ _ _ =>
    rw [hquiet.pipelines] at hu
    exact .inl hu
  | _ => exact .inl hu

/-- An object that has a pipeline stays in its place, unless an offer overwrites it. -/
theorem advance_placed (h : Advance s t s' t') (ho : Own s.heap)
    (hnew : ∀ sessionId sdpOffer, t = .newUser sessionId sdpOffer → s.users.lookup sessionId = none)
    {u : UserRef} (hu : pipelineOf s'.heap u ≠ none) : (placesOf s t).count u ≤ (placesOf s' t').count u := by
  cases h with
  | newUser sessionId sdpOffer =>
    have hold := values_erase_count s.users sessionId u
    rw [hnew sessionId sdpOffer rfl] at hold
    simp only [placesOf, Task.taken, Option.toList_none, List.nil_append, List.count_append, values_insert,
      List.count_cons, reduceCtorEq, if_false] at hold ⊢
    omega
  | createMediaPipeline sessionId user sdpOffer => exact Nat.le_refl _
  | setMediaPipeline sessionId user sdpOffer => exact Nat.le_refl _
  | @removeUser sessionId user hl =>
    have hold := values_erase_count s.users sessionId u
    simp only [placesOf, Task.taken, Option.toList_none, Option.toList_some, List.nil_append, List.count_append,
      List.count_singleton, hl, Option.some.injEq, beq_iff_eq] at hold ⊢
    omega
  | getMediaPipeline hp =>
    obtain rfl := ho _ _ hp
    exact Nat.le_refl _
  | @noMediaPipeline user hp =>
    -- the thread lets go of an object that has none
    have hne : user ≠ u := by
      rintro rfl
      exact hu hp
    simp only [placesOf, Task.taken, Option.toList_none, Option.toList_some, List.nil_append, List.count_append,
      List.count_singleton, beq_iff_eq, if_neg hne]
    omega
  | release pipeline =>
    simp only [placesOf, Task.taken, Option.toList_none, Option.toList_some, List.nil_append, List.count_append]
    omega
  | quiet hquiet ht ht' _ =>
    simp only [placesOf, ht, ht', hquiet.users, hquiet.released]
    exact Nat.le_refl _

/-- What an offer fills afterwards is in the map, as what the others fill is. -/
theorem advance_filling (h : Advance s t s' t') {u : UserRef}
    (hnew : ∀ sessionId sdpOffer, t = .newUser sessionId sdpOffer → s.users.lookup sessionId = none)
    (hremove : ∀ sessionId, t = .removeUser sessionId → s.users.lookup sessionId ≠ some u)
    (hu : ∃ sessionId, s.users.lookup sessionId = some u) : ∃ sessionId, s'.users.lookup sessionId = some u := by
  obtain ⟨key, hkey⟩ := hu
  cases h with
  | newUser sessionId sdpOffer =>
    have hne : key ≠ sessionId := by
      rintro rfl
      rw [hnew key sdpOffer rfl] at hkey
      cases hkey
    exact ⟨key, by rw [lookup_put, if_neg hne]; exact hkey⟩
  | @removeUser sessionId user hl =>
    have hne : key ≠ sessionId := by
      rintro rfl
      exact hremove key rfl hkey
    exact ⟨key, by rw [lookup_remove, if_neg hne]; exact hkey⟩
  | quiet hquiet _ _ _ => exact ⟨key, by rw [hquiet.users]; exact hkey⟩
  | _ => exact ⟨key, hkey⟩

/-- The object that a thread fills after its step is new, or the one it filled before. -/
theorem advance_own_filling (h : Advance s t s' t') {u : UserRef} (hu : t'.filling = some u) :
    (∃ sessionId, s'.users.lookup sessionId = some u) ∨ t.filling = some u := by
  cases h with
  | newUser sessionId sdpOffer =>
    obtain rfl := Option.some.inj hu
    exact .inl ⟨sessionId, by rw [lookup_put, if_pos rfl]⟩
  | createMediaPipeline sessionId user sdpOffer => exact .inr hu
  | quiet _ _ _ hfilling =>
    rw [hfilling] at hu
    cases hu
  | _ => cases hu

end

theorem step_kept (s : State Shared Task) (turn : Turn) (ho : Own s.shared.heap) (h : Kept s)
    (htidy : Tidy s turn) : Kept (step s turn) := by
  rcases act_cases s (advance turn.reply) turn.thread with ⟨-, heq⟩ | ⟨t, hi, heq⟩
  · rw [step, heq]
    exact h
  · rw [step, heq]
    have hadvance := advance_cases turn.reply s.shared t
    generalize (advance turn.reply s.shared t).1 = s' at hadvance ⊢
    generalize (advance turn.reply s.shared t).2 = t' at hadvance ⊢
    have hmem : t ∈ s.threads := List.mem_of_getElem? hi
    obtain ⟨hputs, hremoves⟩ := htidy t hi
    have hnew : ∀ sessionId sdpOffer, t = .newUser sessionId sdpOffer →
        s.shared.users.lookup sessionId = none := by
      rintro sessionId sdpOffer rfl
      exact hputs sessionId rfl
    have hremove : ∀ sessionId, t = .removeUser sessionId → ∀ t₂ ∈ s.threads, ∀ u, t₂.filling = some u →
        s.shared.users.lookup sessionId ≠ some u := by
      rintro sessionId rfl t₂ ht₂ u hu
      rw [← hu]
      exact hremoves sessionId rfl t₂ ht₂ (by rw [hu]; rfl)
    refine ⟨?_, fun u hu => ?_⟩
    · refine forall_set hi (fun u hu => ?_) fun t₂ ht₂ u hu => ?_
      · rcases advance_own_filling hadvance hu with hstored | hbefore
        · exact hstored
        · exact advance_filling hadvance hnew (fun sessionId hs => hremove sessionId hs t hmem u hbefore)
            (h.filling t hmem u hbefore)
      · have hmem₂ := mem_of_mem_others ht₂
        exact advance_filling hadvance hnew (fun sessionId hs => hremove sessionId hs t₂ hmem₂ u hu)
          (h.filling t₂ hmem₂ u hu)
    · have hplaced : u ∈ places s := by
        rcases advance_filled hadvance hu with hbefore | hfilling
        · exact h.placed u hbefore
        · obtain ⟨sessionId, hl⟩ := h.filling t hmem u hfilling
          exact List.mem_append_right _ (List.mem_append_right _ ((mem_values_iff _ u).mpr ⟨sessionId, hl⟩))
      have hcount := advance_placed hadvance ho hnew hu
      rw [← List.count_pos_iff] at hplaced ⊢
      rw [count_places hi] at hplaced
      rw [count_places_set hi]
      omega

theorem start_kept (handlers : List Handler) : Kept (start handlers) := by
  refine ⟨fun t ht u hu => ?_, fun u hu => absurd rfl hu⟩
  obtain ⟨handler, -, rfl⟩ := List.mem_map.mp ht
  cases handler with
  | message sessionId text =>
    cases text with
    | other id => cases id <;> cases hu
    | _ => cases hu
  | _ => cases hu

/-- As long as no offer meets a session of its own web socket session and no stop meets an
offer that has not stored its pipeline yet, every pipeline that a session object got has been
released, or is about to be, or belongs to a session of the map. -/
theorem tidy_run_loses_no_pipeline (handlers : List Handler) (turns : List Turn)
    (htidy : Along step Tidy (start handlers) turns) :
    let s := run step (start handlers) turns
    ∀ u, pipelineOf s.shared.heap u ≠ none →
      u ∈ s.shared.released ∨ (∃ t ∈ s.threads, t.taken = some u) ∨
        ∃ sessionId, s.shared.users.lookup sessionId = some u := by
  intro s u hu
  have hkept : Single s ∧ Kept s := by
    refine (throughout_of_along (I := fun s => Single s ∧ Kept s) ?_ _ turns
      ⟨start_single handlers, start_kept handlers⟩ htidy).run
    exact fun s turn h ht => ⟨step_single s turn h.1, step_kept s turn h.1.own h.2 ht⟩
  have hplaced := hkept.2.placed u hu
  simp only [places, List.mem_append, List.mem_filterMap, mem_values_iff] at hplaced
  exact hplaced

/-- An offer is handled and then stopped, while another session makes its offer. -/
theorem tidy_run_loses_no_pipeline_stopped :
    let s := run step (start [.message "a" (.processSdpOffer (some "v=0")), .message "a" .stop,
        .message "b" (.processSdpOffer (some "v=0"))])
      ([0, 0, 2, 0, 0, 2, 0, 0, 2, 0, 0, 1, 2, 1, 1].map fun i => ⟨i, .ok "v=1"⟩)
    ∀ u, pipelineOf s.shared.heap u ≠ none →
      u ∈ s.shared.released ∨ (∃ t ∈ s.threads, t.taken = some u) ∨
        ∃ sessionId, s.shared.users.lookup sessionId = some u :=
  tidy_run_loses_no_pipeline _ _ (by decide)

end HelloSessions

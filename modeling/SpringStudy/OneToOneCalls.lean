import SpringStudy.OneToOnePipelines

/-!
# Whom a stop concerns

`stop` finds the other user through the names of the last call, which stay when
that call is over. Beside the handler stands what has happened so far: the calls
that are still going on, where an accepted call is one until either side stops or
closes, and who called each user last and whom each user called last.
-/
namespace OneToOneCalls

open Tables Outcomes OneToOne Runs
open OneToOnePipelines (register_same samePipelines_inert)

def sessions (h : Handler) : List String := h.heap.map UserSession.session

/-- The session of a user. -/
def sessionOf (h : Handler) (u : UserRef) : Option String := (sessions h)[u]?

/-- The caller and the callee, if the event accepts a call and the new pipeline stays in place. -/
def accepted (h : Handler) : Event → Option (UserRef × UserRef)
  | .incomingCallResponse session response callerName sdpOffer input =>
    match callerName.bind h.usersByName.lookup, h.usersBySessionId.lookup session with
    | some calleer, some callee =>
      if response = some "accept" ∧
          (step h (.incomingCallResponse session response callerName sdpOffer input)).pipelines.lookup session =
            some h.built then some (calleer, callee)
      else none
    | _, _ => none
  | _ => none

/-- Whether the message of that `stop` goes out. -/
def stopDelivered : Event → Bool
  | .register _ _ _ delivered => delivered
  | .call _ _ _ _ _ delivered => delivered
  | .stop _ delivered => delivered
  | .closed _ delivered => delivered
  | _ => false

structure World where
  handler : Handler
  /-- The accepted calls that neither side has stopped, caller first. -/
  calls : List (UserRef × UserRef)
  /-- Who called a user last, by the name in the message. -/
  callers : Table UserRef String
  /-- Whom a user called last. -/
  callees : Table UserRef String

def World.init : World := ⟨.init, [], ∅, ∅⟩

/-- From `h` to `h'` the users of `told` are told to stop and those of `cleared` are cleared. -/
structure Does (h h' : Handler) (told cleared : List UserRef) : Prop where
  sent : ∃ msgs, h'.sent = h.sent ++ msgs ∧ ∀ v, (.user v, .stopCommunication) ∈ msgs ↔ v ∈ told
  cleared : h'.cleared = h.cleared ++ cleared

theorem Does.nothing {h h' : Handler} (hs : h'.sent = h.sent) (hc : h'.cleared = h.cleared) : Does h h' [] [] :=
  ⟨⟨[], by simp [hs], by simp⟩, by simp [hc]⟩

theorem Does.trans {h h' h'' : Handler} {told told' cleared cleared' : List UserRef}
    (hd : Does h h' told cleared) (hd' : Does h' h'' told' cleared') :
    Does h h'' (told ++ told') (cleared ++ cleared') := by
  obtain ⟨⟨msgs, hs, hm⟩, hc⟩ := hd
  obtain ⟨⟨msgs', hs', hm'⟩, hc'⟩ := hd'
  refine ⟨⟨msgs ++ msgs', ?_, ?_⟩, ?_⟩
  · rw [hs', hs, List.append_assoc]
  · intro v
    rw [List.mem_append, List.mem_append, hm, hm']
  · rw [hc', hc, List.append_assoc]

theorem Does.quiet {h h' h'' : Handler} {told cleared : List UserRef} (hd : Does h h' told cleared)
    (hd' : Does h' h'' [] []) : Does h h'' told cleared := by
  have htrans := hd.trans hd'
  rwa [List.append_nil, List.append_nil] at htrans

section
variable {h h' : Handler} {told cleared : List UserRef}

theorem Does.send (hd : Does h h' told cleared) (receiver : Receiver) (message : Message)
    (hne : message ≠ .stopCommunication) : Does h (h'.send receiver message) told cleared := by
  refine hd.quiet ⟨⟨[(receiver, message)], rfl, ?_⟩, (List.append_nil _).symm⟩
  intro v
  simp only [List.mem_singleton, Prod.mk.injEq, List.not_mem_nil, iff_false, not_and]
  exact fun _ he => hne he.symm

theorem Does.sendMessage (hd : Does h h' told cleared) (u : UserRef) (message : Message) (delivered : Bool)
    (hne : message ≠ .stopCommunication) : Does h (h'.sendMessage u message delivered).1 told cleared := by
  unfold Handler.sendMessage
  split
  · exact hd.send (.user u) message hne
  · exact hd

theorem Does.stopCommunication (hd : Does h h' told cleared) (v : UserRef) :
    Does h (h'.send (.user v) .stopCommunication) (told ++ [v]) cleared := by
  have hone : Does h' (h'.send (.user v) .stopCommunication) [v] [] := by
    refine ⟨⟨[(.user v, .stopCommunication)], rfl, ?_⟩, (List.append_nil _).symm⟩
    intro u
    simp
  have htrans := hd.trans hone
  rwa [List.append_nil] at htrans

theorem Does.clear (hd : Does h h' told cleared) (u : UserRef) :
    Does h (h'.clear u) told (cleared ++ [u]) := by
  have hone : Does h' (h'.clear u) [] [u] := ⟨⟨[], (List.append_nil _).symm, by simp⟩, rfl⟩
  have htrans := hd.trans hone
  rwa [List.append_nil] at htrans

end

/-- The user found by a session has that session. -/
def Seated (h : Handler) : Prop :=
  ∀ session u, h.usersBySessionId.lookup session = some u → sessionOf h u = some session

theorem Seated.same {h h' : Handler} (hj : Seated h) (hu : h'.usersBySessionId = h.usersBySessionId)
    (hs : sessions h' = sessions h) : Seated h' := by
  intro session u hl
  rw [hu] at hl
  unfold sessionOf
  rw [hs]
  exact hj session u hl

theorem sessions_modify (h : Handler) (u : UserRef) (f : UserSession → UserSession)
    (hf : ∀ user, (f user).session = user.session) : sessions (h.modify u f) = sessions h := by
  unfold sessions Handler.modify
  apply List.ext_getElem?
  intro i
  simp only [List.getElem?_map, List.getElem?_modify]
  cases h.heap[i]? with
  | none => rfl
  | some user =>
    by_cases hi : u = i
    · simp [hi, hf user]
    · simp [hi]

theorem seated_unmoved : Unmoved Seated where
  toInert := .of (fun h u f hf hj => hj.same rfl (sessions_modify h u f hf)) (fun _ _ _ hj => hj)
    (fun _ _ hj => hj) fun _ _ hj => hj
  pipelines _ _ _ _ hj := hj

theorem register_seated {h : Handler} (hj : Seated h) (session : String) (name : Option String)
    (delivered : Bool) : Seated (h.register session name delivered).1 := by
  unfold Handler.register
  split
  · exact hj
  · next name =>
    dsimp only
    have hgrown : ∀ s u, h.usersBySessionId.lookup s = some u →
        (sessions h ++ [session])[u]? = some s := by
      intro s u hl
      have hold := hj s u hl
      have hlt : u < (sessions h).length := (List.getElem?_eq_some_iff.mp hold).1
      rw [List.getElem?_append_left hlt]
      exact hold
    have hnew : Seated ({ h with heap := h.heap ++ [⟨name, session, none, none, none, none, []⟩] } : Handler) := by
      intro s u hl
      simp only [sessionOf, sessions, List.map_append, List.map_cons, List.map_nil]
      exact hgrown s u hl
    split
    · exact seated_unmoved.sendMessage hnew _ _ _
    · split
      · exact seated_unmoved.sendMessage hnew _ _ _
      · refine seated_unmoved.sendMessage ?_ _ _ _
        intro s u hl
        have hl' : (h.usersBySessionId.insert session h.heap.length).lookup s = some u := hl
        rw [lookup_put] at hl'
        simp only [sessionOf, sessions, List.map_append, List.map_cons, List.map_nil]
        split at hl'
        · next he =>
          obtain rfl := Option.some.inj hl'
          rw [List.getElem?_append_right (by simp)]
          simp [he]
        · exact hgrown s u hl'

theorem step_seated {h : Handler} (e : Event) (hj : Seated h) : Seated (step h e) := by
  cases e with
  | register session name delivered stopDelivered =>
    exact seated_unmoved.handleErrorResponse (register_seated hj session name delivered) _ _ _
  | call session callee callerName sdpOffer delivered stopDelivered =>
    exact seated_unmoved.handleErrorResponse (seated_unmoved.call hj _ callee callerName sdpOffer delivered) _ _ _
  | incomingCallResponse session response callerName sdpOffer input =>
    exact seated_unmoved.incomingCallResponse hj _ response callerName sdpOffer input
  | onIceCandidate session candidate => exact seated_unmoved.onIceCandidate hj session candidate
  | stop session delivered => exact seated_unmoved.stop hj session delivered
  | closed session delivered =>
    refine andThen_invariant (I := Seated) _ _ (seated_unmoved.stop hj session delivered) ?_
    intro h' hj'
    show Seated (h'.removeBySession session)
    unfold Handler.removeBySession
    split
    · exact hj'
    · intro s u hl
      have hl' : (h'.usersBySessionId.erase session).lookup s = some u := hl
      exact hj' s u (lookup_remove_eq_some.mp hl').2

/-! ## Users and their names -/

/-- Who is found under a name has a session, for which `R` holds with the name. -/
def Listed (R : String → String → Prop) (h : Handler) : Prop :=
  ∀ name u, h.usersByName.lookup name = some u → ∃ z, sessionOf h u = some z ∧ R z name

section
variable {R : String → String → Prop}

theorem Listed.same {h h₁ : Handler} (hn : Listed R h) (hnames : h₁.usersByName = h.usersByName)
    (hs : sessions h₁ = sessions h) : Listed R h₁ := by
  intro name u hl
  rw [hnames] at hl
  unfold sessionOf
  rw [hs]
  exact hn name u hl

theorem listed_unmoved : Unmoved (Listed R) where
  toInert := .of (fun h u f hf hn => hn.same rfl (sessions_modify h u f hf)) (fun _ _ _ hn => hn)
    (fun _ _ hn => hn) fun _ _ hn => hn
  pipelines _ _ _ _ hn := hn

theorem register_listed {h : Handler} (hn : Listed R h) (session : String) (name : Option String)
    (hR : ∀ n ∈ name, R session n) (delivered : Bool) : Listed R (h.register session name delivered).1 := by
  unfold Handler.register
  split
  · exact hn
  · next name =>
    dsimp only
    have hgrown : ∀ n u, h.usersByName.lookup n = some u →
        ∃ z, (sessions h ++ [session])[u]? = some z ∧ R z n := by
      intro n u hl
      obtain ⟨z, hz, hname⟩ := hn n u hl
      refine ⟨z, ?_, hname⟩
      have hlt : u < (sessions h).length := (List.getElem?_eq_some_iff.mp hz).1
      rw [List.getElem?_append_left hlt]
      exact hz
    have hnew : Listed R ({ h with heap := h.heap ++ [⟨name, session, none, none, none, none, []⟩] } : Handler) := by
      intro n u hl
      simp only [sessionOf, sessions, List.map_append, List.map_cons, List.map_nil]
      exact hgrown n u hl
    split
    · exact listed_unmoved.sendMessage hnew _ _ _
    · split
      · exact listed_unmoved.sendMessage hnew _ _ _
      · refine listed_unmoved.sendMessage ?_ _ _ _
        intro n u hl
        have hl' : (h.usersByName.insert name h.heap.length).lookup n = some u := hl
        rw [lookup_put] at hl'
        simp only [sessionOf, sessions, List.map_append, List.map_cons, List.map_nil]
        split at hl'
        · next he =>
          obtain rfl := Option.some.inj hl'
          refine ⟨session, ?_, he ▸ hR name rfl⟩
          rw [List.getElem?_append_right (by simp)]
          simp
        · exact hgrown n u hl'

theorem closed_listed {h : Handler} (hn : Listed R h) (session : String) (delivered : Bool) :
    Listed R (step h (.closed session delivered)) := by
  refine andThen_invariant (I := Listed R) _ _ (listed_unmoved.stop hn session delivered) ?_
  intro h₁ hn₁
  show Listed R (h₁.removeBySession session)
  unfold Handler.removeBySession
  split
  · exact hn₁
  · intro name u hl
    exact hn₁ name u (lookup_remove_eq_some.mp hl).2

end

def callingFrom (h : Handler) (u : UserRef) : Option String := (h.heap[u]?).bind UserSession.callingFrom

def callingTo (h : Handler) (u : UserRef) : Option String := (h.heap[u]?).bind UserSession.callingTo

/-- The fields of every user are as before. -/
def SameNames (h h' : Handler) : Prop :=
  ∀ u, callingFrom h' u = callingFrom h u ∧ callingTo h' u = callingTo h u

/-- What has happened so far is what the fields of the users say. -/
structure Noted (h : Handler) (callers callees : Table UserRef String) : Prop where
  callers : ∀ u, callingFrom h u = callers.lookup u
  callees : ∀ u, callingTo h u = callees.lookup u

section
variable {h h₁ : Handler} {callers callees : Table UserRef String}

theorem Noted.same (hn : Noted h callers callees) (hs : SameNames h h₁) : Noted h₁ callers callees :=
  ⟨fun u => (hs u).1.trans (hn.callers u), fun u => (hs u).2.trans (hn.callees u)⟩

end

/-- What every run keeps. -/
structure Kept (w : World) : Prop where
  seated : Seated w.handler
  listed : Listed (fun _ _ => True) w.handler
  noted : Noted w.handler w.callers w.callees

theorem init_kept : Kept .init where
  seated _ _ hl := by cases hl
  listed _ _ hl := by cases hl
  noted := ⟨fun _ => rfl, fun _ => rfl⟩

/-! ## The users that a step affects -/

end OneToOneCalls

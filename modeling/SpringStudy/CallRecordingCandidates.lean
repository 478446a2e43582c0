import SpringStudy.CallRecording

/-!
# Candidates of calls and playbacks

One list of candidates serves the calls of a user, and a candidate enters it
whenever the user has no call, also during a playback. A run delivers every
candidate once at most, and those of a playback to no call, exactly if no
candidate finds both endpoints, and no call finds in the list what a playback
or an interrupted call left there.
-/
namespace CallRecording

open Tables Outcomes Runs

namespace Handler

/-- The candidate came in during a playback, with no call. -/
def Playback (h : Handler) (n : Nat) : Prop :=
  ∃ r ∈ h.received[n]?, r.webRtcEndpoint = none ∧ r.playingWebRtcEndpoint.isSome

instance decidablePlayback (h : Handler) (n : Nat) : Decidable (h.Playback n) :=
  inferInstanceAs (Decidable (∃ r ∈ h.received[n]?, r.webRtcEndpoint = none ∧ r.playingWebRtcEndpoint.isSome))

end Handler

def Endpoint.isCall : Endpoint → Bool
  | .call _ => true
  | .play _ => false

/-- No candidate was delivered twice, and none of a playback to a call. -/
def Separate (h : Handler) : Prop :=
  (h.delivered.map Prod.snd).Nodup ∧ ∀ p ∈ h.delivered, p.1.isCall → ¬ h.Playback p.2

instance decidableSeparate (h : Handler) : Decidable (Separate h) :=
  inferInstanceAs (Decidable
    ((h.delivered.map Prod.snd).Nodup ∧ ∀ p ∈ h.delivered, p.1.isCall → ¬ h.Playback p.2))

section
variable (kurento : Kurento)

/-- What the call takes from the list of the user was not delivered before, nor is it of a playback. -/
def Fresh (h : Handler) (u : UserRef) (e : CallEndpoint) : Prop :=
  ∀ n ∈ (h.listed u).takeWhile (kurento.takes (.call e)), n ∉ h.delivered.map Prod.snd ∧ ¬ h.Playback n

/-- The endpoint of the callee takes the whole list of the callee and its offer, and nothing throws
until its candidates are gathered. -/
def Connects (h : Handler) (callee : UserRef) (pipeline : Nat) (sdpOffer : Option String)
    (throws : Option Stage) : Prop :=
  (∀ n ∈ h.listed callee, kurento.takes (.call ⟨pipeline, .callee⟩) n) ∧
    (∃ sdp ∈ sdpOffer, (kurento.processOffer (.call ⟨pipeline, .callee⟩) (some sdp)).isSome) ∧
    throws ≠ some .startCommunication ∧ throws ≠ some .calleeCandidates

/-- The list of the callee is fresh, and so is that of another caller if its turn comes. -/
def AcceptsFresh (h : Handler) (calleer callee : UserRef) (sdpOffer : Option String)
    (throws : Option Stage) : Prop :=
  Fresh kurento h callee ⟨h.built, .callee⟩ ∧
    (Connects kurento h callee h.built sdpOffer throws → calleer ≠ callee →
      Fresh kurento h calleer ⟨h.built, .caller⟩)

/-- No candidate goes to a call and a playback at once, and accepted calls find fresh lists. -/
def SeparateStep (h : Handler) : Event → Prop
  | .onIceCandidate session (some _) =>
    ∀ p ∈ (h.usersBySessionId.lookup session).bind h.withUser,
      ∀ e ∈ p.2.webRtcEndpoint, ∀ e' ∈ p.2.playingWebRtcEndpoint,
        ¬ (kurento.takes (.call e) h.received.length ∧ kurento.takes (.play e') h.received.length)
  | .incomingCallResponse session response callerName sdpOffer throws _ =>
    response = some "accept" → throws ≠ some .pipeline →
      ∀ calleer ∈ (callerName.bind h.usersByName.lookup).bind h.withUser,
        ∀ callee ∈ (h.usersBySessionId.lookup session).bind h.withUser,
          AcceptsFresh kurento h calleer.1 callee.1 sdpOffer throws
  | _ => True

end

/-- Only candidates that came in are listed or delivered, and each is listed once, for one user. -/
structure Kept (h : Handler) : Prop where
  delivered_lt : ∀ p ∈ h.delivered, p.2 < h.received.length
  listed_lt : ∀ u, ∀ n ∈ h.listed u, n < h.received.length
  listed_nodup : ∀ u, (h.listed u).Nodup
  listed_own : ∀ u v n, n ∈ h.listed u → n ∈ h.listed v → u = v

/-! ## Steps that deliver nothing -/

/-- The list of a user stays, or is cleared. -/
def Shrunk (x y : UserSession) : Prop := y.candidateList = x.candidateList ∨ y.candidateList = []

/-- Nothing came in or was delivered, and lists were cleared at most. -/
structure Shrinks (h h' : Handler) : Prop where
  received : h'.received = h.received
  delivered : h'.delivered = h.delivered
  listed : ∀ u, h'.listed u = h.listed u ∨ h'.listed u = []

theorem listed_modify_ne (h : Handler) (u v : UserRef) (f : UserSession → UserSession) (hv : u ≠ v) :
    (h.modify u f).listed v = h.listed v := by
  simp [Handler.listed, Handler.modify, hv]

theorem listed_modify_self (h : Handler) (u : UserRef) (f : UserSession → UserSession) :
    (h.modify u f).listed u = ((h.heap[u]?).map fun user => (f user).candidateList).getD [] := by
  simp [Handler.listed, Handler.modify, Function.comp_def]

namespace Shrinks

variable {h h' : Handler}

theorem refl (h : Handler) : Shrinks h h := ⟨rfl, rfl, fun _ => .inl rfl⟩

theorem separate_iff (hs : Shrinks h h') : Separate h' ↔ Separate h := by
  simp only [Separate, Handler.Playback, hs.received, hs.delivered]

theorem kept (hs : Shrinks h h') (hk : Kept h) : Kept h' where
  delivered_lt := by
    rw [hs.received, hs.delivered]
    exact hk.delivered_lt
  listed_lt u := by
    rw [hs.received]
    rcases hs.listed u with hu | hu
    · rw [hu]
      exact hk.listed_lt u
    · simp [hu]
  listed_nodup u := by
    rcases hs.listed u with hu | hu
    · rw [hu]
      exact hk.listed_nodup u
    · simp [hu]
  listed_own u v n hu hv := by
    have hold : ∀ w, n ∈ h'.listed w → n ∈ h.listed w := by
      intro w hw
      rcases hs.listed w with hsame | hclear
      · exact hsame ▸ hw
      · rw [hclear] at hw
        cases hw
    exact hk.listed_own u v n (hold u hu) (hold v hv)

end Shrinks

theorem shrinks_inert (h : Handler) : Inert Shrunk (Shrinks h) where
  modify h' u f hf hs := by
    refine ⟨hs.received, hs.delivered, fun v => ?_⟩
    by_cases hv : u = v
    · subst hv
      rw [listed_modify_self]
      have hu := hs.listed u
      simp only [Handler.listed] at hu ⊢
      cases hx : h'.heap[u]? with
      | none => exact .inr rfl
      | some user =>
        rw [hx] at hu
        rcases hf user with hsame | hclear
        · simpa [hsame] using hu
        · exact .inr hclear
    · rw [listed_modify_ne h' u v f hv]
      exact hs.listed v
  send h' receiver message hs := ⟨hs.received, hs.delivered, hs.listed⟩

theorem register_shrinks (h : Handler) (session : String) (name : Option String) (delivered : Bool) :
    Shrinks h (h.register session name delivered).1 := by
  unfold Handler.register
  split
  · exact .refl h
  · split
    · exact (shrinks_inert h).sendMessage (.refl h) _ _ _
    · split
      · exact (shrinks_inert h).sendMessage (.refl h) _ _ _
      · refine Inert.sendMessage (shrinks_inert h) ?_ _ _ _
        refine ⟨rfl, rfl, fun u => ?_⟩
        -- the new user has an empty list
        simp only [Handler.listed, List.getElem?_append]
        split
        · exact .inl rfl
        · right
          cases u - h.heap.length <;> rfl

theorem dropPipeline_shrinks {h h' : Handler} (hs : Shrinks h h') (session : String) :
    Shrinks h (h'.dropPipeline session) := by
  unfold Handler.dropPipeline
  split
  · exact hs
  · exact ⟨hs.received, hs.delivered, hs.listed⟩

theorem releasePipeline_shrinks {h h' : Handler} (hs : Shrinks h h') (user : Option UserRef) :
    Shrinks h (h'.releasePipeline user).1 := by
  refine (shrinks_inert h).releasePipeline ?_ user hs fun _ _ => dropPipeline_shrinks hs _
  exact fun _ => .inl rfl

theorem playRecording_shrinks (kurento : Kurento) (h : Handler) (u : UserRef) (session : String)
    (sdpOffer : Option String) (throws : Option Stage) :
    Shrinks h (h.playRecording kurento u session sdpOffer throws).1 := by
  refine andThen_invariant _ _ (.refl h) fun h' hs => ?_
  have hset := (shrinks_inert h).modify { h' with built := h'.built + 1 } u
    (fun user => { user with playingWebRtcEndpoint := some ⟨h'.built⟩ }) (fun _ => .inl rfl)
    ⟨hs.received, hs.delivered, hs.listed⟩
  dsimp only
  split
  · exact hset
  · split
    · exact hset
    · refine andThen_invariant _ _ hset fun h'' hs => ?_
      refine andThen_invariant _ _ ⟨hs.received, hs.delivered, hs.listed⟩ fun started hs => ?_
      exact (shrinks_inert h).send started _ _ hs

theorem play_shrinks (kurento : Kurento) (h : Handler) (player : Option UserRef)
    (userName sdpOffer : Option String) (throws : Option Stage) (delivered : Bool) :
    Shrinks h (h.play kurento player userName sdpOffer throws delivered).1 := by
  unfold Handler.play
  split
  · split
    · exact playRecording_shrinks kurento h _ _ sdpOffer throws
    · exact (shrinks_inert h).sendMessage (.refl h) _ _ _
  · exact .refl h

theorem sendPlayEnd_shrinks {h h' : Handler} (hs : Shrinks h h') (session : String) (pipeline : Nat)
    (delivered : Bool) : Shrinks h (h'.sendPlayEnd session pipeline delivered) := by
  have hsent := (shrinks_inert h).sendMessage hs (.session session) .playEnd delivered
  exact ⟨hsent.received, hsent.delivered, hsent.listed⟩

theorem endOfStream_shrinks (h : Handler) (pipeline : Nat) (delivered : Bool) :
    Shrinks h (h.endOfStream pipeline delivered).1 := by
  unfold Handler.endOfStream
  split
  · exact .refl h
  · next session _ =>
    split
    · exact .refl h
    · refine andThen_invariant _ _ (releasePipeline_shrinks ?_ _) fun h' hs => ?_
      · exact ⟨rfl, rfl, fun _ => .inl rfl⟩
      exact sendPlayEnd_shrinks hs session pipeline delivered

theorem playerError_shrinks (h : Handler) (pipeline : Nat) (delivered : Bool) :
    Shrinks h (h.playerError pipeline delivered) := by
  unfold Handler.playerError
  split
  · exact .refl h
  · split
    · exact .refl h
    · exact sendPlayEnd_shrinks (.refl h) _ pipeline delivered

/-! ## Setting the endpoint of a call -/

section
variable (kurento : Kurento)

/-- The list of the user goes to the endpoint, up to the first candidate that is not taken. -/
def flush (h : Handler) (u : UserRef) (e : CallEndpoint) : Handler :=
  { h with delivered := h.delivered ++
      ((h.listed u).takeWhile (kurento.takes (.call e))).map fun n => (.call e, n) }

theorem addIceCandidate_taken (h : Handler) (e : Endpoint) (n : Nat) (ht : kurento.takes e n = true) :
    h.addIceCandidate kurento e n = ({ h with delivered := h.delivered ++ [(e, n)] }, none) :=
  if_pos ht

theorem addIceCandidate_refused (h : Handler) (e : Endpoint) (n : Nat) (ht : kurento.takes e n = false) :
    h.addIceCandidate kurento e n = (h, some .kurento) := by
  simp [Handler.addIceCandidate, ht]

theorem forAll_addIceCandidate (h : Handler) (e : Endpoint) (ns : List Nat) :
    (forAll (fun h n => h.addIceCandidate kurento e n) h ns).1 =
      { h with delivered := h.delivered ++ (ns.takeWhile (kurento.takes e)).map fun n => (e, n) } := by
  induction ns generalizing h with
  | nil => simp [forAll]
  | cons n ns ih =>
    rw [forAll]
    cases ht : kurento.takes e n with
    | true =>
      rw [addIceCandidate_taken kurento h e n ht, andThen_ok, ih]
      simp [ht]
    | false =>
      rw [addIceCandidate_refused kurento h e n ht]
      simp [ht]

theorem forAll_addIceCandidate_heap (h : Handler) (e : Endpoint) (ns : List Nat) :
    (forAll (fun h n => h.addIceCandidate kurento e n) h ns).1.heap = h.heap ∧
      ((forAll (fun h n => h.addIceCandidate kurento e n) h ns).2 = none ↔ ∀ n ∈ ns, kurento.takes e n = true) := by
  refine forAll_view (I := fun _ => True) _ Handler.heap _ (fun h n _ => ⟨trivial, ?_⟩) h ns trivial
  cases ht : kurento.takes e n with
  | true => simp [addIceCandidate_taken kurento h e n ht]
  | false => simp [addIceCandidate_refused kurento h e n ht]

theorem setWebRtcEndpoint_shrinks (h : Handler) (u : UserRef) (e : CallEndpoint) :
    Shrinks (flush kurento h u e) (h.setWebRtcEndpoint kurento u e).1 := by
  refine andThen_invariant _ _ ?_ fun h' hs => ?_
  · rw [forAll_addIceCandidate]
    exact (shrinks_inert _).modify (flush kurento h u e) u
      (fun user => { user with webRtcEndpoint := some e }) (fun _ => .inl rfl) (.refl _)
  · exact (shrinks_inert _).modify h' u _ (fun _ => .inr rfl) hs

theorem flush_kept {h : Handler} (hk : Kept h) (u : UserRef) (e : CallEndpoint) :
    Kept (flush kurento h u e) where
  delivered_lt := by
    intro p hp
    rcases List.mem_append.mp hp with hold | hnew
    · exact hk.delivered_lt p hold
    · obtain ⟨n, hn, rfl⟩ := List.mem_map.mp hnew
      exact hk.listed_lt u n ((List.takeWhile_sublist _).mem hn)
  listed_lt := hk.listed_lt
  listed_nodup := hk.listed_nodup
  listed_own := hk.listed_own

theorem flush_separate_iff {h : Handler} (hk : Kept h) (hg : Separate h) (u : UserRef) (e : CallEndpoint) :
    Separate (flush kurento h u e) ↔ Fresh kurento h u e := by
  have hmap : (flush kurento h u e).delivered.map Prod.snd =
      h.delivered.map Prod.snd ++ (h.listed u).takeWhile (kurento.takes (.call e)) := by
    simp [flush, Function.comp_def]
  have htaken := (List.takeWhile_sublist (kurento.takes (.call e))).nodup (hk.listed_nodup u)
  constructor
  · rintro ⟨hnodup, hcall⟩ n hn
    rw [hmap] at hnodup
    constructor
    · exact fun hold => (List.nodup_append.mp hnodup).2.2 n hold n hn rfl
    · exact hcall (.call e, n) (List.mem_append_right _ (List.mem_map.mpr ⟨n, hn, rfl⟩)) rfl
  · intro hf
    constructor
    · rw [hmap]
      refine List.nodup_append.mpr ⟨hg.1, htaken, ?_⟩
      rintro n hold _ hn rfl
      exact (hf n hn).1 hold
    · intro p hp hcall
      rcases List.mem_append.mp hp with hold | hnew
      · exact hg.2 p hold hcall
      · obtain ⟨n, hn, rfl⟩ := List.mem_map.mp hnew
        exact (hf n hn).2

/-- A delivery that breaks the separation is never undone. -/
theorem separate_of_flush {h : Handler} (u : UserRef) (e : CallEndpoint)
    (hg : Separate (flush kurento h u e)) : Separate h := by
  constructor
  · refine hg.1.sublist (List.Sublist.map _ ?_)
    exact List.sublist_append_left _ _
  · exact fun p hp => hg.2 p (List.mem_append_left _ hp)

theorem connectCallee_shrinks (h : Handler) (callee : UserRef) (pipeline : Nat) (sdpOffer : Option String)
    (throws : Option Stage) :
    Shrinks (flush kurento h callee ⟨pipeline, .callee⟩)
      (h.connectCallee kurento callee pipeline sdpOffer throws).1 :=
  (shrinks_inert _).connectCallee kurento callee pipeline sdpOffer throws
    (setWebRtcEndpoint_shrinks kurento h callee _)

theorem connectCaller_shrinks (h : Handler) (calleer : UserRef) (pipeline : Nat) (throws : Option Stage) :
    Shrinks (flush kurento h calleer ⟨pipeline, .caller⟩)
      (h.connectCaller kurento calleer pipeline throws).1 :=
  (shrinks_inert _).connectCaller kurento calleer pipeline throws
    (setWebRtcEndpoint_shrinks kurento h calleer _)

theorem setWebRtcEndpoint_ok_iff (h : Handler) (u : UserRef) (e : CallEndpoint) :
    (h.setWebRtcEndpoint kurento u e).2 = none ↔ ∀ n ∈ h.listed u, kurento.takes (.call e) n := by
  rw [Handler.setWebRtcEndpoint, andThen_ok_iff, (forAll_addIceCandidate_heap kurento _ _ _).2]
  exact and_iff_left rfl

theorem answer_ok_iff (h : Handler) (u : UserRef) (e : CallEndpoint) (sdpOffer : Option String)
    (message : String → Message) (stage : Stage) (throws : Option Stage) :
    (h.answer kurento u e sdpOffer message stage throws).2 = none ↔
      (kurento.processOffer (.call e) sdpOffer).isSome ∧ throws ≠ some stage := by
  unfold Handler.answer
  cases kurento.processOffer (.call e) sdpOffer with
  | none => simp
  | some sdpAnswer => simp [andThen_ok_iff, Handler.reach]

theorem connectCallee_ok_iff (h : Handler) (callee : UserRef) (pipeline : Nat) (sdpOffer : Option String)
    (throws : Option Stage) :
    (h.connectCallee kurento callee pipeline sdpOffer throws).2 = none ↔
      Connects kurento h callee pipeline sdpOffer throws := by
  unfold Handler.connectCallee Connects
  rw [andThen_ok_iff, setWebRtcEndpoint_ok_iff]
  cases sdpOffer with
  | none => simp
  | some sdp =>
    simp only [andThen_ok_iff, answer_ok_iff, Handler.reach, Option.mem_some_iff, exists_eq_left', and_assoc]
    simp

/-- A list that was given to the endpoint is empty, and those of the others are as before. -/
theorem setWebRtcEndpoint_listed (h : Handler) (u : UserRef) (e : CallEndpoint)
    (hok : (h.setWebRtcEndpoint kurento u e).2 = none) (v : UserRef) :
    (h.setWebRtcEndpoint kurento u e).1.listed v = if v = u then [] else h.listed v := by
  obtain ⟨hheap, -⟩ := forAll_addIceCandidate_heap kurento (h.modify u fun user => { user with webRtcEndpoint := some e })
    (.call e) (h.listed u)
  rw [Handler.setWebRtcEndpoint] at hok ⊢
  obtain ⟨htaken, -⟩ := (andThen_ok_iff _ _).mp hok
  generalize forAll _ _ _ = q at *
  obtain ⟨h', failure⟩ := q
  obtain rfl : failure = none := htaken
  rw [andThen_ok]
  split
  · next hv =>
    subst hv
    rw [listed_modify_self]
    cases h'.heap[v]? <;> rfl
  · next hv =>
    rw [listed_modify_ne _ _ _ _ (Ne.symm hv), Handler.listed, hheap]
    exact listed_modify_ne h u v _ (Ne.symm hv)

theorem listed_inert (v : UserRef) (listed : List Nat) :
    Inert (fun x y => y.candidateList = x.candidateList) fun h => h.listed v = listed where
  modify h u f hf hp := by
    by_cases hv : u = v
    · subst hv
      rw [listed_modify_self, ← hp]
      simp only [hf]
      rfl
    · rw [listed_modify_ne h u v f hv]
      exact hp
  send _ _ _ hp := hp

theorem connectCallee_listed (h : Handler) (callee : UserRef) (pipeline : Nat) (sdpOffer : Option String)
    (throws : Option Stage) (hok : Connects kurento h callee pipeline sdpOffer throws) (v : UserRef) :
    (h.connectCallee kurento callee pipeline sdpOffer throws).1.listed v = if v = callee then [] else h.listed v := by
  refine (listed_inert v _).connectCallee kurento callee pipeline sdpOffer throws ?_
  exact setWebRtcEndpoint_listed kurento h callee _ ((setWebRtcEndpoint_ok_iff kurento h callee _).mpr hok.1) v

/-- The caller's turn comes with its own list, unless it has called itself. -/
theorem connectCallee_fresh_iff {h : Handler} (hk : Kept h) (calleer callee : UserRef) (pipeline : Nat)
    (sdpOffer : Option String) (throws : Option Stage) (hok : Connects kurento h callee pipeline sdpOffer throws)
    (e : CallEndpoint) :
    Fresh kurento (h.connectCallee kurento callee pipeline sdpOffer throws).1 calleer e ↔
      (calleer ≠ callee → Fresh kurento h calleer e) := by
  have hs := connectCallee_shrinks kurento h callee pipeline sdpOffer throws
  have hlisted := connectCallee_listed kurento h callee pipeline sdpOffer throws hok calleer
  unfold Fresh
  rw [hlisted]
  by_cases hself : calleer = callee
  · simp [hself]
  · simp only [hself, if_false, ne_eq, not_false_eq_true, true_imp_iff, Handler.Playback, hs.received, hs.delivered]
    refine forall₂_congr fun n hn => and_congr_left fun _ => ?_
    -- what the callee has just got is not listed for the caller
    have hother : n ∉ h.listed callee := fun hcallee =>
      hself (hk.listed_own calleer callee n ((List.takeWhile_sublist _).mem hn) hcallee)
    have htaken : n ∉ (h.listed callee).takeWhile (kurento.takes (.call ⟨pipeline, .callee⟩)) :=
      fun hmem => hother ((List.takeWhile_sublist _).mem hmem)
    simp [flush, htaken]

/-- Both endpoints of an accepted call. -/
theorem connect_separate {h : Handler} (hk : Kept h) (hg : Separate h) (calleer callee : UserRef × UserSession)
    (sdpOffer : Option String) (throws : Option Stage) :
    let connected := andThen
      ((h.enter calleer.2 callee.2).connectCallee kurento callee.1 h.built sdpOffer throws)
      fun h' => h'.connectCaller kurento calleer.1 h.built throws
    Kept connected.1 ∧ (Separate connected.1 ↔ AcceptsFresh kurento h calleer.1 callee.1 sdpOffer throws) := by
  have hentered : Shrinks h (h.enter calleer.2 callee.2) := ⟨rfl, rfl, fun _ => .inl rfl⟩
  have hke := hentered.kept hk
  have hge := hentered.separate_iff.mpr hg
  have hs := connectCallee_shrinks kurento (h.enter calleer.2 callee.2) callee.1 h.built sdpOffer throws
  have hfresh := flush_separate_iff kurento hke hge callee.1 ⟨h.built, .callee⟩
  have hk₁ := hs.kept (flush_kept kurento hke callee.1 ⟨h.built, .callee⟩)
  have hg₁ := hs.separate_iff.trans hfresh
  have hok := connectCallee_ok_iff kurento (h.enter calleer.2 callee.2) callee.1 h.built sdpOffer throws
  have hcaller := connectCallee_fresh_iff kurento hke calleer.1 callee.1 h.built sdpOffer throws
  unfold AcceptsFresh
  dsimp only
  generalize (h.enter calleer.2 callee.2).connectCallee kurento callee.1 h.built sdpOffer throws = q at *
  obtain ⟨h₁, failure⟩ := q
  cases failure with
  | some failure =>
    refine ⟨hk₁, hg₁.trans ⟨fun hf => ⟨hf, fun hconnects => ?_⟩, fun hf => hf.1⟩⟩
    cases hok.mpr hconnects
  | none =>
    have hs₂ := connectCaller_shrinks kurento h₁ calleer.1 h.built throws
    refine ⟨hs₂.kept (flush_kept kurento hk₁ _ _), ?_⟩
    rw [andThen_ok, hs₂.separate_iff]
    constructor
    · intro hg₂
      have hmid := separate_of_flush kurento calleer.1 _ hg₂
      exact ⟨hg₁.mp hmid, fun hconnects =>
        (hcaller hconnects _).mp ((flush_separate_iff kurento hk₁ hmid _ _).mp hg₂)⟩
    · rintro ⟨hcallee, hturn⟩
      have hconnects := hok.mp rfl
      exact (flush_separate_iff kurento hk₁ (hg₁.mpr hcallee) _ _).mpr
        ((hcaller hconnects _).mpr (hturn hconnects))

theorem incomingCallResponse_separate {h : Handler} (hk : Kept h) (hg : Separate h) (session : String)
    (response callerName sdpOffer : Option String) (throws : Option Stage) (delivered : Bool) :
    let event := Event.incomingCallResponse session response callerName sdpOffer throws delivered
    Kept (step kurento h event) ∧ (Separate (step kurento h event) ↔ SeparateStep kurento h event) := by
  simp only [step, handle, Handler.incomingCallResponse, SeparateStep]
  cases response with
  | none => exact ⟨hk, iff_of_true hg (by simp)⟩
  | some response =>
    cases hcalleer : (callerName.bind h.usersByName.lookup).bind h.withUser with
    | none => exact ⟨hk, iff_of_true hg (by simp)⟩
    | some calleer =>
      by_cases hresponse : response = "accept"
      · simp only [hresponse, if_true, Handler.accept, Handler.reach]
        by_cases hthrows : throws = some .pipeline
        · simp only [hthrows, if_true, andThen_failed]
          exact ⟨hk, iff_of_true hg (by simp)⟩
        · simp only [hthrows, if_false, andThen_ok]
          cases hcallee : (h.usersBySessionId.lookup session).bind h.withUser with
          | none =>
            have hs : Shrinks h { h with
                built := h.built + 1, pipelines := h.pipelines.insert calleer.2.session h.built } :=
              ⟨rfl, rfl, fun _ => .inl rfl⟩
            exact ⟨hs.kept hk, iff_of_true (hs.separate_iff.mpr hg) (by simp)⟩
          | some callee => simpa [hthrows] using connect_separate kurento hk hg calleer callee sdpOffer throws
      · have hs := (shrinks_inert h).sendMessage (.refl h) (.user calleer.1) (.callResponse "rejected" none none)
          delivered
        simp only [hresponse, if_false]
        exact ⟨hs.kept hk, iff_of_true (hs.separate_iff.mpr hg) (by simp [hresponse])⟩

/-! ## A candidate comes in -/

/-- The candidate comes in with the endpoints of its user. -/
def arrive (h : Handler) (r : Received) : Handler := { h with received := h.received ++ [r] }

theorem playback_arrive_lt (h : Handler) (r : Received) (n : Nat) (hn : n < h.received.length) :
    (arrive h r).Playback n ↔ h.Playback n := by
  simp only [Handler.Playback, arrive, List.getElem?_append_left hn]

theorem playback_arrive_self (h : Handler) (r : Received) :
    (arrive h r).Playback h.received.length ↔ r.webRtcEndpoint = none ∧ r.playingWebRtcEndpoint.isSome := by
  simp [Handler.Playback, arrive]

theorem arrive_kept {h : Handler} (hk : Kept h) (r : Received) : Kept (arrive h r) where
  delivered_lt p hp := by
    have hlt := hk.delivered_lt p hp
    simp only [arrive, List.length_append, List.length_singleton]
    omega
  listed_lt u n hn := by
    have hlt := hk.listed_lt u n hn
    simp only [arrive, List.length_append, List.length_singleton]
    omega
  listed_nodup := hk.listed_nodup
  listed_own := hk.listed_own

theorem arrive_separate {h : Handler} (hk : Kept h) (hg : Separate h) (r : Received) : Separate (arrive h r) := by
  refine ⟨hg.1, fun p hp hcall => ?_⟩
  rw [playback_arrive_lt h r p.2 (hk.delivered_lt p hp)]
  exact hg.2 p hp hcall

/-- The number of the next candidate is new. -/
theorem next_not_delivered {h : Handler} (hk : Kept h) : h.received.length ∉ h.delivered.map Prod.snd := by
  intro hn
  obtain ⟨p, hp, hlen⟩ := List.mem_map.mp hn
  have hlt := hk.delivered_lt p hp
  omega

theorem listed_append (h : Handler) (u v : UserRef) (n : Nat) :
    let h' := h.modify u fun user => { user with candidateList := user.candidateList ++ [n] }
    h'.listed v = h.listed v ∨ v = u ∧ h'.listed v = h.listed v ++ [n] := by
  by_cases hv : u = v
  · subst hv
    dsimp only
    rw [listed_modify_self, Handler.listed]
    cases h.heap[u]? with
    | none => exact .inl rfl
    | some user => exact .inr ⟨rfl, rfl⟩
  · exact .inl (listed_modify_ne h u v _ hv)

/-- The list of the user takes a candidate that just came in. -/
theorem append_kept {h : Handler} (hk : Kept h) (r : Received) (u : UserRef) :
    Kept ((arrive h r).modify u fun user =>
      { user with candidateList := user.candidateList ++ [h.received.length] }) := by
  have ha := arrive_kept hk r
  have hself := fun v => listed_append (arrive h r) u v h.received.length
  -- what a list has now it had before, or it is the new candidate and the list that of the user
  have hmem : ∀ v n, n ∈ ((arrive h r).modify u fun user =>
      { user with candidateList := user.candidateList ++ [h.received.length] }).listed v →
      n ∈ h.listed v ∨ n = h.received.length ∧ v = u := by
    intro v n hn
    rcases hself v with hv | ⟨huser, hv⟩
    · exact .inl (hv ▸ hn)
    · rw [hv] at hn
      exact (List.mem_append.mp hn).imp id fun hnew => ⟨List.mem_singleton.mp hnew, huser⟩
  refine ⟨ha.delivered_lt, fun v n hn => ?_, fun v => ?_, fun v w n hv hw => ?_⟩
  · rcases hmem v n hn with hold | ⟨rfl, -⟩
    · exact ha.listed_lt v n hold
    · simp [arrive, Handler.modify]
  · rcases hself v with hv | ⟨-, hv⟩
    · rw [hv]
      exact hk.listed_nodup v
    · rw [hv]
      refine List.nodup_append.mpr ⟨hk.listed_nodup v, List.nodup_singleton _, ?_⟩
      intro n hn m hm
      obtain rfl := List.mem_singleton.mp hm
      exact Nat.ne_of_lt (hk.listed_lt v n hn)
  · have hnew : ∀ x, h.received.length ∉ h.listed x := fun x hx => Nat.lt_irrefl _ (hk.listed_lt x _ hx)
    rcases hmem v n hv with hold | ⟨rfl, hvu⟩
    · rcases hmem w n hw with hold' | ⟨rfl, -⟩
      · exact hk.listed_own v w n hold hold'
      · exact absurd hold (hnew v)
    · rcases hmem w _ hw with hold | ⟨-, hwu⟩
      · exact absurd hold (hnew w)
      · exact hvu.trans hwu.symm

theorem addIceCandidate_kept {h : Handler} (hk : Kept h) (e : Endpoint) (n : Nat) (hn : n < h.received.length) :
    Kept (h.addIceCandidate kurento e n).1 := by
  unfold Handler.addIceCandidate
  split
  · refine ⟨fun p hp => ?_, hk.listed_lt, hk.listed_nodup, hk.listed_own⟩
    rcases List.mem_append.mp hp with hold | hnew
    · exact hk.delivered_lt p hold
    · obtain rfl := List.mem_singleton.mp hnew
      exact hn
  · exact hk

theorem addIceCandidate_separate_iff {h : Handler} (hg : Separate h) (e : Endpoint) (n : Nat)
    (hcall : e.isCall → ¬ h.Playback n) :
    Separate (h.addIceCandidate kurento e n).1 ↔ (kurento.takes e n → n ∉ h.delivered.map Prod.snd) := by
  cases ht : kurento.takes e n with
  | false =>
    rw [addIceCandidate_refused kurento h e n ht]
    simpa using hg
  | true =>
    rw [addIceCandidate_taken kurento h e n ht]
    constructor
    · rintro ⟨hnodup, -⟩ - hold
      rw [List.map_append] at hnodup
      exact (List.nodup_append.mp hnodup).2.2 n hold n (List.mem_singleton.mpr rfl) rfl
    · intro hnew
      refine ⟨?_, fun p hp => ?_⟩
      · rw [List.map_append]
        refine List.nodup_append.mpr ⟨hg.1, List.nodup_singleton _, ?_⟩
        rintro m hm _ hn rfl
        obtain rfl := List.mem_singleton.mp hn
        exact hnew rfl hm
      · rcases List.mem_append.mp hp with hold | hlast
        · exact hg.2 p hold
        · obtain rfl := List.mem_singleton.mp hlast
          exact hcall

/-- Only a candidate that a call and a playback both take is delivered twice. -/
theorem addCandidate_separate {h : Handler} (hk : Kept h) (hg : Separate h) (u : UserRef) (user : UserSession)
    (candidate : IceCandidate) :
    Kept (h.addCandidate kurento u user candidate).1 ∧
      (Separate (h.addCandidate kurento u user candidate).1 ↔
        ∀ e ∈ user.webRtcEndpoint, ∀ e' ∈ user.playingWebRtcEndpoint,
          ¬ (kurento.takes (.call e) h.received.length ∧ kurento.takes (.play e') h.received.length)) := by
  obtain ⟨name, session, offer, callingTo, callingFrom, webRtc, playing, list⟩ := user
  have hk₁ := arrive_kept hk ⟨candidate, webRtc, playing⟩
  have hg₁ := arrive_separate hk hg ⟨candidate, webRtc, playing⟩
  have hnew : h.received.length ∉ (arrive h ⟨candidate, webRtc, playing⟩).delivered.map Prod.snd :=
    next_not_delivered hk
  have hlt : h.received.length < (arrive h ⟨candidate, webRtc, playing⟩).received.length := by
    simp [arrive]
  cases webRtc with
  | none =>
    -- the candidate is listed, and the playback is the only one to take it
    have hk₂ := append_kept hk ⟨candidate, none, playing⟩ u
    cases playing with
    | none => exact ⟨hk₂, iff_of_true hg₁ (by simp)⟩
    | some e' =>
      refine ⟨addIceCandidate_kept kurento hk₂ (.play e') _ hlt, iff_of_true ?_ (by simp)⟩
      refine (addIceCandidate_separate_iff kurento ?_ (.play e') _ (by simp [Endpoint.isCall])).mpr fun _ => hnew
      exact hg₁
  | some e =>
    have hcall : ¬ (arrive h ⟨candidate, some e, playing⟩).Playback h.received.length := by
      simp [playback_arrive_self]
    have hk₂ := addIceCandidate_kept kurento hk₁ (.call e) _ hlt
    have hg₂ := (addIceCandidate_separate_iff kurento hg₁ (.call e) _ fun _ => hcall).mpr fun _ => hnew
    cases ht : kurento.takes (.call e) h.received.length with
    | false =>
      simp only [Handler.addCandidate, addIceCandidate_refused kurento _ _ _ ht, andThen_failed]
      exact ⟨hk₁, iff_of_true hg₁ (by simp [ht])⟩
    | true =>
      rw [addIceCandidate_taken kurento _ _ _ ht] at hk₂ hg₂
      simp only [Handler.addCandidate, addIceCandidate_taken kurento _ _ _ ht, andThen_ok]
      cases playing with
      | none => exact ⟨hk₂, iff_of_true hg₂ (by simp)⟩
      | some e' =>
        refine ⟨addIceCandidate_kept kurento hk₂ (.play e') _ hlt, ?_⟩
        have hboth := addIceCandidate_separate_iff kurento hg₂ (.play e') h.received.length
          (by simp [Endpoint.isCall])
        refine hboth.trans ?_
        simp [ht]

/-! ## Whole runs -/

theorem step_separate {h : Handler} (hk : Kept h) (hg : Separate h) (e : Event) :
    Kept (step kurento h e) ∧ (Separate (step kurento h e) ↔ SeparateStep kurento h e) := by
  have hquiet : ∀ {h'}, Shrinks h h' → Kept h' ∧ (Separate h' ↔ True) := fun hs =>
    ⟨hs.kept hk, iff_true_intro (hs.separate_iff.mpr hg)⟩
  cases e with
  | register session name delivered => exact hquiet (register_shrinks h session name delivered)
  | call session callee callerName sdpOffer delivered =>
    refine hquiet ((shrinks_inert h).call ?_ ?_ (.refl h) _ callee callerName sdpOffer delivered)
    · exact fun _ _ _ => .inl rfl
    · exact fun _ _ => .inl rfl
  | incomingCallResponse session response callerName sdpOffer throws delivered =>
    exact incomingCallResponse_separate kurento hk hg session response callerName sdpOffer throws delivered
  | play session userName sdpOffer throws delivered =>
    exact hquiet (play_shrinks kurento h _ userName sdpOffer throws delivered)
  | onIceCandidate session candidate =>
    cases candidate with
    | none => exact hquiet (.refl h)
    | some candidate =>
      simp only [step, handle, SeparateStep]
      cases hu : (h.usersBySessionId.lookup session).bind h.withUser with
      | none => exact ⟨hk, iff_of_true hg (by simp)⟩
      | some p => simpa using addCandidate_separate kurento hk hg p.1 p.2 candidate
  | stop session delivered =>
    refine hquiet (andThen_invariant _ _ ((shrinks_inert h).stop ?_ (.refl h) session delivered) ?_)
    · exact fun _ => .inr rfl
    · exact fun h' hs => releasePipeline_shrinks hs _
  | stopPlay session => exact hquiet (releasePipeline_shrinks (.refl h) _)
  | endOfStream pipeline delivered => exact hquiet (endOfStream_shrinks h pipeline delivered)
  | playerError pipeline delivered => exact hquiet (playerError_shrinks h pipeline delivered)

/-- Each candidate is delivered once at most, and those of a playback to no call, in every state of a
run exactly if its steps find no candidate that both take and no list that is not fresh. -/
theorem separate_throughout_iff (events : List Event) :
    Throughout (step kurento) Separate .init events ↔ Along (step kurento) (SeparateStep kurento) .init events := by
  refine throughout_iff_along (J := Kept) ?_ ?_ .init events ?_ ?_
  · exact fun h e hk hg => (step_separate kurento hk hg e).1
  · exact fun h e hk hg => (step_separate kurento hk hg e).2
  · exact ⟨by simp [Handler.init], by simp [Handler.init, Handler.listed], by simp [Handler.init, Handler.listed],
      by simp [Handler.init, Handler.listed]⟩
  · exact ⟨List.nodup_nil, by simp [Handler.init]⟩

end

/-- Anna plays a recording and then calls Ben: the candidate of the playback goes to the call as well. -/
theorem playback_candidate_reaches_call :
    let kurento : Kurento := ⟨fun _ _ => true, fun _ _ => some "answer"⟩
    let events : List Event := [.register "s1" (some "anna") true, .register "s2" (some "ben") true,
      .play "s1" (some "ben") (some "offer") none true, .onIceCandidate "s1" (some ⟨"udp", "0", 0⟩),
      .call "s1" (some "ben") (some "anna") (some "offer") true,
      .incomingCallResponse "s2" (some "accept") (some "anna") (some "offer") none true]
    (run (step kurento) .init events).delivered = [(.play ⟨0⟩, 0), (.call ⟨1, .caller⟩, 0)] ∧
      (run (step kurento) .init events).Playback 0 ∧
      ¬ Throughout (step kurento) Separate .init events := by
  refine ⟨by decide +kernel, by decide +kernel, fun h => ?_⟩
  have hlast := h.run
  revert hlast
  decide +kernel

end CallRecording

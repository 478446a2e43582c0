import SpringStudy.CallRecording

/-!
# Releasing the pipelines of calls and playbacks

Stop, the stop of a playback and the end of a stream release the pipeline of
one session and then look for the other user of a call. Both go well in a run
exactly if there is always such a user and no other session has the same
pipeline. A player that fails releases its pipeline without looking at the map.
-/
namespace CallRecording

open Tables Outcomes Runs

/-- No entry of the map is a released pipeline. -/
def NoStale (h : Handler) : Prop := ∀ p ∈ values h.pipelines, p ∉ h.released

instance decidableNoStale (h : Handler) : Decidable (NoStale h) :=
  inferInstanceAs (Decidable (∀ p ∈ values h.pipelines, p ∉ h.released))

/-- The session whose call or playback the event ends. -/
def endsFor (h : Handler) : Event → Option String
  | .stop session _ => some session
  | .stopPlay session => some session
  | .endOfStream pipeline _ => if pipeline ∈ h.released then none else h.playbacks.lookup pipeline
  | .playerError pipeline _ => if pipeline ∈ h.released then none else h.playbacks.lookup pipeline
  | _ => none

/-- What ends for a registered user ends without a null pointer, and leaves no stale entry. -/
def EndsCleanly (kurento : Kurento) (h : Handler) (e : Event) : Prop :=
  ∀ session ∈ endsFor h e, (h.usersBySessionId.lookup session).isSome →
    (handle kurento h e).2 ≠ some .nullPointer ∧ NoStale (step kurento h e)

instance decidableEndsCleanly (kurento : Kurento) (h : Handler) (e : Event) :
    Decidable (EndsCleanly kurento h e) :=
  inferInstanceAs (Decidable (∀ session ∈ endsFor h e, (h.usersBySessionId.lookup session).isSome →
    (handle kurento h e).2 ≠ some .nullPointer ∧ NoStale (step kurento h e)))

/-- The other user of the call that the user of the session has, or had. -/
def counterpart (h : Handler) (session : String) : Option UserRef :=
  ((h.usersBySessionId.lookup session).bind fun u => h.heap[u]?).bind h.stoppedUser

/-- The session for which the event gets to `releasePipeline`. A stop does not if the other user
cannot be told. -/
def releasing (h : Handler) : Event → Option String
  | .stop session delivered => if delivered = true ∨ counterpart h session = none then some session else none
  | e => endsFor h e

/-- No other session has the pipeline of this one. -/
def Alone (h : Handler) (session : String) : Prop :=
  ∀ p ∈ h.pipelines.lookup session, p ∉ values (h.pipelines.erase session)

/-- Pipelines are released for users with a counterpart, and when no other session has them; a
player fails only after its session has got another pipeline, or none. -/
def ReleasesOwn (h : Handler) : Event → Prop
  | .playerError pipeline delivered =>
    ∀ session ∈ endsFor h (.playerError pipeline delivered), h.pipelines.lookup session ≠ some pipeline
  | e => ∀ session ∈ releasing h e, (h.usersBySessionId.lookup session).isSome →
    (counterpart h session).isSome ∧ Alone h session

/-- Users are found by their own session. -/
def Owned (h : Handler) : Prop :=
  ∀ session u, h.usersBySessionId.lookup session = some u → (h.heap[u]?).map UserSession.session = some session

theorem modify_owned {h : Handler} (u : UserRef) (f : UserSession → UserSession)
    (hf : ∀ user, SameSession user (f user)) (ho : Owned h) : Owned (h.modify u f) := by
  intro session v hv
  rw [← ho session v hv]
  simp only [Handler.modify, List.getElem?_modify, Option.map_eq_map, Option.map_map]
  congr 1
  funext user
  simp only [Function.comp_apply]
  split
  · exact hf user
  · rfl

theorem newUser_owned {h : Handler} (x name : String) (ho : Owned h) : Owned { h with
    heap := h.heap ++ [⟨name, x, none, none, none, none, none, []⟩]
    usersByName := h.usersByName.insert name h.heap.length
    usersBySessionId := h.usersBySessionId.insert x h.heap.length } := by
  intro session u hu
  rw [lookup_put] at hu
  split at hu
  · next heq =>
    obtain rfl := Option.some.inj hu
    simp [heq]
  · have hold := ho session u hu
    have hlt : u < h.heap.length := by
      by_contra hge
      rw [List.getElem?_eq_none (Nat.le_of_not_lt hge)] at hold
      cases hold
    rw [List.getElem?_append_left hlt]
    exact hold

/-- Pipelines are numbered in order, and only the session of a playback, which is that of a user,
has its pipeline. -/
structure Sound (h : Handler) : Prop where
  user_session : Owned h
  entry_lt : ∀ session p, h.pipelines.lookup session = some p → p < h.built
  released_lt : ∀ p ∈ h.released, p < h.built
  playback_lt : ∀ p session, h.playbacks.lookup p = some session → p < h.built
  playback_own : ∀ p session other, h.playbacks.lookup p = some session →
    h.pipelines.lookup other = some p → other = session
  playback_user : ∀ p session, h.playbacks.lookup p = some session → (h.usersBySessionId.lookup session).isSome

abbrev Clean (h : Handler) : Prop := Sound h ∧ NoStale h

theorem sound_inert : Inert SameSession Sound where
  modify _ u f hf hs :=
    ⟨modify_owned u f hf hs.user_session, hs.entry_lt, hs.released_lt, hs.playback_lt, hs.playback_own,
      hs.playback_user⟩
  send _ _ _ hs :=
    ⟨hs.user_session, hs.entry_lt, hs.released_lt, hs.playback_lt, hs.playback_own, hs.playback_user⟩

theorem noStale_inert (K : UserSession → UserSession → Prop) : Inert K NoStale :=
  ⟨fun _ _ _ _ hn => hn, fun _ _ _ hn => hn⟩

theorem clean_inert : Inert SameSession Clean := sound_inert.and (noStale_inert SameSession)

/-! ## Steps that release nothing -/

theorem newUser_clean {h : Handler} (hc : Clean h) (x name : String) : Clean { h with
    heap := h.heap ++ [⟨name, x, none, none, none, none, none, []⟩]
    usersByName := h.usersByName.insert name h.heap.length
    usersBySessionId := h.usersBySessionId.insert x h.heap.length } := by
  obtain ⟨hs, hn⟩ := hc
  refine ⟨⟨newUser_owned x name hs.user_session, hs.entry_lt, hs.released_lt, hs.playback_lt, hs.playback_own,
    fun p session hp => ?_⟩, hn⟩
  rw [lookup_put]
  split
  · rfl
  · exact hs.playback_user p session hp

/-- A new pipeline may be entered for any sessions. -/
theorem newPipeline_clean {h : Handler} (hc : Clean h) (table : Table String Nat)
    (htable : ∀ session p, table.lookup session = some p → p = h.built ∨ h.pipelines.lookup session = some p) :
    Clean { h with built := h.built + 1, pipelines := table } := by
  obtain ⟨hs, hn⟩ := hc
  refine ⟨⟨hs.user_session, fun session p hp => ?_, fun p hp => ?_, fun p session hp => ?_,
    fun p session other hp hother => ?_, hs.playback_user⟩, fun p hp hrel => ?_⟩
  · rcases htable session p hp with hnew | hold
    · exact Nat.lt_succ_of_le (Nat.le_of_eq hnew)
    · exact Nat.lt_succ_of_lt (hs.entry_lt session p hold)
  · exact Nat.lt_succ_of_lt (hs.released_lt p hp)
  · exact Nat.lt_succ_of_lt (hs.playback_lt p session hp)
  · rcases htable other p hother with hnew | hold
    · exact absurd hnew (Nat.ne_of_lt (hs.playback_lt p session hp))
    · exact hs.playback_own p session other hp hold
  · obtain ⟨session, hsession⟩ := (mem_values_iff table p).mp hp
    rcases htable session p hsession with hnew | hold
    · exact absurd hnew (Nat.ne_of_lt (hs.released_lt p hrel))
    · exact hn p ((mem_values_iff _ p).mpr ⟨session, hold⟩) hrel

theorem startPlayer_clean {h : Handler} (hc : Clean h) (session : String) (pipeline : Nat)
    (huser : (h.usersBySessionId.lookup session).isSome) (hlt : pipeline < h.built)
    (hentry : ∀ other, h.pipelines.lookup other ≠ some pipeline) (hrel : pipeline ∉ h.released) :
    Clean (h.startPlayer session pipeline) := by
  obtain ⟨hs, hn⟩ := hc
  -- an entry of the new map is the new pipeline, under its session, or an old one
  have hput : ∀ other p, (h.startPlayer session pipeline).pipelines.lookup other = some p →
      (other = session ∧ p = pipeline) ∨ h.pipelines.lookup other = some p := by
    intro other p hp
    simp only [Handler.startPlayer, lookup_put] at hp
    split at hp
    · next hother => exact .inl ⟨hother, (Option.some.inj hp).symm⟩
    · exact .inr hp
  refine ⟨⟨hs.user_session, fun other p hp => ?_, hs.released_lt, fun p other hp => ?_,
    fun p owner other hp hother => ?_, fun p owner hp => ?_⟩, fun p hp hmem => ?_⟩
  · rcases hput other p hp with ⟨-, rfl⟩ | hold
    · exact hlt
    · exact hs.entry_lt other p hold
  · simp only [Handler.startPlayer, lookup_put] at hp
    split at hp
    · next hnew => exact hnew ▸ hlt
    · exact hs.playback_lt p other hp
  · simp only [Handler.startPlayer, lookup_put] at hp
    split at hp
    · next hnew =>
      cases hp
      rcases hput other p hother with ⟨hsame, -⟩ | hold
      · exact hsame
      · exact absurd (hnew ▸ hold) (hentry other)
    · next hne =>
      rcases hput other p hother with ⟨-, hnew⟩ | hold
      · exact absurd hnew hne
      · exact hs.playback_own p owner other hp hold
  · simp only [Handler.startPlayer, lookup_put] at hp
    split at hp
    · cases hp
      exact huser
    · exact hs.playback_user p owner hp
  · obtain ⟨other, hother⟩ := (mem_values_iff _ p).mp hp
    rcases hput other p hother with ⟨-, rfl⟩ | hold
    · exact hrel hmem
    · exact hn p ((mem_values_iff _ p).mpr ⟨other, hold⟩) hmem

theorem candidates_clean {h : Handler} (hc : Clean h) (received : List Received) (delivered : List (Endpoint × Nat)) :
    Clean { h with received := received, delivered := delivered } :=
  ⟨⟨hc.1.user_session, hc.1.entry_lt, hc.1.released_lt, hc.1.playback_lt, hc.1.playback_own, hc.1.playback_user⟩,
    hc.2⟩

theorem clean_lasting (x : String) : Lasting x Clean where
  toInert := clean_inert
  candidates _ received delivered hc := candidates_clean hc received delivered
  newUser _ name hc := newUser_clean hc x name
  newPipeline _ table htable hc := newPipeline_clean hc table htable
  newPlayer h session huser hc := by
    refine startPlayer_clean (newPipeline_clean hc h.pipelines fun _ _ => .inr) session h.built huser
      (Nat.lt_succ_self _) (fun other ho => ?_) (fun hr => ?_)
    · exact Nat.lt_irrefl _ (hc.1.entry_lt other _ ho)
    · exact Nat.lt_irrefl _ (hc.1.released_lt _ hr)

/-! ## Releasing a pipeline -/

theorem dropPipeline_pipelines (h : Handler) (session : String) :
    (h.dropPipeline session).pipelines = h.pipelines.erase session := by
  unfold Handler.dropPipeline
  split
  · next hnone => exact (erase_absent _ _ hnone).symm
  · rfl

theorem dropPipeline_released (h : Handler) (session : String) :
    (h.dropPipeline session).released = h.released ++ (h.pipelines.lookup session).toList := by
  unfold Handler.dropPipeline
  split
  · next hnone => simp [hnone]
  · next pipeline hsome => simp [hsome]

theorem mem_values_of_erase {h : Handler} {session : String} {p : Nat}
    (hp : p ∈ values (h.pipelines.erase session)) : p ∈ values h.pipelines := by
  obtain ⟨other, hother⟩ := (mem_values_iff _ p).mp hp
  exact (mem_values_iff _ p).mpr ⟨other, (lookup_remove_eq_some.mp hother).2⟩

theorem dropPipeline_noStale_iff {h : Handler} (hn : NoStale h) (session : String) :
    NoStale (h.dropPipeline session) ↔ Alone h session := by
  unfold NoStale Alone
  rw [dropPipeline_pipelines, dropPipeline_released]
  constructor
  · intro hdrop p hp hother
    exact hdrop p hother (List.mem_append_right _ (Option.mem_toList.mpr hp))
  · intro halone p hp hrel
    rcases List.mem_append.mp hrel with hold | hown
    · exact hn p (mem_values_of_erase hp) hold
    · exact halone p (Option.mem_toList.mp hown) hp

theorem dropPipeline_sound {h : Handler} (hs : Sound h) (session : String) : Sound (h.dropPipeline session) := by
  unfold Handler.dropPipeline
  split
  · exact hs
  · next pipeline hsome =>
    have herase : ∀ other p, (h.pipelines.erase session).lookup other = some p →
        h.pipelines.lookup other = some p := fun _ _ hp => (lookup_remove_eq_some.mp hp).2
    refine ⟨hs.user_session, fun other p hp => hs.entry_lt other p (herase other p hp), fun p hp => ?_,
      hs.playback_lt, fun p owner other hp hother => hs.playback_own p owner other hp (herase other p hother),
      hs.playback_user⟩
    rcases List.mem_append.mp hp with hold | hnew
    · exact hs.released_lt p hold
    · obtain rfl := List.mem_singleton.mp hnew
      exact hs.entry_lt session p hsome

theorem releasePipeline_sound {h : Handler} (hs : Sound h) (user : Option UserRef) :
    Sound (h.releasePipeline user).1 := by
  refine sound_inert.releasePipeline ?_ user hs fun _ _ => dropPipeline_sound hs _
  exact fun _ => rfl

/-- A registered user's pipeline is dropped, whether or not there is a counterpart. -/
theorem releasePipeline_registered {h : Handler} (hs : Sound h) (session : String) (u : UserRef)
    (hu : h.usersBySessionId.lookup session = some u) :
    (h.releasePipeline (some u)).1.pipelines = (h.dropPipeline session).pipelines ∧
      (h.releasePipeline (some u)).1.released = (h.dropPipeline session).released ∧
      (h.releasePipeline (some u)).2 = if (counterpart h session).isSome then none else some .nullPointer := by
  obtain ⟨user, hx, rfl⟩ := Option.map_eq_some_iff.mp (hs.user_session session u hu)
  have hnames : ((h.dropPipeline user.session).resetEndpoints u).usersByName = h.usersByName := by
    unfold Handler.dropPipeline
    split
    · rfl
    · rfl
  have hstopped : ((h.dropPipeline user.session).resetEndpoints u).stoppedUser user =
      counterpart h user.session := by
    simp only [counterpart, hu, Option.bind_some, hx, Handler.stoppedUser, hnames]
  simp only [Handler.releasePipeline, Handler.withUser, Option.bind_some, hx, Option.map_some, hstopped]
  cases counterpart h user.session with
  | none => exact ⟨rfl, rfl, rfl⟩
  | some stopped => exact ⟨rfl, rfl, rfl⟩

/-- A release for a registered user goes well exactly with a counterpart and an own pipeline. -/
theorem releasePipeline_cleanly_iff {h : Handler} (hc : Clean h) (session : String) (u : UserRef)
    (hu : h.usersBySessionId.lookup session = some u) :
    ((h.releasePipeline (some u)).2 ≠ some .nullPointer ∧ NoStale (h.releasePipeline (some u)).1) ↔
      (counterpart h session).isSome ∧ Alone h session := by
  obtain ⟨hpipelines, hreleased, hfailure⟩ := releasePipeline_registered hc.1 session u hu
  rw [← dropPipeline_noStale_iff hc.2 session, hfailure]
  unfold NoStale
  rw [hpipelines, hreleased]
  refine and_congr ?_ Iff.rfl
  cases counterpart h session with
  | none => simp
  | some stopped => simp

/-! ## Ends of calls and playbacks -/

/-- A stop that does not get to `releasePipeline` could not tell the other user, and changes nothing. -/
theorem stop_failed {h : Handler} {session : String} {delivered : Bool} {failure : Failure}
    (hfail : (h.stop session delivered).2 = some failure) : h.stop session delivered = (h, some .io) := by
  unfold Handler.stop at hfail ⊢
  split at hfail
  · cases hfail
  · split at hfail
    · cases hfail
    · unfold Handler.sendMessage at hfail ⊢
      cases delivered with
      | true => cases hfail
      | false => rfl

theorem stop_ok_iff (h : Handler) (session : String) (delivered : Bool) :
    (h.stop session delivered).2 = none ↔ delivered = true ∨ counterpart h session = none := by
  unfold Handler.stop counterpart
  cases h.usersBySessionId.lookup session with
  | none => simp
  | some stopper =>
    dsimp only [Option.bind_some]
    cases (h.heap[stopper]?).bind h.stoppedUser with
    | none => simp
    | some stopped => cases delivered <;> simp [Handler.sendMessage]

theorem stop_users (h : Handler) (session : String) (delivered : Bool) :
    (h.stop session delivered).1.usersBySessionId = h.usersBySessionId := by
  have hinert : Inert (fun _ _ => True) fun h' => h'.usersBySessionId = h.usersBySessionId :=
    ⟨fun _ _ _ _ hp => hp, fun _ _ _ hp => hp⟩
  exact hinert.stop (fun _ => trivial) rfl session delivered

/-- Of the user, the names that lead to the other one stay. -/
def SameNames (x y : UserSession) : Prop := y.callingFrom = x.callingFrom ∧ y.callingTo = x.callingTo

theorem counterpart_inert (session : String) (other : Option UserRef) :
    Inert SameNames fun h => counterpart h session = other where
  modify h u f hf hp := by
    have hstopped : ∀ user, (h.modify u f).stoppedUser (f user) = h.stoppedUser user := by
      intro user
      obtain ⟨hfrom, hto⟩ := hf user
      simp only [Handler.stoppedUser, hfrom, hto]
      rfl
    rw [← hp]
    show ((h.usersBySessionId.lookup session).bind fun v => (h.heap.modify u f)[v]?).bind _ =
      ((h.usersBySessionId.lookup session).bind fun v => h.heap[v]?).bind _
    cases h.usersBySessionId.lookup session with
    | none => rfl
    | some v =>
      simp only [Option.bind_some, List.getElem?_modify]
      cases h.heap[v]? with
      | none => rfl
      | some user =>
        by_cases huv : u = v
        · simpa [huv] using hstopped user
        · simp only [huv, if_false]
          rfl
  send _ _ _ hp := hp

theorem stop_counterpart (h : Handler) (session : String) (delivered : Bool) :
    counterpart (h.stop session delivered).1 session = counterpart h session :=
  (counterpart_inert session _).stop (fun _ => ⟨rfl, rfl⟩) rfl session delivered

theorem stop_alone_iff (h : Handler) (session : String) (delivered : Bool) :
    Alone (h.stop session delivered).1 session ↔ Alone h session := by
  have hinert : Inert (fun _ _ => True) fun h' => h'.pipelines = h.pipelines :=
    ⟨fun _ _ _ _ hp => hp, fun _ _ _ hp => hp⟩
  unfold Alone
  rw [hinert.stop (fun _ => trivial) rfl session delivered]

theorem stop_clean {h : Handler} (hc : Clean h) (session : String) (delivered : Bool) :
    Clean (h.stop session delivered).1 := by
  refine clean_inert.stop ?_ hc session delivered
  exact fun _ => rfl

theorem playback_gone_clean {h : Handler} (hc : Clean h) (pipeline : Nat) :
    Clean { h with playbacks := h.playbacks.erase pipeline } := by
  obtain ⟨hs, hn⟩ := hc
  have herase : ∀ p session, (h.playbacks.erase pipeline).lookup p = some session →
      h.playbacks.lookup p = some session := fun _ _ hp => (lookup_remove_eq_some.mp hp).2
  exact ⟨⟨hs.user_session, hs.entry_lt, hs.released_lt,
    fun p session hp => hs.playback_lt p session (herase p session hp),
    fun p session other hp => hs.playback_own p session other (herase p session hp),
    fun p session hp => hs.playback_user p session (herase p session hp)⟩, hn⟩

theorem sendPlayEnd_pipelines (h : Handler) (session : String) (pipeline : Nat) (delivered : Bool) :
    (h.sendPlayEnd session pipeline delivered).pipelines = h.pipelines := by
  cases delivered <;> rfl

theorem sendPlayEnd_released (h : Handler) (session : String) (pipeline : Nat) (delivered : Bool) :
    (h.sendPlayEnd session pipeline delivered).released = h.released ++ [pipeline] := by
  cases delivered <;> rfl

theorem sendPlayEnd_sound {h : Handler} (hs : Sound h) (session : String) (pipeline : Nat) (delivered : Bool)
    (hlt : pipeline < h.built) : Sound (h.sendPlayEnd session pipeline delivered) := by
  have hsent : Sound (h.sendMessage (.session session) .playEnd delivered).1 ∧
      pipeline < (h.sendMessage (.session session) .playEnd delivered).1.built := by
    cases delivered with
    | true => exact ⟨sound_inert.send h _ _ hs, hlt⟩
    | false => exact ⟨hs, hlt⟩
  obtain ⟨hs', hlt'⟩ := hsent
  refine ⟨hs'.user_session, hs'.entry_lt, fun p hp => ?_, hs'.playback_lt, hs'.playback_own, hs'.playback_user⟩
  rcases List.mem_append.mp hp with hold | hnew
  · exact hs'.released_lt p hold
  · obtain rfl := List.mem_singleton.mp hnew
    exact hlt'

theorem playerError_sound {h : Handler} (hs : Sound h) (pipeline : Nat) (delivered : Bool) :
    Sound (h.playerError pipeline delivered) := by
  unfold Handler.playerError
  split
  · exact hs
  · next session hp =>
    split
    · exact hs
    · exact sendPlayEnd_sound hs session pipeline delivered (hs.playback_lt pipeline session hp)

theorem releasePipeline_built (h : Handler) (user : Option UserRef) : (h.releasePipeline user).1.built = h.built := by
  have hinert : Inert (fun _ _ => True) fun h' => h'.built = h.built :=
    ⟨fun _ _ _ _ hp => hp, fun _ _ _ hp => hp⟩
  refine hinert.releasePipeline (fun _ => trivial) user rfl fun p _ => ?_
  unfold Handler.dropPipeline
  split
  · rfl
  · rfl

/-- The pipeline of a playback is not an entry once that of its session has gone. -/
theorem playback_not_entry {h : Handler} (hs : Sound h) (session : String) (pipeline : Nat)
    (hp : h.playbacks.lookup pipeline = some session) : pipeline ∉ values (h.pipelines.erase session) := by
  intro hmem
  obtain ⟨other, hother⟩ := (mem_values_iff _ _).mp hmem
  obtain ⟨hne, hentry⟩ := lookup_remove_eq_some.mp hother
  exact hne (hs.playback_own pipeline session other hp hentry)

theorem sendPlayEnd_noStale_iff {h : Handler} (session : String) (pipeline : Nat) (delivered : Bool)
    (hentry : pipeline ∉ values h.pipelines) :
    NoStale (h.sendPlayEnd session pipeline delivered) ↔ NoStale h := by
  unfold NoStale
  rw [sendPlayEnd_pipelines, sendPlayEnd_released]
  constructor
  · exact fun hn p hp hrel => hn p hp (List.mem_append_left _ hrel)
  · intro hn p hp hrel
    rcases List.mem_append.mp hrel with hold | hnew
    · exact hn p hp hold
    · obtain rfl := List.mem_singleton.mp hnew
      exact hentry hp

theorem endOfStream_live {h : Handler} {pipeline : Nat} {session : String}
    (hp : h.playbacks.lookup pipeline = some session) (hlive : pipeline ∉ h.released) (delivered : Bool) :
    h.endOfStream pipeline delivered =
      andThen (({ h with playbacks := h.playbacks.erase pipeline } : Handler).releasePipeline
        (h.usersBySessionId.lookup session)) fun h => (h.sendPlayEnd session pipeline delivered, none) := by
  simp only [Handler.endOfStream, hp, hlive, if_false]

theorem endOfStream_sound {h : Handler} (hc : Clean h) (pipeline : Nat) (delivered : Bool) :
    Sound (h.endOfStream pipeline delivered).1 := by
  cases hp : h.playbacks.lookup pipeline with
  | none => simpa only [Handler.endOfStream, hp] using hc.1
  | some session =>
    by_cases hlive : pipeline ∈ h.released
    · simpa only [Handler.endOfStream, hp, hlive, if_true] using hc.1
    · rw [endOfStream_live hp hlive]
      have hgone := (playback_gone_clean hc pipeline).1
      refine (andThen_invariant (I := fun h' => Sound h' ∧ h'.built = h.built) _ _ ?_ ?_).1
      · exact ⟨releasePipeline_sound hgone _, releasePipeline_built _ _⟩
      · rintro h' ⟨hs', hb⟩
        have hlt : pipeline < h'.built := hb ▸ hc.1.playback_lt pipeline session hp
        refine ⟨sendPlayEnd_sound hs' session pipeline delivered hlt, ?_⟩
        cases delivered with
        | true => exact hb
        | false => exact hb

theorem endOfStream_cleanly_iff {h : Handler} (hc : Clean h) {pipeline : Nat} {session : String} {u : UserRef}
    (hp : h.playbacks.lookup pipeline = some session) (hlive : pipeline ∉ h.released)
    (hu : h.usersBySessionId.lookup session = some u) (delivered : Bool) :
    let gone : Handler := { h with playbacks := h.playbacks.erase pipeline }
    ((h.endOfStream pipeline delivered).2 ≠ some .nullPointer ∧ NoStale (h.endOfStream pipeline delivered).1) ↔
      (counterpart gone session).isSome ∧ Alone gone session := by
  intro gone
  have hgone : Clean gone := playback_gone_clean hc pipeline
  have hiff := releasePipeline_cleanly_iff hgone session u hu
  obtain ⟨hpipelines, -, hfailure⟩ := releasePipeline_registered hgone.1 session u hu
  have hentry : pipeline ∉ values (gone.releasePipeline (some u)).1.pipelines := by
    rw [hpipelines, dropPipeline_pipelines]
    exact playback_not_entry hc.1 session pipeline hp
  rw [endOfStream_live hp hlive, hu, ← hiff]
  change (andThen (gone.releasePipeline (some u)) _).2 ≠ _ ∧
    NoStale (andThen (gone.releasePipeline (some u)) _).1 ↔ _
  generalize gone.releasePipeline (some u) = q at *
  obtain ⟨h', failure⟩ := q
  cases failure with
  | some failure =>
    -- without a counterpart the listener ends here
    exact Iff.rfl
  | none => simp only [andThen_ok, sendPlayEnd_noStale_iff session pipeline delivered hentry]

section
variable (kurento : Kurento)

theorem stop_cleanly_iff {h : Handler} (hc : Clean h) {session : String} {u : UserRef}
    (hu : h.usersBySessionId.lookup session = some u) (delivered : Bool) :
    ((handle kurento h (.stop session delivered)).2 ≠ some .nullPointer ∧
        NoStale (step kurento h (.stop session delivered))) ↔
      (delivered = true ∨ counterpart h session = none → (counterpart h session).isSome ∧ Alone h session) := by
  rw [← stop_ok_iff]
  simp only [step, handle]
  cases hfail : (h.stop session delivered).2 with
  | some failure =>
    rw [stop_failed hfail, andThen_failed]
    exact iff_of_true ⟨by simp, hc.2⟩ (by simp)
  | none =>
    have hok : h.stop session delivered = ((h.stop session delivered).1, none) := Prod.ext rfl hfail
    have hu' : (h.stop session delivered).1.usersBySessionId.lookup session = some u := by
      rw [stop_users]
      exact hu
    have hiff := releasePipeline_cleanly_iff (stop_clean hc session delivered) session u hu'
    rw [stop_counterpart, stop_alone_iff] at hiff
    rw [hok, andThen_ok, hu', hiff]
    simp

/-- A player that fails leaves a stale entry exactly if its session still has its pipeline. -/
theorem playerError_noStale_iff {h : Handler} (hc : Clean h) {pipeline : Nat} {session : String}
    (hp : h.playbacks.lookup pipeline = some session) (hlive : pipeline ∉ h.released) (delivered : Bool) :
    NoStale (h.playerError pipeline delivered) ↔ h.pipelines.lookup session ≠ some pipeline := by
  simp only [Handler.playerError, hp, hlive, if_false]
  constructor
  · intro hn hentry
    refine hn pipeline ?_ ?_
    · rw [sendPlayEnd_pipelines]
      exact (mem_values_iff _ _).mpr ⟨session, hentry⟩
    · rw [sendPlayEnd_released]
      exact List.mem_append_right _ (List.mem_singleton_self _)
  · intro hentry
    refine (sendPlayEnd_noStale_iff session pipeline delivered fun hmem => ?_).mpr hc.2
    obtain ⟨other, hother⟩ := (mem_values_iff _ _).mp hmem
    obtain rfl := hc.1.playback_own pipeline session other hp hother
    exact hentry hother

theorem endsCleanly_iff {h : Handler} (hc : Clean h) (e : Event) :
    EndsCleanly kurento h e ↔ ReleasesOwn h e := by
  have hnothing : ∀ {P Q : String → Prop}, (∀ session ∈ (none : Option String), P session) ↔
      ∀ session ∈ (none : Option String), Q session := by simp
  cases e with
  | register => exact hnothing
  | call => exact hnothing
  | incomingCallResponse => exact hnothing
  | play => exact hnothing
  | onIceCandidate => exact hnothing
  | stop session delivered =>
    simp only [EndsCleanly, ReleasesOwn, endsFor, releasing, Option.mem_some_iff, forall_eq']
    cases hu : h.usersBySessionId.lookup session with
    | none => simp [hu]
    | some u => simp [stop_cleanly_iff kurento hc hu delivered, hu]
  | stopPlay session =>
    simp only [EndsCleanly, ReleasesOwn, endsFor, releasing, step, handle, Option.mem_some_iff, forall_eq']
    cases hu : h.usersBySessionId.lookup session with
    | none => simp
    | some u => simpa using releasePipeline_cleanly_iff hc session u hu
  | endOfStream pipeline delivered =>
    simp only [EndsCleanly, ReleasesOwn, releasing, endsFor]
    by_cases hlive : pipeline ∈ h.released
    · simp [hlive]
    · cases hp : h.playbacks.lookup pipeline with
      | none => simp
      | some session =>
        simp only [hlive, if_false, Option.mem_some_iff, forall_eq']
        refine forall_congr' fun hregistered => ?_
        obtain ⟨u, hu⟩ := Option.isSome_iff_exists.mp hregistered
        exact endOfStream_cleanly_iff hc hp hlive hu delivered
  | playerError pipeline delivered =>
    simp only [EndsCleanly, ReleasesOwn, endsFor]
    by_cases hlive : pipeline ∈ h.released
    · simp [hlive]
    · cases hp : h.playbacks.lookup pipeline with
      | none => simp
      | some session =>
        simp only [hlive, if_false, Option.mem_some_iff, forall_eq', hc.1.playback_user pipeline session hp,
          true_imp_iff]
        rw [← playerError_noStale_iff hc hp hlive delivered]
        exact and_iff_right (by simp [handle])

/-- Without a registered user nothing is released. -/
theorem ends_unregistered {h : Handler} (hc : Clean h) (e : Event) (session : String)
    (hends : session ∈ endsFor h e) (hu : h.usersBySessionId.lookup session = none) :
    NoStale (step kurento h e) := by
  cases e with
  | stop s delivered =>
    obtain rfl := Option.mem_some_iff.mp hends
    simpa [step, handle, Handler.stop, hu, Handler.releasePipeline] using hc.2
  | stopPlay s =>
    obtain rfl := Option.mem_some_iff.mp hends
    simpa [step, handle, hu, Handler.releasePipeline] using hc.2
  | endOfStream pipeline delivered =>
    simp only [endsFor] at hends
    split at hends
    · cases hends
    · next hlive =>
      simp only [step, handle, endOfStream_live hends hlive, hu, Handler.releasePipeline, Option.bind_none,
        andThen_failed]
      exact hc.2
  | playerError pipeline delivered =>
    simp only [endsFor] at hends
    split at hends
    · cases hends
    · have huser := hc.1.playback_user pipeline session hends
      rw [hu] at huser
      cases huser
  | _ => cases hends

theorem ends_sound {h : Handler} (hc : Clean h) (e : Event) (session : String) (hends : session ∈ endsFor h e) :
    Sound (step kurento h e) := by
  cases e with
  | stop s delivered =>
    refine andThen_invariant _ _ (stop_clean hc s delivered).1 fun h' hs' => ?_
    exact releasePipeline_sound hs' _
  | stopPlay s => exact releasePipeline_sound hc.1 _
  | endOfStream pipeline delivered => exact endOfStream_sound hc pipeline delivered
  | playerError pipeline delivered => exact playerError_sound hc.1 pipeline delivered
  | _ => cases hends

/-- An event that ends nothing releases nothing, and enters new pipelines only. -/
theorem quiet_clean {h : Handler} (hc : Clean h) (e : Event) (hends : endsFor h e = none) :
    Clean (step kurento h e) := by
  cases e with
  | register session name delivered => exact (clean_lasting session).register hc name delivered
  | call session callee callerName sdpOffer delivered =>
    refine clean_inert.call ?_ ?_ hc _ callee callerName sdpOffer delivered
    · exact fun _ _ _ => rfl
    · exact fun _ _ => rfl
  | incomingCallResponse session response callerName sdpOffer throws delivered =>
    exact (clean_lasting session).incomingCallResponse kurento hc _ response callerName sdpOffer throws delivered
  | play session userName sdpOffer throws delivered =>
    exact (clean_lasting session).play kurento hc _ userName sdpOffer throws delivered
  | onIceCandidate session candidate => exact (clean_lasting session).onIceCandidate kurento hc session candidate
  | stop session delivered => cases hends
  | stopPlay session => cases hends
  | endOfStream pipeline delivered =>
    simp only [endsFor] at hends
    simp only [step, handle, Handler.endOfStream]
    split at hends
    · next hgone =>
      split
      · exact hc
      · exact (if_pos hgone).symm ▸ hc
    · rw [hends]
      exact hc
  | playerError pipeline delivered =>
    simp only [endsFor] at hends
    simp only [step, handle, Handler.playerError]
    split at hends
    · next hgone =>
      split
      · exact hc
      · exact (if_pos hgone).symm ▸ hc
    · rw [hends]
      exact hc

theorem step_clean {h : Handler} (hc : Clean h) (e : Event) (he : EndsCleanly kurento h e) :
    Clean (step kurento h e) := by
  cases hends : endsFor h e with
  | none => exact quiet_clean kurento hc e hends
  | some session =>
    refine ⟨ends_sound kurento hc e session hends, ?_⟩
    cases hu : h.usersBySessionId.lookup session with
    | none => exact ends_unregistered kurento hc e session hends hu
    | some u => exact (he session hends (by simp [hu])).2

/-- Every stop, stop of a playback and end of a stream in a run goes well exactly if pipelines are
released for users with a counterpart only, and never while another session has them. In a run with
failing players these count as ends as well, and go well once their session has another pipeline. -/
theorem ends_cleanly_along_iff (events : List Event) :
    Along (step kurento) (EndsCleanly kurento) .init events ↔ Along (step kurento) ReleasesOwn .init events := by
  refine along_iff_along (I := Clean) ?_ ?_ .init events ?_
  · exact fun h e hc => endsCleanly_iff kurento hc e
  · exact fun h e hc he => step_clean kurento hc e he
  · exact ⟨⟨nofun, nofun, nofun, nofun, nofun, nofun⟩, nofun⟩

end

/-- Anna plays her own recording and stops it: she never called anybody. And when Anna ends a call
with Ben, his entry keeps the pipeline that was released with hers. -/
theorem stopPlay_throws_and_stop_leaves_stale :
    let kurento : Kurento := ⟨fun _ _ => true, fun _ _ => some "answer"⟩
    let playing : List Event := [.register "s1" (some "anna") true,
      .play "s1" (some "anna") (some "offer") none true]
    let calling : List Event := [.register "s1" (some "anna") true, .register "s2" (some "ben") true,
      .call "s1" (some "ben") (some "anna") (some "offer") true,
      .incomingCallResponse "s2" (some "accept") (some "anna") (some "offer") none true]
    (handle kurento (run (step kurento) .init playing) (.stopPlay "s1")).2 = some .nullPointer ∧
      (handle kurento (run (step kurento) .init calling) (.stop "s1" true)).2 = none ∧
      (run (step kurento) .init (calling ++ [.stop "s1" true])).pipelines.lookup "s2" = some 0 ∧
      (run (step kurento) .init (calling ++ [.stop "s1" true])).released = [0] ∧
      ¬ Along (step kurento) (EndsCleanly kurento) .init (playing ++ [.stopPlay "s1"]) ∧
      ¬ Along (step kurento) (EndsCleanly kurento) .init (calling ++ [.stop "s1" true]) := by
  decide +kernel

end CallRecording

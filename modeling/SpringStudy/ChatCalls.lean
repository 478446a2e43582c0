import SpringStudy.ChatStore
import SpringStudy.Runs

/-!
# `CallManager`: the users of a call and the call of a user

`callMap` and `userIdIndex` are meant to be two views of one relation. `remove`
passes the users of the removed call to itself, where they are taken for call
ids, and never touches the index; `put` leaves a user who moves to another call
in the set of the old one.
-/
namespace ChatCalls

open Tables Outcomes ChatStore Runs

/-- `remove`, nested at most `depth` calls deep. -/
def removeNested : Nat → CallManager → String → CallManager
  | 0, m, _ => m
  | depth + 1, m, callId =>
    match m.callMap.lookup callId with
    | none => m
    | some userIdSet =>
      userIdSet.foldl (removeNested depth) { m with callMap := m.callMap.erase callId }

/-- Every nested call that finds a set has taken one out of the map. -/
def remove (m : CallManager) (callId : String) : CallManager :=
  removeNested m.callMap.entries.length m callId

def removeByUserId (m : CallManager) (userId : String) : Outcome CallManager Failure :=
  match m.userIdIndex.lookup userId with
  | none => (m, none)
  | some callId =>
    let m := { m with userIdIndex := m.userIdIndex.erase userId }
    match m.callMap.lookup callId with
    | none => (m, some .nullPointer)
    | some userSet =>
      if userSet.length = 1 then (remove m callId, none)
      else ({ m with callMap := m.callMap.insert callId (userSet.erase userId) }, none)

inductive Op where
  | put (callId userId : String)
  | remove (callId : String)
  | removeByUserId (userId : String)

def step (m : CallManager) : Op → CallManager
  | .put callId userId => m.put callId userId
  | .remove callId => remove m callId
  | .removeByUserId userId => (removeByUserId m userId).1

/-! ## `remove` as the source writes it -/

theorem length_erase (t : Table String (List String)) (k : String) (v : List String)
    (h : t.lookup k = some v) : (t.erase k).entries.length + 1 = t.entries.length := by
  have hk : k ∈ t.keys := AList.mem_keys.mp (AList.lookup_isSome.mp (by simp [h]))
  obtain ⟨w, l₁, l₂, -, hl, he⟩ := List.exists_of_kerase hk
  have herase : (t.erase k).entries = l₁ ++ l₂ := he
  rw [herase, hl]
  simp only [List.length_append, List.length_cons]
  omega

theorem length_removeNested (depth : Nat) (m : CallManager) (callId : String) :
    (removeNested depth m callId).callMap.entries.length ≤ m.callMap.entries.length := by
  induction depth generalizing m callId with
  | zero => exact Nat.le_refl _
  | succ depth ih =>
    rw [removeNested]
    cases h : m.callMap.lookup callId with
    | none => exact Nat.le_refl _
    | some users =>
      have hlen := length_erase m.callMap callId users h
      have hfold : (users.foldl (removeNested depth)
          { m with callMap := m.callMap.erase callId }).callMap.entries.length ≤
            (m.callMap.erase callId).entries.length :=
        List.foldlRecOn (motive := fun t : CallManager =>
            t.callMap.entries.length ≤ (m.callMap.erase callId).entries.length) users _ (Nat.le_refl _)
          fun t ht u _ => Nat.le_trans (ih t u) ht
      simp only
      omega

theorem lookup_of_length (t : Table String (List String)) (h : t.entries.length = 0) (k : String) :
    t.lookup k = none := by
  obtain rfl : t = ∅ := AList.ext (List.eq_nil_of_length_eq_zero h)
  rfl

/-- Two ways to remove that agree on maps of at most `n` calls agree over a whole set. -/
theorem foldl_agree {f g : CallManager → String → CallManager} {n : Nat}
    (hfg : ∀ m u, m.callMap.entries.length ≤ n → f m u = g m u)
    (hg : ∀ m u, (g m u).callMap.entries.length ≤ m.callMap.entries.length)
    (users : List String) (m : CallManager) (hm : m.callMap.entries.length ≤ n) :
    users.foldl f m = users.foldl g m := by
  induction users generalizing m with
  | nil => rfl
  | cons u users ih =>
    rw [List.foldl_cons, List.foldl_cons, hfg m u hm]
    exact ih (g m u) (Nat.le_trans (hg m u) hm)

/-- Any depth that covers the calls in the map gives the same result. -/
theorem removeNested_depth (d d' : Nat) (m : CallManager) (callId : String)
    (hd : m.callMap.entries.length ≤ d) (hd' : m.callMap.entries.length ≤ d') :
    removeNested d m callId = removeNested d' m callId := by
  induction d generalizing d' m callId with
  | zero =>
    have hnone := lookup_of_length m.callMap (Nat.le_zero.mp hd) callId
    cases d' with
    | zero => rfl
    | succ d' => simp only [removeNested, hnone]
  | succ d ih =>
    cases d' with
    | zero =>
      have hnone := lookup_of_length m.callMap (Nat.le_zero.mp hd') callId
      simp only [removeNested, hnone]
    | succ d' =>
      simp only [removeNested]
      cases h : m.callMap.lookup callId with
      | none => rfl
      | some users =>
        have hlen := length_erase m.callMap callId users h
        have hn : (m.callMap.erase callId).entries.length ≤ min d d' := by omega
        refine foldl_agree (fun t u ht => ih d' t u ?_ ?_) (length_removeNested d') users _ hn
        · omega
        · omega

/-- The recursion of the source. -/
theorem remove_eq (m : CallManager) (callId : String) :
    remove m callId =
      match m.callMap.lookup callId with
      | none => m
      | some userIdSet => userIdSet.foldl remove { m with callMap := m.callMap.erase callId } := by
  cases h : m.callMap.lookup callId with
  | none =>
    unfold remove
    cases m.callMap.entries.length with
    | zero => rfl
    | succ n => simp only [removeNested, h]
  | some users =>
    have hlen := length_erase m.callMap callId users h
    rw [remove, ← hlen]
    simp only [removeNested, h]
    refine foldl_agree (fun t u ht => ?_) (fun t u => length_removeNested _ t u) users _ (Nat.le_refl _)
    exact removeNested_depth _ _ t u ht (Nat.le_refl _)

/-- `remove` may take sets out of the map and does nothing else. -/
structure Shrinks (m m' : CallManager) : Prop where
  index : m'.userIdIndex = m.userIdIndex
  callMap : ∀ c, m'.callMap.lookup c = m.callMap.lookup c ∨ m'.callMap.lookup c = none

theorem Shrinks.refl (m : CallManager) : Shrinks m m := ⟨rfl, fun _ => .inl rfl⟩

theorem Shrinks.trans {a b c : CallManager} (h : Shrinks a b) (h' : Shrinks b c) : Shrinks a c := by
  refine ⟨h'.index.trans h.index, fun x => ?_⟩
  rcases h'.callMap x with hc | hc
  · rcases h.callMap x with hb | hb
    · exact .inl (hc.trans hb)
    · exact .inr (hc.trans hb)
  · exact .inr hc

theorem shrinks_erase (m : CallManager) (c : String) :
    Shrinks m { m with callMap := m.callMap.erase c } := by
  refine ⟨rfl, fun x => ?_⟩
  by_cases hx : x = c
  · exact .inr (by simp [hx])
  · exact .inl (by simp [hx])

theorem foldl_shrinks {f : CallManager → String → CallManager} (hf : ∀ m u, Shrinks m (f m u))
    (users : List String) (m : CallManager) : Shrinks m (users.foldl f m) :=
  List.foldlRecOn (motive := Shrinks m) users f (.refl m) fun t ht u _ => ht.trans (hf t u)

theorem removeNested_shrinks (depth : Nat) (m : CallManager) (callId : String) :
    Shrinks m (removeNested depth m callId) := by
  induction depth generalizing m callId with
  | zero => exact .refl m
  | succ depth ih =>
    rw [removeNested]
    cases m.callMap.lookup callId with
    | none => exact .refl m
    | some users => exact (shrinks_erase m callId).trans (foldl_shrinks ih users _)

theorem remove_shrinks (m : CallManager) (callId : String) : Shrinks m (remove m callId) :=
  removeNested_shrinks _ m callId

theorem lookup_remove_self (m : CallManager) (callId : String) :
    (remove m callId).callMap.lookup callId = none := by
  rw [remove_eq]
  cases h : m.callMap.lookup callId with
  | none => exact h
  | some users =>
    have hfold := foldl_shrinks remove_shrinks users { m with callMap := m.callMap.erase callId }
    rcases hfold.callMap callId with hc | hc
    · simpa using hc
    · exact hc

/-! ## The two views agree -/

def usersOf (m : CallManager) (callId : String) : List String := (m.callMap.lookup callId).getD []

/-- A user is in the set of a call exactly when the index gives that call, and no set is empty. -/
structure Exact (m : CallManager) : Prop where
  members : ∀ u c, u ∈ usersOf m c ↔ m.userIdIndex.lookup u = some c
  nonempty : ∀ c, m.callMap.lookup c ≠ some []

/-- The sets are sets. -/
def Distinct (m : CallManager) : Prop := ∀ c users, m.callMap.lookup c = some users → users.Nodup

/-- A user is put only into the call they are in already, if any; a call is removed
only when it has no set; and the last user of a call does not have the id of
another call. -/
def Keeps (m : CallManager) : Op → Prop
  | .put callId userId => ∀ c ∈ m.userIdIndex.lookup userId, c = callId
  | .remove callId => m.callMap.lookup callId = none
  | .removeByUserId userId => ∀ callId ∈ m.userIdIndex.lookup userId,
      m.callMap.lookup callId = some [userId] → userId ≠ callId → m.callMap.lookup userId = none

instance decidableKeeps (m : CallManager) : ∀ op, Decidable (Keeps m op)
  | .put callId userId => inferInstanceAs (Decidable (∀ c ∈ m.userIdIndex.lookup userId, c = callId))
  | .remove callId => inferInstanceAs (Decidable (m.callMap.lookup callId = none))
  | .removeByUserId userId => inferInstanceAs (Decidable (∀ callId ∈ m.userIdIndex.lookup userId,
      m.callMap.lookup callId = some [userId] → userId ≠ callId → m.callMap.lookup userId = none))

theorem Shrinks.distinct {m m' : CallManager} (h : Shrinks m m') (hm : Distinct m) : Distinct m' := by
  intro c users hc
  rcases h.callMap c with he | he
  · exact hm c users (he ▸ hc)
  · rw [he] at hc; cases hc

theorem step_distinct (m : CallManager) (op : Op) (h : Distinct m) : Distinct (step m op) := by
  cases op with
  | put callId userId =>
    intro c users hc
    simp only [step, CallManager.put, lookup_put] at hc
    split at hc
    · obtain rfl := Option.some.inj hc
      cases hl : m.callMap.lookup callId with
      | none => simp
      | some old => exact (h callId old hl).insert
    · exact h c users hc
  | remove callId => exact (remove_shrinks m callId).distinct h
  | removeByUserId userId =>
    simp only [step, removeByUserId]
    cases m.userIdIndex.lookup userId with
    | none => exact h
    | some callId =>
      dsimp only
      cases hl : m.callMap.lookup callId with
      | none => exact h
      | some userSet =>
        dsimp only
        split
        · exact (remove_shrinks ⟨m.callMap, m.userIdIndex.erase userId⟩ callId).distinct h
        · intro c users hc
          simp only [lookup_put] at hc
          split at hc
          · obtain rfl := Option.some.inj hc
            exact (h callId userSet hl).erase userId
          · exact h c users hc

theorem put_exact_iff (m : CallManager) (h : Exact m) (callId userId : String) :
    Exact (m.put callId userId) ↔ Keeps m (.put callId userId) := by
  have husers : ∀ c, usersOf (m.put callId userId) c =
      if c = callId then (usersOf m callId).insert userId else usersOf m c := by
    intro c
    by_cases hc : c = callId
    · simp [usersOf, CallManager.put, hc]
    · simp [usersOf, CallManager.put, hc]
  have hindex : ∀ u, (m.put callId userId).userIdIndex.lookup u =
      if u = userId then some callId else m.userIdIndex.lookup u :=
    fun u => lookup_put m.userIdIndex userId u callId
  constructor
  · -- a set in which the user was before still has them
    intro hp c hc
    have hmem : userId ∈ usersOf m c := (h.members userId c).mpr hc
    have hmem' : userId ∈ usersOf (m.put callId userId) c := by
      rw [husers]
      split
      · exact List.mem_insert_self
      · exact hmem
    have := (hp.members userId c).mp hmem'
    rw [hindex, if_pos rfl] at this
    exact (Option.some.inj this).symm
  · intro hk
    refine ⟨fun u c => ?_, fun c => ?_⟩
    · rw [husers, hindex]
      by_cases hc : c = callId <;> by_cases hu : u = userId
      · simp [hc, hu]
      · simp [hc, hu, h.members]
      · subst hu
        simp only [if_neg hc, if_true, h.members]
        exact ⟨fun hi => absurd (hk c hi) hc, fun he => absurd (Option.some.inj he).symm hc⟩
      · simp [hc, hu, h.members]
    · simp only [CallManager.put, lookup_put]
      split
      · intro he
        have hmem : userId ∈ ((m.callMap.lookup callId).getD []).insert userId :=
          List.mem_insert_self
        rw [Option.some.inj he] at hmem
        cases hmem
      · exact h.nonempty c

theorem remove_exact_iff (m : CallManager) (h : Exact m) (callId : String) :
    Exact (remove m callId) ↔ Keeps m (.remove callId) := by
  cases hl : m.callMap.lookup callId with
  | none =>
    have hr : remove m callId = m := by rw [remove_eq, hl]
    rw [hr]
    exact ⟨fun _ => hl, fun _ => h⟩
  | some users =>
    -- the index keeps a user of a call whose set is gone
    have hbroken : ¬ Exact (remove m callId) := by
      intro hr
      obtain ⟨u, hu⟩ := List.exists_mem_of_ne_nil users fun he => h.nonempty callId (he ▸ hl)
      have hi := (h.members u callId).mp (by simpa [usersOf, hl] using hu)
      rw [← (remove_shrinks m callId).index] at hi
      have hmem := (hr.members u callId).mpr hi
      rw [usersOf, lookup_remove_self] at hmem
      cases hmem
    exact ⟨fun hr => absurd hr hbroken, fun hk => by rw [Keeps, hl] at hk; cases hk⟩

section
variable {m : CallManager} {userId callId : String}

/-- The indexed call of a user has a set, with that user in it. -/
theorem Exact.userSet (h : Exact m) (hi : m.userIdIndex.lookup userId = some callId) :
    ∃ userSet, m.callMap.lookup callId = some userSet ∧ userId ∈ userSet := by
  have hmem := (h.members userId callId).mpr hi
  unfold usersOf at hmem
  cases hl : m.callMap.lookup callId with
  | none => rw [hl] at hmem; cases hmem
  | some userSet => exact ⟨userSet, rfl, by simpa [hl] using hmem⟩

/-- A user is in no other call than the indexed one. -/
theorem Exact.notMem_other (h : Exact m) (hi : m.userIdIndex.lookup userId = some callId) {c : String}
    (hc : c ≠ callId) : userId ∉ usersOf m c := by
  rw [h.members, hi]
  exact fun he => hc (Option.some.inj he).symm

/-- Where the two views agree, `removeByUserId` raises nothing. -/
theorem removeByUserId_ok (h : Exact m) (userId : String) : (removeByUserId m userId).2 = none := by
  unfold removeByUserId
  cases hi : m.userIdIndex.lookup userId with
  | none => rfl
  | some callId =>
    obtain ⟨userSet, hl, -⟩ := h.userSet hi
    simp only [hl]
    split <;> rfl

/-- The user leaves a call that others stay in. -/
theorem exact_leave (h : Exact m) (hi : m.userIdIndex.lookup userId = some callId)
    {userSet : List String} (hl : m.callMap.lookup callId = some userSet) (hnodup : userSet.Nodup)
    (hlen : userSet.length ≠ 1) :
    Exact ⟨m.callMap.insert callId (userSet.erase userId), m.userIdIndex.erase userId⟩ := by
  have hset : ∀ u, u ∈ userSet ↔ m.userIdIndex.lookup u = some callId := by
    intro u
    rw [← h.members u callId, usersOf, hl]
    rfl
  have hin : userId ∈ userSet := (hset userId).mpr hi
  refine ⟨fun u c => ?_, fun c => ?_⟩
  · by_cases hc : c = callId
    · subst hc
      by_cases hu : u = userId
      · simp [usersOf, hu, hnodup.mem_erase_iff]
      · simp [usersOf, hu, hnodup.mem_erase_iff, hset]
    · by_cases hu : u = userId
      · subst hu
        simpa [usersOf, hc] using h.notMem_other hi hc
      · simpa [usersOf, hc, hu] using h.members u c
  · simp only [lookup_put]
    split
    · intro he
      have hlen' := List.length_erase_of_mem hin
      have hpos := List.length_pos_of_mem hin
      rw [Option.some.inj he, List.length_nil] at hlen'
      omega
    · exact h.nonempty c

/-- The only user of a call leaves, and its set goes. -/
theorem exact_leave_last (h : Exact m) (hl : m.callMap.lookup callId = some [userId]) :
    Exact ⟨m.callMap.erase callId, m.userIdIndex.erase userId⟩ := by
  have hset : ∀ u, u = userId ↔ m.userIdIndex.lookup u = some callId := by
    intro u
    rw [← h.members u callId, usersOf, hl]
    simp
  refine ⟨fun u c => ?_, fun c => ?_⟩
  · by_cases hc : c = callId
    · subst hc
      by_cases hu : u = userId
      · simp [usersOf, hu]
      · simpa [usersOf, hu] using fun hi => hu ((hset u).mpr hi)
    · by_cases hu : u = userId
      · subst hu
        simpa [usersOf, hc] using h.notMem_other ((hset u).mp rfl) hc
      · simpa [usersOf, hc, hu] using h.members u c
  · simp only [lookup_remove]
    split
    · simp
    · exact h.nonempty c

end

theorem removeByUserId_exact_iff (m : CallManager) (h : Exact m) (hd : Distinct m) (userId : String) :
    Exact (removeByUserId m userId).1 ↔ Keeps m (.removeByUserId userId) := by
  unfold removeByUserId
  cases hi : m.userIdIndex.lookup userId with
  | none =>
    refine ⟨fun _ c hc => ?_, fun _ => h⟩
    rw [hi] at hc
    cases hc
  | some callId =>
    obtain ⟨userSet, hl, hin⟩ := h.userSet hi
    simp only [hl]
    by_cases hlen : userSet.length = 1
    · obtain ⟨v, rfl⟩ := List.length_eq_one_iff.mp hlen
      obtain rfl : userId = v := List.mem_singleton.mp hin
      have hremove : remove ⟨m.callMap, m.userIdIndex.erase userId⟩ callId =
          remove ⟨m.callMap.erase callId, m.userIdIndex.erase userId⟩ userId := by
        rw [remove_eq]
        simp only [hl, List.foldl_cons, List.foldl_nil]
      simp only [hlen, if_true, hremove]
      have hkeeps : Keeps m (.removeByUserId userId) ↔
          (m.callMap.erase callId).lookup userId = none := by
        simp only [Keeps, hi, Option.mem_some_iff, forall_eq', hl, forall_const, lookup_remove]
        by_cases hc : userId = callId
        · simp [hc]
        · simp [hc]
      rw [hkeeps]
      -- a call that has the user's id would go too
      exact remove_exact_iff _ (exact_leave_last h hl) userId
    · simp only [hlen, if_false]
      refine ⟨fun _ c hc hs => ?_, fun _ => exact_leave h hi hl (hd callId userSet hl) hlen⟩
      rw [hi] at hc
      obtain rfl := Option.some.inj hc
      rw [hl] at hs
      exact absurd (by rw [Option.some.inj hs]; rfl) hlen

theorem step_exact_iff (m : CallManager) (op : Op) (hd : Distinct m) (h : Exact m) :
    Exact (step m op) ↔ Keeps m op := by
  cases op with
  | put callId userId => exact put_exact_iff m h callId userId
  | remove callId => exact remove_exact_iff m h callId
  | removeByUserId userId => exact removeByUserId_exact_iff m h hd userId

theorem empty_exact : Exact CallManager.empty :=
  ⟨fun u c => by simp [usersOf, CallManager.empty], fun c => by simp [CallManager.empty]⟩

/-- The views agree after every call of a sequence, and `removeByUserId` meets no indexed call
without a set, exactly when all its calls meet the condition. -/
theorem exact_throughout_iff (ops : List Op) :
    Throughout step (fun m => Exact m ∧ ∀ userId, (removeByUserId m userId).2 = none) CallManager.empty ops ↔
      Along step Keeps CallManager.empty ops := by
  have hexact : Throughout step Exact CallManager.empty ops ↔ Along step Keeps CallManager.empty ops :=
    throughout_iff_along (fun m op hd _ => step_distinct m op hd) step_exact_iff _ ops
      (fun c users hc => by simp [CallManager.empty] at hc) empty_exact
  rw [← hexact]
  constructor
  · exact Throughout.mono (fun m h => h.1) _ ops
  · exact Throughout.mono (fun m h => ⟨h, removeByUserId_ok h⟩) _ ops

/-- A user who moves stays in the old set; a removed call stays in the index, and
`removeByUserId` then meets an indexed call without a set. -/
theorem not_exact_moved_or_removed :
    ¬ Exact (run step CallManager.empty [.put "c1" "u", .put "c2" "u"]) ∧
      ¬ Exact (run step CallManager.empty [.put "c1" "u", .remove "c1"]) ∧
      (removeByUserId (run step CallManager.empty [.put "c1" "u", .remove "c1"]) "u").2 =
        some .nullPointer := by
  refine ⟨fun h => ?_, fun h => ?_, by decide +kernel⟩
  · have hindex := (h.members "u" "c1").mp (by decide +kernel)
    revert hindex
    decide +kernel
  · have hmem := (h.members "u" "c1").mpr (by decide +kernel)
    revert hmem
    decide +kernel

/-! ## The other calls

A nested `remove` finds a set only where a user of the call has the id of
another call, so such a user is what takes other calls away.
-/

/-- The calls of `remove` on the listed ids return, with the manager that they leave. -/
inductive Removes : List String → CallManager → CallManager → Prop where
  | nil {m : CallManager} : Removes [] m m
  | absent {m m' : CallManager} {callId : String} {rest : List String}
      (h : m.callMap.lookup callId = none) (later : Removes rest m m') : Removes (callId :: rest) m m'
  | present {m m' m'' : CallManager} {callId : String} {rest userIdSet : List String}
      (h : m.callMap.lookup callId = some userIdSet)
      (nested : Removes userIdSet { m with callMap := m.callMap.erase callId } m')
      (later : Removes rest m' m'') : Removes (callId :: rest) m m''

/-- The set is taken out before its users are passed on, so cycles among the ids end as well. -/
theorem foldl_removes (n : Nat) (callIds : List String) (m : CallManager)
    (hn : m.callMap.entries.length ≤ n) : Removes callIds m (callIds.foldl remove m) := by
  induction n generalizing callIds m with
  | zero =>
    have hnone := lookup_of_length m.callMap (Nat.le_zero.mp hn)
    induction callIds with
    | nil => exact .nil
    | cons callId rest ih =>
      have hstay : remove m callId = m := by rw [remove_eq, hnone]
      rw [List.foldl_cons, hstay]
      exact .absent (hnone callId) ih
  | succ n ih =>
    induction callIds generalizing m with
    | nil => exact .nil
    | cons callId rest ihrest =>
      have hlen : (remove m callId).callMap.entries.length ≤ m.callMap.entries.length :=
        length_removeNested _ m callId
      have hrest := ihrest (remove m callId) (Nat.le_trans hlen hn)
      rw [List.foldl_cons]
      cases h : m.callMap.lookup callId with
      | none =>
        have hstay : remove m callId = m := by rw [remove_eq, h]
        rw [hstay] at hrest ⊢
        exact .absent h hrest
      | some userIdSet =>
        have herase := length_erase m.callMap callId userIdSet h
        have hsmall : (m.callMap.erase callId).entries.length ≤ n := by omega
        have hnested := ih userIdSet { m with callMap := m.callMap.erase callId } hsmall
        have hremove : remove m callId =
            userIdSet.foldl remove { m with callMap := m.callMap.erase callId } := by
          rw [remove_eq, h]
        rw [← hremove] at hnested
        exact .present h hnested hrest

theorem foldl_remove_absent (callIds : List String) (m : CallManager)
    (h : ∀ callId ∈ callIds, m.callMap.lookup callId = none) : callIds.foldl remove m = m := by
  induction callIds with
  | nil => rfl
  | cons callId rest ih =>
    have hstay : remove m callId = m := by rw [remove_eq, h callId List.mem_cons_self]
    rw [List.foldl_cons, hstay]
    exact ih fun c hc => h c (List.mem_cons_of_mem callId hc)

theorem foldl_remove_gone {callIds : List String} {callId : String} (hmem : callId ∈ callIds)
    (m : CallManager) : (callIds.foldl remove m).callMap.lookup callId = none := by
  induction callIds generalizing m with
  | nil => cases hmem
  | cons c rest ih =>
    rw [List.foldl_cons]
    rcases List.mem_cons.mp hmem with rfl | hrest
    · rcases (foldl_shrinks remove_shrinks rest (remove m callId)).callMap callId with hc | hc
      · exact hc.trans (lookup_remove_self m callId)
      · exact hc
    · exact ih hrest (remove m c)

/-- No user of the call has the id of another call. -/
def Apart (m : CallManager) (callId : String) : Prop :=
  ∀ u ∈ usersOf m callId, u ≠ callId → m.callMap.lookup u = none

theorem remove_apart_iff (m : CallManager) (callId : String) :
    (∀ c, c ≠ callId → (remove m callId).callMap.lookup c = m.callMap.lookup c) ↔ Apart m callId := by
  unfold Apart usersOf
  cases h : m.callMap.lookup callId with
  | none =>
    have hstay : remove m callId = m := by rw [remove_eq, h]
    simp [hstay]
  | some users =>
    have hremove : remove m callId = users.foldl remove { m with callMap := m.callMap.erase callId } := by
      rw [remove_eq, h]
    rw [hremove]
    constructor
    · intro hframe u hu hne
      rw [← hframe u hne]
      exact foldl_remove_gone hu _
    · intro hapart c hc
      have hgone : ∀ u ∈ users, (m.callMap.erase callId).lookup u = none := by
        intro u hu
        rw [lookup_remove]
        split
        · rfl
        · rename_i hne
          exact hapart u hu hne
      rw [foldl_remove_absent users { m with callMap := m.callMap.erase callId } hgone]
      rw [lookup_remove, if_neg hc]

/-- `remove` returns after every sequence of calls; it leaves the sets of the other
calls alone exactly when none of the users it meets has the id of one. -/
theorem remove_returns_and_keeps_iff (ops : List Op) (callId : String) :
    let m := run step CallManager.empty ops
    Removes [callId] m (remove m callId) ∧
      ((∀ c, c ≠ callId → (remove m callId).callMap.lookup c = m.callMap.lookup c) ↔ Apart m callId) :=
  ⟨foldl_removes _ [callId] _ (Nat.le_refl _), remove_apart_iff _ callId⟩

/-- A user of `c1` has chosen the id of the call `c2`. -/
theorem remove_takes_other_call :
    let m := run step CallManager.empty [.put "c1" "c2", .put "c2" "u"]
    m.callMap.lookup "c2" = some ["u"] ∧ (remove m "c1").callMap.lookup "c2" = none := by
  decide +kernel

end ChatCalls

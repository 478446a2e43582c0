import SpringStudy.Runs
import SpringStudy.MediaBuffer

/-!
# The buffers of a user

`release` finds the buffers of a user through `userIdIndex`, which gets a key when
its buffer is made and never loses one. Whoever holds a buffer may use it at any
time, also after its release.
-/
namespace MediaBufferIndex

open Tables Runs MediaBuffer

inductive Event where
  | getCandidateBuffer (key : BufferKey)
  | release (userId : String)
  /-- A holder of the buffer with this id caches a candidate. -/
  | cache (id : Nat) (candidate : IceCandidate)
  | flush (id : Nat)
  deriving DecidableEq, Repr

/-- The buffer with this id is changed, if it still is in the map. -/
def modify (m : BufferManger) (id : Nat) (f : CandidateBuffer → CandidateBuffer) : BufferManger :=
  { m with bufferMap := mapValues (fun b => if b.id = id then f b else b) m.bufferMap }

def step (m : BufferManger) : Event → BufferManger
  | .getCandidateBuffer key => (m.getCandidateBuffer key).1
  | .release userId => m.release userId
  | .cache id candidate => modify m id fun b => (b.cache candidate).1
  | .flush id => modify m id fun b => b.flushed.1

/-! ## What the operations do to the map -/

/-- The index set of the user with the key added. -/
def withKey (m : BufferManger) (key : BufferKey) : List BufferKey :=
  ((m.userIdIndex.lookup key.userId).getD []).insert key

theorem getCandidateBuffer_absent {m : BufferManger} {key : BufferKey} (h : m.bufferMap.lookup key = none) :
    m.getCandidateBuffer key =
      (⟨m.bufferMap.insert key ⟨m.built, [], false⟩, m.userIdIndex.insert key.userId (withKey m key),
        m.built + 1⟩, ⟨m.built, [], false⟩) := by
  rw [BufferManger.getCandidateBuffer, h]
  rfl

theorem lookup_modify (m : BufferManger) (id : Nat) (f : CandidateBuffer → CandidateBuffer) (key : BufferKey) :
    (modify m id f).bufferMap.lookup key =
      (m.bufferMap.lookup key).map fun b => if b.id = id then f b else b :=
  lookup_mapValues _ _ _

theorem lookup_foldl_erase (keys : List BufferKey) (t : Table BufferKey CandidateBuffer) (key : BufferKey) :
    (keys.foldl (fun t k => t.erase k) t).lookup key = if key ∈ keys then none else t.lookup key := by
  induction keys generalizing t with
  | nil => simp
  | cons k keys ih =>
    rw [List.foldl_cons, ih, lookup_remove]
    by_cases hk : key = k
    · simp [hk]
    · simp [hk]

@[simp] theorem cache_id (b : CandidateBuffer) (candidate : IceCandidate) : (b.cache candidate).1.id = b.id := by
  unfold CandidateBuffer.cache
  split <;> rfl

/-! ## The index is complete -/

structure Indexed (m : BufferManger) : Prop where
  complete : ∀ key b, m.bufferMap.lookup key = some b →
    ∃ keys, m.userIdIndex.lookup key.userId = some keys ∧ key ∈ keys
  /-- The set of a user has keys of that user only. -/
  own : ∀ userId keys, m.userIdIndex.lookup userId = some keys → ∀ key ∈ keys, key.userId = userId
  built : ∀ key b, m.bufferMap.lookup key = some b → b.id < m.built
  distinct : ∀ key key' b b', m.bufferMap.lookup key = some b → m.bufferMap.lookup key' = some b' →
    b.id = b'.id → key = key'

theorem lookup_release {m : BufferManger} (h : Indexed m) (userId : String) (key : BufferKey) :
    (m.release userId).bufferMap.lookup key =
      if key.userId = userId then none else m.bufferMap.lookup key := by
  unfold BufferManger.release
  cases hkeys : m.userIdIndex.lookup userId with
  | none =>
    show m.bufferMap.lookup key = _
    split
    · next huser =>
      -- a buffer of the user would have its key in the index
      cases hb : m.bufferMap.lookup key with
      | none => rfl
      | some b =>
        obtain ⟨keys, hset, -⟩ := h.complete key b hb
        rw [huser, hkeys] at hset
        cases hset
    · rfl
  | some keys =>
    show (keys.foldl (fun t k => t.erase k) m.bufferMap).lookup key = _
    rw [lookup_foldl_erase]
    by_cases huser : key.userId = userId
    · rw [if_pos huser]
      split
      · rfl
      · next hmem =>
        cases hb : m.bufferMap.lookup key with
        | none => rfl
        | some b =>
          obtain ⟨keys', hset, hin⟩ := h.complete key b hb
          rw [huser, hkeys] at hset
          cases hset
          exact absurd hin hmem
    · rw [if_neg huser, if_neg fun hmem => huser (h.own userId keys hkeys key hmem)]

theorem release_index (m : BufferManger) (userId : String) :
    (m.release userId).userIdIndex = m.userIdIndex ∧ (m.release userId).built = m.built := by
  unfold BufferManger.release
  split
  · exact ⟨rfl, rfl⟩
  · exact ⟨rfl, rfl⟩

theorem release_indexed {m : BufferManger} (h : Indexed m) (userId : String) : Indexed (m.release userId) := by
  obtain ⟨hindex, hbuilt⟩ := release_index m userId
  have hold : ∀ key b, (m.release userId).bufferMap.lookup key = some b → m.bufferMap.lookup key = some b := by
    intro key b hb
    rw [lookup_release h] at hb
    split at hb
    · cases hb
    · exact hb
  refine ⟨?_, ?_, ?_, ?_⟩
  · intro key b hb
    rw [hindex]
    exact h.complete key b (hold key b hb)
  · rw [hindex]
    exact h.own
  · intro key b hb
    rw [hbuilt]
    exact h.built key b (hold key b hb)
  · intro key key' b b' hb hb'
    exact h.distinct key key' b b' (hold key b hb) (hold key' b' hb')

theorem modify_indexed {m : BufferManger} (h : Indexed m) (id : Nat) {f : CandidateBuffer → CandidateBuffer}
    (hf : ∀ b, (f b).id = b.id) : Indexed (modify m id f) := by
  have hold : ∀ key b, (modify m id f).bufferMap.lookup key = some b →
      ∃ b₀, m.bufferMap.lookup key = some b₀ ∧ b₀.id = b.id := by
    intro key b hb
    rw [lookup_modify] at hb
    obtain ⟨b₀, hb₀, rfl⟩ := Option.map_eq_some_iff.mp hb
    refine ⟨b₀, hb₀, ?_⟩
    split
    · exact (hf b₀).symm
    · rfl
  refine ⟨?_, h.own, ?_, ?_⟩
  · intro key b hb
    obtain ⟨b₀, hb₀, -⟩ := hold key b hb
    exact h.complete key b₀ hb₀
  · intro key b hb
    obtain ⟨b₀, hb₀, hid⟩ := hold key b hb
    exact hid ▸ h.built key b₀ hb₀
  · intro key key' b b' hb hb' heq
    obtain ⟨b₀, hb₀, hid⟩ := hold key b hb
    obtain ⟨b₁, hb₁, hid'⟩ := hold key' b' hb'
    exact h.distinct key key' b₀ b₁ hb₀ hb₁ (by rw [hid, hid', heq])

theorem getCandidateBuffer_indexed {m : BufferManger} (h : Indexed m) (key : BufferKey) :
    Indexed (m.getCandidateBuffer key).1 := by
  cases hb : m.bufferMap.lookup key with
  | some b =>
    rw [getCandidateBuffer_present hb]
    exact h
  | none =>
    rw [getCandidateBuffer_absent hb]
    refine ⟨?_, ?_, ?_, ?_⟩
    · intro k b hk
      rw [lookup_put] at hk ⊢
      by_cases huser : k.userId = key.userId
      · refine ⟨withKey m key, if_pos huser, ?_⟩
        by_cases hkey : k = key
        · exact hkey ▸ List.mem_insert_self
        · rw [if_neg hkey] at hk
          obtain ⟨keys, hset, hin⟩ := h.complete k b hk
          rw [huser] at hset
          rw [withKey, hset]
          exact List.mem_insert_of_mem hin
      · have hkey : k ≠ key := fun heq => huser (heq ▸ rfl)
        rw [if_neg hkey] at hk
        rw [if_neg huser]
        exact h.complete k b hk
    · intro userId keys hkeys k hk
      rw [lookup_put] at hkeys
      split at hkeys
      · next huser =>
        obtain rfl := Option.some.inj hkeys
        rcases List.mem_insert_iff.mp hk with rfl | hk
        · exact huser.symm
        · cases hset : m.userIdIndex.lookup key.userId with
          | none =>
            rw [hset] at hk
            cases hk
          | some keys =>
            rw [hset] at hk
            rw [huser]
            exact h.own _ keys hset k hk
      · exact h.own userId keys hkeys k hk
    · intro k b hk
      rw [lookup_put] at hk
      split at hk
      · cases hk
        exact Nat.lt_succ_self _
      · exact Nat.lt_succ_of_lt (h.built k b hk)
    · intro k k' b b' hk hk' heq
      rw [lookup_put] at hk hk'
      split at hk <;> split at hk'
      · next h₁ h₂ => rw [h₁, h₂]
      · cases hk
        exact absurd heq (Nat.ne_of_gt (h.built k' b' hk'))
      · cases hk'
        exact absurd heq (Nat.ne_of_lt (h.built k b hk))
      · exact h.distinct k k' b b' hk hk' heq

theorem step_indexed (m : BufferManger) (e : Event) (h : Indexed m) : Indexed (step m e) := by
  cases e with
  | getCandidateBuffer key => exact getCandidateBuffer_indexed h key
  | release userId => exact release_indexed h userId
  | cache id candidate => exact modify_indexed h id fun b => cache_id b candidate
  | flush id => exact modify_indexed h id fun _ => rfl

theorem empty_indexed : Indexed .empty where
  complete := fun _ _ hb => by cases hb
  own := fun _ _ hkeys => by cases hkeys
  built := fun _ _ hb => by cases hb
  distinct := fun _ _ _ _ hb => by cases hb

theorem run_indexed (events : List Event) : Indexed (run step .empty events) :=
  run_invariant step_indexed _ events empty_indexed

/-! ## `cache` and `flush` through the key

The message handlers fetch the buffer and use it at once. -/

/-- To change the buffer of a key is to change the buffer with its id. -/
theorem lookup_insert_eq_modify {m : BufferManger} (h : Indexed m) {key : BufferKey} {b : CandidateBuffer}
    (hb : m.bufferMap.lookup key = some b) (f : CandidateBuffer → CandidateBuffer) (k : BufferKey) :
    (m.bufferMap.insert key (f b)).lookup k = (modify m b.id f).bufferMap.lookup k := by
  rw [lookup_put, lookup_modify]
  by_cases hk : k = key
  · rw [if_pos hk, hk, hb, Option.map_some, if_pos rfl]
  · rw [if_neg hk]
    cases hb' : m.bufferMap.lookup k with
    | none => rfl
    | some b' => rw [Option.map_some, if_neg fun hid => hk (h.distinct k key b' b hb' hb hid)]

theorem cache_eq_run {m : BufferManger} (h : Indexed m) (key : BufferKey) (candidate : IceCandidate) (k : BufferKey) :
    (m.cache key candidate).1.bufferMap.lookup k =
      (run step m [.getCandidateBuffer key, .cache (m.getCandidateBuffer key).2.id candidate]).bufferMap.lookup k :=
  lookup_insert_eq_modify (getCandidateBuffer_indexed h key) (lookup_getCandidateBuffer_self m key)
    (fun b => (b.cache candidate).1) k

theorem flushBuffer_eq_run {m : BufferManger} (h : Indexed m) (key : BufferKey) (k : BufferKey) :
    (m.flushBuffer key).1.bufferMap.lookup k =
      (run step m [.getCandidateBuffer key, .flush (m.getCandidateBuffer key).2.id]).bufferMap.lookup k :=
  lookup_insert_eq_modify (getCandidateBuffer_indexed h key) (lookup_getCandidateBuffer_self m key)
    (fun b => b.flushed.1) k

/-- Only what is looked up counts, not the order of the entries. -/
theorem Indexed.congr {m m' : BufferManger} (h : Indexed m)
    (hmap : ∀ k, m'.bufferMap.lookup k = m.bufferMap.lookup k) (hindex : m'.userIdIndex = m.userIdIndex)
    (hbuilt : m'.built = m.built) : Indexed m' where
  complete key b hb := hindex ▸ h.complete key b (hmap key ▸ hb)
  own := hindex ▸ h.own
  built key b hb := hbuilt ▸ h.built key b (hmap key ▸ hb)
  distinct key key' b b' hb hb' := h.distinct key key' b b' (hmap key ▸ hb) (hmap key' ▸ hb')

theorem cache_indexed {m : BufferManger} (h : Indexed m) (key : BufferKey) (candidate : IceCandidate) :
    Indexed (m.cache key candidate).1 :=
  (run_invariant step_indexed _ _ h).congr (cache_eq_run h key candidate) rfl rfl

theorem flushBuffer_indexed {m : BufferManger} (h : Indexed m) (key : BufferKey) :
    Indexed (m.flushBuffer key).1 :=
  (run_invariant step_indexed _ _ h).congr (flushBuffer_eq_run h key) rfl rfl

/-! ## One buffer over a run -/

/-- Only `getCandidateBuffer` of a key brings a buffer under it. -/
theorem step_absent (key : BufferKey) (m : BufferManger) (e : Event) (he : e ≠ .getCandidateBuffer key)
    (h : Indexed m ∧ m.bufferMap.lookup key = none) :
    Indexed (step m e) ∧ (step m e).bufferMap.lookup key = none := by
  refine ⟨step_indexed m e h.1, ?_⟩
  cases e with
  | getCandidateBuffer k =>
    have hne : key ≠ k := fun heq => he (heq ▸ rfl)
    exact (getCandidateBuffer_others m k key hne).trans h.2
  | release userId =>
    rw [step, lookup_release h.1, h.2, ite_self]
  | cache id candidate => rw [step, lookup_modify, h.2, Option.map_none]
  | flush id => rw [step, lookup_modify, h.2, Option.map_none]

/-- The buffer under the key is the object with this id. -/
def HasBuffer (m : BufferManger) (key : BufferKey) (id : Nat) : Prop :=
  ∃ b, m.bufferMap.lookup key = some b ∧ b.id = id

theorem modify_hasBuffer {m : BufferManger} {key : BufferKey} {n : Nat} (h : HasBuffer m key n) (id : Nat)
    {f : CandidateBuffer → CandidateBuffer} (hf : ∀ b, (f b).id = b.id) : HasBuffer (modify m id f) key n := by
  obtain ⟨b, hb, rfl⟩ := h
  refine ⟨if b.id = id then f b else b, by rw [lookup_modify, hb, Option.map_some], ?_⟩
  split
  · exact hf b
  · rfl

/-- Only a release of its user takes a buffer away. -/
theorem step_hasBuffer (key : BufferKey) (id : Nat) (m : BufferManger) (e : Event) (he : e ≠ .release key.userId)
    (h : Indexed m ∧ HasBuffer m key id) : Indexed (step m e) ∧ HasBuffer (step m e) key id := by
  refine ⟨step_indexed m e h.1, ?_⟩
  obtain ⟨hindexed, b, hb, rfl⟩ := h
  cases e with
  | getCandidateBuffer k =>
    by_cases hk : key = k
    · exact ⟨b, by rw [step, ← hk, getCandidateBuffer_present hb, hb], rfl⟩
    · exact ⟨b, (getCandidateBuffer_others m k key hk).trans hb, rfl⟩
  | release userId =>
    have hne : key.userId ≠ userId := fun heq => he (heq ▸ rfl)
    exact ⟨b, by rw [step, lookup_release hindexed, if_neg hne, hb], rfl⟩
  | cache n candidate => exact modify_hasBuffer ⟨b, hb, rfl⟩ n fun b => cache_id b candidate
  | flush n => exact modify_hasBuffer ⟨b, hb, rfl⟩ n fun _ => rfl

/-! ## Buffers that have been handed out -/

def returned (m : BufferManger) : Event → Option CandidateBuffer
  | .getCandidateBuffer key => some (m.getCandidateBuffer key).2
  | _ => none

/-- What the calls of `getCandidateBuffer` in the run have returned. -/
def handedOut (m : BufferManger) (events : List Event) : List CandidateBuffer :=
  (history step m events).filterMap fun p => returned p.1 p.2

theorem step_built (m : BufferManger) (e : Event) : m.built ≤ (step m e).built := by
  cases e with
  | getCandidateBuffer key =>
    cases hb : m.bufferMap.lookup key with
    | some b => rw [step, getCandidateBuffer_present hb]
    | none =>
      rw [step, getCandidateBuffer_absent hb]
      exact Nat.le_succ _
  | release userId => exact Nat.le_of_eq (release_index m userId).2.symm
  | cache id candidate => exact Nat.le_refl _
  | flush id => exact Nat.le_refl _

theorem run_built (m : BufferManger) (events : List Event) : m.built ≤ (run step m events).built :=
  run_invariant (I := fun t => m.built ≤ t.built) (fun t e h => Nat.le_trans h (step_built t e)) m events
    (Nat.le_refl _)

theorem returned_built {m : BufferManger} (h : Indexed m) {e : Event} {b : CandidateBuffer}
    (hb : returned m e = some b) : b.id < (step m e).built := by
  cases e with
  | getCandidateBuffer key =>
    obtain rfl := Option.some.inj hb
    exact (getCandidateBuffer_indexed h key).built key _ (lookup_getCandidateBuffer_self m key)
  | release userId | cache id candidate | flush id => cases hb

theorem handedOut_built (m : BufferManger) (h : Indexed m) (events : List Event) :
    ∀ b ∈ handedOut m events, b.id < (run step m events).built := by
  induction events generalizing m with
  | nil => exact fun _ hb => absurd hb List.not_mem_nil
  | cons e events ih =>
    intro b hb
    obtain ⟨p, hp, hreturned⟩ := List.mem_filterMap.mp hb
    rcases List.mem_cons.mp hp with rfl | hp
    · exact Nat.lt_of_lt_of_le (returned_built h hreturned) (run_built _ events)
    · exact ih (step m e) (step_indexed m e h) b (List.mem_filterMap.mpr ⟨p, hp, hreturned⟩)

/-! ## Release -/

/-- Every buffer is indexed under its user, and a release takes exactly the buffers of its user away. -/
structure ReleasesAll (m : BufferManger) : Prop where
  indexed : ∀ key b, m.bufferMap.lookup key = some b →
    ∃ keys, m.userIdIndex.lookup key.userId = some keys ∧ key ∈ keys
  gone : ∀ key, (m.release key.userId).bufferMap.lookup key = none
  others : ∀ userId key, key.userId ≠ userId →
    (m.release userId).bufferMap.lookup key = m.bufferMap.lookup key

theorem Indexed.releasesAll {m : BufferManger} (h : Indexed m) : ReleasesAll m where
  indexed := h.complete
  gone key := by rw [lookup_release h, if_pos rfl]
  others userId key hne := by rw [lookup_release h, if_neg hne]

/-- A buffer that takes candidates, has none and is none of the `old` ones. -/
structure Fresh (old : List CandidateBuffer) (b : CandidateBuffer) : Prop where
  buffer : b.buffer = []
  flush : b.flush = false
  new : ∀ o ∈ old, o.id ≠ b.id

/-- After any calls, a release takes all buffers of its user away and no others. The first buffer
that a key gets after it is a fresh one, and a key keeps its buffer until the next release
of the user. -/
theorem release_complete_and_fresh (events : List Event) :
    ReleasesAll (run step .empty events) ∧
    (∀ key between, .getCandidateBuffer key ∉ between →
      Fresh (handedOut .empty (events ++ .release key.userId :: between))
        ((run step .empty (events ++ .release key.userId :: between)).getCandidateBuffer key).2) ∧
    (∀ key between, .release key.userId ∉ between →
      ((run step .empty (events ++ .getCandidateBuffer key :: between)).getCandidateBuffer key).2.id =
        ((run step .empty events).getCandidateBuffer key).2.id) := by
  have h := run_indexed events
  refine ⟨h.releasesAll, ?_, ?_⟩
  · intro key between hbetween
    have hnone : (run step .empty (events ++ .release key.userId :: between)).bufferMap.lookup key = none := by
      rw [run_append, run_cons]
      refine (run_invariant_of_mem (fun m e he => step_absent key m e fun heq => hbetween (heq ▸ he)) _ ?_).2
      exact ⟨release_indexed h key.userId, h.releasesAll.gone key⟩
    rw [getCandidateBuffer_absent hnone]
    refine ⟨rfl, rfl, ?_⟩
    intro old hold
    exact Nat.ne_of_lt (handedOut_built .empty empty_indexed _ old hold)
  · intro key between hbetween
    rw [run_append, run_cons]
    have hkept := run_invariant_of_mem
      (fun m e he => step_hasBuffer key ((run step .empty events).getCandidateBuffer key).2.id m e
        fun heq => hbetween (heq ▸ he))
      (step (run step .empty events) (.getCandidateBuffer key))
      ⟨step_indexed _ _ h, _, lookup_getCandidateBuffer_self _ key, rfl⟩
    obtain ⟨-, b, hb, hid⟩ := hkept
    rw [getCandidateBuffer_present hb]
    exact hid

end MediaBufferIndex

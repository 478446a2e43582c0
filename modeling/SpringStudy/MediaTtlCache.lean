import SpringStudy.TtlTimers

/-!
# `CommonTtlCache` under its callers and its timer tasks

First the calls and the timer tasks are taken as atomic, and the cache is shown
to be the map its callers think of. Then a timer task is cut into the three
calls it is made of: `isExpired` and `remove` take the cache's monitor one after
the other, and the consumer is run outside of it.
-/
namespace MediaTtlCache

open Tables TtlCaches TtlTimers Runs

variable {κ γ : Type} [DecidableEq κ]

/-- The public methods of `CommonTtlCache`. -/
inductive Call (κ γ : Type)
  | put (key : κ) (value : γ) (ttl : Int) (timeUnit : TimeUnit)
  | get (key : κ)
  | remove (key : κ)
  | clear

/-- `CommonTtlCache.isExpired` asks whether the time of the entry has come. -/
def call (s : State κ γ) : Call κ γ → State κ γ
  | .put key value ttl timeUnit => s.put key value (timeUnit.toMillis ttl)
  | .get key => { s with store := (TtlCaches.get hasCome s.store key s.clock).1 }
  | .remove key => s.remove key
  | .clear => { s with store := TtlCaches.clear s.store }

/-- What `get` returns to its caller. -/
def get (s : State κ γ) (key : κ) : Option γ :=
  (TtlCaches.get hasCome s.store key s.clock).2.map Registered.consumer

/-- The single thread of the executor runs a task to its end, or time passes, or
some thread makes a call. -/
inductive Event (κ γ : Type)
  | tick (millis : Nat)
  | call (c : Call κ γ)
  | fire (task : κ × Int)

def step (s : State κ γ) : Event κ γ → State κ γ
  | .tick millis => s.tick millis
  | .call c => call s c
  | .fire task => s.fire hasCome task

theorem call_coherent (s : State κ γ) (c : Call κ γ) (taken : List (Registered γ))
    (h : Coherent s.store s.puts taken) : Coherent (call s c).store (call s c).puts taken := by
  cases c with
  | put key value ttl timeUnit => exact coherent_put h key value _ s.clock
  | get key => exact coherent_get hasCome h key s.clock
  | remove key => exact coherent_remove h key
  | clear => exact coherent_clear h

theorem step_coherent (s : State κ γ) (e : Event κ γ) (h : Coherent s.store s.puts s.invoked) :
    Coherent (step s e).store (step s e).puts (step s e).invoked := by
  cases e with
  | tick millis => exact h
  | call c =>
    have hinvoked : (call s c).invoked = s.invoked := by cases c <;> rfl
    rw [step, hinvoked]
    exact call_coherent s c s.invoked h
  | fire task => exact coherent_fire hasCome h task s.clock

theorem run_coherent (start : Int) (events : List (Event κ γ)) :
    Coherent (run step (State.init start) events).store (run step (State.init start) events).puts
      (run step (State.init start) events).invoked :=
  run_invariant (I := fun s : State κ γ => Coherent s.store s.puts s.invoked) step_coherent _ events
    coherent_empty

/-! ## The latest call that affects a key -/

/-- `put`, `remove` and `clear` decide what is under a key; a reader or a timer does not. -/
def affects (k : κ) : Event κ γ → Bool
  | .call (.put key _ _ _) => key = k
  | .call (.remove key) => key = k
  | .call .clear => true
  | _ => false

def latest (k : κ) (h : List (State κ γ × Event κ γ)) : Option (State κ γ × Event κ γ) :=
  Runs.latest (fun _ e => affects k e) h

/-- What that call leaves under the key. -/
def left : Option (State κ γ × Event κ γ) → Option (γ × Int)
  | some (s, .call (.put _ value ttl timeUnit)) => some (value, s.clock + timeUnit.toMillis ttl)
  | _ => none

def contents (h : List (State κ γ × Event κ γ)) : Contents κ γ := fun k => left (latest k h)

/-- An event that affects no key leaves the contents as they are. -/
theorem contents_quiet (h : List (State κ γ × Event κ γ)) (s : State κ γ) (e : Event κ γ)
    (hq : ∀ k, affects k e = false) : contents (h ++ [(s, e)]) = contents h := by
  funext k
  simp [contents, latest, Runs.latest_snoc, hq k]

theorem contents_put (h : List (State κ γ × Event κ γ)) (s : State κ γ) (key : κ) (value : γ)
    (ttl : Int) (timeUnit : TimeUnit) :
    contents (h ++ [(s, .call (.put key value ttl timeUnit))]) =
      (contents h).put key value (s.clock + timeUnit.toMillis ttl) := by
  funext k
  by_cases hk : k = key
  · subst hk; simp [contents, latest, Runs.latest_snoc, affects, left, Contents.put]
  · simp [contents, latest, Runs.latest_snoc, affects, Contents.put, hk, Ne.symm hk]

theorem contents_remove (h : List (State κ γ × Event κ γ)) (s : State κ γ) (key : κ) :
    contents (h ++ [(s, .call (.remove key))]) = (contents h).remove key := by
  funext k
  by_cases hk : k = key
  · subst hk; simp [contents, latest, Runs.latest_snoc, affects, left, Contents.remove]
  · simp [contents, latest, Runs.latest_snoc, affects, Contents.remove, hk, Ne.symm hk]

theorem contents_clear (h : List (State κ γ × Event κ γ)) (s : State κ γ) :
    contents (h ++ [(s, .call .clear)]) = fun _ => none := by
  funext k
  simp [contents, latest, Runs.latest_snoc, affects, left]

/-! ## The cache refines the map -/

section
variable {s : State κ γ} {m : Contents κ γ} {taken : List (Registered γ)}

/-- An entry that `isExpired` reports may go unseen. -/
theorem holds_expired (hc : Coherent s.store s.puts taken) (h : Holds s.store m s.clock) (key : κ)
    (he : isExpired hasCome s.store key s.clock = true) :
    Holds (TtlCaches.remove s.store key).1 m s.clock := by
  refine holds_drop h key fun r hr => ?_
  obtain ⟨r', hr', hlate⟩ := (isExpired_eq hasCome hc key s.clock).mp he
  obtain rfl : r' = r := Option.some.inj (hr'.symm.trans hr)
  simpa [hasCome] using hlate

theorem holds_get (hc : Coherent s.store s.puts taken) (h : Holds s.store m s.clock) (key : κ) :
    Holds (TtlCaches.get hasCome s.store key s.clock).1 m s.clock := by
  unfold TtlCaches.get
  split
  · exact h
  · split
    · next he => exact holds_expired hc h key he
    · exact h

theorem holds_fire (hc : Coherent s.store s.puts taken) (h : Holds s.store m s.clock)
    (task : κ × Int) : Holds (s.fire hasCome task).store m s.clock := by
  unfold State.fire TtlCaches.fire timer
  simp only
  split
  · split
    · next he => exact holds_expired hc h task.1 he
    · exact h
  · exact h

/-- `get` reads the map. -/
theorem get_eq (hc : Coherent s.store s.puts taken) (h : Holds s.store m s.clock) (key : κ) :
    get s key = m.get key s.clock := by
  have hexp := isExpired_eq hasCome hc key s.clock
  unfold get TtlCaches.get Contents.get
  cases hl : s.store.cache.lookup key with
  | none =>
    rcases h key with hk | ⟨-, hall⟩
    · simp [← hk, hl]
    · cases hm : m key with
      | none => rfl
      | some e =>
        have := hall e hm
        simp [Int.not_lt.mpr this]
  | some r =>
    have hk : m key = some (r.consumer, r.expirationTime) := by
      rcases h key with hk | ⟨hn, -⟩
      · simp [← hk, hl]
      · rw [hl] at hn; cases hn
    simp only [hl, Option.some.injEq, exists_eq_left', hasCome, decide_eq_true_eq] at hexp
    by_cases hlt : s.clock < r.expirationTime
    · have hne : ¬ isExpired hasCome s.store key s.clock = true := by rw [hexp]; omega
      simp [hk, hlt, if_neg hne]
    · have he : isExpired hasCome s.store key s.clock = true := by rw [hexp]; omega
      simp [hk, hlt, if_pos he]

end

theorem step_holds (s : State κ γ) (e : Event κ γ) (h : List (State κ γ × Event κ γ))
    (hc : Coherent s.store s.puts s.invoked) (hh : Holds s.store (contents h) s.clock) :
    Holds (step s e).store (contents (h ++ [(s, e)])) (step s e).clock := by
  cases e with
  | tick millis =>
    rw [contents_quiet h s _ fun k => rfl]
    exact hh.mono _ (by show s.clock ≤ s.clock + (millis : Int); omega)
  | call c =>
    cases c with
    | put key value ttl timeUnit =>
      rw [contents_put]
      exact holds_put hh key value s.puts _
    | get key =>
      rw [contents_quiet h s _ fun k => rfl]
      exact holds_get hc hh key
    | remove key =>
      rw [contents_remove]
      exact holds_remove hh key
    | clear =>
      rw [contents_clear]
      exact holds_clear s.store s.clock
  | fire task =>
    rw [contents_quiet h s _ fun k => rfl]
    exact holds_fire hc hh task

theorem run_holds (start : Int) (events : List (Event κ γ)) :
    Holds (run step (State.init start) events).store
      (contents (history step (State.init start) events)) (run step (State.init start) events).clock := by
  -- from the right, so that the last event is the newest of the history
  induction events using List.reverseRecOn with
  | nil => exact fun k => .inl rfl
  | append_singleton es e ih =>
    rw [run_append, history_append]
    exact step_holds _ e _ (run_coherent start es) ih

/-- `get` returns a value exactly while the latest call that affects its key is a
`put` of that value that has not expired. -/
theorem get_returns_iff (start : Int) (events : List (Event κ γ)) (k : κ) (v : γ) :
    get (run step (State.init start) events) k = some v ↔
      ∃ t ttl timeUnit,
        latest k (history step (State.init start) events) =
          some (t, .call (.put k v ttl timeUnit)) ∧
        (run step (State.init start) events).clock < t.clock + timeUnit.toMillis ttl := by
  rw [get_eq (run_coherent start events) (run_holds start events) k, Contents.get, contents]
  cases hl : latest k (history step (State.init start) events) with
  | none => simp [left]
  | some p =>
    obtain ⟨t, e⟩ := p
    have ha := latest_relevant (fun _ e => affects k e) _ t e hl
    cases e with
    | tick millis => simp [affects] at ha
    | fire task => simp [affects] at ha
    | call c =>
      cases c with
      | get key => simp [affects] at ha
      | remove key => simp [left]
      | clear => simp [left]
      | put key value ttl timeUnit =>
        obtain rfl : key = k := by simpa [affects] using ha
        simp only [left, Option.ite_none_right_eq_some, Option.some.injEq, Prod.mk.injEq,
          Event.call.injEq, Call.put.injEq]
        constructor
        · rintro ⟨hlt, rfl⟩
          exact ⟨t, ttl, timeUnit, ⟨rfl, trivial, rfl, rfl, rfl⟩, hlt⟩
        · rintro ⟨t', ttl', timeUnit', ⟨rfl, -, rfl, rfl, rfl⟩, hlt⟩
          exact ⟨hlt, rfl⟩

/-! ## Timer tasks in three steps -/

/-- Where the executor's thread is: between two tasks, after an `isExpired` that
answered yes, or with what `remove` returned in its hands. -/
inductive Phase (κ γ : Type)
  | idle
  | checked (key : κ)
  | removed (key : κ) (removedValue : Option (Registered γ))

structure Interleaved (κ γ : Type) where
  state : State κ γ
  phase : Phase κ γ

def Interleaved.init (start : Int) : Interleaved κ γ := ⟨State.init start, .idle⟩

inductive SplitEvent (κ γ : Type)
  | tick (millis : Nat)
  | call (c : Call κ γ)
  | isExpired (task : κ × Int)
  | remove
  | accept

/-- One scheduled task at a time. The delay is kept by the executor, on a clock of
its own, so a task may start at any reading of the cache's clock. -/
def splitStep (s : Interleaved κ γ) : SplitEvent κ γ → Interleaved κ γ
  | .tick millis => { s with state := s.state.tick millis }
  | .call c => { s with state := call s.state c }
  | .isExpired task =>
    match s.phase with
    | .idle =>
      if task ∈ s.state.store.timers then
        let store := { s.state.store with timers := s.state.store.timers.erase task }
        ⟨{ s.state with store := store },
          if TtlCaches.isExpired hasCome store task.1 s.state.clock then .checked task.1 else .idle⟩
      else s
    | _ => s
  | .remove =>
    match s.phase with
    | .checked key =>
      ⟨s.state.remove key, .removed key (TtlCaches.remove s.state.store key).2⟩
    | _ => s
  | .accept =>
    match s.phase with
    -- on a missing consumer this is a `NullPointerException`, which ends the task
    | .removed _ removedValue =>
      ⟨{ s.state with invoked := s.state.invoked ++ removedValue.toList }, .idle⟩
    | _ => s

/-- A due task that nobody interrupts does what the atomic one does. -/
theorem splitStep_uninterrupted (s : State κ γ) (task : κ × Int) (hdue : task.2 ≤ s.clock) :
    run splitStep ⟨s, .idle⟩ [.isExpired task, .remove, .accept] = ⟨s.fire hasCome task, .idle⟩ := by
  by_cases hm : task ∈ s.store.timers
  · by_cases he : TtlCaches.isExpired hasCome
        { s.store with timers := s.store.timers.erase task } task.1 s.clock = true
    · simp [run, splitStep, State.fire, TtlCaches.fire, timer, hm, hdue, he, State.remove,
        TtlCaches.remove]
    · simp [run, splitStep, State.fire, TtlCaches.fire, timer, hm, hdue, he]
  · simp [run, splitStep, State.fire, TtlCaches.fire, hm]

/-- The consumer on its way from the cache to its call. -/
def Phase.held : Phase κ γ → List (Registered γ)
  | .removed _ removedValue => removedValue.toList
  | _ => []

/-- The consumers that have left the cache to be invoked. -/
def Interleaved.taken (s : Interleaved κ γ) : List (Registered γ) := s.state.invoked ++ s.phase.held

def Interleaved.Coherent (s : Interleaved κ γ) : Prop :=
  TtlTimers.Coherent s.state.store s.state.puts s.taken

theorem splitStep_coherent (s : Interleaved κ γ) (e : SplitEvent κ γ) (h : s.Coherent) :
    (splitStep s e).Coherent := by
  obtain ⟨t, phase⟩ := s
  cases e with
  | tick millis => exact h
  | call c =>
    have hinvoked : (call t c).invoked = t.invoked := by cases c <;> rfl
    have htaken : (splitStep ⟨t, phase⟩ (.call c)).taken = t.invoked ++ phase.held :=
      congrArg (· ++ phase.held) hinvoked
    rw [Interleaved.Coherent, htaken]
    exact call_coherent t c _ h
  | isExpired task =>
    cases phase with
    | idle =>
      simp only [splitStep]
      split
      · have hheld : (if TtlCaches.isExpired hasCome
            { t.store with timers := t.store.timers.erase task } task.1 t.clock then
            Phase.checked task.1 else (.idle : Phase κ γ)).held = [] := by
          split <;> rfl
        rw [Interleaved.Coherent, Interleaved.taken, hheld]
        exact coherent_timers h _
      · exact h
    | checked key => exact h
    | removed key removedValue => exact h
  | remove =>
    cases phase with
    | idle => exact h
    | checked key =>
      have hc : TtlTimers.Coherent t.store t.puts t.invoked := by
        simpa [Interleaved.Coherent, Interleaved.taken, Phase.held] using h
      exact coherent_take hc key
    | removed key removedValue => exact h
  | accept =>
    cases phase with
    | idle => exact h
    | checked key => exact h
    | removed key removedValue =>
      simpa [Interleaved.Coherent, Interleaved.taken, Phase.held, splitStep] using h

theorem init_coherent (start : Int) : (Interleaved.init start : Interleaved κ γ).Coherent :=
  coherent_empty

/-- Both tables have the same keys, and no consumer is invoked twice for one `put`. -/
theorem sameKeys_and_invoked_once (start : Int) (events : List (SplitEvent κ γ)) :
    (∀ k, k ∈ (run splitStep (Interleaved.init start) events).state.store.cache ↔
      k ∈ (run splitStep (Interleaved.init start) events).state.store.expirationTimes) ∧
    ((run splitStep (Interleaved.init start) events).state.invoked.map Registered.number).Nodup := by
  have h : (run splitStep (Interleaved.init start) events).Coherent :=
    run_invariant splitStep_coherent _ events (init_coherent start)
  constructor
  · intro k
    rw [← AList.lookup_isSome, ← AList.lookup_isSome, h.times k, Option.isSome_map]
  · have hn := h.taken_nodup
    rw [Interleaved.taken, List.map_append] at hn
    exact (List.nodup_append.mp hn).1

/-! ## Calls that come between the steps of a task -/

/-- What `remove` returned is there, and its time has come. -/
def Phase.OnTime (now : Int) : Phase κ γ → Prop
  | .idle => True
  | .checked _ => True
  | .removed _ none => False
  | .removed _ (some r) => r.expirationTime ≤ now

instance decidablePhaseOnTime (now : Int) : ∀ p : Phase κ γ, Decidable (p.OnTime now)
  | .idle => .isTrue trivial
  | .checked _ => .isTrue trivial
  | .removed _ none => .isFalse id
  | .removed _ (some r) => inferInstanceAs (Decidable (r.expirationTime ≤ now))

/-- A task that comes to `accept` has a consumer in its hands, and not before the
time stored by the `put` that registered it. -/
def OnTime (s : Interleaved κ γ) : SplitEvent κ γ → Prop
  | .accept => s.phase.OnTime s.state.clock
  | .tick _ => True
  | .call _ => True
  | .isExpired _ => True
  | .remove => True

instance decidableOnTime (s : Interleaved κ γ) : ∀ e, Decidable (OnTime s e)
  | .accept => inferInstanceAs (Decidable (s.phase.OnTime s.state.clock))
  | .tick _ => .isTrue trivial
  | .call _ => .isTrue trivial
  | .isExpired _ => .isTrue trivial
  | .remove => .isTrue trivial

/-- Whether a call may take or replace the entry of the key. -/
def Call.concerns (key : κ) : Call κ γ → Prop
  | .put k _ _ _ => k = key
  | .get k => k = key
  | .remove k => k = key
  | .clear => True

instance decidableConcerns (key : κ) : ∀ c : Call κ γ, Decidable (c.concerns key)
  | .put k _ _ _ => inferInstanceAs (Decidable (k = key))
  | .get k => inferInstanceAs (Decidable (k = key))
  | .remove k => inferInstanceAs (Decidable (k = key))
  | .clear => .isTrue trivial

/-- The key of a task between its `isExpired` and its `remove`. -/
def Phase.awaited : Phase κ γ → Option κ
  | .checked key => some key
  | .idle => none
  | .removed _ _ => none

/-- No call concerns a key that a timer task has checked and not yet removed. -/
def Undisturbed (s : Interleaved κ γ) : SplitEvent κ γ → Prop
  | .call c => ∀ key ∈ s.phase.awaited, ¬ c.concerns key
  | .tick _ => True
  | .isExpired _ => True
  | .remove => True
  | .accept => True

instance decidableUndisturbed (s : Interleaved κ γ) : ∀ e, Decidable (Undisturbed s e)
  | .call c => inferInstanceAs (Decidable (∀ key ∈ s.phase.awaited, ¬ c.concerns key))
  | .tick _ => .isTrue trivial
  | .isExpired _ => .isTrue trivial
  | .remove => .isTrue trivial
  | .accept => .isTrue trivial

/-- A checked key has an expired entry, and what was removed was expired. -/
def Ready (s : Interleaved κ γ) : Prop :=
  s.phase.OnTime s.state.clock ∧
    ∀ key ∈ s.phase.awaited,
      ∃ r, s.state.store.cache.lookup key = some r ∧ r.expirationTime ≤ s.state.clock

theorem call_lookup (s : State κ γ) (c : Call κ γ) (key : κ) (hc : ¬ c.concerns key) :
    (call s c).store.cache.lookup key = s.store.cache.lookup key := by
  cases c with
  | put k value ttl timeUnit =>
    have hk : key ≠ k := Ne.symm hc
    simp [call, State.put, hk]
  | get k =>
    have hk : key ≠ k := Ne.symm hc
    simp only [call, TtlCaches.get]
    split
    · rfl
    · split
      · simp [hk]
      · rfl
  | remove k =>
    have hk : key ≠ k := Ne.symm hc
    simp [call, State.remove, hk]
  | clear => exact absurd trivial hc

omit [DecidableEq κ] in
theorem Phase.OnTime.mono {now later : Int} {p : Phase κ γ} (h : p.OnTime now) (hle : now ≤ later) :
    p.OnTime later := by
  cases p with
  | idle => trivial
  | checked key => trivial
  | removed key removedValue =>
    cases removedValue with
    | none => exact h
    | some r => exact Int.le_trans h hle

theorem splitStep_ready (s : Interleaved κ γ) (e : SplitEvent κ γ)
    (h : s.Coherent ∧ Ready s) (hu : Undisturbed s e) :
    (splitStep s e).Coherent ∧ Ready (splitStep s e) := by
  obtain ⟨hcoh, h⟩ := h
  refine ⟨splitStep_coherent s e hcoh, ?_⟩
  obtain ⟨t, phase⟩ := s
  cases e with
  | tick millis =>
    have hle : t.clock ≤ t.clock + (millis : Int) := by omega
    refine ⟨h.1.mono hle, fun key hk => ?_⟩
    obtain ⟨r, hr, hexp⟩ := h.2 key hk
    exact ⟨r, hr, Int.le_trans hexp hle⟩
  | call c =>
    have hclock : (call t c).clock = t.clock := by cases c <;> rfl
    refine ⟨h.1.mono (Int.le_of_eq hclock.symm), fun key hk => ?_⟩
    obtain ⟨r, hr, hexp⟩ := h.2 key hk
    exact ⟨r, (call_lookup t c key (hu key hk)).trans hr, hclock ▸ hexp⟩
  | isExpired task =>
    cases phase with
    | idle =>
      simp only [splitStep]
      split
      · by_cases he : TtlCaches.isExpired hasCome
            { t.store with timers := t.store.timers.erase task } task.1 t.clock = true
        · rw [if_pos he]
          obtain ⟨r, hr, hlate⟩ := (isExpired_eq hasCome
            (coherent_timers hcoh (t.store.timers.erase task)) task.1 t.clock).mp he
          refine ⟨trivial, fun key hk => ?_⟩
          obtain rfl : task.1 = key := Option.some.inj hk
          exact ⟨r, hr, by simpa [hasCome] using hlate⟩
        · rw [if_neg he]
          exact ⟨trivial, fun key hk => by cases hk⟩
      · exact h
    | checked key => exact h
    | removed key removedValue => exact h
  | remove =>
    cases phase with
    | idle => exact h
    | checked key =>
      obtain ⟨r, hr, hexp⟩ := h.2 key rfl
      have hremoved : (TtlCaches.remove t.store key).2 = some r := hr
      refine ⟨?_, fun key hk => by cases hk⟩
      simp only [splitStep, hremoved]
      exact hexp
    | removed key removedValue => exact h
  | accept =>
    cases phase with
    | idle => exact h
    | checked key => exact h
    | removed key removedValue => exact ⟨trivial, fun key hk => by cases hk⟩

/-- In a run in which no call concerns a key between a timer's `isExpired` and
`remove`, every consumer is there and is invoked on time. -/
theorem onTime_of_undisturbed (start : Int) (events : List (SplitEvent κ γ))
    (h : Along splitStep Undisturbed (Interleaved.init start) events) :
    Along splitStep OnTime (Interleaved.init start) events := by
  have hready := throughout_of_along (I := fun s => s.Coherent ∧ Ready s) splitStep_ready
    (Interleaved.init start : Interleaved κ γ) events
    ⟨init_coherent start, trivial, fun key hk => by cases hk⟩ h
  refine hready.along (J := fun _ => True) (fun _ _ _ _ => trivial) ?_ _ events trivial
  intro s e _ hs
  cases e with
  | accept => exact hs.2.1
  | tick millis => trivial
  | call c => trivial
  | isExpired task => trivial
  | remove => trivial

/-- A room's entry is removed, or put again, after the timer's check; `0` and `1` are the consumers. -/
def interrupted (c : Call Nat Nat) : List (SplitEvent Nat Nat) :=
  [.call (.put 7 0 5 .milliseconds), .tick 5, .isExpired (7, 5), .call c, .remove, .accept]

theorem onTime_uninterrupted :
    Along splitStep Undisturbed (Interleaved.init 0) (interrupted (.remove 8)) ∧
      Along splitStep OnTime (Interleaved.init 0) (interrupted (.remove 8)) :=
  ⟨by decide +kernel, onTime_of_undisturbed 0 _ (by decide +kernel)⟩

/-- With a `remove` in between the consumer is missing; with a `put` the new one runs at once. -/
theorem not_onTime_interrupted :
    ¬ Along splitStep OnTime (Interleaved.init 0) (interrupted (.remove 7)) ∧
      ¬ Along splitStep OnTime (Interleaved.init 0) (interrupted (.put 7 1 5 .milliseconds)) := by
  decide +kernel

end MediaTtlCache

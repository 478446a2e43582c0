import SpringStudy.TtlTimers

/-!
# `ChatTtlCache` once its timers have fired

The cache of the invitation keys differs from `CommonTtlCache` in one comparison:
an entry is expired strictly after its time. A timer that fires at that very
time finds the entry fresh, and nothing comes back for it.
-/
namespace ChatTtlCache

open Tables TtlCaches TtlTimers Runs

variable {κ γ : Type} [DecidableEq κ]

inductive Event (κ γ : Type)
  | tick (millis : Nat)
  | put (key : κ) (value : γ) (ttl : Int) (timeUnit : TimeUnit)
  | remove (key : κ)
  | fire (task : κ × Int)

/-- `ChatTtlCache.isExpired` asks whether the time of the entry has passed. -/
def step (s : State κ γ) : Event κ γ → State κ γ
  | .tick millis => s.tick millis
  | .put key value ttl timeUnit => s.put key value (timeUnit.toMillis ttl)
  | .remove key => s.remove key
  | .fire task => s.fire hasPassed task

theorem step_coherent (s : State κ γ) (e : Event κ γ) (h : Coherent s.store s.puts s.invoked) :
    Coherent (step s e).store (step s e).puts (step s e).invoked := by
  cases e with
  | tick millis => exact h
  | put key value ttl timeUnit => exact coherent_put h key value _ s.clock
  | remove key => exact coherent_remove h key
  | fire task => exact coherent_fire hasPassed h task s.clock

/-- A call that overwrites or removes the entry of the key. -/
def replaces (key : κ) : Event κ γ → Prop
  | .put k _ _ _ => k = key
  | .remove k => k = key
  | .tick _ => False
  | .fire _ => False

/-- The `put` with this number is neither overwritten nor removed before its timer fires. -/
def Survives (start : Int) (events : List (Event κ γ)) (number : Nat) : Prop :=
  ∃ before key value ttl timeUnit between task after,
    events = before ++ .put key value ttl timeUnit :: (between ++ .fire task :: after) ∧
    (run step (State.init start) before).puts = number ∧
    task = (key, (run step (State.init start) before).clock + timeUnit.toMillis ttl) ∧
    (∀ e ∈ between, ¬ replaces key e) ∧
    (run step (State.init start) (before ++ .put key value ttl timeUnit :: between)).Due task

/-- Once all timers have fired, the cache is empty and the consumers of the puts
that survived until then have run once each. -/
def Expires (start : Int) (events : List (Event κ γ)) : Prop :=
  (run step (State.init start) events).store.timers = [] →
    (run step (State.init start) events).store.cache = ∅ ∧
      ∀ number, Survives start events number →
        ((run step (State.init start) events).invoked.map Registered.number).count number = 1

/-- No timer fires at the very time that is stored for its key. -/
def OffExpiry (s : State κ γ) : Event κ γ → Prop
  | .fire task => s.Due task → s.store.expirationTimes.lookup task.1 ≠ some s.clock
  | .tick _ => True
  | .put _ _ _ _ => True
  | .remove _ => True

instance decidableOffExpiry (s : State κ γ) : ∀ e, Decidable (OffExpiry s e)
  | .fire task =>
    inferInstanceAs (Decidable (s.Due task → s.store.expirationTimes.lookup task.1 ≠ some s.clock))
  | .tick _ => .isTrue trivial
  | .put _ _ _ _ => .isTrue trivial
  | .remove _ => .isTrue trivial

/-! ## Every entry waits for a timer -/

/-- The tables are coherent and every entry's own timer is still to come. -/
structure Waiting (s : State κ γ) : Prop where
  coherent : Coherent s.store s.puts s.invoked
  timed : Timed s.store

theorem init_waiting (start : Int) : Waiting (State.init start : State κ γ) :=
  ⟨coherent_empty, fun k r hr => by simp [State.init, Cache.empty] at hr⟩

/-- Off the expiry time, a timer that fires at its entry finds it expired. -/
theorem expired_of_due (s : State κ γ) (h : Waiting s) (key : κ) (r : Registered γ)
    (hr : s.store.cache.lookup key = some r) (hd : s.Due (key, r.expirationTime))
    (ho : OffExpiry s (.fire (key, r.expirationTime))) :
    isExpired hasPassed s.store key s.clock = true := by
  rw [isExpired_eq hasPassed h.coherent key s.clock]
  refine ⟨r, hr, ?_⟩
  have hle : r.expirationTime ≤ s.clock := hd.2
  have hne : s.store.expirationTimes.lookup key ≠ some s.clock := ho hd
  rw [h.coherent.times key, hr] at hne
  have hne' : r.expirationTime ≠ s.clock := fun he => hne (congrArg some he)
  simp only [hasPassed, decide_eq_true_eq]
  omega

theorem step_waiting (s : State κ γ) (e : Event κ γ) (h : Waiting s) (ho : OffExpiry s e) :
    Waiting (step s e) := by
  refine ⟨step_coherent s e h.coherent, ?_⟩
  cases e with
  | tick millis => exact h.timed
  | put key value ttl timeUnit => exact timed_put h.timed key value s.puts _ s.clock
  | remove key =>
    refine h.timed.shrink rfl fun k r hr => ?_
    simp only [step, State.remove, lookup_cache_remove] at hr
    split at hr
    · cases hr
    · exact hr
  | fire task =>
    refine timed_fire s task h.timed fun r hr hexp hd => ?_
    obtain ⟨key, time⟩ := task
    obtain rfl : r.expirationTime = time := hexp
    exact expired_of_due s h key r hr hd ho

/-! ## A surviving entry is served -/

theorem step_invoked (s : State κ γ) (e : Event κ γ) (n : Nat)
    (h : n ∈ s.invoked.map Registered.number) : n ∈ (step s e).invoked.map Registered.number := by
  cases e with
  | tick millis => exact h
  | put key value ttl timeUnit => exact h
  | remove key => exact h
  | fire task => exact State.fire_invoked hasPassed s task n h

/-- An event that does not replace the entry of the key leaves its consumer pending. -/
theorem step_waits (s : State κ γ) (e : Event κ γ) (key : κ) (r : Registered γ)
    (hn : ¬ replaces key e) (h : s.Pending key r) : (step s e).Pending key r := by
  cases e with
  | tick millis => exact h.of_lookup rfl rfl
  | put k value ttl timeUnit =>
    have hk : key ≠ k := Ne.symm hn
    exact h.of_lookup (by simp [step, State.put, hk]) rfl
  | remove k =>
    have hk : key ≠ k := Ne.symm hn
    exact h.of_lookup (by simp [step, State.remove, hk]) rfl
  | fire task => exact h.fire hasPassed task

/-- The timer of a pending consumer, off the expiry time, leaves it invoked. -/
theorem fire_invokes (s : State κ γ) (h : Waiting s) (key : κ) (r : Registered γ)
    (hp : s.Pending key r) (hd : s.Due (key, r.expirationTime))
    (ho : OffExpiry s (.fire (key, r.expirationTime))) :
    r.number ∈ (step s (.fire (key, r.expirationTime))).invoked.map Registered.number := by
  rcases hp with hp | hp
  · have he := expired_of_due s h key r hp hd ho
    rw [step, State.fire_expired hasPassed s (key, r.expirationTime) hd he]
    simp [hp]
  · exact State.fire_invoked hasPassed s _ r.number hp

theorem survivor_invoked (start : Int) (events : List (Event κ γ)) (number : Nat)
    (ho : Along step OffExpiry (State.init start) events) (hs : Survives start events number) :
    number ∈ (run step (State.init start) events).invoked.map Registered.number := by
  obtain ⟨before, key, value, ttl, timeUnit, between, task, after, rfl, rfl, rfl, hn, hd⟩ := hs
  have hsplit : before ++ Event.put key value ttl timeUnit :: (between ++ Event.fire
        (key, (run step (State.init start) before).clock + timeUnit.toMillis ttl) :: after) =
      (before ++ .put key value ttl timeUnit :: between) ++ .fire
        (key, (run step (State.init start) before).clock + timeUnit.toMillis ttl) :: after := by
    simp
  rw [hsplit] at ho ⊢
  obtain ⟨hfirst, hfire, -⟩ := (along_append step OffExpiry _ _ _).mp ho
  have hwait := (throughout_of_along step_waiting _ _ (init_waiting start) hfirst).run
  -- the put stores the consumer, nothing replaces it up to its timer, and the timer runs it
  have hpending := run_invariant_of_mem
    (I := fun s => s.Pending key ⟨value, (run step (State.init start) before).puts,
      (run step (State.init start) before).clock + timeUnit.toMillis ttl⟩)
    (fun t e he => step_waits t e key _ (hn e he))
    (step (run step (State.init start) before) (.put key value ttl timeUnit))
    (.inl (by simp [step, State.put]))
  have hrun : run step (State.init start) (before ++ .put key value ttl timeUnit :: between) =
      run step (step (run step (State.init start) before) (.put key value ttl timeUnit)) between :=
    run_append step _ _ _
  rw [← hrun] at hpending
  have hinvoked := fire_invokes _ hwait key _ hpending hd hfire
  rw [run_append, run_cons]
  exact run_invariant (I := fun s => (run step (State.init start) before).puts ∈
    s.invoked.map Registered.number) (fun s e h => step_invoked s e _ h) _ after hinvoked

/-- Where no timer fires at the very time stored for its key, all entries expire
and every surviving consumer runs exactly once. -/
theorem expires_of_offExpiry (start : Int) (events : List (Event κ γ))
    (h : Along step OffExpiry (State.init start) events) : Expires start events := by
  intro hdone
  have hwait := (throughout_of_along step_waiting _ _ (init_waiting start) h).run
  constructor
  · refine eq_empty_of_lookup _ fun k => ?_
    cases hl : (run step (State.init start) events).store.cache.lookup k with
    | none => rfl
    | some r =>
      have := hwait.timed k r hl
      rw [hdone] at this
      cases this
  · intro number hs
    exact List.count_eq_one_of_mem hwait.coherent.taken_nodup (survivor_invoked start events number h hs)

/-- One invitation, and its timer at a given delay after the put. -/
def oneTimer (delay : Nat) : List (Event Nat Nat) :=
  [.put 7 0 5 .milliseconds, .tick delay, .fire (7, 5)]

theorem oneTimer_expires :
    Along step OffExpiry (State.init 0) (oneTimer 6) ∧ Expires 0 (oneTimer 6) :=
  ⟨by decide +kernel, expires_of_offExpiry 0 (oneTimer 6) (by decide +kernel)⟩

/-- The timer fires as early as it may; the entry stays for good. -/
theorem not_oneTimer_expires : ¬ Expires 0 (oneTimer 5) := by
  intro h
  have hcache := (h (by decide +kernel)).1
  have hmem : (run step (State.init 0) (oneTimer 5)).store.cache.keys = [] := by rw [hcache]; rfl
  revert hmem
  decide +kernel

end ChatTtlCache

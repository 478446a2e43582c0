import SpringStudy.MediaTtlCache

/-!
# Consumers of `CommonTtlCache` that never run

A consumer is run by a timer that finds its entry expired. A reader that finds
the entry expired takes it out as well, and so does any call on the key, but
these run nothing: the consumer is lost when one of them comes between the
expiration time and the timer.
-/
namespace MediaTtlConsumers

open Tables TtlCaches TtlTimers Runs MediaTtlCache

variable {κ γ : Type} [DecidableEq κ]

/-- The `put` with this number is not put again, removed or cleared before its expiration time. -/
def LeftAlone (start : Int) (events : List (Event κ γ)) (number : Nat) : Prop :=
  ∃ before key value ttl timeUnit after,
    events = before ++ .call (.put key value ttl timeUnit) :: after ∧
    (run step (State.init start) before).puts = number ∧
    Along step (fun t e => affects key e = true →
        (run step (State.init start) before).clock + timeUnit.toMillis ttl ≤ t.clock)
      (step (run step (State.init start) before) (.call (.put key value ttl timeUnit))) after

/-- The consumer of every such `put` has run exactly once. -/
def Served (start : Int) (events : List (Event κ γ)) : Prop :=
  ∀ number, LeftAlone start events number →
    ((run step (State.init start) events).invoked.map Registered.number).count number = 1

/-- No call meets an entry that is expired: the timers have been there first. -/
def TimerFirst (s : State κ γ) : Event κ γ → Prop
  | .call c => ∀ key ∈ s.store.cache.keys, c.concerns key → isExpired hasCome s.store key s.clock = false
  | .tick _ => True
  | .fire _ => True

instance decidableTimerFirst (s : State κ γ) : ∀ e, Decidable (TimerFirst s e)
  | .call c => inferInstanceAs (Decidable (∀ key ∈ s.store.cache.keys, c.concerns key →
      isExpired hasCome s.store key s.clock = false))
  | .tick _ => .isTrue trivial
  | .fire _ => .isTrue trivial

/-! ## One step -/

theorem step_clock (s : State κ γ) (e : Event κ γ) : s.clock ≤ (step s e).clock := by
  cases e with
  | tick millis =>
    show s.clock ≤ s.clock + (millis : Int)
    omega
  | call c => cases c <;> exact Int.le_refl _
  | fire task => exact Int.le_refl _

theorem step_puts (s : State κ γ) (e : Event κ γ) : s.puts ≤ (step s e).puts := by
  cases e with
  | tick millis => exact Nat.le_refl _
  | call c =>
    cases c with
    | put key value ttl timeUnit => exact Nat.le_succ _
    | get key => exact Nat.le_refl _
    | remove key => exact Nat.le_refl _
    | clear => exact Nat.le_refl _
  | fire task => exact Nat.le_refl _

theorem get_sub (s : State κ γ) (key k : κ) (r : Registered γ)
    (h : (TtlCaches.get hasCome s.store key s.clock).1.cache.lookup k = some r) :
    s.store.cache.lookup k = some r := by
  unfold TtlCaches.get at h
  split at h
  · exact h
  · split at h
    · rw [lookup_cache_remove] at h
      split at h
      · cases h
      · exact h
    · exact h

/-- A stored entry was there before, and no call has affected its key, or has just been put. -/
theorem step_lookup (s : State κ γ) (e : Event κ γ) (k : κ) (r : Registered γ)
    (h : (step s e).store.cache.lookup k = some r) :
    (affects k e = false ∧ s.store.cache.lookup k = some r) ∨
      ∃ value ttl timeUnit, e = .call (.put k value ttl timeUnit) ∧
        r = ⟨value, s.puts, s.clock + timeUnit.toMillis ttl⟩ := by
  cases e with
  | tick millis => exact .inl ⟨rfl, h⟩
  | call c =>
    cases c with
    | put key value ttl timeUnit =>
      simp only [step, call, State.put, lookup_cache_put] at h
      split at h
      · next hk => exact .inr ⟨value, ttl, timeUnit, by rw [hk], (Option.some.inj h).symm⟩
      · next hk => exact .inl ⟨by simp [affects, Ne.symm hk], h⟩
    | get key => exact .inl ⟨rfl, get_sub s key k r h⟩
    | remove key =>
      simp only [step, call, State.remove, lookup_cache_remove] at h
      split at h
      · cases h
      · next hk => exact .inl ⟨by simp [affects, Ne.symm hk], h⟩
    | clear => simp [step, call, TtlCaches.clear] at h
  | fire task =>
    refine .inl ⟨rfl, ?_⟩
    rcases fire_cases hasCome s.store task s.clock with ⟨-, hsub⟩ | ⟨-, hsame⟩
    · have hk := hsub k
      rw [show (TtlCaches.fire hasCome s.store task s.clock).1.cache.lookup k = some r from h] at hk
      split at hk
      · cases hk
      · exact hk.symm
    · rw [← hsame]
      exact h

/-- What a step invokes was stored. -/
theorem step_invokes (s : State κ γ) (e : Event κ γ) (r : Registered γ) (h : r ∈ (step s e).invoked) :
    r ∈ s.invoked ∨ ∃ k, s.store.cache.lookup k = some r := by
  cases e with
  | tick millis => exact .inl h
  | call c =>
    refine .inl ?_
    have hinvoked : (call s c).invoked = s.invoked := by cases c <;> rfl
    exact hinvoked ▸ h
  | fire task =>
    simp only [step, State.fire, List.mem_append, Option.mem_toList] at h
    rcases h with h | h
    · exact .inl h
    · rcases fire_cases hasCome s.store task s.clock with ⟨hval, -⟩ | ⟨hval, -⟩
      · exact .inr ⟨task.1, hval ▸ h⟩
      · rw [hval] at h
        cases h

/-! ## Entries that are left to their timers -/

/-- A task that may fire finds its own entry expired, so every entry has its task. -/
theorem step_timed (s : State κ γ) (e : Event κ γ) (hc : Coherent s.store s.puts s.invoked)
    (h : Timed s.store) : Timed (step s e).store := by
  cases e with
  | tick millis => exact h
  | call c =>
    cases c with
    | put key value ttl timeUnit => exact timed_put h key value s.puts _ s.clock
    | get key =>
      refine h.shrink ?_ (get_sub s key)
      simp only [step, call, TtlCaches.get]
      split
      · rfl
      · split <;> rfl
    | remove key =>
      refine h.shrink rfl fun k r hr => ?_
      simp only [step, call, State.remove, lookup_cache_remove] at hr
      split at hr
      · cases hr
      · exact hr
    | clear => exact h.shrink rfl fun k r hr => by simp [step, call, TtlCaches.clear] at hr
  | fire task =>
    refine timed_fire s task h fun r hr hexp hd => ?_
    refine (isExpired_eq hasCome hc task.1 s.clock).mpr ⟨r, hr, ?_⟩
    have hdue : task.2 ≤ s.clock := hd.2
    simp only [hasCome, decide_eq_true_eq]
    omega

theorem run_timed (start : Int) (events : List (Event κ γ)) :
    Timed (run step (State.init start) events).store := by
  refine (run_invariant (I := fun s : State κ γ => Coherent s.store s.puts s.invoked ∧ Timed s.store)
    (fun s e h => ⟨step_coherent s e h.1, step_timed s e h.1 h.2⟩) _ events ⟨coherent_empty, ?_⟩).2
  intro k r hr
  cases hr

/-- A call on a key whose entry is not expired yet comes before the expiration time, where it
must not affect the key. -/
theorem call_waits (s : State κ γ) (c : Call κ γ) (key : κ) (r : Registered γ)
    (hc : Coherent s.store s.puts s.invoked) (hfirst : TimerFirst s (.call c))
    (halone : affects key (.call c : Event κ γ) = true → r.expirationTime ≤ s.clock)
    (h : s.store.cache.lookup key = some r) : (call s c).store.cache.lookup key = some r := by
  by_cases hconcerns : c.concerns key
  · have hkey : key ∈ s.store.cache.keys :=
      AList.mem_keys.mp (AList.lookup_isSome.mp (by rw [h]; rfl))
    have hfresh := hfirst key hkey hconcerns
    have hlt : s.clock < r.expirationTime := by
      refine Int.not_le.mp fun hle => ?_
      rw [(isExpired_eq hasCome hc key s.clock).mpr ⟨r, h, by simpa [hasCome] using hle⟩] at hfresh
      cases hfresh
    have hquiet : affects key (.call c : Event κ γ) = false := by
      rw [← Bool.not_eq_true]
      exact fun ha => Int.not_le.mpr hlt (halone ha)
    cases c with
    | put k value ttl timeUnit =>
      obtain rfl : k = key := hconcerns
      simp [affects] at hquiet
    | get k =>
      obtain rfl : k = key := hconcerns
      simp only [call, TtlCaches.get, h]
      rw [hfresh, if_neg (by simp)]
      exact h
    | remove k =>
      obtain rfl : k = key := hconcerns
      simp [affects] at hquiet
    | clear => cases hquiet
  · exact (call_lookup s c key hconcerns).trans h

theorem step_pending (s : State κ γ) (e : Event κ γ) (key : κ) (r : Registered γ)
    (hc : Coherent s.store s.puts s.invoked) (hfirst : TimerFirst s e)
    (halone : affects key e = true → r.expirationTime ≤ s.clock) (h : s.Pending key r) :
    (step s e).Pending key r := by
  cases e with
  | tick millis => exact h.of_lookup rfl rfl
  | fire task => exact h.fire hasCome task
  | call c =>
    rcases h with h | h
    · exact .inl (call_waits s c key r hc hfirst halone h)
    · have hinvoked : (call s c).invoked = s.invoked := by cases c <;> rfl
      exact .inr (hinvoked ▸ h)

theorem run_pending (s : State κ γ) (es : List (Event κ γ)) (key : κ) (r : Registered γ)
    (hc : Coherent s.store s.puts s.invoked) (hfirst : Along step TimerFirst s es)
    (halone : Along step (fun t e => affects key e = true → r.expirationTime ≤ t.clock) s es)
    (h : s.Pending key r) : (run step s es).Pending key r := by
  induction es generalizing s with
  | nil => exact h
  | cons e es ih =>
    exact ih (step s e) (step_coherent s e hc) hfirst.2 halone.2
      (step_pending s e key r hc hfirst.1 halone.1 h)

theorem served_of_timerFirst (start : Int) (events : List (Event κ γ))
    (hdone : (run step (State.init start) events).store.timers = [])
    (hfirst : Along step TimerFirst (State.init start) events) : Served start events := by
  intro number hleft
  have htimed := run_timed start events
  have hcoherent := run_coherent start events
  refine List.count_eq_one_of_mem hcoherent.taken_nodup ?_
  obtain ⟨before, key, value, ttl, timeUnit, after, rfl, rfl, halone⟩ := hleft
  obtain ⟨-, -, hafter⟩ := (along_append step TimerFirst _ _ _).mp hfirst
  have hstored : (step (run step (State.init start) before) (.call (.put key value ttl timeUnit))).Pending
      key ⟨value, (run step (State.init start) before).puts,
        (run step (State.init start) before).clock + timeUnit.toMillis ttl⟩ :=
    .inl (by simp [step, call, State.put])
  have hpending := run_pending _ after key _
    (step_coherent _ (.call (.put key value ttl timeUnit)) (run_coherent start before)) hafter halone hstored
  rw [run_append, run_cons] at hdone htimed ⊢
  -- without tasks there is no entry, so the consumer is not waiting
  rcases hpending with hcache | hinvoked
  · have := htimed key _ hcache
    rw [hdone] at this
    cases this
  · exact hinvoked

/-! ## Entries that a call finds expired -/

/-- The consumer with this number has left the cache and is not invoked. -/
structure Lost (n : Nat) (s : State κ γ) : Prop where
  put : n < s.puts
  silent : n ∉ s.invoked.map Registered.number
  gone : ∀ k r, s.store.cache.lookup k = some r → r.number ≠ n

theorem step_lost (n : Nat) (s : State κ γ) (e : Event κ γ) (h : Lost n s) : Lost n (step s e) where
  put := Nat.lt_of_lt_of_le h.put (step_puts s e)
  silent := by
    rw [List.mem_map]
    rintro ⟨r, hr, rfl⟩
    rcases step_invokes s e r hr with hold | ⟨k, hk⟩
    · exact h.silent (List.mem_map_of_mem hold)
    · exact h.gone k r hk rfl
  gone := by
    intro k r hr
    rcases step_lookup s e k r hr with ⟨-, hold⟩ | ⟨value, ttl, timeUnit, -, rfl⟩
    · exact h.gone k r hold
    · exact Nat.ne_of_gt h.put

/-- Under a key that a call finds expired there is at most what the call puts there. -/
theorem call_expired (s : State κ γ) (c : Call κ γ) (key : κ) (hconcerns : c.concerns key)
    (he : isExpired hasCome s.store key s.clock = true) (r : Registered γ)
    (h : (call s c).store.cache.lookup key = some r) : r.number = s.puts := by
  cases c with
  | put k value ttl timeUnit =>
    obtain rfl : k = key := hconcerns
    simp only [call, State.put, lookup_cache_put, if_true, Option.some.injEq] at h
    rw [← h]
  | get k =>
    obtain rfl : k = key := hconcerns
    simp only [call, TtlCaches.get] at h
    split at h
    · next hnone => rw [hnone] at h; cases h
    · rw [if_pos he] at h
      simp at h
  | remove k =>
    obtain rfl : k = key := hconcerns
    simp [call, State.remove] at h
  | clear => simp [call, TtlCaches.clear] at h

theorem call_loses (s : State κ γ) (c : Call κ γ) (key : κ) (r : Registered γ)
    (hc : Coherent s.store s.puts s.invoked) (hconcerns : c.concerns key)
    (hr : s.store.cache.lookup key = some r)
    (he : isExpired hasCome s.store key s.clock = true) : Lost r.number (step s (.call c)) where
  put := Nat.lt_of_lt_of_le (hc.stored_lt key r hr) (step_puts s (.call c))
  silent := by
    have hinvoked : (step s (.call c)).invoked = s.invoked := by cases c <;> rfl
    rw [hinvoked]
    exact hc.not_taken key r hr
  gone := by
    intro k r' hr' hnumber
    have hlt := hc.stored_lt key r hr
    rcases step_lookup s (.call c) k r' hr' with ⟨-, hold⟩ | ⟨value, ttl, timeUnit, -, rfl⟩
    · obtain rfl : k = key := hc.stored_unique k key r' r hold hr hnumber
      have := call_expired s c k hconcerns he r' hr'
      omega
    · exact absurd hnumber (Nat.ne_of_gt hlt)

/-- The `put` that a stored entry comes from, which nothing has affected since. -/
theorem run_origin (start : Int) (events : List (Event κ γ)) (k : κ) (r : Registered γ)
    (h : (run step (State.init start) events).store.cache.lookup k = some r) :
    ∃ before value ttl timeUnit after,
      events = before ++ .call (.put k value ttl timeUnit) :: after ∧
      (run step (State.init start) before).puts = r.number ∧
      r.expirationTime = (run step (State.init start) before).clock + timeUnit.toMillis ttl ∧
      ∀ e ∈ after, affects k e = false := by
  induction events using List.reverseRecOn with
  | nil => cases h
  | append_singleton es e ih =>
    rw [run_append] at h
    rcases step_lookup _ e k r h with ⟨hquiet, hold⟩ | ⟨value, ttl, timeUnit, rfl, rfl⟩
    · obtain ⟨before, value, ttl, timeUnit, after, rfl, hputs, htime, hafter⟩ := ih hold
      refine ⟨before, value, ttl, timeUnit, after ++ [e], by simp, hputs, htime, ?_⟩
      intro e' he'
      rcases List.mem_append.mp he' with he' | he'
      · exact hafter e' he'
      · rw [List.mem_singleton.mp he']
        exact hquiet
    · exact ⟨es, value, ttl, timeUnit, [], rfl, rfl, rfl, by simp⟩

/-- An entry that a call finds expired belongs to a `put` that was left alone up to its time. -/
theorem leftAlone_of_expired (start : Int) (before after : List (Event κ γ)) (e : Event κ γ) (key : κ)
    (r : Registered γ) (hr : (run step (State.init start) before).store.cache.lookup key = some r)
    (hlate : r.expirationTime ≤ (run step (State.init start) before).clock) :
    LeftAlone start (before ++ e :: after) r.number := by
  obtain ⟨earlier, value, ttl, timeUnit, later, rfl, hputs, htime, hquiet⟩ :=
    run_origin start before key r hr
  refine ⟨earlier, key, value, ttl, timeUnit, later ++ e :: after, by simp, hputs, ?_⟩
  rw [run_append, run_cons] at hlate
  rw [← htime, along_append]
  constructor
  · rw [along_iff_cut]
    rintro b e' a rfl haffects
    rw [hquiet e' (by simp)] at haffects
    cases haffects
  · exact along_of_invariant (I := fun t : State κ γ => r.expirationTime ≤ t.clock)
      (P := fun t e' => affects key e' = true → r.expirationTime ≤ t.clock)
      (fun t e' ht => Int.le_trans ht (step_clock t e')) (fun _ _ ht _ => ht) _ _ hlate

theorem timerFirst_of_served (start : Int) (events : List (Event κ γ)) (h : Served start events) :
    Along step TimerFirst (State.init start) events := by
  rw [along_iff_cut]
  rintro before e after rfl
  cases e with
  | tick millis => trivial
  | fire task => trivial
  | call c =>
    intro key hkey hconcerns
    rw [← Bool.not_eq_true]
    intro he
    have hc := run_coherent start before
    obtain ⟨r, hr, hlate⟩ := (isExpired_eq hasCome hc key _).mp he
    have hone := h r.number (leftAlone_of_expired start before after (.call c) key r hr
      (by simpa [hasCome] using hlate))
    have hlost : Lost r.number (run step (State.init start) (before ++ .call c :: after)) := by
      rw [run_append, run_cons]
      exact run_invariant (step_lost r.number) _ after (call_loses _ c key r hc hconcerns hr he)
    rw [List.count_eq_zero_of_not_mem hlost.silent] at hone
    cases hone

/-- Once all timers have fired, the consumers of the puts that were left alone up to
their time have run once each exactly if no call met an expired entry before. -/
theorem served_iff_timerFirst (start : Int) (events : List (Event κ γ))
    (hdone : (run step (State.init start) events).store.timers = []) :
    Served start events ↔ Along step TimerFirst (State.init start) events :=
  ⟨timerFirst_of_served start events, served_of_timerFirst start events hdone⟩

/-- The timer fires at the expiration time and a reader comes at the same time, before it or after it. -/
def readBefore : List (Event Nat Nat) :=
  [.call (.put 7 0 5 .milliseconds), .tick 5, .call (.get 7), .fire (7, 5)]

def readAfter : List (Event Nat Nat) :=
  [.call (.put 7 0 5 .milliseconds), .tick 5, .fire (7, 5), .call (.get 7)]

theorem readAfter_served :
    (run step (State.init 0) readAfter).store.timers = [] ∧ Served 0 readAfter :=
  ⟨by decide +kernel, (served_iff_timerFirst 0 readAfter (by decide +kernel)).mpr (by decide +kernel)⟩

/-- The reader takes the expired entry out, and the timer finds none. -/
theorem not_readBefore_served :
    (run step (State.init 0) readBefore).store.timers = [] ∧ ¬ Served 0 readBefore := by
  refine ⟨by decide +kernel, fun h => ?_⟩
  have hone := h 0 ⟨[], 7, 0, 5, .milliseconds, [.tick 5, .call (.get 7), .fire (7, 5)], rfl, rfl,
    by decide +kernel⟩
  revert hone
  decide +kernel

end MediaTtlConsumers

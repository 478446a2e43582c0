import SpringStudy.TtlCaches
import SpringStudy.Runs

/-!
# A cache with a time to live, its clock and its executor

The cache is put on a clock that never goes back. Every consumer is stored with
the number of the `put` that registered it and the time that `put` computed, so
that one can say later whose consumer a timer has run, and when.
-/
namespace TtlTimers

open Tables TtlCaches

inductive TimeUnit
  | nanoseconds | microseconds | milliseconds | seconds | minutes | hours | days
  deriving DecidableEq, Repr

/-- Smaller units are cut off towards zero. -/
def TimeUnit.toMillis (ttl : Int) : TimeUnit → Int
  | .nanoseconds => ttl.tdiv 1000000
  | .microseconds => ttl.tdiv 1000
  | .milliseconds => ttl
  | .seconds => ttl * 1000
  | .minutes => ttl * 60000
  | .hours => ttl * 3600000
  | .days => ttl * 86400000

/-- A consumer as its `put` registered it. -/
structure Registered (γ : Type) where
  consumer : γ
  number : Nat
  expirationTime : Int

structure State (κ γ : Type) where
  store : Cache κ (Registered γ) Int
  clock : Int
  /-- How many calls of `put` there have been: the number of the next one. -/
  puts : Nat
  /-- The consumers the timers have invoked, in order. -/
  invoked : List (Registered γ)

variable {κ γ : Type}

def State.init (start : Int) : State κ γ := ⟨Cache.empty, start, 0, []⟩

def State.tick (s : State κ γ) (millis : Nat) : State κ γ := { s with clock := s.clock + millis }

variable [DecidableEq κ]

def State.put (s : State κ γ) (key : κ) (value : γ) (ttl : Int) : State κ γ :=
  { s with
    store := TtlCaches.put s.store key ⟨value, s.puts, s.clock + ttl⟩ ttl s.clock
    puts := s.puts + 1 }

def State.remove (s : State κ γ) (key : κ) : State κ γ :=
  { s with store := (TtlCaches.remove s.store key).1 }

/-- A scheduled task that is due runs without interruption. -/
def State.fire (late : Int → Int → Bool) (s : State κ γ) (task : κ × Int) : State κ γ :=
  let q := TtlCaches.fire late s.store task s.clock
  { s with store := q.1, invoked := s.invoked ++ q.2.toList }

/-- The task is scheduled and its time has come. -/
def State.Due (s : State κ γ) (task : κ × Int) : Prop :=
  task ∈ s.store.timers ∧ task.2 ≤ s.clock

instance decidableDue (s : State κ γ) (task : κ × Int) : Decidable (s.Due task) :=
  inferInstanceAs (Decidable (_ ∧ _))

theorem State.fire_expired (late : Int → Int → Bool) (s : State κ γ) (task : κ × Int)
    (hd : s.Due task) (he : isExpired late s.store task.1 s.clock = true) :
    s.fire late task =
      { s with
        store := { s.store with
          cache := s.store.cache.erase task.1
          expirationTimes := s.store.expirationTimes.erase task.1
          timers := s.store.timers.erase task }
        invoked := s.invoked ++ (s.store.cache.lookup task.1).toList } := by
  have he' : isExpired late { s.store with timers := s.store.timers.erase task } task.1 s.clock = true :=
    he
  unfold State.Due at hd
  unfold State.fire TtlCaches.fire timer
  rw [if_pos hd, if_pos he']
  rfl

theorem State.fire_fresh (late : Int → Int → Bool) (s : State κ γ) (task : κ × Int)
    (hd : s.Due task) (he : isExpired late s.store task.1 s.clock = false) :
    s.fire late task =
      { s with store := { s.store with timers := s.store.timers.erase task } } := by
  have he' : ¬ isExpired late { s.store with timers := s.store.timers.erase task } task.1 s.clock = true := by
    rw [Bool.not_eq_true]
    exact he
  unfold State.Due at hd
  unfold State.fire TtlCaches.fire timer
  rw [if_pos hd, if_neg he']
  simp

theorem State.fire_idle (late : Int → Int → Bool) (s : State κ γ) (task : κ × Int)
    (hd : ¬ s.Due task) : s.fire late task = s := by
  unfold State.Due at hd
  unfold State.fire TtlCaches.fire
  rw [if_neg hd]
  simp

theorem State.fire_invoked (late : Int → Int → Bool) (s : State κ γ) (task : κ × Int) (n : Nat)
    (h : n ∈ s.invoked.map Registered.number) : n ∈ (s.fire late task).invoked.map Registered.number := by
  simp only [State.fire, List.map_append]
  exact List.mem_append_left _ h

/-- A task that takes a consumer out of the cache invokes it. -/
theorem State.fire_stored (late : Int → Int → Bool) (s : State κ γ) (task : κ × Int) (key : κ) (r : Registered γ)
    (h : s.store.cache.lookup key = some r) :
    (s.fire late task).store.cache.lookup key = some r ∨
      r.number ∈ (s.fire late task).invoked.map Registered.number := by
  rcases fire_cases late s.store task s.clock with ⟨hval, hsub⟩ | ⟨-, hsame⟩
  · by_cases hk : key = task.1
    · subst hk
      refine .inr ?_
      simp only [State.fire, List.map_append, hval, h]
      simp
    · refine .inl ?_
      have hlookup := hsub key
      rw [if_neg hk, h] at hlookup
      exact hlookup
  · exact .inl (by simpa [State.fire, hsame] using h)

/-! ## What the two tables have to do with each other -/

/-- The tables agree on every key, no consumer is stored under two keys, and those
that were taken out to be invoked are not stored any more, nor taken out twice. -/
structure Coherent (c : Cache κ (Registered γ) Int) (puts : Nat) (taken : List (Registered γ)) :
    Prop where
  times : ∀ k, c.expirationTimes.lookup k = (c.cache.lookup k).map Registered.expirationTime
  stored_lt : ∀ k r, c.cache.lookup k = some r → r.number < puts
  taken_lt : ∀ r ∈ taken, r.number < puts
  stored_unique : ∀ k k' r r', c.cache.lookup k = some r → c.cache.lookup k' = some r' →
    r.number = r'.number → k = k'
  not_taken : ∀ k r, c.cache.lookup k = some r → r.number ∉ taken.map Registered.number
  taken_nodup : (taken.map Registered.number).Nodup

theorem coherent_empty : Coherent (Cache.empty : Cache κ (Registered γ) Int) 0 [] := by
  constructor <;> simp [Cache.empty]

section
variable {c : Cache κ (Registered γ) Int} {puts : Nat} {taken : List (Registered γ)}

/-- Entries may go, both halves at a time. -/
theorem Coherent.shrink (h : Coherent c puts taken) {d : Cache κ (Registered γ) Int}
    (hd : ∀ k, (d.cache.lookup k = c.cache.lookup k ∧
        d.expirationTimes.lookup k = c.expirationTimes.lookup k) ∨
      (d.cache.lookup k = none ∧ d.expirationTimes.lookup k = none)) :
    Coherent d puts taken := by
  have hsub : ∀ k r, d.cache.lookup k = some r → c.cache.lookup k = some r := by
    intro k r hr
    rcases hd k with ⟨hk, -⟩ | ⟨hk, -⟩
    · rw [← hk]; exact hr
    · rw [hk] at hr; cases hr
  refine ⟨fun k => ?_, fun k r hr => h.stored_lt k r (hsub k r hr), h.taken_lt,
    fun k k' r r' hr hr' => h.stored_unique k k' r r' (hsub k r hr) (hsub k' r' hr'),
    fun k r hr => h.not_taken k r (hsub k r hr), h.taken_nodup⟩
  rcases hd k with ⟨hk, ht⟩ | ⟨hk, ht⟩
  · rw [hk, ht, h.times k]
  · rw [hk, ht]; rfl

theorem coherent_put (h : Coherent c puts taken) (key : κ) (value : γ) (ttl now : Int) :
    Coherent (TtlCaches.put c key ⟨value, puts, now + ttl⟩ ttl now) (puts + 1) taken := by
  have hold : ∀ k r, k ≠ key → (TtlCaches.put c key ⟨value, puts, now + ttl⟩ ttl now).cache.lookup k =
      some r → c.cache.lookup k = some r := by
    intro k r hk hr
    simpa [hk] using hr
  have hnew : ∀ r, (TtlCaches.put c key ⟨value, puts, now + ttl⟩ ttl now).cache.lookup key =
      some r → r.number = puts := by
    intro r hr
    simp only [lookup_cache_put, if_true, Option.some.injEq] at hr
    rw [← hr]
  refine ⟨fun k => ?_, fun k r hr => ?_, fun r hr => Nat.lt_succ_of_lt (h.taken_lt r hr),
    fun k k' r r' hr hr' he => ?_, fun k r hr => ?_, h.taken_nodup⟩
  · by_cases hk : k = key
    · simp [hk, TtlCaches.put]
    · simp [hk, TtlCaches.put, h.times k]
  · by_cases hk : k = key
    · subst hk; rw [hnew r hr]; omega
    · exact Nat.lt_succ_of_lt (h.stored_lt k r (hold k r hk hr))
  · -- the new number is larger than every stored one
    by_cases hk : k = key <;> by_cases hk' : k' = key
    · rw [hk, hk']
    · subst hk
      have := h.stored_lt k' r' (hold k' r' hk' hr')
      rw [hnew r hr] at he
      omega
    · subst hk'
      have := h.stored_lt k r (hold k r hk hr)
      rw [hnew r' hr'] at he
      omega
    · exact h.stored_unique k k' r r' (hold k r hk hr) (hold k' r' hk' hr') he
  · by_cases hk : k = key
    · subst hk
      rw [hnew r hr]
      intro hm
      obtain ⟨r', hr', he⟩ := List.mem_map.mp hm
      have := h.taken_lt r' hr'
      omega
    · exact h.not_taken k r (hold k r hk hr)

theorem coherent_remove (h : Coherent c puts taken) (key : κ) :
    Coherent (TtlCaches.remove c key).1 puts taken := by
  refine h.shrink fun k => ?_
  by_cases hk : k = key
  · exact .inr ⟨by simp [TtlCaches.remove, hk], by simp [TtlCaches.remove, hk]⟩
  · exact .inl ⟨by simp [TtlCaches.remove, hk], by simp [TtlCaches.remove, hk]⟩

theorem coherent_clear (h : Coherent c puts taken) : Coherent (clear c) puts taken :=
  h.shrink fun k => .inr ⟨by simp [clear], by simp [clear]⟩

theorem coherent_get (late : Int → Int → Bool) (h : Coherent c puts taken) (key : κ) (now : Int) :
    Coherent (TtlCaches.get late c key now).1 puts taken := by
  unfold TtlCaches.get
  split
  · exact h
  · split
    · exact coherent_remove h key
    · exact h

/-- What `remove` hands out, if anything, can be taken by its caller. -/
theorem coherent_take (h : Coherent c puts taken) (key : κ) :
    Coherent (TtlCaches.remove c key).1 puts (taken ++ (TtlCaches.remove c key).2.toList) := by
  have hr := coherent_remove h key
  cases hl : c.cache.lookup key with
  | none => simpa [TtlCaches.remove, hl] using hr
  | some r =>
    have htaken : (TtlCaches.remove c key).2.toList = [r] := by simp [TtlCaches.remove, hl]
    rw [htaken]
    refine ⟨hr.times, hr.stored_lt, ?_, hr.stored_unique, ?_, ?_⟩
    · intro r' hr'
      rcases List.mem_append.mp hr' with hr' | hr'
      · exact h.taken_lt r' hr'
      · rw [List.mem_singleton.mp hr']; exact h.stored_lt key r hl
    · intro k r' hk
      have hne : k ≠ key := by rintro rfl; simp [TtlCaches.remove] at hk
      have hk' : c.cache.lookup k = some r' := by simpa [hne] using hk
      intro hm
      rw [List.map_append, List.mem_append] at hm
      rcases hm with hm | hm
      · exact h.not_taken k r' hk' hm
      · exact hne (h.stored_unique k key r' r hk' hl (by simpa using hm))
    · rw [List.map_append, List.nodup_append]
      refine ⟨h.taken_nodup, by simp, ?_⟩
      intro a ha b hb he
      obtain rfl : b = r.number := by simpa using hb
      exact h.not_taken key r hl (he ▸ ha)

theorem coherent_timers (h : Coherent c puts taken) (timers : List (κ × Int)) :
    Coherent { c with timers := timers } puts taken :=
  ⟨h.times, h.stored_lt, h.taken_lt, h.stored_unique, h.not_taken, h.taken_nodup⟩

theorem coherent_fire (late : Int → Int → Bool) (h : Coherent c puts taken) (task : κ × Int)
    (now : Int) :
    Coherent (TtlCaches.fire late c task now).1 puts
      (taken ++ (TtlCaches.fire late c task now).2.toList) := by
  unfold TtlCaches.fire timer
  split
  · split
    · exact coherent_take (coherent_timers h _) task.1
    · simpa using coherent_timers h (c.timers.erase task)
  · simpa using h

/-- With coherent tables, whether a key is expired is a question about its consumer. -/
theorem isExpired_eq (late : Int → Int → Bool) (h : Coherent c puts taken) (key : κ) (now : Int) :
    isExpired late c key now = true ↔
      ∃ r, c.cache.lookup key = some r ∧ late r.expirationTime now = true := by
  unfold isExpired
  rw [h.times key]
  cases c.cache.lookup key with
  | none => simp
  | some r => simp

end

/-! ## Entries and their tasks -/

/-- The task that every stored consumer was put with is still scheduled. -/
def Timed (c : Cache κ (Registered γ) Int) : Prop :=
  ∀ k r, c.cache.lookup k = some r → (k, r.expirationTime) ∈ c.timers

section
variable {c : Cache κ (Registered γ) Int}

theorem timed_put (h : Timed c) (key : κ) (value : γ) (number : Nat) (ttl now : Int) :
    Timed (TtlCaches.put c key ⟨value, number, now + ttl⟩ ttl now) := by
  intro k r hr
  rw [lookup_cache_put] at hr
  split at hr
  · next hk =>
    obtain rfl := Option.some.inj hr
    exact hk ▸ List.mem_cons_self
  · exact List.mem_cons_of_mem _ (h k r hr)

/-- Entries may go as long as the tasks stay. -/
theorem Timed.shrink (h : Timed c) {d : Cache κ (Registered γ) Int} (htimers : d.timers = c.timers)
    (hsub : ∀ k r, d.cache.lookup k = some r → c.cache.lookup k = some r) : Timed d := by
  intro k r hr
  rw [htimers]
  exact h k r (hsub k r hr)

/-- A task that fires at its own entry has to find it expired. -/
theorem timed_fire {late : Int → Int → Bool} (s : State κ γ) (task : κ × Int) (h : Timed s.store)
    (hlate : ∀ r, s.store.cache.lookup task.1 = some r → r.expirationTime = task.2 → s.Due task →
      isExpired late s.store task.1 s.clock = true) :
    Timed (s.fire late task).store := by
  intro k r hr
  by_cases hd : s.Due task
  · by_cases he : isExpired late s.store task.1 s.clock = true
    · rw [State.fire_expired late s task hd he] at hr ⊢
      rw [lookup_remove] at hr
      split at hr
      · cases hr
      · next hk =>
        refine (List.mem_erase_of_ne ?_).mpr (h k r hr)
        rintro rfl
        exact hk rfl
    · rw [State.fire_fresh late s task hd (Bool.not_eq_true _ ▸ he)] at hr ⊢
      refine (List.mem_erase_of_ne ?_).mpr (h k r hr)
      rintro rfl
      exact he (hlate r hr rfl hd)
  · rw [State.fire_idle late s task hd] at hr ⊢
    exact h k r hr

end

/-! ## Consumers on their way -/

/-- The consumer waits in the cache, or has been invoked. -/
def State.Pending (s : State κ γ) (key : κ) (r : Registered γ) : Prop :=
  s.store.cache.lookup key = some r ∨ r.number ∈ s.invoked.map Registered.number

section
variable {s : State κ γ} {key : κ} {r : Registered γ}

/-- What leaves the entry of the key alone, and invokes nothing, leaves its consumer where it is. -/
theorem State.Pending.of_lookup (h : s.Pending key r) {t : State κ γ}
    (hlookup : t.store.cache.lookup key = s.store.cache.lookup key) (hinvoked : t.invoked = s.invoked) :
    t.Pending key r := by
  unfold State.Pending
  rw [hlookup, hinvoked]
  exact h

theorem State.Pending.fire (h : s.Pending key r) (late : Int → Int → Bool) (task : κ × Int) :
    (s.fire late task).Pending key r := by
  rcases h with h | h
  · exact State.fire_stored late s task key r h
  · exact .inr (State.fire_invoked late s task r.number h)

end

/-! ## The map a cache stands for -/

/-- What the latest `put` of each key left there, with the time it expires. -/
abbrev Contents (κ γ : Type) := κ → Option (γ × Int)

/-- A reader sees a value up to its expiration time. -/
def Contents.get (m : Contents κ γ) (key : κ) (now : Int) : Option γ :=
  match m key with
  | some (value, expirationTime) => if now < expirationTime then some value else none
  | none => none

def Contents.put (m : Contents κ γ) (key : κ) (value : γ) (expirationTime : Int) : Contents κ γ :=
  Function.update m key (some (value, expirationTime))

def Contents.remove (m : Contents κ γ) (key : κ) : Contents κ γ := Function.update m key none

/-- The cache holds what the map holds, except for entries that no reader would see. -/
def Holds (c : Cache κ (Registered γ) Int) (m : Contents κ γ) (now : Int) : Prop :=
  ∀ k, (c.cache.lookup k).map (fun r => (r.consumer, r.expirationTime)) = m k ∨
    (c.cache.lookup k = none ∧ ∀ e ∈ m k, e.2 ≤ now)

section
variable {c : Cache κ (Registered γ) Int} {m : Contents κ γ} {now : Int}

theorem Holds.mono (h : Holds c m now) (later : Int) (hle : now ≤ later) : Holds c m later := by
  intro k
  rcases h k with hk | ⟨hk, he⟩
  · exact .inl hk
  · exact .inr ⟨hk, fun e hm => Int.le_trans (he e hm) hle⟩

theorem holds_put (h : Holds c m now) (key : κ) (value : γ) (number : Nat) (ttl : Int) :
    Holds (TtlCaches.put c key ⟨value, number, now + ttl⟩ ttl now) (m.put key value (now + ttl)) now := by
  intro k
  by_cases hk : k = key
  · subst hk; left; simp [Contents.put]
  · simpa [Contents.put, hk] using h k

theorem holds_remove (h : Holds c m now) (key : κ) :
    Holds (TtlCaches.remove c key).1 (m.remove key) now := by
  intro k
  by_cases hk : k = key
  · subst hk; left; simp [Contents.remove]
  · simpa [Contents.remove, hk] using h k

theorem holds_clear (c : Cache κ (Registered γ) Int) (now : Int) :
    Holds (clear c) (fun _ => none) now :=
  fun k => .inl (by simp [clear])

/-- Taking an expired entry out is invisible. -/
theorem holds_drop (h : Holds c m now) (key : κ)
    (hexp : ∀ r, c.cache.lookup key = some r → r.expirationTime ≤ now) :
    Holds (TtlCaches.remove c key).1 m now := by
  intro k
  by_cases hk : k = key
  · subst hk
    refine .inr ⟨by simp, fun e he => ?_⟩
    rcases h k with hk | ⟨-, hall⟩
    · cases hl : c.cache.lookup k with
      | none => simp [← hk, hl] at he
      | some r =>
        obtain rfl : (r.consumer, r.expirationTime) = e := by simpa [← hk, hl] using he
        exact hexp r hl
    · exact hall e he
  · simpa [hk] using h k

end

end TtlTimers

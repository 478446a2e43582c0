import SpringStudy.Tables

/-!
# Caches with a time to live

A cache maps keys to values (here: the consumers to run on expiry) and to the
time at which each entry expires. Every `put` also hands a timer task to an
executor, and no later call takes that task back: a removed or overwritten
entry leaves its task behind. The comparison that decides whether an entry is
expired is a parameter, and so is the type of the times.
-/
namespace TtlCaches

open Tables

structure Cache (κ γ : Type) (τ : Type := Nat) where
  cache : Table κ γ
  expirationTimes : Table κ τ
  /-- Scheduled tasks: the key and the time before which the executor does not run it. -/
  timers : List (κ × τ)

variable {κ γ τ : Type} [DecidableEq κ]

def Cache.empty : Cache κ γ τ := ⟨∅, ∅, []⟩

def put [Add τ] (c : Cache κ γ τ) (key : κ) (value : γ) (ttl now : τ) : Cache κ γ τ :=
  ⟨c.cache.insert key value, c.expirationTimes.insert key (now + ttl), (key, now + ttl) :: c.timers⟩

/-- The removed value is the one returned to the caller. -/
def remove (c : Cache κ γ τ) (key : κ) : Cache κ γ τ × Option γ :=
  (⟨c.cache.erase key, c.expirationTimes.erase key, c.timers⟩, c.cache.lookup key)

/-- The comparison of a cache whose entries are expired from their time on. -/
def hasCome [LE τ] [DecidableLE τ] (expirationTime now : τ) : Bool := decide (expirationTime ≤ now)

/-- The comparison of a cache whose entries are expired only after their time. -/
def hasPassed [LT τ] [DecidableLT τ] (expirationTime now : τ) : Bool := decide (expirationTime < now)

def isExpired (late : τ → τ → Bool) (c : Cache κ γ τ) (key : κ) (now : τ) : Bool :=
  match c.expirationTimes.lookup key with
  | some expirationTime => late expirationTime now
  | none => false

/-- An entry found expired is taken out on the way. -/
def get (late : τ → τ → Bool) (c : Cache κ γ τ) (key : κ) (now : τ) : Cache κ γ τ × Option γ :=
  match c.cache.lookup key with
  | none => (c, none)
  | some value => if isExpired late c key now then ((remove c key).1, none) else (c, some value)

/-- The scheduled tasks stay with the executor. -/
def clear (c : Cache κ γ τ) : Cache κ γ τ := ⟨∅, ∅, c.timers⟩

/-- The body of a timer task: the entry of the key, if expired, is removed and handed over. -/
def timer (late : τ → τ → Bool) (c : Cache κ γ τ) (key : κ) (now : τ) : Cache κ γ τ × Option γ :=
  if isExpired late c key now then remove c key else (c, none)

/-- One scheduled task runs at time `now`. Nothing runs that was not scheduled or is not due. -/
def fire [DecidableEq τ] [LE τ] [DecidableLE τ] (late : τ → τ → Bool) (c : Cache κ γ τ)
    (task : κ × τ) (now : τ) : Cache κ γ τ × Option γ :=
  if task ∈ c.timers ∧ task.2 ≤ now then
    timer late { c with timers := c.timers.erase task } task.1 now
  else (c, none)

@[simp] theorem lookup_cache_put [Add τ] (c : Cache κ γ τ) (key k : κ) (value : γ) (ttl now : τ) :
    (put c key value ttl now).cache.lookup k = if k = key then some value else c.cache.lookup k :=
  lookup_put c.cache key k value

@[simp] theorem lookup_cache_remove (c : Cache κ γ τ) (key k : κ) :
    (remove c key).1.cache.lookup k = if k = key then none else c.cache.lookup k :=
  lookup_remove c.cache key k

/-- A task that runs either finds its entry expired, and takes it out, or does
nothing to the entries. -/
theorem fire_cases [DecidableEq τ] [LE τ] [DecidableLE τ] (late : τ → τ → Bool) (c : Cache κ γ τ)
    (task : κ × τ) (now : τ) :
    ((fire late c task now).2 = c.cache.lookup task.1 ∧
      ∀ k, (fire late c task now).1.cache.lookup k = if k = task.1 then none else c.cache.lookup k) ∨
    ((fire late c task now).2 = none ∧ (fire late c task now).1.cache = c.cache) := by
  unfold fire timer
  split
  · split
    · exact .inl ⟨rfl, fun k => lookup_remove c.cache task.1 k⟩
    · exact .inr ⟨rfl, rfl⟩
  · exact .inr ⟨rfl, rfl⟩

/-! ## Entries and their tasks -/

/-- The task that will find the entry expired is still with the executor. -/
def Scheduled (c : Cache κ γ τ) : Prop :=
  ∀ k value, c.cache.lookup k = some value → ∃ t, c.expirationTimes.lookup k = some t ∧ (k, t) ∈ c.timers

section
variable {c : Cache κ γ τ}

theorem scheduled_empty : Scheduled (Cache.empty : Cache κ γ τ) := by
  intro k value h
  cases h

theorem scheduled_put [Add τ] (h : Scheduled c) (key : κ) (value : γ) (ttl now : τ) :
    Scheduled (put c key value ttl now) := by
  intro k v hv
  rw [lookup_cache_put] at hv
  by_cases hk : k = key
  · subst hk
    exact ⟨now + ttl, by simp [put], List.mem_cons_self⟩
  · rw [if_neg hk] at hv
    obtain ⟨t, ht, hm⟩ := h k v hv
    exact ⟨t, by simp [put, hk, ht], List.mem_cons_of_mem _ hm⟩

theorem scheduled_remove (h : Scheduled c) (key : κ) : Scheduled (remove c key).1 := by
  intro k v hv
  rw [lookup_cache_remove] at hv
  split at hv
  · cases hv
  · next hk =>
    obtain ⟨t, ht, hm⟩ := h k v hv
    exact ⟨t, by simp [remove, hk, ht], hm⟩

variable [DecidableEq τ] [LE τ] [DecidableLE τ] {late : τ → τ → Bool}

/-- A task that has come to its time takes its entry with it. -/
theorem scheduled_fire (hlate : ∀ t now, t ≤ now → late t now = true) (h : Scheduled c) (task : κ × τ)
    (now : τ) : Scheduled (fire late c task now).1 := by
  unfold fire timer
  split
  · next hdue =>
    split
    · intro k v hv
      rw [lookup_cache_remove] at hv
      split at hv
      · cases hv
      · next hk =>
        obtain ⟨t, ht, hm⟩ := h k v hv
        refine ⟨t, by simp [remove, hk, ht], (List.mem_erase_of_ne ?_).mpr hm⟩
        rintro rfl
        exact hk rfl
    · next hfresh =>
      intro k v hv
      obtain ⟨t, ht, hm⟩ := h k v hv
      refine ⟨t, ht, (List.mem_erase_of_ne ?_).mpr hm⟩
      rintro rfl
      exact hfresh (by simp [isExpired, ht, hlate t now hdue.2])
  · exact h

/-- The task of an entry, once its time has come, hands the entry over. -/
theorem fire_scheduled (hlate : ∀ t now, t ≤ now → late t now = true) {k : κ} {value : γ} {t now : τ}
    (hv : c.cache.lookup k = some value) (ht : c.expirationTimes.lookup k = some t) (hm : (k, t) ∈ c.timers)
    (hnow : t ≤ now) : (fire late c (k, t) now).2 = some value := by
  unfold fire timer
  rw [if_pos ⟨hm, hnow⟩, if_pos (by simp [isExpired, ht, hlate t now hnow])]
  exact hv

end

end TtlCaches

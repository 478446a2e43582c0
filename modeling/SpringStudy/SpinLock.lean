import Mathlib.Algebra.Group.Nat.Defs
import SpringStudy.Runs
import SpringStudy.Interleavings

/-!
# A counter behind a spin lock

Any number of threads call `increment` of the one `SharedResource` again and
again. The lock is a flag that only `compareAndSet` raises; the counter is a
plain 32-bit field that is read and written in two steps.
-/
namespace SpinLock

open Runs Interleavings

/-- The lock: the value of its `AtomicBoolean`. -/
structure Lock where
  locked : Bool
  deriving DecidableEq, Repr

/-- The lock after the instruction, and whether it held `expected`. -/
def Lock.compareAndSet (l : Lock) (expected new : Bool) : Lock × Bool :=
  if l.locked = expected then (⟨new⟩, true) else (l, false)

def Lock.unlock (_ : Lock) : Lock := ⟨false⟩

structure SharedResource where
  spinLock : Lock
  counter : BitVec 32
  /-- The calls of `increment` that have returned; no code reads it. -/
  completed : Nat
  deriving DecidableEq, Repr

/-- What a thread does next in `increment`. -/
inductive Phase where
  /-- No call is in progress; the next step begins one. -/
  | idle
  /-- In `lock`, before a `compareAndSet`. -/
  | locking
  /-- `lock` has returned, `counter` is read next. -/
  | locked
  | loaded (seen : BitVec 32)
  /-- `counter` is written, `unlock` comes next. -/
  | stored
  deriving DecidableEq, Repr

def increment (r : SharedResource) : Phase → SharedResource × Phase
  | .idle => (r, .locking)
  | .locking =>
    let q := r.spinLock.compareAndSet false true
    ({ r with spinLock := q.1 }, if q.2 then .locked else .locking)
  | .locked => (r, .loaded r.counter)
  | .loaded seen => ({ r with counter := seen + 1 }, .stored)
  | .stored => ({ r with spinLock := r.spinLock.unlock, completed := r.completed + 1 }, .idle)

abbrev System := State SharedResource Phase

def init (n : Nat) : System := ⟨⟨⟨false⟩, 0, 0⟩, List.replicate n .idle⟩

def step (s : System) (i : Nat) : System := s.act increment i

/-- Between `lock` and `unlock`. -/
def Phase.holds : Phase → Bool
  | .idle | .locking => false
  | .locked | .loaded _ | .stored => true

/-! ## The lock flag counts the holders -/

/-- How the counter stands to the completed calls while a thread is in this phase. -/
def Fits (r : SharedResource) : Phase → Prop
  | .idle | .locking => True
  | .locked => r.counter = BitVec.ofNat 32 r.completed
  | .loaded seen => seen = BitVec.ofNat 32 r.completed
  | .stored => r.counter = BitVec.ofNat 32 (r.completed + 1)

theorem fits_of_not_holds (r : SharedResource) {t : Phase} (h : ¬ t.holds = true) : Fits r t := by
  cases t with
  | idle | locking => trivial
  | locked | loaded seen | stored => exact absurd rfl h

/-- Whatever the shared state has become, it fits the threads that do not hold the lock. -/
theorem fits_set {threads : List Phase} {i : Nat} {t t' : Phase} (hi : threads[i]? = some t)
    {r : SharedResource} (ht : Fits r t') (h : ∀ u ∈ others threads i, ¬ u.holds = true) :
    ∀ u ∈ threads.set i t', Fits r u :=
  forall_set hi ht fun u hu => fits_of_not_holds r (h u hu)

/-- The flag is raised exactly while one thread holds the lock, and no increment is lost. -/
structure Guarded (s : System) : Prop where
  holders : s.threads.countP Phase.holds = if s.shared.spinLock.locked then 1 else 0
  fits : ∀ t ∈ s.threads, Fits s.shared t
  free : s.shared.spinLock.locked = false → s.shared.counter = BitVec.ofNat 32 s.shared.completed

theorem Guarded.atMostOne {s : System} (h : Guarded s) : s.threads.countP Phase.holds ≤ 1 := by
  rw [h.holders]
  split <;> omega

/-- Nobody holds a free lock. -/
theorem Guarded.nobody {s : System} (h : Guarded s) (hfree : s.shared.spinLock.locked = false) :
    ∀ t ∈ s.threads, ¬ t.holds = true := by
  apply List.countP_eq_zero.mp
  rw [h.holders, hfree]
  rfl

/-- A thread that holds the lock has the flag raised. -/
theorem Guarded.raised {s : System} (h : Guarded s) {t : Phase} (ht : t ∈ s.threads) (hp : t.holds = true) :
    s.shared.spinLock.locked = true := by
  cases hl : s.shared.spinLock.locked with
  | true => rfl
  | false => exact absurd hp (h.nobody hl t ht)

/-- A step that leaves the shared state alone and neither takes nor gives back the lock. -/
theorem Guarded.local {s : System} (h : Guarded s) {i : Nat} {t t' : Phase} (hi : s.threads[i]? = some t)
    (hsame : t'.holds = t.holds) (hfits : Fits s.shared t') : Guarded ⟨s.shared, s.threads.set i t'⟩ where
  holders := by
    rw [countP_set_others hi, hsame, ← countP_eq_others hi]
    exact h.holders
  fits := forall_set hi hfits fun u hu => h.fits u (mem_of_mem_others hu)
  free := h.free

/-- A step of the holder may change the counter: the others look at it only when they hold the lock. -/
theorem Guarded.store {s : System} (h : Guarded s) {i : Nat} {seen : BitVec 32}
    (hi : s.threads[i]? = some (.loaded seen)) :
    Guarded ⟨{ s.shared with counter := seen + 1 }, s.threads.set i .stored⟩ where
  holders := by
    rw [countP_set_others hi]
    exact (countP_eq_others hi Phase.holds).symm.trans h.holders
  fits := by
    have hseen : seen = BitVec.ofNat 32 s.shared.completed := h.fits _ (List.mem_of_getElem? hi)
    refine fits_set hi ?_ (others_not_of_countP hi h.atMostOne rfl)
    show seen + 1 = BitVec.ofNat 32 (s.shared.completed + 1)
    rw [hseen, BitVec.ofNat_add]
    rfl
  free := by
    intro hfree
    have hraised := h.raised (List.mem_of_getElem? hi) rfl
    exact absurd (hfree.symm.trans hraised) Bool.false_ne_true

theorem Guarded.lock {s : System} (h : Guarded s) {i : Nat} (hi : s.threads[i]? = some .locking)
    (hfree : s.shared.spinLock.locked = false) :
    Guarded ⟨{ s.shared with spinLock := ⟨true⟩ }, s.threads.set i .locked⟩ where
  holders := by
    have hnone : (others s.threads i).countP Phase.holds = 0 :=
      List.countP_eq_zero.mpr fun u hu => h.nobody hfree u (mem_of_mem_others hu)
    rw [countP_set_others hi, hnone]
    rfl
  fits := fits_set hi (h.free hfree) fun u hu => h.nobody hfree u (mem_of_mem_others hu)
  free := fun hl => nomatch hl

theorem Guarded.unlock {s : System} (h : Guarded s) {i : Nat} (hi : s.threads[i]? = some .stored) :
    Guarded ⟨{ s.shared with spinLock := ⟨false⟩, completed := s.shared.completed + 1 },
      s.threads.set i .idle⟩ where
  holders := by
    rw [countP_set_others hi]
    exact List.countP_eq_zero.mpr (others_not_of_countP hi h.atMostOne rfl)
  fits := fits_set hi trivial (others_not_of_countP hi h.atMostOne rfl)
  free := fun _ => h.fits _ (List.mem_of_getElem? hi)

theorem step_guarded (s : System) (i : Nat) (h : Guarded s) : Guarded (step s i) := by
  rcases act_cases s increment i with ⟨-, he⟩ | ⟨t, hi, he⟩
  · rw [step, he]
    exact h
  · rw [step, he]
    cases t with
    | idle => exact h.local hi rfl trivial
    | locking =>
      cases hl : s.shared.spinLock.locked with
      | false =>
        simp only [increment, Lock.compareAndSet, hl, if_true]
        exact h.lock hi hl
      | true =>
        -- the instruction fails, and the loop of `lock` goes on
        simp only [increment, Lock.compareAndSet, hl, Bool.true_eq_false, if_false, Bool.false_eq_true]
        exact h.local hi rfl trivial
    | locked =>
      have hfits : Fits s.shared .locked := h.fits _ (List.mem_of_getElem? hi)
      exact h.local hi rfl hfits
    | loaded seen => exact h.store hi
    | stored => exact h.unlock hi

theorem init_guarded (n : Nat) : Guarded (init n) where
  holders := List.countP_eq_zero.mpr fun t ht => by
    rw [List.eq_of_mem_replicate ht]
    exact Bool.false_ne_true
  fits t ht := by
    rw [List.eq_of_mem_replicate ht]
    trivial
  free _ := rfl

theorem run_guarded (n : Nat) (schedule : List Nat) : Guarded (run step (init n) schedule) :=
  run_invariant step_guarded _ schedule (init_guarded n)

/-- However the calls of the threads interleave, at most one thread is between `lock` and
`unlock`, and no increment is lost: with no call in progress the counter is the number
of calls that have returned, as far as 32 bits go. -/
theorem increment_exclusive_and_counted (n : Nat) (schedule : List Nat) :
    (∀ (i j : Nat) (t u : Phase), (run step (init n) schedule).threads[i]? = some t →
      (run step (init n) schedule).threads[j]? = some u → t.holds = true → u.holds = true → i = j) ∧
    ((∀ t ∈ (run step (init n) schedule).threads, t = .idle) →
      (run step (init n) schedule).shared.counter.toNat =
        (run step (init n) schedule).shared.completed % 2 ^ 32) := by
  have h := run_guarded n schedule
  constructor
  · intro i j t u hi hj ht hu
    exact eq_of_countP h.atMostOne hi hj ht hu
  · intro hidle
    cases hl : (run step (init n) schedule).shared.spinLock.locked with
    | false => rw [h.free hl, BitVec.toNat_ofNat]
    | true =>
      -- a raised flag has a holder, and an idle thread is none
      have hone := h.holders
      rw [hl, if_pos rfl] at hone
      obtain ⟨t, ht, hp⟩ := List.countP_pos_iff.mp (Nat.lt_of_lt_of_eq Nat.zero_lt_one hone.symm)
      rw [hidle t ht] at hp
      exact absurd hp Bool.false_ne_true

-- the second thread finds the lock taken twice before its call goes through
example : run step (init 2) [0, 0, 1, 1, 0, 0, 1, 0, 1, 1, 1, 1] = ⟨⟨⟨false⟩, 2, 2⟩, [.idle, .idle]⟩ := by
  decide

end SpinLock

import Mathlib.Algebra.Group.Nat.Defs
import SpringStudy.Runs
import SpringStudy.Interleavings

/-!
# Readers and writers by two counters

`ReadWriteExample` keeps readers and writers apart with two volatile counters: a
thread first looks at them and then counts itself in. Every access to a volatile
field is a step of its own, so a counter update is a read and a later write, and
neither it nor the check before it is atomic.
-/
namespace ReadWrite

open Runs Interleavings

inductive Role where
  | reader | writer
  deriving DecidableEq, Repr

/-- What a thread does next in the loop of `write` or `read`. -/
inductive Phase where
  /-- `shouldStop` is read. -/
  | top
  /-- `readCount > 0` is evaluated, by a writer only. -/
  | checkReaders
  /-- `writeCount > 0` is evaluated. -/
  | checkWriters
  /-- The check is passed; the counter is read for its increment. -/
  | enter
  | entering (seen : BitVec 32)
  /-- The body of the `try` block begins with `message`. -/
  | access
  | print
  /-- The `finally` block reads the counter for its decrement. -/
  | leave
  | leaving (seen : BitVec 32)
  | sleep
  | stopped
  deriving DecidableEq, Repr

structure Thread where
  name : String
  role : Role
  phase : Phase
  /-- The local `request` of a writer, `readMessage` of a reader. -/
  text : String
  deriving DecidableEq, Repr

structure Fields where
  shouldStop : Bool
  readCount : BitVec 32
  writeCount : BitVec 32
  message : String
  printed : List String
  deriving DecidableEq, Repr

/-- The counter that a thread of this role counts itself in. -/
def Fields.count (x : Fields) : Role → BitVec 32
  | .reader => x.readCount
  | .writer => x.writeCount

def Fields.setCount (x : Fields) (role : Role) (n : BitVec 32) : Fields :=
  match role with
  | .reader => { x with readCount := n }
  | .writer => { x with writeCount := n }

/-- The comparison of an `int` with `> 0`. -/
def positive (n : BitVec 32) : Bool := decide (0 < n.toInt)

def Thread.goTo (t : Thread) (phase : Phase) : Thread := { t with phase := phase }

/-- One step of a thread whose loop checks in the phase `check` first and has `body` for
its access to `message`. -/
def loop (role : Role) (check : Phase) (request : Thread → Thread)
    (body : Fields → Thread → Fields × Thread) (x : Fields) (t : Thread) : Fields × Thread :=
  match t.phase with
  | .top => (x, t.goTo (if x.shouldStop then .stopped else check))
  | .checkReaders => (x, t.goTo (if positive x.readCount then .top else .checkWriters))
  | .checkWriters => (x, t.goTo (if positive x.writeCount then .top else .enter))
  | .enter => (x, (request t).goTo (.entering (x.count role)))
  | .entering seen => (x.setCount role (seen + 1), t.goTo .access)
  | .access => ((body x t).1, (body x t).2.goTo .print)
  | .print => ({ x with printed := x.printed ++ [t.name ++ " : " ++ t.text] }, t.goTo .leave)
  | .leave => (x, t.goTo (.leaving (x.count role)))
  | .leaving seen => (x.setCount role (seen - 1), t.goTo .sleep)
  | .sleep => (x, t.goTo .top)
  | .stopped => (x, t)

/-- `now` is what `currentTimeMillis` gives. -/
def write (now : Nat) : Fields → Thread → Fields × Thread :=
  loop .writer .checkReaders (fun t => { t with text := toString now })
    fun x t => ({ x with message := t.text }, t)

def read : Fields → Thread → Fields × Thread :=
  loop .reader .checkWriters id fun x t => (x, { t with text := x.message })

def advance (now : Nat) (x : Fields) (t : Thread) : Fields × Thread :=
  match t.role with
  | .writer => write now x t
  | .reader => read x t

abbrev System := State Fields Thread

inductive Event where
  | thread (i now : Nat)
  /-- `startUp` sets `shouldStop`. -/
  | stop
  deriving DecidableEq, Repr

def step (s : System) : Event → System
  | .thread i now => s.act (advance now) i
  | .stop => { s with shared := { s.shared with shouldStop := true } }

/-- The threads `startUp` has made, with their names; any number of them. -/
def init (message : String) (threads : List (String × Role)) : System :=
  ⟨⟨false, 0, 0, message, []⟩, threads.map fun p => ⟨p.1, p.2, .top, ""⟩⟩

/-! ## Sections -/

/-- Between the increment and the decrement of the counter. -/
def Phase.inside : Phase → Bool
  | .access | .print | .leave => true
  | _ => false

/-- Between the read and the write of a counter update. -/
def Phase.updating : Phase → Bool
  | .entering _ | .leaving _ => true
  | _ => false

/-- While a writer is inside, no other thread is. -/
def Exclusive (s : System) : Prop :=
  ∀ (i j : Nat) (t u : Thread), s.threads[i]? = some t → s.threads[j]? = some u → i ≠ j →
    t.role = .writer → t.phase.inside = true → ¬ u.phase.inside = true

/-- With no thread inside or updating a counter, both counters are 0. -/
def Rested (s : System) : Prop :=
  (∀ t ∈ s.threads, t.phase.inside = false ∧ t.phase.updating = false) →
    s.shared.readCount = 0 ∧ s.shared.writeCount = 0

/-- A counter update writes over the value it has read, and at an increment the check
before it would still be passed. -/
def Atomic (x : Fields) (role : Role) : Phase → Prop
  | .entering seen => seen = x.count role ∧ positive x.writeCount = false ∧
      (role = .writer → positive x.readCount = false)
  | .leaving seen => seen = x.count role
  | _ => True

instance decidableAtomic (x : Fields) (role : Role) : ∀ phase, Decidable (Atomic x role phase)
  | .entering seen => inferInstanceAs (Decidable (seen = x.count role ∧ positive x.writeCount = false ∧
      (role = .writer → positive x.readCount = false)))
  | .leaving seen => inferInstanceAs (Decidable (seen = x.count role))
  | .top | .checkReaders | .checkWriters | .enter | .access | .print | .leave | .sleep | .stopped =>
    inferInstanceAs (Decidable True)

/-- Nobody has come between the check, the read and the write of the thread that steps. -/
def Undisturbed (s : System) : Event → Prop
  | .thread i _ => ∀ t ∈ s.threads[i]?, Atomic s.shared t.role t.phase
  | .stop => True

instance decidableUndisturbed (s : System) : ∀ e, Decidable (Undisturbed s e)
  | .thread i _ => inferInstanceAs (Decidable (∀ t ∈ s.threads[i]?, Atomic s.shared t.role t.phase))
  | .stop => inferInstanceAs (Decidable True)

/-! ## What a step does to the counters -/

/-- Counted in: the increment is written and the decrement is not. -/
def Phase.registered : Phase → Bool
  | .access | .print | .leave | .leaving _ => true
  | _ => false

theorem Phase.registered_of_inside {phase : Phase} (h : phase.inside = true) : phase.registered = true := by
  cases phase <;> first | rfl | cases h

theorem Phase.inside_or_updating {phase : Phase} (h : phase.registered = true) :
    phase.inside = true ∨ phase.updating = true := by
  cases phase <;> first | exact .inl rfl | exact .inr rfl | cases h

/-- A step that is no write of a counter. -/
structure Quiet (x : Fields) (t : Thread) (q : Fields × Thread) : Prop where
  counts : ∀ role, q.1.count role = x.count role
  role : q.2.role = t.role
  registered : q.2.phase.registered = t.phase.registered
  atomic : Atomic x t.role t.phase

/-- A step writes an increment, a decrement or no counter. -/
inductive Writes (x : Fields) (t : Thread) : Fields × Thread → Prop where
  | increment (seen : BitVec 32) (h : t.phase = .entering seen) :
    Writes x t (x.setCount t.role (seen + 1), t.goTo .access)
  | decrement (seen : BitVec 32) (h : t.phase = .leaving seen) :
    Writes x t (x.setCount t.role (seen - 1), t.goTo .sleep)
  | nothing (q : Fields × Thread) (h : Quiet x t q) : Writes x t q

/-- The thread only goes on to the phase `new`. -/
theorem quiet_goTo (x : Fields) {t : Thread} {old new : Phase} (hphase : t.phase = old)
    (hreg : new.registered = old.registered) (hatomic : Atomic x t.role old) : Quiet x t (x, t.goTo new) where
  counts _ := rfl
  role := rfl
  registered := hphase ▸ hreg
  atomic := hphase ▸ hatomic

theorem loop_writes {check : Phase} {request : Thread → Thread} {body : Fields → Thread → Fields × Thread}
    (hcheck : check.registered = false) (hrequest : ∀ t, (request t).role = t.role)
    (hbody : ∀ x t, (∀ role, (body x t).1.count role = x.count role) ∧ (body x t).2.role = t.role)
    (x : Fields) (t : Thread) : Writes x t (loop t.role check request body x t) := by
  unfold loop
  cases hphase : t.phase with
  | top =>
    refine .nothing _ (quiet_goTo x hphase ?_ trivial)
    split
    · rfl
    · exact hcheck
  | checkReaders =>
    refine .nothing _ (quiet_goTo x hphase ?_ trivial)
    split <;> rfl
  | checkWriters =>
    refine .nothing _ (quiet_goTo x hphase ?_ trivial)
    split <;> rfl
  | enter => exact .nothing _ ⟨fun _ => rfl, hrequest t, by rw [hphase]; rfl, by rw [hphase]; trivial⟩
  | entering seen => exact .increment seen hphase
  | access => exact .nothing _ ⟨(hbody x t).1, (hbody x t).2, by rw [hphase]; rfl, by rw [hphase]; trivial⟩
  | print => exact .nothing _ ⟨fun role => by cases role <;> rfl, rfl, by rw [hphase]; rfl, by rw [hphase]; trivial⟩
  | leave => exact .nothing _ (quiet_goTo x hphase rfl trivial)
  | leaving seen => exact .decrement seen hphase
  | sleep => exact .nothing _ (quiet_goTo x hphase rfl trivial)
  | stopped => exact .nothing _ ⟨fun _ => rfl, rfl, rfl, by rw [hphase]; trivial⟩

theorem advance_writes (now : Nat) (x : Fields) (t : Thread) : Writes x t (advance now x t) := by
  unfold advance
  cases hrole : t.role with
  | writer =>
    show Writes x t (loop .writer _ _ _ x t)
    rw [← hrole]
    apply loop_writes rfl
    · exact fun _ => rfl
    · exact fun _ _ => ⟨fun role => by cases role <;> rfl, rfl⟩
  | reader =>
    show Writes x t (loop .reader _ _ _ x t)
    rw [← hrole]
    apply loop_writes rfl
    · exact fun _ => rfl
    · exact fun _ _ => ⟨fun _ => rfl, rfl⟩

/-! ## Counters that tell who is counted in -/

def countedIn (role : Role) (t : Thread) : Bool := decide (role = t.role) && t.phase.registered

/-- The number of threads of the role that are counted in. -/
def tally (threads : List Thread) (role : Role) : Nat := threads.countP (countedIn role)

/-- The counters tell how many threads are counted in, and that is one writer or only readers. -/
structure Told (s : System) : Prop where
  counts : ∀ role, s.shared.count role = BitVec.ofNat 32 (tally s.threads role)
  apart : tally s.threads .writer = 0 ∨ tally s.threads .writer = 1 ∧ tally s.threads .reader = 0

theorem told_iff {s : System} : Told s ↔
    s.shared.readCount = BitVec.ofNat 32 (tally s.threads .reader) ∧
    s.shared.writeCount = BitVec.ofNat 32 (tally s.threads .writer) ∧
    (tally s.threads .writer = 0 ∨ tally s.threads .writer = 1 ∧ tally s.threads .reader = 0) := by
  constructor
  · intro h
    exact ⟨h.counts .reader, h.counts .writer, h.apart⟩
  · rintro ⟨hr, hw, hapart⟩
    refine ⟨fun role => ?_, hapart⟩
    cases role with
    | reader => exact hr
    | writer => exact hw

/-- `> 0` means what it says of a number of fewer than `2 ^ 31` threads. -/
theorem positive_ofNat {n : Nat} (h : n < 2 ^ 31) : positive (BitVec.ofNat 32 n) = false ↔ n = 0 := by
  have hn : (BitVec.ofNat 32 n).toInt = n := by
    rw [BitVec.toInt_ofNat']
    exact Int.bmod_eq_of_le (by omega) (by omega)
  simp only [positive, hn, decide_eq_false_iff_not]
  omega

section
variable {threads : List Thread} {i : Nat} {t t' : Thread} (hi : threads[i]? = some t)
  (hrole : t'.role = t.role)
include hi hrole

theorem tally_set_same (hreg : t'.phase.registered = t.phase.registered) (role : Role) :
    tally (threads.set i t') role = tally threads role := by
  have hsame : countedIn role t' = countedIn role t := by rw [countedIn, countedIn, hrole, hreg]
  rw [tally, tally, countP_set_others hi, hsame, ← countP_eq_others hi]

theorem tally_set_enter (hold : t.phase.registered = false) (hnew : t'.phase.registered = true) (role : Role) :
    tally (threads.set i t') role = tally threads role + if role = t.role then 1 else 0 := by
  rw [tally, tally, countP_set_others hi, countP_eq_others hi]
  simp [countedIn, hrole, hold, hnew]

theorem tally_set_leave (hold : t.phase.registered = true) (hnew : t'.phase.registered = false) (role : Role) :
    tally threads role = tally (threads.set i t') role + if role = t.role then 1 else 0 := by
  rw [tally, tally, countP_set_others hi, countP_eq_others hi]
  simp [countedIn, hrole, hold, hnew]

end

theorem tally_le (threads : List Thread) (role : Role) : tally threads role ≤ threads.length :=
  List.countP_le_length

/-- A count of one more is told by an increment of what was there, and by nothing else. -/
theorem increment_tells {n : Nat} {seen : BitVec 32} :
    seen + 1 = BitVec.ofNat 32 (n + 1) ↔ seen = BitVec.ofNat 32 n := by
  rw [BitVec.ofNat_add]
  exact BitVec.add_left_inj 1

theorem decrement_tells {n : Nat} {seen : BitVec 32} :
    seen - 1 = BitVec.ofNat 32 n ↔ seen = BitVec.ofNat 32 (n + 1) := by
  rw [BitVec.ofNat_add, eq_comm, BitVec.eq_sub_iff_add_eq, eq_comm]
  rfl

section
variable {s : System} (h : Told s) {i : Nat} {t : Thread} {seen : BitVec 32} (hi : s.threads[i]? = some t)
include h hi

theorem told_quiet {q : Fields × Thread} (hq : Quiet s.shared t q) : Told ⟨q.1, s.threads.set i q.2⟩ := by
  have htally := tally_set_same hi hq.role hq.registered
  refine ⟨fun role => ?_, ?_⟩
  · rw [hq.counts, h.counts, htally]
  · rw [htally, htally]
    exact h.apart

/-- An increment keeps the counters telling exactly when it comes at once after its read
and its check. -/
theorem told_increment_iff (hlen : s.threads.length < 2 ^ 31) (hphase : t.phase = .entering seen) :
    Told ⟨s.shared.setCount t.role (seen + 1), s.threads.set i (t.goTo .access)⟩ ↔
      Atomic s.shared t.role (.entering seen) := by
  have htally : ∀ role, tally (s.threads.set i (t.goTo .access)) role =
      tally s.threads role + if role = t.role then 1 else 0 :=
    tally_set_enter hi rfl (by rw [hphase]; rfl) rfl
  have hpos : ∀ role, positive (BitVec.ofNat 32 (tally s.threads role)) = false ↔ tally s.threads role = 0 :=
    fun role => positive_ofNat (Nat.lt_of_le_of_lt (tally_le _ _) hlen)
  obtain ⟨hr, hw, -⟩ := told_iff.mp h
  rw [told_iff]
  cases hrole : t.role with
  | reader =>
    simp only [htally, hrole, Fields.setCount, hw, Atomic, Fields.count, hr, hpos, increment_tells,
      if_true, reduceCtorEq, if_false, Nat.add_zero, true_and, false_imp_iff, and_true, and_false, or_false]
  | writer =>
    simp only [htally, hrole, Fields.setCount, hw, Atomic, Fields.count, hr, hpos, increment_tells,
      if_true, reduceCtorEq, if_false, Nat.add_zero, true_and, true_imp_iff, false_or]
    exact and_congr_right fun _ => by omega

theorem told_decrement_iff (hphase : t.phase = .leaving seen) :
    Told ⟨s.shared.setCount t.role (seen - 1), s.threads.set i (t.goTo .sleep)⟩ ↔
      Atomic s.shared t.role (.leaving seen) := by
  have htally : ∀ role, tally s.threads role =
      tally (s.threads.set i (t.goTo .sleep)) role + if role = t.role then 1 else 0 :=
    tally_set_leave hi rfl (by rw [hphase]; rfl) rfl
  obtain ⟨hr, hw, hapart⟩ := told_iff.mp h
  rw [told_iff]
  cases hrole : t.role with
  | reader =>
    simp only [htally, hrole, if_true, reduceCtorEq, if_false, Nat.add_zero, and_false, or_false] at hr hw hapart
    simp only [Fields.setCount, hw, Atomic, Fields.count, hr, decrement_tells, true_and]
    exact and_iff_left (by omega)
  | writer =>
    simp only [htally, hrole, if_true, reduceCtorEq, if_false, Nat.add_zero, false_or] at hr hw hapart
    simp only [Fields.setCount, hw, Atomic, Fields.count, hr, decrement_tells, true_and]
    exact and_iff_left (by omega)

end

theorem step_told_iff (s : System) (e : Event) (hlen : s.threads.length < 2 ^ 31) (h : Told s) :
    Told (step s e) ↔ Undisturbed s e := by
  cases e with
  | stop =>
    have hsame : Told (step s .stop) := told_iff.mpr ⟨h.counts .reader, h.counts .writer, h.apart⟩
    exact iff_of_true hsame trivial
  | thread i now =>
    rcases act_cases s (advance now) i with ⟨hi, he⟩ | ⟨t, hi, he⟩
    · have hsame : Told (step s (.thread i now)) := by rwa [step, he]
      refine iff_of_true hsame ?_
      intro t ht
      rw [hi] at ht
      cases ht
    · have hund : Undisturbed s (.thread i now) ↔ Atomic s.shared t.role t.phase := by
        simp [Undisturbed, hi]
      rw [hund, step, he]
      have hwrites := advance_writes now s.shared t
      generalize advance now s.shared t = q at hwrites ⊢
      cases hwrites with
      | increment seen hphase =>
        rw [hphase]
        exact told_increment_iff h hi hlen hphase
      | decrement seen hphase =>
        rw [hphase]
        exact told_decrement_iff h hi hphase
      | nothing _ hq => exact iff_of_true (told_quiet h hi hq) hq.atomic

theorem init_told (message : String) (threads : List (String × Role)) : Told (init message threads) := by
  have hnone : ∀ role, tally (init message threads).threads role = 0 := by
    intro role
    apply List.countP_eq_zero.mpr
    intro t ht
    obtain ⟨p, -, rfl⟩ := List.mem_map.mp ht
    simp [countedIn, Phase.registered]
  exact told_iff.mpr ⟨by rw [hnone]; rfl, by rw [hnone]; rfl, .inl (hnone .writer)⟩

theorem step_length (s : System) (e : Event) : (step s e).threads.length = s.threads.length := by
  cases e with
  | stop => rfl
  | thread i now => exact length_act s (advance now) i

/-- The counters tell who is counted in for as long as no counter update and no check
before an increment is interrupted. -/
theorem told_throughout_iff (message : String) (threads : List (String × Role)) (events : List Event)
    (hlen : threads.length < 2 ^ 31) :
    Throughout step Told (init message threads) events ↔ Along step Undisturbed (init message threads) events := by
  refine throughout_iff_along (J := fun s => s.threads.length < 2 ^ 31) ?_ ?_ _ events ?_ (init_told message threads)
  · intro s e hs _
    rwa [step_length]
  · exact step_told_iff
  · rwa [init, List.length_map]

/-! ## Exclusion -/

theorem countedIn_of_inside {t : Thread} (h : t.phase.inside = true) : countedIn t.role t = true := by
  simp [countedIn, Phase.registered_of_inside h]

theorem Told.exclusive {s : System} (h : Told s) : Exclusive s := by
  intro i j t u hi hj hne hwriter ht hu
  have htin : countedIn .writer t = true := hwriter ▸ countedIn_of_inside ht
  have hpos : 0 < tally s.threads .writer := List.countP_pos_iff.mpr ⟨t, List.mem_of_getElem? hi, htin⟩
  have hone : tally s.threads .writer ≤ 1 ∧ tally s.threads .reader = 0 := by
    have hapart := h.apart
    omega
  have huin := countedIn_of_inside hu
  cases hrole : u.role with
  | writer => exact hne (eq_of_countP hone.1 hi hj htin (hrole ▸ huin))
  | reader => exact List.countP_eq_zero.mp hone.2 u (List.mem_of_getElem? hj) (hrole ▸ huin)

theorem Told.rested {s : System} (h : Told s) : Rested s := by
  intro hout
  have hnone : ∀ role, tally s.threads role = 0 := by
    intro role
    apply List.countP_eq_zero.mpr
    intro t ht hin
    obtain ⟨hinside, hupdating⟩ := hout t ht
    rcases Phase.inside_or_updating (Bool.and_eq_true_iff.mp hin).2 with h | h
    · exact Bool.false_ne_true (hinside.symm.trans h)
    · exact Bool.false_ne_true (hupdating.symm.trans h)
  obtain ⟨hr, hw, -⟩ := told_iff.mp h
  rw [hr, hw, hnone, hnone]
  exact ⟨rfl, rfl⟩

/-- If no thread is interrupted between its check and the writes of its counter updates, a
writer is alone inside, and the counters are back at 0 when everybody is out. -/
theorem exclusive_rested_of_undisturbed (message : String) (threads : List (String × Role)) (events : List Event)
    (hlen : threads.length < 2 ^ 31) (h : Along step Undisturbed (init message threads) events) :
    Throughout step (fun s => Exclusive s ∧ Rested s) (init message threads) events :=
  ((told_throughout_iff message threads events hlen).mpr h).mono fun _ hs => ⟨hs.exclusive, hs.rested⟩

/-- The steps of one thread, one after the other. -/
def steps (i n : Nat) : List Event := List.replicate n (.thread i 0)

def oneWriterTwoReaders : System :=
  init "0" [("Writer0", .writer), ("Reader0", .reader), ("Reader1", .reader)]

/-- Both readers are inside while the writer looks; it goes in when they are out. -/
def readersFirst : List Event :=
  steps 1 4 ++ steps 2 4 ++ steps 0 2 ++ steps 1 4 ++ steps 2 4 ++ steps 0 9

def whoIsInside (s : System) : List Bool := s.threads.map fun t => t.phase.inside

theorem readersFirst_exclusive_rested :
    whoIsInside (run step oneWriterTwoReaders (readersFirst.take 8)) = [false, true, true] ∧
    whoIsInside (run step oneWriterTwoReaders (readersFirst.take 23)) = [true, false, false] ∧
    Along step Undisturbed oneWriterTwoReaders readersFirst ∧
    Throughout step (fun s => Exclusive s ∧ Rested s) oneWriterTwoReaders readersFirst := by
  have h : Along step Undisturbed oneWriterTwoReaders readersFirst := by decide +kernel
  exact ⟨by decide +kernel, by decide +kernel, h,
    exclusive_rested_of_undisturbed "0" _ readersFirst (by decide) h⟩

/-- Two threads take each step in turn. -/
def inTurn (n : Nat) : List Event := (List.replicate n [Event.thread 0 0, .thread 1 0]).flatten

/-- Two writers that check before either has counted itself in are both inside. Two readers
that increment together lose one increment but no decrement, and `readCount` ends below 0. -/
theorem bothChecked_not_exclusive_not_rested :
    ¬ Exclusive (run step (init "0" [("Writer0", .writer), ("Writer1", .writer)]) (inTurn 5)) ∧
    ¬ Rested (run step (init "0" [("Reader0", .reader), ("Reader1", .reader)])
      (inTurn 4 ++ steps 0 4 ++ steps 1 4)) := by
  constructor
  · intro h
    exact h 0 1 _ _ rfl rfl (by decide) rfl rfl rfl
  · intro h
    have hzero := h (by decide +kernel)
    revert hzero
    decide +kernel

end ReadWrite

import Mathlib.Data.List.Chain
import SpringStudy.Runs
import SpringStudy.Interleavings

/-!
# A document that is saved when it has been changed

Any number of threads call `change` and `save` of one `Document`. `save` waits on the
document until it has been changed, and `change` wakes one of those who wait, whichever
the virtual machine picks. A thread that waits may also wake up by itself, or be
interrupted, in which case `save` returns and has not saved.
-/
namespace Balking

open Runs Interleavings

inductive Line where
  | changed
  | waiting
  | saving
  | error
  deriving DecidableEq, Repr

structure Document where
  changed : Bool
  /-- The wait set of the document, by the numbers of the threads. -/
  waiters : List Nat
  log : List Line
  deriving DecidableEq, Repr

inductive Call where
  | change
  | save
  deriving DecidableEq, Repr

inductive Phase where
  | ready
  /-- In `wait`; it returns once the thread is out of the wait set. -/
  | waiting
  /-- In `wait`, which is about to throw an `InterruptedException`. -/
  | interrupted
  deriving DecidableEq, Repr

structure Thread where
  /-- The call the thread is in or makes next, and those after it. -/
  calls : List Call
  phase : Phase
  /-- The interrupt status. -/
  isInterrupted : Bool
  deriving DecidableEq, Repr

def Thread.returns (t : Thread) : Thread := { t with calls := t.calls.tail, phase := .ready }

/-! Both methods are `synchronized`, so that a call, up to its return or to `wait`, is one step. -/

/-- `pick` tells which of the waiting threads is woken. -/
def Document.notify (d : Document) (pick : Nat) : Document :=
  { d with waiters := d.waiters.eraseIdx (pick % d.waiters.length) }

def Document.change (d : Document) (pick : Nat) : Document :=
  Document.notify { d with changed := true, log := d.log ++ [.changed] } pick

/-- The loop of `save`, from its condition on, in thread `i`. With the interrupt status set, `wait`
throws at once. -/
def save (i : Nat) (d : Document) (t : Thread) : Document × Thread :=
  if d.changed then ({ d with changed := false, log := d.log ++ [.saving] }, t.returns)
  else if t.isInterrupted then ({ d with log := d.log ++ [.waiting, .error] }, t.returns)
  else ({ d with waiters := i :: d.waiters, log := d.log ++ [.waiting] }, { t with phase := .waiting })

def advance (i pick : Nat) (d : Document) (t : Thread) : Document × Thread :=
  match t.phase with
  | .ready =>
    match t.calls with
    | [] => (d, t)
    | .change :: _ => (d.change pick, t.returns)
    | .save :: _ => save i d t
  | .waiting => if i ∈ d.waiters then (d, t) else save i d t
  | .interrupted => ({ d with log := d.log ++ [.error] }, t.returns)

/-- Thread `i` is interrupted by somebody else. If it has been notified before, `wait` still returns. -/
def interrupt (i : Nat) (d : Document) (t : Thread) : Document × Thread :=
  if i ∈ d.waiters then
    ({ d with waiters := d.waiters.erase i }, { t with phase := .interrupted, isInterrupted := true })
  else (d, { t with isInterrupted := true })

inductive Event where
  | thread (i pick : Nat)
  | interrupt (i : Nat)
  | spuriousWakeup (i : Nat)
  deriving DecidableEq, Repr

abbrev System := State Document Thread

def step (s : System) : Event → System
  | .thread i pick => s.act (advance i pick) i
  | .interrupt i => s.act (Balking.interrupt i) i
  | .spuriousWakeup i => { s with shared := { s.shared with waiters := s.shared.waiters.erase i } }

/-- The threads start with the calls they are going to make. -/
def init (programs : List (List Call)) : System :=
  ⟨⟨false, [], []⟩, programs.map fun calls => ⟨calls, .ready, false⟩⟩

/-! ## What a step can do -/

inductive Goes (i : Nat) (d : Document) (t : Thread) : Document → Thread → Prop where
  | stay : Goes i d t d t
  | change (pick : Nat) (hphase : t.phase = .ready) : Goes i d t (d.change pick) t.returns
  | save (hchanged : d.changed = true) :
      Goes i d t { d with changed := false, log := d.log ++ [.saving] } t.returns
  | wait (hchanged : d.changed = false) (hi : i ∉ d.waiters) :
      Goes i d t { d with waiters := i :: d.waiters, log := d.log ++ [.waiting] } { t with phase := .waiting }
  | refuse (hchanged : d.changed = false) : Goes i d t { d with log := d.log ++ [.waiting, .error] } t.returns
  | throw (hphase : t.phase = .interrupted) : Goes i d t { d with log := d.log ++ [.error] } t.returns

theorem save_goes {i : Nat} {d : Document} {t : Thread} (hi : i ∉ d.waiters) :
    Goes i d t (save i d t).1 (save i d t).2 := by
  unfold save
  split
  · next h => exact .save h
  · next h =>
    rw [Bool.not_eq_true] at h
    split
    · exact .refuse h
    · exact .wait h hi

/-- A thread that is not in `wait` is not in the wait set. -/
theorem advance_goes (i pick : Nat) {d : Document} {t : Thread} (hi : i ∈ d.waiters → t.phase = .waiting) :
    Goes i d t (advance i pick d t).1 (advance i pick d t).2 := by
  unfold advance
  split
  · next hphase =>
    have hnot : i ∉ d.waiters := fun h => by cases hphase.symm.trans (hi h)
    split
    · exact .stay
    · exact .change pick hphase
    · exact save_goes hnot
  · split
    · exact .stay
    · next hnot => exact save_goes hnot
  · next hphase => exact .throw hphase

/-! ## No notification is lost -/

/-- Whoever is in the wait set is in `wait`; and when the document has been changed and somebody
waits, somebody else has been notified and is going to look at it. -/
structure Watched (s : System) : Prop where
  waiting : ∀ i ∈ s.shared.waiters, ∃ t, s.threads[i]? = some t ∧ t.phase = .waiting
  nodup : s.shared.waiters.Nodup
  notified : s.shared.changed = true → s.shared.waiters = [] ∨
    ∃ i t, s.threads[i]? = some t ∧ t.phase = .waiting ∧ i ∉ s.shared.waiters

section
variable {d d' : Document} {threads : List Thread} {i : Nat} {t t' : Thread}

/-- The threads in a wait set without `i` do not notice what becomes of thread `i`. -/
theorem waiting_set {waiters : List Nat} (h : ∀ j ∈ waiters, ∃ t, threads[j]? = some t ∧ t.phase = .waiting)
    (hi : i ∉ waiters) (t' : Thread) :
    ∀ j ∈ waiters, ∃ t, (threads.set i t')[j]? = some t ∧ t.phase = .waiting := by
  intro j hj
  have hne : i ≠ j := fun heq => hi (heq ▸ hj)
  rw [List.getElem?_set_ne hne]
  exact h j hj

theorem notify_watched (hi : threads[i]? = some t) (hphase : t.phase = .ready) (pick : Nat)
    (h : Watched ⟨d, threads⟩) : Watched ⟨d.change pick, threads.set i t'⟩ := by
  have hout : i ∉ d.waiters := by
    intro hmem
    obtain ⟨t₁, ht₁, hp⟩ := h.waiting i hmem
    obtain rfl := Option.some.inj (hi.symm.trans ht₁)
    cases hphase.symm.trans hp
  have hsub : ∀ j ∈ (d.change pick).waiters, j ∈ d.waiters := fun j hj => List.mem_of_mem_eraseIdx hj
  have hset := waiting_set h.waiting hout t'
  refine ⟨fun j hj => hset j (hsub j hj), h.nodup.sublist (List.eraseIdx_sublist _ _), fun _ => ?_⟩
  cases hw : d.waiters with
  | nil =>
    left
    show d.waiters.eraseIdx _ = []
    rw [hw]
    rfl
  | cons first rest =>
    -- the thread that was picked is in `wait` and out of the wait set
    have hlt : pick % d.waiters.length < d.waiters.length := Nat.mod_lt _ (by rw [hw]; exact Nat.succ_pos _)
    have hmem : d.waiters[pick % d.waiters.length] ∈ d.waiters := List.getElem_mem hlt
    obtain ⟨t₁, ht₁, hp⟩ := hset _ hmem
    refine .inr ⟨_, t₁, ht₁, hp, ?_⟩
    have hnodup : (_ :: d.waiters.eraseIdx _).Nodup :=
      (List.getElem_cons_eraseIdx_perm hlt).nodup_iff.mpr h.nodup
    exact (List.nodup_cons.mp hnodup).1

/-- The others are still where they were. -/
theorem notified_set {waiters : List Nat} (hi : threads[i]? = some t) (hphase : t.phase ≠ .waiting)
    (h : ∃ j t, threads[j]? = some t ∧ t.phase = .waiting ∧ j ∉ waiters) (t' : Thread) :
    ∃ j t, (threads.set i t')[j]? = some t ∧ t.phase = .waiting ∧ j ∉ waiters := by
  obtain ⟨j, t₁, ht₁, hp, hj⟩ := h
  have hne : i ≠ j := by
    rintro rfl
    obtain rfl := Option.some.inj (hi.symm.trans ht₁)
    exact hphase hp
  exact ⟨j, t₁, by rw [List.getElem?_set_ne hne]; exact ht₁, hp, hj⟩

theorem goes_watched (hgoes : Goes i d t d' t') (hi : threads[i]? = some t)
    (hactive : i ∉ d.waiters ∨ d' = d ∧ t' = t) (h : Watched ⟨d, threads⟩) :
    Watched ⟨d', threads.set i t'⟩ := by
  have hsame : threads.set i t = threads := by
    obtain ⟨hlt, rfl⟩ := List.getElem?_eq_some_iff.mp hi
    exact List.set_getElem_self hlt
  rcases hactive with hout | ⟨rfl, rfl⟩
  · have hset := waiting_set h.waiting hout
    cases hgoes with
    | stay =>
      rw [hsame]
      exact h
    | change pick hphase => exact notify_watched hi hphase pick h
    | save hchanged => exact ⟨hset _, h.nodup, fun hc => by cases hc⟩
    | wait hchanged _ =>
      refine ⟨fun j hj => ?_, List.nodup_cons.mpr ⟨hout, h.nodup⟩, fun hc => ?_⟩
      · rcases List.mem_cons.mp hj with rfl | hj
        · obtain ⟨hlt, -⟩ := List.getElem?_eq_some_iff.mp hi
          exact ⟨_, List.getElem?_set_self hlt, rfl⟩
        · exact hset _ j hj
      · cases hchanged.symm.trans hc
    | refuse hchanged => exact ⟨hset _, h.nodup, fun hc => by cases hchanged.symm.trans hc⟩
    | throw hphase =>
      refine ⟨hset _, h.nodup, fun hc => (h.notified hc).imp_right fun hn => ?_⟩
      exact notified_set hi (by rw [hphase]; decide) hn _
  · rw [hsame]
    exact h

end

theorem step_watched (s : System) (e : Event) (h : Watched s) : Watched (step s e) := by
  cases e with
  | thread i pick =>
    rcases act_cases s (advance i pick) i with ⟨-, heq⟩ | ⟨t, hi, heq⟩
    · rw [step, heq]
      exact h
    · rw [step, heq]
      have hwaiting : i ∈ s.shared.waiters → t.phase = .waiting := by
        intro hmem
        obtain ⟨t₁, ht₁, hp⟩ := h.waiting i hmem
        obtain rfl := Option.some.inj (hi.symm.trans ht₁)
        exact hp
      refine goes_watched (advance_goes i pick hwaiting) hi ?_ h
      by_cases hmem : i ∈ s.shared.waiters
      · right
        simp only [advance, hwaiting hmem, if_pos hmem, and_self]
      · exact .inl hmem
  | interrupt i =>
    rcases act_cases s (interrupt i) i with ⟨-, heq⟩ | ⟨t, hi, heq⟩
    · rw [step, heq]
      exact h
    · rw [step, heq]
      unfold interrupt
      by_cases hmem : i ∈ s.shared.waiters
      · rw [if_pos hmem]
        have hnot : i ∉ s.shared.waiters.erase i := h.nodup.not_mem_erase
        have hrest : ∀ j ∈ s.shared.waiters.erase i, ∃ t, s.threads[j]? = some t ∧ t.phase = .waiting :=
          fun j hj => h.waiting j (List.mem_of_mem_erase hj)
        refine ⟨waiting_set hrest hnot _, h.nodup.erase i, fun hc => ?_⟩
        rcases h.notified hc with hnil | ⟨j, t₁, ht₁, hp, hj⟩
        · rw [hnil] at hmem
          cases hmem
        · have hne : i ≠ j := fun heq => hj (heq ▸ hmem)
          exact .inr ⟨j, t₁, by rw [List.getElem?_set_ne hne]; exact ht₁, hp,
            fun hmem => hj (List.mem_of_mem_erase hmem)⟩
      · rw [if_neg hmem]
        refine ⟨waiting_set h.waiting hmem _, h.nodup, fun hc => (h.notified hc).imp_right ?_⟩
        rintro ⟨j, t₁, ht₁, hp, hj⟩
        by_cases heq : i = j
        · subst heq
          obtain rfl := Option.some.inj (hi.symm.trans ht₁)
          obtain ⟨hlt, -⟩ := List.getElem?_eq_some_iff.mp hi
          exact ⟨i, _, List.getElem?_set_self hlt, hp, hmem⟩
        · exact ⟨j, t₁, by rw [List.getElem?_set_ne heq]; exact ht₁, hp, hj⟩
  | spuriousWakeup i =>
    refine ⟨fun j hj => h.waiting j (List.mem_of_mem_erase hj), h.nodup.erase i, fun hc => ?_⟩
    rcases h.notified hc with hnil | ⟨j, t₁, ht₁, hp, hj⟩
    · left
      show s.shared.waiters.erase i = []
      rw [hnil]
      rfl
    · exact .inr ⟨j, t₁, ht₁, hp, fun hmem => hj (List.mem_of_mem_erase hmem)⟩

theorem init_watched (programs : List (List Call)) : Watched (init programs) :=
  ⟨fun _ hi => (by cases hi), List.nodup_nil, fun _ => .inl rfl⟩

theorem run_watched (programs : List (List Call)) (events : List Event) :
    Watched (run step (init programs) events) :=
  run_invariant step_watched _ events (init_watched programs)

/-- Whenever the document has been changed and somebody waits in vain, some thread can go on and
saves it. So threads that have come to a stand have left no change unsaved. -/
theorem changed_document_is_saved_next (programs : List (List Call)) (events : List Event) :
    let s := run step (init programs) events
    s.shared.changed = true → s.shared.waiters ≠ [] →
      ∃ i, ∀ pick, (step s (.thread i pick)).shared =
        { s.shared with changed := false, log := s.shared.log ++ [.saving] } := by
  intro s hchanged hwaiters
  rcases (run_watched programs events).notified hchanged with hnil | ⟨i, t, hi, hp, hout⟩
  · exact absurd hnil hwaiters
  · refine ⟨i, fun pick => ?_⟩
    rcases act_cases s (advance i pick) i with ⟨hnone, -⟩ | ⟨t₁, ht₁, heq⟩
    · cases hi.symm.trans hnone
    · obtain rfl := Option.some.inj (hi.symm.trans ht₁)
      rw [step, heq]
      simp only [advance, hp]
      rw [if_neg hout, save, if_pos hchanged]

/-- Two savers wait, and one of them has been woken. -/
theorem changed_document_is_saved_next_woken :
    let s := run step (init [[.save], [.save], [.change]]) [.thread 0 0, .thread 1 0, .thread 2 1]
    s.shared.waiters = [1] ∧ ∃ i, ∀ pick, (step s (.thread i pick)).shared =
      { s.shared with changed := false, log := s.shared.log ++ [.saving] } :=
  ⟨by decide, changed_document_is_saved_next [[.save], [.save], [.change]]
    [.thread 0 0, .thread 1 0, .thread 2 1] (by decide) (by decide)⟩

/-! ## What has been saved -/

def Line.tells : Line → Bool
  | .changed | .saving => true
  | .waiting | .error => false

/-- What has become of the document, which counts as saved in the beginning. -/
def history (d : Document) : List Line := .saving :: d.log.filter Line.tells

/-- Each save comes right after a change, and the flag tells of the last of both. -/
structure Kept (d : Document) : Prop where
  saves : (history d).IsChain fun a b => b = .saving → a = .changed
  flag : d.changed = true ↔ (history d).getLast? = some .changed

theorem history_snoc (d : Document) (changed : Bool) (waiters : List Nat) (line : Line) (hline : line.tells = true) :
    history ⟨changed, waiters, d.log ++ [line]⟩ = history d ++ [line] := by
  simp only [history, List.filter_append, List.filter_cons, hline, if_true, List.filter_nil, List.cons_append]

theorem history_silent (d : Document) (changed : Bool) (waiters : List Nat) (lines : List Line)
    (hlines : ∀ line ∈ lines, line.tells = false) : history ⟨changed, waiters, d.log ++ lines⟩ = history d := by
  have hnone : lines.filter Line.tells = [] := by
    rw [List.filter_eq_nil_iff]
    intro line hline
    rw [hlines line hline]
    decide
  simp only [history, List.filter_append, hnone, List.append_nil]

theorem Kept.silent {d : Document} (h : Kept d) (waiters : List Nat) (lines : List Line)
    (hlines : ∀ line ∈ lines, line.tells = false) : Kept ⟨d.changed, waiters, d.log ++ lines⟩ := by
  have heq := history_silent d d.changed waiters lines hlines
  exact ⟨by rw [heq]; exact h.saves, by rw [heq]; exact h.flag⟩

theorem goes_kept {i : Nat} {d d' : Document} {t t' : Thread} (hgoes : Goes i d t d' t') (h : Kept d) : Kept d' := by
  cases hgoes with
  | stay => exact h
  | change pick hphase =>
    have heq := history_snoc d true (d.waiters.eraseIdx (pick % d.waiters.length)) .changed rfl
    constructor
    · show (history ⟨true, _, d.log ++ [.changed]⟩).IsChain _
      rw [heq, List.isChain_append]
      refine ⟨h.saves, List.isChain_singleton _, fun a _ b hb hsaving => ?_⟩
      cases hb
      cases hsaving
    · show true = true ↔ (history ⟨true, _, d.log ++ [.changed]⟩).getLast? = some .changed
      rw [heq, List.getLast?_append]
      exact ⟨fun _ => rfl, fun _ => rfl⟩
  | save hchanged =>
    have heq := history_snoc d false d.waiters .saving rfl
    constructor
    · rw [heq, List.isChain_append]
      refine ⟨h.saves, List.isChain_singleton _, fun a ha b _ _ => ?_⟩
      exact Option.some.inj (ha.symm.trans (h.flag.mp hchanged))
    · rw [heq, List.getLast?_append]
      exact ⟨fun hc => (by cases hc), fun hl => by cases hl⟩
  | wait hchanged _ => exact h.silent _ [.waiting] (by decide)
  | refuse hchanged => exact h.silent _ [.waiting, .error] (by decide)
  | throw hphase => exact h.silent _ [.error] (by decide)

theorem step_kept (s : System) (e : Event) (hw : Watched s) (h : Kept s.shared) : Kept (step s e).shared := by
  cases e with
  | thread i pick =>
    rcases act_cases s (advance i pick) i with ⟨-, heq⟩ | ⟨t, hi, heq⟩
    · rw [step, heq]
      exact h
    · rw [step, heq]
      refine goes_kept (advance_goes i pick fun hmem => ?_) h
      obtain ⟨t₁, ht₁, hp⟩ := hw.waiting i hmem
      obtain rfl := Option.some.inj (hi.symm.trans ht₁)
      exact hp
  | interrupt i =>
    rcases act_cases s (interrupt i) i with ⟨-, heq⟩ | ⟨t, hi, heq⟩
    · rw [step, heq]
      exact h
    · rw [step, heq]
      unfold interrupt
      split
      · exact ⟨h.saves, h.flag⟩
      · exact h
  | spuriousWakeup i => exact ⟨h.saves, h.flag⟩

/-- Over every run, each save is the first after a change: no change is saved twice, and none is saved
that has not been made. The flag is set if and only if the last change has not been saved yet. -/
theorem run_saves_changes (programs : List (List Call)) (events : List Event) :
    let d := (run step (init programs) events).shared
    ((history d).IsChain fun a b => b = .saving → a = .changed) ∧
      (d.changed = true ↔ (history d).getLast? = some .changed) := by
  intro d
  obtain ⟨-, hkept⟩ := run_invariant (I := fun s : System => Watched s ∧ Kept s.shared)
    (fun s e h => ⟨step_watched s e h.1, step_kept s e h.1 h.2⟩) _ events
    ⟨init_watched programs, List.isChain_singleton _, fun hc => (by cases hc), fun hl => by cases hl⟩
  exact ⟨hkept.saves, hkept.flag⟩

end Balking

import SpringStudy.Tables

/-!
# Threads with stacks of frames

A thread is the stack of what it still has to do, the next frame on top. A
monitor is held by the thread that has its exit frame on the stack, as many
times as the frame is there, so entering a monitor again is no special case.
-/
namespace Threads

open Tables

abbrev Tid := Nat

variable {φ : Type}

abbrev Stacks (φ : Type) := Table Tid (List φ)

/-- The stack of a thread; a thread that does nothing has an empty one. -/
def stackOf (ts : Stacks φ) (t : Tid) : List φ := (ts.lookup t).getD []

def setStack (ts : Stacks φ) (t : Tid) (stack : List φ) : Stacks φ := ts.insert t stack

@[simp] theorem stackOf_setStack (ts : Stacks φ) (t t' : Tid) (stack : List φ) :
    stackOf (setStack ts t stack) t' = if t' = t then stack else stackOf ts t' := by
  simp only [stackOf, setStack, lookup_put]
  split <;> rfl

@[simp] theorem stackOf_empty (t : Tid) : stackOf (∅ : Stacks φ) t = [] := rfl

/-! ## Monitors -/

/-- The stack of some thread other than `t` is in `p`. -/
def hasOther (ts : Stacks φ) (t : Tid) (p : List φ → Bool) : Bool :=
  ts.entries.any fun e => decide (e.1 ≠ t) && p e.2

theorem hasOther_iff (ts : Stacks φ) (t : Tid) (p : List φ → Bool) (hp : p [] = false) :
    hasOther ts t p = true ↔ ∃ t', t' ≠ t ∧ p (stackOf ts t') = true := by
  simp only [hasOther, List.any_eq_true, Bool.and_eq_true, decide_eq_true_eq]
  constructor
  · intro h
    obtain ⟨⟨t', stack⟩, he, hne, hf⟩ := h
    have hl := (mem_entries_iff ts t' stack).mp he
    exact ⟨t', hne, by simpa [stackOf, hl] using hf⟩
  · intro h
    obtain ⟨t', hne, hf⟩ := h
    unfold stackOf at hf
    cases hl : ts.lookup t' with
    | none =>
      rw [hl, Option.getD_none, hp] at hf
      cases hf
    | some stack =>
      rw [hl] at hf
      exact ⟨⟨t', stack⟩, (mem_entries_iff ts t' stack).mpr hl, hne, hf⟩

/-- What no other thread has on its stack, a given other thread has not. -/
theorem eq_false_of_hasOther {ts : Stacks φ} {t : Tid} {p : List φ → Bool} (hp : p [] = false)
    (h : hasOther ts t p = false) (t' : Tid) (hne : t' ≠ t) : p (stackOf ts t') = false := by
  by_contra htrue
  rw [Bool.not_eq_false] at htrue
  rw [(hasOther_iff ts t p hp).mpr ⟨t', hne, htrue⟩] at h
  cases h

/-- At most one thread has the frame on its stack. -/
def Exclusive (ts : Stacks φ) (f : φ) : Prop := ∀ t t', f ∈ stackOf ts t → f ∈ stackOf ts t' → t = t'

/-- A thread that gains the frame only while no other has it leaves it exclusive. -/
theorem exclusive_setStack [DecidableEq φ] {ts : Stacks φ} {f : φ} (h : Exclusive ts f) (t : Tid)
    (stack : List φ)
    (hf : f ∈ stack → f ∈ stackOf ts t ∨ hasOther ts t (fun frames => decide (f ∈ frames)) = false) :
    Exclusive (setStack ts t stack) f := by
  -- nobody else can have a frame that `t` has or may take
  have hother : f ∈ stack → ∀ t', t' ≠ t → f ∉ stackOf ts t' := by
    intro hin t' hne ht'
    rcases hf hin with hold | hfree
    · exact hne (h t' t ht' hold)
    · exact of_decide_eq_false (eq_false_of_hasOther rfl hfree t' hne) ht'
  intro t₁ t₂ h₁ h₂
  rw [stackOf_setStack] at h₁ h₂
  by_cases h₁t : t₁ = t <;> by_cases h₂t : t₂ = t
  · rw [h₁t, h₂t]
  · rw [if_pos h₁t] at h₁
    rw [if_neg h₂t] at h₂
    exact absurd h₂ (hother h₁ t₂ h₂t)
  · rw [if_neg h₁t] at h₁
    rw [if_pos h₂t] at h₂
    exact absurd h₁ (hother h₂ t₁ h₁t)
  · rw [if_neg h₁t] at h₁
    rw [if_neg h₂t] at h₂
    exact h t₁ t₂ h₁ h₂

/-! ## Layers of a stack -/

/-- Every frame stands over a rest that it fits on. -/
def Layered (fits : φ → List φ → Prop) : List φ → Prop
  | [] => True
  | f :: rest => fits f rest ∧ Layered fits rest

/-- Frames are pushed one by one, each over those pushed before it. -/
theorem layered_append {fits : φ → List φ → Prop} (pushed rest : List φ) (h : Layered fits rest)
    (hfits : ∀ above f below, pushed = above ++ f :: below → fits f (below ++ rest)) :
    Layered fits (pushed ++ rest) := by
  induction pushed with
  | nil => exact h
  | cons f pushed ih =>
    refine ⟨hfits [] f pushed rfl, ih ?_⟩
    intro above g below he
    exact hfits (f :: above) g below (by rw [he]; rfl)

/-! ## Threads that nothing blocks -/

/-- A thread works off its frames: the effect of a frame changes the state and puts
other frames in its place. -/
inductive Completes {σ : Type} (effect : σ → φ → σ × List φ) : σ → List φ → σ → Prop
  | done (st : σ) : Completes effect st [] st
  | next {st st' : σ} {f : φ} {rest : List φ}
      (h : Completes effect (effect st f).1 ((effect st f).2 ++ rest) st') :
      Completes effect st (f :: rest) st'

theorem Completes.append {σ : Type} {effect : σ → φ → σ × List φ} {st st₁ st₂ : σ} {fs gs : List φ}
    (h : Completes effect st fs st₁) (h' : Completes effect st₁ gs st₂) :
    Completes effect st (fs ++ gs) st₂ := by
  induction h with
  | done st => exact h'
  | next _ ih =>
    rw [List.cons_append]
    apply Completes.next
    rw [← List.append_assoc]
    exact ih h'

end Threads

import Mathlib.Data.List.Perm.Basic

/-!
# Threads over shared memory

Each thread has a local state, and all of them work on one shared state in
atomic steps. A schedule names the thread that takes the next step; there are
as many threads as the list is long. Facts about several threads at once are
counts: a step changes a count by the thread that takes it and by no other.
-/
namespace Interleavings

variable {σ θ : Type}

structure State (σ θ : Type) where
  shared : σ
  threads : List θ
  deriving DecidableEq, Repr

/-- Thread `i`, if there is one, takes the step `f`. -/
def State.act (s : State σ θ) (f : σ → θ → σ × θ) (i : Nat) : State σ θ :=
  match s.threads[i]? with
  | none => s
  | some t => ⟨(f s.shared t).1, s.threads.set i (f s.shared t).2⟩

theorem act_cases (s : State σ θ) (f : σ → θ → σ × θ) (i : Nat) :
    (s.threads[i]? = none ∧ s.act f i = s) ∨
      ∃ t, s.threads[i]? = some t ∧
        s.act f i = ⟨(f s.shared t).1, s.threads.set i (f s.shared t).2⟩ := by
  unfold State.act
  cases h : s.threads[i]? with
  | none => exact .inl ⟨rfl, rfl⟩
  | some t => exact .inr ⟨t, rfl, rfl⟩

theorem length_act (s : State σ θ) (f : σ → θ → σ × θ) (i : Nat) :
    (s.act f i).threads.length = s.threads.length := by
  rcases act_cases s f i with ⟨-, h⟩ | ⟨t, -, h⟩
  · rw [h]
  · rw [h, List.length_set]

/-! ## The acting thread and the others -/

/-- All threads but thread `i`. -/
def others (threads : List θ) (i : Nat) : List θ := threads.eraseIdx i

theorem mem_others {threads : List θ} {i : Nat} {u : θ} :
    u ∈ others threads i ↔ ∃ j, j ≠ i ∧ threads[j]? = some u :=
  List.mem_eraseIdx_iff_getElem?

theorem mem_of_mem_others {threads : List θ} {i : Nat} {u : θ} (h : u ∈ others threads i) : u ∈ threads :=
  List.mem_of_mem_eraseIdx h

section
variable {threads : List θ} {i : Nat} {t : θ} (hi : threads[i]? = some t)
include hi

theorem perm_others : (t :: others threads i).Perm threads := by
  obtain ⟨hlt, rfl⟩ := List.getElem?_eq_some_iff.mp hi
  exact List.getElem_cons_eraseIdx_perm hlt

theorem set_perm_others (t' : θ) : (threads.set i t').Perm (t' :: others threads i) := by
  obtain ⟨hlt, -⟩ := List.getElem?_eq_some_iff.mp hi
  exact List.set_perm_cons_eraseIdx hlt t'

theorem countP_eq_others (p : θ → Bool) :
    threads.countP p = (others threads i).countP p + if p t then 1 else 0 := by
  rw [← (perm_others hi).countP_eq p, List.countP_cons]

theorem countP_set_others (p : θ → Bool) (t' : θ) :
    (threads.set i t').countP p = (others threads i).countP p + if p t' then 1 else 0 := by
  rw [(set_perm_others hi t').countP_eq p, List.countP_cons]

theorem forall_set {P : θ → Prop} {t' : θ} (ht : P t') (h : ∀ u ∈ others threads i, P u) :
    ∀ u ∈ threads.set i t', P u := by
  intro u hu
  rcases List.mem_cons.mp ((set_perm_others hi t').mem_iff.mp hu) with rfl | hu
  · exact ht
  · exact h u hu

/-- Where only one thread has `p` and thread `i` does, no other thread has it. -/
theorem others_not_of_countP {p : θ → Bool} (hone : threads.countP p ≤ 1) (hp : p t = true) :
    ∀ u ∈ others threads i, ¬ p u = true := by
  have hsum := countP_eq_others hi p
  rw [if_pos hp] at hsum
  apply List.countP_eq_zero.mp
  omega

end

/-- Where at most one thread has `p`, any two that have it are the same. -/
theorem eq_of_countP {threads : List θ} {p : θ → Bool} (hone : threads.countP p ≤ 1) {i j : Nat} {t u : θ}
    (hi : threads[i]? = some t) (hj : threads[j]? = some u) (ht : p t = true) (hu : p u = true) :
    i = j := by
  by_contra hne
  exact others_not_of_countP hi hone ht u (mem_others.mpr ⟨j, fun h => hne h.symm, hj⟩) hu

end Interleavings

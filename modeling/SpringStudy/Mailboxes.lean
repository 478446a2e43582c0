import Mathlib.Data.List.Basic
import Mathlib.Tactic.Common

/-!
# Messages on the way

Many parties send over one network that keeps the order of what goes to the same
receiver. Everything on the way is one list, each message beside its receiver.
A quantity that messages carry from place to place is counted by giving each of
them a weight.
-/
namespace Mailboxes

variable {ι α : Type}

/-- The oldest message for `x`, and what stays on the way. -/
def receive [DecidableEq ι] (x : ι) : List (ι × α) → Option (α × List (ι × α))
  | [] => none
  | (y, m) :: l => if y = x then some (m, l) else (receive x l).map fun q => (q.1, (y, m) :: q.2)

/-- What the items weigh together. -/
def weigh (w : α → Nat) : List α → Nat
  | [] => 0
  | a :: l => w a + weigh w l

@[simp] theorem weigh_nil (w : α → Nat) : weigh w [] = 0 := rfl

@[simp] theorem weigh_cons (w : α → Nat) (a : α) (l : List α) : weigh w (a :: l) = w a + weigh w l := rfl

@[simp] theorem weigh_append (w : α → Nat) (l l' : List α) : weigh w (l ++ l') = weigh w l + weigh w l' := by
  induction l with
  | nil => simp
  | cons a l ih =>
    rw [List.cons_append, weigh_cons, weigh_cons, ih]
    omega

theorem weigh_perm (w : α → Nat) {l l' : List α} (h : l.Perm l') : weigh w l = weigh w l' := by
  induction h with
  | nil => rfl
  | cons a _ ih => rw [weigh_cons, weigh_cons, ih]
  | swap a b l =>
    simp only [weigh_cons]
    omega
  | trans _ _ ih₁ ih₂ => exact ih₁.trans ih₂

theorem weigh_congr {w w' : α → Nat} {l : List α} (h : ∀ a ∈ l, w a = w' a) : weigh w l = weigh w' l := by
  induction l with
  | nil => rfl
  | cons a l ih =>
    rw [weigh_cons, weigh_cons, h a List.mem_cons_self, ih fun b hb => h b (List.mem_cons_of_mem a hb)]

theorem weigh_filter_le (w : α → Nat) (p : α → Bool) (l : List α) : weigh w (l.filter p) ≤ weigh w l := by
  induction l with
  | nil => exact Nat.le_refl _
  | cons a l ih =>
    rw [List.filter_cons]
    split
    · rw [weigh_cons, weigh_cons]
      omega
    · rw [weigh_cons]
      omega

theorem weigh_erase [BEq α] [LawfulBEq α] (w : α → Nat) {a : α} {l : List α} (h : a ∈ l) :
    weigh w l = w a + weigh w (l.erase a) :=
  (weigh_perm w (List.perm_cons_erase h)).trans (weigh_cons w a _)

theorem le_weigh (w : α → Nat) {a : α} {l : List α} (h : a ∈ l) : w a ≤ weigh w l := by
  obtain ⟨l₁, l₂, rfl⟩ := List.append_of_mem h
  rw [weigh_append, weigh_cons]
  omega

/-- Items that weigh something are few if all weigh little. -/
theorem countP_le_weigh {w : α → Nat} {p : α → Bool} (h : ∀ a, p a = true → 1 ≤ w a) (l : List α) :
    l.countP p ≤ weigh w l := by
  induction l with
  | nil => exact Nat.le_refl _
  | cons a l ih =>
    rw [List.countP_cons, weigh_cons]
    split
    · next ha =>
      have hone := h a ha
      omega
    · omega

theorem weigh_eq_zero {w : α → Nat} {l : List α} (h : ∀ a ∈ l, w a = 0) : weigh w l = 0 := by
  induction l with
  | nil => rfl
  | cons a l ih => rw [weigh_cons, h a List.mem_cons_self, ih fun b hb => h b (List.mem_cons_of_mem a hb)]

section
variable [DecidableEq ι] {x : ι} {m : α} {l rest : List (ι × α)}

theorem receive_perm (h : receive x l = some (m, rest)) : l.Perm ((x, m) :: rest) := by
  induction l generalizing rest with
  | nil => cases h
  | cons p l ih =>
    obtain ⟨y, m'⟩ := p
    unfold receive at h
    split at h
    · next hy =>
      cases h
      rw [hy]
    · obtain ⟨⟨m'', l'⟩, hl, heq⟩ := Option.map_eq_some_iff.mp h
      cases heq
      exact ((ih hl).cons _).trans (List.Perm.swap _ _ _)

theorem weigh_receive (w : ι × α → Nat) (h : receive x l = some (m, rest)) :
    weigh w l = w (x, m) + weigh w rest :=
  (weigh_perm w (receive_perm h)).trans (weigh_cons w _ _)

theorem mem_of_receive (h : receive x l = some (m, rest)) : (x, m) ∈ l :=
  (receive_perm h).mem_iff.mpr List.mem_cons_self

theorem mem_of_mem_rest (h : receive x l = some (m, rest)) {p : ι × α} (hp : p ∈ rest) : p ∈ l :=
  (receive_perm h).mem_iff.mpr (List.mem_cons_of_mem _ hp)

end

end Mailboxes

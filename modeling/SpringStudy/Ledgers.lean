import Mathlib.Data.List.Perm.Basic
import Mathlib.Data.List.Nodup

/-!
# Ledgers

Resources are built one after the other and numbered as they come. Each is held
until it is released. A ledger lists those held and those released so far, and a
move takes some from the one list to the other.
-/
namespace Ledgers

structure Ledger (α : Type) where
  held : List α
  released : List α

def Ledger.all {α : Type} (l : Ledger α) : List α := l.released ++ l.held

/-- The resources `new` have been built; what was held is still held, or it has been released. -/
structure Moves {α : Type} (new : List α) (l l' : Ledger α) : Prop where
  conserves : l'.all.Perm (new ++ l.all)
  grows : l.released.Subset l'.released

theorem Moves.refl {α : Type} (l : Ledger α) : Moves [] l l := ⟨List.Perm.refl _, List.Subset.refl _⟩

/-- No resource is there twice, be it held or released, and all have been built: the
next one will have the number `n`. -/
structure Balanced (n : Nat) (l : Ledger Nat) : Prop where
  nodup : l.all.Nodup
  below : ∀ e ∈ l.all, e < n

theorem balanced_empty (n : Nat) : Balanced n ⟨[], []⟩ := ⟨List.nodup_nil, fun e he => by cases he⟩

section
variable {n : Nat} {l l' : Ledger Nat}

theorem Balanced.mono (h : Balanced n l) {n' : Nat} (hn : n ≤ n') : Balanced n' l :=
  ⟨h.nodup, fun e he => Nat.lt_of_lt_of_le (h.below e he) hn⟩

theorem Balanced.move (h : Balanced n l) (hm : Moves [] l l') : Balanced n l' :=
  ⟨hm.conserves.nodup_iff.mpr h.nodup, fun e he => h.below e (hm.conserves.mem_iff.mp he)⟩

theorem Balanced.build (h : Balanced n l) (hm : Moves [n] l l') : Balanced (n + 1) l' := by
  constructor
  · refine hm.conserves.nodup_iff.mpr (List.nodup_cons.mpr ⟨fun hmem => ?_, h.nodup⟩)
    exact Nat.lt_irrefl n (h.below n hmem)
  · intro e he
    rcases List.mem_cons.mp (hm.conserves.mem_iff.mp he) with rfl | he
    · exact Nat.lt_succ_self e
    · exact Nat.lt_succ_of_lt (h.below e he)

theorem Balanced.not_released (h : Balanced n l) {e : Nat} (he : e ∈ l.held) : e ∉ l.released :=
  fun hr => (List.nodup_append.mp h.nodup).2.2 e hr e he rfl

end

end Ledgers

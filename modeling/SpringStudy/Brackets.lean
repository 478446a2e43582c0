import Mathlib.Data.List.Induction

/-!
# Logs in which things are opened and closed

Some entries of a log open a key and some close one. A key is open when the
newest entry about it opens it, and a log is matched when only open keys are
closed: between two closings of a key there is an opening.
-/
namespace Brackets

variable {μ κ : Type}

section

variable [DecidableEq κ] (mark : μ → Option (κ × Bool))

/-- Whether the entry opens or closes `k`, if it does either. -/
def verdict (k : κ) (m : μ) : Option Bool :=
  match mark m with
  | none => none
  | some (k', opens) => if k' = k then some opens else none

def isOpen (log : List μ) (k : κ) : Bool := ((log.filterMap (verdict mark k)).getLast?).getD false

/-- Every entry that closes a key comes after one that opens it, with no closing in between. -/
def Matched (log : List μ) : Prop :=
  ∀ before m after k, log = before ++ m :: after → mark m = some (k, false) → isOpen mark before k = true

end

variable [DecidableEq κ] {mark : μ → Option (κ × Bool)}

theorem verdict_eq_some_iff (k : κ) (m : μ) (opens : Bool) :
    verdict mark k m = some opens ↔ mark m = some (k, opens) := by
  unfold verdict
  split
  · rename_i hm
    simp [hm]
  · rename_i k' opens' hm
    rw [hm, Option.some.injEq, Prod.mk.injEq]
    by_cases hk : k' = k
    · simp [hk]
    · simp [hk]

theorem isOpen_append (log new : List μ) (k : κ) :
    isOpen mark (log ++ new) k =
      ((new.filterMap (verdict mark k)).getLast?.or (log.filterMap (verdict mark k)).getLast?).getD false := by
  rw [isOpen, List.filterMap_append, List.getLast?_append]

/-- Entries about other keys do not matter. -/
theorem isOpen_append_other {new : List μ} {k : κ} (hnew : ∀ m ∈ new, ∀ opens, mark m ≠ some (k, opens))
    (log : List μ) : isOpen mark (log ++ new) k = isOpen mark log k := by
  have hnone : new.filterMap (verdict mark k) = [] := by
    rw [List.filterMap_eq_nil_iff]
    intro m hm
    cases hs : verdict mark k m with
    | none => rfl
    | some opens => exact absurd ((verdict_eq_some_iff k m opens).mp hs) (hnew m hm opens)
  rw [isOpen_append, hnone]
  rfl

/-- Without closings a key stays open, and one that is opened becomes open. -/
theorem isOpen_append_opening {new : List μ} {k : κ} (hnew : ∀ m ∈ new, mark m ≠ some (k, false))
    {log : List μ} (h : isOpen mark log k = true ∨ ∃ m ∈ new, mark m = some (k, true)) :
    isOpen mark (log ++ new) k = true := by
  rw [isOpen_append]
  cases hlast : (new.filterMap (verdict mark k)).getLast? with
  | none =>
    rw [List.getLast?_eq_none_iff, List.filterMap_eq_nil_iff] at hlast
    rcases h with h | ⟨m, hm, hopens⟩
    · exact h
    · exact absurd (hlast m hm) (by rw [(verdict_eq_some_iff k m true).mpr hopens]; simp)
  | some opens =>
    obtain ⟨m, hm, hverdict⟩ := List.mem_filterMap.mp (List.mem_of_getLast? hlast)
    cases opens with
    | true => rfl
    | false => exact absurd ((verdict_eq_some_iff k m false).mp hverdict) (hnew m hm)

theorem matched_nil : Matched mark [] := by
  intro before m after k h
  cases before <;> cases h

theorem matched_snoc {log : List μ} {m : μ} (h : Matched mark log)
    (hm : ∀ k, mark m = some (k, false) → isOpen mark log k = true) : Matched mark (log ++ [m]) := by
  intro before m' after k heq hmark
  rcases List.eq_nil_or_concat after with rfl | ⟨after, last, rfl⟩
  · obtain ⟨rfl, hlast⟩ := List.append_inj' heq rfl
    obtain rfl := List.singleton_inj.mp hlast
    exact hm k hmark
  · have hsplit : log ++ [m] = (before ++ m' :: after) ++ [last] := by
      rw [heq]
      simp
    obtain ⟨rfl, -⟩ := List.append_inj' hsplit rfl
    exact h before m' after k rfl hmark

/-- A matched log stays matched while nothing is closed. -/
theorem matched_append_opening {log : List μ} (h : Matched mark log) (new : List μ)
    (hnew : ∀ m ∈ new, ∀ k, mark m ≠ some (k, false)) : Matched mark (log ++ new) := by
  induction new using List.reverseRecOn with
  | nil =>
    rw [List.append_nil]
    exact h
  | append_singleton new m ih =>
    rw [← List.append_assoc]
    refine matched_snoc (ih ?_) ?_
    · intro m' hm'
      exact hnew m' (List.mem_append_left _ hm')
    · intro k hk
      exact absurd hk (hnew m (by simp) k)

end Brackets

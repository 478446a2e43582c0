import Mathlib.Data.List.Lex

/-!
# The order of Java strings

A Java string is a sequence of UTF-16 code units, and `compareTo` subtracts the
first two units that differ, or else the lengths. Its sign is the lexicographic
order of the units. That is not the order of the characters: the units of a
character outside the first plane are smaller than some characters inside it.
-/
namespace JavaStrings

/-- One unit, or a high and a low surrogate. -/
def units (c : Char) : List Nat :=
  if c.toNat < 0x10000 then [c.toNat]
  else [0xD800 + (c.toNat - 0x10000) / 0x400, 0xDC00 + (c.toNat - 0x10000) % 0x400]

def utf16 (s : String) : List Nat := s.toList.flatMap units

def compareUnits : List Nat → List Nat → Int
  | x :: xs, y :: ys => if x = y then compareUnits xs ys else x - y
  | xs, ys => xs.length - ys.length

/-- `a.compareTo(b)`. -/
def compareTo (a b : String) : Int := compareUnits (utf16 a) (utf16 b)

theorem compareUnits_neg_iff (xs ys : List Nat) : compareUnits xs ys < 0 ↔ xs < ys := by
  induction xs generalizing ys with
  | nil =>
    cases ys with
    | nil => simp [compareUnits]
    | cons y ys =>
      simp only [compareUnits, List.length_nil, List.length_cons, List.nil_lt_cons, iff_true]
      omega
  | cons x xs ih =>
    cases ys with
    | nil =>
      simp only [compareUnits, List.length_nil, List.length_cons, List.not_lt_nil, iff_false]
      omega
    | cons y ys =>
      rw [compareUnits, List.cons_lt_cons_iff]
      split
      · rename_i hxy
        rw [ih ys]
        simp [hxy]
      · rename_i hxy
        omega

theorem compareUnits_eq_zero_iff (xs ys : List Nat) : compareUnits xs ys = 0 ↔ xs = ys := by
  induction xs generalizing ys with
  | nil =>
    cases ys with
    | nil => simp [compareUnits]
    | cons y ys =>
      simp only [compareUnits, List.length_nil, List.length_cons, reduceCtorEq, iff_false]
      omega
  | cons x xs ih =>
    cases ys with
    | nil =>
      simp only [compareUnits, List.length_nil, List.length_cons, reduceCtorEq, iff_false]
      omega
    | cons y ys =>
      rw [compareUnits, List.cons.injEq]
      split
      · rename_i hxy
        rw [ih ys]
        simp [hxy]
      · rename_i hxy
        simp only [hxy, false_and, iff_false]
        omega

/-- A character is never a surrogate itself. -/
theorem toNat_valid (c : Char) : c.toNat < 0xD800 ∨ 0xDFFF < c.toNat ∧ c.toNat < 0x110000 := c.valid

/-- The first unit says how many there are, so the units of one character can be split off. -/
theorem units_append_inj {c d : Char} {xs ys : List Nat} (h : units c ++ xs = units d ++ ys) :
    c = d ∧ xs = ys := by
  have hc := toNat_valid c
  have hd := toNat_valid d
  unfold units at h
  split at h
  · split at h
    · rw [List.singleton_append, List.singleton_append, List.cons.injEq] at h
      exact ⟨Char.toNat_inj.mp h.1, h.2⟩
    · simp only [List.cons_append, List.nil_append, List.cons.injEq] at h
      omega
  · split at h
    · simp only [List.cons_append, List.nil_append, List.cons.injEq] at h
      omega
    · simp only [List.cons_append, List.nil_append, List.cons.injEq] at h
      refine ⟨Char.toNat_inj.mp ?_, h.2.2⟩
      omega

theorem units_ne_nil (c : Char) : units c ≠ [] := by
  unfold units
  split
  · simp
  · simp

theorem utf16_injective : Function.Injective utf16 := by
  intro a b h
  apply String.toList_injective
  unfold utf16 at h
  generalize a.toList = xs at h
  generalize b.toList = ys at h
  induction xs generalizing ys with
  | nil =>
    cases ys with
    | nil => rfl
    | cons d ys =>
      rw [List.flatMap_nil, List.flatMap_cons] at h
      exact absurd (List.append_eq_nil_iff.mp h.symm).1 (units_ne_nil d)
  | cons c xs ih =>
    cases ys with
    | nil =>
      rw [List.flatMap_nil, List.flatMap_cons] at h
      exact absurd (List.append_eq_nil_iff.mp h).1 (units_ne_nil c)
    | cons d ys =>
      rw [List.flatMap_cons, List.flatMap_cons] at h
      obtain ⟨hcd, hrest⟩ := units_append_inj h
      rw [hcd, ih ys hrest]

theorem compareTo_neg_iff (a b : String) : compareTo a b < 0 ↔ utf16 a < utf16 b :=
  compareUnits_neg_iff _ _

theorem compareTo_eq_zero_iff (a b : String) : compareTo a b = 0 ↔ utf16 a = utf16 b :=
  compareUnits_eq_zero_iff _ _

end JavaStrings

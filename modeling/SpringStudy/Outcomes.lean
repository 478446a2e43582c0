import Mathlib.Data.List.Basic
import Mathlib.Tactic.Common

/-!
# Handlers that may fail, and methods that make calls

A handler changes the state and ends normally or with a failure. What it did
before the failure stays done: nothing is rolled back. A method of an object
changes the object and makes calls to the outside: it is a function to the new
object and the list of calls, in order.
-/
namespace Outcomes

variable {σ φ α : Type}

/-- The state a handler leaves, and how it failed, if it did. -/
abbrev Outcome (σ φ : Type) := σ × Option φ

/-- Go on with `f` unless the first part failed. -/
def andThen (q : Outcome σ φ) (f : σ → Outcome σ φ) : Outcome σ φ :=
  match q with
  | (s, some e) => (s, some e)
  | (s, none) => f s

/-- A loop that ends at the first failure. -/
def forAll (f : σ → α → Outcome σ φ) : σ → List α → Outcome σ φ
  | s, [] => (s, none)
  | s, a :: as => andThen (f s a) fun s => forAll f s as

@[simp] theorem andThen_ok (s : σ) (f : σ → Outcome σ φ) : andThen (s, none) f = f s := rfl
@[simp] theorem andThen_failed (s : σ) (e : φ) (f : σ → Outcome σ φ) :
    andThen (s, some e) f = (s, some e) := rfl

theorem andThen_ok_iff (q : Outcome σ φ) (f : σ → Outcome σ φ) :
    (andThen q f).2 = none ↔ q.2 = none ∧ (f q.1).2 = none := by
  obtain ⟨s, e⟩ := q
  cases e with
  | none => simp
  | some e => simp

/-- What both parts keep of the state, the sequence keeps. -/
theorem andThen_invariant {I : σ → Prop} (q : Outcome σ φ) (f : σ → Outcome σ φ)
    (hq : I q.1) (hf : ∀ s, I s → I (f s).1) : I (andThen q f).1 := by
  obtain ⟨s, e⟩ := q
  cases e with
  | none => exact hf s hq
  | some e => exact hq

theorem forAll_invariant {I : σ → Prop} (f : σ → α → Outcome σ φ)
    (hf : ∀ s a, I s → I (f s a).1) (s : σ) (as : List α) (h : I s) : I (forAll f s as).1 := by
  induction as generalizing s with
  | nil => exact h
  | cons a as ih => exact andThen_invariant _ _ (hf s a h) ih

/-- A failure that neither part shows, the sequence does not show. -/
theorem andThen_failure_ne {I : σ → Prop} {e : φ} (q : Outcome σ φ) (f : σ → Outcome σ φ)
    (hq : I q.1) (hne : q.2 ≠ some e) (hf : ∀ s, I s → (f s).2 ≠ some e) : (andThen q f).2 ≠ some e := by
  obtain ⟨s, e'⟩ := q
  cases e' with
  | none => exact hf s hq
  | some e' => exact hne

/-- A loop none of whose turns fails ends normally. -/
theorem forAll_ok {I : σ → Prop} (f : σ → α → Outcome σ φ) (s : σ) (as : List α)
    (hf : ∀ s, I s → ∀ a ∈ as, I (f s a).1 ∧ (f s a).2 = none) (h : I s) :
    I (forAll f s as).1 ∧ (forAll f s as).2 = none := by
  induction as generalizing s with
  | nil => exact ⟨h, rfl⟩
  | cons a as ih =>
    obtain ⟨hi, hok⟩ := hf s h a List.mem_cons_self
    have hq : f s a = ((f s a).1, none) := Prod.ext rfl hok
    rw [forAll, hq, andThen_ok]
    exact ih _ (fun s hs b hb => hf s hs b (List.mem_cons_of_mem _ hb)) hi

/-! ## How far a loop gets -/

/-- The elements up to the first that is not ok, that one included. -/
def reached (ok : α → Bool) : List α → List α
  | [] => []
  | a :: as => a :: if ok a then reached ok as else []

theorem mem_of_reached (ok : α → Bool) (as : List α) (a : α) (h : a ∈ reached ok as) : a ∈ as := by
  induction as with
  | nil => exact h
  | cons b as ih =>
    rcases List.mem_cons.mp h with rfl | h
    · exact List.mem_cons_self
    · cases hb : ok b with
      | true =>
        rw [hb, if_pos rfl] at h
        exact List.mem_cons_of_mem _ (ih h)
      | false =>
        rw [hb] at h
        cases h

/-- Where nothing is met twice, a loop that gets to every element gets to the end. -/
theorem reached_eq_of_mem (ok : α → Bool) (as : List α) (hnodup : as.Nodup)
    (hall : ∀ a ∈ as, a ∈ reached ok as) : reached ok as = as := by
  induction as with
  | nil => rfl
  | cons a as ih =>
    obtain ⟨ha, hnodup⟩ := List.nodup_cons.mp hnodup
    have htail : ∀ b ∈ as, b ∈ if ok a then reached ok as else [] := by
      intro b hb
      rcases List.mem_cons.mp (hall b (List.mem_cons_of_mem _ hb)) with rfl | hmem
      · exact absurd hb ha
      · exact hmem
    rw [reached]
    cases hok : ok a with
    | true =>
      simp only [hok, if_true] at htail ⊢
      rw [ih hnodup htail]
    | false =>
      rw [hok] at htail
      have hempty : as = [] := List.eq_nil_iff_forall_not_mem.mpr fun b hb => by cases htail b hb
      rw [hempty]
      rfl

/-- A loop gets to everything if all but the last are ok. -/
theorem reached_eq_iff (ok : α → Bool) (as : List α) : reached ok as = as ↔ ∀ a ∈ as.dropLast, ok a = true := by
  induction as with
  | nil => simp [reached]
  | cons a as ih =>
    cases as with
    | nil => cases ha : ok a <;> simp [reached, ha]
    | cons b as =>
      cases ha : ok a with
      | true => simpa [reached, ha] using ih
      | false => simp [reached, ha]

/-- Where each turn does `g` to a view of the state and fails on what is not ok, the loop does
`g` for the elements it gets to. -/
theorem forAll_reached {τ : Type} {I : σ → Prop} (f : σ → α → Outcome σ φ) (view : σ → τ) (g : τ → α → τ)
    (ok : α → Bool)
    (hf : ∀ s a, I s → I (f s a).1 ∧ view (f s a).1 = g (view s) a ∧ ((f s a).2 = none ↔ ok a = true))
    (s : σ) (as : List α) (h : I s) :
    view (forAll f s as).1 = (reached ok as).foldl g (view s) ∧
      ((forAll f s as).2 = none ↔ ∀ a ∈ as, ok a = true) := by
  induction as generalizing s with
  | nil => exact ⟨rfl, by simp [forAll]⟩
  | cons a as ih =>
    obtain ⟨hi, hview, hok⟩ := hf s a h
    rw [forAll, reached]
    generalize f s a = q at *
    obtain ⟨s', failure⟩ := q
    cases failure with
    | none =>
      have ha : ok a = true := hok.mp rfl
      obtain ⟨hrest, hnone⟩ := ih s' hi
      rw [andThen_ok, hrest, hview, ha, if_pos rfl]
      exact ⟨rfl, hnone.trans (by simp [ha])⟩
    | some failure =>
      have ha : ¬ ok a = true := fun ha => by cases hok.mpr ha
      rw [andThen_failed, if_neg ha]
      exact ⟨hview, by simp [ha]⟩

/-- A loop whose turns leave a view of the state alone. -/
theorem forAll_view {τ : Type} {I : σ → Prop} (f : σ → α → Outcome σ φ) (view : σ → τ) (ok : α → Bool)
    (hf : ∀ s a, I s → I (f s a).1 ∧ view (f s a).1 = view s ∧ ((f s a).2 = none ↔ ok a = true))
    (s : σ) (as : List α) (h : I s) :
    view (forAll f s as).1 = view s ∧ ((forAll f s as).2 = none ↔ ∀ a ∈ as, ok a = true) := by
  have hloop := forAll_reached f view (fun v _ => v) ok hf s as h
  rwa [List.foldl_fixed] at hloop

/-! ## Loops over an object that makes outside calls -/

section
variable {ρ γ : Type}

/-- Apply the method to every element in turn, collecting the calls. -/
def forEach (f : ρ → α → ρ × List γ) : ρ → List α → ρ × List γ
  | r, [] => (r, [])
  | r, a :: as => ((forEach f (f r a).1 as).1, (f r a).2 ++ (forEach f (f r a).1 as).2)

@[simp] theorem forEach_cons_snd (f : ρ → α → ρ × List γ) (r : ρ) (a : α) (as : List α) :
    (forEach f r (a :: as)).2 = (f r a).2 ++ (forEach f (f r a).1 as).2 := rfl

/-- What one application gives out and what the object keeps afterwards is what the
object had; then so it is for the loop. -/
theorem forEach_conserves {ε : Type} (held : ρ → List ε) (out : γ → Option ε) (f : ρ → α → ρ × List γ)
    (hf : ∀ r a, ((f r a).2.filterMap out ++ held (f r a).1).Perm (held r)) (r : ρ) (as : List α) :
    ((forEach f r as).2.filterMap out ++ held (forEach f r as).1).Perm (held r) := by
  induction as generalizing r with
  | nil => exact List.Perm.refl _
  | cons a as ih =>
    rw [forEach_cons_snd, List.filterMap_append, List.append_assoc]
    exact ((ih (f r a).1).append_left _).trans (hf r a)

end

end Outcomes

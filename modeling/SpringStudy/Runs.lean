import Mathlib.Data.List.Induction
import Mathlib.Tactic.Common

/-!
# Runs of a deterministic step function

A run is the list of its events. `history` pairs every event with the state in
which it arrives, so that a condition on the steps of a run, and the property
that the steps have to show, are both read off the same list.
-/
namespace Runs

variable {σ ε : Type}

/-- The state after the events, taken in order. -/
def run (step : σ → ε → σ) : σ → List ε → σ
  | s, [] => s
  | s, e :: es => run step (step s e) es

/-- Every event of a run with the state just before it. -/
def history (step : σ → ε → σ) : σ → List ε → List (σ × ε)
  | _, [] => []
  | s, e :: es => (s, e) :: history step (step s e) es

/-- Every step of the run meets `P`, read in the state before the step. -/
def Along (step : σ → ε → σ) (P : σ → ε → Prop) : σ → List ε → Prop
  | _, [] => True
  | s, e :: es => P s e ∧ Along step P (step s e) es

instance decidableAlong (step : σ → ε → σ) (P : σ → ε → Prop) [∀ s e, Decidable (P s e)] :
    ∀ s es, Decidable (Along step P s es)
  | _, [] => .isTrue trivial
  | s, e :: es => @instDecidableAnd _ _ _ (decidableAlong step P (step s e) es)

/-- `I` holds at the start and in every state the run reaches. -/
def Throughout (step : σ → ε → σ) (I : σ → Prop) : σ → List ε → Prop
  | s, [] => I s
  | s, e :: es => I s ∧ Throughout step I (step s e) es

/-- The newest entry of a history that counts. -/
def latest (relevant : σ → ε → Bool) (h : List (σ × ε)) : Option (σ × ε) :=
  h.reverse.find? fun p => relevant p.1 p.2

theorem latest_snoc (relevant : σ → ε → Bool) (h : List (σ × ε)) (s : σ) (e : ε) :
    latest relevant (h ++ [(s, e)]) = if relevant s e then some (s, e) else latest relevant h := by
  simp only [latest, List.reverse_append, List.reverse_cons, List.reverse_nil, List.nil_append,
    List.singleton_append, List.find?_cons]
  cases relevant s e <;> rfl

theorem latest_relevant (relevant : σ → ε → Bool) (h : List (σ × ε)) (s : σ) (e : ε)
    (hl : latest relevant h = some (s, e)) : relevant s e = true := by
  simpa using List.find?_some hl

section
variable (step : σ → ε → σ)

@[simp] theorem run_nil (s : σ) : run step s [] = s := rfl
@[simp] theorem run_cons (s : σ) (e : ε) (es : List ε) :
    run step s (e :: es) = run step (step s e) es := rfl

theorem run_append (s : σ) (es fs : List ε) :
    run step s (es ++ fs) = run step (run step s es) fs := by
  induction es generalizing s with
  | nil => rfl
  | cons e es ih => exact ih (step s e)

theorem history_append (s : σ) (es fs : List ε) :
    history step s (es ++ fs) = history step s es ++ history step (run step s es) fs := by
  induction es generalizing s with
  | nil => rfl
  | cons e es ih => exact congrArg ((s, e) :: ·) (ih (step s e))

theorem along_iff_history (P : σ → ε → Prop) (s : σ) (es : List ε) :
    Along step P s es ↔ ∀ p ∈ history step s es, P p.1 p.2 := by
  induction es generalizing s with
  | nil => simp [Along, history]
  | cons e es ih => simp [Along, history, ih]

theorem along_append (P : σ → ε → Prop) (s : σ) (es fs : List ε) :
    Along step P s (es ++ fs) ↔ Along step P s es ∧ Along step P (run step s es) fs := by
  simp only [along_iff_history, history_append, List.mem_append, or_imp, forall_and]

/-- A condition on every step is one on every place where the run can be cut. -/
theorem along_iff_cut (P : σ → ε → Prop) (s : σ) (es : List ε) :
    Along step P s es ↔ ∀ before e after, es = before ++ e :: after → P (run step s before) e := by
  constructor
  · rintro h before e after rfl
    exact ((along_append step P s before (e :: after)).mp h).2.1
  · intro h
    induction es generalizing s with
    | nil => trivial
    | cons e es ih =>
      refine ⟨h [] e es rfl, ih (step s e) fun before e' after he => ?_⟩
      exact h (e :: before) e' after (congrArg (e :: ·) he)

/-- What only the relevant steps write, and they whatever was there before, is what
the latest of them wrote. -/
theorem run_eq_latest {α : Type} (value : σ → α) (relevant : σ → ε → Bool) (written : σ → ε → α)
    (hstep : ∀ s e, value (step s e) = if relevant s e then written s e else value s)
    (s : σ) (es : List ε) :
    value (run step s es) =
      ((latest relevant (history step s es)).map fun p => written p.1 p.2).getD (value s) := by
  induction es using List.reverseRecOn with
  | nil => rfl
  | append_singleton es e ih =>
    rw [run_append, history_append]
    simp only [history, run_cons, run_nil, hstep, latest_snoc]
    split
    · rfl
    · exact ih

variable {step}

theorem Throughout.head {I : σ → Prop} {s : σ} {es : List ε} (h : Throughout step I s es) : I s := by
  cases es with
  | nil => exact h
  | cons e es => exact h.1

/-- What the events of a run preserve holds after it. -/
theorem run_invariant_of_mem {I : σ → Prop} {es : List ε} (hstep : ∀ s, ∀ e ∈ es, I s → I (step s e))
    (s : σ) (h : I s) : I (run step s es) := by
  induction es generalizing s with
  | nil => exact h
  | cons e es ih =>
    refine ih (fun t e' he' => hstep t e' (List.mem_cons_of_mem e he')) (step s e) ?_
    exact hstep s e List.mem_cons_self h

/-- What every step preserves holds after every run. -/
theorem run_invariant {I : σ → Prop} (hstep : ∀ s e, I s → I (step s e))
    (s : σ) (es : List ε) (h : I s) : I (run step s es) :=
  run_invariant_of_mem (fun t e _ => hstep t e) s h

/-- An invariant that also speaks of what the run has done so far. -/
theorem run_invariant_history {I : List (σ × ε) → σ → Prop}
    (hstep : ∀ h s e, I h s → I (h ++ [(s, e)]) (step s e)) (s : σ) (h : I [] s) (es : List ε) :
    I (history step s es) (run step s es) := by
  induction es using List.reverseRecOn with
  | nil => exact h
  | append_singleton es e ih =>
    rw [run_append, history_append]
    exact hstep _ _ e ih

/-- A fact about single steps from invariant states holds of every step of a run. -/
theorem along_of_invariant {I : σ → Prop} {P : σ → ε → Prop}
    (hstep : ∀ s e, I s → I (step s e)) (hP : ∀ s e, I s → P s e)
    (s : σ) (es : List ε) (h : I s) : Along step P s es := by
  induction es generalizing s with
  | nil => trivial
  | cons e es ih => exact ⟨hP s e h, ih (step s e) (hstep s e h)⟩

theorem history_invariant {I : σ → Prop} (hstep : ∀ s e, I s → I (step s e))
    (s : σ) (es : List ε) (h : I s) : ∀ p ∈ history step s es, I p.1 :=
  (along_iff_history step (fun s _ => I s) s es).mp
    (along_of_invariant hstep (fun _ _ hs => hs) s es h)

/-- Two conditions on steps that agree in the states with `I` agree on every run, if a step
that meets them keeps `I`. -/
theorem along_iff_along {I : σ → Prop} {P Q : σ → ε → Prop}
    (hPQ : ∀ s e, I s → (P s e ↔ Q s e)) (hstep : ∀ s e, I s → P s e → I (step s e))
    (s : σ) (es : List ε) (h : I s) : Along step P s es ↔ Along step Q s es := by
  induction es generalizing s with
  | nil => exact Iff.rfl
  | cons e es ih =>
    have hPQ' := hPQ s e h
    constructor
    · rintro ⟨hp, ha⟩
      exact ⟨hPQ'.mp hp, (ih (step s e) (hstep s e h hp)).mp ha⟩
    · rintro ⟨hq, ha⟩
      exact ⟨hPQ'.mpr hq, (ih (step s e) (hstep s e h (hPQ'.mpr hq))).mpr ha⟩

/-- Two conditions on steps that agree in the invariant states agree on every run. -/
theorem along_iff_of_invariant {I : σ → Prop} {P Q : σ → ε → Prop}
    (hstep : ∀ s e, I s → I (step s e)) (hPQ : ∀ s e, I s → (P s e ↔ Q s e))
    (s : σ) (es : List ε) (h : I s) : Along step P s es ↔ Along step Q s es :=
  along_iff_along hPQ (fun s e hs _ => hstep s e hs) s es h

/-- Where a step keeps `I` exactly under `P`, a run keeps `I` in all its states
exactly when all its steps meet `P`. The background invariant `J` is kept by the
steps from states with `I`. -/
theorem throughout_iff_along {I J : σ → Prop} {P : σ → ε → Prop}
    (hJ : ∀ s e, J s → I s → J (step s e))
    (hstep : ∀ s e, J s → I s → (I (step s e) ↔ P s e))
    (s : σ) (es : List ε) (hj : J s) (h : I s) :
    Throughout step I s es ↔ Along step P s es := by
  induction es generalizing s with
  | nil => exact ⟨fun _ => trivial, fun _ => h⟩
  | cons e es ih =>
    constructor
    · rintro ⟨-, ht⟩
      have hi : I (step s e) := ht.head
      exact ⟨(hstep s e hj h).mp hi, (ih _ (hJ s e hj h) hi).mp ht⟩
    · rintro ⟨hp, ha⟩
      have hi : I (step s e) := (hstep s e hj h).mpr hp
      exact ⟨h, (ih _ (hJ s e hj h) hi).mpr ha⟩

/-- A step that meets `P` keeps `I`, so a run whose steps all meet `P` does. -/
theorem throughout_of_along {I : σ → Prop} {P : σ → ε → Prop}
    (hstep : ∀ s e, I s → P s e → I (step s e)) (s : σ) (es : List ε) (h : I s)
    (ha : Along step P s es) : Throughout step I s es := by
  induction es generalizing s with
  | nil => exact h
  | cons e es ih => exact ⟨h, ih (step s e) (hstep s e h ha.1) ha.2⟩

theorem Throughout.run {I : σ → Prop} {s : σ} {es : List ε} (h : Throughout step I s es) :
    I (run step s es) := by
  induction es generalizing s with
  | nil => exact h
  | cons e es ih => exact ih h.2

theorem Throughout.mono {I K : σ → Prop} (himp : ∀ s, I s → K s) (s : σ) (es : List ε)
    (h : Throughout step I s es) : Throughout step K s es := by
  induction es generalizing s with
  | nil => exact himp s h
  | cons e es ih => exact ⟨himp s h.1, ih (step s e) h.2⟩

/-- What a step shows from the states with `I`, every step of a run through such states shows. -/
theorem Throughout.along {I J : σ → Prop} {P : σ → ε → Prop} (hJ : ∀ s e, J s → I s → J (step s e))
    (hP : ∀ s e, J s → I s → P s e) (s : σ) (es : List ε) (hj : J s) (h : Throughout step I s es) :
    Along step P s es := by
  induction es generalizing s with
  | nil => trivial
  | cons e es ih => exact ⟨hP s e hj h.1, ih (step s e) (hJ s e hj h.1) h.2⟩

/-- Where moreover no step brings a lost `I` back, the last state tells whether
every step of the run met `P`. -/
theorem run_iff_along {I J : σ → Prop} {P : σ → ε → Prop}
    (hJ : ∀ s e, J s → J (step s e))
    (hstep : ∀ s e, J s → I s → (I (step s e) ↔ P s e))
    (hlost : ∀ s e, J s → ¬ I s → ¬ I (step s e))
    (s : σ) (es : List ε) (hj : J s) (h : I s) :
    I (run step s es) ↔ Along step P s es := by
  have hstay : ∀ (fs : List ε) (s : σ), J s → ¬ I s → ¬ I (run step s fs) := by
    intro fs
    induction fs with
    | nil => exact fun _ _ hn => hn
    | cons f fs ih => exact fun s hj hn => ih _ (hJ s f hj) (hlost s f hj hn)
  induction es generalizing s with
  | nil => exact ⟨fun _ => trivial, fun _ => h⟩
  | cons e es ih =>
    by_cases hi : I (step s e)
    · have hrest := ih (step s e) (hJ s e hj) hi
      exact ⟨fun hrun => ⟨(hstep s e hj h).mp hi, hrest.mp hrun⟩, fun ha => hrest.mpr ha.2⟩
    · constructor
      · exact fun hrun => absurd hrun (hstay es _ (hJ s e hj) hi)
      · exact fun ha => absurd ((hstep s e hj h).mpr ha.1) hi

end

end Runs

import SpringStudy.Threads
import SpringStudy.Runs

/-!
# Pools of threads with one monitor

Every call is a thread of its own, and all of them share one monitor. A thread
holds the monitor while the exit frame is on its stack. `gather` reads off what
the threads still have to do; `Simulates` relates two pools step by step.
-/
namespace Pools

open Tables Threads Runs

variable {σ φ κ β : Type}

structure Program (σ φ κ : Type) where
  /-- The first frame of a call. -/
  entry : κ → φ
  /-- What a frame does to the store, and the frames that take its place. -/
  effect : σ → φ → σ × List φ
  /-- The frames that wait for the monitor. -/
  waits : φ → Bool
  /-- The frame that gives the monitor back. -/
  exit : φ

structure Pool (σ φ : Type) where
  store : σ
  threads : Stacks φ
  /-- The number of calls so far, which is the number of the next thread. -/
  calls : Tid

inductive Event (κ : Type) where
  | start (call : κ)
  | advance (t : Tid)

def init (store : σ) : Pool σ φ := ⟨store, ∅, 0⟩

def Idle (w : Pool σ φ) : Prop := ∀ t, stackOf w.threads t = []

theorem idle_of_values (w : Pool σ φ) (h : ∀ stack ∈ values w.threads, stack = []) : Idle w := by
  intro t
  unfold stackOf
  cases hl : w.threads.lookup t with
  | none => rfl
  | some stack => exact h stack ((mem_values_iff w.threads stack).mpr ⟨t, hl⟩)

/-! ## What the threads still have to do -/

section
variable (g : φ → List β) (ts : Stacks φ) (t : Tid)

/-- What `g` sees in the frames of all threads. -/
def gather : List β := ts.entries.flatMap fun e => e.2.flatMap g

/-- The same without thread `t`. -/
def others : List β := gather g (ts.erase t)

theorem others_eq : others g ts t = (List.kerase t ts.entries).flatMap fun e => e.2.flatMap g := rfl

theorem gather_setStack (stack : List φ) :
    gather g (setStack ts t stack) = stack.flatMap g ++ others g ts t := rfl

/-- The stacks with the one of `t` singled out. -/
theorem gather_split : ∃ l₁ l₂, gather g ts = l₁ ++ (stackOf ts t).flatMap g ++ l₂ ∧
    others g ts t = l₁ ++ l₂ := by
  cases hl : ts.lookup t with
  | none =>
    refine ⟨[], gather g ts, by simp [stackOf, hl], ?_⟩
    have hmem : t ∉ ts.entries.keys := AList.lookup_eq_none.mp hl
    rw [others_eq, List.kerase_of_notMem_keys hmem]
    rfl
  | some stack =>
    have hmem : t ∈ ts.entries.keys := (AList.lookup_isSome (s := ts)).mp (by rw [hl]; rfl)
    obtain ⟨b, e₁, e₂, hnot, he, hk⟩ := List.exists_of_kerase hmem
    have hb : ts.lookup t = some b := (mem_entries_iff ts t b).mp (he ▸ by simp)
    refine ⟨e₁.flatMap fun e => e.2.flatMap g, e₂.flatMap fun e => e.2.flatMap g, ?_, ?_⟩
    · simp [gather, he, stackOf, hb]
    · rw [others_eq, hk, List.flatMap_append]

theorem gather_perm : (gather g ts).Perm ((stackOf ts t).flatMap g ++ others g ts t) := by
  obtain ⟨l₁, l₂, hg, ho⟩ := gather_split g ts t
  rw [hg, ho, List.append_assoc]
  exact List.perm_append_comm_assoc l₁ _ l₂

variable {g ts t}

theorem others_of_nil (h : (stackOf ts t).flatMap g = []) : others g ts t = gather g ts := by
  obtain ⟨l₁, l₂, hg, ho⟩ := gather_split g ts t
  rw [hg, ho, h, List.append_nil]

theorem gather_of_others_nil (h : others g ts t = []) : gather g ts = (stackOf ts t).flatMap g := by
  obtain ⟨l₁, l₂, hg, ho⟩ := gather_split g ts t
  rw [h] at ho
  obtain ⟨rfl, rfl⟩ := List.append_eq_nil_iff.mp ho.symm
  rw [hg, List.nil_append, List.append_nil]

theorem gather_eq_nil (h : ∀ t, (stackOf ts t).flatMap g = []) : gather g ts = [] := by
  refine List.flatMap_eq_nil_iff.mpr ?_
  rintro ⟨t, stack⟩ he
  have hl := (mem_entries_iff ts t stack).mp he
  simpa [stackOf, hl] using h t

theorem others_eq_nil (h : ∀ t', t' ≠ t → (stackOf ts t').flatMap g = []) : others g ts t = [] := by
  refine gather_eq_nil fun t' => ?_
  by_cases hne : t' = t
  · simp [stackOf, hne]
  · simpa [stackOf, AList.lookup_erase_ne hne] using h t' hne

end

/-! ## Steps -/

variable [DecidableEq φ] (P : Program σ φ κ)

/-- Another thread than `t` holds the monitor. -/
def held (w : Pool σ φ) (t : Tid) : Bool := hasOther w.threads t fun stack => decide (P.exit ∈ stack)

theorem held_iff (w : Pool σ φ) (t : Tid) :
    held P w t = true ↔ ∃ t', t' ≠ t ∧ P.exit ∈ stackOf w.threads t' := by
  rw [held, hasOther_iff w.threads t (fun stack => decide (P.exit ∈ stack)) (by simp)]
  simp only [decide_eq_true_eq]

def advance (w : Pool σ φ) (t : Tid) : Pool σ φ :=
  match stackOf w.threads t with
  | [] => w
  | f :: rest =>
    if P.waits f && held P w t then w
    else { w with
      store := (P.effect w.store f).1
      threads := setStack w.threads t ((P.effect w.store f).2 ++ rest) }

def step (w : Pool σ φ) : Event κ → Pool σ φ
  | .start call => { w with threads := setStack w.threads w.calls [P.entry call], calls := w.calls + 1 }
  | .advance t => advance P w t

/-- A thread goes on with the frame `f` over `rest`. -/
structure Goes (w : Pool σ φ) (t : Tid) (f : φ) (rest : List φ) : Prop where
  top : stackOf w.threads t = f :: rest
  free : P.waits f = true → held P w t = false

/-- The pool after thread `t` has gone on. -/
def after (w : Pool σ φ) (t : Tid) (f : φ) (rest : List φ) : Pool σ φ :=
  { w with
    store := (P.effect w.store f).1
    threads := setStack w.threads t ((P.effect w.store f).2 ++ rest) }

variable {P}

theorem Goes.advance_eq {w : Pool σ φ} {t : Tid} {f : φ} {rest : List φ} (h : Goes P w t f rest) :
    advance P w t = after P w t f rest := by
  unfold advance
  rw [h.top]
  cases hw : P.waits f with
  | false => simp [hw, after]
  | true => simp [hw, h.free hw, after]

variable (P) in
theorem advance_cases (w : Pool σ φ) (t : Tid) :
    advance P w t = w ∨ ∃ f rest, Goes P w t f rest ∧ advance P w t = after P w t f rest := by
  cases hs : stackOf w.threads t with
  | nil =>
    refine .inl ?_
    unfold advance
    rw [hs]
  | cons f rest =>
    by_cases hb : (P.waits f && held P w t) = true
    · refine .inl ?_
      unfold advance
      rw [hs]
      simp [hb]
    · have hgo : Goes P w t f rest := ⟨hs, fun hw => by simpa [hw] using hb⟩
      exact .inr ⟨f, rest, hgo, hgo.advance_eq⟩

/-- What a start and a thread that goes on keep, every step keeps. -/
theorem step_invariant {I : Pool σ φ → Prop} (hstart : ∀ w call, I w → I (step P w (.start call)))
    (hgo : ∀ w t f rest, Goes P w t f rest → I w → I (after P w t f rest)) (w : Pool σ φ) (e : Event κ)
    (h : I w) : I (step P w e) := by
  cases e with
  | start call => exact hstart w call h
  | advance t =>
    change I (advance P w t)
    rcases advance_cases P w t with heq | ⟨f, rest, hgoes, heq⟩
    · rw [heq]
      exact h
    · rw [heq]
      exact hgo w t f rest hgoes h

/-- No thread has been started yet under the coming numbers. -/
def Fresh (w : Pool σ φ) : Prop := ∀ t, w.calls ≤ t → stackOf w.threads t = []

theorem step_fresh (w : Pool σ φ) (e : Event κ) (h : Fresh w) : Fresh (step P w e) := by
  refine step_invariant (I := Fresh) ?_ ?_ w e h
  · intro w call h t ht
    have hlt : w.calls < t := ht
    simp only [step, stackOf_setStack]
    rw [if_neg (Nat.ne_of_gt hlt)]
    exact h t (Nat.le_of_lt hlt)
  · intro w t f rest hgo h t' ht'
    have hne : t' ≠ t := by
      rintro rfl
      have hnil := h t' ht'
      rw [hgo.top] at hnil
      cases hnil
    simp only [after, stackOf_setStack]
    rw [if_neg hne]
    exact h t' ht'

/-! ## Frames on the stacks -/

def AllFrames (G : σ → φ → Prop) (w : Pool σ φ) : Prop := ∀ t, ∀ f ∈ stackOf w.threads t, G w.store f

/-- A property of frames that no effect takes from them, and that pushed frames have. -/
theorem step_allFrames {G : σ → φ → Prop} {I : σ → Prop} (hentry : ∀ s call, G s (P.entry call))
    (hkeep : ∀ s f g, I s → G s f → G s g → G (P.effect s f).1 g)
    (hpush : ∀ s f, I s → G s f → ∀ g ∈ (P.effect s f).2, G (P.effect s f).1 g)
    (w : Pool σ φ) (e : Event κ) (hI : I w.store) (h : AllFrames G w) : AllFrames G (step P w e) := by
  cases e with
  | start call =>
    intro t f hf
    simp only [step, stackOf_setStack] at hf
    split at hf
    · rw [List.mem_singleton.mp hf]
      exact hentry _ call
    · exact h t f hf
  | advance t =>
    change AllFrames G (advance P w t)
    rcases advance_cases P w t with heq | ⟨f, rest, hgo, heq⟩
    · rw [heq]
      exact h
    · rw [heq]
      have hf : G w.store f := h t f (by rw [hgo.top]; exact List.mem_cons_self)
      intro t' g hg
      simp only [after, stackOf_setStack] at hg ⊢
      split at hg
      · rcases List.mem_append.mp hg with hg | hg
        · exact hpush _ f hI hf g hg
        · exact hkeep _ f g hI hf (h t g (by rw [hgo.top]; exact List.mem_cons_of_mem _ hg))
      · exact hkeep _ f g hI hf (h t' g hg)

/-! ## Simulation -/

section
variable {σ' φ' κ' : Type} [DecidableEq φ'] (P) (P' : Program σ' φ' κ')

/-- How the program `P` is seen as the program `P'`. -/
structure View where
  store : σ → σ'
  frame : φ → φ'
  call : κ → κ'
  entry : ∀ c, P'.entry (call c) = frame (P.entry c)
  waits : ∀ f, P'.waits (frame f) = P.waits f
  exit : ∀ f, frame f = P'.exit ↔ f = P.exit

variable {P P'} (V : View P P')

def View.event : Event κ → Event κ'
  | .start c => .start (V.call c)
  | .advance t => .advance t

/-- The pools show the same store and the same stacks. -/
structure Simulates (w : Pool σ φ) (w' : Pool σ' φ') : Prop where
  store : w'.store = V.store w.store
  calls : w'.calls = w.calls
  threads : ∀ t, stackOf w'.threads t = (stackOf w.threads t).map V.frame

variable {V} {w : Pool σ φ} {w' : Pool σ' φ'}

theorem Simulates.held_eq (h : Simulates V w w') (t : Tid) : held P' w' t = held P w t := by
  have hmem : ∀ t', P'.exit ∈ stackOf w'.threads t' ↔ P.exit ∈ stackOf w.threads t' := by
    intro t'
    rw [h.threads t', List.mem_map]
    constructor
    · rintro ⟨f, hf, hexit⟩
      rw [(V.exit f).mp hexit] at hf
      exact hf
    · exact fun hf => ⟨P.exit, hf, (V.exit P.exit).mpr rfl⟩
  rw [Bool.eq_iff_iff, held_iff, held_iff]
  simp only [hmem]

/-- Where every effect is seen as the other program's effect, every step is. -/
theorem Simulates.step {I : σ → Prop} (h : Simulates V w w') (hI : I w.store)
    (heffect : ∀ s f, I s → P'.effect (V.store s) (V.frame f) =
      (V.store (P.effect s f).1, (P.effect s f).2.map V.frame)) (e : Event κ) :
    Simulates V (step P w e) (step P' w' (V.event e)) := by
  cases e with
  | start c =>
    refine ⟨h.store, congrArg (· + 1) h.calls, fun t => ?_⟩
    simp only [Pools.step, View.event, stackOf_setStack, h.calls]
    split
    · simp [V.entry]
    · exact h.threads t
  | advance t =>
    change Simulates V (advance P w t) (advance P' w' t)
    have hstack := h.threads t
    unfold advance
    cases hs : stackOf w.threads t with
    | nil =>
      rw [hs, List.map_nil] at hstack
      rw [hstack]
      exact h
    | cons f rest =>
      rw [hs, List.map_cons] at hstack
      rw [hstack]
      simp only [V.waits, h.held_eq]
      split
      · exact h
      · have he := heffect w.store f hI
        rw [← h.store] at he
        refine ⟨congrArg Prod.fst he, h.calls, fun t' => ?_⟩
        simp only [stackOf_setStack]
        split
        · rw [congrArg Prod.snd he, List.map_append]
        · exact h.threads t'

theorem Simulates.run {I : σ → Prop} (h : Simulates V w w') (hI : I w.store)
    (hkeep : ∀ s f, I s → I (P.effect s f).1)
    (heffect : ∀ s f, I s → P'.effect (V.store s) (V.frame f) =
      (V.store (P.effect s f).1, (P.effect s f).2.map V.frame)) (events : List (Event κ)) :
    Simulates V (run (Pools.step P) w events) (run (Pools.step P') w' (events.map V.event)) := by
  induction events generalizing w w' with
  | nil => exact h
  | cons e es ih =>
    refine ih (h.step hI heffect e) ?_
    refine step_invariant (I := fun w => I w.store) (fun _ _ h => h) (fun w t f rest _ h => ?_) w e hI
    exact hkeep w.store f h

omit [DecidableEq φ] [DecidableEq φ'] in
theorem Simulates.idle_iff (h : Simulates V w w') : Idle w' ↔ Idle w := by
  simp [Idle, h.threads]

end

end Pools

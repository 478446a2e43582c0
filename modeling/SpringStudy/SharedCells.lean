import Mathlib.Data.List.Perm.Basic
import SpringStudy.Runs

/-!
# Read, modify, write

Several clients update one shared cell. Each does it once and in two steps: it
reads the cell, and later it writes the update of what it has read. A schedule
is the list of the clients in the order in which they take their steps.
-/
namespace SharedCells

open Runs

variable {σ ρ : Type}

/-- How far a client has come. -/
inductive Phase (σ : Type) where
  | waiting
  | loaded (seen : σ)
  | finished
  deriving DecidableEq

def Phase.isFinished : Phase σ → Bool
  | .finished => true
  | _ => false

structure Client (σ ρ : Type) where
  request : ρ
  phase : Phase σ
  deriving DecidableEq

structure State (σ ρ : Type) where
  cell : σ
  clients : List (Client σ ρ)
  /-- The requests that have been written, in that order. -/
  written : List ρ

def init (cell : σ) (requests : List ρ) : State σ ρ := ⟨cell, requests.map fun r => ⟨r, .waiting⟩, []⟩

/-- Client `i` takes its next step, if it has one. -/
def step (update : ρ → σ → σ) (s : State σ ρ) (i : Nat) : State σ ρ :=
  match s.clients[i]? with
  | some ⟨request, .waiting⟩ => { s with clients := s.clients.set i ⟨request, .loaded s.cell⟩ }
  | some ⟨request, .loaded seen⟩ =>
    ⟨update request seen, s.clients.set i ⟨request, .finished⟩, s.written ++ [request]⟩
  | _ => s

def Completed (s : State σ ρ) : Prop := ∀ c ∈ s.clients, c.phase.isFinished = true

/-- If the step is a write, the cell still holds what the client has read. -/
def Current (s : State σ ρ) (i : Nat) : Prop :=
  ∀ request seen, s.clients[i]? = some ⟨request, .loaded seen⟩ → s.cell = seen

variable {update : ρ → σ → σ}

/-- A step reads, writes or does nothing. -/
theorem step_cases (update : ρ → σ → σ) (s : State σ ρ) (i : Nat) :
    (∃ request, s.clients[i]? = some ⟨request, .waiting⟩ ∧
      step update s i = { s with clients := s.clients.set i ⟨request, .loaded s.cell⟩ }) ∨
    (∃ request seen, s.clients[i]? = some ⟨request, .loaded seen⟩ ∧
      step update s i =
        ⟨update request seen, s.clients.set i ⟨request, .finished⟩, s.written ++ [request]⟩) ∨
    ((∀ request seen, s.clients[i]? ≠ some ⟨request, .loaded seen⟩) ∧ step update s i = s) := by
  rcases hc : s.clients[i]? with _ | ⟨request, phase⟩
  · exact .inr (.inr ⟨by simp, by simp [step, hc]⟩)
  · cases phase with
    | waiting => exact .inl ⟨request, rfl, by simp [step, hc]⟩
    | loaded seen => exact .inr (.inl ⟨request, seen, rfl, by simp [step, hc]⟩)
    | finished => exact .inr (.inr ⟨by simp, by simp [step, hc]⟩)

/-! ## Every client writes once -/

def finishedRequests (clients : List (Client σ ρ)) : List ρ :=
  (clients.filter fun c => c.phase.isFinished).map Client.request

theorem finishedRequests_perm {clients clients' : List (Client σ ρ)} (h : clients.Perm clients') :
    (finishedRequests clients).Perm (finishedRequests clients') :=
  (h.filter _).map _

/-- What happens to the finished requests when client `i` takes `phase`. -/
theorem finishedRequests_set {clients : List (Client σ ρ)} {i : Nat} {request : ρ} {phase : Phase σ}
    (hi : clients[i]? = some ⟨request, phase⟩) (hphase : phase.isFinished = false) (new : Phase σ) :
    (finishedRequests (clients.set i ⟨request, new⟩)).Perm
      (if new.isFinished then request :: finishedRequests clients else finishedRequests clients) := by
  obtain ⟨hlt, hget⟩ := List.getElem?_eq_some_iff.mp hi
  have hold := finishedRequests_perm (List.getElem_cons_eraseIdx_perm hlt)
  have hnew := finishedRequests_perm (List.set_perm_cons_eraseIdx hlt ⟨request, new⟩)
  rw [hget] at hold
  simp only [finishedRequests, List.filter_cons, hphase, Bool.false_eq_true, if_false] at hold
  refine hnew.trans ?_
  cases hfin : new.isFinished with
  | true =>
    simp only [finishedRequests, List.filter_cons, hfin, if_true, List.map_cons]
    exact hold.cons request
  | false =>
    simp only [finishedRequests, List.filter_cons, hfin, Bool.false_eq_true, if_false]
    exact hold

/-- What has been written is what the finished clients had to write. -/
structure Accounted (requests : List ρ) (s : State σ ρ) : Prop where
  requests : s.clients.map Client.request = requests
  written : s.written.Perm (finishedRequests s.clients)

theorem map_request_set {clients : List (Client σ ρ)} {i : Nat} {request : ρ} {phase : Phase σ}
    (hi : clients[i]? = some ⟨request, phase⟩) (new : Phase σ) :
    (clients.set i ⟨request, new⟩).map Client.request = clients.map Client.request := by
  obtain ⟨hlt, hget⟩ := List.getElem?_eq_some_iff.mp hi
  rw [List.map_set]
  apply List.ext_getElem?
  intro j
  by_cases hj : i = j
  · subst hj
    simp [hlt, hget]
  · rw [List.getElem?_set_ne hj]

theorem step_accounted {requests : List ρ} (s : State σ ρ) (i : Nat) (h : Accounted requests s) :
    Accounted requests (step update s i) := by
  rcases step_cases update s i with ⟨request, hi, he⟩ | ⟨request, seen, hi, he⟩ | ⟨-, he⟩
  · rw [he]
    refine ⟨(map_request_set hi _).trans h.requests, ?_⟩
    have hset := finishedRequests_set hi rfl (.loaded s.cell)
    exact h.written.trans hset.symm
  · rw [he]
    refine ⟨(map_request_set hi _).trans h.requests, ?_⟩
    have hset := finishedRequests_set hi rfl .finished
    refine List.perm_append_singleton request s.written |>.trans ?_
    exact (h.written.cons request).trans hset.symm
  · rw [he]
    exact h

/-- When all clients are through, every request has been written once. -/
theorem written_perm {requests : List ρ} {s : State σ ρ} (h : Accounted requests s) (hdone : Completed s) :
    s.written.Perm requests := by
  have hall : finishedRequests s.clients = requests := by
    rw [finishedRequests, List.filter_eq_self.mpr hdone, h.requests]
  exact hall ▸ h.written

theorem init_accounted (cell : σ) (requests : List ρ) : Accounted requests (init cell requests) where
  requests := by
    simp only [init, List.map_map]
    exact List.map_id requests
  written := by
    have hnone : finishedRequests (init cell requests).clients = [] := by
      simp [finishedRequests, init, List.filter_map, Function.comp_def, Phase.isFinished]
    rw [hnone]
    exact List.Perm.refl _

theorem run_accounted (cell : σ) (requests : List ρ) (schedule : List Nat) :
    Accounted requests (run (step update) (init cell requests) schedule) :=
  run_invariant step_accounted _ schedule (init_accounted cell requests)

/-! ## Writes of what is still there -/

/-- If nobody writes over an update it has not seen, the updates are made one after the other. -/
theorem run_serial (cell : σ) (requests : List ρ) (schedule : List Nat)
    (h : Along (step update) Current (init cell requests) schedule) :
    (run (step update) (init cell requests) schedule).cell =
      (run (step update) (init cell requests) schedule).written.foldl (fun x r => update r x) cell := by
  refine (throughout_of_along (I := fun s => s.cell = s.written.foldl (fun x r => update r x) cell)
    ?_ _ schedule rfl h).run
  intro s i hs hcur
  rcases step_cases update s i with ⟨request, hi, he⟩ | ⟨request, seen, hi, he⟩ | ⟨-, he⟩
  · rw [he]
    exact hs
  · rw [he, ← hcur request seen hi, hs]
    simp only [List.foldl_append, List.foldl_cons, List.foldl_nil]
  · rw [he]
    exact hs

/-! ## Lost updates -/

section
variable (size : σ → Nat) (base : Nat)

/-- Where every update makes the value one larger, neither the cell nor what a client has
read is larger than the writes so far allow, and one that has read that much is up to date. -/
structure Bounded (s : State σ ρ) : Prop where
  cell : size s.cell ≤ base + s.written.length
  seen : ∀ (i : Nat) request seen, s.clients[i]? = some ⟨request, .loaded seen⟩ →
    size seen ≤ base + s.written.length ∧ (size seen = base + s.written.length → s.cell = seen)

/-- No update has been lost so far. -/
def Complete (s : State σ ρ) : Prop := size s.cell = base + s.written.length

variable {size base}

theorem set_loaded {clients : List (Client σ ρ)} {i j : Nat} {c : Client σ ρ} {request : ρ} {seen : σ}
    (h : (clients.set i c)[j]? = some ⟨request, .loaded seen⟩) :
    c = ⟨request, .loaded seen⟩ ∨ clients[j]? = some ⟨request, .loaded seen⟩ := by
  by_cases hj : i = j
  · subst hj
    rw [List.getElem?_set_self'] at h
    obtain ⟨_, _, hc⟩ := Option.map_eq_some_iff.mp h
    exact .inl hc
  · rw [List.getElem?_set_ne hj] at h
    exact .inr h

theorem step_bounded (hsize : ∀ r x, size (update r x) = size x + 1) (s : State σ ρ) (i : Nat)
    (h : Bounded size base s) : Bounded size base (step update s i) := by
  rcases step_cases update s i with ⟨request, hi, he⟩ | ⟨request, seen, hi, he⟩ | ⟨-, he⟩
  · rw [he]
    refine ⟨h.cell, ?_⟩
    intro j request' seen' hj
    rcases set_loaded hj with hc | hj
    · obtain ⟨rfl, hp⟩ := Client.mk.inj hc
      obtain rfl := Phase.loaded.inj hp
      exact ⟨h.cell, fun _ => rfl⟩
    · exact h.seen j request' seen' hj
  · rw [he]
    have hseen := (h.seen i request seen hi).1
    refine ⟨?_, ?_⟩
    · show size (update request seen) ≤ base + (s.written ++ [request]).length
      rw [hsize, List.length_append, List.length_singleton]
      omega
    · intro j request' seen' hj
      rcases set_loaded hj with hc | hj
      · cases (Client.mk.inj hc).2
      · have hold := (h.seen j request' seen' hj).1
        show size seen' ≤ base + (s.written ++ [request]).length ∧
          (size seen' = base + (s.written ++ [request]).length → update request seen = seen')
        rw [List.length_append, List.length_singleton]
        constructor
        · omega
        · intro hbig
          omega
  · rw [he]
    exact h

theorem step_complete_iff (hsize : ∀ r x, size (update r x) = size x + 1) (s : State σ ρ) (i : Nat)
    (h : Bounded size base s) (hc : Complete size base s) :
    Complete size base (step update s i) ↔ Current s i := by
  rcases step_cases update s i with ⟨request, hi, he⟩ | ⟨request, seen, hi, he⟩ | ⟨hno, he⟩
  · rw [he]
    refine ⟨fun _ => ?_, fun _ => hc⟩
    intro request' seen' hi'
    rw [hi] at hi'
    cases hi'
  · have hcomplete : Complete size base (step update s i) ↔ size seen = base + s.written.length := by
      rw [he]
      show size (update request seen) = base + (s.written ++ [request]).length ↔ _
      rw [hsize, List.length_append, List.length_singleton]
      omega
    rw [hcomplete]
    constructor
    · intro hbig request' seen' hi'
      rw [hi, Option.some.injEq, Client.mk.injEq, Phase.loaded.injEq] at hi'
      exact hi'.2 ▸ (h.seen i request seen hi).2 hbig
    · intro hcur
      rw [← hcur request seen hi]
      exact hc
  · rw [he]
    exact ⟨fun _ request seen hi => absurd hi (hno request seen), fun _ => hc⟩

/-- An update that is lost stays lost. -/
theorem step_lost (hsize : ∀ r x, size (update r x) = size x + 1) (s : State σ ρ) (i : Nat)
    (h : Bounded size base s) (hc : ¬ Complete size base s) :
    ¬ Complete size base (step update s i) := by
  rcases step_cases update s i with ⟨request, hi, he⟩ | ⟨request, seen, hi, he⟩ | ⟨-, he⟩
  · rw [he]
    exact hc
  · rw [he]
    intro hnew
    have hbig : size seen = base + s.written.length := by
      have hlen : size (update request seen) = base + (s.written ++ [request]).length := hnew
      rw [hsize, List.length_append, List.length_singleton] at hlen
      omega
    have hcell := (h.seen i request seen hi).2 hbig
    apply hc
    rw [Complete, hcell]
    exact hbig
  · rw [he]
    exact hc

theorem init_bounded (cell : σ) (requests : List ρ) : Bounded size (size cell) (init cell requests) where
  cell := Nat.le_refl _
  seen := by
    intro i request seen hi
    obtain ⟨r, -, hr⟩ := List.mem_map.mp (List.mem_of_getElem? hi)
    cases (Client.mk.inj hr).2

/-- After a schedule no update is missing exactly when every write met what its client had read. -/
theorem run_complete_iff (size : σ → Nat) (hsize : ∀ r x, size (update r x) = size x + 1) (cell : σ) (requests : List ρ)
    (schedule : List Nat) :
    Complete size (size cell) (run (step update) (init cell requests) schedule) ↔
      Along (step update) Current (init cell requests) schedule :=
  run_iff_along (step_bounded hsize) (step_complete_iff hsize) (step_lost hsize) _ schedule
    (init_bounded cell requests) rfl

end

end SharedCells

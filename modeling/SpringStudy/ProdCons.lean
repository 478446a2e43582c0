import SpringStudy.Runs
import SpringStudy.Interleavings

/-!
# Producers and consumers over a concurrent queue

Each producer offers requests to one `ConcurrentLinkedDeque` and each consumer polls
it, without a lock and without waiting, until `shouldStop` is set. Only `offer` and
`poll` are atomic: a thread writes its line to the log in a step of its own, and so
the log need not have the order of the queue.
-/
namespace ProdCons

open Runs Interleavings

inductive Role where
  | producer
  | consumer
  deriving DecidableEq, Repr

inductive Phase where
  /-- Before the condition of the loop. -/
  | check
  /-- In the body of the loop. -/
  | work
  /-- A producer has made this request. -/
  | offering (request : String)
  /-- The request has been offered, or polled, and is logged next. -/
  | logging (request : String)
  | done
  deriving DecidableEq, Repr

structure Thread where
  role : Role
  phase : Phase
  deriving DecidableEq, Repr

structure Shared where
  shouldStop : Bool
  requests : List String
  /-- Each line with the number of its thread. -/
  log : List (Nat × String)
  /-- The calls of `offer`, and those of `poll` that found something; no code reads them. -/
  offered : List (Nat × String)
  polled : List (Nat × String)
  deriving DecidableEq, Repr

def producer (i now : Nat) (s : Shared) (t : Thread) : Shared × Thread :=
  match t.phase with
  | .check => (s, { t with phase := if s.shouldStop then .done else .work })
  | .work => (s, { t with phase := .offering (toString now) })
  | .offering request =>
    ({ s with requests := s.requests ++ [request], offered := s.offered ++ [(i, request)] },
      { t with phase := .logging request })
  | .logging request => ({ s with log := s.log ++ [(i, request)] }, { t with phase := .check })
  | .done => (s, t)

def consumer (i : Nat) (s : Shared) (t : Thread) : Shared × Thread :=
  match t.phase with
  | .check => (s, { t with phase := if s.shouldStop then .done else .work })
  | .work =>
    match s.requests with
    | [] => (s, { t with phase := .check })
    | request :: rest =>
      ({ s with requests := rest, polled := s.polled ++ [(i, request)] }, { t with phase := .logging request })
  | .logging request => ({ s with log := s.log ++ [(i, request)] }, { t with phase := .check })
  | .offering _ | .done => (s, t)

def advance (i now : Nat) (s : Shared) (t : Thread) : Shared × Thread :=
  match t.role with
  | .producer => producer i now s t
  | .consumer => consumer i s t

inductive Event where
  | thread (i now : Nat)
  /-- `startUp` sets the flag when a key has been pressed. -/
  | stop
  deriving DecidableEq, Repr

abbrev System := State Shared Thread

def step (s : System) : Event → System
  | .thread i now => s.act (advance i now) i
  | .stop => { s with shared := { s.shared with shouldStop := true } }

def init (roles : List Role) : System := ⟨⟨false, [], [], [], []⟩, roles.map fun role => ⟨role, .check⟩⟩

/-! ## Each thread's own requests -/

/-- The entries of thread `i`, in their order. -/
def own (i : Nat) (entries : List (Nat × String)) : List String :=
  (entries.filter fun entry => entry.1 == i).map Prod.snd

theorem own_snoc_self (i : Nat) (entries : List (Nat × String)) (request : String) :
    own i (entries ++ [(i, request)]) = own i entries ++ [request] := by
  simp [own]

theorem own_snoc_other {i j : Nat} (hne : i ≠ j) (entries : List (Nat × String)) (request : String) :
    own j (entries ++ [(i, request)]) = own j entries := by
  simp [own, hne]

theorem count_own (i : Nat) (entries : List (Nat × String)) (request : String) :
    (own i entries).count request = entries.count (i, request) := by
  induction entries with
  | nil => rfl
  | cons entry rest ih =>
    obtain ⟨j, r⟩ := entry
    unfold own at ih ⊢
    by_cases hj : j = i
    · subst hj
      rw [List.filter_cons_of_pos (by simp), List.map_cons, List.count_cons, List.count_cons, ih]
      simp
    · rw [List.filter_cons_of_neg (by simpa using hj), ih, List.count_cons]
      simp [hj]

/-- The calls in which a thread of this role hands a request over. -/
def Shared.calls (s : Shared) : Role → List (Nat × String)
  | .producer => s.offered
  | .consumer => s.polled

def Thread.inHand (t : Thread) : List String :=
  match t.phase with
  | .logging request => [request]
  | _ => []

/-- What a step can do to the shared state, and to what the thread has in hand. -/
inductive Effect (i : Nat) (s : Shared) (t : Thread) : Shared → Thread → Prop where
  | quiet {t' : Thread} (hrole : t'.role = t.role) (hhand : t'.inHand = t.inHand) : Effect i s t s t'
  | offer {t' : Thread} (request : String) (hproducer : t.role = .producer) (hrole : t'.role = t.role)
      (hold : t.inHand = []) (hnew : t'.inHand = [request]) :
      Effect i s t { s with requests := s.requests ++ [request], offered := s.offered ++ [(i, request)] } t'
  | poll {t' : Thread} {request : String} {rest : List String} (hrequests : s.requests = request :: rest)
      (hconsumer : t.role = .consumer) (hrole : t'.role = t.role) (hold : t.inHand = [])
      (hnew : t'.inHand = [request]) :
      Effect i s t { s with requests := rest, polled := s.polled ++ [(i, request)] } t'
  | log {t' : Thread} (request : String) (hrole : t'.role = t.role) (hold : t.inHand = [request])
      (hnew : t'.inHand = []) : Effect i s t { s with log := s.log ++ [(i, request)] } t'

theorem advance_effect (i now : Nat) (s : Shared) (t : Thread) :
    Effect i s t (advance i now s t).1 (advance i now s t).2 := by
  obtain ⟨role, phase⟩ := t
  cases role with
  | producer =>
    cases phase with
    | check =>
      refine .quiet rfl ?_
      show Thread.inHand ⟨.producer, if s.shouldStop then .done else .work⟩ = []
      split <;> rfl
    | work => exact .quiet rfl rfl
    | offering request => exact .offer request rfl rfl rfl rfl
    | logging request => exact .log request rfl rfl rfl
    | done => exact .quiet rfl rfl
  | consumer =>
    cases phase with
    | check =>
      refine .quiet rfl ?_
      show Thread.inHand ⟨.consumer, if s.shouldStop then .done else .work⟩ = []
      split <;> rfl
    | work =>
      cases hr : s.requests with
      | nil =>
        have heq : advance i now s ⟨.consumer, .work⟩ = (s, ⟨.consumer, .check⟩) := by
          simp only [advance, consumer, hr]
        rw [heq]
        exact .quiet rfl rfl
      | cons request rest =>
        have heq : advance i now s ⟨.consumer, .work⟩ =
            ({ s with requests := rest, polled := s.polled ++ [(i, request)] }, ⟨.consumer, .logging request⟩) := by
          simp only [advance, consumer, hr]
        rw [heq]
        exact .poll hr rfl rfl rfl rfl
    | offering request => exact .quiet rfl rfl
    | logging request => exact .log request rfl rfl rfl
    | done => exact .quiet rfl rfl

/-! ## The queue and the log -/

def Role.other : Role → Role
  | .producer => .consumer
  | .consumer => .producer

/-- The queue is first in, first out, and each thread logs what it has handed over. -/
structure Ordered (s : System) : Prop where
  queue : s.shared.polled.map Prod.snd ++ s.shared.requests = s.shared.offered.map Prod.snd
  lines : ∀ i t, s.threads[i]? = some t → own i (s.shared.calls t.role) = own i s.shared.log ++ t.inHand
  other : ∀ i t, s.threads[i]? = some t → own i (s.shared.calls t.role.other) = []
  nobody : ∀ i, s.threads[i]? = none → own i s.shared.log = [] ∧ ∀ role, own i (s.shared.calls role) = []

section
variable {s s' : Shared} {threads : List Thread} {i : Nat} {t t' : Thread}

theorem effect_role (h : Effect i s t s' t') : t'.role = t.role := by
  cases h <;> assumption

/-- The queue keeps its order. -/
theorem effect_queue (h : Effect i s t s' t')
    (hq : s.polled.map Prod.snd ++ s.requests = s.offered.map Prod.snd) :
    s'.polled.map Prod.snd ++ s'.requests = s'.offered.map Prod.snd := by
  cases h with
  | quiet _ _ => exact hq
  | offer request _ _ _ _ =>
    show s.polled.map Prod.snd ++ (s.requests ++ [request]) = (s.offered ++ [(i, request)]).map Prod.snd
    rw [← List.append_assoc, hq, List.map_append]
    rfl
  | @poll _ request rest hrequests _ _ _ _ =>
    show (s.polled ++ [(i, request)]).map Prod.snd ++ rest = s.offered.map Prod.snd
    rw [← hq, hrequests, List.map_append, List.append_assoc]
    rfl
  | log request _ _ _ => exact hq

/-- A thread hands over under its own role only. -/
theorem effect_other (h : Effect i s t s' t') : s'.calls t.role.other = s.calls t.role.other := by
  cases h with
  | quiet _ _ => rfl
  | offer request hproducer _ _ _ =>
    rw [hproducer]
    rfl
  | poll hrequests hconsumer _ _ _ =>
    rw [hconsumer]
    rfl
  | log request _ _ _ => exact (by cases t.role <;> rfl)

theorem effect_lines (h : Effect i s t s' t') (hl : own i (s.calls t.role) = own i s.log ++ t.inHand) :
    own i (s'.calls t.role) = own i s'.log ++ t'.inHand := by
  cases h with
  | quiet _ hhand =>
    rw [hhand]
    exact hl
  | offer request hproducer _ hold hnew =>
    rw [hproducer] at hl ⊢
    rw [hold, List.append_nil] at hl
    rw [hnew, ← hl]
    exact own_snoc_self i s.offered request
  | @poll _ request rest hrequests hconsumer _ hold hnew =>
    rw [hconsumer] at hl ⊢
    rw [hold, List.append_nil] at hl
    rw [hnew, ← hl]
    exact own_snoc_self i s.polled request
  | log request _ hold hnew =>
    have hcalls : ∀ role, Shared.calls { s with log := s.log ++ [(i, request)] } role = s.calls role :=
      fun role => by cases role <;> rfl
    rw [hcalls, hl, hold, hnew, List.append_nil]
    exact (own_snoc_self i s.log request).symm

/-- The entries of the other threads stay as they are. -/
theorem effect_frame (h : Effect i s t s' t') {j : Nat} (hne : i ≠ j) :
    own j s'.log = own j s.log ∧ ∀ role, own j (s'.calls role) = own j (s.calls role) := by
  cases h with
  | quiet _ _ => exact ⟨rfl, fun _ => rfl⟩
  | offer request _ _ _ _ =>
    refine ⟨rfl, fun role => ?_⟩
    cases role with
    | producer => exact own_snoc_other hne s.offered request
    | consumer => rfl
  | @poll _ request rest _ _ _ _ _ =>
    refine ⟨rfl, fun role => ?_⟩
    cases role with
    | producer => rfl
    | consumer => exact own_snoc_other hne s.polled request
  | log request _ _ _ =>
    refine ⟨own_snoc_other hne s.log request, fun role => ?_⟩
    cases role <;> rfl

theorem effect_ordered (heff : Effect i s t s' t') (hi : threads[i]? = some t) (h : Ordered ⟨s, threads⟩) :
    Ordered ⟨s', threads.set i t'⟩ := by
  obtain ⟨hlt, -⟩ := List.getElem?_eq_some_iff.mp hi
  have hself : (threads.set i t')[i]? = some t' := List.getElem?_set_self hlt
  refine ⟨effect_queue heff h.queue, fun j t₁ ht₁ => ?_, fun j t₁ ht₁ => ?_, fun j hj => ?_⟩
  · by_cases hne : i = j
    · subst hne
      obtain rfl := Option.some.inj (hself.symm.trans ht₁)
      rw [effect_role heff]
      exact effect_lines heff (h.lines i t hi)
    · obtain ⟨hlog, hcalls⟩ := effect_frame heff hne
      rw [List.getElem?_set_ne hne] at ht₁
      exact (hcalls _).trans ((h.lines j t₁ ht₁).trans (by rw [← hlog]))
  · by_cases hne : i = j
    · subst hne
      obtain rfl := Option.some.inj (hself.symm.trans ht₁)
      rw [effect_role heff]
      exact (congrArg (own i) (effect_other heff)).trans (h.other i t hi)
    · rw [List.getElem?_set_ne hne] at ht₁
      exact ((effect_frame heff hne).2 _).trans (h.other j t₁ ht₁)
  · have hne : i ≠ j := by
      rintro rfl
      cases hself.symm.trans hj
    rw [List.getElem?_set_ne hne] at hj
    obtain ⟨hlog, hcalls⟩ := effect_frame heff hne
    obtain ⟨hnoLog, hnoCalls⟩ := h.nobody j hj
    exact ⟨hlog.trans hnoLog, fun role => (hcalls role).trans (hnoCalls role)⟩

end

theorem step_ordered (s : System) (e : Event) (h : Ordered s) : Ordered (step s e) := by
  cases e with
  | thread i now =>
    rcases act_cases s (advance i now) i with ⟨-, heq⟩ | ⟨t, hi, heq⟩
    · rw [step, heq]
      exact h
    · rw [step, heq]
      exact effect_ordered (advance_effect i now s.shared t) hi h
  | stop =>
    have hcalls : ∀ role, Shared.calls { s.shared with shouldStop := true } role = s.shared.calls role :=
      fun role => by cases role <;> rfl
    refine ⟨h.queue, fun i t hi => ?_, fun i t hi => ?_, fun i hi => ⟨(h.nobody i hi).1, fun role => ?_⟩⟩
    · exact (congrArg (own i) (hcalls _)).trans (h.lines i t hi)
    · exact (congrArg (own i) (hcalls _)).trans (h.other i t hi)
    · exact (congrArg (own i) (hcalls _)).trans ((h.nobody i hi).2 role)

theorem init_ordered (roles : List Role) : Ordered (init roles) := by
  have hcalls : ∀ role, (init roles).shared.calls role = [] := fun role => by cases role <;> rfl
  refine ⟨rfl, fun i t hi => ?_, fun i t _ => by rw [hcalls]; rfl, fun i _ => ⟨rfl, fun role => by rw [hcalls]; rfl⟩⟩
  obtain ⟨role, -, rfl⟩ := List.mem_map.mp (List.mem_of_getElem? hi)
  rw [hcalls]
  rfl

theorem run_ordered (roles : List Role) (events : List Event) : Ordered (run step (init roles) events) :=
  run_invariant step_ordered _ events (init_ordered roles)

/-- What one thread has offered and polled is what it has logged, and what it has in hand. -/
theorem Ordered.own_calls {s : System} (h : Ordered s) (i : Nat) :
    own i s.shared.offered ++ own i s.shared.polled =
      own i s.shared.log ++ (s.threads[i]?.map Thread.inHand).getD [] := by
  cases hi : s.threads[i]? with
  | none =>
    obtain ⟨hlog, hcalls⟩ := h.nobody i hi
    have hoffered : own i s.shared.offered = [] := hcalls .producer
    have hpolled : own i s.shared.polled = [] := hcalls .consumer
    rw [hoffered, hpolled, hlog]
    rfl
  | some t =>
    have hlines := h.lines i t hi
    have hother := h.other i t hi
    cases hrole : t.role with
    | producer =>
      rw [hrole] at hlines hother
      have hpolled : own i s.shared.polled = [] := hother
      rw [hpolled, List.append_nil]
      exact hlines
    | consumer =>
      rw [hrole] at hlines hother
      have hoffered : own i s.shared.offered = [] := hother
      rw [hoffered, List.nil_append]
      exact hlines

/-- Whatever the threads do: the polls take from the queue, in the order of the offers, what has been
offered, each request once; no thread logs anything but its own requests, in order; and when all
have ended, every request that was handed over has been logged by both sides. -/
theorem run_hands_over_in_order (roles : List Role) (events : List Event) :
    let s := run step (init roles) events
    s.shared.polled.map Prod.snd ++ s.shared.requests = s.shared.offered.map Prod.snd ∧
      (∀ i, own i s.shared.log <+: own i s.shared.offered ++ own i s.shared.polled) ∧
      ((∀ t ∈ s.threads, t.phase = .done) → s.shared.log.Perm (s.shared.offered ++ s.shared.polled)) := by
  intro s
  have hordered : Ordered s := run_ordered roles events
  refine ⟨hordered.queue, fun i => ?_, fun hdone => ?_⟩
  · rw [hordered.own_calls i]
    exact List.prefix_append _ _
  · rw [List.perm_iff_count]
    rintro ⟨i, request⟩
    have hhand : (s.threads[i]?.map Thread.inHand).getD [] = [] := by
      cases hi : s.threads[i]? with
      | none => rfl
      | some t =>
        show t.inHand = []
        rw [Thread.inHand, hdone t (List.mem_of_getElem? hi)]
    have hcalls := congrArg (List.count request) (hordered.own_calls i)
    rw [hhand, List.append_nil, List.count_append, count_own, count_own, count_own] at hcalls
    rw [List.count_append, hcalls]

/-- One producer and two consumers; one request is left over when the flag is set. -/
theorem run_hands_over_in_order_stopped :
    let s := run step (init [.producer, .consumer, .consumer])
      ([.thread 0 5, .thread 0 5, .thread 0 5, .thread 1 6, .thread 1 6, .thread 0 7, .thread 0 7, .thread 0 8,
        .thread 0 8, .stop, .thread 0 9, .thread 0 9, .thread 1 9, .thread 1 9, .thread 2 9])
    s.shared.requests = ["8"] ∧ s.shared.log.Perm (s.shared.offered ++ s.shared.polled) :=
  ⟨by decide, (run_hands_over_in_order [.producer, .consumer, .consumer] _).2.2 (by decide)⟩

end ProdCons

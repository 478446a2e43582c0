import SpringStudy.Pools

/-!
# Handing items over through a buffer

Items come in from many threads. Until the hand-over they wait in a buffer. The
hand-over empties and closes the buffer and forwards what was in it, in one
block under the monitor. A later item finds the buffer closed and is delivered
by its own thread, under the same monitor.
-/
namespace Handover

open Tables Threads Pools Runs
open scoped List

variable {α : Type}

/-- The accesses to the buffer. -/
inductive Access (α : Type) where
  | put (a : α)
  | flush
  deriving DecidableEq

structure Store (α : Type) where
  buffer : List α
  flushed : Bool
  delivered : List α
  log : List (Access α)

def Store.empty : Store α := ⟨[], false, [], []⟩

inductive Call (α : Type) where
  | put (a : α)
  | handover

/-- The blocks under the monitor. -/
inductive Body (α : Type) where
  | late (a : α)
  | handover
  deriving DecidableEq

inductive Frame (α : Type) where
  | put (a : α)
  | enter (b : Body α)
  | run (b : Body α)
  | flush
  | forward (a : α)
  | finish
  | exit
  deriving DecidableEq

def effect (st : Store α) : Frame α → Store α × List (Frame α)
  | .put a =>
    if st.flushed then ({ st with log := st.log ++ [.put a] }, [.enter (.late a)])
    else ({ st with buffer := st.buffer ++ [a], log := st.log ++ [.put a] }, [])
  | .enter b => (st, [.run b, .exit])
  | .run (.late a) => ({ st with delivered := st.delivered ++ [a] }, [])
  | .run .handover => (st, [.flush])
  | .flush => ({ st with buffer := [], flushed := true, log := st.log ++ [.flush] },
      st.buffer.map .forward ++ [.finish])
  | .forward a => ({ st with delivered := st.delivered ++ [a] }, [])
  | .finish => (st, [])
  | .exit => (st, [])

def program : Program (Store α) (Frame α) (Call α) where
  entry
    | .put a => .put a
    | .handover => .enter .handover
  effect := effect
  waits
    | .enter _ => true
    | _ => false
  exit := .exit

/-- The items put, in the order of the accesses. -/
def puts (log : List (Access α)) : List α :=
  log.filterMap fun
    | .put a => some a
    | .flush => none

/-- The items of the calls in a run. -/
def items (events : List (Event (Call α))) : List α :=
  events.filterMap fun
    | .start (.put a) => some a
    | _ => none

@[simp] theorem puts_append (l₁ l₂ : List (Access α)) : puts (l₁ ++ l₂) = puts l₁ ++ puts l₂ :=
  List.filterMap_append
@[simp] theorem puts_put (a : α) (log : List (Access α)) : puts (.put a :: log) = a :: puts log := rfl
@[simp] theorem puts_flush (log : List (Access α)) : puts (.flush :: log) = puts log := rfl
@[simp] theorem puts_nil : puts ([] : List (Access α)) = [] := rfl

/-! ## What is on the stacks -/

/-- The rest of a hand-over that has flushed. -/
def forwarding (as : List α) : List (Frame α) := as.map .forward ++ [.finish, .exit]

/-- A thread does one thing after the other; only a hand-over has several items to forward. -/
def Shape : List (Frame α) → Prop
  | [] => True
  | .put _ :: rest => rest = []
  | .enter _ :: rest => rest = []
  | .run _ :: rest => rest = [.exit]
  | .flush :: rest => rest = [.exit]
  | .forward _ :: rest => ∃ as, rest = forwarding as
  | .finish :: rest => rest = [.exit]
  | .exit :: rest => rest = []

/-- Items that their threads have not put yet. -/
def waiting : Frame α → List α
  | .put a => [a]
  | _ => []

/-- Items that came after the hand-over and are not delivered yet. -/
def late : Frame α → List α
  | .enter (.late a) => [a]
  | .run (.late a) => [a]
  | _ => []

/-- Items that the hand-over has still to forward. -/
def owed : Frame α → List α
  | .forward a => [a]
  | _ => []

/-- Hand-overs that have not flushed yet. -/
def handing : Frame α → List Unit
  | .enter .handover => [()]
  | .run .handover => [()]
  | .flush => [()]
  | _ => []

theorem shape_forwarding (as : List α) : Shape (forwarding as) := by
  cases as with
  | nil => rfl
  | cons a as => exact ⟨as, rfl⟩

theorem effect_shape (st : Store α) (f : Frame α) (rest : List (Frame α)) (h : Shape (f :: rest)) :
    Shape ((effect st f).2 ++ rest) := by
  cases f with
  | put a =>
    obtain rfl : rest = [] := h
    simp only [effect]
    split
    · rfl
    · trivial
  | enter b =>
    obtain rfl : rest = [] := h
    rfl
  | run b =>
    obtain rfl : rest = [.exit] := h
    cases b <;> rfl
  | flush =>
    obtain rfl : rest = [.exit] := h
    simp only [effect, List.append_assoc]
    exact shape_forwarding st.buffer
  | forward a =>
    obtain ⟨as, rfl⟩ := h
    exact shape_forwarding as
  | finish =>
    obtain rfl : rest = [.exit] := h
    rfl
  | exit =>
    obtain rfl : rest = [] := h
    trivial

/-- Only inside the monitor there is something to forward. -/
theorem owed_of_shape (stack : List (Frame α)) (h : Shape stack) (hexit : .exit ∉ stack) :
    stack.flatMap owed = [] := by
  cases stack with
  | nil => rfl
  | cons f rest =>
    cases f with
    | forward a =>
      obtain ⟨as, rfl⟩ := h
      simp [forwarding] at hexit
    | put a =>
      obtain rfl : rest = [] := h
      rfl
    | enter b =>
      obtain rfl : rest = [] := h
      rfl
    | run b =>
      obtain rfl : rest = [.exit] := h
      rfl
    | flush =>
      obtain rfl : rest = [.exit] := h
      rfl
    | finish =>
      obtain rfl : rest = [.exit] := h
      rfl
    | exit =>
      obtain rfl : rest = [] := h
      rfl

theorem flatMap_forwarding (as : List α) :
    (forwarding as).flatMap owed = as ∧ (forwarding as).flatMap late = [] ∧
      (forwarding as).flatMap waiting = [] ∧ (forwarding as).flatMap handing = [] := by
  induction as with
  | nil => exact ⟨rfl, rfl, rfl, rfl⟩
  | cons a as ih =>
    obtain ⟨ho, hl, hw, hh⟩ := ih
    have hcons : forwarding (a :: as) = .forward a :: forwarding as := rfl
    simp only [hcons, List.flatMap_cons, ho, hl, hw, hh]
    exact ⟨rfl, rfl, rfl, rfl⟩

/-! ## The two phases -/

/-- Before the hand-over everything put is in the buffer. After it the buffer is
closed; what it held is delivered or being forwarded, and nothing that came
later is delivered before that is done. -/
inductive Phase (w : Pool (Store α) (Frame α)) : Prop where
  | filling (hflag : w.store.flushed = false) (hlog : .flush ∉ w.store.log)
      (hbuffer : w.store.buffer = puts w.store.log) (hdelivered : w.store.delivered = [])
      (hlate : gather late w.threads = []) (howed : gather owed w.threads = [])
  | closed (before after : List (Access α)) (lates : List α) (hflag : w.store.flushed = true)
      (hbuffer : w.store.buffer = []) (hlog : w.store.log = before ++ .flush :: after)
      (hfirst : .flush ∉ before)
      (hdelivered : w.store.delivered ++ gather owed w.threads = puts before ++ lates)
      (horder : gather owed w.threads ≠ [] → lates = [])
      (hlate : (lates ++ gather late w.threads).Perm (puts after))

theorem Phase.congr {w w' : Pool (Store α) (Frame α)} (h : Phase w) (hstore : w'.store = w.store)
    (howed : gather owed w'.threads = gather owed w.threads)
    (hlate : (gather late w'.threads).Perm (gather late w.threads)) : Phase w' := by
  cases h with
  | filling hflag hlog hbuffer hdelivered hl ho =>
    rw [← hstore] at hflag hlog hbuffer hdelivered
    rw [hl] at hlate
    exact .filling hflag hlog hbuffer hdelivered hlate.eq_nil (howed.trans ho)
  | closed before after lates hflag hbuffer hlog hfirst hdelivered horder hl =>
    rw [← hstore] at hflag hlog hbuffer hdelivered
    rw [← howed] at hdelivered horder
    exact .closed before after lates hflag hbuffer hlog hfirst hdelivered horder
      ((hlate.append_left lates).trans hl)

variable [DecidableEq α]

structure Inv (w : Pool (Store α) (Frame α)) (events : List (Event (Call α))) : Prop where
  fresh : Fresh w
  shape : ∀ t, Shape (stackOf w.threads t)
  exclusive : Exclusive w.threads .exit
  phase : Phase w
  counted : (puts w.store.log ++ gather waiting w.threads).Perm (items events)
  handed : .start .handover ∈ events → .flush ∈ w.store.log ∨ gather handing w.threads ≠ []

section
variable {w : Pool (Store α) (Frame α)} {t : Tid} {f : Frame α} {rest : List (Frame α)} {β : Type}

omit [DecidableEq α] in
theorem others_owed (hshape : ∀ t, Shape (stackOf w.threads t)) (hex : Exclusive w.threads .exit)
    (hexit : .exit ∈ stackOf w.threads t) : others owed w.threads t = [] := by
  refine others_eq_nil fun t' hne => owed_of_shape _ (hshape t') fun hin => hne ?_
  exact hex t' t hin hexit

theorem gather_before (g : Frame α → List β) (hgo : Goes program w t f rest) :
    (gather g w.threads).Perm ((f :: rest).flatMap g ++ others g w.threads t) :=
  hgo.top ▸ gather_perm g w.threads t

theorem others_before {g : Frame α → List β} (hgo : Goes program w t f rest)
    (h : (f :: rest).flatMap g = []) : others g w.threads t = gather g w.threads :=
  others_of_nil (hgo.top ▸ h)

omit [DecidableEq α] in
theorem gather_after (g : Frame α → List β) (w : Pool (Store α) (Frame α)) (t : Tid) (f : Frame α)
    (rest : List (Frame α)) : gather g (after program w t f rest).threads =
      ((effect w.store f).2 ++ rest).flatMap g ++ others g w.threads t := rfl

/-- Frames that `g` does not see come and go unseen. -/
theorem gather_unseen {g : Frame α → List β} (hgo : Goes program w t f rest)
    (hold : (f :: rest).flatMap g = []) (hnew : ((effect w.store f).2 ++ rest).flatMap g = []) :
    gather g (after program w t f rest).threads = gather g w.threads := by
  rw [gather_after, hnew, others_before hgo hold, List.nil_append]

/-- A frame that leaves the store alone, and leaves as much to do as there was. -/
theorem phase_still (hgo : Goes program w t f rest) (h : Phase w) (hstore : (effect w.store f).1 = w.store)
    (hold : (f :: rest).flatMap owed = []) (hnew : ((effect w.store f).2 ++ rest).flatMap owed = [])
    (hlate : ((effect w.store f).2 ++ rest).flatMap late = (f :: rest).flatMap late) :
    Phase (after program w t f rest) := by
  refine h.congr hstore (gather_unseen hgo hold hnew) ?_
  rw [gather_after, hlate]
  exact (gather_before late hgo).symm

theorem phase_put {a : α} (hgo : Goes program w t (.put a) []) (h : Phase w) :
    Phase (after program w t (.put a) []) := by
  have hlate := others_before (g := late) hgo rfl
  have howed := others_before (g := owed) hgo rfl
  cases h with
  | filling hflag hlog hbuffer hdelivered hl ho =>
    have heffect : effect w.store (.put a) =
        ({ w.store with buffer := w.store.buffer ++ [a], log := w.store.log ++ [.put a] }, []) := by
      simp [effect, hflag]
    have hstore : (after program w t (.put a) []).store = _ := congrArg Prod.fst heffect
    refine .filling ?_ ?_ ?_ ?_ ?_ ?_
    · rw [hstore]
      exact hflag
    · rw [hstore]
      simpa using hlog
    · rw [hstore]
      simp [hbuffer]
    · rw [hstore]
      exact hdelivered
    · rw [gather_after, heffect, hlate, hl]
      rfl
    · rw [gather_after, heffect, howed, ho]
      rfl
  | closed before later lates hflag hbuffer hlog hfirst hdelivered horder hl =>
    have heffect : effect w.store (.put a) =
        ({ w.store with log := w.store.log ++ [.put a] }, [.enter (.late a)]) := by
      simp [effect, hflag]
    have hstore : (after program w t (.put a) []).store = _ := congrArg Prod.fst heffect
    have howed' : gather owed (after program w t (.put a) []).threads = gather owed w.threads := by
      rw [gather_after, heffect, howed]
      rfl
    refine .closed before (later ++ [.put a]) lates ?_ ?_ ?_ hfirst ?_ ?_ ?_
    · rw [hstore]
      exact hflag
    · rw [hstore]
      exact hbuffer
    · rw [hstore]
      simp [hlog]
    · rw [hstore, howed']
      exact hdelivered
    · rw [howed']
      exact horder
    · rw [gather_after, heffect, hlate, puts_append]
      calc lates ++ ([a] ++ gather late w.threads)
        _ ~ (lates ++ gather late w.threads) ++ [a] := by
          rw [List.append_assoc]
          exact List.perm_append_comm.append_left lates
        _ ~ puts later ++ [a] := hl.append_right [a]

/-- Nothing is left to forward when another thread is in the monitor. -/
theorem phase_late {a : α} (hgo : Goes program w t (.run (.late a)) [.exit])
    (hothers : others owed w.threads t = []) (h : Phase w) :
    Phase (after program w t (.run (.late a)) [.exit]) := by
  have hperm := gather_before late hgo
  have howed : gather owed w.threads = [] := by
    rw [← others_before (g := owed) hgo rfl]
    exact hothers
  have howed' : gather owed (after program w t (.run (.late a)) [.exit]).threads = [] := by
    rw [gather_after, hothers]
    rfl
  cases h with
  | filling hflag hlog hbuffer hdelivered hl ho =>
    rw [hl] at hperm
    cases hperm.symm.eq_nil
  | closed before later lates hflag hbuffer hlog hfirst hdelivered horder hl =>
    refine .closed before later (lates ++ [a]) hflag hbuffer hlog hfirst ?_ (fun hne => absurd howed' hne) ?_
    · rw [howed, List.append_nil] at hdelivered
      rw [howed', List.append_nil, ← List.append_assoc, ← hdelivered]
      rfl
    · rw [gather_after, List.append_assoc]
      exact (hperm.symm.append_left lates).trans hl

theorem phase_flush (hgo : Goes program w t .flush [.exit]) (h : Phase w) :
    Phase (after program w t .flush [.exit]) := by
  have hlate := others_before (g := late) hgo rfl
  have howed := others_before (g := owed) hgo rfl
  have hstack : (effect w.store .flush).2 ++ [.exit] = forwarding w.store.buffer := by
    simp [effect, forwarding]
  obtain ⟨hfo, hfl, -, -⟩ := flatMap_forwarding w.store.buffer
  have hlate' : gather late (after program w t .flush [.exit]).threads = gather late w.threads := by
    rw [gather_after, hstack, hfl, hlate, List.nil_append]
  have howed' : gather owed (after program w t .flush [.exit]).threads =
      w.store.buffer ++ gather owed w.threads := by
    rw [gather_after, hstack, hfo, howed]
  cases h with
  | filling hflag hlog hbuffer hdelivered hl ho =>
    refine .closed w.store.log [] [] rfl rfl rfl hlog ?_ (fun _ => rfl) ?_
    · rw [howed', ho, hbuffer, List.append_nil]
      exact congrArg (· ++ puts w.store.log) hdelivered
    · rw [hlate', hl]
      exact .refl _
  | closed before later lates hflag hbuffer hlog hfirst hdelivered horder hl =>
    rw [hbuffer, List.nil_append] at howed'
    refine .closed before (later ++ [.flush]) lates rfl rfl ?_ hfirst ?_ ?_ ?_
    · simp [after, program, effect, hlog]
    · rw [howed']
      exact hdelivered
    · rw [howed']
      exact horder
    · rw [hlate', puts_append]
      simpa using hl

theorem phase_forward {a : α} {as : List α} (hgo : Goes program w t (.forward a) (forwarding as))
    (hothers : others owed w.threads t = []) (h : Phase w) :
    Phase (after program w t (.forward a) (forwarding as)) := by
  obtain ⟨hfo, hfl, -, -⟩ := flatMap_forwarding as
  have howed : gather owed w.threads = a :: as := by
    rw [gather_of_others_nil hothers, hgo.top, List.flatMap_cons, hfo]
    rfl
  have howed' : gather owed (after program w t (.forward a) (forwarding as)).threads = as := by
    rw [gather_after, hothers, List.append_nil]
    exact hfo
  have hlate' := gather_unseen (g := late) hgo (by rw [List.flatMap_cons, hfl]; rfl) hfl
  cases h with
  | filling hflag hlog hbuffer hdelivered hl ho =>
    rw [howed] at ho
    cases ho
  | closed before later lates hflag hbuffer hlog hfirst hdelivered horder hl =>
    have hnone : lates = [] := horder (by rw [howed]; exact List.cons_ne_nil a as)
    refine .closed before later lates hflag hbuffer hlog hfirst ?_ (fun _ => hnone) ?_
    · rw [howed']
      rw [howed] at hdelivered
      rw [← hdelivered]
      simp [after, program, effect]
    · rw [hlate']
      exact hl

theorem phase_after (hgo : Goes program w t f rest) (hshape : ∀ t, Shape (stackOf w.threads t))
    (hex : Exclusive w.threads .exit) (h : Phase w) : Phase (after program w t f rest) := by
  have hs : Shape (f :: rest) := hgo.top ▸ hshape t
  have hothers : .exit ∈ rest → others owed w.threads t = [] := fun hin =>
    others_owed hshape hex (by rw [hgo.top]; exact List.mem_cons_of_mem _ hin)
  cases f with
  | put a =>
    obtain rfl : rest = [] := hs
    exact phase_put hgo h
  | enter b =>
    obtain rfl : rest = [] := hs
    cases b <;> exact phase_still hgo h rfl rfl rfl rfl
  | run b =>
    obtain rfl : rest = [.exit] := hs
    cases b with
    | late a => exact phase_late hgo (hothers List.mem_cons_self) h
    | handover => exact phase_still hgo h rfl rfl rfl rfl
  | flush =>
    obtain rfl : rest = [.exit] := hs
    exact phase_flush hgo h
  | forward a =>
    obtain ⟨as, rfl⟩ := hs
    exact phase_forward hgo (hothers (by simp [forwarding])) h
  | finish =>
    obtain rfl : rest = [.exit] := hs
    exact phase_still hgo h rfl rfl rfl rfl
  | exit =>
    obtain rfl : rest = [] := hs
    exact phase_still hgo h rfl rfl rfl rfl

theorem exclusive_after (hgo : Goes program w t f rest) (h : Exclusive w.threads .exit) :
    Exclusive (after program w t f rest).threads .exit := by
  refine exclusive_setStack h t _ fun hin => ?_
  rcases List.mem_append.mp hin with hin | hin
  · cases f with
    | enter b => exact .inr (hgo.free rfl)
    | put a =>
      simp only [program, effect] at hin
      split at hin <;> simp at hin
    | run b => cases b <;> simp [program, effect] at hin
    | flush => simp [program, effect] at hin
    | forward a => simp [program, effect] at hin
    | finish => simp [program, effect] at hin
    | exit => simp [program, effect] at hin
  · exact .inl (by rw [hgo.top]; exact List.mem_cons_of_mem _ hin)

/-- An item is put, or is still to be put. -/
theorem counted_after (hgo : Goes program w t f rest) (hs : Shape (f :: rest)) :
    (puts (after program w t f rest).store.log ++ gather waiting (after program w t f rest).threads).Perm
      (puts w.store.log ++ gather waiting w.threads) := by
  have hstill : puts (effect w.store f).1.log = puts w.store.log → (f :: rest).flatMap waiting = [] →
      ((effect w.store f).2 ++ rest).flatMap waiting = [] →
      (puts (after program w t f rest).store.log ++ gather waiting (after program w t f rest).threads).Perm
        (puts w.store.log ++ gather waiting w.threads) := by
    intro hlog hold hnew
    rw [gather_unseen hgo hold hnew]
    exact .of_eq (congrArg (· ++ _) hlog)
  cases f with
  | put a =>
    obtain rfl : rest = [] := hs
    have hlog : (after program w t (.put a) []).store.log = w.store.log ++ [.put a] := by
      simp only [after, program, effect]
      split <;> rfl
    have hnew : ((effect w.store (.put a)).2 ++ []).flatMap waiting = [] := by
      simp only [effect]
      split <;> rfl
    rw [hlog, gather_after, hnew, puts_append, List.nil_append, List.append_assoc]
    exact ((gather_before waiting hgo).symm.append_left _)
  | enter b =>
    obtain rfl : rest = [] := hs
    exact hstill rfl rfl rfl
  | run b =>
    obtain rfl : rest = [.exit] := hs
    cases b <;> exact hstill rfl rfl rfl
  | flush =>
    obtain rfl : rest = [.exit] := hs
    refine hstill (by simp [effect]) rfl ?_
    rw [show (effect w.store .flush).2 ++ [.exit] = forwarding w.store.buffer from by
      simp [effect, forwarding]]
    exact (flatMap_forwarding w.store.buffer).2.2.1
  | forward a =>
    obtain ⟨as, rfl⟩ := hs
    have hnone := (flatMap_forwarding as).2.2.1
    exact hstill rfl (by rw [List.flatMap_cons, hnone]; rfl) hnone
  | finish =>
    obtain rfl : rest = [.exit] := hs
    exact hstill rfl rfl rfl
  | exit =>
    obtain rfl : rest = [] := hs
    exact hstill rfl rfl rfl

/-- A hand-over has flushed, or is still to flush. -/
theorem handed_after (hgo : Goes program w t f rest) (hs : Shape (f :: rest))
    (h : .flush ∈ w.store.log ∨ gather handing w.threads ≠ []) :
    .flush ∈ (after program w t f rest).store.log ∨
      gather handing (after program w t f rest).threads ≠ [] := by
  have hstill : (∀ x ∈ w.store.log, x ∈ (effect w.store f).1.log) → (f :: rest).flatMap handing = [] →
      ((effect w.store f).2 ++ rest).flatMap handing = [] →
      .flush ∈ (after program w t f rest).store.log ∨
        gather handing (after program w t f rest).threads ≠ [] := by
    intro hlog hold hnew
    rw [gather_unseen hgo hold hnew]
    exact h.imp_left (hlog _)
  cases f with
  | put a =>
    obtain rfl : rest = [] := hs
    refine hstill ?_ rfl ?_ <;> simp only [effect] <;> split
    · exact fun x hx => List.mem_append_left _ hx
    · exact fun x hx => List.mem_append_left _ hx
    · rfl
    · rfl
  | enter b =>
    obtain rfl : rest = [] := hs
    cases b with
    | late a => exact hstill (fun _ hx => hx) rfl rfl
    | handover =>
      refine .inr ?_
      rw [gather_after]
      exact List.cons_ne_nil _ _
  | run b =>
    obtain rfl : rest = [.exit] := hs
    cases b with
    | late a => exact hstill (fun _ hx => hx) rfl rfl
    | handover =>
      refine .inr ?_
      rw [gather_after]
      exact List.cons_ne_nil _ _
  | flush => exact .inl (List.mem_append_right _ List.mem_cons_self)
  | forward a =>
    obtain ⟨as, rfl⟩ := hs
    have hnone := (flatMap_forwarding as).2.2.2
    exact hstill (fun _ hx => hx) (by rw [List.flatMap_cons, hnone]; rfl) hnone
  | finish =>
    obtain rfl : rest = [.exit] := hs
    exact hstill (fun _ hx => hx) rfl rfl
  | exit =>
    obtain rfl : rest = [] := hs
    exact hstill (fun _ hx => hx) rfl rfl

end

/-! ## Whole runs -/

theorem inv_start {w : Pool (Store α) (Frame α)} {events : List (Event (Call α))} (h : Inv w events)
    (call : Call α) : Inv (step program w (.start call)) (events ++ [.start call]) := by
  have hidle : stackOf w.threads w.calls = [] := h.fresh w.calls (Nat.le_refl _)
  have hgather : ∀ {β : Type} (g : Frame α → List β),
      gather g (step program w (.start call)).threads = g (program.entry call) ++ gather g w.threads := by
    intro β g
    change gather g (setStack w.threads w.calls [program.entry call]) = _
    rw [gather_setStack, others_of_nil (by rw [hidle]; rfl)]
    simp
  have hshape : Shape [program.entry call] := by cases call <;> rfl
  refine ⟨step_fresh w _ h.fresh, fun t => ?_, ?_, ?_, ?_, ?_⟩
  · simp only [step, stackOf_setStack]
    split
    · exact hshape
    · exact h.shape t
  · refine exclusive_setStack h.exclusive _ _ fun hin => ?_
    cases call <;> simp [program] at hin
  · refine h.phase.congr rfl ?_ ?_ <;> rw [hgather] <;> cases call
    · rfl
    · rfl
    · exact .refl _
    · exact .refl _
  · rw [hgather]
    cases call with
    | put a =>
      simp only [items, List.filterMap_append]
      calc puts w.store.log ++ ([a] ++ gather waiting w.threads)
        _ ~ (puts w.store.log ++ gather waiting w.threads) ++ [a] := by
          rw [List.append_assoc]
          exact List.perm_append_comm.append_left _
        _ ~ items events ++ [a] := h.counted.append_right [a]
    | handover =>
      have hitems : items (events ++ [.start .handover]) = items events := by simp [items]
      rw [hitems]
      exact h.counted
  · intro hin
    rw [hgather]
    cases call with
    | put a =>
      have hold : .start .handover ∈ events := by simpa using hin
      exact h.handed hold
    | handover => exact .inr (List.cons_ne_nil _ _)

theorem inv_advance {w : Pool (Store α) (Frame α)} {events : List (Event (Call α))} (h : Inv w events)
    (t : Tid) : Inv (step program w (.advance t)) (events ++ [.advance t]) := by
  have hitems : items (events ++ [.advance t]) = items events := by simp [items]
  have hmem : .start .handover ∈ events ++ [Event.advance t] → .start .handover ∈ events := by simp
  change Inv (advance program w t) _
  rcases advance_cases program w t with heq | ⟨f, rest, hgo, heq⟩
  · rw [heq]
    exact ⟨h.fresh, h.shape, h.exclusive, h.phase, hitems ▸ h.counted, fun hin => h.handed (hmem hin)⟩
  · have hs : Shape (f :: rest) := hgo.top ▸ h.shape t
    have hfresh : Fresh (advance program w t) := step_fresh w (.advance t) h.fresh
    rw [heq] at hfresh ⊢
    refine ⟨hfresh, fun t' => ?_, exclusive_after hgo h.exclusive,
      phase_after hgo h.shape h.exclusive h.phase, ?_, fun hin => handed_after hgo hs (h.handed (hmem hin))⟩
    · simp only [after, stackOf_setStack]
      split
      · exact effect_shape w.store f rest hs
      · exact h.shape t'
    · rw [hitems]
      exact (counted_after hgo hs).trans h.counted

theorem run_inv (events : List (Event (Call α))) :
    Inv (run (step program) (init Store.empty) events) events := by
  induction events using List.reverseRecOn with
  | nil =>
    refine ⟨fun _ _ => rfl, fun _ => trivial, fun t t' hin => ?_, ?_, .refl _, fun hin => ?_⟩
    · cases hin
    · exact .filling rfl (List.not_mem_nil) rfl rfl rfl rfl
    · cases hin
  | append_singleton events e ih =>
    rw [run_append]
    cases e with
    | start call => exact inv_start ih call
    | advance t => exact inv_advance ih t

/-- When all calls have finished, and one of them was a hand-over, every item has
been delivered once: first those put before the flush, in their order. -/
theorem delivered_of_idle (events : List (Event (Call α)))
    (hidle : Idle (run (step program) (init Store.empty) events)) (hstart : .start .handover ∈ events) :
    ∃ before after lates, (run (step program) (init Store.empty) events).store.log =
        before ++ .flush :: after ∧ .flush ∉ before ∧
      (run (step program) (init Store.empty) events).store.delivered = puts before ++ lates ∧
      lates.Perm (puts after) ∧ (puts before ++ puts after).Perm (items events) := by
  have h := run_inv events
  generalize run (step program) (init Store.empty) events = w at hidle h
  have hnone : ∀ {β : Type} (g : Frame α → List β), gather g w.threads = [] := fun g =>
    gather_eq_nil fun t => by rw [hidle t]; rfl
  have hcounted := h.counted
  rw [hnone, List.append_nil] at hcounted
  cases h.phase with
  | filling hflag hlog hbuffer hdelivered hl ho =>
    rcases h.handed hstart with hin | hne
    · exact absurd hin hlog
    · exact absurd (hnone handing) hne
  | closed before later lates hflag hbuffer hlog hfirst hdelivered horder hl =>
    rw [hnone, List.append_nil] at hdelivered hl
    rw [hlog, puts_append, puts_flush] at hcounted
    exact ⟨before, later, lates, hlog, hfirst, hdelivered, hl, hcounted⟩

/-! ## Every call can finish -/

/-- A bound on the steps a frame still takes. -/
def weight : Frame α → Nat
  | .put _ => 4
  | .enter (.late _) => 3
  | .enter .handover => 5
  | .run (.late _) => 1
  | .run .handover => 3
  | .flush => 2
  | .forward _ => 1
  | .finish => 1
  | .exit => 1

def work (f : Frame α) : List Unit := List.replicate (weight f) ()

/-- What is in the buffer is forwarded some time. -/
def measure (w : Pool (Store α) (Frame α)) : Nat := (gather work w.threads).length + w.store.buffer.length

omit [DecidableEq α] in
theorem length_work_forward (as : List α) : ((as.map Frame.forward).flatMap work).length = as.length := by
  induction as with
  | nil => rfl
  | cons a as ih =>
    rw [List.map_cons, List.flatMap_cons, List.length_append, ih, List.length_cons]
    exact Nat.add_comm _ _

omit [DecidableEq α] in
theorem effect_work (st : Store α) (f : Frame α) :
    ((effect st f).2.flatMap work).length + (effect st f).1.buffer.length <
      weight f + st.buffer.length := by
  cases f with
  | put a =>
    simp only [effect]
    split <;> simp [work, weight]
    omega
  | enter b => cases b <;> simp [effect, work, weight]
  | run b => cases b <;> simp [effect, work, weight]
  | flush =>
    simp only [effect, List.flatMap_append, List.length_append, length_work_forward]
    simp [work, weight]
    omega
  | forward a => simp [effect, weight]
  | finish => simp [effect, weight]
  | exit => simp [effect, weight]

theorem measure_after {w : Pool (Store α) (Frame α)} {t : Tid} {f : Frame α} {rest : List (Frame α)}
    (hgo : Goes program w t f rest) : measure (after program w t f rest) < measure w := by
  have hbefore := (gather_before work hgo).length_eq
  have hafter := congrArg List.length (gather_after work w t f rest)
  simp only [List.flatMap_append, List.flatMap_cons, List.length_append] at hbefore hafter
  have hlen : (work f).length = weight f := List.length_replicate
  have heffect := effect_work w.store f
  have hbuffer : (after program w t f rest).store.buffer = (effect w.store f).1.buffer := rfl
  unfold measure
  rw [hbuffer]
  omega

/-- The thread in the monitor waits for nothing, so some thread can always go on. -/
theorem exists_goes {w : Pool (Store α) (Frame α)} (hshape : ∀ t, Shape (stackOf w.threads t))
    (hbusy : ¬ Idle w) : ∃ t f rest, Goes program w t f rest := by
  obtain ⟨t, hne⟩ := not_forall.mp hbusy
  obtain ⟨f, rest, hs⟩ := List.exists_cons_of_ne_nil hne
  cases hheld : held program w t with
  | false => exact ⟨t, f, rest, hs, fun _ => hheld⟩
  | true =>
    obtain ⟨t', -, hexit⟩ := (held_iff program w t).mp hheld
    obtain ⟨f', rest', hs'⟩ := List.exists_cons_of_ne_nil (List.ne_nil_of_mem hexit)
    refine ⟨t', f', rest', hs', fun hwaits => ?_⟩
    have hshape' := hshape t'
    rw [hs'] at hshape' hexit
    cases f' with
    | enter b =>
      obtain rfl : rest' = [] := hshape'
      simp [program] at hexit
    | _ => cases hwaits

/-- However far the calls have come, they can all be brought to their end. -/
theorem exists_idle {w : Pool (Store α) (Frame α)} {events : List (Event (Call α))} (h : Inv w events) :
    ∃ ts : List Tid, Idle (run (step program) w (ts.map .advance)) := by
  induction hn : measure w using Nat.strong_induction_on generalizing w events with
  | _ n ih =>
    by_cases hidle : Idle w
    · exact ⟨[], hidle⟩
    · obtain ⟨t, f, rest, hgo⟩ := exists_goes h.shape hidle
      have hnext : Inv (advance program w t) _ := inv_advance h t
      have hlt : measure (advance program w t) < n := by
        rw [hgo.advance_eq, ← hn]
        exact measure_after hgo
      obtain ⟨ts, hts⟩ := ih _ hlt hnext rfl
      exact ⟨t :: ts, hts⟩

end Handover

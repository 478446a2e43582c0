import SpringStudy.SharedCells

/-!
# Posting rooms

`ChatController.save` reads the list of all rooms from Redis, adds the posted
room and writes the list back. Nothing keeps two requests apart.
-/
namespace RoomPosts

open SharedCells Runs

structure Room where
  title : Option String
  roomId : Option String
  password : Option String
  deriving DecidableEq, Repr

/-- What `save` writes after it has read `rooms`, which is null before the first room. -/
def save (room : Room) (rooms : Option (List Room)) : Option (List Room) :=
  match rooms with
  | none => some [room]
  | some rooms => some (rooms ++ [room])

/-- The rooms under the key; a missing key has none. -/
def stored (rooms : Option (List Room)) : List Room := rooms.getD []

theorem stored_save (room : Room) (rooms : Option (List Room)) :
    stored (save room rooms) = stored rooms ++ [room] := by
  cases rooms <;> rfl

theorem stored_length_save (room : Room) (rooms : Option (List Room)) :
    (stored (save room rooms)).length = (stored rooms).length + 1 := by
  rw [stored_save, List.length_append, List.length_singleton]

theorem stored_foldl_save (rooms : List Room) (before : Option (List Room)) :
    stored (rooms.foldl (fun x room => save room x) before) = stored before ++ rooms := by
  induction rooms generalizing before with
  | nil => simp
  | cons room rooms ih => rw [List.foldl_cons, ih, stored_save, List.append_assoc, List.singleton_append]

/-- The requests for `posted` after the steps of a schedule. -/
def after (before : Option (List Room)) (posted : List Room) (schedule : List Nat) :
    State (Option (List Room)) Room :=
  run (step save) (init before posted) schedule

/-- When all requests have completed, every posted room is stored once, beside those
from before, exactly if every request wrote while the list was the one it had read. -/
theorem stored_perm_iff_current (before : Option (List Room)) (posted : List Room) (schedule : List Nat)
    (hdone : Completed (after before posted schedule)) :
    (stored (after before posted schedule).cell).Perm (stored before ++ posted) ↔
      Along (step save) Current (init before posted) schedule := by
  have hwritten : (after before posted schedule).written.Perm posted :=
    written_perm (run_accounted before posted schedule) hdone
  constructor
  · intro hperm
    rw [← run_complete_iff (fun x => (stored x).length) stored_length_save before posted schedule]
    have hlen := hperm.length_eq
    rw [List.length_append, ← hwritten.length_eq] at hlen
    exact hlen
  · intro hcurrent
    have hcell : (after before posted schedule).cell =
        (after before posted schedule).written.foldl (fun x room => save room x) before :=
      run_serial before posted schedule hcurrent
    rw [hcell, stored_foldl_save]
    exact hwritten.append_left (stored before)

def lobby : Room := ⟨some "lobby", some "r1", none⟩

def study : Room := ⟨some "study", some "r2", some "secret"⟩

theorem stored_perm_one_after_the_other :
    Completed (after none [lobby, study] [0, 0, 1, 1]) ∧
    ((stored (after none [lobby, study] [0, 0, 1, 1]).cell).Perm (stored none ++ [lobby, study]) ↔
      Along (step save) Current (init none [lobby, study]) [0, 0, 1, 1]) := by
  have hdone : Completed (after none [lobby, study] [0, 0, 1, 1]) := by
    unfold Completed
    decide +kernel
  exact ⟨hdone, stored_perm_iff_current none [lobby, study] [0, 0, 1, 1] hdone⟩

/-- Both requests read before either writes, and the first room is lost. -/
theorem both_read_first_room_lost :
    Completed (after none [lobby, study] [0, 1, 0, 1]) ∧
    ¬ (stored (after none [lobby, study] [0, 1, 0, 1]).cell).Perm (stored none ++ [lobby, study]) := by
  have hdone : Completed (after none [lobby, study] [0, 1, 0, 1]) := by
    unfold Completed
    decide +kernel
  have hcell : stored (after none [lobby, study] [0, 1, 0, 1]).cell = [study] := by decide +kernel
  refine ⟨hdone, ?_⟩
  rw [hcell]
  intro hperm
  have hlen := hperm.length_eq
  simp [stored] at hlen

end RoomPosts

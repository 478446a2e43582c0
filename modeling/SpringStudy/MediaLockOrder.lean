import SpringStudy.MediaThreads
import SpringStudy.Runs

/-!
# Lock order

`MonitorManger.joinRoom`, `leaveRoom` and `leaveAllRoom` take the monitor of
`MonitorManger` and then that of a room. A thread that closes a room from
outside, such as the task of the room's TTL, takes them the other way round.
-/
namespace MediaLockOrder

open Tables Threads MediaRoom
open MediaRoomManager hiding Event step
open MediaThreads

/-- The stack of a thread that is inside `MonitorManger` and waits for the monitor of room `r`. -/
def waits (r : RoomRef) : List Frame → Bool
  | .enter b :: rest => decide (b.lock = .room r) && decide (.exit .monitorManger ∈ rest)
  | _ => false

/-- The stack of a thread that releases room `r` from outside `MonitorManger` and
has not yet come to `endRoomProcess`. -/
def closes (r : RoomRef) : List Frame → Bool
  | .deleteRoomCallBack r' :: rest =>
    decide (r' = r) && decide (.exit (.room r) ∈ rest) && decide (.exit .monitorManger ∉ rest)
  | .enter (.endRoomProcess _) :: rest =>
    decide (.exit (.room r) ∈ rest) && decide (.exit .monitorManger ∉ rest)
  | _ => false

/-- Two threads each hold one of the monitors and wait for the other. -/
def Deadlocked (s : System) : Prop :=
  ∃ t₁ t₂ r b₁ b₂ rest₁ rest₂, t₁ ≠ t₂ ∧
    stackOf s.threads t₁ = .enter b₁ :: rest₁ ∧ b₁.lock = .room r ∧ .exit .monitorManger ∈ rest₁ ∧
    stackOf s.threads t₂ = .enter b₂ :: rest₂ ∧ b₂.lock = .monitorManger ∧ .exit (.room r) ∈ rest₂

/-- A thread inside `MonitorManger` looks up no room that another thread is
closing from outside, and a thread outside begins to release no room that a
thread inside waits for. -/
def KeepsOrder (s : System) : Event → Prop
  | .start _ _ => True
  | .advance t =>
    match stackOf s.threads t with
    | .handleRoom roomId _ :: rest => .exit .monitorManger ∈ rest →
        ∀ r ∈ s.stores.rooms.roomIdRooms.lookup roomId, hasOther s.threads t (closes r) = false
    | .run (.method r .release) :: rest => .exit .monitorManger ∉ rest →
        hasOther s.threads t (waits r) = false
    | _ => True

instance (s : System) (e : Event) : Decidable (KeepsOrder s e) := by
  unfold KeepsOrder
  split
  · infer_instance
  · split <;> infer_instance

theorem waits_iff (r : RoomRef) (stack : List Frame) :
    waits r stack = true ↔
      ∃ b rest, stack = .enter b :: rest ∧ b.lock = .room r ∧ .exit .monitorManger ∈ rest := by
  unfold waits
  split
  · simp
  · rename_i hno
    simp only [Bool.false_eq_true, false_iff]
    intro h
    obtain ⟨b, rest, rfl, -⟩ := h
    exact hno b rest rfl

theorem closes_iff (r : RoomRef) (stack : List Frame) :
    closes r stack = true ↔ ∃ g rest, stack = g :: rest ∧
      (g = .deleteRoomCallBack r ∨ ∃ roomId, g = .enter (.endRoomProcess roomId)) ∧
      .exit (.room r) ∈ rest ∧ .exit .monitorManger ∉ rest := by
  unfold closes
  split
  · simp [and_assoc]
  · simp
  · rename_i hdelete hend
    simp only [Bool.false_eq_true, false_iff]
    intro h
    obtain ⟨g, rest, rfl, rfl | ⟨roomId, rfl⟩, -⟩ := h
    · exact hdelete r rest rfl
    · exact hend roomId rest rfl

/-- No thread waits inside `MonitorManger` for a room that another closes from outside. -/
structure Ordered (s : System) : Prop where
  sound : Sound s
  apart : ∀ t t' r, t ≠ t' → waits r (stackOf s.threads t) = true →
    closes r (stackOf s.threads t') = false

/-- A thread inside a room enters `MonitorManger` only to end the room. -/
theorem enters_to_endRoomProcess {b : Body} {r : RoomRef} {rest : List Frame}
    (hlayer : Layered Fits (.enter b :: rest)) (hlock : b.lock = .monitorManger)
    (hin : .exit (.room r) ∈ rest) : ∃ roomId, b = .endRoomProcess roomId := by
  have hunder : Under rest (.enter b) := hlayer.1.2
  have hroom : ¬ NoRoom rest := by
    intro hno
    cases hno _ hin
  cases b with
  | joinRoom userId roomId => exact absurd hunder hroom
  | leaveRoom userId roomId => exact absurd hunder hroom
  | leaveAllRoom userId => exact absurd hunder hroom
  | endRoomProcess roomId => exact ⟨roomId, rfl⟩
  | block r' op => cases hlock
  | method r' op => cases hlock

/-- In an ordered state nobody waits in a circle. -/
theorem ordered_not_deadlocked (s : System) (h : Ordered s) : ¬ Deadlocked s := by
  rintro ⟨t₁, t₂, r, b₁, b₂, rest₁, rest₂, hne, h₁, hl₁, hin₁, h₂, hl₂, hin₂⟩
  have hwaits : waits r (stackOf s.threads t₁) = true := (waits_iff r _).mpr ⟨b₁, rest₁, h₁, hl₁, hin₁⟩
  have hlayer : Layered Fits (.enter b₂ :: rest₂) := by
    rw [← h₂]
    exact h.sound.layered t₂
  obtain ⟨roomId, rfl⟩ := enters_to_endRoomProcess hlayer hl₂ hin₂
  -- `t₁` has the monitor of `MonitorManger`, so `t₂` closes the room from outside
  have hout : .exit .monitorManger ∉ rest₂ := by
    intro hin
    apply hne
    apply h.sound.exclusive .monitorManger t₁ t₂
    · rw [h₁]; exact List.mem_cons_of_mem _ hin₁
    · rw [h₂]; exact List.mem_cons_of_mem _ hin
  have hcloses : closes r (stackOf s.threads t₂) = true :=
    (closes_iff r _).mpr ⟨_, rest₂, h₂, .inr ⟨roomId, rfl⟩, hin₂, hout⟩
  rw [h.apart t₁ t₂ r hne hwaits] at hcloses
  cases hcloses

section
variable {st : Stores} {f g : Frame} {rest rest' : List Frame}

/-- The next frame after a step, if it is not a body just entered, was pushed by
the step or stood below. The monitors held are those held before. -/
theorem head_cases (hfits : Fits f rest) (h : (effect st f).2 ++ rest = g :: rest')
    (hg : ∀ b, g ≠ .run b) :
    (Pushed st f g ∧ ∀ l, Frame.exit l ∈ rest' ↔ Frame.exit l ∈ rest) ∨
    (g.isTop = false ∧ rest = g :: rest') := by
  cases hp : (effect st f).2 with
  | nil =>
    rw [hp, List.nil_append] at h
    exact .inr ⟨hfits.1 g (by rw [h]; exact List.mem_cons_self), h⟩
  | cons g' pushed =>
    rw [hp, List.cons_append, List.cons.injEq] at h
    obtain ⟨rfl, rfl⟩ := h
    have hnew : ∀ x ∈ g' :: pushed, Pushed st f x := fun x hx => effect_pushes st f x (by rw [hp]; exact hx)
    refine .inl ⟨hnew g' List.mem_cons_self, fun l => ⟨?_, List.mem_append_right _⟩⟩
    intro hl
    rcases List.mem_append.mp hl with hl | hl
    · -- only entering a body pushes an exit frame, and then the body is next
      obtain ⟨b, rfl, -⟩ := hnew (.exit l) (List.mem_cons_of_mem _ hl)
      have hhead : g' = .run b := by
        simp only [effect, List.cons.injEq] at hp
        exact hp.1.symm
      exact absurd hhead (hg b)
    · exact hl

/-- A thread inside `MonitorManger` that comes to wait for a room has just looked
the room up, or is inside it already. -/
theorem waits_cases {b : Body} {r : RoomRef} (hlayer : Layered Fits (f :: rest))
    (h : (effect st f).2 ++ rest = .enter b :: rest') (hl : b.lock = .room r)
    (hin : .exit .monitorManger ∈ rest') :
    (∃ roomId op, f = .handleRoom roomId op ∧ st.rooms.roomIdRooms.lookup roomId = some r ∧
      .exit .monitorManger ∈ rest) ∨ .exit (.room r) ∈ rest := by
  have hunder : Under rest f := hlayer.1.2
  rcases head_cases hlayer.1 h (by simp) with ⟨hpushed, hexits⟩ | ⟨htop, rfl⟩
  · have hmm := (hexits .monitorManger).mp hin
    cases b with
    | block r' op =>
      cases hl
      obtain ⟨roomId, rfl, hmap⟩ := hpushed
      exact .inl ⟨roomId, op, rfl, hmap, hmm⟩
    | method r' op =>
      cases hl
      rcases hpushed with rfl | ⟨userId, rfl⟩ | rfl | ⟨task, now, rfl, -, -⟩
      · exact .inr hunder.1
      · exact .inr hunder.1
      · exact .inr hunder.1
      · have hnil : rest = [] := hunder
        rw [hnil] at hmm
        cases hmm
    | _ => cases hl
  · cases b with
    | block r' op => cases htop
    | method r' op =>
      cases hl
      have hbelow : Under rest' (.enter (.method r op)) := hlayer.2.1.2
      rcases hbelow with hinside | rfl
      · exact .inr (List.mem_cons_of_mem _ hinside.1)
      · cases hin
    | _ => cases hl

/-- A thread that comes to close a room has just begun to release it, or was closing it already. -/
theorem closes_cases {r : RoomRef} (hlayer : Layered Fits (f :: rest))
    (h : (effect st f).2 ++ rest = g :: rest')
    (hg : g = .deleteRoomCallBack r ∨ ∃ roomId, g = .enter (.endRoomProcess roomId))
    (hin : .exit (.room r) ∈ rest') (hout : .exit .monitorManger ∉ rest') :
    .exit .monitorManger ∉ rest ∧ .exit (.room r) ∈ rest ∧
      (f = .run (.method r .release) ∨ f = .deleteRoomCallBack r) := by
  have hrun : ∀ b, g ≠ .run b := by
    rcases hg with rfl | ⟨roomId, rfl⟩ <;> simp
  have hunder : Under rest f := hlayer.1.2
  rcases head_cases hlayer.1 h hrun with ⟨hpushed, hexits⟩ | ⟨htop, -⟩
  · refine ⟨fun hmm => hout ((hexits _).mpr hmm), (hexits _).mp hin, ?_⟩
    rcases hg with rfl | ⟨roomId, rfl⟩
    · exact .inl hpushed
    · obtain ⟨r', rfl⟩ := hpushed
      have hsame := hunder.2 _ ((hexits _).mp hin) r rfl
      exact .inr (by rw [hsame])
  · rcases hg with rfl | ⟨roomId, rfl⟩ <;> cases htop

end

theorem advance_ordered (s : System) (t : Tid) (h : Ordered s) (hkeep : KeepsOrder s (.advance t)) :
    Ordered (advance s t) := by
  refine ⟨advance_sound s t h.sound, ?_⟩
  rcases advance_cases s t with hsame | ⟨f, rest, hstack, -, hstep⟩
  · rw [hsame]; exact h.apart
  · have hlayer := h.sound.layered t
    rw [hstack] at hlayer
    have hstackOf : ∀ t', stackOf (advance s t).threads t' =
        if t' = t then (effect s.stores f).2 ++ rest else stackOf s.threads t' := by
      intro t'
      rw [hstep, stackOf_setStack]
    intro t₁ t₂ r hne hw
    by_contra hc
    rw [Bool.not_eq_false] at hc
    rw [hstackOf] at hw hc
    by_cases ht₁ : t₁ = t
    · -- the thread that moved is the one that waits
      subst ht₁
      rw [if_pos rfl] at hw
      rw [if_neg (Ne.symm hne)] at hc
      obtain ⟨b, rest₁, h₁, hl, hin₁⟩ := (waits_iff r _).mp hw
      rcases waits_cases hlayer h₁ hl hin₁ with ⟨roomId, op, rfl, hmap, hmm⟩ | hin
      · simp only [KeepsOrder, hstack] at hkeep
        have hno := eq_false_of_hasOther rfl (hkeep hmm r hmap) t₂ (Ne.symm hne)
        rw [hc] at hno
        cases hno
      · obtain ⟨g, rest₂, h₂, -, hin₂, -⟩ := (closes_iff r _).mp hc
        apply hne
        apply h.sound.exclusive (.room r) t₁ t₂
        · rw [hstack]; exact List.mem_cons_of_mem _ hin
        · rw [h₂]; exact List.mem_cons_of_mem _ hin₂
    · rw [if_neg ht₁] at hw
      by_cases ht₂ : t₂ = t
      · -- the thread that moved is the one that closes the room
        subst ht₂
        rw [if_pos rfl] at hc
        obtain ⟨g, rest₂, h₂, hg, hin₂, hout₂⟩ := (closes_iff r _).mp hc
        obtain ⟨hout, hin, rfl | rfl⟩ := closes_cases hlayer h₂ hg hin₂ hout₂
        · simp only [KeepsOrder, hstack] at hkeep
          have hno := eq_false_of_hasOther rfl (hkeep hout) t₁ hne
          rw [hw] at hno
          cases hno
        · have hold := h.apart t₁ t₂ r hne hw
          rw [(closes_iff r _).mpr ⟨_, rest, hstack, .inl rfl, hin, hout⟩] at hold
          cases hold
      · rw [if_neg ht₂] at hc
        have hold := h.apart t₁ t₂ r hne hw
        rw [hc] at hold
        cases hold

theorem start_ordered (s : System) (t : Tid) (entry : Entry) (h : Ordered s) :
    Ordered (step s (.start t entry)) := by
  refine ⟨step_sound s (.start t entry) h.sound, ?_⟩
  simp only [step]
  split
  · -- a thread that has just begun holds no monitor
    have hwaits : ∀ r, waits r [entry.frame] = false := by
      intro r
      cases entry <;> simp [waits, Entry.frame]
    have hcloses : ∀ r, closes r [entry.frame] = false := by
      intro r
      cases entry <;> simp [closes, Entry.frame]
    intro t₁ t₂ r hne hw
    rw [stackOf_setStack] at hw ⊢
    split
    · exact hcloses r
    · split at hw
      · rw [hwaits r] at hw
        cases hw
      · exact h.apart t₁ t₂ r hne hw
  · exact h.apart

theorem step_ordered (s : System) (e : Event) (h : Ordered s) (hkeep : KeepsOrder s e) :
    Ordered (step s e) := by
  cases e with
  | start t entry => exact start_ordered s t entry h
  | advance t => exact advance_ordered s t h hkeep

theorem init_ordered (ttl : Nat) : Ordered (.init ttl) where
  sound := init_sound ttl
  apart := by
    intro t t' r _ hw
    simp [System.init, waits] at hw

/-- In every interleaving whose steps keep the lock order, no two threads ever
wait for each other's monitor. -/
theorem keepsOrder_no_deadlock (ttl : Nat) (events : List Event)
    (h : Runs.Along step KeepsOrder (.init ttl) events) :
    Runs.Throughout step (fun s => ¬ Deadlocked s) (.init ttl) events :=
  Runs.Throughout.mono ordered_not_deadlocked _ _
    (Runs.throughout_of_along step_ordered (.init ttl) events (init_ordered ttl) h)

/-- The room's TTL closes it while another thread is inside `MonitorManger` for a different room. -/
def closesApart : List Event :=
  [.start 0 (.createRoom "r" (some ⟨"ws://kms", some 0⟩) 0), .advance 0,
   .start 1 (.fireTtl ("r", 3600000) 3600000), .advance 1, .advance 1, .advance 1,
   .start 2 (.joinRoom "monitor" "q"), .advance 2, .advance 2, .advance 1, .advance 1,
   .advance 2, .advance 2, .advance 1, .advance 1, .advance 1]

theorem closesApart_no_deadlock :
    Runs.Along step KeepsOrder (.init 3600) closesApart ∧
      Runs.Throughout step (fun s => ¬ Deadlocked s) (.init 3600) closesApart :=
  ⟨by decide +kernel, keepsOrder_no_deadlock 3600 closesApart (by decide +kernel)⟩

/-- The task of the room's TTL holds the room and waits for `MonitorManger`; a
monitoring user's `joinRoom` holds `MonitorManger` and waits for the room. -/
theorem ttl_and_joinRoom_deadlock :
    ¬ Runs.Throughout step (fun s => ¬ Deadlocked s) (.init 3600)
      [.start 0 (.createRoom "r" (some ⟨"ws://kms", some 0⟩) 0), .advance 0,
       .start 1 (.fireTtl ("r", 3600000) 3600000), .advance 1, .advance 1,
       .start 2 (.joinRoom "monitor" "r"), .advance 2, .advance 2, .advance 2,
       .advance 1, .advance 1] := by
  intro h
  obtain ⟨-, -, -, -, -, -, -, -, -, -, -, hlast⟩ := h
  apply hlast
  refine ⟨2, 1, 0, .block 0 (.joinWithOnlyIncoming "monitor"), .endRoomProcess "r",
    [.exit .monitorManger], [.departAll 0, .pipelineRelease 0, .exit (.room 0)], by decide, ?_, rfl, by decide,
    ?_, rfl, by decide⟩
  · decide +kernel
  · decide +kernel

end MediaLockOrder

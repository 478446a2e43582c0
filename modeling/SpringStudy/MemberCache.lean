import Mathlib.Data.List.Induction
import SpringStudy.Tables
import SpringStudy.Runs

/-!
# Member names through Redis

`GET /redis/member/{id}` is to keep the answer it has read from the database in
Redis for ten seconds, under one key for all members. But the template it writes
with has a value serializer for classes that can be made from a string, and
`MemberDto` is none. Requests come one at a time; the clock counts milliseconds,
and it may advance between two requests and inside one.
-/
namespace MemberCache

open Tables Runs

structure MemberDto where
  name : String
  deriving DecidableEq, Repr

/-- What Redis has under `memberCache`. -/
structure Entry where
  value : MemberDto
  /-- The last millisecond at which Redis still gives it out. -/
  expires : Nat
  /-- The member whose request stored it; Redis does not know, and no code reads it. -/
  storedFor : Int
  deriving DecidableEq, Repr

structure Server where
  /-- The rows of the table `member`: id and name, which is not null. -/
  member : Table Int String
  nextId : Int
  redis : Option Entry
  clock : Nat

inductive Failure where
  | nullPointer
  /-- A null in the column `name`. -/
  | notNull
  /-- The value serializer of the Redis template refuses the value. -/
  | serialization
  deriving DecidableEq, Repr

def seconds (n : Nat) : Nat := 1000 * n

/-- What the conversion service looks for in a class before it turns its objects into strings. -/
structure ValueClass where
  /-- `CharSequence` or `StringWriter`. -/
  isText : Bool
  /-- A constructor with one `String`. -/
  hasConstructor : Bool
  /-- A static `valueOf`, `of` or `from` with one `String`. -/
  hasFactory : Bool

/-- Whether `GenericToStringSerializer` takes the objects of a class; it throws on all others. -/
def genericToStringSerializer (c : ValueClass) : Bool := c.isText || c.hasConstructor || c.hasFactory

/-- `@Data` with one field that is not final: the only constructor has no parameters. -/
def memberDtoClass : ValueClass := ⟨false, false, false⟩

/-- The value serializer of `redisTemplateForMember` in `RedisConfig`. -/
def memberSerializer (_ : MemberDto) : Bool := genericToStringSerializer memberDtoClass

namespace Server

def wait (s : Server) (d : Nat) : Server := { s with clock := s.clock + d }

/-- `opsForValue().get(cache_key)` -/
def get (s : Server) : Option MemberDto :=
  match s.redis with
  | none => none
  | some e => if s.clock ≤ e.expires then some e.value else none

/-- `opsForValue().set(cache_key, value, Duration.ofSeconds(10))` in a request for `id`. -/
def set (s : Server) (id : Int) (value : MemberDto) : Server :=
  { s with redis := some ⟨value, s.clock + seconds 10, id⟩ }

/-- The database numbers the new row; it may have left out `gap` numbers. -/
def saveMember (s : Server) (name : Option String) (gap : Nat) : Server × Except Failure Unit :=
  match name with
  | none => (s, .error .notNull)
  | some name =>
    ({ s with member := s.member.insert (s.nextId + gap) name, nextId := s.nextId + gap + 1 }, .ok ())

def updateMember (s : Server) (id : Int) (name : Option String) : Server × Except Failure Unit :=
  match s.member.lookup id with
  | none => (s, .ok ())
  | some _ =>
    match name with
    | none => (s, .error .notNull)
    | some name => ({ s with member := s.member.insert id name }, .ok ())

def getMemberByIdUseRedis (s : Server) (id : Int) : Option String := s.member.lookup id

/-- Redis is asked twice, `pause` apart, and the second answer is returned even if the entry
has gone by then. `delay` passes between the database's answer and the new entry. -/
def memberUseRedisTemplate (serializes : MemberDto → Bool) (s : Server) (id : Int) (pause delay : Nat) :
    Server × Except Failure (Option MemberDto) :=
  if s.get.isSome then
    let s := s.wait pause
    (s, .ok s.get)
  else
    let s := s.wait pause
    match s.getMemberByIdUseRedis id with
    | none => (s, .error .nullPointer)
    | some name =>
      if serializes ⟨name⟩ then ((s.wait delay).set id ⟨name⟩, .ok (some ⟨name⟩))
      else (s, .error .serialization)

end Server

inductive Event where
  | tick (d : Nat)
  | post (name : Option String) (gap : Nat)
  | put (id : Int) (name : Option String)
  | get (id : Int) (pause delay : Nat)
  deriving DecidableEq, Repr

section
variable (serializes : MemberDto → Bool)

def step (s : Server) : Event → Server
  | .tick d => s.wait d
  | .post name gap => (s.saveMember name gap).1
  | .put id name => (s.updateMember id name).1
  | .get id pause delay => (s.memberUseRedisTemplate serializes id pause delay).1

/-- The server starts with these rows and nothing in Redis. -/
def init (rows : Table Int String) (nextId : Int) : Server := ⟨rows, nextId, none, 0⟩

/-- In a run that has got as far as `before`, the member had the name at a moment of the ten
seconds before `now`. -/
def HadName (s₀ : Server) (before : List Event) (id : Int) (name : String) (now : Nat) : Prop :=
  ∃ earlier later, before = earlier ++ later ∧
    (run (step serializes) s₀ earlier).member.lookup id = some name ∧
    (run (step serializes) s₀ earlier).clock ≤ now ∧ now ≤ (run (step serializes) s₀ earlier).clock + seconds 10

/-- Every GET that returns a name returns one that the member with its id had. -/
def ReturnsOwnNames (s₀ : Server) (events : List Event) : Prop :=
  ∀ before id pause delay after, events = before ++ .get id pause delay :: after →
    ∀ dto, ((run (step serializes) s₀ before).memberUseRedisTemplate serializes id pause delay).2 =
      .ok (some dto) → HadName serializes s₀ before id dto.name (run (step serializes) s₀ before).clock

end

/-- A GET that is answered from Redis asks for the member that the entry was stored for. -/
def OwnEntry (s : Server) : Event → Prop
  | .get id pause _ => ∀ e ∈ s.redis, s.clock + pause ≤ e.expires → e.storedFor = id
  | _ => True

/-! ## One request -/

theorem get_eq_some {s : Server} {dto : MemberDto} :
    s.get = some dto ↔ ∃ e, s.redis = some e ∧ s.clock ≤ e.expires ∧ e.value = dto := by
  unfold Server.get
  cases s.redis with
  | none => simp
  | some e => simp

/-- A GET is answered from Redis, fails, or stores the name it has read. -/
inductive Got (serializes : MemberDto → Bool) (s : Server) (id : Int) (pause delay : Nat) :
    Server × Except Failure (Option MemberDto) → Prop where
  | cached (h : s.get.isSome) : Got serializes s id pause delay (s.wait pause, .ok (s.wait pause).get)
  | failed (failure : Failure) : Got serializes s id pause delay (s.wait pause, .error failure)
  | stored (name : String) (h : s.member.lookup id = some name) (hwrites : serializes ⟨name⟩ = true) :
    Got serializes s id pause delay (((s.wait pause).wait delay).set id ⟨name⟩, .ok (some ⟨name⟩))

variable (serializes : MemberDto → Bool)

theorem memberUseRedisTemplate_got (s : Server) (id : Int) (pause delay : Nat) :
    Got serializes s id pause delay (s.memberUseRedisTemplate serializes id pause delay) := by
  unfold Server.memberUseRedisTemplate
  split
  · next h => exact .cached h
  · dsimp only
    split
    · exact .failed .nullPointer
    · next name hname =>
      split
      · next hwrites => exact .stored name hname hwrites
      · exact .failed .serialization

/-- A name that is returned is the one of the row, or an entry has it that has not expired at the
second look. -/
theorem returned_cases {s : Server} {id : Int} {pause delay : Nat} {dto : MemberDto}
    (h : (s.memberUseRedisTemplate serializes id pause delay).2 = .ok (some dto)) :
    (s.member.lookup id = some dto.name ∧ serializes dto = true) ∨
      ∃ e, s.redis = some e ∧ s.clock + pause ≤ e.expires ∧ e.value = dto := by
  have hgot := memberUseRedisTemplate_got serializes s id pause delay
  generalize s.memberUseRedisTemplate serializes id pause delay = q at hgot h
  cases hgot with
  | failed failure => cases h
  | stored name hname hwrites =>
    cases h
    exact .inl ⟨hname, hwrites⟩
  | cached _ => exact .inr (get_eq_some.mp (Except.ok.inj h))

theorem saveMember_redis (s : Server) (name : Option String) (gap : Nat) :
    (s.saveMember name gap).1.redis = s.redis ∧ (s.saveMember name gap).1.clock = s.clock := by
  cases name with
  | none => exact ⟨rfl, rfl⟩
  | some name => exact ⟨rfl, rfl⟩

theorem updateMember_redis (s : Server) (id : Int) (name : Option String) :
    (s.updateMember id name).1.redis = s.redis ∧ (s.updateMember id name).1.clock = s.clock := by
  unfold Server.updateMember
  split
  · exact ⟨rfl, rfl⟩
  · cases name with
    | none => exact ⟨rfl, rfl⟩
    | some name => exact ⟨rfl, rfl⟩

/-- The clock does not go back. A step leaves Redis alone, or it stores the name that a
member has, for ten seconds from then on. -/
theorem step_redis (s : Server) (e : Event) :
    s.clock ≤ (step serializes s e).clock ∧
    ((step serializes s e).redis = s.redis ∨
      ∃ id name, serializes ⟨name⟩ = true ∧ (step serializes s e).member.lookup id = some name ∧
        (step serializes s e).redis = some ⟨⟨name⟩, (step serializes s e).clock + seconds 10, id⟩) := by
  cases e with
  | tick d => exact ⟨Nat.le_add_right _ _, .inl rfl⟩
  | post name gap =>
    obtain ⟨hredis, hclock⟩ := saveMember_redis s name gap
    exact ⟨Nat.le_of_eq hclock.symm, .inl hredis⟩
  | put id name =>
    obtain ⟨hredis, hclock⟩ := updateMember_redis s id name
    exact ⟨Nat.le_of_eq hclock.symm, .inl hredis⟩
  | get id pause delay =>
    have hgot := memberUseRedisTemplate_got serializes s id pause delay
    rw [step]
    generalize s.memberUseRedisTemplate serializes id pause delay = q at hgot ⊢
    cases hgot with
    | cached h => exact ⟨Nat.le_add_right _ _, .inl rfl⟩
    | failed failure => exact ⟨Nat.le_add_right _ _, .inl rfl⟩
    | stored name h hwrites =>
      refine ⟨?_, .inr ⟨id, name, hwrites, h, rfl⟩⟩
      show s.clock ≤ s.clock + pause + delay
      omega

theorem run_clock_le (s : Server) (events : List Event) : s.clock ≤ (run (step serializes) s events).clock :=
  run_invariant (I := fun t => s.clock ≤ t.clock)
    (fun t e h => Nat.le_trans h (step_redis serializes t e).1) s events (Nat.le_refl _)

/-! ## Where the entry comes from -/

/-- What is in Redis is the name that the member it was stored for had when it was stored. -/
theorem entry_origin (s₀ : Server) (hempty : s₀.redis = none) (before : List Event) (e : Entry)
    (he : (run (step serializes) s₀ before).redis = some e) :
    ∃ earlier later, before = earlier ++ later ∧
      (run (step serializes) s₀ earlier).member.lookup e.storedFor = some e.value.name ∧
      e.expires = (run (step serializes) s₀ earlier).clock + seconds 10 := by
  induction before using List.reverseRecOn with
  | nil =>
    rw [run_nil, hempty] at he
    cases he
  | append_singleton before last ih =>
    have hlast : run (step serializes) s₀ (before ++ [last]) =
        step serializes (run (step serializes) s₀ before) last := run_append _ s₀ before [last]
    rcases (step_redis serializes (run (step serializes) s₀ before) last).2 with
      hsame | ⟨id, name, -, hname, hstored⟩
    · obtain ⟨earlier, later, rfl, hearlier⟩ := ih (by rw [← hsame, ← hlast]; exact he)
      exact ⟨earlier, later ++ [last], List.append_assoc _ _ _, hearlier⟩
    · rw [hlast, hstored] at he
      obtain rfl := Option.some.inj he
      refine ⟨before ++ [last], [], (List.append_nil _).symm, ?_⟩
      rw [hlast]
      exact ⟨hname, rfl⟩

/-- As long as a GET that is answered from Redis asks for the member that the entry was stored
for, a name that is returned is at most ten seconds old. -/
theorem returnsOwnNames_of_ownEntry (rows : Table Int String) (nextId : Int) (events : List Event)
    (h : Along (step serializes) OwnEntry (init rows nextId) events) :
    ReturnsOwnNames serializes (init rows nextId) events := by
  rintro before id pause delay after rfl dto hdto
  have hown := ((along_append _ _ _ before _).mp h).2.1
  rcases returned_cases serializes hdto with ⟨hname, -⟩ | ⟨e, he, hlive, rfl⟩
  · -- read from the database in this very request
    exact ⟨before, [], (List.append_nil _).symm, hname, Nat.le_refl _, Nat.le_add_right _ _⟩
  · obtain ⟨earlier, later, rfl, hname, hexpires⟩ := entry_origin serializes _ rfl before e he
    rw [hown e he hlive] at hname
    refine ⟨earlier, later, rfl, hname, ?_, ?_⟩
    · rw [run_append]
      exact run_clock_le serializes _ later
    · omega

-- With a serializer that takes the names, the one key would give Kim's name to who asks for Lee.
example : ((run (step fun _ => true) (init ∅ 1) [.post "Kim" 0, .post "Lee" 0, .get 1 0 0]).memberUseRedisTemplate
    (fun _ => true) 2 0 0).2 = .ok (some ⟨"Kim"⟩) := by decide

/-! ## The template as it is configured -/

/-- Nothing is ever stored. -/
theorem step_redis_empty (s : Server) (e : Event) (h : s.redis = none) :
    (step memberSerializer s e).redis = none := by
  rcases (step_redis memberSerializer s e).2 with hsame | ⟨_, name, hwrites, -⟩
  · rw [hsame, h]
  · cases hwrites

/-- Nothing is found in Redis, so the request goes to the database, and what it has read there
cannot be stored. -/
theorem memberUseRedisTemplate_throws {s : Server} (h : s.redis = none) (id : Int) (pause delay : Nat) :
    (s.memberUseRedisTemplate memberSerializer id pause delay).2 =
      .error (if (s.member.lookup id).isSome then .serialization else .nullPointer) := by
  have hget : s.get = none := by rw [Server.get, h]
  have hrow : (s.wait pause).getMemberByIdUseRedis id = s.member.lookup id := rfl
  rw [Server.memberUseRedisTemplate, hget, if_neg (by simp)]
  dsimp only
  rw [hrow]
  cases s.member.lookup id with
  | none => rfl
  | some name => rfl

/-- In every history a name that a GET returns is one that the member with its id had within the
last ten seconds; in fact every GET ends in an exception, for a member that is there when its
name is to be stored. -/
theorem get_returns_own_names (rows : Table Int String) (nextId : Int) (events : List Event) :
    ReturnsOwnNames memberSerializer (init rows nextId) events ∧
      Along (step memberSerializer) (fun s e => ∀ id pause delay, e = .get id pause delay →
        (s.memberUseRedisTemplate memberSerializer id pause delay).2 =
          .error (if (s.member.lookup id).isSome then .serialization else .nullPointer))
        (init rows nextId) events := by
  constructor
  · refine returnsOwnNames_of_ownEntry memberSerializer rows nextId events ?_
    refine along_of_invariant (I := fun s : Server => s.redis = none) step_redis_empty ?_ _ events rfl
    intro s e hs
    cases e with
    | get id pause delay =>
      intro entry hentry
      rw [hs] at hentry
      cases hentry
    | tick d | post name gap | put id name => trivial
  · refine along_of_invariant (I := fun s : Server => s.redis = none) step_redis_empty ?_ _ events rfl
    intro s e hs id pause delay _
    exact memberUseRedisTemplate_throws hs id pause delay

end MemberCache

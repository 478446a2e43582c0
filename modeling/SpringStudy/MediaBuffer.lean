import SpringStudy.Tables

/-!
# Candidate buffers

Ice candidates that arrive before the offer of their endpoint wait in a buffer,
one for each room, user and present. A buffer is an object: `id` tells two
buffers of one key apart. `release` of a user drops its buffers but leaves its
index set behind.
-/
namespace MediaBuffer

open Tables

structure IceCandidate where
  candidate : String
  sdpMid : String
  sdpMLineIndex : Nat
  deriving DecidableEq, Repr

structure CandidateBuffer where
  id : Nat
  buffer : List IceCandidate
  flush : Bool
  deriving DecidableEq, Repr

structure BufferKey where
  roomId : Option String
  userId : String
  present : Option String
  deriving DecidableEq, Repr

structure BufferManger where
  bufferMap : Table BufferKey CandidateBuffer
  userIdIndex : Table String (List BufferKey)
  /-- The number of buffers built so far. -/
  built : Nat

def BufferManger.empty : BufferManger := ⟨∅, ∅, 0⟩

/-- Whether the candidate was taken; a flushed buffer takes none. -/
def CandidateBuffer.cache (b : CandidateBuffer) (candidate : IceCandidate) : CandidateBuffer × Bool :=
  if b.flush then (b, false) else ({ b with buffer := b.buffer ++ [candidate] }, true)

/-- `flush` hands over the candidates and lets no further one in. -/
def CandidateBuffer.flushed (b : CandidateBuffer) : CandidateBuffer × List IceCandidate :=
  (⟨b.id, [], true⟩, b.buffer)

namespace BufferManger

def getCandidateBuffer (m : BufferManger) (key : BufferKey) : BufferManger × CandidateBuffer :=
  match m.bufferMap.lookup key with
  | some b => (m, b)
  | none =>
    let b : CandidateBuffer := ⟨m.built, [], false⟩
    let indexSet := (m.userIdIndex.lookup key.userId).getD []
    (⟨m.bufferMap.insert key b, m.userIdIndex.insert key.userId (indexSet.insert key), m.built + 1⟩, b)

/-- The buffer of the key is flushed and its candidates are handed over. -/
def flushBuffer (m : BufferManger) (key : BufferKey) : BufferManger × List IceCandidate :=
  let q := m.getCandidateBuffer key
  ({ q.1 with bufferMap := q.1.bufferMap.insert key q.2.flushed.1 }, q.2.flushed.2)

/-- The candidate goes into the buffer of the key, unless that has been flushed. -/
def cache (m : BufferManger) (key : BufferKey) (candidate : IceCandidate) : BufferManger × Bool :=
  let q := m.getCandidateBuffer key
  ({ q.1 with bufferMap := q.1.bufferMap.insert key (q.2.cache candidate).1 }, (q.2.cache candidate).2)

def release (m : BufferManger) (userId : String) : BufferManger :=
  match m.userIdIndex.lookup userId with
  | none => m
  | some keys => { m with bufferMap := keys.foldl (fun t key => t.erase key) m.bufferMap }

end BufferManger

/-! ## The buffer of one key -/

theorem getCandidateBuffer_present {m : BufferManger} {key : BufferKey} {b : CandidateBuffer}
    (h : m.bufferMap.lookup key = some b) : m.getCandidateBuffer key = (m, b) := by
  rw [BufferManger.getCandidateBuffer, h]

theorem lookup_getCandidateBuffer_self (m : BufferManger) (key : BufferKey) :
    (m.getCandidateBuffer key).1.bufferMap.lookup key = some (m.getCandidateBuffer key).2 := by
  unfold BufferManger.getCandidateBuffer
  split
  · next b hb => exact hb
  · simp

theorem getCandidateBuffer_others (m : BufferManger) (key k : BufferKey) (hk : k ≠ key) :
    (m.getCandidateBuffer key).1.bufferMap.lookup k = m.bufferMap.lookup k := by
  unfold BufferManger.getCandidateBuffer
  split
  · rfl
  · simp [hk]

theorem lookup_flushBuffer (m : BufferManger) (key : BufferKey) :
    (m.flushBuffer key).1.bufferMap.lookup key = some (m.getCandidateBuffer key).2.flushed.1 := by
  simp [BufferManger.flushBuffer]

theorem flushBuffer_others (m : BufferManger) (key k : BufferKey) (hk : k ≠ key) :
    (m.flushBuffer key).1.bufferMap.lookup k = m.bufferMap.lookup k := by
  simp [BufferManger.flushBuffer, hk, getCandidateBuffer_others]

theorem lookup_cache (m : BufferManger) (key : BufferKey) (candidate : IceCandidate) :
    (m.cache key candidate).1.bufferMap.lookup key = some ((m.getCandidateBuffer key).2.cache candidate).1 := by
  simp [BufferManger.cache]

theorem cache_others (m : BufferManger) (key k : BufferKey) (candidate : IceCandidate) (hk : k ≠ key) :
    (m.cache key candidate).1.bufferMap.lookup k = m.bufferMap.lookup k := by
  simp [BufferManger.cache, hk, getCandidateBuffer_others]

end MediaBuffer

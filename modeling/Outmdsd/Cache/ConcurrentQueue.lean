import Mathlib.Data.List.Basic

/-!
# The incoming queue

`ConcurrentQueue` with its size limit: a push into a full queue drops the oldest element. Each
operation runs under the mutex of the queue, so it is one step. `wait_and_pop` waits as long as the
queue is empty and was not told to stop.
-/

namespace Outmdsd

/-- `ConcurrentQueue<T>`, the oldest element first. -/
structure ConcurrentQueue (α : Type*) where
  dataQueue : List α
  stopOnceEmpty : Bool
  /-- `m_maxSize`, 0 for no limit -/
  maxSize : ℕ

namespace ConcurrentQueue

variable {α : Type*} {q q' : ConcurrentQueue α} {x y : α}

def new (maxSize : ℕ) : ConcurrentQueue α := ⟨[], false, maxSize⟩

/-- `is_full` -/
def isFull (q : ConcurrentQueue α) : Bool := 0 < q.maxSize && q.dataQueue.length = q.maxSize

/-- `push` -/
def push (q : ConcurrentQueue α) (x : α) : ConcurrentQueue α :=
  { q with dataQueue := (if q.isFull then q.dataQueue.tail else q.dataQueue) ++ [x] }

/-- `wait_and_pop`: `none` while it waits, otherwise what it pops, if anything. -/
def waitAndPop (q : ConcurrentQueue α) : Option (Option α × ConcurrentQueue α) :=
  match q.dataQueue with
  | x :: xs => some (some x, { q with dataQueue := xs })
  | [] => if q.stopOnceEmpty then some (none, q) else none

/-- `stop_once_empty` -/
def stop (q : ConcurrentQueue α) : ConcurrentQueue α := { q with stopOnceEmpty := true }

/-- What is popped is the oldest element. -/
theorem waitAndPop_eq_some (h : q.waitAndPop = some (some x, q')) :
    q.dataQueue = x :: q'.dataQueue := by
  unfold waitAndPop at h
  split at h
  · rename_i hq
    cases h
    exact hq
  · split at h <;> cases h

/-- Nothing is popped only from a queue that is empty and was told to stop. -/
theorem waitAndPop_eq_none (h : q.waitAndPop = some (none, q')) :
    q.dataQueue = [] ∧ q.stopOnceEmpty = true ∧ q' = q := by
  unfold waitAndPop at h
  split at h
  · cases h
  · rename_i hq
    split at h
    · rename_i hs
      cases h
      exact ⟨hq, hs, rfl⟩
    · cases h

end ConcurrentQueue

end Outmdsd

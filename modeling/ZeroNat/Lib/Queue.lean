import Mathlib.Data.List.Basic

/-!
# Bounded queues

The channels between tasks: a queue with room for a number of items, whose receiving end may
be gone.
-/

/-- The outcome of putting an item in a queue without waiting. -/
inductive TrySend where
  | sent
  | full
  | closed
deriving DecidableEq

/-- A queue with the items that wait in it, oldest first. -/
structure Queue (α : Type) where
  cap : ℕ
  items : List α
  closed : Bool
deriving DecidableEq

namespace Queue

variable {α : Type}

/-- An empty queue. -/
def bounded (cap : ℕ) : Queue α where
  cap := cap
  items := []
  closed := false

/-- Put an item in the queue, unless it is full or nobody reads it. -/
def trySend (q : Queue α) (x : α) : TrySend × Queue α :=
  if q.closed then (.closed, q)
  else if q.items.length < q.cap then (.sent, { q with items := q.items ++ [x] })
  else (.full, q)

/-- Take the oldest item. -/
def tryRecv (q : Queue α) : Option α × Queue α :=
  (q.items.head?, { q with items := q.items.tail })

end Queue

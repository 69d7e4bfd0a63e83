import Mathlib.Algebra.BigOperators.Group.List.Basic
import Mathlib.Data.List.Basic

/-!
# Pools of tasks

The tasks of a program as a list, each known by its position.  A step of one task replaces it,
and a new task is added at the end, so that positions stay.
-/

namespace List

variable {α : Type} {l : List α} {i j : ℕ} {a b : α}

/-- The tasks after a step of the task at `i`. -/
theorem getElem?_set_of_some (h : l[i]? = some a) (b : α) :
  (l.set i b)[j]? = if j = i then some b else l[j]?
  := by
  have hi := (getElem?_eq_some_iff.mp h).1
  rw [getElem?_set, if_pos hi]
  split
  · rename_i heq
    rw [if_pos heq.symm]
  · rename_i hne
    rw [if_neg (Ne.symm hne)]

/-- A task is changed in place. -/
theorem modify_of_some (h : l[i]? = some a) (f : α → α) :
  l.modify i f = l.set i (f a)
  := by
  have : Inhabited α := ⟨a⟩
  rw [modify_eq_set, h]
  rfl

/-- The tasks after a new one has begun. -/
theorem getElem?_append_one (a : α) :
  (l ++ [a])[j]? = if j = l.length then some a else l[j]?
  := by
  rw [getElem?_append]
  split
  · rename_i hlt
    rw [if_neg (Nat.ne_of_lt hlt)]
  · rename_i hlt
    split
    · rename_i heq
      rw [heq, Nat.sub_self, getElem?_cons_zero]
    · rename_i hne
      rw [getElem?_eq_none (Nat.le_of_not_lt hlt)]
      apply getElem?_eq_none
      rw [length_singleton]
      omega

/-- The tasks of some sort are counted anew after a step of one of them. -/
theorem countP_set_of_some (h : l[i]? = some a) (b : α) (p : α → Bool) :
  (l.set i b).countP p + (if p a then 1 else 0) = l.countP p + (if p b then 1 else 0)
  := by
  obtain ⟨hi, ha⟩ := getElem?_eq_some_iff.mp h
  have hle : (if p a then 1 else 0) ≤ l.countP p := by
    split
    · rename_i hp
      exact countP_pos_iff.mpr ⟨a, mem_of_getElem? h, hp⟩
    · exact Nat.zero_le _
  rw [countP_set hi, ha]
  omega

/-- What all tasks have together changes after a step of one of them by what that one has. -/
theorem sum_map_set_of_some {M : Type} [AddCommMonoid M] (h : l[i]? = some a) (b : α)
    (f : α → M) :
  ((l.set i b).map f).sum + f a = (l.map f).sum + f b
  := by
  induction l generalizing i with
  | nil => exact absurd h (by simp)
  | cons c l ih =>
      cases i with
      | zero =>
          obtain rfl := Option.some.inj h
          rw [set_cons_zero, map_cons, map_cons, sum_cons, sum_cons, add_right_comm, add_comm (f b),
            add_right_comm, add_right_comm]
      | succ i =>
          rw [getElem?_cons_succ] at h
          rw [set_cons_succ, map_cons, map_cons, sum_cons, sum_cons, add_assoc, ih h, add_assoc]

end List

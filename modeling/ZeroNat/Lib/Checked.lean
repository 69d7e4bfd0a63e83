import Mathlib.Tactic
import Mathlib.Data.List.Basic

/-!
# Operations that may fault

A program that reads and writes buffers blindly faults when an index or a range is out of
bounds, or when a number does not fit the type it is cast to.  The result of such an operation
is `none` when it faults.  The lemmas give the result when it does not.
-/

namespace Checked

variable {α : Type}

/-- An element of a list. -/
def index (l : List α) (i : ℕ) : Option α :=
  l[i]?

/-- The part of a list in a range. -/
def slice (l : List α) (start stop : ℕ) : Option (List α) :=
  if start ≤ stop ∧ stop ≤ l.length then some ((l.drop start).take (stop - start)) else none

/-- Write one element of a buffer. -/
def set (l : List α) (i : ℕ) (a : α) : Option (List α) :=
  if i < l.length then some (l.set i a) else none

/-- Write over a whole buffer.  The source has to be as long. -/
def copy (src dst : List α) : Option (List α) :=
  if dst.length = src.length then some src else none

/-- Work on the part of a buffer in a range. -/
def within (l : List α) (start stop : ℕ) (f : List α → Option (List α)) : Option (List α) :=
  (slice l start stop).bind fun part =>
    (f part).map fun part => l.take start ++ (part ++ l.drop stop)

/-- A cast to eight bits. -/
def toU8 (n : ℕ) : Option UInt8 :=
  if n < 2 ^ 8 then some (UInt8.ofNat n) else none

/-- A cast to sixteen bits. -/
def toU16 (n : ℕ) : Option UInt16 :=
  if n < 2 ^ 16 then some (UInt16.ofNat n) else none

def addU8 (a b : UInt8) : Option UInt8 :=
  if a.toNat + b.toNat < 2 ^ 8 then some (a + b) else none

def addU16 (a b : UInt16) : Option UInt16 :=
  if a.toNat + b.toNat < 2 ^ 16 then some (a + b) else none

/-! ### When there is no fault -/

theorem index_eq {l : List α} {i : ℕ} (h : i < l.length) (d : α) :
  index l i = some (l.getD i d)
  := by
  rw [index, List.getD_eq_getElem?_getD, List.getElem?_eq_getElem h, Option.getD_some]

theorem slice_eq {l : List α} {start stop : ℕ} (hstart : start ≤ stop) (hstop : stop ≤ l.length) :
  slice l start stop = some ((l.drop start).take (stop - start))
  := if_pos ⟨hstart, hstop⟩

theorem slice_to {l : List α} {stop : ℕ} (h : stop ≤ l.length) :
  slice l 0 stop = some (l.take stop)
  := slice_eq (Nat.zero_le stop) h

theorem slice_from {l : List α} {start : ℕ} (h : start ≤ l.length) :
  slice l start l.length = some (l.drop start)
  := by
  rw [slice_eq h le_rfl, List.take_of_length_le (by simp)]

/-- An element that stands after a part of the buffer. -/
theorem set_eq {l a b : List α} {x : α} {i : ℕ} (hl : l = a ++ (x :: b)) (hi : a.length = i)
    (v : α) :
  set l i v = some (a ++ (v :: b))
  := by
  subst hl hi
  rw [set, if_pos (by simp)]
  simp

theorem copy_eq {src dst : List α} (h : dst.length = src.length) :
  copy src dst = some src
  := if_pos h

/-- The range of a part of the buffer. -/
theorem within_eq {l a b c : List α} {m n : ℕ} (hl : l = a ++ (b ++ c)) (hm : a.length = m)
    (hn : m + b.length = n) (f : List α → Option (List α)) :
  within l m n f = (f b).map fun part => a ++ (part ++ c)
  := by
  subst hl hm hn
  have hdrop : (a ++ (b ++ c)).drop (a.length + b.length) = c := by
    rw [← List.append_assoc]
    apply List.drop_left'
    apply List.length_append
  rw [within, slice_eq (Nat.le_add_right _ _) (by simp), hdrop]
  simp

/-- The range from a position to the end of the buffer. -/
theorem within_tail {l a b : List α} {m : ℕ} (hl : l = a ++ b) (hm : a.length = m)
    (f : List α → Option (List α)) :
  within l m l.length f = (f b).map fun part => a ++ part
  := by
  have h := within_eq (n := l.length) (l := l) (a := a) (b := b) (c := []) (by simpa using hl) hm
    (by simp [hl, ← hm]) f
  simpa using h

theorem toU8_eq {n : ℕ} (h : n < 2 ^ 8) :
  toU8 n = some (UInt8.ofNat n)
  := if_pos h

theorem toU16_eq {n : ℕ} (h : n < 2 ^ 16) :
  toU16 n = some (UInt16.ofNat n)
  := if_pos h

theorem toU16_eq_none {n : ℕ} (h : 2 ^ 16 ≤ n) :
  toU16 n = none
  := if_neg (Nat.not_lt.mpr h)

theorem addU8_eq {n : ℕ} {b : UInt8} (h : n + b.toNat < 2 ^ 8) :
  addU8 (UInt8.ofNat n) b = some (UInt8.ofNat n + b)
  := by
  rw [addU8, if_pos]
  rw [UInt8.toNat_ofNat_of_lt' (Nat.lt_of_le_of_lt (Nat.le_add_right _ _) h)]
  exact h

theorem addU16_eq {n : ℕ} {b : UInt16} (h : n + b.toNat < 2 ^ 16) :
  addU16 (UInt16.ofNat n) b = some (UInt16.ofNat n + b)
  := by
  rw [addU16, if_pos]
  rw [UInt16.toNat_ofNat_of_lt' (Nat.lt_of_le_of_lt (Nat.le_add_right _ _) h)]
  exact h

/-- Going through a list without a fault. -/
theorem mapM_eq {β : Type} {f : α → Option β} {g : α → β} {l : List α}
    (h : ∀ a ∈ l, f a = some (g a)) :
  l.mapM f = some (l.map g)
  := by
  induction l with
  | nil => rfl
  | cons a l ih =>
      rw [List.mapM_cons, h a List.mem_cons_self, ih fun b hb => h b (List.mem_cons_of_mem a hb)]
      rfl

/-- A computation that may fail, and that may fault.  A fault of a part of it is one of the
whole. -/
theorem bind_eq {ε β : Type} {x : ExceptT ε Option α} {y : Except ε α}
    {f : α → ExceptT ε Option β} {g : α → Except ε β} (hx : x.run = some y)
    (hf : ∀ a, y = .ok a → (f a).run = some (g a)) :
  (x >>= f).run = some (y >>= g)
  := by
  rw [ExceptT.run_bind, hx]
  cases y with
  | error e => rfl
  | ok a => exact hf a rfl

theorem lift_eq {ε β : Type} {x : Option α} {a : α} {f : α → ExceptT ε Option β}
    {y : Except ε β} (hx : x = some a) (hf : (f a).run = some y) :
  (liftM x >>= f).run = some y
  := by
  subst hx
  exact hf

/-- A check that fails, or goes on. -/
theorem guard_eq {ε : Type} {c : Prop} [Decidable c] {e : ε} {f : PUnit → ExceptT ε Option α}
    {g : PUnit → Except ε α} (h : ¬ c → (f ⟨⟩).run = some (g ⟨⟩)) :
  (if c then throw e >>= f else f ⟨⟩).run = some (if c then throw e >>= g else g ⟨⟩)
  := by
  by_cases hc : c
  · rw [if_pos hc, if_pos hc]
    rfl
  · rw [if_neg hc, if_neg hc]
    exact h hc

end Checked

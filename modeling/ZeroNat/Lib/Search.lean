import Mathlib.Tactic
import Mathlib.Data.List.Basic

/-!
# Binary search

The search through a list whose elements are compared with what is looked for, by halving the
part of the list that is left.  It gives the place of an equal element, or the place to insert
one.  A read outside of the list is a fault, and the result is then `none`.
-/

namespace Search

variable {α : Type}

/-- Halve the part of `size` elements from `base` on until one element is left.  One unit of
fuel is used up by each round. -/
def halve (cmp : α → Ordering) (l : List α) : ℕ → ℕ → ℕ → Option ℕ
  | 0, base, size => if 1 < size then none else some base
  | fuel + 1, base, size =>
      if 1 < size then do
        let half := size / 2
        let mid := base + half
        let a ← l[mid]?
        halve cmp l fuel (if cmp a = .gt then base else mid) (size - half)
      else some base

/-- The place of an element that compares as equal, or the place to insert one. -/
def binarySearchBy (cmp : α → Ordering) (l : List α) : Option (Except ℕ ℕ) :=
  if l.length = 0 then some (.error 0)
  else do
    let base ← halve cmp l l.length 0 l.length
    let a ← l[base]?
    if cmp a = .eq then some (.ok base)
    else some (.error (if cmp a = .lt then base + 1 else base))

/-- The elements that are not above what is looked for come before the ones that are. -/
structure Parted (cmp : α → Ordering) (below above : List α) : Prop where
  below_ne : ∀ a ∈ below, cmp a ≠ .gt
  above_eq : ∀ a ∈ above, cmp a = .gt

variable {cmp : α → Ordering} {below above : List α}

/-- An element of a parted list, by the side it stands on. -/
theorem Parted.cmp_iff (h : Parted cmp below above) {i : ℕ} {a : α}
    (ha : (below ++ above)[i]? = some a) :
  cmp a = .gt ↔ below.length ≤ i
  := by
  constructor
  · intro hgt
    by_contra hlt
    rw [List.getElem?_append_left (by omega)] at ha
    exact h.below_ne a (List.mem_of_getElem? ha) hgt
  · intro hle
    rw [List.getElem?_append_right hle] at ha
    exact h.above_eq a (List.mem_of_getElem? ha)

/-- Halving a parted list ends at the last element that is not above, or at the start when
there is none. -/
theorem halve_eq (h : Parted cmp below above) :
  ∀ {fuel base size : ℕ}, size ≤ fuel + 1 → 0 < size
    → base + size ≤ (below ++ above).length
    → (base = 0 ∨ base < below.length) → below.length ≤ base + size
    → halve cmp (below ++ above) fuel base size = some (below.length - 1)
  := by
  intro fuel
  induction fuel with
  | zero =>
      intro base size hfuel hpos hbound hbase hlast
      rw [halve, if_neg (by omega), Option.some.injEq]
      omega
  | succ fuel ih =>
      intro base size hfuel hpos hbound hbase hlast
      rw [halve]
      split
      · have hmid : base + size / 2 < (below ++ above).length := by omega
        obtain ⟨a, ha⟩ : ∃ a, (below ++ above)[base + size / 2]? = some a :=
          ⟨_, List.getElem?_eq_getElem hmid⟩
        have hiff := h.cmp_iff ha
        simp only [ha, Option.bind_eq_bind, Option.bind_some]
        split
        · rename_i hgt
          have := hiff.mp hgt
          apply ih
          all_goals omega
        · rename_i hgt
          have : ¬ below.length ≤ base + size / 2 := fun hle => hgt (hiff.mpr hle)
          apply ih
          all_goals omega
      · rw [Option.some.injEq]
        omega

/-- The search through a parted list looks at the last element that is not above. -/
theorem binarySearchBy_eq (h : Parted cmp below above) (hne : below ++ above ≠ []) :
  binarySearchBy cmp (below ++ above)
    = (below ++ above)[below.length - 1]?.map fun a =>
        if cmp a = .eq then .ok (below.length - 1)
        else .error (if cmp a = .lt then below.length - 1 + 1 else below.length - 1)
  := by
  have hpos : 0 < (below ++ above).length := List.length_pos_of_ne_nil hne
  have hhalve : halve cmp (below ++ above) (below ++ above).length 0 (below ++ above).length
      = some (below.length - 1) := by
    apply halve_eq h
    · omega
    · exact hpos
    · omega
    · exact Or.inl rfl
    · simp
  rw [binarySearchBy, if_neg (by omega), hhalve, Option.bind_eq_bind, Option.bind_some]
  cases (below ++ above)[below.length - 1]? with
  | none => rfl
  | some a =>
      by_cases heq : cmp a = .eq
      · simp [heq]
      · simp [heq]

/-- An equal element between smaller and greater ones is found. -/
theorem binarySearchBy_found {a : α} (hbelow : ∀ b ∈ below, cmp b = .lt) (ha : cmp a = .eq)
    (habove : ∀ b ∈ above, cmp b = .gt) :
  binarySearchBy cmp (below ++ a :: above) = some (.ok below.length)
  := by
  have hparted : Parted cmp (below ++ [a]) above := by
    constructor
    · intro b hb
      rcases List.mem_append.mp hb with hb | hb
      · rw [hbelow b hb]
        decide
      · rw [List.mem_singleton.mp hb, ha]
        decide
    · exact habove
  have hsplit : below ++ a :: above = (below ++ [a]) ++ above := by simp
  rw [hsplit, binarySearchBy_eq hparted (by simp)]
  simp [ha]

/-- Between the smaller and the greater elements an equal one would be inserted. -/
theorem binarySearchBy_missing (hbelow : ∀ b ∈ below, cmp b = .lt)
    (habove : ∀ b ∈ above, cmp b = .gt) :
  binarySearchBy cmp (below ++ above) = some (.error below.length)
  := by
  have hparted : Parted cmp below above := by
    constructor
    · intro b hb
      rw [hbelow b hb]
      decide
    · exact habove
  rcases List.eq_nil_or_concat below with rfl | ⟨front, a, rfl⟩
  · cases above with
    | nil => rfl
    | cons a above =>
        rw [binarySearchBy_eq hparted (by simp)]
        simp [habove a List.mem_cons_self]
  · rw [binarySearchBy_eq hparted (by simp)]
    simp [hbelow a (by simp)]

end Search

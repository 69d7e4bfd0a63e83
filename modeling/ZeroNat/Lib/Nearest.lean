import Mathlib.Data.List.Basic
import Mathlib.Data.List.MinMax
import Mathlib.Order.Basic

/-!
# The nearest entries

The first entries of a list in the order of a key: nothing outside of them is nearer than one of
them, and fewer entries than were taken are nearer than one of them.  The nearest entry, which is
the first one among equals, is the nearest of every part of the list that it is in.
-/

namespace List

variable {α κ : Type} [LinearOrder κ] {key : α → κ} {l : List α} {n : ℕ} {a b : α}

/-- What is left out of the first entries is not nearer than one of them. -/
theorem le_of_mem_take_of_notMem_take (hl : l.Pairwise fun a b => key a ≤ key b)
    (ha : a ∈ l.take n) (hb : b ∈ l) (hout : b ∉ l.take n) :
  key a ≤ key b
  := by
  rw [← take_append_drop n l] at hb hl
  obtain hb | hb := mem_append.mp hb
  · exact absurd hb hout
  · exact (pairwise_append.mp hl).2.2 a ha b hb

/-- Fewer entries than were taken are nearer than one of them. -/
theorem length_filter_lt_of_mem_take (hl : l.Pairwise fun a b => key a ≤ key b)
    (ha : a ∈ l.take n) :
  (l.filter fun b => key b < key a).length < n
  := by
  have hdrop : (l.drop n).filter (fun b => key b < key a) = [] := by
    rw [filter_eq_nil_iff]
    intro b hb hlt
    rw [← take_append_drop n l] at hl
    have hle := (pairwise_append.mp hl).2.2 a ha b hb
    exact absurd (of_decide_eq_true hlt) (not_lt.mpr hle)
  have htake : ((l.take n).filter fun b => key b < key a).length < (l.take n).length := by
    apply length_filter_lt_length_iff_exists.mpr
    exact ⟨a, ha, by simp⟩
  calc (l.filter fun b => key b < key a).length
      = ((l.take n).filter fun b => key b < key a).length := by
        rw [← congrArg (List.filter _) (take_append_drop n l), filter_append, hdrop, append_nil]
    _ < (l.take n).length := htake
    _ ≤ n := length_take_le n l

/-! ### The nearest entry -/

/-- The nearest entry is the nearest of the part that it is in. -/
theorem argmin_filter_eq_some {p : α → Bool} (h : l.argmin key = some a) (hp : p a = true) :
  (l.filter p).argmin key = some a
  := by
  induction l using List.reverseRecOn generalizing a with
  | nil => simp at h
  | append_singleton l b ih =>
      rw [argmin_concat] at h
      rw [filter_append]
      cases hl : l.argmin key with
      | none =>
          rw [argmin_eq_none.mp hl]
          rw [hl] at h
          obtain rfl : b = a := Option.some.inj h
          rw [filter_cons_of_pos hp]
          rfl
      | some c =>
          rw [hl] at h
          dsimp only at h
          split at h
          · rename_i hlt
            obtain rfl : b = a := Option.some.inj h
            rw [filter_cons_of_pos hp, filter_nil, argmin_concat]
            cases hrest : (l.filter p).argmin key with
            | none => rfl
            | some d =>
                have hd := le_of_mem_argmin (mem_of_mem_filter (argmin_mem hrest)) hl
                exact if_pos (lt_of_lt_of_le hlt hd)
          · rename_i hlt
            obtain rfl : c = a := Option.some.inj h
            have hrest := ih hl hp
            cases hb : p b with
            | false => rw [filter_cons_of_neg (by simp [hb]), filter_nil, append_nil, hrest]
            | true =>
                rw [filter_cons_of_pos hb, filter_nil, argmin_concat, hrest]
                exact if_neg hlt

/-- The nearest entry is in the front of a list that has an entry as near there. -/
theorem mem_front_of_argmin {front : List α} (h : (front ++ l).argmin key = some a)
    (hb : b ∈ front) (hle : key b ≤ key a) :
  a ∈ front
  := by
  classical
  by_contra hnot
  have hidx := index_of_argmin h (mem_append_left l hb) hle
  rw [idxOf_append_of_notMem hnot, idxOf_append_of_mem hb] at hidx
  have hlt := idxOf_lt_length_of_mem hb
  omega

/-- The nearest entry of an image. -/
theorem argmin_map {β : Type} (g : β → α) (l : List β) :
  (l.map g).argmin key = (l.argmin fun x => key (g x)).map g
  := by
  induction l using List.reverseRecOn with
  | nil => rfl
  | append_singleton l b ih =>
      rw [map_append, map_singleton, argmin_concat, argmin_concat, ih]
      cases l.argmin fun x => key (g x) with
      | none => rfl
      | some c =>
          by_cases hlt : key (g b) < key (g c)
          · simp [hlt]
          · simp [hlt]

end List

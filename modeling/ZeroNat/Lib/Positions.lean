import Mathlib.Data.List.Basic
import Mathlib.Data.List.Induction

/-!
# Elements by position

The elements of a list at some of its positions, in their order.  To erase positions one by
one, the last one first, leaves the elements at the others.
-/

variable {α : Type}

/-- The elements at the positions that satisfy `p`. -/
def keepAt (p : ℕ → Bool) (l : List α) : List α :=
  (l.zipIdx.filter fun x => p x.2).map Prod.fst

section

variable {p : ℕ → Bool} {l : List α} {a : α}

theorem keepAt_append_singleton (p : ℕ → Bool) (l : List α) (a : α) :
  keepAt p (l ++ [a]) = keepAt p l ++ if p l.length then [a] else []
  := by
  rw [keepAt, List.zipIdx_append, List.filter_append, List.map_append, List.zipIdx_singleton,
    List.filter_singleton, Nat.zero_add]
  cases p l.length with
  | false => rfl
  | true => rfl

theorem mem_keepAt :
  a ∈ keepAt p l ↔ ∃ n, l[n]? = some a ∧ p n = true
  := by
  rw [keepAt, List.mem_map]
  constructor
  · rintro ⟨⟨b, n⟩, hmem, rfl⟩
    rw [List.mem_filter, List.mem_zipIdx_iff_getElem?] at hmem
    exact ⟨n, hmem⟩
  · rintro ⟨n, hn, hp⟩
    exact ⟨(a, n), List.mem_filter.mpr ⟨List.mem_zipIdx_iff_getElem?.mpr hn, hp⟩, rfl⟩

theorem keepAt_true (l : List α) :
  keepAt (fun _ => true) l = l
  := by
  rw [keepAt, List.filter_true, List.zipIdx_map_fst]

theorem count_keepAt [BEq α] (p : ℕ → Bool) (l : List α) (a : α) :
  (keepAt p l).count a = l.zipIdx.countP fun x => x.1 == a && p x.2
  := by
  rw [keepAt, List.count, List.countP_map, List.countP_filter]
  rfl

/-- Where the positions are those of the elements that satisfy a predicate, the list is
filtered. -/
theorem keepAt_eq_filter {q : α → Bool} (h : ∀ n a, l[n]? = some a → p n = q a) :
  keepAt p l = l.filter q
  := by
  induction l using List.reverseRecOn with
  | nil => rfl
  | append_singleton l a ih =>
      have hlast : p l.length = q a := h l.length a (by simp)
      have hfront : ∀ n b, l[n]? = some b → p n = q b := by
        intro n b hn
        have hlt : n < l.length := (List.getElem?_eq_some_iff.mp hn).1
        exact h n b (by rw [List.getElem?_append_left hlt, hn])
      rw [keepAt_append_singleton, ih hfront, List.filter_append, List.filter_singleton, hlast]
      cases q a with
      | false => rfl
      | true => rfl

/-- Positions are erased the last one first. -/
theorem foldl_eraseIdx_append (p : ℕ → Bool) (l tail : List α) :
  ((List.range l.length).filter p).reverse.foldl (fun l n => l.eraseIdx n) (l ++ tail)
    = keepAt (fun n => !p n) l ++ tail
  := by
  induction l using List.reverseRecOn generalizing tail with
  | nil => rfl
  | append_singleton l a ih =>
      rw [List.length_append, List.length_singleton, List.range_succ, List.filter_append,
        List.reverse_append, List.filter_singleton, keepAt_append_singleton, List.foldl_append]
      cases hp : p l.length with
      | false =>
          have hrest := ih (a :: tail)
          simpa using hrest
      | true =>
          have herase : (l ++ [a] ++ tail).eraseIdx l.length = l ++ tail := by
            rw [List.append_assoc, List.eraseIdx_append_of_length_le (Nat.le_refl _)]
            simp
          simp only [cond_true, List.reverse_singleton, List.foldl_cons, List.foldl_nil, herase, ih,
            Bool.not_true, Bool.false_eq_true, if_false, List.append_nil]

theorem foldl_eraseIdx (p : ℕ → Bool) (l : List α) :
  ((List.range l.length).filter p).reverse.foldl (fun l n => l.eraseIdx n) l
    = keepAt (fun n => !p n) l
  := by
  have h := foldl_eraseIdx_append p l []
  rwa [List.append_nil, List.append_nil] at h

end

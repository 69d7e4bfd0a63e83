import ZeroNat.Dht.Bencode
import ZeroNat.Lib.Checked
import ZeroNat.Lib.Search

/-!
# Dictionaries

The entries of a dictionary are a vector that is kept sorted by key.  The source finds a key by
binary search and writes at the index it gets.  On sorted entries this never leaves the vector,
and gives what a walk along the entries gives.
-/

namespace ZeroNat.Dht.Dict

/-- The entries are sorted by key, and no key is repeated. -/
def Sorted (d : Dict) : Prop :=
  d.Pairwise fun e e' => e.1 < e'.1

/-- The order of the key of an entry relative to a key. -/
def order (key : List UInt8) (e : List UInt8 × Ben) : Ordering :=
  compareOfLessAndEq e.1 key

/-- Set a key at the place the binary search gives. -/
def insert? (key : List UInt8) (value : Ben) (d : Dict) : Option Dict :=
  (Search.binarySearchBy (order key) d).bind fun found =>
    match found with
    | .ok i => (Checked.index d i).bind fun e => Checked.set d i (e.1, value)
    | .error i => if i ≤ d.length then some (d.insertIdx i (key, value)) else none

/-- The value at the place the binary search gives. -/
def get? (key : List UInt8) (d : Dict) : Option (Option Ben) :=
  (Search.binarySearchBy (order key) d).bind fun found =>
    match found with
    | .ok i => (Checked.index d i).map fun e => some e.2
    | .error _ => some none

/-! ### Keys -/

theorem key_trans {a b c : List UInt8} (h : a < b) (h' : b < c) :
  a < c
  := List.lt_trans h h'

theorem key_ne {a b : List UInt8} (h : a < b) :
  a ≠ b
  := by
  rintro rfl
  exact List.lt_irrefl a h

theorem key_lt {a b : List UInt8} (hne : a ≠ b) (h : ¬ a < b) :
  b < a
  := Std.lt_of_le_of_ne (List.not_lt.mp h) (Ne.symm hne)

theorem order_of_lt {key : List UInt8} {e : List UInt8 × Ben} (h : e.1 < key) :
  order key e = .lt
  := by
  rw [order, compareOfLessAndEq, if_pos h]

theorem order_of_eq {key : List UInt8} {e : List UInt8 × Ben} (h : e.1 = key) :
  order key e = .eq
  := by
  rw [order, compareOfLessAndEq, if_neg (by rw [h]; exact List.lt_irrefl _), if_pos h]

theorem order_of_gt {key : List UInt8} {e : List UInt8 × Ben} (h : key < e.1) :
  order key e = .gt
  := by
  have hlt : ¬ e.1 < key := fun hlt => List.lt_irrefl _ (key_trans h hlt)
  rw [order, compareOfLessAndEq, if_neg hlt, if_neg (Ne.symm (key_ne h))]

/-! ### The binary search and the walk -/

/-- Sorted entries around the place of a key. -/
theorem Sorted.cut {d : Dict} (hd : Sorted d) (key : List UInt8) :
  ∃ below above : Dict, (∀ e ∈ below, e.1 < key) ∧ (∀ e ∈ above, key < e.1)
    ∧ (d = below ++ above ∨ ∃ v, d = below ++ (key, v) :: above)
  := by
  induction d with
  | nil => exact ⟨[], [], by simp, by simp, Or.inl rfl⟩
  | cons e d ih =>
      obtain ⟨hhead, htail⟩ := List.pairwise_cons.mp hd
      by_cases hlt : e.1 < key
      · obtain ⟨below, above, hbelow, habove, hsplit⟩ := ih htail
        refine ⟨e :: below, above, ?_, habove, ?_⟩
        · simp only [List.mem_cons, forall_eq_or_imp]
          exact ⟨hlt, hbelow⟩
        · rcases hsplit with hsplit | ⟨v, hsplit⟩
          · exact Or.inl (by rw [hsplit, List.cons_append])
          · exact Or.inr ⟨v, by rw [hsplit, List.cons_append]⟩
      · by_cases heq : e.1 = key
        · refine ⟨[], d, by simp, ?_, Or.inr ⟨e.2, by rw [← heq, List.nil_append]⟩⟩
          intro e' he'
          rw [← heq]
          exact hhead e' he'
        · have hgt : key < e.1 := key_lt heq hlt
          refine ⟨[], e :: d, by simp, ?_, Or.inl rfl⟩
          simp only [List.mem_cons, forall_eq_or_imp]
          exact ⟨hgt, fun e' he' => key_trans hgt (hhead e' he')⟩

/-- The walk passes the entries of the smaller keys. -/
theorem insert_append {key : List UInt8} {value : Ben} {below : Dict}
    (hbelow : ∀ e ∈ below, e.1 < key) (above : Dict) :
  insert key value (below ++ above) = below ++ insert key value above
  := by
  induction below with
  | nil => rfl
  | cons e below ih =>
      have hlt : e.1 < key := hbelow e List.mem_cons_self
      have hgt : ¬ key < e.1 := fun hgt => List.lt_irrefl _ (key_trans hlt hgt)
      rw [List.cons_append, insert, if_neg (key_ne hlt), if_neg hgt,
        ih fun e' he' => hbelow e' (List.mem_cons_of_mem e he'), List.cons_append]

theorem insert_found (key : List UInt8) (value v : Ben) (above : Dict) :
  insert key value ((key, v) :: above) = (key, value) :: above
  := by
  rw [insert, if_pos rfl]

theorem insert_missing {key : List UInt8} {value : Ben} {above : Dict}
    (habove : ∀ e ∈ above, key < e.1) :
  insert key value above = (key, value) :: above
  := by
  cases above with
  | nil => rfl
  | cons e above =>
      have hgt : key < e.1 := habove e List.mem_cons_self
      rw [insert, if_neg (Ne.symm (key_ne hgt)), if_pos hgt]

theorem value?_append {key : List UInt8} {below : Dict} (hbelow : ∀ e ∈ below, e.1 ≠ key)
    (above : Dict) :
  value? key (below ++ above) = value? key above
  := by
  have hfind : List.find? (fun e => decide (e.1 = key)) below = none := by
    apply List.find?_eq_none.mpr
    intro e he
    simpa using hbelow e he
  rw [value?, value?, List.find?_append, hfind, Option.none_or]

theorem value?_none {key : List UInt8} {d : Dict} (h : ∀ e ∈ d, e.1 ≠ key) :
  value? key d = none
  := by
  have happend := value?_append h []
  rw [List.append_nil] at happend
  exact happend

theorem insertIdx_length (below above : Dict) (e : List UInt8 × Ben) :
  (below ++ above).insertIdx below.length e = below ++ e :: above
  := by
  induction below with
  | nil => rfl
  | cons e' below ih =>
      rw [List.cons_append, List.length_cons, List.insertIdx_succ_cons, ih, List.cons_append]

/-- On sorted entries the binary search leads to the place where the walk sets the key. -/
theorem insert?_eq {d : Dict} (hd : Sorted d) (key : List UInt8) (value : Ben) :
  insert? key value d = some (insert key value d)
  := by
  obtain ⟨below, above, hbelow, habove, hsplit⟩ := hd.cut key
  have hlt : ∀ e ∈ below, order key e = .lt := fun e he => order_of_lt (hbelow e he)
  have hgt : ∀ e ∈ above, order key e = .gt := fun e he => order_of_gt (habove e he)
  rcases hsplit with rfl | ⟨v, rfl⟩
  · rw [insert?, Search.binarySearchBy_missing hlt hgt, insert_append hbelow,
      insert_missing habove]
    simpa using insertIdx_length below above (key, value)
  · rw [insert?, Search.binarySearchBy_found hlt (order_of_eq rfl) hgt, insert_append hbelow,
      insert_found]
    simp [Checked.index, Checked.set]

/-- On sorted entries the binary search finds what the walk finds. -/
theorem get?_eq {d : Dict} (hd : Sorted d) (key : List UInt8) :
  get? key d = some (value? key d)
  := by
  obtain ⟨below, above, hbelow, habove, hsplit⟩ := hd.cut key
  have hlt : ∀ e ∈ below, order key e = .lt := fun e he => order_of_lt (hbelow e he)
  have hgt : ∀ e ∈ above, order key e = .gt := fun e he => order_of_gt (habove e he)
  have hne : ∀ e ∈ below, e.1 ≠ key := fun e he => key_ne (hbelow e he)
  rcases hsplit with rfl | ⟨v, rfl⟩
  · rw [get?, Search.binarySearchBy_missing hlt hgt, value?_append hne,
      value?_none fun e he => Ne.symm (key_ne (habove e he))]
    rfl
  · rw [get?, Search.binarySearchBy_found hlt (order_of_eq rfl) hgt, value?_append hne]
    simp [Checked.index, value?]

/-! ### Dictionaries as maps -/

/-- Setting a key keeps the entries sorted. -/
theorem Sorted.insert {d : Dict} (hd : Sorted d) (key : List UInt8) (value : Ben) :
  Sorted (Dict.insert key value d)
  := by
  obtain ⟨below, above, hbelow, habove, hsplit⟩ := hd.cut key
  -- A sorted list stays sorted around the key, whether it was there or not.
  have hsorted : ∀ v : Ben, Sorted below → Sorted above → Sorted (below ++ (key, v) :: above) := by
    intro v hfront hback
    apply List.pairwise_append.mpr
    refine ⟨hfront, List.pairwise_cons.mpr ⟨habove, hback⟩, ?_⟩
    intro e he e' he'
    rcases List.mem_cons.mp he' with rfl | he'
    · exact hbelow e he
    · exact key_trans (hbelow e he) (habove e' he')
  rcases hsplit with rfl | ⟨v, rfl⟩
  · obtain ⟨hfront, hback, -⟩ := List.pairwise_append.mp hd
    rw [insert_append hbelow, insert_missing habove]
    exact hsorted value hfront hback
  · obtain ⟨hfront, hback, -⟩ := List.pairwise_append.mp hd
    rw [insert_append hbelow, insert_found]
    exact hsorted value hfront (List.pairwise_cons.mp hback).2

/-- Setting a key changes the value of this key. -/
theorem value?_insert (k key : List UInt8) (value : Ben) (d : Dict) :
  value? k (insert key value d) = if key = k then some value else value? k d
  := by
  induction d with
  | nil => by_cases h : key = k <;> simp [insert, value?, h]
  | cons e d ih =>
      rw [insert]
      split
      · rename_i heq
        subst heq
        by_cases h : e.1 = k
        · simp [value?, h]
        · simp [value?, h]
      · split
        · by_cases h : key = k
          · simp [value?, h]
          · simp [value?, h]
        · rename_i hne hlt
          by_cases h : e.1 = k
          · have hne' : key ≠ k := fun heq => hne (h.trans heq.symm)
            simp [value?, h, hne']
          · simpa [value?, h] using ih

/-- The entries read one after the other into a dictionary: the last value of a key wins. -/
theorem value?_foldl_insert (k : List UInt8) (pairs d : Dict) :
  value? k (pairs.foldl (fun d e => insert e.1 e.2 d) d)
    = (value? k pairs.reverse).or (value? k d)
  := by
  induction pairs generalizing d with
  | nil => rfl
  | cons e pairs ih =>
      rw [List.foldl_cons, ih, value?_insert, List.reverse_cons]
      unfold value?
      rw [List.find?_append]
      cases List.find? (fun e => decide (e.1 = k)) pairs.reverse with
      | none => by_cases h : e.1 = k <;> simp [h]
      | some e' => rfl

theorem Sorted.foldl_insert {d : Dict} (hd : Sorted d) (pairs : Dict) :
  Sorted (pairs.foldl (fun d e => Dict.insert e.1 e.2 d) d)
  := by
  induction pairs generalizing d with
  | nil => exact hd
  | cons e pairs ih => exact ih (hd.insert e.1 e.2)

theorem Sorted.nil :
  Sorted []
  := List.Pairwise.nil

/-- The value of a key stands in one of the entries. -/
theorem mem_of_value? {k : List UInt8} {v : Ben} {d : Dict} (h : value? k d = some v) :
  (k, v) ∈ d
  := by
  obtain ⟨e, he, rfl⟩ := Option.map_eq_some_iff.mp h
  have hkey : e.1 = k := by simpa using List.find?_some he
  rw [← hkey]
  exact List.mem_of_find?_eq_some he

/-- No key is repeated. -/
def Distinct (d : Dict) : Prop :=
  d.Pairwise fun e e' => e.1 ≠ e'.1

theorem Sorted.distinct {d : Dict} (hd : Sorted d) :
  Distinct d
  := List.Pairwise.imp key_ne hd

theorem Distinct.reverse {d : Dict} (hd : Distinct d) :
  Distinct d.reverse
  := List.pairwise_reverse.mpr (List.Pairwise.imp Ne.symm hd)

/-- Where no key is repeated the entries are the values of the keys. -/
theorem Distinct.mem_iff {d : Dict} (hd : Distinct d) (k : List UInt8) (v : Ben) :
  (k, v) ∈ d ↔ value? k d = some v
  := by
  constructor
  · intro h
    obtain ⟨below, above, rfl⟩ := List.append_of_mem h
    obtain ⟨-, -, hcross⟩ := List.pairwise_append.mp hd
    have hne : ∀ e ∈ below, e.1 ≠ k := by
      intro e he
      exact hcross e he (k, v) List.mem_cons_self
    rw [value?_append hne]
    simp [value?]
  · exact mem_of_value?

/-- Where no key is repeated the first value of a key is the last one. -/
theorem Distinct.value?_reverse {d : Dict} (hd : Distinct d) (k : List UInt8) :
  value? k d.reverse = value? k d
  := by
  apply Option.ext
  intro v
  rw [← hd.reverse.mem_iff, ← hd.mem_iff, List.mem_reverse]

theorem Distinct.nodup {d : Dict} (hd : Distinct d) :
  d.Nodup
  := by
  apply List.Pairwise.imp _ hd
  intro e e' hne heq
  exact hne (congrArg Prod.fst heq)

/-- A sorted dictionary is determined by the values of its keys. -/
theorem Sorted.ext {d d' : Dict} (hd : Sorted d) (hd' : Sorted d')
    (h : ∀ k, value? k d = value? k d') :
  d = d'
  := by
  have hperm : d.Perm d' := by
    apply (List.perm_ext_iff_of_nodup hd.distinct.nodup hd'.distinct.nodup).mpr
    rintro ⟨k, v⟩
    rw [hd.distinct.mem_iff, hd'.distinct.mem_iff, h]
  apply hperm.eq_of_pairwise _ hd hd'
  intro e e' _ _ hlt hgt
  exact absurd (key_trans hlt hgt) (List.lt_irrefl e.1)

end ZeroNat.Dht.Dict

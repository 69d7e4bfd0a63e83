import Mathlib.Computability.Language
import ZeroNat.Lib.BigEndian

/-!
# Layouts of data

A language is prefix-free when none of its words continues another.  Such languages are
closed under concatenation, also when the second part depends on what the first one spells.
A layout describes data in bytes whose extent can be told from the front: fields of fixed
size, length-prefixed strings, counted lists, and alternatives chosen by a byte.  The words
of every layout are prefix-free.
-/

open BigEndian

namespace Language

variable {β : Type}

/-- No word of the language continues another. -/
def PrefixFree (L : Language β) : Prop :=
  ∀ x ∈ L, ∀ y ∈ L, x <+: y → x = y

/-- The words of a given length. -/
def ofLength (n : ℕ) : Language β :=
  {x : List β | x.length = n}

/-- A word of `L` followed by a word of the language it selects. -/
def select (L : Language β) (M : List β → Language β) : Language β :=
  {z : List β | ∃ x ∈ L, ∃ y ∈ M x, x ++ y = z}

theorem mem_ofLength {n : ℕ} {x : List β} :
  x ∈ ofLength n ↔ x.length = n
  := Iff.rfl

theorem append_mem_select {L : Language β} {M : List β → Language β} {x y : List β}
    (hx : x ∈ L) (hy : y ∈ M x) :
  x ++ y ∈ select L M
  := ⟨x, hx, y, hy, rfl⟩

/-- Words that start with words of a prefix-free language start with the same one when one
of them continues the other. -/
theorem PrefixFree.cut {L : Language β} (h : L.PrefixFree) {x x' y y' : List β}
    (hx : x ∈ L) (hx' : x' ∈ L) (hfront : x ++ y <+: x' ++ y') :
  x = x' ∧ y <+: y'
  := by
  have heq : x = x' := by
    have hleft : x <+: x' ++ y' := (List.prefix_append x y).trans hfront
    obtain hle | hle := List.prefix_or_prefix_of_prefix hleft (List.prefix_append x' y')
    · exact h x hx x' hx' hle
    · exact (h x' hx' x hx hle).symm
  subst heq
  exact ⟨rfl, (List.prefix_append_right_inj x).mp hfront⟩

theorem PrefixFree.one :
  (1 : Language β).PrefixFree
  := by
  intro x hx y hy _
  rw [mem_one] at hx hy
  rw [hx, hy]

theorem PrefixFree.ofLength (n : ℕ) :
  (ofLength n : Language β).PrefixFree
  := by
  intro x hx y hy hfront
  exact hfront.eq_of_length (hx.trans hy.symm)

theorem PrefixFree.select {L : Language β} {M : List β → Language β} (hL : L.PrefixFree)
    (hM : ∀ x ∈ L, (M x).PrefixFree) :
  (select L M).PrefixFree
  := by
  rintro _ ⟨x, hx, y, hy, rfl⟩ _ ⟨x', hx', y', hy', rfl⟩ hfront
  obtain ⟨rfl, hrest⟩ := hL.cut hx hx' hfront
  rw [hM x hx y hy y' hy' hrest]

theorem PrefixFree.mul {L M : Language β} (hL : L.PrefixFree) (hM : M.PrefixFree) :
  (L * M).PrefixFree
  := hL.select fun _ _ => hM

theorem PrefixFree.pow {L : Language β} (h : L.PrefixFree) (n : ℕ) :
  (L ^ n).PrefixFree
  := by
  induction n with
  | zero =>
      rw [pow_zero]
      exact PrefixFree.one
  | succ n ih =>
      rw [pow_succ]
      exact ih.mul h

/-- The spellings of the entries of a list, one after another. -/
theorem flatMap_mem_pow {α : Type} {L : Language β} {put : α → List β} {l : List α}
    (h : ∀ a ∈ l, put a ∈ L) :
  l.flatMap put ∈ L ^ l.length
  := by
  rw [mem_pow]
  refine ⟨l.map put, List.flatMap_def, by simp, ?_⟩
  intro x hx
  obtain ⟨a, ha, rfl⟩ := List.mem_map.mp hx
  exact h a ha

end Language

/-- How data are laid out in bytes. -/
inductive Layout : Type where
  | fixed (n : ℕ)
  | seq (a b : Layout)
  | sized (width : ℕ)
  | counted (width : ℕ) (entry : Layout)
  | chosen (arm : UInt8 → Layout)

namespace Layout

/-- The data of a layout.  A string is preceded by its length and a list by its count, both
big-endian; a byte chooses the layout of what follows it. -/
def words : Layout → Language UInt8
  | fixed n => Language.ofLength n
  | seq a b => a.words * b.words
  | sized width => (Language.ofLength width).select fun x => Language.ofLength (ofBe x)
  | counted width entry => (Language.ofLength width).select fun x => entry.words ^ ofBe x
  | chosen arm => (Language.ofLength 1).select fun x => (arm (x.headD 0)).words

theorem fixed_mem {n : ℕ} {x : List UInt8} (h : x.length = n) :
  x ∈ (fixed n).words
  := h

theorem seq_mem {a b : Layout} {x y : List UInt8} (hx : x ∈ a.words) (hy : y ∈ b.words) :
  x ++ y ∈ (seq a b).words
  := Language.append_mem_mul hx hy

theorem sized_mem {width : ℕ} {x : List UInt8} (h : x.length < 256 ^ width) :
  toBe width x.length ++ x ∈ (sized width).words
  := by
  apply Language.append_mem_select (length_toBe width x.length)
  rw [Language.mem_ofLength, ofBe_toBe_of_lt h]

theorem counted_mem {α : Type} {width : ℕ} {entry : Layout} {put : α → List UInt8} {l : List α}
    (h : l.length < 256 ^ width) (hput : ∀ a ∈ l, put a ∈ entry.words) :
  toBe width l.length ++ l.flatMap put ∈ (counted width entry).words
  := by
  apply Language.append_mem_select (length_toBe width l.length)
  rw [ofBe_toBe_of_lt h]
  exact Language.flatMap_mem_pow hput

theorem chosen_mem {arm : UInt8 → Layout} {b : UInt8} {x : List UInt8} (h : x ∈ (arm b).words) :
  b :: x ∈ (chosen arm).words
  := Language.append_mem_select (x := [b]) rfl h

/-- The extent of data can be told from the front. -/
theorem prefixFree (a : Layout) :
  a.words.PrefixFree
  := by
  induction a with
  | fixed n => exact Language.PrefixFree.ofLength n
  | seq a b iha ihb => exact iha.mul ihb
  | sized width =>
      exact (Language.PrefixFree.ofLength width).select fun _ _ => Language.PrefixFree.ofLength _
  | counted width entry ih =>
      exact (Language.PrefixFree.ofLength width).select fun _ _ => ih.pow _
  | chosen arm ih => exact (Language.PrefixFree.ofLength 1).select fun _ _ => ih _

end Layout

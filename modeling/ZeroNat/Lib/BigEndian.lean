import Mathlib.Tactic
import Mathlib.Data.List.Basic

/-!
# Big-endian words

`toBe w n` spells `n` in `w` bytes, most significant first, and `ofBe` reads a list of
bytes back as a number.  Reading undoes spelling up to reduction modulo `256 ^ w`, and
spelling at the length of the list undoes reading.
-/

namespace BigEndian

/-- The `w` low-order bytes of `n`, most significant first. -/
def toBe : ℕ → ℕ → List UInt8
  | 0, _ => []
  | w + 1, n => toBe w (n / 256) ++ [UInt8.ofNat n]

/-- The number a list of bytes spells, most significant first. -/
def ofBe (l : List UInt8) : ℕ :=
  l.foldl (fun n b => 256 * n + b.toNat) 0

@[simp]
theorem length_toBe (w n : ℕ) :
  (toBe w n).length = w
  := by
  induction w generalizing n with
  | zero => rfl
  | succ w ih => simp [toBe, ih]

theorem ofBe_concat (l : List UInt8) (b : UInt8) :
  ofBe (l ++ [b]) = 256 * ofBe l + b.toNat
  := by
  simp [ofBe]

theorem toNat_ofNat (n : ℕ) :
  (UInt8.ofNat n).toNat = n % 256
  := UInt8.toNat_ofNat'

/-- Reading the spelling of `n` in `w` bytes gives `n` modulo `256 ^ w`. -/
theorem ofBe_toBe (w n : ℕ) :
  ofBe (toBe w n) = n % 256 ^ w
  := by
  induction w generalizing n with
  | zero => simp [toBe, ofBe, Nat.mod_one]
  | succ w ih =>
      rw [toBe, ofBe_concat, ih, toNat_ofNat, pow_succ', Nat.mod_mul]
      apply Nat.add_comm

theorem ofBe_toBe_of_lt {w n : ℕ} (h : n < 256 ^ w) :
  ofBe (toBe w n) = n
  := by
  rw [ofBe_toBe, Nat.mod_eq_of_lt h]

/-- Spelling what a list of bytes reads as, at the length of the list, gives the list. -/
theorem toBe_ofBe (l : List UInt8) :
  toBe l.length (ofBe l) = l
  := by
  induction l using List.reverseRecOn with
  | nil => rfl
  | append_singleton l b ih =>
      have hb : b.toNat < 256 := b.toNat_lt
      have hdiv : (256 * ofBe l + b.toNat) / 256 = ofBe l := by omega
      have hmod : UInt8.ofNat (256 * ofBe l + b.toNat) = b := by
        apply UInt8.toNat_inj.mp
        rw [toNat_ofNat]
        omega
      rw [List.length_append, List.length_singleton, toBe, ofBe_concat, hdiv, ih, hmod]

/-- A list of `w` bytes reads as a number below `256 ^ w`. -/
theorem ofBe_lt {w : ℕ} {l : List UInt8} (h : l.length = w) :
  ofBe l < 256 ^ w
  := by
  have hl := ofBe_toBe l.length (ofBe l)
  rw [toBe_ofBe] at hl
  rw [hl, ← h]
  apply Nat.mod_lt
  positivity

end BigEndian

import Mathlib.Data.Nat.ModEq
import Mathlib.Tactic.Ring
import ZeroNat.Lib.BigEndian

/-!
# One's-complement sums of bytes

The sum of the 16-bit words of a byte string, without the carries being folded back: a byte at
an even position counts 256 times.  Two sums are the same in one's-complement arithmetic when
they agree modulo 65535.
-/

namespace Checksum

open BigEndian

/-- The sum of the bytes of a list, the first one as the high byte of a word or as the low
one. -/
def total (high : Bool) : List UInt8 → ℕ
  | [] => 0
  | b :: l => (if high then 256 * b.toNat else b.toNat) + total (!high) l

/-- Whether the position after a list is that of a high byte. -/
def after (high : Bool) (n : ℕ) : Bool :=
  if n % 2 = 0 then high else !high

theorem total_append (high : Bool) (l m : List UInt8) :
  total high (l ++ m) = total high l + total (after high l.length) m
  := by
  induction l generalizing high with
  | nil => simp [total, after]
  | cons b l ih =>
      have hafter : after (!high) l.length = after high (l.length + 1) := by
        simp only [after]
        by_cases h : l.length % 2 = 0
        · rw [if_pos h, if_neg (by omega)]
        · rw [if_neg h, if_pos (by omega), Bool.not_not]
      rw [List.cons_append, total, total, ih, hafter, List.length_cons, Nat.add_assoc]

/-- Two bytes put in place of two others. -/
def put (l : List UInt8) (p : ℕ) (bs : List UInt8) : List UInt8 :=
  l.take p ++ bs ++ l.drop (p + 2)

section Put

variable {l bs : List UInt8} {p : ℕ}

theorem length_put (hp : p + 2 ≤ l.length) (hbs : bs.length = 2) :
  (put l p bs).length = l.length
  := by
  simp only [put, List.length_append, List.length_take, List.length_drop, hbs]
  omega

/-- The bytes in other places are as they were. -/
theorem getElem?_put_of_ne (hp : p + 2 ≤ l.length) (hbs : bs.length = 2) {j : ℕ}
    (hj : j ≠ p ∧ j ≠ p + 1) :
  (put l p bs)[j]? = l[j]?
  := by
  have htake : (l.take p).length = p := by
    rw [List.length_take]
    omega
  by_cases hlow : j < p
  · rw [put, List.append_assoc, List.getElem?_append_left (by omega),
      List.getElem?_take_of_lt hlow]
  · rw [put, List.getElem?_append_right (by simp only [List.length_append, htake, hbs]; omega),
      List.getElem?_drop]
    congr 1
    simp only [List.length_append, htake, hbs]
    omega

theorem take_drop_put (hp : p + 2 ≤ l.length) (hbs : bs.length = 2) :
  ((put l p bs).drop p).take 2 = bs
  := by
  have htake : (l.take p).length = p := by
    rw [List.length_take]
    omega
  rw [put, List.append_assoc, List.drop_left' htake, List.take_left' hbs]

/-- Bytes that are put beside others. -/
theorem take_drop_put_of_ne (hp : p + 2 ≤ l.length) (hbs : bs.length = 2) {q : ℕ}
    (hq : q + 2 ≤ p ∨ p + 2 ≤ q) :
  ((put l p bs).drop q).take 2 = (l.drop q).take 2
  := by
  refine List.ext_getElem? fun k => ?_
  by_cases hk : k < 2
  · rw [List.getElem?_take_of_lt hk, List.getElem?_take_of_lt hk, List.getElem?_drop,
      List.getElem?_drop, getElem?_put_of_ne hp hbs ⟨by omega, by omega⟩]
  · rw [List.getElem?_take_eq_none (by omega), List.getElem?_take_eq_none (by omega)]

theorem take_put (hp : p + 2 ≤ l.length) (hbs : bs.length = 2) {n : ℕ} (hn : p + 2 ≤ n) :
  (put l p bs).take n = put (l.take n) p bs
  := by
  have htake : (l.take p).length = p := by
    rw [List.length_take]
    omega
  rw [put, put, List.take_append, List.take_of_length_le (by simp [htake, hbs]; omega),
    List.take_take, Nat.min_eq_left (by omega), List.drop_take]
  simp only [List.length_append, htake, hbs]

/-- The sum changes by the difference of the bytes. -/
theorem total_put (high : Bool) (hp : p + 2 ≤ l.length) (hbs : bs.length = 2) :
  total high (put l p bs) + total (after high p) ((l.drop p).take 2)
    = total high l + total (after high p) bs
  := by
  have htake : (l.take p).length = p := by
    rw [List.length_take]
    omega
  have hl : l = l.take p ++ ((l.drop p).take 2 ++ l.drop (p + 2)) := by
    rw [← List.drop_drop, List.take_append_drop, List.take_append_drop]
  have htwo : ((l.drop p).take 2).length = 2 := by
    rw [List.length_take, List.length_drop]
    omega
  have hold : total high l = total high (l.take p) + (total (after high p) ((l.drop p).take 2)
      + total (after (after high p) 2) (l.drop (p + 2))) := by
    nth_rewrite 1 [hl]
    rw [total_append, htake, total_append, htwo]
  rw [hold, put, List.append_assoc, total_append, htake, total_append, hbs]
  omega

end Put

/-- A word counts 256 times as much when it straddles two words. -/
theorem total_pair (high : Bool) {bs : List UInt8} (h : bs.length = 2) :
  (total high bs) ≡ (if high then 1 else 256) * ofBe bs [MOD 65535]
  := by
  obtain ⟨a, b, rfl⟩ := List.length_eq_two.mp h
  have hbe : ofBe [a, b] = 256 * a.toNat + b.toNat := by
    simp [ofBe]
  cases high with
  | true =>
      simp only [total, hbe, if_true, Bool.not_true, Bool.false_eq_true, if_false, Nat.add_zero,
        Nat.one_mul]
      exact Nat.ModEq.refl _
  | false =>
      have hcarry : 256 * (256 * a.toNat + b.toNat)
          = 65535 * a.toNat + (a.toNat + 256 * b.toNat) := by
        ring
      simp only [total, hbe, Bool.false_eq_true, if_false, Bool.not_false, if_true, Nat.add_zero]
      rw [hcarry, Nat.ModEq, Nat.mul_add_mod]

/-- Fold the carries of a sum of two words back once. -/
theorem endAround {s : ℕ} :
  s % 2 ^ 16 + s / 2 ^ 16 ≡ s [MOD 65535]
  := by
  have h : 65535 * (s / 2 ^ 16) + (s % 2 ^ 16 + s / 2 ^ 16) = s := by
    have := Nat.div_add_mod s (2 ^ 16)
    omega
  calc s % 2 ^ 16 + s / 2 ^ 16
      ≡ 65535 * (s / 2 ^ 16) + (s % 2 ^ 16 + s / 2 ^ 16) [MOD 65535] := by
        rw [Nat.ModEq, Nat.mul_add_mod]
    _ = s := h

end Checksum

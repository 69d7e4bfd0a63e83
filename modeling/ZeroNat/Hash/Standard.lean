import Mathlib.Algebra.Ring.Nat
import Mathlib.Data.Nat.Sqrt
import Mathlib.Data.Fin.VecNotation
import Mathlib.Logic.Function.Basic

/-!
# The standards

BLAKE2s as RFC 7693 describes it and HMAC as RFC 2104 does, for a message that is given as a
whole.  Words are bit vectors and the state is a function of the position; nothing here is
taken from the program.
-/

namespace ZeroNat.Rfc7693

/-- The length of a block in bytes. -/
def bb : ℕ := 64

/-- The first eight primes. -/
def prime : Fin 8 → ℕ := ![2, 3, 5, 7, 11, 13, 17, 19]

/-- The initial values: the first 32 bits of the fractional parts of the square roots of the
first eight primes. -/
def IV (i : Fin 8) : BitVec 32 :=
  BitVec.ofNat 32 (Nat.sqrt (prime i * 2 ^ 64))

local instance neZero_lanes : NeZero 16 := ⟨by decide⟩

/-- The message schedule. -/
def SIGMA : Fin 10 → Fin 16 → Fin 16 :=
  ![![0, 1, 2, 3, 4, 5, 6, 7, 8, 9, 10, 11, 12, 13, 14, 15],
    ![14, 10, 4, 8, 9, 15, 13, 6, 1, 12, 0, 2, 11, 7, 5, 3],
    ![11, 8, 12, 0, 5, 2, 15, 13, 10, 14, 3, 6, 7, 1, 9, 4],
    ![7, 9, 3, 1, 13, 12, 11, 14, 2, 6, 5, 10, 4, 0, 15, 8],
    ![9, 0, 5, 7, 2, 4, 10, 15, 14, 1, 11, 12, 6, 8, 3, 13],
    ![2, 12, 6, 10, 0, 11, 8, 3, 4, 13, 7, 5, 15, 14, 1, 9],
    ![12, 5, 1, 15, 14, 13, 4, 10, 0, 7, 6, 3, 9, 2, 8, 11],
    ![13, 11, 7, 14, 12, 1, 3, 9, 5, 0, 15, 4, 8, 6, 2, 10],
    ![6, 15, 14, 9, 11, 3, 0, 8, 12, 2, 13, 7, 1, 4, 10, 5],
    ![10, 2, 8, 4, 7, 6, 1, 5, 15, 11, 9, 14, 3, 12, 13, 0]]

/-- The mixing function, with the rotations by 16, 12, 8 and 7. -/
def G (v : Fin 16 → BitVec 32) (a b c d : Fin 16) (x y : BitVec 32) : Fin 16 → BitVec 32 :=
  let v := Function.update v a (v a + v b + x)
  let v := Function.update v d ((v d ^^^ v a).rotateRight 16)
  let v := Function.update v c (v c + v d)
  let v := Function.update v b ((v b ^^^ v c).rotateRight 12)
  let v := Function.update v a (v a + v b + y)
  let v := Function.update v d ((v d ^^^ v a).rotateRight 8)
  let v := Function.update v c (v c + v d)
  Function.update v b ((v b ^^^ v c).rotateRight 7)

/-- One round: the columns, then the diagonals. -/
def mix (m : Fin 16 → BitVec 32) (v : Fin 16 → BitVec 32) (s : Fin 16 → Fin 16) :
    Fin 16 → BitVec 32 :=
  let v := G v 0 4 8 12 (m (s 0)) (m (s 1))
  let v := G v 1 5 9 13 (m (s 2)) (m (s 3))
  let v := G v 2 6 10 14 (m (s 4)) (m (s 5))
  let v := G v 3 7 11 15 (m (s 6)) (m (s 7))
  let v := G v 0 5 10 15 (m (s 8)) (m (s 9))
  let v := G v 1 6 11 12 (m (s 10)) (m (s 11))
  let v := G v 2 7 8 13 (m (s 12)) (m (s 13))
  G v 3 4 9 14 (m (s 14)) (m (s 15))

/-- The compression function for a block, the bytes of offset `t` and whether the block is the
last one. -/
def F (h : Fin 8 → BitVec 32) (m : Fin 16 → BitVec 32) (t : ℕ) (f : Bool) : Fin 8 → BitVec 32 :=
  let v : Fin 16 → BitVec 32 := Fin.append h IV
  let v := Function.update v 12 (v 12 ^^^ BitVec.ofNat 32 t)
  let v := Function.update v 13 (v 13 ^^^ BitVec.ofNat 32 (t / 2 ^ 32))
  let v := if f then Function.update v 14 (v 14 ^^^ BitVec.allOnes 32) else v
  let v := (List.finRange 10).foldl (fun v i => mix m v (SIGMA i)) v
  fun i => h i ^^^ v (i.castAdd 8) ^^^ v (i.natAdd 8)

/-- The word of four bytes, the first the lowest. -/
def word (b : ℕ → UInt8) : BitVec 32 :=
  BitVec.ofNat 32
    ((b 0).toNat + 2 ^ 8 * (b 1).toNat + 2 ^ 16 * (b 2).toNat + 2 ^ 24 * (b 3).toNat)

/-- The message words of a block. -/
def block (d : List UInt8) (i : Fin 16) : BitVec 32 :=
  word fun k => d.getD (4 * i + k) 0

/-- The bytes of a word, the lowest first. -/
def bytes (w : BitVec 32) : List UInt8 :=
  (List.range 4).map fun k => UInt8.ofNat (w.toNat / 2 ^ (8 * k))

/-- A byte string filled up with zeros to whole blocks. -/
def fill (d : List UInt8) : List UInt8 :=
  d ++ List.replicate ((bb - d.length % bb) % bb) 0

/-- The padded data: the key, in a block of its own, and the message.  Without either there is
one block of zeros. -/
def padded (key d : List UInt8) : List UInt8 :=
  if key = [] ∧ d = [] then List.replicate bb 0 else fill key ++ fill d

/-- The number of data blocks. -/
def dd (key d : List UInt8) : ℕ :=
  (padded key d).length / bb

/-- A data block. -/
def dataBlock (key d : List UInt8) (i : ℕ) : Fin 16 → BitVec 32 :=
  block (((padded key d).drop (i * bb)).take bb)

/-- The state after the first data blocks. -/
def chain (key d : List UInt8) (nn : ℕ) : ℕ → Fin 8 → BitVec 32
  | 0 => Function.update IV 0
      (IV 0 ^^^ 0x01010000#32 ^^^ BitVec.ofNat 32 key.length <<< 8 ^^^ BitVec.ofNat 32 nn)
  | i + 1 => F (chain key d nn i) (dataBlock key d i) ((i + 1) * bb) false

/-- The state after the last data block. -/
def final (key d : List UInt8) (nn : ℕ) : Fin 8 → BitVec 32 :=
  F (chain key d nn (dd key d - 1)) (dataBlock key d (dd key d - 1))
    (if key = [] then d.length else d.length + bb) true

/-- BLAKE2s with a key and a digest of `nn` bytes. -/
def blake2s (key d : List UInt8) (nn : ℕ) : List UInt8 :=
  ((List.ofFn (final key d nn)).flatMap bytes).take nn

/-- The hash that HMAC is built on here: BLAKE2s without a key and with 32 bytes. -/
def hash (d : List UInt8) : List UInt8 :=
  blake2s [] d 32

/-- A key for HMAC, hashed if it is longer than a block, and filled up with zeros to one. -/
def hmacKey (key : List UInt8) : List UInt8 :=
  let key := if bb < key.length then hash key else key
  key ++ List.replicate (bb - key.length) 0

/-- HMAC as in RFC 2104. -/
def hmac (key text : List UInt8) : List UInt8 :=
  let ipad := (hmacKey key).map (· ^^^ 0x36)
  let opad := (hmacKey key).map (· ^^^ 0x5c)
  hash (opad ++ hash (ipad ++ text))

end ZeroNat.Rfc7693

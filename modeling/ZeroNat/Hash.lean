import ZeroNat.Net

/-!
# BLAKE2s

The hash that keys are derived with, over the concatenation of its parts.
-/

namespace ZeroNat

namespace Blake2s

def iv : List UInt32 :=
  [0x6A09E667, 0xBB67AE85, 0x3C6EF372, 0xA54FF53A, 0x510E527F, 0x9B05688C, 0x1F83D9AB,
    0x5BE0CD19]

/-- The permutations of the message words, one for each round. -/
def schedule : List (List ℕ) :=
  [[0, 1, 2, 3, 4, 5, 6, 7, 8, 9, 10, 11, 12, 13, 14, 15],
    [14, 10, 4, 8, 9, 15, 13, 6, 1, 12, 0, 2, 11, 7, 5, 3],
    [11, 8, 12, 0, 5, 2, 15, 13, 10, 14, 3, 6, 7, 1, 9, 4],
    [7, 9, 3, 1, 13, 12, 11, 14, 2, 6, 5, 10, 4, 0, 15, 8],
    [9, 0, 5, 7, 2, 4, 10, 15, 14, 1, 11, 12, 6, 8, 3, 13],
    [2, 12, 6, 10, 0, 11, 8, 3, 4, 13, 7, 5, 15, 14, 1, 9],
    [12, 5, 1, 15, 14, 13, 4, 10, 0, 7, 6, 3, 9, 2, 8, 11],
    [13, 11, 7, 14, 12, 1, 3, 9, 5, 0, 15, 4, 8, 6, 2, 10],
    [6, 15, 14, 9, 11, 3, 0, 8, 12, 2, 13, 7, 1, 4, 10, 5],
    [10, 2, 8, 4, 7, 6, 1, 5, 15, 11, 9, 14, 3, 12, 13, 0]]

def rotateRight (x : UInt32) (k : UInt32) : UInt32 :=
  (x >>> k) ||| (x <<< (32 - k))

/-- The mixing of four words of the state with two words of the message. -/
def g (v : List UInt32) (a b c d : ℕ) (x y : UInt32) : List UInt32 :=
  let va := v.getD a 0 + v.getD b 0 + x
  let vd := rotateRight (v.getD d 0 ^^^ va) 16
  let vc := v.getD c 0 + vd
  let vb := rotateRight (v.getD b 0 ^^^ vc) 12
  let va := va + vb + y
  let vd := rotateRight (vd ^^^ va) 8
  let vc := vc + vd
  let vb := rotateRight (vb ^^^ vc) 7
  (((v.set a va).set b vb).set c vc).set d vd

/-- The columns, then the diagonals, that a round mixes. -/
def quarters : List (ℕ × ℕ × ℕ × ℕ) :=
  [(0, 4, 8, 12), (1, 5, 9, 13), (2, 6, 10, 14), (3, 7, 11, 15), (0, 5, 10, 15), (1, 6, 11, 12),
    (2, 7, 8, 13), (3, 4, 9, 14)]

def round (m : List UInt32) (v : List UInt32) (s : List ℕ) : List UInt32 :=
  quarters.zipIdx.foldl (fun v q =>
    g v q.1.1 q.1.2.1 q.1.2.2.1 q.1.2.2.2 (m.getD (s.getD (2 * q.2) 0) 0)
      (m.getD (s.getD (2 * q.2 + 1) 0) 0)) v

/-- The words of a block, the first byte of each the lowest. -/
def words : List UInt8 → List UInt32
  | a :: b :: c :: d :: rest =>
      (a.toUInt32 ||| b.toUInt32 <<< 8 ||| c.toUInt32 <<< 16 ||| d.toUInt32 <<< 24) :: words rest
  | _ => []

def compress (h : List UInt32) (block : List UInt8) (t : ℕ) (last : Bool) : List UInt32 :=
  let m := words block
  let v := h ++ iv
  let v := v.set 12 (v.getD 12 0 ^^^ UInt32.ofNat t)
  let v := v.set 13 (v.getD 13 0 ^^^ UInt32.ofNat (t / 2 ^ 32))
  let v := if last then v.set 14 (~~~ v.getD 14 0) else v
  let v := schedule.foldl (round m) v
  h.zipIdx.map fun w => w.1 ^^^ v.getD w.2 0 ^^^ v.getD (w.2 + 8) 0

/-- Compress the blocks of a message.  A full block is compressed when more data follows it,
and what is left at the end is filled with zeros.  The fuel is the number of blocks. -/
def absorb : ℕ → List UInt32 → ℕ → List UInt8 → List UInt32
  | 0, h, _, _ => h
  | fuel + 1, h, t, data =>
      if data.length ≤ 64 then
        compress h (data ++ List.replicate (64 - data.length) 0) (t + data.length) true
      else absorb fuel (compress h (data.take 64) (t + 64) false) (t + 64) (data.drop 64)

/-- The bytes of a word, the lowest first. -/
def leBytes (w : UInt32) : List UInt8 :=
  [w.toUInt8, (w >>> 8).toUInt8, (w >>> 16).toUInt8, (w >>> 24).toUInt8]

end Blake2s

/-- BLAKE2s with a digest of 32 bytes. -/
@[irreducible]
def blake2s (data : List UInt8) : Bytes 32 :=
  let h := Blake2s.iv.set 0 (Blake2s.iv.getD 0 0 ^^^ 0x01010000 ^^^ 32)
  let h := Blake2s.absorb (data.length / 64 + 1) h 0 data
  List.Vector.ofFn fun i : Fin 32 => (h.flatMap Blake2s.leBytes).getD i 0

/-- The digest of `abc`. -/
example : (blake2s [0x61, 0x62, 0x63]).toList =
    [0x50, 0x8c, 0x5e, 0x8c, 0x32, 0x7c, 0x14, 0xe2, 0xe1, 0xa7, 0x2b, 0xa3, 0x4e, 0xeb, 0x45,
      0x2f, 0x37, 0x45, 0x8b, 0x20, 0x9e, 0xd6, 0x3a, 0x29, 0x4d, 0x99, 0x9b, 0x4c, 0x86, 0x67,
      0x59, 0x82] := by decide +kernel

end ZeroNat

import Mathlib.Tactic.Linarith
import ZeroNat.Hash
import ZeroNat.Hash.Standard

/-!
# The hash in progress

The program hashes what it is given in pieces.  A full buffer is compressed only once more data
arrives, so that the last block can be marked as such.  What has been given is summed up in the
rest of the computation, which does not depend on how the data was split; that rest is compared
with the standard, block by block.
-/

namespace ZeroNat.Hash

open ZeroNat.Blake2s

/-! ### The program -/

/-- A hash in progress.  Of the buffer, `len` bytes are in use. -/
structure Blake2s where
  h : List UInt32
  t : UInt64
  buf : List UInt8
  len : ℕ
  size_buf : buf.length = 64
  len_le : len ≤ 64

namespace Blake2s

/-- A new hash.  A key takes up the first block; copying one that is longer than the buffer
would be out of bounds. -/
def new (outlen : ℕ) (key : List UInt8) (hkey : key.length ≤ 64) : Blake2s where
  h := iv.set 0
    (iv.getD 0 0
      ^^^ ((0x01010000 : UInt32) ^^^ UInt32.ofNat key.length <<< 8 ^^^ UInt32.ofNat outlen))
  t := 0
  buf := key ++ List.replicate (64 - key.length) 0
  len := if key = [] then 0 else 64
  size_buf := by
    rw [List.length_append, List.length_replicate]
    omega
  len_le := by split <;> omega

/-- Compress the buffer if it is full. -/
def drain (s : Blake2s) : Blake2s :=
  if s.len = 64 then
    { h := compress s.h s.buf (s.t + 64).toNat false
      t := s.t + 64
      buf := s.buf
      len := 0
      size_buf := s.size_buf
      len_le := by omega }
  else s

/-- Copy as much of the data to the buffer as there is room for. -/
def copy (s : Blake2s) (data : List UInt8) : Blake2s where
  h := s.h
  t := s.t
  buf := s.buf.take s.len ++ data.take (min data.length (64 - s.len))
    ++ s.buf.drop (s.len + min data.length (64 - s.len))
  len := s.len + min data.length (64 - s.len)
  size_buf := by
    have hsize := s.size_buf
    have hlen := s.len_le
    simp only [List.length_append, List.length_take, List.length_drop]
    omega
  len_le := by
    have hlen := s.len_le
    omega

theorem drain_len_lt (s : Blake2s) :
  s.drain.len < 64
  := by
  have hlen := s.len_le
  rw [drain]
  split
  · show 0 < 64
    omega
  · omega

def update (s : Blake2s) (data : List UInt8) : Blake2s :=
  if data = [] then s
  else
    (s.drain.copy data).update (data.drop (min data.length (64 - s.drain.len)))
termination_by data.length
decreasing_by
  rename_i hdata
  have hpos := List.length_pos_iff.mpr hdata
  have hlen := s.drain_len_lt
  rw [List.length_drop]
  omega

/-- The final state; the digest is its first bytes. -/
def finalize (s : Blake2s) : Bytes 32 :=
  let buf := s.buf.take s.len ++ List.replicate (64 - s.len) 0
  let h := compress s.h buf (s.t + UInt64.ofNat s.len).toNat true
  List.Vector.ofFn fun i : Fin 32 => (h.flatMap leBytes).getD i 0

end Blake2s

/-- The hash of the concatenation of the parts. -/
def blake2s (parts : List (List UInt8)) : Bytes 32 :=
  (parts.foldl Blake2s.update (Blake2s.new 32 [] (by simp))).finalize

/-- The keyed hash of the concatenation of the parts. -/
def hmacBlake2s (key : List UInt8) (parts : List (List UInt8)) : Bytes 32 :=
  let key := if 64 < key.length then (blake2s [key]).toList else key
  -- the key is folded into the beginning of the pad, which is as long as a block
  let pad := List.replicate 64 (0x36 : UInt8)
  let pad := pad.zipWith (· ^^^ ·) key ++ pad.drop key.length
  let inner := (Blake2s.new 32 [] (by simp)).update pad
  let inner := (parts.foldl Blake2s.update inner).finalize
  let pad := pad.map (· ^^^ (0x36 ^^^ 0x5c))
  blake2s [pad, inner.toList]

/-! ### What is left to compute -/

/-- Compress all the blocks of a message. -/
def absorbAll (h : List UInt32) (t : ℕ) (data : List UInt8) : List UInt32 :=
  absorb (data.length / 64 + 1) h t data

theorem absorbAll_of_le {data : List UInt8} (hdata : data.length ≤ 64) (h : List UInt32) (t : ℕ) :
  absorbAll h t data
    = compress h (data ++ List.replicate (64 - data.length) 0) (t + data.length) true
  := by
  rw [absorbAll, absorb, if_pos hdata]

theorem absorbAll_of_lt {data : List UInt8} (hdata : 64 < data.length) (h : List UInt32) (t : ℕ) :
  absorbAll h t data
    = absorbAll (compress h (data.take 64) (t + 64) false) (t + 64) (data.drop 64)
  := by
  have hfuel : (data.drop 64).length / 64 + 1 = data.length / 64 := by
    rw [List.length_drop]
    omega
  rw [absorbAll, absorb, if_neg (by omega), absorbAll, hfuel]

/-- The counter has 64 bits. -/
theorem compress_mod (h : List UInt32) (block : List UInt8) (t : ℕ) (last : Bool) :
  compress h block (t % 2 ^ 64) last = compress h block t last
  := by
  have hlow : UInt32.ofNat (t % 2 ^ 64) = UInt32.ofNat t := by
    rw [← UInt32.toNat_inj, UInt32.toNat_ofNat', UInt32.toNat_ofNat']
    omega
  have hhigh : UInt32.ofNat (t % 2 ^ 64 / 2 ^ 32) = UInt32.ofNat (t / 2 ^ 32) := by
    rw [← UInt32.toNat_inj, UInt32.toNat_ofNat', UInt32.toNat_ofNat']
    omega
  simp only [compress, hlow, hhigh]

theorem absorb_mod (fuel : ℕ) (h : List UInt32) (t : ℕ) (data : List UInt8) :
  absorb fuel h (t % 2 ^ 64) data = absorb fuel h t data
  := by
  induction fuel generalizing h t data with
  | zero => rfl
  | succ fuel ih =>
      rw [absorb, absorb]
      split
      · rw [← compress_mod, Nat.mod_add_mod, compress_mod]
      · rw [← compress_mod, Nat.mod_add_mod, compress_mod, ← ih, Nat.mod_add_mod, ih]

namespace Blake2s

/-- What has been given but not compressed. -/
def pending (s : Blake2s) : List UInt8 :=
  s.buf.take s.len

/-- The state that the hash comes to when some more data and then no more is given. -/
def rest (s : Blake2s) (data : List UInt8) : List UInt32 :=
  absorbAll s.h s.t.toNat (s.pending ++ data)

theorem length_pending (s : Blake2s) :
  s.pending.length = s.len
  := by
  have hsize := s.size_buf
  have hlen := s.len_le
  rw [pending, List.length_take]
  omega

/-- Draining a full buffer is the first step of what is left to compute, if there is more. -/
theorem rest_drain (s : Blake2s) {data : List UInt8} (hdata : data ≠ []) :
  s.drain.rest data = s.rest data
  := by
  have hpos := List.length_pos_iff.mpr hdata
  rw [drain]
  split
  · rename_i hfull
    have hpending : s.pending = s.buf := by
      rw [pending, hfull, List.take_of_length_le (le_of_eq s.size_buf)]
    have hlength : 64 < (s.buf ++ data).length := by
      rw [List.length_append, s.size_buf]
      omega
    have hcount : (s.t + 64).toNat = (s.t.toNat + 64) % 2 ^ 64 := UInt64.toNat_add _ _
    rw [rest, rest, hpending, absorbAll_of_lt hlength, List.take_left' s.size_buf,
      List.drop_left' s.size_buf]
    change absorbAll (compress s.h s.buf (s.t + 64).toNat false) (s.t + 64).toNat ([] ++ data) = _
    rw [hcount, compress_mod, absorbAll, absorb_mod]
    rfl
  · rfl

/-- Copying moves data from what is to come to what is pending. -/
theorem pending_copy (s : Blake2s) (data : List UInt8) :
  (s.copy data).pending = s.pending ++ data.take (min data.length (64 - s.len))
  := by
  have hpending := s.length_pending
  have hlength : (s.pending ++ data.take (min data.length (64 - s.len))).length
      = s.len + min data.length (64 - s.len) := by
    rw [List.length_append, hpending, List.length_take]
    omega
  exact List.take_left' hlength

theorem rest_copy (s : Blake2s) (data more : List UInt8) :
  (s.copy data).rest (data.drop (min data.length (64 - s.len)) ++ more) = s.rest (data ++ more)
  := by
  rw [rest, pending_copy, List.append_assoc, ← List.append_assoc (data.take _),
    List.take_append_drop]
  rfl

/-- What is left to compute does not change when data goes from what is to come to what has been
given. -/
theorem rest_update (s : Blake2s) (data more : List UInt8) :
  (s.update data).rest more = s.rest (data ++ more)
  := by
  fun_induction update s data with
  | case1 s => rfl
  | case2 s data hdata ih =>
      rw [ih, rest_copy, rest_drain]
      simp [hdata]

theorem rest_foldl_update (s : Blake2s) (parts : List (List UInt8)) (more : List UInt8) :
  (parts.foldl update s).rest more = s.rest (parts.flatten ++ more)
  := by
  induction parts generalizing s with
  | nil => rfl
  | cons data parts ih =>
      rw [List.foldl_cons, ih, rest_update, List.flatten_cons, List.append_assoc]

/-- The bytes of a state. -/
def digest (h : List UInt32) : Bytes 32 :=
  List.Vector.ofFn fun i : Fin 32 => (h.flatMap leBytes).getD i 0

/-- The final state is what is left to compute without more data. -/
theorem finalize_eq (s : Blake2s) :
  s.finalize = digest (s.rest [])
  := by
  have hpending := s.length_pending
  have hlen := s.len_le
  have hcount : (s.t + UInt64.ofNat s.len).toNat = (s.t.toNat + s.len) % 2 ^ 64 := by
    rw [UInt64.toNat_add, UInt64.toNat_ofNat', Nat.add_mod_mod]
  rw [rest, List.append_nil, absorbAll_of_le (by omega), hpending, ← compress_mod, ← hcount]
  rfl

/-- What a new hash has pending is the block of the key. -/
theorem rest_new (outlen : ℕ) (key : List UInt8) (hkey : key.length ≤ 64) (data : List UInt8) :
  (new outlen key hkey).rest data
    = absorbAll (new outlen key hkey).h 0
        ((if key = [] then [] else key ++ List.replicate (64 - key.length) 0) ++ data)
  := by
  have hpending : (new outlen key hkey).pending
      = if key = [] then [] else key ++ List.replicate (64 - key.length) 0 := by
    rw [pending, new]
    dsimp only
    split
    · rfl
    · rw [List.take_of_length_le]
      rw [List.length_append, List.length_replicate]
      omega
  rw [rest, hpending]
  rfl

end Blake2s

/-- The hash depends on the concatenation alone. -/
theorem blake2s_eq (parts : List (List UInt8)) :
  blake2s parts = ZeroNat.blake2s parts.flatten
  := by
  rw [blake2s, Blake2s.finalize_eq, Blake2s.rest_foldl_update, Blake2s.rest_new, ZeroNat.blake2s]
  simp only [if_true, List.nil_append, List.append_nil, absorbAll]
  have hinit : (Blake2s.new 32 [] (by simp)).h = iv.set 0 (iv.getD 0 0 ^^^ 0x01010000 ^^^ 32) := by
    decide
  rw [hinit]
  rfl

end ZeroNat.Hash

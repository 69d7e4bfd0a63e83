import ZeroNat.Lib.BigEndian
import ZeroNat.Proto.Wire

/-!
# Authenticated encryption

The program encrypts with a cipher that comes from a library, so it is a parameter here.
Its bytes are of an arbitrary type, which holds the literal bytes: besides the bytes
themselves this allows an alphabet in which the output of the cipher is opaque.
-/

open BigEndian

namespace ZeroNat

/-- The length of an authentication tag. -/
def tagLen : ℕ := 16

/-- A type of bytes, with the literal bytes among them. -/
class Alphabet (β : Type) where
  ofByte : UInt8 → β
  toByte : β → Option UInt8
  toByte_ofByte (b : UInt8) : toByte (ofByte b) = some b
  ofByte_toByte (x : β) (b : UInt8) : toByte x = some b → ofByte b = x

/-- The bytes themselves. -/
instance : Alphabet UInt8 where
  ofByte := id
  toByte := some
  toByte_ofByte _ := rfl
  ofByte_toByte _ _ h := (Option.some.inj h).symm

section

variable {β : Type} [Alphabet β]

/-- Literal bytes. -/
def lit (l : List UInt8) : List β :=
  l.map Alphabet.ofByte

/-- The bytes that a list consists of, when they are all literal. -/
def unlit (l : List β) : Option (List UInt8) :=
  l.mapM Alphabet.toByte

/-- The big-endian bytes of a 64-bit number. -/
def u64Bytes (n : UInt64) : List β :=
  lit (toBe 8 n.toNat)

/-- The 64-bit number that eight bytes spell. -/
def ofU64Bytes (l : List β) : Option UInt64 :=
  (unlit l).map fun l => UInt64.ofNat (ofBe l)

@[simp]
theorem length_lit (l : List UInt8) :
  (lit l : List β).length = l.length
  := List.length_map Alphabet.ofByte

@[simp]
theorem length_u64Bytes (n : UInt64) :
  (u64Bytes n : List β).length = 8
  := by
  rw [u64Bytes, length_lit, length_toBe]

@[simp]
theorem unlit_lit (l : List UInt8) :
  unlit (lit l : List β) = some l
  := by
  induction l with
  | nil => rfl
  | cons b l ih =>
      rw [unlit, lit] at ih
      simp [unlit, lit, Alphabet.toByte_ofByte, ih]

theorem lit_of_unlit {l : List β} {bs : List UInt8} (h : unlit l = some bs) :
  lit bs = l
  := by
  induction l generalizing bs with
  | nil =>
      obtain rfl : [] = bs := by simpa [unlit] using h
      rfl
  | cons x l ih =>
      simp only [unlit, List.mapM_cons, Option.bind_eq_bind, Option.bind_eq_some_iff,
        Option.pure_def, Option.some.injEq] at h
      obtain ⟨b, hb, bs', hbs', rfl⟩ := h
      rw [lit, List.map_cons, Alphabet.ofByte_toByte x b hb]
      exact congrArg (x :: ·) (ih hbs')

theorem lit_injective {l l' : List UInt8} (h : (lit l : List β) = lit l') :
  l = l'
  := by
  have h' := congrArg unlit h
  rwa [unlit_lit, unlit_lit, Option.some.injEq] at h'

@[simp]
theorem ofU64Bytes_u64Bytes (n : UInt64) :
  ofU64Bytes (u64Bytes n : List β) = some n
  := by
  rw [ofU64Bytes, u64Bytes, unlit_lit, Option.map_some, ofBe_toBe_of_lt n.toNat_lt,
    UInt64.ofNat_toNat]

theorem u64Bytes_injective {n n' : UInt64} (h : (u64Bytes n : List β) = u64Bytes n') :
  n = n'
  := by
  have h' := congrArg ofU64Bytes h
  rwa [ofU64Bytes_u64Bytes, ofU64Bytes_u64Bytes, Option.some.injEq] at h'

theorem u64Bytes_of_ofU64Bytes {l : List β} {n : UInt64} (hl : l.length = 8)
    (h : ofU64Bytes l = some n) :
  u64Bytes n = l
  := by
  rw [ofU64Bytes, Option.map_eq_some_iff] at h
  obtain ⟨bs, hbs, rfl⟩ := h
  obtain rfl := lit_of_unlit hbs
  rw [length_lit] at hl
  have hlt : ofBe bs < 2 ^ 64 := ofBe_lt hl
  rw [u64Bytes, UInt64.toNat_ofNat_of_lt' hlt, ← hl, toBe_ofBe]

end

/-- An authenticated cipher: a key, a nonce and the associated data that both sides know,
and the plaintext or the ciphertext with its tag. -/
structure Cipher (β : Type) where
  aeadEncrypt : List β → UInt64 → List β → List β → List β
  aeadDecrypt : List β → UInt64 → List β → List β → Option (List β)

/-- What the program relies on: decryption undoes encryption, and a ciphertext is as long as
its plaintext and a tag. -/
structure Cipher.Lawful {β : Type} (C : Cipher β) : Prop where
  decrypt_encrypt (k : List β) (n : UInt64) (ad p : List β) :
    C.aeadDecrypt k n ad (C.aeadEncrypt k n ad p) = some p
  length_encrypt (k : List β) (n : UInt64) (ad p : List β) :
    (C.aeadEncrypt k n ad p).length = p.length + tagLen

/-- A cipher that hides nothing and whose tag is made of the nonce and the key. -/
def Cipher.clear : Cipher UInt8 where
  aeadEncrypt k n _ p := p ++ (u64Bytes n ++ (k ++ List.replicate 8 0).take 8)
  aeadDecrypt k n _ ct :=
    let p := ct.take (ct.length - tagLen)
    if ct = p ++ (u64Bytes n ++ (k ++ List.replicate 8 0).take 8) then some p else none

theorem Cipher.lawful_clear :
  Cipher.clear.Lawful
  := by
  have hlen : ∀ (k : List UInt8) (n : UInt64),
      (u64Bytes n ++ (k ++ List.replicate 8 0).take 8 : List UInt8).length = tagLen := by
    intro k n
    simp [tagLen]
  constructor
  · intro k n ad p
    have htake : (p ++ (u64Bytes n ++ (k ++ List.replicate 8 0).take 8)).take
        ((p ++ (u64Bytes n ++ (k ++ List.replicate 8 0).take 8)).length - tagLen) = p := by
      apply List.take_left'
      rw [List.length_append, hlen, Nat.add_sub_cancel]
    simp only [clear, htake, if_true]
  · intro k n ad p
    rw [clear, List.length_append, hlen]

end ZeroNat

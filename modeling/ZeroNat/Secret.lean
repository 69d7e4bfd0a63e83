import ZeroNat.Config.Lexer
import ZeroNat.Hash
import ZeroNat.Proto.Wire

/-!
# Secrets and seeds

A secret is 32 bytes, written as 64 hexadecimal digits.  The credentials of a network can be
derived from one seed, each as a hash of a label of its own and the seed.
-/

namespace ZeroNat

namespace Secret

def byteLen : ℕ := 32

def hexLen : ℕ := byteLen * 2

def formatError : String :=
  "secret must be exactly 64 hexadecimal characters (32 bytes)"

def nibble (value : Char) : Option UInt8 :=
  if '0' ≤ value ∧ value ≤ '9' then some (value.toUInt8 - '0'.toUInt8)
  else if 'a' ≤ value ∧ value ≤ 'f' then some (value.toUInt8 - 'a'.toUInt8 + 10)
  else if 'A' ≤ value ∧ value ≤ 'F' then some (value.toUInt8 - 'A'.toUInt8 + 10)
  else none

/-- The bytes that pairs of digits spell. -/
def decodePairs : List Char → Option (List UInt8)
  | high :: low :: rest => do
      let h ← nibble high
      let l ← nibble low
      let bytes ← decodePairs rest
      some ((h <<< 4 ||| l) :: bytes)
  | _ => some []

/-- The bytes of a secret.  The digits are of one byte each, so a text of 64 bytes that are all
digits is one of 64 characters. -/
def decode (value : String) : Except String (Bytes 32) :=
  if value.toList.length ≠ hexLen then .error formatError
  else
    match (decodePairs value.toList).bind (Bytes.ofList? 32) with
    | some bytes => .ok bytes
    | none => .error formatError

def hexDigit (n : UInt8) : Char :=
  if n < 10 then Char.ofNat (n.toNat + '0'.toNat) else Char.ofNat (n.toNat - 10 + 'a'.toNat)

/-- Two digits for each byte. -/
def hex (bytes : List UInt8) : List Char :=
  bytes.flatMap fun byte : UInt8 => [hexDigit (byte >>> 4), hexDigit (byte &&& 0x0f)]

def encode (bytes : Bytes 32) : String :=
  String.ofList (hex bytes.toList)

def normalize (value : String) : Except String String :=
  (decode value).map encode

/-! ### Reading back what is written -/

theorem nibbles_hexDigit (byte : UInt8) :
  nibble (hexDigit (byte >>> 4)) = some (byte >>> 4)
    ∧ nibble (hexDigit (byte &&& 0x0f)) = some (byte &&& 0x0f)
    ∧ (byte >>> 4) <<< 4 ||| (byte &&& 0x0f) = byte
  := by
  have hall : ∀ n < 256, nibble (hexDigit (UInt8.ofNat n >>> 4)) = some (UInt8.ofNat n >>> 4)
      ∧ nibble (hexDigit (UInt8.ofNat n &&& 0x0f)) = some (UInt8.ofNat n &&& 0x0f)
      ∧ (UInt8.ofNat n >>> 4) <<< 4 ||| (UInt8.ofNat n &&& 0x0f) = UInt8.ofNat n := by
    decide +kernel
  have hbyte := hall byte.toNat byte.toNat_lt
  rwa [UInt8.ofNat_toNat] at hbyte

theorem decodePairs_hex (bytes : List UInt8) :
  decodePairs (hex bytes) = some bytes
  := by
  induction bytes with
  | nil => rfl
  | cons byte bytes ih =>
      obtain ⟨hhigh, hlow, hbyte⟩ := nibbles_hexDigit byte
      have hcons : hex (byte :: bytes)
          = hexDigit (byte >>> 4) :: hexDigit (byte &&& 0x0f) :: hex bytes := rfl
      rw [hcons, decodePairs, hhigh, hlow]
      simp only [Option.bind_eq_bind, Option.bind_some]
      rw [ih, Option.bind_some, hbyte]

theorem length_hex (bytes : List UInt8) :
  (hex bytes).length = 2 * bytes.length
  := by
  simp [hex, Nat.mul_comm]

/-- A secret that is written is read back. -/
theorem decode_encode_secret (bytes : Bytes 32) :
  decode (encode bytes) = .ok bytes
  := by
  have hlength : (encode bytes).toList.length = hexLen := by
    rw [encode, String.toList_ofList, length_hex, List.Vector.toList_length, hexLen, byteLen]
  have hbytes : Bytes.ofList? 32 bytes.toList = some bytes := by
    rw [Bytes.ofList?, dif_pos bytes.toList_length]
    rfl
  rw [decode, if_neg (not_not.mpr hlength), encode, String.toList_ofList, decodePairs_hex,
    Option.bind_some, hbytes]

theorem normalize_encode (bytes : Bytes 32) :
  normalize (encode bytes) = .ok (encode bytes)
  := by
  rw [normalize, decode_encode_secret]
  rfl

/-! ### Secrets are printable -/

theorem toNat_of_nibble {c : Char} {n : UInt8} (h : nibble c = some n) :
  0x30 ≤ c.toNat ∧ c.toNat ≤ 0x66
  := by
  rw [nibble] at h
  split at h
  · rename_i hdigit
    exact ⟨hdigit.1, Nat.le_trans hdigit.2 (by decide)⟩
  · split at h
    · rename_i hlower
      exact ⟨Nat.le_trans (by decide) hlower.1, hlower.2⟩
    · split at h
      · rename_i hupper
        exact ⟨Nat.le_trans (by decide) hupper.1, Nat.le_trans hupper.2 (by decide)⟩
      · simp at h

theorem bounds_of_decodePairs {l : List Char} {bytes : List UInt8}
    (h : decodePairs l = some bytes) (heven : l.length % 2 = 0) :
  ∀ c ∈ l, 0x30 ≤ c.toNat ∧ c.toNat ≤ 0x66
  := by
  induction l using decodePairs.induct generalizing bytes with
  | case1 high low rest ih =>
      rw [decodePairs] at h
      simp only [Option.bind_eq_bind, Option.bind_eq_some_iff] at h
      obtain ⟨u, hu, v, hv, bs, hbs, -⟩ := h
      intro c hc
      rw [List.mem_cons, List.mem_cons] at hc
      obtain rfl | rfl | hc := hc
      · exact toNat_of_nibble hu
      · exact toNat_of_nibble hv
      · exact ih hbs (by rw [List.length_cons, List.length_cons] at heven; omega) c hc
  | case2 l hl =>
      match l, heven, hl with
      | [], _, _ => simp
      | [_], heven, _ => simp at heven
      | a :: b :: rest, _, hl => exact absurd rfl (hl a b rest)

/-- A text that spells a secret has no control characters. -/
theorem printable_of_decode {value : String} {bytes : Bytes 32} (h : decode value = .ok bytes) :
  Config.Printable value
  := by
  rw [decode] at h
  split at h
  · simp at h
  · rename_i hlength
    rw [not_not] at hlength
    cases hpairs : decodePairs value.toList with
    | none => simp [hpairs] at h
    | some l =>
        intro c hc
        have hbounds := bounds_of_decodePairs hpairs (by rw [hlength]; rfl) c hc
        omega

theorem printable_encode (bytes : Bytes 32) :
  Config.Printable (encode bytes)
  := printable_of_decode (decode_encode_secret bytes)

theorem decode_of_normalize {value secret : String} (h : normalize value = .ok secret) :
  ∃ bytes, decode value = .ok bytes ∧ secret = encode bytes
  := by
  rw [normalize] at h
  cases hdecode : decode value with
  | error e => simp [hdecode, Except.map] at h
  | ok bytes =>
      rw [hdecode] at h
      exact ⟨bytes, rfl, (Except.ok.inj h).symm⟩

end Secret

/-- A seed. -/
structure Seed where
  bytes : Bytes 32
deriving DecidableEq

namespace Seed

def parse (value : String) : Except String Seed :=
  match Secret.decode value with
  | .ok bytes => .ok ⟨bytes⟩
  | .error _ => .error "seed must be exactly 64 hexadecimal characters (32 bytes)"

/-- The seed as it is written. -/
def toHex (seed : Seed) : String :=
  Secret.encode seed.bytes

def derive (seed : Seed) (label : String) (suffix : List UInt8) : String :=
  Secret.encode (blake2s (utf8 label ++ suffix ++ seed.bytes.toList))

def network (seed : Seed) : String :=
  seed.derive "zeronat:v1:network" []

def admin (seed : Seed) : String :=
  seed.derive "zeronat:v1:admin" []

def discovery (seed : Seed) : String :=
  seed.derive "zeronat:v1:discovery" []

def peer (seed : Seed) : String :=
  seed.derive "zeronat:v1:peer" []

def client (seed : Seed) (id : String) : String :=
  seed.derive "zeronat:v1:client:" (utf8 id)

end Seed

/-- The key of a secret. -/
def derivePsk (secret : String) : Bytes 32 :=
  blake2s (utf8 "tunnel-noise-psk-v1" ++ utf8 secret)

/-- What a client sends in the clear to say which credential it uses. -/
def clientSelector (psk : Bytes 32) : List UInt8 :=
  (blake2s (utf8 "zeronat-client-credential-selector-v1" ++ psk.toList)).toList.take 16

end ZeroNat

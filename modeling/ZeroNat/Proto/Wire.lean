import ZeroNat.Lib.BigEndian
import ZeroNat.Lib.Cursor
import ZeroNat.Net

/-!
# Fields on the wire

The fields of the control messages: each `put…` gives the bytes it appends to a body, and
each `Rd.…` reads a field off the cursor of a body under decoding, with the error texts of
the decoder.  Multi-byte reads count on a `need` before them, so every reading lemma says
how many bytes must be known to be present.
-/

open BigEndian Reader

namespace ZeroNat

/-- Outcomes that may carry an error text. -/
abbrev Result (α : Type) : Type :=
  Except String α

/-- The decode error for a byte that names nothing. -/
def badByte (what : String) (n : UInt8) : String :=
  what ++ " byte " ++ toString n.toNat

/-! ### Writing fields -/

/-- The largest number a `u16` count or length can hold. -/
def u16Max : ℕ := 65535

def putU8 (v : UInt8) : List UInt8 := [v]

def putU16 (v : UInt16) : List UInt8 := toBe 2 v.toNat

def putU32 (v : UInt32) : List UInt8 := toBe 4 v.toNat

def putU64 (v : UInt64) : List UInt8 := toBe 8 v.toNat

def putBytes (s : List UInt8) : List UInt8 := s

/-- The UTF-8 bytes of a string. -/
def utf8 (s : String) : List UInt8 := s.toUTF8.data.toList

/-- A list count, capped so that the count and the encoded entries never disagree, and
the number of entries to encode. -/
def putCount (len : ℕ) : List UInt8 × ℕ :=
  let count := min len u16Max
  (putU16 (UInt16.ofNat count), count)

/-- A string prefixed by its length.  The cast of a length that does not fit wraps. -/
def putStr (s : String) : List UInt8 :=
  putU16 (UInt16.ofNat (utf8 s).length) ++ utf8 s

/-- A counted list: the capped count, then as many entries. -/
def putList {α : Type} (put : α → List UInt8) (l : List α) : List UInt8 :=
  let (b, count) := putCount l.length
  b ++ (l.take count).flatMap put

/-- The four octets of an IPv4 address. -/
def putIp (ip : Ipv4Addr) : List UInt8 := putU32 ip.bits

/-- An address of either family: a family byte, then the octets. -/
def putIpAddr : IpAddr → List UInt8
  | .v4 ip => putU8 4 ++ putIp ip
  | .v6 octets => putU8 6 ++ putBytes octets.toList

/-- A socket address: the address, then the port. -/
def putSockaddr (a : SocketAddr) : List UInt8 :=
  putIpAddr a.ip ++ putU16 a.port

@[simp]
theorem length_putU8 (v : UInt8) : (putU8 v).length = 1 := rfl

@[simp]
theorem length_putU16 (v : UInt16) : (putU16 v).length = 2 := length_toBe 2 _

@[simp]
theorem length_putU32 (v : UInt32) : (putU32 v).length = 4 := length_toBe 4 _

@[simp]
theorem length_putU64 (v : UInt64) : (putU64 v).length = 8 := length_toBe 8 _

@[simp]
theorem length_putIp (ip : Ipv4Addr) : (putIp ip).length = 4 := length_toBe 4 _

/-- Only the first entries a count can hold are written. -/
theorem putList_take {α : Type} (put : α → List UInt8) (l : List α) :
  putList put (l.take u16Max) = putList put l
  := by
  simp [putList, putCount, List.take_take, min_comm u16Max]

/-- A list that can be counted is written whole. -/
theorem putList_of_le {α : Type} (put : α → List UInt8) {l : List α} (h : l.length ≤ u16Max) :
  putList put l = putU16 (UInt16.ofNat l.length) ++ l.flatMap put
  := by
  simp [putList, putCount, min_eq_left h]

/-! ### Reading fields -/

/-- A read off the body of a message under decoding. -/
abbrev Rd (α : Type) : Type :=
  Reader UInt8 String α

theorem fromUTF8?_eq_some_iff (l : List UInt8) (s : String) :
  String.fromUTF8? ⟨l.toArray⟩ = some s ↔ l = utf8 s
  := by
  rw [String.fromUTF8?]
  constructor
  · intro h
    split at h
    · obtain rfl := Option.some.inj h
      rfl
    · simp at h
  · rintro rfl
    have hs : (⟨(utf8 s).toArray⟩ : ByteArray) = s.toUTF8 := by simp [utf8]
    have hv : ByteArray.IsValidUTF8 ⟨(utf8 s).toArray⟩ := by
      rw [hs]
      exact s.isValidUTF8
    rw [dif_pos hv]
    congr 1

namespace Rd

/-- The number the next `w` bytes spell, or zero when they cannot be taken. -/
def word (w : ℕ) : Rd ℕ := do
  let l ← take w
  pure (if l.length = w then ofBe l else 0)

def u8 : Rd UInt8 := do
  let l ← take 1
  pure (l.head?.getD 0)

def u16 : Rd UInt16 := do
  let n ← word 2
  pure (UInt16.ofNat n)

def u32 : Rd UInt32 := do
  let n ← word 4
  pure (UInt32.ofNat n)

def u64 : Rd UInt64 := do
  let n ← word 8
  pure (UInt64.ofNat n)

/-- A count in front of a list. -/
def count (what : String) : Rd ℕ := do
  need 2 what
  let n ← u16
  pure n.toNat

/-- A flag byte: zero or one. -/
def flag (what : String) : Rd Bool := do
  let n ← u8
  if n = 0 then pure false
  else if n = 1 then pure true
  else do
    fail (badByte what n)
    pure false

/-- A byte that must be one of two values. -/
def oneOf (a b : UInt8) (what : String) : Rd UInt8 := do
  let n ← u8
  if n ≠ a ∧ n ≠ b then do
    fail (badByte what n)
    pure n
  else pure n

/-- A byte below `limit`, used as an index into a table of variants. -/
def index (limit : UInt8) (what : String) : Rd ℕ := do
  let n ← u8
  if limit ≤ n then do
    fail (badByte what n)
    pure 0
  else pure n.toNat

/-- A string prefixed by its length.  Both the length and the body must be present, and
the body must be UTF-8. -/
def str : Rd String := do
  need 2 "truncated string length"
  let len ← u16
  need len.toNat "truncated string body"
  let l ← take len.toNat
  match String.fromUTF8? ⟨l.toArray⟩ with
  | some s => pure s
  | none => do
      fail "invalid utf-8 in string"
      pure ""

/-- The next `n` bytes as an array, zero when they cannot be taken. -/
def array (n : ℕ) : Rd (Bytes n) := do
  let l ← take n
  pure ((Bytes.ofList? n l).getD (Bytes.zero n))

/-- An array of 32 bytes. -/
def arr32 (what : String) : Rd (Bytes 32) := do
  need 32 ("truncated " ++ what)
  array 32

/-- Four octets as an IPv4 address. -/
def ip : Rd Ipv4Addr := do
  need 4 "truncated ipv4 address"
  let bits ← u32
  pure ⟨bits⟩

/-- The octets of an address of the given family. -/
def octets (family : UInt8) : Rd IpAddr :=
  if family = 4 then do
    need 4 "truncated ipv4 socket address"
    let bits ← u32
    pure (IpAddr.v4 ⟨bits⟩)
  else if family = 6 then do
    need 16 "truncated ipv6 socket address"
    let octets ← array 16
    pure (IpAddr.v6 octets)
  else do
    fail (badByte "unknown address family" family)
    pure (IpAddr.v4 ⟨0⟩)

/-- A socket address of either family. -/
def sockaddr : Rd SocketAddr := do
  need 1 "truncated address family"
  let family ← u8
  let ip ← octets family
  need 2 "truncated socket address port"
  let port ← u16
  pure (SocketAddr.new ip port)

/-- A counted list: the count, then as many entries, up to the first failure. -/
def list {α : Type} (what : String) (entry : Rd α) : Rd (List α) := do
  let n ← count what
  times entry n

/-! ### What the reads accept -/

theorem reads_word (w : ℕ) :
  Fixed w (word w) (fun n bs => n < 256 ^ w ∧ bs = toBe w n)
  := by
  apply ((Fixed.take w).map _).congr
  intro n bs
  constructor
  · rintro ⟨l, rfl, rfl, hl⟩
    rw [if_pos hl]
    refine ⟨ofBe_lt hl, ?_⟩
    rw [← hl, toBe_ofBe]
  · rintro ⟨hn, rfl⟩
    refine ⟨toBe w n, ?_, rfl, length_toBe w n⟩
    rw [if_pos (length_toBe w n), ofBe_toBe_of_lt hn]

theorem reads_u8 :
  Fixed 1 u8 (fun v bs => bs = putU8 v)
  := by
  apply ((Fixed.take 1).map _).congr
  intro v bs
  constructor
  · rintro ⟨l, rfl, rfl, hl⟩
    obtain ⟨b, rfl⟩ := List.length_eq_one_iff.mp hl
    rfl
  · rintro rfl
    exact ⟨[v], rfl, rfl, rfl⟩

/-- A type of words of `w` bytes is read off the number the bytes spell. -/
theorem reads_ofWord {α : Type} (w : ℕ) (toNat : α → ℕ) (ofNat : ℕ → α)
    (hlt : ∀ v, toNat v < 256 ^ w) (hof : ∀ v, ofNat (toNat v) = v)
    (hto : ∀ n, n < 256 ^ w → toNat (ofNat n) = n) :
  Fixed w (do let n ← word w; pure (ofNat n) : Rd α) (fun v bs => bs = toBe w (toNat v))
  := by
  apply ((reads_word w).map ofNat).congr
  intro v bs
  constructor
  · rintro ⟨n, rfl, hn, rfl⟩
    rw [hto n hn]
  · rintro rfl
    exact ⟨toNat v, (hof v).symm, hlt v, rfl⟩

theorem reads_u16 :
  Fixed 2 u16 (fun v bs => bs = putU16 v)
  := reads_ofWord 2 UInt16.toNat UInt16.ofNat UInt16.toNat_lt (by simp)
    (fun _ h => UInt16.toNat_ofNat_of_lt' h)

theorem reads_u32 :
  Fixed 4 u32 (fun v bs => bs = putU32 v)
  := reads_ofWord 4 UInt32.toNat UInt32.ofNat UInt32.toNat_lt (by simp)
    (fun _ h => UInt32.toNat_ofNat_of_lt' h)

theorem reads_u64 :
  Fixed 8 u64 (fun v bs => bs = putU64 v)
  := reads_ofWord 8 UInt64.toNat UInt64.ofNat UInt64.toNat_lt (by simp)
    (fun _ h => UInt64.toNat_ofNat_of_lt' h)

theorem toNat_count {n : ℕ} (h : n ≤ u16Max) :
  (UInt16.ofNat n).toNat = n
  := by
  rw [u16Max] at h
  apply UInt16.toNat_ofNat_of_lt'
  rw [UInt16.size]
  omega

theorem toNat_le_u16Max (v : UInt16) :
  v.toNat ≤ u16Max
  := by
  have hv : v.toNat < 65536 := v.toNat_lt
  rw [u16Max]
  omega

theorem reads_count (what : String) :
  Reads 0 (count what) (fun n bs => n ≤ u16Max ∧ bs = putU16 (UInt16.ofNat n))
  := by
  apply ((reads_u16.map UInt16.toNat).need what).congr
  intro n bs
  constructor
  · rintro ⟨v, rfl, rfl⟩
    exact ⟨toNat_le_u16Max v, by simp⟩
  · rintro ⟨hn, rfl⟩
    exact ⟨UInt16.ofNat n, (toNat_count hn).symm, rfl⟩

/-- The byte a flag is written as. -/
def flagByte (b : Bool) : UInt8 :=
  if b then 1 else 0

theorem reads_flag (what : String) :
  Fixed 1 (flag what) (fun b bs => bs = putU8 (flagByte b))
  := by
  apply (reads_u8.check (P := fun n b => n = flagByte b) (fun n => ?_)).congr
  · intro b bs
    constructor
    · rintro ⟨n, rfl, rfl⟩
      rfl
    · rintro rfl
      exact ⟨_, rfl, rfl⟩
  · split
    · apply (Reads.pure false).congr
      rintro (_ | _) bs <;> simp_all [flagByte]
    · split
      · apply (Reads.pure true).congr
        rintro (_ | _) bs <;> simp_all [flagByte]
      · apply (Reads.failed _ _).congr
        rintro (_ | _) bs <;> simp_all [flagByte]

/-- A byte that is refused when it is bad. -/
theorem reads_checked (bad : UInt8 → Prop) [DecidablePred bad] (e : UInt8 → String) :
  Fixed 1
    (do
      let n ← u8
      if bad n then do
        fail (e n)
        pure n
      else pure n : Rd UInt8)
    (fun n bs => ¬ bad n ∧ bs = putU8 n)
  := by
  apply (reads_u8.check (P := fun n c => c = n ∧ ¬ bad n) (fun n => ?_)).congr
  · intro n bs
    constructor
    · rintro ⟨n, rfl, rfl, hn⟩
      exact ⟨hn, rfl⟩
    · rintro ⟨hn, rfl⟩
      exact ⟨_, rfl, rfl, hn⟩
  · split
    · rename_i hn
      apply (Reads.failed _ _).congr
      simp [hn]
    · rename_i hn
      apply (Reads.pure n).congr
      simp [hn]

theorem reads_oneOf (a b : UInt8) (what : String) :
  Fixed 1 (oneOf a b what) (fun n bs => (n = a ∨ n = b) ∧ bs = putU8 n)
  := by
  apply (reads_checked (fun n => n ≠ a ∧ n ≠ b) (badByte what)).congr
  intro n bs
  rw [not_and_or, not_not, not_not]

/-- An index into a table is read off the byte that spells it. -/
theorem reads_index (limit : UInt8) (what : String) :
  Fixed 1 (index limit what) (fun i bs => i < limit.toNat ∧ bs = putU8 (UInt8.ofNat i))
  := by
  apply (reads_u8.check (P := fun n i => i < limit.toNat ∧ n = UInt8.ofNat i) (fun n => ?_)).congr
  · intro i bs
    constructor
    · rintro ⟨n, rfl, hi, rfl⟩
      exact ⟨hi, rfl⟩
    · rintro ⟨hi, rfl⟩
      exact ⟨_, rfl, hi, rfl⟩
  · have hlimit {i : ℕ} (hi : i < limit.toNat) : (UInt8.ofNat i).toNat = i :=
      UInt8.toNat_ofNat_of_lt' (lt_trans hi limit.toNat_lt)
    split
    · rename_i hn
      apply (Reads.failed _ _).congr
      intro i bs
      constructor
      · exact False.elim
      · rintro ⟨⟨hi, rfl⟩, rfl⟩
        rw [UInt8.le_iff_toNat_le, hlimit hi] at hn
        omega
    · rename_i hn
      rw [UInt8.le_iff_toNat_le, not_le] at hn
      apply (Reads.pure n.toNat).congr
      intro i bs
      constructor
      · rintro ⟨rfl, rfl⟩
        exact ⟨⟨hn, by simp⟩, rfl⟩
      · rintro ⟨⟨hi, rfl⟩, rfl⟩
        exact ⟨(hlimit hi).symm, rfl⟩

/-- The body of a string whose length has been read. -/
theorem reads_strBody (len : ℕ) :
  Reads 0
    (do
      need len "truncated string body"
      let l ← take len
      match String.fromUTF8? ⟨l.toArray⟩ with
      | some s => pure s
      | none => do
          fail "invalid utf-8 in string"
          pure "" : Rd String)
    (fun s bs => bs = utf8 s ∧ (utf8 s).length = len)
  := by
  have h := (Fixed.take (ε := String) len).check (P := fun l s => l = utf8 s) (f := fun l =>
    match String.fromUTF8? ⟨l.toArray⟩ with
    | some s => pure s
    | none => do
        fail "invalid utf-8 in string"
        pure "") (fun l => ?_)
  · apply (h.need "truncated string body").congr
    intro s bs
    constructor
    · rintro ⟨l, ⟨rfl, hl⟩, rfl⟩
      exact ⟨rfl, hl⟩
    · rintro ⟨rfl, hl⟩
      exact ⟨utf8 s, ⟨rfl, hl⟩, rfl⟩
  · cases hs : String.fromUTF8? ⟨l.toArray⟩ with
    | some s =>
        obtain rfl := (fromUTF8?_eq_some_iff l s).mp hs
        apply (Reads.pure s).congr
        intro c bs
        have hc : c = s ↔ utf8 s = utf8 c := by
          rw [← fromUTF8?_eq_some_iff, hs, Option.some.injEq, eq_comm]
        rw [hc]
    | none =>
        apply (Reads.failed _ _).congr
        intro c bs
        simp only [false_iff, not_and]
        intro hl
        rw [← fromUTF8?_eq_some_iff, hs] at hl
        simp at hl

theorem reads_str :
  Reads 0 str (fun s bs => (utf8 s).length ≤ u16Max ∧ bs = putStr s)
  := by
  apply ((reads_u16.bind (fun len => reads_strBody len.toNat)).need "truncated string length").congr
  intro s bs
  constructor
  · rintro ⟨len, bs₁, bs₂, rfl, ⟨rfl, hlen⟩, rfl⟩
    rw [putStr, hlen]
    exact ⟨toNat_le_u16Max len, by simp⟩
  · rintro ⟨hlen, rfl⟩
    exact ⟨UInt16.ofNat (utf8 s).length, _, utf8 s, rfl, ⟨rfl, (toNat_count hlen).symm⟩, rfl⟩

theorem reads_array (n : ℕ) :
  Fixed n (array n) (fun v bs => bs = v.toList)
  := by
  apply ((Fixed.take n).map _).congr
  intro v bs
  constructor
  · rintro ⟨l, rfl, rfl, hl⟩
    rw [Bytes.ofList?, dif_pos hl]
    rfl
  · rintro rfl
    refine ⟨v.toList, ?_, rfl, v.toList_length⟩
    rw [Bytes.ofList?, dif_pos v.toList_length]
    rfl

theorem reads_arr32 (what : String) :
  Fixed 32 (arr32 what) (fun v bs => bs = v.toList)
  := ((reads_array 32).need ("truncated " ++ what)).fixed (Nat.zero_le 32) (reads_array 32).length_eq

/-- An array of 32 bytes that are not known to be present. -/
theorem reads_arr32_need (what : String) :
  Reads 0 (arr32 what) (fun v bs => bs = v.toList)
  := (reads_array 32).need ("truncated " ++ what)

theorem reads_ip :
  Reads 0 ip (fun a bs => bs = putIp a)
  := by
  apply ((reads_u32.map Ipv4Addr.mk).need "truncated ipv4 address").congr
  intro a bs
  constructor
  · rintro ⟨bits, rfl, rfl⟩
    rfl
  · rintro rfl
    exact ⟨a.bits, rfl, rfl⟩

theorem putIpAddr_eq (ip : IpAddr) :
  ∃ family bs, putIpAddr ip = putU8 family ++ bs
  := by
  cases ip with
  | v4 ip => exact ⟨4, putIp ip, rfl⟩
  | v6 octets => exact ⟨6, putBytes octets.toList, rfl⟩

/-- After the family byte, the octets of an address of that family. -/
theorem reads_octets (family : UInt8) :
  Reads 0 (octets family) (fun ip bs => putU8 family ++ bs = putIpAddr ip)
  := by
  rw [octets]
  split
  · rename_i h4
    subst h4
    apply ((reads_u32.map (fun bits => IpAddr.v4 ⟨bits⟩)).need _).congr
    intro ip bs
    constructor
    · rintro ⟨bits, rfl, rfl⟩
      rfl
    · intro h
      cases ip with
      | v4 ip => exact ⟨ip.bits, rfl, by simpa [putIpAddr, putIp] using h⟩
      | v6 octets => simp [putIpAddr, putU8] at h
  · split
    · rename_i h4 h6
      subst h6
      apply (((reads_array 16).map IpAddr.v6).need _).congr
      intro ip bs
      constructor
      · rintro ⟨octets, rfl, rfl⟩
        rfl
      · intro h
        cases ip with
        | v4 ip => simp [putIpAddr, putU8] at h
        | v6 octets => exact ⟨octets, rfl, by simpa [putIpAddr, putBytes] using h⟩
    · rename_i h4 h6
      apply (Reads.failed _ _).congr
      intro ip bs
      cases ip with
      | v4 ip => simp [putIpAddr, putU8, h4]
      | v6 octets => simp [putIpAddr, putU8, h6]

/-- A socket address is read off what it is written as, unless it carries a flow label or
a scope. -/
theorem reads_sockaddr :
  Reads 0 sockaddr (fun a bs => a.Plain ∧ bs = putSockaddr a)
  := by
  have hport (ip : IpAddr) := (reads_u16.map (SocketAddr.new ip)).need
    "truncated socket address port"
  have h := (reads_u8.bind (fun family => (reads_octets family).bind hport)).need
    "truncated address family"
  apply h.congr
  intro a bs
  rw [SocketAddr.plain_iff]
  constructor
  · rintro ⟨family, bs₁, bs', rfl, ⟨ip, bs₂, bs'', hip, ⟨port, rfl, rfl⟩, rfl⟩, rfl⟩
    rw [← List.append_assoc, hip]
    cases ip <;> exact ⟨rfl, rfl⟩
  · rintro ⟨hplain, rfl⟩
    obtain ⟨family, bs, hip⟩ := putIpAddr_eq a.ip
    exact ⟨family, putU8 family, bs ++ putU16 a.port, rfl,
      ⟨a.ip, bs, putU16 a.port, hip.symm, ⟨a.port, hplain.symm, rfl⟩, rfl⟩,
      by rw [putSockaddr, hip, List.append_assoc]⟩

/-- A counted list is read off what it is written as, when it is short enough to count. -/
theorem reads_list {α : Type} {V : α → Prop} {put : α → List UInt8} {entry : Rd α}
    (h : Reads 0 entry (fun a bs => V a ∧ bs = put a)) (what : String) :
  Reads 0 (list what entry)
    (fun l bs => (l.length ≤ u16Max ∧ ∀ a ∈ l, V a) ∧ bs = putList put l)
  := by
  apply ((reads_count what).bind (fun n => h.times n)).congr
  intro l bs
  constructor
  · rintro ⟨n, bs₁, bs₂, ⟨hn, rfl⟩, ⟨⟨rfl, hV⟩, rfl⟩, rfl⟩
    exact ⟨⟨hn, hV⟩, (putList_of_le put hn).symm⟩
  · rintro ⟨⟨hlen, hV⟩, rfl⟩
    exact ⟨l.length, _, _, ⟨hlen, rfl⟩, ⟨⟨rfl, hV⟩, rfl⟩, putList_of_le put hlen⟩

/-! ### Whole messages -/

/-- A read that fails from the start gives nothing. -/
theorem run_failed_ne_ok {α : Type} (e : String) (a : α) (r : Cursor UInt8 String) (m : α) :
  (do fail e; pure a : Rd α).run r ≠ .ok m
  := by
  intro h
  obtain ⟨-, herr⟩ := (Reader.run_eq_ok_iff _ _ _).mp h
  simp only [fail, bind_apply, pure_apply] at herr
  split at herr
  · simp at herr
  · simp_all

/-- A body of fixed size is read after its tag when the message has the size for it. -/
theorem run_sized_eq_ok_iff {α : Type} {k n : ℕ} {body other : Rd α} {E : α → List UInt8 → Prop}
    (h : Fixed k body E) (hn : n = k + 1) (hother : ∀ r m, other.run r ≠ .ok m) (tag : UInt8)
    (t : List UInt8) (m : α) :
  (if (tag :: t).length = n then body else other).run ⟨tag :: t, 1, none⟩ = .ok m ↔ E m t
  := by
  subst hn
  split
  · rename_i hlen
    exact h.run_eq_ok_iff rfl (by simp at hlen ⊢; omega) m
  · rename_i hlen
    constructor
    · intro hrun
      exact (hother _ _ hrun).elim
    · intro hE
      have ht := h.length_eq m t hE
      simp [ht] at hlen

/-- A body of two bytes, taken from the message by position. -/
theorem run_two_eq_ok_iff {α : Type} (ctor : UInt8 → UInt8 → α) {other : Rd α}
    (hother : ∀ r m, other.run r ≠ .ok m) (tag : UInt8) (t : List UInt8) (m : α) :
  (if (tag :: t).length = 3 then pure (ctor (t.getD 0 0) (t.getD 1 0)) else other).run
      ⟨tag :: t, 1, none⟩ = .ok m
    ↔ ∃ a b, m = ctor a b ∧ t = putU8 a ++ putU8 b
  := by
  split
  · rename_i hlen
    obtain ⟨a, b, rfl⟩ := List.length_eq_two.mp (by simpa using hlen : t.length = 2)
    simp [Reader.run, putU8, eq_comm]
  · rename_i hlen
    constructor
    · intro hrun
      exact (hother _ _ hrun).elim
    · rintro ⟨a, b, -, rfl⟩
      simp [putU8] at hlen

end Rd

end ZeroNat

import ZeroNat.Lib.BigEndian
import ZeroNat.Net

/-!
# PPPoE session frames

The Ethernet header, and the frames of an established session.  A decoder checks every length
against the bytes that are there and drops what does not fit.
-/

open BigEndian

namespace ZeroNat.Pppoe

def etherTypeDiscovery : UInt16 := 0x8863
def etherTypeSession : UInt16 := 0x8864

/-- Version and type, a nibble each. -/
def verType : UInt8 := 0x11

def ethHdrLen : ℕ := 14
def pppoeHdrLen : ℕ := 6

def codeSession : UInt8 := 0x00

def broadcast : MacAddr := List.Vector.replicate 6 0xff

/-- Failures of the codec, and of the operations above it. -/
inductive Error where
  | tooShort
  | badEtherType (t : UInt16)
  | badVerType (b : UInt8)
  | badCode (c : UInt8)
  | lengthOverrun
  | tagOverrun
  | rng
  | credentialTooLong
  | invalidState
deriving DecidableEq, Repr

structure EthHeader where
  dst : MacAddr
  src : MacAddr
  ethertype : UInt16
deriving DecidableEq

/-- The bytes of a slice in a range, if it has them. -/
def getRange (l : List UInt8) (start stop : ℕ) : Option (List UInt8) :=
  if start ≤ stop ∧ stop ≤ l.length then some ((l.drop start).take (stop - start)) else none

/-- A missing value is an error. -/
def okOr {ε α : Type} (x : Option α) (e : ε) : Except ε α :=
  match x with
  | some a => .ok a
  | none => .error e

/-- The big-endian number in two bytes. -/
def u16OfBe (l : List UInt8) : UInt16 :=
  UInt16.ofNat (ofBe l)

def u16ToBe (n : UInt16) : List UInt8 :=
  toBe 2 n.toNat

def u32OfBe (l : List UInt8) : UInt32 :=
  UInt32.ofNat (ofBe l)

def u32ToBe (n : UInt32) : List UInt8 :=
  toBe 4 n.toNat

def putEthHeader (dst src : MacAddr) (ethertype : UInt16) : List UInt8 :=
  dst.toList ++ src.toList ++ u16ToBe ethertype

/-- The Ethernet header, and where the payload begins. -/
def parseEthHeader (frame : List UInt8) : Except Error (EthHeader × ℕ) := do
  let dst ← okOr ((getRange frame 0 6).bind (Bytes.ofList? 6)) .tooShort
  let src ← okOr ((getRange frame 6 12).bind (Bytes.ofList? 6)) .tooShort
  let et ← okOr (getRange frame 12 14) .tooShort
  return (⟨dst, src, u16OfBe et⟩, ethHdrLen)

/-- A decoded session frame: the session and the range of the PPP payload in the frame. -/
structure SessionHeader where
  eth : EthHeader
  sessionId : UInt16
  pppStart : ℕ
  pppEnd : ℕ
deriving DecidableEq

def buildSessionFrame (dst src : MacAddr) (sessionId : UInt16) (pppPayload : List UInt8) :
    List UInt8 :=
  putEthHeader dst src etherTypeSession ++ [verType, codeSession] ++ u16ToBe sessionId
    ++ u16ToBe (UInt16.ofNat pppPayload.length) ++ pppPayload

/-- The length field counts; what follows the payload is padding. -/
def parseSessionFrame (frame : List UInt8) : Except Error SessionHeader := do
  let (eth, off) ← parseEthHeader frame
  if eth.ethertype ≠ etherTypeSession then throw (.badEtherType eth.ethertype)
  let hdr ← okOr (getRange frame off (off + pppoeHdrLen)) .tooShort
  if hdr.getD 0 0 ≠ verType then throw (.badVerType (hdr.getD 0 0))
  if hdr.getD 1 0 ≠ codeSession then throw (.badCode (hdr.getD 1 0))
  let sessionId := u16OfBe [hdr.getD 2 0, hdr.getD 3 0]
  let length := (u16OfBe [hdr.getD 4 0, hdr.getD 5 0]).toNat
  let pppStart := off + pppoeHdrLen
  let pppEnd := pppStart + length
  if frame.length < pppEnd then throw .lengthOverrun
  return ⟨eth, sessionId, pppStart, pppEnd⟩

/-! ### Reading back what was written -/

@[simp]
theorem length_u16ToBe (n : UInt16) :
  (u16ToBe n).length = 2
  := length_toBe 2 n.toNat

@[simp]
theorem length_u32ToBe (n : UInt32) :
  (u32ToBe n).length = 4
  := length_toBe 4 n.toNat

theorem u16OfBe_u16ToBe (n : UInt16) :
  u16OfBe (u16ToBe n) = n
  := by
  rw [u16OfBe, u16ToBe, ofBe_toBe_of_lt n.toNat_lt]
  apply UInt16.ofNat_toNat

theorem u16OfBe_pair (n : UInt16) :
  u16OfBe [(u16ToBe n).getD 0 0, (u16ToBe n).getD 1 0] = n
  := by
  have h : [(u16ToBe n).getD 0 0, (u16ToBe n).getD 1 0] = u16ToBe n := rfl
  rw [h, u16OfBe_u16ToBe]

theorem toNat_ofNat_length {l : List UInt8} (h : l.length < 2 ^ 16) :
  (UInt16.ofNat l.length).toNat = l.length
  := UInt16.toNat_ofNat_of_lt' h

/-- The bytes that stand after a prefix. -/
theorem getRange_append {a b c l : List UInt8} {m n : ℕ} (hl : l = a ++ (b ++ c))
    (hm : a.length = m) (hn : m + b.length = n) :
  getRange l m n = some b
  := by
  subst hl hm hn
  rw [getRange, if_pos]
  · simp
  · simp

theorem ofList?_toList {n : ℕ} (v : Bytes n) :
  Bytes.ofList? n v.toList = some v
  := by
  rw [Bytes.ofList?, dif_pos v.toList_length]
  rfl

@[simp]
theorem length_putEthHeader (dst src : MacAddr) (ethertype : UInt16) :
  (putEthHeader dst src ethertype).length = ethHdrLen
  := by
  simp [putEthHeader, ethHdrLen]

theorem parseEthHeader_putEthHeader (dst src : MacAddr) (ethertype : UInt16) (rest : List UInt8) :
  parseEthHeader (putEthHeader dst src ethertype ++ rest) = .ok (⟨dst, src, ethertype⟩, ethHdrLen)
  := by
  have hdst : getRange (putEthHeader dst src ethertype ++ rest) 0 6 = some dst.toList := by
    apply getRange_append (a := []) (c := src.toList ++ u16ToBe ethertype ++ rest)
    · simp [putEthHeader]
    · rfl
    · simp
  have hsrc : getRange (putEthHeader dst src ethertype ++ rest) 6 12 = some src.toList := by
    apply getRange_append (a := dst.toList) (c := u16ToBe ethertype ++ rest)
    · simp [putEthHeader]
    · simp
    · simp
  have het : getRange (putEthHeader dst src ethertype ++ rest) 12 14
      = some (u16ToBe ethertype) := by
    apply getRange_append (a := dst.toList ++ src.toList) (c := rest)
    · simp [putEthHeader]
    · simp
    · simp
  rw [parseEthHeader, hdst, hsrc, het, Option.bind_some, Option.bind_some, ofList?_toList,
    ofList?_toList]
  change Except.ok (EthHeader.mk dst src (u16OfBe (u16ToBe ethertype)), ethHdrLen) = _
  rw [u16OfBe_u16ToBe]

/-- A session frame that fits its length field is read back. -/
theorem parseSessionFrame_buildSessionFrame (dst src : MacAddr) (sessionId : UInt16)
    {pppPayload : List UInt8} (hlen : pppPayload.length < 2 ^ 16) :
  parseSessionFrame (buildSessionFrame dst src sessionId pppPayload)
    = .ok ⟨⟨dst, src, etherTypeSession⟩, sessionId, ethHdrLen + pppoeHdrLen,
        ethHdrLen + pppoeHdrLen + pppPayload.length⟩
  := by
  let hdr := [verType, codeSession] ++ u16ToBe sessionId
    ++ u16ToBe (UInt16.ofNat pppPayload.length)
  have hframe : buildSessionFrame dst src sessionId pppPayload
      = putEthHeader dst src etherTypeSession ++ (hdr ++ pppPayload) := by
    simp [buildSessionFrame, hdr]
  have hhdr : getRange (buildSessionFrame dst src sessionId pppPayload) ethHdrLen
      (ethHdrLen + pppoeHdrLen) = some hdr := by
    apply getRange_append hframe
    · simp
    · simp [hdr, pppoeHdrLen]
  have hsid : u16OfBe [hdr.getD 2 0, hdr.getD 3 0] = sessionId := u16OfBe_pair sessionId
  have hl : u16OfBe [hdr.getD 4 0, hdr.getD 5 0] = UInt16.ofNat pppPayload.length :=
    u16OfBe_pair _
  have h0 : hdr.getD 0 0 = verType := rfl
  have h1 : hdr.getD 1 0 = codeSession := rfl
  have hfits : ¬ (buildSessionFrame dst src sessionId pppPayload).length
      < ethHdrLen + pppoeHdrLen + pppPayload.length := by
    simp [hframe, hdr, pppoeHdrLen]
    omega
  have heth : parseEthHeader (buildSessionFrame dst src sessionId pppPayload)
      = .ok (⟨dst, src, etherTypeSession⟩, ethHdrLen) := by
    rw [hframe, parseEthHeader_putEthHeader]
  rw [parseSessionFrame, heth]
  simp only [bind, Except.bind, pure, Except.pure, ne_eq, not_true_eq_false, if_false, hhdr, okOr,
    h0, h1, hsid, hl, toNat_ofNat_length hlen, hfits]

theorem payload_buildSessionFrame (dst src : MacAddr) (sessionId : UInt16)
    (pppPayload : List UInt8) :
  ((buildSessionFrame dst src sessionId pppPayload).drop (ethHdrLen + pppoeHdrLen)).take
    pppPayload.length = pppPayload
  := by
  rw [buildSessionFrame, List.drop_left', List.take_length]
  simp [pppoeHdrLen]

end ZeroNat.Pppoe

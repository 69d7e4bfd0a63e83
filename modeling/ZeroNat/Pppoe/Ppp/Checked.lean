import ZeroNat.Pppoe.Checked
import ZeroNat.Pppoe.Ppp.Link

/-!
# The link, with its faults

The handlers of received payloads once more, with every index, every range and every cast that
the program makes without a check of its own.  None of them faults: what a handler reads is
there once the lengths that it checks are right, and its loops come to an end.
-/

open BigEndian Checked

namespace ZeroNat.Pppoe.Ppp

/-! ### Options -/

def parseOptionsFrom? {σ : Type} (f : σ → UInt8 → List UInt8 → Option σ) :
    ℕ → σ → List UInt8 → Option (σ × Bool)
  | _, s, [] => some (s, true)
  | 0, _, _ :: _ => none
  | fuel + 1, s, b :: bs =>
    let pkt := b :: bs
    if pkt.length < 2 then some (s, false)
    else do
      let code ← byteAt? pkt 0
      let len ← byteAt? pkt 1
      if pkt.length < len.toNat then some (s, false)
      else if len.toNat < 2 then some (s, false)
      else
        let data ← slice pkt 2 len.toNat
        let s ← f s code data
        let pkt ← slice pkt len.toNat pkt.length
        parseOptionsFrom? f fuel s pkt

def parseOptions? {σ : Type} (f : σ → UInt8 → List UInt8 → Option σ) (s : σ)
    (pkt : List UInt8) : Option (σ × Bool) :=
  parseOptionsFrom? f pkt.length s pkt

/-- The options come to an end before the bytes do. -/
theorem parseOptionsFrom?_eq {σ : Type} {f : σ → UInt8 → List UInt8 → Option σ}
    {g : σ → UInt8 → List UInt8 → σ} (hfg : ∀ s code data, f s code data = some (g s code data))
    {fuel : ℕ} {s : σ} {pkt : List UInt8} (h : pkt.length ≤ fuel) :
  parseOptionsFrom? f fuel s pkt = some (parseOptionsFrom g fuel s pkt)
  := by
  induction fuel generalizing s pkt with
  | zero =>
      obtain rfl := List.eq_nil_of_length_eq_zero (Nat.le_zero.mp h)
      rfl
  | succ fuel ih =>
      match pkt with
      | [] => rfl
      | [b] => rfl
      | code :: len :: rest =>
        have hlong : ¬ rest.length + 1 + 1 < 2 := by omega
        simp only [parseOptionsFrom?, parseOptionsFrom, List.length_cons]
        rw [if_neg hlong, byteAt?_eq (by simp), byteAt?_eq (by simp)]
        simp only [Option.bind_eq_bind, Option.bind_some, List.getD_cons_zero, List.getD_cons_succ]
        by_cases hover : rest.length + 2 < len.toNat
        · rw [if_pos hover, if_pos hover]
        by_cases hshort : len.toNat < 2
        · rw [if_neg hover, if_pos hshort, if_neg hover, if_pos hshort]
        obtain ⟨n, hn⟩ : ∃ n, len.toNat = n + 2 := ⟨len.toNat - 2, by omega⟩
        have hdata : slice (code :: len :: rest) 2 len.toNat
            = some (rest.take (len.toNat - 2)) := by
          rw [slice_eq (by omega) (by simp only [List.length_cons]; omega)]
          rfl
        have hrest : slice (code :: len :: rest) len.toNat (rest.length + 1 + 1)
            = some (rest.drop (len.toNat - 2)) := by
          rw [← List.length_cons, ← List.length_cons,
            slice_from (by simp only [List.length_cons]; omega), hn]
          rfl
        rw [if_neg hover, if_neg hshort, if_neg hover, if_neg hshort, hdata, Option.bind_some, hfg,
          Option.bind_some, hrest, Option.bind_some]
        apply ih
        simp only [List.length_drop, List.length_cons] at h ⊢
        omega

theorem parseOptions?_eq {σ : Type} {f : σ → UInt8 → List UInt8 → Option σ}
    {g : σ → UInt8 → List UInt8 → σ} (hfg : ∀ s code data, f s code data = some (g s code data))
    (s : σ) (pkt : List UInt8) :
  parseOptions? f s pkt = some (parseOptions g s pkt)
  := parseOptionsFrom?_eq hfg le_rfl

/-! ### Protocols -/

/-- What a protocol does with an option, as it reads the data of it. -/
class CheckedProtocol (P : Type) [Protocol P] where
  ownOptionNacked? : P → UInt8 → List UInt8 → Bool → Option P
  peerOptionReceived? : P → UInt8 → List UInt8 → Option (Verdict × P)
  ownOptionNacked?_eq (proto : P) (code : UInt8) (data : List UInt8) (isRej : Bool) :
    ownOptionNacked? proto code data isRej
      = some (Protocol.ownOptionNacked proto code data isRej)
  peerOptionReceived?_eq (proto : P) (code : UInt8) (data : List UInt8) :
    peerOptionReceived? proto code data = some (Protocol.peerOptionReceived proto code data)

/-- The number in four bytes of a buffer. -/
def u32At? (l : List UInt8) (i : ℕ) : Option UInt32 := do
  let a ← byteAt? l i
  let b ← byteAt? l (i + 1)
  let c ← byteAt? l (i + 2)
  let d ← byteAt? l (i + 3)
  return u32OfBe [a, b, c, d]

theorem u16At?_of_length {l : List UInt8} (h : l.length = 2) :
  u16At? l 0 = some (u16OfBe l)
  := by
  obtain ⟨a, b, rfl⟩ := List.length_eq_two.mp h
  rfl

theorem u32At?_of_length {l : List UInt8} (h : l.length = 4) :
  u32At? l 0 = some (u32OfBe l)
  := by
  match l with
  | [a, b, c, d] => rfl

namespace Lcp

def peerOptionReceived? (l : Lcp) (code : UInt8) (data : List UInt8) : Option (Verdict × Lcp) :=
  if code = optMru then
    if data.length = 2 then do
      let mru ← u16At? data 0
      return (.ack, { l with mruRemote := mru })
    else return (.rej, l)
  else if code = optAsyncmap then
    if data.length = 4 then return (.ack, l) else return (.rej, l)
  else if code = optAuth then
    if data = [0xc2, 0x23, 0x05] then return (.ack, { l with auth := .chapMd5 })
    else if data = [0xc0, 0x23] then return (.ack, { l with auth := .pap })
    else return (.rej, l)
  else if code = optMagicNumber then
    if data.length = 4 then do
      let magic ← u32At? data 0
      return (.ack, { l with magicRemote := magic })
    else return (.rej, l)
  else return (.rej, l)

def ownOptionNacked? (l : Lcp) (code : UInt8) (data : List UInt8) (isRej : Bool) : Option Lcp :=
  if code = optMru then
    if isRej then return { l with mruRej := true }
    else if data.length = 2 then do
      let mru ← u16At? data 0
      if mru < l.mruLocal then return { l with mruLocal := mru } else return l
    else return { l with mruRej := true }
  else if code = optMagicNumber then
    if isRej then return { l with magicRej := true }
    else if data.length = 4 then do
      let magic ← u32At? data 0
      return { l with magicLocal := magic }
    else return { l with magicRej := true }
  else return l

theorem peerOptionReceived?_eq (l : Lcp) (code : UInt8) (data : List UInt8) :
  l.peerOptionReceived? code data = some (l.peerOptionReceived code data)
  := by
  rw [peerOptionReceived?, peerOptionReceived]
  split
  · split
    · rename_i hlen
      rw [u16At?_of_length hlen]
      rfl
    · rfl
  · split
    · split <;> rfl
    · split
      · split
        · rfl
        · split <;> rfl
      · split
        · split
          · rename_i hlen
            rw [u32At?_of_length hlen]
            rfl
          · rfl
        · rfl

theorem ownOptionNacked?_eq (l : Lcp) (code : UInt8) (data : List UInt8) (isRej : Bool) :
  l.ownOptionNacked? code data isRej = some (l.ownOptionNacked code data isRej)
  := by
  rw [ownOptionNacked?, ownOptionNacked]
  split
  · split
    · rfl
    · split
      · rename_i hlen
        rw [u16At?_of_length hlen]
        simp only [Option.bind_eq_bind, Option.bind_some]
        split <;> rfl
      · rfl
  · split
    · split
      · rfl
      · split
        · rename_i hlen
          rw [u32At?_of_length hlen]
          rfl
        · rfl
    · rfl

instance : CheckedProtocol Lcp where
  ownOptionNacked? := ownOptionNacked?
  peerOptionReceived? := peerOptionReceived?
  ownOptionNacked?_eq := ownOptionNacked?_eq
  peerOptionReceived?_eq := peerOptionReceived?_eq

end Lcp

/-- The data of an option of IPCP is turned into an address as a whole, or not at all. -/
instance : CheckedProtocol Ipv4cp where
  ownOptionNacked? c code data isRej := some (c.ownOptionNacked code data isRej)
  peerOptionReceived? c code data := some (c.peerOptionReceived code data)
  ownOptionNacked?_eq _ _ _ _ := rfl
  peerOptionReceived?_eq _ _ _ := rfl

/-! ### Control packets -/

/-- The length field of a control packet, if it is there. -/
def controlLength? (pkt : List UInt8) : Option (Option ℕ) :=
  match getRange pkt 4 6 with
  | none => some none
  | some l => do
    let len ← u16At? l 0
    return some len.toNat

theorem controlLength?_eq {pkt : List UInt8} (h : 6 ≤ pkt.length) :
  controlLength? pkt = some (some (ofBe [pkt.getD 4 0, pkt.getD 5 0]))
  := by
  match pkt with
  | a :: b :: c :: d :: hi :: lo :: rest =>
    have hget : getRange (a :: b :: c :: d :: hi :: lo :: rest) 4 6 = some [hi, lo] :=
      getRange_append (a := [a, b, c, d]) rfl rfl rfl
    rw [controlLength?, hget]
    have hlt : ofBe [hi, lo] < 2 ^ 16 := ofBe_lt (w := 2) rfl
    simp only [u16At?_of_length (l := [hi, lo]) rfl, Option.bind_eq_bind, Option.bind_some, u16OfBe]
    rw [UInt16.toNat_ofNat_of_lt' hlt]
    rfl

namespace OptionFsm

variable {P : Type} [Protocol P]

def sendEchoResponse? (m : OptionFsm P) (pkt : List UInt8) : Option (Option Packet) :=
  match getRange pkt 2 pkt.length with
  | none => some none
  | some [] => some none
  | some (_ :: rest) => do
    let body := Code.echoReply.toU8 :: rest
    let body ←
      match Protocol.echoReplyMagic m.proto with
      | some magic =>
        match getRange body 4 8 with
        | some _ => within body 4 8 (copy (u32ToBe magic))
        | none => some body
      | none => some body
    return some ⟨Protocol.protocol m.proto, .raw body⟩

theorem sendEchoResponse?_eq (m : OptionFsm P) (pkt : List UInt8) :
  m.sendEchoResponse? pkt = some (m.sendEchoResponse pkt)
  := by
  by_cases hlen : 2 ≤ pkt.length
  · have hget : getRange pkt 2 pkt.length = some (pkt.drop 2) := slice_from hlen
    rw [sendEchoResponse?, sendEchoResponse, hget]
    cases pkt.drop 2 with
    | nil => rfl
    | cons b rest =>
        cases Protocol.echoReplyMagic m.proto with
        | none => rfl
        | some magic =>
            by_cases hrest : 8 ≤ (Code.echoReply.toU8 :: rest).length
            · have hslot : getRange (Code.echoReply.toU8 :: rest) 4 8
                  = some (((Code.echoReply.toU8 :: rest).drop 4).take 4) := if_pos ⟨by omega, hrest⟩
              have hcopy : within (Code.echoReply.toU8 :: rest) 4 8 (copy (u32ToBe magic))
                  = some ((Code.echoReply.toU8 :: rest).take 4 ++ u32ToBe magic
                      ++ (Code.echoReply.toU8 :: rest).drop 8) := by
                rw [within, slice_eq (by omega) hrest, Option.bind_some, copy_eq, Option.map_some,
                  List.append_assoc]
                rw [List.length_take, List.length_drop, length_u32ToBe]
                omega
              simp only [hslot, hcopy, if_pos hrest]
              rfl
            · have hslot : getRange (Code.echoReply.toU8 :: rest) 4 8 = none :=
                if_neg fun h => hrest h.2
              simp only [hslot, if_neg hrest]
              rfl
  · have hget : getRange pkt 2 pkt.length = none := if_neg fun h => hlen h.1
    have hdrop : pkt.drop 2 = [] := List.drop_eq_nil_of_le (by omega)
    rw [sendEchoResponse?, sendEchoResponse, hget, hdrop]

variable [CheckedProtocol P]

def replyOption? (naksExhausted : Bool) (r : Reply P) (ocode : UInt8) (odata : List UInt8) :
    Option (Reply P) := do
  let (verdict, proto) ← CheckedProtocol.peerOptionReceived? r.proto ocode odata
  let (retCode, data) :=
    match verdict with
    | .ack => (Code.configureAck, odata)
    | .nack data => if naksExhausted then (Code.configureRej, odata) else (Code.configureNack, data)
    | .rej => (Code.configureRej, odata)
  let (code, opts) :=
    if r.code.toU8 < retCode.toU8 then (retCode, []) else (r.code, r.opts)
  return ⟨proto, code, if code = retCode then opts ++ [⟨ocode, data⟩] else opts⟩

theorem replyOption?_eq (naksExhausted : Bool) (r : Reply P) (ocode : UInt8)
    (odata : List UInt8) :
  replyOption? naksExhausted r ocode odata = some (replyOption naksExhausted r ocode odata)
  := by
  rw [replyOption?, CheckedProtocol.peerOptionReceived?_eq]
  rfl

def receivedConfigureReq? (m : OptionFsm P) (pkt : List UInt8) :
    Option (Option Packet × OptionFsm P) :=
  if pkt.length < 6 then some (none, m)
  else do
    let id ← byteAt? pkt 3
    let optsIn ← slice pkt 6 pkt.length
    let start : Reply P := ⟨Protocol.peerOptionsStart m.proto, .configureAck, []⟩
    let (r, wellFormed) ←
      parseOptions? (replyOption? (decide (maxFailure ≤ m.naksSent))) start optsIn
    let m := { m with proto := r.proto }
    if !wellFormed then return (none, m)
    else
      let naksSent :=
        match r.code with
        | .configureAck => 0
        | .configureNack => m.naksSent + 1
        | _ => m.naksSent
      return (some ⟨Protocol.protocol m.proto, .ppp r.code id (.options r.opts)⟩,
        { m with naksSent })

theorem receivedConfigureReq?_eq (m : OptionFsm P) {pkt : List UInt8} (h : 6 ≤ pkt.length) :
  m.receivedConfigureReq? pkt = some (m.receivedConfigureReq pkt)
  := by
  rw [receivedConfigureReq?, if_neg (Nat.not_lt.mpr h), byteAt?_eq (Nat.lt_of_lt_of_le (by decide) h), slice_from h]
  simp only [Option.bind_eq_bind, Option.bind_some]
  rw [parseOptions?_eq (replyOption?_eq _), Option.bind_some, receivedConfigureReq]
  dsimp only
  split <;> rfl

def onConfigureReq? (m : OptionFsm P) (pkt : List UInt8) : Option (List Packet × OptionFsm P) := do
  match ← m.receivedConfigureReq? pkt with
  | (none, m) => return ([], m)
  | (some resp, m) =>
    let acked := match resp.payload with
      | .ppp .configureAck _ _ => true
      | _ => false
    let (sent, m) := m.afterConfigureReq acked
    return (resp :: sent, m)

def onConfigureNack? (m : OptionFsm P) (isRej : Bool) (pkt : List UInt8) :
    Option (List Packet × OptionFsm P) :=
  if pkt.length < 6 then some ([], m)
  else do
    let opts ← slice pkt 6 pkt.length
    let (proto, wellFormed) ←
      parseOptions?
        (fun proto code data => CheckedProtocol.ownOptionNacked? proto code data isRej) m.proto opts
    let m := { m with proto }
    if !wellFormed then return ([], m)
    else
      match m.state with
      | .closed => return ([], m)
      | .ackSent =>
        let (p, m) := m.sendConfigureRequest
        return ([p], m)
      | _ =>
        let (p, m) := sendConfigureRequest { m with state := .reqSent }
        return ([p], m)

def handleControl? (m : OptionFsm P) (code : Code) (id : UInt8) (pkt : List UInt8) :
    Option (List Packet × OptionFsm P) :=
  match code with
  | .echoReq =>
    if m.linkUp then do
      let resp ← m.sendEchoResponse? pkt
      return (resp.toList, m)
    else some ([], m)
  | .discardReq => some ([], m)
  | _ =>
    if m.state = .closed then some ([m.sendTerminateAck id], m)
    else
      match code with
      | .configureReq => m.onConfigureReq? pkt
      | .configureAck => some m.onConfigureAck
      | .configureNack => m.onConfigureNack? false pkt
      | .configureRej => m.onConfigureNack? true pkt
      | .terminateReq => some (m.onTerminateReq id)
      | _ => some ([], m)

def handle? (m : OptionFsm P) (pkt : List UInt8) : Option (List Packet × OptionFsm P) :=
  if pkt.length < 6 then some ([], m)
  else do
    let code := Code.ofU8 (← byteAt? pkt 2)
    let id ← byteAt? pkt 3
    match ← controlLength? pkt with
    | none => return ([], m)
    | some len =>
      if len < 4 then return ([], m)
      else if pkt.length < len + 2 then return ([], m)
      else
        let pkt ← slice pkt 0 (len + 2)
        let m :=
          if m.state ≠ .closed ∧ code ∈ [.configureAck, .configureNack, .configureRej] then
            { m with attempts := 0 }
          else m
        m.handleControl? code id pkt

theorem onConfigureReq?_eq (m : OptionFsm P) {pkt : List UInt8} (h : 6 ≤ pkt.length) :
  m.onConfigureReq? pkt = some (m.onConfigureReq pkt)
  := by
  rw [onConfigureReq?, receivedConfigureReq?_eq m h, onConfigureReq]
  cases m.receivedConfigureReq pkt with
  | mk resp m' => cases resp <;> rfl

theorem onConfigureNack?_eq (m : OptionFsm P) (isRej : Bool) {pkt : List UInt8}
    (h : 6 ≤ pkt.length) :
  m.onConfigureNack? isRej pkt = some (m.onConfigureNack isRej pkt)
  := by
  rw [onConfigureNack?, if_neg (Nat.not_lt.mpr h), slice_from h]
  simp only [Option.bind_eq_bind, Option.bind_some]
  rw [parseOptions?_eq fun proto code data =>
    CheckedProtocol.ownOptionNacked?_eq proto code data isRej, Option.bind_some, onConfigureNack]
  dsimp only
  split
  · rfl
  · cases m.state <;> rfl

theorem handleControl?_eq (m : OptionFsm P) (code : Code) (id : UInt8) {pkt : List UInt8}
    (h : 6 ≤ pkt.length) :
  m.handleControl? code id pkt = some (m.handleControl code id pkt)
  := by
  cases code <;> simp only [handleControl?, handleControl, sendEchoResponse?_eq, onConfigureReq?_eq m h, onConfigureNack?_eq m _ h] <;>
    split <;> rfl

/-- No payload faults the negotiation. -/
theorem handle?_eq (m : OptionFsm P) (pkt : List UInt8) :
  m.handle? pkt = some (m.handle pkt)
  := by
  rw [handle?, handle]
  split
  · rfl
  · rename_i hlen
    have hlen : 6 ≤ pkt.length := Nat.not_lt.mp hlen
    rw [byteAt?_eq (by omega), byteAt?_eq (by omega), controlLength?_eq hlen]
    simp only [Option.bind_eq_bind, Option.bind_some]
    split
    · rfl
    · split
      · rfl
      · rw [slice_to (by omega), Option.bind_some]
        apply handleControl?_eq
        rw [List.length_take]
        omega

end OptionFsm

/-! ### Authentication -/

namespace Pap

def handle? (p : Pap) (pkt : List UInt8) : Option (List Packet × Pap) :=
  if pkt.length < 6 then some ([], p)
  else do
    let code := Code.ofU8 (← byteAt? pkt 2)
    match ← controlLength? pkt with
    | none => return ([], p)
    | some len =>
      if pkt.length < len + 2 then return ([], p)
      else
        let _ ← slice pkt 0 (len + 2)
        match code, p.state with
        | .configureAck, .reqSent => return ([], { p with state := .opened })
        | .configureNack, .reqSent =>
          let (q, p) := p.sendConfigureRequest
          return ([q], p)
        | _, _ => return ([], p)

theorem handle?_eq (p : Pap) (pkt : List UInt8) :
  p.handle? pkt = some (p.handle pkt)
  := by
  rw [handle?, handle]
  split
  · rfl
  · rename_i hlen
    have hlen : 6 ≤ pkt.length := Nat.not_lt.mp hlen
    rw [byteAt?_eq (by omega), controlLength?_eq hlen]
    simp only [Option.bind_eq_bind, Option.bind_some]
    split
    · rfl
    · rw [slice_to (by omega), Option.bind_some]
      cases Code.ofU8 (pkt.getD 2 0) <;> cases p.state <;> rfl

end Pap

namespace Chap

variable (md5 : Digest)

def buildResponse? (id : UInt8) (digest : Bytes 16) (user : List UInt8) :
    Option (List UInt8) := do
  let length ← toU16 (4 + 1 + 16 + user.length)
  return [0xc2, 0x23, response, id] ++ u16ToBe length ++ [16] ++ digest.toList ++ user

def handle? (c : Chap) (pkt user secret : List UInt8) :
    Option (Except Err (Option (List UInt8)) × Chap) :=
  match pkt[2]?, pkt[3]? with
  | some code, some id => do
    match ← controlLength? pkt with
    | none => return (.error .truncated, c)
    | some length =>
      if length < 4 ∨ pkt.length < 2 + length then return (.error .badLength, c)
      else if code = challenge then
        match pkt[6]? with
        | none => return (.error .truncated, c)
        | some valueSize =>
          let valueEnd := 7 + valueSize.toNat
          if 2 + length < valueEnd then return (.error .badLength, c)
          else
            match getRange pkt 7 valueEnd with
            | none => return (.error .truncated, c)
            | some value =>
              let resp ← buildResponse? id (chapMd5Response md5 id secret value) user
              return (.ok (some resp), ⟨.responded⟩)
      else if code = success then return (.ok none, ⟨.success⟩)
      else if code = failure then return (.ok none, ⟨.failure⟩)
      else return (.ok none, c)
  | _, _ => return (.error .truncated, c)

theorem buildResponse?_eq (id : UInt8) (digest : Bytes 16) {user : List UInt8}
    (h : user.length < 2 ^ 8) :
  buildResponse? id digest user = some (buildResponse id digest user)
  := by
  rw [buildResponse?, toU16_eq (by omega)]
  rfl

theorem handle?_eq (c : Chap) (pkt : List UInt8) {user : List UInt8} (secret : List UInt8)
    (h : user.length < 2 ^ 8) :
  c.handle? md5 pkt user secret = some (c.handle md5 pkt user secret)
  := by
  rw [handle?, handle]
  split
  · rename_i code id hcode hid
    by_cases hlen : pkt.length < 6
    · have hshort : controlLength? pkt = some none := by
        rw [controlLength?, getRange, if_neg fun h => Nat.not_le.mpr hlen h.2]
      rw [hshort, if_pos hlen]
      rfl
    · rw [controlLength?_eq (Nat.not_lt.mp hlen), if_neg hlen]
      have hcode : pkt.getD 2 0 = code := by rw [List.getD_eq_getElem?_getD, hcode, Option.getD_some]
      have hid : pkt.getD 3 0 = id := by rw [List.getD_eq_getElem?_getD, hid, Option.getD_some]
      rw [hcode, hid]
      simp only [Option.bind_eq_bind, Option.bind_some]
      split
      · rfl
      · split
        · by_cases hsix : pkt.length ≤ 6
          · rw [List.getElem?_eq_none hsix, if_pos hsix]
            rfl
          · have hsize : pkt[6]? = some (pkt.getD 6 0) := index_eq (Nat.not_le.mp hsix) 0
            rw [hsize, if_neg hsix]
            dsimp only
            split
            · rfl
            · cases getRange pkt 7 (7 + (pkt.getD 6 0).toNat) with
              | none => rfl
              | some value =>
                  dsimp only
                  rw [buildResponse?_eq _ _ h]
                  rfl
        · split
          · rfl
          · split <;> rfl
  · rename_i hnone
    rw [if_pos]
    · rfl
    · by_contra hlen
      exact hnone _ _ (List.getElem?_eq_getElem (by omega)) (List.getElem?_eq_getElem (by omega))

end Chap

/-! ### The link -/

namespace PPP

def isPeerEchoReply? (pkt : List UInt8) (ourMagic : UInt32) : Option Bool :=
  match getRange pkt 2 pkt.length with
  | none => some false
  | some body =>
    if body.length < 8 then some false
    else do
      let code ← byteAt? body 0
      if Code.ofU8 code ≠ .echoReply then return false
      else
        match getRange body 4 8 with
        | none => return false
        | some magic =>
          let magic ← u32At? magic 0
          return magic ≠ ourMagic

theorem isPeerEchoReply?_eq (pkt : List UInt8) (ourMagic : UInt32) :
  isPeerEchoReply? pkt ourMagic = some (isPeerEchoReply pkt ourMagic)
  := by
  by_cases hlen : 8 ≤ (pkt.drop 2).length
  · have htwo : 2 ≤ pkt.length := by
      rw [List.length_drop] at hlen
      omega
    have hbody : getRange pkt 2 pkt.length = some (pkt.drop 2) := slice_from htwo
    have hmagic : getRange (pkt.drop 2) 4 8 = some (((pkt.drop 2).drop 4).take 4) :=
      if_pos ⟨by omega, hlen⟩
    have hfour : (((pkt.drop 2).drop 4).take 4).length = 4 := by
      rw [List.length_take, List.length_drop]
      omega
    rw [isPeerEchoReply?, isPeerEchoReply, hbody]
    dsimp only
    rw [if_neg (Nat.not_lt.mpr hlen), byteAt?_eq (by omega), hmagic]
    simp only [Option.bind_eq_bind, Option.bind_some, u32At?_of_length hfour, hlen]
    by_cases hcode : Code.ofU8 ((pkt.drop 2).getD 0 0) = .echoReply
    · simp only [hcode, ne_eq, not_true_eq_false, if_false, decide_true, Bool.true_and]
      rfl
    · simp only [hcode, ne_eq, not_false_eq_true, if_true, decide_false, Bool.and_false,
        Bool.false_and]
      rfl
  · have hfalse : isPeerEchoReply pkt ourMagic = false := by
      simp only [isPeerEchoReply, hlen]
      rfl
    rw [isPeerEchoReply?, hfalse]
    split
    · rfl
    · rename_i body hbody
      rw [if_pos]
      obtain ⟨hbody, -⟩ := length_of_getRange hbody
      rw [List.length_drop] at hlen
      omega

variable (md5 : Digest)

def received? (l : PPP) (pkt : List UInt8) :
    Option (Except RxError RxOutcome × List OutFrame × PPP) :=
  match getRange pkt 0 2 with
  | none => some (.error .truncated, [], l)
  | some proto => do
    let proto ← u16At? proto 0
    match ProtocolType.ofU16 proto with
    | .lcp =>
      let seen ← isPeerEchoReply? pkt l.lcp.proto.magicLocal
      let (sent, lcp) ← l.lcp.handle? pkt
      return (.ok .consumed, sent.map .packet,
        { l with lcp, echoReplySeen := l.echoReplySeen || seen })
    | .pap =>
      let (sent, pap) ← l.pap.handle? pkt
      return (.ok .consumed, sent.map .packet, { l with pap })
    | .chap =>
      let (result, chap) ← l.chap.handle? md5 pkt l.username l.password
      let sent := match result with
        | .ok (some resp) => [OutFrame.raw resp]
        | _ => []
      return (.ok .consumed, sent, { l with chap })
    | .ipv4 => return (.ok (.ipPacket (pkt.drop 2)), [], l)
    | .ipv4cp =>
      let (sent, ipv4cp) ← l.ipv4cp.handle? pkt
      return (.ok .consumed, sent.map .packet, { l with ipv4cp })
    | .unknown =>
      let (p, lcp) := l.lcp.sendProtocolReject pkt
      return (.ok .consumed, [.packet p], { l with lcp })

/-- No payload faults the link. -/
theorem received?_eq (l : PPP) (pkt : List UInt8) (h : l.username.length < 2 ^ 8) :
  l.received? md5 pkt = some (l.received md5 pkt)
  := by
  rw [received?, received]
  cases hproto : getRange pkt 0 2 with
  | none => rfl
  | some proto =>
      obtain ⟨hlen, -⟩ := length_of_getRange hproto
      simp only [u16At?_of_length hlen, Option.bind_eq_bind, Option.bind_some]
      cases ProtocolType.ofU16 (u16OfBe proto) with
      | lcp => simp only [isPeerEchoReply?_eq, OptionFsm.handle?_eq, Option.bind_some]; rfl
      | pap => simp only [Pap.handle?_eq, Option.bind_some]; rfl
      | chap => simp only [Chap.handle?_eq md5 _ _ _ h, Option.bind_some]; rfl
      | ipv4 => rfl
      | ipv4cp => simp only [OptionFsm.handle?_eq, Option.bind_some]; rfl
      | unknown => rfl

end PPP

end ZeroNat.Pppoe.Ppp

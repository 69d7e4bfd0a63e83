import ZeroNat.Pppoe.Session

/-!
# PPPoE discovery

The frames of the discovery stage, which carry a list of tags, and the machine that finds an
access concentrator and is given a session by it.
-/

open BigEndian

namespace ZeroNat.Pppoe

def codePadi : UInt8 := 0x09
def codePado : UInt8 := 0x07
def codePadr : UInt8 := 0x19
def codePads : UInt8 := 0x65
def codePadt : UInt8 := 0xa7

def tagEndOfList : UInt16 := 0x0000
def tagServiceName : UInt16 := 0x0101
def tagAcName : UInt16 := 0x0102
def tagHostUniq : UInt16 := 0x0103
def tagAcCookie : UInt16 := 0x0104

def sessionIdNone : UInt16 := 0x0000

/-- A tag of a discovery payload. -/
structure Tag where
  tagType : UInt16
  value : List UInt8
deriving DecidableEq

/-- The tags of a payload, up to the end of the list.  A tag that overruns the payload makes the
whole of it malformed.  Every tag takes four bytes at least. -/
def tagsFrom : ℕ → List UInt8 → Except Error (List Tag)
  | _, [] => .ok []
  | 0, _ => .error .tagOverrun
  | fuel + 1, buf =>
    match getRange buf 0 4 with
    | none => .error .tagOverrun
    | some header =>
      let tagType := u16OfBe [header.getD 0 0, header.getD 1 0]
      let tagLen := (u16OfBe [header.getD 2 0, header.getD 3 0]).toNat
      if tagType = tagEndOfList then .ok []
      else
        match getRange buf 4 (4 + tagLen) with
        | none => .error .tagOverrun
        | some value => (tagsFrom fuel (buf.drop (4 + tagLen))).map (⟨tagType, value⟩ :: ·)

def tags (buf : List UInt8) : Except Error (List Tag) :=
  tagsFrom buf.length buf

def putTag (tagType : UInt16) (value : List UInt8) : List UInt8 :=
  u16ToBe tagType ++ u16ToBe (UInt16.ofNat value.length) ++ value

def putPppoe (code : UInt8) (sessionId : UInt16) (payload : List UInt8) : List UInt8 :=
  [verType, code] ++ u16ToBe sessionId ++ u16ToBe (UInt16.ofNat payload.length) ++ payload

/-- An optional tag. -/
def putTag? (tagType : UInt16) : Option (List UInt8) → List UInt8
  | some value => putTag tagType value
  | none => []

/-- A PADI goes to everybody. -/
def buildPadi (src : MacAddr) (serviceName : List UInt8) (hostUniq : Option (List UInt8)) :
    List UInt8 :=
  let payload := putTag tagServiceName serviceName ++ putTag? tagHostUniq hostUniq
  putEthHeader broadcast src etherTypeDiscovery ++ putPppoe codePadi sessionIdNone payload

/-- A PADR goes to the chosen concentrator, with its cookie. -/
def buildPadr (src ac : MacAddr) (serviceName : List UInt8)
    (acCookie hostUniq : Option (List UInt8)) : List UInt8 :=
  let payload :=
    putTag tagServiceName serviceName ++ putTag? tagAcCookie acCookie
      ++ putTag? tagHostUniq hostUniq
  putEthHeader ac src etherTypeDiscovery ++ putPppoe codePadr sessionIdNone payload

/-- A decoded discovery frame. -/
structure DiscoveryPacket where
  eth : EthHeader
  code : UInt8
  sessionId : UInt16
  acName : Option (List UInt8)
  acCookie : Option (List UInt8)
  hostUniq : Option (List UInt8)
deriving DecidableEq

/-- The value of the first tag of a type. -/
def firstTag (tagType : UInt16) (ts : List Tag) : Option (List UInt8) :=
  (ts.find? fun t => t.tagType = tagType).map Tag.value

def parseDiscoveryFrame (frame : List UInt8) : Except Error DiscoveryPacket := do
  let (eth, off) ← parseEthHeader frame
  if eth.ethertype ≠ etherTypeDiscovery then throw (.badEtherType eth.ethertype)
  let hdr ← okOr (getRange frame off (off + pppoeHdrLen)) .tooShort
  if hdr.getD 0 0 ≠ verType then throw (.badVerType (hdr.getD 0 0))
  let code := hdr.getD 1 0
  if code ∉ [codePadi, codePado, codePadr, codePads, codePadt] then throw (.badCode code)
  let sessionId := u16OfBe [hdr.getD 2 0, hdr.getD 3 0]
  let length := (u16OfBe [hdr.getD 4 0, hdr.getD 5 0]).toNat
  let plStart := off + pppoeHdrLen
  let payload ← okOr (getRange frame plStart (plStart + length)) .lengthOverrun
  let ts ← tags payload
  return ⟨eth, code, sessionId, firstTag tagAcName ts, firstTag tagAcCookie ts,
    firstTag tagHostUniq ts⟩

/-- What discovery ends with. -/
structure DiscoveryEstablished where
  acMac : MacAddr
  sessionId : UInt16
deriving DecidableEq

namespace Discovery

inductive State where
  | init
  | padiSent
  | padrSent
  | established (est : DiscoveryEstablished)
  | dead
deriving DecidableEq

/-- What is to be done after a call. -/
inductive Action where
  | send (bytes : List UInt8)
  | idle
  | established (est : DiscoveryEstablished)
  | failed
deriving DecidableEq

end Discovery

/-- The discovery machine.  The concentrator is that of the first offer, and the cookie is the
one that it gave. -/
structure Discovery where
  state : Discovery.State
  src : MacAddr
  serviceName : List UInt8
  hostUniq : Option (List UInt8)
  acMac : Option MacAddr
  acCookie : Option (List UInt8)
  ticksSinceSend : ℕ
  attempts : ℕ
  retransmitTicks : ℕ
  maxAttempts : ℕ
deriving DecidableEq

/-- The value that we tagged with is what comes back, if we did. -/
def hostUniqMatches (ours theirs : Option (List UInt8)) : Bool :=
  match ours with
  | none => true
  | some o => theirs = some o

namespace Discovery

def new (src : MacAddr) (serviceName : List UInt8) (hostUniq : Option (List UInt8))
    (retransmitTicks maxAttempts : ℕ) : Discovery where
  state := .init
  src
  serviceName
  hostUniq
  acMac := none
  acCookie := none
  ticksSinceSend := 0
  attempts := 0
  retransmitTicks
  maxAttempts

def start (d : Discovery) : Action × Discovery :=
  if d.state ≠ .init then (.idle, d)
  else
    (.send (buildPadi d.src d.serviceName d.hostUniq),
      { d with state := .padiSent, ticksSinceSend := 0, attempts := 0 })

/-- An offer, while we wait for one. -/
def onPado (d : Discovery) (packet : DiscoveryPacket) : Action × Discovery :=
  if packet.code ≠ codePado then (.idle, d)
  else if packet.eth.dst ≠ d.src then (.idle, d)
  else if !hostUniqMatches d.hostUniq packet.hostUniq then (.idle, d)
  else
    let ac := packet.eth.src
    (.send (buildPadr d.src ac d.serviceName packet.acCookie d.hostUniq),
      { d with
        acMac := some ac
        acCookie := packet.acCookie
        state := .padrSent
        ticksSinceSend := 0
        attempts := 0 })

/-- A session, while we wait for it. -/
def onPads (d : Discovery) (packet : DiscoveryPacket) : Action × Discovery :=
  if packet.code ≠ codePads then (.idle, d)
  else if packet.eth.dst ≠ d.src then (.idle, d)
  else if d.acMac ≠ some packet.eth.src then (.idle, d)
  else if !hostUniqMatches d.hostUniq packet.hostUniq then (.idle, d)
  else if packet.sessionId = 0 then (.idle, d)
  else
    let est : DiscoveryEstablished := ⟨packet.eth.src, packet.sessionId⟩
    (.established est, { d with state := .established est })

def onFrame (d : Discovery) (frame : List UInt8) : Action × Discovery :=
  match parseDiscoveryFrame frame with
  | .error _ => (.idle, d)
  | .ok packet =>
    -- the chosen concentrator may end things in any state
    if packet.code = codePadt then
      if d.acMac = some packet.eth.src then (.failed, { d with state := .dead }) else (.idle, d)
    else
      match d.state with
      | .padiSent => d.onPado packet
      | .padrSent => d.onPads packet
      | .init => (.idle, d)
      | .established _ => (.idle, d)
      | .dead => (.idle, d)

/-- The frame that is sent again. -/
def resend (d : Discovery) : List UInt8 :=
  match d.state with
  | .padrSent =>
    buildPadr d.src (d.acMac.getD broadcast) d.serviceName d.acCookie d.hostUniq
  | _ => buildPadi d.src d.serviceName d.hostUniq

/-- A tick while a frame of ours is unanswered. -/
def onWaitingTick (d : Discovery) : Action × Discovery :=
  let d := { d with ticksSinceSend := d.ticksSinceSend + 1 }
  if d.ticksSinceSend < d.retransmitTicks then (.idle, d)
  else if d.maxAttempts ≤ d.attempts + 1 then (.failed, { d with state := .dead })
  else (.send d.resend, { d with attempts := d.attempts + 1, ticksSinceSend := 0 })

def onTick (d : Discovery) : Action × Discovery :=
  match d.state with
  | .padiSent => d.onWaitingTick
  | .padrSent => d.onWaitingTick
  | .init => (.idle, d)
  | .established _ => (.idle, d)
  | .dead => (.idle, d)

end Discovery

/-! ### Reading back what was written -/

/-- More fuel than there are bytes makes no difference. -/
theorem tagsFrom_add (k fuel : ℕ) (buf : List UInt8) (h : buf.length ≤ fuel) :
  tagsFrom (fuel + k) buf = tagsFrom fuel buf
  := by
  induction fuel generalizing buf with
  | zero =>
      obtain rfl := List.eq_nil_of_length_eq_zero (Nat.le_zero.mp h)
      cases k <;> rfl
  | succ fuel ih =>
      cases buf with
      | nil =>
          rw [Nat.add_right_comm]
          rfl
      | cons b bs =>
          rw [Nat.add_right_comm]
          simp only [tagsFrom]
          congr 1
          funext header
          congr 1
          congr 1
          funext value
          rw [ih]
          simp only [List.length_drop, List.length_cons] at h ⊢
          omega

theorem length_putTag (t : UInt16) (value : List UInt8) :
  (putTag t value).length = 4 + value.length
  := by
  simp [putTag]
  omega

/-- A tag in front of a payload is the first of its tags. -/
theorem tags_putTag_append {t : UInt16} {value rest : List UInt8} {ts : List Tag}
    (ht : t ≠ tagEndOfList) (hvalue : value.length < 2 ^ 16) (hrest : tags rest = .ok ts) :
  tags (putTag t value ++ rest) = .ok (⟨t, value⟩ :: ts)
  := by
  obtain ⟨fuel, hfuel⟩ : ∃ fuel, (putTag t value ++ rest).length = fuel + 1 := by
    refine ⟨3 + value.length + rest.length, ?_⟩
    rw [List.length_append, length_putTag]
    omega
  have hhead : getRange (putTag t value ++ rest) 0 4
      = some (u16ToBe t ++ u16ToBe (UInt16.ofNat value.length)) := by
    apply getRange_append (a := []) (c := value ++ rest)
    · simp [putTag]
    · rfl
    · simp
  have hval : getRange (putTag t value ++ rest) 4 (4 + value.length) = some value := by
    apply getRange_append (a := u16ToBe t ++ u16ToBe (UInt16.ofNat value.length)) (c := rest)
    · simp [putTag]
    · simp
    · rfl
  have hdrop : (putTag t value ++ rest).drop (4 + value.length) = rest :=
    List.drop_left' (length_putTag t value)
  have hlen : rest.length ≤ fuel := by
    rw [List.length_append, length_putTag] at hfuel
    omega
  rw [tags, hfuel]
  have hcons : ∃ b bs, putTag t value ++ rest = b :: bs := ⟨_, _, rfl⟩
  obtain ⟨b, bs, hb⟩ := hcons
  rw [hb] at hhead hval hdrop ⊢
  simp only [tagsFrom]
  rw [hhead]
  dsimp only
  have h0 : u16OfBe [(u16ToBe t ++ u16ToBe (UInt16.ofNat value.length)).getD 0 0,
      (u16ToBe t ++ u16ToBe (UInt16.ofNat value.length)).getD 1 0] = t := u16OfBe_pair t
  have h1 : u16OfBe [(u16ToBe t ++ u16ToBe (UInt16.ofNat value.length)).getD 2 0,
      (u16ToBe t ++ u16ToBe (UInt16.ofNat value.length)).getD 3 0]
        = UInt16.ofNat value.length := u16OfBe_pair _
  rw [h0, h1, if_neg ht, toNat_ofNat_length hvalue, hval]
  dsimp only
  obtain ⟨k, rfl⟩ := Nat.exists_eq_add_of_le hlen
  rw [hdrop, tagsFrom_add k _ _ le_rfl]
  rw [tags] at hrest
  rw [hrest]
  rfl

theorem tags_putTag?_append {t : UInt16} {value : Option (List UInt8)} {rest : List UInt8}
    {ts : List Tag} (ht : t ≠ tagEndOfList) (hvalue : ∀ v ∈ value, v.length < 2 ^ 16)
    (hrest : tags rest = .ok ts) :
  tags (putTag? t value ++ rest) = .ok ((value.map (Tag.mk t)).toList ++ ts)
  := by
  cases value with
  | none => exact hrest
  | some v => exact tags_putTag_append ht (hvalue v rfl) hrest

/-- A discovery frame that fits its length field is read back. -/
theorem parseDiscoveryFrame_putPppoe {dst src : MacAddr} {code : UInt8} {sessionId : UInt16}
    {payload : List UInt8} {ts : List Tag}
    (hcode : code ∈ [codePadi, codePado, codePadr, codePads, codePadt])
    (hlen : payload.length < 2 ^ 16) (hts : tags payload = .ok ts) :
  parseDiscoveryFrame (putEthHeader dst src etherTypeDiscovery
      ++ putPppoe code sessionId payload)
    = .ok ⟨⟨dst, src, etherTypeDiscovery⟩, code, sessionId, firstTag tagAcName ts,
        firstTag tagAcCookie ts, firstTag tagHostUniq ts⟩
  := by
  let hdr := [verType, code] ++ u16ToBe sessionId ++ u16ToBe (UInt16.ofNat payload.length)
  have hhdr : getRange (putEthHeader dst src etherTypeDiscovery
      ++ putPppoe code sessionId payload) ethHdrLen (ethHdrLen + pppoeHdrLen) = some hdr := by
    apply getRange_append (a := putEthHeader dst src etherTypeDiscovery) (c := payload)
    · simp [putPppoe, hdr]
    · simp
    · simp [hdr, pppoeHdrLen]
  have hpay : getRange (putEthHeader dst src etherTypeDiscovery
      ++ putPppoe code sessionId payload) (ethHdrLen + pppoeHdrLen)
        (ethHdrLen + pppoeHdrLen + payload.length) = some payload := by
    apply getRange_append (a := putEthHeader dst src etherTypeDiscovery ++ hdr) (c := [])
    · simp [putPppoe, hdr]
    · simp [hdr, pppoeHdrLen]
    · rfl
  have hsid : u16OfBe [hdr.getD 2 0, hdr.getD 3 0] = sessionId := u16OfBe_pair sessionId
  have hl : u16OfBe [hdr.getD 4 0, hdr.getD 5 0] = UInt16.ofNat payload.length := u16OfBe_pair _
  have h0 : hdr.getD 0 0 = verType := rfl
  have h1 : hdr.getD 1 0 = code := rfl
  rw [parseDiscoveryFrame, parseEthHeader_putEthHeader]
  simp only [bind, Except.bind, pure, Except.pure, ne_eq, not_true_eq_false, if_false, hhdr, okOr,
    h0, h1, hcode, hsid, hl, toNat_ofNat_length hlen, hpay, hts]

/-- The tags of a request for a session. -/
theorem parseDiscoveryFrame_buildPadr (src ac : MacAddr) {serviceName : List UInt8}
    {acCookie hostUniq : Option (List UInt8)}
    (hlen : (putTag tagServiceName serviceName ++ putTag? tagAcCookie acCookie
      ++ putTag? tagHostUniq hostUniq).length < 2 ^ 16) :
  parseDiscoveryFrame (buildPadr src ac serviceName acCookie hostUniq)
    = .ok ⟨⟨ac, src, etherTypeDiscovery⟩, codePadr, sessionIdNone, none, acCookie, hostUniq⟩
  := by
  have hcookie : ∀ v ∈ acCookie, v.length < 2 ^ 16 := by
    rintro v rfl
    simp only [List.length_append, length_putTag, putTag?] at hlen
    omega
  have huniq : ∀ v ∈ hostUniq, v.length < 2 ^ 16 := by
    rintro v rfl
    simp only [List.length_append, length_putTag, putTag?] at hlen
    omega
  have hname : serviceName.length < 2 ^ 16 := by
    simp only [List.length_append, length_putTag] at hlen
    omega
  have hnil : tags [] = .ok [] := rfl
  have htags := tags_putTag?_append (by decide : tagHostUniq ≠ tagEndOfList) huniq hnil
  have htags := tags_putTag?_append (by decide : tagAcCookie ≠ tagEndOfList) hcookie htags
  have htags := tags_putTag_append (by decide : tagServiceName ≠ tagEndOfList) hname htags
  rw [List.append_nil, ← List.append_assoc] at htags
  rw [buildPadr, parseDiscoveryFrame_putPppoe (by decide) hlen htags]
  cases acCookie <;> cases hostUniq <;> rfl

end ZeroNat.Pppoe

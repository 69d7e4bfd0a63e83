import ZeroNat.Lib.Checked
import ZeroNat.Pppoe.Discovery

/-!
# Frames, with their faults

The decoders and the encoders of frames once more, with every index, every range and every cast
that the program makes without a check of its own.  A call that faults is `none`, and so is a
loop that does not come to an end.  The decoders do not fault; the encoders do when a length
does not fit its field.
-/

open BigEndian Checked

namespace ZeroNat.Pppoe

/-- A byte of a buffer. -/
def byteAt? (l : List UInt8) (i : ℕ) : Option UInt8 :=
  index l i

/-- The number in two bytes of a buffer. -/
def u16At? (l : List UInt8) (i : ℕ) : Option UInt16 := do
  let hi ← byteAt? l i
  let lo ← byteAt? l (i + 1)
  return u16OfBe [hi, lo]

theorem byteAt?_eq {l : List UInt8} {i : ℕ} (h : i < l.length) :
  byteAt? l i = some (l.getD i 0)
  := index_eq h 0

theorem u16At?_eq {l : List UInt8} {i : ℕ} (h : i + 1 < l.length) :
  u16At? l i = some (u16OfBe [l.getD i 0, l.getD (i + 1) 0])
  := by
  rw [u16At?, byteAt?_eq (Nat.lt_of_succ_lt h), byteAt?_eq h]
  rfl

theorem length_of_getRange {l part : List UInt8} {start stop : ℕ}
    (h : getRange l start stop = some part) :
  part.length = stop - start ∧ stop ≤ l.length
  := by
  rw [getRange] at h
  split at h
  · rename_i hrange
    obtain rfl := Option.some.inj h
    simp only [List.length_take, List.length_drop]
    omega
  · contradiction

theorem getRange_of_okOr {l part : List UInt8} {start stop : ℕ} {e : Error}
    (h : okOr (getRange l start stop) e = .ok part) :
  getRange l start stop = some part
  := by
  cases hget : getRange l start stop with
  | none => simp [hget, okOr] at h
  | some p => simpa [hget, okOr] using h

/-! ### Session frames -/

def parseEthHeader? (frame : List UInt8) : ExceptT Error Option (EthHeader × ℕ) := do
  let dst ← okOr ((getRange frame 0 6).bind (Bytes.ofList? 6)) Error.tooShort
  let src ← okOr ((getRange frame 6 12).bind (Bytes.ofList? 6)) Error.tooShort
  let et ← okOr (getRange frame 12 14) Error.tooShort
  let ethertype ← u16At? et 0
  return (⟨dst, src, ethertype⟩, ethHdrLen)

theorem parseEthHeader?_eq (frame : List UInt8) :
  (parseEthHeader? frame).run = some (parseEthHeader frame)
  := by
  refine bind_eq rfl fun dst _ => ?_
  refine bind_eq rfl fun src _ => ?_
  refine bind_eq rfl fun et het => ?_
  obtain ⟨hlen, -⟩ := length_of_getRange (getRange_of_okOr het)
  obtain ⟨a, b, rfl⟩ := List.length_eq_two.mp hlen
  rfl

def parseSessionFrame? (frame : List UInt8) : ExceptT Error Option SessionHeader := do
  let (eth, off) ← parseEthHeader? frame
  if eth.ethertype ≠ etherTypeSession then throw (.badEtherType eth.ethertype)
  let hdr ← okOr (getRange frame off (off + pppoeHdrLen)) Error.tooShort
  let version ← byteAt? hdr 0
  if version ≠ verType then throw (.badVerType version)
  let code ← byteAt? hdr 1
  if code ≠ codeSession then throw (.badCode code)
  let sessionId ← u16At? hdr 2
  let length ← u16At? hdr 4
  let pppStart := off + pppoeHdrLen
  let pppEnd := pppStart + length.toNat
  if frame.length < pppEnd then throw .lengthOverrun
  return ⟨eth, sessionId, pppStart, pppEnd⟩

theorem parseSessionFrame?_eq (frame : List UInt8) :
  (parseSessionFrame? frame).run = some (parseSessionFrame frame)
  := by
  refine bind_eq (parseEthHeader?_eq frame) fun eth _ => ?_
  refine guard_eq fun _ => ?_
  refine bind_eq rfl fun hdr hhdr => ?_
  obtain ⟨hlen, -⟩ := length_of_getRange (getRange_of_okOr hhdr)
  rw [Nat.add_sub_cancel_left, pppoeHdrLen] at hlen
  refine lift_eq (byteAt?_eq (by omega)) ?_
  refine guard_eq fun _ => ?_
  refine lift_eq (byteAt?_eq (by omega)) ?_
  refine guard_eq fun _ => ?_
  refine lift_eq (u16At?_eq (by omega)) ?_
  refine lift_eq (u16At?_eq (by omega)) ?_
  exact guard_eq fun _ => rfl

def buildSessionFrame? (dst src : MacAddr) (sessionId : UInt16) (pppPayload : List UInt8) :
    Option (List UInt8) := do
  let length ← toU16 pppPayload.length
  return putEthHeader dst src etherTypeSession ++ [verType, codeSession] ++ u16ToBe sessionId
    ++ u16ToBe length ++ pppPayload

theorem buildSessionFrame?_eq (dst src : MacAddr) (sessionId : UInt16) {pppPayload : List UInt8}
    (h : pppPayload.length < 2 ^ 16) :
  buildSessionFrame? dst src sessionId pppPayload
    = some (buildSessionFrame dst src sessionId pppPayload)
  := by
  rw [buildSessionFrame?, toU16_eq h]
  rfl

/-! ### Discovery frames -/

def tagsFrom? : ℕ → List UInt8 → ExceptT Error Option (List Tag)
  | _, [] => return []
  | 0, _ :: _ => ExceptT.mk none
  | fuel + 1, b :: bs => do
    let buf := b :: bs
    let header ← okOr (getRange buf 0 4) Error.tagOverrun
    let tagType ← u16At? header 0
    let tagLen ← u16At? header 2
    if tagType = tagEndOfList then return []
    else
      let value ← okOr (getRange buf 4 (4 + tagLen.toNat)) Error.tagOverrun
      let rest ← tagsFrom? fuel (buf.drop (4 + tagLen.toNat))
      return ⟨tagType, value⟩ :: rest

/-- The tags come to an end before the bytes do. -/
theorem tagsFrom?_eq {fuel : ℕ} {buf : List UInt8} (h : buf.length ≤ fuel) :
  (tagsFrom? fuel buf).run = some (tagsFrom fuel buf)
  := by
  induction fuel generalizing buf with
  | zero =>
      obtain rfl := List.eq_nil_of_length_eq_zero (Nat.le_zero.mp h)
      rfl
  | succ fuel ih =>
      cases buf with
      | nil => rfl
      | cons b bs =>
          have hrest : ∀ n, (List.drop (4 + n) (b :: bs)).length ≤ fuel := by
            intro n
            simp only [List.length_drop, List.length_cons] at h ⊢
            omega
          simp only [tagsFrom?, tagsFrom]
          cases hget : getRange (b :: bs) 0 4 with
          | none => rfl
          | some header =>
              obtain ⟨hlen, -⟩ := length_of_getRange hget
              refine lift_eq (u16At?_eq (by omega)) ?_
              refine lift_eq (u16At?_eq (by omega)) ?_
              dsimp only
              split
              · rfl
              · cases getRange (b :: bs) 4
                    (4 + (u16OfBe [header.getD 2 0, header.getD 3 0]).toNat) with
                | none => rfl
                | some value =>
                    refine (bind_eq (ih (hrest _)) fun rest _ => rfl).trans ?_
                    cases tagsFrom fuel ((b :: bs).drop
                      (4 + (u16OfBe [header.getD 2 0, header.getD 3 0]).toNat)) <;> rfl

def tags? (buf : List UInt8) : ExceptT Error Option (List Tag) :=
  tagsFrom? buf.length buf

def parseDiscoveryFrame? (frame : List UInt8) : ExceptT Error Option DiscoveryPacket := do
  let (eth, off) ← parseEthHeader? frame
  if eth.ethertype ≠ etherTypeDiscovery then throw (.badEtherType eth.ethertype)
  let hdr ← okOr (getRange frame off (off + pppoeHdrLen)) Error.tooShort
  let version ← byteAt? hdr 0
  if version ≠ verType then throw (.badVerType version)
  let code ← byteAt? hdr 1
  if code ∉ [codePadi, codePado, codePadr, codePads, codePadt] then throw (.badCode code)
  let sessionId ← u16At? hdr 2
  let length ← u16At? hdr 4
  let plStart := off + pppoeHdrLen
  let payload ← okOr (getRange frame plStart (plStart + length.toNat)) Error.lengthOverrun
  let ts ← tags? payload
  return ⟨eth, code, sessionId, firstTag tagAcName ts, firstTag tagAcCookie ts,
    firstTag tagHostUniq ts⟩

theorem parseDiscoveryFrame?_eq (frame : List UInt8) :
  (parseDiscoveryFrame? frame).run = some (parseDiscoveryFrame frame)
  := by
  refine bind_eq (parseEthHeader?_eq frame) fun eth _ => ?_
  refine guard_eq fun _ => ?_
  refine bind_eq rfl fun hdr hhdr => ?_
  obtain ⟨hlen, -⟩ := length_of_getRange (getRange_of_okOr hhdr)
  rw [Nat.add_sub_cancel_left, pppoeHdrLen] at hlen
  refine lift_eq (byteAt?_eq (by omega)) ?_
  refine guard_eq fun _ => ?_
  refine lift_eq (byteAt?_eq (by omega)) ?_
  refine guard_eq fun _ => ?_
  refine lift_eq (u16At?_eq (by omega)) ?_
  refine lift_eq (u16At?_eq (by omega)) ?_
  refine bind_eq rfl fun payload _ => ?_
  exact bind_eq (tagsFrom?_eq le_rfl) fun ts _ => rfl

/-- A tag, with the cast of its length. -/
def putTagCast? (tagType : UInt16) (value : List UInt8) : Option (List UInt8) := do
  let length ← toU16 value.length
  return u16ToBe tagType ++ u16ToBe length ++ value

/-- An optional tag, with the cast of its length. -/
def putOptionalTag? (tagType : UInt16) : Option (List UInt8) → Option (List UInt8)
  | some value => putTagCast? tagType value
  | none => some []

def putPppoe? (code : UInt8) (sessionId : UInt16) (payload : List UInt8) :
    Option (List UInt8) := do
  let length ← toU16 payload.length
  return [verType, code] ++ u16ToBe sessionId ++ u16ToBe length ++ payload

def buildPadr? (src ac : MacAddr) (serviceName : List UInt8)
    (acCookie hostUniq : Option (List UInt8)) : Option (List UInt8) := do
  let name ← putTagCast? tagServiceName serviceName
  let cookie ← putOptionalTag? tagAcCookie acCookie
  let uniq ← putOptionalTag? tagHostUniq hostUniq
  let frame ← putPppoe? codePadr sessionIdNone (name ++ cookie ++ uniq)
  return putEthHeader ac src etherTypeDiscovery ++ frame

/-- The bytes that follow the header of a request for a session. -/
def padrLength (serviceName : List UInt8) (acCookie hostUniq : Option (List UInt8)) : ℕ :=
  (putTag tagServiceName serviceName ++ putTag? tagAcCookie acCookie
    ++ putTag? tagHostUniq hostUniq).length

theorem putTagCast?_eq (tagType : UInt16) (value : List UInt8) :
  putTagCast? tagType value
    = if value.length < 2 ^ 16 then some (putTag tagType value) else none
  := by
  rw [putTagCast?, toU16]
  split <;> rfl

theorem putOptionalTag?_eq (tagType : UInt16) (value : Option (List UInt8)) :
  putOptionalTag? tagType value
    = if (∀ v ∈ value, v.length < 2 ^ 16) then some (putTag? tagType value) else none
  := by
  cases value with
  | none => rw [if_pos] <;> simp [putOptionalTag?, putTag?]
  | some v =>
      rw [putOptionalTag?, putTagCast?_eq]
      simp [putTag?]

/-- The request for a session faults exactly when it does not fit the length field of its
header. -/
theorem buildPadr?_eq (src ac : MacAddr) (serviceName : List UInt8)
    (acCookie hostUniq : Option (List UInt8)) :
  buildPadr? src ac serviceName acCookie hostUniq
    = if padrLength serviceName acCookie hostUniq < 2 ^ 16 then
        some (buildPadr src ac serviceName acCookie hostUniq)
      else none
  := by
  rw [buildPadr?, putTagCast?_eq, putOptionalTag?_eq, putOptionalTag?_eq]
  by_cases hlen : padrLength serviceName acCookie hostUniq < 2 ^ 16
  · have hname : serviceName.length < 2 ^ 16 := by
      simp only [padrLength, List.length_append, length_putTag] at hlen
      omega
    have hcookie : ∀ v ∈ acCookie, v.length < 2 ^ 16 := by
      rintro v rfl
      simp only [padrLength, List.length_append, length_putTag, putTag?] at hlen
      omega
    have huniq : ∀ v ∈ hostUniq, v.length < 2 ^ 16 := by
      rintro v rfl
      simp only [padrLength, List.length_append, length_putTag, putTag?] at hlen
      omega
    rw [if_pos hname, if_pos hcookie, if_pos huniq, if_pos hlen]
    simp only [Option.bind_eq_bind, Option.bind_some, putPppoe?]
    rw [← padrLength, toU16_eq hlen]
    rfl
  · rw [if_neg hlen]
    -- a tag that does not fit its own length field does not fit the header either
    split
    · split
      · split
        · simp only [Option.bind_eq_bind, Option.bind_some, putPppoe?]
          rw [← padrLength, toU16_eq_none (Nat.not_lt.mp hlen)]
          rfl
        · rfl
      · rfl
    · rfl

namespace Discovery

variable {d : Discovery}

def onPado? (d : Discovery) (packet : DiscoveryPacket) : Option (Action × Discovery) :=
  if packet.code ≠ codePado then return (.idle, d)
  else if packet.eth.dst ≠ d.src then return (.idle, d)
  else if !hostUniqMatches d.hostUniq packet.hostUniq then return (.idle, d)
  else do
    let ac := packet.eth.src
    let padr ← buildPadr? d.src ac d.serviceName packet.acCookie d.hostUniq
    return (.send padr,
      { d with
        acMac := some ac
        acCookie := packet.acCookie
        state := .padrSent
        ticksSinceSend := 0
        attempts := 0 })

def onFrame? (d : Discovery) (frame : List UInt8) : Option (Action × Discovery) := do
  match ← (parseDiscoveryFrame? frame).run with
  | .error _ => return (.idle, d)
  | .ok packet =>
    if packet.code = codePadt then
      if d.acMac = some packet.eth.src then return (.failed, { d with state := .dead })
      else return (.idle, d)
    else
      match d.state with
      | .padiSent => d.onPado? packet
      | .padrSent => return d.onPads packet
      | .init => return (.idle, d)
      | .established _ => return (.idle, d)
      | .dead => return (.idle, d)

/-- The offer that is taken up. -/
def Takes (d : Discovery) (packet : DiscoveryPacket) : Prop :=
  d.state = .padiSent ∧ packet.code = codePado ∧ packet.eth.dst = d.src
    ∧ hostUniqMatches d.hostUniq packet.hostUniq = true

instance (d : Discovery) (packet : DiscoveryPacket) : Decidable (d.Takes packet) :=
  inferInstanceAs (Decidable (_ ∧ _ ∧ _ ∧ _))

/-- The offer in a frame is taken up, and the request that answers it does not fit the length
field of its header. -/
def Overlong (d : Discovery) (frame : List UInt8) : Prop :=
  ∃ packet, parseDiscoveryFrame frame = .ok packet ∧ d.Takes packet
    ∧ 2 ^ 16 ≤ padrLength d.serviceName packet.acCookie d.hostUniq

theorem onPado?_eq (hstate : d.state = .padiSent) (packet : DiscoveryPacket) :
  d.onPado? packet
    = if d.Takes packet ∧ 2 ^ 16 ≤ padrLength d.serviceName packet.acCookie d.hostUniq then none
      else some (d.onPado packet)
  := by
  by_cases htakes : d.Takes packet
  · obtain ⟨-, hcode, hdst, huniq⟩ := htakes
    simp only [onPado?, onPado, Takes, hcode, hdst, huniq, hstate, ne_eq, not_true_eq_false,
      if_false, Bool.not_true, Bool.false_eq_true, true_and, buildPadr?_eq]
    by_cases hlen : padrLength d.serviceName packet.acCookie d.hostUniq < 2 ^ 16
    · rw [if_pos hlen, if_neg (Nat.not_le.mpr hlen)]
      rfl
    · rw [if_neg hlen, if_pos (Nat.not_lt.mp hlen)]
      rfl
  · rw [if_neg fun h => htakes h.1, onPado?, onPado]
    by_cases hcode : packet.code = codePado
    · by_cases hdst : packet.eth.dst = d.src
      · have huniq : hostUniqMatches d.hostUniq packet.hostUniq = false := by
          by_contra h
          exact htakes ⟨hstate, hcode, hdst, Bool.not_eq_false _ ▸ h⟩
        simp [hcode, hdst, huniq]
      · simp [hcode, hdst]
    · simp [hcode]

/-- Discovery faults exactly at an offer that it takes up and whose answer is too long. -/
theorem onFrame?_eq (d : Discovery) (frame : List UInt8) :
  (d.Overlong frame → d.onFrame? frame = none)
    ∧ (¬ d.Overlong frame → d.onFrame? frame = some (d.onFrame frame))
  := by
  rw [onFrame?, onFrame, parseDiscoveryFrame?_eq]
  constructor
  · rintro ⟨packet, hp, htakes, hlen⟩
    have hcode : packet.code ≠ codePadt := by
      rw [htakes.2.1]
      decide
    simp only [hp, Option.bind_eq_bind, Option.bind_some, hcode, if_false, htakes.1]
    rw [onPado?_eq htakes.1, if_pos ⟨htakes, hlen⟩]
  · intro hfits
    cases hp : parseDiscoveryFrame frame with
    | error e => rfl
    | ok packet =>
        simp only [Option.bind_eq_bind, Option.bind_some]
        split
        · split <;> rfl
        · cases hstate : d.state with
          | padiSent =>
              dsimp only
              rw [onPado?_eq hstate, if_neg]
              rintro ⟨htakes, hlen⟩
              exact hfits ⟨packet, hp, htakes, hlen⟩
          | padrSent => rfl
          | init => rfl
          | established est => rfl
          | dead => rfl

end Discovery

end ZeroNat.Pppoe

import ZeroNat.Pppoe.Isolation
import ZeroNat.Pppoe.Ppp.Bounds

/-!
# No frame faults the datapath

The path of a received frame through the datapath, with every index, every range and every cast
that the program makes without a check of its own.  We show that there is one fault only: the
answer to an offer repeats the cookie that came with it, and may turn out too long for its length
field.
-/

open BigEndian Checked

namespace ZeroNat.Pppoe

open Ppp

/-! ### The session engine -/

def serialize? : OutFrame → Option (List UInt8)
  | .packet p => p.emit? (List.replicate p.bufferLen 0)
  | .raw bytes => some bytes

theorem serialize?_eq {f : OutFrame} (h : f.Fits) :
  serialize? f = some (serialize f)
  := by
  cases f with
  | packet p => exact Packet.emit?_eq h
  | raw bytes => rfl

theorem length_serialize {f : OutFrame} (h : f.Fits) :
  (serialize f).length < 2 ^ 16
  := by
  cases f with
  | packet p => exact p.length_emit ▸ h.2
  | raw bytes => exact h

namespace PppSession

def drivePoll? (s : PppSession) : Option PppSession := do
  let (sent, ppp) := s.ppp.poll
  let produced ← sent.mapM serialize?
  return { s with ppp, out := s.out ++ produced }

def openSession? (s : PppSession) : Option (Except Error PppSession) :=
  match s.ppp.openLink with
  | .error e => return .error e
  | .ok ppp => do
    let s ← drivePoll? { s with ppp }
    return .ok s

def feed? (md5 : Digest) (s : PppSession) (pppPayload : List UInt8) :
    Option (FeedOutcome × PppSession) := do
  let (result, sent, ppp) ← s.ppp.received? md5 pppPayload
  let produced ← sent.mapM serialize?
  let outcome := match result with
    | .error .truncated => FeedOutcome.truncated
    | .ok (.ipPacket ip) => .ip ip
    | .ok .consumed => .consumed
  let s ← drivePoll? { s with ppp, out := s.out ++ produced }
  return (outcome, s)

variable {s : PppSession}

theorem drivePoll?_eq (h : s.ppp.Bounded) :
  s.drivePoll? = some s.drivePoll
  := by
  have hmap : s.ppp.poll.1.mapM serialize? = some (s.ppp.poll.1.map serialize) :=
    mapM_eq fun f hf => serialize?_eq (PPP.fits_poll h f hf)
  simp only [drivePoll?, hmap]
  rfl

theorem openSession?_eq (h : s.ppp.Bounded) :
  s.openSession? = some s.openSession
  := by
  rw [openSession?, openSession]
  cases hopen : s.ppp.openLink with
  | error e => rfl
  | ok ppp =>
      dsimp only
      rw [drivePoll?_eq (s := { s with ppp }) (h.openLink hopen)]
      rfl

theorem feed?_eq (md5 : Digest) (h : s.ppp.Bounded) {pkt : List UInt8}
    (hlen : pkt.length + 6 < 2 ^ 16) :
  s.feed? md5 pkt = some (s.feed md5 pkt)
  := by
  have hmap : (s.ppp.received md5 pkt).2.1.mapM serialize?
      = some ((s.ppp.received md5 pkt).2.1.map serialize) :=
    mapM_eq fun f hf => serialize?_eq (PPP.fits_received md5 h hlen f hf)
  have hb := h.received md5 pkt
  rw [feed?, feed, PPP.received?_eq md5 _ _ h.username]
  simp only [Option.bind_eq_bind, Option.bind_some, hmap]
  rw [drivePoll?_eq hb, Option.bind_some]
  rfl

end PppSession

/-! ### The segment size -/

/-- Write a number into two bytes of a buffer. -/
def putU16At? (l : List UInt8) (i : ℕ) (n : UInt16) : Option (List UInt8) := do
  let l ← set l i (← toU8 (n.toNat / 2 ^ 8))
  set l (i + 1) (← toU8 (n.toNat % 2 ^ 8))

def onesComplementAdd? (a b : UInt16) : Option UInt16 :=
  let s := a.toNat + b.toNat
  toU16 (s % 2 ^ 16 + s / 2 ^ 16)

def foldTcpChecksum? (tcp : List UInt8) (old new : UInt16) : Option (List UInt8) := do
  let hc ← u16At? tcp 16
  let acc ← onesComplementAdd? (~~~hc) (~~~old)
  let acc ← onesComplementAdd? acc new
  putU16At? tcp 16 (~~~acc)

def clampFrom? (clamp : UInt16) (dataOff : ℕ) : ℕ → ℕ → List UInt8 → Option (Bool × List UInt8)
  | 0, i, tcp => if dataOff ≤ i then some (false, tcp) else none
  | fuel + 1, i, tcp =>
    if dataOff ≤ i then some (false, tcp)
    else do
      let kind ← byteAt? tcp i
      if kind = 0 then return (false, tcp)
      else if kind = 1 then clampFrom? clamp dataOff fuel (i + 1) tcp
      else if dataOff ≤ i + 1 then return (false, tcp)
      else
        let len ← byteAt? tcp (i + 1)
        if len.toNat < 2 ∨ dataOff < i + len.toNat then return (false, tcp)
        else if kind = 2 ∧ len.toNat = 4 then
          let cur ← u16At? tcp (i + 2)
          if cur ≤ clamp then return (false, tcp)
          else
            let tcp ← putU16At? tcp (i + 2) clamp
            let tcp ← foldTcpChecksum? tcp cur clamp
            return (true, tcp)
        else clampFrom? clamp dataOff fuel (i + len.toNat) tcp

def clampTcpMss? (pkt : List UInt8) (clamp : UInt16) : Option (Bool × List UInt8) :=
  if pkt.length < 20 then some (false, pkt)
  else do
    let first ← byteAt? pkt 0
    if first.toNat / 16 ≠ 4 then return (false, pkt)
    else
      let ihl := first.toNat % 16 * 4
      if ihl < 20 ∨ pkt.length < ihl + 20 then return (false, pkt)
      else
        let proto ← byteAt? pkt 9
        if proto ≠ 6 then return (false, pkt)
        else
          let fragment ← u16At? pkt 6
          if fragment.toNat % 2 ^ 13 ≠ 0 then return (false, pkt)
          else
            let tcp ← slice pkt ihl pkt.length
            let flags ← byteAt? tcp 13
            if flags.toNat / 2 % 2 = 0 then return (false, pkt)
            else
              let offset ← byteAt? tcp 12
              let dataOff := offset.toNat / 16 * 4
              if dataOff < 20 ∨ tcp.length < dataOff then return (false, pkt)
              else
                let (changed, tcp) ← clampFrom? clamp dataOff dataOff 20 tcp
                return (changed, pkt.take ihl ++ tcp)

/-- The two bytes of a buffer from a position. -/
theorem exists_drop_eq {l : List UInt8} {i : ℕ} (h : i + 1 < l.length) :
  ∃ a b, l.drop i = a :: b :: l.drop (i + 2)
  := by
  refine ⟨l[i], l[i + 1], ?_⟩
  rw [List.drop_eq_getElem_cons (by omega), List.drop_eq_getElem_cons (by omega)]

theorem u16At?_eq_take {l : List UInt8} {i : ℕ} (h : i + 1 < l.length) :
  u16At? l i = some (u16OfBe ((l.drop i).take 2))
  := by
  obtain ⟨a, b, hab⟩ := exists_drop_eq h
  have ha : l.getD i 0 = a := by
    have := congrArg (fun l => l.getD 0 0) hab
    simpa using this
  have hb : l.getD (i + 1) 0 = b := by
    have := congrArg (fun l => l.getD 1 0) hab
    simpa using this
  rw [u16At?_eq h, ha, hb, hab]
  rfl

theorem putU16At?_eq {l : List UInt8} {i : ℕ} (h : i + 1 < l.length) (n : UInt16) :
  putU16At? l i n = some (l.take i ++ u16ToBe n ++ l.drop (i + 2))
  := by
  obtain ⟨a, b, hab⟩ := exists_drop_eq h
  have hl : l = l.take i ++ (a :: b :: l.drop (i + 2)) := by rw [← hab, List.take_append_drop]
  have hi : (l.take i).length = i := by
    rw [List.length_take]
    omega
  have hn : n.toNat < 2 ^ 16 := n.toNat_lt
  have hhi : n.toNat / 2 ^ 8 < 2 ^ 8 := by omega
  have hlo : n.toNat % 2 ^ 8 < 2 ^ 8 := by omega
  have hfirst : ∀ v, set l i v = some (l.take i ++ (v :: b :: l.drop (i + 2))) := set_eq hl hi
  have hsecond : ∀ v w, set (l.take i ++ (v :: b :: l.drop (i + 2))) (i + 1) w
      = some (l.take i ++ [v] ++ (w :: l.drop (i + 2))) := by
    intro v w
    apply set_eq (x := b)
    · simp
    · simp [hi]
  have hbytes : u16ToBe n
      = [UInt8.ofNat (n.toNat / 2 ^ 8), UInt8.ofNat (n.toNat % 2 ^ 8)] := by
    rw [u16ToBe, UInt8.ofNat_mod_size]
    rfl
  rw [putU16At?, toU8_eq hhi, toU8_eq hlo]
  simp only [Option.bind_eq_bind, Option.bind_some]
  rw [hfirst, Option.bind_some, hsecond, hbytes]
  simp

theorem onesComplementAdd?_eq (a b : UInt16) :
  onesComplementAdd? a b = some (onesComplementAdd a b)
  := by
  have ha : a.toNat < 2 ^ 16 := a.toNat_lt
  have hb : b.toNat < 2 ^ 16 := b.toNat_lt
  apply toU16_eq
  omega

theorem foldTcpChecksum?_eq {tcp : List UInt8} (h : 20 ≤ tcp.length) (old new : UInt16) :
  foldTcpChecksum? tcp old new = some (foldTcpChecksum tcp old new)
  := by
  rw [foldTcpChecksum?, u16At?_eq_take (by omega)]
  simp only [Option.bind_eq_bind, Option.bind_some, onesComplementAdd?_eq]
  rw [putU16At?_eq (by omega)]
  rfl

/-- The walk comes to the end of the options. -/
theorem clampFrom?_eq {clamp : UInt16} {dataOff fuel i : ℕ} {tcp : List UInt8}
    (hoff : 20 ≤ dataOff) (hlen : dataOff ≤ tcp.length) (hi : dataOff ≤ i + fuel) :
  clampFrom? clamp dataOff fuel i tcp = some (clampFrom clamp dataOff fuel i tcp)
  := by
  induction fuel generalizing i with
  | zero =>
      rw [clampFrom?, clampFrom, if_pos (by omega)]
  | succ fuel ih =>
      rw [clampFrom?, clampFrom]
      by_cases hend : dataOff ≤ i
      · rw [if_pos hend, if_pos hend]
      rw [if_neg hend, if_neg hend, byteAt?_eq (by omega)]
      simp only [Option.bind_eq_bind, Option.bind_some]
      split
      · rfl
      split
      · exact ih (by omega)
      split
      · rfl
      rw [byteAt?_eq (by omega), Option.bind_some]
      split
      · rfl
      rename_i hshort
      have hpair : ¬ (tcp.getD (i + 1) 0).toNat < 2 ∧ ¬ dataOff < i + (tcp.getD (i + 1) 0).toNat :=
        not_or.mp hshort
      split
      · rename_i hmss
        rw [u16At?_eq_take (by omega), Option.bind_some]
        split
        · rfl
        rw [putU16At?_eq (by omega), Option.bind_some, foldTcpChecksum?_eq, Option.bind_some]
        · rfl
        · simp only [List.length_append, List.length_take, List.length_drop, length_u16ToBe]
          omega
      · exact ih (by omega)

theorem clampTcpMss?_eq (pkt : List UInt8) (clamp : UInt16) :
  clampTcpMss? pkt clamp = some (clampTcpMss pkt clamp)
  := by
  rw [clampTcpMss?, clampTcpMss]
  by_cases hshort : pkt.length < 20
  · rw [if_pos hshort, if_pos (.inl hshort)]
  rw [if_neg hshort, byteAt?_eq (by omega)]
  simp only [Option.bind_eq_bind, Option.bind_some]
  by_cases hversion : (pkt.getD 0 0).toNat / 16 ≠ 4
  · rw [if_pos hversion, if_pos (.inr hversion)]
    rfl
  rw [if_neg hversion, if_neg (not_or.mpr ⟨hshort, hversion⟩)]
  by_cases hheader : (pkt.getD 0 0).toNat % 16 * 4 < 20
      ∨ pkt.length < (pkt.getD 0 0).toNat % 16 * 4 + 20
  · rw [if_pos hheader, if_pos hheader]
    rfl
  rw [if_neg hheader, if_neg hheader, byteAt?_eq (by omega), Option.bind_some]
  obtain ⟨_, hroom⟩ := not_or.mp hheader
  split
  · rfl
  have hfragment : (u16OfBe ((pkt.drop 6).take 2)).toNat = ofBe ((pkt.drop 6).take 2) := by
    apply UInt16.toNat_ofNat_of_lt'
    apply ofBe_lt (w := 2)
    rw [List.length_take, List.length_drop]
    omega
  rw [u16At?_eq_take (by omega), Option.bind_some, hfragment]
  split
  · rfl
  have htcp : 20 ≤ (pkt.drop ((pkt.getD 0 0).toNat % 16 * 4)).length := by
    rw [List.length_drop]
    omega
  rw [slice_from (by omega), Option.bind_some, byteAt?_eq (by omega), Option.bind_some]
  generalize pkt.drop ((pkt.getD 0 0).toNat % 16 * 4) = tcp at htcp ⊢
  split
  · rfl
  rw [byteAt?_eq (by omega), Option.bind_some]
  split
  · rfl
  rename_i hoff
  obtain ⟨hmin, hmax⟩ := not_or.mp hoff
  rw [clampFrom?_eq (Nat.not_lt.mp hmin) (Nat.not_lt.mp hmax) (Nat.le_add_left _ _)]
  rfl

/-! ### The datapath -/

namespace PppoeDatapath

def clampIp? (d : PppoeDatapath) (ip : List UInt8) : Option (List UInt8) :=
  match d.clampMss with
  | some c => (clampTcpMss? ip c).map Prod.snd
  | none => some ip

def drainPppOut? (d : PppoeDatapath) : Option PppoeDatapath :=
  match d.session with
  | none => some d
  | some session => do
    let frames ←
      d.ppp.out.mapM (buildSessionFrame? session.acMac d.ourMac session.sessionId)
    return { d with ppp := { d.ppp with out := [] }, out := d.out ++ frames }

def onDiscoveryEstablished? (d : PppoeDatapath) (est : DiscoveryEstablished) :
    Option PppoeDatapath := do
  let d := { d with session := some ⟨est.acMac, est.sessionId⟩ }
  match ← d.ppp.openSession? with
  | .ok ppp =>
    let d ← drainPppOut? { d with ppp }
    return d.refreshEstablished
  | .error _ => return d

def applyDiscoveryAction? (d : PppoeDatapath) : Discovery.Action → Option PppoeDatapath
  | .send bytes => some { d with out := d.out ++ [bytes] }
  | .idle => some d
  | .established est => d.onDiscoveryEstablished? est
  | .failed =>
    if d.established.isSome ∨ d.session.isSome then
      some { d with linkDown := true, linkDownReason := some "padt" }
    else some d

def onSessionPayload? (md5 : Digest) (d : PppoeDatapath) (payload : List UInt8) :
    Option PppoeDatapath := do
  let d := { d with inboundSeen := true }
  let (outcome, ppp) ← d.ppp.feed? md5 payload
  let d := { d with ppp }
  let d ←
    match outcome with
    | .ip ip => (d.clampIp? ip).map fun ip => { d with inboundIp := d.inboundIp ++ [ip] }
    | .consumed => some d
    | .truncated => some d
  let d ← d.drainPppOut?
  let d := d.refreshEstablished
  if d.established.isSome ∧ d.linkDown = false ∧ d.ppp.lcpClosed then
    return { d with linkDown := true, linkDownReason := some "lcp-closed" }
  else return d

def onSessionFrame? (md5 : Digest) (d : PppoeDatapath) (frame : List UInt8) :
    Option PppoeDatapath :=
  match d.session with
  | none => some d
  | some session => do
    match ← (parseSessionFrame? frame).run with
    | .error _ => return d
    | .ok header =>
      if header.sessionId ≠ session.sessionId then return d
      else
        let payload ← slice frame header.pppStart header.pppEnd
        d.onSessionPayload? md5 payload

/-- A frame of the channel, as the program takes it: it faults, or the datapath goes on. -/
def onL2Frame? (md5 : Digest) (d : PppoeDatapath) (frame : List UInt8) :
    Option PppoeDatapath := do
  match ← (parseEthHeader? frame).run with
  | .error _ => return d
  | .ok (eth, _) =>
    if eth.ethertype = etherTypeDiscovery then
      let (action, discovery) ← d.discovery.onFrame? frame
      applyDiscoveryAction? { d with discovery } action
    else if eth.ethertype = etherTypeSession then d.onSessionFrame? md5 frame
    else return d

variable {md5 : Digest} {d : PppoeDatapath} {frame : List UInt8}

/-- What holds of a datapath between two calls, as far as lengths are concerned: nothing is left
in the queue of the session, and the credentials fit their length bytes. -/
structure Tame (d : PppoeDatapath) : Prop where
  out : d.ppp.out = []
  link : d.ppp.ppp.Bounded
  username : d.username.length < 2 ^ 8
  password : d.password.length < 2 ^ 8

theorem clampIp?_eq (d : PppoeDatapath) (ip : List UInt8) :
  d.clampIp? ip = some (d.clampIp ip)
  := by
  rw [clampIp?, clampIp]
  cases d.clampMss with
  | none => rfl
  | some c =>
      dsimp only
      rw [clampTcpMss?_eq]
      rfl

theorem drainPppOut?_eq (h : ∀ p ∈ d.ppp.out, p.length < 2 ^ 16) :
  d.drainPppOut? = some d.drainPppOut
  := by
  rw [drainPppOut?, drainPppOut]
  cases d.session with
  | none => rfl
  | some session =>
      have hmap : d.ppp.out.mapM (buildSessionFrame? session.acMac d.ourMac session.sessionId)
          = some (d.ppp.out.map (buildSessionFrame session.acMac d.ourMac session.sessionId)) :=
        mapM_eq fun p hp => buildSessionFrame?_eq _ _ _ (h p hp)
      simp only [hmap]
      rfl

/-- The payloads that are serialized fit their frames. -/
theorem length_lt_of_serialized {sent : List OutFrame} (h : ∀ f ∈ sent, f.Fits) :
  ∀ p ∈ sent.map serialize, p.length < 2 ^ 16
  := by
  intro p hp
  obtain ⟨f, hf, rfl⟩ := List.mem_map.mp hp
  exact length_serialize (h f hf)

theorem onDiscoveryEstablished?_eq (h : d.Tame) (est : DiscoveryEstablished) :
  d.onDiscoveryEstablished? est = some (d.onDiscoveryEstablished est)
  := by
  rw [onDiscoveryEstablished?, onDiscoveryEstablished]
  dsimp only
  rw [PppSession.openSession?_eq h.link]
  simp only [Option.bind_eq_bind, Option.bind_some]
  cases hopen : d.ppp.openSession with
  | error e => rfl
  | ok ppp =>
      have hout : ∀ p ∈ ppp.out, p.length < 2 ^ 16 := by
        rw [PppSession.openSession] at hopen
        split at hopen
        · cases hopen
        · rename_i link hlink
          obtain rfl := Except.ok.inj hopen
          simp only [PppSession.drivePoll, h.out, List.nil_append]
          exact length_lt_of_serialized (PPP.fits_poll (h.link.openLink hlink))
      dsimp only
      rw [drainPppOut?_eq (d := { d with session := some ⟨est.acMac, est.sessionId⟩, ppp }) hout]
      rfl

theorem applyDiscoveryAction?_eq (h : d.Tame) (a : Discovery.Action) :
  d.applyDiscoveryAction? a = some (d.applyDiscoveryAction a)
  := by
  cases a with
  | send bytes => rfl
  | idle => rfl
  | established est => exact onDiscoveryEstablished?_eq h est
  | failed =>
      rw [applyDiscoveryAction?, applyDiscoveryAction]
      split <;> rfl

theorem onSessionPayload?_eq (h : d.Tame) {payload : List UInt8}
    (hlen : payload.length + 6 < 2 ^ 16) :
  d.onSessionPayload? md5 payload = some (d.onSessionPayload md5 payload)
  := by
  have hout : ∀ p ∈ (d.ppp.feed md5 payload).2.out, p.length < 2 ^ 16 := by
    simp only [PppSession.feed, PppSession.drivePoll, h.out, List.nil_append]
    intro p hp
    obtain hp | hp := List.mem_append.mp hp
    · exact length_lt_of_serialized (PPP.fits_received md5 h.link hlen) p hp
    · exact length_lt_of_serialized (PPP.fits_poll (h.link.received md5 payload)) p hp
  have hend : ∀ d' : PppoeDatapath, d'.ppp.out = (d.ppp.feed md5 payload).2.out →
      d'.drainPppOut? = some d'.drainPppOut := by
    intro d' hd'
    apply drainPppOut?_eq
    rw [hd']
    exact hout
  rw [onSessionPayload?, onSessionPayload]
  dsimp only
  rw [PppSession.feed?_eq md5 h.link hlen]
  simp only [Option.bind_eq_bind, Option.bind_some]
  cases (d.ppp.feed md5 payload).1 with
  | ip ip =>
      dsimp only
      rw [clampIp?_eq, Option.map_some, Option.bind_some, hend _ rfl, Option.bind_some]
      split <;> rfl
  | consumed =>
      dsimp only
      rw [hend _ rfl, Option.bind_some]
      split <;> rfl
  | truncated =>
      dsimp only
      rw [hend _ rfl, Option.bind_some]
      split <;> rfl

theorem parseSessionFrame_range {header : SessionHeader}
    (h : parseSessionFrame frame = .ok header) :
  header.pppStart = 20 ∧ header.pppStart ≤ header.pppEnd ∧ header.pppEnd ≤ frame.length
  := by
  rw [parseSessionFrame] at h
  cases heth : parseEthHeader frame with
  | error e =>
      rw [heth] at h
      cases h
  | ok eth =>
      obtain ⟨eth, off⟩ := eth
      have hoff : off = 14 := by
        simp only [parseEthHeader, bind, Except.bind, pure, Except.pure] at heth
        repeat' split at heth
        all_goals cases heth
        rfl
      simp only [heth, bind, Except.bind, pure, Except.pure, throw, throwThe,
        MonadExceptOf.throw] at h
      repeat' split at h
      all_goals cases h
      rename_i hend
      subst hoff
      exact ⟨rfl, Nat.le_add_right _ _, Nat.not_lt.mp hend⟩

theorem onSessionFrame?_eq (h : d.Tame) (hlen : frame.length < 2 ^ 16) :
  d.onSessionFrame? md5 frame = some (d.onSessionFrame md5 frame)
  := by
  rw [onSessionFrame?, onSessionFrame]
  cases d.session with
  | none => rfl
  | some session =>
      rw [parseSessionFrame?_eq]
      cases hparse : parseSessionFrame frame with
      | error e => rfl
      | ok header =>
          obtain ⟨hstart, hle, hend⟩ := parseSessionFrame_range hparse
          simp only [Option.bind_eq_bind, Option.bind_some]
          split
          · rfl
          · rw [slice_eq hle hend, Option.bind_some]
            apply onSessionPayload?_eq h
            rw [List.length_take, List.length_drop]
            omega

/-- A frame faults the datapath exactly when it is an offer that is taken up and whose answer is
too long. -/
theorem onL2Frame?_cases (h : d.Tame) (hlen : frame.length < 2 ^ 16) :
  (d.discovery.Overlong frame → d.onL2Frame? md5 frame = none)
    ∧ (¬ d.discovery.Overlong frame →
        d.onL2Frame? md5 frame = some (d.onL2Frame md5 frame))
  := by
  rw [onL2Frame?, onL2Frame, parseEthHeader?_eq]
  constructor
  · intro hover
    obtain ⟨p, hp, _⟩ := id hover
    obtain ⟨off, heth, htype, _⟩ := parseDiscoveryFrame_eth hp
    simp only [heth, Option.bind_eq_bind, Option.bind_some, if_pos htype]
    rw [(d.discovery.onFrame?_eq frame).1 hover]
    rfl
  · intro hfits
    cases parseEthHeader frame with
    | error e => rfl
    | ok eth =>
        simp only [Option.bind_eq_bind, Option.bind_some]
        split
        · rw [(d.discovery.onFrame?_eq frame).2 hfits, Option.bind_some]
          exact applyDiscoveryAction?_eq (d := { d with discovery := (d.discovery.onFrame frame).2 }) ⟨h.1, h.2, h.3, h.4⟩ _
        · split
          · exact onSessionFrame?_eq h hlen
          · rfl

/-! ### Lengths between the calls -/

theorem tame_drainPppOut (hout : d.session = none → d.ppp.out = []) (hlink : d.ppp.ppp.Bounded)
    (hu : d.username.length < 2 ^ 8) (hp : d.password.length < 2 ^ 8) :
  d.drainPppOut.Tame
  := by
  rw [drainPppOut]
  split
  · rename_i hnone
    exact ⟨hout hnone, hlink, hu, hp⟩
  · exact ⟨rfl, hlink, hu, hp⟩

theorem Tame.refreshEstablished (h : d.Tame) :
  d.refreshEstablished.Tame
  := by
  rw [PppoeDatapath.refreshEstablished]
  split
  · exact h
  · exact ⟨h.1, h.2, h.3, h.4⟩

theorem Tame.applyDiscoveryAction (h : d.Tame) (a : Discovery.Action) :
  (d.applyDiscoveryAction a).Tame
  := by
  cases a with
  | send bytes => exact ⟨h.1, h.2, h.3, h.4⟩
  | idle => exact h
  | established est =>
      simp only [PppoeDatapath.applyDiscoveryAction, onDiscoveryEstablished,
        PppSession.openSession]
      cases hopen : d.ppp.ppp.openLink with
      | error e => exact ⟨h.1, h.2, h.3, h.4⟩
      | ok link =>
          apply Tame.refreshEstablished
          apply tame_drainPppOut
          · intro hnone
            cases hnone
          · exact (h.link.openLink hopen).poll
          · exact h.username
          · exact h.password
  | failed =>
      rw [PppoeDatapath.applyDiscoveryAction]
      split
      · exact ⟨h.1, h.2, h.3, h.4⟩
      · exact h

theorem Tame.start (h : d.Tame) :
  d.start.Tame
  := by
  apply Tame.applyDiscoveryAction
  exact ⟨h.1, h.2, h.3, h.4⟩

theorem Tame.onSessionPayload (h : d.Tame) (hsession : d.session ≠ none) (payload : List UInt8) :
  (d.onSessionPayload md5 payload).Tame
  := by
  have hlink : (d.ppp.feed md5 payload).2.ppp.Bounded := (h.link.received md5 payload).poll
  have hdrained : ∀ d' : PppoeDatapath, d'.session = d.session →
      d'.ppp = (d.ppp.feed md5 payload).2 → d'.username = d.username →
      d'.password = d.password → d'.drainPppOut.refreshEstablished.Tame := by
    intro d' hs hppp hu hp
    apply Tame.refreshEstablished
    apply tame_drainPppOut
    · intro hnone
      exact absurd (hs.symm.trans hnone) hsession
    · rw [hppp]
      exact hlink
    · rw [hu]
      exact h.username
    · rw [hp]
      exact h.password
  have hend : ∀ d' : PppoeDatapath, d'.Tame →
      Tame (if d'.established.isSome ∧ d'.linkDown = false ∧ d'.ppp.lcpClosed then
        { d' with linkDown := true, linkDownReason := some "lcp-closed" } else d') := by
    intro d' hd'
    split
    · exact ⟨hd'.1, hd'.2, hd'.3, hd'.4⟩
    · exact hd'
  simp only [PppoeDatapath.onSessionPayload]
  apply hend
  split <;> exact hdrained _ rfl rfl rfl rfl

theorem Tame.onL2Frame (h : d.Tame) (frame : List UInt8) :
  (d.onL2Frame md5 frame).Tame
  := by
  rw [PppoeDatapath.onL2Frame]
  split
  · exact h
  · split
    · apply Tame.applyDiscoveryAction
      exact ⟨h.1, h.2, h.3, h.4⟩
    · split
      · rw [onSessionFrame]
        split
        · exact h
        · rename_i session hsession
          split
          · exact h
          · split
            · exact h
            · exact h.onSessionPayload (by simp [hsession]) _
      · exact h

theorem Tame.sendEcho (h : d.Tame) (hsession : d.session ≠ none) :
  d.sendEcho.Tame
  := by
  have hlink : d.ppp.sendEchoRequest.2.ppp = d.ppp.ppp := by
    rw [PppSession.sendEchoRequest]
    dsimp only
    split <;> rfl
  apply tame_drainPppOut
  · intro hnone
    exact absurd hnone hsession
  · rw [hlink]
    exact h.link
  · exact h.username
  · exact h.password

theorem Tame.scoreInterval (h : d.Tame) (hsession : d.session ≠ none) :
  d.scoreInterval.Tame
  := by
  have hscore : ∀ d' : PppoeDatapath, d'.Tame → d'.session ≠ none →
      Tame (if echoDeadThreshold ≤ d'.echoMisses then
        { d' with linkDown := true, linkDownReason := some "echo-timeout" } else d'.sendEcho) := by
    intro d' hd' hsome
    split
    · exact ⟨hd'.1, hd'.2, hd'.3, hd'.4⟩
    · exact hd'.sendEcho hsome
  rw [PppoeDatapath.scoreInterval]
  apply hscore
  · exact ⟨h.1, ⟨h.2.1, h.2.2, h.2.3⟩, h.3, h.4⟩
  · exact hsession

theorem Tame.tickLiveness (h : d.Tame) (hsession : d.established ≠ none → d.session ≠ none) :
  d.tickLiveness.Tame
  := by
  rw [PppoeDatapath.tickLiveness]
  split
  · exact h
  rename_i hlive
  have hsome : d.session ≠ none := hsession (not_or.mp hlive).1
  split
  · exact ⟨h.1, h.2, h.3, h.4⟩
  split
  · have hecho := h.sendEcho hsome
    exact ⟨hecho.1, ⟨hecho.2.1, hecho.2.2, hecho.2.3⟩, hecho.3, hecho.4⟩
  · dsimp only
    split
    · exact ⟨h.1, h.2, h.3, h.4⟩
    · apply Tame.scoreInterval ⟨h.1, h.2, h.3, h.4⟩ hsome

/-- A link that was not opened sends nothing when the timer ticks. -/
theorem out_onTick (hidle : d.ppp.ppp.Idle) :
  d.ppp.onTick.out = d.ppp.out
  := by
  have hlcp : d.ppp.ppp.lcp.onTick = (none, d.ppp.ppp.lcp) := by
    rw [OptionFsm.onTick, if_pos (.inl hidle.lcp.1)]
  have hip : d.ppp.ppp.ipv4cp.onTick = (none, d.ppp.ppp.ipv4cp) := by
    rw [OptionFsm.onTick, if_pos (.inl hidle.ipv4cp.1)]
  have htick : d.ppp.ppp.tick = ([], d.ppp.ppp) := by
    rw [PPP.tick, hlcp, hip]
    rfl
  have hpoll : d.ppp.ppp.poll.1 = [] := by
    rw [PPP.poll, PPP.pollPhase, hidle.phase]
    rfl
  rw [PppSession.onTick, htick]
  simp [PppSession.drivePoll, hpoll]

theorem Tame.onTick (h : d.Tame) (hsound : d.core.Sound) :
  d.onTick.Tame
  := by
  have hd : Tame (PppoeDatapath.applyDiscoveryAction { d with discovery := d.discovery.onTick.2 }
      d.discovery.onTick.1) := by
    apply Tame.applyDiscoveryAction
    exact ⟨h.1, h.2, h.3, h.4⟩
  have hcore := hsound.discovered (Discovery.onTick_move d.discovery)
  have heq := core_applyDiscoveryAction { d with discovery := d.discovery.onTick.2 }
    d.discovery.onTick.1
  rw [PppoeDatapath.onTick]
  dsimp only
  generalize PppoeDatapath.applyDiscoveryAction { d with discovery := d.discovery.onTick.2 }
    d.discovery.onTick.1 = d₁ at hd heq ⊢
  have hidle : d₁.session = none → d₁.ppp.ppp.Idle ∧ d₁.established = none := by
    have hs : d₁.core.Sound := heq ▸ hcore
    exact hs.idle
  have hdrained : (drainPppOut { d₁ with ppp := d₁.ppp.onTick }).Tame := by
    apply tame_drainPppOut
    · intro hnone
      exact (out_onTick (hidle hnone).1).trans hd.out
    · exact hd.link.tick.poll
    · exact hd.username
    · exact hd.password
  have hkept := core_drainPppOut { d₁ with ppp := d₁.ppp.onTick }
  generalize drainPppOut { d₁ with ppp := d₁.ppp.onTick } = d₂ at hdrained hkept ⊢
  have hsession : d₂.established ≠ none → d₂.session ≠ none := by
    have hs : d₂.session = d₁.session := congrArg Core.session hkept
    have he : d₂.established = d₁.established := congrArg Core.established hkept
    rw [hs, he]
    intro hest hnone
    exact hest (hidle hnone).2
  split
  · refine Tame.tickLiveness ?_ hsession
    exact ⟨hdrained.1, hdrained.2, hdrained.3, hdrained.4⟩
  · exact hdrained.tickLiveness hsession

theorem tame_of_session {cfg : PppConfig} {s : PppSession} (h : PppSession.new cfg = .ok s) :
  s.out = [] ∧ s.ppp.Bounded ∧ cfg.username.length < 2 ^ 8 ∧ cfg.password.length < 2 ^ 8
  := by
  rw [PppSession.new] at h
  split at h
  · cases h
  · rename_i hshort
    obtain ⟨hu, hp⟩ := not_or.mp hshort
    obtain rfl := Except.ok.inj h
    have hu : cfg.username.length < 2 ^ 8 := by omega
    have hp : cfg.password.length < 2 ^ 8 := by omega
    exact ⟨rfl, ⟨hu, hu, hp⟩, hu, hp⟩

theorem Tame.release {random : Option UInt32} {d' : PppoeDatapath} (h : d.Tame)
    (hrel : d.release random = .ok d') :
  d'.Tame
  := by
  rw [PppoeDatapath.release] at hrel
  cases random with
  | none => cases hrel
  | some r =>
      simp only [okOr, bind, Except.bind] at hrel
      cases hnew : PppSession.new ⟨d.username, d.password, d.mru, magicOf r, d.requestDns⟩ with
      | error e =>
          rw [hnew] at hrel
          cases hrel
      | ok ppp =>
          rw [hnew] at hrel
          obtain rfl := Except.ok.inj hrel
          obtain ⟨hout, hlink, _⟩ := tame_of_session hnew
          exact ⟨hout, hlink, h.username, h.password⟩

theorem Tame.apply (h : d.Tame) (hsound : d.core.Sound) (op : Op) :
  (d.apply md5 op).Tame
  := by
  cases op with
  | start => exact h.start
  | frame bytes => exact h.onL2Frame bytes
  | tunIp ip =>
      simp only [PppoeDatapath.apply, onTunIp]
      split
      · exact h
      · exact ⟨h.1, h.2, h.3, h.4⟩
  | tick => exact h.onTick hsound
  | release random =>
      simp only [PppoeDatapath.apply]
      split
      · rename_i d' hrel
        exact h.release hrel
      · exact h
  | reset random =>
      simp only [PppoeDatapath.apply]
      split
      · rename_i d' hres
        rw [reset] at hres
        cases hrel : d.release random with
        | error e =>
            rw [hrel] at hres
            cases hres
        | ok d₁ =>
            rw [hrel] at hres
            obtain rfl := Except.ok.inj hres
            have h₁ := h.release hrel
            apply Tame.start
            exact ⟨h₁.1, h₁.2, h₁.3, h₁.4⟩
      · exact h
  | setClampMss clamp => exact ⟨h.1, h.2, h.3, h.4⟩
  | setRequestDns on => exact ⟨h.1, ⟨h.2.1, h.2.2, h.2.3⟩, h.3, h.4⟩
  | pollTransmitFrame =>
      simp only [PppoeDatapath.apply, pollTransmitFrame]
      split
      · exact h
      · exact ⟨h.1, h.2, h.3, h.4⟩
  | pollInboundIp =>
      simp only [PppoeDatapath.apply, pollInboundIp]
      split
      · exact h
      · exact ⟨h.1, h.2, h.3, h.4⟩

theorem Reachable.tame (h : d.Reachable md5) :
  d.Tame
  := by
  obtain ⟨username, password, serviceName, mru, rt, ma, mac, hu, random, d₀, ops, hd₀, hrun⟩ := h
  have hstart : d₀.Tame := by
    rw [new] at hd₀
    simp only [bind, Except.bind] at hd₀
    cases hppp : PppSession.new ⟨username, password, mru, magicOf random, false⟩ with
    | error e =>
        rw [hppp] at hd₀
        cases hd₀
    | ok ppp =>
        rw [hppp] at hd₀
        obtain rfl := Except.ok.inj hd₀
        obtain ⟨hout, hlink, hu, hp⟩ := tame_of_session hppp
        exact ⟨hout, hlink, hu, hp⟩
  have hinv : d.core.Sound ∧ d.Tame := by
    apply hrun.invariant (I := fun d => d.core.Sound ∧ d.Tame) ⟨(core_new hd₀).sound, hstart⟩
    rintro d op _ ⟨hsound, htame⟩ rfl
    exact ⟨hsound.step (core_apply md5 d op), htame.apply hsound op⟩
  exact hinv.2

/-! ### The one fault -/

/-- No frame faults a datapath, but for an offer that it takes up and whose answer is too long;
and what the frame does is then what it was said to do. -/
theorem unfaulted_iff (h : d.Reachable md5) (hlen : frame.length ≤ 65535) :
  d.onL2Frame? md5 frame = some (d.onL2Frame md5 frame) ↔ ¬ d.discovery.Overlong frame
  := by
  have hcases : (d.discovery.Overlong frame → d.onL2Frame? md5 frame = none)
      ∧ (¬ d.discovery.Overlong frame →
          d.onL2Frame? md5 frame = some (d.onL2Frame md5 frame)) :=
    onL2Frame?_cases h.tame (Nat.lt_succ_of_le hlen)
  obtain ⟨hfault, hfits⟩ := hcases
  constructor
  · intro hsome hover
    rw [hfault hover] at hsome
    cases hsome
  · exact hfits

/-- A datapath that dials for a service with a name of seventeen letters. -/
def named : PppoeDatapath :=
  ((new [1] [2] (List.replicate 17 0x61) 1492 2 3 Dialog.host (List.Vector.replicate 4 7)
    7).toOption.get rfl).start

/-- The tags of an offer with a cookie of a given length. -/
def offerTags (n : ℕ) : List UInt8 :=
  putTag tagAcCookie (List.replicate n 0) ++ putTag tagHostUniq [7, 7, 7, 7]

/-- An offer with a cookie of a given length. -/
def offer (n : ℕ) : List UInt8 :=
  putEthHeader Dialog.host Dialog.concentrator etherTypeDiscovery
    ++ putPppoe codePado 0 (offerTags n)

theorem reachable_named (md5 : Digest) :
  named.Reachable md5
  := ⟨[1], [2], List.replicate 17 0x61, 1492, 2, 3, Dialog.host, List.Vector.replicate 4 7, 7, _,
    [.start], rfl, run_foldl (apply md5) _ [.start]⟩

theorem length_offer (n : ℕ) :
  (offer n).length = 32 + n
  := by
  simp [offer, putPppoe, offerTags, length_putTag, ethHdrLen]
  omega

theorem parseDiscoveryFrame_offer {n : ℕ} (h : n < 65504) :
  parseDiscoveryFrame (offer n)
    = .ok ⟨⟨Dialog.host, Dialog.concentrator, etherTypeDiscovery⟩, codePado, 0, none,
        some (List.replicate n 0), some [7, 7, 7, 7]⟩
  := by
  have huniq : tags (putTag tagHostUniq [7, 7, 7, 7]) = .ok [⟨tagHostUniq, [7, 7, 7, 7]⟩] := rfl
  have hcookie : (List.replicate n (0 : UInt8)).length < 2 ^ 16 := by
    rw [List.length_replicate]
    omega
  have htags := tags_putTag_append (by decide : tagAcCookie ≠ tagEndOfList) hcookie huniq
  have hlen : (offerTags n).length < 2 ^ 16 := by
    simp [offerTags, length_putTag]
    omega
  exact parseDiscoveryFrame_putPppoe (by decide) hlen htags

theorem unfaulted_iff_offer :
  (offer 16).length ≤ 65535
    ∧ (named.onL2Frame? Observed.plainDigest (offer 16)
          = some (named.onL2Frame Observed.plainDigest (offer 16))
        ↔ ¬ named.discovery.Overlong (offer 16))
  := ⟨by rw [length_offer]; omega, unfaulted_iff (reachable_named _) (by rw [length_offer]; omega)⟩

/-- The longest offer that fits a frame has a cookie of 65503 bytes, and the answer to it is one
byte too long. -/
theorem faulted_by_cookie :
  named.Reachable Observed.plainDigest ∧ (offer 65503).length ≤ 65535
    ∧ named.onL2Frame? Observed.plainDigest (offer 65503) = none
  := by
  have hlen : (offer 65503).length ≤ 65535 := by rw [length_offer]
  refine ⟨reachable_named _, hlen, ?_⟩
  have htame := (reachable_named Observed.plainDigest).tame
  apply (onL2Frame?_cases htame (Nat.lt_succ_of_le hlen)).1
  refine ⟨_, parseDiscoveryFrame_offer (by omega), ⟨rfl, rfl, rfl, rfl⟩, ?_⟩
  have hname : named.discovery.serviceName = List.replicate 17 0x61 := rfl
  have huniq : named.discovery.hostUniq = some [7, 7, 7, 7] := rfl
  rw [hname, huniq, padrLength, putTag?, putTag?, List.length_append, List.length_append,
    length_putTag, length_putTag, length_putTag, List.length_replicate, List.length_replicate]
  decide

end PppoeDatapath

end ZeroNat.Pppoe

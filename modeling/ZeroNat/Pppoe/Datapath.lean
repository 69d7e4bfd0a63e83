import ZeroNat.Pppoe.Discovery
import ZeroNat.Pppoe.Engine

/-!
# The PPPoE datapath

Discovery and the PPP session over one Ethernet channel: frames come in, are given to the one or
the other by their type, and frames go out.  A timer ticks once a second.
-/

open BigEndian

namespace ZeroNat.Pppoe

open Ppp

def pppProtoIpv4 : List UInt8 := [0x00, 0x21]

/-- The ticks between two echo requests. -/
def echoIntervalTicks : ℕ := 25

/-- The intervals without an answer after which the link is dead. -/
def echoDeadThreshold : ℕ := 3

/-! ### The segment size of forwarded connections -/

def onesComplementAdd (a b : UInt16) : UInt16 :=
  let s := a.toNat + b.toNat
  UInt16.ofNat (s % 2 ^ 16 + s / 2 ^ 16)

/-- The segment with the checksum brought up to date after a field has changed. -/
def foldTcpChecksum (tcp : List UInt8) (old new : UInt16) : List UInt8 :=
  let hc := u16OfBe ((tcp.drop 16).take 2)
  let acc := onesComplementAdd (onesComplementAdd (~~~hc) (~~~old)) new
  tcp.take 16 ++ u16ToBe (~~~acc) ++ tcp.drop 18

/-- Walk the options of a segment from a position, and lower the maximum segment size. -/
def clampFrom (clamp : UInt16) (dataOff : ℕ) : ℕ → ℕ → List UInt8 → Bool × List UInt8
  | 0, _, tcp => (false, tcp)
  | fuel + 1, i, tcp =>
    if dataOff ≤ i then (false, tcp)
    else
      let kind := tcp.getD i 0
      if kind = 0 then (false, tcp)
      else if kind = 1 then clampFrom clamp dataOff fuel (i + 1) tcp
      else if dataOff ≤ i + 1 then (false, tcp)
      else
        let len := (tcp.getD (i + 1) 0).toNat
        if len < 2 ∨ dataOff < i + len then (false, tcp)
        else if kind = 2 ∧ len = 4 then
          let cur := u16OfBe ((tcp.drop (i + 2)).take 2)
          if cur ≤ clamp then (false, tcp)
          else
            let tcp := tcp.take (i + 2) ++ u16ToBe clamp ++ tcp.drop (i + 4)
            (true, foldTcpChecksum tcp cur clamp)
        else clampFrom clamp dataOff fuel (i + len) tcp

/-- Lower the maximum segment size of a connection that is opened through the link. -/
def clampTcpMss (pkt : List UInt8) (clamp : UInt16) : Bool × List UInt8 :=
  if pkt.length < 20 ∨ (pkt.getD 0 0).toNat / 16 ≠ 4 then (false, pkt)
  else
    let ihl := (pkt.getD 0 0).toNat % 16 * 4
    if ihl < 20 ∨ pkt.length < ihl + 20 then (false, pkt)
    else if pkt.getD 9 0 ≠ 6 then (false, pkt)
    -- only the first fragment has the header
    else if ofBe ((pkt.drop 6).take 2) % 2 ^ 13 ≠ 0 then (false, pkt)
    else
      let tcp := pkt.drop ihl
      if (tcp.getD 13 0).toNat / 2 % 2 = 0 then (false, pkt)
      else
        let dataOff := (tcp.getD 12 0).toNat / 16 * 4
        if dataOff < 20 ∨ tcp.length < dataOff then (false, pkt)
        else
          let (changed, tcp) := clampFrom clamp dataOff dataOff 20 tcp
          (changed, pkt.take ihl ++ tcp)

/-! ### The datapath -/

/-- What the shell sees of the datapath. -/
inductive DpPhase where
  | discovery
  | ppp
  | established (est : Established)
  | linkDown
  | dead
deriving DecidableEq

structure SessionParams where
  acMac : MacAddr
  sessionId : UInt16
deriving DecidableEq

/-- The datapath: the two machines, the session and the configuration once there are, the queues
in both directions, the liveness of the link, and what the machines are built from. -/
structure PppoeDatapath where
  ourMac : MacAddr
  discovery : Discovery
  ppp : PppSession
  session : Option SessionParams
  established : Option Established
  out : List (List UInt8)
  inboundIp : List (List UInt8)
  echoTicks : ℕ
  echoMisses : ℕ
  echoOutstanding : Bool
  inboundSeen : Bool
  linkDown : Bool
  linkDownReason : Option String
  username : List UInt8
  password : List UInt8
  serviceName : List UInt8
  hostUniq : Option (List UInt8)
  mru : UInt16
  retransmitTicks : ℕ
  maxAttempts : ℕ
  requestDns : Bool
  clampMss : Option UInt16
deriving DecidableEq

namespace PppoeDatapath

/-- A new datapath, from what the random source gives: our address, the tag, and the magic
number. -/
def new (username password serviceName : List UInt8) (mru : UInt16)
    (retransmitTicks maxAttempts : ℕ) (ourMac : MacAddr) (hu : Bytes 4) (random : UInt32) :
    Except Error PppoeDatapath := do
  let hostUniq := some hu.toList
  let ppp ← PppSession.new ⟨username, password, mru, magicOf random, false⟩
  return {
    ourMac
    discovery := Discovery.new ourMac serviceName hostUniq retransmitTicks maxAttempts
    ppp
    session := none
    established := none
    out := []
    inboundIp := []
    echoTicks := 0
    echoMisses := 0
    echoOutstanding := false
    inboundSeen := false
    linkDown := false
    linkDownReason := none
    username
    password
    serviceName
    hostUniq
    mru
    retransmitTicks
    maxAttempts
    requestDns := false
    clampMss := none }

def setClampMss (d : PppoeDatapath) (clamp : UInt16) : PppoeDatapath :=
  { d with clampMss := some clamp }

def setRequestDns (d : PppoeDatapath) (on : Bool) : PppoeDatapath :=
  { d with requestDns := on, ppp := d.ppp.setRequestDns on }

/-- A packet with its segment size lowered, if that is enabled. -/
def clampIp (d : PppoeDatapath) (ip : List UInt8) : List UInt8 :=
  match d.clampMss with
  | some c => (clampTcpMss ip c).2
  | none => ip

def phase (d : PppoeDatapath) : DpPhase :=
  if d.linkDown then .linkDown
  else if d.discovery.state = .dead ∧ d.session = none then .dead
  else
    match d.established with
    | some est => .established est
    | none => if d.session.isSome then .ppp else .discovery

/-- Every payload that is queued goes out in a session frame. -/
def drainPppOut (d : PppoeDatapath) : PppoeDatapath :=
  match d.session with
  | none => d
  | some session =>
    { d with
      ppp := { d.ppp with out := [] }
      out := d.out ++ d.ppp.out.map (buildSessionFrame session.acMac d.ourMac session.sessionId) }

def refreshEstablished (d : PppoeDatapath) : PppoeDatapath :=
  match d.established with
  | some _ => d
  | none => { d with established := d.ppp.established }

def onDiscoveryEstablished (d : PppoeDatapath) (est : DiscoveryEstablished) : PppoeDatapath :=
  let d := { d with session := some ⟨est.acMac, est.sessionId⟩ }
  match d.ppp.openSession with
  | .ok ppp => (drainPppOut { d with ppp }).refreshEstablished
  | .error _ => d

def applyDiscoveryAction (d : PppoeDatapath) : Discovery.Action → PppoeDatapath
  | .send bytes => { d with out := d.out ++ [bytes] }
  | .idle => d
  | .established est => d.onDiscoveryEstablished est
  | .failed =>
    if d.established.isSome ∨ d.session.isSome then
      { d with linkDown := true, linkDownReason := some "padt" }
    else d

def start (d : PppoeDatapath) : PppoeDatapath :=
  let (action, discovery) := d.discovery.start
  applyDiscoveryAction { d with discovery } action

/-- Drop the session, if the random source gives a new magic number. -/
def release (d : PppoeDatapath) (random : Option UInt32) : Except Error PppoeDatapath := do
  let random ← okOr random .rng
  let ppp ← PppSession.new ⟨d.username, d.password, d.mru, magicOf random, d.requestDns⟩
  return { d with
    ppp
    session := none
    established := none
    out := []
    inboundIp := []
    echoTicks := 0
    echoMisses := 0
    echoOutstanding := false
    inboundSeen := false }

/-- Dial again. -/
def reset (d : PppoeDatapath) (random : Option UInt32) : Except Error PppoeDatapath := do
  let d ← d.release random
  return start { d with
    discovery :=
      Discovery.new d.ourMac d.serviceName d.hostUniq d.retransmitTicks d.maxAttempts
    linkDown := false
    linkDownReason := none }

/-- A session frame with our session has arrived. -/
def onSessionPayload (md5 : Digest) (d : PppoeDatapath) (payload : List UInt8) : PppoeDatapath :=
  let d := { d with inboundSeen := true }
  let (outcome, ppp) := d.ppp.feed md5 payload
  let d := { d with ppp }
  let d :=
    match outcome with
    | .ip ip => { d with inboundIp := d.inboundIp ++ [d.clampIp ip] }
    | .consumed => d
    | .truncated => d
  let d := d.drainPppOut.refreshEstablished
  if d.established.isSome ∧ d.linkDown = false ∧ d.ppp.lcpClosed then
    { d with linkDown := true, linkDownReason := some "lcp-closed" }
  else d

def onSessionFrame (md5 : Digest) (d : PppoeDatapath) (frame : List UInt8) : PppoeDatapath :=
  match d.session with
  | none => d
  | some session =>
    match parseSessionFrame frame with
    | .error _ => d
    | .ok header =>
      if header.sessionId ≠ session.sessionId then d
      else
        d.onSessionPayload md5 ((frame.drop header.pppStart).take (header.pppEnd - header.pppStart))

/-- A frame of the channel. -/
def onL2Frame (md5 : Digest) (d : PppoeDatapath) (frame : List UInt8) : PppoeDatapath :=
  match parseEthHeader frame with
  | .error _ => d
  | .ok (eth, _) =>
    if eth.ethertype = etherTypeDiscovery then
      let (action, discovery) := d.discovery.onFrame frame
      applyDiscoveryAction { d with discovery } action
    else if eth.ethertype = etherTypeSession then d.onSessionFrame md5 frame
    else d

/-- A packet of the tunnel goes out in a session frame. -/
def onTunIp (d : PppoeDatapath) (ip : List UInt8) : PppoeDatapath :=
  match d.session with
  | none => d
  | some session =>
    let payload := pppProtoIpv4 ++ d.clampIp ip
    { d with
      out := d.out ++ [buildSessionFrame session.acMac d.ourMac session.sessionId payload] }

/-- An echo request goes out. -/
def sendEcho (d : PppoeDatapath) : PppoeDatapath :=
  drainPppOut { d with ppp := d.ppp.sendEchoRequest.2 }

/-- The end of an interval between two echo requests. -/
def scoreInterval (d : PppoeDatapath) : PppoeDatapath :=
  let (reply, ppp) := d.ppp.takeEchoReplySeen
  let misses := if reply ∨ d.inboundSeen then 0 else d.echoMisses + 1
  let d := { d with echoTicks := 0, ppp, inboundSeen := false, echoMisses := misses }
  if echoDeadThreshold ≤ d.echoMisses then
    { d with linkDown := true, linkDownReason := some "echo-timeout" }
  else d.sendEcho

/-- The liveness of the link. -/
def tickLiveness (d : PppoeDatapath) : PppoeDatapath :=
  if d.established = none ∨ d.linkDown then d
  else if d.ppp.lcpClosed then
    { d with linkDown := true, linkDownReason := some "lcp-closed" }
  else if d.echoOutstanding = false then
    let d := d.sendEcho
    { d with
      echoOutstanding := true
      echoTicks := 0
      inboundSeen := false
      ppp := d.ppp.takeEchoReplySeen.2 }
  else
    let d := { d with echoTicks := d.echoTicks + 1 }
    if d.echoTicks < echoIntervalTicks then d else d.scoreInterval

def onTick (d : PppoeDatapath) : PppoeDatapath :=
  let (action, discovery) := d.discovery.onTick
  let d := applyDiscoveryAction { d with discovery } action
  let d := drainPppOut { d with ppp := d.ppp.onTick }
  let d :=
    if d.session.isSome ∧ d.linkDown = false ∧ d.ppp.phase = .dead then
      { d with linkDown := true, linkDownReason := some "ppp-timeout" }
    else d
  d.tickLiveness

def pollTransmitFrame (d : PppoeDatapath) : Option (List UInt8) × PppoeDatapath :=
  match d.out with
  | [] => (none, d)
  | frame :: out => (some frame, { d with out })

def pollInboundIp (d : PppoeDatapath) : Option (List UInt8) × PppoeDatapath :=
  match d.inboundIp with
  | [] => (none, d)
  | ip :: inboundIp => (some ip, { d with inboundIp })

end PppoeDatapath

end ZeroNat.Pppoe

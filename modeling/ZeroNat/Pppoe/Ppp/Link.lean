import ZeroNat.Pppoe.Ppp.Protocols

/-!
# The PPP link

The link goes through phases: it is established by LCP, authenticated, and configured by IPCP.
-/

namespace ZeroNat.Pppoe.Ppp

inductive Phase where
  | dead
  | establish
  | auth
  | network
  | opened
deriving DecidableEq, Repr

/-- A snapshot of the link. -/
structure Status where
  phase : Phase
  ipv4 : Option Ipv4Status
  mru : UInt16
deriving DecidableEq

/-- What a payload was. -/
inductive RxOutcome where
  | consumed
  | ipPacket (ip : List UInt8)
deriving DecidableEq

inductive RxError where
  | truncated
deriving DecidableEq

/-- A frame that is to be sent. -/
inductive OutFrame where
  | packet (p : Packet)
  | raw (bytes : List UInt8)
deriving DecidableEq

/-- The link: its phase, the four protocols, and whether an answer to an echo has been seen. -/
structure PPP where
  phase : Phase
  opening : Bool
  username : List UInt8
  password : List UInt8
  lcp : OptionFsm Lcp
  pap : Pap
  chap : Chap
  ipv4cp : OptionFsm Ipv4cp
  echoReplySeen : Bool
deriving DecidableEq

namespace PPP

def new (username password : List UInt8) (mruLocal : UInt16) (magicLocal : UInt32) : PPP where
  phase := .dead
  opening := false
  username
  password
  lcp := .new (.new mruLocal magicLocal)
  pap := .new username password
  chap := .new
  ipv4cp := .new .new
  echoReplySeen := false

def setRequestDns (l : PPP) (on : Bool) : PPP :=
  { l with ipv4cp := { l.ipv4cp with proto := l.ipv4cp.proto.setRequestDns on } }

def lcpClosed (l : PPP) : Bool :=
  l.lcp.state = .closed

/-- An echo request, once the link is up. -/
def lcpEchoRequest (l : PPP) (id : UInt8) : Option OutFrame :=
  if l.lcp.linkUp then some (.packet (l.lcp.sendEchoRequest id l.lcp.proto.magicLocal)) else none

/-- An answer to an echo that carries another magic number than ours comes from the peer. -/
def isPeerEchoReply (pkt : List UInt8) (ourMagic : UInt32) : Bool :=
  let body := pkt.drop 2
  8 ≤ body.length && Code.ofU8 (body.getD 0 0) = .echoReply
    && u32OfBe ((body.drop 4).take 4) ≠ ourMagic

def status (l : PPP) : Status where
  phase := l.phase
  ipv4 := if l.ipv4cp.state = .opened then some l.ipv4cp.proto.status else none
  mru := min l.lcp.proto.mruLocal l.lcp.proto.mruRemote

def openLink (l : PPP) : Except Error PPP :=
  match l.phase with
  | .dead => .ok { l with phase := .establish, opening := true }
  | _ => .error .invalidState

variable (md5 : Digest)

/-- Handle a payload: what it was, and the frames that are sent. -/
def received (l : PPP) (pkt : List UInt8) : Except RxError RxOutcome × List OutFrame × PPP :=
  match getRange pkt 0 2 with
  | none => (.error .truncated, [], l)
  | some proto =>
    match ProtocolType.ofU16 (u16OfBe proto) with
    | .lcp =>
      let seen := isPeerEchoReply pkt l.lcp.proto.magicLocal
      let (sent, lcp) := l.lcp.handle pkt
      (.ok .consumed, sent.map .packet, { l with lcp, echoReplySeen := l.echoReplySeen || seen })
    | .pap =>
      let (sent, pap) := l.pap.handle pkt
      (.ok .consumed, sent.map .packet, { l with pap })
    | .chap =>
      let (result, chap) := l.chap.handle md5 pkt l.username l.password
      let sent := match result with
        | .ok (some resp) => [OutFrame.raw resp]
        | _ => []
      (.ok .consumed, sent, { l with chap })
    | .ipv4 => (.ok (.ipPacket (pkt.drop 2)), [], l)
    | .ipv4cp =>
      let (sent, ipv4cp) := l.ipv4cp.handle pkt
      (.ok .consumed, sent.map .packet, { l with ipv4cp })
    | .unknown =>
      let (p, lcp) := l.lcp.sendProtocolReject pkt
      (.ok .consumed, [.packet p], { l with lcp })

/-- The restart timers of the two negotiations. -/
def tick (l : PPP) : List OutFrame × PPP :=
  let (p, lcp) := l.lcp.onTick
  let (q, ipv4cp) := l.ipv4cp.onTick
  ((p.toList ++ q.toList).map .packet, { l with lcp, ipv4cp })

/-- The link is being established: LCP is opened, and then we authenticate. -/
def pollEstablish (l : PPP) : List Packet × PPP :=
  let (sent, l) :=
    if l.lcp.state = .closed ∧ l.lcp.failed = false then
      let (p, lcp) := l.lcp.openFsm
      ([p], { l with lcp, opening := false })
    else ([], l)
  if l.lcp.state = .opened then
    match l.lcp.proto.auth with
    | .none =>
      let (p, ipv4cp) := l.ipv4cp.openFsm
      (sent ++ [p], { l with ipv4cp, phase := .network })
    -- the peer starts CHAP: we wait for its challenge
    | .chapMd5 => (sent, { l with phase := .auth })
    | .pap =>
      let (p, pap) := l.pap.openPap
      (sent ++ [p], { l with pap, phase := .auth })
  else
    let l := if l.pap.state ≠ .closed then { l with pap := l.pap.close } else l
    let l := if l.ipv4cp.state ≠ .closed then { l with ipv4cp := l.ipv4cp.close } else l
    (sent, l)

/-- We authenticate: IPCP is opened when we have. -/
def pollAuth (l : PPP) : List Packet × PPP :=
  if l.chap.isSuccess ∨ l.pap.state = .opened then
    let (p, ipv4cp) := l.ipv4cp.openFsm
    ([p], { l with ipv4cp, phase := .network })
  else if l.ipv4cp.state ≠ .closed then ([], { l with ipv4cp := l.ipv4cp.close })
  else ([], l)

/-- The step of a phase. -/
def pollPhase (l : PPP) : List Packet × PPP :=
  match l.phase with
  | .dead => ([], l)
  | .establish => l.pollEstablish
  | .auth => l.pollAuth
  | .network => if l.ipv4cp.state = .opened then ([], { l with phase := .opened }) else ([], l)
  | .opened => ([], l)

/-- Advance the link one step.  A negotiation that has given up, or an LCP that was torn down,
ends it. -/
def poll (l : PPP) : List OutFrame × PPP :=
  let (sent, l) := l.pollPhase
  let dead := (l.lcp.state = .closed ∧ l.opening = false) ∨ l.ipv4cp.failed = true
  (sent.map .packet, if dead then { l with phase := .dead } else l)

end PPP

end ZeroNat.Pppoe.Ppp

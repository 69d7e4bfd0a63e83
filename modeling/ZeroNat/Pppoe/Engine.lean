import ZeroNat.Pppoe.Ppp.Link

/-!
# The session engine

A PPP link that is fed with payloads and drained of payloads.
-/

namespace ZeroNat.Pppoe

open Ppp

/-- What a session is configured with. -/
structure PppConfig where
  username : List UInt8
  password : List UInt8
  mru : UInt16
  magic : UInt32
  requestDns : Bool
deriving DecidableEq

/-- What feeding a payload did. -/
inductive FeedOutcome where
  | consumed
  | ip (bytes : List UInt8)
  | truncated
deriving DecidableEq

/-- The configuration that a link has negotiated. -/
structure Established where
  localIp : Ipv4Addr
  peerIp : Ipv4Addr
  dns : Option Ipv4Addr × Option Ipv4Addr
  mru : UInt16
deriving DecidableEq

structure PppSession where
  ppp : PPP
  out : List (List UInt8)
  echoId : UInt8
deriving DecidableEq

def defaultMru : UInt16 := 1492

/-- A magic number of zero means that there is none. -/
def magicOf (random : UInt32) : UInt32 :=
  if random = 0 then 1 else random

/-- The bytes of a frame. -/
def serialize : OutFrame → List UInt8
  | .packet p => p.emit
  | .raw bytes => bytes

namespace PppSession

def new (cfg : PppConfig) : Except Error PppSession :=
  if 255 < cfg.username.length ∨ 255 < cfg.password.length then .error .credentialTooLong
  else
    .ok ⟨(PPP.new cfg.username cfg.password cfg.mru cfg.magic).setRequestDns cfg.requestDns, [], 0⟩

def setRequestDns (s : PppSession) (on : Bool) : PppSession :=
  { s with ppp := s.ppp.setRequestDns on }

def drivePoll (s : PppSession) : PppSession :=
  let (sent, ppp) := s.ppp.poll
  { s with ppp, out := s.out ++ sent.map serialize }

def openSession (s : PppSession) : Except Error PppSession :=
  match s.ppp.openLink with
  | .error e => .error e
  | .ok ppp => .ok (drivePoll { s with ppp })

def feed (md5 : Digest) (s : PppSession) (pppPayload : List UInt8) : FeedOutcome × PppSession :=
  let (result, sent, ppp) := s.ppp.received md5 pppPayload
  let outcome := match result with
    | .error .truncated => FeedOutcome.truncated
    | .ok (.ipPacket ip) => .ip ip
    | .ok .consumed => .consumed
  (outcome, drivePoll { s with ppp, out := s.out ++ sent.map serialize })

def onTick (s : PppSession) : PppSession :=
  let (sent, ppp) := s.ppp.tick
  drivePoll { s with ppp, out := s.out ++ sent.map serialize }

def phase (s : PppSession) : Phase :=
  s.ppp.status.phase

/-- The configuration, once the link is open and both addresses are known. -/
def established (s : PppSession) : Option Established := do
  let status := s.ppp.status
  if status.phase ≠ .opened then none
  let ipv4 ← status.ipv4
  let localIp ← ipv4.address
  let peerIp ← ipv4.peerAddress
  return ⟨localIp, peerIp, ipv4.dnsServers, status.mru⟩

def sendEchoRequest (s : PppSession) : Bool × PppSession :=
  let s := { s with echoId := s.echoId + 1 }
  match s.ppp.lcpEchoRequest s.echoId with
  | some frame => (true, { s with out := s.out ++ [serialize frame] })
  | none => (false, s)

def takeEchoReplySeen (s : PppSession) : Bool × PppSession :=
  (s.ppp.echoReplySeen, { s with ppp := { s.ppp with echoReplySeen := false } })

def lcpClosed (s : PppSession) : Bool :=
  s.ppp.lcpClosed

end PppSession

end ZeroNat.Pppoe

import ZeroNat.Pppoe.Ppp.Wire

/-!
# Option negotiation

The machine by which both ends of a link agree on the options of a protocol: each requests its
own, and acknowledges, corrects or rejects those of the other.  The protocols are LCP and IPCP.
-/

open BigEndian

namespace ZeroNat.Pppoe.Ppp

inductive Verdict where
  | ack
  | nack (data : List UInt8)
  | rej
deriving DecidableEq

/-- What negotiation needs of a protocol. -/
class Protocol (P : Type) where
  protocol : P → ProtocolType
  ownOptions : P → List OptionVal
  ownOptionNacked : P → UInt8 → List UInt8 → Bool → P
  peerOptionsStart : P → P
  peerOptionReceived : P → UInt8 → List UInt8 → Verdict × P
  echoReplyMagic : P → Option UInt32

namespace OptionFsm

inductive State where
  | closed
  | reqSent
  | ackReceived
  | ackSent
  | opened
deriving DecidableEq, Repr

end OptionFsm

/-- The ticks after which a request is sent again. -/
def restartTicks : ℕ := 3

/-- The requests that are sent before the negotiation has failed. -/
def maxConfigure : ℕ := 10

/-- The corrections that are sent before they turn into rejections. -/
def maxFailure : ℕ := 5

/-- The state of a negotiation.  That the link has been up is remembered until it is closed; that
the requests have run out, until it is opened again. -/
structure OptionFsm (P : Type) where
  id : UInt8
  state : OptionFsm.State
  upSeen : Bool
  ticksSinceSend : ℕ
  attempts : ℕ
  naksSent : ℕ
  failed : Bool
  proto : P
deriving DecidableEq

/-- Go through the options of a packet.  Those before a malformed one have been handed on by the
time it is found.  Every option takes two bytes at least. -/
def parseOptionsFrom {σ : Type} (f : σ → UInt8 → List UInt8 → σ) :
    ℕ → σ → List UInt8 → σ × Bool
  | _, s, [] => (s, true)
  | 0, s, _ => (s, false)
  | _ + 1, s, [_] => (s, false)
  | fuel + 1, s, code :: len :: rest =>
    if rest.length + 2 < len.toNat then (s, false)
    else if len.toNat < 2 then (s, false)
    else
      parseOptionsFrom f fuel (f s code (rest.take (len.toNat - 2))) (rest.drop (len.toNat - 2))

def parseOptions {σ : Type} (f : σ → UInt8 → List UInt8 → σ) (s : σ) (pkt : List UInt8) :
    σ × Bool :=
  parseOptionsFrom f pkt.length s pkt

namespace OptionFsm

variable {P : Type}

def new (proto : P) : OptionFsm P where
  id := 1
  state := .closed
  upSeen := false
  ticksSinceSend := 0
  attempts := 0
  naksSent := 0
  failed := false
  proto

/-- The link is usable, also while it is negotiated again. -/
def linkUp (m : OptionFsm P) : Bool :=
  m.upSeen && m.state ≠ .closed

def enterClosed (m : OptionFsm P) : OptionFsm P :=
  { m with state := .closed, upSeen := false }

def close (m : OptionFsm P) : OptionFsm P :=
  m.enterClosed

def nextId (m : OptionFsm P) : OptionFsm P :=
  { m with id := m.id + 1 }

variable [Protocol P]

/-- Our request under an identifier.  It restarts the timer and counts as an attempt. -/
def configureRequest (m : OptionFsm P) (id : UInt8) : Packet × OptionFsm P :=
  (⟨Protocol.protocol m.proto, .ppp .configureReq id (.options (Protocol.ownOptions m.proto))⟩,
    { m with ticksSinceSend := 0, attempts := m.attempts + 1 })

def sendConfigureRequest (m : OptionFsm P) : Packet × OptionFsm P :=
  let m := m.nextId
  m.configureRequest m.id

/-- Start to negotiate. -/
def openFsm (m : OptionFsm P) : Packet × OptionFsm P :=
  if m.state ≠ .closed then m.sendConfigureRequest
  else
    sendConfigureRequest { m with failed := false, attempts := 0, naksSent := 0, state := .reqSent }

/-- The restart timer.  When the requests have run out, a link that was never up has failed; one
that has been up is left to its own liveness. -/
def onTick (m : OptionFsm P) : Option Packet × OptionFsm P :=
  if m.state = .closed ∨ m.state = .opened then (none, m)
  else
    let m := { m with ticksSinceSend := m.ticksSinceSend + 1 }
    if m.ticksSinceSend < restartTicks then (none, m)
    else if maxConfigure ≤ m.attempts then
      if m.upSeen then (none, m) else (none, { m.enterClosed with failed := true })
    else
      let m := if m.state = .ackReceived then { m with state := .reqSent } else m
      let (p, m) := m.configureRequest m.id
      (some p, m)

def sendTerminateAck (m : OptionFsm P) (id : UInt8) : Packet :=
  ⟨Protocol.protocol m.proto, .ppp .terminateAck id (.raw [])⟩

/-- The reply to an echo request: the packet itself, with our magic number in place of that of the
peer. -/
def sendEchoResponse (m : OptionFsm P) (pkt : List UInt8) : Option Packet :=
  match pkt.drop 2 with
  | [] => none
  | _ :: rest =>
    let body := Code.echoReply.toU8 :: rest
    let body :=
      match Protocol.echoReplyMagic m.proto with
      | some magic =>
        if 8 ≤ body.length then body.take 4 ++ u32ToBe magic ++ body.drop 8 else body
      | none => body
    some ⟨Protocol.protocol m.proto, .raw body⟩

def sendEchoRequest (m : OptionFsm P) (id : UInt8) (magic : UInt32) : Packet :=
  ⟨Protocol.protocol m.proto, .ppp .echoReq id (.owned (u32ToBe magic))⟩

/-- The answer to a packet of a protocol that we do not know. -/
def sendProtocolReject (m : OptionFsm P) (pkt : List UInt8) : Packet × OptionFsm P :=
  let m := m.nextId
  (⟨Protocol.protocol m.proto, .ppp .protocolRej m.id (.raw pkt)⟩, m)

/-- The reply that is built up while the options of a request are gone through. -/
structure Reply (P : Type) where
  proto : P
  code : Code
  opts : List OptionVal

/-- One option of a request.  The reply is of the worst kind that any option calls for, and holds
the options of that kind. -/
def replyOption (naksExhausted : Bool) (r : Reply P) (ocode : UInt8) (odata : List UInt8) :
    Reply P :=
  let (verdict, proto) := Protocol.peerOptionReceived r.proto ocode odata
  let (retCode, data) :=
    match verdict with
    | .ack => (Code.configureAck, odata)
    | .nack data => if naksExhausted then (Code.configureRej, odata) else (Code.configureNack, data)
    | .rej => (Code.configureRej, odata)
  let (code, opts) :=
    if r.code.toU8 < retCode.toU8 then (retCode, []) else (r.code, r.opts)
  ⟨proto, code, if code = retCode then opts ++ [⟨ocode, data⟩] else opts⟩

/-- The reply to a request of the peer.  A malformed request has none. -/
def receivedConfigureReq (m : OptionFsm P) (pkt : List UInt8) : Option Packet × OptionFsm P :=
  let start : Reply P := ⟨Protocol.peerOptionsStart m.proto, .configureAck, []⟩
  let (r, wellFormed) :=
    parseOptions (replyOption (decide (maxFailure ≤ m.naksSent))) start (pkt.drop 6)
  let m := { m with proto := r.proto }
  if !wellFormed then (none, m)
  else
    let naksSent :=
      match r.code with
      | .configureAck => 0
      | .configureNack => m.naksSent + 1
      | _ => m.naksSent
    (some ⟨Protocol.protocol m.proto, .ppp r.code (pkt.getD 3 0) (.options r.opts)⟩,
      { m with naksSent })

/-- What a request of the peer does, once it is answered. -/
def afterConfigureReq (m : OptionFsm P) (acked : Bool) : List Packet × OptionFsm P :=
  match acked, m.state with
  | _, .closed => ([], m)
  | true, .reqSent => ([], { m with state := .ackSent })
  | true, .ackReceived => ([], { m with state := .opened, upSeen := true })
  | true, .ackSent => ([], m)
  | true, .opened =>
    let (p, m) := m.sendConfigureRequest
    ([p], { m with state := .ackSent })
  | false, .ackSent => ([], { m with state := .reqSent })
  | false, .opened =>
    let (p, m) := m.sendConfigureRequest
    ([p], { m with state := .reqSent })
  | false, .reqSent => ([], m)
  | false, .ackReceived => ([], m)

def onConfigureReq (m : OptionFsm P) (pkt : List UInt8) : List Packet × OptionFsm P :=
  match m.receivedConfigureReq pkt with
  | (none, m) => ([], m)
  | (some resp, m) =>
    let acked := match resp.payload with
      | .ppp .configureAck _ _ => true
      | _ => false
    let (sent, m) := m.afterConfigureReq acked
    (resp :: sent, m)

def onConfigureAck (m : OptionFsm P) : List Packet × OptionFsm P :=
  match m.state with
  | .closed => ([], m)
  | .reqSent => ([], { m with state := .ackReceived })
  | .ackSent => ([], { m with state := .opened, upSeen := true })
  | .ackReceived =>
    let (p, m) := sendConfigureRequest { m with state := .reqSent }
    ([p], m)
  | .opened =>
    let (p, m) := sendConfigureRequest { m with state := .reqSent }
    ([p], m)

def onConfigureNack (m : OptionFsm P) (isRej : Bool) (pkt : List UInt8) :
    List Packet × OptionFsm P :=
  let (proto, wellFormed) :=
    parseOptions (fun proto code data => Protocol.ownOptionNacked proto code data isRej) m.proto
      (pkt.drop 6)
  let m := { m with proto }
  if !wellFormed then ([], m)
  else
    match m.state with
    | .closed => ([], m)
    | .ackSent =>
      let (p, m) := m.sendConfigureRequest
      ([p], m)
    | _ =>
      let (p, m) := sendConfigureRequest { m with state := .reqSent }
      ([p], m)

def onTerminateReq (m : OptionFsm P) (id : UInt8) : List Packet × OptionFsm P :=
  match m.state with
  | .closed => ([], m)
  | .opened => ([m.sendTerminateAck id], m.enterClosed)
  | _ => ([m.sendTerminateAck id], { m with state := .reqSent })

/-- A control packet whose length has been checked. -/
def handleControl (m : OptionFsm P) (code : Code) (id : UInt8) (pkt : List UInt8) :
    List Packet × OptionFsm P :=
  match code with
  | .echoReq => if m.linkUp then ((m.sendEchoResponse pkt).toList, m) else ([], m)
  | .discardReq => ([], m)
  | _ =>
    if m.state = .closed then ([m.sendTerminateAck id], m)
    else
      match code with
      | .configureReq => m.onConfigureReq pkt
      | .configureAck => m.onConfigureAck
      | .configureNack => m.onConfigureNack false pkt
      | .configureRej => m.onConfigureNack true pkt
      | .terminateReq => m.onTerminateReq id
      | _ => ([], m)

/-- Handle a packet of the protocol, with the protocol field in front. -/
def handle (m : OptionFsm P) (pkt : List UInt8) : List Packet × OptionFsm P :=
  if pkt.length < 6 then ([], m)
  else
    let code := Code.ofU8 (pkt.getD 2 0)
    let id := pkt.getD 3 0
    let len := ofBe [pkt.getD 4 0, pkt.getD 5 0]
    if len < 4 then ([], m)
    else if pkt.length < len + 2 then ([], m)
    else
      let pkt := pkt.take (len + 2)
      -- an answer to our request arms the restart counter again
      let m :=
        if m.state ≠ .closed ∧ code ∈ [.configureAck, .configureNack, .configureRej] then
          { m with attempts := 0 }
        else m
      m.handleControl code id pkt

end OptionFsm

end ZeroNat.Pppoe.Ppp

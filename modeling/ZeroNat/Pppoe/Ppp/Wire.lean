import ZeroNat.Pppoe.Session

/-!
# PPP packets

The protocols and the codes of PPP control packets, and how an outgoing packet is laid out.
-/

namespace ZeroNat.Pppoe.Ppp

inductive ProtocolType where
  | unknown
  | lcp
  | pap
  | chap
  | ipv4
  | ipv4cp
deriving DecidableEq, Repr

namespace ProtocolType

def ofU16 (v : UInt16) : ProtocolType :=
  if v = 0xc021 then lcp
  else if v = 0xc023 then pap
  else if v = 0xc223 then chap
  else if v = 0x0021 then ipv4
  else if v = 0x8021 then ipv4cp
  else unknown

def toU16 : ProtocolType → UInt16
  | unknown => 0
  | lcp => 0xc021
  | pap => 0xc023
  | chap => 0xc223
  | ipv4 => 0x0021
  | ipv4cp => 0x8021

end ProtocolType

inductive Code where
  | unknown
  | configureReq
  | configureAck
  | configureNack
  | configureRej
  | terminateReq
  | terminateAck
  | codeRej
  | protocolRej
  | echoReq
  | echoReply
  | discardReq
deriving DecidableEq, Repr

namespace Code

def ofU8 (v : UInt8) : Code :=
  if v = 1 then configureReq
  else if v = 2 then configureAck
  else if v = 3 then configureNack
  else if v = 4 then configureRej
  else if v = 5 then terminateReq
  else if v = 6 then terminateAck
  else if v = 7 then codeRej
  else if v = 8 then protocolRej
  else if v = 9 then echoReq
  else if v = 10 then echoReply
  else if v = 11 then discardReq
  else unknown

def toU8 : Code → UInt8
  | unknown => 0
  | configureReq => 1
  | configureAck => 2
  | configureNack => 3
  | configureRej => 4
  | terminateReq => 5
  | terminateAck => 6
  | codeRej => 7
  | protocolRej => 8
  | echoReq => 9
  | echoReply => 10
  | discardReq => 11

end Code

/-- An option of a control packet. -/
structure OptionVal where
  code : UInt8
  data : List UInt8
deriving DecidableEq, Repr

/-- The body of a control packet. -/
inductive PppPayload where
  | raw (data : List UInt8)
  | owned (data : List UInt8)
  | pap (user pass : List UInt8)
  | options (opts : List OptionVal)
deriving DecidableEq

inductive Payload where
  | raw (data : List UInt8)
  | ppp (code : Code) (id : UInt8) (payload : PppPayload)
deriving DecidableEq

/-- An outgoing packet. -/
structure Packet where
  proto : ProtocolType
  payload : Payload
deriving DecidableEq

/-! ### Layout -/

namespace OptionVal

def bufferLen (o : OptionVal) : ℕ :=
  2 + o.data.length

def emit (o : OptionVal) : List UInt8 :=
  [o.code, UInt8.ofNat o.data.length + 2] ++ o.data

end OptionVal

namespace PppPayload

def bufferLen : PppPayload → ℕ
  | raw data => data.length
  | owned data => data.length
  | pap user pass => 1 + user.length + 1 + pass.length
  | options opts => (opts.map OptionVal.bufferLen).sum

def emit : PppPayload → List UInt8
  | raw data => data
  | owned data => data
  | pap user pass =>
    [UInt8.ofNat user.length] ++ user ++ [UInt8.ofNat pass.length] ++ pass
  | options opts => opts.flatMap OptionVal.emit

end PppPayload

namespace Payload

def bufferLen : Payload → ℕ
  | raw data => data.length
  | ppp _ _ payload => 1 + 1 + 2 + payload.bufferLen

def emit : Payload → List UInt8
  | raw data => data
  | ppp code id payload =>
    [code.toU8, id] ++ u16ToBe (UInt16.ofNat payload.bufferLen + 4) ++ payload.emit

end Payload

namespace Packet

def bufferLen (p : Packet) : ℕ :=
  2 + p.payload.bufferLen

def emit (p : Packet) : List UInt8 :=
  u16ToBe p.proto.toU16 ++ p.payload.emit

end Packet

end ZeroNat.Pppoe.Ppp

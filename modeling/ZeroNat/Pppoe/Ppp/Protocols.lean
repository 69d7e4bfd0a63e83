import ZeroNat.Pppoe.Ppp.OptionFsm

/-!
# The protocols of a link

The options of LCP and of IPCP, and the two protocols by which we authenticate: PAP, which sends
the password, and CHAP, which answers a challenge with a digest.  The digest is a parameter.
-/

open BigEndian

namespace ZeroNat.Pppoe.Ppp

/-! ### LCP -/

inductive AuthType where
  | none
  | pap
  | chapMd5
deriving DecidableEq, Repr

/-- What LCP negotiates: how we authenticate, and the receive unit and the magic number of both
ends. -/
structure Lcp where
  auth : AuthType
  mruLocal : UInt16
  mruRemote : UInt16
  mruRej : Bool
  magicLocal : UInt32
  magicRemote : UInt32
  magicRej : Bool
deriving DecidableEq

namespace Lcp

def optMru : UInt8 := 1
def optAsyncmap : UInt8 := 2
def optAuth : UInt8 := 3
def optMagicNumber : UInt8 := 5

def new (mruLocal : UInt16) (magicLocal : UInt32) : Lcp where
  auth := .none
  mruLocal
  mruRemote := 1500
  mruRej := false
  magicLocal
  magicRemote := 0
  magicRej := false

def peerOptionReceived (l : Lcp) (code : UInt8) (data : List UInt8) : Verdict × Lcp :=
  if code = optMru then
    if data.length = 2 then (.ack, { l with mruRemote := u16OfBe data }) else (.rej, l)
  else if code = optAsyncmap then
    if data.length = 4 then (.ack, l) else (.rej, l)
  else if code = optAuth then
    if data = [0xc2, 0x23, 0x05] then (.ack, { l with auth := .chapMd5 })
    else if data = [0xc0, 0x23] then (.ack, { l with auth := .pap })
    else (.rej, l)
  else if code = optMagicNumber then
    if data.length = 4 then (.ack, { l with magicRemote := u32OfBe data }) else (.rej, l)
  else (.rej, l)

def ownOptions (l : Lcp) : List OptionVal :=
  (if l.mruRej then [] else [⟨optMru, u16ToBe l.mruLocal⟩])
    ++ (if l.magicRej then [] else [⟨optMagicNumber, u32ToBe l.magicLocal⟩])

/-- A smaller receive unit is adopted, a larger one is not. -/
def ownOptionNacked (l : Lcp) (code : UInt8) (data : List UInt8) (isRej : Bool) : Lcp :=
  if code = optMru then
    if isRej then { l with mruRej := true }
    else if data.length = 2 then
      if u16OfBe data < l.mruLocal then { l with mruLocal := u16OfBe data } else l
    else { l with mruRej := true }
  else if code = optMagicNumber then
    if isRej then { l with magicRej := true }
    else if data.length = 4 then { l with magicLocal := u32OfBe data }
    else { l with magicRej := true }
  else l

instance : Protocol Lcp where
  protocol _ := .lcp
  ownOptions := ownOptions
  ownOptionNacked := ownOptionNacked
  peerOptionsStart l := { l with auth := .none }
  peerOptionReceived := peerOptionReceived
  echoReplyMagic l := some l.magicLocal

end Lcp

/-! ### IPCP -/

/-- An address that we ask for. -/
structure IpOption where
  address : Ipv4Addr
  isRejected : Bool
deriving DecidableEq

def unspecified : Ipv4Addr := ⟨0⟩

namespace IpOption

def new : IpOption :=
  ⟨unspecified, false⟩

def get (o : IpOption) : Option Ipv4Addr :=
  if o.isRejected || o.address = unspecified then none else some o.address

def nacked (o : IpOption) (data : List UInt8) (isRej : Bool) : IpOption :=
  if isRej then { o with isRejected := true }
  else if data.length = 4 then { o with address := ⟨u32OfBe data⟩ }
  else { o with isRejected := true }

end IpOption

/-- The addresses that IPCP has negotiated. -/
structure Ipv4Status where
  address : Option Ipv4Addr
  peerAddress : Option Ipv4Addr
  dnsServers : Option Ipv4Addr × Option Ipv4Addr
deriving DecidableEq

structure Ipv4cp where
  peerAddress : Ipv4Addr
  address : IpOption
  dnsServer1 : IpOption
  dnsServer2 : IpOption
  requestDns : Bool
deriving DecidableEq

namespace Ipv4cp

def optIpAddress : UInt8 := 3
def optDns1 : UInt8 := 129
def optDns2 : UInt8 := 131

def new : Ipv4cp where
  peerAddress := unspecified
  address := .new
  dnsServer1 := .new
  dnsServer2 := .new
  requestDns := false

def setRequestDns (c : Ipv4cp) (on : Bool) : Ipv4cp :=
  { c with requestDns := on }

def status (c : Ipv4cp) : Ipv4Status where
  address := c.address.get
  peerAddress := if c.peerAddress = unspecified then none else some c.peerAddress
  dnsServers := (c.dnsServer1.get, c.dnsServer2.get)

def peerOptionReceived (c : Ipv4cp) (code : UInt8) (data : List UInt8) : Verdict × Ipv4cp :=
  if code = optIpAddress then
    if data.length = 4 then (.ack, { c with peerAddress := ⟨u32OfBe data⟩ }) else (.rej, c)
  else (.rej, c)

/-- The option of an address, unless it was rejected. -/
def addressOption (code : UInt8) (o : IpOption) : List OptionVal :=
  if o.isRejected then [] else [⟨code, u32ToBe o.address.bits⟩]

def ownOptions (c : Ipv4cp) : List OptionVal :=
  addressOption optIpAddress c.address
    ++ (if c.requestDns then
          addressOption optDns1 c.dnsServer1 ++ addressOption optDns2 c.dnsServer2
        else [])

def ownOptionNacked (c : Ipv4cp) (code : UInt8) (data : List UInt8) (isRej : Bool) : Ipv4cp :=
  if code = optIpAddress then { c with address := c.address.nacked data isRej }
  else if code = optDns1 then { c with dnsServer1 := c.dnsServer1.nacked data isRej }
  else if code = optDns2 then { c with dnsServer2 := c.dnsServer2.nacked data isRej }
  else c

instance : Protocol Ipv4cp where
  protocol _ := .ipv4cp
  ownOptions := ownOptions
  ownOptionNacked := ownOptionNacked
  peerOptionsStart c := c
  peerOptionReceived := peerOptionReceived
  echoReplyMagic _ := none

end Ipv4cp

/-! ### PAP -/

namespace Pap

inductive State where
  | closed
  | reqSent
  | opened
deriving DecidableEq, Repr

end Pap

structure Pap where
  state : Pap.State
  id : UInt8
  username : List UInt8
  password : List UInt8
deriving DecidableEq

namespace Pap

def new (username password : List UInt8) : Pap where
  state := .closed
  id := 1
  username
  password

def sendConfigureRequest (p : Pap) : Packet × Pap :=
  let p := { p with id := p.id + 1 }
  (⟨.pap, .ppp .configureReq p.id (.pap p.username p.password)⟩, p)

def openPap (p : Pap) : Packet × Pap :=
  if p.state ≠ .closed then p.sendConfigureRequest
  else sendConfigureRequest { p with state := .reqSent }

def close (p : Pap) : Pap :=
  { p with state := .closed }

def handle (p : Pap) (pkt : List UInt8) : List Packet × Pap :=
  if pkt.length < 6 then ([], p)
  else
    let len := ofBe [pkt.getD 4 0, pkt.getD 5 0]
    if pkt.length < len + 2 then ([], p)
    else
      match Code.ofU8 (pkt.getD 2 0), p.state with
      | .configureAck, .reqSent => ([], { p with state := .opened })
      | .configureNack, .reqSent =>
        let (q, p) := p.sendConfigureRequest
        ([q], p)
      | _, _ => ([], p)

end Pap

/-! ### CHAP -/

/-- The digest that CHAP uses: sixteen bytes of any input. -/
abbrev Digest : Type :=
  List UInt8 → Bytes 16

namespace Chap

inductive State where
  | idle
  | responded
  | success
  | failure
deriving DecidableEq, Repr

inductive Err where
  | truncated
  | badLength
deriving DecidableEq, Repr

end Chap

structure Chap where
  state : Chap.State
deriving DecidableEq

namespace Chap

def challenge : UInt8 := 1
def response : UInt8 := 2
def success : UInt8 := 3
def failure : UInt8 := 4

def new : Chap :=
  ⟨.idle⟩

def isSuccess (c : Chap) : Bool :=
  c.state = .success

variable (md5 : Digest)

def chapMd5Response (id : UInt8) (secret value : List UInt8) : Bytes 16 :=
  md5 ([id] ++ secret ++ value)

def buildResponse (id : UInt8) (digest : Bytes 16) (user : List UInt8) : List UInt8 :=
  [0xc2, 0x23, response, id] ++ u16ToBe (UInt16.ofNat (4 + 1 + 16 + user.length)) ++ [16]
    ++ digest.toList ++ user

/-- Handle a packet, with the protocol field in front. -/
def handle (c : Chap) (pkt user secret : List UInt8) : Except Err (Option (List UInt8)) × Chap :=
  if pkt.length < 6 then (.error .truncated, c)
  else
    let code := pkt.getD 2 0
    let id := pkt.getD 3 0
    let length := ofBe [pkt.getD 4 0, pkt.getD 5 0]
    if length < 4 ∨ pkt.length < 2 + length then (.error .badLength, c)
    else if code = challenge then
      if pkt.length ≤ 6 then (.error .truncated, c)
      else
        let valueEnd := 7 + (pkt.getD 6 0).toNat
        if 2 + length < valueEnd then (.error .badLength, c)
        else
          match getRange pkt 7 valueEnd with
          | none => (.error .truncated, c)
          | some value =>
            (.ok (some (buildResponse id (chapMd5Response md5 id secret value) user)),
              ⟨.responded⟩)
    else if code = success then (.ok none, ⟨.success⟩)
    else if code = failure then (.ok none, ⟨.failure⟩)
    else (.ok none, c)

end Chap

end ZeroNat.Pppoe.Ppp

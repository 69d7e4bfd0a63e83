import ZeroNat.Config.Tables
import ZeroNat.Proto.Range

/-!
# Admin messages of a client

The messages of the local admin socket of a running client.  They have tags of their own and
are otherwise encoded like the control messages: the fields and the reads are the same.
-/

open Reader

namespace ZeroNat

/-- What a client runs at any instant. -/
inductive SessionMode where
  | idle
  | forwards
  | device
  | pppoe
  | offline
deriving DecidableEq, Repr

/-- The phase of the point-to-point link of the active session. -/
inductive PppPhase where
  | none
  | discovery
  | negotiating
  | established
  | linkDown
  | dead
deriving DecidableEq, Repr

/-- The state of the link toward the active server. -/
inductive LinkStatus where
  | offline
  | dialing
  | connected
  | backoff
deriving DecidableEq, Repr

/-- A configured peer slot.  The peer of a provider is empty, and so is the interface of a
slot that opens none. -/
structure ClientPeerSlotEntry where
  peerId : String
  want : UInt8
  iface : String
  link : LinkStatus
  path : Option PathStatus
deriving DecidableEq

/-- A forward.  No idle seconds stand for the default idle window of the protocol. -/
structure ClientForwardEntry where
  proto : Proto
  port : UInt16
  target : String
  proxy : Bool
  idleSecs : UInt32
  enabled : Bool
deriving DecidableEq

/-- A configured server profile, without its secret. -/
structure ClientServerEntry where
  name : String
  addr : String
  transport : Transport
deriving DecidableEq

/-- A view of a running client. -/
structure ClientSnapshotBody where
  version : UInt8
  active : String
  mode : SessionMode
  phase : PppPhase
  forwards : List ClientForwardEntry
  servers : List ClientServerEntry
  pppoe : List String
  session : String
  link : LinkStatus
  peers : List ClientPeerSlotEntry
deriving DecidableEq

/-- The messages of the admin socket of a client. -/
inductive ClientMsg where
  | clientAdminHello (version : UInt8) (mode : UInt8)
  | clientSnapshot (snap : ClientSnapshotBody)
  | mutationResult (ok : Bool) (msg : String)
  | selectServer (name : String)
  | setForwardOptions (proto : Proto) (port : UInt16) (enabled : Bool) (proxy : Bool)
      (idleSecs : UInt32)
  | spawnPppoe (name : String)
  | stopSession (name : String)
  | addServer (name : String) (addr : String) (secret : String) (transport : Transport)
  | removeServer (name : String)
  | connect (name : String)
  | disconnect
  | addForward (proto : Proto) (port : UInt16) (target : String) (proxy : Bool)
      (idleSecs : UInt32) (enabled : Bool)
  | removeForward (proto : Proto) (port : UInt16)
  | attachPeer (peerId : String) (want : UInt8) (dev : String) (exit : Bool) (exitStrict : Bool)
      (iface : String)
  | detachPeer (peerId : String) (want : UInt8)
deriving DecidableEq

/-! ### Bytes of the enumerations -/

def modeByte : SessionMode → UInt8
  | .idle => 0
  | .forwards => 1
  | .device => 2
  | .pppoe => 3
  | .offline => 4

def modes : List SessionMode := [.idle, .forwards, .device, .pppoe, .offline]

def transportByte : Transport → UInt8
  | .auto => 0
  | .udp => 1
  | .tcp => 2

def transports : List Transport := [.auto, .udp, .tcp]

def phaseByte : PppPhase → UInt8
  | .none => 0
  | .discovery => 1
  | .negotiating => 2
  | .established => 3
  | .linkDown => 4
  | .dead => 5

def phases : List PppPhase :=
  [.none, .discovery, .negotiating, .established, .linkDown, .dead]

def linkByte : LinkStatus → UInt8
  | .offline => 0
  | .dialing => 1
  | .connected => 2
  | .backoff => 3

def links : List LinkStatus := [.offline, .dialing, .connected, .backoff]

/-! ### Encoding -/

/-- The options at the end of a forward. -/
def putForwardOptions (proxy : Bool) (idleSecs : UInt32) (enabled : Bool) : List UInt8 :=
  putU8 (Rd.flagByte proxy) ++ putU32 idleSecs ++ putU8 (Rd.flagByte enabled)

def putForward (f : ClientForwardEntry) : List UInt8 :=
  putU8 (protoByte f.proto) ++ putU16 f.port ++ putStr f.target
    ++ putForwardOptions f.proxy f.idleSecs f.enabled

def putServer (s : ClientServerEntry) : List UInt8 :=
  putStr s.name ++ putStr s.addr ++ putU8 (transportByte s.transport)

def putPeerSlot (p : ClientPeerSlotEntry) : List UInt8 :=
  putStr p.peerId ++ putU8 p.want ++ putStr p.iface ++ putU8 (linkByte p.link)
    ++ putU8 (settledPathByte p.path)

/-- A body that is a tag followed by one string. -/
def named (tag : UInt8) (name : String) : List UInt8 :=
  putU8 tag ++ putStr name

/-! ### Decoding -/

namespace Rd

/-- The capability of a peer slot: exactly one of the defined bits. -/
def peerCapability : Rd UInt8 := do
  let n ← u8
  if n ≠ providesExit ∧ n ≠ providesSegment then do
    fail (badByte "unknown peer capability" n)
    pure n
  else pure n

def sessionMode : Rd SessionMode := do
  let i ← index 5 "unknown session mode"
  pure (modes.getD i .idle)

def pppPhase : Rd PppPhase := do
  let i ← index 6 "unknown ppp phase"
  pure (phases.getD i .none)

def transport : Rd Transport := do
  let i ← index 3 "unknown transport"
  pure (transports.getD i .auto)

def linkStatus : Rd LinkStatus := do
  let i ← index 4 "unknown link status"
  pure (links.getD i .offline)

end Rd

open Rd

/-- The options of a forward; the caller has checked that their bytes are present. -/
def forwardOptions : Rd (Bool × UInt32 × Bool) := do
  let proxy ← flag "unknown forward proxy"
  let idleSecs ← u32
  let enabled ← flag "unknown forward enabled"
  pure (proxy, idleSecs, enabled)

def decodeForward : Rd ClientForwardEntry := do
  need 3 "truncated forward entry"
  let proto ← proto
  let port ← u16
  let target ← str
  need 6 "truncated forward entry options"
  let (proxy, idleSecs, enabled) ← forwardOptions
  pure ⟨proto, port, target, proxy, idleSecs, enabled⟩

def decodeServer : Rd ClientServerEntry := do
  let name ← str
  let addr ← str
  need 1 "truncated server entry"
  let transport ← transport
  pure ⟨name, addr, transport⟩

def decodePeerSlot : Rd ClientPeerSlotEntry := do
  let peerId ← str
  need 1 "truncated peer slot capability"
  let want ← peerCapability
  let iface ← str
  need 2 "truncated peer slot status"
  let link ← linkStatus
  let path ← settledPath
  pure ⟨peerId, want, iface, link, path⟩

/-- The string of a `named` body, which must end there. -/
def takeNamed (trailing : String) : Rd String := do
  let name ← str
  done trailing
  pure name

namespace ClientMsg

def encode : ClientMsg → List UInt8
  | clientAdminHello version mode => putU8 1 ++ putU8 version ++ putU8 mode
  | clientSnapshot snap =>
      putU8 2 ++ putU8 snap.version ++ putStr snap.active ++ putU8 (modeByte snap.mode)
        ++ putU8 (phaseByte snap.phase)
        ++ putList putForward snap.forwards
        ++ putList putServer snap.servers
        ++ putList putStr snap.pppoe
        ++ putStr snap.session ++ putU8 (linkByte snap.link)
        ++ putList putPeerSlot snap.peers
  | mutationResult ok msg => putU8 3 ++ putU8 (flagByte ok) ++ putStr msg
  | selectServer name => named 4 name
  | setForwardOptions proto port enabled proxy idleSecs =>
      putU8 5 ++ putU8 (protoByte proto) ++ putU16 port ++ putU8 (flagByte enabled)
        ++ putU8 (flagByte proxy) ++ putU32 idleSecs
  | spawnPppoe name => named 6 name
  | stopSession name => named 7 name
  | addServer name addr secret transport =>
      named 8 name ++ putStr addr ++ putStr secret ++ putU8 (transportByte transport)
  | removeServer name => named 9 name
  | connect name => named 10 name
  | disconnect => putU8 11
  | addForward proto port target proxy idleSecs enabled =>
      putU8 12 ++ putU8 (protoByte proto) ++ putU16 port ++ putStr target
        ++ putForwardOptions proxy idleSecs enabled
  | removeForward proto port => putU8 13 ++ putU8 (protoByte proto) ++ putU16 port
  | attachPeer peerId want dev exit exitStrict iface =>
      named 14 peerId ++ putU8 want ++ putStr dev ++ putU8 (flagByte exit)
        ++ putU8 (flagByte exitStrict) ++ putStr iface
  | detachPeer peerId want => named 15 peerId ++ putU8 want

/-- A message whose tag and size fit no decoder. -/
def malformed (b : List UInt8) : Rd ClientMsg := do
  fail ("malformed client message (" ++ toString b.length ++ " bytes)")
  pure disconnect

/-- Read a message of `n` bytes, tag included. -/
def sized (b : List UInt8) (n : ℕ) (body : Rd ClientMsg) : Rd ClientMsg :=
  if b.length = n then body else malformed b

/-- The body of a message, read after its tag byte. -/
def decodeBody (b : List UInt8) : Rd ClientMsg :=
  match b.head? with
  | some 1 => sized b 3 do
      pure (clientAdminHello (b.getD 1 0) (b.getD 2 0))
  | some 2 => do
      need 1 "truncated client snapshot"
      let version ← u8
      let active ← str
      need 4 "truncated client snapshot header"
      let mode ← sessionMode
      let phase ← pppPhase
      let count ← u16
      let forwards ← times decodeForward count.toNat
      let servers ← list "truncated client snapshot server list" decodeServer
      let pppoe ← list "truncated client snapshot pppoe list" str
      let session ← str
      need 1 "truncated client snapshot link"
      let link ← linkStatus
      let peers ← list "truncated client snapshot peer list" decodePeerSlot
      done "trailing bytes in client snapshot"
      pure (clientSnapshot ⟨version, active, mode, phase, forwards, servers, pppoe, session, link,
        peers⟩)
  | some 3 => do
      need 1 "truncated mutation result"
      let ok ← flag "unknown mutation result ok"
      let msg ← str
      done "trailing bytes in mutation result"
      pure (mutationResult ok msg)
  | some 4 => do
      let name ← takeNamed "trailing bytes in select server"
      pure (selectServer name)
  | some 5 => sized b 10 do
      let proto ← proto
      let port ← u16
      let enabled ← flag "unknown forward enabled"
      let proxy ← flag "unknown forward proxy"
      let idleSecs ← u32
      pure (setForwardOptions proto port enabled proxy idleSecs)
  | some 6 => do
      let name ← takeNamed "trailing bytes in spawn pppoe"
      pure (spawnPppoe name)
  | some 7 => do
      let name ← takeNamed "trailing bytes in stop session"
      pure (stopSession name)
  | some 8 => do
      let name ← str
      let addr ← str
      let secret ← str
      need 1 "truncated add server"
      let transport ← transport
      done "trailing bytes in add server"
      pure (addServer name addr secret transport)
  | some 9 => do
      let name ← takeNamed "trailing bytes in remove server"
      pure (removeServer name)
  | some 10 => do
      let name ← takeNamed "trailing bytes in connect"
      pure (connect name)
  | some 11 => sized b 1 (pure disconnect)
  | some 12 => do
      need 3 "truncated add forward"
      let proto ← proto
      let port ← u16
      let target ← str
      need 6 "truncated add forward options"
      let (proxy, idleSecs, enabled) ← forwardOptions
      done "trailing bytes in add forward"
      pure (addForward proto port target proxy idleSecs enabled)
  | some 13 => sized b 4 do
      let proto ← proto
      let port ← u16
      pure (removeForward proto port)
  | some 14 => do
      let peerId ← str
      need 1 "truncated attach peer"
      let want ← peerCapability
      let dev ← str
      need 2 "truncated attach peer options"
      let exit ← flag "unknown peer exit"
      let exitStrict ← flag "unknown peer exit_strict"
      let iface ← str
      done "trailing bytes in attach peer"
      pure (attachPeer peerId want dev exit exitStrict iface)
  | some 15 => do
      let peerId ← str
      need 1 "truncated detach peer"
      let want ← peerCapability
      done "trailing bytes in detach peer"
      pure (detachPeer peerId want)
  | _ => malformed b

/-- Decode a message: read its body and report the first failure. -/
def decode (b : List UInt8) : Result ClientMsg :=
  (decodeBody b).run { bytes := b, pos := 1, err := none }

end ClientMsg

end ZeroNat

import ZeroNat.Proto.Wire

/-!
# Control messages

The messages exchanged over the encrypted channels, their encoding and their decoding.
A body starts with a tag byte.  The decoder of a message of fixed size checks the size of
the whole body and then reads its fields; the other decoders check for each field that it
is present, and at the end that nothing is left.
-/

open Reader

namespace ZeroNat

inductive Proto where
  | tcp
  | udp
deriving DecidableEq, Repr

/-- Where a mutable setting came from. -/
inductive Source where
  | file
  | cli
  | runtime
deriving DecidableEq, Repr

/-- The `provides` bit of a client that offers an exit. -/
def providesExit : UInt8 := (1 : UInt8) <<< (0 : UInt8)

/-- The `provides` bit of a client that offers a segment. -/
def providesSegment : UInt8 := (1 : UInt8) <<< (1 : UInt8)

def providesMask : UInt8 := providesExit ||| providesSegment

def capabilityLen : ℕ := 32

abbrev Capability : Type := Bytes 32

def peerIdentityLen : ℕ := 32

/-- The public key that identifies a peer. -/
abbrev PeerIdentity : Type := Bytes 32

/-- The outcome of a request to pair. -/
inductive PeerStatus where
  | accepted
  | unknownPeer
  | peerOffline
  | notProvided
  | peerBusy
  | serverFailure
deriving DecidableEq, Repr

/-- The path a party settled on for a pair. -/
inductive PathStatus where
  | direct
  | relay
deriving DecidableEq, Repr

/-- Why a peer claim was refused or withdrawn. -/
inductive PeerRefuseReason where
  | malformedIdentity
  | failedProof
  | challengeFailed
  | identityClaimed
deriving DecidableEq, Repr

/-- A public port the server listens on. -/
structure Listener where
  bindIp : Ipv4Addr
  proto : Proto
  port : UInt16
  source : Source
deriving DecidableEq

/-- The options a client announces for one of its public ports. -/
structure FwdOptionEntry where
  proto : Proto
  port : UInt16
  proxy : Bool
  idleSecs : UInt32
deriving DecidableEq

/-- A connected client. -/
structure ClientEntry where
  clientId : String
  transport : UInt8
  fwd : List FwdOptionEntry
deriving DecidableEq

/-- A route in the table of the server. -/
structure RouteEntry where
  bindIp : Ipv4Addr
  proto : Proto
  port : UInt16
  clientId : String
  state : UInt8
  source : Source
deriving DecidableEq

/-- A bridge client attached to the software switch of the server. -/
structure BridgeEntry where
  label : String
  named : Bool
  transport : UInt8
  peer : String
  macs : List MacAddr
  rxBytes : UInt64
  rxFrames : UInt64
  txBytes : UInt64
  txFrames : UInt64
  uptimeSecs : UInt32
  idleSecs : UInt32
deriving DecidableEq

/-- An accepted pair. -/
structure PairEntry where
  consumerId : String
  providerId : String
  want : UInt8
  path : Option PathStatus
deriving DecidableEq

/-- A view of the topology of a server. -/
structure SnapshotBody where
  version : UInt8
  serverId : String
  listeners : List Listener
  clients : List ClientEntry
  routes : List RouteEntry
  bridgeClients : List BridgeEntry
  pairs : List PairEntry
deriving DecidableEq

/-- The messages exchanged over the encrypted channels. -/
inductive Msg where
  | ping
  | «open» (proto : Proto) (port : UInt16) (id : UInt64) (capability : Capability)
  | data (version : UInt8) (id : UInt64) (capability : Capability)
  | pong
  | clientHello (version : UInt8) (clientId : String)
  | clientHelloAck (clientId : String) (bridgeCapability : Capability)
  | clientHelloRefuse
  | adminHello (version : UInt8) (mode : UInt8)
  | snapshot (snap : SnapshotBody)
  | addListener (bindIp : Ipv4Addr) (proto : Proto) (port : UInt16)
  | removeListener (bindIp : Ipv4Addr) (proto : Proto) (port : UInt16)
  | setRoute (bindIp : Ipv4Addr) (proto : Proto) (port : UInt16) (clientId : String)
  | clearRoute (bindIp : Ipv4Addr) (proto : Proto) (port : UInt16)
  | mutationResult (ok : Bool) (msg : String)
  | fwdOptions (entries : List FwdOptionEntry)
  | fwdOptionsAck
  | openProxy (port : UInt16) (id : UInt64) (capability : Capability) (peer : SocketAddr)
      (localAddr : SocketAddr)
  | peerAnnounce (provides : UInt8) (identity : PeerIdentity)
  | peerAnnounceAck (observed : SocketAddr)
  | peerChallenge (ephPub : Bytes 32) (nonce : Bytes 32)
  | peerProof (mac : Bytes 32)
  | peerAnnounceRefuse (reason : PeerRefuseReason)
  | peerConnect (peerId : PeerIdentity) (want : UInt8)
  | peerResult (peerId : PeerIdentity) (want : UInt8) (pairId : UInt64) (status : PeerStatus)
  | peerProbe (pairId : UInt64) (peerId : PeerIdentity) (probeId : UInt64)
      (probeCapability : Capability) (challenge : Bytes 32) (provides : UInt8)
  | peerInfo (pairId : UInt64) (candidates : List SocketAddr)
  | peerRelayOpen (pairId : UInt64) (id : UInt64) (capability : Capability)
  | peerPath (pairId : UInt64) (status : PathStatus)
  | addClient (clientId : String) (secret : Option (Bytes 32))
  | setClientSecret (clientId : String) (secret : Option (Bytes 32))
  | removeClient (clientId : String)
  | disconnectClient (clientId : String)
deriving DecidableEq

/-! ### Bytes of the enumerations -/

def protoByte : Proto → UInt8
  | .tcp => 1
  | .udp => 2

def sourceByte : Source → UInt8
  | .file => 0
  | .cli => 1
  | .runtime => 2

def peerStatusByte : PeerStatus → UInt8
  | .accepted => 0
  | .unknownPeer => 1
  | .peerOffline => 2
  | .notProvided => 3
  | .peerBusy => 4
  | .serverFailure => 5

def refuseReasonByte : PeerRefuseReason → UInt8
  | .malformedIdentity => 0
  | .failedProof => 1
  | .challengeFailed => 2
  | .identityClaimed => 3

def pathStatusByte : PathStatus → UInt8
  | .direct => 0
  | .relay => 1

/-- A settled path as a field of a snapshot. -/
def settledPathByte : Option PathStatus → UInt8
  | none => 0
  | some .direct => 1
  | some .relay => 2

def settledPaths : List (Option PathStatus) := [none, some .direct, some .relay]

def sources : List Source := [.file, .cli, .runtime]

def peerStatuses : List PeerStatus :=
  [.accepted, .unknownPeer, .peerOffline, .notProvided, .peerBusy, .serverFailure]

def refuseReasons : List PeerRefuseReason :=
  [.malformedIdentity, .failedProof, .challengeFailed, .identityClaimed]

def pathStatuses : List PathStatus := [.direct, .relay]

/-! ### Encoding -/

/-- The target of a listener or route mutation. -/
def putTarget (bindIp : Ipv4Addr) (proto : Proto) (port : UInt16) : List UInt8 :=
  putIp bindIp ++ putU8 (protoByte proto) ++ putU16 port

/-- One forward option.  The flags byte has the proxy bit alone. -/
def putFwdEntry (e : FwdOptionEntry) : List UInt8 :=
  putU8 (protoByte e.proto) ++ putU16 e.port ++ putU8 (Rd.flagByte e.proxy) ++ putU32 e.idleSecs

def putFwdEntries (entries : List FwdOptionEntry) : List UInt8 :=
  putList putFwdEntry entries

def putListener (l : Listener) : List UInt8 :=
  putTarget l.bindIp l.proto l.port ++ putU8 (sourceByte l.source)

def putClient (c : ClientEntry) : List UInt8 :=
  putStr c.clientId ++ putU8 c.transport ++ putFwdEntries c.fwd

def putRoute (r : RouteEntry) : List UInt8 :=
  putTarget r.bindIp r.proto r.port ++ putStr r.clientId ++ putU8 r.state
    ++ putU8 (sourceByte r.source)

def putMac (m : MacAddr) : List UInt8 :=
  putBytes m.toList

def putBridge (e : BridgeEntry) : List UInt8 :=
  putStr e.label ++ putU8 (Rd.flagByte e.named) ++ putU8 e.transport ++ putStr e.peer
    ++ putList putMac e.macs
    ++ putU64 e.rxBytes ++ putU64 e.rxFrames ++ putU64 e.txBytes ++ putU64 e.txFrames
    ++ putU32 e.uptimeSecs ++ putU32 e.idleSecs

def putPair (p : PairEntry) : List UInt8 :=
  putStr p.consumerId ++ putStr p.providerId ++ putU8 p.want ++ putU8 (settledPathByte p.path)

/-- The secret of a client credential, when one is given. -/
def putSecret : Option (Bytes 32) → List UInt8
  | some secret => putBytes secret.toList
  | none => []

/-- The body of an `addClient` or `setClientSecret`: the id, then a flag, and the secret
when one is given. -/
def clientCredential (tag : UInt8) (clientId : String) (secret : Option (Bytes 32)) :
    List UInt8 :=
  putU8 tag ++ putStr clientId ++ putU8 (Rd.flagByte secret.isSome) ++ putSecret secret

/-! ### Decoding -/

namespace Rd

def proto : Rd Proto := do
  let n ← oneOf 1 2 "unknown proto"
  pure (if n = 1 then .tcp else .udp)

def settledPath : Rd (Option PathStatus) := do
  let i ← index 3 "unknown settled path"
  pure (settledPaths.getD i none)

def source : Rd Source := do
  let i ← index 3 "unknown source"
  pure (sources.getD i .file)

def peerStatus : Rd PeerStatus := do
  let i ← index 6 "unknown peer status"
  pure (peerStatuses.getD i .accepted)

def refuseReason : Rd PeerRefuseReason := do
  let i ← index 4 "unknown refuse reason"
  pure (refuseReasons.getD i .malformedIdentity)

def pathStatus : Rd PathStatus := do
  let i ← index 2 "unknown path status"
  pure (pathStatuses.getD i .direct)

/-- A set of capabilities: bits outside the defined ones are refused. -/
def provides : Rd UInt8 := do
  let n ← u8
  if n &&& ~~~ providesMask ≠ 0 then do
    fail (badByte "unknown provides" n)
    pure n
  else pure n

/-- The number of bits set in a byte. -/
def countOnes (n : UInt8) : ℕ :=
  ((List.range 8).filter n.toNat.testBit).length

/-- A requested capability: exactly one defined bit. -/
def want : Rd UInt8 := do
  let n ← u8
  if n &&& ~~~ providesMask ≠ 0 ∨ countOnes n ≠ 1 then do
    fail (badByte "invalid want" n)
    pure n
  else pure n

end Rd

open Rd

def takeFwdEntry : Rd FwdOptionEntry := do
  need 8 "truncated forward option entry"
  let proto ← proto
  let port ← u16
  let proxy ← flag "unknown forward option flags"
  let idleSecs ← u32
  pure ⟨proto, port, proxy, idleSecs⟩

def takeFwdEntries : Rd (List FwdOptionEntry) :=
  list "truncated forward options count" takeFwdEntry

def takeMac : Rd MacAddr := do
  need 6 "truncated bridge mac"
  array 6

def decodeBridgeClient : Rd BridgeEntry := do
  let label ← str
  need 1 "truncated bridge named flag"
  let named ← flag "unknown bridge named"
  need 1 "truncated bridge transport"
  let transport ← oneOf 1 2 "unknown transport"
  let peer ← str
  let macs ← list "truncated bridge mac count" takeMac
  need 40 "truncated bridge counters"
  let rxBytes ← u64
  let rxFrames ← u64
  let txBytes ← u64
  let txFrames ← u64
  let uptimeSecs ← u32
  let idleSecs ← u32
  pure ⟨label, named, transport, peer, macs, rxBytes, rxFrames, txBytes, txFrames, uptimeSecs,
    idleSecs⟩

def decodeBridgeClients : Rd (List BridgeEntry) :=
  list "truncated bridge count" decodeBridgeClient

def decodePair : Rd PairEntry := do
  let consumerId ← str
  let providerId ← str
  need 2 "truncated pair capability"
  let want ← want
  let path ← settledPath
  pure ⟨consumerId, providerId, want, path⟩

def decodePairs : Rd (List PairEntry) :=
  list "truncated pair count: the admin reader and the server are different versions" decodePair

def decodeListener : Rd Listener := do
  let bindIp ← ip
  need 4 "truncated listener"
  let proto ← proto
  let port ← u16
  let source ← source
  pure ⟨bindIp, proto, port, source⟩

def decodeListeners : Rd (List Listener) :=
  list "truncated listener count" decodeListener

def decodeClient : Rd ClientEntry := do
  let clientId ← str
  need 1 "truncated client transport"
  let transport ← oneOf 1 2 "unknown transport"
  let fwd ← takeFwdEntries
  pure ⟨clientId, transport, fwd⟩

def decodeClients : Rd (List ClientEntry) :=
  list "truncated client count" decodeClient

def decodeRoute : Rd RouteEntry := do
  let bindIp ← ip
  need 3 "truncated route"
  let proto ← proto
  let port ← u16
  let clientId ← str
  need 2 "truncated route state"
  let state ← oneOf 0 1 "unknown route state"
  let source ← source
  pure ⟨bindIp, proto, port, clientId, state, source⟩

def decodeRoutes : Rd (List RouteEntry) :=
  list "truncated route count" decodeRoute

/-- The secret of a client credential, when the flag in front of it says there is one. -/
def takeSecret (given : Bool) : Rd (Option (Bytes 32)) :=
  if given then do
    let secret ← arr32 "client secret"
    pure (some secret)
  else pure none

def takeClientCredential : Rd (String × Option (Bytes 32)) := do
  let clientId ← str
  need 1 "truncated client credential"
  let given ← flag "unknown client credential flag"
  let secret ← takeSecret given
  done "trailing bytes in client credential"
  pure (clientId, secret)

/-- The triple `putTarget` writes. -/
def takeTarget : Rd (Ipv4Addr × Proto × UInt16) := do
  let bindIp ← ip
  let proto ← proto
  let port ← u16
  pure (bindIp, proto, port)

namespace Msg

def encode : Msg → List UInt8
  | ping => putU8 1
  | «open» proto port id capability =>
      putU8 2 ++ putU8 (protoByte proto) ++ putU16 port ++ putU64 id ++ putBytes capability.toList
  | data version id capability =>
      putU8 3 ++ putU8 version ++ putU64 id ++ putBytes capability.toList
  | pong => putU8 4
  | clientHello version clientId => putU8 5 ++ putU8 version ++ putStr clientId
  | adminHello version mode => putU8 6 ++ putU8 version ++ putU8 mode
  | snapshot snap =>
      putU8 7 ++ putU8 snap.version ++ putStr snap.serverId
        ++ putList putListener snap.listeners
        ++ putList putClient snap.clients
        ++ putList putRoute snap.routes
        ++ putList putBridge snap.bridgeClients
        ++ putList putPair snap.pairs
  | addListener bindIp proto port => putU8 8 ++ putTarget bindIp proto port
  | removeListener bindIp proto port => putU8 9 ++ putTarget bindIp proto port
  | setRoute bindIp proto port clientId =>
      putU8 10 ++ putTarget bindIp proto port ++ putStr clientId
  | clearRoute bindIp proto port => putU8 11 ++ putTarget bindIp proto port
  | mutationResult ok msg => putU8 12 ++ putU8 (Rd.flagByte ok) ++ putStr msg
  | fwdOptions entries => putU8 13 ++ putFwdEntries entries
  | fwdOptionsAck => putU8 14
  | openProxy port id capability peer localAddr =>
      putU8 15 ++ putU16 port ++ putU64 id ++ putBytes capability.toList
        ++ putSockaddr peer ++ putSockaddr localAddr
  | peerAnnounce provides identity => putU8 16 ++ putU8 provides ++ putBytes identity.toList
  | peerAnnounceAck observed => putU8 17 ++ putSockaddr observed
  | peerChallenge ephPub nonce => putU8 25 ++ putBytes ephPub.toList ++ putBytes nonce.toList
  | peerProof mac => putU8 26 ++ putBytes mac.toList
  | peerAnnounceRefuse reason => putU8 27 ++ putU8 (refuseReasonByte reason)
  | peerConnect peerId want => putU8 18 ++ putBytes peerId.toList ++ putU8 want
  | peerResult peerId want pairId status =>
      putU8 19 ++ putBytes peerId.toList ++ putU8 want ++ putU64 pairId
        ++ putU8 (peerStatusByte status)
  | peerProbe pairId peerId probeId probeCapability challenge provides =>
      putU8 20 ++ putU64 pairId ++ putBytes peerId.toList ++ putU64 probeId
        ++ putBytes probeCapability.toList ++ putBytes challenge.toList ++ putU8 provides
  | peerInfo pairId candidates => putU8 21 ++ putU64 pairId ++ putList putSockaddr candidates
  | peerRelayOpen pairId id capability =>
      putU8 22 ++ putU64 pairId ++ putU64 id ++ putBytes capability.toList
  | peerPath pairId status => putU8 23 ++ putU64 pairId ++ putU8 (pathStatusByte status)
  | clientHelloAck clientId bridgeCapability =>
      putU8 24 ++ putStr clientId ++ putBytes bridgeCapability.toList
  | clientHelloRefuse => putU8 28
  | addClient clientId secret => clientCredential 29 clientId secret
  | setClientSecret clientId secret => clientCredential 30 clientId secret
  | removeClient clientId => putU8 31 ++ putStr clientId
  | disconnectClient clientId => putU8 32 ++ putStr clientId

/-- A message whose tag and size fit no decoder. -/
def malformed (b : List UInt8) : Rd Msg := do
  fail ("malformed message (" ++ toString b.length ++ " bytes)")
  pure ping

/-- Read a message of `n` bytes, tag included. -/
def sized (b : List UInt8) (n : ℕ) (body : Rd Msg) : Rd Msg :=
  if b.length = n then body else malformed b

/-- The body of a message, read after its tag byte.  A body of fixed size is only read
when the whole message has that size. -/
def decodeBody (b : List UInt8) : Rd Msg :=
  match b.head? with
  | some 1 => pure ping
  | some 2 => sized b (12 + capabilityLen) do
      let proto ← proto
      let port ← u16
      let id ← u64
      let capability ← arr32 "capability"
      pure («open» proto port id capability)
  | some 3 => sized b (10 + capabilityLen) do
      let version ← u8
      let id ← u64
      let capability ← arr32 "capability"
      pure (data version id capability)
  | some 4 => pure pong
  | some 5 => do
      need 1 "truncated client hello"
      let version ← u8
      let clientId ← str
      done "trailing bytes in client hello"
      pure (clientHello version clientId)
  | some 6 => sized b 3 do
      pure (adminHello (b.getD 1 0) (b.getD 2 0))
  | some 7 => do
      need 1 "truncated snapshot"
      let version ← u8
      let serverId ← str
      let listeners ← decodeListeners
      let clients ← decodeClients
      let routes ← decodeRoutes
      let bridgeClients ← decodeBridgeClients
      let pairs ← decodePairs
      done "trailing bytes in snapshot: the admin reader and the server are different versions"
      pure (snapshot ⟨version, serverId, listeners, clients, routes, bridgeClients, pairs⟩)
  | some 8 => sized b 8 do
      let (bindIp, proto, port) ← takeTarget
      pure (addListener bindIp proto port)
  | some 9 => sized b 8 do
      let (bindIp, proto, port) ← takeTarget
      pure (removeListener bindIp proto port)
  | some 10 => do
      let bindIp ← ip
      need 3 "truncated set route"
      let proto ← proto
      let port ← u16
      let clientId ← str
      done "trailing bytes in set route"
      pure (setRoute bindIp proto port clientId)
  | some 11 => sized b 8 do
      let (bindIp, proto, port) ← takeTarget
      pure (clearRoute bindIp proto port)
  | some 12 => do
      need 1 "truncated mutation result"
      let ok ← flag "unknown mutation result ok"
      let msg ← str
      done "trailing bytes in mutation result"
      pure (mutationResult ok msg)
  | some 13 => do
      let entries ← takeFwdEntries
      done "trailing bytes in forward options"
      pure (fwdOptions entries)
  | some 14 => sized b 1 (pure fwdOptionsAck)
  | some 15 => do
      need (10 + capabilityLen) "truncated proxy open"
      let port ← u16
      let id ← u64
      let capability ← arr32 "capability"
      let peer ← sockaddr
      let localAddr ← sockaddr
      done "trailing bytes in proxy open"
      pure (openProxy port id capability peer localAddr)
  | some 16 => sized b (2 + peerIdentityLen) do
      let provides ← provides
      let identity ← arr32 "peer identity"
      pure (peerAnnounce provides identity)
  | some 17 => do
      let observed ← sockaddr
      done "trailing bytes in peer announce ack"
      pure (peerAnnounceAck observed)
  | some 18 => sized b (2 + peerIdentityLen) do
      let peerId ← arr32 "peer identity"
      let want ← want
      pure (peerConnect peerId want)
  | some 19 => sized b (11 + peerIdentityLen) do
      let peerId ← arr32 "peer identity"
      let want ← want
      let pairId ← u64
      let status ← peerStatus
      pure (peerResult peerId want pairId status)
  | some 20 => sized b (18 + peerIdentityLen + capabilityLen + 32) do
      let pairId ← u64
      let peerId ← arr32 "peer identity"
      let probeId ← u64
      let probeCapability ← arr32 "capability"
      let challenge ← arr32 "pair challenge"
      let provides ← want
      pure (peerProbe pairId peerId probeId probeCapability challenge provides)
  | some 21 => do
      need 10 "truncated peer info"
      let pairId ← u64
      let count ← u16
      let candidates ← times sockaddr count.toNat
      done "trailing bytes in peer info"
      pure (peerInfo pairId candidates)
  | some 22 => sized b (17 + capabilityLen) do
      let pairId ← u64
      let id ← u64
      let capability ← arr32 "capability"
      pure (peerRelayOpen pairId id capability)
  | some 23 => sized b 10 do
      let pairId ← u64
      let status ← pathStatus
      pure (peerPath pairId status)
  | some 24 => do
      let clientId ← str
      left capabilityLen "invalid client hello ack capability"
      let bridgeCapability ← arr32 "capability"
      pure (clientHelloAck clientId bridgeCapability)
  | some 25 => sized b 65 do
      let ephPub ← arr32 "challenge ephemeral"
      let nonce ← arr32 "challenge nonce"
      pure (peerChallenge ephPub nonce)
  | some 26 => sized b 33 do
      let mac ← arr32 "announce proof"
      pure (peerProof mac)
  | some 27 => sized b 2 do
      let reason ← refuseReason
      pure (peerAnnounceRefuse reason)
  | some 28 => sized b 1 (pure clientHelloRefuse)
  | some 29 => do
      let (clientId, secret) ← takeClientCredential
      pure (addClient clientId secret)
  | some 30 => do
      let (clientId, secret) ← takeClientCredential
      pure (setClientSecret clientId secret)
  | some 31 => do
      let clientId ← str
      done "trailing bytes in remove client"
      pure (removeClient clientId)
  | some 32 => do
      let clientId ← str
      done "trailing bytes in disconnect client"
      pure (disconnectClient clientId)
  | _ => malformed b

/-- Decode a message: read its body and report the first failure. -/
def decode (b : List UInt8) : Result Msg :=
  (decodeBody b).run { bytes := b, pos := 1, err := none }

end Msg

end ZeroNat

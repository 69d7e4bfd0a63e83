import ZeroNat.Lib.Pool
import ZeroNat.Lib.Run
import ZeroNat.Server.Opens
import ZeroNat.Server.Rendezvous

/-!
# The server as a broker of its clients

The tasks of the server that share the registry of the clients and the tables of the
rendezvous: a task for each control session, and tasks for the opens of public flows, the data
channels and the timers.  Each holds the locks for one thing at a time, so that a task is a
list of what it still has to do, and the server runs the first of any task it likes.  A frame
is queued on a control channel after all locks are released.

The watch of a session and the parked opens themselves are those of the module on parked
opens; here only their ids count.
-/

namespace ZeroNat

/-- The control channel of a session: the frames that were queued, how many of them the writer
has not taken, and whether the writer is gone. -/
structure Channel where
  queued : List Msg
  unread : ℕ
  closed : Bool
deriving DecidableEq

namespace Channel

/-- The frames that a control channel holds at most. -/
def capacity : ℕ := 256

def new : Channel where
  queued := []
  unread := 0
  closed := false

/-- Queue a frame, unless the channel is full or its reader is gone. -/
def trySend (c : Channel) (msg : Msg) : Channel :=
  if c.closed ∨ capacity ≤ c.unread then c
  else { c with queued := c.queued ++ [msg], unread := c.unread + 1 }

end Channel

/-- Something a task has to do with locks of its own. -/
inductive Errand where
  /-- Answer the hello of a session. -/
  | ack (p : Post)
  /-- Remove the pairs of a client. -/
  | invalidate (clientId : String)
  | forgetProbes (p : Pair)
  | forgetLegs (p : Pair)
  /-- Note that an identity has been proved once. -/
  | know (identity : PeerIdentity)
  | post (p : Post)
  | startProbes (pairId : ℕ)
  /-- Arm the deadline of a pair. -/
  | armFinish (pairId : ℕ)
  | finish (pairId : ℕ)
  | inform (i : Rendezvous.Info)
  | settle (pairId probeId : ℕ) (candidates : List SocketAddr)
  /-- Arm the deadline of a relay. -/
  | armReap (pairId : ℕ)
  | reap (pairId : ℕ)
  | parkLeg (pairId : ℕ) (leg : RelayLeg)
  | endRelay (pairId : ℕ)
  /-- Draw an id and a capability for a public flow. -/
  | number (table : ClaimTable) (handle : ClientHandle) (proto : Proto) (port : UInt16)
      (addrs : Option (SocketAddr × SocketAddr))
  | park (table : ClaimTable) (id : ℕ)
  /-- Queue the request to open a public flow. -/
  | request (p : Post)
deriving DecidableEq

inductive ControlStage where
  | registering
  | serving
  | ending
  | ended
deriving DecidableEq

/-- The task of a control session.  `announce` is the claim of an identity that a challenge
was sent for. -/
structure ControlSession where
  clientId : String
  bridgeCapability : Capability
  stage : ControlStage
  todo : List Errand
  announce : Option (UInt8 × PeerIdentity)
  channel : Channel
deriving DecidableEq

/-- What a history of the server is about. -/
inductive BrokerEvent where
  /-- A pair was accepted for two sessions. -/
  | accepted (pairId consumerTx providerTx : ℕ)
  /-- The candidates of a pair were sent. -/
  | informed (pairId : ℕ)
  /-- An id was presented by a data channel that authenticated as a client. -/
  | claimed (id : ℕ) (claim : Claim) (clientId : String) (capability : Capability)
  /-- Two legs were spliced. -/
  | spliced (pairId : ℕ) (first second : RelayLeg)
  /-- The pairs of a client were removed at the end of a session or when it was superseded. -/
  | invalidated (clientId : String) (removed : List (ℕ × Pair))
deriving DecidableEq

/-- The server. -/
structure Broker where
  rv : Rendezvous
  sessions : List ControlSession
  tasks : List (List Errand)
  pending : ClaimTable → List ℕ
  log : List BrokerEvent

/-- What the random source yields when it is asked twice. -/
abbrev Draws : Type :=
  Option Capability × Option Capability

/-- How the exchange that proves an identity comes out: the challenge that is minted for an
announce, and whether the proof is right. -/
structure Proving where
  minted : Except PeerRefuseReason (Bytes 32 × Bytes 32)
  verified : Bool

inductive BrokerOp where
  /-- A client says hello.  `held` says whether the session that has its id has been heard
  from within the window that protects it. -/
  | register (clientId : String) (transport : ActiveTransport) (peer : Option SocketAddr)
      (bridgeCapability : Capability) (held : Bool)
  /-- The task of a session does the next thing. -/
  | work (tx : ℕ) (draws : Draws)
  | serve (tx : ℕ)
  /-- A session reads a control frame. -/
  | frame (tx : ℕ) (msg : Msg) (proving : Proving) (draws : Draws)
  /-- The task of a session leaves its loop. -/
  | leave (tx : ℕ)
  | drop (tx : ℕ)
  /-- The writer of a session takes a frame. -/
  | recv (tx : ℕ)
  /-- The writer of a session ends. -/
  | close (tx : ℕ)
  /-- Another task does the next thing. -/
  | run (i : ℕ) (draws : Draws)
  /-- A data channel presents the id of a probe; its candidates are known later. -/
  | takeProbe (id : ℕ) (clientId : String) (capability : Capability)
      (candidates : List SocketAddr)
  /-- A data channel presents the id of a leg. -/
  | takeRelayLeg (id : ℕ) (clientId : String) (capability : Capability)
  /-- A task picks the handle of the client that its listener resolves to. -/
  | openFlow (table : ClaimTable) (clientId : String) (proto : Proto) (port : UInt16)
      (addrs : Option (SocketAddr × SocketAddr))
  /-- What was parked under an id is claimed, revoked, withdrawn or timed out. -/
  | unpark (table : ClaimTable) (id : ℕ)

namespace Broker

def init : Broker where
  rv := ⟨∅, [], ∅, ∅, ∅, 1⟩
  sessions := []
  tasks := []
  pending := fun _ => []
  log := []

/-- Queue a frame on the channel of a session. -/
def trySend (s : Broker) (p : Post) : Broker :=
  match s.sessions[p.tx]? with
  | none => s
  | some c =>
      { s with sessions := s.sessions.set p.tx { c with channel := c.channel.trySend p.msg } }

/-- The channel of a session has lost its reader. -/
def closed (s : Broker) (tx : ℕ) : Bool :=
  s.sessions[tx]?.any fun c => c.channel.closed

def spawn (s : Broker) (todo : List Errand) : Broker :=
  { s with tasks := s.tasks ++ [todo] }

def record (s : Broker) (e : BrokerEvent) : Broker :=
  { s with log := e :: s.log }

/-- Drop the ids of a pair that was removed, first the probes and then the legs. -/
def forget (p : Pair) : List Errand :=
  [.forgetProbes p, .forgetLegs p]

/-- The request that a client gets to open a flow.  Its addresses are sent along when the
client wants them for the port. -/
def openMsg (h : ClientHandle) (proto : Proto) (port : UInt16)
    (addrs : Option (SocketAddr × SocketAddr)) (id : ℕ) (capability : Capability) : Msg :=
  match addrs with
  | some (peer, loc) =>
      if proto = .tcp ∧ (h.fwd.lookup (proto, port)).any FwdOpt.proxy then
        .openProxy port (.ofNat id) capability peer loc
      else .open proto port (.ofNat id) capability
  | none => .open proto port (.ofNat id) capability

/-- Do one thing.  Returned is what follows from it for the same task. -/
def exec (s : Broker) (draws : Draws) : Errand → Broker × List Errand
  | .ack p => (s.trySend p, [])
  | .invalidate clientId =>
      let (rv, removed) := s.rv.invalidatePairs clientId
      ({ s with rv := rv }, removed.flatMap forget)
  | .forgetProbes p => ({ s with rv := s.rv.forgetProbes p }, [])
  | .forgetLegs p => ({ s with rv := s.rv.forgetLegs p }, [])
  | .know identity => ({ s with rv := { s.rv with known := identity :: s.rv.known } }, [])
  | .post p => (s.trySend p, [])
  | .startProbes pairId =>
      let (rv, posts, settled) := s.rv.startPairProbes pairId draws.1 draws.2
      ({ s with rv := rv }, posts.map .post ++
        match settled with
        | none => []
        | some true => [.finish pairId]
        | some false => [.armFinish pairId])
  | .armFinish pairId => (s.spawn [.finish pairId], [])
  | .finish pairId =>
      let (rv, info) := s.rv.finishPair pairId
      match info with
      | none => ({ s with rv := rv }, [])
      | some info => (({ s with rv := rv } : Broker).record (.informed pairId), [.inform info])
  | .inform i => (s, (s.rv.inform i).map .post)
  | .settle pairId probeId candidates =>
      let (rv, done) := s.rv.settleProbeForPair pairId probeId candidates
      ({ s with rv := rv }, done.toList.map .finish)
  | .armReap pairId => (s.spawn [.reap pairId], [])
  | .reap pairId =>
      let (rv, removed) := s.rv.reapUnclaimedRelay pairId
      ({ s with rv := rv }, removed.toList.flatMap forget)
  | .parkLeg pairId leg =>
      let (rv, splice) := s.rv.parkRelayLeg pairId leg
      match splice with
      | none => ({ s with rv := rv }, [])
      | some (first, second) =>
          ((({ s with rv := rv } : Broker).record (.spliced pairId first second)).spawn
            [.endRelay pairId], [])
  | .endRelay pairId =>
      let (rv, removed) := s.rv.removePair pairId
      ({ s with rv := rv }, removed.toList.flatMap forget)
  | .number table h proto port addrs =>
      let id := s.rv.nextId
      ({ s with rv := { s.rv with nextId := s.rv.nextId + 1 } },
        match draws.1 with
        | none => []
        | some capability =>
            [.park table id, .request ⟨h.tx, openMsg h proto port addrs id capability⟩])
  | .park table id =>
      ({ s with pending := Function.update s.pending table (id :: s.pending table) }, [])
  | .request p => (s.trySend p, [])

/-- The task of a session, changed. -/
def setSession (s : Broker) (tx : ℕ) (c : ControlSession) : Broker :=
  { s with sessions := s.sessions.set tx c }

def register (s : Broker) (clientId : String) (transport : ActiveTransport)
    (peer : Option SocketAddr) (bridgeCapability : Capability) (held : Bool) : Broker :=
  let tx := s.sessions.length
  let handle := ClientHandle.new clientId tx transport peer bridgeCapability
  let ack : Errand := .ack ⟨tx, .clientHelloAck clientId bridgeCapability⟩
  let enter (todo : List Errand) : Broker :=
    { s with
      rv := { s.rv with clients := s.rv.clients.insert clientId handle }
      sessions := s.sessions
        ++ [⟨clientId, bridgeCapability, .registering, todo, none, Channel.new⟩] }
  match s.rv.clients.lookup clientId with
  | none => enter [ack]
  | some _ => if held then s else enter [ack, .invalidate clientId]

/-- The options of the forwards of a client, as the server honours them. -/
def fwdOptions (entries : List FwdOptionEntry) : Table (Proto × UInt16) FwdOpt :=
  entries.foldl (fun t e =>
    t.insert (e.proto, e.port)
      ⟨e.proxy && decide (e.proto = .tcp), if 0 < e.idleSecs then some e.idleSecs.toNat else none⟩)
    ∅

/-- Set the options of the forwards of a client, when its entry is that of the session. -/
def setFwd (s : Broker) (clientId : String) (tx : ℕ) (entries : List FwdOptionEntry) : Broker :=
  match s.rv.clients.lookup clientId with
  | none => s
  | some h =>
      if h.tx = tx then
        { s with
          rv := { s.rv with
            clients := s.rv.clients.insert clientId { h with fwd := fwdOptions entries } } }
      else s

/-- A session answers itself, and does what follows. -/
def answer (s : Broker) (tx : ℕ) (c : ControlSession) (todo : List Errand) : Broker :=
  s.setSession tx { c with todo := todo }

/-- The proof of an identity was right: record it, and answer all that are concerned. -/
def prove (s : Broker) (tx : ℕ) (c : ControlSession) (provides : UInt8)
    (identity : PeerIdentity) : Broker :=
  match s.rv.recordPeerClaim c.clientId tx provides identity with
  | none => s.answer tx { c with announce := none } []
  | some (rv, displaced) =>
      let refuse (e : String × ClientHandle) : List Errand :=
        [.invalidate e.1, .post ⟨e.2.tx, .peerAnnounceRefuse .identityClaimed⟩]
      let observed := (s.rv.clients.lookup c.clientId).bind ClientHandle.observed
      let reply : List Errand :=
        observed.toList.map fun addr => .post ⟨tx, .peerAnnounceAck addr⟩
      ({ s with rv := rv } : Broker).answer tx { c with announce := none }
        (.know identity :: displaced.flatMap refuse ++ reply)

/-- A session asks to be paired. -/
def request (s : Broker) (tx : ℕ) (c : ControlSession) (peerId : PeerIdentity) (want : UInt8)
    (challenge : Option Capability) : Broker :=
  let (rv, result) := s.rv.peerConnect c.clientId tx peerId want s.closed challenge
  match result with
  | none => { s with rv := rv }
  | some (pairId, status) =>
      let reply : Errand := .post ⟨tx, .peerResult peerId want (.ofNat pairId) status⟩
      let s := { s with rv := rv }
      if status = .accepted then
        let providerTx := (s.rv.holder peerId).map fun e => e.2.tx
        (s.record (.accepted pairId tx (providerTx.getD 0))).answer tx c
          [reply, .startProbes pairId]
      else s.answer tx c [reply]

/-- Handle one inbound control frame of a session. -/
def handleControlFrame (s : Broker) (tx : ℕ) (c : ControlSession) (proving : Proving)
    (draws : Draws) : Msg → Broker
  | .ping => s.answer tx c [.post ⟨tx, .pong⟩]
  | .fwdOptions entries =>
      (s.setFwd c.clientId tx entries).answer tx c [.post ⟨tx, .fwdOptionsAck⟩]
  | .peerAnnounce provides identity =>
      match proving.minted with
      | .ok (ephPub, nonce) =>
          s.answer tx { c with announce := some (provides, identity) }
            [.post ⟨tx, .peerChallenge ephPub nonce⟩]
      | .error reason =>
          s.answer tx { c with announce := none } [.post ⟨tx, .peerAnnounceRefuse reason⟩]
  | .peerProof _ =>
      match c.announce with
      | none => s
      | some (provides, identity) =>
          if proving.verified then s.prove tx c provides identity
          else
            s.answer tx { c with announce := none }
              [.post ⟨tx, .peerAnnounceRefuse .failedProof⟩]
  | .peerConnect peerId want => s.request tx c peerId want draws.1
  | .peerPath pairId status =>
      let (rv, posts, opened) :=
        s.rv.peerPath c.clientId tx pairId.toNat status draws.1 draws.2
      ({ s with rv := rv } : Broker).answer tx c
        (posts.map .post ++ if opened then [.armReap pairId.toNat] else [])
  | _ => s

/-- The end of a session: it leaves the registry, when it is still there, and then its pairs
are removed. -/
def leave (s : Broker) (tx : ℕ) (c : ControlSession) : Broker :=
  if Owned s.rv.clients c.clientId tx then
    ({ s with rv := { s.rv with clients := s.rv.clients.erase c.clientId } } : Broker).setSession
      tx { c with stage := .ending, todo := [.invalidate c.clientId] }
  else s.setSession tx { c with stage := .ending }

/-- The step of the task of a session, when its stage and what it has to do allow it. -/
def advance (s : Broker) (tx : ℕ) (stage : ControlStage) (f : ControlSession → Broker) :
    Option Broker :=
  match s.sessions[tx]? with
  | none => none
  | some c => if c.stage = stage ∧ c.todo = [] then some (f c) else none

/-- The removal of the pairs of a client at the end of a session, or when one is superseded, is
recorded. -/
def note (s : Broker) (c : ControlSession) : Errand → Broker
  | .invalidate clientId =>
      if c.stage = .serving then s
      else
        s.record (.invalidated clientId (s.rv.pairs.toList.filter fun e => e.2.Joins clientId))
  | _ => s

/-- The task of a session does the next thing. -/
def work (s : Broker) (tx : ℕ) (draws : Draws) : Option Broker :=
  match s.sessions[tx]? with
  | none => none
  | some c =>
      match c.todo with
      | [] => none
      | errand :: todo =>
          let (t, more) := ((s.note c errand).setSession tx { c with todo := todo }).exec draws
            errand
          -- what the errand has changed of the session is its channel
          some { t with
            sessions := t.sessions.modify tx fun c' => { c' with todo := more ++ c'.todo } }

/-- Another task does the next thing. -/
def run (s : Broker) (i : ℕ) (draws : Draws) : Option Broker :=
  match s.tasks[i]? with
  | none => none
  | some [] => none
  | some (errand :: todo) =>
      let (t, more) := s.exec draws errand
      some { t with tasks := t.tasks.set i (more ++ todo) }

def step (s : Broker) : BrokerOp → Option Broker
  | .register clientId transport peer bridgeCapability held =>
      some (s.register clientId transport peer bridgeCapability held)
  | .work tx draws => s.work tx draws
  | .serve tx =>
      s.advance tx .registering fun c => s.setSession tx { c with stage := .serving }
  | .frame tx msg proving draws =>
      s.advance tx .serving fun c => s.handleControlFrame tx c proving draws msg
  | .leave tx => s.advance tx .serving fun c => s.leave tx c
  | .drop tx => s.advance tx .ending fun c => s.setSession tx { c with stage := .ended }
  | .recv tx =>
      match s.sessions[tx]? with
      | none => none
      | some c =>
          if 0 < c.channel.unread then
            some (s.setSession tx
              { c with channel := { c.channel with unread := c.channel.unread - 1 } })
          else none
  | .close tx =>
      match s.sessions[tx]? with
      | none => none
      | some c =>
          -- the writer begins when the session has been registered
          if c.stage = .registering then none
          else some (s.setSession tx { c with channel := { c.channel with closed := true } })
  | .run i draws => s.run i draws
  | .takeProbe id clientId capability candidates =>
      match s.rv.probes.lookup id, takeClaim s.rv.probes id clientId capability with
      | some claim, some (pairId, probes) =>
          some ((({ s with rv := { s.rv with probes := probes } } : Broker).record
            (.claimed id claim clientId capability)).spawn [.settle pairId id candidates])
      | _, _ => none
  | .takeRelayLeg id clientId capability =>
      match s.rv.relayLegs.lookup id, takeClaim s.rv.relayLegs id clientId capability with
      | some claim, some (pairId, legs) =>
          some ((({ s with rv := { s.rv with relayLegs := legs } } : Broker).record
            (.claimed id claim clientId capability)).spawn [.parkLeg pairId ⟨clientId, id⟩])
      | _, _ => none
  | .openFlow table clientId proto port addrs =>
      match s.rv.clients.lookup clientId with
      | none => none
      | some h => some (s.spawn [.number table h proto port addrs])
  | .unpark table id =>
      some { s with pending := Function.update s.pending table ((s.pending table).erase id) }

end Broker

end ZeroNat

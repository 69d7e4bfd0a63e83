import ZeroNat.Lib.Pool
import ZeroNat.Lib.Run
import ZeroNat.Server.State

/-!
# Parked opens

A public connection, or a public source of datagrams, is parked under a fresh id while the
client that should carry it opens a data channel for it.  The task that parks it picks the
handle of a session from the registry, and then looks at the watch of the session, parks,
looks at the watch again and queues the request on the control channel, each in a step of its
own.  Meanwhile sessions register, supersede one another and end; the end of a session takes
it out of the registry, fires its watch, and removes what is parked for it from the two
tables, again one step after the other.
-/

namespace ZeroNat

/-- The two tables of parked opens: that of the streams, and that of the sources of a client
whose control session runs over datagrams. -/
inductive ClaimTable where
  | stream
  | udp
deriving DecidableEq

/-- A parked open: the client and the session it was sent on, and the capability that a data
channel must present. -/
structure Parked where
  clientId : String
  controlTx : ℕ
  capability : Capability
deriving DecidableEq

/-- What is owed when a session is taken out of the registry. -/
inductive DutyKind where
  | cancel
  | revoke (table : ClaimTable)
deriving DecidableEq

structure Duty where
  kind : DutyKind
  clientId : String
  tx : ℕ
deriving DecidableEq

/-- The end of a session: fire its watch, then remove what is parked for it. -/
def duties (clientId : String) (tx : ℕ) : List Duty :=
  [⟨.cancel, clientId, tx⟩, ⟨.revoke .stream, clientId, tx⟩, ⟨.revoke .udp, clientId, tx⟩]

/-- How far the task of a session is. -/
inductive SessionStage where
  /-- It is in the registry, and ends the session it superseded. -/
  | registering (todo : List Duty)
  /-- It reads control frames. -/
  | serving
  /-- It has left its loop, and ends its own session if that was still registered. -/
  | ending (todo : List Duty)
  /-- It is gone, and with it its receiver of the watch. -/
  | ended
deriving DecidableEq

def SessionStage.todo : SessionStage → List Duty
  | .registering todo => todo
  | .serving => []
  | .ending todo => todo
  | .ended => []

/-- The task of a control session. -/
structure SessionTask where
  clientId : String
  stage : SessionStage
deriving DecidableEq

/-- The registry of the clients, the tasks of all sessions by the numbers of their channels,
and the sessions whose watch says that they are cancelled. -/
structure Registry where
  clients : Table String ClientHandle
  sessions : List SessionTask
  cancelled : List ℕ

/-- How far a task is that opens a flow. -/
inductive OpenStage where
  /-- It has picked a handle. -/
  | routed
  /-- It has drawn an id and a capability. -/
  | numbered
  /-- It has subscribed to the watch of the session. -/
  | subscribed
  /-- It has found the session not cancelled. -/
  | checked
  /-- It has parked. -/
  | parked
  /-- It has found the session not cancelled again. -/
  | rechecked
  /-- It gives up, and is about to remove what it parked. -/
  | withdrawing
  /-- The open has returned; a timer, or the task of the flow, will remove what is left. -/
  | waiting
  /-- There is nothing left to do. -/
  | finished
deriving DecidableEq

/-- A task that opens a flow over a session. -/
structure Opener where
  table : ClaimTable
  handle : ClientHandle
  id : ℕ
  capability : Capability
  stage : OpenStage
deriving DecidableEq

namespace Opener

/-- What the task parks. -/
def entry (o : Opener) : Parked where
  clientId := o.handle.clientId
  controlTx := o.handle.tx
  capability := o.capability

/-- The task has an id. -/
def Numbered (o : Opener) : Prop :=
  o.stage ≠ .routed

/-- The task has not parked yet. -/
def Early (o : Opener) : Prop :=
  o.stage = .routed ∨ o.stage = .numbered ∨ o.stage = .subscribed ∨ o.stage = .checked

/-- The call that opens has returned. -/
def Returned (o : Opener) : Prop :=
  o.stage = .waiting ∨ o.stage = .finished

instance : DecidablePred Early := fun _ => inferInstanceAs (Decidable (_ ∨ _))

instance : DecidablePred Returned := fun _ => inferInstanceAs (Decidable (_ ∨ _))

/-- The task holds a receiver of the watch.  The receiver of a datagram source goes into the
table with the source. -/
def Subscribed (o : Opener) : Prop :=
  match o.table, o.stage with
  | _, .subscribed => True
  | _, .checked => True
  | .stream, .parked => True
  | .stream, .rechecked => True
  | .stream, .withdrawing => True
  | .stream, .waiting => True
  | _, _ => False

instance : DecidablePred Subscribed := fun o => by
  unfold Subscribed
  split <;> infer_instance

end Opener

/-- A parked open that was handed to a data channel: what was parked, what the channel
presented, and the session that was registered under the client it authenticated as. -/
structure Handout where
  table : ClaimTable
  id : ℕ
  entry : Parked
  clientId : String
  capability : Capability
  session : Option ℕ
deriving DecidableEq

/-- The server as far as parked opens go.  `bridges` has the sessions of the datagram sources
that were handed over and still run, each with its receiver of the watch. -/
structure Opens where
  registry : Registry
  openers : List Opener
  nextId : ℕ
  parked : ClaimTable → Table ℕ Parked
  bridges : List ℕ
  handed : List Handout

inductive OpenOp where
  /-- A client says hello.  `held` says whether the session that has its id, if there is one,
  has been heard from within the window that protects it. -/
  | register (clientId : String) (transport : ActiveTransport) (peer : Option SocketAddr)
      (bridgeCapability : Capability) (held : Bool)
  /-- The task of a session does the next thing that is owed. -/
  | duty (tx : ℕ)
  /-- The task of a session begins to read control frames. -/
  | serve (tx : ℕ)
  /-- The task of a session leaves its loop, and takes the session out of the registry if it
  is still there. -/
  | leave (tx : ℕ)
  /-- The task of a session ends. -/
  | drop (tx : ℕ)
  /-- An administrator disconnects a client. -/
  | disconnectClient (clientId : String)
  /-- A task picks the handle of the client that its listener resolves to. -/
  | route (table : ClaimTable) (clientId : String)
  /-- A task draws an id and a capability, unless the random source fails. -/
  | number (i : ℕ) (capability : Option Capability)
  | subscribe (i : ℕ)
  | check (i : ℕ)
  | park (i : ℕ)
  | recheck (i : ℕ)
  /-- A task queues the request.  `taken` says whether the control channel takes it. -/
  | send (i : ℕ) (taken : Bool)
  | withdraw (i : ℕ)
  /-- The timer of an open, the end of its flow or an abort. -/
  | reclaim (i : ℕ)
  /-- A data channel that authenticated as a client presents an id and a capability. -/
  | claim (table : ClaimTable) (clientId : String) (id : ℕ) (capability : Capability)
  /-- The flow of a datagram source that was handed over ends. -/
  | bridgeEnd (tx : ℕ)

namespace Opens

def init : Opens where
  registry := ⟨∅, [], []⟩
  openers := []
  nextId := 1
  parked := fun _ => ∅
  bridges := []
  handed := []

/-- The watch of a session has a receiver: its own task, a task that opens a flow over it, a
parked source, or the flow of one. -/
def Watched (s : Opens) (tx : ℕ) : Prop :=
  (∃ task ∈ s.registry.sessions[tx]?, task.stage ≠ .ended)
    ∨ (∃ o ∈ s.openers, o.Subscribed ∧ o.handle.tx = tx)
    ∨ (∃ e ∈ (s.parked .udp).toList, e.2.controlTx = tx)
    ∨ tx ∈ s.bridges

instance (s : Opens) (tx : ℕ) : Decidable (s.Watched tx) :=
  inferInstanceAs (Decidable (_ ∨ _))

/-- Set the watch of a session.  A watch without receivers does not take a value. -/
def fire (s : Opens) (tx : ℕ) : Opens :=
  if s.Watched tx then
    { s with registry := { s.registry with cancelled := tx :: s.registry.cancelled } }
  else s

/-- Remove what is parked in a table for a session. -/
def revoke (s : Opens) (table : ClaimTable) (clientId : String) (tx : ℕ) : Opens :=
  { s with
    parked := Function.update s.parked table
      ((s.parked table).retain fun _ e => e.clientId ≠ clientId ∨ e.controlTx ≠ tx) }

def runDuty (s : Opens) (c : Duty) : Opens :=
  match c.kind with
  | .cancel => s.fire c.tx
  | .revoke table => s.revoke table c.clientId c.tx

/-- The task of a session, at another stage. -/
def setStage (s : Opens) (tx : ℕ) (task : SessionTask) (stage : SessionStage) : Opens :=
  { s with
    registry := { s.registry with
      sessions := s.registry.sessions.set tx { task with stage := stage } } }

/-- A task that opens a flow, at another stage. -/
def setOpener (s : Opens) (i : ℕ) (o : Opener) (stage : OpenStage) : Opens :=
  { s with openers := s.openers.set i { o with stage := stage } }

/-- Put or remove an entry of a table. -/
def setTable (s : Opens) (table : ClaimTable) (t : Table ℕ Parked) : Opens :=
  { s with parked := Function.update s.parked table t }

def register (s : Opens) (clientId : String) (transport : ActiveTransport)
    (peer : Option SocketAddr) (bridgeCapability : Capability) (held : Bool) : Opens :=
  let tx := s.registry.sessions.length
  let handle := ClientHandle.new clientId tx transport peer bridgeCapability
  let enter (todo : List Duty) : Opens :=
    { s with
      registry := { s.registry with
        clients := s.registry.clients.insert clientId handle
        sessions := s.registry.sessions ++ [⟨clientId, .registering todo⟩] } }
  match s.registry.clients.lookup clientId with
  | none => enter []
  | some superseded => if held then s else enter (duties clientId superseded.tx)

/-- The first critical section of the end of a session. -/
def leave (s : Opens) (tx : ℕ) (task : SessionTask) : Opens :=
  if Owned s.registry.clients task.clientId tx then
    { s with registry := { s.registry with clients := s.registry.clients.erase task.clientId } }.setStage
      tx task (.ending (duties task.clientId tx))
  else s.setStage tx task (.ending [])

/-- Hand a parked open to a data channel, when it presents the capability and the session that
the open was sent on is the one registered under the client it authenticated as. -/
def claim (s : Opens) (table : ClaimTable) (clientId : String) (id : ℕ)
    (capability : Capability) : Opens :=
  match (s.parked table).lookup id with
  | none => s
  | some e =>
      if e.clientId = clientId ∧ e.capability = capability
          ∧ Owned s.registry.clients clientId e.controlTx then
        let session := (s.registry.clients.lookup clientId).map ClientHandle.tx
        { s.setTable table ((s.parked table).erase id) with
          bridges := if table = .udp then e.controlTx :: s.bridges else s.bridges
          handed := ⟨table, id, e, clientId, capability, session⟩ :: s.handed }
      else s

/-- The step of a task that opens a flow, at a stage it must be at. -/
def advance (s : Opens) (i : ℕ) (stage : OpenStage) (f : Opener → Opens) : Option Opens :=
  match s.openers[i]? with
  | none => none
  | some o => if o.stage = stage then some (f o) else none

def step (s : Opens) : OpenOp → Option Opens
  | .register clientId transport peer bridgeCapability held =>
      some (s.register clientId transport peer bridgeCapability held)
  | .duty tx =>
      match s.registry.sessions[tx]? with
      | some ⟨clientId, .registering (c :: todo)⟩ =>
          some ((s.runDuty c).setStage tx ⟨clientId, .registering (c :: todo)⟩
            (.registering todo))
      | some ⟨clientId, .ending (c :: todo)⟩ =>
          some ((s.runDuty c).setStage tx ⟨clientId, .ending (c :: todo)⟩ (.ending todo))
      | _ => none
  | .serve tx =>
      match s.registry.sessions[tx]? with
      | some ⟨clientId, .registering []⟩ =>
          some (s.setStage tx ⟨clientId, .registering []⟩ .serving)
      | _ => none
  | .leave tx =>
      match s.registry.sessions[tx]? with
      | some ⟨clientId, .serving⟩ => some (s.leave tx ⟨clientId, .serving⟩)
      | _ => none
  | .drop tx =>
      match s.registry.sessions[tx]? with
      | some ⟨clientId, .ending []⟩ => some (s.setStage tx ⟨clientId, .ending []⟩ .ended)
      | _ => none
  | .disconnectClient clientId =>
      match s.registry.clients.lookup clientId with
      | none => some s
      | some handle => some (s.fire handle.tx)
  | .route table clientId =>
      match s.registry.clients.lookup clientId with
      | none => none
      | some handle =>
          some { s with openers := s.openers ++ [⟨table, handle, 0, Bytes.zero 32, .routed⟩] }
  | .number i capability =>
      s.advance i .routed fun o =>
        let s' := { s with nextId := s.nextId + 1 }
        match capability with
        | none => s'.setOpener i { o with id := s.nextId } .finished
        | some capability =>
            s'.setOpener i { o with id := s.nextId, capability := capability } .numbered
  | .subscribe i => s.advance i .numbered fun o => s.setOpener i o .subscribed
  | .check i =>
      s.advance i .subscribed fun o =>
        s.setOpener i o (if o.handle.tx ∈ s.registry.cancelled then .finished else .checked)
  | .park i =>
      s.advance i .checked fun o =>
        (s.setTable o.table ((s.parked o.table).insert o.id o.entry)).setOpener i o .parked
  | .recheck i =>
      s.advance i .parked fun o =>
        s.setOpener i o (if o.handle.tx ∈ s.registry.cancelled then .withdrawing else .rechecked)
  | .send i taken =>
      s.advance i .rechecked fun o => s.setOpener i o (if taken then .waiting else .withdrawing)
  | .withdraw i =>
      s.advance i .withdrawing fun o =>
        (s.setTable o.table ((s.parked o.table).erase o.id)).setOpener i o .finished
  | .reclaim i =>
      s.advance i .waiting fun o =>
        (s.setTable o.table ((s.parked o.table).erase o.id)).setOpener i o .finished
  | .claim table clientId id capability => some (s.claim table clientId id capability)
  | .bridgeEnd tx => some { s with bridges := s.bridges.erase tx }

/-- What the task of a session does next. -/
def nextDuty (s : Opens) (tx : ℕ) : Option Duty :=
  s.registry.sessions[tx]?.bind fun task => task.stage.todo.head?

/-- The watch of a session that is taken out of the registry still has a receiver when it is
fired. -/
def Heeded (s : Opens) : OpenOp → Prop
  | .duty tx => ∀ c ∈ s.nextDuty tx, c.kind = .cancel → s.Watched c.tx
  | _ => True

instance (s : Opens) : DecidablePred s.Heeded := fun op => by
  unfold Heeded
  split <;> infer_instance

/-- The steps of a server in which no watch is fired that nobody holds. -/
def Step (s : Opens) (op : OpenOp) (t : Opens) : Prop :=
  Meeting Heeded (fun s op t => s.step op = some t) s op t

end Opens

end ZeroNat

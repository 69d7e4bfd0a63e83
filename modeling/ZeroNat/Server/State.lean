import ZeroNat.Lib.Table
import ZeroNat.Proto.Msg

/-!
# The tables of the server

What the server keeps about its clients and its public ports.  A control session is known by
the number of its control channel: two senders are of the same channel when their numbers are
equal, and no number is used for two sessions.
-/

namespace ZeroNat

/-- The transport a control session arrived on. -/
inductive ActiveTransport where
  | tcp
  | udp
deriving DecidableEq, Repr

/-- A public listener: its address, protocol and port.  The same key is that of its route. -/
abbrev RouteKey : Type :=
  Ipv4Addr × Proto × UInt16

/-- The options of one forward as the server honours them, the idle window in seconds. -/
structure FwdOpt where
  proxy : Bool
  idle : Option ℕ
deriving DecidableEq

/-- The target of a public listener. -/
structure Route where
  clientId : String
  source : Source
deriving DecidableEq

/-- A connected client.  The watch that cancels the session and the time it was last heard
from belong to its control channel. -/
structure ClientHandle where
  clientId : String
  tx : ℕ
  transport : ActiveTransport
  fwd : Table (Proto × UInt16) FwdOpt
  observed : Option SocketAddr
  peerProvides : Option UInt8
  peerIdentity : Option PeerIdentity
  bridgeCapability : Option Capability
deriving DecidableEq

/-- The handle of a session that has only said hello. -/
def ClientHandle.new (clientId : String) (tx : ℕ) (transport : ActiveTransport)
    (peer : Option SocketAddr) (bridgeCapability : Capability) : ClientHandle where
  clientId := clientId
  tx := tx
  transport := transport
  fwd := ∅
  observed := peer
  peerProvides := none
  peerIdentity := none
  bridgeCapability := some bridgeCapability

/-- The ownership test of a session: the registry entry of the client is that of the
control channel. -/
def Owned (clients : Table String ClientHandle) (clientId : String) (tx : ℕ) : Prop :=
  ∃ h, clients.lookup clientId = some h ∧ h.tx = tx

instance (clients : Table String ClientHandle) (clientId : String) (tx : ℕ) :
    Decidable (Owned clients clientId tx) :=
  match h : clients.lookup clientId with
  | none => isFalse (by rintro ⟨c, hc, -⟩; simp [h] at hc)
  | some c =>
      if htx : c.tx = tx then isTrue ⟨c, h, htx⟩
      else isFalse (by
        rintro ⟨c', hc', htx'⟩
        rw [h] at hc'
        exact htx (by rw [Option.some.inj hc', htx']))

/-- Resolve a public listener to the client that should serve it: an explicit route wins, and
with no route a client that is connected alone is the implicit target. -/
def servingClientId (routes : Table RouteKey Route) (clients : Table String ClientHandle)
    (key : RouteKey) : Option String :=
  match routes.lookup key with
  | some r => some r.clientId
  | none => if clients.size = 1 then clients.keys.head? else none

/-- The handle of the client that serves a listener, when it is connected. -/
def routeTo (routes : Table RouteKey Route) (clients : Table String ClientHandle)
    (key : RouteKey) : Option ClientHandle :=
  (servingClientId routes clients key).bind clients.lookup

/-- The owner of a setting made by an administrator: the file on a node with a config file. -/
def mutationSource (fileBacked : Bool) : Source :=
  if fileBacked then .file else .runtime

section Resolution

variable {routes : Table RouteKey Route} {clients : Table String ClientHandle} {key : RouteKey}
  {id : String} {h : ClientHandle}

/-- With an explicit route, the registry does not matter. -/
theorem servingClientId_of_route {r : Route} (hr : routes.lookup key = some r) :
  servingClientId routes clients key = some r.clientId
  := by
  rw [servingClientId, hr]

/-- A connected client is the implicit target of a listener, or nobody is. -/
theorem servingClientId_fallback (hr : routes.lookup key = none)
    (hid : clients.lookup id = some h) :
  servingClientId routes clients key = some id ∨ servingClientId routes clients key = none
  := by
  rw [servingClientId, hr]
  dsimp only
  split
  · rename_i hsize
    exact Or.inl (Table.keys_of_size_one hsize hid)
  · exact Or.inr rfl

theorem routeTo_eq_some (hroute : routeTo routes clients key = some h) :
  ∃ id, servingClientId routes clients key = some id ∧ clients.lookup id = some h
  := Option.bind_eq_some_iff.mp hroute

end Resolution

end ZeroNat

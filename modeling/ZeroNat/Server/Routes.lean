import ZeroNat.Lib.Run
import ZeroNat.Server.State

/-!
# Flows and the route table

A public connection, or a public source of datagrams, is carried by the client that its
listener resolves to when it is admitted, over the session that client has then.  A change of
a route cuts the established flows of a listener when the client the listener resolves to
changes.  That client depends on who else is connected, so the resolution at the time of a
mutation need not be the one the flows were admitted under.
-/

namespace ZeroNat

/-- An established flow: the listener it came in on, its public source, and the client and
the session that carry it. -/
structure Flow where
  key : RouteKey
  src : SocketAddr
  client : String
  session : ℕ
deriving DecidableEq

/-- The registry, the routes and the flows of a server.  `flows` has the flows that neither
have ended nor have been cut, and `cancelled` the sessions whose watch has fired. -/
structure Forwarding where
  fileBacked : Bool
  listeners : List RouteKey
  routes : Table RouteKey Route
  clients : Table String ClientHandle
  cancelled : List ℕ
  nextTx : ℕ
  flows : List Flow

/-- What happens to a server, each an atomic step. -/
inductive ForwardingOp where
  /-- A client says hello.  `held` says whether the session that has its id, if there is one,
  has been heard from within the window that protects it. -/
  | register (clientId : String) (transport : ActiveTransport) (peer : Option SocketAddr)
      (bridgeCapability : Capability) (held : Bool)
  /-- A session ends. -/
  | unregister (clientId : String) (tx : ℕ)
  /-- An administrator disconnects a client. -/
  | disconnectClient (clientId : String)
  /-- A connection or a datagram arrives at a listener.  `sent` says whether the random
  source answers and the control channel of the client takes the frame. -/
  | admitFlow (key : RouteKey) (src : SocketAddr) (sent : Bool)
  /-- A flow comes to its end by itself. -/
  | finish (f : Flow)
  | setRoute (key : RouteKey) (clientId : String)
  | clearRoute (key : RouteKey)

/-- The number of connections, or of sources, that a listener carries at most. -/
def maxFlowsPerForward : ℕ := 256

namespace Forwarding

/-- A server as it boots: its listeners and routes, and nobody connected. -/
def boot (fileBacked : Bool) (listeners : List RouteKey) (routes : Table RouteKey Route) :
    Forwarding where
  fileBacked := fileBacked
  listeners := listeners
  routes := routes
  clients := ∅
  cancelled := []
  nextTx := 0
  flows := []

/-- The client that a listener resolves to. -/
def serving (s : Forwarding) (key : RouteKey) : Option String :=
  servingClientId s.routes s.clients key

/-- Fire the watch of a session, which ends the flows that it carries. -/
def cancel (s : Forwarding) (tx : ℕ) : Forwarding :=
  { s with
    cancelled := tx :: s.cancelled
    flows := s.flows.filter fun f => f.session ≠ tx }

/-- Cut every established flow of a listener. -/
def cutEstablished (s : Forwarding) (key : RouteKey) : Forwarding :=
  if key ∈ s.listeners then { s with flows := s.flows.filter fun f => f.key ≠ key } else s

def registerClient (s : Forwarding) (clientId : String) (transport : ActiveTransport)
    (peer : Option SocketAddr) (bridgeCapability : Capability) (held : Bool) : Forwarding :=
  let handle := ClientHandle.new clientId s.nextTx transport peer bridgeCapability
  let s' := { s with clients := s.clients.insert clientId handle, nextTx := s.nextTx + 1 }
  match s.clients.lookup clientId with
  | none => s'
  | some superseded => if held then s else s'.cancel superseded.tx

def unregisterClient (s : Forwarding) (clientId : String) (tx : ℕ) : Forwarding :=
  if Owned s.clients clientId tx then
    { s with clients := s.clients.erase clientId }.cancel tx
  else s

def disconnectClient (s : Forwarding) (clientId : String) : Forwarding :=
  match s.clients.lookup clientId with
  | none => s
  | some handle => s.cancel handle.tx

/-- Open a flow over the session of the client that serves the listener, unless that session
has been cancelled. -/
def openFlow (s : Forwarding) (key : RouteKey) (src : SocketAddr) (sent : Bool) : Forwarding :=
  match routeTo s.routes s.clients key with
  | none => s
  | some handle =>
      if handle.tx ∉ s.cancelled ∧ sent then
        { s with flows := ⟨key, src, handle.clientId, handle.tx⟩ :: s.flows }
      else s

/-- Admit a connection or a source of datagrams: a datagram of a source that has a flow goes
to that flow, and a listener at its capacity admits nobody. -/
def admitFlow (s : Forwarding) (key : RouteKey) (src : SocketAddr) (sent : Bool) : Forwarding :=
  let active := s.flows.filter fun f => f.key = key
  if key ∉ s.listeners ∨ maxFlowsPerForward ≤ active.length
      ∨ (key.2.1 = .udp ∧ active.any fun f => f.src = src) then s
  else s.openFlow key src sent

/-- Point a listener at a client.  Its flows are cut unless the client serves it already. -/
def setRoute (s : Forwarding) (key : RouteKey) (clientId : String) : Forwarding :=
  let s' := { s with routes := s.routes.insert key ⟨clientId, mutationSource s.fileBacked⟩ }
  if s.serving key ≠ some clientId then s'.cutEstablished key else s'

/-- Remove the route of a listener.  Its flows are cut when the client that serves it
changes. -/
def clearRoute (s : Forwarding) (key : RouteKey) : Forwarding :=
  let s' := { s with routes := s.routes.erase key }
  if s.serving key ≠ s'.serving key then s'.cutEstablished key else s'

def step (s : Forwarding) : ForwardingOp → Forwarding
  | .register clientId transport peer bridgeCapability held =>
      s.registerClient clientId transport peer bridgeCapability held
  | .unregister clientId tx => s.unregisterClient clientId tx
  | .disconnectClient clientId => s.disconnectClient clientId
  | .admitFlow key src sent => s.admitFlow key src sent
  | .finish f => { s with flows := s.flows.erase f }
  | .setRoute key clientId => s.setRoute key clientId
  | .clearRoute key => s.clearRoute key

/-- The server after a sequence of steps. -/
def run (s : Forwarding) (ops : List ForwardingOp) : Forwarding :=
  ops.foldl step s

/-! ### The flows of a listener are those of the client it resolves to -/

/-- The session of a flow is still registered, and the listener resolves to the client of
the flow or to nobody. -/
structure Serves (s : Forwarding) (f : Flow) : Prop where
  owned : Owned s.clients f.client f.session
  resolved : s.serving f.key = some f.client ∨ s.serving f.key = none

/-- The entries of the registry are under the id of their client, flows are of listeners, and
every flow is served. -/
structure Consistent (s : Forwarding) : Prop where
  named : ∀ id h, s.clients.lookup id = some h → h.clientId = id
  bound : ∀ f ∈ s.flows, f.key ∈ s.listeners
  served : ∀ f ∈ s.flows, s.Serves f

theorem consistent_boot (fileBacked : Bool) (listeners : List RouteKey)
    (routes : Table RouteKey Route) :
  (boot fileBacked listeners routes).Consistent where
  named := by
    intro id h hid
    simp [boot] at hid
  bound := by simp [boot]
  served := by simp [boot]

/-- The resolution of a listener after the registry has changed, for a client that is
connected. -/
theorem resolved_of_clients {s : Forwarding} {clients : Table String ClientHandle} {f : Flow}
    (hf : s.Serves f) (howned : Owned clients f.client f.session) :
  servingClientId s.routes clients f.key = some f.client
    ∨ servingClientId s.routes clients f.key = none
  := by
  obtain ⟨h, hh, -⟩ := howned
  cases hr : s.routes.lookup f.key with
  | none => exact servingClientId_fallback hr hh
  | some r =>
      obtain hres | hres := hf.resolved
      · rw [serving, servingClientId_of_route hr] at hres
        exact Or.inl (by rw [servingClientId_of_route hr, hres])
      · rw [serving, servingClientId_of_route hr] at hres
        simp at hres

/-- A registry in which the sessions of the remaining flows are as they were. -/
theorem Consistent.of_clients {s t : Forwarding} (hs : s.Consistent)
    (hroutes : t.routes = s.routes) (hlisteners : t.listeners = s.listeners)
    (hnamed : ∀ id h, t.clients.lookup id = some h → h.clientId = id)
    (hflows : ∀ f ∈ t.flows, f ∈ s.flows ∧ Owned t.clients f.client f.session) :
  t.Consistent where
  named := hnamed
  bound := by
    intro f hf
    rw [hlisteners]
    exact hs.bound f (hflows f hf).1
  served := by
    intro f hf
    obtain ⟨hmem, howned⟩ := hflows f hf
    refine ⟨howned, ?_⟩
    rw [serving, hroutes]
    exact resolved_of_clients (hs.served f hmem) howned

theorem Consistent.cancel {s : Forwarding} (hs : s.Consistent) (tx : ℕ) :
  (s.cancel tx).Consistent
  := by
  refine hs.of_clients rfl rfl hs.named ?_
  intro f hf
  have hmem : f ∈ s.flows := (List.mem_filter.mp hf).1
  exact ⟨hmem, (hs.served f hmem).owned⟩

theorem Consistent.registerClient {s : Forwarding} (hs : s.Consistent) (clientId : String)
    (transport : ActiveTransport) (peer : Option SocketAddr) (bridgeCapability : Capability)
    (held : Bool) :
  (s.registerClient clientId transport peer bridgeCapability held).Consistent
  := by
  have hnamed : ∀ id h, (s.clients.insert clientId
      (ClientHandle.new clientId s.nextTx transport peer bridgeCapability)).lookup id = some h →
      h.clientId = id := by
    intro id h hid
    rw [Table.lookup_insert_eq] at hid
    split at hid
    · rename_i heq
      rw [← Option.some.inj hid, heq]
      rfl
    · exact hs.named id h hid
  -- a flow of another client finds its session where it was
  have howned : ∀ f ∈ s.flows, f.client ≠ clientId → Owned (s.clients.insert clientId
      (ClientHandle.new clientId s.nextTx transport peer bridgeCapability))
      f.client f.session := by
    intro f hf hne
    obtain ⟨h, hh, htx⟩ := (hs.served f hf).owned
    refine ⟨h, ?_, htx⟩
    rw [Table.lookup_insert_eq, if_neg hne, hh]
  rw [Forwarding.registerClient]
  split
  · rename_i hnone
    refine hs.of_clients rfl rfl hnamed ?_
    intro f hf
    refine ⟨hf, howned f hf ?_⟩
    rintro rfl
    obtain ⟨h, hh, -⟩ := (hs.served f hf).owned
    rw [hnone] at hh
    simp at hh
  · rename_i superseded hsup
    split
    · exact hs
    · refine hs.of_clients rfl rfl hnamed ?_
      intro f hf
      obtain ⟨hmem, hsession⟩ := List.mem_filter.mp hf
      refine ⟨hmem, howned f hmem ?_⟩
      rintro rfl
      obtain ⟨h, hh, htx⟩ := (hs.served f hmem).owned
      rw [hsup] at hh
      rw [← Option.some.inj hh] at htx
      simp [htx] at hsession

theorem Consistent.unregisterClient {s : Forwarding} (hs : s.Consistent) (clientId : String)
    (tx : ℕ) :
  (s.unregisterClient clientId tx).Consistent
  := by
  rw [Forwarding.unregisterClient]
  split
  · rename_i hown
    refine hs.of_clients rfl rfl ?_ ?_
    · intro id h hid
      change (s.clients.erase clientId).lookup id = some h at hid
      rw [Table.lookup_erase_eq] at hid
      split at hid
      · simp at hid
      · exact hs.named id h hid
    · intro f hf
      obtain ⟨hmem, hsession⟩ := List.mem_filter.mp hf
      obtain ⟨h, hh, htx⟩ := (hs.served f hmem).owned
      refine ⟨hmem, h, ?_, htx⟩
      change (s.clients.erase clientId).lookup f.client = some h
      rw [Table.lookup_erase_eq, if_neg, hh]
      rintro rfl
      obtain ⟨h', hh', htx'⟩ := hown
      rw [hh] at hh'
      rw [← Option.some.inj hh', htx] at htx'
      simp [htx'] at hsession
  · exact hs

theorem Consistent.admitFlow {s : Forwarding} (hs : s.Consistent) (key : RouteKey)
    (src : SocketAddr) (sent : Bool) :
  (s.admitFlow key src sent).Consistent
  := by
  rw [Forwarding.admitFlow]
  split
  · exact hs
  · rename_i hadmitted
    rw [openFlow]
    split
    · exact hs
    · rename_i handle hroute
      split
      · obtain ⟨id, hserving, hid⟩ := routeTo_eq_some hroute
        have hname := hs.named id handle hid
        refine ⟨hs.named, ?_, ?_⟩
        · intro f hf
          obtain rfl | hf := List.mem_cons.mp hf
          · by_contra hkey
            exact hadmitted (Or.inl hkey)
          · exact hs.bound f hf
        · intro f hf
          obtain rfl | hf := List.mem_cons.mp hf
          · subst hname
            exact ⟨⟨handle, hid, rfl⟩, Or.inl hserving⟩
          · exact ⟨(hs.served f hf).owned, (hs.served f hf).resolved⟩
      · exact hs

/-- A change of the route of a listener, when the flows of the listener agree with it. -/
theorem Consistent.of_routes {s t : Forwarding} (hs : s.Consistent) (key : RouteKey)
    (hclients : t.clients = s.clients) (hlisteners : t.listeners = s.listeners)
    (hroutes : ∀ key', key' ≠ key → t.routes.lookup key' = s.routes.lookup key')
    (hflows : ∀ f ∈ t.flows, f ∈ s.flows ∧
      (f.key = key → t.serving key = some f.client ∨ t.serving key = none)) :
  t.Consistent where
  named := by rw [hclients]; exact hs.named
  bound := by
    intro f hf
    rw [hlisteners]
    exact hs.bound f (hflows f hf).1
  served := by
    intro f hf
    obtain ⟨hmem, hkey⟩ := hflows f hf
    refine ⟨by rw [hclients]; exact (hs.served f hmem).owned, ?_⟩
    by_cases heq : f.key = key
    · rw [heq]
      exact hkey heq
    · rw [serving, servingClientId, hroutes f.key heq, hclients]
      exact (hs.served f hmem).resolved

/-- The flows that a cut leaves are of other listeners. -/
theorem mem_cutEstablished {s : Forwarding} {key : RouteKey} {f : Flow}
    (hbound : ∀ f ∈ s.flows, f.key ∈ s.listeners) (hf : f ∈ (s.cutEstablished key).flows) :
  f ∈ s.flows ∧ f.key ≠ key
  := by
  rw [cutEstablished] at hf
  split at hf
  · obtain ⟨hmem, hne⟩ := List.mem_filter.mp hf
    exact ⟨hmem, of_decide_eq_true hne⟩
  · rename_i hkey
    refine ⟨hf, ?_⟩
    rintro rfl
    exact hkey (hbound f hf)

theorem mem_cutEstablished_of_ne {s : Forwarding} {key : RouteKey} {f : Flow} (hf : f ∈ s.flows)
    (hne : f.key ≠ key) :
  f ∈ (s.cutEstablished key).flows
  := by
  rw [cutEstablished]
  split
  · exact List.mem_filter.mpr ⟨hf, decide_eq_true hne⟩
  · exact hf

@[simp]
theorem clients_cutEstablished (s : Forwarding) (key : RouteKey) :
  (s.cutEstablished key).clients = s.clients
  := by
  rw [cutEstablished]
  split <;> rfl

@[simp]
theorem routes_cutEstablished (s : Forwarding) (key : RouteKey) :
  (s.cutEstablished key).routes = s.routes
  := by
  rw [cutEstablished]
  split <;> rfl

@[simp]
theorem listeners_cutEstablished (s : Forwarding) (key : RouteKey) :
  (s.cutEstablished key).listeners = s.listeners
  := by
  rw [cutEstablished]
  split <;> rfl

theorem Consistent.setRoute {s : Forwarding} (hs : s.Consistent) (key : RouteKey)
    (clientId : String) :
  (s.setRoute key clientId).Consistent
  := by
  have hroutes : ∀ key', key' ≠ key → (s.routes.insert key
      ⟨clientId, mutationSource s.fileBacked⟩).lookup key' = s.routes.lookup key' := by
    intro key' hne
    exact AList.lookup_insert_ne hne
  rw [Forwarding.setRoute]
  split
  · refine hs.of_routes key (clients_cutEstablished _ _) (listeners_cutEstablished _ _) ?_ ?_
    · rw [routes_cutEstablished]
      exact hroutes
    · intro f hf
      obtain ⟨hmem, hne⟩ := mem_cutEstablished (by exact hs.bound) hf
      exact ⟨hmem, fun heq => absurd heq hne⟩
  · rename_i hserving
    refine hs.of_routes key rfl rfl hroutes ?_
    intro f hf
    refine ⟨hf, fun heq => Or.inl ?_⟩
    -- the client that serves the listener already is the one of its flows
    have hfixed : s.serving key = some clientId := by simpa using hserving
    obtain hres | hres := (hs.served f hf).resolved
    · rw [heq, hfixed] at hres
      rw [serving, servingClientId_of_route (AList.lookup_insert _), ← hres]
    · rw [heq, hfixed] at hres
      simp at hres

theorem Consistent.clearRoute {s : Forwarding} (hs : s.Consistent) (key : RouteKey) :
  (s.clearRoute key).Consistent
  := by
  have hroutes : ∀ key', key' ≠ key →
      (s.routes.erase key).lookup key' = s.routes.lookup key' := by
    intro key' hne
    exact AList.lookup_erase_ne hne
  rw [Forwarding.clearRoute]
  split
  · refine hs.of_routes key (clients_cutEstablished _ _) (listeners_cutEstablished _ _) ?_ ?_
    · rw [routes_cutEstablished]
      exact hroutes
    · intro f hf
      obtain ⟨hmem, hne⟩ := mem_cutEstablished (by exact hs.bound) hf
      exact ⟨hmem, fun heq => absurd heq hne⟩
  · rename_i hserving
    refine hs.of_routes key rfl rfl hroutes ?_
    intro f hf
    refine ⟨hf, fun heq => ?_⟩
    have hfixed := not_not.mp hserving
    rw [← hfixed, ← heq]
    exact (hs.served f hf).resolved

theorem Consistent.step {s : Forwarding} (hs : s.Consistent) (op : ForwardingOp) :
  (s.step op).Consistent
  := by
  cases op with
  | register clientId transport peer bridgeCapability held =>
      exact hs.registerClient clientId transport peer bridgeCapability held
  | unregister clientId tx => exact hs.unregisterClient clientId tx
  | disconnectClient clientId =>
      rw [Forwarding.step, disconnectClient]
      split
      · exact hs
      · exact hs.cancel _
  | admitFlow key src sent => exact hs.admitFlow key src sent
  | finish f =>
      refine hs.of_clients rfl rfl hs.named ?_
      intro g hg
      have hmem : g ∈ s.flows := List.mem_of_mem_erase hg
      exact ⟨hmem, (hs.served g hmem).owned⟩
  | setRoute key clientId => exact hs.setRoute key clientId
  | clearRoute key => exact hs.clearRoute key

theorem consistent_run (fileBacked : Bool) (listeners : List RouteKey)
    (routes : Table RouteKey Route) (ops : List ForwardingOp) :
  ((boot fileBacked listeners routes).run ops).Consistent
  := by
  apply Run.invariant (run_foldl step _ ops) (consistent_boot fileBacked listeners routes)
  rintro s op t hs rfl
  exact hs.step op

/-- A mutation of the route table. -/
def RouteMutation : ForwardingOp → Prop
  | .setRoute _ _ => True
  | .clearRoute _ => True
  | _ => False

/-- A mutation that leaves the client of a flow in place does not cut the flow, unless its
listener resolved to nobody. -/
theorem Consistent.mem_of_serving {s : Forwarding} (hs : s.Consistent) {op : ForwardingOp}
    (hop : RouteMutation op) {f : Flow} (hf : f ∈ s.flows)
    (hserving : (s.step op).serving f.key = some f.client) :
  f ∈ (s.step op).flows ∨ s.serving f.key = none
  := by
  cases hs.served f hf |>.resolved with
  | inr hnone => exact Or.inr hnone
  | inl hsome =>
      refine Or.inl ?_
      cases op with
      | setRoute key clientId =>
          rw [Forwarding.step, Forwarding.setRoute] at hserving ⊢
          split
          · rename_i hne
            refine mem_cutEstablished_of_ne (by exact hf) ?_
            rintro rfl
            rw [if_pos hne, serving, clients_cutEstablished, routes_cutEstablished,
              servingClientId_of_route (AList.lookup_insert _)] at hserving
            rw [hsome] at hne
            exact hne hserving.symm
          · exact hf
      | clearRoute key =>
          rw [Forwarding.step, Forwarding.clearRoute] at hserving ⊢
          split
          · rename_i hne
            refine mem_cutEstablished_of_ne (by exact hf) ?_
            rintro rfl
            rw [if_pos hne, serving, clients_cutEstablished, routes_cutEstablished] at hserving
            exact hne (hsome.trans hserving.symm)
          · exact hf
      | register => exact hop.elim
      | unregister => exact hop.elim
      | disconnectClient => exact hop.elim
      | admitFlow => exact hop.elim
      | finish => exact hop.elim

/-- Flows follow the route table.  After every sequence of steps, each flow is carried by the
session its client still has, and its listener resolves to that client or to nobody; once a
listener has been pointed at a client, its flows are all of that client; and a mutation of the
routes that leaves the client of a flow in place cuts the flow only if the listener resolved
to nobody. -/
theorem flows_follow_routes (fileBacked : Bool) (listeners : List RouteKey)
    (routes : Table RouteKey Route) (ops : List ForwardingOp) :
  let s := (boot fileBacked listeners routes).run ops
  (∀ f ∈ s.flows, s.Serves f)
    ∧ (∀ key d, ∀ f ∈ (s.step (.setRoute key d)).flows, f.key = key → f.client = d)
    ∧ (∀ op f, RouteMutation op → f ∈ s.flows →
        (s.step op).serving f.key = some f.client →
        f ∈ (s.step op).flows ∨ s.serving f.key = none)
  := by
  intro s
  have hs : s.Consistent := consistent_run fileBacked listeners routes ops
  refine ⟨hs.served, ?_, ?_⟩
  · rintro key d f hf rfl
    have hserving : (s.step (.setRoute f.key d)).serving f.key = some d := by
      rw [step, Forwarding.setRoute, serving]
      split
      · rw [clients_cutEstablished, routes_cutEstablished,
          servingClientId_of_route (AList.lookup_insert _)]
      · rw [servingClientId_of_route (AList.lookup_insert _)]
    obtain hres | hres := ((hs.step (.setRoute f.key d)).served f hf).resolved
    · exact Option.some.inj (hres.symm.trans hserving)
    · rw [hserving] at hres
      simp at hres
  · intro op f hop hf hserving
    exact hs.mem_of_serving hop hf hserving

/-- The flow of a client that is connected alone is not cut by a route to that client. -/
theorem flows_follow_routes_alone :
  let key : RouteKey := (⟨0⟩, .tcp, 443)
  let src : SocketAddr := .v4 ⟨0x0A000001⟩ 5000
  let s := (boot true [key] ∅).run
    [.register "a" .tcp none (Bytes.zero 32) false, .admitFlow key src true]
  s.flows = [⟨key, src, "a", 0⟩]
    ∧ (⟨key, src, "a", 0⟩ ∈ (s.step (.setRoute key "a")).flows ∨ s.serving key = none)
  := by
  intro key src s
  refine ⟨by decide, ?_⟩
  exact (flows_follow_routes true [key] ∅ _).2.2 (.setRoute key "a") ⟨key, src, "a", 0⟩ trivial
    (by decide) (by decide)

end Forwarding

end ZeroNat

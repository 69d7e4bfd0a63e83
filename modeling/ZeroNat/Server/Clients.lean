import ZeroNat.Config.Server
import ZeroNat.Secret
import ZeroNat.Server.State

/-!
# The settings of a server

What an administrator can change while a server runs: its listeners, its routes and the list
of its clients.  The clients of the config file stand for the whole list when there are any,
and otherwise those of the command line do.  The list is resolved to a table of credentials,
keyed by what a client sends to say which of them it uses.
-/

namespace ZeroNat

open Config (CfgClient CfgListener CfgRoute ServerConfig ServerTable protoStr ipText ok_of_bind)

/-- A public listener as the registry has it. -/
structure ListenerHandle where
  source : Source
  cliLocked : Bool
deriving DecidableEq

/-- A client with its secret resolved. -/
structure ClientCredentialSpec where
  clientId : String
  secret : String
deriving DecidableEq

/-- The authorized clients: the id and the key of each, by its selector. -/
abbrev ClientCredentials : Type :=
  Table (List UInt8) (String × Bytes 32)

/-! ### Resolving clients -/

/-- Resolve a client.  One without a secret takes its credential from the seed. -/
def clientSpec (noCredential : String) (seed : Option Seed) (client : CfgClient) :
    Except String ClientCredentialSpec :=
  match client.secret, seed with
  | some secret, _ => .ok ⟨client.id, secret⟩
  | none, some seed => .ok ⟨client.id, seed.client client.id⟩
  | none, none =>
      .error ("client `" ++ client.id ++ "` has no credential: " ++ noCredential)

/-- Resolve the clients of the file when it has any, else those of the command line. -/
def clientSpecs (file cli : List CfgClient) (seed : Option Seed) :
    Except String (List ClientCredentialSpec) :=
  if file = [] then
    cli.mapM (clientSpec "give --client ID:64-HEX or set a seed (--seed or ZERONAT_SEED)" seed)
  else file.mapM (clientSpec "add `secret` or set [server].seed" seed)

def adminNotDistinct : String :=
  "admin secret must differ from network and client credentials"

def discoveryNotDistinct : String :=
  "discovery credential must differ from network, client, and admin credentials"

/-- Extend a table by clients, given the ids of those in it. -/
def extendTable (adminPsk discoveryPsk : Option (Bytes 32)) :
    ClientCredentials → List String → List ClientCredentialSpec →
    Except String ClientCredentials
  | table, _, [] => .ok table
  | table, ids, credential :: specs =>
      if credential.clientId = "" then .error "client id must not be empty"
      else if credential.clientId ∈ ids then
        .error ("duplicate client id `" ++ credential.clientId ++ "`")
      else
        match Secret.normalize credential.secret with
        | .error e => .error e
        | .ok secret =>
            let psk := derivePsk secret
            if adminPsk = some psk then .error adminNotDistinct
            else if discoveryPsk = some psk then .error discoveryNotDistinct
            else
              let selector := clientSelector psk
              if (table.lookup selector).isSome then .error "client credentials must be unique"
              else
                extendTable adminPsk discoveryPsk
                  (table.insert selector (credential.clientId, psk))
                  (credential.clientId :: ids) specs

/-- The table of the authorized clients. -/
def clientTable (specs : List ClientCredentialSpec) (adminPsk discoveryPsk : Option (Bytes 32)) :
    Except String ClientCredentials :=
  extendTable adminPsk discoveryPsk ∅ [] specs

/-- The keys of a table by the ids of the clients. -/
def byId (table : ClientCredentials) : Table String (Bytes 32) :=
  table.toList.foldl (fun m e => m.insert e.2.1 e.2.2) ∅

/-! ### What a table holds -/

/-- The selector and the entry of a client with a secret. -/
def Credential (spec : ClientCredentialSpec) (selector : List UInt8) (entry : String × Bytes 32) :
    Prop :=
  ∃ secret, Secret.normalize spec.secret = .ok secret
    ∧ entry = (spec.clientId, derivePsk secret) ∧ selector = clientSelector entry.2

/-- A table that has been extended by clients: they have ids of their own, and the table has
one entry for each beside those it had. -/
structure Extends (table : ClientCredentials) (ids : List String)
    (specs : List ClientCredentialSpec) (t : ClientCredentials) : Prop where
  named : ∀ spec ∈ specs, spec.clientId ≠ "" ∧ spec.clientId ∉ ids
  distinct : (specs.map ClientCredentialSpec.clientId).Nodup
  kept : ∀ selector entry, table.lookup selector = some entry → t.lookup selector = some entry
  holds : ∀ spec ∈ specs, ∃ selector entry, Credential spec selector entry
    ∧ t.lookup selector = some entry
  only : ∀ selector entry, t.lookup selector = some entry →
    table.lookup selector = some entry ∨ ∃ spec ∈ specs, Credential spec selector entry

theorem extends_of_extendTable {adminPsk discoveryPsk : Option (Bytes 32)}
    {table t : ClientCredentials} {ids : List String} {specs : List ClientCredentialSpec}
    (h : extendTable adminPsk discoveryPsk table ids specs = .ok t) :
  Extends table ids specs t
  := by
  induction specs generalizing table ids with
  | nil =>
      obtain rfl := Except.ok.inj h
      exact ⟨by simp, by simp, fun _ _ h => h, by simp, fun _ _ h => Or.inl h⟩
  | cons spec specs ih =>
      rw [extendTable] at h
      split at h
      · simp at h
      · rename_i hnamed
        split at h
        · simp at h
        · rename_i hfresh
          split at h
          · simp at h
          · rename_i secret hsecret
            dsimp only at h
            split at h
            · simp at h
            · split at h
              · simp at h
              · split at h
                · simp at h
                · rename_i hunique
                  have hrest := ih h
                  have hcredential : Credential spec (clientSelector (derivePsk secret))
                      (spec.clientId, derivePsk secret) := ⟨secret, hsecret, rfl, rfl⟩
                  have hheld := hrest.kept (clientSelector (derivePsk secret))
                    (spec.clientId, derivePsk secret) (AList.lookup_insert table)
                  refine ⟨?_, ?_, ?_, ?_, ?_⟩
                  · intro spec' hspec'
                    obtain rfl | hspec' := List.mem_cons.mp hspec'
                    · exact ⟨hnamed, hfresh⟩
                    · obtain ⟨hne, hout⟩ := hrest.named spec' hspec'
                      exact ⟨hne, fun hmem => hout (List.mem_cons_of_mem _ hmem)⟩
                  · refine List.nodup_cons.mpr ⟨?_, hrest.distinct⟩
                    intro hmem
                    obtain ⟨spec', hspec', heq⟩ := List.mem_map.mp hmem
                    exact (hrest.named spec' hspec').2 (heq ▸ List.mem_cons_self)
                  · intro selector entry hentry
                    refine hrest.kept selector entry ?_
                    rw [Table.lookup_insert_eq, if_neg, hentry]
                    rintro rfl
                    exact hunique (by rw [hentry]; rfl)
                  · intro spec' hspec'
                    obtain rfl | hspec' := List.mem_cons.mp hspec'
                    · exact ⟨_, _, hcredential, hheld⟩
                    · exact hrest.holds spec' hspec'
                  · intro selector entry hentry
                    obtain hold | ⟨spec', hspec', hcred⟩ := hrest.only selector entry hentry
                    · rw [Table.lookup_insert_eq] at hold
                      split at hold
                      · rename_i heq
                        obtain rfl := Option.some.inj hold
                        exact Or.inr ⟨spec, List.mem_cons_self, heq ▸ hcredential⟩
                      · exact Or.inl hold
                    · exact Or.inr ⟨spec', List.mem_cons_of_mem _ hspec', hcred⟩

theorem forall₂_of_mapM {α β : Type} {f : α → Except String β} {l : List α} {m : List β}
    (h : l.mapM f = .ok m) :
  List.Forall₂ (fun a b => f a = .ok b) l m
  := by
  induction l generalizing m with
  | nil =>
      obtain rfl := Except.ok.inj h
      exact .nil
  | cons a l ih =>
      rw [List.mapM_cons] at h
      obtain ⟨b, hb, h⟩ := ok_of_bind h
      obtain ⟨m', hm', h⟩ := ok_of_bind h
      obtain rfl := Except.ok.inj h
      exact .cons hb (ih hm')

/-- A client is resolved to a credential under its id: its secret, or that of the seed. -/
def Resolves (seed : Option Seed) (client : CfgClient) (spec : ClientCredentialSpec) : Prop :=
  spec.clientId = client.id
    ∧ (client.secret = some spec.secret
      ∨ client.secret = none ∧ ∃ sd, seed = some sd ∧ spec.secret = sd.client client.id)

theorem resolves_of_clientSpec {text : String} {seed : Option Seed} {client : CfgClient}
    {spec : ClientCredentialSpec} (h : clientSpec text seed client = .ok spec) :
  Resolves seed client spec
  := by
  unfold clientSpec at h
  split at h
  · rename_i secret hsecret
    obtain rfl := Except.ok.inj h
    exact ⟨rfl, Or.inl hsecret⟩
  · rename_i sd hsecret
    obtain rfl := Except.ok.inj h
    exact ⟨rfl, Or.inr ⟨hsecret, sd, rfl, rfl⟩⟩
  · simp at h

theorem ids_of_resolves {seed : Option Seed} {l : List CfgClient}
    {specs : List ClientCredentialSpec} (h : List.Forall₂ (Resolves seed) l specs) :
  specs.map ClientCredentialSpec.clientId = l.map CfgClient.id
  := by
  induction h with
  | nil => rfl
  | cons hhead _ ih => rw [List.map_cons, List.map_cons, hhead.1, ih]

/-- The clients that are authorized by a list of the file. -/
def authorized (file cli : List CfgClient) : List CfgClient :=
  if file = [] then cli else file

theorem resolves_of_clientSpecs {file cli : List CfgClient} {seed : Option Seed}
    {specs : List ClientCredentialSpec} (h : clientSpecs file cli seed = .ok specs) :
  List.Forall₂ (Resolves seed) (authorized file cli) specs
  := by
  rw [clientSpecs] at h
  rw [authorized]
  split at h
  · rename_i hnil
    rw [if_pos hnil]
    exact (forall₂_of_mapM h).imp fun _ _ h => resolves_of_clientSpec h
  · rename_i hne
    rw [if_neg hne]
    exact (forall₂_of_mapM h).imp fun _ _ h => resolves_of_clientSpec h

/-! ### The state -/

/-- The settings of a server and its registry of clients.  `fileBacked` says whether there is
a config file, `fileServer` is the `server` table that was loaded from it, and `cancelled` has
the sessions whose watch has fired. -/
structure Topology where
  fileBacked : Bool
  serverId : String
  seed : Option Seed
  adminPsk : Option (Bytes 32)
  discoveryPsk : Option (Bytes 32)
  cliClients : List CfgClient
  fileServer : ServerTable
  fileClients : List CfgClient
  credentials : ClientCredentials
  listeners : Table RouteKey ListenerHandle
  routes : Table RouteKey Route
  clients : Table String ClientHandle
  cancelled : List ℕ

namespace Topology

/-- The list that an edit of the clients starts from. -/
def editable (s : Topology) : List CfgClient :=
  if s.fileClients = [] then s.cliClients else s.fileClients

/-- The credentials of a list of clients of the file. -/
def resolve (s : Topology) (file : List CfgClient) : Except String ClientCredentials := do
  let specs ← clientSpecs file s.cliClients s.seed
  clientTable specs s.adminPsk s.discoveryPsk

/-- The ids whose credential a new table takes away or changes. -/
def revoked (old new : ClientCredentials) : List String :=
  (byId old).keys.filter fun id => (byId new).lookup id ≠ (byId old).lookup id

/-- Fire the watches of the sessions of some clients. -/
def cancelAll (s : Topology) (ids : List String) : Topology :=
  { s with cancelled := ids.filterMap (fun id => (s.clients.lookup id).map ClientHandle.tx)
      ++ s.cancelled }

/-- Edit the list of the clients and apply the result. -/
def updateClients (s : Topology) (edit : List CfgClient → Except String (List CfgClient)) :
    Except String Topology := do
  let next ← edit s.editable
  let table ← s.resolve next
  .ok ({ s with fileClients := next, credentials := table }.cancelAll
    (revoked s.credentials table))

/-- A client with a secret, or with the credential that the seed derives. -/
def clientEntry (s : Topology) (clientId : String) (secret : Option (Bytes 32)) :
    Except String CfgClient :=
  if secret = none ∧ s.seed = none then
    .error ("server " ++ s.serverId ++ " has no seed to derive a credential for `" ++ clientId
      ++ "` from; give a secret")
  else .ok ⟨clientId, secret.map Secret.encode⟩

/-- The text of a listener key in errors. -/
def keyText (key : RouteKey) : String :=
  String.ofList (ipText key.1) ++ " " ++ protoStr key.2.1 ++ " " ++ toString key.2.2

def removeListener (s : Topology) (key : RouteKey) : Except String Topology :=
  match s.listeners.lookup key with
  | some _ => .ok { s with listeners := s.listeners.erase key }
  | none => .error ("no such listener " ++ keyText key)

/-- Add a client to the list. -/
def addTo (entry : CfgClient) (list : List CfgClient) : Except String (List CfgClient) :=
  if list.any fun c => c.id = entry.id then .error ("client `" ++ entry.id ++ "` already exists")
  else .ok (list ++ [entry])

/-- Change the secret of the first client with an id. -/
def setSecretIn (entry : CfgClient) : List CfgClient → Except String (List CfgClient)
  | [] => .error ("no client `" ++ entry.id ++ "`")
  | c :: list =>
      if c.id = entry.id then .ok ({ c with secret := entry.secret } :: list)
      else (setSecretIn entry list).map fun l => c :: l

/-- Remove the first client with an id. -/
def removeFrom (clientId : String) : List CfgClient → Except String (List CfgClient)
  | [] => .error ("no client `" ++ clientId ++ "`")
  | c :: list =>
      if c.id = clientId then .ok list else (removeFrom clientId list).map fun l => c :: l

/-- Apply a mutation that touches only the registry: everything but the addition of a
listener.  The flows that a change of a route cuts are not of the settings. -/
def applySyncMutation (s : Topology) : Msg → Except String Topology
  | .removeListener bindIp proto port =>
      let key := (bindIp, proto, port)
      if (s.listeners.lookup key).any ListenerHandle.cliLocked then
        .error ("listener " ++ keyText key ++ " is controlled by CLI args")
      else s.removeListener key
  | .setRoute bindIp proto port clientId =>
      .ok { s with
        routes := s.routes.insert (bindIp, proto, port) ⟨clientId, mutationSource s.fileBacked⟩ }
  | .clearRoute bindIp proto port =>
      .ok { s with routes := s.routes.erase (bindIp, proto, port) }
  | .addClient clientId secret => do
      let entry ← s.clientEntry clientId secret
      s.updateClients (addTo entry)
  | .setClientSecret clientId secret => do
      let entry ← s.clientEntry clientId secret
      s.updateClients (setSecretIn entry)
  | .removeClient clientId => s.updateClients (removeFrom clientId)
  | _ => .error "unexpected mutation message"

/-- Bind a public port and register its listener.  `bound` is what the bind of the socket
gives. -/
def bindListener (s : Topology) (key : RouteKey) (source : Source) (cliLocked : Bool)
    (bound : Except String Unit) : Except String Topology :=
  if (s.listeners.lookup key).isSome then .error ("listener " ++ keyText key ++ " already exists")
  else bound.map fun _ => { s with listeners := s.listeners.insert key ⟨source, cliLocked⟩ }

/-- Apply a mutation of an administrator. -/
def applyMutation (s : Topology) (bound : Except String Unit) : Msg → Except String Topology
  | .disconnectClient clientId =>
      match s.clients.lookup clientId with
      | some _ => .ok (s.cancelAll [clientId])
      | none => .error ("client `" ++ clientId ++ "` is not connected")
  | .addListener bindIp proto port =>
      s.bindListener (bindIp, proto, port) (mutationSource s.fileBacked) false bound
  | req => s.applySyncMutation req

/-- A list of clients that resolves: those it authorizes have ids of their own and secrets, and
the table has an entry for each of them and no other. -/
theorem resolve_eq_ok {s : Topology} {file : List CfgClient} {t : ClientCredentials}
    (h : s.resolve file = .ok t) :
  ∃ specs, List.Forall₂ (Resolves s.seed) (authorized file s.cliClients) specs
    ∧ Extends ∅ [] specs t
  := by
  obtain ⟨specs, hspecs, h⟩ := ok_of_bind h
  exact ⟨specs, resolves_of_clientSpecs hspecs, extends_of_extendTable h⟩

/-- What an edit of the clients does when it is applied. -/
theorem updateClients_eq_ok {s s' : Topology}
    {edit : List CfgClient → Except String (List CfgClient)} (h : s.updateClients edit = .ok s') :
  ∃ next table, edit s.editable = .ok next ∧ s.resolve next = .ok table
    ∧ s' = { s with fileClients := next, credentials := table }.cancelAll
        (revoked s.credentials table)
  := by
  obtain ⟨next, hnext, h⟩ := ok_of_bind h
  obtain ⟨table, htable, h⟩ := ok_of_bind h
  exact ⟨next, table, hnext, htable, (Except.ok.inj h).symm⟩

/-! ### What is saved -/

/-- The listeners of the file. -/
def fileListeners (s : Topology) : List CfgListener :=
  (s.listeners.toList.filter fun e => e.2.source = .file).map fun e =>
    ⟨e.1.1, e.1.2.1, e.1.2.2⟩

/-- The routes of the file. -/
def fileRoutes (s : Topology) : List CfgRoute :=
  (s.routes.toList.filter fun e => e.2.source = .file).map fun e =>
    ⟨e.1.1, e.1.2.1, e.1.2.2, e.2.clientId⟩

/-- The config that a save writes. -/
def fileConfig (s : Topology) : ServerConfig where
  server := s.fileServer
  clients := s.fileClients
  listeners := s.fileListeners
  routes := s.fileRoutes

def fileConfigText (s : Topology) : List Char :=
  s.fileConfig.serialize

end Topology

/-! ### Booting -/

/-- A listener that the server starts with. -/
structure ListenerSpec where
  key : RouteKey
  source : Source
  cliLocked : Bool
deriving DecidableEq

/-- The settings of the process, resolved against its file. -/
structure ServerArgs where
  bindIp : Ipv4Addr
  secret : String
  discovery : Option String
  adminSecret : Option String
  seed : Option Seed
  serverId : String
  cliClients : List CfgClient
  tcp : List UInt16
  udp : List UInt16
  fileBacked : Bool

/-- Lock the first listener with a key. -/
def lockListener (key : RouteKey) : List ListenerSpec → Option (List ListenerSpec)
  | [] => none
  | l :: listeners =>
      if l.key = key then some ({ l with cliLocked := true } :: listeners)
      else (lockListener key listeners).map fun rest => l :: rest

/-- Lock the listener of a port of the command line, or add one. -/
def addCliListener (bindIp : Ipv4Addr) (proto : Proto) (listeners : List ListenerSpec)
    (port : UInt16) : List ListenerSpec :=
  match lockListener (bindIp, proto, port) listeners with
  | some locked => locked
  | none => listeners ++ [⟨(bindIp, proto, port), .cli, true⟩]

/-- The listeners of the file, and those of the command line. -/
def bootListeners (args : ServerArgs) (file : ServerConfig) : List ListenerSpec :=
  let listeners := file.listeners.map fun l => ⟨l.key, .file, false⟩
  let listeners := args.tcp.foldl (addCliListener args.bindIp .tcp) listeners
  args.udp.foldl (addCliListener args.bindIp .udp) listeners

/-- Normalize an optional secret. -/
def normalizeSome : Option String → Except String (Option String)
  | none => .ok none
  | some value => (Secret.normalize value).map some

namespace Topology

/-- The registry of a server that boots, before its listeners are started. -/
def boot (args : ServerArgs) (file : ServerConfig) : Except String Topology := do
  let secret ← Secret.normalize args.secret
  let discovery ← normalizeSome args.discovery
  let discoveryPsk := discovery.map derivePsk
  let adminSecret ← normalizeSome args.adminSecret
  let adminPsk := adminSecret.map derivePsk
  let specs ← clientSpecs file.clients args.cliClients args.seed
  let clients ← clientTable specs adminPsk discoveryPsk
  if adminSecret = some secret then .error adminNotDistinct
  else if discovery ≠ none ∧ (discovery = some secret ∨ adminSecret = discovery) then
    .error discoveryNotDistinct
  else
    .ok {
      fileBacked := args.fileBacked
      serverId := args.serverId
      seed := args.seed
      adminPsk := adminPsk
      discoveryPsk := discoveryPsk
      cliClients := args.cliClients
      fileServer := file.server
      fileClients := file.clients
      credentials := clients
      listeners := ∅
      routes := file.routes.foldl (fun t r => t.insert r.key ⟨r.client, .file⟩) ∅
      clients := ∅
      cancelled := [] }

/-- Start the listeners.  One that cannot be bound is left out. -/
def start (s : Topology) (bound : RouteKey → Except String Unit) (specs : List ListenerSpec) :
    Topology :=
  specs.foldl (fun s l =>
    match s.bindListener l.key l.source l.cliLocked (bound l.key) with
    | .ok s' => s'
    | .error _ => s) s

end Topology

end ZeroNat

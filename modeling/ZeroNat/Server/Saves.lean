import ZeroNat.Lib.Run
import ZeroNat.Server.Clients

/-!
# What a server saves

The settings of the file are saved after every mutation.  The config file is read back as the
listeners, the routes and the clients of the file, with the `server` table that was loaded,
unless an id that a quoted string cannot hold has got in.  A mutation does not check its id
for control characters, and neither does the command line.
-/

namespace ZeroNat

open Config (CfgClient CfgListener CfgRoute ServerConfig ServerTable Printable ok_of_bind
  ok_of_toOption)

namespace Topology

/-- A mutation of an administrator, with what the bind of a socket gives. -/
structure Mutation where
  req : Msg
  bound : Except String Unit

/-- A mutation is applied. -/
def Accepted (s : Topology) (m : Mutation) (s' : Topology) : Prop :=
  s.applyMutation m.bound m.req = .ok s'

/-- The config file is read back as the settings of the file: the `server` table that was
loaded, and the listeners, the routes and the clients that belong to the file. -/
def LoadsBack (s : Topology) (server : ServerTable) : Prop :=
  ∃ cfg, ServerConfig.parse s.fileConfigText = .ok cfg
    ∧ cfg.server = server
    ∧ cfg.clients.Perm s.fileClients
    ∧ cfg.listeners.Nodup
    ∧ (∀ l, l ∈ cfg.listeners ↔ ∃ h, s.listeners.lookup l.key = some h ∧ h.source = .file)
    ∧ cfg.routes.Nodup
    ∧ ∀ r, r ∈ cfg.routes ↔ s.routes.lookup r.key = some ⟨r.client, .file⟩

/-! ### The settings of the file can be written -/

/-- The strings of the settings that are saved have no control characters, and the clients
have ids.  The clients of the command line have ids of their own when they are authorized. -/
structure Savable (s : Topology) : Prop where
  cli : s.fileClients = [] → (s.cliClients.map CfgClient.id).Nodup
  server : s.fileServer.Printable
  clients : ∀ c ∈ s.fileClients, ServerConfig.ClientSound c
  routes : ∀ key r, s.routes.lookup key = some r → r.source = .file → Printable r.clientId

theorem mem_fileListeners {s : Topology} {l : CfgListener} :
  l ∈ s.fileListeners ↔ ∃ h, s.listeners.lookup l.key = some h ∧ h.source = .file
  := by
  simp only [fileListeners, List.mem_map, List.mem_filter, decide_eq_true_eq, Prod.exists,
    Table.mem_toList]
  constructor
  · rintro ⟨ip, proto, port, h, ⟨hlookup, hsource⟩, rfl⟩
    exact ⟨h, hlookup, hsource⟩
  · rintro ⟨h, hlookup, hsource⟩
    exact ⟨l.bindIp, l.proto, l.port, h, ⟨hlookup, hsource⟩, rfl⟩

theorem mem_fileRoutes {s : Topology} {r : CfgRoute} :
  r ∈ s.fileRoutes ↔ s.routes.lookup r.key = some ⟨r.client, .file⟩
  := by
  simp only [fileRoutes, List.mem_map, List.mem_filter, decide_eq_true_eq, Prod.exists,
    Table.mem_toList]
  constructor
  · rintro ⟨ip, proto, port, ⟨clientId, source⟩, ⟨hlookup, rfl⟩, rfl⟩
    exact hlookup
  · intro hlookup
    exact ⟨r.bindIp, r.proto, r.port, ⟨r.client, .file⟩, ⟨hlookup, rfl⟩, rfl⟩

/-- No two entries of a table have one key. -/
theorem nodup_keys_toList {κ ν : Type} (t : Table κ ν) :
  (t.toList.map Prod.fst).Nodup
  := by
  rw [Table.toList, List.map_map]
  exact t.nodupKeys

theorem Savable.writable {s : Topology} (h : s.Savable) :
  s.fileConfig.Writable where
  server := h.server
  clients := h.clients
  listeners := by
    have hkeys : s.fileListeners.map CfgListener.key
        = (s.listeners.toList.filter fun e => e.2.source = .file).map Prod.fst := by
      rw [fileListeners, List.map_map]
      rfl
    rw [fileConfig, hkeys]
    exact (List.filter_sublist.map Prod.fst).nodup (nodup_keys_toList s.listeners)
  routes := by
    have hkeys : s.fileRoutes.map CfgRoute.key
        = (s.routes.toList.filter fun e => e.2.source = .file).map Prod.fst := by
      rw [fileRoutes, List.map_map]
      rfl
    rw [fileConfig, hkeys]
    exact (List.filter_sublist.map Prod.fst).nodup (nodup_keys_toList s.routes)
  targets := by
    intro r hr
    exact h.routes r.key _ (mem_fileRoutes.mp hr) rfl

theorem Savable.loadsBack {s : Topology} (h : s.Savable) :
  s.LoadsBack s.fileServer
  := by
  have hw := h.writable
  refine ⟨s.fileConfig.sorted, ServerConfig.parse_serialize hw, rfl, ?_, ?_, ?_, ?_, ?_⟩
  · exact Config.ordered_perm _ _
  · exact List.Nodup.of_map _ hw.sorted.listeners
  · intro l
    rw [← mem_fileListeners]
    exact (Config.ordered_perm _ _).mem_iff
  · exact List.Nodup.of_map _ hw.sorted.routes
  · intro r
    rw [← mem_fileRoutes]
    exact (Config.ordered_perm _ _).mem_iff

/-! ### Mutations -/

/-- The ids of the clients of the command line that an edit carries into the list of the
file, because the list is empty. -/
def carried (s : Topology) : List String :=
  if s.fileClients = [] then s.cliClients.map CfgClient.id else []

/-- The ids that a mutation brings into the settings of the file. -/
def brought (s : Topology) : Msg → List String
  | .setRoute _ _ _ clientId => if s.fileBacked then [clientId] else []
  | .addClient clientId _ => clientId :: s.carried
  | .setClientSecret _ _ => s.carried
  | .removeClient clientId => s.carried.filter (· ≠ clientId)
  | _ => []

/-- A mutation brings no id with a control character into the settings of the file. -/
def BringsPrintable (s : Topology) (m : Mutation) : Prop :=
  ∀ id ∈ s.brought m.req, Printable id

instance (s : Topology) (m : Mutation) : Decidable (s.BringsPrintable m) :=
  inferInstanceAs (Decidable (∀ id ∈ s.brought m.req, _))

theorem exists_of_forall₂ {α β : Type} {R : α → β → Prop} {l : List α} {m : List β}
    (h : List.Forall₂ R l m) {a : α} (ha : a ∈ l) :
  ∃ b ∈ m, R a b
  := by
  induction h with
  | nil => simp at ha
  | cons hab _ ih =>
      obtain rfl | ha := List.mem_cons.mp ha
      · exact ⟨_, List.mem_cons_self, hab⟩
      · obtain ⟨b, hb, hr⟩ := ih ha
        exact ⟨b, List.mem_cons_of_mem _ hb, hr⟩

/-- The clients that a list which resolves authorizes have ids, and secrets that can be
written. -/
theorem authorized_sound {s : Topology} {file : List CfgClient} {t : ClientCredentials}
    (h : s.resolve file = .ok t) {c : CfgClient} (hc : c ∈ authorized file s.cliClients) :
  c.id ≠ "" ∧ ∀ secret ∈ c.secret, Printable secret
  := by
  obtain ⟨specs, hspecs, hextends⟩ := resolve_eq_ok h
  obtain ⟨spec, hspec, hid, hsecret⟩ := exists_of_forall₂ hspecs hc
  refine ⟨hid ▸ (hextends.named spec hspec).1, ?_⟩
  intro secret hmem
  obtain ⟨selector, entry, ⟨normal, hnormal, -⟩, -⟩ := hextends.holds spec hspec
  obtain ⟨bytes, hdecode, -⟩ := Secret.decode_of_normalize hnormal
  obtain hsome | ⟨hnone, -⟩ := hsecret
  · rw [hsome, Option.mem_some_iff] at hmem
    rw [← hmem]
    exact Secret.printable_of_decode hdecode
  · simp [hnone] at hmem

/-- The clients that a list which resolves authorizes have ids of their own. -/
theorem nodup_authorized {s : Topology} {file : List CfgClient} {t : ClientCredentials}
    (h : s.resolve file = .ok t) :
  ((authorized file s.cliClients).map CfgClient.id).Nodup
  := by
  obtain ⟨specs, hspecs, hextends⟩ := resolve_eq_ok h
  rw [← ids_of_resolves hspecs]
  exact hextends.distinct

/-- The ids of the list that an edit starts from, when it takes none from the command line
that cannot be written. -/
theorem printable_editable {s : Topology} (hs : s.Savable) {c : CfgClient}
    (hc : c ∈ s.editable) :
  Printable c.id ∨ c.id ∈ s.carried
  := by
  rw [editable] at hc
  rw [carried]
  split at hc
  · rename_i hnil
    rw [if_pos hnil]
    exact Or.inr (List.mem_map_of_mem hc)
  · exact Or.inl (hs.clients c hc).id

/-- An edit of the clients whose ids can be written. -/
theorem Savable.updateClients {s s' : Topology} (hs : s.Savable)
    {edit : List CfgClient → Except String (List CfgClient)} (h : s.updateClients edit = .ok s')
    (hids : ∀ next, edit s.editable = .ok next → ∀ c ∈ next, Printable c.id) :
  s'.Savable
  := by
  obtain ⟨next, table, hedit, hresolve, rfl⟩ := updateClients_eq_ok h
  refine ⟨?_, hs.server, ?_, hs.routes⟩
  · intro hnil
    change next = [] at hnil
    have hnodup := nodup_authorized hresolve
    rwa [authorized, if_pos hnil] at hnodup
  intro c hc
  change c ∈ next at hc
  have hmem : c ∈ authorized next s.cliClients := by
    rw [authorized, if_neg (List.ne_nil_of_mem hc)]
    exact hc
  obtain ⟨hnamed, hsecret⟩ := authorized_sound hresolve hmem
  exact ⟨hnamed, hids next hedit c hc, hsecret⟩

theorem mem_of_addTo {entry : CfgClient} {l next : List CfgClient} (h : addTo entry l = .ok next)
    {c : CfgClient} (hc : c ∈ next) :
  c ∈ l ∨ c = entry
  := by
  rw [addTo] at h
  split at h
  · simp at h
  · obtain rfl := Except.ok.inj h
    simpa using hc

theorem mem_of_setSecretIn {entry : CfgClient} {l next : List CfgClient}
    (h : setSecretIn entry l = .ok next) {c : CfgClient} (hc : c ∈ next) :
  ∃ c' ∈ l, c'.id = c.id
  := by
  induction l generalizing next with
  | nil => simp [setSecretIn] at h
  | cons d l ih =>
      rw [setSecretIn] at h
      split at h
      · obtain rfl := Except.ok.inj h
        obtain rfl | hc := List.mem_cons.mp hc
        · exact ⟨d, List.mem_cons_self, rfl⟩
        · exact ⟨c, List.mem_cons_of_mem _ hc, rfl⟩
      · obtain ⟨rest, hrest, rfl⟩ := Config.ok_of_map h
        obtain rfl | hc := List.mem_cons.mp hc
        · exact ⟨c, List.mem_cons_self, rfl⟩
        · obtain ⟨c', hc', hid⟩ := ih hrest hc
          exact ⟨c', List.mem_cons_of_mem _ hc', hid⟩

theorem mem_of_removeFrom {clientId : String} {l next : List CfgClient}
    (h : removeFrom clientId l = .ok next) {c : CfgClient} (hc : c ∈ next) :
  c ∈ l ∧ ((l.map CfgClient.id).Nodup → c.id ≠ clientId)
  := by
  induction l generalizing next with
  | nil => simp [removeFrom] at h
  | cons d l ih =>
      rw [removeFrom] at h
      split at h
      · rename_i hd
        obtain rfl := Except.ok.inj h
        refine ⟨List.mem_cons_of_mem _ hc, ?_⟩
        rintro hnodup rfl
        exact (List.nodup_cons.mp hnodup).1 (hd ▸ List.mem_map_of_mem hc)
      · rename_i hd
        obtain ⟨rest, hrest, rfl⟩ := Config.ok_of_map h
        obtain rfl | hc := List.mem_cons.mp hc
        · exact ⟨List.mem_cons_self, fun _ => hd⟩
        · obtain ⟨hmem, hne⟩ := ih hrest hc
          exact ⟨List.mem_cons_of_mem _ hmem, fun hnodup => hne (List.nodup_cons.mp hnodup).2⟩

theorem Savable.removeListener {s s' : Topology} (hs : s.Savable) {key : RouteKey}
    (h : s.removeListener key = .ok s') :
  s'.Savable
  := by
  rw [Topology.removeListener] at h
  split at h
  · obtain rfl := Except.ok.inj h
    exact ⟨hs.cli, hs.server, hs.clients, hs.routes⟩
  · simp at h

theorem Savable.bindListener {s s' : Topology} (hs : s.Savable) {key : RouteKey}
    {source : Source} {cliLocked : Bool} {bound : Except String Unit}
    (h : s.bindListener key source cliLocked bound = .ok s') :
  s'.Savable
  := by
  rw [Topology.bindListener] at h
  split at h
  · simp at h
  · obtain ⟨-, -, rfl⟩ := Config.ok_of_map h
    exact ⟨hs.cli, hs.server, hs.clients, hs.routes⟩

theorem Savable.setRoute {s : Topology} (hs : s.Savable) (key : RouteKey) {clientId : String}
    (h : s.fileBacked = true → Printable clientId) :
  { s with routes := s.routes.insert key ⟨clientId, mutationSource s.fileBacked⟩ }.Savable
  := by
  refine ⟨hs.cli, hs.server, hs.clients, ?_⟩
  intro key' r hr hsource
  dsimp only at hr
  rw [Table.lookup_insert_eq] at hr
  split at hr
  · obtain rfl := Option.some.inj hr
    refine h ?_
    by_contra hfile
    simp [mutationSource, hfile] at hsource
  · exact hs.routes key' r hr hsource

theorem Savable.clearRoute {s : Topology} (hs : s.Savable) (key : RouteKey) :
  { s with routes := s.routes.erase key }.Savable
  := by
  refine ⟨hs.cli, hs.server, hs.clients, ?_⟩
  intro key' r hr hsource
  dsimp only at hr
  rw [Table.lookup_erase_eq] at hr
  split at hr
  · simp at hr
  · exact hs.routes key' r hr hsource

theorem id_of_clientEntry {s : Topology} {clientId : String} {secret : Option (Bytes 32)}
    {entry : CfgClient} (h : s.clientEntry clientId secret = .ok entry) :
  entry = ⟨clientId, secret.map Secret.encode⟩
  := by
  rw [clientEntry] at h
  split at h
  · simp at h
  · exact (Except.ok.inj h).symm

/-- A mutation that brings no id with a control character keeps the settings so that they can
be written. -/
theorem Savable.applyMutation {s s' : Topology} (hs : s.Savable) {m : Mutation}
    (hm : s.BringsPrintable m) (h : s.Accepted m s') :
  s'.Savable
  := by
  obtain ⟨req, bound⟩ := m
  rw [BringsPrintable] at hm
  rw [Accepted] at h
  cases req with
  | disconnectClient clientId =>
      rw [Topology.applyMutation] at h
      split at h
      · obtain rfl := Except.ok.inj h
        exact ⟨hs.cli, hs.server, hs.clients, hs.routes⟩
      · simp at h
  | addListener bindIp proto port => exact hs.bindListener h
  | removeListener bindIp proto port =>
      simp only [Topology.applyMutation, applySyncMutation] at h
      split at h
      · simp at h
      · exact hs.removeListener h
  | setRoute bindIp proto port clientId =>
      obtain rfl := Except.ok.inj h
      refine hs.setRoute _ ?_
      intro hfile
      refine hm clientId ?_
      rw [brought, if_pos hfile]
      exact List.mem_singleton_self clientId
  | clearRoute bindIp proto port =>
      obtain rfl := Except.ok.inj h
      exact hs.clearRoute _
  | addClient clientId secret =>
      obtain ⟨entry, hentry, h⟩ := ok_of_bind h
      obtain rfl := id_of_clientEntry hentry
      refine hs.updateClients h ?_
      intro next hnext c hc
      obtain hc | rfl := mem_of_addTo hnext hc
      · obtain hprintable | hcarried := printable_editable hs hc
        · exact hprintable
        · exact hm c.id (List.mem_cons_of_mem _ hcarried)
      · exact hm clientId List.mem_cons_self
  | setClientSecret clientId secret =>
      obtain ⟨entry, hentry, h⟩ := ok_of_bind h
      refine hs.updateClients h ?_
      intro next hnext c hc
      obtain ⟨c', hc', hid⟩ := mem_of_setSecretIn hnext hc
      rw [← hid]
      obtain hprintable | hcarried := printable_editable hs hc'
      · exact hprintable
      · exact hm c'.id hcarried
  | removeClient clientId =>
      refine hs.updateClients h ?_
      intro next hnext c hc
      obtain ⟨hmem, hne⟩ := mem_of_removeFrom hnext hc
      obtain hprintable | hcarried := printable_editable hs hmem
      · exact hprintable
      · refine hm c.id (List.mem_filter.mpr ⟨hcarried, ?_⟩)
        have hnil : s.fileClients = [] := by
          by_contra hne
          rw [carried, if_neg hne] at hcarried
          simp at hcarried
        rw [editable, if_pos hnil] at hne
        simpa using hne (hs.cli hnil)
  | _ => simp [Topology.applyMutation, applySyncMutation] at h

/-! ### Every save is read back -/

theorem lookup_bootRoutes {routes : List CfgRoute} {t : Table RouteKey Route} {key : RouteKey}
    {r : Route} (h : (routes.foldl (fun t r => t.insert r.key ⟨r.client, .file⟩) t).lookup key
      = some r) :
  t.lookup key = some r ∨ ∃ r' ∈ routes, r.clientId = r'.client
  := by
  induction routes generalizing t with
  | nil => exact Or.inl h
  | cons r' routes ih =>
      rw [List.foldl_cons] at h
      obtain hold | ⟨r'', hr'', heq⟩ := ih h
      · rw [Table.lookup_insert_eq] at hold
        split at hold
        · obtain rfl := Option.some.inj hold
          exact Or.inr ⟨r', List.mem_cons_self, rfl⟩
        · exact Or.inl hold
      · exact Or.inr ⟨r'', List.mem_cons_of_mem _ hr'', heq⟩

/-- A server that boots from a config that was read can save it. -/
theorem savable_boot {args : ServerArgs} {file : ServerConfig} {s : Topology}
    (hfile : file.Writable) (h : boot args file = .ok s) :
  s.Savable ∧ s.fileServer = file.server
  := by
  obtain ⟨secret, -, h⟩ := ok_of_bind h
  obtain ⟨discovery, -, h⟩ := ok_of_bind h
  obtain ⟨adminSecret, -, h⟩ := ok_of_bind h
  obtain ⟨specs, hspecs, h⟩ := ok_of_bind h
  obtain ⟨table, htable, h⟩ := ok_of_bind h
  split at h
  · simp at h
  · split at h
    · simp at h
    · obtain rfl := Except.ok.inj h
      refine ⟨⟨?_, hfile.server, hfile.clients, ?_⟩, rfl⟩
      · intro hnil
        have hresolves := resolves_of_clientSpecs hspecs
        rw [authorized, if_pos hnil] at hresolves
        rw [← ids_of_resolves hresolves]
        exact (extends_of_extendTable htable).distinct
      · intro key r hr _
        obtain hold | ⟨r', hr', heq⟩ := lookup_bootRoutes hr
        · simp at hold
        · rw [heq]
          exact hfile.targets r' hr'

theorem fileServer_bindListener {s s' : Topology} {key : RouteKey} {source : Source}
    {cliLocked : Bool} {bound : Except String Unit}
    (h : s.bindListener key source cliLocked bound = .ok s') :
  s'.fileServer = s.fileServer
  := by
  rw [bindListener] at h
  split at h
  · simp at h
  · obtain ⟨-, -, rfl⟩ := Config.ok_of_map h
    rfl

theorem Savable.start {s : Topology} (hs : s.Savable) (bound : RouteKey → Except String Unit)
    (specs : List ListenerSpec) :
  (s.start bound specs).Savable ∧ (s.start bound specs).fileServer = s.fileServer
  := by
  induction specs generalizing s with
  | nil => exact ⟨hs, rfl⟩
  | cons l specs ih =>
      rw [Topology.start, List.foldl_cons]
      cases h : s.bindListener l.key l.source l.cliLocked (bound l.key) with
      | error e => exact ih hs
      | ok s' =>
          obtain ⟨hsavable, hserver⟩ := ih (hs.bindListener h)
          exact ⟨hsavable, hserver.trans (fileServer_bindListener h)⟩

theorem fileServer_applyMutation {s s' : Topology} {m : Mutation} (h : s.Accepted m s') :
  s'.fileServer = s.fileServer
  := by
  have hupdate : ∀ {edit}, s.updateClients edit = .ok s' → s'.fileServer = s.fileServer := by
    intro edit hedit
    obtain ⟨next, table, -, -, rfl⟩ := updateClients_eq_ok hedit
    rfl
  obtain ⟨req, bound⟩ := m
  rw [Accepted] at h
  cases req with
  | disconnectClient clientId =>
      rw [applyMutation] at h
      split at h
      · obtain rfl := Except.ok.inj h
        rfl
      · simp at h
  | addListener bindIp proto port => exact fileServer_bindListener h
  | removeListener bindIp proto port =>
      simp only [applyMutation, applySyncMutation] at h
      split at h
      · simp at h
      · rw [removeListener] at h
        split at h
        · obtain rfl := Except.ok.inj h
          rfl
        · simp at h
  | setRoute bindIp proto port clientId =>
      obtain rfl := Except.ok.inj h
      rfl
  | clearRoute bindIp proto port =>
      obtain rfl := Except.ok.inj h
      rfl
  | addClient clientId secret =>
      obtain ⟨entry, -, h⟩ := ok_of_bind h
      exact hupdate h
  | setClientSecret clientId secret =>
      obtain ⟨entry, -, h⟩ := ok_of_bind h
      exact hupdate h
  | removeClient clientId => exact hupdate h
  | _ => simp [applyMutation, applySyncMutation] at h

/-- A server that boots from a config file, and takes mutations that bring no id with a control
character into the settings of the file, has at any time saved a file that is read back. -/
theorem saved_loads_back {text : List Char} {file : ServerConfig} {args : ServerArgs}
    {bound : RouteKey → Except String Unit} {s₀ s : Topology} {ms : List Mutation}
    (hfile : ServerConfig.parse text = .ok file) (hboot : boot args file = .ok s₀)
    (hrun : Run (Meeting BringsPrintable Accepted) (s₀.start bound (bootListeners args file))
      ms s) :
  s.LoadsBack file.server
  := by
  obtain ⟨hboot, hserver⟩ := savable_boot (ServerConfig.writable_of_parse hfile) hboot
  obtain ⟨hstart, hserver'⟩ := hboot.start bound (bootListeners args file)
  have hend : s.Savable ∧ s.fileServer = file.server := by
    refine hrun.invariant (I := fun s => s.Savable ∧ s.fileServer = file.server)
      ⟨hstart, hserver'.trans hserver⟩ ?_
    rintro s m s' ⟨hs, hfile⟩ ⟨hm, hstep⟩
    exact ⟨hs.applyMutation hm hstep, (fileServer_applyMutation hstep).trans hfile⟩
  rw [← hend.2]
  exact hend.1.loadsBack

/-- A server with a config file and nothing else. -/
def plainArgs : ServerArgs where
  bindIp := ⟨0⟩
  secret := "00112233445566778899aabbccddeeff00112233445566778899aabbccddeeff"
  discovery := none
  adminSecret := none
  seed := none
  serverId := "0"
  cliClients := []
  tcp := []
  udp := []
  fileBacked := true

/-- A file with the id of the server. -/
def plainFile : List Char :=
  "[server]\nid = \"hub\"\n".toList

/-- A listener, a route and a client are saved and read back. -/
theorem saved_loads_back_laptop :
  ∃ file s₀ s, ServerConfig.parse plainFile = .ok file ∧ boot plainArgs file = .ok s₀
    ∧ Run (Meeting BringsPrintable Accepted)
      (s₀.start (fun _ => .ok ()) (bootListeners plainArgs file))
      [⟨.addListener ⟨0⟩ .tcp 80, .ok ()⟩, ⟨.setRoute ⟨0⟩ .tcp 80 "laptop", .ok ()⟩,
        ⟨.addClient "laptop" (some (Bytes.zero 32)), .ok ()⟩] s
    ∧ s.fileClients.length = 1 ∧ s.fileListeners.length = 1 ∧ s.LoadsBack file.server
  := by
  have hview : ∃ file ∈ (ServerConfig.parse plainFile).toOption,
      ∃ s₀ ∈ (boot plainArgs file).toOption,
      ∃ s ∈ execute BringsPrintable (fun s m => (s.applyMutation m.bound m.req).toOption)
        (s₀.start (fun _ => .ok ()) (bootListeners plainArgs file))
        [⟨.addListener ⟨0⟩ .tcp 80, .ok ()⟩, ⟨.setRoute ⟨0⟩ .tcp 80 "laptop", .ok ()⟩,
          ⟨.addClient "laptop" (some (Bytes.zero 32)), .ok ()⟩],
      s.fileClients.length = 1 ∧ s.fileListeners.length = 1 := by
    decide +kernel
  obtain ⟨file, hfile, s₀, hboot, s, hs, hclients, hlisteners⟩ := hview
  have hfile' := ok_of_toOption hfile
  have hboot' := ok_of_toOption hboot
  have hrun : Run (Meeting BringsPrintable Accepted) _ _ s :=
    (run_of_execute hs).mono fun _ _ _ h => ⟨h.1, ok_of_toOption h.2⟩
  exact ⟨file, s₀, s, hfile', hboot', hrun, hclients, hlisteners,
    saved_loads_back hfile' hboot' hrun⟩

/-- A route to a client with a line feed in its id is accepted, and the file that is saved
then cannot be read. -/
theorem saved_file_malformed :
  ∃ file s₀ s, ServerConfig.parse plainFile = .ok file ∧ boot plainArgs file = .ok s₀
    ∧ Run Accepted (s₀.start (fun _ => .ok ()) (bootListeners plainArgs file))
      [⟨.setRoute ⟨0⟩ .tcp 80 "\n", .ok ()⟩] s
    ∧ ¬ s.LoadsBack file.server
  := by
  have hview : ∃ file ∈ (ServerConfig.parse plainFile).toOption,
      ∃ s₀ ∈ (boot plainArgs file).toOption,
      ∃ s ∈ execute (fun _ _ => True)
        (fun s (m : Mutation) => (s.applyMutation m.bound m.req).toOption)
        (s₀.start (fun _ => .ok ()) (bootListeners plainArgs file))
        [⟨.setRoute ⟨0⟩ .tcp 80 "\n", .ok ()⟩],
      (ServerConfig.parse s.fileConfigText).toOption = none := by
    decide +kernel
  obtain ⟨file, hfile, s₀, hboot, s, hs, hnone⟩ := hview
  have hrun : Run Accepted _ _ s :=
    (run_of_execute hs).mono fun _ _ _ h => ok_of_toOption h.2
  refine ⟨file, s₀, s, ok_of_toOption hfile, ok_of_toOption hboot, hrun, ?_⟩
  rintro ⟨cfg, hcfg, -⟩
  simp [hcfg, Except.toOption] at hnone

end Topology

end ZeroNat

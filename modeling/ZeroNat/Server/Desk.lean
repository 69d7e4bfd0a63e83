import ZeroNat.Server.Reorder

/-!
# Mutations, saves and reloads

The sessions of several administrators, the saves they wait for, and the watch of the config
file, as they interleave.  A mutation is applied in memory first and saved afterwards, one save
at a time.  A save takes the listeners, the routes and the clients one after the other, and
other mutations come in between.  When a save has replaced the file, the watch reads the file
again and puts its clients in the place of those in memory.
-/

namespace ZeroNat

open Config (CfgClient CfgListener CfgRoute ServerConfig ServerTable ok_of_bind)

/-! ### What is never changed -/

namespace Topology

/-- The settings of the process, which no mutation changes. -/
def fixed (s : Topology) : Topology :=
  { s with
    fileClients := []
    credentials := ∅
    listeners := ∅
    routes := ∅
    clients := ∅
    cancelled := [] }

theorem resolve_of_fixed {s s' : Topology} (h : s'.fixed = s.fixed) (file : List CfgClient) :
  s'.resolve file = s.resolve file
  := by
  have hresolve : ∀ t : Topology, t.resolve file = t.fixed.resolve file := fun _ => rfl
  rw [hresolve, h, ← hresolve]

theorem fileServer_of_fixed {s s' : Topology} (h : s'.fixed = s.fixed) :
  s'.fileServer = s.fileServer
  := (congrArg Topology.fileServer h :)

theorem fileBacked_of_fixed {s s' : Topology} (h : s'.fixed = s.fixed) :
  s'.fileBacked = s.fileBacked
  := (congrArg Topology.fileBacked h :)

theorem cliClients_of_fixed {s s' : Topology} (h : s'.fixed = s.fixed) :
  s'.cliClients = s.cliClients
  := (congrArg Topology.cliClients h :)

theorem fixed_updateClients {s s' : Topology}
    {edit : List CfgClient → Except String (List CfgClient)} (h : s.updateClients edit = .ok s') :
  s'.fixed = s.fixed
  := by
  obtain ⟨next, table, -, -, rfl⟩ := updateClients_eq_ok h
  rfl

theorem bindListener_eq_ok {s s' : Topology} {key : RouteKey} {source : Source}
    {cliLocked : Bool} {bound : Except String Unit}
    (h : s.bindListener key source cliLocked bound = .ok s') :
  s' = { s with listeners := s.listeners.insert key ⟨source, cliLocked⟩ }
  := by
  rw [bindListener] at h
  split at h
  · exact absurd h (by simp)
  · obtain ⟨-, -, rfl⟩ := Config.ok_of_map h
    rfl

/-- A server boots with the clients of its file. -/
theorem backed_boot {args : ServerArgs} {file : ServerConfig} {s : Topology}
    (h : boot args file = .ok s) :
  s.fileBacked = args.fileBacked ∧ s.fileClients = file.clients
  := by
  obtain ⟨secret, -, h⟩ := ok_of_bind h
  obtain ⟨discovery, -, h⟩ := ok_of_bind h
  obtain ⟨adminSecret, -, h⟩ := ok_of_bind h
  obtain ⟨specs, -, h⟩ := ok_of_bind h
  obtain ⟨table, -, h⟩ := ok_of_bind h
  split at h
  · exact absurd h (by simp)
  · split at h
    · exact absurd h (by simp)
    · obtain rfl := Except.ok.inj h
      exact ⟨rfl, rfl⟩

/-- The start of the listeners leaves the clients. -/
theorem started {s : Topology} (bound : RouteKey → Except String Unit)
    (specs : List ListenerSpec) (hs : s.Resolved) :
  (s.start bound specs).Resolved ∧ (s.start bound specs).fileBacked = s.fileBacked
    ∧ (s.start bound specs).fileClients = s.fileClients
  := by
  induction specs generalizing s with
  | nil => exact ⟨hs, rfl, rfl⟩
  | cons l specs ih =>
      rw [Topology.start, List.foldl_cons]
      cases h : s.bindListener l.key l.source l.cliLocked (bound l.key) with
      | error e => exact ih hs
      | ok s' =>
          obtain ⟨hresolved, hbacked, hclients⟩ := ih (hs.bindListener h)
          obtain rfl := bindListener_eq_ok h
          exact ⟨hresolved, hbacked, hclients⟩

end Topology

/-! ### What the mutations ask for -/

/-- The settings that an administrator can change. -/
@[ext]
structure Settings where
  listeners : RouteKey → Option ListenerHandle
  routes : RouteKey → Option Route
  clients : Set CfgClient

namespace Settings

open ZeroNat.Topology (ClientEdit)

/-- The clients that an edit starts from: those of the command line while there are none of the
file. -/
noncomputable def standing (cli : List CfgClient) (clients : Set CfgClient) : Set CfgClient :=
  open Classical in if clients = ∅ then {c | c ∈ cli} else clients

/-- The clients after an edit: the others as they were, and the entry that is asked for. -/
noncomputable def edited (cli : List CfgClient) (e : ClientEdit) (clients : Set CfgClient) :
    Set CfgClient :=
  {c | (c ∈ standing cli clients ∧ c.id ≠ e.target) ∨ e.entry = some c}

/-- What a mutation asks for.  It decides on one listener, one route or one client, and leaves
everything else. -/
noncomputable def after (fileBacked : Bool) (cli : List CfgClient) (w : Settings) :
    Msg → Settings
  | .addListener bindIp proto port =>
      { w with
        listeners := Function.update w.listeners (bindIp, proto, port)
          (some ⟨mutationSource fileBacked, false⟩) }
  | .removeListener bindIp proto port =>
      { w with listeners := Function.update w.listeners (bindIp, proto, port) none }
  | .setRoute bindIp proto port clientId =>
      { w with
        routes := Function.update w.routes (bindIp, proto, port)
          (some ⟨clientId, mutationSource fileBacked⟩) }
  | .clearRoute bindIp proto port =>
      { w with routes := Function.update w.routes (bindIp, proto, port) none }
  | .addClient clientId secret =>
      { w with clients := edited cli (.add clientId secret) w.clients }
  | .setClientSecret clientId secret =>
      { w with clients := edited cli (.setSecret clientId secret) w.clients }
  | .removeClient clientId =>
      { w with clients := edited cli (.remove clientId) w.clients }
  | _ => w

/-- What a list of mutations asks for, each in its turn. -/
noncomputable def afterAll (fileBacked : Bool) (cli : List CfgClient) (w : Settings)
    (log : List Topology.Mutation) : Settings :=
  log.foldl (fun w m => w.after fileBacked cli m.req) w

theorem afterAll_snoc (fileBacked : Bool) (cli : List CfgClient) (w : Settings)
    (log : List Topology.Mutation) (m : Topology.Mutation) :
  w.afterAll fileBacked cli (log ++ [m])
    = (w.afterAll fileBacked cli log).after fileBacked cli m.req
  := by
  rw [afterAll, List.foldl_append, afterAll]
  rfl

end Settings

namespace Topology

/-- The settings that a server has in memory. -/
def settings (s : Topology) : Settings where
  listeners := s.listeners.lookup
  routes := s.routes.lookup
  clients := {c | c ∈ s.fileClients}

theorem lookup_insert (key : RouteKey) {ν : Type} (t : Table RouteKey ν) (v : ν) :
  (t.insert key v).lookup = Function.update t.lookup key (some v)
  := by
  funext key'
  rw [Table.lookup_insert_eq, Function.update_apply]

theorem lookup_erase (key : RouteKey) {ν : Type} (t : Table RouteKey ν) :
  (t.erase key).lookup = Function.update t.lookup key none
  := by
  funext key'
  rw [Table.lookup_erase_eq, Function.update_apply]

theorem standing_fileClients (s : Topology) :
  Settings.standing s.cliClients s.settings.clients = {c | c ∈ s.editable}
  := by
  rw [Settings.standing, settings, editable]
  by_cases hnil : s.fileClients = []
  · rw [if_pos hnil, if_pos]
    rw [hnil]
    simp
  · rw [if_neg hnil, if_neg]
    intro hempty
    obtain ⟨c, list, hlist⟩ := List.exists_cons_of_ne_nil hnil
    have hc : c ∈ s.fileClients := by
      rw [hlist]
      exact List.mem_cons_self
    exact Set.eq_empty_iff_forall_notMem.mp hempty c hc

/-- An edit of the clients that is made gives the clients that it asks for. -/
theorem clients_updateClients {s s' : Topology} (hs : s.Resolved) {e : ClientEdit}
    (h : s.updateClients e.on = .ok s') :
  s'.settings = { s.settings with
    clients := Settings.edited s.cliClients e s.settings.clients }
  := by
  obtain ⟨next, table, hnext, -, rfl⟩ := updateClients_eq_ok h
  have hclients : ({c | c ∈ next} : Set CfgClient)
      = Settings.edited s.cliClients e s.settings.clients := by
    ext c
    rw [Settings.edited, standing_fileClients]
    exact mem_of_on hnext hs.tableOf.nodup c
  rw [← hclients]
  rfl

/-- A mutation that is accepted gives what it asks for. -/
theorem settings_accepted {s s' : Topology} (hs : s.Resolved) {m : Mutation}
    (h : s.Accepted m s') :
  s'.settings = s.settings.after s.fileBacked s.cliClients m.req ∧ s'.fixed = s.fixed
  := by
  obtain ⟨req, bound⟩ := m
  rw [Accepted] at h
  cases req with
  | disconnectClient clientId =>
      rw [applyMutation] at h
      split at h
      · obtain rfl := Except.ok.inj h
        exact ⟨rfl, rfl⟩
      · exact absurd h (by simp)
  | addListener bindIp proto port =>
      obtain rfl := bindListener_eq_ok h
      exact ⟨Settings.ext (lookup_insert _ _ _) rfl rfl, rfl⟩
  | removeListener bindIp proto port =>
      simp only [applyMutation, applySyncMutation] at h
      split at h
      · exact absurd h (by simp)
      · rw [removeListener] at h
        split at h
        · obtain rfl := Except.ok.inj h
          exact ⟨Settings.ext (lookup_erase _ _) rfl rfl, rfl⟩
        · exact absurd h (by simp)
  | setRoute bindIp proto port clientId =>
      obtain rfl := Except.ok.inj h
      exact ⟨Settings.ext rfl (lookup_insert _ _ _) rfl, rfl⟩
  | clearRoute bindIp proto port =>
      obtain rfl := Except.ok.inj h
      exact ⟨Settings.ext rfl (lookup_erase _ _) rfl, rfl⟩
  | addClient clientId secret =>
      obtain ⟨entry, hentry, h⟩ := ok_of_bind h
      obtain rfl := id_of_clientEntry hentry
      exact ⟨clients_updateClients (e := .add clientId secret) hs h, fixed_updateClients h⟩
  | setClientSecret clientId secret =>
      obtain ⟨entry, hentry, h⟩ := ok_of_bind h
      obtain rfl := id_of_clientEntry hentry
      exact ⟨clients_updateClients (e := .setSecret clientId secret) hs h,
        fixed_updateClients h⟩
  | removeClient clientId =>
      exact ⟨clients_updateClients (e := .remove clientId) hs h, fixed_updateClients h⟩
  | _ => simp [applyMutation, applySyncMutation] at h

end Topology

/-! ### The desk -/

/-- A save that is under way, with what it has taken.  The clients come with the number of the
edits that had been made of them. -/
inductive Draft where
  | locked
  | listeners (listeners : List CfgListener)
  | routes (listeners : List CfgListener) (routes : List CfgRoute)
  | clients (listeners : List CfgListener) (routes : List CfgRoute) (clients : List CfgClient)
    (edits : ℕ)
deriving DecidableEq

/-- The task that watches the file: it waits for a change, has seen one, or has read the clients
of the file. -/
inductive Watch where
  | waiting
  | changed
  | loaded (clients : List CfgClient) (edits : ℕ)
deriving DecidableEq

/-- A server with its config file.  `unsaved` counts the mutations that were applied and wait for
their save to begin, `saved` says whether the last save to end has replaced the file, and
`pending` whether the file was replaced since the watch last saw a change.  The mutations that
were applied, in their order, and the numbers of edits are kept for the sake of what is said of
them. -/
structure Desk where
  topology : Topology
  text : List Char
  unsaved : ℕ
  draft : Option Draft
  saved : Bool
  pending : Bool
  watch : Watch
  log : List Topology.Mutation
  edits : ℕ
  textEdits : ℕ

namespace Desk

open ZeroNat.Topology (Mutation BringsPrintable)

inductive Act where
  | mutate (m : Mutation)
  | lock
  | takeListeners
  | takeRoutes
  | takeClients
  | written
  | failed
  | changed
  | load
  | reload
  | sessions (clients : Table String ClientHandle) (cancelled : List ℕ)

/-- A server that has started its listeners and begins to watch its file. -/
def opened (text : List Char) (s : Topology) : Desk where
  topology := s
  text := text
  unsaved := 0
  draft := none
  saved := false
  pending := false
  watch := .waiting
  log := []
  edits := 0
  textEdits := 0

/-- A mutation that is saved when it was applied: any but the end of a session. -/
def isSaved : Msg → Bool
  | .disconnectClient _ => false
  | _ => true

/-- A mutation that edits the clients. -/
def isEdit : Msg → Bool
  | .addClient _ _ => true
  | .setClientSecret _ _ => true
  | .removeClient _ => true
  | _ => false

/-- A mutation was applied, and waits for its save. -/
def applied (d : Desk) (m : Mutation) (s : Topology) : Desk :=
  { d with
    topology := s
    log := d.log ++ [m]
    edits := if isEdit m.req then d.edits + 1 else d.edits
    unsaved := if isSaved m.req && s.fileBacked then d.unsaved + 1 else d.unsaved }

/-- The config that a save has put together. -/
def drafted (server : ServerTable) (listeners : List CfgListener) (routes : List CfgRoute)
    (clients : List CfgClient) : ServerConfig :=
  ⟨server, clients, listeners, routes⟩

/-- A step of one of the tasks. -/
def step (d : Desk) : Act → Option Desk
  | .mutate m =>
      match d.topology.applyMutation m.bound m.req with
      | .ok s => some (d.applied m s)
      | .error _ => some d
  -- one save at a time, under the lock of saves
  | .lock =>
      if d.unsaved = 0 ∨ d.draft ≠ none then none
      else some { d with unsaved := d.unsaved - 1, draft := some .locked }
  | .takeListeners =>
      match d.draft with
      | some .locked => some { d with draft := some (.listeners d.topology.fileListeners) }
      | _ => none
  | .takeRoutes =>
      match d.draft with
      | some (.listeners listeners) =>
          some { d with draft := some (.routes listeners d.topology.fileRoutes) }
      | _ => none
  | .takeClients =>
      match d.draft with
      | some (.routes listeners routes) =>
          some { d with
            draft := some (.clients listeners routes d.topology.fileClients d.edits) }
      | _ => none
  | .written =>
      match d.draft with
      | some (.clients listeners routes clients edits) =>
          some { d with
            text := (drafted d.topology.fileServer listeners routes clients).serialize
            textEdits := edits
            draft := none
            saved := true
            pending := true }
      | _ => none
  -- the file is replaced as a whole or left as it is
  | .failed =>
      match d.draft with
      | some (.clients _ _ _ _) => some { d with draft := none, saved := false }
      | _ => none
  | .changed =>
      if d.pending && d.watch = .waiting then
        some { d with pending := false, watch := .changed }
      else none
  | .load =>
      if d.watch = .changed then
        match ServerConfig.parse d.text with
        | .ok cfg => some { d with watch := .loaded cfg.clients d.textEdits }
        | .error _ => some { d with watch := .waiting }
      else none
  | .reload =>
      match d.watch with
      | .loaded clients _ =>
          match d.topology.updateClients fun _ => .ok clients with
          | .ok s => some { d with topology := s, watch := .waiting }
          | .error _ => some { d with watch := .waiting }
      | _ => none
  | .sessions clients cancelled =>
      some { d with topology := { d.topology with clients := clients, cancelled := cancelled } }

def Steps (d : Desk) (a : Act) (d' : Desk) : Prop :=
  d.step a = some d'

/-- The mutations bring no id with a control character into the settings of the file. -/
def Printable (d : Desk) : Act → Prop
  | .mutate m => d.topology.BringsPrintable m
  | _ => True

instance (d : Desk) (a : Act) : Decidable (d.Printable a) :=
  match a with
  | .mutate m => inferInstanceAs (Decidable (d.topology.BringsPrintable m))
  | .lock | .takeListeners | .takeRoutes | .takeClients | .written | .failed | .changed
  | .load | .reload | .sessions _ _ => inferInstanceAs (Decidable True)

/-- Every mutation was saved, and every change of the file was seen and taken over. -/
structure Finished (d : Desk) : Prop where
  unsaved : d.unsaved = 0
  draft : d.draft = none
  pending : d.pending = false
  watch : d.watch = .waiting

end Desk

end ZeroNat

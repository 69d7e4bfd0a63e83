import ZeroNat.Config.Records

/-!
# The config file of a server

A `server` table with the settings of the process, and tables for the listeners, the routes
and the clients.  Two listeners or two routes may not have the same key, and a client has an
id.  What is saved is read back, up to the order of the tables, when its strings can be
written.
-/

namespace ZeroNat.Config

/-! ### Sorted output -/

/-- Move an index left, from the end of a reversed list, past those that it is less than. -/
def insertLeft (less : ℕ → ℕ → Bool) (x : ℕ) : List ℕ → List ℕ
  | [] => [x]
  | y :: ys => if less x y then y :: insertLeft less x ys else x :: y :: ys

/-- The indices of `n` items in ascending order under `less`, stable. -/
def order (n : ℕ) (less : ℕ → ℕ → Bool) : List ℕ :=
  ((List.range n).foldl (fun rev x => insertLeft less x rev) []).reverse

/-- The items of a list in ascending order. -/
def ordered {α : Type} (less : α → α → Bool) (l : List α) : List α :=
  (order l.length fun i j =>
    match l[i]?, l[j]? with
    | some a, some b => less a b
    | _, _ => false).filterMap fun i => l[i]?

theorem insertLeft_perm (less : ℕ → ℕ → Bool) (x : ℕ) (l : List ℕ) :
  (insertLeft less x l).Perm (x :: l)
  := by
  induction l with
  | nil => exact .refl _
  | cons y l ih =>
      rw [insertLeft]
      split
      · exact (ih.cons y).trans (.swap x y l)
      · exact .refl _

theorem foldl_insertLeft_perm (less : ℕ → ℕ → Bool) (l rev : List ℕ) :
  (l.foldl (fun rev x => insertLeft less x rev) rev).Perm (l ++ rev)
  := by
  induction l generalizing rev with
  | nil => exact .refl _
  | cons x l ih =>
      rw [List.foldl_cons]
      refine (ih _).trans ?_
      exact ((insertLeft_perm less x rev).append_left l).trans List.perm_middle

theorem order_perm (n : ℕ) (less : ℕ → ℕ → Bool) :
  (order n less).Perm (List.range n)
  := by
  refine (List.reverse_perm _).trans ?_
  have hperm := foldl_insertLeft_perm less (List.range n) []
  rwa [List.append_nil] at hperm

theorem filterMap_range_getElem? {α : Type} (l : List α) :
  (List.range l.length).filterMap (fun i => l[i]?) = l
  := by
  induction l using List.reverseRecOn with
  | nil => rfl
  | append_singleton l a ih =>
      have hold : (List.range l.length).filterMap (fun i => (l ++ [a])[i]?)
          = (List.range l.length).filterMap (fun i => l[i]?) := by
        refine List.filterMap_congr ?_
        intro i hi
        exact List.getElem?_append_left (List.mem_range.mp hi)
      rw [List.length_append, List.length_singleton, List.range_succ, List.filterMap_append,
        hold, ih]
      simp

/-- Sorting keeps the items. -/
theorem ordered_perm {α : Type} (less : α → α → Bool) (l : List α) :
  (ordered less l).Perm l
  := by
  have hperm := (order_perm l.length fun i j =>
    match l[i]?, l[j]? with
    | some a, some b => less a b
    | _, _ => false).filterMap fun i => l[i]?
  rwa [filterMap_range_getElem?] at hperm

/-- What sorting relies on: an item is not less than one that is less than it, and of three items
of which none is less than the next the first is not less than the last. -/
structure Ranks {α : Type} (less : α → α → Bool) : Prop where
  asymm (a b : α) : less a b = true → less b a = false
  trans (a b c : α) : less a b = false → less b c = false → less a c = false

theorem insertLeft_sorted {less : ℕ → ℕ → Bool} {n x : ℕ} {l : List ℕ}
    (hasymm : ∀ i < n, ∀ j < n, less i j = true → less j i = false)
    (htrans : ∀ i < n, ∀ j < n, ∀ k < n, less i j = false → less j k = false → less i k = false)
    (hx : x < n) (hl : ∀ i ∈ l, i < n) (h : l.Pairwise fun i j => less i j = false) :
  (insertLeft less x l).Pairwise fun i j => less i j = false
  := by
  induction l with
  | nil => exact List.pairwise_singleton _ x
  | cons y l ih =>
      obtain ⟨hy, hl'⟩ := List.forall_mem_cons.mp hl
      obtain ⟨hfirst, hrest⟩ := List.pairwise_cons.mp h
      rw [insertLeft]
      split
      · rename_i hless
        refine List.pairwise_cons.mpr ⟨?_, ih hl' hrest⟩
        intro z hz
        obtain rfl | hz := List.mem_cons.mp ((insertLeft_perm less x l).mem_iff.mp hz)
        · exact hasymm z hx y hy hless
        · exact hfirst z hz
      · rename_i hless
        have hxy : less x y = false := Bool.not_eq_true _ |>.mp hless
        refine List.pairwise_cons.mpr ⟨?_, h⟩
        intro z hz
        obtain rfl | hz := List.mem_cons.mp hz
        · exact hxy
        · exact htrans x hx y hy z (hl' z hz) hxy (hfirst z hz)

theorem order_sorted {less : ℕ → ℕ → Bool} {n : ℕ}
    (hasymm : ∀ i < n, ∀ j < n, less i j = true → less j i = false)
    (htrans : ∀ i < n, ∀ j < n, ∀ k < n, less i j = false → less j k = false → less i k = false) :
  (order n less).Pairwise fun i j => less j i = false
  := by
  have hfold : ∀ l : List ℕ, (∀ i ∈ l, i < n) → ∀ rev : List ℕ, (∀ i ∈ rev, i < n) →
      (rev.Pairwise fun i j => less i j = false) →
      (l.foldl (fun rev x => insertLeft less x rev) rev).Pairwise fun i j => less i j = false := by
    intro l
    induction l with
    | nil => exact fun _ rev _ h => h
    | cons x l ih =>
        intro hl rev hrev h
        obtain ⟨hx, hl⟩ := List.forall_mem_cons.mp hl
        refine ih hl _ ?_ (insertLeft_sorted hasymm htrans hx hrev h)
        intro i hi
        obtain rfl | hi := List.mem_cons.mp ((insertLeft_perm less x rev).mem_iff.mp hi)
        · exact hx
        · exact hrev i hi
  rw [order, List.pairwise_reverse]
  exact hfold (List.range n) (fun i hi => List.mem_range.mp hi) [] (by simp) .nil

/-- The items are in order. -/
theorem ordered_sorted {α : Type} {less : α → α → Bool} (h : Ranks less) (l : List α) :
  (ordered less l).Pairwise fun a b => less b a = false
  := by
  have hget : ∀ i < l.length, ∃ a, l[i]? = some a := fun i hi => ⟨_, List.getElem?_eq_getElem hi⟩
  refine List.Pairwise.filterMap _ ?_ (order_sorted ?_ ?_)
  · intro i j hless b hb a ha
    rw [hb, ha] at hless
    exact hless
  · intro i hi j hj
    obtain ⟨a, ha⟩ := hget i hi
    obtain ⟨b, hb⟩ := hget j hj
    simp only [ha, hb]
    exact h.asymm a b
  · intro i hi j hj k hk
    obtain ⟨a, ha⟩ := hget i hi
    obtain ⟨b, hb⟩ := hget j hj
    obtain ⟨c, hc⟩ := hget k hk
    simp only [ha, hb, hc]
    exact h.trans a b c

theorem order_of_sorted {less : ℕ → ℕ → Bool} {n : ℕ}
    (h : ∀ j < n, ∀ i < j, less j i = false) :
  order n less = List.range n
  := by
  have hfold : ∀ m ≤ n, (List.range m).foldl (fun rev x => insertLeft less x rev) []
      = (List.range m).reverse := by
    intro m
    induction m with
    | zero => exact fun _ => rfl
    | succ m ih =>
        intro hm
        rw [List.range_succ, List.foldl_append, ih (Nat.le_of_succ_le hm), List.reverse_append]
        cases m with
        | zero => rfl
        | succ m =>
            have hlast := h (m + 1) hm m (Nat.lt_succ_self m)
            rw [List.range_succ, List.reverse_append]
            simp [insertLeft, hlast]
  rw [order, hfold n (Nat.le_refl n), List.reverse_reverse]

/-- Items in order stay where they are. -/
theorem ordered_of_sorted {α : Type} {less : α → α → Bool} {l : List α}
    (h : l.Pairwise fun a b => less b a = false) :
  ordered less l = l
  := by
  rw [ordered, order_of_sorted, filterMap_range_getElem?]
  intro j hj i hij
  have hi : i < l.length := Nat.lt_trans hij hj
  rw [List.getElem?_eq_getElem hj, List.getElem?_eq_getElem hi]
  exact List.pairwise_iff_getElem.mp h i j hi hj hij

/-! ### The file -/

structure CfgListener where
  bindIp : Ipv4Addr
  proto : Proto
  port : UInt16
deriving DecidableEq

structure CfgRoute where
  bindIp : Ipv4Addr
  proto : Proto
  port : UInt16
  client : String
deriving DecidableEq

/-- A client.  It has no secret when its credential is derived from the seed. -/
structure CfgClient where
  id : String
  secret : Option String
deriving DecidableEq

def CfgListener.key (l : CfgListener) : Ipv4Addr × Proto × UInt16 :=
  (l.bindIp, l.proto, l.port)

def CfgRoute.key (r : CfgRoute) : Ipv4Addr × Proto × UInt16 :=
  (r.bindIp, r.proto, r.port)

/-- The keys of the `server` table. -/
structure ServerTable where
  id : Option String
  control : Option String
  seed : Option String
  adminSecret : Option String
  exit : Option Bool
  exitIface : Option String
deriving DecidableEq

def ServerTable.empty : ServerTable :=
  ⟨none, none, none, none, none, none⟩

/-- The strings of the table can be written. -/
def ServerTable.Printable (t : ServerTable) : Prop :=
  ∀ o ∈ [t.id, t.control, t.seed, t.adminSecret, t.exitIface], ∀ s ∈ o, Config.Printable s

structure ServerConfig where
  server : ServerTable
  clients : List CfgClient
  listeners : List CfgListener
  routes : List CfgRoute
deriving DecidableEq

namespace ServerConfig

def default : ServerConfig :=
  ⟨ServerTable.empty, [], [], []⟩

def serverTable : TableDef where
  header := "server"
  label := "[server]"
  single := true
  keys := [("id", .str 0), ("control", .str 1), ("seed", .str 2), ("admin_secret", .str 3),
    ("exit", .bool 0), ("exit_iface", .str 4)]

def listenersTable : TableDef where
  header := "[listeners]"
  label := "[[listeners]]"
  single := false
  keys := [("bind_ip", .ip), ("proto", .proto), ("port", .int)]

def routesTable : TableDef where
  header := "[routes]"
  label := "[[routes]]"
  single := false
  keys := [("bind_ip", .ip), ("proto", .proto), ("port", .int), ("client", .str 0)]

def clientsTable : TableDef where
  header := "[clients]"
  label := "[[clients]]"
  single := false
  keys := [("id", .str 0), ("secret", .str 1)]

def grammar : Grammar :=
  [serverTable, listenersTable, routesTable, clientsTable]

/-! ### Parsing -/

/-- The config read so far, and the keys of its listeners and routes. -/
structure Acc where
  cfg : ServerConfig
  seenListeners : List (Ipv4Addr × Proto × UInt16)
  seenRoutes : List (Ipv4Addr × Proto × UInt16)

/-- The key of a listener or of a route, each part required. -/
def target (record : Record) (what : String) (n : ℕ) :
    Except String (Ipv4Addr × Proto × UInt16) :=
  match record.ip, record.proto, record.int with
  | none, _, _ => .error (err n (what ++ " missing `bind_ip`"))
  | some _, none, _ => .error (err n (what ++ " missing `proto`"))
  | some _, some _, none => .error (err n (what ++ " missing `port`"))
  | some bindIp, some proto, some port => .ok (bindIp, proto, port)

def duplicate (what : String) (key : Ipv4Addr × Proto × UInt16) (n : ℕ) : String :=
  err n ("duplicate " ++ what ++ " " ++ String.ofList (ipText key.1) ++ " " ++ protoStr key.2.1
    ++ " " ++ toString key.2.2)

local instance lawful_target : LawfulBEq (Ipv4Addr × Proto × UInt16) := inferInstance

/-- Commit the record of a table. -/
def closeRecord (acc : Acc) (table : ℕ) (record : Record) (n : ℕ) : Except String Acc :=
  match table with
  | 0 =>
      .ok { acc with cfg := { acc.cfg with server :=
        { id := record.strs 0, control := record.strs 1, seed := record.strs 2,
          adminSecret := record.strs 3, exit := record.bools 0, exitIface := record.strs 4 } } }
  | 1 => do
      let key ← target record "listener" n
      if key ∈ acc.seenListeners then .error (duplicate "listener" key n)
      else
        .ok { acc with
          seenListeners := acc.seenListeners ++ [key]
          cfg := { acc.cfg with
            listeners := acc.cfg.listeners ++ [⟨key.1, key.2.1, key.2.2⟩] } }
  | 2 => do
      let key ← target record "route" n
      let client ← record.required 0 n "route missing `client`"
      if key ∈ acc.seenRoutes then .error (duplicate "route" key n)
      else
        .ok { acc with
          seenRoutes := acc.seenRoutes ++ [key]
          cfg := { acc.cfg with
            routes := acc.cfg.routes ++ [⟨key.1, key.2.1, key.2.2, client⟩] } }
  | _ => do
      let id ← record.required 0 n "client missing `id`"
      if id = "" then .error (err n "client `id` must not be empty")
      else
        .ok { acc with
          cfg := { acc.cfg with clients := acc.cfg.clients ++ [⟨id, record.strs 1⟩] } }

def parse (text : List Char) : Except String ServerConfig :=
  (parseTables grammar closeRecord ⟨default, [], []⟩ text).map Acc.cfg

/-! ### Serializing -/

def protoRank : Proto → ℕ
  | .tcp => 0
  | .udp => 1

/-- The order of keys: by address, then protocol, then port. -/
def keyLess (a b : Ipv4Addr × Proto × UInt16) : Bool :=
  if a.1.bits ≠ b.1.bits then a.1.bits < b.1.bits
  else if protoRank a.2.1 ≠ protoRank b.2.1 then protoRank a.2.1 < protoRank b.2.1
  else a.2.2 < b.2.2

def putServer (out : List Char) (t : ServerTable) : List Char :=
  if t.id.isSome ∨ t.control.isSome ∨ t.seed.isSome ∨ t.adminSecret.isSome ∨ t.exit.isSome
      ∨ t.exitIface.isSome then
    let out := out ++ "[server]\n".toList
    let out := putSome out "id" t.id
    let out := putSome out "control" t.control
    let out := putSome out "seed" t.seed
    let out := putSome out "admin_secret" t.adminSecret
    let out := match t.exit with
      | some exit => kvBool out "exit" exit
      | none => out
    putSome out "exit_iface" t.exitIface
  else out

def putClient (out : List Char) (client : CfgClient) : List Char :=
  let out := table out "[[clients]]"
  let out := kvQuoted out "id" client.id
  putSome out "secret" client.secret

def putTarget (out : List Char) (bindIp : Ipv4Addr) (proto : Proto) (port : UInt16) :
    List Char :=
  let out := kvQuoted out "bind_ip" (String.ofList (ipText bindIp))
  let out := kvQuoted out "proto" (protoStr proto)
  kvNum out "port" port.toNat

def putListener (out : List Char) (l : CfgListener) : List Char :=
  putTarget (table out "[[listeners]]") l.bindIp l.proto l.port

def putRoute (out : List Char) (r : CfgRoute) : List Char :=
  kvQuoted (putTarget (table out "[[routes]]") r.bindIp r.proto r.port) "client" r.client

/-- The sorted text of a config. -/
def serialize (cfg : ServerConfig) : List Char :=
  let out := putServer [] cfg.server
  let out := (ordered (fun a b => decide (a.id < b.id)) cfg.clients).foldl putClient out
  let out := (ordered (fun a b => keyLess a.key b.key) cfg.listeners).foldl putListener out
  (ordered (fun a b => keyLess a.key b.key) cfg.routes).foldl putRoute out

/-! ### The document of a config -/

def serverSheet (t : ServerTable) : Sheet where
  table := 0
  tdef := serverTable
  entries := List.flatten [Entry.opt (Entry.str "id" 0) t.id,
    Entry.opt (Entry.str "control" 1) t.control, Entry.opt (Entry.str "seed" 2) t.seed,
    Entry.opt (Entry.str "admin_secret" 3) t.adminSecret, Entry.opt (Entry.bool "exit" 0) t.exit,
    Entry.opt (Entry.str "exit_iface" 4) t.exitIface]

/-- The document has a `server` table when one of its keys has a value. -/
def serverSheets (t : ServerTable) : List Sheet :=
  if (serverSheet t).entries = [] then [] else [serverSheet t]

def clientSheet (client : CfgClient) : Sheet where
  table := 3
  tdef := clientsTable
  entries := List.flatten [Entry.opt (Entry.str "id" 0) (some client.id),
    Entry.opt (Entry.str "secret" 1) client.secret]

def listenerSheet (l : CfgListener) : Sheet where
  table := 1
  tdef := listenersTable
  entries := List.flatten [Entry.opt (Entry.ip "bind_ip") (some l.bindIp),
    Entry.opt (Entry.proto "proto") (some l.proto), Entry.opt (Entry.int "port") (some l.port)]

def routeSheet (r : CfgRoute) : Sheet where
  table := 2
  tdef := routesTable
  entries := List.flatten [Entry.opt (Entry.ip "bind_ip") (some r.bindIp),
    Entry.opt (Entry.proto "proto") (some r.proto), Entry.opt (Entry.int "port") (some r.port),
    Entry.opt (Entry.str "client" 0) (some r.client)]

/-- A config with its lists sorted. -/
def sorted (cfg : ServerConfig) : ServerConfig where
  server := cfg.server
  clients := ordered (fun a b => decide (a.id < b.id)) cfg.clients
  listeners := ordered (fun a b => keyLess a.key b.key) cfg.listeners
  routes := ordered (fun a b => keyLess a.key b.key) cfg.routes

def doc (cfg : ServerConfig) : List Sheet :=
  serverSheets cfg.server ++ cfg.clients.map clientSheet ++ cfg.listeners.map listenerSheet
    ++ cfg.routes.map routeSheet

theorem writeSheet_clientSheet (out : List Char) (client : CfgClient) :
  writeSheet out (clientSheet client) = putClient out client
  := by
  rw [writeSheet, clientSheet, table_eq "[[clients]]" clientsTable (by decide)]
  simp only [List.flatten_cons, List.flatten_nil, List.append_nil, Entry.write_append,
      write_str]
  rfl

theorem writeSheet_listenerSheet (out : List Char) (l : CfgListener) :
  writeSheet out (listenerSheet l) = putListener out l
  := by
  rw [writeSheet, listenerSheet, table_eq "[[listeners]]" listenersTable (by decide)]
  rfl

theorem writeSheet_routeSheet (out : List Char) (r : CfgRoute) :
  writeSheet out (routeSheet r) = putRoute out r
  := by
  rw [writeSheet, routeSheet, table_eq "[[routes]]" routesTable (by decide)]
  rfl

theorem entries_serverSheet_eq_nil {t : ServerTable} :
  (serverSheet t).entries = [] ↔ ¬ (t.id.isSome ∨ t.control.isSome ∨ t.seed.isSome
    ∨ t.adminSecret.isSome ∨ t.exit.isSome ∨ t.exitIface.isSome)
  := by
  simp only [serverSheet, Entry.opt, List.flatten_cons, List.flatten_nil, List.append_eq_nil_iff, List.map_eq_nil_iff,
    Option.toList_eq_nil_iff, not_or, Option.not_isSome_iff_eq_none,
    and_true]

theorem foldl_serverSheets (t : ServerTable) :
  (serverSheets t).foldl writeSheet [] = putServer [] t
  := by
  rw [serverSheets, putServer]
  by_cases hnil : (serverSheet t).entries = []
  · rw [if_pos hnil, if_neg (entries_serverSheet_eq_nil.mp hnil)]
    rfl
  · rw [if_neg hnil, if_pos (not_not.mp (mt entries_serverSheet_eq_nil.mpr hnil))]
    have htable : table [] "[server]" = [] ++ "[server]\n".toList := by rfl
    rw [List.foldl_cons, List.foldl_nil, writeSheet, serverSheet,
      table_eq "[server]" serverTable (by decide), htable]
    simp only [List.flatten_cons, List.flatten_nil, List.append_nil, Entry.write_append,
      write_str]
    cases t.exit <;> rfl

/-- The text of a config is that of its document. -/
theorem serialize_eq (cfg : ServerConfig) :
  serialize cfg = writeDoc (doc (sorted cfg))
  := by
  have hclient : (fun out client => writeSheet out (clientSheet client)) = putClient := by
    funext out client
    exact writeSheet_clientSheet out client
  have hlistener : (fun out l => writeSheet out (listenerSheet l)) = putListener := by
    funext out l
    exact writeSheet_listenerSheet out l
  have hroute : (fun out r => writeSheet out (routeSheet r)) = putRoute := by
    funext out r
    exact writeSheet_routeSheet out r
  rw [serialize, writeDoc, doc, List.foldl_append, List.foldl_append, List.foldl_append,
    List.foldl_map, List.foldl_map, List.foldl_map, foldl_serverSheets, hclient, hlistener,
    hroute]
  rfl

/-! ### Reading a config back -/

/-- A client has an id, and its strings can be written. -/
structure ClientSound (client : CfgClient) : Prop where
  named : client.id ≠ ""
  id : Printable client.id
  secret : ∀ s ∈ client.secret, Printable s

/-- A config that can be written: its strings have no control characters, its clients have
ids, and no two of its listeners or of its routes have one key. -/
structure Writable (cfg : ServerConfig) : Prop where
  server : cfg.server.Printable
  clients : ∀ client ∈ cfg.clients, ClientSound client
  listeners : (cfg.listeners.map CfgListener.key).Nodup
  routes : (cfg.routes.map CfgRoute.key).Nodup
  targets : ∀ r ∈ cfg.routes, Printable r.client

theorem Writable.sorted {cfg : ServerConfig} (h : cfg.Writable) :
  cfg.sorted.Writable where
  server := h.server
  clients := by
    intro client hclient
    exact h.clients client ((ordered_perm _ _).mem_iff.mp hclient)
  listeners := ((ordered_perm _ _).map CfgListener.key).nodup_iff.mpr h.listeners
  routes := ((ordered_perm _ _).map CfgRoute.key).nodup_iff.mpr h.routes
  targets := by
    intro r hr
    exact h.targets r ((ordered_perm _ _).mem_iff.mp hr)

theorem serverSheet_sound {t : ServerTable} (h : t.Printable) :
  (serverSheet t).Sound grammar where
  has := (by decide : grammar.Has 0 serverTable)
  entries := by
    simp only [ServerTable.Printable, List.mem_cons, List.not_mem_nil, or_false,
      forall_eq_or_imp, forall_eq] at h
    obtain ⟨hid, hcontrol, hseed, hadmin, hiface⟩ := h
    change ∀ e ∈ (serverSheet t).entries, e.Fits serverTable
    refine Entry.fits_cons (fun s hs => Entry.fits_str (by decide) (hid s hs)) ?_
    refine Entry.fits_cons (fun s hs => Entry.fits_str (by decide) (hcontrol s hs)) ?_
    refine Entry.fits_cons (fun s hs => Entry.fits_str (by decide) (hseed s hs)) ?_
    refine Entry.fits_cons (fun s hs => Entry.fits_str (by decide) (hadmin s hs)) ?_
    refine Entry.fits_cons (fun b _ => Entry.fits_bool (by decide) b) ?_
    exact Entry.fits_cons (fun s hs => Entry.fits_str (by decide) (hiface s hs)) Entry.fits_nil
  distinct := by
    have hsub : ((serverSheet t).entries.map Entry.name).Sublist
        ["id", "control", "seed", "admin_secret", "exit", "exit_iface"] := by
      repeat refine Entry.names_cons (fun _ => rfl) ?_
      exact Entry.names_nil
    exact hsub.nodup (by decide)

theorem clientSheet_sound {client : CfgClient} (h : ClientSound client) :
  (clientSheet client).Sound grammar where
  has := (by decide : grammar.Has 3 clientsTable)
  entries := by
    change ∀ e ∈ (clientSheet client).entries, e.Fits clientsTable
    refine Entry.fits_cons (by rintro _ ⟨⟩; exact Entry.fits_str (by decide) h.id) ?_
    exact Entry.fits_cons (fun s hs => Entry.fits_str (by decide) (h.secret s hs)) Entry.fits_nil
  distinct := by
    have hsub : ((clientSheet client).entries.map Entry.name).Sublist ["id", "secret"] := by
      repeat refine Entry.names_cons (fun _ => rfl) ?_
      exact Entry.names_nil
    exact hsub.nodup (by decide)

theorem listenerSheet_sound (l : CfgListener) :
  (listenerSheet l).Sound grammar where
  has := (by decide : grammar.Has 1 listenersTable)
  entries := by
    change ∀ e ∈ (listenerSheet l).entries, e.Fits listenersTable
    refine Entry.fits_cons (fun a _ => Entry.fits_ip (by decide) a) ?_
    refine Entry.fits_cons (fun p _ => Entry.fits_proto (by decide) p) ?_
    exact Entry.fits_cons (fun v _ => Entry.fits_int (by decide) v) Entry.fits_nil
  distinct := by
    change ["bind_ip", "proto", "port"].Nodup
    decide

theorem routeSheet_sound {r : CfgRoute} (h : Printable r.client) :
  (routeSheet r).Sound grammar where
  has := (by decide : grammar.Has 2 routesTable)
  entries := by
    change ∀ e ∈ (routeSheet r).entries, e.Fits routesTable
    refine Entry.fits_cons (fun a _ => Entry.fits_ip (by decide) a) ?_
    refine Entry.fits_cons (fun p _ => Entry.fits_proto (by decide) p) ?_
    refine Entry.fits_cons (fun v _ => Entry.fits_int (by decide) v) ?_
    exact Entry.fits_cons (by rintro _ ⟨⟩; exact Entry.fits_str (by decide) h) Entry.fits_nil
  distinct := by
    change ["bind_ip", "proto", "port", "client"].Nodup
    decide

/-! ### Closing the records of a config -/

theorem closeRecord_serverSheet (acc : Acc) (t : ServerTable) (n : ℕ) :
  closeRecord acc 0 (serverSheet t).record n
    = .ok { acc with cfg := { acc.cfg with server := t } }
  := by
  simp [closeRecord, Sheet.record, serverSheet, Record.default, Function.update]

theorem closeRecord_clientSheet (acc : Acc) {client : CfgClient} (h : client.id ≠ "") (n : ℕ) :
  closeRecord acc 3 (clientSheet client).record n
    = .ok { acc with cfg := { acc.cfg with clients := acc.cfg.clients ++ [client] } }
  := by
  simp [closeRecord, Sheet.record, clientSheet, Record.default, Record.required,
    Function.update, h, bind, Except.bind]

theorem closeRecord_listenerSheet (acc : Acc) {l : CfgListener}
    (h : l.key ∉ acc.seenListeners) (n : ℕ) :
  closeRecord acc 1 (listenerSheet l).record n
    = .ok { acc with
        seenListeners := acc.seenListeners ++ [l.key]
        cfg := { acc.cfg with listeners := acc.cfg.listeners ++ [l] } }
  := by
  rw [CfgListener.key] at h
  simp [closeRecord, Sheet.record, listenerSheet, Record.default, target, CfgListener.key, h,
    bind, Except.bind]

theorem closeRecord_routeSheet (acc : Acc) {r : CfgRoute} (h : r.key ∉ acc.seenRoutes) (n : ℕ) :
  closeRecord acc 2 (routeSheet r).record n
    = .ok { acc with
        seenRoutes := acc.seenRoutes ++ [r.key]
        cfg := { acc.cfg with routes := acc.cfg.routes ++ [r] } }
  := by
  rw [CfgRoute.key] at h
  simp [closeRecord, Sheet.record, routeSheet, Record.default, Record.required, target,
    CfgRoute.key, h, bind, Except.bind]

theorem accepts_clients {clients : List CfgClient} (h : ∀ client ∈ clients, ClientSound client)
    (acc : Acc) :
  Accepts closeRecord acc (clients.map fun client => (3, (clientSheet client).record))
    { acc with cfg := { acc.cfg with clients := acc.cfg.clients ++ clients } }
  := by
  induction clients generalizing acc with
  | nil => simpa using Accepts.nil
  | cons client clients ih =>
      have hnamed := (h client List.mem_cons_self).named
      have hrest := ih (fun c hc => h c (List.mem_cons_of_mem _ hc))
        { acc with cfg := { acc.cfg with clients := acc.cfg.clients ++ [client] } }
      rw [List.append_assoc] at hrest
      exact .cons (closeRecord_clientSheet acc hnamed) hrest

theorem accepts_listeners (acc : Acc) {listeners : List CfgListener}
    (h : (listeners.map CfgListener.key).Nodup)
    (hseen : ∀ l ∈ listeners, l.key ∉ acc.seenListeners) :
  Accepts closeRecord acc (listeners.map fun l => (1, (listenerSheet l).record))
    { acc with
      seenListeners := acc.seenListeners ++ listeners.map CfgListener.key
      cfg := { acc.cfg with listeners := acc.cfg.listeners ++ listeners } }
  := by
  induction listeners generalizing acc with
  | nil => simpa using Accepts.nil
  | cons l listeners ih =>
      obtain ⟨hfresh, hdistinct⟩ := List.nodup_cons.mp h
      have hrest := ih { acc with
        seenListeners := acc.seenListeners ++ [l.key]
        cfg := { acc.cfg with listeners := acc.cfg.listeners ++ [l] } } hdistinct ?_
      · rw [List.append_assoc, List.append_assoc] at hrest
        exact .cons (closeRecord_listenerSheet acc (hseen l List.mem_cons_self)) hrest
      · intro l' hl' hmem
        obtain hmem | hmem := List.mem_append.mp hmem
        · exact hseen l' (List.mem_cons_of_mem _ hl') hmem
        · exact hfresh (List.mem_singleton.mp hmem ▸ List.mem_map_of_mem hl')

theorem accepts_routes (acc : Acc) {routes : List CfgRoute}
    (h : (routes.map CfgRoute.key).Nodup) (hseen : ∀ r ∈ routes, r.key ∉ acc.seenRoutes) :
  Accepts closeRecord acc (routes.map fun r => (2, (routeSheet r).record))
    { acc with
      seenRoutes := acc.seenRoutes ++ routes.map CfgRoute.key
      cfg := { acc.cfg with routes := acc.cfg.routes ++ routes } }
  := by
  induction routes generalizing acc with
  | nil => simpa using Accepts.nil
  | cons r routes ih =>
      obtain ⟨hfresh, hdistinct⟩ := List.nodup_cons.mp h
      have hrest := ih { acc with
        seenRoutes := acc.seenRoutes ++ [r.key]
        cfg := { acc.cfg with routes := acc.cfg.routes ++ [r] } } hdistinct ?_
      · rw [List.append_assoc, List.append_assoc] at hrest
        exact .cons (closeRecord_routeSheet acc (hseen r List.mem_cons_self)) hrest
      · intro r' hr' hmem
        obtain hmem | hmem := List.mem_append.mp hmem
        · exact hseen r' (List.mem_cons_of_mem _ hr') hmem
        · exact hfresh (List.mem_singleton.mp hmem ▸ List.mem_map_of_mem hr')

theorem server_eq_empty {t : ServerTable} (h : (serverSheet t).entries = []) :
  t = ServerTable.empty
  := by
  rw [entries_serverSheet_eq_nil] at h
  simp only [not_or, Option.not_isSome_iff_eq_none] at h
  obtain ⟨hid, hcontrol, hseed, hadmin, hexit, hiface⟩ := h
  cases t
  simp_all [ServerTable.empty]

theorem accepts_server (acc : Acc) (t : ServerTable) (h : acc.cfg.server = ServerTable.empty) :
  Accepts closeRecord acc ((serverSheets t).map fun s => (s.table, s.record))
    { acc with cfg := { acc.cfg with server := t } }
  := by
  rw [serverSheets]
  split
  · rename_i hnil
    rw [server_eq_empty hnil, ← h]
    exact .nil
  · exact .cons (closeRecord_serverSheet acc t) .nil

/-- A config that can be written is read back, with its lists sorted. -/
theorem parse_serialize {cfg : ServerConfig} (h : cfg.Writable) :
  parse (serialize cfg) = .ok cfg.sorted
  := by
  have hs := h.sorted
  have hsound : ∀ s ∈ doc cfg.sorted, s.Sound grammar := by
    intro s hmem
    simp only [doc, List.mem_append, List.mem_map] at hmem
    obtain ((hmem | ⟨client, hclient, rfl⟩) | ⟨l, -, rfl⟩) | ⟨r, hr, rfl⟩ := hmem
    · rw [serverSheets] at hmem
      split at hmem
      · simp at hmem
      · rw [List.mem_singleton.mp hmem]
        exact serverSheet_sound hs.server
    · exact clientSheet_sound (hs.clients client hclient)
    · exact listenerSheet_sound l
    · exact routeSheet_sound (hs.targets r hr)
  have honce : Once (doc cfg.sorted) := by
    -- only the first sheet can be of the `server` table
    have hserver : Once (serverSheets cfg.sorted.server) := by
      rw [serverSheets]
      split
      · exact once_nil
      · exact once_singleton _
    refine ((hserver.append ?_).append ?_).append ?_ <;>
    · intro s hmem
      obtain ⟨x, -, rfl⟩ := List.mem_map.mp hmem
      rfl
  have hacc : Accepts closeRecord ⟨default, [], []⟩
      ((doc cfg.sorted).map fun s => (s.table, s.record))
      ⟨cfg.sorted, cfg.sorted.listeners.map CfgListener.key,
        cfg.sorted.routes.map CfgRoute.key⟩ := by
    simp only [doc, List.map_append, List.map_map]
    have hserver := accepts_server ⟨default, [], []⟩ cfg.sorted.server rfl
    have hclients := accepts_clients hs.clients
      ⟨⟨cfg.sorted.server, [], [], []⟩, [], []⟩
    have hlisteners := accepts_listeners
      ⟨⟨cfg.sorted.server, cfg.sorted.clients, [], []⟩, [], []⟩ hs.listeners (by simp)
    have hroutes := accepts_routes
      ⟨⟨cfg.sorted.server, cfg.sorted.clients, cfg.sorted.listeners, []⟩,
        cfg.sorted.listeners.map CfgListener.key, []⟩ hs.routes (by simp)
    exact ((hserver.append hclients).append hlisteners).append hroutes
  rw [parse, serialize_eq, parseTables_writeDoc hsound honce hacc]
  rfl

/-! ### What is read can be written -/

/-- The config that has been read can be written, and the keys that were seen are those of its
listeners and routes. -/
structure Acc.Sound (acc : Acc) : Prop where
  cfg : acc.cfg.Writable
  listeners : acc.seenListeners = acc.cfg.listeners.map CfgListener.key
  routes : acc.seenRoutes = acc.cfg.routes.map CfgRoute.key

theorem nodup_concat {α : Type} {l : List α} {a : α} (h : l.Nodup) (ha : a ∉ l) :
  (l ++ [a]).Nodup
  := List.nodup_append.mpr ⟨h, List.nodup_singleton a, by
    rintro b hb c hc rfl
    exact ha (List.mem_singleton.mp hc ▸ hb)⟩

theorem keeps_sound :
  Keeps closeRecord Acc.Sound
  := by
  intro acc i r n acc' hacc hr h
  obtain ⟨hcfg, hlisteners, hroutes⟩ := hacc
  unfold closeRecord at h
  split at h
  · obtain rfl := Except.ok.inj h
    refine ⟨⟨?_, hcfg.clients, hcfg.listeners, hcfg.routes, hcfg.targets⟩, hlisteners, hroutes⟩
    intro o ho s hs
    simp only [List.mem_cons, List.not_mem_nil, or_false] at ho
    obtain rfl | rfl | rfl | rfl | rfl := ho
    all_goals exact hr.strs _ s hs
  · obtain ⟨key, -, h⟩ := ok_of_bind h
    split at h
    · simp at h
    · rename_i hfresh
      obtain rfl := Except.ok.inj h
      refine ⟨⟨hcfg.server, hcfg.clients, ?_, hcfg.routes, hcfg.targets⟩, ?_, hroutes⟩
      · rw [List.map_append]
        exact nodup_concat hcfg.listeners (hlisteners ▸ hfresh)
      · rw [List.map_append, ← hlisteners]
        rfl
  · obtain ⟨key, -, h⟩ := ok_of_bind h
    obtain ⟨client, hclient, h⟩ := ok_of_bind h
    split at h
    · simp at h
    · rename_i hfresh
      obtain rfl := Except.ok.inj h
      refine ⟨⟨hcfg.server, hcfg.clients, hcfg.listeners, ?_, ?_⟩, hlisteners, ?_⟩
      · rw [List.map_append]
        exact nodup_concat hcfg.routes (hroutes ▸ hfresh)
      · intro r' hr'
        obtain hr' | hr' := List.mem_append.mp hr'
        · exact hcfg.targets r' hr'
        · rw [List.mem_singleton.mp hr']
          exact hr.strs 0 client (ok_of_required hclient)
      · rw [List.map_append, ← hroutes]
        rfl
  · obtain ⟨id, hid, h⟩ := ok_of_bind h
    split at h
    · simp at h
    · rename_i hnamed
      obtain rfl := Except.ok.inj h
      refine ⟨⟨hcfg.server, ?_, hcfg.listeners, hcfg.routes, hcfg.targets⟩, hlisteners, hroutes⟩
      intro client hclient
      obtain hclient | hclient := List.mem_append.mp hclient
      · exact hcfg.clients client hclient
      · rw [List.mem_singleton.mp hclient]
        exact ⟨hnamed, hr.strs 0 id (ok_of_required hid), fun s hs => hr.strs 1 s hs⟩

theorem writable_default :
  default.Writable
  := ⟨by simp [default, ServerTable.empty, ServerTable.Printable], by simp [default],
    by simp [default], by simp [default], by simp [default]⟩

/-- A config that has been read can be written. -/
theorem writable_of_parse {text : List Char} {cfg : ServerConfig} (h : parse text = .ok cfg) :
  cfg.Writable
  := by
  obtain ⟨acc, hacc, rfl⟩ := ok_of_map h
  exact (keeps_sound.parseTables (P := Acc.Sound) ⟨writable_default, rfl, rfl⟩ hacc).cfg

/-! ### The file is a fixed point -/

theorem ranks_id :
  Ranks fun a b : CfgClient => decide (a.id < b.id)
  := by
  constructor
  · intro a b hab
    exact decide_eq_false (String.lt_asymm (of_decide_eq_true hab))
  · intro a b c hab hbc
    have hba := String.not_lt.mp (of_decide_eq_false hab)
    have hcb := String.not_lt.mp (of_decide_eq_false hbc)
    exact decide_eq_false (String.not_lt.mpr (String.le_trans hcb hba))

/-- The place of a key among all keys. -/
def keyRank (key : Ipv4Addr × Proto × UInt16) : ℕ :=
  (key.1.bits.toNat * 2 + protoRank key.2.1) * 2 ^ 16 + key.2.2.toNat

theorem keyLess_eq (a b : Ipv4Addr × Proto × UInt16) :
  keyLess a b = decide (keyRank a < keyRank b)
  := by
  have hrank : ∀ p, protoRank p < 2 := by
    intro p
    cases p <;> decide
  have hra := hrank a.2.1
  have hrb := hrank b.2.1
  have hpa := a.2.2.toNat_lt
  have hpb := b.2.2.toNat_lt
  rw [keyLess, keyRank, keyRank]
  split
  · rename_i hip
    rw [ne_eq, ← UInt32.toNat_inj] at hip
    rw [decide_eq_decide, UInt32.lt_iff_toNat_lt]
    omega
  · rename_i hip
    rw [not_not] at hip
    rw [hip]
    split
    · rename_i hproto
      rw [decide_eq_decide]
      omega
    · rename_i hproto
      rw [not_not] at hproto
      rw [hproto, decide_eq_decide, UInt16.lt_iff_toNat_lt]
      omega

theorem ranks_key {α : Type} (key : α → Ipv4Addr × Proto × UInt16) :
  Ranks fun a b : α => keyLess (key a) (key b)
  := by
  constructor
  · intro a b hab
    simp only [keyLess_eq, decide_eq_true_iff, decide_eq_false_iff_not] at *
    omega
  · intro a b c hab hbc
    simp only [keyLess_eq, decide_eq_false_iff_not] at *
    omega

/-- The lists of a config in another order: the clients ascend by their ids, and the listeners
and the routes by their keys. -/
structure Reorders (cfg cfg' : ServerConfig) : Prop where
  server : cfg'.server = cfg.server
  clients : cfg'.clients.Perm cfg.clients
  listeners : cfg'.listeners.Perm cfg.listeners
  routes : cfg'.routes.Perm cfg.routes
  byId : cfg'.clients.Pairwise fun a b => ¬b.id < a.id
  byListener : cfg'.listeners.Pairwise fun a b => keyLess b.key a.key = false
  byRoute : cfg'.routes.Pairwise fun a b => keyLess b.key a.key = false

theorem reorders_sorted (cfg : ServerConfig) :
  cfg.Reorders cfg.sorted where
  server := rfl
  clients := ordered_perm _ _
  listeners := ordered_perm _ _
  routes := ordered_perm _ _
  byId := by
    refine (ordered_sorted ranks_id cfg.clients).imp ?_
    intro a b hab
    exact of_decide_eq_false hab
  byListener := ordered_sorted (ranks_key CfgListener.key) cfg.listeners
  byRoute := ordered_sorted (ranks_key CfgRoute.key) cfg.routes

theorem sorted_sorted (cfg : ServerConfig) :
  cfg.sorted.sorted = cfg.sorted
  := by
  have hclients := ordered_of_sorted (ordered_sorted ranks_id cfg.clients)
  have hlisteners := ordered_of_sorted (ordered_sorted (ranks_key CfgListener.key) cfg.listeners)
  have hroutes := ordered_of_sorted (ordered_sorted (ranks_key CfgRoute.key) cfg.routes)
  rw [sorted]
  simp only [sorted, hclients, hlisteners, hroutes]

theorem serialize_sorted (cfg : ServerConfig) :
  serialize cfg.sorted = serialize cfg
  := by
  rw [serialize_eq, serialize_eq, sorted_sorted]

/-- A config that is read from a text or that can be written is read back from what is written of
it, with its lists in order, and what is written of that is the same text. -/
theorem config_round_trip :
  (∀ text cfg, parse text = .ok cfg →
      ∃ cfg', parse (serialize cfg) = .ok cfg' ∧ cfg.Reorders cfg'
        ∧ serialize cfg' = serialize cfg)
  ∧ ∀ cfg : ServerConfig, cfg.Writable →
      ∃ cfg', parse (serialize cfg) = .ok cfg' ∧ cfg.Reorders cfg'
        ∧ serialize cfg' = serialize cfg
  := by
  constructor
  · intro text cfg h
    exact ⟨cfg.sorted, parse_serialize (writable_of_parse h), reorders_sorted cfg,
      serialize_sorted cfg⟩
  · intro cfg h
    exact ⟨cfg.sorted, parse_serialize h, reorders_sorted cfg, serialize_sorted cfg⟩

/-- A config with the signs of the format in its strings, and its lists out of order. -/
def quoted : ServerConfig where
  server := ⟨some "a#b = \"c\" \\", none, none, none, some true, none⟩
  clients := [⟨"é", none⟩, ⟨"[a]", some "="⟩]
  listeners := [⟨⟨7⟩, .udp, 80⟩, ⟨⟨7⟩, .tcp, 90⟩]
  routes := [⟨⟨7⟩, .tcp, 90, "[a]"⟩]

theorem config_round_trip_quoted :
  ∃ cfg', parse (serialize quoted) = .ok cfg' ∧ quoted.Reorders cfg'
    ∧ serialize cfg' = serialize quoted
  := by
  have hwritable : quoted.Writable := by
    refine ⟨?_, ?_, by decide, by decide, ?_⟩
    · simp [quoted, ServerTable.Printable, Printable]
    · intro client hclient
      simp only [quoted, List.mem_cons, List.not_mem_nil, or_false] at hclient
      obtain rfl | rfl := hclient
      · exact ⟨by decide, by decide, by simp⟩
      · exact ⟨by decide, by decide, by simp [Printable]⟩
    · simp [quoted, Printable]
  exact config_round_trip.2 quoted hwritable

end ServerConfig

end ZeroNat.Config

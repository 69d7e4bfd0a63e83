import ZeroNat.Config.Client

/-!
# The config file of a client is read back

The text of a config is that of a document, one sheet for each table.  Reading the document gives
the config back: what a sheet leaves out is a default, or is derived from the seed as it was.
-/

namespace ZeroNat.Config

namespace ClientConfig

/-! ### The document of a config -/

/-- The secret is written when the seed does not derive it. -/
def writtenSecret (s : CfgServer) : Option String :=
  if derived ((CfgServer.parsedSeed s).map Seed.network) s.secret then none else some s.secret

/-- The credential that the seed derives for an id. -/
def derivedCredential (id : Option String) (s : CfgServer) : Option String :=
  match CfgServer.parsedSeed s, id with
  | some seed, some id => some (seed.client id)
  | _, _ => none

def writtenCredential (id : Option String) (s : CfgServer) : Option String :=
  if derived (derivedCredential id s) s.credential then none else some s.credential

def writtenDiscovery (s : CfgServer) : Option String :=
  match s.discovery with
  | some discovery =>
      if derived ((CfgServer.parsedSeed s).map Seed.discovery) discovery then none
      else some discovery
  | none => none

def clientSheet (cfg : ClientConfig) : Sheet where
  table := 0
  tdef := clientTable
  entries := List.flatten [Entry.opt (Entry.str "id" 0) cfg.id,
    Entry.opt (Entry.str "peer_secret" 1) cfg.peerSecret,
    Entry.opt (Entry.str "active" 2) cfg.active, Entry.opt (Entry.str "control" 3) cfg.control]

/-- The document has a `client` table when one of its keys has a value. -/
def clientSheets (cfg : ClientConfig) : List Sheet :=
  if (clientSheet cfg).entries = [] then [] else [clientSheet cfg]

def serverSheet (id : Option String) (s : CfgServer) : Sheet where
  table := 1
  tdef := serversTable
  entries := List.flatten [Entry.opt (Entry.str "name" 0) (some s.name),
    Entry.opt (Entry.str "addr" 1) (some s.addr), Entry.opt (Entry.str "seed" 2) s.seed,
    Entry.opt (Entry.str "secret" 3) (writtenSecret s),
    Entry.opt (Entry.str "credential" 4) (writtenCredential id s),
    Entry.opt (Entry.str "discovery" 5) (writtenDiscovery s),
    Entry.opt (Entry.transport "transport")
      (if s.transport ≠ .auto then some s.transport else none)]

def forwardSheet (f : CfgForward) : Sheet where
  table := 2
  tdef := forwardsTable
  entries := List.flatten [Entry.opt (Entry.proto "proto") (some f.proto),
    Entry.opt (Entry.int "port") (some f.port),
    Entry.opt (Entry.str "target" 0) (some f.target),
    Entry.opt (Entry.bool "enabled" 1) (if f.enabled = false then some false else none),
    Entry.opt (Entry.bool "proxy" 0) (if f.proxy then some true else none),
    Entry.opt (Entry.idle "idle") f.idle]

def pppoeSheet (p : CfgPppoe) : Sheet where
  table := 3
  tdef := pppoeTable
  entries := List.flatten [Entry.opt (Entry.str "name" 0) (some p.name),
    Entry.opt (Entry.bool "autostart" 0) (if p.autostart then some true else none),
    Entry.opt (Entry.str "username" 1) (some p.username),
    Entry.opt (Entry.str "password" 2) p.password,
    Entry.opt (Entry.str "password_file" 3) p.passwordFile,
    Entry.opt (Entry.str "service" 4) (if p.service ≠ "" then some p.service else none),
    Entry.opt (Entry.int "mtu") (if p.mtu ≠ 1492 then some p.mtu else none),
    Entry.opt (Entry.bool "default_route" 1) (if p.defaultRoute then some true else none),
    Entry.opt (Entry.bool "clamp_mss" 2) (if p.clampMss = false then some false else none),
    Entry.opt (Entry.bool "request_dns" 3) (if p.requestDns then some true else none)]

def tapSheet (tap : CfgTap) : Sheet where
  table := 4
  tdef := tapTable
  entries := List.flatten [Entry.opt (Entry.str "dev" 0) (some tap.dev)]

def tunSheet (tun : CfgTun) : Sheet where
  table := 5
  tdef := tunTable
  entries := List.flatten [Entry.opt (Entry.str "dev" 0) tun.dev,
    Entry.opt (fun a => Entry.cidr "address" a.1 a.2) tun.address,
    Entry.opt (Entry.bool "exit" 0) (if tun.exit then some true else none),
    Entry.opt (Entry.bool "exit_strict" 1) (if tun.exitStrict then some true else none),
    Entry.opt (Entry.str "exit_via" 1) tun.exitVia]

def peerSheet (peer : CfgPeer) : Sheet where
  table := 6
  tdef := peerTable
  entries := List.flatten [Entry.opt (Entry.bool "exit" 0) (if peer.exit then some true else none),
    Entry.opt (Entry.str "exit_iface" 0) peer.exitIface,
    Entry.opt (Entry.str "segment" 1) peer.segment,
    Entry.opt (Entry.strList "allow") (if peer.allow ≠ [] then some peer.allow else none)]

def doc (cfg : ClientConfig) : List Sheet :=
  clientSheets cfg ++ cfg.servers.map (serverSheet cfg.id) ++ cfg.forwards.map forwardSheet
    ++ cfg.pppoe.map pppoeSheet ++ cfg.tap.toList.map tapSheet ++ cfg.tun.toList.map tunSheet
    ++ cfg.peer.toList.map peerSheet

/-! ### The text of a document -/

theorem write_opt_ite {α : Type} (out : List Char) (f : α → Entry) (p : Prop) [Decidable p]
    (a : α) :
  Entry.write out (Entry.opt f (if p then some a else none))
    = if p then kvRaw out (f a).name (f a).text else out
  := by
  split <;> rfl

theorem putSome_ite (out : List Char) {key : String} (p : Prop) [Decidable p] (s : String) :
  putSome out key (if p then none else some s) = if p then out else kvQuoted out key s
  := by
  split <;> rfl

theorem writeSheet_serverSheet (id : Option String) (out : List Char) (s : CfgServer) :
  writeSheet out (serverSheet id s) = putServer id out s
  := by
  have hsecret : ∀ out, putSome out "secret" (writtenSecret s)
      = if derived ((CfgServer.parsedSeed s).map Seed.network) s.secret then out
        else kvQuoted out "secret" s.secret := fun out => putSome_ite out _ _
  have hcredential : ∀ out, putSome out "credential" (writtenCredential id s)
      = if derived (derivedCredential id s) s.credential then out
        else kvQuoted out "credential" s.credential := fun out => putSome_ite out _ _
  have hdiscovery : ∀ out, putSome out "discovery" (writtenDiscovery s)
      = match s.discovery with
        | some discovery =>
            if derived ((CfgServer.parsedSeed s).map Seed.discovery) discovery then out
            else kvQuoted out "discovery" discovery
        | none => out := by
    intro out
    rw [writtenDiscovery]
    cases s.discovery with
    | none => rfl
    | some discovery => exact putSome_ite out _ _
  rw [writeSheet, serverSheet, table_eq "[[servers]]" serversTable (by decide)]
  simp only [List.flatten_cons, List.flatten_nil, List.append_nil, Entry.write_append, write_str,
    write_opt_ite, hsecret, hcredential, hdiscovery]
  rfl

theorem writeSheet_forwardSheet (out : List Char) (f : CfgForward) :
  writeSheet out (forwardSheet f) = putForward out f
  := by
  rw [writeSheet, forwardSheet, table_eq "[[forwards]]" forwardsTable (by decide)]
  simp only [List.flatten_cons, List.flatten_nil, List.append_nil, Entry.write_append, write_str,
    write_opt_ite]
  rw [putForward]
  cases f.idle <;> rfl

theorem writeSheet_pppoeSheet (out : List Char) (p : CfgPppoe) :
  writeSheet out (pppoeSheet p) = putPppoe out p
  := by
  rw [writeSheet, pppoeSheet, table_eq "[[pppoe]]" pppoeTable (by decide)]
  simp only [List.flatten_cons, List.flatten_nil, List.append_nil, Entry.write_append, write_str,
    write_opt_ite]
  rfl

theorem writeSheet_tapSheet (out : List Char) (tap : CfgTap) :
  writeSheet out (tapSheet tap) = putTap out tap
  := by
  rw [writeSheet, tapSheet, table_eq "[tap]" tapTable (by decide)]
  rfl

theorem writeSheet_tunSheet (out : List Char) (tun : CfgTun) :
  writeSheet out (tunSheet tun) = putTun out tun
  := by
  rw [writeSheet, tunSheet, table_eq "[tun]" tunTable (by decide)]
  simp only [List.flatten_cons, List.flatten_nil, List.append_nil, Entry.write_append, write_str,
    write_opt_ite]
  rw [putTun]
  cases tun.address <;> rfl

theorem writeSheet_peerSheet (out : List Char) (peer : CfgPeer) :
  writeSheet out (peerSheet peer) = putPeer out peer
  := by
  rw [writeSheet, peerSheet, table_eq "[peer]" peerTable (by decide)]
  simp only [List.flatten_cons, List.flatten_nil, List.append_nil, Entry.write_append, write_str,
    write_opt_ite]
  rfl

theorem entries_clientSheet_eq_nil {cfg : ClientConfig} :
  (clientSheet cfg).entries = [] ↔ ¬ (cfg.id.isSome ∨ cfg.peerSecret.isSome ∨ cfg.active.isSome
    ∨ cfg.control.isSome)
  := by
  simp only [clientSheet, Entry.opt, List.flatten_cons, List.flatten_nil,
    List.append_eq_nil_iff, List.map_eq_nil_iff, Option.toList_eq_nil_iff, not_or,
    Option.not_isSome_iff_eq_none, and_true]

theorem foldl_clientSheets (cfg : ClientConfig) :
  (clientSheets cfg).foldl writeSheet [] = putClient [] cfg
  := by
  rw [clientSheets, putClient]
  by_cases hnil : (clientSheet cfg).entries = []
  · rw [if_pos hnil, if_neg (entries_clientSheet_eq_nil.mp hnil)]
    rfl
  · rw [if_neg hnil, if_pos (not_not.mp (mt entries_clientSheet_eq_nil.mpr hnil))]
    have htable : table [] "[client]" = [] ++ "[client]\n".toList := by rfl
    rw [List.foldl_cons, List.foldl_nil, writeSheet, clientSheet,
      table_eq "[client]" clientTable (by decide), htable]
    simp only [List.flatten_cons, List.flatten_nil, List.append_nil, Entry.write_append,
      write_str]

/-- The text of a config is that of its document. -/
theorem serialize_eq (cfg : ClientConfig) :
  serialize cfg = writeDoc (doc cfg)
  := by
  simp only [serialize, writeDoc, doc, List.foldl_append, List.foldl_map, foldl_clientSheets,
    writeSheet_serverSheet, writeSheet_forwardSheet, writeSheet_pppoeSheet, writeSheet_tapSheet,
    writeSheet_tunSheet, writeSheet_peerSheet]

/-! ### Configs that can be written -/

/-- The strings that a key may hold can be written. -/
def Opt (o : Option String) : Prop :=
  ∀ s ∈ o, Printable s

/-- A server has a name, its seed can be read, and with a seed it has a discovery. -/
structure ServerSound (s : CfgServer) : Prop where
  named : s.name ≠ ""
  name : Printable s.name
  addr : Printable s.addr
  seed : ∀ hex ∈ s.seed, ∃ seed, Seed.parse hex = .ok seed
  secret : Printable s.secret
  credential : Printable s.credential
  discovery : Opt s.discovery
  discovered : s.seed ≠ none → s.discovery ≠ none

/-- Only TCP forwards use the PROXY protocol. -/
structure ForwardSound (f : CfgForward) : Prop where
  target : Printable f.target
  idle : ∀ v ∈ f.idle, v ≠ 0
  proxied : f.proxy = true → f.proto = .tcp

/-- A session has a name, and leaves the segment size alone only with the default route. -/
structure PppoeSound (p : CfgPppoe) : Prop where
  named : p.name ≠ ""
  name : Printable p.name
  username : Printable p.username
  password : Opt p.password
  passwordFile : Opt p.passwordFile
  service : Printable p.service
  clamped : p.clampMss = false → p.defaultRoute = true

structure TapSound (tap : CfgTap) : Prop where
  named : tap.dev ≠ ""
  dev : Printable tap.dev

structure TunSound (tun : CfgTun) : Prop where
  dev : Opt tun.dev
  address : ∀ a ∈ tun.address, a.2.toNat ≤ 32
  strict : tun.exitStrict = true → tun.exit = true
  via : tun.exitVia ≠ some ""
  exitVia : Opt tun.exitVia

structure PeerSound (peer : CfgPeer) : Prop where
  named : peer.exitIface ≠ some ""
  exits : peer.exitIface ≠ none → peer.exit = true
  bridged : peer.segment ≠ some ""
  exitIface : Opt peer.exitIface
  segment : Opt peer.segment
  allow : ∀ s ∈ peer.allow, Printable s

/-- A config that can be written. -/
structure Writable (cfg : ClientConfig) : Prop where
  id : Opt cfg.id
  peerSecret : Opt cfg.peerSecret
  active : Opt cfg.active
  control : Opt cfg.control
  servers : ∀ s ∈ cfg.servers, ServerSound s
  forwards : ∀ f ∈ cfg.forwards, ForwardSound f
  pppoe : ∀ p ∈ cfg.pppoe, PppoeSound p
  tap : ∀ tap ∈ cfg.tap, TapSound tap
  tun : ∀ tun ∈ cfg.tun, TunSound tun
  peer : ∀ peer ∈ cfg.peer, PeerSound peer

/-! ### The sheets of a config can be read -/

theorem clientSheet_sound {cfg : ClientConfig} (h : cfg.Writable) :
  (clientSheet cfg).Sound grammar where
  has := (by decide : grammar.Has 0 clientTable)
  entries := by
    change ∀ e ∈ (clientSheet cfg).entries, e.Fits clientTable
    refine Entry.fits_cons (fun s hs => Entry.fits_str (by decide) (h.id s hs)) ?_
    refine Entry.fits_cons (fun s hs => Entry.fits_str (by decide) (h.peerSecret s hs)) ?_
    refine Entry.fits_cons (fun s hs => Entry.fits_str (by decide) (h.active s hs)) ?_
    exact Entry.fits_cons (fun s hs => Entry.fits_str (by decide) (h.control s hs)) Entry.fits_nil
  distinct := by
    have hsub : ((clientSheet cfg).entries.map Entry.name).Sublist
        ["id", "peer_secret", "active", "control"] := by
      repeat refine Entry.names_cons (fun _ => rfl) ?_
      exact Entry.names_nil
    exact hsub.nodup (by decide)

theorem of_mem_ite {α : Type} {p : Prop} [Decidable p] {a b : α}
    (h : b ∈ if p then some a else none) :
  p ∧ a = b
  := by
  split at h
  · rename_i hp
    exact ⟨hp, Option.some.inj h⟩
  · simp at h

theorem of_mem_writtenSecret {s : CfgServer} {t : String} (h : t ∈ writtenSecret s) :
  s.secret = t
  := by
  rw [writtenSecret] at h
  split at h
  · simp at h
  · exact Option.some.inj h

theorem of_mem_writtenCredential {id : Option String} {s : CfgServer} {t : String}
    (h : t ∈ writtenCredential id s) :
  s.credential = t
  := by
  rw [writtenCredential] at h
  split at h
  · simp at h
  · exact Option.some.inj h

theorem of_mem_writtenDiscovery {s : CfgServer} {t : String} (h : t ∈ writtenDiscovery s) :
  t ∈ s.discovery
  := by
  rw [writtenDiscovery] at h
  cases hd : s.discovery with
  | none =>
      rw [hd] at h
      simp at h
  | some discovery =>
      rw [hd] at h
      dsimp only at h
      split at h
      · simp at h
      · exact h

theorem printable_of_parse {hex : String} {seed : Seed} (h : Seed.parse hex = .ok seed) :
  Printable hex
  := by
  rw [Seed.parse] at h
  split at h
  · rename_i bytes hdecode
    exact Secret.printable_of_decode hdecode
  · simp at h

theorem serverSheet_sound {s : CfgServer} (h : ServerSound s) (id : Option String) :
  (serverSheet id s).Sound grammar where
  has := (by decide : grammar.Has 1 serversTable)
  entries := by
    change ∀ e ∈ (serverSheet id s).entries, e.Fits serversTable
    refine Entry.fits_cons (by rintro _ ⟨⟩; exact Entry.fits_str (by decide) h.name) ?_
    refine Entry.fits_cons (by rintro _ ⟨⟩; exact Entry.fits_str (by decide) h.addr) ?_
    refine Entry.fits_cons ?_ ?_
    · intro hex hhex
      obtain ⟨seed, hseed⟩ := h.seed hex hhex
      exact Entry.fits_str (by decide) (printable_of_parse hseed)
    refine Entry.fits_cons ?_ ?_
    · intro t ht
      rw [← of_mem_writtenSecret ht]
      exact Entry.fits_str (by decide) h.secret
    refine Entry.fits_cons ?_ ?_
    · intro t ht
      rw [← of_mem_writtenCredential ht]
      exact Entry.fits_str (by decide) h.credential
    refine Entry.fits_cons ?_ ?_
    · intro t ht
      exact Entry.fits_str (by decide) (h.discovery t (of_mem_writtenDiscovery ht))
    exact Entry.fits_cons (fun t _ => Entry.fits_transport (by decide) t) Entry.fits_nil
  distinct := by
    have hsub : ((serverSheet id s).entries.map Entry.name).Sublist
        ["name", "addr", "seed", "secret", "credential", "discovery", "transport"] := by
      repeat refine Entry.names_cons (fun _ => rfl) ?_
      exact Entry.names_nil
    exact hsub.nodup (by decide)

theorem forwardSheet_sound {f : CfgForward} (h : ForwardSound f) :
  (forwardSheet f).Sound grammar where
  has := (by decide : grammar.Has 2 forwardsTable)
  entries := by
    change ∀ e ∈ (forwardSheet f).entries, e.Fits forwardsTable
    refine Entry.fits_cons (fun p _ => Entry.fits_proto (by decide) p) ?_
    refine Entry.fits_cons (fun v _ => Entry.fits_int (by decide) v) ?_
    refine Entry.fits_cons (by rintro _ ⟨⟩; exact Entry.fits_str (by decide) h.target) ?_
    refine Entry.fits_cons (fun b _ => Entry.fits_bool (by decide) b) ?_
    refine Entry.fits_cons (fun b _ => Entry.fits_bool (by decide) b) ?_
    exact Entry.fits_cons (fun v hv => Entry.fits_idle (by decide) (h.idle v hv)) Entry.fits_nil
  distinct := by
    have hsub : ((forwardSheet f).entries.map Entry.name).Sublist
        ["proto", "port", "target", "enabled", "proxy", "idle"] := by
      repeat refine Entry.names_cons (fun _ => rfl) ?_
      exact Entry.names_nil
    exact hsub.nodup (by decide)

theorem pppoeSheet_sound {p : CfgPppoe} (h : PppoeSound p) :
  (pppoeSheet p).Sound grammar where
  has := (by decide : grammar.Has 3 pppoeTable)
  entries := by
    change ∀ e ∈ (pppoeSheet p).entries, e.Fits pppoeTable
    refine Entry.fits_cons (by rintro _ ⟨⟩; exact Entry.fits_str (by decide) h.name) ?_
    refine Entry.fits_cons (fun b _ => Entry.fits_bool (by decide) b) ?_
    refine Entry.fits_cons (by rintro _ ⟨⟩; exact Entry.fits_str (by decide) h.username) ?_
    refine Entry.fits_cons (fun s hs => Entry.fits_str (by decide) (h.password s hs)) ?_
    refine Entry.fits_cons (fun s hs => Entry.fits_str (by decide) (h.passwordFile s hs)) ?_
    refine Entry.fits_cons ?_ ?_
    · intro s hs
      rw [← (of_mem_ite hs).2]
      exact Entry.fits_str (by decide) h.service
    refine Entry.fits_cons (fun v _ => Entry.fits_int (by decide) v) ?_
    refine Entry.fits_cons (fun b _ => Entry.fits_bool (by decide) b) ?_
    refine Entry.fits_cons (fun b _ => Entry.fits_bool (by decide) b) ?_
    exact Entry.fits_cons (fun b _ => Entry.fits_bool (by decide) b) Entry.fits_nil
  distinct := by
    have hsub : ((pppoeSheet p).entries.map Entry.name).Sublist
        ["name", "autostart", "username", "password", "password_file", "service", "mtu",
          "default_route", "clamp_mss", "request_dns"] := by
      repeat refine Entry.names_cons (fun _ => rfl) ?_
      exact Entry.names_nil
    exact hsub.nodup (by decide)

theorem tapSheet_sound {tap : CfgTap} (h : TapSound tap) :
  (tapSheet tap).Sound grammar where
  has := (by decide : grammar.Has 4 tapTable)
  entries := by
    change ∀ e ∈ (tapSheet tap).entries, e.Fits tapTable
    exact Entry.fits_cons (by rintro _ ⟨⟩; exact Entry.fits_str (by decide) h.dev) Entry.fits_nil
  distinct := by
    change ["dev"].Nodup
    decide

theorem tunSheet_sound {tun : CfgTun} (h : TunSound tun) :
  (tunSheet tun).Sound grammar where
  has := (by decide : grammar.Has 5 tunTable)
  entries := by
    change ∀ e ∈ (tunSheet tun).entries, e.Fits tunTable
    refine Entry.fits_cons (fun s hs => Entry.fits_str (by decide) (h.dev s hs)) ?_
    refine Entry.fits_cons (fun a ha => Entry.fits_cidr (by decide) a.1 (h.address a ha)) ?_
    refine Entry.fits_cons (fun b _ => Entry.fits_bool (by decide) b) ?_
    refine Entry.fits_cons (fun b _ => Entry.fits_bool (by decide) b) ?_
    exact Entry.fits_cons (fun s hs => Entry.fits_str (by decide) (h.exitVia s hs)) Entry.fits_nil
  distinct := by
    have hsub : ((tunSheet tun).entries.map Entry.name).Sublist
        ["dev", "address", "exit", "exit_strict", "exit_via"] := by
      repeat refine Entry.names_cons (fun _ => rfl) ?_
      exact Entry.names_nil
    exact hsub.nodup (by decide)

theorem peerSheet_sound {peer : CfgPeer} (h : PeerSound peer) :
  (peerSheet peer).Sound grammar where
  has := (by decide : grammar.Has 6 peerTable)
  entries := by
    change ∀ e ∈ (peerSheet peer).entries, e.Fits peerTable
    refine Entry.fits_cons (fun b _ => Entry.fits_bool (by decide) b) ?_
    refine Entry.fits_cons (fun s hs => Entry.fits_str (by decide) (h.exitIface s hs)) ?_
    refine Entry.fits_cons (fun s hs => Entry.fits_str (by decide) (h.segment s hs)) ?_
    refine Entry.fits_cons ?_ Entry.fits_nil
    intro l hl
    rw [← (of_mem_ite hl).2]
    exact Entry.fits_strList (by decide) h.allow
  distinct := by
    have hsub : ((peerSheet peer).entries.map Entry.name).Sublist
        ["exit", "exit_iface", "segment", "allow"] := by
      repeat refine Entry.names_cons (fun _ => rfl) ?_
      exact Entry.names_nil
    exact hsub.nodup (by decide)

/-! ### Closing the records of a config -/

theorem getD_flag (b : Bool) :
  (if b = true then some true else none).getD false = b
  := by
  cases b <;> rfl

theorem getD_unset (b : Bool) :
  (if b = false then some false else none).getD true = b
  := by
  cases b <;> rfl

theorem getD_ite {α : Type} [DecidableEq α] (a d : α) :
  (if a = d then none else some a).getD d = a
  := by
  by_cases h : a = d
  · rw [if_pos h, Option.getD_none, h]
  · rw [if_neg h, Option.getD_some]

theorem closeRecord_clientSheet (acc : Acc) (cfg : ClientConfig) (n : ℕ) :
  closeRecord acc 0 (clientSheet cfg).record n
    = .ok { acc with cfg := { acc.cfg with
        id := cfg.id, peerSecret := cfg.peerSecret, active := cfg.active,
        control := cfg.control } }
  := by
  simp [closeRecord, closeClient, Sheet.record, clientSheet, Record.default, Function.update]

theorem closeRecord_forwardSheet (acc : Acc) {f : CfgForward} (h : ForwardSound f) (n : ℕ) :
  closeRecord acc 2 (forwardSheet f).record n
    = .ok { acc with cfg := { acc.cfg with forwards := acc.cfg.forwards ++ [f] } }
  := by
  obtain ⟨proto, port, target, proxy, idle, enabled⟩ := f
  have hproxied := h.proxied
  cases enabled <;> cases proxy <;>
    simp_all [closeRecord, closeForward, Sheet.record, forwardSheet, Record.default,
      Function.update, Except.map]

theorem closeRecord_pppoeSheet (acc : Acc) {p : CfgPppoe} (h : PppoeSound p) (n : ℕ) :
  closeRecord acc 3 (pppoeSheet p).record n
    = .ok { acc with cfg := { acc.cfg with pppoe := acc.cfg.pppoe ++ [p] } }
  := by
  have hclamp : ¬ (p.clampMss = false ∧ p.defaultRoute = false) := by
    rintro ⟨hunset, hroute⟩
    rw [h.clamped hunset] at hroute
    simp at hroute
  simp only [closeRecord, closePppoe, Sheet.record, pppoeSheet, Record.default, Record.required,
    List.flatten_cons, List.flatten_nil, List.append_nil, Entry.fillAll_append, Entry.fillAll_str,
    Entry.fillAll_bool, Entry.fillAll_int, Option.or_none, Function.update]
  simp [h.named, bind, Except.bind, Except.map, hclamp, getD_flag, getD_unset, getD_ite]

theorem closeRecord_tapSheet (acc : Acc) {tap : CfgTap} (h : TapSound tap) (n : ℕ) :
  closeRecord acc 4 (tapSheet tap).record n
    = .ok { acc with cfg := { acc.cfg with tap := some tap } }
  := by
  simp [closeRecord, closeTap, Sheet.record, tapSheet, Record.default, Record.required,
    Function.update, h.named, bind, Except.bind, Except.map]

theorem closeRecord_tunSheet (acc : Acc) {tun : CfgTun} (h : TunSound tun) (n : ℕ) :
  closeRecord acc 5 (tunSheet tun).record n
    = .ok { acc with cfg := { acc.cfg with tun := some tun } }
  := by
  obtain ⟨dev, address, exit, exitStrict, exitVia⟩ := tun
  have hstrict := h.strict
  have hvia := h.via
  cases exit <;> cases exitStrict <;>
    simp_all [closeRecord, closeTun, Sheet.record, tunSheet, Record.default, Function.update,
      Except.map]

theorem closeRecord_peerSheet (acc : Acc) {peer : CfgPeer} (h : PeerSound peer) (n : ℕ) :
  closeRecord acc 6 (peerSheet peer).record n
    = .ok { acc with cfg := { acc.cfg with peer := some peer } }
  := by
  have hexits : ¬ (peer.exitIface.isSome ∧ peer.exit = false) := by
    rintro ⟨hsome, hexit⟩
    rw [h.exits (Option.isSome_iff_ne_none.mp hsome)] at hexit
    simp at hexit
  simp only [closeRecord, closePeer, Sheet.record, peerSheet, Record.default,
    List.flatten_cons, List.flatten_nil, List.append_nil, Entry.fillAll_append, Entry.fillAll_str,
    Entry.fillAll_bool, Entry.fillAll_strList, Option.or_none, Function.update]
  simp [h.named, h.bridged, Except.map, hexits, getD_flag, getD_ite]

/-! ### Servers and their seeds -/

/-- The seed that the credential of a server is left to. -/
def leftTo (id : Option String) (s : CfgServer) : Option Seed :=
  if derived (derivedCredential id s) s.credential then CfgServer.parsedSeed s else none

/-- A server as it is read at first: its secret stands in for a credential that is left to the
seed. -/
def standIn (id : Option String) (s : CfgServer) : CfgServer :=
  { s with credential := (writtenCredential id s).getD s.secret }

/-- The seeds that are noted for servers from a position on. -/
def seedsFrom (id : Option String) : ℕ → List CfgServer → List (ℕ × Seed)
  | _, [] => []
  | i, s :: servers => (leftTo id s).toList.map (fun seed => (i, seed)) ++ seedsFrom id (i + 1) servers

theorem derivedCredential_of_none {id : Option String} {s : CfgServer}
    (h : CfgServer.parsedSeed s = none) :
  derivedCredential id s = none
  := by
  unfold derivedCredential
  rw [h]

/-- What is left to a seed is derived from it. -/
theorem credential_of_leftTo {id : Option String} {s : CfgServer} {seed : Seed}
    (h : leftTo id s = some seed) :
  ∃ name, id = some name ∧ s.credential = seed.client name
  := by
  rw [leftTo] at h
  split at h
  · rename_i hderived
    rw [derived, decide_eq_true_iff] at hderived
    unfold derivedCredential at hderived
    rw [h] at hderived
    cases id with
    | none => simp at hderived
    | some name => exact ⟨name, rfl, (Option.some.inj hderived).symm⟩
  · simp at h

/-- A server whose credential is left to no seed is read as it is. -/
theorem standIn_of_leftTo {id : Option String} {s : CfgServer} (h : leftTo id s = none) :
  standIn id s = s
  := by
  have hwritten : writtenCredential id s = some s.credential := by
    rw [writtenCredential]
    split
    · rename_i hderived
      rw [leftTo, if_pos hderived] at h
      rw [derivedCredential_of_none h] at hderived
      simp [derived] at hderived
    · rfl
  rw [standIn, hwritten]
  rfl

/-- The seed of the sheet of a server is read. -/
theorem serverSeed_eq {s : CfgServer} (h : ServerSound s) {record : Record}
    (hrecord : record.strs 2 = s.seed) (n : ℕ) :
  serverSeed record n
    = .ok (s.seed.bind fun hex => (CfgServer.parsedSeed s).map fun seed => (hex, seed))
  := by
  rw [serverSeed, hrecord]
  cases hs : s.seed with
  | none => rfl
  | some hex =>
      obtain ⟨seed, hseed⟩ := h.seed hex hs
      simp [CfgServer.parsedSeed, hs, hseed, Except.toOption]

/-- The secret is the one of the seed when it is left out. -/
theorem serverSecret_eq {s : CfgServer} {record : Record}
    (hrecord : record.strs 3 = writtenSecret s) (n : ℕ) :
  serverSecret record
      (s.seed.bind fun hex => (CfgServer.parsedSeed s).map fun seed => (hex, seed)) n
    = .ok s.secret
  := by
  unfold serverSecret
  rw [hrecord, writtenSecret]
  by_cases hderived : derived ((CfgServer.parsedSeed s).map Seed.network) s.secret = true
  · rw [if_pos hderived]
    rw [derived, decide_eq_true_iff, Option.map_eq_some_iff] at hderived
    obtain ⟨seed, hseed, hsecret⟩ := hderived
    have hhex : ∃ hex, s.seed = some hex := by
      rw [CfgServer.parsedSeed] at hseed
      obtain ⟨hex, hhex, -⟩ := Option.bind_eq_some_iff.mp hseed
      exact ⟨hex, hhex⟩
    obtain ⟨hex, hhex⟩ := hhex
    rw [hhex, hseed, ← hsecret]
    rfl
  · rw [if_neg hderived]

/-- The discovery is the one of the seed when it is left out. -/
theorem discovery_eq {s : CfgServer} (h : ServerSound s) :
  (writtenDiscovery s).or
      ((s.seed.bind fun hex => (CfgServer.parsedSeed s).map fun seed => (hex, seed)).map
        fun p => p.2.discovery)
    = s.discovery
  := by
  rw [writtenDiscovery]
  cases hd : s.discovery with
  | none =>
      have hnone : s.seed = none := by
        by_contra hne
        exact h.discovered hne hd
      rw [hnone]
      rfl
  | some discovery =>
      dsimp only
      split
      · rename_i hderived
        rw [derived, decide_eq_true_iff, Option.map_eq_some_iff] at hderived
        obtain ⟨seed, hseed, hdiscovery⟩ := hderived
        obtain ⟨hex, hhex, -⟩ := Option.bind_eq_some_iff.mp hseed
        rw [hhex, hseed, ← hdiscovery]
        rfl
      · rfl

theorem map_fst_seed {s : CfgServer} (h : ServerSound s) :
  (s.seed.bind fun hex => (CfgServer.parsedSeed s).map fun seed => (hex, seed)).map Prod.fst
    = s.seed
  := by
  cases hs : s.seed with
  | none => rfl
  | some hex =>
      obtain ⟨seed, hseed⟩ := h.seed hex hs
      simp [CfgServer.parsedSeed, hs, hseed, Except.toOption]

/-- The seed is noted when the credential is left to it. -/
theorem noteSeed_eq (acc : Acc) {s : CfgServer} (h : ServerSound s) (id : Option String) :
  noteSeed acc (writtenCredential id s)
      (s.seed.bind fun hex => (CfgServer.parsedSeed s).map fun seed => (hex, seed))
    = acc.seeded ++ (leftTo id s).toList.map fun seed => (acc.cfg.servers.length, seed)
  := by
  rw [writtenCredential, leftTo]
  by_cases hderived : derived (derivedCredential id s) s.credential = true
  · rw [if_pos hderived, if_pos hderived]
    cases hs : s.seed with
    | none => simp [noteSeed, CfgServer.parsedSeed, hs]
    | some hex =>
        obtain ⟨seed, hseed⟩ := h.seed hex hs
        simp [noteSeed, CfgServer.parsedSeed, hs, hseed, Except.toOption]
  · rw [if_neg hderived, if_neg hderived]
    simp [noteSeed]

theorem closeRecord_serverSheet (acc : Acc) {s : CfgServer} (h : ServerSound s)
    (id : Option String) (n : ℕ) :
  closeRecord acc 1 (serverSheet id s).record n
    = .ok ⟨{ acc.cfg with servers := acc.cfg.servers ++ [standIn id s] },
        acc.seeded ++ (leftTo id s).toList.map fun seed => (acc.cfg.servers.length, seed)⟩
  := by
  have hname : (serverSheet id s).record.strs 0 = some s.name := by
    simp [Sheet.record, serverSheet, Record.default, Function.update]
  have haddr : (serverSheet id s).record.strs 1 = some s.addr := by
    simp [Sheet.record, serverSheet, Record.default, Function.update]
  have hseed : (serverSheet id s).record.strs 2 = s.seed := by
    simp [Sheet.record, serverSheet, Record.default, Function.update]
  have hsecret : (serverSheet id s).record.strs 3 = writtenSecret s := by
    simp [Sheet.record, serverSheet, Record.default, Function.update]
  have hcredential : (serverSheet id s).record.strs 4 = writtenCredential id s := by
    simp [Sheet.record, serverSheet, Record.default, Function.update]
  have hdiscovery : (serverSheet id s).record.strs 5 = writtenDiscovery s := by
    simp [Sheet.record, serverSheet, Record.default, Function.update]
  have htransport : (serverSheet id s).record.transport.getD .auto = s.transport := by
    simp [Sheet.record, serverSheet, Record.default, getD_ite]
  rw [closeRecord, closeServer]
  simp only [Record.required, hname, haddr, serverSeed_eq h hseed, serverSecret_eq hsecret,
    bind, Except.bind, if_neg h.named, hcredential, hdiscovery, discovery_eq h, htransport,
    map_fst_seed h, noteSeed_eq acc h]
  rfl

/-! ### Reading a config back -/

/-- Records that are closed one after the other, each with its own effect. -/
theorem accepts_list {α : Type} {table : ℕ} {sheet : α → Sheet} (add : Acc → List α → Acc)
    (hnil : ∀ acc, add acc [] = acc)
    (hcons : ∀ acc a l, add (add acc [a]) l = add acc (a :: l)) {l : List α}
    (hclose : ∀ a ∈ l, ∀ acc n, closeRecord acc table (sheet a).record n = .ok (add acc [a]))
    (acc : Acc) :
  Accepts closeRecord acc (l.map fun a => (table, (sheet a).record)) (add acc l)
  := by
  induction l generalizing acc with
  | nil =>
      rw [hnil]
      exact .nil
  | cons a l ih =>
      have hrest := ih (fun b hb => hclose b (List.mem_cons_of_mem _ hb)) (add acc [a])
      rw [hcons] at hrest
      exact .cons (hclose a List.mem_cons_self acc) hrest

theorem accepts_servers (id : Option String) {servers : List CfgServer}
    (h : ∀ s ∈ servers, ServerSound s) (acc : Acc) :
  Accepts closeRecord acc (servers.map fun s => (1, (serverSheet id s).record))
    ⟨{ acc.cfg with servers := acc.cfg.servers ++ servers.map (standIn id) },
      acc.seeded ++ seedsFrom id acc.cfg.servers.length servers⟩
  := by
  induction servers generalizing acc with
  | nil => simpa [seedsFrom] using Accepts.nil
  | cons s servers ih =>
      have hrest := ih (fun t ht => h t (List.mem_cons_of_mem _ ht))
        ⟨{ acc.cfg with servers := acc.cfg.servers ++ [standIn id s] },
          acc.seeded ++ (leftTo id s).toList.map fun seed => (acc.cfg.servers.length, seed)⟩
      rw [List.append_assoc, List.append_assoc, List.length_append, List.length_singleton] at hrest
      exact .cons (closeRecord_serverSheet acc (h s List.mem_cons_self) id) hrest

theorem accepts_forwards {forwards : List CfgForward} (h : ∀ f ∈ forwards, ForwardSound f)
    (acc : Acc) :
  Accepts closeRecord acc (forwards.map fun f => (2, (forwardSheet f).record))
    { acc with cfg := { acc.cfg with forwards := acc.cfg.forwards ++ forwards } }
  := accepts_list
    (fun acc l => { acc with cfg := { acc.cfg with forwards := acc.cfg.forwards ++ l } })
    (by simp) (by simp) (fun f hf acc n => closeRecord_forwardSheet acc (h f hf) n) acc

theorem accepts_pppoe {pppoe : List CfgPppoe} (h : ∀ p ∈ pppoe, PppoeSound p) (acc : Acc) :
  Accepts closeRecord acc (pppoe.map fun p => (3, (pppoeSheet p).record))
    { acc with cfg := { acc.cfg with pppoe := acc.cfg.pppoe ++ pppoe } }
  := accepts_list
    (fun acc l => { acc with cfg := { acc.cfg with pppoe := acc.cfg.pppoe ++ l } })
    (by simp) (by simp) (fun p hp acc n => closeRecord_pppoeSheet acc (h p hp) n) acc

theorem modify_length_append {α : Type} (front : List α) (a : α) (l : List α) (f : α → α) :
  (front ++ a :: l).modify front.length f = front ++ f a :: l
  := by
  induction front with
  | nil => rfl
  | cons b front ih =>
      rw [List.cons_append, List.length_cons, List.modify_succ_cons, ih, List.cons_append]

/-- Deriving the credentials gives the servers back. -/
theorem derive_seedsFrom (id : String) (front servers : List CfgServer) :
  derive id (seedsFrom (some id) front.length servers)
      (front ++ servers.map (standIn (some id)))
    = front ++ servers
  := by
  induction servers generalizing front with
  | nil => simp [seedsFrom, derive]
  | cons s servers ih =>
      have ih' := ih (front ++ [s])
      rw [List.length_append, List.length_singleton, List.append_assoc, List.append_assoc,
        List.singleton_append, List.singleton_append] at ih'
      rw [seedsFrom, List.map_cons]
      cases hleft : leftTo (some id) s with
      | none =>
          rw [standIn_of_leftTo hleft]
          exact ih'
      | some seed =>
          obtain ⟨name, hname, hcredential⟩ := credential_of_leftTo hleft
          obtain rfl := Option.some.inj hname
          have hserver : { standIn (some id) s with credential := seed.client id } = s := by
            rw [← hcredential]
            rfl
          rw [derive, Option.toList_some, List.map_singleton, List.singleton_append,
            List.foldl_cons]
          dsimp only
          rw [modify_length_append, hserver]
          exact ih'

/-- Without seeds to note, the servers are read as they are. -/
theorem map_standIn_of_seedsFrom {id : Option String} {i : ℕ} {servers : List CfgServer}
    (h : seedsFrom id i servers = []) :
  servers.map (standIn id) = servers
  := by
  induction servers generalizing i with
  | nil => rfl
  | cons s servers ih =>
      rw [seedsFrom, List.append_eq_nil_iff, List.map_eq_nil_iff, Option.toList_eq_nil_iff] at h
      rw [List.map_cons, standIn_of_leftTo h.1, ih h.2]

/-- Seeds are noted only for a client with an id. -/
theorem id_of_seedsFrom {id : Option String} {i : ℕ} {servers : List CfgServer}
    (h : seedsFrom id i servers ≠ []) :
  ∃ name, id = some name
  := by
  induction servers generalizing i with
  | nil => exact absurd rfl h
  | cons s servers ih =>
      cases hleft : leftTo id s with
      | none =>
          rw [seedsFrom, hleft] at h
          exact ih h
      | some seed =>
          obtain ⟨name, hname, -⟩ := credential_of_leftTo hleft
          exact ⟨name, hname⟩

/-- Finishing gives the servers of a config back. -/
theorem finish_eq (cfg : ClientConfig) (count : ℕ) :
  Acc.finish ⟨{ cfg with servers := cfg.servers.map (standIn cfg.id) },
      seedsFrom cfg.id 0 cfg.servers⟩ count
    = .ok cfg
  := by
  rw [Acc.finish]
  split
  · rename_i hnil
    rw [map_standIn_of_seedsFrom hnil]
  · rename_i hne
    obtain ⟨name, hname⟩ := id_of_seedsFrom hne
    have hderive := derive_seedsFrom name [] cfg.servers
    rw [List.length_nil, List.nil_append, List.nil_append, ← hname] at hderive
    dsimp only
    rw [hname]
    dsimp only
    rw [← hname, hderive]

theorem accepts_tap {tap : Option CfgTap} (h : ∀ t ∈ tap, TapSound t) (acc : Acc)
    (hnone : acc.cfg.tap = none) :
  Accepts closeRecord acc (tap.toList.map fun t => (4, (tapSheet t).record))
    { acc with cfg := { acc.cfg with tap := tap } }
  := by
  cases tap with
  | none =>
      change Accepts closeRecord acc [] _
      rw [← hnone]
      exact .nil
  | some t => exact .cons (closeRecord_tapSheet acc (h t rfl)) .nil

theorem accepts_tun {tun : Option CfgTun} (h : ∀ t ∈ tun, TunSound t) (acc : Acc)
    (hnone : acc.cfg.tun = none) :
  Accepts closeRecord acc (tun.toList.map fun t => (5, (tunSheet t).record))
    { acc with cfg := { acc.cfg with tun := tun } }
  := by
  cases tun with
  | none =>
      change Accepts closeRecord acc [] _
      rw [← hnone]
      exact .nil
  | some t => exact .cons (closeRecord_tunSheet acc (h t rfl)) .nil

theorem accepts_peer {peer : Option CfgPeer} (h : ∀ p ∈ peer, PeerSound p) (acc : Acc)
    (hnone : acc.cfg.peer = none) :
  Accepts closeRecord acc (peer.toList.map fun p => (6, (peerSheet p).record))
    { acc with cfg := { acc.cfg with peer := peer } }
  := by
  cases peer with
  | none =>
      change Accepts closeRecord acc [] _
      rw [← hnone]
      exact .nil
  | some p => exact .cons (closeRecord_peerSheet acc (h p rfl)) .nil

theorem accepts_client (cfg : ClientConfig) :
  Accepts closeRecord Acc.empty ((clientSheets cfg).map fun s => (s.table, s.record))
    ⟨{ default with
        id := cfg.id, peerSecret := cfg.peerSecret, active := cfg.active,
        control := cfg.control }, []⟩
  := by
  rw [clientSheets]
  split
  · rename_i hnil
    rw [entries_clientSheet_eq_nil] at hnil
    simp only [not_or, Option.not_isSome_iff_eq_none] at hnil
    obtain ⟨hid, hsecret, hactive, hcontrol⟩ := hnil
    rw [hid, hsecret, hactive, hcontrol]
    exact .nil
  · exact .cons (closeRecord_clientSheet Acc.empty cfg) .nil

/-- The tables after one another: those that may appear once are in the order of the grammar. -/
theorem once_doc (cfg : ClientConfig) :
  Once (doc cfg)
  := by
  have hclient : Once (clientSheets cfg) := by
    rw [clientSheets]
    split
    · exact once_nil
    · exact once_singleton _
  have hclientTable : ∀ s ∈ clientSheets cfg, s.table = 0 := by
    intro s hs
    rw [clientSheets] at hs
    split at hs
    · simp at hs
    · rw [List.mem_singleton.mp hs]
      rfl
  have hlists : Once (clientSheets cfg ++ cfg.servers.map (serverSheet cfg.id) ++
      cfg.forwards.map forwardSheet ++ cfg.pppoe.map pppoeSheet) := by
    refine ((hclient.append ?_).append ?_).append ?_ <;>
    · intro s hmem
      obtain ⟨x, -, rfl⟩ := List.mem_map.mp hmem
      rfl
  refine ((hlists.append_option ?_).append_option ?_).append_option ?_
  all_goals
    intro s hs a
    simp only [List.mem_append, List.mem_map] at hs
  · change s.table < 4
    obtain ((hs | ⟨_, -, rfl⟩) | ⟨_, -, rfl⟩) | ⟨_, -, rfl⟩ := hs
    · rw [hclientTable s hs]
      decide
    all_goals simp [serverSheet, forwardSheet, pppoeSheet]
  · change s.table < 5
    obtain (((hs | ⟨_, -, rfl⟩) | ⟨_, -, rfl⟩) | ⟨_, -, rfl⟩) | ⟨_, -, rfl⟩ := hs
    · rw [hclientTable s hs]
      decide
    all_goals simp [serverSheet, forwardSheet, pppoeSheet, tapSheet]
  · change s.table < 6
    obtain ((((hs | ⟨_, -, rfl⟩) | ⟨_, -, rfl⟩) | ⟨_, -, rfl⟩) | ⟨_, -, rfl⟩) | ⟨_, -, rfl⟩ := hs
    · rw [hclientTable s hs]
      decide
    all_goals simp [serverSheet, forwardSheet, pppoeSheet, tapSheet, tunSheet]

/-- A config that can be written is read back. -/
theorem parse_serialize {cfg : ClientConfig} (h : cfg.Writable) :
  parse (serialize cfg) = .ok cfg
  := by
  have hsound : ∀ s ∈ doc cfg, s.Sound grammar := by
    intro s hmem
    simp only [doc, List.mem_append, List.mem_map, Option.mem_toList] at hmem
    obtain (((((hmem | ⟨server, hserver, rfl⟩) | ⟨f, hf, rfl⟩) | ⟨p, hp, rfl⟩) | ⟨tap, htap, rfl⟩) |
      ⟨tun, htun, rfl⟩) | ⟨peer, hpeer, rfl⟩ := hmem
    · rw [clientSheets] at hmem
      split at hmem
      · simp at hmem
      · rw [List.mem_singleton.mp hmem]
        exact clientSheet_sound h
    · exact serverSheet_sound (h.servers server hserver) cfg.id
    · exact forwardSheet_sound (h.forwards f hf)
    · exact pppoeSheet_sound (h.pppoe p hp)
    · exact tapSheet_sound (h.tap tap htap)
    · exact tunSheet_sound (h.tun tun htun)
    · exact peerSheet_sound (h.peer peer hpeer)
  have hacc : Accepts closeRecord Acc.empty ((doc cfg).map fun s => (s.table, s.record))
      ⟨{ cfg with servers := cfg.servers.map (standIn cfg.id) },
        seedsFrom cfg.id 0 cfg.servers⟩ := by
    simp only [doc, List.map_append, List.map_map]
    have hservers := (accepts_client cfg).append (accepts_servers cfg.id h.servers _)
    have hforwards := hservers.append (accepts_forwards h.forwards _)
    have hpppoe := hforwards.append (accepts_pppoe h.pppoe _)
    have htap := hpppoe.append (accepts_tap h.tap _ rfl)
    have htun := htap.append (accepts_tun h.tun _ rfl)
    exact htun.append (accepts_peer h.peer _ rfl)
  rw [parse, serialize_eq, parseTables_writeDoc hsound (once_doc cfg) hacc]
  exact finish_eq cfg _

/-! ### What is read can be written -/

theorem printable_derive (seed : Seed) (label : String) (suffix : List UInt8) :
  Printable (seed.derive label suffix)
  := Secret.printable_encode _

theorem printable_getD {o : Option String} {s : String} (ho : Opt o) (hs : Printable s) :
  Printable (o.getD s)
  := by
  cases o with
  | none => exact hs
  | some t => exact ho t rfl

theorem forall_mem_concat {α : Type} {P : α → Prop} {l : List α} {a : α} (h : ∀ x ∈ l, P x)
    (ha : P a) :
  ∀ x ∈ l ++ [a], P x
  := by
  intro x hx
  obtain hx | hx := List.mem_append.mp hx
  · exact h x hx
  · rw [List.mem_singleton.mp hx]
    exact ha

theorem serverSeed_spec {record : Record} {n : ℕ} {seed : Option (String × Seed)}
    (h : serverSeed record n = .ok seed) :
  ∀ p ∈ seed, Seed.parse p.1 = .ok p.2
  := by
  rw [serverSeed] at h
  split at h
  · obtain rfl := Except.ok.inj h
    simp
  · split at h
    · rename_i hseed
      obtain rfl := Except.ok.inj h
      rintro p ⟨⟩
      exact hseed
    · simp at h

theorem printable_serverSecret {record : Record} (hr : record.Sound) {n : ℕ}
    {seed : Option (String × Seed)} {secret : String}
    (h : serverSecret record seed n = .ok secret) :
  Printable secret
  := by
  unfold serverSecret at h
  split at h
  · rename_i hstr
    obtain rfl := Except.ok.inj h
    exact hr.strs 3 _ hstr
  · obtain rfl := Except.ok.inj h
    exact printable_derive _ _ _
  · simp at h

theorem closeServer_writable {acc acc' : Acc} {record : Record} {n : ℕ} (hcfg : acc.cfg.Writable)
    (hr : record.Sound) (h : closeServer acc record n = .ok acc') :
  acc'.cfg.Writable
  := by
  obtain ⟨name, hname, h⟩ := ok_of_bind h
  split at h
  · simp at h
  · rename_i hnamed
    obtain ⟨addr, haddr, h⟩ := ok_of_bind h
    obtain ⟨seed, hseed, h⟩ := ok_of_bind h
    obtain ⟨secret, hsecret, h⟩ := ok_of_bind h
    obtain rfl := Except.ok.inj h
    have hparse := serverSeed_spec hseed
    have hprintable := printable_serverSecret hr hsecret
    refine { hcfg with servers := forall_mem_concat hcfg.servers ?_ }
    refine ⟨hnamed, hr.strs 0 name (ok_of_required hname), hr.strs 1 addr (ok_of_required haddr),
      ?_, hprintable, printable_getD (hr.strs 4) hprintable, ?_, ?_⟩
    · intro hex hhex
      obtain ⟨p, hp, rfl⟩ := Option.map_eq_some_iff.mp hhex
      exact ⟨p.2, hparse p hp⟩
    · intro discovery hdiscovery
      obtain hdiscovery | ⟨-, hdiscovery⟩ := Option.or_eq_some_iff.mp hdiscovery
      · exact hr.strs 5 discovery hdiscovery
      · obtain ⟨p, -, rfl⟩ := Option.map_eq_some_iff.mp hdiscovery
        exact printable_derive _ _ _
    · intro hne heq
      obtain ⟨-, hnone⟩ := Option.or_eq_none_iff.mp heq
      rw [Option.map_eq_none_iff] at hnone
      rw [hnone] at hne
      exact hne rfl

/-- A port of the loopback address can be written. -/
theorem printable_loopback (port : UInt16) :
  Printable (String.ofList ("127.0.0.1:".toList ++ decimal port.toNat))
  := by
  have hhost : ∀ c ∈ "127.0.0.1:".toList, 0x20 ≤ c.toNat := by simp
  refine printable_ofList ?_
  intro c hc
  obtain hc | hc := List.mem_append.mp hc
  · exact hhost c hc
  · have := isDigit_bounds (isDigit_of_mem_decimal hc)
    omega

theorem closeForward_writable {cfg cfg' : ClientConfig} {record : Record} {n : ℕ}
    (hcfg : cfg.Writable) (hr : record.Sound) (h : closeForward cfg record n = .ok cfg') :
  cfg'.Writable
  := by
  unfold closeForward at h
  split at h
  · simp at h
  · simp at h
  · rename_i proto port hproto hport
    split at h
    · simp at h
    · rename_i hproxy
      obtain rfl := Except.ok.inj h
      refine { hcfg with forwards := forall_mem_concat hcfg.forwards ?_ }
      refine ⟨printable_getD (hr.strs 0) (printable_loopback port), hr.idle, ?_⟩
      intro hset
      have hsome : (record.bools 0).isSome := by
        cases hb : record.bools 0 with
        | none =>
            rw [hb] at hset
            simp at hset
        | some b => rfl
      cases proto with
      | tcp => rfl
      | udp => exact absurd ⟨hsome, rfl⟩ hproxy

theorem closePppoe_writable {cfg cfg' : ClientConfig} {record : Record} {n : ℕ}
    (hcfg : cfg.Writable) (hr : record.Sound) (h : closePppoe cfg record n = .ok cfg') :
  cfg'.Writable
  := by
  obtain ⟨name, hname, h⟩ := ok_of_bind h
  split at h
  · simp at h
  · rename_i hnamed
    obtain ⟨username, husername, h⟩ := ok_of_bind h
    dsimp only at h
    split at h
    · simp at h
    · rename_i hclamp
      obtain rfl := Except.ok.inj h
      refine { hcfg with pppoe := forall_mem_concat hcfg.pppoe ?_ }
      refine ⟨hnamed, hr.strs 0 name (ok_of_required hname),
        hr.strs 1 username (ok_of_required husername), hr.strs 2, hr.strs 3,
        printable_getD (hr.strs 4) (by simp [Printable]), ?_⟩
      intro hunset
      have hfalse : record.bools 2 = some false := by
        cases hb : record.bools 2 with
        | none =>
            rw [hb] at hunset
            simp at hunset
        | some b =>
            rw [hb] at hunset
            exact congrArg some hunset
      by_contra hroute
      exact hclamp ⟨hfalse, Bool.not_eq_true _ |>.mp hroute⟩

theorem closeTap_writable {cfg cfg' : ClientConfig} {record : Record} {n : ℕ}
    (hcfg : cfg.Writable) (hr : record.Sound) (h : closeTap cfg record n = .ok cfg') :
  cfg'.Writable
  := by
  obtain ⟨dev, hdev, h⟩ := ok_of_bind h
  split at h
  · simp at h
  · rename_i hnamed
    obtain rfl := Except.ok.inj h
    refine { hcfg with tap := ?_ }
    rintro tap ⟨⟩
    exact ⟨hnamed, hr.strs 0 dev (ok_of_required hdev)⟩

theorem closeTun_writable {cfg cfg' : ClientConfig} {record : Record} {n : ℕ}
    (hcfg : cfg.Writable) (hr : record.Sound) (h : closeTun cfg record n = .ok cfg') :
  cfg'.Writable
  := by
  rw [closeTun] at h
  split at h
  · simp at h
  · rename_i hstrict
    split at h
    · simp at h
    · rename_i hvia
      obtain rfl := Except.ok.inj h
      refine { hcfg with tun := ?_ }
      rintro tun ⟨⟩
      refine ⟨hr.strs 0, hr.address, ?_, hvia, hr.strs 1⟩
      intro hset
      by_contra hexit
      exact hstrict ⟨hset, Bool.not_eq_true _ |>.mp hexit⟩

theorem closePeer_writable {cfg cfg' : ClientConfig} {record : Record} {n : ℕ}
    (hcfg : cfg.Writable) (hr : record.Sound) (h : closePeer cfg record n = .ok cfg') :
  cfg'.Writable
  := by
  rw [closePeer] at h
  split at h
  · simp at h
  · rename_i hbridged
    dsimp only at h
    split at h
    · simp at h
    · rename_i hnamed
      split at h
      · simp at h
      · rename_i hexits
        obtain rfl := Except.ok.inj h
        refine { hcfg with peer := ?_ }
        rintro peer ⟨⟩
        refine ⟨hnamed, ?_, hbridged, hr.strs 0, hr.strs 1, ?_⟩
        · intro hne
          by_contra hexit
          exact hexits ⟨Option.isSome_iff_ne_none.mpr hne, Bool.not_eq_true _ |>.mp hexit⟩
        · intro t ht
          cases hallow : record.allow with
          | none =>
              rw [hallow] at ht
              simp at ht
          | some l =>
              rw [hallow] at ht
              exact hr.allow l hallow t ht

/-- Closing a record keeps a config writable. -/
theorem keeps_writable :
  Keeps closeRecord fun acc => acc.cfg.Writable
  := by
  intro acc i r n acc' hcfg hr h
  unfold closeRecord at h
  split at h
  · obtain rfl := Except.ok.inj h
    exact { hcfg with
      id := hr.strs 0, peerSecret := hr.strs 1, active := hr.strs 2, control := hr.strs 3 }
  · exact closeServer_writable hcfg hr h
  · obtain ⟨cfg, hclose, rfl⟩ := ok_of_map h
    exact closeForward_writable hcfg hr hclose
  · obtain ⟨cfg, hclose, rfl⟩ := ok_of_map h
    exact closePppoe_writable hcfg hr hclose
  · obtain ⟨cfg, hclose, rfl⟩ := ok_of_map h
    exact closeTap_writable hcfg hr hclose
  · obtain ⟨cfg, hclose, rfl⟩ := ok_of_map h
    exact closeTun_writable hcfg hr hclose
  · obtain ⟨cfg, hclose, rfl⟩ := ok_of_map h
    exact closePeer_writable hcfg hr hclose

theorem writable_default :
  default.Writable
  := by
  constructor <;> simp [default, Opt]

/-- Deriving a credential keeps the servers sound. -/
theorem derive_sound (id : String) (seeded : List (ℕ × Seed)) {servers : List CfgServer}
    (h : ∀ s ∈ servers, ServerSound s) :
  ∀ s ∈ derive id seeded servers, ServerSound s
  := by
  induction seeded generalizing servers with
  | nil => exact h
  | cons p seeded ih =>
      refine ih ?_
      intro s hs
      obtain ⟨i, hi⟩ := List.mem_iff_getElem?.mp hs
      rw [List.getElem?_modify] at hi
      obtain ⟨t, ht, rfl⟩ := Option.map_eq_some_iff.mp hi
      have ht := h t (List.mem_of_getElem? ht)
      split
      · exact { ht with credential := printable_derive _ _ _ }
      · exact ht

/-- A config that has been read can be written. -/
theorem writable_of_parse {text : List Char} {cfg : ClientConfig} (h : parse text = .ok cfg) :
  cfg.Writable
  := by
  obtain ⟨acc, hacc, h⟩ := ok_of_bind h
  have hcfg := keeps_writable.parseTables writable_default hacc
  rw [Acc.finish] at h
  split at h
  · obtain rfl := Except.ok.inj h
    exact hcfg
  · split at h
    · simp at h
    · obtain rfl := Except.ok.inj h
      exact { hcfg with servers := derive_sound _ _ hcfg.servers }

/-- A config that is read from a text is read back from what is written of it. -/
theorem client_round_trip (text : List Char) {cfg : ClientConfig} (h : parse text = .ok cfg) :
  parse (serialize cfg) = .ok cfg
  := parse_serialize (writable_of_parse h)

/-- A text with a server whose secret and credential are left to its seed, the credential for
an id that stands after it. -/
def seededText : List Char :=
  ("[[servers]]\nname = \"#2\" # home\naddr = \"dht\"\nseed = \""
    ++ "00112233445566778899aabbccddeeff00112233445566778899aabbccddeeff\"\n"
    ++ "[client]\nid = \"\"").toList

theorem client_round_trip_seeded :
  ∃ cfg, parse seededText = .ok cfg ∧ cfg.servers.length = 1
    ∧ parse (serialize cfg) = .ok cfg
  := by
  have hread : (parse seededText).toOption.map (fun cfg => cfg.servers.length) = some 1 := by
    decide +kernel
  obtain ⟨cfg, hcfg, hlen⟩ := Option.map_eq_some_iff.mp hread
  have hparse : parse seededText = .ok cfg := ok_of_toOption hcfg
  exact ⟨cfg, hparse, hlen, client_round_trip seededText hparse⟩

end ClientConfig

end ZeroNat.Config

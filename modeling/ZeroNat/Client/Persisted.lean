import ZeroNat.Client.Booted
import ZeroNat.Config.Restored

/-!
# Edits that can be booted from

The config of a running client is edited by the messages that are accepted.  It keeps to the rules
across its entries, and to what can be written, except for two messages: a server may be added
that uses the key of the client for its peers, and the last forward may be removed while a slot
holds what the body of the boot needs then.
-/

namespace ZeroNat.Client

open Config (CfgServer CfgForward CfgPppoe CfgTap CfgTun CfgPeer ClientConfig Printable)

/-- The slots leave alone what the body of the next boot holds. -/
def ControlState.Clear (s : ControlState) : Prop :=
  (peerClaims s.active.peers).Disjoint s.bootMode.claims

instance (s : ControlState) : Decidable s.Clear :=
  inferInstanceAs (Decidable (SlotClaims.Disjoint _ _))

/-- The secret of a server that a message adds. -/
def addedSecret : ClientMsg → Option String
  | .addServer _ _ secret _ => some secret
  | _ => none

/-- The forward that a message removes. -/
def removedForward : ClientMsg → Option (Proto × UInt16)
  | .removeForward proto port => some (proto, port)
  | _ => none

/-- A message that does not use the key for the peers for a server, nor uncover a body that the
slots contend with. -/
def ControlState.Careful (s : ControlState) (msg : ClientMsg) : Prop :=
  (∀ secret ∈ addedSecret msg, ∀ key ∈ s.persist.bind peerKey, keyOf secret ≠ some key)
    ∧ ∀ fwd ∈ removedForward msg, ∀ forwards ∈ s.forwards.remove fwd.1 fwd.2,
      (peerClaims s.active.peers).Disjoint (deriveMode forwards s.fallbackMode).claims

instance (s : ControlState) (msg : ClientMsg) : Decidable (s.Careful msg) :=
  inferInstanceAs (Decidable (_ ∧ _))

/-- The running client and its config are in step, and its config can be saved and booted from. -/
structure Persisted (files : Files) (s : ControlState) (cfg : ClientConfig) : Prop where
  inStep : InStep files s cfg
  valid : Valid cfg
  writable : cfg.Writable
  clear : s.Clear

section

variable {files : Files} {s t : ControlState} {cfg cfg' : ClientConfig} {msg : ClientMsg}

/-! ### The body of the boot -/

theorem claims_deriveMode_of_get {forwards : SharedForwards} {proto : Proto} {port : UInt16}
    {f : ForwardTarget} (h : forwards.get proto port = some f) (fallback : RunMode) :
  (deriveMode forwards fallback).claims = []
  := by
  rw [deriveMode, if_pos ((SharedForwards.anyDeclared_iff forwards).mpr ⟨proto, port, f, h⟩)]
  rfl

theorem claims_deriveMode_of_add {forwards forwards' : SharedForwards} {proto : Proto}
    {fwd : Forward} (h : forwards.add proto fwd = some forwards') (fallback : RunMode) :
  (deriveMode forwards' fallback).claims = []
  := by
  rw [SharedForwards.add] at h
  split at h
  · exact absurd h (by simp)
  · obtain rfl := Option.some.inj h
    have hget : (forwards.setMap proto ((forwards.map proto).insert fwd.port fwd.toTarget)).get
        proto fwd.port = some fwd.toTarget := by
      rw [SharedForwards.get_setMap, if_pos rfl, Table.lookup_insert_eq, if_pos rfl]
    exact claims_deriveMode_of_get hget fallback

theorem claims_deriveMode_of_setOptions {forwards forwards' : SharedForwards} {proto : Proto}
    {port : UInt16} {enabled proxy : Bool} {idle : Option ℕ}
    (h : forwards.setOptions proto port enabled proxy idle = some forwards') (fallback : RunMode) :
  (deriveMode forwards' fallback).claims = []
  := by
  rw [SharedForwards.setOptions] at h
  split at h
  · rename_i f hf
    obtain rfl := Option.some.inj h
    have hget : (forwards.setMap proto ((forwards.map proto).insert port
        { f with enabled := enabled, proxy := proxy, idle := idle })).get proto port
        = some { f with enabled := enabled, proxy := proxy, idle := idle } := by
      rw [SharedForwards.get_setMap, if_pos rfl, Table.lookup_insert_eq, if_pos rfl]
    exact claims_deriveMode_of_get hget fallback
  · exact absurd h (by simp)

/-- The slots stay clear of the body of the boot. -/
theorem clear_accepted (h : s.Clear) (hcareful : s.Careful msg)
    (haccepted : ControlState.Accepted s msg t) :
  t.Clear
  := by
  cases haccepted with
  | selectServer _ => exact h
  | setForwardOptions _ hset =>
      exact ActiveTarget.disjoint_of_claims_eq_nil _ (claims_deriveMode_of_setOptions hset _)
  | spawnPppoe hset =>
      obtain ⟨-, rfl⟩ := ActiveTarget.setMode_eq_ok hset
      exact h
  | stopSession hstop =>
      obtain ⟨-, rfl⟩ := ActiveTarget.stopPppoe_eq_some hstop
      exact h
  | addServer => exact h
  | removeServer => exact h
  | reconnect hconnect =>
      obtain ⟨-, -, rfl⟩ := ActiveTarget.connect_eq_ok hconnect
      exact h
  | connect _ hconnect =>
      obtain ⟨-, -, rfl⟩ := ActiveTarget.connect_eq_ok hconnect
      exact h
  | disconnect hdisconnect =>
      obtain rfl := ActiveTarget.disconnect_eq_some hdisconnect
      exact h
  | addForward _ _ _ _ hadd =>
      exact ActiveTarget.disjoint_of_claims_eq_nil _ (claims_deriveMode_of_add hadd _)
  | removeForward hremove => exact hcareful.2 _ rfl _ hremove
  | attachPeer _ _ _ _ _ _ hattach =>
      obtain ⟨-, -, -, hboot, rfl⟩ := (ActiveTarget.attachPeer_eq_ok _ _).mp hattach
      intro claim hclaim hmem
      change claim ∈ (peerClaims (s.active.peers ++ [_])).map Prod.fst at hmem
      rw [ActiveTarget.peerClaims_append, List.map_append] at hmem
      rcases List.mem_append.mp hmem with hmem | hmem
      · exact h claim hclaim hmem
      · exact hboot claim hmem hclaim
  | detachPeer _ hdetach =>
      obtain ⟨rfl, -⟩ := ActiveTarget.detachPeer_eq_some hdetach
      intro claim hclaim hmem
      refine h claim hclaim ?_
      exact ((ActiveTarget.sublist_peerClaims List.filter_sublist).map _).subset hmem

/-! ### The rules across the entries -/

namespace Valid

variable (h : Valid cfg)
include h

theorem setActive {name : String} (hname : ∃ s ∈ cfg.servers, s.name = name) :
  Valid { cfg with active := some name }
  := by
  refine { h with active := ?_ }
  intro name' hname'
  rw [← Option.mem_some_iff.mp hname']
  exact hname

theorem setForwards {fwds : List CfgForward}
    (hnodup : (fwds.map fun f => (f.proto, f.port)).Nodup)
    (hexclusive : cfg.tap.isSome ∨ serverTun cfg → fwds = []) :
  Valid { cfg with forwards := fwds }
  := by
  refine { h with forwards := hnodup, exclusive := ?_ }
  intro hdevice
  exact ⟨hexclusive hdevice, (h.exclusive hdevice).2⟩

theorem addServer {c : CfgServer} {key : Bytes 32} (hsecret : keyOf c.secret = some key)
    (hcredential : keyOf c.credential = some key) (hpeer : peerKey cfg ≠ some key)
    (hdiscovery : c.discovery = none) (haddr : c.addr ≠ "dht")
    (hname : ∀ s ∈ cfg.servers, s.name ≠ c.name)
    (howner : ∀ s ∈ cfg.servers, ∀ value ∈ s.discovery, keyOf value ≠ some key) :
  Valid { cfg with servers := cfg.servers ++ [c] }
  := by
  have hkeys : sessionKeys (cfg.servers ++ [c]) = sessionKeys cfg.servers ++ [key, key] := by
    rw [sessionKeys, List.flatMap_append, List.flatMap_singleton, hsecret, hcredential]
    rfl
  refine { h with keyed := ?_, names := ?_, discovered := ?_, active := ?_ }
  · apply Config.ClientConfig.forall_mem_concat h.keyed
    refine ⟨by rw [hsecret]; rfl, by rw [hcredential]; rfl, ?_⟩
    intro key' hkey'
    rw [hsecret, hcredential]
    have hne : some key ≠ some key' := fun heq => hpeer (hkey'.trans heq.symm)
    exact ⟨hne, hne⟩
  · rw [List.map_append, List.map_singleton, List.nodup_append]
    refine ⟨h.names, List.nodup_singleton _, ?_⟩
    rintro name hmem name' hmem' rfl
    obtain ⟨s, hs, hsname⟩ := List.mem_map.mp hmem
    exact hname s hs (hsname.trans (List.mem_singleton.mp hmem'))
  · intro s hs
    change Discovered (peerKey cfg) (sessionKeys (cfg.servers ++ [c])) s
    rw [hkeys]
    rcases List.mem_append.mp hs with hs | hs
    · obtain ⟨hdht, hknown, hapart⟩ := h.discovered s hs
      refine ⟨hdht, hknown, ?_⟩
      intro value hvalue key' hkey'
      obtain ⟨hfree, hpeer'⟩ := hapart value hvalue key' hkey'
      refine ⟨?_, hpeer'⟩
      intro hmem
      rcases List.mem_append.mp hmem with hmem | hmem
      · exact hfree hmem
      · have heq : key' = key := by simpa using hmem
        exact howner s hs value hvalue (heq ▸ hkey')
    · obtain rfl := List.mem_singleton.mp hs
      refine ⟨fun _ => haddr, ?_, ?_⟩
      · intro value hvalue
        rw [hdiscovery] at hvalue
        exact absurd hvalue (by simp)
      · intro value hvalue
        rw [hdiscovery] at hvalue
        exact absurd hvalue (by simp)
  · intro name hactive
    obtain ⟨s, hs, hsname⟩ := h.active name hactive
    exact ⟨s, List.mem_append_left _ hs, hsname⟩

theorem filterServers {p : CfgServer → Bool}
    (hactive : ∀ name ∈ cfg.active, ∃ s ∈ cfg.servers.filter p, s.name = name) :
  Valid { cfg with servers := cfg.servers.filter p }
  := by
  refine { h with keyed := ?_, names := ?_, discovered := ?_, active := hactive }
  · intro s hs
    exact h.keyed s (List.mem_filter.mp hs).1
  · exact h.names.sublist (List.filter_sublist.map _)
  · intro s hs
    obtain ⟨hdht, hknown, hapart⟩ := h.discovered s (List.mem_filter.mp hs).1
    refine ⟨hdht, hknown, ?_⟩
    intro value hvalue key hkey
    obtain ⟨hfree, hpeer⟩ := hapart value hvalue key hkey
    refine ⟨?_, hpeer⟩
    intro hmem
    apply hfree
    obtain ⟨s', hs', hmem⟩ := List.mem_flatMap.mp hmem
    exact List.mem_flatMap.mpr ⟨s', (List.mem_filter.mp hs').1, hmem⟩

/-- The tables of the slots are replaced by others that declare slots. -/
theorem setTables {tun : Option CfgTun} {peer : Option CfgPeer} {specs : List PeerSlotSpec}
    (hslots : peerSlots tun peer = .ok specs)
    (hsecret : hasPeerSlots { cfg with tun := tun, peer := peer } = true → cfg.peerSecret ≠ none)
    (hvia : ∀ via ∈ tun.bind CfgTun.exitVia, (keyOf via).isSome)
    (haddress : ∀ t ∈ tun, isPeer t = true → t.address = none)
    (hserver : (tun.any fun t => !isPeer t) = true → serverTun cfg = true) :
  Valid { cfg with tun := tun, peer := peer }
  := by
  refine { h with slots := hsecret, via := hvia, allow := ?_, address := haddress, devices := ?_,
                  exclusive := ?_ }
  · intro table htable
    rw [show peer = some table from htable] at hslots
    obtain ⟨allow, -, -, hallow, -⟩ := peerSlots_eq_ok.mp hslots
    exact ⟨allow, hallow⟩
  · rintro ⟨htap, htun⟩
    exact h.devices ⟨htap, hserver htun⟩
  · rintro (htap | htun)
    · exact h.exclusive (Or.inl htap)
    · exact h.exclusive (Or.inr (hserver htun))

end Valid

/-- The edit of a config decides which config a client keeps. -/
theorem eq_of_config {edit : ClientConfig → ClientConfig} (hs : s.persist = some cfg)
    (ht : (s.config edit).persist = some cfg') :
  cfg' = edit cfg
  := by
  rw [ControlState.config, hs] at ht
  exact (Option.some.inj ht).symm

theorem saveRecords_eq (tun : Option CfgTun) (peer : Option CfgPeer) (cfg : ClientConfig) :
  ControlState.saveRecords tun peer cfg = { cfg with
    tun := (ControlState.saveRecords tun peer cfg).tun
    peer := (ControlState.saveRecords tun peer cfg).peer }
  := by
  cases tun with
  | none => cases peer <;> rfl
  | some t => cases peer <;> rfl

theorem tun_saveRecords (tun : Option CfgTun) (peer : Option CfgPeer) (cfg : ClientConfig) :
  (ControlState.saveRecords tun peer cfg).tun = tun.or cfg.tun
  := by
  cases tun with
  | none => cases peer <;> rfl
  | some t => cases peer <;> rfl

/-- The consumer that an attach names is an identity, and is strict only with the default
route. -/
theorem attachFields_eq_ok {peerId dev iface : String} {want : UInt8} {exit exitStrict : Bool}
    (h : ControlState.attachFields peerId want dev exit exitStrict iface = .ok ()) :
  (peerId ≠ "" → (keyOf peerId).isSome ∧ (exitStrict = true → exit = true))
    ∧ (peerId = "" → want = providesSegment → iface ≠ "")
  := by
  rw [ControlState.attachFields] at h
  split at h
  · rename_i hprovider
    refine ⟨fun hne => absurd hprovider hne, ?_⟩
    rintro - rfl
    split at h
    · exact absurd h (by simp)
    · rw [if_neg (by decide), if_pos rfl] at h
      split at h
      · exact absurd h (by simp)
      · assumption
  · rename_i hconsumer
    refine ⟨fun _ => ?_, fun heq => absurd heq hconsumer⟩
    split at h
    · exact absurd h (by simp)
    · rename_i key hkey
      split at h
      · exact absurd h (by simp)
      · split at h
        · exact absurd h (by simp)
        · split at h
          · exact absurd h (by simp)
          · rename_i hstrict
            refine ⟨by rw [keyOf_eq_some.mpr hkey]; rfl, ?_⟩
            intro hexitStrict
            by_contra hexit
            exact hstrict ⟨hexitStrict, by simpa using hexit⟩

theorem discoveryOwner_eq_none {servers : SharedServers} {key : Bytes 32}
    (h : SharedServers.discoveryOwner servers key = none) :
  ∀ t ∈ servers, ∀ value ∈ t.discovery, keyOf value ≠ some key
  := by
  intro t ht value hvalue hkey
  have hnone := List.findSome?_eq_none_iff.mp h t ht
  rw [Option.mem_def.mp hvalue, Option.map_some, keyOf_eq_some.mp hkey] at hnone
  dsimp only at hnone
  rw [if_pos rfl] at hnone
  exact absurd hnone (by simp)

/-- No entry of the config is discovered by a secret that no profile is discovered by. -/
theorem discovery_ne {cs : List CfgServer} {ts : List ServerTarget} (h : List.Forall₂ Live cs ts)
    {key : Bytes 32} (howner : SharedServers.discoveryOwner ts key = none) :
  ∀ c ∈ cs, ∀ value ∈ c.discovery, keyOf value ≠ some key
  := by
  intro c hc value hvalue hkey
  obtain ⟨t, ht, hlive⟩ := exists_left_of_mem h.flip hc
  obtain ⟨-, -, -, -, -, hdiscovery⟩ := live_iff.mp hlive
  rw [Option.mem_def.mp hvalue] at hdiscovery
  obtain ⟨value', hvalue', hdiscovery⟩ := Config.ok_of_map hdiscovery
  refine discoveryOwner_eq_none howner t ht value' hdiscovery.symm ?_
  rw [keyOf_normalize hvalue']
  exact hkey

/-- A profile that is found has an entry. -/
theorem exists_entry (h : InStep files s cfg) {name : String} {target : ServerTarget}
    (hget : SharedServers.get s.servers name = some target) :
  ∃ c ∈ cfg.servers, c.name = name
  := by
  obtain ⟨c, hc, -⟩ := find?_live h.mirrors.servers hget
  have hname := List.find?_some hc
  exact ⟨c, List.mem_of_find?_eq_some hc, of_decide_eq_true hname⟩

/-- The entry of the active profile stays when another one is removed. -/
theorem active_filter (h : InStep files s cfg) {name : String}
    (hactive : s.active.target.name ≠ name) :
  ∀ name' ∈ cfg.active, ∃ c ∈ cfg.servers.filter (fun c => c.name ≠ name), c.name = name'
  := by
  intro name' hname'
  obtain ⟨srv, hsrv, htarget⟩ := h.mirrors.target
  rw [activeServer, Option.mem_def.mp hname'] at hsrv
  dsimp only at hsrv
  have hsrvName := List.find?_some hsrv
  refine ⟨srv, List.mem_filter.mpr ⟨List.mem_of_find?_eq_some hsrv, ?_⟩,
    of_decide_eq_true hsrvName⟩
  rw [(live_iff.mp htarget).1] at hactive
  exact decide_eq_true hactive

/-- A device takes the place of the fallback. -/
theorem not_device (h : InStep files s cfg) (hvalid : Valid cfg)
    (hfallback : ControlState.isDevice s.fallbackMode = false) :
  ¬ (cfg.tap.isSome ∨ serverTun cfg)
  := by
  intro hdevice
  have hpppoe := (hvalid.exclusive hdevice).2
  have hautostart : autostartOf cfg = none := by
    rw [autostartOf, hpppoe]
    rfl
  have hmode := h.mirrors.fallback
  rw [hautostart] at hmode
  unfold fallbackOf at hmode
  dsimp only at hmode
  split at hmode
  · rw [← Except.ok.inj hmode] at hfallback
    exact absurd hfallback (by simp [ControlState.isDevice])
  · rw [← Except.ok.inj hmode] at hfallback
    exact absurd hfallback (by simp [ControlState.isDevice])
  · rename_i htun htap
    rcases hdevice with hsome | hserver
    · rw [Option.map_eq_none_iff.mp htap] at hsome
      exact absurd hsome (by simp)
    · rw [serverTunOf, Option.map_eq_none_iff, Option.filter_eq_none_iff] at htun
      rw [serverTun, Option.any_eq_true] at hserver
      obtain ⟨t, ht, hpeer⟩ := hserver
      exact htun t ht hpeer

theorem keys_updateFirst {p : CfgForward → Bool} {edit : CfgForward → CfgForward}
    (hedit : ∀ f, (edit f).proto = f.proto ∧ (edit f).port = f.port) (fwds : List CfgForward) :
  (ControlState.updateFirst p edit fwds).map (fun f => (f.proto, f.port))
    = fwds.map fun f => (f.proto, f.port)
  := by
  induction fwds with
  | nil => rfl
  | cons f fwds ih =>
      rw [ControlState.updateFirst]
      split
      · rw [List.map_cons, List.map_cons, (hedit f).1, (hedit f).2]
      · rw [List.map_cons, List.map_cons, ih]

theorem mem_updateFirst {p : CfgForward → Bool} {edit : CfgForward → CfgForward}
    {fwds : List CfgForward} {f : CfgForward}
    (h : f ∈ ControlState.updateFirst p edit fwds) :
  f ∈ fwds ∨ ∃ f' ∈ fwds, p f' = true ∧ f = edit f'
  := by
  induction fwds with
  | nil => exact absurd h List.not_mem_nil
  | cons g fwds ih =>
      rw [ControlState.updateFirst] at h
      split at h
      · rename_i hp
        rcases List.mem_cons.mp h with rfl | h
        · exact Or.inr ⟨g, List.mem_cons_self, hp, rfl⟩
        · exact Or.inl (List.mem_cons_of_mem g h)
      · rcases List.mem_cons.mp h with rfl | h
        · exact Or.inl List.mem_cons_self
        · rcases ih h with h | ⟨f', hf', hp, rfl⟩
          · exact Or.inl (List.mem_cons_of_mem g h)
          · exact Or.inr ⟨f', List.mem_cons_of_mem g hf', hp, rfl⟩

/-- The key of a forward that is added is free. -/
theorem not_mem_keys (h : InStep files s cfg) {f : CfgForward} {forwards : SharedForwards}
    (hadd : s.forwards.add f.proto (forwardOf f) = some forwards) :
  (f.proto, f.port) ∉ cfg.forwards.map fun f => (f.proto, f.port)
  := by
  intro hmem
  obtain ⟨f', hf', heq⟩ := List.mem_map.mp hmem
  rw [SharedForwards.add] at hadd
  split at hadd
  · exact absurd hadd (by simp)
  · rename_i hnone
    have hlookup : s.forwards.get f.proto f.port = none := hnone
    rw [h.mirrors.forwards, declared, Option.map_eq_none_iff, List.find?_eq_none] at hlookup
    obtain ⟨hproto, hport⟩ := Prod.mk.inj heq
    exact hlookup f' hf' (decide_eq_true ⟨hproto, hport⟩)

theorem valid_attachPeer (h : Persisted files s cfg) {peerId dev iface : String} {want : UInt8}
    {exit exitStrict : Bool} {tun : Option CfgTun} {peer : Option CfgPeer}
    {specs : List PeerSlotSpec} (hsecret : s.hasPeerSecret = true)
    (hfields : ControlState.attachFields peerId want dev exit exitStrict iface = .ok ())
    (hrecords : s.attachRecords peerId want dev exit exitStrict iface = .ok (tun, peer))
    (hslots : peerSlots (ControlState.saveRecords tun peer cfg).tun
      (ControlState.saveRecords tun peer cfg).peer = .ok specs) :
  Valid (ControlState.saveRecords tun peer cfg)
  := by
  rw [saveRecords_eq]
  have hknown : cfg.peerSecret ≠ none := by
    rw [h.inStep.mirrors.peerSecret] at hsecret
    exact Option.isSome_iff_ne_none.mp hsecret
  have htun := tun_saveRecords tun peer cfg
  rcases attachRecords_eq_ok hrecords with ⟨hpeerId, rfl, -⟩ | ⟨-, rfl, -⟩
  · rw [Option.some_or] at htun
    apply h.valid.setTables hslots (fun _ => hknown)
    · rw [htun]
      intro via hvia
      rw [← Option.mem_some_iff.mp hvia]
      exact ((attachFields_eq_ok hfields).1 hpeerId).1
    · rw [htun]
      intro t ht _
      rw [← Option.mem_some_iff.mp ht]
    · rw [htun]
      exact fun hserver => absurd hserver (by simp [isPeer])
  · rw [Option.none_or] at htun
    apply h.valid.setTables hslots (fun _ => hknown)
    · rw [htun]
      exact h.valid.via
    · rw [htun]
      exact h.valid.address
    · rw [htun]
      exact id

theorem valid_detachPeer (h : Persisted files s cfg) {peerId : String} {want : UInt8}
    {specs : List PeerSlotSpec}
    (hslots : peerSlots (if peerId = "" then cfg.tun else none)
      (if peerId = "" then cfg.peer.bind fun peer =>
        ControlState.dropEmpty (ControlState.clearPeer want peer) else cfg.peer) = .ok specs) :
  Valid { cfg with
    tun := if peerId = "" then cfg.tun else none
    peer := if peerId = "" then cfg.peer.bind fun peer =>
      ControlState.dropEmpty (ControlState.clearPeer want peer) else cfg.peer }
  := by
  split at hslots
  · rename_i hpeerId
    rw [if_pos hpeerId, if_pos hpeerId]
    apply h.valid.setTables hslots ?_ h.valid.via h.valid.address id
    intro hpeers
    apply h.valid.slots
    rw [hasPeerSlots, Bool.or_eq_true] at hpeers ⊢
    refine hpeers.imp id ?_
    intro hany
    obtain ⟨peer', hpeer', hprovides⟩ := (Option.any_eq_true _ _).mp hany
    obtain ⟨peer, hpeer, hdrop⟩ := Option.bind_eq_some_iff.mp hpeer'
    rw [ControlState.dropEmpty] at hdrop
    split at hdrop
    · exact absurd hdrop (by simp)
    · rw [← Option.some.inj hdrop, ControlState.clearPeer] at hprovides
      rw [hpeer, Option.any_some, Bool.or_eq_true]
      split at hprovides
      · exact Or.inr (by simpa using hprovides)
      · exact Or.inl (by simpa using hprovides)
  · rename_i hpeerId
    rw [if_neg hpeerId, if_neg hpeerId]
    apply h.valid.setTables hslots
    · intro hpeers
      apply h.valid.slots
      rw [hasPeerSlots, Bool.or_eq_true] at hpeers ⊢
      exact hpeers.imp (fun hany => absurd hany (by simp)) id
    · exact fun via hvia => absurd hvia (by simp)
    · exact fun t ht => absurd ht (by simp)
    · exact fun hserver => absurd hserver (by simp)

theorem detach_eq (cfg : ClientConfig) (peerId : String) (want : UInt8) :
  (if peerId = "" then
      { cfg with peer := cfg.peer.bind fun peer =>
          ControlState.dropEmpty (ControlState.clearPeer want peer) }
    else { cfg with tun := none })
    = { cfg with
        tun := if peerId = "" then cfg.tun else none
        peer := if peerId = "" then cfg.peer.bind fun peer =>
          ControlState.dropEmpty (ControlState.clearPeer want peer) else cfg.peer }
  := by
  split
  · rfl
  · rfl

/-- The config that a message leaves keeps the rules across its entries. -/
theorem valid_accepted (h : Persisted files s cfg) (hcareful : s.Careful msg)
    (haccepted : ControlState.Accepted s msg t) (ht : InStep files t cfg') :
  Valid cfg'
  := by
  have hs := h.inStep.mirrors.config
  have hconfig := ht.mirrors.config
  have hsame (hpersist : t.persist = s.persist) : Valid cfg' := by
    rw [hpersist, hs] at hconfig
    exact Option.some.inj hconfig ▸ h.valid
  cases haccepted with
  | selectServer hget =>
      obtain rfl := eq_of_config hs hconfig
      exact h.valid.setActive (exists_entry h.inStep hget)
  | setForwardOptions _ hset =>
      obtain rfl := eq_of_config hs hconfig
      apply h.valid.setForwards
      · rw [keys_updateFirst]
        · exact h.valid.forwards
        · exact fun _ => ⟨rfl, rfl⟩
      · intro hdevice
        rw [(h.valid.exclusive hdevice).1]
        rfl
  | spawnPppoe _ => exact hsame rfl
  | stopSession _ => exact hsame rfl
  | @addServer name addr secret secret' transport key servers _ _ hnormal haddr _ hkey howner
      hadd =>
      obtain rfl := eq_of_config hs hconfig
      have hkeyOf : keyOf secret' = some key := keyOf_eq_some.mpr hkey
      refine h.valid.addServer hkeyOf hkeyOf ?_ rfl haddr ?_
        (discovery_ne h.inStep.mirrors.servers howner)
      · intro hpeer
        refine hcareful.1 secret rfl key ?_ ?_
        · rw [hs]
          exact hpeer
        · rw [← keyOf_normalize hnormal]
          exact hkeyOf
      · intro c hc hname
        rw [SharedServers.add] at hadd
        split at hadd
        · exact absurd hadd (by simp)
        · rename_i hnew
          obtain ⟨t', ht', hlive⟩ := exists_left_of_mem h.inStep.mirrors.servers.flip hc
          apply hnew
          rw [List.any_eq_true]
          exact ⟨t', ht', decide_eq_true ((live_iff.mp hlive).1.trans hname)⟩
  | removeServer hactive _ =>
      obtain rfl := eq_of_config hs hconfig
      exact h.valid.filterServers (active_filter h.inStep hactive)
  | reconnect _ => exact hsame rfl
  | connect hget _ =>
      obtain rfl := eq_of_config hs hconfig
      exact h.valid.setActive (exists_entry h.inStep hget)
  | disconnect _ => exact hsame rfl
  | @addForward proto port target proxy enabled idleSecs forwards _ _ _ hdevice hadd =>
      obtain rfl := eq_of_config hs hconfig
      apply h.valid.setForwards
      · have hfree := not_mem_keys (f := ⟨proto, port, ControlState.forwardTarget port target,
          proxy, ControlState.idleOf idleSecs, enabled⟩) h.inStep hadd
        rw [List.map_append, List.map_singleton, List.nodup_append]
        refine ⟨h.valid.forwards, List.nodup_singleton _, ?_⟩
        rintro key hkey key' hkey' rfl
        exact hfree (List.mem_singleton.mp hkey' ▸ hkey)
      · exact fun hany => absurd hany (not_device h.inStep h.valid hdevice)
  | removeForward _ =>
      obtain rfl := eq_of_config hs hconfig
      apply h.valid.setForwards
      · exact h.valid.forwards.sublist (List.filter_sublist.map _)
      · intro hany
        rw [(h.valid.exclusive hany).1]
        rfl
  | attachPeer _ hsecret _ hfields hrecords _ _ =>
      obtain rfl := eq_of_config hs hconfig
      obtain ⟨specs, hslots, -⟩ := ht.mirrors.slots
      exact valid_attachPeer h hsecret hfields hrecords hslots
  | detachPeer _ _ =>
      obtain rfl := eq_of_config hs hconfig
      obtain ⟨specs, hslots, -⟩ := ht.mirrors.slots
      rw [detach_eq] at hslots ⊢
      exact valid_detachPeer h hslots

/-! ### What can be written -/

theorem printable_of_not_control {value : String}
    (h : value.toList.any ControlState.isControl = false) :
  Printable value
  := by
  intro c hc
  have hcontrol := List.any_eq_false.mp h c hc
  rw [ControlState.isControl, Bool.not_eq_true, Bool.or_eq_false_iff] at hcontrol
  exact Nat.le_of_not_lt (of_decide_eq_false hcontrol.1)

/-- Values of which none has a control character can be written. -/
theorem printable_of_controlled {fields : List (String × String)}
    (h : ControlState.controlled fields = none) :
  ∀ field ∈ fields, Printable field.2
  := by
  intro field hfield
  rw [ControlState.controlled, Option.map_eq_none_iff, List.find?_eq_none] at h
  exact printable_of_not_control (Bool.eq_false_iff.mpr (h field hfield))

theorem opt_optional {value : String} (h : Printable value) :
  ClientConfig.Opt (ControlState.optional value)
  := by
  rw [ControlState.optional]
  split
  · exact fun _ hs => absurd hs (by simp)
  · rintro _ ⟨⟩
    exact h

theorem optional_ne (value : String) :
  ControlState.optional value ≠ some ""
  := by
  rw [ControlState.optional]
  split
  · simp
  · rename_i hne
    simpa using hne

theorem idleOf_ne_zero (secs : UInt32) :
  ∀ v ∈ ControlState.idleOf secs, v ≠ 0
  := by
  rw [ControlState.idleOf]
  split
  · exact fun v hv => absurd hv (by simp)
  · rename_i hne
    rintro _ ⟨⟩
    exact hne

theorem proxied {proto : Proto} {proxy : Bool} (h : ¬ (proxy ∧ proto = .udp)) :
  proxy = true → proto = .tcp
  := by
  intro hproxy
  cases proto with
  | tcp => rfl
  | udp => exact absurd ⟨hproxy, rfl⟩ h

/-- The table of a provider that is attached can be written. -/
theorem peerSound_mergePeer {saved record : CfgPeer} (hsaved : ClientConfig.PeerSound saved)
    (hrecord : ClientConfig.PeerSound record) :
  ClientConfig.PeerSound (ControlState.mergePeer saved record)
  := by
  have hexit : ClientConfig.PeerSound
      (if record.exit then { saved with exit := true, exitIface := record.exitIface }
        else saved) := by
    split
    · exact ⟨hrecord.named, fun _ => rfl, hsaved.bridged, hrecord.exitIface, hsaved.segment,
        hsaved.allow⟩
    · exact hsaved
  rw [ControlState.mergePeer]
  split
  · exact ⟨hexit.named, hexit.exits, hrecord.bridged, hexit.exitIface, hrecord.segment,
      hexit.allow⟩
  · exact hexit

theorem peerSound_emptyPeer :
  ClientConfig.PeerSound ControlState.emptyPeer
  := ⟨by simp [ControlState.emptyPeer], fun h => absurd rfl h, by simp [ControlState.emptyPeer],
    fun _ h => absurd h (by simp [ControlState.emptyPeer]),
    fun _ h => absurd h (by simp [ControlState.emptyPeer]),
    fun _ h => absurd h (by simp [ControlState.emptyPeer])⟩

theorem peerSound_clearPeer {saved : CfgPeer} (hsaved : ClientConfig.PeerSound saved)
    (want : UInt8) :
  ClientConfig.PeerSound (ControlState.clearPeer want saved)
  := by
  rw [ControlState.clearPeer]
  split
  · exact ⟨by simp, fun h => absurd rfl h, hsaved.bridged, fun _ h => absurd h (by simp),
      hsaved.segment, hsaved.allow⟩
  · exact ⟨hsaved.named, hsaved.exits, by simp, hsaved.exitIface, fun _ h => absurd h (by simp),
      hsaved.allow⟩

/-- The allowlist that is saved can be written. -/
theorem printable_savedAllow (hs : s.persist = some cfg) (h : cfg.Writable) :
  ∀ entry ∈ s.savedAllow, Printable entry
  := by
  rw [ControlState.savedAllow, hs]
  dsimp only
  split
  · rename_i saved hsaved
    exact (h.peer saved hsaved).allow
  · exact fun _ hentry => absurd hentry List.not_mem_nil

/-- The records of an attach can be written. -/
theorem sound_attachRecords (hs : s.persist = some cfg) (h : cfg.Writable)
    {peerId dev iface : String} {want : UInt8} {exit exitStrict : Bool} {tun : Option CfgTun}
    {peer : Option CfgPeer}
    (hplain : ControlState.controlled [("peer", peerId), ("dev", dev), ("iface", iface)] = none)
    (hfields : ControlState.attachFields peerId want dev exit exitStrict iface = .ok ())
    (hrecords : s.attachRecords peerId want dev exit exitStrict iface = .ok (tun, peer)) :
  (∀ t ∈ tun, ClientConfig.TunSound t) ∧ ∀ p ∈ peer, ClientConfig.PeerSound p
  := by
  have hprintable := printable_of_controlled hplain
  rw [List.forall_mem_cons, List.forall_mem_cons, List.forall_mem_cons] at hprintable
  obtain ⟨hpeerId, hdev, hiface, -⟩ := hprintable
  obtain ⟨hconsumer, hprovider⟩ := attachFields_eq_ok hfields
  have hallow := printable_savedAllow hs h
  rcases attachRecords_eq_ok hrecords with ⟨hne, rfl, rfl⟩ | ⟨heq, rfl, hrecord⟩
  · refine ⟨?_, fun _ hp => absurd hp (by simp)⟩
    rintro _ ⟨⟩
    refine ⟨opt_optional hdev, fun _ ha => absurd ha (by simp), (hconsumer hne).2, ?_, ?_⟩
    · simpa using hne
    · rintro _ ⟨⟩
      exact hpeerId
  · refine ⟨fun _ ht => absurd ht (by simp), ?_⟩
    rcases hrecord with ⟨-, rfl⟩ | ⟨hwant, rfl⟩
    · rintro _ ⟨⟩
      exact ⟨optional_ne iface, fun _ => rfl, by simp, opt_optional hiface,
        fun _ hsegment => absurd hsegment (by simp), hallow⟩
    · rintro _ ⟨⟩
      refine ⟨by simp, fun hiface => absurd rfl hiface, ?_, fun _ hiface => absurd hiface (by simp),
        ?_, hallow⟩
      · simpa using hprovider heq hwant
      · rintro _ ⟨⟩
        exact hiface

theorem writable_saveRecords (h : cfg.Writable) {tun : Option CfgTun} {peer : Option CfgPeer}
    (htun : ∀ t ∈ tun, ClientConfig.TunSound t) (hpeer : ∀ p ∈ peer, ClientConfig.PeerSound p) :
  (ControlState.saveRecords tun peer cfg).Writable
  := by
  have hmerged : ∀ record, ClientConfig.PeerSound record →
      ClientConfig.PeerSound
        (ControlState.mergePeer (cfg.peer.getD ControlState.emptyPeer) record) := by
    intro record hrecord
    apply peerSound_mergePeer ?_ hrecord
    cases hsaved : cfg.peer with
    | none => exact peerSound_emptyPeer
    | some saved => exact h.peer saved hsaved
  cases tun with
  | none =>
      cases peer with
      | none => exact h
      | some record =>
          refine { h with peer := ?_ }
          rintro _ ⟨⟩
          exact hmerged record (hpeer record rfl)
  | some t =>
      cases peer with
      | none => exact { h with tun := htun }
      | some record =>
          refine { h with tun := htun, peer := ?_ }
          rintro _ ⟨⟩
          exact hmerged record (hpeer record rfl)

/-- The config that a message leaves can be written. -/
theorem writable_accepted (h : Persisted files s cfg) (haccepted : ControlState.Accepted s msg t)
    (hconfig : t.persist = some cfg') :
  cfg'.Writable
  := by
  have hs := h.inStep.mirrors.config
  have hsame (hpersist : t.persist = s.persist) : cfg'.Writable := by
    rw [hpersist, hs] at hconfig
    exact Option.some.inj hconfig ▸ h.writable
  have hname {name : String} {target : ServerTarget}
      (hget : SharedServers.get s.servers name = some target) :
      ({ cfg with active := some name } : ClientConfig).Writable := by
    refine { h.writable with active := ?_ }
    rintro _ ⟨⟩
    obtain ⟨c, hc, rfl⟩ := exists_entry h.inStep hget
    exact (h.writable.servers c hc).name
  cases haccepted with
  | selectServer hget =>
      obtain rfl := eq_of_config hs hconfig
      exact hname hget
  | setForwardOptions hproxy _ =>
      obtain rfl := eq_of_config hs hconfig
      refine { h.writable with forwards := ?_ }
      intro f hf
      rcases mem_updateFirst hf with hf | ⟨f', hf', hkey, rfl⟩
      · exact h.writable.forwards f hf
      · refine ⟨(h.writable.forwards f' hf').target, idleOf_ne_zero _, ?_⟩
        rw [(of_decide_eq_true hkey).1]
        exact proxied hproxy
  | spawnPppoe _ => exact hsame rfl
  | stopSession _ => exact hsame rfl
  | addServer hnamed hplain hnormal =>
      obtain rfl := eq_of_config hs hconfig
      have hprintable := printable_of_controlled hplain
      rw [List.forall_mem_cons, List.forall_mem_cons] at hprintable
      obtain ⟨bytes, -, rfl⟩ := Secret.decode_of_normalize hnormal
      refine { h.writable with
        servers := Config.ClientConfig.forall_mem_concat h.writable.servers ?_ }
      exact ⟨hnamed, hprintable.1, hprintable.2.1, fun _ hseed => absurd hseed (by simp),
        Secret.printable_encode bytes, Secret.printable_encode bytes,
        fun _ hdiscovery => absurd hdiscovery (by simp), fun hseed => absurd rfl hseed⟩
  | removeServer _ _ =>
      obtain rfl := eq_of_config hs hconfig
      refine { h.writable with servers := ?_ }
      intro c hc
      exact h.writable.servers c (List.mem_filter.mp hc).1
  | reconnect _ => exact hsame rfl
  | connect hget _ =>
      obtain rfl := eq_of_config hs hconfig
      exact hname hget
  | disconnect _ => exact hsame rfl
  | addForward hproxy _ hplain _ _ =>
      obtain rfl := eq_of_config hs hconfig
      refine { h.writable with
        forwards := Config.ClientConfig.forall_mem_concat h.writable.forwards ?_ }
      exact ⟨printable_of_not_control hplain, idleOf_ne_zero _, proxied hproxy⟩
  | removeForward _ =>
      obtain rfl := eq_of_config hs hconfig
      refine { h.writable with forwards := ?_ }
      intro f hf
      exact h.writable.forwards f (List.mem_filter.mp hf).1
  | attachPeer hplain _ _ hfields hrecords _ _ =>
      obtain rfl := eq_of_config hs hconfig
      obtain ⟨htun, hpeer⟩ := sound_attachRecords hs h.writable hplain hfields hrecords
      exact writable_saveRecords h.writable htun hpeer
  | detachPeer _ _ =>
      obtain rfl := eq_of_config hs hconfig
      split
      · refine { h.writable with peer := ?_ }
        intro peer hpeer
        obtain ⟨saved, hsaved, hdrop⟩ := Option.bind_eq_some_iff.mp hpeer
        rw [ControlState.dropEmpty] at hdrop
        split at hdrop
        · exact absurd hdrop (by simp)
        · rw [← Option.some.inj hdrop]
          exact peerSound_clearPeer (h.writable.peer saved hsaved) _
      · exact { h.writable with tun := fun _ ht => absurd ht (by simp) }

/-- A message that is accepted with care leaves a config that can be saved and booted from. -/
theorem Persisted.accepted (h : Persisted files s cfg) (hcareful : s.Careful msg)
    (haccepted : ControlState.Accepted s msg t) :
  ∃ cfg', Persisted files t cfg'
  := by
  obtain ⟨cfg', ht⟩ := h.inStep.accepted haccepted
  exact ⟨cfg', ht, valid_accepted h hcareful haccepted ht,
    writable_accepted h haccepted ht.mirrors.config, clear_accepted h.clear hcareful haccepted⟩

theorem careful_of_none (hsecret : addedSecret msg = none) (hforward : removedForward msg = none) :
  s.Careful msg
  := by
  rw [ControlState.Careful, hsecret, hforward]
  exact ⟨fun _ h => absurd h (by simp), fun _ h => absurd h (by simp)⟩

/-- A message that leaves a config that boots is careful. -/
theorem careful_of_valid (h : Persisted files s cfg) (haccepted : ControlState.Accepted s msg t)
    (ht : InStep files t cfg') (hvalid : Valid cfg') (hclear : t.Clear) :
  s.Careful msg
  := by
  cases haccepted with
  | @addServer name addr secret secret' transport key servers _ _ hnormal =>
      refine ⟨?_, fun _ hforward => absurd hforward (by simp [removedForward])⟩
      rintro _ ⟨⟩ peer hpeer
      have hs := h.inStep.mirrors.config
      obtain rfl := eq_of_config hs ht.mirrors.config
      rw [hs] at hpeer
      have hkeyed := hvalid.keyed _ (List.mem_append_right _ (List.mem_singleton_self _))
      rw [← keyOf_normalize hnormal]
      exact (hkeyed.apart peer hpeer).1
  | removeForward hremove =>
      refine ⟨fun _ hsecret => absurd hsecret (by simp [addedSecret]), ?_⟩
      rintro _ ⟨⟩ forwards hforwards
      rw [← Option.some.inj (hremove.symm.trans hforwards)]
      exact hclear
  | _ => exact careful_of_none rfl rfl

end

end ZeroNat.Client

import ZeroNat.Client.Mirrored

/-!
# Configs that boot

When the rules across the entries of a config hold, and when a client boots from it.
-/

namespace ZeroNat.Client

open Config (CfgServer CfgForward CfgPppoe CfgTap CfgTun CfgPeer ClientConfig)

/-! ### Secrets -/

/-- The key that a secret spells. -/
def keyOf (secret : String) : Option (Bytes 32) :=
  (Secret.decode secret).toOption

theorem keyOf_eq_some {secret : String} {key : Bytes 32} :
  keyOf secret = some key ↔ Secret.decode secret = .ok key
  := by
  rw [keyOf]
  cases Secret.decode secret with
  | error e => simp [Except.toOption]
  | ok bytes => simp [Except.toOption]

theorem decodeOpt_eq_ok {secret : Option String} {wrap : String → String}
    {key : Option (Bytes 32)} :
  decodeOpt secret wrap = .ok key
    ↔ key = secret.bind keyOf ∧ ∀ value ∈ secret, (keyOf value).isSome
  := by
  cases secret with
  | none =>
      rw [decodeOpt, Except.ok.injEq]
      exact ⟨fun h => ⟨h.symm, fun _ h => absurd h (by simp)⟩, fun h => h.1.symm⟩
  | some value =>
      rw [decodeOpt, Option.bind_some]
      cases hdecode : Secret.decode value with
      | error e =>
          have hnone : keyOf value = none := by
            rw [keyOf, hdecode]
            rfl
          refine ⟨fun h => absurd h (by simp [Except.map, Except.mapError]), ?_⟩
          rintro ⟨-, hsome⟩
          have hvalue := hsome value rfl
          rw [hnone] at hvalue
          exact absurd hvalue (by simp)
      | ok bytes =>
          have hsome : keyOf value = some bytes := keyOf_eq_some.mpr hdecode
          rw [hsome]
          constructor
          · intro h
            refine ⟨(Except.ok.inj h).symm, ?_⟩
            intro value' hvalue'
            rw [← Option.mem_some_iff.mp hvalue', hsome]
            rfl
          · rintro ⟨rfl, -⟩
            rfl

theorem mapError_decode_eq_ok {secret : String} {wrap : String → String} {key : Bytes 32} :
  (Secret.decode secret).mapError wrap = .ok key ↔ keyOf secret = some key
  := by
  rw [keyOf_eq_some]
  cases Secret.decode secret with
  | error e => simp [Except.mapError]
  | ok bytes => simp [Except.mapError]

/-! ### Servers -/

/-- The session keys of servers. -/
def sessionKeys (servers : List CfgServer) : List (Bytes 32) :=
  servers.flatMap fun s => (keyOf s.secret).toList ++ (keyOf s.credential).toList

theorem sessionKeys_cons {s : CfgServer} {servers : List CfgServer} {secret credential : Bytes 32}
    (hsecret : keyOf s.secret = some secret) (hcredential : keyOf s.credential = some credential) :
  sessionKeys (s :: servers) = [secret, credential] ++ sessionKeys servers
  := by
  rw [sessionKeys, List.flatMap_cons, hsecret, hcredential]
  rfl

/-- The secrets of a server can be read, and none of them is the secret of the client. -/
structure Keyed (peerSecret : Option (Bytes 32)) (s : CfgServer) : Prop where
  secret : (keyOf s.secret).isSome
  credential : (keyOf s.credential).isSome
  apart : ∀ key ∈ peerSecret, keyOf s.secret ≠ some key ∧ keyOf s.credential ≠ some key

theorem checkServers_eq_ok (peerSecret : Option (Bytes 32)) (names : List String)
    (keys : List (Bytes 32)) (servers : List CfgServer) (result : List (Bytes 32))
    (hnames : names.Nodup) :
  checkServers peerSecret names keys servers = .ok result
    ↔ (∀ s ∈ servers, Keyed peerSecret s) ∧ (names ++ servers.map CfgServer.name).Nodup
      ∧ result = keys ++ sessionKeys servers
  := by
  induction servers generalizing names keys with
  | nil =>
      rw [checkServers, List.map_nil, List.append_nil, sessionKeys, List.flatMap_nil,
        List.append_nil, Except.ok.injEq]
      exact ⟨fun h => ⟨fun _ h => absurd h List.not_mem_nil, hnames, h.symm⟩, fun h => h.2.2.symm⟩
  | cons s servers ih =>
      have happend : names ++ (s :: servers).map CfgServer.name
          = names ++ [s.name] ++ servers.map CfgServer.name := by
        rw [List.map_cons, List.append_assoc, List.singleton_append]
      rw [checkServers, happend, List.forall_mem_cons]
      constructor
      · intro h
        obtain ⟨secret, hsecret, h⟩ := Config.ok_of_bind h
        obtain ⟨credential, hcredential, h⟩ := Config.ok_of_bind h
        rw [mapError_decode_eq_ok] at hsecret hcredential
        split at h
        · exact absurd h (by simp)
        · rename_i hapart
          split at h
          · exact absurd h (by simp)
          · rename_i hname
            have hnext : (names ++ [s.name]).Nodup := by
              rw [List.nodup_append]
              refine ⟨hnames, List.nodup_singleton _, ?_⟩
              rintro name hmem name' hmem' rfl
              exact hname (List.mem_singleton.mp hmem' ▸ hmem)
            obtain ⟨hkeyed, hnodup, rfl⟩ := (ih _ _ hnext).mp h
            refine ⟨⟨⟨?_, ?_, ?_⟩, hkeyed⟩, hnodup, ?_⟩
            · rw [hsecret]
              rfl
            · rw [hcredential]
              rfl
            · rintro key hkey
              rw [hsecret, hcredential]
              rw [not_or] at hapart
              exact ⟨fun heq => hapart.1 ((Option.mem_def.mp hkey).trans heq.symm),
                fun heq => hapart.2 ((Option.mem_def.mp hkey).trans heq.symm)⟩
            · rw [sessionKeys_cons hsecret hcredential, List.append_assoc]
      · rintro ⟨⟨hs, hkeyed⟩, hnodup, rfl⟩
        obtain ⟨secret, hsecret⟩ := Option.isSome_iff_exists.mp hs.secret
        obtain ⟨credential, hcredential⟩ := Option.isSome_iff_exists.mp hs.credential
        have hfirst : (names ++ [s.name]).Nodup := (List.nodup_append.mp hnodup).1
        rw [mapError_decode_eq_ok.mpr hsecret]
        change (Secret.decode s.credential).mapError _ >>= _ = _
        rw [mapError_decode_eq_ok.mpr hcredential]
        change ite _ _ _ = _
        rw [if_neg, if_neg]
        · refine (ih _ _ hfirst).mpr ⟨hkeyed, hnodup, ?_⟩
          rw [sessionKeys_cons hsecret hcredential, List.append_assoc]
        · intro hmem
          rw [List.nodup_append] at hfirst
          exact hfirst.2.2 s.name hmem s.name List.mem_cons_self rfl
        · rintro (heq | heq)
          · exact (hs.apart secret heq).1 hsecret
          · exact (hs.apart credential heq).2 hcredential

/-- The discovery of a server can be read and is no other secret, and a server that is found by
it has one. -/
structure Discovered (peerSecret : Option (Bytes 32)) (keys : List (Bytes 32)) (s : CfgServer) :
    Prop where
  dht : s.discovery = none → s.addr ≠ "dht"
  known : ∀ value ∈ s.discovery, (keyOf value).isSome
  apart : ∀ value ∈ s.discovery, ∀ key ∈ keyOf value, key ∉ keys ∧ peerSecret ≠ some key

theorem checkDiscoveries_eq_ok (peerSecret : Option (Bytes 32)) (keys : List (Bytes 32))
    (servers : List CfgServer) :
  checkDiscoveries peerSecret keys servers = .ok ()
    ↔ ∀ s ∈ servers, Discovered peerSecret keys s
  := by
  induction servers with
  | nil => exact ⟨fun _ _ h => absurd h List.not_mem_nil, fun _ => rfl⟩
  | cons s servers ih =>
      rw [checkDiscoveries, List.forall_mem_cons, ← ih]
      constructor
      · intro h
        obtain ⟨discovery, hdiscovery, h⟩ := Config.ok_of_bind h
        obtain ⟨rfl, hknown⟩ := decodeOpt_eq_ok.mp hdiscovery
        split at h
        · rename_i hnone
          split at h
          · exact absurd h (by simp)
          · rename_i haddr
            refine ⟨⟨fun _ => haddr, hknown, ?_⟩, h⟩
            intro value hvalue key hkey
            rw [Option.mem_def.mp hvalue, Option.bind_some, Option.mem_def.mp hkey] at hnone
            exact absurd hnone (by simp)
        · rename_i discovery hsome
          split at h
          · exact absurd h (by simp)
          · rename_i hapart
            rw [not_or] at hapart
            refine ⟨⟨?_, hknown, ?_⟩, h⟩
            · intro hnone
              rw [hnone] at hsome
              exact absurd hsome (by simp)
            · intro value hvalue key hkey
              rw [Option.mem_def.mp hvalue, Option.bind_some, Option.mem_def.mp hkey] at hsome
              exact Option.some.inj hsome ▸ hapart
      · rintro ⟨hs, h⟩
        rw [decodeOpt_eq_ok.mpr ⟨rfl, hs.known⟩]
        cases hvalue : s.discovery with
        | none =>
            change ite _ _ _ = _
            rw [if_neg (hs.dht hvalue)]
            exact h
        | some value =>
            obtain ⟨key, hkey⟩ := Option.isSome_iff_exists.mp (hs.known value hvalue)
            obtain ⟨hkeys, hpeer⟩ := hs.apart value hvalue key hkey
            rw [Option.bind_some, hkey]
            change ite _ _ _ = _
            rw [if_neg (not_or.mpr ⟨hkeys, hpeer⟩)]
            exact h

/-! ### The other entries -/

theorem checkForwards_eq_ok (seen : List (Proto × UInt16)) (forwards : List CfgForward)
    (hseen : seen.Nodup) :
  checkForwards seen forwards = .ok ()
    ↔ (seen ++ forwards.map fun f => (f.proto, f.port)).Nodup
  := by
  induction forwards generalizing seen with
  | nil =>
      rw [List.map_nil, List.append_nil]
      exact ⟨fun _ => hseen, fun _ => rfl⟩
  | cons f forwards ih =>
      have happend : seen ++ (f :: forwards).map (fun f => (f.proto, f.port))
          = seen ++ [(f.proto, f.port)] ++ forwards.map fun f => (f.proto, f.port) := by
        rw [List.map_cons, List.append_assoc, List.singleton_append]
      rw [checkForwards, happend]
      split
      · rename_i hmem
        refine ⟨fun h => absurd h (by simp), ?_⟩
        intro hnodup
        have hfirst := (List.nodup_append.mp hnodup).1
        exact absurd rfl ((List.nodup_append.mp hfirst).2.2 _ hmem _ List.mem_cons_self)
      · rename_i hmem
        apply ih
        rw [List.nodup_append]
        refine ⟨hseen, List.nodup_singleton _, ?_⟩
        rintro key hkey key' hkey' rfl
        exact hmem (List.mem_singleton.mp hkey' ▸ hkey)

theorem checkSessions_eq_ok (seen : List String) (pppoe : List CfgPppoe) (hseen : seen.Nodup) :
  checkSessions seen pppoe = .ok () ↔ (seen ++ pppoe.map CfgPppoe.name).Nodup
  := by
  induction pppoe generalizing seen with
  | nil =>
      rw [List.map_nil, List.append_nil]
      exact ⟨fun _ => hseen, fun _ => rfl⟩
  | cons p pppoe ih =>
      have happend : seen ++ (p :: pppoe).map CfgPppoe.name
          = seen ++ [p.name] ++ pppoe.map CfgPppoe.name := by
        rw [List.map_cons, List.append_assoc, List.singleton_append]
      rw [checkSessions, happend]
      split
      · rename_i hmem
        refine ⟨fun h => absurd h (by simp), ?_⟩
        intro hnodup
        have hfirst := (List.nodup_append.mp hnodup).1
        exact absurd rfl ((List.nodup_append.mp hfirst).2.2 _ hmem _ List.mem_cons_self)
      · rename_i hmem
        apply ih
        rw [List.nodup_append]
        refine ⟨hseen, List.nodup_singleton _, ?_⟩
        rintro key hkey key' hkey' rfl
        exact hmem (List.mem_singleton.mp hkey' ▸ hkey)

/-- The key of a client for its peers. -/
def peerKey (cfg : ClientConfig) : Option (Bytes 32) :=
  cfg.peerSecret.bind keyOf

/-- The rules across the entries of a config hold. -/
structure Valid (cfg : ClientConfig) : Prop where
  peerSecret : ∀ value ∈ cfg.peerSecret, (keyOf value).isSome
  slots : hasPeerSlots cfg = true → cfg.peerSecret ≠ none
  via : ∀ peer ∈ cfg.tun.bind CfgTun.exitVia, (keyOf peer).isSome
  allow : ∀ peer ∈ cfg.peer, ∃ allow, CfgPeer.allowIdentities peer = .ok allow
  keyed : ∀ s ∈ cfg.servers, Keyed (peerKey cfg) s
  names : (cfg.servers.map CfgServer.name).Nodup
  discovered : ∀ s ∈ cfg.servers, Discovered (peerKey cfg) (sessionKeys cfg.servers) s
  active : ∀ name ∈ cfg.active, ∃ s ∈ cfg.servers, s.name = name
  forwards : (cfg.forwards.map fun f => (f.proto, f.port)).Nodup
  sessions : (cfg.pppoe.map CfgPppoe.name).Nodup
  autostart : cfg.pppoe.countP CfgPppoe.autostart ≤ 1
  address : ∀ tun ∈ cfg.tun, isPeer tun = true → tun.address = none
  devices : ¬ (cfg.tap.isSome ∧ serverTun cfg)
  exclusive : cfg.tap.isSome ∨ serverTun cfg → cfg.forwards = [] ∧ cfg.pppoe = []

theorem checkExitVia_eq_ok (cfg : ClientConfig) :
  checkExitVia cfg = .ok () ↔ ∀ peer ∈ cfg.tun.bind CfgTun.exitVia, (keyOf peer).isSome
  := by
  rw [checkExitVia]
  cases cfg.tun.bind CfgTun.exitVia with
  | none => exact ⟨fun _ _ h => absurd h (by simp), fun _ => rfl⟩
  | some peer =>
      simp only [Option.mem_some_iff, forall_eq']
      rw [keyOf]
      cases Secret.decode peer with
      | error e => simp [Except.toOption]
      | ok bytes => simp [Except.toOption]

theorem checkAllow_eq_ok (cfg : ClientConfig) :
  checkAllow cfg = .ok () ↔ ∀ peer ∈ cfg.peer, ∃ allow, CfgPeer.allowIdentities peer = .ok allow
  := by
  rw [checkAllow]
  cases cfg.peer with
  | none => exact ⟨fun _ _ h => absurd h (by simp), fun _ => rfl⟩
  | some peer =>
      simp only [Option.mem_some_iff, forall_eq']
      cases CfgPeer.allowIdentities peer with
      | error e => simp [Except.map]
      | ok allow => simp [Except.map]

theorem checkActive_eq_ok (cfg : ClientConfig) :
  checkActive cfg = .ok () ↔ ∀ name ∈ cfg.active, ∃ s ∈ cfg.servers, s.name = name
  := by
  rw [checkActive]
  cases cfg.active with
  | none => exact ⟨fun _ _ h => absurd h (by simp), fun _ => rfl⟩
  | some name =>
      simp only [Option.mem_some_iff, forall_eq']
      split
      · rename_i hany
        simpa using hany
      · rename_i hany
        simpa using hany

theorem checkDevices_eq_ok (cfg : ClientConfig) :
  checkDevices cfg = .ok ()
    ↔ (∀ tun ∈ cfg.tun, isPeer tun = true → tun.address = none)
      ∧ ¬ (cfg.tap.isSome ∧ serverTun cfg)
      ∧ (cfg.tap.isSome ∨ serverTun cfg → cfg.forwards = [] ∧ cfg.pppoe = [])
  := by
  have haddress : cfg.tun.any (fun tun => isPeer tun && tun.address.isSome) = true
      ↔ ¬ ∀ tun ∈ cfg.tun, isPeer tun = true → tun.address = none := by
    cases cfg.tun with
    | none => simp
    | some tun => cases htun : tun.address <;> simp [htun]
  rw [checkDevices]
  split
  · rename_i hany
    exact ⟨fun h => absurd h (by simp), fun h => absurd h.1 (haddress.mp hany)⟩
  · rename_i hany
    have hnone := not_not.mp (mt haddress.mpr hany)
    split
    · rename_i hboth
      exact ⟨fun h => absurd h (by simp), fun h => absurd hboth h.2.1⟩
    · rename_i hboth
      split
      · rename_i hexclusive
        refine ⟨fun h => absurd h (by simp), ?_⟩
        rintro ⟨-, -, h⟩
        obtain ⟨hforwards, hpppoe⟩ := h hexclusive.1
        exact absurd hexclusive.2 (not_or.mpr ⟨not_not.mpr hforwards, not_not.mpr hpppoe⟩)
      · rename_i hexclusive
        refine ⟨fun _ => ⟨hnone, hboth, ?_⟩, fun _ => rfl⟩
        intro hdevice
        by_contra hnot
        apply hexclusive
        refine ⟨hdevice, ?_⟩
        by_contra hneither
        rw [not_or, not_not, not_not] at hneither
        exact hnot hneither

/-- When a config is found to be free of contradictions. -/
theorem validate_eq_ok (cfg : ClientConfig) :
  validate cfg = .ok () ↔ Valid cfg
  := by
  rw [validate]
  constructor
  · intro h
    obtain ⟨peerSecret, hdecode, h⟩ := Config.ok_of_bind h
    obtain ⟨rfl, hknown⟩ := decodeOpt_eq_ok.mp hdecode
    split at h
    · exact absurd h (by simp)
    · rename_i hslots
      obtain ⟨⟨⟩, hvia, h⟩ := Config.ok_of_bind h
      obtain ⟨⟨⟩, hallow, h⟩ := Config.ok_of_bind h
      obtain ⟨keys, hservers, h⟩ := Config.ok_of_bind h
      obtain ⟨hkeyed, hnames, rfl⟩ := (checkServers_eq_ok _ _ _ _ _ List.nodup_nil).mp hservers
      obtain ⟨⟨⟩, hdiscovered, h⟩ := Config.ok_of_bind h
      obtain ⟨⟨⟩, hactive, h⟩ := Config.ok_of_bind h
      obtain ⟨⟨⟩, hforwards, h⟩ := Config.ok_of_bind h
      obtain ⟨⟨⟩, hsessions, h⟩ := Config.ok_of_bind h
      split at h
      · exact absurd h (by simp)
      · rename_i hautostart
        obtain ⟨haddress, hdevices, hexclusive⟩ := (checkDevices_eq_ok cfg).mp h
        refine ⟨hknown, ?_, (checkExitVia_eq_ok cfg).mp hvia, (checkAllow_eq_ok cfg).mp hallow,
          hkeyed, hnames, (checkDiscoveries_eq_ok _ _ _).mp hdiscovered,
          (checkActive_eq_ok cfg).mp hactive, (checkForwards_eq_ok _ _ List.nodup_nil).mp hforwards,
          (checkSessions_eq_ok _ _ List.nodup_nil).mp hsessions, Nat.le_of_not_lt hautostart,
          haddress, hdevices, hexclusive⟩
        intro hpeers hnone
        apply hslots
        refine ⟨hpeers, ?_⟩
        rw [hnone]
        rfl
  · intro h
    rw [decodeOpt_eq_ok.mpr ⟨rfl, h.peerSecret⟩]
    change ite _ _ _ = _
    rw [if_neg]
    · rw [(checkExitVia_eq_ok cfg).mpr h.via]
      change checkAllow cfg >>= _ = _
      rw [(checkAllow_eq_ok cfg).mpr h.allow]
      change checkServers _ _ _ _ >>= _ = _
      rw [show cfg.peerSecret.bind keyOf = peerKey cfg from rfl,
        (checkServers_eq_ok _ _ _ _ _ List.nodup_nil).mpr ⟨h.keyed, h.names, rfl⟩, List.nil_append]
      change checkDiscoveries _ _ _ >>= _ = _
      rw [(checkDiscoveries_eq_ok _ _ _).mpr h.discovered]
      change checkActive cfg >>= _ = _
      rw [(checkActive_eq_ok cfg).mpr h.active]
      change checkForwards _ _ >>= _ = _
      rw [(checkForwards_eq_ok _ _ List.nodup_nil).mpr h.forwards]
      change checkSessions _ _ >>= _ = _
      rw [(checkSessions_eq_ok _ _ List.nodup_nil).mpr h.sessions]
      change ite _ _ _ = _
      rw [if_neg (Nat.not_lt.mpr h.autostart)]
      exact (checkDevices_eq_ok cfg).mpr ⟨h.address, h.devices, h.exclusive⟩
    · rintro ⟨hpeers, hnone⟩
      obtain ⟨value, hvalue⟩ := Option.ne_none_iff_exists'.mp (h.slots hpeers)
      have hsome := h.peerSecret value hvalue
      rw [hvalue, Option.bind_some] at hnone
      rw [hnone] at hsome
      exact absurd hsome (by simp)

end ZeroNat.Client

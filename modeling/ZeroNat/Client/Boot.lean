import ZeroNat.Client.Switching

/-!
# The boot of a client from its file

A file that can be read is checked for contradictions, and its tables become what the client
runs: the forwards, the profiles, the slots, the PPPoE sessions, and the body of the session.
-/

namespace ZeroNat.Client

open Config (CfgServer CfgForward CfgPppoe CfgTap CfgTun CfgPeer ClientConfig)

/-! ### The rules across the entries of a file -/

/-- The table feeds a consumer slot, rather than the server slot. -/
def isPeer (tun : CfgTun) : Bool :=
  tun.exitVia.isSome

/-- The table of the tun feeds the server slot. -/
def serverTun (cfg : ClientConfig) : Bool :=
  cfg.tun.any fun tun => !isPeer tun

def hasPeerSlots (cfg : ClientConfig) : Bool :=
  cfg.tun.any isPeer || cfg.peer.any fun peer => peer.exit || peer.segment.isSome

def protoName : Proto → String
  | .tcp => "tcp"
  | .udp => "udp"

def serverErr (name what : String) : String :=
  "server `" ++ name ++ "` " ++ what

/-- Decode a secret that may be left out. -/
def decodeOpt (secret : Option String) (wrap : String → String) :
    Except String (Option (Bytes 32)) :=
  match secret with
  | none => .ok none
  | some secret => ((Secret.decode secret).map some).mapError wrap

/-- Go through the servers, with the names and the session keys of those before. -/
def checkServers (peerSecret : Option (Bytes 32)) (names : List String)
    (keys : List (Bytes 32)) : List CfgServer → Except String (List (Bytes 32))
  | [] => .ok keys
  | s :: rest => do
      let secret ← (Secret.decode s.secret).mapError (serverErr s.name)
      let credential ← (Secret.decode s.credential).mapError fun e =>
        serverErr s.name ("client credential " ++ e)
      if peerSecret = some secret ∨ peerSecret = some credential then
        .error ("[client] peer_secret must differ from the secret and credential for server `"
          ++ s.name ++ "`")
      else if s.name ∈ names then .error ("duplicate server name `" ++ s.name ++ "`")
      else checkServers peerSecret (names ++ [s.name]) (keys ++ [secret, credential]) rest

/-- The discovery credentials are no other secrets of the file. -/
def checkDiscoveries (peerSecret : Option (Bytes 32)) (keys : List (Bytes 32)) :
    List CfgServer → Except String Unit
  | [] => .ok ()
  | s :: rest => do
      let discovery ← decodeOpt s.discovery fun e => serverErr s.name ("`discovery` " ++ e)
      match discovery with
      | none =>
          if s.addr = "dht" then
            .error (serverErr s.name "uses addr = \"dht\" and needs a `discovery` credential")
          else checkDiscoveries peerSecret keys rest
      | some discovery =>
          if discovery ∈ keys ∨ peerSecret = some discovery then
            .error (serverErr s.name
              "`discovery` must differ from every secret and credential in the file")
          else checkDiscoveries peerSecret keys rest

def checkForwards (seen : List (Proto × UInt16)) : List CfgForward → Except String Unit
  | [] => .ok ()
  | f :: rest =>
      if (f.proto, f.port) ∈ seen then
        .error ("duplicate forward " ++ protoName f.proto ++ " " ++ toString f.port.toNat)
      else checkForwards (seen ++ [(f.proto, f.port)]) rest

def checkSessions (seen : List String) : List CfgPppoe → Except String Unit
  | [] => .ok ()
  | p :: rest =>
      if p.name ∈ seen then .error ("duplicate pppoe name `" ++ p.name ++ "`")
      else checkSessions (seen ++ [p.name]) rest

def checkExitVia (cfg : ClientConfig) : Except String Unit :=
  match cfg.tun.bind CfgTun.exitVia with
  | none => .ok ()
  | some peer =>
      match Secret.decode peer with
      | .ok _ => .ok ()
      | .error _ => .error "[tun] exit_via must be a 64-hex peer identity"

def checkAllow (cfg : ClientConfig) : Except String Unit :=
  match cfg.peer with
  | none => .ok ()
  | some peer => (CfgPeer.allowIdentities peer).map fun _ => ()

def checkActive (cfg : ClientConfig) : Except String Unit :=
  match cfg.active with
  | none => .ok ()
  | some active =>
      if cfg.servers.any fun s => s.name = active then .ok ()
      else
        .error ("active = " ++ String.ofList (Config.quote active)
          ++ " names no [[servers]] entry")

/-- The devices of a file exclude each other, and forwards and sessions. -/
def checkDevices (cfg : ClientConfig) : Except String Unit :=
  if cfg.tun.any (fun tun => isPeer tun && tun.address.isSome) then
    .error "[tun] `address` cannot be combined with `exit_via`"
  else if cfg.tap.isSome ∧ serverTun cfg then .error "[tap] and [tun] are mutually exclusive"
  else if (cfg.tap.isSome ∨ serverTun cfg) ∧ (cfg.forwards ≠ [] ∨ cfg.pppoe ≠ []) then
    .error "[tap]/[tun] cannot be combined with [[forwards]] or [[pppoe]]"
  else .ok ()

def validate (cfg : ClientConfig) : Except String Unit := do
  let peerSecret ← decodeOpt cfg.peerSecret fun e => "[client] peer_secret " ++ e
  if hasPeerSlots cfg ∧ peerSecret = none then
    .error "[client] peer_secret is required when peer sessions are configured"
  else do
    checkExitVia cfg
    checkAllow cfg
    let keys ← checkServers peerSecret [] [] cfg.servers
    checkDiscoveries peerSecret keys cfg.servers
    checkActive cfg
    checkForwards [] cfg.forwards
    checkSessions [] cfg.pppoe
    if 1 < cfg.pppoe.countP CfgPppoe.autostart then
      .error "more than one [[pppoe]] entry sets autostart = true"
    else checkDevices cfg

/-! ### PPPoE sessions -/

def pppoeOverhead : ℕ := 8

def minEffectiveMtu : ℕ := 1280

/-- A line ending at the end is left out. -/
def trimOneLineEnding (bytes : List UInt8) : List UInt8 :=
  if bytes.getLast? = some 0x0a then
    let bytes := bytes.dropLast
    if bytes.getLast? = some 0x0d then bytes.dropLast else bytes
  else bytes

/-- The files of the host: what is read at a path, or why it is not. -/
abbrev Files : Type :=
  String → Except String (List UInt8)

/-- Resolve the entry of a PPPoE session.  A password in a file is preferred. -/
def pppoeFromEntry (files : Files) (p : CfgPppoe) : Except String PppoeRunConfig :=
  if p.password = none ∧ p.passwordFile = none then
    .error ("pppoe '" ++ p.name ++ "' needs `password` or `password_file`")
  else do
    let password ← match p.passwordFile with
      | some path =>
          ((files path).map trimOneLineEnding).mapError fun e =>
            "reading [[pppoe]] password_file " ++ path ++ ": " ++ e
      | none => .ok ((p.password.getD "").toUTF8.toList)
    let effective := min p.mtu.toNat (defaultTapMtu - pppoeOverhead)
    if effective < minEffectiveMtu then
      .error ("tunnel MTU " ++ toString defaultTapMtu ++ " too small for PPPoE: needs at least "
        ++ toString (minEffectiveMtu + pppoeOverhead))
    else
      .ok {
        username := p.username.toUTF8.toList
        password := password
        serviceName := p.service.toUTF8.toList
        acName := none
        tunName := "zppp0"
        effectiveMtu := .ofNat effective
        defaultRoute := p.defaultRoute
        clampMss := if p.defaultRoute ∧ p.clampMss then some (.ofNat (max (effective - 40) 536))
          else none
        requestDns := p.requestDns }

/-! ### Settings -/

/-- The server to dial at boot. -/
def activeServer (cfg : ClientConfig) : Option CfgServer :=
  match cfg.active with
  | some name => cfg.servers.find? fun s => s.name = name
  | none => cfg.servers.head?

def forwardOf (f : CfgForward) : Forward :=
  ⟨f.port, f.target, f.proxy, f.idle.map UInt32.toNat, f.enabled⟩

/-- The forwards of each protocol. -/
def splitForwards (fwds : List CfgForward) : List Forward × List Forward :=
  ((fwds.filter fun f => f.proto = .tcp).map forwardOf,
    (fwds.filter fun f => f.proto = .udp).map forwardOf)

def serverTarget (s : CfgServer) : ServerTarget :=
  ⟨s.name, s.addr, s.secret, s.credential, s.discovery, s.transport⟩

structure ClientSettings where
  servers : List ServerTarget
  tcp : List Forward
  udp : List Forward
  tap : Option TapConfig
  tun : Option ClientTun
  pppoe : List (String × PppoeRunConfig)
  autostart : Option String
  peerSecret : Option String
  config : Option ClientConfig
  peers : List PeerSlotSpec

def tapOf (tap : CfgTap) : TapConfig :=
  ⟨tap.dev, defaultTapMtu, none⟩

def tunOf (tun : CfgTun) : ClientTun :=
  ⟨tun.dev.getD defaultTunName, defaultTapMtu, tun.address, tun.exit, tun.exitStrict⟩

/-- The tun of the server slot. -/
def serverTunOf (cfg : ClientConfig) : Option ClientTun :=
  (cfg.tun.filter fun tun => !isPeer tun).map tunOf

/-- The session that starts by itself. -/
def autostartOf (cfg : ClientConfig) : Option String :=
  (cfg.pppoe.find? CfgPppoe.autostart).map CfgPppoe.name

/-- The sessions that can be spawned. -/
def sessionsOf (files : Files) (cfg : ClientConfig) :
    Except String (List (String × PppoeRunConfig)) :=
  cfg.pppoe.mapM fun p => (pppoeFromEntry files p).map fun c => (p.name, c)

/-- The settings of a client whose shape the file declares. -/
def bootFromFile (files : Files) (file : ClientConfig) :
    Except String (ServerTarget × ClientSettings) :=
  match activeServer file with
  | none => .error "config declares no [[servers]] entry to dial"
  | some srv => do
      let peers ← peerSlots file.tun file.peer
      let pppoe ← sessionsOf files file
      .ok (serverTarget srv, {
        servers := file.servers.map serverTarget
        tcp := (splitForwards file.forwards).1
        udp := (splitForwards file.forwards).2
        tap := file.tap.map tapOf
        tun := serverTunOf file
        pppoe := pppoe
        autostart := autostartOf file
        peerSecret := file.peerSecret
        config := some file
        peers := peers })

/-! ### The state of a running client -/

/-- What the admin socket answers from.  The file of the client is kept as it was read, and is
edited together with the rest. -/
structure ControlState where
  active : ActiveTarget
  forwards : SharedForwards
  servers : SharedServers
  pppoe : List (String × PppoeRunConfig)
  fallbackMode : RunMode
  hasPeerSecret : Bool
  persist : Option ClientConfig
deriving DecidableEq

/-- The body that a connect installs. -/
def ControlState.bootMode (s : ControlState) : RunMode :=
  deriveMode s.forwards s.fallbackMode

/-- The body that is left when a PPPoE session is stopped. -/
def ControlState.baseMode (s : ControlState) : RunMode :=
  deriveMode s.forwards .idle

def normalizeOpt : Option String → Except String (Option String)
  | none => .ok none
  | some secret => (Secret.normalize secret).map some

/-- The secrets of a profile in their normal form. -/
def normalizeTarget (t : ServerTarget) : Except String ServerTarget := do
  let secret ← Secret.normalize t.secret
  let credential ← Secret.normalize t.credential
  let discovery ← normalizeOpt t.discovery
  .ok { t with secret := secret, credential := credential, discovery := discovery }

/-- A secret of the profile is the given one. -/
def knows (secret : Bytes 32) (t : ServerTarget) : Bool :=
  (Secret.decode t.secret).toOption = some secret
    || (Secret.decode t.credential).toOption = some secret
    || t.discovery.any fun d => (Secret.decode d).toOption = some secret

/-- The boot body without the forwards: the session that starts by itself, or the device, or
nothing. -/
def fallbackOf (autostart : Option String) (pppoe : List (String × PppoeRunConfig))
    (tun : Option ClientTun) (tap : Option TapConfig) : Except String RunMode :=
  match autostart with
  | some name =>
      match pppoe.find? fun p => p.1 = name with
      | some (_, config) => .ok (.pppoe name config)
      | none => .error ("autostart pppoe `" ++ name ++ "` is not a configured session")
  | none =>
      match tun, tap with
      | some cfg, _ => .ok (.device (.tun cfg))
      | none, some cfg => .ok (.device (.tap cfg))
      | none, none => .ok .idle

/-- What the reconnect loop and the admin socket run from. -/
def prepare (target : ServerTarget) (settings : ClientSettings) : Except String ControlState := do
  let target ← normalizeTarget target
  let servers ← settings.servers.mapM normalizeTarget
  let peerStatic ← decodeOpt settings.peerSecret fun _ =>
    "client peer_secret must be 64 hexadecimal characters"
  if settings.peers ≠ [] ∧ peerStatic = none then
    .error "[client] peer_secret is required when peer sessions are configured"
  else if ∃ secret ∈ peerStatic, knows secret target ∨ ∃ t ∈ servers, knows secret t then
    .error "client peer_secret must differ from every server secret and credential"
  else do
    let forwards := SharedForwards.new settings.tcp settings.udp
    let fallbackMode ← fallbackOf settings.autostart settings.pppoe settings.tun settings.tap
    let active ← (ActiveTarget.new target).initSlots settings.peers
      (deriveMode forwards fallbackMode)
    .ok ⟨active, forwards, servers, settings.pppoe, fallbackMode, peerStatic.isSome,
      settings.config⟩

/-- Boot from a config. -/
def bootConfig (files : Files) (cfg : ClientConfig) : Except String ControlState := do
  validate cfg
  let (target, settings) ← bootFromFile files cfg
  prepare target settings

/-- Boot from the text of a file. -/
def bootText (files : Files) (text : List Char) : Except String ControlState := do
  let cfg ← ClientConfig.parse text
  bootConfig files cfg

end ZeroNat.Client

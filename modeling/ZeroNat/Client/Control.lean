import ZeroNat.Client.Boot

/-!
# The admin socket of a client

A message that changes something is checked, applied to what the tasks share and to the config
that was read, and saved; only then is the session kicked, when that is needed.  A message that
is refused changes nothing.
-/

namespace ZeroNat.Client

open Config (CfgServer CfgForward CfgPppoe CfgTap CfgTun CfgPeer ClientConfig)

/-- What a message does once the edit of the config is on disk. -/
inductive After where
  | nothing
  | kickIfForwards
  | serveForwards
  /-- The slot pairs only under a later body. -/
  | pairsLater
deriving DecidableEq

/-- The reply of a message that is finished, refused or concerns the running client only, or what
follows the save. -/
abbrev Applied : Type :=
  Except (Bool × String) After

namespace ControlState

/-- Edit the parsed config, when the client has one. -/
def config (s : ControlState) (edit : ClientConfig → ClientConfig) : ControlState :=
  { s with persist := s.persist.map edit }

def refused (msg : String) : Applied :=
  .error (false, msg)

def done : Applied :=
  .error (true, "")

def isControl (c : Char) : Bool :=
  c.toNat < 0x20 || (0x7f ≤ c.toNat && c.toNat ≤ 0x9f)

/-- The first of the named values that has a control character. -/
def controlled (fields : List (String × String)) : Option String :=
  (fields.find? fun f => f.2.toList.any isControl).map Prod.fst

/-- A host that is not empty and a port that is not zero, separated by the last colon. -/
def validHostPort (addr : String) : Bool :=
  let (port, host) := addr.toList.reverse.span (· ≠ ':')
  match host with
  | [] => false
  | _ :: host =>
      !host.isEmpty && (Config.parseDecimal (2 ^ 16) port.reverse).any fun p => p ≠ 0

/-- Why a profile cannot be dialled by this build. -/
def undialable (target : ServerTarget) (dhtSupported : Bool) : Option String :=
  if target.addr ≠ "dht" then none
  else if dhtSupported = false then
    some ("`" ++ target.name ++ "` is a dht profile and this build has no dht support")
  else if target.discovery = none then
    some ("`" ++ target.name ++ "` is a dht profile with no `discovery` credential")
  else none

/-- The seconds of an override, of which zero stands for none. -/
def idleOf (secs : UInt32) : Option UInt32 :=
  if secs = 0 then none else some secs

/-- The body opens a device. -/
def isDevice : RunMode → Bool
  | .device _ => true
  | _ => false

def isTun : RunMode → Bool
  | .device (.tun _) => true
  | _ => false

/-- Change the first element that satisfies a condition. -/
def updateFirst {α : Type} (p : α → Bool) (f : α → α) : List α → List α
  | [] => []
  | a :: rest => if p a then f a :: rest else a :: updateFirst p f rest

/-! ### The messages -/

section

variable (dhtSupported : Bool)

def selectServer (s : ControlState) (name : String) : ControlState × Applied :=
  match SharedServers.get s.servers name with
  | none => (s, refused ("no configured server named `" ++ name ++ "`"))
  | some target =>
      match undialable target dhtSupported with
      | some msg => (s, refused msg)
      | none =>
          (({ s with active := s.active.switch target } : ControlState).config fun cfg =>
            { cfg with active := some name }, .ok .nothing)

def setForwardOptions (s : ControlState) (proto : Proto) (port : UInt16) (enabled proxy : Bool)
    (idleSecs : UInt32) : ControlState × Applied :=
  if proxy ∧ proto = .udp then (s, refused "`proxy` is not supported on udp forwards")
  else
    match s.forwards.setOptions proto port enabled proxy ((idleOf idleSecs).map UInt32.toNat) with
    | none =>
        (s, refused ("no " ++ protoName proto ++ " forward on port " ++ toString port.toNat))
    | some forwards =>
        (({ s with forwards := forwards } : ControlState).config fun cfg =>
          { cfg with
            forwards := updateFirst (fun f => f.proto = proto ∧ f.port = port)
              (fun f => { f with enabled := enabled, proxy := proxy, idle := idleOf idleSecs })
              cfg.forwards }, .ok .kickIfForwards)

/-- Which session runs is not written back. -/
def spawnPppoe (s : ControlState) (name : String) : ControlState × Applied :=
  match s.pppoe.find? fun p => p.1 = name with
  | none => (s, refused ("no configured pppoe session named `" ++ name ++ "`"))
  | some (_, config) =>
      match s.active.setMode (.pppoe name config) with
      | .ok active => ({ s with active := active }, done)
      | .error e => (s, refused e)

def stopSession (s : ControlState) (name : String) : ControlState × Applied :=
  match s.active.stopPppoe name s.baseMode with
  | some active => ({ s with active := active }, done)
  | none => (s, refused ("no active pppoe session named `" ++ name ++ "`"))

def addServer (s : ControlState) (name addr secret : String) (transport : Transport) :
    ControlState × Applied :=
  if name = "" then (s, refused "server `name` must not be empty")
  else
    match controlled [("name", name), ("addr", addr), ("secret", secret)] with
    | some field =>
        (s, refused ("server `" ++ field ++ "` must not contain control characters"))
    | none =>
        match Secret.normalize secret with
        | .error e => (s, refused ("server " ++ e))
        | .ok secret =>
            if addr = "dht" then
              (s, refused ("a dht profile needs a `discovery` credential; "
                ++ "declare it in the config file"))
            else if validHostPort addr = false then
              (s, refused ("addr must be host:port, got `" ++ addr ++ "`"))
            else
              match Secret.decode secret with
              | .error e => (s, refused ("server " ++ e))
              | .ok key =>
                  match SharedServers.discoveryOwner s.servers key with
                  | some owner =>
                      (s, refused ("secret matches the `discovery` credential of server `"
                        ++ owner ++ "`"))
                  | none =>
                      match SharedServers.add s.servers
                          ⟨name, addr, secret, secret, none, transport⟩ with
                      | none =>
                          (s, refused ("a server named `" ++ name ++ "` already exists"))
                      | some servers =>
                          (({ s with servers := servers } : ControlState).config fun cfg =>
                            { cfg with
                              servers := cfg.servers
                                ++ [⟨name, addr, none, secret, secret, none, transport⟩] },
                            .ok .nothing)

/-- The active profile stays. -/
def removeServer (s : ControlState) (name : String) : ControlState × Applied :=
  if s.active.adminView.1 = name then
    (s, refused ("`" ++ name ++ "` is the active server; select another first"))
  else
    match SharedServers.remove s.servers name with
    | none => (s, refused ("no configured server named `" ++ name ++ "`"))
    | some servers =>
        (({ s with servers := servers } : ControlState).config fun cfg =>
          { cfg with servers := cfg.servers.filter fun s => s.name ≠ name }, .ok .nothing)

/-- Connect to a profile, once it is found. -/
def connectTo (s : ControlState) (name : String) (target : Option ServerTarget) :
    ControlState × Applied :=
  match s.active.connect target s.bootMode with
  | .error e => (s, refused e)
  | .ok none =>
      (s, refused "a session is already up; select-server retargets a running client")
  | .ok (some active) =>
      let s := { s with active := active }
      if target = none then (s, done)
      else (s.config fun cfg => { cfg with active := some name }, .ok .nothing)

/-- No name stands for the current target. -/
def connect (s : ControlState) (name : String) : ControlState × Applied :=
  if name = "" then s.connectTo name none
  else
    match SharedServers.get s.servers name with
    | none => (s, refused ("no configured server named `" ++ name ++ "`"))
    | some target =>
        match undialable target dhtSupported with
        | some msg => (s, refused msg)
        | none => s.connectTo name (some target)

def disconnect (s : ControlState) : ControlState × Applied :=
  match s.active.disconnect with
  | some active => ({ s with active := active }, done)
  | none => (s, refused "already offline")

/-- The local target of a forward, which by default is the same port of the host. -/
def forwardTarget (port : UInt16) (target : String) : String :=
  if target = "" then "127.0.0.1:" ++ toString port.toNat else target

def addForward (s : ControlState) (proto : Proto) (port : UInt16) (target : String) (proxy : Bool)
    (idleSecs : UInt32) (enabled : Bool) : ControlState × Applied :=
  let target := forwardTarget port target
  if proxy ∧ proto = .udp then (s, refused "`proxy` is not supported on udp forwards")
  else if validHostPort target = false then
    (s, refused ("target must be host:port, got `" ++ target ++ "`"))
  else if target.toList.any isControl then
    (s, refused "forward `target` must not contain control characters")
  else if isDevice s.fallbackMode then
    (s, refused "[tap]/[tun] cannot be combined with forwards")
  else
    match s.forwards.add proto
        ⟨port, target, proxy, (idleOf idleSecs).map UInt32.toNat, enabled⟩ with
    | none =>
        (s, refused ("a " ++ protoName proto ++ " forward on port " ++ toString port.toNat
          ++ " already exists"))
    | some forwards =>
        (({ s with forwards := forwards } : ControlState).config fun cfg =>
          { cfg with
            forwards := cfg.forwards ++ [⟨proto, port, target, proxy, idleOf idleSecs, enabled⟩] },
          .ok .serveForwards)

def removeForward (s : ControlState) (proto : Proto) (port : UInt16) : ControlState × Applied :=
  match s.forwards.remove proto port with
  | none => (s, refused ("no " ++ protoName proto ++ " forward on port " ++ toString port.toNat))
  | some forwards =>
      (({ s with forwards := forwards } : ControlState).config fun cfg =>
        { cfg with forwards := cfg.forwards.filter fun f => ¬ (f.proto = proto ∧ f.port = port) },
        .ok .kickIfForwards)

/-- The fields that an attach may carry for its role. -/
def attachFields (peerId : String) (want : UInt8) (dev : String) (exit exitStrict : Bool)
    (iface : String) : Except String Unit :=
  if peerId = "" then
    if dev ≠ "" ∨ exit ∨ exitStrict then
      .error "`dev`, `exit`, and `exit_strict` apply to a consumer slot"
    else if want = providesExit then .ok ()
    else if want = providesSegment then
      if iface = "" then .error "a segment provider needs the bridge its tap joins" else .ok ()
    else .error ("unknown peer capability byte " ++ toString want.toNat)
  else
    match Secret.decode peerId with
    | .error _ => .error "`peer` must be a 64-hex peer identity"
    | .ok _ =>
        if iface ≠ "" then .error "`iface` applies to a provider slot"
        else if want ≠ providesExit then
          .error "a segment consumer is not a client slot; use `znpppoe --peer <PEER-ID>`"
        else if exitStrict ∧ exit = false then .error "`exit_strict` requires `exit`"
        else .ok ()

/-- The allowlist that is saved. -/
def savedAllow (s : ControlState) : List String :=
  match s.persist with
  | some cfg =>
      match cfg.peer with
      | some saved => saved.allow
      | none => []
  | none => []

def optional (value : String) : Option String :=
  if value = "" then none else some value

/-- The records that an attach saves. -/
def attachRecords (s : ControlState) (peerId : String) (want : UInt8) (dev : String)
    (exit exitStrict : Bool) (iface : String) : Except String (Option CfgTun × Option CfgPeer) :=
  if peerId ≠ "" then .ok (some ⟨optional dev, none, exit, exitStrict, some peerId⟩, none)
  else if want = providesExit then .ok (none, some ⟨true, optional iface, none, s.savedAllow⟩)
  else if want = providesSegment then .ok (none, some ⟨false, none, some iface, s.savedAllow⟩)
  else .error ("unknown peer capability byte " ++ toString want.toNat)

def emptyPeer : CfgPeer :=
  ⟨false, none, none, []⟩

/-- Save the table of a provider that is attached. -/
def mergePeer (saved peer : CfgPeer) : CfgPeer :=
  let saved := if peer.exit then { saved with exit := true, exitIface := peer.exitIface } else saved
  if peer.segment.isSome then { saved with segment := peer.segment } else saved

/-- Save the records of an attach. -/
def saveRecords (tun : Option CfgTun) (peer : Option CfgPeer) (cfg : ClientConfig) :
    ClientConfig :=
  let cfg := match tun with
    | some tun => { cfg with tun := some tun }
    | none => cfg
  match peer with
  | some peer => { cfg with peer := some (mergePeer (cfg.peer.getD emptyPeer) peer) }
  | none => cfg

/-- Attach the slot that records declare. -/
def attachSlot (s : ControlState) (tun : Option CfgTun) (peer : Option CfgPeer) :
    ControlState × Applied :=
  match peerSlots tun peer with
  | .error e => (s, refused e)
  | .ok [spec] =>
      match s.active.attachPeer spec s.bootMode with
      | .error e => (s, refused e)
      | .ok active =>
          (({ s with active := active } : ControlState).config (saveRecords tun peer),
            .ok (if active.adminView.2.1 = .forwards ∨ active.adminView.2.1 = .idle then .nothing
              else .pairsLater))
  | .ok _ => (s, refused "an attach declares exactly one slot")

def attachPeer (s : ControlState) (peerId : String) (want : UInt8) (dev : String)
    (exit exitStrict : Bool) (iface : String) : ControlState × Applied :=
  match controlled [("peer", peerId), ("dev", dev), ("iface", iface)] with
  | some field => (s, refused ("peer `" ++ field ++ "` must not contain control characters"))
  | none =>
      if s.hasPeerSecret = false then
        (s, refused "[client] peer_secret is required before a peer slot can attach")
      else if peerId ≠ "" ∧ isTun s.fallbackMode then
        (s, refused ("[tun] feeds this client's server slot, so it has no table left for a "
          ++ "consumer"))
      else
        match attachFields peerId want dev exit exitStrict iface with
        | .error e => (s, refused e)
        | .ok () =>
            match s.attachRecords peerId want dev exit exitStrict iface with
            | .error e => (s, refused e)
            | .ok (tun, peer) => s.attachSlot tun peer

/-- Clear the keys of a capability. -/
def clearPeer (want : UInt8) (peer : CfgPeer) : CfgPeer :=
  if want = providesExit then { peer with exit := false, exitIface := none }
  else { peer with segment := none }

/-- A table that declares nothing is left out. -/
def dropEmpty (peer : CfgPeer) : Option CfgPeer :=
  if peer = emptyPeer then none else some peer

def detachPeer (s : ControlState) (peerId : String) (want : UInt8) : ControlState × Applied :=
  if want ≠ providesExit ∧ want ≠ providesSegment then
    (s, refused ("unknown peer capability byte " ++ toString want.toNat))
  else
    match s.active.detachPeer peerId want with
    | none => (s, refused ("no attached " ++ slotLabel peerId want))
    | some active =>
        (({ s with active := active } : ControlState).config fun cfg =>
          if peerId = "" then
            { cfg with peer := cfg.peer.bind fun peer => dropEmpty (clearPeer want peer) }
          else { cfg with tun := none }, .ok .nothing)

/-- Check a message and apply it to what is shared and to the parsed config. -/
def apply (s : ControlState) : ClientMsg → ControlState × Applied
  | .selectServer name => s.selectServer dhtSupported name
  | .setForwardOptions proto port enabled proxy idleSecs =>
      s.setForwardOptions proto port enabled proxy idleSecs
  | .spawnPppoe name => s.spawnPppoe name
  | .stopSession name => s.stopSession name
  | .addServer name addr secret transport => s.addServer name addr secret transport
  | .removeServer name => s.removeServer name
  | .connect name => s.connect dhtSupported name
  | .disconnect => s.disconnect
  | .addForward proto port target proxy idleSecs enabled =>
      s.addForward proto port target proxy idleSecs enabled
  | .removeForward proto port => s.removeForward proto port
  | .attachPeer peerId want dev exit exitStrict iface =>
      s.attachPeer peerId want dev exit exitStrict iface
  | .detachPeer peerId want => s.detachPeer peerId want
  | _ => (s, refused "expected a mutation")

end

/-- What follows the save. -/
def afterSave (s : ControlState) : After → ControlState
  | .nothing | .pairsLater => s
  | .kickIfForwards => { s with active := s.active.kickIfForwards }
  | .serveForwards => { s with active := s.active.serveForwards }

end ControlState

/-! ### The client and its file -/

/-- How a save ends for the exchange that waits for it: it is done, it fails and the file stays,
or the exchange times out and leaves it behind. -/
inductive Saving where
  | done
  | failed
  | abandoned
deriving DecidableEq

/-- A client with its config file.  The exchange that is being answered waits for a save;
`behind` is the number of saves that were left behind and will still be made. -/
structure Host where
  control : ControlState
  loop : LoopState
  file : List Char
  exchange : Option After
  behind : ℕ

inductive HostOp where
  /-- A message is applied.  The exchanges are served in sequence. -/
  | apply (msg : ClientMsg)
  | save (saving : Saving)
  /-- A save that was left behind is made. -/
  | land
  /-- The reconnect loop takes a step: it begins, its wait is over, or it ends. -/
  | begin
  | cancelled
  | fail

namespace Host

/-- The text that is saved.  It is taken when the file is written. -/
def saved (h : Host) : List Char :=
  match h.control.persist with
  | some cfg => cfg.serialize
  | none => h.file

/-- A step of the reconnect loop. -/
def loopStep (h : Host) (op : SwitchOp) : Option Host :=
  (Switchable.step ⟨h.control.active, h.loop⟩ op).map fun t =>
    { h with control := { h.control with active := t.active }, loop := t.loop }

def step (dhtSupported : Bool) (h : Host) : HostOp → Option Host
  | .apply msg =>
      match h.exchange with
      | some _ => none
      | none =>
          match h.control.apply dhtSupported msg with
          | (s, .error _) => some { h with control := s }
          | (s, .ok after) => some { h with control := s, exchange := some after }
  | .save saving =>
      match h.exchange with
      | none => none
      | some after =>
          match saving with
          | .done =>
              some { h with
                control := h.control.afterSave after, file := h.saved, exchange := none }
          | .failed => some { h with control := h.control.afterSave after, exchange := none }
          | .abandoned => some { h with exchange := none, behind := h.behind + 1 }
  | .land => if h.behind = 0 then none else some { h with file := h.saved, behind := h.behind - 1 }
  | .begin => h.loopStep .begin
  | .cancelled => h.loopStep .cancelled
  | .fail => h.loopStep .fail

/-- A client that has just been booted from a file. -/
def start (control : ControlState) (file : List Char) : Host :=
  ⟨control, .between, file, none, 0⟩

end Host

end ZeroNat.Client

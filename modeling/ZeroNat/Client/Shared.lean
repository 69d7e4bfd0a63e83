import ZeroNat.Client.Message
import ZeroNat.Config.Client
import ZeroNat.Lib.Table

/-!
# What the tasks of a client share

The forwards, the profiles of the servers, and the bodies that a session of the client may run.
The reconnect loop reads them, and the dispatcher of the admin socket edits them, each under a
lock of its own.
-/

namespace ZeroNat.Client

/-! ### Forwards -/

/-- A forward, as it is declared: the public port, the local target, and the options. -/
structure Forward where
  port : UInt16
  target : String
  proxy : Bool
  idle : Option ℕ
  enabled : Bool
deriving DecidableEq

/-- What a port is forwarded to. -/
structure ForwardTarget where
  target : String
  proxy : Bool
  idle : Option ℕ
  enabled : Bool
deriving DecidableEq

def Forward.toTarget (f : Forward) : ForwardTarget :=
  ⟨f.target, f.proxy, f.idle, f.enabled⟩

/-- The live forwards of the two protocols, by port. -/
structure SharedForwards where
  tcp : Table UInt16 ForwardTarget
  udp : Table UInt16 ForwardTarget
deriving DecidableEq

namespace SharedForwards

def byPort (fwds : List Forward) : Table UInt16 ForwardTarget :=
  fwds.foldl (fun t f => t.insert f.port f.toTarget) ∅

def new (tcp udp : List Forward) : SharedForwards :=
  ⟨byPort tcp, byPort udp⟩

def map (m : SharedForwards) : Proto → Table UInt16 ForwardTarget
  | .tcp => m.tcp
  | .udp => m.udp

def setMap (m : SharedForwards) (proto : Proto) (t : Table UInt16 ForwardTarget) :
    SharedForwards :=
  match proto with
  | .tcp => { m with tcp := t }
  | .udp => { m with udp := t }

/-- Whether any forward is declared, enabled or not. -/
def anyDeclared (m : SharedForwards) : Bool :=
  !m.tcp.entries.isEmpty || !m.udp.entries.isEmpty

/-- Add a forward, unless its port is taken. -/
def add (m : SharedForwards) (proto : Proto) (fwd : Forward) : Option SharedForwards :=
  match (m.map proto).lookup fwd.port with
  | some _ => none
  | none => some (m.setMap proto ((m.map proto).insert fwd.port fwd.toTarget))

def remove (m : SharedForwards) (proto : Proto) (port : UInt16) : Option SharedForwards :=
  match (m.map proto).lookup port with
  | some _ => some (m.setMap proto ((m.map proto).erase port))
  | none => none

/-- Replace the options of a forward. -/
def setOptions (m : SharedForwards) (proto : Proto) (port : UInt16) (enabled proxy : Bool)
    (idle : Option ℕ) : Option SharedForwards :=
  match (m.map proto).lookup port with
  | some f =>
      some (m.setMap proto
        ((m.map proto).insert port { f with enabled := enabled, proxy := proxy, idle := idle }))
  | none => none

@[simp]
theorem map_setMap_self (m : SharedForwards) (proto : Proto) (t : Table UInt16 ForwardTarget) :
  (m.setMap proto t).map proto = t
  := by
  cases proto <;> rfl

theorem map_setMap_of_ne (m : SharedForwards) {proto proto' : Proto} (h : proto' ≠ proto)
    (t : Table UInt16 ForwardTarget) :
  (m.setMap proto t).map proto' = m.map proto'
  := by
  cases proto with
  | tcp =>
      cases proto' with
      | tcp => exact absurd rfl h
      | udp => rfl
  | udp =>
      cases proto' with
      | tcp => rfl
      | udp => exact absurd rfl h

/-- The forward of a protocol and a port. -/
def get (m : SharedForwards) (proto : Proto) (port : UInt16) : Option ForwardTarget :=
  (m.map proto).lookup port

theorem get_setMap (m : SharedForwards) (proto proto' : Proto) (port : UInt16)
    (t : Table UInt16 ForwardTarget) :
  (m.setMap proto t).get proto' port = if proto' = proto then t.lookup port else m.get proto' port
  := by
  rw [get]
  split
  · rename_i heq
    rw [heq, map_setMap_self]
  · rename_i hne
    rw [map_setMap_of_ne m hne]
    rfl

/-- A forward is declared when the set has an entry. -/
theorem anyDeclared_iff (m : SharedForwards) :
  m.anyDeclared = true ↔ ∃ proto port f, m.get proto port = some f
  := by
  have hmap (t : Table UInt16 ForwardTarget) :
      t.entries.isEmpty = false ↔ ∃ port f, t.lookup port = some f := by
    rw [List.isEmpty_eq_false_iff_exists_mem]
    constructor
    · rintro ⟨⟨port, f⟩, hmem⟩
      exact ⟨port, f, AList.mem_lookup_iff.mpr hmem⟩
    · rintro ⟨port, f, hf⟩
      exact ⟨⟨port, f⟩, AList.mem_lookup_iff.mp hf⟩
  rw [anyDeclared, Bool.or_eq_true, Bool.not_eq_true', Bool.not_eq_true', hmap, hmap]
  constructor
  · rintro (⟨port, f, hf⟩ | ⟨port, f, hf⟩)
    · exact ⟨.tcp, port, f, hf⟩
    · exact ⟨.udp, port, f, hf⟩
  · rintro ⟨proto, port, f, hf⟩
    cases proto with
    | tcp => exact Or.inl ⟨port, f, hf⟩
    | udp => exact Or.inr ⟨port, f, hf⟩

end SharedForwards

/-! ### Servers -/

/-- The profile of a server that can be dialled. -/
structure ServerTarget where
  name : String
  addr : String
  secret : String
  credential : String
  discovery : Option String
  transport : Transport
deriving DecidableEq

/-- The profiles that can be selected. -/
abbrev SharedServers : Type :=
  List ServerTarget

namespace SharedServers

def get (servers : SharedServers) (name : String) : Option ServerTarget :=
  servers.find? fun s => s.name = name

/-- Add a profile, unless its name is taken. -/
def add (servers : SharedServers) (target : ServerTarget) : Option SharedServers :=
  if servers.any fun s => s.name = target.name then none else some (servers ++ [target])

def remove (servers : SharedServers) (name : String) : Option SharedServers :=
  let kept := servers.filter fun s => s.name ≠ name
  if kept.length = servers.length then none else some kept

/-- The profile whose discovery credential is a secret.  The bytes are compared. -/
def discoveryOwner (servers : SharedServers) (secret : Bytes 32) : Option String :=
  servers.findSome? fun s =>
    match s.discovery.map Secret.decode with
    | some (.ok discovery) => if discovery = secret then some s.name else none
    | _ => none

end SharedServers

/-! ### Bodies -/

structure TapConfig where
  name : String
  mtu : ℕ
  bridge : Option String
deriving DecidableEq

structure ClientTun where
  name : String
  mtu : ℕ
  address : Option (Ipv4Addr × UInt8)
  exit : Bool
  exitStrict : Bool
deriving DecidableEq

inductive DeviceConfig where
  | tap (cfg : TapConfig)
  | tun (cfg : ClientTun)
deriving DecidableEq

/-- The resolved configuration of a PPPoE session. -/
structure PppoeRunConfig where
  username : List UInt8
  password : List UInt8
  serviceName : List UInt8
  acName : Option (List UInt8)
  tunName : String
  effectiveMtu : UInt16
  defaultRoute : Bool
  clampMss : Option UInt16
  requestDns : Bool
deriving DecidableEq

/-- The body of the session that the reconnect loop runs: exactly one at any instant, or none. -/
inductive RunMode where
  | idle
  | forwards
  | device (cfg : DeviceConfig)
  | pppoe (name : String) (config : PppoeRunConfig)
  | offline
deriving DecidableEq

def RunMode.sessionMode : RunMode → SessionMode
  | idle => .idle
  | forwards => .forwards
  | device _ => .device
  | pppoe _ _ => .pppoe
  | offline => .offline

/-- The body that the declared forwards select. -/
def deriveMode (forwards : SharedForwards) (fallback : RunMode) : RunMode :=
  if forwards.anyDeclared then .forwards else fallback

end ZeroNat.Client

import ZeroNat.Config.Records
import ZeroNat.Secret

/-!
# The config file of a client

A `client` table with the settings of the process, tables for the servers, the forwards and the
PPPoE sessions, and at most one table each for a tap device, a tun device and what is provided to
peers.  A server with a seed may leave its secret, its discovery and its credential to the seed;
the credential is derived for the id of the client, which may stand after it, so it is filled in
when the whole file is read.
-/

namespace ZeroNat.Config

/-- A server that the client may dial. -/
structure CfgServer where
  name : String
  addr : String
  seed : Option String
  secret : String
  credential : String
  discovery : Option String
  transport : Transport
deriving DecidableEq

structure CfgForward where
  proto : Proto
  port : UInt16
  target : String
  proxy : Bool
  idle : Option UInt32
  enabled : Bool
deriving DecidableEq

structure CfgPppoe where
  name : String
  autostart : Bool
  username : String
  password : Option String
  passwordFile : Option String
  service : String
  mtu : UInt16
  defaultRoute : Bool
  clampMss : Bool
  requestDns : Bool
deriving DecidableEq

structure CfgTap where
  dev : String
deriving DecidableEq

structure CfgTun where
  dev : Option String
  address : Option (Ipv4Addr × UInt8)
  exit : Bool
  exitStrict : Bool
  exitVia : Option String
deriving DecidableEq

/-- What is provided to peers. -/
structure CfgPeer where
  exit : Bool
  exitIface : Option String
  segment : Option String
  allow : List String
deriving DecidableEq

structure ClientConfig where
  id : Option String
  peerSecret : Option String
  active : Option String
  control : Option String
  servers : List CfgServer
  forwards : List CfgForward
  pppoe : List CfgPppoe
  tap : Option CfgTap
  tun : Option CfgTun
  peer : Option CfgPeer
deriving DecidableEq

namespace ClientConfig

def default : ClientConfig :=
  ⟨none, none, none, none, [], [], [], none, none, none⟩

/-! ### The grammar -/

def clientTable : TableDef where
  header := "client"
  label := "[client]"
  single := true
  keys := [("id", .str 0), ("peer_secret", .str 1), ("active", .str 2), ("control", .str 3)]

def serversTable : TableDef where
  header := "[servers]"
  label := "[[servers]]"
  single := false
  keys := [("name", .str 0), ("addr", .str 1), ("seed", .str 2), ("secret", .str 3),
    ("credential", .str 4), ("discovery", .str 5), ("transport", .transport)]

def forwardsTable : TableDef where
  header := "[forwards]"
  label := "[[forwards]]"
  single := false
  keys := [("proto", .proto), ("port", .int), ("target", .str 0), ("proxy", .bool 0),
    ("idle", .idle), ("enabled", .bool 1)]

def pppoeTable : TableDef where
  header := "[pppoe]"
  label := "[[pppoe]]"
  single := false
  keys := [("name", .str 0), ("autostart", .bool 0), ("username", .str 1), ("password", .str 2),
    ("password_file", .str 3), ("service", .str 4), ("mtu", .int), ("default_route", .bool 1),
    ("clamp_mss", .bool 2), ("request_dns", .bool 3)]

def tapTable : TableDef where
  header := "tap"
  label := "[tap]"
  single := true
  keys := [("dev", .str 0)]

def tunTable : TableDef where
  header := "tun"
  label := "[tun]"
  single := true
  keys := [("dev", .str 0), ("address", .cidr), ("exit", .bool 0), ("exit_strict", .bool 1),
    ("exit_via", .str 1)]

def peerTable : TableDef where
  header := "peer"
  label := "[peer]"
  single := true
  keys := [("exit", .bool 0), ("exit_iface", .str 0), ("segment", .str 1), ("allow", .strList)]

def grammar : Grammar :=
  [clientTable, serversTable, forwardsTable, pppoeTable, tapTable, tunTable, peerTable]

/-! ### Parsing -/

/-- The config read so far, and the seeds of the servers whose credential is still to be derived,
each with the position of its server. -/
structure Acc where
  cfg : ClientConfig
  seeded : List (ℕ × Seed)

def Acc.empty : Acc :=
  ⟨default, []⟩

def closeClient (cfg : ClientConfig) (record : Record) : ClientConfig :=
  { cfg with
    id := record.strs 0
    peerSecret := record.strs 1
    active := record.strs 2
    control := record.strs 3 }

/-- The seed of a server, as it is written and as it is read. -/
def serverSeed (record : Record) (n : ℕ) : Except String (Option (String × Seed)) :=
  match record.strs 2 with
  | none => .ok none
  | some hex =>
      match Seed.parse hex with
      | .ok seed => .ok (some (hex, seed))
      | .error e => .error (err n ("server " ++ e))

/-- The secret of a server: its own, or the one of its seed. -/
def serverSecret (record : Record) (seed : Option (String × Seed)) (n : ℕ) :
    Except String String :=
  match record.strs 3, seed with
  | some secret, _ => .ok secret
  | none, some (_, seed) => .ok seed.network
  | none, none => .error (err n "server missing `secret` or `seed`")

/-- A server with a seed and without a credential is noted. -/
def noteSeed (acc : Acc) (credential : Option String) (seed : Option (String × Seed)) :
    List (ℕ × Seed) :=
  match credential, seed with
  | none, some (_, seed) => acc.seeded ++ [(acc.cfg.servers.length, seed)]
  | _, _ => acc.seeded

/-- A server without a credential gets its secret for one until the whole file is read. -/
def closeServer (acc : Acc) (record : Record) (n : ℕ) : Except String Acc := do
  let name ← record.required 0 n "server missing `name`"
  if name = "" then .error (err n "server `name` must not be empty")
  else do
    let addr ← record.required 1 n "server missing `addr`"
    let seed ← serverSeed record n
    let secret ← serverSecret record seed n
    let server : CfgServer :=
      { name := name
        addr := addr
        seed := seed.map Prod.fst
        secret := secret
        credential := (record.strs 4).getD secret
        discovery := (record.strs 5).or (seed.map fun p => p.2.discovery)
        transport := record.transport.getD .auto }
    .ok ⟨{ acc.cfg with servers := acc.cfg.servers ++ [server] },
      noteSeed acc (record.strs 4) seed⟩

def closeForward (cfg : ClientConfig) (record : Record) (n : ℕ) : Except String ClientConfig :=
  match record.proto, record.int with
  | none, _ => .error (err n "forward missing `proto`")
  | some _, none => .error (err n "forward missing `port`")
  | some proto, some port =>
      if (record.bools 0).isSome ∧ proto = .udp then
        .error (err n "`proxy` is not supported on udp forwards")
      else
        .ok { cfg with forwards := cfg.forwards ++
          [{ proto := proto
             port := port
             target := (record.strs 0).getD
               (String.ofList ("127.0.0.1:".toList ++ decimal port.toNat))
             proxy := (record.bools 0).getD false
             idle := record.idle
             enabled := (record.bools 1).getD true }] }

def closePppoe (cfg : ClientConfig) (record : Record) (n : ℕ) : Except String ClientConfig := do
  let name ← record.required 0 n "pppoe missing `name`"
  if name = "" then .error (err n "pppoe `name` must not be empty")
  else do
    let username ← record.required 1 n "pppoe missing `username`"
    let defaultRoute := (record.bools 1).getD false
    if record.bools 2 = some false ∧ defaultRoute = false then
      .error (err n "`clamp_mss = false` requires `default_route = true`")
    else
      .ok { cfg with pppoe := cfg.pppoe ++
        [{ name := name
           autostart := (record.bools 0).getD false
           username := username
           password := record.strs 2
           passwordFile := record.strs 3
           service := (record.strs 4).getD ""
           mtu := record.int.getD 1492
           defaultRoute := defaultRoute
           clampMss := (record.bools 2).getD true
           requestDns := (record.bools 3).getD false }] }

def closeTap (cfg : ClientConfig) (record : Record) (n : ℕ) : Except String ClientConfig := do
  let dev ← record.required 0 n "tap missing `dev`"
  if dev = "" then .error (err n "tap `dev` must not be empty")
  else .ok { cfg with tap := some ⟨dev⟩ }

def closeTun (cfg : ClientConfig) (record : Record) (n : ℕ) : Except String ClientConfig :=
  let exit := (record.bools 0).getD false
  let exitStrict := (record.bools 1).getD false
  if exitStrict = true ∧ exit = false then
    .error (err n "`exit_strict = true` requires `exit = true`")
  else if record.strs 1 = some "" then .error (err n "tun `exit_via` must name a peer")
  else .ok { cfg with tun := some ⟨record.strs 0, record.address, exit, exitStrict, record.strs 1⟩ }

def closePeer (cfg : ClientConfig) (record : Record) (n : ℕ) : Except String ClientConfig :=
  if record.strs 1 = some "" then .error (err n "peer `segment` must name an interface")
  else
    let exit := (record.bools 0).getD false
    if record.strs 0 = some "" then .error (err n "peer `exit_iface` must name an interface")
    else if (record.strs 0).isSome ∧ exit = false then
      .error (err n "`exit_iface` requires `exit = true`")
    else
      .ok { cfg with peer := some ⟨exit, record.strs 0, record.strs 1, record.allow.getD []⟩ }

/-- Commit the record of a table. -/
def closeRecord (acc : Acc) (table : ℕ) (record : Record) (n : ℕ) : Except String Acc :=
  match table with
  | 0 => .ok { acc with cfg := closeClient acc.cfg record }
  | 1 => closeServer acc record n
  | 2 => (closeForward acc.cfg record n).map fun cfg => { acc with cfg := cfg }
  | 3 => (closePppoe acc.cfg record n).map fun cfg => { acc with cfg := cfg }
  | 4 => (closeTap acc.cfg record n).map fun cfg => { acc with cfg := cfg }
  | 5 => (closeTun acc.cfg record n).map fun cfg => { acc with cfg := cfg }
  | _ => (closePeer acc.cfg record n).map fun cfg => { acc with cfg := cfg }

/-- Derive the credentials of servers for an id. -/
def derive (id : String) (seeded : List (ℕ × Seed)) (servers : List CfgServer) :
    List CfgServer :=
  seeded.foldl (fun servers p =>
    servers.modify p.1 fun s => { s with credential := p.2.client id }) servers

/-- Fill in what was left to the seeds. -/
def Acc.finish (acc : Acc) (count : ℕ) : Except String ClientConfig :=
  if acc.seeded = [] then .ok acc.cfg
  else
    match acc.cfg.id with
    | none =>
        .error (err count
          ("a [[servers]] `seed` derives the client credential for [client].id, "
            ++ "which is missing"))
    | some id => .ok { acc.cfg with servers := derive id acc.seeded acc.cfg.servers }

def parse (text : List Char) : Except String ClientConfig := do
  let acc ← parseTables grammar closeRecord Acc.empty text
  acc.finish (lines text).length

/-! ### Serializing -/

/-- The value is the one that is derived. -/
def derived (value : Option String) (explicit : String) : Bool :=
  value = some explicit

/-- The seed of a server, when it can be read. -/
def CfgServer.parsedSeed (s : CfgServer) : Option Seed :=
  s.seed.bind fun hex => (Seed.parse hex).toOption

def putClient (out : List Char) (cfg : ClientConfig) : List Char :=
  if cfg.id.isSome ∨ cfg.peerSecret.isSome ∨ cfg.active.isSome ∨ cfg.control.isSome then
    let out := out ++ "[client]\n".toList
    let out := putSome out "id" cfg.id
    let out := putSome out "peer_secret" cfg.peerSecret
    let out := putSome out "active" cfg.active
    putSome out "control" cfg.control
  else out

/-- What the seed derives is left to the seed. -/
def putServer (id : Option String) (out : List Char) (s : CfgServer) : List Char :=
  let out := table out "[[servers]]"
  let out := kvQuoted out "name" s.name
  let out := kvQuoted out "addr" s.addr
  let seed := CfgServer.parsedSeed s
  let out := putSome out "seed" s.seed
  let out := if derived (seed.map Seed.network) s.secret then out
    else kvQuoted out "secret" s.secret
  let client := match seed, id with
    | some seed, some id => some (seed.client id)
    | _, _ => none
  let out := if derived client s.credential then out else kvQuoted out "credential" s.credential
  let out := match s.discovery with
    | some discovery =>
        if derived (seed.map Seed.discovery) discovery then out
        else kvQuoted out "discovery" discovery
    | none => out
  if s.transport ≠ .auto then kvQuoted out "transport" (transportStr s.transport) else out

def putForward (out : List Char) (f : CfgForward) : List Char :=
  let out := table out "[[forwards]]"
  let out := kvQuoted out "proto" (protoStr f.proto)
  let out := kvNum out "port" f.port.toNat
  let out := kvQuoted out "target" f.target
  let out := if f.enabled = false then kvBool out "enabled" false else out
  let out := if f.proxy then kvBool out "proxy" true else out
  match f.idle with
  | some secs => kvNum out "idle" secs.toNat
  | none => out

def putPppoe (out : List Char) (p : CfgPppoe) : List Char :=
  let out := table out "[[pppoe]]"
  let out := kvQuoted out "name" p.name
  let out := if p.autostart then kvBool out "autostart" true else out
  let out := kvQuoted out "username" p.username
  let out := putSome out "password" p.password
  let out := putSome out "password_file" p.passwordFile
  let out := if p.service ≠ "" then kvQuoted out "service" p.service else out
  let out := if p.mtu ≠ 1492 then kvNum out "mtu" p.mtu.toNat else out
  let out := if p.defaultRoute then kvBool out "default_route" true else out
  let out := if p.clampMss = false then kvBool out "clamp_mss" false else out
  if p.requestDns then kvBool out "request_dns" true else out

def putTap (out : List Char) (tap : CfgTap) : List Char :=
  kvQuoted (table out "[tap]") "dev" tap.dev

def putTun (out : List Char) (tun : CfgTun) : List Char :=
  let out := table out "[tun]"
  let out := putSome out "dev" tun.dev
  let out := match tun.address with
    | some (ip, len) => kvQuoted out "address" (String.ofList (cidrText ip len))
    | none => out
  let out := if tun.exit then kvBool out "exit" true else out
  let out := if tun.exitStrict then kvBool out "exit_strict" true else out
  putSome out "exit_via" tun.exitVia

def putPeer (out : List Char) (peer : CfgPeer) : List Char :=
  let out := table out "[peer]"
  let out := if peer.exit then kvBool out "exit" true else out
  let out := putSome out "exit_iface" peer.exitIface
  let out := putSome out "segment" peer.segment
  if peer.allow ≠ [] then kvRaw out "allow" (listText peer.allow) else out

/-- The text of a config, with the entries in their order and without the values that are
defaults. -/
def serialize (cfg : ClientConfig) : List Char :=
  let out := putClient [] cfg
  let out := cfg.servers.foldl (putServer cfg.id) out
  let out := cfg.forwards.foldl putForward out
  let out := cfg.pppoe.foldl putPppoe out
  let out := cfg.tap.toList.foldl putTap out
  let out := cfg.tun.toList.foldl putTun out
  cfg.peer.toList.foldl putPeer out

end ClientConfig

end ZeroNat.Config

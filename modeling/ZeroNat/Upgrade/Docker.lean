import ZeroNat.Config.Lexer

/-!
# The container of an install

The command that starts the container of an install, and the two commands that start it again on a
new image: one of the program itself and one of the installer.  Both read the settings of the old
container back, one inspection each, remove it, and run a new one.  Any command may fail.
-/

namespace ZeroNat.Upgrade

open Config (lines trim splitWhitespace parseDecimal)

/-! ### Docker -/

/-- The options of a run that are in use. -/
inductive Flag where
  | name
  | restart
  | network
  | user
  | capDrop
  | securityOpt
  | capAdd
  | device
  | volume
  | envFile
deriving DecidableEq

def Flag.all : List Flag :=
  [name, restart, network, user, capDrop, securityOpt, capAdd, device, volume, envFile]

def Flag.text : Flag → List Char
  | name => "--name".toList
  | restart => "--restart".toList
  | network => "--network".toList
  | user => "--user".toList
  | capDrop => "--cap-drop".toList
  | securityOpt => "--security-opt".toList
  | capAdd => "--cap-add".toList
  | device => "--device".toList
  | volume => "-v".toList
  | envFile => "--env-file".toList

/-- What a container was run with. -/
structure Container where
  name : List Char
  restart : List Char
  network : List Char
  user : List Char
  capDrop : List (List Char)
  securityOpt : List (List Char)
  capAdd : List (List Char)
  devices : List (List Char)
  binds : List (List Char)
  envFile : List (List Char)
  image : List Char
  cmd : List (List Char)
deriving DecidableEq

namespace Container

/-- A container without options. -/
def plain : Container :=
  ⟨[], "no".toList, "default".toList, [], [], [], [], [], [], [], [], []⟩

/-- An option with its value: the last one counts, or all do. -/
def set (c : Container) (value : List Char) : Flag → Container
  | .name => { c with name := value }
  | .restart => { c with restart := value }
  | .network => { c with network := value }
  | .user => { c with user := value }
  | .capDrop => { c with capDrop := c.capDrop ++ [value] }
  | .securityOpt => { c with securityOpt := c.securityOpt ++ [value] }
  | .capAdd => { c with capAdd := c.capAdd ++ [value] }
  | .device => { c with devices := c.devices ++ [value] }
  | .volume => { c with binds := c.binds ++ [value] }
  | .envFile => { c with envFile := c.envFile ++ [value] }

end Container

/-- The options up to the image, which the command of the container follows. -/
def runOptions : List (List Char) → Container → Option Container
  | [], _ => none
  | arg :: rest, c =>
      if arg = "-d".toList then runOptions rest c
      else
        match Flag.all.find? (·.text = arg), rest with
        | some flag, value :: rest => runOptions rest (c.set value flag)
        | some _, [] => none
        | none, rest =>
            if "-".toList <+: arg then none else some { c with image := arg, cmd := rest }

/-- The container of a run. -/
def dockerRun : List (List Char) → Option Container
  | verb :: args => if verb = "run".toList then runOptions args .plain else none
  | [] => none

/-- What an inspection asks for. -/
inductive Setting where
  | cmd
  | user
  | capAdd
  | capDrop
  | securityOpt
  | devices
  | binds
  | network
  | restart
deriving DecidableEq

/-- The values of a setting. -/
def Container.values (c : Container) : Setting → List (List Char)
  | .cmd => c.cmd
  | .user => [c.user]
  | .capAdd => c.capAdd
  | .capDrop => c.capDrop
  | .securityOpt => c.securityOpt
  | .devices => c.devices
  | .binds => c.binds
  | .network => [c.network]
  | .restart => [c.restart]

/-- The output of an inspection: a line for every value, and the end of the line. -/
def Container.inspected (c : Container) (s : Setting) : List Char :=
  match s with
  | .user => c.user ++ ['\n']
  | .network => c.network ++ ['\n']
  | .restart => c.restart ++ ['\n']
  | s => (c.values s).flatMap (fun value => value ++ ['\n']) ++ ['\n']

/-- The commands of an upgrade. -/
inductive Command where
  | inspect (s : Setting)
  | rm
  | run
deriving DecidableEq

/-- The container, with a number of its own, and whether the file of the environment is there. -/
structure Host where
  container : Option (ℕ × Container)
  envFile : Bool
deriving DecidableEq

/-! ### The install -/

inductive Mode where
  | server
  | client
deriving DecidableEq

inductive Kind where
  | ports
  | bridge
  | all
deriving DecidableEq

/-- What the command of an install depends on. -/
structure InstallConfig where
  mode : Mode
  kind : Kind
  control : List Char
  ports : List Char
deriving DecidableEq

def image : List Char := "ghcr.io/paltaio/zeronat:latest".toList

def containerName : List Char := "zeronat".toList

def envFile : List Char := "/etc/zeronat/.env".toList

def dataDir : List Char := "/etc/zeronat/data".toList

/-- A port that needs no privilege. -/
def highPort (text : List Char) : Bool :=
  (parseDecimal (2 ^ 16) text).any fun port => 1024 ≤ port

/-- What stands before the first slash, if there is one. -/
def beforeSlash (token : List Char) : Option (List Char) :=
  if '/' ∈ token then some (token.takeWhile (· ≠ '/')) else none

def containerUser (cfg : InstallConfig) : List Char :=
  let controlOk := cfg.mode ≠ .server ∨ highPort cfg.control
  let unprivileged := cfg.kind = .ports ∧ controlOk ∧
    (splitWhitespace cfg.ports).all fun token => (beforeSlash token).any highPort
  if unprivileged then "65532:65532".toList else "0:0".toList

/-- An option as it is written. -/
def option (flag : Flag) (value : List Char) : List (List Char) :=
  [flag.text, value]

/-- The arguments of the run of an install. -/
def installArgs (cfg : InstallConfig) (sub : List Char) : List (List Char) :=
  ["run".toList, "-d".toList] ++ option .name containerName
    ++ option .restart "unless-stopped".toList ++ option .network "host".toList
    ++ option .user (containerUser cfg) ++ option .capDrop "ALL".toList
    ++ option .securityOpt "no-new-privileges".toList
    ++ (if cfg.kind ≠ .ports then
        option .capAdd "NET_ADMIN".toList ++ option .capAdd "NET_RAW".toList
          ++ option .capAdd "NET_BIND_SERVICE".toList ++ option .device "/dev/net/tun".toList
      else if containerUser cfg = "0:0".toList then option .capAdd "NET_BIND_SERVICE".toList
      else [])
    ++ (if cfg.kind = .ports then option .volume (dataDir ++ ':' :: dataDir) else [])
    ++ option .envFile envFile ++ [image] ++ splitWhitespace sub

/-! ### The upgrades -/

section Upgrade

variable (fails : Command → Bool) (h : Host)

/-- The values of a setting that are read back: none where that fails. -/
def inspectLines (s : Setting) : List (List Char) :=
  match h.container with
  | some (_, c) =>
      if fails (.inspect s) then [] else ((lines (c.inspected s)).map trim).filter (· ≠ [])
  | none => []

/-- The first value, if there is one. -/
def inspectOne (s : Setting) (default : List Char) : List Char :=
  (inspectLines fails h s).head?.getD default

/-- Why an upgrade stops. -/
inductive Stop where
  | noEnvFile
  | rm
  | run
deriving DecidableEq

/-- Remove the container and run another one.  Once it is removed, it is gone. -/
def replace (args : List (List Char)) : Except Stop Unit × Host :=
  match h.container with
  | none => (.error .rm, h)
  | some (n, _) =>
      if fails .rm then (.error .rm, h)
      else if fails .run then (.error .run, { h with container := none })
      else
        match dockerRun args with
        | none => (.error .run, { h with container := none })
        | some c => (.ok (), { h with container := some (n + 1, c) })

/-- The restart policy and the network as options. -/
def policyOptions (restart network : List Char) : List (List Char) :=
  (if restart ≠ [] ∧ restart ≠ "no".toList then option .restart restart else [])
    ++ if network ≠ [] then option .network network else []

/-- The upgrade of the program. -/
def recreateRun : Except Stop Unit × Host :=
  if h.envFile then
    let cmd := inspectLines fails h .cmd
    let caps := inspectLines fails h .capAdd
    let devices := inspectLines fails h .devices
    let network := inspectOne fails h .network "host".toList
    let restart := inspectOne fails h .restart "unless-stopped".toList
    replace fails h
      (["run".toList, "-d".toList] ++ option .name containerName
        ++ policyOptions restart network ++ caps.flatMap (option .capAdd)
        ++ devices.flatMap (option .device) ++ option .envFile envFile ++ [image] ++ cmd)
  else (.error .noEnvFile, h)

/-- The upgrade of the installer. -/
def recreateContainer : Except Stop Unit × Host :=
  let cmd := inspectLines fails h .cmd
  let user := inspectOne fails h .user []
  let caps := inspectLines fails h .capAdd
  let capDrops := inspectLines fails h .capDrop
  let securityOpts := inspectLines fails h .securityOpt
  let devices := inspectLines fails h .devices
  let binds := inspectLines fails h .binds
  let network := inspectOne fails h .network "host".toList
  let restart := inspectOne fails h .restart "unless-stopped".toList
  replace fails h
    (["run".toList, "-d".toList] ++ option .name containerName
      ++ policyOptions restart network ++ (if user ≠ [] then option .user user else [])
      ++ capDrops.flatMap (option .capDrop) ++ securityOpts.flatMap (option .securityOpt)
      ++ caps.flatMap (option .capAdd) ++ devices.flatMap (option .device)
      ++ binds.flatMap (option .volume) ++ (if h.envFile then option .envFile envFile else [])
      ++ [image] ++ cmd)

end Upgrade

end ZeroNat.Upgrade

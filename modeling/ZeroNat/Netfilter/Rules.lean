import Mathlib.Data.List.Destutter
import ZeroNat.Config.Tables

/-!
# The firewall

The rules of a plan for both backends, the state of the host that they are programmed into,
and the install and the teardown as sequences of commands.  Any command may fail, and then
changes nothing.  The rules of iptables carry a comment, those of nftables are in a table of
their own but for the two in Docker's chain, which carry a comment again.
-/

namespace ZeroNat.Netfilter

open Config (ipText decimal stripPrefix trim parseDecimal)

/-! ### The plan -/

/-- Every port but the kept ones goes to the client. -/
structure DnatPlan where
  clientIp : Ipv4Addr
  controlPort : UInt16
  except : List UInt16
deriving DecidableEq

/-- The ports that stay on the host. -/
def DnatPlan.keptPorts (d : DnatPlan) : List UInt16 :=
  ((d.controlPort :: d.except).mergeSort fun a b => a ≤ b).destutter (· ≠ ·)

structure NatPlan where
  iface : List Char
  subnet : Ipv4Addr
  prefixLen : UInt8
  serverIp : Ipv4Addr
  mtu : ℕ
  dnat : Option DnatPlan
  egress : Option (List Char)
deriving DecidableEq

namespace NatPlan

def cidr (plan : NatPlan) : List Char :=
  ipText plan.subnet ++ '/' :: decimal plan.prefixLen.toNat

/-- The segment size for forwarded connections. -/
def mss (plan : NatPlan) : ℕ :=
  min (max (plan.mtu - 40) 536) 65535

end NatPlan

/-- The numbers of ports with a separator. -/
def portList (separator : List Char) (ports : List UInt16) : List Char :=
  separator.intercalate (ports.map fun p => decimal p.toNat)

/-! ### The rules of iptables -/

/-- The chains of iptables that are used. -/
inductive Chain where
  | natPrerouting
  | natPostrouting
  | mangleForward
  | filterForward
  | filterDockerUser
deriving DecidableEq

namespace Chain

def table : Chain → String
  | natPrerouting | natPostrouting => "nat"
  | mangleForward => "mangle"
  | filterForward | filterDockerUser => "filter"

def name : Chain → String
  | natPrerouting => "PREROUTING"
  | natPostrouting => "POSTROUTING"
  | mangleForward | filterForward => "FORWARD"
  | filterDockerUser => "DOCKER-USER"

end Chain

/-- The chains that are flushed. -/
def iptChains : List Chain :=
  [.natPrerouting, .natPostrouting, .mangleForward, .filterForward, .filterDockerUser]

/-- An argument of a rule: a word, or a comment with its match. -/
inductive Arg where
  | word (text : List Char)
  | comment (text : List Char)
deriving DecidableEq

/-- A rule of a chain, by its arguments. -/
abbrev Rule : Type := List Arg

def tag : List Char := "zeronat".toList

/-- The rule carries the comment. -/
def Rule.Tagged (r : Rule) : Prop :=
  Arg.comment tag ∈ r

instance : DecidablePred Rule.Tagged := fun r =>
  inferInstanceAs (Decidable (Arg.comment tag ∈ r))

structure IptRule where
  chain : Chain
  /-- The rule goes to the top. -/
  insert : Bool
  args : Rule
deriving DecidableEq

/-- A rule with the comment. -/
def rule (chain : Chain) (insert : Bool) (parts : List (List Char)) : IptRule :=
  ⟨chain, insert, parts.map .word ++ [.comment tag]⟩

def words (parts : List String) : List (List Char) :=
  parts.map String.toList

/-- The match of the ports that are not kept. -/
def keptMatch (keep : List UInt16) : List (List Char) :=
  if keep.length = 1 then words ["!", "--dport"] ++ [portList [','] keep]
  else words ["-m", "multiport", "!", "--dports"] ++ [portList [','] keep]

def dnatRules (plan : NatPlan) (dnat : DnatPlan) : List IptRule :=
  let outside := words ["!", "-i"] ++ [plan.iface] ++ words ["!", "-d"] ++ [plan.cidr]
  let toClient := words ["-j", "DNAT", "--to-destination"] ++ [ipText dnat.clientIp]
  (["tcp", "udp"].map fun proto =>
      rule .natPrerouting false
        (outside ++ words ["-p", proto] ++ keptMatch dnat.keptPorts ++ toClient))
    ++ [rule .natPrerouting false (outside ++ words ["-p", "icmp"] ++ toClient),
      rule .natPostrouting false
        (words ["-o"] ++ [plan.iface] ++ words ["-j", "SNAT", "--to-source"]
          ++ [ipText plan.serverIp])]

/-- A rule for each direction through the tunnel. -/
def bothWays (chain : Chain) (insert : Bool) (iface : List Char) (rest : List (List Char)) :
    List IptRule :=
  ["-o", "-i"].map fun dir => rule chain insert (words [dir] ++ [iface] ++ rest)

def iptablesRules (plan : NatPlan) (dockerUser : Bool) : List IptRule :=
  (match plan.dnat with
    | some dnat => dnatRules plan dnat
    | none => [])
    ++ (match plan.egress with
      | some egress =>
          [rule .natPostrouting false
            (words ["-s"] ++ [plan.cidr] ++ words ["-o"] ++ [egress]
              ++ words ["-j", "MASQUERADE"])]
      | none => [])
    ++ bothWays .mangleForward false plan.iface
        (words ["-p", "tcp", "--tcp-flags", "SYN,RST", "SYN", "-j", "TCPMSS", "--set-mss"]
          ++ [decimal plan.mss])
    ++ bothWays .filterForward false plan.iface (words ["-j", "ACCEPT"])
    ++ if dockerUser then bothWays .filterDockerUser true plan.iface (words ["-j", "ACCEPT"])
      else []

/-! ### The rules of nftables -/

/-- A rule of the table of the plan, with its chain. -/
structure NftRule where
  chain : String
  words : List (List Char)
deriving DecidableEq

def quoted (text : List Char) : List Char :=
  '"' :: text ++ ['"']

/-- The rules of the script.  It adds the table and its chains before, as far as they are
missing. -/
def nftScript (plan : NatPlan) : List NftRule :=
  (match plan.dnat with
    | some dnat =>
        let outside := words ["iifname", "!="] ++ [quoted plan.iface]
          ++ words ["ip", "daddr", "!="] ++ [plan.cidr]
        let toClient := words ["dnat", "to"] ++ [ipText dnat.clientIp]
        let keep := "\x7b ".toList ++ portList ", ".toList dnat.keptPorts ++ " \x7d".toList
        (["tcp", "udp"].map fun proto =>
            ⟨"prerouting", outside ++ words [proto, "dport", "!="] ++ [keep] ++ toClient⟩)
          ++ [⟨"prerouting", outside ++ words ["ip", "protocol", "icmp"] ++ toClient⟩,
            ⟨"postrouting", words ["oifname"] ++ [quoted plan.iface] ++ words ["snat", "to"]
              ++ [ipText plan.serverIp]⟩]
    | none => [])
    ++ (match plan.egress with
      | some egress =>
          [⟨"postrouting", words ["oifname"] ++ [quoted egress] ++ words ["ip", "saddr"]
            ++ [plan.cidr] ++ words ["masquerade"]⟩]
      | none => [])
    ++ ["oifname", "iifname"].map fun dir =>
        ⟨"forward", words [dir] ++ [quoted plan.iface]
          ++ words ["tcp", "flags", "&", "(syn | rst)", "==", "syn", "tcp", "option", "maxseg",
            "size", "set"] ++ [decimal plan.mss]⟩

/-- A rule of Docker's chain. -/
structure DockerRule where
  handle : UInt64
  words : List (List Char)
  comment : Option (List Char)
deriving DecidableEq

/-- The rule carries the comment. -/
def DockerRule.Tagged (r : DockerRule) : Prop :=
  r.comment = some tag

instance : DecidablePred DockerRule.Tagged := fun r =>
  inferInstanceAs (Decidable (r.comment = some tag))

/-- What the rules say that are inserted into Docker's chain, in the order of the inserts. -/
def nftDockerUserScript (plan : NatPlan) : List (List (List Char)) :=
  ["oifname", "iifname"].map fun dir => words [dir] ++ [quoted plan.iface] ++ words ["accept"]

/-! ### The host -/

structure Host where
  /-- The table of the plan in nftables. -/
  table : Option (List NftRule)
  /-- Docker's chain in nftables. -/
  docker : Option (List DockerRule)
  /-- The chains of iptables. -/
  chains : Chain → Option (List Rule)

/-- The commands of an install or a teardown. -/
inductive Command where
  | nftVersion
  | iptablesVersion
  | deleteTable
  /-- The listing of Docker's chain with the handles. -/
  | listDocker
  | deleteHandle (handle : UInt64)
  | script
  | dockerExists
  | dockerScript
  | chainExists
  | listChain (c : Chain)
  | deleteRule (c : Chain) (n : ℕ)
  | add (r : IptRule)
deriving DecidableEq

/-! ### Listings -/

/-- A string as a listing of iptables shows it. -/
def saveString (text : List Char) : List Char :=
  if text ≠ [] ∧ text.all (fun c => c.isAlphanum || c = '_' || c = '-') then text
  else
    let escape := fun c => if c = '"' ∨ c = '\\' ∨ c = Char.ofNat 39 then ['\\', c] else [c]
    '"' :: text.flatMap escape ++ ['"']

def Arg.text : Arg → List Char
  | word text => text
  | comment text => "-m comment --comment ".toList ++ saveString text

/-- The line of a rule in the listing of its chain. -/
def Rule.line (c : Chain) (r : Rule) : List Char :=
  "-A ".toList ++ (c.name.toList ++ r.flatMap fun a => ' ' :: a.text)

/-- The listing of a chain: what it is, and a line for every rule. -/
def listing (c : Chain) (rules : List Rule) : List (List Char) :=
  (match c with
    | .filterDockerUser => "-N ".toList ++ c.name.toList
    | _ => "-P ".toList ++ c.name.toList ++ " ACCEPT".toList) :: rules.map (Rule.line c)

/-- The line of a rule of Docker's chain. -/
def DockerRule.line (r : DockerRule) : List Char :=
  "\t\t".toList ++ [' '].intercalate r.words
    ++ (match r.comment with
      | some text => " comment ".toList ++ quoted text
      | none => [])
    ++ " # handle ".toList ++ decimal r.handle.toNat

def dockerListing (rules : List DockerRule) : List (List Char) :=
  ["table ip filter \x7b".toList, "\tchain DOCKER-USER \x7b # handle 1".toList]
    ++ rules.map DockerRule.line ++ ["\t\x7d".toList, "\x7d".toList]

/-! ### Teardown -/

/-- Count a line that is a rule, and note its number if it has the tag in its text. -/
def countLine (seen : ℕ × List ℕ) (line : List Char) : ℕ × List ℕ :=
  match stripPrefix "-A ".toList line with
  | some rest => (seen.1 + 1, if tag <:+: rest then seen.2 ++ [seen.1 + 1] else seen.2)
  | none => seen

/-- The numbers of the rules of a listing that have the tag in their text. -/
def taggedNumbers (lines : List (List Char)) : List ℕ :=
  (lines.foldl countLine (0, [])).2

/-- The rules of a chain after a flush: those found are deleted, the last one first. -/
def flushChain (fails : Command → Bool) (c : Chain) (rules : List Rule) : List Rule :=
  if fails (.listChain c) then rules
  else
    (taggedNumbers (listing c rules)).reverse.foldl
      (fun rules n => if fails (.deleteRule c n) then rules else rules.eraseIdx (n - 1)) rules

def flushIptables (fails : Command → Bool) (h : Host) : Host :=
  iptChains.foldl (fun h c =>
    { h with chains := Function.update h.chains c ((h.chains c).map (flushChain fails c)) }) h

/-- What follows the last place where a text stands. -/
def afterText (text : List Char) : List Char → Option (List Char)
  | [] => none
  | c :: l =>
      match afterText text l with
      | some rest => some rest
      | none => stripPrefix text (c :: l)

/-- The handle at the end of a line. -/
def lineHandle (line : List Char) : Option UInt64 :=
  (parseDecimal (2 ^ 64) (trim ((afterText "# handle ".toList line).getD line))).map UInt64.ofNat

def commentText : List Char := "comment \"zeronat\"".toList

def deleteHandle (handle : UInt64) (rules : List DockerRule) : List DockerRule :=
  rules.filter (·.handle ≠ handle)

/-- Delete the rule of a line that has the comment. -/
def deleteLine (fails : Command → Bool) (rules : List DockerRule) (line : List Char) :
    List DockerRule :=
  if commentText <:+: line then
    match lineHandle line with
    | some handle => if fails (.deleteHandle handle) then rules else deleteHandle handle rules
    | none => rules
  else rules

/-- The rules of Docker's chain after the deletion of those that are found in the listing. -/
def deleteListed (fails : Command → Bool) (rules : List DockerRule) : List DockerRule :=
  (dockerListing rules).foldl (deleteLine fails) rules

def nftDeleteDockerUserRules (fails : Command → Bool) (h : Host) : Host :=
  if fails .listDocker then h else { h with docker := h.docker.map (deleteListed fails) }

/-! ### Install -/

inductive Backend where
  | nft
  | iptables
deriving DecidableEq

inductive Outcome where
  | installed (backend : Backend)
  | degraded
deriving DecidableEq

def nftDeleteTable (fails : Command → Bool) (h : Host) : Host :=
  if fails .deleteTable then h else { h with table := none }

/-- A handle that is not in use. -/
def freshHandle (rules : List DockerRule) : UInt64 :=
  rules.foldl (fun n r => max n r.handle) 0 + 1

/-- Insert an accept at the top of Docker's chain. -/
def insertAccept (rules : List DockerRule) (words : List (List Char)) : List DockerRule :=
  ⟨freshHandle rules, words, some tag⟩ :: rules

/-- The accepts in Docker's chain, if it is there. -/
def applyDockerScript (fails : Command → Bool) (plan : NatPlan) (h : Host) : Host :=
  if fails .dockerExists ∨ fails .dockerScript then h
  else
    { h with docker := h.docker.map fun rules =>
        (nftDockerUserScript plan).foldl insertAccept rules }

/-- Whether the script was applied, and the host afterwards. -/
def installNft (fails : Command → Bool) (plan : NatPlan) (h : Host) : Bool × Host :=
  let h := nftDeleteDockerUserRules fails (nftDeleteTable fails h)
  if fails .script then (false, h)
  else
    let h := { h with table := some (h.table.getD [] ++ nftScript plan) }
    (true, applyDockerScript fails plan h)

/-- Add the rules one by one, up to the first that cannot be added. -/
def addRules (fails : Command → Bool) : List IptRule → Host → Bool × Host
  | [], h => (true, h)
  | r :: rules, h =>
      match h.chains r.chain with
      | none => (false, h)
      | some chain =>
          if fails (.add r) then (false, h)
          else
            addRules fails rules { h with
              chains := Function.update h.chains r.chain
                (some (if r.insert then r.args :: chain else chain ++ [r.args])) }

def installIptables (fails : Command → Bool) (rules : List IptRule) (h : Host) : Bool × Host :=
  addRules fails rules (flushIptables fails h)

/-- Whether Docker's chain is found. -/
def dockerUserFound (fails : Command → Bool) (h : Host) : Bool :=
  !fails .chainExists && (h.chains .filterDockerUser).isSome

def install (fails : Command → Bool) (plan : NatPlan) (h : Host) : Outcome × Host :=
  let haveNft := !fails .nftVersion
  let haveIpt := !fails .iptablesVersion
  let (nft, h) := if haveNft then installNft fails plan h else (false, h)
  if nft then (.installed .nft, h)
  else
    let (ipt, h) :=
      if haveIpt then installIptables fails (iptablesRules plan (dockerUserFound fails h)) h
      else (false, h)
    if ipt then (.installed .iptables, h) else (.degraded, h)

end ZeroNat.Netfilter

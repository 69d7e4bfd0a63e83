import Mathlib.Data.List.Sort
import ZeroNat.Dht.Bencode
import ZeroNat.Lib.BigEndian
import ZeroNat.Net
import ZeroNat.Proto.Wire

/-!
# Nodes of the distributed hash table

An iterative lookup: rounds of queries toward a target, each to the closest contacts not yet
queried, then a closing round over contacts that hold no write token yet.  What came in during
a round is a list of datagrams; an answer is taken when its transaction and its source are those
of a query of the round.  A put goes to the contacts that returned write tokens.
-/

open BigEndian

namespace ZeroNat.Dht

/-- The contacts asked in a round, and the storers a lookup returns. -/
def k : ℕ := 8

def rounds : ℕ := 6

/-- The size of the receive buffer. -/
def recvBuf : ℕ := 2048

/-- How many live nodes are kept for the next lookup. -/
def maxPersistedNodes : ℕ := 64

structure SocketAddrV4 where
  ip : Ipv4Addr
  port : UInt16
deriving DecidableEq

abbrev NodeId : Type := Bytes 20

/-- A node, and its write token once it has given one. -/
structure Contact where
  id : NodeId
  addr : SocketAddrV4
  token : Option (List UInt8)
deriving DecidableEq

/-- A mutable item as it was found, before its signature is verified. -/
structure Value where
  k : Bytes 32
  seq : Int64
  v : List UInt8
  sig : Bytes 64
deriving DecidableEq

/-- The outcome of a lookup: nodes to store at, the values found, and the address those nodes
saw us at. -/
structure Lookup where
  storers : List Contact
  values : List Value
  externalIp : Option Ipv4Addr

/-- An answer to a query. -/
structure Parsed where
  source : SocketAddrV4
  id : Option NodeId
  token : Option (List UInt8)
  nodes : List Contact
  ip : Option Ipv4Addr
  value : Option Value
deriving DecidableEq

/-! ### Answers -/

def parseSockv4 (b : List UInt8) : Option SocketAddrV4 :=
  if b.length ≠ 6 then none
  else some ⟨⟨UInt32.ofNat (ofBe (b.take 4))⟩, UInt16.ofNat (ofBe (b.drop 4))⟩

def parseIpv4 (b : List UInt8) : Option Ipv4Addr :=
  (parseSockv4 b).map SocketAddrV4.ip

/-- The contacts of a compact list; a partial one at its end is ignored. -/
def parseNodes (b : List UInt8) : List Contact :=
  (List.range (b.length / 26)).filterMap fun i => do
    let c := (b.drop (26 * i)).take 26
    let id ← Bytes.ofList? 20 (c.take 20)
    let addr ← parseSockv4 (c.drop 20)
    some ⟨id, addr, none⟩

def parseValue (r : Ben) : Option Value := do
  let k ← (r.get (utf8 "k")).bind Ben.bytes?
  let k ← Bytes.ofList? 32 k
  let sig ← (r.get (utf8 "sig")).bind Ben.bytes?
  let sig ← Bytes.ofList? 64 sig
  let seq ← (r.get (utf8 "seq")).bind Ben.int?
  let v ← (r.get (utf8 "v")).bind Ben.bytes?
  some ⟨k, seq, v, sig⟩

/-- An answer to one of the queries of a table of transactions, each with the address it was
sent to. -/
def parseResponse (buf : List UInt8) (txmap : List (UInt16 × SocketAddrV4))
    (source : SocketAddrV4) : Option Parsed := do
  let msg ← decode buf
  let y ← (msg.get (utf8 "y")).bind Ben.bytes?
  if y ≠ utf8 "r" then none
  let t ← (msg.get (utf8 "t")).bind Ben.bytes?
  if t.length ≠ 2 then none
  let tx := UInt16.ofNat (ofBe t)
  if (tx, source) ∉ txmap then none
  let r ← msg.get (utf8 "r")
  some
    { source := source
      id := ((r.get (utf8 "id")).bind Ben.bytes?).bind (Bytes.ofList? 20)
      token := (r.get (utf8 "token")).bind Ben.bytes?
      nodes := (((r.get (utf8 "nodes")).bind Ben.bytes?).map parseNodes).getD []
      ip := ((msg.get (utf8 "ip")).bind Ben.bytes?).bind parseIpv4
      value := parseValue r }

/-- A datagram and where it came from. -/
structure Datagram where
  bytes : List UInt8
  source : SocketAddr

/-- The answers among the datagrams received until the queries of a table time out. -/
def gather (txmap : List (UInt16 × SocketAddrV4)) (received : List Datagram) : List Parsed :=
  received.filterMap fun d =>
    match d.source with
    | .v4 ip port => parseResponse (d.bytes.take recvBuf) txmap ⟨ip, port⟩
    | .v6 _ _ _ _ => none

/-- The transactions of a round of queries: the first 256 contacts are asked. -/
def roundTxmap (contacts : List Contact) (round : ℕ) : List (UInt16 × SocketAddrV4) :=
  (contacts.take 256).zipIdx.map fun (c, i) =>
    (UInt16.ofNat (round <<< 8) ||| UInt16.ofNat i, c.addr)

/-- The transactions of a put: the contacts with a token are asked. -/
def putTxmap (storers : List Contact) : List (UInt16 × SocketAddrV4) :=
  (storers.zipIdx.filter fun (c, _) => c.token.isSome).map fun (c, i) =>
    ((0xF000 : UInt16) ||| UInt16.ofNat i, c.addr)

/-- How many nodes acknowledged a put. -/
def put (storers : List Contact) (received : List Datagram) : ℕ :=
  (gather (putTxmap storers) received).length

/-! ### The walk -/

/-- Add an address to a set unless it is there already, and whether it was added. -/
def note (set : List SocketAddrV4) (addr : SocketAddrV4) : List SocketAddrV4 × Bool :=
  if addr ∈ set then (set, false) else (set ++ [addr], true)

/-- Add addresses to a set one after another. -/
def noteAll (set addrs : List SocketAddrV4) : List SocketAddrV4 :=
  addrs.foldl (fun set a => (note set a).1) set

/-- Count one vote for an address. -/
def vote (votes : List (Ipv4Addr × ℕ)) (ip : Ipv4Addr) : List (Ipv4Addr × ℕ) :=
  match votes with
  | [] => [(ip, 1)]
  | (v, n) :: rest => if v = ip then (v, n + 1) :: rest else (v, n) :: vote rest ip

/-- The distance to the target. -/
def dist (a target : NodeId) : NodeId :=
  List.Vector.map₂ (· ^^^ ·) a target

/-- Distances are ordered by their bytes from the first on, which is how the numbers they spell
are ordered. -/
def Contact.dist (target : NodeId) (c : Contact) : ℕ :=
  ofBe (Dht.dist c.id target).toList

/-- Contacts by their distance to the target; equals keep their order. -/
def sortByDist (target : NodeId) (l : List Contact) : List Contact :=
  l.insertionSort fun a b => a.dist target ≤ b.dist target

/-- Keep the contacts whose addresses are not noted yet, noting them. -/
def retainNoted (set : List SocketAddrV4) : List Contact → List Contact
  | [] => []
  | c :: rest =>
      if (note set c.addr).2 then c :: retainNoted (note set c.addr).1 rest
      else retainNoted (note set c.addr).1 rest

/-- What one lookup has gathered so far. -/
structure Walk where
  shortlist : List Contact := []
  seen : List SocketAddrV4 := []
  queried : List SocketAddrV4 := []
  known : List Contact := []
  storers : List Contact := []
  values : List Value := []
  ipVotes : List (Ipv4Addr × ℕ) := []
  responders : List SocketAddrV4 := []

namespace Walk

/-- Put a contact on the shortlist when its address is new. -/
def discover (w : Walk) (c : Contact) : Walk :=
  let (seen, added) := note w.seen c.addr
  { w with seen := seen, shortlist := if added then w.shortlist ++ [c] else w.shortlist }

/-- Record one answer: its vote, value and write token, and, while the walk discovers, the
responder and the contacts it named. -/
def record (w : Walk) (p : Parsed) (discovering : Bool) : Walk :=
  let w := { w with
    responders := w.responders ++ [p.source]
    ipVotes := match p.ip with
      | some ip => vote w.ipVotes ip
      | none => w.ipVotes
    values := w.values ++ p.value.toList
    storers := match p.id, p.token with
      | some id, some token => w.storers ++ [⟨id, p.source, some token⟩]
      | _, _ => w.storers }
  if discovering then
    let w := { w with
      known := match p.id with
        | some id => w.known ++ [⟨id, p.source, none⟩]
        | none => w.known }
    p.nodes.foldl discover w
  else w

/-- Take the answers of a round to the contacts queried, and pick the closest unqueried ones for
the next round. -/
def absorb (w : Walk) (queried : List Contact) (answers : List Parsed) (target : NodeId) :
    Walk × List Contact :=
  let w := { w with queried := noteAll w.queried (queried.map Contact.addr) }
  let w := answers.foldl (fun w p => w.record p true) w
  let w := { w with shortlist := sortByDist target w.shortlist }
  (w, (w.shortlist.filter fun c : Contact => c.addr ∉ w.queried).take k)

/-- The closest contacts still worth a closing query: responders that hold no token yet, and
discovered nodes never queried. -/
def finalists (w : Walk) (target : NodeId) : List Contact :=
  let withToken := w.storers.map Contact.addr
  let answered := w.known.map Contact.addr
  let candidates := (w.known ++ w.shortlist).filter fun c : Contact =>
    c.addr ∉ withToken ∧ (c.addr ∈ answered ∨ c.addr ∉ w.queried)
  (sortByDist target (retainNoted [] candidates)).take k

/-- The last of the entries with the most votes. -/
def mostVoted (votes : List (Ipv4Addr × ℕ)) : Option (Ipv4Addr × ℕ) :=
  votes.foldl (fun best v =>
    match best with
    | none => some v
    | some b => if v.2 < b.2 then some b else some v) none

/-- The first addresses of a list, without repetition, as many as are kept. -/
def keepLive (live : List SocketAddrV4) : List SocketAddrV4 → List SocketAddrV4
  | [] => live
  | a :: rest =>
      let live := (note live a).1
      if maxPersistedNodes ≤ live.length then live else keepLive live rest

/-- The outcome of the lookup and the live nodes to keep. -/
def finish (w : Walk) (target : NodeId) : Lookup × List SocketAddrV4 :=
  let storers := (retainNoted [] (sortByDist target w.storers)).take k
  let live := keepLive [] (storers.map Contact.addr ++ w.responders)
  ({ storers := storers, values := w.values, externalIp := (mostVoted w.ipVotes).map Prod.fst },
    live)

end Walk

/-! ### The rounds

The answers of a round are given by what came in: `ask r contacts` are the answers to the
queries of round `r` to the contacts. -/

section Rounds

variable (target : NodeId) (seed : List SocketAddrV4) (ask : ℕ → List Contact → List Parsed)

/-- What has been gathered before a round, and the contacts it asks. -/
def before : ℕ → Walk × List Contact
  | 0 => ({}, seed.map fun addr => ⟨Bytes.zero 20, addr, none⟩)
  | r + 1 =>
      let (w, current) := before r
      if current.isEmpty then (w, current) else w.absorb current (ask r current) target

/-- The contacts asked in the closing round: none when there are enough token holders. -/
def closing : List Contact :=
  let w := (before target seed ask rounds).1
  if w.storers.length < k then w.finalists target else []

/-- Walk toward the target, and ask once more in a closing round. -/
def walk : Lookup × List SocketAddrV4 :=
  let w := (before target seed ask rounds).1
  let finalists := closing target seed ask
  let w := if finalists.isEmpty then w
    else (ask rounds finalists).foldl (fun w p => w.record p false) w
  w.finish target

end Rounds

/-- The answers of a round, among the datagrams received in it. -/
def askWith (received : ℕ → List Datagram) (r : ℕ) (contacts : List Contact) : List Parsed :=
  gather (roundTxmap contacts r) (received r)

/-- The addresses a lookup starts from: those kept from an earlier one and those of the
bootstrap routers, each once. -/
def seeds (cached booted : List SocketAddrV4) : List SocketAddrV4 :=
  noteAll [] (cached ++ booted)

/-- Look a target up, with the live nodes to keep. -/
def lookup (target : NodeId) (cached booted : List SocketAddrV4)
    (received : ℕ → List Datagram) : Result (Lookup × List SocketAddrV4) :=
  if (seeds cached booted).isEmpty then .error "dht bootstrap resolution failed"
  else .ok (walk target (seeds cached booted) (askWith received))

end ZeroNat.Dht

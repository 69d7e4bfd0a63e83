import Mathlib.Data.Finset.Basic
import Mathlib.Data.Finset.Dedup
import ZeroNat.Lib.Run
import ZeroNat.Uplink.Pins

/-!
# The exit routes and their guards

Bringing the exit routes up, keeping the pin on the server, and taking the routes off again, one
request to the kernel at a time.  The base set is the pin and the two halves over the tunnel; the
strict set on top of it takes the default routes away, and the halves of IPv6, which are not in
this table.  A request may be refused for reasons of its own.
-/

namespace ZeroNat.Uplink

/-! ### The kernel -/

inductive Answer where
  | ok
  | alreadyExists
  | failed
deriving DecidableEq

/-- The answer to a request to add or delete a route, and the table after it. -/
def kernel (fault add : Bool) (r : Route) (table : Finset Route) : Answer × Finset Route :=
  if fault then (.failed, table)
  else if add then
    if r ∈ table then (.alreadyExists, table) else (.ok, insert r table)
  else
    if r ∈ table then (.ok, table.erase r) else (.failed, table)

/-- The metric of a request, in sixteen bits with a sign. -/
def rtMetric (priority : UInt32) : ℕ :=
  min (min (priority.toNat + 1) (2 ^ 32 - 1)) (2 ^ 15 - 1)

/-- The route of a request: the kernel takes one off its metric. -/
def requested (dst : Ipv4Addr) (plen : ℕ) (gw : Option Ipv4Addr) (dev : List Char)
    (priority : UInt32) : Route :=
  ⟨dst, plen, UInt32.ofNat (rtMetric priority - 1), gw, dev⟩

def modifyRoute (fault add : Bool) (dst : Ipv4Addr) (plen : ℕ) (gw : Option Ipv4Addr)
    (dev : List Char) (priority : UInt32) (table : Finset Route) : Answer × Finset Route :=
  kernel fault add (requested dst plen gw dev priority) table

/-- Make a change of the base set. -/
def RouteChange.apply (c : RouteChange) (fault : Bool) (table : Finset Route) :
    Answer × Finset Route :=
  modifyRoute fault c.add c.dst c.plen c.gw c.dev 0 table

/-- A change of the strict set. -/
inductive StrictChange where
  | default (add : Bool) (gw : Option Ipv4Addr) (iface : List Char) (metric : UInt32)
  | v6Half (add : Bool) (dst : Bytes 16) (plen : ℕ)
deriving DecidableEq

/-- Make a change of the strict set.  The routes of IPv6 are in another table. -/
def StrictChange.apply (c : StrictChange) (fault : Bool) (table : Finset Route) :
    Answer × Finset Route :=
  match c with
  | default add gw iface metric => modifyRoute fault add ⟨0⟩ 0 gw iface metric table
  | v6Half _ _ _ => (if fault then .failed else .ok, table)

/-! ### The guards -/

/-- What the base guard adds in this order, and removes in the opposite one. -/
def baseChanges (pin : UplinkPin) (tunName : List Char) (add : Bool) : List RouteChange :=
  pin.change add :: halfChanges add tunName

/-- Move a default towards the front, past the ones of a lower metric.  What is in front of it
comes last one first. -/
def sink (d : CapturedDefault) : List CapturedDefault → List CapturedDefault
  | [] => [d]
  | e :: before => if e.metric < d.metric then e :: sink d before else d :: e :: before

/-- The defaults with the worst metric first. -/
def worstFirst (defaults : List CapturedDefault) : List CapturedDefault :=
  (defaults.foldl (fun before d => sink d before) []).reverse

def v6HalfDefaults : List (Bytes 16) :=
  [Bytes.zero 16, ⟨0x80 :: List.replicate 15 0, rfl⟩]

/-- What the strict guard does in this order, and undoes in the opposite one. -/
def strictChanges (defaults : List CapturedDefault) (up : Bool) : List StrictChange :=
  v6HalfDefaults.map (fun dst => .v6Half up dst 1) ++
    defaults.map fun d =>
      .default (!up) (if d.gateway ≠ ⟨0⟩ then some d.gateway else none) d.iface d.metric

/-- Where the guards are: in the middle of a loop over the changes that are still to be made, at
rest, or in the middle of an assertion of the pin. -/
inductive Phase where
  | base (todo : List RouteChange)
  | strict (todo : List StrictChange)
  | held
  | unpin (server : Ipv4Addr)
  | repin
  | unstrict (todo : List StrictChange)
  | unbase (todo : List RouteChange)
  | dropped
deriving DecidableEq

/-- Whether the next request undoes something. -/
def Phase.undoes : Phase → Bool
  | unpin _ => true
  | unstrict _ => true
  | unbase _ => true
  | _ => false

/-- The guards and the kernel.  `moved` says that an assertion for another address has taken the
old pin off, and that no add of the new one was answered since. -/
structure ExitRoutes where
  table : Finset Route
  pin : UplinkPin
  tunName : List Char
  defaults : Option (List CapturedDefault)
  phase : Phase
  moved : Bool
deriving DecidableEq

inductive Action where
  /-- the next request, refused for a reason of its own or not -/
  | next (fault : Bool)
  | assertPin (server : Ipv4Addr)
  | drop
deriving DecidableEq

/-- The start of a bring-up from a table and its text. -/
def bringUpFromTable (contents tunName : List Char) (server : Ipv4Addr) (strict : Bool)
    (table : Finset Route) : Except String ExitRoutes := do
  let pin ← planServerPin contents tunName server
  let original ←
    if strict then
      let defaults := parseAllDefaults contents tunName
      if defaults = [] then .error "no default route to capture for strict exit"
      else .ok (some defaults)
    else .ok none
  pure ⟨table, pin, tunName, original, .base (baseChanges pin tunName true), false⟩

namespace ExitRoutes

/-- Begin to drop the base guard. -/
def dropBase (s : ExitRoutes) : ExitRoutes :=
  { s with phase := .unbase (baseChanges s.pin s.tunName false).reverse }

/-- Begin to drop the strict guard, or the base guard when there is no other. -/
def dropAll (s : ExitRoutes) : ExitRoutes :=
  match s.defaults with
  | none => s.dropBase
  | some defaults => { s with phase := .unstrict (strictChanges defaults false).reverse }

/-- The strict set follows the base set. -/
def enterStrict (s : ExitRoutes) : ExitRoutes :=
  match s.defaults with
  | none => { s with phase := .held }
  | some defaults =>
      { s with
        defaults := some (worstFirst defaults)
        phase := .strict (strictChanges (worstFirst defaults) true) }

/-- The next request of the phase, or the end of a loop. -/
def next (s : ExitRoutes) (fault : Bool) : Option ExitRoutes :=
  match s.phase with
  | .base [] => some s.enterStrict
  | .base (c :: todo) =>
      let r := c.apply fault s.table
      if r.1 = .failed then some { s with table := r.2 }.dropBase
      else some { s with table := r.2, phase := .base todo }
  | .strict [] => some { s with phase := .held }
  | .strict (c :: todo) =>
      let r := c.apply fault s.table
      if r.1 = .ok then some { s with table := r.2, phase := .strict todo }
      else some { s with table := r.2 }.dropAll
  | .held => none
  | .unpin server =>
      some { s with
        table := ((s.pin.change false).apply fault s.table).2
        pin := s.pin.withAddr server
        phase := .repin
        moved := true }
  | .repin =>
      let r := (s.pin.change true).apply fault s.table
      some { s with
        table := r.2
        phase := .held
        moved := if r.1 = .failed then s.moved else false }
  | .unstrict [] => some s.dropBase
  | .unstrict (c :: todo) => some { s with table := (c.apply fault s.table).2, phase := .unstrict todo }
  | .unbase [] => some { s with phase := .dropped }
  | .unbase (c :: todo) => some { s with table := (c.apply fault s.table).2, phase := .unbase todo }
  | .dropped => none

def step (s : ExitRoutes) : Action → Option ExitRoutes
  | .next fault => s.next fault
  | .assertPin server =>
      if s.phase = .held then
        some { s with phase := if s.pin.addr ≠ server then .unpin server else .repin }
      else none
  | .drop => if s.phase = .held then some s.dropAll else none

/-- A request that undoes something is not refused. -/
def Unrefused (s : ExitRoutes) : Action → Prop
  | .next fault => s.phase.undoes = true → fault = false
  | .assertPin _ => True
  | .drop => True

instance (s : ExitRoutes) (a : Action) : Decidable (s.Unrefused a) :=
  match a with
  | .next _ => inferInstanceAs (Decidable (_ → _))
  | .assertPin _ => inferInstanceAs (Decidable True)
  | .drop => inferInstanceAs (Decidable True)

end ExitRoutes

end ZeroNat.Uplink

import ZeroNat.Lib.Nearest
import ZeroNat.Uplink.Table

/-!
# The plan of the pins

The host routes that keep the server and the peers on the uplink while two routes, each over half
of the address space, point at the tunnel.  They are planned from the text of the route table.  In
terms of the rows, every pin goes through one default, the uplink: the one of the lowest metric
among those with a gateway, or else among all of them.
-/

namespace ZeroNat.Uplink

/-- A host route through the uplink: by a gateway, or on the link. -/
inductive UplinkPin where
  | viaGateway (addr gateway : Ipv4Addr) (iface : List Char)
  | onLink (addr : Ipv4Addr) (iface : List Char)
deriving DecidableEq

/-- A change of the route table. -/
structure RouteChange where
  add : Bool
  dst : Ipv4Addr
  plen : ℕ
  gw : Option Ipv4Addr
  dev : List Char
deriving DecidableEq

namespace UplinkPin

/-- The pinned address. -/
def addr : UplinkPin → Ipv4Addr
  | viaGateway addr _ _ => addr
  | onLink addr _ => addr

/-- The same uplink for a different address. -/
def withAddr (addr : Ipv4Addr) : UplinkPin → UplinkPin
  | viaGateway _ gateway iface => viaGateway addr gateway iface
  | onLink _ iface => onLink addr iface

/-- The pin as a change. -/
def change (add : Bool) : UplinkPin → RouteChange
  | viaGateway addr gateway iface => ⟨add, addr, 32, some gateway, iface⟩
  | onLink addr iface => ⟨add, addr, 32, none, iface⟩

end UplinkPin

/-- The halves of the address space. -/
def halfDefaults : List (Ipv4Addr × ℕ) :=
  [(⟨0⟩, 1), (⟨0x80000000⟩, 1)]

/-- The changes that point the halves at the tunnel. -/
def halfChanges (add : Bool) (tunName : List Char) : List RouteChange :=
  halfDefaults.map fun half => ⟨add, half.1, half.2, none, tunName⟩

/-- The route of a change: changes are made at the lowest metric. -/
def RouteChange.route (c : RouteChange) : Route :=
  ⟨c.dst, c.plen, 0, c.gw, c.dev⟩

theorem plen_of_mem_halves {r : Route} {tun : List Char}
    (h : r ∈ (halfChanges true tun).map RouteChange.route) :
  r.plen = 1
  := by
  simp only [halfChanges, halfDefaults, List.map_cons, List.map_nil, List.mem_cons,
    List.not_mem_nil, or_false] at h
  obtain rfl | rfl := h <;> rfl

def noDefaultRoute : String :=
  "no default route to pin the server through"

/-- Decide the pin of an address from the table. -/
def planServerPin (procRoute tunName : List Char) (server : Ipv4Addr) :
    Except String UplinkPin :=
  match parseProcRoute procRoute tunName with
  | some d => .ok (.viaGateway server d.gateway d.iface)
  | none =>
      match defaultRouteIface procRoute tunName with
      | some iface => .ok (.onLink server iface)
      | none => .error noDefaultRoute

/-- The pins of the peers that no route reaches more specifically than the halves do. -/
def planUnderlayPins (procRoute tunName : List Char) :
    List Ipv4Addr → Except String (List UplinkPin)
  | [] => .ok []
  | peer :: peers =>
      if coveredBeyondHalf procRoute tunName peer then planUnderlayPins procRoute tunName peers
      else do
        let pin ← planServerPin procRoute tunName peer
        let pins ← planUnderlayPins procRoute tunName peers
        pure (pin :: pins)

/-! ### The uplink -/

/-- The first route of the lowest metric. -/
def cheapest (routes : List Route) : Option Route :=
  routes.argmin fun r => r.metric.toNat

/-- The default that pins go through. -/
def uplink (routes : List Route) : Option Route :=
  (cheapest (routes.filter fun r : Route => r.IsDefault ∧ r.gw ≠ none)).or
    (cheapest (routes.filter fun r : Route => r.IsDefault))

/-- The pin of an address through a route. -/
def Route.pin (d : Route) (a : Ipv4Addr) : UplinkPin :=
  match d.gw with
  | some gateway => .viaGateway a gateway d.dev
  | none => .onLink a d.dev

/-- Where a route sends what it reaches. -/
def Route.hop (r : Route) : Option Ipv4Addr × List Char :=
  (r.gw, r.dev)

theorem Route.change_pin (d : Route) (add : Bool) (a : Ipv4Addr) :
  (d.pin a).change add = ⟨add, a, 32, d.gw, d.dev⟩
  := by
  cases h : d.gw <;> simp [pin, h, UplinkPin.change]

/-- Some route reaches the address more specifically than a half does. -/
def Covered (routes : List Route) (a : Ipv4Addr) : Prop :=
  ∃ r ∈ routes, 1 < r.plen ∧ r.Reaches a

instance (routes : List Route) : DecidablePred (Covered routes) := fun a =>
  List.decidableBEx (fun r : Route => 1 < r.plen ∧ r.Reaches a) routes

/-- The best default is the first of the lowest metric. -/
theorem parseDefault_eq_argmin (contents skipIface : List Char) (requireGateway : Bool) :
  parseDefault contents skipIface requireGateway =
    (scanDefaults contents skipIface requireGateway).argmin fun d => d.metric.toNat
  := by
  rw [parseDefault]
  induction scanDefaults contents skipIface requireGateway using List.reverseRecOn with
  | nil => rfl
  | append_singleton l d ih =>
      rw [List.foldl_append, ih, List.argmin_concat]
      cases l.argmin fun d => d.metric.toNat with
      | none => rfl
      | some b => simp only [List.foldl_cons, List.foldl_nil, UInt32.lt_iff_toNat_lt]

section Render

variable (rows : List Row) (tun : List Char)

/-- The best default that a scan of a table finds. -/
theorem parseDefault_render (requireGateway : Bool) :
  parseDefault (render rows) tun requireGateway =
    (cheapest ((outside tun rows).filter
      fun r : Route => r.IsDefault ∧ (requireGateway = true → r.gw ≠ none))).map Route.captured
  := by
  rw [parseDefault_eq_argmin, scanDefaults_render, List.argmin_map]
  rfl

/-- A pin goes through the uplink, and there is none without one. -/
theorem planServerPin_render (a : Ipv4Addr) :
  planServerPin (render rows) tun a =
    match uplink (outside tun rows) with
    | some d => .ok (d.pin a)
    | none => .error noDefaultRoute
  := by
  rw [planServerPin, parseProcRoute, defaultRouteIface, parseDefault_render, parseDefault_render,
    uplink]
  simp only [true_implies, Bool.false_eq_true, false_implies, and_true]
  cases hgw : cheapest ((outside tun rows).filter fun r => r.IsDefault ∧ r.gw ≠ none) with
  | some d =>
      have hd := (List.mem_filter.mp (List.argmin_mem hgw)).2
      rw [decide_eq_true_iff] at hd
      obtain ⟨gateway, hgateway⟩ := Option.ne_none_iff_exists'.mp hd.2
      simp [Route.captured, Route.pin, hgateway]
  | none =>
      cases hany : cheapest ((outside tun rows).filter fun r => r.IsDefault) with
      | none => rfl
      | some d =>
          -- no default has a gateway, so this one has none
          have hd := List.mem_filter.mp (List.argmin_mem hany)
          have hempty := List.filter_eq_nil_iff.mp (List.argmin_eq_none.mp hgw) d hd.1
          rw [decide_eq_true_iff] at hd hempty
          have hnone : d.gw = none := by
            by_contra hne
            exact hempty ⟨hd.2, hne⟩
          simp [Route.captured, Route.pin, hnone]

theorem coveredBeyondHalf_eq (a : Ipv4Addr) :
  coveredBeyondHalf (render rows) tun a = decide (Covered (outside tun rows) a)
  := by
  rw [Bool.eq_iff_iff, coveredBeyondHalf_render, decide_eq_true_iff, Covered]

/-- With an uplink, every peer that is not covered is pinned through it. -/
theorem planUnderlayPins_of_uplink {d : Route} (h : uplink (outside tun rows) = some d)
    (peers : List Ipv4Addr) :
  planUnderlayPins (render rows) tun peers =
    .ok ((peers.filter fun a => ¬ Covered (outside tun rows) a).map d.pin)
  := by
  induction peers with
  | nil => rfl
  | cons a peers ih =>
      rw [planUnderlayPins, coveredBeyondHalf_eq, planServerPin_render, h, ih]
      by_cases hcov : Covered (outside tun rows) a
      · simp [hcov]
      · simp [hcov]
        rfl

/-- Without an uplink, the peers have a plan when all of them are covered. -/
theorem planUnderlayPins_of_no_uplink (h : uplink (outside tun rows) = none)
    (peers : List Ipv4Addr) :
  planUnderlayPins (render rows) tun peers =
    if ∀ a ∈ peers, Covered (outside tun rows) a then .ok [] else .error noDefaultRoute
  := by
  induction peers with
  | nil => rfl
  | cons a peers ih =>
      rw [planUnderlayPins, coveredBeyondHalf_eq, planServerPin_render, h, ih]
      by_cases hcov : Covered (outside tun rows) a
      · simp [hcov]
      · simp [hcov]
        rfl

end Render

end ZeroNat.Uplink

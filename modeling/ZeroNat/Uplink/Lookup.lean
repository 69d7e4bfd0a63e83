import Mathlib.Data.Prod.Lex
import ZeroNat.Uplink.Pins

/-!
# Lookup, before and after the pins

The route that a table selects for an address: the longest prefix, then the lowest metric, then the
order of the table.  Installing the pins and the halves leaves where the server and the peers are
sent as it was, except for addresses that are pinned through another hop than the one the table
selects for them.
-/

namespace ZeroNat.Uplink

/-- The rank of a route in a lookup, the lowest first. -/
def Route.key (r : Route) : ℕ ×ₗ ℕ :=
  toLex (32 - r.plen, r.metric.toNat)

/-- The route that a table selects for an address. -/
def select (routes : List Route) (a : Ipv4Addr) : Option Route :=
  (routes.filter fun r => r.Reaches a).argmin Route.key

/-- Some route reaches the address. -/
def Reached (routes : List Route) (a : Ipv4Addr) : Prop :=
  ∃ r ∈ routes, r.Reaches a

/-- A table after routes were added to it, each at any place: what was there stays in its order,
and a route that was there already is not added again. -/
structure Installed (before added after : List Route) : Prop where
  kept : after.filter (· ∈ before) = before
  mem_iff : ∀ r, r ∈ after ↔ r ∈ before ∨ r ∈ added

/-- The pins keep the underlay on its path: a planner fails only at an address that is not reached,
and when both succeed, the server and the peers are sent where they were sent before. -/
structure KeepsPath (rows : List Row) (tun : List Char) (server : Ipv4Addr)
    (peers : List Ipv4Addr) : Prop where
  server_error : ∀ e, planServerPin (render rows) tun server = .error e →
    ¬ Reached (outside tun rows) server
  peer_error : ∀ front peer rest pins e, peers = front ++ peer :: rest →
    planUnderlayPins (render rows) tun front = .ok pins →
    planUnderlayPins (render rows) tun (front ++ [peer]) = .error e →
    ¬ Reached (outside tun rows) peer
  kept : ∀ pin pins, planServerPin (render rows) tun server = .ok pin →
    planUnderlayPins (render rows) tun peers = .ok pins →
    ∀ after, Installed (outside tun rows)
      ((pins.map (·.change true) ++ pin.change true :: halfChanges true tun).map
        RouteChange.route) after →
    ∀ a ∈ server :: peers, ∀ r, select (outside tun rows) a = some r →
      (select after a).map Route.hop = some r.hop

/-- The condition on a table.  Without a default, the server is not reached, and neither is the
first peer that is not covered.  With a default, the server and every peer that is not covered is
sent through the uplink already, or its pin is in the table. -/
def ThroughUplink (routes : List Route) (server : Ipv4Addr) (peers : List Ipv4Addr) : Prop :=
  match uplink routes with
  | none => ¬ Reached routes server ∧
      ∀ a, peers.find? (fun a => ¬ Covered routes a) = some a → ¬ Reached routes a
  | some d => ∀ a ∈ server :: peers, a = server ∨ ¬ Covered routes a →
      (⟨a, 32, 0, d.gw, d.dev⟩ : Route) ∈ routes ∨ (select routes a).map Route.hop = some d.hop

/-! ### Lookups -/

section Select

variable {routes : List Route} {a : Ipv4Addr} {r s : Route}

theorem mem_of_select (h : select routes a = some r) :
  r ∈ routes ∧ r.Reaches a
  := by
  have := List.mem_filter.mp (List.argmin_mem h)
  rwa [decide_eq_true_iff] at this

theorem key_le_of_select (h : select routes a = some r) (hs : s ∈ routes) (hreach : s.Reaches a) :
  r.key ≤ s.key
  := List.le_of_mem_argmin (List.mem_filter.mpr ⟨hs, decide_eq_true hreach⟩) h

theorem exists_select (h : Reached routes a) :
  ∃ r, select routes a = some r
  := by
  obtain ⟨r, hr, hreach⟩ := h
  cases hsel : select routes a with
  | some r => exact ⟨r, rfl⟩
  | none =>
      have := List.filter_eq_nil_iff.mp (List.argmin_eq_none.mp hsel) r hr
      exact absurd (decide_eq_true hreach) this

theorem plen_le_of_key_le (h : r.key ≤ s.key) :
  32 - r.plen ≤ 32 - s.plen
  := by
  rw [Route.key, Route.key, Prod.Lex.toLex_le_toLex] at h
  obtain h | h := h
  · exact h.le
  · exact h.1.le

end Select

/-- A host route reaches its own address. -/
theorem reaches_host_iff {r : Route} (h : r.plen = 32) (a : Ipv4Addr) :
  r.Reaches a ↔ r.dst = a
  := by
  have hmask : netmask 32 = -1 := by decide
  rw [Route.Reaches, h, hmask, UInt32.and_neg_one]
  constructor
  · intro heq
    rw [Ipv4Addr.mk.injEq, heq]
  · rintro rfl
    rfl

section Installed

variable {before added after : List Route}

theorem Installed.select_eq (h : Installed before added after) {a : Ipv4Addr} {r : Route}
    (hsel : select after a = some r) (hr : r ∈ before) :
  select before a = some r
  := by
  have hfilter := List.argmin_filter_eq_some (p := (· ∈ before)) hsel (decide_eq_true hr)
  rw [List.filter_comm, h.kept] at hfilter
  exact hfilter

theorem Installed.reached (h : Installed before added after) {a : Ipv4Addr}
    (hreached : Reached before a) :
  Reached after a
  := by
  obtain ⟨r, hr, hreach⟩ := hreached
  exact ⟨r, (h.mem_iff r).mpr (.inl hr), hreach⟩

/-- The added routes that are not there yet, in front. -/
theorem Installed.front (before added : List Route) :
  Installed before added (added.filter (· ∉ before) ++ before)
  where
  kept := by
    have hself : before.filter (· ∈ before) = before := by
      rw [List.filter_eq_self]
      exact fun r hr => decide_eq_true hr
    have hnone : (added.filter (· ∉ before)).filter (· ∈ before) = [] := by
      rw [List.filter_eq_nil_iff]
      intro r hr
      have := (List.mem_filter.mp hr).2
      rw [decide_eq_true_iff] at this ⊢
      exact this
    rw [List.filter_append, hself, hnone, List.nil_append]
  mem_iff r := by
    rw [List.mem_append, List.mem_filter, decide_eq_true_iff]
    constructor
    · rintro (h | h)
      · exact .inr h.1
      · exact .inl h
    · rintro (h | h)
      · exact .inr h
      · by_cases hr : r ∈ before
        · exact .inr hr
        · exact .inl ⟨h, hr⟩

end Installed

/-! ### The routes that are added -/

/-- The routes of the pins and the halves. -/
def added (d : Route) (tun : List Char) (pinned : List Ipv4Addr) : List Route :=
  pinned.map (fun a => ⟨a, 32, 0, d.gw, d.dev⟩) ++ (halfChanges true tun).map RouteChange.route

theorem mem_added_iff {d r : Route} {tun : List Char} {pinned : List Ipv4Addr} :
  r ∈ added d tun pinned ↔
    (∃ a ∈ pinned, r = ⟨a, 32, 0, d.gw, d.dev⟩) ∨
      r ∈ (halfChanges true tun).map RouteChange.route
  := by
  rw [added, List.mem_append, List.mem_map]
  simp only [eq_comm]

section Pinned

variable {before after : List Route} {d : Route} {tun : List Char} {pinned : List Ipv4Addr}
  {a : Ipv4Addr} {r : Route}

/-- What is selected for a pinned address among the added routes is its pin. -/
theorem eq_pin_of_select (ha : a ∈ pinned) (hmem : ∀ s ∈ added d tun pinned, s ∈ after)
    (hsel : select after a = some r) (hr : r ∈ added d tun pinned) :
  r = ⟨a, 32, 0, d.gw, d.dev⟩
  := by
  have hpin : (⟨a, 32, 0, d.gw, d.dev⟩ : Route) ∈ after :=
    hmem _ (mem_added_iff.mpr (.inl ⟨a, ha, rfl⟩))
  have hle := plen_le_of_key_le (key_le_of_select hsel hpin ((reaches_host_iff rfl a).mpr rfl))
  obtain ⟨b, _, rfl⟩ | hhalf := mem_added_iff.mp hr
  · obtain rfl := (reaches_host_iff rfl a).mp (mem_of_select hsel).2
    rfl
  · rw [plen_of_mem_halves hhalf] at hle
    simp at hle

/-- A pinned address is sent through the uplink, or where it was sent. -/
theorem hop_of_pinned (h : Installed before (added d tun pinned) after) (ha : a ∈ pinned)
    (hsel : select after a = some r) :
  select before a = some r ∨
    r = ⟨a, 32, 0, d.gw, d.dev⟩ ∧ r ∉ before
  := by
  by_cases hr : r ∈ before
  · exact .inl (h.select_eq hsel hr)
  · have hmem : ∀ s ∈ added d tun pinned, s ∈ after := fun s hs => (h.mem_iff s).mpr (.inr hs)
    have hadded := ((h.mem_iff r).mp (mem_of_select hsel).1).resolve_left hr
    exact .inr ⟨eq_pin_of_select ha hmem hsel hadded, hr⟩

/-- A covered address that is not pinned is sent where it was sent. -/
theorem select_of_covered (h : Installed before (added d tun pinned) after) (ha : a ∉ pinned)
    (hcov : Covered before a) (hsel : select after a = some r) :
  select before a = some r
  := by
  apply h.select_eq hsel
  by_contra hr
  have hadded := ((h.mem_iff r).mp (mem_of_select hsel).1).resolve_left hr
  obtain ⟨b, hb, rfl⟩ | hhalf := mem_added_iff.mp hadded
  · obtain rfl := (reaches_host_iff rfl a).mp (mem_of_select hsel).2
    exact ha hb
  · obtain ⟨s, hs, hlen, hreach⟩ := hcov
    have hle := plen_le_of_key_le (key_le_of_select hsel ((h.mem_iff s).mpr (.inl hs)) hreach)
    rw [plen_of_mem_halves hhalf] at hle
    omega

/-- With the pins in front, an address whose pin is new is sent through the uplink. -/
theorem select_front (ha : a ∈ pinned) (hnew : (⟨a, 32, 0, d.gw, d.dev⟩ : Route) ∉ before) :
  select ((added d tun pinned).filter (· ∉ before) ++ before) a =
    some ⟨a, 32, 0, d.gw, d.dev⟩
  := by
  have hpin : (⟨a, 32, 0, d.gw, d.dev⟩ : Route) ∈ (added d tun pinned).filter (· ∉ before) :=
    List.mem_filter.mpr ⟨mem_added_iff.mpr (.inl ⟨a, ha, rfl⟩), decide_eq_true hnew⟩
  have hreach : (⟨a, 32, 0, d.gw, d.dev⟩ : Route).Reaches a := (reaches_host_iff rfl a).mpr rfl
  obtain ⟨r, hsel⟩ := exists_select ⟨_, List.mem_append_left before hpin, hreach⟩
  have hfront : r ∈ ((added d tun pinned).filter (· ∉ before)).filter fun r => r.Reaches a := by
    have hsel' := hsel
    rw [select, List.filter_append] at hsel'
    refine List.mem_front_of_argmin hsel' (List.mem_filter.mpr ⟨hpin, decide_eq_true hreach⟩) ?_
    rw [Route.key, Route.key, Prod.Lex.toLex_le_toLex]
    obtain hlen | hlen := Nat.eq_zero_or_pos (32 - r.plen)
    · exact .inr ⟨hlen.symm, Nat.zero_le _⟩
    · exact .inl hlen
  have hinst := Installed.front before (added d tun pinned)
  rw [hsel, eq_pin_of_select ha (fun s hs => (hinst.mem_iff s).mpr (.inr hs)) hsel
    (List.mem_of_mem_filter (List.mem_of_mem_filter hfront))]

end Pinned

/-! ### The pins and the path -/

section Path

variable {rows : List Row} {tun : List Char} {server : Ipv4Addr} {peers : List Ipv4Addr}

/-- A default reaches every address. -/
theorem reached_of_uplink {routes : List Route} {d : Route} (h : uplink routes = some d)
    (a : Ipv4Addr) :
  Reached routes a
  := by
  have hmem : d ∈ routes ∧ d.IsDefault := by
    obtain h | ⟨_, h⟩ := Option.or_eq_some_iff.mp h
    · have := List.mem_filter.mp (List.argmin_mem h)
      rw [decide_eq_true_iff] at this
      exact ⟨this.1, this.2.1⟩
    · have := List.mem_filter.mp (List.argmin_mem h)
      rwa [decide_eq_true_iff] at this
  have hmask : netmask 0 = 0 := by decide
  refine ⟨d, hmem.1, ?_⟩
  rw [Route.Reaches, hmem.2.1, hmem.2.2, hmask, UInt32.and_zero]

/-- Without an uplink nothing is installed, and the errors are what counts. -/
theorem keepsPath_iff_of_no_uplink (h : uplink (outside tun rows) = none) :
  KeepsPath rows tun server peers ↔
    ¬ Reached (outside tun rows) server ∧
      ∀ a, peers.find? (fun a => ¬ Covered (outside tun rows) a) = some a →
        ¬ Reached (outside tun rows) a
  := by
  have hserver : planServerPin (render rows) tun server = .error noDefaultRoute := by
    rw [planServerPin_render, h]
  constructor
  · intro hkeeps
    refine ⟨hkeeps.server_error _ hserver, ?_⟩
    intro a ha
    obtain ⟨hcov, front, rest, hpeers, hfront⟩ := List.find?_eq_some_iff_append.mp ha
    rw [decide_eq_true_iff] at hcov
    refine hkeeps.peer_error front a rest [] noDefaultRoute hpeers ?_ ?_
    · rw [planUnderlayPins_of_no_uplink rows tun h, if_pos]
      intro b hb
      simpa using hfront b hb
    · rw [planUnderlayPins_of_no_uplink rows tun h, if_neg]
      exact fun hall => hcov (hall a (by simp))
  · rintro ⟨hunreached, hfind⟩
    refine ⟨fun _ _ => hunreached, ?_, ?_⟩
    · intro front peer rest pins e hpeers hok herror
      rw [planUnderlayPins_of_no_uplink rows tun h] at hok herror
      split at hok
      · rename_i hfront
        split at herror
        · simp at herror
        · rename_i hnot
          have hpeer : ¬ Covered (outside tun rows) peer := by
            intro hcov
            apply hnot
            intro b hb
            obtain hb | hb := List.mem_append.mp hb
            · exact hfront b hb
            · rwa [List.mem_singleton.mp hb]
          apply hfind
          refine List.find?_eq_some_iff_append.mpr ⟨decide_eq_true hpeer, front, rest, hpeers, ?_⟩
          intro b hb
          simpa using hfront b hb
      · simp at hok
    · intro pin pins hok
      rw [hserver] at hok
      simp at hok

/-- The addresses that are pinned: the peers that are not covered, and the server. -/
def pinnedAddrs (routes : List Route) (server : Ipv4Addr) (peers : List Ipv4Addr) :
    List Ipv4Addr :=
  (peers.filter fun a => ¬ Covered routes a) ++ [server]

theorem mem_pinnedAddrs_iff {routes : List Route} {a : Ipv4Addr} (ha : a ∈ server :: peers) :
  a ∈ pinnedAddrs routes server peers ↔ a = server ∨ ¬ Covered routes a
  := by
  rw [pinnedAddrs, List.mem_append, List.mem_filter, List.mem_singleton, decide_eq_true_iff]
  rw [List.mem_cons] at ha
  tauto

theorem routes_of_plans (routes : List Route) (d : Route) (tun : List Char) (server : Ipv4Addr)
    (peers : List Ipv4Addr) :
  ((((peers.filter fun a => ¬ Covered routes a).map d.pin).map (·.change true) ++
      (d.pin server).change true :: halfChanges true tun).map RouteChange.route) =
    added d tun (pinnedAddrs routes server peers)
  := by
  simp only [List.map_append, List.map_cons, List.map_map, added, pinnedAddrs, List.map_nil,
    List.append_assoc, List.singleton_append, Route.change_pin, Function.comp_def,
    RouteChange.route]

/-- With an uplink nothing fails, and the hops are what counts. -/
theorem keepsPath_iff_of_uplink {d : Route} (h : uplink (outside tun rows) = some d) :
  KeepsPath rows tun server peers ↔
    ∀ a ∈ server :: peers, a = server ∨ ¬ Covered (outside tun rows) a →
      (⟨a, 32, 0, d.gw, d.dev⟩ : Route) ∈ outside tun rows ∨
        (select (outside tun rows) a).map Route.hop = some d.hop
  := by
  have hserver : planServerPin (render rows) tun server = .ok (d.pin server) := by
    rw [planServerPin_render, h]
  have hunderlay := planUnderlayPins_of_uplink rows tun h
  constructor
  · intro hkeeps a ha hpin
    by_contra hnot
    obtain ⟨hnew, hhop⟩ := not_or.mp hnot
    obtain ⟨r, hr⟩ := exists_select (reached_of_uplink h a)
    have hkept := hkeeps.kept _ _ hserver (hunderlay peers)
    rw [routes_of_plans] at hkept
    have hafter := hkept _ (Installed.front _ _) a ha r hr
    rw [select_front ((mem_pinnedAddrs_iff ha).mpr hpin) hnew] at hafter
    rw [hr, Option.map_some, ← hafter] at hhop
    exact hhop rfl
  · intro hthrough
    refine ⟨?_, ?_, ?_⟩
    · intro e he
      rw [hserver] at he
      simp at he
    · intro front peer rest pins e _ _ he
      rw [hunderlay] at he
      simp at he
    · intro pin pins hpin hpins after hafter a ha r hr
      obtain rfl := Except.ok.inj (hserver.symm.trans hpin)
      obtain rfl := Except.ok.inj ((hunderlay peers).symm.trans hpins)
      rw [routes_of_plans] at hafter
      obtain ⟨s, hs⟩ := exists_select (hafter.reached (reached_of_uplink h a))
      by_cases hpinned : a ∈ pinnedAddrs (outside tun rows) server peers
      · obtain hsame | ⟨rfl, hnew⟩ := hop_of_pinned hafter hpinned hs
        · rw [hs, ← hsame, hr]
          rfl
        · have hhop := (hthrough a ha ((mem_pinnedAddrs_iff ha).mp hpinned)).resolve_left hnew
          rw [hr, Option.map_some] at hhop
          rw [hs, hhop]
          rfl
      · have hcov : Covered (outside tun rows) a := by
          by_contra hcov
          exact hpinned ((mem_pinnedAddrs_iff ha).mpr (.inr hcov))
        rw [hs, ← select_of_covered hafter hpinned hcov hs, hr]
        rfl

end Path

/-- The pins keep the underlay on its path exactly when what they pin is sent through the uplink
before. -/
theorem keepsPath_iff_throughUplink (rows : List Row) (tun : List Char) (server : Ipv4Addr)
    (peers : List Ipv4Addr) :
  KeepsPath rows tun server peers ↔ ThroughUplink (outside tun rows) server peers
  := by
  cases h : uplink (outside tun rows) with
  | none =>
      rw [ThroughUplink, h]
      exact keepsPath_iff_of_no_uplink h
  | some d =>
      rw [ThroughUplink, h]
      exact keepsPath_iff_of_uplink h

/-- A default by a gateway, and a network on a second interface. -/
def lanRows : List Row :=
  [Row.home,
    Row.onLink ⟨0xc0a80100⟩ 24 "eth1".toList (by simp [Config.isWhitespace]) (by decide)]

/-- The pin of a server on the second network sends it by the gateway instead. -/
theorem lan_server_diverted :
  select (outside "tun0".toList lanRows) ⟨0xc0a80105⟩ =
      some ⟨⟨0xc0a80100⟩, 24, 0, none, "eth1".toList⟩ ∧
    planServerPin (render lanRows) "tun0".toList ⟨0xc0a80105⟩ =
      .ok (.viaGateway ⟨0xc0a80105⟩ ⟨0x0a000001⟩ "eth0".toList) ∧
    ¬ KeepsPath lanRows "tun0".toList ⟨0xc0a80105⟩ []
  := by
  have hselect : select (outside "tun0".toList lanRows) ⟨0xc0a80105⟩ =
      some ⟨⟨0xc0a80100⟩, 24, 0, none, "eth1".toList⟩ := by
    decide
  have hplan : planServerPin (render lanRows) "tun0".toList ⟨0xc0a80105⟩ =
      .ok (.viaGateway ⟨0xc0a80105⟩ ⟨0x0a000001⟩ "eth0".toList) := by
    rw [planServerPin_render]
    decide
  refine ⟨hselect, hplan, ?_⟩
  intro hkeeps
  have hafter := hkeeps.kept _ [] hplan rfl _ (Installed.front _ _) _ List.mem_cons_self _ hselect
  exact absurd hafter (by decide)

end ZeroNat.Uplink

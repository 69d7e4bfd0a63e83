import ZeroNat.Config.Tables
import ZeroNat.Pppoe.Engine
import ZeroNat.Uplink.Undone

/-!
# The network of the host

While a link is up the default route of the host and its name servers can be pointed at it.  What
was done is recorded, and a guard undoes it.  Every operation may fail: then it is skipped, and
what it did not do is not recorded.
-/

namespace ZeroNat.Pppoe.Netcfg

open Uplink
open Config (ipText)

/-! ### The host -/

/-- The routes and the file of the name servers.  The tables of the points before are kept. -/
structure Net where
  table : Finset Uplink.Route
  resolv : Option (List UInt8)
  past : List (Finset Uplink.Route)
deriving DecidableEq

/-- The tables of all points so far. -/
def Net.points (net : Net) : List (Finset Uplink.Route) :=
  net.table :: net.past

/-- Add or delete a route, and tell whether that was done. -/
def Net.modifyRoute (net : Net) (fault add : Bool) (dst : Ipv4Addr) (plen : ℕ)
    (gw : Option Ipv4Addr) (dev : List Char) (priority : UInt32) : Bool × Net :=
  let r := Uplink.modifyRoute fault add dst plen gw dev priority net.table
  (r.1 = .ok, { net with table := r.2, past := net.points })

/-- How the writing of a file ends. -/
inductive Write where
  | whole
  /-- The file was not opened. -/
  | refused
  /-- The file was emptied, and only some bytes of it were written. -/
  | cut (n : ℕ)
deriving DecidableEq

/-- Whether all was written, and the file afterwards. -/
def Write.apply (w : Write) (bytes : List UInt8) (file : Option (List UInt8)) :
    Bool × Option (List UInt8) :=
  match w with
  | whole => (true, some bytes)
  | refused => (false, file)
  | cut n => (false, some (bytes.take n))

/-- The operations that fail, those of the apply first. -/
structure Faults where
  procRoute : Bool
  pin : Bool
  tunAdd : Bool
  originalDelete : Bool
  read : Bool
  write : Write
  originalAdd : Bool
  tunDelete : Bool
  unpin : Bool
  writeBack : Write
  remove : Bool
deriving DecidableEq

/-- The operations that undo something succeed. -/
def Faults.UndoSucceeds (f : Faults) : Prop :=
  f.originalAdd = false ∧ f.tunDelete = false ∧ f.unpin = false ∧ f.writeBack = .whole ∧
    f.remove = false

instance : DecidablePred Faults.UndoSucceeds := fun _ =>
  inferInstanceAs (Decidable (_ ∧ _))

/-! ### Apply and revert -/

def nameservers (dns : Option Ipv4Addr × Option Ipv4Addr) : List Ipv4Addr :=
  [dns.1, dns.2].reduceOption

/-- The content of the file for some name servers. -/
def renderResolvConf (dns : Option Ipv4Addr × Option Ipv4Addr) : List UInt8 :=
  (nameservers dns).flatMap fun d =>
    ("nameserver ".toList ++ ipText d ++ ['\n']).map fun c => UInt8.ofNat c.toNat

structure NetCfgOpts where
  defaultRoute : Bool
  dns : Bool
deriving DecidableEq

/-- What was done. -/
structure AppliedState where
  captured : Option CapturedDefault
  tunName : List Char
  defaultAdded : Bool
  serverPin : Option Ipv4Addr
  resolvWritten : Bool
  resolvBackup : Option (List UInt8)
deriving DecidableEq

/-- Nothing was done yet. -/
def AppliedState.start (tunName : List Char) : AppliedState :=
  ⟨none, tunName, false, none, false, none⟩

/-- Pin the server to the original default. -/
def pinServer (f : Faults) (captured : CapturedDefault) (serverIp : Option Ipv4Addr)
    (state : AppliedState) (net : Net) : AppliedState × Net :=
  match serverIp with
  | some ip =>
      let r := net.modifyRoute f.pin true ip 32 (some captured.gateway) captured.iface 0
      (if r.1 then { state with serverPin := some ip } else state, r.2)
  | none => (state, net)

/-- Add the default over the link, and then delete the original one. -/
def swapDefault (f : Faults) (captured : CapturedDefault) (state : AppliedState) (net : Net) :
    AppliedState × Net :=
  let r := net.modifyRoute f.tunAdd true ⟨0⟩ 0 none state.tunName 0
  if r.1 then
    let d := r.2.modifyRoute f.originalDelete false ⟨0⟩ 0 (some captured.gateway) captured.iface
      captured.metric
    ({ state with defaultAdded := true, captured := some captured }, d.2)
  else ({ state with captured := some captured }, r.2)

/-- The default that is in the table, if that can be read. -/
def readDefaultRoute (f : Faults) (contents tunName : List Char) : Option CapturedDefault :=
  if f.procRoute then none else parseProcRoute contents tunName

def applyDefaultRoute (f : Faults) (contents : List Char) (serverIp : Option Ipv4Addr)
    (state : AppliedState) (net : Net) : AppliedState × Net :=
  match readDefaultRoute f contents state.tunName with
  | some captured =>
      let r := pinServer f captured serverIp state net
      swapDefault f captured r.1 r.2
  | none => (state, net)

def applyDns (f : Faults) (dns : Option Ipv4Addr × Option Ipv4Addr) (state : AppliedState)
    (net : Net) : AppliedState × Net :=
  if nameservers dns = [] then (state, net)
  else
    let backup := if f.read then none else net.resolv
    let r := f.write.apply (renderResolvConf dns) net.resolv
    (if r.1 then { state with resolvWritten := true, resolvBackup := backup } else state,
      { net with resolv := r.2 })

structure NetCfgGuard where
  applied : Option AppliedState
deriving DecidableEq

/-- Make the changes that are asked for, from the text of the route table. -/
def apply (f : Faults) (contents : List Char) (opts : NetCfgOpts) (serverIp : Option Ipv4Addr)
    (est : Established) (tunName : List Char) (net : Net) : NetCfgGuard × Net :=
  let r :=
    if opts.defaultRoute then applyDefaultRoute f contents serverIp (.start tunName) net
    else (.start tunName, net)
  let r := if opts.dns then applyDns f est.dns r.1 r.2 else r
  (⟨some r.1⟩, r.2)

/-- Restore the original default, and then delete the one over the link. -/
def revertDefault (f : Faults) (a : AppliedState) (net : Net) : Net :=
  if a.defaultAdded then
    let net :=
      match a.captured with
      | some c => (net.modifyRoute f.originalAdd true ⟨0⟩ 0 (some c.gateway) c.iface c.metric).2
      | none => net
    (net.modifyRoute f.tunDelete false ⟨0⟩ 0 none a.tunName 0).2
  else net

def revertPin (f : Faults) (a : AppliedState) (net : Net) : Net :=
  match a.serverPin, a.captured with
  | some ip, some c => (net.modifyRoute f.unpin false ip 32 (some c.gateway) c.iface 0).2
  | _, _ => net

def revertResolv (f : Faults) (a : AppliedState) (net : Net) : Net :=
  if a.resolvWritten then
    match a.resolvBackup with
    | some bytes => { net with resolv := (f.writeBack.apply bytes net.resolv).2 }
    | none => if f.remove then net else { net with resolv := none }
  else net

def NetCfgGuard.revert (f : Faults) (guard : NetCfgGuard) (net : Net) : NetCfgGuard × Net :=
  match guard.applied with
  | none => (guard, net)
  | some a => (⟨none⟩, revertResolv f a (revertPin f a (revertDefault f a net)))

/-! ### What an operation does -/

/-- The route of the default over the link. -/
def tunDefault (tunName : List Char) : Uplink.Route :=
  requested ⟨0⟩ 0 none tunName 0

/-- The original default, as it is deleted and restored. -/
def original (c : CapturedDefault) : Uplink.Route :=
  requested ⟨0⟩ 0 (some c.gateway) c.iface c.metric

/-- The route of a pinned server. -/
def pinned (c : CapturedDefault) (ip : Ipv4Addr) : Uplink.Route :=
  requested ip 32 (some c.gateway) c.iface 0

theorem isDefault_tunDefault (tunName : List Char) :
  (tunDefault tunName).IsDefault
  := ⟨rfl, rfl⟩

theorem isDefault_original (c : CapturedDefault) :
  (original c).IsDefault
  := ⟨rfl, rfl⟩

theorem original_ne_tunDefault (c : CapturedDefault) (tunName : List Char) :
  original c ≠ tunDefault tunName
  := by
  intro heq
  have hgw := congrArg Uplink.Route.gw heq
  cases hgw

theorem isDefault_ne_pinned {r : Uplink.Route} (hr : r.IsDefault) (c : CapturedDefault)
    (ip : Ipv4Addr) :
  r ≠ pinned c ip
  := by
  rintro rfl
  have hplen : 32 = 0 := hr.2
  cases hplen

theorem modifyRoute_add (net : Net) (fault : Bool) (dst : Ipv4Addr) (plen : ℕ)
    (gw : Option Ipv4Addr) (dev : List Char) (priority : UInt32) :
  ((net.modifyRoute fault true dst plen gw dev priority).1 = true ↔
      fault = false ∧ requested dst plen gw dev priority ∉ net.table) ∧
    (net.modifyRoute fault true dst plen gw dev priority).2.table
      = if fault then net.table else insert (requested dst plen gw dev priority) net.table
  := by
  rw [Net.modifyRoute, Uplink.modifyRoute]
  dsimp only
  cases fault with
  | true => simp [kernel]
  | false =>
      rw [kernel_unrefused_add]
      by_cases hr : requested dst plen gw dev priority ∈ net.table
      · simp [kernel, hr]
      · simp [kernel, hr]

theorem modifyRoute_delete (net : Net) (fault : Bool) (dst : Ipv4Addr) (plen : ℕ)
    (gw : Option Ipv4Addr) (dev : List Char) (priority : UInt32) :
  (net.modifyRoute fault false dst plen gw dev priority).2.table
    = if fault then net.table else net.table.erase (requested dst plen gw dev priority)
  := by
  rw [Net.modifyRoute, Uplink.modifyRoute]
  cases fault with
  | true => rfl
  | false => exact kernel_unrefused_delete _ _

/-! ### The original default -/

/-- The default that is captured is a row of the table, and no other that could be captured has a
lower metric. -/
theorem captured_spec {rows : List Row} {tun : List Char} {c : CapturedDefault}
    (h : parseProcRoute (render rows) tun = some c) :
  (⟨⟨0⟩, 0, c.metric, some c.gateway, c.iface⟩ : Uplink.Route) ∈ routeTable rows ∧ c.iface ≠ tun ∧
    ∀ r ∈ routeTable rows, r.IsDefault → r.gw ≠ none → r.dev ≠ tun →
      c.metric.toNat ≤ r.metric.toNat
  := by
  rw [parseProcRoute, parseDefault_render] at h
  obtain ⟨r, hr, rfl⟩ := Option.map_eq_some_iff.mp h
  obtain ⟨hout, hdefault⟩ := List.mem_filter.mp (List.argmin_mem hr)
  rw [decide_eq_true_iff] at hdefault
  obtain ⟨hrow, hdev⟩ := List.mem_filter.mp hout
  obtain ⟨gw, hgw⟩ := Option.ne_none_iff_exists'.mp (hdefault.2 rfl)
  have hroute : (⟨⟨0⟩, 0, r.metric, some (r.gw.getD ⟨0⟩), r.dev⟩ : Uplink.Route) = r := by
    rw [← hdefault.1.1, ← hdefault.1.2, hgw, Option.getD_some, ← hgw]
  refine ⟨?_, of_decide_eq_true hdev, ?_⟩
  · rw [Uplink.Route.captured, hroute, routeTable, List.mem_toFinset]
    exact hrow
  · intro s hs hsdefault hsgw hsdev
    rw [routeTable, List.mem_toFinset] at hs
    have hmem : s ∈ (outside tun rows).filter
        fun r : Uplink.Route => r.IsDefault ∧ (true = true → r.gw ≠ none) := by
      rw [List.mem_filter, outside, List.mem_filter]
      exact ⟨⟨hs, decide_eq_true hsdev⟩, decide_eq_true ⟨hsdefault, fun _ => hsgw⟩⟩
    exact List.le_of_mem_argmin (f := fun r : Uplink.Route => r.metric.toNat) hmem hr

/-- The original default is named just when its metric fits into a request. -/
theorem original_mem_iff {rows : List Row} {tun : List Char} {c : CapturedDefault}
    (h : parseProcRoute (render rows) tun = some c) :
  original c ∈ routeTable rows ↔ c.metric.toNat ≤ 32766
  := by
  obtain ⟨hmem, hne, hmin⟩ := captured_spec h
  constructor
  · intro horiginal
    have hle := hmin _ horiginal (isDefault_original c) (Option.some_ne_none _) hne
    have hmetric : (original c).metric.toNat ≤ 32766 := by
      rw [original, requested]
      dsimp only
      rw [rtMetric, UInt32.toNat_ofNat']
      omega
    omega
  · intro hle
    have hmetric : UInt32.ofNat (rtMetric c.metric - 1) = c.metric := by
      have hmin : rtMetric c.metric - 1 = c.metric.toNat := by
        rw [rtMetric]
        omega
      rw [hmin, UInt32.ofNat_toNat]
    rw [original, requested, hmetric]
    exact hmem

/-! ### Never without a default -/

/-- There is a default route. -/
def HasDefault (table : Finset Uplink.Route) : Prop :=
  ∃ r ∈ table, r.IsDefault

/-- There was a default route at every point. -/
def Net.Reached (net : Net) : Prop :=
  ∀ table ∈ net.points, HasDefault table

theorem reached_modifyRoute {net : Net} (fault add : Bool) (dst : Ipv4Addr) (plen : ℕ)
    (gw : Option Ipv4Addr) (dev : List Char) (priority : UInt32) :
  (net.modifyRoute fault add dst plen gw dev priority).2.Reached ↔
    HasDefault (net.modifyRoute fault add dst plen gw dev priority).2.table ∧ net.Reached
  := List.forall_mem_cons

theorem hasDefault_insert {table : Finset Uplink.Route} (h : HasDefault table) (r : Uplink.Route) :
  HasDefault (insert r table)
  := by
  obtain ⟨d, hd, hdefault⟩ := h
  exact ⟨d, Finset.mem_insert_of_mem hd, hdefault⟩

theorem hasDefault_erase_pinned (table : Finset Uplink.Route) (c : CapturedDefault)
    (ip : Ipv4Addr) :
  HasDefault (table.erase (pinned c ip)) ↔ HasDefault table
  := by
  constructor
  · rintro ⟨d, hd, hdefault⟩
    exact ⟨d, Finset.mem_of_mem_erase hd, hdefault⟩
  · rintro ⟨d, hd, hdefault⟩
    exact ⟨d, Finset.mem_erase.mpr ⟨isDefault_ne_pinned hdefault c ip, hd⟩, hdefault⟩

/-! ### What was applied -/

/-- The pin of the server that is added and recorded. -/
def pinnedBy (f : Faults) (c : CapturedDefault) (serverIp : Option Ipv4Addr)
    (table : Finset Uplink.Route) : Option Ipv4Addr :=
  serverIp.filter fun ip => !f.pin && decide (pinned c ip ∉ table)

/-- The table with a pin. -/
def withPin (c : CapturedDefault) (pin : Option Ipv4Addr) (table : Finset Uplink.Route) :
    Finset Uplink.Route :=
  match pin with
  | some ip => insert (pinned c ip) table
  | none => table

/-- The default over the link is added. -/
def swaps (f : Faults) (tun : List Char) (table : Finset Uplink.Route) : Bool :=
  !f.tunAdd && decide (tunDefault tun ∉ table)

/-- The table with the default over the link instead of the original one. -/
def swapped (f : Faults) (c : CapturedDefault) (tun : List Char) (table : Finset Uplink.Route) :
    Finset Uplink.Route :=
  if f.originalDelete then insert (tunDefault tun) table
  else (insert (tunDefault tun) table).erase (original c)

section Apply

variable {f : Faults} {c : CapturedDefault} {serverIp : Option Ipv4Addr} {tun : List Char}
  {net : Net}

theorem pinServer_spec (f : Faults) (c : CapturedDefault) (serverIp : Option Ipv4Addr)
    (tun : List Char) (net : Net) :
  (pinServer f c serverIp (.start tun) net).1
      = { AppliedState.start tun with serverPin := pinnedBy f c serverIp net.table } ∧
    (pinServer f c serverIp (.start tun) net).2.table
      = withPin c (pinnedBy f c serverIp net.table) net.table ∧
    (pinServer f c serverIp (.start tun) net).2.resolv = net.resolv ∧
    (net.Reached → (pinServer f c serverIp (.start tun) net).2.Reached)
  := by
  cases serverIp with
  | none => exact ⟨rfl, rfl, rfl, id⟩
  | some ip =>
      obtain ⟨hok, htable⟩ := modifyRoute_add net f.pin ip 32 (some c.gateway) c.iface 0
      have hdone : (net.modifyRoute f.pin true ip 32 (some c.gateway) c.iface 0).1
          = (!f.pin && decide (pinned c ip ∉ net.table)) := by
        rw [Bool.eq_iff_iff, hok, Bool.and_eq_true_iff, Bool.not_eq_true', decide_eq_true_iff]
        rfl
      have hpinned : pinnedBy f c (some ip) net.table
          = if !f.pin && decide (pinned c ip ∉ net.table) then some ip else none :=
        Option.filter_some
      refine ⟨?_, ?_, rfl, ?_⟩
      · rw [pinServer, hpinned]
        dsimp only
        rw [hdone]
        split
        · rfl
        · rfl
      · rw [hpinned]
        change (net.modifyRoute f.pin true ip 32 (some c.gateway) c.iface 0).2.table = _
        rw [htable]
        cases f.pin with
        | true => rfl
        | false =>
            by_cases hmem : pinned c ip ∈ net.table
            · rw [if_neg Bool.false_ne_true, if_neg (by simp [hmem])]
              exact Finset.insert_eq_of_mem hmem
            · rw [if_neg Bool.false_ne_true, if_pos (by simp [hmem])]
              rfl
      · intro hreached
        rw [pinServer]
        refine (reached_modifyRoute _ _ _ _ _ _ _).mpr ⟨?_, hreached⟩
        rw [htable]
        have hnow := hreached net.table List.mem_cons_self
        split
        · exact hnow
        · exact hasDefault_insert hnow _

theorem hasDefault_swapped (f : Faults) (c : CapturedDefault) (tun : List Char)
    (table : Finset Uplink.Route) :
  HasDefault (swapped f c tun table)
  := by
  refine ⟨tunDefault tun, ?_, isDefault_tunDefault tun⟩
  rw [swapped]
  split
  · exact Finset.mem_insert_self _ _
  · exact Finset.mem_erase.mpr ⟨(original_ne_tunDefault c tun).symm, Finset.mem_insert_self _ _⟩

theorem swapDefault_spec (f : Faults) (c : CapturedDefault) (state : AppliedState) (net : Net) :
  (swapDefault f c state net).1
      = { state with
          captured := some c
          defaultAdded := swaps f state.tunName net.table || state.defaultAdded } ∧
    (swapDefault f c state net).2.table
      = (if swaps f state.tunName net.table then swapped f c state.tunName net.table
        else net.table) ∧
    (swapDefault f c state net).2.resolv = net.resolv ∧
    (net.Reached → (swapDefault f c state net).2.Reached)
  := by
  obtain ⟨hok, htable⟩ := modifyRoute_add net f.tunAdd ⟨0⟩ 0 none state.tunName 0
  have hdone : (net.modifyRoute f.tunAdd true ⟨0⟩ 0 none state.tunName 0).1
      = swaps f state.tunName net.table := by
    rw [Bool.eq_iff_iff, hok, swaps, Bool.and_eq_true_iff, Bool.not_eq_true', decide_eq_true_iff]
    rfl
  have hreach : net.Reached →
      (net.modifyRoute f.tunAdd true ⟨0⟩ 0 none state.tunName 0).2.Reached := by
    intro hreached
    refine (reached_modifyRoute _ _ _ _ _ _ _).mpr ⟨?_, hreached⟩
    rw [htable]
    have hnow := hreached net.table List.mem_cons_self
    split
    · exact hnow
    · exact hasDefault_insert hnow _
  rw [swapDefault]
  dsimp only
  rw [hdone]
  cases hswaps : swaps f state.tunName net.table with
  | false =>
      rw [if_neg Bool.false_ne_true, if_neg Bool.false_ne_true]
      refine ⟨rfl, ?_, rfl, hreach⟩
      rw [htable]
      split
      · rfl
      · rename_i hfault
        apply Finset.insert_eq_of_mem
        rw [Bool.not_eq_true] at hfault
        rw [swaps, hfault, Bool.not_false, Bool.true_and, decide_eq_false_iff_not, not_not]
          at hswaps
        exact hswaps
  | true =>
      have hfault : f.tunAdd = false := by
        rw [swaps, Bool.and_eq_true_iff, Bool.not_eq_true'] at hswaps
        exact hswaps.1
      rw [if_pos rfl, if_pos rfl]
      have hdelete := modifyRoute_delete
        (net.modifyRoute f.tunAdd true ⟨0⟩ 0 none state.tunName 0).2 f.originalDelete ⟨0⟩ 0
        (some c.gateway) c.iface c.metric
      rw [htable, hfault, if_neg Bool.false_ne_true] at hdelete
      refine ⟨rfl, ?_, rfl, ?_⟩
      · rw [hfault]
        exact hdelete
      · intro hreached
        refine (reached_modifyRoute _ _ _ _ _ _ _).mpr ⟨?_, hreach hreached⟩
        rw [hfault, hdelete]
        exact hasDefault_swapped f c state.tunName net.table

/-- A pin is no default. -/
theorem mem_withPin_iff {r : Uplink.Route} (hr : r.IsDefault) (c : CapturedDefault)
    (pin : Option Ipv4Addr) (table : Finset Uplink.Route) :
  r ∈ withPin c pin table ↔ r ∈ table
  := by
  cases pin with
  | none => exact Iff.rfl
  | some ip =>
      rw [withPin, Finset.mem_insert]
      exact or_iff_right (isDefault_ne_pinned hr c ip)

/-- What is recorded of the routes, and the table. -/
structure Applied (f : Faults) (c : CapturedDefault) (serverIp : Option Ipv4Addr)
    (tun : List Char) (table : Finset Uplink.Route) (state : AppliedState) (net : Net) : Prop where
  captured : state.captured = some c
  tunName : state.tunName = tun
  defaultAdded : state.defaultAdded = swaps f tun table
  serverPin : state.serverPin = pinnedBy f c serverIp table
  table : net.table
    = if swaps f tun table then swapped f c tun (withPin c (pinnedBy f c serverIp table) table)
      else withPin c (pinnedBy f c serverIp table) table

theorem applied_applyDefaultRoute (serverIp : Option Ipv4Addr) (net : Net) {contents : List Char}
    (hread : readDefaultRoute f contents tun = some c) :
  let r := applyDefaultRoute f contents serverIp (.start tun) net
  Applied f c serverIp tun net.table r.1 r.2 ∧ r.2.resolv = net.resolv ∧
    (net.Reached → r.2.Reached) ∧ r.1.resolvWritten = false
  := by
  intro r
  obtain ⟨hstate, htable, hresolv, hreached⟩ := pinServer_spec f c serverIp tun net
  have hr : r = swapDefault f c (pinServer f c serverIp (.start tun) net).1
      (pinServer f c serverIp (.start tun) net).2 := by
    have hstart : readDefaultRoute f contents (AppliedState.start tun).tunName = some c := hread
    rw [show r = applyDefaultRoute f contents serverIp (.start tun) net from rfl,
      applyDefaultRoute, hstart]
  obtain ⟨hstate', htable', hresolv', hreached'⟩ := swapDefault_spec f c
    (pinServer f c serverIp (.start tun) net).1 (pinServer f c serverIp (.start tun) net).2
  rw [← hr, hstate] at hstate' htable'
  rw [← hr] at hresolv' hreached'
  have hswaps : swaps f tun (withPin c (pinnedBy f c serverIp net.table) net.table)
      = swaps f tun net.table := by
    rw [swaps, swaps,
      decide_eq_decide.mpr (not_congr (mem_withPin_iff (isDefault_tunDefault tun) c _ _))]
  rw [htable] at hstate' htable'
  refine ⟨⟨?_, ?_, ?_, ?_, ?_⟩, ?_, ?_, ?_⟩
  · rw [hstate']
  · rw [hstate']
    rfl
  · rw [hstate', ← hswaps]
    exact Bool.or_false _
  · rw [hstate']
  · rw [htable', ← hswaps]
    rfl
  · rw [hresolv', hresolv]
  · intro hnow
    exact hreached' (hreached hnow)
  · rw [hstate']
    rfl

end Apply

end ZeroNat.Pppoe.Netcfg

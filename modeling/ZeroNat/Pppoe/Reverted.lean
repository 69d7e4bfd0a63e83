import ZeroNat.Pppoe.Netcfg

/-!
# The network of the host is left as it was

The routes and the file of the name servers after a revert, and the points on the way.  A default
of a metric that no request can name comes back at another one, a file that could not be read is
removed, and one whose writing was cut short is not written back.
-/

namespace ZeroNat.Pppoe.Netcfg

open Uplink

/-! ### What is reverted -/

/-- The table with the original default again, and without the one over the link. -/
def unswapped (f : Faults) (c : CapturedDefault) (tun : List Char) (table : Finset Uplink.Route) :
    Finset Uplink.Route :=
  let table := if f.originalAdd then table else insert (original c) table
  if f.tunDelete then table else table.erase (tunDefault tun)

/-- The table without the pin. -/
def unpinned (f : Faults) (c : CapturedDefault) (pin : Option Ipv4Addr)
    (table : Finset Uplink.Route) : Finset Uplink.Route :=
  match pin with
  | some ip => if f.unpin then table else table.erase (pinned c ip)
  | none => table

section Revert

variable {f : Faults} {c : CapturedDefault} {tun : List Char} {table : Finset Uplink.Route}

/-- The original default is there in the end, and all else as it was. -/
theorem unswapped_swapped (hundo : f.UndoSucceeds) (htun : tunDefault tun ∉ table) :
  unswapped f c tun (swapped f c tun table) = insert (original c) table
  := by
  obtain ⟨hadd, hdelete, _⟩ := hundo
  have hne := original_ne_tunDefault c tun
  rw [unswapped, swapped, hadd, hdelete]
  ext r
  by_cases ho : r = original c
  · simp [ho, hne]
  · by_cases ht : r = tunDefault tun
    · simp [ht, htun, hne.symm]
    · cases f.originalDelete with
      | true => simp [ho, ht]
      | false => simp [ho, ht]

theorem hasDefault_unswapped_iff (htun : tunDefault tun ∉ table) (htable : HasDefault table) :
  HasDefault (unswapped f c tun (swapped f c tun table)) ↔
    (f.originalDelete = false → f.originalAdd = true → f.tunDelete = false →
      ∃ r ∈ table, r.IsDefault ∧ r ≠ original c)
  := by
  have hne := original_ne_tunDefault c tun
  rw [unswapped, swapped]
  cases hdelete : f.tunDelete with
  | true =>
      refine iff_of_true ⟨tunDefault tun, ?_, isDefault_tunDefault tun⟩ (by simp)
      cases f.originalDelete <;> cases f.originalAdd <;> simp [hne.symm]
  | false =>
      cases hadd : f.originalAdd with
      | false =>
          refine iff_of_true ⟨original c, ?_, isDefault_original c⟩ (by simp)
          simp [hne]
      | true =>
          cases hkept : f.originalDelete with
          | true =>
              refine iff_of_true ?_ (by simp)
              obtain ⟨d, hd, hdefault⟩ := htable
              refine ⟨d, ?_, hdefault⟩
              have hdne : d ≠ tunDefault tun := fun heq => htun (heq ▸ hd)
              simp [hd, hdne]
          | false =>
              simp only [forall_const, HasDefault]
              constructor
              · rintro ⟨d, hd, hdefault⟩
                refine ⟨d, ?_, hdefault, ?_⟩
                · simp at hd
                  exact hd.2.2.resolve_left hd.1
                · simp at hd
                  exact hd.2.1
              · rintro ⟨d, hd, hdefault, hdo⟩
                refine ⟨d, ?_, hdefault⟩
                have hdne : d ≠ tunDefault tun := fun heq => htun (heq ▸ hd)
                simp [hd, hdne, hdo]

/-- The default over the link is there until the last. -/
theorem revertDefault_spec {a : AppliedState} {net : Net} (hcaptured : a.captured = some c)
    (hadded : a.defaultAdded = true) (htun : a.tunName = tun)
    (hnet : net.table = swapped f c tun table) :
  (revertDefault f a net).table = unswapped f c tun (swapped f c tun table) ∧
    (revertDefault f a net).resolv = net.resolv ∧
    ((revertDefault f a net).Reached ↔
      HasDefault (unswapped f c tun (swapped f c tun table)) ∧ net.Reached)
  := by
  have hadd := (modifyRoute_add net f.originalAdd ⟨0⟩ 0 (some c.gateway) c.iface c.metric).2
  have hdelete := modifyRoute_delete
    (net.modifyRoute f.originalAdd true ⟨0⟩ 0 (some c.gateway) c.iface c.metric).2 f.tunDelete
    ⟨0⟩ 0 none tun 0
  have htable : (revertDefault f a net).table = unswapped f c tun (swapped f c tun table) := by
    rw [revertDefault, if_pos hadded, hcaptured, htun]
    dsimp only
    rw [hdelete, hadd, hnet]
    rfl
  have hrestored : HasDefault
      (net.modifyRoute f.originalAdd true ⟨0⟩ 0 (some c.gateway) c.iface c.metric).2.table := by
    have hswapped := hasDefault_swapped f c tun table
    rw [hadd, hnet]
    split
    · exact hswapped
    · exact hasDefault_insert hswapped _
  refine ⟨htable, ?_, ?_⟩
  · rw [revertDefault, if_pos hadded, hcaptured]
    rfl
  · rw [← htable, revertDefault, if_pos hadded, hcaptured]
    dsimp only
    rw [reached_modifyRoute, reached_modifyRoute]
    exact and_congr_right fun _ => and_iff_right hrestored

theorem revertPin_spec {a : AppliedState} (hcaptured : a.captured = some c) (net : Net) :
  (revertPin f a net).table = unpinned f c a.serverPin net.table ∧
    (revertPin f a net).resolv = net.resolv ∧ ((revertPin f a net).Reached ↔ net.Reached)
  := by
  rw [revertPin, hcaptured]
  cases a.serverPin with
  | none => exact ⟨rfl, rfl, Iff.rfl⟩
  | some ip =>
      have hdelete := modifyRoute_delete net f.unpin ip 32 (some c.gateway) c.iface 0
      refine ⟨hdelete, rfl, ?_⟩
      dsimp only
      rw [reached_modifyRoute]
      apply and_iff_right_of_imp
      intro hreached
      have hnow := hreached net.table List.mem_cons_self
      rw [hdelete]
      split
      · exact hnow
      · exact (hasDefault_erase_pinned _ c ip).mpr hnow

/-- The pin that was added is gone again. -/
theorem unpinned_withPin {pin : Option Ipv4Addr} (hundo : f.UndoSucceeds)
    (hpin : ∀ ip ∈ pin, pinned c ip ∉ table) :
  unpinned f c pin (withPin c pin table) = table ∧
    unpinned f c pin (insert (original c) (withPin c pin table)) = insert (original c) table
  := by
  obtain ⟨-, -, hunpin, -⟩ := hundo
  cases pin with
  | none => exact ⟨rfl, rfl⟩
  | some ip =>
      have hnew := hpin ip rfl
      have hne := isDefault_ne_pinned (isDefault_original c) c ip
      rw [unpinned, unpinned, hunpin, if_neg Bool.false_ne_true, if_neg Bool.false_ne_true, withPin,
        Finset.erase_insert hnew, Finset.insert_comm, Finset.erase_insert]
      · exact ⟨rfl, rfl⟩
      · rw [Finset.mem_insert, not_or]
        exact ⟨hne.symm, hnew⟩

/-- What is left of the routes after a revert. -/
theorem revert_routes {serverIp : Option Ipv4Addr} {a : AppliedState} {net : Net}
    (h : Applied f c serverIp tun table a net) :
  (f.UndoSucceeds → (revertPin f a (revertDefault f a net)).table
      = if swaps f tun table then insert (original c) table else table) ∧
    (revertPin f a (revertDefault f a net)).resolv = net.resolv ∧
    (net.Reached → HasDefault table → ((revertPin f a (revertDefault f a net)).Reached ↔
      (swaps f tun table = true → f.originalDelete = false → f.originalAdd = true →
        f.tunDelete = false → ∃ r ∈ table, r.IsDefault ∧ r ≠ original c)))
  := by
  obtain ⟨htable, hresolv, hreached⟩ := revertPin_spec (f := f) h.captured (revertDefault f a net)
  have hpin : ∀ ip ∈ pinnedBy f c serverIp table, pinned c ip ∉ table := by
    intro ip hip
    obtain ⟨_, hkept⟩ := Option.filter_eq_some_iff.mp hip
    exact of_decide_eq_true (Bool.and_eq_true_iff.mp hkept).2
  rw [htable, hresolv, hreached, h.serverPin]
  cases hswaps : swaps f tun table with
  | false =>
      have hadded := h.defaultAdded
      have hnet := h.table
      rw [hswaps] at hadded
      rw [hswaps, if_neg Bool.false_ne_true] at hnet
      rw [revertDefault, if_neg (by rw [hadded]; exact Bool.false_ne_true), hnet]
      refine ⟨?_, rfl, ?_⟩
      · intro hundo
        rw [if_neg Bool.false_ne_true]
        exact (unpinned_withPin hundo hpin).1
      · intro hbefore _
        exact iff_of_true hbefore fun hfalse => nomatch hfalse
  | true =>
      have hadded := h.defaultAdded
      have hnet := h.table
      rw [hswaps] at hadded
      rw [hswaps, if_pos rfl] at hnet
      have htun : tunDefault tun ∉ table :=
        of_decide_eq_true (Bool.and_eq_true_iff.mp hswaps).2
      have htun' : tunDefault tun ∉ withPin c (pinnedBy f c serverIp table) table := by
        rwa [mem_withPin_iff (isDefault_tunDefault tun)]
      obtain ⟨hswapped, hfile, hpoints⟩ := revertDefault_spec h.captured hadded h.tunName hnet
      rw [hswapped, hfile, hpoints]
      refine ⟨?_, rfl, ?_⟩
      · intro hundo
        rw [unswapped_swapped hundo htun', if_pos rfl]
        exact (unpinned_withPin hundo hpin).2
      · intro hbefore hdefault
        have hpinned : HasDefault (withPin c (pinnedBy f c serverIp table) table) := by
          obtain ⟨d, hd, hd'⟩ := hdefault
          exact ⟨d, (mem_withPin_iff hd' c _ _).mpr hd, hd'⟩
        have hother : (∃ r ∈ withPin c (pinnedBy f c serverIp table) table,
            r.IsDefault ∧ r ≠ original c) ↔ ∃ r ∈ table, r.IsDefault ∧ r ≠ original c := by
          apply exists_congr
          intro r
          constructor
          · rintro ⟨hr, hr', hne⟩
            exact ⟨(mem_withPin_iff hr' c _ _).mp hr, hr', hne⟩
          · rintro ⟨hr, hr', hne⟩
            exact ⟨(mem_withPin_iff hr' c _ _).mpr hr, hr', hne⟩
        rw [and_iff_left hbefore, hasDefault_unswapped_iff htun' hpinned, hother]
        exact ⟨fun hall _ => hall, fun hall => hall rfl⟩

end Revert

/-! ### The file of the name servers -/

section Dns

variable {f : Faults} {dns : Option Ipv4Addr × Option Ipv4Addr}

/-- The file is restored just when it was not there or could be read, and when no writing was cut
short that changed it. -/
def ResolvRestorable (f : Faults) (dns : Option Ipv4Addr × Option Ipv4Addr)
    (resolv : Option (List UInt8)) : Prop :=
  nameservers dns ≠ [] →
    match f.write with
    | .whole => resolv = none ∨ f.read = false
    | .refused => True
    | .cut n => resolv = some ((renderResolvConf dns).take n)

/-- The name servers are no matter of the routes. -/
theorem applyDns_frame (f : Faults) (dns : Option Ipv4Addr × Option Ipv4Addr)
    (state : AppliedState) (net : Net) :
  (applyDns f dns state net).2.table = net.table ∧ (applyDns f dns state net).2.past = net.past ∧
    (applyDns f dns state net).1.captured = state.captured ∧
    (applyDns f dns state net).1.tunName = state.tunName ∧
    (applyDns f dns state net).1.defaultAdded = state.defaultAdded ∧
    (applyDns f dns state net).1.serverPin = state.serverPin
  := by
  rw [applyDns]
  split
  · exact ⟨rfl, rfl, rfl, rfl, rfl, rfl⟩
  · refine ⟨rfl, rfl, ?_⟩
    dsimp only
    split
    · exact ⟨rfl, rfl, rfl, rfl⟩
    · exact ⟨rfl, rfl, rfl, rfl⟩

theorem revertResolv_frame (f : Faults) (a : AppliedState) (net : Net) :
  (revertResolv f a net).table = net.table ∧ (revertResolv f a net).past = net.past
  := by
  rw [revertResolv]
  split
  · split
    · exact ⟨rfl, rfl⟩
    · split
      · exact ⟨rfl, rfl⟩
      · exact ⟨rfl, rfl⟩
  · exact ⟨rfl, rfl⟩

/-- The file after a revert whose operations succeed. -/
theorem resolv_reverted_iff (hundo : f.UndoSucceeds) {state : AppliedState} {net net' : Net}
    (hstate : state.resolvWritten = false)
    (hnet : net'.resolv = (applyDns f dns state net).2.resolv) :
  (revertResolv f (applyDns f dns state net).1 net').resolv = net.resolv ↔
    ResolvRestorable f dns net.resolv
  := by
  obtain ⟨-, -, -, hback, hremove⟩ := hundo
  rw [revertResolv, ResolvRestorable, hback, hremove]
  rw [applyDns] at hnet ⊢
  by_cases hnone : nameservers dns = []
  · rw [if_pos hnone] at hnet ⊢
    rw [if_neg (by rw [hstate]; exact Bool.false_ne_true), hnet]
    exact iff_of_true rfl fun hsome => absurd hnone hsome
  · rw [if_neg hnone] at hnet ⊢
    rw [forall_prop_of_true hnone]
    dsimp only at hnet ⊢
    cases hwrite : f.write with
    | refused =>
        rw [hwrite] at hnet
        simp [Write.apply, hstate, hnet]
    | cut n =>
        rw [hwrite] at hnet
        simp [Write.apply, hstate, hnet, eq_comm]
    | whole =>
        cases f.read with
        | true => simp [Write.apply, eq_comm]
        | false =>
            cases net.resolv with
            | none => simp [Write.apply]
            | some bytes => simp [Write.apply]

end Dns

/-! ### Applied and reverted -/

section Undone

variable (f : Faults) (rows : List Row) (opts : NetCfgOpts) (serverIp : Option Ipv4Addr)
  (est : Established) (tun : List Char) (resolv : Option (List UInt8))

/-- The host at the start. -/
def atStart : Net :=
  ⟨routeTable rows, resolv, []⟩

/-- The guard and the host after an apply. -/
def applied : NetCfgGuard × Net :=
  apply f (render rows) opts serverIp est tun (atStart rows resolv)

/-- The guard and the host after the revert. -/
def reverted : NetCfgGuard × Net :=
  (applied f rows opts serverIp est tun resolv).1.revert f
    (applied f rows opts serverIp est tun resolv).2

/-- What an apply and a revert are to leave: the host as it was, if what undoes something
succeeds; nothing more to do; and at every point a default route if there was one. -/
structure Undone : Prop where
  restored : f.UndoSucceeds → (reverted f rows opts serverIp est tun resolv).2.table
      = routeTable rows ∧ (reverted f rows opts serverIp est tun resolv).2.resolv = resolv
  again : ∀ f', (reverted f rows opts serverIp est tun resolv).1.revert f'
      (reverted f rows opts serverIp est tun resolv).2
    = reverted f rows opts serverIp est tun resolv
  reached : HasDefault (routeTable rows) →
    (reverted f rows opts serverIp est tun resolv).2.Reached

/-- The default is swapped for the one over the link. -/
def Swaps (c : CapturedDefault) : Prop :=
  opts.defaultRoute = true ∧ readDefaultRoute f (render rows) tun = some c ∧
    f.tunAdd = false ∧ tunDefault tun ∉ routeTable rows

theorem swaps_iff {c : CapturedDefault} (hroute : opts.defaultRoute = true)
    (hread : readDefaultRoute f (render rows) tun = some c) (d : CapturedDefault) :
  Swaps f rows opts tun d ↔ c = d ∧ swaps f tun (routeTable rows) = true
  := by
  rw [Swaps, hread, swaps, Bool.and_eq_true_iff, Bool.not_eq_true', decide_eq_true_iff,
    Option.some.injEq]
  exact and_iff_right hroute

variable {f rows opts tun} in
theorem hasDefault_of_swaps {c : CapturedDefault} (h : Swaps f rows opts tun c) :
  HasDefault (routeTable rows)
  := by
  obtain ⟨_, hread, _⟩ := h
  rw [readDefaultRoute] at hread
  split at hread
  · cases hread
  · exact ⟨_, (captured_spec hread).1, rfl, rfl⟩

/-- The state and the host before the name servers are looked at. -/
def routesApplied : AppliedState × Net :=
  if opts.defaultRoute then
    applyDefaultRoute f (render rows) serverIp (.start tun) (atStart rows resolv)
  else (.start tun, atStart rows resolv)

/-- The state and the host with the name servers. -/
def allApplied : AppliedState × Net :=
  let r := routesApplied f rows opts serverIp tun resolv
  if opts.dns then applyDns f est.dns r.1 r.2 else r

theorem reverted_eq :
  let r := allApplied f rows opts serverIp est tun resolv
  reverted f rows opts serverIp est tun resolv
    = (⟨none⟩, revertResolv f r.1 (revertPin f r.1 (revertDefault f r.1 r.2)))
  := rfl

/-- The name servers do not change what is done about the routes. -/
theorem allApplied_routes :
  let r := routesApplied f rows opts serverIp tun resolv
  let r' := allApplied f rows opts serverIp est tun resolv
  r'.2.table = r.2.table ∧ r'.2.past = r.2.past ∧ r'.1.captured = r.1.captured ∧
    r'.1.tunName = r.1.tunName ∧ r'.1.defaultAdded = r.1.defaultAdded ∧
    r'.1.serverPin = r.1.serverPin
  := by
  intro r r'
  have hr' : r' = if opts.dns then applyDns f est.dns r.1 r.2 else r := rfl
  rw [hr']
  split
  · exact applyDns_frame f est.dns r.1 r.2
  · exact ⟨rfl, rfl, rfl, rfl, rfl, rfl⟩

/-- The default that was captured, if it was asked for. -/
def capturedDefault : Option CapturedDefault :=
  if opts.defaultRoute then readDefaultRoute f (render rows) tun else none

theorem routesApplied_of_none (h : capturedDefault f rows opts tun = none) :
  routesApplied f rows opts serverIp tun resolv = (.start tun, atStart rows resolv)
  := by
  rw [capturedDefault] at h
  rw [routesApplied]
  split
  · rename_i hroute
    rw [if_pos hroute] at h
    have hstart : readDefaultRoute f (render rows) (AppliedState.start tun).tunName = none := h
    rw [applyDefaultRoute, hstart]
  · rfl

variable {f rows opts tun} in
theorem captured_of_some {c : CapturedDefault} (h : capturedDefault f rows opts tun = some c) :
  opts.defaultRoute = true ∧ readDefaultRoute f (render rows) tun = some c ∧
    parseProcRoute (render rows) tun = some c
  := by
  rw [capturedDefault] at h
  split at h
  · rename_i hroute
    refine ⟨hroute, h, ?_⟩
    rw [readDefaultRoute] at h
    split at h
    · cases h
    · exact h
  · cases h

/-- What a revert makes of the routes. -/
theorem routes_reverted :
  let r := allApplied f rows opts serverIp est tun resolv
  (f.UndoSucceeds → ((revertPin f r.1 (revertDefault f r.1 r.2)).table = routeTable rows ↔
      ∀ c, Swaps f rows opts tun c → c.metric.toNat ≤ 32766)) ∧
    (revertPin f r.1 (revertDefault f r.1 r.2)).resolv = r.2.resolv ∧
    (HasDefault (routeTable rows) → ((revertPin f r.1 (revertDefault f r.1 r.2)).Reached ↔
      ∀ c, Swaps f rows opts tun c → f.originalDelete = false → f.originalAdd = true →
        f.tunDelete = false → ∃ r ∈ routeTable rows, r.IsDefault ∧ r ≠ original c))
  := by
  intro r
  obtain ⟨htable, hpast, hcaptured, htun, hadded, hpin⟩ :=
    allApplied_routes f rows opts serverIp est tun resolv
  have hpoints : r.2.points = (routesApplied f rows opts serverIp tun resolv).2.points :=
    congrArg₂ List.cons htable hpast
  cases hc : capturedDefault f rows opts tun with
  | none =>
      rw [routesApplied_of_none f rows opts serverIp tun resolv hc]
        at htable hcaptured htun hadded hpin hpoints
      have hswaps : ∀ c, ¬ Swaps f rows opts tun c := by
        rintro c ⟨hroute, hread, _⟩
        rw [capturedDefault, if_pos hroute, hread] at hc
        cases hc
      have hdefault : revertDefault f r.1 r.2 = r.2 := by
        rw [revertDefault]
        exact if_neg fun htrue => Bool.false_ne_true (hadded.symm.trans htrue)
      have hsame : revertPin f r.1 (revertDefault f r.1 r.2) = r.2 := by
        rw [hdefault, revertPin]
        rw [show r.1.serverPin = none from hpin]
      rw [hsame]
      refine ⟨?_, rfl, ?_⟩
      · intro _
        exact iff_of_true htable fun c h => absurd h (hswaps c)
      · intro hnow
        refine iff_of_true ?_ fun c h => absurd h (hswaps c)
        intro table hmem
        rw [hpoints] at hmem
        obtain rfl := List.mem_singleton.mp hmem
        exact hnow
  | some c =>
      obtain ⟨hroute, hread, hparse⟩ := captured_of_some hc
      obtain ⟨happlied, hresolv, hreached, hwritten⟩ := applied_applyDefaultRoute serverIp
        (atStart rows resolv) hread
      have hroutes : routesApplied f rows opts serverIp tun resolv
          = applyDefaultRoute f (render rows) serverIp (.start tun) (atStart rows resolv) :=
        if_pos hroute
      rw [hroutes] at htable hcaptured htun hadded hpin hpoints
      have hall : Applied f c serverIp tun (routeTable rows) r.1 r.2 :=
        ⟨hcaptured.trans happlied.captured, htun.trans happlied.tunName,
          hadded.trans happlied.defaultAdded, hpin.trans happlied.serverPin,
          htable.trans happlied.table⟩
      obtain ⟨hundone, hfile, hpresent⟩ := revert_routes hall
      refine ⟨?_, hfile, ?_⟩
      · intro hundo
        rw [hundone hundo]
        simp only [swaps_iff f rows opts tun hroute hread, and_imp, forall_eq']
        split
        · rename_i hswaps
          rw [Finset.insert_eq_self, original_mem_iff hparse]
          exact ⟨fun hle _ => hle, fun hle => hle hswaps⟩
        · rename_i hswaps
          exact iff_of_true rfl fun hno => absurd hno hswaps
      · intro hnow
        have hstart : (atStart rows resolv).Reached := by
          intro table hmem
          obtain rfl := List.mem_singleton.mp hmem
          exact hnow
        have hbefore : r.2.Reached := by
          rw [Net.Reached, hpoints]
          exact hreached hstart
        rw [hpresent hbefore hnow]
        simp only [swaps_iff f rows opts tun hroute hread, and_imp, forall_eq']

theorem routesApplied_resolv :
  (routesApplied f rows opts serverIp tun resolv).1.resolvWritten = false ∧
    (routesApplied f rows opts serverIp tun resolv).2.resolv = resolv
  := by
  cases hc : capturedDefault f rows opts tun with
  | none =>
      rw [routesApplied_of_none f rows opts serverIp tun resolv hc]
      exact ⟨rfl, rfl⟩
  | some c =>
      obtain ⟨hroute, hread, _⟩ := captured_of_some hc
      obtain ⟨_, hresolv, _, hwritten⟩ := applied_applyDefaultRoute serverIp
        (atStart rows resolv) hread
      rw [routesApplied, if_pos hroute]
      exact ⟨hwritten, hresolv⟩

/-- What a revert makes of the file of the name servers. -/
theorem resolv_reverted {net' : Net} (hundo : f.UndoSucceeds)
    (hnet : net'.resolv = (allApplied f rows opts serverIp est tun resolv).2.resolv) :
  (revertResolv f (allApplied f rows opts serverIp est tun resolv).1 net').resolv = resolv ↔
    (opts.dns = true → ResolvRestorable f est.dns resolv)
  := by
  obtain ⟨hwritten, hresolv⟩ := routesApplied_resolv f rows opts serverIp tun resolv
  rw [allApplied] at hnet ⊢
  cases hdns : opts.dns with
  | true =>
      rw [hdns, if_pos rfl] at hnet
      have hiff := resolv_reverted_iff hundo hwritten hnet
      rw [hresolv] at hiff
      rw [if_pos rfl, hiff]
      exact ⟨fun h _ => h, fun h => h rfl⟩
  | false =>
      rw [hdns, if_neg Bool.false_ne_true] at hnet
      rw [if_neg Bool.false_ne_true, revertResolv,
        if_neg fun htrue => Bool.false_ne_true (hwritten.symm.trans htrue), hnet, hresolv]
      exact iff_of_true rfl fun h => nomatch h

/-- The host is left as it was, and never without a default, just when a swapped default has a
metric that fits into a request and is restored where no other is there, and the file of the name
servers could be read and written. -/
theorem undone_iff :
  Undone f rows opts serverIp est tun resolv ↔
    (∀ c, Swaps f rows opts tun c → (f.UndoSucceeds → c.metric.toNat ≤ 32766) ∧
      (f.originalDelete = false → f.originalAdd = true → f.tunDelete = false →
        ∃ r ∈ routeTable rows, r.IsDefault ∧ r ≠ original c)) ∧
    (f.UndoSucceeds → opts.dns = true → ResolvRestorable f est.dns resolv)
  := by
  obtain ⟨hroutes, hfile, hpoints⟩ := routes_reverted f rows opts serverIp est tun resolv
  have heq := reverted_eq f rows opts serverIp est tun resolv
  have hframe := revertResolv_frame f (allApplied f rows opts serverIp est tun resolv).1
    (revertPin f (allApplied f rows opts serverIp est tun resolv).1
      (revertDefault f (allApplied f rows opts serverIp est tun resolv).1
        (allApplied f rows opts serverIp est tun resolv).2))
  have hreached : (reverted f rows opts serverIp est tun resolv).2.Reached ↔
      (revertPin f (allApplied f rows opts serverIp est tun resolv).1
        (revertDefault f (allApplied f rows opts serverIp est tun resolv).1
          (allApplied f rows opts serverIp est tun resolv).2)).Reached := by
    rw [heq, Net.Reached, Net.Reached, Net.points, Net.points, hframe.1, hframe.2]
  constructor
  · rintro ⟨hrestored, -, hpresent⟩
    refine ⟨?_, ?_⟩
    · intro c hswaps
      refine ⟨?_, ?_⟩
      · intro hundo
        have htable := (hrestored hundo).1
        rw [heq, hframe.1] at htable
        exact (hroutes hundo).mp htable c hswaps
      · exact (hpoints (hasDefault_of_swaps hswaps)).mp
          (hreached.mp (hpresent (hasDefault_of_swaps hswaps))) c hswaps
    · intro hundo hdns
      have hresolv := (hrestored hundo).2
      rw [heq] at hresolv
      exact (resolv_reverted f rows opts serverIp est tun resolv hundo hfile).mp hresolv hdns
  · rintro ⟨hall, hdns⟩
    refine ⟨?_, fun _ => rfl, ?_⟩
    · intro hundo
      rw [heq]
      refine ⟨?_, ?_⟩
      · rw [hframe.1]
        exact (hroutes hundo).mpr fun c hswaps => (hall c hswaps).1 hundo
      · exact (resolv_reverted f rows opts serverIp est tun resolv hundo hfile).mpr (hdns hundo)
    · intro hnow
      rw [hreached]
      exact (hpoints hnow).mpr fun c hswaps => (hall c hswaps).2

end Undone

/-- Nothing fails. -/
def noFaults : Faults :=
  ⟨false, false, false, false, false, .whole, false, false, false, .whole, false⟩

/-- The home network, with a default of a metric that no request can name. -/
def farRows : List Row :=
  [{ Row.home with metric := 40000 }]

/-- A link whose peer names one name server. -/
def namedLink : Established :=
  ⟨⟨0xc6336402⟩, ⟨0xc6336401⟩, (some ⟨0x08080808⟩, none), 1492⟩

theorem parseProcRoute_farRows :
  parseProcRoute (render farRows) "zppp0".toList
    = some ⟨⟨0x0a000001⟩, "eth0".toList, 40000⟩
  := by
  rw [parseProcRoute, parseDefault_render]
  decide

/-- The default comes back at another metric, and the file that could not be read is removed. -/
theorem default_moved_and_file_removed :
  ¬ Undone noFaults farRows ⟨true, false⟩ none namedLink "zppp0".toList none ∧
    ¬ Undone { noFaults with read := true } [] ⟨false, true⟩ none namedLink "zppp0".toList
      (some [0x23])
  := by
  constructor
  · intro hundone
    have hundo : noFaults.UndoSucceeds := by
      decide
    have htable := (hundone.restored hundo).1
    rw [reverted_eq, (revertResolv_frame _ _ _).1] at htable
    have hmetric := ((routes_reverted _ _ _ _ _ _ _).1 hundo).mp htable
      ⟨⟨0x0a000001⟩, "eth0".toList, 40000⟩ ⟨rfl, parseProcRoute_farRows, rfl, by decide⟩
    exact absurd hmetric (by decide)
  · intro hundone
    have hresolv := (hundone.restored (by decide)).2
    exact absurd hresolv (by decide)

end ZeroNat.Pppoe.Netcfg

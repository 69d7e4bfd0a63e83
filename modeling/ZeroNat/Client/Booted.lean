import ZeroNat.Client.Valid

/-!
# What a boot gives

A client that boots runs what its config declares, and a config that keeps the rules is booted
from whenever some client is in step with it and the body of the boot leaves alone what the slots
hold.
-/

namespace ZeroNat.Client

open Config (CfgServer CfgForward CfgPppoe CfgTap CfgTun CfgPeer ClientConfig)

/-! ### Lists -/

theorem mapM_eq_ok_iff {α β : Type} {f : α → Except String β} {l : List α} {m : List β} :
  l.mapM f = .ok m ↔ List.Forall₂ (fun a b => f a = .ok b) l m
  := by
  induction l generalizing m with
  | nil =>
      rw [List.forall₂_nil_left_iff]
      exact ⟨fun h => (Except.ok.inj h).symm, fun h => h ▸ rfl⟩
  | cons a l ih =>
      rw [List.mapM_cons]
      constructor
      · intro h
        obtain ⟨b, hb, h⟩ := Config.ok_of_bind h
        obtain ⟨m', hm', h⟩ := Config.ok_of_bind h
        obtain rfl := Except.ok.inj h
        exact .cons hb (ih.mp hm')
      · intro h
        obtain ⟨b, m', hb, hm', rfl⟩ := List.forall₂_cons_left_iff.mp h
        rw [hb]
        change l.mapM f >>= _ = _
        rw [ih.mpr hm']
        rfl

theorem exists_left_of_mem {α β : Type} {R : α → β → Prop} {l : List α} {m : List β}
    (h : List.Forall₂ R l m) {b : β} (hb : b ∈ m) :
  ∃ a ∈ l, R a b
  := by
  induction h with
  | nil => exact absurd hb List.not_mem_nil
  | @cons a b' l m hrel _ ih =>
      rcases List.mem_cons.mp hb with rfl | hb
      · exact ⟨a, List.mem_cons_self, hrel⟩
      · obtain ⟨a', ha', hrel'⟩ := ih hb
        exact ⟨a', List.mem_cons_of_mem a ha', hrel'⟩

/-! ### Forwards -/

theorem lookup_foldl_insert (fwds : List Forward) (t : Table UInt16 ForwardTarget)
    (hnodup : (fwds.map Forward.port).Nodup) (port : UInt16) :
  (fwds.foldl (fun t f => t.insert f.port f.toTarget) t).lookup port
    = ((fwds.find? fun f => f.port = port).map Forward.toTarget).or (t.lookup port)
  := by
  induction fwds generalizing t with
  | nil => rfl
  | cons f fwds ih =>
      rw [List.map_cons, List.nodup_cons] at hnodup
      rw [List.foldl_cons, ih _ hnodup.2, List.find?_cons, Table.lookup_insert_eq]
      by_cases hport : f.port = port
      · -- No later entry has the port.
        have hnone : (fwds.find? fun f => f.port = port) = none := by
          rw [List.find?_eq_none]
          intro f' hf' heq
          apply hnodup.1
          rw [hport, ← of_decide_eq_true heq]
          exact List.mem_map_of_mem hf'
        rw [hnone, if_pos hport.symm, decide_eq_true hport]
        rfl
      · rw [if_neg (Ne.symm hport), decide_eq_false hport]

theorem lookup_byPort (fwds : List Forward) (hnodup : (fwds.map Forward.port).Nodup)
    (port : UInt16) :
  (SharedForwards.byPort fwds).lookup port
    = (fwds.find? fun f => f.port = port).map Forward.toTarget
  := by
  rw [SharedForwards.byPort, lookup_foldl_insert fwds ∅ hnodup, AList.lookup_empty, Option.or_none]

/-- The entries of a protocol that are given by port are those that the config declares. -/
theorem lookup_byPort_filter (fwds : List CfgForward)
    (hnodup : (fwds.map fun f => (f.proto, f.port)).Nodup) (proto : Proto) (port : UInt16) :
  (SharedForwards.byPort ((fwds.filter fun f => f.proto = proto).map forwardOf)).lookup port
    = declared fwds proto port
  := by
  have hports :
      (((fwds.filter fun f => f.proto = proto).map forwardOf).map Forward.port).Nodup := by
    rw [List.map_map]
    have hkeys : ((fwds.filter fun f => f.proto = proto).map fun f => (f.proto, f.port)).Nodup :=
      hnodup.sublist (List.filter_sublist.map _)
    refine List.Nodup.of_map (fun port => (proto, port)) ?_
    rw [List.map_map]
    rw [List.map_congr_left] at hkeys
    · exact hkeys
    · intro f hf
      have hproto := of_decide_eq_true (List.mem_filter.mp hf).2
      exact congrArg (·, f.port) hproto
  rw [lookup_byPort _ hports, List.find?_map, List.find?_filter, Option.map_map, declared]
  congr 2
  funext f
  apply Bool.eq_iff_iff.mpr
  rw [decide_eq_true_iff, decide_eq_true_iff, decide_eq_true_iff]
  exact and_congr_right fun _ => decide_eq_true_iff

theorem get_new (fwds : List CfgForward) (hnodup : (fwds.map fun f => (f.proto, f.port)).Nodup)
    (proto : Proto) (port : UInt16) :
  (SharedForwards.new (splitForwards fwds).1 (splitForwards fwds).2).get proto port
    = declared fwds proto port
  := by
  cases proto with
  | tcp => exact lookup_byPort_filter fwds hnodup .tcp port
  | udp => exact lookup_byPort_filter fwds hnodup .udp port

/-- The body that the forwards select depends on what is looked up only. -/
theorem deriveMode_congr {forwards forwards' : SharedForwards}
    (h : ∀ proto port, forwards.get proto port = forwards'.get proto port) (fallback : RunMode) :
  deriveMode forwards fallback = deriveMode forwards' fallback
  := by
  have hany : forwards.anyDeclared = forwards'.anyDeclared := by
    apply Bool.eq_iff_iff.mpr
    rw [SharedForwards.anyDeclared_iff, SharedForwards.anyDeclared_iff]
    simp only [h]
  rw [deriveMode, deriveMode, hany]

/-! ### Slots -/

theorem clashes_comm (spec other : PeerSlotSpec) :
  spec.clashes other = other.clashes spec
  := by
  apply Bool.eq_iff_iff.mpr
  rw [PeerSlotSpec.clashes, PeerSlotSpec.clashes]
  cases spec.consumerKey with
  | none =>
      cases other.consumerKey with
      | none => simp [eq_comm]
      | some b => simp
  | some a =>
      cases other.consumerKey with
      | none => simp
      | some b => simp [eq_comm]

theorem peerClaims_eq (slots : List PeerSlot) :
  peerClaims slots = (slots.map PeerSlot.spec).flatMap PeerSlotSpec.claims
  := by
  rw [peerClaims, List.flatMap_map]

theorem distinct_iff (slots : List PeerSlot) :
  Distinct slots
    ↔ (slots.map PeerSlot.spec).Pairwise fun spec other => ¬ other.clashes spec
  := by
  rw [Distinct, List.pairwise_map]

section

variable {slots slots' : List PeerSlot}
  (h : (slots.map PeerSlot.spec).Perm (slots'.map PeerSlot.spec))
include h

theorem perm_peerClaims :
  (peerClaims slots).Perm (peerClaims slots')
  := by
  rw [peerClaims_eq, peerClaims_eq]
  exact h.flatMap_right _

theorem apart_of_perm (hapart : (peerClaims slots).Apart) :
  (peerClaims slots').Apart
  := ((perm_peerClaims h).map Prod.fst).nodup_iff.mp hapart

theorem disjoint_of_perm {claims : SlotClaims} (hdisjoint : (peerClaims slots).Disjoint claims) :
  (peerClaims slots').Disjoint claims
  := by
  intro claim hclaim hmem
  exact hdisjoint claim hclaim (((perm_peerClaims h).map Prod.fst).mem_iff.mpr hmem)

theorem distinct_of_perm (hdistinct : Distinct slots) :
  Distinct slots'
  := by
  rw [distinct_iff] at hdistinct ⊢
  refine (h.pairwise_iff ?_).mp hdistinct
  intro spec other hclashes
  rw [clashes_comm]
  exact hclashes

theorem single_of_perm (hsingle : ∀ slot ∈ slots, slot.spec.Single) :
  ∀ slot ∈ slots', slot.spec.Single
  := by
  intro slot hslot
  have hmem := h.mem_iff.mpr (List.mem_map_of_mem hslot)
  obtain ⟨slot', hslot', hspec⟩ := List.mem_map.mp hmem
  rw [← hspec]
  exact hsingle slot' hslot'

end

/-- Slots that are in order in a running client are so at a boot. -/
theorem exists_initSlots {s : ActiveTarget} (target : ServerTarget) {specs : List PeerSlotSpec}
    {mode : RunMode} (horderly : s.Orderly) (hperm : (s.peers.map PeerSlot.spec).Perm specs)
    (hmode : (peerClaims s.peers).Disjoint mode.claims) :
  ∃ t, (ActiveTarget.new target).initSlots specs mode = .ok t
  := by
  let peers : List PeerSlot := (specs.zipIdx 0).map fun e => ⟨e.1, e.2⟩
  have hspecs : peers.map PeerSlot.spec = specs := by
    rw [List.map_map]
    exact List.zipIdx_map_fst _ _
  have hperm' : (s.peers.map PeerSlot.spec).Perm (peers.map PeerSlot.spec) := by
    rw [hspecs]
    exact hperm
  have hcheck : checkSlotIdentities peers = .ok () :=
    (checkSlotIdentities_eq_ok peers).mpr
      ⟨single_of_perm hperm' horderly.single, distinct_of_perm hperm' horderly.distinct⟩
  have hclaims : SlotClaims.new (peerClaims peers) = .ok (peerClaims peers) :=
    (SlotClaims.new_eq_ok _ _).mpr ⟨rfl, apart_of_perm hperm' horderly.apart⟩
  have hadmitted : (peerClaims peers).admits mode.claims = .ok () :=
    (SlotClaims.admits_eq_ok _ _).mpr (disjoint_of_perm hperm' hmode)
  rw [ActiveTarget.initSlots]
  change ∃ t, checkSlotIdentities peers >>= _ = _
  rw [hcheck]
  change ∃ t, SlotClaims.new (peerClaims peers) >>= _ = _
  rw [hclaims]
  change ∃ t, (peerClaims peers).admits mode.claims >>= _ = _
  rw [hadmitted]
  exact ⟨_, rfl⟩

/-- A config with slots is one with peer sessions. -/
theorem hasPeerSlots_of_specs {cfg : ClientConfig} {specs : List PeerSlotSpec}
    (h : peerSlots cfg.tun cfg.peer = .ok specs) (hspecs : specs ≠ []) :
  hasPeerSlots cfg = true
  := by
  rw [hasPeerSlots, Bool.or_eq_true]
  by_contra hnot
  rw [not_or] at hnot
  obtain ⟨htun, hpeer⟩ := hnot
  apply hspecs
  have hconsumer : consumerSlots cfg.tun = [] := by
    rcases consumerSlots_cases cfg.tun with hnil | ⟨t, peerId, ht, hvia, -⟩
    · exact hnil
    · rw [ht, Option.any_some, isPeer, hvia] at htun
      exact absurd rfl htun
  cases hsome : cfg.peer with
  | none =>
      rw [hsome] at h
      rw [← Except.ok.inj h]
      exact hconsumer
  | some peer =>
      rw [hsome, Option.any_some, Bool.not_eq_true, Bool.or_eq_false_iff] at hpeer
      rw [hsome] at h
      obtain ⟨allow, exits, segments, -, hexits, hsegments, rfl⟩ := peerSlots_eq_ok.mp h
      obtain rfl := Except.ok.inj ((exitSlots_of_not_exit hpeer.1).symm.trans hexits)
      have hnone := Option.not_isSome_iff_eq_none.mp (Bool.eq_false_iff.mp hpeer.2)
      obtain rfl := Except.ok.inj ((segmentSlots_of_none hnone).symm.trans hsegments)
      rw [hconsumer]
      rfl

/-! ### Secrets -/

/-- The normal form of a secret spells the same key. -/
theorem keyOf_normalize {value secret : String} (h : Secret.normalize value = .ok secret) :
  keyOf secret = keyOf value
  := by
  obtain ⟨bytes, hdecode, rfl⟩ := Secret.decode_of_normalize h
  rw [keyOf_eq_some.mpr hdecode, keyOf_eq_some]
  exact Secret.decode_encode_secret bytes

/-- The profile of a server knows none but the secrets of the server. -/
theorem knows_eq_false {key : Bytes 32} {keys : List (Bytes 32)} {c : CfgServer}
    {t : ServerTarget} (hlive : Live c t) (hkeyed : Keyed (some key) c)
    (hdiscovered : Discovered (some key) keys c) :
  knows key t = false
  := by
  obtain ⟨-, -, -, hsecret, hcredential, hdiscovery⟩ := live_iff.mp hlive
  obtain ⟨happartSecret, happartCredential⟩ := hkeyed.apart key rfl
  rw [knows, Bool.or_eq_false_iff, Bool.or_eq_false_iff]
  refine ⟨⟨?_, ?_⟩, ?_⟩
  · apply decide_eq_false
    change keyOf t.secret ≠ some key
    rw [keyOf_normalize hsecret]
    exact happartSecret
  · apply decide_eq_false
    change keyOf t.credential ≠ some key
    rw [keyOf_normalize hcredential]
    exact happartCredential
  · cases hsome : c.discovery with
    | none =>
        rw [hsome] at hdiscovery
        rw [← Except.ok.inj hdiscovery]
        rfl
    | some value =>
        rw [hsome] at hdiscovery
        obtain ⟨value', hvalue', hdiscovery⟩ := Config.ok_of_map hdiscovery
        rw [← hdiscovery, Option.any_some]
        apply decide_eq_false
        change keyOf value' ≠ some key
        rw [keyOf_normalize hvalue']
        intro hkey
        exact (hdiscovered.apart value hsome key hkey).2 rfl

/-! ### The boot -/

section

variable {files : Files} {cfg : ClientConfig} {s t : ControlState}

theorem via_of_valid (h : Valid cfg) :
  ∀ tun ∈ cfg.tun, tun.exitVia ≠ some ""
  := by
  intro tun htun hvia
  have hsome := h.via "" (by rw [Option.mem_def.mp htun, Option.bind_some]; exact hvia)
  exact absurd hsome (by decide)

theorem regular_of_valid (h : Valid cfg) :
  Regular cfg
  := ⟨h.names, via_of_valid h, fun hserver => (h.exclusive (Or.inr hserver)).2⟩

/-- A client that has booted keeps in step with its config, and runs the body of the boot. -/
theorem inStep_of_bootConfig (h : bootConfig files cfg = .ok s) :
  Valid cfg ∧ InStep files s cfg ∧ s.active.mode = s.bootMode
  := by
  rw [bootConfig] at h
  obtain ⟨⟨⟩, hvalidate, h⟩ := Config.ok_of_bind h
  have hvalid := (validate_eq_ok cfg).mp hvalidate
  obtain ⟨⟨target, settings⟩, hfile, h⟩ := Config.ok_of_bind h
  unfold bootFromFile at hfile
  split at hfile
  · exact absurd hfile (by simp)
  · rename_i srv hsrv
    obtain ⟨specs, hspecs, hfile⟩ := Config.ok_of_bind hfile
    obtain ⟨sessions, hsessions, hfile⟩ := Config.ok_of_bind hfile
    obtain ⟨rfl, rfl⟩ := Prod.mk.inj (Except.ok.inj hfile)
    change prepare _ _ = _ at h
    rw [prepare] at h
    obtain ⟨target, htarget, h⟩ := Config.ok_of_bind h
    obtain ⟨servers, hservers, h⟩ := Config.ok_of_bind h
    obtain ⟨key, hkey, h⟩ := Config.ok_of_bind h
    obtain ⟨rfl, hknown⟩ := decodeOpt_eq_ok.mp hkey
    split at h
    · exact absurd h (by simp)
    · split at h
      · exact absurd h (by simp)
      · obtain ⟨fallback, hfallback, h⟩ := Config.ok_of_bind h
        obtain ⟨active, hactive, h⟩ := Config.ok_of_bind h
        obtain rfl := Except.ok.inj h
        obtain ⟨horderly, hactiveTarget, hmode, hpeers, -, -⟩ :=
          ActiveTarget.initSlots_eq_ok hactive
        refine ⟨hvalid, ⟨⟨rfl, ?_, ⟨srv, hsrv, ?_⟩, get_new cfg.forwards hvalid.forwards,
          ⟨specs, hspecs, ?_⟩, hsessions, hfallback, ?_⟩, regular_of_valid hvalid, horderly⟩, hmode⟩
        · have hrel := mapM_eq_ok_iff.mp hservers
          rw [List.forall₂_map_left_iff] at hrel
          exact hrel
        · rw [hactiveTarget]
          exact htarget
        · rw [hpeers]
        · cases hsecret : cfg.peerSecret with
          | none => rfl
          | some value =>
              rw [Option.bind_some, hknown value hsecret]
              rfl

/-- A config that keeps the rules is booted from, when a client is in step with it whose slots
leave alone what the body of the boot holds. -/
theorem exists_bootConfig (hvalid : Valid cfg) (h : InStep files t cfg)
    (hboot : (peerClaims t.active.peers).Disjoint t.bootMode.claims) :
  ∃ s, bootConfig files cfg = .ok s
  := by
  obtain ⟨srv, hsrv, htarget⟩ := h.mirrors.target
  obtain ⟨specs, hspecs, hperm⟩ := h.mirrors.slots
  have hservers : (cfg.servers.map serverTarget).mapM normalizeTarget = .ok t.servers := by
    rw [mapM_eq_ok_iff, List.forall₂_map_left_iff]
    exact h.mirrors.servers
  have hmem : srv ∈ cfg.servers := by
    rw [activeServer] at hsrv
    split at hsrv
    · exact List.mem_of_find?_eq_some hsrv
    · exact List.mem_of_head? hsrv
  have hmode : deriveMode (SharedForwards.new (splitForwards cfg.forwards).1
      (splitForwards cfg.forwards).2) t.fallbackMode = t.bootMode := by
    apply deriveMode_congr
    intro proto port
    rw [get_new cfg.forwards hvalid.forwards, h.mirrors.forwards]
  obtain ⟨active, hactive⟩ := exists_initSlots t.active.target h.orderly hperm hboot
  rw [bootConfig, (validate_eq_ok cfg).mpr hvalid]
  change ∃ s, bootFromFile files cfg >>= _ = _
  rw [bootFromFile, hsrv]
  change ∃ s, (peerSlots cfg.tun cfg.peer >>= _) >>= _ = _
  rw [hspecs]
  change ∃ s, (sessionsOf files cfg >>= _) >>= _ = _
  rw [h.mirrors.sessions]
  change ∃ s, prepare _ _ = .ok s
  rw [prepare]
  rw [htarget]
  change ∃ s, (cfg.servers.map serverTarget).mapM normalizeTarget >>= _ = _
  rw [hservers]
  change ∃ s, decodeOpt cfg.peerSecret _ >>= _ = _
  rw [decodeOpt_eq_ok.mpr ⟨rfl, hvalid.peerSecret⟩]
  change ∃ s, ite (specs ≠ [] ∧ _) _ _ = _
  rw [if_neg, if_neg]
  · change ∃ s, fallbackOf (autostartOf cfg) t.pppoe (serverTunOf cfg) (cfg.tap.map tapOf) >>= _ = _
    rw [h.mirrors.fallback]
    change ∃ s, ActiveTarget.initSlots _ specs (deriveMode (SharedForwards.new
      (splitForwards cfg.forwards).1 (splitForwards cfg.forwards).2) t.fallbackMode) >>= _ = _
    rw [hmode, hactive]
    exact ⟨_, rfl⟩
  · rintro ⟨key, hkey, hknows⟩
    have hkey' : peerKey cfg = some key := hkey
    have hkeyed := hvalid.keyed
    have hdiscovered := hvalid.discovered
    rw [hkey'] at hkeyed hdiscovered
    rcases hknows with hknows | ⟨t', ht', hknows⟩
    · rw [knows_eq_false htarget (hkeyed srv hmem) (hdiscovered srv hmem)] at hknows
      exact absurd hknows (by simp)
    · obtain ⟨c, hc, hlive⟩ := exists_left_of_mem h.mirrors.servers ht'
      rw [knows_eq_false hlive (hkeyed c hc) (hdiscovered c hc)] at hknows
      exact absurd hknows (by simp)
  · rintro ⟨hne, hnone⟩
    have hsecret := hvalid.slots (hasPeerSlots_of_specs hspecs hne)
    obtain ⟨value, hvalue⟩ := Option.ne_none_iff_exists'.mp hsecret
    have hsome := hvalid.peerSecret value hvalue
    rw [hvalue, Option.bind_some] at hnone
    rw [hnone] at hsome
    exact absurd hsome (by simp)

end

end ZeroNat.Client

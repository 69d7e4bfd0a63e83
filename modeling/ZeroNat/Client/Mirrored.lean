import Mathlib.Data.List.Forall2
import ZeroNat.Client.Accepted

/-!
# Memory and file in step

A client that was booted from its file keeps the parsed config beside what it runs, and edits
both.  Whatever messages it is sent, and however the saves and the steps of the reconnect loop
come between, what it runs is what a boot from the parsed config would give it: the same forwards,
profiles, target and sessions, and the same slots up to their order.
-/

namespace ZeroNat.Client

open Config (CfgServer CfgForward CfgPppoe CfgTap CfgTun CfgPeer ClientConfig)

/-! ### Servers -/

/-- A profile is that of an entry of the config. -/
def Live (c : CfgServer) (t : ServerTarget) : Prop :=
  normalizeTarget (serverTarget c) = .ok t

theorem live_iff {c : CfgServer} {t : ServerTarget} :
  Live c t ↔ t.name = c.name ∧ t.addr = c.addr ∧ t.transport = c.transport
    ∧ Secret.normalize c.secret = .ok t.secret ∧ Secret.normalize c.credential = .ok t.credential
    ∧ normalizeOpt c.discovery = .ok t.discovery
  := by
  rw [Live, normalizeTarget]
  constructor
  · intro h
    obtain ⟨secret, hsecret, h⟩ := Config.ok_of_bind h
    obtain ⟨credential, hcredential, h⟩ := Config.ok_of_bind h
    obtain ⟨discovery, hdiscovery, h⟩ := Config.ok_of_bind h
    obtain rfl := Except.ok.inj h
    exact ⟨rfl, rfl, rfl, hsecret, hcredential, hdiscovery⟩
  · rintro ⟨hname, haddr, htransport, hsecret, hcredential, hdiscovery⟩
    obtain ⟨name, addr, secret, credential, discovery, transport⟩ := t
    change Secret.normalize c.secret >>= _ = _
    rw [hsecret]
    change Secret.normalize c.credential >>= _ = _
    rw [hcredential]
    obtain rfl : name = c.name := hname
    obtain rfl : addr = c.addr := haddr
    obtain rfl : transport = c.transport := htransport
    change normalizeOpt c.discovery >>= _ = _
    rw [hdiscovery]
    rfl

/-- A secret in its normal form stays as it is. -/
theorem normalize_of_normalize {value secret : String} (h : Secret.normalize value = .ok secret) :
  Secret.normalize secret = .ok secret
  := by
  obtain ⟨bytes, -, rfl⟩ := Config.ok_of_map h
  exact Secret.normalize_encode bytes

theorem names_live {cs : List CfgServer} {ts : List ServerTarget} (h : List.Forall₂ Live cs ts) :
  ts.map ServerTarget.name = cs.map CfgServer.name
  := by
  induction h with
  | nil => rfl
  | cons hlive _ ih => rw [List.map_cons, List.map_cons, ih, (live_iff.mp hlive).1]

/-- The profile of a name is that of the entry of the name. -/
theorem find?_live {cs : List CfgServer} {ts : List ServerTarget} (h : List.Forall₂ Live cs ts)
    {name : String} {t : ServerTarget} (ht : (ts.find? fun t => t.name = name) = some t) :
  ∃ c, (cs.find? fun c => c.name = name) = some c ∧ Live c t
  := by
  induction h with
  | nil => exact absurd ht (by simp)
  | @cons c t' cs ts hlive _ ih =>
      have hname := (live_iff.mp hlive).1
      rw [List.find?_cons] at ht
      rw [List.find?_cons]
      by_cases heq : c.name = name
      · rw [decide_eq_true (hname.trans heq)] at ht
        rw [decide_eq_true heq]
        exact ⟨c, rfl, Option.some.inj ht ▸ hlive⟩
      · rw [decide_eq_false (hname ▸ heq)] at ht
        rw [decide_eq_false heq]
        exact ih ht

/-! ### Forwards -/

/-- What the entries of a config declare for a port. -/
def declared (fwds : List CfgForward) (proto : Proto) (port : UInt16) : Option ForwardTarget :=
  (fwds.find? fun f => f.proto = proto ∧ f.port = port).map fun f => (forwardOf f).toTarget

theorem declared_append (fwds : List CfgForward) (f : CfgForward)
    (hfree : declared fwds f.proto f.port = none) (proto : Proto) (port : UInt16) :
  declared (fwds ++ [f]) proto port
    = if proto = f.proto ∧ port = f.port then some (forwardOf f).toTarget
      else declared fwds proto port
  := by
  rw [declared, List.find?_append]
  split
  · rename_i heq
    obtain ⟨rfl, rfl⟩ := heq
    rw [Option.map_eq_none_iff.mp hfree, Option.none_or, List.find?_singleton, if_pos (by simp)]
    rfl
  · rename_i hne
    rw [List.find?_singleton, if_neg, Option.or_none]
    · rfl
    · intro h
      obtain ⟨rfl, rfl⟩ := of_decide_eq_true h
      exact hne ⟨rfl, rfl⟩

theorem declared_filter (fwds : List CfgForward) (proto proto' : Proto) (port port' : UInt16) :
  declared (fwds.filter fun f => ¬ (f.proto = proto' ∧ f.port = port')) proto port
    = if proto = proto' ∧ port = port' then none else declared fwds proto port
  := by
  rw [declared, List.find?_filter]
  split
  · rename_i heq
    obtain ⟨rfl, rfl⟩ := heq
    rw [List.find?_eq_none.mpr, Option.map_none]
    intro f _ h
    rw [decide_eq_true_iff, decide_eq_true_iff, decide_eq_true_iff] at h
    exact h.1 h.2
  · rename_i hne
    rw [declared]
    congr 2
    funext f
    apply Bool.eq_iff_iff.mpr
    rw [decide_eq_true_iff, decide_eq_true_iff, decide_eq_true_iff]
    constructor
    · exact fun h => h.2
    · intro h
      refine ⟨?_, h⟩
      rintro ⟨hproto, hport⟩
      exact hne ⟨h.1.symm.trans hproto, h.2.symm.trans hport⟩

theorem declared_updateFirst (fwds : List CfgForward) (proto proto' : Proto) (port port' : UInt16)
    {edit : CfgForward → CfgForward}
    (hedit : ∀ f, (edit f).proto = f.proto ∧ (edit f).port = f.port) :
  declared (ControlState.updateFirst (fun f => f.proto = proto' ∧ f.port = port') edit fwds) proto
      port
    = if proto = proto' ∧ port = port' then
        (fwds.find? fun f => f.proto = proto' ∧ f.port = port').map
          fun f => (forwardOf (edit f)).toTarget
      else declared fwds proto port
  := by
  induction fwds with
  | nil =>
      split <;> rfl
  | cons f fwds ih =>
      rw [declared] at ih
      rw [ControlState.updateFirst, declared, declared, List.find?_cons]
      by_cases hkey : f.proto = proto' ∧ f.port = port'
      · rw [if_pos (decide_eq_true hkey), decide_eq_true hkey, List.find?_cons, (hedit f).1,
          (hedit f).2, List.find?_cons]
        by_cases hsame : proto = proto' ∧ port = port'
        · obtain ⟨rfl, rfl⟩ := hsame
          rw [if_pos ⟨rfl, rfl⟩, decide_eq_true hkey]
          rfl
        · have hother : ¬ (f.proto = proto ∧ f.port = port) := by
            rintro ⟨rfl, rfl⟩
            exact hsame hkey
          rw [if_neg hsame, decide_eq_false hother]
      · rw [if_neg (by simpa using hkey), decide_eq_false hkey, List.find?_cons, List.find?_cons]
        by_cases hself : f.proto = proto ∧ f.port = port
        · have hsame : ¬ (proto = proto' ∧ port = port') := by
            rintro ⟨rfl, rfl⟩
            exact hkey hself
          rw [decide_eq_true hself, if_neg hsame]
        · rw [decide_eq_false hself]
          exact ih

/-! ### Slots -/

section Slots

variable {peer : CfgPeer} {allow : List (Bytes 32)} {tun : Option CfgTun}
  {specs : List PeerSlotSpec} {spec : PeerSlotSpec}

theorem allowIdentities_eq_ok :
  CfgPeer.allowIdentities peer = .ok allow
    ↔ decodeAllow peer.allow = .ok allow ∧ (peer.exit ∨ peer.segment.isSome → allow ≠ [])
  := by
  rw [CfgPeer.allowIdentities]
  constructor
  · intro h
    obtain ⟨allow', hdecode, h⟩ := Config.ok_of_bind h
    split at h
    · exact absurd h (by simp)
    · rename_i hempty
      obtain rfl := Except.ok.inj h
      exact ⟨hdecode, fun hprovides hnil => hempty ⟨hprovides, hnil⟩⟩
  · rintro ⟨hdecode, hempty⟩
    rw [hdecode]
    change ite _ _ _ = _
    rw [if_neg]
    rintro ⟨hprovides, hnil⟩
    exact hempty hprovides hnil

theorem peerSlots_eq_ok :
  peerSlots tun (some peer) = .ok specs
    ↔ ∃ allow exits segments, CfgPeer.allowIdentities peer = .ok allow
      ∧ exitSlots peer allow = .ok exits ∧ segmentSlots peer allow = .ok segments
      ∧ specs = consumerSlots tun ++ exits ++ segments
  := by
  unfold peerSlots
  dsimp only
  constructor
  · intro h
    obtain ⟨allow, hallow, h⟩ := Config.ok_of_bind h
    obtain ⟨exits, hexits, h⟩ := Config.ok_of_bind h
    obtain ⟨segments, hsegments, h⟩ := Config.ok_of_bind h
    exact ⟨allow, exits, segments, hallow, hexits, hsegments, (Except.ok.inj h).symm⟩
  · rintro ⟨allow, exits, segments, hallow, hexits, hsegments, rfl⟩
    rw [hallow]
    change exitSlots peer allow >>= _ = _
    rw [hexits]
    change segmentSlots peer allow >>= _ = _
    rw [hsegments]
    rfl

theorem exitSlots_of_not_exit (h : peer.exit = false) :
  exitSlots peer allow = .ok []
  := by
  rw [exitSlots, h]
  rfl

theorem segmentSlots_of_none (h : peer.segment = none) :
  segmentSlots peer allow = .ok []
  := by
  rw [segmentSlots, h]

/-- A provider of an exit that is declared. -/
theorem exitSlots_eq_ok (hexit : peer.exit = true) {exits : List PeerSlotSpec}
    (h : exitSlots peer allow = .ok exits) :
  exits = [.provider providesExit
    (some (.exit ⟨defaultPeerExitName, defaultTapMtu, peer.exitIface⟩)) allow]
  := by
  rw [exitSlots, hexit, if_pos rfl] at h
  split at h
  · exact absurd h (by simp)
  · exact (Except.ok.inj h).symm

/-- A provider of a segment that is declared. -/
theorem segmentSlots_eq_ok {bridge : String} (hsegment : peer.segment = some bridge)
    {segments : List PeerSlotSpec} (h : segmentSlots peer allow = .ok segments) :
  segments = [.provider providesSegment
    (some (.segment ⟨defaultPeerSegmentName, defaultTapMtu, bridge⟩)) allow]
  := by
  rw [segmentSlots, hsegment] at h
  dsimp only at h
  split at h
  · exact absurd h (by simp)
  · exact (Except.ok.inj h).symm

/-- The forms of the records of an attach. -/
theorem attachRecords_eq_ok {s : ControlState} {peerId dev iface : String} {want : UInt8}
    {exit exitStrict : Bool} {peer : Option CfgPeer}
    (h : s.attachRecords peerId want dev exit exitStrict iface = .ok (tun, peer)) :
  (peerId ≠ "" ∧ tun = some ⟨ControlState.optional dev, none, exit, exitStrict, some peerId⟩
      ∧ peer = none)
    ∨ peerId = "" ∧ tun = none
      ∧ (want = providesExit
          ∧ peer = some ⟨true, ControlState.optional iface, none, s.savedAllow⟩
        ∨ want = providesSegment ∧ peer = some ⟨false, none, some iface, s.savedAllow⟩)
  := by
  rw [ControlState.attachRecords] at h
  split at h
  · rename_i hpeer
    obtain ⟨rfl, rfl⟩ := Prod.mk.inj (Except.ok.inj h)
    exact Or.inl ⟨hpeer, rfl, rfl⟩
  · rename_i hpeer
    rw [not_not] at hpeer
    right
    split at h
    · rename_i hwant
      obtain ⟨rfl, rfl⟩ := Prod.mk.inj (Except.ok.inj h)
      exact ⟨hpeer, rfl, Or.inl ⟨hwant, rfl⟩⟩
    · split at h
      · rename_i hwant
        obtain ⟨rfl, rfl⟩ := Prod.mk.inj (Except.ok.inj h)
        exact ⟨hpeer, rfl, Or.inr ⟨hwant, rfl⟩⟩
      · exact absurd h (by simp)

theorem consumerSlots_some (tun : CfgTun) {peerId : String} (h : tun.exitVia = some peerId) :
  consumerSlots (some tun) = [.consumer peerId providesExit
    (some (.exit ⟨tun.dev.getD defaultTunName, defaultTapMtu, tun.exit, tun.exitStrict⟩))]
  := by
  rw [consumerSlots, h]

/-- The slots of a tun table are consumers. -/
theorem consumerSlots_cases (tun : Option CfgTun) :
  consumerSlots tun = []
    ∨ ∃ t peerId, tun = some t ∧ t.exitVia = some peerId ∧ consumerSlots tun
        = [.consumer peerId providesExit
          (some (.exit ⟨t.dev.getD defaultTunName, defaultTapMtu, t.exit, t.exitStrict⟩))]
  := by
  cases tun with
  | none => exact Or.inl rfl
  | some t =>
      cases hvia : t.exitVia with
      | none =>
          left
          rw [consumerSlots, hvia]
      | some peerId => exact Or.inr ⟨t, peerId, rfl, hvia, consumerSlots_some t hvia⟩

/-- Where a consumer is free to come, there is none. -/
theorem consumerSlots_eq_nil_of_free (hkey : spec.consumerKey ≠ none)
    (h : ∀ held ∈ consumerSlots tun, ¬ ActiveTarget.occupies held spec) :
  consumerSlots tun = []
  := by
  rcases consumerSlots_cases tun with hnil | ⟨t, peerId, -, -, hslots⟩
  · exact hnil
  · obtain ⟨key, hkey⟩ := Option.ne_none_iff_exists'.mp hkey
    rw [hslots] at h
    refine absurd ?_ (h _ List.mem_cons_self)
    rw [ActiveTarget.occupies, hkey]
    rfl

/-- A consumer is added. -/
theorem peerSlots_setTun {peer : Option CfgPeer} (hspecs : peerSlots tun peer = .ok specs)
    {t : CfgTun} (hone : consumerSlots (some t) = [spec]) (hkey : spec.consumerKey ≠ none)
    (hfree : ∀ held ∈ specs, ¬ ActiveTarget.occupies held spec) :
  ∃ specs', peerSlots (some t) peer = .ok specs' ∧ (specs ++ [spec]).Perm specs'
  := by
  cases peer with
  | none =>
      obtain rfl := Except.ok.inj hspecs
      rw [consumerSlots_eq_nil_of_free hkey hfree]
      exact ⟨_, rfl, hone ▸ List.Perm.refl _⟩
  | some saved =>
      obtain ⟨allow, exits, segments, hallow, hexits, hsegments, rfl⟩ := peerSlots_eq_ok.mp hspecs
      have hnil : consumerSlots tun = [] := by
        apply consumerSlots_eq_nil_of_free hkey
        intro held hheld
        exact hfree held (List.mem_append_left _ (List.mem_append_left _ hheld))
      refine ⟨consumerSlots (some t) ++ exits ++ segments,
        peerSlots_eq_ok.mpr ⟨allow, exits, segments, hallow, hexits, hsegments, rfl⟩, ?_⟩
      rw [hnil, hone, List.nil_append, List.append_assoc [spec]]
      exact List.perm_append_comm

/-- A provider of an exit is added. -/
theorem peerSlots_addExit {saved : CfgPeer} (hspecs : peerSlots tun (some saved) = .ok specs)
    {iface : Option String}
    (hslots : peerSlots none (some ⟨true, iface, none, saved.allow⟩) = .ok [spec])
    (hfree : ∀ held ∈ specs, ¬ ActiveTarget.occupies held spec) :
  ∃ specs', peerSlots tun (some { saved with exit := true, exitIface := iface }) = .ok specs'
    ∧ (specs ++ [spec]).Perm specs'
  := by
  obtain ⟨allow, exits, segments, hallow, hexits, hsegments, rfl⟩ := peerSlots_eq_ok.mp hspecs
  obtain ⟨allow', exits', segments', hallow', hexits', hsegments', hspec⟩ :=
    peerSlots_eq_ok.mp hslots
  obtain ⟨hdecode, -⟩ := allowIdentities_eq_ok.mp hallow
  obtain ⟨hdecode', hempty⟩ := allowIdentities_eq_ok.mp hallow'
  obtain rfl := Except.ok.inj (hdecode'.symm.trans hdecode)
  obtain rfl := Except.ok.inj ((segmentSlots_of_none rfl).symm.trans hsegments')
  have hexit := exitSlots_eq_ok rfl hexits'
  have hone : exits' = [spec] := by
    rw [hspec, List.append_nil]
    rfl
  have hoff : saved.exit = false := by
    by_contra hon
    rw [Bool.not_eq_false] at hon
    rw [exitSlots_eq_ok hon hexits] at hfree
    refine absurd ?_ (hfree _ (List.mem_append_left _ (List.mem_append_right _
      List.mem_cons_self)))
    rw [List.singleton_inj.mp (hone.symm.trans hexit)]
    rfl
  obtain rfl := Except.ok.inj ((exitSlots_of_not_exit hoff).symm.trans hexits)
  refine ⟨consumerSlots tun ++ exits' ++ segments, ?_, ?_⟩
  · refine peerSlots_eq_ok.mpr ⟨allow', exits', segments, ?_, hexits', hsegments, rfl⟩
    exact allowIdentities_eq_ok.mpr ⟨hdecode', fun _ => hempty (Or.inl rfl)⟩
  · rw [hone, List.append_nil, List.append_assoc, List.append_assoc]
    exact (List.perm_append_comm).append_left _

/-- A provider of a segment is added. -/
theorem peerSlots_addSegment {saved : CfgPeer} (hspecs : peerSlots tun (some saved) = .ok specs)
    {bridge : String}
    (hslots : peerSlots none (some ⟨false, none, some bridge, saved.allow⟩) = .ok [spec])
    (hfree : ∀ held ∈ specs, ¬ ActiveTarget.occupies held spec) :
  ∃ specs', peerSlots tun (some { saved with segment := some bridge }) = .ok specs'
    ∧ (specs ++ [spec]).Perm specs'
  := by
  obtain ⟨allow, exits, segments, hallow, hexits, hsegments, rfl⟩ := peerSlots_eq_ok.mp hspecs
  obtain ⟨allow', exits', segments', hallow', hexits', hsegments', hspec⟩ :=
    peerSlots_eq_ok.mp hslots
  obtain ⟨hdecode, -⟩ := allowIdentities_eq_ok.mp hallow
  obtain ⟨hdecode', hempty⟩ := allowIdentities_eq_ok.mp hallow'
  obtain rfl := Except.ok.inj (hdecode'.symm.trans hdecode)
  obtain rfl := Except.ok.inj ((exitSlots_of_not_exit rfl).symm.trans hexits')
  have hsegment := segmentSlots_eq_ok rfl hsegments'
  have hone : segments' = [spec] := by
    rw [hspec]
    rfl
  have hoff : saved.segment = none := by
    by_contra hon
    obtain ⟨bridge', hbridge⟩ := Option.ne_none_iff_exists'.mp hon
    rw [segmentSlots_eq_ok hbridge hsegments] at hfree
    refine absurd ?_ (hfree _ (List.mem_append_right _ List.mem_cons_self))
    rw [List.singleton_inj.mp (hone.symm.trans hsegment)]
    rfl
  obtain rfl := Except.ok.inj ((segmentSlots_of_none hoff).symm.trans hsegments)
  refine ⟨consumerSlots tun ++ exits ++ segments', ?_, ?_⟩
  · refine peerSlots_eq_ok.mpr ⟨allow', exits, segments', ?_, hexits, hsegments', rfl⟩
    exact allowIdentities_eq_ok.mpr ⟨hdecode', fun _ => hempty (Or.inr rfl)⟩
  · rw [hone, List.append_nil]

/-- A provider takes the allowlist that is saved, so that there is a table with one. -/
theorem saved_of_provider {s : ControlState} {cfg : ClientConfig}
    (hpersist : s.persist = some cfg) {record : CfgPeer} (hrecord : record.allow = s.savedAllow)
    (hprovides : record.exit ∨ record.segment.isSome)
    (hslots : peerSlots none (some record) = .ok [spec]) :
  ∃ saved, cfg.peer = some saved ∧ s.savedAllow = saved.allow
  := by
  cases hpeer : cfg.peer with
  | some saved =>
      refine ⟨saved, rfl, ?_⟩
      rw [ControlState.savedAllow, hpersist]
      dsimp only
      rw [hpeer]
  | none =>
      have hallow : s.savedAllow = [] := by
        rw [ControlState.savedAllow, hpersist]
        dsimp only
        rw [hpeer]
      obtain ⟨allow, -, -, hidentities, -⟩ := peerSlots_eq_ok.mp hslots
      obtain ⟨hdecode, hempty⟩ := allowIdentities_eq_ok.mp hidentities
      rw [hrecord, hallow] at hdecode
      exact absurd (Except.ok.inj hdecode).symm (hempty hprovides)

/-- What an attach saves declares the slots there were and the one that is attached. -/
theorem peerSlots_saveRecords {s : ControlState} {cfg : ClientConfig}
    (hpersist : s.persist = some cfg) (hspecs : peerSlots cfg.tun cfg.peer = .ok specs)
    {peerId dev iface : String} {want : UInt8} {exit exitStrict : Bool} {peer : Option CfgPeer}
    (hrecords : s.attachRecords peerId want dev exit exitStrict iface = .ok (tun, peer))
    (hslots : peerSlots tun peer = .ok [spec])
    (hfree : ∀ held ∈ specs, ¬ ActiveTarget.occupies held spec) :
  ∃ specs', peerSlots (ControlState.saveRecords tun peer cfg).tun
      (ControlState.saveRecords tun peer cfg).peer = .ok specs' ∧ (specs ++ [spec]).Perm specs'
  := by
  rcases attachRecords_eq_ok hrecords with ⟨-, rfl, rfl⟩ | ⟨-, rfl, hprovider⟩
  · have hone := Except.ok.inj hslots
    have hkey : spec.consumerKey ≠ none := by
      rw [← List.singleton_inj.mp ((consumerSlots_some _ rfl).symm.trans hone)]
      simp [PeerSlotSpec.consumerKey]
    exact peerSlots_setTun hspecs hone hkey hfree
  · rcases hprovider with ⟨-, rfl⟩ | ⟨-, rfl⟩
    · obtain ⟨saved, hpeer, hallow⟩ := saved_of_provider hpersist rfl (Or.inl rfl) hslots
      rw [hallow] at hslots
      rw [hpeer] at hspecs
      rw [ControlState.saveRecords, hpeer]
      exact peerSlots_addExit hspecs hslots hfree
    · obtain ⟨saved, hpeer, hallow⟩ := saved_of_provider hpersist rfl (Or.inr rfl) hslots
      rw [hallow] at hslots
      rw [hpeer] at hspecs
      rw [ControlState.saveRecords, hpeer]
      exact peerSlots_addSegment hspecs hslots hfree

/-- A table that declares nothing may be left out. -/
theorem peerSlots_dropEmpty (tun : Option CfgTun) (peer : CfgPeer) :
  peerSlots tun (ControlState.dropEmpty peer) = peerSlots tun (some peer)
  := by
  rw [ControlState.dropEmpty]
  split
  · rename_i hempty
    subst hempty
    symm
    refine peerSlots_eq_ok.mpr ⟨[], [], [], rfl, rfl, rfl, ?_⟩
    rw [List.append_nil, List.append_nil]
  · rfl

/-- The slots of a tun table are not named without a peer. -/
theorem filter_consumerSlots (hvia : ∀ t ∈ tun, t.exitVia ≠ some "") (want : UInt8) :
  (consumerSlots tun).filter (fun spec => !spec.isNamedBy "" want) = consumerSlots tun
  := by
  rcases consumerSlots_cases tun with hnil | ⟨t, peerId, rfl, hpeerId, hslots⟩
  · rw [hnil]
    rfl
  · have hne : peerId ≠ "" := by
      rintro rfl
      exact hvia t rfl hpeerId
    rw [hslots, List.filter_singleton, PeerSlotSpec.isNamedBy]
    simp [hne]

theorem filter_exitSlots {exits : List PeerSlotSpec} (h : exitSlots peer allow = .ok exits)
    (peerId : String) (want : UInt8) :
  exits.filter (fun spec => !spec.isNamedBy peerId want)
    = if peerId = "" ∧ providesExit = want then [] else exits
  := by
  cases hexit : peer.exit with
  | false =>
      obtain rfl := Except.ok.inj ((exitSlots_of_not_exit hexit).symm.trans h)
      exact (ite_self _).symm
  | true =>
      rw [exitSlots_eq_ok hexit h, List.filter_singleton, PeerSlotSpec.isNamedBy]
      split
      · rename_i hnamed
        simp [hnamed]
      · rename_i hnamed
        rw [decide_eq_false hnamed]
        rfl

theorem filter_segmentSlots {segments : List PeerSlotSpec}
    (h : segmentSlots peer allow = .ok segments) (peerId : String) (want : UInt8) :
  segments.filter (fun spec => !spec.isNamedBy peerId want)
    = if peerId = "" ∧ providesSegment = want then [] else segments
  := by
  cases hsegment : peer.segment with
  | none =>
      obtain rfl := Except.ok.inj ((segmentSlots_of_none hsegment).symm.trans h)
      exact (ite_self _).symm
  | some bridge =>
      rw [segmentSlots_eq_ok hsegment h, List.filter_singleton, PeerSlotSpec.isNamedBy]
      split
      · rename_i hnamed
        simp [hnamed]
      · rename_i hnamed
        rw [decide_eq_false hnamed]
        rfl

/-- A provider is removed. -/
theorem peerSlots_clearPeer (hvia : ∀ t ∈ tun, t.exitVia ≠ some "") {want : UInt8}
    (hwant : want = providesExit ∨ want = providesSegment)
    (hspecs : peerSlots tun (some peer) = .ok specs) :
  peerSlots tun (ControlState.dropEmpty (ControlState.clearPeer want peer))
    = .ok (specs.filter fun spec => !spec.isNamedBy "" want)
  := by
  obtain ⟨allow, exits, segments, hallow, hexits, hsegments, rfl⟩ := peerSlots_eq_ok.mp hspecs
  obtain ⟨hdecode, hempty⟩ := allowIdentities_eq_ok.mp hallow
  rw [peerSlots_dropEmpty, List.filter_append, List.filter_append, filter_consumerSlots hvia,
    filter_exitSlots hexits, filter_segmentSlots hsegments]
  rcases hwant with rfl | rfl
  · rw [if_pos ⟨rfl, rfl⟩, if_neg (by decide)]
    refine peerSlots_eq_ok.mpr ⟨allow, [], segments, ?_, rfl, hsegments, rfl⟩
    refine allowIdentities_eq_ok.mpr ⟨hdecode, ?_⟩
    rintro (hexit | hsegment)
    · exact absurd hexit (by simp [ControlState.clearPeer])
    · exact hempty (Or.inr hsegment)
  · rw [if_neg (by decide), if_pos ⟨rfl, rfl⟩]
    refine peerSlots_eq_ok.mpr ⟨allow, exits, [], ?_, hexits, rfl, rfl⟩
    refine allowIdentities_eq_ok.mpr ⟨hdecode, ?_⟩
    rintro (hexit | hsegment)
    · exact hempty (Or.inl hexit)
    · exact absurd hsegment
        (by simp [ControlState.clearPeer, show providesSegment ≠ providesExit by decide])

/-- Whoever is named with a peer is a consumer. -/
theorem exists_consumer_of_named {peer : Option CfgPeer} (hspecs : peerSlots tun peer = .ok specs)
    {peerId : String} {want : UInt8} (hpeerId : peerId ≠ "")
    (hnamed : ∃ spec ∈ specs, spec.isNamedBy peerId want) :
  ∃ spec ∈ consumerSlots tun, spec.isNamedBy peerId want
  := by
  cases peer with
  | none =>
      obtain rfl := Except.ok.inj hspecs
      exact hnamed
  | some saved =>
      obtain ⟨allow, exits, segments, -, hexits, hsegments, rfl⟩ := peerSlots_eq_ok.mp hspecs
      have hexit := filter_exitSlots hexits peerId want
      have hsegment := filter_segmentSlots hsegments peerId want
      rw [if_neg fun h => hpeerId h.1] at hexit hsegment
      obtain ⟨spec, hspec, hspecNamed⟩ := hnamed
      rcases List.mem_append.mp hspec with hspec | hspec
      · rcases List.mem_append.mp hspec with hspec | hspec
        · exact ⟨spec, hspec, hspecNamed⟩
        · rw [← hexit] at hspec
          exact absurd (List.mem_filter.mp hspec).2 (by simp [hspecNamed])
      · rw [← hsegment] at hspec
        exact absurd (List.mem_filter.mp hspec).2 (by simp [hspecNamed])

/-- A consumer is removed. -/
theorem peerSlots_clearTun {peer : Option CfgPeer} (hspecs : peerSlots tun peer = .ok specs)
    {peerId : String} {want : UInt8} (hpeerId : peerId ≠ "")
    (hnamed : ∃ spec ∈ consumerSlots tun, spec.isNamedBy peerId want) :
  peerSlots none peer = .ok (specs.filter fun spec => !spec.isNamedBy peerId want)
  := by
  have hconsumer : (consumerSlots tun).filter (fun spec => !spec.isNamedBy peerId want) = [] := by
    rcases consumerSlots_cases tun with hnil | ⟨t, peerId', -, -, hslots⟩
    · rw [hnil]
      rfl
    · rw [hslots] at hnamed ⊢
      obtain ⟨spec, hspec, hspecNamed⟩ := hnamed
      obtain rfl := List.mem_singleton.mp hspec
      rw [List.filter_singleton, hspecNamed]
      rfl
  cases peer with
  | none =>
      obtain rfl := Except.ok.inj hspecs
      rw [hconsumer]
      rfl
  | some saved =>
      obtain ⟨allow, exits, segments, hallow, hexits, hsegments, rfl⟩ := peerSlots_eq_ok.mp hspecs
      have hexit := filter_exitSlots hexits peerId want
      have hsegment := filter_segmentSlots hsegments peerId want
      rw [if_neg fun h => hpeerId h.1] at hexit hsegment
      rw [List.filter_append, List.filter_append, hconsumer, hexit, hsegment]
      exact peerSlots_eq_ok.mpr ⟨allow, exits, segments, hallow, hexits, hsegments, rfl⟩

end Slots

/-! ### What is kept -/

/-- What a client runs is what a boot from the config would give it, up to the body of the session
and the order of the slots. -/
structure Mirrors (files : Files) (s : ControlState) (cfg : ClientConfig) : Prop where
  config : s.persist = some cfg
  servers : List.Forall₂ Live cfg.servers s.servers
  target : ∃ srv, activeServer cfg = some srv ∧ Live srv s.active.target
  forwards : ∀ proto port, s.forwards.get proto port = declared cfg.forwards proto port
  slots : ∃ specs, peerSlots cfg.tun cfg.peer = .ok specs
    ∧ (s.active.peers.map PeerSlot.spec).Perm specs
  sessions : sessionsOf files cfg = .ok s.pppoe
  fallback : fallbackOf (autostartOf cfg) s.pppoe (serverTunOf cfg) (cfg.tap.map tapOf)
    = .ok s.fallbackMode
  peerSecret : s.hasPeerSecret = cfg.peerSecret.isSome

/-- What the config of a running client meets in any case. -/
structure Regular (cfg : ClientConfig) : Prop where
  names : (cfg.servers.map CfgServer.name).Nodup
  via : ∀ tun ∈ cfg.tun, tun.exitVia ≠ some ""
  devices : serverTun cfg = true → cfg.pppoe = []

/-- The running client and its config are in order. -/
structure InStep (files : Files) (s : ControlState) (cfg : ClientConfig) : Prop where
  mirrors : Mirrors files s cfg
  regular : Regular cfg
  orderly : s.active.Orderly

namespace InStep

variable {files : Files} {s : ControlState} {cfg : ClientConfig} {active : ActiveTarget}

/-- The body changes, and nothing else that is compared. -/
theorem setActive (h : InStep files s cfg) (htarget : active.target = s.active.target)
    (hpeers : active.peers = s.active.peers) (horderly : active.Orderly) :
  InStep files { s with active := active } cfg
  := by
  obtain ⟨⟨hconfig, hservers, htargets, hforwards, hslots, hsessions, hfallback, hpeerSecret⟩,
    hregular, -⟩ := h
  exact ⟨⟨hconfig, hservers, htarget ▸ htargets, hforwards, hpeers ▸ hslots, hsessions, hfallback,
    hpeerSecret⟩, hregular, horderly⟩

/-- A profile of the client is made the active one. -/
theorem retarget (h : InStep files s cfg) {name : String} {target : ServerTarget}
    (hget : SharedServers.get s.servers name = some target) (htarget : active.target = target)
    (hpeers : active.peers = s.active.peers) (horderly : active.Orderly) :
  InStep files (({ s with active := active } : ControlState).config fun cfg =>
    { cfg with active := some name }) { cfg with active := some name }
  := by
  obtain ⟨srv, hfind, hlive⟩ := find?_live h.mirrors.servers hget
  refine ⟨⟨?_, h.mirrors.servers, ⟨srv, hfind, htarget ▸ hlive⟩, h.mirrors.forwards,
    hpeers ▸ h.mirrors.slots, h.mirrors.sessions, h.mirrors.fallback, h.mirrors.peerSecret⟩,
    ⟨h.regular.names, h.regular.via, h.regular.devices⟩, horderly⟩
  rw [ControlState.config, h.mirrors.config]
  rfl

/-- The forwards change. -/
theorem setForwards (h : InStep files s cfg) {forwards : SharedForwards}
    (edit : List CfgForward → List CfgForward)
    (hforwards : ∀ proto port, forwards.get proto port = declared (edit cfg.forwards) proto port) :
  InStep files (({ s with forwards := forwards } : ControlState).config fun cfg =>
    { cfg with forwards := edit cfg.forwards }) { cfg with forwards := edit cfg.forwards }
  := by
  refine ⟨⟨?_, h.mirrors.servers, h.mirrors.target, hforwards, h.mirrors.slots, h.mirrors.sessions,
    h.mirrors.fallback, h.mirrors.peerSecret⟩, ⟨h.regular.names, h.regular.via, h.regular.devices⟩,
    h.orderly⟩
  rw [ControlState.config, h.mirrors.config]
  rfl

theorem setForwardOptions (h : InStep files s cfg) {proto : Proto} {port : UInt16}
    {enabled proxy : Bool} {idleSecs : UInt32} {forwards : SharedForwards}
    (hset : s.forwards.setOptions proto port enabled proxy
      ((ControlState.idleOf idleSecs).map UInt32.toNat) = some forwards)
    (proto' : Proto) (port' : UInt16) :
  forwards.get proto' port'
    = declared (ControlState.updateFirst (fun f => f.proto = proto ∧ f.port = port)
        (fun f => { f with
          enabled := enabled, proxy := proxy, idle := ControlState.idleOf idleSecs })
        cfg.forwards) proto' port'
  := by
  have hlookup := h.mirrors.forwards proto port
  rw [SharedForwards.get] at hlookup
  rw [SharedForwards.setOptions] at hset
  split at hset
  · rename_i f hf
    obtain rfl := Option.some.inj hset
    rw [SharedForwards.get_setMap, declared_updateFirst]
    · by_cases hproto : proto' = proto
      · subst hproto
        rw [if_pos rfl, Table.lookup_insert_eq]
        by_cases hport : port' = port
        · subst hport
          rw [if_pos rfl, if_pos ⟨rfl, rfl⟩]
          rw [hf, declared] at hlookup
          obtain ⟨c, hc, hcf⟩ := Option.map_eq_some_iff.mp hlookup.symm
          rw [hc, Option.map_some, ← hcf]
          rfl
        · rw [if_neg hport, if_neg fun h => hport h.2]
          exact h.mirrors.forwards proto' port'
      · rw [if_neg hproto, if_neg fun h => hproto h.1]
        exact h.mirrors.forwards proto' port'
    · exact fun f => ⟨rfl, rfl⟩
  · exact absurd hset (by simp)

theorem addForward (h : InStep files s cfg) {f : CfgForward} {forwards : SharedForwards}
    (hadd : s.forwards.add f.proto (forwardOf f) = some forwards) (proto : Proto) (port : UInt16) :
  forwards.get proto port = declared (cfg.forwards ++ [f]) proto port
  := by
  have hlookup := h.mirrors.forwards f.proto f.port
  rw [SharedForwards.get] at hlookup
  rw [SharedForwards.add] at hadd
  split at hadd
  · exact absurd hadd (by simp)
  · rename_i hnone
    obtain rfl := Option.some.inj hadd
    rw [declared_append _ _ (hlookup.symm.trans hnone), SharedForwards.get_setMap]
    by_cases hproto : proto = f.proto
    · subst hproto
      rw [if_pos rfl, Table.lookup_insert_eq, show (forwardOf f).port = f.port from rfl]
      by_cases hport : port = f.port
      · rw [if_pos hport, if_pos ⟨rfl, hport⟩]
      · rw [if_neg hport, if_neg fun h => hport h.2]
        exact h.mirrors.forwards f.proto port
    · rw [if_neg hproto, if_neg fun h => hproto h.1]
      exact h.mirrors.forwards proto port

theorem removeForward (h : InStep files s cfg) {proto : Proto} {port : UInt16}
    {forwards : SharedForwards} (hremove : s.forwards.remove proto port = some forwards)
    (proto' : Proto) (port' : UInt16) :
  forwards.get proto' port'
    = declared (cfg.forwards.filter fun f => ¬ (f.proto = proto ∧ f.port = port)) proto' port'
  := by
  rw [SharedForwards.remove] at hremove
  split at hremove
  · obtain rfl := Option.some.inj hremove
    rw [declared_filter, SharedForwards.get_setMap]
    by_cases hproto : proto' = proto
    · subst hproto
      rw [if_pos rfl, Table.lookup_erase_eq]
      by_cases hport : port' = port
      · rw [if_pos hport, if_pos ⟨rfl, hport⟩]
      · rw [if_neg hport, if_neg fun h => hport h.2]
        exact h.mirrors.forwards proto' port'
    · rw [if_neg hproto, if_neg fun h => hproto h.1]
      exact h.mirrors.forwards proto' port'
  · exact absurd hremove (by simp)

/-- A server that the config has not is added. -/
theorem addServer (h : InStep files s cfg) {c : CfgServer} {t : ServerTarget} (hlive : Live c t)
    {servers : SharedServers} (hadd : SharedServers.add s.servers t = some servers) :
  InStep files (({ s with servers := servers } : ControlState).config fun cfg =>
    { cfg with servers := cfg.servers ++ [c] }) { cfg with servers := cfg.servers ++ [c] }
  := by
  rw [SharedServers.add] at hadd
  split at hadd
  · exact absurd hadd (by simp)
  · rename_i hnew
    obtain rfl := Option.some.inj hadd
    obtain ⟨srv, hsrv, htarget⟩ := h.mirrors.target
    refine ⟨⟨?_, ?_, ⟨srv, ?_, htarget⟩, h.mirrors.forwards, h.mirrors.slots, h.mirrors.sessions,
      h.mirrors.fallback, h.mirrors.peerSecret⟩, ⟨?_, h.regular.via, h.regular.devices⟩,
      h.orderly⟩
    · rw [ControlState.config, h.mirrors.config]
      rfl
    · exact List.rel_append h.mirrors.servers (List.Forall₂.cons hlive List.Forall₂.nil)
    · rw [activeServer] at hsrv ⊢
      dsimp only
      cases hactive : cfg.active with
      | some name =>
          rw [hactive] at hsrv
          dsimp only at hsrv ⊢
          rw [List.find?_append, hsrv, Option.some_or]
      | none =>
          rw [hactive] at hsrv
          dsimp only at hsrv ⊢
          rw [List.head?_append, hsrv, Option.some_or]
    · have hnames := names_live h.mirrors.servers
      rw [List.map_append, List.map_singleton, List.nodup_append]
      refine ⟨h.regular.names, List.nodup_singleton _, ?_⟩
      rintro name hname name' hname' rfl
      rw [← hnames] at hname
      obtain ⟨t', ht', hname⟩ := List.mem_map.mp hname
      apply hnew
      rw [List.any_eq_true]
      refine ⟨t', ht', decide_eq_true ?_⟩
      rw [hname, List.mem_singleton.mp hname', (live_iff.mp hlive).1]

/-- A server that is not the active one is removed. -/
theorem removeServer (h : InStep files s cfg) {name : String}
    (hactive : s.active.target.name ≠ name) {servers : SharedServers}
    (hremove : SharedServers.remove s.servers name = some servers) :
  InStep files (({ s with servers := servers } : ControlState).config fun cfg =>
      { cfg with servers := cfg.servers.filter fun s => s.name ≠ name })
    { cfg with servers := cfg.servers.filter fun s => s.name ≠ name }
  := by
  rw [SharedServers.remove] at hremove
  split at hremove
  · exact absurd hremove (by simp)
  · obtain rfl := Option.some.inj hremove
    obtain ⟨srv, hsrv, htarget⟩ := h.mirrors.target
    have hname : srv.name ≠ name := (live_iff.mp htarget).1 ▸ hactive
    refine ⟨⟨?_, ?_, ⟨srv, ?_, htarget⟩, h.mirrors.forwards, h.mirrors.slots, h.mirrors.sessions,
      h.mirrors.fallback, h.mirrors.peerSecret⟩, ⟨?_, h.regular.via, h.regular.devices⟩,
      h.orderly⟩
    · rw [ControlState.config, h.mirrors.config]
      rfl
    · refine List.rel_filter ?_ h.mirrors.servers
      intro c t hlive
      change decide (c.name ≠ name) = true ↔ decide (t.name ≠ name) = true
      rw [(live_iff.mp hlive).1]
    · rw [activeServer] at hsrv ⊢
      dsimp only
      cases hcfg : cfg.active with
      | some name' =>
          rw [hcfg] at hsrv
          dsimp only at hsrv ⊢
          have hname' : srv.name = name' := by
            have hfound := List.find?_some hsrv
            exact of_decide_eq_true hfound
          rw [List.find?_filter, ← hsrv]
          congr 1
          funext c
          apply Bool.eq_iff_iff.mpr
          rw [decide_eq_true_iff, decide_eq_true_iff, decide_eq_true_iff]
          constructor
          · exact fun h => h.2
          · intro hc
            refine ⟨?_, hc⟩
            rw [hc, ← hname']
            exact hname
      | none =>
          rw [hcfg] at hsrv
          dsimp only at hsrv ⊢
          obtain ⟨rest, hrest⟩ := List.head?_eq_some_iff.mp hsrv
          rw [hrest, List.filter_cons, if_pos (by simpa using hname), List.head?_cons]
    · exact h.regular.names.sublist (List.filter_sublist.map _)

/-- A tun that feeds a consumer does not feed the server slot. -/
theorem serverTunOf_eq_none {peerId : String} {want : UInt8}
    (hnamed : ∃ spec ∈ consumerSlots cfg.tun, spec.isNamedBy peerId want) :
  serverTunOf cfg = none
  := by
  rcases consumerSlots_cases cfg.tun with hnil | ⟨t, peerId', ht, hvia, -⟩
  · obtain ⟨spec, hspec, -⟩ := hnamed
    rw [hnil] at hspec
    exact absurd hspec List.not_mem_nil
  · rw [serverTunOf, ht, Option.filter_some_neg]
    · rfl
    · simp [isPeer, hvia]

/-- What an attach saves leaves the server slot as it is. -/
theorem serverTunOf_saveRecords {tun : Option CfgTun} (peer : Option CfgPeer)
    (htun : ∀ t ∈ tun, isPeer t = true ∧ serverTun cfg = false) :
  serverTunOf (ControlState.saveRecords tun peer cfg) = serverTunOf cfg
    ∧ serverTun (ControlState.saveRecords tun peer cfg) = serverTun cfg
  := by
  have hkept : (ControlState.saveRecords none peer cfg).tun = cfg.tun := by
    cases peer <;> rfl
  cases tun with
  | none =>
      rw [serverTunOf, serverTun, hkept]
      exact ⟨rfl, rfl⟩
  | some t =>
      obtain ⟨hpeer, hserver⟩ := htun t rfl
      have hset : (ControlState.saveRecords (some t) peer cfg).tun = some t := by
        cases peer <;> rfl
      have hold : cfg.tun.filter (fun tun => !isPeer tun) = none := by
        rw [serverTun] at hserver
        cases hcfg : cfg.tun with
        | none => rfl
        | some t' =>
            rw [hcfg, Option.any_some] at hserver
            rw [Option.filter_some_neg]
            simpa using hserver
      rw [serverTunOf, serverTunOf, serverTun, hset, hold, hserver, Option.any_some, hpeer,
        Option.filter_some_neg (by simp [hpeer])]
      exact ⟨rfl, rfl⟩

/-- A fallback that is not the tun of the server slot is that of a config without one. -/
theorem serverTun_eq_false (h : InStep files s cfg)
    (hfallback : ControlState.isTun s.fallbackMode = false) :
  serverTun cfg = false
  := by
  by_contra hserver
  rw [Bool.not_eq_false] at hserver
  have hpppoe := h.regular.devices hserver
  have hautostart : autostartOf cfg = none := by
    rw [autostartOf, hpppoe]
    rfl
  obtain ⟨t, htun⟩ : ∃ t, serverTunOf cfg = some t := by
    rw [serverTun] at hserver
    cases hcfg : cfg.tun with
    | none =>
        rw [hcfg] at hserver
        exact absurd hserver (by simp)
    | some t =>
        rw [hcfg, Option.any_some] at hserver
        refine ⟨tunOf t, ?_⟩
        simp only [serverTunOf, hcfg, Option.filter, hserver, if_true, Option.map_some]
  have hmode := h.mirrors.fallback
  rw [hautostart, htun] at hmode
  rw [← Except.ok.inj hmode] at hfallback
  exact absurd hfallback (by simp [ControlState.isTun])

/-- A slot is attached. -/
theorem attachPeer (h : InStep files s cfg) {peerId dev iface : String} {want : UInt8}
    {exit exitStrict : Bool} {tun : Option CfgTun} {peer : Option CfgPeer} {spec : PeerSlotSpec}
    (htun : peerId ≠ "" → ControlState.isTun s.fallbackMode = false)
    (hrecords : s.attachRecords peerId want dev exit exitStrict iface = .ok (tun, peer))
    (hslots : peerSlots tun peer = .ok [spec])
    (hattach : s.active.attachPeer spec s.bootMode = .ok active) :
  InStep files
    (({ s with active := active } : ControlState).config (ControlState.saveRecords tun peer))
    (ControlState.saveRecords tun peer cfg)
  := by
  obtain ⟨specs, hspecs, hperm⟩ := h.mirrors.slots
  have horderly := h.orderly.attachPeer (single_of_peerSlots hslots spec List.mem_cons_self) hattach
  obtain ⟨hfree, -, -, -, rfl⟩ := (ActiveTarget.attachPeer_eq_ok _ _).mp hattach
  have hfree' : ∀ held ∈ specs, ¬ ActiveTarget.occupies held spec := by
    intro held hheld
    obtain ⟨slot, hslot, rfl⟩ := List.mem_map.mp (hperm.mem_iff.mpr hheld)
    exact hfree slot hslot
  obtain ⟨specs', hspecs', hperm'⟩ :=
    peerSlots_saveRecords h.mirrors.config hspecs hrecords hslots hfree'
  have hrecord : ∀ t ∈ tun, isPeer t = true ∧ serverTun cfg = false ∧ t.exitVia ≠ some "" := by
    rcases attachRecords_eq_ok hrecords with ⟨hpeerId, rfl, -⟩ | ⟨-, rfl, -⟩
    · intro t ht
      obtain rfl := Option.mem_some_iff.mp ht
      exact ⟨rfl, h.serverTun_eq_false (htun hpeerId), by simpa using hpeerId⟩
    · exact fun t ht => absurd ht (by simp)
  obtain ⟨hserverTun, hserver⟩ := serverTunOf_saveRecords peer
    fun t ht => ⟨(hrecord t ht).1, (hrecord t ht).2.1⟩
  -- the other tables stay
  have hkept : (ControlState.saveRecords tun peer cfg).servers = cfg.servers
      ∧ (ControlState.saveRecords tun peer cfg).active = cfg.active
      ∧ (ControlState.saveRecords tun peer cfg).forwards = cfg.forwards
      ∧ (ControlState.saveRecords tun peer cfg).pppoe = cfg.pppoe
      ∧ (ControlState.saveRecords tun peer cfg).tap = cfg.tap
      ∧ (ControlState.saveRecords tun peer cfg).peerSecret = cfg.peerSecret := by
    cases tun <;> cases peer <;> exact ⟨rfl, rfl, rfl, rfl, rfl, rfl⟩
  obtain ⟨hservers, hactive, hforwards, hpppoe, htap, hpeerSecret⟩ := hkept
  refine ⟨⟨?_, ?_, ?_, ?_, ⟨specs', hspecs', ?_⟩, ?_, ?_, ?_⟩, ⟨?_, ?_, ?_⟩, horderly⟩
  · rw [ControlState.config, h.mirrors.config]
    rfl
  · rw [hservers]
    exact h.mirrors.servers
  · rw [activeServer, hactive, hservers]
    exact h.mirrors.target
  · rw [hforwards]
    exact h.mirrors.forwards
  · refine List.Perm.trans ?_ hperm'
    change ((s.active.peers ++ [(⟨spec, s.active.cells⟩ : PeerSlot)]).map PeerSlot.spec).Perm _
    rw [List.map_append]
    exact hperm.append_right _
  · rw [sessionsOf, hpppoe]
    exact h.mirrors.sessions
  · rw [autostartOf, hpppoe, hserverTun, htap]
    exact h.mirrors.fallback
  · rw [hpeerSecret]
    exact h.mirrors.peerSecret
  · rw [hservers]
    exact h.regular.names
  · cases tun with
    | none =>
        have hsame : (ControlState.saveRecords none peer cfg).tun = cfg.tun := by
          cases peer <;> rfl
        rw [hsame]
        exact h.regular.via
    | some t =>
        have hset : (ControlState.saveRecords (some t) peer cfg).tun = some t := by
          cases peer <;> rfl
        rw [hset]
        intro t' ht'
        exact (hrecord t' ht').2.2
  · rw [hserver, hpppoe]
    exact h.regular.devices

/-- A slot is detached. -/
theorem detachPeer (h : InStep files s cfg) {peerId : String} {want : UInt8}
    (hwant : want = providesExit ∨ want = providesSegment)
    (hdetach : s.active.detachPeer peerId want = some active) :
  InStep files (({ s with active := active } : ControlState).config fun cfg =>
      if peerId = "" then
        { cfg with peer := cfg.peer.bind fun peer =>
            ControlState.dropEmpty (ControlState.clearPeer want peer) }
      else { cfg with tun := none })
    (if peerId = "" then
      { cfg with peer := cfg.peer.bind fun peer =>
          ControlState.dropEmpty (ControlState.clearPeer want peer) }
    else { cfg with tun := none })
  := by
  obtain ⟨specs, hspecs, hperm⟩ := h.mirrors.slots
  have horderly := h.orderly.detachPeer hdetach
  obtain ⟨rfl, slot, hslot, hnamed⟩ := ActiveTarget.detachPeer_eq_some hdetach
  have hmem : slot.spec ∈ specs := hperm.mem_iff.mp (List.mem_map_of_mem hslot)
  have hfiltered : ((s.active.peers.filter fun slot => !slot.spec.isNamedBy peerId want).map
      PeerSlot.spec).Perm (specs.filter fun spec => !spec.isNamedBy peerId want) := by
    have hfilter := hperm.filter fun spec => !spec.isNamedBy peerId want
    rw [List.filter_map] at hfilter
    exact hfilter
  split
  · rename_i hpeerId
    subst hpeerId
    refine ⟨⟨?_, h.mirrors.servers, h.mirrors.target, h.mirrors.forwards, ⟨_, ?_, hfiltered⟩,
      h.mirrors.sessions, h.mirrors.fallback, h.mirrors.peerSecret⟩,
      ⟨h.regular.names, h.regular.via, h.regular.devices⟩, horderly⟩
    · rw [ControlState.config, h.mirrors.config]
      rfl
    · cases hpeer : cfg.peer with
      | none =>
          -- No consumer is named without a peer.
          rw [hpeer] at hspecs
          obtain rfl := Except.ok.inj hspecs
          rw [← filter_consumerSlots h.regular.via want] at hmem
          exact absurd (List.mem_filter.mp hmem).2 (by simp [hnamed])
      | some peer =>
          rw [hpeer] at hspecs
          exact peerSlots_clearPeer h.regular.via hwant hspecs
  · rename_i hpeerId
    have hconsumer := exists_consumer_of_named hspecs hpeerId ⟨slot.spec, hmem, hnamed⟩
    have hslots := peerSlots_clearTun hspecs hpeerId hconsumer
    have hserver : serverTunOf { cfg with tun := none } = serverTunOf cfg :=
      (serverTunOf_eq_none hconsumer).symm
    refine ⟨⟨?_, h.mirrors.servers, h.mirrors.target, h.mirrors.forwards, ⟨_, hslots, hfiltered⟩,
      h.mirrors.sessions, ?_, h.mirrors.peerSecret⟩,
      ⟨h.regular.names, fun t ht => absurd ht (by simp), fun ht => absurd ht (by simp [serverTun])⟩,
      horderly⟩
    · rw [ControlState.config, h.mirrors.config]
      rfl
    · rw [hserver]
      exact h.mirrors.fallback

/-- Every message that is accepted keeps the client and its config in step. -/
theorem accepted (h : InStep files s cfg) {msg : ClientMsg} {t : ControlState}
    (haccepted : ControlState.Accepted s msg t) :
  ∃ cfg', InStep files t cfg'
  := by
  cases haccepted with
  | selectServer hget =>
      exact ⟨_, h.retarget hget rfl rfl ((ActiveTarget.switches_switch _ _).orderly h.orderly)⟩
  | setForwardOptions _ hset => exact ⟨_, h.setForwards _ (h.setForwardOptions hset)⟩
  | spawnPppoe hset =>
      have horderly := (ActiveTarget.switches_setMode hset).orderly h.orderly
      obtain ⟨-, rfl⟩ := ActiveTarget.setMode_eq_ok hset
      exact ⟨cfg, h.setActive rfl rfl horderly⟩
  | stopSession hstop =>
      have horderly := (ActiveTarget.switches_stopPppoe hstop).orderly h.orderly
      obtain ⟨-, rfl⟩ := ActiveTarget.stopPppoe_eq_some hstop
      exact ⟨cfg, h.setActive rfl rfl horderly⟩
  | @addServer name addr secret secret' transport key servers _ _ hnormal _ _ _ _ hadd =>
      refine ⟨_, h.addServer (live_iff.mpr ?_) hadd⟩
      have hsame := normalize_of_normalize hnormal
      exact ⟨rfl, rfl, rfl, hsame, hsame, rfl⟩
  | removeServer hactive hremove => exact ⟨_, h.removeServer hactive hremove⟩
  | reconnect hconnect =>
      have horderly := (ActiveTarget.switches_connect hconnect).orderly h.orderly
      obtain ⟨-, -, rfl⟩ := ActiveTarget.connect_eq_ok hconnect
      exact ⟨cfg, h.setActive rfl rfl horderly⟩
  | connect hget hconnect =>
      have horderly := (ActiveTarget.switches_connect hconnect).orderly h.orderly
      obtain ⟨-, -, rfl⟩ := ActiveTarget.connect_eq_ok hconnect
      exact ⟨_, h.retarget hget rfl rfl horderly⟩
  | disconnect hdisconnect =>
      have horderly := (ActiveTarget.switches_disconnect hdisconnect).orderly h.orderly
      obtain rfl := ActiveTarget.disconnect_eq_some hdisconnect
      exact ⟨cfg, h.setActive rfl rfl horderly⟩
  | @addForward proto port target proxy enabled idleSecs forwards _ _ _ _ hadd =>
      have hforwards := h.addForward (f := ⟨proto, port, ControlState.forwardTarget port target,
        proxy, ControlState.idleOf idleSecs, enabled⟩) hadd
      exact ⟨_, h.setForwards (fun fwds => fwds ++ [_]) hforwards⟩
  | removeForward hremove => exact ⟨_, h.setForwards _ (h.removeForward hremove)⟩
  | attachPeer _ _ htun _ hrecords hslots hattach =>
      exact ⟨_, h.attachPeer htun hrecords hslots hattach⟩
  | detachPeer hwant hdetach => exact ⟨_, h.detachPeer hwant hdetach⟩

end InStep

end ZeroNat.Client

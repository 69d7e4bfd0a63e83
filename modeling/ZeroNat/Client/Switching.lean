import ZeroNat.Client.Slots
import ZeroNat.Lib.Run

/-!
# Switching

The server, the body and the slots that the reconnect loop should be running are shared between
the loop and whoever switches them.  Every switch leaves a permit with the current cancel; the
loop takes a copy of what is shared together with a fresh cancel, runs the copy until the cancel
has a permit, and begins anew.  In every order of the steps no resource is held twice, by what is
shared and by what is run, and no switch is lost.
-/

namespace ZeroNat.Client

/-- What the loop should be running.  The cancels that were made are numbered, and `permits` has
for each whether it holds a permit; the cells of the slots are numbered as well. -/
structure ActiveTarget where
  target : ServerTarget
  mode : RunMode
  cancel : ℕ
  peers : List PeerSlot
  claims : SlotClaims
  permits : List Bool
  cells : ℕ
deriving DecidableEq

namespace ActiveTarget

variable {s t : ActiveTarget}

def new (target : ServerTarget) : ActiveTarget :=
  ⟨target, .idle, 0, [], [], [false], 0⟩

/-- Fire the current cancel.  It holds one permit at most. -/
def notifyOne (s : ActiveTarget) : ActiveTarget :=
  { s with permits := s.permits.set s.cancel true }

/-- Install the configured slots and the body of the boot.  The claims are installed before the
body is admitted. -/
def initSlots (s : ActiveTarget) (specs : List PeerSlotSpec) (mode : RunMode) :
    Except String ActiveTarget := do
  let peers := (specs.zipIdx s.cells).map fun e => ⟨e.1, e.2⟩
  checkSlotIdentities peers
  let claims ← SlotClaims.new (peerClaims peers)
  claims.admits mode.claims
  .ok { s with claims := claims, peers := peers, mode := mode, cells := s.cells + specs.length }

/-- A slot that is held keeps another one out: any consumer another consumer, and a provider one
of its capability. -/
def occupies (held spec : PeerSlotSpec) : Bool :=
  match held.consumerKey, spec.consumerKey with
  | some _, some _ => true
  | none, none => held.provides = spec.provides
  | _, _ => false

/-- The claims of the body at the next boot. -/
def atBoot (boot : RunMode) : SlotClaims :=
  boot.claims.map fun e => (e.1, "the server session body at boot")

/-- Add a slot, admitted against the other slots, the body in place, and the body of the next
boot. -/
def attachPeer (s : ActiveTarget) (spec : PeerSlotSpec) (boot : RunMode) :
    Except String ActiveTarget :=
  let slot : PeerSlot := ⟨spec, s.cells⟩
  let incoming := peerClaims [slot]
  match s.peers.find? fun held => occupies held.spec spec with
  | some held =>
      .error ("this client already has " ++ held.spec.label ++ "; detach it first")
  | none => do
      let peers := s.peers ++ [slot]
      let claims ← SlotClaims.new (peerClaims peers)
      SlotClaims.admits s.mode.claims incoming
      SlotClaims.admits (atBoot boot) incoming
      .ok (notifyOne { s with claims := claims, peers := peers, cells := s.cells + 1 })

/-- Remove a slot. -/
def detachPeer (s : ActiveTarget) (peerId : String) (want : UInt8) : Option ActiveTarget :=
  let peers := s.peers.filter fun slot => !slot.spec.isNamedBy peerId want
  if peers.length = s.peers.length then none
  else some (notifyOne { s with peers := peers, claims := peerClaims peers })

/-- Retarget the client. -/
def switch (s : ActiveTarget) (target : ServerTarget) : ActiveTarget :=
  notifyOne { s with target := target }

/-- Replace the body. -/
def setMode (s : ActiveTarget) (mode : RunMode) : Except String ActiveTarget := do
  s.claims.admits mode.claims
  .ok (notifyOne { s with mode := mode })

/-- Park the client. -/
def disconnect (s : ActiveTarget) : Option ActiveTarget :=
  if s.mode = .offline then none else some (notifyOne { s with mode := .offline })

/-- Leave the park.  Nothing happens while a body is up. -/
def connect (s : ActiveTarget) (target : Option ServerTarget) (boot : RunMode) :
    Except String (Option ActiveTarget) :=
  if s.mode ≠ .idle ∧ s.mode ≠ .offline then .ok none
  else do
    s.claims.admits boot.claims
    .ok (some (notifyOne { s with target := target.getD s.target, mode := boot }))

/-- Stop a PPPoE session, when it is the active body. -/
def stopPppoe (s : ActiveTarget) (name : String) (base : RunMode) : Option ActiveTarget :=
  match s.mode with
  | .pppoe active _ => if active = name then some (notifyOne { s with mode := base }) else none
  | _ => none

/-- A forward was added: an idle client is promoted, and a body of forwards is run anew. -/
def serveForwards (s : ActiveTarget) : ActiveTarget :=
  match s.mode with
  | .idle => notifyOne { s with mode := .forwards }
  | .forwards => s.notifyOne
  | _ => s

def kickIfForwards (s : ActiveTarget) : ActiveTarget :=
  if s.mode = .forwards then s.notifyOne else s

/-- A fresh cancel. -/
def begin (s : ActiveTarget) : ActiveTarget :=
  { s with cancel := s.permits.length, permits := s.permits ++ [false] }

/-- The name of the active profile, the mode of its session, and the name of the PPPoE session
that is up. -/
def adminView (s : ActiveTarget) : String × SessionMode × String :=
  (s.target.name, s.mode.sessionMode,
    match s.mode with
    | .pppoe name _ => name
    | _ => "")

/-! ### What the operations keep -/

/-- What holds of the slots and the body: every slot has an identity of its own, its cell is its
own, and no resource is held twice. -/
structure Orderly (s : ActiveTarget) : Prop where
  single : ∀ slot ∈ s.peers, slot.spec.Single
  distinct : Distinct s.peers
  mirrored : s.claims = peerClaims s.peers
  apart : (peerClaims s.peers).Apart
  disjoint : (peerClaims s.peers).Disjoint s.mode.claims
  cells : (s.peers.map PeerSlot.cell).Nodup
  fresh : ∀ slot ∈ s.peers, slot.cell < s.cells

/-- What is shared with the loop apart from the cancels. -/
structure Profile where
  target : ServerTarget
  mode : RunMode
  peers : List PeerSlot
deriving DecidableEq

def profile (s : ActiveTarget) : Profile :=
  ⟨s.target, s.mode, s.peers⟩

/-- An operation of whoever switches: nothing that is shared changes, or the current cancel is
fired. -/
structure Fired (s t : ActiveTarget) : Prop where
  cancel : t.cancel = s.cancel
  permits : t.permits = s.permits ∧ t.profile = s.profile
    ∨ t.permits = s.permits.set s.cancel true

theorem Orderly.notifyOne (h : s.Orderly) :
  s.notifyOne.Orderly
  := ⟨h.single, h.distinct, h.mirrored, h.apart, h.disjoint, h.cells, h.fresh⟩

theorem Orderly.setMode (h : s.Orderly) {mode : RunMode}
    (hmode : (peerClaims s.peers).Disjoint mode.claims) :
  Orderly { s with mode := mode }
  := ⟨h.single, h.distinct, h.mirrored, h.apart, hmode, h.cells, h.fresh⟩

/-- A body that holds nothing contends with nothing. -/
theorem disjoint_of_claims_eq_nil {mode : RunMode} (claims : SlotClaims) (h : mode.claims = []) :
  claims.Disjoint mode.claims
  := by
  rw [h]
  exact fun _ hmem => absurd hmem List.not_mem_nil

theorem claims_deriveMode_idle (forwards : SharedForwards) :
  (deriveMode forwards .idle).claims = []
  := by
  rw [deriveMode]
  split <;> rfl

theorem peerClaims_append (slots : List PeerSlot) (slot : PeerSlot) :
  peerClaims (slots ++ [slot]) = peerClaims slots ++ slot.spec.claims
  := by
  rw [peerClaims, List.flatMap_append, List.flatMap_singleton]
  rfl

/-- Where no slot is in the way, the identity of a slot is its own. -/
theorem not_clashes_of_not_occupies {held spec : PeerSlotSpec} (h : ¬ occupies held spec) :
  ¬ spec.clashes held
  := by
  intro hclash
  apply h
  rw [PeerSlotSpec.clashes] at hclash
  rw [occupies]
  cases hspec : spec.consumerKey with
  | none =>
      cases hheld : held.consumerKey with
      | none =>
          rw [hspec, hheld] at hclash
          exact decide_eq_true (of_decide_eq_true hclash).symm
      | some b => simp [hspec, hheld] at hclash
  | some a =>
      cases hheld : held.consumerKey with
      | none => simp [hspec, hheld] at hclash
      | some b => rfl

theorem disjoint_atBoot (boot : RunMode) (incoming : SlotClaims) :
  (atBoot boot).Disjoint incoming ↔ boot.claims.Disjoint incoming
  := by
  have hfst : (atBoot boot).map Prod.fst = boot.claims.map Prod.fst := by
    rw [atBoot, List.map_map]
    rfl
  rw [SlotClaims.Disjoint, SlotClaims.Disjoint, hfst]

/-- When a slot is attached. -/
theorem attachPeer_eq_ok (spec : PeerSlotSpec) (boot : RunMode) :
  s.attachPeer spec boot = .ok t
    ↔ (∀ held ∈ s.peers, ¬ occupies held.spec spec)
      ∧ (peerClaims s.peers ++ spec.claims).Apart
      ∧ s.mode.claims.Disjoint spec.claims ∧ boot.claims.Disjoint spec.claims
      ∧ t = notifyOne { s with
          claims := peerClaims s.peers ++ spec.claims
          peers := s.peers ++ [⟨spec, s.cells⟩]
          cells := s.cells + 1 }
  := by
  have hone : peerClaims [⟨spec, s.cells⟩] = spec.claims := List.flatMap_singleton ..
  rw [attachPeer]
  dsimp only
  rw [hone, peerClaims_append]
  cases hfind : s.peers.find? fun held => occupies held.spec spec with
  | some held =>
      refine ⟨fun h => absurd h (by simp), ?_⟩
      rintro ⟨hnone, -⟩
      exact absurd (List.find?_some hfind) (hnone held (List.mem_of_find?_eq_some hfind))
  | none =>
      have hnone : ∀ held ∈ s.peers, ¬ occupies held.spec spec := List.find?_eq_none.mp hfind
      constructor
      · intro h
        obtain ⟨claims, hclaims, h⟩ := Config.ok_of_bind h
        obtain ⟨rfl, hapart⟩ := (SlotClaims.new_eq_ok _ _).mp hclaims
        obtain ⟨⟨⟩, hmode, h⟩ := Config.ok_of_bind h
        obtain ⟨⟨⟩, hboot, h⟩ := Config.ok_of_bind h
        exact ⟨hnone, hapart, (SlotClaims.admits_eq_ok _ _).mp hmode,
          (disjoint_atBoot boot _).mp ((SlotClaims.admits_eq_ok _ _).mp hboot),
          (Except.ok.inj h).symm⟩
      · rintro ⟨-, hapart, hmode, hboot, rfl⟩
        rw [(SlotClaims.new_eq_ok _ _).mpr ⟨rfl, hapart⟩]
        change SlotClaims.admits _ _ >>= _ = _
        rw [(SlotClaims.admits_eq_ok _ _).mpr hmode]
        change SlotClaims.admits _ _ >>= _ = _
        rw [(SlotClaims.admits_eq_ok _ _).mpr ((disjoint_atBoot boot _).mpr hboot)]
        rfl

theorem Orderly.attachPeer (h : s.Orderly) {spec : PeerSlotSpec} (hsingle : spec.Single)
    {boot : RunMode} (ht : s.attachPeer spec boot = .ok t) :
  t.Orderly
  := by
  obtain ⟨hfree, hapart, hmode, -, rfl⟩ := (attachPeer_eq_ok spec boot).mp ht
  apply Orderly.notifyOne
  have hclaims : peerClaims (s.peers ++ [⟨spec, s.cells⟩]) = peerClaims s.peers ++ spec.claims :=
    peerClaims_append _ _
  refine ⟨?_, ?_, hclaims.symm, ?_, ?_, ?_, ?_⟩
  · intro slot hslot
    rcases List.mem_append.mp hslot with hslot | hslot
    · exact h.single slot hslot
    · obtain rfl := List.mem_singleton.mp hslot
      exact hsingle
  · apply List.pairwise_append.mpr
    refine ⟨h.distinct, List.pairwise_singleton _ _, ?_⟩
    intro held hheld slot hslot
    obtain rfl := List.mem_singleton.mp hslot
    exact not_clashes_of_not_occupies (hfree held hheld)
  · rw [hclaims]
    exact hapart
  · rw [hclaims]
    intro claim hclaim hmem
    rw [List.map_append] at hmem
    rcases List.mem_append.mp hmem with hmem | hmem
    · exact h.disjoint claim hclaim hmem
    · exact hmode claim hmem hclaim
  · rw [List.map_append, List.map_singleton, List.nodup_append]
    refine ⟨h.cells, List.nodup_singleton _, ?_⟩
    rintro cell hcell cell' hcell' rfl
    obtain ⟨slot, hslot, rfl⟩ := List.mem_map.mp hcell
    exact absurd (List.mem_singleton.mp hcell') (h.fresh slot hslot).ne
  · intro slot hslot
    rcases List.mem_append.mp hslot with hslot | hslot
    · exact (h.fresh slot hslot).trans (Nat.lt_succ_self _)
    · obtain rfl := List.mem_singleton.mp hslot
      exact Nat.lt_succ_self _

theorem sublist_peerClaims {slots slots' : List PeerSlot} (h : slots'.Sublist slots) :
  (peerClaims slots').Sublist (peerClaims slots)
  := by
  induction h with
  | slnil => exact List.Sublist.refl _
  | cons slot _ ih =>
      exact ih.trans (List.sublist_append_right _ _)
  | cons_cons slot _ ih =>
      rw [peerClaims, peerClaims, List.flatMap_cons, List.flatMap_cons]
      exact List.Sublist.append_left ih _

theorem detachPeer_eq_some {peerId : String} {want : UInt8}
    (ht : s.detachPeer peerId want = some t) :
  t = notifyOne { s with
      peers := s.peers.filter fun slot => !slot.spec.isNamedBy peerId want
      claims := peerClaims (s.peers.filter fun slot => !slot.spec.isNamedBy peerId want) }
    ∧ ∃ slot ∈ s.peers, slot.spec.isNamedBy peerId want
  := by
  rw [detachPeer] at ht
  split at ht
  · exact absurd ht (by simp)
  · rename_i hlength
    refine ⟨(Option.some.inj ht).symm, ?_⟩
    by_contra hnone
    apply hlength
    rw [List.filter_eq_self.mpr]
    intro slot hslot
    rw [Bool.not_eq_true']
    by_contra hnamed
    exact hnone ⟨slot, hslot, by simpa using hnamed⟩

/-- What is left of an orderly set is orderly. -/
theorem Orderly.detachPeer (h : s.Orderly) {peerId : String} {want : UInt8}
    (ht : s.detachPeer peerId want = some t) :
  t.Orderly
  := by
  obtain ⟨rfl, -⟩ := detachPeer_eq_some ht
  have hsub : (s.peers.filter fun slot => !slot.spec.isNamedBy peerId want).Sublist s.peers :=
    List.filter_sublist
  apply Orderly.notifyOne
  refine ⟨fun slot hslot => h.single slot (hsub.subset hslot), h.distinct.sublist hsub, rfl,
    h.apart.sublist ((sublist_peerClaims hsub).map _), ?_, h.cells.sublist (hsub.map _),
    fun slot hslot => h.fresh slot (hsub.subset hslot)⟩
  intro claim hclaim hmem
  exact h.disjoint claim hclaim (((sublist_peerClaims hsub).map _).subset hmem)

theorem initSlots_eq_ok {specs : List PeerSlotSpec} {mode : RunMode}
    (h : s.initSlots specs mode = .ok t) :
  t.Orderly ∧ t.target = s.target ∧ t.mode = mode ∧ t.peers.map PeerSlot.spec = specs
    ∧ t.cancel = s.cancel ∧ t.permits = s.permits
  := by
  rw [initSlots] at h
  obtain ⟨⟨⟩, hcheck, h⟩ := Config.ok_of_bind h
  obtain ⟨hsingle, hdistinct⟩ := (checkSlotIdentities_eq_ok _).mp hcheck
  obtain ⟨claims, hclaims, h⟩ := Config.ok_of_bind h
  obtain ⟨rfl, hapart⟩ := (SlotClaims.new_eq_ok _ _).mp hclaims
  obtain ⟨⟨⟩, hadmitted, h⟩ := Config.ok_of_bind h
  obtain rfl := Except.ok.inj h
  have hcells : ((specs.zipIdx s.cells).map fun e => (⟨e.1, e.2⟩ : PeerSlot)).map PeerSlot.cell
      = List.range' s.cells specs.length := by
    rw [List.map_map]
    exact List.zipIdx_map_snd _ _
  refine ⟨⟨hsingle, hdistinct, rfl, hapart, (SlotClaims.admits_eq_ok _ _).mp hadmitted, ?_, ?_⟩,
    rfl, rfl, ?_, rfl, rfl⟩
  · rw [hcells]
    exact List.nodup_range'
  · intro slot hslot
    have hmem := List.mem_map_of_mem (f := PeerSlot.cell) hslot
    rw [hcells] at hmem
    exact (List.mem_range'_1.mp hmem).2
  · rw [List.map_map]
    exact List.zipIdx_map_fst _ _

/-! ### What whoever switches does -/

theorem fired_refl (s : ActiveTarget) :
  Fired s s
  := ⟨rfl, Or.inl ⟨rfl, rfl⟩⟩

/-- What is fired last counts. -/
theorem fired_notifyOne (hcancel : t.cancel = s.cancel) (hpermits : t.permits = s.permits) :
  Fired s t.notifyOne
  := by
  refine ⟨hcancel, Or.inr ?_⟩
  rw [notifyOne, hcancel, hpermits]

/-- An operation keeps the order, and fires the current cancel when it changes anything. -/
structure Switches (s t : ActiveTarget) : Prop where
  orderly : s.Orderly → t.Orderly
  fired : Fired s t

theorem switches_refl (s : ActiveTarget) :
  Switches s s
  := ⟨id, fired_refl s⟩

theorem switches_attachPeer {spec : PeerSlotSpec} (hsingle : spec.Single) {boot : RunMode}
    (ht : s.attachPeer spec boot = .ok t) :
  Switches s t
  := by
  refine ⟨fun h => h.attachPeer hsingle ht, ?_⟩
  obtain ⟨-, -, -, -, rfl⟩ := (attachPeer_eq_ok spec boot).mp ht
  exact fired_notifyOne rfl rfl

theorem switches_detachPeer {peerId : String} {want : UInt8}
    (ht : s.detachPeer peerId want = some t) :
  Switches s t
  := by
  refine ⟨fun h => h.detachPeer ht, ?_⟩
  obtain ⟨rfl, -⟩ := detachPeer_eq_some ht
  exact fired_notifyOne rfl rfl

theorem switches_switch (s : ActiveTarget) (target : ServerTarget) :
  Switches s (s.switch target)
  := ⟨fun h => ⟨h.single, h.distinct, h.mirrored, h.apart, h.disjoint, h.cells, h.fresh⟩,
    fired_notifyOne rfl rfl⟩

theorem setMode_eq_ok {mode : RunMode} (ht : s.setMode mode = .ok t) :
  s.claims.Disjoint mode.claims ∧ t = notifyOne { s with mode := mode }
  := by
  obtain ⟨⟨⟩, hadmitted, ht⟩ := Config.ok_of_bind ht
  exact ⟨(SlotClaims.admits_eq_ok _ _).mp hadmitted, (Except.ok.inj ht).symm⟩

theorem switches_setMode {mode : RunMode} (ht : s.setMode mode = .ok t) :
  Switches s t
  := by
  obtain ⟨hadmitted, rfl⟩ := setMode_eq_ok ht
  exact ⟨fun h => (h.setMode (h.mirrored ▸ hadmitted)).notifyOne, fired_notifyOne rfl rfl⟩

/-- The body is replaced by one that holds nothing. -/
theorem switches_free {mode : RunMode} (hmode : mode.claims = []) :
  Switches s (notifyOne { s with mode := mode })
  := ⟨fun h => (h.setMode (disjoint_of_claims_eq_nil _ hmode)).notifyOne, fired_notifyOne rfl rfl⟩

theorem disconnect_eq_some (ht : s.disconnect = some t) :
  t = notifyOne { s with mode := .offline }
  := by
  rw [disconnect] at ht
  split at ht
  · exact absurd ht (by simp)
  · exact (Option.some.inj ht).symm

theorem switches_disconnect (ht : s.disconnect = some t) :
  Switches s t
  := by
  obtain rfl := disconnect_eq_some ht
  exact switches_free rfl

theorem connect_eq_ok {target : Option ServerTarget} {boot : RunMode}
    (ht : s.connect target boot = .ok (some t)) :
  (s.mode = .idle ∨ s.mode = .offline) ∧ s.claims.Disjoint boot.claims
    ∧ t = notifyOne { s with target := target.getD s.target, mode := boot }
  := by
  rw [connect] at ht
  split at ht
  · exact absurd ht (by simp)
  · rename_i hmode
    obtain ⟨⟨⟩, hadmitted, ht⟩ := Config.ok_of_bind ht
    refine ⟨?_, (SlotClaims.admits_eq_ok _ _).mp hadmitted,
      (Option.some.inj (Except.ok.inj ht)).symm⟩
    by_contra hnot
    rw [not_or] at hnot
    exact hmode hnot

theorem switches_connect {target : Option ServerTarget} {boot : RunMode}
    (ht : s.connect target boot = .ok (some t)) :
  Switches s t
  := by
  obtain ⟨-, hadmitted, rfl⟩ := connect_eq_ok ht
  refine ⟨?_, fired_notifyOne rfl rfl⟩
  intro h
  exact Orderly.notifyOne ⟨h.single, h.distinct, h.mirrored, h.apart, h.mirrored ▸ hadmitted,
    h.cells, h.fresh⟩

theorem stopPppoe_eq_some {name : String} {base : RunMode}
    (ht : s.stopPppoe name base = some t) :
  (∃ config, s.mode = .pppoe name config) ∧ t = notifyOne { s with mode := base }
  := by
  rw [stopPppoe] at ht
  split at ht
  · rename_i active config hmode
    split at ht
    · rename_i hname
      exact ⟨⟨config, hname ▸ hmode⟩, (Option.some.inj ht).symm⟩
    · exact absurd ht (by simp)
  · exact absurd ht (by simp)

theorem switches_stopPppoe {name : String} {forwards : SharedForwards}
    (ht : s.stopPppoe name (deriveMode forwards .idle) = some t) :
  Switches s t
  := by
  obtain ⟨-, rfl⟩ := stopPppoe_eq_some ht
  exact switches_free (claims_deriveMode_idle forwards)

theorem switches_serveForwards (s : ActiveTarget) :
  Switches s s.serveForwards
  := by
  rw [serveForwards]
  split
  · exact switches_free rfl
  · exact ⟨Orderly.notifyOne, fired_notifyOne rfl rfl⟩
  · exact switches_refl s

theorem switches_kickIfForwards (s : ActiveTarget) :
  Switches s s.kickIfForwards
  := by
  rw [kickIfForwards]
  split
  · exact ⟨Orderly.notifyOne, fired_notifyOne rfl rfl⟩
  · exact switches_refl s

end ActiveTarget

/-- Every slot that the tables of a config declare is a consumer, or a provider of one
capability. -/
theorem single_of_peerSlots {tun : Option Config.CfgTun} {peer : Option Config.CfgPeer}
    {specs : List PeerSlotSpec} (h : peerSlots tun peer = .ok specs) :
  ∀ spec ∈ specs, spec.Single
  := by
  have hconsumer : ∀ spec ∈ consumerSlots tun, spec.Single := by
    intro spec hspec
    unfold consumerSlots at hspec
    split at hspec
    · exact absurd hspec List.not_mem_nil
    · split at hspec
      · exact absurd hspec List.not_mem_nil
      · obtain rfl := List.mem_singleton.mp hspec
        exact fun hkey => absurd hkey (by simp [PeerSlotSpec.consumerKey])
  unfold peerSlots at h
  split at h
  · obtain rfl := Except.ok.inj h
    exact hconsumer
  · rename_i peer
    obtain ⟨allow, -, h⟩ := Config.ok_of_bind h
    obtain ⟨exits, hexits, h⟩ := Config.ok_of_bind h
    obtain ⟨segments, hsegments, h⟩ := Config.ok_of_bind h
    obtain rfl := Except.ok.inj h
    intro spec hspec
    rcases List.mem_append.mp hspec with hspec | hspec
    · rcases List.mem_append.mp hspec with hspec | hspec
      · exact hconsumer spec hspec
      · rw [exitSlots] at hexits
        split at hexits
        · split at hexits
          · exact absurd hexits (by simp)
          · obtain rfl := Except.ok.inj hexits
            obtain rfl := List.mem_singleton.mp hspec
            exact fun _ => (by decide : countOnes providesExit = 1)
        · obtain rfl := Except.ok.inj hexits
          exact absurd hspec List.not_mem_nil
    · rw [segmentSlots] at hsegments
      split at hsegments
      · obtain rfl := Except.ok.inj hsegments
        exact absurd hspec List.not_mem_nil
      · split at hsegments
        · exact absurd hsegments (by simp)
        · obtain rfl := Except.ok.inj hsegments
          obtain rfl := List.mem_singleton.mp hspec
          exact fun _ => (by decide : countOnes providesSegment = 1)

/-! ### The loop -/

open ActiveTarget (Profile)

/-- Where the reconnect loop is: between two profiles, running one until its cancel has a permit,
or ended by an error. -/
inductive LoopState where
  | between
  | running (profile : Profile) (cancel : ℕ)
  | ended
deriving DecidableEq

/-- The reconnect loop, and what it shares with whoever switches. -/
structure Switchable where
  active : ActiveTarget
  loop : LoopState
deriving DecidableEq

inductive SwitchOp where
  | attachPeer (tun : Option Config.CfgTun) (peer : Option Config.CfgPeer) (boot : RunMode)
  | detachPeer (peerId : String) (want : UInt8)
  | switch (target : ServerTarget)
  | setMode (mode : RunMode)
  | disconnect
  | connect (target : Option ServerTarget) (boot : RunMode)
  | stopPppoe (name : String) (forwards : SharedForwards)
  | serveForwards
  | kickIfForwards
  /-- The loop takes up what is shared. -/
  | begin
  /-- A wait of the loop on its cancel is over, be it in the park, while it resolves or pauses, or
  while the session is up; what was brought up is torn down. -/
  | cancelled
  /-- The loop ends with an error. -/
  | fail
deriving DecidableEq

namespace Switchable

variable {s t : Switchable}

def set (s : Switchable) (active : ActiveTarget) : Switchable :=
  { s with active := active }

/-- A switch that is refused changes nothing. -/
def step (s : Switchable) : SwitchOp → Option Switchable
  | .attachPeer tun peer boot =>
      match peerSlots tun peer with
      | .ok [spec] =>
          match s.active.attachPeer spec boot with
          | .ok active => some (s.set active)
          | .error _ => some s
      | _ => some s
  | .detachPeer peerId want => some (s.set ((s.active.detachPeer peerId want).getD s.active))
  | .switch target => some (s.set (s.active.switch target))
  | .setMode mode =>
      match s.active.setMode mode with
      | .ok active => some (s.set active)
      | .error _ => some s
  | .disconnect => some (s.set (s.active.disconnect.getD s.active))
  | .connect target boot =>
      match s.active.connect target boot with
      | .ok (some active) => some (s.set active)
      | _ => some s
  | .stopPppoe name forwards =>
      some (s.set ((s.active.stopPppoe name (deriveMode forwards .idle)).getD s.active))
  | .serveForwards => some (s.set s.active.serveForwards)
  | .kickIfForwards => some (s.set s.active.kickIfForwards)
  | .begin =>
      match s.loop with
      | .between => some ⟨s.active.begin, .running s.active.profile s.active.begin.cancel⟩
      | _ => none
  | .cancelled =>
      match s.loop with
      | .running _ cancel =>
          if s.active.permits[cancel]? = some true then
            some ⟨{ s.active with permits := s.active.permits.set cancel false }, .between⟩
          else none
      | _ => none
  | .fail => some { s with loop := .ended }

/-- What a step is: whoever switches takes one, or the loop. -/
theorem step_cases {op : SwitchOp} (h : s.step op = some t) :
  t.loop = s.loop ∧ ActiveTarget.Switches s.active t.active
    ∨ (s.loop = .between ∧ t.active = s.active.begin
      ∧ t.loop = .running s.active.profile s.active.begin.cancel)
    ∨ (∃ profile cancel, s.loop = .running profile cancel
      ∧ t.active = { s.active with permits := s.active.permits.set cancel false }
      ∧ t.loop = .between)
    ∨ t.active = s.active ∧ t.loop = .ended
  := by
  have hsame : s.loop = s.loop ∧ ActiveTarget.Switches s.active s.active :=
    ⟨rfl, ActiveTarget.switches_refl _⟩
  have hgetD {o : Option ActiveTarget}
      (ho : ∀ active, o = some active → ActiveTarget.Switches s.active active) :
      ActiveTarget.Switches s.active (o.getD s.active) := by
    cases o with
    | none => exact ActiveTarget.switches_refl _
    | some active => exact ho active rfl
  cases op with
  | attachPeer tun peer boot =>
      left
      simp only [step] at h
      split at h
      · rename_i spec hspecs
        split at h
        · rename_i active hactive
          obtain rfl := Option.some.inj h
          exact ⟨rfl, ActiveTarget.switches_attachPeer
            (single_of_peerSlots hspecs spec List.mem_cons_self) hactive⟩
        · obtain rfl := Option.some.inj h
          exact hsame
      · obtain rfl := Option.some.inj h
        exact hsame
  | detachPeer peerId want =>
      obtain rfl := Option.some.inj h
      exact Or.inl ⟨rfl, hgetD fun _ => ActiveTarget.switches_detachPeer⟩
  | switch target =>
      obtain rfl := Option.some.inj h
      exact Or.inl ⟨rfl, ActiveTarget.switches_switch _ _⟩
  | setMode mode =>
      left
      simp only [step] at h
      split at h
      · obtain rfl := Option.some.inj h
        exact ⟨rfl, ActiveTarget.switches_setMode ‹_›⟩
      · obtain rfl := Option.some.inj h
        exact hsame
  | disconnect =>
      obtain rfl := Option.some.inj h
      exact Or.inl ⟨rfl, hgetD fun _ => ActiveTarget.switches_disconnect⟩
  | connect target boot =>
      left
      simp only [step] at h
      split at h
      · obtain rfl := Option.some.inj h
        exact ⟨rfl, ActiveTarget.switches_connect ‹_›⟩
      · obtain rfl := Option.some.inj h
        exact hsame
  | stopPppoe name forwards =>
      obtain rfl := Option.some.inj h
      exact Or.inl ⟨rfl, hgetD fun _ => ActiveTarget.switches_stopPppoe⟩
  | serveForwards =>
      obtain rfl := Option.some.inj h
      exact Or.inl ⟨rfl, ActiveTarget.switches_serveForwards _⟩
  | kickIfForwards =>
      obtain rfl := Option.some.inj h
      exact Or.inl ⟨rfl, ActiveTarget.switches_kickIfForwards _⟩
  | begin =>
      simp only [step] at h
      split at h
      · obtain rfl := Option.some.inj h
        exact Or.inr (Or.inl ⟨‹_›, rfl, rfl⟩)
      · exact absurd h (by simp)
  | cancelled =>
      simp only [step] at h
      split at h
      · rename_i profile cancel hloop
        split at h
        · obtain rfl := Option.some.inj h
          exact Or.inr (Or.inr (Or.inl ⟨profile, cancel, hloop, rfl, rfl⟩))
        · exact absurd h (by simp)
      · exact absurd h (by simp)
  | fail =>
      obtain rfl := Option.some.inj h
      exact Or.inr (Or.inr (Or.inr ⟨rfl, rfl⟩))

/-- What the slots and the body of a profile hold, they do not hold twice. -/
def Apart (p : Profile) : Prop :=
  (peerClaims p.peers).Apart ∧ (peerClaims p.peers).Disjoint p.mode.claims

/-- What holds of the loop and of what it shares: the slots are in order, those that the loop runs
are, and the loop waits on the current cancel, which has a permit when the loop runs anything but
what is shared. -/
structure Sound (s : Switchable) : Prop where
  orderly : s.active.Orderly
  cancel : s.active.cancel < s.active.permits.length
  current : ∀ profile cancel, s.loop = .running profile cancel → cancel = s.active.cancel
  apart : ∀ profile cancel, s.loop = .running profile cancel → Apart profile
  noted : ∀ profile cancel, s.loop = .running profile cancel →
    profile = s.active.profile ∨ s.active.permits[cancel]? = some true

theorem Sound.step (hs : s.Sound) {op : SwitchOp} (h : s.step op = some t) :
  t.Sound
  := by
  obtain ⟨hloop, hswitches⟩ | ⟨-, hactive, hloop⟩ | ⟨profile, cancel, -, hactive, hloop⟩
    | ⟨hactive, hloop⟩ := step_cases h
  · obtain ⟨hcancel, hpermits⟩ := hswitches.fired
    have hlength : t.active.permits.length = s.active.permits.length := by
      rcases hpermits with ⟨hpermits, -⟩ | hpermits
      · rw [hpermits]
      · rw [hpermits, List.length_set]
    refine ⟨hswitches.orderly hs.orderly, ?_, ?_, ?_, ?_⟩
    · rw [hcancel, hlength]
      exact hs.cancel
    · rw [hloop, hcancel]
      exact hs.current
    · rw [hloop]
      exact hs.apart
    · rw [hloop]
      intro profile cancel hrunning
      rcases hpermits with ⟨hpermits, hprofile⟩ | hpermits
      · rw [hpermits, hprofile]
        exact hs.noted profile cancel hrunning
      · -- The cancel that is fired is the one that the loop waits on.
        rw [hpermits, hs.current profile cancel hrunning, List.getElem?_set_self hs.cancel]
        exact Or.inr rfl
  · have hshared : t.active.profile = s.active.profile := by
      rw [hactive]
      rfl
    refine ⟨?_, ?_, ?_, ?_, ?_⟩
    · rw [hactive]
      exact ⟨hs.orderly.single, hs.orderly.distinct, hs.orderly.mirrored, hs.orderly.apart,
        hs.orderly.disjoint, hs.orderly.cells, hs.orderly.fresh⟩
    · rw [hactive, ActiveTarget.begin, List.length_append, List.length_singleton]
      exact Nat.lt_succ_self _
    · intro profile cancel hrunning
      rw [hloop] at hrunning
      rw [hactive]
      exact (LoopState.running.inj hrunning).2.symm
    · intro profile cancel hrunning
      rw [hloop] at hrunning
      rw [← (LoopState.running.inj hrunning).1]
      exact ⟨hs.orderly.apart, hs.orderly.disjoint⟩
    · intro profile cancel hrunning
      rw [hloop] at hrunning
      rw [hshared]
      exact Or.inl (LoopState.running.inj hrunning).1.symm
  · refine ⟨?_, ?_, ?_, ?_, ?_⟩
    · rw [hactive]
      exact ⟨hs.orderly.single, hs.orderly.distinct, hs.orderly.mirrored, hs.orderly.apart,
        hs.orderly.disjoint, hs.orderly.cells, hs.orderly.fresh⟩
    · rw [hactive, List.length_set]
      exact hs.cancel
    · intro profile' cancel' hrunning
      exact absurd (hloop.symm.trans hrunning) (by simp)
    · intro profile' cancel' hrunning
      exact absurd (hloop.symm.trans hrunning) (by simp)
    · intro profile' cancel' hrunning
      exact absurd (hloop.symm.trans hrunning) (by simp)
  · refine ⟨hactive ▸ hs.orderly, hactive ▸ hs.cancel, ?_, ?_, ?_⟩
    · intro profile cancel hrunning
      exact absurd (hloop.symm.trans hrunning) (by simp)
    · intro profile cancel hrunning
      exact absurd (hloop.symm.trans hrunning) (by simp)
    · intro profile cancel hrunning
      exact absurd (hloop.symm.trans hrunning) (by simp)

theorem sound_of_initSlots {target : ServerTarget} {specs : List PeerSlotSpec} {mode : RunMode}
    {active : ActiveTarget} (h : (ActiveTarget.new target).initSlots specs mode = .ok active) :
  Sound ⟨active, .between⟩
  := by
  obtain ⟨horderly, -, -, -, hcancel, hpermits⟩ := ActiveTarget.initSlots_eq_ok h
  refine ⟨horderly, ?_, ?_, ?_, ?_⟩
  · rw [hcancel, hpermits]
    exact Nat.zero_lt_one
  · intro profile cancel hrunning
    exact absurd hrunning (by simp)
  · intro profile cancel hrunning
    exact absurd hrunning (by simp)
  · intro profile cancel hrunning
    exact absurd hrunning (by simp)

theorem sound_of_run {target : ServerTarget} {specs : List PeerSlotSpec} {mode : RunMode}
    {active : ActiveTarget} (hboot : (ActiveTarget.new target).initSlots specs mode = .ok active)
    {ops : List SwitchOp} (hrun : Run (fun s op t => s.step op = some t) ⟨active, .between⟩ ops s) :
  s.Sound
  := by
  apply hrun.invariant (sound_of_initSlots hboot)
  intro s op t hs hstep
  exact hs.step hstep

/-- From a boot that is accepted, no resource is ever held twice among the body and the slots, be
it of what is shared or of what the loop runs, and every slot has an identity and a cell of its
own. -/
theorem slots_never_contend {target : ServerTarget} {specs : List PeerSlotSpec} {mode : RunMode}
    {active : ActiveTarget} (hboot : (ActiveTarget.new target).initSlots specs mode = .ok active)
    {ops : List SwitchOp} (hrun : Run (fun s op t => s.step op = some t) ⟨active, .between⟩ ops s) :
  s.active.Orderly ∧ ∀ profile cancel, s.loop = .running profile cancel → Apart profile
  := by
  have hs := sound_of_run hboot hrun
  exact ⟨hs.orderly, hs.apart⟩

/-- A profile of a server. -/
def home : ServerTarget :=
  ⟨"home", "198.51.100.7:7000", "00", "00", none, .auto⟩

/-- The slot of a consumer whose exit is on a tun of its own. -/
def office : PeerSlotSpec :=
  .consumer "office" providesExit (some (.exit ⟨"zn0", 1400, true, false⟩))

/-- A provider of an exit is attached while the loop runs a consumer, a second consumer is
refused, and the body is replaced by one that wants the default route, which is refused too. -/
def attached : List SwitchOp :=
  [.begin, .attachPeer none (some ⟨true, none, none, ["".pushn 'a' 64]⟩) .forwards,
    .attachPeer (some ⟨some "zn1", none, false, false, some "depot"⟩) none .forwards,
    .setMode (.pppoe "isp" ⟨[], [], [], none, "zppp0", 1492, true, none, false⟩), .cancelled,
    .begin]

/-- Two slots are run, and each has its devices for itself. -/
theorem slots_never_contend_attached :
  ∃ (active : ActiveTarget) (s : Switchable),
    (ActiveTarget.new home).initSlots [office] .forwards = .ok active
    ∧ Run (fun s op t => s.step op = some t) ⟨active, .between⟩ attached s
    ∧ s.active.peers.length = 2 ∧ s.active.mode = .forwards ∧ s.active.Orderly
    ∧ ∀ profile cancel, s.loop = .running profile cancel → Apart profile
  := by
  have hview : ∃ active ∈ ((ActiveTarget.new home).initSlots [office] .forwards).toOption,
      ∃ s ∈ execute (fun _ _ => True) step ⟨active, .between⟩ attached,
        s.active.peers.length = 2 ∧ s.active.mode = .forwards := by
    decide +kernel
  obtain ⟨active, hactive, s, hs, hpeers, hmode⟩ := hview
  have hboot : (ActiveTarget.new home).initSlots [office] .forwards = .ok active :=
    Config.ok_of_toOption hactive
  have hrun := (run_of_execute hs).mono fun _ _ _ h => h.2
  exact ⟨active, s, hboot, hrun, hpeers, hmode, slots_never_contend hboot hrun⟩

/-- From a boot that is accepted, a loop that runs anything but what is shared can take two steps,
without waiting for anyone, after which it runs what is shared. -/
theorem no_switch_lost {target : ServerTarget} {specs : List PeerSlotSpec} {mode : RunMode}
    {active : ActiveTarget} (hboot : (ActiveTarget.new target).initSlots specs mode = .ok active)
    {ops : List SwitchOp} (hrun : Run (fun s op t => s.step op = some t) ⟨active, .between⟩ ops s)
    {profile : Profile} {cancel : ℕ} (hloop : s.loop = .running profile cancel) :
  profile = s.active.profile
    ∨ ∃ t u, s.step .cancelled = some t ∧ t.step .begin = some u
      ∧ u.active.profile = s.active.profile
      ∧ ∃ cancel', u.loop = .running s.active.profile cancel'
  := by
  have hs := sound_of_run hboot hrun
  rcases hs.noted profile cancel hloop with hsame | hpermit
  · exact Or.inl hsame
  · right
    refine ⟨⟨{ s.active with permits := s.active.permits.set cancel false }, .between⟩, _, ?_, rfl,
      rfl, _, rfl⟩
    simp only [step, hloop, hpermit, if_true]

/-- A client is retargeted while the loop runs. -/
def retargeted : List SwitchOp :=
  [.begin, .switch { home with name := "away" }]

/-- The loop takes up the new target. -/
theorem no_switch_lost_retargeted :
  ∃ (active : ActiveTarget) (s : Switchable) (profile : Profile) (cancel : ℕ),
    (ActiveTarget.new home).initSlots [office] .forwards = .ok active
    ∧ Run (fun s op t => s.step op = some t) ⟨active, .between⟩ retargeted s
    ∧ s.loop = .running profile cancel ∧ profile ≠ s.active.profile
    ∧ (profile = s.active.profile
      ∨ ∃ t u, s.step .cancelled = some t ∧ t.step .begin = some u
        ∧ u.active.profile = s.active.profile
        ∧ ∃ cancel', u.loop = .running s.active.profile cancel')
  := by
  have hview : ∃ active ∈ ((ActiveTarget.new home).initSlots [office] .forwards).toOption,
      ∃ s ∈ execute (fun _ _ => True) step ⟨active, .between⟩ retargeted,
        s.loop = .running ⟨home, .forwards, [⟨office, 0⟩]⟩ 1
          ∧ ⟨home, .forwards, [⟨office, 0⟩]⟩ ≠ s.active.profile := by
    decide +kernel
  obtain ⟨active, hactive, s, hs, hloop, hne⟩ := hview
  have hboot : (ActiveTarget.new home).initSlots [office] .forwards = .ok active :=
    Config.ok_of_toOption hactive
  have hrun := (run_of_execute hs).mono fun _ _ _ h => h.2
  exact ⟨active, s, _, _, hboot, hrun, hloop, hne, no_switch_lost hboot hrun hloop⟩

end Switchable

end ZeroNat.Client

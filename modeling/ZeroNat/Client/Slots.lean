import ZeroNat.Client.Shared

/-!
# The slots of a client

Beside the body of its session a client runs peer slots: consumers that ask a peer for a
capability, and providers that serve one.  Each of them holds devices of the host, and possibly
its default route.  A slot or a body that would hold what another one holds is refused, before
anything is torn down.
-/

namespace ZeroNat.Client

/-! ### Slots -/

/-- What a consumer of an exit opens. -/
structure ExitVia where
  device : String
  mtu : ℕ
  exit : Bool
  exitStrict : Bool
deriving DecidableEq

inductive ConsumerAdapter where
  | exit (via : ExitVia)
deriving DecidableEq

/-- What a provider of an exit opens. -/
structure PeerExit where
  device : String
  mtu : ℕ
  iface : Option String
deriving DecidableEq

/-- What a provider of a segment opens. -/
structure PeerSegment where
  device : String
  mtu : ℕ
  bridge : String
deriving DecidableEq

inductive ProviderAdapter where
  | exit (cfg : PeerExit)
  | segment (cfg : PeerSegment)
deriving DecidableEq

def ConsumerAdapter.devices : ConsumerAdapter → List String
  | exit via => [via.device]

def ConsumerAdapter.defaultRoute : ConsumerAdapter → Bool
  | exit via => via.exit

def ProviderAdapter.devices : ProviderAdapter → List String
  | exit cfg => [cfg.device]
  | segment cfg => [cfg.device, cfg.bridge]

/-- A configured peer slot. -/
inductive PeerSlotSpec where
  | consumer (peerId : String) (want : UInt8) (adapter : Option ConsumerAdapter)
  | provider (provides : UInt8) (adapter : Option ProviderAdapter) (allow : List (Bytes 32))
deriving DecidableEq

def providesName (bit : UInt8) : String :=
  if bit = providesExit then "exit" else if bit = providesSegment then "segment" else "peer"

/-- How a slot is named: a consumer by the peer and the capability it wants, a provider by its
capability. -/
def slotLabel (peerId : String) (want : UInt8) : String :=
  if peerId = "" then providesName want ++ " provider"
  else providesName want ++ " consumer for `" ++ peerId ++ "`"

namespace PeerSlotSpec

def label : PeerSlotSpec → String
  | consumer peerId want _ => "the " ++ slotLabel peerId want
  | provider provides _ _ => "the " ++ slotLabel "" provides

/-- The interfaces that the slot opens. -/
def devices : PeerSlotSpec → List String
  | consumer _ _ adapter => (adapter.map ConsumerAdapter.devices).getD []
  | provider _ adapter _ => (adapter.map ProviderAdapter.devices).getD []

def defaultRoute : PeerSlotSpec → Bool
  | consumer _ _ adapter => (adapter.map ConsumerAdapter.defaultRoute).getD false
  | provider _ _ _ => false

def consumerKey : PeerSlotSpec → Option (String × UInt8)
  | consumer peerId want _ => some (peerId, want)
  | provider _ _ _ => none

/-- The slot is the one that an attach or a detach names. -/
def isNamedBy (peerId : String) (want : UInt8) : PeerSlotSpec → Bool
  | consumer peer bit _ => peer = peerId ∧ bit = want
  | provider provides _ _ => peerId = "" ∧ provides = want

def provides : PeerSlotSpec → UInt8
  | consumer _ _ _ => 0
  | provider provides _ _ => provides

end PeerSlotSpec

/-- A slot, with the cell that its loop reports through. -/
structure PeerSlot where
  spec : PeerSlotSpec
  cell : ℕ
deriving DecidableEq

def defaultTapMtu : ℕ := 1400

def defaultTunName : String := "zn0"

def defaultPeerExitName : String := "znx0"

def defaultPeerSegmentName : String := "zns0"

open Config (CfgTun CfgPeer)

/-- The identities that an allowlist names. -/
def decodeAllow (allow : List String) : Except String (List (Bytes 32)) :=
  allow.mapM fun entry =>
    (Secret.decode entry).mapError fun _ =>
      "[peer] allow entry `" ++ entry ++ "` must be a 64-hex peer identity"

/-- The identities that the providers admit.  A provider that no consumer may use is an error. -/
def CfgPeer.allowIdentities (peer : CfgPeer) : Except String (List (Bytes 32)) := do
  let allow ← decodeAllow peer.allow
  if (peer.exit ∨ peer.segment.isSome) ∧ allow = [] then
    .error ("[peer] allow must name at least one consumer identity when `exit` or `segment` "
      ++ "is set")
  else .ok allow

/-- The slot of a tun table that names a peer. -/
def consumerSlots : Option CfgTun → List PeerSlotSpec
  | none => []
  | some tun =>
      match tun.exitVia with
      | none => []
      | some peerId =>
          [.consumer peerId providesExit
            (some (.exit ⟨tun.dev.getD defaultTunName, defaultTapMtu, tun.exit, tun.exitStrict⟩))]

def exitSlots (peer : CfgPeer) (allow : List (Bytes 32)) : Except String (List PeerSlotSpec) :=
  if peer.exit then
    if peer.exitIface = some defaultPeerExitName then
      .error ("[peer] exit_iface cannot be the exit provider's own tun " ++ defaultPeerExitName)
    else
      .ok [.provider providesExit
        (some (.exit ⟨defaultPeerExitName, defaultTapMtu, peer.exitIface⟩)) allow]
  else .ok []

def segmentSlots (peer : CfgPeer) (allow : List (Bytes 32)) : Except String (List PeerSlotSpec) :=
  match peer.segment with
  | none => .ok []
  | some bridge =>
      if bridge = defaultPeerSegmentName then
        .error ("[peer] segment cannot be the segment provider's own tap "
          ++ defaultPeerSegmentName)
      else
        .ok [.provider providesSegment
          (some (.segment ⟨defaultPeerSegmentName, defaultTapMtu, bridge⟩)) allow]

/-- The slots that the tables of a config declare: a consumer for a tun table that names a peer,
and a provider for each capability of the peer table. -/
def peerSlots (tun : Option CfgTun) (peer : Option CfgPeer) : Except String (List PeerSlotSpec) :=
  match peer with
  | none => .ok (consumerSlots tun)
  | some peer => do
      let allow ← CfgPeer.allowIdentities peer
      let exits ← exitSlots peer allow
      let segments ← segmentSlots peer allow
      .ok (consumerSlots tun ++ exits ++ segments)

/-! ### Claims -/

/-- What a slot holds alone while it runs. -/
inductive Claim where
  | device (name : String)
  | defaultRoute
deriving DecidableEq

def Claim.describe : Claim → String
  | device name => "device `" ++ name ++ "`"
  | defaultRoute => "the default route"

/-- What is held, and by whom. -/
abbrev SlotClaims : Type :=
  List (Claim × String)

namespace SlotClaims

/-- The claims of a set of slots, unless it contends with itself: the claims are gone through in
their order, those before the current one in `seen`. -/
def newFrom (seen : SlotClaims) : SlotClaims → Except String SlotClaims
  | [] => .ok seen
  | (claim, holder) :: rest =>
      match seen.find? fun e => e.1 = claim with
      | some (_, first) =>
          .error (claim.describe ++ " is claimed by both " ++ first ++ " and " ++ holder)
      | none => newFrom (seen ++ [(claim, holder)]) rest

def new (peers : SlotClaims) : Except String SlotClaims :=
  newFrom [] peers

/-- Admit claims against those that are held. -/
def admits (held : SlotClaims) : SlotClaims → Except String Unit
  | [] => .ok ()
  | (claim, holder) :: rest =>
      match held.find? fun e => e.1 = claim with
      | some (_, first) =>
          .error (claim.describe ++ " is claimed by " ++ first ++ ", so " ++ holder
            ++ " cannot open it")
      | none => admits held rest

/-- No resource is claimed twice. -/
def Apart (claims : SlotClaims) : Prop :=
  (claims.map Prod.fst).Nodup

/-- No resource is claimed on both sides. -/
def Disjoint (held incoming : SlotClaims) : Prop :=
  ∀ claim ∈ incoming.map Prod.fst, claim ∉ held.map Prod.fst

instance (claims : SlotClaims) : Decidable claims.Apart :=
  inferInstanceAs (Decidable (List.Nodup _))

instance (held incoming : SlotClaims) : Decidable (held.Disjoint incoming) :=
  inferInstanceAs (Decidable (∀ claim ∈ incoming.map Prod.fst, claim ∉ held.map Prod.fst))

theorem find?_eq_none_iff (held : SlotClaims) (claim : Claim) :
  (held.find? fun e => e.1 = claim) = none ↔ claim ∉ held.map Prod.fst
  := by
  rw [List.find?_eq_none, List.mem_map]
  constructor
  · rintro h ⟨e, he, rfl⟩
    exact h e he (decide_eq_true rfl)
  · intro h e he heq
    exact h ⟨e, he, of_decide_eq_true heq⟩

theorem newFrom_eq_ok (seen rest : SlotClaims) (claims : SlotClaims) (hseen : seen.Apart) :
  newFrom seen rest = .ok claims ↔ claims = seen ++ rest ∧ (seen ++ rest).Apart
  := by
  induction rest generalizing seen with
  | nil =>
      rw [newFrom, List.append_nil, Except.ok.injEq]
      exact ⟨fun h => ⟨h.symm, hseen⟩, fun h => h.1.symm⟩
  | cons e rest ih =>
      obtain ⟨claim, holder⟩ := e
      rw [newFrom]
      cases hfind : seen.find? fun e => e.1 = claim with
      | some first =>
          have hmem : claim ∈ seen.map Prod.fst := by
            by_contra hnot
            rw [(find?_eq_none_iff seen claim).mpr hnot] at hfind
            exact absurd hfind (by simp)
          refine ⟨fun h => absurd h (by simp), ?_⟩
          rintro ⟨-, happart⟩
          rw [Apart, List.map_append, List.nodup_append] at happart
          exact absurd rfl (happart.2.2 claim hmem claim List.mem_cons_self)
      | none =>
          have hnot := (find?_eq_none_iff seen claim).mp hfind
          have hnext : Apart (seen ++ [(claim, holder)]) := by
            rw [Apart, List.map_append, List.nodup_append]
            refine ⟨hseen, List.nodup_singleton _, ?_⟩
            rintro c hc c' hc' rfl
            obtain rfl : c = claim := List.mem_singleton.mp hc'
            exact hnot hc
          have happend : seen ++ [(claim, holder)] ++ rest = seen ++ (claim, holder) :: rest := by
            rw [List.append_assoc, List.singleton_append]
          rw [← happend]
          exact ih _ hnext

/-- The claims of a set of slots are those of the slots, and none of them is made twice. -/
theorem new_eq_ok (peers claims : SlotClaims) :
  new peers = .ok claims ↔ claims = peers ∧ peers.Apart
  := newFrom_eq_ok [] peers claims List.nodup_nil

theorem admits_eq_ok (held incoming : SlotClaims) :
  held.admits incoming = .ok () ↔ held.Disjoint incoming
  := by
  induction incoming with
  | nil => exact ⟨fun _ => fun _ h => absurd h List.not_mem_nil, fun _ => rfl⟩
  | cons e rest ih =>
      obtain ⟨claim, holder⟩ := e
      rw [admits, Disjoint, List.map_cons, List.forall_mem_cons, ← Disjoint, ← ih,
        ← find?_eq_none_iff]
      cases held.find? fun e => e.1 = claim with
      | some first => simp
      | none => simp

end SlotClaims

/-- The claims of a slot. -/
def PeerSlotSpec.claims (spec : PeerSlotSpec) : SlotClaims :=
  spec.devices.map (fun dev => (.device dev, spec.label))
    ++ if spec.defaultRoute then [(.defaultRoute, spec.label)] else []

/-- The claims of slots, in the order of the slots. -/
def peerClaims (slots : List PeerSlot) : SlotClaims :=
  slots.flatMap fun slot => slot.spec.claims

/-- What the body claims while it runs. -/
def RunMode.claims : RunMode → SlotClaims
  | .idle | .forwards | .offline => []
  | .device (.tun cfg) =>
      (.device cfg.name, "the server session body")
        :: if cfg.exit then [(.defaultRoute, "the server session body")] else []
  | .device (.tap cfg) =>
      (.device cfg.name, "the server session body")
        :: cfg.bridge.toList.map fun nic => (.device nic, "the server session body")
  | .pppoe _ config =>
      (.device config.tunName, "the server session body")
        :: if config.defaultRoute then [(.defaultRoute, "the server session body")] else []

/-! ### Identities -/

/-- Two slots have one identity: consumers of one capability of one peer, or providers of one
capability. -/
def PeerSlotSpec.clashes (spec other : PeerSlotSpec) : Bool :=
  match spec.consumerKey, other.consumerKey with
  | some a, some b => a = b
  | none, none => spec.provides = other.provides
  | _, _ => false

/-- The number of capabilities that a byte announces. -/
def countOnes (bits : UInt8) : ℕ :=
  ((List.range 8).filter fun i => bits.toNat.testBit i).length

/-- Refuse slots whose identities collide, or a provider of other than one capability.  The slots
before the current one are in `held`. -/
def checkFrom (held : List PeerSlot) : List PeerSlot → Except String Unit
  | [] => .ok ()
  | slot :: rest =>
      if slot.spec.consumerKey = none ∧ countOnes slot.spec.provides ≠ 1 then
        .error ("a peer provider serves one capability; this one announces "
          ++ toString (countOnes slot.spec.provides))
      else if ∃ other ∈ held, slot.spec.clashes other.spec then
        .error (slot.spec.label ++ " is configured twice")
      else checkFrom (held ++ [slot]) rest

def checkSlotIdentities (slots : List PeerSlot) : Except String Unit :=
  checkFrom [] slots

/-- A provider serves one capability. -/
def PeerSlotSpec.Single (spec : PeerSlotSpec) : Prop :=
  spec.consumerKey = none → countOnes spec.provides = 1

instance (spec : PeerSlotSpec) : Decidable spec.Single :=
  inferInstanceAs (Decidable (_ → _))

/-- Every slot has an identity of its own. -/
def Distinct (slots : List PeerSlot) : Prop :=
  slots.Pairwise fun slot other => ¬ other.spec.clashes slot.spec

instance (slots : List PeerSlot) : Decidable (Distinct slots) :=
  inferInstanceAs (Decidable (List.Pairwise _ _))

theorem checkFrom_eq_ok (held rest : List PeerSlot) (hheld : Distinct held) :
  checkFrom held rest = .ok ()
    ↔ (∀ slot ∈ rest, slot.spec.Single) ∧ Distinct (held ++ rest)
  := by
  induction rest generalizing held with
  | nil =>
      rw [List.append_nil]
      exact ⟨fun _ => ⟨fun _ h => absurd h List.not_mem_nil, hheld⟩, fun _ => rfl⟩
  | cons slot rest ih =>
      have happend : held ++ [slot] ++ rest = held ++ slot :: rest := by
        rw [List.append_assoc, List.singleton_append]
      rw [checkFrom]
      split
      · rename_i hprovider
        refine ⟨fun h => absurd h (by simp), ?_⟩
        rintro ⟨hsingle, -⟩
        exact absurd (hsingle slot List.mem_cons_self hprovider.1) hprovider.2
      · rename_i hprovider
        have hslot : slot.spec.Single := by
          intro hkey
          by_contra hones
          exact hprovider ⟨hkey, hones⟩
        split
        · rename_i hclash
          obtain ⟨other, hother, hclash⟩ := hclash
          refine ⟨fun h => absurd h (by simp), ?_⟩
          rintro ⟨-, hdistinct⟩
          exact absurd hclash
            ((List.pairwise_append.mp hdistinct).2.2 other hother slot List.mem_cons_self)
        · rename_i hclash
          have hnext : Distinct (held ++ [slot]) := by
            apply List.pairwise_append.mpr
            refine ⟨hheld, List.pairwise_singleton _ _, ?_⟩
            intro other hother slot' hslot'
            rw [List.mem_singleton.mp hslot']
            exact fun h => hclash ⟨other, hother, h⟩
          rw [ih _ hnext, happend, List.forall_mem_cons]
          exact ⟨fun h => ⟨⟨hslot, h.1⟩, h.2⟩, fun h => ⟨h.1.2, h.2⟩⟩

theorem checkSlotIdentities_eq_ok (slots : List PeerSlot) :
  checkSlotIdentities slots = .ok () ↔ (∀ slot ∈ slots, slot.spec.Single) ∧ Distinct slots
  := checkFrom_eq_ok [] slots List.Pairwise.nil

end ZeroNat.Client

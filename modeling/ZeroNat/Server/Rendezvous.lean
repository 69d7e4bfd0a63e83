import ZeroNat.Server.State

/-!
# The rendezvous of peers

A client that has proved a peer identity may ask to be paired with another.  The server keeps
the pairs it has accepted, and two tables of ids that it has handed to the parties of a pair,
each to be presented once on a data channel: the probes, by which a party learns its own
public address, and the legs of a relay.  All ids are drawn from one counter.

A function of this module is what one holder of the locks does at a time.  What it leaves to
be done after the locks are released is returned.
-/

namespace ZeroNat

/-- How far a party of a pair is. -/
structure PartyProbe where
  probeId : Option ℕ
  candidates : Option (List SocketAddr)
  path : Option PathStatus
deriving DecidableEq

def PartyProbe.default : PartyProbe where
  probeId := none
  candidates := none
  path := none

/-- An id that was handed to a client for a pair, and the capability to present with it. -/
structure Claim where
  pairId : ℕ
  clientId : String
  capability : Capability
deriving DecidableEq

/-- A data channel that was claimed as a leg of a relay: the client it authenticated as, and
the id it presented. -/
structure RelayLeg where
  clientId : String
  id : ℕ
deriving DecidableEq

/-- The progress of a relay. -/
inductive RelayState where
  /-- Both ids are out. -/
  | opened
  /-- One leg has arrived. -/
  | parked (leg : RelayLeg)
  /-- Both legs are in. -/
  | spliced
deriving DecidableEq

structure Relay where
  legs : ℕ × ℕ
  state : RelayState
deriving DecidableEq

/-- An accepted pair. -/
structure Pair where
  consumerId : String
  providerId : String
  want : UInt8
  challenge : Capability
  consumer : PartyProbe
  provider : PartyProbe
  infoSent : Bool
  relay : Option Relay
deriving DecidableEq

/-- The tables of the rendezvous, with the registry of the clients and the counter of ids. -/
structure Rendezvous where
  clients : Table String ClientHandle
  known : List PeerIdentity
  pairs : Table ℕ Pair
  probes : Table ℕ Claim
  relayLegs : Table ℕ Claim
  nextId : ℕ

/-- A frame for a control channel. -/
structure Post where
  tx : ℕ
  msg : Msg
deriving DecidableEq

/-- Claim an id for a client, and return its pair and the claims that are left. -/
def takeClaim (claims : Table ℕ Claim) (id : ℕ) (clientId : String) (capability : Capability) :
    Option (ℕ × Table ℕ Claim) :=
  match claims.lookup id with
  | none => none
  | some claim =>
      if clientId = claim.clientId ∧ capability = claim.capability then
        some (claim.pairId, claims.erase id)
      else none

namespace Pair

/-- The probe ids of the parties of a pair. -/
def probeIds (p : Pair) : List ℕ :=
  p.consumer.probeId.toList ++ p.provider.probeId.toList

/-- The ids of the legs of the relay of a pair. -/
def legIds (p : Pair) : List ℕ :=
  match p.relay with
  | none => []
  | some r => [r.legs.1, r.legs.2]

/-- Both parties have settled. -/
def Settled (p : Pair) : Prop :=
  p.consumer.candidates ≠ none ∧ p.provider.candidates ≠ none

instance : DecidablePred Settled := fun _ => inferInstanceAs (Decidable (_ ∧ _))

/-- A client is a party of the pair. -/
def Joins (p : Pair) (clientId : String) : Prop :=
  p.consumerId = clientId ∨ p.providerId = clientId

instance (p : Pair) : DecidablePred p.Joins := fun _ => inferInstanceAs (Decidable (_ ∨ _))

end Pair

namespace Rendezvous

/-- Drop the probe ids that a removed pair owned. -/
def forgetProbes (s : Rendezvous) (p : Pair) : Rendezvous :=
  { s with probes := p.probeIds.foldl (fun t id => t.erase id) s.probes }

/-- Drop the ids of the legs that a removed pair owned. -/
def forgetLegs (s : Rendezvous) (p : Pair) : Rendezvous :=
  { s with relayLegs := p.legIds.foldl (fun t id => t.erase id) s.relayLegs }

def forgetPairIds (s : Rendezvous) (p : Pair) : Rendezvous :=
  (s.forgetProbes p).forgetLegs p

/-- Remove every pair that a client is a party of. -/
def invalidatePairs (s : Rendezvous) (clientId : String) : Rendezvous × List Pair :=
  ({ s with pairs := s.pairs.retain fun _ p => ¬ p.Joins clientId },
    (s.pairs.toList.map Prod.snd).filter fun p => p.Joins clientId)

/-- The live client that holds a peer identity. -/
def holder (s : Rendezvous) (identity : PeerIdentity) : Option (String × ClientHandle) :=
  s.clients.toList.find? fun e => e.2.peerIdentity = some identity

/-- The consumer, the provider and the capability of a pair. -/
def Same (consumerId providerId : String) (want : UInt8) (p : Pair) : Prop :=
  p.consumerId = consumerId ∧ p.providerId = providerId ∧ p.want = want

instance (consumerId providerId : String) (want : UInt8) :
    DecidablePred (Same consumerId providerId want) :=
  fun _ => inferInstanceAs (Decidable (_ ∧ _))

/-- Drop the pairs of a consumer for the peer and the capability it is asking for again, with
the ids they owned. -/
def dropReplaced (s : Rendezvous) (consumerId providerId : String) (want : UInt8) : Rendezvous :=
  let replaced := (s.pairs.toList.map Prod.snd).filter fun p => Same consumerId providerId want p
  let s' := { s with pairs := s.pairs.retain fun _ p => ¬ Same consumerId providerId want p }
  replaced.foldl forgetPairIds s'

/-- An exit serves one consumer. -/
def Busy (s : Rendezvous) (providerId : String) (want : UInt8) : Prop :=
  want = providesExit ∧ ∃ e ∈ s.pairs.toList, e.2.providerId = providerId ∧ e.2.want = want

instance (s : Rendezvous) (providerId : String) (want : UInt8) :
    Decidable (s.Busy providerId want) :=
  inferInstanceAs (Decidable (_ ∧ _))

/-- Put a pair that was accepted into the table. -/
def accept (s : Rendezvous) (consumerId providerId : String) (want : UInt8)
    (challenge : Capability) : Rendezvous :=
  { s with
    pairs := s.pairs.insert s.nextId
      ⟨consumerId, providerId, want, challenge, .default, .default, false, none⟩
    nextId := s.nextId + 1 }

/-- The last part of a request to pair: the table of pairs is locked, and the provider is
known. -/
def connect (s : Rendezvous) (consumerId providerId : String) (want : UInt8)
    (challenge : Option Capability) : Rendezvous × Option (ℕ × PeerStatus) :=
  let s := s.dropReplaced consumerId providerId want
  if s.Busy providerId want then (s, some (0, .peerBusy))
  else
    match challenge with
    | none => ({ s with nextId := s.nextId + 1 }, some (0, .serverFailure))
    | some challenge =>
        (s.accept consumerId providerId want challenge, some (s.nextId, .accepted))

/-- Resolve the request of a consumer to be paired.  `closed` says which control channels have
lost their reader, and `challenge` is what the random source yields. -/
def peerConnect (s : Rendezvous) (consumerId : String) (consumerTx : ℕ) (provider : PeerIdentity)
    (want : UInt8) (closed : ℕ → Bool) (challenge : Option Capability) :
    Rendezvous × Option (ℕ × PeerStatus) :=
  match s.clients.lookup consumerId with
  | none => (s, none)
  | some consumer =>
      if consumer.tx ≠ consumerTx ∨ consumer.peerProvides = none then (s, none)
      else if consumer.peerIdentity = some provider then (s, some (0, .unknownPeer))
      else
        match s.holder provider with
        | none => (s, some (0, if provider ∈ s.known then .peerOffline else .unknownPeer))
        | some (providerId, handle) =>
            if closed handle.tx then (s, some (0, .peerOffline))
            else if handle.peerProvides.all fun p => p &&& want = 0 then
              (s, some (0, .notProvided))
            else s.connect consumerId providerId want challenge

/-- The entry of a client after another, or it itself, has proved an identity. -/
def claimed (clientId : String) (provides : UInt8) (identity : PeerIdentity) (id : String)
    (h : ClientHandle) : ClientHandle :=
  if id = clientId then { h with peerProvides := some provides, peerIdentity := some identity }
  else if h.peerIdentity = some identity then { h with peerProvides := none, peerIdentity := none }
  else h

/-- Record an identity that a client has proved: its entry has the claim, and no other entry
has that identity.  The entries that lost it are returned.  Nothing is recorded for a session
that has lost its slot. -/
def recordPeerClaim (s : Rendezvous) (clientId : String) (tx : ℕ) (provides : UInt8)
    (identity : PeerIdentity) : Option (Rendezvous × List (String × ClientHandle)) :=
  if Owned s.clients clientId tx then
    some ({ s with clients := s.clients.mapValues (claimed clientId provides identity) },
      s.clients.toList.filter fun e => e.1 ≠ clientId ∧ e.2.peerIdentity = some identity)
  else none

/-- Send a party of a fresh pair its probe, when it and its peer have announced.  A party on a
stream transport never probes and settles at once. -/
def probeParty (s : Rendezvous) (pairId : ℕ) (pair : Pair) (id peerId : String)
    (party : PartyProbe) (capability : Option Capability) :
    Rendezvous × PartyProbe × List Post :=
  match s.clients.lookup id, (s.clients.lookup peerId).bind ClientHandle.peerIdentity with
  | some h, some peerIdentity =>
      if h.peerProvides = none then (s, party, [])
      else
        let probeId := s.nextId
        let s := { s with nextId := s.nextId + 1 }
        let probe (capability : Capability) : Post :=
          ⟨h.tx, .peerProbe (.ofNat pairId) peerIdentity (.ofNat probeId) capability
            pair.challenge pair.want⟩
        match h.transport, capability with
        | .tcp, _ => (s, { party with candidates := some [] }, [probe (Bytes.zero 32)])
        | .udp, none => (s, party, [])
        | .udp, some capability =>
            ({ s with probes := s.probes.insert probeId ⟨pairId, id, capability⟩ },
              { party with probeId := some probeId }, [probe capability])
  | _, _ => (s, party, [])

/-- Start to find the candidates of a pair.  Returned are the frames to send and whether both
parties have settled, when there is the pair. -/
def startPairProbes (s : Rendezvous) (pairId : ℕ) (forConsumer forProvider : Option Capability) :
    Rendezvous × List Post × Option Bool :=
  match s.pairs.lookup pairId with
  | none => (s, [], none)
  | some pair =>
      let (s, consumer, first) :=
        s.probeParty pairId pair pair.consumerId pair.providerId pair.consumer forConsumer
      let (s, provider, second) :=
        s.probeParty pairId pair pair.providerId pair.consumerId pair.provider forProvider
      let pair := { pair with consumer := consumer, provider := provider }
      ({ s with pairs := s.pairs.insert pairId pair }, first ++ second,
        some (decide pair.Settled))

/-- Record the candidates of a party that has probed.  Returned is the pair, when both parties
have settled and have not been told. -/
def settleProbeForPair (s : Rendezvous) (pairId probeId : ℕ) (candidates : List SocketAddr) :
    Rendezvous × Option ℕ :=
  let settle (pair : Pair) : Rendezvous × Option ℕ :=
    ({ s with pairs := s.pairs.insert pairId pair },
      if ¬ pair.infoSent ∧ pair.Settled then some pairId else none)
  match s.pairs.lookup pairId with
  | none => (s, none)
  | some pair =>
      if pair.consumer.probeId = some probeId then
        if pair.consumer.candidates = none then
          settle { pair with consumer := { pair.consumer with candidates := some candidates } }
        else (s, none)
      else if pair.provider.probeId = some probeId then
        if pair.provider.candidates = none then
          settle { pair with provider := { pair.provider with candidates := some candidates } }
        else (s, none)
      else (s, none)

/-- What the parties of a pair are told. -/
structure Info where
  pairId : ℕ
  consumerId : String
  providerId : String
  consumerCandidates : List SocketAddr
  providerCandidates : List SocketAddr
deriving DecidableEq

/-- Mark a pair as reported, once, and clear its probe ids. -/
def finishPair (s : Rendezvous) (pairId : ℕ) : Rendezvous × Option Info :=
  match s.pairs.lookup pairId with
  | none => (s, none)
  | some pair =>
      if pair.infoSent then (s, none)
      else
        (({ s with pairs := s.pairs.insert pairId { pair with infoSent := true } } :
            Rendezvous).forgetProbes pair,
          some ⟨pairId, pair.consumerId, pair.providerId, pair.consumer.candidates.getD [],
            pair.provider.candidates.getD []⟩)

/-- A frame for a client that has announced. -/
def postAnnounced (s : Rendezvous) (id : String) (msg : Msg) : List Post :=
  match s.clients.lookup id with
  | none => []
  | some h => if h.peerProvides = none then [] else [⟨h.tx, msg⟩]

/-- Tell each party of a pair the candidates of the other. -/
def inform (s : Rendezvous) (i : Info) : List Post :=
  s.postAnnounced i.consumerId (.peerInfo (.ofNat i.pairId) i.providerCandidates)
    ++ s.postAnnounced i.providerId (.peerInfo (.ofNat i.pairId) i.consumerCandidates)

/-- Open the relay of a pair: an id for each party. -/
def openRelay (s : Rendezvous) (pairId : ℕ) (pair : Pair)
    (forConsumer forProvider : Capability) : Rendezvous × List Post :=
  let consumerLeg := s.nextId
  let providerLeg := s.nextId + 1
  let legs := (s.relayLegs.insert consumerLeg ⟨pairId, pair.consumerId, forConsumer⟩).insert
    providerLeg ⟨pairId, pair.providerId, forProvider⟩
  ({ s with
      pairs := s.pairs.insert pairId
        { pair with relay := some ⟨(consumerLeg, providerLeg), .opened⟩ }
      relayLegs := legs
      nextId := s.nextId + 2 },
    s.postAnnounced pair.consumerId
        (.peerRelayOpen (.ofNat pairId) (.ofNat consumerLeg) forConsumer)
      ++ s.postAnnounced pair.providerId
        (.peerRelayOpen (.ofNat pairId) (.ofNat providerLeg) forProvider))

/-- A pair after a party has reported its path, when it is one and has not reported before. -/
def reported (pair : Pair) (clientId : String) (status : PathStatus) : Option Pair :=
  if pair.consumerId = clientId then
    if pair.consumer.path = none then
      some { pair with consumer := { pair.consumer with path := some status } }
    else none
  else if pair.providerId = clientId then
    if pair.provider.path = none then
      some { pair with provider := { pair.provider with path := some status } }
    else none
  else none

/-- Record the path that a party reports, and open the relay on the first report of one.
Returned are the frames to send and whether the relay was opened. -/
def peerPath (s : Rendezvous) (clientId : String) (tx : ℕ) (pairId : ℕ) (status : PathStatus)
    (forConsumer forProvider : Option Capability) : Rendezvous × List Post × Bool :=
  match s.clients.lookup clientId, s.pairs.lookup pairId with
  | some h, some pair =>
      if h.tx ≠ tx ∨ h.peerProvides = none then (s, [], false)
      else
        match reported pair clientId status with
        | none => (s, [], false)
        | some pair =>
            let s := { s with pairs := s.pairs.insert pairId pair }
            if status = .relay ∧ pair.relay = none then
              match forConsumer, forProvider with
              | some forConsumer, some forProvider =>
                  let (s, posts) := s.openRelay pairId pair forConsumer forProvider
                  (s, posts, true)
              | _, _ => ({ s with nextId := s.nextId + 2 }, [], false)
            else (s, [], false)
  | _, _ => (s, [], false)

/-- Remove a pair, and return it. -/
def removePair (s : Rendezvous) (pairId : ℕ) : Rendezvous × Option Pair :=
  ({ s with pairs := s.pairs.erase pairId }, s.pairs.lookup pairId)

/-- Remove a pair whose relay opened and was never spliced. -/
def reapUnclaimedRelay (s : Rendezvous) (pairId : ℕ) : Rendezvous × Option Pair :=
  match (s.pairs.lookup pairId).bind Pair.relay with
  | none => (s, none)
  | some relay => if relay.state = .spliced then (s, none) else s.removePair pairId

/-- Park a leg that was claimed for a pair, and splice it with the one that is parked. -/
def parkRelayLeg (s : Rendezvous) (pairId : ℕ) (leg : RelayLeg) :
    Rendezvous × Option (RelayLeg × RelayLeg) :=
  let setState (pair : Pair) (relay : Relay) (state : RelayState) : Rendezvous :=
    { s with
      pairs := s.pairs.insert pairId { pair with relay := some { relay with state := state } } }
  match s.pairs.lookup pairId with
  | none => (s, none)
  | some pair =>
      match pair.relay with
      | none => (s, none)
      | some relay =>
          match relay.state with
          | .opened => (setState pair relay (.parked leg), none)
          | .parked first => (setState pair relay .spliced, some (first, leg))
          | .spliced => (s, none)

/-! ### The registry

Of the functions above, only `recordPeerClaim` changes the registry, and frames go only to
clients that have announced. -/

section Registry

variable {s : Rendezvous} {pairId : ℕ}

@[simp]
theorem clients_forgetProbes (s : Rendezvous) (p : Pair) :
  (s.forgetProbes p).clients = s.clients
  := rfl

@[simp]
theorem clients_forgetLegs (s : Rendezvous) (p : Pair) :
  (s.forgetLegs p).clients = s.clients
  := rfl

@[simp]
theorem clients_forgetPairIds (s : Rendezvous) (p : Pair) :
  (s.forgetPairIds p).clients = s.clients
  := rfl

@[simp]
theorem clients_invalidatePairs (s : Rendezvous) (clientId : String) :
  (s.invalidatePairs clientId).1.clients = s.clients
  := rfl

theorem clients_foldl_forget (l : List Pair) (s : Rendezvous) :
  (l.foldl forgetPairIds s).clients = s.clients
  := by
  induction l generalizing s with
  | nil => rfl
  | cons p l ih => exact (ih _).trans (clients_forgetPairIds s p)

@[simp]
theorem clients_dropReplaced (s : Rendezvous) (consumerId providerId : String) (want : UInt8) :
  (s.dropReplaced consumerId providerId want).clients = s.clients
  := clients_foldl_forget _ _

@[simp]
theorem clients_connect (s : Rendezvous) (consumerId providerId : String) (want : UInt8)
    (challenge : Option Capability) :
  (s.connect consumerId providerId want challenge).1.clients = s.clients
  := by
  unfold connect
  dsimp only
  split
  · exact clients_dropReplaced s consumerId providerId want
  · cases challenge <;> exact clients_dropReplaced s consumerId providerId want

@[simp]
theorem clients_peerConnect (s : Rendezvous) (consumerId : String) (consumerTx : ℕ)
    (provider : PeerIdentity) (want : UInt8) (closed : ℕ → Bool)
    (challenge : Option Capability) :
  (s.peerConnect consumerId consumerTx provider want closed challenge).1.clients = s.clients
  := by
  rw [peerConnect]
  split
  · rfl
  · split
    · rfl
    · split
      · rfl
      · split
        · rfl
        · split
          · rfl
          · split
            · rfl
            · exact clients_connect _ _ _ _ _

/-- A client that has announced holds the channel. -/
def Announced (s : Rendezvous) (tx : ℕ) : Prop :=
  ∃ id h, s.clients.lookup id = some h ∧ h.peerProvides ≠ none ∧ h.tx = tx

theorem announced_of_postAnnounced {id : String} {msg : Msg} {p : Post}
    (hp : p ∈ s.postAnnounced id msg) :
  s.Announced p.tx
  := by
  rw [postAnnounced] at hp
  split at hp
  · simp at hp
  · rename_i h hid
    split at hp
    · simp at hp
    · rename_i hprovides
      obtain rfl := List.mem_singleton.mp hp
      exact ⟨id, h, hid, hprovides, rfl⟩

theorem announced_of_inform {i : Info} {p : Post} (hp : p ∈ s.inform i) :
  s.Announced p.tx
  := by
  obtain hp | hp := List.mem_append.mp hp <;> exact announced_of_postAnnounced hp

/-- What sending a party its probe does. -/
theorem probeParty_spec (s : Rendezvous) (pairId : ℕ) (pair : Pair) (id peerId : String)
    (party : PartyProbe) (capability : Option Capability) :
  (s.probeParty pairId pair id peerId party capability).1.clients = s.clients
    ∧ ∀ p ∈ (s.probeParty pairId pair id peerId party capability).2.2, s.Announced p.tx
  := by
  rw [probeParty]
  split
  · rename_i h peerIdentity hid _
    split
    · exact ⟨rfl, by simp⟩
    · rename_i hprovides
      dsimp only
      have hself : s.Announced h.tx := ⟨id, h, hid, hprovides, rfl⟩
      split
      · exact ⟨rfl, by simp [hself]⟩
      · exact ⟨rfl, by simp⟩
      · exact ⟨rfl, by simp [hself]⟩
  · exact ⟨rfl, by simp⟩

theorem startPairProbes_spec (s : Rendezvous) (pairId : ℕ)
    (forConsumer forProvider : Option Capability) :
  (s.startPairProbes pairId forConsumer forProvider).1.clients = s.clients
    ∧ ∀ p ∈ (s.startPairProbes pairId forConsumer forProvider).2.1, s.Announced p.tx
  := by
  rw [startPairProbes]
  split
  · exact ⟨rfl, by simp⟩
  · rename_i pair hpair
    have hfirst :=
      s.probeParty_spec pairId pair pair.consumerId pair.providerId pair.consumer forConsumer
    generalize s.probeParty pairId pair pair.consumerId pair.providerId pair.consumer
      forConsumer = r at hfirst ⊢
    obtain ⟨s₁, consumer, first⟩ := r
    have hsecond :=
      s₁.probeParty_spec pairId pair pair.providerId pair.consumerId pair.provider forProvider
    dsimp only
    generalize s₁.probeParty pairId pair pair.providerId pair.consumerId pair.provider
      forProvider = r at hsecond ⊢
    obtain ⟨s₂, provider, second⟩ := r
    dsimp only at hfirst hsecond ⊢
    refine ⟨hsecond.1.trans hfirst.1, ?_⟩
    intro p hp
    obtain hp | hp := List.mem_append.mp hp
    · exact hfirst.2 p hp
    · obtain ⟨id, h, hid, hannounced⟩ := hsecond.2 p hp
      exact ⟨id, h, hfirst.1 ▸ hid, hannounced⟩

@[simp]
theorem clients_settleProbeForPair (s : Rendezvous) (pairId probeId : ℕ)
    (candidates : List SocketAddr) :
  (s.settleProbeForPair pairId probeId candidates).1.clients = s.clients
  := by
  rw [settleProbeForPair]
  dsimp only
  split
  · rfl
  · split
    · split <;> rfl
    · split
      · split <;> rfl
      · rfl

@[simp]
theorem clients_finishPair (s : Rendezvous) (pairId : ℕ) :
  (s.finishPair pairId).1.clients = s.clients
  := by
  rw [finishPair]
  split
  · rfl
  · split <;> rfl

@[simp]
theorem clients_reapUnclaimedRelay (s : Rendezvous) (pairId : ℕ) :
  (s.reapUnclaimedRelay pairId).1.clients = s.clients
  := by
  rw [reapUnclaimedRelay]
  split
  · rfl
  · split <;> rfl

@[simp]
theorem clients_parkRelayLeg (s : Rendezvous) (pairId : ℕ) (leg : RelayLeg) :
  (s.parkRelayLeg pairId leg).1.clients = s.clients
  := by
  rw [parkRelayLeg]
  dsimp only
  split
  · rfl
  · split
    · rfl
    · split <;> rfl

theorem peerPath_spec (s : Rendezvous) (clientId : String) (tx pairId : ℕ) (status : PathStatus)
    (forConsumer forProvider : Option Capability) :
  (s.peerPath clientId tx pairId status forConsumer forProvider).1.clients = s.clients
    ∧ ∀ p ∈ (s.peerPath clientId tx pairId status forConsumer forProvider).2.1,
        s.Announced p.tx
  := by
  rw [peerPath]
  split
  · split
    · exact ⟨rfl, by simp⟩
    · split
      · exact ⟨rfl, by simp⟩
      · dsimp only
        split
        · split
          · refine ⟨rfl, ?_⟩
            intro p hp
            obtain hp | hp := List.mem_append.mp hp <;> exact announced_of_postAnnounced hp
          · exact ⟨rfl, by simp⟩
        · exact ⟨rfl, by simp⟩
  · exact ⟨rfl, by simp⟩

end Registry

end Rendezvous

end ZeroNat

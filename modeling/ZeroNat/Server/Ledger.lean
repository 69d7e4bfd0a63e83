import Mathlib.Data.Multiset.Filter
import ZeroNat.Server.Broker

/-!
# The books of the rendezvous

The tables of the rendezvous with what the tasks of the server have still to do to them.  The
order in which tasks run does not matter here, so that what they have to do is a bag.  Of the
things to do only three change what an id stands for: to start the probes of a pair, to park a
leg that was claimed, and to park a public flow.

The books are in order when every id has been drawn for one table, every claim is in the slot of
the party that it was issued to, and a leg that was claimed is parked once.
-/

namespace ZeroNat

/-- The tables that ids are kept in. -/
inductive IdTable where
  | pending
  | udpPending
  | probes
  | relayLegs
  | pairs
deriving DecidableEq

/-- The table that a public flow is parked in. -/
def ClaimTable.ids : ClaimTable → IdTable
  | .stream => .pending
  | .udp => .udpPending

namespace Errand

/-- The pair whose probes are to be started. -/
def starts : Errand → Option ℕ
  | startProbes pairId => some pairId
  | _ => none

/-- The leg that is to be parked. -/
def parks : Errand → Option ℕ
  | parkLeg _ leg => some leg.id
  | _ => none

/-- The errand is one of those that change what an id stands for. -/
def Weighs : Errand → Prop
  | startProbes _ => True
  | parkLeg _ _ => True
  | park _ _ => True
  | _ => False

instance : DecidablePred Weighs := fun e =>
  match e with
  | startProbes _ | parkLeg _ _ | park _ _ => isTrue trivial
  | ack _ | invalidate _ | forgetProbes _ | forgetLegs _ | know _ | post _ | armFinish _
  | finish _ | inform _ | settle _ _ _ | armReap _ | reap _ | endRelay _ | number _ _ _ _ _
  | request _ => isFalse id

end Errand

namespace BrokerEvent

def claimedId : BrokerEvent → Option ℕ
  | claimed id _ _ _ => some id
  | _ => none

def informedId : BrokerEvent → Option ℕ
  | informed pairId => some pairId
  | _ => none

def splicedId : BrokerEvent → Option ℕ
  | spliced pairId _ _ => some pairId
  | _ => none

/-- The ids that an event is about have been drawn. -/
def Below (n : ℕ) : BrokerEvent → Prop
  | accepted pairId _ _ => pairId < n
  | informed pairId => pairId < n
  | claimed id _ _ _ => id < n
  | spliced pairId _ _ => pairId < n
  | invalidated _ _ => True

end BrokerEvent

/-- The leg is that of the consumer or that of the provider of a pair. -/
def Pair.OwnsLeg (p : Pair) (r : Relay) (leg : RelayLeg) : Prop :=
  leg.id = r.legs.1 ∧ leg.clientId = p.consumerId
    ∨ leg.id = r.legs.2 ∧ leg.clientId = p.providerId

/-- The books: the tables, what has happened, what is to be done, and the clients of the
sessions. -/
structure Ledger where
  rv : Rendezvous
  pending : ClaimTable → List ℕ
  log : List BrokerEvent
  duties : Multiset Errand
  accounts : List String

namespace Ledger

/-- An id is in a table. -/
def Live (l : Ledger) : IdTable → ℕ → Prop
  | .pending, id => id ∈ l.pending .stream
  | .udpPending, id => id ∈ l.pending .udp
  | .probes, id => l.rv.probes.lookup id ≠ none
  | .relayLegs, id => l.rv.relayLegs.lookup id ≠ none
  | .pairs, id => l.rv.pairs.lookup id ≠ none

/-- An id was drawn for a public flow that is not parked yet. -/
def Coming (l : Ledger) (t : IdTable) (id : ℕ) : Prop :=
  ∃ table : ClaimTable, table.ids = t ∧ Errand.park table id ∈ l.duties

/-- A leg of a pair was claimed. -/
def Claimed (log : List BrokerEvent) (pairId : ℕ) (leg : RelayLeg) : Prop :=
  ∃ claim capability, BrokerEvent.claimed leg.id claim leg.clientId capability ∈ log
    ∧ claim.pairId = pairId

/-- The pairs are those of different clients, an exit has one consumer, and a consumer has one
pair for each provider and capability. -/
structure Matched (pairs : Table ℕ Pair) : Prop where
  distinct : ∀ i p, pairs.lookup i = some p → p.consumerId ≠ p.providerId
  exclusive : ∀ i j p q, pairs.lookup i = some p → pairs.lookup j = some q →
    p.want = providesExit → q.want = providesExit → p.providerId = q.providerId → i = j
  single : ∀ i j p q, pairs.lookup i = some p → pairs.lookup j = some q →
    p.consumerId = q.consumerId → p.providerId = q.providerId → p.want = q.want → i = j

/-- A peer identity is held by one client. -/
def Identified (clients : Table String ClientHandle) : Prop :=
  ∀ a b g h identity, clients.lookup a = some g → clients.lookup b = some h →
    g.peerIdentity = some identity → h.peerIdentity = some identity → a = b

/-- Every id was drawn from the counter, for one table. -/
structure Drawn (l : Ledger) : Prop where
  used : ∃ use : ℕ → IdTable, ∀ t id, l.Live t id ∨ l.Coming t id →
    id < l.rv.nextId ∧ use id = t
  probes : ∀ id c, l.rv.probes.lookup id = some c → c.pairId < l.rv.nextId
  legs : ∀ id c, l.rv.relayLegs.lookup id = some c → c.pairId < l.rv.nextId
  starts : ∀ i, Errand.startProbes i ∈ l.duties → i < l.rv.nextId
  parks : ∀ i leg, Errand.parkLeg i leg ∈ l.duties → i < l.rv.nextId
  log : ∀ e ∈ l.log, e.Below l.rv.nextId

/-- The claim of a probe is in the slot of its party, and a pair has none before its probes are
started. -/
structure Probing (rv : Rendezvous) (duties : Multiset Errand) : Prop where
  fits : ∀ id c p, rv.probes.lookup id = some c → rv.pairs.lookup c.pairId = some p →
    p.consumer.probeId = some id ∧ c.clientId = p.consumerId
      ∨ p.provider.probeId = some id ∧ c.clientId = p.providerId
  unstarted : ∀ id c, rv.probes.lookup id = some c → Errand.startProbes c.pairId ∉ duties
  once : (duties.filterMap Errand.starts).Nodup

/-- What has been claimed is not to be claimed again. -/
structure Consumed (rv : Rendezvous) (log : List BrokerEvent) : Prop where
  once : (log.filterMap BrokerEvent.claimedId).Nodup
  gone : ∀ id ∈ log.filterMap BrokerEvent.claimedId,
    rv.probes.lookup id = none ∧ rv.relayLegs.lookup id = none
  own : ∀ id claim clientId capability, .claimed id claim clientId capability ∈ log →
    clientId = claim.clientId ∧ capability = claim.capability

/-- The claim of a leg is in the slot of its party, and a leg that was claimed is on its way to
be parked, or is parked. -/
structure Relaying (rv : Rendezvous) (duties : Multiset Errand) (log : List BrokerEvent) :
    Prop where
  fits : ∀ id c p, rv.relayLegs.lookup id = some c → rv.pairs.lookup c.pairId = some p →
    ∃ r, p.relay = some r ∧ p.OwnsLeg r ⟨c.clientId, id⟩
  apart : ∀ i p r, rv.pairs.lookup i = some p → p.relay = some r → r.legs.1 ≠ r.legs.2
  claimed : ∀ i leg, Errand.parkLeg i leg ∈ duties → Claimed log i leg
  owned : ∀ i leg p, Errand.parkLeg i leg ∈ duties → rv.pairs.lookup i = some p →
    ∃ r, p.relay = some r ∧ p.OwnsLeg r leg
  once : (duties.filterMap Errand.parks).Nodup
  parked : ∀ i p r leg, rv.pairs.lookup i = some p → p.relay = some r → r.state = .parked leg →
    p.OwnsLeg r leg ∧ Claimed log i leg ∧ leg.id ∉ duties.filterMap Errand.parks

/-- The parties of a pair are told once. -/
structure Told (pairs : Table ℕ Pair) (log : List BrokerEvent) : Prop where
  once : (log.filterMap BrokerEvent.informedId).Nodup
  sent : ∀ i p, BrokerEvent.informed i ∈ log → pairs.lookup i = some p → p.infoSent = true

/-- The legs of a pair are spliced once. -/
structure Joined (pairs : Table ℕ Pair) (log : List BrokerEvent) : Prop where
  once : (log.filterMap BrokerEvent.splicedId).Nodup
  spliced : ∀ i p, i ∈ log.filterMap BrokerEvent.splicedId → pairs.lookup i = some p →
    ∃ r, p.relay = some r ∧ r.state = .spliced

/-- The pair was accepted for a session of each of two clients. -/
def Accepted (log : List BrokerEvent) (accounts : List String) (pairId : ℕ)
    (consumerId providerId : String) : Prop :=
  ∃ consumerTx providerTx, BrokerEvent.accepted pairId consumerTx providerTx ∈ log
    ∧ accounts[consumerTx]? = some consumerId ∧ accounts[providerTx]? = some providerId

/-- Two legs of a pair that were claimed, by one of its parties each. -/
def Opposite (log : List BrokerEvent) (accounts : List String) (pairId : ℕ)
    (first second : RelayLeg) : Prop :=
  Claimed log pairId first ∧ Claimed log pairId second ∧ first.id ≠ second.id
    ∧ (Accepted log accounts pairId first.clientId second.clientId
      ∨ Accepted log accounts pairId second.clientId first.clientId)

/-- Every pair, and every splice, is that of the parties it was accepted for. -/
structure Attested (l : Ledger) : Prop where
  registered : ∀ id h, l.rv.clients.lookup id = some h → l.accounts[h.tx]? = some id
  pairs : ∀ i p, l.rv.pairs.lookup i = some p →
    Accepted l.log l.accounts i p.consumerId p.providerId
  spliced : ∀ i first second, .spliced i first second ∈ l.log →
    Opposite l.log l.accounts i first second

/-- The books are in order. -/
structure Sound (l : Ledger) : Prop where
  pairs : Matched l.rv.pairs
  clients : Identified l.rv.clients
  drawn : l.Drawn
  probing : Probing l.rv l.duties
  consumed : Consumed l.rv l.log
  relaying : Relaying l.rv l.duties l.log
  told : Told l.rv.pairs l.log
  joined : Joined l.rv.pairs l.log
  attested : l.Attested

/-! ### What fades -/

section Fade

variable {rv rv' : Rendezvous} {pairs pairs' : Table ℕ Pair} {duties duties' : Multiset Errand}
  {log : List BrokerEvent}

/-- Every pair of a table has come from one that was there before. -/
def Traces (R : Pair → Pair → Prop) (pairs pairs' : Table ℕ Pair) : Prop :=
  ∀ i p', pairs'.lookup i = some p' → ∃ p, pairs.lookup i = some p ∧ R p p'

/-- A table has entries of another. -/
def Within (claims' claims : Table ℕ Claim) : Prop :=
  ∀ id c, claims'.lookup id = some c → claims.lookup id = some c

/-- The parties of a pair and its capability. -/
def SameParties (p p' : Pair) : Prop :=
  p'.consumerId = p.consumerId ∧ p'.providerId = p.providerId ∧ p'.want = p.want

/-- A pair goes on, with the probes and the relay it has. -/
structure Like (p p' : Pair) : Prop where
  parties : SameParties p p'
  consumer : p'.consumer.probeId = p.consumer.probeId
  provider : p'.provider.probeId = p.provider.probeId
  relay : p'.relay = p.relay
  sent : p.infoSent = true → p'.infoSent = true

theorem Like.refl (p : Pair) :
  Like p p
  := ⟨⟨rfl, rfl, rfl⟩, rfl, rfl, rfl, id⟩

theorem Traces.imp {R R' : Pair → Pair → Prop} (h : Traces R pairs pairs')
    (himp : ∀ p p', R p p' → R' p p') :
  Traces R' pairs pairs'
  := by
  intro i p' hp'
  obtain ⟨p, hp, hR⟩ := h i p' hp'
  exact ⟨p, hp, himp p p' hR⟩

/-- One pair of a table is changed. -/
theorem traces_insert {R : Pair → Pair → Prop} (hrefl : ∀ p, R p p) {i : ℕ} {p q : Pair}
    (hp : pairs.lookup i = some p) (hR : R p q) :
  Traces R pairs (pairs.insert i q)
  := by
  intro j p' hp'
  rw [Table.lookup_insert_eq] at hp'
  split at hp'
  · rename_i heq
    obtain rfl := Option.some.inj hp'
    exact ⟨p, heq ▸ hp, hR⟩
  · exact ⟨p', hp', hrefl p'⟩

theorem Within.refl (claims : Table ℕ Claim) :
  Within claims claims
  := fun _ _ h => h

theorem Within.erase (claims : Table ℕ Claim) (id : ℕ) :
  Within (claims.erase id) claims
  := by
  intro id' c hc
  rw [Table.lookup_erase_eq] at hc
  split at hc
  · exact absurd hc (by simp)
  · exact hc

theorem Within.foldl_erase (ids : List ℕ) (claims : Table ℕ Claim) :
  Within (ids.foldl (fun t id => t.erase id) claims) claims
  := by
  induction ids generalizing claims with
  | nil => exact Within.refl claims
  | cons id ids ih =>
      intro id' c hc
      exact Within.erase claims id id' c (ih _ id' c hc)

/-- What is not in a table is not in one of its parts. -/
theorem Within.absent {claims claims' : Table ℕ Claim} (h : Within claims' claims) {id : ℕ}
    (hid : claims.lookup id = none) :
  claims'.lookup id = none
  := by
  cases hc : claims'.lookup id with
  | none => rfl
  | some c => exact absurd (h id c hc) (by simp [hid])

theorem Matched.mono (h : Matched pairs) (htraces : Traces SameParties pairs pairs') :
  Matched pairs'
  := by
  constructor
  · intro i p' hp'
    obtain ⟨p, hp, hconsumer, hprovider, -⟩ := htraces i p' hp'
    rw [hconsumer, hprovider]
    exact h.distinct i p hp
  · intro i j p' q' hp' hq' hwant hwant' hprovider
    obtain ⟨p, hp, -, hp₂, hp₃⟩ := htraces i p' hp'
    obtain ⟨q, hq, -, hq₂, hq₃⟩ := htraces j q' hq'
    exact h.exclusive i j p q hp hq (hp₃ ▸ hwant) (hq₃ ▸ hwant') (hp₂ ▸ hq₂ ▸ hprovider)
  · intro i j p' q' hp' hq' hconsumer hprovider hwant
    obtain ⟨p, hp, hp₁, hp₂, hp₃⟩ := htraces i p' hp'
    obtain ⟨q, hq, hq₁, hq₂, hq₃⟩ := htraces j q' hq'
    exact h.single i j p q hp hq (hp₁ ▸ hq₁ ▸ hconsumer) (hp₂ ▸ hq₂ ▸ hprovider)
      (hp₃ ▸ hq₃ ▸ hwant)

theorem Told.mono (h : Told pairs log)
    (htraces : Traces (fun p p' => p.infoSent = true → p'.infoSent = true) pairs pairs') :
  Told pairs' log
  := by
  refine ⟨h.once, ?_⟩
  intro i p' hi hp'
  obtain ⟨p, hp, hsent⟩ := htraces i p' hp'
  exact hsent (h.sent i p hi hp)

theorem Joined.mono (h : Joined pairs log)
    (htraces : Traces (fun p p' => ∀ r, p.relay = some r → r.state = .spliced →
      ∃ r', p'.relay = some r' ∧ r'.state = .spliced) pairs pairs') :
  Joined pairs' log
  := by
  refine ⟨h.once, ?_⟩
  intro i p' hi hp'
  obtain ⟨p, hp, hrelay⟩ := htraces i p' hp'
  obtain ⟨r, hr, hstate⟩ := h.spliced i p hi hp
  exact hrelay r hr hstate

theorem Probing.mono (h : Probing rv duties)
    (htraces : Traces (fun p p' => SameParties p p' ∧ p'.consumer.probeId = p.consumer.probeId
      ∧ p'.provider.probeId = p.provider.probeId) rv.pairs rv'.pairs)
    (hprobes : Within rv'.probes rv.probes) (hduties : duties' ≤ duties) :
  Probing rv' duties'
  := by
  refine ⟨?_, ?_, Multiset.nodup_of_le (Multiset.filterMap_le_filterMap _ hduties) h.once⟩
  · intro id c p' hc hp'
    obtain ⟨p, hp, ⟨hconsumer, hprovider, -⟩, hfirst, hsecond⟩ := htraces c.pairId p' hp'
    rw [hconsumer, hprovider, hfirst, hsecond]
    exact h.fits id c p (hprobes id c hc) hp
  · intro id c hc hmem
    exact h.unstarted id c (hprobes id c hc) (Multiset.mem_of_le hduties hmem)

theorem Consumed.mono (h : Consumed rv log) (hprobes : Within rv'.probes rv.probes)
    (hlegs : Within rv'.relayLegs rv.relayLegs) :
  Consumed rv' log
  := by
  refine ⟨h.once, ?_, h.own⟩
  intro id hid
  exact ⟨hprobes.absent (h.gone id hid).1, hlegs.absent (h.gone id hid).2⟩

theorem OwnsLeg.of_same {p p' : Pair} (h : SameParties p p') {r : Relay} {leg : RelayLeg} :
  p'.OwnsLeg r leg ↔ p.OwnsLeg r leg
  := by
  rw [Pair.OwnsLeg, Pair.OwnsLeg, h.1, h.2.1]

theorem Relaying.mono (h : Relaying rv duties log)
    (htraces : Traces (fun p p' => SameParties p p' ∧ p'.relay = p.relay) rv.pairs rv'.pairs)
    (hlegs : Within rv'.relayLegs rv.relayLegs) (hduties : duties' ≤ duties) :
  Relaying rv' duties' log
  := by
  have hparks := Multiset.filterMap_le_filterMap Errand.parks hduties
  refine ⟨?_, ?_, ?_, ?_, Multiset.nodup_of_le hparks h.once, ?_⟩
  · intro id c p' hc hp'
    obtain ⟨p, hp, hsame, hrelay⟩ := htraces c.pairId p' hp'
    obtain ⟨r, hr, hleg⟩ := h.fits id c p (hlegs id c hc) hp
    exact ⟨r, hrelay.trans hr, (OwnsLeg.of_same hsame).mpr hleg⟩
  · intro i p' r hp' hr
    obtain ⟨p, hp, -, hrelay⟩ := htraces i p' hp'
    exact h.apart i p r hp (hrelay ▸ hr)
  · intro i leg hmem
    exact h.claimed i leg (Multiset.mem_of_le hduties hmem)
  · intro i leg p' hmem hp'
    obtain ⟨p, hp, hsame, hrelay⟩ := htraces i p' hp'
    obtain ⟨r, hr, hleg⟩ := h.owned i leg p (Multiset.mem_of_le hduties hmem) hp
    exact ⟨r, hrelay.trans hr, (OwnsLeg.of_same hsame).mpr hleg⟩
  · intro i p' r leg hp' hr hstate
    obtain ⟨p, hp, hsame, hrelay⟩ := htraces i p' hp'
    obtain ⟨hleg, hclaimed, hnot⟩ := h.parked i p r leg hp (hrelay ▸ hr) hstate
    exact ⟨(OwnsLeg.of_same hsame).mpr hleg, hclaimed,
      fun hmem => hnot (Multiset.mem_of_le hparks hmem)⟩

theorem Attested.mono {l l' : Ledger} (h : l.Attested)
    (htraces : Traces SameParties l.rv.pairs l'.rv.pairs)
    (hclients : l'.rv.clients = l.rv.clients) (hlog : l'.log = l.log)
    (haccounts : l'.accounts = l.accounts) :
  l'.Attested
  := by
  constructor
  · rw [hclients, haccounts]
    exact h.registered
  · intro i p' hp'
    obtain ⟨p, hp, hsame⟩ := htraces i p' hp'
    rw [hsame.1, hsame.2.1, hlog, haccounts]
    exact h.pairs i p hp
  · rw [hlog, haccounts]
    exact h.spliced

theorem below_mono {e : BrokerEvent} {n m : ℕ} (h : e.Below n) (hle : n ≤ m) :
  e.Below m
  := by
  cases e with
  | accepted pairId consumerTx providerTx => exact Nat.lt_of_lt_of_le h hle
  | informed pairId => exact Nat.lt_of_lt_of_le h hle
  | claimed id claim clientId capability => exact Nat.lt_of_lt_of_le h hle
  | spliced pairId first second => exact Nat.lt_of_lt_of_le h hle
  | invalidated clientId removed => trivial

/-- The ids of a table have been drawn before, or are drawn now for the table. -/
theorem Drawn.draw {l l' : Ledger} (h : l.Drawn) (new : IdTable)
    (hnext : l.rv.nextId ≤ l'.rv.nextId)
    (hused : ∀ t id, l'.Live t id ∨ l'.Coming t id → (l.Live t id ∨ l.Coming t id)
      ∨ l.rv.nextId ≤ id ∧ id < l'.rv.nextId ∧ t = new)
    (hprobes : ∀ id c, l'.rv.probes.lookup id = some c →
      l.rv.probes.lookup id = some c ∨ c.pairId < l'.rv.nextId)
    (hlegs : ∀ id c, l'.rv.relayLegs.lookup id = some c →
      l.rv.relayLegs.lookup id = some c ∨ c.pairId < l'.rv.nextId)
    (hstarts : ∀ i, Errand.startProbes i ∈ l'.duties →
      Errand.startProbes i ∈ l.duties ∨ i < l'.rv.nextId)
    (hparks : ∀ i leg, Errand.parkLeg i leg ∈ l'.duties →
      Errand.parkLeg i leg ∈ l.duties ∨ i < l'.rv.nextId)
    (hlog : ∀ e ∈ l'.log, e ∈ l.log ∨ e.Below l'.rv.nextId) :
  l'.Drawn
  := by
  obtain ⟨use, huse⟩ := h.used
  refine ⟨⟨fun id => if id < l.rv.nextId then use id else new, ?_⟩, ?_, ?_, ?_, ?_, ?_⟩
  · intro t id hlive
    rcases hused t id hlive with hold | ⟨hge, hlt, rfl⟩
    · obtain ⟨hlt, ht⟩ := huse t id hold
      exact ⟨Nat.lt_of_lt_of_le hlt hnext, (if_pos hlt).trans ht⟩
    · exact ⟨hlt, if_neg (Nat.not_lt.mpr hge)⟩
  · intro id c hc
    rcases hprobes id c hc with hold | hlt
    · exact Nat.lt_of_lt_of_le (h.probes id c hold) hnext
    · exact hlt
  · intro id c hc
    rcases hlegs id c hc with hold | hlt
    · exact Nat.lt_of_lt_of_le (h.legs id c hold) hnext
    · exact hlt
  · intro i hi
    rcases hstarts i hi with hold | hlt
    · exact Nat.lt_of_lt_of_le (h.starts i hold) hnext
    · exact hlt
  · intro i leg hi
    rcases hparks i leg hi with hold | hlt
    · exact Nat.lt_of_lt_of_le (h.parks i leg hold) hnext
    · exact hlt
  · intro e he
    rcases hlog e he with hold | hbelow
    · exact below_mono (h.log e hold) hnext
    · exact hbelow

/-- Nothing new has come into the books. -/
structure Fades (l l' : Ledger) : Prop where
  pairs : Traces Like l.rv.pairs l'.rv.pairs
  probes : Within l'.rv.probes l.rv.probes
  legs : Within l'.rv.relayLegs l.rv.relayLegs
  nextId : l.rv.nextId ≤ l'.rv.nextId
  clients : l'.rv.clients = l.rv.clients
  pending : ∀ t, l'.pending t ⊆ l.pending t
  duties : l'.duties ≤ l.duties
  log : l'.log = l.log
  accounts : l'.accounts = l.accounts

theorem Within.ne_none {claims claims' : Table ℕ Claim} (h : Within claims' claims) {id : ℕ}
    (hid : claims'.lookup id ≠ none) :
  claims.lookup id ≠ none
  := fun hnone => hid (h.absent hnone)

theorem Traces.ne_none {R : Pair → Pair → Prop} (h : Traces R pairs pairs') {i : ℕ}
    (hi : pairs'.lookup i ≠ none) :
  pairs.lookup i ≠ none
  := by
  obtain ⟨p', hp'⟩ := Option.ne_none_iff_exists'.mp hi
  obtain ⟨p, hp, -⟩ := h i p' hp'
  simp [hp]

theorem Coming.mono {l l' : Ledger} (hduties : l'.duties ≤ l.duties) {t : IdTable} {id : ℕ}
    (h : l'.Coming t id) :
  l.Coming t id
  := by
  obtain ⟨table, htable, hmem⟩ := h
  exact ⟨table, htable, Multiset.mem_of_le hduties hmem⟩

theorem Fades.live {l l' : Ledger} (h : Fades l l') {t : IdTable} {id : ℕ} (hid : l'.Live t id) :
  l.Live t id
  := by
  cases t with
  | pending => exact h.pending .stream hid
  | udpPending => exact h.pending .udp hid
  | probes => exact h.probes.ne_none hid
  | relayLegs => exact h.legs.ne_none hid
  | pairs => exact h.pairs.ne_none hid

/-- Books that fade stay in order. -/
theorem Sound.fades {l l' : Ledger} (h : l.Sound) (hfades : Fades l l') :
  l'.Sound
  := by
  have hpairs := hfades.pairs
  refine ⟨h.pairs.mono (hpairs.imp fun _ _ h => h.parties), ?_, ?_,
    h.probing.mono (hpairs.imp fun _ _ h => ⟨h.parties, h.consumer, h.provider⟩) hfades.probes
      hfades.duties, ?_, ?_, ?_, ?_, ?_⟩
  · rw [hfades.clients]
    exact h.clients
  · apply h.drawn.draw .pairs hfades.nextId
    · rintro t id (hlive | hcoming)
      · exact Or.inl (Or.inl (hfades.live hlive))
      · exact Or.inl (Or.inr (hcoming.mono hfades.duties))
    · exact fun id c hc => Or.inl (hfades.probes id c hc)
    · exact fun id c hc => Or.inl (hfades.legs id c hc)
    · exact fun i hi => Or.inl (Multiset.mem_of_le hfades.duties hi)
    · exact fun i leg hi => Or.inl (Multiset.mem_of_le hfades.duties hi)
    · intro e he
      rw [hfades.log] at he
      exact Or.inl he
  · rw [hfades.log]
    exact h.consumed.mono hfades.probes hfades.legs
  · rw [hfades.log]
    exact h.relaying.mono (hpairs.imp fun _ _ h => ⟨h.parties, h.relay⟩) hfades.legs hfades.duties
  · rw [hfades.log]
    exact h.told.mono (hpairs.imp fun _ _ h => h.sent)
  · rw [hfades.log]
    apply h.joined.mono
    intro i p' hp'
    obtain ⟨p, hp, hlike⟩ := hpairs i p' hp'
    refine ⟨p, hp, ?_⟩
    intro r hr hstate
    exact ⟨r, hlike.relay.trans hr, hstate⟩
  · exact h.attested.mono (hpairs.imp fun _ _ h => h.parties) hfades.clients hfades.log
      hfades.accounts

/-! ### The history -/

theorem Claimed.cons {i : ℕ} {leg : RelayLeg} (h : Claimed log i leg) (e : BrokerEvent) :
  Claimed (e :: log) i leg
  := by
  obtain ⟨claim, capability, hlog, hpair⟩ := h
  exact ⟨claim, capability, List.mem_cons_of_mem e hlog, hpair⟩

theorem Accepted.cons {accounts : List String} {i : ℕ} {a b : String}
    (h : Accepted log accounts i a b) (e : BrokerEvent) :
  Accepted (e :: log) accounts i a b
  := by
  obtain ⟨consumerTx, providerTx, hlog, hparties⟩ := h
  exact ⟨consumerTx, providerTx, List.mem_cons_of_mem e hlog, hparties⟩

theorem Opposite.cons {accounts : List String} {i : ℕ} {first second : RelayLeg}
    (h : Opposite log accounts i first second) (e : BrokerEvent) :
  Opposite (e :: log) accounts i first second
  := by
  obtain ⟨hfirst, hsecond, hne, hparties⟩ := h
  exact ⟨hfirst.cons e, hsecond.cons e, hne, hparties.imp (·.cons e) (·.cons e)⟩

theorem Consumed.cons (h : Consumed rv log) {e : BrokerEvent} (he : e.claimedId = none) :
  Consumed rv (e :: log)
  := by
  have hids : (e :: log).filterMap BrokerEvent.claimedId = log.filterMap BrokerEvent.claimedId :=
    List.filterMap_cons_none he
  refine ⟨hids ▸ h.once, hids ▸ h.gone, ?_⟩
  intro id claim clientId capability hmem
  rcases List.mem_cons.mp hmem with rfl | hmem
  · exact absurd he (by simp [BrokerEvent.claimedId])
  · exact h.own id claim clientId capability hmem

theorem Relaying.cons (h : Relaying rv duties log) (e : BrokerEvent) :
  Relaying rv duties (e :: log)
  := by
  refine ⟨h.fits, h.apart, ?_, h.owned, h.once, ?_⟩
  · intro i leg hi
    exact (h.claimed i leg hi).cons e
  · intro i p r leg hp hr hstate
    obtain ⟨hleg, hlog, hnot⟩ := h.parked i p r leg hp hr hstate
    exact ⟨hleg, hlog.cons e, hnot⟩

theorem Told.cons (h : Told pairs log) {e : BrokerEvent} (he : e.informedId = none) :
  Told pairs (e :: log)
  := by
  refine ⟨(List.filterMap_cons_none he).symm ▸ h.once, ?_⟩
  intro i p hi
  rcases List.mem_cons.mp hi with rfl | hi
  · exact absurd he (by simp [BrokerEvent.informedId])
  · exact h.sent i p hi

theorem Joined.cons (h : Joined pairs log) {e : BrokerEvent} (he : e.splicedId = none) :
  Joined pairs (e :: log)
  := by
  have hids : (e :: log).filterMap BrokerEvent.splicedId = log.filterMap BrokerEvent.splicedId :=
    List.filterMap_cons_none he
  exact ⟨hids ▸ h.once, hids ▸ h.spliced⟩

theorem Attested.cons {l : Ledger} (h : l.Attested) {e : BrokerEvent} (he : e.splicedId = none) :
  Attested { l with log := e :: l.log }
  := by
  refine ⟨h.registered, ?_, ?_⟩
  · intro i p hp
    exact (h.pairs i p hp).cons e
  · intro i first second hmem
    rcases List.mem_cons.mp hmem with rfl | hmem
    · exact absurd he (by simp [BrokerEvent.splicedId])
    · exact (h.spliced i first second hmem).cons e

theorem Drawn.cons {l : Ledger} (h : l.Drawn) {e : BrokerEvent} (he : e.Below l.rv.nextId) :
  Drawn { l with log := e :: l.log }
  := by
  refine ⟨h.used, h.probes, h.legs, h.starts, h.parks, ?_⟩
  intro e' he'
  rcases List.mem_cons.mp he' with rfl | he'
  · exact he
  · exact h.log e' he'

/-- The books after something was written into the history that uses no id up. -/
theorem Sound.cons {l : Ledger} (h : l.Sound) {e : BrokerEvent} (hbelow : e.Below l.rv.nextId)
    (hclaimed : e.claimedId = none) (hinformed : e.informedId = none)
    (hspliced : e.splicedId = none) :
  Sound { l with log := e :: l.log }
  where
  pairs := h.pairs
  clients := h.clients
  drawn := h.drawn.cons hbelow
  probing := h.probing
  consumed := h.consumed.cons hclaimed
  relaying := h.relaying.cons e
  told := h.told.cons hinformed
  joined := h.joined.cons hspliced
  attested := h.attested.cons hspliced

end Fade

end Ledger

end ZeroNat

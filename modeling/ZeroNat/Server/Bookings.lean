import ZeroNat.Server.Ledger

/-!
# What is entered into the books

The operations of the rendezvous that bring something new: a pair that is accepted, the probes
and the legs that are handed out, what is claimed, and what is parked.  Each leaves the books in
order.
-/

namespace ZeroNat

namespace Ledger

/-! ### Pairs that are told -/

theorem mem_informed {log : List BrokerEvent} {i : ℕ} :
  i ∈ log.filterMap BrokerEvent.informedId ↔ .informed i ∈ log
  := by
  rw [List.mem_filterMap]
  constructor
  · rintro ⟨e, he, hi⟩
    cases e with
    | informed j =>
        obtain rfl := Option.some.inj hi
        exact he
    | accepted _ _ _ => exact absurd hi (by simp [BrokerEvent.informedId])
    | claimed _ _ _ _ => exact absurd hi (by simp [BrokerEvent.informedId])
    | spliced _ _ _ => exact absurd hi (by simp [BrokerEvent.informedId])
    | invalidated _ _ => exact absurd hi (by simp [BrokerEvent.informedId])
  · intro he
    exact ⟨_, he, rfl⟩

/-- A pair is told for the first time. -/
theorem Sound.inform {l : Ledger} (h : l.Sound) {i : ℕ} {p : Pair}
    (hp : l.rv.pairs.lookup i = some p) (hsent : p.infoSent = true)
    (hfirst : BrokerEvent.informed i ∉ l.log) :
  Sound { l with log := .informed i :: l.log }
  := by
  obtain ⟨use, huse⟩ := h.drawn.used
  have hlt : i < l.rv.nextId := (huse .pairs i (Or.inl (by simp [Live, hp]))).1
  refine ⟨h.pairs, h.clients, h.drawn.cons hlt, h.probing, h.consumed.cons rfl,
    h.relaying.cons _, ⟨?_, ?_⟩, h.joined.cons rfl, h.attested.cons rfl⟩
  · apply List.nodup_cons.mpr
    exact ⟨fun hmem => hfirst (mem_informed.mp hmem), h.told.once⟩
  · intro j q hj hq
    rcases List.mem_cons.mp hj with hj | hj
    · obtain rfl := BrokerEvent.informed.inj hj
      obtain rfl := Option.some.inj (hp.symm.trans hq)
      exact hsent
    · exact h.told.sent j q hj hq

/-- The parties of a pair are told. -/
theorem Sound.finishPair {l : Ledger} (h : l.Sound) (i : ℕ) :
  Sound { l with
    rv := (l.rv.finishPair i).1
    log := if (l.rv.finishPair i).2 = none then l.log else .informed i :: l.log }
  := by
  rw [Rendezvous.finishPair]
  split
  · exact h
  · rename_i p hp
    split
    · exact h
    · rename_i hsent
      have hfades : Fades l { l with
          rv := (({ l.rv with pairs := l.rv.pairs.insert i { p with infoSent := true } } :
            Rendezvous).forgetProbes p) } :=
        ⟨traces_insert Like.refl hp ⟨⟨rfl, rfl, rfl⟩, rfl, rfl, rfl, fun _ => rfl⟩,
          Within.foldl_erase _ _, Within.refl _, le_rfl, rfl, fun _ => List.Subset.refl _, le_rfl,
          rfl, rfl⟩
      refine (h.fades hfades).inform (p := { p with infoSent := true }) ?_ rfl ?_
      · exact AList.lookup_insert _
      · intro hmem
        exact hsent (h.told.sent i p hmem hp)

/-! ### Probes -/

theorem lt_of_claimed {l : Ledger} (h : l.Drawn) {id : ℕ}
    (hid : id ∈ l.log.filterMap BrokerEvent.claimedId) :
  id < l.rv.nextId
  := by
  obtain ⟨e, he, heq⟩ := List.mem_filterMap.mp hid
  have hbelow := h.log e he
  cases e with
  | claimed id' c clientId capability =>
      obtain rfl := Option.some.inj heq
      exact hbelow
  | accepted _ _ _ => exact absurd heq (by simp [BrokerEvent.claimedId])
  | informed _ => exact absurd heq (by simp [BrokerEvent.claimedId])
  | spliced _ _ _ => exact absurd heq (by simp [BrokerEvent.claimedId])
  | invalidated _ _ => exact absurd heq (by simp [BrokerEvent.claimedId])

/-- Ids that are drawn now have not been claimed. -/
theorem Consumed.grow {l : Ledger} (h : Consumed l.rv l.log) (hdrawn : l.Drawn) {rv : Rendezvous}
    (hprobes : ∀ id c, rv.probes.lookup id = some c →
      l.rv.probes.lookup id = some c ∨ l.rv.nextId ≤ id)
    (hlegs : ∀ id c, rv.relayLegs.lookup id = some c →
      l.rv.relayLegs.lookup id = some c ∨ l.rv.nextId ≤ id) :
  Consumed rv l.log
  := by
  refine ⟨h.once, ?_, h.own⟩
  intro id hid
  have hlt := lt_of_claimed hdrawn hid
  constructor
  · apply Option.eq_none_iff_forall_ne_some.mpr
    intro c hc
    rcases hprobes id c hc with hold | hge
    · exact absurd hold (by simp [(h.gone id hid).1])
    · exact absurd hlt (Nat.not_lt.mpr hge)
  · apply Option.eq_none_iff_forall_ne_some.mpr
    intro c hc
    rcases hlegs id c hc with hold | hge
    · exact absurd hold (by simp [(h.gone id hid).2])
    · exact absurd hlt (Nat.not_lt.mpr hge)

/-- A claim is in the slot of a party of the pair. -/
def Fits (p : Pair) (id : ℕ) (c : Claim) : Prop :=
  p.consumer.probeId = some id ∧ c.clientId = p.consumerId
    ∨ p.provider.probeId = some id ∧ c.clientId = p.providerId

/-- Probes of a pair are handed out. -/
structure Probed (i : ℕ) (p : Pair) (rv rv' : Rendezvous) : Prop where
  clients : rv'.clients = rv.clients
  pairs : rv'.pairs = rv.pairs
  legs : rv'.relayLegs = rv.relayLegs
  nextId : rv.nextId ≤ rv'.nextId
  probes : ∀ id c, rv'.probes.lookup id = some c → rv.probes.lookup id = some c
    ∨ rv.nextId ≤ id ∧ id < rv'.nextId ∧ c.pairId = i ∧ Fits p id c

theorem Probed.trans {i : ℕ} {p : Pair} {rv rv₁ rv₂ : Rendezvous} (h : Probed i p rv rv₁)
    (h' : Probed i p rv₁ rv₂) :
  Probed i p rv rv₂
  := by
  refine ⟨h'.clients.trans h.clients, h'.pairs.trans h.pairs, h'.legs.trans h.legs,
    h.nextId.trans h'.nextId, ?_⟩
  intro id c hc
  rcases h'.probes id c hc with hold | ⟨hge, hlt, hfits⟩
  · rcases h.probes id c hold with hold | ⟨hge, hlt, hfits⟩
    · exact Or.inl hold
    · exact Or.inr ⟨hge, hlt.trans_le h'.nextId, hfits⟩
  · exact Or.inr ⟨h.nextId.trans hge, hlt, hfits⟩

/-- A party is sent its probe, or takes none. -/
theorem probeParty_cases (rv : Rendezvous) (i : ℕ) (pair : Pair) (id peerId : String)
    (party : PartyProbe) (capability : Option Capability) :
  (∃ n, (rv.probeParty i pair id peerId party capability).1
      = { rv with nextId := rv.nextId + n })
    ∨ ∃ given, (rv.probeParty i pair id peerId party capability).1
        = { rv with
            probes := rv.probes.insert rv.nextId ⟨i, id, given⟩, nextId := rv.nextId + 1 }
      ∧ (rv.probeParty i pair id peerId party capability).2.1.probeId = some rv.nextId
  := by
  unfold Rendezvous.probeParty
  split
  · split
    · exact Or.inl ⟨0, rfl⟩
    · dsimp only
      split
      · exact Or.inl ⟨1, rfl⟩
      · exact Or.inl ⟨1, rfl⟩
      · exact Or.inr ⟨_, rfl, rfl⟩
  · exact Or.inl ⟨0, rfl⟩

theorem probed_probeParty (rv : Rendezvous) (i : ℕ) (pair p : Pair) (id peerId : String)
    (party : PartyProbe) (capability : Option Capability)
    (hfits : ∀ c : Claim, c.clientId = id → ∀ probeId,
      (rv.probeParty i pair id peerId party capability).2.1.probeId = some probeId →
        Fits p probeId c) :
  Probed i p rv (rv.probeParty i pair id peerId party capability).1
  := by
  rcases probeParty_cases rv i pair id peerId party capability with ⟨n, hrv⟩ | ⟨given, hrv, hid⟩
  · rw [hrv]
    exact ⟨rfl, rfl, rfl, Nat.le_add_right _ _, fun _ _ hc => Or.inl hc⟩
  · have hnew := hfits ⟨i, id, given⟩ rfl rv.nextId hid
    rw [hrv]
    refine ⟨rfl, rfl, rfl, Nat.le_succ _, ?_⟩
    intro id' c hc
    rw [Table.lookup_insert_eq] at hc
    split at hc
    · rename_i heq
      obtain rfl := Option.some.inj hc
      exact Or.inr ⟨heq.ge, heq ▸ Nat.lt_succ_self _, rfl, heq ▸ hnew⟩
    · exact Or.inl hc

/-- The probes of a pair are started. -/
theorem startPairProbes_cases (rv : Rendezvous) {i : ℕ} {p : Pair}
    (hp : rv.pairs.lookup i = some p) (forConsumer forProvider : Option Capability) :
  ∃ rv' p', (rv.startPairProbes i forConsumer forProvider).1
      = { rv' with pairs := rv.pairs.insert i p' }
    ∧ Probed i p' rv rv' ∧ SameParties p p' ∧ p'.relay = p.relay ∧ p'.infoSent = p.infoSent
  := by
  have hfirst := fun p' hfits =>
    probed_probeParty rv i p p' p.consumerId p.providerId p.consumer forConsumer hfits
  rw [Rendezvous.startPairProbes]
  simp only [hp]
  generalize rv.probeParty i p p.consumerId p.providerId p.consumer forConsumer = r at hfirst ⊢
  obtain ⟨rv₁, consumer, posts₁⟩ := r
  have hsecond := fun p' hfits =>
    probed_probeParty rv₁ i p p' p.providerId p.consumerId p.provider forProvider hfits
  dsimp only at hfirst ⊢
  generalize rv₁.probeParty i p p.providerId p.consumerId p.provider forProvider = r at hsecond ⊢
  obtain ⟨rv₂, provider, posts₂⟩ := r
  dsimp only at hsecond ⊢
  have hprobed : Probed i { p with consumer := consumer, provider := provider } rv rv₂ := by
    refine (hfirst _ ?_).trans (hsecond _ ?_)
    · intro c hc probeId hid
      exact Or.inl ⟨hid, hc⟩
    · intro c hc probeId hid
      exact Or.inr ⟨hid, hc⟩
  exact ⟨rv₂, _, by rw [hprobed.pairs], hprobed, ⟨rfl, rfl, rfl⟩, rfl, rfl⟩

/-- The probes of a pair are started, for the one time they are to be. -/
theorem Sound.startPairProbes {l : Ledger} {i : ℕ} {duties : Multiset Errand} (h : l.Sound)
    (hduties : l.duties = .startProbes i ::ₘ duties) (forConsumer forProvider : Option Capability) :
  Sound { l with rv := (l.rv.startPairProbes i forConsumer forProvider).1, duties := duties }
  := by
  have hle : duties ≤ l.duties := by
    rw [hduties]
    exact Multiset.le_cons_self _ _
  cases hp : l.rv.pairs.lookup i with
  | none =>
      have hsame : (l.rv.startPairProbes i forConsumer forProvider).1 = l.rv := by
        rw [Rendezvous.startPairProbes]
        simp only [hp]
      rw [hsame]
      exact h.fades ⟨fun j p hj => ⟨p, hj, Like.refl p⟩, Within.refl _, Within.refl _, le_rfl, rfl,
        fun _ => List.Subset.refl _, hle, rfl, rfl⟩
  | some p =>
      obtain ⟨rv', p', hrv, hprobed, hparties, hrelay, hsent⟩ :=
        startPairProbes_cases l.rv hp forConsumer forProvider
      rw [hrv]
      have hnotin : Errand.startProbes i ∉ duties := by
        intro hmem
        have honce := h.probing.once
        rw [hduties, Multiset.filterMap_cons_some Errand.starts _ _ rfl, Multiset.nodup_cons]
          at honce
        exact honce.1 ((Multiset.mem_filterMap _ _).mpr ⟨_, hmem, rfl⟩)
      have hpairs {R : Pair → Pair → Prop} (hrefl : ∀ q, R q q) (hR : R p p') :
          Traces R l.rv.pairs (l.rv.pairs.insert i p') := traces_insert hrefl hp hR
      refine ⟨h.pairs.mono (hpairs (fun _ => ⟨rfl, rfl, rfl⟩) hparties), ?_, ?_, ⟨?_, ?_, ?_⟩,
        ?_, ?_, h.told.mono (hpairs (fun _ => id) (by rw [hsent]; exact id)), ?_, ?_⟩
      · rw [hprobed.clients]
        exact h.clients
      · apply h.drawn.draw .probes hprobed.nextId
        · rintro t id (hlive | hcoming)
          · cases t with
            | pending => exact Or.inl (Or.inl hlive)
            | udpPending => exact Or.inl (Or.inl hlive)
            | probes =>
                obtain ⟨c, hc⟩ := Option.ne_none_iff_exists'.mp hlive
                rcases hprobed.probes id c hc with hold | ⟨hge, hlt, -⟩
                · exact Or.inl (Or.inl (by simp [Live, hold]))
                · exact Or.inr ⟨hge, hlt, rfl⟩
            | relayLegs =>
                rw [Live, hprobed.legs] at hlive
                exact Or.inl (Or.inl hlive)
            | pairs =>
                exact Or.inl (Or.inl
                  ((hpairs (R := fun _ _ => True) (fun _ => trivial) trivial).ne_none hlive))
          · exact Or.inl (Or.inr (hcoming.mono hle))
        · intro id c hc
          rcases hprobed.probes id c hc with hold | ⟨hge, hlt, rfl, -⟩
          · exact Or.inl hold
          · exact Or.inr ((h.drawn.starts _ (hduties ▸ Multiset.mem_cons_self _ _)).trans_le
              hprobed.nextId)
        · intro id c hc
          dsimp only at hc
          rw [hprobed.legs] at hc
          exact Or.inl hc
        · exact fun j hj => Or.inl (Multiset.mem_of_le hle hj)
        · exact fun j leg hj => Or.inl (Multiset.mem_of_le hle hj)
        · exact fun e he => Or.inl he
      · intro id c q hc hq
        rcases hprobed.probes id c hc with hold | ⟨-, -, rfl, hfits⟩
        · -- A claim that was there before is not one of this pair.
          have hne : c.pairId ≠ i := by
            rintro rfl
            exact h.probing.unstarted id c hold (hduties ▸ Multiset.mem_cons_self _ _)
          dsimp only at hq
          rw [Table.lookup_insert_eq, if_neg hne] at hq
          exact h.probing.fits id c q hold hq
        · dsimp only at hq
          rw [AList.lookup_insert] at hq
          obtain rfl := Option.some.inj hq
          exact hfits
      · intro id c hc hmem
        rcases hprobed.probes id c hc with hold | ⟨-, -, rfl, -⟩
        · exact h.probing.unstarted id c hold (Multiset.mem_of_le hle hmem)
        · exact hnotin hmem
      · exact Multiset.nodup_of_le (Multiset.filterMap_le_filterMap _ hle) h.probing.once
      · apply h.consumed.grow h.drawn
        · intro id c hc
          exact (hprobed.probes id c hc).imp_right And.left
        · intro id c hc
          dsimp only at hc
          rw [hprobed.legs] at hc
          exact Or.inl hc
      · apply h.relaying.mono (hpairs (fun _ => ⟨⟨rfl, rfl, rfl⟩, rfl⟩) ⟨hparties, hrelay⟩) _ hle
        dsimp only
        rw [hprobed.legs]
        exact Within.refl _
      · apply h.joined.mono
        apply hpairs
        · exact fun q r hr hstate => ⟨r, hr, hstate⟩
        · exact fun r hr hstate => ⟨r, hrelay.trans hr, hstate⟩
      · exact h.attested.mono (hpairs (fun _ => ⟨rfl, rfl, rfl⟩) hparties) hprobed.clients rfl rfl

/-! ### Relays -/

/-- The legs that a relay is opened with are claimed by its parties. -/
theorem openRelay_legs (rv : Rendezvous) (i : ℕ) (p : Pair) (forConsumer forProvider : Capability)
    (id : ℕ) (c : Claim)
    (hc : (rv.openRelay i p forConsumer forProvider).1.relayLegs.lookup id = some c) :
  rv.relayLegs.lookup id = some c
    ∨ rv.nextId ≤ id ∧ id < rv.nextId + 2 ∧ c.pairId = i
      ∧ (id = rv.nextId ∧ c.clientId = p.consumerId
        ∨ id = rv.nextId + 1 ∧ c.clientId = p.providerId)
  := by
  rw [Rendezvous.openRelay] at hc
  dsimp only at hc
  rw [Table.lookup_insert_eq] at hc
  split at hc
  · rename_i heq
    obtain rfl := Option.some.inj hc
    exact Or.inr ⟨by omega, by omega, rfl, Or.inr ⟨heq, rfl⟩⟩
  · rw [Table.lookup_insert_eq] at hc
    split at hc
    · rename_i heq
      obtain rfl := Option.some.inj hc
      exact Or.inr ⟨by omega, by omega, rfl, Or.inl ⟨heq, rfl⟩⟩
    · exact Or.inl hc

/-- The relay of a pair is opened. -/
theorem Sound.openRelay {l : Ledger} (h : l.Sound) {i : ℕ} {p : Pair}
    (hp : l.rv.pairs.lookup i = some p) (hnone : p.relay = none)
    (forConsumer forProvider : Capability) :
  Sound { l with rv := (l.rv.openRelay i p forConsumer forProvider).1 }
  := by
  obtain ⟨use, huse⟩ := h.drawn.used
  have hlt : i < l.rv.nextId := (huse .pairs i (Or.inl (by simp [Live, hp]))).1
  have hpairs {R : Pair → Pair → Prop} (hrefl : ∀ q, R q q)
      (hR : R p { p with relay := some ⟨(l.rv.nextId, l.rv.nextId + 1), .opened⟩ }) :
      Traces R l.rv.pairs (l.rv.openRelay i p forConsumer forProvider).1.pairs :=
    traces_insert hrefl hp hR
  have hlegs {id : ℕ} {c : Claim} := openRelay_legs l.rv i p forConsumer forProvider id c
  -- No claim of a leg, and no leg that was claimed, is of a pair without a relay.
  have hself {j : ℕ} {q : Pair} (hq : (l.rv.openRelay i p forConsumer forProvider).1.pairs.lookup j
      = some q) (hne : j ≠ i) : l.rv.pairs.lookup j = some q := by
    rw [Rendezvous.openRelay] at hq
    dsimp only at hq
    rwa [Table.lookup_insert_eq, if_neg hne] at hq
  have hnew {q : Pair} (hq : (l.rv.openRelay i p forConsumer forProvider).1.pairs.lookup i
      = some q) : q = { p with relay := some ⟨(l.rv.nextId, l.rv.nextId + 1), .opened⟩ } := by
    rw [Rendezvous.openRelay] at hq
    dsimp only at hq
    rw [AList.lookup_insert] at hq
    exact (Option.some.inj hq).symm
  refine ⟨h.pairs.mono (hpairs (fun _ => ⟨rfl, rfl, rfl⟩) ⟨rfl, rfl, rfl⟩), h.clients, ?_,
    h.probing.mono (hpairs (fun _ => ⟨⟨rfl, rfl, rfl⟩, rfl, rfl⟩) ⟨⟨rfl, rfl, rfl⟩, rfl, rfl⟩)
      (Within.refl _) le_rfl, ?_, ⟨?_, ?_, h.relaying.claimed, ?_, h.relaying.once, ?_⟩,
    h.told.mono (hpairs (fun _ => id) id), ?_,
    h.attested.mono (hpairs (fun _ => ⟨rfl, rfl, rfl⟩) ⟨rfl, rfl, rfl⟩) rfl rfl rfl⟩
  · apply h.drawn.draw .relayLegs (Nat.le_add_right _ 2)
    · rintro t id (hlive | hcoming)
      · cases t with
        | pending => exact Or.inl (Or.inl hlive)
        | udpPending => exact Or.inl (Or.inl hlive)
        | probes => exact Or.inl (Or.inl hlive)
        | relayLegs =>
            obtain ⟨c, hc⟩ := Option.ne_none_iff_exists'.mp hlive
            rcases hlegs hc with hold | ⟨hge, hlt, -⟩
            · exact Or.inl (Or.inl (by simp [Live, hold]))
            · exact Or.inr ⟨hge, hlt, rfl⟩
        | pairs =>
            exact Or.inl (Or.inl
              ((hpairs (R := fun _ _ => True) (fun _ => trivial) trivial).ne_none hlive))
      · exact Or.inl (Or.inr hcoming)
    · exact fun id c hc => Or.inl hc
    · intro id c hc
      rcases hlegs hc with hold | ⟨-, -, rfl, -⟩
      · exact Or.inl hold
      · exact Or.inr (hlt.trans_le (Nat.le_add_right _ 2))
    · exact fun j hj => Or.inl hj
    · exact fun j leg hj => Or.inl hj
    · exact fun e he => Or.inl he
  · apply h.consumed.grow h.drawn
    · exact fun id c hc => Or.inl hc
    · intro id c hc
      exact (hlegs hc).imp_right And.left
  · intro id c q hc hq
    rcases hlegs hc with hold | ⟨-, -, rfl, hparty⟩
    · have hne : c.pairId ≠ i := by
        rintro rfl
        obtain ⟨r, hr, -⟩ := h.relaying.fits id c p hold hp
        exact absurd hr (by simp [hnone])
      exact h.relaying.fits id c q hold (hself hq hne)
    · obtain rfl := hnew hq
      exact ⟨_, rfl, hparty⟩
  · intro j q r hq hr
    by_cases hj : j = i
    · subst hj
      obtain rfl := hnew hq
      obtain rfl := Option.some.inj hr
      exact (Nat.succ_ne_self _).symm
    · exact h.relaying.apart j q r (hself hq hj) hr
  · intro j leg q hmem hq
    have hne : j ≠ i := by
      rintro rfl
      obtain ⟨r, hr, -⟩ := h.relaying.owned j leg p hmem hp
      exact absurd hr (by simp [hnone])
    exact h.relaying.owned j leg q hmem (hself hq hne)
  · intro j q r leg hq hr hstate
    by_cases hj : j = i
    · subst hj
      obtain rfl := hnew hq
      obtain rfl := Option.some.inj hr
      exact absurd hstate (by simp)
    · exact h.relaying.parked j q r leg (hself hq hj) hr hstate
  · apply h.joined.mono
    apply hpairs
    · exact fun q r hr hstate => ⟨r, hr, hstate⟩
    · intro r hr
      exact absurd hr (by simp [hnone])

/-- The state of the relay of a pair changes. -/
theorem Sound.setState {l : Ledger} (h : l.Sound) {i : ℕ} {p : Pair} {r : Relay}
    (hp : l.rv.pairs.lookup i = some p) (hr : p.relay = some r) (hstate : r.state ≠ .spliced)
    (state : RelayState) {duties : Multiset Errand} (hduties : duties ≤ l.duties)
    (hparked : ∀ leg, state = .parked leg →
      p.OwnsLeg r leg ∧ Claimed l.log i leg ∧ leg.id ∉ duties.filterMap Errand.parks) :
  Sound { l with
    rv := { l.rv with
      pairs := l.rv.pairs.insert i { p with relay := some { r with state := state } } }
    duties := duties }
  := by
  have hpairs {R : Pair → Pair → Prop} (hrefl : ∀ q, R q q)
      (hR : R p { p with relay := some { r with state := state } }) :
      Traces R l.rv.pairs
        (l.rv.pairs.insert i { p with relay := some { r with state := state } }) :=
    traces_insert hrefl hp hR
  -- The legs of a relay stay, whatever its state.
  have hlegs : Traces (fun q q' => SameParties q q' ∧ ∀ s, q.relay = some s →
      ∃ s', q'.relay = some s' ∧ s'.legs = s.legs) l.rv.pairs
        (l.rv.pairs.insert i { p with relay := some { r with state := state } }) := by
    apply hpairs
    · exact fun q => ⟨⟨rfl, rfl, rfl⟩, fun s hs => ⟨s, hs, rfl⟩⟩
    · refine ⟨⟨rfl, rfl, rfl⟩, ?_⟩
      intro s hs
      obtain rfl := Option.some.inj (hr.symm.trans hs)
      exact ⟨_, rfl, rfl⟩
  have howned {q q' : Pair} {leg : RelayLeg} {s s' : Relay} (hsame : SameParties q q')
      (hs : s'.legs = s.legs) (hleg : q.OwnsLeg s leg) : q'.OwnsLeg s' leg := by
    rw [OwnsLeg.of_same hsame, Pair.OwnsLeg, hs]
    exact hleg
  refine ⟨h.pairs.mono (hpairs (fun _ => ⟨rfl, rfl, rfl⟩) ⟨rfl, rfl, rfl⟩), h.clients, ?_,
    h.probing.mono (hpairs (fun _ => ⟨⟨rfl, rfl, rfl⟩, rfl, rfl⟩) ⟨⟨rfl, rfl, rfl⟩, rfl, rfl⟩)
      (Within.refl _) hduties, h.consumed.mono (Within.refl _) (Within.refl _),
    ⟨?_, ?_, ?_, ?_, ?_, ?_⟩, h.told.mono (hpairs (fun _ => id) id), ?_,
    h.attested.mono (hpairs (fun _ => ⟨rfl, rfl, rfl⟩) ⟨rfl, rfl, rfl⟩) rfl rfl rfl⟩
  · apply h.drawn.draw .pairs
    · exact le_rfl
    · rintro t id (hlive | hcoming)
      · cases t with
        | pairs =>
            exact Or.inl (Or.inl
              ((hpairs (R := fun _ _ => True) (fun _ => trivial) trivial).ne_none hlive))
        | _ => exact Or.inl (Or.inl hlive)
      · exact Or.inl (Or.inr (hcoming.mono hduties))
    · exact fun id c hc => Or.inl hc
    · exact fun id c hc => Or.inl hc
    · exact fun j hj => Or.inl (Multiset.mem_of_le hduties hj)
    · exact fun j leg hj => Or.inl (Multiset.mem_of_le hduties hj)
    · exact fun e he => Or.inl he
  · intro id c q' hc hq'
    obtain ⟨q, hq, hsame, hrelay⟩ := hlegs c.pairId q' hq'
    obtain ⟨s, hs, hleg⟩ := h.relaying.fits id c q hc hq
    obtain ⟨s', hs', hsl⟩ := hrelay s hs
    exact ⟨s', hs', howned hsame hsl hleg⟩
  · intro j q' s' hq' hs'
    dsimp only at hq'
    rw [Table.lookup_insert_eq] at hq'
    split at hq'
    · obtain rfl := Option.some.inj hq'
      obtain rfl := Option.some.inj hs'
      exact h.relaying.apart i p r hp hr
    · exact h.relaying.apart j q' s' hq' hs'
  · intro j leg hmem
    exact h.relaying.claimed j leg (Multiset.mem_of_le hduties hmem)
  · intro j leg q' hmem hq'
    obtain ⟨q, hq, hsame, hrelay⟩ := hlegs j q' hq'
    obtain ⟨s, hs, hleg⟩ := h.relaying.owned j leg q (Multiset.mem_of_le hduties hmem) hq
    obtain ⟨s', hs', hsl⟩ := hrelay s hs
    exact ⟨s', hs', howned hsame hsl hleg⟩
  · exact Multiset.nodup_of_le (Multiset.filterMap_le_filterMap _ hduties) h.relaying.once
  · intro j q' s' leg hq' hs' hleg
    dsimp only at hq'
    rw [Table.lookup_insert_eq] at hq'
    split at hq'
    · rename_i heq
      subst heq
      obtain rfl := Option.some.inj hq'
      obtain rfl := Option.some.inj hs'
      exact hparked leg hleg
    · obtain ⟨hown, hclaimed, hnot⟩ := h.relaying.parked j q' s' leg hq' hs' hleg
      exact ⟨hown, hclaimed, fun hmem =>
        hnot (Multiset.mem_of_le (Multiset.filterMap_le_filterMap _ hduties) hmem)⟩
  · apply h.joined.mono
    apply hpairs
    · exact fun q s hs hspliced => ⟨s, hs, hspliced⟩
    · intro s hs hspliced
      obtain rfl := Option.some.inj (hr.symm.trans hs)
      exact absurd hspliced hstate

/-- Two legs are spliced, for the first time. -/
theorem Sound.splice {l : Ledger} (h : l.Sound) {i : ℕ} {p : Pair} {r : Relay}
    (hp : l.rv.pairs.lookup i = some p) (hr : p.relay = some r) (hstate : r.state = .spliced)
    (hfirst : i ∉ l.log.filterMap BrokerEvent.splicedId) {first second : RelayLeg}
    (hopposite : Opposite l.log l.accounts i first second) :
  Sound { l with log := .spliced i first second :: l.log }
  := by
  obtain ⟨use, huse⟩ := h.drawn.used
  have hlt : i < l.rv.nextId := (huse .pairs i (Or.inl (by simp [Live, hp]))).1
  refine ⟨h.pairs, h.clients, h.drawn.cons hlt, h.probing, h.consumed.cons rfl,
    h.relaying.cons _, h.told.cons rfl, ⟨?_, ?_⟩, ⟨h.attested.registered, ?_, ?_⟩⟩
  · exact List.nodup_cons.mpr ⟨hfirst, h.joined.once⟩
  · intro j q hj hq
    rcases List.mem_cons.mp hj with rfl | hj
    · obtain rfl := Option.some.inj (hp.symm.trans hq)
      exact ⟨r, hr, hstate⟩
    · exact h.joined.spliced j q hj hq
  · intro j q hq
    exact (h.attested.pairs j q hq).cons _
  · intro j f s hmem
    rcases List.mem_cons.mp hmem with heq | hmem
    · obtain ⟨rfl, rfl, rfl⟩ := BrokerEvent.spliced.inj heq
      exact hopposite.cons _
    · exact (h.attested.spliced j f s hmem).cons _

/-- The history after a leg was parked. -/
def splicing (log : List BrokerEvent) (i : ℕ) : Option (RelayLeg × RelayLeg) → List BrokerEvent
  | none => log
  | some (first, second) => .spliced i first second :: log

/-- A leg that was claimed is parked, and spliced when the other one is there. -/
theorem Sound.parkRelayLeg {l : Ledger} {i : ℕ} {leg : RelayLeg} {duties : Multiset Errand}
    (h : l.Sound) (hduties : l.duties = .parkLeg i leg ::ₘ duties) :
  Sound { l with
    rv := (l.rv.parkRelayLeg i leg).1
    log := splicing l.log i (l.rv.parkRelayLeg i leg).2
    duties := duties }
  := by
  have hle : duties ≤ l.duties := by
    rw [hduties]
    exact Multiset.le_cons_self _ _
  have hmem : Errand.parkLeg i leg ∈ l.duties := hduties ▸ Multiset.mem_cons_self _ _
  have honce : leg.id ∉ duties.filterMap Errand.parks := by
    have honce := h.relaying.once
    rw [hduties, Multiset.filterMap_cons_some Errand.parks _ _ rfl, Multiset.nodup_cons] at honce
    exact honce.1
  have hdropped : Sound { l with duties := duties } :=
    h.fades ⟨fun j p hj => ⟨p, hj, Like.refl p⟩, Within.refl _, Within.refl _, le_rfl, rfl,
      fun _ => List.Subset.refl _, hle, rfl, rfl⟩
  rw [Rendezvous.parkRelayLeg]
  dsimp only
  split
  · exact hdropped
  · rename_i p hp
    split
    · exact hdropped
    · rename_i r hr
      obtain ⟨r', hr', hown⟩ := h.relaying.owned i leg p hmem hp
      obtain rfl := Option.some.inj (hr.symm.trans hr')
      split
      · rename_i hstate
        apply h.setState hp hr (by simp [hstate]) _ hle
        intro leg' hleg'
        obtain rfl := RelayState.parked.inj hleg'
        exact ⟨hown, h.relaying.claimed i leg hmem, honce⟩
      · rename_i first hstate
        obtain ⟨hfirst, hclaimed, hnot⟩ := h.relaying.parked i p r first hp hr hstate
        have hne : first.id ≠ leg.id := by
          intro heq
          apply hnot
          rw [heq]
          exact (Multiset.mem_filterMap _ _).mpr ⟨_, hmem, rfl⟩
        have hspliced := h.setState hp hr (by simp [hstate]) .spliced hle
          (fun leg' hleg' => absurd hleg' (by simp))
        refine hspliced.splice (AList.lookup_insert _) rfl rfl ?_ ?_
        · intro hi
          obtain ⟨s, hs, hs'⟩ := h.joined.spliced i p hi hp
          obtain rfl := Option.some.inj (hr.symm.trans hs)
          exact absurd hs' (by simp [hstate])
        · refine ⟨hclaimed, h.relaying.claimed i leg hmem, hne, ?_⟩
          have haccepted := h.attested.pairs i p hp
          -- The legs are different, so that one is of the consumer and one of the provider.
          rcases hfirst with ⟨hid, hclient⟩ | ⟨hid, hclient⟩
          · rcases hown with ⟨hid', -⟩ | ⟨-, hclient'⟩
            · exact absurd (hid.trans hid'.symm) hne
            · rw [hclient, hclient']
              exact Or.inl haccepted
          · rcases hown with ⟨-, hclient'⟩ | ⟨hid', -⟩
            · rw [hclient, hclient']
              exact Or.inr haccepted
            · exact absurd (hid.trans hid'.symm) hne
      · exact hdropped

/-! ### Claims -/

theorem takeClaim_eq_some {claims claims' : Table ℕ Claim} {id pairId : ℕ} {clientId : String}
    {capability : Capability} (h : takeClaim claims id clientId capability = some (pairId, claims')) :
  ∃ c, claims.lookup id = some c ∧ clientId = c.clientId ∧ capability = c.capability
    ∧ pairId = c.pairId ∧ claims' = claims.erase id
  := by
  rw [takeClaim] at h
  split at h
  · exact absurd h (by simp)
  · rename_i c hc
    split at h
    · rename_i howner
      obtain ⟨rfl, rfl⟩ := Prod.mk.inj (Option.some.inj h)
      exact ⟨c, hc, howner.1, howner.2, rfl, rfl⟩
    · exact absurd h (by simp)

theorem mem_claimed {log : List BrokerEvent} {id : ℕ} {c : Claim} {clientId : String}
    {capability : Capability} (h : .claimed id c clientId capability ∈ log) :
  id ∈ log.filterMap BrokerEvent.claimedId
  := List.mem_filterMap.mpr ⟨_, h, rfl⟩

/-- An id is claimed that is in neither table any more. -/
theorem Sound.claim {l : Ledger} (h : l.Sound) {id : ℕ} (c : Claim) (hlt : id < l.rv.nextId)
    (hprobes : l.rv.probes.lookup id = none) (hlegs : l.rv.relayLegs.lookup id = none)
    (hfirst : id ∉ l.log.filterMap BrokerEvent.claimedId) :
  Sound { l with log := .claimed id c c.clientId c.capability :: l.log }
  := by
  refine ⟨h.pairs, h.clients, h.drawn.cons hlt, h.probing, ⟨?_, ?_, ?_⟩, h.relaying.cons _,
    h.told.cons rfl, h.joined.cons rfl, h.attested.cons rfl⟩
  · exact List.nodup_cons.mpr ⟨hfirst, h.consumed.once⟩
  · intro id' hid'
    rcases List.mem_cons.mp hid' with rfl | hid'
    · exact ⟨hprobes, hlegs⟩
    · exact h.consumed.gone id' hid'
  · intro id' c' clientId capability hmem
    rcases List.mem_cons.mp hmem with heq | hmem
    · obtain ⟨rfl, rfl, rfl, rfl⟩ := BrokerEvent.claimed.inj heq
      exact ⟨rfl, rfl⟩
    · exact h.consumed.own id' c' clientId capability hmem

/-- A probe is claimed. -/
theorem Sound.takeProbe {l : Ledger} (h : l.Sound) {id : ℕ} {c : Claim}
    (hc : l.rv.probes.lookup id = some c) :
  Sound { l with
    rv := { l.rv with probes := l.rv.probes.erase id }
    log := .claimed id c c.clientId c.capability :: l.log }
  := by
  obtain ⟨use, huse⟩ := h.drawn.used
  obtain ⟨hlt, huses⟩ := huse .probes id (Or.inl (by simp [Live, hc]))
  have herased : Sound { l with rv := { l.rv with probes := l.rv.probes.erase id } } :=
    h.fades ⟨fun j p hj => ⟨p, hj, Like.refl p⟩, Within.erase _ _, Within.refl _, le_rfl, rfl,
      fun _ => List.Subset.refl _, le_rfl, rfl, rfl⟩
  apply herased.claim c hlt
  · exact AList.lookup_erase _ _
  · by_contra hlive
    obtain ⟨-, huses'⟩ := huse .relayLegs id (Or.inl hlive)
    exact absurd (huses.symm.trans huses') (by simp)
  · intro hmem
    exact absurd hc (by simp [(h.consumed.gone id hmem).1])

/-- A leg is claimed, and is on its way to be parked. -/
theorem Sound.takeRelayLeg {l : Ledger} (h : l.Sound) {id : ℕ} {c : Claim}
    (hc : l.rv.relayLegs.lookup id = some c) :
  Sound { l with
    rv := { l.rv with relayLegs := l.rv.relayLegs.erase id }
    log := .claimed id c c.clientId c.capability :: l.log
    duties := .parkLeg c.pairId ⟨c.clientId, id⟩ ::ₘ l.duties }
  := by
  obtain ⟨use, huse⟩ := h.drawn.used
  obtain ⟨hlt, huses⟩ := huse .relayLegs id (Or.inl (by simp [Live, hc]))
  have hfirst : id ∉ l.log.filterMap BrokerEvent.claimedId := by
    intro hmem
    exact absurd hc (by simp [(h.consumed.gone id hmem).2])
  have herased : Sound { l with rv := { l.rv with relayLegs := l.rv.relayLegs.erase id } } :=
    h.fades ⟨fun j p hj => ⟨p, hj, Like.refl p⟩, Within.refl _, Within.erase _ _, le_rfl, rfl,
      fun _ => List.Subset.refl _, le_rfl, rfl, rfl⟩
  have hclaimed := herased.claim c hlt
    (by
      by_contra hlive
      obtain ⟨-, huses'⟩ := huse .probes id (Or.inl hlive)
      exact absurd (huses.symm.trans huses') (by simp))
    (AList.lookup_erase _ _) hfirst
  have hduty {e : Errand} (he : e ∈ Errand.parkLeg c.pairId ⟨c.clientId, id⟩ ::ₘ l.duties) :
      e = .parkLeg c.pairId ⟨c.clientId, id⟩ ∨ e ∈ l.duties := Multiset.mem_cons.mp he
  -- What was claimed before has another id.
  have hother {i : ℕ} {leg : RelayLeg} (hleg : Claimed l.log i leg) : leg.id ≠ id := by
    rintro rfl
    obtain ⟨claim, capability, hmem, -⟩ := hleg
    exact hfirst (mem_claimed hmem)
  refine ⟨hclaimed.pairs, hclaimed.clients, ?_, ⟨hclaimed.probing.fits, ?_, ?_⟩,
    hclaimed.consumed, ⟨hclaimed.relaying.fits, hclaimed.relaying.apart, ?_, ?_, ?_, ?_⟩,
    hclaimed.told, hclaimed.joined, ?_⟩
  · apply hclaimed.drawn.draw .pairs
    · exact le_rfl
    · rintro t id' (hlive | ⟨table, htable, hmem⟩)
      · cases t <;> exact Or.inl (Or.inl hlive)
      · rcases hduty hmem with heq | hmem
        · exact absurd heq (by simp)
        · exact Or.inl (Or.inr ⟨table, htable, hmem⟩)
    · exact fun id' c' hc' => Or.inl hc'
    · exact fun id' c' hc' => Or.inl hc'
    · intro i hi
      rcases hduty hi with heq | hmem
      · exact absurd heq (by simp)
      · exact Or.inl hmem
    · intro i leg hi
      rcases hduty hi with heq | hmem
      · obtain ⟨rfl, -⟩ := Errand.parkLeg.inj heq
        exact Or.inr (h.drawn.legs id c hc)
      · exact Or.inl hmem
    · exact fun e he => Or.inl he
  · intro id' c' hc' hmem
    rcases hduty hmem with heq | hmem
    · exact absurd heq (by simp)
    · exact h.probing.unstarted id' c' hc' hmem
  · rw [Multiset.filterMap_cons_none _ _ rfl]
    exact h.probing.once
  · intro i leg hi
    rcases hduty hi with heq | hmem
    · obtain ⟨rfl, rfl⟩ := Errand.parkLeg.inj heq
      exact ⟨c, c.capability, List.mem_cons_self, rfl⟩
    · exact (h.relaying.claimed i leg hmem).cons _
  · intro i leg p hi hp
    rcases hduty hi with heq | hmem
    · obtain ⟨rfl, rfl⟩ := Errand.parkLeg.inj heq
      exact h.relaying.fits id c p hc hp
    · exact h.relaying.owned i leg p hmem hp
  · rw [Multiset.filterMap_cons_some Errand.parks _ _ rfl, Multiset.nodup_cons]
    refine ⟨?_, h.relaying.once⟩
    intro hmem
    obtain ⟨e, he, heq⟩ := (Multiset.mem_filterMap _ _).mp hmem
    cases e with
    | parkLeg i leg => exact hother (h.relaying.claimed i leg he) (Option.some.inj heq)
    | _ => exact absurd heq (by simp [Errand.parks])
  · intro i p r leg hp hr hstate
    obtain ⟨hown, hleg, hnot⟩ := h.relaying.parked i p r leg hp hr hstate
    refine ⟨hown, hleg.cons _, ?_⟩
    rw [Multiset.filterMap_cons_some Errand.parks _ _ rfl, Multiset.mem_cons]
    rintro (heq | hmem)
    · exact hother hleg heq
    · exact hnot hmem
  · exact hclaimed.attested.mono (fun i p hp => ⟨p, hp, rfl, rfl, rfl⟩) rfl rfl rfl

end Ledger

end ZeroNat

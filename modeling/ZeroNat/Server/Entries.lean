import ZeroNat.Server.Bookings

/-!
# Pairs, clients and flows in the books

A pair is accepted for two clients that are registered and have different identities, with an id
that was not drawn before.  Clients come and go, and claim identities.  A public flow is parked
under an id of its own.
-/

namespace ZeroNat

namespace Ledger

/-! ### Pairs that are accepted -/

theorem foldl_forgetPairIds (removed : List Pair) (rv : Rendezvous) :
  (removed.foldl Rendezvous.forgetPairIds rv).pairs = rv.pairs
    ∧ Within (removed.foldl Rendezvous.forgetPairIds rv).probes rv.probes
    ∧ Within (removed.foldl Rendezvous.forgetPairIds rv).relayLegs rv.relayLegs
    ∧ (removed.foldl Rendezvous.forgetPairIds rv).nextId = rv.nextId
  := by
  induction removed generalizing rv with
  | nil => exact ⟨rfl, Within.refl _, Within.refl _, rfl⟩
  | cons p removed ih =>
      obtain ⟨hpairs, hprobes, hlegs, hnext⟩ := ih (rv.forgetPairIds p)
      refine ⟨hpairs, ?_, ?_, hnext⟩
      · intro id c hc
        exact Within.foldl_erase p.probeIds _ id c (hprobes id c hc)
      · intro id c hc
        exact Within.foldl_erase p.legIds _ id c (hlegs id c hc)

/-- The pairs that a consumer replaces are gone, and nothing new has come. -/
theorem fades_dropReplaced (l : Ledger) (consumerId providerId : String) (want : UInt8) :
  Fades l { l with rv := l.rv.dropReplaced consumerId providerId want }
    ∧ ∀ i p, (l.rv.dropReplaced consumerId providerId want).pairs.lookup i = some p →
        ¬ Rendezvous.Same consumerId providerId want p
  := by
  obtain ⟨hpairs, hprobes, hlegs, hnext⟩ := foldl_forgetPairIds
    ((l.rv.pairs.toList.map Prod.snd).filter
      fun p => Rendezvous.Same consumerId providerId want p)
    { l.rv with
      pairs := l.rv.pairs.retain fun _ p => ¬ Rendezvous.Same consumerId providerId want p }
  constructor
  · refine ⟨?_, hprobes, hlegs, hnext.ge, Rendezvous.clients_dropReplaced _ _ _ _,
      fun _ => List.Subset.refl _, le_rfl, rfl, rfl⟩
    intro i p hp
    rw [Rendezvous.dropReplaced] at hp
    dsimp only at hp
    rw [hpairs] at hp
    exact ⟨p, ((Table.lookup_retain _ _ _ _).mp hp).1, Like.refl p⟩
  · intro i p hp
    rw [Rendezvous.dropReplaced, hpairs] at hp
    simpa using ((Table.lookup_retain _ _ _ _).mp hp).2

theorem lt_of_spliced {l : Ledger} (h : l.Drawn) {i : ℕ}
    (hi : i ∈ l.log.filterMap BrokerEvent.splicedId) :
  i < l.rv.nextId
  := by
  obtain ⟨e, he, heq⟩ := List.mem_filterMap.mp hi
  have hbelow := h.log e he
  cases e with
  | spliced j first second =>
      obtain rfl := Option.some.inj heq
      exact hbelow
  | accepted _ _ _ => exact absurd heq (by simp [BrokerEvent.splicedId])
  | informed _ => exact absurd heq (by simp [BrokerEvent.splicedId])
  | claimed _ _ _ _ => exact absurd heq (by simp [BrokerEvent.splicedId])
  | invalidated _ _ => exact absurd heq (by simp [BrokerEvent.splicedId])

/-- A pair is accepted. -/
theorem Sound.accept {l : Ledger} (h : l.Sound) {consumerId providerId : String} {want : UInt8}
    (challenge : Capability) (consumerTx providerTx : ℕ) (hne : consumerId ≠ providerId)
    (hfree : ¬ l.rv.Busy providerId want)
    (hsingle : ∀ i p, l.rv.pairs.lookup i = some p →
      ¬ Rendezvous.Same consumerId providerId want p)
    (hconsumer : l.accounts[consumerTx]? = some consumerId)
    (hprovider : l.accounts[providerTx]? = some providerId) :
  Sound { l with
    rv := l.rv.accept consumerId providerId want challenge
    log := .accepted l.rv.nextId consumerTx providerTx :: l.log
    duties := .startProbes l.rv.nextId ::ₘ l.duties }
  := by
  obtain ⟨use, huse⟩ := h.drawn.used
  have hfresh {i : ℕ} {p : Pair} (hp : l.rv.pairs.lookup i = some p) : i ≠ l.rv.nextId :=
    (huse .pairs i (Or.inl (by simp [Live, hp]))).1.ne
  have hpair {i : ℕ} {p : Pair}
      (hp : (l.rv.accept consumerId providerId want challenge).pairs.lookup i = some p) :
      (i = l.rv.nextId
        ∧ p = ⟨consumerId, providerId, want, challenge, .default, .default, false, none⟩)
        ∨ l.rv.pairs.lookup i = some p := by
    rw [Rendezvous.accept] at hp
    dsimp only at hp
    rw [Table.lookup_insert_eq] at hp
    split at hp
    · rename_i heq
      exact Or.inl ⟨heq, (Option.some.inj hp).symm⟩
    · exact Or.inr hp
  have hduty {e : Errand} (he : e ∈ Errand.startProbes l.rv.nextId ::ₘ l.duties) :
      e = .startProbes l.rv.nextId ∨ e ∈ l.duties := Multiset.mem_cons.mp he
  have hnotbusy {i : ℕ} {p : Pair} (hp : l.rv.pairs.lookup i = some p) (hexit : want = providesExit)
      (hwant : p.want = providesExit) : p.providerId ≠ providerId := by
    intro hsame
    exact hfree ⟨hexit, (i, p), Table.mem_toList.mpr hp, hsame, hwant.trans hexit.symm⟩
  refine ⟨⟨?_, ?_, ?_⟩, h.clients, ?_, ⟨?_, ?_, ?_⟩, ?_, ?_, ?_, ?_, ?_⟩
  · intro i p hp
    rcases hpair hp with ⟨-, rfl⟩ | hp
    · exact hne
    · exact h.pairs.distinct i p hp
  · intro i j p q hp hq hwant hwant' hsame
    rcases hpair hp with ⟨rfl, rfl⟩ | hp
    · rcases hpair hq with ⟨rfl, -⟩ | hq
      · rfl
      · exact absurd hsame.symm (hnotbusy hq hwant hwant')
    · rcases hpair hq with ⟨rfl, rfl⟩ | hq
      · exact absurd hsame (hnotbusy hp hwant' hwant)
      · exact h.pairs.exclusive i j p q hp hq hwant hwant' hsame
  · intro i j p q hp hq hc hv hw
    rcases hpair hp with ⟨rfl, rfl⟩ | hp
    · rcases hpair hq with ⟨rfl, -⟩ | hq
      · rfl
      · exact absurd ⟨hc.symm, hv.symm, hw.symm⟩ (hsingle j q hq)
    · rcases hpair hq with ⟨rfl, rfl⟩ | hq
      · exact absurd ⟨hc, hv, hw⟩ (hsingle i p hp)
      · exact h.pairs.single i j p q hp hq hc hv hw
  · apply h.drawn.draw .pairs
    · exact Nat.le_succ _
    · rintro t id (hlive | ⟨table, htable, hmem⟩)
      · cases t with
        | pairs =>
            obtain ⟨p, hp⟩ := Option.ne_none_iff_exists'.mp hlive
            rcases hpair hp with ⟨rfl, -⟩ | hp
            · exact Or.inr ⟨le_rfl, Nat.lt_succ_self _, rfl⟩
            · exact Or.inl (Or.inl (by simp [Live, hp]))
        | _ => exact Or.inl (Or.inl hlive)
      · rcases hduty hmem with heq | hmem
        · exact absurd heq (by simp)
        · exact Or.inl (Or.inr ⟨table, htable, hmem⟩)
    · exact fun id c hc => Or.inl hc
    · exact fun id c hc => Or.inl hc
    · intro i hi
      rcases hduty hi with heq | hmem
      · obtain rfl := Errand.startProbes.inj heq
        exact Or.inr (Nat.lt_succ_self _)
      · exact Or.inl hmem
    · intro i leg hi
      rcases hduty hi with heq | hmem
      · exact absurd heq (by simp)
      · exact Or.inl hmem
    · intro e he
      rcases List.mem_cons.mp he with rfl | he
      · exact Or.inr (Nat.lt_succ_self _)
      · exact Or.inl he
  · intro id c p hc hp
    rcases hpair hp with ⟨heq, -⟩ | hp
    · exact absurd (h.drawn.probes id c hc) (heq ▸ lt_irrefl _)
    · exact h.probing.fits id c p hc hp
  · intro id c hc hmem
    rcases hduty hmem with heq | hmem
    · exact (h.drawn.probes id c hc).ne (Errand.startProbes.inj heq)
    · exact h.probing.unstarted id c hc hmem
  · rw [Multiset.filterMap_cons_some Errand.starts _ _ rfl, Multiset.nodup_cons]
    refine ⟨?_, h.probing.once⟩
    intro hmem
    obtain ⟨e, he, heq⟩ := (Multiset.mem_filterMap _ _).mp hmem
    cases e with
    | startProbes i => exact (h.drawn.starts i he).ne (Option.some.inj heq)
    | _ => exact absurd heq (by simp [Errand.starts])
  · apply Consumed.cons _ rfl
    exact h.consumed.mono (Within.refl _) (Within.refl _)
  · apply Relaying.cons
    refine ⟨?_, ?_, ?_, ?_, ?_, ?_⟩
    · intro id c p hc hp
      rcases hpair hp with ⟨heq, -⟩ | hp
      · exact absurd (h.drawn.legs id c hc) (heq ▸ lt_irrefl _)
      · exact h.relaying.fits id c p hc hp
    · intro i p r hp hr
      rcases hpair hp with ⟨-, rfl⟩ | hp
      · exact absurd hr (by simp)
      · exact h.relaying.apart i p r hp hr
    · intro i leg hi
      rcases hduty hi with heq | hmem
      · exact absurd heq (by simp)
      · exact h.relaying.claimed i leg hmem
    · intro i leg p hi hp
      rcases hduty hi with heq | hmem
      · exact absurd heq (by simp)
      · rcases hpair hp with ⟨heq, -⟩ | hp
        · exact absurd (h.drawn.parks i leg hmem) (heq ▸ lt_irrefl _)
        · exact h.relaying.owned i leg p hmem hp
    · rw [Multiset.filterMap_cons_none _ _ rfl]
      exact h.relaying.once
    · intro i p r leg hp hr hstate
      rcases hpair hp with ⟨-, rfl⟩ | hp
      · exact absurd hr (by simp)
      · rw [Multiset.filterMap_cons_none _ _ rfl]
        exact h.relaying.parked i p r leg hp hr hstate
  · apply Told.cons _ rfl
    refine ⟨h.told.once, ?_⟩
    intro i p hi hp
    rcases hpair hp with ⟨heq, -⟩ | hp
    · exact absurd (h.drawn.log _ hi) (heq ▸ lt_irrefl _)
    · exact h.told.sent i p hi hp
  · apply Joined.cons _ rfl
    refine ⟨h.joined.once, ?_⟩
    intro i p hi hp
    rcases hpair hp with ⟨heq, -⟩ | hp
    · exact absurd (lt_of_spliced h.drawn hi) (heq ▸ lt_irrefl _)
    · exact h.joined.spliced i p hi hp
  · refine ⟨h.attested.registered, ?_, ?_⟩
    · intro i p hp
      rcases hpair hp with ⟨rfl, rfl⟩ | hp
      · exact ⟨consumerTx, providerTx, List.mem_cons_self, hconsumer, hprovider⟩
      · exact (h.attested.pairs i p hp).cons _
    · intro i first second hmem
      rcases List.mem_cons.mp hmem with heq | hmem
      · exact absurd heq (by simp)
      · exact (h.attested.spliced i first second hmem).cons _

/-! ### Public flows -/

/-- An id is drawn for a public flow. -/
theorem Sound.number {l : Ledger} (h : l.Sound) (table : ClaimTable) :
  Sound { l with
    rv := { l.rv with nextId := l.rv.nextId + 1 }
    duties := .park table l.rv.nextId ::ₘ l.duties }
  := by
  have hduty {e : Errand} (he : e ∈ Errand.park table l.rv.nextId ::ₘ l.duties) :
      e = .park table l.rv.nextId ∨ e ∈ l.duties := Multiset.mem_cons.mp he
  refine ⟨h.pairs, h.clients, ?_, ⟨h.probing.fits, ?_, ?_⟩,
    h.consumed.mono (Within.refl _) (Within.refl _),
    ⟨h.relaying.fits, h.relaying.apart, ?_, ?_, ?_, ?_⟩, h.told, h.joined, ?_⟩
  · apply h.drawn.draw table.ids
    · exact Nat.le_succ _
    · rintro t id (hlive | ⟨table', htable, hmem⟩)
      · cases t <;> exact Or.inl (Or.inl hlive)
      · rcases hduty hmem with heq | hmem
        · obtain ⟨rfl, rfl⟩ := Errand.park.inj heq
          exact Or.inr ⟨le_rfl, Nat.lt_succ_self _, htable.symm⟩
        · exact Or.inl (Or.inr ⟨table', htable, hmem⟩)
    · exact fun id c hc => Or.inl hc
    · exact fun id c hc => Or.inl hc
    · intro i hi
      rcases hduty hi with heq | hmem
      · exact absurd heq (by simp)
      · exact Or.inl hmem
    · intro i leg hi
      rcases hduty hi with heq | hmem
      · exact absurd heq (by simp)
      · exact Or.inl hmem
    · exact fun e he => Or.inl he
  · intro id c hc hmem
    rcases hduty hmem with heq | hmem
    · exact absurd heq (by simp)
    · exact h.probing.unstarted id c hc hmem
  · rw [Multiset.filterMap_cons_none _ _ rfl]
    exact h.probing.once
  · intro i leg hi
    rcases hduty hi with heq | hmem
    · exact absurd heq (by simp)
    · exact h.relaying.claimed i leg hmem
  · intro i leg p hi hp
    rcases hduty hi with heq | hmem
    · exact absurd heq (by simp)
    · exact h.relaying.owned i leg p hmem hp
  · rw [Multiset.filterMap_cons_none _ _ rfl]
    exact h.relaying.once
  · rw [Multiset.filterMap_cons_none _ _ rfl]
    exact h.relaying.parked
  · exact h.attested.mono (fun i p hp => ⟨p, hp, rfl, rfl, rfl⟩) rfl rfl rfl

/-- A public flow is parked. -/
theorem Sound.park {l : Ledger} {table : ClaimTable} {id : ℕ} {duties : Multiset Errand}
    (h : l.Sound) (hduties : l.duties = .park table id ::ₘ duties) :
  Sound { l with
    pending := Function.update l.pending table (id :: l.pending table)
    duties := duties }
  := by
  have hle : duties ≤ l.duties := by
    rw [hduties]
    exact Multiset.le_cons_self _ _
  have hlost : Sound { l with duties := duties } :=
    h.fades ⟨fun j p hj => ⟨p, hj, Like.refl p⟩, Within.refl _, Within.refl _, le_rfl, rfl,
      fun _ => List.Subset.refl _, hle, rfl, rfl⟩
  have hcoming : l.Coming table.ids id := ⟨table, rfl, hduties ▸ Multiset.mem_cons_self _ _⟩
  -- What is parked now was on its way before.
  have hparked (table' : ClaimTable) {id' : ℕ}
      (hid : id' ∈ Function.update l.pending table (id :: l.pending table) table') :
      id' ∈ l.pending table' ∨ l.Coming table'.ids id' := by
    by_cases htable : table' = table
    · subst htable
      rw [Function.update_self] at hid
      rcases List.mem_cons.mp hid with rfl | hid
      · exact Or.inr hcoming
      · exact Or.inl hid
    · rw [Function.update_of_ne htable] at hid
      exact Or.inl hid
  refine ⟨h.pairs, h.clients, ?_, hlost.probing, h.consumed, hlost.relaying, h.told, h.joined,
    h.attested.mono (fun i p hp => ⟨p, hp, rfl, rfl, rfl⟩) rfl rfl rfl⟩
  apply h.drawn.draw .pairs
  · exact le_rfl
  · rintro t id' (hlive | hcoming')
    · cases t with
      | pending => exact Or.inl (hparked .stream hlive)
      | udpPending => exact Or.inl (hparked .udp hlive)
      | _ => exact Or.inl (Or.inl hlive)
    · exact Or.inl (Or.inr (hcoming'.mono hle))
  · exact fun id c hc => Or.inl hc
  · exact fun id c hc => Or.inl hc
  · exact fun i hi => Or.inl (Multiset.mem_of_le hle hi)
  · exact fun i leg hi => Or.inl (Multiset.mem_of_le hle hi)
  · exact fun e he => Or.inl he

/-! ### Clients -/

theorem Accepted.extend {log : List BrokerEvent} {accounts accounts' : List String}
    (hgrown : accounts <+: accounts') {i : ℕ} {a b : String} (h : Accepted log accounts i a b) :
  Accepted log accounts' i a b
  := by
  obtain ⟨consumerTx, providerTx, hlog, hconsumer, hprovider⟩ := h
  obtain ⟨more, rfl⟩ := hgrown
  refine ⟨consumerTx, providerTx, hlog, ?_, ?_⟩
  · rw [List.getElem?_append_left (List.getElem?_eq_some_iff.mp hconsumer).1]
    exact hconsumer
  · rw [List.getElem?_append_left (List.getElem?_eq_some_iff.mp hprovider).1]
    exact hprovider

/-- The registry of the clients changes. -/
theorem Sound.setClients {l : Ledger} (h : l.Sound) {clients : Table String ClientHandle}
    {accounts : List String} (hidentified : Identified clients)
    (hregistered : ∀ id handle, clients.lookup id = some handle →
      accounts[handle.tx]? = some id) (hgrown : l.accounts <+: accounts) :
  Sound { l with rv := { l.rv with clients := clients }, accounts := accounts }
  := by
  refine ⟨h.pairs, hidentified, ?_, ⟨h.probing.fits, h.probing.unstarted, h.probing.once⟩,
    ⟨h.consumed.once, h.consumed.gone, h.consumed.own⟩,
    ⟨h.relaying.fits, h.relaying.apart, h.relaying.claimed, h.relaying.owned, h.relaying.once,
      h.relaying.parked⟩, h.told, h.joined, ⟨hregistered, ?_, ?_⟩⟩
  · obtain ⟨use, huse⟩ := h.drawn.used
    refine ⟨⟨use, ?_⟩, h.drawn.probes, h.drawn.legs, h.drawn.starts, h.drawn.parks, h.drawn.log⟩
    intro t id hlive
    apply huse t id
    cases t <;> exact hlive
  · intro i p hp
    exact (h.attested.pairs i p hp).extend hgrown
  · intro i first second hmem
    obtain ⟨hfirst, hsecond, hne, hparties⟩ := h.attested.spliced i first second hmem
    exact ⟨hfirst, hsecond, hne, hparties.imp (·.extend hgrown) (·.extend hgrown)⟩

theorem identified_insert {clients : Table String ClientHandle} (h : Identified clients)
    {id : String} {handle : ClientHandle}
    (hnew : ∀ identity, handle.peerIdentity = some identity →
      ∃ held, clients.lookup id = some held ∧ held.peerIdentity = some identity) :
  Identified (clients.insert id handle)
  := by
  -- An entry of the new table has the identity of the one that is in its place.
  have hold {a : String} {g : ClientHandle} {identity : PeerIdentity}
      (hg : (clients.insert id handle).lookup a = some g)
      (hidentity : g.peerIdentity = some identity) :
      ∃ g', clients.lookup a = some g' ∧ g'.peerIdentity = some identity := by
    rw [Table.lookup_insert_eq] at hg
    split at hg
    · rename_i heq
      obtain rfl := Option.some.inj hg
      rw [heq]
      exact hnew identity hidentity
    · exact ⟨g, hg, hidentity⟩
  intro a b g k identity hg hk hidentity hidentity'
  obtain ⟨g', hg', hga⟩ := hold hg hidentity
  obtain ⟨k', hk', hkb⟩ := hold hk hidentity'
  exact h a b g' k' identity hg' hk' hga hkb

theorem identified_erase {clients : Table String ClientHandle} (h : Identified clients)
    (id : String) :
  Identified (clients.erase id)
  := by
  have hold {a : String} {g : ClientHandle} (hg : (clients.erase id).lookup a = some g) :
      clients.lookup a = some g := by
    rw [Table.lookup_erase_eq] at hg
    split at hg
    · exact absurd hg (by simp)
    · exact hg
  intro a b g k identity hg hk hidentity hidentity'
  exact h a b g k identity (hold hg) (hold hk) hidentity hidentity'

/-- An identity that is claimed is taken from whoever had it. -/
theorem identified_claimed {clients : Table String ClientHandle} (h : Identified clients)
    (clientId : String) (provides : UInt8) (identity : PeerIdentity) :
  Identified (clients.mapValues (Rendezvous.claimed clientId provides identity))
  := by
  -- A client other than the one that claims has what it had, and not what is claimed.
  have hother {a : String} {g : ClientHandle} {held : PeerIdentity}
      (hg : (clients.mapValues (Rendezvous.claimed clientId provides identity)).lookup a = some g)
      (hheld : g.peerIdentity = some held) :
      (a = clientId ∧ held = identity)
        ∨ held ≠ identity ∧ ∃ g', clients.lookup a = some g' ∧ g'.peerIdentity = some held := by
    rw [Table.lookup_mapValues] at hg
    obtain ⟨g', hg', rfl⟩ := Option.map_eq_some_iff.mp hg
    rw [Rendezvous.claimed] at hheld
    split at hheld
    · rename_i heq
      exact Or.inl ⟨heq, (Option.some.inj hheld).symm⟩
    · split at hheld
      · exact absurd hheld (by simp)
      · rename_i hne
        exact Or.inr ⟨fun heq => hne (heq ▸ hheld), g', hg', hheld⟩
  intro a b g k held hg hk hheld hheld'
  rcases hother hg hheld with ⟨rfl, rfl⟩ | ⟨hne, g', hg', hga⟩
  · rcases hother hk hheld' with ⟨rfl, -⟩ | ⟨hne, -⟩
    · rfl
    · exact absurd rfl hne
  · rcases hother hk hheld' with ⟨-, heq⟩ | ⟨-, k', hk', hkb⟩
    · exact absurd heq hne
    · exact h a b g' k' held hg' hk' hga hkb

/-! ### Paths -/

theorem like_reported {p p' : Pair} {clientId : String} {status : PathStatus}
    (h : Rendezvous.reported p clientId status = some p') :
  Like p p'
  := by
  rw [Rendezvous.reported] at h
  split at h
  · split at h
    · obtain rfl := Option.some.inj h
      exact ⟨⟨rfl, rfl, rfl⟩, rfl, rfl, rfl, id⟩
    · exact absurd h (by simp)
  · split at h
    · split at h
      · obtain rfl := Option.some.inj h
        exact ⟨⟨rfl, rfl, rfl⟩, rfl, rfl, rfl, id⟩
      · exact absurd h (by simp)
    · exact absurd h (by simp)

/-- A party reports its path, and a relay may be opened. -/
theorem Sound.peerPath {l : Ledger} (h : l.Sound) (clientId : String) (tx i : ℕ)
    (status : PathStatus) (forConsumer forProvider : Option Capability) :
  Sound { l with rv := (l.rv.peerPath clientId tx i status forConsumer forProvider).1 }
  := by
  rw [Rendezvous.peerPath]
  split
  · rename_i handle pair hhandle hpair
    split
    · exact h
    · split
      · exact h
      · rename_i pair' hreported
        have htraces := traces_insert Like.refl hpair (like_reported hreported)
        have hpath (n : ℕ) : Sound { l with
            rv := { l.rv with pairs := l.rv.pairs.insert i pair', nextId := l.rv.nextId + n } } :=
          h.fades ⟨htraces, Within.refl _, Within.refl _, Nat.le_add_right _ _, rfl,
            fun _ => List.Subset.refl _, le_rfl, rfl, rfl⟩
        dsimp only
        split
        · rename_i hopen
          split
          · exact (hpath 0).openRelay (AList.lookup_insert _) hopen.2 _ _
          · exact hpath 2
        · exact hpath 0
  · exact h

end Ledger

end ZeroNat

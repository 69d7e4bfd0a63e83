import ZeroNat.Peer.Knowledge

/-!
# Authentic sessions

A consumer whose handshake returns a session has been served by the holder of the identity that
it was given, and a provider that serves a session serves the consumer that the pair was routed
for.
-/

namespace ZeroNat.Peer

open Term SymmetricState

section

variable {w : World} {r i j : ℕ} {pair : Routing}

/-- The secret of two honest keys is not known to the attacker. -/
theorem not_allPublic_x25519 {made : Term → Prop} {n n' : Name} (hn : ∀ a, n ≠ .adversary a)
    (hn' : ∀ a, n' ≠ .adversary a) :
  ¬AllPublic made (suite.x25519 (keyOf n) (suite.publicIdentity (keyOf n')))
  := by
  rw [publicIdentity_suite]
  change ¬AllPublic made (Term.x25519 _ _)
  rw [x25519_pub]
  exact not_allPublic_dhOf hn hn'

/-- Two sides that have hashed the same agree on the pair and on each other's ephemeral key. -/
theorem hashed_injective {r' i' : ℕ} {pair' : Routing} {re re' s s' : List Term}
    (h : transcript suite (consumerHashed r i pair re s)
      = transcript suite (providerHashed r' i' pair' re' s')) :
  re = suite.publicIdentity (ephemeralKey r') ∧ re' = suite.publicIdentity (ephemeralKey r)
    ∧ pair'.pairId = pair.pairId ∧ pair'.provides = pair.provides
    ∧ pair'.challenge = pair.challenge ∧ pair'.peer = suite.publicIdentity (staticKey i)
    ∧ pair.peer = suite.publicIdentity (staticKey i')
  := by
  obtain ⟨_, h⟩ := transcript_cons_injective h
  obtain ⟨hre, h⟩ := transcript_cons_injective h
  obtain ⟨_, h⟩ := transcript_cons_injective h
  obtain ⟨hre', h⟩ := transcript_cons_injective h
  obtain ⟨hprologue, _⟩ := transcript_cons_injective h
  obtain ⟨hid, hprovides, hconsumer, hprovider, hchallenge⟩ := pairPrologue_injective hprologue
    (by rw [lawful_suite.length_publicIdentity, pair'.length_peer])
    (by rw [lawful_suite.length_publicIdentity, pair.length_peer])
  exact ⟨hre, hre'.symm, hid.symm, hprovides.symm, hchallenge.symm, hconsumer.symm, hprovider⟩

theorem publicIdentity_injective {n n' : Name}
    (h : suite.publicIdentity (keyOf n) = suite.publicIdentity (keyOf n')) :
  n = n'
  := by
  rw [publicIdentity_suite, publicIdentity_suite] at h
  have hkey := Term.pub.inj (block_injective (by decide) h)
  exact keyOf_injective (ofList_injective hkey)

/-- A consumer that has read message two from an honest identity has read it from a run of the
holder, which has hashed the same. -/
theorem HeardTwo.exists_provider {noise : StatelessNoise Term} {re s : List Term}
    (h : HeardTwo (Made w) r i pair noise re s)
    (hpeer : pair.peer = suite.publicIdentity (staticKey j)) :
  ∃ r' pair' policy state, w.parties[r']? = some (.provider j pair' policy state)
    ∧ re = suite.publicIdentity (ephemeralKey r')
    ∧ pair'.pairId = pair.pairId ∧ pair'.provides = pair.provides
    ∧ pair'.challenge = pair.challenge ∧ pair'.peer = suite.publicIdentity (staticKey i)
  := by
  obtain ⟨payload, hpayload⟩ := h.payload
  have hsecret : ¬AllPublic (Made w) (suite.x25519 (ephemeralKey r) pair.peer) := by
    rw [hpeer]
    exact not_allPublic_x25519 (by simp) (by simp)
  obtain ⟨_, horigin, _⟩ := origin_of_allPublic hpayload (Or.inl rfl) hsecret
  obtain ⟨r', j', pair', policy, state, re', s', hr', had⟩ :=
    horigin.messageTwo_inv rfl (x25519_ne_nil _ _) rfl
  obtain ⟨hre, _, hid, hprovides, hchallenge, hconsumer, hprovider⟩ := hashed_injective had
  obtain rfl : j' = j :=
    Name.static.inj (publicIdentity_injective (hprovider.symm.trans hpeer))
  exact ⟨r', pair', policy, state, hr', hre, hid, hprovides, hchallenge, hconsumer⟩

/-- The exchange of two ephemeral keys names the two runs. -/
theorem ephemeral_eq {r r' r'' : ℕ} {re : List Term}
    (h : suite.x25519 (ephemeralKey r) (suite.publicIdentity (ephemeralKey r'))
      = suite.x25519 (ephemeralKey r'') re) :
  r'' = r ∨ r'' = r'
  := by
  rw [publicIdentity_suite] at h
  change Term.x25519 _ _ = Term.x25519 _ _ at h
  rw [x25519_pub] at h
  obtain ⟨t, rfl, hdh⟩ := x25519_eq_dhOf h.symm
  rcases dhOf_inj hdh with ⟨hr, _⟩ | ⟨hr, _⟩
  · exact Or.inl (Name.ephemeral.inj (keyOf_injective (ofList_injective hr)))
  · exact Or.inr (Name.ephemeral.inj (keyOf_injective (ofList_injective hr)))

/-- A consumer that has opened a ready verdict has opened that of the run that it reads. -/
theorem exists_ready {state : Initiator Term} {r' : ℕ} {re : List Term} {n : UInt64}
    (hr : w.parties[r]? = some (.consumer i pair state))
    (hre : re = suite.publicIdentity (ephemeralKey r'))
    (hpeer : pair.peer = suite.publicIdentity (staticKey j))
    (hverdict : AllPublic (Made w)
      (suite.aeadEncrypt (suite.hkdf (chain suite (consumerSecrets r i pair re)) [] 1) n []
        (lit [verdictReady]))) :
  ∃ j' pair' policy hs, w.parties[r']? = some (.provider j' pair' policy (.finished (.ok hs)))
    ∧ hs.refused = none
    ∧ hs.noise.sendKey = suite.hkdf (chain suite (consumerSecrets r i pair re)) [] 1
  := by
  have hsecret : ¬AllPublic (Made w) (suite.x25519 (ephemeralKey r) pair.peer) := by
    rw [hpeer]
    exact not_allPublic_x25519 (by simp) (by simp)
  obtain ⟨k, horigin, hkey⟩ :=
    origin_of_allPublic hverdict (Or.inr (List.mem_cons_of_mem _ List.mem_cons_self)) hsecret
  have hk : k ≠ 0 := by
    rintro rfl
    exact hkdf_zero_ne_one _ _ _ _ hkey.symm
  obtain ⟨r'', j', pair', policy, hs, re', rs, hr'', hsecrets, hsend, hready⟩ :=
    horigin.providerSession_inv rfl hk
  have hee : suite.x25519 (ephemeralKey r) re = suite.x25519 (ephemeralKey r'') re' := by
    have h := congrArg List.getLast? hsecrets
    exact Option.some.inj h
  rw [hre] at hee
  rcases ephemeral_eq hee with rfl | rfl
  · cases hr.symm.trans hr''
  · exact ⟨j', pair', policy, hs, hr'', hready rfl, hsend⟩

/-- A provider that has read message three from an honest identity, the one that the pair was
routed for, has read it from a run of the holder, which has hashed the same. -/
theorem HeardThree.exists_consumer {policy : Policy Term} {hs : Handshaked Term}
    {re rs : List Term} (h : HeardThree (Made w) r i pair policy hs re rs) (hrs : rs = pair.peer)
    (hpeer : pair.peer = suite.publicIdentity (staticKey j)) :
  ∃ (r' : ℕ) (pair' : Routing) (state : Initiator Term),
    w.parties[r']? = some (.consumer j pair' state)
    ∧ pair'.pairId = pair.pairId ∧ pair'.provides = pair.provides
    ∧ pair'.challenge = pair.challenge ∧ pair'.peer = suite.publicIdentity (staticKey i)
  := by
  obtain ⟨s, ct, s', hpayload⟩ := h.payload
  have hsecret : ¬AllPublic (Made w) (suite.x25519 (ephemeralKey r) rs) := by
    rw [hrs, hpeer]
    exact not_allPublic_x25519 (by simp) (by simp)
  obtain ⟨_, horigin, _⟩ := origin_of_allPublic hpayload (Or.inl rfl) hsecret
  obtain ⟨r', j', pair', state, _, _, _, _, hr', had⟩ :=
    horigin.messageThree_inv rfl (x25519_ne_nil _ _)
  obtain ⟨_, had⟩ := transcript_cons_injective had
  obtain ⟨_, had⟩ := transcript_cons_injective had
  obtain ⟨_, _, hid, hprovides, hchallenge, hconsumer, hprovider⟩ := hashed_injective had.symm
  obtain rfl : j' = j :=
    Name.static.inj (publicIdentity_injective (hconsumer.symm.trans hpeer))
  exact ⟨r', pair', state, hr', hid.symm, hprovides.symm, hchallenge.symm, hprovider⟩

/-- The session of a provider runs on keys that are made from a static key that it was
presented. -/
def Presented (r i : ℕ) (hs : Handshaked Term) (presented : List Term) : Prop :=
  ∃ re, hs.noise.sendKey = suite.hkdf (chain suite (providerSecrets r i re presented)) [] 1
    ∧ hs.noise.recvKey = suite.hkdf (chain suite (providerSecrets r i re presented)) [] 0

/-- The frame of a ready verdict. -/
noncomputable def readyReply (hs : Handshaked Term) : List Term :=
  handshakeFrame (u64Bytes 0 ++ suite.aeadEncrypt hs.noise.sendKey 0 [] (lit [verdictReady]))

/-- Whatever an attacker does to the frames of any number of runs: a consumer whose handshake has
returned a session, for the identity of an honest party, has a run of the holder of that identity
with the same pair, capability and challenge and with its own identity, that sealed a ready
verdict under the same keys; and a provider whose session is not refused was presented a static
key that it allows, that the pair was routed for, with no reason of its own to refuse.  If that
is the key of an honest party, then the party ran the handshake for this pair. -/
theorem session_authentic {as : List Action}
    (h : Run (Meeting World.Allowed fun w a w' => w.step a = some w') World.empty as w) :
  (∀ (r i : ℕ) (pair : Routing) (hs : Handshaked Term) (j : ℕ),
      w.parties[r]? = some (.consumer i pair (.finished (.ok hs))) →
      pair.peer = suite.publicIdentity (staticKey j) →
      ∃ (r' : ℕ) (pair' : Routing) (policy : Policy Term) (hs' : Handshaked Term),
        w.parties[r']? = some (.provider j pair' policy (.finished (.ok hs')))
        ∧ pair'.pairId = pair.pairId ∧ pair'.provides = pair.provides
        ∧ pair'.challenge = pair.challenge ∧ pair'.peer = suite.publicIdentity (staticKey i)
        ∧ hs'.refused = none ∧ (∃ seen, hs'.retransmit = some ⟨seen, readyReply hs'⟩)
        ∧ hs'.noise.sendKey = hs.noise.recvKey ∧ hs'.noise.recvKey = hs.noise.sendKey)
    ∧ ∀ (r i : ℕ) (pair : Routing) (policy : Policy Term) (hs : Handshaked Term),
        w.parties[r]? = some (.provider i pair policy (.finished (.ok hs))) →
        hs.refused = none →
        ∃ presented, Presented r i hs presented
          ∧ presented ∈ policy.allow ∧ presented = pair.peer ∧ policy.refuse = []
          ∧ ∀ j, presented = suite.publicIdentity (staticKey j) →
              ∃ (r' : ℕ) (pair' : Routing) (state : Initiator Term),
                w.parties[r']? = some (.consumer j pair' state)
                ∧ pair'.pairId = pair.pairId ∧ pair'.provides = pair.provides
                ∧ pair'.challenge = pair.challenge
                ∧ pair'.peer = suite.publicIdentity (staticKey i)
  := by
  have hinv := World.inv_of_run h
  constructor
  · intro r i pair hs j hr hpeer
    obtain ⟨_, ⟨re, s, hheard⟩, n, hverdict⟩ := hinv.parties r _ hr
    obtain ⟨r', pair', policy, state, hr', hre, hid, hprovides, hchallenge, hconsumer⟩ :=
      hheard.exists_provider hpeer
    rw [hheard.recvKey] at hverdict
    obtain ⟨j', pair'', policy', hs', hr'', hready, hsend⟩ := exists_ready hr hre hpeer hverdict
    obtain ⟨rfl, rfl, rfl, rfl⟩ := Party.provider.inj (Option.some.inj (hr'.symm.trans hr''))
    obtain ⟨_, re', rs, hheard'⟩ := hinv.parties r' _ hr''
    refine ⟨r', pair', policy, hs', hr'', hid, hprovides, hchallenge, hconsumer, hready, ?_, ?_, ?_⟩
    · obtain ⟨seen, hreply⟩ := hheard'.reply
      refine ⟨seen, ?_⟩
      rw [hreply, replyTo, hheard'.refused.mp hready]
      rfl
    · rw [hsend, hheard.recvKey]
    · have hck := (hkdf_injective (hheard'.sendKey.symm.trans hsend)).1
      rw [hheard'.recvKey, hheard.sendKey, hck]
  · intro r i pair policy hs hr hrefused
    obtain ⟨_, re, rs, hheard⟩ := hinv.parties r _ hr
    obtain ⟨hallow, hrs, hrefuse⟩ := Responder.reasonFor_eq_nil (hheard.refused.mp hrefused)
    refine ⟨rs, ⟨re, hheard.sendKey, hheard.recvKey⟩, hallow, hrs, hrefuse, ?_⟩
    intro j hj
    exact hheard.exists_consumer hrs (hrs.symm.trans hj)

end

/-- A pair that is served. -/
noncomputable def served : Setup Term where
  suite := suite
  pairId := 1
  provides := 1
  challenge := lit (List.replicate 32 3)
  consumerStatic := staticKey 0
  providerStatic := staticKey 1
  consumerEphemeral := ephemeralKey 0
  providerEphemeral := ephemeralKey 1
  policy := ⟨lit [], [suite.publicIdentity (staticKey 0)]⟩

/-- What a side of the pair is told, with the party on the other end. -/
noncomputable def routedTo (j : ℕ) : Routing where
  pairId := 1
  provides := 1
  peer := suite.publicIdentity (staticKey j)
  challenge := lit (List.replicate 32 3)
  length_peer := lawful_suite.length_publicIdentity _
  length_challenge := length_lit _

/-- The attacker passes every frame on. -/
noncomputable def servedActions : List Action :=
  [.startConsumer 0 (routedTo 1),
    .startProvider 1 (routedTo 0) [] [suite.publicIdentity (staticKey 0)],
    .input 1 (.frame (handshakeFrame served.one.1)),
    .input 0 (.frame (handshakeFrame served.two.1)),
    .input 1 (.frame (handshakeFrame served.three.1)),
    .input 0 (.frame (handshakeFrame served.verdict))]

theorem reason_served :
  served.reason = []
  := by
  have hallow : served.suite.publicIdentity served.consumerStatic ∈ served.policy.allow :=
    List.mem_singleton_self _
  have hpeer : served.suite.publicIdentity served.consumerStatic = served.provider.peer := rfl
  rw [Setup.reason, Responder.reasonFor, if_neg (not_not_intro hallow),
    if_neg (not_not_intro hpeer)]
  rfl

/-- The world in which the pair is alone. -/
noncomputable def servedWorld (consumer : Initiator Term) (provider : Responder Term)
    (sent : List (List Term)) : World :=
  ⟨[.consumer 0 (routedTo 1) consumer, .provider 1 (routedTo 0) served.policy provider], sent⟩

theorem meeting_startConsumer :
  Meeting World.Allowed (fun w a w' => w.step a = some w') World.empty
    (.startConsumer 0 (routedTo 1))
    ⟨[.consumer 0 (routedTo 1) (.awaitTwo served.one.2 (handshakeFrame served.one.1))],
      [handshakeFrame served.one.1]⟩
  := ⟨trivial, rfl⟩

theorem meeting_startProvider :
  Meeting World.Allowed (fun w a w' => w.step a = some w')
    ⟨[.consumer 0 (routedTo 1) (.awaitTwo served.one.2 (handshakeFrame served.one.1))],
      [handshakeFrame served.one.1]⟩
    (.startProvider 1 (routedTo 0) [] [suite.publicIdentity (staticKey 0)])
    (servedWorld (.awaitTwo served.one.2 (handshakeFrame served.one.1))
      (.awaitOne served.listening) [handshakeFrame served.one.1])
  := ⟨trivial, rfl⟩

/-- A frame that was sent is delivered to the consumer. -/
theorem meeting_consumer {consumer : Initiator Term} (provider : Responder Term)
    {sent : List (List Term)} {f : List Term} {q : Initiator Term × List (List Term)}
    (hf : f ∈ sent) (hq : consumer.onFrame served.suite served.consumer f = q) :
  Meeting World.Allowed (fun w a w' => w.step a = some w') (servedWorld consumer provider sent)
    (.input 0 (.frame f)) (servedWorld q.1 provider (sent ++ q.2))
  := by
  subst hq
  exact ⟨Derives.seen (Or.inl hf), rfl⟩

/-- A frame that was sent is delivered to the provider. -/
theorem meeting_provider (consumer : Initiator Term) {provider : Responder Term}
    {sent : List (List Term)} {f : List Term} {q : Responder Term × List (List Term)}
    (hf : f ∈ sent) (hq : provider.onFrame served.suite served.policy served.provider f = q) :
  Meeting World.Allowed (fun w a w' => w.step a = some w') (servedWorld consumer provider sent)
    (.input 1 (.frame f)) (servedWorld consumer q.1 (sent ++ q.2))
  := by
  subst hq
  exact ⟨Derives.seen (Or.inl hf), rfl⟩

theorem run_served :
  ∃ hs, ∃ provider sent,
    Run (Meeting World.Allowed fun w a w' => w.step a = some w') World.empty servedActions
      (servedWorld (.finished (.ok hs)) provider sent)
  := by
  obtain ⟨hs, hverdict⟩ := Setup.onFrame_verdict (c := served) lawful_suite reason_served
  have hone := meeting_provider (.awaitTwo served.one.2 (handshakeFrame served.one.1))
    (List.mem_singleton_self _) (Setup.onFrame_one lawful_suite)
  have htwo := meeting_consumer
    (.awaitThree served.two.2 served.one.1 (handshakeFrame served.two.1))
    (List.mem_append_right [handshakeFrame served.one.1] (List.mem_singleton_self _))
    (Setup.onFrame_two lawful_suite)
  have hthree := meeting_provider
    (.awaitVerdict served.consumerNoise (handshakeFrame served.three.1) served.two.1)
    (List.mem_append_right [handshakeFrame served.one.1, handshakeFrame served.two.1]
      (List.mem_singleton_self _))
    (Setup.onFrame_three lawful_suite)
  have hfour := meeting_consumer
    (.finished (.ok ⟨{ served.providerNoise with sendNonce := 1 },
      some ⟨served.three.1, handshakeFrame served.verdict⟩, served.refused⟩))
    (List.mem_append_right
      [handshakeFrame served.one.1, handshakeFrame served.two.1, handshakeFrame served.three.1]
      (List.mem_singleton_self _))
    hverdict
  have hrun := Run.cons hone (Run.cons htwo (Run.cons hthree (Run.cons hfour Run.nil)))
  exact ⟨hs, _, _, Run.cons meeting_startConsumer (Run.cons meeting_startProvider hrun)⟩

theorem session_authentic_served :
  ∃ w hs, Run (Meeting World.Allowed fun w a w' => w.step a = some w') World.empty servedActions w
    ∧ w.parties[0]? = some (.consumer 0 (routedTo 1) (.finished (.ok hs)))
    ∧ ∃ (r' : ℕ) (pair' : Routing) (policy : Policy Term) (hs' : Handshaked Term),
        w.parties[r']? = some (.provider 1 pair' policy (.finished (.ok hs')))
        ∧ hs'.refused = none ∧ hs'.noise.sendKey = hs.noise.recvKey
  := by
  obtain ⟨hs, provider, sent, hrun⟩ := run_served
  refine ⟨_, hs, hrun, rfl, ?_⟩
  obtain ⟨r', pair', policy, hs', hr', _, _, _, _, hready, _, hkey, _⟩ :=
    (session_authentic hrun).1 0 0 (routedTo 1) hs 1 rfl rfl
  exact ⟨r', pair', policy, hs', hr', hready, hkey⟩

end ZeroNat.Peer

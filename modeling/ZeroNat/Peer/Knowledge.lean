import ZeroNat.Peer.Relay

/-!
# What the attacker may know

Every run of the handshake sends only what the attacker may know, whatever the attacker makes of
the frames, and stays in the states that are described by what the run has mixed in.
-/

namespace ZeroNat.Peer

open Term SymmetricState

/-! ### What a frame does -/

theorem allPublic_publicIdentity (made : Term → Prop) (k : List Term) :
  AllPublic made (suite.publicIdentity k)
  := by
  rw [publicIdentity_suite]
  exact (allPublic_block (by decide)).mpr trivial

theorem allPublic_handshakeFrame {made : Term → Prop} {msg : List Term} :
  AllPublic made (handshakeFrame msg) ↔ AllPublic made msg
  := by
  constructor
  · intro h x hx
    exact h x (List.mem_cons_of_mem _ hx)
  · intro h x hx
    rcases List.mem_cons.mp hx with rfl | hx
    · trivial
    · exact h x hx

theorem allPublic_of_recvHandshake {made : Term → Prop} {frame msg : List Term}
    (hframe : AllPublic made frame) (h : recvHandshake frame = some msg) :
  AllPublic made msg
  := by
  cases frame with
  | nil => cases h
  | cons b body =>
      rw [recvHandshake] at h
      split at h
      · obtain rfl := Option.some.inj h
        exact fun x hx => hframe x (List.mem_cons_of_mem _ hx)
      · cases h

section

variable {w : World} {r i : ℕ} {pair : Routing} {policy : Policy Term}

theorem allPublic_nil (made : Term → Prop) :
  AllPublic made []
  := by
  intro x hx
  cases hx

/-- Message three is seen by the attacker. -/
theorem allPublic_messageThree {state' : Initiator Term} {state : XxHandshake Term}
    {s ct : List Term} (hr : w.parties[r]? = some (.consumer i pair state'))
    (hss : state.ss = after suite
      [suite.x25519 (ephemeralKey r) pair.peer, suite.x25519 (ephemeralKey r) state.re]
      (ct :: consumerHashed r i pair state.re s) 1)
    (hsPriv : state.sPriv = staticKey i) :
  AllPublic (Made w) (state.writeMessageThree suite []).1
  := by
  obtain ⟨ss, initiator, sPriv, ePriv, ePub, re, rs⟩ := state
  dsimp only at hss hsPriv
  subst hss hsPriv
  apply allPublic_append.mpr
  constructor
  · exact allPublic_of_origin (.staticThree (x25519_ne_nil _ _)) (allPublic_publicIdentity _ _)
  · exact allPublic_of_origin (.messageThree hr) (allPublic_nil _)

/-- A consumer reads message two and sends message three. -/
theorem consumerAt_onMessageTwo {state' : Initiator Term} {state : XxHandshake Term}
    {frameOne messageTwo : List Term} (hr : w.parties[r]? = some (.consumer i pair state'))
    (hat : ConsumerAt (Made w) r i pair (.awaitTwo state frameOne))
    (hmsg : AllPublic (Made w) messageTwo) :
  ConsumerAt (Made w) r i pair
      (Initiator.onMessageTwo suite (pair.identity i) state messageTwo).1
    ∧ ∀ f ∈ (Initiator.onMessageTwo suite (pair.identity i) state messageTwo).2,
        AllPublic (Made w) f
  := by
  obtain ⟨hstate, _⟩ := hat
  rw [Initiator.onMessageTwo]
  split
  · exact ⟨trivial, by simp⟩
  · rename_i payload state heq
    obtain ⟨re, s, ct, rs, rfl, hct, rfl⟩ := XxHandshake.readMessageTwo_after (by rw [hstate]) heq
    subst hstate
    dsimp only
    split
    · exact ⟨trivial, by simp⟩
    · rename_i hpeer
      obtain rfl : rs = pair.peer := not_not.mp hpeer
      have hpayload := (allPublic_append.mp (allPublic_append.mp hmsg).2).2
      rw [aeadDecrypt_eq_some_iff.mp hct] at hpayload
      refine ⟨⟨⟨re, s, rfl, rfl, payload, hpayload⟩, ?_⟩, ?_⟩
      · apply allPublic_handshakeFrame.mpr
        exact allPublic_messageThree hr rfl rfl
      · intro f hf
        rw [List.mem_singleton.mp hf]
        apply allPublic_handshakeFrame.mpr
        exact allPublic_messageThree hr rfl rfl

theorem HeardTwo.of_keys {made : Term → Prop} {noise noise' : StatelessNoise Term}
    {re s : List Term} (h : HeardTwo made r i pair noise re s)
    (hsend : noise'.sendKey = noise.sendKey) (hrecv : noise'.recvKey = noise.recvKey) :
  HeardTwo made r i pair noise' re s
  := ⟨hsend.trans h.sendKey, hrecv.trans h.recvKey, h.payload⟩

/-- A consumer opens the verdict. -/
theorem consumerAt_judge {noise noise' : StatelessNoise Term}
    {frameThree messageTwo message verdict : List Term}
    (hat : ConsumerAt (Made w) r i pair (.awaitVerdict noise frameThree messageTwo))
    (hmsg : AllPublic (Made w) message)
    (hopen : noise.openInPlace suite.toCipher message = (.ok verdict, noise')) :
  ConsumerAt (Made w) r i pair (.finished (judge noise' verdict))
  := by
  obtain ⟨⟨re, s, hheard⟩, _⟩ := hat
  obtain ⟨nonce, ct, window, rfl, _, hct, _, rfl⟩ := StatelessNoise.openInPlace_eq_ok_iff.mp hopen
  cases hjudge : judge { noise with recvWindow := window } verdict with
  | error e => trivial
  | ok hs =>
      obtain ⟨rfl, rfl⟩ := judge_eq_ok hjudge
      have hverdict := (allPublic_append.mp hmsg).2
      rw [aeadDecrypt_eq_some_iff.mp hct] at hverdict
      exact ⟨rfl, ⟨re, s, hheard.of_keys rfl rfl⟩, nonce, hverdict⟩

theorem ConsumerAt.session {made : Term → Prop} {hs hs' : Handshaked Term}
    (hat : ConsumerAt made r i pair (.finished (.ok hs))) (h : Handshaked.Continues hs hs') :
  ConsumerAt made r i pair (.finished (.ok hs'))
  := by
  obtain ⟨hretransmit, ⟨re, s, hheard⟩, n, hverdict⟩ := hat
  rw [← h.recvKey] at hverdict
  exact ⟨h.retransmit.trans hretransmit, ⟨re, s, hheard.of_keys h.sendKey h.recvKey⟩, n, hverdict⟩

theorem consumerAt_onFrame {state state' : Initiator Term} {f : List Term}
    (hr : w.parties[r]? = some (.consumer i pair state'))
    (hat : ConsumerAt (Made w) r i pair state) (hf : AllPublic (Made w) f) :
  ConsumerAt (Made w) r i pair (state.onFrame suite (pair.identity i) f).1
    ∧ ∀ g ∈ (state.onFrame suite (pair.identity i) f).2, AllPublic (Made w) g
  := by
  cases state with
  | awaitTwo state frameOne =>
      rw [Initiator.onFrame]
      split
      · exact ⟨hat, by simp⟩
      · rename_i message hmsg
        exact consumerAt_onMessageTwo hr hat (allPublic_of_recvHandshake hf hmsg)
  | awaitVerdict noise frameThree messageTwo =>
      rw [Initiator.onFrame]
      split
      · exact ⟨hat, by simp⟩
      · rename_i message hmsg
        split
        · exact ⟨hat, by simpa using hat.2⟩
        · split
          · rename_i e noise' hopen
            obtain rfl := StatelessNoise.openInPlace_eq_error hopen
            exact ⟨hat, by simp⟩
          · rename_i verdict noise' hopen
            exact ⟨consumerAt_judge hat (allPublic_of_recvHandshake hf hmsg) hopen, by simp⟩
  | finished outcome =>
      cases outcome with
      | error e => exact ⟨trivial, by simp [Initiator.onFrame]⟩
      | ok hs =>
          refine ⟨hat.session (hs.continues_onFrame suite f), ?_⟩
          intro g hg
          rcases hs.sent_onFrame suite f with hsent | ⟨again, hagain, _⟩
          · change g ∈ (hs.onFrame suite f).2.2 at hg
            rw [hsent] at hg
            cases hg
          · rw [hat.1] at hagain
            cases hagain

/-- Message two is seen by the attacker. -/
theorem allPublic_messageTwo {state' : Responder Term} {state : XxHandshake Term}
    (hr : w.parties[r]? = some (.provider i pair policy state'))
    (hrefuse : AllPublic (Made w) policy.refuse)
    (hss : state.ss = after suite [] [[], state.re, providerPrologue i pair] 0)
    (hsPriv : state.sPriv = staticKey i) (hePriv : state.ePriv = ephemeralKey r)
    (hePub : state.ePub = suite.publicIdentity (ephemeralKey r)) :
  AllPublic (Made w) (state.writeMessageTwo suite policy.refuse).1
  := by
  obtain ⟨ss, initiator, sPriv, ePriv, ePub, re, rs⟩ := state
  dsimp only at hss hsPriv hePriv hePub
  subst hss hsPriv hePriv hePub
  apply allPublic_append.mpr
  constructor
  · apply allPublic_append.mpr
    constructor
    · apply allPublic_publicIdentity
    · exact allPublic_of_origin (.staticTwo (x25519_ne_nil _ _)) (allPublic_publicIdentity _ _)
  · exact allPublic_of_origin (.messageTwo hr) hrefuse

/-- A provider reads message one and sends message two. -/
theorem providerAt_onMessageOne {state' : Responder Term} {state : XxHandshake Term}
    {messageOne : List Term} (hr : w.parties[r]? = some (.provider i pair policy state'))
    (hrefuse : AllPublic (Made w) policy.refuse)
    (hat : ProviderAt (Made w) r i pair policy (.awaitOne state)) :
  ProviderAt (Made w) r i pair policy (Responder.onMessageOne suite policy state messageOne).1
    ∧ ∀ f ∈ (Responder.onMessageOne suite policy state messageOne).2, AllPublic (Made w) f
  := by
  obtain rfl := hat
  rw [Responder.onMessageOne]
  split
  · exact ⟨trivial, by simp⟩
  · rename_i payload state heq
    obtain ⟨re, rfl, _, rfl⟩ :=
      XxHandshake.readMessageOne_after (new_mixHash suite (providerPrologue i pair)) heq
    split
    · rename_i hempty
      obtain rfl := List.isEmpty_iff.mp hempty
      refine ⟨⟨⟨re, _, _, rfl⟩, ?_⟩, ?_⟩
      · apply allPublic_handshakeFrame.mpr
        exact allPublic_messageTwo hr hrefuse rfl rfl rfl rfl
      · intro f hf
        rw [List.mem_singleton.mp hf]
        apply allPublic_handshakeFrame.mpr
        exact allPublic_messageTwo hr hrefuse rfl rfl rfl rfl
    · exact ⟨trivial, by simp⟩

theorem allPublic_encode {made : Term → Prop} {bytes : List Term} (h : AllPublic made bytes) :
  AllPublic made (encode bytes)
  := by
  intro x hx
  obtain ⟨y, hy, hx⟩ := List.mem_flatMap.mp hx
  split at hx
  · exact allPublic_lit made _ x hx
  · have : x = y := by simpa using hx
    rw [this]
    exact h y hy

theorem allPublic_reasonFor {made : Term → Prop} {rs : List Term}
    (hrefuse : AllPublic made policy.refuse) (hrs : AllPublic made rs) :
  AllPublic made (Responder.reasonFor policy (pair.identity i) rs)
  := by
  rw [Responder.reasonFor]
  split
  · exact allPublic_append.mpr ⟨allPublic_lit made _, allPublic_encode hrs⟩
  · split
    · apply allPublic_append.mpr
      constructor
      · exact allPublic_append.mpr ⟨allPublic_lit made _, allPublic_encode hrs⟩
      · apply allPublic_lit
    · exact hrefuse

theorem allPublic_verdictOf {made : Term → Prop} {reason : List Term} (h : AllPublic made reason) :
  AllPublic made (verdictOf reason)
  := by
  rw [verdictOf]
  split
  · apply allPublic_lit
  · exact allPublic_append.mpr ⟨allPublic_lit made _, h⟩

theorem verdictOf_eq_ready {reason : List Term} (h : verdictOf reason = lit [verdictReady]) :
  reason = []
  := by
  rw [verdictOf] at h
  split at h
  · rename_i hempty
    exact List.isEmpty_iff.mp hempty
  · cases h

/-- A provider seals its verdict. -/
theorem providerAt_sealVerdict {keys : Keys Term} {messageThree re rs : List Term}
    (hr : w.parties[r]? = some (.provider i pair policy
      (Responder.sealVerdict suite (.fromKeys keys) messageThree
        (Responder.reasonFor policy (pair.identity i) rs)).1))
    (hsend : keys.sendKey = suite.hkdf (chain suite (providerSecrets r i re rs)) [] 1)
    (hrecv : keys.recvKey = suite.hkdf (chain suite (providerSecrets r i re rs)) [] 0)
    (hreason : AllPublic (Made w) (Responder.reasonFor policy (pair.identity i) rs))
    (hpayload : ∃ s ct s', AllPublic (Made w)
      (suite.aeadEncrypt
        (suite.hkdf
          (chain suite [suite.x25519 (staticKey i) re, suite.x25519 (ephemeralKey r) re])
          (suite.x25519 (ephemeralKey r) rs) 1)
        0 (transcript suite (s' :: ct :: providerHashed r i pair re s)) [])) :
  ProviderAt (Made w) r i pair policy
      (Responder.sealVerdict suite (.fromKeys keys) messageThree
        (Responder.reasonFor policy (pair.identity i) rs)).1
    ∧ ∀ f ∈ (Responder.sealVerdict suite (.fromKeys keys) messageThree
        (Responder.reasonFor policy (pair.identity i) rs)).2, AllPublic (Made w) f
  := by
  rw [Responder.sealVerdict_fromKeys] at hr ⊢
  have hready : verdictOf (Responder.reasonFor policy (pair.identity i) rs) = lit [verdictReady] →
      (if (Responder.reasonFor policy (pair.identity i) rs).isEmpty then none
        else some (Responder.reasonFor policy (pair.identity i) rs)) = none := by
    intro hready
    rw [verdictOf_eq_ready hready]
    rfl
  have hsent : AllPublic (Made w) (replyTo i pair policy keys.sendKey rs) := by
    apply allPublic_handshakeFrame.mpr
    apply allPublic_append.mpr
    rw [hsend]
    constructor
    · apply allPublic_lit
    · exact allPublic_of_origin (.providerSession hr hsend hready) (allPublic_verdictOf hreason)
  refine ⟨⟨re, rs, hsend, hrecv, hpayload, ?_, ⟨messageThree, rfl⟩, hsent⟩, ?_⟩
  · dsimp only
    split
    · rename_i hempty
      simpa using hempty
    · rename_i hempty
      simpa using hempty
  · intro f hf
    rw [List.mem_singleton.mp hf]
    exact hsent

/-- A provider reads message three and sends its verdict. -/
theorem providerAt_onMessageThree {state : XxHandshake Term}
    {messageOne frameTwo messageThree : List Term}
    (hr : w.parties[r]? = some (.provider i pair policy
      (Responder.onMessageThree suite policy (pair.identity i) state messageThree).1))
    (hrefuse : AllPublic (Made w) policy.refuse)
    (hat : ProviderAt (Made w) r i pair policy (.awaitThree state messageOne frameTwo))
    (hmsg : AllPublic (Made w) messageThree) :
  ProviderAt (Made w) r i pair policy
      (Responder.onMessageThree suite policy (pair.identity i) state messageThree).1
    ∧ ∀ f ∈ (Responder.onMessageThree suite policy (pair.identity i) state messageThree).2,
        AllPublic (Made w) f
  := by
  obtain ⟨⟨re, s, ct, hstate⟩, _⟩ := hat
  cases hread : state.readMessageThree suite messageThree with
  | error e =>
      simp only [Responder.onMessageThree, hread]
      exact ⟨trivial, by simp⟩
  | ok result =>
      obtain ⟨payload, state'⟩ := result
      obtain ⟨s', ct', rs, rfl, hs', hct', rfl⟩ :=
        XxHandshake.readMessageThree_after (by rw [hstate]) hread
      subst hstate
      cases payload with
      | cons x payload =>
          simp only [Responder.onMessageThree, hread]
          exact ⟨trivial, by simp⟩
      | nil =>
          obtain ⟨hstatic, hpayload⟩ := allPublic_append.mp hmsg
          rw [aeadDecrypt_eq_some_iff.mp hct'] at hpayload
          have hrs := allPublic_of_decrypt plain_of_made hstatic hs'
          simp only [Responder.onMessageThree, hread] at hr ⊢
          exact providerAt_sealVerdict hr rfl rfl (allPublic_reasonFor hrefuse hrs)
            ⟨s, ct, s', hpayload⟩

theorem HeardThree.session {made : Term → Prop} {hs hs' : Handshaked Term} {re rs : List Term}
    (hheard : HeardThree made r i pair policy hs re rs) (h : Handshaked.Continues hs hs') :
  HeardThree made r i pair policy hs' re rs
  where
  sendKey := h.sendKey.trans hheard.sendKey
  recvKey := h.recvKey.trans hheard.recvKey
  payload := hheard.payload
  refused := by
    rw [h.refused]
    exact hheard.refused
  reply := by
    rw [h.retransmit, h.sendKey]
    exact hheard.reply
  sent := by
    rw [h.sendKey]
    exact hheard.sent

theorem providerAt_onFrame {state : Responder Term} {f : List Term}
    (hr : w.parties[r]?
      = some (.provider i pair policy (state.onFrame suite policy (pair.identity i) f).1))
    (hrefuse : AllPublic (Made w) policy.refuse)
    (hat : ProviderAt (Made w) r i pair policy state) (hf : AllPublic (Made w) f) :
  ProviderAt (Made w) r i pair policy (state.onFrame suite policy (pair.identity i) f).1
    ∧ ∀ g ∈ (state.onFrame suite policy (pair.identity i) f).2, AllPublic (Made w) g
  := by
  cases state with
  | awaitOne state =>
      cases hmsg : recvHandshake f with
      | none =>
          simp only [Responder.onFrame, hmsg]
          exact ⟨hat, by simp⟩
      | some message =>
          simp only [Responder.onFrame, hmsg] at hr ⊢
          exact providerAt_onMessageOne hr hrefuse hat
  | awaitThree state messageOne frameTwo =>
      cases hmsg : recvHandshake f with
      | none =>
          simp only [Responder.onFrame, hmsg]
          exact ⟨hat, by simp⟩
      | some message =>
          simp only [Responder.onFrame, hmsg] at hr ⊢
          split
          · exact ⟨hat, by simpa using hat.2⟩
          · rename_i hne
            rw [if_neg hne] at hr
            exact providerAt_onMessageThree hr hrefuse hat (allPublic_of_recvHandshake hf hmsg)
  | finished outcome =>
      cases outcome with
      | error e => exact ⟨trivial, by simp [Responder.onFrame]⟩
      | ok hs =>
          obtain ⟨re, rs, hheard⟩ := hat
          refine ⟨⟨re, rs, hheard.session (hs.continues_onFrame suite f)⟩, ?_⟩
          intro g hg
          change g ∈ (hs.onFrame suite f).2.2 at hg
          rcases hs.sent_onFrame suite f with hsent | ⟨again, hagain, _, hsent⟩
          · rw [hsent] at hg
            cases hg
          · obtain ⟨seen, hreply⟩ := hheard.reply
            rw [hreply] at hagain
            obtain rfl := Option.some.inj hagain
            rw [hsent] at hg
            rw [List.mem_singleton.mp hg]
            exact hheard.sent

end

/-! ### What an input does -/

/-- An input that the attacker can cause. -/
def Input.Fits (made : Term → Prop) (p : Party) : Input → Prop
  | .frame f => AllPublic made f
  | .send (some payload) => AllPublic made payload
      ∧ ∀ i pair policy hs, p = .provider i pair policy (.finished (.ok hs)) → hs.refused = none
  | _ => True

theorem Input.Fits.mono {made made' : Term → Prop} (h : ∀ t, made t → made' t) {p : Party}
    {x : Input} (hx : x.Fits made p) :
  x.Fits made' p
  := by
  cases x with
  | frame f => exact AllPublic.mono h hx
  | tick => trivial
  | deadline => trivial
  | send payload =>
      cases payload with
      | none => trivial
      | some payload => exact ⟨hx.1.mono h, hx.2⟩

theorem Party.advances_step (p : Party) (x : Input) :
  p.Advances (p.step x).1
  := by
  cases p with
  | consumer i pair state => cases x <;> exact .consumer
  | provider i pair policy state =>
      cases x with
      | frame f =>
          apply Party.Advances.provider
          rintro hs rfl
          exact ⟨_, rfl, hs.continues_onFrame suite f⟩
      | tick => exact .refl _
      | deadline =>
          apply Party.Advances.provider
          rintro hs rfl
          exact ⟨hs, rfl, .refl hs⟩
      | send payload =>
          apply Party.Advances.provider
          rintro hs rfl
          exact ⟨_, rfl, hs.continues_sendOver suite payload⟩

section

variable {w : World} {r i : ℕ} {pair : Routing} {policy : Policy Term} {f : List Term}

theorem allPublic_consumer_onTick {made : Term → Prop} {state : Initiator Term}
    (hat : ConsumerAt made r i pair state) (hf : f ∈ state.onTick) :
  AllPublic made f
  := by
  cases state with
  | awaitTwo state frameOne =>
      rw [List.mem_singleton.mp hf]
      exact hat.2
  | awaitVerdict noise frameThree messageTwo =>
      rw [List.mem_singleton.mp hf]
      exact hat.2
  | finished outcome => cases hf

theorem allPublic_provider_onTick {made : Term → Prop} {state : Responder Term}
    (hat : ProviderAt made r i pair policy state) (hf : f ∈ state.onTick) :
  AllPublic made f
  := by
  cases state with
  | awaitOne state => cases hf
  | awaitThree state messageOne frameTwo =>
      rw [List.mem_singleton.mp hf]
      exact hat.2
  | finished outcome => cases hf

theorem allPublic_plaintextOf {p : Party} {payload : Option (List Term)}
    (hx : (Input.send payload).Fits (Made w) p) :
  AllPublic (Made w) (Handshaked.plaintextOf payload)
  := by
  cases payload with
  | none => apply allPublic_lit
  | some payload => exact allPublic_append.mpr ⟨allPublic_lit _ _, hx.1⟩

theorem plaintextOf_none_ne :
  Handshaked.plaintextOf none ≠ (lit [verdictReady] : List Term)
  := by
  intro h
  cases h

/-- The frame of a sealed plaintext is seen by the attacker. -/
theorem allPublic_sessionFrame {secrets : List (List Term)} {k : ℕ} {key p : List Term}
    {nonce : UInt64} (hkey : key = suite.hkdf (chain suite secrets) [] k)
    (horigin : Origin w secrets [] k nonce [] p) (hp : AllPublic (Made w) p) :
  AllPublic (Made w)
    (Alphabet.ofByte frameSession :: (u64Bytes nonce ++ suite.aeadEncrypt key nonce [] p))
  := by
  have hbody : AllPublic (Made w) (u64Bytes nonce ++ suite.aeadEncrypt key nonce [] p) := by
    apply allPublic_append.mpr
    rw [hkey]
    exact ⟨allPublic_lit _ _, allPublic_of_origin horigin hp⟩
  intro x hx
  rcases List.mem_cons.mp hx with rfl | hx
  · trivial
  · exact hbody x hx

theorem consumerAt_sendOver {state : Initiator Term} {p : Party} {payload : Option (List Term)}
    (hat : ConsumerAt (Made w) r i pair state) (hx : (Input.send payload).Fits (Made w) p) :
  ConsumerAt (Made w) r i pair (state.sendOver suite payload).1
    ∧ ∀ f ∈ (state.sendOver suite payload).2, AllPublic (Made w) f
  := by
  cases state with
  | awaitTwo state frameOne => exact ⟨hat, by simp [Initiator.sendOver]⟩
  | awaitVerdict noise frameThree messageTwo => exact ⟨hat, by simp [Initiator.sendOver]⟩
  | finished outcome =>
      cases outcome with
      | error e => exact ⟨trivial, by simp [Initiator.sendOver]⟩
      | ok hs =>
          refine ⟨hat.session (hs.continues_sendOver suite payload), ?_⟩
          intro f hf
          obtain ⟨nonce, rfl⟩ := Handshaked.mem_sendOver suite hf
          obtain ⟨_, ⟨re, s, hheard⟩, _⟩ := hat
          exact allPublic_sessionFrame hheard.sendKey .consumerSession (allPublic_plaintextOf hx)

theorem providerAt_sendOver {state : Responder Term} {payload : Option (List Term)}
    (hr : w.parties[r]? = some (.provider i pair policy (state.sendOver suite payload).1))
    (hat : ProviderAt (Made w) r i pair policy state)
    (hx : (Input.send payload).Fits (Made w) (.provider i pair policy state)) :
  ProviderAt (Made w) r i pair policy (state.sendOver suite payload).1
    ∧ ∀ f ∈ (state.sendOver suite payload).2, AllPublic (Made w) f
  := by
  cases state with
  | awaitOne state => exact ⟨hat, by simp [Responder.sendOver]⟩
  | awaitThree state messageOne frameTwo => exact ⟨hat, by simp [Responder.sendOver]⟩
  | finished outcome =>
      cases outcome with
      | error e => exact ⟨trivial, by simp [Responder.sendOver]⟩
      | ok hs =>
          have hcont := hs.continues_sendOver suite payload
          obtain ⟨re, rs, hheard⟩ := hat
          refine ⟨⟨re, rs, hheard.session hcont⟩, ?_⟩
          intro f hf
          obtain ⟨nonce, rfl⟩ := Handshaked.mem_sendOver suite hf
          -- a plaintext that reads as a ready verdict is a payload, and there are none over a
          -- session that is refused
          have hready : Handshaked.plaintextOf payload = lit [verdictReady] →
              (hs.sendOver suite payload).2.refused = none := by
            intro hp
            cases payload with
            | none => exact absurd hp plaintextOf_none_ne
            | some payload => exact hcont.refused.trans (hx.2 _ _ _ _ rfl)
          have hkey := hcont.sendKey.trans hheard.sendKey
          exact allPublic_sessionFrame hheard.sendKey (.providerSession hr hkey hready)
            (allPublic_plaintextOf hx)

/-- A run that is given what the attacker can cause stays in the states above, and sends what the
attacker may see. -/
theorem Party.stands_step {p : Party} {x : Input} (hr : w.parties[r]? = some (p.step x).1)
    (hp : p.Stands (Made w) r) (hx : x.Fits (Made w) p) :
  (p.step x).1.Stands (Made w) r ∧ ∀ f ∈ (p.step x).2, AllPublic (Made w) f
  := by
  cases p with
  | consumer i pair state =>
      cases x with
      | frame f => exact consumerAt_onFrame hr hp hx
      | tick => exact ⟨hp, fun f => allPublic_consumer_onTick hp⟩
      | deadline =>
          refine ⟨?_, by simp [Party.step]⟩
          cases state with
          | awaitTwo state frameOne => trivial
          | awaitVerdict noise frameThree messageTwo => trivial
          | finished outcome => exact hp
      | send payload => exact consumerAt_sendOver hp hx
  | provider i pair policy state =>
      obtain ⟨hrefuse, hat⟩ := hp
      cases x with
      | frame f =>
          obtain ⟨hat', hsent⟩ := providerAt_onFrame hr hrefuse hat hx
          exact ⟨⟨hrefuse, hat'⟩, hsent⟩
      | tick => exact ⟨⟨hrefuse, hat⟩, fun f => allPublic_provider_onTick hat⟩
      | deadline =>
          refine ⟨⟨hrefuse, ?_⟩, by simp [Party.step]⟩
          cases state with
          | awaitOne state => trivial
          | awaitThree state messageOne frameTwo => trivial
          | finished outcome => exact hat
      | send payload =>
          obtain ⟨hat', hsent⟩ := providerAt_sendOver hr hat hx
          exact ⟨⟨hrefuse, hat'⟩, hsent⟩

end

/-! ### Every state of the world -/

/-- What holds in every state: the runs stand where they may, and the attacker has seen what it
may know. -/
structure World.Inv (w : World) : Prop where
  parties : ∀ (r : ℕ) (p : Party), w.parties[r]? = some p → p.Stands (Made w) r
  sent : ∀ f ∈ w.sent, AllPublic (Made w) f

namespace World

variable {w : World}

theorem inv_empty :
  empty.Inv
  where
  parties _ _ h := by cases h
  sent _ h := by cases h

theorem grows_append (w : World) (p : Party) (sent : List (List Term)) :
  w.Grows ⟨w.parties ++ [p], sent⟩
  := by
  intro r q hr
  refine ⟨q, ?_, .refl q⟩
  have hlt : r < w.parties.length := (List.getElem?_eq_some_iff.mp hr).1
  rw [List.getElem?_append_left hlt, hr]

theorem grows_set {r : ℕ} {p p' : Party} (hr : w.parties[r]? = some p) (h : p.Advances p')
    (sent : List (List Term)) :
  w.Grows ⟨w.parties.set r p', sent⟩
  := by
  intro r' q hr'
  by_cases heq : r = r'
  · subst heq
    obtain rfl := Option.some.inj (hr.symm.trans hr')
    exact ⟨p', List.getElem?_set_self (List.getElem?_eq_some_iff.mp hr).1, h⟩
  · refine ⟨q, ?_, .refl q⟩
    rw [List.getElem?_set_ne heq, hr']

/-- What the attacker can derive is what it may know. -/
theorem Inv.derives (h : w.Inv) {l : List Term} (hl : Derives suite w.Seen l) :
  AllPublic (Made w) l
  := by
  apply allPublic_of_derives _ plain_of_made hl
  rintro l (hsent | ⟨a, rfl⟩ | ⟨i, rfl⟩)
  · exact h.sent l hsent
  · exact (allPublic_block (by decide)).mpr trivial
  · apply allPublic_publicIdentity

/-- A run starts. -/
theorem Inv.append (h : w.Inv) {p : Party} {sent : List (List Term)}
    (hp : p.Stands (Made ⟨w.parties ++ [p], w.sent ++ sent⟩) w.parties.length)
    (hsent : ∀ f ∈ sent, AllPublic (Made ⟨w.parties ++ [p], w.sent ++ sent⟩) f) :
  Inv ⟨w.parties ++ [p], w.sent ++ sent⟩
  := by
  have hgrows := made_mono (grows_append w p (w.sent ++ sent))
  constructor
  · intro r q hr
    dsimp only at hr
    by_cases hlt : r < w.parties.length
    · rw [List.getElem?_append_left hlt] at hr
      exact (h.parties r q hr).mono hgrows
    · obtain ⟨hlen, hq⟩ := List.getElem?_eq_some_iff.mp hr
      rw [List.length_append, List.length_singleton] at hlen
      obtain rfl : r = w.parties.length := by omega
      rw [List.getElem?_concat_length] at hr
      obtain rfl := Option.some.inj hr
      exact hp
  · intro f hf
    rcases List.mem_append.mp hf with hf | hf
    · exact (h.sent f hf).mono hgrows
    · exact hsent f hf

/-- A run is given an input. -/
theorem Inv.set (h : w.Inv) {r : ℕ} {p : Party} {x : Input} (hr : w.parties[r]? = some p)
    (hx : x.Fits (Made w) p) :
  Inv ⟨w.parties.set r (p.step x).1, w.sent ++ (p.step x).2⟩
  := by
  have hgrows := made_mono (grows_set hr (p.advances_step x) (w.sent ++ (p.step x).2))
  have hr' : (w.parties.set r (p.step x).1)[r]? = some (p.step x).1 :=
    List.getElem?_set_self (List.getElem?_eq_some_iff.mp hr).1
  obtain ⟨hstands, hsent⟩ :=
    Party.stands_step (w := ⟨w.parties.set r (p.step x).1, w.sent ++ (p.step x).2⟩) hr'
      ((h.parties r p hr).mono hgrows) (hx.mono hgrows)
  constructor
  · intro r' q hq
    by_cases heq : r = r'
    · subst heq
      obtain rfl := Option.some.inj (hr'.symm.trans hq)
      exact hstands
    · rw [List.getElem?_set_ne heq] at hq
      exact (h.parties r' q hq).mono hgrows
  · intro f hf
    rcases List.mem_append.mp hf with hf | hf
    · exact (h.sent f hf).mono hgrows
    · exact hsent f hf

theorem Inv.fits (h : w.Inv) {r : ℕ} {p : Party} {x : Input} (hr : w.parties[r]? = some p)
    (hx : w.Allowed (.input r x)) :
  x.Fits (Made w) p
  := by
  cases x with
  | frame f => exact h.derives hx
  | tick => trivial
  | deadline => trivial
  | send payload =>
      cases payload with
      | none => trivial
      | some payload =>
          refine ⟨h.derives hx.1, ?_⟩
          rintro i pair policy hs rfl
          exact hx.2 i pair policy hs hr

theorem Inv.step (h : w.Inv) {a : Action} {w' : World} (ha : w.Allowed a)
    (hstep : w.step a = some w') :
  w'.Inv
  := by
  cases a with
  | startConsumer i pair =>
      obtain rfl := Option.some.inj hstep
      have hframe : ∀ made, AllPublic made (handshakeFrame
          (suite.publicIdentity (ephemeralKey w.parties.length) ++ [])) := by
        intro made
        apply allPublic_handshakeFrame.mpr
        exact allPublic_append.mpr ⟨allPublic_publicIdentity _ _, allPublic_nil _⟩
      apply h.append
      · exact ⟨rfl, hframe _⟩
      · intro f hf
        rw [List.mem_singleton.mp hf]
        exact hframe _
  | startProvider i pair refuse allow =>
      obtain rfl := Option.some.inj hstep
      rw [← List.append_nil w.sent]
      apply h.append
      · exact ⟨allPublic_lit _ _, rfl⟩
      · simp
  | input r x =>
      obtain ⟨p, hr, rfl⟩ := Option.map_eq_some_iff.mp hstep
      exact h.set hr (h.fits hr ha)

theorem inv_of_run {as : List Action}
    (h : Run (Meeting Allowed fun w a w' => w.step a = some w') empty as w) :
  w.Inv
  := h.invariant inv_empty fun _ _ _ hinv hstep => hinv.step hstep.1 hstep.2

end World

end ZeroNat.Peer

import ZeroNat.Peer.Handshake

/-!
# An undisturbed exchange

The messages of a pair whose frames arrive as they were sent.  Each side reads what the other has
written, and the consumer can open the verdict of the provider.
-/

namespace ZeroNat.Peer

/-- What the two sides of a pair are started with. -/
structure Setup (β : Type) where
  suite : Suite β
  pairId : UInt64
  provides : UInt8
  challenge : List β
  consumerStatic : List β
  providerStatic : List β
  consumerEphemeral : List β
  providerEphemeral : List β
  policy : Policy β

namespace Setup

variable {β : Type} [Alphabet β] [DecidableEq β] (c : Setup β)

def consumer : PairIdentity β :=
  ⟨c.consumerStatic, c.suite.publicIdentity c.providerStatic, c.challenge, c.provides⟩

def provider : PairIdentity β :=
  ⟨c.providerStatic, c.suite.publicIdentity c.consumerStatic, c.challenge, c.provides⟩

/-! ### The messages of a pair

Without alteration there is one message of each kind. -/

def prologue : List β :=
  pairPrologue c.pairId c.provides (c.suite.publicIdentity c.consumerStatic)
    (c.suite.publicIdentity c.providerStatic) c.challenge

/-- Message one, and the initiator that has written it. -/
def one : List β × XxHandshake β :=
  (XxHandshake.new c.suite true c.consumerStatic c.prologue c.consumerEphemeral).writeMessageOne
    c.suite []

/-- The responder before message one. -/
def listening : XxHandshake β :=
  XxHandshake.new c.suite false c.providerStatic c.prologue c.providerEphemeral

/-- The responder that has read message one. -/
def heardOne : XxHandshake β :=
  { c.listening with ss := c.one.2.ss, re := c.suite.publicIdentity c.consumerEphemeral }

/-- Message two, and the responder that has written it. -/
def two : List β × XxHandshake β :=
  c.heardOne.writeMessageTwo c.suite c.policy.refuse

/-- The initiator that has read message two. -/
def heardTwo : XxHandshake β :=
  { c.one.2 with
    ss := c.two.2.ss
    re := c.suite.publicIdentity c.providerEphemeral
    rs := some (c.suite.publicIdentity c.providerStatic) }

/-- Message three, and the initiator that has written it. -/
def three : List β × XxHandshake β :=
  c.heardTwo.writeMessageThree c.suite []

/-- The responder that has read message three. -/
def heardThree : XxHandshake β :=
  { c.two.2 with ss := c.three.2.ss, rs := some (c.suite.publicIdentity c.consumerStatic) }

/-- The reason for which the provider refuses the consumer, if any. -/
def reason : List β :=
  Responder.reasonFor c.policy c.provider (c.suite.publicIdentity c.consumerStatic)

/-- The transport of the consumer at the end of the handshake. -/
def consumerNoise : StatelessNoise β :=
  c.three.2.intoTransport c.suite

/-- The transport of the provider at the end of the handshake. -/
def providerNoise : StatelessNoise β :=
  c.heardThree.intoTransport c.suite

/-- The sealed verdict. -/
def verdict : List β :=
  u64Bytes 0 ++ c.suite.aeadEncrypt c.providerNoise.sendKey 0 [] (verdictOf c.reason)

/-- The refusal that the verdict carries. -/
def refused : Option (List β) :=
  if c.reason.isEmpty then none else some c.reason

/-! ### What the two sides read -/

section

variable {c}

omit [DecidableEq β] in
theorem readMessageOne_one (hS : c.suite.Lawful) :
  c.listening.readMessageOne c.suite c.one.1 = .ok ([], c.heardOne)
  := by
  apply XxHandshake.readMessageOne_writeMessageOne hS
  · rfl
  · apply hS.length_publicIdentity

omit [DecidableEq β] in
theorem readMessageTwo_two (hS : c.suite.Lawful) :
  c.one.2.readMessageTwo c.suite c.two.1 = .ok (c.policy.refuse, c.heardTwo)
  := by
  apply XxHandshake.readMessageTwo_writeMessageTwo hS
  · rfl
  · rfl
  · rfl

omit [DecidableEq β] in
theorem readMessageThree_three (hS : c.suite.Lawful) :
  c.two.2.readMessageThree c.suite c.three.1 = .ok ([], c.heardThree)
  := by
  apply XxHandshake.readMessageThree_writeMessageThree hS
  · rfl
  · rfl
  · rfl

omit [DecidableEq β] in
theorem one_ne_three (hS : c.suite.Lawful) :
  c.one.1 ≠ c.three.1
  := by
  intro h
  obtain ⟨s, ct, _, _, _, hmsg, hs, hct, _⟩ :=
    XxHandshake.readMessageThree_eq_ok_iff.mp (readMessageThree_three hS)
  have hone : c.one.1.length = dhLen := by
    have := hS.length_publicIdentity c.consumerEphemeral
    simpa [one, XxHandshake.writeMessageOne, XxHandshake.new, SymmetricState.encryptAndHash,
      SymmetricState.mixHash, SymmetricState.new] using this
  rw [h, hmsg, List.length_append, hs] at hone
  have : 0 < tagLen := by decide
  omega

/-- The verdict opens under the keys of the consumer. -/
theorem openInPlace_verdict (hS : c.suite.Lawful) :
  ∃ w, c.consumerNoise.openInPlace c.suite.toCipher c.verdict
    = (.ok (verdictOf c.reason), { c.consumerNoise with recvWindow := w })
  := by
  refine ⟨⟨some 0, 1⟩, ?_⟩
  rw [StatelessNoise.openInPlace_eq_ok_iff]
  refine ⟨0, _, _, rfl, ?_, ?_, rfl, rfl⟩
  · rw [hS.length_encrypt]
    apply Nat.le_add_left
  · exact hS.decrypt_encrypt _ _ _ _

omit [DecidableEq β] in
theorem judge_verdictOf (noise : StatelessNoise β) (reason : List β) :
  judge noise (verdictOf reason)
    = if reason.isEmpty then .ok ⟨noise, none, none⟩ else .error (.refused reason)
  := by
  cases reason with
  | nil => simp [judge, verdictOf, lit, Alphabet.toByte_ofByte]
  | cons b reason => simp [judge, verdictOf, lit, Alphabet.toByte_ofByte, verdictReady, verdictRefused]

omit [DecidableEq β] in
theorem recvHandshake_handshakeFrame (msg : List β) :
  recvHandshake (handshakeFrame msg) = some msg
  := by
  rw [handshakeFrame, recvHandshake, if_pos (Alphabet.toByte_ofByte _)]

omit [DecidableEq β] in
/-- The responder answers message one. -/
theorem onMessageOne_one (hS : c.suite.Lawful) :
  Responder.onMessageOne c.suite c.policy c.listening c.one.1
    = (.awaitThree c.two.2 c.one.1 (handshakeFrame c.two.1), [handshakeFrame c.two.1])
  := by
  simp only [Responder.onMessageOne, readMessageOne_one hS]
  rfl

/-- The initiator answers message two. -/
theorem onMessageTwo_two (hS : c.suite.Lawful) :
  Initiator.onMessageTwo c.suite c.consumer c.one.2 c.two.1
    = (.awaitVerdict c.consumerNoise (handshakeFrame c.three.1) c.two.1,
        [handshakeFrame c.three.1])
  := by
  simp only [Initiator.onMessageTwo, readMessageTwo_two hS]
  exact if_neg (not_not_intro rfl)

/-- The responder answers message three with its verdict. -/
theorem onMessageThree_three (hS : c.suite.Lawful) :
  Responder.onMessageThree c.suite c.policy c.provider c.two.2 c.three.1
    = (.finished (.ok ⟨{ c.providerNoise with sendNonce := 1 },
          some ⟨c.three.1, handshakeFrame c.verdict⟩, c.refused⟩),
        [handshakeFrame c.verdict])
  := by
  simp only [Responder.onMessageThree, readMessageThree_three hS]
  exact Responder.sealVerdict_fromKeys _ _ _ _

theorem onFrame_one (hS : c.suite.Lawful) :
  (Responder.awaitOne c.listening).onFrame c.suite c.policy c.provider (handshakeFrame c.one.1)
    = (.awaitThree c.two.2 c.one.1 (handshakeFrame c.two.1), [handshakeFrame c.two.1])
  := by
  simp only [Responder.onFrame, recvHandshake_handshakeFrame, onMessageOne_one hS]

theorem onFrame_two (hS : c.suite.Lawful) :
  (Initiator.awaitTwo c.one.2 (handshakeFrame c.one.1)).onFrame c.suite c.consumer
      (handshakeFrame c.two.1)
    = (.awaitVerdict c.consumerNoise (handshakeFrame c.three.1) c.two.1,
        [handshakeFrame c.three.1])
  := by
  simp only [Initiator.onFrame, recvHandshake_handshakeFrame, onMessageTwo_two hS]

theorem onFrame_three (hS : c.suite.Lawful) :
  (Responder.awaitThree c.two.2 c.one.1 (handshakeFrame c.two.1)).onFrame c.suite c.policy
      c.provider (handshakeFrame c.three.1)
    = (.finished (.ok ⟨{ c.providerNoise with sendNonce := 1 },
          some ⟨c.three.1, handshakeFrame c.verdict⟩, c.refused⟩),
        [handshakeFrame c.verdict])
  := by
  simp only [Responder.onFrame, recvHandshake_handshakeFrame, if_neg (Ne.symm (one_ne_three hS)),
    onMessageThree_three hS]

/-- The verdict that serves a consumer is shorter than message two. -/
theorem verdict_ne_two (hS : c.suite.Lawful) (hreason : c.reason = []) :
  c.verdict ≠ c.two.1
  := by
  intro h
  obtain ⟨re, s, ct, _, _, _, hmsg, hre, hs, _⟩ :=
    XxHandshake.readMessageTwo_eq_ok_iff.mp (readMessageTwo_two hS)
  have hlen := congrArg List.length (h.trans hmsg)
  simp only [verdict, hreason, List.length_append, length_u64Bytes, hS.length_encrypt, hre, hs] at hlen
  have : (verdictOf ([] : List β)).length = 1 := rfl
  have : dhLen = 32 := rfl
  have : tagLen = 16 := rfl
  omega

/-- The consumer is served. -/
theorem onFrame_verdict (hS : c.suite.Lawful) (hreason : c.reason = []) :
  ∃ hs, (Initiator.awaitVerdict c.consumerNoise (handshakeFrame c.three.1) c.two.1).onFrame c.suite
      c.consumer (handshakeFrame c.verdict)
    = (.finished (.ok hs), [])
  := by
  obtain ⟨w, hopen⟩ := openInPlace_verdict hS
  refine ⟨⟨{ c.consumerNoise with recvWindow := w }, none, none⟩, ?_⟩
  simp only [Initiator.onFrame, recvHandshake_handshakeFrame, if_neg (verdict_ne_two hS hreason),
    hopen, judge_verdictOf, hreason]
  rfl

end

end Setup

end ZeroNat.Peer

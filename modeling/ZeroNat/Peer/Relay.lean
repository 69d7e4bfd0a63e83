import ZeroNat.Lib.Run
import ZeroNat.Noise.Symbolic
import ZeroNat.Peer.Exchange

/-!
# The inner handshake against a hostile relay

Any number of consumers and providers, over a network that an attacker controls: it sees every
frame, and delivers whatever it can derive from what it has seen, its own keys and the public
identities.  The ciphertexts of the runs are described by where they come from, and the states of
a run by what it has mixed in.
-/

namespace ZeroNat.Peer

open Term SymmetricState

/-- What a party is told of a pair. -/
structure Routing where
  pairId : UInt64
  provides : UInt8
  peer : List Term
  challenge : List Term
  length_peer : peer.length = dhLen
  length_challenge : challenge.length = 32

/-- One run of a handshake, by the holder of a static key. -/
inductive Party where
  | consumer (i : ℕ) (pair : Routing) (state : Initiator Term)
  | provider (i : ℕ) (pair : Routing) (policy : Policy Term) (state : Responder Term)

/-- The runs so far, and the frames that they have sent. -/
structure World where
  parties : List Party
  sent : List (List Term)

/-- What happens to a run. -/
inductive Input where
  | frame (frame : List Term)
  | tick
  | deadline
  /-- A run whose session is up sends a payload over it, or a keepalive. -/
  | send (payload : Option (List Term))

inductive Action where
  | startConsumer (i : ℕ) (pair : Routing)
  | startProvider (i : ℕ) (pair : Routing) (refuse : List UInt8) (allow : List (List Term))
  | input (r : ℕ) (x : Input)

/-- The private key of a party. -/
def staticKey (i : ℕ) : List Term :=
  keyOf (.static i)

/-- The private key made for a run. -/
def ephemeralKey (r : ℕ) : List Term :=
  keyOf (.ephemeral r)

/-- What a party brings to the handshake of a pair. -/
def Routing.identity (pair : Routing) (i : ℕ) : PairIdentity Term :=
  ⟨staticKey i, pair.peer, pair.challenge, pair.provides⟩

/-- What an input does to a run. -/
noncomputable def Party.step : Party → Input → Party × List (List Term)
  | .consumer i pair state, .frame f =>
    let (state, sent) := state.onFrame suite (pair.identity i) f
    (.consumer i pair state, sent)
  | .consumer i pair state, .tick => (.consumer i pair state, state.onTick)
  | .consumer i pair state, .deadline => (.consumer i pair state.onDeadline, [])
  | .consumer i pair state, .send payload =>
    let (state, sent) := state.sendOver suite payload
    (.consumer i pair state, sent)
  | .provider i pair policy state, .frame f =>
    let (state, sent) := state.onFrame suite policy (pair.identity i) f
    (.provider i pair policy state, sent)
  | .provider i pair policy state, .tick => (.provider i pair policy state, state.onTick)
  | .provider i pair policy state, .deadline => (.provider i pair policy state.onDeadline, [])
  | .provider i pair policy state, .send payload =>
    let (state, sent) := state.sendOver suite payload
    (.provider i pair policy state, sent)

namespace World

def empty : World :=
  ⟨[], []⟩

/-- What an action does.  A run makes its ephemeral key when it starts. -/
noncomputable def step (w : World) : Action → Option World
  | .startConsumer i pair =>
    let (state, sent) :=
      Initiator.start suite (pair.identity i) pair.pairId (ephemeralKey w.parties.length)
    some ⟨w.parties ++ [.consumer i pair state], w.sent ++ sent⟩
  | .startProvider i pair refuse allow =>
    let state :=
      Responder.start suite (pair.identity i) pair.pairId (ephemeralKey w.parties.length)
    some ⟨w.parties ++ [.provider i pair ⟨lit refuse, allow⟩ state], w.sent⟩
  | .input r x =>
    w.parties[r]?.map fun p =>
      let (p, sent) := p.step x
      ⟨w.parties.set r p, w.sent ++ sent⟩

/-- What the attacker has seen. -/
def Seen (w : World) (l : List Term) : Prop :=
  l ∈ w.sent ∨ (∃ a, l = keyOf (.adversary a)) ∨ ∃ i, l = suite.publicIdentity (staticKey i)

/-- What the attacker can cause: it delivers what it can derive, and chooses the payloads.
Nothing rides a session that the provider has refused. -/
def Allowed (w : World) : Action → Prop
  | .input _ (.frame f) => Derives suite w.Seen f
  | .input r (.send (some payload)) => Derives suite w.Seen payload
      ∧ ∀ i pair policy hs, w.parties[r]? = some (.provider i pair policy (.finished (.ok hs))) →
          hs.refused = none
  | _ => True

end World

/-! ### What the runs make -/

/-- The secrets of a consumer that has read the ephemeral key of a provider. -/
noncomputable def consumerSecrets (r i : ℕ) (pair : Routing) (re : List Term) : List (List Term) :=
  [suite.x25519 (staticKey i) re, suite.x25519 (ephemeralKey r) pair.peer,
    suite.x25519 (ephemeralKey r) re]

/-- The secrets of a provider that has read both keys of a consumer. -/
noncomputable def providerSecrets (r i : ℕ) (re rs : List Term) : List (List Term) :=
  [suite.x25519 (ephemeralKey r) rs, suite.x25519 (staticKey i) re,
    suite.x25519 (ephemeralKey r) re]

/-- The prologue of a consumer. -/
noncomputable def consumerPrologue (i : ℕ) (pair : Routing) : List Term :=
  pairPrologue pair.pairId pair.provides (suite.publicIdentity (staticKey i)) pair.peer
    pair.challenge

/-- The prologue of a provider. -/
noncomputable def providerPrologue (i : ℕ) (pair : Routing) : List Term :=
  pairPrologue pair.pairId pair.provides pair.peer (suite.publicIdentity (staticKey i))
    pair.challenge

/-- What a consumer has hashed when it reads the payload of message two. -/
noncomputable def consumerHashed (r i : ℕ) (pair : Routing) (re s : List Term) :
    List (List Term) :=
  [s, re, [], suite.publicIdentity (ephemeralKey r), consumerPrologue i pair]

/-- What a provider has hashed when it writes the payload of message two. -/
noncomputable def providerHashed (r i : ℕ) (pair : Routing) (re s : List Term) :
    List (List Term) :=
  [s, suite.publicIdentity (ephemeralKey r), [], re, providerPrologue i pair]

/-- Where a ciphertext of a run comes from. -/
inductive Origin (w : World) :
    List (List Term) → List Term → ℕ → UInt64 → List Term → List Term → Prop where
  /-- The static key in message two. -/
  | staticTwo {ikm ad p : List Term} {n : UInt64} : ikm ≠ [] → Origin w [] ikm 1 n ad p
  /-- The payload of message two. -/
  | messageTwo {r i : ℕ} {pair : Routing} {policy : Policy Term} {state : Responder Term}
      {re s p : List Term} : w.parties[r]? = some (.provider i pair policy state) →
      Origin w [suite.x25519 (ephemeralKey r) re] (suite.x25519 (staticKey i) re) 1 0
        (transcript suite (providerHashed r i pair re s)) p
  /-- The static key in message three. -/
  | staticThree {ee ikm ad p : List Term} : ikm ≠ [] → Origin w [ee] ikm 1 1 ad p
  /-- The payload of message three. -/
  | messageThree {r i : ℕ} {pair : Routing} {state : Initiator Term} {re s ct s' p : List Term} :
      w.parties[r]? = some (.consumer i pair state) →
      Origin w [suite.x25519 (ephemeralKey r) pair.peer, suite.x25519 (ephemeralKey r) re]
        (suite.x25519 (staticKey i) re) 1 0
        (transcript suite (s' :: ct :: consumerHashed r i pair re s)) p
  /-- What a consumer seals over its session. -/
  | consumerSession {secrets : List (List Term)} {n : UInt64} {ad p : List Term} :
      Origin w secrets [] 0 n ad p
  /-- What a provider seals: its verdict, and then over its session. -/
  | providerSession {r i : ℕ} {pair : Routing} {policy : Policy Term} {hs : Handshaked Term}
      {re rs p : List Term} {n : UInt64} :
      w.parties[r]? = some (.provider i pair policy (.finished (.ok hs))) →
      hs.noise.sendKey = suite.hkdf (chain suite (providerSecrets r i re rs)) [] 1 →
      (p = lit [verdictReady] → hs.refused = none) →
      Origin w (providerSecrets r i re rs) [] 1 n [] p

/-- A ciphertext that some run may have made. -/
def Justified (w : World) (t : Term) : Prop :=
  ∃ secrets ikm i n ad p, t = sealed secrets ikm i n ad p ∧ Origin w secrets ikm i n ad p

/-- What the runs may have made so far. -/
def Made (w : World) : Term → Prop :=
  MadeBy (Justified w)

theorem x25519_ne_nil (k p : List Term) :
  suite.x25519 k p ≠ []
  := by
  intro h
  have hlen := length_x25519 k p
  change (suite.x25519 k p).length = dhLen at hlen
  rw [h] at hlen
  cases hlen

section

variable {w : World} {secrets : List (List Term)} {ikm ad p : List Term} {i : ℕ} {n : UInt64}

theorem made_of_origin (h : Origin w secrets ikm i n ad p) (hp : AllPublic (Made w) p) :
  Made w (sealed secrets ikm i n ad p)
  := madeBy_aead ⟨secrets, ikm, i, n, ad, p, rfl, h⟩ (public_ofList.mpr hp)

theorem plain_of_made (k : Term) (n : UInt64) (ad p : Term) (h : Made w (aead k n ad p)) :
  Public (Made w) p
  := h.plain

/-- What a run makes is seen by the attacker. -/
theorem allPublic_of_origin (h : Origin w secrets ikm i n ad p) (hp : AllPublic (Made w) p) :
  AllPublic (Made w) (suite.aeadEncrypt (suite.hkdf (chain suite secrets) ikm i) n ad p)
  := allPublic_of_made (made_of_origin h hp)

/-- A ciphertext that is known under a key derived from a secret comes from a run. -/
theorem origin_of_allPublic {s : List Term}
    (h : AllPublic (Made w) (suite.aeadEncrypt (suite.hkdf (chain suite secrets) ikm i) n ad p))
    (hs : s = ikm ∨ s ∈ secrets) (hsecret : ¬AllPublic (Made w) s) :
  ∃ i', Origin w secrets ikm i' n ad p
    ∧ suite.hkdf (chain suite secrets) ikm i = suite.hkdf (chain suite secrets) ikm i'
  := by
  obtain ⟨secrets', ikm', i', n', ad', p', heq, horigin⟩ :=
    kind_of_madeBy (made_of_allPublic h hs hsecret)
  obtain ⟨hkey, rfl, rfl, rfl, rfl, rfl⟩ := sealed_inj heq
  exact ⟨i', horigin, hkey⟩

/-- The payload of message two comes from a provider that has hashed the same. -/
theorem Origin.messageTwo_inv (h : Origin w secrets ikm i n ad p) (hsecrets : secrets.length = 1)
    (hikm : ikm ≠ []) (hn : n = 0) :
  ∃ r j pair policy state re s, w.parties[r]? = some (.provider j pair policy state)
    ∧ ad = transcript suite (providerHashed r j pair re s)
  := by
  cases h with
  | staticTwo _ => cases hsecrets
  | messageTwo hr => exact ⟨_, _, _, _, _, _, _, hr, rfl⟩
  | staticThree _ => cases hn
  | messageThree _ => cases hsecrets
  | consumerSession => exact absurd rfl hikm
  | providerSession _ _ _ => exact absurd rfl hikm

/-- The payload of message three comes from a consumer that has hashed the same. -/
theorem Origin.messageThree_inv (h : Origin w secrets ikm i n ad p) (hsecrets : secrets.length = 2)
    (hikm : ikm ≠ []) :
  ∃ r j pair state re s ct s', w.parties[r]? = some (.consumer j pair state)
    ∧ ad = transcript suite (s' :: ct :: consumerHashed r j pair re s)
  := by
  cases h with
  | staticTwo _ => cases hsecrets
  | messageTwo _ => cases hsecrets
  | staticThree _ => cases hsecrets
  | messageThree hr => exact ⟨_, _, _, _, _, _, _, _, hr, rfl⟩
  | consumerSession => exact absurd rfl hikm
  | providerSession _ _ _ => exact absurd rfl hikm

/-- What opens under the receiving key of a consumer comes from a provider that has given its
verdict. -/
theorem Origin.providerSession_inv (h : Origin w secrets ikm i n ad p) (hikm : ikm = [])
    (hi : i ≠ 0) :
  ∃ r j pair policy hs re rs,
    w.parties[r]? = some (.provider j pair policy (.finished (.ok hs)))
      ∧ secrets = providerSecrets r j re rs
      ∧ hs.noise.sendKey = suite.hkdf (chain suite secrets) [] 1
      ∧ (p = lit [verdictReady] → hs.refused = none)
  := by
  cases h with
  | staticTwo h => exact absurd hikm h
  | messageTwo _ => exact absurd hikm (x25519_ne_nil _ _)
  | staticThree h => exact absurd hikm h
  | messageThree _ => exact absurd hikm (x25519_ne_nil _ _)
  | consumerSession => exact absurd rfl hi
  | providerSession hr hkey hready => exact ⟨_, _, _, _, _, _, _, hr, rfl, hkey, hready⟩

end

/-! ### The runs go on -/

/-- A run goes on: what it was started with stays, and so does the session of a provider. -/
inductive Party.Advances : Party → Party → Prop where
  | consumer {i : ℕ} {pair : Routing} {state state' : Initiator Term} :
      Advances (.consumer i pair state) (.consumer i pair state')
  | provider {i : ℕ} {pair : Routing} {policy : Policy Term} {state state' : Responder Term} :
      (∀ hs, state = .finished (.ok hs) →
        ∃ hs', state' = .finished (.ok hs') ∧ Handshaked.Continues hs hs') →
      Advances (.provider i pair policy state) (.provider i pair policy state')

theorem Party.Advances.refl (p : Party) :
  p.Advances p
  := by
  cases p with
  | consumer i pair state => exact .consumer
  | provider i pair policy state => exact .provider fun hs h => ⟨hs, h, .refl hs⟩

def World.Grows (w w' : World) : Prop :=
  ∀ (r : ℕ) (p : Party), w.parties[r]? = some p → ∃ p', w'.parties[r]? = some p' ∧ p.Advances p'

section

variable {w w' : World}

theorem Origin.mono (hw : w.Grows w') {secrets : List (List Term)} {ikm ad p : List Term} {i : ℕ}
    {n : UInt64} (h : Origin w secrets ikm i n ad p) :
  Origin w' secrets ikm i n ad p
  := by
  cases h with
  | staticTwo h => exact .staticTwo h
  | messageTwo hr =>
      obtain ⟨p', hr', hadv⟩ := hw _ _ hr
      cases hadv with
      | provider _ => exact .messageTwo hr'
  | staticThree h => exact .staticThree h
  | messageThree hr =>
      obtain ⟨p', hr', hadv⟩ := hw _ _ hr
      cases hadv with
      | consumer => exact .messageThree hr'
  | consumerSession => exact .consumerSession
  | providerSession hr hkey hready =>
      obtain ⟨p', hr', hadv⟩ := hw _ _ hr
      cases hadv with
      | provider h =>
          obtain ⟨hs', rfl, hcont⟩ := h _ rfl
          exact .providerSession hr' (hcont.sendKey.trans hkey) fun hp =>
            hcont.refused.trans (hready hp)

theorem made_mono (hw : w.Grows w') (t : Term) (h : Made w t) :
  Made w' t
  := by
  apply MadeBy.mono _ h
  rintro t' ⟨secrets, ikm, i, n, ad, p, rfl, horigin⟩
  exact ⟨secrets, ikm, i, n, ad, p, rfl, horigin.mono hw⟩

end

/-! ### Where a run stands -/

/-- A consumer that has read message two: its keys, and the payload that it has read. -/
structure HeardTwo (made : Term → Prop) (r i : ℕ) (pair : Routing) (noise : StatelessNoise Term)
    (re s : List Term) : Prop where
  sendKey : noise.sendKey = suite.hkdf (chain suite (consumerSecrets r i pair re)) [] 0
  recvKey : noise.recvKey = suite.hkdf (chain suite (consumerSecrets r i pair re)) [] 1
  payload : ∃ payload, AllPublic made
    (suite.aeadEncrypt
      (suite.hkdf (chain suite [suite.x25519 (ephemeralKey r) re])
        (suite.x25519 (ephemeralKey r) pair.peer) 1)
      0 (transcript suite (consumerHashed r i pair re s)) payload)

/-- The states of a consumer. -/
def ConsumerAt (made : Term → Prop) (r i : ℕ) (pair : Routing) : Initiator Term → Prop
  | .awaitTwo state frameOne =>
    state = ⟨after suite [] [[], suite.publicIdentity (ephemeralKey r), consumerPrologue i pair] 0,
        true, staticKey i, ephemeralKey r, suite.publicIdentity (ephemeralKey r),
        lit (List.replicate dhLen 0), none⟩
      ∧ AllPublic made frameOne
  | .awaitVerdict noise frameThree _ =>
    (∃ re s, HeardTwo made r i pair noise re s) ∧ AllPublic made frameThree
  | .finished (.ok hs) =>
    hs.retransmit = none ∧ (∃ re s, HeardTwo made r i pair hs.noise re s)
      ∧ ∃ n, AllPublic made (suite.aeadEncrypt hs.noise.recvKey n [] (lit [verdictReady]))
  | .finished (.error _) => True

/-- The reply of a provider that has decided on a static key. -/
noncomputable def replyTo (i : ℕ) (pair : Routing) (policy : Policy Term) (sendKey rs : List Term) :
    List Term :=
  handshakeFrame (u64Bytes 0 ++ suite.aeadEncrypt sendKey 0 []
    (verdictOf (Responder.reasonFor policy (pair.identity i) rs)))

/-- A provider that has read message three: its keys, the static key that it has read, and the
verdict on it. -/
structure HeardThree (made : Term → Prop) (r i : ℕ) (pair : Routing) (policy : Policy Term)
    (hs : Handshaked Term) (re rs : List Term) : Prop where
  sendKey : hs.noise.sendKey = suite.hkdf (chain suite (providerSecrets r i re rs)) [] 1
  recvKey : hs.noise.recvKey = suite.hkdf (chain suite (providerSecrets r i re rs)) [] 0
  payload : ∃ s ct s', AllPublic made
    (suite.aeadEncrypt
      (suite.hkdf
        (chain suite [suite.x25519 (staticKey i) re, suite.x25519 (ephemeralKey r) re])
        (suite.x25519 (ephemeralKey r) rs) 1)
      0 (transcript suite (s' :: ct :: providerHashed r i pair re s)) [])
  refused : hs.refused = none ↔ Responder.reasonFor policy (pair.identity i) rs = []
  reply : ∃ seen, hs.retransmit = some ⟨seen, replyTo i pair policy hs.noise.sendKey rs⟩
  sent : AllPublic made (replyTo i pair policy hs.noise.sendKey rs)

/-- The states of a provider. -/
def ProviderAt (made : Term → Prop) (r i : ℕ) (pair : Routing) (policy : Policy Term) :
    Responder Term → Prop
  | .awaitOne state =>
    state = XxHandshake.new suite false (staticKey i) (providerPrologue i pair) (ephemeralKey r)
  | .awaitThree state _ frameTwo =>
    (∃ re s ct, state =
      ⟨after suite [suite.x25519 (staticKey i) re, suite.x25519 (ephemeralKey r) re]
          (ct :: providerHashed r i pair re s) 1,
        false, staticKey i, ephemeralKey r, suite.publicIdentity (ephemeralKey r), re, none⟩)
      ∧ AllPublic made frameTwo
  | .finished (.ok hs) => ∃ re rs, HeardThree made r i pair policy hs re rs
  | .finished (.error _) => True

/-- The states of a run. -/
def Party.Stands (made : Term → Prop) (r : ℕ) : Party → Prop
  | .consumer i pair state => ConsumerAt made r i pair state
  | .provider i pair policy state =>
    AllPublic made policy.refuse ∧ ProviderAt made r i pair policy state

section

variable {made made' : Term → Prop} {r i : ℕ} {pair : Routing} {policy : Policy Term}

theorem HeardTwo.mono (h : ∀ t, made t → made' t) {noise : StatelessNoise Term} {re s : List Term}
    (hn : HeardTwo made r i pair noise re s) :
  HeardTwo made' r i pair noise re s
  := by
  obtain ⟨payload, hpayload⟩ := hn.payload
  exact ⟨hn.sendKey, hn.recvKey, payload, hpayload.mono h⟩

theorem HeardThree.mono (h : ∀ t, made t → made' t) {hs : Handshaked Term} {re rs : List Term}
    (hn : HeardThree made r i pair policy hs re rs) :
  HeardThree made' r i pair policy hs re rs
  := by
  obtain ⟨s, ct, s', hpayload⟩ := hn.payload
  exact ⟨hn.sendKey, hn.recvKey, ⟨s, ct, s', hpayload.mono h⟩, hn.refused, hn.reply, hn.sent.mono h⟩

theorem Party.Stands.mono (h : ∀ t, made t → made' t) {p : Party} (hp : p.Stands made r) :
  p.Stands made' r
  := by
  cases p with
  | consumer i pair state =>
      cases state with
      | awaitTwo state frameOne => exact ⟨hp.1, hp.2.mono h⟩
      | awaitVerdict noise frameThree messageTwo =>
          obtain ⟨⟨re, s, hheard⟩, hframe⟩ := hp
          exact ⟨⟨re, s, hheard.mono h⟩, hframe.mono h⟩
      | finished outcome =>
          cases outcome with
          | error e => trivial
          | ok hs =>
              obtain ⟨hretransmit, ⟨re, s, hheard⟩, n, hverdict⟩ := hp
              exact ⟨hretransmit, ⟨re, s, hheard.mono h⟩, n, hverdict.mono h⟩
  | provider i pair policy state =>
      refine ⟨hp.1.mono h, ?_⟩
      obtain ⟨_, hp⟩ := hp
      cases state with
      | awaitOne state => exact hp
      | awaitThree state messageOne frameTwo => exact ⟨hp.1, hp.2.mono h⟩
      | finished outcome =>
          cases outcome with
          | error e => trivial
          | ok hs =>
              obtain ⟨re, rs, hheard⟩ := hp
              exact ⟨re, rs, hheard.mono h⟩

end

end ZeroNat.Peer

import ZeroNat.Hash.Streaming
import ZeroNat.Noise.Xx

/-!
# The two handshakes agree

The `Noise_NNpsk0_25519_ChaChaPoly_BLAKE2s` handshake, by which the holders of a key that both
know agree on the keys of a connection, and the agreement of the two sides of either handshake:
each reads what the other wrote, and they end with the same keys, crosswise.
-/

namespace ZeroNat

def pattern : List UInt8 := utf8 "Noise_NNpsk0_25519_ChaChaPoly_BLAKE2s"

variable {β : Type} [Alphabet β] (S : Suite β)

namespace SymmetricState

def mixKeyAndHash (ss : SymmetricState β) (ikm : List β) : SymmetricState β :=
  let tempH := S.hkdf ss.ck ikm 1
  let tempK := S.hkdf ss.ck ikm 2
  let ss := { ss with ck := S.hkdf ss.ck ikm 0 }
  { ss.mixHash S tempH with k := some tempK, n := 0 }

/-- Mix in a secret, if there is one. -/
def mixSecret (ss : SymmetricState β) : Option (List β) → SymmetricState β
  | some ikm => ss.mixKey S ikm
  | none => ss

end SymmetricState

/-- The state with the prologue and the key that both know mixed in. -/
def nnStart (psk prologue : List β) : SymmetricState β :=
  let ss := SymmetricState.new S (lit pattern)
  (ss.mixHash S prologue).mixKeyAndHash S psk

/-- Write our ephemeral key and, when that of the other side is known, mix in the secret that both
compute from the two. -/
def nnWrite (ss : SymmetricState β) (ePriv : List β) (re : Option (List β)) (payload : List β) :
    List β × SymmetricState β :=
  let ePub := S.publicIdentity ePriv
  let ss := (ss.mixHash S ePub).mixKey S ePub
  let ss := ss.mixSecret S (re.map (S.x25519 ePriv))
  let (ct, ss) := ss.encryptAndHash S payload
  (ePub ++ ct, ss)

/-- Read the ephemeral key of the other side and, when ours has been sent, mix in the secret that
both compute from the two. -/
def nnRead (ss : SymmetricState β) (ePriv : Option (List β)) (msg : List β) (short : String) :
    Except String (List β × List β × SymmetricState β) :=
  if msg.length < dhLen then .error short
  else do
    let re := msg.take dhLen
    let ss := (ss.mixHash S re).mixKey S re
    let ss := ss.mixSecret S (ePriv.map fun k => S.x25519 k re)
    let (payload, ss) ← ss.decryptAndHash S (msg.drop dhLen)
    return (re, payload, ss)

section

variable {S}

/-- What one side writes the other reads, if their ephemeral keys are used by both or by
neither. -/
theorem nnRead_nnWrite (hS : S.Lawful) (ss : SymmetricState β) {ePriv payload : List β}
    {re own : Option (List β)} (short : String)
    (hsecret : re.map (S.x25519 ePriv) = own.map fun k => S.x25519 k (S.publicIdentity ePriv)) :
  nnRead S ss own (nnWrite S ss ePriv re payload).1 short
    = .ok (S.publicIdentity ePriv, payload, (nnWrite S ss ePriv re payload).2)
  := by
  have hpub := hS.length_publicIdentity ePriv
  let ss₁ := (ss.mixHash S (S.publicIdentity ePriv)).mixKey S (S.publicIdentity ePriv)
  let ss₂ := ss₁.mixSecret S (re.map (S.x25519 ePriv))
  have hdec := SymmetricState.decryptAndHash_encryptAndHash hS ss₂ payload
  have hlen : ¬ (S.publicIdentity ePriv ++ (ss₂.encryptAndHash S payload).1).length < dhLen := by
    rw [List.length_append]
    omega
  change nnRead S ss own (S.publicIdentity ePriv ++ (ss₂.encryptAndHash S payload).1) short = _
  rw [nnRead, if_neg hlen, List.take_left' hpub, List.drop_left' hpub]
  apply XxHandshake.bind_eq_ok_iff.mpr
  refine ⟨(payload, (ss₂.encryptAndHash S payload).2), ?_, rfl⟩
  rw [← hsecret]
  exact hdec

/-- The keys of one side are those of the other, crosswise. -/
def Crosswise (initiator responder : Keys β) : Prop :=
  initiator.sendKey = responder.recvKey ∧ initiator.recvKey = responder.sendKey

/-- The two sides of the XX handshake, when each reads what the other wrote. -/
theorem xx_agrees (hS : S.Lawful) (sI sR eI eR prologue one two three : List β) :
  ∃ r₁ i₂ r₃ : XxHandshake β,
    (XxHandshake.new S false sR prologue eR).readMessageOne S
        ((XxHandshake.new S true sI prologue eI).writeMessageOne S one).1 = .ok (one, r₁)
    ∧ ((XxHandshake.new S true sI prologue eI).writeMessageOne S one).2.readMessageTwo S
        (r₁.writeMessageTwo S two).1 = .ok (two, i₂)
    ∧ (r₁.writeMessageTwo S two).2.readMessageThree S (i₂.writeMessageThree S three).1
        = .ok (three, r₃)
    ∧ (i₂.writeMessageThree S three).2.rs = some (S.publicIdentity sR)
    ∧ r₃.rs = some (S.publicIdentity sI)
    ∧ Crosswise ((i₂.writeMessageThree S three).2.ss.keys S
        (i₂.writeMessageThree S three).2.initiator) (r₃.ss.keys S r₃.initiator)
  := by
  let i := XxHandshake.new S true sI prologue eI
  let r := XxHandshake.new S false sR prologue eR
  let i₁ := (i.writeMessageOne S one).2
  let r₁ : XxHandshake β := { r with ss := i₁.ss, re := i.ePub }
  let r₂ := (r₁.writeMessageTwo S two).2
  let i₂ : XxHandshake β :=
    { i₁ with ss := r₂.ss, re := r₁.ePub, rs := some (S.publicIdentity sR) }
  let i₃ := (i₂.writeMessageThree S three).2
  let r₃ : XxHandshake β := { r₂ with ss := i₃.ss, rs := some (S.publicIdentity sI) }
  have hone : r.readMessageOne S (i.writeMessageOne S one).1 = .ok (one, r₁) :=
    XxHandshake.readMessageOne_writeMessageOne (p := r) (c := i) hS rfl
      (hS.length_publicIdentity eI) one
  have htwo : i₁.readMessageTwo S (r₁.writeMessageTwo S two).1 = .ok (two, i₂) :=
    XxHandshake.readMessageTwo_writeMessageTwo (c := i₁) (p := r₁) hS rfl rfl rfl two
  have hthree : r₂.readMessageThree S (i₂.writeMessageThree S three).1 = .ok (three, r₃) :=
    XxHandshake.readMessageThree_writeMessageThree (c := i₂) (p := r₂) hS rfl rfl rfl three
  exact ⟨r₁, i₂, r₃, hone, htwo, hthree, rfl, rfl, XxHandshake.keys_cross i₃.ss⟩

/-- The two sides of the NNpsk0 handshake, when each reads what the other wrote. -/
theorem nn_agrees (hS : S.Lawful) (psk prologue eI eR one two : List β) (short₁ short₂ : String) :
  ∃ ssI₁ ssR₁ ssI₂ ssR₂ : SymmetricState β, ∃ msg₁ msg₂ : List β,
    nnWrite S (nnStart S psk prologue) eI none one = (msg₁, ssI₁)
    ∧ nnRead S (nnStart S psk prologue) none msg₁ short₁ = .ok (S.publicIdentity eI, one, ssR₁)
    ∧ nnWrite S ssR₁ eR (some (S.publicIdentity eI)) two = (msg₂, ssR₂)
    ∧ nnRead S ssI₁ (some eI) msg₂ short₂ = .ok (S.publicIdentity eR, two, ssI₂)
    ∧ Crosswise (ssI₂.keys S true) (ssR₂.keys S false)
  := by
  let ss := nnStart S psk prologue
  let first := nnWrite S ss eI none one
  let second := nnWrite S first.2 eR (some (S.publicIdentity eI)) two
  have hone : nnRead S ss none first.1 short₁ = .ok (S.publicIdentity eI, one, first.2) :=
    nnRead_nnWrite hS ss short₁ rfl
  have htwo : nnRead S first.2 (some eI) second.1 short₂
      = .ok (S.publicIdentity eR, two, second.2) := by
    apply nnRead_nnWrite hS
    rw [Option.map_some, Option.map_some, hS.x25519_comm]
  exact ⟨first.2, first.2, second.2, second.2, first.1, second.1, rfl, hone, rfl, htwo,
    XxHandshake.keys_cross second.2⟩

/-- Both handshakes agree, whatever the keys, the prologues and the payloads are. -/
theorem handshakes_agree (hS : S.Lawful) :
  (∀ sI sR eI eR prologue one two three : List β, ∃ r₁ i₂ r₃ : XxHandshake β,
    (XxHandshake.new S false sR prologue eR).readMessageOne S
        ((XxHandshake.new S true sI prologue eI).writeMessageOne S one).1 = .ok (one, r₁)
    ∧ ((XxHandshake.new S true sI prologue eI).writeMessageOne S one).2.readMessageTwo S
        (r₁.writeMessageTwo S two).1 = .ok (two, i₂)
    ∧ (r₁.writeMessageTwo S two).2.readMessageThree S (i₂.writeMessageThree S three).1
        = .ok (three, r₃)
    ∧ (i₂.writeMessageThree S three).2.rs = some (S.publicIdentity sR)
    ∧ r₃.rs = some (S.publicIdentity sI)
    ∧ Crosswise ((i₂.writeMessageThree S three).2.ss.keys S
        (i₂.writeMessageThree S three).2.initiator) (r₃.ss.keys S r₃.initiator))
  ∧ ∀ (psk prologue eI eR one two : List β) (short₁ short₂ : String),
    ∃ ssI₁ ssR₁ ssI₂ ssR₂ : SymmetricState β, ∃ msg₁ msg₂ : List β,
      nnWrite S (nnStart S psk prologue) eI none one = (msg₁, ssI₁)
      ∧ nnRead S (nnStart S psk prologue) none msg₁ short₁
        = .ok (S.publicIdentity eI, one, ssR₁)
      ∧ nnWrite S ssR₁ eR (some (S.publicIdentity eI)) two = (msg₂, ssR₂)
      ∧ nnRead S ssI₁ (some eI) msg₂ short₂ = .ok (S.publicIdentity eR, two, ssI₂)
      ∧ Crosswise (ssI₂.keys S true) (ssR₂.keys S false)
  := ⟨xx_agrees hS, nn_agrees hS⟩

/-- The hashes of the program, with a curve and a cipher that hide nothing. -/
def Suite.hashed : Suite UInt8 :=
  { Suite.clear with
    blake2s := fun l => (Hash.blake2s [l]).toList
    hmacBlake2s := fun k l => (Hash.hmacBlake2s k [l]).toList }

theorem Suite.lawful_hashed :
  Suite.hashed.Lawful
  := ⟨Suite.lawful_clear.toLawful, Suite.lawful_clear.x25519_comm,
    Suite.lawful_clear.length_publicIdentity⟩

/-- The XX handshake of two sides with static keys of their own. -/
theorem handshakes_agree_hashed :
  Suite.hashed.Lawful ∧ ∃ r₁ i₂ r₃ : XxHandshake UInt8,
    (XxHandshake.new Suite.hashed false [2] [7] [4]).readMessageOne Suite.hashed
        ((XxHandshake.new Suite.hashed true [1] [7] [3]).writeMessageOne Suite.hashed [5]).1
      = .ok ([5], r₁)
    ∧ ((XxHandshake.new Suite.hashed true [1] [7] [3]).writeMessageOne Suite.hashed
        [5]).2.readMessageTwo Suite.hashed (r₁.writeMessageTwo Suite.hashed []).1 = .ok ([], i₂)
    ∧ (r₁.writeMessageTwo Suite.hashed []).2.readMessageThree Suite.hashed
        (i₂.writeMessageThree Suite.hashed [6]).1 = .ok ([6], r₃)
  := by
  obtain ⟨r₁, i₂, r₃, hone, htwo, hthree, -⟩ :=
    (handshakes_agree Suite.lawful_hashed).1 [1] [2] [3] [4] [7] [5] [] [6]
  exact ⟨Suite.lawful_hashed, r₁, i₂, r₃, hone, htwo, hthree⟩

end

end ZeroNat

import ZeroNat.Noise.Stateless

/-!
# The XX handshake

One side of a `Noise_XX_25519_ChaChaPoly_BLAKE2s` handshake, driven one whole message at a time.
The curve, the cipher and the hash are parameters.  Two sides that read each other's messages
end with the same state.
-/

namespace ZeroNat

def hashLen : ℕ := 32

def dhLen : ℕ := 32

def xxPattern : List UInt8 := utf8 "Noise_XX_25519_ChaChaPoly_BLAKE2s"

/-- The base point of the curve. -/
def basepoint : List UInt8 := 9 :: List.replicate 31 0

/-- The primitives of a handshake.  The hashes are of the concatenation of their parts. -/
structure Suite (β : Type) extends Cipher β where
  x25519 : List β → List β → List β
  blake2s : List β → List β
  hmacBlake2s : List β → List β → List β

/-- The state that both sides of a handshake build up. -/
structure SymmetricState (β : Type) where
  ck : List β
  h : List β
  k : Option (List β)
  n : UInt64

/-- One side of a handshake. -/
structure XxHandshake (β : Type) where
  ss : SymmetricState β
  initiator : Bool
  sPriv : List β
  ePriv : List β
  ePub : List β
  re : List β
  rs : Option (List β)

variable {β : Type} [Alphabet β]

namespace Suite

variable (S : Suite β)

/-- The public key of a private key, which is the identity a peer presents. -/
def publicIdentity (priv : List β) : List β :=
  S.x25519 priv (lit basepoint)

/-- The outputs that a key is expanded to, each from the one before it. -/
def expand (temp : List β) : ℕ → List β
  | 0 => S.hmacBlake2s temp (lit [1])
  | i + 1 => S.hmacBlake2s temp (expand temp i ++ lit [UInt8.ofNat (i + 2)])

/-- The output of the key derivation at an index. -/
def hkdf (ck ikm : List β) (i : ℕ) : List β :=
  S.expand (S.hmacBlake2s ck ikm) i

/-- What the handshake relies on: both sides of an exchange compute the same secret, public keys
have their length, and the cipher decrypts what it encrypts. -/
structure Lawful : Prop extends S.toCipher.Lawful where
  x25519_comm (a b : List β) :
    S.x25519 a (S.publicIdentity b) = S.x25519 b (S.publicIdentity a)
  length_publicIdentity (a : List β) : (S.publicIdentity a).length = dhLen

/-- Primitives that hide nothing: the exchange adds keys byte by byte, and the hash of some bytes
is their number. -/
def clear : Suite UInt8 where
  toCipher := Cipher.clear
  x25519 k p := List.zipWith (· + ·) ((k ++ List.replicate dhLen 0).take dhLen)
    ((p ++ List.replicate dhLen 0).take dhLen)
  blake2s l := List.replicate hashLen (UInt8.ofNat l.length)
  hmacBlake2s k l := List.replicate hashLen (UInt8.ofNat (k.length + 2 * l.length))

theorem lawful_clear :
  clear.Lawful
  := by
  have hpad : ∀ l : List UInt8, ((l ++ List.replicate dhLen 0).take dhLen).length = dhLen := by
    intro l
    simp
  have hlen : ∀ k p, (clear.x25519 k p).length = dhLen := by
    intro k p
    simp only [clear, List.length_zipWith, hpad, min_self]
  have hfull : ∀ l : List UInt8, l.length = dhLen → (l ++ List.replicate dhLen 0).take dhLen = l := by
    intro l hl
    exact List.take_left' hl
  refine ⟨Cipher.lawful_clear, ?_, ?_⟩
  · intro a b
    rw [publicIdentity, publicIdentity]
    simp only [clear] at hlen ⊢
    rw [hfull _ (hlen b _), hfull _ (hlen a _)]
    apply List.ext_getElem
    · simp
    · intro i _ _
      simp only [List.getElem_zipWith]
      ac_rfl
  · intro a
    apply hlen

end Suite

variable (S : Suite β)

namespace SymmetricState

/-- The state at the start of a protocol: its name, padded or hashed. -/
def new (protocol : List β) : SymmetricState β :=
  let h :=
    if protocol.length ≤ hashLen then
      protocol ++ lit (List.replicate (hashLen - protocol.length) 0)
    else S.blake2s protocol
  ⟨h, h, none, 0⟩

def mixHash (ss : SymmetricState β) (data : List β) : SymmetricState β :=
  { ss with h := S.blake2s (ss.h ++ data) }

def mixKey (ss : SymmetricState β) (ikm : List β) : SymmetricState β :=
  { ss with ck := S.hkdf ss.ck ikm 0, k := some (S.hkdf ss.ck ikm 1), n := 0 }

def encryptAndHash (ss : SymmetricState β) (pt : List β) : List β × SymmetricState β :=
  match ss.k with
  | some k =>
    let out := S.aeadEncrypt k ss.n ss.h pt
    (out, mixHash S { ss with n := ss.n + 1 } out)
  | none => (pt, ss.mixHash S pt)

def decryptAndHash (ss : SymmetricState β) (ct : List β) :
    Except String (List β × SymmetricState β) :=
  match ss.k with
  | some k =>
    match S.aeadDecrypt k ss.n ss.h ct with
    | some pt => .ok (pt, mixHash S { ss with n := ss.n + 1 } ct)
    | none => .error "aead authentication failed"
  | none => .ok (ct, ss.mixHash S ct)

/-- The transport keys: the initiator sends under the first output and receives under the
second. -/
def keys (ss : SymmetricState β) (initiator : Bool) : Keys β :=
  let t1 := S.hkdf ss.ck [] 0
  let t2 := S.hkdf ss.ck [] 1
  if initiator then ⟨t1, t2⟩ else ⟨t2, t1⟩

/-! ### States by what has been mixed in

The secrets and the data that have been mixed into a state, latest first, determine it. -/

/-- The chaining key after some secrets. -/
def chain : List (List β) → List β
  | [] => (new S (lit xxPattern)).ck
  | ikm :: secrets => S.hkdf (chain secrets) ikm 0

/-- The hash after some data. -/
def transcript : List (List β) → List β
  | [] => (new S (lit xxPattern)).h
  | data :: hashed => S.blake2s (transcript hashed ++ data)

/-- The key after some secrets: none before the first. -/
def keyAfter : List (List β) → Option (List β)
  | [] => none
  | ikm :: secrets => some (S.hkdf (chain S secrets) ikm 1)

/-- The state after some secrets and some data, with a number of messages encrypted under the
last key. -/
def after (secrets hashed : List (List β)) (n : UInt64) : SymmetricState β :=
  ⟨chain S secrets, transcript S hashed, keyAfter S secrets, n⟩

theorem new_mixHash (prologue : List β) :
  (new S (lit xxPattern)).mixHash S prologue = after S [] [prologue] 0
  := rfl

theorem mixHash_after (secrets hashed : List (List β)) (n : UInt64) (data : List β) :
  (after S secrets hashed n).mixHash S data = after S secrets (data :: hashed) n
  := rfl

theorem mixKey_after (secrets hashed : List (List β)) (n : UInt64) (ikm : List β) :
  (after S secrets hashed n).mixKey S ikm = after S (ikm :: secrets) hashed 0
  := rfl

theorem encryptAndHash_after (secrets hashed : List (List β)) (ikm : List β) (n : UInt64)
    (pt : List β) :
  (after S (ikm :: secrets) hashed n).encryptAndHash S pt
    = (S.aeadEncrypt (S.hkdf (chain S secrets) ikm 1) n (transcript S hashed) pt,
        after S (ikm :: secrets)
          (S.aeadEncrypt (S.hkdf (chain S secrets) ikm 1) n (transcript S hashed) pt :: hashed)
          (n + 1))
  := rfl

theorem decryptAndHash_after_eq_ok_iff {secrets hashed : List (List β)} {ikm : List β} {n : UInt64}
    {ct pt : List β} {ss : SymmetricState β} :
  (after S (ikm :: secrets) hashed n).decryptAndHash S ct = .ok (pt, ss)
    ↔ S.aeadDecrypt (S.hkdf (chain S secrets) ikm 1) n (transcript S hashed) ct = some pt
        ∧ ss = after S (ikm :: secrets) (ct :: hashed) (n + 1)
  := by
  rw [decryptAndHash]
  simp only [after, keyAfter]
  split
  · rename_i pt' hdec
    rw [hdec]
    constructor
    · intro h
      obtain ⟨rfl, rfl⟩ := Prod.mk.inj (Except.ok.inj h)
      exact ⟨rfl, rfl⟩
    · rintro ⟨hpt, rfl⟩
      obtain rfl := Option.some.inj hpt
      rfl
  · rename_i hdec
    simp [hdec]

theorem keys_after (secrets hashed : List (List β)) (n : UInt64) (initiator : Bool) :
  (after S secrets hashed n).keys S initiator
    = if initiator then ⟨S.hkdf (chain S secrets) [] 0, S.hkdf (chain S secrets) [] 1⟩
      else ⟨S.hkdf (chain S secrets) [] 1, S.hkdf (chain S secrets) [] 0⟩
  := rfl

/-- What one side encrypts, the other decrypts, and both hash the same. -/
theorem decryptAndHash_encryptAndHash {S : Suite β} (hS : S.Lawful) (ss : SymmetricState β)
    (pt : List β) :
  ss.decryptAndHash S (ss.encryptAndHash S pt).1 = .ok (pt, (ss.encryptAndHash S pt).2)
  := by
  rw [decryptAndHash, encryptAndHash]
  cases ss.k with
  | none => rfl
  | some k => simp only [hS.decrypt_encrypt]

end SymmetricState

namespace XxHandshake

def new (initiator : Bool) (staticPrivate prologue ePriv : List β) : XxHandshake β where
  ss := (SymmetricState.new S (lit xxPattern)).mixHash S prologue
  initiator := initiator
  sPriv := staticPrivate
  ePriv := ePriv
  ePub := S.publicIdentity ePriv
  re := lit (List.replicate dhLen 0)
  rs := none

/-- Message one, initiator to responder: tokens [e]. -/
def writeMessageOne (hs : XxHandshake β) (payload : List β) : List β × XxHandshake β :=
  let ss := hs.ss.mixHash S hs.ePub
  let (ct, ss) := ss.encryptAndHash S payload
  (hs.ePub ++ ct, { hs with ss })

def readMessageOne (hs : XxHandshake β) (msg : List β) :
    Except String (List β × XxHandshake β) :=
  if msg.length < dhLen then .error "handshake message 1 too short"
  else do
    let re := msg.take dhLen
    let ss := hs.ss.mixHash S re
    let (payload, ss) ← ss.decryptAndHash S (msg.drop dhLen)
    return (payload, { hs with ss, re })

/-- Message two, responder to initiator: tokens [e, ee, s, es]. -/
def writeMessageTwo (hs : XxHandshake β) (payload : List β) : List β × XxHandshake β :=
  let ss := hs.ss.mixHash S hs.ePub
  let ss := ss.mixKey S (S.x25519 hs.ePriv hs.re)
  let (s, ss) := ss.encryptAndHash S (S.publicIdentity hs.sPriv)
  let ss := ss.mixKey S (S.x25519 hs.sPriv hs.re)
  let (ct, ss) := ss.encryptAndHash S payload
  (hs.ePub ++ s ++ ct, { hs with ss })

/-- The static key that a message carries. -/
def readStatic (ss : SymmetricState β) (ct : List β) :
    Except String (List β × SymmetricState β) := do
  let (rs, ss) ← ss.decryptAndHash S ct
  if rs.length = dhLen then return (rs, ss) else .error "invalid static key in handshake"

def readMessageTwo (hs : XxHandshake β) (msg : List β) :
    Except String (List β × XxHandshake β) :=
  if msg.length < 2 * dhLen + 2 * tagLen then .error "handshake message 2 too short"
  else do
    let re := msg.take dhLen
    let ss := hs.ss.mixHash S re
    let ss := ss.mixKey S (S.x25519 hs.ePriv re)
    let (rs, ss) ← readStatic S ss ((msg.drop dhLen).take (dhLen + tagLen))
    let ss := ss.mixKey S (S.x25519 hs.ePriv rs)
    let (payload, ss) ← ss.decryptAndHash S (msg.drop (dhLen + dhLen + tagLen))
    return (payload, { hs with ss, re, rs := some rs })

/-- Message three, initiator to responder: tokens [s, se]. -/
def writeMessageThree (hs : XxHandshake β) (payload : List β) : List β × XxHandshake β :=
  let (s, ss) := hs.ss.encryptAndHash S (S.publicIdentity hs.sPriv)
  let ss := ss.mixKey S (S.x25519 hs.sPriv hs.re)
  let (ct, ss) := ss.encryptAndHash S payload
  (s ++ ct, { hs with ss })

def readMessageThree (hs : XxHandshake β) (msg : List β) :
    Except String (List β × XxHandshake β) :=
  if msg.length < dhLen + 2 * tagLen then .error "handshake message 3 too short"
  else do
    let (rs, ss) ← readStatic S hs.ss (msg.take (dhLen + tagLen))
    let ss := ss.mixKey S (S.x25519 hs.ePriv rs)
    let (payload, ss) ← ss.decryptAndHash S (msg.drop (dhLen + tagLen))
    return (payload, { hs with ss, rs := some rs })

/-- The transport state from the handshake split. -/
def intoTransport (hs : XxHandshake β) : StatelessNoise β :=
  .fromKeys (hs.ss.keys S hs.initiator)

/-! ### What is read -/

section

variable {S} {hs hs' : XxHandshake β} {ss ss' : SymmetricState β} {msg payload : List β}

theorem bind_eq_ok_iff {ε α γ : Type} {x : Except ε α} {f : α → Except ε γ} {c : γ} :
  x >>= f = .ok c ↔ ∃ a, x = .ok a ∧ f a = .ok c
  := by
  cases x with
  | error e => simp [bind, Except.bind]
  | ok a => simp [bind, Except.bind]

omit [Alphabet β] in
theorem readStatic_eq_ok_iff {ct rs : List β} :
  readStatic S ss ct = .ok (rs, ss')
    ↔ ss.decryptAndHash S ct = .ok (rs, ss') ∧ rs.length = dhLen
  := by
  rw [readStatic, bind_eq_ok_iff]
  constructor
  · rintro ⟨⟨rs', ss''⟩, hdec, h⟩
    dsimp only at h
    split at h
    · rename_i hlen
      obtain ⟨rfl, rfl⟩ := Prod.mk.inj (Except.ok.inj h)
      exact ⟨hdec, hlen⟩
    · cases h
  · rintro ⟨hdec, hlen⟩
    exact ⟨(rs, ss'), hdec, if_pos hlen⟩

omit [Alphabet β] in
theorem readMessageOne_eq_ok_iff :
  hs.readMessageOne S msg = .ok (payload, hs')
    ↔ ∃ re ct ss, msg = re ++ ct ∧ re.length = dhLen
        ∧ (hs.ss.mixHash S re).decryptAndHash S ct = .ok (payload, ss)
        ∧ hs' = { hs with ss, re }
  := by
  constructor
  · intro h
    rw [readMessageOne] at h
    split at h
    · cases h
    · rename_i hlen
      obtain ⟨⟨p, ss⟩, hdec, h⟩ := bind_eq_ok_iff.mp h
      obtain ⟨rfl, rfl⟩ := Prod.mk.inj (Except.ok.inj h)
      refine ⟨msg.take dhLen, msg.drop dhLen, ss, ?_, ?_, hdec, rfl⟩
      · rw [List.take_append_drop]
      · rw [List.length_take]
        omega
  · rintro ⟨re, ct, ss, rfl, hre, hdec, rfl⟩
    have hlen : ¬(re ++ ct).length < dhLen := by
      rw [List.length_append]
      omega
    rw [readMessageOne, if_neg hlen, bind_eq_ok_iff]
    refine ⟨(payload, ss), ?_, ?_⟩
    · rw [List.take_left' hre, List.drop_left' hre, hdec]
    · rw [List.take_left' hre]
      rfl

theorem readMessageTwo_eq_ok_iff :
  hs.readMessageTwo S msg = .ok (payload, hs')
    ↔ ∃ re s ct rs ss₁ ss₂, msg = re ++ (s ++ ct) ∧ re.length = dhLen
        ∧ s.length = dhLen + tagLen ∧ tagLen ≤ ct.length
        ∧ ((hs.ss.mixHash S re).mixKey S (S.x25519 hs.ePriv re)).decryptAndHash S s = .ok (rs, ss₁)
        ∧ rs.length = dhLen
        ∧ (ss₁.mixKey S (S.x25519 hs.ePriv rs)).decryptAndHash S ct = .ok (payload, ss₂)
        ∧ hs' = { hs with ss := ss₂, re, rs := some rs }
  := by
  constructor
  · intro h
    rw [readMessageTwo] at h
    split at h
    · cases h
    · rename_i hlen
      obtain ⟨⟨rs, ss₁⟩, hstatic, h⟩ := bind_eq_ok_iff.mp h
      obtain ⟨⟨p, ss₂⟩, hdec, h⟩ := bind_eq_ok_iff.mp h
      obtain ⟨rfl, rfl⟩ := Prod.mk.inj (Except.ok.inj h)
      obtain ⟨hstatic, hrs⟩ := readStatic_eq_ok_iff.mp hstatic
      refine ⟨msg.take dhLen, (msg.drop dhLen).take (dhLen + tagLen),
        msg.drop (dhLen + dhLen + tagLen), rs, ss₁, ss₂, ?_, ?_, ?_, ?_, hstatic, hrs, hdec, rfl⟩
      · rw [Nat.add_assoc, ← List.drop_drop, List.take_append_drop, List.take_append_drop]
      · rw [List.length_take]
        omega
      · rw [List.length_take, List.length_drop]
        omega
      · rw [List.length_drop]
        omega
  · rintro ⟨re, s, ct, rs, ss₁, ss₂, rfl, hre, hs, hct, hstatic, hrs, hdec, rfl⟩
    have hlen : ¬(re ++ (s ++ ct)).length < 2 * dhLen + 2 * tagLen := by
      simp only [List.length_append]
      omega
    have hmid : ((re ++ (s ++ ct)).drop dhLen).take (dhLen + tagLen) = s := by
      rw [List.drop_left' hre, List.take_left' hs]
    have hdrop : (re ++ (s ++ ct)).drop (dhLen + dhLen + tagLen) = ct := by
      rw [Nat.add_assoc, ← List.drop_drop, List.drop_left' hre, List.drop_left' hs]
    rw [readMessageTwo, if_neg hlen, List.take_left' hre, hmid, hdrop]
    apply bind_eq_ok_iff.mpr
    refine ⟨(rs, ss₁), readStatic_eq_ok_iff.mpr ⟨hstatic, hrs⟩, ?_⟩
    apply bind_eq_ok_iff.mpr
    exact ⟨(payload, ss₂), hdec, rfl⟩

theorem readMessageThree_eq_ok_iff :
  hs.readMessageThree S msg = .ok (payload, hs')
    ↔ ∃ s ct rs ss₁ ss₂, msg = s ++ ct ∧ s.length = dhLen + tagLen ∧ tagLen ≤ ct.length
        ∧ hs.ss.decryptAndHash S s = .ok (rs, ss₁)
        ∧ rs.length = dhLen
        ∧ (ss₁.mixKey S (S.x25519 hs.ePriv rs)).decryptAndHash S ct = .ok (payload, ss₂)
        ∧ hs' = { hs with ss := ss₂, rs := some rs }
  := by
  constructor
  · intro h
    rw [readMessageThree] at h
    split at h
    · cases h
    · rename_i hlen
      obtain ⟨⟨rs, ss₁⟩, hstatic, h⟩ := bind_eq_ok_iff.mp h
      obtain ⟨⟨p, ss₂⟩, hdec, h⟩ := bind_eq_ok_iff.mp h
      obtain ⟨rfl, rfl⟩ := Prod.mk.inj (Except.ok.inj h)
      obtain ⟨hstatic, hrs⟩ := readStatic_eq_ok_iff.mp hstatic
      refine ⟨msg.take (dhLen + tagLen), msg.drop (dhLen + tagLen), rs, ss₁, ss₂, ?_, ?_, ?_,
        hstatic, hrs, hdec, rfl⟩
      · rw [List.take_append_drop]
      · rw [List.length_take]
        omega
      · rw [List.length_drop]
        omega
  · rintro ⟨s, ct, rs, ss₁, ss₂, rfl, hs, hct, hstatic, hrs, hdec, rfl⟩
    have hlen : ¬(s ++ ct).length < dhLen + 2 * tagLen := by
      rw [List.length_append]
      omega
    rw [readMessageThree, if_neg hlen, List.take_left' hs, List.drop_left' hs]
    apply bind_eq_ok_iff.mpr
    refine ⟨(rs, ss₁), readStatic_eq_ok_iff.mpr ⟨hstatic, hrs⟩, ?_⟩
    apply bind_eq_ok_iff.mpr
    exact ⟨(payload, ss₂), hdec, rfl⟩

/-! ### What is read, by what has been mixed in -/

theorem readMessageOne_after {hashed : List (List β)}
    (hss : hs.ss = SymmetricState.after S [] hashed 0)
    (h : hs.readMessageOne S msg = .ok (payload, hs')) :
  ∃ re, msg = re ++ payload ∧ re.length = dhLen
    ∧ hs' = { hs with ss := SymmetricState.after S [] (payload :: re :: hashed) 0, re }
  := by
  obtain ⟨re, ct, ss, rfl, hre, hdec, rfl⟩ := readMessageOne_eq_ok_iff.mp h
  rw [hss] at hdec
  obtain ⟨rfl, rfl⟩ := Prod.mk.inj (Except.ok.inj hdec)
  exact ⟨re, rfl, hre, rfl⟩

theorem readMessageTwo_after {hashed : List (List β)}
    (hss : hs.ss = SymmetricState.after S [] hashed 0)
    (h : hs.readMessageTwo S msg = .ok (payload, hs')) :
  ∃ re s ct rs, msg = re ++ (s ++ ct)
    ∧ S.aeadDecrypt (S.hkdf (SymmetricState.chain S [S.x25519 hs.ePriv re])
        (S.x25519 hs.ePriv rs) 1) 0 (SymmetricState.transcript S (s :: re :: hashed)) ct
      = some payload
    ∧ hs' =
      { hs with
        ss := SymmetricState.after S [S.x25519 hs.ePriv rs, S.x25519 hs.ePriv re]
          (ct :: s :: re :: hashed) 1
        re
        rs := some rs }
  := by
  obtain ⟨re, s, ct, rs, ss₁, ss₂, rfl, _, _, _, hs, _, hct, rfl⟩ := readMessageTwo_eq_ok_iff.mp h
  rw [hss, SymmetricState.mixHash_after, SymmetricState.mixKey_after,
    SymmetricState.decryptAndHash_after_eq_ok_iff] at hs
  obtain ⟨_, rfl⟩ := hs
  rw [SymmetricState.mixKey_after, SymmetricState.decryptAndHash_after_eq_ok_iff] at hct
  obtain ⟨hct, rfl⟩ := hct
  exact ⟨re, s, ct, rs, rfl, hct, rfl⟩

theorem readMessageThree_after {secrets hashed : List (List β)} {ikm : List β} {n : UInt64}
    (hss : hs.ss = SymmetricState.after S (ikm :: secrets) hashed n)
    (h : hs.readMessageThree S msg = .ok (payload, hs')) :
  ∃ s ct rs, msg = s ++ ct
    ∧ S.aeadDecrypt (S.hkdf (SymmetricState.chain S secrets) ikm 1) n
        (SymmetricState.transcript S hashed) s = some rs
    ∧ S.aeadDecrypt (S.hkdf (SymmetricState.chain S (ikm :: secrets)) (S.x25519 hs.ePriv rs) 1) 0
        (SymmetricState.transcript S (s :: hashed)) ct = some payload
    ∧ hs' =
      { hs with
        ss := SymmetricState.after S (S.x25519 hs.ePriv rs :: ikm :: secrets) (ct :: s :: hashed) 1
        rs := some rs }
  := by
  obtain ⟨s, ct, rs, ss₁, ss₂, rfl, _, _, hs, _, hct, rfl⟩ := readMessageThree_eq_ok_iff.mp h
  rw [hss, SymmetricState.decryptAndHash_after_eq_ok_iff] at hs
  obtain ⟨hs, rfl⟩ := hs
  rw [SymmetricState.mixKey_after, SymmetricState.decryptAndHash_after_eq_ok_iff] at hct
  obtain ⟨hct, rfl⟩ := hct
  exact ⟨s, ct, rs, rfl, hs, hct, rfl⟩

end

/-! ### What is read is what was written -/

section

variable {S} {c p : XxHandshake β}

theorem length_encryptAndHash (hS : S.Lawful) (ss : SymmetricState β) {k : List β}
    (hk : ss.k = some k) (pt : List β) :
  (ss.encryptAndHash S pt).1.length = pt.length + tagLen
  := by
  rw [SymmetricState.encryptAndHash, hk]
  exact hS.length_encrypt k ss.n ss.h pt

theorem readMessageOne_writeMessageOne (hS : S.Lawful) (hss : p.ss = c.ss)
    (hc : c.ePub.length = dhLen) (payload : List β) :
  p.readMessageOne S (c.writeMessageOne S payload).1
    = .ok (payload, { p with ss := (c.writeMessageOne S payload).2.ss, re := c.ePub })
  := by
  let ss := c.ss.mixHash S c.ePub
  rw [readMessageOne_eq_ok_iff]
  refine ⟨c.ePub, (ss.encryptAndHash S payload).1, (ss.encryptAndHash S payload).2, rfl, hc, ?_, rfl⟩
  rw [hss]
  exact SymmetricState.decryptAndHash_encryptAndHash hS ss payload

/-- The initiator reads the message two of a responder that has read its message one. -/
theorem readMessageTwo_writeMessageTwo (hS : S.Lawful) (hss : c.ss = p.ss)
    (hp : p.ePub = S.publicIdentity p.ePriv) (hre : p.re = S.publicIdentity c.ePriv)
    (payload : List β) :
  c.readMessageTwo S (p.writeMessageTwo S payload).1
    = .ok (payload,
        { c with
          ss := (p.writeMessageTwo S payload).2.ss
          re := p.ePub
          rs := some (S.publicIdentity p.sPriv) })
  := by
  have hpub : p.ePub.length = dhLen := by
    rw [hp, hS.length_publicIdentity]
  have hee : S.x25519 c.ePriv p.ePub = S.x25519 p.ePriv p.re := by
    rw [hre, hp, hS.x25519_comm]
  have hes : S.x25519 c.ePriv (S.publicIdentity p.sPriv) = S.x25519 p.sPriv p.re := by
    rw [hre, hS.x25519_comm]
  -- the states in which the responder encrypts its static key and the payload
  let ss₁ := (p.ss.mixHash S p.ePub).mixKey S (S.x25519 p.ePriv p.re)
  let s := ss₁.encryptAndHash S (S.publicIdentity p.sPriv)
  let ss₂ := s.2.mixKey S (S.x25519 p.sPriv p.re)
  let ct := ss₂.encryptAndHash S payload
  rw [readMessageTwo_eq_ok_iff]
  refine ⟨p.ePub, s.1, ct.1, S.publicIdentity p.sPriv, s.2, ct.2, List.append_assoc _ _ _, hpub,
    ?_, ?_, ?_, hS.length_publicIdentity _, ?_, rfl⟩
  · exact (length_encryptAndHash hS ss₁ rfl _).trans (by rw [hS.length_publicIdentity])
  · rw [length_encryptAndHash hS ss₂ rfl payload]
    apply Nat.le_add_left
  · rw [hss, hee]
    exact SymmetricState.decryptAndHash_encryptAndHash hS ss₁ _
  · rw [hes]
    exact SymmetricState.decryptAndHash_encryptAndHash hS ss₂ payload

/-- The responder reads the message three of an initiator that has read its message two. -/
theorem readMessageThree_writeMessageThree (hS : S.Lawful) {k : List β} (hk : c.ss.k = some k)
    (hss : p.ss = c.ss) (hre : c.re = S.publicIdentity p.ePriv) (payload : List β) :
  p.readMessageThree S (c.writeMessageThree S payload).1
    = .ok (payload,
        { p with
          ss := (c.writeMessageThree S payload).2.ss
          rs := some (S.publicIdentity c.sPriv) })
  := by
  have hse : S.x25519 p.ePriv (S.publicIdentity c.sPriv) = S.x25519 c.sPriv c.re := by
    rw [hre, hS.x25519_comm]
  let s := c.ss.encryptAndHash S (S.publicIdentity c.sPriv)
  let ss := s.2.mixKey S (S.x25519 c.sPriv c.re)
  let ct := ss.encryptAndHash S payload
  rw [readMessageThree_eq_ok_iff]
  refine ⟨s.1, ct.1, S.publicIdentity c.sPriv, s.2, ct.2, rfl, ?_, ?_, ?_,
    hS.length_publicIdentity _, ?_, rfl⟩
  · exact (length_encryptAndHash hS c.ss hk _).trans (by rw [hS.length_publicIdentity])
  · rw [length_encryptAndHash hS ss rfl payload]
    apply Nat.le_add_left
  · rw [hss]
    exact SymmetricState.decryptAndHash_encryptAndHash hS c.ss _
  · rw [hse]
    exact SymmetricState.decryptAndHash_encryptAndHash hS ss payload

/-- The transport keys of the two sides of a handshake match crosswise. -/
theorem keys_cross (ss : SymmetricState β) :
  (ss.keys S true).sendKey = (ss.keys S false).recvKey
    ∧ (ss.keys S true).recvKey = (ss.keys S false).sendKey
  := ⟨rfl, rfl⟩

end

end XxHandshake

end ZeroNat

import Mathlib.Order.WellFounded
import Mathlib.SetTheory.Cardinal.Order
import ZeroNat.Noise.Xx

/-!
# Ideal primitives

The primitives of a handshake as constructors of terms: a term is known only as the output of
the primitive that makes it, from the arguments that it is made of.  A byte is literal, or a
part of an opaque term.  An attacker derives byte strings from those it has seen by cutting and
joining them and by applying the primitives.
-/

namespace ZeroNat

/-- The names of private keys: the long-term key of a party, the key made for one run, and the
keys of the attacker. -/
inductive Name where
  | static (i : ℕ)
  | ephemeral (r : ℕ)
  | adversary (a : ℕ)

/-- Terms.  The terms `nil` and `cons` are lists of bytes, the terms `byte` and `part` are bytes,
and the others are opaque. -/
inductive Term where
  | byte (b : UInt8)
  | part (t : Term) (i : ℕ)
  | nil
  | cons (x l : Term)
  | priv (n : Name)
  | pub (k : Term)
  | dh (k k' : Term)
  | xdh (k p : Term)
  | hash (l : Term)
  | hmac (k l : Term)
  | aead (k : Term) (n : UInt64) (ad p : Term)

namespace Term

instance : Alphabet Term where
  ofByte := byte
  toByte
    | byte b => some b
    | _ => none
  toByte_ofByte _ := rfl
  ofByte_toByte x b h := by
    cases x with
    | byte b' => exact congrArg byte (Option.some.inj h).symm
    | _ => cases h

noncomputable instance : DecidableEq Term :=
  Classical.decEq Term

/-- A list of bytes as a term. -/
def ofList : List Term → Term
  | [] => nil
  | x :: l => cons x (ofList l)

/-- The bytes of an opaque term. -/
def block (n : ℕ) (t : Term) : List Term :=
  (List.range n).map (part t)

theorem ofList_injective {l l' : List Term} (h : ofList l = ofList l') :
  l = l'
  := by
  induction l generalizing l' with
  | nil =>
      cases l' with
      | nil => rfl
      | cons x l' => cases h
  | cons x l ih =>
      cases l' with
      | nil => cases h
      | cons x' l' =>
          obtain ⟨rfl, hl⟩ := Term.cons.inj h
          rw [ih hl]

@[simp]
theorem length_block (n : ℕ) (t : Term) :
  (block n t).length = n
  := by
  rw [block, List.length_map, List.length_range]

theorem mem_block {n : ℕ} {t x : Term} (h : x ∈ block n t) :
  ∃ i, x = part t i
  := by
  obtain ⟨i, _, rfl⟩ := List.mem_map.mp h
  exact ⟨i, rfl⟩

theorem part_mem_block {n : ℕ} (hn : 0 < n) (t : Term) :
  part t 0 ∈ block n t
  := List.mem_map.mpr ⟨0, List.mem_range.mpr hn, rfl⟩

/-- A block determines the term that it is made of. -/
theorem block_injective {n n' : ℕ} {t t' : Term} (hn : 0 < n) (h : block n t = block n' t') :
  t = t'
  := by
  have hmem := part_mem_block hn t
  rw [h] at hmem
  obtain ⟨i, hi⟩ := mem_block hmem
  exact (Term.part.inj hi).1

/-! ### The exchange -/

/-- The secret shared by two private keys, in whichever order they are given. -/
noncomputable def dhOf (k k' : Term) : Term :=
  open Classical in if WellOrderingRel k k' then dh k k' else dh k' k

theorem dhOf_comm (k k' : Term) :
  dhOf k k' = dhOf k' k
  := by
  rw [dhOf, dhOf]
  rcases trichotomous_of WellOrderingRel k k' with h | rfl | h
  · rw [if_pos h, if_neg (asymm h)]
  · rfl
  · rw [if_neg (asymm h), if_pos h]

theorem dhOf_eq (k k' : Term) :
  dhOf k k' = dh k k' ∨ dhOf k k' = dh k' k
  := by
  rw [dhOf]
  split
  · exact Or.inl rfl
  · exact Or.inr rfl

theorem dhOf_inj {a b a' b' : Term} (h : dhOf a b = dhOf a' b') :
  (a = a' ∧ b = b') ∨ (a = b' ∧ b = a')
  := by
  rcases dhOf_eq a b with hab | hab
  · rcases dhOf_eq a' b' with hab' | hab'
    · rw [hab, hab'] at h
      exact Or.inl (Term.dh.inj h)
    · rw [hab, hab'] at h
      exact Or.inr (Term.dh.inj h)
  · rcases dhOf_eq a' b' with hab' | hab'
    · rw [hab, hab'] at h
      obtain ⟨hb, ha⟩ := Term.dh.inj h
      exact Or.inr ⟨ha, hb⟩
    · rw [hab, hab'] at h
      obtain ⟨hb, ha⟩ := Term.dh.inj h
      exact Or.inl ⟨ha, hb⟩

/-- Apply a private key to a point: the base point gives its public key, another public key the
secret shared with its holder, and any other bytes a secret of their own. -/
noncomputable def x25519 (k p : List Term) : List Term :=
  open Classical in
  if p = lit basepoint then block dhLen (pub (ofList k))
  else if h : ∃ t, p = block dhLen (pub t) then block dhLen (dhOf (ofList k) h.choose)
  else block dhLen (xdh (ofList k) (ofList p))

theorem block_ne_lit {n : ℕ} (hn : 0 < n) (t : Term) (l : List UInt8) :
  block n t ≠ lit l
  := by
  intro h
  have hmem := part_mem_block hn t
  rw [h] at hmem
  obtain ⟨b, _, hb⟩ := List.mem_map.mp hmem
  cases hb

theorem x25519_pub (k : List Term) (t : Term) :
  x25519 k (block dhLen (pub t)) = block dhLen (dhOf (ofList k) t)
  := by
  have h : ∃ t', block dhLen (pub t) = block dhLen (pub t') := ⟨t, rfl⟩
  have ht : h.choose = t := (Term.pub.inj (block_injective (by decide) h.choose_spec)).symm
  rw [x25519, if_neg (block_ne_lit (by decide) _ _), dif_pos h, ht]

theorem x25519_basepoint (k : List Term) :
  x25519 k (lit basepoint) = block dhLen (pub (ofList k))
  := by
  rw [x25519, if_pos rfl]

/-- A shared secret of two keys comes from the public key of one of them. -/
theorem x25519_eq_dhOf {k p : List Term} {a b : Term} (h : x25519 k p = block dhLen (dhOf a b)) :
  ∃ t, p = block dhLen (pub t) ∧ dhOf (ofList k) t = dhOf a b
  := by
  rw [x25519] at h
  split at h
  · have := block_injective (by decide) h
    rcases dhOf_eq a b with hab | hab <;> rw [hab] at this <;> cases this
  · split at h
    · rename_i hp
      exact ⟨hp.choose, hp.choose_spec, block_injective (by decide) h⟩
    · have := block_injective (by decide) h
      rcases dhOf_eq a b with hab | hab <;> rw [hab] at this <;> cases this

theorem length_x25519 (k p : List Term) :
  (x25519 k p).length = dhLen
  := by
  rw [x25519]
  split
  · apply length_block
  · split <;> apply length_block

/-! ### The cipher and the hashes -/

def aeadEncrypt (k : List Term) (n : UInt64) (ad p : List Term) : List Term :=
  block (p.length + tagLen) (aead (ofList k) n (ofList ad) (ofList p))

/-- What decrypts to a plaintext is its encryption. -/
noncomputable def aeadDecrypt (k : List Term) (n : UInt64) (ad ct : List Term) :
    Option (List Term) :=
  open Classical in
  if h : ∃ p, ct = aeadEncrypt k n ad p then some h.choose else none

theorem aeadEncrypt_injective {k k' : List Term} {n n' : UInt64} {ad ad' p p' : List Term}
    (h : aeadEncrypt k n ad p = aeadEncrypt k' n' ad' p') :
  k = k' ∧ n = n' ∧ ad = ad' ∧ p = p'
  := by
  have hpos : 0 < p.length + tagLen := Nat.lt_add_left _ (by decide)
  obtain ⟨hk, hn, had, hp⟩ := Term.aead.inj (block_injective hpos h)
  exact ⟨ofList_injective hk, hn, ofList_injective had, ofList_injective hp⟩

theorem aeadDecrypt_eq_some_iff {k : List Term} {n : UInt64} {ad ct p : List Term} :
  aeadDecrypt k n ad ct = some p ↔ ct = aeadEncrypt k n ad p
  := by
  rw [aeadDecrypt]
  constructor
  · intro h
    split at h
    · rename_i hex
      obtain rfl := Option.some.inj h
      exact hex.choose_spec
    · cases h
  · intro h
    have hex : ∃ p, ct = aeadEncrypt k n ad p := ⟨p, h⟩
    rw [dif_pos hex, Option.some.injEq]
    exact (aeadEncrypt_injective (h.symm.trans hex.choose_spec)).2.2.2.symm

/-- The ideal primitives. -/
noncomputable def suite : Suite Term where
  aeadEncrypt := aeadEncrypt
  aeadDecrypt := aeadDecrypt
  x25519 := x25519
  blake2s l := block hashLen (hash (ofList l))
  hmacBlake2s k l := block hashLen (hmac (ofList k) (ofList l))

theorem publicIdentity_suite (k : List Term) :
  suite.publicIdentity k = block dhLen (pub (ofList k))
  := x25519_basepoint k

theorem lawful_suite :
  suite.Lawful
  := by
  refine ⟨⟨?_, ?_⟩, ?_, ?_⟩
  · intro k n ad p
    exact aeadDecrypt_eq_some_iff.mpr rfl
  · intro k n ad p
    apply length_block
  · intro a b
    rw [publicIdentity_suite, publicIdentity_suite]
    change x25519 a _ = x25519 b _
    rw [x25519_pub, x25519_pub, dhOf_comm]
  · intro a
    rw [publicIdentity_suite, length_block]

/-! ### Keys and hashes tell what they are made of -/

theorem expand_eq (temp : List Term) (i : ℕ) :
  ∃ l, suite.expand temp i = block hashLen (hmac (ofList temp) (ofList l))
  := by
  cases i with
  | zero => exact ⟨_, rfl⟩
  | succ i => exact ⟨_, rfl⟩

theorem hkdf_injective {ck ck' ikm ikm' : List Term} {i i' : ℕ}
    (h : suite.hkdf ck ikm i = suite.hkdf ck' ikm' i') :
  ck = ck' ∧ ikm = ikm'
  := by
  rw [Suite.hkdf, Suite.hkdf] at h
  obtain ⟨l, hl⟩ := expand_eq (suite.hmacBlake2s ck ikm) i
  obtain ⟨l', hl'⟩ := expand_eq (suite.hmacBlake2s ck' ikm') i'
  rw [hl, hl'] at h
  have htemp := ofList_injective (Term.hmac.inj (block_injective (by decide) h)).1
  obtain ⟨hck, hikm⟩ := Term.hmac.inj (block_injective (by decide) htemp)
  exact ⟨ofList_injective hck, ofList_injective hikm⟩

/-- The first output is never the second. -/
theorem hkdf_zero_ne_one (ck ck' ikm ikm' : List Term) :
  suite.hkdf ck ikm 0 ≠ suite.hkdf ck' ikm' 1
  := by
  intro h
  have hlist := ofList_injective (Term.hmac.inj (block_injective (by decide) h)).2
  have hlen := congrArg List.length hlist
  simp [lit, Suite.expand, suite] at hlen
  exact absurd hlen (by decide)

theorem chain_nil :
  SymmetricState.chain suite [] = block hashLen (hash (ofList (lit xxPattern)))
  := rfl

theorem chain_injective {l l' : List (List Term)}
    (h : SymmetricState.chain suite l = SymmetricState.chain suite l') :
  l = l'
  := by
  have hne : ∀ (x : List Term) (l : List (List Term)),
      SymmetricState.chain suite (x :: l) ≠ SymmetricState.chain suite [] := by
    intro x l heq
    have := block_injective (by decide) heq
    cases this
  induction l generalizing l' with
  | nil =>
      cases l' with
      | nil => rfl
      | cons x' l' => exact absurd h.symm (hne x' l')
  | cons x l ih =>
      cases l' with
      | nil => exact absurd h (hne x l)
      | cons x' l' =>
          obtain ⟨hl, rfl⟩ := hkdf_injective h
          rw [ih hl]

theorem length_transcript (l : List (List Term)) :
  (SymmetricState.transcript suite l).length = hashLen
  := by
  cases l with
  | nil => rfl
  | cons x l => apply length_block

theorem transcript_cons_injective {x x' : List Term} {l l' : List (List Term)}
    (h : SymmetricState.transcript suite (x :: l) = SymmetricState.transcript suite (x' :: l')) :
  x = x' ∧ SymmetricState.transcript suite l = SymmetricState.transcript suite l'
  := by
  have hlist := ofList_injective (Term.hash.inj (block_injective (by decide) h))
  obtain ⟨hl, hx⟩ := List.append_inj hlist (by rw [length_transcript, length_transcript])
  exact ⟨hx, hl⟩

/-! ### What an attacker may know -/

/-- What may be known to an attacker, when some ciphertexts have been made by others.  A secret
is known only if a private key of the two is, a derived key only if what it is derived from is,
and a ciphertext if another party has made it or if the attacker can.  The hashes, and what a
private key makes of bytes that are no public key, are counted as known in any case. -/
def Public (made : Term → Prop) : Term → Prop
  | byte _ => True
  | part t _ => Public made t
  | nil => True
  | cons x l => Public made x ∧ Public made l
  | priv (.adversary _) => True
  | priv _ => False
  | pub _ => True
  | dh k k' => Public made k ∨ Public made k'
  | xdh _ _ => True
  | hash _ => True
  | hmac k l => Public made k ∧ Public made l
  | aead k n ad p => made (aead k n ad p) ∨ (Public made k ∧ Public made p)

/-- Bytes that may all be known. -/
def AllPublic (made : Term → Prop) (l : List Term) : Prop :=
  ∀ x ∈ l, Public made x

section

variable {made made' : Term → Prop} {l l' : List Term}

theorem Public.mono (h : ∀ t, made t → made' t) {t : Term} (ht : Public made t) :
  Public made' t
  := by
  induction t with
  | byte b => trivial
  | part t i ih => exact ih ht
  | nil => trivial
  | cons x l ihx ihl => exact ⟨ihx ht.1, ihl ht.2⟩
  | priv n => cases n <;> exact ht
  | pub k => trivial
  | dh k k' ihk ihk' =>
      rcases ht with hk | hk'
      · exact Or.inl (ihk hk)
      · exact Or.inr (ihk' hk')
  | xdh k p => trivial
  | hash l => trivial
  | hmac k l ihk ihl => exact ⟨ihk ht.1, ihl ht.2⟩
  | aead k n ad p ihk _ ihp =>
      rcases ht with hmade | ⟨hk, hp⟩
      · exact Or.inl (h _ hmade)
      · exact Or.inr ⟨ihk hk, ihp hp⟩

theorem AllPublic.mono (h : ∀ t, made t → made' t) (hl : AllPublic made l) :
  AllPublic made' l
  := fun x hx => (hl x hx).mono h

theorem allPublic_append :
  AllPublic made (l ++ l') ↔ AllPublic made l ∧ AllPublic made l'
  := by
  simp [AllPublic, or_imp, forall_and]

theorem allPublic_lit (made : Term → Prop) (bs : List UInt8) :
  AllPublic made (lit bs)
  := by
  intro x hx
  obtain ⟨b, _, rfl⟩ := List.mem_map.mp hx
  trivial

theorem public_ofList :
  Public made (ofList l) ↔ AllPublic made l
  := by
  induction l with
  | nil => simp [ofList, Public, AllPublic]
  | cons x l ih =>
      rw [ofList, Public, ih]
      simp [AllPublic]

theorem allPublic_block {n : ℕ} (hn : 0 < n) {t : Term} :
  AllPublic made (block n t) ↔ Public made t
  := by
  constructor
  · intro h
    have hpart := h (part t 0) (part_mem_block hn t)
    exact hpart
  · intro h x hx
    obtain ⟨i, rfl⟩ := mem_block hx
    exact h

theorem allPublic_hkdf {ck ikm : List Term} {i : ℕ} (h : AllPublic made (suite.hkdf ck ikm i)) :
  AllPublic made ck ∧ AllPublic made ikm
  := by
  obtain ⟨l, hl⟩ := expand_eq (suite.hmacBlake2s ck ikm) i
  rw [Suite.hkdf, hl, allPublic_block (by decide)] at h
  have htemp := public_ofList.mp h.1
  obtain ⟨hck, hikm⟩ := (allPublic_block (by decide)).mp htemp
  exact ⟨public_ofList.mp hck, public_ofList.mp hikm⟩

/-- A chaining key is known only if all the secrets in it are. -/
theorem allPublic_of_chain {secrets : List (List Term)} {s : List Term} (hs : s ∈ secrets)
    (h : AllPublic made (SymmetricState.chain suite secrets)) :
  AllPublic made s
  := by
  induction secrets with
  | nil => cases hs
  | cons x secrets ih =>
      obtain ⟨hck, hx⟩ := allPublic_hkdf h
      rcases List.mem_cons.mp hs with rfl | hs
      · exact hx
      · exact ih hs hck

/-- The private key of a name. -/
def keyOf (n : Name) : List Term :=
  block dhLen (priv n)

theorem keyOf_injective {n n' : Name} (h : keyOf n = keyOf n') :
  n = n'
  := Term.priv.inj (block_injective (by decide) h)

/-- The secret of two parties is known to neither but themselves. -/
theorem not_allPublic_dhOf {n n' : Name} (hn : ∀ a, n ≠ .adversary a) (hn' : ∀ a, n' ≠ .adversary a) :
  ¬AllPublic made (block dhLen (dhOf (ofList (keyOf n)) (ofList (keyOf n'))))
  := by
  have hpriv : ∀ m : Name, (∀ a, m ≠ .adversary a) → ¬Public made (ofList (keyOf m)) := by
    intro m hm h
    have := (allPublic_block (by decide)).mp (public_ofList.mp h)
    cases m with
    | static i => exact this
    | ephemeral r => exact this
    | adversary a => exact hm a rfl
  rw [allPublic_block (by decide)]
  rcases dhOf_eq (ofList (keyOf n)) (ofList (keyOf n')) with h | h
  · rw [h]
    rintro (hp | hp)
    · exact hpriv n hn hp
    · exact hpriv n' hn' hp
  · rw [h]
    rintro (hp | hp)
    · exact hpriv n' hn' hp
    · exact hpriv n hn hp

/-- What a known ciphertext decrypts to is known, if the plaintexts of the others may be. -/
theorem allPublic_of_decrypt {k ad ct p : List Term} {n : UInt64}
    (hplain : ∀ k n ad p, made (aead k n ad p) → Public made p) (hct : AllPublic made ct)
    (h : suite.aeadDecrypt k n ad ct = some p) :
  AllPublic made p
  := by
  obtain rfl := aeadDecrypt_eq_some_iff.mp h
  have hpos : 0 < p.length + tagLen := Nat.lt_add_left _ (by decide)
  rcases (allPublic_block hpos).mp hct with hmade | ⟨_, hp⟩
  · exact public_ofList.mp (hplain _ _ _ _ hmade)
  · exact public_ofList.mp hp

/-! ### Ciphertexts under derived keys -/

/-- The ciphertext under an output of the key derivation, from the secrets of a chaining key and
a further one. -/
noncomputable def sealed (secrets : List (List Term)) (ikm : List Term) (i : ℕ) (n : UInt64)
    (ad p : List Term) : Term :=
  aead (ofList (suite.hkdf (SymmetricState.chain suite secrets) ikm i)) n (ofList ad) (ofList p)

theorem sealed_inj {secrets secrets' : List (List Term)} {ikm ikm' ad ad' p p' : List Term}
    {i i' : ℕ} {n n' : UInt64} (h : sealed secrets ikm i n ad p = sealed secrets' ikm' i' n' ad' p') :
  suite.hkdf (SymmetricState.chain suite secrets) ikm i
      = suite.hkdf (SymmetricState.chain suite secrets') ikm' i'
    ∧ secrets = secrets' ∧ ikm = ikm' ∧ n = n' ∧ ad = ad' ∧ p = p'
  := by
  obtain ⟨hk, hn, had, hp⟩ := Term.aead.inj h
  have hkey := ofList_injective hk
  obtain ⟨hck, hikm⟩ := hkdf_injective hkey
  exact ⟨hkey, chain_injective hck, hikm, hn, ofList_injective had, ofList_injective hp⟩

/-- A ciphertext is known if somebody else has made it. -/
theorem allPublic_of_made {secrets : List (List Term)} {ikm ad p : List Term} {i : ℕ} {n : UInt64}
    (h : made (sealed secrets ikm i n ad p)) :
  AllPublic made
    (suite.aeadEncrypt (suite.hkdf (SymmetricState.chain suite secrets) ikm i) n ad p)
  := by
  have hpos : 0 < p.length + tagLen := Nat.lt_add_left _ (by decide)
  exact (allPublic_block hpos).mpr (Or.inl h)

/-- A known ciphertext under a key that is derived from a secret was made by somebody else. -/
theorem made_of_allPublic {secrets : List (List Term)} {s ikm ad p : List Term} {i : ℕ} {n : UInt64}
    (h : AllPublic made
      (suite.aeadEncrypt (suite.hkdf (SymmetricState.chain suite secrets) ikm i) n ad p))
    (hs : s = ikm ∨ s ∈ secrets) (hsecret : ¬AllPublic made s) :
  made (sealed secrets ikm i n ad p)
  := by
  have hpos : 0 < p.length + tagLen := Nat.lt_add_left _ (by decide)
  rcases (allPublic_block hpos).mp h with hmade | ⟨hkey, _⟩
  · exact hmade
  · obtain ⟨hck, hikm⟩ := allPublic_hkdf (public_ofList.mp hkey)
    rcases hs with rfl | hs
    · exact absurd hikm hsecret
    · exact absurd (allPublic_of_chain hs hck) hsecret

end

/-! ### What others may have made -/

/-- The ciphertexts of a kind that may have been made, when the plaintexts are all known. -/
def MadeBy (kind : Term → Prop) (t : Term) : Prop :=
  ∃ made : Term → Prop, made t ∧ (∀ t, made t → kind t)
    ∧ ∀ k n ad p, made (aead k n ad p) → Public made p

section

variable {kind kind' : Term → Prop} {t k ad p : Term} {n : UInt64}

theorem kind_of_madeBy (h : MadeBy kind t) :
  kind t
  := by
  obtain ⟨made, ht, hkind, _⟩ := h
  exact hkind t ht

theorem MadeBy.plain (h : MadeBy kind (aead k n ad p)) :
  Public (MadeBy kind) p
  := by
  obtain ⟨made, ht, hkind, hplain⟩ := h
  apply (hplain k n ad p ht).mono
  intro t' ht'
  exact ⟨made, ht', hkind, hplain⟩

theorem MadeBy.mono (hle : ∀ t, kind t → kind' t) (h : MadeBy kind t) :
  MadeBy kind' t
  := by
  obtain ⟨made, ht, hkind, hplain⟩ := h
  exact ⟨made, ht, fun t' ht' => hle t' (hkind t' ht'), hplain⟩

theorem madeBy_aead (hkind : kind (aead k n ad p)) (hp : Public (MadeBy kind) p) :
  MadeBy kind (aead k n ad p)
  := by
  refine ⟨fun t => MadeBy kind t ∨ t = aead k n ad p, Or.inr rfl, ?_, ?_⟩
  · rintro t (ht | rfl)
    · exact kind_of_madeBy ht
    · exact hkind
  · rintro k' n' ad' p' (ht | heq)
    · exact ht.plain.mono fun _ => Or.inl
    · obtain ⟨_, _, _, rfl⟩ := Term.aead.inj heq
      exact hp.mono fun _ => Or.inl

end

end Term

/-! ### What an attacker can derive -/

/-- The byte strings that can be derived from some others. -/
inductive Derives {β : Type} [Alphabet β] (S : Suite β) (seen : List β → Prop) : List β → Prop where
  | seen {l : List β} : seen l → Derives S seen l
  | lit (bs : List UInt8) : Derives S seen (lit bs)
  | append {l l' : List β} : Derives S seen l → Derives S seen l' → Derives S seen (l ++ l')
  | slice {l l' l'' : List β} : Derives S seen (l ++ l' ++ l'') → Derives S seen l'
  | x25519 {k p : List β} : Derives S seen k → Derives S seen p → Derives S seen (S.x25519 k p)
  | blake2s {l : List β} : Derives S seen l → Derives S seen (S.blake2s l)
  | hmac {k l : List β} : Derives S seen k → Derives S seen l → Derives S seen (S.hmacBlake2s k l)
  | encrypt {k ad p : List β} (n : UInt64) : Derives S seen k → Derives S seen ad →
      Derives S seen p → Derives S seen (S.aeadEncrypt k n ad p)
  | decrypt {k ad ct p : List β} {n : UInt64} : Derives S seen k → Derives S seen ct →
      S.aeadDecrypt k n ad ct = some p → Derives S seen p

/-- What may be known is closed under derivation, if the plaintexts of the others may be known. -/
theorem Term.allPublic_of_derives {made : Term → Prop} {seen : List Term → Prop} {l : List Term}
    (hseen : ∀ l, seen l → AllPublic made l)
    (hplain : ∀ k n ad p, made (aead k n ad p) → Public made p) (h : Derives suite seen l) :
  AllPublic made l
  := by
  induction h with
  | seen h => exact hseen _ h
  | lit bs => exact allPublic_lit made bs
  | append _ _ ih ih' => exact allPublic_append.mpr ⟨ih, ih'⟩
  | slice _ ih => exact (allPublic_append.mp (allPublic_append.mp ih).1).2
  | @x25519 k p _ _ ihk ihp =>
      change AllPublic made (Term.x25519 k p)
      rw [Term.x25519]
      split
      · exact (allPublic_block (by decide)).mpr trivial
      · split
        · apply (allPublic_block (by decide)).mpr
          rename_i hp
          rcases dhOf_eq (ofList k) hp.choose with hdh | hdh
          · rw [hdh]
            exact Or.inl (public_ofList.mpr ihk)
          · rw [hdh]
            exact Or.inr (public_ofList.mpr ihk)
        · exact (allPublic_block (by decide)).mpr trivial
  | blake2s _ _ => exact (allPublic_block (by decide)).mpr trivial
  | hmac _ _ ihk ihl =>
      exact (allPublic_block (by decide)).mpr ⟨public_ofList.mpr ihk, public_ofList.mpr ihl⟩
  | @encrypt k ad p n _ _ _ ihk _ ihp =>
      have hpos : 0 < p.length + tagLen := Nat.lt_add_left _ (by decide)
      exact (allPublic_block hpos).mpr (Or.inr ⟨public_ofList.mpr ihk, public_ofList.mpr ihp⟩)
  | decrypt _ _ hdec _ ihct => exact allPublic_of_decrypt hplain ihct hdec

end ZeroNat

import ZeroNat.Noise.Cipher

/-!
# Sealing datagrams

A finished session over a channel that loses and reorders: every sealed body carries its own
nonce.  The sender takes nonces from a counter that stops at its last value, and the receiver
remembers which of the most recent nonces it has accepted.
-/

open BigEndian

namespace ZeroNat

/-- The nonces behind the highest one that the receiver remembers. -/
def replayWindowLen : UInt64 := 128

/-- The highest nonce accepted, and which of those before it have been: the bit `i` stands for
the nonce that is `i` below the highest. -/
structure ReplayWindow where
  highest : Option UInt64
  seen : BitVec 128
deriving DecidableEq

/-- The keys of a finished handshake. -/
structure Keys (β : Type) where
  sendKey : List β
  recvKey : List β
deriving DecidableEq

/-- A finished session. -/
structure StatelessNoise (β : Type) where
  sendKey : List β
  recvKey : List β
  sendNonce : UInt64
  recvWindow : ReplayWindow
deriving DecidableEq

/-! ### The replay window -/

namespace ReplayWindow

/-- The window of a receiver that has accepted nothing. -/
def fresh : ReplayWindow where
  highest := none
  seen := 0

/-- Accept a nonce, unless it is too old or has been accepted before. -/
def checkAndMark (w : ReplayWindow) (nonce : UInt64) : Except String ReplayWindow :=
  match w.highest with
  | none => .ok ⟨some nonce, 1⟩
  | some highest =>
    if highest < nonce then
      let advance := nonce - highest
      .ok ⟨some nonce, if replayWindowLen ≤ advance then 1 else (w.seen <<< advance.toNat) ||| 1⟩
    else
      let age := highest - nonce
      if replayWindowLen ≤ age then
        .error "stateless datagram is outside the replay window"
      else
        let mask := (1 : BitVec 128) <<< age.toNat
        if w.seen &&& mask ≠ 0 then .error "replayed stateless datagram"
        else .ok ⟨some highest, w.seen ||| mask⟩

/-- The window remembers a list of accepted nonces: it holds the highest of them, and a bit is
set exactly when the nonce it stands for is among them. -/
structure Tracks (w : ReplayWindow) (ns : List UInt64) : Prop where
  nil_of_none : w.highest = none → ns = []
  mem_highest : ∀ h, w.highest = some h → h ∈ ns
  le_highest : ∀ h, w.highest = some h → ∀ n ∈ ns, n.toNat ≤ h.toNat
  seen_iff : ∀ h, w.highest = some h → ∀ i < 128,
    (w.seen.getLsbD i = true ↔ ∃ n ∈ ns, n.toNat + i = h.toNat)

theorem tracks_fresh :
  fresh.Tracks []
  where
  nil_of_none _ := rfl
  mem_highest _ h := by cases h
  le_highest _ h := by cases h
  seen_iff _ h := by cases h

theorem getLsbD_one (i : ℕ) :
  (1 : BitVec 128).getLsbD i = decide (i = 0)
  := by
  rw [show (1 : BitVec 128) = 1#128 from rfl, BitVec.getLsbD_one]
  simp

/-- The bit of a mask is clear when the masked number is zero. -/
theorem and_shiftLeft_ne_zero_iff (x : BitVec 128) {i : ℕ} (hi : i < 128) :
  x &&& ((1 : BitVec 128) <<< i) ≠ 0 ↔ x.getLsbD i = true
  := by
  constructor
  · intro h
    by_contra hx
    apply h
    apply BitVec.eq_of_getLsbD_eq
    intro j hj
    rw [BitVec.getLsbD_and, BitVec.getLsbD_shiftLeft, getLsbD_one]
    by_cases hji : j = i
    · subst hji
      simp [hx]
    · simp
      omega
  · intro hx h
    have hbit := congrArg (fun y => BitVec.getLsbD y i) h
    rw [BitVec.getLsbD_and, BitVec.getLsbD_shiftLeft, getLsbD_one, hx] at hbit
    simp [hi] at hbit

section

variable {w w' : ReplayWindow} {ns : List UInt64} {n : UInt64}

theorem toNat_sub_of_lt {a b : UInt64} (h : a < b) :
  (b - a).toNat = b.toNat - a.toNat
  := UInt64.toNat_sub_of_le b a (UInt64.le_of_lt h)

/-- A nonce above all others is accepted, and the bits move up. -/
theorem Tracks.advance {h : UInt64} (ht : w.Tracks ns) (hw : w.highest = some h) (hn : h < n) :
  ∃ w', w.checkAndMark n = .ok w' ∧ w'.Tracks (n :: ns)
  := by
  have hlt : h.toNat < n.toNat := UInt64.lt_iff_toNat_lt.mp hn
  have hadv := toNat_sub_of_lt hn
  have hle := ht.le_highest h hw
  have hlen : replayWindowLen ≤ n - h ↔ 128 ≤ n.toNat - h.toNat := by
    rw [UInt64.le_iff_toNat_le, hadv]
    rfl
  use ⟨some n, if replayWindowLen ≤ n - h then 1 else (w.seen <<< (n - h).toNat) ||| 1⟩
  refine ⟨by simp only [checkAndMark, hw, if_pos hn], by simp, by simp, ?_, ?_⟩
  · intro _ hh m hm
    obtain rfl := Option.some.inj hh
    rcases List.mem_cons.mp hm with rfl | hm
    · exact le_refl _
    · exact le_trans (hle m hm) (le_of_lt hlt)
  · intro _ hh i hi
    obtain rfl := Option.some.inj hh
    -- the bit of the new nonce is the lowest one, and those of the others have moved
    have hold : (∃ m ∈ n :: ns, m.toNat + i = n.toNat)
        ↔ i = 0 ∨ (n.toNat - h.toNat ≤ i ∧ ∃ m ∈ ns, m.toNat + (i - (n.toNat - h.toNat)) = h.toNat) := by
      constructor
      · rintro ⟨m, hm, hmi⟩
        rcases List.mem_cons.mp hm with rfl | hm
        · left
          omega
        · have := hle m hm
          exact Or.inr ⟨by omega, m, hm, by omega⟩
      · rintro (rfl | ⟨hi', m, hm, hmi⟩)
        · exact ⟨n, List.mem_cons_self, rfl⟩
        · exact ⟨m, List.mem_cons_of_mem n hm, by omega⟩
    rw [hold]
    split
    · rename_i hfar
      rw [hlen] at hfar
      rw [getLsbD_one, decide_eq_true_eq]
      constructor
      · exact Or.inl
      · rintro (h0 | ⟨hi', _⟩)
        · exact h0
        · omega
    · rename_i hnear
      rw [hlen] at hnear
      rw [BitVec.getLsbD_or, BitVec.getLsbD_shiftLeft, getLsbD_one, hadv, Bool.or_eq_true,
        decide_eq_true_eq, or_comm]
      apply or_congr Iff.rfl
      by_cases hi' : n.toNat - h.toNat ≤ i
      · rw [← ht.seen_iff h hw (i - (n.toNat - h.toNat)) (by omega)]
        simp [hi, hi', Nat.not_lt.mpr hi']
      · simp [hi, hi', Nat.lt_of_not_le hi']

/-- A nonce that is not above all others is accepted when it is recent and new. -/
theorem Tracks.fill {h : UInt64} (ht : w.Tracks ns) (hw : w.highest = some h)
    (hle : n.toNat ≤ h.toNat) (hnear : h.toNat < n.toNat + 128) (hnew : n ∉ ns) :
  ∃ w', w.checkAndMark n = .ok w' ∧ w'.Tracks (n :: ns)
  := by
  have hnlt : ¬h < n := by
    rw [UInt64.lt_iff_toNat_lt]
    omega
  have hage : (h - n).toNat = h.toNat - n.toNat :=
    UInt64.toNat_sub_of_le h n (UInt64.le_iff_toNat_le.mpr hle)
  have hrecent : ¬replayWindowLen ≤ h - n := by
    rw [UInt64.le_iff_toNat_le, hage, show replayWindowLen.toNat = 128 from rfl]
    omega
  have hbit : ¬(w.seen &&& ((1 : BitVec 128) <<< (h - n).toNat) ≠ 0) := by
    rw [and_shiftLeft_ne_zero_iff _ (by omega), ht.seen_iff h hw _ (by omega)]
    rintro ⟨m, hm, hmi⟩
    have hmn : m = n := UInt64.toNat_inj.mp (by omega)
    exact hnew (hmn ▸ hm)
  refine ⟨⟨some h, w.seen ||| ((1 : BitVec 128) <<< (h - n).toNat)⟩, ?_, ?_⟩
  · simp only [checkAndMark, hw, if_neg hnlt, if_neg hrecent, if_neg hbit]
  · refine ⟨by simp, ?_, ?_, ?_⟩
    · intro _ hh
      obtain rfl := Option.some.inj hh
      exact List.mem_cons_of_mem n (ht.mem_highest h hw)
    · intro _ hh m hm
      obtain rfl := Option.some.inj hh
      rcases List.mem_cons.mp hm with rfl | hm
      · exact hle
      · exact ht.le_highest h hw m hm
    · intro _ hh i hi
      obtain rfl := Option.some.inj hh
      rw [BitVec.getLsbD_or, Bool.or_eq_true, ht.seen_iff h hw i hi, or_comm,
        BitVec.getLsbD_shiftLeft, getLsbD_one]
      have hmask : (decide (i < 128) && !decide (i < (h - n).toNat)
          && decide (i - (h - n).toNat = 0)) = true ↔ n.toNat + i = h.toNat := by
        simp [hi]
        omega
      rw [hmask]
      simp only [List.mem_cons, exists_eq_or_imp]

/-- A nonce is accepted exactly when it is new and not too far behind, and the window then
remembers it too. -/
theorem Tracks.checkAndMark_eq_ok_iff (ht : w.Tracks ns) :
  (∃ w', w.checkAndMark n = .ok w')
    ↔ n ∉ ns ∧ ∀ h, w.highest = some h → h.toNat < n.toNat + 128
  := by
  constructor
  · rintro ⟨w', hok⟩
    cases hw : w.highest with
    | none => simp [ht.nil_of_none hw]
    | some h =>
        have hle := ht.le_highest h hw
        simp only [checkAndMark, hw] at hok
        split at hok
        · rename_i hlt
          rw [UInt64.lt_iff_toNat_lt] at hlt
          constructor
          · intro hm
            have := hle n hm
            omega
          · intro _ hh
            obtain rfl := Option.some.inj hh
            omega
        · rename_i hnlt
          rw [UInt64.lt_iff_toNat_lt] at hnlt
          have hage : (h - n).toNat = h.toNat - n.toNat :=
            UInt64.toNat_sub_of_le h n (UInt64.le_iff_toNat_le.mpr (by omega))
          split at hok
          · cases hok
          · rename_i hnear
            rw [UInt64.le_iff_toNat_le, hage, show replayWindowLen.toNat = 128 from rfl] at hnear
            split at hok
            · cases hok
            · rename_i hbit
              rw [and_shiftLeft_ne_zero_iff _ (by omega), hage, ht.seen_iff h hw _ (by omega)]
                at hbit
              constructor
              · intro hm
                exact hbit ⟨n, hm, by omega⟩
              · intro _ hh
                obtain rfl := Option.some.inj hh
                omega
  · rintro ⟨hnew, hnear⟩
    cases hw : w.highest with
    | none => exact ⟨⟨some n, 1⟩, by simp [checkAndMark, hw]⟩
    | some h =>
        by_cases hn : h < n
        · obtain ⟨w', hok, _⟩ := ht.advance hw hn
          exact ⟨w', hok⟩
        · rw [UInt64.lt_iff_toNat_lt, not_lt] at hn
          obtain ⟨w', hok, _⟩ := ht.fill hw hn (hnear h hw) hnew
          exact ⟨w', hok⟩

theorem Tracks.checkAndMark (ht : w.Tracks ns) (hok : w.checkAndMark n = .ok w') :
  n ∉ ns ∧ w'.Tracks (n :: ns)
  := by
  obtain ⟨hnew, hnear⟩ := ht.checkAndMark_eq_ok_iff.mp ⟨w', hok⟩
  constructor
  · exact hnew
  · cases hw : w.highest with
    | none =>
        obtain rfl := ht.nil_of_none hw
        simp only [ReplayWindow.checkAndMark, hw, Except.ok.injEq] at hok
        subst hok
        refine ⟨by simp, by simp, by simp, ?_⟩
        intro _ hh i hi
        obtain rfl := Option.some.inj hh
        rw [getLsbD_one]
        simp
    | some h =>
        have : ∃ w'', w.checkAndMark n = .ok w'' ∧ w''.Tracks (n :: ns) := by
          by_cases hn : h < n
          · exact ht.advance hw hn
          · rw [UInt64.lt_iff_toNat_lt, not_lt] at hn
            exact ht.fill hw hn (hnear h hw) hnew
        obtain ⟨w'', hok', ht'⟩ := this
        rw [hok, Except.ok.injEq] at hok'
        rwa [hok']

end

/-! ### Whole sequences of nonces -/

/-- The window after a sequence of calls.  A call that fails leaves it as it was. -/
def feed (w : ReplayWindow) : List UInt64 → ReplayWindow
  | [] => w
  | n :: ns =>
      match w.checkAndMark n with
      | .ok w' => w'.feed ns
      | .error _ => w.feed ns

/-- The nonces of the calls of a sequence that succeed. -/
def accepted (w : ReplayWindow) : List UInt64 → List UInt64
  | [] => []
  | n :: ns =>
      match w.checkAndMark n with
      | .ok w' => n :: w'.accepted ns
      | .error _ => w.accepted ns

/-- A window remembers what has been accepted since. -/
theorem Tracks.feed {w : ReplayWindow} {old : List UInt64} (ht : w.Tracks old)
    (hold : old.Nodup) (ns : List UInt64) :
  (w.feed ns).Tracks ((w.accepted ns).reverse ++ old)
    ∧ ((w.accepted ns).reverse ++ old).Nodup
  := by
  induction ns generalizing w old with
  | nil => exact ⟨ht, hold⟩
  | cons n ns ih =>
      rw [ReplayWindow.feed, ReplayWindow.accepted]
      cases h : w.checkAndMark n with
      | error e => exact ih ht hold
      | ok w' =>
          obtain ⟨hnew, ht'⟩ := ht.checkAndMark h
          obtain ⟨hfeed, hnodup⟩ := ih ht' (List.nodup_cons.mpr ⟨hnew, hold⟩)
          rw [List.reverse_cons, List.append_assoc]
          exact ⟨hfeed, hnodup⟩

/-- The window is exact: after any sequence of calls, a nonce is accepted if and only if it has
not been accepted before and is the first, or above the highest one accepted, or less than 128
below it; and no nonce has been accepted twice. -/
theorem replay_window_exact (ns : List UInt64) (n : UInt64) :
  ((∃ w, (fresh.feed ns).checkAndMark n = .ok w)
    ↔ n ∉ fresh.accepted ns ∧ (fresh.accepted ns = []
      ∨ ∃ h ∈ fresh.accepted ns, (∀ m ∈ fresh.accepted ns, m ≤ h)
        ∧ (h < n ∨ h.toNat - n.toNat < 128)))
    ∧ (fresh.accepted ns).Nodup
  := by
  obtain ⟨ht, hnodup⟩ := tracks_fresh.feed List.nodup_nil ns
  rw [List.append_nil] at ht hnodup
  refine ⟨?_, List.nodup_reverse.mp hnodup⟩
  rw [ht.checkAndMark_eq_ok_iff, List.mem_reverse]
  refine and_congr_right fun hnew => ?_
  cases hw : (fresh.feed ns).highest with
  | none =>
      have hnil := ht.nil_of_none hw
      simp [List.reverse_eq_nil_iff.mp hnil]
  | some h =>
      have hmem := List.mem_reverse.mp (ht.mem_highest h hw)
      have hmax : ∀ m ∈ fresh.accepted ns, m ≤ h := by
        intro m hm
        exact UInt64.le_iff_toNat_le.mpr (ht.le_highest h hw m (List.mem_reverse.mpr hm))
      constructor
      · intro hnear
        refine Or.inr ⟨h, hmem, hmax, Or.inr ?_⟩
        have := hnear h rfl
        omega
      · rintro (hnil | ⟨h', hmem', hmax', hcase⟩) h'' hh
        · rw [hnil] at hmem
          simp at hmem
        · obtain rfl := Option.some.inj hh
          obtain rfl := UInt64.le_antisymm (hmax h' hmem') (hmax' h hmem)
          obtain habove | hnear := hcase
          · rw [UInt64.lt_iff_toNat_lt] at habove
            omega
          · omega

end ReplayWindow

/-! ### Sealing and opening -/

namespace StatelessNoise

variable {β : Type}

def fromKeys (keys : Keys β) : StatelessNoise β where
  sendKey := keys.sendKey
  recvKey := keys.recvKey
  sendNonce := 0
  recvWindow := ReplayWindow.fresh

/-- What a call to seal does while it holds the lock of the counter: take a nonce, unless the
counter has reached its last value. -/
def nextNonce (noise : StatelessNoise β) : Except String UInt64 × StatelessNoise β :=
  if noise.sendNonce.toNat + 1 < 2 ^ 64 then
    (.ok noise.sendNonce, { noise with sendNonce := noise.sendNonce + 1 })
  else (.error "stateless send nonce exhausted", noise)

theorem nextNonce_eq_ok {noise noise' : StatelessNoise β} {nonce : UInt64}
    (h : noise.nextNonce = (.ok nonce, noise')) :
  nonce = noise.sendNonce ∧ noise.sendNonce.toNat + 1 < 2 ^ 64
    ∧ noise' = { noise with sendNonce := noise.sendNonce + 1 }
  := by
  rw [nextNonce] at h
  split at h
  · rename_i hlt
    obtain ⟨hnonce, hnoise⟩ := Prod.mk.inj h
    exact ⟨(Except.ok.inj hnonce).symm, hlt, hnoise.symm⟩
  · cases (Prod.mk.inj h).1

theorem nextNonce_eq_error {noise noise' : StatelessNoise β} {e : String}
    (h : noise.nextNonce = (.error e, noise')) :
  noise' = noise
  := by
  rw [nextNonce] at h
  split at h
  · cases (Prod.mk.inj h).1
  · exact (Prod.mk.inj h).2.symm

variable [Alphabet β] (C : Cipher β)

/-- What a call to seal does once it has its nonce: the eight bytes of a buffer at an offset
receive the nonce, and what follows them is encrypted. -/
def sealWith (noise : StatelessNoise β) (nonce : UInt64) (out : List β) (offset : ℕ) : List β :=
  out.take offset ++ u64Bytes nonce ++ C.aeadEncrypt noise.sendKey nonce [] (out.drop (offset + 8))

/-- Seal a body laid out in a buffer from an offset on. -/
def sealAt (noise : StatelessNoise β) (out : List β) (offset : ℕ) :
    Except String (List β) × StatelessNoise β :=
  match noise.nextNonce with
  | (.ok nonce, noise') => (.ok (noise'.sealWith C nonce out offset), noise')
  | (.error e, noise') => (.error e, noise')

/-- Encrypt a plaintext into a body of its own. -/
def sealBody (noise : StatelessNoise β) (plaintext : List β) :
    Except String (List β) × StatelessNoise β :=
  noise.sealAt C (lit (List.replicate 8 0) ++ plaintext) 0

/-- Decrypt a body.  Only a nonce under which it decrypts is marked as seen.  This is also the
variant that works on a copy of the body. -/
def openInPlace (noise : StatelessNoise β) (datagram : List β) :
    Except String (List β) × StatelessNoise β :=
  if datagram.length < 8 + tagLen then (.error "short datagram", noise)
  else
    match (ofU64Bytes (datagram.take 8)).bind fun nonce =>
        (C.aeadDecrypt noise.recvKey nonce [] (datagram.drop 8)).map (nonce, ·) with
    | none => (.error "stateless decrypt failed", noise)
    | some (nonce, plaintext) =>
      match noise.recvWindow.checkAndMark nonce with
      | .error e => (.error e, noise)
      | .ok w => (.ok plaintext, { noise with recvWindow := w })

section

variable {C} {noise noise' : StatelessNoise β} {datagram p : List β}

/-- A body opens when it spells a nonce and a ciphertext that decrypts under it, and the window
accepts the nonce. -/
theorem openInPlace_eq_ok_iff :
  noise.openInPlace C datagram = (.ok p, noise')
    ↔ ∃ nonce ct w, datagram = u64Bytes nonce ++ ct ∧ tagLen ≤ ct.length
        ∧ C.aeadDecrypt noise.recvKey nonce [] ct = some p
        ∧ noise.recvWindow.checkAndMark nonce = .ok w
        ∧ noise' = { noise with recvWindow := w }
  := by
  constructor
  · intro h
    rw [openInPlace] at h
    split at h
    · cases (Prod.mk.inj h).1
    · rename_i hlen
      split at h
      · cases (Prod.mk.inj h).1
      · rename_i nonce plaintext hdec
        obtain ⟨n, hn, hp⟩ := Option.bind_eq_some_iff.mp hdec
        obtain ⟨q, hq, hnq⟩ := Option.map_eq_some_iff.mp hp
        obtain ⟨rfl, rfl⟩ := Prod.mk.inj hnq
        split at h
        · cases (Prod.mk.inj h).1
        · rename_i w hw
          obtain ⟨hp', hnoise⟩ := Prod.mk.inj h
          obtain rfl := Except.ok.inj hp'
          have htake : (datagram.take 8).length = 8 := by
            rw [List.length_take]
            omega
          refine ⟨n, datagram.drop 8, w, ?_, ?_, hq, hw, hnoise.symm⟩
          · rw [u64Bytes_of_ofU64Bytes htake hn, List.take_append_drop]
          · rw [List.length_drop]
            omega
  · rintro ⟨nonce, ct, w, rfl, hlen, hdec, hw, rfl⟩
    have htake : (u64Bytes nonce ++ ct).take 8 = u64Bytes nonce := by
      rw [List.take_left' (length_u64Bytes nonce)]
    have hdrop : (u64Bytes nonce ++ ct).drop 8 = ct := by
      rw [List.drop_left' (length_u64Bytes nonce)]
    rw [openInPlace, if_neg (by simpa using hlen), htake, hdrop, ofU64Bytes_u64Bytes,
      Option.bind_some, hdec, Option.map_some]
    simp only [hw]

/-- Opening a body changes nothing but the window. -/
theorem openInPlace_snd (C : Cipher β) (noise : StatelessNoise β) (datagram : List β) :
  ∃ w, (noise.openInPlace C datagram).2 = { noise with recvWindow := w }
  := by
  rw [openInPlace]
  split
  · exact ⟨_, rfl⟩
  · split
    · exact ⟨_, rfl⟩
    · split
      · exact ⟨_, rfl⟩
      · exact ⟨_, rfl⟩

/-- Sealing a body changes nothing but the counter. -/
theorem sealAt_snd (C : Cipher β) (noise : StatelessNoise β) (out : List β) (offset : ℕ) :
  ∃ n, (noise.sealAt C out offset).2 = { noise with sendNonce := n }
  := by
  rw [sealAt, nextNonce]
  split_ifs
  · exact ⟨_, rfl⟩
  · exact ⟨_, rfl⟩

/-- A body that does not open leaves the session as it was. -/
theorem openInPlace_eq_error {e : String} (h : noise.openInPlace C datagram = (.error e, noise')) :
  noise' = noise
  := by
  rw [openInPlace] at h
  split at h
  · exact (Prod.mk.inj h).2.symm
  · split at h
    · exact (Prod.mk.inj h).2.symm
    · split at h
      · exact (Prod.mk.inj h).2.symm
      · cases (Prod.mk.inj h).1

end

end StatelessNoise

end ZeroNat

import ZeroNat.Lib.Checksum
import ZeroNat.Pppoe.Datapath

/-!
# The clamp of the segment size

A connection that is opened through the link has the maximum segment size of its first packet
lowered.  The change is folded into the checksum of the segment as if the two bytes were a word
of their own.  They are not when the option begins at an odd position of the header: the bytes
then belong to two words, and the checksum is off unless the difference happens to be a
multiple of 257.
-/

open BigEndian Checksum

namespace ZeroNat.Pppoe

/-! ### Finding the option -/

/-- Where the header of the segment begins. -/
def ipHeaderLen (pkt : List UInt8) : ℕ :=
  (pkt.getD 0 0).toNat % 16 * 4

/-- The segment that a packet carries. -/
def segment (pkt : List UInt8) : List UInt8 :=
  pkt.drop (ipHeaderLen pkt)

/-- Where the data of a segment begins. -/
def dataOffset (tcp : List UInt8) : ℕ :=
  (tcp.getD 12 0).toNat / 16 * 4

/-- The first fragment of an IPv4 packet with a TCP segment that opens a connection, with
headers that fit. -/
structure IsSyn (pkt : List UInt8) : Prop where
  length : 20 ≤ pkt.length
  version : (pkt.getD 0 0).toNat / 16 = 4
  header : 20 ≤ ipHeaderLen pkt
  fits : ipHeaderLen pkt + 20 ≤ pkt.length
  tcp : pkt.getD 9 0 = 6
  first : ofBe ((pkt.drop 6).take 2) % 2 ^ 13 = 0
  syn : ((segment pkt).getD 13 0).toNat / 2 % 2 ≠ 0
  options : 20 ≤ dataOffset (segment pkt)
  room : dataOffset (segment pkt) ≤ (segment pkt).length

/-- The position of the segment-size option, walking the options of a segment as the clamp
does. -/
def findMss (dataOff : ℕ) : ℕ → ℕ → List UInt8 → Option ℕ
  | 0, _, _ => none
  | fuel + 1, i, tcp =>
    if dataOff ≤ i then none
    else
      let kind := tcp.getD i 0
      if kind = 0 then none
      else if kind = 1 then findMss dataOff fuel (i + 1) tcp
      else if dataOff ≤ i + 1 then none
      else
        let len := (tcp.getD (i + 1) 0).toNat
        if len < 2 ∨ dataOff < i + len then none
        else if kind = 2 ∧ len = 4 then some i
        else findMss dataOff fuel (i + len) tcp

/-- The position of the segment-size option in the segment of a packet. -/
def mssOffset (pkt : List UInt8) : Option ℕ :=
  findMss (dataOffset (segment pkt)) (dataOffset (segment pkt)) 20 (segment pkt)

/-- The segment size that an option at a position gives. -/
def mssAt (tcp : List UInt8) (i : ℕ) : UInt16 :=
  u16OfBe ((tcp.drop (i + 2)).take 2)

/-- What the clamp makes of a segment whose option it lowers. -/
def lowered (clamp : UInt16) (i : ℕ) (tcp : List UInt8) : List UInt8 :=
  foldTcpChecksum (put tcp (i + 2) (u16ToBe clamp)) (mssAt tcp i) clamp

theorem clampFrom_eq (clamp : UInt16) (dataOff fuel i : ℕ) (tcp : List UInt8) :
  clampFrom clamp dataOff fuel i tcp
    = match findMss dataOff fuel i tcp with
      | none => (false, tcp)
      | some j => if mssAt tcp j ≤ clamp then (false, tcp) else (true, lowered clamp j tcp)
  := by
  induction fuel generalizing i with
  | zero => rfl
  | succ fuel ih =>
      rw [clampFrom, findMss]
      split
      · rfl
      · dsimp only
        split
        · rfl
        · split
          · exact ih (i + 1)
          · split
            · rfl
            · split
              · rfl
              · split
                · rfl
                · exact ih _

/-- The option that is found is among the options. -/
theorem findMss_spec {dataOff fuel i j : ℕ} {tcp : List UInt8}
    (h : findMss dataOff fuel i tcp = some j) :
  i ≤ j ∧ j + 4 ≤ dataOff ∧ tcp.getD j 0 = 2 ∧ tcp.getD (j + 1) 0 = 4
  := by
  induction fuel generalizing i with
  | zero => simp [findMss] at h
  | succ fuel ih =>
      rw [findMss] at h
      dsimp only at h
      split at h
      · simp at h
      · split at h
        · simp at h
        · split at h
          · have := ih h
            exact ⟨by omega, this.2⟩
          · split at h
            · simp at h
            · split at h
              · simp at h
              · rename_i hlen
                split at h
                · rename_i hmss
                  obtain rfl := Option.some.inj h
                  refine ⟨le_refl _, by omega, hmss.1, ?_⟩
                  exact UInt8.toNat_inj.mp hmss.2
                · have := ih h
                  exact ⟨by omega, this.2⟩

/-- The walk reads nothing beyond the option that it finds. -/
theorem findMss_congr {dataOff fuel i j : ℕ} {tcp tcp' : List UInt8}
    (h : findMss dataOff fuel i tcp = some j)
    (heq : ∀ k, i ≤ k → k < j + 2 → tcp'.getD k 0 = tcp.getD k 0) :
  findMss dataOff fuel i tcp' = some j
  := by
  induction fuel generalizing i with
  | zero => simp [findMss] at h
  | succ fuel ih =>
      have hspec := findMss_spec h
      have hkind := heq i (le_refl _) (by omega)
      have hlength := heq (i + 1) (by omega) (by omega)
      rw [findMss] at h ⊢
      dsimp only at h ⊢
      rw [hkind, hlength]
      split at h
      · simp at h
      · rename_i hend
        rw [if_neg hend]
        split at h
        · simp at h
        · rename_i hzero
          rw [if_neg hzero]
          split at h
          · rename_i hnop
            rw [if_pos hnop]
            exact ih h fun k hk hk' => heq k (by omega) hk'
          · rename_i hnop
            rw [if_neg hnop]
            split at h
            · simp at h
            · rename_i hlast
              rw [if_neg hlast]
              split at h
              · simp at h
              · rename_i hlen
                rw [if_neg hlen]
                split at h
                · rename_i hmss
                  rw [if_pos hmss, h]
                · rename_i hmss
                  rw [if_neg hmss]
                  exact ih h fun k hk hk' => heq k (by omega) hk'

/-! ### The sum of a segment -/

/-- The one's-complement sum of the words of a byte string, a last odd byte filled with
zeros. -/
def onesSum : List UInt8 → UInt16
  | a :: b :: l => onesComplementAdd (u16OfBe [a, b]) (onesSum l)
  | [a] => u16OfBe [a, 0]
  | [] => 0

/-- The pseudo-header of a segment with a length. -/
def pseudoHeader (pkt : List UInt8) (n : ℕ) : List UInt8 :=
  (pkt.drop 12).take 8 ++ [0, 6] ++ u16ToBe (UInt16.ofNat n)

/-- The checksum of the first `n` bytes of the segment is right: the sum over the pseudo-header
and the segment is all ones. -/
def ChecksumValid (pkt : List UInt8) (n : ℕ) : Prop :=
  onesSum (pseudoHeader pkt n ++ (segment pkt).take n) = 0xffff

instance (pkt : List UInt8) (n : ℕ) : Decidable (ChecksumValid pkt n) :=
  inferInstanceAs (Decidable (_ = _))

theorem toNat_u16OfBe {l : List UInt8} (h : l.length = 2) :
  (u16OfBe l).toNat = ofBe l
  := by
  have hlt := ofBe_lt h
  rw [u16OfBe, UInt16.toNat_ofNat', Nat.mod_eq_of_lt (by omega)]

theorem toNat_onesComplementAdd (a b : UInt16) :
  (onesComplementAdd a b).toNat = (a.toNat + b.toNat) % 2 ^ 16 + (a.toNat + b.toNat) / 2 ^ 16
  := by
  have ha := a.toNat_lt
  have hb := b.toNat_lt
  rw [onesComplementAdd, UInt16.toNat_ofNat', Nat.mod_eq_of_lt (by omega)]

theorem onesComplementAdd_modEq (a b : UInt16) :
  (onesComplementAdd a b).toNat ≡ a.toNat + b.toNat [MOD 65535]
  := by
  rw [toNat_onesComplementAdd]
  exact endAround

theorem ofBe_pair (a b : UInt8) :
  ofBe [a, b] = 256 * a.toNat + b.toNat
  := by
  simp [ofBe]

theorem onesSum_spec (l : List UInt8) :
  (onesSum l).toNat ≡ total true l [MOD 65535] ∧ ((onesSum l).toNat = 0 ↔ total true l = 0)
  := by
  induction l using onesSum.induct with
  | case1 a b l ih =>
      have htotal : total true (a :: b :: l) = (256 * a.toNat + b.toNat) + total true l := by
        simp [total]
        omega
      have hword : (u16OfBe [a, b]).toNat = 256 * a.toNat + b.toNat := by
        rw [toNat_u16OfBe rfl, ofBe_pair]
      rw [onesSum, htotal]
      constructor
      · refine (onesComplementAdd_modEq _ _).trans ?_
        rw [hword]
        exact ih.1.add_left _
      · rw [toNat_onesComplementAdd, hword]
        have hlt := (onesSum l).toNat_lt
        have ha := a.toNat_lt
        have hb := b.toNat_lt
        have ih' := ih.2
        omega
  | case2 a =>
      have hword : (u16OfBe [a, 0]).toNat = 256 * a.toNat := by
        rw [toNat_u16OfBe rfl, ofBe_pair]
        rfl
      rw [onesSum, hword]
      simp only [total, if_true, Nat.add_zero]
      exact ⟨Nat.ModEq.refl _, trivial⟩
  | case3 => exact ⟨Nat.ModEq.refl _, Iff.rfl⟩

/-- The sum of a packet is all ones when it is a multiple of 65535: it is not zero, since the
protocol is in it. -/
theorem checksumValid_iff (pkt : List UInt8) (n : ℕ) :
  ChecksumValid pkt n ↔ total true (pseudoHeader pkt n ++ (segment pkt).take n) % 65535 = 0
  := by
  obtain ⟨hmod, hzero⟩ := onesSum_spec (pseudoHeader pkt n ++ (segment pkt).take n)
  have hproto : total true (pseudoHeader pkt n ++ (segment pkt).take n) ≠ 0 := by
    rw [pseudoHeader, List.append_assoc, List.append_assoc, total_append, total_append]
    cases after true ((pkt.drop 12).take 8).length <;> simp [total]
  have hlt := (onesSum (pseudoHeader pkt n ++ (segment pkt).take n)).toNat_lt
  rw [ChecksumValid, ← UInt16.toNat_inj]
  change (onesSum (pseudoHeader pkt n ++ (segment pkt).take n)).toNat = 65535 ↔ _
  rw [Nat.ModEq] at hmod
  omega

/-! ### Lowering the option -/

theorem toNat_not (a : UInt16) :
  (~~~a).toNat = 65535 - a.toNat
  := by
  have hsize : UInt16.size = 65536 := rfl
  have := a.toNat_lt
  rw [UInt16.toNat_not]
  omega

/-- The checksum that is folded accounts for a word that has changed. -/
theorem folded_modEq (hc old new : UInt16) :
  (~~~(onesComplementAdd (onesComplementAdd (~~~hc) (~~~old)) new)).toNat + new.toNat
    ≡ hc.toNat + old.toNat [MOD 65535]
  := by
  have hacc : (onesComplementAdd (onesComplementAdd (~~~hc) (~~~old)) new).toNat
      ≡ (65535 - hc.toNat) + (65535 - old.toNat) + new.toNat [MOD 65535] := by
    refine (onesComplementAdd_modEq _ _).trans (Nat.ModEq.add_right _ ?_)
    refine (onesComplementAdd_modEq _ _).trans ?_
    rw [toNat_not, toNat_not]
  have hlt := (onesComplementAdd (onesComplementAdd (~~~hc) (~~~old)) new).toNat_lt
  have hhc := hc.toNat_lt
  have hold := old.toNat_lt
  rw [toNat_not]
  rw [Nat.ModEq] at hacc ⊢
  omega

theorem take_drop_take {l : List UInt8} {p n : ℕ} (h : p + 2 ≤ n) :
  ((l.take n).drop p).take 2 = (l.drop p).take 2
  := by
  rw [List.drop_take, List.take_take, Nat.min_eq_left (by omega)]

theorem ofBe_u16ToBe (n : UInt16) :
  ofBe (u16ToBe n) = n.toNat
  := by
  have := n.toNat_lt
  exact ofBe_toBe_of_lt (by omega)

section Lowered

variable {tcp : List UInt8} {clamp : UInt16} {j n : ℕ}

/-- The checksum of a segment that has been lowered. -/
def loweredChecksum (clamp : UInt16) (j : ℕ) (tcp : List UInt8) : UInt16 :=
  ~~~(onesComplementAdd (onesComplementAdd (~~~(u16OfBe ((tcp.drop 16).take 2)))
    (~~~(mssAt tcp j))) clamp)

theorem lowered_eq (hj : 20 ≤ j) (hlen : j + 4 ≤ tcp.length) :
  lowered clamp j tcp
    = put (put tcp (j + 2) (u16ToBe clamp)) 16 (u16ToBe (loweredChecksum clamp j tcp))
  := by
  have hold : ((put tcp (j + 2) (u16ToBe clamp)).drop 16).take 2 = (tcp.drop 16).take 2 :=
    take_drop_put_of_ne (by omega) (length_u16ToBe clamp) (by omega)
  rw [lowered, foldTcpChecksum, hold]
  rfl

theorem length_lowered (hj : 20 ≤ j) (hlen : j + 4 ≤ tcp.length) :
  (lowered clamp j tcp).length = tcp.length
  := by
  have hput := length_put (p := j + 2) (by omega) (length_u16ToBe clamp) (l := tcp)
  rw [lowered_eq hj hlen, length_put (by omega) (length_u16ToBe _), hput]

/-- Only the two bytes of the option and the two of the checksum change. -/
theorem getElem?_lowered (hj : 20 ≤ j) (hlen : j + 4 ≤ tcp.length) {k : ℕ}
    (hk : k ≠ j + 2 ∧ k ≠ j + 3 ∧ k ≠ 16 ∧ k ≠ 17) :
  (lowered clamp j tcp)[k]? = tcp[k]?
  := by
  have hput := length_put (p := j + 2) (by omega) (length_u16ToBe clamp) (l := tcp)
  rw [lowered_eq hj hlen,
    getElem?_put_of_ne (by omega) (length_u16ToBe _) ⟨hk.2.2.1, hk.2.2.2⟩,
    getElem?_put_of_ne (by omega) (length_u16ToBe _) ⟨hk.1, by omega⟩]

/-- The option has the clamp as its value. -/
theorem mssAt_lowered (hj : 20 ≤ j) (hlen : j + 4 ≤ tcp.length) :
  mssAt (lowered clamp j tcp) j = clamp
  := by
  have hput := length_put (p := j + 2) (by omega) (length_u16ToBe clamp) (l := tcp)
  rw [mssAt, lowered_eq hj hlen,
    take_drop_put_of_ne (by omega) (length_u16ToBe _) (by omega),
    take_drop_put (by omega) (length_u16ToBe clamp), u16OfBe_u16ToBe]

/-- The sum of a segment that has been lowered, up to multiples of 65535: the checksum makes up
for one difference of the segment sizes, and the option counts once or 256 times. -/
theorem total_lowered (hj : 20 ≤ j) (hlen : j + 4 ≤ tcp.length) (hn : j + 4 ≤ n) :
  total true ((lowered clamp j tcp).take n) + (if j % 2 = 0 then 1 else 256) * (mssAt tcp j).toNat
      + clamp.toNat
    ≡ total true (tcp.take n) + (mssAt tcp j).toNat + (if j % 2 = 0 then 1 else 256) * clamp.toNat
      [MOD 65535]
  := by
  have hput := length_put (p := j + 2) (by omega) (length_u16ToBe clamp) (l := tcp)
  have ht : j + 4 ≤ (tcp.take n).length := by
    rw [List.length_take]
    omega
  have hput' := length_put (p := j + 2) (by omega) (length_u16ToBe clamp) (l := tcp.take n)
  have htake : (lowered clamp j tcp).take n = put (put (tcp.take n) (j + 2) (u16ToBe clamp)) 16
      (u16ToBe (loweredChecksum clamp j tcp)) := by
    rw [lowered_eq hj hlen, take_put (by omega) (length_u16ToBe _) (by omega),
      take_put (by omega) (length_u16ToBe _) (by omega)]
  have hparity : after true (j + 2) = decide (j % 2 = 0) := by
    rw [after]
    by_cases h : j % 2 = 0
    · rw [if_pos (by omega)]
      simp [h]
    · rw [if_neg (by omega)]
      simp [h]
  -- the two replacements, first that of the option and then that of the checksum
  have hoption := total_put true (l := tcp.take n) (p := j + 2) (by omega)
    (length_u16ToBe clamp)
  have hcheck := total_put true (l := put (tcp.take n) (j + 2) (u16ToBe clamp)) (p := 16)
    (by omega) (length_u16ToBe (loweredChecksum clamp j tcp))
  rw [hparity, take_drop_take (by omega)] at hoption
  rw [take_drop_put_of_ne (by omega) (length_u16ToBe clamp) (by omega), take_drop_take (by omega),
    show after true 16 = true from rfl, ← htake] at hcheck
  have hmssLen : ((tcp.drop (j + 2)).take 2).length = 2 := by
    rw [List.length_take, List.length_drop]
    omega
  have hhcLen : ((tcp.drop 16).take 2).length = 2 := by
    rw [List.length_take, List.length_drop]
    omega
  have hmss := total_pair (decide (j % 2 = 0)) hmssLen
  have hclamp := total_pair (decide (j % 2 = 0)) (length_u16ToBe clamp)
  have hhc := total_pair true hhcLen
  have hhc' := total_pair true (length_u16ToBe (loweredChecksum clamp j tcp))
  have hfold := folded_modEq (u16OfBe ((tcp.drop 16).take 2)) (mssAt tcp j) clamp
  rw [← toNat_u16OfBe hmssLen] at hmss
  rw [← toNat_u16OfBe hhcLen] at hhc
  rw [ofBe_u16ToBe] at hclamp hhc'
  simp only [decide_eq_true_eq, if_true, one_mul] at hmss hclamp hhc hhc'
  change (loweredChecksum clamp j tcp).toNat + clamp.toNat ≡ _ [MOD 65535] at hfold
  change _ ≡ (if j % 2 = 0 then 1 else 256) * (mssAt tcp j).toNat [MOD 65535] at hmss
  rw [Nat.ModEq] at *
  split at hmss
  · rename_i heven
    rw [if_pos heven]
    rw [if_pos heven] at hclamp
    omega
  · rename_i hodd
    rw [if_neg hodd]
    rw [if_neg hodd] at hclamp
    omega

end Lowered

/-! ### The clamp -/

section Clamp

variable {pkt : List UInt8} {clamp : UInt16}

theorem clampTcpMss_of_not_isSyn (h : ¬ IsSyn pkt) (clamp : UInt16) :
  clampTcpMss pkt clamp = (false, pkt)
  := by
  rw [clampTcpMss]
  split
  · rfl
  · rename_i hversion
    dsimp only
    split
    · rfl
    · rename_i hheader
      split
      · rfl
      · rename_i htcp
        split
        · rfl
        · rename_i hfirst
          split
          · rfl
          · rename_i hsyn
            split
            · rfl
            · rename_i hoff
              rw [not_or, not_lt, not_not] at hversion
              rw [not_or, not_lt, not_lt] at hheader hoff
              rw [not_not] at htcp hfirst
              exact absurd ⟨hversion.1, hversion.2, hheader.1, hheader.2, htcp, hfirst, hsyn,
                hoff.1, hoff.2⟩ h

theorem clampTcpMss_of_isSyn (h : IsSyn pkt) (clamp : UInt16) :
  clampTcpMss pkt clamp
    = match mssOffset pkt with
      | none => (false, pkt)
      | some j =>
          if mssAt (segment pkt) j ≤ clamp then (false, pkt)
          else (true, pkt.take (ipHeaderLen pkt) ++ lowered clamp j (segment pkt))
  := by
  obtain ⟨hlength, hversion, hheader, hfits, htcp, hfirst, hsyn, hoptions, hroom⟩ := h
  have hsyn' : ¬ ((pkt.drop ((pkt.getD 0 0).toNat % 16 * 4)).getD 13 0).toNat / 2 % 2 = 0 := hsyn
  rw [clampTcpMss, if_neg (by omega)]
  dsimp only
  rw [if_neg (by simp only [ipHeaderLen] at hheader hfits; omega), if_neg (not_not.mpr htcp),
    if_neg (not_not.mpr hfirst), if_neg hsyn',
    if_neg (by simp only [dataOffset, segment, ipHeaderLen] at hoptions hroom; omega),
    clampFrom_eq]
  change Prod.map id (pkt.take (ipHeaderLen pkt) ++ ·) (match mssOffset pkt with
      | none => (false, segment pkt)
      | some j =>
          if mssAt (segment pkt) j ≤ clamp then (false, segment pkt)
          else (true, lowered clamp j (segment pkt))) = _
  cases mssOffset pkt with
  | none =>
      dsimp only
      rw [Prod.map_apply, segment, List.take_append_drop]
      rfl
  | some j =>
      dsimp only
      split
      · rw [Prod.map_apply, segment, List.take_append_drop]
        rfl
      · rfl

/-- The option that is found lies within the header. -/
theorem mssOffset_spec (h : IsSyn pkt) {j : ℕ} (hj : mssOffset pkt = some j) :
  20 ≤ j ∧ j + 4 ≤ dataOffset (segment pkt) ∧ j + 4 ≤ (segment pkt).length
  := by
  have hspec := findMss_spec hj
  have hroom := h.room
  exact ⟨hspec.1, hspec.2.1, by omega⟩

section Rewritten

variable {j : ℕ}

/-- A packet whose option has been lowered. -/
def rewritten (clamp : UInt16) (j : ℕ) (pkt : List UInt8) : List UInt8 :=
  pkt.take (ipHeaderLen pkt) ++ lowered clamp j (segment pkt)

theorem length_header (h : IsSyn pkt) :
  (pkt.take (ipHeaderLen pkt)).length = ipHeaderLen pkt
  := by
  have := h.fits
  rw [List.length_take]
  omega

/-- The bytes of the packet other than the two of the option and the two of the checksum. -/
theorem getElem?_rewritten (h : IsSyn pkt) (hj : mssOffset pkt = some j) {k : ℕ}
    (hk : k ≠ ipHeaderLen pkt + (j + 2) ∧ k ≠ ipHeaderLen pkt + (j + 3)
      ∧ k ≠ ipHeaderLen pkt + 16 ∧ k ≠ ipHeaderLen pkt + 17) :
  (rewritten clamp j pkt)[k]? = pkt[k]?
  := by
  obtain ⟨hlow, -, hlen⟩ := mssOffset_spec h hj
  have hhead := length_header h
  by_cases hheader : k < ipHeaderLen pkt
  · rw [rewritten, List.getElem?_append_left (by omega), List.getElem?_take_of_lt hheader]
  · rw [rewritten, List.getElem?_append_right (by omega), hhead,
      getElem?_lowered hlow hlen (by omega), segment, List.getElem?_drop]
    congr 1
    omega

theorem getD_rewritten (h : IsSyn pkt) (hj : mssOffset pkt = some j) {k : ℕ}
    (hk : k ≠ ipHeaderLen pkt + (j + 2) ∧ k ≠ ipHeaderLen pkt + (j + 3)
      ∧ k ≠ ipHeaderLen pkt + 16 ∧ k ≠ ipHeaderLen pkt + 17) :
  (rewritten clamp j pkt).getD k 0 = pkt.getD k 0
  := by
  rw [List.getD_eq_getElem?_getD, List.getD_eq_getElem?_getD, getElem?_rewritten h hj hk]

theorem ipHeaderLen_rewritten (h : IsSyn pkt) (hj : mssOffset pkt = some j) :
  ipHeaderLen (rewritten clamp j pkt) = ipHeaderLen pkt
  := by
  have := h.header
  rw [ipHeaderLen, getD_rewritten h hj (by omega)]
  rfl

theorem segment_rewritten (h : IsSyn pkt) (hj : mssOffset pkt = some j) :
  segment (rewritten clamp j pkt) = lowered clamp j (segment pkt)
  := by
  rw [segment, ipHeaderLen_rewritten h hj, rewritten, List.drop_left' (length_header h)]

theorem length_rewritten (h : IsSyn pkt) (hj : mssOffset pkt = some j) :
  (rewritten clamp j pkt).length = pkt.length
  := by
  obtain ⟨hlow, -, hlen⟩ := mssOffset_spec h hj
  have hhead := length_header h
  have := h.fits
  rw [rewritten, List.length_append, length_lowered hlow hlen, hhead, segment, List.length_drop]
  omega

theorem getD_lowered {tcp : List UInt8} (hlow : 20 ≤ j) (hlen : j + 4 ≤ tcp.length) {k : ℕ}
    (hk : k ≠ j + 2 ∧ k ≠ j + 3 ∧ k ≠ 16 ∧ k ≠ 17) :
  (lowered clamp j tcp).getD k 0 = tcp.getD k 0
  := by
  rw [List.getD_eq_getElem?_getD, List.getD_eq_getElem?_getD, getElem?_lowered hlow hlen hk]

theorem take_drop_congr {l m : List UInt8} {p n : ℕ} (h : ∀ k, p ≤ k → k < p + n → m[k]? = l[k]?) :
  (m.drop p).take n = (l.drop p).take n
  := by
  refine List.ext_getElem? fun k => ?_
  by_cases hk : k < n
  · rw [List.getElem?_take_of_lt hk, List.getElem?_take_of_lt hk, List.getElem?_drop,
      List.getElem?_drop, h (p + k) (by omega) (by omega)]
  · rw [List.getElem?_take_eq_none (by omega), List.getElem?_take_eq_none (by omega)]

theorem isSyn_rewritten (h : IsSyn pkt) (hj : mssOffset pkt = some j) :
  IsSyn (rewritten clamp j pkt)
  := by
  obtain ⟨hlow, -, hlen⟩ := mssOffset_spec h hj
  have hheader := h.header
  have hoff : dataOffset (lowered clamp j (segment pkt)) = dataOffset (segment pkt) := by
    rw [dataOffset, getD_lowered hlow hlen (by omega)]
    rfl
  refine ⟨?_, ?_, ?_, ?_, ?_, ?_, ?_, ?_, ?_⟩
  · rw [length_rewritten h hj]
    exact h.length
  · rw [getD_rewritten h hj (by omega)]
    exact h.version
  · rw [ipHeaderLen_rewritten h hj]
    exact hheader
  · rw [ipHeaderLen_rewritten h hj, length_rewritten h hj]
    exact h.fits
  · rw [getD_rewritten h hj (by omega)]
    exact h.tcp
  · rw [take_drop_congr fun k _ _ => getElem?_rewritten h hj (by omega)]
    exact h.first
  · rw [segment_rewritten h hj, getD_lowered hlow hlen (by omega)]
    exact h.syn
  · rw [segment_rewritten h hj, hoff]
    exact h.options
  · rw [segment_rewritten h hj, hoff, length_lowered hlow hlen]
    exact h.room

theorem mssOffset_rewritten (h : IsSyn pkt) (hj : mssOffset pkt = some j) :
  mssOffset (rewritten clamp j pkt) = some j
  := by
  obtain ⟨hlow, -, hlen⟩ := mssOffset_spec h hj
  have hoff : dataOffset (lowered clamp j (segment pkt)) = dataOffset (segment pkt) := by
    rw [dataOffset, getD_lowered hlow hlen (by omega)]
    rfl
  rw [mssOffset, segment_rewritten h hj, hoff]
  exact findMss_congr hj fun k hk hk' => getD_lowered hlow hlen (by omega)

/-- A second pass changes nothing. -/
theorem clampTcpMss_rewritten (h : IsSyn pkt) (hj : mssOffset pkt = some j) :
  clampTcpMss (rewritten clamp j pkt) clamp = (false, rewritten clamp j pkt)
  := by
  obtain ⟨hlow, -, hlen⟩ := mssOffset_spec h hj
  rw [clampTcpMss_of_isSyn (isSyn_rewritten h hj), mssOffset_rewritten h hj]
  dsimp only
  rw [segment_rewritten h hj, mssAt_lowered hlow hlen, if_pos (UInt16.le_refl clamp)]

theorem pseudoHeader_rewritten (h : IsSyn pkt) (hj : mssOffset pkt = some j) (n : ℕ) :
  pseudoHeader (rewritten clamp j pkt) n = pseudoHeader pkt n
  := by
  have := h.header
  rw [pseudoHeader, take_drop_congr fun k _ _ => getElem?_rewritten h hj (by omega)]
  rfl

theorem length_pseudoHeader (h : IsSyn pkt) (n : ℕ) :
  (pseudoHeader pkt n).length = 12
  := by
  have := h.length
  rw [pseudoHeader, List.length_append, List.length_append, List.length_take, List.length_drop,
    length_u16ToBe, Nat.min_eq_left (by omega)]
  rfl

/-- A packet whose checksum was right has the right one again exactly when the option is at an
even position, or the two segment sizes differ by a multiple of 257. -/
theorem checksumValid_rewritten (h : IsSyn pkt) (hj : mssOffset pkt = some j)
    (hlt : clamp < mssAt (segment pkt) j) {n : ℕ} (hn : dataOffset (segment pkt) ≤ n)
    (hvalid : ChecksumValid pkt n) :
  ChecksumValid (rewritten clamp j pkt) n
    ↔ j % 2 = 0 ∨ 257 ∣ (mssAt (segment pkt) j).toNat - clamp.toNat
  := by
  obtain ⟨hlow, hoff, hlen⟩ := mssOffset_spec h hj
  have hsum := @total_lowered _ clamp j n hlow hlen (by omega)
  have hlt' := UInt16.lt_iff_toNat_lt.mp hlt
  have hmss := (mssAt (segment pkt) j).toNat_lt
  rw [checksumValid_iff, pseudoHeader_rewritten h hj, segment_rewritten h hj, total_append,
    length_pseudoHeader h, show after true 12 = true from rfl]
  rw [checksumValid_iff, total_append, length_pseudoHeader h,
    show after true 12 = true from rfl] at hvalid
  rw [Nat.ModEq] at hsum
  split at hsum
  · rename_i heven
    simp only [heven, true_or, iff_true]
    omega
  · rename_i hodd
    simp only [hodd, false_or]
    rw [Nat.dvd_iff_mod_eq_zero]
    omega

end Rewritten

/-- The packet that was rewritten opens a connection and has a segment-size option above the
clamp.  The option is the clamp then, all bytes but those of the option and of the checksum
are as they were, and the checksum is right if it was, whatever length of at least the header
the segment has. -/
structure Lowered (pkt out : List UInt8) (clamp : UInt16) (j : ℕ) : Prop where
  syn : IsSyn pkt
  offset : mssOffset pkt = some j
  option : (segment pkt).getD j 0 = 2 ∧ (segment pkt).getD (j + 1) 0 = 4
  above : clamp < mssAt (segment pkt) j
  value : mssAt (segment out) j = clamp
  length : out.length = pkt.length
  others : ∀ k, k ≠ ipHeaderLen pkt + (j + 2) → k ≠ ipHeaderLen pkt + (j + 3) →
    k ≠ ipHeaderLen pkt + 16 → k ≠ ipHeaderLen pkt + 17 → out[k]? = pkt[k]?
  checksum : ∀ n, dataOffset (segment pkt) ≤ n → ChecksumValid pkt n → ChecksumValid out n

/-- The clamp does what it is for: it leaves the packet alone, or lowers the option of a packet
that opens a connection, and a second pass changes nothing. -/
structure ClampSound (pkt : List UInt8) (clamp : UInt16) : Prop where
  unchanged : (clampTcpMss pkt clamp).1 = false → (clampTcpMss pkt clamp).2 = pkt
  changed : (clampTcpMss pkt clamp).1 = true → ∃ j, Lowered pkt (clampTcpMss pkt clamp).2 clamp j
  again : clampTcpMss (clampTcpMss pkt clamp).2 clamp = (false, (clampTcpMss pkt clamp).2)

/-- The option that is lowered is at an even position, or the segment sizes differ by a
multiple of 257, or the checksum was wrong before. -/
def ClampAligned (pkt : List UInt8) (clamp : UInt16) : Prop :=
  IsSyn pkt → ∀ j, mssOffset pkt = some j → clamp < mssAt (segment pkt) j →
    j % 2 = 0 ∨ 257 ∣ (mssAt (segment pkt) j).toNat - clamp.toNat
      ∨ ∀ n, dataOffset (segment pkt) ≤ n → ¬ ChecksumValid pkt n

theorem clampSound_of_eq (h : clampTcpMss pkt clamp = (false, pkt)) :
  ClampSound pkt clamp
  := by
  refine ⟨fun _ => by rw [h], ?_, by rw [h, h]⟩
  intro hchanged
  rw [h] at hchanged
  simp at hchanged

/-- The clamp keeps a segment valid exactly when the option that it lowers is aligned. -/
theorem clamp_sound_iff (pkt : List UInt8) (clamp : UInt16) :
  ClampSound pkt clamp ↔ ClampAligned pkt clamp
  := by
  by_cases hsyn : IsSyn pkt
  swap
  · refine iff_of_true ?_ (fun h => absurd h hsyn)
    exact clampSound_of_eq (clampTcpMss_of_not_isSyn hsyn clamp)
  have heq := clampTcpMss_of_isSyn hsyn clamp
  cases hj : mssOffset pkt with
  | none =>
      rw [hj] at heq
      refine iff_of_true (clampSound_of_eq heq) ?_
      intro _ j hj'
      rw [hj] at hj'
      simp at hj'
  | some j =>
      rw [hj] at heq
      dsimp only at heq
      split at heq
      · rename_i hle
        refine iff_of_true (clampSound_of_eq heq) ?_
        intro _ j' hj' hlt
        rw [hj] at hj'
        obtain rfl := Option.some.inj hj'
        exact absurd hlt (UInt16.not_lt.mpr hle)
      · rename_i hnle
        have hlt : clamp < mssAt (segment pkt) j := UInt16.not_le.mp hnle
        change clampTcpMss pkt clamp = (true, rewritten clamp j pkt) at heq
        obtain ⟨hlow, -, hlen⟩ := mssOffset_spec hsyn hj
        constructor
        · intro hsound _ j' hj' _
          rw [hj] at hj'
          obtain rfl := Option.some.inj hj'
          by_contra hodd
          rw [not_or, not_or, not_forall] at hodd
          obtain ⟨heven, hdvd, n, hn⟩ := hodd
          rw [Classical.not_imp, not_not] at hn
          obtain ⟨i, hlowered⟩ := hsound.changed (by rw [heq])
          have hvalid := hlowered.checksum n hn.1 hn.2
          rw [heq, checksumValid_rewritten hsyn hj hlt hn.1 hn.2] at hvalid
          exact hvalid.elim heven hdvd
        · intro haligned
          refine ⟨?_, ?_, by rw [heq, clampTcpMss_rewritten hsyn hj]⟩
          · intro hfalse
            rw [heq] at hfalse
            simp at hfalse
          · intro _
            rw [heq]
            refine ⟨j, hsyn, hj, (findMss_spec hj).2.2, hlt, ?_, length_rewritten hsyn hj, ?_, ?_⟩
            · rw [segment_rewritten hsyn hj, mssAt_lowered hlow hlen]
            · intro k h1 h2 h3 h4
              exact getElem?_rewritten hsyn hj ⟨h1, h2, h3, h4⟩
            · intro n hn hvalid
              rw [checksumValid_rewritten hsyn hj hlt hn hvalid]
              obtain heven | hdvd | hnever := haligned hsyn j hj hlt
              · exact Or.inl heven
              · exact Or.inr hdvd
              · exact absurd hvalid (hnever n hn)

/-- A packet that opens a connection, with the segment-size option after one byte of padding. -/
def paddedSyn : List UInt8 :=
  [0x45, 0, 0, 48, 0, 0, 0x40, 0, 64, 6, 0, 0, 10, 0, 0, 1, 10, 0, 0, 2,
    0x30, 0x39, 0, 80, 0, 0, 0, 1, 0, 0, 0, 0, 0x70, 2, 0xff, 0xff, 0x92, 0x46, 0, 0,
    1, 2, 4, 0x05, 0xb4, 0, 0, 0]

/-- The clamp to 1412 bytes spoils the checksum of this packet. -/
theorem clamp_spoils_checksum :
  536 ≤ (1412 : UInt16) ∧ ChecksumValid paddedSyn 28 ∧ ¬ ClampSound paddedSyn 1412
  := by
  have hchanged : (clampTcpMss paddedSyn 1412).1 = true := by decide +kernel
  have hvalid : ChecksumValid paddedSyn 28 := by decide +kernel
  have hspoilt : ¬ ChecksumValid (clampTcpMss paddedSyn 1412).2 28 := by decide +kernel
  refine ⟨by decide, hvalid, fun hsound => ?_⟩
  obtain ⟨j, hlowered⟩ := hsound.changed hchanged
  exact hspoilt (hlowered.checksum 28 (by decide +kernel) hvalid)

end Clamp

end ZeroNat.Pppoe

import ZeroNat.Pppoe.Ppp.Requests

/-!
# Malformed packets

A packet whose options are malformed is dropped, but only after the options in front of the
malformed one have been handed to the protocol, and after a refusal has armed the restart counter
again.  The packet leaves no trace exactly when those options say nothing new.
-/

open BigEndian

namespace ZeroNat.Pppoe.Ppp

/-- Options of which one is cut short, has a length below two, or runs past the end. -/
inductive Malformed : List UInt8 → Prop where
  | truncated (code : UInt8) : Malformed [code]
  | short {code len : UInt8} {rest : List UInt8} :
      len.toNat < 2 → Malformed (code :: len :: rest)
  | overrun {code len : UInt8} {rest : List UInt8} :
      rest.length + 2 < len.toNat → Malformed (code :: len :: rest)
  | later {code len : UInt8} {rest : List UInt8} :
      2 ≤ len.toNat → len.toNat ≤ rest.length + 2 → Malformed (rest.drop (len.toNat - 2)) →
      Malformed (code :: len :: rest)

/-- Malformed options are found. -/
theorem Malformed.parseOptions_snd {σ : Type} (f : σ → UInt8 → List UInt8 → σ) (s : σ)
    {pkt : List UInt8} (h : Malformed pkt) :
  (parseOptions f s pkt).2 = false
  := by
  suffices hfuel : ∀ fuel, pkt.length ≤ fuel → (parseOptionsFrom f fuel s pkt).2 = false from
    hfuel _ (le_refl _)
  intro fuel hlen
  induction h generalizing fuel s with
  | truncated code =>
      obtain ⟨fuel, rfl⟩ : ∃ n, fuel = n + 1 :=
        Nat.exists_eq_succ_of_ne_zero (by rintro rfl; simp at hlen)
      rfl
  | short hshort =>
      obtain ⟨fuel, rfl⟩ : ∃ n, fuel = n + 1 :=
        Nat.exists_eq_succ_of_ne_zero (by rintro rfl; simp at hlen)
      rw [parseOptionsFrom, if_pos hshort]
      split <;> rfl
  | overrun hover =>
      obtain ⟨fuel, rfl⟩ : ∃ n, fuel = n + 1 :=
        Nat.exists_eq_succ_of_ne_zero (by rintro rfl; simp at hlen)
      rw [parseOptionsFrom, if_pos hover]
  | later hlow hhigh _ ih =>
      obtain ⟨fuel, rfl⟩ : ∃ n, fuel = n + 1 :=
        Nat.exists_eq_succ_of_ne_zero (by rintro rfl; simp at hlen)
      rw [parseOptionsFrom, if_neg (by omega), if_neg (by omega)]
      apply ih
      simp only [List.length_cons] at hlen
      rw [List.length_drop]
      omega

/-! ### The last word of the options -/

/-- The last value that options give. -/
def lastOf {α : Type} (f : OptionVal → Option α) (opts : List OptionVal) : Option α :=
  (opts.filterMap f).getLast?

theorem lastOf_concat {α : Type} (f : OptionVal → Option α) (opts : List OptionVal)
    (o : OptionVal) :
  lastOf f (opts ++ [o]) = (f o).or (lastOf f opts)
  := by
  rw [lastOf, List.filterMap_append]
  cases hf : f o with
  | none => simp [hf, lastOf]
  | some a => simp [hf]

/-- An option with a code has a value of the wrong length. -/
def wrongLength (code : UInt8) (n : ℕ) (o : OptionVal) : Bool :=
  o.code = code && o.data.length ≠ n

theorem getD_eq_self_iff {α : Type} {v : Option α} {a : α} :
  v.getD a = a ↔ ∀ b ∈ v, b = a
  := by
  cases v <;> simp

theorem or_any_eq_self_iff {b : Bool} {opts : List OptionVal} {f : OptionVal → Bool} :
  (b || opts.any f) = b ↔ ∀ o ∈ opts, f o = true → b = true
  := by
  cases b with
  | true => simp
  | false => simp [List.any_eq_false]

namespace OptionFsm

variable {P : Type} [Protocol P]

/-- The protocol after the options of a refusal. -/
def refusedBy (proto : P) (isRej : Bool) (opts : List OptionVal) : P :=
  opts.foldl (fun proto o => Protocol.ownOptionNacked proto o.code o.data isRej) proto

theorem refusedBy_concat (proto : P) (isRej : Bool) (opts : List OptionVal) (o : OptionVal) :
  refusedBy proto isRej (opts ++ [o])
    = Protocol.ownOptionNacked (refusedBy proto isRej opts) o.code o.data isRej
  := by
  rw [refusedBy, List.foldl_append]
  rfl

end OptionFsm

open OptionFsm

/-! ### LCP -/

namespace Lcp

/-- The authentication that an option asks for. -/
def authValue (o : OptionVal) : Option AuthType :=
  if o.code = optAuth then
    if o.data = [0xc2, 0x23, 0x05] then some .chapMd5
    else if o.data = [0xc0, 0x23] then some .pap
    else none
  else none

/-- The receive unit that an option gives. -/
def mruValue (o : OptionVal) : Option UInt16 :=
  if o.code = optMru ∧ o.data.length = 2 then some (u16OfBe o.data) else none

/-- The magic number that an option gives. -/
def magicValue (o : OptionVal) : Option UInt32 :=
  if o.code = optMagicNumber ∧ o.data.length = 4 then some (u32OfBe o.data) else none

theorem judged_eq_last (l : Lcp) (opts : List OptionVal) :
  judged l opts =
    { l with
      auth := (lastOf authValue opts).getD .none
      mruRemote := (lastOf mruValue opts).getD l.mruRemote
      magicRemote := (lastOf magicValue opts).getD l.magicRemote }
  := by
  induction opts using List.reverseRecOn with
  | nil => rfl
  | append_singleton opts o ih =>
      rw [judged_concat, ih, lastOf_concat, lastOf_concat, lastOf_concat]
      change (peerOptionReceived _ o.code o.data).2 = _
      simp only [peerOptionReceived, authValue, mruValue, magicValue, optMru, optAsyncmap, optAuth,
        optMagicNumber]
      by_cases hmru : o.code = 1
      · by_cases hlen : o.data.length = 2 <;> simp [hmru, hlen]
      by_cases hasync : o.code = 2
      · by_cases hlen : o.data.length = 4 <;> simp [hasync, hlen]
      by_cases hauth : o.code = 3
      · by_cases hchap : o.data = [0xc2, 0x23, 0x05]
        · simp [hauth, hchap]
        · by_cases hpap : o.data = [0xc0, 0x23] <;> simp [hauth, hchap, hpap]
      by_cases hmagic : o.code = 5
      · by_cases hlen : o.data.length = 4 <;> simp [hmagic, hlen]
      simp [hmru, hasync, hauth, hmagic]

/-- The least of some receive units. -/
def least (a : UInt16) (values : List UInt16) : UInt16 :=
  values.foldl (fun a v => if v < a then v else a) a

theorem least_concat (a : UInt16) (opts : List OptionVal) (o : OptionVal) :
  least a ((opts ++ [o]).filterMap mruValue)
    = match mruValue o with
      | none => least a (opts.filterMap mruValue)
      | some v =>
          if v < least a (opts.filterMap mruValue) then v else least a (opts.filterMap mruValue)
  := by
  rw [least, List.filterMap_append, List.foldl_append]
  cases hv : mruValue o with
  | none =>
      rw [List.filterMap_cons_none hv]
      rfl
  | some v =>
      rw [List.filterMap_cons_some hv]
      rfl

theorem least_eq_self_iff {a : UInt16} {values : List UInt16} :
  least a values = a ↔ ∀ v ∈ values, a ≤ v
  := by
  have hle : ∀ (a : UInt16) (values : List UInt16), least a values ≤ a := by
    intro a values
    induction values generalizing a with
    | nil => exact UInt16.le_refl a
    | cons v values ih =>
        rw [least, List.foldl_cons]
        split
        · rename_i hlt
          exact UInt16.le_trans (ih v) (UInt16.le_of_lt hlt)
        · exact ih a
  induction values with
  | nil => simp [least]
  | cons v values ih =>
      rw [least, List.foldl_cons, List.forall_mem_cons]
      split
      · rename_i hlt
        have hlt' : least v values < a := UInt16.lt_of_le_of_lt (hle v values) hlt
        constructor
        · intro heq
          change least v values = a at heq
          rw [heq] at hlt'
          exact absurd hlt' (UInt16.lt_irrefl a)
        · intro h
          exact absurd hlt (UInt16.not_lt.mpr h.1)
      · rename_i hge
        exact ih.trans (and_iff_right (UInt16.not_lt.mp hge)).symm

theorem nacked_eq (l : Lcp) (opts : List OptionVal) :
  refusedBy l false opts =
    { l with
      mruLocal := least l.mruLocal (opts.filterMap mruValue)
      mruRej := l.mruRej || opts.any (wrongLength optMru 2)
      magicLocal := (lastOf magicValue opts).getD l.magicLocal
      magicRej := l.magicRej || opts.any (wrongLength optMagicNumber 4) }
  := by
  induction opts using List.reverseRecOn with
  | nil => simp [refusedBy, least, lastOf]
  | append_singleton opts o ih =>
      rw [refusedBy_concat, ih, lastOf_concat, least_concat, List.any_append, List.any_append]
      change ownOptionNacked _ o.code o.data false = _
      simp only [ownOptionNacked, mruValue, magicValue, optMru, optMagicNumber, List.any_cons,
        List.any_nil, Bool.or_false, wrongLength]
      generalize least l.mruLocal (opts.filterMap mruValue) = mru
      by_cases hmru : o.code = 1
      · by_cases hlen : o.data.length = 2
        · by_cases hlt : u16OfBe o.data < mru <;> simp [hmru, hlen, hlt]
        · simp [hmru, hlen]
      by_cases hmagic : o.code = 5
      · by_cases hlen : o.data.length = 4 <;> simp [hmagic, hlen]
      simp [hmru, hmagic]

theorem rejected_eq (l : Lcp) (opts : List OptionVal) :
  refusedBy l true opts =
    { l with
      mruRej := l.mruRej || opts.any fun o => o.code = optMru
      magicRej := l.magicRej || opts.any fun o => o.code = optMagicNumber }
  := by
  induction opts using List.reverseRecOn with
  | nil => simp [refusedBy]
  | append_singleton opts o ih =>
      rw [refusedBy_concat, ih, List.any_append, List.any_append]
      change ownOptionNacked _ o.code o.data true = _
      simp only [ownOptionNacked, optMru, optMagicNumber]
      by_cases hmru : o.code = 1
      · simp [hmru]
      by_cases hmagic : o.code = 5
      · simp [hmagic]
      simp [hmru, hmagic]

/-- A request tells nothing new: it asks for the authentication that is set, or for none if none
is, and the last receive unit and the last magic number in it, if any, are those that are known. -/
structure Repeats (l : Lcp) (opts : List OptionVal) : Prop where
  auth : (lastOf authValue opts).getD .none = l.auth
  mru : ∀ v ∈ lastOf mruValue opts, v = l.mruRemote
  magic : ∀ v ∈ lastOf magicValue opts, v = l.magicRemote

/-- A correction changes nothing: no receive unit in it is below ours, the last magic number, if
any, is ours, and an option with a value of the wrong length is one that was given up. -/
structure Concedes (l : Lcp) (opts : List OptionVal) : Prop where
  mru : ∀ v ∈ opts.filterMap mruValue, l.mruLocal ≤ v
  mruRej : ∀ o ∈ opts, o.code = optMru → o.data.length ≠ 2 → l.mruRej = true
  magic : ∀ v ∈ lastOf magicValue opts, v = l.magicLocal
  magicRej : ∀ o ∈ opts, o.code = optMagicNumber → o.data.length ≠ 4 → l.magicRej = true

/-- A rejection changes nothing: the options that are rejected were given up. -/
structure GivenUp (l : Lcp) (opts : List OptionVal) : Prop where
  mru : ∀ o ∈ opts, o.code = optMru → l.mruRej = true
  magic : ∀ o ∈ opts, o.code = optMagicNumber → l.magicRej = true

theorem judged_eq_self_iff {l : Lcp} {opts : List OptionVal} :
  judged l opts = l ↔ l.Repeats opts
  := by
  rw [judged_eq_last]
  constructor
  · intro h
    exact ⟨congrArg Lcp.auth h, getD_eq_self_iff.mp (congrArg mruRemote h),
      getD_eq_self_iff.mp (congrArg magicRemote h)⟩
  · rintro ⟨hauth, hmru, hmagic⟩
    rw [hauth, getD_eq_self_iff.mpr hmru, getD_eq_self_iff.mpr hmagic]

theorem nacked_eq_self_iff {l : Lcp} {opts : List OptionVal} :
  refusedBy l false opts = l ↔ l.Concedes opts
  := by
  have hwrong (code : UInt8) (n : ℕ) (b : Bool) :
      (∀ o ∈ opts, wrongLength code n o = true → b = true)
        ↔ ∀ o ∈ opts, o.code = code → o.data.length ≠ n → b = true := by
    simp [wrongLength]
  rw [nacked_eq]
  constructor
  · intro h
    exact ⟨least_eq_self_iff.mp (congrArg mruLocal h),
      (hwrong _ _ _).mp (or_any_eq_self_iff.mp (congrArg Lcp.mruRej h)),
      getD_eq_self_iff.mp (congrArg magicLocal h),
      (hwrong _ _ _).mp (or_any_eq_self_iff.mp (congrArg Lcp.magicRej h))⟩
  · rintro ⟨hmru, hmruRej, hmagic, hmagicRej⟩
    rw [least_eq_self_iff.mpr hmru, or_any_eq_self_iff.mpr ((hwrong _ _ _).mpr hmruRej),
      getD_eq_self_iff.mpr hmagic, or_any_eq_self_iff.mpr ((hwrong _ _ _).mpr hmagicRej)]

theorem rejected_eq_self_iff {l : Lcp} {opts : List OptionVal} :
  refusedBy l true opts = l ↔ l.GivenUp opts
  := by
  have hcode (code : UInt8) (b : Bool) :
      (∀ o ∈ opts, decide (o.code = code) = true → b = true)
        ↔ ∀ o ∈ opts, o.code = code → b = true := by
    simp
  rw [rejected_eq]
  constructor
  · intro h
    exact ⟨(hcode _ _).mp (or_any_eq_self_iff.mp (congrArg Lcp.mruRej h)),
      (hcode _ _).mp (or_any_eq_self_iff.mp (congrArg Lcp.magicRej h))⟩
  · rintro ⟨hmru, hmagic⟩
    rw [or_any_eq_self_iff.mpr ((hcode _ _).mpr hmru),
      or_any_eq_self_iff.mpr ((hcode _ _).mpr hmagic)]

end Lcp

/-! ### IPCP -/

namespace IpOption

/-- The address that an option gives. -/
def addressValue (code : UInt8) (o : OptionVal) : Option Ipv4Addr :=
  if o.code = code ∧ o.data.length = 4 then some ⟨u32OfBe o.data⟩ else none

/-- An address after the corrections or rejections of it. -/
def refusedBy (a : IpOption) (code : UInt8) (isRej : Bool) (opts : List OptionVal) : IpOption :=
  opts.foldl (fun a o => if o.code = code then a.nacked o.data isRej else a) a

theorem refusedBy_concat (a : IpOption) (code : UInt8) (isRej : Bool) (opts : List OptionVal)
    (o : OptionVal) :
  a.refusedBy code isRej (opts ++ [o])
    = if o.code = code then (a.refusedBy code isRej opts).nacked o.data isRej
      else a.refusedBy code isRej opts
  := by
  rw [refusedBy, List.foldl_append]
  rfl

theorem nacked_eq (a : IpOption) (code : UInt8) (opts : List OptionVal) :
  a.refusedBy code false opts =
    { a with
      address := (lastOf (addressValue code) opts).getD a.address
      isRejected := a.isRejected || opts.any (wrongLength code 4) }
  := by
  induction opts using List.reverseRecOn with
  | nil => simp [refusedBy, lastOf]
  | append_singleton opts o ih =>
      rw [refusedBy_concat, ih, lastOf_concat, List.any_append]
      simp only [nacked, addressValue, List.any_cons, List.any_nil, Bool.or_false, wrongLength]
      by_cases hcode : o.code = code
      · by_cases hlen : o.data.length = 4 <;> simp [hcode, hlen]
      · simp [hcode]

theorem rejected_eq (a : IpOption) (code : UInt8) (opts : List OptionVal) :
  a.refusedBy code true opts =
    { a with isRejected := a.isRejected || opts.any fun o => o.code = code }
  := by
  induction opts using List.reverseRecOn with
  | nil => simp [refusedBy]
  | append_singleton opts o ih =>
      rw [refusedBy_concat, ih, List.any_append]
      by_cases hcode : o.code = code <;> simp [nacked, hcode]

/-- Corrections of an address that change nothing: the last of them, if any, is the address, and
if one has the wrong length the address was given up. -/
structure Concedes (a : IpOption) (code : UInt8) (opts : List OptionVal) : Prop where
  address : ∀ v ∈ lastOf (addressValue code) opts, v = a.address
  rejected : ∀ o ∈ opts, o.code = code → o.data.length ≠ 4 → a.isRejected = true

theorem nacked_eq_self_iff {a : IpOption} {code : UInt8} {opts : List OptionVal} :
  a.refusedBy code false opts = a ↔ a.Concedes code opts
  := by
  have hwrong : (∀ o ∈ opts, wrongLength code 4 o = true → a.isRejected = true)
      ↔ ∀ o ∈ opts, o.code = code → o.data.length ≠ 4 → a.isRejected = true := by
    simp [wrongLength]
  rw [nacked_eq]
  constructor
  · intro h
    exact ⟨getD_eq_self_iff.mp (congrArg address h),
      hwrong.mp (or_any_eq_self_iff.mp (congrArg isRejected h))⟩
  · rintro ⟨haddress, hrejected⟩
    rw [getD_eq_self_iff.mpr haddress, or_any_eq_self_iff.mpr (hwrong.mpr hrejected)]

theorem rejected_eq_self_iff {a : IpOption} {code : UInt8} {opts : List OptionVal} :
  a.refusedBy code true opts = a ↔ ∀ o ∈ opts, o.code = code → a.isRejected = true
  := by
  have hcode : (∀ o ∈ opts, decide (o.code = code) = true → a.isRejected = true)
      ↔ ∀ o ∈ opts, o.code = code → a.isRejected = true := by
    simp
  rw [rejected_eq]
  constructor
  · intro h
    exact hcode.mp (or_any_eq_self_iff.mp (congrArg isRejected h))
  · intro h
    rw [or_any_eq_self_iff.mpr (hcode.mpr h)]

end IpOption

namespace Ipv4cp

theorem judged_eq_last (c : Ipv4cp) (opts : List OptionVal) :
  judged c opts =
    { c with
      peerAddress := (lastOf (IpOption.addressValue optIpAddress) opts).getD c.peerAddress }
  := by
  induction opts using List.reverseRecOn with
  | nil => rfl
  | append_singleton opts o ih =>
      rw [judged_concat, ih, lastOf_concat]
      change (peerOptionReceived _ o.code o.data).2 = _
      simp only [peerOptionReceived, IpOption.addressValue]
      by_cases hcode : o.code = optIpAddress
      · by_cases hlen : o.data.length = 4 <;> simp [hcode, hlen]
      · simp [hcode]

theorem refusedBy_eq (c : Ipv4cp) (isRej : Bool) (opts : List OptionVal) :
  refusedBy c isRej opts =
    { c with
      address := c.address.refusedBy optIpAddress isRej opts
      dnsServer1 := c.dnsServer1.refusedBy optDns1 isRej opts
      dnsServer2 := c.dnsServer2.refusedBy optDns2 isRej opts }
  := by
  induction opts using List.reverseRecOn with
  | nil => rfl
  | append_singleton opts o ih =>
      rw [OptionFsm.refusedBy_concat, ih, IpOption.refusedBy_concat, IpOption.refusedBy_concat,
        IpOption.refusedBy_concat]
      change ownOptionNacked _ o.code o.data isRej = _
      simp only [ownOptionNacked, optIpAddress, optDns1, optDns2]
      by_cases haddress : o.code = 3
      · simp [haddress]
      by_cases hdns1 : o.code = 129
      · simp [hdns1]
      by_cases hdns2 : o.code = 131
      · simp [hdns2]
      simp [haddress, hdns1, hdns2]

/-- A request tells nothing new: the last address in it, if any, is the one that is known. -/
def Repeats (c : Ipv4cp) (opts : List OptionVal) : Prop :=
  ∀ v ∈ lastOf (IpOption.addressValue optIpAddress) opts, v = c.peerAddress

/-- A correction changes none of the three addresses. -/
structure Concedes (c : Ipv4cp) (opts : List OptionVal) : Prop where
  address : c.address.Concedes optIpAddress opts
  dnsServer1 : c.dnsServer1.Concedes optDns1 opts
  dnsServer2 : c.dnsServer2.Concedes optDns2 opts

/-- A rejection changes nothing: the addresses that are rejected were given up. -/
structure GivenUp (c : Ipv4cp) (opts : List OptionVal) : Prop where
  address : ∀ o ∈ opts, o.code = optIpAddress → c.address.isRejected = true
  dnsServer1 : ∀ o ∈ opts, o.code = optDns1 → c.dnsServer1.isRejected = true
  dnsServer2 : ∀ o ∈ opts, o.code = optDns2 → c.dnsServer2.isRejected = true

theorem judged_eq_self_iff {c : Ipv4cp} {opts : List OptionVal} :
  judged c opts = c ↔ c.Repeats opts
  := by
  rw [judged_eq_last]
  constructor
  · intro h
    exact getD_eq_self_iff.mp (congrArg peerAddress h)
  · intro h
    rw [getD_eq_self_iff.mpr h]

theorem refusedBy_eq_self_iff {c : Ipv4cp} {isRej : Bool} {opts : List OptionVal} :
  refusedBy c isRej opts = c
    ↔ c.address.refusedBy optIpAddress isRej opts = c.address
      ∧ c.dnsServer1.refusedBy optDns1 isRej opts = c.dnsServer1
      ∧ c.dnsServer2.refusedBy optDns2 isRej opts = c.dnsServer2
  := by
  rw [refusedBy_eq]
  constructor
  · intro h
    exact ⟨congrArg Ipv4cp.address h, congrArg Ipv4cp.dnsServer1 h, congrArg Ipv4cp.dnsServer2 h⟩
  · rintro ⟨haddress, hdns1, hdns2⟩
    rw [haddress, hdns1, hdns2]

theorem nacked_eq_self_iff {c : Ipv4cp} {opts : List OptionVal} :
  refusedBy c false opts = c ↔ c.Concedes opts
  := by
  rw [refusedBy_eq_self_iff, IpOption.nacked_eq_self_iff, IpOption.nacked_eq_self_iff,
    IpOption.nacked_eq_self_iff]
  exact ⟨fun h => ⟨h.1, h.2.1, h.2.2⟩, fun h => ⟨h.1, h.2, h.3⟩⟩

theorem rejected_eq_self_iff {c : Ipv4cp} {opts : List OptionVal} :
  refusedBy c true opts = c ↔ c.GivenUp opts
  := by
  rw [refusedBy_eq_self_iff, IpOption.rejected_eq_self_iff, IpOption.rejected_eq_self_iff,
    IpOption.rejected_eq_self_iff]
  exact ⟨fun h => ⟨h.1, h.2.1, h.2.2⟩, fun h => ⟨h.1, h.2, h.3⟩⟩

end Ipv4cp

/-! ### The machine -/

namespace OptionFsm

variable {P : Type} [Protocol P]

/-- A request, a correction or a rejection, with a length that is right and with malformed
options. -/
def MalformedControl (code : Code) (pkt p : List UInt8) : Prop :=
  (∃ id, control pkt = some (code, id, p)) ∧ Malformed (p.drop 6)

variable {m : OptionFsm P} {pkt p : List UInt8}

section Handle

variable [LawfulProtocol P]

theorem handle_malformedRequest (hopen : m.state ≠ .closed)
    (h : MalformedControl .configureReq pkt p) :
  m.handle pkt = ([], { m with proto := judged m.proto (optionsOf p) })
  := by
  obtain ⟨⟨id, hc⟩, hmalformed⟩ := h
  have hjudge : m.judge p = ((m.judge p).1, false) :=
    Prod.ext rfl (hmalformed.parseOptions_snd _ _)
  have hrearm : m.rearm .configureReq = m := by simp [rearm]
  rw [handle_eq, hc]
  simp only [handleControl, hrearm, if_neg hopen]
  rw [onConfigureReq, receivedConfigureReq_malformed hjudge, judge_proto]

end Handle

theorem handle_malformedRefusal (hopen : m.state ≠ .closed) (isRej : Bool)
    (h : MalformedControl (if isRej then .configureRej else .configureNack) pkt p) :
  m.handle pkt
    = ([], { m with attempts := 0, proto := refusedBy m.proto isRej (optionsOf p) })
  := by
  obtain ⟨⟨id, hc⟩, hmalformed⟩ := h
  have hbad := hmalformed.parseOptions_snd
    (fun proto code data => Protocol.ownOptionNacked proto code data isRej) m.proto
  have hproto := parseOptions_fst
    (fun proto code data => Protocol.ownOptionNacked proto code data isRej) m.proto p
  have hnack : onConfigureNack { m with attempts := 0 } isRej p
      = ([], { m with attempts := 0, proto := refusedBy m.proto isRej (optionsOf p) }) := by
    simp only [onConfigureNack, hbad, hproto]
    rfl
  rw [handle_eq, hc]
  cases isRej with
  | false =>
      have hrearm : m.rearm .configureNack = { m with attempts := 0 } := by simp [rearm, hopen]
      simp only [handleControl, Bool.false_eq_true, if_false, hrearm, if_neg hopen]
      exact hnack
  | true =>
      have hrearm : m.rearm .configureRej = { m with attempts := 0 } := by simp [rearm, hopen]
      simp only [handleControl, if_true, hrearm, if_neg hopen]
      exact hnack

/-- The packet leaves no trace: a request tells nothing new, and a refusal finds the restart
counter at zero and changes nothing. -/
structure Traceless (repeats concedes givenUp : P → List OptionVal → Prop) (m : OptionFsm P)
    (code : Code) (opts : List OptionVal) : Prop where
  request : code = .configureReq → repeats m.proto opts
  correction : code = .configureNack → m.attempts = 0 ∧ concedes m.proto opts
  rejection : code = .configureRej → m.attempts = 0 ∧ givenUp m.proto opts

theorem handle_eq_self_iff [LawfulProtocol P]
    {repeats concedes givenUp : P → List OptionVal → Prop}
    (hrepeats : ∀ {proto : P} {opts}, judged proto opts = proto ↔ repeats proto opts)
    (hconcedes : ∀ {proto : P} {opts}, refusedBy proto false opts = proto ↔ concedes proto opts)
    (hgivenUp : ∀ {proto : P} {opts}, refusedBy proto true opts = proto ↔ givenUp proto opts)
    {code : Code} (hcode : code ∈ [Code.configureReq, .configureNack, .configureRej])
    (h : MalformedControl code pkt p) (hopen : m.state ≠ .closed) :
  m.handle pkt = ([], m) ↔ Traceless repeats concedes givenUp m code (optionsOf p)
  := by
  have hself {n : ℕ} {proto : P} :
      (([], { m with attempts := n, proto }) : List Packet × OptionFsm P) = ([], m)
        ↔ m.attempts = n ∧ proto = m.proto := by
    constructor
    · intro heq
      have heq := congrArg Prod.snd heq
      exact ⟨(congrArg attempts heq).symm, congrArg OptionFsm.proto heq⟩
    · rintro ⟨rfl, rfl⟩
      rfl
  simp only [List.mem_cons, List.not_mem_nil, or_false] at hcode
  obtain rfl | rfl | rfl := hcode
  · rw [handle_malformedRequest hopen h, hself, hrepeats]
    constructor
    · intro heq
      exact ⟨fun _ => heq.2, by simp, by simp⟩
    · intro htraceless
      exact ⟨rfl, htraceless.request rfl⟩
  · rw [handle_malformedRefusal hopen false h, hself, hconcedes]
    constructor
    · intro heq
      exact ⟨by simp, fun _ => heq, by simp⟩
    · intro htraceless
      exact htraceless.correction rfl
  · rw [handle_malformedRefusal hopen true h, hself, hgivenUp]
    constructor
    · intro heq
      exact ⟨by simp, by simp, fun _ => heq⟩
    · intro htraceless
      exact htraceless.rejection rfl

/-- A malformed packet is dropped whole exactly when it leaves no trace, for LCP and for IPCP. -/
theorem malformed_dropped_iff {code : Code} {pkt p : List UInt8}
    (hcode : code ∈ [Code.configureReq, .configureNack, .configureRej])
    (h : MalformedControl code pkt p) :
  (∀ m : OptionFsm Lcp, m.state ≠ .closed →
      (m.handle pkt = ([], m)
        ↔ Traceless Lcp.Repeats Lcp.Concedes Lcp.GivenUp m code (optionsOf p)))
    ∧ ∀ m : OptionFsm Ipv4cp, m.state ≠ .closed →
      (m.handle pkt = ([], m)
        ↔ Traceless Ipv4cp.Repeats Ipv4cp.Concedes Ipv4cp.GivenUp m code (optionsOf p))
  := by
  constructor
  · intro m hopen
    exact handle_eq_self_iff Lcp.judged_eq_self_iff Lcp.nacked_eq_self_iff
      Lcp.rejected_eq_self_iff hcode h hopen
  · intro m hopen
    exact handle_eq_self_iff Ipv4cp.judged_eq_self_iff Ipv4cp.nacked_eq_self_iff
      Ipv4cp.rejected_eq_self_iff hcode h hopen

/-- A rejection of the receive unit, followed by a single byte. -/
def cutRejection : List UInt8 := [0xc0, 0x21, 4, 2, 0, 9, 1, 4, 5, 212, 5]

theorem malformed_cutRejection :
  MalformedControl .configureRej cutRejection cutRejection
  := by
  refine ⟨⟨2, rfl⟩, ?_⟩
  exact Malformed.later (by decide) (by decide) (Malformed.truncated 5)

/-- The machine of LCP that has sent its first request. -/
def requesting : OptionFsm Lcp :=
  (new (Lcp.new 1492 7)).openFsm.2

theorem malformed_dropped_iff_rejection :
  MalformedControl .configureRej cutRejection cutRejection ∧ requesting.state ≠ .closed
    ∧ (requesting.handle cutRejection = ([], requesting)
      ↔ Traceless Lcp.Repeats Lcp.Concedes Lcp.GivenUp requesting .configureRej
          (optionsOf cutRejection))
  := ⟨malformed_cutRejection, by decide,
    (malformed_dropped_iff (by decide) malformed_cutRejection).1 requesting (by decide)⟩

/-- The rejection gives up the receive unit, although it is malformed. -/
theorem cutRejection_leaves_trace :
  requesting.state ≠ .closed ∧ MalformedControl .configureRej cutRejection cutRejection
    ∧ requesting.proto.mruRej = false ∧ (requesting.handle cutRejection).2.proto.mruRej = true
    ∧ requesting.handle cutRejection ≠ ([], requesting)
  := ⟨by decide, malformed_cutRejection, by decide, by decide, by decide⟩

end OptionFsm

end ZeroNat.Pppoe.Ppp

import ZeroNat.Dht.Node
import ZeroNat.Lib.Run
import ZeroNat.Noise.Cipher

/-!
# Published records

A server publishes its address as a signed and sealed item under a sequence number, which is
also the nonce of the seal.  The number is the time or one more than the number kept in a file,
whichever is greater; the file is written before the record is made, and neither a failure to
read it nor one to write it is reported.  A client that looks the item up takes the record with
the highest number.
-/

open BigEndian

namespace ZeroNat.Dht

open Config

/-! ### Sequence numbers -/

/-- The time in seconds, from what the clock says has passed since the epoch; nothing when it
stands before the epoch. -/
def nowUnix (elapsed : Option UInt64) : Int64 :=
  (elapsed.map fun secs => secs.toInt64).getD 0

/-- One more, or the same at the top of the range. -/
def saturatingSucc (n : Int64) : Int64 :=
  if n = Int64.maxValue then n else n + 1

/-- Never below one more than the last. -/
def nextSeq (now last : Int64) : Int64 :=
  if now < saturatingSucc last then saturatingSucc last else now

/-- The number kept in the file.  A file that is missing, unreadable or corrupt counts as
zero. -/
def readSeq (text : Option (List Char)) : Int64 :=
  (text.bind fun t => parseI64 (trim t)).getD 0

/-- What becomes of writing the file: it is written; it cannot be opened, or there is no
directory for it; or it has been emptied and only its beginning is written, because the disk is
full or the process ends. -/
inductive Writing where
  | whole
  | refused
  | cut (n : ℕ)
deriving DecidableEq

/-- The text of the file after writing a number. -/
def writeSeq (text : Option (List Char)) (seq : Int64) : Writing → Option (List Char)
  | .whole => some (i64Text seq)
  | .refused => text
  | .cut n => some ((i64Text seq).take n)

/-! ### Records -/

/-- Signatures of the external library. -/
structure Ed25519 where
  verifyingKey : Bytes 32 → Bytes 32
  sign : Bytes 32 → List UInt8 → Bytes 64
  verifyStrict : Bytes 32 → List UInt8 → Bytes 64 → Bool

/-- A signature verifies under the key that belongs to the one it was made with. -/
structure Ed25519.Lawful (E : Ed25519) : Prop where
  verify_sign (sk : Bytes 32) (m : List UInt8) :
    E.verifyStrict (E.verifyingKey sk) m (E.sign sk m) = true

/-- Signatures that anyone can make: the key and the beginning of the message. -/
def Ed25519.clear : Ed25519 where
  verifyingKey sk := sk
  sign sk m := ⟨(sk.toList ++ m ++ List.replicate 32 0).take 64, by
    rw [List.length_take, List.length_append, List.length_append, sk.toList_length,
      List.length_replicate]
    omega⟩
  verifyStrict pk m sig := sig.toList = (pk.toList ++ m ++ List.replicate 32 0).take 64

theorem Ed25519.lawful_clear :
  Ed25519.clear.Lawful
  := ⟨fun _ _ => decide_eq_true rfl⟩

/-- What is derived from a discovery credential. -/
structure Identity where
  signing : Bytes 32
  salt : List UInt8
  addrKey : List UInt8

section

variable (C : Cipher UInt8) (E : Ed25519)

def Identity.pubkey (id : Identity) : Bytes 32 :=
  E.verifyingKey id.signing

/-- The bytes a signature covers: the salt when there is one, the number, and the value. -/
def signingInput (salt : Option (List UInt8)) (seq : Int64) (v : List UInt8) : List UInt8 :=
  (match salt with
    | some s => utf8 "4:salt" ++ asciiBytes (decimal s.length) ++ utf8 ":" ++ s
    | none => [])
  ++ utf8 "3:seqi" ++ asciiBytes (i64Text seq) ++ utf8 "e1:v"
  ++ asciiBytes (decimal v.length) ++ utf8 ":" ++ v

def sign (sk : Bytes 32) (salt : Option (List UInt8)) (seq : Int64) (v : List UInt8) : Bytes 64 :=
  E.sign sk (signingInput salt seq v)

def verify (pubkey : Bytes 32) (salt : Option (List UInt8)) (seq : Int64) (v : List UInt8)
    (sig : Bytes 64) : Bool :=
  E.verifyStrict pubkey (signingInput salt seq v) sig

def addrVersion : UInt8 := 2

/-- The nonce a record is sealed under. -/
def nonce (seq : Int64) : UInt64 :=
  seq.toUInt64

/-- Seal an address: the nonce, then the ciphertext. -/
def sealAddr (key : List UInt8) (ip : Ipv4Addr) (port : UInt16) (seq : Int64) : List UInt8 :=
  let pt := addrVersion :: (putIp ip ++ putU16 port)
  putU64 (nonce seq) ++ C.aeadEncrypt key (nonce seq) [] pt

def openAddr (key v : List UInt8) : Option (Ipv4Addr × UInt16) :=
  if v.length < 8 + tagLen then none
  else do
    let pt ← C.aeadDecrypt key (UInt64.ofNat (ofBe (v.take 8))) [] (v.drop 8)
    if pt.length ≠ 7 ∨ pt.head? ≠ some addrVersion then none
    else some (⟨UInt32.ofNat (ofBe ((pt.drop 1).take 4))⟩, UInt16.ofNat (ofBe (pt.drop 5)))

/-- The signed and sealed record of an address. -/
def sealedRecord (id : Identity) (ip : Ipv4Addr) (port : UInt16) (seq : Int64) :
    List UInt8 × Bytes 64 :=
  let v := sealAddr C id.addrKey ip port seq
  (v, sign E id.signing (some id.salt) seq v)

/-- The address of a value that the identity accepts. -/
def accept (id : Identity) (val : Value) : Option SocketAddr :=
  if val.k ≠ id.pubkey E then none
  else if verify E val.k (some id.salt) val.seq val.v val.sig = false then none
  else (openAddr C id.addrKey val.v).map fun (ip, port) => SocketAddr.new (.v4 ip) port

/-- The best value so far and one more: a value is looked at when its number is higher. -/
def better (id : Identity) (best : Option (Int64 × SocketAddr)) (val : Value) :
    Option (Int64 × SocketAddr) :=
  if best.any fun b => val.seq ≤ b.1 then best
  else match accept C E id val with
    | some addr => some (val.seq, addr)
    | none => best

/-- The address of the accepted value with the highest number. -/
def resolve (id : Identity) (values : List Value) : Result SocketAddr :=
  match values.foldl (better C E id) none with
  | some (_, addr) => .ok addr
  | none => .error "no valid DHT record found"

/-! ### Publishing -/

/-- A record that has been sealed and signed. -/
structure Record where
  seq : Int64
  ip : Ipv4Addr
  port : UInt16
  v : List UInt8
  sig : Bytes 64
deriving DecidableEq

def Record.addr (r : Record) : SocketAddr :=
  SocketAddr.new (.v4 r.ip) r.port

/-- A record as a lookup finds it. -/
def Record.value (id : Identity) (r : Record) : Value :=
  ⟨id.pubkey E, r.seq, r.v, r.sig⟩

/-- How far a call gets: it ends before the file is written; it ends after that, by a restart or
because a node could not be made or the lookup failed; or the lookup comes back. -/
inductive Reach where
  | unwritten
  | written (w : Writing)
  | lookedUp (w : Writing) (externalIp : Option Ipv4Addr)
deriving DecidableEq

/-- A call of `publish`, with what it meets. -/
structure Call where
  elapsed : Option UInt64
  announceIp : Option Ipv4Addr
  port : UInt16
  reach : Reach
deriving DecidableEq

/-- The address a call seals, when it gets that far. -/
def Call.sealsIp (c : Call) : Option Ipv4Addr :=
  match c.reach with
  | .lookedUp _ externalIp => c.announceIp.or externalIp
  | _ => none

/-- The file and the records made so far, the latest last. -/
structure Publisher where
  text : Option (List Char)
  records : List Record

/-- One call of `publish`. -/
def publish (id : Identity) (s : Publisher) (c : Call) : Publisher :=
  let seq := nextSeq (nowUnix c.elapsed) (readSeq s.text)
  match c.reach with
  | .unwritten => s
  | .written w => { s with text := writeSeq s.text seq w }
  | .lookedUp w externalIp =>
      let s := { s with text := writeSeq s.text seq w }
      match c.announceIp.or externalIp with
      | none => s
      | some ip =>
          let (v, sig) := sealedRecord C E id ip c.port seq
          { s with records := s.records ++ [⟨seq, ip, c.port, v, sig⟩] }

/-- What happens: a call of `publish`, or the file becomes another one, as when its directory is
removed. -/
inductive Publication where
  | call (c : Call)
  | replaced (text : Option (List Char))
deriving DecidableEq

def Publisher.step (id : Identity) (s : Publisher) : Publication → Publisher
  | .call c => publish C E id s c
  | .replaced text => { s with text := text }

/-! ### Sequence numbers that were not used -/

theorem lt_saturatingSucc (n last : Int64) :
  n < saturatingSucc last ↔ n ≤ last ∧ n < Int64.maxValue
  := by
  have hn := n.toInt_le
  have hlast := last.toInt_le
  have hmax : Int64.maxValue.toInt = 2 ^ 63 - 1 := rfl
  rw [saturatingSucc]
  split
  · rename_i heq
    subst heq
    rw [Int64.lt_iff_toInt_lt, Int64.le_iff_toInt_le, hmax]
    omega
  · rename_i hne
    have hlt : last.toInt < 2 ^ 63 - 1 := by
      rw [← Int64.toInt_inj, hmax] at hne
      omega
    have hlow := last.le_toInt
    have hsucc : (last + 1).toInt = last.toInt + 1 := by
      rw [Int64.toInt_add]
      apply Int.bmod_eq_of_le <;> simp <;> omega
    rw [Int64.lt_iff_toInt_lt, Int64.lt_iff_toInt_lt, Int64.le_iff_toInt_le, hsucc, hmax]
    omega

/-- A number is below the next one when the clock has passed it, or when the file has kept up
with it and there is a number above it. -/
theorem lt_nextSeq (n now last : Int64) :
  n < nextSeq now last ↔ n < now ∨ n ≤ last ∧ n < Int64.maxValue
  := by
  rw [← lt_saturatingSucc, nextSeq]
  split
  · rename_i hlt
    rw [Int64.lt_iff_toInt_lt] at hlt
    rw [Int64.lt_iff_toInt_lt, Int64.lt_iff_toInt_lt]
    omega
  · rename_i hle
    rw [Int64.lt_iff_toInt_lt] at hle
    rw [Int64.lt_iff_toInt_lt, Int64.lt_iff_toInt_lt]
    omega

/-! ### Records that are accepted -/

/-- A record that was sealed as it says. -/
def Record.Sealed (id : Identity) (r : Record) : Prop :=
  (r.v, r.sig) = sealedRecord C E id r.ip r.port r.seq

variable {C E}

theorem openAddr_sealAddr (hC : C.Lawful) (key : List UInt8) (ip : Ipv4Addr) (port : UInt16)
    (seq : Int64) :
  openAddr C key (sealAddr C key ip port seq) = some (ip, port)
  := by
  have hlen : (sealAddr C key ip port seq).length = 8 + (7 + tagLen) := by
    simp [sealAddr, hC.length_encrypt]
  have htake : (sealAddr C key ip port seq).take 8 = putU64 (nonce seq) :=
    List.take_left' (length_putU64 _)
  have hdrop : (sealAddr C key ip port seq).drop 8
      = C.aeadEncrypt key (nonce seq) [] (addrVersion :: (putIp ip ++ putU16 port)) :=
    List.drop_left' (length_putU64 _)
  have hnonce : UInt64.ofNat (ofBe (putU64 (nonce seq))) = nonce seq := by
    rw [putU64, ofBe_toBe_of_lt (UInt64.toNat_lt _), UInt64.ofNat_toNat]
  have hip : (putIp ip ++ putU16 port).take 4 = putIp ip := List.take_left' (length_putIp ip)
  have hport : (putIp ip ++ putU16 port).drop 4 = putU16 port := List.drop_left' (length_putIp ip)
  rw [openAddr, if_neg (by omega), htake, hdrop, hnonce, hC.decrypt_encrypt]
  have hbits : UInt32.ofNat (ofBe (putIp ip)) = ip.bits := by
    rw [putIp, putU32, ofBe_toBe_of_lt (UInt32.toNat_lt _), UInt32.ofNat_toNat]
  have hbits' : UInt16.ofNat (ofBe (putU16 port)) = port := by
    rw [putU16, ofBe_toBe_of_lt (UInt16.toNat_lt _), UInt16.ofNat_toNat]
  simp [hip, hport, hbits, hbits']

theorem accept_value (hC : C.Lawful) (hE : E.Lawful) {id : Identity} {r : Record}
    (h : r.Sealed C E id) :
  accept C E id (r.value E id) = some r.addr
  := by
  obtain ⟨hv, hsig⟩ := Prod.ext_iff.mp h
  simp only [sealedRecord] at hv hsig
  have hverify : verify E (id.pubkey E) (some id.salt) r.seq r.v r.sig = true := by
    rw [hsig, ← hv]
    exact hE.verify_sign id.signing _
  rw [accept, Record.value]
  simp only [ne_eq, not_true_eq_false, if_false, hverify, Bool.true_eq_false]
  rw [hv, openAddr_sealAddr hC]
  rfl


/-- Among accepted values, the best one has the highest number, once a value of that number has
been looked at. -/
theorem foldl_better {id : Identity} {m : Int64} {a : SocketAddr} {values : List Value}
    (haccept : ∀ val ∈ values, ∃ addr, accept C E id val = some addr ∧ val.seq ≤ m
      ∧ (val.seq = m → addr = a))
    {best : Option (Int64 × SocketAddr)}
    (hbest : ∀ b, best = some b → b.1 ≤ m ∧ (b.1 = m → b.2 = a))
    (hfound : best = some (m, a) ∨ ∃ val ∈ values, val.seq = m) :
  values.foldl (better C E id) best = some (m, a)
  := by
  induction values generalizing best with
  | nil =>
      obtain hbest | ⟨val, hval, -⟩ := hfound
      · exact hbest
      · exact absurd hval List.not_mem_nil
  | cons val values ih =>
      obtain ⟨addr, haddr, hle, heq⟩ := haccept val List.mem_cons_self
      have hrest := fun val' hval' => haccept val' (List.mem_cons_of_mem _ hval')
      rw [List.foldl_cons]
      have hcases : better C E id best val = best ∧ (∃ b, best = some b ∧ val.seq ≤ b.1)
          ∨ better C E id best val = some (val.seq, addr) ∧ best ≠ some (m, a) := by
        cases best with
        | none => exact Or.inr ⟨by simp [better, haddr], by simp⟩
        | some b =>
            by_cases hlt : val.seq ≤ b.1
            · exact Or.inl ⟨by simp [better, hlt], b, rfl, hlt⟩
            · refine Or.inr ⟨by simp [better, hlt, haddr], ?_⟩
              rintro heq'
              obtain rfl := Option.some.inj heq'
              exact hlt hle
      obtain ⟨hkeep, b, hb, hlt⟩ | ⟨hnew, hne⟩ := hcases
      · rw [hkeep]
        apply ih hrest hbest
        obtain hfound | ⟨val', hval', hm⟩ := hfound
        · exact Or.inl hfound
        · obtain rfl | hval' := List.mem_cons.mp hval'
          · left
            obtain ⟨hbm, hba⟩ := hbest b hb
            have hb1 : b.1 = m := Int64.le_antisymm hbm (hm ▸ hlt)
            rw [hb, ← hba hb1, ← hb1]
          · exact Or.inr ⟨val', hval', hm⟩
      · rw [hnew]
        apply ih hrest
        · rintro b hb
          obtain rfl := Option.some.inj hb
          exact ⟨hle, heq⟩
        · obtain hfound | ⟨val', hval', hm⟩ := hfound
          · exact absurd hfound hne
          · obtain rfl | hval' := List.mem_cons.mp hval'
            · left
              rw [hm, heq hm]
            · exact Or.inr ⟨val', hval', hm⟩

theorem nonce_injective :
  Function.Injective nonce
  := by
  rintro ⟨n⟩ ⟨m⟩ rfl
  rfl

/-! ### Runs -/

namespace Publisher

variable (C E) in
/-- The records of a publisher are in order: their numbers increase, so that no nonce seals two
addresses, and whichever of them are found, the latest one is taken. -/
structure Sound (id : Identity) (s : Publisher) : Prop where
  increasing : (s.records.map Record.seq).Pairwise (· < ·)
  fresh : ∀ r ∈ s.records, ∀ r' ∈ s.records, nonce r.seq = nonce r'.seq → r.addr = r'.addr
  latest : ∀ values : List Value, (∀ val ∈ values, ∃ r ∈ s.records, val = r.value E id) →
    ∀ older r newer, s.records = older ++ r :: newer → r.value E id ∈ values →
      (∀ r' ∈ newer, r'.value E id ∉ values) → resolve C E id values = .ok r.addr

/-- A call that gets to sealing finds every earlier number passed by the clock, or kept up with
by the file and not at the top of the range. -/
def Covered (s : Publisher) : Publication → Prop
  | .call c => c.sealsIp ≠ none → ∀ r ∈ s.records,
      r.seq < nowUnix c.elapsed ∨ r.seq ≤ readSeq s.text ∧ r.seq < Int64.maxValue
  | .replaced _ => True

instance (s : Publisher) (e : Publication) : Decidable (s.Covered e) :=
  match e with
  | .call c =>
      have : Decidable (∀ r ∈ s.records,
          r.seq < nowUnix c.elapsed ∨ r.seq ≤ readSeq s.text ∧ r.seq < Int64.maxValue) :=
        List.decidableBAll _ s.records
      inferInstanceAs (Decidable (c.sealsIp ≠ none → _))
  | .replaced _ => inferInstanceAs (Decidable True)

variable {id : Identity} {s t : Publisher}

/-- What one step does to the records. -/
theorem step_records (C : Cipher UInt8) (E : Ed25519) (id : Identity) (s : Publisher)
    (e : Publication) :
  (s.step C E id e).records = s.records ∧ (∀ c, e = .call c → c.sealsIp = none)
    ∨ ∃ c ip, e = .call c ∧ c.sealsIp = some ip
      ∧ ∃ r : Record, r.Sealed C E id
        ∧ r.seq = nextSeq (nowUnix c.elapsed) (readSeq s.text)
        ∧ (s.step C E id e).records = s.records ++ [r]
  := by
  cases e with
  | replaced text => exact Or.inl ⟨rfl, by simp⟩
  | call c =>
      cases hreach : c.reach with
      | unwritten =>
          refine Or.inl ⟨by simp [step, publish, hreach], ?_⟩
          rintro _ ⟨rfl⟩
          simp [Call.sealsIp, hreach]
      | written w =>
          refine Or.inl ⟨by simp [step, publish, hreach], ?_⟩
          rintro _ ⟨rfl⟩
          simp [Call.sealsIp, hreach]
      | lookedUp w externalIp =>
          cases hip : c.announceIp.or externalIp with
          | none =>
              refine Or.inl ⟨by simp [step, publish, hreach, hip], ?_⟩
              rintro _ ⟨rfl⟩
              simp only [Call.sealsIp, hreach, hip]
          | some ip =>
              refine Or.inr ⟨c, ip, rfl, by simp only [Call.sealsIp, hreach, hip], ?_⟩
              let seq := nextSeq (nowUnix c.elapsed) (readSeq s.text)
              let made := sealedRecord C E id ip c.port seq
              refine ⟨⟨seq, ip, c.port, made.1, made.2⟩, rfl, rfl, ?_⟩
              simp [step, publish, hreach, hip, made, seq]

/-- The numbers go on increasing exactly when the step is covered. -/
theorem increasing_step (s : Publisher) (e : Publication) :
  ((s.step C E id e).records.map Record.seq).Pairwise (· < ·)
    ↔ (s.records.map Record.seq).Pairwise (· < ·) ∧ s.Covered e
  := by
  obtain ⟨hrecords, hnone⟩ | ⟨c, ip, rfl, hip, r, -, hseq, hrecords⟩ :=
    step_records C E id s e
  · have hcovered : s.Covered e := by
      cases e with
      | call c => exact fun hsome => absurd (hnone c rfl) hsome
      | replaced text => trivial
    rw [hrecords]
    exact ⟨fun h => ⟨h, hcovered⟩, fun h => h.1⟩
  · have hcovered : s.Covered (.call c) ↔ ∀ r' ∈ s.records, r'.seq < r.seq := by
      rw [hseq]
      simp only [lt_nextSeq]
      constructor
      · intro h
        exact h (by simp [hip])
      · intro h _
        exact h
    rw [hrecords, hcovered, List.map_append, List.pairwise_append]
    simp

variable {text : Option (List Char)} {es : List Publication}

theorem sealed_of_run (h : Run (fun s e t => step C E id s e = t) ⟨text, []⟩ es s) :
  ∀ r ∈ s.records, r.Sealed C E id
  := by
  apply h.invariant (I := fun s => ∀ r ∈ s.records, r.Sealed C E id)
  · simp
  · rintro s e _ hs rfl r hr
    obtain ⟨hrecords, -⟩ | ⟨c, ip, -, -, r', hr', -, hrecords⟩ :=
      step_records C E id s e
    · exact hs r (hrecords ▸ hr)
    · rw [hrecords, List.mem_append, List.mem_singleton] at hr
      obtain hr | rfl := hr
      · exact hs r hr
      · exact hr'

theorem increasing_iff (h : Run (fun s e t => step C E id s e = t) ⟨text, []⟩ es s) :
  (s.records.map Record.seq).Pairwise (· < ·)
    ↔ Run (Meeting Covered fun s e t => step C E id s e = t) ⟨text, []⟩ es s
  := by
  constructor
  · intro hinc
    induction h with
    | nil => exact Run.nil
    | @snoc es t u e hrun hlast ih =>
        obtain rfl := hlast
        obtain ⟨hinc, hcovered⟩ := (increasing_step t e).mp hinc
        exact Run.snoc (ih hinc) ⟨hcovered, rfl⟩
  · intro hmeeting
    apply hmeeting.invariant (I := fun s => (s.records.map Record.seq).Pairwise (· < ·))
    · simp
    · rintro s e _ hinc ⟨hcovered, rfl⟩
      exact (increasing_step s e).mpr ⟨hinc, hcovered⟩

/-- Records whose numbers increase are in order. -/
theorem sound_of_increasing (hC : C.Lawful) (hE : E.Lawful)
    (hsealed : ∀ r ∈ s.records, r.Sealed C E id)
    (hinc : (s.records.map Record.seq).Pairwise (· < ·)) :
  s.Sound C E id
  := by
  refine ⟨hinc, ?_, ?_⟩
  · intro r hr r' hr' hnonce
    have hseq : r.seq = r'.seq := nonce_injective hnonce
    have hnodup : (s.records.map Record.seq).Nodup := hinc.imp fun hlt => Int64.ne_of_lt hlt
    rw [List.inj_on_of_nodup_map hnodup hr hr' hseq]
  · intro values hvalues older r newer hrecords hr hnewer
    rw [hrecords, List.map_append, List.pairwise_append] at hinc
    have holder : ∀ r' ∈ older, r'.seq < r.seq := by
      intro r' hr'
      exact hinc.2.2 r'.seq (List.mem_map_of_mem hr') r.seq (by simp)
    have hbest : values.foldl (better C E id) none = some (r.seq, r.addr) := by
      apply foldl_better
      · intro val hval
        obtain ⟨r', hr', rfl⟩ := hvalues val hval
        refine ⟨r'.addr, accept_value hC hE (hsealed r' hr'), ?_⟩
        rw [hrecords, List.mem_append, List.mem_cons] at hr'
        obtain hr' | rfl | hr' := hr'
        · have hlt := holder r' hr'
          exact ⟨Int64.le_of_lt hlt, fun heq => absurd heq (Int64.ne_of_lt hlt)⟩
        · exact ⟨Int64.le_refl _, fun _ => rfl⟩
        · exact absurd hval (hnewer r' hr')
      · simp
      · exact Or.inr ⟨r.value E id, hr, rfl⟩
    rw [resolve, hbest]

/-- A file that was written whole covers every number up to the one written, unless that is the
top of the range. -/
theorem covered_of_whole {s : Publisher} {seq : Int64} (htext : s.text = some (i64Text seq))
    (hle : ∀ r ∈ s.records, r.seq ≤ seq) (hlt : seq < Int64.maxValue) (c : Call) :
  s.Covered (.call c)
  := by
  intro _ r hr
  have hread : readSeq s.text = seq := by
    rw [htext, readSeq, Option.bind_some, trim_i64Text, parseI64_i64Text, Option.getD_some]
  rw [hread]
  exact Or.inr ⟨hle r hr, Int64.lt_of_le_of_lt (hle r hr) hlt⟩

/-- The records of a run are in order exactly when every call that got to sealing found the
earlier numbers covered by the clock or by the file. -/
theorem sound_iff_covered (hC : C.Lawful) (hE : E.Lawful)
    (h : Run (fun s e t => step C E id s e = t) ⟨text, []⟩ es s) :
  s.Sound C E id ↔ Run (Meeting Covered fun s e t => step C E id s e = t) ⟨text, []⟩ es s
  := by
  rw [← increasing_iff h]
  exact ⟨fun hsound => hsound.increasing, sound_of_increasing hC hE (sealed_of_run h)⟩

/-- A call that announces an address, at a time and with an outcome of writing the file. -/
def announcing (secs : UInt64) (ip : Ipv4Addr) (w : Writing) : Publication :=
  .call ⟨some secs, some ip, 443, .lookedUp w none⟩

/-- The clock steps back between two calls, and the file keeps the numbers apart. -/
theorem sound_iff_covered_stepping :
  let id : Identity := ⟨Bytes.zero 32, [], []⟩
  let es := [announcing 100 ⟨1⟩ .whole, announcing 50 ⟨2⟩ .whole]
  (es.foldl (step .clear .clear id) ⟨none, []⟩).Sound .clear .clear id
  := by
  intro id es
  have hrun := run_foldl (step .clear .clear id) ⟨none, []⟩ es
  exact (sound_iff_covered Cipher.lawful_clear Ed25519.lawful_clear hrun).mpr
    (run_of_meets (by decide))

/-- With a file that cannot be written, two calls at the same time seal two addresses under one
nonce. -/
theorem reused_when_refused :
  ¬ ∀ (es : List Publication) (s : Publisher),
    Run (fun s e t => step .clear .clear ⟨Bytes.zero 32, [], []⟩ s e = t) ⟨none, []⟩ es s
      → s.Sound .clear .clear ⟨Bytes.zero 32, [], []⟩
  := by
  intro h
  let es := [announcing 100 ⟨1⟩ .refused, announcing 100 ⟨2⟩ .refused]
  let s := es.foldl (step .clear .clear ⟨Bytes.zero 32, [], []⟩) ⟨none, []⟩
  have hsound := h es s (run_foldl _ _ es)
  exact absurd hsound.increasing (by decide)

end Publisher

end

end ZeroNat.Dht

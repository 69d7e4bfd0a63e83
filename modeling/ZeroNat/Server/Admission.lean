import ZeroNat.Lib.Run
import ZeroNat.Lib.Table
import ZeroNat.Proto.Wire

/-!
# Admission of datagram sources

The control port takes no session from a source that has not shown that it receives what is
sent to it.  A source that says hello is sent a challenge, a cookie that only the server can
make for that source and that time; the source echoes it, and the server then remembers for a
few seconds that the source may open a session.  Times are readings of the monotonic clock, in
nanoseconds since the cookie jar was made, which is the epoch of its time stamps.
-/

namespace ZeroNat

open BigEndian

/-- The classes of the datagrams at the control port that admission looks at. -/
def classKcp : UInt8 := 0x01

def classSetup : UInt8 := 0x02

def classHello : UInt8 := 0x05

def classChallenge : UInt8 := 0x06

def classAdmit : UInt8 := 0x07

def tsLen : ℕ := 8

def macLen : ℕ := 16

def cookieLen : ℕ := tsLen + macLen

def challengeLen : ℕ := 1 + cookieLen

/-- A hello is no smaller than the challenge it elicits. -/
def helloLen : ℕ := challengeLen

/-- The header of a packet of the stream protocol. -/
def kcpOverhead : ℕ := 24

/-- How long an issued cookie verifies, in milliseconds. -/
def cookieTtl : ℕ := 30000

/-- How long after its challenge was issued a source may open a session. -/
def udpAdmissionTtl : ℕ := 5000000000

/-- How long a session is kept without traffic. -/
def udpSessionTtl : ℕ := 90000000000

def maxUdpSessions : ℕ := 64

def maxPendingUdpAdmissions : ℕ := 64

def nanosPerMilli : ℕ := 1000000

/-- The server half of admission: the hash of the cookies under the key of the jar. -/
structure CookieJar where
  mac : List UInt8 → Bytes 16

/-- A reading of the clock in whole milliseconds, in 64 bits. -/
def stamp (now : ℕ) : ℕ :=
  now / nanosPerMilli % 2 ^ 64

/-- What a cookie authenticates: the time it was issued at, and the address and the port of
its source. -/
def macInput (ts : ℕ) (src : SocketAddr) : List UInt8 :=
  toBe 8 ts
    ++ (match src.ip with
      | .v4 ip => putIp ip
      | .v6 octets => octets.toList)
    ++ putU16 src.port

namespace CookieJar

def macFor (jar : CookieJar) (ts : ℕ) (src : SocketAddr) : Bytes 16 :=
  jar.mac (macInput ts src)

/-- The cookie of a source and a time. -/
def cookie (jar : CookieJar) (ts : ℕ) (src : SocketAddr) : List UInt8 :=
  toBe 8 ts ++ (jar.macFor ts src).toList

/-- The datagram that answers a hello. -/
def challenge (jar : CookieJar) (now : ℕ) (src : SocketAddr) : List UInt8 :=
  classChallenge :: jar.cookie (stamp now) src

/-- The time a cookie was issued at, as a time stamp and as a reading of the clock, when the
cookie is well formed, in date, and the one of its source. -/
def verify (jar : CookieJar) (now : ℕ) (src : SocketAddr) (body : List UInt8) : Option (ℕ × ℕ) :=
  if body.length ≠ cookieLen then none
  else
    let ts := ofBe (body.take tsLen)
    let age := stamp now
    if age < ts ∨ cookieTtl < age - ts then none
    else if (jar.macFor ts src).toList ≠ body.drop tsLen then none
    else some (ts, ts * nanosPerMilli)

end CookieJar

/-- A source that has echoed its challenge: when the challenge was issued, and until when the
source may open a session. -/
structure PendingUdpAdmission where
  issued : ℕ
  expires : ℕ
deriving DecidableEq

abbrev PendingUdpAdmissions : Type :=
  Table SocketAddr PendingUdpAdmission

/-- Remember that a source may open a session.  A source that waits already is moved to the
deadline of a later challenge, never to that of an earlier one or of the same. -/
def recordUdpAdmission (pending : PendingUdpAdmissions) (src : SocketAddr)
    (issued expires now : ℕ) : Bool × PendingUdpAdmissions :=
  let pending := pending.retain fun _ admission => now < admission.expires
  if expires ≤ now then (false, pending)
  else
    match pending.lookup src with
    | some admission =>
        (true, if admission.issued < issued then pending.insert src ⟨issued, expires⟩ else pending)
    | none =>
        if maxPendingUdpAdmissions ≤ pending.size then (false, pending)
        else (true, pending.insert src ⟨issued, expires⟩)

/-- Remove the admission of a source, and tell whether it still held. -/
def takeUdpAdmission (pending : PendingUdpAdmissions) (src : SocketAddr) (now : ℕ) :
    Bool × PendingUdpAdmissions :=
  ((pending.lookup src).any fun admission => now < admission.expires, pending.erase src)

def admitNewUdpSession (sessionCount : ℕ) : Bool :=
  sessionCount < maxUdpSessions

/-- A datagram that can be the first of a session. -/
def canOpenSession : List UInt8 → Bool
  | [] => false
  | c :: rest => (c = classKcp ∨ c = classSetup) ∧ kcpOverhead ≤ rest.length

/-- Record a verified cookie.  The clock is read twice, to verify and to record. -/
def admitUdpSource (jar : CookieJar) (pending : PendingUdpAdmissions) (src : SocketAddr)
    (body : List UInt8) (now later : ℕ) : Bool × PendingUdpAdmissions :=
  match jar.verify now src body with
  | none => (false, pending)
  | some (issued, issuedAt) =>
      recordUdpAdmission pending src issued (issuedAt + udpAdmissionTtl) later

/-- Open a session for a source whose admission holds, if there is a permit for the handshake
of its first conversation. -/
def openUdpSession (pending : PendingUdpAdmissions) (src : SocketAddr) (now : ℕ) (permit : Bool) :
    Bool × PendingUdpAdmissions :=
  if (pending.lookup src).all fun admission => admission.expires ≤ now then
    (false, pending.erase src)
  else if !permit then (false, pending)
  else takeUdpAdmission pending src now

/-- What the record of a control port says: a challenge was issued, an echoed cookie was
recorded, or a session was opened. -/
inductive AdmissionEvent where
  | challenged (src : SocketAddr) (time : ℕ)
  | admitted (src : SocketAddr) (body : List UInt8)
  | opened (src : SocketAddr) (time : ℕ)
deriving DecidableEq

/-- The control port: its sessions with the time of their last datagram, the sources that may
open one, and the record of what has happened, the latest first. -/
structure UdpControl where
  jar : CookieJar
  sessions : Table SocketAddr ℕ
  pending : PendingUdpAdmissions
  record : List AdmissionEvent

/-- The inputs of the control port. -/
inductive UdpInput where
  /-- A datagram, two readings of the clock while it is handled, and whether there is a permit
  for a handshake. -/
  | datagram (src : SocketAddr) (packet : List UInt8) (now later : ℕ) (permit : Bool)
  /-- The periodic sweep, and which sessions are idle then. -/
  | sweep (now : ℕ) (idle : List SocketAddr)

namespace UdpControl

def boot (jar : CookieJar) : UdpControl where
  jar := jar
  sessions := ∅
  pending := ∅
  record := []

def hello (s : UdpControl) (src : SocketAddr) (now : ℕ) : UdpControl :=
  { s with record := .challenged src now :: s.record }

def admitSource (s : UdpControl) (src : SocketAddr) (body : List UInt8) (now later : ℕ) : UdpControl :=
  if (s.sessions.lookup src).isNone ∧ admitNewUdpSession s.sessions.size then
    let admitted := admitUdpSource s.jar s.pending src body now later
    { s with
      pending := admitted.2
      record := if admitted.1 then .admitted src body :: s.record else s.record }
  else s

/-- A datagram of a session, or the first of one.  A first datagram that can open a session
opens a conversation on it, so that the session is kept. -/
def routeDatagram (s : UdpControl) (src : SocketAddr) (packet : List UInt8) (now later : ℕ)
    (permit : Bool) : UdpControl :=
  match s.sessions.lookup src with
  | some _ => { s with sessions := s.sessions.insert src later }
  | none =>
      if canOpenSession packet ∧ admitNewUdpSession s.sessions.size then
        let opened := openUdpSession s.pending src now permit
        if opened.1 then
          { s with
            sessions := s.sessions.insert src later
            pending := opened.2
            record := .opened src now :: s.record }
        else { s with pending := opened.2 }
      else s

def receive (s : UdpControl) (src : SocketAddr) (packet : List UInt8) (now later : ℕ)
    (permit : Bool) : UdpControl :=
  match packet with
  | [] => s.routeDatagram src packet now later permit
  | c :: body =>
      if c = classHello ∧ helloLen ≤ packet.length then s.hello src now
      else if c = classAdmit then s.admitSource src body now later
      else s.routeDatagram src packet now later permit

def sweep (s : UdpControl) (now : ℕ) (idle : List SocketAddr) : UdpControl :=
  { s with
    sessions := s.sessions.retain fun src last => now - last < udpSessionTtl ∧ src ∉ idle
    pending := s.pending.retain fun _ admission => now < admission.expires }

def step (s : UdpControl) : UdpInput → UdpControl
  | .datagram src packet now later permit => s.receive src packet now later permit
  | .sweep now idle => s.sweep now idle

/-- The keyed hash has been computed for a challenge on this input. -/
def Macs (input : List UInt8) : AdmissionEvent → Prop
  | .challenged src time => macInput (stamp time) src = input
  | _ => False

instance (input : List UInt8) : DecidablePred (Macs input)
  | .challenged _ _ => inferInstanceAs (Decidable (_ = _))
  | .admitted _ _ => inferInstanceAs (Decidable False)
  | .opened _ _ => inferInstanceAs (Decidable False)

/-- The keyed hash is ideal: a tag that verifies is one that a challenge has carried. -/
def Unforged (s : UdpControl) : UdpInput → Prop
  | .datagram src (c :: body) now _ _ =>
      c = classAdmit → ∀ issued ∈ s.jar.verify now src body,
        ∃ e ∈ s.record, Macs (macInput issued.1 src) e
  | _ => True

instance (s : UdpControl) : DecidablePred s.Unforged
  | .datagram _ [] _ _ _ => inferInstanceAs (Decidable True)
  | .datagram src (c :: body) now _ _ =>
      inferInstanceAs (Decidable (c = classAdmit → ∀ issued ∈ s.jar.verify now src body,
        ∃ e ∈ s.record, Macs (macInput issued.1 src) e))
  | .sweep _ _ => inferInstanceAs (Decidable True)

/-- The steps of the control port in which no tag is forged. -/
def Step (s : UdpControl) (input : UdpInput) (t : UdpControl) : Prop :=
  Meeting Unforged (fun s input t => s.step input = t) s input t

end UdpControl

/-! ### Cookies -/

/-- The input of the keyed hash determines the time stamp, the address and the port: the
addresses of the two families have different lengths. -/
theorem macInput_inj {ts ts' : ℕ} {src src' : SocketAddr} (hts : ts < 2 ^ 64) (hts' : ts' < 2 ^ 64)
    (h : macInput ts src = macInput ts' src') :
  ts = ts' ∧ src.ip = src'.ip ∧ src.port = src'.port
  := by
  rw [macInput, macInput, List.append_assoc, List.append_assoc] at h
  obtain ⟨hstamp, hrest⟩ := List.append_inj h (by rw [length_toBe, length_toBe])
  have hport : ∀ {p q : UInt16}, putU16 p = putU16 q → p = q := by
    intro p q hpq
    apply UInt16.toNat_inj.mp
    rw [← ofBe_toBe_of_lt (w := 2) p.toNat_lt, ← ofBe_toBe_of_lt (w := 2) q.toNat_lt]
    exact congrArg ofBe hpq
  have hip : ∀ {p q : Ipv4Addr}, putIp p = putIp q → p = q := by
    rintro ⟨p⟩ ⟨q⟩ hpq
    congr 1
    apply UInt32.toNat_inj.mp
    rw [← ofBe_toBe_of_lt (w := 4) p.toNat_lt, ← ofBe_toBe_of_lt (w := 4) q.toNat_lt]
    exact congrArg ofBe hpq
  refine ⟨?_, ?_⟩
  · rw [← ofBe_toBe_of_lt (w := 8) hts, ← ofBe_toBe_of_lt (w := 8) hts', hstamp]
  · have hlen := congrArg List.length hrest
    cases hsrc : src.ip with
    | v4 ip =>
        cases hsrc' : src'.ip with
        | v4 ip' =>
            rw [hsrc, hsrc'] at hrest
            obtain ⟨haddr, hp⟩ := List.append_inj hrest (by rw [length_putIp, length_putIp])
            exact ⟨by rw [hip haddr], hport hp⟩
        | v6 octets' => simp [hsrc, hsrc'] at hlen
    | v6 octets =>
        cases hsrc' : src'.ip with
        | v4 ip' => simp [hsrc, hsrc'] at hlen
        | v6 octets' =>
            rw [hsrc, hsrc'] at hrest
            obtain ⟨haddr, hp⟩ := List.append_inj hrest
              (by rw [List.Vector.toList_length, List.Vector.toList_length])
            exact ⟨by rw [List.Vector.toList_injective haddr], hport hp⟩

theorem stamp_lt (now : ℕ) :
  stamp now < 2 ^ 64
  := Nat.mod_lt _ (by decide)

/-- A time stamp is no later than the reading of the clock it was made from. -/
theorem stamp_mul_le (now : ℕ) :
  stamp now * nanosPerMilli ≤ now
  := by
  have hmod : stamp now ≤ now / nanosPerMilli := Nat.mod_le _ _
  exact (Nat.mul_le_mul_right _ hmod).trans (Nat.div_mul_le_self _ _)

theorem CookieJar.verify_eq_some {jar : CookieJar} {now : ℕ} {src : SocketAddr} {body : List UInt8}
    {issued : ℕ × ℕ} (h : jar.verify now src body = some issued) :
  body = jar.cookie issued.1 src ∧ issued.1 < 2 ^ 64
    ∧ issued.2 = issued.1 * nanosPerMilli
  := by
  rw [verify] at h
  split at h
  · simp at h
  · rename_i hlen
    have hlen : body.length = cookieLen := not_not.mp hlen
    have htake : (body.take tsLen).length = 8 := by
      rw [List.length_take, hlen]
      decide
    dsimp only at h
    split at h
    · simp at h
    · split at h
      · simp at h
      · rename_i hmac
        obtain rfl := Option.some.inj h
        refine ⟨?_, ?_, rfl⟩
        · rw [cookie, not_not.mp hmac, ← htake, toBe_ofBe, List.take_append_drop]
        · exact ofBe_lt htake

/-! ### The table of admissions -/

section Record

variable {pending : PendingUdpAdmissions} {src k : SocketAddr} {issued expires now : ℕ}
  {a : PendingUdpAdmission}

/-- An entry after a recording was there before, or is the recorded one. -/
theorem lookup_recordUdpAdmission
    (h : (recordUdpAdmission pending src issued expires now).2.lookup k = some a) :
  (pending.lookup k = some a ∧ now < a.expires)
    ∨ (k = src ∧ a = ⟨issued, expires⟩ ∧ now < expires
      ∧ (recordUdpAdmission pending src issued expires now).1 = true
      ∧ ∀ b, pending.lookup src = some b → now < b.expires → b.issued < issued)
  := by
  have hretain : ∀ {b : PendingUdpAdmission},
      (pending.retain fun _ admission => now < admission.expires).lookup k = some b →
      pending.lookup k = some b ∧ now < b.expires := by
    intro b hb
    rw [Table.lookup_retain] at hb
    exact ⟨hb.1, of_decide_eq_true hb.2⟩
  rw [recordUdpAdmission] at h ⊢
  split at h
  · exact Or.inl (hretain h)
  · rename_i hlate
    rw [if_neg hlate]
    split at h
    · rename_i b hb
      dsimp only at h
      split at h
      · rename_i hnewer
        rw [Table.lookup_insert_eq] at h
        split at h
        · rename_i hk
          refine Or.inr ⟨hk, (Option.some.inj h).symm, Nat.lt_of_not_le hlate, rfl, ?_⟩
          intro c hc hlive
          rw [Table.lookup_retain] at hb
          rw [hb.1] at hc
          rw [← Option.some.inj hc]
          exact hnewer
        · exact Or.inl (hretain h)
      · exact Or.inl (hretain h)
    · rename_i hnone
      split at h
      · exact Or.inl (hretain h)
      · rename_i hsize
        dsimp only at h
        rw [Table.lookup_insert_eq] at h
        split at h
        · rename_i hk
          refine Or.inr ⟨hk, (Option.some.inj h).symm, Nat.lt_of_not_le hlate, ?_, ?_⟩
          · rw [if_neg hsize]
          · intro c hc hlive
            have hkept := (Table.lookup_retain (fun _ admission => decide (now < admission.expires))
              pending src c).mpr ⟨hc, decide_eq_true hlive⟩
            rw [hnone] at hkept
            simp at hkept
        · exact Or.inl (hretain h)

/-- The entry of another source stays until it expires. -/
theorem lookup_recordUdpAdmission_ne (hne : k ≠ src) (h : pending.lookup k = some a)
    (hlive : now < a.expires) :
  (recordUdpAdmission pending src issued expires now).2.lookup k = some a
  := by
  have hkept : (pending.retain fun _ admission => now < admission.expires).lookup k = some a :=
    (Table.lookup_retain _ _ _ _).mpr ⟨h, decide_eq_true hlive⟩
  rw [recordUdpAdmission]
  split
  · exact hkept
  · split
    · dsimp only
      split
      · rw [Table.lookup_insert_eq, if_neg hne, hkept]
      · exact hkept
    · split
      · exact hkept
      · dsimp only
        rw [Table.lookup_insert_eq, if_neg hne, hkept]

theorem size_recordUdpAdmission_le (hsize : pending.size ≤ maxPendingUdpAdmissions) :
  Table.size (recordUdpAdmission pending src issued expires now).2 ≤ maxPendingUdpAdmissions
  := by
  have hretain : Table.size (pending.retain fun _ admission => now < admission.expires)
      ≤ maxPendingUdpAdmissions := (Table.size_retain_le _ _).trans hsize
  rw [recordUdpAdmission]
  split
  · exact hretain
  · split
    · rename_i b hb
      dsimp only
      split
      · rw [Table.size_insert_of_lookup hb]
        exact hretain
      · exact hretain
    · split
      · exact hretain
      · rename_i hfull
        exact (Table.size_insert_le _ _ _).trans (Nat.lt_of_not_le hfull)

section Source

variable {jar : CookieJar} {body : List UInt8} {later : ℕ}

/-- An entry after an echo was there before, or is that of the echoed challenge. -/
theorem lookup_admitUdpSource
    (h : (admitUdpSource jar pending src body now later).2.lookup k = some a) :
  pending.lookup k = some a
    ∨ (k = src ∧ (admitUdpSource jar pending src body now later).1 = true
      ∧ a.expires = a.issued * nanosPerMilli + udpAdmissionTtl
      ∧ jar.verify now src body = some (a.issued, a.issued * nanosPerMilli))
  := by
  rw [admitUdpSource] at h ⊢
  split at h
  · exact Or.inl h
  · rename_i issued issuedAt hverify
    obtain ⟨-, -, hissued⟩ := CookieJar.verify_eq_some hverify
    dsimp only at hissued
    subst hissued
    obtain ⟨hold, -⟩ | ⟨hk, rfl, -, hrecorded, -⟩ := lookup_recordUdpAdmission h
    · exact Or.inl hold
    · exact Or.inr ⟨hk, hrecorded, rfl, hverify⟩

theorem lookup_admitUdpSource_ne (hne : k ≠ src) (h : pending.lookup k = some a)
    (hlive : later < a.expires) :
  (admitUdpSource jar pending src body now later).2.lookup k = some a
  := by
  rw [admitUdpSource]
  split
  · exact h
  · exact lookup_recordUdpAdmission_ne hne h hlive

theorem size_admitUdpSource_le (hsize : pending.size ≤ maxPendingUdpAdmissions) :
  Table.size (admitUdpSource jar pending src body now later).2 ≤ maxPendingUdpAdmissions
  := by
  rw [admitUdpSource]
  split
  · exact hsize
  · exact size_recordUdpAdmission_le hsize

end Source

theorem openUdpSession_eq_true {permit : Bool}
    (h : (openUdpSession pending src now permit).1 = true) :
  (∃ a, pending.lookup src = some a ∧ now < a.expires)
    ∧ (openUdpSession pending src now permit).2 = pending.erase src
  := by
  rw [openUdpSession] at h ⊢
  split at h
  · simp at h
  · rename_i hlive
    rw [if_neg hlive]
    split at h
    · simp at h
    · rename_i hpermit
      rw [if_neg hpermit]
      rw [takeUdpAdmission, Option.any_eq_true] at h
      obtain ⟨a, ha, hexp⟩ := h
      exact ⟨⟨a, ha, of_decide_eq_true hexp⟩, rfl⟩

/-- To open a session, or to be refused one, adds no entry. -/
theorem lookup_openUdpSession {permit : Bool}
    (h : (openUdpSession pending src now permit).2.lookup k = some a) :
  pending.lookup k = some a
  := by
  have herase : (pending.erase src).lookup k = some a → pending.lookup k = some a := by
    intro hk
    rw [Table.lookup_erase_eq] at hk
    split at hk
    · simp at hk
    · exact hk
  rw [openUdpSession] at h
  split at h
  · exact herase h
  · split at h
    · exact h
    · exact herase h

theorem lookup_openUdpSession_ne {permit : Bool} (hne : k ≠ src) (h : pending.lookup k = some a) :
  (openUdpSession pending src now permit).2.lookup k = some a
  := by
  have herase : (pending.erase src).lookup k = some a := by
    rw [Table.lookup_erase_eq, if_neg hne, h]
  rw [openUdpSession]
  split
  · exact herase
  · split
    · exact h
    · exact herase

theorem size_openUdpSession_le {permit : Bool} :
  Table.size (openUdpSession pending src now permit).2 ≤ pending.size
  := by
  rw [openUdpSession]
  split
  · exact Table.size_erase_le _ _
  · split
    · exact le_refl _
    · exact Table.size_erase_le _ _

end Record

end ZeroNat

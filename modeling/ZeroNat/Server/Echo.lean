import ZeroNat.Server.Admission

/-!
# Sessions need an echoed challenge

Along every run of the control port in which no tag is forged, a session is opened only for a
source whose address and port were sent a challenge, that echoed it, and that is not late.
The invariant behind this is that each waiting source has such an echo in the record, with no
session opened for it since.
-/

namespace ZeroNat

open BigEndian

/-- A challenge to the address and the port of `src` was issued at `time`, and came back from
`src` later. -/
def Echoed (jar : CookieJar) (src : SocketAddr) (time : ℕ) (record : List AdmissionEvent) : Prop :=
  ∃ src' earlier,
    (.admitted src (jar.cookie (stamp time) src') :: earlier) <:+ record
      ∧ .challenged src' time ∈ earlier ∧ src'.ip = src.ip ∧ src'.port = src.port

/-- An echo after which no session was opened for the source. -/
def Waiting (jar : CookieJar) (src : SocketAddr) (time : ℕ) (record : List AdmissionEvent) :
    Prop :=
  ∃ src' later earlier,
    record = later ++ .admitted src (jar.cookie (stamp time) src') :: earlier
      ∧ (∀ t, .opened src t ∉ later)
      ∧ .challenged src' time ∈ earlier ∧ src'.ip = src.ip ∧ src'.port = src.port

namespace Waiting

variable {jar : CookieJar} {src : SocketAddr} {time : ℕ} {record : List AdmissionEvent}

theorem echoed (h : Waiting jar src time record) :
  Echoed jar src time record
  := by
  obtain ⟨src', later, earlier, hrecord, -, hrest⟩ := h
  exact ⟨src', earlier, ⟨later, hrecord.symm⟩, hrest⟩

theorem cons {e : AdmissionEvent} (h : Waiting jar src time record)
    (he : ∀ t, e ≠ .opened src t) :
  Waiting jar src time (e :: record)
  := by
  obtain ⟨src', later, earlier, hrecord, hlater, hrest⟩ := h
  refine ⟨src', e :: later, earlier, by rw [hrecord, List.cons_append], ?_, hrest⟩
  intro t hmem
  obtain heq | hmem := List.mem_cons.mp hmem
  · exact he t heq.symm
  · exact hlater t hmem

/-- The echo came after every session that was opened for the source. -/
theorem admitted_of_opened {l₁ l₂ : List AdmissionEvent} {t : ℕ}
    (h : Waiting jar src time (l₂ ++ .opened src t :: l₁)) :
  ∃ body, .admitted src body ∈ l₂
  := by
  obtain ⟨src', later, earlier, hrecord, hlater, -⟩ := h
  obtain ⟨l, hl, hrest⟩ | ⟨l, hl, hrest⟩ := List.append_eq_append_iff.mp hrecord
  · cases l with
    | nil => simp at hrest
    | cons e l =>
        obtain ⟨rfl, -⟩ := List.cons.inj hrest
        exact absurd (by rw [hl]; simp) (hlater t)
  · cases l with
    | nil => simp at hrest
    | cons e l =>
        obtain ⟨rfl, -⟩ := List.cons.inj hrest
        exact ⟨_, by rw [hl]; exact List.mem_append_right _ List.mem_cons_self⟩

end Waiting

namespace UdpControl

/-- What is kept along a run: a waiting source has echoed a challenge since its last session,
its deadline is that of a challenge, and so every session was opened after an echo that no
session before it had used. -/
structure Guarded (s : UdpControl) : Prop where
  deadline : ∀ src a, s.pending.lookup src = some a →
    a.expires = a.issued * nanosPerMilli + udpAdmissionTtl
  waiting : ∀ src a, s.pending.lookup src = some a →
    ∃ time, Waiting s.jar src time s.record ∧ a.expires ≤ time + udpAdmissionTtl
  opened : ∀ src now earlier, (.opened src now :: earlier) <:+ s.record →
    ∃ time, Echoed s.jar src time earlier ∧ now < time + udpAdmissionTtl
  again : ∀ src t₁ t₂ l₁ l₂, (.opened src t₂ :: (l₂ ++ .opened src t₁ :: l₁)) <:+ s.record →
    ∃ body, .admitted src body ∈ l₂
  consumed : ∀ src now earlier, s.record = .opened src now :: earlier →
    s.pending.lookup src = none
  pending_le : s.pending.size ≤ maxPendingUdpAdmissions
  sessions_le : s.sessions.size ≤ maxUdpSessions

theorem guarded_boot (jar : CookieJar) :
  (boot jar).Guarded where
  deadline := by simp [boot]
  waiting := by simp [boot]
  opened := by simp [boot]
  again := by simp [boot]
  consumed := by simp [boot]
  pending_le := Nat.zero_le _
  sessions_le := Nat.zero_le _

namespace Guarded

variable {s : UdpControl}

/-- A step that writes nothing in the record, and lets sources wait no longer than they did. -/
theorem of_record {t : UdpControl} (hs : s.Guarded) (hjar : t.jar = s.jar)
    (hrecord : t.record = s.record)
    (hpending : ∀ src a, t.pending.lookup src = some a → s.pending.lookup src = some a)
    (hsize : t.pending.size ≤ maxPendingUdpAdmissions) (hsessions : t.sessions.size ≤ maxUdpSessions) :
  t.Guarded where
  deadline := by
    intro src a ha
    exact hs.deadline src a (hpending src a ha)
  waiting := by
    intro src a ha
    rw [hjar, hrecord]
    exact hs.waiting src a (hpending src a ha)
  opened := by
    rw [hjar, hrecord]
    exact hs.opened
  again := by
    rw [hrecord]
    exact hs.again
  consumed := by
    intro src now earlier h
    rw [hrecord] at h
    cases ha : t.pending.lookup src with
    | none => rfl
    | some a =>
        have hnone := hs.consumed src now earlier h
        rw [hpending src a ha] at hnone
        simp at hnone
  pending_le := hsize
  sessions_le := hsessions

/-- A step that writes something other than the opening of a session in the record. -/
theorem of_cons {t : UdpControl} {e : AdmissionEvent} (hs : s.Guarded) (hjar : t.jar = s.jar)
    (hrecord : t.record = e :: s.record) (he : ∀ src now, e ≠ .opened src now)
    (hdeadline : ∀ src a, t.pending.lookup src = some a →
      a.expires = a.issued * nanosPerMilli + udpAdmissionTtl)
    (hwaiting : ∀ src a, t.pending.lookup src = some a →
      ∃ time, Waiting s.jar src time (e :: s.record) ∧ a.expires ≤ time + udpAdmissionTtl)
    (hsize : t.pending.size ≤ maxPendingUdpAdmissions) (hsessions : t.sessions.size ≤ maxUdpSessions) :
  t.Guarded where
  deadline := hdeadline
  waiting := by
    rw [hjar, hrecord]
    exact hwaiting
  opened := by
    intro src now earlier h
    rw [hrecord, List.suffix_cons_iff] at h
    obtain heq | h := h
    · exact absurd (List.cons.inj heq).1.symm (he src now)
    · rw [hjar]
      exact hs.opened src now earlier h
  again := by
    intro src t₁ t₂ l₁ l₂ h
    rw [hrecord, List.suffix_cons_iff] at h
    obtain heq | h := h
    · exact absurd (List.cons.inj heq).1.symm (he src t₂)
    · exact hs.again src t₁ t₂ l₁ l₂ h
  consumed := by
    intro src now earlier h
    rw [hrecord] at h
    exact absurd (List.cons.inj h).1 (he src now)
  pending_le := hsize
  sessions_le := hsessions

theorem hello (hs : s.Guarded) (src : SocketAddr) (now : ℕ) :
  (s.hello src now).Guarded
  := by
  refine hs.of_cons rfl rfl (by simp) hs.deadline ?_ hs.pending_le hs.sessions_le
  intro k a ha
  obtain ⟨time, hwaiting, hle⟩ := hs.waiting k a ha
  exact ⟨time, hwaiting.cons (by simp), hle⟩

/-- An echo that verifies belongs to a challenge to the same address and port. -/
theorem challenged_of_unforged {src : SocketAddr} {body : List UInt8} {now : ℕ} {issued : ℕ × ℕ}
    (hverify : s.jar.verify now src body = some issued)
    (hforged : ∃ e ∈ s.record, Macs (macInput issued.1 src) e) :
  ∃ src' time, .challenged src' time ∈ s.record ∧ body = s.jar.cookie (stamp time) src'
    ∧ src'.ip = src.ip ∧ src'.port = src.port
    ∧ issued.2 ≤ time
  := by
  obtain ⟨hbody, hlt, hissued⟩ := CookieJar.verify_eq_some hverify
  obtain ⟨e, he, hmacs⟩ := hforged
  cases e with
  | challenged src' time =>
      obtain ⟨hts, hip, hport⟩ := macInput_inj (stamp_lt time) hlt hmacs
      refine ⟨src', time, he, ?_, hip, hport, ?_⟩
      · rw [hbody, CookieJar.cookie, CookieJar.cookie, CookieJar.macFor, CookieJar.macFor, ← hts,
          show macInput (stamp time) src = macInput (stamp time) src' by
            rw [hmacs, ← hts]]
      · rw [hissued, ← hts]
        exact stamp_mul_le time
  | admitted => exact hmacs.elim
  | opened => exact hmacs.elim

theorem admitSource (hs : s.Guarded) {src : SocketAddr} {body : List UInt8} {now later : ℕ}
    (hforged : ∀ issued ∈ s.jar.verify now src body,
      ∃ e ∈ s.record, Macs (macInput issued.1 src) e) :
  (s.admitSource src body now later).Guarded
  := by
  have hsize : Table.size (admitUdpSource s.jar s.pending src body now later).2
      ≤ maxPendingUdpAdmissions := size_admitUdpSource_le hs.pending_le
  have hlookup : ∀ k a,
      (admitUdpSource s.jar s.pending src body now later).2.lookup k = some a → _ :=
    fun k a => lookup_admitUdpSource
  rw [UdpControl.admitSource]
  generalize admitUdpSource s.jar s.pending src body now later = admitted at hsize hlookup ⊢
  split
  · dsimp only
    split
    · rename_i hrecorded
      refine hs.of_cons rfl rfl (by simp) ?_ ?_ hsize hs.sessions_le
      · intro k a ha
        obtain hold | ⟨-, -, hdeadline, -⟩ := hlookup k a ha
        · exact hs.deadline k a hold
        · exact hdeadline
      · intro k a ha
        obtain hold | ⟨rfl, -, hdeadline, hverify⟩ := hlookup k a ha
        · obtain ⟨time, hwaiting, hle⟩ := hs.waiting k a hold
          exact ⟨time, hwaiting.cons (by simp), hle⟩
        · obtain ⟨src', time, hmem, hbody, hip, hport, hle⟩ :=
            challenged_of_unforged hverify (hforged _ hverify)
          refine ⟨time, ⟨src', [], s.record, ?_, by simp, hmem, hip, hport⟩, ?_⟩
          · rw [List.nil_append, hbody]
          · rw [hdeadline]
            exact Nat.add_le_add_right hle udpAdmissionTtl
    · rename_i hrecorded
      refine hs.of_record rfl rfl ?_ hsize hs.sessions_le
      intro k a ha
      obtain hold | ⟨-, hrec, -⟩ := hlookup k a ha
      · exact hold
      · exact absurd hrec hrecorded
  · exact hs

theorem open_session (hs : s.Guarded) {src : SocketAddr} {now later : ℕ} {permit : Bool}
    (hfew : admitNewUdpSession s.sessions.size)
    (hopened : (openUdpSession s.pending src now permit).1 = true) :
  Guarded
    { s with
      sessions := s.sessions.insert src later
      pending := (openUdpSession s.pending src now permit).2
      record := .opened src now :: s.record }
  := by
  obtain ⟨⟨a, ha, hlive⟩, hpending⟩ := openUdpSession_eq_true hopened
  obtain ⟨time, hwaiting, hle⟩ := hs.waiting src a ha
  constructor
  · intro k b hb
    exact hs.deadline k b (lookup_openUdpSession hb)
  · intro k b hb
    obtain ⟨time', hwaiting', hle'⟩ := hs.waiting k b (lookup_openUdpSession hb)
    refine ⟨time', hwaiting'.cons ?_, hle'⟩
    -- the source of the new session waits no longer
    intro t heq
    obtain ⟨rfl, -⟩ := AdmissionEvent.opened.inj heq
    dsimp only at hb
    rw [hpending, AList.lookup_erase] at hb
    simp at hb
  · intro k t earlier h
    rw [List.suffix_cons_iff] at h
    obtain heq | h := h
    · obtain ⟨hevent, rfl⟩ := List.cons.inj heq
      obtain ⟨rfl, rfl⟩ := AdmissionEvent.opened.inj hevent
      exact ⟨time, hwaiting.echoed, Nat.lt_of_lt_of_le hlive hle⟩
    · exact hs.opened k t earlier h
  · intro k t₁ t₂ l₁ l₂ h
    rw [List.suffix_cons_iff] at h
    obtain heq | h := h
    · obtain ⟨heq, hrecord⟩ := List.cons.inj heq
      obtain ⟨rfl, rfl⟩ := AdmissionEvent.opened.inj heq
      rw [← hrecord] at hwaiting
      exact hwaiting.admitted_of_opened
    · exact hs.again k t₁ t₂ l₁ l₂ h
  · intro k t earlier h
    obtain ⟨heq, -⟩ := List.cons.inj h
    obtain ⟨rfl, -⟩ := AdmissionEvent.opened.inj heq
    exact hpending ▸ AList.lookup_erase _ _
  · exact size_openUdpSession_le.trans hs.pending_le
  · exact (Table.size_insert_le _ _ _).trans (of_decide_eq_true hfew)

theorem routeDatagram (hs : s.Guarded) (src : SocketAddr) (packet : List UInt8) (now later : ℕ)
    (permit : Bool) :
  (s.routeDatagram src packet now later permit).Guarded
  := by
  rw [UdpControl.routeDatagram]
  split
  · rename_i last hlast
    refine hs.of_record rfl rfl (fun _ _ h => h) hs.pending_le ?_
    dsimp only
    rw [Table.size_insert_of_lookup hlast]
    exact hs.sessions_le
  · split
    · rename_i hnew
      dsimp only
      split
      · rename_i hopened
        exact hs.open_session hnew.2 hopened
      · exact hs.of_record rfl rfl (fun _ _ h => lookup_openUdpSession h)
          (size_openUdpSession_le.trans hs.pending_le) hs.sessions_le
    · exact hs

theorem sweep (hs : s.Guarded) (now : ℕ) (idle : List SocketAddr) :
  (s.sweep now idle).Guarded
  := by
  refine hs.of_record rfl rfl ?_ ((Table.size_retain_le _ _).trans hs.pending_le)
    ((Table.size_retain_le _ _).trans hs.sessions_le)
  intro src a ha
  exact ((Table.lookup_retain _ _ _ _).mp ha).1

theorem step (hs : s.Guarded) {input : UdpInput} (hforged : s.Unforged input) :
  (s.step input).Guarded
  := by
  cases input with
  | sweep now idle => exact hs.sweep now idle
  | datagram src packet now later permit =>
      rw [UdpControl.step]
      cases packet with
      | nil => exact hs.routeDatagram src [] now later permit
      | cons c body =>
          rw [receive]
          split
          · exact hs.hello src now
          · split
            · rename_i hc
              exact hs.admitSource (hforged hc)
            · exact hs.routeDatagram src (c :: body) now later permit

end Guarded

theorem guarded_of_run {jar : CookieJar} {inputs : List UdpInput} {s : UdpControl}
    (hrun : Run Step (boot jar) inputs s) :
  s.Guarded
  := by
  apply hrun.invariant (guarded_boot jar)
  rintro s input t hs ⟨hforged, rfl⟩
  exact hs.step hforged

/-! ### What one input does to the waiting sources -/

/-- A deadline moves only to that of a challenge that was issued later. -/
theorem Guarded.newer_of_extended {s : UdpControl} (hs : s.Guarded) {input : UdpInput}
    {src : SocketAddr} {a a' : PendingUdpAdmission} (ha : s.pending.lookup src = some a)
    (ha' : (s.step input).pending.lookup src = some a') (hlt : a.expires < a'.expires) :
  ∃ body now later permit, input = .datagram src (classAdmit :: body) now later permit
    ∧ s.jar.verify now src body = some (a'.issued, a'.issued * nanosPerMilli)
    ∧ a.issued < a'.issued
  := by
  have hsame : s.pending.lookup src = some a' → False := by
    intro h
    rw [ha] at h
    rw [Option.some.inj h] at hlt
    exact Nat.lt_irrefl _ hlt
  cases input with
  | sweep now idle => exact (hsame ((Table.lookup_retain _ _ _ _).mp ha').1).elim
  | datagram k packet now later permit =>
      have hroute : (s.routeDatagram k packet now later permit).pending.lookup src = some a' →
          False := by
        intro h
        rw [UdpControl.routeDatagram] at h
        split at h
        · exact hsame h
        · split at h
          · dsimp only at h
            split at h
            · exact hsame (lookup_openUdpSession h)
            · exact hsame (lookup_openUdpSession h)
          · exact hsame h
      rw [UdpControl.step] at ha'
      cases packet with
      | nil => exact (hroute ha').elim
      | cons c body =>
          rw [receive] at ha'
          split at ha'
          · exact (hsame ha').elim
          · split at ha'
            · rename_i hc
              subst hc
              rw [UdpControl.admitSource] at ha'
              split at ha'
              · obtain hold | ⟨rfl, -, hdeadline, hverify⟩ := lookup_admitUdpSource ha'
                · exact (hsame hold).elim
                · refine ⟨body, now, later, permit, rfl, hverify, ?_⟩
                  -- the deadlines are in the order of the time stamps
                  rw [hs.deadline src a ha, hdeadline] at hlt
                  exact Nat.lt_of_mul_lt_mul_right (Nat.lt_of_add_lt_add_right hlt)
              · exact (hsame ha').elim
            · exact (hroute ha').elim

/-- A datagram of one source leaves the entry of another in place until it expires. -/
theorem lookup_receive_ne {s : UdpControl} {k src : SocketAddr} {packet : List UInt8}
    {now later : ℕ} {permit : Bool} {a : PendingUdpAdmission} (hne : src ≠ k)
    (ha : s.pending.lookup src = some a) (hlive : later < a.expires) :
  (s.receive k packet now later permit).pending.lookup src = some a
  := by
  have hroute : (s.routeDatagram k packet now later permit).pending.lookup src = some a := by
    rw [UdpControl.routeDatagram]
    split
    · exact ha
    · split
      · dsimp only
        split
        · exact lookup_openUdpSession_ne hne ha
        · exact lookup_openUdpSession_ne hne ha
      · exact ha
  cases packet with
  | nil => exact hroute
  | cons c body =>
      rw [receive]
      split
      · exact ha
      · split
        · rw [UdpControl.admitSource]
          split
          · exact lookup_admitUdpSource_ne hne ha hlive
          · exact ha
        · exact hroute

/-- A jar whose hash keeps what it is given: the end of the time stamp, the address and the
port. -/
private def plainJar : CookieJar where
  mac input := ⟨(input ++ List.replicate 16 0).take 16, by simp⟩

private def visitor : SocketAddr := .v4 ⟨0xC0000207⟩ 4000

private def helloFrom (now : ℕ) : UdpInput :=
  .datagram visitor (classHello :: List.replicate 24 0) now now true

private def admitFrom (issued now : ℕ) : UdpInput :=
  .datagram visitor (classAdmit :: plainJar.cookie (stamp issued) visitor) now now true

private def firstPacket (now : ℕ) : UdpInput :=
  .datagram visitor (classKcp :: List.replicate 24 0) now now true

end UdpControl

end ZeroNat

import ZeroNat.Pppoe.Ppp.Link
import ZeroNat.Pppoe.Ppp.Negotiation

/-!
# The phases of a link

What the phase of a link says about the negotiations of LCP and IPCP, and what a payload, a tick
and a poll do to it.
-/

namespace ZeroNat.Pppoe.Ppp

/-- The protocol of a payload. -/
def protocolOf (pkt : List UInt8) : Option ProtocolType :=
  (getRange pkt 0 2).map fun proto => ProtocolType.ofU16 (u16OfBe proto)

namespace PPP

variable {l : PPP}

/-- Nothing has been opened yet. -/
structure Idle (l : PPP) : Prop where
  phase : l.phase = .dead
  lcp : l.lcp.Down
  lcp_failed : l.lcp.failed = false
  ipv4cp : l.ipv4cp.Down
  ipv4cp_failed : l.ipv4cp.failed = false

/-- What the phase says of the negotiations, between two calls. -/
def Sane (l : PPP) : Prop :=
  l.opening = false ∧ match l.phase with
    | .dead => True
    | .establish => l.lcp.Fresh ∧ l.ipv4cp.Down ∧ l.ipv4cp.failed = false
    | .auth => l.lcp.Up ∧ l.ipv4cp.Down ∧ l.ipv4cp.failed = false
    | .network => l.lcp.Up ∧ l.ipv4cp.Fresh ∧ l.ipv4cp.failed = false
    | .opened => l.lcp.Up ∧ (l.ipv4cp.Up ∨ l.ipv4cp.Down) ∧ l.ipv4cp.failed = false

/-- What the phase says when a payload or a tick has been handled and the link has not been
polled since. -/
def Stirred (l : PPP) : Prop :=
  l.opening = false ∧ match l.phase with
    | .dead => True
    | .establish =>
      (l.lcp.Fresh ∨ l.lcp.state = .opened ∧ l.lcp.Up ∨ l.lcp.Down ∧ l.lcp.failed = true)
        ∧ l.ipv4cp.Down ∧ l.ipv4cp.failed = false
    | .auth => (l.lcp.Up ∨ l.lcp.Down) ∧ l.ipv4cp.Down ∧ l.ipv4cp.failed = false
    | .network =>
      (l.lcp.Up ∨ l.lcp.Down)
        ∧ (l.ipv4cp.Fresh ∧ l.ipv4cp.failed = false
          ∨ l.ipv4cp.state = .opened ∧ l.ipv4cp.Up ∧ l.ipv4cp.failed = false
          ∨ l.ipv4cp.Down ∧ l.ipv4cp.failed = true)
    | .opened =>
      (l.lcp.Up ∨ l.lcp.Down) ∧ (l.ipv4cp.Up ∨ l.ipv4cp.Down) ∧ l.ipv4cp.failed = false

/-! ### Polling -/

/-- The end of a poll: the link dies when LCP is closed or IPCP has failed. -/
def settle (l : PPP) : PPP :=
  if (l.lcp.state = .closed ∧ l.opening = false) ∨ l.ipv4cp.failed = true then
    { l with phase := .dead }
  else l

theorem poll_eq (l : PPP) :
  l.poll.2 = l.pollPhase.2.settle
  := rfl

theorem settle_down (hopening : l.opening = false) (h : l.lcp.Down) :
  l.settle = { l with phase := .dead }
  := by
  rw [settle, if_pos (.inl ⟨h.1, hopening⟩)]

theorem settle_failed (h : l.ipv4cp.failed = true) :
  l.settle = { l with phase := .dead }
  := by
  rw [settle, if_pos (.inr h)]

theorem settle_live (hlcp : l.lcp.state ≠ .closed) (h : l.ipv4cp.failed = false) :
  l.settle = l
  := by
  rw [settle, if_neg]
  simp [hlcp, h]

theorem sane_dead (hopening : l.opening = false) :
  Sane { l with phase := .dead }
  := ⟨hopening, trivial⟩

theorem poll_dead (h : l.phase = .dead) :
  l.poll.2 = l
  := by
  have hpoll : l.pollPhase.2 = l := by simp [pollPhase, h]
  rw [poll_eq, hpoll, settle]
  split
  · rw [← h]
  · rfl

theorem poll_opened (h : l.phase = .opened) :
  l.poll.2 = l.settle
  := by
  have hpoll : l.pollPhase.2 = l := by simp [pollPhase, h]
  rw [poll_eq, hpoll]

/-- While LCP negotiates, the link is not authenticated and has no network. -/
theorem poll_establish (hphase : l.phase = .establish) (hlcp : l.lcp.Fresh)
    (hip : l.ipv4cp.Down) (hfail : l.ipv4cp.failed = false) :
  ∃ pap, l.poll.2 = { l with pap }
  := by
  have hpoll : ∃ pap, l.pollPhase.2 = { l with pap } := by
    by_cases hpap : l.pap.state = .closed
    · have heq : l.pollPhase.2 = l := by
        simp [pollPhase, hphase, pollEstablish, hlcp.1.1, hlcp.1.2, hip.1, hpap]
      exact ⟨l.pap, heq⟩
    · exact ⟨l.pap.close,
        by simp [pollPhase, hphase, pollEstablish, hlcp.1.1, hlcp.1.2, hip.1, hpap]⟩
  obtain ⟨pap, hpap⟩ := hpoll
  refine ⟨pap, ?_⟩
  rw [poll_eq, hpap]
  exact settle_live hlcp.1.1 hfail

/-- LCP gave up. -/
theorem poll_establish_down (hphase : l.phase = .establish) (hopening : l.opening = false)
    (hlcp : l.lcp.Down) (hfailed : l.lcp.failed = true) (hip : l.ipv4cp.Down) :
  ∃ pap, l.poll.2 = { l with pap, phase := .dead }
  := by
  have hpoll : ∃ pap, l.pollPhase.2 = { l with pap } := by
    by_cases hpap : l.pap.state = .closed
    · have heq : l.pollPhase.2 = l := by
        simp [pollPhase, hphase, pollEstablish, hlcp.1, hfailed, hip.1, hpap]
      exact ⟨l.pap, heq⟩
    · exact ⟨l.pap.close,
        by simp [pollPhase, hphase, pollEstablish, hlcp.1, hfailed, hip.1, hpap]⟩
  obtain ⟨pap, hpap⟩ := hpoll
  refine ⟨pap, ?_⟩
  rw [poll_eq, hpap]
  exact settle_down hopening hlcp

/-- LCP is open: the link is authenticated next, or goes on to the network at once. -/
theorem poll_establish_opened (hphase : l.phase = .establish) (hlcp : l.lcp.state = .opened)
    (hip : l.ipv4cp.Down) (hfail : l.ipv4cp.failed = false) :
  (∃ pap, l.poll.2 = { l with pap, phase := .auth })
    ∨ l.poll.2 = { l with ipv4cp := l.ipv4cp.openFsm.2, phase := .network }
  := by
  have hclosed : l.lcp.state ≠ .closed := by simp [hlcp]
  cases hauth : l.lcp.proto.auth with
  | none =>
      right
      have hpoll : l.pollPhase.2 = { l with ipv4cp := l.ipv4cp.openFsm.2, phase := .network } := by
        simp [pollPhase, hphase, pollEstablish, hlcp, hauth]
      rw [poll_eq, hpoll]
      exact settle_live hclosed (OptionFsm.fresh_openFsm hip).2
  | pap =>
      left
      have hpoll : l.pollPhase.2 = { l with pap := l.pap.openPap.2, phase := .auth } := by
        simp [pollPhase, hphase, pollEstablish, hlcp, hauth]
      refine ⟨l.pap.openPap.2, ?_⟩
      rw [poll_eq, hpoll]
      exact settle_live hclosed hfail
  | chapMd5 =>
      left
      have hpoll : l.pollPhase.2 = { l with phase := .auth } := by
        simp [pollPhase, hphase, pollEstablish, hlcp, hauth]
      refine ⟨l.pap, ?_⟩
      rw [poll_eq, hpoll]
      exact settle_live hclosed hfail

/-- We have authenticated. -/
def Authenticated (l : PPP) : Prop :=
  l.chap.isSuccess = true ∨ l.pap.state = .opened

instance : Decidable l.Authenticated :=
  inferInstanceAs (Decidable (_ ∨ _))

theorem poll_auth (hphase : l.phase = .auth) (hauth : ¬ l.Authenticated) (hip : l.ipv4cp.Down) :
  l.poll.2 = l.settle
  := by
  have hpoll : l.pollPhase.2 = l := by
    rw [Authenticated] at hauth
    simp [pollPhase, hphase, pollAuth, hauth, hip.1]
  rw [poll_eq, hpoll]

theorem poll_auth_done (hphase : l.phase = .auth) (hauth : l.Authenticated) :
  l.poll.2 = settle { l with ipv4cp := l.ipv4cp.openFsm.2, phase := .network }
  := by
  have hpoll : l.pollPhase.2 = { l with ipv4cp := l.ipv4cp.openFsm.2, phase := .network } := by
    rw [Authenticated] at hauth
    simp [pollPhase, hphase, pollAuth, hauth]
  rw [poll_eq, hpoll]

theorem poll_network (hphase : l.phase = .network) (hip : l.ipv4cp.state ≠ .opened) :
  l.poll.2 = l.settle
  := by
  have hpoll : l.pollPhase.2 = l := by simp [pollPhase, hphase, hip]
  rw [poll_eq, hpoll]

theorem poll_network_opened (hphase : l.phase = .network) (hip : l.ipv4cp.state = .opened) :
  l.poll.2 = settle { l with phase := .opened }
  := by
  have hpoll : l.pollPhase.2 = { l with phase := .opened } := by simp [pollPhase, hphase, hip]
  rw [poll_eq, hpoll]

/-- A link that is to end dies, and any other is as its phase says. -/
theorem sane_settle (hopening : l.opening = false) (hlcp : l.lcp.Up ∨ l.lcp.Down)
    (hsane : l.lcp.Up → l.ipv4cp.failed = false → l.Sane) :
  l.settle.Sane
  := by
  obtain hup | hdown := hlcp
  · cases hfail : l.ipv4cp.failed with
    | false =>
        rw [settle_live hup.1 hfail]
        exact hsane hup hfail
    | true =>
        rw [settle_failed hfail]
        exact sane_dead hopening
  · rw [settle_down hopening hdown]
    exact sane_dead hopening

theorem sane_poll (h : l.Stirred) :
  l.poll.2.Sane
  := by
  obtain ⟨hopening, h⟩ := h
  cases hphase : l.phase <;> simp only [hphase] at h
  case dead =>
    rw [poll_dead hphase]
    exact ⟨hopening, by simp only [hphase]⟩
  case establish =>
    obtain ⟨hfresh | ⟨hopen, hup⟩ | ⟨hdown, hfailed⟩, hip, hfail⟩ := h
    · obtain ⟨pap, heq⟩ := poll_establish hphase hfresh hip hfail
      rw [heq]
      simp only [Sane, hphase]
      exact ⟨hopening, hfresh, hip, hfail⟩
    · obtain ⟨pap, heq⟩ | heq := poll_establish_opened hphase hopen hip hfail
      · rw [heq]
        exact ⟨hopening, hup, hip, hfail⟩
      · rw [heq]
        exact ⟨hopening, hup, OptionFsm.fresh_openFsm hip⟩
    · obtain ⟨pap, heq⟩ := poll_establish_down hphase hopening hdown hfailed hip
      rw [heq]
      exact ⟨hopening, trivial⟩
  case auth =>
    obtain ⟨hlcp, hip, hfail⟩ := h
    by_cases hauth : l.Authenticated
    · rw [poll_auth_done hphase hauth]
      apply sane_settle (l := { l with ipv4cp := l.ipv4cp.openFsm.2, phase := .network })
        hopening hlcp
      intro hup _
      exact ⟨hopening, hup, OptionFsm.fresh_openFsm hip⟩
    · rw [poll_auth hphase hauth hip]
      apply sane_settle hopening hlcp
      intro hup _
      simp only [Sane, hphase]
      exact ⟨hopening, hup, hip, hfail⟩
  case network =>
    obtain ⟨hlcp, hip⟩ := h
    by_cases hopen : l.ipv4cp.state = .opened
    · rw [poll_network_opened hphase hopen]
      apply sane_settle (l := { l with phase := .opened }) hopening hlcp
      intro hup hfail
      obtain ⟨hfresh, _⟩ | ⟨_, hipup, _⟩ | ⟨hdown, _⟩ := hip
      · exact absurd hopen hfresh.1.2
      · exact ⟨hopening, hup, .inl hipup, hfail⟩
      · exact ⟨hopening, hup, .inr hdown, hfail⟩
    · rw [poll_network hphase hopen]
      apply sane_settle hopening hlcp
      intro hup hfail
      simp only [Sane, hphase]
      obtain ⟨hfresh, _⟩ | ⟨hopen', _⟩ | ⟨_, hfailed⟩ := hip
      · exact ⟨hopening, hup, hfresh, hfail⟩
      · exact absurd hopen' hopen
      · simp [hfail] at hfailed
  case opened =>
    obtain ⟨hlcp, hip, hfail⟩ := h
    rw [poll_opened hphase]
    apply sane_settle hopening hlcp
    intro hup _
    simp only [Sane, hphase]
    exact ⟨hopening, hup, hip, hfail⟩

/-! ### Payloads and ticks -/

variable {md5 : Digest} {pkt : List UInt8}

/-- What a payload can do to a link. -/
inductive Received (l : PPP) (pkt : List UInt8) : PPP → Prop where
  | lcp {seen : Bool} : protocolOf pkt = some .lcp →
      Received l pkt { l with lcp := (l.lcp.handle pkt).2, echoReplySeen := seen }
  | ipv4cp : protocolOf pkt = some .ipv4cp →
      Received l pkt { l with ipv4cp := (l.ipv4cp.handle pkt).2 }
  | kept : protocolOf pkt ≠ some .lcp → protocolOf pkt ≠ some .ipv4cp → Received l pkt l
  | pap {p : Pap} : protocolOf pkt = some .pap → Received l pkt { l with pap := p }
  | chap {c : Chap} : protocolOf pkt = some .chap → Received l pkt { l with chap := c }
  | unknown : protocolOf pkt = some .unknown → Received l pkt { l with lcp := l.lcp.nextId }

theorem received_received (md5 : Digest) (l : PPP) (pkt : List UInt8) :
  Received l pkt (l.received md5 pkt).2.2
  := by
  rw [received]
  split
  · rename_i hrange
    have hproto : protocolOf pkt = none := by rw [protocolOf, hrange, Option.map_none]
    exact Received.kept (by simp [hproto]) (by simp [hproto])
  · rename_i proto hrange
    have hproto : protocolOf pkt = some (ProtocolType.ofU16 (u16OfBe proto)) := by
      rw [protocolOf, hrange, Option.map_some]
    split <;> rename_i htype <;> rw [htype] at hproto
    · exact Received.lcp hproto
    · exact Received.pap hproto
    · exact Received.chap hproto
    · exact Received.kept (by simp [hproto]) (by simp [hproto])
    · exact Received.ipv4cp hproto
    · exact Received.unknown hproto

/-- A link between two calls may be polled again. -/
theorem Sane.stirred (h : l.Sane) :
  l.Stirred
  := by
  obtain ⟨hopening, h⟩ := h
  refine ⟨hopening, ?_⟩
  cases hphase : l.phase <;> simp only [hphase] at h ⊢
  case establish => exact ⟨.inl h.1, h.2⟩
  case auth => exact ⟨.inl h.1, h.2⟩
  case network => exact ⟨.inl h.1, .inl h.2⟩
  case opened => exact ⟨.inl h.1, h.2⟩

theorem stirred_received {l' : PPP} (h : l.Sane) (hrec : Received l pkt l') :
  l'.Stirred
  := by
  cases hrec with
  | kept => exact h.stirred
  | pap => exact h.stirred
  | chap => exact h.stirred
  | unknown => exact h.stirred
  | lcp =>
      obtain ⟨hopening, h⟩ := h
      refine ⟨hopening, ?_⟩
      have hh := l.lcp.handle_handled pkt
      cases hphase : l.phase <;> simp only [hphase] at h ⊢
      case establish =>
        refine ⟨?_, h.2⟩
        obtain hfresh | hopen := hh.fresh_or_opened h.1
        · exact .inl hfresh
        · exact .inr (.inl hopen)
      case auth => exact ⟨hh.up_or_down h.1, h.2⟩
      case network => exact ⟨hh.up_or_down h.1, .inl h.2⟩
      case opened => exact ⟨hh.up_or_down h.1, h.2⟩
  | ipv4cp =>
      obtain ⟨hopening, h⟩ := h
      refine ⟨hopening, ?_⟩
      have hh := l.ipv4cp.handle_handled pkt
      cases hphase : l.phase <;> simp only [hphase] at h ⊢
      case establish =>
        rw [hh.eq_of_closed h.2.1.1]
        exact ⟨.inl h.1, h.2⟩
      case auth =>
        rw [hh.eq_of_closed h.2.1.1]
        exact ⟨.inl h.1, h.2⟩
      case network =>
        refine ⟨.inl h.1, ?_⟩
        rw [hh.failed_eq]
        obtain hfresh | hopen := hh.fresh_or_opened h.2.1
        · exact .inl ⟨hfresh, h.2.2⟩
        · exact .inr (.inl ⟨hopen.1, hopen.2, h.2.2⟩)
      case opened =>
        refine ⟨.inl h.1, ?_, hh.failed_eq.trans h.2.2⟩
        obtain hup | hdown := h.2.1
        · exact hh.up_or_down hup
        · rw [hh.eq_of_closed hdown.1]
          exact .inr hdown

theorem stirred_tick (h : l.Sane) :
  l.tick.2.Stirred
  := by
  obtain ⟨hopening, h⟩ := h
  refine ⟨hopening, ?_⟩
  have hl := l.lcp.onTick_ticked
  have hi := l.ipv4cp.onTick_ticked
  have hphase' : l.tick.2.phase = l.phase := rfl
  have hlcp : l.tick.2.lcp = l.lcp.onTick.2 := rfl
  have hip : l.tick.2.ipv4cp = l.ipv4cp.onTick.2 := rfl
  rw [hphase', hlcp, hip]
  cases hphase : l.phase <;> simp only [hphase] at h ⊢
  case establish =>
    rw [hi.eq_of_closed h.2.1.1]
    refine ⟨?_, h.2⟩
    obtain hfresh | hdown := hl.fresh h.1
    · exact .inl hfresh.1
    · exact .inr (.inr hdown)
  case auth =>
    rw [hi.eq_of_closed h.2.1.1]
    exact ⟨.inl (hl.up h.1).1, h.2⟩
  case network =>
    refine ⟨.inl (hl.up h.1).1, ?_⟩
    obtain ⟨hfresh, hfailed, _⟩ | hdown := hi.fresh h.2.1
    · exact .inl ⟨hfresh, hfailed.trans h.2.2⟩
    · exact .inr (.inr hdown)
  case opened =>
    refine ⟨.inl (hl.up h.1).1, ?_⟩
    obtain hup | hdown := h.2.1
    · exact ⟨.inl (hi.up hup).1, (hi.up hup).2.trans h.2.2⟩
    · rw [hi.eq_of_closed hdown.1]
      exact ⟨.inr hdown, h.2.2⟩

end PPP

end ZeroNat.Pppoe.Ppp

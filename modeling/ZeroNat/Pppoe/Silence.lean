import ZeroNat.Pppoe.Operation

/-!
# Silence

What the timer does when nothing arrives.  Discovery, the negotiations and the echoes all give up
after a while, and the link is dialed again.  Authentication has no timer, and neither has a link
that is open without an address.
-/

namespace ZeroNat.Pppoe

open Ppp Ppp.Observed

namespace Discovery

variable {d d' : Discovery} {a : Action}

/-- How many ticks discovery can last without an answer. -/
def patience (d : Discovery) : ℕ :=
  (d.retransmitTicks + 1) * (d.maxAttempts - d.attempts) + (d.retransmitTicks - d.ticksSinceSend)

theorem patience_le (d : Discovery) :
  d.patience ≤ (d.retransmitTicks + 1) * d.maxAttempts + d.retransmitTicks
  := by
  apply Nat.add_le_add
  · exact Nat.mul_le_mul_left _ (Nat.sub_le _ _)
  · exact Nat.sub_le _ _

theorem onTick_of_not_waiting (h : ¬ d.Waiting) :
  d.onTick = (.idle, d)
  := by
  rw [onTick]
  split
  · rename_i hstate
    exact absurd (.inl hstate) h
  · rename_i hstate
    exact absurd (.inr hstate) h
  all_goals rfl

/-- The three things that a tick does while a frame of ours is unanswered. -/
theorem Waiting.onTick_cases (h : d.Waiting) :
  d.ticksSinceSend + 1 < d.retransmitTicks
      ∧ d.onTick = (.idle, { d with ticksSinceSend := d.ticksSinceSend + 1 })
    ∨ d.onTick = (.failed, { d with state := .dead, ticksSinceSend := d.ticksSinceSend + 1 })
    ∨ d.attempts + 1 < d.maxAttempts
      ∧ ∃ bytes, d.onTick
        = (.send bytes, { d with attempts := d.attempts + 1, ticksSinceSend := 0 })
  := by
  have hon : d.onTick = d.onWaitingTick := by
    obtain hstate | hstate := h
    · rw [onTick, hstate]
    · rw [onTick, hstate]
  rw [hon, onWaitingTick]
  dsimp only
  split
  · rename_i hticks
    exact .inl ⟨hticks, rfl⟩
  · split
    · exact .inr (.inl rfl)
    · rename_i hatt
      exact .inr (.inr ⟨not_le.mp hatt, _, rfl⟩)

/-- To send again takes an attempt. -/
theorem patience_resent (h : d.attempts + 1 < d.maxAttempts) :
  patience { d with attempts := d.attempts + 1, ticksSinceSend := 0 } < d.patience
  := by
  obtain ⟨k, hk⟩ : ∃ k, d.maxAttempts - d.attempts = k + 1 :=
    ⟨d.maxAttempts - d.attempts - 1, by omega⟩
  have hk' : d.maxAttempts - (d.attempts + 1) = k := by omega
  simp only [patience, hk, hk', Nat.mul_succ]
  omega

theorem patience_waited (h : d.ticksSinceSend + 1 < d.retransmitTicks) :
  patience { d with ticksSinceSend := d.ticksSinceSend + 1 } < d.patience
  := by
  simp only [patience]
  omega

end Discovery

namespace Ppp.PPP

variable {l : PPP}

theorem tick_eq (l : PPP) :
  l.tick.2 = { l with lcp := l.lcp.onTick.2, ipv4cp := l.ipv4cp.onTick.2 }
  := rfl

theorem echoReplySeen_poll (l : PPP) :
  l.poll.2.echoReplySeen = l.echoReplySeen
  := by
  have hphase : l.pollPhase.2.echoReplySeen = l.echoReplySeen := by
    simp only [pollPhase, pollEstablish, pollAuth]
    repeat' split
    all_goals rfl
  rw [poll_eq, settle]
  split <;> exact hphase

theorem tick_poll_dead (h : l.phase = .dead) :
  l.tick.2.poll.2.phase = .dead
  := by
  rw [poll_dead (l := l.tick.2) h]
  exact h

/-- LCP has less patience after a tick, or the link is dead. -/
theorem Sane.tick_poll_establish (h : l.Sane) (hphase : l.phase = .establish) :
  l.tick.2.poll.2.phase = .establish ∧ l.tick.2.poll.2.lcp.patience < l.lcp.patience
    ∨ l.tick.2.poll.2.phase = .dead
  := by
  obtain ⟨hopening, h⟩ := h
  simp only [hphase] at h
  obtain ⟨hlcp, hip, hfail⟩ := h
  have hip' := l.ipv4cp.onTick_ticked.eq_of_closed hip.1
  have htick : l.tick.2 = { l with lcp := l.lcp.onTick.2 } := by rw [tick_eq, hip']
  rw [htick]
  obtain ⟨hfresh, _, hlt⟩ | ⟨hdown, hfailed⟩ := l.lcp.onTick_ticked.fresh hlcp
  · obtain ⟨pap, hpoll⟩ := poll_establish (l := { l with lcp := l.lcp.onTick.2 }) hphase hfresh hip
      hfail
    rw [hpoll]
    exact .inl ⟨hphase, hlt⟩
  · obtain ⟨pap, hpoll⟩ := poll_establish_down (l := { l with lcp := l.lcp.onTick.2 }) hphase
      hopening hdown hfailed hip
    rw [hpoll]
    exact .inr rfl

/-- Nothing happens until we have authenticated. -/
theorem Sane.tick_poll_auth (h : l.Sane) (hphase : l.phase = .auth) (hauth : ¬ l.Authenticated) :
  l.tick.2.poll.2.phase = .auth ∧ ¬ l.tick.2.poll.2.Authenticated
  := by
  obtain ⟨hopening, h⟩ := h
  simp only [hphase] at h
  obtain ⟨hlcp, hip, hfail⟩ := h
  have hip' := l.ipv4cp.onTick_ticked.eq_of_closed hip.1
  have hlcp' := (l.lcp.onTick_ticked.up hlcp).1
  have htick : l.tick.2 = { l with lcp := l.lcp.onTick.2 } := by rw [tick_eq, hip']
  have hsettle : settle { l with lcp := l.lcp.onTick.2 } = { l with lcp := l.lcp.onTick.2 } :=
    settle_live hlcp'.1 hfail
  rw [htick, poll_auth (l := { l with lcp := l.lcp.onTick.2 }) hphase hauth hip, hsettle]
  exact ⟨hphase, hauth⟩

theorem Sane.tick_poll_auth_done (h : l.Sane) (hphase : l.phase = .auth)
    (hauth : l.Authenticated) :
  l.tick.2.poll.2.phase = .network
  := by
  obtain ⟨hopening, h⟩ := h
  simp only [hphase] at h
  obtain ⟨hlcp, hip, hfail⟩ := h
  have hip' := l.ipv4cp.onTick_ticked.eq_of_closed hip.1
  have hlcp' := (l.lcp.onTick_ticked.up hlcp).1
  have htick : l.tick.2 = { l with lcp := l.lcp.onTick.2 } := by rw [tick_eq, hip']
  have hsettle : settle { l with
        lcp := l.lcp.onTick.2, ipv4cp := l.ipv4cp.openFsm.2, phase := .network }
      = { l with lcp := l.lcp.onTick.2, ipv4cp := l.ipv4cp.openFsm.2, phase := .network } :=
    settle_live hlcp'.1 (OptionFsm.fresh_openFsm hip).2
  rw [htick, poll_auth_done (l := { l with lcp := l.lcp.onTick.2 }) hphase hauth, hsettle]

/-- IPCP has less patience after a tick, or the link is dead. -/
theorem Sane.tick_poll_network (h : l.Sane) (hphase : l.phase = .network) :
  l.tick.2.poll.2.phase = .network ∧ l.tick.2.poll.2.ipv4cp.patience < l.ipv4cp.patience
    ∨ l.tick.2.poll.2.phase = .dead
  := by
  obtain ⟨hopening, h⟩ := h
  simp only [hphase] at h
  obtain ⟨hlcp, hip, hfail⟩ := h
  have hlcp' := (l.lcp.onTick_ticked.up hlcp).1
  have hopened : l.tick.2.ipv4cp.state ≠ .opened := by
    obtain ⟨hfresh, _⟩ | ⟨hdown, _⟩ := l.ipv4cp.onTick_ticked.fresh hip
    · exact hfresh.1.2
    · intro hopen
      exact absurd (hopen.symm.trans hdown.1) (by decide)
  rw [poll_network (l := l.tick.2) hphase hopened]
  obtain ⟨_, hfailed, hlt⟩ | ⟨_, hfailed⟩ := l.ipv4cp.onTick_ticked.fresh hip
  · rw [settle_live (l := l.tick.2) hlcp'.1 (hfailed.trans hfail)]
    exact .inl ⟨hphase, hlt⟩
  · rw [settle_failed (l := l.tick.2) hfailed]
    exact .inr rfl

/-- An open link stays so. -/
theorem Sane.tick_poll_opened (h : l.Sane) (hphase : l.phase = .opened) :
  l.tick.2.poll.2.phase = .opened
  := by
  obtain ⟨hopening, h⟩ := h
  simp only [hphase] at h
  obtain ⟨hlcp, hip, hfail⟩ := h
  have hlcp' := (l.lcp.onTick_ticked.up hlcp).1
  have hfail' : l.tick.2.ipv4cp.failed = false := by
    obtain hup | hdown := hip
    · exact (l.ipv4cp.onTick_ticked.up hup).2.trans hfail
    · rw [tick_eq, l.ipv4cp.onTick_ticked.eq_of_closed hdown.1]
      exact hfail
  rw [poll_opened (l := l.tick.2) hphase, settle_live (l := l.tick.2) hlcp'.1 hfail']
  exact hphase

end Ppp.PPP

namespace Core

variable {c : Core}

/-- The link is down, or discovery has given up: the shell dials again. -/
def Halted (c : Core) : Prop :=
  c.linkDown = true ∨ c.discovery.state = .dead ∧ c.session = none

/-- No timer runs: nothing was dialed, or the session has no configuration and either we have
not authenticated or the link is open. -/
def Stuck (c : Core) : Prop :=
  c.linkDown = false
    ∧ (c.session = none ∧ ¬ c.discovery.Waiting ∧ c.discovery.state ≠ .dead
      ∨ c.session ≠ none ∧ c.established = none
        ∧ (c.link.phase = .auth ∧ ¬ c.link.Authenticated ∨ c.link.phase = .opened))

instance (c : Core) : Decidable c.Stuck :=
  inferInstanceAs (Decidable (_ ∧ (_ ∧ ¬ (_ ∨ _) ∧ _ ∨ _ ∧ _ ∧ (_ ∧ ¬ (_ ∨ _) ∨ _))))

/-- The ticks until the echoes give up.  An answer starts the count again. -/
def echoPatience (c : Core) : ℕ :=
  if c.echoOutstanding = false then echoIntervalTicks * echoDeadThreshold + 1
  else if c.link.echoReplySeen ∨ c.inboundSeen then
    echoIntervalTicks * echoDeadThreshold + (echoIntervalTicks - c.echoTicks)
  else
    echoIntervalTicks * (echoDeadThreshold - 1 - c.echoMisses) + (echoIntervalTicks - c.echoTicks)

/-- The ticks until a link without a configuration gives up. -/
def linkPatience (l : PPP) : ℕ :=
  match l.phase with
  | .dead => 0
  | .establish => l.lcp.patience + 1
  | .auth => (restartTicks + 1) * maxConfigure + restartTicks + 2
  | .network => l.ipv4cp.patience + 1
  | .opened => 0

/-- The ticks until the timer that runs has given up. -/
def patience (c : Core) : ℕ :=
  if c.session = none then c.discovery.patience
  else if c.established = none then linkPatience c.link
  else c.echoPatience

/-- How long silence can last. -/
def deadline (retransmitTicks maxAttempts : ℕ) : ℕ :=
  (retransmitTicks + 1) * (maxAttempts + 1) + (restartTicks + 1) * (maxConfigure + 1)
    + echoIntervalTicks * (echoDeadThreshold + 1) + 2

theorem echoPatience_seen (hout : c.echoOutstanding = true)
    (hseen : c.link.echoReplySeen ∨ c.inboundSeen) :
  c.echoPatience
    = echoIntervalTicks * echoDeadThreshold + (echoIntervalTicks - c.echoTicks)
  := by
  rw [echoPatience, hout, if_neg (by decide), if_pos hseen]

theorem echoPatience_silent (hout : c.echoOutstanding = true)
    (hseen : ¬ (c.link.echoReplySeen ∨ c.inboundSeen)) :
  c.echoPatience
    = echoIntervalTicks * (echoDeadThreshold - 1 - c.echoMisses)
      + (echoIntervalTicks - c.echoTicks)
  := by
  rw [echoPatience, hout, if_neg (by decide), if_neg hseen]

/-- Just after an interval has been counted. -/
theorem echoPatience_scored (hout : c.echoOutstanding = true)
    (hreply : c.link.echoReplySeen = false) (hseen : c.inboundSeen = false)
    (hticks : c.echoTicks = 0) :
  c.echoPatience
    = echoIntervalTicks * (echoDeadThreshold - 1 - c.echoMisses) + echoIntervalTicks
  := by
  rw [echoPatience_silent hout (by simp [hreply, hseen]), hticks, Nat.sub_zero]

theorem echoPatience_le (c : Core) :
  c.echoPatience ≤ echoIntervalTicks * (echoDeadThreshold + 1)
  := by
  rw [echoPatience]
  simp only [echoIntervalTicks, echoDeadThreshold]
  split
  · omega
  · split <;> omega

theorem linkPatience_le (l : PPP) :
  linkPatience l ≤ (restartTicks + 1) * (maxConfigure + 1) + 1
  := by
  have hlcp := l.lcp.patience_le
  have hip := l.ipv4cp.patience_le
  rw [linkPatience]
  simp only [restartTicks, maxConfigure] at hlcp hip ⊢
  split <;> omega

theorem Sound.patience_lt (h : c.Sound) :
  c.patience < deadline c.dial.retransmitTicks c.dial.maxAttempts
  := by
  have hdisc := c.discovery.patience_le
  rw [h.retransmitTicks, h.maxAttempts] at hdisc
  have hlink := linkPatience_le c.link
  have hecho := c.echoPatience_le
  rw [patience, deadline, Nat.mul_succ]
  split
  · omega
  · split <;> omega

/-! ### One tick -/

/-- Without a session, only discovery takes notice of a tick. -/
theorem tick_of_idle (c₁ : Core)
    (h : discovered { c with discovery := c.discovery.onTick.2 } c.discovery.onTick.1 = c₁)
    (hsession : c₁.session = none) (hlink : c₁.link.Idle) (hest : c₁.established = none) :
  c.tick = c₁
  := by
  have hdown : (c₁.linkDown || (c₁.session.isSome && decide (c₁.link.phase = Phase.dead)))
      = c₁.linkDown := by
    simp [hsession]
  rw [tick, h]
  dsimp only
  rw [hlink.tick_poll, hdown, liveness, if_pos (.inl hest)]

/-- With a session, discovery takes no notice of a tick. -/
theorem Sound.tick_eq (h : c.Sound) (hsession : c.session ≠ none) :
  c.tick = Core.liveness { c with
    link := c.link.tick.2.poll.2
    linkDown := c.linkDown || decide (c.link.tick.2.poll.2.phase = Phase.dead) }
  := by
  have hwait : ¬ c.discovery.Waiting := fun hw => hsession (h.searching (.inr hw))
  have hsome : c.session.isSome = true := Option.isSome_iff_ne_none.mpr hsession
  rw [Core.tick, Discovery.onTick_of_not_waiting hwait]
  simp only [Core.discovered, hsome, Bool.true_and]
  rfl

theorem Sound.tick_waiting (h : c.Sound) (hwait : c.discovery.Waiting) :
  c.tick.Halted ∨ ¬ c.tick.Stuck ∧ c.tick.patience < c.patience
  := by
  have hsession := h.searching (.inr hwait)
  obtain ⟨hidle, hest⟩ := h.idle hsession
  -- discovery goes on waiting, or it is dead
  have hon : ∀ disc : Discovery, disc.Waiting → disc.patience < c.discovery.patience →
      c.tick = { c with discovery := disc } →
      c.tick.Halted ∨ ¬ c.tick.Stuck ∧ c.tick.patience < c.patience := by
    intro disc hw hlt htick
    rw [htick]
    right
    constructor
    · rintro ⟨_, ⟨_, hno, _⟩ | ⟨hsome, _⟩⟩
      · exact hno hw
      · exact hsome hsession
    · simpa [patience, hsession] using hlt
  obtain ⟨hticks, hr⟩ | hr | ⟨hatt, bytes, hr⟩ := hwait.onTick_cases
  · apply hon { c.discovery with ticksSinceSend := c.discovery.ticksSinceSend + 1 } hwait
      (Discovery.patience_waited hticks)
    refine tick_of_idle _ ?_ hsession hidle hest
    rw [hr]
    rfl
  · left
    have htick : c.tick = { c with
        discovery := { c.discovery with
          state := .dead, ticksSinceSend := c.discovery.ticksSinceSend + 1 } } := by
      refine tick_of_idle _ ?_ hsession hidle hest
      rw [hr]
      simp [Core.discovered, hest, hsession]
    rw [htick]
    exact .inr ⟨rfl, hsession⟩
  · apply hon { c.discovery with attempts := c.discovery.attempts + 1, ticksSinceSend := 0 } hwait
      (Discovery.patience_resent hatt)
    refine tick_of_idle _ ?_ hsession hidle hest
    rw [hr]
    rfl

/-- Where nothing was dialed, nothing happens. -/
theorem Sound.tick_of_session (h : c.Sound) (hsession : c.session = none)
    (hwait : ¬ c.discovery.Waiting) :
  c.tick = c
  := by
  obtain ⟨hidle, hest⟩ := h.idle hsession
  refine tick_of_idle _ ?_ hsession hidle hest
  rw [Discovery.onTick_of_not_waiting hwait]
  rfl

theorem linkDown_discovered (h : c.linkDown = true) (a : Discovery.Action) :
  (c.discovered a).linkDown = true
  := by
  cases a with
  | send bytes => exact h
  | idle => exact h
  | established est =>
      simp only [Core.discovered]
      split <;> exact h
  | failed =>
      simp only [Core.discovered, h, Bool.true_or]

/-- A link that is down stays down. -/
theorem linkDown_tick (h : c.linkDown = true) :
  c.tick.linkDown = true
  := by
  have hdisc := linkDown_discovered (c := { c with discovery := c.discovery.onTick.2 }) h
    c.discovery.onTick.1
  rw [tick]
  dsimp only
  rw [hdisc, Bool.true_or, liveness, if_pos (.inr rfl)]

theorem Sound.halted_tick (h : c.Sound) (hc : c.Halted) :
  c.tick.Halted
  := by
  obtain hdown | ⟨hdead, hsession⟩ := hc
  · exact .inl (linkDown_tick hdown)
  · have hwait : ¬ c.discovery.Waiting := by simp [Discovery.Waiting, hdead]
    rw [h.tick_of_session hsession hwait]
    exact .inr ⟨hdead, hsession⟩

theorem Sound.tick_negotiating (h : c.Sound) (hsession : c.session ≠ none)
    (hest : c.established = none) (hdown : c.linkDown = false) :
  c.tick = { c with
    link := c.link.tick.2.poll.2
    linkDown := decide (c.link.tick.2.poll.2.phase = Phase.dead) }
  := by
  rw [h.tick_eq hsession, Core.liveness, if_pos (.inl hest), hdown, Bool.false_or]

theorem Sound.stuck_tick (h : c.Sound) (hc : c.Stuck) :
  c.tick.Stuck
  := by
  obtain ⟨hdown, ⟨hsession, hwait, hdead⟩ | ⟨hsession, hest, hlink⟩⟩ := hc
  · rw [h.tick_of_session hsession hwait]
    exact ⟨hdown, .inl ⟨hsession, hwait, hdead⟩⟩
  · have hsane := h.sane hsession
    rw [h.tick_negotiating hsession hest hdown]
    obtain ⟨hphase, hauth⟩ | hphase := hlink
    · obtain ⟨hphase', hauth'⟩ := hsane.tick_poll_auth hphase hauth
      refine ⟨?_, .inr ⟨hsession, hest, .inl ⟨hphase', hauth'⟩⟩⟩
      simp [hphase']
    · have hphase' := hsane.tick_poll_opened hphase
      refine ⟨?_, .inr ⟨hsession, hest, .inr hphase'⟩⟩
      simp [hphase']

/-- A link without a configuration whose timer runs has less patience after a tick, or it is
down. -/
theorem Sound.negotiating_tick (h : c.Sound) (hsession : c.session ≠ none)
    (hest : c.established = none) (hdown : c.linkDown = false) (hc : ¬ c.Stuck) :
  c.tick.Halted ∨ ¬ c.tick.Stuck ∧ c.tick.patience < c.patience
  := by
  have hsane := h.sane hsession
  rw [h.tick_negotiating hsession hest hdown]
  generalize hl : c.link.tick.2.poll.2 = l'
  -- the phase after the tick says which it is
  have hend : l'.phase = .dead →
      Halted { c with link := l', linkDown := decide (l'.phase = Phase.dead) } := by
    intro hphase
    left
    simp [hphase]
  have hon : l'.phase = .establish ∨ l'.phase = .network →
      linkPatience l' < linkPatience c.link →
      ¬ Stuck { c with link := l', linkDown := decide (l'.phase = Phase.dead) }
        ∧ patience { c with link := l', linkDown := decide (l'.phase = Phase.dead) }
          < c.patience := by
    intro hphase hlt
    constructor
    · rintro ⟨_, ⟨hnone, _⟩ | ⟨_, _, hlink⟩⟩
      · exact hsession hnone
      · dsimp only at hlink
        obtain hphase | hphase := hphase <;> simp [hphase] at hlink
    · simpa [Core.patience, hsession, hest] using hlt
  cases hphase : c.link.phase with
  | dead =>
      have hdead := PPP.tick_poll_dead hphase
      rw [hl] at hdead
      exact .inl (hend hdead)
  | establish =>
      obtain ⟨hestablish, hlt⟩ | hdead := hsane.tick_poll_establish hphase
      · rw [hl] at hestablish hlt
        right
        apply hon (.inl hestablish)
        simpa [linkPatience, hphase, hestablish] using hlt
      · rw [hl] at hdead
        exact .inl (hend hdead)
  | auth =>
      have hauth : c.link.Authenticated := by
        by_contra hauth
        exact hc ⟨hdown, .inr ⟨hsession, hest, .inl ⟨hphase, hauth⟩⟩⟩
      have hnetwork := hsane.tick_poll_auth_done hphase hauth
      rw [hl] at hnetwork
      right
      apply hon (.inr hnetwork)
      have hle := l'.ipv4cp.patience_le
      simp only [linkPatience, hphase, hnetwork]
      omega
  | network =>
      obtain ⟨hnetwork, hlt⟩ | hdead := hsane.tick_poll_network hphase
      · rw [hl] at hnetwork hlt
        right
        apply hon (.inr hnetwork)
        simpa [linkPatience, hphase, hnetwork] using hlt
      · rw [hl] at hdead
        exact .inl (hend hdead)
  | opened => exact absurd ⟨hdown, .inr ⟨hsession, hest, .inr hphase⟩⟩ hc

/-- The echoes have less patience after a tick, or the link is down. -/
theorem Sound.liveness_lt (h : c.Sound) (hest : c.established ≠ none) (hdown : c.linkDown = false) :
  c.liveness.linkDown = true
    ∨ c.liveness.session = c.session ∧ c.liveness.established = c.established
      ∧ c.liveness.echoPatience < c.echoPatience
  := by
  have hticks := h.echoTicks
  have hmisses := h.echoMisses hdown
  simp only [echoIntervalTicks, echoDeadThreshold] at hticks hmisses
  rw [Core.liveness, if_neg (by simp [hest, hdown])]
  split
  · exact .inl rfl
  · split
    · rename_i hout
      have hfirst := h.echoFirst hout
      refine .inr ⟨rfl, rfl, ?_⟩
      simp [Core.echoPatience, hout, hfirst, echoIntervalTicks, echoDeadThreshold]
    · rename_i hout
      rw [Bool.not_eq_false] at hout
      by_cases hseen : c.link.echoReplySeen ∨ c.inboundSeen
      · have hc := echoPatience_seen hout hseen
        split
        · rename_i hlt
          refine .inr ⟨rfl, rfl, lt_of_eq_of_lt (echoPatience_seen hout hseen) ?_⟩
          simp only [hc, echoIntervalTicks, echoDeadThreshold] at hlt ⊢
          omega
        · refine .inr ⟨rfl, rfl, lt_of_eq_of_lt (echoPatience_scored hout rfl rfl rfl) ?_⟩
          simp only [hc, echoIntervalTicks, echoDeadThreshold]
          omega
      · have hc := echoPatience_silent hout hseen
        split
        · rename_i hlt
          refine .inr ⟨rfl, rfl, lt_of_eq_of_lt (echoPatience_silent hout hseen) ?_⟩
          simp only [hc, echoIntervalTicks, echoDeadThreshold] at hlt ⊢
          omega
        · by_cases hlast : echoDeadThreshold ≤ c.echoMisses + 1
          · left
            simp [hlast]
          · refine .inr ⟨rfl, rfl, lt_of_eq_of_lt (echoPatience_scored hout rfl rfl rfl) ?_⟩
            simp only [hc, echoIntervalTicks, echoDeadThreshold] at hlast ⊢
            omega

theorem Sound.established_tick (h : c.Sound) (hest : c.established ≠ none)
    (hdown : c.linkDown = false) :
  c.tick.Halted ∨ ¬ c.tick.Stuck ∧ c.tick.patience < c.patience
  := by
  have hsession : c.session ≠ none := fun hnone => hest (h.idle hnone).2
  have hseen : c.link.tick.2.poll.2.echoReplySeen = c.link.echoReplySeen :=
    PPP.echoReplySeen_poll c.link.tick.2
  rw [h.tick_eq hsession, hdown, Bool.false_or]
  by_cases hdead : c.link.tick.2.poll.2.phase = Phase.dead
  · left
    rw [decide_eq_true hdead, Core.liveness, if_pos (.inr rfl)]
    exact .inl rfl
  · rw [decide_eq_false hdead]
    have hsound : Sound { c with link := c.link.tick.2.poll.2, linkDown := false } :=
      { h with
        idle := fun hnone => absurd hnone hsession
        sane := fun _ => PPP.sane_poll (PPP.stirred_tick (h.sane hsession))
        echoMisses := fun _ => h.echoMisses hdown }
    obtain hend | ⟨hses', hest', hlt⟩ := hsound.liveness_lt hest rfl
    · exact .inl (.inl hend)
    · right
      constructor
      · rintro ⟨_, ⟨hnone, _⟩ | ⟨_, hnone, _⟩⟩
        · exact hsession (hses'.symm.trans hnone)
        · exact hest (hest'.symm.trans hnone)
      · rw [patience, if_neg (by rw [hses']; exact hsession), if_neg (by rw [hest']; exact hest),
          patience, if_neg hsession, if_neg hest]
        simpa [echoPatience, hseen] using hlt

/-- A tick brings the end nearer, unless no timer runs. -/
theorem Sound.progress (h : c.Sound) (hc : ¬ c.Stuck) (hdown : ¬ c.Halted) :
  c.tick.Halted ∨ ¬ c.tick.Stuck ∧ c.tick.patience < c.patience
  := by
  have hdown' : c.linkDown = false := by
    cases hd : c.linkDown
    · rfl
    · exact absurd (.inl hd) hdown
  by_cases hsession : c.session = none
  · apply h.tick_waiting
    by_contra hwait
    have hdead : c.discovery.state ≠ .dead := fun hdead => hdown (.inr ⟨hdead, hsession⟩)
    exact hc ⟨hdown', .inl ⟨hsession, hwait, hdead⟩⟩
  · by_cases hest : c.established = none
    · exact h.negotiating_tick hsession hest hdown' hc
    · exact h.established_tick hest hdown'

/-! ### Many ticks -/

theorem Sound.tick_iterate (h : c.Sound) (n : ℕ) :
  (Core.tick^[n] c).Sound
  := by
  induction n with
  | zero => exact h
  | succ n ih =>
      rw [Function.iterate_succ_apply']
      exact ih.tick

/-- A datapath on which no timer runs waits for ever. -/
theorem Sound.stuck_iterate (h : c.Sound) (hc : c.Stuck) (n : ℕ) :
  (Core.tick^[n] c).Stuck
  := by
  induction n with
  | zero => exact hc
  | succ n ih =>
      rw [Function.iterate_succ_apply']
      exact (h.tick_iterate n).stuck_tick ih

theorem Stuck.not_halted (h : c.Stuck) :
  ¬ c.Halted
  := by
  obtain ⟨hdown, hrest⟩ := h
  rintro (hdown' | ⟨hdead, hsession⟩)
  · simp [hdown] at hdown'
  · obtain ⟨_, _, hdead'⟩ | ⟨hsome, _⟩ := hrest
    · exact hdead' hdead
    · exact hsome hsession

/-- Silence ends in a redial exactly if some timer runs. -/
theorem Sound.halted_iff (h : c.Sound) {n : ℕ}
    (hn : deadline c.dial.retransmitTicks c.dial.maxAttempts ≤ n) :
  (Core.tick^[n] c).Halted ↔ ¬ c.Stuck
  := by
  constructor
  · intro hend hstuck
    exact (h.stuck_iterate hstuck n).not_halted hend
  · intro hstuck
    have hend : (Core.tick^[n] c).Sound ∧ (Core.tick^[n] c).Halted := by
      apply iterate_of_rank (I := fun c => c.Sound ∧ ¬ c.Stuck)
        (E := fun c => c.Sound ∧ c.Halted)
        (fun c hc => ⟨hc.1.tick, hc.1.halted_tick hc.2⟩) ?_ ⟨h, hstuck⟩
        (Nat.lt_of_lt_of_le h.patience_lt hn)
      rintro c ⟨hc, hgo⟩
      by_cases hhalted : c.Halted
      · exact .inl ⟨hc.tick, hc.halted_tick hhalted⟩
      · obtain hend | ⟨hgo', hlt⟩ := hc.progress hgo hhalted
        · exact .inl ⟨hc.tick, hend⟩
        · exact .inr ⟨⟨hc.tick, hgo'⟩, hlt⟩
    exact hend.2

end Core

namespace PppoeDatapath

variable {md5 : Digest} {d : PppoeDatapath}

theorem core_iterate (d : PppoeDatapath) (n : ℕ) :
  (onTick^[n] d).core = Core.tick^[n] d.core
  := Function.Semiconj.iterate_right (f := core) core_onTick n d

theorem phase_halted (d : PppoeDatapath) :
  d.phase = .linkDown ∨ d.phase = .dead ↔ d.core.Halted
  := by
  have hcore : d.core.Halted
      ↔ d.linkDown = true ∨ d.discovery.state = .dead ∧ d.session = none := Iff.rfl
  rw [hcore, phase]
  split
  · rename_i hdown
    simp [hdown]
  · rename_i hdown
    split
    · rename_i hdead
      simp [hdead]
    · rename_i hdead
      simp only [hdown, hdead]
      split
      · simp
      · split <;> simp

/-- The datapath ends in a redial after a fixed time of silence, exactly if some timer runs. -/
theorem silence_iff (h : d.Reachable md5) {n : ℕ}
    (hn : Core.deadline d.retransmitTicks d.maxAttempts ≤ n) :
  (onTick^[n] d).phase = .linkDown ∨ (onTick^[n] d).phase = .dead ↔ ¬ d.core.Stuck
  := by
  rw [phase_halted, core_iterate]
  exact h.sound.halted_iff hn

theorem silence_iff_latched :
  latched.phase = .ppp
    ∧ ((onTick^[200] latched).phase = .linkDown ∨ (onTick^[200] latched).phase = .dead)
  := by
  refine ⟨by decide, ?_⟩
  exact (silence_iff (reachable_fresh plainDigest dialed) (by decide)).mpr (by decide)

/-- The concentrator asks for CHAP and then says nothing. -/
def unchallenged : PppoeDatapath :=
  (dialed ++ [inSession chapRequest, inSession firstAck]).foldl (apply plainDigest) fresh

theorem unchallenged_waits :
  unchallenged.Reachable plainDigest ∧ unchallenged.ppp.phase = .auth
    ∧ ∀ n, (onTick^[n] unchallenged).phase ≠ .linkDown ∧ (onTick^[n] unchallenged).phase ≠ .dead
  := by
  have hreach : unchallenged.Reachable plainDigest := reachable_fresh plainDigest _
  refine ⟨hreach, by decide, ?_⟩
  intro n
  have hstuck := hreach.sound.stuck_iterate (by decide) n
  rw [← core_iterate] at hstuck
  exact not_or.mp (mt (phase_halted _).mp hstuck.not_halted)

end PppoeDatapath

end ZeroNat.Pppoe

import ZeroNat.Pppoe.Isolation

/-!
# The release of a link

A link that came down and was released stays down and is silent, whatever arrives and however often
the timer ticks, until it is dialled again.  Then there is one frame to be sent, which asks for
offers.
-/

namespace ZeroNat.Pppoe

open Ppp Observed

/-! ### A link that is down is past discovery -/

/-- Discovery has not come to an end. -/
def Discovery.Searching (d : Discovery) : Prop :=
  d.state = .init ∨ d.Waiting

namespace Core

/-- The link is not down while discovery goes on. -/
def Dialing (c : Core) : Prop :=
  c.discovery.Searching → c.linkDown = false

variable {md5 : Digest} {c : Core}

theorem Dialing.discovered {e : Discovery.Event} {a : Discovery.Action} {disc : Discovery}
    (h : c.Dialing) (hmove : c.discovery.Move e a disc) :
  Dialing (Core.discovered { c with discovery := disc } a)
  := by
  cases hmove with
  | idle => exact h
  | started hstate => exact fun _ => h (.inl hstate)
  | offered hstate => exact fun _ => h (.inr (.inl hstate))
  | waited hwait => exact fun _ => h (.inr hwait)
  | resent hwait => exact fun _ => h (.inr hwait)
  | confirmed hstate =>
      intro hsearching
      simp only [Core.discovered] at hsearching
      split at hsearching
      · simp [refresh, Discovery.Searching, Discovery.Waiting] at hsearching
      · simp [Discovery.Searching, Discovery.Waiting] at hsearching
  | ended =>
      intro hsearching
      simp [Core.discovered, Discovery.Searching, Discovery.Waiting] at hsearching
  | gaveUp =>
      intro hsearching
      simp [Core.discovered, Discovery.Searching, Discovery.Waiting] at hsearching

theorem Dialing.frame (h : c.Dialing) (hsound : c.Sound) (bytes : List UInt8) :
  (c.frame md5 bytes).Dialing
  := by
  rw [Core.frame]
  split
  · exact h
  · split
    · exact h.discovered (Discovery.onFrame_move c.discovery bytes)
    · split
      · rw [Core.sessionFrame]
        split
        · exact h
        · rename_i session hsession
          split
          · exact h
          · split
            · exact h
            · intro hsearching
              have hnone : c.session = none := hsound.searching hsearching
              rw [hsession] at hnone
              cases hnone
      · exact h

theorem Dialing.liveness (h : c.Dialing)
    (hnone : c.discovery.Searching → c.established = none) :
  c.liveness.Dialing
  := by
  rw [Core.liveness]
  split
  · exact h
  · rename_i hlive
    have hpast : ¬ c.discovery.Searching := fun hs => (not_or.mp hlive).1 (hnone hs)
    split
    · exact fun hs => absurd hs hpast
    · split
      · exact fun hs => absurd hs hpast
      · split
        · exact fun hs => absurd hs hpast
        · exact fun hs => absurd hs hpast

theorem Dialing.tick (h : c.Dialing) (hsound : c.Sound) :
  c.tick.Dialing
  := by
  have hd := h.discovered (Discovery.onTick_move c.discovery)
  have hsound' := hsound.discovered (Discovery.onTick_move c.discovery)
  rw [Core.tick]
  generalize Core.discovered { c with discovery := c.discovery.onTick.2 } c.discovery.onTick.1
    = c₁ at hd hsound'
  apply Dialing.liveness
  · intro hsearching
    simp [hd hsearching, hsound'.searching hsearching]
  · intro hsearching
    exact (hsound'.idle (hsound'.searching hsearching)).2

theorem Dialing.step {c' : Core} (h : c.Dialing) (hsound : c.Sound) (hstep : c.Step md5 c') :
  c'.Dialing
  := by
  cases hstep with
  | start => exact h.discovered (Discovery.start_move c.discovery)
  | frame => exact h.frame hsound _
  | tick => exact h.tick hsound
  | released _ => exact h
  | redialed _ => exact fun _ => rfl
  | setRequestDns => exact h
  | kept => exact h

end Core

theorem PppoeDatapath.Reachable.dialing {md5 : Digest} {d : PppoeDatapath} (h : d.Reachable md5) :
  d.core.Dialing
  := by
  have hboth : d.core.Sound ∧ d.core.Dialing := by
    apply h.core_invariant (I := fun c => c.Sound ∧ c.Dialing)
    · intro c hc
      exact ⟨hc.sound, fun _ => hc.linkDown⟩
    · rintro c c' ⟨hsound, hdialing⟩ hstep
      exact ⟨hsound.step hstep, hdialing.step hsound hstep⟩
  exact hboth.2

namespace PppoeDatapath

variable {md5 : Digest} {d : PppoeDatapath}

/-! ### A released link -/

/-- A link that is down and has nothing left of its session. -/
structure Inert (d : PppoeDatapath) : Prop where
  linkDown : d.linkDown = true
  past : ¬ d.discovery.Searching
  session : d.session = none
  established : d.established = none
  out : d.out = []
  inboundIp : d.inboundIp = []

theorem release_eq_ok {random : Option UInt32} {d' : PppoeDatapath}
    (h : d.release random = .ok d') :
  ∃ ppp, d' = { d with
    ppp
    session := none
    established := none
    out := []
    inboundIp := []
    echoTicks := 0
    echoMisses := 0
    echoOutstanding := false
    inboundSeen := false }
  := by
  rw [release] at h
  cases random with
  | none => cases h
  | some r =>
      simp only [okOr, bind, Except.bind] at h
      split at h
      · cases h
      · rename_i ppp _
        obtain rfl := Except.ok.inj h
        exact ⟨ppp, rfl⟩

theorem inert_release (h : d.Reachable md5) (hdown : d.linkDown = true) {random : Option UInt32}
    {d' : PppoeDatapath} (hrel : d.release random = .ok d') :
  d'.Inert
  := by
  have hpast : ¬ d.discovery.Searching := by
    intro hsearching
    have hup : d.linkDown = false := h.dialing hsearching
    rw [hdown] at hup
    cases hup
  obtain ⟨ppp, rfl⟩ := release_eq_ok hrel
  exact ⟨hdown, hpast, rfl, rfl, rfl, rfl⟩

/-- Discovery has nothing to say to a link that is inert. -/
theorem Inert.discovered (h : d.Inert) {e : Discovery.Event} {a : Discovery.Action}
    {disc : Discovery} (hmove : d.discovery.Move e a disc) :
  (applyDiscoveryAction { d with discovery := disc } a).Inert
  := by
  have hfailed : ∀ disc : Discovery, disc.state = .dead →
      (applyDiscoveryAction { d with discovery := disc } .failed).Inert := by
    intro disc hdead
    rw [applyDiscoveryAction, if_neg (by simp [h.session, h.established])]
    refine ⟨h.linkDown, ?_, h.session, h.established, h.out, h.inboundIp⟩
    simp [Discovery.Searching, Discovery.Waiting, hdead]
  cases hmove with
  | idle => exact h
  | started hstate => exact absurd (.inl hstate) h.past
  | offered hstate => exact absurd (.inr (.inl hstate)) h.past
  | confirmed hstate => exact absurd (.inr (.inr hstate)) h.past
  | ended => exact hfailed _ rfl
  | waited hwait => exact absurd (.inr hwait) h.past
  | gaveUp hwait => exact absurd (.inr hwait) h.past
  | resent hwait => exact absurd (.inr hwait) h.past

theorem Inert.onL2Frame (h : d.Inert) (frame : List UInt8) :
  (d.onL2Frame md5 frame).Inert
  := by
  rw [PppoeDatapath.onL2Frame]
  split
  · exact h
  · split
    · exact h.discovered (Discovery.onFrame_move d.discovery frame)
    · split
      · rw [onSessionFrame, h.session]
        exact h
      · exact h

theorem Inert.onTick (h : d.Inert) :
  d.onTick.Inert
  := by
  have hd := h.discovered (Discovery.onTick_move d.discovery)
  rw [PppoeDatapath.onTick]
  dsimp only
  generalize applyDiscoveryAction { d with discovery := d.discovery.onTick.2 } d.discovery.onTick.1
    = d₁ at hd
  have hdrain : drainPppOut { d₁ with ppp := d₁.ppp.onTick }
      = { d₁ with ppp := d₁.ppp.onTick } := by
    rw [drainPppOut, hd.session]
  rw [hdrain, if_neg (by simp [hd.session]), tickLiveness, if_pos (.inl hd.established)]
  exact ⟨hd.linkDown, hd.past, hd.session, hd.established, hd.out, hd.inboundIp⟩

/-- The calls by which a link is not dialled. -/
def Undialed : Op → Prop
  | .reset _ => False
  | _ => True

theorem Inert.apply (h : d.Inert) {op : Op} (hop : Undialed op) :
  (d.apply md5 op).Inert
  := by
  cases op with
  | start => exact h.discovered (Discovery.start_move d.discovery)
  | frame bytes => exact h.onL2Frame bytes
  | tick => exact h.onTick
  | tunIp ip =>
      rw [PppoeDatapath.apply, onTunIp, h.session]
      exact h
  | release random =>
      rw [PppoeDatapath.apply]
      cases hrel : d.release random with
      | error e => exact h
      | ok d' =>
          obtain ⟨ppp, rfl⟩ := release_eq_ok hrel
          exact ⟨h.linkDown, h.past, rfl, rfl, rfl, rfl⟩
  | reset random => exact hop.elim
  | setClampMss clamp =>
      exact ⟨h.linkDown, h.past, h.session, h.established, h.out, h.inboundIp⟩
  | setRequestDns on =>
      exact ⟨h.linkDown, h.past, h.session, h.established, h.out, h.inboundIp⟩
  | pollTransmitFrame =>
      rw [PppoeDatapath.apply, pollTransmitFrame, h.out]
      exact h
  | pollInboundIp =>
      rw [PppoeDatapath.apply, pollInboundIp, h.inboundIp]
      exact h

/-- Dialling queues the frame that asks for offers, and nothing else. -/
theorem reset_eq_ok {random : Option UInt32} {d' : PppoeDatapath} (h : d.reset random = .ok d') :
  d'.out = [buildPadi d.ourMac d.serviceName d.hostUniq] ∧ d'.phase = .discovery
  := by
  rw [reset] at h
  cases hrel : d.release random with
  | error e =>
      rw [hrel] at h
      cases h
  | ok d₁ =>
      rw [hrel] at h
      obtain rfl := Except.ok.inj h
      obtain ⟨ppp, rfl⟩ := release_eq_ok hrel
      exact ⟨rfl, rfl⟩

/-- A link that is down and has been released sends nothing, has nothing for the tunnel and stays
down, whatever calls are made of it, until it is dialled.  A datapath that is dialled, in
whatever state it is, has the request for offers to send and is in discovery. -/
theorem released_inert (md5 : Digest) :
  (∀ (d : PppoeDatapath) random d', d.Reachable md5 → d.linkDown = true →
      d.release random = .ok d' → ∀ ops d'',
        Run (Meeting (fun _ op => Undialed op) fun d op d' => apply md5 d op = d') d' ops d'' →
        d''.pollTransmitFrame.1 = none ∧ d''.pollInboundIp.1 = none ∧ d''.phase = .linkDown)
  ∧ ∀ (d : PppoeDatapath) random d', d.reset random = .ok d' →
      d'.out = [buildPadi d.ourMac d.serviceName d.hostUniq] ∧ d'.phase = .discovery
  := by
  constructor
  · intro d random d' hreach hdown hrel ops d'' hrun
    have hinert : d''.Inert := by
      apply hrun.invariant (inert_release hreach hdown hrel)
      rintro d₁ op d₂ h ⟨hop, rfl⟩
      exact h.apply hop
    refine ⟨?_, ?_, ?_⟩
    · rw [pollTransmitFrame, hinert.out]
    · rw [pollInboundIp, hinert.inboundIp]
    · rw [phase, if_pos hinert.linkDown]
  · intro d random d' h
    exact reset_eq_ok h

instance : DecidablePred Undialed
  | .reset _ => inferInstanceAs (Decidable False)
  | .start | .frame _ | .tunIp _ | .tick | .release _ | .setClampMss _ | .setRequestDns _
  | .pollTransmitFrame | .pollInboundIp => inferInstanceAs (Decidable True)

/-- Discovery, until the concentrator ends the session. -/
def ended : List Op :=
  dialed ++ [.frame goodbye]

/-- The session is ended and released; then the timer ticks and a frame of the session arrives. -/
theorem released_inert_goodbye :
  ∃ d d' d'' : PppoeDatapath, d.linkDown = true ∧ d.release (some 9) = .ok d'
    ∧ d''.pollTransmitFrame.1 = none ∧ d''.pollInboundIp.1 = none ∧ d''.phase = .linkDown
    ∧ d'' = List.foldl (apply plainDigest) d' [.tick, .frame collision, .tunIp [0x45]]
  := by
  have hreach := reachable_fresh plainDigest ended
  obtain ⟨d', hrel⟩ : ∃ d', (ended.foldl (apply plainDigest) fresh).release (some 9) = .ok d' :=
    ⟨_, rfl⟩
  have hdown : (ended.foldl (apply plainDigest) fresh).linkDown = true := by
    decide
  have hmeets : meets (fun _ op => Undialed op) (apply plainDigest) d'
      [.tick, .frame collision, .tunIp [0x45]] = true := rfl
  obtain ⟨hout, hin, hphase⟩ := (released_inert plainDigest).1 _ _ d' hreach hdown hrel _ _
    (run_of_meets hmeets)
  exact ⟨_, d', _, hdown, hrel, hout, hin, hphase, rfl⟩

end PppoeDatapath

end ZeroNat.Pppoe

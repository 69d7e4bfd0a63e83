import ZeroNat.Pppoe.Operation

/-!
# Isolation

A station of a shared segment hears the frames of all the others.  We say which frames are not
for a datapath, and which of these it takes all the same.
-/

open BigEndian

namespace ZeroNat.Pppoe

open Ppp Ppp.Observed

/-- Between whom a frame goes, its code, and its session. -/
structure Label where
  eth : EthHeader
  code : UInt8
  sessionId : UInt16
deriving DecidableEq

/-- The label of a frame that is well formed. -/
def labelOf (frame : List UInt8) : Option Label :=
  match parseSessionFrame frame with
  | .ok header => some ⟨header.eth, codeSession, header.sessionId⟩
  | .error _ =>
    match parseDiscoveryFrame frame with
    | .ok p => some ⟨p.eth, p.code, p.sessionId⟩
    | .error _ => none

namespace Label

/-- The label is not that of a frame for us: it is addressed to another station, or it is a
session frame that our concentrator did not send in our session, or it ends a session and our
concentrator did not send it for ours. -/
def Astray (a : Label) (d : PppoeDatapath) : Prop :=
  a.eth.dst ≠ d.ourMac
    ∨ a.code = codeSession
      ∧ (∀ s ∈ d.session, a.eth.src ≠ s.acMac ∨ a.sessionId ≠ s.sessionId)
    ∨ a.code = codePadt
      ∧ (d.discovery.acMac ≠ some a.eth.src ∨ ∃ s ∈ d.session, a.sessionId ≠ s.sessionId)

/-- The label of a session frame that bears the number of our session, whoever sent it to whom,
or of a frame by which our concentrator ends any session, with any station. -/
def Caught (a : Label) (d : PppoeDatapath) : Prop :=
  a.code = codeSession ∧ (∃ s ∈ d.session, a.sessionId = s.sessionId)
    ∨ a.code = codePadt ∧ d.discovery.acMac = some a.eth.src ∧ d.discovery.state ≠ .dead

instance (a : Label) (d : PppoeDatapath) : Decidable (a.Astray d) :=
  inferInstanceAs (Decidable (_ ∨ _))

instance (a : Label) (d : PppoeDatapath) : Decidable (a.Caught d) :=
  inferInstanceAs (Decidable (_ ∨ _))

end Label

/-- A frame that is not for us.  One that is not well formed is for nobody. -/
def Astray (d : PppoeDatapath) (frame : List UInt8) : Prop :=
  ∀ a ∈ labelOf frame, a.Astray d

def Caught (d : PppoeDatapath) (frame : List UInt8) : Prop :=
  ∃ a ∈ labelOf frame, a.Caught d

instance (d : PppoeDatapath) (frame : List UInt8) : Decidable (Astray d frame) :=
  inferInstanceAs (Decidable (∀ a ∈ labelOf frame, a.Astray d))

instance (d : PppoeDatapath) (frame : List UInt8) : Decidable (Caught d frame) :=
  inferInstanceAs (Decidable (∃ a ∈ labelOf frame, a.Caught d))

/-! ### Labels -/

theorem parseSessionFrame_eth {f : List UInt8} {header : SessionHeader}
    (h : parseSessionFrame f = .ok header) :
  ∃ off, parseEthHeader f = .ok (header.eth, off) ∧ header.eth.ethertype = etherTypeSession
  := by
  rw [parseSessionFrame] at h
  cases heth : parseEthHeader f with
  | error e =>
      rw [heth] at h
      cases h
  | ok eth =>
      obtain ⟨eth, off⟩ := eth
      refine ⟨off, ?_⟩
      simp only [heth, bind, Except.bind, pure, Except.pure, throw, throwThe,
        MonadExceptOf.throw] at h
      repeat' split at h
      all_goals cases h
      rename_i htype _ _ _ _ _ _
      exact ⟨rfl, not_not.mp htype⟩

theorem parseDiscoveryFrame_eth {f : List UInt8} {p : DiscoveryPacket}
    (h : parseDiscoveryFrame f = .ok p) :
  ∃ off, parseEthHeader f = .ok (p.eth, off) ∧ p.eth.ethertype = etherTypeDiscovery
    ∧ p.code ≠ codeSession
  := by
  rw [parseDiscoveryFrame] at h
  cases heth : parseEthHeader f with
  | error e =>
      rw [heth] at h
      cases h
  | ok eth =>
      obtain ⟨eth, off⟩ := eth
      refine ⟨off, ?_⟩
      simp only [heth, bind, Except.bind, pure, Except.pure, throw, throwThe,
        MonadExceptOf.throw] at h
      repeat' split at h
      all_goals cases h
      rename_i htype _ _ _ _ hcode _ _ _ _ _ _
      refine ⟨rfl, not_not.mp htype, ?_⟩
      intro hsession
      apply hcode
      dsimp only at hsession
      rw [hsession]
      decide

theorem labelOf_session {f : List UInt8} {header : SessionHeader}
    (h : parseSessionFrame f = .ok header) :
  labelOf f = some ⟨header.eth, codeSession, header.sessionId⟩
  := by
  rw [labelOf, h]

theorem labelOf_discovery {f : List UInt8} {p : DiscoveryPacket}
    (h : parseDiscoveryFrame f = .ok p) :
  labelOf f = some ⟨p.eth, p.code, p.sessionId⟩
  := by
  obtain ⟨off, heth, htype, _⟩ := parseDiscoveryFrame_eth h
  cases hs : parseSessionFrame f with
  | error e => rw [labelOf, hs, h]
  | ok header =>
      -- a frame has one type
      obtain ⟨off', heth', htype'⟩ := parseSessionFrame_eth hs
      rw [heth, Except.ok.injEq, Prod.mk.injEq] at heth'
      rw [heth'.1, htype'] at htype
      exact absurd htype (by decide)

/-- A frame with a label is a session frame or one of discovery. -/
theorem labelOf_cases {f : List UInt8} {a : Label} (h : labelOf f = some a) :
  (∃ header, parseSessionFrame f = .ok header ∧ a = ⟨header.eth, codeSession, header.sessionId⟩)
    ∨ ∃ p, parseDiscoveryFrame f = .ok p ∧ a = ⟨p.eth, p.code, p.sessionId⟩
  := by
  rw [labelOf] at h
  split at h
  · rename_i header hs
    exact .inl ⟨header, hs, (Option.some.inj h).symm⟩
  · split at h
    · rename_i p hp
      exact .inr ⟨p, hp, (Option.some.inj h).symm⟩
    · cases h

/-! ### The end of a session -/

namespace PppoeDatapath

variable {md5 : Digest} {d d₁ d₂ : PppoeDatapath} {f : List UInt8}

/-- Discovery and the session are as they were, and a link that was down still is, for the same
reason. -/
structure Keeps (d₁ d₂ : PppoeDatapath) : Prop where
  discovery : d₂.discovery = d₁.discovery
  session : d₂.session = d₁.session
  reason : d₁.linkDown = true → d₂.linkDown = true ∧ d₂.linkDownReason = d₁.linkDownReason

theorem Keeps.refl (d : PppoeDatapath) :
  Keeps d d
  := ⟨rfl, rfl, fun h => ⟨h, rfl⟩⟩

theorem Keeps.trans {d₃ : PppoeDatapath} (h : Keeps d₁ d₂) (h' : Keeps d₂ d₃) :
  Keeps d₁ d₃
  := by
  refine ⟨h'.discovery.trans h.discovery, h'.session.trans h.session, fun hdown => ?_⟩
  obtain ⟨hdown₂, hreason⟩ := h.reason hdown
  obtain ⟨hdown₃, hreason'⟩ := h'.reason hdown₂
  exact ⟨hdown₃, hreason'.trans hreason⟩

theorem keeps_drainPppOut (d : PppoeDatapath) :
  Keeps d d.drainPppOut
  := by
  rw [drainPppOut]
  split
  · apply Keeps.refl
  · exact ⟨rfl, rfl, fun h => ⟨h, rfl⟩⟩

theorem keeps_refreshEstablished (d : PppoeDatapath) :
  Keeps d d.refreshEstablished
  := by
  rw [refreshEstablished]
  split
  · apply Keeps.refl
  · exact ⟨rfl, rfl, fun h => ⟨h, rfl⟩⟩

/-- A link that is not down may go down. -/
theorem keeps_down {b : Prop} [Decidable b] {reason : Option String} (h : b → d.linkDown = false) :
  Keeps d (if b then { d with linkDown := true, linkDownReason := reason } else d)
  := by
  split
  · rename_i hb
    refine ⟨rfl, rfl, fun hdown => ?_⟩
    rw [h hb] at hdown
    cases hdown
  · apply Keeps.refl

theorem keeps_onSessionPayload (md5 : Digest) (d : PppoeDatapath) (payload : List UInt8) :
  Keeps d (d.onSessionPayload md5 payload)
  := by
  rw [onSessionPayload]
  refine Keeps.trans ?_ (keeps_down fun h => h.2.1)
  refine Keeps.trans ?_ (keeps_refreshEstablished _)
  refine Keeps.trans ?_ (keeps_drainPppOut _)
  split <;> exact ⟨rfl, rfl, fun h => ⟨h, rfl⟩⟩

theorem keeps_tickLiveness (d : PppoeDatapath) :
  Keeps d d.tickLiveness
  := by
  have hcore : d.tickLiveness.core.discovery = d.core.discovery
      ∧ d.tickLiveness.core.session = d.core.session := by
    rw [core_tickLiveness, Core.liveness]
    repeat' split
    all_goals exact ⟨rfl, rfl⟩
  refine ⟨hcore.1, hcore.2, fun hdown => ?_⟩
  rw [tickLiveness, if_pos (.inr hdown)]
  exact ⟨hdown, rfl⟩

/-- If discovery is dead although there is a session, then the concentrator has ended it. -/
def Ended (d : PppoeDatapath) : Prop :=
  d.discovery.state = .dead → d.session ≠ none →
    d.linkDown = true ∧ d.linkDownReason = some "padt"

theorem Ended.keeps (h : d₁.Ended) (hkeeps : Keeps d₁ d₂) :
  d₂.Ended
  := by
  intro hstate hsession
  rw [hkeeps.discovery] at hstate
  rw [hkeeps.session] at hsession
  obtain ⟨hdown, hreason⟩ := h hstate hsession
  rw [(hkeeps.reason hdown).2]
  exact ⟨(hkeeps.reason hdown).1, hreason⟩

theorem ended_of_session (h : d.session = none) :
  d.Ended
  := fun _ hsession => absurd h hsession

theorem ended_failed (d : PppoeDatapath) :
  (d.applyDiscoveryAction .failed).Ended
  := by
  rw [applyDiscoveryAction]
  split
  · exact fun _ _ => ⟨rfl, rfl⟩
  · rename_i h
    apply ended_of_session
    simpa using (not_or.mp h).2

theorem Ended.applyDiscoveryAction {e : Discovery.Event} {a : Discovery.Action} {disc : Discovery}
    (h : d.Ended) (hmove : d.discovery.Move e a disc) :
  (applyDiscoveryAction { d with discovery := disc } a).Ended
  := by
  cases hmove with
  | idle => exact h
  | started => exact fun hstate => by cases hstate
  | offered => exact fun hstate => by cases hstate
  | waited hwait =>
      intro hstate
      obtain hsent | hsent := hwait
      · exact absurd (hsent.symm.trans hstate) (by decide)
      · exact absurd (hsent.symm.trans hstate) (by decide)
  | resent hwait =>
      intro hstate
      obtain hsent | hsent := hwait
      · exact absurd (hsent.symm.trans hstate) (by decide)
      · exact absurd (hsent.symm.trans hstate) (by decide)
  | confirmed =>
      rw [PppoeDatapath.applyDiscoveryAction, onDiscoveryEstablished]
      dsimp only
      split
      · intro hstate
        rw [(keeps_refreshEstablished _).discovery, (keeps_drainPppOut _).discovery] at hstate
        cases hstate
      · exact fun hstate => by cases hstate
  | ended => apply ended_failed
  | gaveUp => apply ended_failed

theorem Ended.onL2Frame (h : d.Ended) (f : List UInt8) :
  (d.onL2Frame md5 f).Ended
  := by
  rw [PppoeDatapath.onL2Frame]
  split
  · exact h
  · split
    · exact h.applyDiscoveryAction (Discovery.onFrame_move d.discovery f)
    · split
      · rw [onSessionFrame]
        split
        · exact h
        · split
          · exact h
          · split
            · exact h
            · exact h.keeps (keeps_onSessionPayload md5 d _)
      · exact h

theorem Ended.onTick (h : d.Ended) :
  d.onTick.Ended
  := by
  rw [PppoeDatapath.onTick]
  dsimp only
  refine Ended.keeps ?_ (keeps_tickLiveness _)
  refine Ended.keeps ?_ (keeps_down fun hdead => hdead.2.1)
  refine Ended.keeps ?_ (keeps_drainPppOut _)
  exact (h.applyDiscoveryAction (Discovery.onTick_move d.discovery)).keeps
    ⟨rfl, rfl, fun hdown => ⟨hdown, rfl⟩⟩

theorem Ended.apply (h : d.Ended) (op : Op) :
  (d.apply md5 op).Ended
  := by
  cases op with
  | start => exact h.applyDiscoveryAction (Discovery.start_move d.discovery)
  | frame bytes => exact h.onL2Frame bytes
  | tick => exact h.onTick
  | tunIp ip =>
      rw [PppoeDatapath.apply, onTunIp]
      split <;> exact h
  | release random =>
      rw [PppoeDatapath.apply]
      cases hrel : d.release random with
      | error e => exact h
      | ok d' =>
          obtain ⟨link, _, hcore⟩ := core_release hrel
          exact ended_of_session (congrArg Core.session hcore)
  | reset random =>
      rw [PppoeDatapath.apply]
      cases hreset : d.reset random with
      | error e => exact h
      | ok d' =>
          obtain ⟨link, _, hcore⟩ := core_reset hreset
          exact ended_of_session (congrArg Core.session hcore)
  | setClampMss clamp => exact h
  | setRequestDns on => exact h
  | pollTransmitFrame =>
      rw [PppoeDatapath.apply, pollTransmitFrame]
      split <;> exact h
  | pollInboundIp =>
      rw [PppoeDatapath.apply, pollInboundIp]
      split <;> exact h

theorem Reachable.ended (h : d.Reachable md5) :
  d.Ended
  := by
  apply h.invariant
  · intro d hd
    exact ended_of_session hd.session
  · intro d op hd
    exact hd.apply op

/-! ### What a frame does -/

theorem onL2Frame_session {header : SessionHeader} (h : parseSessionFrame f = .ok header) :
  d.onL2Frame md5 f = d.onSessionFrame md5 f
  := by
  obtain ⟨off, heth, htype⟩ := parseSessionFrame_eth h
  rw [onL2Frame, heth]
  dsimp only
  rw [htype, if_neg (by decide), if_pos rfl]

theorem onL2Frame_discovery {p : DiscoveryPacket} (h : parseDiscoveryFrame f = .ok p) :
  d.onL2Frame md5 f
    = applyDiscoveryAction { d with discovery := (d.discovery.onFrame f).2 }
        (d.discovery.onFrame f).1
  := by
  obtain ⟨off, heth, htype, _⟩ := parseDiscoveryFrame_eth h
  rw [onL2Frame, heth]
  dsimp only
  rw [htype, if_pos rfl]

/-- A frame that is not well formed is dropped. -/
theorem onL2Frame_of_labelOf (h : labelOf f = none) :
  d.onL2Frame md5 f = d
  := by
  have hsession : ∃ e, parseSessionFrame f = .error e := by
    cases hs : parseSessionFrame f with
    | error e => exact ⟨e, rfl⟩
    | ok header =>
        rw [labelOf_session hs] at h
        cases h
  have hdiscovery : ∃ e, parseDiscoveryFrame f = .error e := by
    cases hp : parseDiscoveryFrame f with
    | error e => exact ⟨e, rfl⟩
    | ok p =>
        rw [labelOf_discovery hp] at h
        cases h
  obtain ⟨_, hsession⟩ := hsession
  obtain ⟨_, hdiscovery⟩ := hdiscovery
  have hdrop : d.discovery.onFrame f = (.idle, d.discovery) := by
    rw [Discovery.onFrame, hdiscovery]
  have hkeep : d.onSessionFrame md5 f = d := by
    rw [onSessionFrame, hsession]
    split <;> rfl
  rw [onL2Frame]
  split
  · rfl
  · rw [hdrop, hkeep]
    split
    · rfl
    · split <;> rfl

/-- A session frame is dropped when it does not bear the number of our session. -/
theorem onSessionFrame_other {header : SessionHeader} (h : parseSessionFrame f = .ok header)
    (hother : ∀ s ∈ d.session, header.sessionId ≠ s.sessionId) :
  d.onSessionFrame md5 f = d
  := by
  rw [onSessionFrame]
  split
  · rfl
  · rename_i s hs
    rw [h]
    dsimp only
    rw [if_pos (hother s hs)]

theorem onSessionFrame_ours {header : SessionHeader} {s : SessionParams}
    (h : parseSessionFrame f = .ok header) (hs : d.session = some s)
    (hours : header.sessionId = s.sessionId) :
  d.onSessionFrame md5 f
    = d.onSessionPayload md5 ((f.drop header.pppStart).take (header.pppEnd - header.pppStart))
  := by
  rw [onSessionFrame, hs]
  dsimp only
  rw [h]
  dsimp only
  rw [if_neg (not_not.mpr hours)]

theorem inboundSeen_onSessionPayload (md5 : Digest) (d : PppoeDatapath) (payload : List UInt8) :
  (d.onSessionPayload md5 payload).inboundSeen = true
  := congrArg Core.inboundSeen (core_onSessionPayload md5 d payload)

/-- A packet of the network is passed on. -/
theorem inboundIp_onSessionPayload (md5 : Digest) (d : PppoeDatapath) :
  (d.onSessionPayload md5 pppProtoIpv4).inboundIp ≠ d.inboundIp
  := by
  have hdrain : ∀ d' : PppoeDatapath, d'.drainPppOut.inboundIp = d'.inboundIp := by
    intro d'
    rw [drainPppOut]
    split <;> rfl
  have hrefresh : ∀ d' : PppoeDatapath, d'.refreshEstablished.inboundIp = d'.inboundIp := by
    intro d'
    rw [refreshEstablished]
    split <;> rfl
  have hip : (d.onSessionPayload md5 pppProtoIpv4).inboundIp = d.inboundIp ++ [d.clampIp []] := by
    have hfeed : (d.ppp.feed md5 pppProtoIpv4).1 = .ip [] := rfl
    simp only [onSessionPayload, hfeed]
    split
    · exact (hrefresh _).trans (hdrain _)
    · exact (hrefresh _).trans (hdrain _)
  rw [hip]
  simp

/-- A frame that ends a session is taken whenever our concentrator sent it. -/
theorem onFrame_padt {p : DiscoveryPacket} (h : parseDiscoveryFrame f = .ok p)
    (hcode : p.code = codePadt) (hac : d.discovery.acMac = some p.eth.src) :
  d.discovery.onFrame f = (.failed, { d.discovery with state := .dead })
  := by
  rw [Discovery.onFrame, h]
  dsimp only
  rw [if_pos hcode, if_pos hac]

theorem discovery_failed (d : PppoeDatapath) :
  (d.applyDiscoveryAction .failed).discovery = d.discovery
  := by
  rw [applyDiscoveryAction]
  split <;> rfl

/-- Once the concentrator has ended the session, it changes nothing to end one again. -/
theorem Ended.failed (h : d.Ended) (hsound : d.core.Sound)
    (hdead : d.discovery.state = .dead) :
  PppoeDatapath.applyDiscoveryAction
      { d with discovery := { d.discovery with state := .dead } } .failed = d
  := by
  have hdisc : { d.discovery with state := .dead } = d.discovery := by rw [← hdead]
  rw [hdisc, PppoeDatapath.applyDiscoveryAction]
  dsimp only
  split
  · rename_i hlive
    have hsession : d.session ≠ none := by
      intro hnone
      have hest : d.established = none := (hsound.idle hnone).2
      simp [hnone, hest] at hlive
    obtain ⟨hdown, hreason⟩ := h hdead hsession
    rw [← hdown, ← hreason]
  · rfl

/-- A frame that is not for us does nothing, except where it is caught. -/
theorem onL2Frame_of_not_caught (h : d.Reachable md5) (hastray : Astray d f)
    (hcaught : ¬ Caught d f) :
  d.onL2Frame md5 f = d
  := by
  cases hlabel : labelOf f with
  | none => exact onL2Frame_of_labelOf hlabel
  | some a =>
      have ha : a.Astray d := hastray a hlabel
      have hc : ¬ a.Caught d := fun hc => hcaught ⟨a, hlabel, hc⟩
      obtain ⟨header, hs, rfl⟩ | ⟨p, hp, rfl⟩ := labelOf_cases hlabel
      · rw [onL2Frame_session hs]
        apply onSessionFrame_other hs
        intro s hsession hsid
        exact hc (.inl ⟨rfl, s, hsession, hsid⟩)
      · rw [onL2Frame_discovery hp]
        -- an offer and a confirmation are taken only if they are for us
        have htake : p.eth.dst = d.discovery.src → p.code = codePadt := by
          intro hdst
          obtain hne | ⟨hcode, _⟩ | ⟨hcode, _⟩ := ha
          · exact absurd (hdst.trans h.sound.src) hne
          · exact absurd hcode (parseDiscoveryFrame_eth hp).choose_spec.2.2
          · exact hcode
        have hmove := Discovery.onFrame_move d.discovery f
        generalize d.discovery.onFrame f = r at hmove
        obtain ⟨action, disc⟩ := r
        cases hmove with
        | idle => rfl
        | offered hstate hp' hoffer =>
            obtain rfl := Except.ok.inj (hp.symm.trans hp')
            exact absurd (hoffer.code.symm.trans (htake hoffer.dst)) (by decide)
        | confirmed hstate hp' hconf =>
            obtain rfl := Except.ok.inj (hp.symm.trans hp')
            exact absurd (hconf.code.symm.trans (htake hconf.dst)) (by decide)
        | ended hp' hcode hac =>
            obtain rfl := Except.ok.inj (hp.symm.trans hp')
            have hdead : d.discovery.state = .dead := by
              by_contra hdead
              exact hc (.inr ⟨hcode, hac, hdead⟩)
            exact h.ended.failed h.sound hdead

/-- A frame by which our concentrator ends a session does something while discovery is not
dead. -/
theorem onL2Frame_padt_ne {p : DiscoveryPacket} (h : parseDiscoveryFrame f = .ok p)
    (hcode : p.code = codePadt) (hac : d.discovery.acMac = some p.eth.src)
    (hdead : d.discovery.state ≠ .dead) :
  d.onL2Frame md5 f ≠ d
  := by
  intro heq
  rw [onL2Frame_discovery h, onFrame_padt h hcode hac] at heq
  apply hdead
  rw [← heq, discovery_failed]

theorem caught_cases (h : Caught d f) :
  (∃ header, parseSessionFrame f = .ok header
      ∧ ∃ s, d.session = some s ∧ header.sessionId = s.sessionId)
    ∨ ∃ p, parseDiscoveryFrame f = .ok p ∧ p.code = codePadt
      ∧ d.discovery.acMac = some p.eth.src ∧ d.discovery.state ≠ .dead
  := by
  obtain ⟨a, hlabel, hc⟩ := h
  obtain ⟨header, hs, rfl⟩ | ⟨p, hp, rfl⟩ := labelOf_cases hlabel
  · obtain ⟨_, s, hsession, hsid⟩ | ⟨hcode, _⟩ := hc
    · exact .inl ⟨header, hs, s, hsession, hsid⟩
    · exact absurd (show codeSession = codePadt from hcode) (by decide)
  · obtain ⟨hcode, _⟩ | ⟨hcode, hac, hdead⟩ := hc
    · exact absurd hcode (parseDiscoveryFrame_eth hp).choose_spec.2.2
    · exact .inr ⟨p, hp, hcode, hac, hdead⟩

/-- A frame that is caught does something, if no session frame has been heard since the last
time that we looked. -/
theorem onL2Frame_of_caught (hcaught : Caught d f) (hseen : d.inboundSeen = false) :
  d.onL2Frame md5 f ≠ d
  := by
  obtain ⟨header, hs, s, hsession, hsid⟩ | ⟨p, hp, hcode, hac, hdead⟩ := caught_cases hcaught
  · intro heq
    rw [onL2Frame_session hs, onSessionFrame_ours hs hsession hsid] at heq
    have htrue := inboundSeen_onSessionPayload md5 d
      ((f.drop header.pppStart).take (header.pppEnd - header.pppStart))
    rw [heq, hseen] at htrue
    cases htrue
  · exact onL2Frame_padt_ne hp hcode hac hdead

/-- Among the frames with the label of one that is caught, there is one that does something. -/
theorem exists_moved_of_caught (md5 : Digest) (hcaught : Caught d f) :
  ∃ g, labelOf g = labelOf f ∧ d.onL2Frame md5 g ≠ d
  := by
  obtain ⟨header, hs, s, hsession, hsid⟩ | ⟨p, hp, hcode, hac, hdead⟩ := caught_cases hcaught
  · -- a packet of the network reaches the tunnel
    obtain ⟨off, heth, htype⟩ := parseSessionFrame_eth hs
    have hparse := parseSessionFrame_buildSessionFrame header.eth.dst header.eth.src
      header.sessionId (by decide : pppProtoIpv4.length < 2 ^ 16)
    refine ⟨buildSessionFrame header.eth.dst header.eth.src header.sessionId pppProtoIpv4, ?_, ?_⟩
    · rw [labelOf_session hparse, labelOf_session hs, ← htype]
    · intro heq
      rw [onL2Frame_session hparse, onSessionFrame_ours hparse hsession hsid] at heq
      dsimp only at heq
      rw [Nat.add_sub_cancel_left, payload_buildSessionFrame] at heq
      exact inboundIp_onSessionPayload md5 d (congrArg inboundIp heq)
  · exact ⟨f, rfl, onL2Frame_padt_ne hp hcode hac hdead⟩

/-- The frames with the label of one that is not for us leave the datapath as it was exactly when
they are not caught.  While no session frame has been heard since the last time that we looked,
this is so of every single frame. -/
theorem untouched_iff (h : d.Reachable md5) (hastray : Astray d f) :
  ((∀ g, labelOf g = labelOf f → d.onL2Frame md5 g = d) ↔ ¬ Caught d f)
    ∧ (d.inboundSeen = false → (d.onL2Frame md5 f = d ↔ ¬ Caught d f))
  := by
  refine ⟨⟨?_, ?_⟩, fun hseen => ⟨?_, ?_⟩⟩
  · intro hsame hcaught
    obtain ⟨g, hlabel, hmoved⟩ := exists_moved_of_caught md5 hcaught
    exact hmoved (hsame g hlabel)
  · intro hcaught g hlabel
    apply onL2Frame_of_not_caught h
    · rw [Astray, hlabel]
      exact hastray
    · rw [Caught, hlabel]
      exact hcaught
  · intro hsame hcaught
    exact onL2Frame_of_caught hcaught hseen hsame
  · exact onL2Frame_of_not_caught h hastray

/-- A frame to another station, from another concentrator, with the number of its session. -/
def elsewhere : List UInt8 :=
  buildSessionFrame (List.Vector.replicate 6 6) (List.Vector.replicate 6 8) 3 pppProtoIpv4

/-- The same with the number of our session. -/
def collision : List UInt8 :=
  buildSessionFrame (List.Vector.replicate 6 6) (List.Vector.replicate 6 8) 5 pppProtoIpv4

/-- Our concentrator ends the session of another station. -/
def goodbye : List UInt8 :=
  putEthHeader (List.Vector.replicate 6 6) Dialog.concentrator etherTypeDiscovery
    ++ putPppoe codePadt 3 []

theorem untouched_iff_elsewhere :
  latched.session = some ⟨Dialog.concentrator, 5⟩
    ∧ latched.onL2Frame plainDigest elsewhere = latched
  := by
  refine ⟨by decide, ?_⟩
  have h := untouched_iff (reachable_fresh plainDigest dialed)
    (by decide : Astray latched elsewhere)
  exact (h.2 (by decide)).mpr (by decide)

/-- Both are caught: the first passes a packet to the tunnel, and the second takes the link
down. -/
theorem moved_by_collision :
  latched.Reachable plainDigest ∧ Astray latched collision ∧ Astray latched goodbye
    ∧ (latched.onL2Frame plainDigest collision).inboundIp ≠ latched.inboundIp
    ∧ latched.phase = .ppp ∧ (latched.onL2Frame plainDigest goodbye).phase = .linkDown
  := ⟨reachable_fresh plainDigest dialed, by decide, by decide, by decide, by decide, by decide⟩

end PppoeDatapath

end ZeroNat.Pppoe

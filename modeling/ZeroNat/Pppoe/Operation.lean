import ZeroNat.Pppoe.Datapath
import ZeroNat.Pppoe.Dialog
import ZeroNat.Pppoe.Ppp.Parameters

/-!
# The operation of the datapath

The calls that are made to a datapath, and what they do to it apart from the queues: to
discovery, to the link, to the session and its configuration, and to the liveness of the link.
-/

namespace ZeroNat.Pppoe

open Ppp

/-- The calls that are made to a datapath. -/
inductive Op where
  | start
  | frame (bytes : List UInt8)
  | tunIp (ip : List UInt8)
  | tick
  | release (random : Option UInt32)
  | reset (random : Option UInt32)
  | setClampMss (clamp : UInt16)
  | setRequestDns (on : Bool)
  | pollTransmitFrame
  | pollInboundIp
deriving DecidableEq

namespace PppoeDatapath

/-- A call.  One that fails leaves the datapath as it was. -/
def apply (md5 : Digest) (d : PppoeDatapath) : Op → PppoeDatapath
  | .start => d.start
  | .frame bytes => d.onL2Frame md5 bytes
  | .tunIp ip => d.onTunIp ip
  | .tick => d.onTick
  | .release random =>
    match d.release random with
    | .ok d => d
    | .error _ => d
  | .reset random =>
    match d.reset random with
    | .ok d => d
    | .error _ => d
  | .setClampMss clamp => d.setClampMss clamp
  | .setRequestDns on => d.setRequestDns on
  | .pollTransmitFrame => d.pollTransmitFrame.2
  | .pollInboundIp => d.pollInboundIp.2

/-- The datapaths that can come about. -/
def Reachable (md5 : Digest) (d : PppoeDatapath) : Prop :=
  ∃ username password serviceName mru retransmitTicks maxAttempts ourMac hu random d₀ ops,
    new username password serviceName mru retransmitTicks maxAttempts ourMac hu random = .ok d₀
      ∧ Run (fun d op d' => d.apply md5 op = d') d₀ ops d

end PppoeDatapath

/-- The datapath without its queues.  What discovery begins with when it dials is kept. -/
structure Core where
  dial : Discovery
  discovery : Discovery
  link : PPP
  session : Option SessionParams
  established : Option Established
  echoTicks : ℕ
  echoMisses : ℕ
  echoOutstanding : Bool
  inboundSeen : Bool
  linkDown : Bool

def PppoeDatapath.core (d : PppoeDatapath) : Core where
  dial := .new d.ourMac d.serviceName d.hostUniq d.retransmitTicks d.maxAttempts
  discovery := d.discovery
  link := d.ppp.ppp
  session := d.session
  established := d.established
  echoTicks := d.echoTicks
  echoMisses := d.echoMisses
  echoOutstanding := d.echoOutstanding
  inboundSeen := d.inboundSeen
  linkDown := d.linkDown

/-- The configuration of a link, once it is open and both addresses are known. -/
def Ppp.PPP.lease (l : PPP) : Option Established :=
  PppSession.established ⟨l, [], 0⟩

namespace Core

/-- The configuration is kept from the first time that there is one. -/
def refresh (c : Core) : Core :=
  { c with established := c.established.or c.link.lease }

/-- What discovery asks for. -/
def discovered (c : Core) : Discovery.Action → Core
  | .send _ => c
  | .idle => c
  | .established est =>
    let c := { c with session := some ⟨est.acMac, est.sessionId⟩ }
    match c.link.openLink with
    | .ok link => refresh { c with link := link.poll.2 }
    | .error _ => c
  | .failed => { c with linkDown := c.linkDown || c.established.isSome || c.session.isSome }

/-- A payload of our session. -/
def payload (md5 : Digest) (c : Core) (pkt : List UInt8) : Core :=
  let c := refresh { c with inboundSeen := true, link := (c.link.received md5 pkt).2.2.poll.2 }
  { c with linkDown := c.linkDown || (c.established.isSome && c.link.lcpClosed) }

def sessionFrame (md5 : Digest) (c : Core) (frame : List UInt8) : Core :=
  match c.session with
  | none => c
  | some session =>
    match parseSessionFrame frame with
    | .error _ => c
    | .ok header =>
      if header.sessionId ≠ session.sessionId then c
      else
        c.payload md5 ((frame.drop header.pppStart).take (header.pppEnd - header.pppStart))

def frame (md5 : Digest) (c : Core) (frame : List UInt8) : Core :=
  match parseEthHeader frame with
  | .error _ => c
  | .ok (eth, _) =>
    if eth.ethertype = etherTypeDiscovery then
      discovered { c with discovery := (c.discovery.onFrame frame).2 }
        (c.discovery.onFrame frame).1
    else if eth.ethertype = etherTypeSession then c.sessionFrame md5 frame
    else c

/-- The liveness of the link. -/
def liveness (c : Core) : Core :=
  if c.established = none ∨ c.linkDown then c
  else if c.link.lcpClosed then { c with linkDown := true }
  else if c.echoOutstanding = false then
    { c with
      echoOutstanding := true
      echoTicks := 0
      inboundSeen := false
      link := { c.link with echoReplySeen := false } }
  else if c.echoTicks + 1 < echoIntervalTicks then { c with echoTicks := c.echoTicks + 1 }
  else
    let misses := if c.link.echoReplySeen ∨ c.inboundSeen then 0 else c.echoMisses + 1
    { c with
      echoTicks := 0
      echoMisses := misses
      inboundSeen := false
      link := { c.link with echoReplySeen := false }
      linkDown := decide (echoDeadThreshold ≤ misses) }

def tick (c : Core) : Core :=
  let c := discovered { c with discovery := c.discovery.onTick.2 } c.discovery.onTick.1
  let c := { c with link := c.link.tick.2.poll.2 }
  let c := { c with linkDown := c.linkDown || (c.session.isSome && decide (c.link.phase = Phase.dead)) }
  c.liveness

/-- The session is dropped. -/
def released (c : Core) (link : PPP) : Core :=
  { c with
    link
    session := none
    established := none
    echoTicks := 0
    echoMisses := 0
    echoOutstanding := false
    inboundSeen := false }

/-- Nothing has been called yet. -/
structure New (c : Core) : Prop where
  discovery : c.discovery = c.dial
  state : c.dial.state = .init
  link : c.link.Idle
  session : c.session = none
  established : c.established = none
  echoTicks : c.echoTicks = 0
  echoMisses : c.echoMisses = 0
  echoOutstanding : c.echoOutstanding = false
  linkDown : c.linkDown = false

/-- What a call can do. -/
inductive Step (md5 : Digest) (c : Core) : Core → Prop where
  | start :
      Step md5 c (discovered { c with discovery := c.discovery.start.2 } c.discovery.start.1)
  | frame {bytes : List UInt8} : Step md5 c (c.frame md5 bytes)
  | tick : Step md5 c c.tick
  | released {link : PPP} : link.Idle → Step md5 c (c.released link)
  | redialed {link : PPP} : link.Idle →
      Step md5 c { c.released link with discovery := c.dial.start.2, linkDown := false }
  | setRequestDns {on : Bool} : Step md5 c { c with link := c.link.setRequestDns on }
  | kept : Step md5 c c

end Core

/-! ### What the calls do -/

namespace PppoeDatapath

variable {md5 : Digest} {d : PppoeDatapath}

theorem core_drainPppOut (d : PppoeDatapath) :
  d.drainPppOut.core = d.core
  := by
  rw [drainPppOut]
  split <;> rfl

theorem core_refreshEstablished (d : PppoeDatapath) :
  d.refreshEstablished.core = d.core.refresh
  := by
  rw [refreshEstablished]
  split
  · rename_i est h
    simp [core, Core.refresh, h]
  · rename_i h
    simp only [core, Core.refresh, h, Option.none_or]
    rfl

theorem core_applyDiscoveryAction (d : PppoeDatapath) (a : Discovery.Action) :
  (d.applyDiscoveryAction a).core = d.core.discovered a
  := by
  cases a with
  | send bytes => rfl
  | idle => rfl
  | established est =>
      rw [applyDiscoveryAction, onDiscoveryEstablished, PppSession.openSession]
      simp only [Core.discovered]
      have hlink : d.core.link = d.ppp.ppp := rfl
      rw [hlink]
      cases d.ppp.ppp.openLink with
      | error e => rfl
      | ok link =>
          dsimp only
          rw [core_refreshEstablished, core_drainPppOut]
          rfl
  | failed =>
      simp only [applyDiscoveryAction, Core.discovered]
      split
      · rename_i h
        obtain h | h := h
        · simp [core, h]
        · simp [core, h]
      · rename_i h
        obtain ⟨hest, hses⟩ := not_or.mp h
        simp only [core, Bool.not_eq_true] at hest hses ⊢
        rw [hest, hses, Bool.or_false, Bool.or_false]

theorem core_onSessionPayload (md5 : Digest) (d : PppoeDatapath) (pkt : List UInt8) :
  (d.onSessionPayload md5 pkt).core = d.core.payload md5 pkt
  := by
  have hend : ∀ d' : PppoeDatapath,
      core (if d'.established.isSome ∧ d'.linkDown = false ∧ d'.ppp.lcpClosed then
          { d' with linkDown := true, linkDownReason := some "lcp-closed" }
        else d')
      = { d'.core with
          linkDown := d'.core.linkDown || (d'.core.established.isSome && d'.core.link.lcpClosed) } := by
    intro d'
    have hclosed : d'.core.link.lcpClosed = d'.ppp.lcpClosed := rfl
    rw [hclosed]
    split
    · rename_i h
      simp [core, h.1, h.2.2]
    · rename_i h
      cases hdown : d'.linkDown
      · simp only [core, hdown, Bool.false_or]
        simp only [hdown, true_and, not_and] at h
        cases hest : d'.established.isSome
        · rfl
        · simp [h hest]
      · simp [core, hdown]
  simp only [onSessionPayload]
  rw [hend, core_refreshEstablished, core_drainPppOut]
  split <;> rfl

theorem core_onSessionFrame (md5 : Digest) (d : PppoeDatapath) (frame : List UInt8) :
  (d.onSessionFrame md5 frame).core = d.core.sessionFrame md5 frame
  := by
  have hsession : d.core.session = d.session := rfl
  rw [onSessionFrame, Core.sessionFrame, hsession]
  cases d.session with
  | none => rfl
  | some session =>
      cases parseSessionFrame frame with
      | error e => rfl
      | ok header =>
          dsimp only
          split
          · rfl
          · apply core_onSessionPayload

theorem core_onL2Frame (md5 : Digest) (d : PppoeDatapath) (frame : List UInt8) :
  (d.onL2Frame md5 frame).core = d.core.frame md5 frame
  := by
  rw [onL2Frame, Core.frame]
  cases parseEthHeader frame with
  | error e => rfl
  | ok eth =>
      dsimp only
      split
      · rw [core_applyDiscoveryAction]
        rfl
      · split
        · apply core_onSessionFrame
        · rfl

theorem core_sendEcho (d : PppoeDatapath) :
  d.sendEcho.core = d.core
  := by
  rw [sendEcho, core_drainPppOut, PppSession.sendEchoRequest]
  dsimp only
  split <;> rfl

theorem core_scoreInterval (d : PppoeDatapath) :
  d.scoreInterval.core =
    let misses := if d.core.link.echoReplySeen ∨ d.core.inboundSeen then 0
      else d.core.echoMisses + 1
    { d.core with
      echoTicks := 0
      echoMisses := misses
      inboundSeen := false
      link := { d.core.link with echoReplySeen := false }
      linkDown := d.core.linkDown || decide (echoDeadThreshold ≤ misses) }
  := by
  have hscore : ∀ d' : PppoeDatapath,
      core (if echoDeadThreshold ≤ d'.echoMisses then
          { d' with linkDown := true, linkDownReason := some "echo-timeout" }
        else d'.sendEcho)
      = { d'.core with
          linkDown := d'.core.linkDown || decide (echoDeadThreshold ≤ d'.core.echoMisses) } := by
    intro d'
    have hmisses : d'.core.echoMisses = d'.echoMisses := rfl
    rw [hmisses]
    split
    · rename_i h
      simp [core, h]
    · rename_i h
      rw [core_sendEcho]
      simp [h]
  exact hscore { d with
    echoTicks := 0
    ppp := d.ppp.takeEchoReplySeen.2
    inboundSeen := false
    echoMisses := if d.ppp.takeEchoReplySeen.1 ∨ d.inboundSeen then 0 else d.echoMisses + 1 }

theorem core_tickLiveness (d : PppoeDatapath) :
  d.tickLiveness.core = d.core.liveness
  := by
  have hest : d.core.established = d.established := rfl
  have hdown : d.core.linkDown = d.linkDown := rfl
  have hclosed : d.core.link.lcpClosed = d.ppp.lcpClosed := rfl
  have hout : d.core.echoOutstanding = d.echoOutstanding := rfl
  have hticks : d.core.echoTicks = d.echoTicks := rfl
  rw [tickLiveness, Core.liveness, hest, hdown, hclosed, hout, hticks]
  split
  · rfl
  · rename_i hlive
    have hlink : d.linkDown = false := by
      cases h : d.linkDown
      · rfl
      · exact absurd (.inr h) hlive
    split
    · rfl
    · split
      · have hecho := core_sendEcho d
        simp only [core, Core.mk.injEq, PppSession.takeEchoReplySeen] at hecho ⊢
        simp [hecho]
      · dsimp only
        split
        · rfl
        · rw [core_scoreInterval]
          simp [core, hlink]

theorem core_start (d : PppoeDatapath) :
  d.start.core
    = Core.discovered { d.core with discovery := d.discovery.start.2 } d.discovery.start.1
  := by
  rw [start]
  dsimp only
  rw [core_applyDiscoveryAction]
  rfl

theorem core_onTick (d : PppoeDatapath) :
  d.onTick.core = d.core.tick
  := by
  have hdead : ∀ d' : PppoeDatapath,
      core (if d'.session.isSome ∧ d'.linkDown = false ∧ d'.ppp.phase = .dead then
          { d' with linkDown := true, linkDownReason := some "ppp-timeout" }
        else d')
      = { d'.core with
          linkDown := d'.core.linkDown
            || (d'.core.session.isSome && decide (d'.core.link.phase = Phase.dead)) } := by
    intro d'
    have hphase : d'.core.link.phase = d'.ppp.phase := rfl
    rw [hphase]
    split
    · rename_i h
      simp [core, h.1, h.2.2]
    · rename_i h
      cases hdown : d'.linkDown
      · simp only [core, hdown, Bool.false_or]
        simp only [hdown, true_and, not_and] at h
        cases hses : d'.session.isSome
        · rfl
        · simp [h hses]
      · simp [core, hdown]
  simp only [onTick, Core.tick]
  rw [core_tickLiveness, hdead, core_drainPppOut]
  have haction := core_applyDiscoveryAction { d with discovery := d.discovery.onTick.2 }
    d.discovery.onTick.1
  have hcore : core { d with discovery := d.discovery.onTick.2 }
      = { d.core with discovery := d.discovery.onTick.2 } := rfl
  rw [hcore] at haction
  have hdisc : d.core.discovery = d.discovery := rfl
  rw [hdisc, ← haction]
  rfl

/-- A session that has not been opened. -/
theorem idle_new {cfg : PppConfig} {s : PppSession} (h : PppSession.new cfg = .ok s) :
  s.ppp.Idle
  := by
  rw [PppSession.new] at h
  split at h
  · cases h
  · obtain rfl := Except.ok.inj h
    exact ⟨rfl, ⟨rfl, rfl⟩, rfl, ⟨rfl, rfl⟩, rfl⟩

theorem core_release {random : Option UInt32} {d' : PppoeDatapath}
    (h : d.release random = .ok d') :
  ∃ link : PPP, link.Idle ∧ d'.core = d.core.released link
  := by
  rw [release] at h
  cases random with
  | none => cases h
  | some r =>
      simp only [okOr, bind, Except.bind] at h
      cases hnew : PppSession.new ⟨d.username, d.password, d.mru, magicOf r, d.requestDns⟩ with
      | error e =>
          rw [hnew] at h
          cases h
      | ok ppp =>
          rw [hnew] at h
          obtain rfl := Except.ok.inj h
          exact ⟨ppp.ppp, idle_new hnew, rfl⟩

theorem core_reset {random : Option UInt32} {d' : PppoeDatapath}
    (h : d.reset random = .ok d') :
  ∃ link : PPP, link.Idle
    ∧ d'.core = { d.core.released link with discovery := d.core.dial.start.2, linkDown := false }
  := by
  rw [reset] at h
  cases hrel : d.release random with
  | error e =>
      rw [hrel] at h
      cases h
  | ok d₁ =>
      rw [hrel] at h
      obtain rfl := Except.ok.inj h
      obtain ⟨link, hidle, hcore⟩ := core_release hrel
      refine ⟨link, hidle, ?_⟩
      have hredial : core (start { d₁ with
            discovery := Discovery.new d₁.ourMac d₁.serviceName d₁.hostUniq d₁.retransmitTicks
              d₁.maxAttempts
            linkDown := false
            linkDownReason := none })
          = { d₁.core with discovery := d₁.core.dial.start.2, linkDown := false } := by
        rw [core_start]
        rfl
      refine hredial.trans ?_
      rw [hcore]
      rfl

theorem core_apply (md5 : Digest) (d : PppoeDatapath) (op : Op) :
  Core.Step md5 d.core (d.apply md5 op).core
  := by
  cases op with
  | start =>
      rw [apply, core_start]
      exact Core.Step.start
  | frame bytes =>
      rw [apply, core_onL2Frame]
      exact Core.Step.frame
  | tunIp ip =>
      rw [apply, onTunIp]
      split <;> exact Core.Step.kept
  | tick =>
      rw [apply, core_onTick]
      exact Core.Step.tick
  | release random =>
      rw [apply]
      cases hrel : d.release random with
      | error e => exact Core.Step.kept
      | ok d' =>
          obtain ⟨link, hidle, hcore⟩ := core_release hrel
          dsimp only
          rw [hcore]
          exact Core.Step.released hidle
  | reset random =>
      rw [apply]
      cases hreset : d.reset random with
      | error e => exact Core.Step.kept
      | ok d' =>
          obtain ⟨link, hidle, hcore⟩ := core_reset hreset
          dsimp only
          rw [hcore]
          exact Core.Step.redialed hidle
  | setClampMss clamp => exact Core.Step.kept
  | setRequestDns on => exact Core.Step.setRequestDns
  | pollTransmitFrame =>
      rw [apply, pollTransmitFrame]
      split <;> exact Core.Step.kept
  | pollInboundIp =>
      rw [apply, pollInboundIp]
      split <;> exact Core.Step.kept

theorem core_new {username password serviceName : List UInt8} {mru : UInt16} {rt ma : ℕ}
    {mac : MacAddr} {hu : Bytes 4} {random : UInt32}
    (h : new username password serviceName mru rt ma mac hu random = .ok d) :
  d.core.New
  := by
  rw [new] at h
  simp only [bind, Except.bind] at h
  cases hppp : PppSession.new ⟨username, password, mru, magicOf random, false⟩ with
  | error e =>
      rw [hppp] at h
      cases h
  | ok ppp =>
      rw [hppp] at h
      obtain rfl := Except.ok.inj h
      exact ⟨rfl, rfl, idle_new hppp, rfl, rfl, rfl, rfl, rfl, rfl⟩

/-- What holds of every new datapath and is kept by every call holds of all that can come about. -/
theorem Reachable.invariant {I : PppoeDatapath → Prop} (hnew : ∀ d, d.core.New → I d)
    (hstep : ∀ d op, I d → I (d.apply md5 op)) (h : d.Reachable md5) :
  I d
  := by
  obtain ⟨username, password, serviceName, mru, rt, ma, mac, hu, random, d₀, ops, hd₀, hrun⟩ := h
  apply hrun.invariant (hnew d₀ (core_new hd₀))
  rintro d op _ hd rfl
  exact hstep d op hd

theorem Reachable.core_invariant {I : Core → Prop} (hnew : ∀ c : Core, c.New → I c)
    (hstep : ∀ c c', I c → Core.Step md5 c c' → I c') (h : d.Reachable md5) :
  I d.core
  := by
  apply h.invariant (I := fun d => I d.core)
  · intro d hd
    exact hnew d.core hd
  · intro d op hd
    exact hstep _ _ hd (core_apply md5 d op)

end PppoeDatapath

/-! ### What holds between the calls -/

namespace Ppp.PPP

variable {l : PPP}

/-- A link that was not opened takes no notice of the timer. -/
theorem Idle.tick_poll (h : l.Idle) :
  l.tick.2.poll.2 = l
  := by
  have hlcp := l.lcp.onTick_ticked.eq_of_closed h.lcp.1
  have hip := l.ipv4cp.onTick_ticked.eq_of_closed h.ipv4cp.1
  have htick : l.tick.2 = l := by
    have heq : l.tick.2 = { l with lcp := l.lcp.onTick.2, ipv4cp := l.ipv4cp.onTick.2 } := rfl
    rw [heq, hlcp, hip]
  rw [htick, poll_dead h.phase]

/-- A link that is opened asks for LCP. -/
theorem Idle.openLink (h : l.Idle) :
  ∃ link, l.openLink = .ok link ∧ link.poll.2.Sane ∧ link.poll.2.phase = .establish
  := by
  refine ⟨{ l with phase := .establish, opening := true }, ?_, ?_⟩
  · rw [PPP.openLink, h.phase]
  · have hfresh := OptionFsm.fresh_openFsm h.lcp
    have hpoll : ∃ pap, pollPhase { l with phase := .establish, opening := true }
        = ([l.lcp.openFsm.1], { l with
            phase := .establish, opening := false, lcp := l.lcp.openFsm.2, pap }) := by
      by_cases hpap : l.pap.state = .closed
      · exact ⟨l.pap, by
          simp [pollPhase, pollEstablish, h.lcp.1, h.lcp_failed, hfresh.1.1.2, h.ipv4cp.1, hpap]⟩
      · exact ⟨l.pap.close, by
          simp [pollPhase, pollEstablish, h.lcp.1, h.lcp_failed, hfresh.1.1.2, h.ipv4cp.1, hpap]⟩
    obtain ⟨pap, hpap⟩ := hpoll
    have hsettle : settle { l with
          phase := .establish, opening := false, lcp := l.lcp.openFsm.2, pap }
        = { l with phase := .establish, opening := false, lcp := l.lcp.openFsm.2, pap } :=
      settle_live hfresh.1.1.1 h.ipv4cp_failed
    rw [poll_eq, hpap]
    dsimp only
    rw [hsettle]
    exact ⟨⟨rfl, hfresh.1, h.ipv4cp, h.ipv4cp_failed⟩, rfl⟩

end Ppp.PPP

namespace Core

/-- What holds of a datapath between two calls. -/
structure Sound (c : Core) : Prop where
  dial : c.dial.state = .init
  src : c.discovery.src = c.dial.src
  retransmitTicks : c.discovery.retransmitTicks = c.dial.retransmitTicks
  maxAttempts : c.discovery.maxAttempts = c.dial.maxAttempts
  idle : c.session = none → c.link.Idle ∧ c.established = none
  searching : c.discovery.state = .init ∨ c.discovery.Waiting → c.session = none
  sane : c.session ≠ none → c.link.Sane
  echoTicks : c.echoTicks < echoIntervalTicks
  echoMisses : c.linkDown = false → c.echoMisses < echoDeadThreshold
  echoFirst : c.echoOutstanding = false → c.echoMisses = 0

variable {md5 : Digest} {c : Core}

theorem Sound.discovered {e : Discovery.Event} {a : Discovery.Action} {disc : Discovery}
    (h : c.Sound) (hmove : c.discovery.Move e a disc) :
  Sound (Core.discovered { c with discovery := disc } a)
  := by
  cases hmove with
  | idle => exact h
  | started hstate =>
      exact { h with searching := fun _ => h.searching (.inl hstate) }
  | offered hstate =>
      exact { h with searching := fun _ => h.searching (.inr (.inl hstate)) }
  | waited hwait =>
      exact { h with searching := fun _ => h.searching (.inr hwait) }
  | resent hwait =>
      exact { h with searching := fun _ => h.searching (.inr hwait) }
  | confirmed hstate =>
      obtain ⟨hidle, _⟩ := h.idle (h.searching (.inr (.inr hstate)))
      obtain ⟨link, hopen, hsane, _⟩ := hidle.openLink
      simp only [Core.discovered, hopen]
      exact { h with
        idle := fun hnone => by cases hnone
        searching := fun hs => by simp [Core.refresh, Discovery.Waiting] at hs
        sane := fun _ => hsane }
  | ended =>
      exact { h with
        searching := fun hs => by simp [Core.discovered, Discovery.Waiting] at hs
        echoMisses := fun hdown => by
          simp only [Core.discovered, Bool.or_eq_false_iff] at hdown
          exact h.echoMisses hdown.1.1 }
  | gaveUp =>
      exact { h with
        searching := fun hs => by simp [Core.discovered, Discovery.Waiting] at hs
        echoMisses := fun hdown => by
          simp only [Core.discovered, Bool.or_eq_false_iff] at hdown
          exact h.echoMisses hdown.1.1 }

theorem Sound.payload (h : c.Sound) (hsession : c.session ≠ none) (pkt : List UInt8) :
  (c.payload md5 pkt).Sound
  := by
  have hsane : (c.link.received md5 pkt).2.2.poll.2.Sane :=
    PPP.sane_poll (PPP.stirred_received (h.sane hsession) (PPP.received_received md5 c.link pkt))
  exact { h with
    idle := fun hnone => absurd hnone hsession
    sane := fun _ => hsane
    echoMisses := fun hdown => by
      simp only [Core.payload, Bool.or_eq_false_iff] at hdown
      exact h.echoMisses hdown.1 }

theorem Sound.frame (h : c.Sound) (bytes : List UInt8) :
  (c.frame md5 bytes).Sound
  := by
  rw [Core.frame]
  split
  · exact h
  · split
    · exact h.discovered (Discovery.onFrame_move c.discovery bytes)
    · split
      · rw [Core.sessionFrame]
        split
        · exact h
        · rename_i session hsession
          split
          · exact h
          · split
            · exact h
            · exact h.payload (by simp [hsession]) _
      · exact h

theorem Sound.liveness (h : c.Sound) :
  c.liveness.Sound
  := by
  rw [Core.liveness]
  split
  · exact h
  · rename_i hlive
    obtain ⟨hest, hdown⟩ := not_or.mp hlive
    have hsession : c.session ≠ none := fun hnone => hest (h.idle hnone).2
    split
    · exact { h with echoMisses := fun hd => by cases hd }
    · split
      · exact { h with
          idle := fun hnone => absurd hnone hsession
          echoTicks := Nat.succ_pos 24
          echoFirst := fun ho => by cases ho }
      · rename_i hout
        split
        · rename_i hticks
          exact { h with echoTicks := hticks }
        · exact { h with
            idle := fun hnone => absurd hnone hsession
            echoTicks := Nat.succ_pos 24
            echoMisses := fun hd => by simpa using hd
            echoFirst := fun ho => absurd ho hout }

theorem Sound.tick (h : c.Sound) :
  c.tick.Sound
  := by
  have hd := h.discovered (Discovery.onTick_move c.discovery)
  rw [Core.tick]
  generalize Core.discovered { c with discovery := c.discovery.onTick.2 } c.discovery.onTick.1
    = c₁ at hd
  apply Sound.liveness
  exact { hd with
    idle := fun hnone => by
      obtain ⟨hidle, hest⟩ := hd.idle hnone
      refine ⟨?_, hest⟩
      dsimp only
      rw [hidle.tick_poll]
      exact hidle
    sane := fun hsome => PPP.sane_poll (PPP.stirred_tick (hd.sane hsome))
    echoMisses := fun hdown => by
      simp only [Bool.or_eq_false_iff] at hdown
      exact hd.echoMisses hdown.1 }

theorem Sound.step {c' : Core} (h : c.Sound) (hstep : c.Step md5 c') :
  c'.Sound
  := by
  cases hstep with
  | start => exact h.discovered (Discovery.start_move c.discovery)
  | frame => apply h.frame
  | tick => exact h.tick
  | released hidle =>
      exact { h with
        idle := fun _ => ⟨hidle, rfl⟩
        searching := fun _ => rfl
        sane := fun hsome => absurd rfl hsome
        echoTicks := Nat.succ_pos 24
        echoMisses := fun _ => Nat.succ_pos 2
        echoFirst := fun _ => rfl }
  | redialed hidle =>
      have hstart : c.dial.start.2
          = { c.dial with state := .padiSent, ticksSinceSend := 0, attempts := 0 } := by
        rw [Discovery.start, if_neg (not_not.mpr h.dial)]
      simp only [hstart]
      exact {
        dial := h.dial
        src := rfl
        retransmitTicks := rfl
        maxAttempts := rfl
        idle := fun _ => ⟨hidle, rfl⟩
        searching := fun _ => rfl
        sane := fun hsome => absurd rfl hsome
        echoTicks := Nat.succ_pos 24
        echoMisses := fun _ => Nat.succ_pos 2
        echoFirst := fun _ => rfl }
  | setRequestDns =>
      exact { h with
        idle := fun hnone => by
          obtain ⟨hidle, hest⟩ := h.idle hnone
          exact ⟨⟨hidle.phase, hidle.lcp, hidle.lcp_failed, hidle.ipv4cp, hidle.ipv4cp_failed⟩, hest⟩
        sane := fun hsome => h.sane hsome }
  | kept => exact h

theorem New.sound (h : c.New) :
  c.Sound
  := {
    dial := h.state
    src := by rw [h.discovery]
    retransmitTicks := by rw [h.discovery]
    maxAttempts := by rw [h.discovery]
    idle := fun _ => ⟨h.link, h.established⟩
    searching := fun _ => h.session
    sane := fun hsome => absurd h.session hsome
    echoTicks := by
      rw [h.echoTicks]
      exact Nat.succ_pos 24
    echoMisses := fun _ => by
      rw [h.echoMisses]
      exact Nat.succ_pos 2
    echoFirst := fun _ => h.echoMisses }

end Core

theorem PppoeDatapath.Reachable.sound {md5 : Digest} {d : PppoeDatapath} (h : d.Reachable md5) :
  d.core.Sound
  := by
  apply h.core_invariant
  · intro c hc
    exact hc.sound
  · intro c c' hc hstep
    exact hc.step hstep

/-! ### A datapath that is given a session -/

namespace PppoeDatapath

/-- A host with a name and a password of one letter each. -/
def fresh : PppoeDatapath :=
  (new [1] [2] [] 1492 2 3 Dialog.host (List.Vector.replicate 4 7) 7).toOption.get rfl

/-- Discovery up to the session with the number 5. -/
def dialed : List Op :=
  [.start,
    .frame (putEthHeader Dialog.host Dialog.concentrator etherTypeDiscovery
      ++ putPppoe codePado 0 (putTag tagHostUniq [7, 7, 7, 7])),
    .frame (putEthHeader Dialog.host Dialog.concentrator etherTypeDiscovery
      ++ putPppoe codePads 5 (putTag tagHostUniq [7, 7, 7, 7]))]

/-- The datapath that has this session, of which LCP is negotiated. -/
def latched : PppoeDatapath :=
  dialed.foldl (apply Observed.plainDigest) fresh

/-- A payload of that session. -/
def inSession (payload : List UInt8) : Op :=
  .frame (buildSessionFrame Dialog.host Dialog.concentrator 5 payload)

theorem reachable_fresh (md5 : Digest) (ops : List Op) :
  (ops.foldl (apply md5) fresh).Reachable md5
  := ⟨[1], [2], [], 1492, 2, 3, Dialog.host, List.Vector.replicate 4 7, 7, fresh, ops, rfl,
    run_foldl (apply md5) fresh ops⟩

end PppoeDatapath

end ZeroNat.Pppoe

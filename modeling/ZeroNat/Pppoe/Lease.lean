import ZeroNat.Pppoe.Isolation
import ZeroNat.Pppoe.Silence
import ZeroNat.Pppoe.Ppp.Addresses

/-!
# The lease

Whether the configuration that the datapath reports is the one that IPCP has agreed on.  It is
kept from the first time that the link is open, while IPCP goes on underneath: the peer may close
it, or negotiate it again, and nothing of this reaches the configuration.
-/

namespace ZeroNat.Pppoe

open Ppp Ppp.Observed

/-- The packets of IPCP among frames that are sent. -/
def ipcpPackets (frames : List OutFrame) : List Packet :=
  frames.filterMap fun
    | .packet q => if q.proto = .ipv4cp then some q else none
    | .raw _ => none

namespace Ppp.PPP

variable {l : PPP}

theorem ipcpPackets_openFsm (m : OptionFsm Lcp) :
  ipcpPackets [.packet m.openFsm.1] = []
  := by
  rw [OptionFsm.openFsm]
  split <;> rfl

theorem ipcpPackets_openPap (p : Pap) :
  ipcpPackets [.packet p.openPap.1] = []
  := by
  rw [Pap.openPap]
  split <;> rfl

theorem ipcpPackets_open (m : OptionFsm Ipv4cp) :
  ipcpPackets [.packet m.openFsm.1] = [m.openFsm.1]
  := by
  rw [OptionFsm.openFsm]
  split <;> rfl

theorem ipcpPackets_append (frames frames' : List OutFrame) :
  ipcpPackets (frames ++ frames') = ipcpPackets frames ++ ipcpPackets frames'
  := List.filterMap_append

theorem ipcp_pollEstablish (hclosed : l.ipv4cp.state = .closed) :
  l.pollEstablish.2.ipv4cp = l.ipv4cp ∧ ipcpPackets (l.pollEstablish.1.map .packet) = []
    ∨ l.ipv4cp.state = .closed ∧ l.pollEstablish.2.ipv4cp = l.ipv4cp.openFsm.2
      ∧ ipcpPackets (l.pollEstablish.1.map .packet) = [l.ipv4cp.openFsm.1]
  := by
  -- whether LCP is opened first
  obtain ⟨sent, l₁, hfirst, hip, hsent⟩ : ∃ sent l₁,
      (if l.lcp.state = .closed ∧ l.lcp.failed = false then
        ([l.lcp.openFsm.1], { l with lcp := l.lcp.openFsm.2, opening := false })
      else ([], l)) = ((sent, l₁) : List Packet × PPP)
      ∧ l₁.ipv4cp = l.ipv4cp ∧ ipcpPackets (sent.map .packet) = [] := by
    split
    · exact ⟨_, _, rfl, rfl, ipcpPackets_openFsm l.lcp⟩
    · exact ⟨_, _, rfl, rfl, rfl⟩
  rw [pollEstablish]
  dsimp only
  rw [hfirst]
  dsimp only
  split
  · split
    · right
      refine ⟨hclosed, by rw [hip], ?_⟩
      rw [List.map_append, ipcpPackets_append, hsent, List.nil_append, hip]
      apply ipcpPackets_open
    · exact .inl ⟨hip, hsent⟩
    · left
      refine ⟨hip, ?_⟩
      rw [List.map_append, ipcpPackets_append, hsent, List.nil_append]
      apply ipcpPackets_openPap
  · left
    refine ⟨?_, hsent⟩
    have hclosed' : ∀ pap, ¬ ({ l₁ with pap } : PPP).ipv4cp.state ≠ .closed := by
      intro pap
      rw [not_not, ← hclosed, ← hip]
    split
    · rw [if_neg (hclosed' _)]
      exact hip
    · rw [if_neg (hclosed' _)]
      exact hip

/-- A poll opens IPCP, or leaves it alone. -/
theorem ipcp_poll (h : l.phase = .establish ∨ l.phase = .auth → l.ipv4cp.state = .closed) :
  l.poll.2.ipv4cp = l.ipv4cp ∧ ipcpPackets l.poll.1 = []
    ∨ l.ipv4cp.state = .closed ∧ l.poll.2.ipv4cp = l.ipv4cp.openFsm.2
      ∧ ipcpPackets l.poll.1 = [l.ipv4cp.openFsm.1]
  := by
  have hsettle : l.poll.2.ipv4cp = l.pollPhase.2.ipv4cp := by
    rw [poll_eq, settle]
    split <;> rfl
  have hsent : l.poll.1 = l.pollPhase.1.map .packet := rfl
  rw [hsettle, hsent]
  cases hphase : l.phase with
  | dead => exact .inl (by simp [pollPhase, hphase, ipcpPackets])
  | opened => exact .inl (by simp [pollPhase, hphase, ipcpPackets])
  | network =>
      left
      simp only [pollPhase, hphase]
      split <;> simp [ipcpPackets]
  | auth =>
      have hclosed := h (.inr hphase)
      simp only [pollPhase, hphase, pollAuth]
      split
      · exact .inr ⟨hclosed, rfl, ipcpPackets_open l.ipv4cp⟩
      · rw [if_neg (not_not.mpr hclosed)]
        exact .inl ⟨rfl, rfl⟩
  | establish =>
      have hclosed := h (.inl hphase)
      simp only [pollPhase, hphase]
      apply ipcp_pollEstablish hclosed

/-- What there is when there is a configuration. -/
theorem lease_eq_some {est : Established} (h : l.lease = some est) :
  l.phase = .opened ∧ l.ipv4cp.state = .opened
    ∧ l.ipv4cp.proto.address = ⟨est.localIp, false⟩
    ∧ l.ipv4cp.proto.peerAddress = est.peerIp ∧ est.peerIp ≠ unspecified
  := by
  rw [lease, PppSession.established] at h
  dsimp only at h
  split at h
  · cases h
  · rename_i hphase
    obtain ⟨ipv4, hstatus, h⟩ := Option.bind_eq_some_iff.mp h
    obtain ⟨localIp, hlocal, h⟩ := Option.bind_eq_some_iff.mp h
    obtain ⟨peerIp, hpeer, h⟩ := Option.bind_eq_some_iff.mp h
    obtain rfl := Option.some.inj h
    simp only [status] at hphase hstatus
    split at hstatus
    · rename_i hstate
      obtain rfl := Option.some.inj hstatus
      simp only [Ipv4cp.status, IpOption.get] at hlocal hpeer
      split at hlocal
      · cases hlocal
      · rename_i haddr
        split at hpeer
        · cases hpeer
        · rename_i hunspec
          obtain rfl := Option.some.inj hpeer
          obtain rfl := Option.some.inj hlocal
          rw [Bool.or_eq_true, not_or, Bool.not_eq_true] at haddr
          refine ⟨not_not.mp hphase, hstate, ?_, rfl, hunspec⟩
          rw [← haddr.1]
    · cases hstatus

end Ppp.PPP

namespace Core

/-- What happens to the link and to the configuration while discovery has no new session. -/
theorem discovered_tick (c : Core) :
  let c' := discovered { c with discovery := c.discovery.onTick.2 } c.discovery.onTick.1
  c'.link = c.link ∧ c'.established = c.established ∧ (c'.linkDown = false → c.linkDown = false)
  := by
  have hmove := Discovery.onTick_move c.discovery
  generalize c.discovery.onTick = r at hmove
  obtain ⟨a, disc⟩ := r
  cases hmove with
  | idle | waited | resent => exact ⟨rfl, rfl, fun h => h⟩
  | gaveUp =>
      refine ⟨rfl, rfl, ?_⟩
      intro h
      simp only [discovered, Bool.or_eq_false_iff] at h
      exact h.1.1

theorem liveness_link (c : Core) :
  (∃ seen, c.liveness.link = { c.link with echoReplySeen := seen })
    ∧ c.liveness.established = c.established ∧ (c.liveness.linkDown = false → c.linkDown = false)
  := by
  rw [liveness]
  split
  · exact ⟨⟨_, rfl⟩, rfl, fun h => h⟩
  · rename_i hlive
    have hdown : c.linkDown = false := by
      cases h : c.linkDown
      · rfl
      · exact absurd (.inr h) hlive
    repeat' split
    all_goals exact ⟨⟨_, rfl⟩, rfl, fun _ => hdown⟩

theorem tick_link (c : Core) :
  (∃ seen, c.tick.link = { c.link.tick.2.poll.2 with echoReplySeen := seen })
    ∧ c.tick.established = c.established ∧ (c.tick.linkDown = false → c.linkDown = false)
  := by
  obtain ⟨hlink, hest, hdown⟩ := c.discovered_tick
  rw [tick]
  generalize discovered { c with discovery := c.discovery.onTick.2 } c.discovery.onTick.1 = c₁
    at hlink hest hdown
  dsimp only
  obtain ⟨⟨seen, hlink'⟩, hest', hdown'⟩ := liveness_link { c₁ with
    link := c₁.link.tick.2.poll.2
    linkDown := c₁.linkDown
      || (c₁.session.isSome && decide (c₁.link.tick.2.poll.2.phase = Phase.dead)) }
  refine ⟨⟨seen, ?_⟩, hest'.trans hest, ?_⟩
  · rw [hlink', hlink]
  · intro h
    have h₁ := hdown' h
    rw [Bool.or_eq_false_iff] at h₁
    exact hdown h₁.1

end Core

namespace PppoeDatapath

/-- The payload of a frame of our session. -/
def payloadOf (d : PppoeDatapath) (bytes : List UInt8) : Option (List UInt8) :=
  match d.session, parseSessionFrame bytes with
  | some session, .ok header =>
    if header.sessionId = session.sessionId then
      some ((bytes.drop header.pppStart).take (header.pppEnd - header.pppStart))
    else none
  | _, _ => none

/-- The packet for IPCP that a call brings. -/
def ipcpHeard (d : PppoeDatapath) : Op → Option (List UInt8)
  | .frame bytes => (d.payloadOf bytes).filter fun pkt => protocolOf pkt = some .ipv4cp
  | _ => none

/-- The packets of IPCP that are sent when discovery asks for something. -/
def openingPackets (a : Discovery.Action) (l : PPP) : List Packet :=
  match a, l.openLink with
  | .established _, .ok link => ipcpPackets link.poll.1
  | _, _ => []

/-- The packets of IPCP that a call sends. -/
def ipcpSent (md5 : Digest) (d : PppoeDatapath) : Op → List Packet
  | .frame bytes =>
    match d.payloadOf bytes with
    | some pkt =>
      (if protocolOf pkt = some .ipv4cp then (d.ppp.ppp.ipv4cp.handle pkt).1 else [])
        ++ ipcpPackets (d.ppp.ppp.received md5 pkt).2.2.poll.1
    | none => openingPackets (d.discovery.onFrame bytes).1 d.ppp.ppp
  | .tick => d.ppp.ppp.ipv4cp.onTick.1.toList ++ ipcpPackets d.ppp.ppp.tick.2.poll.1
  | _ => []

end PppoeDatapath

/-- A datapath, the requests that its IPCP has sent, and the options of the last request of the
peer for IPCP that was acknowledged. -/
structure Tenant where
  datapath : PppoeDatapath
  asked : List Asked
  given : Option (List OptionVal)

namespace Tenant

def ipcp (s : Tenant) : OptionFsm Ipv4cp :=
  s.datapath.ppp.ppp.ipv4cp

def step (md5 : Digest) (s : Tenant) (op : Op) : Tenant where
  datapath := s.datapath.apply md5 op
  asked :=
    let asked := match s.datapath.ipcpHeard op with
      | some pkt => Asked.answered pkt s.asked
      | none => s.asked
    Asked.note asked (s.datapath.ipcpSent md5 op)
  given :=
    match s.datapath.ipcpHeard op with
    | some pkt => lastAcked s.given pkt (s.ipcp.handle pkt).1
    | none => s.given

/-- The configuration is that of IPCP: it has been open and was not closed since, our address is
that of the last request of ours that the peer acknowledged, and the address of the peer that of
the last request of the peer that we acknowledged. -/
def Live (s : Tenant) : Prop :=
  ∀ est, s.datapath.phase = .established est →
    s.ipcp.Up ∧ (Asked.granted s.asked).bind carriedAddress = some est.localIp
      ∧ s.given.bind carriedAddress = some est.peerIp

/-- A control packet that leaves nothing behind: an acknowledgement that IPCP waits for carries
its identifier, a refusal is well-formed, and so is a request while we stand by an earlier one;
and a request that will be acknowledged carries an address, unless there is none of an earlier
one. -/
def Proper (m : OptionFsm Ipv4cp) (c : Code × UInt8 × List UInt8) : Prop :=
  (c.1 = .configureAck → m.state = .reqSent ∨ m.state = .ackSent → c.2.1 = m.id)
    ∧ (c.1 = .configureNack ∨ c.1 = .configureRej → Negotiation.WellFormed c.2.2)
    ∧ (c.1 = .configureReq → m.Standing → Negotiation.WellFormed c.2.2)
    ∧ (c.1 = .configureReq → Negotiation.WellFormed c.2.2 →
        OptionFsm.Acceptable m.proto (optionsOf c.2.2) →
        (carriedAddress (optionsOf c.2.2)).isSome ∨ m.proto.peerAddress = unspecified)

/-- A control packet that leaves a configuration as it is: it does not end IPCP, a request that
will be acknowledged has the address that the peer had, and a refusal leaves ours. -/
def Unmoved (est : Established) (m : OptionFsm Ipv4cp) (c : Code × UInt8 × List UInt8) : Prop :=
  (c.1 = .terminateReq → m.state ≠ .opened)
    ∧ (c.1 = .configureReq → Negotiation.WellFormed c.2.2 →
        OptionFsm.Acceptable m.proto (optionsOf c.2.2) →
        carriedAddress (optionsOf c.2.2) = some est.peerIp)
    ∧ (c.1 = .configureNack ∨ c.1 = .configureRej → ∀ o ∈ optionsOf c.2.2,
        o.code = Ipv4cp.optIpAddress → c.1 = .configureNack ∧ o.data = u32ToBe est.localIp.bits)

/-- What IPCP hears while it is not closed is proper, and leaves the configuration once there is
one. -/
def Steady (s : Tenant) (op : Op) : Prop :=
  ∀ pkt ∈ s.datapath.ipcpHeard op, ∀ c ∈ control pkt, s.ipcp.state ≠ .closed →
    Proper s.ipcp c
      ∧ (s.datapath.linkDown = false → ∀ est ∈ s.datapath.established, Unmoved est s.ipcp c)

instance (m : OptionFsm Ipv4cp) (c : Code × UInt8 × List UInt8) : Decidable (Proper m c) :=
  inferInstanceAs (Decidable (_ ∧ _))

instance (est : Established) (m : OptionFsm Ipv4cp) (c : Code × UInt8 × List UInt8) :
    Decidable (Unmoved est m c) :=
  inferInstanceAs (Decidable (_ ∧ _))

instance (s : Tenant) (op : Op) : Decidable (s.Steady op) :=
  inferInstanceAs (Decidable (∀ pkt ∈ s.datapath.ipcpHeard op, _))

/-! ### What holds between the calls -/

/-- What a configuration says of the link underneath. -/
structure Leased (est : Established) (l : PPP) (asked : List Asked)
    (given : Option (List OptionVal)) : Prop where
  phase : l.phase = .opened
  up : l.ipv4cp.Up
  held : Asked.Holds est.localIp asked
  own : l.ipv4cp.proto.address = ⟨est.localIp, false⟩
  given : given.bind carriedAddress = some est.peerIp

/-- What is known of the requests. -/
structure Tracked (m : OptionFsm Ipv4cp) (asked : List Asked) (given : Option (List OptionVal)) :
    Prop where
  current : Asked.Current m asked
  agrees : m.Agrees Ipv4cp.Agrees given

theorem tracked_of_closed {m : OptionFsm Ipv4cp} (h : m.state = .closed) (asked : List Asked)
    (given : Option (List OptionVal)) :
  Tracked m asked given
  := by
  refine ⟨fun hopen => absurd h hopen, fun hstand => ?_⟩
  simp [OptionFsm.Standing, h] at hstand

/-- A configuration that is new is the one that IPCP has agreed on. -/
theorem leased_of_lease {l : PPP} {asked : List Asked} {given : Option (List OptionVal)}
    {est : Established} (h : l.lease = some est) (hsane : l.Sane)
    (htrack : Tracked l.ipv4cp asked given) :
  Leased est l asked given
  := by
  obtain ⟨hphase, hstate, hown, hpeer, hunspec⟩ := PPP.lease_eq_some h
  obtain ⟨_, hsane⟩ := hsane
  simp only [hphase] at hsane
  obtain ⟨_, hup, _⟩ := hsane
  obtain ⟨a, rest, rfl, _, hwanted, hacked⟩ := htrack.current (by simp [hstate])
  obtain ⟨opts, rfl, hagrees⟩ := htrack.agrees (.inr hstate)
  refine ⟨hphase, ?_, ⟨?_, .inl (hacked (.inr hstate))⟩, hown, ?_⟩
  · obtain hup | hdown := hup
    · exact hup
    · exact absurd (hstate.symm.trans hdown.1) (by decide)
  · rw [hwanted, Ipv4cp.wanted, hown]
    rfl
  · rw [Option.bind_some, hagrees (by rw [hpeer]; exact hunspec), hpeer]

/-- The requests after IPCP has heard a payload. -/
def askedAfter (m : OptionFsm Ipv4cp) (pkt : List UInt8) (asked : List Asked) : List Asked :=
  if protocolOf pkt = some .ipv4cp then Asked.note (Asked.answered pkt asked) (m.handle pkt).1
  else asked

/-- The request that was acknowledged last, after IPCP has heard a payload. -/
def givenAfter (m : OptionFsm Ipv4cp) (pkt : List UInt8) (given : Option (List OptionVal)) :
    Option (List OptionVal) :=
  if protocolOf pkt = some .ipv4cp then lastAcked given pkt (m.handle pkt).1 else given

variable {md5 : Digest} {l : PPP} {asked : List Asked} {given : Option (List OptionVal)}
  {est : Established} {pkt : List UInt8}

/-- Only a payload of IPCP reaches IPCP. -/
theorem ipv4cp_received (md5 : Digest) (l : PPP) (pkt : List UInt8) :
  (l.received md5 pkt).2.2.phase = l.phase
    ∧ (l.received md5 pkt).2.2.ipv4cp
      = if protocolOf pkt = some .ipv4cp then (l.ipv4cp.handle pkt).2 else l.ipv4cp
  := by
  have hrec := PPP.received_received md5 l pkt
  generalize (l.received md5 pkt).2.2 = l' at hrec
  cases hrec with
  | ipv4cp hproto => exact ⟨rfl, by rw [if_pos hproto]⟩
  | kept _ hproto => exact ⟨rfl, by rw [if_neg hproto]⟩
  | lcp hproto | pap hproto | chap hproto | unknown hproto =>
      exact ⟨rfl, by rw [if_neg (by simp [hproto])]⟩

theorem Tracked.received (h : Tracked l.ipv4cp asked given)
    (hok : protocolOf pkt = some .ipv4cp → ∀ c ∈ control pkt, l.ipv4cp.state ≠ .closed →
      Proper l.ipv4cp c) :
  Tracked (l.received md5 pkt).2.2.ipv4cp (askedAfter l.ipv4cp pkt asked)
    (givenAfter l.ipv4cp pkt given)
  := by
  rw [(ipv4cp_received md5 l pkt).2, askedAfter, givenAfter]
  split
  · rename_i hproto
    have hh := l.ipv4cp.handle_handled pkt
    constructor
    · apply h.current.handled hh
      · intro id p hc hs
        have hopen : l.ipv4cp.state ≠ .closed := by
          obtain hs | hs := hs <;> simp [hs]
        exact (hok hproto _ hc hopen).1 rfl hs
      · intro code id p hc hcode hopen
        exact (hok hproto _ hc hopen).2.1 hcode
    · apply OptionFsm.agrees_handled hh _ _ h.agrees
      · intro id p hc hopen
        obtain ⟨_, _, hwf, hset⟩ := hok hproto _ hc hopen
        refine ⟨hwf rfl, ?_⟩
        intro hp hacc
        exact Ipv4cp.agrees_judged hacc (hset rfl hp hacc)
      · intro c code data isRej opts hc
        exact Ipv4cp.agrees_ownOptionNacked hc code data isRej
  · exact h

theorem Tracked.poll (h : Tracked l.ipv4cp asked given)
    (hclosed : l.phase = .establish ∨ l.phase = .auth → l.ipv4cp.state = .closed) :
  Tracked l.poll.2.ipv4cp (Asked.note asked (ipcpPackets l.poll.1)) given
  := by
  obtain ⟨hip, hsent⟩ | ⟨hstate, hip, hsent⟩ := PPP.ipcp_poll hclosed
  · rw [hip, hsent]
    exact h
  · rw [hip, hsent]
    refine ⟨Asked.current_openFsm l.ipv4cp asked hstate, fun hstand => ?_⟩
    rw [OptionFsm.Standing, OptionFsm.state_openFsm hstate] at hstand
    simp at hstand

theorem Tracked.tick (h : Tracked l.ipv4cp asked given) :
  Tracked l.tick.2.ipv4cp (Asked.note asked l.ipv4cp.onTick.1.toList) given
  := ⟨h.current.ticked l.ipv4cp.onTick_ticked,
    OptionFsm.agrees_ticked l.ipv4cp.onTick_ticked h.agrees⟩

/-- A payload that leaves a configuration as it is. -/
theorem Leased.received (h : Leased est l asked given)
    (hok : protocolOf pkt = some .ipv4cp → ∀ c ∈ control pkt, Unmoved est l.ipv4cp c) :
  Leased est (l.received md5 pkt).2.2 (askedAfter l.ipv4cp pkt asked)
    (givenAfter l.ipv4cp pkt given)
  := by
  obtain ⟨hphase, hip⟩ := ipv4cp_received md5 l pkt
  rw [askedAfter, givenAfter]
  by_cases hproto : protocolOf pkt = some .ipv4cp
  · rw [if_pos hproto] at hip
    rw [if_pos hproto, if_pos hproto]
    have hh := l.ipv4cp.handle_handled pkt
    have hown : (l.ipv4cp.handle pkt).2.proto.address = ⟨est.localIp, false⟩ := by
      apply OptionFsm.address_handle h.own
      intro code id p hc hcode _
      exact (hok hproto _ hc).2.2 hcode
    refine ⟨hphase.trans h.phase, ?_, ?_, ?_, ?_⟩
    · rw [hip]
      obtain hup | ⟨_, id, p, hc, hs⟩ := hh.up_or_terminated h.up
      · exact hup
      · exact absurd hs ((hok hproto _ hc).1 rfl)
    · apply (h.held.answered pkt).note
      intro q hq r hr
      rw [hh.requests q hq r hr, Ipv4cp.carriedAddress_ownOptions, Ipv4cp.wanted, hown]
      rfl
    · rw [hip]
      exact hown
    · by_cases hack : (l.ipv4cp.handle pkt).1.any Packet.acks = true
      · obtain ⟨id, p, hc, _, hwf, hacc⟩ := hh.acks hack
        rw [lastAcked, if_pos hack, hc]
        exact (hok hproto _ hc).2.1 rfl hwf hacc
      · rw [lastAcked, if_neg hack]
        exact h.given
  · rw [if_neg hproto] at hip
    rw [if_neg hproto, if_neg hproto]
    refine ⟨hphase.trans h.phase, ?_, h.held, ?_, h.given⟩
    · rw [hip]
      exact h.up
    · rw [hip]
      exact h.own

theorem Leased.poll (h : Leased est l asked given) (hphase : l.poll.2.phase = .opened) :
  Leased est l.poll.2 (Asked.note asked (ipcpPackets l.poll.1)) given
  := by
  have hsent : ipcpPackets l.poll.1 = [] := by
    have heq : l.poll.1 = l.pollPhase.1.map .packet := rfl
    rw [heq]
    simp [PPP.pollPhase, h.phase, ipcpPackets]
  have hip : l.poll.2.ipv4cp = l.ipv4cp := by
    rw [PPP.poll_opened h.phase, PPP.settle]
    split <;> rfl
  rw [hsent]
  exact ⟨hphase, by rw [hip]; exact h.up, h.held, by rw [hip]; exact h.own, h.given⟩

theorem Leased.tick (h : Leased est l asked given) :
  Leased est l.tick.2 (Asked.note asked l.ipv4cp.onTick.1.toList) given
  := by
  have htick := l.ipv4cp.onTick_ticked
  refine ⟨h.phase, (htick.up h.up).1, ?_, ?_, h.given⟩
  · apply h.held.note
    intro q hq r hr
    rw [htick.requests q hq r hr, Ipv4cp.carriedAddress_ownOptions, Ipv4cp.wanted, h.own]
    rfl
  · rw [PPP.tick_eq]
    dsimp only
    rw [htick.proto_eq]
    exact h.own

/-- What holds between two calls: the requests are known, and a configuration of a link that is
not down is the one that IPCP has agreed on. -/
structure Inv (c : Core) (asked : List Asked) (given : Option (List OptionVal)) : Prop where
  sound : c.Sound
  tracked : Tracked c.link.ipv4cp asked given
  leased : c.linkDown = false → ∀ est ∈ c.established, Leased est c.link asked given

variable {c : Core}

/-- While IPCP is not needed, it is closed. -/
theorem closed_of_stirred (h : l.Stirred) (hphase : l.phase = .establish ∨ l.phase = .auth) :
  l.ipv4cp.state = .closed
  := by
  obtain ⟨_, h⟩ := h
  obtain hphase | hphase := hphase
  · simp only [hphase] at h
    exact h.2.1.1
  · simp only [hphase] at h
    exact h.2.1.1

/-- An open link stays open as long as LCP is not closed. -/
theorem opened_poll (h : l.Stirred) (hphase : l.phase = .opened)
    (hlcp : l.poll.2.lcp.state ≠ .closed) :
  l.poll.2.phase = .opened
  := by
  obtain ⟨_, h⟩ := h
  simp only [hphase] at h
  have hlcp' : l.lcp.state ≠ .closed := by
    rw [PPP.poll_opened hphase, PPP.settle] at hlcp
    split at hlcp <;> exact hlcp
  rw [PPP.poll_opened hphase, PPP.settle_live hlcp' h.2.2]
  exact hphase

theorem Inv.payload (h : Inv c asked given) (hsession : c.session ≠ none)
    (hok : protocolOf pkt = some .ipv4cp → ∀ x ∈ control pkt, c.link.ipv4cp.state ≠ .closed →
      Proper c.link.ipv4cp x
        ∧ (c.linkDown = false → ∀ est ∈ c.established, Unmoved est c.link.ipv4cp x)) :
  Inv (c.payload md5 pkt)
    (Asked.note (askedAfter c.link.ipv4cp pkt asked)
      (ipcpPackets (c.link.received md5 pkt).2.2.poll.1))
    (givenAfter c.link.ipv4cp pkt given)
  := by
  have hstirred := PPP.stirred_received (h.sound.sane hsession)
    (PPP.received_received md5 c.link pkt)
  have htrack : Tracked (c.link.received md5 pkt).2.2.poll.2.ipv4cp
      (Asked.note (askedAfter c.link.ipv4cp pkt asked)
        (ipcpPackets (c.link.received md5 pkt).2.2.poll.1))
      (givenAfter c.link.ipv4cp pkt given) := by
    apply Tracked.poll _ (closed_of_stirred hstirred)
    apply h.tracked.received
    intro hproto x hx hopen
    exact (hok hproto x hx hopen).1
  refine ⟨h.sound.payload hsession pkt, htrack, ?_⟩
  intro hdown est hest
  simp only [Core.payload, Core.refresh, Bool.or_eq_false_iff] at hdown hest
  obtain ⟨hdown, hclosed⟩ := hdown
  cases hold : c.established with
  | none =>
      rw [hold, Option.none_or] at hest
      exact leased_of_lease hest (PPP.sane_poll hstirred) htrack
  | some est' =>
      rw [hold, Option.some_or, Option.mem_some_iff] at hest
      subst hest
      have hleased := h.leased hdown est' hold
      have hlive : Leased est' (c.link.received md5 pkt).2.2 (askedAfter c.link.ipv4cp pkt asked)
          (givenAfter c.link.ipv4cp pkt given) := by
        apply hleased.received
        intro hproto x hx
        exact (hok hproto x hx hleased.up.1).2 hdown est' hold
      apply hlive.poll
      apply opened_poll hstirred hlive.phase
      rw [hold, Option.some_or, Option.isSome_some, Bool.true_and] at hclosed
      simpa [PPP.lcpClosed] using hclosed

/-- A tick leaves a configuration, while the link is not down. -/
theorem Inv.tick (h : Inv c asked given) :
  Inv c.tick
    (Asked.note (Asked.note asked c.link.ipv4cp.onTick.1.toList)
      (ipcpPackets c.link.tick.2.poll.1)) given
  := by
  obtain ⟨⟨seen, hlink⟩, hest, hdown⟩ := c.tick_link
  have hclosed : c.link.tick.2.phase = .establish ∨ c.link.tick.2.phase = .auth →
      c.link.tick.2.ipv4cp.state = .closed := by
    by_cases hsession : c.session = none
    · have hidle := (h.sound.idle hsession).1
      rw [PPP.tick_eq]
      simp [hidle.phase]
    · exact closed_of_stirred (PPP.stirred_tick (h.sound.sane hsession))
  refine ⟨h.sound.tick, ?_, ?_⟩
  · rw [hlink]
    exact h.tracked.tick.poll hclosed
  · intro hd est he
    rw [hest] at he
    have hleased := h.leased (hdown hd) est he
    have hsession : c.session ≠ none := by
      intro hnone
      rw [(h.sound.idle hnone).2] at he
      cases he
    have hlive := hleased.tick.poll ((h.sound.sane hsession).tick_poll_opened hleased.phase)
    rw [hlink]
    exact { hlive with }

/-- A frame of discovery, or the start, leaves a configuration while the link is not down. -/
theorem Inv.discovered {e : Discovery.Event} {a : Discovery.Action} {disc : Discovery}
    (h : Inv c asked given) (hmove : c.discovery.Move e a disc) :
  Inv (Core.discovered { c with discovery := disc } a)
    (Asked.note asked (PppoeDatapath.openingPackets a c.link)) given
  := by
  have hsound := h.sound.discovered hmove
  cases hmove with
  | idle | started | offered | waited | resent => exact ⟨hsound, h.tracked, h.leased⟩
  | ended | gaveUp =>
      refine ⟨hsound, h.tracked, ?_⟩
      intro hdown
      simp only [Core.discovered, Bool.or_eq_false_iff] at hdown
      exact h.leased hdown.1.1
  | confirmed hstate =>
      obtain ⟨hidle, hest⟩ := h.sound.idle (h.sound.searching (.inr (.inr hstate)))
      obtain ⟨link, hopen, _, hphase⟩ := hidle.openLink
      have hclosed : link.ipv4cp.state = .closed := by
        rw [PPP.openLink, hidle.phase] at hopen
        obtain rfl := Except.ok.inj hopen
        exact hidle.ipv4cp.1
      have hlease : link.poll.2.lease = none := by
        cases hl : link.poll.2.lease with
        | none => rfl
        | some est =>
            exact absurd (hphase.symm.trans (PPP.lease_eq_some hl).1) (by decide)
      simp only [Core.discovered, PppoeDatapath.openingPackets, hopen] at hsound ⊢
      refine ⟨hsound, (tracked_of_closed hclosed asked given).poll fun _ => hclosed, ?_⟩
      intro _ est he
      simp only [Core.refresh, hest, hlease] at he
      cases he

/-! ### The calls -/

variable {s : Tenant} {op : Op}

theorem payloadOf_eq_some (md5 : Digest) {d : PppoeDatapath} {bytes : List UInt8}
    (h : d.payloadOf bytes = some pkt) :
  d.session ≠ none ∧ d.onL2Frame md5 bytes = d.onSessionPayload md5 pkt
  := by
  rw [PppoeDatapath.payloadOf] at h
  split at h
  · rename_i session header hsession hparse
    split at h
    · rename_i hsid
      obtain rfl := Option.some.inj h
      refine ⟨by simp [hsession], ?_⟩
      rw [PppoeDatapath.onL2Frame_session hparse,
        PppoeDatapath.onSessionFrame_ours hparse hsession hsid]
    · cases h
  · cases h

/-- A frame that is not of our session goes to discovery, or nowhere. -/
theorem core_of_payloadOf {d : PppoeDatapath} {bytes : List UInt8} (h : d.payloadOf bytes = none) :
  (d.onL2Frame md5 bytes).core
    = Core.discovered { d.core with discovery := (d.discovery.onFrame bytes).2 }
        (d.discovery.onFrame bytes).1
  := by
  cases hp : parseDiscoveryFrame bytes with
  | ok p =>
      rw [PppoeDatapath.onL2Frame_discovery hp, PppoeDatapath.core_applyDiscoveryAction]
      rfl
  | error e =>
      have hdrop : d.discovery.onFrame bytes = (.idle, d.discovery) := by
        rw [Discovery.onFrame, hp]
      have hkeep : d.onL2Frame md5 bytes = d := by
        cases hs : parseSessionFrame bytes with
        | error e' =>
            apply PppoeDatapath.onL2Frame_of_labelOf
            rw [labelOf, hs, hp]
        | ok header =>
            rw [PppoeDatapath.onL2Frame_session hs]
            apply PppoeDatapath.onSessionFrame_other hs
            intro session hsession hsid
            rw [Option.mem_def] at hsession
            rw [PppoeDatapath.payloadOf, hsession, hs] at h
            simp [hsid] at h
      rw [hkeep, hdrop]
      rfl

theorem step_frame_of_none {bytes : List UInt8} (h : s.datapath.payloadOf bytes = none) :
  s.step md5 (.frame bytes)
    = ⟨s.datapath.onL2Frame md5 bytes,
        Asked.note s.asked (PppoeDatapath.openingPackets (s.datapath.discovery.onFrame bytes).1
          s.datapath.core.link), s.given⟩
  := by
  simp only [step, PppoeDatapath.ipcpHeard, PppoeDatapath.ipcpSent, h, Option.filter_none]
  rfl

theorem step_frame_of_some {bytes : List UInt8} (h : s.datapath.payloadOf bytes = some pkt) :
  s.step md5 (.frame bytes)
    = ⟨s.datapath.onL2Frame md5 bytes,
        Asked.note (askedAfter s.ipcp pkt s.asked)
          (ipcpPackets (s.datapath.core.link.received md5 pkt).2.2.poll.1),
        givenAfter s.ipcp pkt s.given⟩
  := by
  have happend : ∀ asked (sent sent' : List Packet),
      Asked.note asked (sent ++ sent') = Asked.note (Asked.note asked sent) sent' := by
    intro asked sent sent'
    apply List.foldl_append
  simp only [step, PppoeDatapath.ipcpHeard, PppoeDatapath.ipcpSent, h, Option.filter_some,
    askedAfter, givenAfter, decide_eq_true_eq]
  by_cases hproto : protocolOf pkt = some .ipv4cp
  · simp only [hproto, if_true]
    rw [happend]
    rfl
  · simp only [hproto, if_false]
    rfl

theorem heard_of_payloadOf {bytes : List UInt8} (h : s.datapath.payloadOf bytes = some pkt)
    (hproto : protocolOf pkt = some .ipv4cp) :
  s.datapath.ipcpHeard (.frame bytes) = some pkt
  := by
  simp [PppoeDatapath.ipcpHeard, h, hproto]

/-- Nothing is left of a session that is dropped. -/
theorem inv_released {c' : Core} (hsound : c'.Sound) (hidle : c'.link.Idle)
    (hest : c'.established = none) :
  Inv c' asked given
  := by
  refine ⟨hsound, tracked_of_closed hidle.ipv4cp.1 asked given, ?_⟩
  intro _ est he
  rw [hest] at he
  cases he

theorem Inv.frame {bytes : List UInt8} (h : Inv s.datapath.core s.asked s.given)
    (hok : s.Steady (.frame bytes)) :
  Inv (s.step md5 (.frame bytes)).datapath.core (s.step md5 (.frame bytes)).asked
    (s.step md5 (.frame bytes)).given
  := by
  cases hp : s.datapath.payloadOf bytes with
  | none =>
      rw [step_frame_of_none hp]
      dsimp only
      rw [core_of_payloadOf hp]
      exact h.discovered (Discovery.onFrame_move s.datapath.discovery bytes)
  | some pkt =>
      obtain ⟨hsession, hframe⟩ := payloadOf_eq_some md5 hp
      rw [step_frame_of_some hp]
      dsimp only
      rw [hframe, PppoeDatapath.core_onSessionPayload]
      apply h.payload hsession
      intro hproto x hx hopen
      exact hok pkt (heard_of_payloadOf hp hproto) x hx hopen

theorem Inv.step (h : Inv s.datapath.core s.asked s.given) (hok : s.Steady op) :
  Inv (s.step md5 op).datapath.core (s.step md5 op).asked (s.step md5 op).given
  := by
  have hsound : (s.datapath.apply md5 op).core.Sound :=
    h.sound.step (PppoeDatapath.core_apply md5 s.datapath op)
  cases op with
  | start =>
      have hopening : PppoeDatapath.openingPackets s.datapath.discovery.start.1
          s.datapath.core.link = [] := by
        rw [Discovery.start]
        split <;> rfl
      have hstart := h.discovered (Discovery.start_move s.datapath.discovery)
      change Inv s.datapath.start.core s.asked s.given
      rw [hopening] at hstart
      rw [PppoeDatapath.core_start]
      exact hstart
  | frame bytes => exact h.frame hok
  | tick =>
      have hasked : (s.step md5 .tick).asked
          = Asked.note (Asked.note s.asked s.ipcp.onTick.1.toList)
            (ipcpPackets s.datapath.ppp.ppp.tick.2.poll.1) := by
        apply List.foldl_append
      rw [hasked]
      change Inv s.datapath.onTick.core _ s.given
      rw [PppoeDatapath.core_onTick]
      exact h.tick
  | release random =>
      cases hrel : s.datapath.release random with
      | error e =>
          have happly : s.datapath.apply md5 (.release random) = s.datapath := by
            rw [PppoeDatapath.apply, hrel]
          simp only [Tenant.step, happly]
          exact h
      | ok d' =>
          have happly : s.datapath.apply md5 (.release random) = d' := by
            rw [PppoeDatapath.apply, hrel]
          obtain ⟨link, hidle, hcore⟩ := PppoeDatapath.core_release hrel
          simp only [Tenant.step, happly] at hsound ⊢
          rw [hcore] at hsound ⊢
          exact inv_released hsound hidle rfl
  | reset random =>
      cases hreset : s.datapath.reset random with
      | error e =>
          have happly : s.datapath.apply md5 (.reset random) = s.datapath := by
            rw [PppoeDatapath.apply, hreset]
          simp only [Tenant.step, happly]
          exact h
      | ok d' =>
          have happly : s.datapath.apply md5 (.reset random) = d' := by
            rw [PppoeDatapath.apply, hreset]
          obtain ⟨link, hidle, hcore⟩ := PppoeDatapath.core_reset hreset
          simp only [Tenant.step, happly] at hsound ⊢
          rw [hcore] at hsound ⊢
          exact inv_released hsound hidle rfl
  | setRequestDns on =>
      refine ⟨hsound, ⟨h.tracked.current, h.tracked.agrees⟩, ?_⟩
      intro hdown est he
      have hleased := h.leased hdown est he
      exact ⟨hleased.phase, hleased.up, hleased.held, hleased.own, hleased.given⟩
  | setClampMss clamp => exact h
  | tunIp ip =>
      have hcore : (s.datapath.onTunIp ip).core = s.datapath.core := by
        rw [PppoeDatapath.onTunIp]
        split <;> rfl
      change Inv (s.datapath.onTunIp ip).core s.asked s.given
      rw [hcore]
      exact h
  | pollTransmitFrame =>
      have hcore : s.datapath.pollTransmitFrame.2.core = s.datapath.core := by
        rw [PppoeDatapath.pollTransmitFrame]
        split <;> rfl
      change Inv s.datapath.pollTransmitFrame.2.core s.asked s.given
      rw [hcore]
      exact h
  | pollInboundIp =>
      have hcore : s.datapath.pollInboundIp.2.core = s.datapath.core := by
        rw [PppoeDatapath.pollInboundIp]
        split <;> rfl
      change Inv s.datapath.pollInboundIp.2.core s.asked s.given
      rw [hcore]
      exact h

theorem phase_established {d : PppoeDatapath} (h : d.phase = .established est) :
  d.linkDown = false ∧ d.established = some est
  := by
  rw [PppoeDatapath.phase] at h
  split at h
  · cases h
  · rename_i hdown
    split at h
    · cases h
    · split at h
      · rename_i est' hest
        obtain rfl := DpPhase.established.inj h
        exact ⟨Bool.not_eq_true _ ▸ hdown, hest⟩
      · split at h <;> cases h

/-- A datapath for which nothing has been asked yet. -/
def new (d : PppoeDatapath) : Tenant :=
  ⟨d, [], none⟩

/-- Along every run in which what IPCP hears is proper and leaves the configuration, the
configuration that is reported is the one that IPCP has agreed on. -/
theorem lease_live {username password serviceName : List UInt8} {mru : UInt16}
    {retransmitTicks maxAttempts : ℕ} {mac : MacAddr} {hu : Bytes 4} {random : UInt32}
    {d : PppoeDatapath} {ops : List Op}
    (hd : PppoeDatapath.new username password serviceName mru retransmitTicks maxAttempts mac hu
      random = .ok d)
    (h : Run (Meeting Steady fun s op t => s.step md5 op = t) (new d) ops s) :
  s.Live
  := by
  have hnew := PppoeDatapath.core_new hd
  have hinv : Inv s.datapath.core s.asked s.given := by
    apply h.invariant (I := fun s => Inv s.datapath.core s.asked s.given)
    · exact inv_released (PppoeDatapath.core_new hd).sound hnew.link hnew.established
    · rintro s op _ hs ⟨hok, rfl⟩
      exact hs.step hok
  intro est hphase
  obtain ⟨hdown, hest⟩ := phase_established hphase
  have hleased := hinv.leased hdown est hest
  obtain ⟨opts, hgranted, hip⟩ := hleased.held.granted
  exact ⟨hleased.up, by rw [hgranted]; exact hip, hleased.given⟩

/-- LCP without authentication, and IPCP: the peer has an address, gives us one when we ask, and
acknowledges it. -/
def leasing : List Op :=
  PppoeDatapath.dialed ++ [
    PppoeDatapath.inSession Negotiation.plainRequest,
    PppoeDatapath.inSession firstAck,
    PppoeDatapath.inSession [0x80, 0x21, 1, 1, 0, 10, 3, 6, 10, 0, 0, 1],
    PppoeDatapath.inSession [0x80, 0x21, 3, 2, 0, 10, 3, 6, 10, 0, 0, 7],
    PppoeDatapath.inSession [0x80, 0x21, 2, 3, 0, 4]]

/-- The peer ends IPCP. -/
def ending : Op :=
  PppoeDatapath.inSession [0x80, 0x21, 5, 9, 0, 4]

def leased : Established :=
  ⟨⟨0x0a000007⟩, ⟨0x0a000001⟩, (none, none), 1492⟩

theorem lease_live_leasing :
  (leasing.foldl (step plainDigest) (new PppoeDatapath.fresh)).datapath.phase
      = .established leased
    ∧ (leasing.foldl (step plainDigest) (new PppoeDatapath.fresh)).Live
  := by
  refine ⟨by decide, ?_⟩
  have hrun := run_of_meets (by decide :
    meets Steady (step plainDigest) (new PppoeDatapath.fresh) leasing = true)
  have hnew : PppoeDatapath.new [1] [2] [] 1492 2 3 Dialog.host (List.Vector.replicate 4 7) 7
      = .ok PppoeDatapath.fresh := rfl
  exact lease_live hnew hrun

/-- The configuration is still reported when the peer has ended IPCP. -/
theorem lease_outlives_ipcp :
  ∃ s, Run (fun s op t => s.step plainDigest op = t) (new PppoeDatapath.fresh)
      (leasing ++ [ending]) s
    ∧ s.datapath.phase = .established leased ∧ s.ipcp.state = .closed ∧ ¬ s.Live
  := by
  refine ⟨_, run_foldl (step plainDigest) (new PppoeDatapath.fresh) (leasing ++ [ending]),
    by decide, by decide, ?_⟩
  intro hlive
  have hup := (hlive leased (by decide)).1
  exact hup.1 (by decide)

end Tenant

end ZeroNat.Pppoe

import ZeroNat.Pppoe.Discovery
import ZeroNat.Lib.Run

/-!
# The dialog of discovery

What discovery can do, whatever frames arrive and however often the timer ticks: it takes one
offer, asks the concentrator that made it for a session, and ends with the session that this
concentrator confirms.  A log keeps what went in and what came out.
-/

open BigEndian

namespace ZeroNat.Pppoe

namespace Discovery

/-- What discovery is given. -/
inductive Event where
  | start
  | frame (bytes : List UInt8)
  | tick
deriving DecidableEq

def step (d : Discovery) : Event → Action × Discovery
  | .start => d.start
  | .frame bytes => d.onFrame bytes
  | .tick => d.onTick

/-- A frame of ours is unanswered. -/
def Waiting (d : Discovery) : Prop :=
  d.state = .padiSent ∨ d.state = .padrSent

/-- An offer that is taken. -/
structure Offer (d : Discovery) (p : DiscoveryPacket) : Prop where
  code : p.code = codePado
  dst : p.eth.dst = d.src
  hostUniq : ∀ o, d.hostUniq = some o → p.hostUniq = some o

/-- A confirmation that is taken. -/
structure Confirmation (d : Discovery) (p : DiscoveryPacket) : Prop where
  code : p.code = codePads
  dst : p.eth.dst = d.src
  src : d.acMac = some p.eth.src
  hostUniq : ∀ o, d.hostUniq = some o → p.hostUniq = some o
  session : p.sessionId ≠ 0

/-- Everything that discovery can do when it is given an event. -/
inductive Move (d : Discovery) : Event → Action → Discovery → Prop where
  | idle {e : Event} : Move d e .idle d
  | started : d.state = .init →
      Move d .start (.send (buildPadi d.src d.serviceName d.hostUniq))
        { d with state := .padiSent, ticksSinceSend := 0, attempts := 0 }
  | offered {f : List UInt8} {p : DiscoveryPacket} : d.state = .padiSent →
      parseDiscoveryFrame f = .ok p → d.Offer p →
      Move d (.frame f) (.send (buildPadr d.src p.eth.src d.serviceName p.acCookie d.hostUniq))
        { d with
          acMac := some p.eth.src
          acCookie := p.acCookie
          state := .padrSent
          ticksSinceSend := 0
          attempts := 0 }
  | confirmed {f : List UInt8} {p : DiscoveryPacket} : d.state = .padrSent →
      parseDiscoveryFrame f = .ok p → d.Confirmation p →
      Move d (.frame f) (.established ⟨p.eth.src, p.sessionId⟩)
        { d with state := .established ⟨p.eth.src, p.sessionId⟩ }
  | ended {f : List UInt8} {p : DiscoveryPacket} : parseDiscoveryFrame f = .ok p →
      p.code = codePadt → d.acMac = some p.eth.src →
      Move d (.frame f) .failed { d with state := .dead }
  | waited : d.Waiting → d.ticksSinceSend + 1 < d.retransmitTicks →
      Move d .tick .idle { d with ticksSinceSend := d.ticksSinceSend + 1 }
  | gaveUp : d.Waiting → d.retransmitTicks ≤ d.ticksSinceSend + 1 →
      d.maxAttempts ≤ d.attempts + 1 →
      Move d .tick .failed { d with state := .dead, ticksSinceSend := d.ticksSinceSend + 1 }
  | resent : d.Waiting → d.retransmitTicks ≤ d.ticksSinceSend + 1 →
      d.attempts + 1 < d.maxAttempts →
      Move d .tick (.send d.resend) { d with attempts := d.attempts + 1, ticksSinceSend := 0 }

variable {d : Discovery}

theorem hostUniqMatches_iff {ours theirs : Option (List UInt8)} :
  hostUniqMatches ours theirs ↔ ∀ o, ours = some o → theirs = some o
  := by
  cases ours with
  | none => simp [hostUniqMatches]
  | some o => simp [hostUniqMatches]

theorem onPado_move {f : List UInt8} {p : DiscoveryPacket} (hstate : d.state = .padiSent)
    (hp : parseDiscoveryFrame f = .ok p) :
  Move d (.frame f) (d.onPado p).1 (d.onPado p).2
  := by
  rw [onPado]
  split
  · apply Move.idle
  · rename_i hcode
    split
    · apply Move.idle
    · rename_i hdst
      split
      · apply Move.idle
      · rename_i hu
        rw [Bool.not_eq_true', Bool.not_eq_false] at hu
        apply Move.offered hstate hp
        exact ⟨not_not.mp hcode, not_not.mp hdst, hostUniqMatches_iff.mp hu⟩

theorem onPads_move {f : List UInt8} {p : DiscoveryPacket} (hstate : d.state = .padrSent)
    (hp : parseDiscoveryFrame f = .ok p) :
  Move d (.frame f) (d.onPads p).1 (d.onPads p).2
  := by
  rw [onPads]
  split
  · apply Move.idle
  · rename_i hcode
    split
    · apply Move.idle
    · rename_i hdst
      split
      · apply Move.idle
      · rename_i hsrc
        split
        · apply Move.idle
        · rename_i hu
          rw [Bool.not_eq_true', Bool.not_eq_false] at hu
          split
          · apply Move.idle
          · rename_i hsid
            apply Move.confirmed hstate hp
            exact ⟨not_not.mp hcode, not_not.mp hdst, not_not.mp hsrc,
              hostUniqMatches_iff.mp hu, hsid⟩

theorem onFrame_move (d : Discovery) (f : List UInt8) :
  Move d (.frame f) (d.onFrame f).1 (d.onFrame f).2
  := by
  rw [onFrame]
  split
  · apply Move.idle
  · rename_i p hp
    split
    · rename_i hcode
      split
      · rename_i hac
        exact Move.ended hp hcode hac
      · apply Move.idle
    · split
      · rename_i hstate
        exact onPado_move hstate hp
      · rename_i hstate
        exact onPads_move hstate hp
      all_goals apply Move.idle

theorem onWaitingTick_move (h : d.Waiting) :
  Move d .tick d.onWaitingTick.1 d.onWaitingTick.2
  := by
  rw [onWaitingTick]
  dsimp only
  split
  · rename_i hticks
    exact Move.waited h hticks
  · rename_i hticks
    split
    · rename_i hattempts
      exact Move.gaveUp h (not_lt.mp hticks) hattempts
    · rename_i hattempts
      exact Move.resent h (not_lt.mp hticks) (not_le.mp hattempts)

theorem onTick_move (d : Discovery) :
  Move d .tick d.onTick.1 d.onTick.2
  := by
  rw [onTick]
  split
  · rename_i hstate
    exact onWaitingTick_move (.inl hstate)
  · rename_i hstate
    exact onWaitingTick_move (.inr hstate)
  all_goals apply Move.idle

theorem start_move (d : Discovery) :
  Move d .start d.start.1 d.start.2
  := by
  rw [start]
  split
  · apply Move.idle
  · rename_i hstate
    exact Move.started (not_not.mp hstate)

theorem step_move (d : Discovery) (e : Event) :
  Move d e (d.step e).1 (d.step e).2
  := by
  cases e with
  | start => apply start_move
  | frame f => apply onFrame_move
  | tick => apply onTick_move

end Discovery

/-- The code of a discovery frame. -/
def frameCode (bytes : List UInt8) : UInt8 :=
  bytes.getD 15 0

theorem frameCode_putPppoe (dst src : MacAddr) (code : UInt8) (sessionId : UInt16)
    (payload : List UInt8) :
  frameCode (putEthHeader dst src etherTypeDiscovery ++ putPppoe code sessionId payload) = code
  := by
  have hlen : (putEthHeader dst src etherTypeDiscovery).length = 14 := length_putEthHeader _ _ _
  rw [frameCode, List.getD_eq_getElem?_getD, List.getElem?_append_right (by omega), hlen]
  rfl

/-- Discovery with a log of what it was given, in which state, and what it asked for. -/
structure Dialog where
  machine : Discovery
  log : List (Discovery.State × Discovery.Event × Discovery.Action)

namespace Dialog

open Discovery

/-- An entry of the log. -/
abbrev Entry : Type :=
  Discovery.State × Discovery.Event × Discovery.Action

def new (src : MacAddr) (serviceName : List UInt8) (hostUniq : Option (List UInt8))
    (retransmitTicks maxAttempts : ℕ) : Dialog :=
  ⟨Discovery.new src serviceName hostUniq retransmitTicks maxAttempts, []⟩

def step (s : Dialog) (e : Event) : Dialog :=
  ⟨(s.machine.step e).2, s.log ++ [(s.machine.state, e, (s.machine.step e).1)]⟩

/-- An entry that sends a frame with a code. -/
def sends (code : UInt8) (x : Entry) : Bool :=
  match x.2.2 with
  | .send bytes => frameCode bytes = code
  | _ => false

/-- The frames with a code that have been sent. -/
def sent (s : Dialog) (code : UInt8) : ℕ :=
  s.log.countP (sends code)

/-- An entry at which an offer to `d₀` was taken, while it waited for one. -/
def Takes (d₀ : Discovery) (x : Entry) (p : DiscoveryPacket) : Prop :=
  x.1 = .padiSent ∧ (∃ f, x.2.1 = .frame f ∧ parseDiscoveryFrame f = .ok p) ∧ d₀.Offer p

/-- An entry at which `d₀` was given a session by a concentrator, while it waited for that. -/
def Confirms (d₀ : Discovery) (ac : MacAddr) (sid : UInt16) (x : Entry) : Prop :=
  x.1 = .padrSent ∧ ∃ f p, x.2.1 = .frame f ∧ parseDiscoveryFrame f = .ok p
    ∧ { d₀ with acMac := some ac }.Confirmation p ∧ p.sessionId = sid

/-- Every request for a session that an entry sends answers an offer: it goes to the
concentrator, with its cookie and our tag. -/
def Asks (d₀ : Discovery) (p : DiscoveryPacket) (x : Entry) : Prop :=
  ∀ bytes, x.2.2 = .send bytes → frameCode bytes = codePadr →
    bytes = buildPadr d₀.src p.eth.src d₀.serviceName p.acCookie d₀.hostUniq

/-- An offer was taken.  No request for a session was sent before it, all that were sent since
answer it, and a session that we have was given by the same concentrator after it. -/
def Answered (d₀ : Discovery) (s : Dialog) (p : DiscoveryPacket) : Prop :=
  ∃ l₁ x l₂, s.log = l₁ ++ x :: l₂ ∧ Takes d₀ x p
    ∧ (∀ y ∈ l₁, sends codePadr y = false) ∧ (∀ y ∈ x :: l₂, Asks d₀ p y)
    ∧ ∀ est, s.machine.state = .established est →
        est.acMac = p.eth.src ∧ ∃ y ∈ l₂, Confirms d₀ est.acMac est.sessionId y

/-- The concentrator and the cookie are those of an offer that was taken. -/
def Chosen (d₀ : Discovery) (s : Dialog) : Prop :=
  ∃ p, Answered d₀ s p ∧ s.machine.acMac = some p.eth.src ∧ s.machine.acCookie = p.acCookie

/-- No concentrator has been chosen. -/
def Unanswered (s : Dialog) : Prop :=
  s.machine.acMac = none ∧ s.sent codePadr = 0

/-- What is known in each state.  A frame that is sent again counts as an attempt. -/
def Known (d₀ : Discovery) (s : Dialog) : Prop :=
  match s.machine.state with
  | .init => Unanswered s ∧ s.sent codePadi = 0
  | .padiSent => Unanswered s ∧ s.sent codePadi = s.machine.attempts + 1
  | .padrSent => Chosen d₀ s ∧ s.sent codePadr = s.machine.attempts + 1
  | .established _ => Chosen d₀ s
  | .dead => Unanswered s ∨ Chosen d₀ s

structure Inv (d₀ : Discovery) (s : Dialog) : Prop where
  src : s.machine.src = d₀.src
  serviceName : s.machine.serviceName = d₀.serviceName
  hostUniq : s.machine.hostUniq = d₀.hostUniq
  maxAttempts : s.machine.maxAttempts = d₀.maxAttempts
  padi_le : s.sent codePadi ≤ max 1 d₀.maxAttempts
  padr_le : s.sent codePadr ≤ max 1 d₀.maxAttempts
  known : Known d₀ s

/-! ### One step -/

variable {d₀ d' : Discovery} {s : Dialog} {x : Entry}

theorem sent_snoc (code : UInt8) :
  sent ⟨d', s.log ++ [x]⟩ code = s.sent code + if sends code x then 1 else 0
  := by
  rw [sent, sent, List.countP_append, List.countP_singleton]

theorem Chosen.snoc (h : Chosen d₀ s) (hac : d'.acMac = s.machine.acMac)
    (hcookie : d'.acCookie = s.machine.acCookie)
    (hasks : ∀ p : DiscoveryPacket, s.machine.acMac = some p.eth.src →
      s.machine.acCookie = p.acCookie → Asks d₀ p x)
    (hest : ∀ est, d'.state = .established est → s.machine.state = .established est
      ∨ s.machine.acMac = some est.acMac ∧ Confirms d₀ est.acMac est.sessionId x) :
  Chosen d₀ ⟨d', s.log ++ [x]⟩
  := by
  obtain ⟨p, ⟨l₁, y, l₂, hlog, htakes, hbefore, hafter, hconf⟩, hmac, hck⟩ := h
  refine ⟨p, ⟨l₁, y, l₂ ++ [x], ?_, htakes, hbefore, ?_, ?_⟩, ?_, ?_⟩
  · simp [hlog]
  · intro z hz
    rw [← List.cons_append, List.mem_append, List.mem_singleton] at hz
    obtain hz | rfl := hz
    · exact hafter z hz
    · exact hasks p hmac hck
  · intro est hstate
    obtain hold | ⟨hsrc, hnew⟩ := hest est hstate
    · obtain ⟨hmac', z, hz, hzc⟩ := hconf est hold
      exact ⟨hmac', z, List.mem_append_left _ hz, hzc⟩
    · rw [hmac, Option.some.injEq] at hsrc
      exact ⟨hsrc.symm, x, List.mem_append_right _ (List.mem_singleton_self x), hnew⟩
  · rw [hac, hmac]
  · rw [hcookie, hck]

theorem Unanswered.snoc (h : Unanswered s) (hac : d'.acMac = s.machine.acMac)
    (hx : sends codePadr x = false) :
  Unanswered ⟨d', s.log ++ [x]⟩
  := by
  constructor
  · rw [hac, h.1]
  · rw [sent_snoc, h.2, hx]
    rfl

/-- The entry sends no request for a session. -/
theorem asks_of_sends (p : DiscoveryPacket) (hx : sends codePadr x = false) :
  Asks d₀ p x
  := by
  intro bytes hbytes hcode
  simp [sends, hbytes, hcode] at hx

theorem Inv.decided (h : Inv d₀ s) :
  Unanswered s ∨ Chosen d₀ s
  := by
  have hk := h.known
  rw [Known] at hk
  split at hk
  · exact .inl hk.1
  · exact .inl hk.1
  · exact .inr hk.1
  · exact .inr hk
  · exact hk

/-- An entry that sends nothing, and leaves the state or ends it. -/
theorem Inv.silent (h : Inv d₀ s) (hsrc : d'.src = s.machine.src)
    (hname : d'.serviceName = s.machine.serviceName) (huniq : d'.hostUniq = s.machine.hostUniq)
    (hmax : d'.maxAttempts = s.machine.maxAttempts) (hac : d'.acMac = s.machine.acMac)
    (hcookie : d'.acCookie = s.machine.acCookie)
    (hstate : d'.state = s.machine.state ∧ d'.attempts = s.machine.attempts ∨ d'.state = .dead)
    (hx : ∀ code, sends code x = false) :
  Inv d₀ ⟨d', s.log ++ [x]⟩
  := by
  have hsent : ∀ code, sent ⟨d', s.log ++ [x]⟩ code = s.sent code := by
    intro code
    rw [sent_snoc, hx]
    rfl
  have hun : Unanswered s → Unanswered ⟨d', s.log ++ [x]⟩ := fun hu => hu.snoc hac (hx _)
  have hch : Chosen d₀ s → Chosen d₀ ⟨d', s.log ++ [x]⟩ := by
    intro hc
    apply hc.snoc hac hcookie
    · intro p _ _
      exact asks_of_sends p (hx _)
    · intro est hest
      obtain ⟨hstate, _⟩ | hstate := hstate
      · exact .inl (hstate ▸ hest)
      · rw [hstate] at hest
        cases hest
  refine ⟨hsrc.trans h.src, hname.trans h.serviceName, huniq.trans h.hostUniq,
    hmax.trans h.maxAttempts, ?_, ?_, ?_⟩
  · rw [hsent]
    exact h.padi_le
  · rw [hsent]
    exact h.padr_le
  · obtain ⟨hstate, hatt⟩ | hstate := hstate
    · have hk := h.known
      simp only [Known, hstate, hsent, hatt] at hk ⊢
      cases hm : s.machine.state <;> simp only [hm] at hk ⊢
      · exact ⟨hun hk.1, hk.2⟩
      · exact ⟨hun hk.1, hk.2⟩
      · exact ⟨hch hk.1, hk.2⟩
      · exact hch hk
      · exact hk.imp hun hch
    · simp only [Known, hstate]
      exact h.decided.imp hun hch

theorem sends_send (code : UInt8) (st : State) (e : Event) (bytes : List UInt8) :
  sends code (st, e, .send bytes) = decide (frameCode bytes = code)
  := rfl

/-- The frame that is sent again is the last one that was sent. -/
theorem resend_padi {d : Discovery} (h : d.state = .padiSent) :
  d.resend = buildPadi d.src d.serviceName d.hostUniq
  := by
  rw [resend, h]

theorem resend_padr {d : Discovery} {ac : MacAddr} (h : d.state = .padrSent)
    (hac : d.acMac = some ac) :
  d.resend = buildPadr d.src ac d.serviceName d.acCookie d.hostUniq
  := by
  rw [resend, h, hac]
  rfl

theorem Inv.started (h : Inv d₀ s) (hstate : s.machine.state = .init) :
  Inv d₀ ⟨{ s.machine with state := .padiSent, ticksSinceSend := 0, attempts := 0 },
    s.log ++ [(s.machine.state, .start,
      .send (buildPadi s.machine.src s.machine.serviceName s.machine.hostUniq))]⟩
  := by
  obtain ⟨hun, hzero⟩ : Unanswered s ∧ s.sent codePadi = 0 := by
    simpa only [Known, hstate] using h.known
  have hcode := frameCode_putPppoe broadcast s.machine.src codePadi sessionIdNone
  refine ⟨h.src, h.serviceName, h.hostUniq, h.maxAttempts, ?_, ?_, ?_⟩
  · rw [sent_snoc, hzero]
    split <;> simp
  · rw [sent_snoc, hun.2]
    split <;> simp
  · simp only [Known]
    constructor
    · apply hun.snoc rfl
      rw [sends_send, buildPadi, hcode]
      rfl
    · rw [sent_snoc, sends_send, buildPadi, hcode, hzero]
      rfl

theorem Inv.offered {f : List UInt8} {p : DiscoveryPacket} (h : Inv d₀ s)
    (hstate : s.machine.state = .padiSent) (hp : parseDiscoveryFrame f = .ok p)
    (hoffer : s.machine.Offer p) :
  Inv d₀ ⟨{ s.machine with
      acMac := some p.eth.src
      acCookie := p.acCookie
      state := .padrSent
      ticksSinceSend := 0
      attempts := 0 },
    s.log ++ [(s.machine.state, .frame f,
      .send (buildPadr s.machine.src p.eth.src s.machine.serviceName p.acCookie
        s.machine.hostUniq))]⟩
  := by
  obtain ⟨hun, _⟩ : Unanswered s ∧ s.sent codePadi = s.machine.attempts + 1 := by
    simpa only [Known, hstate] using h.known
  have hcode := frameCode_putPppoe p.eth.src s.machine.src codePadr sessionIdNone
  have hpadr : ∀ y ∈ s.log, sends codePadr y = false := by
    intro y hy
    have hnone := List.countP_eq_zero.mp hun.2 y hy
    simpa using hnone
  refine ⟨h.src, h.serviceName, h.hostUniq, h.maxAttempts, ?_, ?_, ?_⟩
  · rw [sent_snoc, sends_send, buildPadr, hcode, if_neg (by decide)]
    exact h.padi_le
  · rw [sent_snoc, hun.2]
    split <;> simp
  · simp only [Known]
    refine ⟨⟨p, ⟨s.log, _, [], rfl, ⟨hstate, ⟨f, rfl, hp⟩, ?_⟩, hpadr, ?_, ?_⟩, rfl, rfl⟩, ?_⟩
    · exact ⟨hoffer.code, hoffer.dst.trans h.src, h.hostUniq ▸ hoffer.hostUniq⟩
    · intro y hy bytes hbytes _
      rw [List.mem_singleton] at hy
      subst hy
      rw [← Action.send.inj hbytes, h.src, h.serviceName, h.hostUniq]
    · intro est hest
      cases hest
    · rw [sent_snoc, sends_send, buildPadr, hcode, hun.2]
      rfl

theorem Inv.confirmed {f : List UInt8} {p : DiscoveryPacket} (h : Inv d₀ s)
    (hstate : s.machine.state = .padrSent) (hp : parseDiscoveryFrame f = .ok p)
    (hconf : s.machine.Confirmation p) :
  Inv d₀ ⟨{ s.machine with state := .established ⟨p.eth.src, p.sessionId⟩ },
    s.log ++ [(s.machine.state, .frame f, .established ⟨p.eth.src, p.sessionId⟩)]⟩
  := by
  obtain ⟨hch, _⟩ : Chosen d₀ s ∧ s.sent codePadr = s.machine.attempts + 1 := by
    simpa only [Known, hstate] using h.known
  refine ⟨h.src, h.serviceName, h.hostUniq, h.maxAttempts, ?_, ?_, ?_⟩
  · rw [sent_snoc]
    exact h.padi_le
  · rw [sent_snoc]
    exact h.padr_le
  · simp only [Known]
    apply hch.snoc
    · rfl
    · rfl
    · intro q _ _
      exact asks_of_sends q rfl
    · rintro est hest
      obtain rfl := State.established.inj hest
      refine .inr ⟨hconf.src, hstate, f, p, rfl, hp, ?_, rfl⟩
      exact ⟨hconf.code, hconf.dst.trans h.src, rfl, h.hostUniq ▸ hconf.hostUniq, hconf.session⟩

/-- A frame that is sent again is one of as many as there are attempts. -/
theorem Inv.resent (h : Inv d₀ s) (hwait : s.machine.Waiting)
    (hatt : s.machine.attempts + 1 < s.machine.maxAttempts) :
  Inv d₀ ⟨{ s.machine with attempts := s.machine.attempts + 1, ticksSinceSend := 0 },
    s.log ++ [(s.machine.state, .tick, .send s.machine.resend)]⟩
  := by
  rw [h.maxAttempts] at hatt
  obtain hstate | hstate := hwait
  · obtain ⟨hun, hcount⟩ : Unanswered s ∧ s.sent codePadi = s.machine.attempts + 1 := by
      simpa only [Known, hstate] using h.known
    have hcode := frameCode_putPppoe broadcast s.machine.src codePadi sessionIdNone
    refine ⟨h.src, h.serviceName, h.hostUniq, h.maxAttempts, ?_, ?_, ?_⟩
    · rw [sent_snoc, hcount]
      split <;> omega
    · rw [sent_snoc, hun.2]
      split <;> simp
    · simp only [Known, hstate]
      rw [resend_padi hstate]
      constructor
      · apply hun.snoc rfl
        rw [sends_send, buildPadi, hcode]
        rfl
      · rw [sent_snoc, sends_send, buildPadi, hcode, hcount]
        rfl
  · obtain ⟨hch, hcount⟩ : Chosen d₀ s ∧ s.sent codePadr = s.machine.attempts + 1 := by
      simpa only [Known, hstate] using h.known
    obtain ⟨p, _, hac, hck⟩ := id hch
    have hcode := frameCode_putPppoe p.eth.src s.machine.src codePadr sessionIdNone
    refine ⟨h.src, h.serviceName, h.hostUniq, h.maxAttempts, ?_, ?_, ?_⟩
    · rw [sent_snoc, sends_send, resend_padr hstate hac, buildPadr, hcode, if_neg (by decide)]
      exact h.padi_le
    · rw [sent_snoc, hcount]
      split <;> omega
    · simp only [Known, hstate]
      rw [resend_padr hstate hac]
      constructor
      · apply hch.snoc
        · rfl
        · rfl
        · intro q hq hqc bytes hbytes _
          rw [hac, Option.some.injEq] at hq
          rw [← Action.send.inj hbytes, h.src, h.serviceName, h.hostUniq, hqc, hq]
        · intro est hest
          exact .inl (hstate ▸ hest)
      · rw [sent_snoc, sends_send, buildPadr, hcode, hcount]
        rfl

theorem Inv.move {e : Event} {a : Action} (h : Inv d₀ s) (hmove : Move s.machine e a d') :
  Inv d₀ ⟨d', s.log ++ [(s.machine.state, e, a)]⟩
  := by
  cases hmove with
  | idle => exact h.silent rfl rfl rfl rfl rfl rfl (.inl ⟨rfl, rfl⟩) fun _ => rfl
  | started hstate => exact h.started hstate
  | offered hstate hp hoffer => exact h.offered hstate hp hoffer
  | confirmed hstate hp hconf => exact h.confirmed hstate hp hconf
  | ended => exact h.silent rfl rfl rfl rfl rfl rfl (.inr rfl) fun _ => rfl
  | waited => exact h.silent rfl rfl rfl rfl rfl rfl (.inl ⟨rfl, rfl⟩) fun _ => rfl
  | gaveUp => exact h.silent rfl rfl rfl rfl rfl rfl (.inr rfl) fun _ => rfl
  | resent hwait _ hatt => exact h.resent hwait hatt

/-! ### Whole dialogs -/

theorem inv_new (src : MacAddr) (serviceName : List UInt8) (hostUniq : Option (List UInt8))
    (retransmitTicks maxAttempts : ℕ) :
  Inv (Discovery.new src serviceName hostUniq retransmitTicks maxAttempts)
    (new src serviceName hostUniq retransmitTicks maxAttempts)
  where
  src := rfl
  serviceName := rfl
  hostUniq := rfl
  maxAttempts := rfl
  padi_le := Nat.zero_le _
  padr_le := Nat.zero_le _
  known := ⟨⟨rfl, rfl⟩, rfl⟩

variable {src : MacAddr} {serviceName : List UInt8} {hostUniq : Option (List UInt8)}
  {retransmitTicks maxAttempts : ℕ} {es : List Event}

theorem inv_of_run (h : Run (fun s e t => s.step e = t)
      (new src serviceName hostUniq retransmitTicks maxAttempts) es s) :
  Inv (Discovery.new src serviceName hostUniq retransmitTicks maxAttempts) s
  := by
  apply h.invariant (inv_new src serviceName hostUniq retransmitTicks maxAttempts)
  rintro s e _ hs rfl
  exact hs.move (step_move s.machine e)

/-- A session is left only when it is ended, and after the end there is nothing. -/
theorem Move.final {d : Discovery} {e : Event} {a : Action} (hmove : Move d e a d') :
  (∀ est, d.state = .established est → d'.state = .established est ∨ d'.state = .dead)
    ∧ (d.state = .dead → d'.state = .dead)
  := by
  cases hmove with
  | idle => exact ⟨fun est h => .inl h, id⟩
  | ended => exact ⟨fun est h => .inr rfl, fun h => rfl⟩
  | gaveUp => exact ⟨fun est h => .inr rfl, fun h => rfl⟩
  | started hstate => simp [hstate]
  | offered hstate => simp [hstate]
  | confirmed hstate => simp [hstate]
  | waited hwait => obtain hstate | hstate := hwait <;> simp [hstate]
  | resent hwait => obtain hstate | hstate := hwait <;> simp [hstate]

/-- What the request that answers an offer says, if it fits a frame. -/
def Padr (src : MacAddr) (serviceName : List UInt8) (hostUniq : Option (List UInt8))
    (p : DiscoveryPacket) (bytes : List UInt8) : Prop :=
  bytes = buildPadr src p.eth.src serviceName p.acCookie hostUniq
    ∧ (bytes.length < 2 ^ 16 →
        parseDiscoveryFrame bytes = .ok ⟨⟨p.eth.src, src, etherTypeDiscovery⟩, codePadr,
          sessionIdNone, none, p.acCookie, hostUniq⟩)

theorem padr_of_asks {x : Entry} {p : DiscoveryPacket} {bytes : List UInt8}
    (h : Asks (Discovery.new src serviceName hostUniq retransmitTicks maxAttempts) p x)
    (hx : x.2.2 = .send bytes) (hcode : frameCode bytes = codePadr) :
  Padr src serviceName hostUniq p bytes
  := by
  obtain rfl := h bytes hx hcode
  refine ⟨rfl, fun hlen => ?_⟩
  apply parseDiscoveryFrame_buildPadr
  rw [buildPadr, List.length_append, putPppoe, List.length_append] at hlen
  exact lt_of_le_of_lt (Nat.le_add_left _ _) (lt_of_le_of_lt (Nat.le_add_left _ _) hlen)

/-- A host, a concentrator, the offer of the concentrator with a cookie, and its confirmation. -/
def host : MacAddr := List.Vector.replicate 6 2

def concentrator : MacAddr := List.Vector.replicate 6 4

def offer : List UInt8 :=
  putEthHeader host concentrator etherTypeDiscovery
    ++ putPppoe codePado 0
      (putTag tagHostUniq [7] ++ putTag tagAcCookie [9] ++ putTag tagAcCookie [8])

def confirmation : List UInt8 :=
  putEthHeader host concentrator etherTypeDiscovery
    ++ putPppoe codePads 5 (putTag tagHostUniq [7])

/-- A dialog in which the request is sent twice, and the offer comes twice. -/
def served : Dialog :=
  [.start, .frame offer, .tick, .tick, .frame offer, .frame confirmation].foldl step
    (new host [] (some [7]) 2 3)

end Dialog

end ZeroNat.Pppoe

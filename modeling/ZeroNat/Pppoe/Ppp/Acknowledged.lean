import ZeroNat.Pppoe.Ppp.Negotiation
import ZeroNat.Pppoe.Ppp.Protocols

/-!
# What an acknowledgement acknowledges

A negotiation with a memory of the request that was sent last, and of the acknowledgements that
moved it on.  An acknowledgement carries the identifier of the request it answers, but the
machine does not look at it: one that comes late stands for a request that was since replaced.
-/

namespace ZeroNat.Pppoe.Ppp

/-- What the peer asks for does not change what we ask for, and what we say to an option does not
depend on those before it. -/
class LawfulProtocol (P : Type) [Protocol P] : Prop where
  ownOptions_peerOptionsStart (proto : P) :
    Protocol.ownOptions (Protocol.peerOptionsStart proto) = Protocol.ownOptions proto
  ownOptions_peerOptionReceived (proto : P) (code : UInt8) (data : List UInt8) :
    Protocol.ownOptions (Protocol.peerOptionReceived proto code data).2
      = Protocol.ownOptions proto
  verdict_eq (proto proto' : P) (code : UInt8) (data : List UInt8) :
    (Protocol.peerOptionReceived proto code data).1
      = (Protocol.peerOptionReceived proto' code data).1

instance : LawfulProtocol Lcp where
  ownOptions_peerOptionsStart _ := rfl
  ownOptions_peerOptionReceived l code data := by
    change Lcp.ownOptions (Lcp.peerOptionReceived l code data).2 = Lcp.ownOptions l
    rw [Lcp.peerOptionReceived]
    repeat' split
    all_goals rfl
  verdict_eq l l' code data := by
    change (Lcp.peerOptionReceived l code data).1 = (Lcp.peerOptionReceived l' code data).1
    rw [Lcp.peerOptionReceived, Lcp.peerOptionReceived]
    repeat' split
    all_goals rfl

instance : LawfulProtocol Ipv4cp where
  ownOptions_peerOptionsStart _ := rfl
  ownOptions_peerOptionReceived c code data := by
    change Ipv4cp.ownOptions (Ipv4cp.peerOptionReceived c code data).2 = Ipv4cp.ownOptions c
    rw [Ipv4cp.peerOptionReceived]
    repeat' split
    all_goals rfl
  verdict_eq c c' code data := by
    change (Ipv4cp.peerOptionReceived c code data).1 = (Ipv4cp.peerOptionReceived c' code data).1
    rw [Ipv4cp.peerOptionReceived, Ipv4cp.peerOptionReceived]
    repeat' split
    all_goals rfl

/-- What every option keeps, all of them keep. -/
theorem parseOptions_invariant {σ : Type} {I : σ → Prop} {f : σ → UInt8 → List UInt8 → σ}
    (hstep : ∀ s code data, I s → I (f s code data)) {s : σ} (h : I s) (pkt : List UInt8) :
  I (parseOptions f s pkt).1
  := by
  rw [parseOptions]
  generalize pkt.length = fuel
  fun_induction parseOptionsFrom f fuel s pkt with
  | case1 => exact h
  | case2 => exact h
  | case3 => exact h
  | case4 => exact h
  | case5 => exact h
  | case6 fuel s code len rest _ _ ih => exact ih (hstep s code _ h)

/-- Whether options are well-formed does not depend on what is done with them. -/
theorem parseOptions_snd {σ τ : Type} (f : σ → UInt8 → List UInt8 → σ)
    (g : τ → UInt8 → List UInt8 → τ) (s : σ) (t : τ) (pkt : List UInt8) :
  (parseOptions f s pkt).2 = (parseOptions g t pkt).2
  := by
  rw [parseOptions, parseOptions]
  generalize pkt.length = fuel
  fun_induction parseOptionsFrom f fuel s pkt generalizing t with
  | case1 => simp [parseOptionsFrom]
  | case2 s l hl => cases l <;> simp_all [parseOptionsFrom]
  | case3 => simp [parseOptionsFrom]
  | case4 fuel s code len rest h => simp [parseOptionsFrom, h]
  | case5 fuel s code len rest h h' => simp [parseOptionsFrom, h, h']
  | case6 fuel s code len rest h h' ih =>
      rw [ih (g t code (rest.take (len.toNat - 2)))]
      simp [parseOptionsFrom, h, h']

namespace OptionFsm

variable {P : Type} [Protocol P]

theorem ownOptions_judge [LawfulProtocol P] (m : OptionFsm P) (p : List UInt8) :
  Protocol.ownOptions (m.judge p).1.proto = Protocol.ownOptions m.proto
  := by
  apply parseOptions_invariant (I := fun r : Reply P =>
    Protocol.ownOptions r.proto = Protocol.ownOptions m.proto)
  · intro r code data hr
    exact (LawfulProtocol.ownOptions_peerOptionReceived r.proto code data).trans hr
  · apply LawfulProtocol.ownOptions_peerOptionsStart

/-- The code that a verdict calls for. -/
def callsFor (naksExhausted : Bool) : Verdict → Code
  | .ack => .configureAck
  | .nack _ => if naksExhausted then .configureRej else .configureNack
  | .rej => .configureRej

theorem replyOption_code (naksExhausted : Bool) (r : Reply P) (code : UInt8) (data : List UInt8) :
  (replyOption naksExhausted r code data).code
    = let c := callsFor naksExhausted (Protocol.peerOptionReceived r.proto code data).1
      if r.code.toU8 < c.toU8 then c else r.code
  := by
  simp only [replyOption]
  cases (Protocol.peerOptionReceived r.proto code data).1 with
  | ack => apply apply_ite Prod.fst
  | nack data => cases naksExhausted <;> apply apply_ite Prod.fst
  | rej => apply apply_ite Prod.fst

theorem code_replyOption {r : Reply P} (naksExhausted : Bool)
    (hr : r.code ∈ [Code.configureAck, .configureNack, .configureRej]) (code : UInt8)
    (data : List UInt8) :
  (replyOption naksExhausted r code data).code
    ∈ [Code.configureAck, .configureNack, .configureRej]
  := by
  rw [replyOption_code]
  dsimp only
  split
  · cases (Protocol.peerOptionReceived r.proto code data).1 <;> cases naksExhausted <;>
      simp [callsFor]
  · exact hr

/-- A reply acknowledges as long as every option is acknowledged. -/
theorem replyOption_code_eq_ack {r : Reply P} (naksExhausted : Bool)
    (hr : r.code ∈ [Code.configureAck, .configureNack, .configureRej]) (code : UInt8)
    (data : List UInt8) :
  (replyOption naksExhausted r code data).code = .configureAck
    ↔ r.code = .configureAck ∧ (Protocol.peerOptionReceived r.proto code data).1 = .ack
  := by
  rw [replyOption_code]
  simp only [List.mem_cons, List.not_mem_nil, or_false] at hr
  obtain hr | hr | hr := hr <;> rw [hr] <;>
    cases (Protocol.peerOptionReceived r.proto code data).1 <;> cases naksExhausted <;>
      simp [callsFor, Code.toU8]

/-- A request is acknowledged, corrected or rejected. -/
theorem code_judge (m : OptionFsm P) (p : List UInt8) :
  (m.judge p).1.code ∈ [Code.configureAck, .configureNack, .configureRej]
  := by
  apply parseOptions_invariant (I := fun r : Reply P =>
    r.code ∈ [Code.configureAck, .configureNack, .configureRej])
  · intro r code data hr
    simp only [replyOption]
    split
    · dsimp only
      split
      · simp
      · exact hr
    · split
      · dsimp only
        split
        · simp
        · exact hr
      · dsimp only
        split
        · simp
        · exact hr
    · dsimp only
      split
      · simp
      · exact hr
  · simp

/-- What a negotiation is given. -/
inductive Event where
  | openFsm
  | close
  | tick
  | packet (pkt : List UInt8)

def Event.packet? : Event → Option (List UInt8)
  | .packet pkt => some pkt
  | _ => none

/-- What is sent, and the machine afterwards. -/
def step (m : OptionFsm P) : Event → List Packet × OptionFsm P
  | .openFsm => ([m.openFsm.1], m.openFsm.2)
  | .close => ([], m.close)
  | .tick => (m.onTick.1.toList, m.onTick.2)
  | .packet pkt => m.handle pkt

end OptionFsm

/-- The identifier and the options of a request. -/
def Packet.request? (q : Packet) : Option (UInt8 × List OptionVal) :=
  match q.payload with
  | .ppp .configureReq id (.options opts) => some (id, opts)
  | _ => none

/-- An acknowledgement that moved the machine on: its identifier, our options from then on, and
the request that had been sent last. -/
structure Acceptance where
  id : UInt8
  inForce : List OptionVal
  lastRequest : Option (UInt8 × List OptionVal)
deriving DecidableEq

/-- A negotiation with its memory. -/
structure Negotiation (P : Type) where
  fsm : OptionFsm P
  lastRequest : Option (UInt8 × List OptionVal)
  accepted : List Acceptance

namespace Negotiation

variable {P : Type} [Protocol P]

def new (proto : P) : Negotiation P :=
  ⟨OptionFsm.new proto, none, []⟩

/-- The last request among the packets that were sent, or else the one before. -/
def remember (last : Option (UInt8 × List OptionVal)) (sent : List Packet) :
    Option (UInt8 × List OptionVal) :=
  sent.foldl (fun last q => q.request?.or last) last

/-- The acknowledgement by which a step moved the machine on, if it was one. -/
def acceptance (s : Negotiation P) (e : OptionFsm.Event) : Option Acceptance :=
  match e with
  | .packet pkt =>
    match control pkt with
    | some (.configureAck, id, _) =>
      let m := (s.fsm.handle pkt).2
      if m.state ≠ s.fsm.state ∧ (m.state = .ackReceived ∨ m.state = .opened) then
        some ⟨id, Protocol.ownOptions m.proto, s.lastRequest⟩
      else none
    | _ => none
  | _ => none

def step (s : Negotiation P) (e : OptionFsm.Event) : Negotiation P where
  fsm := (s.fsm.step e).2
  lastRequest := remember s.lastRequest (s.fsm.step e).1
  accepted := s.accepted ++ (s.acceptance e).toList

/-- The options of a packet are well-formed. -/
def WellFormed (p : List UInt8) : Prop :=
  (parseOptions (fun _ _ _ => ()) () (p.drop 6)).2 = true

instance (p : List UInt8) : Decidable (WellFormed p) :=
  inferInstanceAs (Decidable (_ = true))

/-- An acknowledgement that the machine waits for carries its identifier, and a refusal of our
options, while it is not closed, is well-formed. -/
def Matching (s : Negotiation P) (e : OptionFsm.Event) : Prop :=
  ∀ c ∈ e.packet?.bind control,
    (c.1 = .configureAck → s.fsm.state = .reqSent ∨ s.fsm.state = .ackSent → c.2.1 = s.fsm.id)
      ∧ (c.1 = .configureNack ∨ c.1 = .configureRej → s.fsm.state ≠ .closed → WellFormed c.2.2)

instance (s : Negotiation P) (e : OptionFsm.Event) : Decidable (s.Matching e) :=
  inferInstanceAs (Decidable (∀ c ∈ e.packet?.bind control, _))

variable {m m' : OptionFsm P} {last : Option (UInt8 × List OptionVal)} {sent : List Packet}
  {pkt p : List UInt8}

theorem request?_of_silent {q : Packet} (h : q.negotiates = false) :
  q.request? = none
  := by
  rw [Packet.request?]
  split
  · rename_i heq
    simp [Packet.negotiates, heq] at h
  · rfl

theorem request?_answer {r : OptionFsm.Reply P} {b : Bool} (hj : m.judge p = (r, b)) (id : UInt8) :
  (OptionFsm.answer r id).request? = none
  := by
  have hcode := OptionFsm.code_judge m p
  rw [hj] at hcode
  simp only [Packet.request?, OptionFsm.answer]
  split
  · rename_i heq
    rw [(Payload.ppp.inj heq).1] at hcode
    simp at hcode
  · rfl

theorem remember_of_silent (h : ∀ q ∈ sent, q.negotiates = false) :
  remember last sent = last
  := by
  induction sent with
  | nil => rfl
  | cons q sent ih =>
      rw [remember, List.foldl_cons, request?_of_silent (h q List.mem_cons_self)]
      exact ih fun q hq => h q (List.mem_cons_of_mem _ hq)

theorem remember_answer {r : OptionFsm.Reply P} {b : Bool} (hj : m.judge p = (r, b)) (id : UInt8)
    (sent : List Packet) :
  remember last (OptionFsm.answer r id :: sent) = remember last sent
  := by
  rw [remember, List.foldl_cons, request?_answer hj]
  rfl

theorem remember_request (m : OptionFsm P) (id : UInt8) :
  remember last [m.request id] = some (id, Protocol.ownOptions m.proto)
  := rfl

/-- The request that was sent last, while a machine is not closed. -/
def Current (m : OptionFsm P) (last : Option (UInt8 × List OptionVal)) : Prop :=
  m.state ≠ .closed → last = some (m.id, Protocol.ownOptions m.proto)

theorem current_ticked {q : Option Packet} (h : m.Ticked q m') (hcur : Current m last) :
  Current m' (remember last q.toList)
  := by
  intro hopen
  cases h with
  | still => exact hcur hopen
  | waited hstate => exact hcur hstate.1
  | exhausted hstate => exact hcur hstate.1
  | gaveUp => exact absurd rfl hopen
  | resent => rfl

theorem current_openFsm (m : OptionFsm P) (last : Option (UInt8 × List OptionVal)) :
  Current m.openFsm.2 (remember last [m.openFsm.1])
  := by
  intro _
  rw [OptionFsm.openFsm]
  split <;> rfl

/-- An acknowledgement that moves the machine on was waited for, and leaves our options. -/
theorem handled_ack {id : UInt8} (h : m.Handled pkt sent m')
    (hc : control pkt = some (.configureAck, id, p)) (hmoved : m'.state ≠ m.state)
    (hstate : m'.state = .ackReceived ∨ m'.state = .opened) :
  (m.state = .reqSent ∨ m.state = .ackSent) ∧ m'.proto = m.proto
  := by
  cases h with
  | dropped => exact absurd rfl hmoved
  | ack _ hs => exact ⟨.inl hs, rfl⟩
  | openedByAck _ hs => exact ⟨.inr hs, rfl⟩
  | unexpectedAck _ _ hm' =>
      subst hm'
      simp [OptionFsm.requested] at hstate
  | malformedRequest hc' | ackedRequest hc' | openedByRequest hc' | reopenedByRequest hc'
  | refusedRequest hc' | reopenedByRefusal hc' | terminated hc' | restarted hc' =>
      simp [hc'] at hc
  | malformedRefusal hc' hcode | refused hc' hcode =>
      rw [hc'] at hc
      obtain ⟨rfl, _⟩ := Prod.mk.inj (Option.some.inj hc)
      simp at hcode

variable [LawfulProtocol P]

theorem current_handled (h : m.Handled pkt sent m') (hcur : Current m last)
    (hwf : ∀ code id p, control pkt = some (code, id, p) →
      code = .configureNack ∨ code = .configureRej → m.state ≠ .closed → WellFormed p) :
  Current m' (remember last sent)
  := by
  have hown : ∀ {p r b}, m.judge p = (r, b) →
      Protocol.ownOptions r.proto = Protocol.ownOptions m.proto := by
    intro p r b hj
    rw [← OptionFsm.ownOptions_judge m p, hj]
  intro hopen
  cases h with
  | dropped hsilent =>
      rw [remember_of_silent hsilent]
      exact hcur hopen
  | malformedRequest _ hstate hj =>
      rw [hown hj]
      exact hcur hstate
  | ackedRequest _ hj _ hstate =>
      rw [remember_answer hj, hown hj]
      apply hcur
      obtain hstate | hstate := hstate <;> simp [hstate]
  | openedByRequest _ hj _ hstate =>
      rw [remember_answer hj, hown hj]
      apply hcur
      simp [hstate]
  | reopenedByRequest _ hj _ _ hm' =>
      rw [remember_answer hj, remember_request, hm']
      rfl
  | refusedRequest _ hj _ hstate =>
      rw [remember_answer hj, hown hj]
      exact hcur hstate.1
  | reopenedByRefusal _ hj _ _ hm' =>
      rw [remember_answer hj, remember_request, hm']
      rfl
  | ack _ hstate => exact hcur (by simp [hstate])
  | openedByAck _ hstate => exact hcur (by simp [hstate])
  | unexpectedAck _ _ hm' =>
      rw [remember_request, hm']
      rfl
  | malformedRefusal hc hcode hstate hr =>
      have hw := hwf _ _ _ hc hcode hstate
      rw [WellFormed, parseOptions_snd (fun _ _ _ => ()) _ () m.proto] at hw
      rw [OptionFsm.refuse] at hr
      rw [hr] at hw
      cases hw
  | refused _ _ _ _ hm' =>
      rw [remember_request, hm']
      rfl
  | terminated => exact absurd rfl hopen
  | restarted _ hstate =>
      rw [remember_of_silent]
      · exact hcur hstate.1
      · simp [OptionFsm.sendTerminateAck, Packet.negotiates]

/-- The last request is current, and every acknowledgement that moved the machine on was for the
request that had been sent last. -/
def Inv (s : Negotiation P) : Prop :=
  Current s.fsm s.lastRequest ∧ ∀ a ∈ s.accepted, a.lastRequest = some (a.id, a.inForce)

theorem current_step {s : Negotiation P} {e : OptionFsm.Event}
    (hcur : Current s.fsm s.lastRequest) (hok : s.Matching e) :
  Current (s.step e).fsm (s.step e).lastRequest
  := by
  cases e with
  | openFsm => apply current_openFsm
  | close => exact fun hopen => absurd rfl hopen
  | tick => exact current_ticked s.fsm.onTick_ticked hcur
  | packet pkt =>
      apply current_handled (s.fsm.handle_handled pkt) hcur
      intro code id p hc
      exact (hok (code, id, p) hc).2

theorem Inv.step {s : Negotiation P} {e : OptionFsm.Event} (h : Inv s) (hok : s.Matching e) :
  Inv (s.step e)
  := by
  refine ⟨current_step h.1 hok, ?_⟩
  intro a ha
  rw [Negotiation.step, List.mem_append] at ha
  obtain ha | ha := ha
  · exact h.2 a ha
  · rw [Option.mem_toList] at ha
    unfold acceptance at ha
    split at ha
    · rename_i pkt
      split at ha
      · rename_i id p hc
        dsimp only at ha
        split at ha
        · rename_i hif
          obtain rfl := Option.some.inj ha
          obtain ⟨hwait, hproto⟩ :=
            handled_ack (s.fsm.handle_handled pkt) hc hif.1 hif.2
          have hid : id = s.fsm.id := (hok (.configureAck, id, p) hc).1 rfl hwait
          rw [hproto, hid]
          apply h.1
          obtain hwait | hwait := hwait <;> simp [hwait]
        · cases ha
      · cases ha
    · cases ha

/-- Along every run in which the acknowledgements that the machine waits for carry its
identifier and the refusals are well-formed: an acknowledgement that moves it on carries the
identifier of the request that was sent last, and the options in force are those of that
request. -/
theorem ack_of_last_request {proto : P} {es : List OptionFsm.Event} {s : Negotiation P}
    (h : Run (Meeting Matching fun s e t => s.step e = t) (new proto) es s) :
  ∀ a ∈ s.accepted, a.lastRequest = some (a.id, a.inForce)
  := by
  have hinv : Inv s := by
    apply h.invariant
    · exact ⟨fun hopen => absurd rfl hopen, fun a ha => absurd ha List.not_mem_nil⟩
    · rintro s e _ hs ⟨hok, rfl⟩
      exact hs.step hok
  exact hinv.2

/-- A request of the peer without options, a smaller receive unit for us, and an acknowledgement
with an identifier. -/
def plainRequest : List UInt8 := [0xc0, 0x21, 1, 1, 0, 4]

def smallerUnit : List UInt8 := [0xc0, 0x21, 3, 2, 0, 8, 1, 4, 5, 100]

def acknowledgement (id : UInt8) : List UInt8 := [0xc0, 0x21, 2, id, 0, 4]

/-- The receive unit of the first request is corrected, and the second request is acknowledged. -/
def corrected : List OptionFsm.Event :=
  [.openFsm, .packet plainRequest, .packet smallerUnit, .packet (acknowledgement 3)]

theorem ack_of_last_request_corrected :
  let s := corrected.foldl step (new (Lcp.new 1492 7))
  s.fsm.state = .opened ∧ s.accepted.length = 1
    ∧ ∀ a ∈ s.accepted, a.lastRequest = some (a.id, a.inForce)
  := by
  refine ⟨by decide, by decide, ?_⟩
  exact ack_of_last_request (run_of_meets (by decide : meets Matching step _ corrected = true))

/-- A late acknowledgement of the request that was since corrected opens the link. -/
theorem opened_by_late_ack :
  ¬ ∀ (es : List OptionFsm.Event) (s : Negotiation Lcp),
      Run (fun s e t => s.step e = t) (new (Lcp.new 1492 7)) es s →
      ∀ a ∈ s.accepted, ∃ opts, a.lastRequest = some (a.id, opts)
  := by
  intro h
  have hlate := h _ _ (run_foldl step (new (Lcp.new 1492 7))
    [.openFsm, .packet plainRequest, .packet smallerUnit, .packet (acknowledgement 2)])
  obtain ⟨opts, hopts⟩ := hlate ⟨2, [⟨1, [5, 100]⟩, ⟨5, [0, 0, 0, 7]⟩],
    some (3, [⟨1, [5, 100]⟩, ⟨5, [0, 0, 0, 7]⟩])⟩ (by decide)
  simp at hopts

end Negotiation

end ZeroNat.Pppoe.Ppp

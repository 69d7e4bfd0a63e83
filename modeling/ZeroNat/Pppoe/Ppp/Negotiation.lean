import ZeroNat.Pppoe.Ppp.OptionFsm
import ZeroNat.Lib.Run

/-!
# What a negotiation can do

Everything that a packet or a tick can do to a negotiation, arm by arm, for any protocol.
-/

open BigEndian

namespace ZeroNat.Pppoe.Ppp

/-- A packet that takes part in the negotiation. -/
def Packet.negotiates (p : Packet) : Bool :=
  match p.payload with
  | .ppp code _ _ => code ∈ [.configureReq, .configureAck, .configureNack, .configureRej]
  | .raw _ => false

/-- The code and the identifier of a control packet, and the packet cut to its length, if the
length is right. -/
def control (pkt : List UInt8) : Option (Code × UInt8 × List UInt8) :=
  if pkt.length < 6 then none
  else
    let len := ofBe [pkt.getD 4 0, pkt.getD 5 0]
    if len < 4 then none
    else if pkt.length < len + 2 then none
    else some (Code.ofU8 (pkt.getD 2 0), pkt.getD 3 0, pkt.take (len + 2))

namespace OptionFsm

variable {P : Type} [Protocol P]

/-- An answer to our request arms the restart counter again. -/
def rearm (m : OptionFsm P) (code : Code) : OptionFsm P :=
  if m.state ≠ .closed ∧ code ∈ [.configureAck, .configureNack, .configureRej] then
    { m with attempts := 0 }
  else m

theorem handle_eq (m : OptionFsm P) (pkt : List UInt8) :
  m.handle pkt = match control pkt with
    | none => ([], m)
    | some (code, id, p) => (m.rearm code).handleControl code id p
  := by
  rw [handle, control]
  split
  · rfl
  · dsimp only
    split
    · rfl
    · split <;> rfl

/-- Our request under an identifier. -/
def request (m : OptionFsm P) (id : UInt8) : Packet :=
  ⟨Protocol.protocol m.proto, .ppp .configureReq id (.options (Protocol.ownOptions m.proto))⟩

/-- The machine after a new request. -/
def requested (m : OptionFsm P) : OptionFsm P :=
  { m with id := m.id + 1, ticksSinceSend := 0, attempts := m.attempts + 1 }

theorem sendConfigureRequest_eq (m : OptionFsm P) :
  m.sendConfigureRequest = (m.request (m.id + 1), m.requested)
  := rfl

/-- How the options of a request are judged, and whether they are well-formed. -/
def judge (m : OptionFsm P) (p : List UInt8) : Reply P × Bool :=
  parseOptions (replyOption (decide (maxFailure ≤ m.naksSent)))
    ⟨Protocol.peerOptionsStart m.proto, .configureAck, []⟩ (p.drop 6)

/-- The answer to a request. -/
def answer (r : Reply P) (id : UInt8) : Packet :=
  ⟨Protocol.protocol r.proto, .ppp r.code id (.options r.opts)⟩

/-- The protocol after our options were refused, and whether the refusal is well-formed. -/
def refuse (m : OptionFsm P) (isRej : Bool) (p : List UInt8) : P × Bool :=
  parseOptions (fun proto code data => Protocol.ownOptionNacked proto code data isRej) m.proto
    (p.drop 6)

/-- Our request is unanswered, or theirs is. -/
def Unsettled (m : OptionFsm P) : Prop :=
  m.state ≠ .closed ∧ m.state ≠ .opened

/-- Everything that a packet can do: nothing at all; or, unless the machine is closed, what a
request of the peer does, an acknowledgement, a refusal, or the wish to end. -/
inductive Handled (m : OptionFsm P) (pkt : List UInt8) : List Packet → OptionFsm P → Prop where
  | dropped {sent : List Packet} : (∀ q ∈ sent, q.negotiates = false) → Handled m pkt sent m
  | malformedRequest {id : UInt8} {p : List UInt8} {r : Reply P} :
      control pkt = some (.configureReq, id, p) → m.state ≠ .closed → m.judge p = (r, false) →
      Handled m pkt [] { m with proto := r.proto }
  | ackedRequest {id : UInt8} {p : List UInt8} {r : Reply P} :
      control pkt = some (.configureReq, id, p) → m.judge p = (r, true) →
      r.code = .configureAck → m.state = .reqSent ∨ m.state = .ackSent →
      Handled m pkt [answer r (p.getD 3 0)]
        { m with proto := r.proto, naksSent := 0, state := .ackSent }
  | openedByRequest {id : UInt8} {p : List UInt8} {r : Reply P} :
      control pkt = some (.configureReq, id, p) → m.judge p = (r, true) →
      r.code = .configureAck → m.state = .ackReceived →
      Handled m pkt [answer r (p.getD 3 0)]
        { m with proto := r.proto, naksSent := 0, state := .opened, upSeen := true }
  | reopenedByRequest {id : UInt8} {p : List UInt8} {r : Reply P} {m' : OptionFsm P} :
      control pkt = some (.configureReq, id, p) → m.judge p = (r, true) →
      r.code = .configureAck → m.state = .opened →
      m' = { m with proto := r.proto, naksSent := 0 } →
      Handled m pkt [answer r (p.getD 3 0), m'.request (m'.id + 1)]
        { m'.requested with state := .ackSent }
  | refusedRequest {id : UInt8} {p : List UInt8} {r : Reply P} {n : ℕ} :
      control pkt = some (.configureReq, id, p) → m.judge p = (r, true) →
      r.code ≠ .configureAck → m.Unsettled →
      Handled m pkt [answer r (p.getD 3 0)]
        { m with
          proto := r.proto
          naksSent := n
          state := if m.state = .ackSent then .reqSent else m.state }
  | reopenedByRefusal {id : UInt8} {p : List UInt8} {r : Reply P} {n : ℕ}
      {m' : OptionFsm P} :
      control pkt = some (.configureReq, id, p) → m.judge p = (r, true) →
      r.code ≠ .configureAck → m.state = .opened →
      m' = { m with proto := r.proto, naksSent := n } →
      Handled m pkt [answer r (p.getD 3 0), m'.request (m'.id + 1)]
        { m'.requested with state := .reqSent }
  | ack {id : UInt8} {p : List UInt8} :
      control pkt = some (.configureAck, id, p) → m.state = .reqSent →
      Handled m pkt [] { m with attempts := 0, state := .ackReceived }
  | openedByAck {id : UInt8} {p : List UInt8} :
      control pkt = some (.configureAck, id, p) → m.state = .ackSent →
      Handled m pkt [] { m with attempts := 0, state := .opened, upSeen := true }
  | unexpectedAck {id : UInt8} {p : List UInt8} {m' : OptionFsm P} :
      control pkt = some (.configureAck, id, p) → m.state = .ackReceived ∨ m.state = .opened →
      m' = { m with attempts := 0, state := .reqSent } →
      Handled m pkt [m'.request (m'.id + 1)] m'.requested
  | malformedRefusal {code : Code} {id : UInt8} {p : List UInt8} {proto : P} {isRej : Bool} :
      control pkt = some (code, id, p) → code = .configureNack ∨ code = .configureRej →
      m.state ≠ .closed → m.refuse isRej p = (proto, false) →
      Handled m pkt [] { m with attempts := 0, proto }
  | refused {code : Code} {id : UInt8} {p : List UInt8} {proto : P} {isRej : Bool}
      {m' : OptionFsm P} :
      control pkt = some (code, id, p) → code = .configureNack ∨ code = .configureRej →
      m.state ≠ .closed → m.refuse isRej p = (proto, true) →
      m' = { m with
        attempts := 0
        proto
        state := if m.state = .ackSent then .ackSent else .reqSent } →
      Handled m pkt [m'.request (m'.id + 1)] m'.requested
  | terminated {id : UInt8} {p : List UInt8} :
      control pkt = some (.terminateReq, id, p) → m.state = .opened →
      Handled m pkt [m.sendTerminateAck id] m.enterClosed
  | restarted {id : UInt8} {p : List UInt8} :
      control pkt = some (.terminateReq, id, p) → m.Unsettled →
      Handled m pkt [m.sendTerminateAck id] { m with state := .reqSent }

variable {m : OptionFsm P} {pkt p : List UInt8} {id : UInt8}

theorem handled_terminateAck (id : UInt8) :
  Handled m pkt [m.sendTerminateAck id] m
  := by
  apply Handled.dropped
  intro q hq
  rw [List.mem_singleton.mp hq]
  rfl

theorem receivedConfigureReq_malformed {r : Reply P} (hj : m.judge p = (r, false)) :
  m.receivedConfigureReq p = (none, { m with proto := r.proto })
  := by
  rw [judge] at hj
  simp only [receivedConfigureReq, hj]
  rfl

theorem receivedConfigureReq_acked {r : Reply P} (hj : m.judge p = (r, true))
    (hcode : r.code = .configureAck) :
  m.receivedConfigureReq p
    = (some (answer r (p.getD 3 0)), { m with proto := r.proto, naksSent := 0 })
  := by
  rw [judge] at hj
  simp only [receivedConfigureReq, hj, hcode, answer]
  rfl

theorem onConfigureReq_refused {r : Reply P} (hj : m.judge p = (r, true))
    (hcode : r.code ≠ .configureAck) :
  ∃ naksSent, m.onConfigureReq p
    = (answer r (p.getD 3 0)
          :: (afterConfigureReq { m with proto := r.proto, naksSent } false).1,
        (afterConfigureReq { m with proto := r.proto, naksSent } false).2)
  := by
  rw [judge] at hj
  rw [onConfigureReq]
  simp only [receivedConfigureReq, hj, answer, Bool.not_true, Bool.false_eq_true, if_false]
  cases hr : r.code with
  | configureAck => exact absurd hr hcode
  | _ => exact ⟨_, rfl⟩

theorem onConfigureReq_handled (hc : control pkt = some (.configureReq, id, p))
    (hopen : m.state ≠ .closed) :
  Handled m pkt (m.onConfigureReq p).1 (m.onConfigureReq p).2
  := by
  rcases hj : m.judge p with ⟨r, _ | _⟩
  · rw [onConfigureReq, receivedConfigureReq_malformed hj]
    exact Handled.malformedRequest hc hopen hj
  · by_cases hcode : r.code = .configureAck
    · rw [onConfigureReq, receivedConfigureReq_acked hj hcode]
      simp only [answer, hcode, afterConfigureReq]
      rw [← hcode]
      cases hstate : m.state with
      | closed => exact absurd hstate hopen
      | reqSent => exact Handled.ackedRequest hc hj hcode (.inl hstate)
      | ackReceived => exact Handled.openedByRequest hc hj hcode hstate
      | ackSent => exact Handled.ackedRequest hc hj hcode (.inr hstate)
      | opened => exact Handled.reopenedByRequest hc hj hcode hstate rfl
    · obtain ⟨naksSent, heq⟩ := onConfigureReq_refused hj hcode
      rw [heq]
      simp only [afterConfigureReq]
      have href (hu : m.Unsettled) :=
        Handled.refusedRequest (n := naksSent) hc hj hcode hu
      cases hstate : m.state with
      | closed => exact absurd hstate hopen
      | reqSent =>
          have hu : m.Unsettled := by simp [Unsettled, hstate]
          simpa [hstate] using href hu
      | ackReceived =>
          have hu : m.Unsettled := by simp [Unsettled, hstate]
          simpa [hstate] using href hu
      | ackSent =>
          have hu : m.Unsettled := by simp [Unsettled, hstate]
          simpa [hstate] using href hu
      | opened => exact Handled.reopenedByRefusal hc hj hcode hstate rfl

theorem onConfigureAck_handled (hc : control pkt = some (.configureAck, id, p))
    (hopen : m.state ≠ .closed) :
  Handled m pkt (onConfigureAck { m with attempts := 0 }).1 (onConfigureAck { m with attempts := 0 }).2
  := by
  simp only [onConfigureAck]
  cases hstate : m.state with
  | closed => exact absurd hstate hopen
  | reqSent => exact Handled.ack hc hstate
  | ackReceived => exact Handled.unexpectedAck hc (.inl hstate) rfl
  | ackSent => exact Handled.openedByAck hc hstate
  | opened => exact Handled.unexpectedAck hc (.inr hstate) rfl

theorem onConfigureNack_handled {code : Code} (hc : control pkt = some (code, id, p))
    (hcode : code = .configureNack ∨ code = .configureRej) (isRej : Bool)
    (hopen : m.state ≠ .closed) :
  Handled m pkt (onConfigureNack { m with attempts := 0 } isRej p).1
    (onConfigureNack { m with attempts := 0 } isRej p).2
  := by
  rcases hr : m.refuse isRej p with ⟨proto, wellFormed⟩
  have hparse := hr
  rw [refuse] at hparse
  simp only [onConfigureNack, hparse]
  cases wellFormed with
  | false => exact Handled.malformedRefusal hc hcode hopen hr
  | true =>
      have href := Handled.refused hc hcode hopen hr rfl
      cases hstate : m.state with
      | closed => exact absurd hstate hopen
      | reqSent => simpa [hstate, sendConfigureRequest_eq] using href
      | ackReceived => simpa [hstate, sendConfigureRequest_eq] using href
      | ackSent => simpa [hstate, sendConfigureRequest_eq] using href
      | opened => simpa [hstate, sendConfigureRequest_eq] using href

theorem onTerminateReq_handled (hc : control pkt = some (.terminateReq, id, p))
    (hopen : m.state ≠ .closed) :
  Handled m pkt (m.onTerminateReq id).1 (m.onTerminateReq id).2
  := by
  rw [onTerminateReq]
  split
  · contradiction
  · rename_i hstate
    exact Handled.terminated hc hstate
  · rename_i hclosed hopened
    exact Handled.restarted hc ⟨hclosed, hopened⟩

theorem handled_echo (p : List UInt8) :
  Handled m pkt (m.sendEchoResponse p).toList m
  := by
  apply Handled.dropped
  intro q hq
  rw [Option.mem_toList, sendEchoResponse] at hq
  split at hq
  · cases hq
  · obtain rfl := Option.some.inj hq
    rfl

theorem handle_handled (m : OptionFsm P) (pkt : List UInt8) :
  Handled m pkt (m.handle pkt).1 (m.handle pkt).2
  := by
  have hnil : Handled m pkt [] m := Handled.dropped fun q hq => absurd hq List.not_mem_nil
  rw [handle_eq]
  split
  · exact hnil
  · rename_i code id p hc
    by_cases hclosed : m.state = .closed
    · have hrearm : m.rearm code = m := by simp [rearm, hclosed]
      rw [hrearm]
      unfold handleControl
      split
      · split
        · apply handled_echo
        · exact hnil
      · exact hnil
      · rw [if_pos hclosed]
        apply handled_terminateAck
    · cases code with
      | configureReq =>
          have hrearm : m.rearm .configureReq = m := by simp [rearm]
          simp only [handleControl, hrearm, if_neg hclosed]
          exact onConfigureReq_handled hc hclosed
      | configureAck =>
          have hrearm : m.rearm .configureAck = { m with attempts := 0 } := by
            simp [rearm, hclosed]
          simp only [handleControl, hrearm, if_neg hclosed]
          exact onConfigureAck_handled hc hclosed
      | configureNack =>
          have hrearm : m.rearm .configureNack = { m with attempts := 0 } := by
            simp [rearm, hclosed]
          simp only [handleControl, hrearm, if_neg hclosed]
          exact onConfigureNack_handled hc (.inl rfl) false hclosed
      | configureRej =>
          have hrearm : m.rearm .configureRej = { m with attempts := 0 } := by
            simp [rearm, hclosed]
          simp only [handleControl, hrearm, if_neg hclosed]
          exact onConfigureNack_handled hc (.inr rfl) true hclosed
      | terminateReq =>
          have hrearm : m.rearm .terminateReq = m := by simp [rearm]
          simp only [handleControl, hrearm, if_neg hclosed]
          exact onTerminateReq_handled hc hclosed
      | echoReq =>
          have hrearm : m.rearm .echoReq = m := by simp [rearm]
          simp only [handleControl, hrearm]
          split
          · apply handled_echo
          · exact hnil
      | discardReq =>
          have hrearm : m.rearm .discardReq = m := by simp [rearm]
          simp only [handleControl, hrearm]
          exact hnil
      | unknown | terminateAck | codeRej | protocolRej | echoReply =>
          simpa [handleControl, rearm, hclosed] using hnil

/-- Everything that a tick can do. -/
inductive Ticked (m : OptionFsm P) : Option Packet → OptionFsm P → Prop where
  | still : m.state = .closed ∨ m.state = .opened → Ticked m none m
  | waited : m.Unsettled → m.ticksSinceSend + 1 < restartTicks →
      Ticked m none { m with ticksSinceSend := m.ticksSinceSend + 1 }
  | exhausted : m.Unsettled → restartTicks ≤ m.ticksSinceSend + 1 → maxConfigure ≤ m.attempts →
      m.upSeen = true → Ticked m none { m with ticksSinceSend := m.ticksSinceSend + 1 }
  | gaveUp : m.Unsettled → restartTicks ≤ m.ticksSinceSend + 1 → maxConfigure ≤ m.attempts →
      m.upSeen = false →
      Ticked m none
        { m with ticksSinceSend := m.ticksSinceSend + 1, state := .closed, failed := true }
  | resent : m.Unsettled → restartTicks ≤ m.ticksSinceSend + 1 → m.attempts < maxConfigure →
      Ticked m (some (m.request m.id))
        { m with
          ticksSinceSend := 0
          attempts := m.attempts + 1
          state := if m.state = .ackReceived then .reqSent else m.state }

theorem onTick_ticked (m : OptionFsm P) :
  Ticked m m.onTick.1 m.onTick.2
  := by
  rw [onTick]
  split
  · rename_i hstate
    exact Ticked.still hstate
  · rename_i hstate
    have hu : m.Unsettled := not_or.mp hstate
    dsimp only
    split
    · rename_i hticks
      exact Ticked.waited hu hticks
    · rename_i hticks
      split
      · rename_i hatt
        split
        · rename_i hup
          exact Ticked.exhausted hu (not_lt.mp hticks) hatt hup
        · rename_i hup
          have hup : m.upSeen = false := by simpa using hup
          have h := Ticked.gaveUp hu (not_lt.mp hticks) hatt hup
          simp only [enterClosed]
          rw [hup] at h
          exact h
      · rename_i hatt
        have h := Ticked.resent hu (not_lt.mp hticks) (not_le.mp hatt)
        by_cases hack : m.state = .ackReceived
        · simpa [hack, configureRequest, request] using h
        · simpa [hack, configureRequest, request] using h

/-! ### Down, fresh and up -/

/-- The machine is closed. -/
def Down (m : OptionFsm P) : Prop :=
  m.state = .closed ∧ m.upSeen = false

/-- The machine negotiates, and has not been open since it was closed. -/
def Fresh (m : OptionFsm P) : Prop :=
  m.Unsettled ∧ m.upSeen = false

/-- The machine has been open and has not been closed since. -/
def Up (m : OptionFsm P) : Prop :=
  m.state ≠ .closed ∧ m.upSeen = true

theorem state_openFsm (h : m.state = .closed) :
  m.openFsm.2.state = .reqSent
  := by
  rw [openFsm, if_neg (not_not.mpr h)]
  rfl

theorem fresh_openFsm (h : m.Down) :
  m.openFsm.2.Fresh ∧ m.openFsm.2.failed = false
  := by
  rw [openFsm, if_neg (not_not.mpr h.1)]
  simp [sendConfigureRequest, nextId, configureRequest, Fresh, Unsettled, h.2]

variable {m' : OptionFsm P} {sent : List Packet}

theorem Handled.failed_eq (h : m.Handled pkt sent m') :
  m'.failed = m.failed
  := by
  cases h with
  | reopenedByRequest _ _ _ _ hm' | reopenedByRefusal _ _ _ _ hm' | unexpectedAck _ _ hm'
  | refused _ _ _ _ hm' =>
      subst hm'
      rfl
  | _ => rfl

/-- A machine that is closed takes no notice. -/
theorem Handled.eq_of_closed (h : m.Handled pkt sent m') (hclosed : m.state = .closed) :
  m' = m
  := by
  cases h with
  | dropped => rfl
  | malformedRequest _ hs | malformedRefusal _ _ hs | refused _ _ hs => exact absurd hclosed hs
  | refusedRequest _ _ _ hs | restarted _ hs => exact absurd hclosed hs.1
  | ackedRequest _ _ _ hs => simp [hclosed] at hs
  | unexpectedAck _ hs => simp [hclosed] at hs
  | openedByRequest _ _ _ hs | reopenedByRequest _ _ _ hs | reopenedByRefusal _ _ _ hs
  | ack _ hs | openedByAck _ hs | terminated _ hs => simp [hclosed] at hs

/-- A machine that has not been open is open now, or still has not been. -/
theorem Handled.fresh_or_opened (h : m.Handled pkt sent m') (hfresh : m.Fresh) :
  m'.Fresh ∨ m'.state = .opened ∧ m'.Up
  := by
  obtain ⟨hun, hup⟩ := hfresh
  cases h with
  | dropped => exact .inl ⟨hun, hup⟩
  | malformedRequest => exact .inl ⟨hun, hup⟩
  | ackedRequest => exact .inl ⟨by simp [Unsettled], hup⟩
  | openedByRequest => exact .inr ⟨rfl, by simp [Up]⟩
  | reopenedByRequest _ _ _ hs => exact absurd hs hun.2
  | refusedRequest =>
      refine .inl ⟨?_, hup⟩
      simp only [Unsettled]
      split
      · simp
      · exact hun
  | reopenedByRefusal _ _ _ hs => exact absurd hs hun.2
  | ack => exact .inl ⟨by simp [Unsettled], hup⟩
  | openedByAck => exact .inr ⟨rfl, by simp [Up]⟩
  | unexpectedAck _ _ hm' =>
      subst hm'
      exact .inl ⟨by simp [Unsettled, requested], hup⟩
  | malformedRefusal => exact .inl ⟨hun, hup⟩
  | refused _ _ _ _ hm' =>
      subst hm'
      refine .inl ⟨?_, hup⟩
      simp only [Unsettled, requested]
      split <;> simp
  | terminated _ hs => exact absurd hs hun.2
  | restarted => exact .inl ⟨by simp [Unsettled], hup⟩

/-- A machine that is up stays up until it is told to end. -/
theorem Handled.up_or_terminated (h : m.Handled pkt sent m') (hup : m.Up) :
  m'.Up ∨ m'.Down ∧ ∃ id p, control pkt = some (.terminateReq, id, p) ∧ m.state = .opened
  := by
  obtain ⟨hopen, hup⟩ := hup
  cases h with
  | dropped => exact .inl ⟨hopen, hup⟩
  | malformedRequest => exact .inl ⟨hopen, hup⟩
  | ackedRequest => exact .inl ⟨by simp, hup⟩
  | openedByRequest => exact .inl ⟨by simp, rfl⟩
  | reopenedByRequest _ _ _ _ hm' =>
      subst hm'
      exact .inl ⟨by simp, hup⟩
  | refusedRequest =>
      refine .inl ⟨?_, hup⟩
      dsimp only
      split
      · simp
      · exact hopen
  | reopenedByRefusal _ _ _ _ hm' =>
      subst hm'
      exact .inl ⟨by simp, hup⟩
  | ack => exact .inl ⟨by simp, hup⟩
  | openedByAck => exact .inl ⟨by simp, rfl⟩
  | unexpectedAck _ _ hm' =>
      subst hm'
      exact .inl ⟨by simp [requested], hup⟩
  | malformedRefusal => exact .inl ⟨hopen, hup⟩
  | refused _ _ _ _ hm' =>
      subst hm'
      refine .inl ⟨?_, hup⟩
      simp only [requested]
      split <;> simp
  | terminated hc hs => exact .inr ⟨⟨rfl, rfl⟩, _, _, hc, hs⟩
  | restarted => exact .inl ⟨by simp, hup⟩

theorem Handled.up_or_down (h : m.Handled pkt sent m') (hup : m.Up) :
  m'.Up ∨ m'.Down
  := (h.up_or_terminated hup).imp_right And.left

variable {q : Option Packet}

theorem Ticked.eq_of_closed (h : m.Ticked q m') (hclosed : m.state = .closed) :
  m' = m
  := by
  cases h with
  | still => rfl
  | waited hun | exhausted hun | gaveUp hun | resent hun => exact absurd hclosed hun.1

theorem Ticked.up (h : m.Ticked q m') (hup : m.Up) :
  m'.Up ∧ m'.failed = m.failed
  := by
  cases h with
  | still => exact ⟨hup, rfl⟩
  | waited => exact ⟨hup, rfl⟩
  | exhausted => exact ⟨hup, rfl⟩
  | gaveUp _ _ _ hdown => simp [hup.2] at hdown
  | resent =>
      refine ⟨⟨?_, hup.2⟩, rfl⟩
      dsimp only
      split
      · simp
      · exact hup.1

/-- How many ticks a negotiation can last without an answer. -/
def patience (m : OptionFsm P) : ℕ :=
  (restartTicks + 1) * (maxConfigure - m.attempts) + (restartTicks - m.ticksSinceSend)

theorem patience_le (m : OptionFsm P) :
  m.patience ≤ (restartTicks + 1) * maxConfigure + restartTicks
  := by
  simp only [patience, restartTicks, maxConfigure]
  omega

/-- A negotiation that has not been open gives up, or has less patience. -/
theorem Ticked.fresh (h : m.Ticked q m') (hfresh : m.Fresh) :
  m'.Fresh ∧ m'.failed = m.failed ∧ m'.patience < m.patience ∨ m'.Down ∧ m'.failed = true
  := by
  obtain ⟨hun, hup⟩ := hfresh
  cases h with
  | still hs => exact absurd hs (not_or.mpr hun)
  | waited _ hticks =>
      refine .inl ⟨⟨hun, hup⟩, rfl, ?_⟩
      simp only [patience, restartTicks, maxConfigure] at hticks ⊢
      omega
  | exhausted _ _ _ hup' => simp [hup] at hup'
  | gaveUp => exact .inr ⟨⟨rfl, hup⟩, rfl⟩
  | resent _ _ hatt =>
      refine .inl ⟨⟨?_, hup⟩, rfl, ?_⟩
      · simp only [Unsettled]
        split
        · simp
        · exact hun
      · simp only [patience, restartTicks, maxConfigure] at hatt ⊢
        omega

end OptionFsm

end ZeroNat.Pppoe.Ppp

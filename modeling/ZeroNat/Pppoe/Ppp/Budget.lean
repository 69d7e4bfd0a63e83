import ZeroNat.Pppoe.Ppp.Acknowledged

/-!
# The restart budget

How often a request is sent before it is answered, and how long a negotiation without an answer
lasts.  The attempts count exactly the requests since the last answer, and a machine that could
send another one because it is open, or because its request was acknowledged, has not sent any
since.
-/

namespace ZeroNat.Pppoe.Ppp

/-- A configuration request. -/
def Packet.requests (q : Packet) : Bool :=
  match q.payload with
  | .ppp .configureReq _ _ => true
  | _ => false

theorem Packet.requests_of_silent {q : Packet} (h : q.negotiates = false) :
  q.requests = false
  := by
  rw [requests]
  split
  · rename_i heq
    simp [negotiates, heq] at h
  · rfl

namespace OptionFsm

variable {P : Type} [Protocol P]

/-- An answer to our request. -/
def Answers (pkt : List UInt8) : Prop :=
  ∃ c ∈ control pkt, c.1 ∈ [Code.configureAck, .configureNack, .configureRej]

instance (pkt : List UInt8) : Decidable (Answers pkt) :=
  inferInstanceAs (Decidable (∃ c ∈ control pkt, _))

/-- What is sent in the course of some events, and the machine afterwards. -/
def steps (m : OptionFsm P) : List Event → List Packet × OptionFsm P
  | [] => ([], m)
  | e :: es => ((m.step e).1 ++ (steps (m.step e).2 es).1, (steps (m.step e).2 es).2)

/-- A tick, or a packet from the peer. -/
def Event.Inbound : Event → Prop
  | .tick | .packet _ => True
  | .openFsm | .close => False

/-- A tick, or a packet from the peer that is no answer. -/
def Event.Unanswering : Event → Prop
  | .tick => True
  | .packet pkt => ¬ Answers pkt
  | .openFsm | .close => False

def Event.isTick : Event → Bool
  | .tick => true
  | _ => false

/-- The requests among the packets. -/
def count (sent : List Packet) : ℕ :=
  sent.countP Packet.requests

theorem steps_append (m : OptionFsm P) (es es' : List Event) :
  m.steps (es ++ es')
    = ((m.steps es).1 ++ ((m.steps es).2.steps es').1, ((m.steps es).2.steps es').2)
  := by
  induction es generalizing m with
  | nil => rfl
  | cons e es ih => simp [steps, ih]

variable {m m' : OptionFsm P} {pkt p : List UInt8} {sent : List Packet} {q : Option Packet}

/-! ### The attempts -/

theorem count_of_silent (h : ∀ q ∈ sent, q.negotiates = false) :
  count sent = 0
  := by
  rw [count, List.countP_eq_zero]
  intro q hq
  rw [Packet.requests_of_silent (h q hq)]
  exact Bool.false_ne_true

theorem count_answer {r : Reply P} {b : Bool} (hj : m.judge p = (r, b)) (id : UInt8)
    (sent : List Packet) :
  count (answer r id :: sent) = count sent
  := by
  have hcode := code_judge m p
  rw [hj] at hcode
  rw [count, count, List.countP_cons_of_neg]
  simp only [Packet.requests, answer]
  split
  · rename_i heq
    rw [(Payload.ppp.inj heq).1] at hcode
    simp at hcode
  · simp

theorem count_request (m : OptionFsm P) (id : UInt8) :
  count [m.request id] = 1
  := rfl

theorem count_terminateAck (m : OptionFsm P) (id : UInt8) :
  count [m.sendTerminateAck id] = 0
  := rfl

/-- The attempts are within the budget, and none has been made by a machine that is open or
whose request was acknowledged. -/
structure Frugal (m : OptionFsm P) : Prop where
  within : m.attempts ≤ maxConfigure
  answered : m.state = .opened ∨ m.state = .ackReceived → m.attempts = 0

theorem answers_of_control {code : Code} {id : UInt8} (hc : control pkt = some (code, id, p))
    (hcode : code = .configureAck ∨ code = .configureNack ∨ code = .configureRej) :
  Answers pkt
  := ⟨_, hc, by simpa using hcode⟩

/-- What a packet does to the attempts: an answer starts to count them anew, and every request
that is sent is one. -/
theorem Handled.attempts_eq (h : m.Handled pkt sent m') :
  m'.attempts = count sent + m.attempts ∨ Answers pkt ∧ m'.attempts = count sent
  := by
  cases h with
  | dropped hsilent =>
      left
      rw [count_of_silent hsilent, Nat.zero_add]
  | malformedRequest =>
      left
      exact (Nat.zero_add _).symm
  | ackedRequest _ hj | openedByRequest _ hj | refusedRequest _ hj =>
      left
      rw [count_answer hj]
      exact (Nat.zero_add _).symm
  | reopenedByRequest _ hj _ _ hm' | reopenedByRefusal _ hj _ _ hm' =>
      left
      subst hm'
      rw [count_answer hj, count_request]
      exact Nat.add_comm _ _
  | ack hc | openedByAck hc => exact .inr ⟨answers_of_control hc (.inl rfl), rfl⟩
  | unexpectedAck hc _ hm' =>
      subst hm'
      exact .inr ⟨answers_of_control hc (.inl rfl), rfl⟩
  | malformedRefusal hc hcode => exact .inr ⟨answers_of_control hc (.inr hcode), rfl⟩
  | refused hc hcode _ _ hm' =>
      subst hm'
      exact .inr ⟨answers_of_control hc (.inr hcode), rfl⟩
  | terminated | restarted =>
      left
      rw [count_terminateAck]
      exact (Nat.zero_add _).symm

theorem Handled.frugal (h : m.Handled pkt sent m') (hm : m.Frugal) :
  m'.Frugal
  := by
  obtain ⟨hwithin, hanswered⟩ := hm
  cases h with
  | dropped => exact ⟨hwithin, hanswered⟩
  | malformedRequest => exact ⟨hwithin, hanswered⟩
  | ackedRequest => exact ⟨hwithin, by simp⟩
  | openedByRequest _ _ _ hs => exact ⟨hwithin, fun _ => hanswered (.inr hs)⟩
  | reopenedByRequest _ _ _ hs hm' | reopenedByRefusal _ _ _ hs hm' =>
      subst hm'
      refine ⟨?_, by simp⟩
      simp only [requested, hanswered (.inl hs), maxConfigure]
      omega
  | refusedRequest _ _ _ hun =>
      refine ⟨hwithin, fun hs => hanswered ?_⟩
      dsimp only at hs
      split at hs
      · simp at hs
      · exact hs
  | ack | openedByAck | malformedRefusal => exact ⟨Nat.zero_le _, fun _ => rfl⟩
  | unexpectedAck _ _ hm' =>
      subst hm'
      exact ⟨by simp [requested, maxConfigure], by simp [requested]⟩
  | refused _ _ _ _ hm' =>
      subst hm'
      refine ⟨by simp [requested, maxConfigure], ?_⟩
      simp only [requested]
      split <;> simp
  | terminated => exact ⟨hwithin, by simp [enterClosed]⟩
  | restarted => exact ⟨hwithin, by simp⟩

theorem Ticked.attempts_eq (h : m.Ticked q m') :
  m'.attempts = count q.toList + m.attempts
  := by
  cases h with
  | still | waited | exhausted | gaveUp => exact (Nat.zero_add _).symm
  | resent => exact Nat.add_comm _ _

theorem Ticked.frugal (h : m.Ticked q m') (hm : m.Frugal) :
  m'.Frugal
  := by
  obtain ⟨hwithin, hanswered⟩ := hm
  cases h with
  | still | waited | exhausted => exact ⟨hwithin, hanswered⟩
  | gaveUp => exact ⟨hwithin, by simp⟩
  | resent hun _ hlt =>
      refine ⟨hlt, ?_⟩
      dsimp only
      split
      · simp
      · rename_i hs
        intro hs'
        exact (hs'.elim hun.2 hs).elim

theorem frugal_openFsm (h : m.Down) :
  m.openFsm.2.Frugal ∧ m.openFsm.2.attempts = 1
  := by
  have hattempts : m.openFsm.2.attempts = 1 := by
    rw [openFsm, if_neg (not_not.mpr h.1)]
    rfl
  refine ⟨⟨?_, ?_⟩, hattempts⟩
  · rw [hattempts, maxConfigure]
    omega
  · rw [state_openFsm h.1]
    simp

theorem Frugal.step (hm : m.Frugal) {e : Event} (he : e.Inbound) :
  (m.step e).2.Frugal
  := by
  cases e with
  | openFsm | close => exact he.elim
  | tick => exact (onTick_ticked m).frugal hm
  | packet pkt => exact (handle_handled m pkt).frugal hm

theorem Frugal.steps (hm : m.Frugal) {es : List Event} (hes : ∀ e ∈ es, e.Inbound) :
  (m.steps es).2.Frugal
  := by
  induction es generalizing m with
  | nil => exact hm
  | cons e es ih =>
      exact ih (hm.step (hes e List.mem_cons_self)) fun e he => hes e (List.mem_cons_of_mem _ he)

theorem Event.Unanswering.inbound {e : Event} (he : e.Unanswering) :
  e.Inbound
  := by
  cases e with
  | openFsm | close => exact he
  | tick | packet => trivial

/-- Without an answer, the requests that are sent are the attempts that are made. -/
theorem attempts_step {e : Event} (he : e.Unanswering) :
  (m.step e).2.attempts = count (m.step e).1 + m.attempts
  := by
  cases e with
  | openFsm | close => exact he.elim
  | tick => exact (onTick_ticked m).attempts_eq
  | packet pkt => exact (handle_handled m pkt).attempts_eq.resolve_right fun h => he h.1

theorem attempts_steps {es : List Event} (hes : ∀ e ∈ es, e.Unanswering) :
  (m.steps es).2.attempts = count (m.steps es).1 + m.attempts
  := by
  induction es generalizing m with
  | nil => exact (Nat.zero_add _).symm
  | cons e es ih =>
      have hstep := attempts_step (m := m) (hes e List.mem_cons_self)
      have hrest := ih (m := (m.step e).2) fun e he => hes e (List.mem_cons_of_mem _ he)
      rw [OptionFsm.steps]
      dsimp only
      rw [hrest, hstep, count, count, count, List.countP_append]
      omega

/-- What is sent from an answer on until the next is within the budget. -/
theorem count_steps_le (hm : m.Frugal) (pkt : List UInt8) {es : List Event}
    (hes : ∀ e ∈ es, e.Unanswering) :
  count (m.steps (.packet pkt :: es)).1 ≤ maxConfigure
  := by
  have hfirst := (handle_handled m pkt).attempts_eq
  have hrest := attempts_steps (m := (m.step (.packet pkt)).2) hes
  have hinbound : ∀ e ∈ .packet pkt :: es, e.Inbound := by
    intro e he
    obtain rfl | he := List.mem_cons.mp he
    · trivial
    · exact (hes e he).inbound
  have hwithin := (hm.steps hinbound).within
  change count ((m.step (.packet pkt)).1 ++ ((m.step (.packet pkt)).2.steps es).1) ≤ maxConfigure
  change ((m.step (.packet pkt)).2.steps es).2.attempts ≤ maxConfigure at hwithin
  change (m.step (.packet pkt)).2.attempts = count (m.step (.packet pkt)).1 + m.attempts
    ∨ Answers pkt ∧ (m.step (.packet pkt)).2.attempts = count (m.step (.packet pkt)).1 at hfirst
  rw [count] at hfirst hrest ⊢
  rw [List.countP_append]
  omega

/-! ### Waiting for an answer -/

/-- A negotiation that has waited for an answer for a number of ticks. -/
structure Waiting (m : OptionFsm P) (n : ℕ) : Prop where
  state : m.state = .reqSent ∨ m.state = .ackSent
  fresh : m.upSeen = false
  positive : 0 < m.attempts
  within : m.attempts ≤ maxConfigure
  timer : m.ticksSinceSend < restartTicks
  elapsed : restartTicks * m.attempts + m.ticksSinceSend = n + restartTicks

/-- A negotiation that has failed for want of an answer. -/
def Exhausted (m : OptionFsm P) : Prop :=
  m.state = .closed ∧ m.failed = true

theorem waiting_openFsm (h : m.Down) :
  m.openFsm.2.Waiting 0
  := by
  rw [openFsm, if_neg (not_not.mpr h.1)]
  exact ⟨.inl rfl, h.2, Nat.one_pos, Nat.le_of_ble_eq_true rfl, Nat.le_of_ble_eq_true rfl, rfl⟩

/-- A packet that is no answer does not count. -/
theorem Handled.waiting (h : m.Handled pkt sent m') (hno : ¬ Answers pkt) {n : ℕ}
    (hm : m.Waiting n) :
  m'.Waiting n
  := by
  obtain ⟨hstate, hfresh, hpos, hwithin, htimer, helapsed⟩ := hm
  cases h with
  | dropped | malformedRequest =>
      exact ⟨hstate, hfresh, hpos, hwithin, htimer, helapsed⟩
  | ackedRequest => exact ⟨.inr rfl, hfresh, hpos, hwithin, htimer, helapsed⟩
  | openedByRequest _ _ _ hs | reopenedByRequest _ _ _ hs | reopenedByRefusal _ _ _ hs
  | terminated _ hs => simp [hs] at hstate
  | refusedRequest =>
      refine ⟨?_, hfresh, hpos, hwithin, htimer, helapsed⟩
      dsimp only
      split
      · exact .inl rfl
      · exact hstate
  | ack hc | openedByAck hc => exact absurd (answers_of_control hc (.inl rfl)) hno
  | unexpectedAck hc => exact absurd (answers_of_control hc (.inl rfl)) hno
  | malformedRefusal hc hcode | refused hc hcode =>
      exact absurd (answers_of_control hc (.inr hcode)) hno
  | restarted => exact ⟨.inl rfl, hfresh, hpos, hwithin, htimer, helapsed⟩

/-- A tick counts, until the budget is spent. -/
theorem Ticked.waiting (h : m.Ticked q m') {n : ℕ} (hm : m.Waiting n) :
  m'.Waiting (n + 1) ∨ m'.Exhausted
  := by
  obtain ⟨hstate, hfresh, hpos, hwithin, htimer, helapsed⟩ := hm
  simp only [restartTicks] at htimer helapsed
  cases h with
  | still hs =>
      rw [or_comm] at hs
      obtain hs | hs := hs <;> simp [hs] at hstate
  | waited _ hticks =>
      refine .inl ⟨hstate, hfresh, hpos, hwithin, hticks, ?_⟩
      simp only [restartTicks]
      omega
  | exhausted _ _ _ hup => simp [hfresh] at hup
  | gaveUp => exact .inr ⟨rfl, rfl⟩
  | resent _ hticks hlt =>
      refine .inl ⟨?_, hfresh, Nat.succ_pos _, hlt, Nat.succ_pos 2, ?_⟩
      · dsimp only
        split
        · exact .inl rfl
        · exact hstate
      · simp only [restartTicks] at hticks ⊢
        omega

theorem Exhausted.step (hm : m.Exhausted) {e : Event} (he : e.Inbound) :
  (m.step e).2.Exhausted
  := by
  cases e with
  | openFsm | close => exact he.elim
  | tick =>
      change m.onTick.2.Exhausted
      rw [(onTick_ticked m).eq_of_closed hm.1]
      exact hm
  | packet pkt =>
      change (m.handle pkt).2.Exhausted
      rw [(handle_handled m pkt).eq_of_closed hm.1]
      exact hm

/-- Without an answer, the ticks add up until the negotiation has failed. -/
theorem Waiting.steps {n : ℕ} (hm : m.Waiting n ∨ m.Exhausted) {es : List Event}
    (hes : ∀ e ∈ es, e.Unanswering) :
  (m.steps es).2.Waiting (n + es.countP Event.isTick) ∨ (m.steps es).2.Exhausted
  := by
  induction es generalizing m n with
  | nil => exact hm
  | cons e es ih =>
      have he := hes e List.mem_cons_self
      have hrest : ∀ e ∈ es, e.Unanswering := fun e he => hes e (List.mem_cons_of_mem _ he)
      cases e with
      | openFsm | close => exact he.elim
      | tick =>
          have hstep : (m.step .tick).2.Waiting (n + 1) ∨ (m.step .tick).2.Exhausted :=
            hm.elim (fun h => (onTick_ticked m).waiting h) fun h => .inr (h.step he.inbound)
          have h := ih hstep hrest
          rw [List.countP_cons_of_pos rfl, Nat.add_comm _ 1, ← Nat.add_assoc]
          exact h
      | packet pkt =>
          have hstep : (m.step (.packet pkt)).2.Waiting n ∨ (m.step (.packet pkt)).2.Exhausted :=
            hm.elim (fun h => .inl ((handle_handled m pkt).waiting he h))
              fun h => .inr (h.step he.inbound)
          have h := ih hstep hrest
          rw [List.countP_cons_of_neg (by simp [Event.isTick])]
          exact h

omit [Protocol P] in
theorem Waiting.lt {n : ℕ} (hm : m.Waiting n) :
  n < restartTicks * maxConfigure
  := by
  obtain ⟨-, -, -, hwithin, htimer, helapsed⟩ := hm
  simp only [restartTicks, maxConfigure] at hwithin htimer helapsed ⊢
  omega

/-! ### Runs -/

/-- The machine is closed, or negotiates, or has been up; only a machine that is closed has
failed. -/
def Sane (m : OptionFsm P) : Prop :=
  m.Down ∨ (m.Fresh ∨ m.Up) ∧ m.failed = false

theorem Sane.step (hm : m.Sane) (e : Event) :
  (m.step e).2.Sane
  := by
  cases e with
  | openFsm =>
      obtain hdown | ⟨hopen, hfailed⟩ := hm
      · obtain ⟨hfresh, hfailed⟩ := fresh_openFsm hdown
        exact .inr ⟨.inl hfresh, hfailed⟩
      · have hne : m.state ≠ .closed := hopen.elim (fun h => h.1.1) fun h => h.1
        change m.openFsm.2.Sane
        rw [openFsm, if_pos hne]
        exact .inr ⟨hopen, hfailed⟩
  | close => exact .inl ⟨rfl, rfl⟩
  | tick =>
      have hticked := onTick_ticked m
      obtain hdown | ⟨hfresh | hup, hfailed⟩ := hm
      · change m.onTick.2.Sane
        rw [hticked.eq_of_closed hdown.1]
        exact .inl hdown
      · obtain ⟨hfresh, heq, -⟩ | ⟨hdown, -⟩ := hticked.fresh hfresh
        · exact .inr ⟨.inl hfresh, heq.trans hfailed⟩
        · exact .inl hdown
      · obtain ⟨hup, heq⟩ := hticked.up hup
        exact .inr ⟨.inr hup, heq.trans hfailed⟩
  | packet pkt =>
      have hhandled := handle_handled m pkt
      have heq := hhandled.failed_eq
      obtain hdown | ⟨hfresh | hup, hfailed⟩ := hm
      · change (m.handle pkt).2.Sane
        rw [hhandled.eq_of_closed hdown.1]
        exact .inl hdown
      · obtain hfresh | ⟨-, hup⟩ := hhandled.fresh_or_opened hfresh
        · exact .inr ⟨.inl hfresh, heq.trans hfailed⟩
        · exact .inr ⟨.inr hup, heq.trans hfailed⟩
      · obtain hup | hdown := hhandled.up_or_down hup
        · exact .inr ⟨.inr hup, heq.trans hfailed⟩
        · exact .inl hdown

theorem Sane.steps (hm : m.Sane) (es : List Event) :
  (m.steps es).2.Sane
  := by
  induction es generalizing m with
  | nil => exact hm
  | cons e es ih => exact ih (hm.step e)

omit [Protocol P] in
theorem Sane.down (hm : m.Sane) (h : m.state = .closed) :
  m.Down
  := by
  obtain hdown | ⟨hfresh | hup, -⟩ := hm
  · exact hdown
  · exact absurd h hfresh.1.1
  · exact absurd h hup.1

omit [Protocol P] in
theorem sane_new (proto : P) :
  (new proto).Sane
  := .inl ⟨rfl, rfl⟩

/-- A machine that was open is up, unless it has been closed since. -/
theorem up_steps (hm : m.Up) {es : List Event} (hes : ∀ e ∈ es, e.Inbound)
    (hopen : (m.steps es).2.state ≠ .closed) :
  (m.steps es).2.Up
  := by
  have hclosed : ∀ {m : OptionFsm P} {es : List Event}, (∀ e ∈ es, e.Inbound) →
      m.state = .closed → (m.steps es).2.state = .closed := by
    intro m es hes hm
    induction es generalizing m with
    | nil => exact hm
    | cons e es ih =>
        refine ih (fun e he => hes e (List.mem_cons_of_mem _ he)) ?_
        cases e with
        | openFsm | close => exact (hes _ List.mem_cons_self).elim
        | tick =>
            change m.onTick.2.state = .closed
            rw [(onTick_ticked m).eq_of_closed hm, hm]
        | packet pkt =>
            change (m.handle pkt).2.state = .closed
            rw [(handle_handled m pkt).eq_of_closed hm, hm]
  induction es generalizing m with
  | nil => exact hm
  | cons e es ih =>
      have hrest : ∀ e ∈ es, e.Inbound := fun e he => hes e (List.mem_cons_of_mem _ he)
      cases e with
      | openFsm | close => exact (hes _ List.mem_cons_self).elim
      | tick => exact ih ((onTick_ticked m).up hm).1 hrest hopen
      | packet pkt =>
          obtain hup | hdown := (handle_handled m pkt).up_or_down hm
          · exact ih hup hrest hopen
          · exact absurd (hclosed hrest hdown.1) hopen

/-- What the restart budget promises of a machine that is opened: the requests that are sent
from its opening, or from an answer, on until the next answer are within the budget; without an
answer it has failed once the ticks are up; and no tick closes a link that was open. -/
structure Budgeted (m : OptionFsm P) : Prop where
  opening : ∀ es : List Event, (∀ e ∈ es, e.Unanswering) →
    count (m.openFsm.1 :: (m.openFsm.2.steps es).1) ≤ maxConfigure
  answered : ∀ (before : List Event) (pkt : List UInt8) (es : List Event),
    (∀ e ∈ before, e.Inbound) → Answers pkt → (∀ e ∈ es, e.Unanswering) →
    count ((m.openFsm.2.steps before).2.steps (.packet pkt :: es)).1 ≤ maxConfigure
  fails : ∀ es : List Event, (∀ e ∈ es, e.Unanswering) →
    restartTicks * maxConfigure ≤ es.countP Event.isTick →
    (m.openFsm.2.steps es).2.state = .closed ∧ (m.openFsm.2.steps es).2.failed = true
  lasts : ∀ before es : List Event, (∀ e ∈ before, e.Inbound) → (∀ e ∈ es, e.Inbound) →
    (m.openFsm.2.steps before).2.state = .opened →
    (m.openFsm.2.steps (before ++ es)).2.state ≠ .closed →
    (m.openFsm.2.steps (before ++ es ++ [.tick])).2.state ≠ .closed
      ∧ (m.openFsm.2.steps (before ++ es ++ [.tick])).2.failed = false

/-- Every machine that is closed keeps to the budget when it is opened, whatever happened to it
before. -/
theorem restart_budget (proto : P) (history : List Event)
    (hclosed : ((new proto).steps history).2.state = .closed) :
  ((new proto).steps history).2.Budgeted
  := by
  have hdown := ((sane_new proto).steps history).down hclosed
  generalize ((new proto).steps history).2 = m at hdown
  obtain ⟨hfrugal, hone⟩ := frugal_openFsm hdown
  refine ⟨?_, ?_, ?_, ?_⟩
  · intro es hes
    have hattempts := attempts_steps (m := m.openFsm.2) hes
    have hwithin := (hfrugal.steps fun e he => (hes e he).inbound).within
    have hle : count (m.openFsm.1 :: (m.openFsm.2.steps es).1)
        ≤ 1 + count (m.openFsm.2.steps es).1 := by
      rw [count, count, List.countP_cons]
      split <;> omega
    omega
  · intro before pkt es hbefore _ hes
    exact count_steps_le (hfrugal.steps hbefore) pkt hes
  · intro es hes hticks
    have hwaiting := waiting_openFsm hdown
    obtain h | h := Waiting.steps (.inl hwaiting) hes
    · have := h.lt
      omega
    · exact h
  · intro before es hbefore hes hopened hopen
    have hsane : m.openFsm.2.Sane := Sane.step (.inl hdown) .openFsm
    have hup : (m.openFsm.2.steps before).2.Up := by
      obtain h | ⟨h | h, -⟩ := hsane.steps before
      · exact absurd (hopened.symm.trans h.1) (by simp)
      · exact absurd hopened h.1.2
      · exact h
    have hfailed : (m.openFsm.2.steps (before ++ es)).2.failed = false := by
      obtain h | ⟨-, h⟩ := hsane.steps (before ++ es)
      · exact absurd h.1 hopen
      · exact h
    rw [steps_append] at hopen hfailed
    obtain ⟨hlast, heq⟩ := (onTick_ticked _).up (up_steps hup hes hopen)
    rw [steps_append, steps_append]
    exact ⟨hlast.1, heq.trans hfailed⟩

/-- LCP, closed in the middle of a negotiation. -/
theorem restart_budget_lcp :
  ((new (Lcp.new 1492 7)).steps [.openFsm, .tick, .close]).2.state = .closed
    ∧ ((new (Lcp.new 1492 7)).steps [.openFsm, .tick, .close]).2.Budgeted
  := ⟨rfl, restart_budget (Lcp.new 1492 7) [.openFsm, .tick, .close] rfl⟩

end OptionFsm

end ZeroNat.Pppoe.Ppp

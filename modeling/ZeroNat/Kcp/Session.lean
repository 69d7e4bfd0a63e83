import ZeroNat.Dgram.Channel
import ZeroNat.Kcp.Stream
import ZeroNat.Lib.Pool
import ZeroNat.Lib.Table
import ZeroNat.Server.Admission

/-!
# The books of a session

A session multiplexes conversations and datagram channels over one pair of addresses.  What it
carries is entered in two maps by identifier and counted.  The entry, the count and the task that
they stand for are made and unmade in separate steps, of the receive loop, of callers that open
conversations, and of the tasks themselves, and these interleave.
-/

open BigEndian

namespace ZeroNat

/-- The cap on the conversations that a peer may open. -/
def maxConvsPerSession : ℕ := 256

/-- The room of the lane of a conversation. -/
def socketSendCap : ℕ := 1024

/-- What a session carries: drivers of conversations, and datagram channels. -/
inductive CarrierKind where
  | conv
  | dgram
deriving DecidableEq

/-- The life of a carrier. -/
inductive CarrierPhase where
  /-- Its entry is in the map, and it is not counted yet. -/
  | inserted
  | running
  /-- Its driver has returned, or its receiver is gone, and its guard is about to be dropped. -/
  | returned
  /-- Its guard has erased the entry, and not counted it off yet. -/
  | erased
  | gone
deriving DecidableEq

/-- A driver or a datagram channel, with the packets that wait in its lane.  Its lane is known by
the position of the carrier in its session. -/
structure Carrier where
  kind : CarrierKind
  key : UInt32
  /-- Opened by the peer. -/
  peer : Bool
  phase : CarrierPhase
  queue : List (List UInt8)
deriving DecidableEq

namespace Carrier

/-- The guard has been made and is not dropped altogether. -/
def counted (c : Carrier) : Bool :=
  match c.phase with
  | .running | .returned | .erased => true
  | .inserted | .gone => false

/-- The carrier has been entered and its guard has not begun to be dropped. -/
def entered (c : Carrier) : Bool :=
  match c.phase with
  | .inserted | .running | .returned => true
  | .erased | .gone => false

/-- A driver of a conversation. -/
def drives (c : Carrier) : Bool :=
  c.kind = .conv ∧ c.entered

def cap (c : Carrier) : ℕ :=
  match c.kind with
  | .conv => socketSendCap
  | .dgram => appChanCap

/-- Put a packet in the lane.  It is dropped when the lane is full or nobody receives from it. -/
def deliver (c : Carrier) (body : List UInt8) : Carrier :=
  if (c.phase = .inserted ∨ c.phase = .running) ∧ c.queue.length < c.cap then
    { c with queue := c.queue ++ [body] }
  else c

theorem deliver_cases (c : Carrier) (body : List UInt8) :
  c.deliver body = c ∨ c.deliver body = { c with queue := c.queue ++ [body] }
  := by
  unfold deliver
  split
  · exact Or.inr rfl
  · exact Or.inl rfl

end Carrier

/-- Where the receive loop is: between datagrams, or with a conversation of the peer that it has
found to be unknown, or that it has entered. -/
inductive ReceiveLoop where
  | idle
  | checked (conv : UInt32) (setup : Bool) (payload : List UInt8)
  | spawning (lane : ℕ) (conv : UInt32) (setup : Bool) (payload : List UInt8)
deriving DecidableEq

/-- Whether a conversation may be entered without getting in the way of the one that the receive
loop is about to enter, given the number of entries. -/
def ReceiveLoop.Spares (conv : UInt32) (size : ℕ) : ReceiveLoop → Prop
  | checked conv' _ _ => conv' ≠ conv ∧ size + 1 < maxConvsPerSession
  | idle | spawning _ _ _ _ => True

instance (conv : UInt32) (size : ℕ) : DecidablePred (ReceiveLoop.Spares conv size)
  | .checked conv' _ _ =>
    inferInstanceAs (Decidable (conv' ≠ conv ∧ size + 1 < maxConvsPerSession))
  | .idle | .spawning _ _ _ _ => inferInstanceAs (Decidable True)

/-- A conversation that the receive loop has accepted. -/
structure Acceptance where
  conv : UInt32
  lane : ℕ
  setup : Bool
deriving DecidableEq

/-- A session, with the opens that have their identifier and are about to enter it, and with all
carriers there have been and the conversations accepted. -/
structure KcpSession where
  convs : Table UInt32 ℕ
  dgrams : Table UInt32 ℕ
  nextConv : UInt32
  live : ℕ
  loop : ReceiveLoop
  opening : List UInt32
  carriers : List Carrier
  accepted : List Acceptance

namespace KcpSession

inductive Event where
  /-- A datagram comes, and a permit for a new conversation is at hand or not. -/
  | route (datagram : List UInt8) (permit : Bool)
  /-- The receive loop enters the conversation it has found to be unknown. -/
  | insertPeer
  /-- The receive loop delivers the first packet of that conversation and accepts it. -/
  | acceptPeer
  /-- A caller takes the next identifier. -/
  | openConv
  /-- A caller chooses an identifier. -/
  | openConvWith (conv : UInt32)
  /-- The open at a position enters its conversation. -/
  | insertOpen (i : ℕ)
  | registerDgram (tag : UInt32)
  /-- A carrier that has been entered is counted, and its task begins. -/
  | count (lane : ℕ)
  /-- The task of a carrier looks for a packet in its lane. -/
  | recv (lane : ℕ)
  /-- The task of a carrier ends for a reason of its own. -/
  | finish (lane : ℕ)
  /-- The guard of a carrier erases its entry. -/
  | erase (lane : ℕ)
  /-- The guard of a carrier counts it off. -/
  | release (lane : ℕ)
  | closeConvs
  | closeDgrams
deriving DecidableEq

/-- A new session. -/
def fresh (firstConv : UInt32) : KcpSession where
  convs := ∅
  dgrams := ∅
  nextConv := firstConv
  live := 0
  loop := .idle
  opening := []
  carriers := []
  accepted := []

/-- The map of a kind of carriers. -/
def map (s : KcpSession) : CarrierKind → Table UInt32 ℕ
  | .conv => s.convs
  | .dgram => s.dgrams

def setMap (s : KcpSession) (kind : CarrierKind) (m : Table UInt32 ℕ) : KcpSession :=
  match kind with
  | .conv => { s with convs := m }
  | .dgram => { s with dgrams := m }

def put (s : KcpSession) (lane : ℕ) (c : Carrier) : KcpSession :=
  { s with carriers := s.carriers.set lane c }

/-- Make a lane and enter it. -/
def enter (s : KcpSession) (kind : CarrierKind) (key : UInt32) (peer : Bool) : KcpSession :=
  let s := s.setMap kind ((s.map kind).insert key s.carriers.length)
  { s with carriers := s.carriers ++ [⟨kind, key, peer, .inserted, []⟩] }

/-- Put a packet in the lane that is entered under an identifier. -/
def deliver (s : KcpSession) (kind : CarrierKind) (key : UInt32) (body : List UInt8) : KcpSession :=
  match (s.map kind).lookup key with
  | none => s
  | some lane =>
    match s.carriers[lane]? with
    | none => s
    | some c => s.put lane (c.deliver body)

variable (getConv : List UInt8 → UInt32)

/-- What a datagram is for by its class: a kind of carriers, an identifier, and the packet. -/
def target : List UInt8 → Option (CarrierKind × UInt32 × List UInt8)
  | [] => none
  | cls :: rest =>
    if cls = classKcp ∨ cls = classSetup then
      if rest.length < kcpOverhead then none else some (.conv, getConv rest, rest)
    else if cls = Dgram.classDgram then
      if rest.length < 4 then none
      else some (.dgram, UInt32.ofNat (ofBe (rest.take 4)), rest.drop 4)
    else none

/-- Route a datagram, up to where the receive loop lets go of the map. -/
def route (s : KcpSession) (datagram : List UInt8) (permit : Bool) : KcpSession :=
  match target getConv datagram with
  | none => s
  | some (.dgram, tag, body) => s.deliver .dgram tag body
  | some (.conv, conv, payload) =>
    if (s.convs.lookup conv).isSome then s.deliver .conv conv payload
    else if maxConvsPerSession ≤ s.convs.size then s
    else if permit then
      { s with loop := .checked conv (datagram.head? = some classSetup) payload }
    else s

/-- What an event does, if it can happen. -/
def step (s : KcpSession) : Event → Option KcpSession
  | .route datagram permit =>
    match s.loop with
    | .idle => some (s.route getConv datagram permit)
    | _ => none
  | .insertPeer =>
    match s.loop with
    | .checked conv setup payload =>
      some { s.enter .conv conv true with loop := .spawning s.carriers.length conv setup payload }
    | _ => none
  | .acceptPeer =>
    match s.loop with
    | .spawning lane conv setup payload =>
      match s.carriers[lane]? with
      | none => none
      | some c =>
        if c.phase = .inserted then none
        else some
          { s.deliver .conv conv payload with
            loop := .idle
            accepted := s.accepted ++ [⟨conv, lane, setup⟩] }
    | _ => none
  | .openConv => some { s with nextConv := s.nextConv + 1, opening := s.opening ++ [s.nextConv] }
  | .openConvWith conv => some { s with opening := s.opening ++ [conv] }
  | .insertOpen i =>
    match s.opening[i]? with
    | none => none
    | some conv => some { s.enter .conv conv false with opening := s.opening.eraseIdx i }
  | .registerDgram tag => some (s.enter .dgram tag false)
  | .count lane =>
    match s.carriers[lane]? with
    | some c =>
      if c.phase = .inserted then
        some { s.put lane { c with phase := .running } with live := s.live + 1 }
      else none
    | none => none
  | .recv lane =>
    match s.carriers[lane]? with
    | some c =>
      if c.phase = .running then
        match c.queue with
        | _ :: queue => some (s.put lane { c with queue })
        | [] =>
          -- the sending side lives in the map
          if (s.map c.kind).lookup c.key = some lane then none
          else some (s.put lane { c with phase := .returned })
      else none
    | none => none
  | .finish lane =>
    match s.carriers[lane]? with
    | some c =>
      if c.phase = .running then some (s.put lane { c with phase := .returned }) else none
    | none => none
  | .erase lane =>
    match s.carriers[lane]? with
    | some c =>
      if c.phase = .returned then
        some ((s.setMap c.kind ((s.map c.kind).erase c.key)).put lane { c with phase := .erased })
      else none
    | none => none
  | .release lane =>
    match s.carriers[lane]? with
    | some c =>
      if c.phase = .erased then
        some { s.put lane { c with phase := .gone } with live := s.live - 1 }
      else none
    | none => none
  | .closeConvs => some { s with convs := ∅ }
  | .closeDgrams => some { s with dgrams := ∅ }

/-- Whether the session carries nothing. -/
def isIdle (s : KcpSession) : Bool :=
  s.live = 0

/-- The number of drivers. -/
def drivers (s : KcpSession) : ℕ :=
  s.carriers.countP Carrier.drives

/-- What keeps the books in order.  The session is not closed.  A caller registers a tag that is
not in use, and opens a conversation under an identifier that is neither in use nor about to
be entered for the peer.  While the receive loop is about to enter a conversation, no open takes
the last place. -/
def Apart (s : KcpSession) : Event → Prop
  | .insertOpen i =>
    ∀ conv ∈ s.opening[i]?, s.convs.lookup conv = none ∧ s.loop.Spares conv s.convs.size
  | .registerDgram tag => s.dgrams.lookup tag = none
  | .closeConvs | .closeDgrams => False
  | _ => True

instance (s : KcpSession) : DecidablePred s.Apart
  | .insertOpen i =>
    @Option.decidableForallMem _ _
      (fun conv => inferInstanceAs (Decidable (s.convs.lookup conv = none
        ∧ s.loop.Spares conv s.convs.size)))
      s.opening[i]?
  | .registerDgram tag => inferInstanceAs (Decidable (s.dgrams.lookup tag = none))
  | .closeConvs | .closeDgrams => inferInstanceAs (Decidable False)
  | .route _ _ | .insertPeer | .acceptPeer | .openConv | .openConvWith _ | .count _ | .recv _
  | .finish _ | .erase _ | .release _ => inferInstanceAs (Decidable True)

/-! ### What an event can do -/

variable {getConv : List UInt8 → UInt32} {s t : KcpSession}

@[simp]
theorem map_setMap (kind kind' : CarrierKind) (m : Table UInt32 ℕ) :
  (s.setMap kind m).map kind' = if kind' = kind then m else s.map kind'
  := by
  cases kind <;> cases kind' <;> rfl

@[simp]
theorem carriers_setMap (kind : CarrierKind) (m : Table UInt32 ℕ) :
  (s.setMap kind m).carriers = s.carriers
  := by
  cases kind <;> rfl

@[simp]
theorem live_setMap (kind : CarrierKind) (m : Table UInt32 ℕ) :
  (s.setMap kind m).live = s.live
  := by
  cases kind <;> rfl

@[simp]
theorem loop_setMap (kind : CarrierKind) (m : Table UInt32 ℕ) :
  (s.setMap kind m).loop = s.loop
  := by
  cases kind <;> rfl

@[simp]
theorem accepted_setMap (kind : CarrierKind) (m : Table UInt32 ℕ) :
  (s.setMap kind m).accepted = s.accepted
  := by
  cases kind <;> rfl

variable (getConv) in
/-- What an event can do. -/
inductive Moves (s : KcpSession) : Event → KcpSession → Prop where
  | ignored {datagram : List UInt8} {permit : Bool} : Moves s (.route datagram permit) s
  | delivered {datagram : List UInt8} {permit : Bool} {kind : CarrierKind} {key : UInt32}
      {body : List UInt8} {lane : ℕ} {c : Carrier} :
      target getConv datagram = some (kind, key, body) → (s.map kind).lookup key = some lane →
      s.carriers[lane]? = some c →
      Moves s (.route datagram permit) (s.put lane (c.deliver body))
  | checked {datagram : List UInt8} {permit : Bool} {conv : UInt32} {setup : Bool}
      {payload : List UInt8} : s.loop = .idle → s.convs.lookup conv = none →
      s.convs.size < maxConvsPerSession →
      Moves s (.route datagram permit) { s with loop := .checked conv setup payload }
  | insertPeer {conv : UInt32} {setup : Bool} {payload : List UInt8} :
      s.loop = .checked conv setup payload →
      Moves s .insertPeer
        { s.enter .conv conv true with loop := .spawning s.carriers.length conv setup payload }
  | acceptPeer {lane : ℕ} {conv : UInt32} {setup : Bool} {payload : List UInt8} :
      s.loop = .spawning lane conv setup payload →
      Moves s .acceptPeer
        { s.deliver .conv conv payload with
          loop := .idle
          accepted := s.accepted ++ [⟨conv, lane, setup⟩] }
  | openConv :
      Moves s .openConv
        { s with nextConv := s.nextConv + 1, opening := s.opening ++ [s.nextConv] }
  | openConvWith {conv : UInt32} :
      Moves s (.openConvWith conv) { s with opening := s.opening ++ [conv] }
  | insertOpen {i : ℕ} {conv : UInt32} : s.opening[i]? = some conv →
      Moves s (.insertOpen i)
        { s.enter .conv conv false with opening := s.opening.eraseIdx i }
  | registerDgram {tag : UInt32} : Moves s (.registerDgram tag) (s.enter .dgram tag false)
  | count {lane : ℕ} {c : Carrier} : s.carriers[lane]? = some c → c.phase = .inserted →
      Moves s (.count lane) { s.put lane { c with phase := .running } with live := s.live + 1 }
  | recv {lane : ℕ} {c : Carrier} {p : List UInt8} {queue : List (List UInt8)} :
      s.carriers[lane]? = some c → c.phase = .running → c.queue = p :: queue →
      Moves s (.recv lane) (s.put lane { c with queue })
  | starve {lane : ℕ} {c : Carrier} : s.carriers[lane]? = some c → c.phase = .running →
      c.queue = [] → (s.map c.kind).lookup c.key ≠ some lane →
      Moves s (.recv lane) (s.put lane { c with phase := .returned })
  | finish {lane : ℕ} {c : Carrier} : s.carriers[lane]? = some c → c.phase = .running →
      Moves s (.finish lane) (s.put lane { c with phase := .returned })
  | erase {lane : ℕ} {c : Carrier} : s.carriers[lane]? = some c → c.phase = .returned →
      Moves s (.erase lane)
        ((s.setMap c.kind ((s.map c.kind).erase c.key)).put lane { c with phase := .erased })
  | release {lane : ℕ} {c : Carrier} : s.carriers[lane]? = some c → c.phase = .erased →
      Moves s (.release lane) { s.put lane { c with phase := .gone } with live := s.live - 1 }
  | closeConvs : Moves s .closeConvs { s with convs := ∅ }
  | closeDgrams : Moves s .closeDgrams { s with dgrams := ∅ }

/-- A packet goes to the lane that is entered under its identifier, or nowhere. -/
theorem deliver_cases (s : KcpSession) (kind : CarrierKind) (key : UInt32) (body : List UInt8) :
  s.deliver kind key body = s
    ∨ ∃ lane c, (s.map kind).lookup key = some lane ∧ s.carriers[lane]? = some c
      ∧ s.deliver kind key body = s.put lane (c.deliver body)
  := by
  rw [deliver.eq_def]
  split
  · exact Or.inl rfl
  · rename_i lane hlane
    split
    · exact Or.inl rfl
    · rename_i c hc
      exact Or.inr ⟨lane, c, hlane, hc, rfl⟩

theorem moves_route (hidle : s.loop = .idle) (datagram : List UInt8) (permit : Bool) :
  Moves getConv s (.route datagram permit) (s.route getConv datagram permit)
  := by
  have hdeliver : ∀ kind key body, target getConv datagram = some (kind, key, body) →
      Moves getConv s (.route datagram permit) (s.deliver kind key body) := by
    intro kind key body htarget
    rcases s.deliver_cases kind key body with hsame | ⟨lane, c, hlane, hc, heq⟩
    · rw [hsame]
      exact .ignored
    · rw [heq]
      exact .delivered htarget hlane hc
  rw [route.eq_def]
  split
  · exact .ignored
  · rename_i tag body htarget
    exact hdeliver .dgram tag body htarget
  · rename_i conv payload htarget
    split
    · exact hdeliver .conv conv payload htarget
    · rename_i hnone
      rw [Bool.not_eq_true, Option.isSome_eq_false_iff, Option.isNone_iff_eq_none] at hnone
      split
      · exact .ignored
      · rename_i hroom
        split
        · exact .checked hidle hnone (Nat.lt_of_not_le hroom)
        · exact .ignored

theorem moves_of_step {e : Event} (hstep : s.step getConv e = some t) :
  Moves getConv s e t
  := by
  cases e with
  | route datagram permit =>
      simp only [step] at hstep
      split at hstep
      · rename_i hidle
        rw [← Option.some.inj hstep]
        exact moves_route hidle datagram permit
      · cases hstep
  | insertPeer =>
      simp only [step] at hstep
      split at hstep
      · rename_i conv setup payload hloop
        rw [← Option.some.inj hstep]
        exact .insertPeer hloop
      · cases hstep
  | acceptPeer =>
      simp only [step] at hstep
      split at hstep
      · rename_i lane conv setup payload hloop
        split at hstep
        · cases hstep
        · split at hstep
          · cases hstep
          · rw [← Option.some.inj hstep]
            exact .acceptPeer hloop
      · cases hstep
  | openConv =>
      rw [← Option.some.inj hstep]
      exact .openConv
  | openConvWith conv =>
      rw [← Option.some.inj hstep]
      exact .openConvWith
  | insertOpen i =>
      simp only [step] at hstep
      split at hstep
      · cases hstep
      · rename_i conv hconv
        rw [← Option.some.inj hstep]
        exact .insertOpen hconv
  | registerDgram tag =>
      rw [← Option.some.inj hstep]
      exact .registerDgram
  | count lane =>
      simp only [step] at hstep
      split at hstep
      · rename_i c hc
        split at hstep
        · rename_i hphase
          rw [← Option.some.inj hstep]
          exact .count hc hphase
        · cases hstep
      · cases hstep
  | recv lane =>
      simp only [step] at hstep
      split at hstep
      · rename_i c hc
        split at hstep
        · rename_i hphase
          split at hstep
          · rename_i p queue hqueue
            rw [← Option.some.inj hstep]
            exact .recv hc hphase hqueue
          · rename_i hqueue
            split at hstep
            · cases hstep
            · rename_i hlookup
              rw [← Option.some.inj hstep]
              exact .starve hc hphase hqueue hlookup
        · cases hstep
      · cases hstep
  | finish lane =>
      simp only [step] at hstep
      split at hstep
      · rename_i c hc
        split at hstep
        · rename_i hphase
          rw [← Option.some.inj hstep]
          exact .finish hc hphase
        · cases hstep
      · cases hstep
  | erase lane =>
      simp only [step] at hstep
      split at hstep
      · rename_i c hc
        split at hstep
        · rename_i hphase
          rw [← Option.some.inj hstep]
          exact .erase hc hphase
        · cases hstep
      · cases hstep
  | release lane =>
      simp only [step] at hstep
      split at hstep
      · rename_i c hc
        split at hstep
        · rename_i hphase
          rw [← Option.some.inj hstep]
          exact .release hc hphase
        · cases hstep
      · cases hstep
  | closeConvs =>
      rw [← Option.some.inj hstep]
      exact .closeConvs
  | closeDgrams =>
      rw [← Option.some.inj hstep]
      exact .closeDgrams

/-! ### What holds in any case -/

theorem enter_map (kind kind' : CarrierKind) (key : UInt32) (peer : Bool) :
  (s.enter kind key peer).map kind'
    = if kind' = kind then (s.map kind).insert key s.carriers.length else s.map kind'
  := map_setMap kind kind' _

theorem enter_carriers (kind : CarrierKind) (key : UInt32) (peer : Bool) :
  (s.enter kind key peer).carriers = s.carriers ++ [⟨kind, key, peer, .inserted, []⟩]
  := by
  cases kind <;> rfl

theorem enter_live (kind : CarrierKind) (key : UInt32) (peer : Bool) :
  (s.enter kind key peer).live = s.live
  := live_setMap kind _

theorem enter_loop (kind : CarrierKind) (key : UInt32) (peer : Bool) :
  (s.enter kind key peer).loop = s.loop
  := loop_setMap kind _

theorem enter_accepted (kind : CarrierKind) (key : UInt32) (peer : Bool) :
  (s.enter kind key peer).accepted = s.accepted
  := accepted_setMap kind _

/-- The lane of the conversation that the receive loop has entered. -/
def pendingLane (s : KcpSession) : Option ℕ :=
  match s.loop with
  | .spawning lane _ _ _ => some lane
  | .idle | .checked _ _ _ => none

/-- The lanes of the conversations accepted, in order. -/
def acceptedLanes (s : KcpSession) : List ℕ :=
  s.accepted.map Acceptance.lane

/-- What holds whether or not the books are in order: an entry is for a carrier of its kind
and identifier, the guards are counted, and a conversation of the peer is accepted once, when
the receive loop is done with it. -/
structure Base (s : KcpSession) : Prop where
  mapped : ∀ kind key lane, (s.map kind).lookup key = some lane →
    ∃ c, s.carriers[lane]? = some c ∧ c.kind = kind ∧ c.key = key
  counts : s.live = s.carriers.countP Carrier.counted
  spawning : ∀ lane conv setup payload, s.loop = .spawning lane conv setup payload →
    ∃ c, s.carriers[lane]? = some c ∧ c.kind = .conv ∧ c.key = conv ∧ c.peer = true
  accepts : ∀ a ∈ s.accepted,
    ∃ c, s.carriers[a.lane]? = some c ∧ c.kind = .conv ∧ c.key = a.conv ∧ c.peer = true
  once : ∀ (lane : ℕ) (c : Carrier), s.carriers[lane]? = some c → c.peer = true →
    s.acceptedLanes.count lane = if s.pendingLane = some lane then 0 else 1

theorem base_fresh (firstConv : UInt32) :
  Base (fresh firstConv)
  := by
  refine ⟨?_, rfl, ?_, ?_, ?_⟩
  · intro kind key lane h
    cases kind <;> cases h
  · intro lane conv setup payload h
    cases h
  · intro a ha
    cases ha
  · intro lane c h
    cases h

/-- A carrier stays what it is, and is counted as its phase says. -/
theorem Base.put (h : Base s) {lane live : ℕ} {c c' : Carrier} (hc : s.carriers[lane]? = some c)
    (hkind : c'.kind = c.kind) (hkey : c'.key = c.key) (hpeer : c'.peer = c.peer)
    (hlive : live + (if c.counted then 1 else 0) = s.live + (if c'.counted then 1 else 0)) :
  Base { s.put lane c' with live }
  := by
  -- whatever is known of the carrier at a position is known after the step
  have hkeep : ∀ {i : ℕ} {P : CarrierKind → UInt32 → Bool → Prop},
      (∃ x, s.carriers[i]? = some x ∧ P x.kind x.key x.peer) →
      ∃ x, (s.carriers.set lane c')[i]? = some x ∧ P x.kind x.key x.peer := by
    rintro i P ⟨x, hx, hP⟩
    rw [List.getElem?_set_of_some hc]
    by_cases hi : i = lane
    · rw [hi, hc] at hx
      obtain rfl := Option.some.inj hx
      rw [if_pos hi]
      exact ⟨c', rfl, by rwa [hkind, hkey, hpeer]⟩
    · rw [if_neg hi]
      exact ⟨x, hx, hP⟩
  refine ⟨?_, ?_, ?_, ?_, ?_⟩
  · intro kind key i hi
    exact hkeep (P := fun k x _ => k = kind ∧ x = key) (h.mapped kind key i hi)
  · have hcount := List.countP_set_of_some hc c' Carrier.counted
    have hbefore := h.counts
    simp only [KcpSession.put]
    omega
  · intro i conv setup payload hi
    exact hkeep (P := fun k x b => k = .conv ∧ x = conv ∧ b = true)
      (h.spawning i conv setup payload hi)
  · intro a ha
    exact hkeep (P := fun k x b => k = .conv ∧ x = a.conv ∧ b = true) (h.accepts a ha)
  · intro i x hx hp
    dsimp only [KcpSession.put] at hx
    rw [List.getElem?_set_of_some hc] at hx
    split at hx
    · rename_i hi
      obtain rfl := Option.some.inj hx
      rw [hi]
      exact h.once lane c hc (hpeer ▸ hp)
    · exact h.once i x hx hp

theorem Base.lane_lt (h : Base s) {lane : ℕ} (hlane : s.carriers.length ≤ lane) :
  s.acceptedLanes.count lane = 0 ∧ s.pendingLane ≠ some lane
  := by
  constructor
  · rw [List.count_eq_zero]
    intro hmem
    obtain ⟨a, ha, rfl⟩ := List.mem_map.mp hmem
    obtain ⟨c, hc, _⟩ := h.accepts a ha
    exact absurd (List.getElem?_eq_some_iff.mp hc).1 (Nat.not_lt.mpr hlane)
  · intro hpending
    rw [pendingLane.eq_def] at hpending
    split at hpending
    · rename_i lane' conv setup payload hloop
      obtain rfl := Option.some.inj hpending
      obtain ⟨c, hc, _⟩ := h.spawning _ _ _ _ hloop
      exact absurd (List.getElem?_eq_some_iff.mp hc).1 (Nat.not_lt.mpr hlane)
    all_goals cases hpending

/-- A carrier is entered by a caller, or by the receive loop, which then has it to accept. -/
theorem Base.enter (h : Base s) (kind : CarrierKind) (key : UInt32) (peer : Bool)
    (loop : ReceiveLoop) (opening : List UInt32)
    (hspawning : ∀ lane conv setup payload, loop = .spawning lane conv setup payload →
      s.loop = loop ∨ lane = s.carriers.length ∧ kind = .conv ∧ conv = key ∧ peer = true)
    (hpending : ∀ lane, lane < s.carriers.length →
      (pendingLane { s with loop } = some lane ↔ s.pendingLane = some lane))
    (hnew : peer = true → pendingLane { s with loop } = some s.carriers.length) :
  Base { s.enter kind key peer with loop, opening }
  := by
  have hold : ∀ {i : ℕ} {x : Carrier}, s.carriers[i]? = some x →
      (s.enter kind key peer).carriers[i]? = some x := by
    intro i x hx
    rw [enter_carriers, List.getElem?_append_one, if_neg]
    · exact hx
    · exact Nat.ne_of_lt (List.getElem?_eq_some_iff.mp hx).1
  have hlast : (s.enter kind key peer).carriers[s.carriers.length]?
      = some ⟨kind, key, peer, .inserted, []⟩ := by
    rw [enter_carriers, List.getElem?_append_one, if_pos rfl]
  refine ⟨?_, ?_, ?_, ?_, ?_⟩
  · intro kind' key' lane hlane
    have hlane' : ((s.enter kind key peer).map kind').lookup key' = some lane := hlane
    rw [enter_map] at hlane'
    split at hlane'
    · rename_i hkind
      rw [Table.lookup_insert_eq] at hlane'
      split at hlane'
      · rename_i hkey
        obtain rfl := Option.some.inj hlane'
        exact ⟨_, hlast, hkind.symm, hkey.symm⟩
      · rw [← hkind] at hlane'
        obtain ⟨x, hx, hxs⟩ := h.mapped kind' key' lane hlane'
        exact ⟨x, hold hx, hxs⟩
    · obtain ⟨x, hx, hxs⟩ := h.mapped kind' key' lane hlane'
      exact ⟨x, hold hx, hxs⟩
  · have hcarriers := enter_carriers (s := s) kind key peer
    dsimp only
    rw [enter_live, hcarriers, List.countP_append, ← h.counts]
    rfl
  · intro lane conv setup payload hloop
    rcases hspawning lane conv setup payload hloop with hsame | ⟨rfl, rfl, rfl, rfl⟩
    · obtain ⟨x, hx, hxs⟩ := h.spawning lane conv setup payload (hsame.trans hloop)
      exact ⟨x, hold hx, hxs⟩
    · exact ⟨_, hlast, rfl, rfl, rfl⟩
  · intro a ha
    dsimp only at ha
    rw [enter_accepted] at ha
    obtain ⟨x, hx, hxs⟩ := h.accepts a ha
    exact ⟨x, hold hx, hxs⟩
  · intro lane x hx hp
    have hlanes : acceptedLanes { s.enter kind key peer with loop, opening } = s.acceptedLanes := by
      rw [acceptedLanes, acceptedLanes]
      dsimp only
      rw [enter_accepted]
    have hlane : pendingLane { s.enter kind key peer with loop, opening }
        = pendingLane { s with loop } := rfl
    rw [hlanes, hlane]
    dsimp only at hx
    rw [enter_carriers, List.getElem?_append_one] at hx
    split at hx
    · rename_i hi
      obtain rfl := Option.some.inj hx
      rw [hi, if_pos (hnew hp), (h.lane_lt (le_refl _)).1]
    · have hlt := (List.getElem?_eq_some_iff.mp hx).1
      rw [h.once lane x hx hp]
      simp only [hpending lane hlt]

/-- Entries are taken out of the maps. -/
theorem Base.of_less (h : Base s) (hcarriers : t.carriers = s.carriers) (hlive : t.live = s.live)
    (hloop : t.loop = s.loop) (haccepted : t.accepted = s.accepted)
    (hmap : ∀ kind key lane, (t.map kind).lookup key = some lane →
      (s.map kind).lookup key = some lane) :
  Base t
  := by
  refine ⟨?_, ?_, ?_, ?_, ?_⟩
  · intro kind key lane hlane
    rw [hcarriers]
    exact h.mapped kind key lane (hmap kind key lane hlane)
  · rw [hlive, hcarriers]
    exact h.counts
  · rw [hloop, hcarriers]
    exact h.spawning
  · rw [haccepted, hcarriers]
    exact h.accepts
  · rw [hcarriers, acceptedLanes, pendingLane, haccepted, hloop]
    exact h.once

theorem Base.deliver (h : Base s) (kind : CarrierKind) (key : UInt32) (body : List UInt8) :
  Base (s.deliver kind key body)
  := by
  rcases s.deliver_cases kind key body with hsame | ⟨lane, c, _, hc, heq⟩
  · rwa [hsame]
  · rw [heq]
    rcases c.deliver_cases body with hsame | hpush
    · rw [hsame]
      exact h.put hc rfl rfl rfl rfl
    · rw [hpush]
      exact h.put hc rfl rfl rfl rfl

theorem counted_of_phase {c : Carrier} {phase : CarrierPhase} (hphase : c.phase = phase) :
  c.counted = Carrier.counted { c with phase }
  := by
  rw [← hphase]

theorem Base.moves {e : Event} (h : Base s) (hmoves : Moves getConv s e t) :
  Base t
  := by
  cases hmoves with
  | ignored => exact h
  | @delivered datagram permit kind key body lane c _ hlane hc =>
      have heq := h.deliver kind key body
      rw [KcpSession.deliver, hlane] at heq
      simpa only [hc] using heq
  | @checked datagram permit conv setup payload hidle _ _ =>
      refine ⟨h.mapped, h.counts, ?_, h.accepts, ?_⟩
      · intro lane conv setup payload hloop
        cases hloop
      · intro lane c hc hpeer
        have honce := h.once lane c hc hpeer
        rw [pendingLane, hidle] at honce
        exact honce
  | @insertPeer conv setup payload hloop =>
      apply h.enter
      · intro lane conv' setup' payload' heq
        cases heq
        exact Or.inr ⟨rfl, rfl, rfl, rfl⟩
      · intro lane hlt
        rw [pendingLane, pendingLane, hloop]
        simp only [Option.some.injEq, reduceCtorEq, iff_false]
        exact Nat.ne_of_gt hlt
      · intro _
        rfl
  | @acceptPeer lane conv setup payload hloop =>
      obtain ⟨c, hc, hkind, hkey, hpeer⟩ := h.spawning _ _ _ _ hloop
      have hdeliver := h.deliver .conv conv payload
      obtain ⟨hloop', haccepted⟩ : (s.deliver .conv conv payload).loop = s.loop
          ∧ (s.deliver .conv conv payload).accepted = s.accepted := by
        rcases s.deliver_cases .conv conv payload with hsame | ⟨_, _, _, _, heq⟩
        · rw [hsame]
          exact ⟨rfl, rfl⟩
        · rw [heq]
          exact ⟨rfl, rfl⟩
      refine ⟨hdeliver.mapped, hdeliver.counts, ?_, ?_, ?_⟩
      · intro lane conv setup payload heq
        cases heq
      · intro a ha
        rcases List.mem_append.mp ha with ha | ha
        · exact hdeliver.accepts a (haccepted ▸ ha)
        · rw [List.mem_singleton.mp ha]
          exact hdeliver.spawning lane conv setup payload (hloop'.trans hloop)
      · intro i x hx hp
        have honce := hdeliver.once i x hx hp
        rw [acceptedLanes, pendingLane, haccepted, hloop', hloop] at honce
        rw [acceptedLanes, pendingLane]
        simp only [List.map_append, List.map_cons, List.map_nil, List.count_append, honce,
          List.count_singleton, Option.some.injEq, beq_iff_eq, reduceCtorEq, if_false]
        split <;> rfl
  | openConv => exact ⟨h.mapped, h.counts, h.spawning, h.accepts, h.once⟩
  | openConvWith => exact ⟨h.mapped, h.counts, h.spawning, h.accepts, h.once⟩
  | @insertOpen i conv _ =>
      exact h.enter .conv conv false s.loop (s.opening.eraseIdx i)
        (fun _ _ _ _ _ => Or.inl rfl) (fun _ _ => Iff.rfl) (by simp)
  | @registerDgram tag =>
      exact h.enter .dgram tag false s.loop s.opening
        (fun _ _ _ _ _ => Or.inl rfl) (fun _ _ => Iff.rfl) (by simp)
  | @count lane c hc hphase =>
      exact h.put hc rfl rfl rfl (by rw [counted_of_phase hphase]; rfl)
  | recv hc => exact h.put hc rfl rfl rfl rfl
  | @starve lane c hc hphase =>
      exact h.put hc rfl rfl rfl (by rw [counted_of_phase hphase]; rfl)
  | @finish lane c hc hphase =>
      exact h.put hc rfl rfl rfl (by rw [counted_of_phase hphase]; rfl)
  | @erase lane c hc hphase =>
      have hless : Base (s.setMap c.kind ((s.map c.kind).erase c.key)) := by
        refine h.of_less (carriers_setMap _ _) (live_setMap _ _) (loop_setMap _ _)
          (accepted_setMap _ _) ?_
        intro kind key i hi
        rw [map_setMap] at hi
        split at hi
        · rename_i hkind
          rw [Table.lookup_erase_eq] at hi
          split at hi
          · cases hi
          · rwa [hkind]
        · exact hi
      rw [← carriers_setMap c.kind ((s.map c.kind).erase c.key)] at hc
      exact hless.put hc rfl rfl rfl (by rw [counted_of_phase hphase]; rfl)
  | @release lane c hc hphase =>
      refine h.put hc rfl rfl rfl ?_
      have hpos : 0 < s.live := by
        rw [h.counts]
        exact List.countP_pos_iff.mpr ⟨c, List.mem_of_getElem? hc, by rw [counted_of_phase hphase]; rfl⟩
      rw [counted_of_phase hphase]
      exact Nat.sub_add_cancel hpos
  | closeConvs =>
      refine h.of_less (t := { s with convs := ∅ }) rfl rfl rfl rfl ?_
      intro kind key i hi
      cases kind with
      | conv => cases hi
      | dgram => exact hi
  | closeDgrams =>
      refine h.of_less (t := { s with dgrams := ∅ }) rfl rfl rfl rfl ?_
      intro kind key i hi
      cases kind with
      | conv => exact hi
      | dgram => cases hi

theorem base_of_run {firstConv : UInt32} {es : List Event}
    (h : Run (fun s e t => s.step getConv e = some t) (fresh firstConv) es s) :
  Base s
  := h.invariant (base_fresh firstConv) fun _ _ _ hbase hstep => hbase.moves (moves_of_step hstep)

/-! ### The books in order -/

/-- Every carrier is the target of its own entry and of no other. -/
structure Kept (s : KcpSession) : Prop where
  targets : ∀ (lane : ℕ) (c : Carrier), s.carriers[lane]? = some c → c.entered = true →
    (s.map c.kind).lookup c.key = some lane
  owned : ∀ kind key lane, (s.map kind).lookup key = some lane →
    ∃ c, s.carriers[lane]? = some c ∧ c.kind = kind ∧ c.key = key ∧ c.entered = true
  size : s.convs.size = s.drivers
  checked : ∀ conv setup payload, s.loop = .checked conv setup payload →
    s.convs.lookup conv = none ∧ s.convs.size < maxConvsPerSession

theorem kept_fresh (firstConv : UInt32) :
  Kept (fresh firstConv)
  := by
  refine ⟨?_, ?_, rfl, ?_⟩
  · intro lane c h
    cases h
  · intro kind key lane h
    cases kind <;> cases h
  · intro conv setup payload h
    cases h

/-- A carrier stays entered, or stays erased. -/
theorem Kept.put (h : Kept s) {lane live : ℕ} {c c' : Carrier} (hc : s.carriers[lane]? = some c)
    (hkind : c'.kind = c.kind) (hkey : c'.key = c.key) (hentered : c'.entered = c.entered) :
  Kept { s.put lane c' with live }
  := by
  refine ⟨?_, ?_, ?_, h.checked⟩
  · intro i x hx hin
    dsimp only [KcpSession.put] at hx
    rw [List.getElem?_set_of_some hc] at hx
    split at hx
    · rename_i hi
      obtain rfl := Option.some.inj hx
      rw [hkind, hkey, hi]
      exact h.targets lane c hc (hentered ▸ hin)
    · exact h.targets i x hx hin
  · intro kind key i hi
    obtain ⟨x, hx, hxs⟩ := h.owned kind key i hi
    dsimp only [KcpSession.put]
    rw [List.getElem?_set_of_some hc]
    by_cases heq : i = lane
    · rw [heq, hc] at hx
      obtain rfl := Option.some.inj hx
      rw [if_pos heq]
      exact ⟨c', rfl, by rwa [hkind, hkey, hentered]⟩
    · rw [if_neg heq]
      exact ⟨x, hx, hxs⟩
  · have hcount := List.countP_set_of_some hc c' Carrier.drives
    have hsame : c'.drives = c.drives := by
      rw [Carrier.drives, Carrier.drives, hkind, hentered]
    rw [hsame, Nat.add_right_cancel_iff] at hcount
    exact h.size.trans hcount.symm

theorem Kept.deliver (h : Kept s) (kind : CarrierKind) (key : UInt32) (body : List UInt8) :
  Kept (s.deliver kind key body)
  := by
  rcases s.deliver_cases kind key body with hsame | ⟨lane, c, _, hc, heq⟩
  · rwa [hsame]
  · rw [heq]
    rcases c.deliver_cases body with hsame | hpush
    · rw [hsame]
      exact h.put hc rfl rfl rfl
    · rw [hpush]
      exact h.put hc rfl rfl rfl

theorem drivers_enter (kind : CarrierKind) (key : UInt32) (peer : Bool) :
  (s.enter kind key peer).drivers = s.drivers + if kind = .conv then 1 else 0
  := by
  rw [drivers, drivers, enter_carriers, List.countP_append]
  cases kind <;> rfl

/-- A carrier is entered under an identifier that is free. -/
theorem Kept.enter (h : Kept s) (kind : CarrierKind) (key : UInt32) (peer : Bool)
    (loop : ReceiveLoop) (opening : List UInt32) (hfree : (s.map kind).lookup key = none)
    (hchecked : ∀ conv setup payload, loop = .checked conv setup payload →
      (s.enter kind key peer).convs.lookup conv = none
        ∧ (s.enter kind key peer).convs.size < maxConvsPerSession) :
  Kept { s.enter kind key peer with loop, opening }
  := by
  refine ⟨?_, ?_, ?_, hchecked⟩
  · intro lane c hc hin
    change ((s.enter kind key peer).map c.kind).lookup c.key = some lane
    dsimp only at hc
    rw [enter_carriers, List.getElem?_append_one] at hc
    rw [enter_map]
    split at hc
    · rename_i hlane
      obtain rfl := Option.some.inj hc
      rw [if_pos rfl, AList.lookup_insert, hlane]
    · have hold := h.targets lane c hc hin
      split
      · rename_i hkind
        rw [AList.lookup_insert_ne, ← hkind]
        · exact hold
        · intro hkey
          rw [hkind, hkey, hfree] at hold
          cases hold
      · exact hold
  · intro kind' key' lane hlane
    have hlane' : ((s.enter kind key peer).map kind').lookup key' = some lane := hlane
    dsimp only
    rw [enter_carriers, List.getElem?_append_one]
    have hold : (s.map kind').lookup key' = some lane →
        ∃ c, (if lane = s.carriers.length then some ⟨kind, key, peer, .inserted, []⟩
            else s.carriers[lane]?) = some c
          ∧ c.kind = kind' ∧ c.key = key' ∧ c.entered = true := by
      intro hmem
      obtain ⟨c, hc, hcs⟩ := h.owned kind' key' lane hmem
      rw [if_neg (Nat.ne_of_lt (List.getElem?_eq_some_iff.mp hc).1)]
      exact ⟨c, hc, hcs⟩
    rw [enter_map] at hlane'
    split at hlane'
    · rename_i hkind
      rw [Table.lookup_insert_eq] at hlane'
      split at hlane'
      · rename_i hkey
        rw [if_pos (Option.some.inj hlane').symm]
        exact ⟨_, rfl, hkind.symm, hkey.symm, rfl⟩
      · exact hold (hkind ▸ hlane')
    · exact hold hlane'
  · change _ = (s.enter kind key peer).drivers
    rw [drivers_enter, ← h.size]
    cases kind with
    | conv => exact Table.size_insert_of_none hfree _
    | dgram => rfl

/-- A guard erases the entry under its identifier, which is its own. -/
theorem Kept.erase (h : Kept s) {lane : ℕ} {c : Carrier} (hc : s.carriers[lane]? = some c)
    (hphase : c.phase = .returned) :
  Kept ((s.setMap c.kind ((s.map c.kind).erase c.key)).put lane { c with phase := .erased })
  := by
  have hin : c.entered = true := by simp [Carrier.entered, hphase]
  have hown := h.targets lane c hc hin
  refine ⟨?_, ?_, ?_, ?_⟩
  · intro i x hx hxin
    change ((s.setMap c.kind ((s.map c.kind).erase c.key)).map x.kind).lookup x.key = some i
    dsimp only [KcpSession.put] at hx
    rw [carriers_setMap, List.getElem?_set_of_some hc] at hx
    split at hx
    · obtain rfl := Option.some.inj hx
      cases hxin
    · rename_i hi
      have hold := h.targets i x hx hxin
      rw [map_setMap]
      split
      · rename_i hkind
        rw [Table.lookup_erase_eq, if_neg, ← hkind]
        · exact hold
        · intro hkey
          rw [hkind, hkey, hown] at hold
          exact hi (Option.some.inj hold).symm
      · exact hold
  · intro kind key i hi
    have hi' : ((s.setMap c.kind ((s.map c.kind).erase c.key)).map kind).lookup key = some i := hi
    dsimp only [KcpSession.put]
    rw [carriers_setMap, List.getElem?_set_of_some hc]
    rw [map_setMap] at hi'
    split at hi'
    · rename_i hkind
      rw [Table.lookup_erase_eq] at hi'
      split at hi'
      · cases hi'
      · rename_i hkey
        obtain ⟨x, hx, hxs⟩ := h.owned kind key i (hkind ▸ hi')
        rw [if_neg]
        · exact ⟨x, hx, hxs⟩
        · rintro rfl
          rw [hc] at hx
          obtain rfl := Option.some.inj hx
          exact hkey hxs.2.1.symm
    · rename_i hkind
      obtain ⟨x, hx, hxs⟩ := h.owned kind key i hi'
      rw [if_neg]
      · exact ⟨x, hx, hxs⟩
      · rintro rfl
        rw [hc] at hx
        obtain rfl := Option.some.inj hx
        exact hkind hxs.1.symm
  · have hcount := List.countP_set_of_some hc { c with phase := .erased } Carrier.drives
    have hsize := h.size
    rw [drivers] at hsize ⊢
    dsimp only [KcpSession.put]
    rw [carriers_setMap]
    cases hkind : c.kind with
    | conv =>
        have herase := Table.size_erase_of_lookup (t := s.convs) (k := c.key) (hkind ▸ hown)
        have hbefore : c.drives = true := by simp [Carrier.drives, hkind, hin]
        have hafter : Carrier.drives { c with phase := .erased } = false := by
          simp [Carrier.drives, Carrier.entered]
        rw [hbefore, hafter, ← hsize] at hcount
        simp only [if_true, Bool.false_eq_true, if_false] at hcount
        change Table.size (s.convs.erase c.key) = _
        rw [hkind] at hcount
        omega
    | dgram =>
        have hbefore : c.drives = false := by simp [Carrier.drives, hkind]
        have hafter : Carrier.drives { c with phase := .erased } = false := by
          simp [Carrier.drives, Carrier.entered]
        rw [hbefore, hafter, ← hsize, Nat.add_right_cancel_iff, hkind] at hcount
        exact hcount.symm
  · intro conv setup payload hloop
    dsimp only [KcpSession.put] at hloop ⊢
    rw [loop_setMap] at hloop
    obtain ⟨hnone, hroom⟩ := h.checked conv setup payload hloop
    cases c.kind with
    | conv =>
        change (s.convs.erase c.key).lookup conv = none
          ∧ Table.size (s.convs.erase c.key) < maxConvsPerSession
        refine ⟨?_, lt_of_le_of_lt (Table.size_erase_le _ _) hroom⟩
        rw [Table.lookup_erase_eq]
        split
        · rfl
        · exact hnone
    | dgram => exact ⟨hnone, hroom⟩

theorem entered_of_phase {c : Carrier} {phase : CarrierPhase} (hphase : c.phase = phase) :
  c.entered = Carrier.entered { c with phase }
  := by
  rw [← hphase]

theorem Kept.moves {e : Event} (h : Kept s) (hmoves : Moves getConv s e t) (hok : s.Apart e) :
  Kept t
  := by
  cases hmoves with
  | ignored => exact h
  | @delivered datagram permit kind key body lane c _ hlane hc =>
      have heq := h.deliver kind key body
      rw [KcpSession.deliver, hlane] at heq
      simpa only [hc] using heq
  | checked _ hnone hroom =>
      refine ⟨h.targets, h.owned, h.size, ?_⟩
      intro conv setup payload hloop
      cases hloop
      exact ⟨hnone, hroom⟩
  | insertPeer hloop =>
      refine h.enter .conv _ true _ s.opening (h.checked _ _ _ hloop).1 ?_
      intro conv setup payload heq
      cases heq
  | @acceptPeer lane conv setup payload hloop =>
      have hdeliver := h.deliver .conv conv payload
      refine ⟨hdeliver.targets, hdeliver.owned, hdeliver.size, ?_⟩
      intro conv setup payload heq
      cases heq
  | openConv => exact ⟨h.targets, h.owned, h.size, h.checked⟩
  | openConvWith => exact ⟨h.targets, h.owned, h.size, h.checked⟩
  | @insertOpen i conv hconv =>
      obtain ⟨hfree, hroom⟩ := hok conv hconv
      refine h.enter .conv conv false s.loop (s.opening.eraseIdx i) hfree ?_
      intro conv' setup payload hloop
      rw [hloop, ReceiveLoop.Spares] at hroom
      obtain ⟨hnone, _⟩ := h.checked conv' setup payload hloop
      change (s.convs.insert conv s.carriers.length).lookup conv' = none
        ∧ Table.size (s.convs.insert conv s.carriers.length) < maxConvsPerSession
      rw [AList.lookup_insert_ne hroom.1, Table.size_insert_of_none hfree]
      exact ⟨hnone, hroom.2⟩
  | @registerDgram tag =>
      exact h.enter .dgram tag false s.loop s.opening hok h.checked
  | count hc hphase => exact h.put hc rfl rfl (by rw [entered_of_phase hphase]; rfl)
  | recv hc => exact h.put hc rfl rfl rfl
  | starve hc hphase => exact h.put hc rfl rfl (by rw [entered_of_phase hphase]; rfl)
  | finish hc hphase => exact h.put hc rfl rfl (by rw [entered_of_phase hphase]; rfl)
  | erase hc hphase => exact h.erase hc hphase
  | release hc hphase => exact h.put hc rfl rfl (by rw [entered_of_phase hphase]; rfl)
  | closeConvs => exact hok.elim
  | closeDgrams => exact hok.elim

/-- The packet that the receive loop delivers in a step. -/
def packet (getConv : List UInt8 → UInt32) (s : KcpSession) :
    Event → Option (CarrierKind × UInt32 × List UInt8)
  | .route datagram _ => target getConv datagram
  | .acceptPeer =>
    match s.loop with
    | .spawning _ conv _ payload => some (.conv, conv, payload)
    | _ => none
  | _ => none

variable (getConv) in
/-- The books in order, as they are seen from outside. -/
structure InOrder (s : KcpSession) : Prop where
  /-- Drivers and guards are counted. -/
  live : s.live = s.carriers.countP (fun c => c.kind = .conv && c.counted)
    + s.carriers.countP (fun c => c.kind = .dgram && c.counted)
  idle : s.isIdle = true ↔ ∀ c ∈ s.carriers, c.counted = false
  /-- A carrier is the target of its entry, -/
  targets : ∀ (lane : ℕ) (c : Carrier), s.carriers[lane]? = some c → c.entered = true →
    (s.map c.kind).lookup c.key = some lane
  /-- and of no other. -/
  only : ∀ (kind : CarrierKind) (key : UInt32) (lane : ℕ) (c : Carrier),
    (s.map kind).lookup key = some lane → s.carriers[lane]? = some c →
    c.kind = kind ∧ c.key = key ∧ c.entered = true
  /-- A packet goes to at most one lane, that of its kind and identifier. -/
  routed : ∀ (e : Event) (t : KcpSession) (p : CarrierKind × UInt32 × List UInt8),
    s.step getConv e = some t → s.packet getConv e = some p → t.carriers = s.carriers
      ∨ ∃ (lane : ℕ) (c : Carrier), s.carriers[lane]? = some c ∧ c.kind = p.1 ∧ c.key = p.2.1
        ∧ c.entered = true ∧ t.carriers = s.carriers.set lane (c.deliver p.2.2)
  /-- A conversation of the peer is accepted once, when the receive loop is done with it, -/
  once : ∀ (lane : ℕ) (c : Carrier), s.carriers[lane]? = some c → c.peer = true →
    s.acceptedLanes.count lane = if s.pendingLane = some lane then 0 else 1
  /-- and there is no other under its identifier before it is erased. -/
  alone : ∀ (lane lane' : ℕ) (c c' : Carrier), s.carriers[lane]? = some c →
    s.carriers[lane']? = some c' → c.entered = true → c'.entered = true → c.kind = c'.kind →
    c.key = c'.key → lane = lane'
  /-- The peer does not bring the number of drivers above the cap. -/
  capped : ∀ t, s.step getConv .insertPeer = some t → t.drivers ≤ maxConvsPerSession

theorem Base.live_eq (h : Base s) :
  s.live = s.carriers.countP (fun c => c.kind = .conv && c.counted)
    + s.carriers.countP (fun c => c.kind = .dgram && c.counted)
  := by
  rw [h.counts]
  induction s.carriers with
  | nil => rfl
  | cons c l ih =>
      rw [List.countP_cons, List.countP_cons, List.countP_cons, ih]
      cases c.kind <;> cases c.counted <;> simp <;> omega

theorem Kept.routed (h : Kept s) {e : Event} {p : CarrierKind × UInt32 × List UInt8}
    (hstep : s.step getConv e = some t) (hp : s.packet getConv e = some p) :
  t.carriers = s.carriers
    ∨ ∃ (lane : ℕ) (c : Carrier), s.carriers[lane]? = some c ∧ c.kind = p.1 ∧ c.key = p.2.1
      ∧ c.entered = true ∧ t.carriers = s.carriers.set lane (c.deliver p.2.2)
  := by
  have hlane : ∀ {kind : CarrierKind} {key : UInt32} {lane : ℕ} {c : Carrier},
      (s.map kind).lookup key = some lane → s.carriers[lane]? = some c →
      c.kind = kind ∧ c.key = key ∧ c.entered = true := by
    intro kind key lane c hlane hc
    obtain ⟨c', hc', hcs⟩ := h.owned kind key lane hlane
    rw [hc] at hc'
    rwa [Option.some.inj hc']
  have hmoves := moves_of_step hstep
  cases hmoves with
  | ignored => exact Or.inl rfl
  | @delivered datagram permit kind key body lane c htarget hentry hc =>
      rw [packet, htarget] at hp
      obtain rfl := Option.some.inj hp
      obtain ⟨hkind, hkey, hin⟩ := hlane hentry hc
      exact Or.inr ⟨lane, c, hc, hkind, hkey, hin, rfl⟩
  | checked => exact Or.inl rfl
  | @acceptPeer lane conv setup payload hloop =>
      simp only [packet, hloop] at hp
      obtain rfl := Option.some.inj hp
      rcases s.deliver_cases .conv conv payload with hsame | ⟨lane', c, hentry, hc, heq⟩
      · have hcarriers := congrArg carriers hsame
        exact Or.inl hcarriers
      · have hcarriers := congrArg carriers heq
        obtain ⟨hkind, hkey, hin⟩ := hlane hentry hc
        exact Or.inr ⟨lane', c, hc, hkind, hkey, hin, hcarriers⟩
  | insertPeer | openConv | openConvWith | insertOpen | registerDgram | count | recv | starve
  | finish | erase | release | closeConvs | closeDgrams => cases hp

theorem Kept.capped (h : Kept s) (hstep : s.step getConv .insertPeer = some t) :
  t.drivers ≤ maxConvsPerSession
  := by
  have hmoves := moves_of_step hstep
  have hkept := h.moves hmoves trivial
  rw [← hkept.size]
  cases hmoves with
  | @insertPeer conv setup payload hloop =>
      obtain ⟨hnone, hroom⟩ := h.checked conv setup payload hloop
      change Table.size (s.convs.insert conv s.carriers.length) ≤ maxConvsPerSession
      rw [Table.size_insert_of_none hnone]
      exact hroom

theorem inOrder_of_kept (hbase : Base s) (h : Kept s) :
  InOrder getConv s
  := by
  refine ⟨hbase.live_eq, ?_, h.targets, ?_, fun e t p => h.routed, hbase.once, ?_, fun t => h.capped⟩
  · rw [isIdle, decide_eq_true_iff, hbase.counts, List.countP_eq_zero]
    simp only [Bool.not_eq_true]
  · intro kind key lane c hlane hc
    obtain ⟨c', hc', hcs⟩ := h.owned kind key lane hlane
    rw [hc] at hc'
    rwa [Option.some.inj hc']
  · intro lane lane' c c' hc hc' hin hin' hkind hkey
    have hlane := h.targets lane c hc hin
    rw [hkind, hkey, h.targets lane' c' hc' hin'] at hlane
    exact (Option.some.inj hlane).symm

/-! ### After a close -/

/-- The carrier whose task takes a step. -/
def Event.lane : Event → Option ℕ
  | .count lane | .recv lane | .finish lane | .erase lane | .release lane => some lane
  | _ => none

/-- The event that clears the map of a kind of carriers. -/
def closing : CarrierKind → Event
  | .conv => .closeConvs
  | .dgram => .closeDgrams

/-- The steps that a carrier still takes once nothing is put in its lane: it is counted, takes the
packets out of its lane, returns, and drops its guard. -/
def owed (c : Carrier) : ℕ :=
  match c.phase with
  | .inserted => c.queue.length + 4
  | .running => c.queue.length + 3
  | .returned => 2
  | .erased => 1
  | .gone => 0

/-- No entry is for a lane that has been given out. -/
def Cut (s : KcpSession) (lane : ℕ) : Prop :=
  lane < s.carriers.length ∧ ∀ kind key, (s.map kind).lookup key ≠ some lane

theorem Cut.put {lane i live : ℕ} {c : Carrier} (h : s.Cut lane) :
  Cut { s.put i c with live } lane
  := by
  refine ⟨?_, h.2⟩
  dsimp only [KcpSession.put]
  rw [List.length_set]
  exact h.1

theorem Cut.enter {lane : ℕ} (h : s.Cut lane) (kind : CarrierKind) (key : UInt32) (peer : Bool) :
  (s.enter kind key peer).Cut lane
  := by
  constructor
  · rw [enter_carriers, List.length_append]
    exact Nat.lt_add_right _ h.1
  · intro kind' key' hlane
    rw [enter_map] at hlane
    split at hlane
    · rw [Table.lookup_insert_eq] at hlane
      split at hlane
      · exact absurd (Option.some.inj hlane).symm (Nat.ne_of_lt h.1)
      · exact h.2 _ _ hlane
    · exact h.2 _ _ hlane

/-- A lane that is cut off gets nothing. -/
theorem Cut.deliver {lane : ℕ} (h : s.Cut lane) (kind : CarrierKind) (key : UInt32)
    (body : List UInt8) :
  (s.deliver kind key body).Cut lane
    ∧ (s.deliver kind key body).carriers[lane]? = s.carriers[lane]?
  := by
  rcases s.deliver_cases kind key body with hsame | ⟨i, c, hentry, hc, heq⟩
  · rw [hsame]
    exact ⟨h, rfl⟩
  · rw [heq]
    refine ⟨h.put, ?_⟩
    dsimp only [KcpSession.put]
    rw [List.getElem?_set_of_some hc, if_neg]
    rintro rfl
    exact h.2 _ _ hentry

/-- The carrier at a lane, when a step puts one at some lane. -/
theorem owed_put {lane i : ℕ} {c x x' : Carrier} (hc : s.carriers[lane]? = some c)
    (hx : s.carriers[i]? = some x) (hless : owed x' + 1 ≤ owed x) :
  ∃ c', (s.carriers.set i x')[lane]? = some c'
    ∧ (if some i = some lane then 1 else 0) + owed c' ≤ owed c
  := by
  rw [List.getElem?_set_of_some hx]
  by_cases heq : lane = i
  · rw [← heq, hc] at hx
    obtain rfl := Option.some.inj hx
    rw [if_pos heq, if_pos (congrArg some heq.symm)]
    exact ⟨x', rfl, by omega⟩
  · rw [if_neg heq, if_neg (fun h => heq (Option.some.inj h).symm)]
    exact ⟨c, hc, by omega⟩

/-- Each step of the task of a carrier that is cut off leaves it with fewer steps to take, and no
other step touches it. -/
theorem Cut.moves {e : Event} {lane : ℕ} {c : Carrier} (h : s.Cut lane)
    (hc : s.carriers[lane]? = some c) (hmoves : Moves getConv s e t) :
  t.Cut lane ∧ ∃ c', t.carriers[lane]? = some c'
    ∧ (if e.lane = some lane then 1 else 0) + owed c' ≤ owed c
  := by
  have hsame : (if (none : Option ℕ) = some lane then 1 else 0) + owed c ≤ owed c := by simp
  have henter : ∀ kind key peer, (s.enter kind key peer).carriers[lane]? = some c := by
    intro kind key peer
    rw [enter_carriers, List.getElem?_append_one, if_neg (Nat.ne_of_lt h.1)]
    exact hc
  cases hmoves with
  | ignored => exact ⟨h, c, hc, hsame⟩
  | @delivered datagram permit kind key body i x _ hentry hx =>
      have hdeliver := h.deliver kind key body
      rw [KcpSession.deliver, hentry] at hdeliver
      simp only [hx] at hdeliver
      exact ⟨hdeliver.1, c, hdeliver.2.trans hc, hsame⟩
  | checked => exact ⟨h, c, hc, hsame⟩
  | insertPeer => exact ⟨h.enter _ _ _, c, henter _ _ _, hsame⟩
  | acceptPeer =>
      obtain ⟨hcut, heq⟩ := h.deliver _ _ _
      exact ⟨hcut, c, heq.trans hc, hsame⟩
  | openConv => exact ⟨h, c, hc, hsame⟩
  | openConvWith => exact ⟨h, c, hc, hsame⟩
  | insertOpen => exact ⟨h.enter _ _ _, c, henter _ _ _, hsame⟩
  | registerDgram => exact ⟨h.enter _ _ _, c, henter _ _ _, hsame⟩
  | @count i x hx hphase => exact ⟨h.put, owed_put hc hx (by simp [owed, hphase])⟩
  | @recv i x p queue hx hphase hqueue =>
      exact ⟨h.put, owed_put hc hx (by simp [owed, hphase, hqueue])⟩
  | @starve i x hx hphase => exact ⟨h.put, owed_put hc hx (by simp [owed, hphase])⟩
  | @finish i x hx hphase => exact ⟨h.put, owed_put hc hx (by simp [owed, hphase])⟩
  | @erase i x hx hphase =>
      have hless : (s.setMap x.kind ((s.map x.kind).erase x.key)).Cut lane := by
        refine ⟨by rw [carriers_setMap]; exact h.1, ?_⟩
        intro kind key hlane
        rw [map_setMap] at hlane
        split at hlane
        · rw [Table.lookup_erase_eq] at hlane
          split at hlane
          · cases hlane
          · exact h.2 _ _ hlane
        · exact h.2 _ _ hlane
      refine ⟨hless.put, ?_⟩
      dsimp only [KcpSession.put]
      rw [carriers_setMap]
      exact owed_put hc hx (by simp [owed, hphase])
  | @release i x hx hphase => exact ⟨h.put, owed_put hc hx (by simp [owed, hphase])⟩
  | closeConvs =>
      refine ⟨⟨h.1, ?_⟩, c, hc, hsame⟩
      intro kind key hlane
      cases kind with
      | conv => cases hlane
      | dgram => exact h.2 .dgram key hlane
  | closeDgrams =>
      refine ⟨⟨h.1, ?_⟩, c, hc, hsame⟩
      intro kind key hlane
      cases kind with
      | conv => exact h.2 .conv key hlane
      | dgram => cases hlane

theorem Cut.run {es : List Event} {lane : ℕ} {c : Carrier} (h : s.Cut lane)
    (hc : s.carriers[lane]? = some c)
    (hrun : Run (fun s e t => s.step getConv e = some t) s es t) :
  t.Cut lane ∧ ∃ c', t.carriers[lane]? = some c'
    ∧ es.countP (fun e => e.lane = some lane) + owed c' ≤ owed c
  := by
  induction hrun with
  | nil => exact ⟨h, c, hc, by simp⟩
  | snoc _ hlast ih =>
      obtain ⟨hcut, c', hc', hle⟩ := ih
      obtain ⟨hcut', c'', hc'', hle'⟩ := hcut.moves hc' (moves_of_step hlast)
      refine ⟨hcut', c'', hc'', ?_⟩
      rw [List.countP_append, List.countP_singleton]
      simp only [decide_eq_true_eq]
      omega

/-- A carrier that is cut off can always take its next step. -/
theorem Cut.enabled {lane : ℕ} {c : Carrier} (h : s.Cut lane) (hc : s.carriers[lane]? = some c)
    (hphase : c.phase ≠ .gone) :
  ∃ e, e.lane = some lane ∧ (s.step getConv e).isSome
  := by
  cases hp : c.phase with
  | inserted => exact ⟨.count lane, rfl, by simp [step, hc, hp]⟩
  | running =>
      refine ⟨.recv lane, rfl, ?_⟩
      cases hq : c.queue with
      | nil => simp [step, hc, hp, hq, h.2]
      | cons p queue => simp [step, hc, hp, hq]
  | returned => exact ⟨.erase lane, rfl, by simp [step, hc, hp]⟩
  | erased => exact ⟨.release lane, rfl, by simp [step, hc, hp]⟩
  | gone => exact absurd hp hphase

/-- To clear the map of a kind cuts its carriers off. -/
theorem Base.cut_of_closing (h : Base s) {kind : CarrierKind} {lane : ℕ} {c : Carrier}
    (hc : s.carriers[lane]? = some c) (hkind : c.kind = kind)
    (hstep : s.step getConv (closing kind) = some t) :
  t.Cut lane ∧ t.carriers[lane]? = some c
  := by
  have hother : ∀ kind' key, kind' ≠ kind → (s.map kind').lookup key ≠ some lane := by
    intro kind' key hne hlane
    obtain ⟨c', hc', hkind', _⟩ := h.mapped kind' key lane hlane
    rw [hc] at hc'
    obtain rfl := Option.some.inj hc'
    exact hne (hkind'.symm.trans hkind)
  have hlt := (List.getElem?_eq_some_iff.mp hc).1
  cases kind with
  | conv =>
      obtain rfl := Option.some.inj hstep
      refine ⟨⟨hlt, ?_⟩, hc⟩
      intro kind' key hlane
      cases kind' with
      | conv => cases hlane
      | dgram => exact hother .dgram key (by simp) hlane
  | dgram =>
      obtain rfl := Option.some.inj hstep
      refine ⟨⟨hlt, ?_⟩, hc⟩
      intro kind' key hlane
      cases kind' with
      | conv => exact hother .conv key (by simp) hlane
      | dgram => cases hlane

/-- The identifier in the header of a packet of the stream protocol, which is little-endian. -/
def headerConv (packet : List UInt8) : UInt32 :=
  UInt32.ofNat (ofBe (packet.take 4).reverse)

/-- The first packet of a conversation. -/
def firstPacket (conv : UInt8) : List UInt8 :=
  [classKcp, conv] ++ List.replicate 23 0

/-- The peer opens one conversation and a caller another. -/
def oneEach : List Event :=
  [.route (firstPacket 7) true, .insertPeer, .count 0, .acceptPeer, .openConv, .insertOpen 0,
    .count 1, .route (firstPacket 7) true]

/-- The peer opens a conversation under the identifier that the next caller gets.  Its driver is cut
off, and erases the entry of the other when it ends. -/
def collision : List Event :=
  [.route (firstPacket 1) true, .insertPeer, .count 0, .acceptPeer, .openConv, .insertOpen 0,
    .count 1, .recv 0, .recv 0, .erase 0]

/-- An open that takes the last place while the receive loop is about to enter a conversation: the
peer goes beyond the cap. -/
theorem drivers_beyond_cap (h : Kept s) {i : ℕ} {conv conv' : UInt32} {setup : Bool}
    {payload : List UInt8} (hloop : s.loop = .checked conv setup payload)
    (hsize : s.convs.size + 1 = maxConvsPerSession) (hopening : s.opening[i]? = some conv') :
  ∃ t u, s.step getConv (.insertOpen i) = some t ∧ t.step getConv .insertPeer = some u
    ∧ u.drivers = maxConvsPerSession + 1
  := by
  let t : KcpSession := { s.enter .conv conv' false with opening := s.opening.eraseIdx i }
  refine ⟨t, { t.enter .conv conv true with
    loop := .spawning t.carriers.length conv setup payload }, ?_, ?_, ?_⟩
  · simp only [step, hopening]
    rfl
  · have hloop' : t.loop = .checked conv setup payload := hloop
    simp only [step, hloop']
  · change (t.enter .conv conv true).drivers = _
    have ht : t.drivers = (s.enter .conv conv' false).drivers := rfl
    rw [drivers_enter, ht, drivers_enter, ← h.size, if_pos rfl, hsize]

end KcpSession

end ZeroNat

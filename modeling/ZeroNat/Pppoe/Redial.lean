import ZeroNat.Pppoe.Release

/-!
# Dialling again

Several datapaths share one channel, and a driver dials for them.  A session that lasted is dialled
again at once when it goes down.  One that did not, or a discovery that gave up, waits first: on the
timer of the driver, and longer from one time to the next.  The random source may fail at any
dial.
-/

namespace ZeroNat.Pppoe

open Ppp (Digest)

/-! ### The wait -/

/-- The ticks of the first wait. -/
def redialTicks : ℕ := 3

/-- The ticks that a wait is doubled up to. -/
def redialTicksMax : ℕ := 60

/-- How long a session has to stay up to have lasted, in nanoseconds. -/
def sessionHeld : ℕ := 20000000000

/-- Whether the session that came up at a time has lasted. -/
def held (upSince : Option ℕ) (now : ℕ) : Bool :=
  upSince.any fun since => sessionHeld ≤ now - since

/-- The ticks left before the next dial, and those of the wait after this one. -/
structure Redial where
  wait : Option ℕ
  next : ℕ
deriving DecidableEq

namespace Redial

def default : Redial := ⟨none, redialTicks⟩

/-- Start to wait, unless one waits already. -/
def arm (r : Redial) : Option ℕ × Redial :=
  match r.wait with
  | some _ => (none, r)
  | none => (some r.next, ⟨some r.next, min (r.next * 2) redialTicksMax⟩)

/-- Count a tick, and tell whether it is time to dial. -/
def due (r : Redial) : Bool × Redial :=
  match r.wait with
  | none => (false, r)
  | some left =>
      (left - 1 = 0, { r with wait := if 0 < left - 1 then some (left - 1) else none })

end Redial

/-! ### A session of the driver -/

/-- What is noted about a session on one channel. -/
inductive Entry where
  | tick
  /-- The datapath was dialled. -/
  | dial (now : ℕ)
  /-- The session came up. -/
  | up (now : ℕ)
  /-- A session that had lasted went down. -/
  | held (now : ℕ)
  /-- A wait was started. -/
  | armed (ticks : ℕ)
deriving DecidableEq

/-- A session: its datapath, when it came up, what those who use it see of it, and its wait.  The
frames that were sent are kept, whether the dial on the new channel was possible, and what
happened on the channel, the last first. -/
structure Slot where
  dp : PppoeDatapath
  upSince : Option ℕ
  watch : Option Established
  redial : Redial
  sent : List (List UInt8)
  dialed : Bool
  log : List Entry
deriving DecidableEq

/-- What the random source gives to the calls of one event: to the dial that is due, to the dial
at once, and to the release. -/
structure Draws where
  due : Option UInt32
  reset : Option UInt32
  release : Option UInt32
deriving DecidableEq

namespace Slot

def new (dp : PppoeDatapath) : Slot :=
  ⟨dp, none, none, .default, [], false, []⟩

def note (s : Slot) (e : Entry) : Slot :=
  { s with log := e :: s.log }

/-- Send what is queued. -/
def flush (s : Slot) : Slot :=
  { s with dp := { s.dp with out := [] }, sent := s.sent ++ s.dp.out }

/-- Hand over the packets for the tunnel. -/
def drainInbound (s : Slot) : Slot :=
  { s with dp := { s.dp with inboundIp := [] } }

/-- Dial, and tell whether that was possible. -/
def reset (s : Slot) (random : Option UInt32) (now : ℕ) : Bool × Slot :=
  match s.dp.reset random with
  | .ok dp => (true, { s with dp }.note (.dial now))
  | .error _ => (false, s)

def release (s : Slot) (random : Option UInt32) : Slot :=
  match s.dp.release random with
  | .ok dp => { s with dp }
  | .error _ => s

/-- The session is not up any more. -/
def takeDown (s : Slot) : Slot :=
  if s.upSince.isSome then { s with upSince := none, watch := none } else s

/-- Start to wait, and tell whether that was not so before. -/
def arm (s : Slot) : Bool × Slot :=
  match s.redial.arm with
  | (some ticks, redial) => (true, { s with redial }.note (.armed ticks))
  | (none, _) => (false, s)

/-- Act on the phase of the datapath. -/
def applyPhase (now : ℕ) (draws : Draws) (s : Slot) : DpPhase → Slot
  | .established est =>
      drainInbound <|
        if s.upSince.isNone then
          { s with upSince := some now, watch := some est }.note (.up now)
        else s
  | .linkDown =>
      if Pppoe.held s.upSince now then
        let r := ({ s.takeDown with redial := .default }.note (.held now)).reset draws.reset now
        flush (if r.1 then r.2 else r.2.release draws.release)
      else
        let r := s.takeDown.arm
        if r.1 then r.2.release draws.release else r.2
  | .dead => s.takeDown.arm.2
  | .discovery => s
  | .ppp => s

/-- A frame, up to the phase. -/
def received (md5 : Digest) (s : Slot) (frame : List UInt8) : Slot :=
  drainInbound (flush { s with dp := s.dp.onL2Frame md5 frame })

def handleL2 (md5 : Digest) (now : ℕ) (draws : Draws) (s : Slot) (frame : List UInt8) : Slot :=
  let s := s.received md5 frame
  s.applyPhase now draws s.dp.phase

/-- A tick, up to the phase. -/
def ticked (now : ℕ) (draws : Draws) (s : Slot) : Slot :=
  let r := s.redial.due
  let s := { s with redial := r.2 }.note .tick
  let s := if r.1 then (s.reset draws.due now).2.flush else s
  flush { s with dp := s.dp.onTick }

def tick (now : ℕ) (draws : Draws) (s : Slot) : Slot :=
  let s := s.ticked now draws
  s.applyPhase now draws s.dp.phase

def packet (s : Slot) (ip : List UInt8) : Slot :=
  flush { s with dp := s.dp.onTunIp ip }

/-- A new channel: dial on it. -/
def connect (now : ℕ) (draws : Draws) (s : Slot) : Slot :=
  let r := { s with redial := .default, log := [] }.reset draws.due now
  let s := if r.1 then r.2 else (r.2.release draws.release).arm.2
  { s with dialed := r.1 }.takeDown.flush

end Slot

/-! ### The driver -/

structure Driver where
  slots : List Slot
  connected : Bool
deriving DecidableEq

inductive Demux where
  | one (i : ℕ)
  | all
  | drop
deriving DecidableEq

/-- Who gets a frame, by its destination. -/
def demux (frame : List UInt8) (macs : List MacAddr) : Demux :=
  if frame.length < 14 then .drop
  else if frame.take 6 = broadcast.toList then .all
  else
    match macs.findIdx? fun mac => mac.toList = frame.take 6 with
    | some i => .one i
    | none => .drop

namespace Driver

/-- What happens to the driver.  The channel may be lost at any time. -/
inductive Event where
  | connect (now : ℕ) (draws : ℕ → Draws)
  | lost
  | frame (now : ℕ) (draws : ℕ → Draws) (bytes : List UInt8)
  | packet (i : ℕ) (ip : List UInt8)
  | tick (now : ℕ) (draws : ℕ → Draws)

/-- An event as the session of an index has it. -/
def Event.act (md5 : Digest) (macs : List MacAddr) (i : ℕ) (s : Slot) : Event → Slot
  | connect now draws => s.connect now (draws i)
  | lost => s.takeDown
  | frame now draws bytes =>
      match demux bytes macs with
      | .one j => if i = j then s.handleL2 md5 now (draws i) bytes else s
      | .all => s.handleL2 md5 now (draws i) bytes
      | .drop => s
  | packet j ip => if i = j then s.packet ip else s
  | tick now draws => s.tick now (draws i)

/-- The event can happen: a lost channel is followed by a new one. -/
def Event.Possible (d : Driver) : Event → Prop
  | connect _ _ => d.connected = false
  | _ => d.connected = true

instance (d : Driver) : DecidablePred (Event.Possible d)
  | .connect _ _ => inferInstanceAs (Decidable (_ = _))
  | .lost | .frame _ _ _ | .packet _ _ | .tick _ _ => inferInstanceAs (Decidable (_ = _))

/-- Whether there is a channel afterwards. -/
def Event.connects : Event → Bool
  | lost => false
  | _ => true

/-- An event reaches the sessions one by one. -/
def step (md5 : Digest) (d : Driver) (e : Event) : Option Driver :=
  if e.Possible d then
    some ⟨d.slots.mapIdx fun i s => e.act md5 (d.slots.map (·.dp.ourMac)) i s, e.connects⟩
  else none

/-- Before the first channel. -/
def Start (md5 : Digest) (d : Driver) : Prop :=
  d.connected = false ∧ ∀ s ∈ d.slots, s = .new s.dp ∧ s.dp.Reachable md5

end Driver

end ZeroNat.Pppoe

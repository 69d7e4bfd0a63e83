import ZeroNat.Lib.Queue
import ZeroNat.Noise.Stateless

/-!
# The datagram channel

Datagrams, keepalives and labels travel over the shared socket as packets: a class byte, the
tag of the channel, and a sealed body whose plaintext starts with a byte for its kind.  The
buffers of packets go round between a sender and the socket, and between the router and a
receiver; each is emptied before it is filled again.
-/

open BigEndian

namespace ZeroNat.Dgram

def kindData : UInt8 := 0x00
def kindKeepalive : UInt8 := 0x01
def kindName : UInt8 := 0x02

/-- The longest label that is accepted. -/
def maxNameLen : ℕ := 256

/-- The buffers that may be parked on the return lane of a sender. -/
def laneCap : ℕ := 256

/-- The buffers that may be parked on the return lane of the router. -/
def recycleCap : ℕ := 16

/-- The class byte of a datagram packet. -/
def classDgram : UInt8 := 0x03

/-- A decrypted frame. -/
inductive Frame where
  | data (datagram : List UInt8)
  | keepalive
  | name (name : String)
deriving DecidableEq

/-- A packet for the socket, and the sender that gets its buffer back. -/
structure Outbound where
  pkt : List UInt8
  back : ℕ
deriving DecidableEq

/-- The sending end of a channel. -/
structure DgramTx where
  tag : UInt32
  lane : Queue (List UInt8)
deriving DecidableEq

/-- The router's end of an inbound lane: the buffer that a full lane refused, kept for the next
packet. -/
structure Slot where
  spare : Option (List UInt8)
deriving DecidableEq

/-- An inbound lane: the packets in flight, and the buffers that come back. -/
structure Inbound where
  rx : Queue (List UInt8)
  recycle : Queue (List UInt8)
deriving DecidableEq

/-- What became of a packet handed to a slot. -/
inductive Delivery where
  | queued
  | full
  | closed (body : List UInt8)
deriving DecidableEq

/-- The receiving end of a channel. -/
structure DgramRx where
  inbound : Inbound
  noise : StatelessNoise UInt8
  body : List UInt8
deriving DecidableEq

/-! ### Sending -/

/-- The calls that send. -/
inductive Call where
  | send (datagram : List UInt8)
  | probe
  | sendName (name : String)
deriving DecidableEq

namespace Call

def kind : Call → UInt8
  | send _ => kindData
  | probe => kindKeepalive
  | sendName _ => kindName

def payload : Call → List UInt8
  | send datagram => datagram
  | probe => []
  | sendName name => utf8 name

/-- The frame that a call is to bring to the other end. -/
def frame : Call → Frame
  | send datagram => .data datagram
  | probe => .keepalive
  | sendName name => .name name

end Call

namespace DgramTx

/-- The packet that a call lays out, with room for the nonce. -/
def layOut (tx : DgramTx) (call : Call) : List UInt8 :=
  classDgram :: toBe 4 tx.tag.toNat ++ List.replicate 8 0 ++ call.kind :: call.payload

/-- A call fills a buffer from the lane, if one has come back. -/
def takeBuffer (tx : DgramTx) : DgramTx :=
  { tx with lane := tx.lane.tryRecv.2 }

/-- A buffer comes back, unless the lane is full. -/
def giveBuffer (tx : DgramTx) (buf : List UInt8) : DgramTx :=
  { tx with lane := (tx.lane.trySend buf).2 }

end DgramTx

/-! ### Receiving -/

/-- Queue a copy of a body without waiting, in the spare buffer, one that the consumer handed
back, or a fresh one. -/
def Slot.deliver (slot : Slot) (lane : Inbound) (body : List UInt8) : Delivery × Slot × Inbound :=
  let recycle := if slot.spare.isSome then lane.recycle else lane.recycle.tryRecv.2
  match lane.rx.trySend body with
  | (.sent, rx) => (.queued, ⟨none⟩, ⟨rx, recycle⟩)
  | (.full, rx) => (.full, ⟨some body⟩, ⟨rx, recycle⟩)
  | (.closed, rx) => (.closed body, ⟨none⟩, ⟨rx, recycle⟩)

/-- Hand a consumed buffer back. -/
def Inbound.reclaim (lane : Inbound) (buf : List UInt8) : Inbound :=
  if buf ≠ [] then { lane with recycle := (lane.recycle.trySend buf).2 } else lane

namespace DgramRx

variable (C : Cipher UInt8)

/-- Take a datagram and decrypt it where it lies, after the nonce.  The length of the plaintext
is returned; an empty one counts for nothing. -/
def take (rx : DgramRx) (datagram : List UInt8) : Option ℕ × DgramRx :=
  let inbound := rx.inbound.reclaim rx.body
  match rx.noise.openInPlace C datagram with
  | (.error _, noise) => (none, ⟨inbound, noise, datagram⟩)
  | (.ok p, noise) =>
    let rx' : DgramRx :=
      ⟨inbound, noise, datagram.take 8 ++ p ++ datagram.drop (8 + p.length)⟩
    if p.length = 0 then (none, rx') else (some p.length, rx')

/-- The frame that a plaintext of a length stands for: unknown kinds and bad labels stand for
none. -/
def frame? (rx : DgramRx) (n : ℕ) : Option Frame :=
  let rest := (rx.body.take (8 + n)).drop 9
  match rx.body[8]? with
  | none => none
  | some kind =>
    if kind = kindData then some (.data rest)
    else if kind = kindKeepalive then some .keepalive
    else if kind = kindName ∧ rest.length ≤ maxNameLen then
      (String.fromUTF8? ⟨rest.toArray⟩).map .name
    else none

/-- The datagram with a body that a plaintext of a length stands for. -/
def data? (rx : DgramRx) (n : ℕ) : Option Frame :=
  if rx.body[8]? = some kindData ∧ 1 < n then some (.data ((rx.body.take (8 + n)).drop 9)) else none

/-- Take the datagrams of a queue until one stands for a frame. -/
def recvLoop (select : DgramRx → ℕ → Option Frame) :
    DgramRx → List (List UInt8) → Option Frame × DgramRx × List (List UInt8)
  | rx, [] => (none, rx, [])
  | rx, datagram :: queue =>
    match rx.take C datagram with
    | (none, rx') => recvLoop select rx' queue
    | (some n, rx') =>
      match select rx' n with
      | none => recvLoop select rx' queue
      | some f => (some f, rx', queue)

/-- Run a receiving call until it returns a frame or waits for a datagram. -/
def poll (select : DgramRx → ℕ → Option Frame) (rx : DgramRx) : Option Frame × DgramRx :=
  match recvLoop C select rx rx.inbound.rx.items with
  | (f, rx', items) =>
    (f, { rx' with inbound := { rx'.inbound with rx := { rx'.inbound.rx with items } } })

/-- The next frame. -/
def recv (rx : DgramRx) : Option Frame × DgramRx :=
  rx.poll C frame?

/-- The next datagram with a body. -/
def recvData (rx : DgramRx) : Option Frame × DgramRx :=
  rx.poll C data?

end DgramRx

end ZeroNat.Dgram

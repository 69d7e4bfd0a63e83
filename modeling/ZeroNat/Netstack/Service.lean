import Mathlib.Data.List.Basic
import Mathlib.Data.Nat.Notation
import ZeroNat.Lib.Run

/-!
# The userspace stack of a session

A session has a TCP/IP stack of its own, and the connections of the proxy are opened on it.  What a
client sends goes through a bounded channel into a buffer and from there to the socket; what the
remote sends goes from the socket into a second channel.  The stack serves all its connections
again and again, between the packets and the timers of the sockets.
-/

namespace ZeroNat.Netstack

/-- The chunks that a channel holds. -/
def chanDepth : ℕ := 64

/-- The bytes that are staged for a connection before no more chunks are taken. -/
def outBufBudget : ℕ := 64 * 1024

/-! ### Sockets -/

inductive State where
  | closed
  | listen
  | synSent
  | synReceived
  | established
  | finWait1
  | finWait2
  | closeWait
  | closing
  | lastAck
  | timeWait
deriving DecidableEq

/-- A socket: its state and its receive buffer.  What it accepted to send, everything that the
remote sent, whether the remote has ended its stream, and whether the end of ours was asked for,
are kept. -/
structure Socket where
  state : State
  rx : List UInt8
  written : List UInt8
  arrived : List UInt8
  remoteFin : Bool
  finRequested : Bool
deriving DecidableEq

namespace Socket

/-- A socket that connects. -/
def connecting : Socket :=
  ⟨.synSent, [], [], [], false, false⟩

def maySend (s : Socket) : Bool :=
  s.state = .established ∨ s.state = .closeWait

/-- The remote can still send, or there is something left of what it sent. -/
def mayRecv (s : Socket) : Bool :=
  (s.state = .established ∨ s.state = .finWait1 ∨ s.state = .finWait2) ∨ s.rx ≠ []

def canRecv (s : Socket) : Bool :=
  s.mayRecv ∧ s.rx ≠ []

/-- Ask for the end of our stream. -/
def close (s : Socket) : Socket :=
  match s.state with
  | .established => { s with state := .finWait1, finRequested := true }
  | .synReceived => { s with state := .finWait1, finRequested := true }
  | .closeWait => { s with state := .lastAck, finRequested := true }
  | .listen => { s with state := .closed }
  | .synSent => { s with state := .closed }
  | _ => s

def abort (s : Socket) : Socket :=
  { s with state := .closed }

end Socket

/-- What packets and timers do to a socket. -/
inductive Net where
  /-- The remote opens a connection to us at the same time. -/
  | crossed
  | opened
  /-- Bytes of the remote's stream, in its order. -/
  | data (bytes : List UInt8)
  /-- The end of the remote's stream. -/
  | fin
  /-- The end of ours is acknowledged. -/
  | acked
  | expired
  /-- The remote resets the connection, or does not answer any more. -/
  | reset
deriving DecidableEq

/-- A socket after a packet or a timer, if that can happen to it. -/
def Socket.net (s : Socket) : Net → Option Socket
  | .crossed =>
      match s.state with
      | .synSent => some { s with state := .synReceived }
      | _ => none
  | .opened =>
      match s.state with
      | .synSent | .synReceived => some { s with state := .established }
      | _ => none
  | .data bytes =>
      match s.state with
      | .synReceived | .established | .finWait1 | .finWait2 =>
          some { s with rx := s.rx ++ bytes, arrived := s.arrived ++ bytes }
      | _ => none
  | .fin =>
      match s.state with
      | .synReceived | .established => some { s with state := .closeWait, remoteFin := true }
      | .finWait1 => some { s with state := .closing, remoteFin := true }
      | .finWait2 => some { s with state := .timeWait, remoteFin := true }
      | _ => none
  | .acked =>
      match s.state with
      | .finWait1 => some { s with state := .finWait2 }
      | .closing => some { s with state := .timeWait }
      | .lastAck => some { s with state := .closed }
      | _ => none
  | .expired =>
      match s.state with
      | .timeWait => some { s with state := .closed }
      | _ => none
  | .reset =>
      match s.state with
      | .closed => none
      | _ => some { s with state := .closed }

/-! ### Connections -/

/-- A bounded channel: the chunks in it, whether its sender is there, and its receiver. -/
structure Chan where
  queue : List (List UInt8)
  sender : Bool
  receiver : Bool
deriving DecidableEq

def Chan.new : Chan :=
  ⟨[], true, true⟩

/-- What the stack keeps of a connection: the bytes that are staged, whether `ready` is still to be
answered, whether the client will send no more, and whether the connection has been seen to be
established.  The two channels are those of the request. -/
structure Conn where
  toRemote : Chan
  fromRemote : Chan
  outBuf : List UInt8
  ready : Bool
  toRemoteDone : Bool
  established : Bool
deriving DecidableEq

/-- A request for a connection, with its socket.  What the client has sent, the chunks taken of
it, the chunks delivered to the client and the answers to the request are kept. -/
structure Served where
  socket : Socket
  conn : Conn
  reaped : Bool
  sent : List (List UInt8)
  taken : List (List UInt8)
  delivered : List (List UInt8)
  answers : List Bool
deriving DecidableEq

/-- How the socket behaves while it is served: the length of the first slice of the staged bytes
and how much of it is accepted, time after time, and the lengths of the slices it hands out. -/
structure Offer where
  sends : List (ℕ × ℕ)
  recvs : List ℕ
deriving DecidableEq

namespace Served

/-- A connection that was opened. -/
def opened : Served :=
  ⟨.connecting, ⟨.new, .new, [], true, false, false⟩, false, [], [], [], []⟩

/-- Answer the request, unless that was done. -/
def answer (c : Served) (ok : Bool) : Served :=
  if c.conn.ready then
    { c with conn := { c.conn with ready := false }, answers := c.answers ++ [ok] }
  else c

/-- The sender of the channel to the client is dropped. -/
def dropFromRemote (c : Served) : Served :=
  { c with conn := { c.conn with fromRemote := { c.conn.fromRemote with sender := false } } }

/-- The connection is gone, and its ends of the channels with it. -/
def reap (c : Served) : Served :=
  dropFromRemote { c with
    conn := { c.conn with toRemote := { c.conn.toRemote with receiver := false } }
    reaped := true }

/-- A connection that could not be opened. -/
def refused : Served :=
  ({ opened with socket := Socket.connecting.abort }.answer false).reap

/-- Take chunks of the client, the ones of a list first, as long as few bytes are staged. -/
def stageFrom (c : Served) : List (List UInt8) → Served
  | [] =>
      { c with conn := { c.conn with
          toRemote := { c.conn.toRemote with queue := [] }
          toRemoteDone := c.conn.toRemoteDone
            || (decide (c.conn.outBuf.length < outBufBudget) && !c.conn.toRemote.sender) } }
  | chunk :: queue =>
      if c.conn.outBuf.length < outBufBudget then
        stageFrom { c with
          conn := { c.conn with outBuf := c.conn.outBuf ++ chunk }
          taken := c.taken ++ [chunk] } queue
      else { c with conn := { c.conn with
          toRemote := { c.conn.toRemote with queue := chunk :: queue } } }

def stage (c : Served) : Served :=
  c.stageFrom c.conn.toRemote.queue

/-- Write what is staged to the socket, as long as it accepts some of it. -/
def write (c : Served) : List (ℕ × ℕ) → Served
  | [] => c
  | (slice, room) :: sends =>
      if c.socket.maySend ∧ c.conn.outBuf ≠ [] then
        let front := c.conn.outBuf.take (max slice 1)
        let n := min room front.length
        if n = 0 then c
        else
          write { c with
            socket := { c.socket with written := c.socket.written ++ front.take n }
            conn := { c.conn with outBuf := c.conn.outBuf.drop n } } sends
      else c

/-- End our stream, once everything was written. -/
def finish (c : Served) : Served :=
  if c.conn.toRemoteDone ∧ c.conn.outBuf = [] ∧ c.socket.maySend then
    { c with socket := c.socket.close }
  else c

/-- Hand a slice of what was received to the client. -/
def deliver (c : Served) (slice : ℕ) : Served :=
  let chunk := c.socket.rx.take (max slice 1)
  { c with
    socket := { c.socket with rx := c.socket.rx.drop (max slice 1) }
    conn := { c.conn with fromRemote := { c.conn.fromRemote with
      queue := c.conn.fromRemote.queue ++ [chunk] } }
    delivered := c.delivered ++ [chunk] }

/-- What stands in the way of handing something to the client. -/
inductive Room where
  | none
  | some
  /-- The client is gone. -/
  | gone
deriving DecidableEq

def room (c : Served) : Room :=
  if c.socket.canRecv = false then .none
  else if c.conn.fromRemote.sender = false then .none
  else if c.conn.fromRemote.receiver = false then .gone
  else if chanDepth ≤ c.conn.fromRemote.queue.length then .none
  else .some

/-- Hand what was received to the client, as long as there is room in the channel, and tell whether
the client is gone.  After the slices of a list, the rest is in one piece. -/
def read (c : Served) : List ℕ → Bool × Served
  | [] =>
      match c.room with
      | .none => (false, c)
      | .gone => (true, c)
      | .some => (false, c.deliver c.socket.rx.length)
  | slice :: slices =>
      match c.room with
      | .none => (false, c)
      | .gone => (true, c)
      | .some => read (c.deliver slice) slices

/-- A client that is gone ends the connection. -/
def abandon (c : Served) : Served :=
  { c with socket := c.socket.abort }.dropFromRemote

/-- Tell the client when the remote has ended its stream and everything of it was delivered. -/
def halfClose (c : Served) : Served :=
  if c.conn.established ∧ c.conn.fromRemote.sender ∧ c.socket.mayRecv = false
      ∧ c.socket.canRecv = false then
    c.dropFromRemote
  else c

/-- Both directions of a connection. -/
def pump (o : Offer) (c : Served) : Served :=
  let r := (c.stage.write o.sends).finish.read o.recvs
  halfClose (if r.1 then r.2.abandon else r.2)

/-- Serve a connection. -/
def service (o : Offer) (c : Served) : Served :=
  if c.reaped then c
  else
    match c.socket.state with
    | .established => pump o ({ c with conn := { c.conn with established := true } }.answer true)
    | .closed => (c.answer false).reap
    | _ => pump o c

end Served

/-! ### The stack -/

/-- What the client of a connection does. -/
inductive Client where
  | send (chunk : List UInt8)
  /-- It will send no more. -/
  | done
  /-- It takes a chunk. -/
  | take
  /-- It drops its receiver. -/
  | leave
deriving DecidableEq

/-- A connection after its client has acted, if it can. -/
def Served.client (c : Served) : Client → Option Served
  | .send chunk =>
      if c.conn.toRemote.sender ∧ c.conn.toRemote.receiver
          ∧ c.conn.toRemote.queue.length < chanDepth then
        some { c with
          conn := { c.conn with toRemote := { c.conn.toRemote with
            queue := c.conn.toRemote.queue ++ [chunk] } }
          sent := c.sent ++ [chunk] }
      else none
  | .done =>
      some { c with conn := { c.conn with toRemote := { c.conn.toRemote with sender := false } } }
  | .take =>
      some { c with conn := { c.conn with fromRemote := { c.conn.fromRemote with
        queue := c.conn.fromRemote.queue.tail } } }
  | .leave =>
      some { c with conn := { c.conn with fromRemote := { c.conn.fromRemote with
        receiver := false } } }

/-- What happens to the stack. -/
inductive Event where
  /-- A connection is asked for; it may not be possible. -/
  | connect (configured connects : Bool)
  | service (offers : ℕ → Offer)
  | net (i : ℕ) (n : Net)
  | client (i : ℕ) (a : Client)

/-- The requests of a session, in the order in which they came. -/
abbrev Stack := List Served

/-- What happens to one of the connections. -/
def Stack.act (s : Stack) (i : ℕ) (f : Served → Option Served) : Option Stack :=
  (s[i]?.bind f).map (s.set i)

def Stack.step (s : Stack) : Event → Option Stack
  | .connect configured connects =>
      some (s ++ [if configured ∧ connects then .opened else .refused])
  | .service offers => some (s.mapIdx fun i c => c.service (offers i))
  | .net i n =>
      s.act i fun c => if c.reaped then none else (c.socket.net n).map ({ c with socket := · })
  | .client i a => s.act i (·.client a)

end ZeroNat.Netstack

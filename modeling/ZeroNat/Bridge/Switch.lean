import ZeroNat.Lib.Queue
import ZeroNat.Lib.Table
import ZeroNat.Net
import ZeroNat.Proto.Wire

/-!
# The switch of the server

The in-process switch between one device and the ports of the attached clients.  On an
Ethernet device it learns from the frames a port sends which addresses live behind it, and
routes by that; on a device that carries raw packets it serves one client at a time.

Each attach makes the objects that a port shares with the handle of its client: the queue
of frames towards the client, the signal that ends its relay, and the mark that the client
has been heard from.  They outlive the entry of the port in the table, so they are kept in
a list of their own, in which an entry is never removed.
-/

namespace ZeroNat

/-- An Ethernet frame or a raw packet. -/
abbrev Frame : Type :=
  List UInt8

/-- The objects that a port and the handle of its client share. -/
structure PortCell where
  /-- The frames waiting for the relay of the client. -/
  queue : List Frame
  /-- Whether the relay still holds the receiving end of the queue. -/
  rxOpen : Bool
  /-- Whether the relay has been told to stop. -/
  cancelled : Bool
  /-- Whether the client has been heard from. -/
  proven : Bool
deriving DecidableEq

/-- One attached client. -/
structure SwitchPort where
  cell : ℕ
  name : Option String
  transport : UInt8
  peer : Option SocketAddr
deriving DecidableEq

/-- The switch, with the frames it has written to its device, newest first. -/
structure TapSwitch where
  isL2 : Bool
  portToPort : Bool
  ports : Table UInt32 SwitchPort
  macs : Table MacAddr UInt32
  nextPort : UInt32
  cells : List PortCell
  written : List Frame

/-- The view a client's relay has of its port. -/
structure SwitchHandle where
  portId : UInt32
  cell : ℕ
deriving DecidableEq

/-- The frames a queue holds before it is full. -/
def switchPortCap : ℕ := 256

/-- The addresses the table holds before it stops learning new ones. -/
def maxMacsPerSwitch : ℕ := 4096

/-- The destination and the source of an Ethernet frame, unless it is too short for one. -/
def dstSrc (f : Frame) : Option (MacAddr × MacAddr) :=
  if h : 14 ≤ f.length then
    some (Bytes.slice f 0 6 (by omega), Bytes.slice f 6 6 (by omega))
  else none

/-- The group bit of an address: broadcast or multicast. -/
def isGroup (mac : MacAddr) : Bool :=
  mac.head &&& 1 ≠ 0

/-- An address that must never be learned as a source. -/
def isGroupOrZero (mac : MacAddr) : Bool :=
  isGroup mac || mac = Bytes.zero 6

namespace TapSwitch

/-- A switch with no ports. -/
def build (isL2 portToPort : Bool) : TapSwitch where
  isL2 := isL2
  portToPort := portToPort
  ports := ∅
  macs := ∅
  nextPort := 0
  cells := []
  written := []

/-- Whether the relay behind a cell holds its receiving end. -/
def rxOpen (sw : TapSwitch) (cell : ℕ) : Bool :=
  ((sw.cells[cell]?).map PortCell.rxOpen).getD false

/-- Whether the client behind a cell has been heard from. -/
def proven (sw : TapSwitch) (cell : ℕ) : Bool :=
  ((sw.cells[cell]?).map PortCell.proven).getD false

/-- Whether the relay behind a cell has been told to stop. -/
def cancelled (sw : TapSwitch) (cell : ℕ) : Bool :=
  ((sw.cells[cell]?).map PortCell.cancelled).getD false

/-- Change the cell of a port. -/
def modifyCell (sw : TapSwitch) (cell : ℕ) (f : PortCell → PortCell) : TapSwitch :=
  { sw with cells := sw.cells.modify cell f }

def writeFrame (sw : TapSwitch) (frame : Frame) : TapSwitch :=
  { sw with written := frame :: sw.written }

/-- Put a frame in the queue of a port, unless the queue is full or nobody reads it. -/
def trySend (sw : TapSwitch) (cell : ℕ) (frame : Frame) : TrySend × TapSwitch :=
  match sw.cells[cell]? with
  | none => (.closed, sw)
  | some c =>
      if c.rxOpen = false then (.closed, sw)
      else if switchPortCap ≤ c.queue.length then (.full, sw)
      else (.sent, sw.modifyCell cell fun c => { c with queue := c.queue ++ [frame] })

/-- Remove a port and every address learned behind it. -/
def evictPort (sw : TapSwitch) (portId : UInt32) : TapSwitch :=
  { sw with
    ports := sw.ports.erase portId
    macs := sw.macs.retain fun _ p => p ≠ portId }

/-- Learn that `src` lives behind `port`.  When the table is full, an address that is
already there still moves but a new one is refused. -/
def learn (sw : TapSwitch) (src : MacAddr) (port : UInt32) : TapSwitch :=
  if isGroupOrZero src then sw
  else
    match sw.macs.lookup src with
    | some _ => { sw with macs := sw.macs.insert src port }
    | none =>
        if sw.macs.size < maxMacsPerSwitch then { sw with macs := sw.macs.insert src port }
        else sw

/-- Forget which port `src` lives behind. -/
def unlearn (sw : TapSwitch) (src : MacAddr) : TapSwitch :=
  if isGroupOrZero src then sw
  else { sw with macs := sw.macs.erase src }

/-- Copy a frame to the given ports, and tell which of them nobody reads any more. -/
def sendAll (frame : Frame) : List (UInt32 × SwitchPort) → TapSwitch → TapSwitch × List UInt32
  | [], sw => (sw, [])
  | (id, port) :: targets, sw =>
      match sw.trySend port.cell frame with
      | (.closed, sw) =>
          let (sw, closed) := sendAll frame targets sw
          (sw, id :: closed)
      | (_, sw) => sendAll frame targets sw

/-- Copy a frame to every port but `except`, and evict those nobody reads any more. -/
def floodExcept (sw : TapSwitch) (frame : Frame) (except : Option UInt32) : TapSwitch :=
  let targets := sw.ports.toList.filter fun x => some x.1 ≠ except
  let (sw, closed) := sendAll frame targets sw
  closed.foldl evictPort sw

def flood (sw : TapSwitch) (frame : Frame) : TapSwitch :=
  sw.floodExcept frame none

/-- Send a frame to the port that an address was learned behind. -/
def deliver (sw : TapSwitch) (portId : UInt32) (port : SwitchPort) (frame : Frame) : Bool × TapSwitch :=
  match sw.trySend port.cell frame with
  | (.closed, sw) => (false, sw.evictPort portId)
  | (_, sw) => (true, sw)

/-- Forward a frame read from the device by its destination: a group address or one that
is not learned goes to every port, a learned one to its port.  The source is on the side of
the device, so whatever port it was learned behind is stale. -/
def forwardInbound (sw : TapSwitch) (dst src : MacAddr) (frame : Frame) : TapSwitch :=
  let sw := sw.unlearn src
  if isGroup dst then sw.flood frame
  else
    match sw.macs.lookup dst with
    | none => sw.flood frame
    | some portId =>
        match sw.ports.lookup portId with
        | none => sw.flood frame
        | some port => (sw.deliver portId port frame).2

/-- Route a frame sent by the port `origin` among the other ports, and tell whether it is
delivered.  Frames for a group are still owed to the device, and so are those for an address
that is not learned behind another port. -/
def forwardEgress (sw : TapSwitch) (dst : MacAddr) (frame : Frame) (origin : UInt32) :
    Bool × TapSwitch :=
  if isGroup dst then (false, sw.floodExcept frame (some origin))
  else
    match (sw.macs.lookup dst).filter (fun p => p ≠ origin) with
    | none => (false, sw)
    | some portId =>
        match sw.ports.lookup portId with
        | none => (false, sw)
        | some port => sw.deliver portId port frame

/-- A frame sent by a port: learn its source, route it among the other ports when the switch
does that, and write it to the device unless it has been delivered. -/
def learnAndWriteEgress (sw : TapSwitch) (frame : Frame) (port : UInt32) : TapSwitch :=
  match (dstSrc frame).filter (fun _ => sw.isL2) with
  | none => sw.writeFrame frame
  | some (dst, src) =>
      let sw := sw.learn src port
      if sw.portToPort then
        match sw.forwardEgress dst frame port with
        | (true, sw) => sw
        | (false, sw) => sw.writeFrame frame
      else sw.writeFrame frame

/-- One turn of the reader of the device.  With a single port attached the frame goes to it
unparsed. -/
def readLoop (sw : TapSwitch) (frame : Frame) : TapSwitch :=
  if sw.ports.size = 1 then
    match sw.ports.toList.head? with
    | some (_, port) => (sw.trySend port.cell frame).2
    | none => sw
  else
    match dstSrc frame with
    | some (dst, src) => sw.forwardInbound dst src frame
    | none => sw.flood frame

/-! ### Attaching -/

/-- Take the next port number and make the objects of a new port. -/
def allot (sw : TapSwitch) (proven : Bool) : SwitchHandle × TapSwitch :=
  ({ portId := sw.nextPort, cell := sw.cells.length },
    { sw with
      nextPort := sw.nextPort + 1
      cells := sw.cells ++ [{ queue := [], rxOpen := true, cancelled := false, proven := proven }] })

/-- Admit a new port to the table, and tell which ports it supersedes.  A switch for raw
packets refuses it while a client that has been heard from holds the slot. -/
def admitPort (sw : TapSwitch) (h : SwitchHandle) (transport : UInt8) (peer : Option SocketAddr) :
    Result (List (UInt32 × ℕ)) × TapSwitch :=
  let port : SwitchPort := { cell := h.cell, name := none, transport := transport, peer := peer }
  if sw.isL2 then (.ok [], { sw with ports := sw.ports.insert h.portId port })
  else if sw.ports.toList.any fun x => sw.proven x.2.cell then
    (.error "tun bridge already has a client; a tun server serves one client", sw)
  else
    (.ok (sw.ports.toList.map fun x => (x.1, x.2.cell)),
      { sw with ports := AList.insert h.portId port ∅ })

/-- End the relay of a superseded port. -/
def supersede (sw : TapSwitch) (old : UInt32 × ℕ) : TapSwitch :=
  (sw.modifyCell old.2 fun c => { c with cancelled := true }).evictPort old.1

/-- Attach a new client. -/
def attach (sw : TapSwitch) (transport : UInt8) (peer : Option SocketAddr) (proven : Bool) :
    Result SwitchHandle × TapSwitch :=
  let (h, sw) := sw.allot proven
  match sw.admitPort h transport peer with
  | (.error e, sw) => (.error e, sw)
  | (.ok superseded, sw) => (.ok h, superseded.foldl supersede sw)

/-- Attach a client whose transport carries its own liveness. -/
def addPort (sw : TapSwitch) (transport : UInt8) (peer : Option SocketAddr) :
    Result SwitchHandle × TapSwitch :=
  sw.attach transport peer true

/-- Attach a client that is yet to be heard from. -/
def addDgramPort (sw : TapSwitch) (peer : SocketAddr) : Result SwitchHandle × TapSwitch :=
  sw.attach 2 (some peer) false

/-- Record that the client behind a handle has been heard from. -/
def prove (sw : TapSwitch) (h : SwitchHandle) : TapSwitch :=
  sw.modifyCell h.cell fun c => { c with proven := true }

/-- The relay of a handle takes the next frame of its queue. -/
def recv (sw : TapSwitch) (h : SwitchHandle) : TapSwitch :=
  sw.modifyCell h.cell fun c => { c with queue := c.queue.tail }

/-- The relay of a handle lets go of the receiving end of its queue. -/
def close (sw : TapSwitch) (h : SwitchHandle) : TapSwitch :=
  sw.modifyCell h.cell fun c => { c with rxOpen := false }

/-- Drop a handle: detach its port, and let go of what it still holds. -/
def dropHandle (sw : TapSwitch) (h : SwitchHandle) : TapSwitch :=
  (sw.evictPort h.portId).close h

end TapSwitch

end ZeroNat

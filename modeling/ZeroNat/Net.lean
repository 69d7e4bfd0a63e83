import Mathlib.Data.Vector.Basic

/-!
# Network addresses

The address types of the standard library that the program carries around: IPv4 and IPv6
addresses, socket addresses, and the hardware addresses of Ethernet frames.
-/

namespace ZeroNat

/-- A byte array of fixed length. -/
abbrev Bytes (n : ℕ) : Type :=
  List.Vector UInt8 n

/-- The array of `n` zero bytes. -/
def Bytes.zero (n : ℕ) : Bytes n :=
  List.Vector.replicate n 0

/-- An array of `n` bytes from a slice, when the slice has that length. -/
def Bytes.ofList? (n : ℕ) (l : List UInt8) : Option (Bytes n) :=
  if h : l.length = n then some ⟨l, h⟩ else none

/-- The `n` bytes of a slice from position `start`. -/
def Bytes.slice (l : List UInt8) (start n : ℕ) (h : start + n ≤ l.length) : Bytes n :=
  ⟨(l.drop start).take n, by simp only [List.length_take, List.length_drop]; omega⟩

/-- An IPv4 address, as the 32-bit number its octets spell. -/
structure Ipv4Addr where
  bits : UInt32
deriving DecidableEq, Repr

/-- An IP address. -/
inductive IpAddr where
  | v4 (ip : Ipv4Addr)
  | v6 (octets : Bytes 16)
deriving DecidableEq

/-- A socket address.  An IPv6 one carries a flow label and a scope. -/
inductive SocketAddr where
  | v4 (ip : Ipv4Addr) (port : UInt16)
  | v6 (octets : Bytes 16) (port : UInt16) (flowinfo : UInt32) (scopeId : UInt32)
deriving DecidableEq

/-- The socket address of an IP address and a port, with no flow label and no scope. -/
def SocketAddr.new (ip : IpAddr) (port : UInt16) : SocketAddr :=
  match ip with
  | .v4 ip => .v4 ip port
  | .v6 octets => .v6 octets port 0 0

/-- The IP address of a socket address. -/
def SocketAddr.ip : SocketAddr → IpAddr
  | .v4 ip _ => .v4 ip
  | .v6 octets _ _ _ => .v6 octets

/-- The port of a socket address. -/
def SocketAddr.port : SocketAddr → UInt16
  | .v4 _ port => port
  | .v6 _ port _ _ => port

/-- A socket address with no flow label and no scope. -/
def SocketAddr.Plain : SocketAddr → Prop
  | .v4 _ _ => True
  | .v6 _ _ flowinfo scopeId => flowinfo = 0 ∧ scopeId = 0

instance : DecidablePred SocketAddr.Plain
  | .v4 _ _ => inferInstanceAs (Decidable True)
  | .v6 _ _ flowinfo scopeId => inferInstanceAs (Decidable (flowinfo = 0 ∧ scopeId = 0))

/-- The plain socket addresses are those that their IP address and port determine. -/
theorem SocketAddr.plain_iff (a : SocketAddr) :
  a.Plain ↔ SocketAddr.new a.ip a.port = a
  := by
  cases a with
  | v4 ip port => simp [Plain, new, SocketAddr.ip, SocketAddr.port]
  | v6 octets port flowinfo scopeId =>
      simp [Plain, new, SocketAddr.ip, SocketAddr.port, eq_comm]

/-- A 48-bit Ethernet hardware address, in wire order. -/
abbrev MacAddr : Type :=
  Bytes 6

end ZeroNat

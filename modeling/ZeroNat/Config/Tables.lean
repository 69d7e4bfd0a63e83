import Mathlib.Logic.Function.Basic
import ZeroNat.Config.Lexer
import ZeroNat.Proto.Msg

/-!
# The tables of config files

A config file is a sequence of tables, each a header and keys with values.  A grammar says
which tables and keys there are and how the value of a key is read.  The record of a table is
filled as its keys are met, and closed at the next header or at the end of the file; what
closing does is up to the grammar.
-/

namespace ZeroNat

/-- How a client reaches its server. -/
inductive Transport where
  | auto
  | udp
  | tcp
deriving DecidableEq, Repr

namespace Config

/-! ### Values that are written as strings -/

def protoStr : Proto → String
  | .tcp => "tcp"
  | .udp => "udp"

def parseProto (value : List Char) (n : ℕ) : Except String Proto :=
  match parseString value n with
  | .error e => .error e
  | .ok s =>
      if s = "tcp" then .ok .tcp
      else if s = "udp" then .ok .udp
      else if s = "tap" then .error (err n "proto `tap` is not supported in this version")
      else .error (err n ("unknown proto `" ++ s ++ "`"))

def transportStr : Transport → String
  | .auto => "auto"
  | .udp => "udp"
  | .tcp => "tcp"

def parseTransport (value : List Char) (n : ℕ) : Except String Transport :=
  match parseString value n with
  | .error e => .error e
  | .ok s =>
      if s = "auto" then .ok .auto
      else if s = "udp" then .ok .udp
      else if s = "tcp" then .ok .tcp
      else .error (err n ("unknown transport `" ++ s ++ "`"))

/-- The octets of an address, from the first on. -/
def octets (ip : Ipv4Addr) : List ℕ :=
  let b := ip.bits.toNat
  [b / 2 ^ 24, b / 2 ^ 16 % 256, b / 2 ^ 8 % 256, b % 256]

/-- An address as it is written. -/
def ipText (ip : Ipv4Addr) : List Char :=
  ['.'].intercalate ((octets ip).map decimal)

/-- An octet: at most three digits, and no zero before others. -/
def parseOctet (l : List Char) : Option ℕ :=
  if l.length ≤ 3 ∧ l.all Char.isDigit ∧ (l.head? = some '0' → l.length = 1) ∧ l ≠ [] then
    let v := Nat.ofDigitChars 10 l 0
    if v < 256 then some v else none
  else none

/-- The address that a text spells. -/
def ipOfText (l : List Char) : Option Ipv4Addr :=
  match (l.splitOn '.').map parseOctet with
  | [some a, some b, some c, some d] =>
      some ⟨UInt32.ofNat (a * 2 ^ 24 + b * 2 ^ 16 + c * 2 ^ 8 + d)⟩
  | _ => none

def parseIp (value : List Char) (n : ℕ) : Except String Ipv4Addr :=
  match parseString value n with
  | .error e => .error e
  | .ok s =>
      match ipOfText s.toList with
      | some ip => .ok ip
      | none => .error (err n ("invalid IPv4 address `" ++ s ++ "`"))

/-- The address and the prefix length that a text spells. -/
def cidrOfText (l : List Char) : Option (Ipv4Addr × UInt8) :=
  let ip := l.takeWhile (· ≠ '/')
  match l.dropWhile (· ≠ '/') with
  | [] => none
  | _ :: len =>
      match ipOfText ip, parseDecimal 256 len with
      | some ip, some len => if len ≤ 32 then some (ip, UInt8.ofNat len) else none
      | _, _ => none

/-- An address with its prefix length as it is written. -/
def cidrText (ip : Ipv4Addr) (len : UInt8) : List Char :=
  ipText ip ++ '/' :: decimal len.toNat

def parseCidr (value : List Char) (n : ℕ) : Except String (Ipv4Addr × UInt8) :=
  match parseString value n with
  | .error e => .error e
  | .ok s =>
      match cidrOfText s.toList with
      | some a => .ok a
      | none => .error (err n ("invalid address `" ++ s ++ "` (expected A.B.C.D/N)"))

/-! ### Records and grammars -/

scoped instance neZero_strs : NeZero 6 := ⟨by decide⟩

scoped instance neZero_bools : NeZero 4 := ⟨by decide⟩

/-- How the value of a key is read, and where the record keeps it. -/
inductive Key where
  | str (i : Fin 6)
  | bool (i : Fin 4)
  | int
  | idle
  | proto
  | transport
  | ip
  | cidr
  | strList
deriving DecidableEq

/-- A table in progress. -/
structure Record where
  strs : Fin 6 → Option String
  bools : Fin 4 → Option Bool
  int : Option UInt16
  idle : Option UInt32
  proto : Option Proto
  transport : Option Transport
  ip : Option Ipv4Addr
  address : Option (Ipv4Addr × UInt8)
  allow : Option (List String)

namespace Record

def default : Record where
  strs := fun _ => none
  bools := fun _ => none
  int := none
  idle := none
  proto := none
  transport := none
  ip := none
  address := none
  allow := none

def set (r : Record) (key : Key) (value : List Char) (n : ℕ) : Except String Record :=
  match key with
  | .str i =>
      (parseString value n).map fun s => { r with strs := Function.update r.strs i (some s) }
  | .bool i =>
      (parseBool value n).map fun b => { r with bools := Function.update r.bools i (some b) }
  | .int => (parseInt value n).map fun v => { r with int := some v }
  | .idle =>
      match parseU32 value n with
      | .error e => .error e
      | .ok secs =>
          if secs = 0 then .error (err n "`idle` must be at least 1 second")
          else .ok { r with idle := some secs }
  | .proto => (parseProto value n).map fun p => { r with proto := some p }
  | .transport => (parseTransport value n).map fun t => { r with transport := some t }
  | .ip => (parseIp value n).map fun ip => { r with ip := some ip }
  | .cidr => (parseCidr value n).map fun a => { r with address := some a }
  | .strList => (parseStringList value n).map fun l => { r with allow := some l }

/-- A string that the table requires. -/
def required (r : Record) (i : Fin 6) (n : ℕ) (missing : String) : Except String String :=
  match r.strs i with
  | some s => .ok s
  | none => .error (err n missing)

end Record

/-- One table of a grammar: its header as written inside the outer brackets, its name in
errors, whether it may appear once only, and its keys. -/
structure TableDef where
  header : String
  label : String
  single : Bool
  keys : List (String × Key)
deriving DecidableEq

abbrev Grammar : Type :=
  List TableDef

/-- The kind of a key of a table. -/
def TableDef.kind (t : TableDef) (key : List Char) : Option Key :=
  (t.keys.find? fun p => p.1.toList = key).map Prod.snd

/-- The table with a header, and its position. -/
def Grammar.lookup (g : Grammar) (header : List Char) : Option (ℕ × TableDef) :=
  (g.zipIdx.find? fun p => p.1.header.toList = header).map fun p => (p.2, p.1)

/-! ### Parsing -/

section Parsing

variable {σ : Type} (g : Grammar) (close : σ → ℕ → Record → ℕ → Except String σ)

/-- How far the parser is: the table it is in, the tables that may not appear again, the
record and its keys, and what has been closed. -/
structure Progress (σ : Type) where
  current : Option (ℕ × TableDef)
  seen : List ℕ
  record : Record
  keys : List (List Char)
  acc : σ

/-- Close the table that the parser is in. -/
def closeCurrent (n : ℕ) (p : Progress σ) : Except String σ :=
  match p.current with
  | some (i, _) => close p.acc i p.record n
  | none => .ok p.acc

/-- A table header closes the table before it. -/
def parseHeader (n : ℕ) (header : List Char) (p : Progress σ) : Except String (Progress σ) := do
  let acc ← closeCurrent close n p
  if header.getLast? = some ']' then
    let name := header.dropLast
    match g.lookup name with
    | none => .error (err n ("unknown table header [" ++ String.ofList name ++ "]"))
    | some (i, t) =>
        if t.single ∧ i ∈ p.seen then
          .error (err n ("duplicate " ++ t.label ++ " table"))
        else
          .ok ⟨some (i, t), if t.single then i :: p.seen else p.seen, Record.default, [], acc⟩
  else .error (err n "unterminated table header")

/-- A key and its value. -/
def parseKv (n : ℕ) (line : List Char) (p : Progress σ) : Except String (Progress σ) :=
  match splitKv line with
  | none => .error (err n "expected key = value")
  | some (key, value) =>
      if key = [] ∨ key.any isWhitespace then .error (err n "invalid key")
      else
        match p.current with
        | none =>
            .error (err n ("key `" ++ String.ofList key ++ "` before any table header"))
        | some (_, t) =>
            if key ∈ p.keys then
              .error (err n ("duplicate key `" ++ String.ofList key ++ "`"))
            else
              match t.kind key with
              | none =>
                  .error (err n ("unknown key `" ++ String.ofList key ++ "` in " ++ t.label))
              | some k =>
                  (p.record.set k value n).map fun r =>
                    { p with record := r, keys := key :: p.keys }

def parseLine (n : ℕ) (raw : List Char) (p : Progress σ) : Except String (Progress σ) :=
  match trim (stripComment raw) with
  | [] => .ok p
  | '[' :: header => parseHeader g close n header p
  | line => parseKv n line p

def parseLines : ℕ → List (List Char) → Progress σ → Except String (Progress σ)
  | _, [], p => .ok p
  | n, raw :: rest, p =>
      match parseLine g close (n + 1) raw p with
      | .error e => .error e
      | .ok p => parseLines (n + 1) rest p

/-- Read a text against a grammar. -/
def parseTables (init : σ) (text : List Char) : Except String σ :=
  match parseLines g close 0 (lines text) ⟨none, [], Record.default, [], init⟩ with
  | .error e => .error e
  | .ok p => closeCurrent close (lines text).length p

end Parsing

end Config

end ZeroNat

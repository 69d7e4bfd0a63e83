import ZeroNat.Config.Lexer

/-!
# Bencode

The encoding of the messages of the distributed hash table: integers, byte strings, lists,
and dictionaries kept sorted by key.  The decoder takes one value off the front of a datagram
and tolerates what follows it.
-/

namespace ZeroNat.Dht

open Config

/-! ### Decimal numbers -/

/-- An integer as it is written. -/
def i64Text (n : Int64) : List Char :=
  if n.toInt < 0 then '-' :: decimal n.toInt.natAbs else decimal n.toInt.natAbs

/-- An integer of ASCII digits with or without a sign, when it is in range. -/
def parseI64 (text : List Char) : Option Int64 :=
  match text with
  | '-' :: digits =>
      if digits.head? = some '+' then none
      else (parseDecimal (2 ^ 63 + 1) digits).map fun v : ℕ => Int64.ofInt (-v)
  | _ => (parseDecimal (2 ^ 63) text).map fun v : ℕ => Int64.ofInt v

/-- An integer is read back. -/
theorem parseI64_i64Text (n : Int64) :
  parseI64 (i64Text n) = some n
  := by
  have hlow : -2 ^ 63 ≤ n.toInt := n.le_toInt
  have hhigh : n.toInt < 2 ^ 63 := n.toInt_lt
  have hdigit : ∀ {c : Char} {v : ℕ} {rest : List Char}, decimal v = c :: rest
      → c.isDigit = true := by
    intro c v rest heq
    exact isDigit_of_mem_decimal (n := v) (by rw [heq]; exact List.mem_cons_self)
  rw [i64Text]
  split
  · rename_i hneg
    have hplus : (decimal n.toInt.natAbs).head? ≠ some '+' := by
      intro h
      obtain ⟨rest, heq⟩ := List.head?_eq_some_iff.mp h
      exact absurd (hdigit heq) (by decide)
    rw [parseI64, if_neg hplus, parseDecimal_decimal (by omega), Option.map_some,
      Option.some.injEq]
    have habs : -(n.toInt.natAbs : ℤ) = n.toInt := by omega
    rw [habs, Int64.ofInt_toInt]
  · rename_i hneg
    have hminus : ∀ rest, decimal n.toInt.natAbs ≠ '-' :: rest := by
      intro rest heq
      exact absurd (hdigit heq) (by decide)
    unfold parseI64
    split
    · rename_i rest heq
      exact absurd heq (hminus rest)
    · rw [parseDecimal_decimal (by omega), Option.map_some, Option.some.injEq]
      have habs : (n.toInt.natAbs : ℤ) = n.toInt := by omega
      rw [habs, Int64.ofInt_toInt]

/-- There are no blanks around an integer. -/
theorem trim_i64Text (n : Int64) :
  trim (i64Text n) = i64Text n
  := by
  have hgraphic : ∀ c ∈ i64Text n, isWhitespace c = false := by
    have hdecimal : ∀ c ∈ decimal n.toInt.natAbs, isWhitespace c = false := by
      intro c hc
      have hbounds := isDigit_bounds (isDigit_of_mem_decimal hc)
      exact isWhitespace_of_bounds ⟨by omega, by omega⟩
    rw [i64Text]
    split
    · simp only [List.mem_cons, forall_eq_or_imp]
      exact ⟨by decide, hdecimal⟩
    · exact hdecimal
  have hne : i64Text n ≠ [] := by
    rw [i64Text]
    split
    · simp
    · exact decimal_ne_nil _
  apply trim_eq_self
  · exact ⟨_, List.head?_eq_some_head hne, hgraphic _ (List.head_mem hne)⟩
  · exact ⟨_, List.getLast?_eq_some_getLast hne, hgraphic _ (List.getLast_mem hne)⟩

/-- The characters of a text of ASCII bytes.  A byte outside of ASCII gives a character that
no number contains. -/
def asciiText (b : List UInt8) : List Char :=
  b.map fun x => Char.ofNat x.toNat

/-- The bytes of a text of ASCII characters. -/
def asciiBytes (text : List Char) : List UInt8 :=
  text.map fun c => UInt8.ofNat c.toNat

/-! ### Values -/

inductive Ben where
  | int (n : Int64)
  | bytes (b : List UInt8)
  | list (items : List Ben)
  | dict (entries : List (List UInt8 × Ben))

/-- The entries of a dictionary, sorted by key with no key repeated. -/
abbrev Dict : Type := List (List UInt8 × Ben)

namespace Dict

/-- Set a key, replacing the value it already holds.  On sorted entries the binary search of
the source finds the place this walk stops at. -/
def insert (key : List UInt8) (value : Ben) : Dict → Dict
  | [] => [(key, value)]
  | (k, v) :: rest =>
      if k = key then (k, value) :: rest
      else if key < k then (key, value) :: (k, v) :: rest
      else (k, v) :: insert key value rest

/-- The value of a key. -/
def value? (key : List UInt8) (d : Dict) : Option Ben :=
  (List.find? (fun e => e.1 = key) d).map Prod.snd

end Dict

namespace Ben

def bytes? : Ben → Option (List UInt8)
  | bytes b => some b
  | _ => none

def int? : Ben → Option Int64
  | int n => some n
  | _ => none

/-- Look up a key in a dictionary. -/
def get (key : List UInt8) : Ben → Option Ben
  | dict d => Dict.value? key d
  | _ => none

end Ben

/-! ### Encoding -/

/-- A byte string after its length and a colon. -/
def encodeBytes (b : List UInt8) : List UInt8 :=
  asciiBytes (decimal b.length) ++ UInt8.ofNat ':'.toNat :: b

mutual

def Ben.encode : Ben → List UInt8
  | .int n => UInt8.ofNat 'i'.toNat :: (asciiBytes (i64Text n) ++ [UInt8.ofNat 'e'.toNat])
  | .bytes b => encodeBytes b
  | .list items => UInt8.ofNat 'l'.toNat :: (encodeItems items ++ [UInt8.ofNat 'e'.toNat])
  | .dict entries => UInt8.ofNat 'd'.toNat :: (encodeEntries entries ++ [UInt8.ofNat 'e'.toNat])

def encodeItems : List Ben → List UInt8
  | [] => []
  | item :: items => item.encode ++ encodeItems items

def encodeEntries : List (List UInt8 × Ben) → List UInt8
  | [] => []
  | (key, value) :: entries => encodeBytes key ++ value.encode ++ encodeEntries entries

end

/-! ### Decoding -/

/-- A byte string after its length and a colon, and what follows it. -/
def parseBytes (buf : List UInt8) : Option (List UInt8 × List UInt8) := do
  let colon ← buf.idxOf? (UInt8.ofNat ':'.toNat)
  let len ← parseDecimal (2 ^ 64) (asciiText (buf.take colon))
  let start := colon + 1
  if buf.length < start + len then none
  else some ((buf.drop start).take len, buf.drop (start + len))

mutual

/-- Take one value off the front.  A value and each entry of a list or a dictionary use up one
unit of fuel. -/
def parseWith : ℕ → List UInt8 → Option (Ben × List UInt8)
  | 0, _ => none
  | fuel + 1, buf =>
      match buf with
      | [] => none
      | b :: rest =>
          if b = UInt8.ofNat 'i'.toNat then do
            let stop ← buf.idxOf? (UInt8.ofNat 'e'.toNat)
            let n ← parseI64 (asciiText ((buf.take stop).drop 1))
            some (.int n, buf.drop (stop + 1))
          else if b = UInt8.ofNat 'l'.toNat then do
            let (items, rest) ← parseItems fuel rest
            some (.list items, rest)
          else if b = UInt8.ofNat 'd'.toNat then do
            let (entries, rest) ← parseEntries fuel [] rest
            some (.dict entries, rest)
          else if UInt8.ofNat '0'.toNat ≤ b ∧ b ≤ UInt8.ofNat '9'.toNat then do
            let (b, rest) ← parseBytes buf
            some (.bytes b, rest)
          else none

/-- The items of a list, up to its end mark. -/
def parseItems : ℕ → List UInt8 → Option (List Ben × List UInt8)
  | 0, _ => none
  | fuel + 1, buf =>
      match buf with
      | [] => none
      | b :: rest =>
          if b = UInt8.ofNat 'e'.toNat then some ([], rest)
          else do
            let (item, rest) ← parseWith fuel buf
            let (items, rest) ← parseItems fuel rest
            some (item :: items, rest)

/-- The entries of a dictionary, up to its end mark, put into the ones that were read
before. -/
def parseEntries : ℕ → Dict → List UInt8 → Option (Dict × List UInt8)
  | 0, _, _ => none
  | fuel + 1, map, buf =>
      match buf with
      | [] => none
      | b :: rest =>
          if b = UInt8.ofNat 'e'.toNat then some (map, rest)
          else do
            let (key, rest) ← parseBytes buf
            let (value, rest) ← parseWith fuel rest
            parseEntries fuel (Dict.insert key value map) rest

end

/-- Take one value off the front.  Every value takes at least one byte, so that twice the bytes
are fuel enough. -/
def parse (buf : List UInt8) : Option (Ben × List UInt8) :=
  parseWith (2 * buf.length + 1) buf

/-- Decode one value from the front. -/
def decode (buf : List UInt8) : Option Ben :=
  (parse buf).map Prod.fst

end ZeroNat.Dht

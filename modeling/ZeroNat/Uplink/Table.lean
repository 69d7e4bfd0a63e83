import Mathlib.Data.List.Basic
import ZeroNat.Config.Lexer
import ZeroNat.Lib.BigEndian
import ZeroNat.Net

/-!
# The IPv4 route table

The text of the route table of the kernel, with a header and one row a line, and the scans of it:
the default routes outside of an interface, the best of them, and whether an address is reached
more specifically than by half of the address space.  Rows that cannot be read are passed over.
-/

open BigEndian

namespace ZeroNat.Uplink

open Config

/-! ### Reading the columns -/

/-- The columns of a row; nothing for a row short of the eleven the kernel writes. -/
def routeFields (line : List Char) : Option (List (List Char)) :=
  let f := splitWhitespace line
  if 11 ≤ f.length then some f else none

/-- The value of a hexadecimal digit. -/
def hexDigit (c : Char) : Option ℕ :=
  if '0' ≤ c ∧ c ≤ '9' then some (c.toNat - '0'.toNat)
  else if 'a' ≤ c ∧ c ≤ 'f' then some (c.toNat - 'a'.toNat + 10)
  else if 'A' ≤ c ∧ c ≤ 'F' then some (c.toNat - 'A'.toNat + 10)
  else none

/-- A hexadecimal number, of digits with or without a leading plus sign, in 32 bits. -/
def fromStrRadix16 (text : List Char) : Option UInt32 := do
  let digits := match text with
    | '+' :: rest => rest
    | _ => text
  if digits = [] then none
  let values ← digits.mapM hexDigit
  let n := values.foldl (fun n d => 16 * n + d) 0
  if n < 2 ^ 32 then some (UInt32.ofNat n) else none

def parseU32Column (text : List Char) : Option UInt32 :=
  (parseDecimal (2 ^ 32) text).map UInt32.ofNat

/-- The address of a column, which is spelled with its first octet last. -/
def leHexToIpv4 (le : UInt32) : Ipv4Addr :=
  ⟨UInt32.ofNat (ofBe (toBe 4 le.toNat).reverse)⟩

/-- The flag of a route through a gateway. -/
def rtfGateway : UInt32 := 2

/-- The ones at the front of a mask. -/
def leadingOnes (mask : UInt32) : ℕ :=
  ((List.range 32).takeWhile fun i => mask.toNat.testBit (31 - i)).length

/-- The mask of a length. -/
def netmask (plen : ℕ) : UInt32 :=
  UInt32.ofNat (2 ^ 32 - 2 ^ (32 - min plen 32))

/-! ### Scanning the table -/

/-- A default route as it was found. -/
structure CapturedDefault where
  gateway : Ipv4Addr
  iface : List Char
  metric : UInt32
deriving DecidableEq

/-- The columns that every scan of the defaults reads, when they can be read. -/
def readDefault (f : List (List Char)) (requireGateway : Bool) : Option CapturedDefault := do
  let dest ← fromStrRadix16 (f.getD 1 [])
  let flags ← fromStrRadix16 (f.getD 3 [])
  let metric ← parseU32Column (f.getD 6 [])
  let mask ← fromStrRadix16 (f.getD 7 [])
  if dest ≠ 0 ∨ mask ≠ 0 then none
  if requireGateway ∧ flags &&& rtfGateway = 0 then none
  let gateway ← fromStrRadix16 (f.getD 2 [])
  some ⟨leHexToIpv4 gateway, f.getD 0 [], metric⟩

/-- Every default route outside of an interface, in the order of the file. -/
def scanDefaults (contents skipIface : List Char) (requireGateway : Bool) :
    List CapturedDefault :=
  ((lines contents).drop 1).filterMap fun line => do
    let f ← routeFields line
    if f.getD 0 [] = skipIface then none
    readDefault f requireGateway

/-- The default route of the lowest metric, the first in the file among equals. -/
def parseDefault (contents skipIface : List Char) (requireGateway : Bool) :
    Option CapturedDefault :=
  (scanDefaults contents skipIface requireGateway).foldl (fun best d =>
    match best with
    | none => some d
    | some b => if d.metric < b.metric then some d else some b) none

def parseProcRoute (contents tunName : List Char) : Option CapturedDefault :=
  parseDefault contents tunName true

def defaultRouteIface (contents skipIface : List Char) : Option (List Char) :=
  (parseDefault contents skipIface false).map CapturedDefault.iface

def parseAllDefaults (contents skipIface : List Char) : List CapturedDefault :=
  scanDefaults contents skipIface false

/-- Whether some row outside of an interface reaches an address more specifically than half of
the address space. -/
def coveredBeyondHalf (contents skipIface : List Char) (addr : Ipv4Addr) : Bool :=
  ((lines contents).drop 1).any fun line =>
    match routeFields line with
    | none => false
    | some f =>
        if f.getD 0 [] = skipIface then false
        else match fromStrRadix16 (f.getD 1 []), fromStrRadix16 (f.getD 7 []) with
          | some d, some m =>
              let dest := (leHexToIpv4 d).bits
              let mask := (leHexToIpv4 m).bits
              1 < leadingOnes mask ∧ addr.bits &&& mask = dest
          | _, _ => false

/-! ### Routes -/

/-- A route: the kernel tells routes apart by these fields. -/
structure Route where
  dst : Ipv4Addr
  plen : ℕ
  metric : UInt32
  gw : Option Ipv4Addr
  dev : List Char
deriving DecidableEq

/-- Whether a route reaches an address. -/
def Route.Reaches (r : Route) (a : Ipv4Addr) : Prop :=
  a.bits &&& netmask r.plen = r.dst.bits

instance (a : Ipv4Addr) : DecidablePred fun r : Route => r.Reaches a := fun _ =>
  inferInstanceAs (Decidable (_ = _))

def Route.IsDefault (r : Route) : Prop :=
  r.dst = ⟨0⟩ ∧ r.plen = 0

instance : DecidablePred Route.IsDefault := fun _ =>
  inferInstanceAs (Decidable (_ ∧ _))

/-- A row of the table: a route with the columns that no scan reads.  Interfaces have names
without white space, and a gateway is flagged and is not the unspecified address. -/
structure Row extends Route where
  flags : UInt16
  refCnt : ℕ
  used : ℕ
  mtu : ℕ
  window : ℕ
  irtt : ℕ
  named : dev ≠ [] ∧ ∀ c ∈ dev, isWhitespace c = false
  plen_le : plen ≤ 32
  flagged : flags.toUInt32 &&& rtfGateway ≠ 0 ↔ gw ≠ none
  specified : gw ≠ some ⟨0⟩

/-- The row of a network on the link. -/
def Row.onLink (dst : Ipv4Addr) (plen : ℕ) (dev : List Char)
    (named : dev ≠ [] ∧ ∀ c ∈ dev, isWhitespace c = false) (plen_le : plen ≤ 32) : Row where
  dst := dst
  plen := plen
  metric := 0
  gw := none
  dev := dev
  flags := 1
  refCnt := 0
  used := 0
  mtu := 0
  window := 0
  irtt := 0
  named := named
  plen_le := plen_le
  flagged := by decide
  specified := by decide

/-- A default by a gateway, as a home network has it. -/
def Row.home : Row where
  dst := ⟨0⟩
  plen := 0
  metric := 100
  gw := some ⟨0x0a000001⟩
  dev := "eth0".toList
  flags := 3
  refCnt := 0
  used := 0
  mtu := 0
  window := 0
  irtt := 0
  named := by simp [isWhitespace]
  plen_le := by decide
  flagged := by decide
  specified := by decide

/-! ### The text of the table -/

def hexChar (d : ℕ) : Char :=
  if d < 10 then Char.ofNat ('0'.toNat + d) else Char.ofNat ('A'.toNat + (d - 10))

/-- A number in hexadecimal digits. -/
def hexText : ℕ → ℕ → List Char
  | 0, _ => []
  | w + 1, n => hexText w (n / 16) ++ [hexChar (n % 16)]

/-- An address column. -/
def addrText (bits : UInt32) : List Char :=
  hexText 8 (leHexToIpv4 bits).bits.toNat

def Row.columns (r : Row) : List (List Char) :=
  [r.dev, addrText r.dst.bits, addrText (r.gw.getD ⟨0⟩).bits, hexText 4 r.flags.toNat,
    decimal r.refCnt, decimal r.used, decimal r.metric.toNat, addrText (netmask r.plen),
    decimal r.mtu, decimal r.window, decimal r.irtt]

/-- A row as it is written, filled up with blanks to the width of the table. -/
def Row.line (r : Row) : List Char :=
  let text := ['\t'].intercalate r.columns
  text ++ List.replicate (127 - text.length) ' '

def header : List Char :=
  "Iface\tDestination\tGateway \tFlags\tRefCnt\tUse\tMetric\tMask\t\tMTU\tWindow\tIRTT".toList

/-- The text of a table. -/
def render (rows : List Row) : List Char :=
  header ++ '\n' :: rows.flatMap fun r => r.line ++ ['\n']

/-! ### What is written is read -/

theorem hexDigit_hexChar {d : ℕ} (h : d < 16) :
  hexDigit (hexChar d) = some d
  := by
  interval_cases d <;> decide

theorem hexChar_bounds {d : ℕ} (h : d < 16) :
  0x30 ≤ (hexChar d).toNat ∧ (hexChar d).toNat ≤ 0x46
  := by
  interval_cases d <;> decide

theorem bounds_of_mem_hexText {w n : ℕ} {c : Char} (h : c ∈ hexText w n) :
  0x30 ≤ c.toNat ∧ c.toNat ≤ 0x46
  := by
  induction w generalizing n with
  | zero => simp [hexText] at h
  | succ w ih =>
      rw [hexText, List.mem_append, List.mem_singleton] at h
      obtain h | rfl := h
      · exact ih h
      · exact hexChar_bounds (Nat.mod_lt _ (by decide))

/-- The digits of a number spell it. -/
theorem mapM_hexText (w n : ℕ) :
  ∃ values, (hexText w n).mapM hexDigit = some values ∧
    values.foldl (fun n d => 16 * n + d) 0 = n % 16 ^ w
  := by
  induction w generalizing n with
  | zero => exact ⟨[], rfl, by simp [Nat.mod_one]⟩
  | succ w ih =>
      obtain ⟨values, hvalues, hn⟩ := ih (n / 16)
      refine ⟨values ++ [n % 16], ?_, ?_⟩
      · rw [hexText, List.mapM_append, hvalues]
        simp [hexDigit_hexChar (Nat.mod_lt n (show 0 < 16 by decide))]
      · rw [List.foldl_append, hn, List.foldl_cons, List.foldl_nil, pow_succ', Nat.mod_mul]
        exact Nat.add_comm _ _

theorem hexText_ne_nil {w : ℕ} (h : 0 < w) (n : ℕ) :
  hexText w n ≠ []
  := by
  obtain ⟨v, rfl⟩ := Nat.exists_eq_succ_of_ne_zero h.ne'
  simp [hexText]

/-- A hexadecimal number is read back. -/
theorem fromStrRadix16_hexText {w n : ℕ} (hw : 0 < w) (hn : n < 16 ^ w) (hsize : n < 2 ^ 32) :
  fromStrRadix16 (hexText w n) = some (UInt32.ofNat n)
  := by
  have hplus : (match hexText w n with
      | '+' :: rest => rest
      | _ => hexText w n) = hexText w n := by
    split
    · rename_i rest heq
      have := bounds_of_mem_hexText (w := w) (n := n) (c := '+')
        (by rw [heq]; exact List.mem_cons_self)
      simp at this
    · rfl
  obtain ⟨values, hvalues, hfold⟩ := mapM_hexText w n
  rw [Nat.mod_eq_of_lt hn] at hfold
  unfold fromStrRadix16
  dsimp only
  rw [hplus, if_neg (hexText_ne_nil hw n), hvalues]
  simp only [Option.bind_eq_bind, Option.bind_some, hfold, if_pos hsize]

/-- The octets are reversed twice. -/
theorem leHexToIpv4_leHexToIpv4 (x : UInt32) :
  leHexToIpv4 (leHexToIpv4 x).bits = ⟨x⟩
  := by
  have hlt : ∀ l : List UInt8, l.length = 4 → ofBe l < 2 ^ 32 := by
    intro l hl
    exact ofBe_lt hl
  have hrev : toBe 4 (ofBe (toBe 4 x.toNat).reverse) = (toBe 4 x.toNat).reverse := by
    have := toBe_ofBe (toBe 4 x.toNat).reverse
    rwa [List.length_reverse, length_toBe] at this
  have hmod : ofBe (toBe 4 x.toNat).reverse % 2 ^ 32 = ofBe (toBe 4 x.toNat).reverse :=
    Nat.mod_eq_of_lt (hlt _ (by simp))
  rw [leHexToIpv4, leHexToIpv4]
  dsimp only
  rw [UInt32.toNat_ofNat', hmod, hrev, List.reverse_reverse,
    ofBe_toBe_of_lt (lt_of_lt_of_eq x.toNat_lt (by decide))]
  simp

theorem fromStrRadix16_addrText (bits : UInt32) :
  fromStrRadix16 (addrText bits) = some (leHexToIpv4 bits).bits
  := by
  have hlt := (leHexToIpv4 bits).bits.toNat_lt
  rw [addrText, fromStrRadix16_hexText (by decide) (lt_of_lt_of_eq hlt (by decide)) hlt]
  simp

theorem parseU32Column_decimal (v : UInt32) :
  parseU32Column (decimal v.toNat) = some v
  := by
  rw [parseU32Column, parseDecimal_decimal v.toNat_lt]
  simp

theorem leadingOnes_netmask {plen : ℕ} (h : plen ≤ 32) :
  leadingOnes (netmask plen) = plen
  := by
  interval_cases plen <;> decide

/-! ### What is on a line is split -/

/-- A word of a line. -/
def IsWord (w : List Char) : Prop :=
  w ≠ [] ∧ ∀ c ∈ w, isWhitespace c = false

theorem isWord_hexText {w : ℕ} (h : 0 < w) (n : ℕ) :
  IsWord (hexText w n)
  := by
  refine ⟨hexText_ne_nil h n, ?_⟩
  intro c hc
  have := bounds_of_mem_hexText hc
  exact isWhitespace_of_bounds (by omega)

theorem isWord_decimal (n : ℕ) :
  IsWord (decimal n)
  := by
  refine ⟨decimal_ne_nil n, ?_⟩
  intro c hc
  have := isDigit_bounds (isDigit_of_mem_decimal hc)
  exact isWhitespace_of_bounds (by omega)

theorem splitWhitespace_replicate (n : ℕ) :
  splitWhitespace (List.replicate n ' ') = []
  := by
  induction n with
  | zero => rfl
  | succ n ih =>
      have hblank : isWhitespace ' ' = true := by decide
      rw [splitWhitespace] at ih ⊢
      rw [List.replicate_succ, List.splitOnP_cons_eq_if_modifyHead, if_pos hblank,
        List.filter_cons_of_neg (by simp), ih]

theorem splitWhitespace_append_cons {w : List Char} (hw : IsWord w) {c : Char}
    (hc : isWhitespace c = true) (rest : List Char) :
  splitWhitespace (w ++ c :: rest) = w :: splitWhitespace rest
  := by
  rw [splitWhitespace, List.splitOnP_append_cons_of_forall_mem hw.2 c hc,
    List.filter_cons_of_pos (by simp [hw.1])]
  rfl

/-- A word with blanks after it. -/
theorem splitWhitespace_append_replicate {w : List Char} (hw : IsWord w) (n : ℕ) :
  splitWhitespace (w ++ List.replicate n ' ') = [w]
  := by
  cases n with
  | zero =>
      rw [List.replicate_zero, List.append_nil, splitWhitespace,
        List.splitOnP_eq_singleton hw.2, List.filter_cons_of_pos (by simp [hw.1])]
      rfl
  | succ n =>
      rw [List.replicate_succ, splitWhitespace_append_cons hw (by decide),
        splitWhitespace_replicate]

/-- Words between tabs, with blanks after them. -/
theorem splitWhitespace_intercalate {words : List (List Char)} (h : ∀ w ∈ words, IsWord w)
    (n : ℕ) :
  splitWhitespace (['\t'].intercalate words ++ List.replicate n ' ') = words
  := by
  induction words with
  | nil => exact splitWhitespace_replicate n
  | cons w words ih =>
      have hw := h w List.mem_cons_self
      have ih' := ih fun v hv => h v (List.mem_cons_of_mem _ hv)
      cases words with
      | nil =>
          rw [List.intercalate_singleton]
          exact splitWhitespace_append_replicate hw n
      | cons v words =>
          rw [List.intercalate_cons_cons, List.append_assoc, List.append_assoc,
            List.singleton_append, splitWhitespace_append_cons hw (by decide), ih']

theorem Row.isWord_of_mem_columns {r : Row} {w : List Char} (h : w ∈ r.columns) :
  IsWord w
  := by
  simp only [Row.columns, List.mem_cons, List.not_mem_nil, or_false] at h
  obtain rfl | rfl | rfl | rfl | rfl | rfl | rfl | rfl | rfl | rfl | rfl := h
  · exact r.named
  · exact isWord_hexText (by decide) _
  · exact isWord_hexText (by decide) _
  · exact isWord_hexText (by decide) _
  · exact isWord_decimal _
  · exact isWord_decimal _
  · exact isWord_decimal _
  · exact isWord_hexText (by decide) _
  · exact isWord_decimal _
  · exact isWord_decimal _
  · exact isWord_decimal _

/-- A row is split into its columns. -/
theorem Row.routeFields_line (r : Row) :
  routeFields r.line = some r.columns
  := by
  rw [routeFields, Row.line, splitWhitespace_intercalate fun _ => Row.isWord_of_mem_columns]
  exact if_pos (by simp [Row.columns])

theorem Row.ne_of_mem_line {r : Row} {c : Char} (h : c ∈ r.line) :
  c ≠ '\n' ∧ c ≠ '\r'
  := by
  have hword : isWhitespace c = false → c ≠ '\n' ∧ c ≠ '\r' := by
    intro hc
    constructor
    · rintro rfl
      exact absurd hc (by decide)
    · rintro rfl
      exact absurd hc (by decide)
  have htext : ∀ words : List (List Char), (∀ w ∈ words, IsWord w) →
      c ∈ ['\t'].intercalate words → isWhitespace c = false ∨ c = '\t' := by
    intro words hwords hc
    induction words with
    | nil => simp at hc
    | cons w words ih =>
        have hw := hwords w List.mem_cons_self
        cases words with
        | nil =>
            rw [List.intercalate_singleton] at hc
            exact .inl (hw.2 c hc)
        | cons v words =>
            rw [List.intercalate_cons_cons, List.append_assoc, List.mem_append,
              List.singleton_append, List.mem_cons] at hc
            obtain hc | hc | hc := hc
            · exact .inl (hw.2 c hc)
            · exact .inr hc
            · exact ih (fun u hu => hwords u (List.mem_cons_of_mem _ hu)) hc
  rw [Row.line, List.mem_append] at h
  obtain h | h := h
  · obtain h | rfl := htext r.columns (fun _ => Row.isWord_of_mem_columns) h
    · exact hword h
    · decide
  · rw [List.eq_of_mem_replicate h]
    decide

/-- The lines of a table: the header and the rows. -/
theorem lines_render (rows : List Row) :
  lines (render rows) = header :: rows.map Row.line
  := by
  have hall : header.all (fun c => c.toNat != 0xa && c.toNat != 0xd) = true := by
    decide +kernel
  have hheader : ∀ c ∈ header, c ≠ '\n' ∧ c ≠ '\r' := by
    intro c hc
    have := List.all_eq_true.mp hall c hc
    constructor
    · rintro rfl
      simp at this
    · rintro rfl
      simp at this
  have hrows : lines (rows.flatMap fun r => r.line ++ ['\n']) = rows.map Row.line := by
    induction rows with
    | nil => rfl
    | cons r rows ih =>
        rw [List.flatMap_cons, List.append_assoc, List.singleton_append,
          lines_append_of_ne (fun _ => Row.ne_of_mem_line), ih, List.map_cons]
  rw [render, lines_append_of_ne hheader, hrows]

/-! ### The scans in terms of the rows -/

/-- A default route as a scan captures it. -/
def Route.captured (r : Route) : CapturedDefault :=
  ⟨r.gw.getD ⟨0⟩, r.dev, r.metric⟩

/-- The routes outside of an interface. -/
def outside (skipIface : List Char) (rows : List Row) : List Route :=
  (rows.map Row.toRoute).filter fun r => r.dev ≠ skipIface

theorem leHexToIpv4_eq_zero_iff (x : UInt32) :
  (leHexToIpv4 x).bits = 0 ↔ x = 0
  := by
  constructor
  · intro h
    have := leHexToIpv4_leHexToIpv4 x
    rw [h] at this
    exact (Ipv4Addr.mk.inj this).symm
  · rintro rfl
    decide

theorem netmask_eq_zero_iff {plen : ℕ} (h : plen ≤ 32) :
  netmask plen = 0 ↔ plen = 0
  := by
  constructor
  · intro hmask
    rw [← leadingOnes_netmask h, hmask]
    decide
  · rintro rfl
    decide

theorem Row.isDefault_iff (r : Row) :
  r.IsDefault ↔ (leHexToIpv4 r.dst.bits).bits = 0 ∧ (leHexToIpv4 (netmask r.plen)).bits = 0
  := by
  rw [leHexToIpv4_eq_zero_iff, leHexToIpv4_eq_zero_iff, netmask_eq_zero_iff r.plen_le,
    Route.IsDefault, Ipv4Addr.mk.injEq]

/-- What a scan of the defaults reads from a row. -/
theorem Row.readDefault_columns (r : Row) (requireGateway : Bool) :
  readDefault r.columns requireGateway =
    if r.IsDefault ∧ (requireGateway = true → r.gw ≠ none) then some r.captured else none
  := by
  have hflags : fromStrRadix16 (hexText 4 r.flags.toNat) = some r.flags.toUInt32 := by
    have hlt := r.flags.toNat_lt
    rw [fromStrRadix16_hexText (by decide) (lt_of_lt_of_eq hlt (by decide)) (by omega),
      UInt32.ofNat_uInt16ToNat]
  have hgateway := r.flagged
  have hdefault := r.isDefault_iff
  simp only [readDefault, Row.columns, List.getD_cons_zero, List.getD_cons_succ,
    fromStrRadix16_addrText, hflags, parseU32Column_decimal, Option.bind_eq_bind,
    Option.bind_some, leHexToIpv4_leHexToIpv4]
  by_cases hd : r.IsDefault
  · rw [if_neg (by rw [not_or, not_not, not_not]; exact hdefault.mp hd)]
    by_cases hg : requireGateway = true ∧ r.flags.toUInt32 &&& rtfGateway = 0
    · rw [if_pos hg, Option.bind_none, if_neg fun h => hgateway.mpr (h.2 hg.1) hg.2]
    · rw [if_neg hg, if_pos ⟨hd, fun h => hgateway.mp fun hzero => hg ⟨h, hzero⟩⟩]
      rfl
  · rw [if_pos (not_and_or.mp (mt hdefault.mpr hd)), Option.bind_none, if_neg fun h => hd h.1]

/-- The defaults that a scan of a table captures. -/
theorem scanDefaults_render (rows : List Row) (skipIface : List Char) (requireGateway : Bool) :
  scanDefaults (render rows) skipIface requireGateway =
    ((outside skipIface rows).filter
      fun r => r.IsDefault ∧ (requireGateway = true → r.gw ≠ none)).map Route.captured
  := by
  rw [scanDefaults, lines_render, List.drop_one, List.tail_cons, List.filterMap_map, outside,
    List.filter_filter, List.filter_map, List.map_map, ← List.filterMap_eq_map',
    List.filterMap_filter]
  apply List.filterMap_congr
  intro r _
  rw [Function.comp_apply, r.routeFields_line]
  simp only [Option.bind_eq_bind, Option.bind_some, Row.readDefault_columns, Function.comp_apply,
    Bool.and_eq_true, decide_eq_true_eq]
  have hdev : r.columns.getD 0 [] = r.dev := rfl
  rw [hdev]
  by_cases hskip : r.dev = skipIface
  · rw [if_pos hskip, Option.bind_none, if_neg fun h => h.2 hskip]
  · rw [if_neg hskip]
    by_cases h : r.IsDefault ∧ (requireGateway = true → r.gw ≠ none)
    · rw [if_pos h, if_pos ⟨h, hskip⟩]
    · rw [if_neg h, if_neg fun h' => h h'.1]

/-- Whether an address is reached beyond half, in terms of the rows. -/
theorem coveredBeyondHalf_render (rows : List Row) (skipIface : List Char) (addr : Ipv4Addr) :
  coveredBeyondHalf (render rows) skipIface addr = true ↔
    ∃ r ∈ outside skipIface rows, 1 < r.plen ∧ r.Reaches addr
  := by
  rw [coveredBeyondHalf, lines_render, List.drop_one, List.tail_cons, List.any_map,
    List.any_eq_true]
  simp only [outside, List.mem_filter, List.mem_map, and_assoc, exists_exists_and_eq_and,
    decide_eq_true_eq]
  apply exists_congr
  intro r
  apply and_congr_right
  intro _
  rw [Function.comp_apply, r.routeFields_line]
  simp only [Row.columns, List.getD_cons_zero, List.getD_cons_succ, fromStrRadix16_addrText,
    leHexToIpv4_leHexToIpv4, leadingOnes_netmask r.plen_le]
  by_cases hskip : r.dev = skipIface
  · simp [hskip]
  · rw [if_neg hskip, decide_eq_true_iff]
    exact ⟨fun h => ⟨hskip, h⟩, fun h => h.2⟩

end ZeroNat.Uplink

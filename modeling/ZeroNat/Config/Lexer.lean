import Mathlib.Algebra.Group.Nat.Defs
import Mathlib.Data.List.DropRight

/-!
# The lexer of config files

The part of the config codec that knows no tables and no keys: lines, comments, the split of
a line at its first equals sign, scalars, and the quoting of strings.  A text is a list of
characters.  An error is a message.
-/

namespace ZeroNat.Config

/-- An error at a line. -/
def err (line : ℕ) (msg : String) : String :=
  "config line " ++ toString line ++ ": " ++ msg

/-! ### Lines and blanks -/

/-- The white space of Unicode. -/
def isWhitespace (c : Char) : Bool :=
  let n := c.toNat
  (0x9 ≤ n && n ≤ 0xd) || n == 0x20 || n == 0x85 || n == 0xa0 || n == 0x1680
    || (0x2000 ≤ n && n ≤ 0x200a) || n == 0x2028 || n == 0x2029 || n == 0x202f || n == 0x205f
    || n == 0x3000

def trimStart (l : List Char) : List Char :=
  l.dropWhile isWhitespace

def trimEnd (l : List Char) : List Char :=
  l.rdropWhile isWhitespace

def trim (l : List Char) : List Char :=
  trimEnd (trimStart l)

def stripPrefix (front l : List Char) : Option (List Char) :=
  if front <+: l then some (l.drop front.length) else none

/-- The words between white space. -/
def splitWhitespace (line : List Char) : List (List Char) :=
  (line.splitOnP isWhitespace).filter (· ≠ [])

/-- The lines of a text, each without its line feed and a carriage return before it. -/
def lines : List Char → List (List Char)
  | [] => []
  | '\n' :: text => [] :: lines text
  | '\r' :: '\n' :: text => [] :: lines text
  | c :: text =>
      match lines text with
      | [] => [[c]]
      | l :: ls => (c :: l) :: ls

/-! ### Scanning a line -/

/-- What is before and after the first `stop` outside of a quoted string.  `inStr` and
`escaped` say where the scan is. -/
def scanTo (stop : Char) (inStr escaped : Bool) : List Char → Option (List Char × List Char)
  | [] => none
  | c :: rest =>
      if inStr then
        if escaped then (scanTo stop true false rest).map fun p => (c :: p.1, p.2)
        else if c = '\\' then (scanTo stop true true rest).map fun p => (c :: p.1, p.2)
        else if c = '"' then (scanTo stop false false rest).map fun p => (c :: p.1, p.2)
        else (scanTo stop true false rest).map fun p => (c :: p.1, p.2)
      else if c = '"' then (scanTo stop true escaped rest).map fun p => (c :: p.1, p.2)
      else if c = stop then some ([], rest)
      else (scanTo stop false escaped rest).map fun p => (c :: p.1, p.2)

/-- Drop a comment that begins outside of a quoted string. -/
def stripComment (line : List Char) : List Char :=
  match scanTo '#' false false line with
  | none => line
  | some (before, _) => before

/-- Split a line at the first equals sign outside of a quoted string. -/
def splitKv (line : List Char) : Option (List Char × List Char) :=
  (scanTo '=' false false line).map fun p => (trim p.1, trim p.2)

/-! ### Scalars -/

inductive Scalar where
  | str (s : String)
  | int (n : ℕ)
  | bool (b : Bool)
deriving DecidableEq

/-- The rest of a quoted string after its opening quote: what it holds, and what follows its
closing quote. -/
def lexBody (n : ℕ) : List Char → Except String (List Char × List Char)
  | [] => .error (err n "unterminated string")
  | '"' :: rest => .ok ([], rest)
  | ['\\'] => .error (err n "unterminated string")
  | '\\' :: esc :: rest =>
      if esc = '"' ∨ esc = '\\' then (lexBody n rest).map fun p => (esc :: p.1, p.2)
      else .error (err n ("invalid string escape `\\" ++ String.singleton esc ++ "`"))
  | c :: rest =>
      if c.toNat < 0x20 then .error (err n "control character in string")
      else (lexBody n rest).map fun p => (c :: p.1, p.2)

/-- Lex one leading quoted string. -/
def lexString (value : List Char) (n : ℕ) : Except String (String × List Char) :=
  match value with
  | '"' :: rest => (lexBody n rest).map fun p => (String.ofList p.1, p.2)
  | _ => .error (err n "expected a quoted string")

/-- A decimal number, of ASCII digits with or without a leading plus sign, below a bound. -/
def parseDecimal (bound : ℕ) (value : List Char) : Option ℕ :=
  let digits := match value with
    | '+' :: rest => rest
    | _ => value
  if digits ≠ [] ∧ digits.all Char.isDigit then
    let v := Nat.ofDigitChars 10 digits 0
    if v < bound then some v else none
  else none

/-- Lex one scalar from a value that has been trimmed. -/
def lexScalar (value : List Char) (n : ℕ) : Except String Scalar :=
  if value = "true".toList ∨ value = "false".toList then
    .ok (.bool (value = "true".toList))
  else if value.head? = some '"' then
    match lexString value n with
    | .error e => .error e
    | .ok (out, rest) =>
        if trim rest = [] then .ok (.str out)
        else .error (err n "trailing characters after string value")
  else
    match parseDecimal (2 ^ 64) value with
    | some v => .ok (.int v)
    | none => .error (err n ("invalid integer `" ++ String.ofList value ++ "`"))

def parseString (value : List Char) (n : ℕ) : Except String String :=
  match lexScalar value n with
  | .error e => .error e
  | .ok (.str s) => .ok s
  | .ok _ => .error (err n "expected a string value")

/-- The entries of a list of quoted strings, after the opening bracket and without the closing
one.  The fuel is the length of the text: every entry takes a character at least. -/
def parseEntries (n : ℕ) : ℕ → List Char → Except String (List String)
  | 0, _ => .ok []
  | fuel + 1, rest =>
      if rest = [] then .ok []
      else
        match lexString rest n with
        | .error e => .error e
        | .ok (s, after) =>
            match trimStart after with
            | ',' :: tail => (parseEntries n fuel (trimStart tail)).map fun l => s :: l
            | [] => .ok [s]
            | _ => .error (err n "expected `,` between list entries")

/-- A list of quoted strings in brackets. -/
def parseStringList (value : List Char) (n : ℕ) : Except String (List String) :=
  match value with
  | '[' :: rest =>
      if rest.getLast? = some ']' then
        parseEntries n rest.length (trimStart rest.dropLast)
      else .error (err n "expected a list of quoted strings")
  | _ => .error (err n "expected a list of quoted strings")

/-- A bare integer that is not greater than a bound. -/
def parseBounded (value : List Char) (n max : ℕ) : Except String ℕ :=
  match lexScalar value n with
  | .error e => .error e
  | .ok (.int v) =>
      if v ≤ max then .ok v else .error (err n ("invalid integer `" ++ toString v ++ "`"))
  | .ok _ => .error (err n "expected an integer value")

def parseInt (value : List Char) (n : ℕ) : Except String UInt16 :=
  (parseBounded value n (2 ^ 16 - 1)).map UInt16.ofNat

def parseU32 (value : List Char) (n : ℕ) : Except String UInt32 :=
  (parseBounded value n (2 ^ 32 - 1)).map UInt32.ofNat

def parseBool (value : List Char) (n : ℕ) : Except String Bool :=
  match lexScalar value n with
  | .error e => .error e
  | .ok (.bool b) => .ok b
  | .ok _ => .error (err n "expected a boolean value")

/-! ### Writing -/

/-- A character of a quoted string. -/
def escape (c : Char) : List Char :=
  if c = '"' then ['\\', '"']
  else if c = '\\' then ['\\', '\\']
  else [c]

/-- A string in quotes. -/
def quote (s : String) : List Char :=
  '"' :: s.toList.flatMap escape ++ ['"']

/-- Append a key and a value as it is written. -/
def kvRaw (out : List Char) (key : String) (value : List Char) : List Char :=
  out ++ key.toList ++ " = ".toList ++ value ++ ['\n']

def kvQuoted (out : List Char) (key value : String) : List Char :=
  kvRaw out key (quote value)

def decimal (n : ℕ) : List Char :=
  Nat.toDigits 10 n

def kvNum (out : List Char) (key : String) (n : ℕ) : List Char :=
  kvRaw out key (decimal n)

/-- A truth value as it is written. -/
def flag (b : Bool) : List Char :=
  if b then "true".toList else "false".toList

def kvBool (out : List Char) (key : String) (b : Bool) : List Char :=
  kvRaw out key (flag b)

/-- Start a table: an empty line after what is there, then the header. -/
def table (out : List Char) (header : String) : List Char :=
  (if out = [] then [] else out ++ ['\n']) ++ header.toList ++ ['\n']

/-! ### What is written is read -/

/-- A string that a config file can hold: it has no control characters. -/
def Printable (s : String) : Prop :=
  ∀ c ∈ s.toList, 0x20 ≤ c.toNat

instance : DecidablePred Printable := fun s =>
  List.decidableBAll (fun c : Char => 0x20 ≤ c.toNat) s.toList

/-- The value of a key as it is written: a text on one line, without blanks at its ends and
without a comment. -/
structure Written (v : List Char) : Prop where
  head : ∃ c, v.head? = some c ∧ isWhitespace c = false
  last : ∃ c, v.getLast? = some c ∧ isWhitespace c = false
  uncommented : scanTo '#' false false v = none
  one_line : ∀ c ∈ v, 0x20 ≤ c.toNat

theorem lexBody_escape {cs : List Char} (h : ∀ c ∈ cs, 0x20 ≤ c.toNat) (n : ℕ)
    (rest : List Char) :
  lexBody n (cs.flatMap escape ++ '"' :: rest) = .ok (cs, rest)
  := by
  induction cs with
  | nil => rfl
  | cons c cs ih =>
      have ih' := ih fun d hd => h d (List.mem_cons_of_mem _ hd)
      rw [List.flatMap_cons, List.append_assoc, escape]
      split
      · rename_i hc
        rw [hc]
        simp only [List.cons_append, List.nil_append, lexBody, true_or, if_true, ih']
        rfl
      · rename_i hquote
        split
        · rename_i hc
          rw [hc]
          simp only [List.cons_append, List.nil_append, lexBody, or_true, if_true, ih']
          rfl
        · rename_i hslash
          have hge := h c List.mem_cons_self
          rw [List.singleton_append, lexBody.eq_5 _ _ _ hquote (fun heq _ => hslash heq)
            (fun _ _ heq _ => hslash heq), if_neg (by omega), ih']
          rfl

/-- A quoted string is read back. -/
theorem lexString_quote {s : String} (h : Printable s) (n : ℕ) (rest : List Char) :
  lexString (quote s ++ rest) n = .ok (s, rest)
  := by
  rw [quote, List.cons_append, List.cons_append, List.append_assoc, List.singleton_append, lexString,
    lexBody_escape h]
  simp only [Except.map, String.ofList_toList]

theorem parseString_quote {s : String} (h : Printable s) (n : ℕ) :
  parseString (quote s) n = .ok s
  := by
  have hlex := lexString_quote h n []
  rw [List.append_nil] at hlex
  have hne : ¬ (quote s = "true".toList ∨ quote s = "false".toList) := by
    rintro (heq | heq) <;> simp [quote] at heq
  have hhead : (quote s).head? = some '"' := rfl
  rw [parseString, lexScalar, if_neg hne, if_pos hhead, hlex]
  simp [trim, trimStart, trimEnd]

/-- A quoted string hides what is in it. -/
theorem scanTo_escape (stop : Char) (cs rest : List Char)
    (hrest : scanTo stop false false rest = none) :
  scanTo stop true false (cs.flatMap escape ++ '"' :: rest) = none
  := by
  induction cs with
  | nil => simp [scanTo, hrest]
  | cons c cs ih =>
      rw [List.flatMap_cons, List.append_assoc, escape]
      split
      · simp [scanTo, ih]
      · split
        · simp [scanTo, ih]
        · rename_i hquote hslash
          simp [scanTo, hquote, hslash, ih]

theorem scanTo_quote (stop : Char) (s : String) (rest : List Char)
    (hrest : scanTo stop false false rest = none) :
  scanTo stop false false (quote s ++ rest) = none
  := by
  rw [quote, List.cons_append, List.cons_append, List.append_assoc, List.singleton_append, scanTo]
  simp [scanTo_escape stop s.toList rest hrest]

theorem one_line_quote {s : String} (h : Printable s) :
  ∀ c ∈ quote s, 0x20 ≤ c.toNat
  := by
  intro c hc
  simp only [quote, List.cons_append, List.mem_cons, List.mem_append, List.mem_flatMap,
    List.not_mem_nil, or_false] at hc
  obtain rfl | ⟨d, hd, hmem⟩ | rfl := hc
  · decide
  · rw [escape] at hmem
    split at hmem
    · simp only [List.mem_cons, List.not_mem_nil, or_false] at hmem
      obtain rfl | rfl := hmem <;> decide
    · split at hmem
      · simp only [List.mem_cons, List.not_mem_nil, or_false, or_self] at hmem
        rw [hmem]
        decide
      · rw [List.mem_singleton.mp hmem]
        exact h d hd
  · decide

theorem written_quote {s : String} (h : Printable s) :
  Written (quote s) where
  head := ⟨'"', rfl, by decide⟩
  last := ⟨'"', by rw [quote, List.getLast?_append]; rfl, by decide⟩
  uncommented := by
    have := scanTo_quote '#' s [] rfl
    rwa [List.append_nil] at this
  one_line := one_line_quote h

/-- A digit is neither a blank nor a sign of the lexer. -/
theorem isDigit_bounds {c : Char} (h : c.isDigit = true) :
  0x30 ≤ c.toNat ∧ c.toNat ≤ 0x39
  := by
  rw [Char.isDigit, Bool.and_eq_true, decide_eq_true_iff, decide_eq_true_iff] at h
  exact ⟨h.1, h.2⟩

theorem isWhitespace_of_bounds {c : Char} (h : 0x21 ≤ c.toNat ∧ c.toNat ≤ 0x7e) :
  isWhitespace c = false
  := by
  rw [isWhitespace]
  simp only [Bool.or_eq_false_iff, Bool.and_eq_false_iff, decide_eq_false_iff_not,
    beq_eq_false_iff_ne]
  omega

theorem ne_of_isDigit {c d : Char} (h : c.isDigit = true) (hd : d.isDigit = false) :
  c ≠ d
  := by
  rintro rfl
  rw [h] at hd
  simp at hd

/-- A text without quotes is scanned through. -/
theorem scanTo_eq_none {stop : Char} {v : List Char} (h : ∀ c ∈ v, c ≠ '"' ∧ c ≠ stop) :
  scanTo stop false false v = none
  := by
  induction v with
  | nil => rfl
  | cons c v ih =>
      obtain ⟨hquote, hstop⟩ := h c List.mem_cons_self
      simp [scanTo, hquote, hstop, ih fun d hd => h d (List.mem_cons_of_mem _ hd)]

theorem isDigit_of_mem_decimal {n : ℕ} {c : Char} (h : c ∈ decimal n) :
  c.isDigit = true
  := Nat.isDigit_of_mem_toDigits (by decide) (by decide) h

theorem decimal_ne_nil (n : ℕ) :
  decimal n ≠ []
  := Nat.toDigits_ne_nil

theorem stripPrefix_append (front l : List Char) :
  stripPrefix front (front ++ l) = some l
  := by
  rw [stripPrefix, if_pos (List.prefix_append front l), List.drop_left]

/-- A number is read back. -/
theorem parseDecimal_decimal {v bound : ℕ} (h : v < bound) :
  parseDecimal bound (decimal v) = some v
  := by
  have hdigits : (decimal v).all Char.isDigit = true :=
    List.all_eq_true.mpr fun c hc => isDigit_of_mem_decimal hc
  have hplus : (match decimal v with
      | '+' :: rest => rest
      | _ => decimal v) = decimal v := by
    split
    · rename_i rest heq
      have := isDigit_of_mem_decimal (n := v) (c := '+') (by rw [heq]; exact List.mem_cons_self)
      simp at this
    · rfl
  unfold parseDecimal
  dsimp only
  rw [hplus, if_pos ⟨decimal_ne_nil v, hdigits⟩, decimal, Nat.ofDigitChars_ten_toDigits,
    if_pos h]

theorem lexScalar_decimal {v : ℕ} (h : v < 2 ^ 64) (n : ℕ) :
  lexScalar (decimal v) n = .ok (.int v)
  := by
  have hne : ∀ {c : Char} {l : List Char}, c.isDigit = false → decimal v ≠ c :: l := by
    intro c l hc heq
    have := isDigit_of_mem_decimal (n := v) (c := c) (by rw [heq]; exact List.mem_cons_self)
    rw [hc] at this
    simp at this
  have hbool : ¬ (decimal v = "true".toList ∨ decimal v = "false".toList) := by
    rintro (heq | heq)
    · exact hne (c := 't') (by decide) heq
    · exact hne (c := 'f') (by decide) heq
  have hquote : ¬ (decimal v).head? = some '"' := by
    intro heq
    obtain ⟨l, hl⟩ := List.head?_eq_some_iff.mp heq
    exact hne (by decide) hl
  rw [lexScalar, if_neg hbool, if_neg hquote, parseDecimal_decimal h]

theorem parseBounded_decimal {v max : ℕ} (h : v ≤ max) (hmax : max < 2 ^ 64) (n : ℕ) :
  parseBounded (decimal v) n max = .ok v
  := by
  rw [parseBounded, lexScalar_decimal (Nat.lt_of_le_of_lt h hmax)]
  exact if_pos h

theorem parseInt_decimal (p : UInt16) (n : ℕ) :
  parseInt (decimal p.toNat) n = .ok p
  := by
  have hlt := p.toNat_lt
  rw [parseInt, parseBounded_decimal (by omega) (by decide)]
  simp [Except.map]

theorem parseU32_decimal (v : UInt32) (n : ℕ) :
  parseU32 (decimal v.toNat) n = .ok v
  := by
  have hlt := v.toNat_lt
  rw [parseU32, parseBounded_decimal (by omega) (by decide)]
  simp [Except.map]

theorem written_decimal (v : ℕ) :
  Written (decimal v) where
  head := by
    cases h : decimal v with
    | nil => exact absurd h (decimal_ne_nil v)
    | cons c l =>
        have hc := isDigit_bounds (isDigit_of_mem_decimal (n := v) (c := c)
          (by rw [h]; exact List.mem_cons_self))
        exact ⟨c, rfl, isWhitespace_of_bounds (by omega)⟩
  last := by
    cases h : (decimal v).getLast? with
    | none => exact absurd (List.getLast?_eq_none_iff.mp h) (decimal_ne_nil v)
    | some c =>
        have hc := isDigit_bounds (isDigit_of_mem_decimal (List.mem_of_getLast? h))
        exact ⟨c, rfl, isWhitespace_of_bounds (by omega)⟩
  uncommented := by
    refine scanTo_eq_none ?_
    intro c hc
    have hdigit := isDigit_of_mem_decimal hc
    exact ⟨ne_of_isDigit hdigit (by decide), ne_of_isDigit hdigit (by decide)⟩
  one_line := by
    intro c hc
    have := isDigit_bounds (isDigit_of_mem_decimal hc)
    omega

theorem parseBool_flag (b : Bool) (n : ℕ) :
  parseBool (flag b) n = .ok b
  := by
  cases b <;> rfl

theorem written_flag (b : Bool) :
  Written (flag b)
  := by
  cases b with
  | false =>
      exact ⟨⟨'f', rfl, by decide⟩, ⟨'e', by decide, by decide⟩, by decide, by simp [flag]⟩
  | true =>
      exact ⟨⟨'t', rfl, by decide⟩, ⟨'e', by decide, by decide⟩, by decide, by simp [flag]⟩

/-! ### Lines that are written -/

theorem trim_eq_self {v : List Char} (hhead : ∃ c, v.head? = some c ∧ isWhitespace c = false)
    (hlast : ∃ c, v.getLast? = some c ∧ isWhitespace c = false) :
  trim v = v
  := by
  obtain ⟨c, hc, hblank⟩ := hhead
  obtain ⟨d, hd, hblank'⟩ := hlast
  have hstart : trimStart v = v := by
    obtain ⟨l, rfl⟩ := List.head?_eq_some_iff.mp hc
    rw [trimStart, List.dropWhile_cons, if_neg (by simp [hblank])]
  rw [trim, hstart, trimEnd, List.rdropWhile_eq_self_iff]
  intro hne
  rw [List.getLast?_eq_some_getLast hne] at hd
  rw [Option.some.inj hd, hblank']
  simp

theorem not_mem_of_mem_splitOnP {p : Char → Bool} {l w : List Char} (h : w ∈ l.splitOnP p) :
  ∀ c ∈ w, p c = false
  := by
  induction l generalizing w with
  | nil =>
      rw [List.splitOnP_nil, List.mem_singleton] at h
      simp [h]
  | cons d l ih =>
      rw [List.splitOnP_cons_eq_if_modifyHead] at h
      split at h
      · obtain rfl | h := List.mem_cons.mp h
        · simp
        · exact ih h
      · rename_i hd
        cases hsplit : l.splitOnP p with
        | nil => exact absurd hsplit (List.splitOnP_ne_nil p l)
        | cons w' ws =>
            rw [hsplit] at h ih
            obtain rfl | h := List.mem_cons.mp h
            · intro c hc
              obtain rfl | hc := List.mem_cons.mp hc
              · rwa [Bool.not_eq_true] at hd
              · exact ih List.mem_cons_self c hc
            · exact ih (List.mem_cons_of_mem _ h)

/-- A word is not empty and has no white space in it. -/
theorem of_mem_splitWhitespace {line w : List Char} (h : w ∈ splitWhitespace line) :
  w ≠ [] ∧ ∀ c ∈ w, isWhitespace c = false
  := by
  obtain ⟨hsplit, hne⟩ := List.mem_filter.mp h
  exact ⟨of_decide_eq_true hne, not_mem_of_mem_splitOnP hsplit⟩

theorem trim_word {w : List Char} (hne : w ≠ []) (hw : ∀ c ∈ w, isWhitespace c = false) :
  trim w = w
  := trim_eq_self ⟨w.head hne, List.head?_eq_some_head hne, hw _ (List.head_mem hne)⟩
    ⟨w.getLast hne, List.getLast?_eq_some_getLast hne, hw _ (List.getLast_mem hne)⟩

theorem trim_blank_append {v : List Char} (h : Written v) :
  trim (' ' :: v) = v
  := by
  have hstart : trim (' ' :: v) = trim v := by
    rw [trim, trim, trimStart, List.dropWhile_cons, if_pos (by decide)]
    rfl
  rw [hstart, trim_eq_self h.head h.last]

theorem bounds_of_isLower {c : Char} (h : c.isLower = true) :
  0x61 ≤ c.toNat ∧ c.toNat ≤ 0x7a
  := by
  have hboth : (decide ('a'.val ≤ c.val) && decide (c.val ≤ 'z'.val)) = true := h
  rw [Bool.and_eq_true, decide_eq_true_iff, decide_eq_true_iff] at hboth
  exact hboth

/-- The keys of the grammars: lower-case letters and underscores. -/
def KeyName (key : String) : Prop :=
  key.toList ≠ [] ∧ ∀ c ∈ key.toList, c.isLower = true ∨ c = '_'

instance : DecidablePred KeyName := fun key =>
  let _ := List.decidableBAll (fun c : Char => c.isLower = true ∨ c = '_') key.toList
  inferInstanceAs (Decidable (_ ∧ _))

theorem KeyName.bounds {key : String} (h : KeyName key) {c : Char} (hc : c ∈ key.toList) :
  0x5f ≤ c.toNat ∧ c.toNat ≤ 0x7a
  := by
  obtain hlower | rfl := h.2 c hc
  · have hbounds := bounds_of_isLower hlower
    exact ⟨by omega, hbounds.2⟩
  · decide

/-- A key and a value on a line. -/
def kvLine (key : String) (v : List Char) : List Char :=
  key.toList ++ " = ".toList ++ v

/-- A text without quotes is scanned through to what follows it. -/
theorem scanTo_append {stop : Char} {l : List Char} (h : ∀ c ∈ l, c ≠ '"' ∧ c ≠ stop)
    (v : List Char) :
  scanTo stop false false (l ++ v) = (scanTo stop false false v).map fun p => (l ++ p.1, p.2)
  := by
  induction l with
  | nil => simp
  | cons c l ih =>
      obtain ⟨hquote, hstop⟩ := h c List.mem_cons_self
      simp [scanTo, hquote, hstop, ih fun d hd => h d (List.mem_cons_of_mem _ hd),
        Function.comp_def]

section Line

variable {key : String} {v : List Char}

theorem stripComment_kvLine (hkey : KeyName key) (hv : Written v) :
  stripComment (kvLine key v) = kvLine key v
  := by
  have hplain : ∀ c ∈ key.toList ++ " = ".toList, c ≠ '"' ∧ c ≠ '#' := by
    have hsep : ∀ c ∈ " = ".toList, c ≠ '"' ∧ c ≠ '#' := by simp
    intro c hc
    obtain hc | hc := List.mem_append.mp hc
    · have := hkey.bounds hc
      constructor <;> rintro rfl <;> simp at this
    · exact hsep c hc
  rw [stripComment, kvLine, scanTo_append hplain, hv.uncommented]
  rfl

theorem trim_kvLine (hkey : KeyName key) (hv : Written v) :
  trim (kvLine key v) = kvLine key v
  := by
  refine trim_eq_self ?_ ?_
  · cases h : key.toList with
    | nil => exact absurd h hkey.1
    | cons c l =>
        have hc := hkey.bounds (c := c) (by rw [h]; exact List.mem_cons_self)
        refine ⟨c, by rw [kvLine, h]; rfl, isWhitespace_of_bounds (by omega)⟩
  · obtain ⟨c, hc, hblank⟩ := hv.last
    exact ⟨c, by rw [kvLine, List.getLast?_append, hc]; rfl, hblank⟩

theorem splitKv_kvLine (hkey : KeyName key) (hv : Written v) :
  splitKv (kvLine key v) = some (key.toList, v)
  := by
  have hplain : ∀ c ∈ key.toList ++ [' '], c ≠ '"' ∧ c ≠ '=' := by
    intro c hc
    obtain hc | hc := List.mem_append.mp hc
    · have := hkey.bounds hc
      constructor <;> rintro rfl <;> simp at this
    · obtain rfl := List.mem_singleton.mp hc
      decide
  have hline : kvLine key v = (key.toList ++ [' ']) ++ '=' :: ' ' :: v := by
    rw [kvLine]
    simp
  have hstop : scanTo '=' false false ('=' :: ' ' :: v) = some ([], ' ' :: v) := by
    simp [scanTo]
  have hkeyTrim : trim (key.toList ++ [' ']) = key.toList := by
    have hhead : ∃ c, key.toList.head? = some c ∧ isWhitespace c = false := by
      cases h : key.toList with
      | nil => exact absurd h hkey.1
      | cons c l =>
          have hc := hkey.bounds (c := c) (by rw [h]; exact List.mem_cons_self)
          exact ⟨c, rfl, isWhitespace_of_bounds (by omega)⟩
    have hlast : ∃ c, key.toList.getLast? = some c ∧ isWhitespace c = false := by
      cases h : key.toList.getLast? with
      | none => exact absurd (List.getLast?_eq_none_iff.mp h) hkey.1
      | some c =>
          have hc := hkey.bounds (List.mem_of_getLast? h)
          exact ⟨c, rfl, isWhitespace_of_bounds (by omega)⟩
    have hself := trim_eq_self hhead hlast
    have hstart : trimStart (key.toList ++ [' ']) = trimStart key.toList ++ [' '] := by
      obtain ⟨c, hc, hblank⟩ := hhead
      obtain ⟨l, hl⟩ := List.head?_eq_some_iff.mp hc
      rw [hl, trimStart, trimStart, List.cons_append, List.dropWhile_cons, List.dropWhile_cons,
        if_neg (by simp [hblank]), if_neg (by simp [hblank]), List.cons_append]
    rw [trim, hstart, trimEnd, List.rdropWhile_concat, if_pos (by decide)]
    exact hself
  rw [splitKv, hline, scanTo_append hplain, hstop, Option.map_some, Option.map_some,
    List.append_nil, hkeyTrim, trim_blank_append hv]

theorem one_line_kvLine (hkey : KeyName key) (hv : Written v) :
  ∀ c ∈ kvLine key v, 0x20 ≤ c.toNat
  := by
  have hsep : ∀ c ∈ " = ".toList, 0x20 ≤ c.toNat := by simp
  intro c hc
  simp only [kvLine, List.mem_append] at hc
  obtain (hc | hc) | hc := hc
  · have := hkey.bounds hc
    omega
  · exact hsep c hc
  · exact hv.one_line c hc

end Line

/-- The lines of a text that begins with a line without line breaks in it. -/
theorem lines_append_of_ne {l : List Char} (h : ∀ c ∈ l, c ≠ '\n' ∧ c ≠ '\r')
    (text : List Char) :
  lines (l ++ '\n' :: text) = l :: lines text
  := by
  induction l with
  | nil => simp [lines]
  | cons c l ih =>
      have ih' := ih fun d hd => h d (List.mem_cons_of_mem _ hd)
      obtain ⟨hfeed, hreturn⟩ := h c List.mem_cons_self
      rw [List.cons_append, lines.eq_4 _ _ hfeed (fun _ heq _ => hreturn heq), ih']

/-- The lines of a text that begins with a line of printable characters. -/
theorem lines_append {l : List Char} (h : ∀ c ∈ l, 0x20 ≤ c.toNat) (text : List Char) :
  lines (l ++ '\n' :: text) = l :: lines text
  := by
  apply lines_append_of_ne
  intro c hc
  have hge := h c hc
  exact ⟨by rintro rfl; simp at hge, by rintro rfl; simp at hge⟩

end ZeroNat.Config

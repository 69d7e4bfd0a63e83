import ZeroNat.Config.Tables

/-!
# What is written is read

A config file that is written is a list of tables, each with keys and the texts of their
values.  The parser goes over it table by table: it fills a record with the values and closes
it.
-/

namespace ZeroNat.Config

/-! ### Values -/

theorem parseProto_quote (p : Proto) (n : ℕ) :
  parseProto (quote (protoStr p)) n = .ok p
  := by
  cases p <;> rfl

theorem printable_protoStr (p : Proto) :
  Printable (protoStr p)
  := by
  cases p <;> decide

theorem parseTransport_quote (t : Transport) (n : ℕ) :
  parseTransport (quote (transportStr t)) n = .ok t
  := by
  cases t <;> rfl

theorem printable_transportStr (t : Transport) :
  Printable (transportStr t)
  := by
  cases t <;> decide

theorem octets_lt {ip : Ipv4Addr} {v : ℕ} (h : v ∈ octets ip) :
  v < 256
  := by
  have hlt := ip.bits.toNat_lt
  simp only [octets, List.mem_cons, List.not_mem_nil, or_false] at h
  omega

theorem parseOctet_decimal {v : ℕ} (h : v < 256) :
  parseOctet (decimal v) = some v
  := by
  revert v
  decide +kernel

/-- An address is read back. -/
theorem ipOfText_ipText (ip : Ipv4Addr) :
  ipOfText (ipText ip) = some ip
  := by
  have hdots : ∀ l ∈ (octets ip).map decimal, '.' ∉ l := by
    intro l hl hdot
    obtain ⟨v, -, rfl⟩ := List.mem_map.mp hl
    have := isDigit_of_mem_decimal hdot
    simp at this
  have hne : (octets ip).map decimal ≠ [] := by simp [octets]
  have hparse : ((octets ip).map decimal).map parseOctet = (octets ip).map some := by
    rw [List.map_map]
    refine List.map_congr_left ?_
    intro v hv
    exact parseOctet_decimal (octets_lt hv)
  rw [ipOfText, ipText, List.splitOn_intercalate '.' hdots hne, hparse, octets]
  simp only [List.map_cons, List.map_nil, Option.some.injEq]
  have hlt := ip.bits.toNat_lt
  have hsum : ip.bits.toNat / 2 ^ 24 * 2 ^ 24 + ip.bits.toNat / 2 ^ 16 % 256 * 2 ^ 16
      + ip.bits.toNat / 2 ^ 8 % 256 * 2 ^ 8 + ip.bits.toNat % 256 = ip.bits.toNat := by
    omega
  rw [hsum, UInt32.ofNat_toNat]

theorem mem_ipText {ip : Ipv4Addr} {c : Char} (h : c ∈ ipText ip) :
  c = '.' ∨ c.isDigit = true
  := by
  have hdigit : ∀ {v : ℕ}, c ∈ decimal v → c = '.' ∨ c.isDigit = true :=
    fun hc => Or.inr (isDigit_of_mem_decimal hc)
  simp only [ipText, octets, List.map_cons, List.map_nil, List.intercalate_cons_cons,
    List.intercalate_singleton, List.mem_append, List.mem_singleton] at h
  rcases h with (h | h) | (h | h) | (h | h) | h
  all_goals first | exact hdigit h | exact Or.inl h

/-- A text of digits and a few other signs can be held by a file. -/
theorem printable_ofList {l : List Char} (h : ∀ c ∈ l, 0x20 ≤ c.toNat) :
  Printable (String.ofList l)
  := by
  intro c hc
  rw [String.toList_ofList] at hc
  exact h c hc

theorem printable_ipText (ip : Ipv4Addr) :
  Printable (String.ofList (ipText ip))
  := by
  refine printable_ofList ?_
  intro c hc
  obtain rfl | hdigit := mem_ipText hc
  · decide
  · have := isDigit_bounds hdigit
    omega

theorem parseIp_quote (ip : Ipv4Addr) (n : ℕ) :
  parseIp (quote (String.ofList (ipText ip))) n = .ok ip
  := by
  rw [parseIp, parseString_quote (printable_ipText ip)]
  dsimp only
  rw [String.toList_ofList, ipOfText_ipText]

theorem printable_cidrText (ip : Ipv4Addr) (len : UInt8) :
  Printable (String.ofList (cidrText ip len))
  := by
  refine printable_ofList ?_
  intro c hc
  simp only [cidrText, List.mem_append, List.mem_cons] at hc
  obtain hc | rfl | hc := hc
  · obtain rfl | hdigit := mem_ipText hc
    · decide
    · have := isDigit_bounds hdigit
      omega
  · decide
  · have := isDigit_bounds (isDigit_of_mem_decimal hc)
    omega

/-- An address with a prefix length is read back. -/
theorem cidrOfText_cidrText (ip : Ipv4Addr) {len : UInt8} (hlen : len.toNat ≤ 32) :
  cidrOfText (cidrText ip len) = some (ip, len)
  := by
  have hslash : ∀ c ∈ ipText ip, decide (c ≠ '/') = true := by
    intro c hc
    obtain rfl | hdigit := mem_ipText hc
    · decide
    · exact decide_eq_true (ne_of_isDigit hdigit (by decide))
  have htake : (cidrText ip len).takeWhile (· ≠ '/') = ipText ip := by
    rw [cidrText, List.takeWhile_append_of_pos hslash]
    simp
  have hdrop : (cidrText ip len).dropWhile (· ≠ '/') = '/' :: decimal len.toNat := by
    rw [cidrText, List.dropWhile_append_of_pos hslash]
    simp
  rw [cidrOfText, htake, hdrop]
  dsimp only
  rw [ipOfText_ipText, parseDecimal_decimal (by omega)]
  dsimp only
  rw [if_pos hlen, UInt8.ofNat_toNat]

theorem parseCidr_quote (ip : Ipv4Addr) {len : UInt8} (hlen : len.toNat ≤ 32) (n : ℕ) :
  parseCidr (quote (String.ofList (cidrText ip len))) n = .ok (ip, len)
  := by
  rw [parseCidr, parseString_quote (printable_cidrText ip len)]
  dsimp only
  rw [String.toList_ofList, cidrOfText_cidrText ip hlen]

/-! ### Lists of strings -/

/-- The entries of a list as they are written. -/
def entriesText : List String → List Char
  | [] => []
  | [s] => quote s
  | s :: t :: l => quote s ++ ", ".toList ++ entriesText (t :: l)

/-- A list of strings as it is written. -/
def listText (l : List String) : List Char :=
  '[' :: entriesText l ++ [']']

theorem head_quote (s : String) (rest : List Char) :
  ∃ l, quote s ++ rest = '"' :: l
  := ⟨_, by rw [quote, List.cons_append, List.cons_append]⟩

theorem head_entriesText (s : String) (l : List String) :
  ∃ r, entriesText (s :: l) = '"' :: r
  := by
  cases l with
  | nil =>
      obtain ⟨r, hr⟩ := head_quote s []
      rw [List.append_nil] at hr
      exact ⟨r, hr⟩
  | cons t l =>
      rw [entriesText, List.append_assoc]
      exact head_quote s _

theorem trimStart_entriesText (l : List String) :
  trimStart (entriesText l) = entriesText l
  := by
  cases l with
  | nil => rfl
  | cons s l =>
      obtain ⟨r, hr⟩ := head_entriesText s l
      rw [hr, trimStart, List.dropWhile_cons, if_neg (by decide)]

theorem parseEntries_entriesText {l : List String} (h : ∀ s ∈ l, Printable s) (n : ℕ) {fuel : ℕ}
    (hfuel : l.length ≤ fuel) :
  parseEntries n fuel (entriesText l) = .ok l
  := by
  induction l generalizing fuel with
  | nil => cases fuel <;> rfl
  | cons s l ih =>
      cases fuel with
      | zero => simp at hfuel
      | succ fuel =>
          have hs := h s List.mem_cons_self
          have ih' := ih (fun t ht => h t (List.mem_cons_of_mem _ ht))
            (Nat.le_of_succ_le_succ hfuel)
          obtain ⟨r, hr⟩ := head_entriesText s l
          have hne : entriesText (s :: l) ≠ [] := by rw [hr]; simp
          rw [parseEntries, if_neg hne]
          cases l with
          | nil =>
              have hlex := lexString_quote hs n []
              rw [List.append_nil] at hlex
              rw [entriesText, hlex]
              rfl
          | cons t l =>
              have hsep : trimStart (", ".toList ++ entriesText (t :: l))
                  = ',' :: ' ' :: entriesText (t :: l) := rfl
              have htail : trimStart (' ' :: entriesText (t :: l)) = entriesText (t :: l) := by
                rw [trimStart, List.dropWhile_cons, if_pos (by decide)]
                exact trimStart_entriesText (t :: l)
              rw [entriesText, List.append_assoc, lexString_quote hs]
              dsimp only
              rw [hsep]
              change (parseEntries n fuel (trimStart (' ' :: entriesText (t :: l)))).map (s :: ·)
                = _
              rw [htail, ih']
              rfl

theorem length_le_entriesText (l : List String) :
  l.length ≤ (entriesText l).length
  := by
  induction l with
  | nil => exact le_refl _
  | cons s l ih =>
      cases l with
      | nil => simp [entriesText, quote]
      | cons t l =>
          rw [entriesText, List.length_append, List.length_cons]
          have hsep : 1 ≤ (quote s ++ ", ".toList).length := by simp [quote]
          omega

theorem parseStringList_listText {l : List String} (h : ∀ s ∈ l, Printable s) (n : ℕ) :
  parseStringList (listText l) n = .ok l
  := by
  have hlast : (entriesText l ++ [']']).getLast? = some ']' := by
    rw [List.getLast?_append]
    rfl
  have hfuel : l.length ≤ (entriesText l ++ [']']).length := by
    have := length_le_entriesText l
    rw [List.length_append]
    omega
  rw [listText, List.cons_append, parseStringList, if_pos hlast, List.dropLast_concat,
    trimStart_entriesText, parseEntries_entriesText h n hfuel]

theorem scanTo_entriesText {l : List String} (rest : List Char)
    (hrest : scanTo '#' false false rest = none) :
  scanTo '#' false false (entriesText l ++ rest) = none
  := by
  induction l with
  | nil => exact hrest
  | cons s l ih =>
      cases l with
      | nil => exact scanTo_quote '#' s rest hrest
      | cons t l =>
          have hsep : ∀ c ∈ ", ".toList, c ≠ '"' ∧ c ≠ '#' := by simp
          rw [entriesText, List.append_assoc, List.append_assoc]
          refine scanTo_quote '#' s _ ?_
          rw [scanTo_append hsep, ih]
          rfl

theorem one_line_entriesText {l : List String} (h : ∀ s ∈ l, Printable s) :
  ∀ c ∈ entriesText l, 0x20 ≤ c.toNat
  := by
  induction l with
  | nil => simp [entriesText]
  | cons s l ih =>
      have hs := one_line_quote (h s List.mem_cons_self)
      have ih' := ih fun t ht => h t (List.mem_cons_of_mem _ ht)
      cases l with
      | nil => exact hs
      | cons t l =>
          have hsep : ∀ c ∈ ", ".toList, 0x20 ≤ c.toNat := by simp
          intro c hc
          rw [entriesText, List.mem_append, List.mem_append] at hc
          obtain (hc | hc) | hc := hc
          · exact hs c hc
          · exact hsep c hc
          · exact ih' c hc

theorem written_listText {l : List String} (h : ∀ s ∈ l, Printable s) :
  Written (listText l) where
  head := ⟨'[', rfl, by decide⟩
  last := ⟨']', by rw [listText, List.getLast?_append]; rfl, by decide⟩
  uncommented := by
    rw [listText, List.cons_append, scanTo]
    simp [scanTo_entriesText [']'] rfl]
  one_line := by
    intro c hc
    simp only [listText, List.cons_append, List.mem_cons, List.mem_append,
      List.not_mem_nil, or_false] at hc
    obtain rfl | hc | rfl := hc
    · decide
    · exact one_line_entriesText h c hc
    · decide

end ZeroNat.Config

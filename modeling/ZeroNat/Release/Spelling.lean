import ZeroNat.Release.Manifest

/-!
# The spelling of a manifest

The names of the lines ascend, so that the lines of a manifest are determined by its entries up
to how a line is written.  The reader of digests takes letters of either case, and the reader of
sizes takes a plus sign, and after it zeros.  So one content has several byte sequences, and two
of them are the same exactly when they are spelled in the same way.
-/

namespace ZeroNat.Release

open Config

/-- A sign of the size that does not change its value. -/
def isLeading (c : Char) : Bool :=
  c = '+' ∨ c = '0'

/-- How a line is written: which digits of the digest are capitals, and what stands in front of
the first significant digit of the size. -/
def spelling (line : List Char) : List Bool × List Char :=
  match line.splitOn ' ' with
  | digest :: size :: _ => (digest.map Char.isUpper, size.takeWhile isLeading)
  | _ => ([], [])

/-- The lines of a manifest after its header. -/
def linesOf (manifest : List UInt8) : List (List Char) :=
  match String.fromUTF8? ⟨manifest.toArray⟩ with
  | none => []
  | some text => (text.toList.dropLast.splitOn '\n').tail

/-- How the lines of a manifest are written. -/
def spellings (manifest : List UInt8) : List (List Bool × List Char) :=
  (linesOf manifest).map spelling

/-! ### Digests -/

/-- A digit is determined by what it stands for and by its case. -/
theorem eq_of_nibble {c : Char} {n : UInt8} (h : Secret.nibble c = some n) :
  c = if c.isUpper then Char.ofNat (n.toNat - 10 + 'A'.toNat) else Secret.hexDigit n
  := by
  have hall : ∀ k < 128, ∀ n ∈ Secret.nibble (Char.ofNat k),
      Char.ofNat k = if (Char.ofNat k).isUpper then Char.ofNat (n.toNat - 10 + 'A'.toNat)
        else Secret.hexDigit n := by
    decide +kernel
  have hbounds := Secret.toNat_of_nibble h
  have hchar := hall c.toNat (by omega) n
  rw [Char.ofNat_toNat] at hchar
  exact hchar h

theorem nibble_inj {c d : Char} {n : UInt8} (hc : Secret.nibble c = some n)
    (hd : Secret.nibble d = some n) (hcase : c.isUpper = d.isUpper) :
  c = d
  := by
  rw [eq_of_nibble hc, eq_of_nibble hd, hcase]

/-- The two digits of a byte are determined by the byte. -/
theorem byte_inj {a b a' b' : UInt8} {c d c' d' : Char} (ha : Secret.nibble c = some a)
    (hb : Secret.nibble d = some b) (ha' : Secret.nibble c' = some a')
    (hb' : Secret.nibble d' = some b') (h : a <<< 4 ||| b = a' <<< 4 ||| b') :
  a = a' ∧ b = b'
  := by
  have hsmall : ∀ {c : Char} {n : UInt8}, Secret.nibble c = some n → n.toNat < 16 := by
    intro c n hn
    have hall : ∀ k < 128, ∀ n ∈ Secret.nibble (Char.ofNat k), n.toNat < 16 := by
      decide +kernel
    have hbounds := Secret.toNat_of_nibble hn
    have hchar := hall c.toNat (by omega) n
    rw [Char.ofNat_toNat] at hchar
    exact hchar hn
  have hparts : ∀ x < 16, ∀ y < 16, (UInt8.ofNat x <<< 4 ||| UInt8.ofNat y) >>> 4 = UInt8.ofNat x
      ∧ (UInt8.ofNat x <<< 4 ||| UInt8.ofNat y) &&& 0x0f = UInt8.ofNat y := by
    decide +kernel
  have hone := hparts _ (hsmall ha) _ (hsmall hb)
  have htwo := hparts _ (hsmall ha') _ (hsmall hb')
  simp only [UInt8.ofNat_toNat] at hone htwo
  rw [← h] at htwo
  exact ⟨hone.1.symm.trans htwo.1, hone.2.symm.trans htwo.2⟩

theorem decodePairs_inj {l l' : List Char} {bytes : List UInt8}
    (h : Secret.decodePairs l = some bytes) (h' : Secret.decodePairs l' = some bytes)
    (heven : l.length % 2 = 0) (hcase : l.map Char.isUpper = l'.map Char.isUpper) :
  l = l'
  := by
  induction l using Secret.decodePairs.induct generalizing l' bytes with
  | case1 high low rest ih =>
      obtain ⟨high', rest', rfl, hhigh, hcase⟩ := List.map_eq_cons_iff.mp hcase.symm
      obtain ⟨low', rest', rfl, hlow, hcase⟩ := List.map_eq_cons_iff.mp hcase
      rw [Secret.decodePairs] at h h'
      simp only [Option.bind_eq_bind, Option.bind_eq_some_iff, Option.some.injEq] at h h'
      obtain ⟨a, ha, b, hb, bs, hbs, rfl⟩ := h
      obtain ⟨a', ha', b', hb', bs', hbs', heq⟩ := h'
      obtain ⟨hbyte, rfl⟩ := List.cons.inj heq
      obtain ⟨rfl, rfl⟩ := byte_inj ha' hb' ha hb hbyte
      rw [List.length_cons, List.length_cons] at heven
      rw [nibble_inj ha ha' hhigh.symm, nibble_inj hb hb' hlow.symm,
        ih hbs hbs' (by omega) hcase.symm]
  | case2 l hl =>
      rcases l with _ | ⟨a, _ | ⟨b, rest⟩⟩
      · exact (List.map_eq_nil_iff.mp hcase.symm).symm
      · simp at heven
      · exact absurd rfl (hl a b rest)

theorem decodePairs_of_decode {l : List Char} {digest : Bytes 32}
    (h : Secret.decode (String.ofList l) = .ok digest) :
  l.length = Secret.hexLen ∧ Secret.decodePairs l = some digest.toList
  := by
  rw [Secret.decode, String.toList_ofList] at h
  split at h
  · exact absurd h (by simp)
  · rename_i hlength
    refine ⟨not_not.mp hlength, ?_⟩
    split at h
    · rename_i bytes hbytes
      obtain ⟨pairs, hpairs, hlist⟩ := Option.bind_eq_some_iff.mp hbytes
      rw [hpairs, ← Except.ok.inj h]
      rw [Bytes.ofList?] at hlist
      split at hlist
      · rw [← Option.some.inj hlist]
        rfl
      · exact absurd hlist (by simp)
    · exact absurd h (by simp)

/-- A digest is determined by its bytes and by the case of its digits. -/
theorem decode_inj {l l' : List Char} {digest : Bytes 32}
    (h : Secret.decode (String.ofList l) = .ok digest)
    (h' : Secret.decode (String.ofList l') = .ok digest)
    (hcase : l.map Char.isUpper = l'.map Char.isUpper) :
  l = l'
  := by
  obtain ⟨hlength, hpairs⟩ := decodePairs_of_decode h
  obtain ⟨-, hpairs'⟩ := decodePairs_of_decode h'
  exact decodePairs_inj hpairs hpairs' (by rw [hlength]; rfl) hcase

/-! ### Sizes -/

theorem digitChar_of_isDigit {c : Char} (h : c.isDigit = true) :
  Nat.digitChar (c.toNat - '0'.toNat) = c
  := by
  have hall : ∀ k < 10, Nat.digitChar k = Char.ofNat (k + '0'.toNat) := by decide
  have hbounds := isDigit_bounds h
  have hnat : '0'.toNat = 0x30 := rfl
  rw [hall _ (by omega), Nat.sub_add_cancel (by omega), Char.ofNat_toNat]

/-- Digits that do not begin with a zero are the decimal form of what they spell. -/
theorem decimal_ofDigitChars {l : List Char} (hdigits : ∀ c ∈ l, c.isDigit = true)
    (hne : l ≠ []) (hhead : l.head? ≠ some '0') :
  decimal (Nat.ofDigitChars 10 l 0) = l
  := by
  induction l using List.reverseRecOn with
  | nil => exact absurd rfl hne
  | append_singleton l c ih =>
      have hc : c.isDigit = true := hdigits c (by simp)
      have hbounds := isDigit_bounds hc
      have hnat : '0'.toNat = 0x30 := rfl
      have hlast : Nat.toDigits 10 (c.toNat - '0'.toNat) = [c] := by
        rw [Nat.toDigits_of_lt_base (by omega), digitChar_of_isDigit hc]
      rw [Nat.ofDigitChars_append, Nat.ofDigitChars_cons, Nat.ofDigitChars_nil, decimal]
      cases l with
      | nil => rw [Nat.ofDigitChars_nil, Nat.mul_zero, Nat.zero_add, hlast, List.nil_append]
      | cons d l =>
          have hfront := ih (fun x hx => hdigits x (List.mem_append_left _ hx)) (by simp)
            (by simpa using hhead)
          have hpos : 0 < Nat.ofDigitChars 10 (d :: l) 0 := by
            by_contra hzero
            rw [Nat.eq_zero_of_not_pos hzero] at hfront
            have hd : d = '0' := by
              have hcons : '0' :: [] = d :: l := hfront
              exact (List.cons.inj hcons).1.symm
            exact hhead (by rw [hd]; rfl)
          rw [← Nat.toDigits_append_toDigits (by decide) hpos (by omega), hlast]
          rw [decimal] at hfront
          rw [hfront]

theorem eq_zero_of_isLeading {c : Char} (hdigit : c.isDigit = true) (h : isLeading c = true) :
  c = '0'
  := by
  rcases of_decide_eq_true h with rfl | rfl
  · exact absurd hdigit (by decide)
  · rfl

/-- The zeros in front do not count. -/
theorem ofDigitChars_dropWhile {l : List Char} (hdigits : ∀ c ∈ l, c.isDigit = true) :
  Nat.ofDigitChars 10 (l.dropWhile isLeading) 0 = Nat.ofDigitChars 10 l 0
  := by
  induction l with
  | nil => rfl
  | cons c l ih =>
      cases hleading : isLeading c with
      | false => rw [List.dropWhile_cons_of_neg (by simp [hleading])]
      | true =>
          have hc := eq_zero_of_isLeading (hdigits c List.mem_cons_self) hleading
          rw [List.dropWhile_cons_of_pos hleading,
            ih fun d hd => hdigits d (List.mem_cons_of_mem _ hd), Nat.ofDigitChars_cons, hc,
            Nat.mul_zero, Nat.zero_add, Nat.sub_self]

/-- What stands after the leading signs of a number is its decimal form. -/
theorem dropWhile_of_parseDecimal {l : List Char} {bound n : ℕ} (h : parseDecimal bound l = some n)
    (hn : n ≠ 0) :
  l.dropWhile isLeading = decimal n
  := by
  have hdigits : ∀ digits : List Char, (if digits ≠ [] ∧ digits.all Char.isDigit then
      if Nat.ofDigitChars 10 digits 0 < bound then some (Nat.ofDigitChars 10 digits 0) else none
      else none) = some n
        → (∀ c ∈ digits, c.isDigit = true) ∧ Nat.ofDigitChars 10 digits 0 = n := by
    intro digits hread
    split at hread
    · rename_i hall
      split at hread
      · exact ⟨List.all_eq_true.mp hall.2, Option.some.inj hread⟩
      · exact absurd hread (by simp)
    · exact absurd hread (by simp)
  obtain ⟨digits, hskip, hdigits, hvalue⟩ : ∃ digits : List Char,
      l.dropWhile isLeading = digits.dropWhile isLeading ∧ (∀ c ∈ digits, c.isDigit = true)
        ∧ Nat.ofDigitChars 10 digits 0 = n := by
    unfold parseDecimal at h
    dsimp only at h
    split at h
    · rename_i rest
      exact ⟨rest, List.dropWhile_cons_of_pos (by decide), hdigits rest h⟩
    · exact ⟨l, rfl, hdigits l h⟩
  have hrest : Nat.ofDigitChars 10 (digits.dropWhile isLeading) 0 = n := by
    rw [ofDigitChars_dropWhile hdigits, hvalue]
  rw [hskip, ← hrest, decimal_ofDigitChars]
  · intro c hc
    exact hdigits c (List.dropWhile_sublist _ |>.mem hc)
  · intro hnil
    rw [hnil, Nat.ofDigitChars_nil] at hrest
    exact hn hrest.symm
  · intro hhead
    have hfalse := List.head?_dropWhile_not isLeading digits
    rw [hhead] at hfalse
    exact absurd hfalse (by decide)

/-- A size is determined by its value and by what stands in front of it. -/
theorem parseDecimal_inj {l l' : List Char} {bound n : ℕ} (h : parseDecimal bound l = some n)
    (h' : parseDecimal bound l' = some n) (hn : n ≠ 0)
    (hleading : l.takeWhile isLeading = l'.takeWhile isLeading) :
  l = l'
  := by
  rw [← List.takeWhile_append_dropWhile (p := isLeading) (l := l), hleading,
    dropWhile_of_parseDecimal h hn, ← dropWhile_of_parseDecimal h' hn,
    List.takeWhile_append_dropWhile]

/-! ### Lines -/

/-- What is known of a line that is accepted. -/
structure Accepted (line : List Char) (entry : String × Bytes 32 × ℕ) : Prop where
  fields : ∃ digest size name : List Char, line.splitOn ' ' = [digest, size, name]
    ∧ Secret.decode (String.ofList digest) = .ok entry.2.1
    ∧ parseDecimal (2 ^ 64) size = some entry.2.2 ∧ String.ofList name = entry.1
  size_ne : entry.2.2 ≠ 0

theorem accepted_of_parseLine {line : List Char} {entry : String × Bytes 32 × ℕ}
    (h : parseLine line = .ok entry) :
  Accepted line entry
  := by
  rw [parseLine] at h
  split at h
  · rename_i digest size name hfields
    split at h
    · exact absurd h (by simp)
    · rename_i bytes hdigest
      split at h
      · exact absurd h (by simp)
      · split at h
        · exact absurd h (by simp)
        · rename_i n hsize
          split at h
          · exact absurd h (by simp)
          · rename_i hbounds
            split at h
            · exact absurd h (by simp)
            · obtain rfl := Except.ok.inj h
              exact ⟨⟨digest, size, name, hfields, hdigest, hsize, rfl⟩,
                fun hzero => hbounds (Or.inl hzero)⟩
  · exact absurd h (by simp)

/-- A line is determined by its entry and by how it is written. -/
theorem Accepted.inj {line line' : List Char} {entry : String × Bytes 32 × ℕ}
    (h : Accepted line entry) (h' : Accepted line' entry)
    (hspelling : spelling line = spelling line') :
  line = line'
  := by
  obtain ⟨⟨digest, size, name, hfields, hdigest, hsize, hname⟩, hne⟩ := h
  obtain ⟨⟨digest', size', name', hfields', hdigest', hsize', hname'⟩, -⟩ := h'
  rw [spelling, spelling, hfields, hfields'] at hspelling
  obtain ⟨hcase, hleading⟩ := Prod.mk.inj hspelling
  have hnames : name = name' := String.ofList_injective (hname.trans hname'.symm)
  calc line
      = [' '].intercalate (line.splitOn ' ') := (List.intercalate_splitOn ' ').symm
    _ = [' '].intercalate (line'.splitOn ' ') := by
        rw [hfields, hfields', decode_inj hdigest hdigest' hcase,
          parseDecimal_inj hsize hsize' hne hleading, hnames]
    _ = line' := List.intercalate_splitOn ' '

/-! ### Manifests -/

/-- The loop reads a line for every entry, in the order of the names, and the table is what the
entries say. -/
structure Listed (lines : List (List Char)) (entries : List (String × Bytes 32 × ℕ)) : Prop where
  accepted : List.Forall₂ Accepted lines entries
  ascending : entries.Pairwise fun e e' => e.1 < e'.1

theorem listed_of_parseLines {lines : List (List Char)} :
  ∀ {previous : Option String} {t t' : Table String (Bytes 32 × ℕ)},
    parseLines previous t lines = .ok t' → ∃ entries, Listed lines entries
      ∧ (∀ p ∈ previous, ∀ e ∈ entries, p < e.1)
      ∧ ∀ k v, t'.lookup k = some v
        ↔ (k, v) ∈ entries ∨ ((∀ e ∈ entries, e.1 ≠ k) ∧ t.lookup k = some v)
  := by
  induction lines with
  | nil =>
      intro previous t t' h
      rw [parseLines] at h
      obtain rfl := Except.ok.inj h
      exact ⟨[], ⟨.nil, .nil⟩, by simp, by simp⟩
  | cons line lines ih =>
      intro previous t t' h
      rw [parseLines] at h
      split at h
      · exact absurd h (by simp)
      · rename_i name digest size hline
        split at h
        · exact absurd h (by simp)
        · rename_i hprevious
          have hbelow : ∀ p ∈ previous, p < name := by
            intro p hp
            by_contra hle
            exact hprevious ⟨p, hp, not_lt.mp hle⟩
          obtain ⟨entries, hlisted, hafter, hlookup⟩ := ih h
          have hname : ∀ e ∈ entries, name < e.1 := hafter name rfl
          refine ⟨(name, digest, size) :: entries, ⟨?_, ?_⟩, ?_, ?_⟩
          · exact .cons (accepted_of_parseLine hline) hlisted.accepted
          · exact List.pairwise_cons.mpr ⟨hname, hlisted.ascending⟩
          · intro p hp e he
            rcases List.mem_cons.mp he with rfl | he
            · exact hbelow p hp
            · exact lt_trans (hbelow p hp) (hname e he)
          · intro k v
            rw [hlookup]
            simp only [List.mem_cons, forall_eq_or_imp]
            by_cases hk : name = k
            · subst hk
              have hfresh : ∀ e ∈ entries, e.1 ≠ name := fun e he => (hname e he).ne'
              rw [AList.lookup_insert]
              constructor
              · rintro (hmem | ⟨-, heq⟩)
                · exact absurd rfl (hfresh _ hmem)
                · exact Or.inl (Or.inl (by rw [Option.some.inj heq]))
              · rintro ((heq | hmem) | ⟨⟨hne, -⟩, -⟩)
                · exact Or.inr ⟨hfresh, by rw [(Prod.mk.inj heq).2]⟩
                · exact absurd rfl (hfresh _ hmem)
                · exact absurd rfl hne
            · rw [AList.lookup_insert_ne (Ne.symm hk)]
              constructor
              · rintro (hmem | ⟨hfresh, ht⟩)
                · exact Or.inl (Or.inr hmem)
                · exact Or.inr ⟨⟨hk, hfresh⟩, ht⟩
              · rintro ((heq | hmem) | ⟨⟨-, hfresh⟩, ht⟩)
                · exact absurd (Prod.mk.inj heq).1.symm hk
                · exact Or.inl hmem
                · exact Or.inr ⟨hfresh, ht⟩

/-- The first line of a manifest. -/
def headerLine (version : String) : List Char :=
  manifestHeader ++ " v".toList ++ version.toList

/-- What is known of a manifest that is accepted. -/
structure Written (manifest : List UInt8) (r : ReleaseManifest)
    (entries : List (String × Bytes 32 × ℕ)) : Prop where
  bytes_eq : manifest = utf8 (String.ofList
    (['\n'].intercalate (headerLine r.version :: linesOf manifest) ++ ['\n']))
  listed : Listed (linesOf manifest) entries
  lookup_iff : ∀ k v, r.entries.lookup k = some v ↔ (k, v) ∈ entries

theorem eq_append_of_stripPrefix {front l rest : List Char} (h : stripPrefix front l = some rest) :
  l = front ++ rest
  := by
  rw [stripPrefix] at h
  split at h
  · rename_i hfront
    obtain ⟨tail, rfl⟩ := hfront
    rw [List.drop_left, Option.some.injEq] at h
    rw [h]
  · exact absurd h (by simp)

theorem eq_of_parseHeader {header version : List Char} (h : parseHeader header = some version) :
  header = headerLine (String.ofList version)
  := by
  obtain ⟨rest, hrest, hversion⟩ := Option.bind_eq_some_iff.mp h
  rw [eq_append_of_stripPrefix hrest, eq_append_of_stripPrefix hversion, headerLine,
    List.append_assoc, String.toList_ofList (l := version)]

theorem append_of_stripNewline {text body : List Char} (h : stripNewline text = some body) :
  text = body ++ ['\n']
  := by
  rw [stripNewline] at h
  split at h
  · rename_i hlast
    obtain ⟨front, rfl⟩ := List.getLast?_eq_some_iff.mp hlast
    rw [List.dropLast_concat, Option.some.injEq] at h
    rw [h]
  · exact absurd h (by simp)

theorem written_of_parse {manifest : List UInt8} {r : ReleaseManifest}
    (h : parse manifest = .ok r) :
  ∃ entries, Written manifest r entries
  := by
  rw [parse] at h
  split at h
  · exact absurd h (by simp)
  · rename_i text htext
    rw [parseText] at h
    split at h
    · exact absurd h (by simp)
    · rename_i body hbody
      split at h
      · exact absurd h (by simp)
      · split at h
        · exact absurd h (by simp)
        · rename_i header lines hsplit
          split at h
          · exact absurd h (by simp)
          · rename_i version hversion
            split at h
            · split at h
              · exact absurd h (by simp)
              · rename_i t hlines
                split at h
                · exact absurd h (by simp)
                · obtain rfl := Except.ok.inj h
                  obtain ⟨entries, hlisted, -, hlookup⟩ := listed_of_parseLines hlines
                  -- The last line feed, the line feeds between the lines and the header are
                  -- where they have to be.
                  have htextual : text.toList = body ++ ['\n'] := append_of_stripNewline hbody
                  have hbody' : body = ['\n'].intercalate (header :: lines) := by
                    rw [← hsplit, List.intercalate_splitOn]
                  have hlinesOf : linesOf manifest = lines := by
                    rw [linesOf, htext]
                    dsimp only
                    rw [htextual, List.dropLast_concat, hsplit, List.tail_cons]
                  refine ⟨entries, ?_, by rwa [hlinesOf], by simpa using hlookup⟩
                  dsimp only
                  rw [hlinesOf, ← eq_of_parseHeader hversion, ← hbody', ← htextual,
                    String.ofList_toList]
                  exact (fromUTF8?_eq_some_iff manifest text).mp htext
            · exact absurd h (by simp)

/-- Two manifests have the same content. -/
def ReleaseManifest.Same (r r' : ReleaseManifest) : Prop :=
  r.version = r'.version ∧ ∀ name, r.entries.lookup name = r'.entries.lookup name

/-- Entries in the order of their names are determined by what they say. -/
theorem Listed.entries_eq {lines lines' : List (List Char)}
    {entries entries' : List (String × Bytes 32 × ℕ)} (h : Listed lines entries)
    (h' : Listed lines' entries') (hmem : ∀ e, e ∈ entries ↔ e ∈ entries') :
  entries = entries'
  := by
  have hnodup : ∀ {es : List (String × Bytes 32 × ℕ)},
      (es.Pairwise fun e e' => e.1 < e'.1) → es.Nodup := by
    intro es hes
    apply hes.imp
    rintro e e' hlt rfl
    exact lt_irrefl _ hlt
  have hperm := (List.perm_ext_iff_of_nodup (hnodup h.ascending) (hnodup h'.ascending)).mpr hmem
  apply hperm.eq_of_pairwise _ h.ascending h'.ascending
  intro e e' _ _ hlt hgt
  exact absurd (lt_trans hlt hgt) (lt_irrefl _)

/-- Lines are determined by their entries and by how they are written. -/
theorem lines_inj {lines lines' : List (List Char)} {entries : List (String × Bytes 32 × ℕ)}
    (h : List.Forall₂ Accepted lines entries) (h' : List.Forall₂ Accepted lines' entries)
    (hspelling : lines.map spelling = lines'.map spelling) :
  lines = lines'
  := by
  induction h generalizing lines' with
  | nil =>
      cases h' with
      | nil => rfl
  | cons hline _ ih =>
      cases h' with
      | cons hline' hlines' =>
          rw [List.map_cons, List.map_cons, List.cons.injEq] at hspelling
          rw [hline.inj hline' hspelling.1, ih hlines' hspelling.2]

theorem Written.entries_eq {m m' : List UInt8} {r r' : ReleaseManifest}
    {entries entries' : List (String × Bytes 32 × ℕ)} (h : Written m r entries)
    (h' : Written m' r' entries') (hsame : r.Same r') :
  entries = entries'
  := by
  apply h.listed.entries_eq h'.listed
  rintro ⟨k, v⟩
  rw [← h.lookup_iff, ← h'.lookup_iff, hsame.2]

/-- Manifests of the same content that are spelled in the same way are the same. -/
theorem eq_of_spellings {m m' : List UInt8} {r r' : ReleaseManifest} (h : parse m = .ok r)
    (h' : parse m' = .ok r') (hsame : r.Same r') (hspelling : spellings m = spellings m') :
  m = m'
  := by
  obtain ⟨entries, hwritten⟩ := written_of_parse h
  obtain ⟨entries', hwritten'⟩ := written_of_parse h'
  obtain rfl := hwritten.entries_eq hwritten' hsame
  have hlines := lines_inj hwritten.listed.accepted hwritten'.listed.accepted hspelling
  rw [hwritten.bytes_eq, hwritten'.bytes_eq, hsame.1, hlines]

/-- A manifest is written without capitals in its digests and without signs before its
sizes. -/
def Plain (manifest : List UInt8) : Prop :=
  ∀ line ∈ linesOf manifest, (spelling line).1.all not ∧ (spelling line).2 = []

theorem Accepted.spelling_eq {line : List Char} {entry : String × Bytes 32 × ℕ}
    (h : Accepted line entry) (hplain : (spelling line).1.all not ∧ (spelling line).2 = []) :
  spelling line = (List.replicate Secret.hexLen false, [])
  := by
  obtain ⟨⟨digest, size, name, hfields, hdigest, -, -⟩, -⟩ := h
  obtain ⟨hcapitals, hleading⟩ := hplain
  apply Prod.ext
  · apply List.eq_replicate_iff.mpr
    constructor
    · rw [spelling, hfields, List.length_map, (decodePairs_of_decode hdigest).1]
    · intro b hb
      simpa using List.all_eq_true.mp hcapitals b hb
  · exact hleading

theorem map_spelling {lines : List (List Char)} {entries : List (String × Bytes 32 × ℕ)}
    (h : List.Forall₂ Accepted lines entries)
    (hplain : ∀ line ∈ lines, (spelling line).1.all not ∧ (spelling line).2 = []) :
  lines.map spelling = List.replicate entries.length (List.replicate Secret.hexLen false, [])
  := by
  induction h with
  | nil => rfl
  | cons hline _ ih =>
      obtain ⟨hfirst, hrest⟩ := List.forall_mem_cons.mp hplain
      rw [List.map_cons, hline.spelling_eq hfirst, ih hrest, List.length_cons,
        List.replicate_succ]

/-- There is one plain manifest for a content. -/
theorem eq_of_plain {m m' : List UInt8} {r r' : ReleaseManifest} (h : parse m = .ok r)
    (h' : parse m' = .ok r') (hsame : r.Same r') (hplain : Plain m) (hplain' : Plain m') :
  m = m'
  := by
  obtain ⟨entries, hwritten⟩ := written_of_parse h
  obtain ⟨entries', hwritten'⟩ := written_of_parse h'
  obtain rfl := hwritten.entries_eq hwritten' hsame
  apply eq_of_spellings h h' hsame
  rw [spellings, spellings, map_spelling hwritten.listed.accepted hplain,
    map_spelling hwritten'.listed.accepted hplain']

variable {σ : Type} (H : Hasher σ)

/-- Two manifests of the same content are the same exactly when they are spelled in the same
way: with capitals at the same digits of their digests, and with the same sign and zeros in
front of their sizes.  An artifact passes exactly when it is listed and its bytes have the
listed length and digest, in whatever pieces they come. -/
theorem manifest_exact :
  (∀ m m' r r', parse m = .ok r → parse m' = .ok r' → r.Same r'
      → (m = m' ↔ spellings m = spellings m'))
    ∧ ∀ m r name (chunks : List Chunk), parse m = .ok r
      → (r.verifyArtifact H name (chunks.map .ok) = .ok ()
        ↔ ∃ digest size, r.entries.lookup name = some (digest, size)
          ∧ (chunks.map Subtype.val).flatten.length = size
          ∧ H.digest (chunks.map Subtype.val).flatten = digest)
  := by
  constructor
  · intro m m' r r' h h' hsame
    constructor
    · rintro rfl
      rfl
    · exact eq_of_spellings h h' hsame
  · intro m r name chunks _
    rw [verifyArtifact_ok_iff]
    constructor
    · intro h
      exact ⟨_, _, h, rfl, rfl⟩
    · rintro ⟨digest, size, h, rfl, rfl⟩
      exact h

/-- A line with the digest of three letters. -/
def abcLine : String :=
  "ba7816bf8f01cfea414140de5dae2223b00361a396177a9cb410ff61f20015ad 3 zeronat-a\n"

def capitalLine : String :=
  "BA7816bf8f01cfea414140de5dae2223b00361a396177a9cb410ff61f20015ad 3 zeronat-a\n"

def signedLine : String :=
  "ba7816bf8f01cfea414140de5dae2223b00361a396177a9cb410ff61f20015ad +3 zeronat-a\n"

def manifestOf (line : String) : String :=
  "zeronat-release-v1 v0.25.0\n" ++ line

def abcDigest : Bytes 32 :=
  ⟨[0xba, 0x78, 0x16, 0xbf, 0x8f, 0x01, 0xcf, 0xea, 0x41, 0x41, 0x40, 0xde, 0x5d, 0xae, 0x22, 0x23,
    0xb0, 0x03, 0x61, 0xa3, 0x96, 0x17, 0x7a, 0x9c, 0xb4, 0x10, 0xff, 0x61, 0xf2, 0x00, 0x15, 0xad],
    rfl⟩

def abcManifest : ReleaseManifest where
  version := "0.25.0"
  entries := (∅ : Table String (Bytes 32 × ℕ)).insert "zeronat-a" (abcDigest, 3)

theorem parse_utf8 (text : String) :
  parse (utf8 text) = parseText text.toList
  := by
  rw [parse, (fromUTF8?_eq_some_iff (utf8 text) text).mpr rfl]

theorem parse_abc :
  parse (utf8 (manifestOf abcLine)) = .ok abcManifest
  := by
  rw [parse_utf8]
  rfl

theorem parse_capital :
  parse (utf8 (manifestOf capitalLine)) = .ok abcManifest
  := by
  rw [parse_utf8]
  rfl

theorem parse_signed :
  parse (utf8 (manifestOf signedLine)) = .ok abcManifest
  := by
  rw [parse_utf8]
  rfl

theorem utf8_inj {s t : String} (h : utf8 s = utf8 t) :
  s = t
  := by
  have hs := (fromUTF8?_eq_some_iff (utf8 s) s).mpr rfl
  rw [(fromUTF8?_eq_some_iff (utf8 s) t).mpr h, Option.some.injEq] at hs
  exact hs.symm

/-- One content, written in three ways. -/
theorem spelled_three_ways :
  parse (utf8 (manifestOf abcLine)) = .ok abcManifest
    ∧ parse (utf8 (manifestOf capitalLine)) = .ok abcManifest
    ∧ parse (utf8 (manifestOf signedLine)) = .ok abcManifest
    ∧ abcManifest.Same abcManifest
    ∧ utf8 (manifestOf abcLine) ≠ utf8 (manifestOf capitalLine)
    ∧ utf8 (manifestOf abcLine) ≠ utf8 (manifestOf signedLine)
  := by
  refine ⟨parse_abc, parse_capital, parse_signed, ⟨rfl, fun _ => rfl⟩, ?_, ?_⟩
  · intro h
    exact absurd (utf8_inj h) (by decide)
  · intro h
    exact absurd (utf8_inj h) (by decide)

/-- A hash function that collects what it is fed, and has the digest of the three letters. -/
def abcHasher : Hasher (List UInt8) where
  new := []
  update state chunk := state ++ chunk
  finalize state := if state = utf8 "abc" then abcDigest else List.Vector.replicate 32 0
  digest bytes := if bytes = utf8 "abc" then abcDigest else List.Vector.replicate 32 0
  finalize_updates chunks := by
    have hfold : ∀ front : List UInt8,
        chunks.foldl (fun state chunk => state ++ chunk) front = front ++ chunks.flatten := by
      intro front
      induction chunks generalizing front with
      | nil => simp
      | cons chunk chunks ih => simp [ih]
    rw [hfold, List.nil_append]

/-- The three letters in two pieces. -/
def abcChunks : List Chunk :=
  [⟨[97], by decide⟩, ⟨[98, 99], by decide⟩]

theorem manifest_exact_abc :
  (utf8 (manifestOf abcLine) = utf8 (manifestOf capitalLine)
      ↔ spellings (utf8 (manifestOf abcLine)) = spellings (utf8 (manifestOf capitalLine)))
    ∧ abcManifest.verifyArtifact abcHasher "zeronat-a" (abcChunks.map .ok) = .ok ()
  := by
  constructor
  · exact (manifest_exact abcHasher).1 _ _ _ _ parse_abc parse_capital ⟨rfl, fun _ => rfl⟩
  · apply ((manifest_exact abcHasher).2 _ _ _ _ parse_abc).mpr
    exact ⟨abcDigest, 3, rfl, rfl, rfl⟩

end ZeroNat.Release

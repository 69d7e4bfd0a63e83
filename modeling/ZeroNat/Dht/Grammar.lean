import ZeroNat.Dht.Dictionary

/-!
# The grammar of bencode

What the bytes of a value are, with the spellings the decoder tolerates: signs and leading
zeros in numbers, and keys of a dictionary in any order and more than once.  The decoder takes
off the front of a buffer exactly a spelling of a value, and gives back everything after it.
-/

namespace ZeroNat.Dht

open Config

/-! ### Values in order -/

/-- The dictionaries of a value are sorted without a repeated key, at every depth. -/
inductive Ben.Ordered : Ben → Prop
  | int (n : Int64) : Ordered (.int n)
  | bytes (b : List UInt8) : Ordered (.bytes b)
  | list {items : List Ben} (h : ∀ v ∈ items, Ordered v) : Ordered (.list items)
  | dict {d : Dict} (hd : d.Sorted) (h : ∀ e ∈ d, Ordered e.2) : Ordered (.dict d)

/-- The values in a value, at every depth. -/
inductive Ben.Part : Ben → Ben → Prop
  | self (v : Ben) : Part v v
  | item {v w : Ben} {items : List Ben} (hw : w ∈ items) (h : Part v w) : Part v (.list items)
  | entry {v : Ben} {e : List UInt8 × Ben} {d : Dict} (he : e ∈ d) (h : Part v e.2) :
      Part v (.dict d)

/-- A dictionary anywhere in an ordered value is sorted. -/
theorem Ben.Ordered.sorted {v : Ben} {d : Dict} (hv : v.Ordered) (h : Part (.dict d) v) :
  d.Sorted
  := by
  induction h with
  | self =>
      cases hv with
      | dict hd _ => exact hd
  | item hmem _ ih =>
      cases hv with
      | list hitems => exact ih (hitems _ hmem)
  | entry hmem _ ih =>
      cases hv with
      | dict _ hentries => exact ih (hentries _ hmem)

/-! ### Spellings -/

/-- A byte string after a number for its length and a colon. -/
structure Field (a b : List UInt8) (text : List UInt8) : Prop where
  bytes_eq : a = text ++ UInt8.ofNat ':'.toNat :: b
  text_free : UInt8.ofNat ':'.toNat ∉ text
  length_eq : parseDecimal (2 ^ 64) (asciiText text) = some b.length

mutual

/-- The spellings of a value.  A dictionary has the last value that stands for a key. -/
inductive Spells : List UInt8 → Ben → Prop
  | int {text : List UInt8} {n : Int64} (hfree : UInt8.ofNat 'e'.toNat ∉ text)
      (hn : parseI64 (asciiText text) = some n) :
      Spells (UInt8.ofNat 'i'.toNat :: (text ++ [UInt8.ofNat 'e'.toNat])) (.int n)
  | bytes {a b text : List UInt8} {c : UInt8} (hhead : a.head? = some c)
      (hc : UInt8.ofNat '0'.toNat ≤ c ∧ c ≤ UInt8.ofNat '9'.toNat) (hfield : Field a b text) :
      Spells a (.bytes b)
  | list {a : List UInt8} {items : List Ben} (h : SpellsItems a items) :
      Spells (UInt8.ofNat 'l'.toNat :: (a ++ [UInt8.ofNat 'e'.toNat])) (.list items)
  | dict {a : List UInt8} {pairs d : Dict} (h : SpellsEntries a pairs) (hd : d.Sorted)
      (hlast : ∀ k, d.value? k = Dict.value? k pairs.reverse) :
      Spells (UInt8.ofNat 'd'.toNat :: (a ++ [UInt8.ofNat 'e'.toNat])) (.dict d)

/-- The spellings of values one after the other. -/
inductive SpellsItems : List UInt8 → List Ben → Prop
  | nil : SpellsItems [] []
  | cons {a b : List UInt8} {item : Ben} {items : List Ben} (h : Spells a item)
      (hs : SpellsItems b items) : SpellsItems (a ++ b) (item :: items)

/-- The spellings of keys and their values one after the other. -/
inductive SpellsEntries : List UInt8 → Dict → Prop
  | nil : SpellsEntries [] []
  | cons {a b c key text : List UInt8} {value : Ben} {pairs : Dict} (hkey : Field a key text)
      (h : Spells b value) (hs : SpellsEntries c pairs) :
      SpellsEntries (a ++ (b ++ c)) ((key, value) :: pairs)

end

mutual

/-- What is spelled is ordered. -/
theorem Spells.ordered : ∀ {a : List UInt8} {v : Ben}, Spells a v → v.Ordered
  | _, _, .int _ _ => .int _
  | _, _, .bytes _ _ _ => .bytes _
  | _, _, .list h => .list h.ordered
  | _, _, .dict h hd hlast => by
      apply Ben.Ordered.dict hd
      rintro ⟨k, v⟩ he
      have hvalue := (hd.distinct.mem_iff k v).mp he
      rw [hlast] at hvalue
      exact h.ordered (k, v) (List.mem_reverse.mp (Dict.mem_of_value? hvalue))

theorem SpellsItems.ordered : ∀ {a : List UInt8} {items : List Ben}, SpellsItems a items
    → ∀ v ∈ items, v.Ordered
  | _, _, .nil => by simp
  | _, _, .cons h hs => by
      simp only [List.mem_cons, forall_eq_or_imp]
      exact ⟨h.ordered, hs.ordered⟩

theorem SpellsEntries.ordered : ∀ {a : List UInt8} {pairs : Dict}, SpellsEntries a pairs
    → ∀ e ∈ pairs, e.2.Ordered
  | _, _, .nil => by simp
  | _, _, .cons _ h hs => by
      simp only [List.mem_cons, forall_eq_or_imp]
      exact ⟨h.ordered, hs.ordered⟩

end

/-! ### The first bytes of a spelling -/

/-- The place of the first mark. -/
theorem idxOf?_eq_some_iff {x : UInt8} {l : List UInt8} {i : ℕ} :
  l.idxOf? x = some i ↔ ∃ a b, l = a ++ x :: b ∧ x ∉ a ∧ a.length = i
  := by
  constructor
  · intro h
    obtain ⟨hi, hx, hfirst⟩ := List.idxOf?_eq_some_iff.mp h
    refine ⟨l.take i, l.drop (i + 1), ?_, ?_, by simp; omega⟩
    · rw [← hx, ← List.drop_eq_getElem_cons hi, List.take_append_drop]
    · intro hmem
      obtain ⟨j, hj, heq⟩ := List.mem_take_iff_getElem.mp hmem
      exact hfirst j (by omega) heq
  · rintro ⟨a, b, rfl, hx, rfl⟩
    have hnone : List.findIdx? (fun y => y == x) a = none := by
      apply List.findIdx?_eq_none_iff.mpr
      intro y hy
      rw [beq_eq_false_iff_ne]
      rintro rfl
      exact hx hy
    rw [List.idxOf?, List.findIdx?_append, hnone, List.findIdx?_cons]
    simp

/-- A field begins with a digit or a plus sign. -/
theorem Field.head {a b text : List UInt8} (h : Field a b text) :
  ∃ c rest, a = c :: rest ∧ c ≠ UInt8.ofNat 'e'.toNat
  := by
  obtain ⟨rfl, -, hlength⟩ := h
  cases text with
  | nil => exact absurd hlength (by simp [asciiText, parseDecimal])
  | cons c text =>
      refine ⟨c, _, rfl, ?_⟩
      rintro rfl
      have hnone : parseDecimal (2 ^ 64) (asciiText (UInt8.ofNat 'e'.toNat :: text)) = none := by
        have hc : Char.ofNat (UInt8.ofNat 'e'.toNat).toNat = 'e' := by decide
        rw [asciiText, List.map_cons, hc]
        simp [parseDecimal]
      rw [hnone] at hlength
      exact absurd hlength (by simp)

theorem Spells.head {a : List UInt8} {v : Ben} (h : Spells a v) :
  ∃ c rest, a = c :: rest ∧ c ≠ UInt8.ofNat 'e'.toNat
  := by
  cases h with
  | int _ _ => exact ⟨_, _, rfl, by decide⟩
  | bytes _ _ hfield => exact hfield.head
  | list _ => exact ⟨_, _, rfl, by decide⟩
  | dict _ _ _ => exact ⟨_, _, rfl, by decide⟩

/-! ### Reading -/

theorem drop_past (a : List UInt8) (x : UInt8) (b : List UInt8) :
  (a ++ x :: b).drop (a.length + 1) = b
  := by
  rw [List.append_cons, List.drop_left' (by simp)]

theorem drop_past_add (a : List UInt8) (x : UInt8) (b : List UInt8) (n : ℕ) :
  (a ++ x :: b).drop (a.length + 1 + n) = b.drop n
  := by
  rw [← List.drop_drop, drop_past]

/-- The reader of byte strings takes a field off the front. -/
theorem parseBytes_eq_some_iff {buf b rest : List UInt8} :
  parseBytes buf = some (b, rest) ↔ ∃ a text, buf = a ++ rest ∧ Field a b text
  := by
  constructor
  · intro h
    obtain ⟨colon, hcolon, h⟩ := Option.bind_eq_some_iff.mp h
    obtain ⟨len, hlen, h⟩ := Option.bind_eq_some_iff.mp h
    obtain ⟨text, tail, rfl, hfree, rfl⟩ := idxOf?_eq_some_iff.mp hcolon
    rw [List.take_left] at hlen
    dsimp only at h
    rw [drop_past_add, drop_past] at h
    split at h
    · exact absurd h (by simp)
    · rename_i hbound
      rw [Option.some.injEq, Prod.mk.injEq] at h
      obtain ⟨rfl, rfl⟩ := h
      have hfit : len ≤ tail.length := by
        simp only [List.length_append, List.length_cons] at hbound
        omega
      refine ⟨text ++ UInt8.ofNat ':'.toNat :: tail.take len, text, ?_, rfl, hfree, ?_⟩
      · rw [List.append_assoc, List.cons_append, List.take_append_drop]
      · rw [hlen, List.length_take, Nat.min_eq_left hfit]
  · rintro ⟨a, text, rfl, rfl, hfree, hlength⟩
    rw [List.append_assoc, List.cons_append]
    have hcolon : (text ++ UInt8.ofNat ':'.toNat :: (b ++ rest)).idxOf? (UInt8.ofNat ':'.toNat)
        = some text.length :=
      idxOf?_eq_some_iff.mpr ⟨text, b ++ rest, rfl, hfree, rfl⟩
    have hbound : ¬ (text ++ UInt8.ofNat ':'.toNat :: (b ++ rest)).length
        < text.length + 1 + b.length := by
      simp only [List.length_append, List.length_cons]
      omega
    unfold parseBytes
    simp only [hcolon, List.take_left, hlength, Option.bind_eq_bind, Option.bind_some]
    rw [if_neg hbound, drop_past_add, drop_past, List.take_left, List.drop_left]

/-- With this much fuel the reader takes nothing but spellings off the front. -/
def ReadsValues (n : ℕ) : Prop :=
  ∀ {buf : List UInt8} {v : Ben} {rest : List UInt8}, parseWith n buf = some (v, rest)
    → ∃ a, buf = a ++ rest ∧ Spells a v

/-- With this much fuel the loop over a list takes nothing but items and an end mark. -/
def ReadsItems (n : ℕ) : Prop :=
  ∀ {buf : List UInt8} {items : List Ben} {rest : List UInt8},
    parseItems n buf = some (items, rest)
      → ∃ a, buf = a ++ UInt8.ofNat 'e'.toNat :: rest ∧ SpellsItems a items

/-- With this much fuel the loop over a dictionary takes nothing but entries and an end mark,
and puts one entry after the other into what it had. -/
def ReadsEntries (n : ℕ) : Prop :=
  ∀ {d : Dict} {buf : List UInt8} {d' : Dict} {rest : List UInt8},
    parseEntries n d buf = some (d', rest)
      → ∃ a pairs, buf = a ++ UInt8.ofNat 'e'.toNat :: rest ∧ SpellsEntries a pairs
        ∧ d' = pairs.foldl (fun d e => Dict.insert e.1 e.2 d) d

theorem ReadsValues.succ {n : ℕ} (hitems : ReadsItems n) (hentries : ReadsEntries n) :
  ReadsValues (n + 1)
  := by
  intro buf v rest h
  cases buf with
  | nil =>
      rw [parseWith] at h
      exact absurd h (by simp)
  | cons b buf =>
      rw [parseWith] at h
      split at h
      · -- An integer: the end mark cannot be the first byte.
        rename_i hb
        obtain ⟨stop, hstop, h⟩ := Option.bind_eq_some_iff.mp h
        obtain ⟨m, hm, h⟩ := Option.bind_eq_some_iff.mp h
        obtain ⟨a, tail, heq, hfree, rfl⟩ := idxOf?_eq_some_iff.mp hstop
        rw [heq, List.take_left] at hm
        rw [heq, drop_past] at h
        obtain ⟨rfl, rfl⟩ : Ben.int m = v ∧ tail = rest := by simpa using h
        cases a with
        | nil =>
            rw [hb, List.nil_append, List.cons.injEq] at heq
            exact absurd heq.1 (by decide)
        | cons c text =>
            rw [List.cons_append, List.cons.injEq] at heq
            obtain ⟨rfl, rfl⟩ := heq
            refine ⟨UInt8.ofNat 'i'.toNat :: (text ++ [UInt8.ofNat 'e'.toNat]), by simp [hb], ?_⟩
            exact .int (fun hmem => hfree (List.mem_cons_of_mem _ hmem)) hm
      · split at h
        · rename_i hb
          obtain ⟨⟨items, tail⟩, hread, h⟩ := Option.bind_eq_some_iff.mp h
          obtain ⟨rfl, rfl⟩ : Ben.list items = v ∧ tail = rest := by simpa using h
          obtain ⟨a, rfl, ha⟩ := hitems hread
          exact ⟨_, by simp [hb], .list ha⟩
        · split at h
          · rename_i hb
            obtain ⟨⟨entries, tail⟩, hread, h⟩ := Option.bind_eq_some_iff.mp h
            obtain ⟨rfl, rfl⟩ : Ben.dict entries = v ∧ tail = rest := by simpa using h
            obtain ⟨a, pairs, rfl, ha, rfl⟩ := hentries hread
            refine ⟨_, by simp [hb], .dict ha (Dict.Sorted.nil.foldl_insert pairs) ?_⟩
            intro k
            rw [Dict.value?_foldl_insert]
            exact Option.or_none
          · split at h
            · rename_i hdigit
              obtain ⟨⟨bytes, tail⟩, hread, h⟩ := Option.bind_eq_some_iff.mp h
              obtain ⟨rfl, rfl⟩ : Ben.bytes bytes = v ∧ tail = rest := by simpa using h
              obtain ⟨a, text, heq, hfield⟩ := parseBytes_eq_some_iff.mp hread
              refine ⟨a, heq, .bytes (c := b) ?_ hdigit hfield⟩
              obtain ⟨c, tail, rfl, -⟩ := hfield.head
              rw [List.cons_append, List.cons.injEq] at heq
              rw [heq.1, List.head?_cons]
            · exact absurd h (by simp)

theorem ReadsItems.succ {n : ℕ} (hvalues : ReadsValues n) (hitems : ReadsItems n) :
  ReadsItems (n + 1)
  := by
  intro buf items rest h
  cases buf with
  | nil =>
      rw [parseItems] at h
      exact absurd h (by simp)
  | cons b buf =>
      rw [parseItems] at h
      split at h
      · rename_i hb
        obtain ⟨rfl, rfl⟩ : [] = items ∧ buf = rest := by simpa using h
        exact ⟨[], by simp [hb], .nil⟩
      · obtain ⟨⟨item, tail⟩, hitem, h⟩ := Option.bind_eq_some_iff.mp h
        obtain ⟨⟨items', tail'⟩, hread, h⟩ := Option.bind_eq_some_iff.mp h
        obtain ⟨rfl, rfl⟩ : item :: items' = items ∧ tail' = rest := by simpa using h
        obtain ⟨a, ha, hspell⟩ := hvalues hitem
        obtain ⟨a', rfl, hspells⟩ := hitems hread
        exact ⟨a ++ a', by rw [ha, List.append_assoc], .cons hspell hspells⟩

theorem ReadsEntries.succ {n : ℕ} (hvalues : ReadsValues n) (hentries : ReadsEntries n) :
  ReadsEntries (n + 1)
  := by
  intro d buf d' rest h
  cases buf with
  | nil =>
      rw [parseEntries] at h
      exact absurd h (by simp)
  | cons b buf =>
      rw [parseEntries] at h
      split at h
      · rename_i hb
        obtain ⟨rfl, rfl⟩ : d = d' ∧ buf = rest := by simpa using h
        exact ⟨[], [], by simp [hb], .nil, rfl⟩
      · obtain ⟨⟨key, tail⟩, hkey, hread⟩ := Option.bind_eq_some_iff.mp h
        obtain ⟨⟨value, tail'⟩, hvalue, hreads⟩ := Option.bind_eq_some_iff.mp hread
        obtain ⟨a, text, ha, hfield⟩ := parseBytes_eq_some_iff.mp hkey
        obtain ⟨a', rfl, hspell⟩ := hvalues hvalue
        obtain ⟨a'', pairs, rfl, hspells, hd⟩ := hentries hreads
        refine ⟨a ++ (a' ++ a''), (key, value) :: pairs, ?_, .cons hfield hspell hspells, hd⟩
        rw [ha, List.append_assoc, List.append_assoc]

/-- The reader and its loops take nothing but spellings off the front. -/
theorem reads (n : ℕ) :
  ReadsValues n ∧ ReadsItems n ∧ ReadsEntries n
  := by
  induction n with
  | zero =>
      refine ⟨?_, ?_, ?_⟩
      · intro buf v rest h
        rw [parseWith] at h
        exact absurd h (by simp)
      · intro buf items rest h
        rw [parseItems] at h
        exact absurd h (by simp)
      · intro d buf d' rest h
        rw [parseEntries] at h
        exact absurd h (by simp)
  | succ n ih =>
      obtain ⟨hvalues, hitems, hentries⟩ := ih
      exact ⟨ReadsValues.succ hitems hentries, ReadsItems.succ hvalues hitems,
        ReadsEntries.succ hvalues hentries⟩

/-- What the reader leaves is shorter. -/
theorem length_lt_of_parseWith {n : ℕ} {buf rest : List UInt8} {v : Ben}
    (h : parseWith n buf = some (v, rest)) :
  rest.length < buf.length
  := by
  obtain ⟨a, rfl, ha⟩ := (reads n).1 h
  obtain ⟨c, tail, rfl, -⟩ := ha.head
  simp only [List.length_append, List.length_cons]
  omega

theorem length_lt_of_parseBytes {buf b rest : List UInt8} (h : parseBytes buf = some (b, rest)) :
  rest.length < buf.length
  := by
  obtain ⟨a, text, rfl, hfield⟩ := parseBytes_eq_some_iff.mp h
  obtain ⟨c, tail, rfl, -⟩ := hfield.head
  simp only [List.length_append, List.length_cons]
  omega

/-! ### Reading a spelling -/

theorem parseWith_int {text : List UInt8} {m : Int64} (hfree : UInt8.ofNat 'e'.toNat ∉ text)
    (hm : parseI64 (asciiText text) = some m) (n : ℕ) (s : List UInt8) :
  parseWith (n + 1) (UInt8.ofNat 'i'.toNat :: (text ++ [UInt8.ofNat 'e'.toNat]) ++ s)
    = some (.int m, s)
  := by
  have hstop : (UInt8.ofNat 'i'.toNat :: (text ++ UInt8.ofNat 'e'.toNat :: s)).idxOf?
      (UInt8.ofNat 'e'.toNat) = some (text.length + 1) := by
    apply idxOf?_eq_some_iff.mpr
    refine ⟨UInt8.ofNat 'i'.toNat :: text, s, rfl, ?_, rfl⟩
    simp only [List.mem_cons, not_or]
    exact ⟨by decide, hfree⟩
  have hpast := drop_past (UInt8.ofNat 'i'.toNat :: text) (UInt8.ofNat 'e'.toNat) s
  rw [List.cons_append, List.length_cons] at hpast
  rw [List.cons_append, List.append_assoc, List.singleton_append, parseWith, if_pos rfl, hstop,
    Option.bind_eq_bind, Option.bind_some, List.take_succ_cons, List.take_left,
    List.drop_succ_cons, List.drop_zero, hm, Option.bind_eq_bind, Option.bind_some, hpast]

theorem parseWith_bytes {a b text : List UInt8} {c : UInt8} (hhead : a.head? = some c)
    (hc : UInt8.ofNat '0'.toNat ≤ c ∧ c ≤ UInt8.ofNat '9'.toNat) (hfield : Field a b text)
    (n : ℕ) (s : List UInt8) :
  parseWith (n + 1) (a ++ s) = some (.bytes b, s)
  := by
  have hread : parseBytes (a ++ s) = some (b, s) :=
    parseBytes_eq_some_iff.mpr ⟨a, text, rfl, hfield⟩
  obtain ⟨tail, rfl⟩ : ∃ tail, a = c :: tail := List.head?_eq_some_iff.mp hhead
  have hne : ∀ x : UInt8, UInt8.ofNat '9'.toNat < x → c ≠ x := by
    rintro x hx rfl
    exact absurd (UInt8.lt_of_lt_of_le hx hc.2) (UInt8.lt_irrefl _)
  rw [List.cons_append] at hread ⊢
  rw [parseWith, if_neg (hne _ (by decide)), if_neg (hne _ (by decide)),
    if_neg (hne _ (by decide)), if_pos hc, hread]
  rfl

theorem parseWith_list {n : ℕ} {a s : List UInt8} {items : List Ben}
    (h : parseItems n (a ++ UInt8.ofNat 'e'.toNat :: s) = some (items, s)) :
  parseWith (n + 1) (UInt8.ofNat 'l'.toNat :: (a ++ [UInt8.ofNat 'e'.toNat]) ++ s)
    = some (.list items, s)
  := by
  rw [List.cons_append, List.append_assoc, List.singleton_append, parseWith,
    if_neg (by decide), if_pos rfl, h, Option.bind_eq_bind, Option.bind_some]

theorem parseWith_dict {n : ℕ} {a s : List UInt8} {d : Dict}
    (h : parseEntries n [] (a ++ UInt8.ofNat 'e'.toNat :: s) = some (d, s)) :
  parseWith (n + 1) (UInt8.ofNat 'd'.toNat :: (a ++ [UInt8.ofNat 'e'.toNat]) ++ s)
    = some (.dict d, s)
  := by
  rw [List.cons_append, List.append_assoc, List.singleton_append, parseWith,
    if_neg (by decide), if_neg (by decide), if_pos rfl, h, Option.bind_eq_bind,
    Option.bind_some]

theorem parseItems_cons {n : ℕ} {buf rest s : List UInt8} {item : Ben} {items : List Ben}
    (h : parseWith n buf = some (item, rest)) (hs : parseItems n rest = some (items, s))
    (hhead : ∃ c tail, buf = c :: tail ∧ c ≠ UInt8.ofNat 'e'.toNat) :
  parseItems (n + 1) buf = some (item :: items, s)
  := by
  obtain ⟨c, tail, rfl, hc⟩ := hhead
  rw [parseItems, if_neg hc, h, Option.bind_eq_bind, Option.bind_some]
  dsimp only
  rw [hs, Option.bind_eq_bind, Option.bind_some]

theorem parseEntries_cons {n : ℕ} {d : Dict} {buf rest rest' key : List UInt8} {value : Ben}
    (hkey : parseBytes buf = some (key, rest)) (h : parseWith n rest = some (value, rest'))
    (hhead : ∃ c tail, buf = c :: tail ∧ c ≠ UInt8.ofNat 'e'.toNat) :
  parseEntries (n + 1) d buf = parseEntries n (Dict.insert key value d) rest'
  := by
  obtain ⟨c, tail, rfl, hc⟩ := hhead
  rw [parseEntries, if_neg hc, hkey, Option.bind_eq_bind, Option.bind_some]
  dsimp only
  rw [h, Option.bind_eq_bind, Option.bind_some]

mutual

/-- A spelling at the front is taken off whole, whatever comes after it. -/
theorem Spells.parseWith_eq : ∀ {a : List UInt8} {v : Ben}, Spells a v → ∀ {n : ℕ}
    (s : List UInt8), 2 * a.length + 1 ≤ n → parseWith n (a ++ s) = some (v, s)
  | _, _, .int hfree hm, n + 1, s, _ => parseWith_int hfree hm n s
  | _, _, .bytes hhead hc hfield, n + 1, s, _ => parseWith_bytes hhead hc hfield n s
  | _, _, .list h, n + 1, s, hn => by
      apply parseWith_list
      apply h.parseItems_eq s
      simp only [List.length_cons, List.length_append] at hn
      omega
  | _, _, @Spells.dict _ pairs d h hd hlast, n + 1, s, hn => by
      -- The dictionary with the last values is the one that inserting makes.
      have hmade : pairs.foldl (fun d e => Dict.insert e.1 e.2 d) [] = d := by
        apply (Dict.Sorted.nil.foldl_insert pairs).ext hd
        intro k
        rw [Dict.value?_foldl_insert, hlast]
        exact Option.or_none
      apply parseWith_dict
      rw [← hmade]
      apply h.parseEntries_eq [] s
      simp only [List.length_cons, List.length_append] at hn
      omega

theorem SpellsItems.parseItems_eq : ∀ {a : List UInt8} {items : List Ben}, SpellsItems a items
    → ∀ {n : ℕ} (s : List UInt8), 2 * a.length + 2 ≤ n
      → parseItems n (a ++ UInt8.ofNat 'e'.toNat :: s) = some (items, s)
  | _, _, .nil, n + 1, s, _ => by
      rw [List.nil_append, parseItems, if_pos rfl]
  | _, _, .cons h hs, n + 1, s, hn => by
      obtain ⟨c, tail, rfl, hc⟩ := h.head
      simp only [List.length_cons, List.length_append] at hn
      rw [List.append_assoc]
      apply parseItems_cons
      · apply h.parseWith_eq
        rw [List.length_cons]
        omega
      · apply hs.parseItems_eq
        omega
      · exact ⟨c, _, rfl, hc⟩

theorem SpellsEntries.parseEntries_eq : ∀ {a : List UInt8} {pairs : Dict}, SpellsEntries a pairs
    → ∀ {n : ℕ} (d : Dict) (s : List UInt8), 2 * a.length + 2 ≤ n
      → parseEntries n d (a ++ UInt8.ofNat 'e'.toNat :: s)
        = some (pairs.foldl (fun d e => Dict.insert e.1 e.2 d) d, s)
  | _, _, .nil, n + 1, d, s, _ => by
      rw [List.nil_append, parseEntries, if_pos rfl, List.foldl_nil]
  | _, _, .cons (b := b) (c := c) hkey h hs, n + 1, d, s, hn => by
      obtain ⟨x, tail, rfl, hx⟩ := hkey.head
      simp only [List.length_cons, List.length_append] at hn
      rw [List.append_assoc, List.append_assoc, List.foldl_cons]
      have hfield := parseBytes_eq_some_iff.mpr
        ⟨_, _, rfl (a := (x :: tail) ++ (b ++ (c ++ UInt8.ofNat 'e'.toNat :: s))), hkey⟩
      have hvalue := h.parseWith_eq (n := n) (c ++ UInt8.ofNat 'e'.toNat :: s) (by omega)
      rw [parseEntries_cons hfield hvalue ⟨x, _, rfl, hx⟩]
      apply hs.parseEntries_eq
      omega

end

/-- The reader takes exactly the spellings off the front. -/
theorem parse_eq_some_iff {buf rest : List UInt8} {v : Ben} :
  parse buf = some (v, rest) ↔ ∃ a, buf = a ++ rest ∧ Spells a v
  := by
  constructor
  · intro h
    exact (reads _).1 h
  · rintro ⟨a, rfl, ha⟩
    apply ha.parseWith_eq
    rw [List.length_append]
    omega

/-! ### What the encoder writes -/

theorem toNat_asciiBytes {c : Char} (h : c.toNat < 128) :
  (UInt8.ofNat c.toNat).toNat = c.toNat
  := by
  rw [UInt8.toNat_ofNat', Nat.mod_eq_of_lt (by omega)]

/-- A text of ASCII characters is read back from its bytes. -/
theorem asciiText_asciiBytes {text : List Char} (h : ∀ c ∈ text, c.toNat < 128) :
  asciiText (asciiBytes text) = text
  := by
  have hchar : ∀ c ∈ text, ((fun x : UInt8 => Char.ofNat x.toNat) ∘
      fun c : Char => UInt8.ofNat c.toNat) c = id c := by
    intro c hc
    rw [Function.comp_apply, toNat_asciiBytes (h c hc), Char.ofNat_toNat, id]
  rw [asciiText, asciiBytes, List.map_map, List.map_congr_left hchar, List.map_id]

/-- A mark is not in the bytes of a text without it. -/
theorem notMem_asciiBytes {text : List Char} {x : Char} (hx : x.toNat < 128)
    (h : ∀ c ∈ text, c.toNat < 128 ∧ c ≠ x) :
  UInt8.ofNat x.toNat ∉ asciiBytes text
  := by
  intro hmem
  obtain ⟨c, hc, heq⟩ := List.mem_map.mp hmem
  obtain ⟨hascii, hne⟩ := h c hc
  have hnat := congrArg UInt8.toNat heq
  rw [toNat_asciiBytes hascii, toNat_asciiBytes hx] at hnat
  exact hne (Char.toNat_inj.mp hnat)

theorem field_encodeBytes {b : List UInt8} (hb : b.length < 2 ^ 64) :
  Field (encodeBytes b) b (asciiBytes (decimal b.length))
  := by
  have hascii : ∀ c ∈ decimal b.length, c.toNat < 128 := by
    intro c hc
    have := isDigit_bounds (isDigit_of_mem_decimal hc)
    omega
  constructor
  · rfl
  · apply notMem_asciiBytes (by decide)
    intro c hc
    exact ⟨hascii c hc, ne_of_isDigit (isDigit_of_mem_decimal hc) (by decide)⟩
  · rw [asciiText_asciiBytes hascii, parseDecimal_decimal hb]

/-- What the encoder writes for a byte string spells it. -/
theorem spells_encodeBytes {b : List UInt8} (hb : b.length < 2 ^ 64) :
  Spells (encodeBytes b) (.bytes b)
  := by
  obtain ⟨c, rest, heq⟩ := List.exists_cons_of_ne_nil (decimal_ne_nil b.length)
  have hdigit : c.isDigit = true := by
    apply isDigit_of_mem_decimal (n := b.length)
    rw [heq]
    exact List.mem_cons_self
  have hbounds := isDigit_bounds hdigit
  have hnat : (UInt8.ofNat c.toNat).toNat = c.toNat := toNat_asciiBytes (by omega)
  apply Spells.bytes (c := UInt8.ofNat c.toNat) ?_ ?_ (field_encodeBytes hb)
  · rw [encodeBytes, heq]
    rfl
  · constructor
    · apply UInt8.le_iff_toNat_le.mpr
      rw [hnat]
      exact hbounds.1
    · apply UInt8.le_iff_toNat_le.mpr
      rw [hnat]
      exact hbounds.2

theorem spells_int (n : Int64) :
  Spells (Ben.int n).encode (.int n)
  := by
  have hmem : ∀ c ∈ i64Text n, c = '-' ∨ c.isDigit = true := by
    intro c hc
    rw [i64Text] at hc
    split at hc
    · rcases List.mem_cons.mp hc with hc | hc
      · exact Or.inl hc
      · exact Or.inr (isDigit_of_mem_decimal hc)
    · exact Or.inr (isDigit_of_mem_decimal hc)
  have hascii : ∀ c ∈ i64Text n, c.toNat < 128 ∧ c ≠ 'e' := by
    intro c hc
    rcases hmem c hc with rfl | hdigit
    · decide
    · have := isDigit_bounds hdigit
      exact ⟨by omega, ne_of_isDigit hdigit (by decide)⟩
  rw [Ben.encode]
  apply Spells.int
  · exact notMem_asciiBytes (by decide) hascii
  · rw [asciiText_asciiBytes fun c hc => (hascii c hc).1, parseI64_i64Text]

mutual

/-- What the encoder writes for an ordered value spells it. -/
theorem spells_encode : ∀ (v : Ben), v.Ordered → v.encode.length < 2 ^ 64 → Spells v.encode v
  | .int n, _, _ => spells_int n
  | .bytes b, _, hv => by
      rw [Ben.encode] at hv ⊢
      apply spells_encodeBytes
      rw [encodeBytes, List.length_append, List.length_cons] at hv
      omega
  | .list items, .list h, hv => by
      rw [Ben.encode] at hv ⊢
      apply Spells.list
      apply spells_encodeItems items h
      rw [List.length_cons, List.length_append] at hv
      omega
  | .dict d, .dict hd h, hv => by
      rw [Ben.encode] at hv ⊢
      apply Spells.dict _ hd fun k => (hd.distinct.value?_reverse k).symm
      apply spells_encodeEntries d h
      rw [List.length_cons, List.length_append] at hv
      omega

theorem spells_encodeItems : ∀ (items : List Ben), (∀ v ∈ items, v.Ordered)
    → (encodeItems items).length < 2 ^ 64 → SpellsItems (encodeItems items) items
  | [], _, _ => by
      rw [encodeItems]
      exact .nil
  | item :: items, h, hlen => by
      rw [encodeItems, List.length_append] at hlen
      rw [encodeItems]
      apply SpellsItems.cons
      · apply spells_encode item (h item List.mem_cons_self)
        omega
      · apply spells_encodeItems items fun v hv => h v (List.mem_cons_of_mem _ hv)
        omega

theorem spells_encodeEntries : ∀ (d : Dict), (∀ e ∈ d, e.2.Ordered)
    → (encodeEntries d).length < 2 ^ 64 → SpellsEntries (encodeEntries d) d
  | [], _, _ => by
      rw [encodeEntries]
      exact .nil
  | (key, value) :: d, h, hlen => by
      rw [encodeEntries, List.append_assoc, List.length_append, List.length_append] at hlen
      rw [encodeEntries, List.append_assoc]
      have hkey : key.length < 2 ^ 64 := by
        rw [encodeBytes, List.length_append, List.length_cons] at hlen
        omega
      apply SpellsEntries.cons (field_encodeBytes hkey)
      · apply spells_encode value (h (key, value) List.mem_cons_self)
        omega
      · apply spells_encodeEntries d fun e he => h e (List.mem_cons_of_mem _ he)
        omega

end

end ZeroNat.Dht

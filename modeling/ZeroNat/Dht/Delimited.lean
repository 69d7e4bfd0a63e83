import ZeroNat.Dht.Grammar

/-!
# The decoder with its faults

The decoder as it is written: with slices that have to be in range, additions that have to fit
a machine word, loops that push and insert into what they have, and the binary search in a
dictionary.  A slice out of range is a fault, and so is running out of fuel.  No buffer of bytes
leads to one.
-/

namespace ZeroNat.Dht

open Config

/-- The rest of a computation after a value that may be missing: the result is missing, too. -/
def need {α β : Type} (x : Option α) (k : α → Option (Option β)) : Option (Option β) :=
  match x with
  | none => some none
  | some a => k a

/-- The rest of a computation after one that may fault and may miss its value. -/
def needs {α β : Type} (x : Option (Option α)) (k : α → Option (Option β)) :
    Option (Option β) :=
  x.bind fun y => need y k

@[simp] theorem need_none {α β : Type} (k : α → Option (Option β)) :
  need none k = some none
  := rfl

@[simp] theorem need_some {α β : Type} (a : α) (k : α → Option (Option β)) :
  need (some a) k = k a
  := rfl

@[simp] theorem needs_some {α β : Type} (x : Option α) (k : α → Option (Option β)) :
  needs (some x) k = need x k
  := rfl

/-- The sum of two machine words, when it fits. -/
def checkedAdd (a b : ℕ) : Option ℕ :=
  if a + b < 2 ^ 64 then some (a + b) else none

/-- A byte string after its length and a colon, and what follows it. -/
def parseBytes? (buf : List UInt8) : Option (Option (List UInt8 × List UInt8)) :=
  need (buf.idxOf? (UInt8.ofNat ':'.toNat)) fun colon =>
    (Checked.slice buf 0 colon).bind fun text =>
      need (parseDecimal (2 ^ 64) (asciiText text)) fun len =>
        let start := colon + 1
        need (checkedAdd start len) fun stop =>
          if stop > buf.length then some none
          else
            (Checked.slice buf start stop).bind fun b =>
              (Checked.slice buf stop buf.length).map fun rest => some (b, rest)

mutual

def parseWith? : ℕ → List UInt8 → Option (Option (Ben × List UInt8))
  | 0, _ => none
  | fuel + 1, buf =>
      need buf.head? fun b =>
        if b = UInt8.ofNat 'i'.toNat then
          need (buf.idxOf? (UInt8.ofNat 'e'.toNat)) fun stop =>
            (Checked.slice buf 1 stop).bind fun text =>
              need (parseI64 (asciiText text)) fun n =>
                (Checked.slice buf (stop + 1) buf.length).map fun rest => some (.int n, rest)
        else if b = UInt8.ofNat 'l'.toNat then
          (Checked.slice buf 1 buf.length).bind fun rest =>
            needs (parseItems? fuel [] rest) fun p =>
              (Checked.slice p.2 1 p.2.length).map fun rest => some (.list p.1, rest)
        else if b = UInt8.ofNat 'd'.toNat then
          (Checked.slice buf 1 buf.length).bind fun rest =>
            needs (parseEntries? fuel [] rest) fun p =>
              (Checked.slice p.2 1 p.2.length).map fun rest => some (.dict p.1, rest)
        else if UInt8.ofNat '0'.toNat ≤ b ∧ b ≤ UInt8.ofNat '9'.toNat then
          needs (parseBytes? buf) fun p => some (some (.bytes p.1, p.2))
        else some none

/-- The loop over the items of a list.  It ends in front of the end mark. -/
def parseItems? : ℕ → List Ben → List UInt8 → Option (Option (List Ben × List UInt8))
  | 0, _, _ => none
  | fuel + 1, items, rest =>
      need rest.head? fun b =>
        if b = UInt8.ofNat 'e'.toNat then some (some (items, rest))
        else needs (parseWith? fuel rest) fun p => parseItems? fuel (items ++ [p.1]) p.2

/-- The loop over the entries of a dictionary.  It ends in front of the end mark. -/
def parseEntries? : ℕ → Dict → List UInt8 → Option (Option (Dict × List UInt8))
  | 0, _, _ => none
  | fuel + 1, map, rest =>
      need rest.head? fun b =>
        if b = UInt8.ofNat 'e'.toNat then some (some (map, rest))
        else
          needs (parseBytes? rest) fun p =>
            needs (parseWith? fuel p.2) fun q =>
              (Dict.insert? p.1 q.1 map).bind fun map => parseEntries? fuel map q.2

end

/-- Take one value off the front. -/
def parse? (buf : List UInt8) : Option (Option (Ben × List UInt8)) :=
  parseWith? (2 * buf.length + 1) buf

/-- Look up a key in a dictionary. -/
def Ben.get? (key : List UInt8) : Ben → Option (Option Ben)
  | .dict d => Dict.get? key d
  | _ => some none

/-! ### No fault -/

theorem parseBytes?_eq {buf : List UInt8} (hbuf : buf.length < 2 ^ 63) :
  parseBytes? buf = some (parseBytes buf)
  := by
  unfold parseBytes? parseBytes
  cases hcolon : buf.idxOf? (UInt8.ofNat ':'.toNat) with
  | none => rfl
  | some colon =>
      obtain ⟨text, tail, rfl, -, rfl⟩ := idxOf?_eq_some_iff.mp hcolon
      have hfit : text.length + 1 ≤ (text ++ UInt8.ofNat ':'.toNat :: tail).length := by
        simp only [List.length_append, List.length_cons]
        omega
      rw [need_some, Checked.slice_to (by omega), Option.bind_some, Option.bind_eq_bind,
        Option.bind_some]
      cases parseDecimal (2 ^ 64) (asciiText (List.take text.length
          (text ++ UInt8.ofNat ':'.toNat :: tail))) with
      | none => rfl
      | some len =>
          rw [need_some, Option.bind_some]
          dsimp only
          by_cases hlong : (text ++ UInt8.ofNat ':'.toNat :: tail).length < text.length + 1 + len
          · rw [if_pos hlong]
            by_cases hadd : text.length + 1 + len < 2 ^ 64
            · rw [checkedAdd, if_pos hadd, need_some, if_pos hlong]
            · rw [checkedAdd, if_neg hadd, need_none]
          · rw [if_neg hlong, checkedAdd, if_pos (by omega), need_some, if_neg hlong,
              Checked.slice_eq (by omega) (by omega), Option.bind_some,
              Checked.slice_from (by omega), Option.map_some]
            simp

/-- With fuel for this many bytes the reader does not fault. -/
def SoundValues (n : ℕ) : Prop :=
  ∀ {buf : List UInt8}, buf.length < 2 ^ 63 → 2 * buf.length + 1 ≤ n
    → parseWith? n buf = some (parseWith n buf)

def SoundItems (n : ℕ) : Prop :=
  ∀ {buf : List UInt8} (items : List Ben), buf.length < 2 ^ 63 → 2 * buf.length + 2 ≤ n
    → parseItems? n items buf
      = some ((parseItems n buf).map fun p => (items ++ p.1, UInt8.ofNat 'e'.toNat :: p.2))

def SoundEntries (n : ℕ) : Prop :=
  ∀ {buf : List UInt8} {d : Dict}, d.Sorted → buf.length < 2 ^ 63 → 2 * buf.length + 2 ≤ n
    → parseEntries? n d buf
      = some ((parseEntries n d buf).map fun p => (p.1, UInt8.ofNat 'e'.toNat :: p.2))

theorem slice_tail (b : UInt8) (buf : List UInt8) :
  Checked.slice (b :: buf) 1 (b :: buf).length = some buf
  := by
  rw [Checked.slice_from (by simp), List.drop_succ_cons, List.drop_zero]

theorem SoundValues.succ {n : ℕ} (hitems : SoundItems n) (hentries : SoundEntries n) :
  SoundValues (n + 1)
  := by
  intro buf hbuf hn
  cases buf with
  | nil => rw [parseWith?, parseWith, List.head?_nil, need_none]
  | cons b buf =>
      have hshort : buf.length < 2 ^ 63 := by
        rw [List.length_cons] at hbuf
        omega
      have hfuel : 2 * buf.length + 2 ≤ n := by
        rw [List.length_cons] at hn
        omega
      rw [parseWith?, parseWith, List.head?_cons, need_some]
      split
      · -- The end mark stands after the first byte, which is another one.
        rename_i hb
        cases hstop : (b :: buf).idxOf? (UInt8.ofNat 'e'.toNat) with
        | none => rfl
        | some stop =>
            obtain ⟨a, tail, heq, hfree, rfl⟩ := idxOf?_eq_some_iff.mp hstop
            have hpos : 1 ≤ a.length := by
              cases a with
              | nil =>
                  rw [hb, List.nil_append, List.cons.injEq] at heq
                  exact absurd heq.1 (by decide)
              | cons c text => simp
            have hlen : a.length + 1 ≤ (b :: buf).length := by
              rw [heq, List.length_append, List.length_cons]
              omega
            rw [need_some, Checked.slice_eq hpos (by omega), Option.bind_some,
              Checked.slice_from hlen, Option.bind_eq_bind, Option.bind_some, List.drop_take]
            cases parseI64 (asciiText (List.take (a.length - 1) (List.drop 1 (b :: buf)))) with
            | none => rfl
            | some m => rfl
      · split
        · rw [slice_tail, Option.bind_some, hitems [] hshort hfuel]
          cases parseItems n buf with
          | none => rfl
          | some p =>
              rw [Option.map_some, needs_some, need_some, slice_tail]
              rfl
        · split
          · rw [slice_tail, Option.bind_some, hentries Dict.Sorted.nil hshort hfuel]
            cases parseEntries n [] buf with
            | none => rfl
            | some p =>
                rw [Option.map_some, needs_some, need_some, slice_tail]
                rfl
          · split
            · rw [parseBytes?_eq hbuf]
              cases parseBytes (b :: buf) with
              | none => rfl
              | some p => rfl
            · rfl

theorem SoundItems.succ {n : ℕ} (hvalues : SoundValues n) (hitems : SoundItems n) :
  SoundItems (n + 1)
  := by
  intro buf items hbuf hn
  cases buf with
  | nil =>
      rw [parseItems?, parseItems, List.head?_nil, need_none]
      rfl
  | cons b buf =>
      rw [parseItems?, parseItems, List.head?_cons, need_some]
      split
      · rename_i hb
        rw [Option.map_some, List.append_nil, hb]
      · rw [hvalues hbuf (by omega), needs_some]
        cases hread : parseWith n (b :: buf) with
        | none => rfl
        | some p =>
            obtain ⟨item, rest⟩ := p
            have hrest := length_lt_of_parseWith hread
            rw [need_some, Option.bind_eq_bind, Option.bind_some]
            dsimp only
            rw [hitems _ (by omega) (by omega)]
            cases parseItems n rest with
            | none => rfl
            | some q => simp

theorem SoundEntries.succ {n : ℕ} (hvalues : SoundValues n) (hentries : SoundEntries n) :
  SoundEntries (n + 1)
  := by
  intro buf d hd hbuf hn
  cases buf with
  | nil =>
      rw [parseEntries?, parseEntries, List.head?_nil, need_none]
      rfl
  | cons b buf =>
      rw [parseEntries?, parseEntries, List.head?_cons, need_some]
      split
      · rename_i hb
        rw [Option.map_some, hb]
      · rw [parseBytes?_eq hbuf, needs_some]
        cases hkey : parseBytes (b :: buf) with
        | none => rfl
        | some p =>
            obtain ⟨key, rest⟩ := p
            have hrest := length_lt_of_parseBytes hkey
            rw [need_some, Option.bind_eq_bind, Option.bind_some]
            dsimp only
            rw [hvalues (by omega) (by omega), needs_some]
            cases hread : parseWith n rest with
            | none => rfl
            | some q =>
                obtain ⟨value, rest'⟩ := q
                have hrest' := length_lt_of_parseWith hread
                rw [need_some, Option.bind_eq_bind, Option.bind_some]
                dsimp only
                rw [Dict.insert?_eq hd, Option.bind_some,
                  hentries (hd.insert key value) (by omega) (by omega)]

theorem sound (n : ℕ) :
  SoundValues n ∧ SoundItems n ∧ SoundEntries n
  := by
  induction n with
  | zero =>
      refine ⟨?_, ?_, ?_⟩
      · intro buf _ hn
        omega
      · intro buf items _ hn
        omega
      · intro buf d _ _ hn
        omega
  | succ n ih =>
      obtain ⟨hvalues, hitems, hentries⟩ := ih
      exact ⟨SoundValues.succ hitems hentries, SoundItems.succ hvalues hitems,
        SoundEntries.succ hvalues hentries⟩

/-- The decoder does not fault, and gives what it gives when nothing is checked. -/
theorem parse?_eq {buf : List UInt8} (hbuf : buf.length < 2 ^ 63) :
  parse? buf = some (parse buf)
  := (sound _).1 hbuf le_rfl

/-- On sorted entries every key that is there is found. -/
theorem Ben.get?_of_mem {d : Dict} (hd : d.Sorted) {k : List UInt8} {w : Ben} (h : (k, w) ∈ d) :
  (Ben.dict d).get? k = some (some w)
  := by
  rw [Ben.get?, Dict.get?_eq hd, (hd.distinct.mem_iff k w).mp h]

/-- Bencode delimits itself and is faithful.  An ordered value is read back from its encoding,
with exactly what followed it left over.  On every buffer the decoder comes to an end without a
fault, and a value it gives is spelled by the bytes it took off, with the last value for a key
that is repeated.  The dictionaries of this value are sorted, so that the keys in them are
found.  A buffer has fewer bytes than a pointer offset can count. -/
theorem bencode_faithful :
  (∀ (v : Ben) (s : List UInt8), v.Ordered → (v.encode ++ s).length < 2 ^ 63
      → parse? (v.encode ++ s) = some (some (v, s)))
    ∧ ∀ b : List UInt8, b.length < 2 ^ 63 → ∃ r, parse? b = some r
      ∧ ∀ v rest, r = some (v, rest) →
        (∃ a, b = a ++ rest ∧ Spells a v) ∧ v.Ordered
          ∧ ∀ d k w, Ben.Part (.dict d) v → (k, w) ∈ d → (Ben.dict d).get? k = some (some w)
  := by
  constructor
  · intro v s hv hlen
    have hspells : Spells v.encode v := by
      apply spells_encode v hv
      rw [List.length_append] at hlen
      omega
    rw [parse?_eq hlen, parse_eq_some_iff.mpr ⟨v.encode, rfl, hspells⟩]
  · intro b hb
    refine ⟨parse b, parse?_eq hb, ?_⟩
    intro v rest hr
    obtain ⟨a, heq, hspells⟩ := parse_eq_some_iff.mp hr
    refine ⟨⟨a, heq, hspells⟩, hspells.ordered, ?_⟩
    intro d k w hpart hmem
    exact Ben.get?_of_mem (hspells.ordered.sorted hpart) hmem

/-- The bytes of a dictionary in which a key is repeated. -/
def repeated : List UInt8 :=
  asciiBytes "d1:ai1e1:ai3ee".toList

theorem bencode_faithful_repeated :
  parse? ((Ben.list [.int (-7), .bytes [101]]).encode ++ [100])
      = some (some (.list [.int (-7), .bytes [101]], [100]))
    ∧ (∃ r, parse? repeated = some r
      ∧ ∀ v rest, r = some (v, rest) →
        (∃ a, repeated = a ++ rest ∧ Spells a v) ∧ v.Ordered
          ∧ ∀ d k w, Ben.Part (.dict d) v → (k, w) ∈ d → (Ben.dict d).get? k = some (some w))
    ∧ parse? repeated = some (some (.dict [([97], .int 3)], []))
  := by
  refine ⟨?_, ?_, ?_⟩
  · apply bencode_faithful.1
    · apply Ben.Ordered.list
      simp only [List.mem_cons, List.not_mem_nil, or_false, forall_eq_or_imp, forall_eq]
      exact ⟨.int _, .bytes _⟩
    · decide
  · exact bencode_faithful.2 repeated (by decide)
  · rfl

end ZeroNat.Dht

import ZeroNat.Config.Render

/-!
# Documents

A config file that is written is a list of sheets, each a table of the grammar with some of
its keys.  The parser reads a document back: it fills the record of each sheet and closes the
records in turn.
-/

namespace ZeroNat.Config

/-! ### Entries -/

/-- A key of a table with a value: how the value is written, and what it makes of a record. -/
structure Entry where
  name : String
  kind : Key
  text : List Char
  fill : Record → Record

namespace Entry

/-- An entry is read back as what it makes of a record. -/
structure Sound (e : Entry) : Prop where
  name : KeyName e.name
  written : Written e.text
  read : ∀ (r : Record) (n : ℕ), r.set e.kind e.text n = .ok (e.fill r)

def str (name : String) (i : Fin 6) (s : String) : Entry :=
  ⟨name, .str i, quote s, fun r => { r with strs := Function.update r.strs i (some s) }⟩

def bool (name : String) (i : Fin 4) (b : Bool) : Entry :=
  ⟨name, .bool i, flag b, fun r => { r with bools := Function.update r.bools i (some b) }⟩

def int (name : String) (v : UInt16) : Entry :=
  ⟨name, .int, decimal v.toNat, fun r => { r with int := some v }⟩

def idle (name : String) (v : UInt32) : Entry :=
  ⟨name, .idle, decimal v.toNat, fun r => { r with idle := some v }⟩

def proto (name : String) (p : Proto) : Entry :=
  ⟨name, .proto, quote (protoStr p), fun r => { r with proto := some p }⟩

def transport (name : String) (t : Transport) : Entry :=
  ⟨name, .transport, quote (transportStr t), fun r => { r with transport := some t }⟩

def ip (name : String) (ip : Ipv4Addr) : Entry :=
  ⟨name, .ip, quote (String.ofList (ipText ip)), fun r => { r with ip := some ip }⟩

def cidr (name : String) (ip : Ipv4Addr) (len : UInt8) : Entry :=
  ⟨name, .cidr, quote (String.ofList (cidrText ip len)),
    fun r => { r with address := some (ip, len) }⟩

def strList (name : String) (l : List String) : Entry :=
  ⟨name, .strList, listText l, fun r => { r with allow := some l }⟩

/-- An entry that a table allows and that is read back. -/
structure Fits (t : TableDef) (e : Entry) : Prop where
  sound : e.Sound
  kind : t.kind e.name.toList = some e.kind

end Entry

/-- A table has a key of a kind. -/
def TableDef.Reads (t : TableDef) (name : String) (k : Key) : Prop :=
  KeyName name ∧ t.kind name.toList = some k

instance (t : TableDef) (name : String) (k : Key) : Decidable (t.Reads name k) :=
  inferInstanceAs (Decidable (_ ∧ _))

namespace Entry

section Fits

variable {t : TableDef} {name : String}

theorem fits_str {i : Fin 6} (hk : t.Reads name (.str i)) {s : String} (h : Printable s) :
  (str name i s).Fits t
  := ⟨⟨hk.1, written_quote h,
    fun r n => by simp [str, Record.set, parseString_quote h, Except.map]⟩, hk.2⟩

theorem fits_bool {i : Fin 4} (hk : t.Reads name (.bool i)) (b : Bool) :
  (bool name i b).Fits t
  := ⟨⟨hk.1, written_flag b,
    fun r n => by simp [bool, Record.set, parseBool_flag, Except.map]⟩, hk.2⟩

theorem fits_int (hk : t.Reads name .int) (v : UInt16) :
  (int name v).Fits t
  := ⟨⟨hk.1, written_decimal _,
    fun r n => by simp [int, Record.set, parseInt_decimal, Except.map]⟩, hk.2⟩

theorem fits_idle (hk : t.Reads name .idle) {v : UInt32} (h : v ≠ 0) :
  (idle name v).Fits t
  := ⟨⟨hk.1, written_decimal _, fun r n => by simp [idle, Record.set, parseU32_decimal, h]⟩,
    hk.2⟩

theorem fits_proto (hk : t.Reads name .proto) (p : Proto) :
  (proto name p).Fits t
  := ⟨⟨hk.1, written_quote (printable_protoStr p),
    fun r n => by simp [proto, Record.set, parseProto_quote, Except.map]⟩, hk.2⟩

theorem fits_transport (hk : t.Reads name .transport) (v : Transport) :
  (transport name v).Fits t
  := ⟨⟨hk.1, written_quote (printable_transportStr v),
    fun r n => by simp [transport, Record.set, parseTransport_quote, Except.map]⟩, hk.2⟩

theorem fits_ip (hk : t.Reads name .ip) (a : Ipv4Addr) :
  (ip name a).Fits t
  := ⟨⟨hk.1, written_quote (printable_ipText a),
    fun r n => by simp [ip, Record.set, parseIp_quote, Except.map]⟩, hk.2⟩

theorem fits_cidr (hk : t.Reads name .cidr) (a : Ipv4Addr) {len : UInt8} (h : len.toNat ≤ 32) :
  (cidr name a len).Fits t
  := ⟨⟨hk.1, written_quote (printable_cidrText a len),
    fun r n => by simp [cidr, Record.set, parseCidr_quote a h, Except.map]⟩, hk.2⟩

theorem fits_strList (hk : t.Reads name .strList) {l : List String}
    (h : ∀ s ∈ l, Printable s) :
  (strList name l).Fits t
  := ⟨⟨hk.1, written_listText h,
    fun r n => by simp [strList, Record.set, parseStringList_listText h, Except.map]⟩, hk.2⟩

end Fits

/-- The entry of a key that has a value or not. -/
def opt {α : Type} (f : α → Entry) (o : Option α) : List Entry :=
  o.toList.map f

section Groups

variable {α : Type} {t : TableDef} {f : α → Entry} {o : Option α} {groups : List (List Entry)}

theorem fits_nil :
  ∀ e ∈ ([] : List (List Entry)).flatten, e.Fits t
  := by simp

theorem fits_cons (h : ∀ a ∈ o, (f a).Fits t) (hrest : ∀ e ∈ groups.flatten, e.Fits t) :
  ∀ e ∈ (opt f o :: groups).flatten, e.Fits t
  := by
  intro e he
  rw [List.flatten_cons, List.mem_append] at he
  obtain he | he := he
  · obtain ⟨a, ha, rfl⟩ := List.mem_map.mp he
    exact h a (Option.mem_toList.mp ha)
  · exact hrest e he

theorem names_nil :
  (([] : List (List Entry)).flatten.map Entry.name).Sublist []
  := .slnil

theorem names_cons {name : String} {names : List String} (h : ∀ a, (f a).name = name)
    (hrest : (groups.flatten.map Entry.name).Sublist names) :
  ((opt f o :: groups).flatten.map Entry.name).Sublist (name :: names)
  := by
  cases o with
  | none => exact hrest.cons name
  | some a =>
      have hcons : (opt f (some a) :: groups).flatten.map Entry.name
          = name :: groups.flatten.map Entry.name := by
        simp [opt, h]
      rw [hcons]
      exact hrest.cons_cons name

end Groups

/-- What entries make of a record, one after the other. -/
def fillAll (entries : List Entry) (r : Record) : Record :=
  entries.foldl (fun r e => e.fill r) r

/-- Write entries after what is there. -/
def write (out : List Char) (entries : List Entry) : List Char :=
  entries.foldl (fun out e => kvRaw out e.name e.text) out

@[simp]
theorem fillAll_nil (r : Record) :
  fillAll [] r = r
  := rfl

@[simp]
theorem fillAll_append (l m : List Entry) (r : Record) :
  fillAll (l ++ m) r = fillAll m (fillAll l r)
  := List.foldl_append

@[simp]
theorem write_nil (out : List Char) :
  write out [] = out
  := rfl

@[simp]
theorem write_append (out : List Char) (l m : List Entry) :
  write out (l ++ m) = write (write out l) m
  := List.foldl_append

@[simp]
theorem fillAll_str (name : String) (i : Fin 6) (o : Option String) (r : Record) :
  fillAll (opt (str name i) o) r
    = { r with strs := Function.update r.strs i (o.or (r.strs i)) }
  := by
  cases o <;> simp [opt, fillAll, str]

@[simp]
theorem fillAll_bool (name : String) (i : Fin 4) (o : Option Bool) (r : Record) :
  fillAll (opt (bool name i) o) r
    = { r with bools := Function.update r.bools i (o.or (r.bools i)) }
  := by
  cases o <;> simp [opt, fillAll, bool]

@[simp]
theorem fillAll_int (name : String) (o : Option UInt16) (r : Record) :
  fillAll (opt (int name) o) r = { r with int := o.or r.int }
  := by
  cases o <;> simp [opt, fillAll, int]

@[simp]
theorem fillAll_idle (name : String) (o : Option UInt32) (r : Record) :
  fillAll (opt (idle name) o) r = { r with idle := o.or r.idle }
  := by
  cases o <;> simp [opt, fillAll, idle]

@[simp]
theorem fillAll_proto (name : String) (o : Option Proto) (r : Record) :
  fillAll (opt (proto name) o) r = { r with proto := o.or r.proto }
  := by
  cases o <;> simp [opt, fillAll, proto]

@[simp]
theorem fillAll_transport (name : String) (o : Option Transport) (r : Record) :
  fillAll (opt (transport name) o) r = { r with transport := o.or r.transport }
  := by
  cases o <;> simp [opt, fillAll, transport]

@[simp]
theorem fillAll_ip (name : String) (o : Option Ipv4Addr) (r : Record) :
  fillAll (opt (ip name) o) r = { r with ip := o.or r.ip }
  := by
  cases o <;> simp [opt, fillAll, ip]

@[simp]
theorem fillAll_cidr (name : String) (o : Option (Ipv4Addr × UInt8)) (r : Record) :
  fillAll (opt (fun a => cidr name a.1 a.2) o) r = { r with address := o.or r.address }
  := by
  cases o <;> simp [opt, fillAll, cidr]

@[simp]
theorem fillAll_strList (name : String) (o : Option (List String)) (r : Record) :
  fillAll (opt (strList name) o) r = { r with allow := o.or r.allow }
  := by
  cases o <;> simp [opt, fillAll, strList]

end Entry

/-! ### Sheets -/

/-- A table that is written: its position in the grammar, its definition and its entries. -/
structure Sheet where
  table : ℕ
  tdef : TableDef
  entries : List Entry

/-- The record that reading a sheet leaves. -/
def Sheet.record (s : Sheet) : Record :=
  Entry.fillAll s.entries Record.default

/-- The header of a table of the grammars: letters, in brackets or not. -/
def HeaderName (header : String) : Prop :=
  ∀ c ∈ header.toList, c.isLower = true ∨ c = '[' ∨ c = ']'

instance : DecidablePred HeaderName := fun header =>
  List.decidableBAll (fun c : Char => c.isLower = true ∨ c = '[' ∨ c = ']') header.toList

/-- A grammar has a table at a position, and finds it by its header. -/
def Grammar.Has (g : Grammar) (i : ℕ) (t : TableDef) : Prop :=
  HeaderName t.header ∧ g.lookup t.header.toList = some (i, t)

instance (g : Grammar) (i : ℕ) (t : TableDef) : Decidable (g.Has i t) :=
  inferInstanceAs (Decidable (_ ∧ _))

/-- A sheet that the grammar allows, with entries that are read back. -/
structure Sheet.Sound (g : Grammar) (s : Sheet) : Prop where
  has : g.Has s.table s.tdef
  entries : ∀ e ∈ s.entries, e.Fits s.tdef
  distinct : (s.entries.map Entry.name).Nodup

/-- Write a sheet after what is there. -/
def writeSheet (out : List Char) (s : Sheet) : List Char :=
  Entry.write (table out ("[" ++ s.tdef.header ++ "]")) s.entries

/-- The text of a document. -/
def writeDoc (doc : List Sheet) : List Char :=
  doc.foldl writeSheet []

/-- A key that is written when it has a value. -/
def putSome (out : List Char) (key : String) : Option String → List Char
  | some s => kvQuoted out key s
  | none => out

theorem write_str (out : List Char) (name : String) (i : Fin 6) (o : Option String) :
  Entry.write out (Entry.opt (Entry.str name i) o) = putSome out name o
  := by
  cases o <;> rfl

/-! ### The lines of a document -/

def unlines (ls : List (List Char)) : List Char :=
  ls.flatMap (· ++ ['\n'])

theorem unlines_append (ls ms : List (List Char)) :
  unlines (ls ++ ms) = unlines ls ++ unlines ms
  := List.flatMap_append

theorem unlines_eq_nil {ls : List (List Char)} :
  unlines ls = [] ↔ ls = []
  := by
  cases ls <;> simp [unlines]

theorem lines_unlines {ls : List (List Char)} (h : ∀ l ∈ ls, ∀ c ∈ l, 0x20 ≤ c.toNat) :
  lines (unlines ls) = ls
  := by
  induction ls with
  | nil => rfl
  | cons l ls ih =>
      have ih' := ih fun m hm => h m (List.mem_cons_of_mem _ hm)
      have hcons : unlines (l :: ls) = l ++ '\n' :: unlines ls := by
        simp [unlines]
      rw [hcons, lines_append (h l List.mem_cons_self), ih']

/-- The line of a table header. -/
def headerLine (t : TableDef) : List Char :=
  '[' :: (t.header.toList ++ [']'])

theorem table_eq (header : String) (t : TableDef) (h : header.toList = headerLine t)
    (out : List Char) :
  table out ("[" ++ t.header ++ "]") = table out header
  := by
  rw [table, table, h]
  simp [headerLine]

/-- The lines of a sheet. -/
def sheetLines (s : Sheet) : List (List Char) :=
  headerLine s.tdef :: s.entries.map fun e => kvLine e.name e.text

/-- The lines of the sheets after the first, each after an empty line. -/
def restLines (doc : List Sheet) : List (List Char) :=
  doc.flatMap fun s => [] :: sheetLines s

/-- The lines of a document. -/
def docLines : List Sheet → List (List Char)
  | [] => []
  | s :: doc => sheetLines s ++ restLines doc

theorem kvRaw_unlines (ls : List (List Char)) (key : String) (v : List Char) :
  kvRaw (unlines ls) key v = unlines (ls ++ [kvLine key v])
  := by
  simp [kvRaw, unlines, kvLine]

theorem write_unlines (ls : List (List Char)) (entries : List Entry) :
  Entry.write (unlines ls) entries
    = unlines (ls ++ entries.map fun e => kvLine e.name e.text)
  := by
  induction entries generalizing ls with
  | nil => simp [Entry.write]
  | cons e entries ih =>
      rw [Entry.write, List.foldl_cons, kvRaw_unlines, ← Entry.write, ih, List.append_assoc]
      rfl

theorem table_unlines (ls : List (List Char)) (t : TableDef) :
  table (unlines ls) ("[" ++ t.header ++ "]")
    = unlines (ls ++ (if ls = [] then [] else [[]]) ++ [headerLine t])
  := by
  rw [table]
  by_cases h : ls = []
  · simp [h, unlines, headerLine]
  · rw [if_neg (mt unlines_eq_nil.mp h), if_neg h]
    simp [unlines, headerLine]

theorem writeSheet_unlines (ls : List (List Char)) (s : Sheet) :
  writeSheet (unlines ls) s
    = unlines (ls ++ (if ls = [] then [] else [[]]) ++ sheetLines s)
  := by
  rw [writeSheet, table_unlines, write_unlines, List.append_assoc]
  rfl

theorem foldl_writeSheet_unlines {ls : List (List Char)} (h : ls ≠ []) (doc : List Sheet) :
  doc.foldl writeSheet (unlines ls) = unlines (ls ++ restLines doc)
  := by
  induction doc generalizing ls with
  | nil => simp [restLines]
  | cons s doc ih =>
      rw [List.foldl_cons, writeSheet_unlines, if_neg h, ih (by simp [h])]
      simp [restLines]

theorem writeDoc_eq (doc : List Sheet) :
  writeDoc doc = unlines (docLines doc)
  := by
  cases doc with
  | nil => rfl
  | cons s doc =>
      have hfirst : writeSheet [] s = unlines (sheetLines s) := writeSheet_unlines [] s
      rw [writeDoc, List.foldl_cons, hfirst, foldl_writeSheet_unlines (by simp [sheetLines]),
        docLines]

theorem one_line_headerLine {t : TableDef} (h : HeaderName t.header) :
  ∀ c ∈ headerLine t, 0x20 ≤ c.toNat ∧ c ≠ '"' ∧ c ≠ '#'
  := by
  intro c hc
  simp only [headerLine, List.mem_cons, List.mem_append, List.not_mem_nil, or_false] at hc
  obtain rfl | hc | rfl := hc
  · decide
  · obtain hlower | rfl | rfl := h c hc
    · have hlow := (bounds_of_isLower hlower).1
      refine ⟨by omega, ?_, ?_⟩ <;> rintro rfl <;> simp at hlow
    · decide
    · decide
  · decide

section Lines

variable {g : Grammar} {s : Sheet} {doc : List Sheet}

theorem one_line_sheetLines (h : s.Sound g) :
  ∀ l ∈ sheetLines s, ∀ c ∈ l, 0x20 ≤ c.toNat
  := by
  intro l hl
  obtain rfl | hl := List.mem_cons.mp hl
  · intro c hc
    exact (one_line_headerLine h.has.1 c hc).1
  · obtain ⟨e, he, rfl⟩ := List.mem_map.mp hl
    have hsound := (h.entries e he).sound
    exact one_line_kvLine hsound.name hsound.written

theorem one_line_docLines (h : ∀ s ∈ doc, s.Sound g) :
  ∀ l ∈ docLines doc, ∀ c ∈ l, 0x20 ≤ c.toNat
  := by
  cases doc with
  | nil => simp [docLines]
  | cons s doc =>
      intro l hl
      rw [docLines, List.mem_append] at hl
      obtain hl | hl := hl
      · exact one_line_sheetLines (h s List.mem_cons_self) l hl
      · obtain ⟨s', hs', hl⟩ := List.mem_flatMap.mp hl
        obtain rfl | hl := List.mem_cons.mp hl
        · simp
        · exact one_line_sheetLines (h s' (List.mem_cons_of_mem _ hs')) l hl

/-- The lines of a document that is written. -/
theorem lines_writeDoc (h : ∀ s ∈ doc, s.Sound g) :
  lines (writeDoc doc) = docLines doc
  := by
  rw [writeDoc_eq, lines_unlines (one_line_docLines h)]

end Lines

/-! ### Reading a document -/

section Reading

variable {σ : Type} {g : Grammar} {close : σ → ℕ → Record → ℕ → Except String σ}

/-- Closing records in turn leads from one state to another, whatever the lines they are closed
at. -/
inductive Accepts (close : σ → ℕ → Record → ℕ → Except String σ) :
    σ → List (ℕ × Record) → σ → Prop where
  | nil {acc : σ} : Accepts close acc [] acc
  | cons {acc next last : σ} {i : ℕ} {r : Record} {rest : List (ℕ × Record)} :
    (∀ n, close acc i r n = .ok next) → Accepts close next rest last →
    Accepts close acc ((i, r) :: rest) last

theorem Accepts.append {acc mid last : σ} {l m : List (ℕ × Record)}
    (h : Accepts close acc l mid) (h' : Accepts close mid m last) :
  Accepts close acc (l ++ m) last
  := by
  induction h with
  | nil => exact h'
  | cons hclose _ ih => exact .cons hclose (ih h')

theorem parseLine_blank (n : ℕ) (p : Progress σ) :
  parseLine g close n [] p = .ok p
  := rfl

theorem trim_headerLine {t : TableDef} :
  trim (headerLine t) = headerLine t
  := by
  refine trim_eq_self ⟨'[', rfl, by decide⟩ ⟨']', ?_, by decide⟩
  rw [headerLine, ← List.cons_append, List.getLast?_append]
  rfl

theorem stripComment_headerLine {t : TableDef} (h : HeaderName t.header) :
  stripComment (headerLine t) = headerLine t
  := by
  have hscan : scanTo '#' false false (headerLine t) = none :=
    scanTo_eq_none fun c hc => (one_line_headerLine h c hc).2
  rw [stripComment, hscan]

/-- A header closes the table before it and starts its own. -/
theorem parseLine_headerLine {s : Sheet} (h : s.Sound g) {p : Progress σ} {acc : σ} (n : ℕ)
    (hclose : closeCurrent close n p = .ok acc)
    (hseen : s.tdef.single = true → s.table ∉ p.seen) :
  parseLine g close n (headerLine s.tdef) p
    = .ok ⟨some (s.table, s.tdef), if s.tdef.single then s.table :: p.seen else p.seen,
        Record.default, [], acc⟩
  := by
  have hlast : (s.tdef.header.toList ++ [']']).getLast? = some ']' := by
    rw [List.getLast?_append]
    rfl
  rw [parseLine, stripComment_headerLine h.has.1, trim_headerLine]
  change parseHeader g close n (s.tdef.header.toList ++ [']']) p = _
  rw [parseHeader, hclose]
  simp only [bind, Except.bind, hlast, if_true, List.dropLast_concat, h.has.2]
  rw [if_neg fun hdup => hseen hdup.1 hdup.2]

/-- A line with a key fills the record. -/
theorem parseLine_kvLine {e : Entry} (he : e.Sound) {p : Progress σ} {i : ℕ} {t : TableDef}
    (hcur : p.current = some (i, t)) (hkind : t.kind e.name.toList = some e.kind)
    (hkeys : e.name.toList ∉ p.keys) (n : ℕ) :
  parseLine g close n (kvLine e.name e.text) p
    = .ok { p with record := e.fill p.record, keys := e.name.toList :: p.keys }
  := by
  have hvalid : ¬ (e.name.toList = [] ∨ e.name.toList.any isWhitespace = true) := by
    rintro (hnil | hany)
    · exact he.name.1 hnil
    · obtain ⟨c, hc, hblank⟩ := List.any_eq_true.mp hany
      have hbounds := he.name.bounds hc
      rw [isWhitespace_of_bounds (by omega)] at hblank
      simp at hblank
  obtain ⟨c, l, hline⟩ : ∃ c l, kvLine e.name e.text = c :: l ∧ c ≠ '[' := by
    cases hname : e.name.toList with
    | nil => exact absurd hname he.name.1
    | cons c l =>
        have hbounds := he.name.bounds (c := c) (by rw [hname]; exact List.mem_cons_self)
        refine ⟨c, l ++ " = ".toList ++ e.text, by rw [kvLine, hname]; rfl, ?_⟩
        rintro rfl
        simp at hbounds
  have hkv : parseLine g close n (kvLine e.name e.text) p
      = parseKv n (kvLine e.name e.text) p := by
    rw [parseLine, stripComment_kvLine he.name he.written, trim_kvLine he.name he.written,
      hline.1]
    split
    · contradiction
    · rename_i header heq
      exact absurd (List.cons.inj heq).1 hline.2
    · rfl
  rw [hkv, parseKv, splitKv_kvLine he.name he.written]
  dsimp only
  rw [if_neg hvalid, hcur]
  dsimp only
  rw [if_neg hkeys, hkind]
  dsimp only
  rw [he.read]
  rfl

theorem parseLines_append (n : ℕ) (ls ms : List (List Char)) (p : Progress σ) :
  parseLines g close n (ls ++ ms) p
    = (parseLines g close n ls p).bind (parseLines g close (n + ls.length) ms)
  := by
  induction ls generalizing n p with
  | nil => rfl
  | cons l ls ih =>
      rw [List.cons_append, parseLines, parseLines]
      cases parseLine g close (n + 1) l p with
      | error e => rfl
      | ok q =>
          dsimp only
          rw [ih, List.length_cons, show n + 1 + ls.length = n + (ls.length + 1) by omega]

/-- The keys of a sheet fill the record in turn. -/
theorem parseLines_entries {i : ℕ} {t : TableDef} {entries : List Entry} {p : Progress σ}
    (hcur : p.current = some (i, t))
    (hfits : ∀ e ∈ entries, e.Fits t)
    (hdistinct : (entries.map Entry.name).Nodup)
    (hkeys : ∀ e ∈ entries, e.name.toList ∉ p.keys) (n : ℕ) :
  ∃ keys, parseLines g close n (entries.map fun e => kvLine e.name e.text) p
    = .ok { p with record := Entry.fillAll entries p.record, keys := keys }
  := by
  induction entries generalizing n p with
  | nil => exact ⟨p.keys, rfl⟩
  | cons e entries ih =>
      obtain ⟨he, hkind⟩ := hfits e List.mem_cons_self
      obtain ⟨hfresh, hrest⟩ := List.nodup_cons.mp hdistinct
      have hline : parseLine g close (n + 1) (kvLine e.name e.text) p
          = .ok { p with record := e.fill p.record, keys := e.name.toList :: p.keys } :=
        parseLine_kvLine he hcur hkind (hkeys e List.mem_cons_self) (n + 1)
      rw [List.map_cons, parseLines, hline]
      refine ih (p := { p with record := e.fill p.record, keys := e.name.toList :: p.keys }) hcur
        (fun e' he' => hfits e' (List.mem_cons_of_mem _ he')) hrest ?_ (n + 1)
      intro e' he' hmem
      obtain heq | hmem := List.mem_cons.mp hmem
      · refine hfresh ?_
        rw [← String.toList_inj.mp heq]
        exact List.mem_map_of_mem he'
      · exact hkeys e' (List.mem_cons_of_mem _ he') hmem

/-- What is left to close. -/
def Progress.pending (p : Progress σ) : List (ℕ × Record) :=
  match p.current with
  | some (i, _) => [(i, p.record)]
  | none => []

theorem Accepts.closeCurrent {p : Progress σ} {rest : List (ℕ × Record)} {last : σ}
    (h : Accepts close p.acc (p.pending ++ rest) last) :
  ∃ acc, (∀ n, Config.closeCurrent close n p = .ok acc) ∧ Accepts close acc rest last
  := by
  rw [Progress.pending] at h
  cases hcur : p.current with
  | none =>
      rw [hcur] at h
      refine ⟨p.acc, ?_, h⟩
      intro n
      rw [Config.closeCurrent, hcur]
  | some c =>
      rw [hcur] at h
      cases h with
      | cons hclose hrest =>
          refine ⟨_, ?_, hrest⟩
          intro n
          rw [Config.closeCurrent, hcur]
          exact hclose n

/-- A sheet is read: the table before it is closed, and its own is left to close. -/
theorem parseLines_sheetLines {s : Sheet} (h : s.Sound g) {p : Progress σ} {last : σ}
    {rest : List (ℕ × Record)} (hacc : Accepts close p.acc (p.pending ++ rest) last)
    (hseen : s.tdef.single = true → s.table ∉ p.seen) (n : ℕ) :
  ∃ p' : Progress σ, parseLines g close n (sheetLines s) p = .ok p'
    ∧ p'.pending = [(s.table, s.record)] ∧ Accepts close p'.acc rest last
    ∧ p'.seen = if s.tdef.single then s.table :: p.seen else p.seen
  := by
  obtain ⟨acc, hclose, haccept⟩ := hacc.closeCurrent
  have hheader := parseLine_headerLine h (n + 1) (hclose _) hseen
  let q : Progress σ := ⟨some (s.table, s.tdef),
    if s.tdef.single then s.table :: p.seen else p.seen, Record.default, [], acc⟩
  have hread : ∃ keys, parseLines g close (n + 1) (s.entries.map fun e => kvLine e.name e.text) q
      = .ok { q with record := s.record, keys := keys } :=
    parseLines_entries rfl h.entries h.distinct (by simp [q]) (n + 1)
  obtain ⟨keys, hkeys⟩ := hread
  rw [sheetLines, parseLines, hheader]
  exact ⟨_, hkeys, rfl, haccept, rfl⟩

/-- A table that may appear once does not come after itself. -/
def Once (doc : List Sheet) : Prop :=
  doc.Pairwise fun s s' => s'.tdef.single = true → s.table ≠ s'.table

theorem once_nil :
  Once []
  := List.Pairwise.nil

theorem once_singleton (s : Sheet) :
  Once [s]
  := List.pairwise_singleton _ s

/-- Tables that may be repeated can come last. -/
theorem Once.append {doc doc' : List Sheet} (h : Once doc)
    (hmulti : ∀ s ∈ doc', s.tdef.single = false) :
  Once (doc ++ doc')
  := by
  have hnever : ∀ s : Sheet, ∀ s' ∈ doc', s'.tdef.single = true → s.table ≠ s'.table := by
    intro s s' hs' hsingle
    rw [hmulti s' hs'] at hsingle
    simp at hsingle
  refine List.pairwise_append.mpr ⟨h, ?_, fun s _ s' hs' => hnever s s' hs'⟩
  exact List.pairwise_iff_forall_sublist.mpr fun hsub =>
    hnever _ _ (hsub.subset (List.mem_cons_of_mem _ List.mem_cons_self))

/-- A table comes last that may appear once and comes after the others in the grammar. -/
theorem Once.append_option {α : Type} {doc : List Sheet} (h : Once doc) {sheet : α → Sheet}
    {o : Option α} (hlast : ∀ s ∈ doc, ∀ a, s.table < (sheet a).table) :
  Once (doc ++ o.toList.map sheet)
  := by
  cases o with
  | none =>
      rw [Option.toList_none, List.map_nil, List.append_nil]
      exact h
  | some a =>
      rw [Option.toList_some, List.map_singleton]
      refine List.pairwise_append.mpr ⟨h, List.pairwise_singleton _ _, ?_⟩
      intro s hs s' hs' _
      rw [List.mem_singleton.mp hs']
      exact (hlast s hs a).ne

theorem parseLines_restLines {doc : List Sheet} (h : ∀ s ∈ doc, s.Sound g) (honce : Once doc)
    {p : Progress σ} {last : σ}
    (hacc : Accepts close p.acc (p.pending ++ doc.map fun s => (s.table, s.record)) last)
    (hseen : ∀ s ∈ doc, s.tdef.single = true → s.table ∉ p.seen) (n : ℕ) :
  ∃ p' : Progress σ, parseLines g close n (restLines doc) p = .ok p'
    ∧ Accepts close p'.acc p'.pending last
  := by
  induction doc generalizing n p with
  | nil =>
      rw [List.map_nil, List.append_nil] at hacc
      exact ⟨p, rfl, hacc⟩
  | cons s doc ih =>
      obtain ⟨hfirst, hrest⟩ := List.pairwise_cons.mp honce
      obtain ⟨p', hp', hpending, haccept, hseen'⟩ := parseLines_sheetLines
        (h s List.mem_cons_self) hacc (hseen s List.mem_cons_self) (n + 1)
      have hlines : parseLines g close n (restLines (s :: doc)) p
          = parseLines g close (n + 1 + (sheetLines s).length) (restLines doc) p' := by
        rw [restLines, List.flatMap_cons, List.cons_append, parseLines, parseLine_blank]
        dsimp only
        rw [parseLines_append, hp']
        rfl
      rw [hlines]
      refine ih (fun s' hs' => h s' (List.mem_cons_of_mem _ hs')) hrest ?_ ?_ _
      · rw [hpending]
        exact haccept
      · intro s' hs' hsingle
        have hold := hseen s' (List.mem_cons_of_mem _ hs') hsingle
        have hne := hfirst s' hs' hsingle
        rw [hseen']
        split
        · simp [hold, Ne.symm hne]
        · exact hold

/-- A document is read back as what closing its records leads to. -/
theorem parseTables_writeDoc {doc : List Sheet} (h : ∀ s ∈ doc, s.Sound g) (honce : Once doc)
    {init last : σ}
    (hacc : Accepts close init (doc.map fun s => (s.table, s.record)) last) :
  parseTables g close init (writeDoc doc) = .ok last
  := by
  have hread : ∃ p' : Progress σ, parseLines g close 0 (docLines doc)
      ⟨none, [], Record.default, [], init⟩ = .ok p' ∧ Accepts close p'.acc p'.pending last := by
    cases doc with
    | nil => exact ⟨_, rfl, hacc⟩
    | cons s doc =>
        obtain ⟨hfirst, hrest⟩ := List.pairwise_cons.mp honce
        obtain ⟨p', hp', hpending, haccept, hseen'⟩ := parseLines_sheetLines
          (p := ⟨none, [], Record.default, [], init⟩) (h s List.mem_cons_self) hacc (by simp) 0
        rw [docLines, parseLines_append, hp']
        refine parseLines_restLines (fun s' hs' => h s' (List.mem_cons_of_mem _ hs')) hrest ?_ ?_ _
        · rw [hpending]
          exact haccept
        · intro s' hs' hsingle
          have hne := hfirst s' hs' hsingle
          rw [hseen']
          split
          · simp [Ne.symm hne]
          · simp
  obtain ⟨p', hp', haccept⟩ := hread
  rw [← List.append_nil p'.pending] at haccept
  obtain ⟨acc, hclose, hnil⟩ := haccept.closeCurrent
  cases hnil
  rw [parseTables, lines_writeDoc h, hp']
  exact hclose _

end Reading

end ZeroNat.Config

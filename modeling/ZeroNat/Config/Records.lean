import ZeroNat.Config.Document

/-!
# What is read can be written

A parser rejects the control characters that a quoted string cannot hold, so every value of a
record it hands over can be written again.  An invariant of the state that closing a sound
record keeps holds of what the parser returns.
-/

namespace ZeroNat.Config

theorem ok_of_map {α β : Type} {f : α → β} {x : Except String α} {b : β}
    (h : x.map f = .ok b) :
  ∃ a, x = .ok a ∧ f a = b
  := by
  cases x with
  | error e => simp [Except.map] at h
  | ok a => exact ⟨a, rfl, Except.ok.inj h⟩

theorem ok_of_bind {α β : Type} {x : Except String α} {f : α → Except String β} {b : β}
    (h : x >>= f = .ok b) :
  ∃ a, x = .ok a ∧ f a = .ok b
  := by
  cases x with
  | error e => simp [bind, Except.bind] at h
  | ok a => exact ⟨a, rfl, h⟩

/-! ### Strings -/

theorem printable_of_lexBody {n : ℕ} {l cs rest : List Char} (h : lexBody n l = .ok (cs, rest)) :
  ∀ c ∈ cs, 0x20 ≤ c.toNat
  := by
  induction l using lexBody.induct generalizing cs rest with
  | case1 => simp [lexBody] at h
  | case2 rest' =>
      rw [lexBody] at h
      obtain ⟨rfl, -⟩ := Prod.mk.inj (Except.ok.inj h)
      simp
  | case3 => simp [lexBody] at h
  | case4 esc rest' hesc ih =>
      rw [lexBody, if_pos hesc] at h
      obtain ⟨p, hbody, heq⟩ := ok_of_map h
      obtain ⟨rfl, -⟩ := Prod.mk.inj heq
      intro c hc
      obtain rfl | hc := List.mem_cons.mp hc
      · obtain rfl | rfl := hesc <;> decide
      · exact ih hbody c hc
  | case5 esc rest' hesc =>
      rw [lexBody, if_neg hesc] at h
      simp at h
  | case6 c rest' h1 h2 h3 hctl =>
      rw [lexBody.eq_5 _ _ _ h1 h2 h3, if_pos hctl] at h
      simp at h
  | case7 c rest' h1 h2 h3 hctl ih =>
      rw [lexBody.eq_5 _ _ _ h1 h2 h3, if_neg hctl] at h
      obtain ⟨p, hbody, heq⟩ := ok_of_map h
      obtain ⟨rfl, -⟩ := Prod.mk.inj heq
      intro d hd
      obtain rfl | hd := List.mem_cons.mp hd
      · omega
      · exact ih hbody d hd

theorem printable_of_lexString {value rest : List Char} {n : ℕ} {s : String}
    (h : lexString value n = .ok (s, rest)) :
  Printable s
  := by
  unfold lexString at h
  split at h
  · obtain ⟨p, hbody, heq⟩ := ok_of_map h
    obtain ⟨rfl, -⟩ := Prod.mk.inj heq
    exact printable_ofList (printable_of_lexBody hbody)
  · simp at h

theorem printable_of_parseString {value : List Char} {n : ℕ} {s : String}
    (h : parseString value n = .ok s) :
  Printable s
  := by
  rw [parseString, lexScalar] at h
  split at h
  · simp at h
  · rename_i s' hlex
    obtain rfl := Except.ok.inj h
    split at hlex
    · simp at hlex
    · split at hlex
      · split at hlex
        · simp at hlex
        · rename_i out rest hstring
          split at hlex
          · obtain rfl := Scalar.str.inj (Except.ok.inj hlex)
            exact printable_of_lexString hstring
          · simp at hlex
      · split at hlex <;> simp at hlex
  · simp at h

theorem printable_of_parseEntries {n fuel : ℕ} {value : List Char} {l : List String}
    (h : parseEntries n fuel value = .ok l) :
  ∀ s ∈ l, Printable s
  := by
  induction fuel generalizing value l with
  | zero =>
      obtain rfl := Except.ok.inj h
      simp
  | succ fuel ih =>
      rw [parseEntries] at h
      split at h
      · obtain rfl := Except.ok.inj h
        simp
      · split at h
        · simp at h
        · rename_i s after hlex
          have hs := printable_of_lexString hlex
          split at h
          · rename_i tail htail
            obtain ⟨l', hrest, rfl⟩ := ok_of_map h
            intro t ht
            obtain rfl | ht := List.mem_cons.mp ht
            · exact hs
            · exact ih hrest t ht
          · obtain rfl := Except.ok.inj h
            simpa using hs
          · simp at h

theorem printable_of_parseStringList {value : List Char} {n : ℕ} {l : List String}
    (h : parseStringList value n = .ok l) :
  ∀ s ∈ l, Printable s
  := by
  unfold parseStringList at h
  split at h
  · split at h
    · exact printable_of_parseEntries h
    · simp at h
  · simp at h

theorem len_of_parseCidr {value : List Char} {n : ℕ} {a : Ipv4Addr × UInt8}
    (h : parseCidr value n = .ok a) :
  a.2.toNat ≤ 32
  := by
  rw [parseCidr] at h
  split at h
  · simp at h
  · split at h
    · rename_i a' hcidr
      obtain rfl := Except.ok.inj h
      rw [cidrOfText] at hcidr
      split at hcidr
      · simp at hcidr
      · split at hcidr
        · split at hcidr
          · rename_i len _ hle
            obtain rfl := Option.some.inj hcidr
            simp only [UInt8.toNat_ofNat']
            omega
          · simp at hcidr
        · simp at hcidr
    · simp at h

/-! ### Records -/

/-- The values of a record can be written. -/
structure Record.Sound (r : Record) : Prop where
  strs : ∀ i s, r.strs i = some s → Printable s
  idle : ∀ v, r.idle = some v → v ≠ 0
  address : ∀ a, r.address = some a → a.2.toNat ≤ 32
  allow : ∀ l, r.allow = some l → ∀ s ∈ l, Printable s

theorem Record.Sound.default :
  Record.default.Sound
  := ⟨by simp [Record.default], by simp [Record.default], by simp [Record.default],
    by simp [Record.default]⟩

theorem Record.Sound.set {r r' : Record} (hr : r.Sound) {key : Key} {value : List Char} {n : ℕ}
    (h : r.set key value n = .ok r') :
  r'.Sound
  := by
  cases key with
  | str i =>
      obtain ⟨s, hs, rfl⟩ := ok_of_map h
      refine ⟨?_, hr.idle, hr.address, hr.allow⟩
      intro j t ht
      dsimp only at ht
      rw [Function.update_apply] at ht
      split at ht
      · obtain rfl := Option.some.inj ht
        exact printable_of_parseString hs
      · exact hr.strs j t ht
  | idle =>
      rw [Record.set] at h
      split at h
      · simp at h
      · split at h
        · simp at h
        · rename_i hne
          obtain rfl := Except.ok.inj h
          refine ⟨hr.strs, ?_, hr.address, hr.allow⟩
          rintro v ⟨⟩
          exact hne
  | cidr =>
      obtain ⟨a, ha, rfl⟩ := ok_of_map h
      refine ⟨hr.strs, hr.idle, ?_, hr.allow⟩
      rintro b ⟨⟩
      exact len_of_parseCidr ha
  | strList =>
      obtain ⟨l, hl, rfl⟩ := ok_of_map h
      refine ⟨hr.strs, hr.idle, hr.address, ?_⟩
      rintro m ⟨⟩
      exact printable_of_parseStringList hl
  | bool i =>
      obtain ⟨b, -, rfl⟩ := ok_of_map h
      exact ⟨hr.strs, hr.idle, hr.address, hr.allow⟩
  | int =>
      obtain ⟨v, -, rfl⟩ := ok_of_map h
      exact ⟨hr.strs, hr.idle, hr.address, hr.allow⟩
  | proto =>
      obtain ⟨p, -, rfl⟩ := ok_of_map h
      exact ⟨hr.strs, hr.idle, hr.address, hr.allow⟩
  | transport =>
      obtain ⟨t, -, rfl⟩ := ok_of_map h
      exact ⟨hr.strs, hr.idle, hr.address, hr.allow⟩
  | ip =>
      obtain ⟨a, -, rfl⟩ := ok_of_map h
      exact ⟨hr.strs, hr.idle, hr.address, hr.allow⟩

theorem ok_of_toOption {α : Type} {x : Except String α} {a : α} (h : x.toOption = some a) :
  x = .ok a
  := by
  cases x with
  | error e => simp [Except.toOption] at h
  | ok b => rw [Option.some.inj h]

theorem ok_of_required {record : Record} {i : Fin 6} {n : ℕ} {missing s : String}
    (h : record.required i n missing = .ok s) :
  record.strs i = some s
  := by
  rw [Record.required] at h
  split at h
  · rename_i t ht
    rw [ht, Except.ok.inj h]
  · simp at h

/-! ### What a parser returns -/

section Reading

variable {σ : Type} {g : Grammar} {close : σ → ℕ → Record → ℕ → Except String σ} {P : σ → Prop}

/-- Closing a sound record keeps an invariant. -/
def Keeps (close : σ → ℕ → Record → ℕ → Except String σ) (P : σ → Prop) : Prop :=
  ∀ acc i r n acc', P acc → r.Sound → close acc i r n = .ok acc' → P acc'

theorem Keeps.closeCurrent (hkeeps : Keeps close P) {n : ℕ} {p : Progress σ} {acc : σ}
    (hacc : P p.acc) (hr : p.record.Sound) (h : Config.closeCurrent close n p = .ok acc) :
  P acc
  := by
  rw [Config.closeCurrent] at h
  split at h
  · exact hkeeps _ _ _ _ _ hacc hr h
  · obtain rfl := Except.ok.inj h
    exact hacc

theorem Keeps.parseLine (hkeeps : Keeps close P) {n : ℕ} {raw : List Char} {p p' : Progress σ}
    (hacc : P p.acc) (hr : p.record.Sound) (h : Config.parseLine g close n raw p = .ok p') :
  P p'.acc ∧ p'.record.Sound
  := by
  rw [Config.parseLine] at h
  split at h
  · obtain rfl := Except.ok.inj h
    exact ⟨hacc, hr⟩
  · rw [parseHeader] at h
    cases hclose : Config.closeCurrent close n p with
    | error e => simp [hclose, bind, Except.bind] at h
    | ok acc =>
        simp only [hclose, bind, Except.bind] at h
        split at h
        · split at h
          · simp at h
          · split at h
            · simp at h
            · obtain rfl := Except.ok.inj h
              exact ⟨hkeeps.closeCurrent hacc hr hclose, Record.Sound.default⟩
        · simp at h
  · rw [parseKv] at h
    split at h
    · simp at h
    · split at h
      · simp at h
      · split at h
        · simp at h
        · split at h
          · simp at h
          · split at h
            · simp at h
            · obtain ⟨r, hset, rfl⟩ := ok_of_map h
              exact ⟨hacc, hr.set hset⟩

theorem Keeps.parseLines (hkeeps : Keeps close P) {n : ℕ} {ls : List (List Char)}
    {p p' : Progress σ} (hacc : P p.acc) (hr : p.record.Sound)
    (h : Config.parseLines g close n ls p = .ok p') :
  P p'.acc ∧ p'.record.Sound
  := by
  induction ls generalizing n p with
  | nil =>
      obtain rfl := Except.ok.inj h
      exact ⟨hacc, hr⟩
  | cons l ls ih =>
      rw [Config.parseLines] at h
      split at h
      · simp at h
      · rename_i q hq
        obtain ⟨hacc', hr'⟩ := hkeeps.parseLine hacc hr hq
        exact ih hacc' hr' h

/-- An invariant that closing keeps holds of what the parser returns. -/
theorem Keeps.parseTables (hkeeps : Keeps close P) {init acc : σ} {text : List Char}
    (hinit : P init) (h : Config.parseTables g close init text = .ok acc) :
  P acc
  := by
  rw [Config.parseTables] at h
  split at h
  · simp at h
  · rename_i p hp
    obtain ⟨hacc, hr⟩ := hkeeps.parseLines hinit Record.Sound.default hp
    exact hkeeps.closeCurrent hacc hr h

end Reading

end ZeroNat.Config

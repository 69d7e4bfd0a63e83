import Mathlib.Tactic
import Mathlib.Data.List.Basic

/-!
# Reading with a sticky error

A `Cursor` walks a list of bytes and keeps the first failure it meets.  A `Reader` runs
straight through its fields, since a read that comes after a failure, or that has too
little left to read, gives a default value and does not advance.

`Reads n p E` says that `p` reads exactly the values `a` whose spellings `bs` are given by
`E a bs`, at every cursor with no failure yet and at least `n` bytes left: a run that ends
without failure has consumed a spelling of the value it gives, and a cursor placed before
a spelling of a value is read as that value.  `Fixed n p E` adds that all spellings have
`n` bytes, and `ReadsAll n p E` is for a reader that must consume everything that is left.
They come with rules that follow the shape of a reader.
-/

variable {β ε α γ : Type}

/-- A position in a list of bytes, with the first failure met so far. -/
structure Cursor (β ε : Type) where
  bytes : List β
  pos : ℕ
  err : Option ε

/-- What is left to read. -/
def Cursor.rest (r : Cursor β ε) : List β :=
  r.bytes.drop r.pos

/-- The cursor `n` bytes further on. -/
def Cursor.advance (r : Cursor β ε) (n : ℕ) : Cursor β ε :=
  { r with pos := r.pos + n }

/-- A computation that reads from a cursor. -/
def Reader (β ε α : Type) : Type :=
  Cursor β ε → α × Cursor β ε

namespace Reader

instance : Monad (Reader β ε) where
  pure a := fun r => (a, r)
  bind p f := fun r => f (p r).1 (p r).2

@[simp]
theorem pure_apply (a : α) (r : Cursor β ε) :
  (pure a : Reader β ε α) r = (a, r)
  := rfl

@[simp]
theorem bind_apply (p : Reader β ε α) (f : α → Reader β ε γ) (r : Cursor β ε) :
  (p >>= f) r = f (p r).1 (p r).2
  := rfl

/-! ### Primitive reads -/

/-- Whether no read has failed yet. -/
def ok : Reader β ε Bool :=
  fun r => (r.err.isNone, r)

/-- Record a failure, unless there is one already. -/
def fail (e : ε) : Reader β ε Unit :=
  fun r => ((), if r.err.isNone then { r with err := some e } else r)

/-- Fail with `e` unless `n` more bytes are present. -/
def need (n : ℕ) (e : ε) : Reader β ε Unit :=
  fun r => ((), if r.err.isNone ∧ r.bytes.length < r.pos + n then { r with err := some e } else r)

/-- Fail with `e` unless the bytes end here. -/
def done (e : ε) : Reader β ε Unit :=
  fun r => ((), if r.err.isNone ∧ r.pos ≠ r.bytes.length then { r with err := some e } else r)

/-- Fail with `e` unless exactly `n` more bytes are present. -/
def left (n : ℕ) (e : ε) : Reader β ε Unit :=
  fun r => ((), if r.err.isNone ∧ r.pos + n ≠ r.bytes.length then { r with err := some e } else r)

/-- The next `n` bytes, or none of them when they are not all present or a read has
failed. -/
def take (n : ℕ) : Reader β ε (List β) :=
  fun r =>
    if r.err.isSome ∨ r.bytes.length < r.pos + n then ([], r)
    else ((r.bytes.drop r.pos).take n, { r with pos := r.pos + n })

/-- Run `body` up to `k` times, stopping at the first failure. -/
def times (body : Reader β ε α) : ℕ → Reader β ε (List α)
  | 0 => pure []
  | k + 1 => do
      if ← ok then
        let x ← body
        let xs ← times body k
        pure (x :: xs)
      else
        pure []

/-! ### Readers that run through a failure -/

/-- A reader that leaves the bytes alone and never forgets a failure. -/
structure Sticky (p : Reader β ε α) : Prop where
  bytes_eq (r : Cursor β ε) : (p r).2.bytes = r.bytes
  err_eq (r : Cursor β ε) : r.err ≠ none → (p r).2.err = r.err

theorem Sticky.pure (a : α) : Sticky (pure a : Reader β ε α) where
  bytes_eq _ := rfl
  err_eq _ _ := rfl

theorem Sticky.bind {p : Reader β ε α} {f : α → Reader β ε γ}
    (hp : Sticky p) (hf : ∀ a, Sticky (f a)) :
  Sticky (p >>= f)
  where
  bytes_eq r := by
    rw [bind_apply, (hf _).bytes_eq, hp.bytes_eq]
  err_eq r h := by
    have hpr := hp.err_eq r h
    rw [bind_apply, (hf _).err_eq _ (by rwa [hpr]), hpr]

/-- A bind that ends without failure ran its first part without failure. -/
theorem Sticky.err_none_of_bind {p : Reader β ε α} {f : α → Reader β ε γ}
    (hf : ∀ a, Sticky (f a)) {r : Cursor β ε} (h : ((p >>= f) r).2.err = none) :
  (p r).2.err = none
  := by
  by_contra hne
  rw [bind_apply, (hf _).err_eq _ hne] at h
  exact hne h

theorem Sticky.ok : Sticky (ok : Reader β ε Bool) where
  bytes_eq _ := rfl
  err_eq _ _ := rfl

theorem Sticky.fail (e : ε) : Sticky (fail e : Reader β ε Unit) where
  bytes_eq r := by
    simp only [Reader.fail]
    split <;> rfl
  err_eq r h := by
    simp [Reader.fail, Option.isNone_iff_eq_none, h]

theorem Sticky.need (n : ℕ) (e : ε) : Sticky (need n e : Reader β ε Unit) where
  bytes_eq r := by
    simp only [Reader.need]
    split <;> rfl
  err_eq r h := by
    simp [Reader.need, Option.isNone_iff_eq_none, h]

theorem Sticky.done (e : ε) : Sticky (done e : Reader β ε Unit) where
  bytes_eq r := by
    simp only [Reader.done]
    split <;> rfl
  err_eq r h := by
    simp [Reader.done, Option.isNone_iff_eq_none, h]

theorem Sticky.left (n : ℕ) (e : ε) : Sticky (left n e : Reader β ε Unit) where
  bytes_eq r := by
    simp only [Reader.left]
    split <;> rfl
  err_eq r h := by
    simp [Reader.left, Option.isNone_iff_eq_none, h]

theorem Sticky.take (n : ℕ) : Sticky (take n : Reader β ε (List β)) where
  bytes_eq r := by
    simp only [Reader.take]
    split <;> rfl
  err_eq r h := by
    simp [Reader.take, Option.isSome_iff_ne_none, h]

theorem Sticky.times {body : Reader β ε α} (h : Sticky body) (k : ℕ) :
  Sticky (times body k)
  := by
  induction k with
  | zero => apply Sticky.pure
  | succ k ih =>
      apply Sticky.bind Sticky.ok
      intro b
      cases b with
      | false => apply Sticky.pure
      | true =>
          apply Sticky.bind h
          intro x
          apply Sticky.bind ih
          intro xs
          apply Sticky.pure

/-! ### Readers of a spelling -/

/-- The reader `p` reads exactly the values `a` with a spelling `bs` such that `E a bs`,
at a cursor with no failure and at least `n` bytes left.  Every spelling has `n` bytes. -/
structure Reads (n : ℕ) (p : Reader β ε α) (E : α → List β → Prop) : Prop extends Sticky p where
  le_length (a : α) (bs : List β) : E a bs → n ≤ bs.length
  sound (r : Cursor β ε) : r.err = none → r.pos + n ≤ r.bytes.length → (p r).2.err = none →
    ∃ bs, E (p r).1 bs ∧ r.rest = bs ++ (p r).2.rest ∧ (p r).2.pos = r.pos + bs.length
  complete (r : Cursor β ε) (a : α) (bs t : List β) : r.err = none → r.pos ≤ r.bytes.length →
    r.rest = bs ++ t → E a bs → p r = (a, r.advance bs.length)

/-- A reader whose spellings have `n` bytes and no more. -/
structure Fixed (n : ℕ) (p : Reader β ε α) (E : α → List β → Prop) : Prop extends Reads n p E where
  length_eq (a : α) (bs : List β) : E a bs → bs.length = n

/-- The reader `p` reads exactly the values `a` of which everything left is a spelling, at
a cursor with no failure and at least `n` bytes left. -/
structure ReadsAll (n : ℕ) (p : Reader β ε α) (E : α → List β → Prop) : Prop extends Sticky p where
  le_length (a : α) (bs : List β) : E a bs → n ≤ bs.length
  sound (r : Cursor β ε) : r.err = none → r.pos + n ≤ r.bytes.length → (p r).2.err = none →
    E (p r).1 r.rest
  complete (r : Cursor β ε) (a : α) : r.err = none → r.pos ≤ r.bytes.length → E a r.rest →
    (p r).1 = a ∧ (p r).2.err = none

theorem length_rest (r : Cursor β ε) :
  r.rest.length = r.bytes.length - r.pos
  := List.length_drop

/-- What is left after advancing past a front of what was left. -/
theorem rest_advance {r : Cursor β ε} {bs t : List β} (h : r.rest = bs ++ t) :
  (r.advance bs.length).rest = t
  := by
  have hdrop : r.bytes.drop (r.pos + bs.length) = r.rest.drop bs.length := by
    rw [Cursor.rest, List.drop_drop]
  rw [Cursor.rest, Cursor.advance, hdrop, h, List.drop_left]

/-- A front of what is left ends within the bytes. -/
theorem pos_add_length_le {r : Cursor β ε} {bs t : List β} (hpos : r.pos ≤ r.bytes.length)
    (h : r.rest = bs ++ t) :
  r.pos + bs.length ≤ r.bytes.length
  := by
  have hlen := length_rest r
  rw [h, List.length_append] at hlen
  omega

theorem Reads.congr {n : ℕ} {p : Reader β ε α} {E F : α → List β → Prop}
    (h : Reads n p E) (hEF : ∀ a bs, E a bs ↔ F a bs) :
  Reads n p F
  := by
  have hEF : E = F := by
    funext a bs
    apply propext (hEF a bs)
  rwa [← hEF]

theorem Fixed.congr {n : ℕ} {p : Reader β ε α} {E F : α → List β → Prop}
    (h : Fixed n p E) (hEF : ∀ a bs, E a bs ↔ F a bs) :
  Fixed n p F
  where
  toReads := h.toReads.congr hEF
  length_eq a bs hF := h.length_eq a bs ((hEF a bs).mpr hF)

theorem ReadsAll.congr {n : ℕ} {p : Reader β ε α} {E F : α → List β → Prop}
    (h : ReadsAll n p E) (hEF : ∀ a bs, E a bs ↔ F a bs) :
  ReadsAll n p F
  := by
  have hEF : E = F := by
    funext a bs
    apply propext (hEF a bs)
  rwa [← hEF]

/-- A reader that asks for its bytes itself may also be run when they are known to be
present. -/
theorem Reads.fixed {m n : ℕ} {p : Reader β ε α} {E : α → List β → Prop}
    (h : Reads m p E) (hmn : m ≤ n) (hn : ∀ a bs, E a bs → bs.length = n) :
  Fixed n p E
  where
  toSticky := h.toSticky
  le_length a bs hE := (hn a bs hE).ge
  sound r hr hk := h.sound r hr (by omega)
  complete := h.complete
  length_eq := hn

theorem Reads.pure (a : α) :
  Reads 0 (pure a : Reader β ε α) (fun c bs => c = a ∧ bs = [])
  where
  toSticky := Sticky.pure a
  le_length _ _ _ := Nat.zero_le _
  sound r _ _ _ := ⟨[], ⟨rfl, rfl⟩, rfl, rfl⟩
  complete r c bs t _ _ _ h := by
    obtain ⟨rfl, rfl⟩ := h
    rfl

theorem Fixed.pure (a : α) :
  Fixed 0 (pure a : Reader β ε α) (fun c bs => c = a ∧ bs = [])
  := (Reads.pure a).fixed le_rfl (fun _ _ h => List.length_eq_zero_iff.mpr h.2)

/-- A reader that has just failed reads nothing. -/
theorem Reads.failed (e : ε) (a : α) :
  Reads 0 (do fail e; Pure.pure a : Reader β ε α) (fun _ _ => False)
  where
  toSticky := Sticky.bind (Sticky.fail e) (fun _ => Sticky.pure a)
  le_length _ _ h := h.elim
  sound r hr _ h := by
    simp [fail, hr] at h
  complete _ _ _ _ _ _ _ h := h.elim

/-- The spellings of one thing read after another. -/
def Then (E : α → List β → Prop) (F : α → γ → List β → Prop) (c : γ) (bs : List β) : Prop :=
  ∃ a bs₁ bs₂, E a bs₁ ∧ F a c bs₂ ∧ bs = bs₁ ++ bs₂

/-- Reading one thing after another: what the first consumes must leave the bytes the
second counts on. -/
theorem Reads.andThen {n k j : ℕ} {p : Reader β ε α} {f : α → Reader β ε γ}
    {E : α → List β → Prop} {F : α → γ → List β → Prop}
    (hp : Reads n p E) (hf : ∀ a, Reads k (f a) (F a)) (hnj : n ≤ j)
    (hk : ∀ a bs, E a bs → k = 0 ∨ bs.length + k ≤ j)
    (hj : ∀ c bs, Then E F c bs → j ≤ bs.length) :
  Reads j (p >>= f) (Then E F)
  where
  toSticky := Sticky.bind hp.toSticky (fun a => (hf a).toSticky)
  le_length := hj
  sound r hr hn h := by
    have hpr := Sticky.err_none_of_bind (fun a => (hf a).toSticky) h
    obtain ⟨bs₁, hE, hrest₁, hpos₁⟩ := hp.sound r hr (by omega) hpr
    have hle := pos_add_length_le (by omega) hrest₁
    have hbytes := hp.bytes_eq r
    have hk' : (p r).2.pos + k ≤ (p r).2.bytes.length := by
      rw [hbytes, hpos₁]
      obtain rfl | hk := hk _ _ hE <;> omega
    obtain ⟨bs₂, hF, hrest₂, hpos₂⟩ := (hf _).sound _ hpr hk' h
    use bs₁ ++ bs₂
    refine ⟨⟨_, bs₁, bs₂, hE, hF, rfl⟩, ?_, ?_⟩
    · rw [hrest₁, hrest₂, List.append_assoc, bind_apply]
    · rw [bind_apply, hpos₂, hpos₁, List.length_append]
      omega
  complete r c bs t hr hpos hrest h := by
    obtain ⟨a, bs₁, bs₂, hE, hF, rfl⟩ := h
    rw [List.append_assoc] at hrest
    have hpr := hp.complete r a bs₁ (bs₂ ++ t) hr hpos hrest hE
    have hfr := (hf a).complete (r.advance bs₁.length) c bs₂ t hr (pos_add_length_le hpos hrest)
      (rest_advance hrest) hF
    rw [bind_apply, hpr, hfr]
    simp only [Cursor.advance, List.length_append, Nat.add_assoc]

/-- Reading one thing after another, when the second counts on nothing. -/
theorem Reads.bind {n : ℕ} {p : Reader β ε α} {f : α → Reader β ε γ}
    {E : α → List β → Prop} {F : α → γ → List β → Prop}
    (hp : Reads n p E) (hf : ∀ a, Reads 0 (f a) (F a)) :
  Reads n (p >>= f) (Then E F)
  := by
  apply hp.andThen hf le_rfl
  · intro a bs _
    exact Or.inl rfl
  · rintro c _ ⟨a, bs₁, bs₂, hE, -, rfl⟩
    have hlen := hp.le_length a bs₁ hE
    rw [List.length_append]
    omega

/-- Reading something after a thing of fixed length: what they count on adds up. -/
theorem Fixed.bind {n k : ℕ} {p : Reader β ε α} {f : α → Reader β ε γ}
    {E : α → List β → Prop} {F : α → γ → List β → Prop}
    (hp : Fixed n p E) (hf : ∀ a, Reads k (f a) (F a)) :
  Reads (n + k) (p >>= f) (Then E F)
  := by
  apply hp.toReads.andThen hf (Nat.le_add_right n k)
  · intro a bs hE
    right
    rw [hp.length_eq a bs hE]
  · rintro c _ ⟨a, bs₁, bs₂, hE, hF, rfl⟩
    rw [List.length_append, hp.length_eq a bs₁ hE]
    have hlen := (hf a).le_length c bs₂ hF
    omega

/-- Reading a thing of fixed length after another. -/
theorem Fixed.seq {n k : ℕ} {p : Reader β ε α} {f : α → Reader β ε γ}
    {E : α → List β → Prop} {F : α → γ → List β → Prop}
    (hp : Fixed n p E) (hf : ∀ a, Fixed k (f a) (F a)) :
  Fixed (n + k) (p >>= f) (Then E F)
  where
  toReads := hp.bind (fun a => (hf a).toReads)
  length_eq := by
    rintro c _ ⟨a, bs₁, bs₂, hE, hF, rfl⟩
    rw [List.length_append, hp.length_eq a bs₁ hE, (hf a).length_eq c bs₂ hF]

/-- Giving a value built from what was read. -/
theorem Fixed.map {n : ℕ} {p : Reader β ε α} {E : α → List β → Prop}
    (hp : Fixed n p E) (f : α → γ) :
  Fixed n (do let a ← p; Pure.pure (f a)) (fun c bs => ∃ a, c = f a ∧ E a bs)
  := by
  apply (hp.seq (fun a => Fixed.pure (f a))).congr
  intro c bs
  constructor
  · rintro ⟨a, bs₁, bs₂, hE, ⟨rfl, rfl⟩, rfl⟩
    exact ⟨a, rfl, by rwa [List.append_nil]⟩
  · rintro ⟨a, rfl, hE⟩
    exact ⟨a, bs, [], hE, ⟨rfl, rfl⟩, by simp⟩

/-- Looking at what was read, without reading on. -/
theorem Fixed.check {n : ℕ} {p : Reader β ε α} {f : α → Reader β ε γ} {E : α → List β → Prop}
    {P : α → γ → Prop} (hp : Fixed n p E) (hf : ∀ a, Reads 0 (f a) (fun c bs => P a c ∧ bs = [])) :
  Fixed n (p >>= f) (fun c bs => ∃ a, E a bs ∧ P a c)
  := by
  have hf' (a : α) : Fixed 0 (f a) (fun c bs => P a c ∧ bs = []) :=
    (hf a).fixed le_rfl (fun _ _ h => List.length_eq_zero_iff.mpr h.2)
  apply (hp.seq hf').congr
  intro c bs
  constructor
  · rintro ⟨a, bs₁, bs₂, hE, ⟨hP, rfl⟩, rfl⟩
    exact ⟨a, by rwa [List.append_nil], hP⟩
  · rintro ⟨a, hE, hP⟩
    exact ⟨a, bs, [], hE, ⟨hP, rfl⟩, by simp⟩

/-- Asking first for the bytes that are counted on. -/
theorem Reads.need {n : ℕ} {p : Reader β ε α} {E : α → List β → Prop}
    (hp : Reads n p E) (e : ε) :
  Reads 0 (do Reader.need n e; p) E
  where
  toSticky := Sticky.bind (Sticky.need n e) (fun _ => hp.toSticky)
  le_length _ _ _ := Nat.zero_le _
  sound r hr _ h := by
    have hneed := Sticky.err_none_of_bind (fun _ => hp.toSticky) h
    simp only [Reader.need, hr, Option.isNone_none, true_and, bind_apply] at hneed h ⊢
    split at hneed
    · simp at hneed
    · rename_i hlen
      rw [if_neg hlen] at h ⊢
      exact hp.sound r hr (by omega) h
  complete r a bs t hr hpos hrest h := by
    have hlen := length_rest r
    rw [hrest, List.length_append] at hlen
    have hbs := hp.le_length a bs h
    have hneed : ¬ (r.err.isNone ∧ r.bytes.length < r.pos + n) := by
      rintro ⟨-, hlt⟩
      omega
    rw [bind_apply, Reader.need, if_neg hneed]
    exact hp.complete r a bs t hr hpos hrest h

/-- With exactly the bytes of a spelling left, all of them are consumed. -/
theorem Fixed.sound_all {n : ℕ} {p : Reader β ε α} {E : α → List β → Prop}
    (h : Fixed n p E) {r : Cursor β ε} (hr : r.err = none)
    (hpos : r.pos + n = r.bytes.length) (herr : (p r).2.err = none) :
  E (p r).1 r.rest
  := by
  obtain ⟨bs, hE, hrest, -⟩ := h.sound r hr hpos.le herr
  have hlen := congrArg List.length hrest
  rw [length_rest, List.length_append, h.length_eq _ _ hE] at hlen
  obtain h0 : (p r).2.rest = [] := List.length_eq_zero_iff.mp (by omega)
  rwa [hrest, h0, List.append_nil]

/-- The next `n` bytes, when they are known to be present. -/
theorem Fixed.take (n : ℕ) :
  Fixed n (take n : Reader β ε (List β)) (fun l bs => l = bs ∧ bs.length = n)
  where
  toSticky := Sticky.take n
  le_length _ _ h := h.2.ge
  length_eq _ _ h := h.2
  sound r hr hn _ := by
    have hpos : ¬ (r.err.isSome ∨ r.bytes.length < r.pos + n) := by
      rintro (h | h)
      · simp [hr] at h
      · omega
    rw [Reader.take, if_neg hpos]
    use r.rest.take n
    have hlen : (r.rest.take n).length = n := by
      rw [List.length_take, length_rest]
      omega
    refine ⟨⟨rfl, hlen⟩, ?_, by rw [hlen]⟩
    rw [Cursor.rest, Cursor.rest, ← List.drop_drop, List.take_append_drop]
  complete r l bs t hr hpos hrest h := by
    obtain ⟨rfl, rfl⟩ := h
    have hlen := pos_add_length_le hpos hrest
    have htake : ¬ (r.err.isSome ∨ r.bytes.length < r.pos + l.length) := by
      rintro (h | h)
      · simp [hr] at h
      · omega
    rw [Reader.take, if_neg htake, Cursor.advance]
    change (r.rest.take l.length, _) = _
    rw [hrest, List.take_left]

/-- Running a reader once more than `k` times, at a cursor with no failure. -/
theorem times_succ_apply (body : Reader β ε α) (k : ℕ) {r : Cursor β ε} (hr : r.err = none) :
  times body (k + 1) r
    = (do let x ← body; let xs ← times body k; Pure.pure (x :: xs) : Reader β ε (List α)) r
  := by
  simp [times, ok, hr]

/-- Running a reader `k` times reads the lists of length `k`, element by element. -/
theorem Reads.times {body : Reader β ε α} {V : α → Prop} {enc : α → List β}
    (h : Reads 0 body (fun a bs => V a ∧ bs = enc a)) (k : ℕ) :
  Reads 0 (times body k) (fun l bs => (l.length = k ∧ ∀ a ∈ l, V a) ∧ bs = l.flatMap enc)
  := by
  induction k with
  | zero =>
      apply (Reads.pure []).congr
      rintro (_ | ⟨a, l⟩) bs <;> simp
  | succ k ih =>
      have step := h.bind (fun x => ih.bind (fun xs => Reads.pure (x :: xs)))
      refine ⟨Sticky.times h.toSticky (k + 1), fun _ _ _ => Nat.zero_le _, ?_, ?_⟩
      · intro r hr hpos herr
        rw [times_succ_apply body k hr] at herr ⊢
        obtain ⟨bs, hbs, hrest⟩ := step.sound r hr hpos herr
        use bs
        refine ⟨?_, hrest⟩
        obtain ⟨x, bs₁, bs', ⟨hx, rfl⟩, ⟨xs, bs₂, bs₃, ⟨hxs, rfl⟩, ⟨hl, rfl⟩, rfl⟩, rfl⟩ := hbs
        rw [hl]
        simp only [List.length_cons, List.mem_cons, forall_eq_or_imp, List.flatMap_cons,
          List.append_nil]
        exact ⟨⟨by rw [hxs.1], hx, hxs.2⟩, trivial⟩
      · intro r l bs t hr hpos hrest hl
        rw [times_succ_apply body k hr]
        apply step.complete r l bs t hr hpos hrest
        obtain ⟨⟨hlen, hV⟩, rfl⟩ := hl
        cases l with
        | nil => simp at hlen
        | cons x xs =>
            simp only [List.length_cons, Nat.add_right_cancel_iff] at hlen
            simp only [List.mem_cons, forall_eq_or_imp] at hV
            exact ⟨x, enc x, xs.flatMap enc, ⟨hV.1, rfl⟩, ⟨xs, xs.flatMap enc, [],
              ⟨⟨hlen, hV.2⟩, rfl⟩, ⟨rfl, rfl⟩, by simp⟩, rfl⟩

/-! ### Readers of everything left -/

/-- Reading everything left after something: what the first consumes must leave the bytes
the second counts on. -/
theorem ReadsAll.andThen {n k j : ℕ} {p : Reader β ε α} {f : α → Reader β ε γ}
    {E : α → List β → Prop} {F : α → γ → List β → Prop}
    (hp : Reads n p E) (hf : ∀ a, ReadsAll k (f a) (F a)) (hnj : n ≤ j)
    (hk : ∀ a bs, E a bs → k = 0 ∨ bs.length + k ≤ j)
    (hj : ∀ c bs, Then E F c bs → j ≤ bs.length) :
  ReadsAll j (p >>= f) (Then E F)
  where
  toSticky := Sticky.bind hp.toSticky (fun a => (hf a).toSticky)
  le_length := hj
  sound r hr hn h := by
    have hpr := Sticky.err_none_of_bind (fun a => (hf a).toSticky) h
    obtain ⟨bs₁, hE, hrest₁, hpos₁⟩ := hp.sound r hr (by omega) hpr
    have hle := pos_add_length_le (by omega) hrest₁
    have hk' : (p r).2.pos + k ≤ (p r).2.bytes.length := by
      rw [hp.bytes_eq r, hpos₁]
      obtain rfl | hk := hk _ _ hE <;> omega
    exact ⟨_, bs₁, _, hE, (hf _).sound _ hpr hk' h, hrest₁⟩
  complete r c hr hpos h := by
    obtain ⟨a, bs₁, bs₂, hE, hF, hrest⟩ := h
    rw [bind_apply, hp.complete r a bs₁ bs₂ hr hpos hrest hE]
    apply (hf a).complete (r.advance bs₁.length) c hr
    · exact pos_add_length_le hpos hrest
    · rwa [rest_advance hrest]

/-- Reading everything left after something, when that counts on nothing. -/
theorem Reads.bindAll {n : ℕ} {p : Reader β ε α} {f : α → Reader β ε γ}
    {E : α → List β → Prop} {F : α → γ → List β → Prop}
    (hp : Reads n p E) (hf : ∀ a, ReadsAll 0 (f a) (F a)) :
  ReadsAll n (p >>= f) (Then E F)
  := by
  apply ReadsAll.andThen hp hf le_rfl
  · intro a bs _
    exact Or.inl rfl
  · rintro c _ ⟨a, bs₁, bs₂, hE, -, rfl⟩
    have hlen := hp.le_length a bs₁ hE
    rw [List.length_append]
    omega

/-- Reading everything left after a thing of fixed length. -/
theorem Fixed.bindAll {n k : ℕ} {p : Reader β ε α} {f : α → Reader β ε γ}
    {E : α → List β → Prop} {F : α → γ → List β → Prop}
    (hp : Fixed n p E) (hf : ∀ a, ReadsAll k (f a) (F a)) :
  ReadsAll (n + k) (p >>= f) (Then E F)
  := by
  apply ReadsAll.andThen hp.toReads hf (Nat.le_add_right n k)
  · intro a bs hE
    right
    rw [hp.length_eq a bs hE]
  · rintro c _ ⟨a, bs₁, bs₂, hE, hF, rfl⟩
    rw [List.length_append, hp.length_eq a bs₁ hE]
    have hlen := (hf a).le_length c bs₂ hF
    omega

/-- Asking first for the bytes that are counted on. -/
theorem ReadsAll.need {n : ℕ} {p : Reader β ε α} {E : α → List β → Prop}
    (hp : ReadsAll n p E) (e : ε) :
  ReadsAll 0 (do Reader.need n e; p) E
  where
  toSticky := Sticky.bind (Sticky.need n e) (fun _ => hp.toSticky)
  le_length _ _ _ := Nat.zero_le _
  sound r hr _ h := by
    have hneed := Sticky.err_none_of_bind (fun _ => hp.toSticky) h
    simp only [Reader.need, hr, Option.isNone_none, true_and, bind_apply] at hneed h ⊢
    split at hneed
    · simp at hneed
    · rename_i hlen
      rw [if_neg hlen] at h ⊢
      exact hp.sound r hr (by omega) h
  complete r a hr hpos h := by
    have hlen := length_rest r
    have hbs := hp.le_length a r.rest h
    have hneed : ¬ (r.err.isNone ∧ r.bytes.length < r.pos + n) := by
      rintro ⟨-, hlt⟩
      omega
    rw [bind_apply, Reader.need, if_neg hneed]
    exact hp.complete r a hr hpos h

/-- Ending with a check that nothing is left. -/
theorem ReadsAll.done (e : ε) (a : α) :
  ReadsAll 0 (do Reader.done e; Pure.pure a : Reader β ε α) (fun c bs => c = a ∧ bs = [])
  where
  toSticky := Sticky.bind (Sticky.done e) (fun _ => Sticky.pure a)
  le_length _ _ _ := Nat.zero_le _
  sound r hr hpos h := by
    simp only [Reader.done, bind_apply, hr, Option.isNone_none, true_and] at h ⊢
    split at h
    · simp at h
    · rename_i hne
      refine ⟨rfl, ?_⟩
      apply List.drop_eq_nil_of_le
      omega
  complete r c hr hpos h := by
    obtain ⟨rfl, hnil⟩ := h
    have hlen := length_rest r
    rw [hnil, List.length_nil] at hlen
    have hdone : ¬ (r.err.isNone ∧ r.pos ≠ r.bytes.length) := by
      rintro ⟨-, hne⟩
      omega
    rw [bind_apply, Reader.done, if_neg hdone]
    exact ⟨rfl, hr⟩

/-- Ending with what is read after a check that exactly its bytes are left. -/
theorem Fixed.left {n : ℕ} {p : Reader β ε α} {E : α → List β → Prop}
    (hp : Fixed n p E) (e : ε) :
  ReadsAll 0 (do Reader.left n e; p) E
  where
  toSticky := Sticky.bind (Sticky.left n e) (fun _ => hp.toSticky)
  le_length _ _ _ := Nat.zero_le _
  sound r hr _ h := by
    have hleft := Sticky.err_none_of_bind (fun _ => hp.toSticky) h
    simp only [Reader.left, hr, Option.isNone_none, true_and, bind_apply] at hleft h ⊢
    split at hleft
    · simp at hleft
    · rename_i hlen
      rw [not_not] at hlen
      rw [if_neg (not_not.mpr hlen)] at h ⊢
      exact hp.sound_all hr hlen h
  complete r a hr hpos h := by
    have hlen := length_rest r
    rw [hp.length_eq a r.rest h] at hlen
    have hleft : ¬ (r.err.isNone ∧ r.pos + n ≠ r.bytes.length) := by
      rintro ⟨-, hne⟩
      omega
    rw [bind_apply, Reader.left, if_neg hleft,
      hp.complete r a r.rest [] hr hpos (by rw [List.append_nil]) h]
    exact ⟨rfl, hr⟩

/-- Giving a value built from what was read. -/
theorem ReadsAll.map {n : ℕ} {p : Reader β ε α} {E : α → List β → Prop}
    (hp : ReadsAll n p E) (f : α → γ) :
  ReadsAll n (do let a ← p; Pure.pure (f a)) (fun c bs => ∃ a, c = f a ∧ E a bs)
  where
  toSticky := Sticky.bind hp.toSticky (fun a => Sticky.pure (f a))
  le_length := by
    rintro c bs ⟨a, -, hE⟩
    exact hp.le_length a bs hE
  sound r hr hn h := ⟨_, rfl, hp.sound r hr hn h⟩
  complete r c hr hpos h := by
    obtain ⟨a, rfl, hE⟩ := h
    obtain ⟨rfl, herr⟩ := hp.complete r a hr hpos hE
    exact ⟨rfl, herr⟩

/-! ### Running a reader -/

/-- The outcome of a reader: its first failure, if there was one. -/
def run (p : Reader β ε α) (r : Cursor β ε) : Except ε α :=
  match (p r).2.err with
  | none => .ok (p r).1
  | some e => .error e

theorem run_eq_ok_iff (p : Reader β ε α) (r : Cursor β ε) (a : α) :
  p.run r = .ok a ↔ (p r).1 = a ∧ (p r).2.err = none
  := by
  rw [run]
  split <;> simp_all

/-- A reader of everything left succeeds on the spellings of its values. -/
theorem ReadsAll.run_eq_ok_iff {n : ℕ} {p : Reader β ε α} {E : α → List β → Prop}
    (h : ReadsAll n p E) {r : Cursor β ε} (hr : r.err = none)
    (hpos : r.pos + n ≤ r.bytes.length) (a : α) :
  p.run r = .ok a ↔ E a r.rest
  := by
  rw [Reader.run_eq_ok_iff]
  constructor
  · rintro ⟨rfl, herr⟩
    exact h.sound r hr hpos herr
  · intro hE
    exact h.complete r a hr (by omega) hE

/-- A reader of a thing of fixed length succeeds, with exactly its bytes left, on the
spellings of its values. -/
theorem Fixed.run_eq_ok_iff {n : ℕ} {p : Reader β ε α} {E : α → List β → Prop}
    (h : Fixed n p E) {r : Cursor β ε} (hr : r.err = none)
    (hpos : r.pos + n = r.bytes.length) (a : α) :
  p.run r = .ok a ↔ E a r.rest
  := by
  rw [Reader.run_eq_ok_iff]
  constructor
  · rintro ⟨rfl, herr⟩
    exact h.sound_all hr hpos herr
  · intro hE
    rw [h.complete r a r.rest [] hr (by omega) (by rw [List.append_nil]) hE]
    exact ⟨rfl, hr⟩

end Reader

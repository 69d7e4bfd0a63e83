import Mathlib.Data.Finset.Card
import ZeroNat.Config.Lexer
import ZeroNat.Lib.Table
import ZeroNat.Proto.Wire

/-!
# The egress selector of a proxy

The proxy password gates access and the username chooses a session among the live ones: the
plain user takes turns, a pin names its session, and a token sticks to the session it was given
first.  A token whose session is down moves to the next live one after it.  The table of tokens
is cleared when it is full.
-/

namespace ZeroNat.Proxy

open Config (parseDecimal stripPrefix stripPrefix_append)

/-- The most tokens that are remembered. -/
def stickyMax : ℕ := 4096

/-- Why no session was picked. -/
inductive Refusal where
  /-- A wrong password, or a username that names no session. -/
  | denied
  /-- Every session the credentials can use is down. -/
  | down
deriving DecidableEq

/-- The flags of the sessions, in a vector of pointers. -/
structure Flags where
  flags : List Bool
  fits : flags.length < 2 ^ 60
deriving DecidableEq

namespace Flags

/-- Whether a session has a negotiated address. -/
def isLive (l : Flags) (i : ℕ) : Bool :=
  l.flags.getD i false

def store (l : Flags) (i : ℕ) (up : Bool) : Flags where
  flags := l.flags.set i up
  fits := by
    rw [List.length_set]
    exact l.fits

/-- The first live session at a start or after it, wrapping around. -/
def liveFrom (l : Flags) (start : UInt64) : Option ℕ :=
  let n := l.flags.length
  ((List.range n).map fun i => (start + UInt64.ofNat i).toNat % n).find? l.isLive

/-- The first live session after a session in cyclic order. -/
def FirstLiveAfter (l : Flags) (i k : ℕ) : Prop :=
  ∃ d, 1 ≤ d ∧ k = (i + d) % l.flags.length ∧ l.isLive k = true
    ∧ ∀ d', 1 ≤ d' → d' < d → l.isLive ((i + d') % l.flags.length) = false

end Flags

/-- What a username asks for. -/
inductive Form where
  | turns
  | pin (k : ℕ)
  | sticky (token : List Char)
deriving DecidableEq

structure Selector where
  user : List Char
  pass : List UInt8
  live : Flags
  /-- The counter of the turns. -/
  rr : UInt64
  /-- The sessions of the sticky tokens. -/
  tokens : Table (List Char) ℕ
deriving DecidableEq

namespace Selector

def new (user : List Char) (pass : List UInt8) (live : Flags) : Selector :=
  ⟨user, pass, live, 0, ∅⟩

/-- What a client with a username and a password asks for; nothing when it is denied. -/
def form (s : Selector) (user pass : List UInt8) : Option Form := do
  if pass ≠ s.pass then none
  let name ← String.fromUTF8? ⟨user.toArray⟩
  let rest ← stripPrefix s.user name.toList
  if rest = [] then some .turns
  else
    match stripPrefix "_pppoe".toList rest with
    | some k => (parseDecimal (2 ^ 64) k).map .pin
    | none =>
        match stripPrefix "_s".toList rest with
        | some token => if token = [] then none else some (.sticky token)
        | none => none

def nextLive (s : Selector) : Option ℕ × Selector :=
  (s.live.liveFrom s.rr, { s with rr := s.rr + 1 })

/-- Note the session of a token, in a table that is cleared when it is full. -/
def remember (s : Selector) (token : List Char) (i : ℕ) : Selector :=
  let tokens := if stickyMax ≤ s.tokens.size then ∅ else s.tokens
  { s with tokens := tokens.insert token i }

def sticky (s : Selector) (token : List Char) : Option ℕ × Selector :=
  match s.tokens.lookup token with
  | some i =>
      if s.live.isLive i then (some i, s)
      else
        match s.live.liveFrom (UInt64.ofNat (i + 1)) with
        | none => (none, s)
        | some j => (some j, s.remember token j)
  | none =>
      match s.nextLive with
      | (none, s) => (none, s)
      | (some j, s) => (some j, s.remember token j)

def select (s : Selector) (user pass : List UInt8) : Except Refusal ℕ × Selector :=
  match s.form user pass with
  | none => (.error .denied, s)
  | some .turns =>
      match s.nextLive with
      | (none, s) => (.error .down, s)
      | (some i, s) => (.ok i, s)
  | some (.pin k) =>
      if s.live.flags.length ≤ k then (.error .denied, s)
      else if s.live.isLive k then (.ok k, s)
      else (.error .down, s)
  | some (.sticky token) =>
      match s.sticky token with
      | (none, s) => (.error .down, s)
      | (some i, s) => (.ok i, s)

inductive Event where
  | select (user pass : List UInt8)
  /-- The flag of a session changes. -/
  | store (i : ℕ) (up : Bool)
deriving DecidableEq

def step (s : Selector) : Event → Selector
  | .select user pass => (s.select user pass).2
  | .store i up => { s with live := s.live.store i up }

def run (s : Selector) (es : List Event) : Selector :=
  es.foldl step s

/-- The token that an event selects by. -/
def token (s : Selector) : Event → Option (List Char)
  | .select user pass =>
      match s.form user pass with
      | some (.sticky t) => some t
      | _ => none
  | .store _ _ => none

/-- A token whose session is down is moved only while the table has room. -/
def Roomy (s : Selector) (e : Event) : Prop :=
  ∀ t i k, s.token e = some t → s.tokens.lookup t = some i → s.live.isLive i = false →
    s.live.liveFrom (UInt64.ofNat (i + 1)) = some k → s.tokens.size < stickyMax

/-- Every session that is chosen is live. -/
def ChoosesLive (s : Selector) (es : List Event) : Prop :=
  ∀ before after u p i, es = before ++ .select u p :: after →
    ((s.run before).select u p).1 = .ok i → (s.run before).live.isLive i = true

/-- A pin gets its own session. -/
def KeepsPins (s : Selector) (es : List Event) : Prop :=
  ∀ before after u p k i, es = before ++ .select u p :: after → s.form u p = some (.pin k) →
    ((s.run before).select u p).1 = .ok i → i = k

/-- A token gets the same session again, unless it was found down by a select of the token
since, which then got the first live one after it. -/
def StaysPut (s : Selector) (es : List Event) : Prop :=
  ∀ before between after u p u' p' t i j,
    es = before ++ .select u p :: (between ++ .select u' p' :: after) →
    s.form u p = some (.sticky t) → s.form u' p' = some (.sticky t) →
    ((s.run before).select u p).1 = .ok i →
    ((s.run (before ++ .select u p :: between)).select u' p').1 = .ok j →
    i = j ∨ ∃ mid rest v q k, between ++ [.select u' p'] = mid ++ .select v q :: rest ∧
      s.form v q = some (.sticky t) ∧
      let found := s.run (before ++ .select u p :: mid)
      found.live.isLive i = false ∧ (found.select v q).1 = .ok k ∧ found.live.FirstLiveAfter i k

end Selector

/-! ### Live sessions -/

namespace Flags

variable {l : Flags} {i k : ℕ} {start : UInt64}

theorem lt_length_of_isLive (h : l.isLive i = true) :
  i < l.flags.length
  := by
  by_contra hlt
  rw [isLive, List.getD_eq_getElem?_getD, List.getElem?_eq_none (Nat.le_of_not_lt hlt)] at h
  cases h

theorem isLive_of_liveFrom (h : l.liveFrom start = some k) :
  l.isLive k = true
  := List.find?_some h

/-- What is found is the first live session from the start on. -/
theorem firstLiveAfter_of_liveFrom (hi : i < l.flags.length)
    (h : l.liveFrom (UInt64.ofNat (i + 1)) = some k) :
  l.FirstLiveAfter i k
  := by
  have hfits := l.fits
  -- the sum does not wrap
  have hsum : ∀ m, m < l.flags.length →
      (UInt64.ofNat (i + 1) + UInt64.ofNat m).toNat = i + (m + 1) := by
    intro m hm
    rw [UInt64.toNat_add, UInt64.toNat_ofNat', UInt64.toNat_ofNat']
    omega
  rw [liveFrom, List.find?_map] at h
  obtain ⟨m, hm, rfl⟩ := Option.map_eq_some_iff.mp h
  obtain ⟨hlive, hmem, hfirst⟩ := List.find?_range_eq_some.mp hm
  have hm' : m < l.flags.length := List.mem_range.mp hmem
  refine ⟨m + 1, Nat.succ_pos m, ?_, ?_, ?_⟩
  · rw [hsum m hm']
  · exact hlive
  · intro d' hpos hlt
    have hd := hfirst (d' - 1) (by omega)
    rw [Function.comp_apply, hsum (d' - 1) (by omega), Nat.sub_add_cancel hpos] at hd
    simpa using hd

end Flags

namespace Selector

variable {s : Selector} {es : List Event} {e : Event} {t : List Char} {i j : ℕ}
  {u p : List UInt8}

/-! ### What a step leaves as it is -/

theorem remember_frame (s : Selector) (t : List Char) (i : ℕ) :
  (s.remember t i).user = s.user ∧ (s.remember t i).pass = s.pass ∧ (s.remember t i).live = s.live
  := ⟨rfl, rfl, rfl⟩

theorem sticky_frame (s : Selector) (t : List Char) :
  (s.sticky t).2.user = s.user ∧ (s.sticky t).2.pass = s.pass ∧ (s.sticky t).2.live = s.live
  := by
  rw [sticky]
  split
  · split
    · exact ⟨rfl, rfl, rfl⟩
    · split
      · exact ⟨rfl, rfl, rfl⟩
      · exact remember_frame _ _ _
  · rw [nextLive]
    split
    · rename_i heq
      obtain ⟨-, rfl⟩ := Prod.mk.inj heq
      exact ⟨rfl, rfl, rfl⟩
    · rename_i heq
      obtain ⟨-, rfl⟩ := Prod.mk.inj heq
      exact remember_frame _ _ _

/-- A select changes the table for a sticky token only. -/
theorem select_cases (s : Selector) (u p : List UInt8) :
  (∃ t, s.form u p = some (.sticky t) ∧ (s.select u p).2 = (s.sticky t).2 ∧
      ∀ i, (s.select u p).1 = .ok i ↔ (s.sticky t).1 = some i) ∨
    (∀ t, s.form u p ≠ some (.sticky t)) ∧ (s.select u p).2.user = s.user ∧
      (s.select u p).2.pass = s.pass ∧ (s.select u p).2.live = s.live ∧
      (s.select u p).2.tokens = s.tokens
  := by
  rw [select]
  split
  · rename_i hform
    exact .inr ⟨by simp [hform], rfl, rfl, rfl, rfl⟩
  · rename_i hform
    refine .inr ⟨by simp [hform], ?_⟩
    rw [nextLive]
    split <;> rename_i heq <;> obtain ⟨-, rfl⟩ := Prod.mk.inj heq <;> exact ⟨rfl, rfl, rfl, rfl⟩
  · rename_i hform
    refine .inr ⟨by simp [hform], ?_⟩
    split
    · exact ⟨rfl, rfl, rfl, rfl⟩
    · split <;> exact ⟨rfl, rfl, rfl, rfl⟩
  · rename_i t hform
    refine .inl ⟨t, hform, ?_⟩
    cases hsticky : s.sticky t with
    | mk chosen s' =>
        cases chosen with
        | none => exact ⟨rfl, by simp⟩
        | some i => exact ⟨rfl, by simp⟩

theorem step_frame (s : Selector) (e : Event) :
  (s.step e).user = s.user ∧ (s.step e).pass = s.pass
    ∧ (s.step e).live.flags.length = s.live.flags.length
  := by
  cases e with
  | select u p =>
      rw [step]
      obtain ⟨t, -, hstep, -⟩ | ⟨-, huser, hpass, hlive, -⟩ := s.select_cases u p
      · obtain ⟨huser, hpass, hlive⟩ := s.sticky_frame t
        rw [hstep, huser, hpass, hlive]
        exact ⟨rfl, rfl, rfl⟩
      · rw [huser, hpass, hlive]
        exact ⟨rfl, rfl, rfl⟩
  | store i up => exact ⟨rfl, rfl, List.length_set⟩

theorem run_frame (s : Selector) (es : List Event) :
  (s.run es).user = s.user ∧ (s.run es).pass = s.pass
    ∧ (s.run es).live.flags.length = s.live.flags.length
  := by
  induction es generalizing s with
  | nil => exact ⟨rfl, rfl, rfl⟩
  | cons e es ih =>
      obtain ⟨huser, hpass, hlength⟩ := s.step_frame e
      obtain ⟨huser', hpass', hlength'⟩ := ih (s.step e)
      exact ⟨huser'.trans huser, hpass'.trans hpass, hlength'.trans hlength⟩

/-- The form of a username does not change. -/
theorem form_run (s : Selector) (es : List Event) (u p : List UInt8) :
  (s.run es).form u p = s.form u p
  := by
  obtain ⟨huser, hpass, -⟩ := s.run_frame es
  rw [form, form, huser, hpass]

theorem token_run (s : Selector) (es : List Event) (e : Event) :
  (s.run es).token e = s.token e
  := by
  cases e with
  | select u p => rw [token, token, form_run]
  | store i up => rfl

theorem run_append (s : Selector) (es es' : List Event) :
  s.run (es ++ es') = (s.run es).run es'
  := List.foldl_append

/-! ### What a token is given -/

/-- What a sticky select does: it keeps a live session, or finds a session from the one after
it on or in turn, and remembers that one. -/
theorem sticky_cases (s : Selector) (t : List Char) :
  (∃ i, s.tokens.lookup t = some i ∧ s.live.isLive i = true ∧ s.sticky t = (some i, s)) ∨
    (∃ i k, s.tokens.lookup t = some i ∧ s.live.isLive i = false ∧
      s.live.liveFrom (UInt64.ofNat (i + 1)) = some k ∧ s.sticky t = (some k, s.remember t k)) ∨
    (∃ k, s.tokens.lookup t = none ∧ s.live.liveFrom s.rr = some k ∧
      s.sticky t = (some k, { s with rr := s.rr + 1 }.remember t k)) ∨
    (s.sticky t).1 = none ∧ (s.sticky t).2.tokens = s.tokens
  := by
  rw [sticky]
  cases hlookup : s.tokens.lookup t with
  | some i =>
      dsimp only
      split
      · rename_i hlive
        exact .inl ⟨i, rfl, hlive, rfl⟩
      · rename_i hdown
        cases hfrom : s.live.liveFrom (UInt64.ofNat (i + 1)) with
        | none => exact .inr (.inr (.inr ⟨rfl, rfl⟩))
        | some k => exact .inr (.inl ⟨i, k, rfl, Bool.eq_false_of_not_eq_true hdown, hfrom, rfl⟩)
  | none =>
      dsimp only [nextLive]
      cases hfrom : s.live.liveFrom s.rr with
      | none => exact .inr (.inr (.inr ⟨rfl, rfl⟩))
      | some k => exact .inr (.inr (.inl ⟨k, rfl, rfl, rfl⟩))

theorem tokens_remember (h : s.tokens.size < stickyMax) (t : List Char) (i : ℕ) :
  (s.remember t i).tokens = s.tokens.insert t i
  := by
  rw [remember, if_neg (Nat.not_le_of_lt h)]

theorem lookup_remember_self (s : Selector) (t : List Char) (i : ℕ) :
  (s.remember t i).tokens.lookup t = some i
  := AList.lookup_insert _

theorem mem_tokens_remember {t' : List Char} (h : t' ∈ (s.remember t i).tokens) :
  t' = t ∨ t' ∈ s.tokens
  := by
  rw [remember] at h
  dsimp only at h
  rw [AList.mem_insert] at h
  refine h.imp_right ?_
  intro hmem
  split at hmem
  · cases hmem
  · exact hmem

/-- The session that a sticky select returns is the one that is remembered. -/
theorem lookup_sticky (h : (s.sticky t).1 = some i) :
  (s.sticky t).2.tokens.lookup t = some i
  := by
  obtain ⟨j, hlookup, -, heq⟩ | ⟨j, k, -, -, -, heq⟩ | ⟨k, -, -, heq⟩ | ⟨hnone, -⟩ :=
    s.sticky_cases t
  · rw [heq] at h ⊢
    rw [hlookup]
    exact h
  · rw [heq] at h ⊢
    rw [lookup_remember_self]
    exact h
  · rw [heq] at h ⊢
    rw [lookup_remember_self]
    exact h
  · rw [hnone] at h
    cases h

theorem lookup_select (hform : s.form u p = some (.sticky t)) (h : (s.select u p).1 = .ok i) :
  (s.step (.select u p)).tokens.lookup t = some i
  := by
  obtain ⟨t', hform', hstep, hresult⟩ | ⟨hother, -⟩ := s.select_cases u p
  · obtain rfl : t' = t := by
      rw [hform'] at hform
      exact Form.sticky.inj (Option.some.inj hform)
    rw [step, hstep]
    exact lookup_sticky ((hresult i).mp h)
  · exact absurd hform (hother t)

section Used

variable {used : Finset (List Char)}

theorem size_lt_card (hkeys : ∀ t ∈ s.tokens, t ∈ used) (ht : t ∈ used)
    (hnone : s.tokens.lookup t = none) :
  s.tokens.size < used.card
  := by
  have hfresh : t ∉ s.tokens.keys := by
    rw [← AList.mem_keys]
    exact AList.lookup_eq_none.mp hnone
  have hnodup : (t :: s.tokens.keys).Nodup := List.nodup_cons.mpr ⟨hfresh, s.tokens.keys_nodup⟩
  have hsub : (t :: s.tokens.keys).toFinset ⊆ used := by
    intro t' ht'
    obtain rfl | ht' := List.mem_cons.mp (List.mem_toFinset.mp ht')
    · exact ht
    · exact hkeys t' (AList.mem_keys.mpr ht')
  have hcard := Finset.card_le_card hsub
  rw [List.toFinset_card_of_nodup hnodup, List.length_cons] at hcard
  rw [Table.size_eq_length_keys]
  exact hcard

theorem keys_step (hkeys : ∀ t ∈ s.tokens, t ∈ used) (hused : ∀ t, s.token e = some t → t ∈ used) :
  ∀ t ∈ (s.step e).tokens, t ∈ used
  := by
  intro t' ht'
  cases e with
  | store i up => exact hkeys t' ht'
  | select u p =>
      rw [step] at ht'
      obtain ⟨t, hform, hstep, -⟩ | ⟨-, -, -, -, htokens⟩ := s.select_cases u p
      · have ht : t ∈ used := hused t (by rw [token, hform])
        rw [hstep] at ht'
        obtain ⟨j, -, -, heq⟩ | ⟨j, k, -, -, -, heq⟩ | ⟨k, -, -, heq⟩ | ⟨-, heq⟩ := s.sticky_cases t
        · rw [heq] at ht'
          exact hkeys t' ht'
        · rw [heq] at ht'
          obtain rfl | hmem := mem_tokens_remember ht'
          · exact ht
          · exact hkeys t' hmem
        · rw [heq] at ht'
          obtain rfl | hmem := mem_tokens_remember ht'
          · exact ht
          · exact hkeys t' hmem
        · rw [heq] at ht'
          exact hkeys t' ht'
      · rw [htokens] at ht'
        exact hkeys t' ht'

/-- A step keeps the session of a token, unless it is a select of the token that finds it
down. -/
theorem lookup_step (hcard : used.card ≤ stickyMax) (hkeys : ∀ t ∈ s.tokens, t ∈ used)
    (hused : ∀ t, s.token e = some t → t ∈ used) (hroom : s.Roomy e)
    (ht : s.tokens.lookup t = some i) :
  (s.step e).tokens.lookup t = some i ∨
    ∃ v q k, e = .select v q ∧ s.form v q = some (.sticky t) ∧ s.live.isLive i = false ∧
      (s.select v q).1 = .ok k ∧ s.live.liveFrom (UInt64.ofNat (i + 1)) = some k
  := by
  cases e with
  | store m up => exact .inl ht
  | select v q =>
      rw [step]
      obtain ⟨t', hform, hstep, hresult⟩ | ⟨-, -, -, -, htokens⟩ := s.select_cases v q
      · have htoken : s.token (.select v q) = some t' := by
          rw [token, hform]
        obtain ⟨j, -, -, heq⟩ | ⟨j, k, hlookup, hdown, hfrom, heq⟩ | ⟨k, hlookup, -, heq⟩ |
          ⟨-, heq⟩ := s.sticky_cases t'
        · rw [hstep, heq]
          exact .inl ht
        · by_cases hsame : t' = t
          · subst hsame
            obtain rfl : j = i := Option.some.inj (hlookup.symm.trans ht)
            refine .inr ⟨v, q, k, rfl, hform, hdown, ?_, hfrom⟩
            rw [hresult, heq]
          · refine .inl ?_
            rw [hstep, heq, tokens_remember (hroom t' j k htoken hlookup hdown hfrom),
              AList.lookup_insert_ne (Ne.symm hsame)]
            exact ht
        · have hne : t ≠ t' := by
            rintro rfl
            rw [hlookup] at ht
            cases ht
          refine .inl ?_
          have hsize := Nat.lt_of_lt_of_le (size_lt_card hkeys (hused t' htoken) hlookup) hcard
          rw [hstep, heq, tokens_remember (s := { s with rr := s.rr + 1 }) hsize,
            AList.lookup_insert_ne hne]
          exact ht
        · rw [hstep, heq]
          exact .inl ht
      · rw [htokens]
        exact .inl ht

/-- The session of a token over a run: it stays, or there is a select of the token that finds it
down. -/
theorem lookup_run (hcard : used.card ≤ stickyMax) (hkeys : ∀ t ∈ s.tokens, t ∈ used)
    (hused : ∀ e ∈ es, ∀ t, s.token e = some t → t ∈ used)
    (hroom : ∀ before e after, es = before ++ e :: after → (s.run before).Roomy e)
    (ht : s.tokens.lookup t = some i) :
  (s.run es).tokens.lookup t = some i ∨
    ∃ mid rest v q k, es = mid ++ .select v q :: rest ∧ s.form v q = some (.sticky t) ∧
      (s.run mid).live.isLive i = false ∧ ((s.run mid).select v q).1 = .ok k ∧
      (s.run mid).live.liveFrom (UInt64.ofNat (i + 1)) = some k
  := by
  induction es generalizing s with
  | nil => exact .inl ht
  | cons e es ih =>
      have htoken : ∀ e' t, (s.step e).token e' = some t → s.token e' = some t := by
        intro e' t' h
        rwa [← s.token_run [e] e']
      obtain ht' | ⟨v, q, k, rfl, hform, hdown, hok, hfrom⟩ := lookup_step hcard hkeys
        (hused e List.mem_cons_self) (hroom [] e es rfl) ht
      · have hused' : ∀ e' ∈ es, ∀ t, (s.step e).token e' = some t → t ∈ used :=
          fun e' he' t' h => hused e' (List.mem_cons_of_mem e he') t' (htoken e' t' h)
        have hroom' : ∀ before e' after, es = before ++ e' :: after →
            ((s.step e).run before).Roomy e' := by
          intro before e' after h
          exact hroom (e :: before) e' after (by rw [h, List.cons_append])
        obtain hstay | ⟨mid, rest, v, q, k, rfl, hform, hmoved⟩ :=
          ih (keys_step hkeys (hused e List.mem_cons_self)) hused' hroom' ht'
        · exact .inl hstay
        · refine .inr ⟨e :: mid, rest, v, q, k, rfl, ?_, hmoved⟩
          rw [← s.form_run [e] v q]
          exact hform
      · exact .inr ⟨[], es, v, q, k, rfl, hform, hdown, hok, hfrom⟩

end Used

theorem keys_run {used : Finset (List Char)} (hkeys : ∀ t ∈ s.tokens, t ∈ used)
    (hused : ∀ e ∈ es, ∀ t, s.token e = some t → t ∈ used) :
  ∀ t ∈ (s.run es).tokens, t ∈ used
  := by
  induction es generalizing s with
  | nil => exact hkeys
  | cons e es ih =>
      refine ih (keys_step hkeys (hused e List.mem_cons_self)) ?_
      intro e' he' t ht
      rw [show s.step e = s.run [e] from rfl, token_run] at ht
      exact hused e' (List.mem_cons_of_mem e he') t ht

theorem isLive_of_sticky (h : (s.sticky t).1 = some i) :
  s.live.isLive i = true
  := by
  obtain ⟨j, -, hlive, heq⟩ | ⟨j, k, -, -, hfrom, heq⟩ | ⟨k, -, hfrom, heq⟩ | ⟨hnone, -⟩ :=
    s.sticky_cases t
  · rw [heq] at h
    rwa [← Option.some.inj h]
  · rw [heq] at h
    rw [← Option.some.inj h]
    exact Flags.isLive_of_liveFrom hfrom
  · rw [heq] at h
    rw [← Option.some.inj h]
    exact Flags.isLive_of_liveFrom hfrom
  · rw [hnone] at h
    cases h

/-- The session that a select returns is live, and for a pin its own. -/
theorem select_spec (h : (s.select u p).1 = .ok i) :
  s.live.isLive i = true ∧ ∀ k, s.form u p = some (.pin k) → i = k
  := by
  rw [select] at h
  split at h
  · simp at h
  · rename_i hform
    rw [nextLive] at h
    split at h
    · simp at h
    · rename_i j s' heq
      obtain ⟨hfrom, -⟩ := Prod.mk.inj heq
      obtain rfl := Except.ok.inj h
      exact ⟨Flags.isLive_of_liveFrom hfrom, by simp [hform]⟩
  · rename_i k hform
    split at h
    · simp at h
    · split at h
      · rename_i hlive
        obtain rfl := Except.ok.inj h
        refine ⟨hlive, ?_⟩
        intro k' hk'
        rw [hform] at hk'
        exact Form.pin.inj (Option.some.inj hk')
      · simp at h
  · rename_i t hform
    split at h
    · simp at h
    · rename_i j s' heq
      obtain rfl := Except.ok.inj h
      exact ⟨isLive_of_sticky (congrArg Prod.fst heq), by simp [hform]⟩

theorem choosesLive (s : Selector) (es : List Event) :
  s.ChoosesLive es
  := by
  intro before after u p i _ h
  exact (select_spec h).1

theorem keepsPins (s : Selector) (es : List Event) :
  s.KeepsPins es
  := by
  intro before after u p k i _ hform h
  refine (select_spec h).2 k ?_
  rw [form_run]
  exact hform

/-- With at most as many tokens as the table holds, and room whenever a token moves, tokens stay
put. -/
theorem staysPut {used : Finset (List Char)} (hcard : used.card ≤ stickyMax)
    (hempty : s.tokens = ∅) (hused : ∀ e ∈ es, ∀ t, s.token e = some t → t ∈ used)
    (hroom : ∀ before e after, es = before ++ e :: after → (s.run before).Roomy e) :
  s.StaysPut es
  := by
  intro before between after u p u' p' t i j hes hform hform' hi hj
  let first := s.run (before ++ [.select u p])
  have hfirst : first = (s.run before).step (.select u p) := s.run_append before _
  have hlookup : first.tokens.lookup t = some i := by
    rw [hfirst]
    refine lookup_select ?_ hi
    rw [form_run]
    exact hform
  have hes' : es = (before ++ [.select u p]) ++ ((between ++ [.select u' p']) ++ after) := by
    rw [hes]
    simp
  have hkeys : ∀ t ∈ first.tokens, t ∈ used := by
    refine keys_run ?_ ?_
    · intro t' ht'
      rw [hempty] at ht'
      cases ht'
    · intro e he
      exact hused e (by rw [hes']; exact List.mem_append_left _ he)
  have hused' : ∀ e ∈ between ++ [.select u' p'], ∀ t, first.token e = some t → t ∈ used := by
    intro e he t' ht'
    rw [token_run] at ht'
    refine hused e ?_ t' ht'
    rw [hes']
    exact List.mem_append_right _ (List.mem_append_left _ he)
  have hroom' : ∀ front e rest, between ++ [.select u' p'] = front ++ e :: rest →
      (first.run front).Roomy e := by
    intro front e rest h
    rw [← run_append]
    refine hroom _ e (rest ++ after) ?_
    rw [hes', h]
    simp
  obtain hstay | ⟨mid, rest, v, q, k, hsplit, hformv, hdown, hok, hfrom⟩ :=
    lookup_run hcard hkeys hused' hroom' hlookup
  · -- the session is still remembered after the second select, which returned it
    left
    have hlast : first.run (between ++ [.select u' p']) =
        (s.run (before ++ .select u p :: between)).step (.select u' p') := by
      rw [run_append, ← run_append s, List.append_assoc]
      rfl
    rw [hlast] at hstay
    rw [lookup_select (by rw [form_run]; exact hform') hj] at hstay
    exact (Option.some.inj hstay).symm
  · right
    have hmid : first.run mid = s.run (before ++ .select u p :: mid) := by
      rw [← run_append s, List.append_assoc]
      rfl
    rw [hmid] at hdown hok hfrom
    rw [form_run] at hformv
    refine ⟨mid, rest, v, q, k, hsplit, hformv, hdown, hok, ?_⟩
    refine Flags.firstLiveAfter_of_liveFrom ?_ hfrom
    have hlt := Flags.lt_length_of_isLive (select_spec hi).1
    rw [(s.run_frame _).2.2] at hlt ⊢
    exact hlt

/-- With fewer tokens than the table holds there is always room. -/
theorem roomy_run {used : Finset (List Char)} (hcard : used.card < stickyMax)
    (hempty : s.tokens = ∅) (hused : ∀ e ∈ es, ∀ t, s.token e = some t → t ∈ used) :
  ∀ before e after, es = before ++ e :: after → (s.run before).Roomy e
  := by
  intro before e after hes _ _ _ _ _ _ _
  have hkeys : ∀ t ∈ (s.run before).tokens, t ∈ used := by
    refine keys_run ?_ ?_
    · intro t ht
      rw [hempty] at ht
      cases ht
    · intro e' he'
      exact hused e' (by rw [hes]; exact List.mem_append_left _ he')
  refine Nat.lt_of_le_of_lt ?_ hcard
  rw [Table.size_eq_length_keys, ← List.toFinset_card_of_nodup (s.run before).tokens.keys_nodup]
  apply Finset.card_le_card
  intro t ht
  exact hkeys t (AList.mem_keys.mpr (List.mem_toFinset.mp ht))

/-- Selects choose live sessions and keep pins, and when every token that moves finds room in the
table, at most as many tokens as it holds stay put. -/
theorem sticky_egress (user : List Char) (pass : List UInt8) (live : Flags) (es : List Event)
    (hroom : ∀ before e after, es = before ++ e :: after →
      ((new user pass live).run before).Roomy e) :
  (new user pass live).ChoosesLive es ∧ (new user pass live).KeepsPins es ∧
    ((es.filterMap (new user pass live).token).toFinset.card ≤ stickyMax →
      (new user pass live).StaysPut es)
  := by
  refine ⟨choosesLive _ es, keepsPins _ es, ?_⟩
  intro hcard
  refine staysPut hcard rfl ?_ hroom
  intro e he t ht
  exact List.mem_toFinset.mpr (List.mem_filterMap.mpr ⟨e, he, ht⟩)

/-- Two sessions, both live. -/
def pair : Selector :=
  new "proxy".toList [1] ⟨[true, true], by decide⟩

/-- The user with a token of some letters. -/
def letters (k : ℕ) : List UInt8 :=
  utf8 (String.ofList ("proxy_s".toList ++ List.replicate k 'a'))

theorem form_letters (s : Selector) (huser : s.user = "proxy".toList) (hpass : s.pass = [1])
    (k : ℕ) :
  s.form (letters (k + 1)) [1] = some (.sticky (List.replicate (k + 1) 'a'))
  := by
  have hname : String.fromUTF8? ⟨(letters (k + 1)).toArray⟩ =
      some (String.ofList ("proxy_s".toList ++ List.replicate (k + 1) 'a')) :=
    (fromUTF8?_eq_some_iff _ _).mpr rfl
  have hrest : stripPrefix s.user ("proxy_s".toList ++ List.replicate (k + 1) 'a') =
      some ("_s".toList ++ List.replicate (k + 1) 'a') := by
    rw [huser, ← stripPrefix_append "proxy".toList]
    rfl
  have hpin : stripPrefix "_pppoe".toList ("_s".toList ++ List.replicate (k + 1) 'a') = none := by
    rw [stripPrefix, if_neg]
    simp
  rw [form, hname]
  simp [hpass, hrest, hpin, stripPrefix_append, -String.reduceToList]

theorem form_letters_run (es : List Event) (k : ℕ) :
  (pair.run es).form (letters (k + 1)) [1] = some (.sticky (List.replicate (k + 1) 'a'))
  := form_letters _ (pair.run_frame es).1 (pair.run_frame es).2.1 k

theorem step_letters (es : List Event) (k : ℕ) :
  (pair.run es).step (.select (letters (k + 1)) [1]) =
    ((pair.run es).sticky (List.replicate (k + 1) 'a')).2
  := by
  obtain ⟨t, hform, hstep, -⟩ | ⟨hother, -⟩ := (pair.run es).select_cases (letters (k + 1)) [1]
  · rw [form_letters_run] at hform
    rw [step, hstep, Form.sticky.inj (Option.some.inj hform)]
  · exact absurd (form_letters_run es k) (hother _)

theorem liveFrom_pair (start : UInt64) :
  pair.live.liveFrom start = some (start.toNat % 2)
  := by
  have hlive : pair.live.isLive (start.toNat % 2) = true := by
    obtain h | h := Nat.mod_two_eq_zero_or_one start.toNat
    · rw [h]
      rfl
    · rw [h]
      rfl
  change List.find? pair.live.isLive ((start + 0).toNat % 2 :: _) = _
  rw [UInt64.add_zero, List.find?_cons_of_pos hlive]

/-- A new token gets a session in turn. -/
theorem sticky_pair (hlive : s.live = pair.live) (hnone : s.tokens.lookup t = none)
    (hroom : s.tokens.size < stickyMax) :
  s.sticky t = (some (s.rr.toNat % 2),
    { s with rr := s.rr + 1, tokens := s.tokens.insert t (s.rr.toNat % 2) })
  := by
  rw [sticky, hnone]
  dsimp only [nextLive]
  rw [hlive, liveFrom_pair]
  dsimp only [remember]
  rw [if_neg (Nat.not_le_of_lt hroom)]

/-- A token that moves when its session goes down. -/
def moves : List Event :=
  [.select (letters 1) [1], .store 0 false, .select (letters 1) [1]]

theorem token_moves :
  ∀ e ∈ moves, ∀ t, pair.token e = some t → t ∈ ({['a']} : Finset (List Char))
  := by
  intro e he t ht
  simp only [moves, List.mem_cons, List.not_mem_nil, or_false] at he
  have hform : pair.form (letters 1) [1] = some (.sticky ['a']) := form_letters_run [] 0
  obtain rfl | rfl | rfl := he
  · rw [token, hform] at ht
    exact Finset.mem_singleton.mpr (Option.some.inj ht).symm
  · cases ht
  · rw [token, hform] at ht
    exact Finset.mem_singleton.mpr (Option.some.inj ht).symm

theorem sticky_egress_moves :
  pair.ChoosesLive moves ∧ pair.KeepsPins moves ∧ pair.StaysPut moves
  := by
  have hroom := roomy_run (s := pair) (by decide) rfl token_moves
  obtain ⟨hlive, hpins, hstays⟩ := sticky_egress "proxy".toList [1] ⟨[true, true], by decide⟩ moves
    hroom
  refine ⟨hlive, hpins, hstays ?_⟩
  have hsub : (moves.filterMap pair.token).toFinset ⊆ {['a']} := by
    intro t ht
    obtain ⟨e, he, htoken⟩ := List.mem_filterMap.mp (List.mem_toFinset.mp ht)
    exact token_moves e he t htoken
  exact (Finset.card_le_card hsub).trans (by decide)

/-- Selects of several tokens. -/
def fill (n : ℕ) : List Event :=
  (List.range n).map fun k => .select (letters (k + 1)) [1]

theorem fill_succ (n : ℕ) :
  fill (n + 1) = fill n ++ [.select (letters (n + 1)) [1]]
  := by
  rw [fill, List.range_succ, List.map_append]
  rfl

/-- The sessions are given in turns. -/
theorem run_fill {n : ℕ} (h : n ≤ stickyMax) :
  (pair.run (fill n)).rr = UInt64.ofNat n ∧ (pair.run (fill n)).live = pair.live ∧
    (pair.run (fill n)).tokens.size = n ∧
    ∀ k, (pair.run (fill n)).tokens.lookup (List.replicate (k + 1) 'a') =
      if k < n then some (k % 2) else none
  := by
  induction n with
  | zero => exact ⟨rfl, rfl, rfl, fun k => rfl⟩
  | succ n ih =>
      obtain ⟨hrr, hlive, hsize, hlookup⟩ := ih (Nat.le_of_succ_le h)
      have hnone := hlookup n
      rw [if_neg (Nat.lt_irrefl n)] at hnone
      have hstep : pair.run (fill (n + 1)) = { pair.run (fill n) with
          rr := UInt64.ofNat n + 1
          tokens := (pair.run (fill n)).tokens.insert (List.replicate (n + 1) 'a') (n % 2) } := by
        have hturn : (UInt64.ofNat n).toNat = n :=
          UInt64.toNat_ofNat_of_lt' (Nat.lt_of_lt_of_le h (by decide))
        rw [fill_succ, run_append]
        refine (step_letters _ n).trans ?_
        rw [sticky_pair hlive hnone (by rw [hsize]; exact h), hrr, hturn]
      rw [hstep]
      refine ⟨?_, hlive, ?_, ?_⟩
      · rw [UInt64.ofNat_add]
        rfl
      · rw [Table.size_insert_of_none hnone, hsize]
      · intro k
        rw [Table.lookup_insert_eq, hlookup]
        by_cases hk : k = n
        · subst hk
          simp
        · have hne : List.replicate (k + 1) 'a' ≠ List.replicate (n + 1) 'a' := by
            intro heq
            have hlength := congrArg List.length heq
            simp only [List.length_replicate] at hlength
            omega
          have hiff : k < n ↔ k < n + 1 := by
            omega
          rw [if_neg hne, if_congr hiff rfl rfl]

/-- The first session is down when its first token is used, and comes back. -/
def blink : List Event :=
  [.store 0 false, .select (letters 1) [1], .store 0 true]

/-- As many tokens as the table holds, then one of them moves, and another is used again. -/
def overflow : List Event :=
  fill stickyMax ++ (blink ++ [.select (letters 2) [1]])

/-- To move a token clears a full table. -/
theorem run_blink (huser : s.user = "proxy".toList) (hpass : s.pass = [1])
    (hlive : s.live = pair.live) (hfull : s.tokens.size = stickyMax)
    (hfirst : s.tokens.lookup ['a'] = some 0) :
  (s.run blink).tokens = (∅ : Table (List Char) ℕ).insert ['a'] 1 ∧
    (s.run blink).live = pair.live ∧ (s.run blink).rr = s.rr
  := by
  let dark : Selector := { s with live := pair.live.store 0 false }
  have hdark : s.step (.store 0 false) = dark := by
    rw [step, hlive]
  have hmoved : dark.step (.select (letters 1) [1]) =
      { dark with tokens := (∅ : Table (List Char) ℕ).insert ['a'] 1 } := by
    have hform : dark.form (letters 1) [1] = some (.sticky ['a']) := form_letters _ huser hpass 0
    have hfrom : (pair.live.store 0 false).liveFrom (UInt64.ofNat (0 + 1)) = some 1 := by
      decide
    have hsticky : dark.sticky ['a'] = (some 1, dark.remember ['a'] 1) := by
      rw [sticky, hfirst]
      dsimp only
      rw [if_neg (show ¬ (pair.live.store 0 false).isLive 0 = true by decide), hfrom]
    have hremember : dark.remember ['a'] 1 =
        { dark with tokens := (∅ : Table (List Char) ℕ).insert ['a'] 1 } := by
      rw [remember, if_pos (Nat.le_of_eq hfull.symm)]
    rw [step, select, hform, ← hremember]
    dsimp only
    rw [hsticky]
  have hback : (pair.live.store 0 false).store 0 true = pair.live := rfl
  rw [blink, run, List.foldl_cons, List.foldl_cons, List.foldl_cons, hdark, hmoved, step, hback]
  exact ⟨rfl, rfl, rfl⟩

theorem isLive_step {i : ℕ} (h : ∀ up, e ≠ .store i up) :
  (s.step e).live.isLive i = s.live.isLive i
  := by
  cases e with
  | select u p =>
      rw [step]
      obtain ⟨t, -, hstep, -⟩ | ⟨-, -, -, hlive, -⟩ := s.select_cases u p
      · rw [hstep, (s.sticky_frame t).2.2]
      · rw [hlive]
  | store j up =>
      have hne : j ≠ i := by
        rintro rfl
        exact h up rfl
      simp [step, Flags.isLive, Flags.store, List.getD_eq_getElem?_getD, List.getElem?_set_ne hne]

theorem isLive_run {i : ℕ} (h : ∀ e ∈ es, ∀ up, e ≠ .store i up) :
  (s.run es).live.isLive i = s.live.isLive i
  := by
  induction es generalizing s with
  | nil => rfl
  | cons e es ih =>
      refine (ih fun e' he' => h e' (List.mem_cons_of_mem e he')).trans ?_
      exact isLive_step (h e List.mem_cons_self)

theorem not_store_one_overflow :
  ∀ e ∈ overflow, ∀ up, e ≠ .store 1 up
  := by
  rintro e he up rfl
  simp [overflow, fill, blink] at he

theorem card_overflow :
  (overflow.filterMap pair.token).toFinset.card ≤ stickyMax
  := by
  have hsub : (overflow.filterMap pair.token).toFinset ⊆
      (Finset.range stickyMax).image fun k => List.replicate (k + 1) 'a' := by
    intro t ht
    obtain ⟨e, he, htoken⟩ := List.mem_filterMap.mp (List.mem_toFinset.mp ht)
    have hselect : ∀ k, k < stickyMax → e = .select (letters (k + 1)) [1] →
        t ∈ (Finset.range stickyMax).image fun k => List.replicate (k + 1) 'a' := by
      rintro k hk rfl
      rw [token, show pair.form _ _ = _ from form_letters_run [] k] at htoken
      exact Finset.mem_image.mpr ⟨k, Finset.mem_range.mpr hk, Option.some.inj htoken⟩
    rw [overflow, List.mem_append] at he
    obtain he | he := he
    · obtain ⟨k, hk, rfl⟩ := List.mem_map.mp he
      exact hselect k (List.mem_range.mp hk) rfl
    · simp only [blink, List.cons_append, List.nil_append, List.mem_cons, List.not_mem_nil,
        or_false] at he
      obtain rfl | rfl | rfl | rfl := he
      · cases htoken
      · exact hselect 0 (by decide) rfl
      · cases htoken
      · exact hselect 1 (by decide) rfl
  refine (Finset.card_le_card hsub).trans ?_
  exact Finset.card_image_le.trans (Nat.le_of_eq (Finset.card_range stickyMax))

theorem select_letters (es : List Event) {k : ℕ}
    (h : ((pair.run es).sticky (List.replicate (k + 1) 'a')).1 = some i) :
  ((pair.run es).select (letters (k + 1)) [1]).1 = .ok i
  := by
  obtain ⟨t, hform, -, hresult⟩ | ⟨hother, -⟩ := (pair.run es).select_cases (letters (k + 1)) [1]
  · rw [form_letters_run] at hform
    rw [hresult, ← Form.sticky.inj (Option.some.inj hform)]
    exact h
  · exact absurd (form_letters_run es k) (hother _)

/-- The second token is first given the second session, which stays live, and later the first. -/
theorem full_table_forgets :
  (overflow.filterMap pair.token).toFinset.card ≤ stickyMax ∧ ¬ pair.StaysPut overflow
  := by
  refine ⟨card_overflow, ?_⟩
  intro hstays
  let more : List Event :=
    (List.range (stickyMax - 2)).map fun k => .select (letters (2 + k + 1)) [1]
  have hfill : fill stickyMax = fill 1 ++ .select (letters 2) [1] :: more := by
    rw [fill, show stickyMax = 2 + (stickyMax - 2) from rfl, List.range_add, List.map_append,
      List.map_map]
    rfl
  have hsplit : overflow = fill 1 ++ .select (letters 2) [1] ::
      ((more ++ blink) ++ .select (letters 2) [1] :: []) := by
    rw [overflow, hfill]
    simp
  have hfirst : ((pair.run (fill 1)).select (letters 2) [1]).1 = .ok 1 := by
    obtain ⟨hrr, hlive, hsize, hlookup⟩ := run_fill (show 1 ≤ stickyMax by decide)
    refine select_letters (fill 1) ?_
    rw [sticky_pair hlive (hlookup 1) (by rw [hsize]; decide), hrr]
    rfl
  have hagain : ((pair.run (fill 1 ++ .select (letters 2) [1] :: (more ++ blink))).select
      (letters 2) [1]).1 = .ok 0 := by
    obtain ⟨hrr, hlive, hsize, hlookup⟩ := run_fill (Nat.le_refl stickyMax)
    obtain ⟨htokens, hlive', hrr'⟩ := run_blink (pair.run_frame _).1 (pair.run_frame _).2.1 hlive
      hsize (hlookup 0)
    rw [← run_append] at htokens hlive' hrr'
    have hlist : fill 1 ++ .select (letters 2) [1] :: (more ++ blink) =
        fill stickyMax ++ blink := by
      rw [hfill]
      simp
    rw [hlist]
    refine select_letters _ ?_
    rw [sticky_pair hlive' (by rw [htokens]; rfl) (by rw [htokens]; decide), hrr', hrr]
    rfl
  obtain heq | ⟨mid, rest, v, q, k, hmid, -, hdown, -⟩ := hstays _ _ _ _ _ _ _ _ _ _ hsplit
    (form_letters_run [] 1) (form_letters_run [] 1) hfirst hagain
  · cases heq
  · -- the second session is live throughout
    rw [isLive_run] at hdown
    · cases hdown
    · intro e he
      apply not_store_one_overflow
      rw [hsplit]
      have hmem : ∀ e ∈ mid, e ∈ more ++ blink ++ [.select (letters 2) [1]] := by
        intro e he
        rw [hmid]
        exact List.mem_append_left _ he
      obtain he | he := List.mem_append.mp he
      · exact List.mem_append_left _ he
      · obtain rfl | he := List.mem_cons.mp he
        · exact List.mem_append_right _ List.mem_cons_self
        · exact List.mem_append_right _ (List.mem_cons_of_mem _ (hmem e he))

end Selector

end ZeroNat.Proxy

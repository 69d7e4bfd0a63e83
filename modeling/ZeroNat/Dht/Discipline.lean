import ZeroNat.Dht.Gathered
import ZeroNat.Lib.Nearest

/-!
# The discipline of a walk

Whatever the nodes answer, a round after the first asks no more than `k` contacts, each among the
closest that were named and not asked before; the closing round asks only those that hold no
token and are worth asking; and the storers of a lookup are the closest token holders, one for
each address.
-/

namespace ZeroNat.Dht

section

variable (target : NodeId) (seed : List SocketAddrV4) (ask : ℕ → List Contact → List Parsed)

/-- The addresses named before a round and not asked before it. -/
def unasked (n : ℕ) : List Contact :=
  (firstNamed target seed ask n).filter fun c => c.addr ∉ askedBefore target seed ask n

/-- The answers of the closing round. -/
def closingAnswers : List Parsed :=
  if (closing target seed ask).isEmpty then [] else ask rounds (closing target seed ask)

/-- All answers of a walk. -/
def allAnswers : List Parsed :=
  answered target seed ask rounds ++ closingAnswers target seed ask

variable {target seed ask}

/-- The contacts of a round after the first are the closest unasked ones of a sorted list. -/
theorem asked_succ (target : NodeId) (seed : List SocketAddrV4)
    (ask : ℕ → List Contact → List Parsed) (n : ℕ) :
  asked target seed ask (n + 1) = []
    ∨ ∃ l : List Contact, l.Perm (unasked target seed ask (n + 1))
      ∧ (l.Pairwise fun a b => a.dist target ≤ b.dist target)
      ∧ asked target seed ask (n + 1) = l.take k
  := by
  by_cases hnil : asked target seed ask n = []
  · left
    rw [asked, before_succ_of_nil hnil]
    exact hnil
  · right
    have hgathered := gathered target seed ask (n + 1)
    have hbefore := before_succ hnil
    let w := (before target seed ask (n + 1)).1
    have hsorted : w.shortlist.Pairwise fun a b => a.dist target ≤ b.dist target := by
      simp only [w, hbefore, Walk.absorb]
      exact sorted_sortByDist target _
    refine ⟨w.shortlist.filter fun c => c.addr ∉ w.queried, ?_, hsorted.filter _, ?_⟩
    · have hfilter : (fun c : Contact => decide (c.addr ∉ w.queried))
          = fun c => decide (c.addr ∉ askedBefore target seed ask (n + 1)) := by
        funext c
        simp only [w, hgathered.queried]
      rw [unasked, hfilter]
      exact hgathered.shortlist.filter _
    · rw [asked]
      simp only [w, hbefore, Walk.absorb]

/-- What a round after the first asks. -/
theorem asked_closest {n : ℕ} (hn : 1 ≤ n) :
  (asked target seed ask n).length ≤ k
    ∧ ∀ c ∈ asked target seed ask n, c ∈ unasked target seed ask n
      ∧ ((unasked target seed ask n).filter fun d => d.dist target < c.dist target).length < k
  := by
  obtain ⟨n, rfl⟩ := Nat.exists_eq_succ_of_ne_zero (Nat.one_le_iff_ne_zero.mp hn)
  obtain hnil | ⟨l, hperm, hsorted, hasked⟩ :=
    asked_succ target seed ask n
  · rw [hnil]
    simp
  · rw [hasked]
    refine ⟨List.length_take_le k l, ?_⟩
    intro c hc
    refine ⟨hperm.subset (List.mem_of_mem_take hc), ?_⟩
    rw [← (hperm.filter _).length_eq]
    exact List.length_filter_lt_of_mem_take hsorted hc

theorem asked_fresh {n : ℕ} (hn : 1 ≤ n) {c : Contact} (hc : c ∈ asked target seed ask n) :
  c.addr ∉ askedBefore target seed ask n
  := of_decide_eq_true (List.mem_filter.mp ((asked_closest hn).2 c hc).1).2

theorem storers_walk :
  (walk target seed ask).1.storers
    = (retainNoted [] (sortByDist target
        ((allAnswers target seed ask).filterMap Parsed.storer))).take k
  := by
  have hgathered := gathered target seed ask rounds
  have hstorers : (if (closing target seed ask).isEmpty then (before target seed ask rounds).1
      else (ask rounds (closing target seed ask)).foldl (fun w p => w.record p false)
        (before target seed ask rounds).1).storers
      = (allAnswers target seed ask).filterMap Parsed.storer := by
    rw [allAnswers, closingAnswers, List.filterMap_append, ← hgathered.storers]
    split
    · simp
    · rw [(Walk.closing_foldl _ _).1]
  rw [walk]
  simp only [Walk.finish, hstorers]

theorem storer_eq_some {p : Parsed} {c : Contact} (h : p.storer = some c) :
  p.source = c.addr ∧ p.id = some c.id ∧ p.token = c.token ∧ c.token ≠ none
  := by
  obtain ⟨source, id, token, nodes, ip, value⟩ := p
  cases id <;> cases token <;> simp [Parsed.storer] at h
  subst h
  simp

theorem source_of_responder {p : Parsed} {c : Contact} (h : p.responder = some c) :
  p.source = c.addr
  := by
  obtain ⟨id, -, rfl⟩ := Option.map_eq_some_iff.mp h
  rfl

/-- The contacts of the closing round. -/
theorem closing_worth {c : Contact} (h : c ∈ closing target seed ask) :
  (∀ p ∈ answered target seed ask rounds, p.source = c.addr → p.storer = none)
    ∧ ((∃ p ∈ answered target seed ask rounds, p.source = c.addr)
      ∨ c.addr ∉ askedBefore target seed ask rounds)
  := by
  have hgathered := gathered target seed ask rounds
  rw [closing] at h
  split at h
  · have hmem := (retainNoted_sublist _ _).subset
      ((perm_sortByDist target _).subset (List.mem_of_mem_take h))
    obtain ⟨-, hworth⟩ := List.mem_filter.mp hmem
    obtain ⟨htoken, hknown⟩ := of_decide_eq_true hworth
    constructor
    · intro p hp hsource
      by_contra hstorer
      obtain ⟨d, hd⟩ := Option.ne_none_iff_exists'.mp hstorer
      apply htoken
      rw [hgathered.storers, ← hsource, (storer_eq_some hd).1]
      exact List.mem_map_of_mem (List.mem_filterMap.mpr ⟨p, hp, hd⟩)
    · obtain hanswered | hnew := hknown
      · left
        rw [hgathered.known] at hanswered
        obtain ⟨d, hd, haddr⟩ := List.mem_map.mp hanswered
        obtain ⟨p, hp, hresponder⟩ := List.mem_filterMap.mp hd
        exact ⟨p, hp, (source_of_responder hresponder).trans haddr⟩
      · right
        rwa [hgathered.queried] at hnew
  · exact absurd h List.not_mem_nil

/-- The discipline of a walk, over all seeds and all answers. -/
structure Disciplined (target : NodeId) (seed : List SocketAddrV4)
    (ask : ℕ → List Contact → List Parsed) : Prop where
  few : ∀ n, 1 ≤ n → n < rounds → (asked target seed ask n).length ≤ k
  fresh : ∀ n, 1 ≤ n → n < rounds → ∀ c ∈ asked target seed ask n,
    c.addr ∉ askedBefore target seed ask n
  closest : ∀ n, 1 ≤ n → n < rounds → ∀ c ∈ asked target seed ask n,
    c ∈ unasked target seed ask n
      ∧ ((unasked target seed ask n).filter fun d => d.dist target < c.dist target).length < k
  tokenless : ∀ c ∈ closing target seed ask,
    ∀ p ∈ answered target seed ask rounds, p.source = c.addr → p.storer = none
  worthwhile : ∀ c ∈ closing target seed ask,
    (∃ p ∈ answered target seed ask rounds, p.source = c.addr)
      ∨ c.addr ∉ askedBefore target seed ask rounds
  bounded : (walk target seed ask).1.storers.length ≤ k
  distinct : (walk target seed ask).1.storers.Pairwise fun c d => c.addr ≠ d.addr
  given : ∀ c ∈ (walk target seed ask).1.storers, c.token ≠ none
    ∧ ∃ p ∈ allAnswers target seed ask, p.source = c.addr ∧ p.token = c.token
  sorted : (walk target seed ask).1.storers.Pairwise fun c d => c.dist target ≤ d.dist target
  nearest : ∀ p ∈ allAnswers target seed ask, ∀ d, p.storer = some d →
    (∀ c ∈ (walk target seed ask).1.storers, c.addr ≠ d.addr) →
      ∀ c ∈ (walk target seed ask).1.storers, c.dist target ≤ d.dist target

/-- Every walk is disciplined. -/
theorem walk_disciplined (target : NodeId) (seed : List SocketAddrV4)
    (ask : ℕ → List Contact → List Parsed) :
  Disciplined target seed ask
  := by
  let holders := (allAnswers target seed ask).filterMap Parsed.storer
  let kept := retainNoted [] (sortByDist target holders)
  have hstorers : (walk target seed ask).1.storers = kept.take k := storers_walk
  have hsorted : kept.Pairwise fun c d => c.dist target ≤ d.dist target :=
    (sorted_sortByDist target holders).sublist (retainNoted_sublist [] _)
  constructor
  case few =>
      intro n hn _
      exact (asked_closest hn).1
  case fresh =>
      intro n hn _ c hc
      exact asked_fresh hn hc
  case closest =>
      intro n hn _
      exact (asked_closest hn).2
  case tokenless =>
      intro c hc
      exact (closing_worth hc).1
  case worthwhile =>
      intro c hc
      exact (closing_worth hc).2
  case bounded =>
      rw [hstorers]
      exact List.length_take_le k kept
  case distinct =>
      rw [hstorers]
      exact (pairwise_addr_retainNoted [] _).sublist (List.take_sublist k kept)
  case given =>
      intro c hc
      rw [hstorers] at hc
      have hholder : c ∈ holders := (perm_sortByDist target holders).subset
        ((retainNoted_sublist [] _).subset (List.mem_of_mem_take hc))
      obtain ⟨p, hp, hstorer⟩ := List.mem_filterMap.mp hholder
      obtain ⟨hsource, -, htoken, hsome⟩ := storer_eq_some hstorer
      exact ⟨hsome, p, hp, hsource, htoken⟩
  case sorted =>
      rw [hstorers]
      exact hsorted.sublist (List.take_sublist k kept)
  case nearest =>
      intro p hp d hd hout c hc
      rw [hstorers] at hout hc
      -- The contact kept for the address of `d` is left out by the cut alone.
      have hholder : d ∈ sortByDist target holders := (perm_sortByDist target holders).symm.subset
        (List.mem_filterMap.mpr ⟨p, hp, hd⟩)
      obtain ⟨e, he, haddr, hle⟩ := exists_mem_retainNoted
        (R := fun a b => a.dist target ≤ b.dist target) (fun c => le_refl (c.dist target))
        (sorted_sortByDist target holders) hholder (List.not_mem_nil (a := d.addr))
      have hcut : e ∉ kept.take k := fun hmem => hout e hmem haddr
      exact (List.le_of_mem_take_of_notMem_take hsorted hc he hcut).trans hle

end

end ZeroNat.Dht

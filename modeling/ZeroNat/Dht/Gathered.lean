import ZeroNat.Dht.Node

/-!
# What a walk has gathered

The lists of a walk, told by the answers it has taken: the token holders and the responders are
those of the answers in order, the votes are counted over them, and the shortlist holds the first
mention of every address.
-/

namespace ZeroNat.Dht

/-! ### Noting addresses -/

theorem mem_note {set : List SocketAddrV4} {a b : SocketAddrV4} :
  b ∈ (note set a).1 ↔ b ∈ set ∨ b = a
  := by
  rw [note]
  split
  · rename_i hmem
    constructor
    · exact Or.inl
    · rintro (hb | rfl)
      · exact hb
      · exact hmem
  · simp

theorem mem_noteAll {set addrs : List SocketAddrV4} {b : SocketAddrV4} :
  b ∈ noteAll set addrs ↔ b ∈ set ∨ b ∈ addrs
  := by
  induction addrs generalizing set with
  | nil => simp [noteAll]
  | cons a addrs ih =>
      rw [noteAll, List.foldl_cons, ← noteAll, ih, mem_note, List.mem_cons, or_assoc]

theorem nodup_noteAll {set : List SocketAddrV4} (h : set.Nodup) (addrs : List SocketAddrV4) :
  (noteAll set addrs).Nodup
  := by
  induction addrs generalizing set with
  | nil => exact h
  | cons a addrs ih =>
      rw [noteAll, List.foldl_cons, ← noteAll]
      apply ih
      rw [note]
      split
      · exact h
      · rename_i hnew
        exact List.nodup_append.mpr ⟨h, List.nodup_singleton a, by
          rintro b hb _ hc rfl
          exact hnew (List.mem_singleton.mp hc ▸ hb)⟩

/-- The first contact of each address outside of a set. -/
theorem retainNoted_cons (set : List SocketAddrV4) (c : Contact) (l : List Contact) :
  retainNoted set (c :: l)
    = if c.addr ∈ set then retainNoted set l else c :: retainNoted (set ++ [c.addr]) l
  := by
  rw [retainNoted, note]
  split <;> simp

theorem retainNoted_sublist (set : List SocketAddrV4) (l : List Contact) :
  (retainNoted set l).Sublist l
  := by
  induction l generalizing set with
  | nil => exact List.Sublist.slnil
  | cons c l ih =>
      rw [retainNoted_cons]
      split
      · exact (ih set).cons c
      · exact (ih _).cons_cons c

theorem addr_notMem_of_mem_retainNoted {set : List SocketAddrV4} {l : List Contact} {c : Contact}
    (h : c ∈ retainNoted set l) :
  c.addr ∉ set
  := by
  induction l generalizing set with
  | nil => exact absurd h List.not_mem_nil
  | cons d l ih =>
      rw [retainNoted_cons] at h
      split at h
      · exact ih h
      · rename_i hnew
        obtain rfl | h := List.mem_cons.mp h
        · exact hnew
        · intro hset
          exact ih h (List.mem_append_left _ hset)

theorem pairwise_addr_retainNoted (set : List SocketAddrV4) (l : List Contact) :
  (retainNoted set l).Pairwise fun c d => c.addr ≠ d.addr
  := by
  induction l generalizing set with
  | nil => exact List.Pairwise.nil
  | cons c l ih =>
      rw [retainNoted_cons]
      split
      · exact ih set
      · refine List.Pairwise.cons ?_ (ih _)
        intro d hd heq
        apply addr_notMem_of_mem_retainNoted hd
        rw [← heq]
        exact List.mem_append_right _ (List.mem_singleton_self _)

/-- In a list in some order, the contact kept for an address comes before the others of that
address. -/
theorem exists_mem_retainNoted {R : Contact → Contact → Prop} (hrefl : ∀ c, R c c)
    {set : List SocketAddrV4} {l : List Contact} (hl : l.Pairwise R) {c : Contact} (hc : c ∈ l)
    (hnew : c.addr ∉ set) :
  ∃ d ∈ retainNoted set l, d.addr = c.addr ∧ R d c
  := by
  induction l generalizing set with
  | nil => exact absurd hc List.not_mem_nil
  | cons d l ih =>
      obtain ⟨hd, hl⟩ := List.pairwise_cons.mp hl
      rw [retainNoted_cons]
      split
      · rename_i hset
        obtain rfl | hc := List.mem_cons.mp hc
        · exact absurd hset hnew
        · exact ih hl hc hnew
      · rename_i hset
        by_cases haddr : d.addr = c.addr
        · refine ⟨d, List.mem_cons_self, haddr, ?_⟩
          obtain rfl | hc := List.mem_cons.mp hc
          · exact hrefl c
          · exact hd c hc
        · obtain rfl | hc := List.mem_cons.mp hc
          · exact absurd rfl haddr
          · have hnew' : c.addr ∉ set ++ [d.addr] := by
              rw [List.mem_append, List.mem_singleton, not_or]
              exact ⟨hnew, Ne.symm haddr⟩
            obtain ⟨e, he, headdr, hR⟩ := ih hl hc hnew'
            exact ⟨e, List.mem_cons_of_mem _ he, headdr, hR⟩

/-- The contacts of a list that is continued are kept as the list goes on. -/
theorem retainNoted_append (set : List SocketAddrV4) (l l' : List Contact) :
  retainNoted set (l ++ l')
    = retainNoted set l ++ retainNoted (set ++ (retainNoted set l).map Contact.addr) l'
  := by
  induction l generalizing set with
  | nil => simp [retainNoted]
  | cons c l ih =>
      rw [List.cons_append, retainNoted_cons, retainNoted_cons]
      split
      · exact ih set
      · rw [ih, List.cons_append, List.map_cons, List.append_assoc, List.singleton_append]

/-! ### Answers taken -/

/-- The token holder of an answer. -/
def Parsed.storer (p : Parsed) : Option Contact :=
  match p.id, p.token with
  | some id, some token => some ⟨id, p.source, some token⟩
  | _, _ => none

/-- The responder of an answer, when it has given its id. -/
def Parsed.responder (p : Parsed) : Option Contact :=
  p.id.map fun id => ⟨id, p.source, none⟩

namespace Walk

theorem discover_foldl (w : Walk) (nodes : List Contact) :
  nodes.foldl discover w =
    { w with
      seen := w.seen ++ (retainNoted w.seen nodes).map Contact.addr
      shortlist := w.shortlist ++ retainNoted w.seen nodes }
  := by
  induction nodes generalizing w with
  | nil => simp [retainNoted]
  | cons c nodes ih =>
      rw [List.foldl_cons, ih, retainNoted_cons]
      by_cases hmem : c.addr ∈ w.seen
      · simp [discover, note, hmem]
      · simp [discover, note, hmem]

/-- What one answer adds to the lists of a walk. -/
theorem record_eq (w : Walk) (p : Parsed) (discovering : Bool) :
  w.record p discovering =
    { shortlist := w.shortlist ++ if discovering then retainNoted w.seen p.nodes else []
      seen := w.seen ++ if discovering then (retainNoted w.seen p.nodes).map Contact.addr else []
      queried := w.queried
      known := w.known ++ if discovering then p.responder.toList else []
      storers := w.storers ++ p.storer.toList
      values := w.values ++ p.value.toList
      ipVotes := p.ip.toList.foldl vote w.ipVotes
      responders := w.responders ++ [p.source] }
  := by
  obtain ⟨source, id, token, nodes, ip, value⟩ := p
  cases discovering <;> cases id <;> cases token <;> cases ip <;>
    simp [record, discover_foldl, Parsed.storer, Parsed.responder]

/-- What the answers of a discovering round add to the lists of a walk. -/
theorem record_foldl (w : Walk) (answers : List Parsed) :
  answers.foldl (fun w p => w.record p true) w =
    { shortlist := w.shortlist ++ retainNoted w.seen (answers.flatMap Parsed.nodes)
      seen := w.seen ++ (retainNoted w.seen (answers.flatMap Parsed.nodes)).map Contact.addr
      queried := w.queried
      known := w.known ++ answers.filterMap Parsed.responder
      storers := w.storers ++ answers.filterMap Parsed.storer
      values := w.values ++ answers.filterMap Parsed.value
      ipVotes := (answers.filterMap Parsed.ip).foldl vote w.ipVotes
      responders := w.responders ++ answers.map Parsed.source }
  := by
  induction answers generalizing w with
  | nil => simp [retainNoted]
  | cons p answers ih =>
      rw [List.foldl_cons, ih, record_eq, List.flatMap_cons, retainNoted_append]
      cases hid : p.responder <;> cases hstorer : p.storer <;> cases hip : p.ip <;>
        cases hvalue : p.value <;> simp [hid, hstorer, hip, hvalue]

/-- The token holders and votes after the answers of the closing round. -/
theorem closing_foldl (w : Walk) (answers : List Parsed) :
  (answers.foldl (fun w p => w.record p false) w).storers
      = w.storers ++ answers.filterMap Parsed.storer
    ∧ (answers.foldl (fun w p => w.record p false) w).ipVotes
      = (answers.filterMap Parsed.ip).foldl vote w.ipVotes
  := by
  induction answers generalizing w with
  | nil => simp
  | cons p answers ih =>
      obtain ⟨hstorers, hvotes⟩ := ih (w.record p false)
      rw [List.foldl_cons, hstorers, hvotes, record_eq]
      cases hstorer : p.storer <;> cases hip : p.ip <;> simp [hstorer, hip]

end Walk

/-! ### The rounds of a walk -/

section Rounds

variable (target : NodeId) (seed : List SocketAddrV4) (ask : ℕ → List Contact → List Parsed)

/-- The contacts asked in a round. -/
def asked (r : ℕ) : List Contact :=
  (before target seed ask r).2

/-- The answers of a round.  A round without contacts is not held. -/
def answersOf (r : ℕ) : List Parsed :=
  if (asked target seed ask r).isEmpty then [] else ask r (asked target seed ask r)

/-- The answers of the rounds before a round, in order. -/
def answered (n : ℕ) : List Parsed :=
  (List.range n).flatMap (answersOf target seed ask)

/-- The addresses asked in the rounds before a round. -/
def askedBefore (n : ℕ) : List SocketAddrV4 :=
  (List.range n).flatMap fun r => (asked target seed ask r).map Contact.addr

/-- The addresses named in the rounds before a round, each as it was first named. -/
def firstNamed (n : ℕ) : List Contact :=
  retainNoted [] ((answered target seed ask n).flatMap Parsed.nodes)

variable {target seed ask}

theorem answered_succ (n : ℕ) :
  answered target seed ask (n + 1) = answered target seed ask n ++ answersOf target seed ask n
  := by
  simp [answered, List.range_succ]

theorem askedBefore_succ (n : ℕ) :
  askedBefore target seed ask (n + 1)
    = askedBefore target seed ask n ++ (asked target seed ask n).map Contact.addr
  := by
  simp [askedBefore, List.range_succ]

theorem firstNamed_succ (n : ℕ) :
  firstNamed target seed ask (n + 1) = firstNamed target seed ask n
    ++ retainNoted ((firstNamed target seed ask n).map Contact.addr)
      ((answersOf target seed ask n).flatMap Parsed.nodes)
  := by
  rw [firstNamed, answered_succ, List.flatMap_append, retainNoted_append, ← firstNamed,
    List.nil_append]

/-- The lists of a walk, by the answers of the rounds held so far. -/
structure Gathered (target : NodeId) (seed : List SocketAddrV4)
    (ask : ℕ → List Contact → List Parsed) (n : ℕ) (w : Walk) : Prop where
  shortlist : w.shortlist.Perm (firstNamed target seed ask n)
  seen : w.seen = (firstNamed target seed ask n).map Contact.addr
  queried : ∀ a, a ∈ w.queried ↔ a ∈ askedBefore target seed ask n
  known : w.known = (answered target seed ask n).filterMap Parsed.responder
  storers : w.storers = (answered target seed ask n).filterMap Parsed.storer
  ipVotes : w.ipVotes = ((answered target seed ask n).filterMap Parsed.ip).foldl vote []

theorem perm_sortByDist (target : NodeId) (l : List Contact) :
  (sortByDist target l).Perm l
  := List.perm_insertionSort _ l

theorem sorted_sortByDist (target : NodeId) (l : List Contact) :
  (sortByDist target l).Pairwise fun a b => a.dist target ≤ b.dist target
  := by
  have : Std.Total fun a b : Contact => a.dist target ≤ b.dist target :=
    ⟨fun a b => le_total _ _⟩
  have : IsTrans Contact fun a b => a.dist target ≤ b.dist target :=
    ⟨fun a b c => le_trans⟩
  exact List.pairwise_insertionSort _ l

/-- The contacts of the next round, when this one is held. -/
theorem before_succ {n : ℕ} (h : asked target seed ask n ≠ []) :
  before target seed ask (n + 1)
    = (before target seed ask n).1.absorb (asked target seed ask n) (answersOf target seed ask n)
      target
  := by
  have hempty : (asked target seed ask n).isEmpty = false := by
    simpa using h
  rw [answersOf, hempty]
  rw [before]
  change (if (asked target seed ask n).isEmpty then _ else _) = _
  rw [hempty]
  rfl

/-- A walk that has come to its end stays there. -/
theorem before_succ_of_nil {n : ℕ} (h : asked target seed ask n = []) :
  before target seed ask (n + 1) = before target seed ask n
  := by
  rw [before]
  change (if (asked target seed ask n).isEmpty then _ else _) = _
  rw [h]
  rfl

theorem gathered (target : NodeId) (seed : List SocketAddrV4)
    (ask : ℕ → List Contact → List Parsed) (n : ℕ) :
  Gathered target seed ask n (before target seed ask n).1
  := by
  induction n with
  | zero => exact ⟨List.Perm.refl _, rfl, by simp [before, askedBefore], rfl, rfl, rfl⟩
  | succ n ih =>
      by_cases hnil : asked target seed ask n = []
      · have hanswers : answersOf target seed ask n = [] := by simp [answersOf, hnil]
        rw [before_succ_of_nil hnil]
        constructor
        · rw [firstNamed_succ, hanswers]
          simpa [retainNoted] using ih.shortlist
        · rw [firstNamed_succ, hanswers]
          simpa [retainNoted] using ih.seen
        · simpa [askedBefore_succ, hnil] using ih.queried
        · simpa [answered_succ, hanswers] using ih.known
        · simpa [answered_succ, hanswers] using ih.storers
        · simpa [answered_succ, hanswers] using ih.ipVotes
      · rw [before_succ hnil, Walk.absorb]
        simp only [Walk.record_foldl]
        constructor
        · apply (perm_sortByDist target _).trans
          rw [firstNamed_succ, ← ih.seen]
          exact ih.shortlist.append_right _
        · rw [firstNamed_succ, List.map_append, ← ih.seen]
        · intro a
          rw [mem_noteAll, askedBefore_succ, List.mem_append, ih.queried]
        · rw [answered_succ, List.filterMap_append, ← ih.known]
        · rw [answered_succ, List.filterMap_append, ← ih.storers]
        · rw [answered_succ, List.filterMap_append, List.foldl_append, ← ih.ipVotes]

end Rounds

end ZeroNat.Dht

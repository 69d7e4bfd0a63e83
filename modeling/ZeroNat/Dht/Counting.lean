import ZeroNat.Dht.Discipline

/-!
# Counting nodes

A walk counts votes and token holders, and a put counts acknowledgements, by the answers taken.
The table of outstanding queries is not consumed by an answer, so that a node that answers twice
is counted twice.  When every query is answered at most once, every count is one of nodes.
-/

namespace ZeroNat.Dht

/-! ### Sources of answers -/

theorem source_of_parseResponse {buf : List UInt8} {txmap : List (UInt16 × SocketAddrV4)}
    {source : SocketAddrV4} {p : Parsed} (h : parseResponse buf txmap source = some p) :
  p.source = source ∧ source ∈ txmap.map Prod.snd
  := by
  rw [parseResponse] at h
  obtain ⟨msg, -, h⟩ := Option.bind_eq_some_iff.mp h
  obtain ⟨y, -, h⟩ := Option.bind_eq_some_iff.mp h
  split at h
  · simp at h
  · obtain ⟨t, -, h⟩ := Option.bind_eq_some_iff.mp h
    simp only at h
    split at h
    · simp at h
    · split at h
      · simp at h
      · rename_i htx
        obtain ⟨r, -, h⟩ := Option.bind_eq_some_iff.mp h
        obtain rfl := Option.some.inj h
        exact ⟨rfl, List.mem_map_of_mem (not_not.mp htx)⟩

theorem source_mem_of_gather {txmap : List (UInt16 × SocketAddrV4)} {received : List Datagram}
    {p : Parsed} (h : p ∈ gather txmap received) :
  p.source ∈ txmap.map Prod.snd
  := by
  obtain ⟨d, -, hd⟩ := List.mem_filterMap.mp h
  split at hd
  · obtain ⟨hsource, hmem⟩ := source_of_parseResponse hd
    rw [hsource]
    exact hmem
  · simp at hd

theorem map_snd_roundTxmap (contacts : List Contact) (r : ℕ) :
  (roundTxmap contacts r).map Prod.snd = (contacts.take 256).map Contact.addr
  := by
  rw [roundTxmap, List.map_map]
  have hfst : (contacts.take 256).zipIdx.map Prod.fst = contacts.take 256 :=
    List.zipIdx_map_fst 0 _
  calc (contacts.take 256).zipIdx.map _
      = ((contacts.take 256).zipIdx.map Prod.fst).map Contact.addr := by
        rw [List.map_map]
        rfl
    _ = (contacts.take 256).map Contact.addr := by rw [hfst]

/-- The nodes that answered, among those asked, when no source occurs twice. -/
theorem length_filter_any {addrs : List SocketAddrV4} (haddrs : addrs.Nodup)
    {answers : List Parsed} (honce : (answers.map Parsed.source).Nodup)
    (hasked : ∀ p ∈ answers, p.source ∈ addrs) (q : Parsed → Bool) :
  (addrs.filter fun a => answers.any fun p => p.source = a ∧ q p).length
    = (answers.filter q).length
  := by
  have hsources : ((answers.filter q).map Parsed.source).Nodup :=
    honce.sublist ((List.filter_sublist).map _)
  have hperm : (addrs.filter fun a => answers.any fun p => p.source = a ∧ q p).Perm
      ((answers.filter q).map Parsed.source) := by
    rw [List.perm_ext_iff_of_nodup (haddrs.filter _) hsources]
    intro a
    simp only [List.mem_filter, List.mem_map, List.any_eq_true, decide_eq_true_eq]
    constructor
    · rintro ⟨-, p, hp, rfl, hq⟩
      exact ⟨p, ⟨hp, hq⟩, rfl⟩
    · rintro ⟨p, ⟨hp, hq⟩, rfl⟩
      exact ⟨hasked p hp, p, hp, rfl, hq⟩
  rw [hperm.length_eq, List.length_map]

/-! ### Votes -/

theorem lookup_vote (votes : List (Ipv4Addr × ℕ)) (ip y : Ipv4Addr) :
  ((vote votes ip).lookup y).getD 0 = (votes.lookup y).getD 0 + if ip = y then 1 else 0
  := by
  induction votes with
  | nil =>
      rw [vote, List.lookup_cons]
      by_cases heq : ip = y
      · simp [heq]
      · simp [heq, beq_eq_false_iff_ne.mpr (Ne.symm heq)]
  | cons entry votes ih =>
      obtain ⟨v, n⟩ := entry
      rw [vote]
      split
      · rename_i hv
        subst hv
        by_cases heq : y = v
        · simp [heq]
        · simp [List.lookup_cons, beq_eq_false_iff_ne.mpr heq, Ne.symm heq]
      · rename_i hv
        rw [List.lookup_cons, List.lookup_cons]
        by_cases heq : y = v
        · have hne : ip ≠ y := by
            rintro rfl
            exact hv heq.symm
          simp [heq, heq ▸ hne]
        · simpa [beq_eq_false_iff_ne.mpr heq] using ih

theorem keys_vote {votes : List (Ipv4Addr × ℕ)} (h : (votes.map Prod.fst).Nodup)
    (ip : Ipv4Addr) :
  ((vote votes ip).map Prod.fst).Nodup
    ∧ ∀ y ∈ (vote votes ip).map Prod.fst, y ∈ votes.map Prod.fst ∨ y = ip
  := by
  induction votes with
  | nil => simp [vote]
  | cons entry votes ih =>
      obtain ⟨v, n⟩ := entry
      rw [List.map_cons, List.nodup_cons] at h
      obtain ⟨hnodup, hmem⟩ := ih h.2
      rw [vote]
      split
      · exact ⟨List.nodup_cons.mpr h, fun y hy => Or.inl hy⟩
      · rename_i hne
        constructor
        · refine List.nodup_cons.mpr ⟨?_, hnodup⟩
          intro hv
          obtain hv | rfl := hmem v hv
          · exact h.1 hv
          · exact hne rfl
        · intro y hy
          rw [List.map_cons, List.mem_cons] at hy ⊢
          obtain rfl | hy := hy
          · exact Or.inl (Or.inl rfl)
          · exact (hmem y hy).imp Or.inr id

/-- The votes for an address are as many as it was reported. -/
theorem lookup_foldl_vote (ips : List Ipv4Addr) (votes : List (Ipv4Addr × ℕ)) (y : Ipv4Addr) :
  ((ips.foldl vote votes).lookup y).getD 0 = (votes.lookup y).getD 0 + ips.count y
  := by
  induction ips generalizing votes with
  | nil => simp
  | cons ip ips ih =>
      rw [List.foldl_cons, ih, lookup_vote, List.count_cons]
      simp only [beq_iff_eq]
      omega

theorem keys_foldl_vote (ips : List Ipv4Addr) {votes : List (Ipv4Addr × ℕ)}
    (h : (votes.map Prod.fst).Nodup) :
  ((ips.foldl vote votes).map Prod.fst).Nodup
  := by
  induction ips generalizing votes with
  | nil => exact h
  | cons ip ips ih => exact ih (keys_vote h ip).1

/-- The entry of an address in votes that hold it once. -/
theorem lookup_of_mem {votes : List (Ipv4Addr × ℕ)} (h : (votes.map Prod.fst).Nodup)
    {v : Ipv4Addr × ℕ} (hv : v ∈ votes) :
  votes.lookup v.1 = some v.2
  := by
  induction votes with
  | nil => exact absurd hv List.not_mem_nil
  | cons entry votes ih =>
      rw [List.map_cons, List.nodup_cons] at h
      rw [List.lookup_cons]
      obtain rfl | hv := List.mem_cons.mp hv
      · simp
      · have hne : v.1 ≠ entry.1 := by
          intro heq
          exact h.1 (heq ▸ List.mem_map_of_mem hv)
        simpa [beq_eq_false_iff_ne.mpr hne] using ih h.2 hv

/-- The entry chosen has the most votes. -/
theorem mostVoted_spec {votes : List (Ipv4Addr × ℕ)} {b : Ipv4Addr × ℕ}
    (h : Walk.mostVoted votes = some b) :
  b ∈ votes ∧ ∀ v ∈ votes, v.2 ≤ b.2
  := by
  have hfold : ∀ (votes : List (Ipv4Addr × ℕ)) (best : Option (Ipv4Addr × ℕ)),
      votes.foldl (fun best v =>
        best.elim (some v) fun b => if v.2 < b.2 then some b else some v) best = some b
      → (b ∈ votes ∨ best = some b) ∧ (∀ v ∈ votes, v.2 ≤ b.2)
        ∧ ∀ v, best = some v → v.2 ≤ b.2 := by
    intro votes
    induction votes with
    | nil =>
        intro best hbest
        obtain rfl : best = some b := hbest
        exact ⟨Or.inr rfl, by simp, by simp⟩
    | cons v votes ih =>
        intro best hbest
        rw [List.foldl_cons] at hbest
        obtain ⟨hmem, hle, hfirst⟩ := ih _ hbest
        cases best with
        | none =>
            have hv := hfirst v rfl
            refine ⟨?_, ?_, by simp⟩
            · obtain hmem | hmem := hmem
              · exact Or.inl (List.mem_cons_of_mem _ hmem)
              · exact Or.inl (Option.some.inj hmem ▸ List.mem_cons_self)
            · exact List.forall_mem_cons.mpr ⟨hv, hle⟩
        | some c =>
            simp only [Option.elim_some] at hmem hfirst
            split at hmem
            · rename_i hlt
              rw [if_pos hlt] at hfirst
              have hc := hfirst c rfl
              refine ⟨?_, ?_, by simpa using hc⟩
              · exact hmem.imp_left (List.mem_cons_of_mem _)
              · exact List.forall_mem_cons.mpr ⟨by omega, hle⟩
            · rename_i hlt
              rw [if_neg hlt] at hfirst
              have hv := hfirst v rfl
              refine ⟨Or.inl ?_, ?_, ?_⟩
              · obtain hmem | hmem := hmem
                · exact List.mem_cons_of_mem _ hmem
                · exact Option.some.inj hmem ▸ List.mem_cons_self
              · exact List.forall_mem_cons.mpr ⟨hv, hle⟩
              · rintro _ ⟨rfl⟩
                omega
  have hvotes : votes.foldl (fun best v =>
      best.elim (some v) fun b => if v.2 < b.2 then some b else some v) none = some b := by
    rw [← h, Walk.mostVoted]
    congr 1
    funext best v
    cases best <;> rfl
  obtain ⟨hmem, hle, -⟩ := hfold votes none hvotes
  exact ⟨hmem.resolve_right (by simp), hle⟩

/-! ### Nodes asked and answers taken -/

section

variable (target : NodeId) (seed : List SocketAddrV4) (ask : ℕ → List Contact → List Parsed)

/-- The nodes of a round that reported an address, each once. -/
def reportsIn (contacts : List Contact) (answers : List Parsed) (y : Ipv4Addr) : ℕ :=
  (((contacts.take 256).map Contact.addr).filter fun a =>
    answers.any fun p => p.source = a ∧ p.ip = some y).length

/-- The nodes that reported an address, each counted at most once for every query sent to it. -/
def reports (y : Ipv4Addr) : ℕ :=
  ((List.range rounds).map fun r =>
    reportsIn (asked target seed ask r) (answersOf target seed ask r) y).sum
  + reportsIn (closing target seed ask) (closingAnswers target seed ask) y

/-- The nodes that returned a write token before the closing round, each once. -/
def tokenHolders : List SocketAddrV4 :=
  (((answered target seed ask rounds).filterMap Parsed.storer).map Contact.addr).dedup

/-- The nodes among those sent a put that acknowledged it. -/
def acknowledged (storers : List Contact) (acks : List Datagram) : List SocketAddrV4 :=
  ((putTxmap storers).map Prod.snd).filter fun a =>
    (gather (putTxmap storers) acks).any fun p => p.source = a

/-- Every node counts once, in a lookup and a put to its storers: the address returned was reported
by the most nodes, the closing round is passed over only when enough nodes returned a token, and
the count of a put is that of the storers that acknowledged it. -/
structure CountedOnce (acks : List Datagram) : Prop where
  majority : ∀ x, (walk target seed ask).1.externalIp = some x →
    ∀ y, reports target seed ask y ≤ reports target seed ask x
  converged : (before target seed ask rounds).1.finalists target ≠ [] →
    closing target seed ask = [] → k ≤ (tokenHolders target seed ask).length
  stored : put (walk target seed ask).1.storers acks
    = (acknowledged (walk target seed ask).1.storers acks).length
  sent : put (walk target seed ask).1.storers acks
    ≤ (putTxmap (walk target seed ask).1.storers).length

/-- No query is answered twice. -/
structure AnsweredOnce (acks : List Datagram) : Prop where
  rounds : ∀ r < rounds, ((answersOf target seed ask r).map Parsed.source).Nodup
  closing : ((closingAnswers target seed ask).map Parsed.source).Nodup
  acks : ((gather (putTxmap (walk target seed ask).1.storers) acks).map Parsed.source).Nodup

variable {target seed ask}

theorem nodup_asked (hseed : seed.Nodup) (n : ℕ) :
  ((asked target seed ask n).map Contact.addr).Nodup
  := by
  cases n with
  | zero =>
      have hmap : (asked target seed ask 0).map Contact.addr = seed := by
        rw [asked, before, List.map_map]
        exact List.map_id seed
      rwa [hmap]
  | succ n =>
      obtain hnil | ⟨l, hperm, -, hasked⟩ := asked_succ target seed ask n
      · simp [hnil]
      · have hfirst : ((firstNamed target seed ask (n + 1)).map Contact.addr).Nodup :=
          List.pairwise_map.mpr (pairwise_addr_retainNoted [] _)
        have hl : (l.map Contact.addr).Nodup :=
          (hperm.map Contact.addr).nodup_iff.mpr (hfirst.sublist (List.filter_sublist.map _))
        rw [hasked, List.map_take]
        exact hl.sublist (List.take_sublist k _)

theorem nodup_closing :
  ((closing target seed ask).map Contact.addr).Nodup
  := by
  rw [closing]
  split
  · rw [Walk.finalists, List.map_take]
    apply List.Nodup.sublist (List.take_sublist k _)
    apply ((perm_sortByDist target _).map Contact.addr).nodup_iff.mpr
    exact List.pairwise_map.mpr (pairwise_addr_retainNoted [] _)
  · exact List.nodup_nil

theorem externalIp_walk :
  (walk target seed ask).1.externalIp
    = (Walk.mostVoted (((allAnswers target seed ask).filterMap Parsed.ip).foldl vote [])).map
      Prod.fst
  := by
  have hgathered := gathered target seed ask rounds
  have hvotes : (if (closing target seed ask).isEmpty then (before target seed ask rounds).1
      else (ask rounds (closing target seed ask)).foldl (fun w p => w.record p false)
        (before target seed ask rounds).1).ipVotes
      = ((allAnswers target seed ask).filterMap Parsed.ip).foldl vote [] := by
    rw [allAnswers, closingAnswers, List.filterMap_append, List.foldl_append, ← hgathered.ipVotes]
    split
    · simp
    · rw [(Walk.closing_foldl _ _).2]
  rw [walk]
  simp only [Walk.finish, hvotes]

/-- The address returned was reported by the most answers. -/
theorem count_le_of_externalIp {x : Ipv4Addr}
    (h : (walk target seed ask).1.externalIp = some x) (y : Ipv4Addr) :
  ((allAnswers target seed ask).filterMap Parsed.ip).count y
    ≤ ((allAnswers target seed ask).filterMap Parsed.ip).count x
  := by
  let ips := (allAnswers target seed ask).filterMap Parsed.ip
  let votes := ips.foldl vote []
  have hkeys : (votes.map Prod.fst).Nodup := keys_foldl_vote ips List.nodup_nil
  have hcount : ∀ z, (votes.lookup z).getD 0 = ips.count z := by
    intro z
    simpa using lookup_foldl_vote ips [] z
  rw [externalIp_walk] at h
  obtain ⟨b, hb, rfl⟩ := Option.map_eq_some_iff.mp h
  obtain ⟨hmem, hmost⟩ := mostVoted_spec hb
  change ips.count y ≤ ips.count b.1
  rw [← hcount y, ← hcount b.1, lookup_of_mem hkeys hmem, Option.getD_some]
  cases hy : votes.lookup y with
  | none => exact Nat.zero_le _
  | some n =>
      obtain ⟨before, after, hvotes, -⟩ := List.lookup_eq_some_iff.mp hy
      have hentry : (y, n) ∈ votes := by
        rw [hvotes]
        exact List.mem_append_right _ List.mem_cons_self
      exact hmost (y, n) hentry

/-! ### Answers taken from the datagrams received -/

variable {received : ℕ → List Datagram}

theorem source_mem_asked {n : ℕ} {p : Parsed}
    (hp : p ∈ answersOf target seed (askWith received) n) :
  p.source ∈ ((asked target seed (askWith received) n).take 256).map Contact.addr
  := by
  rw [answersOf] at hp
  split at hp
  · exact absurd hp List.not_mem_nil
  · rw [← map_snd_roundTxmap]
    exact source_mem_of_gather hp

theorem source_mem_closing {p : Parsed}
    (hp : p ∈ closingAnswers target seed (askWith received)) :
  p.source ∈ ((closing target seed (askWith received)).take 256).map Contact.addr
  := by
  rw [closingAnswers] at hp
  split at hp
  · exact absurd hp List.not_mem_nil
  · rw [← map_snd_roundTxmap]
    exact source_mem_of_gather hp

/-- In a round whose queries are answered at most once, an address is reported by as many nodes
as answers. -/
theorem reportsIn_eq {contacts : List Contact} (hcontacts : (contacts.map Contact.addr).Nodup)
    {answers : List Parsed} (honce : (answers.map Parsed.source).Nodup)
    (hasked : ∀ p ∈ answers, p.source ∈ (contacts.take 256).map Contact.addr) (y : Ipv4Addr) :
  reportsIn contacts answers y = (answers.filterMap Parsed.ip).count y
  := by
  have hnodup : ((contacts.take 256).map Contact.addr).Nodup := by
    rw [List.map_take]
    exact hcontacts.sublist (List.take_sublist 256 _)
  have hcount : (answers.filterMap Parsed.ip).count y
      = (answers.filter fun p => p.ip = some y).length := by
    clear honce hasked
    induction answers with
    | nil => rfl
    | cons p answers ih =>
        cases hip : p.ip with
        | none => simpa [hip] using ih
        | some ip =>
            by_cases heq : ip = y
            · simp [hip, heq, ih]
            · simpa [hip, heq] using ih
  rw [hcount, ← length_filter_any hnodup honce hasked, reportsIn]
  simp

theorem reports_eq (hseed : seed.Nodup)
    (hrounds : ∀ r < rounds, ((answersOf target seed (askWith received) r).map Parsed.source).Nodup)
    (hclosing : ((closingAnswers target seed (askWith received)).map Parsed.source).Nodup)
    (y : Ipv4Addr) :
  reports target seed (askWith received) y
    = ((allAnswers target seed (askWith received)).filterMap Parsed.ip).count y
  := by
  have hheld : ∀ n ≤ rounds, ((List.range n).map fun r =>
      reportsIn (asked target seed (askWith received) r)
        (answersOf target seed (askWith received) r) y).sum
      = ((answered target seed (askWith received) n).filterMap Parsed.ip).count y := by
    intro n hn
    induction n with
    | zero => rfl
    | succ n ih =>
        rw [List.range_succ, List.map_append, List.sum_append, ih (by omega), answered_succ,
          List.filterMap_append, List.count_append, List.map_singleton, List.sum_singleton,
          reportsIn_eq (nodup_asked hseed n) (hrounds n (by omega)) fun p => source_mem_asked]
  rw [reports, hheld rounds le_rfl, allAnswers, List.filterMap_append, List.count_append,
    reportsIn_eq nodup_closing hclosing fun p => source_mem_closing]

/-- The sources of the answers of a walk, when every query is answered at most once: no address
is asked in two rounds. -/
theorem nodup_answered
    (hrounds : ∀ r < rounds, ((answersOf target seed (askWith received) r).map Parsed.source).Nodup)
    {n : ℕ} (hn : n ≤ rounds) :
  ((answered target seed (askWith received) n).map Parsed.source).Nodup
    ∧ ∀ p ∈ answered target seed (askWith received) n,
      p.source ∈ askedBefore target seed (askWith received) n
  := by
  induction n with
  | zero => exact ⟨List.nodup_nil, by simp [answered]⟩
  | succ n ih =>
      obtain ⟨hnodup, hmem⟩ := ih (by omega)
      have hsource : ∀ p ∈ answersOf target seed (askWith received) n,
          p.source ∈ (asked target seed (askWith received) n).map Contact.addr := by
        intro p hp
        have htake := source_mem_asked hp
        rw [List.map_take] at htake
        exact List.mem_of_mem_take htake
      rw [answered_succ, askedBefore_succ, List.map_append]
      constructor
      · refine List.nodup_append.mpr ⟨hnodup, hrounds n (by omega), ?_⟩
        rintro a ha b hb rfl
        obtain ⟨p, hp, rfl⟩ := List.mem_map.mp ha
        obtain ⟨p', hp', heq⟩ := List.mem_map.mp hb
        obtain ⟨c, hc, hcaddr⟩ := List.mem_map.mp (hsource p' hp')
        cases n with
        | zero => simp [answered] at hp
        | succ n =>
            apply asked_fresh (Nat.succ_pos n) hc
            rw [hcaddr, heq]
            exact hmem p hp
      · intro p hp
        rw [List.mem_append] at hp ⊢
        exact hp.imp (hmem p) (hsource p)

theorem map_addr_storers (answers : List Parsed) :
  ((answers.filterMap Parsed.storer).map Contact.addr).Sublist (answers.map Parsed.source)
  := by
  induction answers with
  | nil => exact List.Sublist.slnil
  | cons p answers ih =>
      cases hstorer : p.storer with
      | none =>
          rw [List.filterMap_cons_none hstorer, List.map_cons]
          exact ih.cons p.source
      | some c =>
          rw [List.filterMap_cons_some hstorer, List.map_cons, List.map_cons,
            (storer_eq_some hstorer).1]
          exact ih.cons_cons c.addr

/-- The nodes sent a put are the storers that have a token. -/
theorem map_snd_putTxmap (storers : List Contact) :
  ((putTxmap storers).map Prod.snd).Sublist (storers.map Contact.addr)
  := by
  have hfst : storers.zipIdx.map Prod.fst = storers := List.zipIdx_map_fst 0 _
  have hsub : (storers.zipIdx.filter fun x => x.1.token.isSome).Sublist storers.zipIdx :=
    List.filter_sublist
  have hmap := (hsub.map Prod.fst).map Contact.addr
  rw [hfst, List.map_map] at hmap
  rw [putTxmap, List.map_map]
  exact hmap

/-- Every node counts once when no query is answered twice. -/
theorem countedOnce_of_answeredOnce (target : NodeId) (cached booted : List SocketAddrV4)
    (received : ℕ → List Datagram) (acks : List Datagram)
    (h : AnsweredOnce target (seeds cached booted) (askWith received) acks) :
  CountedOnce target (seeds cached booted) (askWith received) acks
  := by
  have hseed : (seeds cached booted).Nodup := nodup_noteAll List.nodup_nil _
  have hreports := reports_eq hseed h.rounds h.closing
  let storers := (walk target (seeds cached booted) (askWith received)).1.storers
  have hsent : ((putTxmap storers).map Prod.snd).Nodup := by
    have hdistinct := (walk_disciplined target (seeds cached booted) (askWith received)).distinct
    exact List.Nodup.sublist (map_snd_putTxmap storers) (List.pairwise_map.mpr hdistinct)
  have hstored : put storers acks = (acknowledged storers acks).length := by
    have hlength := length_filter_any hsent h.acks (fun p hp => source_mem_of_gather hp)
      fun _ => true
    simpa [put, acknowledged] using hlength.symm
  constructor
  case majority =>
      intro x hx y
      rw [hreports, hreports]
      exact count_le_of_externalIp hx y
  case converged =>
      intro hfinalists hclosing
      have hgathered := gathered target (seeds cached booted) (askWith received) rounds
      have hlength : k
          ≤ (before target (seeds cached booted) (askWith received) rounds).1.storers.length := by
        by_contra hlt
        rw [closing, if_pos (Nat.lt_of_not_le hlt)] at hclosing
        exact hfinalists hclosing
      have hnodup : (((answered target (seeds cached booted) (askWith received) rounds).filterMap
          Parsed.storer).map Contact.addr).Nodup :=
        (nodup_answered h.rounds le_rfl).1.sublist (map_addr_storers _)
      rw [tokenHolders, List.dedup_eq_self.mpr hnodup, List.length_map, ← hgathered.storers]
      exact hlength
  case stored => exact hstored
  case sent =>
      rw [hstored]
      exact (List.length_filter_le _ _).trans_eq (List.length_map _)

/-- An answer with the id and the token of a node, in the first round. -/
def tokenAnswer : Datagram :=
  ⟨utf8 "d1:rd2:id20:abcdefghijklmnopqrst5:token1:xe1:t2:" ++ [0, 0] ++ utf8 "1:y1:re",
    .v4 ⟨1⟩ 6881⟩

/-- The acknowledgement of the first put. -/
def putAck : Datagram :=
  ⟨utf8 "d1:rd2:id20:abcdefghijklmnopqrste1:t2:" ++ [0xF0, 0] ++ utf8 "1:y1:re", .v4 ⟨1⟩ 6881⟩

/-- One node is looked up and stored at, and counted once. -/
theorem countedOnce_of_answeredOnce_single :
  CountedOnce (Bytes.zero 20) (seeds [⟨⟨1⟩, 6881⟩] [])
    (askWith fun r => if r = 0 then [tokenAnswer] else []) [putAck]
  := by
  apply countedOnce_of_answeredOnce
  constructor
  · decide
  · decide
  · decide

/-- A node that acknowledges a put twice is counted twice. -/
theorem acknowledged_twice :
  ¬ ∀ (target : NodeId) (cached booted : List SocketAddrV4) (received : ℕ → List Datagram)
      (acks : List Datagram), CountedOnce target (seeds cached booted) (askWith received) acks
  := by
  intro h
  have hsent := (h (Bytes.zero 20) [⟨⟨1⟩, 6881⟩] []
    (fun r => if r = 0 then [tokenAnswer] else []) [putAck, putAck]).sent
  exact absurd hsent (by decide)

end

end ZeroNat.Dht

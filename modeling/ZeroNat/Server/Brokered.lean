import ZeroNat.Server.Entries
import ZeroNat.Server.Hello

/-!
# The books of the server

The server keeps its books in order, whatever its tasks do and in whatever order they do it.
What all tasks have to do is a bag, from which a step of a task takes one thing and puts in what
follows from it.
-/

namespace ZeroNat

namespace Broker

variable {s t : Broker} {tx : ℕ} {c : ControlSession}

/-- What weighs of a list of things to do. -/
def weigh (todo : List Errand) : Multiset Errand :=
  (todo.filter fun e => decide e.Weighs : List Errand)

/-- What all tasks have to do that weighs. -/
def duties (s : Broker) : Multiset Errand :=
  (s.sessions.map fun c => weigh c.todo).sum + (s.tasks.map weigh).sum

/-- The books with some duties and accounts. -/
def books (s : Broker) (duties : Multiset Errand) (accounts : List String) : Ledger where
  rv := s.rv
  pending := s.pending
  log := s.log
  duties := duties
  accounts := accounts

/-- The clients of the sessions. -/
def accounts (s : Broker) : List String :=
  s.sessions.map ControlSession.clientId

/-- The books of the server. -/
def ledger (s : Broker) : Ledger :=
  s.books s.duties s.accounts

theorem weigh_append (todo more : List Errand) :
  weigh (todo ++ more) = weigh todo + weigh more
  := by
  rw [weigh, weigh, weigh, List.filter_append, ← Multiset.coe_add]

theorem weigh_cons (e : Errand) (todo : List Errand) :
  weigh (e :: todo) = weigh [e] + weigh todo
  := weigh_append [e] todo

theorem weigh_eq_zero {todo : List Errand} (h : ∀ e ∈ todo, ¬ e.Weighs) :
  weigh todo = 0
  := by
  rw [weigh, List.filter_eq_nil_iff.mpr]
  · rfl
  · intro e he
    simpa using h e he

theorem weigh_posts (posts : List Post) :
  weigh (posts.map .post) = 0
  := by
  apply weigh_eq_zero
  intro e he
  obtain ⟨p, -, rfl⟩ := List.mem_map.mp he
  exact id

theorem weigh_forget (removed : List Pair) :
  weigh (removed.flatMap forget) = 0
  := by
  apply weigh_eq_zero
  intro e he
  obtain ⟨p, -, hp⟩ := List.mem_flatMap.mp he
  rcases List.mem_cons.mp hp with rfl | hp
  · exact id
  · obtain rfl := List.mem_singleton.mp hp
    exact id

/-! ### What tasks do -/

theorem accounts_setSession (hc : s.sessions[tx]? = some c) (c' : ControlSession)
    (hid : c'.clientId = c.clientId) :
  (s.setSession tx c').accounts = s.accounts
  := by
  apply List.ext_getElem?
  intro j
  rw [accounts, setSession, List.getElem?_map, List.getElem?_set_of_some hc, accounts,
    List.getElem?_map]
  split
  · rename_i heq
    rw [heq, hc, Option.map_some, Option.map_some, hid]
  · rfl

theorem duties_setSession (hc : s.sessions[tx]? = some c) (c' : ControlSession) :
  (s.setSession tx c').duties + weigh c.todo = s.duties + weigh c'.todo
  := by
  have hsum := List.sum_map_set_of_some hc c' fun c => weigh c.todo
  rw [duties, setSession, duties]
  dsimp only
  rw [add_right_comm, hsum, add_right_comm]

theorem trySend_kept (s : Broker) (p : Post) :
  (s.trySend p).duties = s.duties ∧ (s.trySend p).accounts = s.accounts
    ∧ (s.trySend p).rv = s.rv ∧ (s.trySend p).pending = s.pending ∧ (s.trySend p).log = s.log
  := by
  rw [trySend]
  split
  · exact ⟨rfl, rfl, rfl, rfl, rfl⟩
  · rename_i c hc
    refine ⟨?_, accounts_setSession hc _ rfl, rfl, rfl, rfl⟩
    have hsum := duties_setSession hc { c with channel := c.channel.trySend p.msg }
    exact add_right_cancel hsum

theorem duties_spawn (s : Broker) (todo : List Errand) :
  (s.spawn todo).duties = s.duties + weigh todo
  := by
  rw [duties, spawn, List.map_append, List.sum_append, duties, List.map_singleton,
    List.sum_singleton, add_assoc]

/-- What a task does leaves the others as they are, and what it spawns does not weigh. -/
theorem exec_kept (s : Broker) (draws : Draws) (e : Errand) :
  (s.exec draws e).1.duties = s.duties ∧ (s.exec draws e).1.accounts = s.accounts
  := by
  cases e with
  | ack p => exact ⟨(s.trySend_kept p).1, (s.trySend_kept p).2.1⟩
  | post p => exact ⟨(s.trySend_kept p).1, (s.trySend_kept p).2.1⟩
  | request p => exact ⟨(s.trySend_kept p).1, (s.trySend_kept p).2.1⟩
  | armFinish i => exact ⟨(duties_spawn s _).trans (add_zero _), rfl⟩
  | armReap i => exact ⟨(duties_spawn s _).trans (add_zero _), rfl⟩
  | finish i =>
      rw [exec]
      dsimp only
      split <;> exact ⟨rfl, rfl⟩
  | parkLeg i leg =>
      rw [exec]
      dsimp only
      split
      · exact ⟨rfl, rfl⟩
      · exact ⟨(duties_spawn _ _).trans (add_zero _), rfl⟩
  | invalidate clientId => exact ⟨rfl, rfl⟩
  | forgetProbes p => exact ⟨rfl, rfl⟩
  | forgetLegs p => exact ⟨rfl, rfl⟩
  | know identity => exact ⟨rfl, rfl⟩
  | startProbes i => exact ⟨rfl, rfl⟩
  | inform i => exact ⟨rfl, rfl⟩
  | settle i probeId candidates => exact ⟨rfl, rfl⟩
  | reap i => exact ⟨rfl, rfl⟩
  | endRelay i => exact ⟨rfl, rfl⟩
  | number table handle proto port addrs => exact ⟨rfl, rfl⟩
  | park table id => exact ⟨rfl, rfl⟩

open Ledger

variable {due : Multiset Errand} {clients : List String}

/-- The tables have lost some of what they had. -/
theorem sound_shrunk (h : (s.books due clients).Sound) {rv : Rendezvous}
    (hpairs : Traces Like s.rv.pairs rv.pairs) (hprobes : Within rv.probes s.rv.probes)
    (hlegs : Within rv.relayLegs s.rv.relayLegs) (hnext : s.rv.nextId ≤ rv.nextId)
    (hclients : rv.clients = s.rv.clients) :
  (({ s with rv := rv } : Broker).books due clients).Sound
  := h.fades ⟨hpairs, hprobes, hlegs, hnext, hclients, fun _ => List.Subset.refl _, le_rfl, rfl,
    rfl⟩

theorem traces_refl (pairs : Table ℕ Pair) :
  Traces Like pairs pairs
  := fun _ p hp => ⟨p, hp, Like.refl p⟩

theorem traces_erase (pairs : Table ℕ Pair) (i : ℕ) :
  Traces Like pairs (pairs.erase i)
  := by
  intro j p hp
  rw [Table.lookup_erase_eq] at hp
  split at hp
  · exact absurd hp (by simp)
  · exact ⟨p, hp, Like.refl p⟩

theorem traces_settle (rv : Rendezvous) (i probeId : ℕ) (candidates : List SocketAddr) :
  Traces Like rv.pairs (rv.settleProbeForPair i probeId candidates).1.pairs
  := by
  rw [Rendezvous.settleProbeForPair]
  dsimp only
  split
  · exact traces_refl _
  · rename_i p hp
    split
    · split
      · exact traces_insert Like.refl hp ⟨⟨rfl, rfl, rfl⟩, rfl, rfl, rfl, id⟩
      · exact traces_refl _
    · split
      · split
        · exact traces_insert Like.refl hp ⟨⟨rfl, rfl, rfl⟩, rfl, rfl, rfl, id⟩
        · exact traces_refl _
      · exact traces_refl _

/-- The candidates of a party change nothing else. -/
theorem settle_kept (rv : Rendezvous) (i probeId : ℕ) (candidates : List SocketAddr) :
  ∃ pairs, (rv.settleProbeForPair i probeId candidates).1 = { rv with pairs := pairs }
  := by
  rw [Rendezvous.settleProbeForPair]
  dsimp only
  split
  · exact ⟨_, rfl⟩
  · split
    · split <;> exact ⟨_, rfl⟩
    · split
      · split <;> exact ⟨_, rfl⟩
      · exact ⟨_, rfl⟩

theorem reap_kept (rv : Rendezvous) (i : ℕ) :
  (rv.reapUnclaimedRelay i).1 = rv
    ∨ (rv.reapUnclaimedRelay i).1 = { rv with pairs := rv.pairs.erase i }
  := by
  rw [Rendezvous.reapUnclaimedRelay]
  split
  · exact Or.inl rfl
  · split
    · exact Or.inl rfl
    · exact Or.inr rfl

/-- What a task does keeps the books in order. -/
theorem sound_exec (draws : Draws) {e : Errand} (h : (s.books (weigh [e] + due) clients).Sound) :
  ((s.exec draws e).1.books (weigh (s.exec draws e).2 + due) clients).Sound
  := by
  have hsent (p : Post) (h : (s.books (0 + due) clients).Sound) :
      ((s.trySend p).books (0 + due) clients).Sound := by
    obtain ⟨-, -, hrv, hpending, hlog⟩ := s.trySend_kept p
    rw [books, hrv, hpending, hlog]
    exact h
  cases e with
  | ack p => exact hsent p h
  | post p => exact hsent p h
  | request p => exact hsent p h
  | invalidate clientId =>
      rw [exec]
      dsimp only
      rw [weigh_forget]
      refine sound_shrunk h ?_ (Within.refl _) (Within.refl _) le_rfl rfl
      intro i p hp
      exact ⟨p, ((Table.lookup_retain _ _ _ _).mp hp).1, Like.refl p⟩
  | forgetProbes p =>
      exact sound_shrunk h (traces_refl _) (Within.foldl_erase _ _) (Within.refl _) le_rfl rfl
  | forgetLegs p =>
      exact sound_shrunk h (traces_refl _) (Within.refl _) (Within.foldl_erase _ _) le_rfl rfl
  | know identity =>
      exact sound_shrunk h (traces_refl _) (Within.refl _) (Within.refl _) le_rfl rfl
  | startProbes i =>
      have hdue : (s.books (weigh [.startProbes i] + due) clients).duties = .startProbes i ::ₘ due :=
        rfl
      have hstarted := h.startPairProbes hdue draws.1 draws.2
      rw [exec]
      dsimp only
      rw [weigh_append, weigh_posts, weigh_eq_zero]
      · rw [zero_add, zero_add]
        exact hstarted
      · intro e he
        split at he
        · exact absurd he (by simp)
        · obtain rfl := List.mem_singleton.mp he
          exact id
        · obtain rfl := List.mem_singleton.mp he
          exact id
  | armFinish i => exact h
  | armReap i => exact h
  | finish i =>
      have hfinished := h.finishPair i
      rw [exec]
      change Sound { s.books (0 + due) clients with
        rv := (s.rv.finishPair i).1
        log := if (s.rv.finishPair i).2 = none then s.log else .informed i :: s.log }
        at hfinished
      generalize s.rv.finishPair i = r at hfinished ⊢
      obtain ⟨rv, _ | info⟩ := r
      · exact hfinished
      · exact hfinished
  | inform i =>
      rw [exec]
      dsimp only
      rw [weigh_posts]
      exact h
  | settle i probeId candidates =>
      have htraces := traces_settle s.rv i probeId candidates
      obtain ⟨pairs, hpairs⟩ := settle_kept s.rv i probeId candidates
      rw [exec]
      dsimp only
      rw [weigh_eq_zero]
      · rw [hpairs] at htraces ⊢
        exact sound_shrunk h htraces (Within.refl _) (Within.refl _) le_rfl rfl
      · intro e he
        obtain ⟨id, -, rfl⟩ := List.mem_map.mp he
        exact False.elim
  | reap i =>
      rw [exec]
      dsimp only
      rw [weigh_forget]
      rcases reap_kept s.rv i with hrv | hrv
      · rw [hrv]
        exact h
      · rw [hrv]
        exact sound_shrunk h (traces_erase _ i) (Within.refl _) (Within.refl _) le_rfl rfl
  | endRelay i =>
      rw [exec]
      dsimp only
      rw [weigh_forget]
      exact sound_shrunk h (traces_erase _ i) (Within.refl _) (Within.refl _) le_rfl rfl
  | parkLeg i leg =>
      have hdue : (s.books (weigh [.parkLeg i leg] + due) clients).duties
          = .parkLeg i leg ::ₘ due := rfl
      have hparked := h.parkRelayLeg hdue
      rw [exec]
      change Sound { s.books due clients with
        rv := (s.rv.parkRelayLeg i leg).1
        log := splicing s.log i (s.rv.parkRelayLeg i leg).2 } at hparked
      generalize s.rv.parkRelayLeg i leg = r at hparked ⊢
      obtain ⟨rv, _ | ⟨first, second⟩⟩ := r
      · change Ledger.Sound _
        rw [show weigh [] + due = due from zero_add due]
        exact hparked
      · change Ledger.Sound _
        rw [show weigh [] + due = due from zero_add due]
        exact hparked
  | number table handle proto port addrs =>
      rw [exec]
      dsimp only
      split
      · exact sound_shrunk h (traces_refl _) (Within.refl _) (Within.refl _) (Nat.le_succ _) rfl
      · have hnumbered := h.number table
        change Sound { s.books (0 + due) clients with
          rv := { s.rv with nextId := s.rv.nextId + 1 }
          duties := .park table s.rv.nextId ::ₘ (0 + due) } at hnumbered
        rw [zero_add] at hnumbered
        exact hnumbered
  | park table id =>
      have hdue : (s.books (weigh [.park table id] + due) clients).duties
          = .park table id ::ₘ due := rfl
      have hparked := h.park hdue
      change Ledger.Sound _
      rw [show weigh (s.exec draws (.park table id)).2 + due = due from zero_add due]
      exact hparked

theorem books_note (h : (s.books due clients).Sound) (c : ControlSession) (e : Errand) :
  ((s.note c e).books due clients).Sound
  := by
  unfold note
  split
  · split
    · exact h
    · exact h.cons trivial rfl rfl rfl
  · exact h

theorem note_kept (s : Broker) (c : ControlSession) (e : Errand) :
  (s.note c e).sessions = s.sessions ∧ (s.note c e).tasks = s.tasks
  := by
  unfold note
  split
  · split <;> exact ⟨rfl, rfl⟩
  · exact ⟨rfl, rfl⟩

/-- More is put before what a session has to do. -/
theorem duties_modify (hc : s.sessions[tx]? = some c) (more : List Errand) :
  duties { s with
      sessions := s.sessions.modify tx fun c => { c with todo := more ++ c.todo } }
    = weigh more + s.duties
  := by
  rw [List.modify_of_some hc]
  have hsum := duties_setSession hc { c with todo := more ++ c.todo }
  rw [weigh_append, ← add_assoc] at hsum
  rw [add_comm]
  exact add_right_cancel hsum

theorem accounts_modify (hc : s.sessions[tx]? = some c) (more : List Errand) :
  accounts { s with
      sessions := s.sessions.modify tx fun c => { c with todo := more ++ c.todo } }
    = s.accounts
  := by
  rw [List.modify_of_some hc]
  exact accounts_setSession hc _ rfl

theorem exists_session (h : s.accounts = t.accounts) (hc : t.sessions[tx]? = some c) :
  ∃ c', s.sessions[tx]? = some c'
  := by
  have hlookup : s.accounts[tx]? = some c.clientId := by
    rw [h, accounts, List.getElem?_map, hc, Option.map_some]
  rw [accounts, List.getElem?_map] at hlookup
  obtain ⟨c', hc', -⟩ := Option.map_eq_some_iff.mp hlookup
  exact ⟨c', hc'⟩

/-- The task of a session does the next thing. -/
theorem sound_work (hs : s.ledger.Sound) {draws : Draws} (h : s.work tx draws = some t) :
  t.ledger.Sound
  := by
  rw [work] at h
  split at h
  · exact absurd h (by simp)
  · rename_i c hc
    split at h
    · exact absurd h (by simp)
    · rename_i e todo htodo
      -- The errand is taken out of the bag, and is done; what follows from it is put in.
      have hc₁ : (s.note c e).sessions[tx]? = some c := by
        rw [(note_kept s c e).1]
        exact hc
      have hnoted : (s.note c e).duties = s.duties ∧ (s.note c e).accounts = s.accounts := by
        rw [duties, accounts, (note_kept s c e).1, (note_kept s c e).2]
        exact ⟨rfl, rfl⟩
      have hdue := duties_setSession hc₁ { c with todo := todo }
      rw [htodo, weigh_cons, ← add_assoc, hnoted.1] at hdue
      have hdue := add_right_cancel hdue
      have haccounts := accounts_setSession hc₁ { c with todo := todo } rfl
      rw [hnoted.2] at haccounts
      generalize hs₁ : (s.note c e).setSession tx { c with todo := todo } = s₁ at h hdue haccounts
      have hsound : (s₁.books (weigh [e] + s₁.duties) s₁.accounts).Sound := by
        rw [add_comm, hdue, haccounts, ← hs₁]
        exact books_note hs c e
      have hexec := sound_exec draws hsound
      obtain ⟨hduties, hclients⟩ := s₁.exec_kept draws e
      generalize s₁.exec draws e = r at h hexec hduties hclients
      obtain ⟨s₂, more⟩ := r
      obtain rfl := Option.some.inj h
      dsimp only at hexec hduties hclients ⊢
      obtain ⟨c₂, hc₂⟩ := exists_session (hclients.trans haccounts) hc
      rw [ledger, duties_modify hc₂ more, accounts_modify hc₂ more, hduties, hclients]
      exact hexec

/-- What a task does leaves the other tasks where they are. -/
theorem exec_tasks (s : Broker) (draws : Draws) (e : Errand) :
  s.tasks <+: (s.exec draws e).1.tasks
  := by
  have hsent (p : Post) : s.tasks <+: (s.trySend p).tasks := by
    rw [trySend]
    split <;> exact List.prefix_refl _
  cases e with
  | ack p => exact hsent p
  | post p => exact hsent p
  | request p => exact hsent p
  | armFinish i => exact List.prefix_append _ _
  | armReap i => exact List.prefix_append _ _
  | finish i =>
      rw [exec]
      dsimp only
      split <;> exact List.prefix_refl _
  | parkLeg i leg =>
      rw [exec]
      dsimp only
      split
      · exact List.prefix_refl _
      · exact List.prefix_append _ _
  | _ => exact List.prefix_refl _

/-- Another task does the next thing. -/
theorem sound_run (hs : s.ledger.Sound) {i : ℕ} {draws : Draws} (h : s.run i draws = some t) :
  t.ledger.Sound
  := by
  rw [run] at h
  split at h
  · exact absurd h (by simp)
  · exact absurd h (by simp)
  · rename_i e todo htask
    obtain ⟨hduties, hclients⟩ := s.exec_kept draws e
    obtain ⟨spawned, hspawned⟩ := s.exec_tasks draws e
    -- The bag without what the task has to do, and then with what follows for it.
    obtain ⟨rest, hrest⟩ : ∃ rest, s.duties = weigh (e :: todo) + rest := by
      have hsum := List.sum_map_set_of_some htask [] weigh
      refine ⟨(s.sessions.map fun c => weigh c.todo).sum + ((s.tasks.set i []).map weigh).sum, ?_⟩
      change _ = _ + 0 at hsum
      rw [add_zero] at hsum
      rw [duties, ← hsum]
      abel
    rw [weigh_cons, add_assoc] at hrest
    have hexec := sound_exec (s := s) (e := e) draws (by
      rw [← hrest]
      exact hs)
    rw [hrest] at hduties
    generalize s.exec draws e = r at h hexec hduties hclients hspawned
    obtain ⟨s₂, more⟩ := r
    obtain rfl := Option.some.inj h
    dsimp only at hexec hduties hclients hspawned ⊢
    have htask₂ : s₂.tasks[i]? = some (e :: todo) := by
      rw [← hspawned, List.getElem?_append_left (List.getElem?_eq_some_iff.mp htask).1]
      exact htask
    have hsum := List.sum_map_set_of_some htask₂ (more ++ todo) weigh
    have hdue : duties { s₂ with tasks := s₂.tasks.set i (more ++ todo) }
        = weigh more + (weigh todo + rest) := by
      apply add_right_cancel (b := weigh (e :: todo))
      calc duties { s₂ with tasks := s₂.tasks.set i (more ++ todo) } + weigh (e :: todo)
          = s₂.duties + weigh (more ++ todo) := by
            rw [duties, add_assoc, hsum, ← add_assoc]
            rfl
        _ = weigh more + (weigh todo + rest) + weigh (e :: todo) := by
            rw [hduties, weigh_append, weigh_cons e todo]
            abel
    rw [ledger, hdue]
    change (s₂.books _ s₂.accounts).Sound
    rw [hclients]
    exact hexec

/-! ### What sessions do -/

/-- A session that had nothing to do gets things to do that do not weigh. -/
theorem sound_answer (hs : s.ledger.Sound) (hc : s.sessions[tx]? = some c) (hidle : c.todo = [])
    {c' : ControlSession} (hid : c'.clientId = c.clientId) (hlight : ∀ e ∈ c'.todo, ¬ e.Weighs) :
  (s.setSession tx c').ledger.Sound
  := by
  have hsum := duties_setSession hc c'
  rw [weigh_eq_zero hlight, hidle] at hsum
  change (s.setSession tx c').duties + 0 = _ at hsum
  rw [add_zero, add_zero] at hsum
  rw [ledger, hsum, accounts_setSession hc _ hid]
  exact hs

theorem getElem?_accounts (hc : s.sessions[tx]? = some c) :
  s.accounts[tx]? = some c.clientId
  := by
  rw [accounts, List.getElem?_map, hc, Option.map_some]

/-- The options of the forwards of a client do not matter for the books. -/
theorem sound_setFwd (hs : s.ledger.Sound) (clientId : String) (tx : ℕ)
    (entries : List FwdOptionEntry) :
  (s.setFwd clientId tx entries).ledger.Sound
  := by
  rw [setFwd]
  split
  · exact hs
  · rename_i held hheld
    split
    · apply hs.setClients
      · apply identified_insert hs.clients
        intro identity hidentity
        exact ⟨held, hheld, hidentity⟩
      · intro id handle hhandle
        rw [Table.lookup_insert_eq] at hhandle
        split at hhandle
        · rename_i heq
          obtain rfl := Option.some.inj hhandle
          rw [heq]
          exact hs.attested.registered clientId held hheld
        · exact hs.attested.registered id handle hhandle
      · exact List.prefix_refl _
    · exact hs

theorem sound_prove (hs : s.ledger.Sound) (hc : s.sessions[tx]? = some c) (hidle : c.todo = [])
    (provides : UInt8) (identity : PeerIdentity) :
  (s.prove tx c provides identity).ledger.Sound
  := by
  rw [prove]
  split
  · apply sound_answer hs hc hidle
    · rfl
    · simp
  · rename_i rv displaced hrecord
    rw [Rendezvous.recordPeerClaim] at hrecord
    split at hrecord
    · obtain ⟨rfl, rfl⟩ := Prod.mk.inj (Option.some.inj hrecord)
      have hclaimed : (({ s with rv := { s.rv with
          clients := s.rv.clients.mapValues
            (Rendezvous.claimed c.clientId provides identity) } } : Broker).ledger).Sound := by
        apply hs.setClients
        · exact identified_claimed hs.clients c.clientId provides identity
        · intro id handle hhandle
          rw [Table.lookup_mapValues] at hhandle
          obtain ⟨held, hheld, rfl⟩ := Option.map_eq_some_iff.mp hhandle
          have htx : (Rendezvous.claimed c.clientId provides identity id held).tx = held.tx := by
            rw [Rendezvous.claimed]
            split
            · rfl
            · split <;> rfl
          rw [htx]
          exact hs.attested.registered id held hheld
        · exact List.prefix_refl _
      dsimp only
      apply sound_answer hclaimed hc hidle
      · rfl
      · intro e he
        simp only [List.mem_cons, List.mem_append, List.mem_flatMap, List.mem_map,
          List.not_mem_nil, or_false] at he
        obtain (rfl | ⟨-, -, rfl | rfl⟩) | ⟨-, -, rfl⟩ := he <;> exact id
    · exact absurd hrecord (by simp)

theorem holder_eq_some {rv : Rendezvous} {identity : PeerIdentity} {id : String}
    {handle : ClientHandle} (h : rv.holder identity = some (id, handle)) :
  rv.clients.lookup id = some handle ∧ handle.peerIdentity = some identity
  := by
  have hmem := List.mem_of_find?_eq_some h
  have hheld := List.find?_some h
  exact ⟨Table.mem_toList.mp hmem, by simpa using hheld⟩

/-- How the request of a session to be paired comes out: pairs that it replaces may go, and a
pair may be accepted between two clients with different identities. -/
theorem peerConnect_cases (rv : Rendezvous) (consumerId : String) (consumerTx : ℕ)
    (provider : PeerIdentity) (want : UInt8) (closed : ℕ → Bool)
    (challenge : Option Capability) :
  let r := rv.peerConnect consumerId consumerTx provider want closed challenge
  (∀ i, r.2 ≠ some (i, .accepted)) ∧ (r.1 = rv ∨ ∃ providerId n, r.1
      = { rv.dropReplaced consumerId providerId want with
          nextId := (rv.dropReplaced consumerId providerId want).nextId + n })
    ∨ ∃ consumer providerId handle drawn, rv.clients.lookup consumerId = some consumer
      ∧ consumer.tx = consumerTx ∧ consumer.peerIdentity ≠ some provider ∧ rv.holder provider = some (providerId, handle)
      ∧ ¬ (rv.dropReplaced consumerId providerId want).Busy providerId want
      ∧ r = ((rv.dropReplaced consumerId providerId want).accept consumerId providerId want drawn,
          some ((rv.dropReplaced consumerId providerId want).nextId, .accepted))
  := by
  dsimp only
  rw [Rendezvous.peerConnect]
  split
  · exact Or.inl ⟨by simp, Or.inl rfl⟩
  · rename_i consumer hconsumer
    split
    · exact Or.inl ⟨by simp, Or.inl rfl⟩
    · rename_i howned
      split
      · exact Or.inl ⟨by simp, Or.inl rfl⟩
      · rename_i hidentity
        split
        · refine Or.inl ⟨?_, Or.inl rfl⟩
          split <;> simp
        · rename_i providerId handle hholder
          split
          · exact Or.inl ⟨by simp, Or.inl rfl⟩
          · split
            · exact Or.inl ⟨by simp, Or.inl rfl⟩
            · unfold Rendezvous.connect
              dsimp only
              split
              · exact Or.inl ⟨by simp, Or.inr ⟨providerId, 0, rfl⟩⟩
              · rename_i hfree
                cases challenge with
                | none => exact Or.inl ⟨by simp, Or.inr ⟨providerId, 1, rfl⟩⟩
                | some drawn =>
                    exact Or.inr ⟨consumer, providerId, handle, drawn, hconsumer,
                      not_not.mp (not_or.mp howned).1, hidentity, hholder, hfree, rfl⟩

/-- A session asks to be paired. -/
theorem sound_request (hs : s.ledger.Sound) (hc : s.sessions[tx]? = some c) (hidle : c.todo = [])
    (peerId : PeerIdentity) (want : UInt8) (challenge : Option Capability) :
  (s.request tx c peerId want challenge).ledger.Sound
  := by
  rw [request]
  rcases peerConnect_cases s.rv c.clientId tx peerId want s.closed challenge with
    ⟨hrefused, hrv⟩ | ⟨consumer, providerId, handle, drawn, hconsumer, -, hidentity, hholder,
      hfree, haccepted⟩
  · generalize s.rv.peerConnect c.clientId tx peerId want s.closed challenge = r
      at hrefused hrv ⊢
    obtain ⟨rv, result⟩ := r
    have hkept : (({ s with rv := rv } : Broker).ledger).Sound := by
      rcases hrv with rfl | ⟨providerId, n, rfl⟩
      · exact hs
      · have hfades := (fades_dropReplaced s.ledger c.clientId providerId want).1
        exact hs.fades ⟨hfades.pairs, hfades.probes, hfades.legs,
          hfades.nextId.trans (Nat.le_add_right _ _), hfades.clients, hfades.pending, le_rfl, rfl,
          rfl⟩
    cases result with
    | none => exact hkept
    | some status =>
        obtain ⟨i, status⟩ := status
        dsimp only
        rw [if_neg]
        · apply sound_answer hkept hc hidle
          · rfl
          · intro e he
            obtain rfl := List.mem_singleton.mp he
            exact id
        · rintro rfl
          exact hrefused i rfl
  · rw [haccepted]
    dsimp only
    rw [if_pos rfl]
    obtain ⟨hheld, hprovides⟩ := holder_eq_some hholder
    obtain ⟨hfades, hsingle⟩ := fades_dropReplaced s.ledger c.clientId providerId want
    have hne : c.clientId ≠ providerId := by
      rintro rfl
      obtain rfl := Option.some.inj (hconsumer.symm.trans hheld)
      exact hidentity hprovides
    have hsame : ((s.rv.dropReplaced c.clientId providerId want).accept c.clientId providerId want
        drawn).holder peerId = some (providerId, handle) := by
      rw [← hholder, Rendezvous.holder, Rendezvous.accept]
      dsimp only
      rw [Rendezvous.clients_dropReplaced]
      rfl
    have hpaired := (hs.fades hfades).accept drawn tx handle.tx hne hfree hsingle
      (getElem?_accounts hc) (hs.attested.registered providerId handle hheld)
    rw [hsame]
    change (setSession _ tx _).ledger.Sound
    generalize hs₁ : record _ _ = s₁
    have hc₁ : s₁.sessions[tx]? = some c := by
      rw [← hs₁]
      exact hc
    have hsum := duties_setSession hc₁ { c with
      todo := [.post ⟨tx, .peerResult peerId want
        (.ofNat (s.rv.dropReplaced c.clientId providerId want).nextId) .accepted⟩,
        .startProbes (s.rv.dropReplaced c.clientId providerId want).nextId] }
    rw [hidle] at hsum
    change _ + 0 = _ + {Errand.startProbes _} at hsum
    rw [add_zero, add_comm, Multiset.singleton_add] at hsum
    have haccounts := fun todo => accounts_setSession hc₁ { c with todo := todo } rfl
    rw [ledger, hsum, haccounts, ← hs₁]
    exact hpaired

/-- Handling a control frame keeps the books in order. -/
theorem sound_handleControlFrame (hs : s.ledger.Sound) (hc : s.sessions[tx]? = some c)
    (hidle : c.todo = []) (proving : Proving) (draws : Draws) (msg : Msg) :
  (s.handleControlFrame tx c proving draws msg).ledger.Sound
  := by
  have hpost {s : Broker} (hs : s.ledger.Sound) (hc : s.sessions[tx]? = some c)
      (announce : Option (UInt8 × PeerIdentity)) (p : Post) :
      (s.answer tx { c with announce := announce } [.post p]).ledger.Sound := by
    apply sound_answer hs hc hidle
    · rfl
    · intro e he
      obtain rfl := List.mem_singleton.mp he
      exact id
  unfold handleControlFrame
  split
  · exact hpost hs hc c.announce _
  · apply hpost (sound_setFwd hs c.clientId tx _) _ c.announce
    rw [setFwd]
    split
    · exact hc
    · split <;> exact hc
  · split
    · exact hpost hs hc _ _
    · exact hpost hs hc _ _
  · split
    · exact hs
    · split
      · exact sound_prove hs hc hidle _ _
      · exact hpost hs hc _ _
  · exact sound_request hs hc hidle _ _ _
  · rename_i i status
    have hpath : (({ s with
        rv := (s.rv.peerPath c.clientId tx i.toNat status draws.1 draws.2).1 } :
        Broker).ledger).Sound := hs.peerPath c.clientId tx i.toNat status draws.1 draws.2
    generalize s.rv.peerPath c.clientId tx i.toNat status draws.1 draws.2 = r at hpath ⊢
    obtain ⟨rv, posts, opened⟩ := r
    apply sound_answer hpath hc hidle
    · rfl
    · intro e he
      rcases List.mem_append.mp he with he | he
      · obtain ⟨p, -, rfl⟩ := List.mem_map.mp he
        exact id
      · split at he
        · obtain rfl := List.mem_singleton.mp he
          exact id
        · exact absurd he (by simp)
  · exact hs

/-- The end of a session. -/
theorem sound_leave (hs : s.ledger.Sound) (hc : s.sessions[tx]? = some c) (hidle : c.todo = []) :
  (s.leave tx c).ledger.Sound
  := by
  rw [leave]
  split
  · have herased : (({ s with
        rv := { s.rv with clients := s.rv.clients.erase c.clientId } } : Broker).ledger).Sound := by
      apply hs.setClients
      · exact identified_erase hs.clients c.clientId
      · intro id handle hhandle
        rw [Table.lookup_erase_eq] at hhandle
        split at hhandle
        · exact absurd hhandle (by simp)
        · exact hs.attested.registered id handle hhandle
      · exact List.prefix_refl _
    apply sound_answer herased hc hidle
    · rfl
    · intro e he
      obtain rfl := List.mem_singleton.mp he
      exact id
  · apply sound_answer hs hc hidle
    · rfl
    · simp [hidle]

/-- A session is registered. -/
theorem sound_register (hs : s.ledger.Sound) (clientId : String) (transport : ActiveTransport)
    (peer : Option SocketAddr) (bridgeCapability : Capability) (held : Bool) :
  (s.register clientId transport peer bridgeCapability held).ledger.Sound
  := by
  have henter (todo : List Errand) (hlight : ∀ e ∈ todo, ¬ e.Weighs) :
      (({ s with
        rv := { s.rv with
          clients := s.rv.clients.insert clientId
            (ClientHandle.new clientId s.sessions.length transport peer bridgeCapability) }
        sessions := s.sessions
          ++ [⟨clientId, bridgeCapability, .registering, todo, none, Channel.new⟩] } :
        Broker).ledger).Sound := by
    have hentered : Ledger.Sound { s.ledger with
        rv := { s.rv with
          clients := s.rv.clients.insert clientId
            (ClientHandle.new clientId s.sessions.length transport peer bridgeCapability) }
        accounts := s.accounts ++ [clientId] } := by
      apply hs.setClients
      · apply identified_insert hs.clients
        intro identity hidentity
        exact absurd hidentity (by simp [ClientHandle.new])
      · intro id handle hhandle
        rw [Table.lookup_insert_eq] at hhandle
        split at hhandle
        · rename_i heq
          obtain rfl := Option.some.inj hhandle
          have hlength : s.accounts.length = s.sessions.length := List.length_map _
          rw [ClientHandle.new, ← hlength, heq]
          exact List.getElem?_concat_length
        · have hold : s.accounts[handle.tx]? = some id := hs.attested.registered id handle hhandle
          rw [List.getElem?_append_left (List.getElem?_eq_some_iff.mp hold).1]
          exact hold
      · exact List.prefix_append _ _
    rw [ledger, duties, accounts, List.map_append, List.map_append, List.sum_append,
      List.map_singleton, List.map_singleton, List.sum_singleton]
    dsimp only
    rw [weigh_eq_zero hlight, add_zero]
    exact hentered
  unfold register
  dsimp only
  split
  · apply henter
    intro e he
    obtain rfl := List.mem_singleton.mp he
    exact id
  · split
    · exact hs
    · apply henter
      intro e he
      rcases List.mem_cons.mp he with rfl | he
      · exact id
      · obtain rfl := List.mem_singleton.mp he
        exact id

/-- A session changes in what does not matter for the books. -/
theorem sound_setSession (hs : s.ledger.Sound) (hc : s.sessions[tx]? = some c)
    {c' : ControlSession} (hid : c'.clientId = c.clientId) (htodo : c'.todo = c.todo) :
  (s.setSession tx c').ledger.Sound
  := by
  have hsum := duties_setSession hc c'
  rw [htodo] at hsum
  rw [ledger, add_right_cancel hsum, accounts_setSession hc _ hid]
  exact hs

/-- A step of the server keeps its books in order. -/
theorem sound_step (hs : s.ledger.Sound) {op : BrokerOp} (h : s.step op = some t) :
  t.ledger.Sound
  := by
  cases op with
  | register clientId transport peer bridgeCapability held =>
      obtain rfl := Option.some.inj h
      exact sound_register hs clientId transport peer bridgeCapability held
  | work tx draws => exact sound_work hs h
  | serve tx =>
      obtain ⟨c, hc, -, hidle, rfl⟩ := advance_eq_some h
      exact sound_setSession hs hc rfl rfl
  | frame tx msg proving draws =>
      obtain ⟨c, hc, -, hidle, rfl⟩ := advance_eq_some h
      exact sound_handleControlFrame hs hc hidle proving draws msg
  | leave tx =>
      obtain ⟨c, hc, -, hidle, rfl⟩ := advance_eq_some h
      exact sound_leave hs hc hidle
  | drop tx =>
      obtain ⟨c, hc, -, hidle, rfl⟩ := advance_eq_some h
      exact sound_setSession hs hc rfl rfl
  | recv tx =>
      simp only [step] at h
      split at h
      · exact absurd h (by simp)
      · rename_i c hc
        split at h
        · obtain rfl := Option.some.inj h
          exact sound_setSession hs hc rfl rfl
        · exact absurd h (by simp)
  | close tx =>
      simp only [step] at h
      split at h
      · exact absurd h (by simp)
      · rename_i c hc
        split at h
        · exact absurd h (by simp)
        · obtain rfl := Option.some.inj h
          exact sound_setSession hs hc rfl rfl
  | run i draws => exact sound_run hs h
  | takeProbe id clientId capability candidates =>
      simp only [step] at h
      split at h
      · rename_i claim pairId probes hclaim htake
        obtain ⟨c, hc, rfl, rfl, rfl, rfl⟩ := takeClaim_eq_some htake
        obtain rfl := Option.some.inj (hclaim.symm.trans hc)
        obtain rfl := Option.some.inj h
        rw [ledger, (duties_spawn _ _).trans (add_zero _)]
        exact hs.takeProbe hc
      · exact absurd h (by simp)
  | takeRelayLeg id clientId capability =>
      simp only [step] at h
      split at h
      · rename_i claim pairId legs hclaim htake
        obtain ⟨c, hc, rfl, rfl, rfl, rfl⟩ := takeClaim_eq_some htake
        obtain rfl := Option.some.inj (hclaim.symm.trans hc)
        obtain rfl := Option.some.inj h
        rw [ledger, duties_spawn, add_comm]
        exact hs.takeRelayLeg hc
      · exact absurd h (by simp)
  | openFlow table clientId proto port addrs =>
      simp only [step] at h
      split at h
      · exact absurd h (by simp)
      · obtain rfl := Option.some.inj h
        rw [ledger, (duties_spawn _ _).trans (add_zero _)]
        exact hs
  | unpark table id =>
      obtain rfl := Option.some.inj h
      refine hs.fades ⟨traces_refl _, Within.refl _, Within.refl _, le_rfl, rfl, ?_, le_rfl, rfl,
        rfl⟩
      intro table'
      by_cases htable : table' = table
      · subst htable
        change Function.update s.pending table' _ table' ⊆ _
        rw [Function.update_self]
        exact List.erase_subset
      · change Function.update s.pending table _ table' ⊆ _
        rw [Function.update_of_ne htable]
        exact List.Subset.refl _

theorem sound_init :
  init.ledger.Sound
  := by
  refine ⟨⟨?_, ?_, ?_⟩, ?_, ⟨⟨fun _ => .pairs, ?_⟩, ?_, ?_, ?_, ?_, ?_⟩, ⟨?_, ?_, ?_⟩, ⟨?_, ?_, ?_⟩,
    ⟨?_, ?_, ?_, ?_, ?_, ?_⟩, ⟨?_, ?_⟩, ⟨?_, ?_⟩, ⟨?_, ?_, ?_⟩⟩
  all_goals simp [ledger, books, init, duties, Identified, Live, Coming]
  intro t id hlive
  cases t <;> simp at hlive

/-! ### Every state -/

/-- An id is in a table of the server. -/
def Live (s : Broker) : IdTable → ℕ → Prop
  | .pending, id => id ∈ s.pending .stream
  | .udpPending, id => id ∈ s.pending .udp
  | .probes, id => s.rv.probes.lookup id ≠ none
  | .relayLegs, id => s.rv.relayLegs.lookup id ≠ none
  | .pairs, id => s.rv.pairs.lookup id ≠ none

/-- The pair was accepted for sessions of two clients. -/
def AcceptedFor (s : Broker) (pairId : ℕ) (consumerId providerId : String) : Prop :=
  ∃ consumerTx providerTx consumer provider,
    .accepted pairId consumerTx providerTx ∈ s.log
    ∧ s.sessions[consumerTx]? = some consumer ∧ consumer.clientId = consumerId
    ∧ s.sessions[providerTx]? = some provider ∧ provider.clientId = providerId

/-- What holds of the tables of the rendezvous, and of what was done with them. -/
structure Orderly (s : Broker) : Prop where
  distinct : ∀ i p, s.rv.pairs.lookup i = some p → p.consumerId ≠ p.providerId
  exclusive : ∀ i j p q, s.rv.pairs.lookup i = some p → s.rv.pairs.lookup j = some q →
    p.want = providesExit → q.want = providesExit → p.providerId = q.providerId → i = j
  single : ∀ i j p q, s.rv.pairs.lookup i = some p → s.rv.pairs.lookup j = some q →
    p.consumerId = q.consumerId → p.providerId = q.providerId → p.want = q.want → i = j
  identity : ∀ a b g h identity, s.rv.clients.lookup a = some g →
    s.rv.clients.lookup b = some h → g.peerIdentity = some identity →
      h.peerIdentity = some identity → a = b
  probes : ∀ id c p, s.rv.probes.lookup id = some c → s.rv.pairs.lookup c.pairId = some p →
    p.consumer.probeId = some id ∧ c.clientId = p.consumerId
      ∨ p.provider.probeId = some id ∧ c.clientId = p.providerId
  legs : ∀ id c p, s.rv.relayLegs.lookup id = some c → s.rv.pairs.lookup c.pairId = some p →
    ∃ r, p.relay = some r ∧ (id = r.legs.1 ∧ c.clientId = p.consumerId
      ∨ id = r.legs.2 ∧ c.clientId = p.providerId)
  apart : ∀ t t' id, s.Live t id → s.Live t' id → t = t'
  claimed : (s.log.filterMap BrokerEvent.claimedId).Nodup
  own : ∀ id claim clientId capability, .claimed id claim clientId capability ∈ s.log →
    clientId = claim.clientId ∧ capability = claim.capability
  informed : (s.log.filterMap BrokerEvent.informedId).Nodup
  spliced : (s.log.filterMap BrokerEvent.splicedId).Nodup
  joined : ∀ i first second, .spliced i first second ∈ s.log →
    first.id ≠ second.id ∧ Claimed s.log i first ∧ Claimed s.log i second
      ∧ (s.AcceptedFor i first.clientId second.clientId
        ∨ s.AcceptedFor i second.clientId first.clientId)

theorem acceptedFor_of_accepted {i : ℕ} {a b : String} (h : Accepted s.log s.accounts i a b) :
  s.AcceptedFor i a b
  := by
  obtain ⟨consumerTx, providerTx, hlog, hconsumer, hprovider⟩ := h
  rw [accounts, List.getElem?_map] at hconsumer hprovider
  obtain ⟨consumer, hc, hcid⟩ := Option.map_eq_some_iff.mp hconsumer
  obtain ⟨provider, hp, hpid⟩ := Option.map_eq_some_iff.mp hprovider
  exact ⟨consumerTx, providerTx, consumer, provider, hlog, hc, hcid, hp, hpid⟩

/-- A server whose books are in order is orderly. -/
theorem orderly_of_sound (h : s.ledger.Sound) :
  s.Orderly
  where
  distinct := h.pairs.distinct
  exclusive := h.pairs.exclusive
  single := h.pairs.single
  identity := h.clients
  probes := h.probing.fits
  legs := h.relaying.fits
  apart := by
    intro t t' id ht ht'
    obtain ⟨use, huse⟩ := h.drawn.used
    have hlive {t : IdTable} (hid : s.Live t id) : s.ledger.Live t id := by
      cases t <;> exact hid
    exact (huse t id (Or.inl (hlive ht))).2.symm.trans (huse t' id (Or.inl (hlive ht'))).2
  claimed := h.consumed.once
  own := h.consumed.own
  informed := h.told.once
  spliced := h.joined.once
  joined := by
    intro i first second hmem
    obtain ⟨hfirst, hsecond, hne, hparties⟩ := h.attested.spliced i first second hmem
    exact ⟨hne, hfirst, hsecond, hparties.imp acceptedFor_of_accepted acceptedFor_of_accepted⟩

/-- The tables of the rendezvous are in order in every state of every run. -/
theorem rendezvous_orderly {ops : List BrokerOp}
    (hrun : Run (fun s op t => s.step op = some t) init ops s) :
  s.Orderly
  := by
  apply orderly_of_sound
  apply hrun.invariant sound_init
  intro s op t hs hstep
  exact sound_step hs hstep

/-- A session says hello, announces an identity and proves it. -/
def arrives (tx : ℕ) (id : String) (identity : PeerIdentity) : List BrokerOp :=
  [.register id .udp none (Bytes.zero 32) false, .work tx (none, none), .serve tx,
    .frame tx (.peerAnnounce providesExit identity) ⟨.ok (Bytes.zero 32, Bytes.zero 32), true⟩
      (none, none), .work tx (none, none),
    .frame tx (.peerProof (Bytes.zero 32)) ⟨.ok (Bytes.zero 32, Bytes.zero 32), true⟩ (none, none),
    .work tx (none, none)]

/-- Two clients are paired, and are relayed by the server. -/
def relayed : List BrokerOp :=
  let capability : Capability := Bytes.zero 32
  let peer : PeerIdentity := List.Vector.replicate 32 1
  let proving : Proving := ⟨.ok (Bytes.zero 32, Bytes.zero 32), true⟩
  arrives 0 "a" (Bytes.zero 32) ++ arrives 1 "b" peer
    ++ [.frame 0 (.peerConnect peer providesExit) proving (some capability, none),
      .work 0 (none, none), .work 0 (some capability, some capability),
      .work 0 (none, none), .work 0 (none, none), .work 0 (none, none),
      .takeProbe 2 "a" capability [], .takeProbe 3 "b" capability [],
      .run 1 (none, none), .run 2 (none, none), .run 2 (none, none),
      .frame 0 (.peerPath 1 .relay) proving (some capability, some capability),
      .takeRelayLeg 4 "a" capability, .takeRelayLeg 5 "b" capability,
      .run 4 (none, none), .run 3 (none, none)]

/-- The legs of two clients are spliced. -/
theorem rendezvous_orderly_relayed :
  ∃ s, Run (fun s op t => s.step op = some t) init relayed s
    ∧ .spliced 1 ⟨"b", 5⟩ ⟨"a", 4⟩ ∈ s.log ∧ .informed 1 ∈ s.log ∧ s.Orderly
  := by
  have hview : ∃ s ∈ execute (fun _ _ => True) step init relayed,
      .spliced 1 ⟨"b", 5⟩ ⟨"a", 4⟩ ∈ s.log ∧ .informed 1 ∈ s.log := by
    decide +kernel
  obtain ⟨s, hs, hspliced, hinformed⟩ := hview
  have hrun := (run_of_execute hs).mono fun _ _ _ h => h.2
  exact ⟨s, hrun, hspliced, hinformed, rendezvous_orderly hrun⟩

end Broker

end ZeroNat

import ZeroNat.Server.Endings

/-!
# The sessions of the server

What each step of the server is for its sessions.  A pair stays in the table no longer than until
the end of each of its two sessions is complete.  And when no session is registered while the
pairs of its client are still to be removed by another, the end of a session removes no pair of a
session that is registered.
-/

namespace ZeroNat

namespace Broker

open Ledger

variable {s t : Broker} {tx : ℕ} {c : ControlSession}

/-- The sessions of the server, with what they share. -/
def roll (s : Broker) : Roll where
  clients := s.rv.clients
  pairs := s.rv.pairs
  log := s.log
  nextId := s.rv.nextId
  entries := s.sessions.map ControlSession.entry

theorem getElem?_entries (hc : s.sessions[tx]? = some c) :
  s.roll.entries[tx]? = some c.entry
  := by
  rw [roll, List.getElem?_map, hc, Option.map_some]

theorem roll_setSession (s : Broker) (tx : ℕ) (c' : ControlSession) :
  (s.setSession tx c').roll = s.roll.setEntry tx c'.entry
  := by
  rw [roll, setSession, Roll.setEntry, roll, List.map_set]

/-- Queueing a frame does not concern the sessions. -/
theorem entries_trySend (s : Broker) (p : Post) :
  (s.trySend p).roll.entries = s.roll.entries
  := by
  rw [trySend]
  split
  · rfl
  · rename_i c hc
    apply List.ext_getElem?
    intro j
    change ((s.sessions.set p.tx { c with channel := c.channel.trySend p.msg }).map
      ControlSession.entry)[j]? = (s.sessions.map ControlSession.entry)[j]?
    rw [List.getElem?_map, List.getElem?_set_of_some hc, List.getElem?_map]
    split
    · rename_i heq
      rw [heq, hc]
      rfl
    · rfl

theorem entries_exec (s : Broker) (draws : Draws) (e : Errand) :
  (s.exec draws e).1.roll.entries = s.roll.entries
  := by
  cases e with
  | ack p => exact entries_trySend s p
  | post p => exact entries_trySend s p
  | request p => exact entries_trySend s p
  | finish i =>
      rw [exec]
      dsimp only
      split <;> rfl
  | parkLeg i leg =>
      rw [exec]
      dsimp only
      split <;> rfl
  | _ => rfl

theorem clients_exec (s : Broker) (draws : Draws) (e : Errand) :
  (s.exec draws e).1.rv.clients = s.rv.clients
  := by
  cases e with
  | ack p => rw [exec, (s.trySend_kept p).2.2.1]
  | post p => rw [exec, (s.trySend_kept p).2.2.1]
  | request p => rw [exec, (s.trySend_kept p).2.2.1]
  | startProbes i => exact (s.rv.startPairProbes_spec i draws.1 draws.2).1
  | finish i =>
      have hclients := s.rv.clients_finishPair i
      rw [exec]
      dsimp only
      split <;> exact hclients
  | settle i probeId candidates => exact s.rv.clients_settleProbeForPair i probeId candidates
  | reap i => exact s.rv.clients_reapUnclaimedRelay i
  | parkLeg i leg =>
      have hclients := s.rv.clients_parkRelayLeg i leg
      rw [exec]
      dsimp only
      split <;> exact hclients
  | _ => rfl

theorem sameParties_refl (p : Pair) :
  SameParties p p
  := ⟨rfl, rfl, rfl⟩

/-- The parties of a pair stay, whatever a task does. -/
theorem traces_exec (s : Broker) (draws : Draws) (e : Errand) :
  Traces SameParties s.rv.pairs (s.exec draws e).1.rv.pairs
    ∧ s.rv.nextId ≤ (s.exec draws e).1.rv.nextId
  := by
  have hsame : Traces SameParties s.rv.pairs s.rv.pairs := fun _ p hp => ⟨p, hp, sameParties_refl p⟩
  have hlike {pairs : Table ℕ Pair} (h : Traces Like s.rv.pairs pairs) :
      Traces SameParties s.rv.pairs pairs := h.imp fun _ _ h => h.parties
  cases e with
  | ack p =>
      rw [exec, (s.trySend_kept p).2.2.1]
      exact ⟨hsame, le_rfl⟩
  | post p =>
      rw [exec, (s.trySend_kept p).2.2.1]
      exact ⟨hsame, le_rfl⟩
  | request p =>
      rw [exec, (s.trySend_kept p).2.2.1]
      exact ⟨hsame, le_rfl⟩
  | invalidate clientId =>
      refine ⟨?_, le_rfl⟩
      intro i p hp
      exact ⟨p, ((Table.lookup_retain _ _ _ _).mp hp).1, sameParties_refl p⟩
  | startProbes i =>
      change Traces SameParties s.rv.pairs (s.rv.startPairProbes i draws.1 draws.2).1.pairs
        ∧ s.rv.nextId ≤ (s.rv.startPairProbes i draws.1 draws.2).1.nextId
      cases hp : s.rv.pairs.lookup i with
      | none =>
          rw [Rendezvous.startPairProbes]
          simp only [hp]
          exact ⟨hsame, le_rfl⟩
      | some p =>
          obtain ⟨rv', p', hrv, hprobed, hparties, -⟩ :=
            startPairProbes_cases s.rv hp draws.1 draws.2
          rw [hrv]
          exact ⟨traces_insert sameParties_refl hp hparties, hprobed.nextId⟩
  | finish i =>
      have hfinish : Traces SameParties s.rv.pairs (s.rv.finishPair i).1.pairs
          ∧ s.rv.nextId ≤ (s.rv.finishPair i).1.nextId := by
        rw [Rendezvous.finishPair]
        split
        · exact ⟨hsame, le_rfl⟩
        · rename_i p hp
          split
          · exact ⟨hsame, le_rfl⟩
          · exact ⟨traces_insert sameParties_refl hp ⟨rfl, rfl, rfl⟩, le_rfl⟩
      rw [exec]
      dsimp only
      split <;> exact hfinish
  | settle i probeId candidates =>
      obtain ⟨pairs, hpairs⟩ := settle_kept s.rv i probeId candidates
      refine ⟨hlike (traces_settle s.rv i probeId candidates), ?_⟩
      change s.rv.nextId ≤ (s.rv.settleProbeForPair i probeId candidates).1.nextId
      rw [hpairs]
  | reap i =>
      change Traces SameParties s.rv.pairs (s.rv.reapUnclaimedRelay i).1.pairs
        ∧ s.rv.nextId ≤ (s.rv.reapUnclaimedRelay i).1.nextId
      rcases reap_kept s.rv i with hrv | hrv
      · rw [hrv]
        exact ⟨hsame, le_rfl⟩
      · rw [hrv]
        exact ⟨hlike (traces_erase _ i), le_rfl⟩
  | endRelay i => exact ⟨hlike (traces_erase _ i), le_rfl⟩
  | parkLeg i leg =>
      have hpark : Traces SameParties s.rv.pairs (s.rv.parkRelayLeg i leg).1.pairs
          ∧ s.rv.nextId ≤ (s.rv.parkRelayLeg i leg).1.nextId := by
        rw [Rendezvous.parkRelayLeg]
        dsimp only
        split
        · exact ⟨hsame, le_rfl⟩
        · rename_i p hp
          split
          · exact ⟨hsame, le_rfl⟩
          · split
            · exact ⟨traces_insert sameParties_refl hp ⟨rfl, rfl, rfl⟩, le_rfl⟩
            · exact ⟨traces_insert sameParties_refl hp ⟨rfl, rfl, rfl⟩, le_rfl⟩
            · exact ⟨hsame, le_rfl⟩
      rw [exec]
      dsimp only
      split <;> exact hpark
  | number table handle proto port addrs => exact ⟨hsame, Nat.le_succ _⟩
  | _ => exact ⟨hsame, le_rfl⟩

/-- No task accepts a pair. -/
theorem accepted_exec (s : Broker) (draws : Draws) (e : Errand) {i consumerTx providerTx : ℕ}
    (h : .accepted i consumerTx providerTx ∈ (s.exec draws e).1.log) :
  .accepted i consumerTx providerTx ∈ s.log
  := by
  cases e with
  | ack p => rwa [exec, (s.trySend_kept p).2.2.2.2] at h
  | post p => rwa [exec, (s.trySend_kept p).2.2.2.2] at h
  | request p => rwa [exec, (s.trySend_kept p).2.2.2.2] at h
  | finish j =>
      rw [exec] at h
      dsimp only at h
      split at h
      · exact h
      · exact (List.mem_cons.mp h).resolve_left (by simp)
  | parkLeg j leg =>
      rw [exec] at h
      dsimp only at h
      split at h
      · exact h
      · exact (List.mem_cons.mp h).resolve_left (by simp)
  | _ => exact h

/-- What a task does leaves the sessions as they are, and at most removes pairs. -/
theorem fades_exec (s : Broker) (draws : Draws) (e : Errand) :
  Roll.Fades s.roll (s.exec draws e).1.roll
  where
  clients := clients_exec s draws e
  entries := entries_exec s draws e
  pairs := (traces_exec s draws e).1
  nextId := (traces_exec s draws e).2
  log := fun _ _ _ h => accepted_exec s draws e h

theorem filterMap_eq_nil {todo : List Errand} (h : ∀ e ∈ todo, e.invalidates = none) :
  todo.filterMap Errand.invalidates = []
  := List.filterMap_eq_nil_iff.mpr h

/-- What follows from what a task does is not to remove the pairs of a client. -/
theorem invalidates_exec (s : Broker) (draws : Draws) (e : Errand) :
  (s.exec draws e).2.filterMap Errand.invalidates = []
  := by
  have hposts (posts : List Post) : ∀ e ∈ posts.map Errand.post, e.invalidates = none := by
    intro e he
    obtain ⟨p, -, rfl⟩ := List.mem_map.mp he
    rfl
  have hforget (removed : List Pair) : ∀ e ∈ removed.flatMap forget, e.invalidates = none := by
    intro e he
    obtain ⟨p, -, hp⟩ := List.mem_flatMap.mp he
    rcases List.mem_cons.mp hp with rfl | hp
    · rfl
    · obtain rfl := List.mem_singleton.mp hp
      rfl
  cases e with
  | invalidate clientId => exact filterMap_eq_nil (hforget _)
  | startProbes i =>
      rw [exec]
      dsimp only
      rw [List.filterMap_append, filterMap_eq_nil (hposts _), List.nil_append]
      split <;> rfl
  | finish i =>
      rw [exec]
      dsimp only
      split <;> rfl
  | inform i => exact filterMap_eq_nil (hposts _)
  | settle i probeId candidates =>
      apply filterMap_eq_nil
      intro e he
      obtain ⟨j, -, rfl⟩ := List.mem_map.mp he
      rfl
  | reap i => exact filterMap_eq_nil (hforget _)
  | endRelay i => exact filterMap_eq_nil (hforget _)
  | parkLeg i leg =>
      rw [exec]
      dsimp only
      split <;> rfl
  | number table handle proto port addrs =>
      rw [exec]
      dsimp only
      split <;> rfl
  | _ => rfl

/-- The pairs of a client are gone when they have been removed. -/
theorem not_joins_of_invalidate (s : Broker) (draws : Draws) (clientId : String) {i : ℕ} {p : Pair}
    (hp : (s.exec draws (.invalidate clientId)).1.rv.pairs.lookup i = some p) :
  ¬ p.Joins clientId
  := by
  simpa using ((Table.lookup_retain _ _ _ _).mp hp).2

theorem entries_modify (sessions : List ControlSession) (tx : ℕ) {more : List Errand}
    (hmore : more.filterMap Errand.invalidates = []) :
  (sessions.modify tx fun c => { c with todo := more ++ c.todo }).map ControlSession.entry
    = sessions.map ControlSession.entry
  := by
  have hentry (c : ControlSession) :
      ControlSession.entry { c with todo := more ++ c.todo } = c.entry := by
    rw [ControlSession.entry, List.filterMap_append, hmore, List.nil_append]
    rfl
  apply List.ext_getElem?
  intro j
  rw [List.getElem?_map, List.getElem?_modify, List.getElem?_map]
  split
  · rw [Option.map_eq_map, Option.map_map]
    congr 1
    funext c
    exact hentry c
  · rw [Option.map_eq_map, Option.map_id']

/-- What the step of the task of a session is for the others. -/
theorem roll_work {draws : Draws} (h : s.work tx draws = some t) :
  ∃ c e todo, s.sessions[tx]? = some c ∧ c.todo = e :: todo
    ∧ Roll.Fades s.roll { t.roll with entries := s.roll.entries }
    ∧ t.roll = Roll.setEntry { t.roll with entries := s.roll.entries } tx
        { c with todo := todo }.entry
    ∧ ∀ x, e = .invalidate x → ∀ i p, t.rv.pairs.lookup i = some p → ¬ p.Joins x
  := by
  rw [work] at h
  split at h
  · exact absurd h (by simp)
  · rename_i c hc
    split at h
    · exact absurd h (by simp)
    · rename_i e todo htodo
      have hnoted : (s.note c e).sessions = s.sessions ∧ (s.note c e).rv = s.rv
          ∧ ∀ i a b, .accepted i a b ∈ (s.note c e).log → .accepted i a b ∈ s.log := by
        unfold note
        split
        · split
          · exact ⟨rfl, rfl, fun _ _ _ h => h⟩
          · exact ⟨rfl, rfl, fun _ _ _ h => (List.mem_cons.mp h).resolve_left (by simp)⟩
        · exact ⟨rfl, rfl, fun _ _ _ h => h⟩
      have hset := roll_setSession (s.note c e) tx { c with todo := todo }
      have hlog : ((s.note c e).setSession tx { c with todo := todo }).log = (s.note c e).log := rfl
      have hrv : ((s.note c e).setSession tx { c with todo := todo }).rv = s.rv := hnoted.2.1
      generalize (s.note c e).setSession tx { c with todo := todo } = s₁ at h hset hlog hrv
      have hfades := fades_exec s₁ draws e
      have hmore := invalidates_exec s₁ draws e
      have hgone := fun x i p => not_joins_of_invalidate s₁ draws x (i := i) (p := p)
      have hentries : s₁.roll.entries = (s.roll.setEntry tx { c with todo := todo }.entry).entries := by
        rw [hset, Roll.setEntry, Roll.setEntry, roll, roll]
        dsimp only
        rw [hnoted.1]
      refine ⟨c, e, todo, hc, htodo, ?_⟩
      cases hr : s₁.exec draws e with
      | mk s₂ more =>
          rw [hr] at h hfades hmore
          obtain rfl := Option.some.inj h
          dsimp only at hfades hmore ⊢
          refine ⟨⟨?_, rfl, ?_, ?_, ?_⟩, ?_, ?_⟩
          · exact hfades.clients.trans (congrArg Rendezvous.clients hrv)
          · have hpairs := hfades.pairs
            rw [show s₁.roll.pairs = s.rv.pairs from congrArg Rendezvous.pairs hrv] at hpairs
            exact hpairs
          · have hnext := hfades.nextId
            rw [show s₁.roll.nextId = s.rv.nextId from congrArg Rendezvous.nextId hrv] at hnext
            exact hnext
          · intro i a b hmem
            have hmem' : .accepted i a b ∈ s₁.log := hfades.log i a b hmem
            rw [hlog] at hmem'
            exact hnoted.2.2 i a b hmem'
          · have hmodified : (s₂.sessions.modify tx fun c => { c with todo := more ++ c.todo }).map
                ControlSession.entry = s.roll.entries.set tx { c with todo := todo }.entry :=
              (entries_modify s₂.sessions tx hmore).trans (hfades.entries.trans hentries)
            rw [roll, Roll.setEntry]
            dsimp only
            rw [hmodified]
          · rintro x rfl i p hp
            refine hgone x i p ?_
            rw [hr]
            exact hp

theorem kept_work (hs : s.roll.Kept) {draws : Draws} (h : s.work tx draws = some t) :
  t.roll.Kept
  := by
  obtain ⟨c, e, todo, hc, htodo, hfades, hroll, hgone⟩ := roll_work h
  rw [hroll]
  have howed : c.entry.owed = e.invalidates.toList ++ { c with todo := todo }.entry.owed := by
    rw [ControlSession.entry, ControlSession.entry, htodo]
    dsimp only
    cases he : e.invalidates with
    | none => rw [List.filterMap_cons_none he, Option.toList_none, List.nil_append]
    | some x => rw [List.filterMap_cons_some he, Option.toList_some, List.singleton_append]
  apply (hs.fades hfades).setEntry (getElem?_entries hc)
  · rfl
  · intro x _ hx
    rw [howed, List.mem_append, Option.mem_toList] at hx
    rcases hx with hx | hx
    · refine Or.inr (hgone x ?_)
      cases e with
      | invalidate y => rw [Option.some.inj hx]
      | _ => exact absurd hx (by simp [Errand.invalidates])
    · exact Or.inl ⟨hx, rfl⟩
  · exact id
  · exact fun _ => Or.inl rfl

theorem owing_work (hs : s.roll.Owing) {draws : Draws} (h : s.work tx draws = some t) :
  t.roll.Owing
  := by
  obtain ⟨c, e, todo, hc, htodo, hfades, hroll, -⟩ := roll_work h
  rw [hroll]
  have hsame : Roll.Owing { t.roll with entries := s.roll.entries } := by
    intro j f x hf hstage hx
    have hclients : t.rv.clients = s.rv.clients := hfades.clients
    change x = f.clientId ∧ (f.stage = .registering ∧ Owned t.rv.clients x j
      ∨ f.stage = .ending ∧ t.rv.clients.lookup x = none)
    rw [hclients]
    exact hs j f x hf hstage hx
  apply hsame.setEntry (getElem?_entries hc)
  · rfl
  · intro x hx _
    refine ⟨?_, rfl⟩
    rw [ControlSession.entry, htodo]
    exact (List.sublist_cons_self e todo).filterMap Errand.invalidates |>.subset hx

theorem kept_run (hs : s.roll.Kept) {i : ℕ} {draws : Draws} (h : s.run i draws = some t) :
  t.roll.Kept
  := by
  rw [run] at h
  split at h
  · exact absurd h (by simp)
  · exact absurd h (by simp)
  · rename_i e todo htask
    have hfades := fades_exec s draws e
    generalize s.exec draws e = r at h hfades
    obtain ⟨s₂, more⟩ := r
    obtain rfl := Option.some.inj h
    exact hs.fades hfades

theorem owing_of_eq (hs : s.roll.Owing) (hclients : t.rv.clients = s.rv.clients)
    (hentries : t.roll.entries = s.roll.entries) :
  t.roll.Owing
  := by
  rw [Roll.Owing, show t.roll.clients = s.roll.clients from hclients, hentries]
  exact hs

theorem owing_run (hs : s.roll.Owing) {i : ℕ} {draws : Draws} (h : s.run i draws = some t) :
  t.roll.Owing
  := by
  rw [run] at h
  split at h
  · exact absurd h (by simp)
  · exact absurd h (by simp)
  · rename_i e todo htask
    have hfades := fades_exec s draws e
    generalize s.exec draws e = r at h hfades
    obtain ⟨s₂, more⟩ := r
    obtain rfl := Option.some.inj h
    exact owing_of_eq (t := s₂) hs hfades.clients hfades.entries

/-! ### What sessions do -/

/-- A session that is served goes on. -/
theorem kept_serving (hs : s.roll.Kept) (hc : s.sessions[tx]? = some c)
    (hserving : c.stage = .serving) {c' : ControlSession} (hid : c'.clientId = c.clientId)
    (hstage : c'.stage = .serving) :
  (s.setSession tx c').roll.Kept
  := by
  rw [roll_setSession]
  apply hs.setEntry (getElem?_entries hc)
  · exact hid
  · exact fun x hne _ => absurd hserving hne
  · intro _ heq
    rw [ControlSession.entry, hstage] at heq
    exact absurd heq (by simp)
  · exact fun _ => Or.inr hstage

theorem owing_serving (hs : s.roll.Owing) (hc : s.sessions[tx]? = some c)
    {c' : ControlSession} (hid : c'.clientId = c.clientId) (hstage : c'.stage = .serving) :
  (s.setSession tx c').roll.Owing
  := by
  rw [roll_setSession]
  apply hs.setEntry (getElem?_entries hc)
  · exact hid
  · exact fun x _ hne => absurd hstage hne

/-- A session that has nothing to do comes to another stage. -/
theorem kept_stage (hs : s.roll.Kept) (hc : s.sessions[tx]? = some c) (hidle : c.todo = [])
    {stage : ControlStage} (hserved : stage ≠ .registering)
    (howner : Owned s.rv.clients c.clientId tx → stage = .serving) :
  (s.setSession tx { c with stage := stage }).roll.Kept
  := by
  rw [roll_setSession]
  apply hs.setEntry (getElem?_entries hc)
  · rfl
  · intro x _ hx
    rw [ControlSession.entry, hidle] at hx
    exact absurd hx (by simp)
  · exact fun _ => hserved
  · exact fun howned => Or.inr (howner howned)

theorem owing_stage (hs : s.roll.Owing) (hc : s.sessions[tx]? = some c) (hidle : c.todo = [])
    (stage : ControlStage) :
  (s.setSession tx { c with stage := stage }).roll.Owing
  := by
  rw [roll_setSession]
  apply hs.setEntry (getElem?_entries hc)
  · rfl
  · intro x hx _
    rw [ControlSession.entry, hidle] at hx
    exact absurd hx (by simp)

/-- A session changes in what the others do not see. -/
theorem roll_setSession_of_entry (hc : s.sessions[tx]? = some c) {c' : ControlSession}
    (hentry : c'.entry = c.entry) :
  (s.setSession tx c').roll = s.roll
  := by
  rw [roll_setSession, hentry, Roll.setEntry]
  have hsame : s.roll.entries.set tx c.entry = s.roll.entries := by
    obtain ⟨hlt, heq⟩ := List.getElem?_eq_some_iff.mp (getElem?_entries hc)
    rw [← heq]
    exact List.set_getElem_self hlt
  rw [hsame]

theorem setFwd_kept (s : Broker) (clientId : String) (tx : ℕ) (entries : List FwdOptionEntry) :
  ∃ clients, s.setFwd clientId tx entries = { s with rv := { s.rv with clients := clients } }
    ∧ (∀ x, s.rv.clients.lookup x = none → clients.lookup x = none)
    ∧ ∀ x k, s.rv.clients.lookup x = some k → ∃ k', clients.lookup x = some k' ∧ k'.tx = k.tx
      ∧ k'.peerIdentity = k.peerIdentity
  := by
  rw [setFwd]
  split
  · exact ⟨s.rv.clients, rfl, fun _ h => h, fun _ k hk => ⟨k, hk, rfl, rfl⟩⟩
  · rename_i held hheld
    split
    · refine ⟨_, rfl, ?_, ?_⟩
      · intro x hx
        rw [Table.lookup_insert_eq, if_neg, hx]
        rintro rfl
        exact absurd hheld (by simp [hx])
      · intro x k hk
        rw [Table.lookup_insert_eq]
        split
        · rename_i heq
          subst heq
          obtain rfl := Option.some.inj (hheld.symm.trans hk)
          exact ⟨_, rfl, rfl, rfl⟩
        · exact ⟨k, hk, rfl, rfl⟩
    · exact ⟨s.rv.clients, rfl, fun _ h => h, fun _ k hk => ⟨k, hk, rfl, rfl⟩⟩

/-- The claim of an identity leaves the sessions of the clients as they are, and gives an identity
to the one that proved it only. -/
theorem lookup_claimed (clients : Table String ClientHandle) (clientId : String)
    (provides : UInt8) (identity : PeerIdentity) :
  (∀ x, clients.lookup x = none →
      (clients.mapValues (Rendezvous.claimed clientId provides identity)).lookup x = none)
    ∧ ∀ x k, clients.lookup x = some k →
      ∃ k', (clients.mapValues (Rendezvous.claimed clientId provides identity)).lookup x = some k'
        ∧ k'.tx = k.tx ∧ (k'.peerIdentity ≠ none → k.peerIdentity ≠ none ∨ x = clientId)
  := by
  constructor
  · intro x hx
    rw [Table.lookup_mapValues, hx, Option.map_none]
  · intro x k hk
    refine ⟨Rendezvous.claimed clientId provides identity x k, ?_, ?_, ?_⟩
    · rw [Table.lookup_mapValues, hk, Option.map_some]
    · rw [Rendezvous.claimed]
      split
      · rfl
      · split <;> rfl
    · rw [Rendezvous.claimed]
      split
      · exact fun _ => Or.inr ‹_›
      · split
        · exact fun h => absurd rfl h
        · exact Or.inl

theorem traces_peerPath (rv : Rendezvous) (clientId : String) (tx i : ℕ) (status : PathStatus)
    (forConsumer forProvider : Option Capability) :
  Traces SameParties rv.pairs
      (rv.peerPath clientId tx i status forConsumer forProvider).1.pairs
    ∧ rv.nextId ≤ (rv.peerPath clientId tx i status forConsumer forProvider).1.nextId
  := by
  have hsame : Traces SameParties rv.pairs rv.pairs := fun _ p hp => ⟨p, hp, sameParties_refl p⟩
  rw [Rendezvous.peerPath]
  split
  · rename_i handle pair hhandle hpair
    split
    · exact ⟨hsame, le_rfl⟩
    · split
      · exact ⟨hsame, le_rfl⟩
      · rename_i pair' hreported
        have hparties := (like_reported hreported).parties
        dsimp only
        split
        · split
          · refine ⟨?_, Nat.le_add_right _ 2⟩
            change Traces SameParties rv.pairs ((rv.pairs.insert i pair').insert i _)
            rw [AList.insert_insert]
            exact traces_insert sameParties_refl hpair hparties
          · exact ⟨traces_insert sameParties_refl hpair hparties, Nat.le_add_right _ 2⟩
        · exact ⟨traces_insert sameParties_refl hpair hparties, le_rfl⟩
  · exact ⟨hsame, le_rfl⟩

/-- A session asks to be paired. -/
theorem kept_request (hs : s.roll.Kept) (hc : s.sessions[tx]? = some c)
    (hserving : c.stage = .serving) (peerId : PeerIdentity) (want : UInt8)
    (challenge : Option Capability) :
  (s.request tx c peerId want challenge).roll.Kept
  := by
  rw [request]
  rcases peerConnect_cases s.rv c.clientId tx peerId want s.closed challenge with
    ⟨hrefused, hrv⟩ | ⟨consumer, providerId, handle, drawn, hconsumer, hconsumerTx, -, hholder, -,
      haccepted⟩
  · generalize s.rv.peerConnect c.clientId tx peerId want s.closed challenge = r
      at hrefused hrv ⊢
    obtain ⟨rv, result⟩ := r
    have hkept : (({ s with rv := rv } : Broker).roll).Kept := by
      rcases hrv with rfl | ⟨providerId, n, rfl⟩
      · exact hs
      · have hfades := (fades_dropReplaced s.ledger c.clientId providerId want).1
        exact hs.fades ⟨hfades.clients, rfl, hfades.pairs.imp fun _ _ h => h.parties,
          hfades.nextId.trans (Nat.le_add_right _ _), fun _ _ _ h => h⟩
    cases result with
    | none => exact hkept
    | some status =>
        obtain ⟨i, status⟩ := status
        dsimp only
        rw [if_neg]
        · exact kept_serving hkept hc hserving rfl hserving
        · rintro rfl
          exact hrefused i rfl
  · rw [haccepted]
    dsimp only
    rw [if_pos rfl]
    obtain ⟨hheld, hprovides⟩ := holder_eq_some hholder
    have hfades := (fades_dropReplaced s.ledger c.clientId providerId want).1
    have hdropped : (({ s with
        rv := s.rv.dropReplaced c.clientId providerId want } : Broker).roll).Kept :=
      hs.fades ⟨hfades.clients, rfl, hfades.pairs.imp fun _ _ h => h.parties, hfades.nextId,
        fun _ _ _ h => h⟩
    have hclients : (s.rv.dropReplaced c.clientId providerId want).clients = s.rv.clients :=
      hfades.clients
    have hsame : ((s.rv.dropReplaced c.clientId providerId want).accept c.clientId providerId want
        drawn).holder peerId = some (providerId, handle) := by
      rw [← hholder, Rendezvous.holder, Rendezvous.accept]
      dsimp only
      rw [hclients]
      rfl
    -- The provider has proved an identity, so that it is served.
    obtain ⟨e, he, -, -, hidentity⟩ := hs.owner providerId handle hheld
    have hpaired := hdropped.accept
      ⟨c.clientId, providerId, want, drawn, .default, .default, false, none⟩ tx handle.tx
      (by
        change Owned (s.rv.dropReplaced c.clientId providerId want).clients c.clientId tx
        rw [hclients]
        exact ⟨consumer, hconsumer, hconsumerTx⟩)
      ⟨c.entry, getElem?_entries hc, by rw [ControlSession.entry, hserving]; simp⟩
      (by
        change Owned (s.rv.dropReplaced c.clientId providerId want).clients providerId handle.tx
        rw [hclients]
        exact ⟨handle, hheld, rfl⟩)
      ⟨e, he, by rw [hidentity (by simp [hprovides])]; simp⟩
    rw [hsame]
    change (setSession _ tx _).roll.Kept
    generalize hs₁ : record _ _ = s₁
    have hc₁ : s₁.sessions[tx]? = some c := by
      rw [← hs₁]
      exact hc
    apply kept_serving _ hc₁ hserving
    · rfl
    · exact hserving
    · rw [← hs₁]
      exact hpaired

theorem owing_request (hs : s.roll.Owing) (hc : s.sessions[tx]? = some c)
    (hserving : c.stage = .serving) (peerId : PeerIdentity) (want : UInt8)
    (challenge : Option Capability) :
  (s.request tx c peerId want challenge).roll.Owing
  := by
  have hclients := Rendezvous.clients_peerConnect s.rv c.clientId tx peerId want s.closed challenge
  rw [request]
  generalize s.rv.peerConnect c.clientId tx peerId want s.closed challenge = r at hclients ⊢
  obtain ⟨rv, result⟩ := r
  have hkept (log : List BrokerEvent) :
      (({ s with rv := rv, log := log } : Broker).roll).Owing := owing_of_eq hs hclients rfl
  cases result with
  | none => exact hkept s.log
  | some status =>
      obtain ⟨i, status⟩ := status
      dsimp only
      split
      · apply owing_serving (hkept _) hc
        · rfl
        · exact hserving
      · apply owing_serving (hkept _) hc
        · rfl
        · exact hserving

theorem kept_prove (hs : s.roll.Kept) (hc : s.sessions[tx]? = some c)
    (hserving : c.stage = .serving) (provides : UInt8) (identity : PeerIdentity) :
  (s.prove tx c provides identity).roll.Kept
  := by
  rw [prove]
  split
  · exact kept_serving hs hc hserving rfl hserving
  · rename_i rv displaced hrecord
    rw [Rendezvous.recordPeerClaim] at hrecord
    split at hrecord
    · rename_i howned
      obtain ⟨rfl, rfl⟩ := Prod.mk.inj (Option.some.inj hrecord)
      obtain ⟨hnone, hsome⟩ := lookup_claimed s.rv.clients c.clientId provides identity
      have hclaimed : (({ s with rv := { s.rv with
          clients := s.rv.clients.mapValues
            (Rendezvous.claimed c.clientId provides identity) } } : Broker).roll).Kept := by
        apply hs.setClients hnone
        intro x k hk
        obtain ⟨k', hk', htx, hidentity⟩ := hsome x k hk
        refine ⟨k', hk', htx, ?_⟩
        intro hproved
        rcases hidentity hproved with hold | rfl
        · exact Or.inl hold
        · -- The entry of the client is that of the session that has proved the identity.
          obtain ⟨held, hheld, hheldTx⟩ := howned
          obtain rfl := Option.some.inj (hheld.symm.trans hk)
          refine Or.inr ?_
          intro e he
          rw [hheldTx, getElem?_entries hc] at he
          rw [← Option.some.inj he]
          exact hserving
      exact kept_serving hclaimed hc hserving rfl hserving
    · exact absurd hrecord (by simp)

theorem owing_prove (hs : s.roll.Owing) (hc : s.sessions[tx]? = some c)
    (hserving : c.stage = .serving) (provides : UInt8) (identity : PeerIdentity) :
  (s.prove tx c provides identity).roll.Owing
  := by
  rw [prove]
  split
  · exact owing_serving hs hc rfl hserving
  · rename_i rv displaced hrecord
    rw [Rendezvous.recordPeerClaim] at hrecord
    split at hrecord
    · obtain ⟨rfl, rfl⟩ := Prod.mk.inj (Option.some.inj hrecord)
      obtain ⟨hnone, hsome⟩ := lookup_claimed s.rv.clients c.clientId provides identity
      have hclaimed : (({ s with rv := { s.rv with
          clients := s.rv.clients.mapValues
            (Rendezvous.claimed c.clientId provides identity) } } : Broker).roll).Owing := by
        apply hs.setClients hnone
        intro x k hk
        obtain ⟨k', hk', htx, -⟩ := hsome x k hk
        exact ⟨k', hk', htx⟩
      exact owing_serving hclaimed hc rfl hserving
    · exact absurd hrecord (by simp)

theorem kept_handleControlFrame (hs : s.roll.Kept) (hc : s.sessions[tx]? = some c)
    (hserving : c.stage = .serving) (proving : Proving) (draws : Draws) (msg : Msg) :
  (s.handleControlFrame tx c proving draws msg).roll.Kept
  := by
  unfold handleControlFrame
  split
  · exact kept_serving hs hc hserving rfl hserving
  · obtain ⟨clients, hset, hnone, hsome⟩ := setFwd_kept s c.clientId tx ‹_›
    have hfwd : (({ s with rv := { s.rv with clients := clients } } : Broker).roll).Kept := by
      apply hs.setClients hnone
      intro x k hk
      obtain ⟨k', hk', htx, hidentity⟩ := hsome x k hk
      exact ⟨k', hk', htx, fun h => Or.inl (hidentity ▸ h)⟩
    rw [hset]
    exact kept_serving hfwd hc hserving rfl hserving
  · split
    · exact kept_serving hs hc hserving rfl hserving
    · exact kept_serving hs hc hserving rfl hserving
  · split
    · exact hs
    · split
      · exact kept_prove hs hc hserving _ _
      · exact kept_serving hs hc hserving rfl hserving
  · exact kept_request hs hc hserving _ _ _
  · rename_i i status
    obtain ⟨htraces, hnext⟩ :=
      traces_peerPath s.rv c.clientId tx i.toNat status draws.1 draws.2
    have hclients := (s.rv.peerPath_spec c.clientId tx i.toNat status draws.1 draws.2).1
    have hpath : (({ s with
        rv := (s.rv.peerPath c.clientId tx i.toNat status draws.1 draws.2).1 } :
        Broker).roll).Kept := hs.fades ⟨hclients, rfl, htraces, hnext, fun _ _ _ h => h⟩
    generalize s.rv.peerPath c.clientId tx i.toNat status draws.1 draws.2 = r at hpath ⊢
    obtain ⟨rv, posts, opened⟩ := r
    exact kept_serving hpath hc hserving rfl hserving
  · exact hs

theorem owing_handleControlFrame (hs : s.roll.Owing) (hc : s.sessions[tx]? = some c)
    (hserving : c.stage = .serving) (proving : Proving) (draws : Draws) (msg : Msg) :
  (s.handleControlFrame tx c proving draws msg).roll.Owing
  := by
  unfold handleControlFrame
  split
  · exact owing_serving hs hc rfl hserving
  · obtain ⟨clients, hset, hnone, hsome⟩ := setFwd_kept s c.clientId tx ‹_›
    have hfwd : (({ s with rv := { s.rv with clients := clients } } : Broker).roll).Owing := by
      apply hs.setClients hnone
      intro x k hk
      obtain ⟨k', hk', htx, -⟩ := hsome x k hk
      exact ⟨k', hk', htx⟩
    rw [hset]
    exact owing_serving hfwd hc rfl hserving
  · split
    · exact owing_serving hs hc rfl hserving
    · exact owing_serving hs hc rfl hserving
  · split
    · exact hs
    · split
      · exact owing_prove hs hc hserving _ _
      · exact owing_serving hs hc rfl hserving
  · exact owing_request hs hc hserving _ _ _
  · rename_i i status
    have hclients := (s.rv.peerPath_spec c.clientId tx i.toNat status draws.1 draws.2).1
    have hpath : (({ s with
        rv := (s.rv.peerPath c.clientId tx i.toNat status draws.1 draws.2).1 } :
        Broker).roll).Owing := owing_of_eq hs hclients rfl
    generalize s.rv.peerPath c.clientId tx i.toNat status draws.1 draws.2 = r at hpath ⊢
    obtain ⟨rv, posts, opened⟩ := r
    exact owing_serving hpath hc rfl hserving
  · exact hs

/-- What the end of a session is for the others. -/
theorem roll_leave (s : Broker) (tx : ℕ) (c : ControlSession) :
  (s.leave tx c).roll
    = if Owned s.rv.clients c.clientId tx then
        { s.roll.setEntry tx ⟨c.entry.clientId, .ending, [c.entry.clientId]⟩ with
          clients := s.rv.clients.erase c.clientId }
      else (s.setSession tx { c with stage := .ending }).roll
  := by
  rw [leave]
  split
  · rw [roll_setSession]
    rfl
  · rfl

theorem kept_leave (hs : s.roll.Kept) (hc : s.sessions[tx]? = some c)
    (hserving : c.stage = .serving) (hidle : c.todo = []) :
  (s.leave tx c).roll.Kept
  := by
  rw [roll_leave]
  split
  · exact hs.leave (getElem?_entries hc) hserving ‹_›
  · exact kept_stage hs hc hidle (by simp) fun howned => absurd howned ‹_›

theorem owing_leave (hs : s.roll.Owing) (hc : s.sessions[tx]? = some c) (hidle : c.todo = []) :
  (s.leave tx c).roll.Owing
  := by
  rw [roll_leave]
  split
  · exact hs.leave (getElem?_entries hc) ‹_›
  · exact owing_stage hs hc hidle .ending

/-- No session that is registering or ending has still to remove the pairs of a client when a
session of the client is registered. -/
def Unowed (s : Broker) : BrokerOp → Prop
  | .register clientId _ _ _ held =>
      s.rv.clients.lookup clientId = none ∨ held = false →
        ∀ c ∈ s.sessions, c.stage ≠ .serving → Errand.invalidate clientId ∉ c.todo
  | _ => True

instance (s : Broker) (op : BrokerOp) : Decidable (s.Unowed op) :=
  match op with
  | .register clientId _ _ _ held =>
      inferInstanceAs (Decidable (s.rv.clients.lookup clientId = none ∨ held = false →
        ∀ c ∈ s.sessions, c.stage ≠ .serving → Errand.invalidate clientId ∉ c.todo))
  | .work _ _ | .serve _ | .frame _ _ _ _ | .leave _ | .drop _ | .recv _ | .close _ | .run _ _
  | .takeProbe _ _ _ _ | .takeRelayLeg _ _ _ | .openFlow _ _ _ _ _ | .unpark _ _ => isTrue trivial

/-- What a registration is for the others. -/
theorem register_cases (s : Broker) (clientId : String) (transport : ActiveTransport)
    (peer : Option SocketAddr) (bridgeCapability : Capability) (held : Bool) :
  (s.register clientId transport peer bridgeCapability held = s)
    ∨ (s.rv.clients.lookup clientId = none ∨ held = false) ∧ ∃ owed,
      (s.register clientId transport peer bridgeCapability held).roll = { s.roll with
        clients := s.rv.clients.insert clientId
          (ClientHandle.new clientId s.sessions.length transport peer bridgeCapability)
        entries := s.roll.entries ++ [⟨clientId, .registering, owed⟩] }
      ∧ (∀ x ∈ owed, x = clientId) ∧ (s.rv.clients.lookup clientId ≠ none → clientId ∈ owed)
  := by
  unfold register
  dsimp only
  cases hlookup : s.rv.clients.lookup clientId with
  | none =>
      refine Or.inr ⟨Or.inl rfl, [], ?_, by simp, fun hne => absurd rfl hne⟩
      dsimp only
      rw [roll, List.map_append]
      rfl
  | some k =>
      dsimp only
      cases held with
      | true => exact Or.inl (if_pos rfl)
      | false =>
          refine Or.inr ⟨Or.inr rfl, [clientId], ?_, fun x hx => List.mem_singleton.mp hx,
            fun _ => List.mem_singleton_self clientId⟩
          rw [if_neg (by simp), roll, List.map_append]
          rfl

theorem length_entries (s : Broker) :
  s.roll.entries.length = s.sessions.length
  := List.length_map _

theorem kept_register (hs : s.roll.Kept) (clientId : String) (transport : ActiveTransport)
    (peer : Option SocketAddr) (bridgeCapability : Capability) (held : Bool) :
  (s.register clientId transport peer bridgeCapability held).roll.Kept
  := by
  rcases register_cases s clientId transport peer bridgeCapability held with
    hsame | ⟨-, owed, hroll, -, hsuperseded⟩
  · rw [hsame]
    exact hs
  · rw [hroll]
    exact hs.register clientId (length_entries s).symm rfl hsuperseded

theorem owing_register (hs : s.roll.Owing) {clientId : String} {transport : ActiveTransport}
    {peer : Option SocketAddr} {bridgeCapability : Capability} {held : Bool}
    (hunowed : s.Unowed (.register clientId transport peer bridgeCapability held)) :
  (s.register clientId transport peer bridgeCapability held).roll.Owing
  := by
  rcases register_cases s clientId transport peer bridgeCapability held with
    hsame | ⟨hadmitted, owed, hroll, howed, -⟩
  · rw [hsame]
    exact hs
  · rw [hroll]
    apply hs.register clientId (length_entries s).symm _ howed
    intro j e he hstage hmem
    rw [roll, List.getElem?_map] at he
    obtain ⟨c, hc, rfl⟩ := Option.map_eq_some_iff.mp he
    obtain ⟨errand, herrand, heq⟩ := List.mem_filterMap.mp hmem
    apply hunowed hadmitted c (List.mem_of_getElem? hc) hstage
    cases errand with
    | invalidate x => exact Option.some.inj heq ▸ herrand
    | _ => exact absurd heq (by simp [Errand.invalidates])

/-! ### Every state -/

/-- What is neither done by the task of a session nor by another task. -/
def Aside : BrokerOp → Prop
  | .recv _ | .close _ | .takeProbe _ _ _ _ | .takeRelayLeg _ _ _ | .openFlow _ _ _ _ _
  | .unpark _ _ => True
  | .register _ _ _ _ _ | .work _ _ | .serve _ | .frame _ _ _ _ | .leave _ | .drop _ | .run _ _ =>
      False

theorem roll_of_aside {op : BrokerOp} (hop : Aside op) (h : s.step op = some t) :
  t.rv.clients = s.rv.clients ∧ t.roll.entries = s.roll.entries ∧ t.rv.pairs = s.rv.pairs
    ∧ t.rv.nextId = s.rv.nextId
    ∧ ∀ i a b, .accepted i a b ∈ t.log → .accepted i a b ∈ s.log
  := by
  cases op with
  | register _ _ _ _ _ => exact hop.elim
  | work _ _ => exact hop.elim
  | serve _ => exact hop.elim
  | frame _ _ _ _ => exact hop.elim
  | leave _ => exact hop.elim
  | drop _ => exact hop.elim
  | run _ _ => exact hop.elim
  | recv tx =>
      simp only [step] at h
      split at h
      · exact absurd h (by simp)
      · rename_i c hc
        split at h
        · obtain rfl := Option.some.inj h
          exact ⟨rfl, congrArg Roll.entries (roll_setSession_of_entry hc rfl), rfl, rfl,
            fun _ _ _ h => h⟩
        · exact absurd h (by simp)
  | close tx =>
      simp only [step] at h
      split at h
      · exact absurd h (by simp)
      · rename_i c hc
        split at h
        · exact absurd h (by simp)
        · obtain rfl := Option.some.inj h
          exact ⟨rfl, congrArg Roll.entries (roll_setSession_of_entry hc rfl), rfl, rfl,
            fun _ _ _ h => h⟩
  | takeProbe id clientId capability candidates =>
      simp only [step] at h
      split at h
      · obtain rfl := Option.some.inj h
        exact ⟨rfl, rfl, rfl, rfl, fun _ _ _ h => (List.mem_cons.mp h).resolve_left (by simp)⟩
      · exact absurd h (by simp)
  | takeRelayLeg id clientId capability =>
      simp only [step] at h
      split at h
      · obtain rfl := Option.some.inj h
        exact ⟨rfl, rfl, rfl, rfl, fun _ _ _ h => (List.mem_cons.mp h).resolve_left (by simp)⟩
      · exact absurd h (by simp)
  | openFlow table clientId proto port addrs =>
      simp only [step] at h
      split at h
      · exact absurd h (by simp)
      · obtain rfl := Option.some.inj h
        exact ⟨rfl, rfl, rfl, rfl, fun _ _ _ h => h⟩
  | unpark table id =>
      obtain rfl := Option.some.inj h
      exact ⟨rfl, rfl, rfl, rfl, fun _ _ _ h => h⟩

theorem kept_step (hs : s.roll.Kept) {op : BrokerOp} (h : s.step op = some t) :
  t.roll.Kept
  := by
  have haside (hop : Aside op) : t.roll.Kept := by
    obtain ⟨hclients, hentries, hpairs, hnext, hlog⟩ := roll_of_aside hop h
    refine hs.fades ⟨hclients, hentries, ?_, hnext.ge, hlog⟩
    intro i p hp
    change t.rv.pairs.lookup i = some p at hp
    rw [hpairs] at hp
    exact ⟨p, hp, sameParties_refl p⟩
  cases op with
  | register clientId transport peer bridgeCapability held =>
      obtain rfl := Option.some.inj h
      exact kept_register hs clientId transport peer bridgeCapability held
  | work tx draws => exact kept_work hs h
  | run i draws => exact kept_run hs h
  | serve tx =>
      obtain ⟨c, hc, -, hidle, rfl⟩ := advance_eq_some h
      exact kept_stage hs hc hidle (by simp) fun _ => rfl
  | frame tx msg proving draws =>
      obtain ⟨c, hc, hserving, -, rfl⟩ := advance_eq_some h
      exact kept_handleControlFrame hs hc hserving proving draws msg
  | leave tx =>
      obtain ⟨c, hc, hserving, hidle, rfl⟩ := advance_eq_some h
      exact kept_leave hs hc hserving hidle
  | drop tx =>
      obtain ⟨c, hc, hending, hidle, rfl⟩ := advance_eq_some h
      apply kept_stage hs hc hidle (by simp)
      rintro ⟨k, hk, hktx⟩
      -- The registry has no session that is ending.
      obtain ⟨e, he, -, hstage, -⟩ := hs.owner c.clientId k hk
      rw [hktx, getElem?_entries hc] at he
      rw [← Option.some.inj he, ControlSession.entry, hending] at hstage
      exact absurd hstage (by simp)
  | _ => exact haside trivial

theorem owing_step (hs : s.roll.Owing) {op : BrokerOp} (hunowed : s.Unowed op)
    (h : s.step op = some t) :
  t.roll.Owing
  := by
  have haside (hop : Aside op) : t.roll.Owing := by
    obtain ⟨hclients, hentries, -⟩ := roll_of_aside hop h
    exact owing_of_eq hs hclients hentries
  cases op with
  | register clientId transport peer bridgeCapability held =>
      obtain rfl := Option.some.inj h
      exact owing_register hs hunowed
  | work tx draws => exact owing_work hs h
  | run i draws => exact owing_run hs h
  | serve tx =>
      obtain ⟨c, hc, -, hidle, rfl⟩ := advance_eq_some h
      exact owing_stage hs hc hidle .serving
  | frame tx msg proving draws =>
      obtain ⟨c, hc, hserving, -, rfl⟩ := advance_eq_some h
      exact owing_handleControlFrame hs hc hserving proving draws msg
  | leave tx =>
      obtain ⟨c, hc, -, hidle, rfl⟩ := advance_eq_some h
      exact owing_leave hs hc hidle
  | drop tx =>
      obtain ⟨c, hc, -, hidle, rfl⟩ := advance_eq_some h
      exact owing_stage hs hc hidle .ended
  | _ => exact haside trivial

theorem kept_init :
  init.roll.Kept
  := by
  refine ⟨?_, ?_, ?_, ?_⟩
  · intro x h hx
    exact absurd hx (by simp [roll, init])
  · intro x h j e hx
    exact absurd hx (by simp [roll, init])
  · intro i a b hmem
    exact absurd hmem (by simp [roll, init])
  · intro i p a b hp
    exact absurd hp (by simp [roll, init])

/-- The end of a session is complete: it is not registered, and neither its own task nor that of
the next session of its client has still to remove pairs for it. -/
def Over (s : Broker) (clientId : String) (tx : ℕ) : Prop :=
  ¬ Owned s.rv.clients clientId tx ∧ ¬ s.roll.Leaving clientId tx
    ∧ ¬ s.roll.Superseded clientId tx

/-- No pair outlives the end of a session that it was accepted for. -/
theorem pairs_end_with_sessions {ops : List BrokerOp}
    (hrun : Run (fun s op t => s.step op = some t) init ops s) (hc : s.sessions[tx]? = some c)
    (hover : s.Over c.clientId tx) {i : ℕ} {p : Pair} (hp : s.rv.pairs.lookup i = some p)
    {consumerTx providerTx : ℕ} (haccepted : .accepted i consumerTx providerTx ∈ s.log) :
  consumerTx ≠ tx ∧ providerTx ≠ tx
  := by
  have hs : s.roll.Kept := by
    apply hrun.invariant kept_init
    intro s op t hs hstep
    exact kept_step hs hstep
  have hended {x : String} (hbacked : s.roll.Backed x tx) : False := by
    obtain ⟨⟨e, he, hid⟩, hwhy⟩ := hbacked
    rw [getElem?_entries hc] at he
    obtain rfl := Option.some.inj he
    obtain rfl : c.clientId = x := hid
    rcases hwhy with howned | hleaving | hsuperseded
    · exact hover.1 howned
    · exact hover.2.1 hleaving
    · exact hover.2.2 hsuperseded
  obtain ⟨hconsumer, hprovider⟩ := hs.backed i p consumerTx providerTx hp haccepted
  constructor
  · rintro rfl
    exact hended hconsumer
  · rintro rfl
    exact hended hprovider

/-- A session asks to be paired with the client "b", and is. -/
def pairs (tx : ℕ) : List BrokerOp :=
  let capability : Capability := Bytes.zero 32
  [.frame tx (.peerConnect (List.Vector.replicate 32 1) providesExit)
      ⟨.ok (Bytes.zero 32, Bytes.zero 32), true⟩ (some capability, none),
    .work tx (none, none), .work tx (some capability, some capability),
    .work tx (none, none), .work tx (none, none), .work tx (none, none)]

/-- A client is paired, ends its session, and is paired again in its next one. -/
def rejoined : List BrokerOp :=
  arrives 0 "a" (Bytes.zero 32) ++ arrives 1 "b" (List.Vector.replicate 32 1) ++ pairs 0
    ++ [.leave 0, .work 0 (none, none), .work 0 (none, none), .work 0 (none, none), .drop 0]
    ++ arrives 2 "a" (Bytes.zero 32) ++ pairs 2

/-- Nothing is left to be removed for a session that is not registered, when no session has
anything left to do. -/
theorem over_of_idle (hidle : ∀ c ∈ s.sessions, c.todo = []) {clientId : String}
    (hgone : ¬ Owned s.rv.clients clientId tx) :
  s.Over clientId tx
  := by
  have howed {j : ℕ} {e : Entry} (he : s.roll.entries[j]? = some e) : clientId ∉ e.owed := by
    obtain ⟨c, hc, rfl⟩ := List.mem_map.mp (List.mem_of_getElem? he)
    rw [ControlSession.entry, hidle c hc]
    exact List.not_mem_nil
  refine ⟨hgone, ?_, ?_⟩
  · rintro ⟨e, he, -, hmem⟩
    exact howed he hmem
  · rintro ⟨j, e, he, -, -, -, hmem⟩
    exact howed he hmem

/-- The pair of the session that has ended is gone, and that of the next one is there. -/
theorem pairs_end_with_sessions_rejoined :
  ∃ s c p, Run (fun s op t => s.step op = some t) init rejoined s ∧ s.sessions[0]? = some c
    ∧ s.Over c.clientId 0 ∧ .accepted 1 0 1 ∈ s.log ∧ s.rv.pairs.lookup 1 = none
    ∧ .accepted 4 2 1 ∈ s.log ∧ s.rv.pairs.lookup 4 = some p ∧ 2 ≠ 0 ∧ 1 ≠ 0
  := by
  have hview : ∃ s ∈ execute (fun _ _ => True) step init rejoined,
      (∃ c ∈ s.sessions[0]?, c.clientId = "a") ∧ (∀ c ∈ s.sessions, c.todo = [])
        ∧ ¬ Owned s.rv.clients "a" 0 ∧ .accepted 1 0 1 ∈ s.log ∧ s.rv.pairs.lookup 1 = none
        ∧ .accepted 4 2 1 ∈ s.log ∧ ∃ p ∈ s.rv.pairs.lookup 4, p.consumerId = "a" := by
    decide +kernel
  obtain ⟨s, hs, ⟨c, hc, hid⟩, hidle, hgone, hfirst, hnone, hsecond, p, hp, -⟩ := hview
  have hrun := (run_of_execute hs).mono fun _ _ _ h => h.2
  have hover : s.Over c.clientId 0 := by
    rw [hid]
    exact over_of_idle hidle hgone
  exact ⟨s, c, p, hrun, hc, hover, hfirst, hnone, hsecond, hp,
    pairs_end_with_sessions hrun hc hover hp hsecond⟩

/-- The removal of the pairs of a client leaves the others. -/
theorem lookup_work {draws : Draws} {x : String} {todo : List Errand}
    (hc : s.sessions[tx]? = some c) (htodo : c.todo = .invalidate x :: todo)
    (h : s.work tx draws = some t) {i : ℕ} {p : Pair} (hp : s.rv.pairs.lookup i = some p)
    (hjoins : ¬ p.Joins x) :
  t.rv.pairs.lookup i = some p
  := by
  have hrv : (s.note c (.invalidate x)).rv = s.rv := by
    unfold note
    dsimp only
    split <;> rfl
  rw [work, hc] at h
  dsimp only at h
  rw [htodo] at h
  obtain rfl := Option.some.inj h
  apply (Table.lookup_retain _ _ _ _).mpr
  refine ⟨?_, by simpa using hjoins⟩
  rw [← hp, ← hrv]
  rfl

/-- Whoever registers or ends, and removes the pairs of its client, is not registered for them. -/
theorem not_owned_of_owed (howing : s.roll.Owing) (hc : s.sessions[tx]? = some c)
    (hstage : c.stage ≠ .serving) {x : String}
    (howed : .invalidate x ∈ c.todo) {tx' : ℕ} (hserved : s.roll.Served tx') :
  ¬ Owned s.rv.clients x tx'
  := by
  have howes : x ∈ c.entry.owed := List.mem_filterMap.mpr ⟨_, howed, rfl⟩
  obtain ⟨rfl, hwhy⟩ := howing tx c.entry x (getElem?_entries hc) hstage howes
  rintro ⟨k, hk, rfl⟩
  rcases hwhy with ⟨hregistering, k', hk', hktx⟩ | ⟨-, hnone⟩
  · -- The session itself is the one that is registered, and no pair was accepted for it yet.
    obtain rfl := Option.some.inj (hk.symm.trans hk')
    obtain ⟨e, he, hne⟩ := hserved
    rw [hktx, getElem?_entries hc] at he
    exact hne (Option.some.inj he ▸ hregistering)
  · exact absurd (hnone.symm.trans hk) (by simp)

/-- In a run in which no session is registered while the pairs of its client are still to be
removed, a session that registers or ends removes no pair of two sessions that are registered. -/
theorem endings_isolated {ops : List BrokerOp}
    (hrun : Run (Meeting Unowed fun s op t => s.step op = some t) init ops s)
    (hc : s.sessions[tx]? = some c) (hstage : c.stage ≠ .serving) {x : String}
    {todo : List Errand} (htodo : c.todo = .invalidate x :: todo) {draws : Draws}
    (hstep : s.step (.work tx draws) = some t) {i : ℕ} {p : Pair}
    (hp : s.rv.pairs.lookup i = some p) {consumerTx providerTx : ℕ}
    (haccepted : .accepted i consumerTx providerTx ∈ s.log)
    (hconsumer : Owned s.rv.clients p.consumerId consumerTx)
    (hprovider : Owned s.rv.clients p.providerId providerTx) :
  t.rv.pairs.lookup i = some p
  := by
  obtain ⟨hkept, howing⟩ : s.roll.Kept ∧ s.roll.Owing := by
    refine hrun.invariant (I := fun s => s.roll.Kept ∧ s.roll.Owing) ⟨kept_init, ?_⟩ ?_
    · intro j e x he
      exact absurd he (by simp [roll, init])
    · rintro s op t ⟨hkept, howing⟩ ⟨hunowed, hstep⟩
      exact ⟨kept_step hkept hstep, owing_step howing hunowed hstep⟩
  obtain ⟨-, hservedConsumer, hservedProvider⟩ := hkept.accepted i consumerTx providerTx haccepted
  have howed : .invalidate x ∈ c.todo := by
    rw [htodo]
    exact List.mem_cons_self
  apply lookup_work hc htodo hstep hp
  rintro (rfl | rfl)
  · exact not_owned_of_owed howing hc hstage howed hservedConsumer hconsumer
  · exact not_owned_of_owed howing hc hstage howed hservedProvider hprovider

/-- Two clients are paired, and a third one ends its session. -/
def parted : List BrokerOp :=
  arrives 0 "a" (Bytes.zero 32) ++ arrives 1 "b" (List.Vector.replicate 32 1)
    ++ arrives 2 "c" (List.Vector.replicate 32 2) ++ pairs 0 ++ [.leave 2]

/-- The end of a session leaves the pair of two others. -/
theorem endings_isolated_parted :
  ∃ s t c p, Run (Meeting Unowed fun s op t => s.step op = some t) init parted s
    ∧ s.sessions[2]? = some c ∧ c.stage ≠ .serving ∧ c.todo = [.invalidate "c"]
    ∧ s.step (.work 2 (none, none)) = some t ∧ s.rv.pairs.lookup 1 = some p
    ∧ .accepted 1 0 1 ∈ s.log ∧ Owned s.rv.clients p.consumerId 0
    ∧ Owned s.rv.clients p.providerId 1 ∧ t.rv.pairs.lookup 1 = some p
  := by
  have hview : ∃ s ∈ execute Unowed step init parted,
      (∃ c ∈ s.sessions[2]?, c.stage ≠ .serving ∧ c.todo = [.invalidate "c"])
        ∧ (s.step (.work 2 (none, none))).isSome ∧ .accepted 1 0 1 ∈ s.log
        ∧ ∃ p ∈ s.rv.pairs.lookup 1, Owned s.rv.clients p.consumerId 0
          ∧ Owned s.rv.clients p.providerId 1 := by
    decide +kernel
  obtain ⟨s, hs, ⟨c, hc, hstage, htodo⟩, hsome, haccepted, p, hp, hconsumer, hprovider⟩ := hview
  obtain ⟨t, hstep⟩ := Option.isSome_iff_exists.mp hsome
  have hrun := run_of_execute hs
  exact ⟨s, t, c, p, hrun, hc, hstage, htodo, hstep, hp, haccepted, hconsumer, hprovider,
    endings_isolated hrun hc hstage htodo hstep hp haccepted hconsumer hprovider⟩

end Broker

end ZeroNat

import ZeroNat.Server.Brokered

/-!
# The end of a session

A session that ends, or is superseded by another of the same client, leaves the registry first.
The pairs of its client are removed later, by the id of the client, and a new session of the
client may have been registered and paired in between.

What matters of a session is its client, its stage, and the clients whose pairs its task has
still to remove.
-/

namespace ZeroNat

/-- A session as the others see it. -/
structure Entry where
  clientId : String
  stage : ControlStage
  owed : List String
deriving DecidableEq

/-- The client whose pairs are to be removed. -/
def Errand.invalidates : Errand → Option String
  | invalidate clientId => some clientId
  | _ => none

def ControlSession.entry (c : ControlSession) : Entry where
  clientId := c.clientId
  stage := c.stage
  owed := c.todo.filterMap Errand.invalidates

/-- The sessions, with what they share. -/
structure Roll where
  clients : Table String ClientHandle
  pairs : Table ℕ Pair
  log : List BrokerEvent
  nextId : ℕ
  entries : List Entry

namespace Roll

variable {r r' : Roll}

/-- The session `tx'` is the next one of a client after `tx`. -/
def Next (r : Roll) (clientId : String) (tx tx' : ℕ) : Prop :=
  tx < tx' ∧ ∀ j e, tx < j → j < tx' → r.entries[j]? = some e → e.clientId ≠ clientId

/-- The task of a session has still to remove the pairs of its client, because it ends. -/
def Leaving (r : Roll) (clientId : String) (tx : ℕ) : Prop :=
  ∃ e, r.entries[tx]? = some e ∧ e.stage = .ending ∧ clientId ∈ e.owed

/-- The next session of the client has still to remove the pairs of the client, because it has
superseded this one. -/
def Superseded (r : Roll) (clientId : String) (tx : ℕ) : Prop :=
  ∃ tx' e, r.entries[tx']? = some e ∧ e.clientId = clientId ∧ r.Next clientId tx tx'
    ∧ e.stage = .registering ∧ clientId ∈ e.owed

/-- A session is registered, or its end is not complete. -/
def Backed (r : Roll) (clientId : String) (tx : ℕ) : Prop :=
  (∃ e, r.entries[tx]? = some e ∧ e.clientId = clientId)
    ∧ (Owned r.clients clientId tx ∨ r.Leaving clientId tx ∨ r.Superseded clientId tx)

/-- The session has come so far that a pair may have been accepted for it. -/
def Served (r : Roll) (tx : ℕ) : Prop :=
  ∃ e, r.entries[tx]? = some e ∧ e.stage ≠ .registering

/-- What holds of the sessions: the registry has the last session of a client, and every pair is
that of sessions that are registered, or whose end is not complete. -/
structure Kept (r : Roll) : Prop where
  owner : ∀ x h, r.clients.lookup x = some h → ∃ e, r.entries[h.tx]? = some e ∧ e.clientId = x
    ∧ (e.stage = .registering ∨ e.stage = .serving)
    ∧ (h.peerIdentity ≠ none → e.stage = .serving)
  last : ∀ x h j e, r.clients.lookup x = some h → h.tx < j → r.entries[j]? = some e →
    e.clientId ≠ x
  accepted : ∀ i consumerTx providerTx, .accepted i consumerTx providerTx ∈ r.log →
    i < r.nextId ∧ r.Served consumerTx ∧ r.Served providerTx
  backed : ∀ i p consumerTx providerTx, r.pairs.lookup i = some p →
    .accepted i consumerTx providerTx ∈ r.log →
      r.Backed p.consumerId consumerTx ∧ r.Backed p.providerId providerTx

/-- A session that is registering or ending has to remove the pairs of its own client only, and no
other session of the client has been registered since. -/
def Owing (r : Roll) : Prop :=
  ∀ j e x, r.entries[j]? = some e → e.stage ≠ .serving → x ∈ e.owed → x = e.clientId
    ∧ (e.stage = .registering ∧ Owned r.clients x j
      ∨ e.stage = .ending ∧ r.clients.lookup x = none)

/-! ### Where nothing changes for the sessions -/

/-- The pairs may go, and nothing else changes. -/
structure Fades (r r' : Roll) : Prop where
  clients : r'.clients = r.clients
  entries : r'.entries = r.entries
  pairs : Ledger.Traces Ledger.SameParties r.pairs r'.pairs
  nextId : r.nextId ≤ r'.nextId
  log : ∀ i consumerTx providerTx, .accepted i consumerTx providerTx ∈ r'.log →
    .accepted i consumerTx providerTx ∈ r.log

theorem Kept.fades (h : r.Kept) (hfades : Fades r r') :
  r'.Kept
  := by
  have hbacked {x : String} {tx : ℕ} (hx : r.Backed x tx) : r'.Backed x tx := by
    rw [Backed, Leaving, Superseded] at hx ⊢
    simp only [Next] at hx ⊢
    rw [hfades.clients, hfades.entries]
    exact hx
  refine ⟨?_, ?_, ?_, ?_⟩
  · rw [hfades.clients, hfades.entries]
    exact h.owner
  · rw [hfades.clients, hfades.entries]
    exact h.last
  · intro i consumerTx providerTx hmem
    obtain ⟨hlt, hconsumer, hprovider⟩ := h.accepted i _ _ (hfades.log i _ _ hmem)
    rw [Served, Served, hfades.entries]
    exact ⟨hlt.trans_le hfades.nextId, hconsumer, hprovider⟩
  · intro i p' consumerTx providerTx hp' hmem
    obtain ⟨p, hp, hsame⟩ := hfades.pairs i p' hp'
    rw [hsame.1, hsame.2.1]
    obtain ⟨hconsumer, hprovider⟩ := h.backed i p _ _ hp (hfades.log i _ _ hmem)
    exact ⟨hbacked hconsumer, hbacked hprovider⟩

/-! ### A session changes -/

section Change

variable {tx : ℕ} {e e' : Entry}

/-- The roll with another entry for a session. -/
def setEntry (r : Roll) (tx : ℕ) (e : Entry) : Roll :=
  { r with entries := r.entries.set tx e }

theorem getElem?_setEntry (he : r.entries[tx]? = some e) (e' : Entry) (j : ℕ) :
  (r.setEntry tx e').entries[j]? = if j = tx then some e' else r.entries[j]?
  := List.getElem?_set_of_some he e'

/-- The entries before and after are those of the same clients. -/
theorem clientId_setEntry (he : r.entries[tx]? = some e) (hid : e'.clientId = e.clientId) {j : ℕ}
    {f : Entry} (hf : (r.setEntry tx e').entries[j]? = some f) :
  ∃ g, r.entries[j]? = some g ∧ f.clientId = g.clientId
  := by
  rw [getElem?_setEntry he] at hf
  split at hf
  · rename_i heq
    obtain rfl := Option.some.inj hf
    exact ⟨e, heq ▸ he, hid⟩
  · exact ⟨f, hf, rfl⟩

/-- A session stays backed when what the changed one owes for its client is still owed. -/
theorem Backed.setEntry {x : String} {tx' : ℕ} (h : r.Backed x tx')
    (he : r.entries[tx]? = some e) (hid : e'.clientId = e.clientId)
    (hkeep : e.stage ≠ .serving → x ∈ e.owed → x ∈ e'.owed ∧ e'.stage = e.stage) :
  (r.setEntry tx e').Backed x tx'
  := by
  obtain ⟨⟨g, hg, hgid⟩, hwhy⟩ := h
  constructor
  · rw [getElem?_setEntry he]
    split
    · rename_i heq
      subst heq
      obtain rfl := Option.some.inj (he.symm.trans hg)
      exact ⟨e', rfl, hid.trans hgid⟩
    · exact ⟨g, hg, hgid⟩
  · rcases hwhy with howned | ⟨f, hf, hstage, howed⟩ | ⟨tx₂, f, hf, hfid, hnext, hstage, howed⟩
    · exact Or.inl howned
    · refine Or.inr (Or.inl ?_)
      rw [Leaving, getElem?_setEntry he]
      split
      · rename_i heq
        subst heq
        obtain rfl := Option.some.inj (he.symm.trans hf)
        obtain ⟨howed', hstage'⟩ := hkeep (by simp [hstage]) howed
        exact ⟨e', rfl, hstage'.trans hstage, howed'⟩
      · exact ⟨f, hf, hstage, howed⟩
    · refine Or.inr (Or.inr ?_)
      have hnext' : (r.setEntry tx e').Next x tx' tx₂ := by
        refine ⟨hnext.1, ?_⟩
        intro j k hgt hlt hk
        obtain ⟨k', hk', hkid⟩ := clientId_setEntry he hid hk
        rw [hkid]
        exact hnext.2 j k' hgt hlt hk'
      by_cases heq : tx₂ = tx
      · subst heq
        obtain rfl := Option.some.inj (he.symm.trans hf)
        obtain ⟨howed', hstage'⟩ := hkeep (by simp [hstage]) howed
        exact ⟨tx₂, e', by rw [getElem?_setEntry he, if_pos rfl], hid.trans hfid, hnext',
          hstage'.trans hstage, howed'⟩
      · exact ⟨tx₂, f, by rw [getElem?_setEntry he, if_neg heq, hf], hfid, hnext', hstage, howed⟩

theorem Served.setEntry {tx' : ℕ} (h : r.Served tx') (he : r.entries[tx]? = some e)
    (hserved : e.stage ≠ .registering → e'.stage ≠ .registering) :
  (r.setEntry tx e').Served tx'
  := by
  obtain ⟨f, hf, hstage⟩ := h
  rw [Served, getElem?_setEntry he]
  split
  · rename_i heq
    subst heq
    obtain rfl := Option.some.inj (he.symm.trans hf)
    exact ⟨e', rfl, hserved hstage⟩
  · exact ⟨f, hf, hstage⟩

/-- A session changes, and what it owed is still owed, or there is no pair it is owed for. -/
theorem Kept.setEntry (h : r.Kept) (he : r.entries[tx]? = some e)
    (hid : e'.clientId = e.clientId)
    (hkeep : ∀ x, e.stage ≠ .serving → x ∈ e.owed → (x ∈ e'.owed ∧ e'.stage = e.stage)
      ∨ ∀ i p, r.pairs.lookup i = some p → ¬ p.Joins x)
    (hserved : e.stage ≠ .registering → e'.stage ≠ .registering)
    (howner : Owned r.clients e.clientId tx → e'.stage = e.stage ∨ e'.stage = .serving) :
  (r.setEntry tx e').Kept
  := by
  refine ⟨?_, ?_, ?_, ?_⟩
  · intro x k hk
    obtain ⟨f, hf, hfid, hstage, hidentity⟩ := h.owner x k hk
    rw [getElem?_setEntry he]
    split
    · rename_i heq
      obtain rfl := Option.some.inj (he.symm.trans (heq ▸ hf))
      refine ⟨e', rfl, hid.trans hfid, ?_, ?_⟩
      · rcases howner (hfid ▸ ⟨k, hk, heq⟩) with hsame | hserving
        · rw [hsame]
          exact hstage
        · exact Or.inr hserving
      · intro hproved
        rcases howner (hfid ▸ ⟨k, hk, heq⟩) with hsame | hserving
        · rw [hsame]
          exact hidentity hproved
        · exact hserving
    · exact ⟨f, hf, hfid, hstage, hidentity⟩
  · intro x k j f hk hlt hf
    obtain ⟨g, hg, hgid⟩ := clientId_setEntry he hid hf
    rw [hgid]
    exact h.last x k j g hk hlt hg
  · intro i consumerTx providerTx hmem
    obtain ⟨hlt, hconsumer, hprovider⟩ := h.accepted i consumerTx providerTx hmem
    exact ⟨hlt, hconsumer.setEntry he hserved, hprovider.setEntry he hserved⟩
  · intro i p consumerTx providerTx hp hmem
    obtain ⟨hconsumer, hprovider⟩ := h.backed i p consumerTx providerTx hp hmem
    constructor
    · refine hconsumer.setEntry he hid ?_
      intro hstage hx
      exact (hkeep _ hstage hx).resolve_right fun hnone => hnone i p hp (Or.inl rfl)
    · refine hprovider.setEntry he hid ?_
      intro hstage hx
      exact (hkeep _ hstage hx).resolve_right fun hnone => hnone i p hp (Or.inr rfl)

/-- A session changes without owing anything new. -/
theorem Owing.setEntry (h : r.Owing) (he : r.entries[tx]? = some e)
    (hid : e'.clientId = e.clientId)
    (howed : ∀ x ∈ e'.owed, e'.stage ≠ .serving → x ∈ e.owed ∧ e'.stage = e.stage) :
  (r.setEntry tx e').Owing
  := by
  intro j f x hf hstage hx
  rw [getElem?_setEntry he] at hf
  split at hf
  · rename_i heq
    subst heq
    obtain rfl := Option.some.inj hf
    obtain ⟨hx', hsame⟩ := howed x hx hstage
    rw [hid, hsame]
    exact h j e x he (hsame ▸ hstage) hx'
  · exact h j f x hf hstage hx

/-- A session leaves the registry, and is to remove the pairs of its client. -/
theorem Kept.leave (h : r.Kept) (he : r.entries[tx]? = some e) (hserving : e.stage = .serving)
    (howned : Owned r.clients e.clientId tx) :
  Kept { r.setEntry tx ⟨e.clientId, .ending, [e.clientId]⟩ with
    clients := r.clients.erase e.clientId }
  := by
  obtain ⟨k, hk, htx⟩ := howned
  have hentry (j : ℕ) := getElem?_setEntry he ⟨e.clientId, .ending, [e.clientId]⟩ j
  have hother {x : String} {k' : ClientHandle}
      (hk' : (r.clients.erase e.clientId).lookup x = some k') :
      x ≠ e.clientId ∧ r.clients.lookup x = some k' := by
    rw [Table.lookup_erase_eq] at hk'
    split at hk'
    · exact absurd hk' (by simp)
    · exact ⟨‹_›, hk'⟩
  -- Whoever was backed by the registry is backed by the session that leaves, or stays there.
  have hbacked {x : String} {tx' : ℕ} (hx : r.Backed x tx') :
      Backed { r.setEntry tx ⟨e.clientId, .ending, [e.clientId]⟩ with
        clients := r.clients.erase e.clientId } x tx' := by
    have hset : (r.setEntry tx ⟨e.clientId, .ending, [e.clientId]⟩).Backed x tx' :=
      hx.setEntry he rfl fun hstage _ => absurd hserving hstage
    obtain ⟨hsession, hwhy⟩ := hset
    refine ⟨hsession, ?_⟩
    rcases hwhy with ⟨k', hk', htx'⟩ | hwhy
    · change r.clients.lookup x = some k' at hk'
      by_cases heq : x = e.clientId
      · subst heq
        obtain rfl := Option.some.inj (hk.symm.trans hk')
        refine Or.inr (Or.inl ⟨⟨e.clientId, .ending, [e.clientId]⟩, ?_, rfl,
          List.mem_singleton_self _⟩)
        rw [← htx', htx]
        exact (hentry tx).trans (if_pos rfl)
      · refine Or.inl ⟨k', ?_, htx'⟩
        change (r.clients.erase e.clientId).lookup x = some k'
        rw [Table.lookup_erase_eq, if_neg heq, hk']
    · exact Or.inr hwhy
  refine ⟨?_, ?_, ?_, ?_⟩
  · intro x k' hk'
    obtain ⟨hne, hk'⟩ := hother hk'
    obtain ⟨f, hf, hfid, hstage⟩ := h.owner x k' hk'
    have hne' : k'.tx ≠ tx := by
      intro heq
      obtain rfl := Option.some.inj (he.symm.trans (heq ▸ hf))
      exact hne hfid.symm
    exact ⟨f, by rw [show _ = _ from hentry k'.tx, if_neg hne', hf], hfid, hstage⟩
  · intro x k' j f hk' hlt hf
    obtain ⟨g, hg, hgid⟩ := clientId_setEntry he (by rfl) hf
    rw [hgid]
    exact h.last x k' j g (hother hk').2 hlt hg
  · intro i consumerTx providerTx hmem
    obtain ⟨hlt, hconsumer, hprovider⟩ := h.accepted i consumerTx providerTx hmem
    exact ⟨hlt, hconsumer.setEntry he (by simp), hprovider.setEntry he (by simp)⟩
  · intro i p consumerTx providerTx hp hmem
    obtain ⟨hconsumer, hprovider⟩ := h.backed i p consumerTx providerTx hp hmem
    exact ⟨hbacked hconsumer, hbacked hprovider⟩

theorem Owing.leave (h : r.Owing) (he : r.entries[tx]? = some e)
    (howned : Owned r.clients e.clientId tx) :
  Owing { r.setEntry tx ⟨e.clientId, .ending, [e.clientId]⟩ with
    clients := r.clients.erase e.clientId }
  := by
  obtain ⟨k, hk, htx⟩ := howned
  intro j f x hf hstage hx
  have hentry := getElem?_setEntry he ⟨e.clientId, .ending, [e.clientId]⟩ j
  rw [show _ = _ from hentry] at hf
  split at hf
  · obtain rfl := Option.some.inj hf
    obtain rfl := List.mem_singleton.mp hx
    exact ⟨rfl, Or.inr ⟨rfl, AList.lookup_erase _ _⟩⟩
  · rename_i hne
    obtain ⟨rfl, howes⟩ := h j f x hf hstage hx
    refine ⟨rfl, ?_⟩
    rcases howes with ⟨hreg, k', hk', htx'⟩ | ⟨hend, hnone⟩
    · have hne' : f.clientId ≠ e.clientId := by
        intro heq
        rw [heq] at hk'
        obtain rfl := Option.some.inj (hk.symm.trans hk')
        exact hne (htx'.symm.trans htx)
      refine Or.inl ⟨hreg, k', ?_, htx'⟩
      change (r.clients.erase e.clientId).lookup f.clientId = some k'
      rw [Table.lookup_erase_eq, if_neg hne', hk']
    · refine Or.inr ⟨hend, ?_⟩
      change (r.clients.erase e.clientId).lookup f.clientId = none
      rw [Table.lookup_erase_eq]
      split
      · rfl
      · exact hnone

end Change

/-! ### Sessions that come, and pairs that are accepted -/

/-- The entries are continued. -/
theorem getElem?_prefix {entries more : List Entry} {j : ℕ} {e : Entry}
    (he : entries[j]? = some e) :
  (entries ++ more)[j]? = some e
  := by
  rw [List.getElem?_append_left (List.getElem?_eq_some_iff.mp he).1]
  exact he

/-- A session is registered.  When it supersedes another, it has to remove the pairs of the
client. -/
theorem Kept.register (h : r.Kept) (clientId : String) {handle : ClientHandle}
    (htx : handle.tx = r.entries.length) (hidentity : handle.peerIdentity = none)
    {owed : List String} (hsuperseded : r.clients.lookup clientId ≠ none → clientId ∈ owed) :
  Kept { r with
    clients := r.clients.insert clientId handle
    entries := r.entries ++ [⟨clientId, .registering, owed⟩] }
  := by
  have hnew : (r.entries ++ [⟨clientId, .registering, owed⟩])[r.entries.length]?
      = some ⟨clientId, .registering, owed⟩ := List.getElem?_concat_length
  have hlookup {x : String} {k : ClientHandle}
      (hk : (r.clients.insert clientId handle).lookup x = some k) :
      (x = clientId ∧ k = handle) ∨ x ≠ clientId ∧ r.clients.lookup x = some k := by
    rw [Table.lookup_insert_eq] at hk
    split at hk
    · exact Or.inl ⟨‹_›, (Option.some.inj hk).symm⟩
    · exact Or.inr ⟨‹_›, hk⟩
  have hentry {j : ℕ} {e : Entry}
      (he : (r.entries ++ [⟨clientId, .registering, owed⟩])[j]? = some e) :
      (j = r.entries.length ∧ e = ⟨clientId, .registering, owed⟩)
        ∨ r.entries[j]? = some e := by
    rw [List.getElem?_append_one] at he
    split at he
    · exact Or.inl ⟨‹_›, (Option.some.inj he).symm⟩
    · exact Or.inr he
  have hkept {x : String} (hne : x ≠ clientId) :
      (r.clients.insert clientId handle).lookup x = r.clients.lookup x := by
    rw [Table.lookup_insert_eq, if_neg hne]
  have hbacked {x : String} {tx' : ℕ} (hx : r.Backed x tx') : Backed { r with
      clients := r.clients.insert clientId handle
      entries := r.entries ++ [⟨clientId, .registering, owed⟩] } x tx' := by
    obtain ⟨⟨g, hg, hgid⟩, hwhy⟩ := hx
    refine ⟨⟨g, getElem?_prefix hg, hgid⟩, ?_⟩
    have hlt := (List.getElem?_eq_some_iff.mp hg).1
    rcases hwhy with ⟨k, hk, hktx⟩ | ⟨f, hf, hstage, howes⟩
      | ⟨tx₂, f, hf, hfid, hnext, hstage, howes⟩
    · by_cases heq : x = clientId
      · -- The session is superseded by the new one, which is the next of its client.
        subst heq
        refine Or.inr (Or.inr ⟨r.entries.length, _, hnew, rfl, ⟨hlt, ?_⟩, rfl, ?_⟩)
        · intro j e' hgt hlt' he'
          rcases hentry he' with ⟨heq, -⟩ | hold
          · exact absurd hlt' (heq ▸ lt_irrefl _)
          · exact h.last x k j e' hk (hktx.symm ▸ hgt) hold
        · exact hsuperseded (by simp [hk])
      · exact Or.inl ⟨k, (hkept heq).trans hk, hktx⟩
    · exact Or.inr (Or.inl ⟨f, getElem?_prefix hf, hstage, howes⟩)
    · refine Or.inr (Or.inr ⟨tx₂, f, getElem?_prefix hf, hfid, ⟨hnext.1, ?_⟩, hstage, howes⟩)
      intro j e' hgt hlt' he'
      rcases hentry he' with ⟨heq, -⟩ | hold
      · exact absurd (List.getElem?_eq_some_iff.mp hf).1 (by omega)
      · exact hnext.2 j e' hgt hlt' hold
  refine ⟨?_, ?_, ?_, ?_⟩
  · intro x k hk
    rcases hlookup hk with ⟨rfl, rfl⟩ | ⟨-, hk⟩
    · exact ⟨_, by rw [htx]; exact hnew, rfl, Or.inl rfl, fun hne => absurd hidentity hne⟩
    · obtain ⟨f, hf, hrest⟩ := h.owner x k hk
      exact ⟨f, getElem?_prefix hf, hrest⟩
  · intro x k j e hk hlt he
    rcases hlookup hk with ⟨rfl, rfl⟩ | ⟨hne, hk⟩
    · rcases hentry he with ⟨heq, -⟩ | hold
      · exact absurd hlt (by omega)
      · exact absurd (List.getElem?_eq_some_iff.mp hold).1 (by omega)
    · rcases hentry he with ⟨-, rfl⟩ | hold
      · exact hne.symm
      · exact h.last x k j e hk hlt hold
  · intro i consumerTx providerTx hmem
    obtain ⟨hlt, ⟨f, hf, hfs⟩, g, hg, hgs⟩ := h.accepted i consumerTx providerTx hmem
    exact ⟨hlt, ⟨f, getElem?_prefix hf, hfs⟩, g, getElem?_prefix hg, hgs⟩
  · intro i p consumerTx providerTx hp hmem
    obtain ⟨hconsumer, hprovider⟩ := h.backed i p consumerTx providerTx hp hmem
    exact ⟨hbacked hconsumer, hbacked hprovider⟩

/-- A session is registered while nobody else has to remove pairs of its client. -/
theorem Owing.register (h : r.Owing) (clientId : String) {handle : ClientHandle}
    (htx : handle.tx = r.entries.length)
    (hunowed : ∀ (j : ℕ) (e : Entry), r.entries[j]? = some e → e.stage ≠ .serving →
      clientId ∉ e.owed)
    {owed : List String} (howed : ∀ x ∈ owed, x = clientId) :
  Owing { r with
    clients := r.clients.insert clientId handle
    entries := r.entries ++ [⟨clientId, .registering, owed⟩] }
  := by
  intro j e x he hstage hx
  change (r.entries ++ [(⟨clientId, .registering, owed⟩ : Entry)])[j]? = some e at he
  rw [List.getElem?_append_one] at he
  split at he
  · rename_i heq
    obtain rfl := Option.some.inj he
    obtain rfl := howed x hx
    exact ⟨rfl, Or.inl ⟨rfl, handle, AList.lookup_insert _, htx.trans heq.symm⟩⟩
  · obtain ⟨rfl, howes⟩ := h j e x he hstage hx
    have hne : e.clientId ≠ clientId := by
      intro heq
      exact hunowed j e he hstage (heq ▸ hx)
    have hkept : (r.clients.insert clientId handle).lookup e.clientId
        = r.clients.lookup e.clientId := by
      rw [Table.lookup_insert_eq, if_neg hne]
    refine ⟨rfl, ?_⟩
    rcases howes with ⟨hreg, k, hk, hktx⟩ | ⟨hend, hnone⟩
    · exact Or.inl ⟨hreg, k, hkept.trans hk, hktx⟩
    · exact Or.inr ⟨hend, hkept.trans hnone⟩

/-- The handles of the clients change, but not which sessions they are of.  Only a session that is
served proves an identity. -/
theorem Kept.setClients (h : r.Kept) {clients : Table String ClientHandle}
    (hnone : ∀ x, r.clients.lookup x = none → clients.lookup x = none)
    (hsome : ∀ x k, r.clients.lookup x = some k → ∃ k', clients.lookup x = some k' ∧ k'.tx = k.tx
      ∧ (k'.peerIdentity ≠ none → k.peerIdentity ≠ none
        ∨ ∀ e, r.entries[k.tx]? = some e → e.stage = .serving)) :
  Kept { r with clients := clients }
  := by
  have hback {x : String} {k' : ClientHandle} (hk' : clients.lookup x = some k') :
      ∃ k, r.clients.lookup x = some k ∧ k'.tx = k.tx ∧ (k'.peerIdentity ≠ none →
        k.peerIdentity ≠ none ∨ ∀ e, r.entries[k.tx]? = some e → e.stage = .serving) := by
    cases hk : r.clients.lookup x with
    | none => exact absurd (hnone x hk) (by simp [hk'])
    | some k =>
        obtain ⟨k'', hk'', hrest⟩ := hsome x k hk
        obtain rfl := Option.some.inj (hk'.symm.trans hk'')
        exact ⟨k, rfl, hrest⟩
  have howned {x : String} {tx : ℕ} (hx : Owned r.clients x tx) : Owned clients x tx := by
    obtain ⟨k, hk, htx⟩ := hx
    obtain ⟨k', hk', htx', -⟩ := hsome x k hk
    exact ⟨k', hk', htx'.trans htx⟩
  refine ⟨?_, ?_, h.accepted, ?_⟩
  · intro x k' hk'
    obtain ⟨k, hk, htx, hidentity⟩ := hback hk'
    obtain ⟨e, he, hid, hstage, hserving⟩ := h.owner x k hk
    refine ⟨e, htx.symm ▸ he, hid, hstage, ?_⟩
    intro hproved
    rcases hidentity hproved with hold | hserved
    · exact hserving hold
    · exact hserved e he
  · intro x k' j e hk' hlt he
    obtain ⟨k, hk, htx, -⟩ := hback hk'
    exact h.last x k j e hk (htx ▸ hlt) he
  · intro i p consumerTx providerTx hp hmem
    obtain ⟨hconsumer, hprovider⟩ := h.backed i p consumerTx providerTx hp hmem
    exact ⟨⟨hconsumer.1, hconsumer.2.imp_left howned⟩,
      ⟨hprovider.1, hprovider.2.imp_left howned⟩⟩

theorem Owing.setClients (h : r.Owing) {clients : Table String ClientHandle}
    (hnone : ∀ x, r.clients.lookup x = none → clients.lookup x = none)
    (hsome : ∀ x k, r.clients.lookup x = some k →
      ∃ k', clients.lookup x = some k' ∧ k'.tx = k.tx) :
  Owing { r with clients := clients }
  := by
  intro j e x he hstage hx
  obtain ⟨hid, howes⟩ := h j e x he hstage hx
  refine ⟨hid, ?_⟩
  rcases howes with ⟨hreg, k, hk, htx⟩ | ⟨hend, hgone⟩
  · obtain ⟨k', hk', htx'⟩ := hsome x k hk
    exact Or.inl ⟨hreg, k', hk', htx'.trans htx⟩
  · exact Or.inr ⟨hend, hnone x hgone⟩

/-- A pair is accepted for two sessions that are registered. -/
theorem Kept.accept (h : r.Kept) (p : Pair) (consumerTx providerTx : ℕ)
    (hconsumer : Owned r.clients p.consumerId consumerTx) (hservedConsumer : r.Served consumerTx)
    (hprovider : Owned r.clients p.providerId providerTx) (hservedProvider : r.Served providerTx) :
  Kept { r with
    pairs := r.pairs.insert r.nextId p
    log := .accepted r.nextId consumerTx providerTx :: r.log
    nextId := r.nextId + 1 }
  := by
  have hregistered {x : String} {tx : ℕ} (hx : Owned r.clients x tx) : r.Backed x tx := by
    obtain ⟨k, hk, htx⟩ := hx
    obtain ⟨e, he, hid, -⟩ := h.owner x k hk
    exact ⟨⟨e, htx ▸ he, hid⟩, Or.inl ⟨k, hk, htx⟩⟩
  refine ⟨h.owner, h.last, ?_, ?_⟩
  · intro i c v hmem
    rcases List.mem_cons.mp hmem with heq | hmem
    · obtain ⟨rfl, rfl, rfl⟩ := BrokerEvent.accepted.inj heq
      exact ⟨Nat.lt_succ_self _, hservedConsumer, hservedProvider⟩
    · obtain ⟨hlt, hserved⟩ := h.accepted i c v hmem
      exact ⟨hlt.trans (Nat.lt_succ_self _), hserved⟩
  · intro i q c v hq hmem
    change (r.pairs.insert r.nextId p).lookup i = some q at hq
    rw [Table.lookup_insert_eq] at hq
    split at hq
    · rename_i hi
      obtain rfl := Option.some.inj hq
      rcases List.mem_cons.mp hmem with heq | hmem
      · obtain ⟨-, rfl, rfl⟩ := BrokerEvent.accepted.inj heq
        exact ⟨hregistered hconsumer, hregistered hprovider⟩
      · exact absurd (h.accepted i c v hmem).1 (hi ▸ lt_irrefl _)
    · rename_i hi
      rcases List.mem_cons.mp hmem with heq | hmem
      · exact absurd (BrokerEvent.accepted.inj heq).1 hi
      · exact h.backed i q c v hq hmem

end Roll

end ZeroNat

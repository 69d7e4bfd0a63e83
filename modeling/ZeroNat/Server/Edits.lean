import ZeroNat.Server.Saves

/-!
# Edits of the clients

What an administrator asks for when a client is added, given another secret or removed, and what
the table of credentials has afterwards.  The list is edited under a lock, and is written back
when the table was built.  An edit that empties the list leaves the clients of the command line
in its place.
-/

namespace ZeroNat

open Config (CfgClient ok_of_bind ok_of_toOption)

/-! ### The table of a list -/

/-- The key that a client of a list has. -/
def KeyOf (seed : Option Seed) (c : CfgClient) (psk : Bytes 32) : Prop :=
  ∃ text secret, (c.secret = some text
      ∨ c.secret = none ∧ ∃ sd, seed = some sd ∧ text = sd.client c.id)
    ∧ Secret.normalize text = .ok secret ∧ psk = derivePsk secret

/-- A table that has one entry for each client of a list, and no other. -/
def TableOf (seed : Option Seed) (list : List CfgClient) (t : ClientCredentials) : Prop :=
  ∃ specs, List.Forall₂ (Resolves seed) list specs ∧ Extends ∅ [] specs t

theorem KeyOf.unique {seed : Option Seed} {c : CfgClient} {psk psk' : Bytes 32}
    (h : KeyOf seed c psk) (h' : KeyOf seed c psk') :
  psk = psk'
  := by
  obtain ⟨text, secret, htext, hsecret, rfl⟩ := h
  obtain ⟨text', secret', htext', hsecret', rfl⟩ := h'
  have heq : text = text' := by
    rcases htext with htext | ⟨hnone, sd, hsd, rfl⟩
    · rcases htext' with htext' | ⟨hnone', -⟩
      · exact Option.some.inj (htext.symm.trans htext')
      · rw [htext] at hnone'
        exact absurd hnone' (by simp)
    · rcases htext' with htext' | ⟨-, sd', hsd', rfl⟩
      · rw [htext'] at hnone
        exact absurd hnone (by simp)
      · rw [Option.some.inj (hsd.symm.trans hsd')]
  rw [heq, hsecret'] at hsecret
  rw [Except.ok.inj hsecret]

/-- The entries of the table of a list. -/
theorem TableOf.lookup_iff {seed : Option Seed} {list : List CfgClient} {t : ClientCredentials}
    (h : TableOf seed list t) (selector : List UInt8) (id : String) (psk : Bytes 32) :
  t.lookup selector = some (id, psk)
    ↔ ∃ c ∈ list, c.id = id ∧ KeyOf seed c psk ∧ selector = clientSelector psk
  := by
  obtain ⟨specs, hresolves, hextends⟩ := h
  constructor
  · intro hlookup
    rcases hextends.only selector _ hlookup with
      hempty | ⟨spec, hspec, secret, hsecret, hentry, hsel⟩
    · rw [AList.lookup_empty] at hempty
      exact absurd hempty (by simp)
    · obtain ⟨c, hc, hid, htext⟩ := Topology.exists_of_forall₂ hresolves.flip hspec
      obtain ⟨rfl, rfl⟩ := Prod.mk.inj hentry
      exact ⟨c, hc, hid.symm, ⟨spec.secret, secret, hid ▸ htext, hsecret, rfl⟩, hsel⟩
  · rintro ⟨c, hc, rfl, hkey, rfl⟩
    obtain ⟨spec, hspec, hid, htext⟩ := Topology.exists_of_forall₂ hresolves hc
    obtain ⟨selector, entry, ⟨secret, hsecret, rfl, rfl⟩, hlookup⟩ := hextends.holds spec hspec
    have hsame : psk = derivePsk secret := hkey.unique ⟨spec.secret, secret, htext, hsecret, rfl⟩
    rw [hsame, ← hid]
    exact hlookup

/-- Every client of a list has a key in its table. -/
theorem TableOf.exists_key {seed : Option Seed} {list : List CfgClient} {t : ClientCredentials}
    (h : TableOf seed list t) {c : CfgClient} (hc : c ∈ list) :
  ∃ psk, KeyOf seed c psk
  := by
  obtain ⟨specs, hresolves, hextends⟩ := h
  obtain ⟨spec, hspec, hid, htext⟩ := Topology.exists_of_forall₂ hresolves hc
  obtain ⟨selector, entry, ⟨secret, hsecret, -, -⟩, -⟩ := hextends.holds spec hspec
  exact ⟨derivePsk secret, spec.secret, secret, htext, hsecret, rfl⟩

theorem TableOf.nodup {seed : Option Seed} {list : List CfgClient} {t : ClientCredentials}
    (h : TableOf seed list t) :
  (list.map CfgClient.id).Nodup
  := by
  obtain ⟨specs, hresolves, hextends⟩ := h
  rw [← ids_of_resolves hresolves]
  exact hextends.distinct

namespace Topology

/-! ### Edits -/

/-- What an administrator asks to change in the list of the clients. -/
inductive ClientEdit where
  | add (clientId : String) (secret : Option (Bytes 32))
  | setSecret (clientId : String) (secret : Option (Bytes 32))
  | remove (clientId : String)
deriving DecidableEq

namespace ClientEdit

def msg : ClientEdit → Msg
  | add clientId secret => .addClient clientId secret
  | setSecret clientId secret => .setClientSecret clientId secret
  | remove clientId => .removeClient clientId

/-- The client that is edited. -/
def target : ClientEdit → String
  | add clientId _ => clientId
  | setSecret clientId _ => clientId
  | remove clientId => clientId

/-- The entry that the list is to have for the client. -/
def entry : ClientEdit → Option CfgClient
  | add clientId secret => some ⟨clientId, secret.map Secret.encode⟩
  | setSecret clientId secret => some ⟨clientId, secret.map Secret.encode⟩
  | remove _ => none

/-- The edit of a list. -/
def on : ClientEdit → List CfgClient → Except String (List CfgClient)
  | add clientId secret => addTo ⟨clientId, secret.map Secret.encode⟩
  | setSecret clientId secret => setSecretIn ⟨clientId, secret.map Secret.encode⟩
  | remove clientId => removeFrom clientId

end ClientEdit

/-- The table is the one of the list that stands for the clients. -/
def Resolved (s : Topology) : Prop :=
  s.resolve s.fileClients = .ok s.credentials

theorem authorized_fileClients (s : Topology) :
  authorized s.fileClients s.cliClients = s.editable
  := rfl

/-- The table of a state is the table of the list an edit starts from. -/
theorem Resolved.tableOf {s : Topology} (h : s.Resolved) :
  TableOf s.seed s.editable s.credentials
  := by
  rw [← authorized_fileClients]
  exact resolve_eq_ok h

theorem setSecretIn_eq_ok {entry : CfgClient} {list next : List CfgClient}
    (h : setSecretIn entry list = .ok next) :
  ∃ front c back, list = front ++ c :: back ∧ c.id = entry.id
    ∧ next = front ++ { c with secret := entry.secret } :: back
  := by
  induction list generalizing next with
  | nil => exact absurd h (by simp [setSecretIn])
  | cons d list ih =>
      rw [setSecretIn] at h
      split at h
      · rename_i hd
        obtain rfl := Except.ok.inj h
        exact ⟨[], d, list, rfl, hd, rfl⟩
      · obtain ⟨rest, hrest, rfl⟩ := Config.ok_of_map h
        obtain ⟨front, c, back, rfl, hid, rfl⟩ := ih hrest
        exact ⟨d :: front, c, back, rfl, hid, rfl⟩

theorem removeFrom_eq_ok {clientId : String} {list next : List CfgClient}
    (h : removeFrom clientId list = .ok next) :
  ∃ front c back, list = front ++ c :: back ∧ c.id = clientId ∧ next = front ++ back
  := by
  induction list generalizing next with
  | nil => exact absurd h (by simp [removeFrom])
  | cons d list ih =>
      rw [removeFrom] at h
      split at h
      · rename_i hd
        obtain rfl := Except.ok.inj h
        exact ⟨[], d, list, rfl, hd, rfl⟩
      · obtain ⟨rest, hrest, rfl⟩ := Config.ok_of_map h
        obtain ⟨front, c, back, rfl, hid, rfl⟩ := ih hrest
        exact ⟨d :: front, c, back, rfl, hid, rfl⟩

/-- Where no id is repeated, the clients around one of them are those with other ids. -/
theorem mem_around_iff {front back : List CfgClient} {c d : CfgClient}
    (h : ((front ++ c :: back).map CfgClient.id).Nodup) :
  d ∈ front ++ back ↔ d ∈ front ++ c :: back ∧ d.id ≠ c.id
  := by
  rw [List.map_append, List.map_cons, List.nodup_middle, List.nodup_cons, ← List.map_append] at h
  simp only [List.mem_append, List.mem_cons]
  constructor
  · intro hd
    refine ⟨by tauto, ?_⟩
    intro hid
    exact h.1 (hid ▸ List.mem_map_of_mem (List.mem_append.mpr hd))
  · rintro ⟨hd | rfl | hd, hne⟩
    · exact Or.inl hd
    · exact absurd rfl hne
    · exact Or.inr hd

/-- The clients of an edited list: all the others as they were, and the entry that was asked
for. -/
theorem mem_of_on {e : ClientEdit} {list next : List CfgClient}
    (h : e.on list = .ok next) (hlist : (list.map CfgClient.id).Nodup) (c : CfgClient) :
  c ∈ next ↔ (c ∈ list ∧ c.id ≠ e.target) ∨ e.entry = some c
  := by
  cases e with
  | add clientId secret =>
      rw [ClientEdit.on, addTo] at h
      split at h
      · exact absurd h (by simp)
      · rename_i hfresh
        obtain rfl := Except.ok.inj h
        simp only [List.any_eq_true, decide_eq_true_eq, not_exists, not_and] at hfresh
        simp only [List.mem_append, List.mem_singleton, ClientEdit.target, ClientEdit.entry,
          Option.some.injEq]
        constructor
        · rintro (hc | rfl)
          · exact Or.inl ⟨hc, hfresh c hc⟩
          · exact Or.inr rfl
        · rintro (⟨hc, -⟩ | rfl)
          · exact Or.inl hc
          · exact Or.inr rfl
  | setSecret clientId secret =>
      obtain ⟨front, d, back, rfl, hid, rfl⟩ := setSecretIn_eq_ok h
      change d.id = clientId at hid
      have hiff := mem_around_iff (d := c) hlist
      rw [hid] at hiff
      have hentry : ({ d with secret := secret.map Secret.encode } : CfgClient)
          = ⟨clientId, secret.map Secret.encode⟩ := by rw [← hid]
      rw [ClientEdit.target, ClientEdit.entry, Option.some.injEq, ← hiff, ← hentry]
      simp only [List.mem_append, List.mem_cons]
      tauto
  | remove clientId =>
      obtain ⟨front, d, back, rfl, hid, rfl⟩ := removeFrom_eq_ok h
      rw [mem_around_iff hlist, hid, ClientEdit.target, ClientEdit.entry]
      simp

/-! ### The edit as it is made -/

/-- What a computation gives, or its early end. -/
def tryGet {α : Type} (x : Except String α) : ExceptT String (StateM Topology) α :=
  ExceptT.mk (pure x)

/-- Edit the list of the clients under its lock.  The table is replaced first and the list then,
and after that the sessions are cancelled. -/
def updateClientsIn (edit : List CfgClient → Except String (List CfgClient)) :
    ExceptT String (StateM Topology) Unit := do
  let s ← get
  let next ← tryGet (edit s.editable)
  let specs ← tryGet (clientSpecs next s.cliClients s.seed)
  let table ← tryGet (clientTable specs s.adminPsk s.discoveryPsk)
  modify fun s => { s with credentials := table }
  modify fun s => { s with fileClients := next }
  modify fun t => t.cancelAll (revoked s.credentials table)

/-- The arms of a mutation that edit the clients. -/
def editClients : ClientEdit → ExceptT String (StateM Topology) Unit
  | .add clientId secret => do
      let s ← get
      let entry ← tryGet (s.clientEntry clientId secret)
      updateClientsIn (addTo entry)
  | .setSecret clientId secret => do
      let s ← get
      let entry ← tryGet (s.clientEntry clientId secret)
      updateClientsIn (setSecretIn entry)
  | .remove clientId => updateClientsIn (removeFrom clientId)

/-- The answer and the state after a change that may fail. -/
def outcome (s : Topology) : Except String Topology → Except String Unit × Topology
  | .ok s' => (.ok (), s')
  | .error e => (.error e, s)

theorem run_get {α : Type} (k : Topology → ExceptT String (StateM Topology) α) (s : Topology) :
  (get >>= k).run s = (k s).run s
  := rfl

theorem run_tryGet_ok {α β : Type} (a : α) (k : α → ExceptT String (StateM Topology) β)
    (s : Topology) :
  (tryGet (.ok a) >>= k).run s = (k a).run s
  := rfl

theorem run_tryGet_error {α β : Type} (e : String) (k : α → ExceptT String (StateM Topology) β)
    (s : Topology) :
  (tryGet (.error e) >>= k).run s = (.error e, s)
  := rfl

theorem error_bind {α β : Type} (e : String) (k : α → Except String β) :
  (Except.error e >>= k) = .error e
  := rfl

theorem ok_bind {α β : Type} (a : α) (k : α → Except String β) :
  (Except.ok a >>= k) = k a
  := rfl

theorem updateClientsIn_run (edit : List CfgClient → Except String (List CfgClient))
    (s : Topology) :
  (updateClientsIn edit).run s = outcome s (s.updateClients edit)
  := by
  unfold updateClientsIn updateClients resolve
  rw [run_get]
  cases edit s.editable with
  | error e =>
      rw [run_tryGet_error]
      rfl
  | ok next =>
      rw [run_tryGet_ok]
      cases hspecs : clientSpecs next s.cliClients s.seed with
      | error e =>
          rw [run_tryGet_error]
          simp only [hspecs, bind, Except.bind, outcome]
      | ok specs =>
          rw [run_tryGet_ok]
          cases htable : clientTable specs s.adminPsk s.discoveryPsk with
          | error e =>
              rw [run_tryGet_error]
              simp only [hspecs, htable, bind, Except.bind, outcome]
          | ok table =>
              rw [run_tryGet_ok]
              simp only [hspecs, htable, bind, Except.bind, outcome]
              rfl

/-- The edit as it is made is the mutation, and an edit that fails leaves everything as it
was. -/
theorem editClients_run (e : ClientEdit) (s : Topology) :
  (editClients e).run s = outcome s (s.applySyncMutation e.msg)
  := by
  cases e with
  | add clientId secret =>
      rw [editClients, run_get, ClientEdit.msg, applySyncMutation]
      cases s.clientEntry clientId secret with
      | error e => rw [run_tryGet_error, error_bind, outcome]
      | ok entry => rw [run_tryGet_ok, ok_bind, updateClientsIn_run]
  | setSecret clientId secret =>
      rw [editClients, run_get, ClientEdit.msg, applySyncMutation]
      cases s.clientEntry clientId secret with
      | error e => rw [run_tryGet_error, error_bind, outcome]
      | ok entry => rw [run_tryGet_ok, ok_bind, updateClientsIn_run]
  | remove clientId =>
      rw [editClients, ClientEdit.msg, applySyncMutation, updateClientsIn_run]

theorem clientEntry_eq_ok {s : Topology} {clientId : String} {secret : Option (Bytes 32)}
    {entry : CfgClient} (h : s.clientEntry clientId secret = .ok entry) :
  entry = ⟨clientId, secret.map Secret.encode⟩ ∧ (secret = none → s.seed ≠ none)
  := by
  rw [clientEntry] at h
  split at h
  · exact absurd h (by simp)
  · rename_i hseed
    exact ⟨(Except.ok.inj h).symm, fun hnone hs => hseed ⟨hnone, hs⟩⟩

/-- An edit that is made: the list is edited, the table of the new list is built, and a client
without a secret takes its credential from the seed. -/
theorem edit_eq_ok {s s' : Topology} {e : ClientEdit} (h : s.applySyncMutation e.msg = .ok s') :
  ∃ next, e.on s.editable = .ok next ∧ s.resolve next = .ok s'.credentials
  := by
  have hupdate : s.updateClients e.on = .ok s' := by
    cases e with
    | add clientId secret =>
        obtain ⟨entry, hentry, h⟩ := ok_of_bind h
        obtain ⟨rfl, -⟩ := clientEntry_eq_ok hentry
        exact h
    | setSecret clientId secret =>
        obtain ⟨entry, hentry, h⟩ := ok_of_bind h
        obtain ⟨rfl, -⟩ := clientEntry_eq_ok hentry
        exact h
    | remove clientId => exact h
  obtain ⟨next, table, hnext, htable, rfl⟩ := updateClients_eq_ok hupdate
  exact ⟨next, hnext, htable⟩

theorem resolved_boot {args : ServerArgs} {file : Config.ServerConfig} {s : Topology}
    (h : boot args file = .ok s) :
  s.Resolved
  := by
  obtain ⟨secret, -, h⟩ := ok_of_bind h
  obtain ⟨discovery, -, h⟩ := ok_of_bind h
  obtain ⟨adminSecret, -, h⟩ := ok_of_bind h
  obtain ⟨specs, hspecs, h⟩ := ok_of_bind h
  obtain ⟨table, htable, h⟩ := ok_of_bind h
  split at h
  · exact absurd h (by simp)
  · split at h
    · exact absurd h (by simp)
    · obtain rfl := Except.ok.inj h
      rw [Resolved, resolve]
      dsimp only
      rw [hspecs]
      exact htable

/-! ### What an edit is to mean -/

/-- The key of a secret that is given, or that the seed derives. -/
def keyFor (seed : Option Seed) (clientId : String) : Option (Bytes 32) → Option (Bytes 32)
  | some secret => some (derivePsk (Secret.encode secret))
  | none => seed.map fun sd => derivePsk (sd.client clientId)

/-- The key that the client is to have after an edit. -/
def ClientEdit.key (seed : Option Seed) : ClientEdit → Option (Bytes 32)
  | add clientId secret => keyFor seed clientId secret
  | setSecret clientId secret => keyFor seed clientId secret
  | remove _ => none

/-- What an edit that was answered means: the table has one entry for each client of the edited
list and no other, the edited client has one entry with its key, or none when it was removed,
and the others have the entries they had. -/
structure Meant (s : Topology) (e : ClientEdit) (s' : Topology) : Prop where
  table : ∃ next, e.on s.editable = .ok next ∧ TableOf s.seed next s'.credentials
  keyed : e.entry ≠ none → e.key s.seed ≠ none
  target : ∀ selector psk, s'.credentials.lookup selector = some (e.target, psk)
    ↔ e.key s.seed = some psk ∧ selector = clientSelector psk
  others : ∀ id ≠ e.target, ∀ selector psk, s'.credentials.lookup selector = some (id, psk)
    ↔ s.credentials.lookup selector = some (id, psk)

/-- The edit removes the last client of the list, and there are clients of the command line that
make a table. -/
def FallsBack (s : Topology) (e : ClientEdit) : Prop :=
  ∃ c, e = .remove c.id ∧ s.editable = [c] ∧ s.cliClients ≠ [] ∧ ∃ t, s.resolve [] = .ok t

theorem keyOf_iff (seed : Option Seed) (clientId : String) (secret : Option (Bytes 32))
    (psk : Bytes 32) :
  KeyOf seed ⟨clientId, secret.map Secret.encode⟩ psk ↔ keyFor seed clientId secret = some psk
  := by
  cases secret with
  | some bytes =>
      simp only [KeyOf, keyFor, Option.map_some, Option.some.injEq, reduceCtorEq, false_and,
        or_false]
      constructor
      · rintro ⟨text, normal, rfl, hnormal, rfl⟩
        rw [Secret.normalize_encode] at hnormal
        rw [Except.ok.inj hnormal]
      · rintro rfl
        exact ⟨_, _, rfl, Secret.normalize_encode bytes, rfl⟩
  | none =>
      simp only [KeyOf, keyFor, Option.map_none, Option.map_eq_some_iff, reduceCtorEq, true_and,
        false_or]
      constructor
      · rintro ⟨text, normal, ⟨sd, rfl, rfl⟩, hnormal, rfl⟩
        rw [Seed.client, Seed.derive, Secret.normalize_encode] at hnormal
        exact ⟨sd, rfl, by rw [Seed.client, Seed.derive, Except.ok.inj hnormal]⟩
      · rintro ⟨sd, rfl, rfl⟩
        exact ⟨_, _, ⟨sd, rfl, rfl⟩, Secret.normalize_encode _, rfl⟩

theorem keyOf_entry_iff (seed : Option Seed) (e : ClientEdit) (psk : Bytes 32) :
  (∃ c, e.entry = some c ∧ KeyOf seed c psk) ↔ e.key seed = some psk
  := by
  cases e with
  | add clientId secret => simp [ClientEdit.entry, ClientEdit.key, keyOf_iff]
  | setSecret clientId secret => simp [ClientEdit.entry, ClientEdit.key, keyOf_iff]
  | remove clientId => simp [ClientEdit.entry, ClientEdit.key]

theorem id_of_entry {e : ClientEdit} {c : CfgClient} (h : e.entry = some c) :
  c.id = e.target
  := by
  cases e with
  | add clientId secret => rw [← Option.some.inj h, ClientEdit.target]
  | setSecret clientId secret => rw [← Option.some.inj h, ClientEdit.target]
  | remove clientId => exact absurd h (by simp [ClientEdit.entry])

/-- With the table of the edited list, an edit means what it says. -/
theorem meant_of_tableOf {s s' : Topology} (hs : s.Resolved) {e : ClientEdit}
    {next : List CfgClient} (hnext : e.on s.editable = .ok next)
    (htable : TableOf s.seed next s'.credentials) :
  Meant s e s'
  := by
  have hmem := mem_of_on hnext hs.tableOf.nodup
  refine ⟨⟨next, hnext, htable⟩, ?_, ?_, ?_⟩
  · intro hentry
    obtain ⟨c, hc⟩ := Option.ne_none_iff_exists'.mp hentry
    obtain ⟨psk, hkey⟩ := htable.exists_key ((hmem c).mpr (Or.inr hc))
    rw [(keyOf_entry_iff s.seed e psk).mp ⟨c, hc, hkey⟩]
    simp
  · intro selector psk
    rw [htable.lookup_iff, ← keyOf_entry_iff]
    constructor
    · rintro ⟨c, hc, hid, hkey, hsel⟩
      rcases (hmem c).mp hc with ⟨-, hne⟩ | hentry
      · exact absurd hid hne
      · exact ⟨⟨c, hentry, hkey⟩, hsel⟩
    · rintro ⟨⟨c, hentry, hkey⟩, hsel⟩
      exact ⟨c, (hmem c).mpr (Or.inr hentry), id_of_entry hentry, hkey, hsel⟩
  · intro id hid selector psk
    rw [htable.lookup_iff, hs.tableOf.lookup_iff]
    constructor
    · rintro ⟨c, hc, rfl, hkey, hsel⟩
      rcases (hmem c).mp hc with ⟨hold, -⟩ | hentry
      · exact ⟨c, hold, rfl, hkey, hsel⟩
      · exact absurd (id_of_entry hentry) hid
    · rintro ⟨c, hc, rfl, hkey, hsel⟩
      exact ⟨c, (hmem c).mpr (Or.inl ⟨hc, hid⟩), rfl, hkey, hsel⟩

/-- Only the removal of the last client empties a list. -/
theorem remove_of_on_nil {e : ClientEdit} {list : List CfgClient} (h : e.on list = .ok []) :
  ∃ c, e = .remove c.id ∧ list = [c]
  := by
  cases e with
  | add clientId secret =>
      rw [ClientEdit.on, addTo] at h
      split at h
      · exact absurd h (by simp)
      · exact absurd (Except.ok.inj h) (by simp)
  | setSecret clientId secret =>
      obtain ⟨front, c, back, -, -, hnil⟩ := setSecretIn_eq_ok h
      exact absurd hnil (by simp)
  | remove clientId =>
      obtain ⟨front, c, back, rfl, rfl, hnil⟩ := removeFrom_eq_ok h
      obtain ⟨rfl, rfl⟩ := List.append_eq_nil_iff.mp hnil.symm
      exact ⟨c, rfl, rfl⟩

/-- The removal of the last client leaves the table of the clients of the command line. -/
theorem exists_removed {s : Topology} {c : CfgClient} {t : ClientCredentials}
    (hlist : s.editable = [c]) (ht : s.resolve [] = .ok t) :
  ∃ s', s.applySyncMutation (ClientEdit.remove c.id).msg = .ok s' ∧ s'.credentials = t
  := by
  have hon : removeFrom c.id s.editable = .ok [] := by
    rw [hlist, removeFrom, if_pos rfl]
  use ({ s with fileClients := [], credentials := t } : Topology).cancelAll
    (revoked s.credentials t)
  constructor
  · rw [ClientEdit.msg, applySyncMutation, updateClients, hon]
    simp only [ht, bind, Except.bind]
  · rfl

/-- Where the clients of the command line make a table in place of the last client, the table
is not that of the edited list. -/
theorem not_meant_of_fallsBack {s : Topology} {e : ClientEdit} (h : s.FallsBack e) :
  ∃ s', s.applySyncMutation e.msg = .ok s' ∧ ¬ Meant s e s'
  := by
  obtain ⟨c, rfl, hlist, hcli, t, ht⟩ := h
  obtain ⟨s', hs', hcredentials⟩ := exists_removed hlist ht
  refine ⟨s', hs', ?_⟩
  rintro ⟨⟨next, hnext, htable⟩, -⟩
  rw [ClientEdit.on, hlist, removeFrom, if_pos rfl] at hnext
  obtain rfl := Except.ok.inj hnext
  have hfallback : TableOf s.seed s.cliClients t := by
    have := resolve_eq_ok ht
    rwa [authorized, if_pos rfl] at this
  obtain ⟨d, cli, hd⟩ := List.exists_cons_of_ne_nil hcli
  have hmem : d ∈ s.cliClients := by
    rw [hd]
    exact List.mem_cons_self
  obtain ⟨psk, hkey⟩ := hfallback.exists_key hmem
  have hlookup := (hfallback.lookup_iff (clientSelector psk) d.id psk).mpr
    ⟨d, hmem, rfl, hkey, rfl⟩
  rw [← hcredentials, htable.lookup_iff] at hlookup
  obtain ⟨c', hc', -⟩ := hlookup
  exact absurd hc' (by simp)

/-- Where the list is not emptied in favour of the command line, an edit that is made means what
it says. -/
theorem meant_of_not_fallsBack {s s' : Topology} (hs : s.Resolved) {e : ClientEdit}
    (h : s.applySyncMutation e.msg = .ok s') (hkept : ¬ s.FallsBack e) :
  Meant s e s'
  := by
  obtain ⟨next, hnext, htable⟩ := edit_eq_ok h
  apply meant_of_tableOf hs hnext
  have hall : authorized next s.cliClients = next := by
    rw [authorized]
    split
    · rename_i hnil
      subst hnil
      by_contra hcli
      obtain ⟨c, rfl, hlist⟩ := remove_of_on_nil hnext
      exact hkept ⟨c, rfl, hlist, hcli, _, htable⟩
    · rfl
  rw [← hall]
  exact resolve_eq_ok htable

/-! ### Every state of a server -/

/-- The states of a server: it boots, binds its listeners, takes mutations, reads the clients of
its file again, and has sessions that come and go. -/
inductive Served : Topology → Prop
  | boot {args : ServerArgs} {file : Config.ServerConfig} {s : Topology}
      (h : boot args file = .ok s) : Served s
  | listen {s s' : Topology} {key : RouteKey} {source : Source} {cliLocked : Bool}
      {bound : Except String Unit} (hs : Served s)
      (h : s.bindListener key source cliLocked bound = .ok s') : Served s'
  | mutation {s s' : Topology} {m : Mutation} (hs : Served s) (h : s.Accepted m s') : Served s'
  | reload {s s' : Topology} {clients : List CfgClient} (hs : Served s)
      (h : s.updateClients (fun _ => .ok clients) = .ok s') : Served s'
  | sessions {s : Topology} (hs : Served s) (clients : Table String ClientHandle)
      (cancelled : List ℕ) : Served { s with clients := clients, cancelled := cancelled }

theorem Resolved.updateClients {s s' : Topology}
    {edit : List CfgClient → Except String (List CfgClient)} (h : s.updateClients edit = .ok s') :
  s'.Resolved
  := by
  obtain ⟨next, table, -, htable, rfl⟩ := updateClients_eq_ok h
  exact htable

theorem Resolved.bindListener {s s' : Topology} (hs : s.Resolved) {key : RouteKey}
    {source : Source} {cliLocked : Bool} {bound : Except String Unit}
    (h : s.bindListener key source cliLocked bound = .ok s') :
  s'.Resolved
  := by
  rw [Topology.bindListener] at h
  split at h
  · exact absurd h (by simp)
  · obtain ⟨-, -, rfl⟩ := Config.ok_of_map h
    exact hs

/-- A mutation keeps the table in step with the list. -/
theorem Resolved.mutation {s s' : Topology} (hs : s.Resolved) {m : Mutation}
    (h : s.Accepted m s') :
  s'.Resolved
  := by
  obtain ⟨req, bound⟩ := m
  rw [Accepted] at h
  cases req with
  | disconnectClient clientId =>
      rw [applyMutation] at h
      split at h
      · obtain rfl := Except.ok.inj h
        exact hs
      · exact absurd h (by simp)
  | addListener bindIp proto port => exact hs.bindListener h
  | removeListener bindIp proto port =>
      simp only [applyMutation, applySyncMutation] at h
      split at h
      · exact absurd h (by simp)
      · rw [removeListener] at h
        split at h
        · obtain rfl := Except.ok.inj h
          exact hs
        · exact absurd h (by simp)
  | setRoute bindIp proto port clientId =>
      obtain rfl := Except.ok.inj h
      exact hs
  | clearRoute bindIp proto port =>
      obtain rfl := Except.ok.inj h
      exact hs
  | addClient clientId secret =>
      obtain ⟨entry, -, h⟩ := ok_of_bind h
      exact Resolved.updateClients h
  | setClientSecret clientId secret =>
      obtain ⟨entry, -, h⟩ := ok_of_bind h
      exact Resolved.updateClients h
  | removeClient clientId => exact Resolved.updateClients h
  | _ => simp [applyMutation, applySyncMutation] at h

/-- The table of a server is at any time that of its list. -/
theorem Served.resolved {s : Topology} (h : Served s) :
  s.Resolved
  := by
  induction h with
  | boot h => exact resolved_boot h
  | listen hs h ih => exact ih.bindListener h
  | mutation hs h ih => exact ih.mutation h
  | reload hs h ih => exact Resolved.updateClients h
  | sessions hs clients cancelled ih => exact ih

/-- An edit of the clients that fails leaves everything as it was.  One that is answered means
what it says unless it removes the last client of the list and the clients of the command line
make a table in its place. -/
theorem edits_mean_iff {s : Topology} (hs : Served s) (e : ClientEdit) :
  (∀ err s', (editClients e).run s = (.error err, s') → s' = s)
    ∧ ((∀ s', (editClients e).run s = (.ok (), s') → Meant s e s') ↔ ¬ s.FallsBack e)
  := by
  rw [editClients_run]
  cases hstep : s.applySyncMutation e.msg with
  | error err =>
      constructor
      · intro err s' h
        exact (Prod.mk.inj h).2.symm
      · constructor
        · intro hmeant hfalls
          obtain ⟨s', hs', -⟩ := not_meant_of_fallsBack hfalls
          rw [hstep] at hs'
          exact absurd hs' (by simp)
        · intro hkept s' h
          exact absurd (Prod.mk.inj h).1 (by simp)
  | ok t =>
      constructor
      · intro err s' h
        exact absurd (Prod.mk.inj h).1 (by simp)
      · constructor
        · intro hmeant hfalls
          obtain ⟨s', hs', hnot⟩ := not_meant_of_fallsBack hfalls
          rw [hstep] at hs'
          obtain rfl := Except.ok.inj hs'
          exact hnot (hmeant t rfl)
        · intro hkept s' h
          obtain rfl := (Prod.mk.inj h).2
          exact meant_of_not_fallsBack hs.resolved hstep hkept

/-- A client with a secret of its own. -/
def laptop : CfgClient :=
  ⟨"laptop", some (Secret.encode (Bytes.zero 32))⟩

/-- A server with a client of the command line and none in its file. -/
def laptopArgs : ServerArgs :=
  { plainArgs with cliClients := [laptop] }

theorem boots_laptop :
  ∃ file s, Config.ServerConfig.parse plainFile = .ok file ∧ boot laptopArgs file = .ok s
    ∧ s.editable = [laptop] ∧ s.fileClients = []
  := by
  have hview : ∃ file ∈ (Config.ServerConfig.parse plainFile).toOption,
      ∃ s ∈ (boot laptopArgs file).toOption, s.editable = [laptop] ∧ s.fileClients = [] := by
    decide +kernel
  obtain ⟨file, hfile, s, hboot, h⟩ := hview
  exact ⟨file, s, ok_of_toOption hfile, ok_of_toOption hboot, h⟩

/-- The client of the command line is given another secret. -/
def laptopSecret : ClientEdit :=
  .setSecret "laptop" (some (List.Vector.replicate 32 1))

theorem edits_mean_iff_laptop :
  ∃ s s', Served s ∧ ¬ s.FallsBack laptopSecret
    ∧ (editClients laptopSecret).run s = (.ok (), s') ∧ Meant s laptopSecret s'
  := by
  have hview : ∃ file ∈ (Config.ServerConfig.parse plainFile).toOption,
      ∃ s ∈ (boot laptopArgs file).toOption,
        ∃ s' ∈ (s.applySyncMutation laptopSecret.msg).toOption, s'.fileClients ≠ [] := by
    decide +kernel
  obtain ⟨file, -, s, hboot, s', hs', -⟩ := hview
  have hs : Served s := .boot (ok_of_toOption hboot)
  have hkept : ¬ s.FallsBack laptopSecret := by
    rintro ⟨c, heq, -⟩
    exact absurd heq (by simp [laptopSecret])
  have hrun : (editClients laptopSecret).run s = (.ok (), s') := by
    rw [editClients_run, ok_of_toOption hs', outcome]
  exact ⟨s, s', hs, hkept, hrun, (edits_mean_iff hs laptopSecret).2.mpr hkept s' hrun⟩

/-- The client of the command line is removed, and the table still has its entry. -/
theorem removed_client_stays :
  ∃ s s', Served s ∧ (editClients (.remove "laptop")).run s = (.ok (), s')
    ∧ (∃ selector psk, s'.credentials.lookup selector = some ("laptop", psk))
    ∧ ¬ Meant s (.remove "laptop") s'
  := by
  obtain ⟨file, s, -, hboot, heditable, hfile⟩ := boots_laptop
  have hresolved := resolved_boot hboot
  rw [Resolved, hfile] at hresolved
  obtain ⟨s', hs', hcredentials⟩ := exists_removed heditable hresolved
  have htable := (Served.boot hboot).resolved.tableOf
  rw [heditable] at htable
  obtain ⟨psk, hkey⟩ := htable.exists_key (List.mem_singleton_self laptop)
  have hlaptop : s'.credentials.lookup (clientSelector psk) = some (laptop.id, psk) := by
    rw [hcredentials, htable.lookup_iff]
    exact ⟨laptop, List.mem_singleton_self laptop, rfl, hkey, rfl⟩
  refine ⟨s, s', .boot hboot, ?_, ⟨clientSelector psk, psk, hlaptop⟩, ?_⟩
  · rw [editClients_run]
    change outcome s (s.applySyncMutation (ClientEdit.remove laptop.id).msg) = _
    rw [hs', outcome]
  · intro hmeant
    exact absurd ((hmeant.target _ psk).mp hlaptop).1 (by simp [ClientEdit.key])

end Topology

end ZeroNat

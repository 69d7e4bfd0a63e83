import ZeroNat.Server.Edits

/-!
# The order of the clients

A save writes the clients in the order of their ids, and a reload takes them over in that order.
The order decides nothing: a list resolves when any other order of it does, with the same entries
in the table, and an edit of a list is the edit of any other order of it.
-/

namespace ZeroNat

open Config (CfgClient ok_of_bind)

/-- Two tables give the same answers. -/
def Alike (t t' : ClientCredentials) : Prop :=
  ∀ selector, t'.lookup selector = t.lookup selector

theorem Alike.refl (t : ClientCredentials) :
  Alike t t
  := fun _ => rfl

theorem Alike.symm {t t' : ClientCredentials} (h : Alike t t') :
  Alike t' t
  := fun selector => (h selector).symm

theorem Alike.trans {t t' t'' : ClientCredentials} (h : Alike t t') (h' : Alike t' t'') :
  Alike t t''
  := fun selector => (h' selector).trans (h selector)

theorem Alike.insert {t t' : ClientCredentials} (h : Alike t t') (selector : List UInt8)
    (entry : String × Bytes 32) :
  Alike (t.insert selector entry) (t'.insert selector entry)
  := by
  intro selector'
  rw [Table.lookup_insert_eq, Table.lookup_insert_eq, h selector']

/-! ### The table of a list -/

section

variable {adminPsk discoveryPsk : Option (Bytes 32)}

/-- A client is taken into a table: it has an id and a key of its own. -/
structure Takes (adminPsk discoveryPsk : Option (Bytes 32)) (table : ClientCredentials)
    (ids : List String) (spec : ClientCredentialSpec) (psk : Bytes 32) : Prop where
  named : spec.clientId ≠ ""
  fresh : spec.clientId ∉ ids
  secret : ∃ secret, Secret.normalize spec.secret = .ok secret ∧ psk = derivePsk secret
  admin : adminPsk ≠ some psk
  discovery : discoveryPsk ≠ some psk
  unique : table.lookup (clientSelector psk) = none

theorem extendTable_cons {table t : ClientCredentials} {ids : List String}
    {spec : ClientCredentialSpec} {specs : List ClientCredentialSpec} :
  extendTable adminPsk discoveryPsk table ids (spec :: specs) = .ok t
    ↔ ∃ psk, Takes adminPsk discoveryPsk table ids spec psk
      ∧ extendTable adminPsk discoveryPsk
          (table.insert (clientSelector psk) (spec.clientId, psk)) (spec.clientId :: ids) specs
        = .ok t
  := by
  constructor
  · intro h
    rw [extendTable] at h
    split at h
    · exact absurd h (by simp)
    · rename_i hnamed
      split at h
      · exact absurd h (by simp)
      · rename_i hfresh
        split at h
        · exact absurd h (by simp)
        · rename_i secret hsecret
          dsimp only at h
          split at h
          · exact absurd h (by simp)
          · rename_i hadmin
            split at h
            · exact absurd h (by simp)
            · rename_i hdiscovery
              split at h
              · exact absurd h (by simp)
              · rename_i hunique
                exact ⟨derivePsk secret, ⟨hnamed, hfresh, ⟨secret, hsecret, rfl⟩, hadmin, hdiscovery,
                  by simpa using hunique⟩, h⟩
  · rintro ⟨psk, ⟨hnamed, hfresh, ⟨secret, hsecret, rfl⟩, hadmin, hdiscovery, hunique⟩, h⟩
    rw [extendTable, if_neg hnamed, if_neg hfresh, hsecret]
    dsimp only
    rw [if_neg hadmin, if_neg hdiscovery, hunique, if_neg (by simp)]
    exact h

/-- A client is taken into any table that gives the same answers. -/
theorem Takes.congr {table table' : ClientCredentials} {ids ids' : List String}
    {spec : ClientCredentialSpec} {psk : Bytes 32}
    (h : Takes adminPsk discoveryPsk table ids spec psk) (htable : Alike table table')
    (hids : ∀ id, id ∈ ids' ↔ id ∈ ids) :
  Takes adminPsk discoveryPsk table' ids' spec psk
  := ⟨h.named, fun hmem => h.fresh ((hids _).mp hmem), h.secret, h.admin, h.discovery,
    (htable _).trans h.unique⟩

theorem extendTable_congr {table table' t : ClientCredentials} {ids ids' : List String}
    {specs : List ClientCredentialSpec} (htable : Alike table table')
    (hids : ∀ id, id ∈ ids' ↔ id ∈ ids)
    (h : extendTable adminPsk discoveryPsk table ids specs = .ok t) :
  ∃ t', extendTable adminPsk discoveryPsk table' ids' specs = .ok t' ∧ Alike t t'
  := by
  induction specs generalizing table table' ids ids' with
  | nil =>
      obtain rfl := Except.ok.inj h
      exact ⟨table', rfl, htable⟩
  | cons spec specs ih =>
      obtain ⟨psk, htakes, hrest⟩ := extendTable_cons.mp h
      have hids' : ∀ id, id ∈ spec.clientId :: ids' ↔ id ∈ spec.clientId :: ids := by
        intro id
        rw [List.mem_cons, List.mem_cons, hids]
      obtain ⟨t', ht', halike⟩ := ih (htable.insert _ _) hids' hrest
      exact ⟨t', extendTable_cons.mpr ⟨psk, htakes.congr htable hids, ht'⟩, halike⟩

/-- Two clients may be taken in either order. -/
theorem extendTable_swap {table t : ClientCredentials} {ids : List String}
    {spec spec' : ClientCredentialSpec} {specs : List ClientCredentialSpec}
    (h : extendTable adminPsk discoveryPsk table ids (spec :: spec' :: specs) = .ok t) :
  ∃ t', extendTable adminPsk discoveryPsk table ids (spec' :: spec :: specs) = .ok t'
    ∧ Alike t t'
  := by
  obtain ⟨psk, htakes, h⟩ := extendTable_cons.mp h
  obtain ⟨psk', htakes', h⟩ := extendTable_cons.mp h
  have hfresh := htakes'.fresh
  rw [List.mem_cons, not_or] at hfresh
  have hunique := htakes'.unique
  rw [Table.lookup_insert_eq] at hunique
  have hselector : clientSelector psk' ≠ clientSelector psk := by
    intro heq
    rw [if_pos heq] at hunique
    exact absurd hunique (by simp)
  rw [if_neg hselector] at hunique
  have hfirst : Takes adminPsk discoveryPsk table ids spec' psk' :=
    ⟨htakes'.named, hfresh.2, htakes'.secret, htakes'.admin, htakes'.discovery, hunique⟩
  have hsecond : Takes adminPsk discoveryPsk
      (table.insert (clientSelector psk') (spec'.clientId, psk')) (spec'.clientId :: ids) spec
      psk := by
    refine ⟨htakes.named, ?_, htakes.secret, htakes.admin, htakes.discovery, ?_⟩
    · rw [List.mem_cons, not_or]
      exact ⟨Ne.symm hfresh.1, htakes.fresh⟩
    · rw [Table.lookup_insert_eq, if_neg (Ne.symm hselector)]
      exact htakes.unique
  have halike : Alike
      ((table.insert (clientSelector psk) (spec.clientId, psk)).insert (clientSelector psk')
        (spec'.clientId, psk'))
      ((table.insert (clientSelector psk') (spec'.clientId, psk')).insert (clientSelector psk)
        (spec.clientId, psk)) := by
    intro selector
    simp only [Table.lookup_insert_eq]
    by_cases hsel : selector = clientSelector psk
    · rw [if_pos hsel, if_pos hsel, if_neg (hsel ▸ Ne.symm hselector)]
    · rw [if_neg hsel, if_neg hsel]
  have hids : ∀ id, id ∈ spec.clientId :: spec'.clientId :: ids
      ↔ id ∈ spec'.clientId :: spec.clientId :: ids := by
    intro id
    simp only [List.mem_cons]
    exact or_left_comm
  obtain ⟨t', ht', halike'⟩ := extendTable_congr halike hids h
  exact ⟨t', extendTable_cons.mpr ⟨psk', hfirst, extendTable_cons.mpr ⟨psk, hsecond, ht'⟩⟩,
    halike'⟩

/-- The clients may be taken in any order. -/
theorem extendTable_perm {specs specs' : List ClientCredentialSpec} (hperm : specs.Perm specs')
    {table t : ClientCredentials} {ids : List String}
    (h : extendTable adminPsk discoveryPsk table ids specs = .ok t) :
  ∃ t', extendTable adminPsk discoveryPsk table ids specs' = .ok t' ∧ Alike t t'
  := by
  induction hperm generalizing table t ids with
  | nil => exact ⟨t, h, Alike.refl t⟩
  | cons spec _ ih =>
      obtain ⟨psk, htakes, hrest⟩ := extendTable_cons.mp h
      obtain ⟨t', ht', halike⟩ := ih hrest
      exact ⟨t', extendTable_cons.mpr ⟨psk, htakes, ht'⟩, halike⟩
  | swap spec spec' specs => exact extendTable_swap h
  | trans _ _ ih ih' =>
      obtain ⟨t', ht', halike⟩ := ih h
      obtain ⟨t'', ht'', halike'⟩ := ih' ht'
      exact ⟨t'', ht'', halike.trans halike'⟩

end

theorem mapM_perm {α β : Type} {f : α → Except String β} {l l' : List α} {m : List β}
    (hperm : l.Perm l') (h : l.mapM f = .ok m) :
  ∃ m', l'.mapM f = .ok m' ∧ m.Perm m'
  := by
  induction hperm generalizing m with
  | nil => exact ⟨m, h, List.Perm.refl m⟩
  | cons a _ ih =>
      rw [List.mapM_cons] at h
      obtain ⟨b, hb, h⟩ := ok_of_bind h
      obtain ⟨rest, hrest, h⟩ := ok_of_bind h
      obtain rfl := Except.ok.inj h
      obtain ⟨rest', hrest', hp⟩ := ih hrest
      refine ⟨b :: rest', ?_, hp.cons b⟩
      rw [List.mapM_cons, hb, hrest']
      rfl
  | swap a a' l =>
      rw [List.mapM_cons] at h
      obtain ⟨b', hb', h⟩ := ok_of_bind h
      obtain ⟨m', hm', h⟩ := ok_of_bind h
      obtain rfl := Except.ok.inj h
      rw [List.mapM_cons] at hm'
      obtain ⟨b, hb, hm'⟩ := ok_of_bind hm'
      obtain ⟨rest, hrest, hm'⟩ := ok_of_bind hm'
      obtain rfl := Except.ok.inj hm'
      refine ⟨b :: b' :: rest, ?_, List.Perm.swap b b' rest⟩
      rw [List.mapM_cons, List.mapM_cons, hb, hb', hrest]
      rfl
  | trans _ _ ih ih' =>
      obtain ⟨m', hm', hp⟩ := ih h
      obtain ⟨m'', hm'', hp'⟩ := ih' hm'
      exact ⟨m'', hm'', hp.trans hp'⟩

/-- A list of clients resolves in any order, with the same answers. -/
theorem Topology.resolve_perm {s : Topology} {file file' : List CfgClient}
    {t : ClientCredentials} (hperm : file.Perm file') (h : s.resolve file = .ok t) :
  ∃ t', s.resolve file' = .ok t' ∧ Alike t t'
  := by
  obtain ⟨specs, hspecs, htable⟩ := ok_of_bind h
  have hspecs' : ∃ specs', clientSpecs file' s.cliClients s.seed = .ok specs'
      ∧ specs.Perm specs' := by
    rw [clientSpecs] at hspecs ⊢
    split at hspecs
    · rename_i hnil
      subst hnil
      obtain rfl := List.nil_perm.mp hperm
      exact ⟨specs, hspecs, List.Perm.refl specs⟩
    · rename_i hne
      rw [if_neg (fun hnil : file' = [] => hne (List.perm_nil.mp (hnil ▸ hperm)))]
      exact mapM_perm hperm hspecs
  obtain ⟨specs', hspecs', hspecsPerm⟩ := hspecs'
  obtain ⟨t', ht', halike⟩ := extendTable_perm hspecsPerm htable
  refine ⟨t', ?_, halike⟩
  rw [Topology.resolve, hspecs']
  exact ht'

end ZeroNat

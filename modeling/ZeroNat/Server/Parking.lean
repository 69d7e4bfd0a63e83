import ZeroNat.Server.Opens

/-!
# Parked opens are claimed once and never leak

The end of a session fires its watch before it removes what is parked for it, and a task that
opens a flow looks at the watch after it has parked.  So whatever is parked for a session that
has ended was parked before the removal, which took it away, or by a task that finds the
session cancelled and removes it itself.
-/

namespace ZeroNat

namespace Registry

variable {r : Registry} {tx : ℕ} {kind : DutyKind} {table : ClaimTable}

/-- The registry holds the handle of a session. -/
def Registered (r : Registry) (tx : ℕ) : Prop :=
  ∃ id h, r.clients.lookup id = some h ∧ h.tx = tx

/-- A task still owes something to the end of a session. -/
def Owed (r : Registry) (kind : DutyKind) (tx : ℕ) : Prop :=
  ∃ (i : ℕ) (task : SessionTask), r.sessions[i]? = some task
    ∧ ∃ c ∈ task.stage.todo, c.kind = kind ∧ c.tx = tx

/-- What is parked for a session in a table has not been removed for good. -/
def Awaited (r : Registry) (table : ClaimTable) (tx : ℕ) : Prop :=
  r.Registered tx ∨ r.Owed (.revoke table) tx

/-- The entries of the registry are those of the sessions, the duties of a task are the last
ones of the end of one session, and a session that is not registered is cancelled or is about
to be. -/
structure Sound (r : Registry) : Prop where
  named : ∀ id h, r.clients.lookup id = some h → h.clientId = id
    ∧ ∃ task : SessionTask, r.sessions[h.tx]? = some task ∧ task.clientId = id
  duty : ∀ (i : ℕ) (task : SessionTask), r.sessions[i]? = some task →
    ∃ clientId tx, task.stage.todo <:+ duties clientId tx
      ∧ ∃ task' : SessionTask, r.sessions[tx]? = some task' ∧ task'.clientId = clientId
  cancelled : ∀ (tx : ℕ) (task : SessionTask), r.sessions[tx]? = some task →
    r.Registered tx ∨ r.Owed .cancel tx ∨ tx ∈ r.cancelled

/-- The sessions of a registry are among those of another. -/
def Extends (r r' : Registry) : Prop :=
  ∀ (tx : ℕ) (task : SessionTask), r.sessions[tx]? = some task →
    ∃ task' : SessionTask, r'.sessions[tx]? = some task' ∧ task'.clientId = task.clientId

/-- A session whose watch will be fired is one for which what is parked will be removed. -/
theorem Sound.owed_revoke (hr : r.Sound) (howed : r.Owed .cancel tx) (table : ClaimTable) :
  r.Owed (.revoke table) tx
  := by
  obtain ⟨i, task, htask, c, hc, hkind, rfl⟩ := howed
  obtain ⟨clientId, tx, hsuffix, -⟩ := hr.duty i task htask
  refine ⟨i, task, htask, ?_⟩
  rw [duties] at hsuffix
  -- of the suffixes, only the whole list has a duty to cancel
  simp only [List.suffix_cons_iff, List.suffix_nil] at hsuffix
  obtain h | h | h | h := hsuffix <;> rw [h] at hc ⊢
  · have htx : c.tx = tx := by
      simp only [List.mem_cons, List.not_mem_nil, or_false] at hc
      obtain rfl | rfl | rfl := hc <;> rfl
    rw [htx]
    cases table with
    | stream => exact ⟨⟨.revoke .stream, clientId, tx⟩, by simp, rfl, rfl⟩
    | udp => exact ⟨⟨.revoke .udp, clientId, tx⟩, by simp, rfl, rfl⟩
  · simp only [List.mem_cons, List.not_mem_nil, or_false] at hc
    obtain rfl | rfl := hc <;> simp at hkind
  · simp only [List.mem_cons, List.not_mem_nil, or_false] at hc
    rw [hc] at hkind
    simp at hkind
  · simp at hc

/-- What is parked for a session that is not cancelled has not been removed for good. -/
theorem Sound.awaited (hr : r.Sound) {task : SessionTask} (htask : r.sessions[tx]? = some task)
    (hnot : tx ∉ r.cancelled) (table : ClaimTable) :
  r.Awaited table tx
  := by
  obtain hreg | howed | hcancelled := hr.cancelled tx task htask
  · exact Or.inl hreg
  · exact Or.inr (hr.owed_revoke howed table)
  · exact absurd hcancelled hnot

/-! ### A task of a session moves on -/

/-- The registry after a task has moved on. -/
def setStage (r : Registry) (i : ℕ) (task : SessionTask) (stage : SessionStage) : Registry :=
  { r with sessions := r.sessions.set i { task with stage := stage } }

variable {i : ℕ} {task : SessionTask} {stage : SessionStage}

theorem getElem?_setStage (htask : r.sessions[i]? = some task) (stage : SessionStage) (j : ℕ) :
  (r.setStage i task stage).sessions[j]?
    = if j = i then some { task with stage := stage } else r.sessions[j]?
  := List.getElem?_set_of_some htask _

theorem extends_setStage (htask : r.sessions[i]? = some task) (stage : SessionStage) :
  r.Extends (r.setStage i task stage)
  := by
  intro tx task' htask'
  rw [getElem?_setStage htask]
  split
  · rename_i heq
    rw [heq, htask] at htask'
    obtain rfl := Option.some.inj htask'
    exact ⟨_, rfl, rfl⟩
  · exact ⟨task', htask', rfl⟩

/-- A duty that the task keeps is still owed. -/
theorem Owed.setStage (howed : r.Owed kind tx) (htask : r.sessions[i]? = some task)
    (hkept : ∀ c ∈ task.stage.todo, c.kind = kind → c.tx = tx → c ∈ stage.todo) :
  (r.setStage i task stage).Owed kind tx
  := by
  obtain ⟨j, task', htask', c, hc, hkind, htx⟩ := howed
  by_cases hj : j = i
  · subst hj
    rw [htask] at htask'
    obtain rfl := Option.some.inj htask'
    refine ⟨j, { task with stage := stage }, ?_, c, hkept c hc hkind htx, hkind, htx⟩
    rw [getElem?_setStage htask, if_pos rfl]
  · refine ⟨j, task', ?_, c, hc, hkind, htx⟩
    rw [getElem?_setStage htask, if_neg hj, htask']

/-- A task moves on with fewer duties.  The watch it fired, if it did, is in the list. -/
theorem Sound.setStage (hr : r.Sound) (htask : r.sessions[i]? = some task)
    (htodo : stage.todo <:+ task.stage.todo) (cancelled : List ℕ)
    (hfired : ∀ tx, r.Owed .cancel tx →
      (r.setStage i task stage).Owed .cancel tx ∨ tx ∈ cancelled)
    (hsubset : ∀ tx ∈ r.cancelled, tx ∈ cancelled) :
  Sound { r.setStage i task stage with cancelled := cancelled } where
  named := by
    intro id h hid
    obtain ⟨hname, t, ht, hclient⟩ := hr.named id h hid
    obtain ⟨t', ht', hclient'⟩ := extends_setStage htask stage h.tx t ht
    exact ⟨hname, t', ht', hclient'.trans hclient⟩
  duty := by
    intro j t ht
    dsimp only at ht
    rw [getElem?_setStage htask] at ht
    have hfrom : ∃ t₀ : SessionTask, r.sessions[j]? = some t₀
        ∧ t.stage.todo <:+ t₀.stage.todo := by
      split at ht
      · rename_i heq
        refine ⟨task, heq ▸ htask, ?_⟩
        rw [← Option.some.inj ht]
        exact htodo
      · exact ⟨t, ht, List.suffix_refl _⟩
    obtain ⟨t₀, ht₀, hsuffix⟩ := hfrom
    obtain ⟨clientId, tx, hduties, t', ht', hclient⟩ := hr.duty j t₀ ht₀
    obtain ⟨t'', ht'', hclient'⟩ := extends_setStage htask stage tx t' ht'
    exact ⟨clientId, tx, hsuffix.trans hduties, t'', ht'', hclient'.trans hclient⟩
  cancelled := by
    intro tx t ht
    have hfrom : ∃ t₀, r.sessions[tx]? = some t₀ := by
      dsimp only at ht
      rw [getElem?_setStage htask] at ht
      split at ht
      · rename_i heq
        exact ⟨task, heq ▸ htask⟩
      · exact ⟨t, ht⟩
    obtain ⟨t₀, ht₀⟩ := hfrom
    obtain hreg | howed | hmem := hr.cancelled tx t₀ ht₀
    · exact Or.inl hreg
    · exact Or.inr (hfired tx howed)
    · exact Or.inr (Or.inr (hsubset tx hmem))

/-! ### A session registers -/

/-- The registry after a session has registered. -/
def enter (r : Registry) (handle : ClientHandle) (todo : List Duty) : Registry :=
  { r with
    clients := r.clients.insert handle.clientId handle
    sessions := r.sessions ++ [⟨handle.clientId, .registering todo⟩] }

/-- The task of a session that registers ends the session it superseded, and nothing else. -/
def Supersedes (r : Registry) (id : String) (todo : List Duty) : Prop :=
  (r.clients.lookup id = none ∧ todo = [])
    ∨ ∃ h, r.clients.lookup id = some h ∧ todo = duties id h.tx

variable {handle : ClientHandle} {todo : List Duty}

theorem extends_enter (handle : ClientHandle) (todo : List Duty) :
  r.Extends (r.enter handle todo)
  := by
  intro tx task htask
  refine ⟨task, ?_, rfl⟩
  have hlt := (List.getElem?_eq_some_iff.mp htask).1
  rw [enter, List.getElem?_append_one, if_neg (Nat.ne_of_lt hlt), htask]

theorem getElem?_enter (handle : ClientHandle) (todo : List Duty) :
  (r.enter handle todo).sessions[r.sessions.length]?
    = some ⟨handle.clientId, .registering todo⟩
  := by
  rw [enter, List.getElem?_append_one, if_pos rfl]

theorem Owed.enter (howed : r.Owed kind tx) (handle : ClientHandle) (todo : List Duty) :
  (r.enter handle todo).Owed kind tx
  := by
  obtain ⟨i, task, htask, hduty⟩ := howed
  refine ⟨i, task, ?_, hduty⟩
  have hlt := (List.getElem?_eq_some_iff.mp htask).1
  rw [Registry.enter, List.getElem?_append_one, if_neg (Nat.ne_of_lt hlt), htask]

/-- A session that was registered still is, or the new task owes its end. -/
theorem Registered.enter (hreg : r.Registered tx)
    (hsup : r.Supersedes handle.clientId todo) :
  (r.enter handle todo).Registered tx
    ∨ ∀ kind, (⟨kind, handle.clientId, tx⟩ : Duty) ∈ duties handle.clientId tx →
        (r.enter handle todo).Owed kind tx
  := by
  obtain ⟨id, h, hid, rfl⟩ := hreg
  by_cases heq : id = handle.clientId
  · subst heq
    obtain ⟨hnone, -⟩ | ⟨h', hh', rfl⟩ := hsup
    · rw [hnone] at hid
      simp at hid
    · rw [hh'] at hid
      obtain rfl := Option.some.inj hid
      right
      intro kind hkind
      exact ⟨_, _, getElem?_enter handle _, _, hkind, rfl, rfl⟩
  · left
    refine ⟨id, h, ?_, rfl⟩
    rw [Registry.enter, Table.lookup_insert_eq, if_neg heq, hid]

theorem mem_duties_cancel (clientId : String) (tx : ℕ) :
  (⟨.cancel, clientId, tx⟩ : Duty) ∈ duties clientId tx
  := by
  simp [duties]

theorem mem_duties_revoke (table : ClaimTable) (clientId : String) (tx : ℕ) :
  (⟨.revoke table, clientId, tx⟩ : Duty) ∈ duties clientId tx
  := by
  cases table <;> simp [duties]

theorem Awaited.enter (h : r.Awaited table tx) (hsup : r.Supersedes handle.clientId todo) :
  (r.enter handle todo).Awaited table tx
  := by
  obtain hreg | howed := h
  · obtain hreg' | howed := hreg.enter hsup
    · exact Or.inl hreg'
    · exact Or.inr (howed _ (mem_duties_revoke table handle.clientId tx))
  · exact Or.inr (howed.enter handle todo)

theorem Sound.enter (hr : r.Sound) (htx : handle.tx = r.sessions.length)
    (hsup : r.Supersedes handle.clientId todo) :
  (r.enter handle todo).Sound
  := by
  have hself := getElem?_enter (r := r) handle todo
  constructor
  · intro id h hid
    rw [Registry.enter, Table.lookup_insert_eq] at hid
    split at hid
    · rename_i heq
      obtain rfl := Option.some.inj hid
      exact ⟨heq.symm, _, htx ▸ hself, heq.symm⟩
    · obtain ⟨hname, t, ht, hclient⟩ := hr.named id h hid
      obtain ⟨t', ht', hclient'⟩ := extends_enter handle todo h.tx t ht
      exact ⟨hname, t', ht', hclient'.trans hclient⟩
  · intro j t ht
    rw [Registry.enter, List.getElem?_append_one] at ht
    split at ht
    · obtain rfl := Option.some.inj ht
      obtain ⟨-, rfl⟩ | ⟨h, hh, rfl⟩ := hsup
      · exact ⟨handle.clientId, _, List.nil_suffix, _, hself, rfl⟩
      · obtain ⟨-, t', ht', hclient⟩ := hr.named _ h hh
        obtain ⟨t'', ht'', hclient'⟩ := extends_enter handle _ h.tx t' ht'
        exact ⟨handle.clientId, h.tx, List.suffix_refl _, t'', ht'', hclient'.trans hclient⟩
    · obtain ⟨clientId, tx, hduties, t', ht', hclient⟩ := hr.duty j t ht
      obtain ⟨t'', ht'', hclient'⟩ := extends_enter handle todo tx t' ht'
      exact ⟨clientId, tx, hduties, t'', ht'', hclient'.trans hclient⟩
  · intro tx t ht
    rw [Registry.enter, List.getElem?_append_one] at ht
    split at ht
    · rename_i heq
      refine Or.inl ⟨handle.clientId, handle, ?_, htx.trans heq.symm⟩
      rw [Registry.enter, Table.lookup_insert_eq, if_pos rfl]
    · obtain hreg | howed | hmem := hr.cancelled tx t ht
      · obtain hreg' | howed := hreg.enter hsup
        · exact Or.inl hreg'
        · exact Or.inr (Or.inl (howed _ (mem_duties_cancel handle.clientId tx)))
      · exact Or.inr (Or.inl (howed.enter handle todo))
      · exact Or.inr (Or.inr hmem)

/-! ### A session leaves -/

/-- The registry after the task of a session has taken it out. -/
def erase (r : Registry) (tx : ℕ) (task : SessionTask) : Registry :=
  { r.setStage tx task (.ending (duties task.clientId tx)) with
    clients := r.clients.erase task.clientId }

theorem extends_erase (htask : r.sessions[tx]? = some task) :
  r.Extends (r.erase tx task)
  := extends_setStage htask _

theorem Owed.erase {tx' : ℕ} (howed : r.Owed kind tx') (htask : r.sessions[tx]? = some task)
    (hstage : task.stage = .serving) :
  (r.erase tx task).Owed kind tx'
  := by
  refine howed.setStage htask ?_
  rw [hstage]
  simp [SessionStage.todo]

/-- A session that was registered still is, or its end is owed. -/
theorem Registered.erase {tx' : ℕ} (hreg : r.Registered tx')
    (htask : r.sessions[tx]? = some task) (howned : Owned r.clients task.clientId tx) :
  (r.erase tx task).Registered tx'
    ∨ ∀ kind, (⟨kind, task.clientId, tx'⟩ : Duty) ∈ duties task.clientId tx' →
        (r.erase tx task).Owed kind tx'
  := by
  obtain ⟨id, h, hid, rfl⟩ := hreg
  by_cases heq : id = task.clientId
  · subst heq
    obtain ⟨h', hh', rfl⟩ := howned
    rw [hh'] at hid
    obtain rfl := Option.some.inj hid
    right
    intro kind hkind
    refine ⟨h'.tx, { task with stage := .ending (duties task.clientId h'.tx) }, ?_,
      ⟨kind, task.clientId, h'.tx⟩, hkind, rfl, rfl⟩
    rw [Registry.erase, getElem?_setStage htask, if_pos rfl]
  · left
    refine ⟨id, h, ?_, rfl⟩
    rw [Registry.erase, Table.lookup_erase_eq, if_neg heq, hid]

theorem Awaited.erase {tx' : ℕ} (h : r.Awaited table tx') (htask : r.sessions[tx]? = some task)
    (hstage : task.stage = .serving) (howned : Owned r.clients task.clientId tx) :
  (r.erase tx task).Awaited table tx'
  := by
  obtain hreg | howed := h
  · obtain hreg' | howed := hreg.erase htask howned
    · exact Or.inl hreg'
    · exact Or.inr (howed _ (mem_duties_revoke table task.clientId tx'))
  · exact Or.inr (howed.erase htask hstage)

theorem Sound.erase (hr : r.Sound) (htask : r.sessions[tx]? = some task)
    (hstage : task.stage = .serving) (howned : Owned r.clients task.clientId tx) :
  (r.erase tx task).Sound
  := by
  have hsessions : ∀ j, (r.erase tx task).sessions[j]?
      = if j = tx then some { task with stage := .ending (duties task.clientId tx) }
        else r.sessions[j]? :=
    getElem?_setStage htask _
  constructor
  · intro id h hid
    rw [Registry.erase, Table.lookup_erase_eq] at hid
    split at hid
    · simp at hid
    · obtain ⟨hname, t, ht, hclient⟩ := hr.named id h hid
      obtain ⟨t', ht', hclient'⟩ := extends_erase htask h.tx t ht
      exact ⟨hname, t', ht', hclient'.trans hclient⟩
  · intro j t ht
    rw [hsessions] at ht
    split at ht
    · obtain rfl := Option.some.inj ht
      obtain ⟨t', ht', hclient'⟩ := extends_erase htask tx task htask
      exact ⟨task.clientId, tx, List.suffix_refl _, t', ht', hclient'⟩
    · obtain ⟨clientId, tx', hduties, t', ht', hclient⟩ := hr.duty j t ht
      obtain ⟨t'', ht'', hclient'⟩ := extends_erase htask tx' t' ht'
      exact ⟨clientId, tx', hduties, t'', ht'', hclient'.trans hclient⟩
  · intro tx' t ht
    have hfrom : ∃ t₀, r.sessions[tx']? = some t₀ := by
      rw [hsessions] at ht
      split at ht
      · rename_i heq
        exact ⟨task, heq ▸ htask⟩
      · exact ⟨t, ht⟩
    obtain ⟨t₀, ht₀⟩ := hfrom
    obtain hreg | howed | hmem := hr.cancelled tx' t₀ ht₀
    · obtain hreg' | howed := hreg.erase htask howned
      · exact Or.inl hreg'
      · exact Or.inr (Or.inl (howed _ (mem_duties_cancel task.clientId tx')))
    · exact Or.inr (Or.inl (howed.erase htask hstage))
    · exact Or.inr (Or.inr hmem)

end Registry

namespace Opens

variable {s : Opens} {i : ℕ} {o : Opener} {table : ClaimTable} {id : ℕ} {e : Parked}

/-- A task may have something parked: it will look at the watch of the session once more, or
it is about to remove what it parked, or the end of the session will. -/
def Tenable (r : Registry) (o : Opener) : Prop :=
  o.stage = .parked ∨ o.stage = .withdrawing
    ∨ (o.stage = .rechecked ∨ o.stage = .waiting) ∧ r.Awaited o.table o.handle.tx

/-- A parked open is that of a task. -/
def ParkedBy (table : ClaimTable) (id : ℕ) (e : Parked) (o : Opener) : Prop :=
  o.table = table ∧ o.id = id ∧ o.entry = e

/-- A data channel has presented what was parked, over the session it was sent on. -/
structure Handout.Rightful (h : Handout) : Prop where
  clientId : h.entry.clientId = h.clientId
  capability : h.entry.capability = h.capability
  session : h.session = some h.entry.controlTx

/-- What holds of the server at all times. -/
structure Sound (s : Opens) : Prop where
  registry : s.registry.Sound
  handles : ∀ (i : ℕ) (o : Opener), s.openers[i]? = some o →
    ∃ task : SessionTask, s.registry.sessions[o.handle.tx]? = some task
      ∧ task.clientId = o.handle.clientId
  fresh : ∀ (i : ℕ) (o : Opener), s.openers[i]? = some o → o.Numbered → o.id < s.nextId
  distinct : ∀ (i j : ℕ) (o o' : Opener), s.openers[i]? = some o → s.openers[j]? = some o' →
    o.Numbered → o'.Numbered → o.id = o'.id → i = j
  entries : ∀ table id e, (s.parked table).lookup id = some e →
    ∃ (i : ℕ) (o : Opener), s.openers[i]? = some o ∧ ParkedBy table id e o
      ∧ Tenable s.registry o
  handed : ∀ h ∈ s.handed, Handout.Rightful h ∧ (s.parked h.table).lookup h.id = none
    ∧ ∃ (i : ℕ) (o : Opener), s.openers[i]? = some o ∧ ParkedBy h.table h.id h.entry o
      ∧ ¬ o.Early
  once : s.handed.Pairwise fun h h' => (h.table, h.id) ≠ (h'.table, h'.id)

theorem Tenable.not_early {r : Registry} (h : Tenable r o) :
  ¬ o.Early
  := by
  rintro (hstage | hstage | hstage | hstage) <;> simp [Tenable, hstage] at h

theorem numbered_of_not_early (h : ¬ o.Early) :
  o.Numbered
  := fun hstage => h (Or.inl hstage)

/-! ### Steps that leave the tasks that open flows alone -/

/-- A step of the registry.  What it removes from the tables is what is parked for sessions
that nothing more is owed to. -/
theorem Sound.of_registry {t : Opens} (hs : s.Sound) (hr : t.registry.Sound)
    (hextends : s.registry.Extends t.registry) (hopeners : t.openers = s.openers)
    (hnext : t.nextId = s.nextId) (hhanded : t.handed = s.handed)
    (hparked : ∀ table id e, (t.parked table).lookup id = some e →
      (s.parked table).lookup id = some e
        ∧ (s.registry.Awaited table e.controlTx → t.registry.Awaited table e.controlTx)) :
  t.Sound where
  registry := hr
  handles := by
    rw [hopeners]
    intro i o ho
    obtain ⟨task, htask, hclient⟩ := hs.handles i o ho
    obtain ⟨task', htask', hclient'⟩ := hextends _ task htask
    exact ⟨task', htask', hclient'.trans hclient⟩
  fresh := by
    rw [hopeners, hnext]
    exact hs.fresh
  distinct := by
    rw [hopeners]
    exact hs.distinct
  entries := by
    intro table id e he
    obtain ⟨he', hawaited⟩ := hparked table id e he
    obtain ⟨i, o, ho, hby, htenable⟩ := hs.entries table id e he'
    refine ⟨i, o, hopeners ▸ ho, hby, ?_⟩
    obtain hstage | hstage | ⟨hstage, haw⟩ := htenable
    · exact Or.inl hstage
    · exact Or.inr (Or.inl hstage)
    · obtain ⟨rfl, -, rfl⟩ := hby
      exact Or.inr (Or.inr ⟨hstage, hawaited haw⟩)
  handed := by
    rw [hhanded]
    intro h hh
    obtain ⟨hright, hnone, hopener⟩ := hs.handed h hh
    refine ⟨hright, ?_, hopeners ▸ hopener⟩
    cases hlookup : (t.parked h.table).lookup h.id with
    | none => rfl
    | some e =>
        rw [(hparked _ _ e hlookup).1] at hnone
        simp at hnone
  once := hhanded ▸ hs.once

theorem lookup_setTable_erase (s : Opens) (table table' : ClaimTable) (id id' : ℕ) :
  ((s.setTable table ((s.parked table).erase id)).parked table').lookup id'
    = if table' = table ∧ id' = id then none else (s.parked table').lookup id'
  := by
  by_cases htable : table' = table
  · subst htable
    simp [setTable, Table.lookup_erase_eq]
  · simp [setTable, htable]

theorem lookup_setTable_insert (s : Opens) (table table' : ClaimTable) (id id' : ℕ)
    (e : Parked) :
  ((s.setTable table ((s.parked table).insert id e)).parked table').lookup id'
    = if table' = table ∧ id' = id then some e else (s.parked table').lookup id'
  := by
  by_cases htable : table' = table
  · subst htable
    simp [setTable, Table.lookup_insert_eq]
  · simp [setTable, htable]

/-- A data channel is handed what it presented. -/
theorem Sound.claim (hs : s.Sound) (table : ClaimTable) (clientId : String) (id : ℕ)
    (capability : Capability) :
  (s.claim table clientId id capability).Sound
  := by
  rw [Opens.claim]
  cases he : (s.parked table).lookup id with
  | none => exact hs
  | some e =>
      dsimp only
      split
      · rename_i hmatch
        obtain ⟨hclient, hcapability, h, hh, htx⟩ := hmatch
        have hlookup := fun table' id' => lookup_setTable_erase s table table' id id'
        obtain ⟨i, o, ho, hby, htenable⟩ := hs.entries table id e he
        refine ⟨hs.registry, hs.handles, hs.fresh, hs.distinct, ?_, ?_, ?_⟩
        · intro table' id' e' he'
          replace he' := (hlookup table' id').symm.trans he'
          split at he'
          · simp at he'
          · exact hs.entries table' id' e' he'
        · intro h' hh'
          obtain rfl | hh' := List.mem_cons.mp hh'
          · refine ⟨⟨hclient, hcapability, ?_⟩, ?_, i, o, ho, hby, htenable.not_early⟩
            · dsimp only
              rw [hh, ← htx]
              rfl
            · refine (hlookup table id).trans ?_
              rw [if_pos ⟨rfl, rfl⟩]
          · obtain ⟨hright, hnone, hopener⟩ := hs.handed h' hh'
            refine ⟨hright, ?_, hopener⟩
            refine (hlookup h'.table h'.id).trans ?_
            split
            · rfl
            · exact hnone
        · refine List.pairwise_cons.mpr ⟨?_, hs.once⟩
          -- what was handed out before is no longer in its table
          rintro h' hh' heq
          obtain ⟨htable, hid⟩ := Prod.mk.inj heq
          obtain ⟨-, hnone, -⟩ := hs.handed h' hh'
          dsimp only at htable hid
          rw [← htable, ← hid, he] at hnone
          simp at hnone
      · exact hs

/-! ### Steps of the tasks that open flows -/

/-- A step of a task that opens a flow.  It keeps its id once it may have parked, and a new id
is one that has not been drawn. -/
theorem Sound.of_opener {t : Opens} (hs : s.Sound) (ho : s.openers[i]? = some o)
    (o' : Opener) (htable : o'.table = o.table) (hhandle : o'.handle = o.handle)
    (hdrawn : o'.Numbered → o.Numbered ∧ o'.id = o.id ∨ o'.id = s.nextId)
    (hkeep : ¬ o.Early → ¬ o'.Early ∧ o'.id = o.id ∧ o'.capability = o.capability)
    (hregistry : t.registry = s.registry) (hopeners : t.openers = s.openers.set i o')
    (hnext : s.nextId ≤ t.nextId) (hlt : o'.Numbered → o'.id < t.nextId)
    (hhanded : t.handed = s.handed)
    (hparked : ∀ table id e, (t.parked table).lookup id = some e →
      ((s.parked table).lookup id = some e
        ∧ (ParkedBy table id e o → Tenable s.registry o → Tenable s.registry o'))
      ∨ (ParkedBy table id e o' ∧ Tenable s.registry o' ∧ o.Early)) :
  t.Sound
  := by
  have hget : ∀ j : ℕ, t.openers[j]? = if j = i then some o' else s.openers[j]? := by
    intro j
    rw [hopeners, List.getElem?_set_of_some ho]
  have hby : ∀ table id e, ParkedBy table id e o → ¬ o.Early → ParkedBy table id e o' := by
    intro table id e hby hlate
    obtain ⟨-, hid, hcapability⟩ := hkeep hlate
    refine ⟨htable.trans hby.1, hid.trans hby.2.1, ?_⟩
    rw [← hby.2.2, Opener.entry, Opener.entry, hhandle, hcapability]
  have hself : t.openers[i]? = some o' := by rw [hget, if_pos rfl]
  constructor
  · rw [hregistry]
    exact hs.registry
  · intro j x hx
    rw [hregistry]
    rw [hget] at hx
    split at hx
    · obtain rfl := Option.some.inj hx
      rw [hhandle]
      exact hs.handles i o ho
    · exact hs.handles j x hx
  · intro j x hx hnumbered
    rw [hget] at hx
    split at hx
    · obtain rfl := Option.some.inj hx
      exact hlt hnumbered
    · exact Nat.lt_of_lt_of_le (hs.fresh j x hx hnumbered) hnext
  · -- a task that draws an id has one that no other task has
    have hother : ∀ (j : ℕ) (x : Opener), s.openers[j]? = some x → x.Numbered → o'.Numbered →
        x.id = o'.id → j = i := by
      intro j x hx hnumbered hnumbered' hid
      obtain ⟨hn, hsame⟩ | hnew := hdrawn hnumbered'
      · exact hs.distinct j i x o hx ho hnumbered hn (hid.trans hsame)
      · have := hs.fresh j x hx hnumbered
        omega
    intro j k x y hx hy hnx hny hid
    rw [hget] at hx hy
    split at hx <;> split at hy
    · rename_i hj hk
      rw [hj, hk]
    · rename_i hj hk
      obtain rfl := Option.some.inj hx
      rw [hj]
      exact (hother k y hy hny hnx hid.symm).symm
    · rename_i hj hk
      obtain rfl := Option.some.inj hy
      rw [hk]
      exact hother j x hx hnx hny hid
    · exact hs.distinct j k x y hx hy hnx hny hid
  · intro table id e he
    rw [hregistry]
    obtain ⟨he', hstill⟩ | ⟨hby', htenable, -⟩ := hparked table id e he
    · obtain ⟨j, x, hx, hbyx, htenable⟩ := hs.entries table id e he'
      by_cases hj : j = i
      · subst hj
        rw [ho] at hx
        obtain rfl := Option.some.inj hx
        exact ⟨j, o', hself, hby table id e hbyx htenable.not_early, hstill hbyx htenable⟩
      · refine ⟨j, x, ?_, hbyx, htenable⟩
        rw [hget, if_neg hj, hx]
    · exact ⟨i, o', hself, hby', htenable⟩
  · intro h hh
    rw [hhanded] at hh
    obtain ⟨hright, hnone, j, x, hx, hbyx, hlate⟩ := hs.handed h hh
    refine ⟨hright, ?_, ?_⟩
    · cases hlookup : (t.parked h.table).lookup h.id with
      | none => rfl
      | some e =>
          obtain ⟨he, -⟩ | ⟨hby', htenable, hearly⟩ := hparked _ _ e hlookup
          · rw [he] at hnone
            simp at hnone
          · exfalso
            -- the id that was handed out is that of another task
            have hnx := numbered_of_not_early hlate
            have hid : x.id = o'.id := hbyx.2.1.trans hby'.2.1.symm
            obtain ⟨hn, hsame⟩ | hnew := hdrawn (numbered_of_not_early htenable.not_early)
            · have hij := hs.distinct j i x o hx ho hnx hn (hid.trans hsame)
              subst hij
              rw [ho] at hx
              exact hlate (Option.some.inj hx ▸ hearly)
            · have := hs.fresh j x hx hnx
              omega
    · by_cases hj : j = i
      · subst hj
        rw [ho] at hx
        obtain rfl := Option.some.inj hx
        exact ⟨j, o', hself, hby _ _ _ hbyx hlate, (hkeep hlate).1⟩
      · refine ⟨j, x, ?_, hbyx, hlate⟩
        rw [hget, if_neg hj, hx]
  · rw [hhanded]
    exact hs.once

/-- A task moves on, and what it has parked stays where it may. -/
theorem Sound.setOpener (hs : s.Sound) (ho : s.openers[i]? = some o) {stage : OpenStage}
    (hnumbered : o.Numbered) (hlate : ¬ o.Early → ¬ Opener.Early { o with stage := stage })
    (hstill : Tenable s.registry o → Tenable s.registry { o with stage := stage }) :
  (s.setOpener i o stage).Sound
  := by
  refine hs.of_opener ho { o with stage := stage } rfl rfl ?_ ?_ rfl rfl (le_refl _) ?_ rfl ?_
  · intro _
    exact Or.inl ⟨hnumbered, rfl⟩
  · intro h
    exact ⟨hlate h, rfl, rfl⟩
  · intro _
    exact hs.fresh i o ho hnumbered
  · intro table id e he
    exact Or.inl ⟨he, fun _ => hstill⟩

/-- A task removes what it parked and is done. -/
theorem Sound.finish (hs : s.Sound) (ho : s.openers[i]? = some o) (hlate : ¬ o.Early) :
  ((s.setTable o.table ((s.parked o.table).erase o.id)).setOpener i o .finished).Sound
  := by
  have hnumbered := numbered_of_not_early hlate
  refine hs.of_opener ho { o with stage := .finished } rfl rfl ?_ ?_ rfl rfl (le_refl _) ?_
    rfl ?_
  · intro _
    exact Or.inl ⟨hnumbered, rfl⟩
  · intro _
    exact ⟨by simp [Opener.Early], rfl, rfl⟩
  · intro _
    exact hs.fresh i o ho hnumbered
  · intro table id e he
    replace he := (lookup_setTable_erase s o.table table o.id id).symm.trans he
    split at he
    · simp at he
    · rename_i hne
      exact Or.inl ⟨he, fun hby => absurd ⟨hby.1.symm, hby.2.1.symm⟩ hne⟩

/-- A task that has not parked moves on. -/
theorem Sound.setOpener_early (hs : s.Sound) (ho : s.openers[i]? = some o) (stage : OpenStage)
    (hnumbered : o.Numbered) (hearly : o.Early) :
  (s.setOpener i o stage).Sound
  := hs.setOpener ho hnumbered (fun h => absurd hearly h)
    (fun h => absurd hearly h.not_early)

/-- A task draws an id. -/
theorem Sound.number (hs : s.Sound) (ho : s.openers[i]? = some o) (hstage : o.stage = .routed)
    (capability : Capability) (stage : OpenStage) :
  ({ s with nextId := s.nextId + 1 }.setOpener i
    { o with id := s.nextId, capability := capability } stage).Sound
  := by
  have hearly : o.Early := Or.inl hstage
  refine hs.of_opener ho { o with id := s.nextId, capability := capability, stage := stage }
    rfl rfl ?_ ?_ rfl rfl (Nat.le_succ _) ?_ rfl ?_
  · intro _
    exact Or.inr rfl
  · intro h
    exact absurd hearly h
  · intro _
    exact Nat.lt_succ_self _
  · intro table id e he
    exact Or.inl ⟨he, fun _ h => absurd hearly h.not_early⟩

/-- A task parks. -/
theorem Sound.park (hs : s.Sound) (ho : s.openers[i]? = some o) (hstage : o.stage = .checked) :
  ((s.setTable o.table ((s.parked o.table).insert o.id o.entry)).setOpener i o .parked).Sound
  := by
  have hnumbered : o.Numbered := by rw [Opener.Numbered, hstage]; simp
  have hearly : o.Early := Or.inr (Or.inr (Or.inr hstage))
  refine hs.of_opener ho { o with stage := .parked } rfl rfl ?_ ?_ rfl rfl (le_refl _) ?_
    rfl ?_
  · intro _
    exact Or.inl ⟨hnumbered, rfl⟩
  · intro h
    exact absurd hearly h
  · intro _
    exact hs.fresh i o ho hnumbered
  · intro table id e he
    replace he := (lookup_setTable_insert s o.table table o.id id o.entry).symm.trans he
    split at he
    · rename_i heq
      exact Or.inr ⟨⟨heq.1.symm, heq.2.symm, Option.some.inj he⟩, Or.inl rfl, hearly⟩
    · exact Or.inl ⟨he, fun _ h => absurd hearly h.not_early⟩

/-- A task looks at the watch again after it has parked. -/
theorem Sound.recheck (hs : s.Sound) (ho : s.openers[i]? = some o) (hstage : o.stage = .parked) :
  (s.setOpener i o
    (if o.handle.tx ∈ s.registry.cancelled then .withdrawing else .rechecked)).Sound
  := by
  refine hs.setOpener ho (by rw [Opener.Numbered, hstage]; simp) ?_ ?_
  · intro _
    split <;> simp [Opener.Early]
  · intro _
    split
    · exact Or.inr (Or.inl rfl)
    · rename_i hnot
      obtain ⟨task, htask, -⟩ := hs.handles i o ho
      exact Or.inr (Or.inr ⟨Or.inl rfl, hs.registry.awaited htask hnot o.table⟩)

theorem Sound.send (hs : s.Sound) (ho : s.openers[i]? = some o) (hstage : o.stage = .rechecked)
    (taken : Bool) :
  (s.setOpener i o (if taken then .waiting else .withdrawing)).Sound
  := by
  refine hs.setOpener ho (by rw [Opener.Numbered, hstage]; simp) ?_ ?_
  · intro _
    split <;> simp [Opener.Early]
  · intro h
    split
    · simp only [Tenable, hstage, reduceCtorEq, false_or, true_or, true_and] at h
      exact Or.inr (Or.inr ⟨Or.inr rfl, h⟩)
    · exact Or.inr (Or.inl rfl)

/-- A task picks the handle of a session. -/
theorem Sound.route (hs : s.Sound) {clientId : String} {handle : ClientHandle}
    (hhandle : s.registry.clients.lookup clientId = some handle) (table : ClaimTable)
    (capability : Capability) :
  Sound { s with openers := s.openers ++ [⟨table, handle, 0, capability, .routed⟩] }
  := by
  have hold : ∀ (j : ℕ) (x : Opener), s.openers[j]? = some x →
      (s.openers ++ [⟨table, handle, 0, capability, .routed⟩])[j]? = some x := by
    intro j x hx
    have hlt := (List.getElem?_eq_some_iff.mp hx).1
    rw [List.getElem?_append_one, if_neg (Nat.ne_of_lt hlt), hx]
  -- the new task has no id yet
  have hnumbered : ∀ (j : ℕ) (x : Opener),
      (s.openers ++ [⟨table, handle, 0, capability, .routed⟩])[j]? = some x → x.Numbered →
      s.openers[j]? = some x := by
    intro j x hx hn
    rw [List.getElem?_append_one] at hx
    split at hx
    · obtain rfl := Option.some.inj hx
      exact absurd rfl hn
    · exact hx
  constructor
  · exact hs.registry
  · intro j x hx
    dsimp only at hx
    rw [List.getElem?_append_one] at hx
    split at hx
    · obtain rfl := Option.some.inj hx
      obtain ⟨hname, task, htask, hclient⟩ := hs.registry.named clientId handle hhandle
      exact ⟨task, htask, hclient.trans hname.symm⟩
    · exact hs.handles j x hx
  · intro j x hx hn
    exact hs.fresh j x (hnumbered j x hx hn) hn
  · intro j k x y hx hy hnx hny hid
    exact hs.distinct j k x y (hnumbered j x hx hnx) (hnumbered k y hy hny) hnx hny hid
  · intro table id e he
    obtain ⟨j, x, hx, hby, htenable⟩ := hs.entries table id e he
    exact ⟨j, x, hold j x hx, hby, htenable⟩
  · intro h hh
    obtain ⟨hright, hnone, j, x, hx, hby, hlate⟩ := hs.handed h hh
    exact ⟨hright, hnone, j, x, hold j x hx, hby, hlate⟩
  · exact hs.once

/-! ### Steps of the tasks of sessions -/

theorem Sound.register (hs : s.Sound) (clientId : String) (transport : ActiveTransport)
    (peer : Option SocketAddr) (bridgeCapability : Capability) (held : Bool) :
  (s.register clientId transport peer bridgeCapability held).Sound
  := by
  let handle := ClientHandle.new clientId s.registry.sessions.length transport peer
    bridgeCapability
  have henter : ∀ todo, s.registry.Supersedes clientId todo →
      Sound { s with registry := s.registry.enter handle todo } := by
    intro todo hsup
    refine hs.of_registry (hs.registry.enter rfl hsup) (Registry.extends_enter handle todo) rfl
      rfl rfl ?_
    intro table id e he
    exact ⟨he, fun hawaited => hawaited.enter hsup⟩
  rw [Opens.register]
  dsimp only
  cases hlookup : s.registry.clients.lookup clientId with
  | none => exact henter [] (Or.inl ⟨hlookup, rfl⟩)
  | some superseded =>
      dsimp only
      split
      · exact hs
      · exact henter _ (Or.inr ⟨superseded, hlookup, rfl⟩)

/-- A task of a session moves on without anything done. -/
theorem Sound.setStage (hs : s.Sound) {tx : ℕ} {task : SessionTask} {stage : SessionStage}
    (htask : s.registry.sessions[tx]? = some task) (htodo : stage.todo = task.stage.todo) :
  (s.setStage tx task stage).Sound
  := by
  have howed : ∀ kind tx', s.registry.Owed kind tx' →
      (s.registry.setStage tx task stage).Owed kind tx' := by
    intro kind tx' h
    refine h.setStage htask ?_
    intro c hc _ _
    rw [htodo]
    exact hc
  refine hs.of_registry
    (hs.registry.setStage htask (by rw [htodo]) s.registry.cancelled
      (fun tx' h => Or.inl (howed _ tx' h)) (fun _ h => h))
    (Registry.extends_setStage htask stage) rfl rfl rfl ?_
  intro table id e he
  refine ⟨he, ?_⟩
  rintro (hreg | h)
  · exact Or.inl hreg
  · exact Or.inr (howed _ _ h)

theorem Sound.leave (hs : s.Sound) {tx : ℕ} {task : SessionTask}
    (htask : s.registry.sessions[tx]? = some task) (hstage : task.stage = .serving) :
  (s.leave tx task).Sound
  := by
  rw [Opens.leave]
  split
  · rename_i howned
    refine hs.of_registry (hs.registry.erase htask hstage howned)
      (Registry.extends_erase htask) rfl rfl rfl ?_
    intro table id e he
    exact ⟨he, fun hawaited => hawaited.erase htask hstage howned⟩
  · exact hs.setStage htask (by rw [hstage]; rfl)

/-- An administrator fires the watch of a session. -/
theorem Sound.fire (hs : s.Sound) (tx : ℕ) :
  (s.fire tx).Sound
  := by
  rw [Opens.fire]
  split
  · refine hs.of_registry ⟨hs.registry.named, hs.registry.duty, ?_⟩ ?_ rfl rfl rfl ?_
    · intro tx' task htask
      obtain hreg | howed | hmem := hs.registry.cancelled tx' task htask
      · exact Or.inl hreg
      · exact Or.inr (Or.inl howed)
      · exact Or.inr (Or.inr (List.mem_cons_of_mem _ hmem))
    · intro tx' task htask
      exact ⟨task, htask, rfl⟩
    · intro table id e he
      exact ⟨he, fun h => h⟩
  · exact hs

/-- A duty other than the first is still owed after that is done. -/
theorem owed_of_ne {r : Registry} {kind : DutyKind} {tx tx' : ℕ} {task : SessionTask}
    {stage : SessionStage} {c : Duty} (howed : r.Owed kind tx')
    (htask : r.sessions[tx]? = some task) (htodo : task.stage.todo = c :: stage.todo)
    (hne : c.kind ≠ kind ∨ c.tx ≠ tx') :
  (r.setStage tx task stage).Owed kind tx'
  := by
  refine howed.setStage htask ?_
  intro d hd hkind htx
  rw [htodo] at hd
  obtain rfl | hd := List.mem_cons.mp hd
  · obtain h | h := hne
    · exact absurd hkind h
    · exact absurd htx h
  · exact hd

/-- The task of a session fires a watch that has a receiver. -/
theorem Sound.duty_cancel (hs : s.Sound) {tx : ℕ} {task : SessionTask} {stage : SessionStage}
    {c : Duty} (htask : s.registry.sessions[tx]? = some task)
    (htodo : task.stage.todo = c :: stage.todo) (hkind : c.kind = .cancel)
    (hwatched : s.Watched c.tx) :
  ((s.fire c.tx).setStage tx task stage).Sound
  := by
  rw [Opens.fire, if_pos hwatched]
  refine hs.of_registry
    (hs.registry.setStage htask (by rw [htodo]; exact List.suffix_cons _ _)
      (c.tx :: s.registry.cancelled) ?_ (fun _ h => List.mem_cons_of_mem _ h))
    (Registry.extends_setStage htask stage) rfl rfl rfl ?_
  · intro tx' howed
    by_cases htx : c.tx = tx'
    · exact Or.inr (htx ▸ List.mem_cons_self)
    · exact Or.inl (owed_of_ne howed htask htodo (Or.inr htx))
  · intro table id e he
    refine ⟨he, ?_⟩
    rintro (hreg | howed)
    · exact Or.inl hreg
    · exact Or.inr (owed_of_ne howed htask htodo (Or.inl (by rw [hkind]; simp)))

theorem lookup_revoke (s : Opens) (table table' : ClaimTable) (clientId : String) (tx : ℕ)
    (id : ℕ) (e : Parked) :
  ((s.revoke table clientId tx).parked table').lookup id = some e
    ↔ (s.parked table').lookup id = some e
      ∧ (table' = table → e.clientId ≠ clientId ∨ e.controlTx ≠ tx)
  := by
  by_cases htable : table' = table
  · subst htable
    simp [revoke, Table.lookup_retain]
  · simp [revoke, htable]

/-- What is parked for a session is parked under the id of the session. -/
theorem Sound.clientId_of_parked (hs : s.Sound) (he : (s.parked table).lookup id = some e)
    {task : SessionTask} (htask : s.registry.sessions[e.controlTx]? = some task) :
  e.clientId = task.clientId
  := by
  obtain ⟨i, o, ho, ⟨-, -, rfl⟩, -⟩ := hs.entries table id e he
  obtain ⟨task', htask', hclient⟩ := hs.handles i o ho
  rw [show o.entry.controlTx = o.handle.tx from rfl, htask'] at htask
  obtain rfl := Option.some.inj htask
  exact hclient.symm

/-- The task of a session removes what is parked for one in a table. -/
theorem Sound.duty_revoke (hs : s.Sound) {tx : ℕ} {task : SessionTask} {stage : SessionStage}
    {c : Duty} (htask : s.registry.sessions[tx]? = some task)
    (htodo : task.stage.todo = c :: stage.todo) (hkind : c.kind = .revoke table) :
  ((s.revoke table c.clientId c.tx).setStage tx task stage).Sound
  := by
  refine hs.of_registry
    (hs.registry.setStage htask (by rw [htodo]; exact List.suffix_cons _ _)
      s.registry.cancelled ?_ (fun _ h => h))
    (Registry.extends_setStage htask stage) rfl rfl rfl ?_
  · intro tx' howed
    exact Or.inl (owed_of_ne howed htask htodo (Or.inl (by rw [hkind]; simp)))
  · intro table' id e he
    obtain ⟨he', hkept⟩ := (lookup_revoke s table table' c.clientId c.tx id e).mp he
    refine ⟨he', ?_⟩
    rintro (hreg | howed)
    · exact Or.inl hreg
    · refine Or.inr (owed_of_ne howed htask htodo ?_)
      by_cases htable : table' = table
      · right
        rintro htx
        -- the duty names the client of the session, and so does what is parked for it
        obtain ⟨clientId, tx', hsuffix, task', htask', hclient⟩ := hs.registry.duty tx task htask
        have hc : c.clientId = clientId ∧ c.tx = tx' := by
          have hmem : c ∈ duties clientId tx' := by
            refine hsuffix.subset ?_
            rw [htodo]
            exact List.mem_cons_self
          simp only [duties, List.mem_cons, List.not_mem_nil, or_false] at hmem
          obtain rfl | rfl | rfl := hmem <;> exact ⟨rfl, rfl⟩
        rw [← hc.2, htx] at htask'
        have hname := hs.clientId_of_parked he' htask'
        obtain h | h := hkept htable
        · exact h (hname.trans (hclient.trans hc.1.symm))
        · exact h htx.symm
      · left
        rw [hkind]
        simpa using Ne.symm htable

theorem Sound.duty (hs : s.Sound) {tx : ℕ} {task : SessionTask} {stage : SessionStage}
    {c : Duty} (htask : s.registry.sessions[tx]? = some task)
    (htodo : task.stage.todo = c :: stage.todo)
    (hheeded : c.kind = .cancel → s.Watched c.tx) :
  ((s.runDuty c).setStage tx task stage).Sound
  := by
  rw [runDuty]
  cases hkind : c.kind with
  | cancel => exact hs.duty_cancel htask htodo hkind (hheeded hkind)
  | revoke table => exact hs.duty_revoke htask htodo hkind

/-! ### Runs -/

theorem advance_eq_some {stage : OpenStage} {f : Opener → Opens} {t : Opens}
    (h : s.advance i stage f = some t) :
  ∃ o : Opener, s.openers[i]? = some o ∧ o.stage = stage ∧ t = f o
  := by
  rw [advance] at h
  split at h
  · simp at h
  · rename_i o ho
    split at h
    · rename_i hstage
      exact ⟨o, ho, hstage, (Option.some.inj h).symm⟩
    · simp at h

theorem nextDuty_of_todo {tx : ℕ} {task : SessionTask} {c : Duty} {todo : List Duty}
    (htask : s.registry.sessions[tx]? = some task) (htodo : task.stage.todo = c :: todo) :
  s.nextDuty tx = some c
  := by
  rw [nextDuty, htask]
  exact congrArg List.head? htodo

theorem Sound.init :
  Opens.init.Sound
  := by
  constructor
  · exact ⟨by simp [Opens.init], by simp [Opens.init], by simp [Opens.init]⟩
  all_goals simp [Opens.init]

theorem Sound.step (hs : s.Sound) {op : OpenOp} {t : Opens} (hstep : Step s op t) :
  t.Sound
  := by
  obtain ⟨hheeded, hstep⟩ := hstep
  cases op with
  | register clientId transport peer bridgeCapability held =>
      obtain rfl := Option.some.inj hstep
      exact hs.register clientId transport peer bridgeCapability held
  | duty tx =>
      rw [Opens.step] at hstep
      split at hstep
      · rename_i clientId c todo htask
        obtain rfl := Option.some.inj hstep
        exact hs.duty htask rfl (hheeded c (nextDuty_of_todo htask rfl))
      · rename_i clientId c todo htask
        obtain rfl := Option.some.inj hstep
        exact hs.duty htask rfl (hheeded c (nextDuty_of_todo htask rfl))
      · simp at hstep
  | serve tx =>
      rw [Opens.step] at hstep
      split at hstep
      · rename_i clientId htask
        obtain rfl := Option.some.inj hstep
        exact hs.setStage htask rfl
      · simp at hstep
  | leave tx =>
      rw [Opens.step] at hstep
      split at hstep
      · rename_i clientId htask
        obtain rfl := Option.some.inj hstep
        exact hs.leave htask rfl
      · simp at hstep
  | drop tx =>
      rw [Opens.step] at hstep
      split at hstep
      · rename_i clientId htask
        obtain rfl := Option.some.inj hstep
        exact hs.setStage htask rfl
      · simp at hstep
  | disconnectClient clientId =>
      rw [Opens.step] at hstep
      split at hstep <;> obtain rfl := Option.some.inj hstep
      · exact hs
      · exact hs.fire _
  | route table clientId =>
      rw [Opens.step] at hstep
      split at hstep
      · simp at hstep
      · rename_i handle hhandle
        obtain rfl := Option.some.inj hstep
        exact hs.route hhandle table _
  | number i capability =>
      obtain ⟨o, ho, hstage, rfl⟩ := advance_eq_some hstep
      cases capability with
      | none => exact hs.number ho hstage o.capability .finished
      | some capability => exact hs.number ho hstage capability .numbered
  | subscribe i =>
      obtain ⟨o, ho, hstage, rfl⟩ := advance_eq_some hstep
      exact hs.setOpener_early ho _ (by simp [Opener.Numbered, hstage])
        (by simp [Opener.Early, hstage])
  | check i =>
      obtain ⟨o, ho, hstage, rfl⟩ := advance_eq_some hstep
      exact hs.setOpener_early ho _ (by simp [Opener.Numbered, hstage])
        (by simp [Opener.Early, hstage])
  | park i =>
      obtain ⟨o, ho, hstage, rfl⟩ := advance_eq_some hstep
      exact hs.park ho hstage
  | recheck i =>
      obtain ⟨o, ho, hstage, rfl⟩ := advance_eq_some hstep
      exact hs.recheck ho hstage
  | send i taken =>
      obtain ⟨o, ho, hstage, rfl⟩ := advance_eq_some hstep
      exact hs.send ho hstage taken
  | withdraw i =>
      obtain ⟨o, ho, hstage, rfl⟩ := advance_eq_some hstep
      exact hs.finish ho (by simp [Opener.Early, hstage])
  | reclaim i =>
      obtain ⟨o, ho, hstage, rfl⟩ := advance_eq_some hstep
      exact hs.finish ho (by simp [Opener.Early, hstage])
  | claim table clientId id capability =>
      obtain rfl := Option.some.inj hstep
      exact hs.claim table clientId id capability
  | bridgeEnd tx =>
      obtain rfl := Option.some.inj hstep
      exact ⟨hs.registry, hs.handles, hs.fresh, hs.distinct, hs.entries, hs.handed, hs.once⟩

/-- The teardown of a session has finished: it is not in the registry, and no task owes
anything to its end. -/
def TornDown (s : Opens) (tx : ℕ) : Prop :=
  ¬ s.registry.Registered tx
    ∧ ∀ (i : ℕ) (task : SessionTask), s.registry.sessions[i]? = some task →
        ∀ c ∈ task.stage.todo, c.tx ≠ tx

/-- When the teardown of a session has finished and every open over it has returned, nothing
is parked for it. -/
theorem Sound.nothing_left (hs : s.Sound) {tx : ℕ} (hdown : s.TornDown tx)
    (hreturned : ∀ o ∈ s.openers, o.handle.tx = tx → o.Returned)
    (he : (s.parked table).lookup id = some e) :
  e.controlTx ≠ tx
  := by
  rintro rfl
  obtain ⟨i, o, ho, ⟨htable, -, rfl⟩, htenable⟩ := hs.entries table id e he
  have hwaiting : s.registry.Awaited o.table o.handle.tx := by
    obtain hstage | hstage := hreturned o (List.mem_of_getElem? ho) rfl
    · simpa [Tenable, hstage] using htenable
    · simp [Tenable, hstage] at htenable
  obtain hreg | ⟨j, task, htask, c, hc, -, htx⟩ := hwaiting
  · exact hdown.1 hreg
  · exact hdown.2 j task htask c hc htx

/-- In every run in which no watch of a session is fired that nobody holds, a parked open is
handed out once at most, to a data channel of the same client that presents its capability
while the session it was sent on is registered; and nothing is left for a session that is torn
down, once the opens over it have returned. -/
theorem claimed_once_never_leaked {ops : List OpenOp} (hrun : Run Step Opens.init ops s) :
  (s.handed.Pairwise fun h h' => (h.table, h.id) ≠ (h'.table, h'.id))
    ∧ (∀ h ∈ s.handed, h.clientId = h.entry.clientId ∧ h.capability = h.entry.capability
        ∧ h.session = some h.entry.controlTx
        ∧ ∃ o ∈ s.openers, o.table = h.table ∧ o.id = h.id ∧ o.entry = h.entry)
    ∧ ∀ tx, s.TornDown tx → (∀ o ∈ s.openers, o.handle.tx = tx → o.Returned) →
        ∀ table id e, (s.parked table).lookup id = some e → e.controlTx ≠ tx
  := by
  have hs : s.Sound := hrun.invariant Sound.init fun _ _ _ h hstep => h.step hstep
  refine ⟨hs.once, ?_, ?_⟩
  · intro h hh
    obtain ⟨hright, -, i, o, ho, hby, -⟩ := hs.handed h hh
    exact ⟨hright.clientId.symm, hright.capability.symm, hright.session, o,
      List.mem_of_getElem? ho, hby⟩
  · intro tx hdown hreturned table id e he
    exact hs.nothing_left hdown hreturned he

theorem tornDown_of_forall {tx : ℕ} (hclients : ∀ p ∈ s.registry.clients.toList, p.2.tx ≠ tx)
    (hsessions : ∀ task ∈ s.registry.sessions, ∀ c ∈ task.stage.todo, c.tx ≠ tx) :
  s.TornDown tx
  := by
  refine ⟨?_, ?_⟩
  · rintro ⟨id, h, hid, htx⟩
    exact hclients (id, h) (Table.mem_toList.mpr hid) htx
  · intro i task htask
    exact hsessions task (List.mem_of_getElem? htask)

/-- A client registers and begins to serve, and two tasks pick its handle; the first parks and
is handed over. -/
def firstSession : List OpenOp :=
  [.register "a" .tcp none (Bytes.zero 32) false, .serve 0, .route .stream "a", .route .udp "a",
    .number 0 (some (Bytes.zero 32)), .subscribe 0, .check 0, .park 0, .recheck 0, .send 0 true,
    .claim .stream "a" 1 (Bytes.zero 32), .reclaim 0]

/-- The second task goes on to the end. -/
def secondOpen : List OpenOp :=
  [.number 1 (some (Bytes.zero 32)), .subscribe 1, .check 1, .park 1, .recheck 1, .send 1 true]

/-- The client registers anew, while the task of its first session still reads. -/
def superseding : List OpenOp :=
  [.register "a" .tcp none (Bytes.zero 32) false, .duty 1, .duty 1, .duty 1, .serve 1]

/-- A session is superseded while something is parked for it, and nothing is left. -/
theorem claimed_once_never_leaked_superseded :
  ∃ s, Run Step init (firstSession ++ secondOpen ++ superseding) s
    ∧ s.handed.map Handout.id = [1] ∧ s.TornDown 0
    ∧ ∀ table id e, (s.parked table).lookup id = some e → e.controlTx ≠ 0
  := by
  have hview : ∃ s ∈ execute Heeded step init (firstSession ++ secondOpen ++ superseding),
      s.handed.map Handout.id = [1]
        ∧ (∀ p ∈ s.registry.clients.toList, p.2.tx ≠ 0)
        ∧ (∀ task ∈ s.registry.sessions, ∀ c ∈ task.stage.todo, c.tx ≠ 0)
        ∧ ∀ o ∈ s.openers, o.handle.tx = 0 → o.Returned := by
    decide +kernel
  obtain ⟨s, hs, hhanded, hclients, hsessions, hreturned⟩ := hview
  have hdown := tornDown_of_forall hclients hsessions
  have hrun : Run Step init (firstSession ++ secondOpen ++ superseding) s := run_of_execute hs
  exact ⟨s, hrun, hhanded, hdown, (claimed_once_never_leaked hrun).2.2 0 hdown hreturned⟩

/-- The client registers anew, and the task of its first session ends before the new one fires
its watch. -/
def supersedingLate : List OpenOp :=
  [.register "a" .tcp none (Bytes.zero 32) false, .leave 0, .drop 0, .duty 1, .duty 1, .duty 1,
    .serve 1]

/-- A task that has picked the handle of a session looks at its watch only after the new
session has fired it in vain, and what it parks is left behind. -/
theorem source_left_behind :
  ∃ s, Run (fun s op t => s.step op = some t) init
      (firstSession ++ supersedingLate ++ secondOpen) s
    ∧ s.TornDown 0 ∧ (∀ o ∈ s.openers, o.handle.tx = 0 → o.Returned)
    ∧ (s.parked .udp).lookup 2 = some ⟨"a", 0, Bytes.zero 32⟩
  := by
  have hview : ∃ s ∈ execute (fun _ _ => True) step init
        (firstSession ++ supersedingLate ++ secondOpen),
      (∀ p ∈ s.registry.clients.toList, p.2.tx ≠ 0)
        ∧ (∀ task ∈ s.registry.sessions, ∀ c ∈ task.stage.todo, c.tx ≠ 0)
        ∧ (∀ o ∈ s.openers, o.handle.tx = 0 → o.Returned)
        ∧ (s.parked .udp).lookup 2 = some ⟨"a", 0, Bytes.zero 32⟩ := by
    decide +kernel
  obtain ⟨s, hs, hclients, hsessions, hreturned, hleft⟩ := hview
  exact ⟨s, (run_of_execute hs).mono (fun _ _ _ h => h.2),
    tornDown_of_forall hclients hsessions, hreturned, hleft⟩

end Opens

end ZeroNat

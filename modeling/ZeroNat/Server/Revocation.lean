import ZeroNat.Lib.Run
import ZeroNat.Server.Edits

/-!
# Revocation

A client authenticates with the table of credentials that was current when its handshake began,
and its session is registered later.  An edit of the clients replaces the table under one lock,
and then cancels the sessions of the clients whose credential it took away under another.  A
session that is registered after that is not cancelled, whatever it has authenticated under.
-/

namespace ZeroNat

/-- How far a handshake is. -/
inductive HandshakeStage where
  | running
  | authenticated (clientId : String) (psk : Bytes 32)
  | over
deriving DecidableEq

/-- A handshake: the table it has cloned, and how often the table had been replaced before. -/
structure Handshake where
  table : ClientCredentials
  version : ℕ
  stage : HandshakeStage

/-- What a session has authenticated as, and under which credential of which table. -/
structure Account where
  clientId : String
  psk : Bytes 32
  version : ℕ
deriving DecidableEq

/-- A call of `update_clients` that has replaced the table. -/
structure Update where
  old : ClientCredentials
  new : ClientCredentials
  returned : Bool

/-- The update takes a credential away from a client. -/
def Update.Revokes (u : Update) (clientId : String) (psk : Bytes 32) : Prop :=
  (byId u.old).lookup clientId = some psk ∧ (byId u.new).lookup clientId ≠ some psk

instance (u : Update) (clientId : String) (psk : Bytes 32) : Decidable (u.Revokes clientId psk) :=
  inferInstanceAs (Decidable (_ ∧ _))

/-- The server with the handshakes and the updates that are under way.  A session is known by the
number of its channel, which is its position in `sessions`, and `firing` has the sessions that
have left the registry and whose watch is about to be fired. -/
structure Gate where
  topology : Topology
  handshakes : List Handshake
  sessions : List Account
  firing : List ℕ
  updates : List Update

inductive GateOp where
  /-- A handshake begins. -/
  | start
  /-- The peer of a handshake has shown that it has a credential. -/
  | authenticate (i : ℕ) (selector : List UInt8)
  /-- A handshake fails, or the peer does not go on to say hello. -/
  | fail (i : ℕ)
  /-- A client says hello.  `held` says whether the session that has its id has been heard from
  within the window that protects it. -/
  | register (i : ℕ) (transport : ActiveTransport) (peer : Option SocketAddr)
      (bridgeCapability : Capability) (held : Bool)
  /-- A session ends. -/
  | unregister (tx : ℕ)
  | fire (tx : ℕ)
  /-- The list is edited, and the table replaced. -/
  | update (edit : List Config.CfgClient → Except String (List Config.CfgClient))
  /-- The sessions of an update are cancelled, and it returns. -/
  | sweep (k : ℕ)

namespace Gate

/-- A server that has booted. -/
def boot (t : Topology) : Gate where
  topology := t
  handshakes := []
  sessions := []
  firing := []
  updates := []

def register (s : Gate) (a : Account) (transport : ActiveTransport) (peer : Option SocketAddr)
    (bridgeCapability : Capability) (held : Bool) : Gate :=
  let handle := ClientHandle.new a.clientId s.sessions.length transport peer bridgeCapability
  let enter (firing : List ℕ) : Gate :=
    { s with
      topology := { s.topology with clients := s.topology.clients.insert a.clientId handle }
      sessions := s.sessions ++ [a]
      firing := firing }
  match s.topology.clients.lookup a.clientId with
  | none => enter s.firing
  | some superseded => if held then s else enter (superseded.tx :: s.firing)

def unregister (s : Gate) (a : Account) (tx : ℕ) : Gate :=
  if Owned s.topology.clients a.clientId tx then
    { s with
      topology := { s.topology with clients := s.topology.clients.erase a.clientId }
      firing := tx :: s.firing }
  else s

/-- Replace the table and the list. -/
def swap (s : Gate) (next : List Config.CfgClient) (table : ClientCredentials) : Gate :=
  { s with
    topology := { s.topology with fileClients := next, credentials := table }
    updates := s.updates ++ [⟨s.topology.credentials, table, false⟩] }

def step (s : Gate) : GateOp → Option Gate
  | .start =>
      some { s with
        handshakes := s.handshakes ++ [⟨s.topology.credentials, s.updates.length, .running⟩] }
  | .authenticate i selector =>
      match s.handshakes[i]? with
      | some ⟨table, version, .running⟩ =>
          (table.lookup selector).map fun e =>
            { s with handshakes := s.handshakes.set i ⟨table, version, .authenticated e.1 e.2⟩ }
      | _ => none
  | .fail i =>
      (s.handshakes[i]?).map fun h =>
        { s with handshakes := s.handshakes.set i { h with stage := .over } }
  | .register i transport peer bridgeCapability held =>
      match s.handshakes[i]? with
      | some ⟨table, version, .authenticated clientId psk⟩ =>
          some (({ s with handshakes := s.handshakes.set i ⟨table, version, .over⟩ } : Gate).register
            ⟨clientId, psk, version⟩ transport peer bridgeCapability held)
      | _ => none
  | .unregister tx => (s.sessions[tx]?).map fun a => s.unregister a tx
  | .fire tx =>
      if tx ∈ s.firing then
        some { s with
          topology := { s.topology with cancelled := tx :: s.topology.cancelled }
          firing := s.firing.erase tx }
      else none
  | .update edit =>
      match edit s.topology.editable with
      | .error _ => none
      | .ok next =>
          match s.topology.resolve next with
          | .error _ => none
          | .ok table => some (s.swap next table)
  | .sweep k =>
      match s.updates[k]? with
      | none => none
      | some u =>
          if u.returned then none
          else
            some { s with
              topology := s.topology.cancelAll (Topology.revoked u.old u.new)
              updates := s.updates.set k { u with returned := true } }

/-- An update that is swept at once is the edit of the clients. -/
theorem updateClients_of_swept {s t u : Gate}
    {edit : List Config.CfgClient → Except String (List Config.CfgClient)}
    (hswap : s.step (.update edit) = some t)
    (hsweep : t.step (.sweep s.updates.length) = some u) :
  s.topology.updateClients edit = .ok u.topology
  := by
  simp only [step] at hswap
  split at hswap
  · exact absurd hswap (by simp)
  · rename_i next hnext
    split at hswap
    · exact absurd hswap (by simp)
    · rename_i table htable
      obtain rfl := Option.some.inj hswap
      simp only [step, swap, List.getElem?_concat_length, Bool.false_eq_true, if_false,
        Option.some.injEq] at hsweep
      subst hsweep
      simp only [Topology.updateClients, hnext, htable, bind, Except.bind]

/-! ### What an update that has returned means -/

/-- No session that authenticated under a credential that was taken away by an update that has
returned is left in the registry without being cancelled. -/
def Revoked (s : Gate) : Prop :=
  ∀ k u, s.updates[k]? = some u → u.returned → ∀ a, u.Revokes a.clientId a.psk →
    a.version ≤ k → ∀ tx, s.sessions[tx]? = some a →
      Owned s.topology.clients a.clientId tx → tx ∈ s.topology.cancelled

/-- A session is registered before an update that takes its credential away returns, unless the
handshake began after the table was replaced. -/
def Timely (s : Gate) : GateOp → Prop
  | .register i _ _ _ _ =>
      match s.handshakes[i]? with
      | some ⟨_, version, .authenticated clientId psk⟩ =>
          ∀ u ∈ s.updates.drop version, u.returned → ¬ u.Revokes clientId psk
      | _ => True
  | _ => True

instance (s : Gate) (op : GateOp) : Decidable (s.Timely op) :=
  match op with
  | .register i _ _ _ _ =>
      match h : s.handshakes[i]? with
      | some ⟨_, version, .authenticated clientId psk⟩ =>
          decidable_of_iff (∀ u ∈ s.updates.drop version, u.returned → ¬ u.Revokes clientId psk)
            (by rw [Timely, h])
      | some ⟨_, _, .running⟩ => isTrue (by rw [Timely, h]; trivial)
      | some ⟨_, _, .over⟩ => isTrue (by rw [Timely, h]; trivial)
      | none => isTrue (by rw [Timely, h]; trivial)
  | .start => isTrue trivial
  | .authenticate _ _ => isTrue trivial
  | .fail _ => isTrue trivial
  | .unregister _ => isTrue trivial
  | .fire _ => isTrue trivial
  | .update _ => isTrue trivial
  | .sweep _ => isTrue trivial

/-! ### Runs -/

theorem mem_revoked {u : Update} {clientId : String} {psk : Bytes 32}
    (h : u.Revokes clientId psk) :
  clientId ∈ Topology.revoked u.old u.new
  := by
  apply List.mem_filter.mpr
  constructor
  · apply AList.mem_keys.mp
    apply AList.lookup_isSome.mp
    rw [h.1, Option.isSome_some]
  · rw [h.1]
    simpa using h.2

/-- The sweep of an update fires the watch of every client it took a credential from. -/
theorem mem_cancelAll {t : Topology} {u : Update} {clientId : String} {psk : Bytes 32} {tx : ℕ}
    (h : u.Revokes clientId psk) (howned : Owned t.clients clientId tx) :
  tx ∈ (t.cancelAll (Topology.revoked u.old u.new)).cancelled
  := by
  obtain ⟨handle, hlookup, rfl⟩ := howned
  apply List.mem_append_left
  apply List.mem_filterMap.mpr
  use clientId, mem_revoked h
  rw [hlookup, Option.map_some]

/-- A registration in time keeps every update that has returned complete. -/
theorem Revoked.register {s : Gate} (hs : s.Revoked) {a : Account} (transport : ActiveTransport)
    (peer : Option SocketAddr) (bridgeCapability : Capability) (held : Bool)
    (htimely : ∀ u ∈ s.updates.drop a.version, u.returned → ¬ u.Revokes a.clientId a.psk) :
  (s.register a transport peer bridgeCapability held).Revoked
  := by
  have henter (firing : List ℕ) : Revoked { s with
      topology := { s.topology with
        clients := s.topology.clients.insert a.clientId
          (ClientHandle.new a.clientId s.sessions.length transport peer bridgeCapability) }
      sessions := s.sessions ++ [a]
      firing := firing } := by
    intro k u hu hreturned b hrevokes hversion tx hb howned
    obtain ⟨handle, hlookup, htx⟩ := howned
    rw [Table.lookup_insert_eq] at hlookup
    split at hlookup
    · -- The entry is the new one, and no update since its handshake began has taken its
      -- credential away.
      obtain rfl := Option.some.inj hlookup
      have heq : b = a := by
        rw [← htx, ClientHandle.new, List.getElem?_concat_length] at hb
        exact (Option.some.inj hb).symm
      subst heq
      refine absurd hrevokes (htimely u ?_ hreturned)
      apply List.mem_iff_getElem?.mpr
      use k - b.version
      rw [List.getElem?_drop, Nat.add_sub_cancel' hversion]
      exact hu
    · rename_i hne
      have hold : s.sessions[tx]? = some b := by
        rcases Nat.lt_or_ge tx s.sessions.length with hlt | hge
        · rwa [List.getElem?_append_left hlt] at hb
        · rw [List.getElem?_append_right hge, List.getElem?_singleton] at hb
          split at hb
          · exact absurd (congrArg Account.clientId (Option.some.inj hb)).symm hne
          · exact absurd hb (by simp)
      exact hs k u hu hreturned b hrevokes hversion tx hold ⟨handle, hlookup, htx⟩
  unfold Gate.register
  dsimp only
  split
  · exact henter s.firing
  · split
    · exact hs
    · exact henter _

theorem Revoked.unregister {s : Gate} (hs : s.Revoked) (a : Account) (tx : ℕ) :
  (s.unregister a tx).Revoked
  := by
  rw [Gate.unregister]
  split
  · intro k u hu hreturned b hrevokes hversion tx' hb howned
    obtain ⟨handle, hlookup, htx⟩ := howned
    rw [Table.lookup_erase_eq] at hlookup
    split at hlookup
    · exact absurd hlookup (by simp)
    · exact hs k u hu hreturned b hrevokes hversion tx' hb ⟨handle, hlookup, htx⟩
  · exact hs

theorem Revoked.swap {s : Gate} (hs : s.Revoked) (next : List Config.CfgClient)
    (table : ClientCredentials) :
  (s.swap next table).Revoked
  := by
  intro k u hu hreturned
  rcases Nat.lt_or_ge k s.updates.length with hlt | hge
  · rw [Gate.swap, List.getElem?_append_left hlt] at hu
    exact hs k u hu hreturned
  · rw [Gate.swap, List.getElem?_append_right hge, List.getElem?_singleton] at hu
    split at hu
    · obtain rfl := Option.some.inj hu
      exact absurd hreturned (by simp)
    · exact absurd hu (by simp)

/-- The update that is swept is complete, and the others stay so. -/
theorem Revoked.sweep {s : Gate} (hs : s.Revoked) (k : ℕ) (u : Update) :
  Revoked { s with
    topology := s.topology.cancelAll (Topology.revoked u.old u.new)
    updates := s.updates.set k { u with returned := true } }
  := by
  intro j v hv hreturned a hrevokes hversion tx ha howned
  rw [List.getElem?_set] at hv
  split at hv
  · split at hv
    · obtain rfl := Option.some.inj hv
      exact mem_cancelAll (u := u) hrevokes howned
    · exact absurd hv (by simp)
  · exact List.mem_append_right _ (hs j v hv hreturned a hrevokes hversion tx ha howned)

theorem Revoked.step {s t : Gate} {op : GateOp} (hs : s.Revoked) (htimely : s.Timely op)
    (h : s.step op = some t) :
  t.Revoked
  := by
  cases op with
  | start =>
      obtain rfl := Option.some.inj h
      exact hs
  | authenticate i selector =>
      simp only [Gate.step] at h
      split at h
      · obtain ⟨e, -, rfl⟩ := Option.map_eq_some_iff.mp h
        exact hs
      · exact absurd h (by simp)
  | fail i =>
      obtain ⟨e, -, rfl⟩ := Option.map_eq_some_iff.mp h
      exact hs
  | register i transport peer bridgeCapability held =>
      simp only [Gate.step] at h
      split at h
      · rename_i table version clientId psk hi
        obtain rfl := Option.some.inj h
        simp only [Timely, hi] at htimely
        apply Revoked.register
        · exact hs
        · exact htimely
      · exact absurd h (by simp)
  | unregister tx =>
      obtain ⟨a, -, rfl⟩ := Option.map_eq_some_iff.mp h
      exact hs.unregister a tx
  | fire tx =>
      simp only [Gate.step] at h
      split at h
      · obtain rfl := Option.some.inj h
        intro k u hu hreturned a hrevokes hversion tx' ha howned
        exact List.mem_cons_of_mem _ (hs k u hu hreturned a hrevokes hversion tx' ha howned)
      · exact absurd h (by simp)
  | update edit =>
      simp only [Gate.step] at h
      split at h
      · exact absurd h (by simp)
      · split at h
        · exact absurd h (by simp)
        · obtain rfl := Option.some.inj h
          exact hs.swap _ _
  | sweep k =>
      simp only [Gate.step] at h
      split at h
      · exact absurd h (by simp)
      · rename_i u _
        split at h
        · exact absurd h (by simp)
        · obtain rfl := Option.some.inj h
          exact hs.sweep k u

/-- In a run in which every session is registered in time, an update that has returned has
reached every session that authenticated under a credential it took away. -/
theorem revocation_reaches {t : Topology} {ops : List GateOp} {s : Gate}
    (hrun : Run (Meeting Timely fun s op t => s.step op = some t) (boot t) ops s) :
  s.Revoked
  := by
  apply hrun.invariant
  · intro k u hu
    exact absurd hu (by simp [boot])
  · rintro s op t hs ⟨htimely, hstep⟩
    exact hs.step htimely hstep

/-- The client of the command line has been given another secret. -/
def laptopUpdate : GateOp :=
  .update Topology.laptopSecret.on

def hello : GateOp :=
  .register 0 .tcp none (Bytes.zero 32) false

/-- A session is registered, and the update cancels it. -/
def inTime (selector : List UInt8) : List GateOp :=
  [.start, .authenticate 0 selector, hello, laptopUpdate, .sweep 0]

/-- The update returns while a handshake is under way. -/
def overtaken (selector : List UInt8) : List GateOp :=
  [.start, .authenticate 0 selector, laptopUpdate, .sweep 0, hello]

theorem revocation_reaches_laptop :
  ∃ file t selector s, Topology.boot Topology.laptopArgs file = .ok t
    ∧ Run (Meeting Timely fun s op t => s.step op = some t) (boot t) (inTime selector) s
    ∧ s.updates.map Update.returned = [true] ∧ s.topology.cancelled = [0] ∧ s.Revoked
  := by
  have hview : ∃ file ∈ (Config.ServerConfig.parse Topology.plainFile).toOption,
      ∃ t ∈ (Topology.boot Topology.laptopArgs file).toOption, ∃ selector ∈ t.credentials.keys,
      ∃ s ∈ execute Timely step (boot t) (inTime selector),
        s.updates.map Update.returned = [true] ∧ s.topology.cancelled = [0] := by
    decide +kernel
  obtain ⟨file, -, t, ht, selector, -, s, hs, hreturned, hcancelled⟩ := hview
  have hrun := run_of_execute hs
  exact ⟨file, t, selector, s, Config.ok_of_toOption ht, hrun, hreturned, hcancelled,
    revocation_reaches hrun⟩

/-- A session is registered under a credential that was taken away before, and is not
cancelled. -/
theorem session_outlives_credential :
  ∃ file t selector s, Topology.boot Topology.laptopArgs file = .ok t
    ∧ Run (fun s op t => s.step op = some t) (boot t) (overtaken selector) s ∧ ¬ s.Revoked
  := by
  have hview : ∃ file ∈ (Config.ServerConfig.parse Topology.plainFile).toOption,
      ∃ t ∈ (Topology.boot Topology.laptopArgs file).toOption, ∃ selector ∈ t.credentials.keys,
      ∃ s ∈ execute (fun _ _ => True) step (boot t) (overtaken selector),
      ∃ a ∈ s.sessions[0]?,
        (∃ u ∈ s.updates[a.version]?, u.returned ∧ u.Revokes a.clientId a.psk)
          ∧ Owned s.topology.clients a.clientId 0 ∧ 0 ∉ s.topology.cancelled := by
    decide +kernel
  obtain ⟨file, -, t, ht, selector, -, s, hs, a, ha, ⟨u, hu, hreturned, hrevokes⟩, howned,
    hleft⟩ := hview
  refine ⟨file, t, selector, s, Config.ok_of_toOption ht, ?_, ?_⟩
  · exact (run_of_execute hs).mono fun _ _ _ h => h.2
  · intro hrevoked
    exact hleft (hrevoked a.version u hu hreturned a hrevokes le_rfl 0 ha howned)

end Gate

end ZeroNat

import ZeroNat.Proto.Msg

/-!
# Messages that fit the wire

A message is in range when its strings can be length-prefixed, its bytes name something
the decoder knows, and its socket addresses carry nothing the wire does not.  A message
fits when its lists are short enough to be counted; the encoder writes as much of a list
as the count can hold, so that it does not tell a message from its truncation.
-/

open Reader

namespace ZeroNat

/-- A string whose length fits its prefix. -/
def StrFits (s : String) : Prop :=
  (utf8 s).length ≤ u16Max

/-- A list whose length fits its count. -/
def ListFits {α : Type} (l : List α) : Prop :=
  l.length ≤ u16Max

instance : DecidablePred StrFits := fun s => inferInstanceAs (Decidable ((utf8 s).length ≤ u16Max))

instance {α : Type} : DecidablePred (ListFits (α := α)) :=
  fun l => inferInstanceAs (Decidable (l.length ≤ u16Max))

/-- The part of a list that fits its count. -/
def truncate {α : Type} (l : List α) : List α :=
  l.take u16Max

theorem listFits_truncate {α : Type} (l : List α) :
  ListFits (truncate l)
  := List.length_take_le u16Max l

theorem truncate_eq_self {α : Type} {l : List α} (h : ListFits l) :
  truncate l = l
  := List.take_of_length_le h

/-- A set of capabilities within the defined ones. -/
def IsProvides (n : UInt8) : Prop :=
  n &&& ~~~ providesMask = 0

/-- Exactly one defined capability. -/
def IsWant (n : UInt8) : Prop :=
  n &&& ~~~ providesMask = 0 ∧ Rd.countOnes n = 1

/-- The byte of a transport. -/
def IsTransport (n : UInt8) : Prop :=
  n = 1 ∨ n = 2

/-- The byte of the state of a route. -/
def IsRouteState (n : UInt8) : Prop :=
  n = 0 ∨ n = 1

instance : DecidablePred IsProvides :=
  fun n => inferInstanceAs (Decidable (n &&& ~~~ providesMask = 0))

instance : DecidablePred IsWant :=
  fun n => inferInstanceAs (Decidable (n &&& ~~~ providesMask = 0 ∧ Rd.countOnes n = 1))

instance : DecidablePred IsTransport := fun n => inferInstanceAs (Decidable (n = 1 ∨ n = 2))

instance : DecidablePred IsRouteState := fun n => inferInstanceAs (Decidable (n = 0 ∨ n = 1))

/-! ### Entries in range -/

def ClientEntry.InRange (c : ClientEntry) : Prop :=
  StrFits c.clientId ∧ IsTransport c.transport

def RouteEntry.InRange (r : RouteEntry) : Prop :=
  StrFits r.clientId ∧ IsRouteState r.state

def BridgeEntry.InRange (e : BridgeEntry) : Prop :=
  StrFits e.label ∧ IsTransport e.transport ∧ StrFits e.peer

def PairEntry.InRange (p : PairEntry) : Prop :=
  StrFits p.consumerId ∧ StrFits p.providerId ∧ IsWant p.want

def SnapshotBody.InRange (s : SnapshotBody) : Prop :=
  StrFits s.serverId ∧ (∀ c ∈ s.clients, c.InRange) ∧ (∀ r ∈ s.routes, r.InRange)
    ∧ (∀ e ∈ s.bridgeClients, e.InRange) ∧ ∀ p ∈ s.pairs, p.InRange

instance : DecidablePred ClientEntry.InRange := fun _ => inferInstanceAs (Decidable (_ ∧ _))

instance : DecidablePred RouteEntry.InRange := fun _ => inferInstanceAs (Decidable (_ ∧ _))

instance : DecidablePred BridgeEntry.InRange := fun _ => inferInstanceAs (Decidable (_ ∧ _ ∧ _))

instance : DecidablePred PairEntry.InRange := fun _ => inferInstanceAs (Decidable (_ ∧ _ ∧ _))

instance : DecidablePred SnapshotBody.InRange :=
  fun _ => inferInstanceAs (Decidable (_ ∧ _ ∧ _ ∧ _ ∧ _))

/-! ### Entries that fit -/

def ClientEntry.Fits (c : ClientEntry) : Prop :=
  ListFits c.fwd

def BridgeEntry.Fits (e : BridgeEntry) : Prop :=
  ListFits e.macs

def SnapshotBody.Fits (s : SnapshotBody) : Prop :=
  ListFits s.listeners
    ∧ (ListFits s.clients ∧ ∀ c ∈ s.clients, c.Fits)
    ∧ ListFits s.routes
    ∧ (ListFits s.bridgeClients ∧ ∀ e ∈ s.bridgeClients, e.Fits)
    ∧ ListFits s.pairs

instance : DecidablePred ClientEntry.Fits := fun c => inferInstanceAs (Decidable (ListFits c.fwd))

instance : DecidablePred BridgeEntry.Fits := fun e => inferInstanceAs (Decidable (ListFits e.macs))

instance : DecidablePred SnapshotBody.Fits :=
  fun _ => inferInstanceAs (Decidable (_ ∧ (_ ∧ _) ∧ _ ∧ (_ ∧ _) ∧ _))

def ClientEntry.truncate (c : ClientEntry) : ClientEntry :=
  { c with fwd := ZeroNat.truncate c.fwd }

def BridgeEntry.truncate (e : BridgeEntry) : BridgeEntry :=
  { e with macs := ZeroNat.truncate e.macs }

def SnapshotBody.truncate (s : SnapshotBody) : SnapshotBody :=
  { s with
    listeners := ZeroNat.truncate s.listeners
    clients := (ZeroNat.truncate s.clients).map ClientEntry.truncate
    routes := ZeroNat.truncate s.routes
    bridgeClients := (ZeroNat.truncate s.bridgeClients).map BridgeEntry.truncate
    pairs := ZeroNat.truncate s.pairs }

namespace Msg

/-- The strings, enumeration bytes and socket addresses of a message are ones the decoder
accepts. -/
def InRange : Msg → Prop
  | clientHello _ clientId => StrFits clientId
  | clientHelloAck clientId _ => StrFits clientId
  | snapshot snap => snap.InRange
  | setRoute _ _ _ clientId => StrFits clientId
  | mutationResult _ msg => StrFits msg
  | openProxy _ _ _ peer localAddr => peer.Plain ∧ localAddr.Plain
  | peerAnnounce provides _ => IsProvides provides
  | peerAnnounceAck observed => observed.Plain
  | peerConnect _ want => IsWant want
  | peerResult _ want _ _ => IsWant want
  | peerProbe _ _ _ _ _ provides => IsWant provides
  | peerInfo _ candidates => ∀ a ∈ candidates, a.Plain
  | addClient clientId _ => StrFits clientId
  | setClientSecret clientId _ => StrFits clientId
  | removeClient clientId => StrFits clientId
  | disconnectClient clientId => StrFits clientId
  | _ => True

/-- The lists of a message can be counted. -/
def Fits : Msg → Prop
  | snapshot snap => snap.Fits
  | fwdOptions entries => ListFits entries
  | peerInfo _ candidates => ListFits candidates
  | _ => True

/-- The message with each of its lists cut to what its count can hold. -/
def truncate : Msg → Msg
  | snapshot snap => snapshot snap.truncate
  | fwdOptions entries => fwdOptions (ZeroNat.truncate entries)
  | peerInfo pairId candidates => peerInfo pairId (ZeroNat.truncate candidates)
  | m => m

end Msg

/-! ### Truncation -/

theorem mem_of_mem_truncate {α : Type} {l : List α} {a : α} (h : a ∈ truncate l) :
  a ∈ l
  := List.mem_of_mem_take h

/-- A list is written as its truncation. -/
theorem putList_truncate {α : Type} (put : α → List UInt8) (l : List α) :
  putList put (truncate l) = putList put l
  := putList_take put l

/-- A list is written as its truncation, even when its entries are changed to ones that
are written alike. -/
theorem putList_map_truncate {α : Type} {put : α → List UInt8} {f : α → α}
    (hf : ∀ a, put (f a) = put a) (l : List α) :
  putList put ((truncate l).map f) = putList put l
  := by
  rw [← putList_truncate put l]
  simp [putList, putCount, ← List.map_take, List.flatMap_map, hf]

theorem putClient_truncate (c : ClientEntry) :
  putClient c.truncate = putClient c
  := by
  simp only [putClient, ClientEntry.truncate, putFwdEntries, putList_truncate]

theorem putBridge_truncate (e : BridgeEntry) :
  putBridge e.truncate = putBridge e
  := by
  simp only [putBridge, BridgeEntry.truncate, putList_truncate]

namespace SnapshotBody

theorem truncate_inRange {s : SnapshotBody} (h : s.InRange) :
  s.truncate.InRange
  := by
  obtain ⟨hid, hclients, hroutes, hbridge, hpairs⟩ := h
  refine ⟨hid, ?_, ?_, ?_, ?_⟩
  · intro c hc
    obtain ⟨c', hc', rfl⟩ := List.mem_map.mp hc
    exact hclients c' (mem_of_mem_truncate hc')
  · intro r hr
    exact hroutes r (mem_of_mem_truncate hr)
  · intro e he
    obtain ⟨e', he', rfl⟩ := List.mem_map.mp he
    exact hbridge e' (mem_of_mem_truncate he')
  · intro p hp
    exact hpairs p (mem_of_mem_truncate hp)

theorem truncate_fits (s : SnapshotBody) :
  s.truncate.Fits
  := by
  refine ⟨listFits_truncate _, ⟨?_, ?_⟩, listFits_truncate _, ⟨?_, ?_⟩, listFits_truncate _⟩
  · rw [ListFits, truncate, List.length_map]
    exact listFits_truncate s.clients
  · intro c hc
    obtain ⟨c', -, rfl⟩ := List.mem_map.mp hc
    exact listFits_truncate c'.fwd
  · rw [ListFits, truncate, List.length_map]
    exact listFits_truncate s.bridgeClients
  · intro e he
    obtain ⟨e', -, rfl⟩ := List.mem_map.mp he
    exact listFits_truncate e'.macs

/-- Truncating a list whose entries truncation leaves alone. -/
theorem map_truncate_eq_self {α : Type} {f : α → α} {l : List α} (h : ListFits l)
    (hf : ∀ a ∈ l, f a = a) :
  (ZeroNat.truncate l).map f = l
  := by
  rw [truncate_eq_self h]
  exact (List.map_congr_left hf).trans (List.map_id l)

theorem truncate_eq_self {s : SnapshotBody} (h : s.Fits) :
  s.truncate = s
  := by
  obtain ⟨hlisteners, ⟨hclients, hfwd⟩, hroutes, ⟨hbridge, hmacs⟩, hpairs⟩ := h
  have hc : ∀ c ∈ s.clients, c.truncate = c := by
    intro c hc
    rw [ClientEntry.truncate, ZeroNat.truncate_eq_self (hfwd c hc)]
  have he : ∀ e ∈ s.bridgeClients, e.truncate = e := by
    intro e he
    rw [BridgeEntry.truncate, ZeroNat.truncate_eq_self (hmacs e he)]
  rw [truncate, ZeroNat.truncate_eq_self hlisteners, ZeroNat.truncate_eq_self hroutes,
    ZeroNat.truncate_eq_self hpairs, map_truncate_eq_self hclients hc,
    map_truncate_eq_self hbridge he]

end SnapshotBody

namespace Msg

theorem truncate_inRange {m : Msg} (h : m.InRange) :
  m.truncate.InRange
  := by
  cases m with
  | snapshot snap => exact SnapshotBody.truncate_inRange h
  | peerInfo pairId candidates =>
      intro a ha
      exact h a (mem_of_mem_truncate ha)
  | _ => exact h

theorem truncate_fits (m : Msg) :
  m.truncate.Fits
  := by
  cases m with
  | snapshot snap => exact snap.truncate_fits
  | fwdOptions entries => exact listFits_truncate entries
  | peerInfo pairId candidates => exact listFits_truncate candidates
  | _ => trivial

theorem truncate_eq_self {m : Msg} (h : m.Fits) :
  m.truncate = m
  := by
  cases m with
  | snapshot snap => rw [truncate, SnapshotBody.truncate_eq_self h]
  | fwdOptions entries => rw [truncate, ZeroNat.truncate_eq_self h]
  | peerInfo pairId candidates => rw [truncate, ZeroNat.truncate_eq_self h]
  | _ => rfl

/-- The encoder does not tell a message from its truncation. -/
theorem encode_truncate (m : Msg) :
  m.truncate.encode = m.encode
  := by
  cases m with
  | snapshot snap =>
      simp only [truncate, encode, SnapshotBody.truncate, putList_truncate,
        putList_map_truncate putClient_truncate, putList_map_truncate putBridge_truncate]
  | fwdOptions entries =>
      simp only [truncate, encode, putFwdEntries, putList_truncate]
  | peerInfo pairId candidates =>
      simp only [truncate, encode, putList_truncate]
  | _ => rfl

end Msg

end ZeroNat

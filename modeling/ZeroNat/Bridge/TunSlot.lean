import ZeroNat.Bridge.Switch
import ZeroNat.Lib.Run

/-!
# The single slot of a tun switch

A switch for raw packets serves one client at a time.  Attaching takes several steps, and
the steps of many clients interleave: a client takes a port number, is admitted or refused
under the lock of the table, and then ends the relays of the ports it superseded and evicts
them by number; a client that has been heard from says so at any time; and a handle that is
dropped evicts its own port by number, whether or not that port is still in the table.
-/

namespace ZeroNat

/-- What an attach still owes the ports it superseded. -/
inductive Chore where
  | notify (cell : ℕ)
  | evict (portId : UInt32)
deriving DecidableEq

/-- A client of the switch. -/
inductive TunClient where
  /-- It has its port number, and is about to be admitted. -/
  | allotted (h : SwitchHandle) (transport : UInt8) (peer : Option SocketAddr)
  /-- It has been admitted, and ends the relays of the ports it displaced. -/
  | superseding (h : SwitchHandle) (displaced : List (UInt32 × ℕ)) (todo : List Chore)
  /-- Its attach has returned a handle. -/
  | attached (h : SwitchHandle) (displaced : List (UInt32 × ℕ))
  /-- Its attach has returned an error. -/
  | refused
  /-- Its handle has been dropped. -/
  | dropped
deriving DecidableEq

/-- The switch and its clients, each at the position of its cell. -/
structure TunSlot where
  sw : TapSwitch
  clients : List TunClient

/-- The steps of the clients. -/
inductive TunOp where
  /-- A new client begins to attach, over a transport with its own liveness. -/
  | addPort (transport : UInt8) (peer : Option SocketAddr)
  /-- A new client begins to attach, over the datagram channel. -/
  | addDgramPort (peer : SocketAddr)
  /-- The admission of an attach, under the lock of the table. -/
  | admitPort (i : ℕ)
  /-- The next chore of an attach that has been admitted. -/
  | chore (i : ℕ)
  /-- The attach returns. -/
  | finish (i : ℕ)
  /-- A client is heard from. -/
  | prove (i : ℕ)
  /-- A handle is dropped. -/
  | drop (i : ℕ)

namespace TunSlot

def init : TunSlot where
  sw := TapSwitch.build false false
  clients := []

/-- What is owed to superseded ports, in order. -/
def chores (displaced : List (UInt32 × ℕ)) : List Chore :=
  displaced.flatMap fun x => [.notify x.2, .evict x.1]

def runChore (sw : TapSwitch) : Chore → TapSwitch
  | .notify cell => sw.modifyCell cell fun c => { c with cancelled := true }
  | .evict portId => sw.evictPort portId

/-- A client takes its port number. -/
def begin (s : TunSlot) (transport : UInt8) (peer : Option SocketAddr) (proven : Bool) : TunSlot :=
  let (h, sw) := s.sw.allot proven
  { sw := sw, clients := s.clients ++ [.allotted h transport peer] }

/-- The switch after a step of the client at `i`, and what becomes of the client. -/
def put (s : TunSlot) (i : ℕ) (sw : TapSwitch) (c : TunClient) : TunSlot where
  sw := sw
  clients := s.clients.set i c

def step (s : TunSlot) : TunOp → Option TunSlot
  | .addPort transport peer => some (s.begin transport peer true)
  | .addDgramPort peer => some (s.begin 2 (some peer) false)
  | .admitPort i =>
      match s.clients[i]? with
      | some (.allotted h transport peer) =>
          match s.sw.admitPort h transport peer with
          | (.error _, sw) => some (s.put i sw .refused)
          | (.ok displaced, sw) => some (s.put i sw (.superseding h displaced (chores displaced)))
      | _ => none
  | .chore i =>
      match s.clients[i]? with
      | some (.superseding h displaced (chore :: todo)) =>
          some (s.put i (runChore s.sw chore) (.superseding h displaced todo))
      | _ => none
  | .finish i =>
      match s.clients[i]? with
      | some (.superseding h displaced []) => some (s.put i s.sw (.attached h displaced))
      | _ => none
  | .prove i =>
      match s.clients[i]? with
      | some (.attached h displaced) => some (s.put i (s.sw.prove h) (.attached h displaced))
      | _ => none
  | .drop i =>
      match s.clients[i]? with
      | some (.attached h _) => some (s.put i (s.sw.dropHandle h) .dropped)
      | _ => none

def Step (s : TunSlot) (op : TunOp) (t : TunSlot) : Prop :=
  s.step op = some t

/-- Fewer than `2 ^ 32` clients have begun to attach, the one that begins included. -/
def FewAttaches (s : TunSlot) : TunOp → Prop
  | .addPort _ _ => s.clients.length + 1 < 2 ^ 32
  | .addDgramPort _ => s.clients.length + 1 < 2 ^ 32
  | _ => True

instance (s : TunSlot) : DecidablePred s.FewAttaches
  | .addPort _ _ => inferInstanceAs (Decidable (_ < _))
  | .addDgramPort _ => inferInstanceAs (Decidable (_ < _))
  | .admitPort _ => inferInstanceAs (Decidable True)
  | .chore _ => inferInstanceAs (Decidable True)
  | .finish _ => inferInstanceAs (Decidable True)
  | .prove _ => inferInstanceAs (Decidable True)
  | .drop _ => inferInstanceAs (Decidable True)

/-! ### The invariant -/

/-- The handle of the client at `i`. -/
def handleAt (i : ℕ) : SwitchHandle where
  portId := UInt32.ofNat i
  cell := i

theorem portId_inj {i j : ℕ} (hi : i < 2 ^ 32) (hj : j < 2 ^ 32)
    (h : (handleAt i).portId = (handleAt j).portId) :
  i = j
  := by
  have hn := congrArg UInt32.toNat h
  simp only [handleAt, UInt32.toNat_ofNat'] at hn
  rwa [Nat.mod_eq_of_lt hi, Nat.mod_eq_of_lt hj] at hn

/-- A client that is not waiting to be admitted. -/
def Decided (s : TunSlot) (i : ℕ) : Prop :=
  ∀ h transport peer, s.clients[i]? ≠ some (.allotted h transport peer)

/-- A port that has been displaced: its client has had its admission and is not in the table,
so it never comes back. -/
def Gone (s : TunSlot) (x : UInt32 × ℕ) : Prop :=
  x.1 = (handleAt x.2).portId ∧ x.2 < s.clients.length ∧ s.Decided x.2 ∧
    s.sw.ports.lookup x.1 = none

/-- What an attach in progress or returned keeps true. -/
def ClientInv (s : TunSlot) (i : ℕ) : TunClient → Prop
  | .allotted h _ _ => h = handleAt i
  | .superseding h displaced todo => h = handleAt i ∧ (∀ x ∈ displaced, s.Gone x)
      ∧ (∀ x ∈ displaced, s.sw.cancelled x.2 ∨ Chore.notify x.2 ∈ todo)
      ∧ ∀ id, Chore.evict id ∈ todo → ∃ x ∈ displaced, x.1 = id
  | .attached h displaced => h = handleAt i ∧ ∀ x ∈ displaced, s.sw.cancelled x.2
  | .refused => True
  | .dropped => True

structure Inv (s : TunSlot) : Prop where
  isL2 : s.sw.isL2 = false
  length_eq : s.sw.cells.length = s.clients.length
  nextPort_eq : s.sw.nextPort = UInt32.ofNat s.clients.length
  lt : s.clients.length < 2 ^ 32
  size_le : s.sw.ports.size ≤ 1
  ports (id : UInt32) (p : SwitchPort) : s.sw.ports.lookup id = some p →
    id = (handleAt p.cell).portId ∧ p.cell < s.clients.length ∧ s.Decided p.cell
  clients (i : ℕ) (c : TunClient) : s.clients[i]? = some c → s.ClientInv i c

theorem inv_init :
  Inv init
  where
  isL2 := rfl
  length_eq := rfl
  nextPort_eq := rfl
  lt := by simp [init]
  size_le := by simp [init, TapSwitch.build, Table.size]
  ports _ _ h := by simp [init, TapSwitch.build] at h
  clients _ _ h := by simp [init] at h

/-- What is true of a client stays true when displaced ports stay away and signals that have
been sent stay sent. -/
theorem ClientInv.mono {s t : TunSlot} {i : ℕ} {c : TunClient} (h : s.ClientInv i c)
    (hgone : ∀ x, s.Gone x → t.Gone x) (hcancel : ∀ cell, s.sw.cancelled cell → t.sw.cancelled cell) :
  t.ClientInv i c
  := by
  cases c with
  | allotted hd transport peer => exact h
  | superseding hd displaced todo =>
      obtain ⟨hhandle, hdisplaced, hnotify, hevict⟩ := h
      refine ⟨hhandle, fun x hx => hgone x (hdisplaced x hx), ?_, hevict⟩
      intro x hx
      obtain hx | hx := hnotify x hx
      · exact Or.inl (hcancel _ hx)
      · exact Or.inr hx
  | attached hd displaced => exact ⟨h.1, fun x hx => hcancel _ (h.2 x hx)⟩
  | refused => trivial
  | dropped => trivial

theorem decided_put {s : TunSlot} {i j : ℕ} {sw : TapSwitch} {c : TunClient}
    (hc : ∀ h transport peer, c ≠ .allotted h transport peer) (h : j = i ∨ s.Decided j) :
  (s.put i sw c).Decided j
  := by
  intro hd transport peer heq
  rw [put, List.getElem?_set] at heq
  split at heq
  · split at heq
    · exact hc _ _ _ (Option.some.inj heq)
    · simp at heq
  · rename_i hne
    obtain rfl | h := h
    · exact hne rfl
    · exact h _ _ _ heq

/-- A step of the client at `i` that puts no port in the table but its own, and that one only
at its admission. -/
theorem Inv.put {s : TunSlot} (h : Inv s) {i : ℕ} (sw : TapSwitch) {c : TunClient}
    (hL2 : sw.isL2 = false) (hlength : sw.cells.length = s.sw.cells.length)
    (hnext : sw.nextPort = s.sw.nextPort) (hsize : sw.ports.size ≤ 1)
    (hports : ∀ id p, sw.ports.lookup id = some p → s.sw.ports.lookup id = some p
      ∨ (id = (handleAt i).portId ∧ p.cell = i ∧ i < s.clients.length ∧ ¬ s.Decided i))
    (hcancel : ∀ cell, s.sw.cancelled cell → sw.cancelled cell)
    (hc : ∀ h transport peer, c ≠ .allotted h transport peer)
    (hclient : (∀ x, s.Gone x → (s.put i sw c).Gone x) → (s.put i sw c).ClientInv i c) :
  Inv (s.put i sw c)
  := by
  have hlen : (s.put i sw c).clients.length = s.clients.length := List.length_set
  have hgone (x : UInt32 × ℕ) (hx : s.Gone x) : (s.put i sw c).Gone x := by
    obtain ⟨hid, hlt, hdecided, hnone⟩ := hx
    refine ⟨hid, by rwa [hlen], decided_put hc (Or.inr hdecided), ?_⟩
    rw [Option.eq_none_iff_forall_ne_some]
    intro p hp
    obtain hold | ⟨hid', hcell, hi, hnot⟩ := hports x.1 p hp
    · rw [hnone] at hold
      simp at hold
    · rw [hid] at hid'
      have hxi := portId_inj (lt_trans hlt h.lt) (lt_trans hi h.lt) hid'
      rw [hxi] at hdecided
      exact hnot hdecided
  refine ⟨hL2, by rw [hlen]; exact hlength.trans h.length_eq, by rw [hlen]; exact hnext.trans h.nextPort_eq,
    by rw [hlen]; exact h.lt, hsize, ?_, ?_⟩
  · intro id p hp
    rw [hlen]
    obtain hold | ⟨hid, hcell, hi, -⟩ := hports id p hp
    · obtain ⟨hid, hlt, hdecided⟩ := h.ports id p hold
      exact ⟨hid, hlt, decided_put hc (Or.inr hdecided)⟩
    · rw [hcell]
      exact ⟨hid, hi, decided_put hc (Or.inl rfl)⟩
  · intro j d hj
    rw [TunSlot.put, List.getElem?_set] at hj
    split at hj
    · rename_i hij
      split at hj
      · obtain rfl := Option.some.inj hj
        subst hij
        exact hclient hgone
      · simp at hj
    · exact (h.clients j d hj).mono hgone hcancel

theorem getElem?_append_client {s : TunSlot} {c d : TunClient} {j : ℕ}
    (h : (s.clients ++ [c])[j]? = some d) :
  s.clients[j]? = some d ∨ (j = s.clients.length ∧ d = c)
  := by
  rw [List.getElem?_append] at h
  split at h
  · exact Or.inl h
  · right
    obtain hzero | hpos := Nat.eq_zero_or_pos (j - s.clients.length)
    · refine ⟨by omega, ?_⟩
      simpa [hzero, eq_comm] using h
    · rw [List.getElem?_eq_none (by rwa [List.length_singleton])] at h
      simp at h

/-- A client takes its port number. -/
theorem Inv.begin {s : TunSlot} (h : Inv s) (hlt : s.clients.length + 1 < 2 ^ 32)
    (transport : UInt8) (peer : Option SocketAddr) (proven : Bool) :
  Inv (s.begin transport peer proven)
  := by
  have hdecided {j : ℕ} (hj : j < s.clients.length) (hdecided : s.Decided j) :
      (s.begin transport peer proven).Decided j := by
    intro hd transport' peer' heq
    obtain hold | ⟨rfl, -⟩ := getElem?_append_client heq
    · exact hdecided _ _ _ hold
    · omega
  have hlength : (s.begin transport peer proven).clients.length = s.clients.length + 1 := by
    simp [TunSlot.begin]
  refine ⟨h.isL2, ?_, ?_, by rwa [hlength], h.size_le, ?_, ?_⟩
  · simp [TunSlot.begin, TapSwitch.allot, h.length_eq]
  · rw [hlength, UInt32.ofNat_add]
    change s.sw.nextPort + 1 = _
    rw [h.nextPort_eq]
    rfl
  · intro id p hp
    obtain ⟨hid, hcell, hdec⟩ := h.ports id p hp
    exact ⟨hid, by omega, hdecided hcell hdec⟩
  · intro j c hj
    obtain hold | ⟨rfl, rfl⟩ := getElem?_append_client hj
    · apply (h.clients j c hold).mono
      · rintro x ⟨hid, hcell, hdec, hnone⟩
        exact ⟨hid, by omega, hdecided hcell hdec, hnone⟩
      · intro cell hcell
        have hlt : cell < s.sw.cells.length := by
          by_contra hge
          rw [TapSwitch.cancelled, List.getElem?_eq_none (by omega)] at hcell
          simp at hcell
        simpa [TapSwitch.cancelled, TunSlot.begin, TapSwitch.allot,
          List.getElem?_append_left hlt] using hcell
    · simp [ClientInv, handleAt, h.nextPort_eq, h.length_eq]

/-! ### Admission -/

/-- Some port of the table belongs to a client that has been heard from. -/
def Held (s : TunSlot) : Prop :=
  ∃ id p, s.sw.ports.lookup id = some p ∧ s.sw.proven p.cell

theorem held_iff (s : TunSlot) :
  s.Held ↔ (s.sw.ports.toList.any fun x => s.sw.proven x.2.cell) = true
  := by
  rw [List.any_eq_true]
  constructor
  · rintro ⟨id, p, hp, hproven⟩
    exact ⟨(id, p), Table.mem_toList.mpr hp, hproven⟩
  · rintro ⟨⟨id, p⟩, hmem, hproven⟩
    exact ⟨id, p, Table.mem_toList.mp hmem, hproven⟩

/-- The ports of the table, by number and cell. -/
def occupants (s : TunSlot) : List (UInt32 × ℕ) :=
  s.sw.ports.toList.map fun x => (x.1, x.2.cell)

theorem mem_occupants {s : TunSlot} {x : UInt32 × ℕ} :
  x ∈ s.occupants ↔ ∃ p, s.sw.ports.lookup x.1 = some p ∧ p.cell = x.2
  := by
  rw [occupants, List.mem_map]
  constructor
  · rintro ⟨⟨id, p⟩, hmem, rfl⟩
    exact ⟨p, Table.mem_toList.mp hmem, rfl⟩
  · rintro ⟨p, hp, hcell⟩
    exact ⟨(x.1, p), Table.mem_toList.mpr hp, by simp [hcell]⟩

/-- The switch with the port of the client at `i` alone in its table. -/
def sole (s : TunSlot) (i : ℕ) (transport : UInt8) (peer : Option SocketAddr) : TapSwitch :=
  { s.sw with
    ports := AList.insert (handleAt i).portId
      { cell := i, name := none, transport := transport, peer := peer } ∅ }

theorem lookup_sole (s : TunSlot) (i : ℕ) (transport : UInt8) (peer : Option SocketAddr)
    (id : UInt32) :
  (s.sole i transport peer).ports.lookup id
    = if id = (handleAt i).portId then some ⟨i, none, transport, peer⟩ else none
  := by
  rw [sole, Table.lookup_insert_eq, AList.lookup_empty]

/-- What an admission does: while the slot is held the client is refused and nothing else
changes; otherwise its port is the only one, and it owes the former ones their end. -/
theorem step_admitPort {s t : TunSlot} {i : ℕ} (h : Inv s) (hstep : s.Step (.admitPort i) t) :
  ∃ transport peer, s.clients[i]? = some (.allotted (handleAt i) transport peer)
    ∧ ((s.Held ∧ t = s.put i s.sw .refused)
      ∨ (¬ s.Held ∧ t = s.put i (s.sole i transport peer)
        (.superseding (handleAt i) s.occupants (chores s.occupants))))
  := by
  simp only [Step, step] at hstep
  split at hstep
  · rename_i hd transport peer hi
    obtain rfl : hd = handleAt i := h.clients i _ hi
    refine ⟨transport, peer, hi, ?_⟩
    have hL2 : ¬ s.sw.isL2 = true := by
      rw [h.isL2]
      simp
    by_cases hheld : s.Held
    · left
      rw [TapSwitch.admitPort, if_neg hL2, if_pos ((held_iff s).mp hheld)] at hstep
      exact ⟨hheld, (Option.some.inj hstep).symm⟩
    · right
      rw [TapSwitch.admitPort, if_neg hL2, if_neg (mt (held_iff s).mpr hheld)] at hstep
      exact ⟨hheld, (Option.some.inj hstep).symm⟩
  · simp at hstep

theorem not_decided {s : TunSlot} {i : ℕ} {h : SwitchHandle} {transport : UInt8}
    {peer : Option SocketAddr} (hi : s.clients[i]? = some (.allotted h transport peer)) :
  i < s.clients.length ∧ ¬ s.Decided i
  := by
  refine ⟨(List.getElem?_eq_some_iff.mp hi).1, ?_⟩
  intro hdecided
  exact hdecided _ _ _ hi

theorem Inv.admitPort {s t : TunSlot} {i : ℕ} (h : Inv s) (hstep : s.Step (.admitPort i) t) :
  Inv t
  := by
  obtain ⟨transport, peer, hi, ⟨hheld, rfl⟩ | ⟨hheld, rfl⟩⟩ := step_admitPort h hstep
  · apply h.put _ h.isL2 rfl rfl h.size_le
    · intro id p hp
      exact Or.inl hp
    · exact fun _ hc => hc
    · simp
    · intro _
      trivial
  · obtain ⟨hlt, hnot⟩ := not_decided hi
    apply h.put (s.sole i transport peer) h.isL2 rfl rfl
    · exact (Table.size_insert_empty _ _).le
    · intro id p hp
      rw [lookup_sole] at hp
      split at hp
      · rename_i hid
        obtain rfl := Option.some.inj hp
        exact Or.inr ⟨hid, rfl, hlt, hnot⟩
      · simp at hp
    · exact fun _ hc => hc
    · simp
    · intro _
      refine ⟨rfl, ?_, ?_, ?_⟩
      · intro x hx
        obtain ⟨p, hp, hcell⟩ := mem_occupants.mp hx
        obtain ⟨hid, hplt, hdecided⟩ := h.ports x.1 p hp
        rw [hcell] at hid hplt hdecided
        refine ⟨hid, by rwa [TunSlot.put, List.length_set], decided_put (by simp) (Or.inr hdecided), ?_⟩
        change (s.sole i transport peer).ports.lookup x.1 = none
        rw [lookup_sole, if_neg]
        intro heq
        rw [hid] at heq
        have hxi := portId_inj (lt_trans hplt h.lt) (lt_trans hlt h.lt) heq
        rw [hxi] at hdecided
        exact hnot hdecided
      · intro x hx
        right
        exact List.mem_flatMap.mpr ⟨x, hx, by simp⟩
      · intro id hid
        obtain ⟨x, hx, hmem⟩ := List.mem_flatMap.mp hid
        exact ⟨x, hx, by simpa [eq_comm] using hmem⟩

/-! ### The other steps -/

theorem cancelled_modifyCell {sw : TapSwitch} {cell c : ℕ} {f : PortCell → PortCell}
    (hf : ∀ x, x.cancelled → (f x).cancelled) (h : sw.cancelled c) :
  (sw.modifyCell cell f).cancelled c
  := by
  simp only [TapSwitch.cancelled, TapSwitch.modifyCell, List.getElem?_modify] at h ⊢
  cases hc : sw.cells[c]? with
  | none => simp [hc] at h
  | some x =>
      rw [hc] at h
      split
      · exact hf x h
      · exact h

theorem cancelled_notify {sw : TapSwitch} {cell : ℕ} (h : cell < sw.cells.length) :
  (runChore sw (.notify cell)).cancelled cell
  := by
  simp [runChore, TapSwitch.cancelled, TapSwitch.modifyCell, List.getElem?_eq_getElem h]

/-- The chores of an attach leave the table alone: what they evict is gone already. -/
theorem step_chore {s t : TunSlot} {i : ℕ} (h : Inv s) (hstep : s.Step (.chore i) t) :
  t.sw.ports.size ≤ 1 ∧ ∀ id, t.sw.ports.lookup id = s.sw.ports.lookup id
  := by
  simp only [Step, step] at hstep
  split at hstep
  · rename_i hd displaced chore todo hi
    obtain rfl := Option.some.inj hstep
    obtain ⟨-, hgone, -, hevict⟩ := h.clients i _ hi
    cases chore with
    | notify cell => exact ⟨h.size_le, fun _ => rfl⟩
    | evict portId =>
        obtain ⟨x, hx, rfl⟩ := hevict portId List.mem_cons_self
        refine ⟨(Table.size_erase_le _ _).trans h.size_le, ?_⟩
        intro id
        change AList.lookup id (s.sw.ports.erase x.1) = _
        rw [Table.lookup_erase_eq]
        split
        · rename_i hid
          rw [hid, (hgone x hx).2.2.2]
        · rfl
  · simp at hstep

theorem Inv.chore {s t : TunSlot} {i : ℕ} (h : Inv s) (hstep : s.Step (.chore i) t) :
  Inv t
  := by
  obtain ⟨hsize, hports⟩ := step_chore h hstep
  simp only [Step, step] at hstep
  split at hstep
  · rename_i hd displaced chore todo hi
    obtain rfl := Option.some.inj hstep
    obtain ⟨hhandle, hgone, hnotify, hevict⟩ := h.clients i _ hi
    have hcancel (cell : ℕ) (hc : s.sw.cancelled cell) : (runChore s.sw chore).cancelled cell := by
      cases chore with
      | notify c => exact cancelled_modifyCell (fun _ _ => rfl) hc
      | evict portId => exact hc
    apply h.put _ (by cases chore <;> exact h.isL2) _ (by cases chore <;> rfl) hsize _ hcancel (by simp)
    · intro hgone'
      refine ⟨hhandle, fun x hx => hgone' x (hgone x hx), ?_, ?_⟩
      · intro x hx
        obtain hc | hmem := hnotify x hx
        · exact Or.inl (hcancel _ hc)
        · obtain heq | hmem := List.mem_cons.mp hmem
          · left
            rw [← heq]
            apply cancelled_notify
            rw [h.length_eq]
            exact (hgone x hx).2.1
          · exact Or.inr hmem
      · intro id hid
        exact hevict id (List.mem_cons_of_mem _ hid)
    · cases chore with
      | notify c => exact List.length_modify _ _ _
      | evict portId => rfl
    · intro id p hp
      left
      rw [← hports id]
      exact hp
  · simp at hstep

theorem Inv.finish {s t : TunSlot} {i : ℕ} (h : Inv s) (hstep : s.Step (.finish i) t) :
  Inv t
  := by
  simp only [Step, step] at hstep
  split at hstep
  · rename_i hd displaced hi
    obtain rfl := Option.some.inj hstep
    obtain ⟨hhandle, -, hnotify, -⟩ := h.clients i _ hi
    apply h.put _ h.isL2 rfl rfl h.size_le (fun _ _ hp => Or.inl hp) (fun _ hc => hc) (by simp)
    intro _
    refine ⟨hhandle, ?_⟩
    intro x hx
    obtain hc | hmem := hnotify x hx
    · exact hc
    · simp at hmem
  · simp at hstep

theorem Inv.prove {s t : TunSlot} {i : ℕ} (h : Inv s) (hstep : s.Step (.prove i) t) :
  Inv t
  := by
  simp only [Step, step] at hstep
  split at hstep
  · rename_i hd displaced hi
    obtain rfl := Option.some.inj hstep
    obtain ⟨hhandle, hcancelled⟩ := h.clients i _ hi
    have hcancel (cell : ℕ) (hc : s.sw.cancelled cell) : (s.sw.prove hd).cancelled cell :=
      cancelled_modifyCell (fun _ hx => hx) hc
    apply h.put (s.sw.prove hd) h.isL2 (List.length_modify _ _ _) rfl h.size_le
      (fun _ _ hp => Or.inl hp) hcancel (by simp)
    intro _
    exact ⟨hhandle, fun x hx => hcancel _ (hcancelled x hx)⟩
  · simp at hstep

/-- Dropping a handle takes away its own port and no other. -/
theorem step_drop {s t : TunSlot} {i : ℕ} (h : Inv s) (hstep : s.Step (.drop i) t) :
  t = s.put i (s.sw.dropHandle (handleAt i)) .dropped ∧ i < s.clients.length
  := by
  simp only [Step, step] at hstep
  split at hstep
  · rename_i hd displaced hi
    obtain ⟨rfl, -⟩ := h.clients i _ hi
    exact ⟨(Option.some.inj hstep).symm, (List.getElem?_eq_some_iff.mp hi).1⟩
  · simp at hstep

theorem lookup_dropHandle (sw : TapSwitch) (h : SwitchHandle) (id : UInt32) :
  (sw.dropHandle h).ports.lookup id = if id = h.portId then none else sw.ports.lookup id
  := Table.lookup_erase_eq sw.ports h.portId id

theorem Inv.drop {s t : TunSlot} {i : ℕ} (h : Inv s) (hstep : s.Step (.drop i) t) :
  Inv t
  := by
  obtain ⟨rfl, -⟩ := step_drop h hstep
  apply h.put (s.sw.dropHandle (handleAt i)) h.isL2 (List.length_modify _ _ _) rfl
  · exact (Table.size_erase_le _ _).trans h.size_le
  · intro id p hp
    rw [lookup_dropHandle] at hp
    split at hp
    · simp at hp
    · exact Or.inl hp
  · intro cell hc
    exact cancelled_modifyCell (fun _ hx => hx) hc
  · simp
  · intro _
    trivial

theorem Inv.step {s t : TunSlot} {op : TunOp} (h : Inv s) (hfew : s.FewAttaches op)
    (hstep : s.Step op t) :
  Inv t
  := by
  cases op with
  | addPort transport peer =>
      obtain rfl := Option.some.inj hstep
      apply h.begin hfew
  | addDgramPort peer =>
      obtain rfl := Option.some.inj hstep
      apply h.begin hfew
  | admitPort i => exact h.admitPort hstep
  | chore i => exact h.chore hstep
  | finish i => exact h.finish hstep
  | prove i => exact h.prove hstep
  | drop i => exact h.drop hstep

theorem inv_of_run {ops : List TunOp} {s : TunSlot}
    (h : Run (Meeting FewAttaches Step) init ops s) :
  Inv s
  := by
  apply h.invariant inv_init
  rintro s op t hs ⟨hfew, hstep⟩
  exact hs.step hfew hstep

/-! ### Attaches that displace -/

/-- The client at `i` has been admitted in the place of the given ports. -/
def Displaced (s : TunSlot) (i : ℕ) (displaced : List (UInt32 × ℕ)) : Prop :=
  (∃ h todo, s.clients[i]? = some (.superseding h displaced todo))
    ∨ (∃ h, s.clients[i]? = some (.attached h displaced))
    ∨ s.clients[i]? = some .dropped

theorem getElem?_put {s : TunSlot} {i j : ℕ} {sw : TapSwitch} {c d : TunClient}
    (hi : s.clients[i]? = some d) :
  (s.put j sw c).clients[i]? = if j = i then some c else some d
  := by
  have hlt := (List.getElem?_eq_some_iff.mp hi).1
  rw [put, List.getElem?_set]
  split
  · rename_i hij
    rw [if_pos (by rwa [hij])]
  · exact hi

/-- A client never forgets the ports it was admitted in the place of. -/
theorem Displaced.step {s t : TunSlot} {op : TunOp} {i : ℕ} {displaced : List (UInt32 × ℕ)}
    (h : s.Displaced i displaced) (hstep : s.Step op t) :
  t.Displaced i displaced
  := by
  obtain ⟨d, hi⟩ : ∃ d, s.clients[i]? = some d := by
    obtain ⟨hd, todo, hi⟩ | ⟨hd, hi⟩ | hi := h <;> exact ⟨_, hi⟩
  -- A step of another client leaves this one alone.
  have hother {j : ℕ} {sw : TapSwitch} {c : TunClient} (hij : j ≠ i) :
      (s.put j sw c).Displaced i displaced := by
    rw [Displaced, getElem?_put hi, if_neg hij, ← hi]
    exact h
  have happend (c : TunClient) (sw : TapSwitch) :
      Displaced { sw := sw, clients := s.clients ++ [c] } i displaced := by
    rw [Displaced, List.getElem?_append_left (List.getElem?_eq_some_iff.mp hi).1]
    exact h
  cases op with
  | addPort transport peer =>
      obtain rfl := Option.some.inj hstep
      apply happend
  | addDgramPort peer =>
      obtain rfl := Option.some.inj hstep
      apply happend
  | admitPort j =>
      simp only [Step, TunSlot.step] at hstep
      split at hstep
      · rename_i hd transport peer hj
        have hij : j ≠ i := by
          rintro rfl
          obtain ⟨_, _, hi⟩ | ⟨_, hi⟩ | hi := h <;> simp [hj] at hi
        split at hstep
        · obtain rfl := Option.some.inj hstep
          exact hother hij
        · obtain rfl := Option.some.inj hstep
          exact hother hij
      · simp at hstep
  | chore j =>
      simp only [Step, TunSlot.step] at hstep
      split at hstep
      · rename_i hd displaced' chore todo hj
        obtain rfl := Option.some.inj hstep
        by_cases hij : j = i
        · subst hij
          obtain ⟨_, _, hi'⟩ | ⟨_, hi'⟩ | hi' := h
          · rw [hj] at hi'
            injection hi' with hi'
            injection hi' with _ hdisplaced _
            left
            exact ⟨hd, todo, by rw [getElem?_put hj, if_pos rfl, hdisplaced]⟩
          · simp [hj] at hi'
          · simp [hj] at hi'
        · exact hother hij
      · simp at hstep
  | finish j =>
      simp only [Step, TunSlot.step] at hstep
      split at hstep
      · rename_i hd displaced' hj
        obtain rfl := Option.some.inj hstep
        by_cases hij : j = i
        · subst hij
          obtain ⟨_, _, hi'⟩ | ⟨_, hi'⟩ | hi' := h
          · rw [hj] at hi'
            injection hi' with hi'
            injection hi' with _ hdisplaced _
            right; left
            exact ⟨hd, by rw [getElem?_put hj, if_pos rfl, hdisplaced]⟩
          · simp [hj] at hi'
          · simp [hj] at hi'
        · exact hother hij
      · simp at hstep
  | prove j =>
      simp only [Step, TunSlot.step] at hstep
      split at hstep
      · rename_i hd displaced' hj
        obtain rfl := Option.some.inj hstep
        by_cases hij : j = i
        · subst hij
          rw [Displaced, getElem?_put hj, if_pos rfl, ← hj]
          exact h
        · exact hother hij
      · simp at hstep
  | drop j =>
      simp only [Step, TunSlot.step] at hstep
      split at hstep
      · rename_i hd displaced' hj
        obtain rfl := Option.some.inj hstep
        by_cases hij : j = i
        · subst hij
          right; right
          rw [getElem?_put hj, if_pos rfl]
        · exact hother hij
      · simp at hstep

/-- The attach of the client at `i` has returned its handle. -/
def Returned (s : TunSlot) (i : ℕ) : Prop :=
  ∃ h displaced, s.clients[i]? = some (.attached h displaced)

/-- By the time an attach returns, the relays of the ports it displaced have been told to
stop. -/
theorem cancelled_of_returned {s t u : TunSlot} {i : ℕ} {ops : List TunOp} (h : Inv s)
    (hadmitted : s.Step (.admitPort i) t) (hheld : ¬ s.Held)
    (hrun : Run (Meeting FewAttaches Step) t ops u) (hreturned : u.Returned i)
    {x : UInt32 × ℕ} (hx : x ∈ s.occupants) :
  u.sw.cancelled x.2
  := by
  have hkeep : Inv u ∧ u.Displaced i s.occupants := by
    apply hrun.invariant (I := fun u => Inv u ∧ u.Displaced i s.occupants)
    · refine ⟨h.admitPort hadmitted, ?_⟩
      obtain ⟨transport, peer, hi, ⟨hheld', -⟩ | ⟨-, rfl⟩⟩ := step_admitPort h hadmitted
      · exact (hheld hheld').elim
      · left
        exact ⟨_, _, by rw [getElem?_put hi, if_pos rfl]⟩
    · rintro v op w ⟨hv, hdisplaced⟩ ⟨hfew, hstep⟩
      exact ⟨hv.step hfew hstep, hdisplaced.step hstep⟩
  obtain ⟨hu, hdisplaced⟩ := hkeep
  obtain ⟨hd, displaced, hi⟩ := hreturned
  obtain ⟨_, _, hi'⟩ | ⟨_, hi'⟩ | hi' := hdisplaced
  · simp [hi] at hi'
  · exact (hu.clients i _ hi').2 x hx
  · simp [hi] at hi'

end TunSlot

end ZeroNat

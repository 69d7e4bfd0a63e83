import ZeroNat.Bridge.Learning

/-!
# Where the switch delivers

A frame that reaches the switch is aimed at some of its ports.  Those whose queue is read get it
once, those whose queue nobody reads any more are evicted together with the addresses learned
behind them, and nothing else changes.  What the frame is aimed at is decided after its own source
has been learned, or forgotten; so a frame that is addressed to its own source is never aimed at
the port that this source was bound to before.
-/

namespace ZeroNat

namespace TapSwitch

/-- The frames waiting in a cell. -/
def queueAt (sw : TapSwitch) (cell : ℕ) : List Frame :=
  ((sw.cells[cell]?).map PortCell.queue).getD []

/-- No two ports share a queue. -/
def Apart (sw : TapSwitch) : Prop :=
  ∀ id id' port port', sw.ports.lookup id = some port → sw.ports.lookup id' = some port' →
    port.cell = port'.cell → id = id'

/-- No queue is full. -/
def Roomy (sw : TapSwitch) : Prop :=
  ∀ cell, (sw.queueAt cell).length < switchPortCap

/-! ### Sending to one port -/

/-- A frame has been put in a queue, and nothing else has changed. -/
structure Queued (sw sw' : TapSwitch) (frame : Frame) (cells : ℕ → Prop) : Prop where
  ports_eq : sw'.ports = sw.ports
  macs_eq : sw'.macs = sw.macs
  written_eq : sw'.written = sw.written
  rxOpen_eq (cell : ℕ) : sw'.rxOpen cell = sw.rxOpen cell
  queued (cell : ℕ) : cells cell → sw'.queueAt cell = sw.queueAt cell ++ [frame]
  spared (cell : ℕ) : ¬ cells cell → sw'.queueAt cell = sw.queueAt cell

theorem Queued.none (sw : TapSwitch) (frame : Frame) :
  Queued sw sw frame fun _ => False
  where
  ports_eq := rfl
  macs_eq := rfl
  written_eq := rfl
  rxOpen_eq _ := rfl
  queued _ h := h.elim
  spared _ _ := rfl

theorem trySend_of_closed {sw : TapSwitch} {cell : ℕ} (h : sw.rxOpen cell = false) (frame : Frame) :
  sw.trySend cell frame = (.closed, sw)
  := by
  rw [trySend]
  rw [rxOpen] at h
  cases hcell : sw.cells[cell]? with
  | none => rfl
  | some c =>
      have hread : c.rxOpen = false := by simpa [hcell] using h
      dsimp only
      rw [if_pos hread]

theorem trySend_of_open {sw : TapSwitch} {cell : ℕ} (h : sw.rxOpen cell = true)
    (hroom : (sw.queueAt cell).length < switchPortCap) (frame : Frame) :
  ∃ sw', sw.trySend cell frame = (.sent, sw') ∧ Queued sw sw' frame fun c => c = cell
  := by
  rw [trySend]
  rw [rxOpen] at h
  rw [queueAt] at hroom
  cases hcell : sw.cells[cell]? with
  | none => simp [hcell] at h
  | some c =>
      rw [hcell] at h hroom
      have hopen : ¬ c.rxOpen = false := by simpa using h
      have hroom : ¬ switchPortCap ≤ c.queue.length := by simpa using hroom
      dsimp only
      rw [if_neg hopen, if_neg hroom]
      refine ⟨_, rfl, rfl, rfl, rfl, ?_, ?_, ?_⟩
      · intro c'
        apply rxOpen_modifyCell
        intro x
        rfl
      · rintro c' rfl
        simp [queueAt, modifyCell, hcell]
      · intro c' hne
        simp [queueAt, modifyCell, Ne.symm hne]

/-! ### Sending to several ports -/

/-- Copying a frame to ports with queues of their own: those that are read get it, and the others
are reported. -/
theorem sendAll_spec (frame : Frame) {targets : List (UInt32 × SwitchPort)} {sw : TapSwitch}
    (hapart : (targets.map fun x => x.2.cell).Nodup)
    (hroom : ∀ x ∈ targets, (sw.queueAt x.2.cell).length < switchPortCap) :
  Queued sw (sendAll frame targets sw).1 frame
      (fun cell => sw.rxOpen cell = true ∧ ∃ x ∈ targets, x.2.cell = cell)
    ∧ ∀ id, id ∈ (sendAll frame targets sw).2
        ↔ ∃ port, (id, port) ∈ targets ∧ sw.rxOpen port.cell = false
  := by
  induction targets generalizing sw with
  | nil => exact ⟨by simpa [sendAll] using Queued.none sw frame, by simp [sendAll]⟩
  | cons target targets ih =>
      obtain ⟨id, port⟩ := target
      rw [List.map_cons, List.nodup_cons] at hapart
      obtain ⟨hnew, hapart⟩ := hapart
      have hother : ∀ x ∈ targets, x.2.cell ≠ port.cell := by
        intro x hx heq
        exact hnew (List.mem_map.mpr ⟨x, hx, heq⟩)
      rw [sendAll]
      cases hopen : sw.rxOpen port.cell with
      | false =>
          obtain ⟨hqueued, hclosed⟩ := ih hapart fun x hx => hroom x (List.mem_cons_of_mem _ hx)
          rw [trySend_of_closed hopen]
          refine ⟨⟨hqueued.ports_eq, hqueued.macs_eq, hqueued.written_eq, hqueued.rxOpen_eq,
            ?_, ?_⟩, ?_⟩
          · rintro cell ⟨hcell, x, hx, rfl⟩
            obtain rfl | hx := List.mem_cons.mp hx
            · rw [hopen] at hcell
              simp at hcell
            · exact hqueued.queued _ ⟨hcell, x, hx, rfl⟩
          · intro cell hcell
            apply hqueued.spared
            rintro ⟨hread, x, hx, rfl⟩
            exact hcell ⟨hread, x, List.mem_cons_of_mem _ hx, rfl⟩
          · intro id'
            rw [List.mem_cons, hclosed]
            constructor
            · rintro (rfl | ⟨port', hmem, hread⟩)
              · exact ⟨port, List.mem_cons_self, hopen⟩
              · exact ⟨port', List.mem_cons_of_mem _ hmem, hread⟩
            · rintro ⟨port', hmem, hread⟩
              obtain heq | hmem := List.mem_cons.mp hmem
              · exact .inl (Prod.mk.inj heq).1
              · exact .inr ⟨port', hmem, hread⟩
      | true =>
          obtain ⟨sw', hsend, hfirst⟩ :=
            trySend_of_open hopen (hroom (id, port) List.mem_cons_self) frame
          have hroom' : ∀ x ∈ targets, (sw'.queueAt x.2.cell).length < switchPortCap := by
            intro x hx
            rw [hfirst.spared _ (hother x hx)]
            exact hroom x (List.mem_cons_of_mem _ hx)
          obtain ⟨hqueued, hclosed⟩ := ih hapart hroom'
          simp only [hfirst.rxOpen_eq] at hqueued hclosed
          rw [hsend]
          refine ⟨⟨hqueued.ports_eq.trans hfirst.ports_eq, hqueued.macs_eq.trans hfirst.macs_eq,
            hqueued.written_eq.trans hfirst.written_eq,
            fun cell => (hqueued.rxOpen_eq cell).trans (hfirst.rxOpen_eq cell), ?_, ?_⟩, ?_⟩
          · rintro cell ⟨hcell, x, hx, rfl⟩
            obtain rfl | hx := List.mem_cons.mp hx
            · -- the cell of the first port is none of the later ones
              have hlater : ¬ (sw.rxOpen port.cell = true
                  ∧ ∃ x ∈ targets, x.2.cell = port.cell) := by
                rintro ⟨-, x, hx, heq⟩
                exact hother x hx heq
              dsimp only
              rw [hqueued.spared _ hlater, hfirst.queued _ rfl]
            · rw [hqueued.queued _ ⟨hcell, x, hx, rfl⟩, hfirst.spared _ (hother x hx)]
          · intro cell hcell
            have hlater : ¬ (sw.rxOpen cell = true ∧ ∃ x ∈ targets, x.2.cell = cell) := by
              rintro ⟨hread, x, hx, rfl⟩
              exact hcell ⟨hread, x, List.mem_cons_of_mem _ hx, rfl⟩
            have hne : ¬ cell = port.cell := by
              rintro rfl
              exact hcell ⟨hopen, _, List.mem_cons_self, rfl⟩
            dsimp only
            rw [hqueued.spared _ hlater, hfirst.spared _ hne]
          · intro id'
            dsimp only
            rw [hclosed]
            constructor
            · rintro ⟨port', hmem, hread⟩
              exact ⟨port', List.mem_cons_of_mem _ hmem, hread⟩
            · rintro ⟨port', hmem, hread⟩
              obtain heq | hmem := List.mem_cons.mp hmem
              · rw [(Prod.mk.inj heq).2, hopen] at hread
                simp at hread
              · exact ⟨port', hmem, hread⟩

/-! ### Eviction -/

theorem cells_foldl_evictPort (ids : List UInt32) (sw : TapSwitch) :
  (ids.foldl evictPort sw).cells = sw.cells ∧ (ids.foldl evictPort sw).written = sw.written
  := by
  induction ids generalizing sw with
  | nil => exact ⟨rfl, rfl⟩
  | cons id ids ih => exact ih (sw.evictPort id)

theorem ports_foldl_evictPort (ids : List UInt32) (sw : TapSwitch) (id : UInt32)
    (port : SwitchPort) :
  (ids.foldl evictPort sw).ports.lookup id = some port
    ↔ sw.ports.lookup id = some port ∧ id ∉ ids
  := by
  induction ids generalizing sw with
  | nil => simp
  | cons id' ids ih =>
      rw [List.foldl_cons, ih, evictPort, Table.lookup_erase_eq, List.mem_cons]
      by_cases h : id = id'
      · simp [h]
      · simp [h]

theorem macs_foldl_evictPort (ids : List UInt32) (sw : TapSwitch) (mac : MacAddr) (id : UInt32) :
  (ids.foldl evictPort sw).macs.lookup mac = some id
    ↔ sw.macs.lookup mac = some id ∧ id ∉ ids
  := by
  induction ids generalizing sw with
  | nil => simp
  | cons id' ids ih =>
      rw [List.foldl_cons, ih, evictPort, Table.lookup_retain, List.mem_cons, decide_eq_true_eq,
        not_or, and_assoc]

/-! ### Passing a frame on -/

/-- The port is attached, and its queue is read or not. -/
def Listens (sw : TapSwitch) (id : UInt32) (read : Bool) : Prop :=
  ∃ port, sw.ports.lookup id = some port ∧ sw.rxOpen port.cell = read

/-- The cell is that of a port that is aimed at and reads its queue. -/
def Reached (sw : TapSwitch) (aimed : UInt32 → Prop) (cell : ℕ) : Prop :=
  ∃ id port, sw.ports.lookup id = some port ∧ aimed id ∧ sw.rxOpen port.cell = true
    ∧ port.cell = cell

/-- A frame has been passed on to the ports that it is aimed at: those that read their queue have
it, once; those whose queue nobody reads are gone, and their addresses with them; and all else is
as it was. -/
structure Passes (sw sw' : TapSwitch) (frame : Frame) (aimed : UInt32 → Prop) : Prop where
  written_eq : sw'.written = sw.written
  rxOpen_eq (cell : ℕ) : sw'.rxOpen cell = sw.rxOpen cell
  queued (cell : ℕ) : sw.Reached aimed cell → sw'.queueAt cell = sw.queueAt cell ++ [frame]
  spared (cell : ℕ) : ¬ sw.Reached aimed cell → sw'.queueAt cell = sw.queueAt cell
  ports_iff (id : UInt32) (port : SwitchPort) :
    sw'.ports.lookup id = some port
      ↔ sw.ports.lookup id = some port ∧ ¬ (aimed id ∧ sw.Listens id false)
  macs_iff (mac : MacAddr) (id : UInt32) :
    sw'.macs.lookup mac = some id
      ↔ sw.macs.lookup mac = some id ∧ ¬ (aimed id ∧ sw.Listens id false)

theorem Passes.none (sw : TapSwitch) (frame : Frame) {aimed : UInt32 → Prop}
    (h : ∀ id port, sw.ports.lookup id = some port → ¬ aimed id) :
  Passes sw sw frame aimed
  := by
  have hlistens (id : UInt32) : ¬ (aimed id ∧ sw.Listens id false) := by
    rintro ⟨haimed, port, hport, -⟩
    exact h id port hport haimed
  refine ⟨rfl, fun _ => rfl, ?_, fun _ _ => rfl, ?_, ?_⟩
  · rintro cell ⟨id, port, hport, haimed, -⟩
    exact absurd haimed (h id port hport)
  · intro id port
    exact (and_iff_left (hlistens id)).symm
  · intro mac id
    exact (and_iff_left (hlistens id)).symm

/-- Frames that are in their queues, after the eviction of the ports that were found closed. -/
theorem Queued.passes {sw sw' : TapSwitch} {frame : Frame} {aimed : UInt32 → Prop} {cells : ℕ → Prop}
    (h : Queued sw sw' frame cells) {closed : List UInt32}
    (hcells : ∀ cell, cells cell ↔ sw.Reached aimed cell)
    (hclosed : ∀ id, id ∈ closed ↔ aimed id ∧ sw.Listens id false) :
  Passes sw (closed.foldl evictPort sw') frame aimed
  := by
  obtain ⟨hcellsEq, hwritten⟩ := cells_foldl_evictPort closed sw'
  have hqueue (cell : ℕ) : (closed.foldl evictPort sw').queueAt cell = sw'.queueAt cell := by
    rw [queueAt, hcellsEq]
    rfl
  refine ⟨hwritten.trans h.written_eq, ?_, ?_, ?_, ?_, ?_⟩
  · intro cell
    rw [rxOpen, hcellsEq]
    exact h.rxOpen_eq cell
  · intro cell hcell
    rw [hqueue, h.queued cell ((hcells cell).mpr hcell)]
  · intro cell hcell
    rw [hqueue, h.spared cell fun hc => hcell ((hcells cell).mp hc)]
  · intro id port
    rw [ports_foldl_evictPort, h.ports_eq, hclosed]
  · intro mac id
    rw [macs_foldl_evictPort, h.macs_eq, hclosed]

theorem passes_floodExcept {sw : TapSwitch} (hapart : sw.Apart) (hroom : sw.Roomy) (frame : Frame)
    (except : Option UInt32) :
  Passes sw (sw.floodExcept frame except) frame fun id => some id ≠ except
  := by
  have hmem {id : UInt32} {port : SwitchPort} :
      (id, port) ∈ sw.ports.toList.filter (fun x => some x.1 ≠ except)
        ↔ sw.ports.lookup id = some port ∧ some id ≠ except := by
    rw [List.mem_filter, Table.mem_toList, decide_eq_true_eq]
  have hnodup : ((sw.ports.toList.filter fun x => some x.1 ≠ except).map
      fun x => x.2.cell).Nodup := by
    apply List.Nodup.map_on _ (sw.ports.nodup_toList.filter _)
    rintro ⟨id, port⟩ hx ⟨id', port'⟩ hx' heq
    have hport := (hmem.mp hx).1
    have hport' := (hmem.mp hx').1
    obtain rfl := hapart id id' port port' hport hport' heq
    rw [hport] at hport'
    rw [Option.some.inj hport']
  obtain ⟨hqueued, hclosed⟩ := sendAll_spec frame hnodup fun x _ => hroom x.2.cell
  rw [floodExcept]
  apply hqueued.passes
  · intro cell
    constructor
    · rintro ⟨hopen, ⟨id, port⟩, hx, rfl⟩
      obtain ⟨hport, hne⟩ := hmem.mp hx
      exact ⟨id, port, hport, hne, hopen, rfl⟩
    · rintro ⟨id, port, hport, hne, hopen, rfl⟩
      exact ⟨hopen, (id, port), hmem.mpr ⟨hport, hne⟩, rfl⟩
  · intro id
    rw [hclosed]
    constructor
    · rintro ⟨port, hx, hread⟩
      obtain ⟨hport, hne⟩ := hmem.mp hx
      exact ⟨hne, port, hport, hread⟩
    · rintro ⟨hne, port, hport, hread⟩
      exact ⟨port, hmem.mpr ⟨hport, hne⟩, hread⟩

/-- Sending a frame to the port of an address. -/
theorem passes_deliver {sw : TapSwitch} (hroom : sw.Roomy) {id : UInt32}
    {port : SwitchPort} (hport : sw.ports.lookup id = some port) (frame : Frame) :
  Passes sw (sw.deliver id port frame).2 frame (fun q => q = id)
    ∧ ((sw.deliver id port frame).1 = sw.rxOpen port.cell)
  := by
  have hlistens (read : Bool) (q : UInt32) :
      (q = id ∧ sw.Listens q read) ↔ q = id ∧ sw.rxOpen port.cell = read := by
    constructor
    · rintro ⟨rfl, port', hport', hread⟩
      rw [hport] at hport'
      obtain rfl := Option.some.inj hport'
      exact ⟨rfl, hread⟩
    · rintro ⟨rfl, hread⟩
      exact ⟨rfl, port, hport, hread⟩
  have hreached (cell : ℕ) : sw.Reached (fun q => q = id) cell
      ↔ sw.rxOpen port.cell = true ∧ cell = port.cell := by
    constructor
    · rintro ⟨q, port', hport', rfl, hread, rfl⟩
      rw [hport] at hport'
      obtain rfl := Option.some.inj hport'
      exact ⟨hread, rfl⟩
    · rintro ⟨hread, rfl⟩
      exact ⟨id, port, hport, rfl, hread, rfl⟩
  rw [deliver]
  cases hopen : sw.rxOpen port.cell with
  | false =>
      rw [trySend_of_closed hopen]
      have hclosed (q : UInt32) : q ∈ [id] ↔ q = id ∧ sw.Listens q false := by
        simp [hlistens, hopen]
      refine ⟨(Queued.none sw frame).passes ?_ hclosed, rfl⟩
      intro cell
      simp [hreached, hopen]
  | true =>
      obtain ⟨sw', hsend, hqueued⟩ := trySend_of_open hopen (hroom port.cell) frame
      rw [hsend]
      have hclosed (q : UInt32) : q ∈ [] ↔ q = id ∧ sw.Listens q false := by
        simp [hlistens, hopen]
      refine ⟨hqueued.passes ?_ hclosed, rfl⟩
      intro cell
      simp [hreached, hopen]

/-! ### The source of a frame -/

/-- Only the binding of one address may have changed. -/
structure OnlyBinding (sw sw' : TapSwitch) (src : MacAddr) : Prop where
  ports_eq : sw'.ports = sw.ports
  cells_eq : sw'.cells = sw.cells
  written_eq : sw'.written = sw.written
  portToPort_eq : sw'.portToPort = sw.portToPort
  macs_eq (mac : MacAddr) : mac ≠ src → sw'.macs.lookup mac = sw.macs.lookup mac

theorem onlyBinding_insert (sw : TapSwitch) (src : MacAddr) (port : UInt32) :
  OnlyBinding sw { sw with macs := sw.macs.insert src port } src
  := by
  refine ⟨rfl, rfl, rfl, rfl, ?_⟩
  intro mac hne
  rw [Table.lookup_insert_eq, if_neg hne]

theorem onlyBinding_learn (sw : TapSwitch) (src : MacAddr) (port : UInt32) :
  OnlyBinding sw (sw.learn src port) src
  := by
  have hsame : OnlyBinding sw sw src := ⟨rfl, rfl, rfl, rfl, fun _ _ => rfl⟩
  rw [learn]
  split
  · exact hsame
  · split
    · apply onlyBinding_insert
    · split
      · apply onlyBinding_insert
      · exact hsame

theorem onlyBinding_unlearn (sw : TapSwitch) (src : MacAddr) :
  OnlyBinding sw (sw.unlearn src) src
  := by
  rw [unlearn]
  split
  · exact ⟨rfl, rfl, rfl, rfl, fun _ _ => rfl⟩
  · refine ⟨rfl, rfl, rfl, rfl, ?_⟩
    intro mac hne
    rw [Table.lookup_erase_eq, if_neg hne]

section OnlyBinding

variable {sw sw' : TapSwitch} {src : MacAddr}

theorem OnlyBinding.rxOpen_eq (h : OnlyBinding sw sw' src) (cell : ℕ) :
  sw'.rxOpen cell = sw.rxOpen cell
  := by
  rw [rxOpen, h.cells_eq]
  rfl

theorem OnlyBinding.queueAt_eq (h : OnlyBinding sw sw' src) (cell : ℕ) :
  sw'.queueAt cell = sw.queueAt cell
  := by
  rw [queueAt, h.cells_eq]
  rfl

theorem OnlyBinding.apart (h : OnlyBinding sw sw' src) (hapart : sw.Apart) :
  sw'.Apart
  := by
  rw [Apart, h.ports_eq]
  exact hapart

theorem OnlyBinding.roomy (h : OnlyBinding sw sw' src) (hroom : sw.Roomy) :
  sw'.Roomy
  := by
  intro cell
  rw [h.queueAt_eq]
  exact hroom cell

end OnlyBinding

/-! ### Frames of a port -/

/-- The ports that a frame of the port `p` is aimed at, by the bindings of a switch: all others
for a group, and otherwise the port of its destination unless that is `p` itself. -/
def egressAim (sw : TapSwitch) (dst : MacAddr) (p : UInt32) (id : UInt32) : Prop :=
  id ≠ p ∧ (isGroup dst = false → sw.macs.lookup dst = some id)

theorem passes_forwardEgress {sw : TapSwitch} (hapart : sw.Apart) (hroom : sw.Roomy)
    (dst : MacAddr) (frame : Frame) (p : UInt32) :
  Passes sw (sw.forwardEgress dst frame p).2 frame (sw.egressAim dst p)
    ∧ ((sw.forwardEgress dst frame p).1 = true
        ↔ isGroup dst = false ∧ ∃ id, sw.egressAim dst p id ∧ sw.Listens id true)
  := by
  rw [forwardEgress]
  cases hgroup : isGroup dst with
  | true =>
      have haim : sw.egressAim dst p = fun id => some id ≠ some p := by
        funext id
        simp [egressAim, hgroup]
      simp only [if_true, Bool.true_eq_false, false_and, iff_false]
      rw [haim]
      exact ⟨passes_floodExcept hapart hroom frame (some p), by simp⟩
  | false =>
      have haim (id : UInt32) : sw.egressAim dst p id ↔ sw.macs.lookup dst = some id ∧ id ≠ p := by
        rw [egressAim]
        exact ⟨fun h => ⟨h.2 hgroup, h.1⟩, fun h => ⟨h.2, fun _ => h.1⟩⟩
      simp only [Bool.false_eq_true, if_false, true_and]
      cases howner : (sw.macs.lookup dst).filter (fun q => q ≠ p) with
      | none =>
          have hno (id : UInt32) : ¬ sw.egressAim dst p id := by
            rw [haim]
            rintro ⟨hbound, hne⟩
            simp [hbound, hne] at howner
          refine ⟨Passes.none sw frame fun id _ _ => hno id, ?_⟩
          simp [hno]
      | some q =>
          obtain ⟨hbound, hne⟩ := Option.filter_eq_some_iff.mp howner
          have hq (id : UInt32) : sw.egressAim dst p id ↔ id = q := by
            rw [haim, hbound]
            constructor
            · rintro ⟨heq, -⟩
              exact (Option.some.inj heq).symm
            · rintro rfl
              exact ⟨rfl, by simpa using hne⟩
          have hfun : sw.egressAim dst p = fun id => id = q := funext fun id => propext (hq id)
          rw [hfun]
          dsimp only
          cases hport : sw.ports.lookup q with
          | none =>
              refine ⟨Passes.none sw frame ?_, ?_⟩
              · rintro id port hid rfl
                rw [hport] at hid
                simp at hid
              · simp [Listens, hport]
          | some port =>
              obtain ⟨hpasses, hsent⟩ := passes_deliver hroom hport frame
              refine ⟨hpasses, ?_⟩
              dsimp only
              rw [hsent]
              simp [Listens, hport]

/-- What becomes of a frame that the port `p` sends.  It is passed on by the bindings that hold
once its source has been learned. -/
structure Egressed (sw sw' : TapSwitch) (frame : Frame) (dst src : MacAddr) (p : UInt32) :
    Prop where
  learned : OnlyBinding sw (sw.learn src p) src
  /-- The ports that are found closed are gone, and no others. -/
  ports_iff : ∀ id port, sw'.ports.lookup id = some port
    ↔ sw.ports.lookup id = some port
      ∧ ¬ ((sw.learn src p).egressAim dst p id ∧ sw.Listens id false)
  /-- So are their bindings, and no others. -/
  macs_iff : ∀ mac id, sw'.macs.lookup mac = some id
    ↔ (sw.learn src p).macs.lookup mac = some id
      ∧ ¬ ((sw.learn src p).egressAim dst p id ∧ sw.Listens id false)
  /-- The frame is not queued back. -/
  back : ∀ port, sw.ports.lookup p = some port → sw'.queueAt port.cell = sw.queueAt port.cell
  /-- A frame for a group reaches every other port, and the device. -/
  group : isGroup dst = true → sw'.written = frame :: sw.written
    ∧ ∀ id port, sw.ports.lookup id = some port → id ≠ p → sw.rxOpen port.cell = true →
      sw'.queueAt port.cell = sw.queueAt port.cell ++ [frame]
  /-- A frame for a station behind another port reaches that port alone. -/
  bound : ∀ q port, isGroup dst = false → (sw.learn src p).macs.lookup dst = some q → q ≠ p →
    sw.ports.lookup q = some port → sw.rxOpen port.cell = true →
    sw'.written = sw.written ∧ sw'.queueAt port.cell = sw.queueAt port.cell ++ [frame]
      ∧ ∀ cell, cell ≠ port.cell → sw'.queueAt cell = sw.queueAt cell
  /-- Any other frame reaches the device alone. -/
  otherwise : isGroup dst = false →
    (∀ q port, (sw.learn src p).macs.lookup dst = some q → q ≠ p →
      sw.ports.lookup q = some port → sw.rxOpen port.cell = false) →
    sw'.written = frame :: sw.written ∧ ∀ cell, sw'.queueAt cell = sw.queueAt cell

theorem OnlyBinding.listens_iff {sw sw' : TapSwitch} {src : MacAddr}
    (h : OnlyBinding sw sw' src) (id : UInt32) (read : Bool) :
  sw'.Listens id read ↔ sw.Listens id read
  := by
  simp only [Listens, h.ports_eq, h.rxOpen_eq]

theorem OnlyBinding.reached_iff {sw sw' : TapSwitch} {src : MacAddr}
    (h : OnlyBinding sw sw' src) (aimed : UInt32 → Prop) (cell : ℕ) :
  sw'.Reached aimed cell ↔ sw.Reached aimed cell
  := by
  simp only [Reached, h.ports_eq, h.rxOpen_eq]

/-- A frame of a port, when the switch passes it on among its ports. -/
theorem learnAndWriteEgress_eq {sw : TapSwitch} (hL2 : sw.isL2 = true)
    (hp2p : sw.portToPort = true) {frame : Frame} {dst src : MacAddr}
    (hframe : dstSrc frame = some (dst, src)) (p : UInt32) :
  sw.learnAndWriteEgress frame p
    = if ((sw.learn src p).forwardEgress dst frame p).1 then
        ((sw.learn src p).forwardEgress dst frame p).2
      else ((sw.learn src p).forwardEgress dst frame p).2.writeFrame frame
  := by
  have hp2p' : (sw.learn src p).portToPort = true :=
    (onlyBinding_learn sw src p).portToPort_eq.trans hp2p
  rw [learnAndWriteEgress, hframe]
  simp only [Option.filter_some, hL2, if_true, hp2p']
  cases (sw.learn src p).forwardEgress dst frame p with
  | mk delivered sw' => cases delivered <;> rfl

theorem egressed {sw : TapSwitch} (hL2 : sw.isL2 = true) (hp2p : sw.portToPort = true)
    (hapart : sw.Apart) (hroom : sw.Roomy) {frame : Frame} {dst src : MacAddr}
    (hframe : dstSrc frame = some (dst, src)) (p : UInt32) :
  Egressed sw (sw.learnAndWriteEgress frame p) frame dst src p
  := by
  have hlearned := onlyBinding_learn sw src p
  obtain ⟨hpasses, hsent⟩ :=
    passes_forwardEgress (hlearned.apart hapart) (hlearned.roomy hroom) dst frame p
  simp only [hlearned.listens_iff] at hsent
  rw [learnAndWriteEgress_eq hL2 hp2p hframe p]
  generalize (sw.learn src p).forwardEgress dst frame p = out at hpasses hsent
  obtain ⟨delivered, sw₁⟩ := out
  dsimp only at hpasses hsent ⊢
  have hports : (if delivered = true then sw₁ else sw₁.writeFrame frame).ports = sw₁.ports := by
    split <;> rfl
  have hmacs : (if delivered = true then sw₁ else sw₁.writeFrame frame).macs = sw₁.macs := by
    split <;> rfl
  have hqueue (cell : ℕ) :
      (if delivered = true then sw₁ else sw₁.writeFrame frame).queueAt cell = sw₁.queueAt cell := by
    split <;> rfl
  have hwritten : (if delivered = true then sw₁ else sw₁.writeFrame frame).written
      = if delivered = true then sw.written else frame :: sw.written := by
    have heq : sw₁.written = sw.written := hpasses.written_eq.trans hlearned.written_eq
    rw [← heq]
    split <;> rfl
  have hqueued {id : UInt32} {port : SwitchPort} (hport : sw.ports.lookup id = some port)
      (haim : (sw.learn src p).egressAim dst p id) (hread : sw.rxOpen port.cell = true) :
      sw₁.queueAt port.cell = sw.queueAt port.cell ++ [frame] := by
    rw [hpasses.queued port.cell ((hlearned.reached_iff _ _).mpr
      ⟨id, port, hport, haim, hread, rfl⟩), hlearned.queueAt_eq]
  have hspared {cell : ℕ} (h : ¬ sw.Reached ((sw.learn src p).egressAim dst p) cell) :
      sw₁.queueAt cell = sw.queueAt cell := by
    rw [hpasses.spared cell fun hreached => h ((hlearned.reached_iff _ _).mp hreached),
      hlearned.queueAt_eq]
  refine ⟨hlearned, ?_, ?_, ?_, ?_, ?_, ?_⟩
  · intro id port
    rw [hports, hpasses.ports_iff, hlearned.ports_eq, hlearned.listens_iff]
  · intro mac id
    rw [hmacs, hpasses.macs_iff, hlearned.listens_iff]
  · intro port hport
    rw [hqueue]
    apply hspared
    rintro ⟨id, port', hport', ⟨hne, -⟩, -, heq⟩
    exact hne (hapart id p port' port hport' hport heq)
  · intro hgroup
    have hdelivered : ¬ delivered = true := by
      rw [hsent, hgroup]
      simp
    rw [hwritten, if_neg hdelivered]
    refine ⟨rfl, ?_⟩
    intro id port hport hne hread
    rw [hqueue]
    exact hqueued hport ⟨hne, by simp [hgroup]⟩ hread
  · intro q port hgroup hbound hne hport hread
    have haim : (sw.learn src p).egressAim dst p q := ⟨hne, fun _ => hbound⟩
    have hdelivered : delivered = true := hsent.mpr ⟨hgroup, q, haim, port, hport, hread⟩
    rw [hwritten, if_pos hdelivered, hqueue]
    refine ⟨rfl, hqueued hport haim hread, ?_⟩
    intro cell hcell
    rw [hqueue]
    apply hspared
    rintro ⟨id, port', hport', ⟨-, hbound'⟩, -, rfl⟩
    rw [hbound' hgroup] at hbound
    obtain rfl := Option.some.inj hbound
    rw [hport] at hport'
    exact hcell (congrArg SwitchPort.cell (Option.some.inj hport').symm)
  · intro hgroup hclosed
    have hno {id : UInt32} {port : SwitchPort} (hport : sw.ports.lookup id = some port)
        (haim : (sw.learn src p).egressAim dst p id) : sw.rxOpen port.cell = false :=
      hclosed id port (haim.2 hgroup) haim.1 hport
    have hdelivered : ¬ delivered = true := by
      rw [hsent]
      rintro ⟨-, id, haim, port, hport, hread⟩
      rw [hno hport haim] at hread
      simp at hread
    rw [hwritten, if_neg hdelivered]
    refine ⟨rfl, ?_⟩
    intro cell
    rw [hqueue]
    apply hspared
    rintro ⟨id, port, hport, haim, hread, -⟩
    rw [hno hport haim] at hread
    simp at hread

/-! ### Frames of the device -/

/-- The port that an address is bound to, if it is attached. -/
def owner (sw : TapSwitch) (dst : MacAddr) : Option UInt32 :=
  (sw.macs.lookup dst).filter fun q => (sw.ports.lookup q).isSome

/-- The ports that a frame of the device is aimed at, by the bindings of a switch: the owner of
its destination, or all of them. -/
def inboundAim (sw : TapSwitch) (dst : MacAddr) (id : UInt32) : Prop :=
  isGroup dst = false → ∀ q ∈ sw.owner dst, id = q

theorem passes_flood {sw : TapSwitch} (hapart : sw.Apart) (hroom : sw.Roomy) (frame : Frame)
    {aimed : UInt32 → Prop} (haimed : ∀ id, aimed id) :
  Passes sw (sw.flood frame) frame aimed
  := by
  have hall : aimed = fun id => some id ≠ none := by
    funext id
    simp [haimed id]
  rw [hall]
  exact passes_floodExcept hapart hroom frame none

theorem passes_forwardInbound {sw : TapSwitch} (hapart : sw.Apart) (hroom : sw.Roomy)
    (dst src : MacAddr) (frame : Frame) :
  Passes (sw.unlearn src) (sw.forwardInbound dst src frame) frame ((sw.unlearn src).inboundAim dst)
  := by
  have hunlearned := onlyBinding_unlearn sw src
  have hapart := hunlearned.apart hapart
  have hroom := hunlearned.roomy hroom
  rw [forwardInbound]
  generalize sw.unlearn src = sw' at hapart hroom
  cases hgroup : isGroup dst with
  | true =>
      rw [if_pos rfl]
      apply passes_flood hapart hroom
      intro id h
      rw [hgroup] at h
      simp at h
  | false =>
      rw [if_neg Bool.false_ne_true]
      cases hbound : sw'.macs.lookup dst with
      | none =>
          apply passes_flood hapart hroom
          intro id _ q hq
          simp [owner, hbound] at hq
      | some q =>
          dsimp only
          cases hport : sw'.ports.lookup q with
          | none =>
              apply passes_flood hapart hroom
              intro id _ q' hq'
              simp only [owner, hbound, Option.mem_def, Option.filter_eq_some_iff,
                Option.some.injEq] at hq'
              obtain ⟨rfl, hsome⟩ := hq'
              simp [hport] at hsome
          | some port =>
              have haim : sw'.inboundAim dst = fun id => id = q := by
                funext id
                simp [inboundAim, hgroup, owner, hbound, hport]
              rw [haim]
              exact (passes_deliver hroom hport frame).1

/-- What becomes of a frame of the device.  It is passed on by the bindings that hold once its
source has been forgotten. -/
structure Forwarded (sw sw' : TapSwitch) (frame : Frame) (dst src : MacAddr) : Prop where
  unlearned : OnlyBinding sw (sw.unlearn src) src
  written_eq : sw'.written = sw.written
  /-- The ports that are found closed are gone, and no others. -/
  ports_iff : ∀ id port, sw'.ports.lookup id = some port
    ↔ sw.ports.lookup id = some port
      ∧ ¬ ((sw.unlearn src).inboundAim dst id ∧ sw.Listens id false)
  /-- So are their bindings, and no others. -/
  macs_iff : ∀ mac id, sw'.macs.lookup mac = some id
    ↔ (sw.unlearn src).macs.lookup mac = some id
      ∧ ¬ ((sw.unlearn src).inboundAim dst id ∧ sw.Listens id false)
  /-- A frame for a station behind a port reaches that port alone. -/
  bound : ∀ q port, isGroup dst = false → (sw.unlearn src).macs.lookup dst = some q →
    sw.ports.lookup q = some port →
    (sw.rxOpen port.cell = true → sw'.queueAt port.cell = sw.queueAt port.cell ++ [frame])
      ∧ ∀ cell, cell ≠ port.cell → sw'.queueAt cell = sw.queueAt cell
  /-- Any other frame reaches every port. -/
  otherwise : isGroup dst = true ∨ (∀ q port, (sw.unlearn src).macs.lookup dst = some q →
      sw.ports.lookup q ≠ some port) →
    ∀ id port, sw.ports.lookup id = some port → sw.rxOpen port.cell = true →
      sw'.queueAt port.cell = sw.queueAt port.cell ++ [frame]

theorem forwarded {sw : TapSwitch} (hapart : sw.Apart) (hroom : sw.Roomy) (frame : Frame)
    (dst src : MacAddr) :
  Forwarded sw (sw.forwardInbound dst src frame) frame dst src
  := by
  have hunlearned := onlyBinding_unlearn sw src
  have hpasses := passes_forwardInbound hapart hroom dst src frame
  have hqueued {id : UInt32} {port : SwitchPort} (hport : sw.ports.lookup id = some port)
      (haim : (sw.unlearn src).inboundAim dst id) (hread : sw.rxOpen port.cell = true) :
      (sw.forwardInbound dst src frame).queueAt port.cell = sw.queueAt port.cell ++ [frame] := by
    rw [hpasses.queued port.cell ((hunlearned.reached_iff _ _).mpr
      ⟨id, port, hport, haim, hread, rfl⟩), hunlearned.queueAt_eq]
  refine ⟨hunlearned, hpasses.written_eq.trans hunlearned.written_eq, ?_, ?_, ?_, ?_⟩
  · intro id port
    rw [hpasses.ports_iff, hunlearned.ports_eq, hunlearned.listens_iff]
  · intro mac id
    rw [hpasses.macs_iff, hunlearned.listens_iff]
  · intro q port hgroup hbound hport
    have howner : (sw.unlearn src).owner dst = some q := by
      simp [owner, hbound, hunlearned.ports_eq, hport]
    refine ⟨hqueued hport ?_, ?_⟩
    · intro _ q' hq'
      rw [howner] at hq'
      exact Option.some.inj hq'
    · intro cell hcell
      rw [hpasses.spared cell, hunlearned.queueAt_eq]
      rw [hunlearned.reached_iff]
      rintro ⟨id, port', hport', haim, -, rfl⟩
      obtain rfl := haim hgroup q howner
      rw [hport] at hport'
      exact hcell (congrArg SwitchPort.cell (Option.some.inj hport').symm)
  · intro hother id port hport hread
    refine hqueued hport ?_ hread
    intro hgroup q hq
    obtain ⟨hbound, hsome⟩ := Option.filter_eq_some_iff.mp hq
    obtain ⟨port', hport'⟩ := Option.isSome_iff_exists.mp hsome
    rw [hunlearned.ports_eq] at hport'
    obtain h | h := hother
    · rw [hgroup] at h
      simp at h
    · exact absurd hport' (h q port' hbound)

end TapSwitch

/-! ### Every state -/

namespace SwitchSystem

open TapSwitch

/-- Every port has a queue of its own. -/
structure Placed (sw : TapSwitch) : Prop where
  isL2 : sw.isL2 = true
  cell_lt : ∀ id port, sw.ports.lookup id = some port → port.cell < sw.cells.length
  apart : sw.Apart

theorem Placed.of_sub {sw sw' : TapSwitch} (h : Placed sw) (hL2 : sw'.isL2 = sw.isL2)
    (hlength : sw'.cells.length = sw.cells.length)
    (hports : ∀ id port, sw'.ports.lookup id = some port → sw.ports.lookup id = some port) :
  Placed sw'
  := by
  refine ⟨hL2.trans h.isL2, ?_, ?_⟩
  · intro id port hport
    rw [hlength]
    exact h.cell_lt id port (hports id port hport)
  · intro id id' port port' hport hport'
    exact h.apart id id' port port' (hports id port hport) (hports id' port' hport')

theorem Placed.trims {sw sw' : TapSwitch} (h : Placed sw) (ht : Trims sw sw') :
  Placed sw'
  := h.of_sub ht.isL2_eq ht.length_cells ht.ports_sub

theorem Placed.withPort {sw : TapSwitch} (h : Placed sw) (transport : UInt8)
    (peer : Option SocketAddr) (proven : Bool) :
  Placed (sw.withPort transport peer proven)
  := by
  have hlookup {id : UInt32} {port : SwitchPort}
      (hport : (sw.withPort transport peer proven).ports.lookup id = some port) :
      (id = sw.nextPort ∧ port.cell = sw.cells.length)
        ∨ (id ≠ sw.nextPort ∧ sw.ports.lookup id = some port) := by
    rw [TapSwitch.withPort, Table.lookup_insert_eq] at hport
    split at hport
    · rename_i heq
      obtain rfl := Option.some.inj hport
      exact .inl ⟨heq, rfl⟩
    · rename_i hne
      exact .inr ⟨hne, hport⟩
  have hlength : (sw.withPort transport peer proven).cells.length = sw.cells.length + 1 := by
    simp [TapSwitch.withPort]
  refine ⟨h.isL2, ?_, ?_⟩
  · intro id port hport
    rw [hlength]
    obtain ⟨-, hcell⟩ | ⟨-, hold⟩ := hlookup hport
    · omega
    · exact Nat.lt_succ_of_lt (h.cell_lt id port hold)
  · intro id id' port port' hport hport' heq
    obtain ⟨hid, hcell⟩ | ⟨-, hold⟩ := hlookup hport
    · obtain ⟨hid', -⟩ | ⟨-, hold'⟩ := hlookup hport'
      · rw [hid, hid']
      · have := h.cell_lt id' port' hold'
        omega
    · obtain ⟨-, hcell'⟩ | ⟨-, hold'⟩ := hlookup hport'
      · have := h.cell_lt id port hold
        omega
      · exact h.apart id id' port port' hold hold' heq

theorem Placed.step {s t : SwitchSystem} {op : SwitchOp} (h : Placed s.sw) (hstep : s.Step op t) :
  Placed t.sw
  := by
  cases op with
  | attach transport peer proven =>
      simp only [Step, SwitchSystem.step, TapSwitch.attach_of_isL2 h.isL2,
        Option.some.injEq] at hstep
      subst hstep
      exact h.withPort transport peer proven
  | egress cell frame =>
      obtain ⟨hd, -, heq⟩ := Option.bind_eq_some_iff.mp hstep
      obtain rfl := Option.some.inj heq
      obtain ⟨hports, hcells, hL2, -⟩ := learnSource_ports s.sw frame hd.portId
      have hlearned : Placed (s.sw.learnSource frame hd.portId) := by
        refine h.of_sub hL2 (congrArg List.length hcells) ?_
        rw [hports]
        exact fun _ _ hport => hport
      exact hlearned.trims (trims_learnAndWriteEgress h.isL2 frame hd.portId)
  | device frame =>
      obtain rfl := Option.some.inj hstep
      obtain ⟨hports, hcells, hL2, -⟩ := parsed_ports s.sw frame
      refine Placed.trims ?_ (trims_readLoop s.sw frame)
      refine h.of_sub hL2 (congrArg List.length hcells) ?_
      rw [hports]
      exact fun _ _ hport => hport
  | recv cell | close cell =>
      obtain ⟨hd, -, heq⟩ := Option.bind_eq_some_iff.mp hstep
      obtain rfl := Option.some.inj heq
      exact h.of_sub rfl (List.length_modify ..) fun _ _ hport => hport
  | drop cell =>
      obtain ⟨hd, -, heq⟩ := Option.bind_eq_some_iff.mp hstep
      obtain rfl := Option.some.inj heq
      refine h.of_sub rfl (List.length_modify ..) ?_
      intro id port hport
      change (s.sw.ports.erase hd.portId).lookup id = some port at hport
      rw [Table.lookup_erase_eq] at hport
      split at hport
      · simp at hport
      · exact hport

theorem placed_of_run {portToPort : Bool} {ops : List SwitchOp} {s : SwitchSystem}
    (h : Run Step (init portToPort) ops s) :
  Placed s.sw
  := by
  apply h.invariant
  · exact ⟨rfl, by simp [init, build], by simp [Apart, init, build]⟩
  · intro s op t hs hstep
    exact hs.step hstep

end SwitchSystem

namespace TapSwitch

/-- Where an Ethernet switch whose ports have queues of their own delivers: a frame that a port
sends, if the switch passes frames on among its ports, and a frame of the device. -/
theorem switch_delivers {sw : TapSwitch} (hL2 : sw.isL2 = true) (hapart : sw.Apart)
    (hroom : sw.Roomy) {frame : Frame} {dst src : MacAddr}
    (hframe : dstSrc frame = some (dst, src)) (p : UInt32) :
  (sw.portToPort = true → Egressed sw (sw.learnAndWriteEgress frame p) frame dst src p)
    ∧ Forwarded sw (sw.forwardInbound dst src frame) frame dst src
  := by
  constructor
  · intro hp2p
    exact egressed hL2 hp2p hapart hroom hframe p
  · exact forwarded hapart hroom frame dst src

end TapSwitch

namespace SwitchSystem

open TapSwitch

/-- Two ports, with a station behind the second. -/
def twoPorts : List SwitchOp :=
  [.attach 1 none true, .attach 1 none true, .egress 1 (frameOf neighbour station)]

theorem run_twoPorts :
  ∃ s, Run Step (init true) twoPorts s ∧ s.sw.portToPort = true ∧ s.sw.Roomy
    ∧ s.sw.macs.lookup station = some 1 ∧ (s.sw.ports.lookup 1).map SwitchPort.cell = some 1
    ∧ s.sw.rxOpen 1 = true ∧ s.sw.queueAt 1 = []
    ∧ (s.sw.learnAndWriteEgress (frameOf station station) 0).queueAt 1 = []
    ∧ (s.sw.learnAndWriteEgress (frameOf station station) 0).written
      = frameOf station station :: s.sw.written
  := by
  obtain ⟨s, hs, hp2p, hcells, hrest⟩ : ∃ s, execute (fun _ _ => True) step (init true) twoPorts
      = some s ∧ s.sw.portToPort = true ∧ (∀ c ∈ s.sw.cells, c.queue = [])
      ∧ s.sw.macs.lookup station = some 1
      ∧ (s.sw.ports.lookup 1).map SwitchPort.cell = some 1
      ∧ s.sw.rxOpen 1 = true ∧ s.sw.queueAt 1 = []
      ∧ (s.sw.learnAndWriteEgress (frameOf station station) 0).queueAt 1 = []
      ∧ (s.sw.learnAndWriteEgress (frameOf station station) 0).written
        = frameOf station station :: s.sw.written :=
    ⟨_, rfl, rfl, by decide, rfl, rfl, rfl, rfl, rfl, rfl⟩
  refine ⟨s, (run_of_execute hs).mono fun _ _ _ h => h.2, hp2p, ?_, hrest⟩
  intro cell
  rw [queueAt]
  cases hcell : s.sw.cells[cell]? with
  | none => simp [switchPortCap]
  | some c => simp [hcells c (List.mem_of_getElem? hcell), switchPortCap]

/-- A frame between the two stations in a switch with two ports. -/
theorem switch_delivers_two_ports :
  ∃ sw : TapSwitch, sw.isL2 = true ∧ sw.Apart ∧ sw.Roomy ∧ sw.portToPort = true
    ∧ sw.macs.lookup station = some 1
    ∧ Egressed sw (sw.learnAndWriteEgress (frameOf station neighbour) 0)
      (frameOf station neighbour) station neighbour 0
    ∧ Forwarded sw (sw.forwardInbound station neighbour (frameOf station neighbour))
      (frameOf station neighbour) station neighbour
  := by
  obtain ⟨s, hrun, hp2p, hroom, hbound, -⟩ := run_twoPorts
  have hplaced := placed_of_run hrun
  have hframe : dstSrc (frameOf station neighbour) = some (station, neighbour) := rfl
  obtain ⟨hegressed, hforwarded⟩ := switch_delivers hplaced.isL2 hplaced.apart hroom hframe 0
  exact ⟨s.sw, hplaced.isL2, hplaced.apart, hroom, hp2p, hbound, hegressed hp2p, hforwarded⟩

/-- A frame that is addressed to its own source goes to the device, although this source was
bound to another port. -/
theorem own_source_not_delivered :
  ¬ ∀ ops s frame dst src p q port, Run Step (init true) ops s → s.sw.Roomy →
    dstSrc frame = some (dst, src) → isGroup dst = false → s.sw.macs.lookup dst = some q → q ≠ p →
    s.sw.ports.lookup q = some port → s.sw.rxOpen port.cell = true →
    (s.sw.learnAndWriteEgress frame p).queueAt port.cell = s.sw.queueAt port.cell ++ [frame]
      ∧ (s.sw.learnAndWriteEgress frame p).written = s.sw.written
  := by
  intro h
  obtain ⟨s, hrun, -, hroom, hbound, hport, hopen, hempty, hqueue, -⟩ := run_twoPorts
  obtain ⟨port, hport, hcell⟩ := Option.map_eq_some_iff.mp hport
  have hsent := (h _ s (frameOf station station) station station 0 1 port hrun hroom rfl rfl
    hbound (by decide) hport (hcell ▸ hopen)).1
  rw [hcell, hqueue, hempty] at hsent
  simp at hsent

end SwitchSystem

end ZeroNat

import ZeroNat.Bridge.Switch
import Mathlib.Data.List.ReduceOption
import ZeroNat.Lib.Run

/-!
# What the switch has learned

The table of the switch binds an address to a port.  A binding is fresh when the port is
attached and was the last to send a frame from that address.  The switch keeps its bindings
fresh as long as it parses the frames of the device; with a single port attached it does
not, and then a station that has moved to the side of the device keeps its old binding.
-/

namespace ZeroNat

namespace TapSwitch

/-! ### Sending frames to ports -/

/-- What sending frames to ports may change: queues grow, and ports that nobody reads any
more are evicted together with the addresses learned behind them. -/
structure Trims (sw sw' : TapSwitch) : Prop where
  isL2_eq : sw'.isL2 = sw.isL2
  nextPort_eq : sw'.nextPort = sw.nextPort
  length_cells : sw'.cells.length = sw.cells.length
  rxOpen_eq (cell : ℕ) : sw'.rxOpen cell = sw.rxOpen cell
  ports_sub (id : UInt32) (port : SwitchPort) :
    sw'.ports.lookup id = some port → sw.ports.lookup id = some port
  ports_kept (id : UInt32) (port : SwitchPort) :
    sw.ports.lookup id = some port → sw.rxOpen port.cell → sw'.ports.lookup id = some port
  macs_sub (mac : MacAddr) (id : UInt32) :
    sw'.macs.lookup mac = some id → sw.macs.lookup mac = some id
  macs_kept (mac : MacAddr) (id : UInt32) :
    sw'.macs.lookup mac = some id → id ∈ sw.ports → id ∈ sw'.ports

theorem Trims.refl (sw : TapSwitch) :
  Trims sw sw
  where
  isL2_eq := rfl
  nextPort_eq := rfl
  length_cells := rfl
  rxOpen_eq _ := rfl
  ports_sub _ _ h := h
  ports_kept _ _ h _ := h
  macs_sub _ _ h := h
  macs_kept _ _ _ h := h

theorem Trims.trans {sw₁ sw₂ sw₃ : TapSwitch} (h : Trims sw₁ sw₂) (h' : Trims sw₂ sw₃) :
  Trims sw₁ sw₃
  where
  isL2_eq := h'.isL2_eq.trans h.isL2_eq
  nextPort_eq := h'.nextPort_eq.trans h.nextPort_eq
  length_cells := h'.length_cells.trans h.length_cells
  rxOpen_eq cell := (h'.rxOpen_eq cell).trans (h.rxOpen_eq cell)
  ports_sub id port hid := h.ports_sub id port (h'.ports_sub id port hid)
  ports_kept id port hid hopen := by
    apply h'.ports_kept id port (h.ports_kept id port hid hopen)
    rwa [h.rxOpen_eq]
  macs_sub mac id hid := h.macs_sub mac id (h'.macs_sub mac id hid)
  macs_kept mac id hid hmem :=
    h'.macs_kept mac id hid (h.macs_kept mac id (h'.macs_sub mac id hid) hmem)

theorem rxOpen_modifyCell (sw : TapSwitch) (cell c : ℕ) (f : PortCell → PortCell)
    (hf : ∀ x, (f x).rxOpen = x.rxOpen) :
  (sw.modifyCell cell f).rxOpen c = sw.rxOpen c
  := by
  simp only [rxOpen, modifyCell, List.getElem?_modify]
  cases sw.cells[c]? with
  | none => rfl
  | some x =>
      split
      · simp [hf]
      · rfl

theorem trims_trySend (sw : TapSwitch) (cell : ℕ) (frame : Frame) :
  Trims sw (sw.trySend cell frame).2
  := by
  rw [trySend]
  split
  · apply Trims.refl
  · split
    · apply Trims.refl
    · split
      · apply Trims.refl
      · refine ⟨rfl, rfl, ?_, ?_, ?_, ?_, ?_, ?_⟩
        · apply List.length_modify
        · intro c
          apply rxOpen_modifyCell
          intro x
          rfl
        all_goals simp +contextual [modifyCell]

/-- A queue is found closed when nobody reads it. -/
theorem rxOpen_of_trySend_closed {sw sw' : TapSwitch} {cell : ℕ} {frame : Frame}
    (h : sw.trySend cell frame = (.closed, sw')) :
  sw.rxOpen cell = false
  := by
  rw [trySend] at h
  split at h
  · rename_i hnone
    simp [rxOpen, hnone]
  · rename_i c hsome
    split at h
    · rename_i hrx
      simp [rxOpen, hsome, hrx]
    · split at h <;> simp at h

/-- The port, if it is attached, has a queue that nobody reads. -/
def Dead (sw : TapSwitch) (id : UInt32) : Prop :=
  ∀ port, sw.ports.lookup id = some port → sw.rxOpen port.cell = false

theorem Dead.trims {sw sw' : TapSwitch} {id : UInt32} (h : sw.Dead id) (ht : Trims sw sw') :
  sw'.Dead id
  := by
  intro port hport
  rw [ht.rxOpen_eq]
  apply h
  exact ht.ports_sub id port hport

theorem trims_evictPort {sw : TapSwitch} {id : UInt32} (h : sw.Dead id) :
  Trims sw (sw.evictPort id)
  := by
  refine ⟨rfl, rfl, rfl, fun _ => rfl, ?_, ?_, ?_, ?_⟩
  · intro id' port hport
    rw [evictPort, Table.lookup_erase_eq] at hport
    split at hport
    · simp at hport
    · exact hport
  · intro id' port hport hopen
    rw [evictPort, Table.lookup_erase_eq, if_neg, hport]
    rintro rfl
    rw [h port hport] at hopen
    simp at hopen
  · intro mac id' hmac
    exact ((Table.lookup_retain _ _ _ _).mp hmac).1
  · intro mac id' hmac hmem
    have hne := ((Table.lookup_retain _ _ _ _).mp hmac).2
    apply AList.mem_erase.mpr
    exact ⟨by simpa using hne, hmem⟩

theorem trims_foldl_evictPort {ids : List UInt32} {sw : TapSwitch} (h : ∀ id ∈ ids, sw.Dead id) :
  Trims sw (ids.foldl evictPort sw)
  := by
  induction ids generalizing sw with
  | nil => apply Trims.refl
  | cons id ids ih =>
      have hevict := trims_evictPort (h id List.mem_cons_self)
      apply hevict.trans
      apply ih
      intro id' hid'
      apply (h id' (List.mem_cons_of_mem id hid')).trims hevict

/-- The ports a frame is copied to are as the table has them. -/
def Current (sw : TapSwitch) (targets : List (UInt32 × SwitchPort)) : Prop :=
  ∀ id port, (id, port) ∈ targets → ∀ port', sw.ports.lookup id = some port' → port' = port

/-- Copying a frame to ports of the table finds only dead ones closed. -/
theorem trims_sendAll (frame : Frame) {targets : List (UInt32 × SwitchPort)} {sw : TapSwitch}
    (h : sw.Current targets) :
  Trims sw (sendAll frame targets sw).1 ∧ ∀ id ∈ (sendAll frame targets sw).2, sw.Dead id
  := by
  induction targets generalizing sw with
  | nil => exact ⟨Trims.refl sw, by simp [sendAll]⟩
  | cons target targets ih =>
      obtain ⟨id, port⟩ := target
      have hsend := trims_trySend sw port.cell frame
      have htail : (sw.trySend port.cell frame).2.Current targets := by
        intro id' port' hmem port'' hlookup
        apply h id' port' (List.mem_cons_of_mem _ hmem)
        exact hsend.ports_sub id' port'' hlookup
      obtain ⟨htrims, hdead⟩ := ih htail
      have hdead' : ∀ id ∈ (sendAll frame targets (sw.trySend port.cell frame).2).2, sw.Dead id := by
        intro id' hid' port' hport'
        rw [← hsend.rxOpen_eq]
        by_contra hopen
        rw [Bool.not_eq_false] at hopen
        have hkept := hsend.ports_kept id' port' hport' (by rwa [← hsend.rxOpen_eq])
        rw [hdead id' hid' port' hkept] at hopen
        simp at hopen
      rw [sendAll]
      cases hresult : sw.trySend port.cell frame with
      | mk result sw' =>
          rw [hresult] at hsend htrims hdead'
          cases result with
          | closed =>
              refine ⟨hsend.trans htrims, ?_⟩
              intro id' hid'
              obtain rfl | hid' := List.mem_cons.mp hid'
              · intro port' hport'
                rw [h id' port List.mem_cons_self port' hport']
                exact rxOpen_of_trySend_closed hresult
              · exact hdead' id' hid'
          | sent => exact ⟨hsend.trans htrims, hdead'⟩
          | full => exact ⟨hsend.trans htrims, hdead'⟩

theorem trims_floodExcept (sw : TapSwitch) (frame : Frame) (except : Option UInt32) :
  Trims sw (sw.floodExcept frame except)
  := by
  have hcurrent : sw.Current (sw.ports.toList.filter fun x => some x.1 ≠ except) := by
    intro id port hmem port' hlookup
    rw [Table.mem_toList.mp (List.mem_filter.mp hmem).1] at hlookup
    exact (Option.some.inj hlookup).symm
  obtain ⟨htrims, hdead⟩ := trims_sendAll frame hcurrent
  apply htrims.trans
  apply trims_foldl_evictPort
  intro id hid
  exact (hdead id hid).trims htrims

theorem trims_deliver {sw : TapSwitch} {id : UInt32} {port : SwitchPort} (frame : Frame)
    (h : sw.ports.lookup id = some port) :
  Trims sw (sw.deliver id port frame).2
  := by
  have hsend := trims_trySend sw port.cell frame
  rw [deliver]
  cases hresult : sw.trySend port.cell frame with
  | mk result sw' =>
      rw [hresult] at hsend
      cases result with
      | closed =>
          have hdead : sw.Dead id := by
            intro port' hport'
            rw [h] at hport'
            rw [← Option.some.inj hport']
            exact rxOpen_of_trySend_closed hresult
          exact hsend.trans (trims_evictPort (hdead.trims hsend))
      | sent => exact hsend
      | full => exact hsend

theorem trims_forwardInbound (sw : TapSwitch) (dst src : MacAddr) (frame : Frame) :
  Trims (sw.unlearn src) (sw.forwardInbound dst src frame)
  := by
  rw [forwardInbound]
  split
  · apply trims_floodExcept
  · split
    · apply trims_floodExcept
    · split
      · apply trims_floodExcept
      · rename_i hport
        apply trims_deliver frame hport

theorem trims_forwardEgress (sw : TapSwitch) (dst : MacAddr) (frame : Frame) (origin : UInt32) :
  Trims sw (sw.forwardEgress dst frame origin).2
  := by
  rw [forwardEgress]
  split
  · apply trims_floodExcept
  · split
    · apply Trims.refl
    · split
      · apply Trims.refl
      · rename_i hport
        apply trims_deliver frame hport

theorem trims_writeFrame (sw : TapSwitch) (frame : Frame) :
  Trims sw (sw.writeFrame frame)
  := ⟨rfl, rfl, rfl, fun _ => rfl, fun _ _ h => h, fun _ _ h _ => h, fun _ _ h => h,
    fun _ _ _ h => h⟩

/-- The source of an Ethernet frame. -/
def source (frame : Frame) : Option MacAddr :=
  (dstSrc frame).map Prod.snd

/-- The table after a frame from `src` sent by `port`, when it has a source. -/
def learnSource (sw : TapSwitch) (frame : Frame) (port : UInt32) : TapSwitch :=
  match source frame with
  | some src => sw.learn src port
  | none => sw

theorem trims_learnAndWriteEgress {sw : TapSwitch} (hL2 : sw.isL2) (frame : Frame) (port : UInt32) :
  Trims (sw.learnSource frame port) (sw.learnAndWriteEgress frame port)
  := by
  rw [learnAndWriteEgress, learnSource, source]
  cases hframe : dstSrc frame with
  | none => apply trims_writeFrame
  | some addresses =>
      simp only [Option.filter_some, hL2, if_true, Option.map_some]
      split
      · have hforward := trims_forwardEgress (sw.learn addresses.2 port) addresses.1 frame port
        split
        · rename_i heq
          rwa [heq] at hforward
        · rename_i heq
          rw [heq] at hforward
          exact hforward.trans (trims_writeFrame _ _)
      · apply trims_writeFrame

/-- The table after a frame of the device, when it is parsed and has a source. -/
def unlearnSource (sw : TapSwitch) (frame : Frame) : TapSwitch :=
  match source frame with
  | some src => sw.unlearn src
  | none => sw

/-- With a single port attached the source of a frame of the device is not looked at. -/
theorem trims_readLoop (sw : TapSwitch) (frame : Frame) :
  Trims (if sw.ports.size = 1 then sw else sw.unlearnSource frame) (sw.readLoop frame)
  := by
  rw [readLoop]
  split
  · split
    · apply trims_trySend
    · apply Trims.refl
  · rw [unlearnSource, source]
    cases hframe : dstSrc frame with
    | none => apply trims_floodExcept
    | some addresses => apply trims_forwardInbound

theorem lookup_unlearn {sw : TapSwitch} {src mac : MacAddr} {id : UInt32}
    (h : (sw.unlearn src).macs.lookup mac = some id) :
  sw.macs.lookup mac = some id ∧ (mac = src → isGroupOrZero src)
  := by
  rw [unlearn] at h
  split at h
  · rename_i hgroup
    exact ⟨h, fun _ => hgroup⟩
  · rw [Table.lookup_erase_eq] at h
    split at h
    · simp at h
    · rename_i hne
      exact ⟨h, fun heq => (hne heq).elim⟩

/-- After a frame of `port` from `src`, an address is bound as before, or it is `src` and
bound to `port`. -/
theorem lookup_learn {sw : TapSwitch} {src mac : MacAddr} {port id : UInt32}
    (h : (sw.learn src port).macs.lookup mac = some id) :
  (mac = src ∧ id = port ∧ ¬ isGroupOrZero src)
    ∨ (sw.macs.lookup mac = some id ∧ (mac = src → isGroupOrZero src))
  := by
  rw [learn] at h
  split at h
  · rename_i hgroup
    exact Or.inr ⟨h, fun _ => hgroup⟩
  · rename_i hgroup
    have hinsert (h : (sw.macs.insert src port).lookup mac = some id) :
        (mac = src ∧ id = port ∧ ¬ isGroupOrZero src)
          ∨ (sw.macs.lookup mac = some id ∧ (mac = src → isGroupOrZero src)) := by
      rw [Table.lookup_insert_eq] at h
      split at h
      · rename_i heq
        exact Or.inl ⟨heq, (Option.some.inj h).symm, hgroup⟩
      · rename_i hne
        exact Or.inr ⟨h, fun heq => (hne heq).elim⟩
    split at h
    · exact hinsert h
    · rename_i hnone
      split at h
      · exact hinsert h
      · refine Or.inr ⟨h, ?_⟩
        rintro rfl
        rw [hnone] at h
        simp at h

/-- Learning and forgetting leave everything but the addresses alone. -/
theorem learn_ports (sw : TapSwitch) (src : MacAddr) (port : UInt32) :
  (sw.learn src port).ports = sw.ports ∧ (sw.learn src port).cells = sw.cells
    ∧ (sw.learn src port).isL2 = sw.isL2 ∧ (sw.learn src port).nextPort = sw.nextPort
  := by
  rw [learn]
  split
  · exact ⟨rfl, rfl, rfl, rfl⟩
  · split
    · exact ⟨rfl, rfl, rfl, rfl⟩
    · split <;> exact ⟨rfl, rfl, rfl, rfl⟩

theorem unlearn_ports (sw : TapSwitch) (src : MacAddr) :
  (sw.unlearn src).ports = sw.ports ∧ (sw.unlearn src).cells = sw.cells
    ∧ (sw.unlearn src).isL2 = sw.isL2 ∧ (sw.unlearn src).nextPort = sw.nextPort
  := by
  rw [unlearn]
  split <;> exact ⟨rfl, rfl, rfl, rfl⟩

theorem learnSource_ports (sw : TapSwitch) (frame : Frame) (port : UInt32) :
  (sw.learnSource frame port).ports = sw.ports ∧ (sw.learnSource frame port).cells = sw.cells
    ∧ (sw.learnSource frame port).isL2 = sw.isL2
    ∧ (sw.learnSource frame port).nextPort = sw.nextPort
  := by
  rw [learnSource]
  split
  · apply learn_ports
  · exact ⟨rfl, rfl, rfl, rfl⟩

theorem lookup_learnSource {sw : TapSwitch} {frame : Frame} {mac : MacAddr} {port id : UInt32}
    (h : (sw.learnSource frame port).macs.lookup mac = some id) :
  (source frame = some mac ∧ id = port ∧ ¬ isGroupOrZero mac)
    ∨ (sw.macs.lookup mac = some id ∧ (source frame = some mac → isGroupOrZero mac))
  := by
  rw [learnSource] at h
  split at h
  · rename_i src hsource
    obtain ⟨rfl, rfl, hgroup⟩ | ⟨hold, hgroup⟩ := lookup_learn h
    · exact Or.inl ⟨hsource, rfl, hgroup⟩
    · right
      refine ⟨hold, ?_⟩
      intro hmac
      rw [hsource, Option.some.injEq] at hmac
      subst hmac
      exact hgroup rfl
  · rename_i hsource
    exact Or.inr ⟨h, fun hmac => by simp [hsource] at hmac⟩

theorem lookup_unlearnSource {sw : TapSwitch} {frame : Frame} {mac : MacAddr} {id : UInt32}
    (h : (sw.unlearnSource frame).macs.lookup mac = some id) :
  sw.macs.lookup mac = some id ∧ (source frame = some mac → isGroupOrZero mac)
  := by
  rw [unlearnSource] at h
  split at h
  · rename_i src hsource
    obtain ⟨hold, hgroup⟩ := lookup_unlearn h
    refine ⟨hold, ?_⟩
    intro hmac
    rw [hsource, Option.some.injEq] at hmac
    subst hmac
    exact hgroup rfl
  · rename_i hsource
    exact ⟨h, fun hmac => by simp [hsource] at hmac⟩

theorem parsed_ports (sw : TapSwitch) (frame : Frame) :
  let base := if sw.ports.size = 1 then sw else sw.unlearnSource frame
  base.ports = sw.ports ∧ base.cells = sw.cells ∧ base.isL2 = sw.isL2
    ∧ base.nextPort = sw.nextPort
  := by
  intro base
  simp only [base, unlearnSource]
  split
  · exact ⟨rfl, rfl, rfl, rfl⟩
  · split
    · apply unlearn_ports
    · exact ⟨rfl, rfl, rfl, rfl⟩

/-- The switch with one more port, on a device that takes many. -/
def withPort (sw : TapSwitch) (transport : UInt8) (peer : Option SocketAddr) (proven : Bool) :
    TapSwitch :=
  { sw with
    nextPort := sw.nextPort + 1
    cells := sw.cells ++ [{ queue := [], rxOpen := true, cancelled := false, proven := proven }]
    ports := sw.ports.insert sw.nextPort
      { cell := sw.cells.length, name := none, transport := transport, peer := peer } }

theorem attach_of_isL2 {sw : TapSwitch} (h : sw.isL2) (transport : UInt8)
    (peer : Option SocketAddr) (proven : Bool) :
  sw.attach transport peer proven
    = (.ok ⟨sw.nextPort, sw.cells.length⟩, sw.withPort transport peer proven)
  := by
  simp only [attach, allot, admitPort, h, if_true, List.foldl_nil, withPort]

end TapSwitch

/-! ### Runs of the switch and its clients -/

/-- Where a frame that the switch handles comes from. -/
inductive Origin where
  | device
  | port (id : UInt32)
deriving DecidableEq

/-- The switch, the handles of its clients and the frames it has handled, newest first.  The
handle of an attach is at the position of its cell, until it is dropped. -/
structure SwitchSystem where
  sw : TapSwitch
  handles : List (Option SwitchHandle)
  log : List (Origin × Frame)

/-- What can happen to the switch. -/
inductive SwitchOp where
  /-- A client attaches. -/
  | attach (transport : UInt8) (peer : Option SocketAddr) (proven : Bool)
  /-- The relay of a handle has a frame from its client. -/
  | egress (cell : ℕ) (frame : Frame)
  /-- The reader takes a frame from the device. -/
  | device (frame : Frame)
  /-- The relay of a handle takes a frame from its queue. -/
  | recv (cell : ℕ)
  /-- The relay of a handle ends. -/
  | close (cell : ℕ)
  /-- A handle is dropped. -/
  | drop (cell : ℕ)

namespace SwitchSystem

def init (portToPort : Bool) : SwitchSystem where
  sw := TapSwitch.build true portToPort
  handles := []
  log := []

/-- The handle at a position, unless it has been dropped. -/
def handle? (s : SwitchSystem) (cell : ℕ) : Option SwitchHandle :=
  (s.handles[cell]?).join

/-- The handle at a position, while its relay runs. -/
def live? (s : SwitchSystem) (cell : ℕ) : Option SwitchHandle :=
  (s.handle? cell).filter fun _ => s.sw.rxOpen cell

def step (s : SwitchSystem) : SwitchOp → Option SwitchSystem
  | .attach transport peer proven =>
      match s.sw.attach transport peer proven with
      | (.ok h, sw) => some { s with sw := sw, handles := s.handles ++ [some h] }
      | (.error _, sw) => some { s with sw := sw, handles := s.handles ++ [none] }
  | .egress cell frame => do
      let h ← s.live? cell
      some { s with
        sw := s.sw.learnAndWriteEgress frame h.portId
        log := (.port h.portId, frame) :: s.log }
  | .device frame => some { s with sw := s.sw.readLoop frame, log := (.device, frame) :: s.log }
  | .recv cell => do
      let h ← s.live? cell
      some { s with sw := s.sw.recv h }
  | .close cell => do
      let h ← s.live? cell
      some { s with sw := s.sw.close h }
  | .drop cell => do
      let h ← s.handle? cell
      some { s with sw := s.sw.dropHandle h, handles := s.handles.set cell none }

def Step (s : SwitchSystem) (op : SwitchOp) (t : SwitchSystem) : Prop :=
  s.step op = some t

/-- Where the most recent frame from `mac` came from. -/
def lastFrom (s : SwitchSystem) (mac : MacAddr) : Option Origin :=
  (s.log.find? fun x => TapSwitch.source x.2 = some mac).map Prod.fst

/-- Every address is bound to an attached port that sent the most recent frame from it. -/
def Fresh (s : SwitchSystem) : Prop :=
  ∀ mac id, s.sw.macs.lookup mac = some id → s.lastFrom mac = some (.port id) ∧ id ∈ s.sw.ports

/-- The steps that keep the bindings fresh.  While exactly one port is attached, no frame of
the device comes from an address that is bound; and a port number is not given out again
while a handle still has it. -/
def Careful (s : SwitchSystem) : SwitchOp → Prop
  | .device frame =>
      ¬ (s.sw.ports.size = 1 ∧ ∃ mac ∈ TapSwitch.source frame, (s.sw.macs.lookup mac).isSome)
  | .attach _ _ _ => s.sw.nextPort ∉ s.handles.reduceOption.map SwitchHandle.portId
  | _ => True

instance (s : SwitchSystem) : DecidablePred s.Careful
  | .device _ => inferInstanceAs (Decidable (¬ (_ ∧ _)))
  | .attach _ _ _ => inferInstanceAs (Decidable (_ ∉ _))
  | .egress _ _ => inferInstanceAs (Decidable True)
  | .recv _ => inferInstanceAs (Decidable True)
  | .close _ => inferInstanceAs (Decidable True)
  | .drop _ => inferInstanceAs (Decidable True)

/-! ### The handles and the table -/

/-- The handles that are not dropped have ports of their own, and the port of a handle whose
relay runs is attached. -/
structure Wired (s : SwitchSystem) : Prop where
  isL2 : s.sw.isL2 = true
  length_eq : s.handles.length = s.sw.cells.length
  cell_eq (cell : ℕ) (h : SwitchHandle) : s.handle? cell = some h → h.cell = cell
  distinct (cell cell' : ℕ) (h h' : SwitchHandle) : s.handle? cell = some h →
    s.handle? cell' = some h' → h.portId = h'.portId → cell = cell'
  attached (cell : ℕ) (h : SwitchHandle) : s.live? cell = some h →
    ∃ port, s.sw.ports.lookup h.portId = some port ∧ port.cell = cell

theorem live?_eq_some {s : SwitchSystem} {cell : ℕ} {h : SwitchHandle} :
  s.live? cell = some h ↔ s.handle? cell = some h ∧ s.sw.rxOpen cell
  := by
  rw [live?, Option.filter_eq_some_iff]

theorem mem_handles_of_handle? {s : SwitchSystem} {cell : ℕ} {h : SwitchHandle}
    (hcell : s.handle? cell = some h) :
  h ∈ s.handles.reduceOption
  := by
  rw [List.reduceOption_mem_iff]
  rw [handle?, Option.join_eq_some_iff] at hcell
  exact List.mem_of_getElem? hcell

theorem wired_init (portToPort : Bool) :
  Wired (init portToPort)
  where
  isL2 := rfl
  length_eq := rfl
  cell_eq _ _ h := by simp [init, handle?] at h
  distinct _ _ _ _ h := by simp [init, handle?] at h
  attached _ _ h := by simp [init, live?, handle?] at h

/-- Changing addresses and frames leaves the handles wired. -/
theorem Wired.of_eq {s : SwitchSystem} (h : Wired s) {sw : TapSwitch}
    (hsw : sw.ports = s.sw.ports ∧ sw.cells = s.sw.cells ∧ sw.isL2 = s.sw.isL2
      ∧ sw.nextPort = s.sw.nextPort) (log : List (Origin × Frame)) :
  Wired { s with sw := sw, log := log }
  := by
  obtain ⟨hports, hcells, hL2, -⟩ := hsw
  refine ⟨by rw [hL2, h.isL2], by rw [hcells, h.length_eq], h.cell_eq, h.distinct, ?_⟩
  intro cell hd hlive
  rw [hports]
  apply h.attached
  rw [live?_eq_some] at hlive ⊢
  rwa [TapSwitch.rxOpen, hcells] at hlive

/-- So does sending frames to ports. -/
theorem Wired.trims {s : SwitchSystem} (h : Wired s) {sw : TapSwitch} (ht : s.sw.Trims sw)
    (log : List (Origin × Frame)) :
  Wired { s with sw := sw, log := log }
  := by
  refine ⟨by rw [ht.isL2_eq, h.isL2], by rw [ht.length_cells, h.length_eq], h.cell_eq, h.distinct, ?_⟩
  intro cell hd hlive
  rw [live?_eq_some] at hlive
  obtain ⟨hhandle, hopen⟩ := hlive
  rw [ht.rxOpen_eq] at hopen
  obtain ⟨port, hport, rfl⟩ := h.attached cell hd (live?_eq_some.mpr ⟨hhandle, hopen⟩)
  exact ⟨port, ht.ports_kept _ _ hport hopen, rfl⟩

theorem handle?_append {s : SwitchSystem} {sw : TapSwitch} {h : SwitchHandle} {cell : ℕ}
    {hd : SwitchHandle} (hcell : handle? { s with sw := sw, handles := s.handles ++ [some h] } cell
      = some hd) :
  s.handle? cell = some hd ∨ (cell = s.handles.length ∧ hd = h)
  := by
  rw [handle?, List.getElem?_append] at hcell
  split at hcell
  · exact Or.inl hcell
  · rename_i hlt
    right
    obtain hzero | hpos := Nat.eq_zero_or_pos (cell - s.handles.length)
    · refine ⟨by omega, ?_⟩
      simpa [hzero, eq_comm] using hcell
    · rw [List.getElem?_eq_none (by rwa [List.length_singleton])] at hcell
      simp at hcell

/-- A client attaches. -/
theorem Wired.attach {s : SwitchSystem} (h : Wired s)
    (hfresh : ∀ cell hd, s.handle? cell = some hd → hd.portId ≠ s.sw.nextPort)
    (transport : UInt8) (peer : Option SocketAddr) (proven : Bool) :
  Wired { s with
    sw := s.sw.withPort transport peer proven
    handles := s.handles ++ [some ⟨s.sw.nextPort, s.sw.cells.length⟩] }
  := by
  refine ⟨h.isL2, ?_, ?_, ?_, ?_⟩
  · simp [TapSwitch.withPort, h.length_eq]
  · intro cell hd hcell
    obtain hold | ⟨rfl, rfl⟩ := handle?_append hcell
    · exact h.cell_eq cell hd hold
    · exact h.length_eq.symm
  · intro cell cell' hd hd' hcell hcell' heq
    obtain hold | ⟨rfl, rfl⟩ := handle?_append hcell
    · obtain hold' | ⟨rfl, rfl⟩ := handle?_append hcell'
      · exact h.distinct cell cell' hd hd' hold hold' heq
      · exact (hfresh cell hd hold heq).elim
    · obtain hold' | ⟨rfl, rfl⟩ := handle?_append hcell'
      · exact (hfresh cell' hd' hold' heq.symm).elim
      · rfl
  · intro cell hd hlive
    rw [live?_eq_some] at hlive
    obtain ⟨hcell, hopen⟩ := hlive
    obtain hold | ⟨rfl, rfl⟩ := handle?_append hcell
    · have hlt : cell < s.sw.cells.length := by
        rw [← h.length_eq]
        by_contra hge
        rw [handle?, List.getElem?_eq_none (by omega)] at hold
        simp at hold
      have hopen' : s.sw.rxOpen cell := by
        simpa [TapSwitch.rxOpen, TapSwitch.withPort, List.getElem?_append_left hlt] using hopen
      obtain ⟨port, hport, rfl⟩ := h.attached cell hd (live?_eq_some.mpr ⟨hold, hopen'⟩)
      refine ⟨port, ?_, rfl⟩
      rw [TapSwitch.withPort, Table.lookup_insert_eq, if_neg (hfresh _ hd hold), hport]
    · refine ⟨_, AList.lookup_insert s.sw.ports, ?_⟩
      exact h.length_eq.symm

/-- The relay of a handle takes a frame, or ends. -/
theorem Wired.modifyCell {s : SwitchSystem} (h : Wired s) (cell : ℕ) {f : PortCell → PortCell}
    (hf : ∀ x, (f x).rxOpen → x.rxOpen) :
  Wired { s with sw := s.sw.modifyCell cell f }
  := by
  refine ⟨h.isL2, ?_, h.cell_eq, h.distinct, ?_⟩
  · rw [TapSwitch.modifyCell, List.length_modify, h.length_eq]
  · intro c hd hlive
    rw [live?_eq_some] at hlive
    apply h.attached c hd
    rw [live?_eq_some]
    refine ⟨hlive.1, ?_⟩
    have hopen := hlive.2
    simp only [TapSwitch.rxOpen, TapSwitch.modifyCell, List.getElem?_modify] at hopen ⊢
    cases hcell : s.sw.cells[c]? with
    | none => simp [hcell] at hopen
    | some x =>
        rw [hcell] at hopen
        split at hopen
        · exact hf x hopen
        · exact hopen

/-- A handle is dropped, and its port with it. -/
theorem Wired.drop {s : SwitchSystem} (h : Wired s) {cell : ℕ} {hd : SwitchHandle}
    (hcell : s.handle? cell = some hd) :
  Wired { s with sw := s.sw.dropHandle hd, handles := s.handles.set cell none }
  := by
  have hhandle {c : ℕ} {hd' : SwitchHandle}
      (hc : handle? { s with sw := s.sw.dropHandle hd, handles := s.handles.set cell none } c
        = some hd') : c ≠ cell ∧ s.handle? c = some hd' := by
    rw [handle?, List.getElem?_set] at hc
    split at hc
    · split at hc <;> simp at hc
    · rename_i hne
      exact ⟨fun heq => hne heq.symm, hc⟩
  refine ⟨h.isL2, ?_, ?_, ?_, ?_⟩
  · simp [TapSwitch.dropHandle, TapSwitch.close, TapSwitch.modifyCell, TapSwitch.evictPort,
      h.length_eq]
  · intro c hd' hc
    exact h.cell_eq c hd' (hhandle hc).2
  · intro c c' hd₁ hd₂ hc hc' heq
    exact h.distinct c c' hd₁ hd₂ (hhandle hc).2 (hhandle hc').2 heq
  · intro c hd' hlive
    rw [live?_eq_some] at hlive
    obtain ⟨hne, hc⟩ := hhandle hlive.1
    have hclosed : ∀ x : PortCell, ({ x with rxOpen := false } : PortCell).rxOpen → x.rxOpen := by
      simp
    obtain ⟨port, hport, rfl⟩ := (h.modifyCell hd.cell hclosed).attached c hd'
      (live?_eq_some.mpr ⟨hc, hlive.2⟩)
    refine ⟨port, ?_, rfl⟩
    change (s.sw.ports.erase hd.portId).lookup hd'.portId = some port
    rw [Table.lookup_erase_eq, if_neg]
    · exact hport
    · intro heq
      exact hne (h.distinct _ cell hd' hd hc hcell heq)

/-! ### Freshness -/

/-- What the switch keeps true of its handles and of its table. -/
structure Inv (s : SwitchSystem) : Prop where
  wired : Wired s
  unicast (mac : MacAddr) (id : UInt32) : s.sw.macs.lookup mac = some id → ¬ isGroupOrZero mac
  fresh : Fresh s

theorem lastFrom_cons (s : SwitchSystem) (sw : TapSwitch) (origin : Origin) (frame : Frame)
    (mac : MacAddr) :
  lastFrom { s with sw := sw, log := (origin, frame) :: s.log } mac
    = if TapSwitch.source frame = some mac then some origin else s.lastFrom mac
  := by
  rw [lastFrom, List.find?_cons]
  split <;> simp_all [lastFrom]

/-- Steps that handle no frame and bind no address. -/
theorem Inv.shrink {s : SwitchSystem} (h : Inv s) {sw : TapSwitch}
    {handles : List (Option SwitchHandle)} (hwired : Wired { s with sw := sw, handles := handles })
    (hmacs : ∀ mac id, sw.macs.lookup mac = some id →
      s.sw.macs.lookup mac = some id ∧ (id ∈ s.sw.ports → id ∈ sw.ports)) :
  Inv { s with sw := sw, handles := handles }
  where
  wired := hwired
  unicast mac id hmac := h.unicast mac id (hmacs mac id hmac).1
  fresh mac id hmac := by
    obtain ⟨hold, hmem⟩ := hmacs mac id hmac
    obtain ⟨hlast, hid⟩ := h.fresh mac id hold
    exact ⟨hlast, hmem hid⟩

/-- A relay has a frame from its client. -/
theorem Inv.egress {s : SwitchSystem} (h : Inv s) {cell : ℕ} {hd : SwitchHandle}
    (hlive : s.live? cell = some hd) (frame : Frame) :
  Inv { s with
    sw := s.sw.learnAndWriteEgress frame hd.portId
    log := (.port hd.portId, frame) :: s.log }
  := by
  have htrims := TapSwitch.trims_learnAndWriteEgress h.wired.isL2 frame hd.portId
  have hsame := TapSwitch.learnSource_ports s.sw frame hd.portId
  obtain ⟨port, hport, -⟩ := h.wired.attached cell hd hlive
  have hmem : hd.portId ∈ s.sw.ports := by
    rw [← AList.lookup_isSome, hport]
    rfl
  -- What is bound afterwards is the source of the frame, or was bound before to the sender of
  -- the most recent frame from it.
  have hbound (mac : MacAddr) (id : UInt32)
      (hmac : (s.sw.learnAndWriteEgress frame hd.portId).macs.lookup mac = some id) :
      (TapSwitch.source frame = some mac ∧ id = hd.portId ∧ ¬ isGroupOrZero mac)
        ∨ (TapSwitch.source frame ≠ some mac ∧ s.sw.macs.lookup mac = some id) := by
    obtain ⟨hsource, rfl, hgroup⟩ | ⟨hold, hgroup⟩ :=
      TapSwitch.lookup_learnSource (htrims.macs_sub mac id hmac)
    · exact Or.inl ⟨hsource, rfl, hgroup⟩
    · right
      refine ⟨?_, hold⟩
      intro hsource
      exact h.unicast mac id hold (hgroup hsource)
  refine ⟨(h.wired.of_eq hsame s.log).trims htrims _, ?_, ?_⟩
  · intro mac id hmac
    obtain ⟨-, -, hgroup⟩ | ⟨-, hold⟩ := hbound mac id hmac
    · exact hgroup
    · exact h.unicast mac id hold
  · intro mac id hmac
    rw [lastFrom_cons]
    have hkept := htrims.macs_kept mac id hmac
    rw [hsame.1] at hkept
    obtain ⟨hsource, rfl, -⟩ | ⟨hsource, hold⟩ := hbound mac id hmac
    · rw [if_pos hsource]
      exact ⟨rfl, hkept hmem⟩
    · rw [if_neg hsource]
      obtain ⟨hlast, hid⟩ := h.fresh mac id hold
      exact ⟨hlast, hkept hid⟩

/-- The reader takes a frame from the device. -/
theorem Inv.device {s : SwitchSystem} (h : Inv s) {frame : Frame}
    (hcareful : s.Careful (.device frame)) :
  Inv { s with sw := s.sw.readLoop frame, log := (.device, frame) :: s.log }
  := by
  have htrims := TapSwitch.trims_readLoop s.sw frame
  have hsame : _ ∧ _ := TapSwitch.parsed_ports s.sw frame
  have hbound (mac : MacAddr) (id : UInt32)
      (hmac : (s.sw.readLoop frame).macs.lookup mac = some id) :
      TapSwitch.source frame ≠ some mac ∧ s.sw.macs.lookup mac = some id := by
    have hbase := htrims.macs_sub mac id hmac
    split at hbase
    · rename_i hone
      refine ⟨?_, hbase⟩
      intro hsource
      apply hcareful
      refine ⟨hone, mac, hsource, ?_⟩
      rw [hbase]
      rfl
    · obtain ⟨hold, hgroup⟩ := TapSwitch.lookup_unlearnSource hbase
      refine ⟨?_, hold⟩
      intro hsource
      exact h.unicast mac id hold (hgroup hsource)
  refine ⟨(h.wired.of_eq hsame s.log).trims htrims _, ?_, ?_⟩
  · intro mac id hmac
    exact h.unicast mac id (hbound mac id hmac).2
  · intro mac id hmac
    obtain ⟨hsource, hold⟩ := hbound mac id hmac
    obtain ⟨hlast, hid⟩ := h.fresh mac id hold
    have hkept := htrims.macs_kept mac id hmac
    rw [hsame.1] at hkept
    rw [lastFrom_cons, if_neg hsource]
    exact ⟨hlast, hkept hid⟩

theorem inv_init (portToPort : Bool) :
  Inv (init portToPort)
  where
  wired := wired_init portToPort
  unicast _ _ h := by simp [init, TapSwitch.build] at h
  fresh _ _ h := by simp [init, TapSwitch.build] at h

/-- Every careful step keeps the invariant. -/
theorem Inv.step {s t : SwitchSystem} {op : SwitchOp} (h : Inv s) (hcareful : s.Careful op)
    (hstep : s.Step op t) :
  Inv t
  := by
  cases op with
  | attach transport peer proven =>
      simp only [Step, SwitchSystem.step, TapSwitch.attach_of_isL2 h.wired.isL2,
        Option.some.injEq] at hstep
      subst hstep
      have hfresh : ∀ cell hd, s.handle? cell = some hd → hd.portId ≠ s.sw.nextPort := by
        intro cell hd hcell heq
        apply hcareful
        apply List.mem_map.mpr
        exact ⟨hd, mem_handles_of_handle? hcell, heq⟩
      apply h.shrink (h.wired.attach hfresh transport peer proven)
      intro mac id hmac
      refine ⟨hmac, ?_⟩
      intro hid
      exact (AList.mem_insert s.sw.ports).mpr (Or.inr hid)
  | egress cell frame =>
      obtain ⟨hd, hlive, heq⟩ := Option.bind_eq_some_iff.mp hstep
      obtain rfl := Option.some.inj heq
      apply h.egress hlive
  | device frame =>
      obtain rfl := Option.some.inj hstep
      apply h.device hcareful
  | recv cell =>
      obtain ⟨hd, hlive, heq⟩ := Option.bind_eq_some_iff.mp hstep
      obtain rfl := Option.some.inj heq
      apply h.shrink (h.wired.modifyCell hd.cell _)
      · intro mac id hmac
        exact ⟨hmac, fun hid => hid⟩
      · intro x hx
        exact hx
  | close cell =>
      obtain ⟨hd, hlive, heq⟩ := Option.bind_eq_some_iff.mp hstep
      obtain rfl := Option.some.inj heq
      apply h.shrink (h.wired.modifyCell hd.cell _)
      · intro mac id hmac
        exact ⟨hmac, fun hid => hid⟩
      · intro x hx
        simp at hx
  | drop cell =>
      obtain ⟨hd, hcell, heq⟩ := Option.bind_eq_some_iff.mp hstep
      obtain rfl := Option.some.inj heq
      apply h.shrink (h.wired.drop hcell)
      intro mac id hmac
      obtain ⟨hold, hne⟩ := (Table.lookup_retain _ _ _ _).mp hmac
      refine ⟨hold, ?_⟩
      intro hid
      exact AList.mem_erase.mpr ⟨by simpa using hne, hid⟩

/-- Binding freshness: in every run of an Ethernet switch whose steps are all careful, in
every state it reaches, an address is bound only to an attached port that sent the most
recent frame from it. -/
theorem fresh_of_careful {portToPort : Bool} {ops : List SwitchOp} {s : SwitchSystem}
    (h : Run (Meeting Careful Step) (init portToPort) ops s) :
  s.Fresh
  := by
  have hinv : s.Inv := by
    apply h.invariant (inv_init portToPort)
    rintro s op t hs ⟨hcareful, hstep⟩
    exact hs.step hcareful hstep
  exact hinv.fresh

/-- A frame between two stations. -/
def frameOf (dst src : MacAddr) : Frame :=
  dst.toList ++ src.toList ++ [8, 0]

/-- A station behind a port. -/
def station : MacAddr := ⟨[2, 0, 0, 0, 0, 1], rfl⟩

/-- Another station. -/
def neighbour : MacAddr := ⟨[2, 0, 0, 0, 0, 2], rfl⟩

/-- A station that is learned behind the first of two ports, and then moves to the second. -/
theorem fresh_after_move :
  ∃ s, Run (Meeting Careful Step) (init true)
      [.attach 1 none true, .attach 1 none true, .egress 0 (frameOf neighbour station),
        .egress 1 (frameOf neighbour station), .device (frameOf station neighbour)] s
    ∧ s.sw.macs.lookup station = some 1 ∧ s.Fresh
  := by
  obtain ⟨s, hs, hstation⟩ : ∃ s, execute Careful step (init true)
      [.attach 1 none true, .attach 1 none true, .egress 0 (frameOf neighbour station),
        .egress 1 (frameOf neighbour station), .device (frameOf station neighbour)] = some s
      ∧ s.sw.macs.lookup station = some 1 := ⟨_, rfl, rfl⟩
  have hrun := run_of_execute hs
  exact ⟨s, hrun, hstation, fresh_of_careful hrun⟩

/-- A station that is learned behind the only port keeps its binding when the device sends
the next frame from it. -/
theorem not_fresh_of_sole_port :
  ¬ ∀ portToPort ops s, Run Step (init portToPort) ops s → s.Fresh
  := by
  intro h
  obtain ⟨s, hs, hstation, hlast⟩ : ∃ s, execute (fun _ _ => True) step (init true)
      [.attach 1 none true, .egress 0 (frameOf neighbour station),
        .device (frameOf neighbour station)] = some s
      ∧ s.sw.macs.lookup station = some 0 ∧ s.lastFrom station = some .device := ⟨_, rfl, rfl, rfl⟩
  have hrun := (run_of_execute hs).mono fun _ _ _ h => h.2
  have hfresh := (h true _ s hrun station 0 hstation).1
  rw [hlast] at hfresh
  simp at hfresh

end SwitchSystem

end ZeroNat

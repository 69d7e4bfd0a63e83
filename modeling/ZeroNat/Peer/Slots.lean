import ZeroNat.Lib.Run
import ZeroNat.Lib.Table
import ZeroNat.Proto.Msg

/-!
# Frames of pairs and the slots that own them

A client has one handle through which its peer slots reach the server.  The frames that the
server sends about a pair name it by its id, and go to the queue that the id is bound to.  A
binding is made when the answer to a request, or the announcement of a pair, is routed; it is
removed when the cycle that serves the pair ends, and all are removed when the control session
comes up or goes down, which starts another generation.  A cycle may end long after the
generation it began in.
-/

namespace ZeroNat.Peer

/-- What a queue of inbound frames is registered under: the answers to requests for a peer and
a capability, the pairs of a provider of a capability, or one pair. -/
inductive RouteKey where
  | result (peerId : PeerIdentity) (want : UInt8)
  | provider (provides : UInt8)
  | pair (pairId : UInt64)
deriving DecidableEq

def RouteKey.isPair : RouteKey → Bool
  | .pair _ => true
  | _ => false

/-- The handle of the peer slots: the generation of the control session, whether there is
one, and the queue that each key leads to. -/
structure PeerControl where
  generation : ℕ
  live : Bool
  routes : Table RouteKey ℕ

namespace PeerControl

/-- Drop every pair binding, and keep the registrations of the slots. -/
def clearPairs (c : PeerControl) : PeerControl :=
  { c with routes := c.routes.retain fun key _ => !key.isPair }

/-- Another generation, with a control session or without one. -/
def bump (c : PeerControl) (live : Bool) : PeerControl :=
  { c with generation := c.generation + 1, live := live }

/-- The queue an inbound frame goes to, and the binding that it makes. -/
def route (c : PeerControl) : Msg → Option ℕ × Option UInt64
  | .peerResult peerId want pairId status =>
      match c.routes.lookup (.result peerId want) with
      | none => (none, none)
      | some tx => (some tx, if status = .accepted ∧ pairId ≠ 0 then some pairId else none)
  | .peerProbe pairId _ _ _ _ provides =>
      match c.routes.lookup (.pair pairId) with
      | some tx => (some tx, none)
      | none =>
          match c.routes.lookup (.provider provides) with
          | none => (none, none)
          | some tx => (some tx, some pairId)
  | .peerInfo pairId _ => (c.routes.lookup (.pair pairId), none)
  | .peerRelayOpen pairId _ _ => (c.routes.lookup (.pair pairId), none)
  | _ => (none, none)

/-- Bind a pair to a queue. -/
def bind (c : PeerControl) (pairId : UInt64) (tx : ℕ) : PeerControl :=
  { c with routes := c.routes.insert (.pair pairId) tx }

end PeerControl

/-- A frame on a queue, and the generation it was routed in. -/
structure Queued where
  queue : ℕ
  msg : Msg
  generation : ℕ
deriving DecidableEq

/-- A binding that was made: of a pair, to a queue, in a generation. -/
structure Binding where
  pairId : UInt64
  queue : ℕ
  generation : ℕ
deriving DecidableEq

/-- A running cycle: the pair whose binding it removes when it ends, and the generation of the
frame that started it. -/
structure Cycle where
  pairId : UInt64
  generation : ℕ
deriving DecidableEq

/-- What the control task is doing: it reads frames, or it has removed the bindings and is
about to publish that the session is up, or down. -/
inductive Phase where
  | steady
  | installing
  | dropping
deriving DecidableEq

/-- The handle, the slots by the keys of their queues, the cycles that run, and what has
happened: the frames that are queued, the frames that were ever queued, the bindings that
were ever made, and the cycles that have ended. -/
structure Slots where
  control : PeerControl
  phase : Phase
  keys : List RouteKey
  unread : List Queued
  queued : List Queued
  bindings : List Binding
  running : List Cycle
  ended : List Cycle

inductive SlotOp where
  /-- A slot registers its queue. -/
  | register (key : RouteKey)
  /-- A slot ends, and removes what is registered under its key. -/
  | unregister (key : RouteKey)
  /-- The control task removes the bindings, to bring the session up or after it is down. -/
  | clear (up : Bool)
  /-- The control task publishes the generation. -/
  | publish
  /-- The control task routes a frame.  `taken` says whether the queue has room and a reader. -/
  | route (msg : Msg) (taken : Bool)
  /-- The slot of a queue reads its next frame and acts on it. -/
  | act (queue : ℕ)
  /-- The slot of a queue reads its next frame and drops it. -/
  | discard (queue : ℕ)
  /-- A cycle ends, by itself or because its task is dropped. -/
  | finish (i : ℕ)

namespace Slots

def init : Slots where
  control := ⟨0, false, ∅⟩
  phase := .steady
  keys := []
  unread := []
  queued := []
  bindings := []
  running := []
  ended := []

/-- The next frame of a queue. -/
def next (s : Slots) (queue : ℕ) : Option Queued :=
  s.unread.find? fun f => f.queue = queue

/-- The pair that a slot begins to serve with a frame: a consumer with the acceptance of its
request, a provider with the announcement of a pair while there is a control session. -/
def begins (s : Slots) (f : Queued) : Option UInt64 :=
  match s.keys[f.queue]?, f.msg with
  | some (.result _ _), .peerResult _ _ pairId .accepted => some pairId
  | some (.provider _), .peerProbe pairId _ _ _ _ _ => if s.control.live then some pairId else none
  | _, _ => none

/-- Route a frame, in the record of what was queued and bound. -/
def deliver (s : Slots) (msg : Msg) (taken : Bool) : Slots :=
  match s.control.route msg with
  | (none, _) => s
  | (some tx, bound) =>
      let f : Queued := ⟨tx, msg, s.control.generation⟩
      let s :=
        match bound with
        | none => s
        | some pairId =>
            { s with
              control := s.control.bind pairId tx
              bindings := ⟨pairId, tx, s.control.generation⟩ :: s.bindings }
      if taken then { s with unread := s.unread ++ [f], queued := f :: s.queued } else s

def step (s : Slots) : SlotOp → Option Slots
  | .register key =>
      if key.isPair then none
      else some { s with
        control := { s.control with routes := s.control.routes.insert key s.keys.length }
        keys := s.keys ++ [key] }
  | .unregister key =>
      if key.isPair then none
      else some { s with control := { s.control with routes := s.control.routes.erase key } }
  | .clear up =>
      if s.phase = .steady ∧ s.control.live = !up then
        some { s with
          control := s.control.clearPairs
          phase := if up then .installing else .dropping }
      else none
  | .publish =>
      match s.phase with
      | .steady => none
      | .installing => some { s with control := s.control.bump true, phase := .steady }
      | .dropping => some { s with control := s.control.bump false, phase := .steady }
  | .route msg taken => if s.phase = .steady then some (s.deliver msg taken) else none
  | .act queue =>
      match s.next queue with
      | none => none
      | some f =>
          let s' := { s with unread := s.unread.erase f }
          match s.begins f with
          | none => some s'
          | some pairId => some { s' with running := s.running ++ [⟨pairId, f.generation⟩] }
  | .discard queue =>
      match s.next queue with
      | none => none
      | some f => some { s with unread := s.unread.erase f }
  | .finish i =>
      match s.running[i]? with
      | none => none
      | some cycle =>
          some { s with
            control := { s.control with routes := s.control.routes.erase (.pair cycle.pairId) }
            running := s.running.eraseIdx i
            ended := cycle :: s.ended }

/-- A cycle ends while its pair is bound only if it was started in the present generation, and
a pair that is bound is accepted again only for the slot it is bound to. -/
def Careful (s : Slots) : SlotOp → Prop
  | .finish i => ∀ cycle ∈ s.running[i]?, cycle.generation = s.control.generation
      ∨ s.control.routes.lookup (.pair cycle.pairId) = none
  | .route msg _ => ∀ tx ∈ (s.control.route msg).1, ∀ pairId ∈ (s.control.route msg).2,
      ∀ tx' ∈ s.control.routes.lookup (.pair pairId), tx' = tx
  | _ => True

instance (s : Slots) : DecidablePred s.Careful
  | .finish i =>
    inferInstanceAs (Decidable (∀ cycle ∈ s.running[i]?, cycle.generation = s.control.generation
      ∨ s.control.routes.lookup (.pair cycle.pairId) = none))
  | .route msg _ =>
    @Option.decidableForallMem _ _
      (fun tx => @Option.decidableForallMem _ _
        (fun pairId =>
          inferInstanceAs (Decidable (∀ tx' ∈ s.control.routes.lookup (.pair pairId), tx' = tx)))
        (s.control.route msg).2)
      (s.control.route msg).1
  | .register _ => inferInstanceAs (Decidable True)
  | .unregister _ => inferInstanceAs (Decidable True)
  | .clear _ => inferInstanceAs (Decidable True)
  | .publish => inferInstanceAs (Decidable True)
  | .act _ => inferInstanceAs (Decidable True)
  | .discard _ => inferInstanceAs (Decidable True)

/-- The careful steps of a client. -/
def Step (s : Slots) (op : SlotOp) (t : Slots) : Prop :=
  Meeting Careful (fun s op t => s.step op = some t) s op t

/-- The pair of a frame that follows the binding of its pair. -/
def pairOf : Msg → Option UInt64
  | .peerInfo pairId _ => some pairId
  | .peerRelayOpen pairId _ _ => some pairId
  | _ => none

/-! ### The bindings of a generation -/

/-- What is kept along a careful run: the bindings in force were made in the present
generation, a frame was queued where its pair was bound in the generation of the frame, and a
binding of the present generation is in force until a cycle of the generation that served its
pair has ended. -/
structure Bound (s : Slots) : Prop where
  present : ∀ pairId tx, s.control.routes.lookup (.pair pairId) = some tx →
    s.phase = .steady ∧ ⟨pairId, tx, s.control.generation⟩ ∈ s.bindings
  past : ∀ b ∈ s.bindings, b.generation ≤ s.control.generation
  queued : ∀ f ∈ s.queued, ∀ pairId, pairOf f.msg = some pairId →
    ⟨pairId, f.queue, f.generation⟩ ∈ s.bindings
  kept : s.phase = .steady → ∀ b ∈ s.bindings, b.generation = s.control.generation →
    ⟨b.pairId, b.generation⟩ ∉ s.ended → s.control.routes.lookup (.pair b.pairId) = some b.queue

theorem bound_init : init.Bound where
  present := by simp [init]
  past := by simp [init]
  queued := by simp [init]
  kept := by simp [init]

/-- A step that leaves the bindings and the record of the frames alone. -/
theorem Bound.of_routes {s t : Slots} (hs : s.Bound) (hphase : t.phase = s.phase)
    (hgeneration : t.control.generation = s.control.generation)
    (hroutes : ∀ pairId, t.control.routes.lookup (.pair pairId)
      = s.control.routes.lookup (.pair pairId))
    (hbindings : t.bindings = s.bindings) (hqueued : t.queued = s.queued)
    (hended : t.ended = s.ended) :
  t.Bound where
  present := by
    intro pairId tx h
    rw [hroutes] at h
    rw [hphase, hbindings, hgeneration]
    exact hs.present pairId tx h
  past := by
    rw [hbindings, hgeneration]
    exact hs.past
  queued := by
    rw [hbindings, hqueued]
    exact hs.queued
  kept := by
    rw [hphase, hbindings, hgeneration, hended]
    intro hsteady b hb hgen hnot
    rw [hroutes]
    exact hs.kept hsteady b hb hgen hnot

theorem Bound.register {s : Slots} (hs : s.Bound) {key : RouteKey} (hkey : ¬ key.isPair = true)
    (keys : List RouteKey) (tx : ℕ) :
  Bound { s with
    control := { s.control with routes := s.control.routes.insert key tx }
    keys := keys }
  := by
  refine hs.of_routes rfl rfl ?_ rfl rfl rfl
  intro pairId
  refine AList.lookup_insert_ne ?_
  rintro rfl
  exact hkey rfl

theorem Bound.unregister {s : Slots} (hs : s.Bound) {key : RouteKey} (hkey : ¬ key.isPair = true) :
  Bound { s with control := { s.control with routes := s.control.routes.erase key } }
  := by
  refine hs.of_routes rfl rfl ?_ rfl rfl rfl
  intro pairId
  refine AList.lookup_erase_ne ?_
  rintro rfl
  exact hkey rfl

/-- After the bindings are removed, none is in force. -/
theorem lookup_clearPairs (c : PeerControl) (pairId : UInt64) :
  c.clearPairs.routes.lookup (.pair pairId) = none
  := by
  cases h : c.clearPairs.routes.lookup (.pair pairId) with
  | none => rfl
  | some tx =>
      rw [PeerControl.clearPairs, Table.lookup_retain] at h
      simp [RouteKey.isPair] at h

theorem Bound.clear {s : Slots} (hs : s.Bound) {phase : Phase} (hphase : phase ≠ .steady) :
  Bound { s with control := s.control.clearPairs, phase := phase } where
  present := by
    intro pairId tx h
    rw [lookup_clearPairs] at h
    simp at h
  past := hs.past
  queued := hs.queued
  kept := fun hsteady => absurd hsteady hphase

theorem Bound.publish {s : Slots} (hs : s.Bound) (hphase : s.phase ≠ .steady) (live : Bool) :
  Bound { s with control := s.control.bump live, phase := .steady } where
  present := by
    intro pairId tx h
    exact absurd (hs.present pairId tx h).1 hphase
  past := by
    intro b hb
    exact Nat.le_succ_of_le (hs.past b hb)
  queued := hs.queued
  kept := by
    -- no binding has been made in the new generation
    intro _ b hb hgen
    have hle := hs.past b hb
    rw [hgen] at hle
    exact absurd hle (Nat.not_succ_le_self _)

/-- To bind a pair, when it is not bound to another queue. -/
theorem Bound.bind {s : Slots} (hs : s.Bound) (hphase : s.phase = .steady) {pairId : UInt64}
    {tx : ℕ} (hfree : ∀ tx' ∈ s.control.routes.lookup (.pair pairId), tx' = tx) :
  Bound { s with
    control := s.control.bind pairId tx
    bindings := ⟨pairId, tx, s.control.generation⟩ :: s.bindings }
  := by
  have hlookup : ∀ p, (s.control.bind pairId tx).routes.lookup (.pair p)
      = if p = pairId then some tx else s.control.routes.lookup (.pair p) := by
    intro p
    rw [PeerControl.bind, Table.lookup_insert_eq]
    simp only [RouteKey.pair.injEq]
  constructor
  · intro p q h
    rw [hlookup] at h
    split at h
    · rename_i heq
      rw [heq, ← Option.some.inj h]
      exact ⟨hphase, List.mem_cons_self⟩
    · exact ⟨hphase, List.mem_cons_of_mem _ (hs.present p q h).2⟩
  · intro b hb
    obtain rfl | hb := List.mem_cons.mp hb
    · exact le_refl _
    · exact hs.past b hb
  · intro f hf p hp
    exact List.mem_cons_of_mem _ (hs.queued f hf p hp)
  · intro _ b hb hgen hnot
    rw [hlookup]
    obtain rfl | hb := List.mem_cons.mp hb
    · rw [if_pos rfl]
    · split
      · rename_i heq
        have hkept := hs.kept hphase b hb hgen hnot
        rw [heq] at hkept
        rw [hfree b.queue hkept]
      · exact hs.kept hphase b hb hgen hnot

/-- A frame that follows the binding of its pair, or another frame, is queued. -/
theorem Bound.queue {s : Slots} (hs : s.Bound) {f : Queued}
    (hf : ∀ pairId, pairOf f.msg = some pairId →
      s.control.routes.lookup (.pair pairId) = some f.queue)
    (hgen : f.generation = s.control.generation) :
  Bound { s with unread := s.unread ++ [f], queued := f :: s.queued } where
  present := hs.present
  past := hs.past
  queued := by
    intro g hg pairId hp
    obtain rfl | hg := List.mem_cons.mp hg
    · rw [hgen]
      exact (hs.present pairId g.queue (hf pairId hp)).2
    · exact hs.queued g hg pairId hp
  kept := hs.kept

/-- A frame that follows the binding of its pair goes where its pair is bound, and binds
nothing. -/
theorem route_of_pairOf {c : PeerControl} {msg : Msg} {pairId : UInt64}
    (h : pairOf msg = some pairId) :
  c.route msg = (c.routes.lookup (.pair pairId), none)
  := by
  cases msg with
  | peerInfo p candidates =>
      obtain rfl := Option.some.inj h
      rfl
  | peerRelayOpen p id capability =>
      obtain rfl := Option.some.inj h
      rfl
  | _ => simp [pairOf] at h

theorem Bound.deliver {s : Slots} (hs : s.Bound) (hphase : s.phase = .steady) {msg : Msg}
    {taken : Bool} (hcareful : s.Careful (.route msg taken)) :
  (s.deliver msg taken).Bound
  := by
  rw [Slots.deliver]
  cases hroute : s.control.route msg with
  | mk target bound =>
      cases target with
      | none => exact hs
      | some tx =>
          cases bound with
          | none =>
              dsimp only
              split
              · refine hs.queue ?_ rfl
                intro pairId hp
                rw [route_of_pairOf hp] at hroute
                exact (Prod.mk.inj hroute).1
              · exact hs
          | some pairId =>
              have hbound := hs.bind hphase
                (hcareful tx (by rw [hroute]; rfl) pairId (by rw [hroute]; rfl))
              dsimp only
              split
              · refine hbound.queue ?_ rfl
                intro p hp
                rw [route_of_pairOf hp] at hroute
                exact absurd (Prod.mk.inj hroute).2 (by simp)
              · exact hbound

theorem Bound.finish {s : Slots} (hs : s.Bound) {cycle : Cycle} (running : List Cycle)
    (hcareful : cycle.generation = s.control.generation
      ∨ s.control.routes.lookup (.pair cycle.pairId) = none) :
  Bound { s with
    control := { s.control with routes := s.control.routes.erase (.pair cycle.pairId) }
    running := running
    ended := cycle :: s.ended }
  := by
  have hlookup : ∀ p, (s.control.routes.erase (.pair cycle.pairId)).lookup (.pair p)
      = if p = cycle.pairId then none else s.control.routes.lookup (.pair p) := by
    intro p
    rw [Table.lookup_erase_eq]
    simp only [RouteKey.pair.injEq]
  constructor
  · intro p q h
    dsimp only at h
    rw [hlookup] at h
    split at h
    · simp at h
    · exact hs.present p q h
  · exact hs.past
  · exact hs.queued
  · intro hsteady b hb hgen hnot
    obtain ⟨hne, hnot⟩ := not_or.mp (mt List.mem_cons.mpr hnot)
    have hkept := hs.kept hsteady b hb hgen hnot
    dsimp only
    rw [hlookup]
    split
    · rename_i heq
      obtain hcycle | hnone := hcareful
      · -- the cycle that ends is one of the present generation
        refine absurd ?_ hne
        rw [heq, hgen, ← hcycle]
      · rw [heq, hnone] at hkept
        simp at hkept
    · exact hkept

theorem Bound.step {s t : Slots} (hs : s.Bound) {op : SlotOp} (hcareful : s.Careful op)
    (hstep : s.step op = some t) :
  t.Bound
  := by
  cases op with
  | register key =>
      rw [Slots.step] at hstep
      split at hstep
      · simp at hstep
      · rename_i hkey
        obtain rfl := Option.some.inj hstep
        exact hs.register hkey _ _
  | unregister key =>
      rw [Slots.step] at hstep
      split at hstep
      · simp at hstep
      · rename_i hkey
        obtain rfl := Option.some.inj hstep
        exact hs.unregister hkey
  | clear up =>
      rw [Slots.step] at hstep
      split at hstep
      · obtain rfl := Option.some.inj hstep
        refine hs.clear ?_
        cases up <;> simp
      · simp at hstep
  | publish =>
      rw [Slots.step] at hstep
      cases hphase : s.phase with
      | steady => simp [hphase] at hstep
      | installing =>
          rw [hphase] at hstep
          obtain rfl := Option.some.inj hstep
          exact hs.publish (by simp [hphase]) true
      | dropping =>
          rw [hphase] at hstep
          obtain rfl := Option.some.inj hstep
          exact hs.publish (by simp [hphase]) false
  | route msg taken =>
      rw [Slots.step] at hstep
      split at hstep
      · rename_i hphase
        obtain rfl := Option.some.inj hstep
        exact hs.deliver hphase hcareful
      · simp at hstep
  | act queue =>
      rw [Slots.step] at hstep
      split at hstep
      · simp at hstep
      · dsimp only at hstep
        split at hstep
        · obtain rfl := Option.some.inj hstep
          exact hs.of_routes rfl rfl (fun _ => rfl) rfl rfl rfl
        · obtain rfl := Option.some.inj hstep
          exact hs.of_routes rfl rfl (fun _ => rfl) rfl rfl rfl
  | discard queue =>
      rw [Slots.step] at hstep
      split at hstep
      · simp at hstep
      · obtain rfl := Option.some.inj hstep
        exact hs.of_routes rfl rfl (fun _ => rfl) rfl rfl rfl
  | finish i =>
      rw [Slots.step] at hstep
      split at hstep
      · simp at hstep
      · rename_i cycle hcycle
        obtain rfl := Option.some.inj hstep
        exact hs.finish _ (hcareful cycle hcycle)

/-- The frames of pairs reach the slots that own them.  Along every careful run, a frame about
a pair is queued only on the queue that the pair was bound to in the generation of the frame,
and a binding of the present generation is in force until a cycle of the generation that
served the pair has ended. -/
theorem frames_reach_owner {ops : List SlotOp} {s : Slots} (hrun : Run Step init ops s) :
  (∀ f ∈ s.queued, ∀ pairId, pairOf f.msg = some pairId →
      ⟨pairId, f.queue, f.generation⟩ ∈ s.bindings)
    ∧ (s.phase = .steady → ∀ b ∈ s.bindings, b.generation = s.control.generation →
        ⟨b.pairId, b.generation⟩ ∉ s.ended →
        s.control.routes.lookup (.pair b.pairId) = some b.queue)
  := by
  have hs : s.Bound := by
    apply hrun.invariant bound_init
    rintro s op t hs ⟨hcareful, hstep⟩
    exact hs.step hcareful hstep
  exact ⟨hs.queued, hs.kept⟩

/-- The announcement of the first pair of a server, to a provider of an exit. -/
private def firstProbe : Msg :=
  .peerProbe 1 (Bytes.zero 32) 2 (Bytes.zero 32) (Bytes.zero 32) providesExit

/-- A provider serves the first pair of a server, and the control session is lost. -/
private def lostSession : List SlotOp :=
  [.register (.provider providesExit), .clear true, .publish, .route firstProbe true, .act 0,
    .clear false, .publish]

/-- A restarted server begins to number its pairs again. -/
private def restarted : List SlotOp :=
  lostSession ++ [.clear true, .publish, .route firstProbe true]

/-- The binding of a generation is in force when the cycle of an earlier one has ended in
time. -/
theorem frames_reach_owner_restarted :
  ∃ s, Run Step init (lostSession ++ [.finish 0, .clear true, .publish, .route firstProbe true,
      .route (.peerInfo 1 []) true]) s
    ∧ s.bindings.head? = some ⟨1, 0, 3⟩ ∧ s.control.routes.lookup (.pair 1) = some 0
  := by
  have h : execute Careful step init (lostSession ++ [.finish 0, .clear true, .publish,
      .route firstProbe true, .route (.peerInfo 1 []) true]) ≠ none := by decide +kernel
  obtain ⟨s, hs⟩ := Option.ne_none_iff_exists'.mp h
  have hrun := run_of_execute hs
  have hhead : (execute Careful step init (lostSession ++ [.finish 0, .clear true, .publish,
      .route firstProbe true, .route (.peerInfo 1 []) true])).map (fun s =>
        (s.bindings.head?, s.phase, s.control.generation, s.ended))
      = some (some ⟨1, 0, 3⟩, .steady, 3, [⟨1, 1⟩]) := by
    decide +kernel
  rw [hs, Option.map_some] at hhead
  obtain ⟨hb, hphase, hgen, hended⟩ : _ ∧ _ ∧ _ ∧ _ := by
    simpa only [Prod.mk.injEq] using Option.some.inj hhead
  have hmem : (⟨1, 0, 3⟩ : Binding) ∈ s.bindings := List.mem_of_mem_head? hb
  refine ⟨s, hrun, hb, ?_⟩
  exact (frames_reach_owner hrun).2 hphase ⟨1, 0, 3⟩ hmem hgen.symm (by rw [hended]; decide)

/-- A cycle of an earlier generation ends late, and removes the binding that the present
generation has made for the same id. -/
theorem binding_removed_late :
  ∃ s, Run (fun s op t => s.step op = some t) init (restarted ++ [.finish 0]) s
    ∧ s.phase = .steady ∧ s.control.generation = 3 ∧ (⟨1, 0, 3⟩ : Binding) ∈ s.bindings
    ∧ (⟨1, 3⟩ : Cycle) ∉ s.ended ∧ s.control.routes.lookup (.pair 1) = none
  := by
  have h : execute (fun _ _ => True) step init (restarted ++ [.finish 0]) ≠ none := by
    decide +kernel
  obtain ⟨s, hs⟩ := Option.ne_none_iff_exists'.mp h
  have hview : (execute (fun _ _ => True) step init (restarted ++ [.finish 0])).map (fun s =>
        (s.phase, s.control.generation, s.bindings, s.ended,
          s.control.routes.lookup (.pair 1)))
      = some (.steady, 3, [⟨1, 0, 3⟩, ⟨1, 0, 1⟩], [⟨1, 1⟩], none) := by
    decide +kernel
  rw [hs, Option.map_some] at hview
  obtain ⟨hphase, hgen, hbindings, hended, hlookup⟩ : _ ∧ _ ∧ _ ∧ _ ∧ _ := by
    simpa only [Prod.mk.injEq] using Option.some.inj hview
  refine ⟨s, (run_of_execute hs).mono (fun _ _ _ h => h.2), hphase, hgen, ?_, ?_, hlookup⟩
  · rw [hbindings]
    decide
  · rw [hended]
    decide

end Slots

end ZeroNat.Peer

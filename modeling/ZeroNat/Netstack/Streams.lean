import ZeroNat.Netstack.Service

/-!
# The streams of a connection

What a client sends is written to the socket in its order, and our stream is ended after the last of
it.  What the remote sends is handed to the client in its order.  But a socket that is closed is
reaped before what it received is looked at, and then the end of the remote's stream may be lost.
-/

namespace ZeroNat.Netstack

/-- The remote may still send. -/
def State.remoteOpen : State → Bool
  | .listen | .synSent | .synReceived | .established | .finWait1 | .finWait2 => true
  | .closed | .closeWait | .closing | .lastAck | .timeWait => false

/-- The connection has come up. -/
def State.cameUp : State → Bool
  | .listen | .synSent | .synReceived => false
  | _ => true

/-- What can happen to a socket. -/
inductive Socket.Moves (s : Socket) : Socket → Prop where
  | data (hopen : s.state.remoteOpen = true) (bytes : List UInt8) :
      Moves s { s with rx := s.rx ++ bytes, arrived := s.arrived ++ bytes }
  | moved {state : State} (hlive : state ≠ .closed)
      (hopen : state.remoteOpen = s.state.remoteOpen)
      (hup : s.state.cameUp = true → state.cameUp = true) :
      Moves s { s with state }
  | ended {state : State} (hlive : state ≠ .closed) (hup : state.cameUp = true)
      (hopen : s.state.remoteOpen = true) (hended : state.remoteOpen = false) :
      Moves s { s with state, remoteFin := true }
  | closed : Moves s { s with state := .closed }

theorem Socket.moves_net {s s' : Socket} {n : Net} (h : s.net n = some s') :
  s.state ≠ .closed ∧ s.Moves s'
  := by
  cases n with
  | crossed =>
      rw [Socket.net] at h
      split at h
      case h_2 => cases h
      all_goals
        rename_i hstate
        obtain rfl := Option.some.inj h
        exact ⟨by simp [hstate], .moved (by decide) (by simp [hstate, State.remoteOpen])
          (by simp [hstate, State.cameUp])⟩
  | opened =>
      rw [Socket.net] at h
      split at h
      case h_3 => cases h
      all_goals
        rename_i hstate
        obtain rfl := Option.some.inj h
        exact ⟨by simp [hstate], .moved (by decide) (by simp [hstate, State.remoteOpen])
          (by simp [hstate, State.cameUp])⟩
  | data bytes =>
      rw [Socket.net] at h
      split at h
      case h_5 => cases h
      all_goals
        rename_i hstate
        obtain rfl := Option.some.inj h
        exact ⟨by simp [hstate], .data (by simp [hstate, State.remoteOpen]) bytes⟩
  | fin =>
      rw [Socket.net] at h
      split at h
      case h_5 => cases h
      all_goals
        rename_i hstate
        obtain rfl := Option.some.inj h
        exact ⟨by simp [hstate], .ended (by decide) rfl (by simp [hstate, State.remoteOpen]) rfl⟩
  | acked =>
      rw [Socket.net] at h
      split at h
      case h_3 =>
        rename_i hstate
        obtain rfl := Option.some.inj h
        exact ⟨by simp [hstate], .closed⟩
      case h_4 => cases h
      all_goals
        rename_i hstate
        obtain rfl := Option.some.inj h
        exact ⟨by simp [hstate], .moved (by decide) (by simp [hstate, State.remoteOpen])
          (by simp [hstate, State.cameUp])⟩
  | expired =>
      rw [Socket.net] at h
      split at h
      case h_2 => cases h
      all_goals
        rename_i hstate
        obtain rfl := Option.some.inj h
        exact ⟨by simp [hstate], .closed⟩
  | reset =>
      rw [Socket.net] at h
      split at h
      · cases h
      · rename_i hstate
        obtain rfl := Option.some.inj h
        exact ⟨hstate, .closed⟩

/-- Not much more is staged than the budget. -/
def Staged (taken : List (List UInt8)) (outBuf : List UInt8) : Prop :=
  outBuf.length ≤ outBufBudget ∨ ∃ chunk ∈ taken, outBuf.length < outBufBudget + chunk.length

theorem Staged.mono {taken : List (List UInt8)} {outBuf outBuf' : List UInt8}
    (h : Staged taken outBuf) (hle : outBuf'.length ≤ outBuf.length) :
  Staged taken outBuf'
  := by
  obtain h | ⟨chunk, hchunk, h⟩ := h
  · exact .inl (Nat.le_trans hle h)
  · exact .inr ⟨chunk, hchunk, Nat.lt_of_le_of_lt hle h⟩

namespace Served

/-- What holds of a connection. -/
structure Sound (c : Served) : Prop where
  received : c.delivered.flatten ++ c.socket.rx = c.socket.arrived
  written : c.socket.written ++ c.conn.outBuf = c.taken.flatten
  queued : c.sent = c.taken ++ c.conn.toRemote.queue
  staged : Staged c.taken c.conn.outBuf
  done : c.conn.toRemoteDone = true →
    c.conn.toRemote.queue = [] ∧ c.conn.toRemote.sender = false
  fin : c.socket.finRequested = true → c.conn.toRemoteDone = true ∧ c.conn.outBuf = []
  ended : c.socket.state ≠ .closed → c.socket.remoteFin = !c.socket.state.remoteOpen
  established : c.conn.established = true → c.socket.state.cameUp = true
  dropped : c.conn.fromRemote.sender = false →
    c.conn.fromRemote.receiver = false ∨ c.socket.remoteFin = true ∨ c.socket.state = .closed
  answered : c.answers.length + c.conn.ready.toNat = 1
  reaped : c.reaped = true → c.socket.state = .closed ∧ c.conn.ready = false

/-- The client that is told of the end has everything. -/
def Drained (c : Served) : Prop :=
  c.conn.fromRemote.sender = false → c.conn.fromRemote.receiver = true →
    c.socket.remoteFin = true → c.socket.rx = []

variable {c : Served}

theorem sound_opened :
  opened.Sound
  := by
  constructor
  all_goals simp [opened, Socket.connecting, Chan.new, Staged, State.remoteOpen]

theorem Sound.answer (h : c.Sound) (ok : Bool) :
  (c.answer ok).Sound
  := by
  rw [Served.answer]
  split
  · rename_i hready
    have hnone : c.answers.length = 0 := by simpa [hready] using h.answered
    exact { h with
      answered := by simp [hnone]
      reaped := fun hr => ⟨(h.reaped hr).1, rfl⟩ }
  · exact h

theorem ready_answer (c : Served) (ok : Bool) :
  (c.answer ok).conn.ready = false
  := by
  rw [Served.answer]
  split
  · rfl
  · rename_i hready
    simpa using hready

theorem socket_answer (c : Served) (ok : Bool) :
  (c.answer ok).socket = c.socket
  := by
  rw [Served.answer]
  split <;> rfl

theorem Sound.reap (h : c.Sound) (hstate : c.socket.state = .closed)
    (hready : c.conn.ready = false) :
  c.reap.Sound
  := { h with
    dropped := fun _ => .inr (.inr hstate)
    reaped := fun _ => ⟨hstate, hready⟩ }

theorem sound_refused :
  refused.Sound
  := by
  apply Sound.reap
  · apply Sound.answer
    exact { sound_opened with
      ended := fun h => absurd rfl h
      established := fun h => by cases h
      dropped := fun h => by cases h
      reaped := fun h => by cases h }
  · rw [socket_answer]
    rfl
  · apply ready_answer

/-! ### From the client to the remote -/

theorem Sound.stageFrom {queue : List (List UInt8)}
    (h : Sound { c with conn := { c.conn with
      toRemote := { c.conn.toRemote with queue := queue } } }) :
  (c.stageFrom queue).Sound
  := by
  induction queue generalizing c with
  | nil =>
      exact { h with
        done := fun hdone => by
          refine ⟨rfl, ?_⟩
          obtain hdone | hdone := Bool.or_eq_true_iff.mp hdone
          · exact (h.done hdone).2
          · obtain ⟨_, hsender⟩ := (Bool.and_eq_true _ _).mp hdone
            exact (Bool.not_eq_true' _).mp hsender
        fin := fun hfin => by
          obtain ⟨hdone, hbuf⟩ := h.fin hfin
          exact ⟨Bool.or_eq_true_iff.mpr (.inl hdone), hbuf⟩ }
  | cons chunk queue ih =>
      rw [Served.stageFrom]
      split
      · rename_i hlen
        apply ih
        have hnot : c.conn.toRemoteDone ≠ true := fun hdone => by cases (h.done hdone).1
        exact { h with
          written := by
            have hw := h.written
            dsimp only at hw ⊢
            rw [← List.append_assoc, hw]
            simp
          queued := by
            have hq := h.queued
            dsimp only at hq ⊢
            rw [hq, List.append_assoc]
            rfl
          staged := .inr ⟨chunk, by simp, by
            dsimp only
            rw [List.length_append]
            omega⟩
          done := fun hdone => absurd hdone hnot
          fin := fun hfin => absurd (h.fin hfin).1 hnot }
      · exact h

theorem Sound.stage (h : c.Sound) :
  c.stage.Sound
  := Sound.stageFrom h

/-- The socket accepts some of the bytes that are staged. -/
theorem Sound.accept (h : c.Sound) (hbuf : c.conn.outBuf ≠ []) (n : ℕ) :
  Sound { c with
    socket := { c.socket with written := c.socket.written ++ c.conn.outBuf.take n }
    conn := { c.conn with outBuf := c.conn.outBuf.drop n } }
  := { h with
    written := by
      dsimp only
      rw [List.append_assoc, List.take_append_drop]
      exact h.written
    staged := by
      apply h.staged.mono
      dsimp only
      rw [List.length_drop]
      omega
    fin := fun hfin => absurd (h.fin hfin).2 hbuf }

theorem Sound.write (h : c.Sound) (sends : List (ℕ × ℕ)) :
  (c.write sends).Sound
  := by
  induction sends generalizing c with
  | nil => exact h
  | cons send sends ih =>
      rw [Served.write]
      split
      · rename_i hmay
        dsimp only
        split
        · exact h
        · apply ih
          have hle : min send.2 (c.conn.outBuf.take (max send.1 1)).length ≤ max send.1 1 :=
            Nat.le_trans (Nat.min_le_right _ _) (List.length_take_le _ _)
          rw [List.take_take, Nat.min_eq_left hle]
          exact h.accept hmay.2 _
      · exact h

/-- A socket that is not closed goes to another state. -/
theorem Sound.moved (h : c.Sound) (state : State) (remoteFin : Bool)
    (hlive : c.socket.state ≠ .closed)
    (hended : state ≠ .closed → remoteFin = !state.remoteOpen)
    (hup : c.socket.state.cameUp = true → state.cameUp = true)
    (hfin : c.socket.remoteFin = true → remoteFin = true) :
  Sound { c with socket := { c.socket with state, remoteFin } }
  := { h with
    ended := hended
    established := fun hest => hup (h.established hest)
    dropped := fun hsender => by
      obtain hgone | hend | hclosed := h.dropped hsender
      · exact .inl hgone
      · exact .inr (.inl (hfin hend))
      · exact absurd hclosed hlive
    reaped := fun hr => absurd (h.reaped hr).1 hlive }

theorem Sound.finish (h : c.Sound) :
  c.finish.Sound
  := by
  rw [Served.finish]
  split
  · rename_i hfin
    obtain ⟨hdone, hbuf, hmay⟩ := hfin
    have hended := h.ended
    rw [Socket.close]
    obtain hstate | hstate := of_decide_eq_true hmay
    · rw [hstate] at hended ⊢
      have hmoved := h.moved .finWait1 c.socket.remoteFin
        (by simp [hstate]) (fun _ => hended (by decide)) (fun _ => rfl) id
      exact { hmoved with fin := fun _ => ⟨hdone, hbuf⟩ }
    · rw [hstate] at hended ⊢
      have hmoved := h.moved .lastAck c.socket.remoteFin
        (by simp [hstate]) (fun _ => hended (by decide)) (fun _ => rfl) id
      exact { hmoved with fin := fun _ => ⟨hdone, hbuf⟩ }
  · exact h

/-! ### From the remote to the client -/

theorem Sound.deliver (h : c.Sound) (slice : ℕ) :
  (c.deliver slice).Sound
  := { h with
    received := by
      simp only [Served.deliver, List.flatten_append, List.flatten_singleton]
      rw [List.append_assoc, List.take_append_drop]
      exact h.received }

theorem Sound.read (h : c.Sound) (slices : List ℕ) :
  (c.read slices).2.Sound
  := by
  induction slices generalizing c with
  | nil =>
      rw [Served.read]
      split
      · exact h
      · exact h
      · exact h.deliver _
  | cons slice slices ih =>
      rw [Served.read]
      split
      · exact h
      · exact h
      · exact ih (h.deliver slice)

theorem room_gone (h : c.room = .gone) :
  c.conn.fromRemote.receiver = false
  := by
  rw [room] at h
  split at h
  · cases h
  · split at h
    · cases h
    · split at h
      · assumption
      · split at h <;> cases h

/-- The loop ends early when the receiver is dropped. -/
theorem receiver_of_read {slices : List ℕ} (h : (c.read slices).1 = true) :
  (c.read slices).2.conn.fromRemote.receiver = false
  := by
  induction slices generalizing c with
  | nil =>
      rw [Served.read] at h ⊢
      split at h
      · cases h
      · rename_i hgone
        exact room_gone hgone
      · cases h
  | cons slice slices ih =>
      rw [Served.read] at h ⊢
      split at h
      · cases h
      · rename_i hgone
        exact room_gone hgone
      · exact ih h

theorem Sound.abandon (h : c.Sound) (hgone : c.conn.fromRemote.receiver = false) :
  c.abandon.Sound
  := { h with
    ended := fun hstate => absurd rfl hstate
    established := fun _ => rfl
    dropped := fun _ => .inl hgone
    reaped := fun hr => ⟨rfl, (h.reaped hr).2⟩ }

/-- What is known when the remote cannot send any more and nothing is left. -/
theorem Sound.ended_of_mayRecv (h : c.Sound) (hup : c.conn.established = true)
    (hmay : c.socket.mayRecv = false) :
  c.socket.rx = [] ∧ (c.socket.remoteFin = true ∨ c.socket.state = .closed)
  := by
  have hup := h.established hup
  have hended := h.ended
  simp only [Socket.mayRecv, decide_eq_false_iff_not, not_or, not_not] at hmay
  obtain ⟨⟨hest, hfin1, hfin2⟩, hrx⟩ := hmay
  refine ⟨hrx, ?_⟩
  cases hstate : c.socket.state with
  | closed => exact .inr rfl
  | closeWait | closing | lastAck | timeWait =>
      rw [hstate] at hended
      exact .inl (hended (by decide))
  | established => exact absurd hstate hest
  | finWait1 => exact absurd hstate hfin1
  | finWait2 => exact absurd hstate hfin2
  | listen | synSent | synReceived =>
      rw [hstate] at hup
      cases hup

theorem Sound.halfClose (h : c.Sound) :
  c.halfClose.Sound
  := by
  rw [Served.halfClose]
  split
  · rename_i hend
    obtain ⟨hup, _, hmay, _⟩ := hend
    exact { h with dropped := fun _ => .inr (h.ended_of_mayRecv hup hmay).2 }
  · exact h

theorem Sound.pump (h : c.Sound) (o : Offer) :
  (c.pump o).Sound
  := by
  have hread := (h.stage.write o.sends).finish.read o.recvs
  rw [Served.pump]
  apply Sound.halfClose
  split
  · rename_i hgone
    exact hread.abandon (receiver_of_read hgone)
  · exact hread

theorem Sound.service (h : c.Sound) (o : Offer) :
  (c.service o).Sound
  := by
  rw [Served.service]
  split
  · exact h
  · split
    · rename_i hstate
      apply Sound.pump
      apply Sound.answer
      exact { h with
        established := fun _ => by
          dsimp only
          rw [hstate]
          rfl }
    · rename_i hstate
      apply (h.answer false).reap
      · rw [socket_answer]
        exact hstate
      · apply ready_answer
    · exact h.pump o

/-! ### What happens besides -/

theorem Sound.net {socket : Socket} {n : Net} (h : c.Sound) (hn : c.socket.net n = some socket) :
  Sound { c with socket }
  := by
  obtain ⟨hlive, hmoves⟩ := Socket.moves_net hn
  have hended := h.ended hlive
  cases hmoves with
  | data hopen bytes =>
      exact { h with
        received := by
          dsimp only
          rw [← List.append_assoc, h.received] }
  | moved _ hopen hup =>
      apply h.moved _ c.socket.remoteFin hlive _ hup id
      intro _
      rw [hopen]
      exact hended
  | ended _ hup _ hopen =>
      apply h.moved _ true hlive _ (fun _ => hup) (fun _ => rfl)
      intro _
      rw [hopen]
      rfl
  | closed =>
      exact h.moved .closed c.socket.remoteFin hlive (fun hstate => absurd rfl hstate)
        (fun _ => rfl) id

theorem Sound.client {c' : Served} {a : Client} (h : c.Sound) (ha : c.client a = some c') :
  c'.Sound
  := by
  cases a with
  | send chunk =>
      rw [Served.client] at ha
      split at ha
      · rename_i hroom
        obtain rfl := Option.some.inj ha
        have hnot : c.conn.toRemoteDone ≠ true := by
          intro hdone
          have hsender := (h.done hdone).2
          rw [hroom.1] at hsender
          cases hsender
        exact { h with
          queued := by
            dsimp only
            rw [h.queued, List.append_assoc]
          done := fun hdone => absurd hdone hnot }
      · cases ha
  | done =>
      obtain rfl := Option.some.inj ha
      exact { h with done := fun hdone => ⟨(h.done hdone).1, rfl⟩ }
  | take =>
      obtain rfl := Option.some.inj ha
      exact { h with dropped := h.dropped }
  | leave =>
      obtain rfl := Option.some.inj ha
      exact { h with dropped := fun _ => .inl rfl }

/-! ### When the client is told of the end -/

/-- What the client's side of a connection depends on. -/
def inbound (c : Served) : List UInt8 × Bool × Chan :=
  (c.socket.rx, c.socket.remoteFin, c.conn.fromRemote)

theorem eq_of_inbound {c' : Served} (h : c'.inbound = c.inbound) :
  c'.socket.rx = c.socket.rx ∧ c'.socket.remoteFin = c.socket.remoteFin
    ∧ c'.conn.fromRemote = c.conn.fromRemote
  := by
  simpa [inbound] using h

theorem Drained.of_inbound {c' : Served} (h : c.Drained) (heq : c'.inbound = c.inbound) :
  c'.Drained
  := by
  obtain ⟨hrx, hfin, hchan⟩ := eq_of_inbound heq
  rw [Drained, hrx, hfin, hchan]
  exact h

theorem inbound_answer (c : Served) (ok : Bool) :
  (c.answer ok).inbound = c.inbound
  := by
  rw [Served.answer]
  split <;> rfl

theorem inbound_stageFrom (c : Served) (queue : List (List UInt8)) :
  (c.stageFrom queue).inbound = c.inbound
  := by
  induction queue generalizing c with
  | nil => rfl
  | cons chunk queue ih =>
      rw [Served.stageFrom]
      split
      · apply ih
      · rfl

theorem inbound_write (c : Served) (sends : List (ℕ × ℕ)) :
  (c.write sends).inbound = c.inbound
  := by
  induction sends generalizing c with
  | nil => rfl
  | cons send sends ih =>
      rw [Served.write]
      split
      · dsimp only
        split
        · rfl
        · apply ih
      · rfl

theorem inbound_finish (c : Served) :
  c.finish.inbound = c.inbound
  := by
  rw [Served.finish]
  split
  · rw [Socket.close]
    split <;> rfl
  · rfl

theorem room_of_sender (h : c.conn.fromRemote.sender = false) :
  c.room = .none
  := by
  rw [room]
  split
  · rfl
  · rfl

theorem Drained.read (h : c.Drained) (slices : List ℕ) :
  (c.read slices).2.Drained
  := by
  cases hsender : c.conn.fromRemote.sender with
  | false =>
      have hroom := room_of_sender hsender
      cases slices with
      | nil => rwa [Served.read, hroom]
      | cons slice slices => rwa [Served.read, hroom]
  | true =>
      have hread : (c.read slices).2.conn.fromRemote.sender = true := by
        clear h
        induction slices generalizing c with
        | nil =>
            rw [Served.read]
            split <;> exact hsender
        | cons slice slices ih =>
            rw [Served.read]
            split
            · exact hsender
            · exact hsender
            · exact ih (c := c.deliver slice) hsender
      intro hdropped
      rw [hread] at hdropped
      cases hdropped

theorem Drained.pump (h : c.Drained) (hsound : c.Sound) (o : Offer) :
  (c.pump o).Drained
  := by
  have hwrite : (c.stage.write o.sends).finish.Drained := by
    apply h.of_inbound
    rw [inbound_finish, inbound_write, stage, inbound_stageFrom]
  have hread := hwrite.read o.recvs
  have hsound := (hsound.stage.write o.sends).finish.read o.recvs
  have hclose : ∀ c' : Served, c'.Drained → c'.Sound → c'.halfClose.Drained := by
    intro c' hc' hs'
    rw [Served.halfClose]
    split
    · rename_i hend
      obtain ⟨hup, _, hmay, _⟩ := hend
      exact fun _ _ _ => (hs'.ended_of_mayRecv hup hmay).1
    · exact hc'
  rw [Served.pump]
  split
  · rename_i hgone
    have hrec := receiver_of_read hgone
    apply hclose
    · intro _ hkept
      rw [Served.abandon, dropFromRemote] at hkept
      rw [hrec] at hkept
      cases hkept
    · exact hsound.abandon hrec
  · exact hclose _ hread hsound

/-- The socket is closed, and what it received was not read to the end of the remote's stream. -/
def Late (c : Served) : Prop :=
  c.reaped = false ∧ c.socket.state = .closed ∧ c.socket.remoteFin = true
    ∧ c.conn.fromRemote.receiver = true ∧ c.socket.rx ≠ []

instance (c : Served) : Decidable c.Late :=
  inferInstanceAs (Decidable (_ ∧ _ ∧ _ ∧ _ ∧ _))

theorem service_of_closed (hreaped : c.reaped = false) (hstate : c.socket.state = .closed)
    (o : Offer) :
  c.service o = (c.answer false).reap
  := by
  rw [service, hreaped, hstate]
  rfl

theorem Drained.service (h : c.Drained) (hsound : c.Sound) (hlate : ¬ c.Late) (o : Offer) :
  (c.service o).Drained
  := by
  rw [Served.service]
  split
  · exact h
  · rename_i hreaped
    split
    · rename_i hstate
      apply Drained.pump
      · exact h.of_inbound (inbound_answer _ true)
      · apply Sound.answer
        exact { hsound with
          established := fun _ => by
            dsimp only
            rw [hstate]
            rfl }
    · rename_i hstate
      obtain ⟨hrx, hfin, hchan⟩ := eq_of_inbound (inbound_answer c false)
      intro _ hkept hend
      by_contra hleft
      apply hlate
      refine ⟨by simpa using hreaped, hstate, hfin ▸ hend, ?_, ?_⟩
      · rw [← hchan]
        exact hkept
      · rw [← hrx]
        exact hleft
    · exact h.pump hsound o

theorem Drained.net {socket : Socket} {n : Net} (h : c.Drained) (hsound : c.Sound)
    (hn : c.socket.net n = some socket) :
  Drained { c with socket }
  := by
  obtain ⟨hlive, hmoves⟩ := Socket.moves_net hn
  have hended := hsound.ended hlive
  -- as long as the remote may send, the sender is dropped only for a client that is gone
  have hopened : c.socket.state.remoteOpen = true → c.conn.fromRemote.sender = false →
      c.conn.fromRemote.receiver = false := by
    intro hopen hsender
    rw [hopen] at hended
    obtain hgone | hend | hclosed := hsound.dropped hsender
    · exact hgone
    · rw [hended] at hend
      cases hend
    · exact absurd hclosed hlive
  cases hmoves with
  | data hopen bytes =>
      intro hsender hkept
      rw [hopened hopen hsender] at hkept
      cases hkept
  | moved => exact h
  | ended _ _ hopen =>
      intro hsender hkept
      rw [hopened hopen hsender] at hkept
      cases hkept
  | closed => exact h

theorem Drained.client {c' : Served} {a : Client} (h : c.Drained) (ha : c.client a = some c') :
  c'.Drained
  := by
  cases a with
  | send chunk =>
      rw [Served.client] at ha
      split at ha
      · obtain rfl := Option.some.inj ha
        exact h
      · cases ha
  | done =>
      obtain rfl := Option.some.inj ha
      exact h
  | take =>
      obtain rfl := Option.some.inj ha
      exact h
  | leave =>
      obtain rfl := Option.some.inj ha
      intro _ hkept
      cases hkept

/-! ### The streams -/

/-- No byte of the two streams is lost, and the request is answered.  What is written to the socket
is what was taken of the client so far, and when our stream is ended it is all that the client
sent.  What was delivered is what the remote sent so far; when the remote has ended its stream
and the client keeps its receiver, it is all of it before the sender is dropped. -/
structure Lossless (c : Served) : Prop where
  written : c.socket.written <+: c.taken.flatten
  fin : c.socket.finRequested = true → c.socket.written = c.taken.flatten ∧ c.taken = c.sent
  ordered : c.delivered.flatten <+: c.socket.arrived
  delivered : c.socket.remoteFin = true → c.conn.fromRemote.receiver = true →
    c.conn.fromRemote.sender = false → c.delivered.flatten = c.socket.arrived
  staged : Staged c.taken c.conn.outBuf
  answered : c.answers.length ≤ 1 ∧ (c.reaped = true → c.answers.length = 1)

theorem Sound.lossless (h : c.Sound) (hdrained : c.Drained) :
  c.Lossless
  := by
  constructor
  · exact ⟨_, h.written⟩
  · intro hfin
    obtain ⟨hdone, hbuf⟩ := h.fin hfin
    have hwritten := h.written
    have hqueued := h.queued
    rw [hbuf, List.append_nil] at hwritten
    rw [(h.done hdone).1, List.append_nil] at hqueued
    exact ⟨hwritten, hqueued.symm⟩
  · exact ⟨_, h.received⟩
  · intro hend hkept hdropped
    have hreceived := h.received
    rwa [hdrained hdropped hkept hend, List.append_nil] at hreceived
  · exact h.staged
  · have hanswered := h.answered
    constructor
    · omega
    · intro hreaped
      rw [(h.reaped hreaped).2] at hanswered
      exact hanswered

/-- A connection that is served too late loses the rest of the remote's stream. -/
theorem Sound.not_lossless (h : c.Sound) (hlate : c.Late) (o : Offer) :
  ¬ (c.service o).Lossless
  := by
  obtain ⟨hreaped, hstate, hend, hkept, hleft⟩ := hlate
  intro hlossless
  obtain ⟨hrx, hfin, hchan⟩ := eq_of_inbound (inbound_answer c false)
  have hreap := (h.service o).received
  rw [service_of_closed hreaped hstate] at hlossless hreap
  have hall := hlossless.delivered (hfin.trans hend)
    ((congrArg Chan.receiver hchan).trans hkept) rfl
  rw [hall] at hreap
  apply hleft
  rw [← hrx]
  exact List.append_right_eq_self.mp hreap

end Served

namespace Stack

variable {s s' : Stack} {e : Event}

/-- No connection is served too late. -/
def Prompt (s : Stack) : Event → Prop
  | .service _ => ∀ c ∈ s, ¬ c.Late
  | _ => True

theorem mem_of_act {f : Served → Option Served} {i : ℕ} (h : s.act i f = some s') {c' : Served}
    (hc' : c' ∈ s') :
  c' ∈ s ∨ ∃ c ∈ s, f c = some c'
  := by
  rw [act, Option.map_eq_some_iff] at h
  obtain ⟨t, ht, rfl⟩ := h
  obtain ⟨c, hc, hf⟩ := Option.bind_eq_some_iff.mp ht
  obtain hold | rfl := List.mem_or_eq_of_mem_set hc'
  · exact .inl hold
  · exact .inr ⟨c, List.mem_of_getElem? hc, hf⟩

/-- What a step does to a connection, or it is a new one. -/
theorem step_cases (hstep : s.step e = some s') {c' : Served} (hc' : c' ∈ s') :
  c' ∈ s ∨ c' = .opened ∨ c' = .refused
    ∨ (∃ offers, e = .service offers ∧ ∃ c ∈ s, ∃ o, c' = c.service o)
    ∨ (∃ c ∈ s, ∃ n socket, c.socket.net n = some socket ∧ c' = { c with socket })
    ∨ ∃ c ∈ s, ∃ a, c.client a = some c'
  := by
  cases e with
  | connect configured connects =>
      obtain rfl := Option.some.inj hstep
      obtain hold | hnew := List.mem_append.mp hc'
      · exact .inl hold
      · obtain rfl := List.mem_singleton.mp hnew
        split
        · exact .inr (.inl rfl)
        · exact .inr (.inr (.inl rfl))
  | service offers =>
      obtain rfl := Option.some.inj hstep
      obtain ⟨i, hi, rfl⟩ := List.mem_mapIdx.mp hc'
      exact .inr (.inr (.inr (.inl ⟨offers, rfl, _, List.getElem_mem hi, offers i, rfl⟩)))
  | net i n =>
      obtain hold | ⟨c, hc, hf⟩ := mem_of_act hstep hc'
      · exact .inl hold
      · split at hf
        · cases hf
        · obtain ⟨socket, hn, rfl⟩ := Option.map_eq_some_iff.mp hf
          exact .inr (.inr (.inr (.inr (.inl ⟨c, hc, n, socket, hn, rfl⟩))))
  | client i a =>
      obtain hold | ⟨c, hc, hf⟩ := mem_of_act hstep hc'
      · exact .inl hold
      · exact .inr (.inr (.inr (.inr (.inr ⟨c, hc, a, hf⟩))))

theorem sound_step (h : ∀ c ∈ s, c.Sound) (hstep : s.step e = some s') :
  ∀ c ∈ s', c.Sound
  := by
  intro c' hc'
  obtain hold | rfl | rfl | ⟨_, _, c, hc, o, rfl⟩ | ⟨c, hc, n, socket, hn, rfl⟩ | ⟨c, hc, a, ha⟩ :=
    step_cases hstep hc'
  · exact h c' hold
  · exact Served.sound_opened
  · exact Served.sound_refused
  · exact (h c hc).service o
  · exact (h c hc).net hn
  · exact (h c hc).client ha

theorem drained_step (hsound : ∀ c ∈ s, c.Sound) (h : ∀ c ∈ s, c.Drained) (hprompt : s.Prompt e)
    (hstep : s.step e = some s') :
  ∀ c ∈ s', c.Drained
  := by
  intro c' hc'
  obtain hold | rfl | rfl | ⟨offers, rfl, c, hc, o, rfl⟩ | ⟨c, hc, n, socket, hn, rfl⟩
      | ⟨c, hc, a, ha⟩ := step_cases hstep hc'
  · exact h c' hold
  · intro hdropped
    cases hdropped
  · intro _ _ hend
    cases hend
  · exact (h c hc).service (hsound c hc) (hprompt c hc) o
  · exact (h c hc).net (hsound c hc) hn
  · exact (h c hc).client ha

/-- In a run in which no connection is served too late, nothing is lost; and in the first step in
which one is, something is. -/
theorem lossless_iff {es : List Event}
    (h : Run (Meeting Prompt fun s e s' => s.step e = some s') [] es s) :
  (∀ c ∈ s, c.Lossless) ∧ ∀ e s', s.step e = some s' → ((∀ c ∈ s', c.Lossless) ↔ s.Prompt e)
  := by
  have hinv : (∀ c ∈ s, c.Sound) ∧ ∀ c ∈ s, c.Drained := by
    apply h.invariant (I := fun s : Stack => (∀ c ∈ s, c.Sound) ∧ ∀ c ∈ s, c.Drained)
    · constructor
      · simp
      · simp
    · rintro s e s' ⟨hsound, hdrained⟩ ⟨hprompt, hstep⟩
      exact ⟨sound_step hsound hstep, drained_step hsound hdrained hprompt hstep⟩
  obtain ⟨hsound, hdrained⟩ := hinv
  refine ⟨fun c hc => (hsound c hc).lossless (hdrained c hc), ?_⟩
  intro e s' hstep
  constructor
  · intro hall
    cases e with
    | service offers =>
        intro c hc hlate
        obtain ⟨i, hi⟩ := List.mem_iff_getElem?.mp hc
        obtain rfl := Option.some.inj hstep
        have hmem : c.service (offers i) ∈ s.mapIdx fun i c => c.service (offers i) := by
          apply List.mem_of_getElem? (i := i)
          rw [List.getElem?_mapIdx, hi]
          rfl
        exact (hsound c hc).not_lossless hlate (offers i) (hall _ hmem)
    | connect configured connects => exact trivial
    | net i n => exact trivial
    | client i a => exact trivial
  · intro hprompt c hc
    exact (sound_step hsound hstep c hc).lossless
      (drained_step hsound hdrained hprompt hstep c hc)

instance (s : Stack) : DecidablePred s.Prompt
  | .service _ => inferInstanceAs (Decidable (∀ c ∈ s, ¬ c.Late))
  | .connect _ _ | .net _ _ | .client _ _ => inferInstanceAs (Decidable True)

/-- A call of `service` in which a socket accepts nothing. -/
def idle : Event :=
  .service fun _ => ⟨[], []⟩

/-- The remote sends byte by byte, and the client takes nothing.  When its channel is full, the
last byte and the end of the remote's stream arrive, and the client ends its own. -/
def filled : List Event :=
  [.connect true true, .net 0 .opened]
    ++ (List.replicate 64 [.net 0 (.data [1]), idle]).flatten
    ++ [.net 0 (.data [2]), .net 0 .fin, .client 0 .done, idle, .net 0 .acked]

def full : Stack :=
  (execute Prompt step [] filled).getD []

theorem run_full :
  Run (Meeting Prompt fun s e s' => s.step e = some s') [] filled full
  := run_of_execute (by decide +kernel : execute Prompt step [] filled = some full)

/-- Nothing is lost until the socket is closed; it is served too late. -/
theorem lossless_iff_full :
  (∀ c ∈ full, c.Lossless)
    ∧ ∃ s', full.step idle = some s' ∧ ¬ ∀ c ∈ s', c.Lossless
  := by
  obtain ⟨hall, hiff⟩ := lossless_iff run_full
  refine ⟨hall, _, rfl, ?_⟩
  rw [hiff idle _ rfl]
  decide +kernel

/-- The last byte is not delivered, although the remote has ended its stream and the client keeps
its receiver. -/
theorem last_byte_lost :
  ¬ ∀ (es : List Event) (s : Stack), Run (fun (s : Stack) e s' => s.step e = some s') [] es s →
      ∀ c ∈ s, c.Lossless
  := by
  intro h
  have hrun := run_full.mono fun _ _ _ hstep => hstep.2
  obtain ⟨s', hstep⟩ : ∃ s', full.step idle = some s' := ⟨_, rfl⟩
  have hall := h _ _ (hrun.snoc hstep)
  have hlost : ∃ c ∈ (full.step idle).getD [], c.socket.remoteFin = true
      ∧ c.conn.fromRemote.receiver = true ∧ c.conn.fromRemote.sender = false
      ∧ c.delivered.flatten ≠ c.socket.arrived := by
    decide +kernel
  rw [hstep] at hlost
  obtain ⟨c, hc, hend, hkept, hdropped, hne⟩ := hlost
  exact hne ((hall c hc).delivered hend hkept hdropped)

end Stack

end ZeroNat.Netstack

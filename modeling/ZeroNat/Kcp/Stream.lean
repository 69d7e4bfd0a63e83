import ZeroNat.Noise.Stream

/-!
# Frames over a conversation

A KCP conversation in one direction, from the writer of an encrypted connection to the bytes
that the stream at the other end yields.  The transport carries messages: the driver of the
sending end hands it each write as one message, and the driver of the receiving end takes whole
messages out, into a buffer of a fixed length.  The transport comes from a library.  Of its
repair of lost, doubled and reordered packets only the outcome is modelled: the messages that it
has taken arrive in order and once, each at some time.
-/

open BigEndian

namespace ZeroNat

/-- The room of the channels between a stream and its driver. -/
def appChanCap : ℕ := 256

/-- The length of the buffer that a driver receives messages into. -/
def recvBufLen : ℕ := 65535

/-- The reading half of a stream: the chunks queued for it, the current chunk, and how much of
it has been read. -/
structure KcpStream where
  readRx : List (List UInt8)
  readBuf : List UInt8
  readPos : ℕ
deriving DecidableEq

namespace KcpStream

/-- Copy the rest of the current chunk into a buffer, as far as there is room for it. -/
def putSlice (s : KcpStream) (remaining : ℕ) : List UInt8 × KcpStream :=
  let n := min remaining (s.readBuf.length - s.readPos)
  ((s.readBuf.drop s.readPos).take n, { s with readPos := s.readPos + n })

/-- Read into a buffer with some room left.  The next chunk is taken once the current one has been
read; without a chunk the call waits for the driver, and finds the end of the stream when the
driver is gone. -/
def pollRead (s : KcpStream) (driven : Bool) (remaining : ℕ) :
    Option (List UInt8 × KcpStream) :=
  if s.readBuf.length ≤ s.readPos then
    match s.readRx with
    | chunk :: rest =>
      some (putSlice { s with readRx := rest, readBuf := chunk, readPos := 0 } remaining)
    | [] => if driven then none else some ([], s)
  else some (s.putSlice remaining)

/-- What is left to read of the chunks that have come. -/
def rest (s : KcpStream) : List UInt8 :=
  s.readBuf.drop s.readPos ++ s.readRx.flatten

end KcpStream

/-- Take the next message into a buffer of some length.  It is left where it is when the buffer is
too short. -/
def kcpRecv (ready : List (List UInt8)) (bufLen : ℕ) : Option (List UInt8 × List (List UInt8)) :=
  match ready with
  | [] => none
  | m :: rest => if m.length ≤ bufLen then some (m, rest) else none

/-- One direction of a conversation: the writer with the chunks that its call has not written yet
and the writes queued for the driver, the messages under way and those that have come together,
the message that the receiving driver waits to queue, and the reading stream.  The last three
fields say what has happened: the chunks sent, the messages handed over and whether the
transport has taken each, and the bytes read. -/
structure Conv where
  writer : NoiseWriter
  todo : List (List UInt8)
  writeRx : List (List UInt8)
  sending : Bool
  flight : List (List UInt8)
  ready : List (List UInt8)
  holding : Option (List UInt8)
  receiving : Bool
  stream : KcpStream
  sent : List (List UInt8)
  handed : List (Bool × List UInt8)
  read : List UInt8
deriving DecidableEq

namespace Conv

inductive Event where
  | send (plaintext : List UInt8)
  | probe
  /-- The writer lays out the next chunk and writes its frame. -/
  | write
  /-- The driver hands a write to the transport, which takes it or errs. -/
  | hand (taken : Bool)
  /-- The next message has come together at the other end. -/
  | arrive
  /-- The receiving driver asks for a message. -/
  | recv
  /-- The receiving driver queues the message it has received. -/
  | queue
  | read (remaining : ℕ)
  /-- The driver of the sending end returns. -/
  | quit
  /-- The driver of the receiving end returns. -/
  | stop
deriving DecidableEq

/-- The chunks that a call sends. -/
def Event.chunks : Event → List (List UInt8)
  | send plaintext => ZeroNat.chunks maxPlaintext plaintext
  | probe => [[]]
  | _ => []

/-- A conversation after the handshake. -/
def fresh (key : List UInt8) : Conv where
  writer := ⟨key, 0⟩
  todo := []
  writeRx := []
  sending := true
  flight := []
  ready := []
  holding := none
  receiving := true
  stream := ⟨[], [], 0⟩
  sent := []
  handed := []
  read := []

variable (C : Cipher UInt8)

/-- What an event does, if it can happen. -/
def step (s : Conv) : Event → Option Conv
  | .send plaintext =>
    if s.todo = [] then
      some
        { s with
          todo := chunks maxPlaintext plaintext
          sent := s.sent ++ chunks maxPlaintext plaintext }
    else none
  | .probe => if s.todo = [] then some { s with todo := [[]], sent := s.sent ++ [[]] } else none
  | .write =>
    match s.todo with
    | [] => none
    | chunk :: rest =>
      match s.writer.frame C chunk with
      | (buf, writer) =>
        -- without a driver the write fails, and with it the whole call
        if s.sending = false then some { s with writer, todo := [] }
        else if s.writeRx.length < appChanCap then
          some { s with writer, todo := rest, writeRx := s.writeRx ++ [buf] }
        else none
  | .hand taken =>
    match s.writeRx with
    | [] => none
    | d :: rest =>
      some
        { s with
          writeRx := rest
          -- an error of the transport is ignored
          flight := if taken then s.flight ++ [d] else s.flight
          handed := s.handed ++ [(taken, d)] }
  | .arrive =>
    match s.flight with
    | [] => none
    | m :: rest => some { s with flight := rest, ready := s.ready ++ [m] }
  | .recv =>
    if s.receiving ∧ s.holding = none then
      match kcpRecv s.ready recvBufLen with
      | none => some s
      | some (m, rest) => some { s with ready := rest, holding := some m }
    else none
  | .queue =>
    match s.holding with
    | none => none
    | some m =>
      if s.stream.readRx.length < appChanCap then
        some
          { s with
            holding := none
            stream := { s.stream with readRx := s.stream.readRx ++ [m] } }
      else none
  | .read remaining =>
    match s.stream.pollRead s.receiving remaining with
    | none => none
    | some (bytes, stream) => some { s with stream, read := s.read ++ bytes }
  | .quit => some { s with sending := false, writeRx := [] }
  | .stop => if s.holding = none then some { s with receiving := false } else none

/-- What the bytes sent keep to, for the stream to carry them: a frame fits in the buffer of the
receiving driver, and the transport takes every write. -/
def Event.Fits : Event → Prop
  | send plaintext => 2 + (plaintext.length + tagLen) ≤ recvBufLen
  | hand taken => taken = true
  | _ => True

instance : DecidablePred Event.Fits := fun e =>
  match e with
  | .send plaintext => inferInstanceAs (Decidable (2 + (plaintext.length + tagLen) ≤ recvBufLen))
  | .hand taken => inferInstanceAs (Decidable (taken = true))
  | .probe | .write | .arrive | .recv | .queue | .read _ | .quit | .stop =>
    inferInstanceAs (Decidable True)

/-- Nothing is on its way to the reader. -/
def Quiet (s : Conv) : Prop :=
  s.todo = [] ∧ s.writeRx = [] ∧ s.flight = [] ∧ s.ready = [] ∧ s.holding = none
    ∧ s.stream.rest = []

end Conv

/-! ### The frames of a writer, one by one -/

namespace NoiseWriter

variable (C : Cipher UInt8)

/-- The frame of each chunk. -/
def framed (w : NoiseWriter) : List (List UInt8) → List (List UInt8)
  | [] => []
  | c :: cs => (w.frame C c).1 :: (w.frame C c).2.framed cs

variable {C}

theorem flatten_framed (w : NoiseWriter) (cs : List (List UInt8)) :
  (w.framed C cs).flatten = (w.frames C cs).1
  := by
  induction cs generalizing w with
  | nil => rfl
  | cons c cs ih => rw [framed, List.flatten_cons, ih, frames]

theorem framed_append (w : NoiseWriter) (cs cs' : List (List UInt8)) :
  w.framed C (cs ++ cs') = w.framed C cs ++ (w.frames C cs).2.framed C cs'
  := by
  induction cs generalizing w with
  | nil => rfl
  | cons c cs ih => rw [List.cons_append, framed, ih, framed, List.cons_append, frames]

theorem length_frame (hC : C.Lawful) (w : NoiseWriter) (c : List UInt8) :
  (w.frame C c).1.length = 2 + (c.length + tagLen)
  := by
  rw [frame, List.length_append, length_toBe, hC.length_encrypt]

theorem length_of_mem_framed (hC : C.Lawful) {w : NoiseWriter} {cs : List (List UInt8)}
    {f : List UInt8} (hf : f ∈ w.framed C cs) :
  ∃ c ∈ cs, f.length = 2 + (c.length + tagLen)
  := by
  induction cs generalizing w with
  | nil => cases hf
  | cons c cs ih =>
      rcases List.mem_cons.mp hf with rfl | hf
      · exact ⟨c, List.mem_cons_self, length_frame hC w c⟩
      · obtain ⟨c', hc', hlength⟩ := ih hf
        exact ⟨c', List.mem_cons_of_mem c hc', hlength⟩

theorem exists_mem_framed (hC : C.Lawful) {c : List UInt8} {cs : List (List UInt8)} (hc : c ∈ cs)
    (w : NoiseWriter) :
  ∃ f ∈ w.framed C cs, f.length = 2 + (c.length + tagLen)
  := by
  induction cs generalizing w with
  | nil => cases hc
  | cons c' cs ih =>
      rcases List.mem_cons.mp hc with rfl | hc
      · exact ⟨_, List.mem_cons_self, length_frame hC w c⟩
      · obtain ⟨f, hf, hlength⟩ := ih hc (w.frame C c').2
        exact ⟨f, List.mem_cons_of_mem _ hf, hlength⟩

end NoiseWriter

/-- A list of nonempty pieces is determined by a sublist that is as long in all. -/
theorem eq_of_sublist_of_length_flatten {α : Type} {l l' : List (List α)} (h : l.Sublist l')
    (hl' : ∀ x ∈ l', x ≠ []) (hlength : l'.flatten.length ≤ l.flatten.length) :
  l = l'
  := by
  apply h.eq_of_length_le
  induction h with
  | slnil => exact le_refl 0
  | @cons l l' x h ih =>
      have hx := List.length_pos_of_ne_nil (hl' x List.mem_cons_self)
      have hle := h.flatten.length_le
      rw [List.flatten_cons, List.length_append] at hlength
      omega
  | cons_cons x _ ih =>
      simp only [List.flatten_cons, List.length_append, Nat.add_le_add_iff_left] at hlength
      exact Nat.succ_le_succ (ih (fun y hy => hl' y (List.mem_cons_of_mem x hy)) hlength)

/-! ### Reading -/

namespace KcpStream

variable {s t : KcpStream} {bytes : List UInt8} {remaining : ℕ}

theorem rest_putSlice (s : KcpStream) (remaining : ℕ) :
  (s.putSlice remaining).1 ++ (s.putSlice remaining).2.rest = s.rest
  := by
  simp only [putSlice, rest]
  rw [← List.append_assoc, ← List.drop_drop, List.take_append_drop]

/-- However much a call asks for, it yields the bytes in order. -/
theorem rest_pollRead {driven : Bool} (h : s.pollRead driven remaining = some (bytes, t)) :
  bytes ++ t.rest = s.rest
  := by
  unfold pollRead at h
  split at h
  · rename_i hread
    split at h
    · rename_i chunk chunks hrx
      have hslice := rest_putSlice { s with readRx := chunks, readBuf := chunk, readPos := 0 }
        remaining
      rw [Option.some.inj h] at hslice
      rw [hslice, rest, rest, List.drop_of_length_le hread, hrx]
      rfl
    · split at h
      · cases h
      · obtain ⟨rfl, rfl⟩ := Prod.mk.inj (Option.some.inj h)
        rfl
  · have hslice := rest_putSlice s remaining
    rw [Option.some.inj h] at hslice
    exact hslice

/-- What is left to read, counted in chunks. -/
def load (s : KcpStream) : ℕ :=
  2 * s.readRx.length + if s.readBuf.length ≤ s.readPos then 0 else 1

theorem load_putSlice (s : KcpStream) :
  (s.putSlice s.readBuf.length).2.load = 2 * s.readRx.length
  := by
  have hread : (s.putSlice s.readBuf.length).2.readBuf.length
      ≤ (s.putSlice s.readBuf.length).2.readPos := by
    simp only [putSlice]
    omega
  rw [load, if_pos hread]
  rfl

theorem rest_of_load (h : s.load = 0) :
  s.readRx = [] ∧ s.rest = []
  := by
  rw [load, Nat.add_eq_zero_iff] at h
  have hrx : s.readRx = [] := List.eq_nil_of_length_eq_zero (by omega)
  have hread : s.readBuf.length ≤ s.readPos := by
    by_contra hread
    rw [if_neg hread] at h
    omega
  refine ⟨hrx, ?_⟩
  rw [rest, hrx, List.drop_of_length_le hread]
  rfl

/-- A call with enough room reads a chunk to its end. -/
theorem exists_pollRead (h : s.load ≠ 0) (driven : Bool) :
  ∃ remaining x, s.pollRead driven remaining = some x ∧ x.2.load < s.load
  := by
  by_cases hread : s.readBuf.length ≤ s.readPos
  · cases hrx : s.readRx with
    | nil => simp [load, hrx, hread] at h
    | cons chunk chunks =>
        have hload := load_putSlice { s with readRx := chunks, readBuf := chunk, readPos := 0 }
        refine ⟨chunk.length, _, by rw [pollRead, if_pos hread, hrx], ?_⟩
        rw [hload, load, if_pos hread, hrx, List.length_cons]
        exact Nat.mul_lt_mul_of_pos_left (Nat.lt_succ_self _) (by decide)
  · refine ⟨s.readBuf.length, s.putSlice s.readBuf.length, ?_, ?_⟩
    · rw [pollRead, if_neg hread]
    · rw [load_putSlice, load, if_neg hread]
      omega

end KcpStream

/-! ### What is where -/

namespace Conv

variable {C : Cipher UInt8} {key : List UInt8} {s t : Conv}

variable (C) in
/-- What an event can do. -/
inductive Moves (s : Conv) : Event → Conv → Prop where
  | send {plaintext : List UInt8} : s.todo = [] →
      Moves s (.send plaintext)
        { s with
          todo := chunks maxPlaintext plaintext
          sent := s.sent ++ chunks maxPlaintext plaintext }
  | probe : s.todo = [] → Moves s .probe { s with todo := [[]], sent := s.sent ++ [[]] }
  | broken {writer : NoiseWriter} : s.sending = false →
      Moves s .write { s with writer, todo := [] }
  | write {chunk : List UInt8} {rest : List (List UInt8)} : s.sending = true →
      s.todo = chunk :: rest → s.writeRx.length < appChanCap →
      Moves s .write
        { s with
          writer := (s.writer.frame C chunk).2
          todo := rest
          writeRx := s.writeRx ++ [(s.writer.frame C chunk).1] }
  | hand {taken : Bool} {d : List UInt8} {rest : List (List UInt8)} : s.writeRx = d :: rest →
      Moves s (.hand taken)
        { s with
          writeRx := rest
          flight := if taken then s.flight ++ [d] else s.flight
          handed := s.handed ++ [(taken, d)] }
  | arrive {m : List UInt8} {rest : List (List UInt8)} : s.flight = m :: rest →
      Moves s .arrive { s with flight := rest, ready := s.ready ++ [m] }
  | refuse : Moves s .recv s
  | recv {m : List UInt8} {rest : List (List UInt8)} : s.holding = none → s.ready = m :: rest →
      m.length ≤ recvBufLen → Moves s .recv { s with ready := rest, holding := some m }
  | queue {m : List UInt8} : s.holding = some m →
      Moves s .queue
        { s with holding := none, stream := { s.stream with readRx := s.stream.readRx ++ [m] } }
  | read {remaining : ℕ} {bytes : List UInt8} {stream : KcpStream} :
      s.stream.pollRead s.receiving remaining = some (bytes, stream) →
      Moves s (.read remaining) { s with stream, read := s.read ++ bytes }
  | quit : Moves s .quit { s with sending := false, writeRx := [] }
  | stop : Moves s .stop { s with receiving := false }

theorem kcpRecv_eq_some {ready rest : List (List UInt8)} {bufLen : ℕ} {m : List UInt8}
    (h : kcpRecv ready bufLen = some (m, rest)) :
  ready = m :: rest ∧ m.length ≤ bufLen
  := by
  unfold kcpRecv at h
  split at h
  · cases h
  · split at h
    · rename_i hm
      obtain ⟨rfl, rfl⟩ := Prod.mk.inj (Option.some.inj h)
      exact ⟨rfl, hm⟩
    · cases h

theorem moves_of_step {e : Event} (hstep : s.step C e = some t) :
  Moves C s e t
  := by
  cases e with
  | send plaintext =>
      simp only [Conv.step] at hstep
      split at hstep
      · rename_i htodo
        rw [← Option.some.inj hstep]
        exact .send htodo
      · cases hstep
  | probe =>
      simp only [Conv.step] at hstep
      split at hstep
      · rename_i htodo
        rw [← Option.some.inj hstep]
        exact .probe htodo
      · cases hstep
  | write =>
      simp only [Conv.step] at hstep
      split at hstep
      · cases hstep
      · rename_i chunk rest htodo
        split at hstep
        · rename_i hdown
          rw [← Option.some.inj hstep]
          exact .broken hdown
        · rename_i hup
          split at hstep
          · rename_i hroom
            rw [← Option.some.inj hstep]
            exact .write ((Bool.not_eq_false _).mp hup) htodo hroom
          · cases hstep
  | hand taken =>
      simp only [Conv.step] at hstep
      split at hstep
      · cases hstep
      · rename_i d rest hrx
        rw [← Option.some.inj hstep]
        exact .hand hrx
  | arrive =>
      simp only [Conv.step] at hstep
      split at hstep
      · cases hstep
      · rename_i m rest hflight
        rw [← Option.some.inj hstep]
        exact .arrive hflight
  | recv =>
      simp only [Conv.step] at hstep
      split at hstep
      · rename_i hidle
        split at hstep
        · rw [← Option.some.inj hstep]
          exact .refuse
        · rename_i m rest hrecv
          obtain ⟨hready, hm⟩ := kcpRecv_eq_some hrecv
          rw [← Option.some.inj hstep]
          exact .recv hidle.2 hready hm
      · cases hstep
  | queue =>
      simp only [Conv.step] at hstep
      split at hstep
      · cases hstep
      · rename_i m hholding
        split at hstep
        · rw [← Option.some.inj hstep]
          exact .queue hholding
        · cases hstep
  | read remaining =>
      simp only [Conv.step] at hstep
      split at hstep
      · cases hstep
      · rename_i bytes stream hpoll
        rw [← Option.some.inj hstep]
        exact .read hpoll
  | quit =>
      rw [← Option.some.inj hstep]
      exact .quit
  | stop =>
      simp only [Conv.step] at hstep
      split at hstep
      · rw [← Option.some.inj hstep]
        exact .stop
      · cases hstep

/-- The messages that the transport has taken. -/
def taken (s : Conv) : List (List UInt8) :=
  (s.handed.filter Prod.fst).map Prod.snd

variable (C key) in
/-- The writes handed over begin the frames of the chunks sent, and those that wait follow.  Of the
messages taken some have passed the driver of the other end, and their bytes are read or
wait to be read. -/
structure Inv (s : Conv) : Prop where
  written : ∃ later, s.handed.map Prod.snd ++ later = NoiseWriter.framed C ⟨key, 0⟩ s.sent
    ∧ (s.sending = true → later = s.writeRx ++ s.writer.framed C s.todo
      ∧ (NoiseWriter.frames C ⟨key, 0⟩ s.sent).2 = (s.writer.frames C s.todo).2)
  unsent : s.sending = false → s.writeRx = []
  passed : ∃ passed, s.taken = passed ++ (s.ready ++ s.flight)
    ∧ (∀ m ∈ passed, m.length ≤ recvBufLen)
    ∧ s.read ++ (s.stream.rest ++ s.holding.getD []) = passed.flatten

theorem inv_fresh :
  Inv C key (fresh key)
  := ⟨⟨[], rfl, fun _ => ⟨rfl, rfl⟩⟩, fun _ => rfl, [], rfl, by simp, rfl⟩

/-- A call whose chunks are sent once those of the call before are written. -/
theorem Inv.sends (h : Inv C key s) (htodo : s.todo = []) (cs : List (List UInt8)) :
  Inv C key { s with todo := cs, sent := s.sent ++ cs }
  := by
  obtain ⟨later, hwritten, hsending⟩ := h.written
  refine ⟨⟨later ++ (NoiseWriter.frames C ⟨key, 0⟩ s.sent).2.framed C cs, ?_, ?_⟩, h.unsent,
    h.passed⟩
  · rw [← List.append_assoc, hwritten, NoiseWriter.framed_append]
  · intro hup
    obtain ⟨hlater, hwriter⟩ := hsending hup
    rw [htodo, NoiseWriter.framed, List.append_nil] at hlater
    rw [htodo, NoiseWriter.frames] at hwriter
    refine ⟨?_, ?_⟩
    · rw [hlater, hwriter]
    · rw [NoiseWriter.frames_append, hwriter]

theorem Inv.moves {e : Event} (h : Inv C key s) (hmoves : Moves C s e t) :
  Inv C key t
  := by
  obtain ⟨later, hwritten, hsending⟩ := h.written
  obtain ⟨passed, htaken, hfit, hread⟩ := h.passed
  cases hmoves with
  | send htodo => exact h.sends htodo _
  | probe htodo => exact h.sends htodo _
  | broken hdown =>
      refine ⟨⟨later, hwritten, ?_⟩, h.unsent, h.passed⟩
      intro hup
      rw [hdown] at hup
      cases hup
  | @write chunk rest hup htodo hroom =>
      refine ⟨⟨later, hwritten, ?_⟩, ?_, h.passed⟩
      · intro _
        obtain ⟨hlater, hwriter⟩ := hsending hup
        rw [htodo, NoiseWriter.framed] at hlater
        rw [htodo, NoiseWriter.frames] at hwriter
        exact ⟨by rw [hlater, List.append_assoc]; rfl, hwriter⟩
      · intro hdown
        rw [hup] at hdown
        cases hdown
  | @hand taken d rest hrx =>
      -- there is a write, so the driver runs
      have hup : s.sending = true := by
        by_contra hdown
        rw [Bool.not_eq_true] at hdown
        rw [h.unsent hdown] at hrx
        cases hrx
      obtain ⟨hlater, hwriter⟩ := hsending hup
      refine ⟨⟨rest ++ s.writer.framed C s.todo, ?_, fun _ => ⟨rfl, hwriter⟩⟩, ?_, passed, ?_, hfit,
        hread⟩
      · rw [← hwritten, hlater, hrx]
        simp
      · intro hdown
        rw [hup] at hdown
        cases hdown
      · cases taken with
        | false => simpa [Conv.taken] using htaken
        | true =>
            rw [Conv.taken] at htaken
            simp [Conv.taken, htaken]
  | @arrive m rest hflight =>
      refine ⟨h.written, h.unsent, passed, ?_, hfit, hread⟩
      rw [hflight] at htaken
      simpa [Conv.taken] using htaken
  | refuse => exact h
  | @recv m rest hholding hready hm =>
      refine ⟨h.written, h.unsent, passed ++ [m], ?_, ?_, ?_⟩
      · rw [hready] at htaken
        simpa [Conv.taken] using htaken
      · intro m' hm'
        rcases List.mem_append.mp hm' with hm' | hm'
        · exact hfit m' hm'
        · rwa [List.mem_singleton.mp hm']
      · rw [hholding] at hread
        rw [List.flatten_append, ← hread]
        simp
  | @queue m hholding =>
      refine ⟨h.written, h.unsent, passed, htaken, hfit, ?_⟩
      rw [hholding] at hread
      rw [← hread]
      simp [KcpStream.rest]
  | @read remaining bytes stream hpoll =>
      refine ⟨h.written, h.unsent, passed, htaken, hfit, ?_⟩
      rw [← hread, ← KcpStream.rest_pollRead hpoll]
      simp only [List.append_assoc]
  | quit => exact ⟨⟨later, hwritten, by simp⟩, fun _ => rfl, h.passed⟩
  | stop => exact ⟨h.written, h.unsent, h.passed⟩

theorem inv_of_run {es : List Event}
    (h : Run (fun s e t => s.step C e = some t) (fresh key) es s) :
  Inv C key s
  := h.invariant inv_fresh fun _ _ _ hinv hstep => hinv.moves (moves_of_step hstep)

/-- An event sends its chunks, and is logged when it hands over a write. -/
theorem logs_moves {e : Event} (hmoves : Moves C s e t) :
  t.sent = s.sent ++ e.chunks
    ∧ ∀ taken, taken ∈ t.handed.map Prod.fst ↔ taken ∈ s.handed.map Prod.fst ∨ .hand taken = e
  := by
  cases hmoves with
  | send | probe => exact ⟨rfl, by simp⟩
  | hand => exact ⟨(List.append_nil _).symm, by simp⟩
  | broken | write | arrive | refuse | recv | queue | read | quit | stop =>
      exact ⟨(List.append_nil _).symm, by simp⟩

theorem sent_eq {es : List Event}
    (h : Run (fun s e t => s.step C e = some t) s es t) :
  t.sent = s.sent ++ es.flatMap Event.chunks
  := by
  induction h with
  | nil => exact (List.append_nil _).symm
  | snoc _ hlast ih =>
      rw [(logs_moves (moves_of_step hlast)).1, ih, List.flatMap_append, List.flatMap_singleton,
        List.append_assoc]

theorem mem_handed {es : List Event} {taken : Bool}
    (h : Run (fun s e t => s.step C e = some t) (fresh key) es s) :
  taken ∈ s.handed.map Prod.fst ↔ .hand taken ∈ es
  := by
  induction h with
  | nil => simp [fresh]
  | snoc _ hlast ih =>
      rw [(logs_moves (moves_of_step hlast)).2, ih, List.mem_append, List.mem_singleton]

/-! ### What passes the buffer of the receiving driver -/

/-- A chunk whose frame fits in the buffer. -/
def FrameFits (c : List UInt8) : Prop :=
  2 + (c.length + tagLen) ≤ recvBufLen

/-- The chunks of a plaintext fit just when one frame would hold all of it: a plaintext too long
for one frame has a first chunk that is as long as a chunk gets. -/
theorem frameFits_chunks_iff (p : List UInt8) :
  (∀ c ∈ chunks maxPlaintext p, FrameFits c) ↔ FrameFits p
  := by
  constructor
  · intro h
    by_contra hp
    simp only [FrameFits, tagLen, recvBufLen] at hp
    have hfirst : p.take maxPlaintext ∈ chunks maxPlaintext p := by
      rw [chunks, List.mem_map]
      refine ⟨0, List.mem_range.mpr ?_, by simp⟩
      apply Nat.div_pos _ (by decide)
      rw [maxPlaintext]
      omega
    have hfits := h _ hfirst
    simp only [FrameFits, tagLen, recvBufLen, maxPlaintext, List.length_take] at hfits
    omega
  · intro hp c hc
    obtain ⟨i, _, rfl⟩ := List.mem_map.mp hc
    simp only [FrameFits, List.length_take, List.length_drop] at hp ⊢
    omega

theorem frameFits_chunks_iff_fits {e : Event} (hhand : ∀ taken, e = .hand taken → taken = true) :
  (∀ c ∈ e.chunks, FrameFits c) ↔ e.Fits
  := by
  cases e with
  | send plaintext => exact frameFits_chunks_iff plaintext
  | probe =>
      refine iff_of_true ?_ trivial
      intro c hc
      rw [List.mem_singleton.mp hc]
      exact (by decide : 2 + (0 + tagLen) ≤ recvBufLen)
  | hand taken => exact iff_of_true (by simp [Event.chunks]) (hhand taken rfl)
  | write | arrive | recv | queue | read | quit | stop =>
      exact iff_of_true (by simp [Event.chunks]) trivial

/-- In terms of what has happened: the events fit when the chunks sent do and every write has been
taken. -/
theorem fits_iff {es : List Event}
    (h : Run (fun s e t => s.step C e = some t) (fresh key) es s) :
  (∀ e ∈ es, e.Fits) ↔ (∀ c ∈ es.flatMap Event.chunks, FrameFits c)
    ∧ false ∉ s.handed.map Prod.fst
  := by
  rw [mem_handed h]
  constructor
  · intro hfits
    refine ⟨?_, fun hmem => absurd (hfits _ hmem) (by simp [Event.Fits])⟩
    intro c hc
    obtain ⟨e, he, hce⟩ := List.mem_flatMap.mp hc
    refine (frameFits_chunks_iff_fits ?_).mpr (hfits e he) c hce
    rintro taken rfl
    exact hfits _ he
  · rintro ⟨hfits, hhand⟩ e he
    refine (frameFits_chunks_iff_fits ?_).mp fun c hc => hfits c (List.mem_flatMap.mpr ⟨e, he, hc⟩)
    rintro taken rfl
    cases taken with
    | false => exact absurd he hhand
    | true => rfl

theorem taken_eq (hhanded : false ∉ s.handed.map Prod.fst) :
  s.taken = s.handed.map Prod.snd
  := by
  rw [taken, List.filter_eq_self.mpr]
  intro x hx
  by_contra hx'
  apply hhanded
  rw [← Bool.not_eq_true _ |>.mp hx']
  exact List.mem_map_of_mem hx

theorem Inv.read_prefix (h : Inv C key s) (hhanded : false ∉ s.handed.map Prod.fst) :
  s.read <+: (NoiseWriter.framed C ⟨key, 0⟩ s.sent).flatten
  := by
  obtain ⟨later, hwritten, _⟩ := h.written
  obtain ⟨passed, htaken, _, hread⟩ := h.passed
  rw [taken_eq hhanded] at htaken
  rw [← hwritten, htaken, List.flatten_append, List.flatten_append, ← hread]
  simp only [List.append_assoc]
  exact List.prefix_append _ _

theorem Inv.read_eq (h : Inv C key s) (hhanded : false ∉ s.handed.map Prod.fst)
    (hsending : s.sending = true) (hquiet : s.Quiet) :
  s.read = (NoiseWriter.framed C ⟨key, 0⟩ s.sent).flatten
  := by
  obtain ⟨htodo, hrx, hflight, hready, hholding, hrest⟩ := hquiet
  obtain ⟨later, hwritten, hlater⟩ := h.written
  obtain ⟨passed, htaken, _, hread⟩ := h.passed
  rw [(hlater hsending).1, hrx, htodo, NoiseWriter.framed, List.append_nil, List.append_nil]
    at hwritten
  rw [hready, hflight, List.append_nil, List.append_nil, taken_eq hhanded] at htaken
  rw [hrest, hholding, Option.getD_none, List.append_nil, List.append_nil] at hread
  rw [hread, ← htaken, hwritten]

/-- Once all bytes have been read, every frame has passed the receiving driver. -/
theorem Inv.carried (hC : C.Lawful) (h : Inv C key s)
    (hread : s.read = (NoiseWriter.framed C ⟨key, 0⟩ s.sent).flatten) :
  (∀ c ∈ s.sent, FrameFits c) ∧ false ∉ s.handed.map Prod.fst
  := by
  obtain ⟨later, hwritten, _⟩ := h.written
  obtain ⟨passed, htaken, hfit, hpassed⟩ := h.passed
  have htaken_le : s.taken.Sublist (s.handed.map Prod.snd) := List.filter_sublist.map _
  have hpassed_le : passed.Sublist s.taken := by
    rw [htaken]
    exact List.sublist_append_left _ _
  have hhanded_le : (s.handed.map Prod.snd).Sublist (NoiseWriter.framed C ⟨key, 0⟩ s.sent) := by
    rw [← hwritten]
    exact List.sublist_append_left _ _
  -- each frame has bytes, and all of these are in messages that have passed
  have hall : passed = NoiseWriter.framed C ⟨key, 0⟩ s.sent := by
    apply eq_of_sublist_of_length_flatten ((hpassed_le.trans htaken_le).trans hhanded_le)
    · intro f hf
      obtain ⟨c, _, hlength⟩ := NoiseWriter.length_of_mem_framed hC hf
      apply List.ne_nil_of_length_pos
      omega
    · rw [← hread, ← hpassed, List.length_append]
      exact Nat.le_add_right _ _
  constructor
  · intro c hc
    obtain ⟨f, hf, hlength⟩ := NoiseWriter.exists_mem_framed hC hc ⟨key, 0⟩
    rw [FrameFits, ← hlength]
    exact hfit f (hall ▸ hf)
  · intro hlost
    obtain ⟨⟨_, d⟩, hd, rfl⟩ := List.mem_map.mp hlost
    have hlt : (s.handed.filter Prod.fst).length < s.handed.length := by
      apply lt_of_le_of_ne (List.length_filter_le _ _)
      intro heq
      have hmem := List.length_filter_eq_length_iff.mp heq _ hd
      cases hmem
    have hle := hpassed_le.length_le
    have hle' := hhanded_le.length_le
    rw [hall, taken, List.length_map] at hle
    rw [List.length_map] at hle'
    omega

/-! ### Everything gets through -/

/-- How far everything is from the reader. -/
def rank (s : Conv) : ℕ :=
  7 * s.todo.length + 6 * s.writeRx.length + 5 * s.flight.length + 4 * s.ready.length
    + 3 * s.holding.toList.length + s.stream.load

/-- As long as frames fit, something is nearer to the reader after some event. -/
theorem Inv.progress (hC : C.Lawful) (h : Inv C key s) (hfits : ∀ c ∈ s.sent, FrameFits c)
    (hsending : s.sending = true) (hreceiving : s.receiving = true) (hquiet : ¬s.Quiet) :
  ∃ e t, s.step C e = some t ∧ e.Fits ∧ e.chunks = [] ∧ t.sending = true ∧ t.receiving = true
    ∧ t.rank < s.rank
  := by
  by_cases hload : s.stream.load = 0
  · obtain ⟨hrx, hrest⟩ := KcpStream.rest_of_load hload
    cases hholding : s.holding with
    | some m =>
        refine ⟨.queue,
          { s with holding := none, stream := { s.stream with readRx := s.stream.readRx ++ [m] } },
          ?_, trivial, rfl, hsending, hreceiving, ?_⟩
        · simp [Conv.step, hholding, hrx, appChanCap]
        · simp only [KcpStream.load, hrx, List.length_nil] at hload
          simp only [rank, hholding, KcpStream.load, hrx, List.nil_append, List.length_cons,
            List.length_nil, Option.toList_none, Option.toList_some]
          omega
    | none =>
        cases hready : s.ready with
        | cons m rest =>
            have hm : m.length ≤ recvBufLen := by
              obtain ⟨later, hwritten, _⟩ := h.written
              obtain ⟨passed, htaken, _⟩ := h.passed
              have hmem : m ∈ s.taken := by
                rw [htaken, hready]
                simp
              have hframed : m ∈ NoiseWriter.framed C ⟨key, 0⟩ s.sent := by
                rw [← hwritten]
                exact List.mem_append_left _ ((List.filter_sublist.map _).subset hmem)
              obtain ⟨c, hc, hlength⟩ := NoiseWriter.length_of_mem_framed hC hframed
              rw [hlength]
              exact hfits c hc
            refine ⟨.recv, { s with ready := rest, holding := some m }, ?_, trivial, rfl, hsending,
              hreceiving, ?_⟩
            · simp [Conv.step, hreceiving, hholding, hready, kcpRecv, hm]
            · simp only [rank, hready, hholding, List.length_cons, Option.toList_none,
                Option.toList_some, List.length_nil]
              omega
        | nil =>
            cases hflight : s.flight with
            | cons m rest =>
                refine ⟨.arrive, { s with flight := rest, ready := s.ready ++ [m] }, ?_, trivial,
                  rfl, hsending, hreceiving, ?_⟩
                · simp [Conv.step, hflight]
                · simp only [rank, hflight, List.length_append, List.length_cons, List.length_nil]
                  omega
            | nil =>
                cases hwriteRx : s.writeRx with
                | cons d rest =>
                    refine ⟨.hand true,
                      { s with
                        writeRx := rest
                        flight := s.flight ++ [d]
                        handed := s.handed ++ [(true, d)] },
                      ?_, rfl, rfl, hsending, hreceiving, ?_⟩
                    · simp [Conv.step, hwriteRx]
                    · simp only [rank, hwriteRx, List.length_append, List.length_cons,
                        List.length_nil]
                      omega
                | nil =>
                    cases htodo : s.todo with
                    | nil => exact absurd ⟨htodo, hwriteRx, hflight, hready, hholding, hrest⟩ hquiet
                    | cons chunk rest =>
                        refine ⟨.write,
                          { s with
                            writer := (s.writer.frame C chunk).2
                            todo := rest
                            writeRx := [(s.writer.frame C chunk).1] },
                          ?_, trivial, rfl, hsending, hreceiving, ?_⟩
                        · simp [Conv.step, htodo, hsending, hwriteRx, appChanCap]
                        · simp only [rank, htodo, hwriteRx, List.length_cons, List.length_nil]
                          omega
  · obtain ⟨remaining, ⟨bytes, stream⟩, hpoll, hlt⟩ :=
      KcpStream.exists_pollRead hload s.receiving
    refine ⟨.read remaining, { s with stream, read := s.read ++ bytes }, ?_, trivial, rfl,
      hsending, hreceiving, ?_⟩
    · simp only [Conv.step, hpoll]
    · exact Nat.add_lt_add_left hlt _

theorem Inv.exists_quiet (hC : C.Lawful) (h : Inv C key s) (hfits : ∀ c ∈ s.sent, FrameFits c)
    (hsending : s.sending = true) (hreceiving : s.receiving = true) :
  ∃ es t, Run (fun s e t => s.step C e = some t) s es t ∧ (∀ e ∈ es, e.Fits ∧ e.chunks = [])
    ∧ t.sending = true ∧ t.Quiet
  := by
  induction hn : s.rank using Nat.strong_induction_on generalizing s with
  | _ n ih =>
      by_cases hquiet : s.Quiet
      · exact ⟨[], s, Run.nil, by simp, hsending, hquiet⟩
      · obtain ⟨e, u, hstep, hfit, hchunks, husending, hureceiving, hlt⟩ :=
          h.progress hC hfits hsending hreceiving hquiet
        have hmoves := moves_of_step hstep
        have husent : u.sent = s.sent := by rw [(logs_moves hmoves).1, hchunks, List.append_nil]
        obtain ⟨es, t, hrun, hes, htsending, htquiet⟩ :=
          ih u.rank (hn ▸ hlt) (h.moves hmoves) (husent ▸ hfits) husending hureceiving rfl
        refine ⟨e :: es, t, Run.cons hstep hrun, ?_, htsending, htquiet⟩
        intro e' he'
        rcases List.mem_cons.mp he' with rfl | he'
        · exact ⟨hfit, hchunks⟩
        · exact hes e' he'

theorem sent_eq_of_chunks {es : List Event}
    (h : Run (fun s e t => s.step C e = some t) s es t) (hes : ∀ e ∈ es, e.chunks = []) :
  t.sent = s.sent
  := by
  rw [sent_eq h, List.flatMap_eq_nil_iff.mpr hes, List.append_nil]

/-- All bytes have been read in the end: then everything has fit. -/
theorem fits_of_carried (hC : C.Lawful) {es es' : List Event}
    (h : Run (fun s e t => s.step C e = some t) (fresh key) es s)
    (hrun : Run (fun s e t => s.step C e = some t) s es' t) (hes' : ∀ e ∈ es', e.chunks = [])
    (hread : t.read = (NoiseWriter.framed C ⟨key, 0⟩ s.sent).flatten) :
  ∀ e ∈ es, e.Fits
  := by
  have hall := h.append hrun
  have htsent : t.sent = (es ++ es').flatMap Event.chunks := sent_eq hall
  obtain ⟨hsent, hhanded⟩ :=
    (inv_of_run hall).carried hC (by rw [hread, sent_eq_of_chunks hrun hes'])
  have hfits := (fits_iff hall).mpr ⟨htsent ▸ hsent, hhanded⟩
  intro e he
  exact hfits e (List.mem_append_left _ he)

/-- A stream carries the frames written to it: as long as no frame is longer than the buffer of the
receiving driver and the transport takes every write, the bytes read begin the frames, they
are all of them when nothing is on its way, and with both drivers running all can be read.  Once
a frame is too long or a write has been refused, that never happens again. -/
theorem carries_iff_fits (hC : C.Lawful) {es : List Event}
    (h : Run (fun s e t => s.step C e = some t) (fresh key) es s) :
  ((∀ e ∈ es, e.Fits) →
      s.read <+: (NoiseWriter.frames C ⟨key, 0⟩ (es.flatMap Event.chunks)).1
        ∧ (s.sending = true → s.Quiet →
          s.read = (NoiseWriter.frames C ⟨key, 0⟩ (es.flatMap Event.chunks)).1))
    ∧ (s.sending = true → s.receiving = true →
      ((∃ es' t, Run (fun s e t => s.step C e = some t) s es' t ∧ (∀ e ∈ es', e.chunks = [])
          ∧ t.read = (NoiseWriter.frames C ⟨key, 0⟩ (es.flatMap Event.chunks)).1)
        ↔ ∀ e ∈ es, e.Fits))
  := by
  have hinv := inv_of_run h
  have hsent : s.sent = es.flatMap Event.chunks := sent_eq h
  rw [← NoiseWriter.flatten_framed, ← hsent]
  refine ⟨?_, ?_⟩
  · intro hfits
    obtain ⟨_, hhanded⟩ := (fits_iff h).mp hfits
    exact ⟨hinv.read_prefix hhanded, hinv.read_eq hhanded⟩
  · intro hsending hreceiving
    constructor
    · rintro ⟨es', t, hrun, hes', hread⟩
      exact fits_of_carried hC h hrun hes' hread
    · intro hfits
      obtain ⟨hchunks, _⟩ := (fits_iff h).mp hfits
      rw [← hsent] at hchunks
      obtain ⟨es', t, hrun, hes', htsending, hquiet⟩ :=
        hinv.exists_quiet hC hchunks hsending hreceiving
      have hall := h.append hrun
      have hfits' : ∀ e ∈ es ++ es', e.Fits := by
        intro e he
        rcases List.mem_append.mp he with he | he
        · exact hfits e he
        · exact (hes' e he).1
      have htsent := sent_eq_of_chunks hrun fun e he => (hes' e he).2
      refine ⟨es', t, hrun, fun e he => (hes' e he).2, ?_⟩
      rw [(inv_of_run hall).read_eq ((fits_iff hall).mp hfits').2 htsending hquiet, htsent]

/-- A message that is read in two pieces. -/
def halves : List Event :=
  [.send [7, 8], .write, .hand true, .arrive, .recv, .queue, .read 3, .read 30]

theorem carries_iff_fits_halves :
  ∃ s, Run (fun s e t => s.step Cipher.clear e = some t) (fresh [1]) halves s
    ∧ s.read = (NoiseWriter.frames Cipher.clear ⟨[1], 0⟩ [[7, 8]]).1
  := by
  obtain ⟨s, hs, hsending, hquiet⟩ : ∃ s,
      execute (fun _ _ => True) (step Cipher.clear) (fresh [1]) halves = some s
      ∧ s.sending = true ∧ s.Quiet := ⟨_, rfl, rfl, rfl, rfl, rfl, rfl, rfl, rfl⟩
  have hrun := (run_of_execute hs).mono fun _ _ _ h => h.2
  have hchunks : halves.flatMap Event.chunks = [[7, 8]] := by decide
  obtain ⟨hcarries, _⟩ := carries_iff_fits Cipher.lawful_clear hrun
  rw [hchunks] at hcarries
  exact ⟨s, hrun, (hcarries (by decide)).2 hsending hquiet⟩

/-- A plaintext of one frame whose frame is a byte longer than the buffer. -/
def overlong : List UInt8 :=
  List.replicate 65518 0

/-- The transport takes the frame and brings it to the other end, where no call ever gets its
bytes. -/
theorem overlong_never_read :
  ∃ s, Run (fun s e t => s.step Cipher.clear e = some t) (fresh [1])
      [.send overlong, .write, .hand true, .arrive] s
    ∧ s.sending = true ∧ s.receiving = true
    ∧ ¬∃ es' t, Run (fun s e t => s.step Cipher.clear e = some t) s es' t
      ∧ (∀ e ∈ es', e.chunks = [])
      ∧ t.read = (NoiseWriter.frames Cipher.clear ⟨[1], 0⟩ (chunks maxPlaintext overlong)).1
  := by
  have hchunks : chunks maxPlaintext overlong = [overlong] := by
    have hone : (65518 + maxPlaintext - 1) / maxPlaintext = 1 := by decide
    have hall : overlong.take maxPlaintext = overlong := by
      apply List.take_of_length_le
      rw [overlong, List.length_replicate]
      decide
    rw [chunks, overlong, List.length_replicate, hone, ← overlong]
    simp [hall]
  let s : Conv :=
    { fresh [1] with
      writer := ⟨[1], 1⟩
      ready := [(NoiseWriter.frame Cipher.clear ⟨[1], 0⟩ overlong).1]
      sent := [overlong]
      handed := [(true, (NoiseWriter.frame Cipher.clear ⟨[1], 0⟩ overlong).1)] }
  have hrun : Run (fun s e t => s.step Cipher.clear e = some t) (fresh [1])
      [.send overlong, .write, .hand true, .arrive] s := by
    refine Run.cons (t := { fresh [1] with todo := [overlong], sent := [overlong] }) ?_ ?_
    · simp [step, hchunks, fresh]
    · exact Run.cons rfl (Run.cons rfl (Run.cons rfl Run.nil))
  refine ⟨s, hrun, rfl, rfl, ?_⟩
  rintro ⟨es', t, hrest, hes', hread⟩
  rw [hchunks, ← NoiseWriter.flatten_framed] at hread
  have hfits := fits_of_carried Cipher.lawful_clear hrun hrest hes' hread _ List.mem_cons_self
  rw [Event.Fits, overlong, List.length_replicate] at hfits
  exact absurd hfits (by decide)

end Conv

end ZeroNat

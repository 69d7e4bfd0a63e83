import ZeroNat.Lib.Run
import ZeroNat.Noise.Cipher

/-!
# Frames over a byte stream

The two halves of an encrypted connection.  A frame is its length in two bytes and a
ciphertext.  The reader keeps its progress through a frame in its own fields: a call that waits
for the stream may be dropped, and the next call goes on where it left off.
-/

open BigEndian

namespace ZeroNat

/-- The longest plaintext of one frame. -/
def maxPlaintext : ℕ := 65535 - 16

/-- The consecutive pieces of a list, all of one length but for a shorter last one. -/
def chunks {α : Type} (size : ℕ) (l : List α) : List (List α) :=
  (List.range ((l.length + size - 1) / size)).map fun i => (l.drop (i * size)).take size

/-- Overwrite the bytes of a buffer from a position on. -/
def writeAt (buf : List UInt8) (pos : ℕ) (bytes : List UInt8) : List UInt8 :=
  buf.take pos ++ bytes ++ buf.drop (pos + bytes.length)

/-- The sending half. -/
structure NoiseWriter where
  sendKey : List UInt8
  sendN : UInt64
deriving DecidableEq

/-- The receiving half. -/
structure NoiseReader where
  recvKey : List UInt8
  recvN : UInt64
  len : List UInt8
  lenFilled : ℕ
  haveLen : Bool
  body : List UInt8
  bodyFilled : ℕ
deriving DecidableEq

/-- The read that a pending call waits for: into the length of a frame, or into its body. -/
inductive Await where
  | header
  | body
deriving DecidableEq

/-- How far a call gets before it waits or returns. -/
inductive Poll (α : Type) where
  | pending (stage : Await)
  | ready (result : Except String α)

variable (C : Cipher UInt8)

namespace NoiseWriter

/-- Lay one frame out and advance the nonce. -/
def frame (w : NoiseWriter) (chunk : List UInt8) : List UInt8 × NoiseWriter :=
  (toBe 2 (chunk.length + tagLen) ++ C.aeadEncrypt w.sendKey w.sendN [] chunk,
    { w with sendN := w.sendN + 1 })

/-- The frames of several chunks. -/
def frames (w : NoiseWriter) : List (List UInt8) → List UInt8 × NoiseWriter
  | [] => ([], w)
  | chunk :: rest =>
    match w.frame C chunk with
    | (buf, w) =>
      match w.frames rest with
      | (bufs, w) => (buf ++ bufs, w)

/-- What a call writes to the stream. -/
def send (w : NoiseWriter) (plaintext : List UInt8) : List UInt8 × NoiseWriter :=
  w.frames C (chunks maxPlaintext plaintext)

/-- A single frame with an empty plaintext. -/
def probe (w : NoiseWriter) : List UInt8 × NoiseWriter :=
  w.frame C []

end NoiseWriter

namespace NoiseReader

/-- The second loop of a call, and what follows it: the body is decrypted in place once it is
complete. -/
def fillBody (r : NoiseReader) : Poll ℕ × NoiseReader :=
  if r.bodyFilled < r.body.length then (.pending .body, r)
  else
    let r := { r with lenFilled := 0, haveLen := false }
    match C.aeadDecrypt r.recvKey r.recvN [] r.body with
    | none => (.ready (.error "decrypt failed"), r)
    | some p => (.ready (.ok p.length), { r with body := writeAt r.body 0 p, recvN := r.recvN + 1 })

/-- A call from its start: the first loop, and then the room for the body. -/
def fill (r : NoiseReader) : Poll ℕ × NoiseReader :=
  if r.lenFilled < 2 then (.pending .header, r)
  else if r.haveLen then r.fillBody C
  else
    fillBody C { r with body := List.replicate (ofBe r.len) 0, bodyFilled := 0, haveLen := true }

/-- A pending call whose read returns some bytes, or none at the end of the stream. -/
def resume (r : NoiseReader) (stage : Await) (bytes : List UInt8) : Poll ℕ × NoiseReader :=
  if bytes = [] then (.ready (.error "connection closed"), r)
  else
    match stage with
    | .header =>
      fill C { r with len := writeAt r.len r.lenFilled bytes, lenFilled := r.lenFilled + bytes.length }
    | .body =>
      fillBody C
        { r with body := writeAt r.body r.bodyFilled bytes, bodyFilled := r.bodyFilled + bytes.length }

/-- The room for the bytes of a read. -/
def room (r : NoiseReader) : Await → ℕ
  | .header => r.len.length - r.lenFilled
  | .body => r.body.length - r.bodyFilled

end NoiseReader

/-- A connection in one direction, with the bytes on the way, the call that waits (and whether
it skips empty frames), and what has happened: the chunks sent, the plaintexts decrypted, those
returned and the errors returned, in order, and whether any call has skipped empty frames. -/
structure Connection where
  writer : NoiseWriter
  reader : NoiseReader
  wire : List UInt8
  closed : Bool
  pending : Option (Await × Bool)
  sent : List (List UInt8)
  decrypted : List (List UInt8)
  returned : List (List UInt8)
  errors : List String
  skips : Bool
deriving DecidableEq

namespace Connection

inductive Event where
  | send (plaintext : List UInt8)
  | probe
  /-- The writer is dropped. -/
  | close
  | recv
  | recvData
  /-- The pending read returns a number of bytes. -/
  | read (n : ℕ)
  /-- The pending read finds the end of the stream. -/
  | eof
  /-- The pending call is dropped. -/
  | cancel
deriving DecidableEq

/-- The chunks that a call sends: the pieces of its plaintext, or a single empty one. -/
def Event.chunks : Event → List (List UInt8)
  | send plaintext => ZeroNat.chunks maxPlaintext plaintext
  | probe => [[]]
  | _ => []

/-- A connection after its handshake. -/
def fresh (key : List UInt8) : Connection where
  writer := ⟨key, 0⟩
  reader := ⟨key, 0, [0, 0], 0, false, [], 0⟩
  wire := []
  closed := false
  pending := none
  sent := []
  decrypted := []
  returned := []
  errors := []
  skips := false

/-- A call has run until it waits or returns.  A call that skips empty frames starts over after
one, and then waits for the next frame. -/
def settle (s : Connection) (skip : Bool) : Poll ℕ × NoiseReader → Connection
  | (.pending stage, reader) => { s with reader, pending := some (stage, skip) }
  | (.ready (.error e), reader) => { s with reader, pending := none, errors := s.errors ++ [e] }
  | (.ready (.ok n), reader) =>
    let s := { s with reader, decrypted := s.decrypted ++ [reader.body.take n] }
    if n = 0 ∧ skip = true then
      match reader.fill C with
      | (.pending stage, reader) => { s with reader, pending := some (stage, skip) }
      | (.ready _, reader) => { s with reader, pending := none }
    else { s with pending := none, returned := s.returned ++ [reader.body.take n] }

/-- What an event does, if it can happen. -/
def step (s : Connection) : Event → Option Connection
  | .send plaintext =>
    if s.closed then none
    else some
      { s with
        writer := (s.writer.send C plaintext).2
        wire := s.wire ++ (s.writer.send C plaintext).1
        sent := s.sent ++ chunks maxPlaintext plaintext }
  | .probe =>
    if s.closed then none
    else some
      { s with
        writer := (s.writer.probe C).2
        wire := s.wire ++ (s.writer.probe C).1
        sent := s.sent ++ [[]] }
  | .close => some { s with closed := true }
  | .recv => if s.pending.isSome then none else some (s.settle C false (s.reader.fill C))
  | .recvData =>
    if s.pending.isSome then none
    else some (settle C { s with skips := true } true (s.reader.fill C))
  | .read n =>
    s.pending.bind fun (stage, skip) =>
      if 1 ≤ n ∧ n ≤ s.wire.length ∧ n ≤ s.reader.room stage then
        some (settle C { s with wire := s.wire.drop n } skip
          (s.reader.resume C stage (s.wire.take n)))
      else none
  | .eof =>
    s.pending.bind fun (stage, skip) =>
      if s.closed ∧ s.wire = [] then some (s.settle C skip (s.reader.resume C stage [])) else none
  | .cancel => some { s with pending := none }

end Connection

/-! ### Chunks -/

theorem flatten_map_range_chunks {α : Type} (size n : ℕ) (l : List α) :
  ((List.range n).map fun i => (l.drop (i * size)).take size).flatten = l.take (n * size)
  := by
  induction n with
  | zero => simp
  | succ n ih =>
      rw [List.range_succ, List.map_append, List.flatten_append, ih, Nat.succ_mul, List.take_add]
      simp

/-- The chunks of a list make up the list. -/
theorem flatten_chunks {α : Type} {size : ℕ} (hsize : 0 < size) (l : List α) :
  (chunks size l).flatten = l
  := by
  rw [chunks, flatten_map_range_chunks]
  apply List.take_of_length_le
  have h := Nat.lt_div_mul_add hsize (a := l.length + size - 1)
  omega

theorem length_le_of_mem_chunks {α : Type} {size : ℕ} {l c : List α} (h : c ∈ chunks size l) :
  c.length ≤ size
  := by
  obtain ⟨i, _, rfl⟩ := List.mem_map.mp h
  apply List.length_take_le

/-! ### The frames on the wire -/

variable {C}

namespace NoiseWriter

theorem frames_append (w : NoiseWriter) (cs cs' : List (List UInt8)) :
  w.frames C (cs ++ cs')
    = ((w.frames C cs).1 ++ ((w.frames C cs).2.frames C cs').1, ((w.frames C cs).2.frames C cs').2)
  := by
  induction cs generalizing w with
  | nil => rfl
  | cons c cs ih =>
      simp only [List.cons_append, frames, ih, List.append_assoc]

theorem frames_singleton (w : NoiseWriter) (c : List UInt8) :
  w.frames C [c] = w.frame C c
  := by
  simp [frames]

theorem frames_cons (w : NoiseWriter) (c : List UInt8) (cs : List (List UInt8)) :
  (w.frames C (c :: cs)).1
    = toBe 2 (c.length + tagLen) ++ (C.aeadEncrypt w.sendKey w.sendN [] c
        ++ (frames C ⟨w.sendKey, w.sendN + 1⟩ cs).1)
  := by
  rw [← List.append_assoc]
  rfl

theorem sendKey_frames (w : NoiseWriter) (cs : List (List UInt8)) :
  (w.frames C cs).2.sendKey = w.sendKey
  := by
  induction cs generalizing w with
  | nil => rfl
  | cons c cs ih =>
      simp only [frames, ih]
      rfl

end NoiseWriter

/-! ### Progress through a frame -/

namespace NoiseReader

variable {r r' : NoiseReader} {stage : Await}

/-- The bytes of the current frame that have been read. -/
def held (r : NoiseReader) : List UInt8 :=
  if r.haveLen then r.len ++ r.body.take r.bodyFilled else r.len.take r.lenFilled

/-- The fields of a reader that has to read on in a stage. -/
def Waits (r : NoiseReader) : Await → Prop
  | .header => r.len.length = 2 ∧ r.haveLen = false ∧ r.lenFilled < 2
  | .body => r.len.length = 2 ∧ r.haveLen = true ∧ r.lenFilled = 2 ∧ r.body.length = ofBe r.len
      ∧ r.bodyFilled < r.body.length

/-- A call that is made anew waits where the one before it was dropped. -/
theorem fill_of_waits (h : r.Waits stage) :
  r.fill C = (.pending stage, r)
  := by
  cases stage with
  | header =>
      obtain ⟨_, _, hfilled⟩ := h
      rw [fill, if_pos hfilled]
  | body =>
      obtain ⟨_, hhave, hlen, _, hfilled⟩ := h
      rw [fill, if_neg (by omega), if_pos hhave, fillBody, if_pos hfilled]

theorem room_pos (h : r.Waits stage) :
  1 ≤ r.room stage
  := by
  cases stage with
  | header =>
      obtain ⟨hlen, _, hfilled⟩ := h
      rw [room]
      omega
  | body =>
      obtain ⟨_, _, _, _, hfilled⟩ := h
      rw [room]
      omega

/-- What a call does to a reader whose bytes and those on the wire are the frames of some
chunks: it waits with the same bytes, or it returns the first chunk and has no bytes left. -/
inductive Progress (C : Cipher UInt8) (r : NoiseReader) (wire : List UInt8)
    (rest : List (List UInt8)) : Poll ℕ × NoiseReader → Prop where
  | pending {stage : Await} {r' : NoiseReader} :
      r'.Waits stage → r'.held = r.held → r'.recvKey = r.recvKey → r'.recvN = r.recvN →
      Progress C r wire rest (.pending stage, r')
  | ready {c : List UInt8} {rest' : List (List UInt8)} {r' : NoiseReader} :
      rest = c :: rest' → r'.body.take c.length = c → r'.Waits .header → r'.held = [] →
      r'.recvKey = r.recvKey → r'.recvN = r.recvN + 1 →
      wire = (NoiseWriter.frames C ⟨r.recvKey, r.recvN + 1⟩ rest').1 →
      Progress C r wire rest (.ready (.ok c.length), r')

/-- Only the bytes held and the key and nonce matter for what a call does. -/
theorem Progress.of_held {wire : List UInt8} {rest : List (List UInt8)} {x : Poll ℕ × NoiseReader}
    (h : Progress C r wire rest x) (hheld : r.held = r'.held) (hkey : r.recvKey = r'.recvKey)
    (hn : r.recvN = r'.recvN) :
  Progress C r' wire rest x
  := by
  cases h with
  | pending hwaits hheld' hkey' hn' =>
      exact Progress.pending hwaits (hheld'.trans hheld) (hkey'.trans hkey) (hn'.trans hn)
  | ready hrest hbody hwaits hheld' hkey' hn' hwire =>
      rw [hkey] at hkey' hwire
      rw [hn] at hn' hwire
      exact Progress.ready hrest hbody hwaits hheld' hkey' hn' hwire

/-- A frame that has been read whole is the frame of the first chunk. -/
theorem eq_of_frame (hC : C.Lawful) {key len body wire : List UInt8} {n : UInt64}
    {rest : List (List UInt8)} (hlen : len.length = 2) (hbody : body.length = ofBe len)
    (hfit : ∀ c ∈ rest, c.length ≤ maxPlaintext)
    (h : len ++ body ++ wire = (NoiseWriter.frames C ⟨key, n⟩ rest).1) :
  ∃ c rest', rest = c :: rest' ∧ body = C.aeadEncrypt key n [] c
    ∧ wire = (NoiseWriter.frames C ⟨key, n + 1⟩ rest').1
  := by
  cases rest with
  | nil =>
      have := congrArg List.length h
      simp [NoiseWriter.frames, hlen] at this
  | cons c rest =>
      rw [NoiseWriter.frames_cons, List.append_assoc] at h
      obtain ⟨rfl, hrest⟩ := List.append_inj h (by rw [hlen, length_toBe])
      have hsize : c.length + tagLen < 256 ^ 2 := by
        have := hfit c List.mem_cons_self
        rw [maxPlaintext] at this
        rw [tagLen]
        omega
      rw [ofBe_toBe_of_lt hsize, ← hC.length_encrypt key n []] at hbody
      obtain ⟨rfl, rfl⟩ := List.append_inj hrest hbody
      exact ⟨c, rest, rfl, rfl, rfl⟩

theorem fillBody_progress (hC : C.Lawful) {wire : List UInt8} {rest : List (List UInt8)}
    (hlen : r.len.length = 2) (hhave : r.haveLen = true) (hlenFilled : r.lenFilled = 2)
    (hbody : r.body.length = ofBe r.len) (hfilled : r.bodyFilled ≤ r.body.length)
    (hfit : ∀ c ∈ rest, c.length ≤ maxPlaintext)
    (h : r.held ++ wire = (NoiseWriter.frames C ⟨r.recvKey, r.recvN⟩ rest).1) :
  Progress C r wire rest (r.fillBody C)
  := by
  rw [fillBody]
  split
  · rename_i hlt
    have hwaits : r.Waits .body := ⟨hlen, hhave, hlenFilled, hbody, hlt⟩
    exact Progress.pending hwaits rfl rfl rfl
  · rename_i hge
    have hheld : r.held = r.len ++ r.body := by
      rw [held, if_pos hhave, List.take_of_length_le (by omega)]
    rw [hheld] at h
    obtain ⟨c, rest', rfl, hct, hwire⟩ := eq_of_frame hC hlen hbody hfit h
    have hdec : C.aeadDecrypt r.recvKey r.recvN [] r.body = some c := by
      rw [hct, hC.decrypt_encrypt]
    simp only [hdec]
    apply Progress.ready
    · rfl
    · simp [writeAt]
    · exact ⟨hlen, rfl, Nat.zero_lt_two⟩
    · rfl
    · rfl
    · rfl
    · exact hwire

/-- The first loop has read the length, or goes on. -/
theorem fill_progress (hC : C.Lawful) {wire : List UInt8} {rest : List (List UInt8)}
    (hlen : r.len.length = 2) (hhave : r.haveLen = false) (hlenFilled : r.lenFilled ≤ 2)
    (hfit : ∀ c ∈ rest, c.length ≤ maxPlaintext)
    (h : r.held ++ wire = (NoiseWriter.frames C ⟨r.recvKey, r.recvN⟩ rest).1) :
  Progress C r wire rest (r.fill C)
  := by
  rw [fill]
  split
  · rename_i hlt
    have hwaits : r.Waits .header := ⟨hlen, hhave, hlt⟩
    exact Progress.pending hwaits rfl rfl rfl
  · rename_i hge
    have hheld : r.held = r.len := by
      rw [held, if_neg (by simp [hhave]), List.take_of_length_le (by omega)]
    -- the reader with room for a body holds the same bytes
    let r₁ : NoiseReader :=
      { r with body := List.replicate (ofBe r.len) 0, bodyFilled := 0, haveLen := true }
    have hheld₁ : r₁.held = r.held := by
      rw [hheld, held, if_pos rfl]
      simp [r₁]
    have hprogress : Progress C r₁ wire rest (r₁.fillBody C) := by
      apply fillBody_progress
      · exact hC
      · exact hlen
      · rfl
      · exact le_antisymm hlenFilled (Nat.le_of_not_lt hge)
      · simp [r₁]
      · simp [r₁]
      · exact hfit
      · rw [hheld₁]
        exact h
    rw [if_neg (by simp [hhave])]
    exact hprogress.of_held hheld₁ rfl rfl

theorem take_writeAt {buf bytes : List UInt8} {pos : ℕ} (hpos : pos ≤ buf.length) :
  (writeAt buf pos bytes).take (pos + bytes.length) = buf.take pos ++ bytes
  := by
  rw [writeAt]
  apply List.take_left'
  rw [List.length_append, List.length_take, min_eq_left hpos]

theorem length_writeAt {buf bytes : List UInt8} {pos : ℕ} (h : bytes.length ≤ buf.length - pos)
    (hpos : pos ≤ buf.length) :
  (writeAt buf pos bytes).length = buf.length
  := by
  simp only [writeAt, List.length_append, List.length_take, List.length_drop]
  omega

/-- A read that brings bytes adds them to those held. -/
theorem resume_progress (hC : C.Lawful) {bytes wire : List UInt8} {rest : List (List UInt8)}
    (hwaits : r.Waits stage) (hbytes : bytes ≠ []) (hroom : bytes.length ≤ r.room stage)
    (hfit : ∀ c ∈ rest, c.length ≤ maxPlaintext)
    (h : r.held ++ (bytes ++ wire) = (NoiseWriter.frames C ⟨r.recvKey, r.recvN⟩ rest).1) :
  ∃ r₁ : NoiseReader, r₁.held = r.held ++ bytes ∧ r₁.recvKey = r.recvKey ∧ r₁.recvN = r.recvN
    ∧ Progress C r₁ wire rest (r.resume C stage bytes)
  := by
  cases stage with
  | header =>
      rw [resume, if_neg hbytes]
      obtain ⟨hlen, hhave, hfilled⟩ := hwaits
      rw [room] at hroom
      let r₁ : NoiseReader :=
        { r with
          len := writeAt r.len r.lenFilled bytes
          lenFilled := r.lenFilled + bytes.length }
      have hheld : r₁.held = r.held ++ bytes := by
        simp only [held, r₁, hhave, Bool.false_eq_true, if_false]
        rw [take_writeAt (by omega)]
      refine ⟨r₁, hheld, rfl, rfl, ?_⟩
      apply fill_progress
      · exact hC
      · exact (length_writeAt hroom (by omega)).trans hlen
      · exact hhave
      · simp only [r₁]
        omega
      · exact hfit
      · rw [hheld, List.append_assoc]
        exact h
  | body =>
      rw [resume, if_neg hbytes]
      obtain ⟨hlen, hhave, hlenFilled, hbody, hfilled⟩ := hwaits
      rw [room] at hroom
      let r₁ : NoiseReader :=
        { r with
          body := writeAt r.body r.bodyFilled bytes
          bodyFilled := r.bodyFilled + bytes.length }
      have hlength : r₁.body.length = r.body.length := length_writeAt hroom (by omega)
      have hheld : r₁.held = r.held ++ bytes := by
        simp only [held, r₁, hhave, if_true]
        rw [take_writeAt (by omega), List.append_assoc]
      refine ⟨r₁, hheld, rfl, rfl, ?_⟩
      apply fillBody_progress
      · exact hC
      · exact hlen
      · exact hhave
      · exact hlenFilled
      · exact hlength.trans hbody
      · rw [hlength]
        simp only [r₁]
        omega
      · exact hfit
      · rw [hheld, List.append_assoc]
        exact h

end NoiseReader

/-! ### Every state of a connection -/

namespace Connection

variable {s t : Connection} {key : List UInt8}

/-- What holds in every state: the bytes that the reader holds and those on the wire are the
frames of the chunks that it has not decrypted yet, and a pending call waits for the read that
the fields of the reader say. -/
structure Inv (C : Cipher UInt8) (key : List UInt8) (s : Connection) : Prop where
  recvKey : s.reader.recvKey = key
  sent_fits : ∀ c ∈ s.sent, c.length ≤ maxPlaintext
  waits : ∃ stage, s.reader.Waits stage ∧ ∀ p, s.pending = some p → p.1 = stage
  frames : ∃ rest, s.sent = s.decrypted ++ rest
    ∧ NoiseWriter.frames C ⟨key, s.reader.recvN⟩ rest = (s.reader.held ++ s.wire, s.writer)
  errors : ∀ e ∈ s.errors, e = "connection closed"
  returned : s.returned.filter (· ≠ []) = s.decrypted.filter (· ≠ [])
  plain : s.skips = false → s.returned = s.decrypted ∧ ∀ p, s.pending = some p → p.2 = false

theorem inv_fresh (C : Cipher UInt8) (key : List UInt8) :
  Inv C key (fresh key)
  where
  recvKey := rfl
  sent_fits _ h := by cases h
  waits := ⟨.header, ⟨rfl, rfl, Nat.zero_lt_two⟩, by simp [fresh]⟩
  frames := ⟨[], rfl, rfl⟩
  errors _ h := by cases h
  returned := rfl
  plain _ := ⟨rfl, by simp [fresh]⟩

/-- More chunks are sent. -/
theorem Inv.sends (h : Inv C key s) {cs : List (List UInt8)}
    (hfit : ∀ c ∈ cs, c.length ≤ maxPlaintext) :
  Inv C key
    { s with
      writer := (s.writer.frames C cs).2
      wire := s.wire ++ (s.writer.frames C cs).1
      sent := s.sent ++ cs }
  := by
  obtain ⟨rest, hsent, hframes⟩ := h.frames
  refine ⟨h.recvKey, ?_, h.waits, ?_, h.errors, h.returned, h.plain⟩
  · intro c hc
    rcases List.mem_append.mp hc with hc | hc
    · exact h.sent_fits c hc
    · exact hfit c hc
  · refine ⟨rest ++ cs, by rw [hsent, List.append_assoc], ?_⟩
    rw [NoiseWriter.frames_append, hframes, List.append_assoc]

/-- A call that is made waits for the read that the fields of the reader say. -/
theorem Inv.calls (h : Inv C key s) (skip : Bool) (hskip : s.skips = false → skip = false) :
  ∃ stage, s.settle C skip (s.reader.fill C) = { s with pending := some (stage, skip) }
    ∧ Inv C key { s with pending := some (stage, skip) }
  := by
  obtain ⟨stage, hwaits, _⟩ := h.waits
  refine ⟨stage, by rw [NoiseReader.fill_of_waits hwaits]; rfl, ?_⟩
  refine ⟨h.recvKey, h.sent_fits, ⟨stage, hwaits, ?_⟩, h.frames, h.errors, h.returned, ?_⟩
  · intro p hp
    rw [← Option.some.inj hp]
  · intro hplain
    refine ⟨(h.plain hplain).1, ?_⟩
    intro p hp
    rw [← Option.some.inj hp]
    exact hskip hplain

theorem Inv.setSkips (h : Inv C key s) :
  Inv C key { s with skips := true }
  := ⟨h.recvKey, h.sent_fits, h.waits, h.frames, h.errors, h.returned, by simp⟩

/-- Without a pending call, or with the stream closed, nothing else changes. -/
theorem Inv.idles (h : Inv C key s) {closed : Bool} {errors : List String}
    (herrors : ∀ e ∈ errors, e = "connection closed") :
  Inv C key { s with closed, pending := none, errors }
  := by
  obtain ⟨stage, hwaits, _⟩ := h.waits
  refine ⟨h.recvKey, h.sent_fits, ⟨stage, hwaits, by simp⟩, h.frames, herrors, h.returned, ?_⟩
  intro hplain
  exact ⟨(h.plain hplain).1, by simp⟩

/-- A call that returns a chunk has decrypted it, and returns it unless it skips empty ones. -/
theorem settle_ready {r : NoiseReader} {c : List UInt8} (skip : Bool)
    (hwaits : r.Waits .header) (hc : r.body.take c.length = c) :
  s.settle C skip (.ready (.ok c.length), r) =
    if c = [] ∧ skip = true then
      { s with reader := r, decrypted := s.decrypted ++ [c], pending := some (.header, skip) }
    else
      { s with
        reader := r
        decrypted := s.decrypted ++ [c]
        pending := none
        returned := s.returned ++ [c] }
  := by
  simp only [settle, List.length_eq_zero_iff, NoiseReader.fill_of_waits hwaits, hc]

/-- A pending call reads on. -/
theorem Inv.reads (hC : C.Lawful) (h : Inv C key s) {stage : Await} {skip : Bool} {n : ℕ}
    (hpending : s.pending = some (stage, skip)) (hn : 1 ≤ n) (hwire : n ≤ s.wire.length)
    (hroom : n ≤ s.reader.room stage) :
  Inv C key
    (settle C { s with wire := s.wire.drop n } skip (s.reader.resume C stage (s.wire.take n)))
  := by
  obtain ⟨stage', hwaits, hstage⟩ := h.waits
  obtain rfl : stage = stage' := hstage _ hpending
  obtain ⟨rest, hsent, hframes⟩ := h.frames
  have hnoskip : s.skips = false → skip = false := fun hplain => (h.plain hplain).2 _ hpending
  have hlength : (s.wire.take n).length = n := List.length_take_of_le hwire
  have hfit : ∀ c ∈ rest, c.length ≤ maxPlaintext := by
    intro c hc
    apply h.sent_fits
    rw [hsent]
    exact List.mem_append_right _ hc
  have hbytes : s.wire.take n ≠ [] := by
    apply List.ne_nil_of_length_pos
    rwa [hlength]
  have hstream : s.reader.held ++ (s.wire.take n ++ s.wire.drop n)
      = (NoiseWriter.frames C ⟨s.reader.recvKey, s.reader.recvN⟩ rest).1 := by
    rw [List.take_append_drop, h.recvKey, hframes]
  obtain ⟨r, hheld, hkey, hnonce, hprogress⟩ :=
    NoiseReader.resume_progress hC hwaits hbytes (by rwa [hlength]) hfit hstream
  generalize s.reader.resume C stage (s.wire.take n) = x at hprogress
  cases hprogress with
  | @pending stage' r' hwaits' hheld' hkey' hnonce' =>
      refine ⟨?_, h.sent_fits, ⟨stage', hwaits', ?_⟩, ⟨rest, hsent, ?_⟩, h.errors, h.returned, ?_⟩
      · exact hkey'.trans (hkey.trans h.recvKey)
      · intro p hp
        rw [← Option.some.inj hp]
      · simp only [settle]
        rw [hnonce', hnonce, hheld', hheld, hframes, List.append_assoc, List.take_append_drop]
      · intro hplain
        refine ⟨(h.plain hplain).1, ?_⟩
        intro p hp
        rw [← Option.some.inj hp]
        exact hnoskip hplain
  | @ready c rest' r' hrest hc hwaits' hheld' hkey' hnonce' hwire' =>
      have hkey'' : r'.recvKey = key := hkey'.trans (hkey.trans h.recvKey)
      have hsent' : s.sent = (s.decrypted ++ [c]) ++ rest' := by
        rw [hsent, hrest, List.append_assoc, List.singleton_append]
      have hframes' : NoiseWriter.frames C ⟨key, r'.recvN⟩ rest' = (r'.held ++ s.wire.drop n, s.writer) := by
        rw [hrest] at hframes
        apply Prod.ext
        · rw [hheld', hwire', hnonce', hkey, h.recvKey]
          rfl
        · rw [hnonce', hnonce]
          have hwriter := congrArg Prod.snd hframes
          exact hwriter
      rw [settle_ready skip hwaits' hc]
      split
      · rename_i hskip
        refine ⟨hkey'', h.sent_fits, ⟨.header, hwaits', ?_⟩, ⟨rest', hsent', hframes'⟩, h.errors, ?_, ?_⟩
        · intro p hp
          rw [← Option.some.inj hp]
        · rw [List.filter_append, hskip.1]
          simpa using h.returned
        · intro hplain
          rw [hnoskip hplain] at hskip
          cases hskip.2
      · refine ⟨hkey'', h.sent_fits, ⟨.header, hwaits', by simp⟩, ⟨rest', hsent', hframes'⟩, h.errors, ?_, ?_⟩
        · rw [List.filter_append, List.filter_append, h.returned]
        · intro hplain
          rw [(h.plain hplain).1]
          exact ⟨rfl, by simp⟩

theorem Inv.step (hC : C.Lawful) {e : Event} (h : Inv C key s) (hstep : s.step C e = some t) :
  Inv C key t
  := by
  cases e with
  | send plaintext =>
      simp only [Connection.step] at hstep
      split at hstep
      · cases hstep
      · obtain rfl := Option.some.inj hstep
        apply h.sends
        intro c hc
        exact length_le_of_mem_chunks hc
  | probe =>
      simp only [Connection.step, NoiseWriter.probe, ← NoiseWriter.frames_singleton] at hstep
      split at hstep
      · cases hstep
      · obtain rfl := Option.some.inj hstep
        apply h.sends
        simp
  | close =>
      obtain rfl := Option.some.inj hstep
      exact ⟨h.recvKey, h.sent_fits, h.waits, h.frames, h.errors, h.returned, h.plain⟩
  | recv =>
      rw [Connection.step] at hstep
      split at hstep
      · cases hstep
      · obtain ⟨stage, heq, hinv⟩ := h.calls false fun _ => rfl
        rw [heq] at hstep
        rwa [← Option.some.inj hstep]
  | recvData =>
      rw [Connection.step] at hstep
      split at hstep
      · cases hstep
      · obtain ⟨stage, heq, hinv⟩ := h.setSkips.calls true (by simp)
        rw [heq] at hstep
        rwa [← Option.some.inj hstep]
  | read n =>
      obtain ⟨⟨stage, skip⟩, hpending, hread⟩ := Option.bind_eq_some_iff.mp hstep
      dsimp only at hread
      split at hread
      · rename_i hguard
        rw [← Option.some.inj hread]
        exact h.reads hC hpending hguard.1 hguard.2.1 hguard.2.2
      · cases hread
  | eof =>
      obtain ⟨⟨stage, skip⟩, hpending, hread⟩ := Option.bind_eq_some_iff.mp hstep
      dsimp only at hread
      split at hread
      · rw [← Option.some.inj hread, NoiseReader.resume.eq_def, if_pos rfl]
        apply h.idles
        intro e he
        rcases List.mem_append.mp he with he | he
        · exact h.errors e he
        · exact List.mem_singleton.mp he
      · cases hread
  | cancel =>
      rw [← Option.some.inj hstep]
      exact h.idles h.errors

/-- A call sends nothing and leaves what is on the wire there. -/
theorem settle_sent (s : Connection) (skip : Bool) (x : Poll ℕ × NoiseReader) :
  (s.settle C skip x).sent = s.sent ∧ (s.settle C skip x).wire = s.wire
  := by
  rcases x with ⟨_ | (_ | n), r⟩
  · exact ⟨rfl, rfl⟩
  · exact ⟨rfl, rfl⟩
  · simp only [settle]
    split
    · split <;> exact ⟨rfl, rfl⟩
    · exact ⟨rfl, rfl⟩

theorem settle_skips (s : Connection) (skip : Bool) (x : Poll ℕ × NoiseReader) :
  (s.settle C skip x).skips = s.skips
  := by
  rcases x with ⟨_ | (_ | n), r⟩
  · rfl
  · rfl
  · simp only [settle]
    split
    · split <;> rfl
    · rfl

theorem sent_step {e : Event} (hstep : s.step C e = some t) :
  t.sent = s.sent ++ e.chunks
  := by
  cases e with
  | send plaintext =>
      simp only [Connection.step] at hstep
      split at hstep
      · cases hstep
      · rw [← Option.some.inj hstep]
        rfl
  | probe =>
      simp only [Connection.step] at hstep
      split at hstep
      · cases hstep
      · rw [← Option.some.inj hstep]
        rfl
  | close =>
      rw [← Option.some.inj hstep]
      exact (List.append_nil _).symm
  | recv =>
      rw [Connection.step] at hstep
      split at hstep
      · cases hstep
      · rw [← Option.some.inj hstep, (settle_sent _ _ _).1]
        exact (List.append_nil _).symm
  | recvData =>
      rw [Connection.step] at hstep
      split at hstep
      · cases hstep
      · rw [← Option.some.inj hstep, (settle_sent _ _ _).1]
        exact (List.append_nil _).symm
  | read n =>
      obtain ⟨⟨stage, skip⟩, _, hread⟩ := Option.bind_eq_some_iff.mp hstep
      dsimp only at hread
      split at hread
      · rw [← Option.some.inj hread, (settle_sent _ _ _).1]
        exact (List.append_nil _).symm
      · cases hread
  | eof =>
      obtain ⟨⟨stage, skip⟩, _, hread⟩ := Option.bind_eq_some_iff.mp hstep
      dsimp only at hread
      split at hread
      · rw [← Option.some.inj hread, (settle_sent _ _ _).1]
        exact (List.append_nil _).symm
      · cases hread
  | cancel =>
      rw [← Option.some.inj hstep]
      exact (List.append_nil _).symm

/-- Only a call that skips empty frames makes the reader skip them. -/
theorem skips_step {e : Event} (hstep : s.step C e = some t) (he : e ≠ .recvData) :
  t.skips = s.skips
  := by
  cases e with
  | send plaintext =>
      simp only [Connection.step] at hstep
      split at hstep
      · cases hstep
      · rw [← Option.some.inj hstep]
  | probe =>
      simp only [Connection.step] at hstep
      split at hstep
      · cases hstep
      · rw [← Option.some.inj hstep]
  | close => rw [← Option.some.inj hstep]
  | recv =>
      rw [Connection.step] at hstep
      split at hstep
      · cases hstep
      · rw [← Option.some.inj hstep, settle_skips]
  | recvData => exact absurd rfl he
  | read n =>
      obtain ⟨⟨stage, skip⟩, _, hread⟩ := Option.bind_eq_some_iff.mp hstep
      dsimp only at hread
      split at hread
      · rw [← Option.some.inj hread, settle_skips]
      · cases hread
  | eof =>
      obtain ⟨⟨stage, skip⟩, _, hread⟩ := Option.bind_eq_some_iff.mp hstep
      dsimp only at hread
      split at hread
      · rw [← Option.some.inj hread, settle_skips]
      · cases hread
  | cancel => rw [← Option.some.inj hstep]

theorem skips_eq {es : List Event} (h : Run (fun s e t => s.step C e = some t) (fresh key) es s)
    (hes : .recvData ∉ es) :
  s.skips = false
  := by
  induction h with
  | nil => rfl
  | snoc _ hlast ih =>
      rw [List.mem_append, List.mem_singleton, not_or] at hes
      rw [skips_step hlast (Ne.symm hes.2), ih hes.1]

theorem sent_eq {es : List Event}
    (h : Run (fun s e t => s.step C e = some t) (fresh key) es s) :
  s.sent = es.flatMap Event.chunks
  := by
  induction h with
  | nil => rfl
  | snoc _ hlast ih => rw [sent_step hlast, ih, List.flatMap_append, List.flatMap_singleton]

theorem inv_of_run (hC : C.Lawful) {es : List Event}
    (h : Run (fun s e t => s.step C e = some t) (fresh key) es s) :
  Inv C key s
  := h.invariant (inv_fresh C key) fun _ _ _ hinv => hinv.step hC

/-- A reader that waits holds fewer bytes than a frame has: with nothing on the wire, every
chunk has been decrypted. -/
theorem Inv.decrypted_eq (hC : C.Lawful) (h : Inv C key s) (hwire : s.wire = []) :
  s.decrypted = s.sent
  := by
  obtain ⟨rest, hsent, hframes⟩ := h.frames
  obtain ⟨stage, hwaits, _⟩ := h.waits
  have hheld := (congrArg Prod.fst hframes).symm
  rw [hwire, List.append_nil] at hheld
  cases rest with
  | nil => rw [hsent, List.append_nil]
  | cons c rest =>
      rw [NoiseWriter.frames_cons] at hheld
      cases stage with
      | header =>
          obtain ⟨hlen, hhave, hfilled⟩ := hwaits
          have hlength := congrArg List.length hheld
          rw [NoiseReader.held, if_neg (by simp [hhave]), List.length_take, List.length_append,
            length_toBe] at hlength
          omega
      | body =>
          obtain ⟨hlen, hhave, _, hbody, hfilled⟩ := hwaits
          rw [NoiseReader.held, if_pos hhave] at hheld
          obtain ⟨hheader, hct⟩ := List.append_inj hheld (by rw [hlen, length_toBe])
          have hfit : c.length + tagLen < 256 ^ 2 := by
            have hc := h.sent_fits c (by rw [hsent]; simp)
            rw [maxPlaintext] at hc
            rw [tagLen]
            omega
          rw [hheader, ofBe_toBe_of_lt hfit] at hbody
          have hlength := congrArg List.length hct
          rw [List.length_take, List.length_append, hC.length_encrypt] at hlength
          omega

/-- A call that waits can read as long as there are bytes on the wire. -/
theorem Inv.exists_read (hC : C.Lawful) (h : Inv C key s) {p : Await × Bool}
    (hpending : s.pending = some p) (hwire : s.wire ≠ []) :
  ∃ t, s.step C (.read 1) = some t ∧ Inv C key t ∧ t.sent = s.sent
    ∧ t.wire.length < s.wire.length
  := by
  obtain ⟨stage, skip⟩ := p
  obtain ⟨stage', hwaits, hstage⟩ := h.waits
  obtain rfl : stage = stage' := hstage _ hpending
  have hlength : 1 ≤ s.wire.length := List.length_pos_of_ne_nil hwire
  have hroom := NoiseReader.room_pos hwaits
  have hstep : s.step C (.read 1) = some (settle C { s with wire := s.wire.drop 1 } skip
      (s.reader.resume C stage (s.wire.take 1))) := by
    simp only [Connection.step, hpending, Option.bind_some]
    rw [if_pos ⟨le_refl 1, hlength, hroom⟩]
  refine ⟨_, hstep, h.step hC hstep, (settle_sent _ _ _).1, ?_⟩
  rw [(settle_sent _ _ _).2, List.length_drop]
  omega

/-- Calls that return every frame, and reads, and nothing else. -/
def Receives (es : List Event) : Prop :=
  ∀ e ∈ es, e = .recv ∨ e = .read 1

theorem Receives.cons {e : Event} {es : List Event} (he : e = .recv ∨ e = .read 1)
    (hes : Receives es) :
  Receives (e :: es)
  := List.forall_mem_cons.mpr ⟨he, hes⟩

/-- The reader never gets stuck: by calls and reads alone it takes all bytes off the wire. -/
theorem Inv.exists_drained (hC : C.Lawful) (h : Inv C key s) :
  ∃ es t, Run (fun s e t => s.step C e = some t) s es t ∧ Receives es ∧ t.sent = s.sent
    ∧ t.wire = []
  := by
  induction hn : s.wire.length using Nat.strong_induction_on generalizing s with
  | _ n ih =>
      by_cases hwire : s.wire = []
      · exact ⟨[], s, Run.nil, by simp [Receives], rfl, hwire⟩
      · -- one more byte is read, once a call waits
        have hread : ∀ {s' : Connection} {p : Await × Bool}, Inv C key s' → s'.pending = some p →
            s'.sent = s.sent → s'.wire = s.wire → ∃ es t,
            Run (fun s e t => s.step C e = some t) s' es t ∧ Receives es ∧ t.sent = s.sent
              ∧ t.wire = [] := by
          intro s' p h' hpending hsent hwire'
          obtain ⟨u, hstep, hu, husent, hless⟩ := h'.exists_read hC hpending (by rwa [hwire'])
          rw [hwire', hn] at hless
          obtain ⟨es, t, hrun, hes, htsent, htwire⟩ := ih u.wire.length hless hu rfl
          exact ⟨_, t, Run.cons hstep hrun, hes.cons (Or.inr rfl),
            htsent.trans (husent.trans hsent), htwire⟩
        cases hpending : s.pending with
        | some p => exact hread h hpending rfl rfl
        | none =>
            obtain ⟨stage, heq, hinv⟩ := h.calls false fun _ => rfl
            have hstep : s.step C .recv = some { s with pending := some (stage, false) } := by
              simp only [Connection.step, hpending, Option.isSome_none, Bool.false_eq_true, if_false,
                heq]
            obtain ⟨es, t, hrun, hes, hsent, hwire'⟩ := hread hinv rfl rfl rfl
            exact ⟨_, t, Run.cons hstep hrun, hes.cons (Or.inl rfl), hsent, hwire'⟩

/-- However the stream is cut into reads and whichever pending calls are dropped and made again:
the reader decrypts the chunks sent, in order and each once, all of them once the wire is empty,
which it can always bring about; a call returns what it decrypts, but for the empty frames that
a call skips; and no call fails except at the end of the stream. -/
theorem returned_eq_sent (hC : C.Lawful) {es : List Event}
    (h : Run (fun s e t => s.step C e = some t) (fresh key) es s) :
  s.decrypted <+: es.flatMap Event.chunks
    ∧ (s.wire = [] → s.decrypted = es.flatMap Event.chunks)
    ∧ (s.skips = false → s.returned = s.decrypted)
    ∧ s.returned.filter (· ≠ []) = s.decrypted.filter (· ≠ [])
    ∧ (∀ e ∈ s.errors, e = "connection closed")
    ∧ ∃ es' t, Run (fun s e t => s.step C e = some t) s es' t ∧ t.sent = s.sent ∧ t.wire = []
  := by
  have hinv := inv_of_run hC h
  rw [← sent_eq h]
  obtain ⟨es', t, hrun, -, hsent, hwire⟩ := hinv.exists_drained hC
  refine ⟨?_, hinv.decrypted_eq hC, ?_, hinv.returned, hinv.errors, es', t, hrun, hsent, hwire⟩
  · obtain ⟨rest, hsent, _⟩ := hinv.frames
    exact ⟨rest, hsent.symm⟩
  · intro hplain
    exact (hinv.plain hplain).1

/-- A message and a probe, read in pieces by calls that are dropped in the middle of a length and
of a body. -/
def pieces : List Event :=
  [.send [7, 8], .probe, .recv, .read 1, .cancel, .recv, .read 1, .read 10, .cancel, .recv,
    .read 8, .recv, .read 2, .read 16]

theorem returned_eq_sent_pieces :
  ∃ s, Run (fun s e t => s.step Cipher.clear e = some t) (fresh [1]) pieces s
    ∧ s.returned = [[7, 8], []] ∧ s.returned = pieces.flatMap Event.chunks
  := by
  obtain ⟨s, hs, hwire, hskips, hreturned⟩ : ∃ s,
      execute (fun _ _ => True) (step Cipher.clear) (fresh [1]) pieces = some s
      ∧ s.wire = [] ∧ s.skips = false ∧ s.returned = [[7, 8], []] := ⟨_, rfl, rfl, rfl, rfl⟩
  have hrun := (run_of_execute hs).mono fun _ _ _ h => h.2
  obtain ⟨_, hall, hplain, _⟩ := returned_eq_sent Cipher.lawful_clear hrun
  exact ⟨s, hrun, hreturned, (hplain hskips).trans (hall hwire)⟩

end Connection

end ZeroNat

import ZeroNat.Dgram.Channel
import ZeroNat.Lib.Run

/-!
# Delivery over the datagram channel

Any number of senders share one session and send over a network that loses, repeats, reorders
and makes up packets.  A call of a sender holds the lock of the nonce counter once; what it does
before and after is interleaved freely with the other calls.  Each frame that the other end
returns comes from a packet of its own.
-/

open BigEndian

namespace ZeroNat.Dgram

/-- A call with its nonce, and the packet that it lays out or has sealed. -/
structure Packet where
  sender : ℕ
  call : Call
  nonce : UInt64
  pkt : List UInt8
deriving DecidableEq

/-- Both ends of a channel, with what has happened on it: the packets sealed, the datagrams
that the receiver has taken and the frames that it has returned, in order. -/
structure Link where
  noise : StatelessNoise UInt8
  senders : List DgramTx
  socket : Queue Outbound
  /-- The calls that hold a nonce and have not sealed their packet. -/
  pending : List Packet
  slot : Slot
  rx : DgramRx
  sealed : List Packet
  consumed : List (List UInt8)
  returned : List Frame
deriving DecidableEq

inductive Event where
  /-- A sender starts a call: it lays out a packet and asks for a nonce. -/
  | start (sender : ℕ) (call : Call)
  /-- A call that holds a nonce seals its packet and queues it. -/
  | finish (i : ℕ)
  /-- The socket sends the oldest packet and hands its buffer back. -/
  | written
  /-- The socket goes away. -/
  | close
  /-- The router hands over the body of some packet. -/
  | deliver (body : List UInt8)
  /-- The receiver runs. -/
  | recv
  | recvData
deriving DecidableEq

/-- The ciphertext of a sealed packet. -/
def Packet.ciphertext (p : Packet) : List UInt8 :=
  p.pkt.drop 13

namespace Link

/-- A channel on which nothing has happened, after a handshake that gave both ends their keys. -/
def fresh (keys : Keys UInt8) (tags : List UInt32) (socketCap slotCap : ℕ) : Link where
  noise := .fromKeys keys
  senders := tags.map fun tag => ⟨tag, .bounded laneCap⟩
  socket := .bounded socketCap
  pending := []
  slot := ⟨none⟩
  rx := ⟨⟨.bounded slotCap, .bounded recycleCap⟩, .fromKeys ⟨keys.recvKey, keys.sendKey⟩, []⟩
  sealed := []
  consumed := []
  returned := []

variable (C : Cipher UInt8)

/-- The part of a call up to where it lets go of the lock. -/
def start (s : Link) (sender : ℕ) (tx : DgramTx) (call : Call) : Link :=
  let s := { s with senders := s.senders.set sender tx.takeBuffer }
  match s.noise.nextNonce with
  | (.error _, noise) => { s with noise }
  | (.ok nonce, noise) =>
    { s with noise, pending := s.pending ++ [⟨sender, call, nonce, tx.layOut call⟩] }

/-- The rest of a call: a full socket queue drops the packet and keeps its buffer. -/
def finish (s : Link) (i : ℕ) (p : Packet) : Link :=
  let pkt := s.noise.sealWith C p.nonce p.pkt 5
  let s := { s with pending := s.pending.eraseIdx i, sealed := s.sealed ++ [{ p with pkt }] }
  match s.socket.trySend ⟨pkt, p.sender⟩ with
  | (.full, socket) =>
    { s with socket, senders := s.senders.modify p.sender (DgramTx.giveBuffer · pkt) }
  | (_, socket) => { s with socket }

/-- The receiver runs one of its calls. -/
def receive (s : Link) (select : DgramRx → ℕ → Option Frame) : Link :=
  match s.rx.poll C select with
  | (f, rx) =>
    { s with
      rx
      consumed := s.consumed
        ++ s.rx.inbound.rx.items.take (s.rx.inbound.rx.items.length - rx.inbound.rx.items.length)
      returned := s.returned ++ f.toList }

/-- What an event does, if it can happen. -/
def step (s : Link) : Event → Option Link
  | .start sender call => (s.senders[sender]?).map fun tx => s.start sender tx call
  | .finish i => (s.pending[i]?).map fun p => s.finish C i p
  | .written =>
    match s.socket.tryRecv with
    | (none, _) => none
    | (some out, socket) =>
      some { s with socket, senders := s.senders.modify out.back (DgramTx.giveBuffer · out.pkt) }
  | .close => some { s with socket := { s.socket with closed := true } }
  | .deliver body =>
    match s.slot.deliver s.rx.inbound body with
    | (_, slot, inbound) => some { s with slot, rx := { s.rx with inbound } }
  | .recv => some (s.receive C DgramRx.frame?)
  | .recvData => some (s.receive C DgramRx.data?)

/-- Nothing was forged: whatever datagram decrypted was sealed by a call. -/
def Unforged (s : Link) : Prop :=
  ∀ nonce ct p, u64Bytes nonce ++ ct ∈ s.consumed →
    C.aeadDecrypt s.rx.noise.recvKey nonce [] ct = some p →
    ∃ q ∈ s.sealed, q.nonce = nonce ∧ q.ciphertext = ct

end Link

/-! ### What a receiver returns -/

namespace DgramRx

variable {C : Cipher UInt8} {rx rx' : DgramRx} {datagram : List UInt8}

/-- A frame stands for a plaintext when it is read off its kind and its rest. -/
inductive Reads : List UInt8 → Frame → Prop where
  | data (rest : List UInt8) : Reads (kindData :: rest) (.data rest)
  | keepalive (rest : List UInt8) : Reads (kindKeepalive :: rest) .keepalive
  | name (label : String) : Reads (kindName :: utf8 label) (.name label)

/-- A choice of frames that reads the plaintext behind the nonce. -/
def Honest (select : DgramRx → ℕ → Option Frame) : Prop :=
  ∀ (rx : DgramRx) (nonce p rest : List UInt8) (f : Frame), nonce.length = 8 →
    rx.body = nonce ++ p ++ rest → p ≠ [] → select rx p.length = some f → Reads p f

section

variable {nonce rest : List UInt8} {kind : UInt8} {p : List UInt8}

theorem body_kind (hnonce : nonce.length = 8) (hbody : rx.body = nonce ++ kind :: p ++ rest) :
  rx.body[8]? = some kind
  := by
  rw [hbody, List.append_assoc, List.getElem?_append_right (by omega), hnonce]
  simp

theorem body_rest (hnonce : nonce.length = 8) (hbody : rx.body = nonce ++ kind :: p ++ rest) :
  (rx.body.take (8 + (kind :: p).length)).drop 9 = p
  := by
  rw [hbody, List.take_left' (by simp [hnonce]), show 9 = 8 + 1 from rfl, ← List.drop_drop,
    List.drop_left' hnonce]
  rfl

end

theorem honest_frame? :
  Honest frame?
  := by
  intro rx nonce p rest f hnonce hbody hp hf
  obtain ⟨kind, p, rfl⟩ := List.exists_cons_of_ne_nil hp
  simp only [frame?, body_kind hnonce hbody, body_rest hnonce hbody] at hf
  split at hf
  · rename_i hk
    obtain rfl := Option.some.inj hf
    rw [hk]
    apply Reads.data
  · split at hf
    · rename_i hk
      obtain rfl := Option.some.inj hf
      rw [hk]
      apply Reads.keepalive
    · split at hf
      · rename_i hk
        obtain ⟨label, hlabel, rfl⟩ := Option.map_eq_some_iff.mp hf
        rw [hk.1, (fromUTF8?_eq_some_iff p label).mp hlabel]
        apply Reads.name
      · cases hf

theorem honest_data? :
  Honest data?
  := by
  intro rx nonce p rest f hnonce hbody hp hf
  obtain ⟨kind, p, rfl⟩ := List.exists_cons_of_ne_nil hp
  simp only [data?, body_kind hnonce hbody, body_rest hnonce hbody] at hf
  split at hf
  · rename_i hk
    obtain rfl := Option.some.inj hf
    rw [Option.some.inj hk.1]
    apply Reads.data
  · cases hf

/-- The frame of a call is all that its plaintext stands for. -/
theorem eq_frame_of_reads {call : Call} {f : Frame} (h : Reads (call.kind :: call.payload) f) :
  f = call.frame
  := by
  cases call with
  | send datagram =>
      generalize hp : Call.kind (.send datagram) :: Call.payload (.send datagram) = p at h
      cases h with
      | data =>
          rw [← (List.cons.inj hp).2]
          rfl
      | keepalive => exact absurd (List.cons.inj hp).1 (show kindData ≠ kindKeepalive by decide)
      | name => exact absurd (List.cons.inj hp).1 (show kindData ≠ kindName by decide)
  | probe =>
      generalize hp : Call.kind .probe :: Call.payload .probe = p at h
      cases h with
      | data => exact absurd (List.cons.inj hp).1 (show kindKeepalive ≠ kindData by decide)
      | keepalive => rfl
      | name => exact absurd (List.cons.inj hp).1 (show kindKeepalive ≠ kindName by decide)
  | sendName label =>
      generalize hp : Call.kind (.sendName label) :: Call.payload (.sendName label) = p at h
      cases h with
      | data => exact absurd (List.cons.inj hp).1 (show kindName ≠ kindData by decide)
      | keepalive => exact absurd (List.cons.inj hp).1 (show kindName ≠ kindKeepalive by decide)
      | name label' =>
          have hlabel : String.fromUTF8? ⟨(utf8 label').toArray⟩ = some label :=
            (fromUTF8?_eq_some_iff _ label).mpr (List.cons.inj hp).2.symm
          rw [(fromUTF8?_eq_some_iff _ label').mpr rfl, Option.some.injEq] at hlabel
          rw [hlabel]
          rfl

/-- A frame came with a nonce: among the datagrams taken is one that decrypts under the nonce to
what the frame stands for. -/
def Came (C : Cipher UInt8) (key : List UInt8) (taken : List (List UInt8)) (nonce : UInt64)
    (f : Frame) : Prop :=
  ∃ ct p, u64Bytes nonce ++ ct ∈ taken ∧ C.aeadDecrypt key nonce [] ct = some p ∧ Reads p f

theorem Came.mono {key : List UInt8} {taken taken' : List (List UInt8)} {nonce : UInt64}
    {f : Frame} (h : Came C key taken nonce f) (hsub : taken ⊆ taken') :
  Came C key taken' nonce f
  := by
  obtain ⟨ct, p, hmem, hdec, hreads⟩ := h
  exact ⟨ct, p, hsub hmem, hdec, hreads⟩

/-- A datagram that is taken does not open, or it does under a nonce that the window accepts and
the plaintext then follows the nonce. -/
theorem take_cases {n : Option ℕ} (h : rx.take C datagram = (n, rx')) :
  (n = none ∧ rx'.noise = rx.noise)
    ∨ ∃ nonce ct p w rest, datagram = u64Bytes nonce ++ ct
        ∧ C.aeadDecrypt rx.noise.recvKey nonce [] ct = some p
        ∧ rx.noise.recvWindow.checkAndMark nonce = .ok w
        ∧ rx'.noise = { rx.noise with recvWindow := w }
        ∧ rx'.body = u64Bytes nonce ++ p ++ rest
        ∧ ∀ m, n = some m → m = p.length ∧ p ≠ []
  := by
  simp only [take] at h
  split at h
  · rename_i e noise hopen
    left
    obtain ⟨rfl, rfl⟩ := Prod.mk.inj h
    exact ⟨rfl, StatelessNoise.openInPlace_eq_error hopen⟩
  · rename_i p noise hopen
    right
    obtain ⟨nonce, ct, w, rfl, _, hdec, hw, rfl⟩ := StatelessNoise.openInPlace_eq_ok_iff.mp hopen
    have hbody : (u64Bytes nonce ++ ct).take 8 = u64Bytes nonce :=
      List.take_left' (length_u64Bytes nonce)
    rw [hbody] at h
    split at h
    · obtain ⟨rfl, rfl⟩ := Prod.mk.inj h
      exact ⟨nonce, ct, p, w, _, rfl, hdec, hw, rfl, rfl, by simp⟩
    · rename_i hlen
      obtain ⟨rfl, rfl⟩ := Prod.mk.inj h
      refine ⟨nonce, ct, p, w, _, rfl, hdec, hw, rfl, rfl, ?_⟩
      intro m hm
      obtain rfl := Option.some.inj hm
      exact ⟨rfl, fun hp => hlen (by rw [hp]; rfl)⟩

/-- A receiving call takes datagrams off the front of the queue, and what it returns came with a
nonce that the window had not accepted before. -/
theorem recvLoop_spec {select : DgramRx → ℕ → Option Frame} (hsel : Honest select)
    {queue queue' : List (List UInt8)} {f : Option Frame} {acc : List UInt64}
    (ht : rx.noise.recvWindow.Tracks acc) (h : recvLoop C select rx queue = (f, rx', queue')) :
  ∃ taken acc', queue = taken ++ queue' ∧ rx'.noise.recvKey = rx.noise.recvKey
    ∧ rx'.noise.recvWindow.Tracks (acc' ++ acc)
    ∧ ∀ fr, f = some fr → ∃ nonce ∈ acc', nonce ∉ acc ∧ Came C rx.noise.recvKey taken nonce fr
  := by
  induction queue generalizing rx acc with
  | nil =>
      obtain ⟨rfl, hrest⟩ := Prod.mk.inj h
      obtain ⟨rfl, rfl⟩ := Prod.mk.inj hrest
      exact ⟨[], [], rfl, rfl, ht, by simp⟩
  | cons datagram queue ih =>
      -- what the rest of the loop does, from a state in which the window has accepted more
      have hrest : ∀ {rx₁ : DgramRx} (acc₁ : List UInt64),
          rx₁.noise.recvKey = rx.noise.recvKey → rx₁.noise.recvWindow.Tracks (acc₁ ++ acc) →
          recvLoop C select rx₁ queue = (f, rx', queue') →
          ∃ taken acc', datagram :: queue = taken ++ queue'
            ∧ rx'.noise.recvKey = rx.noise.recvKey
            ∧ rx'.noise.recvWindow.Tracks (acc' ++ acc)
            ∧ ∀ fr, f = some fr → ∃ nonce ∈ acc', nonce ∉ acc
                ∧ Came C rx.noise.recvKey taken nonce fr := by
        intro rx₁ acc₁ hkey ht₁ h₁
        obtain ⟨taken, acc', rfl, hkey', ht', hf⟩ := ih ht₁ h₁
        refine ⟨datagram :: taken, acc' ++ acc₁, rfl, hkey'.trans hkey, ?_, ?_⟩
        · rw [List.append_assoc]
          exact ht'
        · intro fr hfr
          obtain ⟨nonce, hmem, hnew, hcame⟩ := hf fr hfr
          refine ⟨nonce, List.mem_append_left _ hmem, ?_, ?_⟩
          · exact fun hacc => hnew (List.mem_append_right _ hacc)
          · rw [← hkey]
            exact hcame.mono (List.subset_cons_self datagram taken)
      rw [recvLoop] at h
      split at h
      · rename_i rx₁ htake
        rcases take_cases htake with ⟨-, hnoise⟩ | ⟨nonce, ct, p, w, rest, rfl, _, hw, hnoise, _, _⟩
        · exact hrest [] (by rw [hnoise]) (by rw [hnoise]; exact ht) h
        · have ht₁ := (ht.checkAndMark hw).2
          exact hrest [nonce] (by rw [hnoise]) (by rw [hnoise]; exact ht₁) h
      · rename_i n rx₁ htake
        rcases take_cases htake with ⟨hn, -⟩ | ⟨nonce, ct, p, w, rest, rfl, hdec, hw, hnoise, hbody, hn⟩
        · cases hn
        · obtain ⟨rfl, hp⟩ := hn n rfl
          obtain ⟨hnew, ht₁⟩ := ht.checkAndMark hw
          split at h
          · exact hrest [nonce] (by rw [hnoise]) (by rw [hnoise]; exact ht₁) h
          · rename_i fr hfr
            obtain ⟨rfl, hq⟩ := Prod.mk.inj h
            obtain ⟨rfl, rfl⟩ := Prod.mk.inj hq
            refine ⟨[u64Bytes nonce ++ ct], [nonce], rfl, by rw [hnoise], by rw [hnoise]; exact ht₁, ?_⟩
            intro fr' hfr'
            obtain rfl := Option.some.inj hfr'
            refine ⟨nonce, List.mem_cons_self, hnew, ct, p, List.mem_cons_self, hdec, ?_⟩
            exact hsel rx₁ _ p rest fr (length_u64Bytes nonce) hbody hp hfr

end DgramRx

/-! ### Every state of a link -/

namespace Link

variable {C : Cipher UInt8} {key : List UInt8} {s t : Link}

/-- The nonces of the calls that have got one. -/
def nonces (s : Link) : List UInt64 :=
  (s.sealed ++ s.pending).map Packet.nonce

/-- What holds in every state: the calls have nonces of their own below the counter, a sealed
packet is the encryption of its call, and each returned frame came with a nonce of its own. -/
structure Inv (C : Cipher UInt8) (key : List UInt8) (s : Link) : Prop where
  sendKey : s.noise.sendKey = key
  recvKey : s.rx.noise.recvKey = key
  nodup_nonces : s.nonces.Nodup
  lt_sendNonce : ∀ n ∈ s.nonces, n.toNat < s.noise.sendNonce.toNat
  pkt_pending : ∀ p ∈ s.pending, ∃ tx : DgramTx, p.pkt = tx.layOut p.call
  ciphertext_sealed : ∀ p ∈ s.sealed,
    p.ciphertext = C.aeadEncrypt key p.nonce [] (p.call.kind :: p.call.payload)
  origins : ∃ acc origin, s.rx.noise.recvWindow.Tracks acc ∧ origin.Nodup ∧ origin ⊆ acc
    ∧ List.Forall₂ (DgramRx.Came C key s.consumed) origin s.returned

theorem inv_fresh (C : Cipher UInt8) (keys : Keys UInt8) (tags : List UInt32)
    (socketCap slotCap : ℕ) :
  Inv C keys.sendKey (fresh keys tags socketCap slotCap)
  where
  sendKey := rfl
  recvKey := rfl
  nodup_nonces := List.nodup_nil
  lt_sendNonce _ h := by cases h
  pkt_pending _ h := by cases h
  ciphertext_sealed _ h := by cases h
  origins := ⟨[], [], ReplayWindow.tracks_fresh, List.nodup_nil, List.Subset.refl [],
    List.Forall₂.nil⟩

/-- The queues and buffers do not matter. -/
theorem Inv.of_eq (h : Inv C key s) (hnoise : t.noise = s.noise) (hpending : t.pending = s.pending)
    (hsealed : t.sealed = s.sealed) (hrx : t.rx.noise = s.rx.noise)
    (hconsumed : t.consumed = s.consumed) (hreturned : t.returned = s.returned) :
  Inv C key t
  := by
  have hnonces : t.nonces = s.nonces := by rw [nonces, nonces, hsealed, hpending]
  constructor
  · rw [hnoise]
    exact h.sendKey
  · rw [hrx]
    exact h.recvKey
  · rw [hnonces]
    exact h.nodup_nonces
  · rw [hnonces, hnoise]
    exact h.lt_sendNonce
  · rw [hpending]
    exact h.pkt_pending
  · rw [hsealed]
    exact h.ciphertext_sealed
  · rw [hrx, hconsumed, hreturned]
    exact h.origins

theorem Inv.start (h : Inv C key s) (sender : ℕ) (tx : DgramTx) (call : Call) :
  Inv C key (s.start sender tx call)
  := by
  cases hnext : s.noise.nextNonce with
  | mk r noise =>
  cases r with
  | error e =>
      obtain rfl := StatelessNoise.nextNonce_eq_error hnext
      apply h.of_eq <;> simp [Link.start, hnext]
  | ok nonce =>
      obtain ⟨rfl, hlt, rfl⟩ := StatelessNoise.nextNonce_eq_ok hnext
      have hnonces : (s.start sender tx call).nonces = s.nonces ++ [s.noise.sendNonce] := by
        simp [Link.start, hnext, nonces]
      have hcounter : (s.start sender tx call).noise.sendNonce = s.noise.sendNonce + 1 := by
        simp [Link.start, hnext]
      have hsucc : (s.noise.sendNonce + 1).toNat = s.noise.sendNonce.toNat + 1 := by
        rw [UInt64.toNat_add]
        exact Nat.mod_eq_of_lt hlt
      constructor
      · simpa [Link.start, hnext] using h.sendKey
      · simpa [Link.start, hnext] using h.recvKey
      · rw [hnonces, List.nodup_append]
        refine ⟨h.nodup_nonces, List.nodup_singleton _, ?_⟩
        intro n hn m hm
        have := h.lt_sendNonce n hn
        rw [List.mem_singleton.mp hm]
        rintro rfl
        omega
      · rw [hnonces, hcounter, hsucc]
        intro n hn
        rcases List.mem_append.mp hn with hn | hn
        · have := h.lt_sendNonce n hn
          omega
        · rw [List.mem_singleton.mp hn]
          omega
      · intro p hp
        have hp' : p ∈ s.pending ++ [⟨sender, call, s.noise.sendNonce, tx.layOut call⟩] := by
          simpa [Link.start, hnext] using hp
        rcases List.mem_append.mp hp' with hp' | hp'
        · exact h.pkt_pending p hp'
        · rw [List.mem_singleton.mp hp']
          exact ⟨tx, rfl⟩
      · simpa [Link.start, hnext] using h.ciphertext_sealed
      · simpa [Link.start, hnext] using h.origins

/-- What a call seals is its kind and its payload. -/
theorem sealWith_layOut (noise : StatelessNoise UInt8) (nonce : UInt64) (tx : DgramTx) (call : Call) :
  (noise.sealWith C nonce (tx.layOut call) 5).drop 13
    = C.aeadEncrypt noise.sendKey nonce [] (call.kind :: call.payload)
  := by
  have hhead : (classDgram :: toBe 4 tx.tag.toNat).length = 5 := by
    rw [List.length_cons, length_toBe]
  have htake : (tx.layOut call).take 5 = classDgram :: toBe 4 tx.tag.toNat := by
    rw [DgramTx.layOut, List.append_assoc, List.take_left' hhead]
  have hdrop : (tx.layOut call).drop (5 + 8) = call.kind :: call.payload := by
    rw [DgramTx.layOut, List.drop_left' (by rw [List.length_append, hhead]; rfl)]
  rw [StatelessNoise.sealWith, htake, hdrop]
  apply List.drop_left'
  rw [List.length_append, hhead, length_u64Bytes]

/-- A call that finishes moves from one list to the other. -/
theorem finish_eq (C : Cipher UInt8) (s : Link) (i : ℕ) (p : Packet) :
  ∃ socket senders, s.finish C i p =
    { s with
      pending := s.pending.eraseIdx i
      sealed := s.sealed ++ [{ p with pkt := s.noise.sealWith C p.nonce p.pkt 5 }]
      socket
      senders }
  := by
  rw [Link.finish]
  split <;> exact ⟨_, _, rfl⟩

theorem Inv.finish {i : ℕ} {p : Packet} (h : Inv C key s) (hp : s.pending[i]? = some p) :
  Inv C key (s.finish C i p)
  := by
  obtain ⟨socket, senders, hfinish⟩ := finish_eq C s i p
  -- the call keeps its nonce
  have hperm : (s.finish C i p).nonces.Perm s.nonces := by
    obtain ⟨hi, rfl⟩ := List.getElem?_eq_some_iff.mp hp
    have hcons : (s.pending[i] :: s.pending.eraseIdx i).Perm s.pending :=
      List.getElem_cons_eraseIdx_perm hi
    rw [hfinish, nonces, nonces, List.append_assoc, List.map_append, List.map_append,
      List.map_append]
    exact List.Perm.append_left _ (hcons.map Packet.nonce)
  constructor
  · rw [hfinish]
    exact h.sendKey
  · rw [hfinish]
    exact h.recvKey
  · exact hperm.nodup_iff.mpr h.nodup_nonces
  · intro n hn
    rw [hfinish]
    exact h.lt_sendNonce n (hperm.mem_iff.mp hn)
  · intro p' hp'
    rw [hfinish] at hp'
    exact h.pkt_pending p' (List.mem_of_mem_eraseIdx hp')
  · intro p' hp'
    rw [hfinish] at hp'
    rcases List.mem_append.mp hp' with hp' | hp'
    · exact h.ciphertext_sealed p' hp'
    · obtain rfl := List.mem_singleton.mp hp'
      obtain ⟨tx, htx⟩ := h.pkt_pending p (List.mem_of_getElem? hp)
      rw [Packet.ciphertext, htx, sealWith_layOut, h.sendKey]
  · rw [hfinish]
    exact h.origins

theorem Inv.receive {select : DgramRx → ℕ → Option Frame} (h : Inv C key s)
    (hsel : DgramRx.Honest select) :
  Inv C key (s.receive C select)
  := by
  obtain ⟨acc, origin, ht, hnodup, hsub, hcame⟩ := h.origins
  rcases hloop : DgramRx.recvLoop C select s.rx s.rx.inbound.rx.items with ⟨f, rx, items⟩
  obtain ⟨taken, acc', hitems, hkey, ht', hf⟩ := DgramRx.recvLoop_spec hsel ht hloop
  have htaken : s.rx.inbound.rx.items.take (s.rx.inbound.rx.items.length - items.length) = taken := by
    rw [hitems]
    apply List.take_left'
    rw [List.length_append]
    omega
  have hreceive : s.receive C select =
      { s with
        rx := { rx with inbound := { rx.inbound with rx := { rx.inbound.rx with items } } }
        consumed := s.consumed ++ taken
        returned := s.returned ++ f.toList } := by
    simp only [Link.receive, DgramRx.poll, hloop, htaken]
  rw [hreceive]
  rw [h.recvKey] at hkey hf
  have hcame' : List.Forall₂ (DgramRx.Came C key (s.consumed ++ taken)) origin s.returned :=
    hcame.imp fun _ _ hc => hc.mono (List.subset_append_left _ _)
  refine ⟨h.sendKey, hkey, h.nodup_nonces, h.lt_sendNonce, h.pkt_pending, h.ciphertext_sealed, ?_⟩
  cases f with
  | none =>
      refine ⟨acc' ++ acc, origin, ht', hnodup, ?_, ?_⟩
      · exact List.Subset.trans hsub (List.subset_append_right acc' acc)
      · rw [Option.toList_none, List.append_nil]
        exact hcame'
  | some fr =>
      obtain ⟨nonce, hmem, hnew, hfr⟩ := hf fr rfl
      refine ⟨acc' ++ acc, origin ++ [nonce], ht', ?_, ?_, ?_⟩
      · rw [List.nodup_append]
        refine ⟨hnodup, List.nodup_singleton nonce, ?_⟩
        rintro m hm n hn rfl
        rw [List.mem_singleton] at hn
        exact hnew (hn ▸ hsub hm)
      · apply List.append_subset.mpr
        constructor
        · exact List.Subset.trans hsub (List.subset_append_right acc' acc)
        · exact List.cons_subset.mpr ⟨List.mem_append_left acc hmem, List.nil_subset _⟩
      · apply List.rel_append hcame'
        exact List.Forall₂.cons (hfr.mono (List.subset_append_right _ _)) List.Forall₂.nil

theorem Inv.step {e : Event} (h : Inv C key s) (hstep : s.step C e = some t) :
  Inv C key t
  := by
  cases e with
  | start sender call =>
      obtain ⟨tx, _, rfl⟩ := Option.map_eq_some_iff.mp hstep
      apply h.start
  | finish i =>
      obtain ⟨p, hp, rfl⟩ := Option.map_eq_some_iff.mp hstep
      apply h.finish hp
  | written =>
      rw [Link.step] at hstep
      split at hstep
      · cases hstep
      · obtain rfl := Option.some.inj hstep
        apply h.of_eq <;> rfl
  | close =>
      obtain rfl := Option.some.inj hstep
      apply h.of_eq <;> rfl
  | deliver body =>
      rw [Link.step] at hstep
      split at hstep
      obtain rfl := Option.some.inj hstep
      apply h.of_eq <;> rfl
  | recv =>
      obtain rfl := Option.some.inj hstep
      apply h.receive DgramRx.honest_frame?
  | recvData =>
      obtain rfl := Option.some.inj hstep
      apply h.receive DgramRx.honest_data?

theorem inv_of_run {keys : Keys UInt8} {tags : List UInt32} {socketCap slotCap : ℕ}
    {es : List Event}
    (h : Run (fun s e t => s.step C e = some t) (fresh keys tags socketCap slotCap) es s) :
  Inv C keys.sendKey s
  := h.invariant (inv_fresh C keys tags socketCap slotCap) fun _ _ _ => Inv.step

/-- A frame that came with a nonce comes from the packet that was sealed with it. -/
theorem Inv.exists_sealed {nonce : UInt64} {f : Frame} (h : Inv C key s) (hC : C.Lawful)
    (hu : s.Unforged C) (hcame : DgramRx.Came C key s.consumed nonce f) :
  ∃ j : Fin s.sealed.length, s.sealed[j].nonce = nonce ∧ f = s.sealed[j].call.frame
  := by
  obtain ⟨ct, p, hmem, hdec, hreads⟩ := hcame
  obtain ⟨q, hq, rfl, rfl⟩ := hu nonce ct p hmem (by rw [h.recvKey]; exact hdec)
  rw [h.ciphertext_sealed q hq, hC.decrypt_encrypt, Option.some.injEq] at hdec
  obtain ⟨j, hj⟩ := List.get_of_mem hq
  refine ⟨j, congrArg Packet.nonce hj, ?_⟩
  subst hdec
  rw [DgramRx.eq_frame_of_reads hreads]
  exact congrArg (fun q => q.call.frame) hj.symm

/-- However the calls of the senders are interleaved and whatever the network does, as long as
nothing is forged: each frame returned is that of a call whose packet was sealed, different
frames come from different packets, and no two calls have the same nonce. -/
theorem at_most_once {keys : Keys UInt8} {tags : List UInt32} {socketCap slotCap : ℕ}
    {es : List Event} (hC : C.Lawful)
    (h : Run (fun s e t => s.step C e = some t) (fresh keys tags socketCap slotCap) es s)
    (hu : s.Unforged C) :
  (∃ origin : Fin s.returned.length → Fin s.sealed.length, Function.Injective origin
      ∧ ∀ i, s.returned[i] = s.sealed[origin i].call.frame)
    ∧ s.nonces.Nodup
  := by
  have hinv := inv_of_run h
  refine ⟨?_, hinv.nodup_nonces⟩
  obtain ⟨acc, nonces, _, hnodup, _, hcame⟩ := hinv.origins
  have hlen : nonces.length = s.returned.length := hcame.length_eq
  have hsealed : ∀ i : Fin s.returned.length, ∃ j : Fin s.sealed.length,
      s.sealed[j].nonce = nonces[i] ∧ s.returned[i] = s.sealed[j].call.frame := by
    intro i
    apply hinv.exists_sealed hC hu
    exact List.forall₂_iff_get.mp hcame |>.2 i (by omega) i.isLt
  choose origin hnonce hframe using hsealed
  refine ⟨origin, ?_, hframe⟩
  intro i j hij
  have heq : nonces[i] = nonces[j] := by rw [← hnonce i, ← hnonce j, hij]
  exact Fin.ext ((hnodup.getElem_inj_iff).mp heq)

/-- Whether anything was forged can be read off the datagrams taken. -/
theorem unforged_of_forall
    (h : ∀ d ∈ s.consumed, (ofU64Bytes (d.take 8)).all fun nonce =>
      (C.aeadDecrypt s.rx.noise.recvKey nonce [] (d.drop 8)).isSome →
      ∃ q ∈ s.sealed, q.nonce = nonce ∧ q.ciphertext = d.drop 8) :
  s.Unforged C
  := by
  intro nonce ct p hmem hdec
  have htake : (u64Bytes nonce ++ ct).take 8 = u64Bytes nonce :=
    List.take_left' (length_u64Bytes nonce)
  have hdrop : (u64Bytes nonce ++ ct).drop 8 = ct :=
    List.drop_left' (length_u64Bytes nonce)
  have h' := h _ hmem
  rw [htake, hdrop, ofU64Bytes_u64Bytes, Option.all_some, decide_eq_true_iff] at h'
  exact h' (by rw [hdec]; rfl)

/-- Two calls that finish in the other order, and a network that repeats the packet of the first
and makes up another one. -/
def repeats : List Event :=
  let body := u64Bytes 0 ++ Cipher.clear.aeadEncrypt [1] 0 [] [kindData, 7]
  let probe := u64Bytes 1 ++ Cipher.clear.aeadEncrypt [1] 1 [] [kindKeepalive]
  [.start 0 (.send [7]), .start 1 .probe, .finish 1, .finish 0, .written, .deliver body,
    .deliver (body.map (· + 1)), .deliver body, .deliver probe, .recv, .recv, .recv]

theorem at_most_once_repeats :
  ∃ s : Link, s.returned = [.data [7], .keepalive] ∧ s.consumed.length = 4
    ∧ (∃ origin : Fin s.returned.length → Fin s.sealed.length, Function.Injective origin
        ∧ ∀ i, s.returned[i] = s.sealed[origin i].call.frame)
    ∧ s.nonces.Nodup
  := by
  let s := (execute (fun _ _ => True) (step Cipher.clear) (fresh ⟨[1], [2]⟩ [9, 10] 4 8)
    repeats).get (by decide)
  have hrun := run_of_execute (Option.some_get (by decide) :
    _ = execute (fun _ _ => True) (step Cipher.clear) (fresh ⟨[1], [2]⟩ [9, 10] 4 8) repeats).symm
  have hu : s.Unforged Cipher.clear := by
    apply unforged_of_forall
    decide
  refine ⟨s, by decide, by decide, ?_⟩
  exact at_most_once Cipher.lawful_clear (hrun.mono fun _ _ _ h => h.2) hu

end Link

end ZeroNat.Dgram

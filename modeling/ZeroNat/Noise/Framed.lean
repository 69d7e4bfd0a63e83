import ZeroNat.Client.Codec
import ZeroNat.Noise.Stream
import ZeroNat.Proto.Canonical

/-!
# Messages and frames

A message is sent with one call and decoded from what one call of the reader returns.  The writer
splits a plaintext that does not fit one frame, and the reader returns one frame.  So a message
arrives exactly when its encoding fits a frame.
-/

namespace ZeroNat

/-! ### Messages that fit a frame -/

theorem strFits_of_length {s : String} (h : (putStr s).length ≤ maxPlaintext) :
  StrFits s
  := by
  rw [putStr, List.length_append] at h
  rw [StrFits, u16Max]
  rw [maxPlaintext] at h
  omega

/-- A list whose entries take a byte each is counted when it fits a frame. -/
theorem listFits_of_length {α : Type} (put : α → List UInt8) {l : List α}
    (hput : ∀ a, 0 < (put a).length) (h : (putList put l).length ≤ maxPlaintext) :
  ListFits l
  := by
  by_contra hlong
  have hcount : u16Max ≤ ((l.take u16Max).flatMap put).length := by
    have hone : ∀ k : List α, k.length ≤ (k.flatMap put).length := by
      intro k
      induction k with
      | nil => simp
      | cons a k ih =>
          have hpos := hput a
          rw [List.flatMap_cons, List.length_append, List.length_cons]
          omega
    have hlength := hone (l.take u16Max)
    rw [List.length_take, Nat.min_eq_left (by rw [ListFits] at hlong; omega)] at hlength
    exact hlength
  have hmin : min l.length u16Max = u16Max := by
    rw [ListFits] at hlong
    omega
  rw [putList, putCount] at h
  dsimp only at h
  rw [hmin, List.length_append] at h
  rw [maxPlaintext] at h
  rw [u16Max] at hcount h
  omega

/-- The entries of a list are not longer than the list. -/
theorem length_le_of_mem {α : Type} (put : α → List UInt8) {l : List α} {a : α} (hl : ListFits l)
    (ha : a ∈ l) :
  (put a).length ≤ (putList put l).length
  := by
  obtain ⟨front, back, rfl⟩ := List.append_of_mem ha
  rw [putList, putCount]
  dsimp only
  rw [Nat.min_eq_left hl, List.take_length, List.flatMap_append, List.flatMap_cons]
  simp only [List.length_append]
  omega

namespace Msg

/-- The bytes that stand for a choice are ones the program has, and the addresses carry nothing
that the wire does not. -/
def Known : Msg → Prop
  | snapshot snap => (∀ c ∈ snap.clients, IsTransport c.transport)
      ∧ (∀ r ∈ snap.routes, IsRouteState r.state)
      ∧ (∀ e ∈ snap.bridgeClients, IsTransport e.transport) ∧ ∀ p ∈ snap.pairs, IsWant p.want
  | openProxy _ _ _ peer localAddr => peer.Plain ∧ localAddr.Plain
  | peerAnnounce provides _ => IsProvides provides
  | peerAnnounceAck observed => observed.Plain
  | peerConnect _ want => IsWant want
  | peerResult _ want _ _ => IsWant want
  | peerProbe _ _ _ _ _ provides => IsWant provides
  | peerInfo _ candidates => ∀ a ∈ candidates, a.Plain
  | _ => True

theorem snapshot_fits {snap : SnapshotBody} (hknown : (snapshot snap).Known)
    (h : (snapshot snap).encode.length ≤ maxPlaintext) :
  snap.InRange ∧ snap.Fits
  := by
  obtain ⟨hclients, hroutes, hbridges, hpairs⟩ := hknown
  simp only [encode, List.length_append] at h
  have hlisteners : ListFits snap.listeners :=
    listFits_of_length putListener (by simp [putListener]) (by omega)
  have hclientsFit : ListFits snap.clients :=
    listFits_of_length putClient (by simp [putClient]) (by omega)
  have hroutesFit : ListFits snap.routes :=
    listFits_of_length putRoute (by simp [putRoute]) (by omega)
  have hbridgesFit : ListFits snap.bridgeClients :=
    listFits_of_length putBridge (by simp [putBridge]) (by omega)
  have hpairsFit : ListFits snap.pairs :=
    listFits_of_length putPair (by simp [putPair]) (by omega)
  -- What is in an entry is not longer than the entry, and so not longer than the message.
  have hclient : ∀ c ∈ snap.clients, StrFits c.clientId ∧ ListFits c.fwd := by
    intro c hc
    have hle := length_le_of_mem putClient hclientsFit hc
    rw [putClient, putFwdEntries, List.length_append, List.length_append] at hle
    exact ⟨strFits_of_length (by omega),
      listFits_of_length putFwdEntry (by simp [putFwdEntry]) (by omega)⟩
  have hroute : ∀ r ∈ snap.routes, StrFits r.clientId := by
    intro r hr
    have hle := length_le_of_mem putRoute hroutesFit hr
    simp only [putRoute, List.length_append] at hle
    exact strFits_of_length (by omega)
  have hbridge : ∀ e ∈ snap.bridgeClients, StrFits e.label ∧ StrFits e.peer ∧ ListFits e.macs := by
    intro e he
    have hle := length_le_of_mem putBridge hbridgesFit he
    simp only [putBridge, List.length_append] at hle
    exact ⟨strFits_of_length (by omega), strFits_of_length (by omega),
      listFits_of_length putMac (by simp [putMac, putBytes]) (by omega)⟩
  have hpair : ∀ p ∈ snap.pairs, StrFits p.consumerId ∧ StrFits p.providerId := by
    intro p hp
    have hle := length_le_of_mem putPair hpairsFit hp
    simp only [putPair, List.length_append] at hle
    exact ⟨strFits_of_length (by omega), strFits_of_length (by omega)⟩
  constructor
  · refine ⟨strFits_of_length (by omega), ?_, ?_, ?_, ?_⟩
    · intro c hc
      exact ⟨(hclient c hc).1, hclients c hc⟩
    · intro r hr
      exact ⟨hroute r hr, hroutes r hr⟩
    · intro e he
      exact ⟨(hbridge e he).1, hbridges e he, (hbridge e he).2.1⟩
    · intro p hp
      exact ⟨(hpair p hp).1, (hpair p hp).2, hpairs p hp⟩
  · refine ⟨hlisteners, ⟨hclientsFit, ?_⟩, hroutesFit, ⟨hbridgesFit, ?_⟩, hpairsFit⟩
    · intro c hc
      exact (hclient c hc).2
    · intro e he
      exact (hbridge e he).2.2

/-- A message whose encoding fits a frame can be decoded. -/
theorem inRange_of_length {m : Msg} (hknown : m.Known) (h : m.encode.length ≤ maxPlaintext) :
  m.InRange ∧ m.Fits
  := by
  cases m with
  | snapshot snap => exact snapshot_fits hknown h
  | clientHello version clientId =>
      simp only [encode, List.length_append] at h
      exact ⟨strFits_of_length (by omega), trivial⟩
  | clientHelloAck clientId bridgeCapability =>
      simp only [encode, List.length_append] at h
      exact ⟨strFits_of_length (by omega), trivial⟩
  | setRoute bindIp proto port clientId =>
      simp only [encode, List.length_append] at h
      exact ⟨strFits_of_length (by omega), trivial⟩
  | mutationResult ok msg =>
      simp only [encode, List.length_append] at h
      exact ⟨strFits_of_length (by omega), trivial⟩
  | fwdOptions entries =>
      simp only [encode, List.length_append, putFwdEntries] at h
      exact ⟨trivial, listFits_of_length putFwdEntry (by simp [putFwdEntry]) (by omega)⟩
  | peerInfo pairId candidates =>
      simp only [encode, List.length_append] at h
      exact ⟨hknown, listFits_of_length putSockaddr (by simp [putSockaddr]) (by omega)⟩
  | addClient clientId secret =>
      simp only [encode, clientCredential, List.length_append] at h
      exact ⟨strFits_of_length (by omega), trivial⟩
  | setClientSecret clientId secret =>
      simp only [encode, clientCredential, List.length_append] at h
      exact ⟨strFits_of_length (by omega), trivial⟩
  | removeClient clientId =>
      simp only [encode, List.length_append] at h
      exact ⟨strFits_of_length (by omega), trivial⟩
  | disconnectClient clientId =>
      simp only [encode, List.length_append] at h
      exact ⟨strFits_of_length (by omega), trivial⟩
  | _ => exact ⟨hknown, trivial⟩

end Msg

namespace ClientMsg

/-- The capability bytes are ones the program has. -/
def Known : ClientMsg → Prop
  | clientSnapshot snap => ∀ p ∈ snap.peers, IsWant p.want
  | attachPeer _ want _ _ _ _ => IsWant want
  | detachPeer _ want => IsWant want
  | _ => True

theorem snapshot_fits {snap : ClientSnapshotBody} (hknown : (clientSnapshot snap).Known)
    (h : (clientSnapshot snap).encode.length ≤ maxPlaintext) :
  snap.InRange ∧ snap.Fits
  := by
  simp only [encode, List.length_append] at h
  have hforwards : ListFits snap.forwards :=
    listFits_of_length putForward (by simp [putForward]) (by omega)
  have hservers : ListFits snap.servers :=
    listFits_of_length putServer (by simp [putServer]) (by omega)
  have hpppoe : ListFits snap.pppoe :=
    listFits_of_length putStr (by simp [putStr]) (by omega)
  have hpeers : ListFits snap.peers :=
    listFits_of_length putPeerSlot (by simp [putPeerSlot]) (by omega)
  refine ⟨⟨strFits_of_length (by omega), ?_, ?_, ?_, strFits_of_length (by omega), ?_⟩,
    hforwards, hservers, hpppoe, hpeers⟩
  · intro f hf
    have hle := length_le_of_mem putForward hforwards hf
    simp only [putForward, List.length_append] at hle
    exact strFits_of_length (by omega)
  · intro e he
    have hle := length_le_of_mem putServer hservers he
    simp only [putServer, List.length_append] at hle
    exact ⟨strFits_of_length (by omega), strFits_of_length (by omega)⟩
  · intro name hname
    have hle := length_le_of_mem putStr hpppoe hname
    exact strFits_of_length (by omega)
  · intro p hp
    have hle := length_le_of_mem putPeerSlot hpeers hp
    simp only [putPeerSlot, List.length_append] at hle
    exact ⟨strFits_of_length (by omega), hknown p hp, strFits_of_length (by omega)⟩

/-- A message whose encoding fits a frame can be decoded. -/
theorem inRange_of_length {m : ClientMsg} (hknown : m.Known)
    (h : m.encode.length ≤ maxPlaintext) :
  m.InRange ∧ m.Fits
  := by
  cases m with
  | clientSnapshot snap => exact snapshot_fits hknown h
  | mutationResult ok msg =>
      simp only [encode, List.length_append] at h
      exact ⟨strFits_of_length (by omega), trivial⟩
  | selectServer name =>
      simp only [encode, named, List.length_append] at h
      exact ⟨strFits_of_length (by omega), trivial⟩
  | spawnPppoe name =>
      simp only [encode, named, List.length_append] at h
      exact ⟨strFits_of_length (by omega), trivial⟩
  | stopSession name =>
      simp only [encode, named, List.length_append] at h
      exact ⟨strFits_of_length (by omega), trivial⟩
  | addServer name addr secret transport =>
      simp only [encode, named, List.length_append] at h
      exact ⟨⟨strFits_of_length (by omega), strFits_of_length (by omega),
        strFits_of_length (by omega)⟩, trivial⟩
  | removeServer name =>
      simp only [encode, named, List.length_append] at h
      exact ⟨strFits_of_length (by omega), trivial⟩
  | connect name =>
      simp only [encode, named, List.length_append] at h
      exact ⟨strFits_of_length (by omega), trivial⟩
  | addForward proto port target proxy idleSecs enabled =>
      simp only [encode, List.length_append] at h
      exact ⟨strFits_of_length (by omega), trivial⟩
  | attachPeer peerId want dev exit exitStrict iface =>
      simp only [encode, named, List.length_append] at h
      exact ⟨⟨strFits_of_length (by omega), hknown, strFits_of_length (by omega),
        strFits_of_length (by omega)⟩, trivial⟩
  | detachPeer peerId want =>
      simp only [encode, named, List.length_append] at h
      exact ⟨⟨strFits_of_length (by omega), hknown⟩, trivial⟩
  | _ => exact ⟨trivial, trivial⟩

end ClientMsg

/-! ### What a call of the reader returns -/

/-- The first chunk of a plaintext is as much of it as fits. -/
theorem head?_chunks {α : Type} {size : ℕ} (hsize : 0 < size) {l : List α} (hl : l ≠ []) :
  (chunks size l).head? = some (l.take size)
  := by
  have hpos := List.length_pos_of_ne_nil hl
  have hcount : 0 < (l.length + size - 1) / size := Nat.div_pos (by omega) hsize
  obtain ⟨n, hn⟩ := Nat.exists_eq_succ_of_ne_zero hcount.ne'
  rw [chunks, hn, List.range_succ_eq_map, List.map_cons, List.head?_cons, Nat.zero_mul,
    List.drop_zero]

/-- A plaintext that fits is its only chunk. -/
theorem chunks_of_length_le {α : Type} {size : ℕ} {l : List α} (hl : l ≠ [])
    (h : l.length ≤ size) :
  chunks size l = [l]
  := by
  have hpos := List.length_pos_of_ne_nil hl
  have hcount : (l.length + size - 1) / size = 1 := by
    apply Nat.div_eq_of_lt_le
    · omega
    · omega
  rw [chunks, hcount]
  simp [List.take_of_length_le h]

namespace Connection

/-- The plaintext that a call is given to send. -/
def Event.plaintexts : Event → List (List UInt8)
  | .send plaintext => [plaintext]
  | _ => []

/-- The calls on a connection that carries messages: no probes, and no frame is skipped. -/
def Control (es : List Event) : Prop :=
  .probe ∉ es ∧ .recvData ∉ es

theorem flatMap_chunks {es : List Event} (hes : .probe ∉ es) :
  es.flatMap Event.chunks = (es.flatMap Event.plaintexts).flatMap (chunks maxPlaintext)
  := by
  induction es with
  | nil => rfl
  | cons e es ih =>
      rw [List.mem_cons, not_or] at hes
      rw [List.flatMap_cons, List.flatMap_cons, List.flatMap_append, ih hes.2]
      congr 1
      cases e with
      | send plaintext => simp [Event.chunks, Event.plaintexts]
      | probe => exact absurd rfl hes.1
      | _ => rfl

theorem flatMap_chunks_of_fits {front : List (List UInt8)}
    (hfront : ∀ q ∈ front, q ≠ [] ∧ q.length ≤ maxPlaintext) :
  front.flatMap (chunks maxPlaintext) = front
  := by
  induction front with
  | nil => rfl
  | cons q front ih =>
      obtain ⟨hq, hrest⟩ := List.forall_mem_cons.mp hfront
      rw [List.flatMap_cons, chunks_of_length_le hq.1 hq.2, ih hrest, List.singleton_append]

variable {C : Cipher UInt8} {key : List UInt8} {es : List Event} {s : Connection}

/-- After plaintexts that fit a frame each, the call for the next one returns as much of it as
fits. -/
theorem returned_of_fits (hC : C.Lawful)
    (h : Run (fun s e t => s.step C e = some t) (fresh key) es s) (hes : Control es)
    {front back : List (List UInt8)} {p body : List UInt8}
    (hsends : es.flatMap Event.plaintexts = front ++ p :: back)
    (hfront : ∀ q ∈ front, q ≠ [] ∧ q.length ≤ maxPlaintext) (hp : p ≠ [])
    (hbody : s.returned[front.length]? = some body) :
  body = p.take maxPlaintext
  := by
  have hinv := inv_of_run hC h
  obtain ⟨rest, hsent, -⟩ := hinv.frames
  rw [(hinv.plain (skips_eq h hes.2)).1] at hbody
  have hnext : s.sent[front.length]? = some body := by
    rw [hsent, List.getElem?_append_left (List.getElem?_eq_some_iff.mp hbody).1, hbody]
  obtain ⟨tail, htail⟩ := List.head?_eq_some_iff.mp
    (head?_chunks (show 0 < maxPlaintext by decide) hp)
  rw [sent_eq h, flatMap_chunks hes.1, hsends, List.flatMap_append, List.flatMap_cons,
    flatMap_chunks_of_fits hfront, htail, List.getElem?_append_right le_rfl, Nat.sub_self,
    List.cons_append, List.getElem?_cons_zero, Option.some.injEq] at hnext
  exact hnext.symm

/-- The call for a message returns its encoding exactly when that fits a frame. -/
theorem body_eq_iff {M : Type} {encode : M → List UInt8} (hencode : ∀ m, encode m ≠ [])
    (hC : C.Lawful) (h : Run (fun s e t => s.step C e = some t) (fresh key) es s)
    (hes : Control es) {ms rest : List M} {m : M} {body : List UInt8}
    (hsends : es.flatMap Event.plaintexts = (ms ++ m :: rest).map encode)
    (hms : ∀ m' ∈ ms, (encode m').length ≤ maxPlaintext)
    (hbody : s.returned[ms.length]? = some body) :
  body = (encode m).take maxPlaintext ∧ (body = encode m ↔ (encode m).length ≤ maxPlaintext)
  := by
  have heq : body = (encode m).take maxPlaintext := by
    rw [List.map_append, List.map_cons] at hsends
    apply returned_of_fits hC h hes hsends
    · intro q hq
      obtain ⟨m', hm', rfl⟩ := List.mem_map.mp hq
      exact ⟨hencode m', hms m' hm'⟩
    · exact hencode m
    · rwa [List.length_map]
  refine ⟨heq, ?_⟩
  rw [heq]
  constructor
  · intro hall
    rw [← hall]
    exact List.length_take_le _ _
  · exact List.take_of_length_le

end Connection

theorem Msg.encode_ne_nil (m : Msg) :
  m.encode ≠ []
  := by
  cases m with
  | _ => simp [Msg.encode, putU8, clientCredential]

theorem ClientMsg.encode_ne_nil (m : ClientMsg) :
  m.encode ≠ []
  := by
  cases m with
  | _ => simp [ClientMsg.encode, putU8, named]

/-- A message is decoded from a part of its encoding only if that is all of it. -/
theorem Msg.length_le_of_decode {m : Msg} (h : Msg.decode (m.encode.take maxPlaintext) = .ok m) :
  m.encode.length ≤ maxPlaintext
  := by
  have hlength := List.length_take_le maxPlaintext m.encode
  cases hb : m.encode.take maxPlaintext with
  | nil =>
      rcases List.take_eq_nil_iff.mp hb with hzero | hnil
      · exact absurd hzero (by decide)
      · exact absurd hnil m.encode_ne_nil
  | cons tag t =>
      rw [hb] at h hlength
      by_cases htag : Msg.LooseTag tag
      · -- The decoder takes the tag for all of a ping or a pong.
        rcases htag with rfl | rfl
        · have hping : Msg.decode (1 :: t) = .ok .ping := rfl
          rw [hping] at h
          rw [← Except.ok.inj h]
          decide
        · have hpong : Msg.decode (4 :: t) = .ok .pong := rfl
          rw [hpong] at h
          rw [← Except.ok.inj h]
          decide
      · rw [Msg.encode_of_decode htag h]
        exact hlength

theorem ClientMsg.length_le_of_decode {m : ClientMsg}
    (h : ClientMsg.decode (m.encode.take maxPlaintext) = .ok m) :
  m.encode.length ≤ maxPlaintext
  := by
  rw [ClientMsg.encode_of_decode h]
  exact List.length_take_le _ _

namespace Connection

variable {C : Cipher UInt8} {key : List UInt8} {es : List Event} {s : Connection}

/-- A message on a connection, after messages that fit a frame each: what the call for it returns
is its encoding, and is decoded to it, exactly when its encoding fits a frame. -/
theorem one_message_one_frame (hC : C.Lawful)
    (h : Run (fun s e t => s.step C e = some t) (fresh key) es s) (hes : Control es) :
  (∀ (ms rest : List Msg) (m : Msg) (body : List UInt8),
      es.flatMap Event.plaintexts = (ms ++ m :: rest).map Msg.encode
        → (∀ m' ∈ ms, m'.encode.length ≤ maxPlaintext) → s.returned[ms.length]? = some body
        → (body = m.encode ↔ m.encode.length ≤ maxPlaintext)
          ∧ (m.Known → (Msg.decode body = .ok m ↔ m.encode.length ≤ maxPlaintext)))
    ∧ ∀ (ms rest : List ClientMsg) (m : ClientMsg) (body : List UInt8),
      es.flatMap Event.plaintexts = (ms ++ m :: rest).map ClientMsg.encode
        → (∀ m' ∈ ms, m'.encode.length ≤ maxPlaintext) → s.returned[ms.length]? = some body
        → (body = m.encode ↔ m.encode.length ≤ maxPlaintext)
          ∧ (m.Known → (ClientMsg.decode body = .ok m ↔ m.encode.length ≤ maxPlaintext))
  := by
  constructor
  · intro ms rest m body hsends hms hbody
    obtain ⟨heq, hiff⟩ := body_eq_iff Msg.encode_ne_nil hC h hes hsends hms hbody
    refine ⟨hiff, fun hknown => ⟨?_, ?_⟩⟩
    · intro hdecode
      rw [heq] at hdecode
      exact Msg.length_le_of_decode hdecode
    · intro hlength
      obtain ⟨hrange, hfits⟩ := Msg.inRange_of_length hknown hlength
      rw [hiff.mpr hlength, Msg.decode_encode_of_fits hrange hfits]
  · intro ms rest m body hsends hms hbody
    obtain ⟨heq, hiff⟩ := body_eq_iff ClientMsg.encode_ne_nil hC h hes hsends hms hbody
    refine ⟨hiff, fun hknown => ⟨?_, ?_⟩⟩
    · intro hdecode
      rw [heq] at hdecode
      exact ClientMsg.length_le_of_decode hdecode
    · intro hlength
      obtain ⟨hrange, hfits⟩ := ClientMsg.inRange_of_length hknown hlength
      rw [hiff.mpr hlength, ClientMsg.decode_encode_of_fits hrange hfits]

/-- The result of a mutation that is sent and received. -/
def answered : List Event :=
  [.send (Msg.mutationResult true "ok").encode, .recv, .read 2, .read 22]

theorem one_message_one_frame_answered :
  ∃ s, Run (fun s e t => s.step Cipher.clear e = some t) (fresh [1]) answered s
    ∧ ∃ body, s.returned[0]? = some body
      ∧ (Msg.decode body = .ok (.mutationResult true "ok")
        ↔ (Msg.mutationResult true "ok").encode.length ≤ maxPlaintext)
  := by
  obtain ⟨s, hs, body, hbody⟩ : ∃ s,
      execute (fun _ _ => True) (step Cipher.clear) (fresh [1]) answered = some s
      ∧ ∃ body, s.returned[0]? = some body := ⟨_, rfl, _, rfl⟩
  have hrun := (run_of_execute hs).mono fun _ _ _ h => h.2
  refine ⟨s, hrun, body, hbody, ?_⟩
  have hframe := (one_message_one_frame Cipher.lawful_clear hrun ⟨by decide, by decide⟩).1
  exact (hframe [] [] (.mutationResult true "ok") body rfl (by simp) hbody).2 trivial

/-- A plaintext can always be sent first and be received to its end. -/
theorem exists_received (hC : C.Lawful) (key p : List UInt8) (hp : p ≠ []) :
  ∃ es s, Run (fun s e t => s.step C e = some t) (fresh key) es s ∧ Control es
    ∧ es.flatMap Event.plaintexts = [p] ∧ s.returned[0]? = some (p.take maxPlaintext)
  := by
  obtain ⟨s₁, hstep⟩ : ∃ s₁, (fresh key).step C (.send p) = some s₁ := ⟨_, rfl⟩
  have hsend : Run (fun s e t => s.step C e = some t) (fresh key) [.send p] s₁ :=
    Run.nil.snoc hstep
  obtain ⟨es, s, hrun, hes, -, hwire⟩ := (inv_of_run hC hsend).exists_drained hC
  have hall : Run (fun s e t => s.step C e = some t) (fresh key) (.send p :: es) s :=
    hsend.append hrun
  have hplaintexts : es.flatMap Event.plaintexts = [] := by
    apply List.flatMap_eq_nil_iff.mpr
    intro e he
    rcases hes e he with rfl | rfl
    · rfl
    · rfl
  have hcontrol : Control (.send p :: es) := by
    constructor
    · intro hmem
      rcases List.mem_cons.mp hmem with h | h
      · cases h
      · rcases hes _ h with h | h <;> cases h
    · intro hmem
      rcases List.mem_cons.mp hmem with h | h
      · cases h
      · rcases hes _ h with h | h <;> cases h
  refine ⟨.send p :: es, s, hall, hcontrol, ?_, ?_⟩
  · rw [List.flatMap_cons, hplaintexts]
    rfl
  · have hinv := inv_of_run hC hall
    rw [(hinv.plain (skips_eq hall hcontrol.2)).1, hinv.decrypted_eq hC hwire, sent_eq hall,
      flatMap_chunks hcontrol.1]
    rw [List.flatMap_cons, hplaintexts, Event.plaintexts, List.append_nil,
      List.flatMap_singleton, ← List.head?_eq_getElem?, head?_chunks (by decide) hp]

end Connection

/-! ### The forward options of a client -/

/-- A forward as the control loop of a client consults it. -/
structure ForwardTarget where
  target : String
  proxy : Bool
  idle : Option ℕ

/-- The entries of the forwards of one protocol that carry an option. -/
def fwdEntries (proto : Proto) (map : List (UInt16 × ForwardTarget)) : List FwdOptionEntry :=
  map.filterMap fun e =>
    if e.2.proxy ∨ e.2.idle.isSome then
      some ⟨proto, e.1, e.2.proxy, UInt32.ofNat (e.2.idle.getD 0)⟩
    else none

/-- The entries that a client announces to the server. -/
def fwdOptions (tcp udp : List (UInt16 × ForwardTarget)) : List FwdOptionEntry :=
  fwdEntries .tcp tcp ++ fwdEntries .udp udp

theorem length_fwdEntries {proto : Proto} {map : List (UInt16 × ForwardTarget)}
    (h : ∀ e ∈ map, e.2.proxy = true) :
  (fwdEntries proto map).length = map.length
  := by
  induction map with
  | nil => rfl
  | cons e map ih =>
      obtain ⟨he, hmap⟩ := List.forall_mem_cons.mp h
      have hrest := ih hmap
      rw [fwdEntries] at hrest ⊢
      simp [he, hrest]

theorem length_putFwdEntries {entries : List FwdOptionEntry} (h : ListFits entries) :
  (putFwdEntries entries).length = 2 + 8 * entries.length
  := by
  have hflat : ∀ l : List FwdOptionEntry, (l.flatMap putFwdEntry).length = 8 * l.length := by
    intro l
    induction l with
    | nil => rfl
    | cons e l ih =>
        rw [List.flatMap_cons, List.length_append, ih, List.length_cons, Nat.mul_succ,
          Nat.add_comm]
        simp [putFwdEntry]
  rw [putFwdEntries, putList, putCount]
  dsimp only
  rw [Nat.min_eq_left h, List.take_length, List.length_append, length_putU16, hflat]

/-- Forwards of many ports that ask for the proxy header. -/
def proxiedForwards : List (UInt16 × ForwardTarget) :=
  (List.range 8200).map fun n => (UInt16.ofNat (n + 1), ⟨"127.0.0.1:8080", true, none⟩)

theorem length_proxied :
  maxPlaintext < (Msg.fwdOptions (fwdOptions proxiedForwards [])).encode.length
  := by
  have hall : ∀ e ∈ proxiedForwards, e.2.proxy = true := by
    intro e he
    obtain ⟨n, -, rfl⟩ := List.mem_map.mp he
    rfl
  have hcount : (fwdOptions proxiedForwards []).length = 8200 := by
    rw [fwdOptions, List.length_append, length_fwdEntries hall, proxiedForwards, List.length_map,
      List.length_range]
    rfl
  have hfits : ListFits (fwdOptions proxiedForwards []) := by
    rw [ListFits, hcount]
    decide
  rw [Msg.encode, List.length_append, length_putFwdEntries hfits, hcount]
  decide

/-- The options of the forwards do not fit a frame, and what the server receives is not decoded
to them. -/
theorem forwards_cut :
  ∃ es s body,
    Run (fun s e t => Connection.step Cipher.clear s e = some t) (Connection.fresh [1]) es s
      ∧ Connection.Control es
      ∧ es.flatMap Connection.Event.plaintexts
        = [(Msg.fwdOptions (fwdOptions proxiedForwards [])).encode]
      ∧ s.returned[0]? = some body
      ∧ body ≠ (Msg.fwdOptions (fwdOptions proxiedForwards [])).encode
      ∧ Msg.decode body ≠ .ok (Msg.fwdOptions (fwdOptions proxiedForwards []))
  := by
  have hlong := length_proxied
  obtain ⟨es, s, hrun, hes, hsends, hbody⟩ := Connection.exists_received Cipher.lawful_clear [1]
    (Msg.fwdOptions (fwdOptions proxiedForwards [])).encode (Msg.encode_ne_nil _)
  refine ⟨es, s, _, hrun, hes, hsends, hbody, ?_, ?_⟩
  · intro heq
    have hlength := List.length_take_le maxPlaintext
      (Msg.fwdOptions (fwdOptions proxiedForwards [])).encode
    rw [heq] at hlength
    omega
  · intro hdecode
    exact absurd (Msg.length_le_of_decode hdecode) (Nat.not_le.mpr hlong)

end ZeroNat

import ZeroNat.Noise.Xx

/-!
# The inner handshake of a pair

The consumer of a pair runs the initiator of an XX handshake and the provider its responder, over
a path that carries whole frames and may lose them.  Each side repeats its last message until
the exchange completes; the provider ends it with a verdict sealed under the transport keys, and
repeats that too when the message it answers comes again.

A side is a machine that is driven by the frames of its path and by the ticks of its retry
timer, and tells which frames it sends.
-/

namespace ZeroNat.Peer

def frameHandshake : UInt8 := 0x00
def frameSession : UInt8 := 0x01

def verdictReady : UInt8 := 0x00
def verdictRefused : UInt8 := 0x01

def kindData : UInt8 := 0x00
def kindKeepalive : UInt8 := 0x01

/-- What one datagram holds, less what the hop below and this layer spend on a frame. -/
def maxFrame : ℕ := 65507 - (1 + 4 + 1 + 24) - (1 + 24 + 1)

def protoVersion : UInt8 := 8

/-- What one party brings to the handshake: its static private key, the identity that it expects
on the other end, and the challenge and the capability of the pair. -/
structure PairIdentity (β : Type) where
  staticPrivate : List β
  peer : List β
  challenge : List β
  provides : UInt8

/-- A responder's answer to a message three that it has handled. -/
structure Retransmit (β : Type) where
  seen : List β
  reply : List β

/-- A completed handshake, and then the session that runs on it: the transport state, the answer
to a repeated message three, and the refusal that the verdict carried. -/
structure Handshaked (β : Type) where
  noise : StatelessNoise β
  retransmit : Option (Retransmit β)
  refused : Option (List β)

/-- Why a handshake failed. -/
inductive HandshakeError (β : Type) where
  | mismatch (expected presented : List β)
  | refused (reason : List β)
  | other (message : String)

variable {β : Type} [Alphabet β]

/-- The transcript prologue that both parties must agree on. -/
def pairPrologue (pairId : UInt64) (provides : UInt8) (consumer provider challenge : List β) :
    List β :=
  lit (utf8 "zeronat-peer-noise-v1") ++ lit [protoVersion] ++ u64Bytes pairId ++ lit [provides]
    ++ consumer ++ provider ++ challenge

/-- Two parties with the same prologue agree on everything in it. -/
theorem pairPrologue_injective {pairId pairId' : UInt64} {provides provides' : UInt8}
    {consumer consumer' provider provider' challenge challenge' : List β}
    (h : pairPrologue pairId provides consumer provider challenge
      = pairPrologue pairId' provides' consumer' provider' challenge')
    (hconsumer : consumer.length = consumer'.length) (hprovider : provider.length = provider'.length) :
  pairId = pairId' ∧ provides = provides' ∧ consumer = consumer' ∧ provider = provider'
    ∧ challenge = challenge'
  := by
  rw [pairPrologue, pairPrologue] at h
  obtain ⟨h, hchallenge⟩ := List.append_inj h (by simp [hconsumer, hprovider])
  obtain ⟨h, hp⟩ := List.append_inj h (by simp [hconsumer])
  obtain ⟨h, hc⟩ := List.append_inj h (by simp)
  obtain ⟨h, hprovides⟩ := List.append_inj h (by simp)
  obtain ⟨_, hid⟩ := List.append_inj h rfl
  exact ⟨u64Bytes_injective hid, (List.cons.inj (lit_injective hprovides)).1, hc, hp, hchallenge⟩

/-! ### Texts -/

/-- The character of a hexadecimal digit. -/
def hexDigit (n : ℕ) : UInt8 :=
  (utf8 "0123456789abcdef").getD n 0

/-- A key in hexadecimal.  An opaque symbol stands for its own digits. -/
def encode (bytes : List β) : List β :=
  bytes.flatMap fun x =>
    match Alphabet.toByte x with
    | some b => lit [hexDigit (b.toNat / 16), hexDigit (b.toNat % 16)]
    | none => [x, x]

/-- The length of the encoding that a leading byte announces, with the bounds of the byte that
may follow it. -/
def utf8Lead (b : UInt8) : Option (ℕ × UInt8 × UInt8) :=
  if b < 0x80 then some (1, 0x80, 0xbf)
  else if 0xc2 ≤ b ∧ b ≤ 0xdf then some (2, 0x80, 0xbf)
  else if b = 0xe0 then some (3, 0xa0, 0xbf)
  else if b = 0xed then some (3, 0x80, 0x9f)
  else if 0xe1 ≤ b ∧ b ≤ 0xef then some (3, 0x80, 0xbf)
  else if b = 0xf0 then some (4, 0x90, 0xbf)
  else if b = 0xf4 then some (4, 0x80, 0x8f)
  else if 0xf1 ≤ b ∧ b ≤ 0xf3 then some (4, 0x80, 0xbf)
  else none

/-- The bytes after a leading byte that go on with its encoding. -/
def utf8Tail : ℕ → UInt8 → UInt8 → List UInt8 → List UInt8
  | 0, _, _, _ => []
  | _, _, _, [] => []
  | n + 1, lo, hi, b :: rest =>
    if lo ≤ b ∧ b ≤ hi then b :: utf8Tail n 0x80 0xbf rest else []

/-- The bytes of a text in which every part that encodes no character is replaced, at most as
many bytes at a time as some character starts with. -/
def lossyBytes : ℕ → List UInt8 → List UInt8
  | 0, _ => []
  | _, [] => []
  | fuel + 1, b :: rest =>
    match utf8Lead b with
    | none => utf8 "\uFFFD" ++ lossyBytes fuel rest
    | some (n, lo, hi) =>
      let tail := utf8Tail (n - 1) lo hi rest
      (if tail.length + 1 = n then b :: tail else utf8 "\uFFFD")
        ++ lossyBytes fuel (rest.drop tail.length)

/-- A text whose encoding may be faulty. -/
def fromUtf8Lossy (bytes : List UInt8) : String :=
  (String.fromUTF8? ⟨(lossyBytes bytes.length bytes).toArray⟩).getD ""

/-- A text that is known to be one. -/
def textOf (bytes : List UInt8) : String :=
  (String.fromUTF8? ⟨bytes.toArray⟩).getD ""

/-- The message of an error. -/
def HandshakeError.message : HandshakeError UInt8 → String
  | mismatch expected presented =>
    "peer identity mismatch: expected " ++ textOf (encode expected) ++ ", presented "
      ++ textOf (encode presented)
  | refused reason => "the provider refused the pair: " ++ fromUtf8Lossy reason
  | other message => message

/-- The refusal that the provider answered the pair with, for its owner. -/
def Handshaked.refusedText (hs : Handshaked UInt8) : Option String :=
  hs.refused.map fromUtf8Lossy

/-! ### Frames -/

/-- The frame that a handshake message goes out as. -/
def handshakeFrame (msg : List β) : List β :=
  Alphabet.ofByte frameHandshake :: msg

/-- The handshake message of a frame; frames of another class are dropped. -/
def recvHandshake : List β → Option (List β)
  | [] => none
  | b :: message => if Alphabet.toByte b = some frameHandshake then some message else none

variable (S : Suite β)

/-- Seal one frame for the session. -/
def sessionFrame (noise : StatelessNoise β) (kind : UInt8) (payload : List β) :
    Except String (List β) × StatelessNoise β :=
  noise.sealAt S.toCipher (lit (frameSession :: List.replicate 8 0 ++ [kind]) ++ payload) 1

namespace Handshaked

/-- Send one frame to the peer over the session. -/
def send (hs : Handshaked β) (frame : List β) : Except String (List β) × Handshaked β :=
  if maxFrame < frame.length then
    (.error ("peer frame of " ++ toString frame.length ++ " bytes is past the "
      ++ toString maxFrame ++ "-byte limit"), hs)
  else
    match sessionFrame S hs.noise kindData frame with
    | (r, noise) => (r, { hs with noise })

/-- The session's keepalive. -/
def keepalive (hs : Handshaked β) : Except String (List β) × Handshaked β :=
  match sessionFrame S hs.noise kindKeepalive [] with
  | (r, noise) => (r, { hs with noise })

/-- The plaintext of a payload, or of a keepalive. -/
def plaintextOf : Option (List β) → List β
  | some payload => lit [kindData] ++ payload
  | none => lit [kindKeepalive]

/-- A session sends a payload, or a keepalive. -/
def sendOver (hs : Handshaked β) : Option (List β) → List (List β) × Handshaked β
  | some payload =>
    match hs.send S payload with
    | (.ok frame, hs) => ([frame], hs)
    | (.error _, hs) => ([], hs)
  | none =>
    match hs.keepalive S with
    | (.ok frame, hs) => ([frame], hs)
    | (.error _, hs) => ([], hs)

variable [DecidableEq β]

/-- What the reader of a session does with a frame: the payload that it delivers, and the frames
that it sends. -/
def onFrame (hs : Handshaked β) : List β → Handshaked β × Option (List β) × List (List β)
  | [] => (hs, none, [])
  | b :: body =>
    if Alphabet.toByte b = some frameSession then
      match hs.noise.openInPlace S.toCipher body with
      | (.ok (kind :: payload), noise) =>
        if Alphabet.toByte kind = some kindData then ({ hs with noise }, some payload, [])
        else ({ hs with noise }, none, [])
      | (_, noise) => ({ hs with noise }, none, [])
    else if Alphabet.toByte b = some frameHandshake then
      -- the peer repeats the message three that this party has answered
      match hs.retransmit with
      | some again => if again.seen = body then (hs, none, [again.reply]) else (hs, none, [])
      | none => (hs, none, [])
    else (hs, none, [])

/-- A session goes on: its keys, its answer to a repeated message three and its refusal stay. -/
structure Continues (hs hs' : Handshaked β) : Prop where
  sendKey : hs'.noise.sendKey = hs.noise.sendKey
  recvKey : hs'.noise.recvKey = hs.noise.recvKey
  retransmit : hs'.retransmit = hs.retransmit
  refused : hs'.refused = hs.refused

omit [Alphabet β] [DecidableEq β] in
theorem Continues.refl (hs : Handshaked β) :
  Continues hs hs
  := ⟨rfl, rfl, rfl, rfl⟩

omit [Alphabet β] [DecidableEq β] in
theorem Continues.trans {hs hs' hs'' : Handshaked β} (h : Continues hs hs')
    (h' : Continues hs' hs'') :
  Continues hs hs''
  := ⟨h'.sendKey.trans h.sendKey, h'.recvKey.trans h.recvKey, h'.retransmit.trans h.retransmit,
    h'.refused.trans h.refused⟩

omit [DecidableEq β] in
theorem continues_sealed (C : Cipher β) (hs : Handshaked β) (out : List β) (offset : ℕ) :
  Continues hs { hs with noise := (hs.noise.sealAt C out offset).2 }
  := by
  obtain ⟨n, hn⟩ := StatelessNoise.sealAt_snd C hs.noise out offset
  rw [hn]
  exact ⟨rfl, rfl, rfl, rfl⟩

omit [DecidableEq β] in
theorem continues_send (hs : Handshaked β) (frame : List β) :
  Continues hs (hs.send S frame).2
  := by
  rw [send]
  split
  · exact Continues.refl hs
  · apply continues_sealed

omit [DecidableEq β] in
theorem continues_keepalive (hs : Handshaked β) :
  Continues hs (hs.keepalive S).2
  := by
  apply continues_sealed

omit [DecidableEq β] in
theorem continues_sendOver (hs : Handshaked β) (payload : Option (List β)) :
  Continues hs (hs.sendOver S payload).2
  := by
  cases payload with
  | some payload =>
      have h := hs.continues_send S payload
      rw [sendOver]
      split <;> rename_i heq <;> rw [heq] at h <;> exact h
  | none =>
      have h := hs.continues_keepalive S
      rw [sendOver]
      split <;> rename_i heq <;> rw [heq] at h <;> exact h

omit [DecidableEq β] in
theorem sessionFrame_eq_ok {noise noise' : StatelessNoise β} {kind : UInt8} {payload frame : List β}
    (h : sessionFrame S noise kind payload = (.ok frame, noise')) :
  ∃ nonce, frame = Alphabet.ofByte frameSession
    :: (u64Bytes nonce ++ S.aeadEncrypt noise.sendKey nonce [] (lit [kind] ++ payload))
  := by
  rw [sessionFrame, StatelessNoise.sealAt] at h
  split at h
  · rename_i nonce noise'' hnonce
    obtain ⟨_, _, rfl⟩ := StatelessNoise.nextNonce_eq_ok hnonce
    obtain rfl := Except.ok.inj (Prod.mk.inj h).1
    exact ⟨nonce, rfl⟩
  · cases (Prod.mk.inj h).1

omit [DecidableEq β] in
/-- What a session sends is the plaintext, sealed under its key. -/
theorem mem_sendOver {hs : Handshaked β} {payload : Option (List β)} {f : List β}
    (hf : f ∈ (hs.sendOver S payload).1) :
  ∃ nonce, f = Alphabet.ofByte frameSession
    :: (u64Bytes nonce ++ S.aeadEncrypt hs.noise.sendKey nonce [] (plaintextOf payload))
  := by
  cases payload with
  | some payload =>
      rw [sendOver] at hf
      split at hf
      · rename_i frame hs' heq
        obtain rfl := List.mem_singleton.mp hf
        rw [send] at heq
        split at heq
        · cases (Prod.mk.inj heq).1
        · exact sessionFrame_eq_ok S (Prod.ext (Prod.mk.inj heq).1 rfl)
      · cases hf
  | none =>
      rw [sendOver] at hf
      split at hf
      · rename_i frame hs' heq
        obtain rfl := List.mem_singleton.mp hf
        obtain ⟨nonce, hframe⟩ := sessionFrame_eq_ok S (Prod.ext (Prod.mk.inj heq).1 rfl)
        rw [List.append_nil] at hframe
        exact ⟨nonce, hframe⟩
      · cases hf

theorem continues_onFrame (hs : Handshaked β) (frame : List β) :
  Continues hs (hs.onFrame S frame).1
  := by
  cases frame with
  | nil => exact Continues.refl hs
  | cons b body =>
      rw [onFrame]
      split
      · obtain ⟨w, hw⟩ := StatelessNoise.openInPlace_snd S.toCipher hs.noise body
        split
        · rename_i noise heq
          rw [heq] at hw
          obtain rfl := hw
          split <;> exact ⟨rfl, rfl, rfl, rfl⟩
        · rename_i noise _ heq
          rw [heq] at hw
          obtain rfl := hw
          exact ⟨rfl, rfl, rfl, rfl⟩
      · split
        · split
          · split <;> exact Continues.refl hs
          · exact Continues.refl hs
        · exact Continues.refl hs

/-- A session sends something of itself only when the message three that it has answered comes
again. -/
theorem sent_onFrame (hs : Handshaked β) (frame : List β) :
  (hs.onFrame S frame).2.2 = []
    ∨ ∃ again, hs.retransmit = some again ∧ recvHandshake frame = some again.seen
        ∧ hs.onFrame S frame = (hs, none, [again.reply])
  := by
  cases frame with
  | nil => exact Or.inl rfl
  | cons b body =>
      rw [onFrame]
      split
      · left
        split
        · split <;> rfl
        · rfl
      · split
        · rename_i hb
          split
          · rename_i again hagain
            split
            · rename_i hseen
              right
              refine ⟨again, hagain, ?_, rfl⟩
              rw [recvHandshake, if_pos hb, hseen]
            · exact Or.inl rfl
          · exact Or.inl rfl
        · exact Or.inl rfl

end Handshaked

/-! ### The consumer -/

/-- Where the initiator waits: for message two, for the verdict, or not any more. -/
inductive Initiator (β : Type) where
  | awaitTwo (state : XxHandshake β) (frameOne : List β)
  | awaitVerdict (noise : StatelessNoise β) (frameThree messageTwo : List β)
  | finished (outcome : Except (HandshakeError β) (Handshaked β))

/-- What a verdict says. -/
def judge (noise : StatelessNoise β) : List β → Except (HandshakeError β) (Handshaked β)
  | [] => .error (.other "invalid peer handshake verdict")
  | b :: reason =>
    if Alphabet.toByte b = some verdictReady ∧ reason.isEmpty = true then .ok ⟨noise, none, none⟩
    else if Alphabet.toByte b = some verdictRefused then .error (.refused reason)
    else .error (.other "invalid peer handshake verdict")

/-- Only the ready verdict brings a session up. -/
theorem judge_eq_ok {noise : StatelessNoise β} {verdict : List β} {hs : Handshaked β}
    (h : judge noise verdict = .ok hs) :
  verdict = lit [verdictReady] ∧ hs = ⟨noise, none, none⟩
  := by
  cases verdict with
  | nil => cases h
  | cons b reason =>
      rw [judge] at h
      split at h
      · rename_i hready
        obtain ⟨hb, hempty⟩ := hready
        rw [List.isEmpty_iff.mp hempty, ← Alphabet.ofByte_toByte b _ hb]
        exact ⟨rfl, (Except.ok.inj h).symm⟩
      · split at h <;> cases h

namespace Initiator

/-- The initiator sends message one and waits. -/
def start (identity : PairIdentity β) (pairId : UInt64) (ePriv : List β) :
    Initiator β × List (List β) :=
  let prologue :=
    pairPrologue pairId identity.provides (S.publicIdentity identity.staticPrivate) identity.peer
      identity.challenge
  let (messageOne, state) :=
    (XxHandshake.new S true identity.staticPrivate prologue ePriv).writeMessageOne S []
  let frameOne := handshakeFrame messageOne
  (.awaitTwo state frameOne, [frameOne])

variable [DecidableEq β]

/-- The initiator reads message two, checks who answers, and sends message three. -/
def onMessageTwo (identity : PairIdentity β) (state : XxHandshake β) (messageTwo : List β) :
    Initiator β × List (List β) :=
  match state.readMessageTwo S messageTwo with
  | .error e => (.finished (.error (.other e)), [])
  | .ok (_, state) =>
    match state.rs with
    | none => (.finished (.error (.other "handshake message 2 carried no static key")), [])
    | some presented =>
      if presented ≠ identity.peer then
        (.finished (.error (.mismatch identity.peer presented)), [])
      else
        let (messageThree, state) := state.writeMessageThree S []
        let frameThree := handshakeFrame messageThree
        (.awaitVerdict (state.intoTransport S) frameThree messageTwo, [frameThree])

/-- What the initiator does with a frame. -/
def onFrame (identity : PairIdentity β) (i : Initiator β) (frame : List β) :
    Initiator β × List (List β) :=
  match i with
  | awaitTwo state _ =>
    match recvHandshake frame with
    | none => (i, [])
    | some message => onMessageTwo S identity state message
  | awaitVerdict noise frameThree messageTwo =>
    match recvHandshake frame with
    | none => (i, [])
    | some message =>
      -- a repeat of message two: message three was lost
      if message = messageTwo then (i, [frameThree])
      else
        match noise.openInPlace S.toCipher message with
        | (.error _, noise) => (awaitVerdict noise frameThree messageTwo, [])
        | (.ok verdict, noise) => (finished (judge noise verdict), [])
  | finished (.ok hs) =>
    match hs.onFrame S frame with
    | (hs, _, sent) => (finished (.ok hs), sent)
  | finished (.error _) => (i, [])

/-- The last message goes out again. -/
def onTick : Initiator β → List (List β)
  | awaitTwo _ frameOne => [frameOne]
  | awaitVerdict _ frameThree _ => [frameThree]
  | finished _ => []

/-- The handshake gives up. -/
def onDeadline : Initiator β → Initiator β
  | finished outcome => finished outcome
  | _ => finished (.error (.other "inner handshake timed out"))

/-- A session that is up sends a payload, or a keepalive. -/
def sendOver (i : Initiator β) (payload : Option (List β)) : Initiator β × List (List β) :=
  match i with
  | finished (.ok hs) =>
    (finished (.ok (hs.sendOver S payload).2), (hs.sendOver S payload).1)
  | i => (i, [])

end Initiator

/-! ### The provider -/

/-- Where the responder waits: for message one, for message three, or not any more. -/
inductive Responder (β : Type) where
  | awaitOne (state : XxHandshake β)
  | awaitThree (state : XxHandshake β) (messageOne frameTwo : List β)
  | finished (outcome : Except (HandshakeError β) (Handshaked β))

/-- What the responder is started with besides its identity: the reason to refuse any consumer,
if any, and the consumers that it serves. -/
structure Policy (β : Type) where
  refuse : List β
  allow : List (List β)

/-- The bytes of a verdict. -/
def verdictOf (reason : List β) : List β :=
  if reason.isEmpty then lit [verdictReady] else lit [verdictRefused] ++ reason

namespace Responder

def start (identity : PairIdentity β) (pairId : UInt64) (ePriv : List β) : Responder β :=
  let prologue :=
    pairPrologue pairId identity.provides identity.peer (S.publicIdentity identity.staticPrivate)
      identity.challenge
  .awaitOne (XxHandshake.new S false identity.staticPrivate prologue ePriv)

/-- The responder reads message one and answers with message two. -/
def onMessageOne (policy : Policy β) (state : XxHandshake β) (messageOne : List β) :
    Responder β × List (List β) :=
  match state.readMessageOne S messageOne with
  | .error e => (.finished (.error (.other e)), [])
  | .ok (payload, state) =>
    if payload.isEmpty then
      let (messageTwo, state) := state.writeMessageTwo S policy.refuse
      let frameTwo := handshakeFrame messageTwo
      (.awaitThree state messageOne frameTwo, [frameTwo])
    else (.finished (.error (.other "unexpected payload in peer handshake message one")), [])

variable [DecidableEq β]

/-- The reason to refuse a consumer that has presented a static key, or nothing. -/
def reasonFor (policy : Policy β) (identity : PairIdentity β) (presented : List β) : List β :=
  if presented ∉ policy.allow then
    lit (utf8 "unauthorized consumer identity ") ++ encode presented
  else if presented ≠ identity.peer then
    lit (utf8 "consumer identity ") ++ encode presented
      ++ lit (utf8 " is not the identity the pair was routed for")
  else policy.refuse

/-- A consumer that is given no reason is one that is served, and that the pair was routed for. -/
theorem reasonFor_eq_nil {policy : Policy β} {identity : PairIdentity β} {presented : List β}
    (h : reasonFor policy identity presented = []) :
  presented ∈ policy.allow ∧ presented = identity.peer ∧ policy.refuse = []
  := by
  have htext : ∀ (text : List UInt8) (rest : List β), text ≠ [] → lit text ++ rest ≠ [] := by
    intro text rest htext h
    exact htext (List.map_eq_nil_iff.mp (List.append_eq_nil_iff.mp h).1)
  rw [reasonFor] at h
  split at h
  · exact absurd h (htext _ _ (by decide))
  · rename_i hallow
    split at h
    · rw [List.append_assoc] at h
      exact absurd h (htext _ _ (by decide))
    · rename_i hpeer
      exact ⟨not_not.mp hallow, not_not.mp hpeer, h⟩

/-- The responder seals its verdict. -/
def sealVerdict (noise : StatelessNoise β) (messageThree reason : List β) :
    Responder β × List (List β) :=
  match noise.sealBody S.toCipher (verdictOf reason) with
  | (.error e, _) => (.finished (.error (.other e)), [])
  | (.ok body, noise) =>
    let reply := handshakeFrame body
    (.finished (.ok ⟨noise, some ⟨messageThree, reply⟩, if reason.isEmpty then none else some reason⟩),
      [reply])

omit [DecidableEq β] in
/-- The first frame of a transport is always sealed. -/
theorem sealVerdict_fromKeys (keys : Keys β) (messageThree reason : List β) :
  sealVerdict S (.fromKeys keys) messageThree reason
    = (.finished (.ok ⟨{ StatelessNoise.fromKeys keys with sendNonce := 1 },
          some ⟨messageThree, handshakeFrame
            (u64Bytes 0 ++ S.aeadEncrypt keys.sendKey 0 [] (verdictOf reason))⟩,
          if reason.isEmpty then none else some reason⟩),
        [handshakeFrame (u64Bytes 0 ++ S.aeadEncrypt keys.sendKey 0 [] (verdictOf reason))])
  := by
  simp [sealVerdict, StatelessNoise.sealBody, StatelessNoise.sealAt, StatelessNoise.nextNonce,
    StatelessNoise.sealWith, StatelessNoise.fromKeys, lit]

/-- The responder reads message three, decides on the consumer that it authenticates, and sends
the verdict. -/
def onMessageThree (policy : Policy β) (identity : PairIdentity β) (state : XxHandshake β)
    (messageThree : List β) : Responder β × List (List β) :=
  match state.readMessageThree S messageThree with
  | .error e => (.finished (.error (.other e)), [])
  | .ok (payload, state) =>
    if payload.isEmpty then
      match state.rs with
      | none => (.finished (.error (.other "handshake message 3 carried no static key")), [])
      | some presented =>
        sealVerdict S (state.intoTransport S) messageThree (reasonFor policy identity presented)
    else (.finished (.error (.other "unexpected payload in peer handshake message three")), [])

/-- What the responder does with a frame. -/
def onFrame (policy : Policy β) (identity : PairIdentity β) (r : Responder β) (frame : List β) :
    Responder β × List (List β) :=
  match r with
  | awaitOne state =>
    match recvHandshake frame with
    | none => (r, [])
    | some message => onMessageOne S policy state message
  | awaitThree state messageOne frameTwo =>
    match recvHandshake frame with
    | none => (r, [])
    | some message =>
      -- a repeat of message one: message two was lost
      if message = messageOne then (r, [frameTwo])
      else onMessageThree S policy identity state message
  | finished (.ok hs) =>
    match hs.onFrame S frame with
    | (hs, _, sent) => (finished (.ok hs), sent)
  | finished (.error _) => (r, [])

/-- The last message goes out again; the retry timer starts with message two. -/
def onTick : Responder β → List (List β)
  | awaitThree _ _ frameTwo => [frameTwo]
  | _ => []

/-- The handshake gives up. -/
def onDeadline : Responder β → Responder β
  | finished outcome => finished outcome
  | _ => finished (.error (.other "inner handshake timed out"))

/-- A session that is up sends a payload, or a keepalive. -/
def sendOver (r : Responder β) (payload : Option (List β)) : Responder β × List (List β) :=
  match r with
  | finished (.ok hs) =>
    (finished (.ok (hs.sendOver S payload).2), (hs.sendOver S payload).1)
  | r => (r, [])

end Responder

end ZeroNat.Peer

import ZeroNat.Proto.Codec

/-!
# Encoding and decoding of the control messages

Decoding undoes encoding, up to truncation of the lists that are too long to be counted.
Encoding undoes decoding wherever the decoder looks at every byte: on all messages but a
ping or a pong with something after its tag.
-/

open Reader

namespace ZeroNat

open Rd

namespace Msg

/-- A message in range whose lists can all be counted is decoded from its encoding. -/
theorem decode_encode_of_fits {m : Msg} (h : m.InRange) (hfits : m.Fits) :
  decode m.encode = .ok m
  := by
  cases m with
  | ping => rfl
  | «open» proto port id capability =>
      exact (decode_open _ _).mpr ⟨proto, port, id, capability, rfl, by simp [putBytes]⟩
  | data version id capability =>
      exact (decode_data _ _).mpr ⟨version, id, capability, rfl, by simp [putBytes]⟩
  | pong => rfl
  | clientHello version clientId =>
      exact (decode_clientHello _ _).mpr ⟨version, clientId, h, rfl, by simp⟩
  | clientHelloAck clientId bridgeCapability =>
      exact (decode_clientHelloAck _ _).mpr
        ⟨clientId, bridgeCapability, h, rfl, by simp [putBytes]⟩
  | clientHelloRefuse => exact (run_bare_eq_ok_iff 28 clientHelloRefuse [] _).mpr ⟨rfl, rfl⟩
  | adminHello version mode => exact (decode_adminHello _ _).mpr ⟨version, mode, rfl, by simp⟩
  | snapshot snap => exact (decode_snapshot _ _).mpr ⟨snap, ⟨h, hfits⟩, rfl, rfl⟩
  | addListener bindIp proto port =>
      exact (run_target_eq_ok_iff addListener 8 _ _).mpr ⟨bindIp, proto, port, rfl, rfl⟩
  | removeListener bindIp proto port =>
      exact (run_target_eq_ok_iff removeListener 9 _ _).mpr ⟨bindIp, proto, port, rfl, rfl⟩
  | setRoute bindIp proto port clientId =>
      exact (decode_setRoute _ _).mpr ⟨bindIp, proto, port, clientId, h, rfl, by simp [putTarget]⟩
  | clearRoute bindIp proto port =>
      exact (run_target_eq_ok_iff clearRoute 11 _ _).mpr ⟨bindIp, proto, port, rfl, rfl⟩
  | mutationResult ok msg => exact (decode_mutationResult _ _).mpr ⟨ok, msg, h, rfl, by simp⟩
  | fwdOptions entries => exact (decode_fwdOptions _ _).mpr ⟨entries, hfits, rfl, rfl⟩
  | fwdOptionsAck => exact (run_bare_eq_ok_iff 14 fwdOptionsAck [] _).mpr ⟨rfl, rfl⟩
  | openProxy port id capability peer localAddr =>
      exact (decode_openProxy _ _).mpr
        ⟨port, id, capability, peer, localAddr, h.1, h.2, rfl, by simp [putBytes]⟩
  | peerAnnounce provides identity =>
      exact (decode_peerAnnounce _ _).mpr ⟨provides, identity, h, rfl, by simp [putBytes]⟩
  | peerAnnounceAck observed => exact (decode_peerAnnounceAck _ _).mpr ⟨observed, h, rfl, rfl⟩
  | peerChallenge ephPub nonce =>
      exact (decode_peerChallenge _ _).mpr ⟨ephPub, nonce, rfl, by simp [putBytes]⟩
  | peerProof mac => exact (decode_peerProof _ _).mpr ⟨mac, rfl, rfl⟩
  | peerAnnounceRefuse reason => exact (decode_peerAnnounceRefuse _ _).mpr ⟨reason, rfl, rfl⟩
  | peerConnect peerId want =>
      exact (decode_peerConnect _ _).mpr ⟨peerId, want, h, rfl, by simp [putBytes]⟩
  | peerResult peerId want pairId status =>
      exact (decode_peerResult _ _).mpr ⟨peerId, want, pairId, status, h, rfl, by simp [putBytes]⟩
  | peerProbe pairId peerId probeId probeCapability challenge provides =>
      exact (decode_peerProbe _ _).mpr
        ⟨pairId, peerId, probeId, probeCapability, challenge, provides, h, rfl, by simp [putBytes]⟩
  | peerInfo pairId candidates =>
      exact (decode_peerInfo _ _).mpr ⟨pairId, candidates, h, hfits, rfl, by simp⟩
  | peerRelayOpen pairId id capability =>
      exact (decode_peerRelayOpen _ _).mpr ⟨pairId, id, capability, rfl, by simp [putBytes]⟩
  | peerPath pairId status => exact (decode_peerPath _ _).mpr ⟨pairId, status, rfl, by simp⟩
  | addClient clientId secret =>
      exact (run_clientCredential_eq_ok_iff addClient 29 _ _).mpr ⟨clientId, secret, rfl, h, rfl⟩
  | setClientSecret clientId secret =>
      exact (run_clientCredential_eq_ok_iff setClientSecret 30 _ _).mpr
        ⟨clientId, secret, rfl, h, rfl⟩
  | removeClient clientId => exact (decode_removeClient _ _).mpr ⟨clientId, h, rfl, rfl⟩
  | disconnectClient clientId => exact (decode_disconnectClient _ _).mpr ⟨clientId, h, rfl, rfl⟩

/-- Round trip: a message in range is decoded from its encoding, with every list cut to
what its count can hold; so it comes back whole when no list is longer than that. -/
theorem decode_encode {m : Msg} (h : m.InRange) :
  decode m.encode = .ok m.truncate ∧ (m.Fits → decode m.encode = .ok m)
  := by
  have ht : decode m.encode = .ok m.truncate := by
    rw [← encode_truncate]
    exact decode_encode_of_fits (truncate_inRange h) (truncate_fits m)
  refine ⟨ht, ?_⟩
  intro hfits
  rw [ht, truncate_eq_self hfits]

/-- A snapshot with a client and its options, a bridge entry and its hardware address, and
a pair, comes back from its encoding. -/
theorem decode_encode_snapshot :
  let snap : SnapshotBody :=
    { version := 1, serverId := "0", listeners := [⟨⟨0⟩, .tcp, 443, .cli⟩],
      clients := [⟨"rpi", 1, [⟨.udp, 53, false, 30⟩]⟩],
      routes := [⟨⟨0⟩, .tcp, 443, "rpi", 1, .runtime⟩],
      bridgeClients := [⟨"br", true, 2, "10.0.0.1", [Bytes.zero 6], 1, 2, 3, 4, 5, 6⟩],
      pairs := [⟨"a", "b", providesExit, some .relay⟩] }
  decode (snapshot snap).encode = .ok (snapshot snap)
  := by
  intro snap
  have hrange : snap.InRange := by decide
  have hfits : snap.Fits := by decide
  exact (decode_encode (m := snapshot snap) hrange).2 hfits

/-! ### Canonical decoding -/

/-- The tag of a message that the decoder takes for the whole of it. -/
def LooseTag (tag : UInt8) : Prop :=
  tag = 1 ∨ tag = 4

/-- Away from pings and pongs, a message is decoded from its encoding only. -/
theorem encode_of_decode {tag : UInt8} {t : List UInt8} {m : Msg} (htag : ¬ LooseTag tag)
    (h : decode (tag :: t) = .ok m) :
  m.encode = tag :: t
  := by
  rw [decode, decodeBody, List.head?_cons] at h
  -- One case for each tag, in the order of the decoder, and a last one for all the others.
  split at h
  case h_33 => exact (run_malformed _ _ _ h).elim
  all_goals
    rename_i heq
    obtain rfl := Option.some.inj heq
  case h_1 => exact (htag (Or.inl rfl)).elim
  case h_2 =>
      obtain ⟨proto, port, id, capability, rfl, rfl⟩ := (decode_open t m).mp h
      simp [encode, putU8, putBytes]
  case h_3 =>
      obtain ⟨version, id, capability, rfl, rfl⟩ := (decode_data t m).mp h
      simp [encode, putU8, putBytes]
  case h_4 => exact (htag (Or.inr rfl)).elim
  case h_5 =>
      obtain ⟨version, clientId, -, rfl, rfl⟩ := (decode_clientHello t m).mp h
      simp [encode, putU8]
  case h_6 =>
      obtain ⟨version, mode, rfl, rfl⟩ := (decode_adminHello t m).mp h
      simp [encode, putU8]
  case h_7 =>
      obtain ⟨snap, -, rfl, ht⟩ := (decode_snapshot t m).mp h
      exact ht.symm
  case h_8 =>
      obtain ⟨bindIp, proto, port, rfl, rfl⟩ := (run_target_eq_ok_iff addListener 8 t m).mp h
      rfl
  case h_9 =>
      obtain ⟨bindIp, proto, port, rfl, rfl⟩ := (run_target_eq_ok_iff removeListener 9 t m).mp h
      rfl
  case h_10 =>
      obtain ⟨bindIp, proto, port, clientId, -, rfl, rfl⟩ := (decode_setRoute t m).mp h
      simp [encode, putTarget, putU8]
  case h_11 =>
      obtain ⟨bindIp, proto, port, rfl, rfl⟩ := (run_target_eq_ok_iff clearRoute 11 t m).mp h
      rfl
  case h_12 =>
      obtain ⟨ok, msg, -, rfl, rfl⟩ := (decode_mutationResult t m).mp h
      simp [encode, putU8]
  case h_13 =>
      obtain ⟨entries, -, rfl, rfl⟩ := (decode_fwdOptions t m).mp h
      rfl
  case h_14 =>
      obtain ⟨rfl, rfl⟩ := (run_bare_eq_ok_iff 14 fwdOptionsAck t m).mp h
      rfl
  case h_15 =>
      obtain ⟨port, id, capability, peer, localAddr, -, -, rfl, rfl⟩ := (decode_openProxy t m).mp h
      simp [encode, putU8, putBytes]
  case h_16 =>
      obtain ⟨provides, identity, -, rfl, rfl⟩ := (decode_peerAnnounce t m).mp h
      simp [encode, putU8, putBytes]
  case h_17 =>
      obtain ⟨observed, -, rfl, rfl⟩ := (decode_peerAnnounceAck t m).mp h
      rfl
  case h_18 =>
      obtain ⟨peerId, want, -, rfl, rfl⟩ := (decode_peerConnect t m).mp h
      simp [encode, putU8, putBytes]
  case h_19 =>
      obtain ⟨peerId, want, pairId, status, -, rfl, rfl⟩ := (decode_peerResult t m).mp h
      simp [encode, putU8, putBytes]
  case h_20 =>
      obtain ⟨pairId, peerId, probeId, probeCapability, challenge, provides, -, rfl, rfl⟩ :=
        (decode_peerProbe t m).mp h
      simp [encode, putU8, putBytes]
  case h_21 =>
      obtain ⟨pairId, candidates, -, -, rfl, rfl⟩ := (decode_peerInfo t m).mp h
      simp [encode, putU8]
  case h_22 =>
      obtain ⟨pairId, id, capability, rfl, rfl⟩ := (decode_peerRelayOpen t m).mp h
      simp [encode, putU8, putBytes]
  case h_23 =>
      obtain ⟨pairId, status, rfl, rfl⟩ := (decode_peerPath t m).mp h
      simp [encode, putU8]
  case h_24 =>
      obtain ⟨clientId, bridgeCapability, -, rfl, rfl⟩ := (decode_clientHelloAck t m).mp h
      simp [encode, putU8, putBytes]
  case h_25 =>
      obtain ⟨ephPub, nonce, rfl, rfl⟩ := (decode_peerChallenge t m).mp h
      simp [encode, putU8, putBytes]
  case h_26 =>
      obtain ⟨mac, rfl, rfl⟩ := (decode_peerProof t m).mp h
      rfl
  case h_27 =>
      obtain ⟨reason, rfl, rfl⟩ := (decode_peerAnnounceRefuse t m).mp h
      rfl
  case h_28 =>
      obtain ⟨rfl, rfl⟩ := (run_bare_eq_ok_iff 28 clientHelloRefuse t m).mp h
      rfl
  case h_29 =>
      obtain ⟨clientId, secret, rfl, -, ht⟩ := (run_clientCredential_eq_ok_iff addClient 29 t m).mp h
      exact ht.symm
  case h_30 =>
      obtain ⟨clientId, secret, rfl, -, ht⟩ :=
        (run_clientCredential_eq_ok_iff setClientSecret 30 t m).mp h
      exact ht.symm
  case h_31 =>
      obtain ⟨clientId, -, rfl, rfl⟩ := (decode_removeClient t m).mp h
      rfl
  case h_32 =>
      obtain ⟨clientId, -, rfl, rfl⟩ := (decode_disconnectClient t m).mp h
      rfl

/-- A ping or a pong is recognised by its tag, whatever follows. -/
theorem decode_loose {tag : UInt8} (htag : LooseTag tag) (t : List UInt8) :
  ∃ m, decode (tag :: t) = .ok m ∧ m.encode = [tag]
  := by
  obtain rfl | rfl := htag
  · exact ⟨ping, rfl, rfl⟩
  · exact ⟨pong, rfl, rfl⟩

/-- Whether something follows the tag of a ping or of a pong. -/
def LooseTail : List UInt8 → Prop
  | [] => False
  | tag :: t => LooseTag tag ∧ t ≠ []

/-- Canonical decoding: a message decodes from its own encoding only, exactly when it is
not a ping or a pong with something after its tag. -/
theorem encode_of_decode_iff (b : List UInt8) :
  (∀ m, decode b = .ok m → m.encode = b) ↔ ¬ LooseTail b
  := by
  cases b with
  | nil =>
      constructor
      · intro _ h
        exact h
      · intro _ m h
        exact (run_malformed [] _ m h).elim
  | cons tag t =>
      constructor
      · rintro hcanonical ⟨htag, ht⟩
        obtain ⟨m, hm, hencode⟩ := decode_loose htag t
        have hm' := hcanonical m hm
        rw [hencode, List.cons.injEq] at hm'
        exact ht hm'.2.symm
      · intro hloose m h
        by_cases htag : LooseTag tag
        · obtain ⟨m', hm', hencode⟩ := decode_loose htag t
          rw [hm', Except.ok.injEq] at h
          have ht : t = [] := by
            by_contra hne
            exact hloose ⟨htag, hne⟩
          rw [← h, hencode, ht]
        · exact encode_of_decode htag h

/-- A ping followed by one more byte is accepted, though it is no message's encoding. -/
theorem decode_ping_trailing :
  ¬ ∀ b m, decode b = .ok m → m.encode = b
  := by
  intro h
  have hping : encode ping = [1, 0] := h [1, 0] ping rfl
  simp [encode, putU8] at hping

end Msg

end ZeroNat

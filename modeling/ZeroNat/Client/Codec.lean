import ZeroNat.Client.Message
import ZeroNat.Proto.Codec

/-!
# Encoding and decoding of the admin messages of a client

What each reader of the decoder accepts, from the fields to the bodies of the messages.  Every
decoder reads all of its message, so that a message is decoded from its own encoding and from
nothing else.
-/

open Reader

namespace ZeroNat

open Rd

/-! ### Messages that fit the wire -/

def ClientServerEntry.InRange (s : ClientServerEntry) : Prop :=
  StrFits s.name ∧ StrFits s.addr

def ClientPeerSlotEntry.InRange (p : ClientPeerSlotEntry) : Prop :=
  StrFits p.peerId ∧ IsWant p.want ∧ StrFits p.iface

namespace ClientSnapshotBody

def InRange (s : ClientSnapshotBody) : Prop :=
  StrFits s.active ∧ (∀ f ∈ s.forwards, StrFits f.target) ∧ (∀ e ∈ s.servers, e.InRange)
    ∧ (∀ name ∈ s.pppoe, StrFits name) ∧ StrFits s.session ∧ ∀ p ∈ s.peers, p.InRange

def Fits (s : ClientSnapshotBody) : Prop :=
  ListFits s.forwards ∧ ListFits s.servers ∧ ListFits s.pppoe ∧ ListFits s.peers

def truncate (s : ClientSnapshotBody) : ClientSnapshotBody :=
  { s with
    forwards := ZeroNat.truncate s.forwards
    servers := ZeroNat.truncate s.servers
    pppoe := ZeroNat.truncate s.pppoe
    peers := ZeroNat.truncate s.peers }

end ClientSnapshotBody

instance : DecidablePred ClientServerEntry.InRange := fun _ => inferInstanceAs (Decidable (_ ∧ _))

instance : DecidablePred ClientPeerSlotEntry.InRange :=
  fun _ => inferInstanceAs (Decidable (_ ∧ _ ∧ _))

namespace ClientMsg

/-- The strings and the capability bytes of a message are ones the decoder accepts. -/
def InRange : ClientMsg → Prop
  | clientSnapshot snap => snap.InRange
  | mutationResult _ msg => StrFits msg
  | selectServer name => StrFits name
  | spawnPppoe name => StrFits name
  | stopSession name => StrFits name
  | addServer name addr secret _ => StrFits name ∧ StrFits addr ∧ StrFits secret
  | removeServer name => StrFits name
  | connect name => StrFits name
  | addForward _ _ target _ _ _ => StrFits target
  | attachPeer peerId want dev _ _ iface =>
      StrFits peerId ∧ IsWant want ∧ StrFits dev ∧ StrFits iface
  | detachPeer peerId want => StrFits peerId ∧ IsWant want
  | _ => True

/-- The lists of a message can be counted. -/
def Fits : ClientMsg → Prop
  | clientSnapshot snap => snap.Fits
  | _ => True

/-- The message with each of its lists cut to what its count can hold. -/
def truncate : ClientMsg → ClientMsg
  | clientSnapshot snap => clientSnapshot snap.truncate
  | m => m

theorem truncate_inRange {m : ClientMsg} (h : m.InRange) :
  m.truncate.InRange
  := by
  cases m with
  | clientSnapshot snap =>
      obtain ⟨hactive, hforwards, hservers, hpppoe, hsession, hpeers⟩ := h
      exact ⟨hactive, fun f hf => hforwards f (mem_of_mem_truncate hf),
        fun e he => hservers e (mem_of_mem_truncate he),
        fun name hname => hpppoe name (mem_of_mem_truncate hname), hsession,
        fun p hp => hpeers p (mem_of_mem_truncate hp)⟩
  | _ => exact h

theorem truncate_fits (m : ClientMsg) :
  m.truncate.Fits
  := by
  cases m with
  | clientSnapshot snap =>
      exact ⟨listFits_truncate _, listFits_truncate _, listFits_truncate _, listFits_truncate _⟩
  | _ => trivial

theorem truncate_eq_self {m : ClientMsg} (h : m.Fits) :
  m.truncate = m
  := by
  cases m with
  | clientSnapshot snap =>
      obtain ⟨hforwards, hservers, hpppoe, hpeers⟩ := h
      rw [truncate, ClientSnapshotBody.truncate, ZeroNat.truncate_eq_self hforwards,
        ZeroNat.truncate_eq_self hservers, ZeroNat.truncate_eq_self hpppoe,
        ZeroNat.truncate_eq_self hpeers]
  | _ => rfl

/-- The encoder does not tell a message from its truncation. -/
theorem encode_truncate (m : ClientMsg) :
  m.truncate.encode = m.encode
  := by
  cases m with
  | clientSnapshot snap =>
      simp only [truncate, encode, ClientSnapshotBody.truncate, putList_truncate]
  | _ => rfl

end ClientMsg

/-! ### Fields and entries -/

/-- The defined capabilities are the two bits that slots are made for. -/
theorem isWant_iff (n : UInt8) :
  IsWant n ↔ n = providesExit ∨ n = providesSegment
  := by
  have hbytes : ∀ i < 256, IsWant (UInt8.ofNat i)
      → UInt8.ofNat i = providesExit ∨ UInt8.ofNat i = providesSegment := by
    decide +kernel
  constructor
  · have hn := hbytes n.toNat n.toNat_lt
    rwa [UInt8.ofNat_toNat] at hn
  · rintro (rfl | rfl) <;> decide

namespace Rd

theorem reads_peerCapability :
  Fixed 1 peerCapability (fun n bs => IsWant n ∧ bs = putU8 n)
  := by
  apply (reads_checked (fun n => n ≠ providesExit ∧ n ≠ providesSegment)
    (badByte "unknown peer capability")).congr
  intro n bs
  rw [isWant_iff, not_and_or, not_not, not_not]

theorem reads_sessionMode :
  Fixed 1 sessionMode (fun m bs => bs = putU8 (modeByte m))
  := reads_table modes modeByte 5 _ .idle (by rintro (_ | _ | _ | _ | _) <;> decide) (by decide)

theorem reads_pppPhase :
  Fixed 1 pppPhase (fun p bs => bs = putU8 (phaseByte p))
  := reads_table phases phaseByte 6 _ .none (by rintro (_ | _ | _ | _ | _ | _) <;> decide)
    (by decide)

theorem reads_clientTransport :
  Fixed 1 Rd.transport (fun t bs => bs = putU8 (transportByte t))
  := reads_table transports transportByte 3 _ .auto (by rintro (_ | _ | _) <;> decide) (by decide)

theorem reads_linkStatus :
  Fixed 1 linkStatus (fun l bs => bs = putU8 (linkByte l))
  := reads_table links linkByte 4 _ .offline (by rintro (_ | _ | _ | _) <;> decide) (by decide)

end Rd

theorem reads_forwardOptions :
  Fixed 6 forwardOptions (fun x bs => bs = putForwardOptions x.1 x.2.1 x.2.2)
  := by
  apply ((reads_flag "unknown forward proxy").seq fun proxy => reads_u32.seq fun idleSecs =>
    (reads_flag "unknown forward enabled").seq fun enabled =>
      Fixed.pure (proxy, idleSecs, enabled)).congr
  rintro ⟨proxy, idleSecs, enabled⟩ bs
  simp [-Bool.exists_bool, Then, putForwardOptions]

theorem reads_forward :
  Reads 0 decodeForward (fun f bs => StrFits f.target ∧ bs = putForward f)
  := by
  have h := (reads_proto.bind fun proto => reads_u16.bind fun port => reads_str.bind fun target =>
    (reads_forwardOptions.map fun x =>
      ClientForwardEntry.mk proto port target x.1 x.2.1 x.2.2).need
      "truncated forward entry options").need "truncated forward entry"
  apply h.congr
  rintro ⟨proto, port, target, proxy, idleSecs, enabled⟩ bs
  simp [-Bool.exists_bool, Then, putForward, StrFits, and_assoc]

theorem reads_server :
  Reads 0 decodeServer (fun s bs => s.InRange ∧ bs = putServer s)
  := by
  have h := reads_str.bind fun name => reads_str.bind fun addr =>
    (reads_clientTransport.map fun transport => ClientServerEntry.mk name addr transport).need
      "truncated server entry"
  apply h.congr
  rintro ⟨name, addr, transport⟩ bs
  simp [Then, putServer, ClientServerEntry.InRange, StrFits, and_assoc]

theorem reads_peerSlot :
  Reads 0 decodePeerSlot (fun p bs => p.InRange ∧ bs = putPeerSlot p)
  := by
  have h := reads_str.bind fun peerId =>
    (reads_peerCapability.bind fun want => reads_str.bind fun iface =>
      (reads_linkStatus.bind fun link => reads_settledPath.bind fun path =>
        Reads.pure (ClientPeerSlotEntry.mk peerId want iface link path)).need
        "truncated peer slot status").need "truncated peer slot capability"
  apply h.congr
  rintro ⟨peerId, want, iface, link, path⟩ bs
  simp [Then, putPeerSlot, ClientPeerSlotEntry.InRange, StrFits, and_assoc]

namespace ClientMsg

/-! ### Messages -/

theorem run_eq_ok_iff {body : Rd ClientMsg} {E : ClientMsg → List UInt8 → Prop}
    (h : ReadsAll 0 body E) (tag : UInt8) (t : List UInt8) (m : ClientMsg) :
  body.run ⟨tag :: t, 1, none⟩ = .ok m ↔ E m t
  := h.run_eq_ok_iff rfl (by simp) m

theorem run_malformed (b : List UInt8) (r : Cursor UInt8 String) (m : ClientMsg) :
  (malformed b).run r ≠ .ok m
  := run_failed_ne_ok _ disconnect r m

theorem decode_clientAdminHello (t : List UInt8) (m : ClientMsg) :
  decode (1 :: t) = .ok m ↔ ∃ version mode, m = clientAdminHello version mode
    ∧ t = putU8 version ++ putU8 mode
  := run_two_eq_ok_iff clientAdminHello (run_malformed _) 1 t m

theorem decode_clientSnapshot (t : List UInt8) (m : ClientMsg) :
  decode (2 :: t) = .ok m ↔ ∃ snap, (snap.InRange ∧ snap.Fits) ∧ m = clientSnapshot snap
    ∧ 2 :: t = (clientSnapshot snap).encode
  := by
  have h := (reads_u8.bindAll fun version => reads_str.bindAll fun active =>
    (reads_sessionMode.bindAll fun mode => reads_pppPhase.bindAll fun phase =>
      reads_u16.bindAll fun count => (reads_forward.times count.toNat).bindAll fun forwards =>
      (reads_list reads_server "truncated client snapshot server list").bindAll fun servers =>
      (reads_list reads_str "truncated client snapshot pppoe list").bindAll fun pppoe =>
      reads_str.bindAll fun session => (reads_linkStatus.bindAll fun link =>
        (reads_list reads_peerSlot "truncated client snapshot peer list").bindAll fun peers =>
        ReadsAll.done "trailing bytes in client snapshot"
          (clientSnapshot ⟨version, active, mode, phase, forwards, servers, pppoe, session, link,
            peers⟩)).need "truncated client snapshot link").need
      "truncated client snapshot header").need "truncated client snapshot"
  apply (run_eq_ok_iff h 2 t m).trans
  constructor
  · rintro ⟨version, _, _, rfl, ⟨active, _, _, ⟨hactive, rfl⟩, ⟨mode, _, _, rfl, ⟨phase, _, _, rfl,
      ⟨count, _, _, rfl, ⟨forwards, _, _, ⟨⟨hlen, hforwards⟩, rfl⟩,
      ⟨servers, _, _, ⟨⟨hservers, hss⟩, rfl⟩, ⟨pppoe, _, _, ⟨⟨hpppoe, hns⟩, rfl⟩,
      ⟨session, _, _, ⟨hsession, rfl⟩, ⟨link, _, _, rfl, ⟨peers, _, _, ⟨⟨hpeers, hps⟩, rfl⟩,
      ⟨rfl, rfl⟩, rfl⟩, rfl⟩, rfl⟩, rfl⟩, rfl⟩, rfl⟩, rfl⟩, rfl⟩, rfl⟩, rfl⟩, rfl⟩
    have hfits : forwards.length ≤ u16Max := hlen ▸ toNat_le_u16Max count
    refine ⟨⟨version, active, mode, phase, forwards, servers, pppoe, session, link, peers⟩,
      ⟨⟨hactive, hforwards, hss, hns, hsession, hps⟩, hfits, hservers, hpppoe, hpeers⟩, rfl, ?_⟩
    simp [encode, putU8, putList_of_le putForward hfits, hlen]
  · rintro ⟨snap, ⟨⟨hactive, hforwards, hss, hns, hsession, hps⟩, hfits, hservers, hpppoe, hpeers⟩,
      rfl, ht⟩
    have ht : t = putU8 snap.version ++ (putStr snap.active ++ (putU8 (modeByte snap.mode)
        ++ (putU8 (phaseByte snap.phase) ++ (putU16 (UInt16.ofNat snap.forwards.length)
        ++ (snap.forwards.flatMap putForward ++ (putList putServer snap.servers
        ++ (putList putStr snap.pppoe ++ (putStr snap.session ++ (putU8 (linkByte snap.link)
        ++ (putList putPeerSlot snap.peers ++ [])))))))))) := by
      simpa [encode, putU8, putList_of_le putForward hfits] using ht
    exact ⟨_, _, _, rfl, ⟨_, _, _, ⟨hactive, rfl⟩, ⟨_, _, _, rfl, ⟨_, _, _, rfl, ⟨_, _, _, rfl,
      ⟨_, _, _, ⟨⟨(toNat_count hfits).symm, hforwards⟩, rfl⟩, ⟨_, _, _, ⟨⟨hservers, hss⟩, rfl⟩,
      ⟨_, _, _, ⟨⟨hpppoe, hns⟩, rfl⟩, ⟨_, _, _, ⟨hsession, rfl⟩, ⟨_, _, _, rfl,
      ⟨_, _, _, ⟨⟨hpeers, hps⟩, rfl⟩, ⟨rfl, rfl⟩, rfl⟩, rfl⟩, rfl⟩, rfl⟩, rfl⟩, rfl⟩, rfl⟩, rfl⟩,
      rfl⟩, rfl⟩, ht⟩

theorem decode_mutationResult (t : List UInt8) (m : ClientMsg) :
  decode (3 :: t) = .ok m ↔ ∃ ok msg, StrFits msg ∧ m = mutationResult ok msg
    ∧ t = putU8 (flagByte ok) ++ putStr msg
  := by
  have h := ((reads_flag "unknown mutation result ok").bindAll fun ok => reads_str.bindAll fun msg =>
    ReadsAll.done "trailing bytes in mutation result" (mutationResult ok msg)).need
    "truncated mutation result"
  apply (run_eq_ok_iff h 3 t m).trans
  simp [-Bool.exists_bool, Then, StrFits, and_assoc]

/-- A body that is one string, made into a message. -/
theorem run_named_eq_ok_iff (ctor : String → ClientMsg) (trailing : String) (tag : UInt8)
    (t : List UInt8) (m : ClientMsg) :
  (do
      let name ← takeNamed trailing
      pure (ctor name) : Rd ClientMsg).run ⟨tag :: t, 1, none⟩ = .ok m
    ↔ ∃ name, StrFits name ∧ m = ctor name ∧ tag :: t = named tag name
  := by
  have hname : ReadsAll 0 (takeNamed trailing) (fun name bs => StrFits name ∧ bs = putStr name) := by
    apply (reads_str.bindAll fun name => ReadsAll.done trailing name).congr
    intro name bs
    simp [Then, StrFits]
  apply (run_eq_ok_iff (hname.map ctor) tag t m).trans
  simp [named, putU8, and_left_comm]

theorem decode_setForwardOptions (t : List UInt8) (m : ClientMsg) :
  decode (5 :: t) = .ok m ↔ ∃ proto port enabled proxy idleSecs,
    m = setForwardOptions proto port enabled proxy idleSecs
    ∧ t = putU8 (protoByte proto) ++ (putU16 port ++ (putU8 (flagByte enabled)
      ++ (putU8 (flagByte proxy) ++ putU32 idleSecs)))
  := by
  have h := reads_proto.seq fun proto => reads_u16.seq fun port =>
    (reads_flag "unknown forward enabled").seq fun enabled =>
    (reads_flag "unknown forward proxy").seq fun proxy => reads_u32.seq fun idleSecs =>
    Fixed.pure (setForwardOptions proto port enabled proxy idleSecs)
  apply (run_sized_eq_ok_iff h rfl (run_malformed _) 5 t m).trans
  simp [-Bool.exists_bool, Then]

theorem decode_addServer (t : List UInt8) (m : ClientMsg) :
  decode (8 :: t) = .ok m ↔ ∃ name addr secret transport,
    (StrFits name ∧ StrFits addr ∧ StrFits secret) ∧ m = addServer name addr secret transport
    ∧ t = putStr name ++ (putStr addr ++ (putStr secret ++ putU8 (transportByte transport)))
  := by
  have h := reads_str.bindAll fun name => reads_str.bindAll fun addr =>
    reads_str.bindAll fun secret => (reads_clientTransport.bindAll fun transport =>
      ReadsAll.done "trailing bytes in add server" (addServer name addr secret transport)).need
      "truncated add server"
  apply (run_eq_ok_iff h 8 t m).trans
  simp [Then, StrFits, and_assoc]

theorem decode_disconnect (t : List UInt8) (m : ClientMsg) :
  decode (11 :: t) = .ok m ↔ m = disconnect ∧ t = []
  := run_sized_eq_ok_iff (Fixed.pure disconnect) rfl (run_malformed _) 11 t m

theorem decode_addForward (t : List UInt8) (m : ClientMsg) :
  decode (12 :: t) = .ok m ↔ ∃ proto port target proxy idleSecs enabled, StrFits target
    ∧ m = addForward proto port target proxy idleSecs enabled
    ∧ t = putU8 (protoByte proto) ++ (putU16 port ++ (putStr target
      ++ putForwardOptions proxy idleSecs enabled))
  := by
  have h := (reads_proto.bindAll fun proto => reads_u16.bindAll fun port =>
    reads_str.bindAll fun target => (reads_forwardOptions.bindAll fun x =>
      ReadsAll.done "trailing bytes in add forward"
        (addForward proto port target x.1 x.2.1 x.2.2)).need "truncated add forward options").need
    "truncated add forward"
  apply (run_eq_ok_iff h 12 t m).trans
  simp [-Bool.exists_bool, Then, StrFits, and_assoc]

theorem decode_removeForward (t : List UInt8) (m : ClientMsg) :
  decode (13 :: t) = .ok m ↔ ∃ proto port, m = removeForward proto port
    ∧ t = putU8 (protoByte proto) ++ putU16 port
  := by
  have h := reads_proto.seq fun proto => reads_u16.seq fun port =>
    Fixed.pure (removeForward proto port)
  apply (run_sized_eq_ok_iff h rfl (run_malformed _) 13 t m).trans
  simp [Then]

theorem decode_attachPeer (t : List UInt8) (m : ClientMsg) :
  decode (14 :: t) = .ok m ↔ ∃ peerId want dev exit exitStrict iface,
    (StrFits peerId ∧ IsWant want ∧ StrFits dev ∧ StrFits iface)
    ∧ m = attachPeer peerId want dev exit exitStrict iface
    ∧ t = putStr peerId ++ (putU8 want ++ (putStr dev ++ (putU8 (flagByte exit)
      ++ (putU8 (flagByte exitStrict) ++ putStr iface))))
  := by
  have h := reads_str.bindAll fun peerId => (reads_peerCapability.bindAll fun want =>
    reads_str.bindAll fun dev => ((reads_flag "unknown peer exit").bindAll fun exit =>
      (reads_flag "unknown peer exit_strict").bindAll fun exitStrict =>
      reads_str.bindAll fun iface => ReadsAll.done "trailing bytes in attach peer"
        (attachPeer peerId want dev exit exitStrict iface)).need
      "truncated attach peer options").need "truncated attach peer"
  apply (run_eq_ok_iff h 14 t m).trans
  simp [-Bool.exists_bool, Then, StrFits, and_assoc]

theorem decode_detachPeer (t : List UInt8) (m : ClientMsg) :
  decode (15 :: t) = .ok m ↔ ∃ peerId want, (StrFits peerId ∧ IsWant want)
    ∧ m = detachPeer peerId want ∧ t = putStr peerId ++ putU8 want
  := by
  have h := reads_str.bindAll fun peerId => (reads_peerCapability.bindAll fun want =>
    ReadsAll.done "trailing bytes in detach peer" (detachPeer peerId want)).need
    "truncated detach peer"
  apply (run_eq_ok_iff h 15 t m).trans
  simp [Then, StrFits, and_assoc]

/-! ### Encoding and decoding -/

/-- A message in range whose lists can all be counted is decoded from its encoding. -/
theorem decode_encode_of_fits {m : ClientMsg} (h : m.InRange) (hfits : m.Fits) :
  decode m.encode = .ok m
  := by
  cases m with
  | clientAdminHello version mode =>
      exact (decode_clientAdminHello _ _).mpr ⟨version, mode, rfl, by simp⟩
  | clientSnapshot snap => exact (decode_clientSnapshot _ _).mpr ⟨snap, ⟨h, hfits⟩, rfl, rfl⟩
  | mutationResult ok msg => exact (decode_mutationResult _ _).mpr ⟨ok, msg, h, rfl, by simp⟩
  | selectServer name =>
      exact (run_named_eq_ok_iff selectServer _ 4 _ _).mpr ⟨name, h, rfl, rfl⟩
  | setForwardOptions proto port enabled proxy idleSecs =>
      exact (decode_setForwardOptions _ _).mpr
        ⟨proto, port, enabled, proxy, idleSecs, rfl, by simp⟩
  | spawnPppoe name => exact (run_named_eq_ok_iff spawnPppoe _ 6 _ _).mpr ⟨name, h, rfl, rfl⟩
  | stopSession name => exact (run_named_eq_ok_iff stopSession _ 7 _ _).mpr ⟨name, h, rfl, rfl⟩
  | addServer name addr secret transport =>
      exact (decode_addServer _ _).mpr ⟨name, addr, secret, transport, h, rfl, by simp⟩
  | removeServer name =>
      exact (run_named_eq_ok_iff removeServer _ 9 _ _).mpr ⟨name, h, rfl, rfl⟩
  | connect name => exact (run_named_eq_ok_iff connect _ 10 _ _).mpr ⟨name, h, rfl, rfl⟩
  | disconnect => exact (decode_disconnect _ _).mpr ⟨rfl, rfl⟩
  | addForward proto port target proxy idleSecs enabled =>
      exact (decode_addForward _ _).mpr
        ⟨proto, port, target, proxy, idleSecs, enabled, h, rfl, by simp⟩
  | removeForward proto port => exact (decode_removeForward _ _).mpr ⟨proto, port, rfl, by simp⟩
  | attachPeer peerId want dev exit exitStrict iface =>
      exact (decode_attachPeer _ _).mpr
        ⟨peerId, want, dev, exit, exitStrict, iface, h, rfl, by simp⟩
  | detachPeer peerId want => exact (decode_detachPeer _ _).mpr ⟨peerId, want, h, rfl, by simp⟩

/-- A message is decoded from its encoding only. -/
theorem encode_of_decode {b : List UInt8} {m : ClientMsg} (h : decode b = .ok m) :
  m.encode = b
  := by
  cases b with
  | nil => exact (run_malformed [] _ m h).elim
  | cons tag t =>
      rw [decode, decodeBody, List.head?_cons] at h
      -- One case for each tag, in the order of the decoder, and a last one for all the others.
      split at h
      case h_16 => exact (run_malformed _ _ _ h).elim
      all_goals
        rename_i heq
        obtain rfl := Option.some.inj heq
      case h_1 =>
          obtain ⟨version, mode, rfl, rfl⟩ := (decode_clientAdminHello t m).mp h
          rfl
      case h_2 =>
          obtain ⟨snap, -, rfl, ht⟩ := (decode_clientSnapshot t m).mp h
          exact ht.symm
      case h_3 =>
          obtain ⟨ok, msg, -, rfl, rfl⟩ := (decode_mutationResult t m).mp h
          rfl
      case h_4 =>
          obtain ⟨name, -, rfl, ht⟩ := (run_named_eq_ok_iff selectServer _ 4 t m).mp h
          exact ht.symm
      case h_5 =>
          obtain ⟨proto, port, enabled, proxy, idleSecs, rfl, rfl⟩ :=
            (decode_setForwardOptions t m).mp h
          simp [encode, putU8]
      case h_6 =>
          obtain ⟨name, -, rfl, ht⟩ := (run_named_eq_ok_iff spawnPppoe _ 6 t m).mp h
          exact ht.symm
      case h_7 =>
          obtain ⟨name, -, rfl, ht⟩ := (run_named_eq_ok_iff stopSession _ 7 t m).mp h
          exact ht.symm
      case h_8 =>
          obtain ⟨name, addr, secret, transport, -, rfl, rfl⟩ := (decode_addServer t m).mp h
          simp [encode, named, putU8]
      case h_9 =>
          obtain ⟨name, -, rfl, ht⟩ := (run_named_eq_ok_iff removeServer _ 9 t m).mp h
          exact ht.symm
      case h_10 =>
          obtain ⟨name, -, rfl, ht⟩ := (run_named_eq_ok_iff connect _ 10 t m).mp h
          exact ht.symm
      case h_11 =>
          obtain ⟨rfl, rfl⟩ := (decode_disconnect t m).mp h
          rfl
      case h_12 =>
          obtain ⟨proto, port, target, proxy, idleSecs, enabled, -, rfl, rfl⟩ :=
            (decode_addForward t m).mp h
          simp [encode, putU8]
      case h_13 =>
          obtain ⟨proto, port, rfl, rfl⟩ := (decode_removeForward t m).mp h
          simp [encode, putU8]
      case h_14 =>
          obtain ⟨peerId, want, dev, exit, exitStrict, iface, -, rfl, rfl⟩ :=
            (decode_attachPeer t m).mp h
          simp [encode, named, putU8]
      case h_15 =>
          obtain ⟨peerId, want, -, rfl, rfl⟩ := (decode_detachPeer t m).mp h
          simp [encode, named, putU8]

/-- The codec of the admin messages is a bijection on its image: a message in range comes back
with every list cut to what its count can hold, and every message is decoded from its own
encoding only. -/
theorem codec_bijective :
  (∀ m : ClientMsg, m.InRange → decode m.encode = .ok m.truncate)
    ∧ ∀ (b : List UInt8) (m : ClientMsg), decode b = .ok m → m.encode = b
  := by
  refine ⟨?_, fun b m h => encode_of_decode h⟩
  intro m h
  rw [← encode_truncate]
  exact decode_encode_of_fits (truncate_inRange h) (truncate_fits m)

/-- A snapshot with a forward, a server, a session and a peer slot comes back from its
encoding. -/
theorem codec_bijective_snapshot :
  let snap : ClientSnapshotBody :=
    { version := 1, active := "home", mode := .pppoe, phase := .established,
      forwards := [⟨.tcp, 443, "127.0.0.1:443", true, 0, true⟩],
      servers := [⟨"home", "dht", .auto⟩], pppoe := ["wan"], session := "wan",
      link := .connected, peers := [⟨"", providesExit, "eth0", .connected, some .relay⟩] }
  decode (clientSnapshot snap).encode = .ok (clientSnapshot snap)
  := by
  intro snap
  have hrange : (clientSnapshot snap).InRange := by
    refine ⟨by decide, ?_, ?_, ?_, by decide, ?_⟩
    · intro f hf
      obtain rfl := List.mem_singleton.mp hf
      decide
    · intro e he
      obtain rfl := List.mem_singleton.mp he
      decide
    · intro name hname
      obtain rfl := List.mem_singleton.mp hname
      decide
    · intro p hp
      obtain rfl := List.mem_singleton.mp hp
      decide
  exact codec_bijective.1 (clientSnapshot snap) hrange

end ClientMsg

end ZeroNat

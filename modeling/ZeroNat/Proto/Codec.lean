import ZeroNat.Proto.Range

/-!
# The decoder of the control messages

What each reader of the decoder accepts, built up from the fields to the entries of the
lists and to the bodies of the messages.  A body is read as exactly the messages in range
whose encoding it is, with two exceptions: a ping and a pong are recognised by their tag
alone, whatever follows it.
-/

open Reader

namespace ZeroNat

namespace Rd

/-! ### Enumerations -/

theorem reads_proto :
  Fixed 1 proto (fun p bs => bs = putU8 (protoByte p))
  := by
  apply ((reads_oneOf 1 2 "unknown proto").map _).congr
  intro p bs
  constructor
  · rintro ⟨n, rfl, rfl | rfl, rfl⟩ <;> rfl
  · rintro rfl
    refine ⟨protoByte p, ?_, ?_, rfl⟩
    · cases p <;> rfl
    · cases p <;> simp [protoByte]

/-- A table of variants is indexed by the byte of each variant. -/
theorem reads_table {α : Type} (table : List α) (byte : α → UInt8) (limit : UInt8) (what : String)
    (default : α) (hbyte : ∀ a, byte a < limit ∧ table.getD (byte a).toNat default = a)
    (htable : ∀ i < limit.toNat, byte (table.getD i default) = UInt8.ofNat i) :
  Fixed 1 (do let i ← index limit what; pure (table.getD i default) : Rd α)
    (fun a bs => bs = putU8 (byte a))
  := by
  apply ((reads_index limit what).map _).congr
  intro a bs
  constructor
  · rintro ⟨i, rfl, hi, rfl⟩
    rw [htable i hi]
  · rintro rfl
    obtain ⟨hlt, hget⟩ := hbyte a
    exact ⟨(byte a).toNat, hget.symm, UInt8.lt_iff_toNat_lt.mp hlt, by simp⟩

theorem reads_settledPath :
  Fixed 1 settledPath (fun p bs => bs = putU8 (settledPathByte p))
  := reads_table settledPaths settledPathByte 3 _ none (by rintro (_ | _ | _) <;> decide) (by decide)

theorem reads_source :
  Fixed 1 source (fun s bs => bs = putU8 (sourceByte s))
  := reads_table sources sourceByte 3 _ .file (by rintro (_ | _ | _) <;> decide) (by decide)

theorem reads_peerStatus :
  Fixed 1 peerStatus (fun s bs => bs = putU8 (peerStatusByte s))
  := reads_table peerStatuses peerStatusByte 6 _ .accepted
    (by rintro (_ | _ | _ | _ | _ | _) <;> decide) (by decide)

theorem reads_refuseReason :
  Fixed 1 refuseReason (fun r bs => bs = putU8 (refuseReasonByte r))
  := reads_table refuseReasons refuseReasonByte 4 _ .malformedIdentity
    (by rintro (_ | _ | _ | _) <;> decide) (by decide)

theorem reads_pathStatus :
  Fixed 1 pathStatus (fun s bs => bs = putU8 (pathStatusByte s))
  := reads_table pathStatuses pathStatusByte 2 _ .direct (by rintro (_ | _) <;> decide) (by decide)

theorem reads_provides :
  Fixed 1 provides (fun n bs => IsProvides n ∧ bs = putU8 n)
  := by
  apply (reads_checked (fun n => n &&& ~~~ providesMask ≠ 0) (badByte "unknown provides")).congr
  intro n bs
  rw [IsProvides, not_not]

theorem reads_want :
  Fixed 1 want (fun n bs => IsWant n ∧ bs = putU8 n)
  := by
  apply (reads_checked (fun n => n &&& ~~~ providesMask ≠ 0 ∨ countOnes n ≠ 1)
    (badByte "invalid want")).congr
  intro n bs
  rw [IsWant, not_or, not_not, not_not]

theorem reads_transport :
  Fixed 1 (oneOf 1 2 "unknown transport") (fun n bs => IsTransport n ∧ bs = putU8 n)
  := reads_oneOf 1 2 "unknown transport"

theorem reads_routeState :
  Fixed 1 (oneOf 0 1 "unknown route state") (fun n bs => IsRouteState n ∧ bs = putU8 n)
  := reads_oneOf 0 1 "unknown route state"

end Rd

open Rd

/-! ### Entries -/

theorem reads_fwdEntry :
  Reads 0 takeFwdEntry (fun e bs => True ∧ bs = putFwdEntry e)
  := by
  have h := (reads_proto.bind fun proto => reads_u16.bind fun port =>
    (reads_flag "unknown forward option flags").bind fun proxy => reads_u32.bind fun idleSecs =>
      Reads.pure (FwdOptionEntry.mk proto port proxy idleSecs)).need "truncated forward option entry"
  apply h.congr
  rintro ⟨proto, port, proxy, idleSecs⟩ bs
  simp [-Bool.exists_bool, Then, putFwdEntry, and_assoc]

theorem reads_fwdEntries :
  Reads 0 takeFwdEntries (fun l bs => ListFits l ∧ bs = putFwdEntries l)
  := by
  apply (reads_list reads_fwdEntry "truncated forward options count").congr
  simp [ListFits, putFwdEntries]

theorem reads_mac :
  Reads 0 takeMac (fun m bs => True ∧ bs = putMac m)
  := by
  apply ((reads_array 6).need "truncated bridge mac").congr
  simp [putMac, putBytes]

theorem reads_bridge :
  Reads 0 decodeBridgeClient (fun e bs => (e.InRange ∧ e.Fits) ∧ bs = putBridge e)
  := by
  have counters (label : String) (named : Bool) (transport : UInt8) (peer : String)
      (macs : List MacAddr) :=
    (reads_u64.bind fun rxBytes => reads_u64.bind fun rxFrames => reads_u64.bind fun txBytes =>
      reads_u64.bind fun txFrames => reads_u32.bind fun uptimeSecs => reads_u32.bind fun idleSecs =>
        Reads.pure (BridgeEntry.mk label named transport peer macs rxBytes rxFrames txBytes txFrames
          uptimeSecs idleSecs)).need "truncated bridge counters"
  have h := reads_str.bind fun label =>
    ((reads_flag "unknown bridge named").bind fun named =>
      (reads_transport.bind fun transport => reads_str.bind fun peer =>
        (reads_list reads_mac "truncated bridge mac count").bind fun macs =>
          counters label named transport peer macs).need "truncated bridge transport").need
      "truncated bridge named flag"
  apply h.congr
  rintro ⟨label, named, transport, peer, macs, rxBytes, rxFrames, txBytes, txFrames, uptimeSecs,
    idleSecs⟩ bs
  simp [-Bool.exists_bool, Then, putBridge, BridgeEntry.InRange, BridgeEntry.Fits, StrFits,
    ListFits, and_assoc]

theorem reads_bridges :
  Reads 0 decodeBridgeClients
    (fun l bs => (ListFits l ∧ ∀ e ∈ l, e.InRange ∧ e.Fits) ∧ bs = putList putBridge l)
  := reads_list reads_bridge "truncated bridge count"

theorem reads_pair :
  Reads 0 decodePair (fun p bs => p.InRange ∧ bs = putPair p)
  := by
  have h := reads_str.bind fun consumerId => reads_str.bind fun providerId =>
    (reads_want.bind fun want => reads_settledPath.bind fun path =>
      Reads.pure (PairEntry.mk consumerId providerId want path)).need "truncated pair capability"
  apply h.congr
  rintro ⟨consumerId, providerId, want, path⟩ bs
  simp [Then, putPair, PairEntry.InRange, StrFits, and_assoc]

theorem reads_pairs :
  Reads 0 decodePairs (fun l bs => (ListFits l ∧ ∀ p ∈ l, p.InRange) ∧ bs = putList putPair l)
  := reads_list reads_pair _

theorem reads_listener :
  Reads 0 decodeListener (fun l bs => True ∧ bs = putListener l)
  := by
  have h := reads_ip.bind fun bindIp =>
    (reads_proto.bind fun proto => reads_u16.bind fun port => reads_source.bind fun source =>
      Reads.pure (Listener.mk bindIp proto port source)).need "truncated listener"
  apply h.congr
  rintro ⟨bindIp, proto, port, source⟩ bs
  simp [Then, putListener, putTarget]

theorem reads_listeners :
  Reads 0 decodeListeners (fun l bs => ListFits l ∧ bs = putList putListener l)
  := by
  apply (reads_list reads_listener "truncated listener count").congr
  simp [ListFits]

theorem reads_client :
  Reads 0 decodeClient (fun c bs => (c.InRange ∧ c.Fits) ∧ bs = putClient c)
  := by
  have h := reads_str.bind fun clientId =>
    (reads_transport.bind fun transport => reads_fwdEntries.bind fun fwd =>
      Reads.pure (ClientEntry.mk clientId transport fwd)).need "truncated client transport"
  apply h.congr
  rintro ⟨clientId, transport, fwd⟩ bs
  simp [Then, putClient, ClientEntry.InRange, ClientEntry.Fits, StrFits, and_assoc]

theorem reads_clients :
  Reads 0 decodeClients
    (fun l bs => (ListFits l ∧ ∀ c ∈ l, c.InRange ∧ c.Fits) ∧ bs = putList putClient l)
  := reads_list reads_client "truncated client count"

theorem reads_route :
  Reads 0 decodeRoute (fun r bs => r.InRange ∧ bs = putRoute r)
  := by
  have h := reads_ip.bind fun bindIp =>
    (reads_proto.bind fun proto => reads_u16.bind fun port => reads_str.bind fun clientId =>
      (reads_routeState.bind fun state => reads_source.bind fun source =>
        Reads.pure (RouteEntry.mk bindIp proto port clientId state source)).need
        "truncated route state").need "truncated route"
  apply h.congr
  rintro ⟨bindIp, proto, port, clientId, state, source⟩ bs
  simp [Then, putRoute, putTarget, RouteEntry.InRange, StrFits, and_assoc]

theorem reads_routes :
  Reads 0 decodeRoutes (fun l bs => (ListFits l ∧ ∀ r ∈ l, r.InRange) ∧ bs = putList putRoute l)
  := reads_list reads_route "truncated route count"

theorem reads_target :
  Fixed 7 takeTarget (fun x bs => bs = putTarget x.1 x.2.1 x.2.2)
  := by
  have hip : Fixed 4 ip (fun a bs => bs = putIp a) := by
    apply reads_ip.fixed (Nat.zero_le 4)
    rintro a bs rfl
    exact length_putIp a
  apply (hip.seq fun bindIp => reads_proto.seq fun proto => reads_u16.seq fun port =>
    Fixed.pure (bindIp, proto, port)).congr
  rintro ⟨bindIp, proto, port⟩ bs
  simp [Then, putTarget]

theorem reads_secret (given : Bool) :
  Reads 0 (takeSecret given) (fun secret bs => secret.isSome = given ∧ bs = putSecret secret)
  := by
  cases given with
  | false =>
      apply (Reads.pure none).congr
      rintro (_ | secret) bs <;> simp [putSecret]
  | true =>
      apply ((reads_arr32_need "client secret").bind fun secret => Reads.pure (some secret)).congr
      rintro (_ | secret) bs <;> simp [Then, putSecret, putBytes]

theorem reads_clientCredential (tag : UInt8) :
  ReadsAll 0 takeClientCredential
    (fun x bs => StrFits x.1 ∧ putU8 tag ++ bs = clientCredential tag x.1 x.2)
  := by
  have h := reads_str.bindAll fun clientId =>
    ((reads_flag "unknown client credential flag").bindAll fun given =>
      (reads_secret given).bindAll fun secret =>
        ReadsAll.done "trailing bytes in client credential" (clientId, secret)).need
      "truncated client credential"
  apply h.congr
  rintro ⟨clientId, secret⟩ bs
  simp [-Bool.exists_bool, Then, clientCredential, StrFits, and_assoc]

namespace Msg

/-! ### Messages -/

/-- A body of any size, after its tag. -/
theorem run_eq_ok_iff {body : Rd Msg} {E : Msg → List UInt8 → Prop} (h : ReadsAll 0 body E)
    (tag : UInt8) (t : List UInt8) (m : Msg) :
  body.run ⟨tag :: t, 1, none⟩ = .ok m ↔ E m t
  := h.run_eq_ok_iff rfl (by simp) m

theorem run_malformed (b : List UInt8) (r : Cursor UInt8 String) (m : Msg) :
  (malformed b).run r ≠ .ok m
  := run_failed_ne_ok _ ping r m

/-- A body of fixed size, after its tag. -/
theorem sized_run_eq_ok_iff {k n : ℕ} {body : Rd Msg} {E : Msg → List UInt8 → Prop}
    (h : Fixed k body E) (hn : n = k + 1) (tag : UInt8) (t : List UInt8) (m : Msg) :
  (sized (tag :: t) n body).run ⟨tag :: t, 1, none⟩ = .ok m ↔ E m t
  := run_sized_eq_ok_iff h hn (run_malformed _) tag t m

theorem decode_open (t : List UInt8) (m : Msg) :
  decode (2 :: t) = .ok m ↔ ∃ proto port id capability, m = «open» proto port id capability
    ∧ t = putU8 (protoByte proto) ++ (putU16 port ++ (putU64 id ++ capability.toList))
  := by
  have h := reads_proto.seq fun proto => reads_u16.seq fun port => reads_u64.seq fun id =>
    (reads_arr32 "capability").seq fun capability => Fixed.pure («open» proto port id capability)
  apply (sized_run_eq_ok_iff h rfl 2 t m).trans
  simp [Then]

theorem decode_data (t : List UInt8) (m : Msg) :
  decode (3 :: t) = .ok m ↔ ∃ version id capability, m = data version id capability
    ∧ t = putU8 version ++ (putU64 id ++ capability.toList)
  := by
  have h := reads_u8.seq fun version => reads_u64.seq fun id =>
    (reads_arr32 "capability").seq fun capability => Fixed.pure (data version id capability)
  apply (sized_run_eq_ok_iff h rfl 3 t m).trans
  simp [Then]

theorem decode_clientHello (t : List UInt8) (m : Msg) :
  decode (5 :: t) = .ok m ↔ ∃ version clientId, StrFits clientId ∧ m = clientHello version clientId
    ∧ t = putU8 version ++ putStr clientId
  := by
  have h := (reads_u8.bindAll fun version => reads_str.bindAll fun clientId =>
    ReadsAll.done "trailing bytes in client hello" (clientHello version clientId)).need
    "truncated client hello"
  apply (run_eq_ok_iff h 5 t m).trans
  simp [Then, StrFits, and_assoc]

/-- The fields of an admin hello are taken from the message by position. -/
theorem decode_adminHello (t : List UInt8) (m : Msg) :
  decode (6 :: t) = .ok m ↔ ∃ version mode, m = adminHello version mode
    ∧ t = putU8 version ++ putU8 mode
  := run_two_eq_ok_iff adminHello (run_malformed _) 6 t m

theorem decode_snapshot (t : List UInt8) (m : Msg) :
  decode (7 :: t) = .ok m ↔ ∃ snap, (snap.InRange ∧ snap.Fits) ∧ m = snapshot snap
    ∧ 7 :: t = (snapshot snap).encode
  := by
  have h := (reads_u8.bindAll fun version => reads_str.bindAll fun serverId =>
    reads_listeners.bindAll fun listeners => reads_clients.bindAll fun clients =>
    reads_routes.bindAll fun routes => reads_bridges.bindAll fun bridgeClients =>
    reads_pairs.bindAll fun pairs => ReadsAll.done
      "trailing bytes in snapshot: the admin reader and the server are different versions"
      (snapshot ⟨version, serverId, listeners, clients, routes, bridgeClients, pairs⟩)).need
    "truncated snapshot"
  apply (run_eq_ok_iff h 7 t m).trans
  constructor
  · rintro ⟨version, _, _, rfl, ⟨serverId, _, _, ⟨hid, rfl⟩, ⟨listeners, _, _, ⟨hlisteners, rfl⟩,
      ⟨clients, _, _, ⟨⟨hclients, hcs⟩, rfl⟩, ⟨routes, _, _, ⟨⟨hroutes, hrs⟩, rfl⟩,
      ⟨bridgeClients, _, _, ⟨⟨hbridges, hes⟩, rfl⟩, ⟨pairs, _, _, ⟨⟨hpairs, hps⟩, rfl⟩,
      ⟨rfl, rfl⟩, rfl⟩, rfl⟩, rfl⟩, rfl⟩, rfl⟩, rfl⟩, rfl⟩
    refine ⟨⟨version, serverId, listeners, clients, routes, bridgeClients, pairs⟩, ⟨⟨hid, fun c hc => (hcs c hc).1, hrs, fun e he => (hes e he).1, hps⟩, hlisteners,
      ⟨hclients, fun c hc => (hcs c hc).2⟩, hroutes, ⟨hbridges, fun e he => (hes e he).2⟩, hpairs⟩,
      rfl, ?_⟩
    simp [encode, putU8]
  · rintro ⟨snap, ⟨⟨hid, hcs, hrs, hes, hps⟩, hlisteners, ⟨hclients, hcs'⟩, hroutes,
      ⟨hbridges, hes'⟩, hpairs⟩, rfl, ht⟩
    have ht : t = putU8 snap.version ++ (putStr snap.serverId ++ (putList putListener snap.listeners
        ++ (putList putClient snap.clients ++ (putList putRoute snap.routes
        ++ (putList putBridge snap.bridgeClients ++ (putList putPair snap.pairs ++ [])))))) := by
      simpa [encode, putU8] using ht
    exact ⟨_, _, _, rfl, ⟨_, _, _, ⟨hid, rfl⟩, ⟨_, _, _, ⟨hlisteners, rfl⟩,
      ⟨_, _, _, ⟨⟨hclients, fun c hc => ⟨hcs c hc, hcs' c hc⟩⟩, rfl⟩, ⟨_, _, _, ⟨⟨hroutes, hrs⟩, rfl⟩,
      ⟨_, _, _, ⟨⟨hbridges, fun e he => ⟨hes e he, hes' e he⟩⟩, rfl⟩, ⟨_, _, _, ⟨⟨hpairs, hps⟩, rfl⟩,
      ⟨rfl, rfl⟩, rfl⟩, rfl⟩, rfl⟩, rfl⟩, rfl⟩, rfl⟩, ht⟩

/-- A body that is the target of a mutation and nothing else. -/
theorem run_target_eq_ok_iff (ctor : Ipv4Addr → Proto → UInt16 → Msg) (tag : UInt8)
    (t : List UInt8) (m : Msg) :
  (sized (tag :: t) 8 (do
      let (bindIp, proto, port) ← takeTarget
      pure (ctor bindIp proto port))).run ⟨tag :: t, 1, none⟩ = .ok m
    ↔ ∃ bindIp proto port, m = ctor bindIp proto port ∧ t = putTarget bindIp proto port
  := by
  have h := reads_target.map fun x => ctor x.1 x.2.1 x.2.2
  apply (sized_run_eq_ok_iff h rfl tag t m).trans
  simp

theorem decode_setRoute (t : List UInt8) (m : Msg) :
  decode (10 :: t) = .ok m ↔ ∃ bindIp proto port clientId, StrFits clientId
    ∧ m = setRoute bindIp proto port clientId
    ∧ t = putIp bindIp ++ (putU8 (protoByte proto) ++ (putU16 port ++ putStr clientId))
  := by
  have h := reads_ip.bindAll fun bindIp =>
    (reads_proto.bindAll fun proto => reads_u16.bindAll fun port => reads_str.bindAll fun clientId =>
      ReadsAll.done "trailing bytes in set route" (setRoute bindIp proto port clientId)).need
      "truncated set route"
  apply (run_eq_ok_iff h 10 t m).trans
  simp [Then, StrFits, and_assoc]

theorem decode_mutationResult (t : List UInt8) (m : Msg) :
  decode (12 :: t) = .ok m ↔ ∃ ok msg, StrFits msg ∧ m = mutationResult ok msg
    ∧ t = putU8 (flagByte ok) ++ putStr msg
  := by
  have h := ((reads_flag "unknown mutation result ok").bindAll fun ok => reads_str.bindAll fun msg =>
    ReadsAll.done "trailing bytes in mutation result" (mutationResult ok msg)).need
    "truncated mutation result"
  apply (run_eq_ok_iff h 12 t m).trans
  simp [-Bool.exists_bool, Then, StrFits, and_assoc]

theorem decode_fwdOptions (t : List UInt8) (m : Msg) :
  decode (13 :: t) = .ok m ↔ ∃ entries, ListFits entries ∧ m = fwdOptions entries
    ∧ t = putFwdEntries entries
  := by
  have h := reads_fwdEntries.bindAll fun entries =>
    ReadsAll.done "trailing bytes in forward options" (fwdOptions entries)
  apply (run_eq_ok_iff h 13 t m).trans
  simp [Then, and_assoc]

theorem decode_openProxy (t : List UInt8) (m : Msg) :
  decode (15 :: t) = .ok m ↔ ∃ port id capability peer localAddr, peer.Plain ∧ localAddr.Plain
    ∧ m = openProxy port id capability peer localAddr
    ∧ t = putU16 port ++ (putU64 id ++ (capability.toList ++ (putSockaddr peer
      ++ putSockaddr localAddr)))
  := by
  have h := (reads_u16.bindAll fun port => reads_u64.bindAll fun id =>
    (reads_arr32 "capability").bindAll fun capability => reads_sockaddr.bindAll fun peer =>
    reads_sockaddr.bindAll fun localAddr => ReadsAll.done "trailing bytes in proxy open"
      (openProxy port id capability peer localAddr)).need "truncated proxy open"
  apply (run_eq_ok_iff h 15 t m).trans
  simp [Then, and_assoc]

theorem decode_peerAnnounce (t : List UInt8) (m : Msg) :
  decode (16 :: t) = .ok m ↔ ∃ provides identity, IsProvides provides
    ∧ m = peerAnnounce provides identity ∧ t = putU8 provides ++ identity.toList
  := by
  have h := reads_provides.seq fun provides => (reads_arr32 "peer identity").seq fun identity =>
    Fixed.pure (peerAnnounce provides identity)
  apply (sized_run_eq_ok_iff h rfl 16 t m).trans
  simp [Then, and_assoc]

theorem decode_peerAnnounceAck (t : List UInt8) (m : Msg) :
  decode (17 :: t) = .ok m ↔ ∃ observed, observed.Plain ∧ m = peerAnnounceAck observed
    ∧ t = putSockaddr observed
  := by
  have h := reads_sockaddr.bindAll fun observed =>
    ReadsAll.done "trailing bytes in peer announce ack" (peerAnnounceAck observed)
  apply (run_eq_ok_iff h 17 t m).trans
  simp [Then, and_assoc]

theorem decode_peerConnect (t : List UInt8) (m : Msg) :
  decode (18 :: t) = .ok m ↔ ∃ peerId want, IsWant want ∧ m = peerConnect peerId want
    ∧ t = peerId.toList ++ putU8 want
  := by
  have h := (reads_arr32 "peer identity").seq fun peerId => reads_want.seq fun want =>
    Fixed.pure (peerConnect peerId want)
  apply (sized_run_eq_ok_iff h rfl 18 t m).trans
  simp [Then, and_assoc]

theorem decode_peerResult (t : List UInt8) (m : Msg) :
  decode (19 :: t) = .ok m ↔ ∃ peerId want pairId status, IsWant want
    ∧ m = peerResult peerId want pairId status
    ∧ t = peerId.toList ++ (putU8 want ++ (putU64 pairId ++ putU8 (peerStatusByte status)))
  := by
  have h := (reads_arr32 "peer identity").seq fun peerId => reads_want.seq fun want =>
    reads_u64.seq fun pairId => reads_peerStatus.seq fun status =>
    Fixed.pure (peerResult peerId want pairId status)
  apply (sized_run_eq_ok_iff h rfl 19 t m).trans
  simp [Then, and_assoc]

theorem decode_peerProbe (t : List UInt8) (m : Msg) :
  decode (20 :: t) = .ok m ↔ ∃ pairId peerId probeId probeCapability challenge provides,
    IsWant provides ∧ m = peerProbe pairId peerId probeId probeCapability challenge provides
    ∧ t = putU64 pairId ++ (peerId.toList ++ (putU64 probeId ++ (probeCapability.toList
      ++ (challenge.toList ++ putU8 provides))))
  := by
  have h := reads_u64.seq fun pairId => (reads_arr32 "peer identity").seq fun peerId =>
    reads_u64.seq fun probeId => (reads_arr32 "capability").seq fun probeCapability =>
    (reads_arr32 "pair challenge").seq fun challenge => reads_want.seq fun provides =>
    Fixed.pure (peerProbe pairId peerId probeId probeCapability challenge provides)
  apply (sized_run_eq_ok_iff h rfl 20 t m).trans
  simp [Then, and_assoc]

theorem decode_peerInfo (t : List UInt8) (m : Msg) :
  decode (21 :: t) = .ok m ↔ ∃ pairId candidates, (∀ a ∈ candidates, a.Plain)
    ∧ ListFits candidates ∧ m = peerInfo pairId candidates
    ∧ t = putU64 pairId ++ putList putSockaddr candidates
  := by
  have h := (reads_u64.bindAll fun pairId => reads_u16.bindAll fun count =>
    (reads_sockaddr.times count.toNat).bindAll fun candidates =>
    ReadsAll.done "trailing bytes in peer info" (peerInfo pairId candidates)).need
    "truncated peer info"
  apply (run_eq_ok_iff h 21 t m).trans
  constructor
  · rintro ⟨pairId, _, _, rfl, ⟨count, _, _, rfl, ⟨candidates, _, _, ⟨⟨hlen, hplain⟩, rfl⟩,
      ⟨rfl, rfl⟩, rfl⟩, rfl⟩, rfl⟩
    have hfits : candidates.length ≤ u16Max := hlen ▸ toNat_le_u16Max count
    refine ⟨pairId, candidates, hplain, hfits, rfl, ?_⟩
    simp [putList_of_le putSockaddr hfits, hlen]
  · rintro ⟨pairId, candidates, hplain, hfits, rfl, rfl⟩
    refine ⟨pairId, _, _, rfl, ⟨UInt16.ofNat candidates.length, _, _, rfl, ⟨candidates, _, _,
      ⟨⟨(toNat_count hfits).symm, hplain⟩, rfl⟩, ⟨rfl, rfl⟩, rfl⟩, rfl⟩, ?_⟩
    simp [putList_of_le putSockaddr hfits]

theorem decode_peerRelayOpen (t : List UInt8) (m : Msg) :
  decode (22 :: t) = .ok m ↔ ∃ pairId id capability, m = peerRelayOpen pairId id capability
    ∧ t = putU64 pairId ++ (putU64 id ++ capability.toList)
  := by
  have h := reads_u64.seq fun pairId => reads_u64.seq fun id =>
    (reads_arr32 "capability").seq fun capability => Fixed.pure (peerRelayOpen pairId id capability)
  apply (sized_run_eq_ok_iff h rfl 22 t m).trans
  simp [Then]

theorem decode_peerPath (t : List UInt8) (m : Msg) :
  decode (23 :: t) = .ok m ↔ ∃ pairId status, m = peerPath pairId status
    ∧ t = putU64 pairId ++ putU8 (pathStatusByte status)
  := by
  have h := reads_u64.seq fun pairId => reads_pathStatus.seq fun status =>
    Fixed.pure (peerPath pairId status)
  apply (sized_run_eq_ok_iff h rfl 23 t m).trans
  simp [Then]

theorem decode_clientHelloAck (t : List UInt8) (m : Msg) :
  decode (24 :: t) = .ok m ↔ ∃ clientId bridgeCapability, StrFits clientId
    ∧ m = clientHelloAck clientId bridgeCapability
    ∧ t = putStr clientId ++ bridgeCapability.toList
  := by
  have h := reads_str.bindAll fun clientId =>
    ((reads_arr32 "capability").map fun bridgeCapability =>
      clientHelloAck clientId bridgeCapability).left "invalid client hello ack capability"
  apply (run_eq_ok_iff h 24 t m).trans
  simp [Then, StrFits, and_assoc]

theorem decode_peerChallenge (t : List UInt8) (m : Msg) :
  decode (25 :: t) = .ok m ↔ ∃ ephPub nonce, m = peerChallenge ephPub nonce
    ∧ t = ephPub.toList ++ nonce.toList
  := by
  have h := (reads_arr32 "challenge ephemeral").seq fun ephPub =>
    (reads_arr32 "challenge nonce").seq fun nonce => Fixed.pure (peerChallenge ephPub nonce)
  apply (sized_run_eq_ok_iff h rfl 25 t m).trans
  simp [Then]

theorem decode_peerProof (t : List UInt8) (m : Msg) :
  decode (26 :: t) = .ok m ↔ ∃ mac, m = peerProof mac ∧ t = mac.toList
  := by
  have h := (reads_arr32 "announce proof").map fun mac => peerProof mac
  exact sized_run_eq_ok_iff h rfl 26 t m

theorem decode_peerAnnounceRefuse (t : List UInt8) (m : Msg) :
  decode (27 :: t) = .ok m ↔ ∃ reason, m = peerAnnounceRefuse reason
    ∧ t = putU8 (refuseReasonByte reason)
  := by
  have h := reads_refuseReason.map fun reason => peerAnnounceRefuse reason
  exact sized_run_eq_ok_iff h rfl 27 t m

/-- A message that is its tag alone. -/
theorem run_bare_eq_ok_iff (tag : UInt8) (c : Msg) (t : List UInt8) (m : Msg) :
  (sized (tag :: t) 1 (pure c)).run ⟨tag :: t, 1, none⟩ = .ok m ↔ m = c ∧ t = []
  := sized_run_eq_ok_iff (Fixed.pure c) rfl tag t m

/-- A client credential, made into a message. -/
theorem run_clientCredential_eq_ok_iff (ctor : String → Option (Bytes 32) → Msg) (tag : UInt8)
    (t : List UInt8) (m : Msg) :
  (do
      let (clientId, secret) ← takeClientCredential
      pure (ctor clientId secret) : Rd Msg).run ⟨tag :: t, 1, none⟩ = .ok m
    ↔ ∃ clientId secret, m = ctor clientId secret ∧ StrFits clientId
      ∧ tag :: t = clientCredential tag clientId secret
  := by
  have h := (reads_clientCredential tag).map fun x => ctor x.1 x.2
  apply (run_eq_ok_iff h tag t m).trans
  simp [putU8]

theorem decode_removeClient (t : List UInt8) (m : Msg) :
  decode (31 :: t) = .ok m ↔ ∃ clientId, StrFits clientId ∧ m = removeClient clientId
    ∧ t = putStr clientId
  := by
  have h := reads_str.bindAll fun clientId =>
    ReadsAll.done "trailing bytes in remove client" (removeClient clientId)
  apply (run_eq_ok_iff h 31 t m).trans
  simp [Then, StrFits, and_assoc]

theorem decode_disconnectClient (t : List UInt8) (m : Msg) :
  decode (32 :: t) = .ok m ↔ ∃ clientId, StrFits clientId ∧ m = disconnectClient clientId
    ∧ t = putStr clientId
  := by
  have h := reads_str.bindAll fun clientId =>
    ReadsAll.done "trailing bytes in disconnect client" (disconnectClient clientId)
  apply (run_eq_ok_iff h 32 t m).trans
  simp [Then, StrFits, and_assoc]

end Msg

end ZeroNat

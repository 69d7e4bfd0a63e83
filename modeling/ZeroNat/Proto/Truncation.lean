import ZeroNat.Lib.Layout
import ZeroNat.Proto.Canonical

/-!
# Truncated control messages

The body of a message is laid out as its tag says, whatever the values of its capability and
enumeration bytes and however long its lists are, as long as its strings can be
length-prefixed.  Since the extent of a layout can be told from the front, no message is the
beginning of another, and a message cut short is refused.
-/

open Layout

namespace ZeroNat

open Rd

/-! ### Messages whose strings fit -/

def RouteEntry.StrsFit (r : RouteEntry) : Prop :=
  StrFits r.clientId

def BridgeEntry.StrsFit (e : BridgeEntry) : Prop :=
  StrFits e.label ∧ StrFits e.peer

def PairEntry.StrsFit (p : PairEntry) : Prop :=
  StrFits p.consumerId ∧ StrFits p.providerId

def SnapshotBody.StrsFit (s : SnapshotBody) : Prop :=
  StrFits s.serverId ∧ (∀ c ∈ s.clients, StrFits c.clientId) ∧ (∀ r ∈ s.routes, r.StrsFit)
    ∧ (∀ e ∈ s.bridgeClients, e.StrsFit) ∧ ∀ p ∈ s.pairs, p.StrsFit

namespace Msg

/-- The strings of a message can be length-prefixed. -/
def StrsFit : Msg → Prop
  | clientHello _ clientId => StrFits clientId
  | clientHelloAck clientId _ => StrFits clientId
  | snapshot snap => snap.StrsFit
  | setRoute _ _ _ clientId => StrFits clientId
  | mutationResult _ msg => StrFits msg
  | addClient clientId _ => StrFits clientId
  | setClientSecret clientId _ => StrFits clientId
  | removeClient clientId => StrFits clientId
  | disconnectClient clientId => StrFits clientId
  | _ => True

theorem InRange.strsFit {m : Msg} (h : m.InRange) :
  m.StrsFit
  := by
  cases m with
  | snapshot snap =>
      obtain ⟨hid, hclients, hroutes, hbridge, hpairs⟩ := h
      refine ⟨hid, fun c hc => (hclients c hc).1, fun r hr => (hroutes r hr).1, ?_, ?_⟩
      · intro e he
        obtain ⟨hlabel, -, hpeer⟩ := hbridge e he
        exact ⟨hlabel, hpeer⟩
      · intro p hp
        obtain ⟨hconsumer, hprovider, -⟩ := hpairs p hp
        exact ⟨hconsumer, hprovider⟩
  | clientHello version clientId => exact h
  | clientHelloAck clientId bridgeCapability => exact h
  | setRoute bindIp proto port clientId => exact h
  | mutationResult ok msg => exact h
  | addClient clientId secret => exact h
  | setClientSecret clientId secret => exact h
  | removeClient clientId => exact h
  | disconnectClient clientId => exact h
  | _ => trivial

end Msg

/-! ### Layouts of the fields and entries -/

/-- A string after its length. -/
def strLayout : Layout := sized 2

/-- The family byte of a socket address says how long it is. -/
def sockaddrLayout : Layout :=
  chosen fun family => if family = 4 then fixed 6 else fixed 18

/-- A flag, and a secret when it is set. -/
def secretLayout : Layout :=
  chosen fun given => if given = 0 then fixed 0 else fixed 32

def clientLayout : Layout :=
  seq (seq strLayout (fixed 1)) (counted 2 (fixed 8))

def routeLayout : Layout :=
  seq (seq (fixed 7) strLayout) (fixed 2)

def bridgeLayout : Layout :=
  seq (seq (seq (seq strLayout (fixed 2)) strLayout) (counted 2 (fixed 6))) (fixed 40)

def pairLayout : Layout :=
  seq (seq strLayout strLayout) (fixed 2)

theorem putStr_mem {s : String} (h : StrFits s) :
  putStr s ∈ strLayout.words
  := by
  have hlt : (utf8 s).length < 256 ^ 2 := by
    rw [StrFits, u16Max] at h
    omega
  rw [putStr, putU16, toNat_count h]
  exact sized_mem hlt

theorem putList_mem {α : Type} {put : α → List UInt8} {entry : Layout} {l : List α}
    (h : ∀ a ∈ l, put a ∈ entry.words) :
  putList put l ∈ (counted 2 entry).words
  := by
  have hfits : ListFits (truncate l) := listFits_truncate l
  have hlt : (truncate l).length < 256 ^ 2 := by
    rw [ListFits, u16Max] at hfits
    omega
  rw [← putList_truncate, putList_of_le put hfits, putU16, toNat_count hfits]
  apply counted_mem hlt
  intro a ha
  exact h a (mem_of_mem_truncate ha)

theorem putSockaddr_mem (a : SocketAddr) :
  putSockaddr a ∈ sockaddrLayout.words
  := by
  rw [putSockaddr]
  cases a.ip with
  | v4 ip => exact chosen_mem (fixed_mem (by simp))
  | v6 octets => exact chosen_mem (fixed_mem (by simp [putBytes, octets.toList_length]))

theorem putSecret_mem (secret : Option (Bytes 32)) :
  putU8 (flagByte secret.isSome) ++ putSecret secret ∈ secretLayout.words
  := by
  cases secret with
  | none => exact chosen_mem (fixed_mem rfl)
  | some secret => exact chosen_mem (fixed_mem secret.toList_length)

theorem putTarget_mem (bindIp : Ipv4Addr) (proto : Proto) (port : UInt16) :
  putTarget bindIp proto port ∈ (fixed 7).words
  := fixed_mem (by simp [putTarget])

theorem putFwdEntry_mem (e : FwdOptionEntry) :
  putFwdEntry e ∈ (fixed 8).words
  := fixed_mem (by simp [putFwdEntry])

theorem putListener_mem (l : Listener) :
  putListener l ∈ (fixed 8).words
  := fixed_mem (by simp [putListener, putTarget])

theorem putClient_mem {c : ClientEntry} (h : StrFits c.clientId) :
  putClient c ∈ clientLayout.words
  := seq_mem (seq_mem (putStr_mem h) (fixed_mem rfl)) (putList_mem fun e _ => putFwdEntry_mem e)

theorem putRoute_mem {r : RouteEntry} (h : r.StrsFit) :
  putRoute r ∈ routeLayout.words
  := by
  rw [putRoute, List.append_assoc]
  exact seq_mem (seq_mem (putTarget_mem r.bindIp r.proto r.port) (putStr_mem h)) (fixed_mem rfl)

theorem putMac_mem (m : MacAddr) :
  putMac m ∈ (fixed 6).words
  := fixed_mem m.toList_length

theorem putBridge_mem {e : BridgeEntry} (h : e.StrsFit) :
  putBridge e ∈ bridgeLayout.words
  := by
  have hmacs : putList putMac e.macs ∈ (counted 2 (fixed 6)).words :=
    putList_mem fun m _ => putMac_mem m
  have hcounters : putU64 e.rxBytes ++ (putU64 e.rxFrames ++ (putU64 e.txBytes
      ++ (putU64 e.txFrames ++ (putU32 e.uptimeSecs ++ putU32 e.idleSecs)))) ∈ (fixed 40).words :=
    fixed_mem (by simp)
  have hflags : putU8 (flagByte e.named) ++ putU8 e.transport ∈ (fixed 2).words := fixed_mem rfl
  have hmem := seq_mem (seq_mem (seq_mem (seq_mem (putStr_mem h.1) hflags) (putStr_mem h.2)) hmacs)
    hcounters
  simpa only [putBridge, bridgeLayout, List.append_assoc] using hmem

theorem putPair_mem {p : PairEntry} (h : p.StrsFit) :
  putPair p ∈ pairLayout.words
  := by
  rw [putPair, List.append_assoc]
  exact seq_mem (seq_mem (putStr_mem h.1) (putStr_mem h.2)) (fixed_mem rfl)

namespace Msg

/-! ### Layouts of the bodies -/

/-- The layout of what follows the tag of a message. -/
def bodyLayout (tag : UInt8) : Layout :=
  match tag with
  | 2 => fixed 43
  | 3 => fixed 41
  | 5 => seq (fixed 1) strLayout
  | 6 => fixed 2
  | 7 => seq (seq (seq (seq (seq (seq (fixed 1) strLayout) (counted 2 (fixed 8)))
      (counted 2 clientLayout)) (counted 2 routeLayout)) (counted 2 bridgeLayout))
      (counted 2 pairLayout)
  | 8 | 9 | 11 => fixed 7
  | 10 => seq (fixed 7) strLayout
  | 12 => seq (fixed 1) strLayout
  | 13 => counted 2 (fixed 8)
  | 15 => seq (seq (fixed 42) sockaddrLayout) sockaddrLayout
  | 16 | 18 => fixed 33
  | 17 => sockaddrLayout
  | 19 => fixed 42
  | 20 => fixed 113
  | 21 => seq (fixed 8) (counted 2 sockaddrLayout)
  | 22 => fixed 48
  | 23 => fixed 9
  | 24 => seq strLayout (fixed 32)
  | 25 => fixed 64
  | 26 => fixed 32
  | 27 => fixed 1
  | 29 | 30 => seq strLayout secretLayout
  | 31 | 32 => strLayout
  | _ => fixed 0

/-- A message is its tag and a body of the layout of the tag. -/
theorem encode_mem {m : Msg} (h : m.StrsFit) :
  ∃ tag t, m.encode = tag :: t ∧ t ∈ (bodyLayout tag).words
  := by
  cases m with
  | ping => exact ⟨1, [], rfl, fixed_mem rfl⟩
  | «open» proto port id capability =>
      exact ⟨2, _, rfl, fixed_mem (by simp [putBytes, capability.toList_length])⟩
  | data version id capability =>
      exact ⟨3, _, rfl, fixed_mem (by simp [putBytes, capability.toList_length])⟩
  | pong => exact ⟨4, [], rfl, fixed_mem rfl⟩
  | clientHello version clientId => exact ⟨5, _, rfl, seq_mem (fixed_mem rfl) (putStr_mem h)⟩
  | clientHelloAck clientId bridgeCapability =>
      exact ⟨24, _, rfl, seq_mem (putStr_mem h) (fixed_mem bridgeCapability.toList_length)⟩
  | clientHelloRefuse => exact ⟨28, [], rfl, fixed_mem rfl⟩
  | adminHello version mode => exact ⟨6, _, rfl, fixed_mem rfl⟩
  | snapshot snap =>
      obtain ⟨hid, hclients, hroutes, hbridge, hpairs⟩ := h
      have hlists := seq_mem (seq_mem (seq_mem (seq_mem (seq_mem (seq_mem
        (fixed_mem (n := 1) (x := putU8 snap.version) rfl) (putStr_mem hid))
        (putList_mem (l := snap.listeners) fun l _ => putListener_mem l))
        (putList_mem fun c hc => putClient_mem (hclients c hc)))
        (putList_mem fun r hr => putRoute_mem (hroutes r hr)))
        (putList_mem fun e he => putBridge_mem (hbridge e he)))
        (putList_mem fun p hp => putPair_mem (hpairs p hp))
      exact ⟨7, _, rfl, hlists⟩
  | addListener bindIp proto port => exact ⟨8, _, rfl, putTarget_mem bindIp proto port⟩
  | removeListener bindIp proto port => exact ⟨9, _, rfl, putTarget_mem bindIp proto port⟩
  | setRoute bindIp proto port clientId =>
      exact ⟨10, _, rfl, seq_mem (putTarget_mem bindIp proto port) (putStr_mem h)⟩
  | clearRoute bindIp proto port => exact ⟨11, _, rfl, putTarget_mem bindIp proto port⟩
  | mutationResult ok msg => exact ⟨12, _, rfl, seq_mem (fixed_mem rfl) (putStr_mem h)⟩
  | fwdOptions entries => exact ⟨13, _, rfl, putList_mem fun e _ => putFwdEntry_mem e⟩
  | fwdOptionsAck => exact ⟨14, [], rfl, fixed_mem rfl⟩
  | openProxy port id capability peer localAddr =>
      have hfixed : putU16 port ++ putU64 id ++ putBytes capability.toList ∈ (fixed 42).words :=
        fixed_mem (by simp [putBytes, capability.toList_length])
      exact ⟨15, _, rfl, seq_mem (seq_mem hfixed (putSockaddr_mem peer))
        (putSockaddr_mem localAddr)⟩
  | peerAnnounce provides identity =>
      exact ⟨16, _, rfl, fixed_mem (by simp [putBytes, identity.toList_length])⟩
  | peerAnnounceAck observed => exact ⟨17, _, rfl, putSockaddr_mem observed⟩
  | peerChallenge ephPub nonce =>
      exact ⟨25, _, rfl,
        fixed_mem (by simp [putBytes, ephPub.toList_length, nonce.toList_length])⟩
  | peerProof mac => exact ⟨26, _, rfl, fixed_mem mac.toList_length⟩
  | peerAnnounceRefuse reason => exact ⟨27, _, rfl, fixed_mem rfl⟩
  | peerConnect peerId want =>
      exact ⟨18, _, rfl, fixed_mem (by simp [putBytes, peerId.toList_length])⟩
  | peerResult peerId want pairId status =>
      exact ⟨19, _, rfl, fixed_mem (by simp [putBytes, peerId.toList_length])⟩
  | peerProbe pairId peerId probeId probeCapability challenge provides =>
      exact ⟨20, _, rfl, fixed_mem (by simp [putBytes, peerId.toList_length,
        probeCapability.toList_length, challenge.toList_length])⟩
  | peerInfo pairId candidates =>
      exact ⟨21, _, rfl, seq_mem (fixed_mem (length_putU64 pairId))
        (putList_mem fun a _ => putSockaddr_mem a)⟩
  | peerRelayOpen pairId id capability =>
      exact ⟨22, _, rfl, fixed_mem (by simp [putBytes, capability.toList_length])⟩
  | peerPath pairId status => exact ⟨23, _, rfl, fixed_mem (by simp)⟩
  | addClient clientId secret =>
      refine ⟨29, putStr clientId ++ (putU8 (flagByte secret.isSome) ++ putSecret secret), ?_, ?_⟩
      · simp [encode, clientCredential, putU8]
      · exact seq_mem (putStr_mem h) (putSecret_mem secret)
  | setClientSecret clientId secret =>
      refine ⟨30, putStr clientId ++ (putU8 (flagByte secret.isSome) ++ putSecret secret), ?_, ?_⟩
      · simp [encode, clientCredential, putU8]
      · exact seq_mem (putStr_mem h) (putSecret_mem secret)
  | removeClient clientId => exact ⟨31, _, rfl, putStr_mem h⟩
  | disconnectClient clientId => exact ⟨32, _, rfl, putStr_mem h⟩

/-- Whatever the decoder accepts is in range, and its strings fit. -/
theorem strsFit_of_decode {b : List UInt8} {m : Msg} (h : decode b = .ok m) :
  m.StrsFit
  := by
  apply InRange.strsFit
  cases b with
  | nil => exact (run_malformed [] _ m h).elim
  | cons tag t =>
      rw [decode, decodeBody, List.head?_cons] at h
      -- One case for each tag, in the order of the decoder, and a last one for all the others.
      split at h
      case h_33 => exact (run_malformed _ _ _ h).elim
      all_goals
        rename_i heq
        obtain rfl := Option.some.inj heq
      case h_1 =>
          obtain rfl := Except.ok.inj h
          trivial
      case h_2 =>
          obtain ⟨_, _, _, _, rfl, -⟩ := (decode_open t m).mp h
          trivial
      case h_3 =>
          obtain ⟨_, _, _, rfl, -⟩ := (decode_data t m).mp h
          trivial
      case h_4 =>
          obtain rfl := Except.ok.inj h
          trivial
      case h_5 =>
          obtain ⟨_, _, hid, rfl, -⟩ := (decode_clientHello t m).mp h
          exact hid
      case h_6 =>
          obtain ⟨_, _, rfl, -⟩ := (decode_adminHello t m).mp h
          trivial
      case h_7 =>
          obtain ⟨_, hsnap, rfl, -⟩ := (decode_snapshot t m).mp h
          exact hsnap.1
      case h_8 =>
          obtain ⟨_, _, _, rfl, -⟩ := (run_target_eq_ok_iff addListener 8 t m).mp h
          trivial
      case h_9 =>
          obtain ⟨_, _, _, rfl, -⟩ := (run_target_eq_ok_iff removeListener 9 t m).mp h
          trivial
      case h_10 =>
          obtain ⟨_, _, _, _, hid, rfl, -⟩ := (decode_setRoute t m).mp h
          exact hid
      case h_11 =>
          obtain ⟨_, _, _, rfl, -⟩ := (run_target_eq_ok_iff clearRoute 11 t m).mp h
          trivial
      case h_12 =>
          obtain ⟨_, _, hmsg, rfl, -⟩ := (decode_mutationResult t m).mp h
          exact hmsg
      case h_13 =>
          obtain ⟨_, _, rfl, -⟩ := (decode_fwdOptions t m).mp h
          trivial
      case h_14 =>
          obtain ⟨rfl, -⟩ := (run_bare_eq_ok_iff 14 fwdOptionsAck t m).mp h
          trivial
      case h_15 =>
          obtain ⟨_, _, _, _, _, hpeer, hlocal, rfl, -⟩ := (decode_openProxy t m).mp h
          exact ⟨hpeer, hlocal⟩
      case h_16 =>
          obtain ⟨_, _, hprovides, rfl, -⟩ := (decode_peerAnnounce t m).mp h
          exact hprovides
      case h_17 =>
          obtain ⟨_, hobserved, rfl, -⟩ := (decode_peerAnnounceAck t m).mp h
          exact hobserved
      case h_18 =>
          obtain ⟨_, _, hwant, rfl, -⟩ := (decode_peerConnect t m).mp h
          exact hwant
      case h_19 =>
          obtain ⟨_, _, _, _, hwant, rfl, -⟩ := (decode_peerResult t m).mp h
          exact hwant
      case h_20 =>
          obtain ⟨_, _, _, _, _, _, hwant, rfl, -⟩ := (decode_peerProbe t m).mp h
          exact hwant
      case h_21 =>
          obtain ⟨_, _, hplain, _, rfl, -⟩ := (decode_peerInfo t m).mp h
          exact hplain
      case h_22 =>
          obtain ⟨_, _, _, rfl, -⟩ := (decode_peerRelayOpen t m).mp h
          trivial
      case h_23 =>
          obtain ⟨_, _, rfl, -⟩ := (decode_peerPath t m).mp h
          trivial
      case h_24 =>
          obtain ⟨_, _, hid, rfl, -⟩ := (decode_clientHelloAck t m).mp h
          exact hid
      case h_25 =>
          obtain ⟨_, _, rfl, -⟩ := (decode_peerChallenge t m).mp h
          trivial
      case h_26 =>
          obtain ⟨_, rfl, -⟩ := (decode_peerProof t m).mp h
          trivial
      case h_27 =>
          obtain ⟨_, rfl, -⟩ := (decode_peerAnnounceRefuse t m).mp h
          trivial
      case h_28 =>
          obtain ⟨rfl, -⟩ := (run_bare_eq_ok_iff 28 clientHelloRefuse t m).mp h
          trivial
      case h_29 =>
          obtain ⟨_, _, rfl, hid, -⟩ := (run_clientCredential_eq_ok_iff addClient 29 t m).mp h
          exact hid
      case h_30 =>
          obtain ⟨_, _, rfl, hid, -⟩ := (run_clientCredential_eq_ok_iff setClientSecret 30 t m).mp h
          exact hid
      case h_31 =>
          obtain ⟨_, hid, rfl, -⟩ := (decode_removeClient t m).mp h
          exact hid
      case h_32 =>
          obtain ⟨_, hid, rfl, -⟩ := (decode_disconnectClient t m).mp h
          exact hid

/-- Truncation is detected: no message is accepted from a strict beginning of the encoding of
a message whose strings fit. -/
theorem decode_truncated {m : Msg} (h : m.StrsFit) {p : List UInt8} (hfront : p <+: m.encode)
    (hne : p ≠ m.encode) :
  ∃ e, decode p = .error e
  := by
  cases hdecode : decode p with
  | error e => exact ⟨e, rfl⟩
  | ok m' =>
      exfalso
      cases p with
      | nil => exact run_malformed [] _ m' hdecode
      | cons tag t =>
          obtain ⟨tag', body, hencode, hbody⟩ := encode_mem h
          rw [hencode, List.cons_prefix_cons] at hfront
          obtain ⟨rfl, ht⟩ := hfront
          apply hne
          rw [hencode]
          -- A tag alone is the whole of a ping or a pong; elsewhere the decoder has read all of
          -- the bytes as a body of the layout of their tag.
          by_cases htag : LooseTag tag
          · have hnil : body = [] := by
              obtain rfl | rfl := htag <;> exact List.length_eq_zero_iff.mp hbody
            subst hnil
            rw [List.prefix_nil.mp ht]
          · obtain ⟨tag', t', hencode', ht'⟩ := encode_mem (strsFit_of_decode hdecode)
            rw [encode_of_decode htag hdecode, List.cons.injEq] at hencode'
            obtain ⟨rfl, rfl⟩ := hencode'
            rw [(bodyLayout tag).prefixFree t ht' body hbody ht]

/-- A snapshot that is cut one byte short, in the middle of its last list, is refused. -/
theorem decode_truncated_snapshot :
  let snap : SnapshotBody :=
    { version := 1, serverId := "0", listeners := [], clients := [], routes := [],
      bridgeClients := [], pairs := [⟨"a", "b", 255, some .relay⟩] }
  ∃ e, decode (snapshot snap).encode.dropLast = .error e
  := by
  intro snap
  have hfit : (snapshot snap).StrsFit := by
    refine ⟨by decide, by simp [snap], by simp [snap], by simp [snap], ?_⟩
    intro p hp
    obtain rfl := List.mem_singleton.mp hp
    exact ⟨by decide, by decide⟩
  apply decode_truncated hfit (List.dropLast_prefix _)
  intro heq
  have hlen := congrArg List.length heq
  rw [List.length_dropLast] at hlen
  exact absurd hlen (by decide)

end Msg

end ZeroNat

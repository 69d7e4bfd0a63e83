import ZeroNat.Pppoe.Ppp.Checked
import ZeroNat.Pppoe.Ppp.Emission
import ZeroNat.Pppoe.Ppp.Negotiation

/-!
# What is sent fits

Whatever a payload says, the packets that answer it fit their length fields: a reply to a
request holds no more than the request, and our own requests are short.
-/

open BigEndian

namespace ZeroNat.Pppoe.Ppp

/-- What the options of a packet add up to, each of them no longer than its length byte can
say. -/
theorem parseOptions_bounded {σ : Type} {f : σ → UInt8 → List UInt8 → σ} (I : σ → Prop)
    (size : σ → ℕ)
    (hstep : ∀ s code data, data.length + 2 < 2 ^ 8 → I s →
      I (f s code data) ∧ size (f s code data) ≤ size s + (2 + data.length))
    {s : σ} (h : I s) (pkt : List UInt8) :
  I (parseOptions f s pkt).1 ∧ size (parseOptions f s pkt).1 ≤ size s + pkt.length
  := by
  suffices hfuel : ∀ fuel, I (parseOptionsFrom f fuel s pkt).1
      ∧ size (parseOptionsFrom f fuel s pkt).1 ≤ size s + pkt.length from hfuel pkt.length
  intro fuel
  fun_induction parseOptionsFrom f fuel s pkt with
  | case1 => exact ⟨h, Nat.le_add_right _ _⟩
  | case2 => exact ⟨h, Nat.le_add_right _ _⟩
  | case3 => exact ⟨h, Nat.le_add_right _ _⟩
  | case4 => exact ⟨h, Nat.le_add_right _ _⟩
  | case5 => exact ⟨h, Nat.le_add_right _ _⟩
  | case6 fuel s code len rest hover hshort ih =>
      have hlt : len.toNat < 2 ^ 8 := len.toNat_lt
      have hdata : (rest.take (len.toNat - 2)).length = len.toNat - 2 := by
        rw [List.length_take]
        omega
      obtain ⟨hI, hsize⟩ := hstep s code (rest.take (len.toNat - 2)) (by omega) h
      obtain ⟨hI', hsize'⟩ := ih hI
      refine ⟨hI', ?_⟩
      simp only [List.length_drop, List.length_cons] at hsize' ⊢
      omega

/-- Our own options are short, and so is a correction. -/
class BoundedProtocol (P : Type) [Protocol P] : Prop where
  ownOptions_fits (proto : P) : ∀ o ∈ Protocol.ownOptions proto, o.data.length + 2 < 2 ^ 8
  ownOptions_short (proto : P) :
    ((Protocol.ownOptions proto).map OptionVal.bufferLen).sum ≤ 18
  nack_short (proto : P) (code : UInt8) (data correction : List UInt8) :
    (Protocol.peerOptionReceived proto code data).1 = .nack correction →
      correction.length ≤ data.length

instance : BoundedProtocol Lcp where
  ownOptions_fits l := by
    change ∀ o ∈ l.ownOptions, _
    rw [Lcp.ownOptions]
    cases l.mruRej <;> cases l.magicRej <;> simp
  ownOptions_short l := by
    change (l.ownOptions.map OptionVal.bufferLen).sum ≤ 18
    rw [Lcp.ownOptions]
    cases l.mruRej <;> cases l.magicRej <;> simp [OptionVal.bufferLen]
  nack_short l code data correction := by
    change (l.peerOptionReceived code data).1 = _ → _
    rw [Lcp.peerOptionReceived]
    repeat' split
    all_goals simp

instance : BoundedProtocol Ipv4cp where
  ownOptions_fits c := by
    change ∀ o ∈ c.ownOptions, _
    rw [Ipv4cp.ownOptions, Ipv4cp.addressOption, Ipv4cp.addressOption, Ipv4cp.addressOption]
    cases c.address.isRejected <;> cases c.requestDns <;> cases c.dnsServer1.isRejected <;>
      cases c.dnsServer2.isRejected <;> simp
  ownOptions_short c := by
    change (c.ownOptions.map OptionVal.bufferLen).sum ≤ 18
    rw [Ipv4cp.ownOptions, Ipv4cp.addressOption, Ipv4cp.addressOption, Ipv4cp.addressOption]
    cases c.address.isRejected <;> cases c.requestDns <;> cases c.dnsServer1.isRejected <;>
      cases c.dnsServer2.isRejected <;> simp [OptionVal.bufferLen]
  nack_short c code data correction := by
    change (c.peerOptionReceived code data).1 = _ → _
    rw [Ipv4cp.peerOptionReceived]
    repeat' split
    all_goals simp

/-! ### Negotiation -/

namespace OptionFsm

variable {P : Type} [Protocol P] {m : OptionFsm P} {pkt : List UInt8}

theorem fits_sendTerminateAck (m : OptionFsm P) (id : UInt8) :
  (m.sendTerminateAck id).Fits
  := by
  refine ⟨trivial, ?_⟩
  change 2 + (1 + 1 + 2 + 0) < 2 ^ 16
  decide

theorem fits_onTerminateReq (m : OptionFsm P) (id : UInt8) :
  ∀ q ∈ (m.onTerminateReq id).1, q.Fits
  := by
  intro q hq
  cases hstate : m.state <;>
    simp only [onTerminateReq, hstate, List.not_mem_nil, List.mem_singleton] at hq
  all_goals
    subst hq
    apply fits_sendTerminateAck

theorem fits_sendProtocolReject (m : OptionFsm P) (h : pkt.length + 6 < 2 ^ 16) :
  (m.sendProtocolReject pkt).1.Fits
  := by
  refine ⟨trivial, ?_⟩
  change 2 + (1 + 1 + 2 + pkt.length) < 2 ^ 16
  omega

/-- The reply to an echo request is as long as the request. -/
theorem fits_sendEchoResponse (h : pkt.length < 2 ^ 16) :
  ∀ q ∈ m.sendEchoResponse pkt, q.Fits
  := by
  intro q hq
  rw [sendEchoResponse] at hq
  have hlen : (pkt.drop 2).length = pkt.length - 2 := List.length_drop
  cases hdrop : pkt.drop 2 with
  | nil => simp [hdrop] at hq
  | cons b rest =>
      rw [hdrop, List.length_cons] at hlen
      simp only [hdrop, Option.mem_def, Option.some.injEq] at hq
      subst hq
      refine ⟨trivial, ?_⟩
      rw [Packet.bufferLen, Payload.bufferLen]
      split
      · split
        · simp only [List.length_append, List.length_take, List.length_drop, length_u32ToBe,
            List.length_cons] at *
          omega
        · rw [List.length_cons]
          omega
      · rw [List.length_cons]
        omega

variable [BoundedProtocol P]

theorem fits_configureRequest (m : OptionFsm P) (id : UInt8) :
  (m.configureRequest id).1.Fits
  := by
  have hshort := BoundedProtocol.ownOptions_short m.proto
  refine ⟨BoundedProtocol.ownOptions_fits m.proto, ?_⟩
  change 2 + (1 + 1 + 2 + ((Protocol.ownOptions m.proto).map OptionVal.bufferLen).sum) < 2 ^ 16
  omega

theorem fits_sendConfigureRequest (m : OptionFsm P) :
  m.sendConfigureRequest.1.Fits
  := fits_configureRequest _ _

theorem fits_openFsm (m : OptionFsm P) :
  m.openFsm.1.Fits
  := by
  rw [openFsm]
  split
  · apply fits_sendConfigureRequest
  · apply fits_sendConfigureRequest

theorem fits_replyOption {r : Reply P} {b : Bool} {code : UInt8} {data : List UInt8}
    (hdata : data.length + 2 < 2 ^ 8) (h : ∀ o ∈ r.opts, o.data.length + 2 < 2 ^ 8) :
  (∀ o ∈ (replyOption b r code data).opts, o.data.length + 2 < 2 ^ 8)
    ∧ ((replyOption b r code data).opts.map OptionVal.bufferLen).sum
        ≤ (r.opts.map OptionVal.bufferLen).sum + (2 + data.length)
  := by
  -- the options that are kept, and perhaps one more
  have hkept : ∀ (opts : List OptionVal) (d : List UInt8), d.length ≤ data.length →
      opts = [] ∨ opts = r.opts → ∀ opts', opts' = opts ∨ opts' = opts ++ [⟨code, d⟩] →
      (∀ o ∈ opts', o.data.length + 2 < 2 ^ 8)
        ∧ (opts'.map OptionVal.bufferLen).sum
            ≤ (r.opts.map OptionVal.bufferLen).sum + (2 + data.length) := by
    intro opts d hd hopts opts' hopts'
    have hfits : ∀ o ∈ opts, o.data.length + 2 < 2 ^ 8 := by
      obtain rfl | rfl := hopts
      · simp
      · exact h
    have hsum : (opts.map OptionVal.bufferLen).sum ≤ (r.opts.map OptionVal.bufferLen).sum := by
      obtain rfl | rfl := hopts
      · simp
      · exact le_rfl
    obtain rfl | rfl := hopts'
    · exact ⟨hfits, by omega⟩
    · constructor
      · intro o ho
        obtain ho | ho := List.mem_append.mp ho
        · exact hfits o ho
        · obtain rfl := List.mem_singleton.mp ho
          change d.length + 2 < 2 ^ 8
          omega
      · rw [List.map_append, List.sum_append, List.map_singleton, List.sum_singleton,
          OptionVal.bufferLen]
        dsimp only
        omega
  have hreply : ∀ (retCode : Code) (d : List UInt8), d.length ≤ data.length →
      ∀ c opts, (c, opts) = (if r.code.toU8 < retCode.toU8 then (retCode, [])
        else (r.code, r.opts)) →
      (∀ o ∈ (if c = retCode then opts ++ [⟨code, d⟩] else opts), o.data.length + 2 < 2 ^ 8)
        ∧ ((if c = retCode then opts ++ [⟨code, d⟩] else opts).map OptionVal.bufferLen).sum
            ≤ (r.opts.map OptionVal.bufferLen).sum + (2 + data.length) := by
    intro retCode d hd c opts hc
    apply hkept opts d hd
    · split at hc
      · exact .inl (congrArg Prod.snd hc)
      · exact .inr (congrArg Prod.snd hc)
    · split
      · exact .inr rfl
      · exact .inl rfl
  rw [replyOption]
  dsimp only
  apply hreply
  · split
    · exact le_rfl
    · rename_i correction hv
      split
      · exact le_rfl
      · exact BoundedProtocol.nack_short _ _ _ _ hv
    · exact le_rfl
  · rfl

/-- The reply to a request holds no more than the request. -/
theorem fits_receivedConfigureReq (h : 6 ≤ pkt.length) (h' : pkt.length < 2 ^ 16) :
  ∀ q ∈ (m.receivedConfigureReq pkt).1, q.Fits
  := by
  intro q hq
  obtain ⟨hfits, hsum⟩ := parseOptions_bounded (f := replyOption (decide (maxFailure ≤ m.naksSent)))
    (fun r => ∀ o ∈ r.opts, o.data.length + 2 < 2 ^ 8)
    (fun r => (r.opts.map OptionVal.bufferLen).sum) (fun _ _ _ => fits_replyOption)
    (s := (⟨Protocol.peerOptionsStart m.proto, .configureAck, []⟩ : Reply P)) (by simp)
    (pkt.drop 6)
  simp only [receivedConfigureReq] at hq
  split at hq
  · simp at hq
  · simp only [Option.mem_def, Option.some.injEq] at hq
    subst hq
    refine ⟨hfits, ?_⟩
    simp only [List.map_nil, List.sum_nil, List.length_drop] at hsum
    rw [Packet.bufferLen, Payload.bufferLen, PppPayload.bufferLen]
    omega

theorem fits_afterConfigureReq (m : OptionFsm P) (acked : Bool) :
  ∀ q ∈ (m.afterConfigureReq acked).1, q.Fits
  := by
  intro q hq
  cases acked <;> cases hstate : m.state <;>
    simp only [afterConfigureReq, hstate, List.not_mem_nil, List.mem_singleton] at hq
  · subst hq
    apply fits_sendConfigureRequest
  · subst hq
    apply fits_sendConfigureRequest

theorem fits_onConfigureReq (h : 6 ≤ pkt.length) (h' : pkt.length < 2 ^ 16) :
  ∀ q ∈ (m.onConfigureReq pkt).1, q.Fits
  := by
  have hresp := fits_receivedConfigureReq (m := m) h h'
  rw [onConfigureReq]
  split
  · simp
  · rename_i resp m' heq
    rw [heq] at hresp
    intro q hq
    obtain rfl | hq := List.mem_cons.mp hq
    · exact hresp q rfl
    · exact fits_afterConfigureReq _ _ q hq

theorem fits_onConfigureAck (m : OptionFsm P) :
  ∀ q ∈ m.onConfigureAck.1, q.Fits
  := by
  intro q hq
  cases hstate : m.state <;>
    simp only [onConfigureAck, hstate, List.not_mem_nil, List.mem_singleton] at hq
  · subst hq
    apply fits_sendConfigureRequest
  · subst hq
    apply fits_sendConfigureRequest

theorem fits_onConfigureNack (m : OptionFsm P) (isRej : Bool) (pkt : List UInt8) :
  ∀ q ∈ (m.onConfigureNack isRej pkt).1, q.Fits
  := by
  intro q hq
  simp only [onConfigureNack] at hq
  split at hq
  · simp at hq
  · split at hq
    · simp at hq
    · obtain rfl := List.mem_singleton.mp hq
      apply fits_sendConfigureRequest
    · obtain rfl := List.mem_singleton.mp hq
      apply fits_sendConfigureRequest

theorem fits_handleControl (m : OptionFsm P) (code : Code) (id : UInt8) (h : 6 ≤ pkt.length)
    (h' : pkt.length < 2 ^ 16) :
  ∀ q ∈ (m.handleControl code id pkt).1, q.Fits
  := by
  -- a closed machine answers everything else with an acknowledgement of its end
  have hclosed : ∀ x : List Packet × OptionFsm P, (∀ q ∈ x.1, q.Fits) →
      ∀ q ∈ (if m.state = .closed then ([m.sendTerminateAck id], m) else x).1, q.Fits := by
    intro x hx
    split
    · intro q hq
      obtain rfl := List.mem_singleton.mp hq
      apply fits_sendTerminateAck
    · exact hx
  cases code with
  | echoReq =>
      rw [handleControl]
      split
      · intro q hq
        exact fits_sendEchoResponse h' q (Option.mem_toList.mp hq)
      · simp
  | discardReq => simp [handleControl]
  | configureReq => exact hclosed _ (fits_onConfigureReq h h')
  | configureAck => exact hclosed _ (fits_onConfigureAck m)
  | configureNack => exact hclosed _ (fits_onConfigureNack m false pkt)
  | configureRej => exact hclosed _ (fits_onConfigureNack m true pkt)
  | terminateReq => exact hclosed _ (fits_onTerminateReq m id)
  | unknown => exact hclosed _ (by simp)
  | terminateAck => exact hclosed _ (by simp)
  | codeRej => exact hclosed _ (by simp)
  | protocolRej => exact hclosed _ (by simp)
  | echoReply => exact hclosed _ (by simp)

/-- Whatever a payload says, the packets that answer it fit. -/
theorem fits_handle (m : OptionFsm P) (h : pkt.length < 2 ^ 16) :
  ∀ q ∈ (m.handle pkt).1, q.Fits
  := by
  intro q hq
  rw [handle] at hq
  split at hq
  · simp at hq
  rename_i hsix
  dsimp only at hq
  split at hq
  · simp at hq
  split at hq
  · simp at hq
  rename_i hfour hover
  generalize ofBe [pkt.getD 4 0, pkt.getD 5 0] = len at *
  have hmin : 6 ≤ (pkt.take (len + 2)).length := by
    rw [List.length_take]
    omega
  have hmax : (pkt.take (len + 2)).length < 2 ^ 16 := by
    rw [List.length_take]
    omega
  exact fits_handleControl _ _ _ hmin hmax q hq

end OptionFsm

/-! ### The link -/

/-- The bytes of a frame fit the length field of the session frame that carries them. -/
def OutFrame.Fits : OutFrame → Prop
  | .packet p => p.Fits
  | .raw bytes => bytes.length < 2 ^ 16

/-- The credentials fit their length bytes. -/
structure PPP.Bounded (l : PPP) : Prop where
  username : l.username.length < 2 ^ 8
  papUsername : l.pap.username.length < 2 ^ 8
  papPassword : l.pap.password.length < 2 ^ 8

namespace Pap

theorem fits_sendConfigureRequest {p : Pap} (hu : p.username.length < 2 ^ 8)
    (hp : p.password.length < 2 ^ 8) :
  p.sendConfigureRequest.1.Fits
  := by
  refine ⟨⟨hu, hp⟩, ?_⟩
  change 2 + (1 + 1 + 2 + (1 + p.username.length + 1 + p.password.length)) < 2 ^ 16
  omega

theorem fits_openPap {p : Pap} (hu : p.username.length < 2 ^ 8) (hp : p.password.length < 2 ^ 8) :
  p.openPap.1.Fits
  := by
  rw [openPap]
  split
  · exact fits_sendConfigureRequest hu hp
  · apply fits_sendConfigureRequest hu hp

theorem fits_handle {p : Pap} (hu : p.username.length < 2 ^ 8) (hp : p.password.length < 2 ^ 8)
    (pkt : List UInt8) :
  ∀ q ∈ (p.handle pkt).1, q.Fits
  := by
  intro q hq
  rw [handle] at hq
  split at hq
  · simp at hq
  · dsimp only at hq
    split at hq
    · simp at hq
    · split at hq
      · simp at hq
      · obtain rfl := List.mem_singleton.mp hq
        exact fits_sendConfigureRequest hu hp
      · simp at hq

/-- The credentials stay what they are. -/
theorem credentials_handle (p : Pap) (pkt : List UInt8) :
  (p.handle pkt).2.username = p.username ∧ (p.handle pkt).2.password = p.password
  := by
  rw [handle]
  split
  · exact ⟨rfl, rfl⟩
  · dsimp only
    split
    · exact ⟨rfl, rfl⟩
    · split <;> exact ⟨rfl, rfl⟩

theorem credentials_openPap (p : Pap) :
  p.openPap.2.username = p.username ∧ p.openPap.2.password = p.password
  := by
  rw [openPap]
  split <;> exact ⟨rfl, rfl⟩

end Pap

theorem Chap.fits_handle (md5 : Digest) (c : Chap) (pkt : List UInt8) {user : List UInt8}
    (secret : List UInt8) (h : user.length < 2 ^ 8) :
  ∀ resp, (c.handle md5 pkt user secret).1 = .ok (some resp) → resp.length < 2 ^ 16
  := by
  intro resp hresp
  rw [handle] at hresp
  have hbuild : ∀ id digest, (buildResponse id digest user).length < 2 ^ 16 := by
    intro id digest
    simp [buildResponse]
    omega
  dsimp only at hresp
  split at hresp
  · contradiction
  split at hresp
  · contradiction
  split at hresp
  · split at hresp
    · contradiction
    split at hresp
    · contradiction
    split at hresp
    · contradiction
    obtain rfl := Option.some.inj (Except.ok.inj hresp)
    apply hbuild
  · split at hresp
    · simp at hresp
    · split at hresp <;> simp at hresp

namespace PPP

variable {l : PPP} {pkt : List UInt8}

theorem fits_packets {sent : List Packet} (h : ∀ q ∈ sent, q.Fits) :
  ∀ f ∈ sent.map OutFrame.packet, f.Fits
  := by
  intro f hf
  obtain ⟨q, hq, rfl⟩ := List.mem_map.mp hf
  exact h q hq

theorem fits_received (md5 : Digest) (h : l.Bounded) (hlen : pkt.length + 6 < 2 ^ 16) :
  ∀ f ∈ (l.received md5 pkt).2.1, f.Fits
  := by
  have hshort : pkt.length < 2 ^ 16 := by omega
  rw [received]
  split
  · simp
  · split
    · exact fits_packets (l.lcp.fits_handle hshort)
    · exact fits_packets (Pap.fits_handle h.papUsername h.papPassword pkt)
    · intro f hf
      dsimp only at hf
      split at hf
      · rename_i resp hresp
        obtain rfl := List.mem_singleton.mp hf
        exact Chap.fits_handle md5 _ _ _ h.username resp hresp
      · simp at hf
    · simp
    · exact fits_packets (l.ipv4cp.fits_handle hshort)
    · intro f hf
      obtain rfl := List.mem_singleton.mp hf
      exact l.lcp.fits_sendProtocolReject hlen

theorem Bounded.received (md5 : Digest) (h : l.Bounded) (pkt : List UInt8) :
  (l.received md5 pkt).2.2.Bounded
  := by
  rw [PPP.received]
  split
  · exact h
  · split
    · exact ⟨h.1, h.2, h.3⟩
    · obtain ⟨hu, hp⟩ := l.pap.credentials_handle pkt
      exact ⟨h.1, hu ▸ h.2, hp ▸ h.3⟩
    · exact ⟨h.1, h.2, h.3⟩
    · exact h
    · exact ⟨h.1, h.2, h.3⟩
    · exact ⟨h.1, h.2, h.3⟩

/-- The protocols above LCP are closed with it. -/
theorem Bounded.closing (h : l.Bounded) :
  Bounded
    (let l := if l.pap.state ≠ .closed then { l with pap := l.pap.close } else l
     if l.ipv4cp.state ≠ .closed then { l with ipv4cp := l.ipv4cp.close } else l)
  := by
  dsimp only
  repeat' split
  all_goals exact ⟨h.1, h.2, h.3⟩

theorem fits_pollEstablish (h : l.Bounded) :
  (∀ q ∈ l.pollEstablish.1, q.Fits) ∧ l.pollEstablish.2.Bounded
  := by
  rw [pollEstablish]
  by_cases hopen : l.lcp.state = .closed ∧ l.lcp.failed = false
  · have hstate : l.lcp.openFsm.2.state = .reqSent := OptionFsm.state_openFsm hopen.1
    have hb : Bounded { l with lcp := l.lcp.openFsm.2, opening := false } := ⟨h.1, h.2, h.3⟩
    rw [if_pos hopen]
    simp only [hstate, reduceCtorEq, if_false]
    refine ⟨?_, hb.closing⟩
    intro q hq
    obtain rfl := List.mem_singleton.mp hq
    apply OptionFsm.fits_openFsm
  · rw [if_neg hopen]
    dsimp only
    split
    · split
      · refine ⟨?_, h.1, h.2, h.3⟩
        intro q hq
        obtain rfl := List.mem_singleton.mp hq
        apply OptionFsm.fits_openFsm
      · exact ⟨by simp, h.1, h.2, h.3⟩
      · obtain ⟨hu, hp⟩ := l.pap.credentials_openPap
        refine ⟨?_, h.1, hu ▸ h.2, hp ▸ h.3⟩
        intro q hq
        obtain rfl := List.mem_singleton.mp hq
        exact Pap.fits_openPap h.papUsername h.papPassword
    · exact ⟨by simp, h.closing⟩

theorem fits_pollAuth (h : l.Bounded) :
  (∀ q ∈ l.pollAuth.1, q.Fits) ∧ l.pollAuth.2.Bounded
  := by
  rw [pollAuth]
  split
  · refine ⟨?_, h.1, h.2, h.3⟩
    intro q hq
    obtain rfl := List.mem_singleton.mp hq
    apply OptionFsm.fits_openFsm
  · split
    · exact ⟨by simp, h.1, h.2, h.3⟩
    · exact ⟨by simp, h⟩

theorem fits_pollPhase (h : l.Bounded) :
  (∀ q ∈ l.pollPhase.1, q.Fits) ∧ l.pollPhase.2.Bounded
  := by
  rw [pollPhase]
  split
  · exact ⟨by simp, h⟩
  · exact fits_pollEstablish h
  · exact fits_pollAuth h
  · split
    · exact ⟨by simp, h.1, h.2, h.3⟩
    · exact ⟨by simp, h⟩
  · exact ⟨by simp, h⟩

theorem fits_poll (h : l.Bounded) :
  ∀ f ∈ l.poll.1, f.Fits
  := fits_packets (fits_pollPhase h).1

theorem Bounded.poll (h : l.Bounded) :
  l.poll.2.Bounded
  := by
  have hb := (fits_pollPhase h).2
  rw [PPP.poll]
  dsimp only
  split
  · exact ⟨hb.1, hb.2, hb.3⟩
  · exact hb

theorem Bounded.openLink {l' : PPP} (h : l.Bounded) (hopen : l.openLink = .ok l') :
  l'.Bounded
  := by
  rw [PPP.openLink] at hopen
  split at hopen
  · obtain rfl := Except.ok.inj hopen
    exact ⟨h.1, h.2, h.3⟩
  · cases hopen

theorem Bounded.tick (h : l.Bounded) :
  l.tick.2.Bounded
  := ⟨h.1, h.2, h.3⟩

end PPP

end ZeroNat.Pppoe.Ppp

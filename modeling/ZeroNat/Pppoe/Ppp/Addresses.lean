import ZeroNat.Pppoe.Ppp.Requests

/-!
# The addresses that IPCP has agreed on

Our own address is that of a request of ours which the peer acknowledged, and the address of the
peer is that of a request of the peer which we acknowledged.  We keep the requests that IPCP has
sent, the newest first, and which of them were acknowledged.
-/

open BigEndian

namespace ZeroNat.Pppoe.Ppp

/-- The address that a request carries. -/
def carriedAddress (opts : List OptionVal) : Option Ipv4Addr :=
  (lastOption Ipv4cp.optIpAddress opts).map fun data => ⟨u32OfBe data⟩

theorem u32OfBe_u32ToBe (n : UInt32) :
  u32OfBe (u32ToBe n) = n
  := by
  rw [u32OfBe, u32ToBe, ofBe_toBe_of_lt n.toNat_lt]
  apply UInt32.ofNat_toNat

namespace Ipv4cp

/-- The address that we ask for. -/
def wanted (c : Ipv4cp) : Option Ipv4Addr :=
  if c.address.isRejected then none else some c.address.address

theorem code_addressOption {code : UInt8} {x : IpOption} {o : OptionVal}
    (h : o ∈ addressOption code x) :
  o.code = code
  := by
  rw [addressOption] at h
  split at h
  · cases h
  · rw [List.mem_singleton.mp h]

theorem carriedAddress_ownOptions (c : Ipv4cp) :
  carriedAddress (Protocol.ownOptions c) = c.wanted
  := by
  change carriedAddress (ownOptions c) = c.wanted
  have hdns : (if c.requestDns then
        addressOption optDns1 c.dnsServer1 ++ addressOption optDns2 c.dnsServer2
      else []).filter (fun o => o.code = optIpAddress) = [] := by
    rw [List.filter_eq_nil_iff]
    intro o ho
    split at ho
    · obtain ho | ho := List.mem_append.mp ho
      · rw [code_addressOption ho]
        decide
      · rw [code_addressOption ho]
        decide
    · cases ho
  rw [carriedAddress, lastOption, ownOptions, List.filter_append, hdns, List.append_nil,
    addressOption, wanted]
  split
  · rfl
  · simp [u32OfBe_u32ToBe]

/-- The address of the peer is the one that its request carries, or else the one before. -/
theorem peerAddress_judged {c : Ipv4cp} {opts : List OptionVal}
    (hacc : OptionFsm.Acceptable c opts) :
  (OptionFsm.judged c opts).peerAddress = (carriedAddress opts).getD c.peerAddress
  := by
  induction opts using List.reverseRecOn with
  | nil => rfl
  | append_singleton opts o ih =>
      obtain ⟨hopts, ho⟩ := OptionFsm.acceptable_concat.mp hacc
      rw [OptionFsm.judged_concat, carriedAddress, lastOption_concat]
      change (peerOptionReceived c o.code o.data).1 = .ack at ho
      change (peerOptionReceived (OptionFsm.judged c opts) o.code o.data).2.peerAddress = _
      rw [peerOptionReceived] at ho ⊢
      by_cases hcode : o.code = optIpAddress
      · rw [if_pos hcode] at ho ⊢
        rw [if_pos hcode]
        split at ho
        · rename_i hlen
          rw [if_pos hlen]
          rfl
        · cases ho
      · rw [if_neg hcode] at ho
        cases ho

/-- The address of the peer, once there is one, is that of a request. -/
def Agrees (c : Ipv4cp) (opts : List OptionVal) : Prop :=
  c.peerAddress ≠ unspecified → carriedAddress opts = some c.peerAddress

theorem agrees_judged {c : Ipv4cp} {opts : List OptionVal} (hacc : OptionFsm.Acceptable c opts)
    (haddr : (carriedAddress opts).isSome ∨ c.peerAddress = unspecified) :
  (OptionFsm.judged c opts).Agrees opts
  := by
  rw [Agrees, peerAddress_judged hacc]
  cases hopt : carriedAddress opts with
  | none =>
      intro hne
      simp only [hopt, Option.isSome_none, Bool.false_eq_true, false_or] at haddr
      exact absurd haddr hne
  | some ip => exact fun _ => rfl

/-- What is said of our options does not touch the address of the peer. -/
theorem agrees_ownOptionNacked {c : Ipv4cp} {opts : List OptionVal} (h : c.Agrees opts)
    (code : UInt8) (data : List UInt8) (isRej : Bool) :
  Agrees (Protocol.ownOptionNacked c code data isRej) opts
  := by
  have hpeer : (ownOptionNacked c code data isRej).peerAddress = c.peerAddress := by
    rw [ownOptionNacked]
    repeat' split
    all_goals rfl
  change Agrees (ownOptionNacked c code data isRej) opts
  rw [Agrees, hpeer]
  exact h

theorem address_judge (m : OptionFsm Ipv4cp) (p : List UInt8) :
  (m.judge p).1.proto.address = m.proto.address
  := by
  apply parseOptions_invariant (I := fun r : OptionFsm.Reply Ipv4cp =>
    r.proto.address = m.proto.address)
  · intro r code data hr
    have hkeep : (peerOptionReceived r.proto code data).2.address = r.proto.address := by
      rw [peerOptionReceived]
      repeat' split
      all_goals rfl
    exact hkeep.trans hr
  · rfl

end Ipv4cp

/-- A request of ours, and whether the peer acknowledged it. -/
structure Asked where
  id : UInt8
  opts : List OptionVal
  acked : Bool
deriving DecidableEq

namespace Asked

/-- The newest request with an identifier is acknowledged. -/
def mark (id : UInt8) : List Asked → List Asked
  | [] => []
  | a :: asked => if a.id = id then { a with acked := true } :: asked else a :: mark id asked

/-- The requests after a packet has arrived. -/
def answered (pkt : List UInt8) (asked : List Asked) : List Asked :=
  match control pkt with
  | some (.configureAck, id, _) => mark id asked
  | _ => asked

/-- The requests after some packets have been sent. -/
def note (asked : List Asked) (sent : List Packet) : List Asked :=
  sent.foldl (fun asked q =>
    match q.request? with
    | some (id, opts) => ⟨id, opts, false⟩ :: asked
    | none => asked) asked

/-- The newest request that was acknowledged. -/
def granted (asked : List Asked) : Option (List OptionVal) :=
  (asked.find? fun a => a.acked).map Asked.opts

/-- An address is asked for in a request that was acknowledged, and in all newer ones. -/
def Holds (ip : Ipv4Addr) : List Asked → Prop
  | [] => False
  | a :: asked => carriedAddress a.opts = some ip ∧ (a.acked = true ∨ Holds ip asked)

variable {ip : Ipv4Addr} {asked : List Asked} {pkt : List UInt8} {sent : List Packet}

theorem Holds.granted (h : Holds ip asked) :
  ∃ opts, granted asked = some opts ∧ carriedAddress opts = some ip
  := by
  induction asked with
  | nil => exact h.elim
  | cons a asked ih =>
      obtain ⟨haddr, h⟩ := h
      cases hacked : a.acked with
      | true => exact ⟨a.opts, by simp [Asked.granted, hacked], haddr⟩
      | false =>
          obtain h | h := h
          · simp [hacked] at h
          · obtain ⟨opts, hopts, hip⟩ := ih h
            refine ⟨opts, ?_, hip⟩
            rw [← hopts]
            simp [Asked.granted, hacked]

theorem Holds.mark (h : Holds ip asked) (id : UInt8) :
  Holds ip (mark id asked)
  := by
  induction asked with
  | nil => exact h.elim
  | cons a asked ih =>
      obtain ⟨haddr, h⟩ := h
      rw [Asked.mark]
      split
      · exact ⟨haddr, .inl rfl⟩
      · exact ⟨haddr, h.imp_right ih⟩

theorem Holds.answered (h : Holds ip asked) (pkt : List UInt8) :
  Holds ip (answered pkt asked)
  := by
  rw [Asked.answered]
  split
  · apply h.mark
  · exact h

theorem note_nil (asked : List Asked) :
  note asked [] = asked
  := rfl

theorem note_cons (asked : List Asked) (q : Packet) (sent : List Packet) :
  note asked (q :: sent) = note (note asked [q]) sent
  := rfl

theorem Holds.note (h : Holds ip asked)
    (hsent : ∀ q ∈ sent, ∀ r ∈ q.request?, carriedAddress r.2 = some ip) :
  Holds ip (note asked sent)
  := by
  induction sent generalizing asked with
  | nil => exact h
  | cons q sent ih =>
      rw [note_cons]
      apply ih _ fun q hq => hsent q (List.mem_cons_of_mem _ hq)
      rw [Asked.note, List.foldl_cons, List.foldl_nil]
      split
      · rename_i id opts hreq
        exact ⟨hsent q List.mem_cons_self (id, opts) hreq, .inr h⟩
      · exact h

theorem note_of_silent (h : ∀ q ∈ sent, q.request? = none) :
  note asked sent = asked
  := by
  induction sent with
  | nil => rfl
  | cons q sent ih =>
      rw [note, List.foldl_cons, h q List.mem_cons_self]
      exact ih fun q hq => h q (List.mem_cons_of_mem _ hq)

theorem note_answer {m : OptionFsm Ipv4cp} {p : List UInt8} {r : OptionFsm.Reply Ipv4cp} {b : Bool}
    (hj : m.judge p = (r, b)) (id : UInt8) (sent : List Packet) :
  note asked (OptionFsm.answer r id :: sent) = note asked sent
  := by
  rw [note, List.foldl_cons, Negotiation.request?_answer hj]
  rfl

variable {m m' : OptionFsm Ipv4cp}

/-- While IPCP is not closed, the newest request is the one that it waits for or that was
acknowledged, and it asks for the address that we want. -/
def Current (m : OptionFsm Ipv4cp) (asked : List Asked) : Prop :=
  m.state ≠ .closed → ∃ a rest, asked = a :: rest ∧ a.id = m.id
    ∧ carriedAddress a.opts = m.proto.wanted
    ∧ (m.state = .ackReceived ∨ m.state = .opened → a.acked = true)

theorem Current.mono (h : Current m asked) (hopen : m.state ≠ .closed) (hid : m'.id = m.id)
    (haddr : m'.proto.address = m.proto.address)
    (hsettled : m'.state = .ackReceived ∨ m'.state = .opened →
      m.state = .ackReceived ∨ m.state = .opened) :
  Current m' asked
  := by
  intro _
  obtain ⟨a, rest, hasked, ha, hip, hacked⟩ := h hopen
  refine ⟨a, rest, hasked, ha.trans hid.symm, ?_, fun hs => hacked (hsettled hs)⟩
  rw [hip, Ipv4cp.wanted, Ipv4cp.wanted, haddr]

/-- After a new request. -/
theorem current_request {id : UInt8} (hid : m'.id = id) (hproto : m'.proto = m.proto)
    (hstate : m'.state ≠ .ackReceived ∧ m'.state ≠ .opened) (asked : List Asked) :
  Current m' (note asked [m.request id])
  := by
  intro _
  refine ⟨⟨id, Protocol.ownOptions m.proto, false⟩, asked, rfl, hid.symm, ?_, ?_⟩
  · rw [hproto]
    apply Ipv4cp.carriedAddress_ownOptions
  · intro hs
    exact absurd hs (not_or.mpr hstate)

theorem Current.mark (h : Current m asked) (id : UInt8) :
  Current m (mark id asked)
  := by
  intro hopen
  obtain ⟨a, rest, rfl, ha, hip, hacked⟩ := h hopen
  rw [Asked.mark]
  split
  · exact ⟨_, rest, rfl, ha, hip, fun _ => rfl⟩
  · exact ⟨a, _, rfl, ha, hip, hacked⟩

theorem Current.answered (h : Current m asked) (pkt : List UInt8) :
  Current m (answered pkt asked)
  := by
  rw [Asked.answered]
  split
  · apply h.mark
  · exact h

/-- An acknowledgement of the newest request. -/
theorem Current.acked (h : Current m asked) (hopen : m.state ≠ .closed) {p : List UInt8}
    (hc : control pkt = some (.configureAck, m.id, p)) (hid : m'.id = m.id)
    (hproto : m'.proto = m.proto) :
  Current m' (Asked.answered pkt asked)
  := by
  intro _
  obtain ⟨a, rest, rfl, ha, hip, _⟩ := h hopen
  rw [Asked.answered, hc]
  dsimp only
  rw [Asked.mark, if_pos ha]
  exact ⟨_, rest, rfl, ha.trans hid.symm, hip.trans (by rw [hproto]), fun _ => rfl⟩

theorem current_openFsm (m : OptionFsm Ipv4cp) (asked : List Asked) (hclosed : m.state = .closed) :
  Current m.openFsm.2 (note asked [m.openFsm.1])
  := by
  have hstate := OptionFsm.state_openFsm hclosed
  rw [OptionFsm.openFsm, if_neg (not_not.mpr hclosed)] at hstate ⊢
  rw [OptionFsm.sendConfigureRequest_eq] at hstate ⊢
  refine current_request rfl rfl ?_ _
  rw [hstate]
  simp

theorem Current.ticked {q : Option Packet} (h : Current m asked) (htick : m.Ticked q m') :
  Current m' (Asked.note asked q.toList)
  := by
  cases htick with
  | still => exact h
  | waited hun => exact h.mono hun.1 rfl rfl fun hs => hs
  | exhausted hun => exact h.mono hun.1 rfl rfl fun hs => hs
  | gaveUp => exact fun hopen => absurd rfl hopen
  | resent hun =>
      refine current_request rfl rfl ?_ _
      dsimp only
      split
      · simp
      · rename_i hstate
        exact ⟨hstate, hun.2⟩

/-- A packet keeps the newest request current, if the acknowledgements that IPCP waits for carry
its identifier and the refusals are well-formed. -/
theorem Current.handled (h : Current m asked) (hh : m.Handled pkt sent m')
    (hack : ∀ id p, control pkt = some (.configureAck, id, p) →
      m.state = .reqSent ∨ m.state = .ackSent → id = m.id)
    (hwf : ∀ code id p, control pkt = some (code, id, p) →
      code = .configureNack ∨ code = .configureRej → m.state ≠ .closed →
      Negotiation.WellFormed p) :
  Current m' (Asked.note (Asked.answered pkt asked) sent)
  := by
  have haddr : ∀ {p r b}, m.judge p = (r, b) → r.proto.address = m.proto.address := by
    intro p r b hj
    rw [← Ipv4cp.address_judge m p, hj]
  cases hh with
  | dropped hsilent =>
      rw [note_of_silent fun q hq => Negotiation.request?_of_silent (hsilent q hq)]
      apply h.answered
  | malformedRequest _ hopen hj =>
      rw [note_nil]
      exact (h.answered pkt).mono hopen rfl (haddr hj) fun hs => hs
  | ackedRequest _ hj _ hs =>
      rw [note_answer hj, note_nil]
      refine (h.answered pkt).mono ?_ rfl (haddr hj) (by simp)
      obtain hs | hs := hs <;> simp [hs]
  | openedByRequest _ hj _ hs =>
      rw [note_answer hj, note_nil]
      exact (h.answered pkt).mono (by simp [hs]) rfl (haddr hj) (by simp [hs])
  | reopenedByRequest _ hj _ _ hm' =>
      rw [note_answer hj]
      refine current_request rfl rfl ?_ _
      simp
  | refusedRequest _ hj _ hun =>
      rw [note_answer hj, note_nil]
      refine (h.answered pkt).mono hun.1 rfl (haddr hj) ?_
      dsimp only
      split <;> simp
  | reopenedByRefusal _ hj _ _ hm' =>
      rw [note_answer hj]
      refine current_request rfl rfl ?_ _
      simp
  | ack hc hs =>
      obtain rfl := hack _ _ hc (.inl hs)
      exact h.acked (by simp [hs]) hc rfl rfl
  | openedByAck hc hs =>
      obtain rfl := hack _ _ hc (.inr hs)
      exact h.acked (by simp [hs]) hc rfl rfl
  | unexpectedAck _ _ hm' =>
      subst hm'
      refine current_request rfl rfl ?_ _
      simp [OptionFsm.requested]
  | malformedRefusal hc hcode hopen hr =>
      have hw := hwf _ _ _ hc hcode hopen
      rw [Negotiation.WellFormed, parseOptions_snd (fun _ _ _ => ()) _ () m.proto] at hw
      rw [OptionFsm.refuse] at hr
      rw [hr] at hw
      cases hw
  | refused _ _ _ _ hm' =>
      subst hm'
      refine current_request rfl rfl ?_ _
      simp only [OptionFsm.requested]
      split <;> simp
  | terminated => exact fun hopen => absurd rfl hopen
  | restarted _ hun =>
      rw [note_of_silent (by simp [OptionFsm.sendTerminateAck, Packet.request?])]
      exact (h.answered pkt).mono hun.1 rfl rfl (by simp)

end Asked

/-! ### What a packet does once there are addresses -/

namespace OptionFsm

section

variable {P : Type} [Protocol P] {m m' : OptionFsm P} {pkt : List UInt8} {sent : List Packet}

/-- Our requests carry the options that we want afterwards. -/
theorem Handled.requests (h : m.Handled pkt sent m') :
  ∀ q ∈ sent, ∀ r ∈ q.request?, r.2 = Protocol.ownOptions m'.proto
  := by
  intro q hq r hr
  cases h with
  | dropped hsilent =>
      rw [Negotiation.request?_of_silent (hsilent q hq)] at hr
      cases hr
  | malformedRequest | ack | openedByAck | malformedRefusal => cases hq
  | ackedRequest _ hj | openedByRequest _ hj | refusedRequest _ hj =>
      rw [List.mem_singleton.mp hq, Negotiation.request?_answer hj] at hr
      cases hr
  | reopenedByRequest _ hj | reopenedByRefusal _ hj =>
      obtain rfl | hq := List.mem_cons.mp hq
      · rw [Negotiation.request?_answer hj] at hr
        cases hr
      · rw [List.mem_singleton.mp hq] at hr
        obtain rfl := Option.some.inj hr
        rfl
  | unexpectedAck | refused =>
      rw [List.mem_singleton.mp hq] at hr
      obtain rfl := Option.some.inj hr
      rfl
  | terminated | restarted =>
      rw [List.mem_singleton.mp hq] at hr
      cases hr

theorem Ticked.proto_eq {q : Option Packet} (h : m.Ticked q m') :
  m'.proto = m.proto
  := by
  cases h <;> rfl

theorem Ticked.requests {q : Option Packet} (h : m.Ticked q m') :
  ∀ x ∈ q.toList, ∀ r ∈ x.request?, r.2 = Protocol.ownOptions m.proto
  := by
  intro x hx r hr
  cases h with
  | still | waited | exhausted | gaveUp => cases hx
  | resent =>
      rw [List.mem_singleton.mp hx] at hr
      obtain rfl := Option.some.inj hr
      rfl

/-- What is acknowledged is a request that is well-formed and acceptable. -/
theorem Handled.acks [LawfulProtocol P] (h : m.Handled pkt sent m')
    (hack : sent.any Packet.acks = true) :
  ∃ id p, control pkt = some (.configureReq, id, p) ∧ m.state ≠ .closed
    ∧ Negotiation.WellFormed p ∧ Acceptable m.proto (optionsOf p)
  := by
  have hset : ∀ {p r}, m.judge p = (r, true) → r.code = .configureAck →
      Negotiation.WellFormed p ∧ Acceptable m.proto (optionsOf p) := by
    intro p r hj hcode
    have hacc := judge_code_eq_ack m p
    rw [hj] at hacc
    exact ⟨(wellFormed_iff_judge hj).mpr rfl, hacc.mp hcode⟩
  -- an answer that is no acknowledgement, and a request of ours, do not count
  have hanswer : ∀ {r : Reply P} {id : UInt8}, r.code ≠ .configureAck →
      (answer r id).acks = false := by
    intro r id hcode
    simp only [Packet.acks, answer]
    split
    · rename_i heq
      exact absurd (Payload.ppp.inj heq).1 hcode
    · rfl
  have hrequest : ∀ (m : OptionFsm P) (id : UInt8), (m.request id).acks = false := fun _ _ => rfl
  cases h with
  | dropped hsilent =>
      obtain ⟨q, hq, hacks⟩ := List.any_eq_true.mp hack
      have hneg := hsilent q hq
      rw [Packet.acks] at hacks
      split at hacks
      · rename_i heq
        simp [Packet.negotiates, heq] at hneg
      · cases hacks
  | malformedRequest | ack | openedByAck | malformedRefusal => cases hack
  | ackedRequest hc hj hcode hs =>
      refine ⟨_, _, hc, ?_, hset hj hcode⟩
      obtain hs | hs := hs <;> simp [hs]
  | openedByRequest hc hj hcode hs | reopenedByRequest hc hj hcode hs =>
      exact ⟨_, _, hc, by simp [hs], hset hj hcode⟩
  | refusedRequest _ _ hcode | reopenedByRefusal _ _ hcode =>
      simp [hanswer hcode, hrequest] at hack
  | unexpectedAck | refused => simp [hrequest] at hack
  | terminated | restarted => simp [sendTerminateAck, Packet.acks] at hack

theorem proto_handle_refusal {code : Code} {id : UInt8} {p : List UInt8}
    (hc : control pkt = some (code, id, p)) (hcode : code = .configureNack ∨ code = .configureRej)
    (hopen : m.state ≠ .closed) :
  (m.handle pkt).2.proto = (m.refuse (decide (code = .configureRej)) p).1
  := by
  rw [handle_eq, hc]
  dsimp only
  obtain rfl | rfl := hcode
  · have hrearm : m.rearm .configureNack = { m with attempts := 0 } := by simp [rearm, hopen]
    simp only [handleControl, hrearm, if_neg hopen, onConfigureNack, refuse]
    repeat' split
    all_goals rfl
  · have hrearm : m.rearm .configureRej = { m with attempts := 0 } := by simp [rearm, hopen]
    simp only [handleControl, hrearm, if_neg hopen, onConfigureNack, refuse]
    repeat' split
    all_goals rfl

end

variable {m m' : OptionFsm Ipv4cp} {pkt : List UInt8} {sent : List Packet} {ip : Ipv4Addr}

theorem address_refused {c : Ipv4cp} {isRej : Bool} {opts : List OptionVal}
    (h : c.address = ⟨ip, false⟩)
    (hopts : ∀ o ∈ opts, o.code = Ipv4cp.optIpAddress → isRej = false ∧ o.data = u32ToBe ip.bits) :
  (opts.foldl (fun c o => Protocol.ownOptionNacked c o.code o.data isRej) c).address = ⟨ip, false⟩
  := by
  induction opts generalizing c with
  | nil => exact h
  | cons o opts ih =>
      rw [List.foldl_cons]
      apply ih _ fun x hx => hopts x (List.mem_cons_of_mem _ hx)
      change (Ipv4cp.ownOptionNacked c o.code o.data isRej).address = ⟨ip, false⟩
      rw [Ipv4cp.ownOptionNacked]
      split
      · rename_i hcode
        obtain ⟨rfl, hdata⟩ := hopts o List.mem_cons_self hcode
        have hlen : (u32ToBe ip.bits).length = 4 := length_u32ToBe ip.bits
        simp [IpOption.nacked, hdata, hlen, u32OfBe_u32ToBe, h]
      · repeat' split
        all_goals exact h

/-- The address that we want stays if every refusal leaves it. -/
theorem address_handle (h : m.proto.address = ⟨ip, false⟩)
    (hok : ∀ code id p, control pkt = some (code, id, p) →
      code = .configureNack ∨ code = .configureRej → m.state ≠ .closed →
      ∀ o ∈ optionsOf p, o.code = Ipv4cp.optIpAddress →
        code = .configureNack ∧ o.data = u32ToBe ip.bits) :
  (m.handle pkt).2.proto.address = ⟨ip, false⟩
  := by
  have hrefuse : ∀ code id p, control pkt = some (code, id, p) →
      code = .configureNack ∨ code = .configureRej → m.state ≠ .closed →
      (m.handle pkt).2.proto.address = ⟨ip, false⟩ := by
    intro code id p hc hcode hopen
    rw [proto_handle_refusal hc hcode hopen, refuse, parseOptions_fst]
    apply address_refused h
    intro o ho haddr
    obtain ⟨rfl, hdata⟩ := hok code id p hc hcode hopen o ho haddr
    exact ⟨rfl, hdata⟩
  have hjudge : ∀ {p r b}, m.judge p = (r, b) → r.proto.address = ⟨ip, false⟩ := by
    intro p r b hj
    rw [← h, ← Ipv4cp.address_judge m p, hj]
  have hh := m.handle_handled pkt
  generalize m.handle pkt = r at hh hrefuse ⊢
  obtain ⟨sent, m'⟩ := r
  cases hh with
  | dropped | ack | openedByAck | terminated | restarted => exact h
  | malformedRequest _ _ hj => exact hjudge hj
  | ackedRequest _ hj | openedByRequest _ hj | refusedRequest _ hj => exact hjudge hj
  | reopenedByRequest _ hj _ _ hm' | reopenedByRefusal _ hj _ _ hm' =>
      subst hm'
      exact hjudge hj
  | unexpectedAck _ _ hm' =>
      subst hm'
      exact h
  | malformedRefusal hc hcode hopen => exact hrefuse _ _ _ hc hcode hopen
  | refused hc hcode hopen => exact hrefuse _ _ _ hc hcode hopen

end OptionFsm

end ZeroNat.Pppoe.Ppp

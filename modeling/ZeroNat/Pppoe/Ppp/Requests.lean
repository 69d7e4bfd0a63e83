import ZeroNat.Pppoe.Ppp.Acknowledged

/-!
# The request that was acknowledged

What a protocol holds of the peer, compared with the last request of the peer that was
acknowledged.  A request is judged option by option, and what it sets on the way stays when the
request turns out to be malformed or is refused.
-/

namespace ZeroNat.Pppoe.Ppp

/-- The options of a packet, up to the first that is malformed. -/
def optionsOf (p : List UInt8) : List OptionVal :=
  (parseOptions (fun acc code data => acc ++ [⟨code, data⟩]) [] (p.drop 6)).1

/-- Going through the options of a packet is going through the list of them. -/
theorem parseOptions_fst {σ : Type} (f : σ → UInt8 → List UInt8 → σ) (s : σ) (p : List UInt8) :
  (parseOptions f s (p.drop 6)).1 = (optionsOf p).foldl (fun s o => f s o.code o.data) s
  := by
  rw [optionsOf]
  generalize p.drop 6 = pkt
  rw [parseOptions, parseOptions]
  generalize pkt.length = fuel
  suffices h : ∀ (acc : List OptionVal) (s₀ : σ),
      acc.foldl (fun s o => f s o.code o.data) s₀ = s →
      (parseOptionsFrom f fuel s pkt).1
        = (parseOptionsFrom (fun acc code data => acc ++ [OptionVal.mk code data]) fuel acc
            pkt).1.foldl (fun s o => f s o.code o.data) s₀ from h [] s rfl
  fun_induction parseOptionsFrom f fuel s pkt with
  | case1 =>
      intro acc s₀ h
      simp [parseOptionsFrom, h]
  | case2 s l hl =>
      intro acc s₀ h
      cases l <;> simp_all [parseOptionsFrom]
  | case3 =>
      intro acc s₀ h
      simp [parseOptionsFrom, h]
  | case4 fuel s code len rest hlen =>
      intro acc s₀ h
      simp [parseOptionsFrom, hlen, h]
  | case5 fuel s code len rest hlen hlen' =>
      intro acc s₀ h
      simp [parseOptionsFrom, hlen, hlen', h]
  | case6 fuel s code len rest hlen hlen' ih =>
      intro acc s₀ h
      simp only [parseOptionsFrom, hlen, hlen', if_false]
      apply ih
      rw [List.foldl_append, h]
      rfl

/-- The last option of a kind. -/
def lastOption (code : UInt8) (opts : List OptionVal) : Option (List UInt8) :=
  (opts.filter fun o => o.code = code).getLast?.map OptionVal.data

theorem lastOption_concat (code : UInt8) (opts : List OptionVal) (o : OptionVal) :
  lastOption code (opts ++ [o]) = if o.code = code then some o.data else lastOption code opts
  := by
  rw [lastOption, List.filter_append, List.filter_singleton]
  by_cases h : o.code = code
  · simp [h]
  · simp [h, lastOption]

namespace OptionFsm

variable {P : Type} [Protocol P]

/-- The protocol after the options of a request. -/
def judged (proto : P) (opts : List OptionVal) : P :=
  opts.foldl (fun proto o => (Protocol.peerOptionReceived proto o.code o.data).2)
    (Protocol.peerOptionsStart proto)

theorem judged_concat (proto : P) (opts : List OptionVal) (o : OptionVal) :
  judged proto (opts ++ [o])
    = (Protocol.peerOptionReceived (judged proto opts) o.code o.data).2
  := by
  rw [judged, List.foldl_append]
  rfl

/-- A request is acknowledged when every one of its options is. -/
def Acceptable (proto : P) (opts : List OptionVal) : Prop :=
  ∀ o ∈ opts, (Protocol.peerOptionReceived proto o.code o.data).1 = .ack

instance (proto : P) (opts : List OptionVal) : Decidable (Acceptable proto opts) :=
  inferInstanceAs (Decidable (∀ o ∈ opts, _))

theorem acceptable_concat {proto : P} {opts : List OptionVal} {o : OptionVal} :
  Acceptable proto (opts ++ [o])
    ↔ Acceptable proto opts ∧ (Protocol.peerOptionReceived proto o.code o.data).1 = .ack
  := by
  simp only [Acceptable, List.mem_append, List.mem_singleton]
  constructor
  · intro h
    exact ⟨fun x hx => h x (.inl hx), h o (.inr rfl)⟩
  · rintro ⟨h, ho⟩ x (hx | rfl)
    · exact h x hx
    · exact ho

variable [LawfulProtocol P]

theorem foldl_replyOption (proto : P) (naksExhausted : Bool) (opts : List OptionVal) :
  let r := opts.foldl (fun r o => replyOption naksExhausted r o.code o.data)
    ⟨Protocol.peerOptionsStart proto, .configureAck, []⟩
  r.proto = judged proto opts
    ∧ r.code ∈ [Code.configureAck, .configureNack, .configureRej]
    ∧ (r.code = .configureAck ↔ Acceptable proto opts)
  := by
  induction opts using List.reverseRecOn with
  | nil => simp [judged, Acceptable]
  | append_singleton opts o ih =>
      obtain ⟨hproto, hcode, hack⟩ := ih
      rw [List.foldl_append]
      dsimp only [List.foldl_cons, List.foldl_nil]
      refine ⟨?_, code_replyOption _ hcode _ _, ?_⟩
      · rw [judged_concat, ← hproto]
        rfl
      · rw [replyOption_code_eq_ack _ hcode, hack, acceptable_concat,
          LawfulProtocol.verdict_eq _ proto]

variable {m m' : OptionFsm P} {pkt p : List UInt8} {sent : List Packet}

theorem judge_proto (m : OptionFsm P) (p : List UInt8) :
  (m.judge p).1.proto = judged m.proto (optionsOf p)
  := by
  rw [judge, parseOptions_fst]
  exact (foldl_replyOption m.proto _ (optionsOf p)).1

theorem judge_code_eq_ack (m : OptionFsm P) (p : List UInt8) :
  (m.judge p).1.code = .configureAck ↔ Acceptable m.proto (optionsOf p)
  := by
  rw [judge, parseOptions_fst]
  exact (foldl_replyOption m.proto _ (optionsOf p)).2.2

end OptionFsm

/-- A packet that acknowledges a request. -/
def Packet.acks (q : Packet) : Bool :=
  match q.payload with
  | .ppp .configureAck _ _ => true
  | _ => false

/-- The options of the request that was acknowledged last, once a packet has been handled. -/
def lastAcked (last : Option (List OptionVal)) (pkt : List UInt8) (sent : List Packet) :
    Option (List OptionVal) :=
  if sent.any Packet.acks then (control pkt).map fun c => optionsOf c.2.2 else last

namespace OptionFsm

variable {P : Type} [Protocol P] {m m' : OptionFsm P} {pkt p : List UInt8} {sent : List Packet}
  {last : Option (List OptionVal)}

/-- The machine stands by an acknowledgement it sent. -/
def Standing (m : OptionFsm P) : Prop :=
  m.state = .ackSent ∨ m.state = .opened

instance (m : OptionFsm P) : Decidable m.Standing :=
  inferInstanceAs (Decidable (_ ∨ _))

/-- While the machine stands by an acknowledgement, the protocol agrees with the request. -/
def Agrees (A : P → List OptionVal → Prop) (m : OptionFsm P) (last : Option (List OptionVal)) :
    Prop :=
  m.Standing → ∃ opts, last = some opts ∧ A m.proto opts

theorem lastAcked_of_silent (h : ∀ q ∈ sent, q.negotiates = false) :
  lastAcked last pkt sent = last
  := by
  rw [lastAcked, if_neg]
  rw [List.any_eq_true]
  rintro ⟨q, hq, hack⟩
  have hneg := h q hq
  rw [Packet.acks] at hack
  split at hack
  · rename_i heq
    simp [Packet.negotiates, heq] at hneg
  · cases hack

theorem wellFormed_iff_judge {r : Reply P} {b : Bool} (hj : m.judge p = (r, b)) :
  Negotiation.WellFormed p ↔ b = true
  := by
  have hsnd := parseOptions_snd (fun _ _ _ => ())
    (replyOption (decide (maxFailure ≤ m.naksSent))) ()
    ⟨Protocol.peerOptionsStart m.proto, .configureAck, []⟩ (p.drop 6)
  rw [judge] at hj
  rw [Negotiation.WellFormed, hsnd, hj]

/-- The agreement that an acknowledged request sets up. -/
theorem agreement_of_judge [LawfulProtocol P] {A : P → List OptionVal → Prop} {r : Reply P}
    {id : UInt8} (hc : control pkt = some (.configureReq, id, p)) (hj : m.judge p = (r, true))
    (hcode : r.code = .configureAck) (sent : List Packet)
    (hA : Negotiation.WellFormed p → Acceptable m.proto (optionsOf p) →
      A (judged m.proto (optionsOf p)) (optionsOf p)) :
  ∃ opts, lastAcked last pkt (answer r (p.getD 3 0) :: sent) = some opts ∧ A r.proto opts
  := by
  refine ⟨optionsOf p, ?_, ?_⟩
  · have hack : (answer r (p.getD 3 0)).acks = true := by
      simp [Packet.acks, answer, hcode]
    rw [lastAcked, List.any_cons, hack, Bool.true_or, if_pos rfl, hc]
    rfl
  · have hproto := judge_proto m p
    have hacc := judge_code_eq_ack m p
    rw [hj] at hproto hacc
    rw [hproto]
    exact hA ((wellFormed_iff_judge hj).mpr rfl) (hacc.mp hcode)

theorem lastAcked_request (m : OptionFsm P) (id : UInt8) :
  lastAcked last pkt [m.request id] = last
  := rfl

/-- What handling a packet does to an agreement: an acknowledged request must set it up, a
refusal of our options must keep it, and a malformed request must not come in between. -/
theorem agrees_handled [LawfulProtocol P] {A : P → List OptionVal → Prop}
    (h : m.Handled pkt sent m')
    (hreq : ∀ id p, control pkt = some (.configureReq, id, p) → m.state ≠ .closed →
      (m.Standing → Negotiation.WellFormed p)
        ∧ (Negotiation.WellFormed p → Acceptable m.proto (optionsOf p) →
          A (judged m.proto (optionsOf p)) (optionsOf p)))
    (href : ∀ proto code data isRej opts, A proto opts →
      A (Protocol.ownOptionNacked proto code data isRej) opts)
    (hinv : m.Agrees A last) :
  m'.Agrees A (lastAcked last pkt sent)
  := by
  have hrefuse : ∀ {isRej p proto b opts}, m.refuse isRej p = (proto, b) → A m.proto opts →
      A proto opts := by
    intro isRej p proto b opts hr hA
    have hinv := parseOptions_invariant (I := fun proto => A proto opts)
      (fun proto code data h => href proto code data isRej opts h) hA (p.drop 6)
    rw [refuse] at hr
    rw [hr] at hinv
    exact hinv
  intro hstand
  cases h with
  | dropped hsilent =>
      rw [lastAcked_of_silent hsilent]
      exact hinv hstand
  | malformedRequest hc hstate hj =>
      -- a request that is malformed while we stand by an earlier one
      have hwf := (hreq _ _ hc hstate).1 hstand
      have hb := (wellFormed_iff_judge hj).mp hwf
      cases hb
  | ackedRequest hc hj hcode hstate =>
      apply agreement_of_judge hc hj hcode
      apply (hreq _ _ hc _).2
      obtain hstate | hstate := hstate <;> simp [hstate]
  | openedByRequest hc hj hcode hstate =>
      apply agreement_of_judge hc hj hcode
      apply (hreq _ _ hc _).2
      simp [hstate]
  | reopenedByRequest hc hj hcode hstate hm' =>
      subst hm'
      apply agreement_of_judge hc hj hcode
      apply (hreq _ _ hc _).2
      simp [hstate]
  | refusedRequest _ _ _ hstate =>
      simp only [Standing] at hstand
      split at hstand
      · simp at hstand
      · rename_i hne
        exact absurd hstand (not_or.mpr ⟨hne, hstate.2⟩)
  | reopenedByRefusal => simp [Standing] at hstand
  | ack => simp [Standing] at hstand
  | openedByAck _ hstate => exact hinv (.inl hstate)
  | unexpectedAck _ _ hm' => simp [Standing, requested, hm'] at hstand
  | malformedRefusal _ _ _ hr =>
      obtain ⟨opts, hlast, hA⟩ := hinv hstand
      exact ⟨opts, hlast, hrefuse hr hA⟩
  | refused _ _ _ hr hm' =>
      subst hm'
      have hstate : m.state = .ackSent := by
        simp only [Standing, requested] at hstand
        by_contra hne
        simp [hne] at hstand
      obtain ⟨opts, hlast, hA⟩ := hinv (.inl hstate)
      exact ⟨opts, hlast, hrefuse hr hA⟩
  | terminated => simp [Standing, enterClosed] at hstand
  | restarted => simp [Standing] at hstand

theorem agrees_ticked {A : P → List OptionVal → Prop} {q : Option Packet} (h : m.Ticked q m')
    (hinv : m.Agrees A last) :
  m'.Agrees A last
  := by
  intro hstand
  cases h with
  | still => exact hinv hstand
  | waited => exact hinv hstand
  | exhausted => exact hinv hstand
  | gaveUp => simp [Standing] at hstand
  | resent =>
      apply hinv
      simp only [Standing] at hstand ⊢
      split at hstand
      · simp at hstand
      · exact hstand

end OptionFsm

end ZeroNat.Pppoe.Ppp

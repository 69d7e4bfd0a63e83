import ZeroNat.Lib.Run
import ZeroNat.Peer.Exchange

/-!
# The inner handshake under loss

A consumer and a provider of the same pair, over a network that loses, repeats and reorders
frames but does not alter them.  Whatever the network does, neither side fails unless its
deadline passes; two sides that complete have each other's transport keys, and the consumer
hears the verdict that the provider gave.
-/

namespace ZeroNat.Peer

/-- The two sides, and the frames that each has sent to the other so far. -/
structure Pair where
  consumer : Initiator UInt8
  provider : Responder UInt8
  toProvider : List (List UInt8)
  toConsumer : List (List UInt8)

inductive Event where
  /-- A retry timer ticks. -/
  | tickConsumer
  | tickProvider
  /-- A deadline passes. -/
  | deadlineConsumer
  | deadlineProvider
  /-- The network delivers a copy of a frame that was sent. -/
  | deliverConsumer (frame : List UInt8)
  | deliverProvider (frame : List UInt8)
  /-- A side whose session is up sends over it. -/
  | sendConsumer (payload : Option (List UInt8))
  | sendProvider (payload : Option (List UInt8))

namespace Setup

variable (c : Setup UInt8)

/-- Both sides have started. -/
def start : Pair :=
  let (consumer, sent) := Initiator.start c.suite c.consumer c.pairId c.consumerEphemeral
  ⟨consumer, Responder.start c.suite c.provider c.pairId c.providerEphemeral, sent, []⟩

/-- What an event does, if it can happen. -/
def step (s : Pair) : Event → Option Pair
  | .tickConsumer => some { s with toProvider := s.toProvider ++ s.consumer.onTick }
  | .tickProvider => some { s with toConsumer := s.toConsumer ++ s.provider.onTick }
  | .deadlineConsumer => some { s with consumer := s.consumer.onDeadline }
  | .deadlineProvider => some { s with provider := s.provider.onDeadline }
  | .deliverConsumer frame =>
    if frame ∈ s.toConsumer then
      match s.consumer.onFrame c.suite c.consumer frame with
      | (consumer, sent) => some { s with consumer, toProvider := s.toProvider ++ sent }
    else none
  | .deliverProvider frame =>
    if frame ∈ s.toProvider then
      match s.provider.onFrame c.suite c.policy c.provider frame with
      | (provider, sent) => some { s with provider, toConsumer := s.toConsumer ++ sent }
    else none
  | .sendConsumer payload =>
    match s.consumer with
    | .finished (.ok hs) =>
      match hs.sendOver c.suite payload with
      | (sent, hs) => some { s with consumer := .finished (.ok hs), toProvider := s.toProvider ++ sent }
    | _ => none
  | .sendProvider payload =>
    match s.provider with
    | .finished (.ok hs) =>
      match hs.sendOver c.suite payload with
      | (sent, hs) => some { s with provider := .finished (.ok hs), toConsumer := s.toConsumer ++ sent }
    | _ => none

/-! ### Every state of a pair -/

/-- The states of the consumer. -/
def ConsumerAt : Initiator UInt8 → Prop
  | .awaitTwo state frameOne => state = c.one.2 ∧ frameOne = handshakeFrame c.one.1
  | .awaitVerdict noise frameThree messageTwo =>
    noise = c.consumerNoise ∧ frameThree = handshakeFrame c.three.1 ∧ messageTwo = c.two.1
  | .finished (.ok hs) => c.refused = none ∧ Handshaked.Continues ⟨c.consumerNoise, none, none⟩ hs
  | .finished (.error e) =>
    e = .other "inner handshake timed out" ∨ ∃ reason, c.refused = some reason ∧ e = .refused reason

/-- The states of the provider. -/
def ProviderAt : Responder UInt8 → Prop
  | .awaitOne state => state = c.listening
  | .awaitThree state messageOne frameTwo =>
    state = c.two.2 ∧ messageOne = c.one.1 ∧ frameTwo = handshakeFrame c.two.1
  | .finished (.ok hs) =>
    Handshaked.Continues ⟨c.providerNoise, some ⟨c.three.1, handshakeFrame c.verdict⟩, c.refused⟩ hs
  | .finished (.error e) => e = .other "inner handshake timed out"

end Setup

/-- The initiator has read message two, or has given up. -/
def Initiator.Past : Initiator UInt8 → Prop
  | awaitTwo _ _ => False
  | _ => True

/-- The initiator waits for the verdict. -/
def Initiator.Waits : Initiator UInt8 → Prop
  | awaitVerdict _ _ _ => True
  | _ => False

/-- The initiator has heard the verdict. -/
def Initiator.Concluded : Initiator UInt8 → Prop
  | finished (.ok _) => True
  | finished (.error (.refused _)) => True
  | _ => False

/-- The responder has read message one, or has given up. -/
def Responder.Past : Responder UInt8 → Prop
  | awaitOne _ => False
  | _ => True

/-- The responder has given its verdict. -/
def Responder.Concluded : Responder UInt8 → Prop
  | finished (.ok _) => True
  | _ => False

namespace Setup

variable {c : Setup UInt8}

/-- What a frame does to the consumer: it stays in the states above, sends nothing but message
three, and hears the verdict only from a frame that carries it. -/
structure ConsumerGoes (c : Setup UInt8) (frame : List UInt8) (i i' : Initiator UInt8)
    (sent : List (List UInt8)) : Prop where
  shape : c.ConsumerAt i'
  past : i.Past → i'.Past
  sends : ∀ f ∈ sent, f = handshakeFrame c.three.1 ∧ i'.Waits
  waits : i'.Waits → i.Waits ∨ frame = handshakeFrame c.two.1
  concluded : i'.Concluded →
    i.Concluded ∨ (frame = handshakeFrame c.verdict ∧ c.verdict ≠ c.two.1)

/-- What a frame does to the provider. -/
structure ProviderGoes (c : Setup UInt8) (frame : List UInt8) (r r' : Responder UInt8)
    (sent : List (List UInt8)) : Prop where
  shape : c.ProviderAt r'
  past : r.Past → r'.Past
  sends : ∀ f ∈ sent, (f = handshakeFrame c.two.1 ∧ r'.Past)
    ∨ (f = handshakeFrame c.verdict ∧ r'.Concluded)
  concluded : r.Concluded → r'.Concluded
  from_three : r'.Concluded →
    r.Concluded ∨ (frame = handshakeFrame c.three.1 ∧ handshakeFrame c.verdict ∈ sent)

theorem ConsumerGoes.stay {frame : List UInt8} {i : Initiator UInt8} (hi : c.ConsumerAt i) :
  ConsumerGoes c frame i i []
  := ⟨hi, id, by simp, Or.inl, Or.inl⟩

theorem ProviderGoes.stay {frame : List UInt8} {r : Responder UInt8} (hr : c.ProviderAt r) :
  ProviderGoes c frame r r []
  := ⟨hr, id, by simp, id, Or.inl⟩

/-- The verdict is what the consumer hears. -/
theorem consumerAt_judge (w : ReplayWindow) :
  c.ConsumerAt (.finished (judge { c.consumerNoise with recvWindow := w } (verdictOf c.reason)))
  := by
  rw [judge_verdictOf]
  split
  · rename_i hempty
    exact ⟨if_pos hempty, rfl, rfl, rfl, rfl⟩
  · rename_i hreason
    exact Or.inr ⟨c.reason, if_neg hreason, rfl⟩

theorem consumer_onFrame (hS : c.suite.Lawful) {i : Initiator UInt8} (hi : c.ConsumerAt i)
    {frame : List UInt8}
    (hframe : frame = handshakeFrame c.two.1 ∨ (frame = handshakeFrame c.verdict ∧ i.Past)
      ∨ recvHandshake frame = none) :
  ConsumerGoes c frame i (i.onFrame c.suite c.consumer frame).1
    (i.onFrame c.suite c.consumer frame).2
  := by
  cases i with
  | awaitTwo state frameOne =>
      obtain ⟨rfl, rfl⟩ := hi
      rcases hframe with rfl | ⟨_, hpast⟩ | hnone
      · rw [onFrame_two hS]
        refine ⟨⟨rfl, rfl, rfl⟩, fun _ => trivial, ?_, fun _ => Or.inr rfl, fun h => h.elim⟩
        intro f hf
        exact ⟨List.mem_singleton.mp hf, trivial⟩
      · exact hpast.elim
      · simp only [Initiator.onFrame, hnone]
        exact ConsumerGoes.stay ⟨rfl, rfl⟩
  | awaitVerdict noise frameThree messageTwo =>
      obtain ⟨rfl, rfl, rfl⟩ := hi
      have hrepeat : ConsumerGoes c frame
          (.awaitVerdict c.consumerNoise (handshakeFrame c.three.1) c.two.1)
          (.awaitVerdict c.consumerNoise (handshakeFrame c.three.1) c.two.1)
          [handshakeFrame c.three.1] := by
        refine ⟨⟨rfl, rfl, rfl⟩, id, ?_, Or.inl, Or.inl⟩
        intro f hf
        exact ⟨List.mem_singleton.mp hf, trivial⟩
      rcases hframe with rfl | ⟨rfl, _⟩ | hnone
      · simp only [Initiator.onFrame, recvHandshake_handshakeFrame, if_true]
        exact hrepeat
      · simp only [Initiator.onFrame, recvHandshake_handshakeFrame]
        split
        · exact hrepeat
        · rename_i hne
          obtain ⟨w, hopen⟩ := openInPlace_verdict hS
          simp only [hopen]
          exact ⟨consumerAt_judge w, fun _ => trivial, by simp, fun h => h.elim,
            fun _ => Or.inr ⟨rfl, hne⟩⟩
      · simp only [Initiator.onFrame, hnone]
        exact ConsumerGoes.stay ⟨rfl, rfl, rfl⟩
  | finished outcome =>
      cases outcome with
      | error e => exact ConsumerGoes.stay hi
      | ok hs =>
          obtain ⟨hready, hhs⟩ := hi
          have hsent : (hs.onFrame c.suite frame).2.2 = [] := by
            rcases hs.sent_onFrame c.suite frame with hsent | ⟨again, hagain, _⟩
            · exact hsent
            · rw [hhs.retransmit] at hagain
              cases hagain
          simp only [Initiator.onFrame, hsent]
          refine ⟨⟨hready, ?_⟩, fun _ => trivial, by simp, fun h => h.elim, fun _ => Or.inl trivial⟩
          exact hhs.trans (hs.continues_onFrame c.suite frame)

/-- A session of the provider answers message three alone. -/
theorem provider_session_onFrame {hs : Handshaked UInt8} {frame : List UInt8}
    (hhs : Handshaked.Continues
      ⟨c.providerNoise, some ⟨c.three.1, handshakeFrame c.verdict⟩, c.refused⟩ hs) :
  ProviderGoes c frame (.finished (.ok hs)) (.finished (.ok (hs.onFrame c.suite frame).1))
    (hs.onFrame c.suite frame).2.2
  := by
  refine ⟨?_, fun _ => trivial, ?_, fun _ => trivial, fun _ => Or.inl trivial⟩
  · exact hhs.trans (hs.continues_onFrame c.suite frame)
  · intro f hf
    rcases hs.sent_onFrame c.suite frame with hsent | ⟨again, hagain, _, heq⟩
    · rw [hsent] at hf
      cases hf
    · rw [hhs.retransmit] at hagain
      obtain rfl := Option.some.inj hagain
      rw [heq] at hf
      exact Or.inr ⟨List.mem_singleton.mp hf, trivial⟩

theorem provider_onFrame (hS : c.suite.Lawful) {r : Responder UInt8} (hr : c.ProviderAt r)
    {frame : List UInt8}
    (hframe : frame = handshakeFrame c.one.1 ∨ (frame = handshakeFrame c.three.1 ∧ r.Past)
      ∨ recvHandshake frame = none) :
  ProviderGoes c frame r (r.onFrame c.suite c.policy c.provider frame).1
    (r.onFrame c.suite c.policy c.provider frame).2
  := by
  cases r with
  | awaitOne state =>
      obtain rfl := hr
      rcases hframe with rfl | ⟨_, hpast⟩ | hnone
      · rw [onFrame_one hS]
        refine ⟨⟨rfl, rfl, rfl⟩, fun _ => trivial, ?_, fun h => h.elim, fun h => h.elim⟩
        intro f hf
        exact Or.inl ⟨List.mem_singleton.mp hf, trivial⟩
      · exact hpast.elim
      · simp only [Responder.onFrame, hnone]
        exact ProviderGoes.stay rfl
  | awaitThree state messageOne frameTwo =>
      obtain ⟨rfl, rfl, rfl⟩ := hr
      rcases hframe with rfl | ⟨rfl, _⟩ | hnone
      · simp only [Responder.onFrame, recvHandshake_handshakeFrame, if_true]
        refine ⟨⟨rfl, rfl, rfl⟩, id, ?_, id, Or.inl⟩
        intro f hf
        exact Or.inl ⟨List.mem_singleton.mp hf, trivial⟩
      · rw [onFrame_three hS]
        refine ⟨⟨rfl, rfl, rfl, rfl⟩, fun _ => trivial, ?_, fun _ => trivial,
          fun _ => Or.inr ⟨rfl, List.mem_singleton_self _⟩⟩
        intro f hf
        exact Or.inr ⟨List.mem_singleton.mp hf, trivial⟩
      · simp only [Responder.onFrame, hnone]
        exact ProviderGoes.stay ⟨rfl, rfl, rfl⟩
  | finished outcome =>
      cases outcome with
      | error e => exact ProviderGoes.stay hr
      | ok hs => exact provider_session_onFrame hr

/-- What holds in every state of a pair: the frames on the way are those of the handshake, and a
side has got as far as the frames of the other side tell. -/
structure Inv (c : Setup UInt8) (s : Pair) : Prop where
  consumer : c.ConsumerAt s.consumer
  provider : c.ProviderAt s.provider
  toProvider : ∀ f ∈ s.toProvider, f = handshakeFrame c.one.1
    ∨ (f = handshakeFrame c.three.1 ∧ s.provider.Past ∧ s.consumer.Past) ∨ recvHandshake f = none
  toConsumer : ∀ f ∈ s.toConsumer, (f = handshakeFrame c.two.1 ∧ s.provider.Past)
    ∨ (f = handshakeFrame c.verdict ∧ s.provider.Concluded ∧ s.consumer.Past)
    ∨ recvHandshake f = none
  past : s.provider.Concluded → s.consumer.Past
  waits : s.consumer.Waits → s.provider.Past
  concluded : s.consumer.Concluded → s.provider.Concluded
  verdict_sent : s.provider.Concluded → handshakeFrame c.verdict ∈ s.toConsumer

theorem inv_start (c : Setup UInt8) :
  Inv c c.start
  where
  consumer := ⟨rfl, rfl⟩
  provider := rfl
  toProvider f hf := Or.inl (List.mem_singleton.mp hf)
  toConsumer _ hf := by cases hf
  past h := h.elim
  waits h := h.elim
  concluded h := h.elim
  verdict_sent h := h.elim

/-- The consumer moves on and sends message three. -/
theorem Inv.setConsumer {s : Pair} (h : Inv c s) {i : Initiator UInt8} {sent : List (List UInt8)}
    (hi : c.ConsumerAt i) (hpast : s.consumer.Past → i.Past)
    (hwaits : i.Waits → s.provider.Past) (hconcluded : i.Concluded → s.provider.Concluded)
    (hsent : ∀ f ∈ sent, f = handshakeFrame c.one.1
      ∨ (f = handshakeFrame c.three.1 ∧ s.provider.Past ∧ i.Past) ∨ recvHandshake f = none) :
  Inv c { s with consumer := i, toProvider := s.toProvider ++ sent }
  := by
  refine ⟨hi, h.provider, ?_, ?_, fun hc => hpast (h.past hc), hwaits, hconcluded,
    h.verdict_sent⟩
  · intro f hf
    rcases List.mem_append.mp hf with hf | hf
    · rcases h.toProvider f hf with hone | ⟨hthree, hp, hc⟩ | hnone
      · exact Or.inl hone
      · exact Or.inr (Or.inl ⟨hthree, hp, hpast hc⟩)
      · exact Or.inr (Or.inr hnone)
    · exact hsent f hf
  · intro f hf
    rcases h.toConsumer f hf with htwo | ⟨hverdict, hp, hc⟩ | hnone
    · exact Or.inl htwo
    · exact Or.inr (Or.inl ⟨hverdict, hp, hpast hc⟩)
    · exact Or.inr (Or.inr hnone)

/-- The provider moves on and sends message two or the verdict. -/
theorem Inv.setProvider {s : Pair} (h : Inv c s) {r : Responder UInt8} {sent : List (List UInt8)}
    (hr : c.ProviderAt r) (hpast : s.provider.Past → r.Past)
    (hconcluded : s.provider.Concluded → r.Concluded)
    (hnew : r.Concluded → s.provider.Concluded
      ∨ (s.consumer.Past ∧ handshakeFrame c.verdict ∈ sent))
    (hsent : ∀ f ∈ sent, (f = handshakeFrame c.two.1 ∧ r.Past)
      ∨ (f = handshakeFrame c.verdict ∧ r.Concluded) ∨ recvHandshake f = none) :
  Inv c { s with provider := r, toConsumer := s.toConsumer ++ sent }
  := by
  have hpast' : r.Concluded → s.consumer.Past := by
    intro hc
    rcases hnew hc with hold | ⟨hp, _⟩
    · exact h.past hold
    · exact hp
  refine ⟨h.consumer, hr, ?_, ?_, hpast', fun hc => hpast (h.waits hc),
    fun hc => hconcluded (h.concluded hc), ?_⟩
  · intro f hf
    rcases h.toProvider f hf with hone | ⟨hthree, hp, hc⟩ | hnone
    · exact Or.inl hone
    · exact Or.inr (Or.inl ⟨hthree, hpast hp, hc⟩)
    · exact Or.inr (Or.inr hnone)
  · intro f hf
    rcases List.mem_append.mp hf with hf | hf
    · rcases h.toConsumer f hf with ⟨htwo, hp⟩ | ⟨hverdict, hp, hc⟩ | hnone
      · exact Or.inl ⟨htwo, hpast hp⟩
      · exact Or.inr (Or.inl ⟨hverdict, hconcluded hp, hc⟩)
      · exact Or.inr (Or.inr hnone)
    · rcases hsent f hf with htwo | ⟨hverdict, hp⟩ | hnone
      · exact Or.inl htwo
      · exact Or.inr (Or.inl ⟨hverdict, hp, hpast' hp⟩)
      · exact Or.inr (Or.inr hnone)
  · intro hc
    rcases hnew hc with hold | ⟨_, hmem⟩
    · exact List.mem_append_left _ (h.verdict_sent hold)
    · exact List.mem_append_right _ hmem

/-- What a session sends is no handshake frame. -/
theorem recvHandshake_sendOver {hs : Handshaked UInt8} {payload : Option (List UInt8)}
    {f : List UInt8} (hf : f ∈ (hs.sendOver c.suite payload).1) :
  recvHandshake f = none
  := by
  obtain ⟨nonce, rfl⟩ := Handshaked.mem_sendOver c.suite hf
  rfl

/-- What a timer sends is the last message. -/
theorem Inv.onTick_consumer {s : Pair} (h : Inv c s) {f : List UInt8} (hf : f ∈ s.consumer.onTick) :
  f = handshakeFrame c.one.1
    ∨ (f = handshakeFrame c.three.1 ∧ s.provider.Past ∧ s.consumer.Past) ∨ recvHandshake f = none
  := by
  have hat := h.consumer
  have hwaits := h.waits
  cases hc : s.consumer with
  | awaitTwo state frameOne =>
      rw [hc] at hf hat
      rw [List.mem_singleton.mp hf]
      exact Or.inl hat.2
  | awaitVerdict noise frameThree messageTwo =>
      rw [hc] at hf hat hwaits
      rw [List.mem_singleton.mp hf]
      exact Or.inr (Or.inl ⟨hat.2.1, hwaits trivial, trivial⟩)
  | finished outcome =>
      rw [hc] at hf
      cases hf

theorem Inv.onTick_provider {s : Pair} (h : Inv c s) {f : List UInt8} (hf : f ∈ s.provider.onTick) :
  f = handshakeFrame c.two.1 ∧ s.provider.Past
  := by
  have hat := h.provider
  cases hc : s.provider with
  | awaitOne state =>
      rw [hc] at hf
      cases hf
  | awaitThree state messageOne frameTwo =>
      rw [hc] at hf hat
      rw [List.mem_singleton.mp hf]
      exact ⟨hat.2.2, trivial⟩
  | finished outcome =>
      rw [hc] at hf
      cases hf

theorem Inv.onDeadline_consumer {s : Pair} (h : Inv c s) :
  Inv c { s with consumer := s.consumer.onDeadline, toProvider := s.toProvider ++ [] }
  := by
  have hat := h.consumer
  have hconcluded := h.concluded
  have hwaits := h.waits
  have hpast : s.consumer.Past → s.consumer.onDeadline.Past := by
    cases s.consumer <;> exact fun _ => trivial
  cases hc : s.consumer with
  | awaitTwo state frameOne =>
      rw [hc] at hpast
      exact h.setConsumer (Or.inl rfl) (hc ▸ hpast) (fun h => h.elim) (fun h => h.elim) (by simp)
  | awaitVerdict noise frameThree messageTwo =>
      rw [hc] at hpast
      exact h.setConsumer (Or.inl rfl) (hc ▸ hpast) (fun h => h.elim) (fun h => h.elim) (by simp)
  | finished outcome =>
      rw [hc] at hat hpast hconcluded hwaits
      exact h.setConsumer hat (hc ▸ hpast) hwaits hconcluded (by simp)

theorem Inv.onDeadline_provider {s : Pair} (h : Inv c s) :
  Inv c { s with provider := s.provider.onDeadline, toConsumer := s.toConsumer ++ [] }
  := by
  have hat := h.provider
  have hpast : s.provider.Past → s.provider.onDeadline.Past := by
    cases s.provider <;> exact fun _ => trivial
  cases hc : s.provider with
  | awaitOne state =>
      rw [hc] at hpast
      exact h.setProvider rfl (hc ▸ hpast) (by rw [hc]; exact id) (fun h => h.elim) (by simp)
  | awaitThree state messageOne frameTwo =>
      rw [hc] at hpast
      exact h.setProvider rfl (hc ▸ hpast) (by rw [hc]; exact id) (fun h => h.elim) (by simp)
  | finished outcome =>
      rw [hc] at hat hpast
      exact h.setProvider hat (hc ▸ hpast) (by rw [hc]; exact id) (by rw [hc]; exact Or.inl) (by simp)

theorem past_of_concluded {r : Responder UInt8} (h : r.Concluded) :
  r.Past
  := by
  cases r with
  | awaitOne state => exact h
  | awaitThree state messageOne frameTwo => trivial
  | finished outcome => trivial

theorem handshakeFrame_injective {m m' : List UInt8} (h : handshakeFrame m = handshakeFrame m') :
  m = m'
  := (List.cons.inj h).2

theorem Inv.deliver_consumer (hS : c.suite.Lawful) {s : Pair} (h : Inv c s) {frame : List UInt8}
    (hmem : frame ∈ s.toConsumer) :
  Inv c
    { s with
      consumer := (s.consumer.onFrame c.suite c.consumer frame).1
      toProvider := s.toProvider ++ (s.consumer.onFrame c.suite c.consumer frame).2 }
  := by
  have hgoes : ConsumerGoes c frame s.consumer (s.consumer.onFrame c.suite c.consumer frame).1
      (s.consumer.onFrame c.suite c.consumer frame).2 := by
    apply consumer_onFrame hS h.consumer
    rcases h.toConsumer frame hmem with ⟨htwo, _⟩ | ⟨hverdict, _, hpast⟩ | hnone
    · exact Or.inl htwo
    · exact Or.inr (Or.inl ⟨hverdict, hpast⟩)
    · exact Or.inr (Or.inr hnone)
  have hwaits : (s.consumer.onFrame c.suite c.consumer frame).1.Waits → s.provider.Past := by
    intro hw
    rcases hgoes.waits hw with hold | rfl
    · exact h.waits hold
    · rcases h.toConsumer _ hmem with ⟨_, hpast⟩ | ⟨_, hconcluded, _⟩ | hnone
      · exact hpast
      · exact past_of_concluded hconcluded
      · cases hnone
  apply h.setConsumer hgoes.shape hgoes.past hwaits
  · intro hc
    rcases hgoes.concluded hc with hold | ⟨rfl, hne⟩
    · exact h.concluded hold
    · rcases h.toConsumer _ hmem with ⟨htwo, _⟩ | ⟨_, hconcluded, _⟩ | hnone
      · exact absurd (handshakeFrame_injective htwo) hne
      · exact hconcluded
      · cases hnone
  · intro f hf
    obtain ⟨hthree, hw⟩ := hgoes.sends f hf
    refine Or.inr (Or.inl ⟨hthree, hwaits hw, ?_⟩)
    generalize (s.consumer.onFrame c.suite c.consumer frame).1 = i at hw
    cases i with
    | awaitTwo state frameOne => exact hw
    | awaitVerdict noise frameThree messageTwo => trivial
    | finished outcome => trivial

theorem Inv.deliver_provider (hS : c.suite.Lawful) {s : Pair} (h : Inv c s) {frame : List UInt8}
    (hmem : frame ∈ s.toProvider) :
  Inv c
    { s with
      provider := (s.provider.onFrame c.suite c.policy c.provider frame).1
      toConsumer := s.toConsumer ++ (s.provider.onFrame c.suite c.policy c.provider frame).2 }
  := by
  have hgoes : ProviderGoes c frame s.provider (s.provider.onFrame c.suite c.policy c.provider frame).1
      (s.provider.onFrame c.suite c.policy c.provider frame).2 := by
    apply provider_onFrame hS h.provider
    rcases h.toProvider frame hmem with hone | ⟨hthree, hpast, _⟩ | hnone
    · exact Or.inl hone
    · exact Or.inr (Or.inl ⟨hthree, hpast⟩)
    · exact Or.inr (Or.inr hnone)
  apply h.setProvider hgoes.shape hgoes.past hgoes.concluded
  · intro hc
    rcases hgoes.from_three hc with hold | ⟨rfl, hsent⟩
    · exact Or.inl hold
    · rcases h.toProvider _ hmem with hone | ⟨_, _, hpast⟩ | hnone
      · exact absurd (handshakeFrame_injective hone).symm (one_ne_three hS)
      · exact Or.inr ⟨hpast, hsent⟩
      · cases hnone
  · intro f hf
    rcases hgoes.sends f hf with htwo | hverdict
    · exact Or.inl htwo
    · exact Or.inr (Or.inl hverdict)

theorem Inv.step (hS : c.suite.Lawful) {s t : Pair} {e : Event} (h : Inv c s)
    (hstep : c.step s e = some t) :
  Inv c t
  := by
  cases e with
  | tickConsumer =>
      obtain rfl := Option.some.inj hstep
      exact h.setConsumer h.consumer id h.waits h.concluded fun f => h.onTick_consumer
  | tickProvider =>
      obtain rfl := Option.some.inj hstep
      exact h.setProvider h.provider id id Or.inl fun f hf => Or.inl (h.onTick_provider hf)
  | deadlineConsumer =>
      obtain rfl := Option.some.inj hstep
      simpa using h.onDeadline_consumer
  | deadlineProvider =>
      obtain rfl := Option.some.inj hstep
      simpa using h.onDeadline_provider
  | deliverConsumer frame =>
      rw [Setup.step] at hstep
      split at hstep
      · rename_i hmem
        obtain rfl := Option.some.inj hstep
        exact h.deliver_consumer hS hmem
      · cases hstep
  | deliverProvider frame =>
      rw [Setup.step] at hstep
      split at hstep
      · rename_i hmem
        obtain rfl := Option.some.inj hstep
        exact h.deliver_provider hS hmem
      · cases hstep
  | sendConsumer payload =>
      rw [Setup.step] at hstep
      split at hstep
      · rename_i hs hc
        obtain rfl := Option.some.inj hstep
        have hcont := hs.continues_sendOver c.suite payload
        have hat := h.consumer
        rw [hc] at hat
        have hconcluded : s.consumer.Concluded := by
          rw [hc]
          trivial
        apply h.setConsumer (i := .finished (.ok (hs.sendOver c.suite payload).2))
        · exact ⟨hat.1, hat.2.trans hcont⟩
        · exact fun _ => trivial
        · exact fun h => h.elim
        · exact fun _ => h.concluded hconcluded
        · exact fun f hf => Or.inr (Or.inr (recvHandshake_sendOver hf))
      · cases hstep
  | sendProvider payload =>
      rw [Setup.step] at hstep
      split at hstep
      · rename_i hs hc
        obtain rfl := Option.some.inj hstep
        have hcont := hs.continues_sendOver c.suite payload
        have hat := h.provider
        rw [hc] at hat
        have hconcluded : s.provider.Concluded := by
          rw [hc]
          trivial
        apply h.setProvider (r := .finished (.ok (hs.sendOver c.suite payload).2)) (hat.trans hcont)
        · exact fun _ => trivial
        · exact fun _ => trivial
        · exact fun _ => Or.inl hconcluded
        · exact fun f hf => Or.inr (Or.inr (recvHandshake_sendOver hf))
      · cases hstep

theorem inv_of_run (hS : c.suite.Lawful) {es : List Event} {s : Pair}
    (h : Run (fun s e t => c.step s e = some t) c.start es s) :
  Inv c s
  := h.invariant (inv_start c) fun _ _ _ hinv => hinv.step hS

/-- A consumer that has heard the verdict has heard that of the provider. -/
theorem Inv.exists_provider {s : Pair} (h : Inv c s) (hc : s.consumer.Concluded) :
  ∃ hp, s.provider = .finished (.ok hp) ∧ Handshaked.Continues
    ⟨c.providerNoise, some ⟨c.three.1, handshakeFrame c.verdict⟩, c.refused⟩ hp
  := by
  have hat := h.provider
  have hconcluded := h.concluded hc
  cases hr : s.provider with
  | awaitOne state =>
      rw [hr] at hconcluded
      exact hconcluded.elim
  | awaitThree state messageOne frameTwo =>
      rw [hr] at hconcluded
      exact hconcluded.elim
  | finished outcome =>
      cases outcome with
      | error e =>
          rw [hr] at hconcluded
          exact hconcluded.elim
      | ok hp =>
          rw [hr] at hat
          exact ⟨hp, rfl, hat⟩

/-- A provider that has given its verdict answers message three with the verdict, and stays. -/
theorem provider_onFrame_three {hp : Handshaked UInt8}
    (hhp : Handshaked.Continues
      ⟨c.providerNoise, some ⟨c.three.1, handshakeFrame c.verdict⟩, c.refused⟩ hp) :
  Responder.onFrame c.suite c.policy c.provider (.finished (.ok hp)) (handshakeFrame c.three.1)
    = (.finished (.ok hp), [handshakeFrame c.verdict])
  := by
  have hretransmit : hp.retransmit = some ⟨c.three.1, handshakeFrame c.verdict⟩ := hhp.retransmit
  have honFrame : hp.onFrame c.suite (handshakeFrame c.three.1)
      = (hp, none, [handshakeFrame c.verdict]) := by
    rw [handshakeFrame, Handshaked.onFrame, if_neg (by decide), if_pos (by rfl), hretransmit]
    exact if_pos rfl
  simp only [Responder.onFrame, honFrame]

/-- Whatever frames the network loses, repeats and reorders, and whenever the timers tick: a side
fails only at its deadline, or when the provider has refused the consumer; a consumer whose
session is up has a provider that serves it, with the keys matching crosswise; and while the
consumer waits for the verdict that the provider has given, each copy of message three makes the
provider send that verdict again, and the consumer can open it. -/
theorem handshake_under_loss (hS : c.suite.Lawful) {es : List Event} {s : Pair}
    (h : Run (fun s e t => c.step s e = some t) c.start es s) :
  (∀ e, s.provider = .finished (.error e) → e = .other "inner handshake timed out")
    ∧ (∀ e, s.consumer = .finished (.error e) → e = .other "inner handshake timed out"
        ∨ ∃ hp reason, s.provider = .finished (.ok hp) ∧ hp.refused = some reason
            ∧ e = .refused reason
            ∧ hp.refusedText.map ("the provider refused the pair: " ++ ·) = some e.message)
    ∧ (∀ hc, s.consumer = .finished (.ok hc) →
        ∃ hp, s.provider = .finished (.ok hp) ∧ hp.refused = none
          ∧ hc.noise.sendKey = hp.noise.recvKey ∧ hc.noise.recvKey = hp.noise.sendKey)
    ∧ ∀ hp noise frameThree messageTwo, s.provider = .finished (.ok hp) →
        s.consumer = .awaitVerdict noise frameThree messageTwo →
        handshakeFrame c.verdict ∈ s.toConsumer
          ∧ s.provider.onFrame c.suite c.policy c.provider frameThree
              = (s.provider, [handshakeFrame c.verdict])
          ∧ ∃ noise', noise.openInPlace c.suite.toCipher c.verdict
              = (.ok (verdictOf (hp.refused.getD [])), noise')
          ∧ judge noise' (verdictOf (hp.refused.getD []))
              = match hp.refused with
                | none => .ok ⟨noise', none, none⟩
                | some reason => .error (.refused reason)
  := by
  have hinv := inv_of_run hS h
  have hconsumer := hinv.consumer
  have hprovider := hinv.provider
  refine ⟨?_, ?_, ?_, ?_⟩
  · intro e he
    rw [he] at hprovider
    exact hprovider
  · intro e he
    rw [he] at hconsumer
    rcases hconsumer with htimeout | ⟨reason, hreason, rfl⟩
    · exact Or.inl htimeout
    · obtain ⟨hp, hr, hcont⟩ := hinv.exists_provider (by rw [he]; trivial)
      have hrefused : hp.refused = some reason := hcont.refused.trans hreason
      refine Or.inr ⟨hp, reason, hr, hrefused, rfl, ?_⟩
      rw [Handshaked.refusedText, hrefused]
      rfl
  · intro hc he
    rw [he] at hconsumer
    obtain ⟨hready, hhc⟩ := hconsumer
    obtain ⟨hp, hr, hcont⟩ := hinv.exists_provider (by rw [he]; trivial)
    refine ⟨hp, hr, hcont.refused.trans hready, ?_, ?_⟩
    · rw [hhc.sendKey, hcont.recvKey]
      rfl
    · rw [hhc.recvKey, hcont.sendKey]
      rfl
  · intro hp noise frameThree messageTwo hr he
    have hsent := hinv.verdict_sent (by rw [hr]; trivial)
    rw [he] at hconsumer
    rw [hr] at hprovider
    obtain ⟨rfl, rfl, rfl⟩ := hconsumer
    obtain ⟨w, hopen⟩ := openInPlace_verdict hS
    have hrefused : hp.refused = c.refused := hprovider.refused
    have hreason : hp.refused.getD [] = c.reason := by
      rw [hrefused, refused]
      split
      · rename_i hempty
        exact (List.isEmpty_iff.mp hempty).symm
      · rfl
    refine ⟨hsent, ?_, { c.consumerNoise with recvWindow := w }, ?_, ?_⟩
    · rw [hr]
      exact provider_onFrame_three hprovider
    · rw [hreason]
      exact hopen
    · rw [hreason, judge_verdictOf, hrefused, refused]
      split <;> rfl

/-- A pair that is served. -/
def served : Setup UInt8 where
  suite := Suite.clear
  pairId := 1
  provides := 1
  challenge := [3]
  consumerStatic := [10]
  providerStatic := [20]
  consumerEphemeral := [11]
  providerEphemeral := [21]
  policy := ⟨[], [Suite.clear.publicIdentity [10]]⟩

/-- Message two is lost once, and message three and the verdict arrive twice. -/
def servedEvents : List Event :=
  [.deliverProvider (handshakeFrame served.one.1), .tickConsumer,
    .deliverProvider (handshakeFrame served.one.1), .deliverConsumer (handshakeFrame served.two.1),
    .deliverProvider (handshakeFrame served.three.1),
    .deliverProvider (handshakeFrame served.three.1),
    .deliverConsumer (handshakeFrame served.verdict),
    .deliverConsumer (handshakeFrame served.verdict)]

theorem handshake_under_loss_served :
  ∃ s hc, Run (fun s e t => served.step s e = some t) served.start servedEvents s
    ∧ s.consumer = .finished (.ok hc)
    ∧ ∃ hp, s.provider = .finished (.ok hp) ∧ hp.refused = none
        ∧ hc.noise.sendKey = hp.noise.recvKey ∧ hc.noise.recvKey = hp.noise.sendKey
  := by
  obtain ⟨s, hc, hs, hconsumer⟩ : ∃ s hc,
      execute (fun _ _ => True) served.step served.start servedEvents = some s
      ∧ s.consumer = .finished (.ok hc) := ⟨_, _, rfl, rfl⟩
  have hrun := (run_of_execute hs).mono fun _ _ _ h => h.2
  exact ⟨s, hc, hrun, hconsumer, (handshake_under_loss Suite.lawful_clear hrun).2.2.1 hc hconsumer⟩

end Setup

end ZeroNat.Peer

import ZeroNat.Pppoe.Ppp.Phases
import ZeroNat.Pppoe.Ppp.Requests

/-!
# The parameters of a link

How we authenticate, and the receive unit and the magic number of the peer, are those that the
peer asked for in the last request that we acknowledged, as long as no request leaves anything
behind.
-/

namespace ZeroNat.Pppoe.Ppp

/-! ### What a request carries -/

/-- How a request wants us to authenticate. -/
def carriedAuth (opts : List OptionVal) : AuthType :=
  match lastOption Lcp.optAuth opts with
  | none => .none
  | some data =>
    if data = [0xc2, 0x23, 0x05] then .chapMd5
    else if data = [0xc0, 0x23] then .pap
    else .none

/-- The receive unit in a request, which is 1500 when there is none. -/
def carriedMru (opts : List OptionVal) : UInt16 :=
  match lastOption Lcp.optMru opts with
  | none => 1500
  | some data => u16OfBe data

/-- The magic number in a request, which is zero when there is none. -/
def carriedMagic (opts : List OptionVal) : UInt32 :=
  match lastOption Lcp.optMagicNumber opts with
  | none => 0
  | some data => u32OfBe data

namespace Lcp

open OptionFsm

/-- The parameters of the peer are those that a request carries. -/
structure Agrees (l : Lcp) (opts : List OptionVal) : Prop where
  auth : l.auth = carriedAuth opts
  mruRemote : l.mruRemote = carriedMru opts
  magicRemote : l.magicRemote = carriedMagic opts
  acceptable : Acceptable l opts

theorem agrees_ownOptionNacked {l : Lcp} {opts : List OptionVal} (h : l.Agrees opts)
    (code : UInt8) (data : List UInt8) (isRej : Bool) :
  (l.ownOptionNacked code data isRej).Agrees opts
  := by
  have hacc : ∀ l', Acceptable (P := Lcp) l' opts := by
    intro l' o ho
    rw [LawfulProtocol.verdict_eq _ l]
    exact h.acceptable o ho
  have hauth : (l.ownOptionNacked code data isRej).auth = l.auth := by
    rw [ownOptionNacked]
    repeat' split
    all_goals rfl
  have hmru : (l.ownOptionNacked code data isRej).mruRemote = l.mruRemote := by
    rw [ownOptionNacked]
    repeat' split
    all_goals rfl
  have hmagic : (l.ownOptionNacked code data isRej).magicRemote = l.magicRemote := by
    rw [ownOptionNacked]
    repeat' split
    all_goals rfl
  exact ⟨hauth.trans h.auth, hmru.trans h.mruRemote, hmagic.trans h.magicRemote, hacc _⟩

/-- What the options of a request set, when all of them are acceptable.  Only the kind of
authentication is forgotten when a request begins. -/
theorem judged_eq {l : Lcp} {opts : List OptionVal} (h : Acceptable l opts) :
  (judged l opts).auth = carriedAuth opts
    ∧ (judged l opts).mruRemote = ((lastOption optMru opts).elim l.mruRemote u16OfBe)
    ∧ (judged l opts).magicRemote = ((lastOption optMagicNumber opts).elim l.magicRemote u32OfBe)
  := by
  induction opts using List.reverseRecOn with
  | nil => exact ⟨rfl, rfl, rfl⟩
  | append_singleton opts o ih =>
      rw [acceptable_concat] at h
      obtain ⟨hauth, hmru, hmagic⟩ := ih h.1
      have ho : (peerOptionReceived l o.code o.data).1 = .ack := h.2
      have hstep : judged l (opts ++ [o])
          = (peerOptionReceived (judged l opts) o.code o.data).2 := judged_concat l opts o
      rw [hstep, carriedAuth, lastOption_concat, lastOption_concat, lastOption_concat]
      rw [carriedAuth] at hauth
      rw [peerOptionReceived] at ho ⊢
      split at ho
      · rename_i hcode
        split at ho
        · rename_i hlen
          simp [hcode, hlen, hauth, hmagic, optMru, optAuth, optMagicNumber]
        · cases ho
      · rename_i hnmru
        split at ho
        · rename_i hcode
          split at ho
          · rename_i hlen
            simp [hcode, hlen, hauth, hmru, hmagic, optMru, optAsyncmap, optAuth, optMagicNumber]
          · cases ho
        · rename_i hnasync
          split at ho
          · rename_i hcode
            split at ho
            · rename_i hdata
              simp [hcode, hdata, hmru, hmagic, optMru, optAsyncmap, optAuth, optMagicNumber]
            · rename_i hchap
              split at ho
              · rename_i hdata
                simp [hcode, hdata, hmru, hmagic, optMru, optAsyncmap, optAuth, optMagicNumber]
              · cases ho
          · rename_i hnauth
            split at ho
            · rename_i hcode
              split at ho
              · rename_i hlen
                simp [hcode, hlen, hauth, hmru, optMru, optAsyncmap, optAuth, optMagicNumber]
              · cases ho
            · cases ho

/-- A request that we agree with asks for no authentication only by leaving the option out. -/
theorem no_auth_of_agrees {l : Lcp} {opts : List OptionVal} (h : l.Agrees opts)
    (hauth : l.auth = .none) :
  ∀ o ∈ opts, o.code ≠ optAuth
  := by
  intro o ho hcode
  obtain ⟨x, hx⟩ : ∃ x, (opts.filter fun o => o.code = optAuth).getLast? = some x := by
    rw [← Option.isSome_iff_exists, List.getLast?_isSome]
    apply List.ne_nil_of_mem (a := o)
    simp [ho, hcode]
  have hmem : x ∈ opts ∧ x.code = optAuth := by
    simpa using List.mem_of_getLast? hx
  have hverdict : (peerOptionReceived l x.code x.data).1 = .ack := h.acceptable x hmem.1
  have hcarried : carriedAuth opts = .none := h.auth.symm.trans hauth
  rw [carriedAuth, lastOption, hx] at hcarried
  rw [peerOptionReceived, hmem.2] at hverdict
  simp only [Option.map_some] at hcarried
  split at hcarried
  · cases hcarried
  · rename_i hchap
    split at hcarried
    · cases hcarried
    · rename_i hpap
      simp [optMru, optAsyncmap, optAuth, hchap, hpap] at hverdict

end Lcp

/-! ### The runs of a link -/

namespace PPP

/-- What a link is given. -/
inductive Event where
  | openLink
  | payload (pkt : List UInt8)
  | tick
  | poll

variable (md5 : Digest)

def step (l : PPP) : Event → PPP
  | .openLink =>
    match l.openLink with
    | .ok l => l
    | .error _ => l
  | .payload pkt => (l.received md5 pkt).2.2
  | .tick => l.tick.2
  | .poll => l.poll.2

variable {md5 : Digest} {l : PPP} {pkt : List UInt8}

/-- Polling opens LCP when the link is to be established, and does nothing else to it. -/
theorem lcp_poll (l : PPP) :
  l.poll.2.lcp =
    if l.phase = .establish ∧ l.lcp.state = .closed ∧ l.lcp.failed = false then l.lcp.openFsm.2
    else l.lcp
  := by
  have hphase : l.pollPhase.2.lcp =
      if l.phase = .establish ∧ l.lcp.state = .closed ∧ l.lcp.failed = false then
        l.lcp.openFsm.2
      else l.lcp := by
    rw [pollPhase]
    cases hp : l.phase with
    | dead => simp
    | establish =>
        simp only [pollEstablish, true_and]
        split <;> split
        · split <;> rfl
        · split <;> split <;> rfl
        · split <;> rfl
        · split <;> split <;> rfl
    | auth =>
        simp only [pollAuth, reduceCtorEq, false_and, if_false]
        split
        · rfl
        · split <;> rfl
    | network =>
        simp only [reduceCtorEq, false_and, if_false]
        split <;> rfl
    | opened => simp
  rw [← hphase, poll]
  dsimp only
  split <;> rfl

/-- A link that is established goes on to the network only from an open LCP that asks for no
authentication. -/
theorem opened_of_poll_network (hphase : l.phase = .establish)
    (hnet : l.poll.2.phase = .network) :
  l.lcp.state = .opened ∧ l.lcp.proto.auth = .none
  := by
  have hnet' : l.pollPhase.2.phase = .network := by
    rw [poll] at hnet
    dsimp only at hnet
    split at hnet
    · cases hnet
    · exact hnet
  rw [pollPhase, hphase] at hnet'
  simp only [pollEstablish] at hnet'
  split at hnet'
  · rename_i hclosed
    rw [if_neg (by rw [OptionFsm.state_openFsm hclosed.1]; simp)] at hnet'
    split at hnet' <;> split at hnet' <;> simp [hphase] at hnet'
  · split at hnet'
    · rename_i hopen
      refine ⟨hopen, ?_⟩
      split at hnet'
      · rename_i hauth
        exact hauth
      · cases hnet'
      · cases hnet'
    · split at hnet' <;> split at hnet' <;> simp [hphase] at hnet'

end PPP

/-- A link, and the options of the last request of the peer for LCP that was acknowledged. -/
structure Observed where
  link : PPP
  acked : Option (List OptionVal)

namespace Observed

variable (md5 : Digest)

def new (username password : List UInt8) (mruLocal : UInt16) (magicLocal : UInt32) : Observed :=
  ⟨PPP.new username password mruLocal magicLocal, none⟩

/-- The last request that was acknowledged, after an event. -/
def ackedAfter (s : Observed) : PPP.Event → Option (List OptionVal)
  | .payload pkt =>
    if protocolOf pkt = some .lcp then lastAcked s.acked pkt (s.link.lcp.handle pkt).1
    else s.acked
  | _ => s.acked

def step (s : Observed) (e : PPP.Event) : Observed :=
  ⟨s.link.step md5 e, s.ackedAfter e⟩

/-- The request for LCP in an event. -/
def request? : PPP.Event → Option (List UInt8)
  | .payload pkt =>
    if protocolOf pkt = some .lcp then
      match control pkt with
      | some (.configureReq, _, p) => some p
      | _ => none
    else none
  | _ => none

/-- A request leaves nothing behind: it is well-formed, if we stand by an earlier one; and if it
will be acknowledged, then it carries a receive unit and a magic number, unless there is none of
an earlier request. -/
def Clean (s : Observed) (e : PPP.Event) : Prop :=
  ∀ p ∈ request? e, s.link.lcp.state ≠ .closed →
    (s.link.lcp.Standing → Negotiation.WellFormed p)
      ∧ (Negotiation.WellFormed p → OptionFsm.Acceptable s.link.lcp.proto (optionsOf p) →
        ((lastOption Lcp.optMru (optionsOf p)).isSome ∨ s.link.lcp.proto.mruRemote = 1500)
          ∧ ((lastOption Lcp.optMagicNumber (optionsOf p)).isSome
            ∨ s.link.lcp.proto.magicRemote = 0))

instance (s : Observed) (e : PPP.Event) : Decidable (s.Clean e) :=
  inferInstanceAs (Decidable (∀ p ∈ request? e, _))

/-- While LCP stands by an acknowledgement, the parameters are those of the request. -/
def Inv (s : Observed) : Prop :=
  s.link.lcp.Agrees Lcp.Agrees s.acked

theorem agrees_judged {l : Lcp} {opts : List OptionVal} (hacc : OptionFsm.Acceptable l opts)
    (hmru : (lastOption Lcp.optMru opts).isSome ∨ l.mruRemote = 1500)
    (hmagic : (lastOption Lcp.optMagicNumber opts).isSome ∨ l.magicRemote = 0) :
  (OptionFsm.judged l opts).Agrees opts
  := by
  obtain ⟨hauth, hm, hg⟩ := Lcp.judged_eq hacc
  refine ⟨hauth, ?_, ?_, ?_⟩
  · rw [hm, carriedMru]
    cases hopt : lastOption Lcp.optMru opts with
    | none => simpa [hopt] using hmru
    | some data => rfl
  · rw [hg, carriedMagic]
    cases hopt : lastOption Lcp.optMagicNumber opts with
    | none => simpa [hopt] using hmagic
    | some data => rfl
  · intro o ho
    rw [LawfulProtocol.verdict_eq _ l]
    exact hacc o ho

variable {md5 : Digest} {s : Observed} {e : PPP.Event}

theorem Inv.payload {pkt : List UInt8} (h : s.Inv) (hok : s.Clean (.payload pkt)) :
  (s.step md5 (.payload pkt)).Inv
  := by
  have hrec := PPP.received_received md5 s.link pkt
  simp only [Inv, step, ackedAfter, PPP.step]
  generalize (s.link.received md5 pkt).2.2 = l at hrec
  cases hrec with
  | lcp hproto =>
      rw [if_pos hproto]
      apply OptionFsm.agrees_handled (s.link.lcp.handle_handled pkt)
      · intro id p hc hopen
        have hreq : request? (.payload pkt) = some p := by
          rw [request?, if_pos hproto, hc]
        obtain ⟨hwf, hset⟩ := hok p hreq hopen
        refine ⟨hwf, ?_⟩
        intro hp hacc
        obtain ⟨hmru, hmagic⟩ := hset hp hacc
        exact agrees_judged hacc hmru hmagic
      · intro l code data isRej opts hl
        exact Lcp.agrees_ownOptionNacked hl code data isRej
      · exact h
  | ipv4cp hproto | pap hproto | chap hproto | unknown hproto =>
      rw [if_neg (by simp [hproto])]
      exact h
  | kept hproto =>
      rw [if_neg hproto]
      exact h

theorem Inv.step (h : s.Inv) (hok : s.Clean e) :
  (s.step md5 e).Inv
  := by
  cases e with
  | openLink =>
      have hlcp : (s.link.step md5 .openLink).lcp = s.link.lcp := by
        rw [PPP.step, PPP.openLink]
        cases s.link.phase <;> rfl
      simp only [Inv, Observed.step, ackedAfter, hlcp]
      exact h
  | payload pkt => exact h.payload hok
  | tick => exact OptionFsm.agrees_ticked s.link.lcp.onTick_ticked h
  | poll =>
      simp only [Inv, Observed.step, ackedAfter, PPP.step, PPP.lcp_poll]
      split
      · rename_i hclosed
        intro hstand
        rw [OptionFsm.Standing, OptionFsm.state_openFsm hclosed.2.1] at hstand
        simp at hstand
      · exact h

/-- Along every run in which no request leaves anything behind: when LCP is open, the parameters
are those of the last request that was acknowledged, and the link goes on to the network without
authentication only if that request did not ask for any. -/
theorem parameters_acknowledged {username password : List UInt8} {mruLocal : UInt16}
    {magicLocal : UInt32} {es : List PPP.Event}
    (h : Run (Meeting Clean fun s e t => s.step md5 e = t)
      (new username password mruLocal magicLocal) es s) :
  (s.link.lcp.state = .opened → ∃ opts, s.acked = some opts
      ∧ s.link.lcp.proto.auth = carriedAuth opts
      ∧ s.link.lcp.proto.mruRemote = carriedMru opts
      ∧ s.link.lcp.proto.magicRemote = carriedMagic opts)
    ∧ (s.link.phase = .establish → (s.step md5 .poll).link.phase = .network →
      ∃ opts, s.acked = some opts ∧ ∀ o ∈ opts, o.code ≠ Lcp.optAuth)
  := by
  have hinv : s.Inv := by
    apply h.invariant
    · intro hstand
      simp [new, PPP.new, OptionFsm.new, OptionFsm.Standing] at hstand
    · rintro s e _ hs ⟨hok, rfl⟩
      exact hs.step hok
  constructor
  · intro hopen
    obtain ⟨opts, hacked, hA⟩ := hinv (.inr hopen)
    exact ⟨opts, hacked, hA.auth, hA.mruRemote, hA.magicRemote⟩
  · intro hphase hnet
    obtain ⟨hopen, hauth⟩ := PPP.opened_of_poll_network hphase hnet
    obtain ⟨opts, hacked, hA⟩ := hinv (.inr hopen)
    refine ⟨opts, hacked, ?_⟩
    apply Lcp.no_auth_of_agrees hA hauth

/-- A request for CHAP with a receive unit and a magic number, one that is cut off, and the
acknowledgement of our first request. -/
def chapRequest : List UInt8 :=
  [0xc0, 0x21, 1, 1, 0, 19, 3, 5, 0xc2, 0x23, 5, 1, 4, 5, 212, 5, 6, 0, 0, 0, 9]

def cutRequest : List UInt8 := [0xc0, 0x21, 1, 2, 0, 5, 3]

def firstAck : List UInt8 := [0xc0, 0x21, 2, 2, 0, 4]

/-- Some digest. -/
def plainDigest : Digest := fun _ => List.Vector.replicate 16 0

def chapLink : List PPP.Event :=
  [.openLink, .poll, .payload chapRequest, .payload firstAck, .poll]

theorem parameters_acknowledged_chap :
  let s := chapLink.foldl (step plainDigest) (new [1] [2] 1492 7)
  s.link.lcp.state = .opened ∧ s.link.phase = .auth
    ∧ ∃ opts, s.acked = some opts
      ∧ s.link.lcp.proto.auth = carriedAuth opts
      ∧ s.link.lcp.proto.mruRemote = carriedMru opts
      ∧ s.link.lcp.proto.magicRemote = carriedMagic opts
  := by
  refine ⟨by decide, by decide, ?_⟩
  have hrun := run_of_meets (by decide :
    meets Clean (step plainDigest) (new [1] [2] 1492 7) chapLink = true)
  exact (parameters_acknowledged hrun).1 (by decide)

/-- A request for CHAP is acknowledged, and one that is cut off takes the authentication away
again: the link goes on to the network without it. -/
theorem network_without_auth :
  ∃ (es : List PPP.Event) (s : Observed),
    Run (fun s e t => s.step plainDigest e = t) (new [1] [2] 1492 7) es s
      ∧ s.link.lcp.state = .opened ∧ s.link.phase = .network
      ∧ s.link.lcp.proto.auth = .none ∧ s.acked.map carriedAuth = some .chapMd5
  := ⟨[.openLink, .poll, .payload chapRequest, .payload cutRequest, .payload firstAck, .poll], _,
    run_foldl (step plainDigest) _ _, by decide, by decide, by decide, by decide⟩

end Observed

end ZeroNat.Pppoe.Ppp

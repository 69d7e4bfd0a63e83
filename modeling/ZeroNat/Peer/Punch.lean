import ZeroNat.Dgram.Channel
import ZeroNat.Noise.Nn
import ZeroNat.Peer.Handshake
import ZeroNat.Proto.Msg
import ZeroNat.Server.Admission

/-!
# The punch

One side of the attempt to reach a peer directly.  The side with the lower identity initiates: it
shakes hands with every candidate at once and nominates the first that answers.  The other side
answers whoever sends it a handshake, and settles on the source from which a datagram
comes that opens under the keys of a handshake with that source.  The handshakes run as tasks of
their own, over streams of which only this is modelled: what a stream yields is made of the
packets that were routed into its session.
-/

open BigEndian

namespace ZeroNat.Peer

variable {β : Type}

/-- The class of the datagram that opens a mapping. -/
def classPunch : UInt8 := 0x04

/-- The bit that marks the conversation of a setup. -/
def setupConvBit : UInt32 := 0x80000000

/-- The addresses that one punch holds a session for. -/
def maxPunchPeers : ℕ := 8

/-- A handshake task: where its stream leads, and how far it has come. -/
inductive Attempt (β : Type) where
  /-- An initiator about to write message one. -/
  | ready (addr : SocketAddr)
  /-- An initiator that waits for message two. -/
  | awaitTwo (addr : SocketAddr) (ss : SymmetricState β) (ePriv : List β)
  /-- A responder that waits for message one. -/
  | awaitOne (addr : SocketAddr)
  /-- The task has ended. -/
  | ended (addr : SocketAddr)

/-- The address that the stream of a task leads to. -/
def Attempt.addr : Attempt β → SocketAddr
  | ready addr | awaitTwo addr _ _ | awaitOne addr | ended addr => addr

/-- The path that a side settles on: a session with an address, or the relay. -/
inductive PunchOutcome (β : Type) where
  | direct (peer : SocketAddr) (noise : StatelessNoise β)
  | relay

def PunchOutcome.status : PunchOutcome β → PathStatus
  | direct _ _ => .direct
  | relay => .relay

/-- One side of a punch.  The last four fields say what has happened: the datagrams taken from the
queue of the probe socket, those routed into the session of their source, what has been sealed
over the link, and the messages handed to the control channel, which drops one that it has no
room for. -/
structure Punch (β : Type) where
  initiator : Bool
  pairId : UInt64
  psk : List β
  targets : List SocketAddr
  sessions : List SocketAddr
  attempts : List (Attempt β)
  finished : List (SocketAddr × StatelessNoise β)
  wake : Bool
  completed : List (SocketAddr × StatelessNoise β)
  outcome : Option (PunchOutcome β)
  taken : List (SocketAddr × List β)
  routed : List (SocketAddr × List β)
  sealed : List (UInt64 × List β)
  reports : List (List UInt8)

namespace Punch

/-- The conversation that both sides derive from the pair. -/
def conv (p : Punch β) : UInt32 :=
  UInt32.ofNat p.pairId.toNat ||| setupConvBit

/-- Hold a finished handshake for an address, in place of the one held before. -/
def store (addr : SocketAddr) (noise : StatelessNoise β) :
    List (SocketAddr × StatelessNoise β) → List (SocketAddr × StatelessNoise β)
  | [] => [(addr, noise)]
  | (a, held) :: rest => if a = addr then (a, noise) :: rest else (a, held) :: store addr noise rest

/-- Tell the server which path this side settled on. -/
def report (p : Punch β) (status : PathStatus) : Punch β :=
  { p with reports := p.reports ++ [(Msg.peerPath p.pairId status).encode] }

/-- Return an outcome. -/
def settle (p : Punch β) (outcome : PunchOutcome β) : Punch β :=
  report { p with outcome := some outcome } outcome.status

/-- The candidates without repetitions, as many as there may be sessions. -/
def targetsOf (candidates : List SocketAddr) : List SocketAddr :=
  candidates.foldl
    (fun targets c =>
      if c ∉ targets ∧ targets.length < maxPunchPeers then targets ++ [c] else targets)
    []

/-- A side that is about to punch. -/
def fresh (initiator : Bool) (pairId : UInt64) (psk : List β) (targets : List SocketAddr) :
    Punch β where
  initiator := initiator
  pairId := pairId
  psk := psk
  targets := targets
  sessions := if initiator then targets else []
  attempts := if initiator then targets.map .ready else []
  finished := []
  wake := false
  completed := []
  outcome := none
  taken := []
  routed := []
  sealed := []
  reports := []

/-- A punch begins.  Without candidates it ends at once. -/
def start (localIdentity peerIdentity : String) (pairId : UInt64) (psk : List β)
    (candidates : List SocketAddr) : Punch β :=
  let targets := targetsOf candidates
  let p := fresh (decide (localIdentity < peerIdentity)) pairId psk targets
  if targets = [] then p.settle .relay else p

/-- A handshake has finished. -/
def push (p : Punch β) (addr : SocketAddr) (noise : StatelessNoise β) : Punch β :=
  { p with finished := p.finished ++ [(addr, noise)], wake := true }

/-- The loop takes the handshakes that have finished. -/
def onFinished (p : Punch β) : Punch β :=
  let done := p.finished
  let p := { p with finished := [], wake := false }
  if p.initiator then
    match done with
    | [] => p
    | (addr, noise) :: _ =>
      if addr ∈ p.sessions then p.settle (.direct addr noise) else p.settle .relay
  else
    { p with
      completed := done.foldl (fun completed (addr, noise) => store addr noise completed) p.completed }

variable [Alphabet β] (S : Suite β)

/-- The prologue of a handshake that starts with no preface. -/
def statelessPrologue : List β :=
  lit [protoVersion]

/-- The initiator writes message one. -/
def writeOne (psk : List β) (pairId : UInt64) (ePriv : List β) : List β × SymmetricState β :=
  nnWrite S (nnStart S psk statelessPrologue) ePriv none (u64Bytes pairId)

/-- The initiator reads message two. -/
def readTwo (ss : SymmetricState β) (ePriv msg : List β) : Except String (StatelessNoise β) := do
  let (_, _, ss) ← nnRead S ss (some ePriv) msg "handshake message 2 too short"
  return .fromKeys (ss.keys S true)

/-- The responder reads message one and writes message two.  The identifier is missing when the
payload is too short for one. -/
def answerOne (psk ePriv msg : List β) :
    Except String (List β × Option UInt64 × StatelessNoise β) := do
  let (re, payload, ss) ← nnRead S (nnStart S psk statelessPrologue) none msg
    "handshake message 1 too short"
  let (reply, ss) := nnWrite S ss ePriv (some re) []
  let id := if payload.length < 8 then none else ofU64Bytes (payload.take 8)
  return (reply, id, .fromKeys (ss.keys S false))

/-- The sealed body of a datagram of a conversation. -/
def dgramBody (datagram : List β) (conv : UInt32) : Option (List β) :=
  match datagram with
  | [] => none
  | cls :: rest =>
    if Alphabet.toByte cls ≠ some Dgram.classDgram ∨ rest.length < 4 then none
    else if unlit (rest.take 4) = some (toBe 4 conv.toNat) then some (rest.drop 4) else none

variable (getConv : List β → UInt32)

/-- A datagram that may open the setup of a conversation. -/
def opensSetup (datagram : List β) (conv : UInt32) : Bool :=
  match datagram with
  | [] => false
  | cls :: rest =>
    Alphabet.toByte cls = some classSetup ∧ kcpOverhead ≤ rest.length ∧ getConv rest = conv

/-- Route a datagram into the session of its source.  When it opens the setup of the pair, the
responder starts to answer the handshake; whether it does is up to the session, which may hold
that conversation already. -/
def routeTo (p : Punch β) (src : SocketAddr) (data : List β) (accepted : Bool) : Punch β :=
  { p with
    routed := p.routed ++ [(src, data)]
    attempts :=
      if accepted ∧ p.initiator = false ∧ opensSetup getConv data p.conv then
        p.attempts ++ [.awaitOne src]
      else p.attempts }

/-- The responder judges a datagram of the pair: it settles on the source if a handshake with that
source has finished and the body opens under its keys. -/
def judgeNomination (p : Punch β) (src : SocketAddr) (body : List β) : Punch β :=
  match p.completed.find? (fun x => x.1 = src) with
  | none => p
  | some (_, noise) =>
    if src ∈ p.sessions then
      match noise.openInPlace S.toCipher body with
      | (.ok _, noise) => p.settle (.direct src noise)
      | (.error _, _) => p
    else p

/-- The loop takes a datagram from the queue of the probe socket. -/
def onDatagram (p : Punch β) (src : SocketAddr) (data : List β) (accepted : Bool) : Punch β :=
  let p := { p with taken := p.taken ++ [(src, data)] }
  if data.map Alphabet.toByte = [some classPunch] then p
  else
    match if p.initiator then none else dgramBody data p.conv with
    | some body => p.judgeNomination S src body
    | none =>
      if src ∈ p.sessions then p.routeTo getConv src data accepted
      else if p.initiator ∨ maxPunchPeers ≤ p.sessions.length then p
      else routeTo getConv { p with sessions := p.sessions ++ [src] } src data accepted

/-- A datagram over the link, if there is one and its nonces are not used up. -/
def sendOver (p : Punch β) (plaintext : List β) : Option (Punch β × List (List β)) :=
  match p.outcome with
  | some (.direct peer noise) =>
    match noise.sealBody S.toCipher plaintext with
    | (.error _, _) => none
    | (.ok body, noise') =>
      some
        ({ p with
            outcome := some (.direct peer noise')
            sealed := p.sealed ++ [(noise.sendNonce, plaintext)] },
          [lit (Dgram.classDgram :: toBe 4 p.conv.toNat) ++ body])
  | _ => none

inductive Event (β : Type) where
  /-- A handshake task of the initiator starts. -/
  | begin (k : ℕ)
  /-- The stream of a handshake task yields a frame. -/
  | frame (k : ℕ) (msg : List β)
  /-- The loop is woken for the handshakes that have finished. -/
  | wake
  | deadline
  /-- The queue of the probe socket is closed. -/
  | gone
  /-- The responder sends its probes. -/
  | tick
  | datagram (src : SocketAddr) (data : List β) (accepted : Bool)
  /-- A keepalive over the link. -/
  | probe
  /-- A frame of data over the link. -/
  | data (payload : List β)

/-- What an event does, if it can happen, and the messages that are sent.  A task that makes an
ephemeral key makes the given one. -/
def step (p : Punch β) (ePriv : List β) : Event β → Option (Punch β × List (List β))
  | .begin k =>
    match p.attempts[k]? with
    | some (.ready addr) =>
      match writeOne S p.psk p.pairId ePriv with
      | (msg, ss) => some ({ p with attempts := p.attempts.set k (.awaitTwo addr ss ePriv) }, [msg])
    | _ => none
  | .frame k msg =>
    match p.attempts[k]? with
    | some (.awaitTwo addr ss ePriv) =>
      let p := { p with attempts := p.attempts.set k (.ended addr) }
      match readTwo S ss ePriv msg with
      | .ok noise => some (p.push addr noise, [])
      | .error _ => some (p, [])
    | some (.awaitOne addr) =>
      let p := { p with attempts := p.attempts.set k (.ended addr) }
      match answerOne S p.psk ePriv msg with
      | .ok (reply, id, noise) =>
        some (if id = some p.pairId then p.push addr noise else p, [reply])
      | .error _ => some (p, [])
    | _ => none
  | .wake => if p.outcome.isNone ∧ p.wake then some (p.onFinished, []) else none
  | .deadline => if p.outcome.isNone then some (p.settle .relay, []) else none
  -- a finished handshake is recorded before the next datagram is judged
  | .gone => if p.outcome.isNone ∧ p.wake = false then some (p.settle .relay, []) else none
  | .tick =>
    if p.outcome.isNone ∧ p.wake = false ∧ p.initiator = false then
      some (p, p.targets.map fun _ => lit [classPunch])
    else none
  | .datagram src data accepted =>
    if p.outcome.isNone ∧ p.wake = false then
      some (p.onDatagram S getConv src data accepted, [])
    else none
  | .probe => p.sendOver S (lit [Dgram.kindKeepalive])
  | .data payload => p.sendOver S (lit [Dgram.kindData] ++ payload)

/-! ### What an event can do -/

variable {S getConv} {p p' : Punch β} {ePriv : List β} {sent : List (List β)}

variable (S getConv) in
/-- What an event can do, and what it sends. -/
inductive Does (p : Punch β) (ePriv : List β) : Event β → Punch β → List (List β) → Prop where
  | began {k : ℕ} {addr : SocketAddr} : p.attempts[k]? = some (.ready addr) →
      Does p ePriv (.begin k)
        { p with
          attempts := p.attempts.set k (.awaitTwo addr (writeOne S p.psk p.pairId ePriv).2 ePriv) }
        [(writeOne S p.psk p.pairId ePriv).1]
  | failed {k : ℕ} {msg : List β} {a : Attempt β} : p.attempts[k]? = some a →
      Does p ePriv (.frame k msg) { p with attempts := p.attempts.set k (.ended a.addr) } []
  | heardTwo {k : ℕ} {msg own : List β} {addr : SocketAddr} {ss : SymmetricState β}
      {noise : StatelessNoise β} : p.attempts[k]? = some (.awaitTwo addr ss own) →
      readTwo S ss own msg = .ok noise →
      Does p ePriv (.frame k msg)
        (push { p with attempts := p.attempts.set k (.ended addr) } addr noise) []
  | answered {k : ℕ} {msg reply : List β} {id : Option UInt64} {addr : SocketAddr}
      {noise : StatelessNoise β} : p.attempts[k]? = some (.awaitOne addr) →
      answerOne S p.psk ePriv msg = .ok (reply, id, noise) →
      Does p ePriv (.frame k msg)
        (if id = some p.pairId then
          push { p with attempts := p.attempts.set k (.ended addr) } addr noise
        else { p with attempts := p.attempts.set k (.ended addr) })
        [reply]
  | woken : p.outcome = none → Does p ePriv .wake p.onFinished []
  | relayed {e : Event β} : p.outcome = none → Does p ePriv e (p.settle .relay) []
  | ticked : Does p ePriv .tick p (p.targets.map fun _ => lit [classPunch])
  | took {src : SocketAddr} {data : List β} {accepted : Bool} : p.outcome = none →
      Does p ePriv (.datagram src data accepted) (p.onDatagram S getConv src data accepted) []
  | sent {e : Event β} {peer : SocketAddr} {noise noise' : StatelessNoise β}
      {kind : UInt8} {payload body : List β} :
      p.outcome = some (.direct peer noise) →
      noise.sealBody S.toCipher (lit [kind] ++ payload) = (.ok body, noise') →
      kind = Dgram.kindKeepalive ∧ payload = [] ∨ kind = Dgram.kindData ∧ e = .data payload →
      Does p ePriv e
        { p with
          outcome := some (.direct peer noise')
          sealed := p.sealed ++ [(noise.sendNonce, lit [kind] ++ payload)] }
        [lit (Dgram.classDgram :: toBe 4 p.conv.toNat) ++ body]

theorem does_sendOver {e : Event β} {kind : UInt8} {payload : List β}
    (hpayload : kind = Dgram.kindKeepalive ∧ payload = []
      ∨ kind = Dgram.kindData ∧ e = .data payload)
    (h : p.sendOver S (lit [kind] ++ payload) = some (p', sent)) :
  Does S getConv p ePriv e p' sent
  := by
  rw [sendOver.eq_def] at h
  split at h
  · rename_i peer noise houtcome
    split at h
    · cases h
    · rename_i body noise' hseal
      obtain ⟨rfl, rfl⟩ := Prod.mk.inj (Option.some.inj h)
      exact .sent houtcome hseal hpayload
  · cases h

theorem does_of_step {e : Event β} (h : p.step S getConv ePriv e = some (p', sent)) :
  Does S getConv p ePriv e p' sent
  := by
  cases e with
  | begin k =>
      simp only [step] at h
      split at h
      · rename_i addr hk
        obtain ⟨rfl, rfl⟩ := Prod.mk.inj (Option.some.inj h)
        exact .began hk
      · cases h
  | frame k msg =>
      simp only [step] at h
      split at h
      · rename_i addr ss own hk
        split at h
        · rename_i noise hread
          obtain ⟨rfl, rfl⟩ := Prod.mk.inj (Option.some.inj h)
          exact .heardTwo hk hread
        · obtain ⟨rfl, rfl⟩ := Prod.mk.inj (Option.some.inj h)
          exact .failed hk
      · rename_i addr hk
        split at h
        · rename_i reply id noise hanswer
          obtain ⟨rfl, rfl⟩ := Prod.mk.inj (Option.some.inj h)
          exact .answered hk hanswer
        · obtain ⟨rfl, rfl⟩ := Prod.mk.inj (Option.some.inj h)
          exact .failed hk
      · cases h
  | wake =>
      simp only [step] at h
      split at h
      · rename_i hguard
        obtain ⟨rfl, rfl⟩ := Prod.mk.inj (Option.some.inj h)
        exact .woken (Option.isNone_iff_eq_none.mp hguard.1)
      · cases h
  | deadline =>
      simp only [step] at h
      split at h
      · rename_i hguard
        obtain ⟨rfl, rfl⟩ := Prod.mk.inj (Option.some.inj h)
        exact .relayed (Option.isNone_iff_eq_none.mp hguard)
      · cases h
  | gone =>
      simp only [step] at h
      split at h
      · rename_i hguard
        obtain ⟨rfl, rfl⟩ := Prod.mk.inj (Option.some.inj h)
        exact .relayed (Option.isNone_iff_eq_none.mp hguard.1)
      · cases h
  | tick =>
      simp only [step] at h
      split at h
      · obtain ⟨rfl, rfl⟩ := Prod.mk.inj (Option.some.inj h)
        exact .ticked
      · cases h
  | datagram src data accepted =>
      simp only [step] at h
      split at h
      · rename_i hguard
        obtain ⟨rfl, rfl⟩ := Prod.mk.inj (Option.some.inj h)
        exact .took (Option.isNone_iff_eq_none.mp hguard.1)
      · cases h
  | probe =>
      simp only [step] at h
      rw [← List.append_nil (lit [Dgram.kindKeepalive])] at h
      exact does_sendOver (Or.inl ⟨rfl, rfl⟩) h
  | data payload =>
      simp only [step] at h
      exact does_sendOver (Or.inr ⟨rfl, rfl⟩) h

variable (S getConv) in
/-- What a datagram does: it is dropped, it is routed into the session of its source, which may be
new, or it nominates its source. -/
theorem onDatagram_cases (p : Punch β) (src : SocketAddr) (data : List β) (accepted : Bool) :
  p.onDatagram S getConv src data accepted = { p with taken := p.taken ++ [(src, data)] }
    ∨ (∃ sessions, (sessions = p.sessions ∧ src ∈ p.sessions
          ∨ sessions = p.sessions ++ [src] ∧ src ∉ p.sessions ∧ p.initiator = false
            ∧ p.sessions.length < maxPunchPeers)
        ∧ p.onDatagram S getConv src data accepted
          = routeTo getConv { p with taken := p.taken ++ [(src, data)], sessions } src data accepted)
    ∨ ∃ body noise noise' plaintext, p.initiator = false ∧ dgramBody data p.conv = some body
        ∧ (src, noise) ∈ p.completed
        ∧ noise.openInPlace S.toCipher body = (.ok plaintext, noise')
        ∧ p.onDatagram S getConv src data accepted
          = settle { p with taken := p.taken ++ [(src, data)] } (.direct src noise')
  := by
  rw [onDatagram]
  dsimp only
  split
  · exact Or.inl rfl
  · split
    · rename_i body hbody
      obtain ⟨hrole, hdgram⟩ : p.initiator = false ∧ dgramBody data p.conv = some body := by
        split at hbody
        · cases hbody
        · rename_i hrole
          exact ⟨Bool.not_eq_true _ |>.mp hrole, hbody⟩
      rw [judgeNomination.eq_def]
      dsimp only
      split
      · exact Or.inl rfl
      · rename_i addr noise hfind
        obtain rfl : addr = src := by simpa using List.find?_some hfind
        have hmem := List.mem_of_find?_eq_some hfind
        split
        · split
          · rename_i plaintext noise' hopen
            exact Or.inr (Or.inr ⟨body, noise, noise', plaintext, hrole, hdgram, hmem, hopen, rfl⟩)
          · exact Or.inl rfl
        · exact Or.inl rfl
    · split
      · rename_i hmem
        exact Or.inr (Or.inl ⟨p.sessions, Or.inl ⟨rfl, hmem⟩, rfl⟩)
      · rename_i hmem
        split
        · exact Or.inl rfl
        · rename_i hroom
          rw [not_or, Bool.not_eq_true, Nat.not_le] at hroom
          exact Or.inr (Or.inl
            ⟨p.sessions ++ [src], Or.inr ⟨rfl, hmem, hroom.1, hroom.2⟩, rfl⟩)

omit [Alphabet β] in
/-- What the loop does with the handshakes that have finished: an initiator nominates the first,
and a responder holds them all. -/
theorem onFinished_cases (p : Punch β) :
  (p.initiator = true ∧ p.finished = [] ∧ p.onFinished = { p with finished := [], wake := false })
    ∨ (∃ addr noise, p.initiator = true ∧ (addr, noise) ∈ p.finished
        ∧ ((addr ∈ p.sessions
            ∧ p.onFinished
              = settle { p with finished := [], wake := false } (.direct addr noise))
          ∨ p.onFinished = settle { p with finished := [], wake := false } .relay))
    ∨ p.initiator = false
      ∧ p.onFinished = { p with
          finished := []
          wake := false
          completed :=
            p.finished.foldl (fun completed x => store x.1 x.2 completed) p.completed }
  := by
  rw [onFinished]
  dsimp only
  split
  · rename_i hrole
    split
    · rename_i hdone
      exact Or.inl ⟨hrole, hdone, rfl⟩
    · rename_i addr noise rest hdone
      refine Or.inr (Or.inl ⟨addr, noise, hrole, by simp [hdone], ?_⟩)
      split
      · rename_i hmem
        exact Or.inl ⟨hmem, rfl⟩
      · exact Or.inr rfl
  · rename_i hrole
    exact Or.inr (Or.inr ⟨Bool.not_eq_true _ |>.mp hrole, rfl⟩)

/-! ### Sessions and reports -/

/-- A plaintext of the link: a keepalive, or a frame of data. -/
def Framed (plaintext : List β) : Prop :=
  plaintext = lit [Dgram.kindKeepalive] ∨ ∃ payload, plaintext = lit [Dgram.kindData] ++ payload

/-- The sessions are for different addresses and not too many, those of an initiator are for its
candidates, the outcome has been reported once it is there, and only keepalives and frames of data
go over the link. -/
structure Tidy (p : Punch β) : Prop where
  nodup : p.sessions.Nodup
  few : p.sessions.length ≤ maxPunchPeers
  targets : p.initiator = true → p.sessions = p.targets
  reports : p.reports
    = (p.outcome.map fun o => (Msg.peerPath p.pairId o.status).encode).toList
  sealed : ∀ x ∈ p.sealed, Framed x.2

theorem targetsOf_spec (candidates : List SocketAddr) :
  (targetsOf candidates).Nodup ∧ (targetsOf candidates).length ≤ maxPunchPeers
    ∧ ∀ a ∈ targetsOf candidates, a ∈ candidates
  := by
  have hfold : ∀ (cs targets : List SocketAddr), targets.Nodup →
      targets.length ≤ maxPunchPeers →
      (cs.foldl (fun targets c =>
          if c ∉ targets ∧ targets.length < maxPunchPeers then targets ++ [c] else targets)
        targets).Nodup
      ∧ (cs.foldl (fun targets c =>
          if c ∉ targets ∧ targets.length < maxPunchPeers then targets ++ [c] else targets)
        targets).length ≤ maxPunchPeers
      ∧ ∀ a ∈ cs.foldl (fun targets c =>
          if c ∉ targets ∧ targets.length < maxPunchPeers then targets ++ [c] else targets)
        targets, a ∈ targets ∨ a ∈ cs := by
    intro cs
    induction cs with
    | nil => exact fun targets hnodup hle => ⟨hnodup, hle, fun a ha => Or.inl ha⟩
    | cons c cs ih =>
        intro targets hnodup hle
        rw [List.foldl_cons]
        split
        · rename_i hc
          have hnodup' : (targets ++ [c]).Nodup := by
            rw [List.nodup_append]
            refine ⟨hnodup, List.nodup_singleton c, ?_⟩
            intro a ha b hb hab
            rw [List.mem_singleton.mp hb] at hab
            exact hc.1 (hab ▸ ha)
          obtain ⟨h₁, h₂, h₃⟩ := ih (targets ++ [c]) hnodup'
            (by rw [List.length_append]; exact hc.2)
          refine ⟨h₁, h₂, ?_⟩
          intro a ha
          rcases h₃ a ha with ha | ha
          · rcases List.mem_append.mp ha with ha | ha
            · exact Or.inl ha
            · rw [List.mem_singleton.mp ha]
              exact Or.inr List.mem_cons_self
          · exact Or.inr (List.mem_cons_of_mem c ha)
        · obtain ⟨h₁, h₂, h₃⟩ := ih targets hnodup hle
          refine ⟨h₁, h₂, ?_⟩
          intro a ha
          rcases h₃ a ha with ha | ha
          · exact Or.inl ha
          · exact Or.inr (List.mem_cons_of_mem c ha)
  obtain ⟨h₁, h₂, h₃⟩ := hfold candidates [] List.nodup_nil (Nat.zero_le _)
  exact ⟨h₁, h₂, fun a ha => (h₃ a ha).resolve_left (by simp)⟩

theorem Tidy.settle (h : Tidy p) (houtcome : p.outcome = none) (o : PunchOutcome β) :
  Tidy (p.settle o)
  := by
  have hreports := h.reports
  rw [houtcome] at hreports
  refine ⟨h.nodup, h.few, h.targets, ?_, h.sealed⟩
  change p.reports ++ _ = _
  rw [hreports]
  rfl

theorem Tidy.does {e : Event β} (h : Tidy p) (hdoes : Does S getConv p ePriv e p' sent) :
  Tidy p'
  := by
  cases hdoes with
  | began | failed | heardTwo => exact ⟨h.nodup, h.few, h.targets, h.reports, h.sealed⟩
  | answered =>
      split
      · exact ⟨h.nodup, h.few, h.targets, h.reports, h.sealed⟩
      · exact ⟨h.nodup, h.few, h.targets, h.reports, h.sealed⟩
  | woken houtcome =>
      have hidle : Tidy { p with finished := [], wake := false } :=
        ⟨h.nodup, h.few, h.targets, h.reports, h.sealed⟩
      rcases p.onFinished_cases with ⟨_, _, heq⟩ | ⟨addr, noise, _, _, ⟨_, heq⟩ | heq⟩ | ⟨_, heq⟩
      · rw [heq]
        exact hidle
      · rw [heq]
        exact hidle.settle houtcome _
      · rw [heq]
        exact hidle.settle houtcome _
      · rw [heq]
        exact ⟨h.nodup, h.few, h.targets, h.reports, h.sealed⟩
  | relayed houtcome => exact h.settle houtcome _
  | ticked => exact h
  | @took src data accepted houtcome =>
      have htaken : Tidy { p with taken := p.taken ++ [(src, data)] } :=
        ⟨h.nodup, h.few, h.targets, h.reports, h.sealed⟩
      rcases onDatagram_cases S getConv p src data accepted with
        heq | ⟨sessions, hsessions, heq⟩ | ⟨_, _, noise', _, _, _, _, _, heq⟩
      · rw [heq]
        exact htaken
      · rw [heq]
        rcases hsessions with ⟨rfl, _⟩ | ⟨rfl, hnew, hrole, hroom⟩
        · exact ⟨h.nodup, h.few, h.targets, h.reports, h.sealed⟩
        · refine ⟨?_, ?_, ?_, h.reports, h.sealed⟩
          · change (p.sessions ++ [src]).Nodup
            rw [List.nodup_append]
            refine ⟨h.nodup, List.nodup_singleton src, ?_⟩
            intro a ha b hb hab
            rw [List.mem_singleton.mp hb] at hab
            exact hnew (hab ▸ ha)
          · change (p.sessions ++ [src]).length ≤ maxPunchPeers
            rw [List.length_append]
            exact hroom
          · intro hinit
            change p.initiator = true at hinit
            rw [hrole] at hinit
            cases hinit
      · rw [heq]
        exact htaken.settle houtcome _
  | @sent e peer noise noise' kind payload body houtcome _ hpayload =>
      refine ⟨h.nodup, h.few, h.targets, ?_, ?_⟩
      · have hreports := h.reports
        rw [houtcome] at hreports
        exact hreports
      · intro x hx
        rcases List.mem_append.mp hx with hx | hx
        · exact h.sealed x hx
        · obtain rfl := List.mem_singleton.mp hx
          rcases hpayload with ⟨rfl, rfl⟩ | ⟨rfl, _⟩
          · exact Or.inl (List.append_nil _)
          · exact Or.inr ⟨payload, rfl⟩

theorem tidy_start (x y : String) (pairId : UInt64) (psk : List β) (candidates : List SocketAddr) :
  Tidy (start x y pairId psk candidates)
  := by
  obtain ⟨hnodup, hle, _⟩ := targetsOf_spec candidates
  have hfresh : ∀ initiator, Tidy (fresh initiator pairId psk (targetsOf candidates)) := by
    intro initiator
    cases initiator with
    | false => exact ⟨List.nodup_nil, Nat.zero_le _, by simp [fresh], rfl, by simp [fresh]⟩
    | true => exact ⟨hnodup, hle, fun _ => rfl, rfl, by simp [fresh]⟩
  rw [start]
  split
  · exact (hfresh _).settle rfl _
  · exact hfresh _

/-! ### A handshake that goes through -/

/-- A responder answers message one, and the initiator reads its answer. -/
theorem answers (hS : S.Lawful) (psk eI eR : List β) (pairId : UInt64) :
  ∃ msg noiseI noiseR,
    answerOne S psk eR (writeOne S psk pairId eI).1 = .ok (msg, some pairId, .fromKeys noiseR)
    ∧ readTwo S (writeOne S psk pairId eI).2 eI msg = .ok (.fromKeys noiseI)
    ∧ Crosswise noiseI noiseR
  := by
  obtain ⟨ssI₁, ssR₁, ssI₂, ssR₂, msg₁, msg₂, hwrite₁, hread₁, hwrite₂, hread₂, hcross⟩ :=
    nn_agrees hS psk statelessPrologue eI eR (u64Bytes pairId) []
      "handshake message 1 too short" "handshake message 2 too short"
  refine ⟨msg₂, ssI₂.keys S true, ssR₂.keys S false, ?_, ?_, hcross⟩
  · rw [writeOne, hwrite₁]
    apply XxHandshake.bind_eq_ok_iff.mpr
    refine ⟨_, hread₁, ?_⟩
    dsimp only
    rw [hwrite₂, if_neg (by rw [length_u64Bytes]; decide), List.take_of_length_le
      (by rw [length_u64Bytes]), ofU64Bytes_u64Bytes]
    rfl
  · rw [writeOne, hwrite₁]
    apply XxHandshake.bind_eq_ok_iff.mpr
    exact ⟨_, hread₂, rfl⟩

variable {k : ℕ} {addr : SocketAddr}

theorem step_begin {msg : List β} {ss : SymmetricState β}
    (hk : p.attempts[k]? = some (.ready addr))
    (hwrite : writeOne S p.psk p.pairId ePriv = (msg, ss)) :
  p.step S getConv ePriv (.begin k)
    = some ({ p with attempts := p.attempts.set k (.awaitTwo addr ss ePriv) }, [msg])
  := by
  simp only [step, hk, hwrite]

theorem step_two {own msg : List β} {ss : SymmetricState β} {noise : StatelessNoise β}
    (hk : p.attempts[k]? = some (.awaitTwo addr ss own))
    (hread : readTwo S ss own msg = .ok noise) :
  p.step S getConv ePriv (.frame k msg)
    = some (push { p with attempts := p.attempts.set k (.ended addr) } addr noise, [])
  := by
  simp only [step, hk, hread]

theorem step_one {msg reply : List β} {noise : StatelessNoise β}
    (hk : p.attempts[k]? = some (.awaitOne addr))
    (hanswer : answerOne S p.psk ePriv msg = .ok (reply, some p.pairId, noise)) :
  p.step S getConv ePriv (.frame k msg)
    = some (push { p with attempts := p.attempts.set k (.ended addr) } addr noise, [reply])
  := by
  simp only [step, hk, hanswer, if_pos]

theorem judgeNomination_of_opens {src : SocketAddr} {body plaintext : List β}
    {noise noise' : StatelessNoise β}
    (hfind : p.completed.find? (fun x => x.1 = src) = some (addr, noise)) (hmem : src ∈ p.sessions)
    (hopen : noise.openInPlace S.toCipher body = (.ok plaintext, noise')) :
  p.judgeNomination S src body = p.settle (.direct src noise')
  := by
  simp only [judgeNomination, hfind, if_pos hmem, hopen]

theorem dgramBody_lit (conv : UInt32) (body : List β) :
  dgramBody (lit (Dgram.classDgram :: toBe 4 conv.toNat) ++ body) conv = some body
  := by
  have hlen : (lit (toBe 4 conv.toNat) : List β).length = 4 := by
    rw [length_lit, length_toBe]
  change dgramBody (Alphabet.ofByte Dgram.classDgram :: (lit (toBe 4 conv.toNat) ++ body)) conv = _
  rw [dgramBody, Alphabet.toByte_ofByte, List.take_left' hlen, List.drop_left' hlen, unlit_lit,
    if_neg, if_pos rfl]
  rintro (hcls | hshort)
  · exact hcls rfl
  · rw [List.length_append, hlen] at hshort
    omega

end Punch

end ZeroNat.Peer

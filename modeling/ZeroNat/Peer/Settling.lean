import ZeroNat.Peer.Nomination

/-!
# When a nomination settles

A responder holds one finished handshake for each source, the last, and a handshake of two
messages finishes when the answer is written, whoever reads it.  A late copy of message one that is
answered again puts another handshake in the place of the one that the initiator nominates.  What
the initiator then seals over its link is dropped.
-/

namespace ZeroNat.Peer

open Term BigEndian

namespace Punch

/-- The handshakes that finish in a step. -/
def ended (p : Punch Term) (e : Event Term) (p' : Punch Term) :
    List (SocketAddr × StatelessNoise Term) :=
  match e with
  | .frame _ _ => p'.finished.drop p.finished.length
  | _ => []

/-- The last handshake of a list that has finished with a source. -/
def latest (src : SocketAddr) (done : List (SocketAddr × StatelessNoise Term)) :
    Option (StatelessNoise Term) :=
  (done.reverse.find? fun x => x.1 = src).map Prod.snd

/-- A step of one side, whatever it is sent, with the handshakes that have finished so far. -/
def Follows (getConv : List Term → UInt32)
    (x : Punch Term × List (SocketAddr × StatelessNoise Term))
    (a : List Term × Event Term)
    (y : Punch Term × List (SocketAddr × StatelessNoise Term)) : Prop :=
  ∃ sent, x.1.step suite getConv a.1 a.2 = some (y.1, sent)
    ∧ y.2 = x.2 ++ x.1.ended a.2 y.1

/-! ### What is held -/

theorem find?_store {src addr : SocketAddr} {noise : StatelessNoise Term}
    {l : List (SocketAddr × StatelessNoise Term)} :
  (store addr noise l).find? (fun x => x.1 = src)
    = if addr = src then some (addr, noise) else l.find? fun x => x.1 = src
  := by
  induction l with
  | nil =>
      rw [store]
      by_cases h : addr = src <;> simp [h]
  | cons y l ih =>
      obtain ⟨a, held⟩ := y
      rw [store]
      by_cases ha : a = addr
      · subst ha
        rw [if_pos rfl]
        by_cases h : a = src <;> simp [h]
      · rw [if_neg ha]
        by_cases h : a = src
        · have hne : addr ≠ src := fun heq => ha (h.trans heq.symm)
          simp [h, hne]
        · simp [h, ih]

/-- The handshake that is held for a source is the last that has finished with it. -/
theorem find?_foldl_store (src : SocketAddr) (done : List (SocketAddr × StatelessNoise Term)) :
  (done.foldl (fun completed x => store x.1 x.2 completed) []).find? (fun x => x.1 = src)
    = done.reverse.find? fun x => x.1 = src
  := by
  induction done using List.reverseRecOn with
  | nil => rfl
  | append_singleton done x ih =>
      rw [List.foldl_append, List.foldl_cons, List.foldl_nil, find?_store, ih,
        List.reverse_append, List.reverse_singleton, List.singleton_append, List.find?_cons]
      obtain ⟨a, held⟩ := x
      by_cases h : a = src <;> simp [h]

/-- What a responder holds, with those that wait to be taken, is what has finished; a handshake
that waits has woken the loop; the sources have sessions, and nothing was opened yet. -/
structure Remembers (p : Punch Term) (done : List (SocketAddr × StatelessNoise Term)) : Prop where
  role : p.initiator = false
  held : p.finished.foldl (fun completed x => store x.1 x.2 completed) p.completed
    = done.foldl (fun completed x => store x.1 x.2 completed) []
  woken : p.wake = false → p.finished = []
  attempts : ∀ a ∈ p.attempts, a.addr ∈ p.sessions
  finished : ∀ x ∈ p.finished, x.1 ∈ p.sessions ∧ x.2.recvWindow = .fresh
  completed : ∀ x ∈ p.completed, x.1 ∈ p.sessions ∧ x.2.recvWindow = .fresh

variable {getConv : List Term → UInt32} {p p' : Punch Term} {ePriv : List Term}
  {e : Event Term} {sent : List (List Term)} {done : List (SocketAddr × StatelessNoise Term)}

theorem ended_of_finished (h : p'.finished = p.finished) :
  p.ended e p' = []
  := by
  cases e with
  | frame => rw [ended, h, List.drop_length]
  | _ => rfl

/-- What is held stays while no handshake finishes. -/
theorem Remembers.keep (h : p.Remembers done) (hinitiator : p'.initiator = p.initiator)
    (hfinished : p'.finished = p.finished) (hwake : p'.wake = p.wake)
    (hcompleted : p'.completed = p.completed) (hsessions : p.sessions ⊆ p'.sessions)
    (hattempts : ∀ a ∈ p'.attempts, a.addr ∈ p'.sessions) :
  p'.Remembers (done ++ p.ended e p')
  := by
  rw [ended_of_finished hfinished, List.append_nil]
  refine ⟨hinitiator.trans h.role, ?_, ?_, hattempts, ?_, ?_⟩
  · rw [hfinished, hcompleted]
    exact h.held
  · rw [hfinished, hwake]
    exact h.woken
  · rw [hfinished]
    exact fun x hx => ⟨hsessions (h.finished x hx).1, (h.finished x hx).2⟩
  · rw [hcompleted]
    exact fun x hx => ⟨hsessions (h.completed x hx).1, (h.completed x hx).2⟩

theorem addr_of_mem_set {l : List (Attempt Term)} {k : ℕ} {a b : Attempt Term}
    {sessions : List SocketAddr} (hl : ∀ a ∈ l, a.addr ∈ sessions) (hb : b.addr ∈ sessions)
    (ha : a ∈ l.set k b) :
  a.addr ∈ sessions
  := by
  rcases List.mem_or_eq_of_mem_set ha with ha | rfl
  · exact hl a ha
  · exact hb

/-- A handshake finishes with a source that has a session. -/
theorem Remembers.push (h : p.Remembers done) {k : ℕ} {msg : List Term} {addr : SocketAddr}
    {noise : StatelessNoise Term} (haddr : addr ∈ p.sessions)
    (hwindow : noise.recvWindow = .fresh) :
  (Punch.push { p with attempts := p.attempts.set k (.ended addr) } addr noise).Remembers
    (done ++ p.ended (.frame k msg)
      (Punch.push { p with attempts := p.attempts.set k (.ended addr) } addr noise))
  := by
  have hended : p.ended (.frame k msg)
      (Punch.push { p with attempts := p.attempts.set k (.ended addr) } addr noise)
      = [(addr, noise)] := by
    rw [ended, Punch.push, List.drop_left]
  rw [hended]
  refine ⟨h.role, ?_, ?_, ?_, ?_, h.completed⟩
  · rw [Punch.push]
    dsimp only
    rw [List.foldl_append, h.held, ← List.foldl_append]
  · intro hwake
    exact absurd hwake (by simp [Punch.push])
  · exact fun a ha => addr_of_mem_set (b := .ended addr) h.attempts haddr ha
  · intro x hx
    rcases List.mem_append.mp hx with hx | hx
    · exact h.finished x hx
    · obtain rfl := List.mem_singleton.mp hx
      exact ⟨haddr, hwindow⟩

theorem fresh_of_readTwo {ss : SymmetricState Term} {own msg : List Term}
    {noise : StatelessNoise Term} (h : readTwo suite ss own msg = .ok noise) :
  noise.recvWindow = .fresh
  := by
  obtain ⟨⟨re, payload, ss'⟩, -, hok⟩ := XxHandshake.bind_eq_ok_iff.mp h
  obtain rfl := Except.ok.inj hok
  rfl

theorem fresh_of_answerOne {psk own msg reply : List Term} {id : Option UInt64}
    {noise : StatelessNoise Term}
    (h : answerOne suite psk own msg = .ok (reply, id, noise)) :
  noise.recvWindow = .fresh
  := by
  obtain ⟨⟨re, payload, ss'⟩, -, hok⟩ := XxHandshake.bind_eq_ok_iff.mp h
  obtain ⟨-, hrest⟩ := Prod.mk.inj (Except.ok.inj hok)
  obtain ⟨-, rfl⟩ := Prod.mk.inj hrest
  rfl

/-- A datagram leaves what is held, or it is a nomination that the loop settles on. -/
theorem Remembers.datagram (h : p.Remembers done) (src : SocketAddr) (data : List Term)
    (accepted : Bool) :
  (p.onDatagram suite getConv src data accepted).Remembers
    (done ++ p.ended e (p.onDatagram suite getConv src data accepted))
  := by
  rcases onDatagram_cases suite getConv p src data accepted with
    heq | ⟨sessions, hsessions, heq⟩ | ⟨_, _, noise', _, _, _, _, _, heq⟩
  · rw [heq]
    exact h.keep rfl rfl rfl rfl (List.Subset.refl _) h.attempts
  · rw [heq]
    have hsub : p.sessions ⊆ sessions ∧ src ∈ sessions := by
      rcases hsessions with ⟨rfl, hmem⟩ | ⟨rfl, -⟩
      · exact ⟨List.Subset.refl _, hmem⟩
      · exact ⟨List.subset_append_left _ _,
          List.mem_append_right _ (List.mem_singleton_self src)⟩
    refine h.keep rfl rfl rfl rfl hsub.1 ?_
    intro a ha
    rw [routeTo] at ha
    dsimp only at ha
    split at ha
    · rcases List.mem_append.mp ha with ha | ha
      · exact hsub.1 (h.attempts a ha)
      · obtain rfl := List.mem_singleton.mp ha
        exact hsub.2
    · exact hsub.1 (h.attempts a ha)
  · rw [heq]
    exact h.keep rfl rfl rfl rfl (List.Subset.refl _) h.attempts

theorem Remembers.does (h : p.Remembers done) (hdoes : Does suite getConv p ePriv e p' sent) :
  p'.Remembers (done ++ p.ended e p')
  := by
  cases hdoes with
  | @began k addr hk =>
      refine h.keep rfl rfl rfl rfl (List.Subset.refl _) ?_
      exact fun a ha => addr_of_mem_set (b := .awaitTwo addr _ _) h.attempts
        (h.attempts (.ready addr) (List.mem_of_getElem? hk)) ha
  | @failed k msg a hk =>
      refine h.keep rfl rfl rfl rfl (List.Subset.refl _) ?_
      exact fun b hb => addr_of_mem_set (b := .ended a.addr) h.attempts
        (h.attempts a (List.mem_of_getElem? hk)) hb
  | heardTwo hk hread =>
      exact h.push (h.attempts _ (List.mem_of_getElem? hk)) (fresh_of_readTwo hread)
  | @answered k msg reply id addr noise hk hanswer =>
      have haddr := h.attempts _ (List.mem_of_getElem? hk)
      split
      · exact h.push haddr (fresh_of_answerOne hanswer)
      · refine h.keep rfl rfl rfl rfl (List.Subset.refl _) ?_
        exact fun a ha => addr_of_mem_set (b := .ended addr) h.attempts haddr ha
  | woken houtcome =>
      have hheld := h.held
      rcases p.onFinished_cases with ⟨hrole, -⟩ | ⟨_, _, hrole, -⟩ | ⟨_, heq⟩
      · exact absurd (h.role.symm.trans hrole) (by simp)
      · exact absurd (h.role.symm.trans hrole) (by simp)
      · have hended : ∀ q, p.ended .wake q = [] := fun _ => rfl
        rw [heq, hended, List.append_nil]
        refine ⟨h.role, hheld, fun _ => rfl, h.attempts, by simp, ?_⟩
        intro x hx
        rcases mem_foldl_store hx with hx | hx
        · exact h.completed x hx
        · exact h.finished x hx
  | relayed => exact h.keep rfl rfl rfl rfl (List.Subset.refl _) h.attempts
  | ticked => exact h.keep rfl rfl rfl rfl (List.Subset.refl _) h.attempts
  | took => exact h.datagram _ _ _
  | sent => exact h.keep rfl rfl rfl rfl (List.Subset.refl _) h.attempts

theorem remembers_start {x y : String} (hrole : ¬ x < y) (pairId : UInt64) (psk : List Term)
    (candidates : List SocketAddr) :
  (start x y pairId psk candidates).Remembers []
  := by
  rw [start, decide_eq_false hrole]
  split
  · exact ⟨rfl, rfl, fun _ => rfl, by simp [settle, report, fresh],
      by simp [settle, report, fresh], by simp [settle, report, fresh]⟩
  · exact ⟨rfl, rfl, fun _ => rfl, by simp [fresh], by simp [fresh], by simp [fresh]⟩

/-- In every run, what a responder holds for a source is the last handshake that has finished with
it. -/
theorem Follows.remembers {x y : String} (hrole : ¬ x < y) {pairId : UInt64} {psk : List Term}
    {candidates : List SocketAddr} {acts : List (List Term × Event Term)}
    (h : Run (Follows getConv) (start x y pairId psk candidates, []) acts (p, done)) :
  p.Remembers done
  := by
  refine Run.invariant (I := fun z => z.1.Remembers z.2) h
    (remembers_start hrole pairId psk candidates) ?_
  rintro ⟨q, old⟩ ⟨own, e⟩ ⟨q', new⟩ hq ⟨sent, hstep, hnew⟩
  rw [show new = old ++ q.ended e q' from hnew]
  exact hq.does (does_of_step hstep)

/-! ### The nomination -/

/-- The datagram of a pair with a body that was sealed under a key. -/
noncomputable def sealedUnder (p : Punch Term) (key : List Term) (n : UInt64)
    (plaintext : List Term) : List Term :=
  lit (Dgram.classDgram :: toBe 4 p.conv.toNat)
    ++ (u64Bytes n ++ suite.aeadEncrypt key n [] plaintext)

/-- What one side sends over its link. -/
theorem sendOver_eq_some {q q' : Punch Term} {plaintext data : List Term} {peer : SocketAddr}
    {noise : StatelessNoise Term} (houtcome : q.outcome = some (.direct peer noise))
    (h : q.sendOver suite plaintext = some (q', [data])) :
  data = q.sealedUnder noise.sendKey noise.sendNonce plaintext
  := by
  rw [sendOver, houtcome] at h
  dsimp only at h
  split at h
  · cases h
  · rename_i body noise' hseal
    obtain ⟨-, hdata⟩ := Prod.mk.inj (Option.some.inj h)
    rw [← (List.cons.inj hdata).1, (linkKeys_sealBody hseal).2]
    rfl

/-- The keys decide whether a body opens that a fresh window is given. -/
theorem opens_iff {noise : StatelessNoise Term} (hfresh : noise.recvWindow = .fresh)
    (key : List Term) (n : UInt64) (plaintext : List Term) :
  (∃ opened noise', noise.openInPlace suite.toCipher
      (u64Bytes n ++ suite.aeadEncrypt key n [] plaintext) = (.ok opened, noise'))
    ↔ noise.recvKey = key
  := by
  constructor
  · rintro ⟨opened, noise', hopen⟩
    obtain ⟨n', ct, w, hbody, -, hdec, -, -⟩ := StatelessNoise.openInPlace_eq_ok_iff.mp hopen
    have hct := (List.append_inj hbody (by rw [length_u64Bytes, length_u64Bytes])).2
    rw [aeadDecrypt_eq_some_iff.mp hdec] at hct
    exact (aeadEncrypt_injective hct).1.symm
  · rintro rfl
    refine ⟨plaintext, _, StatelessNoise.openInPlace_eq_ok_iff.mpr ⟨n, _, ⟨some n, 1⟩, rfl, ?_,
      aeadDecrypt_eq_some_iff.mpr rfl, ?_, rfl⟩⟩
    · change tagLen ≤ (block _ _).length
      rw [length_block]
      exact Nat.le_add_left _ _
    · rw [hfresh]
      rfl

theorem onDatagram_sealedUnder (h : p.Remembers done) (src : SocketAddr) (key : List Term)
    (n : UInt64) (plaintext : List Term) (accepted : Bool) :
  p.onDatagram suite getConv src (p.sealedUnder key n plaintext) accepted
    = judgeNomination suite
      { p with taken := p.taken ++ [(src, p.sealedUnder key n plaintext)] } src
      (u64Bytes n ++ suite.aeadEncrypt key n [] plaintext)
  := by
  have hnot : (p.sealedUnder key n plaintext).map Alphabet.toByte ≠ [some classPunch] := by
    intro heq
    have hlen := congrArg List.length heq
    rw [sealedUnder, List.length_map, List.length_append, length_lit] at hlen
    simp [length_toBe] at hlen
    omega
  have hbody : (if p.initiator then none else dgramBody (p.sealedUnder key n plaintext) p.conv)
      = some (u64Bytes n ++ suite.aeadEncrypt key n [] plaintext) := by
    rw [h.role, if_neg Bool.false_ne_true]
    exact dgramBody_lit p.conv _
  rw [onDatagram]
  dsimp only
  rw [if_neg hnot]
  simp only [conv] at hbody ⊢
  rw [hbody]

/-- The responder settles when the handshake that it holds for the source has the key. -/
theorem judgeNomination_settles_iff (houtcome : p.outcome = none)
    (hcompleted : ∀ x ∈ p.completed, x.1 ∈ p.sessions ∧ x.2.recvWindow = .fresh)
    (src : SocketAddr) (key : List Term) (n : UInt64) (plaintext : List Term) :
  ((∃ held, (p.judgeNomination suite src
        (u64Bytes n ++ suite.aeadEncrypt key n [] plaintext)).outcome = some (.direct src held))
      ↔ ∃ x, p.completed.find? (fun x => x.1 = src) = some x ∧ x.2.recvKey = key)
    ∧ ((p.judgeNomination suite src
        (u64Bytes n ++ suite.aeadEncrypt key n [] plaintext)).outcome = none →
      p.judgeNomination suite src (u64Bytes n ++ suite.aeadEncrypt key n [] plaintext) = p)
  := by
  rw [judgeNomination.eq_def]
  split
  · rename_i hfind
    exact ⟨by simp [houtcome, hfind], fun _ => rfl⟩
  · rename_i addr noise hfind
    obtain ⟨hsession, hfresh⟩ := hcompleted _ (List.mem_of_find?_eq_some hfind)
    obtain rfl : addr = src := by simpa using List.find?_some hfind
    have hopens := opens_iff hfresh key n plaintext
    rw [if_pos hsession, hfind]
    split
    · rename_i opened noise' hopen
      have hkey := hopens.mp ⟨opened, noise', hopen⟩
      refine ⟨⟨fun _ => ⟨_, rfl, hkey⟩, fun _ => ⟨noise', rfl⟩⟩, ?_⟩
      intro hnone
      exact absurd hnone (by simp [settle, report])
    · rename_i e noise' hopen
      refine ⟨⟨?_, ?_⟩, fun _ => rfl⟩
      · rintro ⟨held, hdirect⟩
        exact absurd (houtcome.symm.trans hdirect) (by simp)
      · rintro ⟨x, hx, hkey⟩
        obtain rfl := Option.some.inj hx
        obtain ⟨opened, noise'', hopen'⟩ := hopens.mpr hkey
        exact absurd (hopen.symm.trans hopen') (by simp)

/-- When no handshake waits, the one that is held for a source is the last. -/
theorem Remembers.find? (h : p.Remembers done) (hwake : p.wake = false) (src : SocketAddr) :
  p.completed.find? (fun x => x.1 = src) = done.reverse.find? fun x => x.1 = src
  := by
  have hheld := h.held
  rw [h.woken hwake, List.foldl_nil] at hheld
  rw [hheld, find?_foldl_store]

/-- A responder that has not settled yet takes a datagram which the other side sends over the link
of the handshake that it nominated.  The responder settles on the source if and only if the last
handshake that has finished with the source is the nominated one, by its keys.  Otherwise the
datagram is dropped, and nothing else is done.  Whatever the responder was sent before, and whatever
handshakes have finished with other sources, makes no difference. -/
theorem nomination_settles_iff {x y : String} (hrole : ¬ x < y) {pairId : UInt64}
    {psk : List Term} {candidates : List SocketAddr} {acts : List (List Term × Event Term)}
    (hrun : Run (Follows getConv) (start x y pairId psk candidates, []) acts (p, done))
    {q q' : Punch Term} {peer src : SocketAddr} {noise : StatelessNoise Term}
    {plaintext data : List Term} {accepted : Bool}
    (hpair : q.pairId = p.pairId) (hnominated : q.outcome = some (.direct peer noise))
    (hsent : q.sendOver suite plaintext = some (q', [data]))
    (htaken : p.step suite getConv ePriv (.datagram src data accepted) = some (p', sent)) :
  ((∃ held, p'.outcome = some (.direct src held))
      ↔ ∃ last, latest src done = some last ∧ last.recvKey = noise.sendKey)
    ∧ (p'.outcome = none → p' = { p with taken := p.taken ++ [(src, data)] })
  := by
  have hp := Follows.remembers hrole hrun
  obtain rfl : data = p.sealedUnder noise.sendKey noise.sendNonce plaintext := by
    rw [sendOver_eq_some hnominated hsent, sealedUnder, sealedUnder, conv, conv, hpair]
  rw [step, onDatagram_sealedUnder hp] at htaken
  split at htaken
  · rename_i hguard
    obtain ⟨rfl, -⟩ := Prod.mk.inj (Option.some.inj htaken)
    have hnone : p.outcome = none := Option.isNone_iff_eq_none.mp hguard.1
    obtain ⟨hiff, hdropped⟩ := judgeNomination_settles_iff
      (p := { p with
        taken := p.taken
          ++ [(src, p.sealedUnder noise.sendKey noise.sendNonce plaintext)] })
      hnone hp.completed src noise.sendKey noise.sendNonce plaintext
    refine ⟨hiff.trans ?_, hdropped⟩
    rw [latest]
    dsimp only
    rw [hp.find? hguard.2 src]
    constructor
    · rintro ⟨x, hx, hkey⟩
      exact ⟨x.2, by rw [hx, Option.map_some], hkey⟩
    · rintro ⟨last, hlast, hkey⟩
      obtain ⟨x, hx, rfl⟩ := Option.map_eq_some_iff.mp hlast
      exact ⟨x, hx, hkey⟩
  · cases htaken

/-! ### A late copy of message one -/

/-- The key under which a responder receives is made of its own ephemeral key. -/
theorem recvKey_answerOne {psk own msg reply : List Term} {id : Option UInt64}
    {noise : StatelessNoise Term}
    (h : answerOne suite psk own msg = .ok (reply, id, noise)) :
  ∃ ck secret, noise.recvKey
    = suite.hkdf (suite.hkdf (suite.hkdf ck (suite.publicIdentity own) 0) secret 0) [] 0
  := by
  obtain ⟨⟨re, payload, ss⟩, -, hok⟩ := XxHandshake.bind_eq_ok_iff.mp h
  obtain ⟨-, hrest⟩ := Prod.mk.inj (Except.ok.inj hok)
  obtain ⟨-, rfl⟩ := Prod.mk.inj hrest
  use ss.ck, suite.x25519 own re
  change suite.hkdf (nnWrite suite ss own (some re) []).2.ck [] 0 = _
  rw [nnWrite]
  dsimp only
  rw [ck_encryptAndHash]
  rfl

/-- Two answers with different ephemeral keys leave the responder with different keys. -/
theorem recvKey_ne_of_answers {psk own own' msg msg' reply reply' : List Term}
    {id id' : Option UInt64} {noise noise' : StatelessNoise Term}
    (h : answerOne suite psk own msg = .ok (reply, id, noise))
    (h' : answerOne suite psk own' msg' = .ok (reply', id', noise')) (hne : own ≠ own') :
  noise.recvKey ≠ noise'.recvKey
  := by
  intro heq
  obtain ⟨ck, secret, hkey⟩ := recvKey_answerOne h
  obtain ⟨ck', secret', hkey'⟩ := recvKey_answerOne h'
  rw [hkey, hkey'] at heq
  have hpublic := (hkdf_injective (hkdf_injective (hkdf_injective heq).1).1).2
  rw [publicIdentity_suite, publicIdentity_suite] at hpublic
  exact hne (ofList_injective (Term.pub.inj (block_injective (by decide) hpublic)))

end Punch

end ZeroNat.Peer

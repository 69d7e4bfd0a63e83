import ZeroNat.Lib.Run
import ZeroNat.Noise.Symbolic
import ZeroNat.Peer.Punch
import ZeroNat.Peer.Relay

/-!
# The nomination

Two sides punch for the same pair, over a network that an attacker controls: it sees what is
sent, and delivers from any source whatever it can derive from that.  It does not have the key
that the two sides share.  A responder that settles on a path has opened what the
initiator sealed over the path that it nominated.
-/

namespace ZeroNat.Peer

open Term BigEndian

/-! ### Secrets and keys -/

/-- Bytes that no attacker knows, whatever the others make. -/
def Secret (l : List Term) : Prop :=
  ∀ made, ¬AllPublic made l

/-- The key that both sides of the pair have. -/
def pairPsk : List Term :=
  keyOf (.static 0)

theorem secret_pairPsk :
  Secret pairPsk
  := by
  intro made h
  exact (allPublic_block (by decide)).mp h

theorem Secret.hkdf {ck : List Term} (h : Secret ck) (ikm : List Term) (i : ℕ) :
  Secret (suite.hkdf ck ikm i)
  := fun made hpublic => h made (allPublic_hkdf hpublic).1

theorem Secret.hkdf_ikm {ikm : List Term} (h : Secret ikm) (ck : List Term) (i : ℕ) :
  Secret (suite.hkdf ck ikm i)
  := fun made hpublic => h made (allPublic_hkdf hpublic).2

theorem secret_nnStart (prologue : List Term) :
  Secret (nnStart suite pairPsk prologue).ck
  := secret_pairPsk.hkdf_ikm _ 0

theorem ck_encryptAndHash (ss : SymmetricState Term) (p : List Term) :
  (ss.encryptAndHash suite p).2.ck = ss.ck
  := by
  rw [SymmetricState.encryptAndHash]
  split <;> rfl

theorem ck_decryptAndHash {ss ss' : SymmetricState Term} {ct p : List Term}
    (h : ss.decryptAndHash suite ct = .ok (p, ss')) :
  ss'.ck = ss.ck
  := by
  rw [SymmetricState.decryptAndHash.eq_def] at h
  split at h
  · split at h
    · obtain ⟨_, rfl⟩ := Prod.mk.inj (Except.ok.inj h)
      rfl
    · cases h
  · obtain ⟨_, rfl⟩ := Prod.mk.inj (Except.ok.inj h)
    rfl

theorem secret_mixSecret {ss : SymmetricState Term} (h : Secret ss.ck) (ikm : Option (List Term)) :
  Secret (ss.mixSecret suite ikm).ck
  := by
  cases ikm with
  | none => exact h
  | some ikm => exact h.hkdf ikm 0

theorem secret_nnWrite {ss : SymmetricState Term} (h : Secret ss.ck) (ePriv : List Term)
    (re : Option (List Term)) (payload : List Term) :
  Secret (nnWrite suite ss ePriv re payload).2.ck
  := by
  change Secret (SymmetricState.encryptAndHash suite _ payload).2.ck
  rw [ck_encryptAndHash]
  exact secret_mixSecret (h.hkdf _ 0) _

theorem secret_nnRead {ss ss' : SymmetricState Term} (h : Secret ss.ck) {ePriv : Option (List Term)}
    {msg re payload : List Term} {short : String}
    (hread : nnRead suite ss ePriv msg short = .ok (re, payload, ss')) :
  Secret ss'.ck
  := by
  rw [nnRead] at hread
  split at hread
  · cases hread
  · obtain ⟨⟨payload', ss''⟩, hdec, hok⟩ := XxHandshake.bind_eq_ok_iff.mp hread
    obtain ⟨_, hok⟩ := Prod.mk.inj (Except.ok.inj hok)
    obtain ⟨_, rfl⟩ := Prod.mk.inj hok
    rw [ck_decryptAndHash hdec]
    exact secret_mixSecret (h.hkdf _ 0) _

/-- The keys of a link. -/
def linkKeys (noise : StatelessNoise Term) : Keys Term :=
  ⟨noise.sendKey, noise.recvKey⟩

/-- The keys that a side derives in the end. -/
noncomputable def keysFrom (ck : List Term) (initiator : Bool) : Keys Term :=
  SymmetricState.keys suite ⟨ck, [], none, 0⟩ initiator

theorem keys_eq_keysFrom (ss : SymmetricState Term) (initiator : Bool) :
  ss.keys suite initiator = keysFrom ss.ck initiator
  := rfl

/-- A link of one side of a handshake that the attacker has no part in. -/
def Linked (initiator : Bool) (noise : StatelessNoise Term) : Prop :=
  ∃ ck, Secret ck ∧ linkKeys noise = keysFrom ck initiator

/-! ### What stays -/

variable {getConv : List Term → UInt32} {p p' : Punch Term} {ePriv : List Term}
  {sent : List (List Term)} {e : Punch.Event Term}

/-- A side goes on: what it was started with stays, the logs grow, and a link keeps its address and
its keys. -/
structure Punch.Grows (p p' : Punch Term) : Prop where
  initiator : p'.initiator = p.initiator
  pairId : p'.pairId = p.pairId
  psk : p'.psk = p.psk
  targets : p'.targets = p.targets
  taken : p.taken ⊆ p'.taken
  routed : p.routed ⊆ p'.routed
  sealed : p.sealed ⊆ p'.sealed
  direct : ∀ peer noise, p.outcome = some (.direct peer noise) →
    ∃ noise', p'.outcome = some (.direct peer noise') ∧ linkKeys noise' = linkKeys noise

theorem Punch.Grows.refl (p : Punch Term) :
  p.Grows p
  := ⟨rfl, rfl, rfl, rfl, fun _ h => h, fun _ h => h, fun _ h => h, fun _ noise h => ⟨noise, h, rfl⟩⟩

theorem Punch.Grows.trans {p'' : Punch Term} (h : p.Grows p') (h' : p'.Grows p'') :
  p.Grows p''
  := by
  refine ⟨h'.initiator.trans h.initiator, h'.pairId.trans h.pairId, h'.psk.trans h.psk,
    h'.targets.trans h.targets, List.Subset.trans h.taken h'.taken,
    List.Subset.trans h.routed h'.routed, List.Subset.trans h.sealed h'.sealed, ?_⟩
  intro peer noise hdirect
  obtain ⟨noise', hdirect', hkeys⟩ := h.direct peer noise hdirect
  obtain ⟨noise'', hdirect'', hkeys'⟩ := h'.direct peer noise' hdirect'
  exact ⟨noise'', hdirect'', hkeys'.trans hkeys⟩

/-- Only the fields of a punch that is under way change. -/
theorem Punch.Grows.of_none (houtcome : p.outcome = none) (hinitiator : p'.initiator = p.initiator)
    (hpairId : p'.pairId = p.pairId) (hpsk : p'.psk = p.psk) (htargets : p'.targets = p.targets)
    (htaken : p.taken ⊆ p'.taken) (hrouted : p.routed ⊆ p'.routed)
    (hsealed : p'.sealed = p.sealed) :
  p.Grows p'
  := by
  refine ⟨hinitiator, hpairId, hpsk, htargets, htaken, hrouted, ?_, ?_⟩
  · rw [hsealed]
    exact fun _ h => h
  · intro peer noise hdirect
    rw [houtcome] at hdirect
    cases hdirect

theorem linkKeys_sealBody {noise noise' : StatelessNoise Term} {plaintext body : List Term}
    (h : noise.sealBody suite.toCipher plaintext = (.ok body, noise')) :
  linkKeys noise' = linkKeys noise
    ∧ body = u64Bytes noise.sendNonce
      ++ suite.aeadEncrypt noise.sendKey noise.sendNonce [] plaintext
  := by
  rw [StatelessNoise.sealBody, StatelessNoise.sealAt.eq_def] at h
  split at h
  · rename_i nonce noise'' hnonce
    obtain ⟨rfl, _, rfl⟩ := StatelessNoise.nextNonce_eq_ok hnonce
    obtain ⟨hbody, rfl⟩ := Prod.mk.inj h
    refine ⟨rfl, ?_⟩
    rw [← Except.ok.inj hbody, StatelessNoise.sealWith, List.take_zero, List.nil_append,
      List.drop_left' (by rw [length_lit, List.length_replicate])]
  · cases (Prod.mk.inj h).1

theorem linkKeys_openInPlace {noise noise' : StatelessNoise Term} {plaintext body : List Term}
    (h : noise.openInPlace suite.toCipher body = (.ok plaintext, noise')) :
  linkKeys noise' = linkKeys noise
  := by
  obtain ⟨w, hw⟩ := StatelessNoise.openInPlace_snd suite.toCipher noise body
  rw [h] at hw
  rw [show noise' = _ from hw]
  rfl

theorem Punch.grows_does (hdoes : Does suite getConv p ePriv e p' sent) :
  p.Grows p'
  := by
  cases hdoes with
  | began | failed | heardTwo =>
      exact ⟨rfl, rfl, rfl, rfl, fun _ h => h, fun _ h => h, fun _ h => h,
        fun _ noise h => ⟨noise, h, rfl⟩⟩
  | answered =>
      split
      · exact ⟨rfl, rfl, rfl, rfl, fun _ h => h, fun _ h => h, fun _ h => h,
          fun _ noise h => ⟨noise, h, rfl⟩⟩
      · exact ⟨rfl, rfl, rfl, rfl, fun _ h => h, fun _ h => h, fun _ h => h,
          fun _ noise h => ⟨noise, h, rfl⟩⟩
  | woken houtcome =>
      rcases p.onFinished_cases with ⟨_, _, heq⟩ | ⟨addr, noise, _, _, ⟨_, heq⟩ | heq⟩ | ⟨_, heq⟩
      all_goals
        rw [heq]
        exact .of_none houtcome rfl rfl rfl rfl (fun _ h => h) (fun _ h => h) rfl
  | relayed houtcome => exact .of_none houtcome rfl rfl rfl rfl (fun _ h => h) (fun _ h => h) rfl
  | ticked => exact .refl p
  | @took src data accepted houtcome =>
      rcases onDatagram_cases suite getConv p src data accepted with
        heq | ⟨sessions, _, heq⟩ | ⟨_, _, noise', _, _, _, _, _, heq⟩
      · rw [heq]
        exact .of_none houtcome rfl rfl rfl rfl (List.subset_append_left _ _) (fun _ h => h) rfl
      · rw [heq]
        exact .of_none houtcome rfl rfl rfl rfl (List.subset_append_left _ _)
          (List.subset_append_left _ _) rfl
      · rw [heq]
        exact .of_none houtcome rfl rfl rfl rfl (List.subset_append_left _ _) (fun _ h => h) rfl
  | @sent e peer noise noise' kind payload body houtcome hseal _ =>
      refine ⟨rfl, rfl, rfl, rfl, fun _ h => h, fun _ h => h, List.subset_append_left _ _, ?_⟩
      intro peer' held hdirect
      rw [houtcome] at hdirect
      obtain ⟨rfl, rfl⟩ := PunchOutcome.direct.inj (Option.some.inj hdirect)
      exact ⟨noise', rfl, (linkKeys_sealBody hseal).1⟩

/-! ### Where a side stands -/

/-- A message is put together from pieces of the datagrams that were routed from an address. -/
def Punch.Assembles (p : Punch Term) (addr : SocketAddr) (msg : List Term) : Prop :=
  ∃ pieces : List (List Term), msg = pieces.flatten
    ∧ ∀ piece ∈ pieces, ∃ data, (addr, data) ∈ p.routed ∧ piece <:+: data

/-- The handshake with an address has been answered: what was routed from that address makes up a
message two that ends the handshake which the side began with a message one of its own. -/
def Punch.AnsweredBy (p : Punch Term) (addr : SocketAddr) (keys : Keys Term) : Prop :=
  ∃ own msg noise, p.Assembles addr msg
    ∧ Punch.readTwo suite (Punch.writeOne suite p.psk p.pairId own).2 own msg = .ok noise
    ∧ linkKeys noise = keys

/-- A task is of the role of its side, and waits for what it should. -/
def Attempt.Sound (p : Punch Term) : Attempt Term → Prop
  | .ready _ => p.initiator = true
  | .awaitTwo _ ss own =>
    p.initiator = true ∧ ss = (Punch.writeOne suite p.psk p.pairId own).2
  | .awaitOne _ => p.initiator = false
  | .ended _ => True

/-- The handshakes that a side holds are its own, and an initiator has had the answer to each from
the address that it holds it for. -/
structure Punch.Sound (p : Punch Term) : Prop where
  psk : p.psk = pairPsk
  attempts : ∀ a ∈ p.attempts, a.Sound p
  finished : ∀ x ∈ p.finished, Linked p.initiator x.2
    ∧ (p.initiator = true → p.AnsweredBy x.1 (linkKeys x.2))
  completed : ∀ x ∈ p.completed, Linked p.initiator x.2
  direct : ∀ peer noise, p.outcome = some (.direct peer noise) → Linked p.initiator noise
    ∧ (p.initiator = true → peer ∈ p.targets ∧ p.AnsweredBy peer (linkKeys noise))

/-- What a stream yields is put together from what was routed from its address. -/
def Punch.Hears (p : Punch Term) : Punch.Event Term → Prop
  | .frame k msg =>
    ∀ a, p.attempts[k]? = some a → p.Assembles a.addr msg
  | _ => True

theorem Punch.Assembles.mono (hgrows : p.Grows p') {addr : SocketAddr} {msg : List Term}
    (h : p.Assembles addr msg) :
  p'.Assembles addr msg
  := by
  obtain ⟨pieces, hmsg, hpieces⟩ := h
  refine ⟨pieces, hmsg, ?_⟩
  intro piece hpiece
  obtain ⟨data, hrouted, hinfix⟩ := hpieces piece hpiece
  exact ⟨data, hgrows.routed hrouted, hinfix⟩

theorem Punch.AnsweredBy.mono (hgrows : p.Grows p') {addr : SocketAddr} {keys : Keys Term}
    (h : p.AnsweredBy addr keys) :
  p'.AnsweredBy addr keys
  := by
  obtain ⟨own, msg, noise, hmsg, hread, hkeys⟩ := h
  refine ⟨own, msg, noise, hmsg.mono hgrows, ?_, hkeys⟩
  rw [hgrows.psk, hgrows.pairId]
  exact hread

theorem Attempt.Sound.mono (hgrows : p.Grows p') {a : Attempt Term} (h : a.Sound p) :
  a.Sound p'
  := by
  cases a with
  | ready addr => exact hgrows.initiator.trans h
  | awaitTwo addr ss own =>
      refine ⟨hgrows.initiator.trans h.1, ?_⟩
      rw [hgrows.psk, hgrows.pairId]
      exact h.2
  | awaitOne addr => exact hgrows.initiator.trans h
  | ended addr => trivial

theorem secret_writeOne (pairId : UInt64) (own : List Term) :
  Secret (Punch.writeOne suite pairPsk pairId own).2.ck
  := secret_nnWrite (secret_nnStart _) own none _

theorem linked_readTwo {ss : SymmetricState Term} {own msg : List Term}
    {noise : StatelessNoise Term} (hss : Secret ss.ck)
    (h : Punch.readTwo suite ss own msg = .ok noise) :
  Linked true noise
  := by
  obtain ⟨⟨re, payload, ss'⟩, hread, hok⟩ := XxHandshake.bind_eq_ok_iff.mp h
  obtain rfl := Except.ok.inj hok
  exact ⟨ss'.ck, secret_nnRead hss hread, rfl⟩

theorem linked_answerOne {own msg reply : List Term} {id : Option UInt64}
    {noise : StatelessNoise Term}
    (h : Punch.answerOne suite pairPsk own msg = .ok (reply, id, noise)) :
  Linked false noise
    ∧ ∃ ss re, reply = (nnWrite suite ss own (some re) []).1
  := by
  obtain ⟨⟨re, payload, ss'⟩, hread, hok⟩ := XxHandshake.bind_eq_ok_iff.mp h
  have hck := secret_nnWrite (secret_nnRead (secret_nnStart _) hread) own (some re) []
  rcases hwrite : nnWrite suite ss' own (some re) [] with ⟨written, ss''⟩
  dsimp only at hok
  rw [hwrite] at hok hck
  obtain ⟨rfl, hrest⟩ := Prod.mk.inj (Except.ok.inj hok)
  obtain ⟨_, rfl⟩ := Prod.mk.inj hrest
  exact ⟨⟨_, hck, rfl⟩, ss', re, congrArg Prod.fst hwrite.symm⟩

theorem mem_store {addr : SocketAddr} {noise : StatelessNoise Term}
    {l : List (SocketAddr × StatelessNoise Term)} {x : SocketAddr × StatelessNoise Term}
    (hx : x ∈ Punch.store addr noise l) :
  x ∈ l ∨ x = (addr, noise)
  := by
  induction l with
  | nil => exact Or.inr (List.mem_singleton.mp hx)
  | cons y l ih =>
      rw [Punch.store] at hx
      split at hx
      · rename_i haddr
        rcases List.mem_cons.mp hx with rfl | hx
        · exact Or.inr (by rw [haddr])
        · exact Or.inl (List.mem_cons_of_mem y hx)
      · rcases List.mem_cons.mp hx with rfl | hx
        · exact Or.inl List.mem_cons_self
        · rcases ih hx with hx | hx
          · exact Or.inl (List.mem_cons_of_mem y hx)
          · exact Or.inr hx

theorem mem_foldl_store {done l : List (SocketAddr × StatelessNoise Term)}
    {x : SocketAddr × StatelessNoise Term}
    (hx : x ∈ done.foldl (fun completed y => Punch.store y.1 y.2 completed) l) :
  x ∈ l ∨ x ∈ done
  := by
  induction done generalizing l with
  | nil => exact Or.inl hx
  | cons y done ih =>
      rcases ih hx with hx | hx
      · rcases mem_store hx with hx | rfl
        · exact Or.inl hx
        · exact Or.inr List.mem_cons_self
      · exact Or.inr (List.mem_cons_of_mem y hx)

theorem linked_of_linkKeys {initiator : Bool} {noise noise' : StatelessNoise Term}
    (hkeys : linkKeys noise' = linkKeys noise) (h : Linked initiator noise) :
  Linked initiator noise'
  := by
  obtain ⟨ck, hck, hlink⟩ := h
  exact ⟨ck, hck, hkeys.trans hlink⟩

/-- A side stays sound if what is new in it is. -/
theorem Punch.Sound.grow (h : p.Sound) (hgrows : p.Grows p')
    (hattempts : ∀ a ∈ p'.attempts, a ∈ p.attempts ∨ a.Sound p')
    (hfinished : ∀ x ∈ p'.finished, x ∈ p.finished ∨ Linked p.initiator x.2
      ∧ (p.initiator = true → p.AnsweredBy x.1 (linkKeys x.2)))
    (hcompleted : ∀ x ∈ p'.completed, x ∈ p.completed ∨ x ∈ p.finished)
    (hdirect : ∀ peer noise, p'.outcome = some (.direct peer noise) →
      (∃ held, p.outcome = some (.direct peer held) ∧ linkKeys noise = linkKeys held)
      ∨ Linked p.initiator noise
        ∧ (p.initiator = true → peer ∈ p.targets ∧ p.AnsweredBy peer (linkKeys noise))) :
  p'.Sound
  := by
  refine ⟨hgrows.psk.trans h.psk, ?_, ?_, ?_, ?_⟩
  · intro a ha
    rcases hattempts a ha with hold | hnew
    · exact (h.attempts a hold).mono hgrows
    · exact hnew
  · intro x hx
    rw [hgrows.initiator]
    obtain ⟨hlinked, hanswered⟩ := (hfinished x hx).elim (h.finished x) id
    exact ⟨hlinked, fun hrole => (hanswered hrole).mono hgrows⟩
  · intro x hx
    rw [hgrows.initiator]
    rcases hcompleted x hx with hold | hnew
    · exact h.completed x hold
    · exact (h.finished x hnew).1
  · intro peer noise houtcome
    rw [hgrows.initiator, hgrows.targets]
    rcases hdirect peer noise houtcome with ⟨held, hheld, hkeys⟩ | ⟨hlinked, hanswered⟩
    · obtain ⟨hlinked, hanswered⟩ := h.direct peer held hheld
      refine ⟨linked_of_linkKeys hkeys hlinked, ?_⟩
      intro hrole
      rw [hkeys]
      exact ⟨(hanswered hrole).1, (hanswered hrole).2.mono hgrows⟩
    · exact ⟨hlinked, fun hrole => ⟨(hanswered hrole).1, (hanswered hrole).2.mono hgrows⟩⟩

/-- A task ends, or goes on. -/
theorem mem_set_attempts {l : List (Attempt Term)} {k : ℕ} {a b : Attempt Term}
    (ha : a ∈ l.set k b) (hb : b.Sound p') :
  a ∈ l ∨ a.Sound p'
  := by
  rcases List.mem_or_eq_of_mem_set ha with ha | rfl
  · exact Or.inl ha
  · exact Or.inr hb

theorem Punch.Sound.does (h : p.Sound) (htidy : Tidy p) (hhears : p.Hears e)
    (hdoes : Does suite getConv p ePriv e p' sent) :
  p'.Sound
  := by
  have hgrows := grows_does hdoes
  -- what stays as it is
  have hfin : ∀ x ∈ p.finished, x ∈ p.finished ∨ Linked p.initiator x.2
      ∧ (p.initiator = true → p.AnsweredBy x.1 (linkKeys x.2)) := fun x hx => Or.inl hx
  have hcom : ∀ x ∈ p.completed, x ∈ p.completed ∨ x ∈ p.finished := fun x hx => Or.inl hx
  have hdir : ∀ peer noise, p.outcome = some (.direct peer noise) →
      (∃ held, p.outcome = some (.direct peer held) ∧ linkKeys noise = linkKeys held)
      ∨ Linked p.initiator noise
        ∧ (p.initiator = true → peer ∈ p.targets ∧ p.AnsweredBy peer (linkKeys noise)) :=
    fun _ noise houtcome => Or.inl ⟨noise, houtcome, rfl⟩
  cases hdoes with
  | @began k addr hk =>
      have hready := h.attempts _ (List.mem_of_getElem? hk)
      refine h.grow hgrows (fun a ha => mem_set_attempts ha ?_) hfin hcom hdir
      exact ⟨hready, rfl⟩
  | failed hk =>
      exact h.grow hgrows (fun a ha => mem_set_attempts ha trivial) hfin hcom hdir
  | @heardTwo k msg own addr ss noise hk hread =>
      obtain ⟨hrole, hss⟩ := h.attempts _ (List.mem_of_getElem? hk)
      refine h.grow hgrows (fun a ha => mem_set_attempts ha trivial) ?_ hcom hdir
      intro x hx
      rcases List.mem_append.mp hx with hx | hx
      · exact Or.inl hx
      · obtain rfl := List.mem_singleton.mp hx
        refine Or.inr ⟨?_, ?_⟩
        · rw [hrole]
          apply linked_readTwo _ hread
          rw [hss, h.psk]
          exact secret_writeOne _ _
        · intro _
          refine ⟨own, msg, noise, hhears _ hk, ?_, rfl⟩
          rw [← hss]
          exact hread
  | @answered k msg reply id addr noise hk hanswer =>
      have hrole : p.initiator = false := h.attempts _ (List.mem_of_getElem? hk)
      rw [h.psk] at hanswer
      have hlinked := (linked_answerOne hanswer).1
      split at hgrows
      · rename_i hid
        rw [if_pos hid]
        refine h.grow hgrows (fun a ha => mem_set_attempts ha trivial) ?_ hcom hdir
        intro x hx
        rcases List.mem_append.mp hx with hx | hx
        · exact Or.inl hx
        · obtain rfl := List.mem_singleton.mp hx
          refine Or.inr ⟨?_, ?_⟩
          · rw [hrole]
            exact hlinked
          · intro hinit
            rw [hrole] at hinit
            cases hinit
      · rename_i hid
        rw [if_neg hid]
        exact h.grow hgrows (fun a ha => mem_set_attempts ha trivial) hfin hcom hdir
  | woken houtcome =>
      rcases p.onFinished_cases with
        ⟨_, _, heq⟩ | ⟨addr, noise, hrole, hmem, ⟨hsession, heq⟩ | heq⟩ | ⟨_, heq⟩
      · rw [heq] at hgrows ⊢
        exact h.grow hgrows (fun a ha => Or.inl ha) (by simp) hcom hdir
      · rw [heq] at hgrows ⊢
        refine h.grow hgrows (fun a ha => Or.inl ha) (by simp [settle, report]) hcom ?_
        intro peer noise' hdirect
        obtain ⟨rfl, rfl⟩ := PunchOutcome.direct.inj (Option.some.inj hdirect)
        obtain ⟨hlinked, hanswered⟩ := h.finished _ hmem
        refine Or.inr ⟨hlinked, fun hinit => ⟨?_, hanswered hinit⟩⟩
        rw [← htidy.targets hrole]
        exact hsession
      · rw [heq] at hgrows ⊢
        refine h.grow hgrows (fun a ha => Or.inl ha) (by simp [settle, report]) hcom ?_
        intro peer noise' hdirect
        cases hdirect
      · rw [heq] at hgrows ⊢
        exact h.grow hgrows (fun a ha => Or.inl ha) (by simp) (fun x hx => mem_foldl_store hx) hdir
  | relayed houtcome =>
      refine h.grow hgrows (fun a ha => Or.inl ha) hfin hcom ?_
      intro peer noise hdirect
      cases hdirect
  | ticked => exact h
  | @took src data accepted houtcome =>
      rcases onDatagram_cases suite getConv p src data accepted with
        heq | ⟨sessions, _, heq⟩ | ⟨body, noise, noise', _, hrole, _, hmem, hopen, heq⟩
      · rw [heq] at hgrows ⊢
        exact h.grow hgrows (fun a ha => Or.inl ha) hfin hcom hdir
      · rw [heq] at hgrows ⊢
        refine h.grow hgrows ?_ hfin hcom hdir
        intro a ha
        rw [routeTo] at ha
        dsimp only at ha
        split at ha
        · rename_i haccepted
          rcases List.mem_append.mp ha with ha | ha
          · exact Or.inl ha
          · obtain rfl := List.mem_singleton.mp ha
            exact Or.inr haccepted.2.1
        · exact Or.inl ha
      · rw [heq] at hgrows ⊢
        refine h.grow hgrows (fun a ha => Or.inl ha) hfin hcom ?_
        intro peer held hdirect
        obtain ⟨rfl, rfl⟩ := PunchOutcome.direct.inj (Option.some.inj hdirect)
        refine Or.inr ⟨linked_of_linkKeys (linkKeys_openInPlace hopen) (h.completed _ hmem), ?_⟩
        intro hinit
        rw [hrole] at hinit
        cases hinit
  | @sent e peer noise noise' kind payload body houtcome hseal _ =>
      refine h.grow hgrows (fun a ha => Or.inl ha) hfin hcom ?_
      intro peer' held hdirect
      obtain ⟨rfl, rfl⟩ := PunchOutcome.direct.inj (Option.some.inj hdirect)
      exact Or.inl ⟨noise, houtcome, (linkKeys_sealBody hseal).1⟩

theorem Punch.sound_start (x y : String) (pairId : UInt64) (candidates : List SocketAddr) :
  (start x y pairId pairPsk candidates).Sound
  := by
  have hfresh : ∀ initiator targets, (fresh initiator pairId pairPsk targets).Sound := by
    intro initiator targets
    refine ⟨rfl, ?_, by simp [fresh], by simp [fresh], by simp [fresh]⟩
    intro a ha
    cases initiator with
    | false => cases ha
    | true =>
        obtain ⟨addr, _, rfl⟩ := List.mem_map.mp ha
        exact rfl
  rw [start]
  split
  · have h := hfresh (decide (x < y)) (targetsOf candidates)
    exact ⟨h.psk, h.attempts, h.finished, h.completed, by simp [settle, report, PunchOutcome.status]⟩
  · exact hfresh _ _

/-! ### The two sides and the network -/

/-- The two sides, what they have sent, and the number of keys that they may have made. -/
structure PunchWorld where
  parties : Bool → Punch Term
  sent : List (List Term)
  made : ℕ

namespace PunchWorld

/-- Two identities punch for one pair, each with the candidates that it was told. -/
def start (identity : Bool → String) (pairId : UInt64) (candidates : Bool → List SocketAddr) :
    PunchWorld where
  parties side := .start (identity side) (identity !side) pairId pairPsk (candidates side)
  sent := []
  made := 0

variable (getConv) in
/-- What an event at one side does. -/
noncomputable def step (w : PunchWorld) (side : Bool) (e : Punch.Event Term) : Option PunchWorld :=
  ((w.parties side).step suite getConv (ephemeralKey w.made) e).map fun (p, sent) =>
    ⟨Function.update w.parties side p, w.sent ++ sent, w.made + 1⟩

/-- What the attacker has seen. -/
def Seen (w : PunchWorld) (l : List Term) : Prop :=
  l ∈ w.sent ∨ ∃ a, l = keyOf (.adversary a)

/-- What the attacker can cause: it delivers from any source what it can derive, and chooses the
frames of data.  A stream yields what was routed into it. -/
def Allowed (w : PunchWorld) (side : Bool) : Punch.Event Term → Prop
  | .datagram _ data _ => Derives suite w.Seen data
  | .data payload => Derives suite w.Seen payload
  | e => (w.parties side).Hears e

/-- Where a ciphertext under an output of the key derivation comes from. -/
inductive SealedBy (w : PunchWorld) :
    List Term → List Term → ℕ → UInt64 → List Term → List Term → Prop where
  /-- A message of a handshake. -/
  | handshake {ck ikm ad p : List Term} {n : UInt64} : ikm ≠ [] → SealedBy w ck ikm 1 n ad p
  /-- What an initiator sends over its link. -/
  | initiator {side : Bool} {peer : SocketAddr} {noise : StatelessNoise Term} {ck p : List Term}
      {n : UInt64} : (w.parties side).initiator = true →
      (w.parties side).outcome = some (.direct peer noise) →
      linkKeys noise = keysFrom ck true → (n, p) ∈ (w.parties side).sealed →
      SealedBy w ck [] 0 n [] p
  /-- What a responder sends over its link. -/
  | responder {ck p : List Term} {n : UInt64} : SealedBy w ck [] 1 n [] p

/-- A ciphertext that one of the sides may have made. -/
def Accounted (w : PunchWorld) (t : Term) : Prop :=
  ∃ ck ikm i n ad p, t = aead (ofList (suite.hkdf ck ikm i)) n (ofList ad) (ofList p)
    ∧ w.SealedBy ck ikm i n ad p

/-- A side has taken from an address a datagram in which the initiator sealed a plaintext over the
path that it nominated, and its keys are those of the other end of that handshake. -/
def Nominated (w : PunchWorld) (side : Bool) (peer : SocketAddr) (keys : Keys Term)
    (plaintext : List Term) : Prop :=
  ∃ data body n addr noise, (peer, data) ∈ (w.parties side).taken
    ∧ Punch.dgramBody data (w.parties side).conv = some body
    ∧ body = u64Bytes n ++ suite.aeadEncrypt noise.sendKey n [] plaintext
    ∧ (w.parties !side).initiator = true
    ∧ (w.parties !side).outcome = some (.direct addr noise)
    ∧ (n, plaintext) ∈ (w.parties !side).sealed
    ∧ Crosswise (linkKeys noise) keys

/-- What holds of the two sides. -/
structure Inv (w : PunchWorld) : Prop where
  tidy : ∀ side, (w.parties side).Tidy
  sound : ∀ side, (w.parties side).Sound
  sent : ∀ l ∈ w.sent, AllPublic (MadeBy w.Accounted) l
  nominated : ∀ side peer noise, (w.parties side).initiator = false →
    (w.parties side).outcome = some (.direct peer noise) →
    ∃ plaintext, w.Nominated side peer (linkKeys noise) plaintext

/-! ### Both sides go on -/

def Grows (w w' : PunchWorld) : Prop :=
  ∀ side, (w.parties side).Grows (w'.parties side)

variable {w w' : PunchWorld} {side : Bool}

theorem SealedBy.mono (hw : w.Grows w') {ck ikm ad plaintext : List Term} {i : ℕ} {n : UInt64}
    (h : w.SealedBy ck ikm i n ad plaintext) :
  w'.SealedBy ck ikm i n ad plaintext
  := by
  cases h with
  | handshake h => exact .handshake h
  | initiator hrole houtcome hkeys hsealed =>
      obtain ⟨noise', houtcome', hkeys'⟩ := (hw _).direct _ _ houtcome
      exact .initiator ((hw _).initiator.trans hrole) houtcome' (hkeys'.trans hkeys)
        ((hw _).sealed hsealed)
  | responder => exact .responder

theorem made_accounted_mono (hw : w.Grows w') (t : Term) (h : MadeBy w.Accounted t) :
  MadeBy w'.Accounted t
  := by
  apply MadeBy.mono _ h
  rintro t' ⟨ck, ikm, i, n, ad, plaintext, rfl, hsealed⟩
  exact ⟨ck, ikm, i, n, ad, plaintext, rfl, hsealed.mono hw⟩

theorem Nominated.mono (hw : w.Grows w') {peer : SocketAddr} {keys : Keys Term}
    {plaintext : List Term} (h : w.Nominated side peer keys plaintext) :
  w'.Nominated side peer keys plaintext
  := by
  obtain ⟨data, body, n, addr, noise, htaken, hbody, hspells, hrole, houtcome, hsealed, hcross⟩ := h
  obtain ⟨noise', houtcome', hkeys⟩ := (hw !side).direct _ _ houtcome
  refine ⟨data, body, n, addr, noise', (hw side).taken htaken, ?_, ?_,
    (hw !side).initiator.trans hrole, houtcome', (hw !side).sealed hsealed, ?_⟩
  · rw [Punch.conv, (hw side).pairId]
    exact hbody
  · rw [show noise'.sendKey = noise.sendKey from congrArg Keys.sendKey hkeys]
    exact hspells
  · rw [hkeys]
    exact hcross

theorem grows_step (h : w.step getConv side e = some w') :
  ∃ p' sent, Punch.Does suite getConv (w.parties side) (ephemeralKey w.made) e p' sent
    ∧ w' = ⟨Function.update w.parties side p', w.sent ++ sent, w.made + 1⟩ ∧ w.Grows w'
  := by
  obtain ⟨⟨p', sent⟩, hstep, rfl⟩ := Option.map_eq_some_iff.mp h
  have hdoes := Punch.does_of_step hstep
  refine ⟨p', sent, hdoes, rfl, ?_⟩
  intro other
  by_cases hother : other = side
  · subst hother
    change (w.parties other).Grows (Function.update w.parties other p' other)
    rw [Function.update_self]
    exact Punch.grows_does hdoes
  · change (w.parties other).Grows (Function.update w.parties side p' other)
    rw [Function.update_of_ne hother]
    exact .refl _

/-! ### What is sent -/

theorem allPublic_accounted {ck ikm ad plaintext : List Term} {i : ℕ} {n : UInt64}
    (h : w.SealedBy ck ikm i n ad plaintext)
    (hp : AllPublic (MadeBy w.Accounted) plaintext) :
  AllPublic (MadeBy w.Accounted) (suite.aeadEncrypt (suite.hkdf ck ikm i) n ad plaintext)
  := by
  have hpos : 0 < plaintext.length + tagLen := Nat.lt_add_left _ (by decide)
  apply (allPublic_block hpos).mpr
  exact Or.inl (madeBy_aead ⟨ck, ikm, i, n, ad, plaintext, rfl, h⟩ (public_ofList.mpr hp))

/-- The messages of a handshake are seen by the attacker. -/
theorem allPublic_nnWrite (ss : SymmetricState Term) (own : List Term) (re : Option (List Term))
    {payload : List Term} (hp : AllPublic (MadeBy w.Accounted) payload) :
  AllPublic (MadeBy w.Accounted) (nnWrite suite ss own re payload).1
  := by
  refine allPublic_append.mpr ⟨?_, ?_⟩
  · rw [publicIdentity_suite]
    exact (allPublic_block (by decide)).mpr trivial
  · cases re with
    | none =>
        apply allPublic_accounted (.handshake _) hp
        intro hnil
        have hlen := lawful_suite.length_publicIdentity own
        rw [hnil] at hlen
        cases hlen
    | some re => exact allPublic_accounted (.handshake (x25519_ne_nil own re)) hp

theorem allPublic_link {kind : UInt8} {payload plaintext body : List Term} {peer : SocketAddr}
    {noise noise' : StatelessNoise Term} (hsound : (w.parties side).Sound)
    (houtcome : (w.parties side).outcome = some (.direct peer noise'))
    (hseal : noise.sealBody suite.toCipher plaintext = (.ok body, noise'))
    (hsealed : (noise.sendNonce, plaintext) ∈ (w.parties side).sealed)
    (hplain : plaintext = lit [kind] ++ payload)
    (hp : AllPublic (MadeBy w.Accounted) payload) :
  AllPublic (MadeBy w.Accounted) body
  := by
  obtain ⟨hkeys, rfl⟩ := linkKeys_sealBody hseal
  obtain ⟨ck, _, hlink⟩ := (hsound.direct peer noise' houtcome).1
  refine allPublic_append.mpr ⟨allPublic_lit _ _, ?_⟩
  have hpublic : AllPublic (MadeBy w.Accounted) plaintext := by
    rw [hplain]
    exact allPublic_append.mpr ⟨allPublic_lit _ _, hp⟩
  rw [show noise.sendKey = (keysFrom ck (w.parties side).initiator).sendKey from
    congrArg Keys.sendKey (hkeys.symm.trans hlink)]
  cases hrole : (w.parties side).initiator with
  | true =>
      rw [hrole] at hlink
      exact allPublic_accounted (.initiator hrole houtcome hlink hsealed) hpublic
  | false => exact allPublic_accounted .responder hpublic

theorem allPublic_of_allowed (h : w.Inv) {l : List Term} (hl : Derives suite w.Seen l) :
  AllPublic (MadeBy w.Accounted) l
  := by
  apply allPublic_of_derives _ (fun k n ad p hmade => hmade.plain) hl
  rintro l' (hsent | ⟨a, rfl⟩)
  · exact h.sent l' hsent
  · exact (allPublic_block (by decide)).mpr trivial

/-- What a body that opens under the keys of a responder comes from. -/
theorem nominated_of_opens {keys : Keys Term} {noise noise' : StatelessNoise Term}
    {body plaintext : List Term} (hlinked : Linked false noise)
    (hpublic : AllPublic (MadeBy w.Accounted) body)
    (hopen : noise.openInPlace suite.toCipher body = (.ok plaintext, noise'))
    (hkeys : keys = linkKeys noise) :
  ∃ side addr held n, (w.parties side).initiator = true
    ∧ (w.parties side).outcome = some (.direct addr held)
    ∧ (n, plaintext) ∈ (w.parties side).sealed
    ∧ body = u64Bytes n ++ suite.aeadEncrypt held.sendKey n [] plaintext
    ∧ Crosswise (linkKeys held) keys
  := by
  obtain ⟨n, ct, _, rfl, _, hct, _, _⟩ := StatelessNoise.openInPlace_eq_ok_iff.mp hopen
  obtain rfl := aeadDecrypt_eq_some_iff.mp hct
  obtain ⟨ck, hsecret, hlink⟩ := hlinked
  have hrecv : noise.recvKey = suite.hkdf ck [] 0 := congrArg Keys.recvKey hlink
  have hpos : 0 < plaintext.length + tagLen := Nat.lt_add_left _ (by decide)
  rcases (allPublic_block hpos).mp (allPublic_append.mp hpublic).2 with hmade | ⟨hkey, _⟩
  · obtain ⟨ck', ikm, i, n', ad, p', heq, hsealed⟩ := kind_of_madeBy hmade
    obtain ⟨hk, rfl, had, hp⟩ := Term.aead.inj heq
    have hkey := ofList_injective hk
    rw [hrecv] at hkey
    obtain ⟨rfl, hikm⟩ := hkdf_injective hkey
    obtain rfl := ofList_injective hp
    cases hsealed with
    | handshake hne => exact absurd hikm.symm hne
    | @initiator side addr held _ _ _ hrole houtcome hheld hmem =>
        have hsend : held.sendKey = noise.recvKey := by
          rw [hrecv]
          exact congrArg Keys.sendKey hheld
        refine ⟨side, addr, held, n, hrole, houtcome, hmem, by rw [hsend]; rfl, ?_⟩
        rw [hkeys, hheld, hlink]
        exact ⟨rfl, rfl⟩
    | responder => exact absurd hkey (hkdf_zero_ne_one _ _ _ _)
  · rw [public_ofList, hrecv] at hkey
    exact absurd hkey (hsecret.hkdf [] 0 _)

theorem allPublic_dgramBody {made : Term → Prop} {data body : List Term} {conv : UInt32}
    (hdata : AllPublic made data) (h : Punch.dgramBody data conv = some body) :
  AllPublic made body
  := by
  cases data with
  | nil => cases h
  | cons cls rest =>
      rw [Punch.dgramBody] at h
      split at h
      · cases h
      · split at h
        · obtain rfl := Option.some.inj h
          exact fun x hx => hdata x (List.mem_cons_of_mem cls (List.mem_of_mem_drop hx))
        · cases h

/-! ### What an event keeps -/

theorem Inv.hears (hallowed : w.Allowed side e) :
  (w.parties side).Hears e
  := by
  cases e with
  | datagram | data => trivial
  | _ => exact hallowed

/-- What an event sends is seen by the attacker. -/
theorem Inv.sends (h : w.Inv) (hallowed : w.Allowed side e) {p' : Punch Term}
    (hdoes : Punch.Does suite getConv (w.parties side) (ephemeralKey w.made) e p' sent)
    (hgrows : w.Grows w') (hp' : w'.parties side = p') (hsound : p'.Sound) :
  ∀ l ∈ sent, AllPublic (MadeBy w'.Accounted) l
  := by
  intro l hl
  cases hdoes with
  | began =>
      obtain rfl := List.mem_singleton.mp hl
      exact allPublic_nnWrite _ _ none (allPublic_lit _ _)
  | failed | heardTwo | woken | relayed | took => cases hl
  | @answered k msg reply id addr noise hk hanswer =>
      obtain rfl := List.mem_singleton.mp hl
      rw [(h.sound side).psk] at hanswer
      obtain ⟨_, ss, re, rfl⟩ := linked_answerOne hanswer
      exact allPublic_nnWrite _ _ (some re) fun x hx => by cases hx
  | ticked =>
      obtain ⟨_, _, rfl⟩ := List.mem_map.mp hl
      exact allPublic_lit _ _
  | @sent e peer noise noise' kind payload body houtcome hseal hpayload =>
      obtain rfl := List.mem_singleton.mp hl
      refine allPublic_append.mpr ⟨allPublic_lit _ _, ?_⟩
      have hpublic : AllPublic (MadeBy w'.Accounted) payload := by
        rcases hpayload with ⟨_, rfl⟩ | ⟨_, rfl⟩
        · exact fun x hx => by cases hx
        · exact (allPublic_of_allowed h hallowed).mono (made_accounted_mono hgrows)
      rw [← hp'] at hsound
      refine allPublic_link hsound (by rw [hp']) hseal ?_ rfl hpublic
      rw [hp']
      exact List.mem_append_right _ (List.mem_singleton.mpr rfl)

/-- A responder that settles has been nominated. -/
theorem Inv.nominates (h : w.Inv) (hallowed : w.Allowed side e) {p' : Punch Term}
    (hdoes : Punch.Does suite getConv (w.parties side) (ephemeralKey w.made) e p' sent)
    (hgrows : w.Grows w') (hp' : w'.parties side = p') {peer : SocketAddr}
    {noise : StatelessNoise Term} (hrole : p'.initiator = false)
    (houtcome : p'.outcome = some (.direct peer noise)) :
  ∃ plaintext, w'.Nominated side peer (linkKeys noise) plaintext
  := by
  have hrole₀ : (w.parties side).initiator = false := by
    rw [← (Punch.grows_does hdoes).initiator]
    exact hrole
  have hkept : ∀ held, (w.parties side).outcome = some (.direct peer held) →
      linkKeys noise = linkKeys held →
      ∃ plaintext, w'.Nominated side peer (linkKeys noise) plaintext := by
    intro held hheld hkeys
    rw [hkeys]
    obtain ⟨plaintext, hnominated⟩ := h.nominated side peer held hrole₀ hheld
    exact ⟨plaintext, hnominated.mono hgrows⟩
  cases hdoes with
  | began | failed | heardTwo | ticked => exact hkept noise houtcome rfl
  | answered =>
      split at houtcome
      · exact hkept noise houtcome rfl
      · exact hkept noise houtcome rfl
  | woken hnone =>
      rcases (w.parties side).onFinished_cases with
        ⟨hinit, _⟩ | ⟨_, _, hinit, _⟩ | ⟨_, heq⟩
      · rw [hrole₀] at hinit
        cases hinit
      · rw [hrole₀] at hinit
        cases hinit
      · rw [heq] at houtcome
        exact hkept noise houtcome rfl
  | relayed => cases houtcome
  | @took src data accepted hnone =>
      rcases Punch.onDatagram_cases suite getConv (w.parties side) src data accepted with
        heq | ⟨sessions, _, heq⟩ | ⟨body, held, held', plaintext, _, hbody, hmem, hopen, heq⟩
      · rw [heq] at houtcome
        exact hkept noise houtcome rfl
      · rw [heq] at houtcome
        exact hkept noise houtcome rfl
      · have hlinked := (h.sound side).completed _ hmem
        rw [hrole₀] at hlinked
        have hpublic := allPublic_dgramBody (allPublic_of_allowed h hallowed) hbody
        rw [heq] at houtcome
        obtain ⟨rfl, rfl⟩ := PunchOutcome.direct.inj (Option.some.inj houtcome)
        obtain ⟨other, addr, noiseI, n, hinit, hdirect, hsealed, hspells, hcross⟩ :=
          nominated_of_opens hlinked hpublic hopen (linkKeys_openInPlace hopen)
        obtain rfl : other = !side := by
          cases other <;> cases side <;> first | rfl | (rw [hrole₀] at hinit; cases hinit)
        obtain ⟨noiseI', hdirect', hkeys⟩ := (hgrows !side).direct _ _ hdirect
        refine ⟨plaintext, data, body, n, addr, noiseI', ?_, ?_, ?_,
          (hgrows !side).initiator.trans hinit, hdirect', (hgrows !side).sealed hsealed, ?_⟩
        · rw [hp', heq]
          exact List.mem_append_right _ (List.mem_singleton.mpr rfl)
        · rw [Punch.conv, (hgrows side).pairId]
          exact hbody
        · rw [show noiseI'.sendKey = noiseI.sendKey from congrArg Keys.sendKey hkeys]
          exact hspells
        · rw [hkeys]
          exact hcross
  | @sent e peer' held held' kind payload body hdirect hseal _ =>
      obtain ⟨rfl, rfl⟩ := PunchOutcome.direct.inj (Option.some.inj houtcome)
      exact hkept held hdirect (linkKeys_sealBody hseal).1

theorem Inv.step (h : w.Inv) (hallowed : w.Allowed side e)
    (hstep : w.step getConv side e = some w') :
  w'.Inv
  := by
  obtain ⟨p', sent, hdoes, hw', hgrows⟩ := grows_step hstep
  have htidy := (h.tidy side).does hdoes
  have hsound := (h.sound side).does (h.tidy side) (Inv.hears hallowed) hdoes
  have hp' : w'.parties side = p' := by
    rw [hw']
    exact Function.update_self ..
  have hother : ∀ other, other ≠ side → w'.parties other = w.parties other := by
    intro other hne
    rw [hw']
    exact Function.update_of_ne hne ..
  refine ⟨?_, ?_, ?_, ?_⟩
  · intro other
    by_cases hne : other = side
    · rw [hne, hp']
      exact htidy
    · rw [hother other hne]
      exact h.tidy other
  · intro other
    by_cases hne : other = side
    · rw [hne, hp']
      exact hsound
    · rw [hother other hne]
      exact h.sound other
  · intro l hl
    rw [hw'] at hl
    rcases List.mem_append.mp hl with hl | hl
    · exact (h.sent l hl).mono (made_accounted_mono hgrows)
    · exact h.sends hallowed hdoes hgrows hp' hsound l hl
  · intro other peer noise hrole houtcome
    by_cases hne : other = side
    · subst hne
      rw [hp'] at hrole houtcome
      exact h.nominates hallowed hdoes hgrows hp' hrole houtcome
    · rw [hother other hne] at hrole houtcome
      obtain ⟨plaintext, hnominated⟩ := h.nominated other peer noise hrole houtcome
      exact ⟨plaintext, hnominated.mono hgrows⟩

theorem inv_start (identity : Bool → String) (pairId : UInt64)
    (candidates : Bool → List SocketAddr) :
  (start identity pairId candidates).Inv
  := by
  refine ⟨fun side => Punch.tidy_start .., fun side => Punch.sound_start .., ?_, ?_⟩
  · intro l hl
    cases hl
  · intro side peer noise _ houtcome
    change (Punch.start _ _ _ _ _).outcome = _ at houtcome
    rw [Punch.start] at houtcome
    split at houtcome
    · cases houtcome
    · cases houtcome

/-! ### The runs -/

/-- A run of the two sides, over a network that the attacker controls. -/
def Reaches (getConv : List Term → UInt32) (w : PunchWorld) (es : List (Bool × Punch.Event Term))
    (w' : PunchWorld) : Prop :=
  Run (Meeting (fun w e => w.Allowed e.1 e.2) fun w e w' => w.step getConv e.1 e.2 = some w')
    w es w'

theorem Reaches.grows {es : List (Bool × Punch.Event Term)} (h : Reaches getConv w es w') :
  w.Grows w'
  := by
  refine Run.invariant h (fun side => .refl _) ?_
  intro w₁ e w₂ hgrows hstep
  obtain ⟨_, _, _, _, hgrows'⟩ := grows_step hstep.2
  exact fun side => (hgrows side).trans (hgrows' side)

theorem Reaches.inv {es : List (Bool × Punch.Event Term)} {identity : Bool → String}
    {pairId : UInt64} {candidates : Bool → List SocketAddr}
    (h : Reaches getConv (start identity pairId candidates) es w) :
  w.Inv
  := by
  refine Run.invariant h (inv_start identity pairId candidates) ?_
  intro w₁ e w₂ hinv hstep
  exact hinv.step hstep.1 hstep.2

theorem initiator_start (identity : Bool → String) (pairId : UInt64)
    (candidates : Bool → List SocketAddr) (side : Bool) :
  ((start identity pairId candidates).parties side).initiator
    = decide (identity side < identity !side)
  ∧ ((start identity pairId candidates).parties side).pairId = pairId
  ∧ ((start identity pairId candidates).parties side).targets = Punch.targetsOf (candidates side)
  := by
  change (Punch.start _ _ _ _ _).initiator = _ ∧ (Punch.start _ _ _ _ _).pairId = _
    ∧ (Punch.start _ _ _ _ _).targets = _
  rw [Punch.start]
  split
  · exact ⟨rfl, rfl, rfl⟩
  · exact ⟨rfl, rfl, rfl⟩

/-- Two sides that punch for one pair agree on the path.  A responder that holds a direct path has
opened, from the address that it binds, a keepalive or a frame of data that the initiator sealed
over the path that it nominated, and so two direct paths are the two ends of one handshake.  An
initiator nominates one candidate, and has had message two from its address.  Neither side holds
too many sessions, and each reports the path that it settled on, once. -/
theorem punch_agrees (getConv : List Term → UInt32) (identity : Bool → String) (pairId : UInt64)
    (candidates : Bool → List SocketAddr) (es : List (Bool × Punch.Event Term)) (w : PunchWorld)
    (h : Reaches getConv (start identity pairId candidates) es w) :
  (∀ side, (w.parties side).initiator = decide (identity side < identity !side))
  ∧ (∀ side peer noise peer' noise', (w.parties side).outcome = some (.direct peer noise) →
      (w.parties !side).outcome = some (.direct peer' noise') →
      Crosswise (linkKeys noise) (linkKeys noise'))
  ∧ (∀ side peer noise, (w.parties side).initiator = false →
      (w.parties side).outcome = some (.direct peer noise) →
      ∃ plaintext, Punch.Framed plaintext ∧ w.Nominated side peer (linkKeys noise) plaintext)
  ∧ (∀ side peer noise, (w.parties side).initiator = true →
      (w.parties side).outcome = some (.direct peer noise) →
      peer ∈ candidates side ∧ (w.parties side).AnsweredBy peer (linkKeys noise)
      ∧ ∀ es' w', Reaches getConv w es' w' → ∃ noise',
          (w'.parties side).outcome = some (.direct peer noise')
          ∧ linkKeys noise' = linkKeys noise)
  ∧ (∀ side, (w.parties side).sessions.Nodup
      ∧ (w.parties side).sessions.length ≤ maxPunchPeers)
  ∧ ∀ side, (w.parties side).reports
      = ((w.parties side).outcome.map fun o => (Msg.peerPath pairId o.status).encode).toList
  := by
  have hinv := h.inv
  have hgrows := h.grows
  have hrole : ∀ side, (w.parties side).initiator = decide (identity side < identity !side) := by
    intro side
    rw [(hgrows side).initiator]
    exact (initiator_start identity pairId candidates side).1
  have hcross : ∀ side peer noise peer' noise', (w.parties side).initiator = false →
      (w.parties side).outcome = some (.direct peer noise) →
      (w.parties !side).outcome = some (.direct peer' noise') →
      Crosswise (linkKeys noise') (linkKeys noise) := by
    intro side peer noise peer' noise' hresponder hdirect hdirect'
    obtain ⟨_, _, _, _, addr, held, _, _, _, _, hheld, _, hcross⟩ :=
      hinv.nominated side peer noise hresponder hdirect
    rw [hdirect'] at hheld
    obtain ⟨_, rfl⟩ := PunchOutcome.direct.inj (Option.some.inj hheld)
    exact hcross
  refine ⟨hrole, ?_, ?_, ?_, ?_, ?_⟩
  · intro side peer noise peer' noise' hdirect hdirect'
    cases hside : (w.parties side).initiator with
    | false =>
        obtain ⟨hsend, hrecv⟩ := hcross side peer noise peer' noise' hside hdirect hdirect'
        exact ⟨hrecv.symm, hsend.symm⟩
    | true =>
        -- the identities are ordered one way only, so the other side is the responder
        have hother : (w.parties !side).initiator = false := by
          rw [hrole side, decide_eq_true_iff] at hside
          rw [hrole, decide_eq_false_iff_not, Bool.not_not]
          exact String.lt_asymm hside
        exact hcross (!side) peer' noise' peer noise hother hdirect'
          (by rw [Bool.not_not]; exact hdirect)
  · intro side peer noise hresponder hdirect
    obtain ⟨plaintext, hnominated⟩ := hinv.nominated side peer noise hresponder hdirect
    refine ⟨plaintext, ?_, hnominated⟩
    obtain ⟨_, _, n, _, _, _, _, _, _, _, hsealed, _⟩ := hnominated
    exact (hinv.tidy !side).sealed (n, plaintext) hsealed
  · intro side peer noise hinit hdirect
    obtain ⟨hpeer, hanswered⟩ := ((hinv.sound side).direct peer noise hdirect).2 hinit
    rw [(hgrows side).targets, (initiator_start identity pairId candidates side).2.2] at hpeer
    refine ⟨(Punch.targetsOf_spec _).2.2 peer hpeer, hanswered, ?_⟩
    intro es' w' h'
    exact (h'.grows side).direct peer noise hdirect
  · exact fun side => ⟨(hinv.tidy side).nodup, (hinv.tidy side).few⟩
  · intro side
    rw [(hinv.tidy side).reports, (hgrows side).pairId,
      (initiator_start identity pairId candidates side).2.1]

/-! ### Two sides that reach each other -/

/-- The conversation that the header of a segment spells, lowest byte first. -/
def segmentConv (segment : List Term) : UInt32 :=
  ((unlit (segment.take 4)).map fun bs => UInt32.ofNat (ofBe bs.reverse)).getD 0

/-- A datagram of a setup, with one segment that carries a message. -/
def setupSegment (conv : UInt32) (msg : List Term) : List Term :=
  lit (classSetup :: (toBe 4 conv.toNat).reverse ++ List.replicate 20 0) ++ msg

/-- The address of a side. -/
def addrOf (side : Bool) : SocketAddr :=
  .v4 (if side then ⟨0xC0000201, by decide⟩ else ⟨0xC0000202, by decide⟩) 4000

theorem opensSetup_setupSegment (msg : List Term) :
  Punch.opensSetup segmentConv (setupSegment 0x80000007 msg) 0x80000007 = true
  := by
  simp [Punch.opensSetup, setupSegment, segmentConv, lit, kcpOverhead, toBe]
  decide

/-- The parties of a world, by their sides. -/
def between (i r : Punch Term) (side : Bool) : Punch Term :=
  if side then i else r

theorem update_between_true (i r i' : Punch Term) :
  Function.update (between i r) true i' = between i' r
  := by
  funext side
  cases side <;> rfl

theorem update_between_false (i r r' : Punch Term) :
  Function.update (between i r) false r' = between i r'
  := by
  funext side
  cases side <;> rfl

variable {i r : Punch Term} {sent' : List (List Term)} {made : ℕ}

theorem meets_true (hallowed : Allowed ⟨between i r, sent, made⟩ true e)
    (hstep : i.step suite getConv (ephemeralKey made) e = some (p', sent')) :
  Meeting (fun w (e : Bool × Punch.Event Term) => Allowed w e.1 e.2)
    (fun w e w' => w.step getConv e.1 e.2 = some w') ⟨between i r, sent, made⟩ (true, e)
    ⟨between p' r, sent ++ sent', made + 1⟩
  := by
  refine ⟨hallowed, ?_⟩
  change (i.step suite getConv (ephemeralKey made) e).map _ = _
  rw [hstep, Option.map_some]
  dsimp only
  rw [update_between_true]

theorem meets_false (hallowed : Allowed ⟨between i r, sent, made⟩ false e)
    (hstep : r.step suite getConv (ephemeralKey made) e = some (p', sent')) :
  Meeting (fun w (e : Bool × Punch.Event Term) => Allowed w e.1 e.2)
    (fun w e w' => w.step getConv e.1 e.2 = some w') ⟨between i r, sent, made⟩ (false, e)
    ⟨between i p', sent ++ sent', made + 1⟩
  := by
  refine ⟨hallowed, ?_⟩
  change (r.step suite getConv (ephemeralKey made) e).map _ = _
  rw [hstep, Option.map_some]
  dsimp only
  rw [update_between_false]


/-- Two sides that each know the address of the other. -/
def facing : PunchWorld :=
  start (fun side => if side then "a" else "b") 7 fun side => [addrOf !side]

theorem parties_facing :
  facing = ⟨between (.fresh true 7 pairPsk [addrOf false]) (.fresh false 7 pairPsk [addrOf true]),
    [], 0⟩
  := by
  rw [facing, start, PunchWorld.mk.injEq]
  refine ⟨?_, rfl, rfl⟩
  funext side
  cases side with
  | false => rfl
  | true => rfl


/-- What the initiator seals over its link: first a keepalive, then an empty frame of data. -/
def plaintextOf (late : Bool) : List Term :=
  lit [if late then Dgram.kindData else Dgram.kindKeepalive]

/-- The sealed body of the datagram that carries it. -/
noncomputable def bodyOf (key : List Term) (late : Bool) : List Term :=
  u64Bytes (if late then 1 else 0)
    ++ suite.aeadEncrypt key (if late then 1 else 0) [] (plaintextOf late)

/-- The datagram that carries it. -/
noncomputable def datagramOf (key : List Term) (late : Bool) : List Term :=
  lit (Dgram.classDgram :: toBe 4 (0x80000007 : UInt32).toNat) ++ bodyOf key late

theorem dgramBody_segment (conv conv' : UInt32) (msg : List Term) :
  Punch.dgramBody (setupSegment conv msg) conv' = none
  := by
  change Punch.dgramBody (Alphabet.ofByte classSetup :: _) _ = none
  rw [Punch.dgramBody, Alphabet.toByte_ofByte, if_pos (Or.inl (by decide))]

theorem onDatagram_segment (p : Punch Term) (src : SocketAddr) (conv : UInt32) (msg : List Term)
    (accepted : Bool) :
  p.onDatagram suite segmentConv src (setupSegment conv msg) accepted
    = if src ∈ p.sessions then
        Punch.routeTo segmentConv { p with taken := p.taken ++ [(src, setupSegment conv msg)] } src
          (setupSegment conv msg) accepted
      else if p.initiator ∨ maxPunchPeers ≤ p.sessions.length then
        { p with taken := p.taken ++ [(src, setupSegment conv msg)] }
      else
        Punch.routeTo segmentConv
          { p with
            taken := p.taken ++ [(src, setupSegment conv msg)]
            sessions := p.sessions ++ [src] }
          src (setupSegment conv msg) accepted
  := by
  have hnot : (setupSegment conv msg).map Alphabet.toByte ≠ [some classPunch] := by
    intro h
    cases h
  rw [Punch.onDatagram]
  dsimp only
  rw [if_neg hnot]
  have hnone : (if p.initiator then none else Punch.dgramBody (setupSegment conv msg) p.conv)
      = none := by
    rw [dgramBody_segment]
    exact ite_self none
  simp only [Punch.conv] at hnone ⊢
  rw [hnone]

theorem conv_of_pairId {p : Punch Term} (h : p.pairId = 7) :
  p.conv = 0x80000007
  := by
  rw [Punch.conv, h]
  rfl

theorem onDatagram_datagramOf (p : Punch Term) (src : SocketAddr) (key : List Term) (late : Bool)
    (hpair : p.pairId = 7) (hrole : p.initiator = false) :
  p.onDatagram suite segmentConv src (datagramOf key late) false
    = Punch.judgeNomination suite { p with taken := p.taken ++ [(src, datagramOf key late)] } src
      (bodyOf key late)
  := by
  have hbody : Punch.dgramBody (datagramOf key late) (Punch.conv p) = some (bodyOf key late) := by
    rw [conv_of_pairId hpair]
    exact Punch.dgramBody_lit 0x80000007 (bodyOf key late)
  have hnot : (datagramOf key late).map Alphabet.toByte ≠ [some classPunch] := by
    intro h
    cases h
  rw [Punch.onDatagram]
  dsimp only
  rw [if_neg hnot, hrole, if_neg Bool.false_ne_true]
  simp only [Punch.conv] at hbody ⊢
  rw [hbody]

theorem opens_datagramOf (keys : Keys Term) (late : Bool) :
  ∃ noise, (StatelessNoise.fromKeys keys).openInPlace suite.toCipher (bodyOf keys.recvKey late)
    = (.ok (plaintextOf late), noise)
  := by
  obtain ⟨w, hw⟩ : ∃ w, ReplayWindow.fresh.checkAndMark (if late then 1 else 0) = .ok w := by
    cases late <;> exact ⟨_, rfl⟩
  refine ⟨_, StatelessNoise.openInPlace_eq_ok_iff.mpr ⟨_, _, w, rfl, ?_, ?_, hw, rfl⟩⟩
  · change tagLen ≤ (block _ _).length
    rw [length_block]
    exact Nat.le_add_left _ _
  · exact aeadDecrypt_eq_some_iff.mpr rfl

theorem sendOver_datagramOf (p : Punch Term) {peer : SocketAddr} (noise : StatelessNoise Term)
    (late : Bool) (hpair : p.pairId = 7) (houtcome : p.outcome = some (.direct peer noise))
    (hnonce : noise.sendNonce = if late then 1 else 0) :
  p.sendOver suite (plaintextOf late)
    = some
      ({ p with
          outcome := some (.direct peer { noise with sendNonce := if late then 2 else 1 })
          sealed := p.sealed ++ [(if late then 1 else 0, plaintextOf late)] },
        [datagramOf noise.sendKey late])
  := by
  have hseal : noise.sealBody suite.toCipher (plaintextOf late)
      = (.ok (bodyOf noise.sendKey late), { noise with sendNonce := if late then 2 else 1 }) := by
    rw [StatelessNoise.sealBody, StatelessNoise.sealAt, StatelessNoise.nextNonce, hnonce]
    cases late <;> rfl
  simp only [Punch.sendOver, houtcome, hseal, hnonce, conv_of_pairId hpair]
  rfl

theorem assembles_segment {p : Punch Term} {addr : SocketAddr} {msg : List Term} {conv : UInt32}
    (h : (addr, setupSegment conv msg) ∈ p.routed) :
  p.Assembles addr msg
  := by
  refine ⟨[msg], (List.append_nil msg).symm, ?_⟩
  intro piece hpiece
  obtain rfl := List.mem_singleton.mp hpiece
  exact ⟨_, h, (List.suffix_append _ _).isInfix⟩

theorem derives_segment {w : PunchWorld} {msg : List Term} {conv : UInt32} (h : msg ∈ w.sent) :
  Derives suite w.Seen (setupSegment conv msg)
  := .append (.lit _) (.seen (Or.inl h))

/-- The responder may settle on the keepalive, or on the frame of data behind it. -/
theorem facing_settles (late : Bool) :
  ∃ es w noise noiseI msg, Reaches segmentConv facing es w
    ∧ (w.parties false).initiator = false
    ∧ (w.parties false).outcome = some (.direct (addrOf true) noise)
    ∧ (w.parties true).outcome = some (.direct (addrOf false) noiseI)
    ∧ (w.parties false).taken = [(addrOf true, setupSegment 0x80000007 msg),
        (addrOf true, datagramOf noiseI.sendKey late)]
  := by
  obtain ⟨msg₂, keysI, keysR, hanswer, hread, hcross⟩ :=
    Punch.answers lawful_suite pairPsk (ephemeralKey 0) (ephemeralKey 2) 7
  rcases hwrite : Punch.writeOne suite pairPsk 7 (ephemeralKey 0) with ⟨msg₁, ss₁⟩
  rw [hwrite] at hanswer hread
  let seg₁ := setupSegment 0x80000007 msg₁
  let seg₂ := setupSegment 0x80000007 msg₂
  let i₀ : Punch Term := .fresh true 7 pairPsk [addrOf false]
  let r₀ : Punch Term := .fresh false 7 pairPsk [addrOf true]
  let i₁ : Punch Term := { i₀ with attempts := [.awaitTwo (addrOf false) ss₁ (ephemeralKey 0)] }
  let r₁ : Punch Term := { r₀ with
    taken := [(addrOf true, seg₁)]
    routed := [(addrOf true, seg₁)]
    sessions := [addrOf true]
    attempts := [.awaitOne (addrOf true)] }
  let r₂ : Punch Term := { r₁ with
    attempts := [.ended (addrOf true)]
    finished := [(addrOf true, .fromKeys keysR)]
    wake := true }
  let r₃ : Punch Term := { r₂ with
    finished := []
    wake := false
    completed := [(addrOf true, .fromKeys keysR)] }
  let i₂ : Punch Term := { i₁ with
    taken := [(addrOf false, seg₂)]
    routed := [(addrOf false, seg₂)] }
  let i₃ : Punch Term := { i₂ with
    attempts := [.ended (addrOf false)]
    finished := [(addrOf false, .fromKeys keysI)]
    wake := true }
  let i₄ : Punch Term :=
    Punch.settle { i₃ with finished := [], wake := false }
      (.direct (addrOf false) (.fromKeys keysI))
  let i₅ : Punch Term := { i₄ with
    outcome := some (.direct (addrOf false) { StatelessNoise.fromKeys keysI with sendNonce := 1 })
    sealed := [(0, plaintextOf false)] }
  let i₆ : Punch Term := { i₅ with
    outcome := some (.direct (addrOf false) { StatelessNoise.fromKeys keysI with sendNonce := 2 })
    sealed := [(0, plaintextOf false), (1, plaintextOf true)] }
  have h₀ : i₀.step suite segmentConv (ephemeralKey 0) (.begin 0) = some (i₁, [msg₁]) :=
    Punch.step_begin rfl hwrite
  have h₁ : r₀.step suite segmentConv (ephemeralKey 1) (.datagram (addrOf true) seg₁ true)
      = some (r₁, []) := by
    have hnew : addrOf true ∉ r₀.sessions := List.not_mem_nil
    have hroom : ¬(r₀.initiator = true ∨ maxPunchPeers ≤ r₀.sessions.length) := by
      rintro (h | h) <;> cases h
    have hopens : Punch.opensSetup segmentConv seg₁ r₀.conv = true := by
      rw [conv_of_pairId rfl]
      exact opensSetup_setupSegment msg₁
    rw [Punch.step, if_pos ⟨rfl, rfl⟩, onDatagram_segment, if_neg hnew, if_neg hroom, Punch.routeTo,
      if_pos ⟨rfl, rfl, hopens⟩]
    rfl
  have h₂ : r₁.step suite segmentConv (ephemeralKey 2) (.frame 0 msg₁) = some (r₂, [msg₂]) :=
    Punch.step_one rfl hanswer
  have h₃ : r₂.step suite segmentConv (ephemeralKey 3) .wake = some (r₃, []) := rfl
  have h₄ : i₁.step suite segmentConv (ephemeralKey 4) (.datagram (addrOf false) seg₂ false)
      = some (i₂, []) := by
    have hmem : addrOf false ∈ i₁.sessions := List.mem_cons_self
    rw [Punch.step, if_pos ⟨rfl, rfl⟩, onDatagram_segment, if_pos hmem]
    rfl
  have h₅ : i₂.step suite segmentConv (ephemeralKey 5) (.frame 0 msg₂) = some (i₃, []) :=
    Punch.step_two rfl hread
  have h₆ : i₃.step suite segmentConv (ephemeralKey 6) .wake = some (i₄, []) := rfl
  have h₇ : i₄.step suite segmentConv (ephemeralKey 7) .probe
      = some (i₅, [datagramOf keysI.sendKey false]) :=
    sendOver_datagramOf i₄ _ false rfl rfl rfl
  have h₈ : i₅.step suite segmentConv (ephemeralKey 8) (.data [])
      = some (i₆, [datagramOf keysI.sendKey true]) :=
    sendOver_datagramOf i₅ { StatelessNoise.fromKeys keysI with sendNonce := 1 } true rfl rfl rfl
  have h₉ : ∃ noise r₄, r₃.step suite segmentConv (ephemeralKey 9)
        (.datagram (addrOf true) (datagramOf keysI.sendKey late) false) = some (r₄, [])
      ∧ r₄.initiator = false ∧ r₄.outcome = some (.direct (addrOf true) noise)
      ∧ r₄.taken = [(addrOf true, seg₁), (addrOf true, datagramOf keysI.sendKey late)] := by
    obtain ⟨noise, hopen⟩ := opens_datagramOf keysR late
    rw [← hcross.1] at hopen
    refine ⟨noise, Punch.settle { r₃ with taken := _ } (.direct (addrOf true) noise), ?_, rfl, rfl,
      rfl⟩
    rw [Punch.step, if_pos ⟨rfl, rfl⟩,
      onDatagram_datagramOf r₃ (addrOf true) keysI.sendKey late rfl rfl,
      Punch.judgeNomination_of_opens rfl List.mem_cons_self hopen]
    rfl
  obtain ⟨noise, r₄, h₉, hrole, houtcome, htaken⟩ := h₉
  have hrun : Reaches segmentConv facing
      [(true, .begin 0), (false, .datagram (addrOf true) seg₁ true), (false, .frame 0 msg₁),
        (false, .wake), (true, .datagram (addrOf false) seg₂ false), (true, .frame 0 msg₂),
        (true, .wake), (true, .probe), (true, .data []),
        (false, .datagram (addrOf true) (datagramOf keysI.sendKey late) false)]
      ⟨between i₆ r₄, [msg₁, msg₂, datagramOf keysI.sendKey false, datagramOf keysI.sendKey true],
        10⟩ := by
    rw [parties_facing]
    refine Run.cons (meets_true trivial h₀) ?_
    refine Run.cons (meets_false (derives_segment (by simp)) h₁) ?_
    refine Run.cons (meets_false ?_ h₂) ?_
    · intro a ha
      obtain rfl := Option.some.inj ha
      exact assembles_segment List.mem_cons_self
    refine Run.cons (meets_false trivial h₃) ?_
    refine Run.cons (meets_true (derives_segment (by simp)) h₄) ?_
    refine Run.cons (meets_true ?_ h₅) ?_
    · intro a ha
      obtain rfl := Option.some.inj ha
      exact assembles_segment List.mem_cons_self
    refine Run.cons (meets_true trivial h₆) ?_
    refine Run.cons (meets_true trivial h₇) ?_
    refine Run.cons (meets_true (Derives.lit []) h₈) ?_
    refine Run.cons (meets_false (.seen (Or.inl ?_)) h₉) Run.nil
    cases late <;> simp
  exact ⟨_, _, noise, _, msg₁, hrun, hrole, houtcome, rfl, htaken⟩

/-- A keepalive settles both sides. -/
theorem punch_agrees_facing :
  ∃ es w noise noiseI, Reaches segmentConv facing es w
    ∧ (w.parties false).outcome = some (.direct (addrOf true) noise)
    ∧ (w.parties true).outcome = some (.direct (addrOf false) noiseI)
    ∧ Crosswise (linkKeys noise) (linkKeys noiseI)
    ∧ ∃ plaintext, w.Nominated false (addrOf true) (linkKeys noise) plaintext
  := by
  obtain ⟨es, w, noise, noiseI, _, hrun, hrole, hdirect, hdirectI, _⟩ := facing_settles false
  obtain ⟨_, hcross, hnominated, _⟩ := punch_agrees segmentConv _ 7 _ es w hrun
  obtain ⟨plaintext, _, h⟩ := hnominated false _ noise hrole hdirect
  exact ⟨es, w, noise, noiseI, hrun, hdirect, hdirectI,
    hcross false _ _ _ _ hdirect hdirectI, plaintext, h⟩

/-- The keepalive is lost and a frame of data settles the responder. -/
theorem settles_without_keepalive :
  ¬∀ es w, Reaches segmentConv facing es w → ∀ side peer noise,
      (w.parties side).initiator = false →
      (w.parties side).outcome = some (.direct peer noise) →
      w.Nominated side peer (linkKeys noise) (lit [Dgram.kindKeepalive])
  := by
  intro hall
  obtain ⟨es, w, noise, noiseI, msg, hrun, hrole, hdirect, _, htaken⟩ := facing_settles true
  obtain ⟨data, body, n, addr, held, hmem, hbody, hspells, _⟩ :=
    hall es w hrun false _ noise hrole hdirect
  have hconv : (w.parties false).conv = 0x80000007 := by
    apply conv_of_pairId
    rw [(Reaches.grows hrun false).pairId]
    exact (initiator_start _ 7 _ false).2.1
  rw [hconv] at hbody
  rw [htaken] at hmem
  rcases List.mem_cons.mp hmem with hdata | hmem
  · obtain ⟨_, rfl⟩ := Prod.mk.inj hdata
    rw [dgramBody_segment] at hbody
    cases hbody
  · obtain ⟨_, rfl⟩ := Prod.mk.inj (List.mem_singleton.mp hmem)
    rw [datagramOf, Punch.dgramBody_lit, hspells] at hbody
    have hct := (List.append_inj (Option.some.inj hbody)
      (by rw [length_u64Bytes, length_u64Bytes])).2
    obtain ⟨_, _, _, hplain⟩ := aeadEncrypt_injective hct
    exact absurd (lit_injective hplain) (by decide)

end PunchWorld

end ZeroNat.Peer

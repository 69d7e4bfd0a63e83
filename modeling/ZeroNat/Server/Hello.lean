import ZeroNat.Server.Broker

/-!
# The answer to a hello

A session is in the registry before its hello is answered.  No client is told of a pair before
it has announced, and it cannot announce before its session is served, so the frames of the
rendezvous find the answer queued.  The request of a public flow may overtake it.
-/

namespace ZeroNat

/-- The answer to a hello. -/
def Errand.isAck : Errand → Bool
  | .ack _ => true
  | _ => false

/-- The session that the request of a public flow is queued for. -/
def Errand.requested : Errand → Option ℕ
  | .request p => some p.tx
  | _ => none

namespace ControlSession

/-- The hello of the session has been answered. -/
def Answered (c : ControlSession) : Prop :=
  ∀ e ∈ c.todo, e.isAck = false

instance : DecidablePred Answered := fun _ => inferInstanceAs (Decidable (∀ _ ∈ _, _))

/-- The answer to the hello of the session. -/
def helloAck (c : ControlSession) : Msg :=
  .clientHelloAck c.clientId c.bridgeCapability

end ControlSession

namespace Broker

variable {s t : Broker} {tx : ℕ}

/-- There is the session, and its hello has been answered. -/
def Answered (s : Broker) (tx : ℕ) : Prop :=
  ∃ c : ControlSession, s.sessions[tx]? = some c ∧ c.Answered

/-- What a task is about to do does not overtake the answer to a hello. -/
def Polite (s : Broker) : Errand → Prop
  | .ack _ => False
  | .post p => s.Answered p.tx
  | _ => True

/-- The first frame queued on the channel of a session is the answer to its hello, if that has
been answered, and there is none otherwise. -/
def Greeted (s : Broker) (tx : ℕ) (c : ControlSession) : Prop :=
  (c.Answered ∧ c.channel.queued.head? = some c.helloAck ∧ ∀ e ∈ c.todo, s.Polite e)
    ∨ ∃ rest, c.todo = .ack ⟨tx, c.helloAck⟩ :: rest ∧ c.channel = Channel.new
        ∧ c.stage = .registering ∧ ∀ e ∈ rest, s.Polite e

/-- What holds of the server as long as no request overtakes an answer. -/
structure Courteous (s : Broker) : Prop where
  greeted : ∀ (tx : ℕ) (c : ControlSession), s.sessions[tx]? = some c → s.Greeted tx c
  announced : ∀ id h, s.rv.clients.lookup id = some h →
    h.peerProvides ≠ none ∨ h.peerIdentity ≠ none → s.Answered h.tx
  tasks : ∀ todo ∈ s.tasks, ∀ e ∈ todo, s.Polite e

theorem Polite.mono {e : Errand} (h : s.Polite e)
    (hanswered : ∀ tx, s.Answered tx → t.Answered tx) :
  t.Polite e
  := by
  cases e with
  | ack p => exact h
  | post p => exact hanswered p.tx h
  | _ => trivial

theorem Courteous.answered_of_announced (hs : s.Courteous) (h : s.rv.Announced tx) :
  s.Answered tx
  := by
  obtain ⟨id, handle, hid, hprovides, rfl⟩ := h
  exact hs.announced id handle hid (Or.inl hprovides)

/-- The sessions, the tasks and the registry are all that counts. -/
theorem Courteous.of_eq (hs : s.Courteous) (hsessions : t.sessions = s.sessions)
    (htasks : t.tasks = s.tasks) (hclients : t.rv.clients = s.rv.clients) :
  t.Courteous
  := by
  have hanswered : ∀ tx, s.Answered tx → t.Answered tx := by
    rintro tx ⟨c, hc, h⟩
    exact ⟨c, hsessions ▸ hc, h⟩
  constructor
  · intro tx c hc
    obtain ⟨h, hhead, hpolite⟩ | ⟨rest, htodo, hnew, hstage, hpolite⟩ :=
      hs.greeted tx c (hsessions ▸ hc)
    · exact Or.inl ⟨h, hhead, fun e he => (hpolite e he).mono hanswered⟩
    · exact Or.inr ⟨rest, htodo, hnew, hstage, fun e he => (hpolite e he).mono hanswered⟩
  · intro id h hid hpeer
    exact hanswered _ (hs.announced id h (hclients ▸ hid) hpeer)
  · intro todo htodo e he
    exact (hs.tasks todo (htasks ▸ htodo) e he).mono hanswered

theorem Courteous.spawn (hs : s.Courteous) {todo : List Errand} (htodo : ∀ e ∈ todo, s.Polite e) :
  (s.spawn todo).Courteous where
  greeted := hs.greeted
  announced := hs.announced
  tasks := by
    intro todo' htodo' e he
    obtain h | h := List.mem_append.mp htodo'
    · exact hs.tasks todo' h e he
    · obtain rfl := List.mem_singleton.mp h
      exact htodo e he

/-! ### A session changes -/

section Session

variable {c : ControlSession}

theorem getElem?_setSession (hc : s.sessions[tx]? = some c) (c' : ControlSession) (j : ℕ) :
  (s.setSession tx c').sessions[j]? = if j = tx then some c' else s.sessions[j]?
  := List.getElem?_set_of_some hc c'

theorem Answered.setSession {tx' : ℕ} (h : s.Answered tx') (hc : s.sessions[tx]? = some c)
    {c' : ControlSession} (hanswered : c.Answered → c'.Answered) :
  (s.setSession tx c').Answered tx'
  := by
  obtain ⟨d, hd, hans⟩ := h
  rw [Answered]
  simp only [getElem?_setSession hc]
  split
  · rename_i heq
    rw [heq, hc] at hd
    obtain rfl := Option.some.inj hd
    exact ⟨c', rfl, hanswered hans⟩
  · exact ⟨d, hd, hans⟩

/-- The task of a session moves on, after its hello has been answered if it was before. -/
theorem Courteous.setSession (hs : s.Courteous) (hc : s.sessions[tx]? = some c)
    {c' : ControlSession} (hanswered : c.Answered → c'.Answered)
    (hgreeted : (s.setSession tx c').Greeted tx c') :
  (s.setSession tx c').Courteous
  := by
  have hmono : ∀ tx', s.Answered tx' → (s.setSession tx c').Answered tx' := by
    intro tx' h
    exact h.setSession hc hanswered
  constructor
  · intro tx' d hd
    rw [getElem?_setSession hc] at hd
    split at hd
    · rename_i heq
      obtain rfl := Option.some.inj hd
      rw [heq]
      exact hgreeted
    · obtain ⟨h, hhead, hpolite⟩ | ⟨rest, htodo, hnew, hstage, hpolite⟩ := hs.greeted tx' d hd
      · exact Or.inl ⟨h, hhead, fun e he => (hpolite e he).mono hmono⟩
      · exact Or.inr ⟨rest, htodo, hnew, hstage, fun e he => (hpolite e he).mono hmono⟩
  · intro id h hid hpeer
    exact hmono _ (hs.announced id h hid hpeer)
  · intro todo htodo e he
    exact (hs.tasks todo htodo e he).mono hmono

/-- The first frame of a session whose hello has been answered. -/
theorem Courteous.head_of_answered (hs : s.Courteous) (hc : s.sessions[tx]? = some c)
    (h : c.Answered) :
  c.channel.queued.head? = some c.helloAck ∧ ∀ e ∈ c.todo, s.Polite e
  := by
  obtain ⟨-, hhead, hpolite⟩ | ⟨rest, htodo, -⟩ := hs.greeted tx c hc
  · exact ⟨hhead, hpolite⟩
  · have hack := h (.ack ⟨tx, c.helloAck⟩) (by rw [htodo]; exact List.mem_cons_self)
    simp [Errand.isAck] at hack

/-- A session whose hello has been answered changes, but not the first frame of its channel. -/
theorem Courteous.setAnswered (hs : s.Courteous) (hc : s.sessions[tx]? = some c)
    (h : c.Answered) {c' : ControlSession} (hack : c'.helloAck = c.helloAck)
    (hhead : ∀ m, c.channel.queued.head? = some m → c'.channel.queued.head? = some m)
    (htodo : ∀ e ∈ c'.todo, s.Polite e) :
  (s.setSession tx c').Courteous
  := by
  have hanswered : c'.Answered := by
    intro e he
    have := htodo e he
    cases e with
    | ack p => exact this.elim
    | _ => rfl
  refine hs.setSession hc (fun _ => hanswered) (Or.inl ⟨hanswered, ?_, ?_⟩)
  · rw [hack]
    exact hhead _ (hs.head_of_answered hc h).1
  · intro e he
    refine (htodo e he).mono ?_
    intro tx' hans
    exact hans.setSession hc (fun _ => hanswered)

theorem Channel.head?_trySend {ch : Channel} {m : Msg} (msg : Msg)
    (h : ch.queued.head? = some m) :
  (ch.trySend msg).queued.head? = some m
  := by
  rw [Channel.trySend]
  split
  · exact h
  · dsimp only
    rw [List.head?_append, h]
    rfl

theorem Answered.trySend {tx' : ℕ} (h : s.Answered tx') (p : Post) :
  (s.trySend p).Answered tx'
  := by
  rw [Broker.trySend]
  split
  · exact h
  · rename_i c hc
    exact h.setSession hc (fun hans => hans)

/-- A frame is queued on the channel of a session whose hello has been answered. -/
theorem Courteous.trySend (hs : s.Courteous) {p : Post}
    (hp : ∀ c ∈ s.sessions[p.tx]?, c.Answered) :
  (s.trySend p).Courteous
  := by
  rw [Broker.trySend]
  split
  · exact hs
  · rename_i c hc
    refine hs.setAnswered hc (hp c hc) rfl ?_ (hs.head_of_answered hc (hp c hc)).2
    intro m hm
    exact Channel.head?_trySend p.msg hm

theorem Answered.all (h : s.Answered tx) :
  ∀ c ∈ s.sessions[tx]?, c.Answered
  := by
  obtain ⟨c, hc, hans⟩ := h
  intro d hd
  rw [hc] at hd
  exact Option.some.inj hd ▸ hans

end Session

/-! ### What tasks do -/

/-- Removing pairs and dropping their ids is polite. -/
theorem polite_forget {e : Errand} {p : Pair} (he : e ∈ forget p) :
  s.Polite e
  := by
  simp only [forget, List.mem_cons, List.not_mem_nil, or_false] at he
  obtain rfl | rfl := he <;> trivial

theorem polite_flatMap_forget {e : Errand} {l : List Pair} (he : e ∈ l.flatMap forget) :
  s.Polite e
  := by
  obtain ⟨p, -, hp⟩ := List.mem_flatMap.mp he
  exact polite_forget hp

/-- Frames to clients that have announced are polite. -/
theorem Courteous.polite_posts (hs : s.Courteous) {posts : List Post} {e : Errand}
    (hposts : ∀ p ∈ posts, s.rv.Announced p.tx) (he : e ∈ posts.map Errand.post) :
  s.Polite e
  := by
  obtain ⟨p, hp, rfl⟩ := List.mem_map.mp he
  exact hs.answered_of_announced (hposts p hp)

/-- What a task does that is polite, and does not overtake the answer to a hello by a request,
leaves the server courteous, and so does what follows from it. -/
theorem Courteous.exec (hs : s.Courteous) (draws : Draws) {e : Errand} (he : s.Polite e)
    (hrequest : ∀ tx ∈ e.requested, ∀ c ∈ s.sessions[tx]?, c.Answered) :
  (s.exec draws e).1.Courteous
    ∧ (∀ e' ∈ (s.exec draws e).2, (s.exec draws e).1.Polite e')
    ∧ ∀ tx, s.Answered tx → (s.exec draws e).1.Answered tx
  := by
  cases e with
  | ack p => exact he.elim
  | invalidate clientId =>
      exact ⟨hs.of_eq rfl rfl rfl, fun _ h => polite_flatMap_forget h, fun _ h => h⟩
  | forgetProbes p => exact ⟨hs.of_eq rfl rfl rfl, by simp [Broker.exec], fun _ h => h⟩
  | forgetLegs p => exact ⟨hs.of_eq rfl rfl rfl, by simp [Broker.exec], fun _ h => h⟩
  | know identity => exact ⟨hs.of_eq rfl rfl rfl, by simp [Broker.exec], fun _ h => h⟩
  | post p => exact ⟨hs.trySend he.all, by simp [Broker.exec], fun _ h => h.trySend p⟩
  | startProbes pairId =>
      have hspec := s.rv.startPairProbes_spec pairId draws.1 draws.2
      refine ⟨hs.of_eq rfl rfl hspec.1, ?_, fun _ h => h⟩
      intro e' he'
      obtain he' | he' := List.mem_append.mp he'
      · exact hs.polite_posts hspec.2 he'
      · split at he'
        · simp at he'
        · obtain rfl := List.mem_singleton.mp he'
          trivial
        · obtain rfl := List.mem_singleton.mp he'
          trivial
  | armFinish pairId =>
      exact ⟨hs.spawn (by simp [Polite]), by simp [Broker.exec], fun _ h => h⟩
  | finish pairId =>
      have hclients := s.rv.clients_finishPair pairId
      rw [Broker.exec]
      generalize s.rv.finishPair pairId = r at hclients ⊢
      obtain ⟨rv, _ | info⟩ := r
      · exact ⟨hs.of_eq rfl rfl hclients, by simp, fun _ h => h⟩
      · exact ⟨hs.of_eq rfl rfl hclients, by simp [Polite], fun _ h => h⟩
  | inform i =>
      refine ⟨hs, ?_, fun _ h => h⟩
      intro e' he'
      exact hs.polite_posts (fun p hp => Rendezvous.announced_of_inform hp) he'
  | settle pairId probeId candidates =>
      have hclients := s.rv.clients_settleProbeForPair pairId probeId candidates
      refine ⟨hs.of_eq rfl rfl hclients, ?_, fun _ h => h⟩
      intro e' he'
      obtain ⟨id, -, rfl⟩ := List.mem_map.mp he'
      trivial
  | armReap pairId =>
      exact ⟨hs.spawn (by simp [Polite]), by simp [Broker.exec], fun _ h => h⟩
  | reap pairId =>
      exact ⟨hs.of_eq rfl rfl (s.rv.clients_reapUnclaimedRelay pairId),
        fun _ h => polite_flatMap_forget h, fun _ h => h⟩
  | parkLeg pairId leg =>
      have hclients := s.rv.clients_parkRelayLeg pairId leg
      rw [Broker.exec]
      generalize s.rv.parkRelayLeg pairId leg = r at hclients ⊢
      obtain ⟨rv, _ | ⟨first, second⟩⟩ := r
      · exact ⟨hs.of_eq rfl rfl hclients, by simp, fun _ h => h⟩
      · have hspliced : (record { s with rv := rv } (.spliced pairId first second)).Courteous :=
          hs.of_eq rfl rfl hclients
        exact ⟨hspliced.spawn (by simp [Polite]), by simp, fun _ h => h⟩
  | endRelay pairId =>
      exact ⟨hs.of_eq rfl rfl rfl, fun _ h => polite_flatMap_forget h, fun _ h => h⟩
  | number table h proto port addrs =>
      refine ⟨hs.of_eq rfl rfl rfl, ?_, fun _ h => h⟩
      intro e' he'
      rw [Broker.exec] at he'
      dsimp only at he'
      split at he'
      · simp at he'
      · simp only [List.mem_cons, List.not_mem_nil, or_false] at he'
        obtain rfl | rfl := he' <;> trivial
  | park table id => exact ⟨hs.of_eq rfl rfl rfl, by simp [Broker.exec], fun _ h => h⟩
  | request p =>
      exact ⟨hs.trySend (hrequest p.tx rfl), by simp [Broker.exec], fun _ h => h.trySend p⟩

/-- What a task does next. -/
def next (s : Broker) : BrokerOp → Option Errand
  | .run i _ => s.tasks[i]?.bind List.head?
  | .work tx _ => s.sessions[tx]?.bind fun c => c.todo.head?
  | _ => none

/-- The request that a task is about to queue goes to a session whose hello has been
answered. -/
def Waits (s : Broker) (op : BrokerOp) : Prop :=
  ∀ e ∈ s.next op, ∀ tx ∈ e.requested, ∀ c ∈ s.sessions[tx]?, c.Answered

instance (s : Broker) : DecidablePred s.Waits := fun _ => inferInstanceAs (Decidable (∀ _ ∈ _, _))

/-- A task does the next thing. -/
theorem Courteous.run (hs : s.Courteous) {i : ℕ} {draws : Draws}
    (hwaits : s.Waits (.run i draws)) (hrun : s.run i draws = some t) :
  t.Courteous
  := by
  rw [Broker.run] at hrun
  split at hrun
  · simp at hrun
  · simp at hrun
  · rename_i e todo htask
    obtain rfl := Option.some.inj hrun
    have hpolite := hs.tasks _ (List.mem_of_getElem? htask)
    obtain ⟨ht, hmore, hmono⟩ := hs.exec draws (hpolite e List.mem_cons_self)
      (hwaits e (by rw [next, htask]; rfl))
    refine ⟨ht.greeted, ht.announced, ?_⟩
    intro todo' htodo' e' he'
    obtain h | h := List.mem_or_eq_of_mem_set htodo'
    · exact ht.tasks todo' h e' he'
    · rw [h] at he'
      obtain he' | he' := List.mem_append.mp he'
      · exact hmore e' he'
      · exact (hpolite e' (List.mem_cons_of_mem _ he')).mono hmono

/-! ### What sessions do -/

section Session

variable {c : ControlSession}

/-- The task of a session does the next thing, after its hello has been answered. -/
theorem Courteous.work_answered (hs : s.Courteous) {draws : Draws} {e : Errand}
    {todo : List Errand} (hc : s.sessions[tx]? = some c) (htodo : c.todo = e :: todo)
    (hans : c.Answered) (hrequest : ∀ tx' ∈ e.requested, ∀ d ∈ s.sessions[tx']?, d.Answered) :
  let r := (s.setSession tx { c with todo := todo }).exec draws e
  Courteous { r.1 with
    sessions := r.1.sessions.modify tx fun c' => { c' with todo := r.2 ++ c'.todo } }
  := by
  have hpolite := (hs.head_of_answered hc hans).2
  rw [htodo] at hpolite
  have hrest : ControlSession.Answered { c with todo := todo } := by
    intro e' he'
    exact hans e' (htodo ▸ List.mem_cons_of_mem _ he')
  have h₁ : (s.setSession tx { c with todo := todo }).Courteous :=
    hs.setAnswered hc hans rfl (fun _ h => h)
      (fun e' he' => hpolite e' (List.mem_cons_of_mem _ he'))
  have he : (s.setSession tx { c with todo := todo }).Polite e :=
    (hpolite e List.mem_cons_self).mono fun tx' h => h.setSession hc fun _ => hrest
  have hrequest₁ : ∀ tx' ∈ e.requested,
      ∀ d ∈ (s.setSession tx { c with todo := todo }).sessions[tx']?, d.Answered := by
    intro tx' htx' d hd
    rw [getElem?_setSession hc] at hd
    split at hd
    · exact Option.some.inj hd ▸ hrest
    · exact hrequest tx' htx' d hd
  obtain ⟨ht, hmore, hmono⟩ := h₁.exec draws he hrequest₁
  obtain ⟨c', hc', hans'⟩ := hmono tx ⟨_, by rw [getElem?_setSession hc, if_pos rfl], hrest⟩
  dsimp only
  rw [List.modify_of_some hc']
  refine ht.setAnswered hc' hans' rfl (fun _ h => h) ?_
  intro e' he'
  obtain he' | he' := List.mem_append.mp he'
  · exact hmore e' he'
  · exact (ht.head_of_answered hc' hans').2 e' he'

/-- The hello of a session is answered. -/
theorem Courteous.work_ack (hs : s.Courteous) {todo : List Errand}
    (hc : s.sessions[tx]? = some c) (hnew : c.channel = Channel.new)
    (htodo : ∀ e ∈ todo, s.Polite e) :
  (s.setSession tx
    { c with todo := todo, channel := c.channel.trySend c.helloAck }).Courteous
  := by
  have hanswered : ∀ e ∈ todo, e.isAck = false := by
    intro e he
    have := htodo e he
    cases e with
    | ack p => exact this.elim
    | _ => rfl
  refine hs.setSession hc (fun _ => hanswered) (Or.inl ⟨hanswered, ?_, ?_⟩)
  · dsimp only
    rw [hnew]
    rfl
  · intro e he
    refine (htodo e he).mono ?_
    intro tx' h
    exact h.setSession hc (fun _ => hanswered)

@[simp]
theorem sessions_note (s : Broker) (c : ControlSession) (e : Errand) :
  (s.note c e).sessions = s.sessions
  := by
  unfold note
  split
  · split <;> rfl
  · rfl

theorem Courteous.note (hs : s.Courteous) (c : ControlSession) (e : Errand) :
  (s.note c e).Courteous
  := by
  unfold Broker.note
  split
  · split
    · exact hs
    · exact hs.of_eq rfl rfl rfl
  · exact hs

/-- What the session is after its hello has been answered. -/
theorem work_eq_of_ack {rest : List Errand} {m : Msg} (draws : Draws) (hc : s.sessions[tx]? = some c)
    (hack : c.todo = .ack ⟨tx, m⟩ :: rest) :
  s.work tx draws
    = some (s.setSession tx { c with todo := rest, channel := c.channel.trySend m })
  := by
  have hlt := (List.getElem?_eq_some_iff.mp hc).1
  simp only [Broker.work, hc, hack, Broker.note, Broker.exec, Broker.trySend, setSession,
    List.getElem?_set_self hlt, List.set_set, List.nil_append]
  rw [List.modify_of_some (List.getElem?_set_self hlt), List.set_set]

theorem Courteous.work (hs : s.Courteous) {draws : Draws} (hwaits : s.Waits (.work tx draws))
    (hwork : s.work tx draws = some t) :
  t.Courteous
  := by
  have hwork' := hwork
  rw [Broker.work] at hwork
  split at hwork
  · simp at hwork
  · rename_i c hc
    split at hwork
    · simp at hwork
    · rename_i e todo htodo
      obtain ⟨hans, -, -⟩ | ⟨rest, hack, hnew, -, hpolite⟩ := hs.greeted tx c hc
      · obtain rfl := Option.some.inj hwork
        refine (hs.note c e).work_answered ((sessions_note s c e).symm ▸ hc) htodo hans ?_
        rw [sessions_note]
        exact hwaits e (by rw [next, hc, Option.bind_some, htodo]; rfl)
      · -- the first thing that a session does is to answer its hello
        rw [work_eq_of_ack draws hc hack] at hwork'
        obtain rfl := Option.some.inj hwork'
        exact hs.work_ack hc hnew hpolite

/-- A session that is at rest has answered its hello. -/
theorem answered_of_idle (htodo : c.todo = []) :
  c.Answered
  := by
  simp [ControlSession.Answered, htodo]

/-- A session that is at rest is given something polite to do. -/
theorem Courteous.answer (hs : s.Courteous) (hc : s.sessions[tx]? = some c) (hidle : c.todo = [])
    (announce : Option (UInt8 × PeerIdentity)) {todo : List Errand}
    (htodo : ∀ e ∈ todo, s.Polite e) :
  (s.answer tx { c with announce := announce } todo).Courteous
  := hs.setAnswered hc (answered_of_idle hidle) rfl (fun _ h => h) htodo

theorem polite_own {m : Msg} (hc : s.sessions[tx]? = some c) (hidle : c.todo = []) :
  ∀ e ∈ [Errand.post ⟨tx, m⟩], s.Polite e
  := by
  intro e he
  obtain rfl := List.mem_singleton.mp he
  exact ⟨c, hc, answered_of_idle hidle⟩

theorem Courteous.setFwd (hs : s.Courteous) (clientId : String) (tx : ℕ)
    (entries : List FwdOptionEntry) :
  (s.setFwd clientId tx entries).Courteous ∧ (s.setFwd clientId tx entries).sessions = s.sessions
  := by
  rw [Broker.setFwd]
  split
  · exact ⟨hs, rfl⟩
  · rename_i h hid
    split
    · refine ⟨⟨hs.greeted, ?_, hs.tasks⟩, rfl⟩
      intro id h' hid' hpeer
      dsimp only at hid'
      rw [Table.lookup_insert_eq] at hid'
      split at hid'
      · obtain rfl := Option.some.inj hid'
        exact hs.announced clientId h hid hpeer
      · exact hs.announced id h' hid' hpeer
    · exact ⟨hs, rfl⟩

/-- The entries that a claim displaces have announced, and the one that has the claim is that
of the session that has proved it. -/
theorem Courteous.recordPeerClaim (hs : s.Courteous) (hc : s.sessions[tx]? = some c)
    (hidle : c.todo = []) {provides : UInt8} {identity : PeerIdentity} {rv : Rendezvous}
    {displaced : List (String × ClientHandle)}
    (hclaim : s.rv.recordPeerClaim c.clientId tx provides identity = some (rv, displaced)) :
  Courteous { s with rv := rv } ∧ ∀ e ∈ displaced, s.Answered e.2.tx
  := by
  rw [Rendezvous.recordPeerClaim] at hclaim
  split at hclaim
  · rename_i howned
    obtain ⟨rfl, rfl⟩ := Prod.mk.inj (Option.some.inj hclaim)
    obtain ⟨own, hown, htx⟩ := howned
    refine ⟨⟨hs.greeted, ?_, hs.tasks⟩, ?_⟩
    · intro id h hid hpeer
      dsimp only at hid
      rw [Table.lookup_mapValues] at hid
      obtain ⟨h₀, hid₀, rfl⟩ := Option.map_eq_some_iff.mp hid
      unfold Rendezvous.claimed at hpeer ⊢
      split
      · rename_i heq
        rw [heq, hown] at hid₀
        obtain rfl := Option.some.inj hid₀
        exact ⟨c, htx ▸ hc, answered_of_idle hidle⟩
      · rename_i hne
        rw [if_neg hne] at hpeer
        split
        · rename_i hsame
          rw [if_pos hsame] at hpeer
          simp at hpeer
        · rename_i hother
          rw [if_neg hother] at hpeer
          exact hs.announced id h₀ hid₀ hpeer
    · rintro ⟨id, h⟩ he
      obtain ⟨hmem, hfilter⟩ := List.mem_filter.mp he
      have hidentity : h.peerIdentity = some identity := (of_decide_eq_true hfilter).2
      exact hs.announced id h (Table.mem_toList.mp hmem) (Or.inr (by simp [hidentity]))
  · simp at hclaim

theorem Courteous.prove (hs : s.Courteous) (hc : s.sessions[tx]? = some c) (hidle : c.todo = [])
    (provides : UInt8) (identity : PeerIdentity) :
  (s.prove tx c provides identity).Courteous
  := by
  rw [Broker.prove]
  split
  · exact hs.answer hc hidle none (by simp)
  · rename_i rv displaced hclaim
    obtain ⟨hrv, hdisplaced⟩ := hs.recordPeerClaim hc hidle hclaim
    refine hrv.answer hc hidle none ?_
    intro e he
    simp only [List.cons_append, List.mem_cons, List.mem_append, List.mem_flatMap,
      List.not_mem_nil, or_false, List.mem_map] at he
    obtain rfl | ⟨d, hd, rfl | rfl⟩ | ⟨addr, -, rfl⟩ := he
    · trivial
    · trivial
    · exact hdisplaced d hd
    · exact ⟨c, hc, answered_of_idle hidle⟩

theorem Courteous.request (hs : s.Courteous) (hc : s.sessions[tx]? = some c)
    (hidle : c.todo = []) (peerId : PeerIdentity) (want : UInt8) (challenge : Option Capability) :
  (s.request tx c peerId want challenge).Courteous
  := by
  have hclients := s.rv.clients_peerConnect c.clientId tx peerId want s.closed challenge
  rw [Broker.request]
  generalize s.rv.peerConnect c.clientId tx peerId want s.closed challenge = r at hclients ⊢
  obtain ⟨rv, _ | ⟨pairId, status⟩⟩ := r
  · exact hs.of_eq rfl rfl hclients
  · dsimp only
    have hrv : Courteous { s with rv := rv } := hs.of_eq rfl rfl hclients
    split
    · have hrecord : ∀ event, (record { s with rv := rv } event).Courteous :=
        fun event => hrv.of_eq rfl rfl rfl
      refine (hrecord _).answer hc hidle c.announce ?_
      intro e he
      simp only [List.mem_cons, List.not_mem_nil, or_false] at he
      obtain rfl | rfl := he
      · exact ⟨c, hc, answered_of_idle hidle⟩
      · trivial
    · exact hrv.answer hc hidle c.announce (polite_own hc hidle)

theorem Courteous.handleControlFrame (hs : s.Courteous) (hc : s.sessions[tx]? = some c)
    (hidle : c.todo = []) (proving : Proving) (draws : Draws) (msg : Msg) :
  (s.handleControlFrame tx c proving draws msg).Courteous
  := by
  unfold Broker.handleControlFrame
  split
  · exact hs.answer hc hidle c.announce (polite_own hc hidle)
  · rename_i entries
    obtain ⟨hfwd, hsessions⟩ := hs.setFwd c.clientId tx entries
    exact hfwd.answer (hsessions ▸ hc) hidle c.announce (polite_own (hsessions ▸ hc) hidle)
  · split
    · exact hs.answer hc hidle _ (polite_own hc hidle)
    · exact hs.answer hc hidle none (polite_own hc hidle)
  · split
    · exact hs
    · split
      · exact hs.prove hc hidle _ _
      · exact hs.answer hc hidle none (polite_own hc hidle)
  · exact hs.request hc hidle _ _ _
  · rename_i pairId status
    obtain ⟨hclients, hposts⟩ :=
      s.rv.peerPath_spec c.clientId tx pairId.toNat status draws.1 draws.2
    generalize s.rv.peerPath c.clientId tx pairId.toNat status draws.1 draws.2 = r
      at hclients hposts ⊢
    obtain ⟨rv, posts, opened⟩ := r
    have hrv : Courteous { s with rv := rv } := hs.of_eq rfl rfl hclients
    refine hrv.answer hc hidle c.announce ?_
    intro e he
    obtain he | he := List.mem_append.mp he
    · refine hrv.polite_posts ?_ he
      intro p hp
      obtain ⟨id, h, hid, hannounced⟩ := hposts p hp
      exact ⟨id, h, hclients.symm ▸ hid, hannounced⟩
    · split at he
      · obtain rfl := List.mem_singleton.mp he
        trivial
      · simp at he
  · exact hs

/-- A session leaves the registry. -/
theorem Courteous.leave (hs : s.Courteous) (hc : s.sessions[tx]? = some c) (hidle : c.todo = []) :
  (s.leave tx c).Courteous
  := by
  have hans := answered_of_idle hidle
  rw [Broker.leave]
  split
  · have herased : Courteous { s with
        rv := { s.rv with clients := s.rv.clients.erase c.clientId } } := by
      refine ⟨hs.greeted, ?_, hs.tasks⟩
      intro id h hid hpeer
      dsimp only at hid
      rw [Table.lookup_erase_eq] at hid
      split at hid
      · simp at hid
      · exact hs.announced id h hid hpeer
    refine herased.setAnswered hc hans rfl (fun _ h => h) ?_
    intro e he
    obtain rfl := List.mem_singleton.mp he
    trivial
  · exact hs.setAnswered hc hans rfl (fun _ h => h) (hs.head_of_answered hc hans).2

end Session

/-- A session enters the registry; its hello is not answered yet, and it has not announced. -/
theorem Courteous.register (hs : s.Courteous) (clientId : String) (transport : ActiveTransport)
    (peer : Option SocketAddr) (bridgeCapability : Capability) (held : Bool) :
  (s.register clientId transport peer bridgeCapability held).Courteous
  := by
  have henter : ∀ rest, (∀ e ∈ rest, ∃ id, e = Errand.invalidate id) →
      Courteous { s with
        rv := { s.rv with
          clients := s.rv.clients.insert clientId
            (ClientHandle.new clientId s.sessions.length transport peer bridgeCapability) }
        sessions := s.sessions ++ [⟨clientId, bridgeCapability, .registering,
          .ack ⟨s.sessions.length, .clientHelloAck clientId bridgeCapability⟩ :: rest, none,
          Channel.new⟩] } := by
    intro rest hrest
    have hold : ∀ {j : ℕ} {d new : ControlSession}, s.sessions[j]? = some d →
        (s.sessions ++ [new])[j]? = some d := by
      intro j d new hd
      have hlt := (List.getElem?_eq_some_iff.mp hd).1
      rw [List.getElem?_append_one, if_neg (Nat.ne_of_lt hlt), hd]
    constructor
    · intro tx c hc
      dsimp only at hc
      rw [List.getElem?_append_one] at hc
      split at hc
      · rename_i heq
        obtain rfl := Option.some.inj hc
        refine Or.inr ⟨rest, by rw [heq]; rfl, rfl, rfl, ?_⟩
        intro e he
        obtain ⟨id, rfl⟩ := hrest e he
        trivial
      · obtain ⟨h, hhead, hpolite⟩ | ⟨rest', htodo, hnew, hstage, hpolite⟩ :=
          hs.greeted tx c hc
        · refine Or.inl ⟨h, hhead, fun e he => (hpolite e he).mono ?_⟩
          rintro tx' ⟨d, hd, hans⟩
          exact ⟨d, hold hd, hans⟩
        · refine Or.inr ⟨rest', htodo, hnew, hstage, fun e he => (hpolite e he).mono ?_⟩
          rintro tx' ⟨d, hd, hans⟩
          exact ⟨d, hold hd, hans⟩
    · intro id h hid hpeer
      dsimp only at hid
      rw [Table.lookup_insert_eq] at hid
      split at hid
      · obtain rfl := Option.some.inj hid
        simp [ClientHandle.new] at hpeer
      · obtain ⟨d, hd, hans⟩ := hs.announced id h hid hpeer
        exact ⟨d, hold hd, hans⟩
    · intro todo htodo e he
      refine (hs.tasks todo htodo e he).mono ?_
      rintro tx' ⟨d, hd, hans⟩
      exact ⟨d, hold hd, hans⟩
  rw [Broker.register]
  dsimp only
  split
  · exact henter [] (by simp)
  · split
    · exact hs
    · exact henter [.invalidate clientId] (by simp)

/-! ### Runs -/

theorem Courteous.init :
  Broker.init.Courteous where
  greeted := by simp [Broker.init]
  announced := by simp [Broker.init]
  tasks := by simp [Broker.init]

theorem advance_eq_some {stage : ControlStage} {f : ControlSession → Broker}
    (h : s.advance tx stage f = some t) :
  ∃ c : ControlSession, s.sessions[tx]? = some c ∧ c.stage = stage ∧ c.todo = [] ∧ t = f c
  := by
  rw [advance] at h
  split at h
  · simp at h
  · rename_i c hc
    split at h
    · rename_i hat
      exact ⟨c, hc, hat.1, hat.2, (Option.some.inj h).symm⟩
    · simp at h

theorem Courteous.recv (hs : s.Courteous) (hstep : s.step (.recv tx) = some t) :
  t.Courteous
  := by
  rw [Broker.step] at hstep
  split at hstep
  · simp at hstep
  · rename_i c hc
    split at hstep
    · rename_i hunread
      obtain rfl := Option.some.inj hstep
      obtain ⟨hans, -, hpolite⟩ | ⟨rest, -, hnew, -⟩ := hs.greeted tx c hc
      · exact hs.setAnswered hc hans rfl (fun _ h => h) hpolite
      · rw [hnew] at hunread
        exact absurd hunread (Nat.lt_irrefl 0)
    · simp at hstep

theorem Courteous.close (hs : s.Courteous) (hstep : s.step (.close tx) = some t) :
  t.Courteous
  := by
  rw [Broker.step] at hstep
  split at hstep
  · simp at hstep
  · rename_i c hc
    split at hstep
    · simp at hstep
    · rename_i hstage
      obtain rfl := Option.some.inj hstep
      obtain ⟨hans, -, hpolite⟩ | ⟨rest, -, -, hreg, -⟩ := hs.greeted tx c hc
      · exact hs.setAnswered hc hans rfl (fun _ h => h) hpolite
      · exact absurd hreg hstage

/-- Each step of the server in which no request overtakes an answer leaves it courteous. -/
theorem Courteous.step (hs : s.Courteous) {op : BrokerOp} (hwaits : s.Waits op)
    (hstep : s.step op = some t) :
  t.Courteous
  := by
  cases op with
  | register clientId transport peer bridgeCapability held =>
      obtain rfl := Option.some.inj hstep
      exact hs.register clientId transport peer bridgeCapability held
  | work tx draws => exact hs.work hwaits hstep
  | serve tx =>
      obtain ⟨c, hc, -, hidle, rfl⟩ := advance_eq_some hstep
      have hans := answered_of_idle hidle
      exact hs.setAnswered hc hans rfl (fun _ h => h) (hs.head_of_answered hc hans).2
  | frame tx msg proving draws =>
      obtain ⟨c, hc, -, hidle, rfl⟩ := advance_eq_some hstep
      exact hs.handleControlFrame hc hidle proving draws msg
  | leave tx =>
      obtain ⟨c, hc, -, hidle, rfl⟩ := advance_eq_some hstep
      exact hs.leave hc hidle
  | drop tx =>
      obtain ⟨c, hc, -, hidle, rfl⟩ := advance_eq_some hstep
      have hans := answered_of_idle hidle
      exact hs.setAnswered hc hans rfl (fun _ h => h) (hs.head_of_answered hc hans).2
  | recv tx => exact hs.recv hstep
  | close tx => exact hs.close hstep
  | run i draws => exact hs.run hwaits hstep
  | takeProbe id clientId capability candidates =>
      rw [Broker.step] at hstep
      split at hstep
      · rename_i claim pairId probes _ _
        obtain rfl := Option.some.inj hstep
        have hrecord : (record { s with rv := { s.rv with probes := probes } }
            (.claimed id claim clientId capability)).Courteous := hs.of_eq rfl rfl rfl
        exact hrecord.spawn (by simp [Polite])
      · simp at hstep
  | takeRelayLeg id clientId capability =>
      rw [Broker.step] at hstep
      split at hstep
      · rename_i claim pairId legs _ _
        obtain rfl := Option.some.inj hstep
        have hrecord : (record { s with rv := { s.rv with relayLegs := legs } }
            (.claimed id claim clientId capability)).Courteous := hs.of_eq rfl rfl rfl
        exact hrecord.spawn (by simp [Polite])
      · simp at hstep
  | openFlow table clientId proto port addrs =>
      rw [Broker.step] at hstep
      split at hstep
      · simp at hstep
      · obtain rfl := Option.some.inj hstep
        exact hs.spawn (by simp [Polite])
  | unpark table id =>
      obtain rfl := Option.some.inj hstep
      exact hs.of_eq rfl rfl rfl

/-- Why a client gives up a bridge after its hello. -/
inductive LeaseError where
  | credentialInUse
  | notAuthorized
deriving DecidableEq

/-- What a client makes of the first frame after its hello. -/
def bridgeLease : Msg → Except LeaseError (String × Capability)
  | .clientHelloAck clientId bridgeCapability => .ok (clientId, bridgeCapability)
  | .clientHelloRefuse => .error .credentialInUse
  | _ => .error .notAuthorized

/-- In every run in which no request is queued on the channel of a session before its hello is
answered, the first frame on the channel of each session is the answer to its hello, and the
client takes it for that. -/
theorem hello_answered_first {ops : List BrokerOp}
    (hrun : Run (Meeting Waits fun s op t => s.step op = some t) Broker.init ops s) :
  ∀ (tx : ℕ) (c : ControlSession), s.sessions[tx]? = some c →
    ∀ frame ∈ c.channel.queued.head?,
      frame = .clientHelloAck c.clientId c.bridgeCapability
        ∧ bridgeLease frame = .ok (c.clientId, c.bridgeCapability)
  := by
  have hs : s.Courteous :=
    hrun.invariant Courteous.init fun _ _ _ h hstep => h.step hstep.1 hstep.2
  intro tx c hc frame hframe
  have hack : frame = c.helloAck := by
    obtain ⟨-, hhead, -⟩ | ⟨rest, -, hnew, -⟩ := hs.greeted tx c hc
    · rw [hhead] at hframe
      exact (Option.some.inj hframe).symm
    · rw [hnew] at hframe
      simp [Channel.new] at hframe
  rw [hack]
  exact ⟨rfl, rfl⟩

/-- A client registers while a public flow is opened for it. -/
def greeting : List BrokerOp :=
  [.register "a" .tcp none (Bytes.zero 32) false, .openFlow .stream "a" .tcp 80 none,
    .run 0 (some (Bytes.zero 32), none), .run 0 (none, none)]

/-- The answer to the hello goes first when the task of the flow is slower. -/
theorem hello_answered_first_slow :
  ∃ s, Run (Meeting Waits fun s op t => s.step op = some t) init
      (greeting ++ [.work 0 (none, none), .run 0 (none, none)]) s
    ∧ ∃ c, s.sessions[0]? = some c ∧ c.channel.queued.length = 2
    ∧ c.channel.queued.head? = some (.clientHelloAck "a" (Bytes.zero 32))
  := by
  have hview : ∃ s ∈ execute Waits step init
        (greeting ++ [.work 0 (none, none), .run 0 (none, none)]),
      ∃ c ∈ s.sessions[0]?, c.channel.queued.length = 2 ∧ c.clientId = "a"
        ∧ c.bridgeCapability = Bytes.zero 32 := by
    decide +kernel
  obtain ⟨s, hs, c, hc, hlength, hid, hcapability⟩ := hview
  have hrun : Run (Meeting Waits fun s op t => s.step op = some t) init
      (greeting ++ [.work 0 (none, none), .run 0 (none, none)]) s := run_of_execute hs
  refine ⟨s, hrun, c, hc, hlength, ?_⟩
  cases hhead : c.channel.queued.head? with
  | none =>
      rw [List.head?_eq_none_iff.mp hhead] at hlength
      simp at hlength
  | some frame =>
      obtain ⟨hframe, -⟩ := hello_answered_first hrun 0 c hc frame hhead
      rw [hframe, hid, hcapability]

/-- The request of a public flow overtakes the answer to a hello, and the client gives up. -/
theorem request_overtakes :
  ∃ s, Run (fun s op t => s.step op = some t) init
      (greeting ++ [.run 0 (none, none), .work 0 (none, none)]) s
    ∧ ∃ c, s.sessions[0]? = some c ∧ ∃ frame, c.channel.queued.head? = some frame
    ∧ frame = .open .tcp 80 1 (Bytes.zero 32) ∧ bridgeLease frame = .error .notAuthorized
  := by
  have hview : ∃ s ∈ execute (fun _ _ => True) step init
        (greeting ++ [.run 0 (none, none), .work 0 (none, none)]),
      ∃ c ∈ s.sessions[0]?,
        c.channel.queued.head? = some (.open .tcp 80 1 (Bytes.zero 32)) := by
    decide +kernel
  obtain ⟨s, hs, c, hc, hhead⟩ := hview
  exact ⟨s, (run_of_execute hs).mono (fun _ _ _ h => h.2), c, hc, _, hhead, rfl, rfl⟩

end Broker

end ZeroNat

import ZeroNat.Client.Persisted

/-!
# Runs of a client with its file

A client is booted from its file, is sent messages, and saves what they change.  Whatever the
order of the messages, the saves and the steps of the reconnect loop, what the client runs is what
its config declares; and, as long as the messages are careful, its file can be booted from at
every moment, and what is saved boots to a client that runs the same.
-/

namespace ZeroNat.Client

open Config (ClientConfig)

/-! ### Steps -/

/-- Nothing that a config declares changes. -/
def Switched (s t : ControlState) : Prop :=
  ∃ active : ActiveTarget, t = { s with active := active } ∧ active.target = s.active.target
    ∧ active.peers = s.active.peers ∧ (s.active.Orderly → active.Orderly)

namespace Switched

variable {files : Files} {s t : ControlState} {cfg : ClientConfig}

theorem refl (s : ControlState) :
  Switched s s
  := ⟨s.active, rfl, rfl, rfl, id⟩

theorem inStep (hst : Switched s t) (h : InStep files s cfg) :
  InStep files t cfg
  := by
  obtain ⟨active, rfl, htarget, hpeers, horderly⟩ := hst
  exact h.setActive htarget hpeers (horderly h.orderly)

theorem persisted (hst : Switched s t) (h : Persisted files s cfg) :
  Persisted files t cfg
  := by
  refine ⟨hst.inStep h.inStep, h.valid, h.writable, ?_⟩
  obtain ⟨active, rfl, -, hpeers, -⟩ := hst
  change (peerClaims active.peers).Disjoint s.bootMode.claims
  rw [hpeers]
  exact h.clear

theorem persist_eq (hst : Switched s t) :
  t.persist = s.persist
  := by
  obtain ⟨active, rfl, -⟩ := hst
  rfl

theorem afterSave (s : ControlState) (after : After) :
  Switched s (s.afterSave after)
  := by
  cases after with
  | nothing => exact refl s
  | pairsLater => exact refl s
  | kickIfForwards =>
      refine ⟨s.active.kickIfForwards, rfl, ?_, ?_,
        (ActiveTarget.switches_kickIfForwards s.active).orderly⟩
      · rw [ActiveTarget.kickIfForwards]
        split <;> rfl
      · rw [ActiveTarget.kickIfForwards]
        split <;> rfl
  | serveForwards =>
      refine ⟨s.active.serveForwards, rfl, ?_, ?_,
        (ActiveTarget.switches_serveForwards s.active).orderly⟩
      · rw [ActiveTarget.serveForwards]
        split <;> rfl
      · rw [ActiveTarget.serveForwards]
        split <;> rfl

end Switched

namespace Host

variable {files : Files} {dht : Bool} {h k : Host} {op : HostOp}

/-- A step of the reconnect loop changes the cancels only. -/
theorem switched_loopStep {op : SwitchOp} (hop : op = .begin ∨ op = .cancelled ∨ op = .fail)
    (hstep : h.loopStep op = some k) :
  Switched h.control k.control ∧ k.file = h.file
  := by
  obtain ⟨t, ht, rfl⟩ := Option.map_eq_some_iff.mp hstep
  refine ⟨⟨t.active, rfl, ?_⟩, rfl⟩
  rcases hop with rfl | rfl | rfl
  · simp only [Switchable.step] at ht
    split at ht
    · obtain rfl := Option.some.inj ht
      exact ⟨rfl, rfl, fun ho => ⟨ho.single, ho.distinct, ho.mirrored, ho.apart, ho.disjoint,
        ho.cells, ho.fresh⟩⟩
    · exact absurd ht (by simp)
  · simp only [Switchable.step] at ht
    split at ht
    · split at ht
      · obtain rfl := Option.some.inj ht
        exact ⟨rfl, rfl, fun ho => ⟨ho.single, ho.distinct, ho.mirrored, ho.apart, ho.disjoint,
          ho.cells, ho.fresh⟩⟩
      · exact absurd ht (by simp)
    · exact absurd ht (by simp)
  · obtain rfl := Option.some.inj ht
    exact ⟨rfl, rfl, id⟩

theorem step_apply {msg : ClientMsg} (hstep : h.step dht (.apply msg) = some k) :
  k.control = (h.control.apply dht msg).1 ∧ k.file = h.file
  := by
  simp only [step] at hstep
  split at hstep
  · exact absurd hstep (by simp)
  · split at hstep
    · rename_i happly
      obtain rfl := Option.some.inj hstep
      rw [happly]
      exact ⟨rfl, rfl⟩
    · rename_i happly
      obtain rfl := Option.some.inj hstep
      rw [happly]
      exact ⟨rfl, rfl⟩

/-- What a step is: a message is applied, or nothing that is declared changes and the file is
what it was or what is saved now. -/
theorem step_cases (hstep : h.step dht op = some k) :
  (∃ msg, op = .apply msg ∧ k.control = (h.control.apply dht msg).1 ∧ k.file = h.file)
    ∨ Switched h.control k.control ∧ (k.file = h.file ∨ k.file = h.saved)
  := by
  cases op with
  | apply msg => exact Or.inl ⟨msg, rfl, step_apply hstep⟩
  | save saving =>
      right
      simp only [step] at hstep
      split at hstep
      · exact absurd hstep (by simp)
      · rename_i after _
        cases saving with
        | done =>
            obtain rfl := Option.some.inj hstep
            exact ⟨Switched.afterSave h.control after, Or.inr rfl⟩
        | failed =>
            obtain rfl := Option.some.inj hstep
            exact ⟨Switched.afterSave h.control after, Or.inl rfl⟩
        | abandoned =>
            obtain rfl := Option.some.inj hstep
            exact ⟨Switched.refl h.control, Or.inl rfl⟩
  | land =>
      right
      simp only [step] at hstep
      split at hstep
      · exact absurd hstep (by simp)
      · obtain rfl := Option.some.inj hstep
        exact ⟨Switched.refl h.control, Or.inr rfl⟩
  | begin =>
      obtain ⟨hswitched, hfile⟩ := switched_loopStep (Or.inl rfl) hstep
      exact Or.inr ⟨hswitched, Or.inl hfile⟩
  | cancelled =>
      obtain ⟨hswitched, hfile⟩ := switched_loopStep (Or.inr (Or.inl rfl)) hstep
      exact Or.inr ⟨hswitched, Or.inl hfile⟩
  | fail =>
      obtain ⟨hswitched, hfile⟩ := switched_loopStep (Or.inr (Or.inr rfl)) hstep
      exact Or.inr ⟨hswitched, Or.inl hfile⟩

/-- A message that is refused leaves the client as it is. -/
theorem apply_of_refused {s : ControlState} {msg : ClientMsg} {e : String}
    (h : (s.apply dht msg).2 = ControlState.refused e) :
  (s.apply dht msg).1 = s
  := by
  rcases ControlState.answered_apply dht s msg with ⟨e', heq⟩ | ⟨-, hne⟩
  · rw [heq]
  · exact absurd h (hne e)

/-- Every step keeps the client in step with some config. -/
theorem inStep_step (hinStep : ∃ cfg, InStep files h.control cfg)
    (hstep : h.step dht op = some k) :
  ∃ cfg, InStep files k.control cfg
  := by
  obtain ⟨cfg, hcfg⟩ := hinStep
  rcases step_cases hstep with ⟨msg, -, hcontrol, -⟩ | ⟨hswitched, -⟩
  · rw [hcontrol]
    rcases ControlState.answered_apply dht h.control msg with ⟨e, heq⟩ | ⟨haccepted, -⟩
    · rw [heq]
      exact ⟨cfg, hcfg⟩
    · exact hcfg.accepted haccepted
  · exact ⟨cfg, hswitched.inStep hcfg⟩

theorem inStep_of_bootText {text : List Char} {s : ControlState}
    (hboot : bootText files text = .ok s) :
  ∃ cfg, ClientConfig.parse text = .ok cfg ∧ bootConfig files cfg = .ok s
    ∧ Persisted files s cfg
  := by
  obtain ⟨cfg, hparse, hboot⟩ := Config.ok_of_bind hboot
  obtain ⟨hvalid, hinStep, hmode⟩ := inStep_of_bootConfig hboot
  refine ⟨cfg, hparse, hboot, hinStep, hvalid, ClientConfig.writable_of_parse hparse, ?_⟩
  rw [ControlState.Clear, ← hmode]
  exact hinStep.orderly.disjoint

/-- The text of a config that can be written is booted from as the config is. -/
theorem bootText_serialize {cfg : ClientConfig} (h : cfg.Writable) :
  bootText files cfg.serialize = bootConfig files cfg
  := by
  rw [bootText, ClientConfig.parse_serialize h]
  rfl

/-- The config of a client with a forward, a consumer that takes the default route, and a session
that would start by itself and take it as well. -/
def guarded : ClientConfig where
  id := none
  peerSecret := some ("".pushn 'a' 64)
  active := none
  control := none
  servers := [⟨"home", "198.51.100.7:7000", none, "".pushn 'b' 64, "".pushn 'b' 64, none, .auto⟩]
  forwards := [⟨.tcp, 8080, "127.0.0.1:8080", false, none, true⟩]
  pppoe := [⟨"isp", true, "user", some "pass", none, "", 1492, true, true, false⟩]
  tap := none
  tun := some ⟨none, none, true, false, some ("".pushn 'c' 64)⟩
  peer := none

theorem writable_guarded :
  guarded.Writable
  := by
  refine ⟨by simp [guarded, ClientConfig.Opt], ?_, by simp [guarded, ClientConfig.Opt],
    by simp [guarded, ClientConfig.Opt], ?_, ?_, ?_, by simp [guarded], ?_, by simp [guarded]⟩
  · rintro _ ⟨⟩
    decide
  · intro s hs
    obtain rfl := List.mem_singleton.mp hs
    exact ⟨by decide, by decide, by decide, fun _ h => absurd h (by simp), by decide, by decide,
      fun _ h => absurd h (by simp), fun h => absurd rfl h⟩
  · intro f hf
    obtain rfl := List.mem_singleton.mp hf
    exact ⟨by decide, fun _ h => absurd h (by simp), fun h => absurd h (by simp)⟩
  · intro p hp
    obtain rfl := List.mem_singleton.mp hp
    refine ⟨by decide, by decide, by decide, ?_, fun _ h => absurd h (by simp), by decide,
      fun _ => rfl⟩
    rintro _ ⟨⟩
    decide
  · rintro _ ⟨⟩
    refine ⟨fun _ h => absurd h (by simp), fun _ h => absurd h (by simp),
      fun h => absurd h (by simp), by decide, ?_⟩
    rintro _ ⟨⟩
    decide

/-- There are no files to read. -/
def noFiles : Files :=
  fun _ => .error "No such file or directory (os error 2)"

/-- In every run of a client from its boot, what it runs is what its config declares, and a
message that is refused changes nothing. -/
theorem runs_what_it_declares {text : List Char} {s : ControlState}
    (hboot : bootText files text = .ok s) {ops : List HostOp}
    (hrun : Run (fun h op k => step dht h op = some k) (start s text) ops h) :
  (∃ cfg, Mirrors files h.control cfg)
    ∧ ∀ msg e, (h.control.apply dht msg).2 = .error (false, e) →
      (h.control.apply dht msg).1 = h.control
  := by
  obtain ⟨cfg, -, -, hpersisted⟩ := inStep_of_bootText hboot
  have hreached : ∃ cfg, InStep files h.control cfg :=
    hrun.invariant (I := fun h => ∃ cfg, InStep files h.control cfg) ⟨cfg, hpersisted.inStep⟩
      fun _ _ _ hinStep hstep => inStep_step hinStep hstep
  obtain ⟨cfg', hinStep⟩ := hreached
  exact ⟨⟨cfg', hinStep.mirrors⟩, fun _ _ => apply_of_refused⟩

/-- A server is added and selected while a save is left behind, and the loop takes it up. -/
def moved : List HostOp :=
  [.begin, .apply (.addServer "away" "203.0.113.9:7000" ("".pushn 'd' 64) .auto), .save .abandoned,
    .apply (.selectServer "away"), .save .failed, .land, .cancelled, .begin]

/-- The client runs what its config declares then, and has refused to remove the server. -/
theorem runs_what_it_declares_moved :
  ∃ (s : ControlState) (h : Host), bootText noFiles guarded.serialize = .ok s
    ∧ Run (fun h op k => step false h op = some k) (start s guarded.serialize) moved h
    ∧ h.control.active.target.name = "away"
    ∧ (∃ e, (h.control.apply false (.removeServer "away")).2 = .error (false, e))
    ∧ (∃ cfg, Mirrors noFiles h.control cfg)
    ∧ ∀ msg e, (h.control.apply false msg).2 = .error (false, e) →
      (h.control.apply false msg).1 = h.control
  := by
  have hview : ∃ s ∈ (bootConfig noFiles guarded).toOption,
      ∃ h ∈ execute (fun _ _ => True) (step false) (start s guarded.serialize) moved,
        h.control.active.target.name = "away"
          ∧ (h.control.apply false (.removeServer "away")).2
            = .error (false, "`away` is the active server; select another first") := by
    decide +kernel
  obtain ⟨s, hs, h, hh, htarget, hrefused⟩ := hview
  have hboot : bootText noFiles guarded.serialize = .ok s := by
    rw [bootText_serialize writable_guarded]
    exact Config.ok_of_toOption hs
  have hrun := (run_of_execute hh).mono fun _ _ _ h => h.2
  exact ⟨s, h, hboot, hrun, htarget, ⟨_, hrefused⟩, runs_what_it_declares hboot hrun⟩

theorem saved_eq {cfg : ClientConfig} (hcfg : h.control.persist = some cfg) :
  h.saved = cfg.serialize
  := by
  rw [saved, hcfg]

end Host

/-! ### Restarts -/

/-- Two clients run the same, up to the body of the session and the order of the slots. -/
structure Agrees (s t : ControlState) : Prop where
  config : t.persist = s.persist
  servers : t.servers = s.servers
  target : t.active.target = s.active.target
  forwards : ∀ proto port, t.forwards.get proto port = s.forwards.get proto port
  slots : (t.active.peers.map PeerSlot.spec).Perm (s.active.peers.map PeerSlot.spec)
  sessions : t.pppoe = s.pppoe
  fallback : t.fallbackMode = s.fallbackMode
  peerSecret : t.hasPeerSecret = s.hasPeerSecret

section

variable {files : Files} {s t : ControlState} {cfg : ClientConfig}

theorem live_unique {cs : List Config.CfgServer} {ts us : List ServerTarget}
    (h : List.Forall₂ Live cs ts) (h' : List.Forall₂ Live cs us) :
  us = ts
  := by
  induction h generalizing us with
  | nil => exact List.forall₂_nil_left_iff.mp h'
  | cons hlive _ ih =>
      obtain ⟨u, us, hu, hus, rfl⟩ := List.forall₂_cons_left_iff.mp h'
      rw [ih hus, Except.ok.inj (hu.symm.trans hlive)]

/-- Clients that run what one config declares run the same. -/
theorem Mirrors.agrees (hs : Mirrors files s cfg) (ht : Mirrors files t cfg) :
  Agrees s t
  := by
  have hsessions : t.pppoe = s.pppoe := Except.ok.inj (ht.sessions.symm.trans hs.sessions)
  refine ⟨ht.config.trans hs.config.symm, live_unique hs.servers ht.servers, ?_, ?_, ?_, hsessions,
    ?_, ht.peerSecret.trans hs.peerSecret.symm⟩
  · obtain ⟨srv, hsrv, hlive⟩ := hs.target
    obtain ⟨srv', hsrv', hlive'⟩ := ht.target
    obtain rfl := Option.some.inj (hsrv.symm.trans hsrv')
    exact Except.ok.inj (hlive'.symm.trans hlive)
  · intro proto port
    rw [ht.forwards, hs.forwards]
  · obtain ⟨specs, hspecs, hperm⟩ := hs.slots
    obtain ⟨specs', hspecs', hperm'⟩ := ht.slots
    obtain rfl := Except.ok.inj (hspecs.symm.trans hspecs')
    exact hperm'.trans hperm.symm
  · have hfallback := ht.fallback
    rw [hsessions] at hfallback
    exact Except.ok.inj (hfallback.symm.trans hs.fallback)

theorem Agrees.bootMode_eq (h : Agrees s t) :
  t.bootMode = s.bootMode
  := by
  rw [ControlState.bootMode, ControlState.bootMode, h.fallback]
  exact deriveMode_congr h.forwards _

/-- What boots is a config that keeps the rules, with slots that leave the body of the boot
alone. -/
theorem boots_iff (h : InStep files s cfg) :
  (∃ t, bootConfig files cfg = .ok t) ↔ Valid cfg ∧ s.Clear
  := by
  constructor
  · rintro ⟨t, hboot⟩
    obtain ⟨hvalid, hinStep, hmode⟩ := inStep_of_bootConfig hboot
    have hagrees := h.mirrors.agrees hinStep.mirrors
    refine ⟨hvalid, ?_⟩
    have hclear := hinStep.orderly.disjoint
    rw [hmode, hagrees.bootMode_eq] at hclear
    exact disjoint_of_perm hagrees.slots hclear
  · rintro ⟨hvalid, hclear⟩
    exact exists_bootConfig hvalid h hclear

/-- What a client could save boots to a client that runs the same. -/
theorem Persisted.boots (h : Persisted files s cfg) :
  ∃ t, bootText files cfg.serialize = .ok t ∧ Agrees s t ∧ t.active.mode = s.bootMode
  := by
  obtain ⟨t, hboot⟩ := (boots_iff h.inStep).mpr ⟨h.valid, h.clear⟩
  obtain ⟨-, hinStep, hmode⟩ := inStep_of_bootConfig hboot
  have hagrees := h.inStep.mirrors.agrees hinStep.mirrors
  refine ⟨t, ?_, hagrees, hmode.trans hagrees.bootMode_eq⟩
  rw [Host.bootText_serialize h.writable]
  exact hboot

end

namespace Host

variable {files : Files} {dht : Bool} {h k : Host} {op : HostOp}

/-- The messages of a run are careful. -/
def Careful (h : Host) : HostOp → Prop
  | .apply msg => h.control.Careful msg
  | _ => True

instance (h : Host) (op : HostOp) : Decidable (Careful h op) :=
  match op with
  | .apply msg => inferInstanceAs (Decidable (h.control.Careful msg))
  | .save _ | .land | .begin | .cancelled | .fail => inferInstanceAs (Decidable True)

/-- The client can be restarted: its config can be saved and booted from, and its file can be
booted from as it is. -/
structure Restartable (files : Files) (h : Host) : Prop where
  persisted : ∃ cfg, Persisted files h.control cfg
  file : ∃ t, bootText files h.file = .ok t

theorem restartable_step (hrestartable : Restartable files h) (hcareful : Careful h op)
    (hstep : h.step dht op = some k) :
  Restartable files k
  := by
  obtain ⟨⟨cfg, hcfg⟩, hfile⟩ := hrestartable
  rcases step_cases hstep with ⟨msg, rfl, hcontrol, hkept⟩ | ⟨hswitched, hwritten⟩
  · refine ⟨?_, hkept ▸ hfile⟩
    rw [hcontrol]
    rcases ControlState.answered_apply dht h.control msg with ⟨e, heq⟩ | ⟨haccepted, -⟩
    · rw [heq]
      exact ⟨cfg, hcfg⟩
    · exact hcfg.accepted hcareful haccepted
  · refine ⟨⟨cfg, hswitched.persisted hcfg⟩, ?_⟩
    rcases hwritten with hkept | hsaved
    · exact hkept ▸ hfile
    · obtain ⟨t, ht, -, -⟩ := hcfg.boots
      rw [hsaved, saved_eq hcfg.inStep.mirrors.config]
      exact ⟨t, ht⟩

theorem restartable_of_run {text : List Char} {s : ControlState}
    (hboot : bootText files text = .ok s) {ops : List HostOp}
    (hrun : Run (Meeting Careful fun h op k => step dht h op = some k) (start s text) ops h) :
  Restartable files h
  := by
  obtain ⟨cfg, -, -, hpersisted⟩ := inStep_of_bootText hboot
  refine hrun.invariant (I := Restartable files) ⟨⟨cfg, hpersisted⟩, ⟨s, hboot⟩⟩ ?_
  intro h op k hrestartable hstep
  exact restartable_step hrestartable hstep.1 hstep.2

/-- In every run of careful messages from a boot, the file can be booted from at every moment, and
what is saved boots to a client that runs the same, with the body that a connect would install. -/
theorem restart_runs_the_same {text : List Char} {s : ControlState}
    (hboot : bootText files text = .ok s) {ops : List HostOp}
    (hrun : Run (Meeting Careful fun h op k => step dht h op = some k) (start s text) ops h) :
  (∃ t, bootText files h.file = .ok t)
    ∧ ∃ t, bootText files h.saved = .ok t ∧ Agrees h.control t
      ∧ t.active.mode = h.control.bootMode
  := by
  obtain ⟨⟨cfg, hcfg⟩, hfile⟩ := restartable_of_run hboot hrun
  refine ⟨hfile, ?_⟩
  rw [saved_eq hcfg.inStep.mirrors.config]
  exact hcfg.boots

/-- A second forward is added, and the first one is removed. -/
def replaced : List HostOp :=
  [.apply (.addForward .udp 53 "" false 0 true), .save .done, .apply (.removeForward .tcp 8080),
    .save .failed]

/-- The first forward is gone, though the file still has it. -/
theorem restart_runs_the_same_replaced :
  ∃ (s : ControlState) (h : Host), bootText noFiles guarded.serialize = .ok s
    ∧ Run (Meeting Careful fun h op k => step false h op = some k) (start s guarded.serialize) replaced h
    ∧ h.control.forwards.get .tcp 8080 = none
    ∧ (∃ t, bootText noFiles h.file = .ok t)
    ∧ ∃ t, bootText noFiles h.saved = .ok t ∧ Agrees h.control t
      ∧ t.active.mode = h.control.bootMode
  := by
  have hview : ∃ s ∈ (bootConfig noFiles guarded).toOption,
      ∃ h ∈ execute Careful (step false) (start s guarded.serialize) replaced,
        h.control.forwards.get .tcp 8080 = none := by
    decide +kernel
  obtain ⟨s, hs, h, hh, hnone⟩ := hview
  have hboot : bootText noFiles guarded.serialize = .ok s := by
    rw [bootText_serialize writable_guarded]
    exact Config.ok_of_toOption hs
  have hrun := run_of_execute hh
  exact ⟨s, h, hboot, hrun, hnone, restart_runs_the_same hboot hrun⟩

/-- After a run of careful messages, what a further message leaves to be saved can be booted from
if and only if the message is refused or is careful itself. -/
theorem saved_boots_iff_careful {text : List Char} {s : ControlState}
    (hboot : bootText files text = .ok s) {ops : List HostOp}
    (hrun : Run (Meeting Careful fun h op k => step dht h op = some k) (start s text) ops h)
    {msg : ClientMsg} (hstep : h.step dht (.apply msg) = some k) :
  (∃ t, bootText files k.saved = .ok t)
    ↔ (∃ e, (h.control.apply dht msg).2 = .error (false, e)) ∨ h.control.Careful msg
  := by
  obtain ⟨⟨cfg, hcfg⟩, -⟩ := restartable_of_run hboot hrun
  have hcontrol := (step_apply hstep).1
  rcases ControlState.answered_apply dht h.control msg with ⟨e, heq⟩ | ⟨haccepted, hne⟩
  · rw [heq] at hcontrol
    refine ⟨fun _ => Or.inl ⟨e, by rw [heq]; rfl⟩, fun _ => ?_⟩
    obtain ⟨t, ht, -⟩ := hcfg.boots
    have hconfig := hcfg.inStep.mirrors.config
    rw [← show k.control = h.control from hcontrol] at hconfig
    rw [saved_eq hconfig]
    exact ⟨t, ht⟩
  · rw [← hcontrol] at haccepted
    obtain ⟨cfg', hinStep⟩ := hcfg.inStep.accepted haccepted
    have hconfig := hinStep.mirrors.config
    rw [saved_eq hconfig, bootText_serialize (writable_accepted hcfg haccepted hconfig),
      boots_iff hinStep]
    constructor
    · rintro ⟨hvalid, hclear⟩
      exact Or.inr (careful_of_valid hcfg haccepted hinStep hvalid hclear)
    · rintro (⟨e, hrefused⟩ | hcareful)
      · exact absurd hrefused (hne e)
      · exact ⟨valid_accepted hcfg hcareful haccepted hinStep,
          clear_accepted hcfg.clear hcareful haccepted⟩

/-- The removal of the last forward is accepted, and what it leaves to be saved does not boot. -/
theorem saved_boots_iff_careful_uncovered :
  ∃ (s : ControlState) (h k : Host), bootText noFiles guarded.serialize = .ok s
    ∧ Run (Meeting Careful fun h op k => step false h op = some k) (start s guarded.serialize)
      [.begin] h
    ∧ h.step false (.apply (.removeForward .tcp 8080)) = some k
    ∧ k.exchange = some .kickIfForwards
    ∧ ¬ ∃ t, bootText noFiles k.saved = .ok t
  := by
  have hview : ∃ s ∈ (bootConfig noFiles guarded).toOption,
      ∃ h ∈ execute Careful (step false) (start s guarded.serialize) [.begin],
        ∃ k ∈ h.step false (.apply (.removeForward .tcp 8080)),
          k.exchange = some .kickIfForwards
            ∧ (h.control.apply false (.removeForward .tcp 8080)).2 = .ok .kickIfForwards
            ∧ ¬ h.control.Careful (.removeForward .tcp 8080) := by
    decide +kernel
  obtain ⟨s, hs, h, hh, k, hk, hexchange, happlied, hcareless⟩ := hview
  have hboot : bootText noFiles guarded.serialize = .ok s := by
    rw [bootText_serialize writable_guarded]
    exact Config.ok_of_toOption hs
  have hrun := run_of_execute hh
  refine ⟨s, h, k, hboot, hrun, hk, hexchange, ?_⟩
  rw [saved_boots_iff_careful hboot hrun hk, not_or]
  refine ⟨?_, hcareless⟩
  rintro ⟨e, hrefused⟩
  rw [happlied] at hrefused
  exact absurd hrefused (by simp)

end Host

end ZeroNat.Client

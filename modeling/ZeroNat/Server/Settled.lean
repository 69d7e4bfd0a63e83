import ZeroNat.Server.Desk

/-!
# What is settled

However mutations, saves and reloads interleave, the listeners and the routes in memory are those
that the mutations ask for.  When every mutation was saved and every change of the file was taken
over, the file is read back as the settings in memory.  A reload puts what it has read in the
place of the clients, and so an edit that was made since the file it has read was put together
is lost unless no such edit was made.
-/

namespace ZeroNat

open Config (CfgClient CfgListener CfgRoute ServerConfig ServerTable Printable ok_of_toOption)

/-- A list of clients that can be put in the place of those of a server, and written. -/
structure Usable (s : Topology) (clients : List CfgClient) : Prop where
  resolves : ∃ t, s.resolve clients = .ok t
  sound : ∀ c ∈ clients, ServerConfig.ClientSound c

theorem Usable.of_fixed {s s' : Topology} {clients : List CfgClient} (h : Usable s clients)
    (hfixed : s'.fixed = s.fixed) :
  Usable s' clients where
  resolves := by
    rw [Topology.resolve_of_fixed hfixed]
    exact h.resolves
  sound := h.sound

theorem Usable.perm {s : Topology} {clients clients' : List CfgClient} (h : Usable s clients)
    (hperm : clients.Perm clients') :
  Usable s clients' where
  resolves := by
    obtain ⟨t, ht⟩ := h.resolves
    obtain ⟨t', ht', -⟩ := Topology.resolve_perm hperm ht
    exact ⟨t', ht'⟩
  sound := fun c hc => h.sound c (hperm.mem_iff.mpr hc)

namespace Draft

/-- What a save has taken can be written. -/
def Sound (s : Topology) : Draft → Prop
  | .locked => True
  | .listeners ls => (ls.map CfgListener.key).Nodup
  | .routes ls rs =>
      (ls.map CfgListener.key).Nodup ∧ (rs.map CfgRoute.key).Nodup
        ∧ ∀ r ∈ rs, Printable r.client
  | .clients ls rs cs _ => (Desk.drafted s.fileServer ls rs cs).Writable ∧ Usable s cs

/-- The listeners and the routes that a save has taken are those in memory. -/
def Current (s : Topology) : Draft → Prop
  | .locked => True
  | .listeners ls => ls = s.fileListeners
  | .routes ls rs => ls = s.fileListeners ∧ rs = s.fileRoutes
  | .clients ls rs _ _ => ls = s.fileListeners ∧ rs = s.fileRoutes

theorem Sound.of_fixed {s s' : Topology} {w : Draft} (h : w.Sound s)
    (hfixed : s'.fixed = s.fixed) :
  w.Sound s'
  := by
  cases w with
  | locked => trivial
  | listeners ls => exact h
  | routes ls rs => exact h
  | clients ls rs cs edits =>
      rw [Sound, Topology.fileServer_of_fixed hfixed]
      exact ⟨h.1, h.2.of_fixed hfixed⟩

theorem Current.congr {s s' : Topology} {w : Draft} (h : w.Current s)
    (hlisteners : s'.fileListeners = s.fileListeners) (hroutes : s'.fileRoutes = s.fileRoutes) :
  w.Current s'
  := by
  cases w with
  | locked => trivial
  | listeners ls => exact Eq.trans (b := s.fileListeners) h hlisteners.symm
  | routes ls rs => exact ⟨h.1.trans hlisteners.symm, h.2.trans hroutes.symm⟩
  | clients ls rs cs edits => exact ⟨h.1.trans hlisteners.symm, h.2.trans hroutes.symm⟩

end Draft

namespace Desk

open ZeroNat.Topology (Mutation BringsPrintable)

/-- What the file holds: clients that can be taken over, and, once the saves have ended, the
listeners and the routes in memory.  Its clients are those in memory when all has finished. -/
structure Held (d : Desk) (cfg : ServerConfig) : Prop where
  parsed : ServerConfig.parse d.text = .ok cfg
  server : cfg.server = d.topology.fileServer
  usable : Usable d.topology cfg.clients
  loaded : ∀ clients edits, d.watch = .loaded clients edits → d.pending = false →
    clients = cfg.clients
  tables : d.unsaved = 0 → d.draft = none → d.saved = true →
    cfg.listeners.Perm d.topology.fileListeners ∧ cfg.routes.Perm d.topology.fileRoutes
  clients : d.Finished → d.saved = true → cfg.clients.Perm d.topology.fileClients

/-- What holds at any time. -/
structure Sound (d : Desk) : Prop where
  backed : d.topology.fileBacked = true
  savable : d.topology.Savable
  resolved : d.topology.Resolved
  draft : ∀ w, d.draft = some w → w.Sound d.topology
  current : ∀ w, d.draft = some w → d.unsaved = 0 → w.Current d.topology
  loaded : ∀ clients edits, d.watch = .loaded clients edits → Usable d.topology clients
  text : ∃ cfg, d.Held cfg

/-- The clients in memory can be written and taken over again. -/
theorem Sound.usable {d : Desk} (h : d.Sound) :
  Usable d.topology d.topology.fileClients where
  resolves := ⟨_, h.resolved⟩
  sound := h.savable.clients

/-! ### Mutations -/

/-- A mutation that is not saved ends a session, and leaves the settings. -/
theorem accepted_of_not_isSaved {s s' : Topology} {m : Mutation} (hsaved : isSaved m.req = false)
    (h : s.Accepted m s') :
  s'.fileListeners = s.fileListeners ∧ s'.fileRoutes = s.fileRoutes
    ∧ s'.fileClients = s.fileClients
  := by
  obtain ⟨req, bound⟩ := m
  cases req with
  | disconnectClient clientId =>
      rw [Topology.Accepted, Topology.applyMutation] at h
      split at h
      · obtain rfl := Except.ok.inj h
        exact ⟨rfl, rfl, rfl⟩
      · exact absurd h (by simp)
  | _ => exact absurd hsaved (by simp [isSaved])

/-- After a mutation, a save is to come or the settings are as they were. -/
theorem unsaved_applied {d : Desk} {m : Mutation} {s : Topology}
    (hbacked : s.fileBacked = true) (h : d.topology.Accepted m s) :
  (d.applied m s).unsaved ≠ 0 ∨
    (d.applied m s).unsaved = d.unsaved ∧ s.fileListeners = d.topology.fileListeners
      ∧ s.fileRoutes = d.topology.fileRoutes ∧ s.fileClients = d.topology.fileClients
  := by
  rw [applied, hbacked, Bool.and_true]
  cases hsaved : isSaved m.req with
  | true => exact Or.inl (Nat.succ_ne_zero _)
  | false => exact Or.inr ⟨rfl, accepted_of_not_isSaved hsaved h⟩

theorem Sound.mutate {d : Desk} (h : d.Sound) {m : Mutation} (hm : d.topology.BringsPrintable m)
    {s : Topology} (hs : d.topology.Accepted m s) :
  (d.applied m s).Sound
  := by
  obtain ⟨-, hfixed⟩ := Topology.settings_accepted h.resolved hs
  have hbacked : s.fileBacked = true := (Topology.fileBacked_of_fixed hfixed).trans h.backed
  have hcases := unsaved_applied hbacked hs
  refine ⟨hbacked, h.savable.applyMutation hm hs, h.resolved.mutation hs, ?_, ?_, ?_, ?_⟩
  · exact fun w hw => (h.draft w hw).of_fixed hfixed
  · intro w hw hunsaved
    rcases hcases with hne | ⟨heq, hlisteners, hroutes, -⟩
    · exact absurd hunsaved hne
    · exact (h.current w hw (heq.symm.trans hunsaved)).congr hlisteners hroutes
  · exact fun clients edits hwatch => (h.loaded clients edits hwatch).of_fixed hfixed
  · obtain ⟨cfg, hcfg⟩ := h.text
    have hserver := hcfg.server.trans (Topology.fileServer_of_fixed hfixed).symm
    refine ⟨cfg, hcfg.parsed, hserver, hcfg.usable.of_fixed hfixed, hcfg.loaded, ?_, ?_⟩
    · intro hunsaved hdraft hsaved
      rcases hcases with hne | ⟨heq, hlisteners, hroutes, -⟩
      · exact absurd hunsaved hne
      · obtain ⟨hl, hr⟩ := hcfg.tables (heq.symm.trans hunsaved) hdraft hsaved
        exact ⟨hl.trans (.of_eq hlisteners.symm), hr.trans (.of_eq hroutes.symm)⟩
    · intro hfinished hsaved
      rcases hcases with hne | ⟨heq, -, -, hclients⟩
      · exact absurd hfinished.unsaved hne
      · have hbefore : d.Finished :=
          ⟨heq.symm.trans hfinished.unsaved, hfinished.draft, hfinished.pending,
            hfinished.watch⟩
        exact (hcfg.clients hbefore hsaved).trans (.of_eq hclients.symm)

/-! ### Saves -/

/-- While a save is under way, nothing is said of the file but that it can be taken over. -/
theorem Held.drafting {d d' : Desk} {cfg : ServerConfig} (h : d.Held cfg)
    (htopology : d'.topology = d.topology) (htext : d'.text = d.text)
    (hwatch : d'.watch = d.watch) (hpending : d'.pending = d.pending) (hdraft : d'.draft ≠ none) :
  d'.Held cfg where
  parsed := htext ▸ h.parsed
  server := htopology ▸ h.server
  usable := htopology ▸ h.usable
  loaded := by
    rw [hwatch, hpending]
    exact h.loaded
  tables := fun _ hnone => absurd hnone hdraft
  clients := fun hfinished => absurd hfinished.draft hdraft

theorem Sound.drafting {d : Desk} (h : d.Sound) (unsaved : ℕ) {w : Draft}
    (hw : w.Sound d.topology) (hcurrent : unsaved = 0 → w.Current d.topology) :
  { d with unsaved := unsaved, draft := some w }.Sound
  := by
  obtain ⟨cfg, hcfg⟩ := h.text
  refine ⟨h.backed, h.savable, h.resolved, ?_, ?_, h.loaded,
    cfg, hcfg.drafting rfl rfl rfl rfl (by simp)⟩
  · rintro w' hw'
    obtain rfl := Option.some.inj hw'
    exact hw
  · rintro w' hw' hunsaved
    obtain rfl := Option.some.inj hw'
    exact hcurrent hunsaved

theorem Sound.written {d : Desk} (h : d.Sound) {listeners : List CfgListener}
    {routes : List CfgRoute} {clients : List CfgClient} {edits : ℕ}
    (hdraft : d.draft = some (.clients listeners routes clients edits)) :
  { d with
    text := (drafted d.topology.fileServer listeners routes clients).serialize
    textEdits := edits
    draft := none
    saved := true
    pending := true }.Sound
  := by
  obtain ⟨hwritable, husable⟩ := h.draft _ hdraft
  refine ⟨h.backed, h.savable, h.resolved, by simp, by simp, h.loaded,
    (drafted d.topology.fileServer listeners routes clients).sorted,
    ServerConfig.parse_serialize hwritable, rfl, ?_, ?_, ?_, ?_⟩
  · exact husable.perm (Config.ordered_perm _ _).symm
  · intro clients' edits' _ hpending
    exact absurd hpending (by simp)
  · intro hunsaved _ _
    obtain ⟨hlisteners, hroutes⟩ := h.current _ hdraft hunsaved
    exact ⟨(Config.ordered_perm _ _).trans (.of_eq hlisteners),
      (Config.ordered_perm _ _).trans (.of_eq hroutes)⟩
  · intro hfinished
    exact absurd hfinished.pending (by simp)

theorem Sound.failed {d : Desk} (h : d.Sound) :
  { d with draft := none, saved := false }.Sound
  := by
  obtain ⟨cfg, hcfg⟩ := h.text
  refine ⟨h.backed, h.savable, h.resolved, by simp, by simp, h.loaded,
    cfg, hcfg.parsed, hcfg.server, hcfg.usable, hcfg.loaded, ?_, ?_⟩
  · intro _ _ hsaved
    exact absurd hsaved (by simp)
  · intro _ hsaved
    exact absurd hsaved (by simp)

/-! ### Reloads -/

theorem Sound.changed {d : Desk} (h : d.Sound) :
  { d with pending := false, watch := .changed }.Sound
  := by
  obtain ⟨cfg, hcfg⟩ := h.text
  refine ⟨h.backed, h.savable, h.resolved, h.draft, h.current, by simp,
    cfg, hcfg.parsed, hcfg.server, hcfg.usable, by simp, hcfg.tables, ?_⟩
  intro hfinished
  exact absurd hfinished.watch (by simp)

theorem Sound.load {d : Desk} (h : d.Sound) {cfg : ServerConfig}
    (hparsed : ServerConfig.parse d.text = .ok cfg) :
  { d with watch := .loaded cfg.clients d.textEdits }.Sound
  := by
  obtain ⟨cfg', hcfg⟩ := h.text
  obtain rfl := Except.ok.inj (hparsed.symm.trans hcfg.parsed)
  refine ⟨h.backed, h.savable, h.resolved, h.draft, h.current, ?_,
    cfg, hcfg.parsed, hcfg.server, hcfg.usable, ?_, hcfg.tables, ?_⟩
  · intro clients edits hwatch
    obtain ⟨rfl, -⟩ := Watch.loaded.inj hwatch
    exact hcfg.usable
  · intro clients edits hwatch _
    exact (Watch.loaded.inj hwatch).1.symm
  · intro hfinished
    exact absurd hfinished.watch (by simp)

/-- A reload takes over what it has read. -/
theorem exists_reload {d : Desk} (h : d.Sound) {clients : List CfgClient} {edits : ℕ}
    (hwatch : d.watch = .loaded clients edits) :
  ∃ s, (d.topology.updateClients fun _ => .ok clients) = .ok s ∧ s.fileClients = clients
    ∧ s.fixed = d.topology.fixed ∧ s.listeners = d.topology.listeners
    ∧ s.routes = d.topology.routes
  := by
  obtain ⟨t, ht⟩ := (h.loaded clients edits hwatch).resolves
  refine ⟨({ d.topology with fileClients := clients, credentials := t }).cancelAll
    (Topology.revoked d.topology.credentials t), ?_, rfl, rfl, rfl, rfl⟩
  rw [Topology.updateClients]
  simp only [ht, bind, Except.bind]

theorem fileListeners_congr {s s' : Topology} (h : s'.listeners = s.listeners) :
  s'.fileListeners = s.fileListeners
  := by
  rw [Topology.fileListeners, h, Topology.fileListeners]

theorem fileRoutes_congr {s s' : Topology} (h : s'.routes = s.routes) :
  s'.fileRoutes = s.fileRoutes
  := by
  rw [Topology.fileRoutes, h, Topology.fileRoutes]

theorem Sound.reload {d : Desk} (h : d.Sound) {clients : List CfgClient} {edits : ℕ}
    (hwatch : d.watch = .loaded clients edits) {s : Topology}
    (hs : (d.topology.updateClients fun _ => .ok clients) = .ok s) :
  { d with topology := s, watch := .waiting }.Sound
  := by
  obtain ⟨s', hs', hclients, hfixed, hlisteners, hroutes⟩ := exists_reload h hwatch
  obtain rfl := Except.ok.inj (hs'.symm.trans hs)
  have hl := fileListeners_congr hlisteners
  have hr := fileRoutes_congr hroutes
  refine ⟨(Topology.fileBacked_of_fixed hfixed).trans h.backed, ?_, ?_, ?_, ?_, by simp, ?_⟩
  · apply h.savable.updateClients hs
    rintro next hnext c hc
    obtain rfl := Except.ok.inj hnext
    exact ((h.loaded clients edits hwatch).sound c hc).id
  · exact Topology.Resolved.updateClients hs
  · exact fun w hw => (h.draft w hw).of_fixed hfixed
  · exact fun w hw hunsaved => (h.current w hw hunsaved).congr hl hr
  · obtain ⟨cfg, hcfg⟩ := h.text
    have hserver := hcfg.server.trans (Topology.fileServer_of_fixed hfixed).symm
    refine ⟨cfg, hcfg.parsed, hserver, hcfg.usable.of_fixed hfixed, by simp, ?_, ?_⟩
    · intro hunsaved hdraft hsaved
      obtain ⟨hpl, hpr⟩ := hcfg.tables hunsaved hdraft hsaved
      exact ⟨hpl.trans (.of_eq hl.symm), hpr.trans (.of_eq hr.symm)⟩
    · intro hfinished _
      rw [hclients, hcfg.loaded clients edits hwatch hfinished.pending]

theorem Sound.sessions {d : Desk} (h : d.Sound) (clients : Table String ClientHandle)
    (cancelled : List ℕ) :
  { d with topology := { d.topology with clients := clients, cancelled := cancelled } }.Sound
  := by
  obtain ⟨cfg, hcfg⟩ := h.text
  refine ⟨h.backed, ⟨h.savable.cli, h.savable.server, h.savable.clients, h.savable.routes⟩,
    h.resolved, ?_, ?_, ?_, cfg, hcfg.parsed, hcfg.server, hcfg.usable.of_fixed rfl,
    hcfg.loaded, hcfg.tables, ?_⟩
  · exact fun w hw => (h.draft w hw).of_fixed rfl
  · exact fun w hw hunsaved => (h.current w hw hunsaved).congr rfl rfl
  · exact fun clients edits hwatch => (h.loaded clients edits hwatch).of_fixed rfl
  · exact fun hfinished =>
      hcfg.clients ⟨hfinished.unsaved, hfinished.draft, hfinished.pending, hfinished.watch⟩

/-! ### Every step -/

/-- What a step does, at a desk of which all is sound. -/
inductive Moves (d : Desk) : Act → Desk → Prop where
  | applied {m : Mutation} {s : Topology} (h : d.topology.Accepted m s) :
      Moves d (.mutate m) (d.applied m s)
  | refused {a : Act} : Moves d a d
  | drafting {a : Act} (unsaved : ℕ) {w : Draft} (sound : w.Sound d.topology)
      (current : unsaved = 0 → w.Current d.topology)
      (taken : ∀ ls rs cs edits, w = .clients ls rs cs edits →
        cs = d.topology.fileClients ∧ edits = d.edits) :
      Moves d a { d with unsaved := unsaved, draft := some w }
  | written {ls : List CfgListener} {rs : List CfgRoute} {cs : List CfgClient} {edits : ℕ}
      (h : d.draft = some (.clients ls rs cs edits)) :
      Moves d .written { d with
        text := (drafted d.topology.fileServer ls rs cs).serialize
        textEdits := edits
        draft := none
        saved := true
        pending := true }
  | failed : Moves d .failed { d with draft := none, saved := false }
  | changed : Moves d .changed { d with pending := false, watch := .changed }
  | loaded {cfg : ServerConfig} (h : ServerConfig.parse d.text = .ok cfg) :
      Moves d .load { d with watch := .loaded cfg.clients d.textEdits }
  | reloaded {cs : List CfgClient} {edits : ℕ} {s : Topology}
      (hwatch : d.watch = .loaded cs edits)
      (h : (d.topology.updateClients fun _ => .ok cs) = .ok s) :
      Moves d .reload { d with topology := s, watch := .waiting }
  | sessions (clients : Table String ClientHandle) (cancelled : List ℕ) :
      Moves d (.sessions clients cancelled)
        { d with topology := { d.topology with clients := clients, cancelled := cancelled } }

theorem moves_of_step {d d' : Desk} {a : Act} (hd : d.Sound) (h : d.step a = some d') :
  d.Moves a d'
  := by
  have hwritable := hd.savable.writable
  cases a with
  | mutate m =>
      rw [step] at h
      split at h
      · rename_i s hs
        obtain rfl := Option.some.inj h
        exact .applied hs
      · obtain rfl := Option.some.inj h
        exact .refused
  | lock =>
      rw [step] at h
      split at h
      · exact absurd h (by simp)
      · obtain rfl := Option.some.inj h
        exact .drafting (d.unsaved - 1) trivial (fun _ => trivial) (by simp)
  | takeListeners =>
      rw [step] at h
      split at h
      · obtain rfl := Option.some.inj h
        exact .drafting d.unsaved hwritable.listeners (fun _ => rfl) (by simp)
      · exact absurd h (by simp)
  | takeRoutes =>
      rw [step] at h
      split at h
      · rename_i ls hdraft
        obtain rfl := Option.some.inj h
        exact .drafting d.unsaved ⟨hd.draft _ hdraft, hwritable.routes, hwritable.targets⟩
          (fun hunsaved => ⟨hd.current _ hdraft hunsaved, rfl⟩) (by simp)
      · exact absurd h (by simp)
  | takeClients =>
      rw [step] at h
      split at h
      · rename_i ls rs hdraft
        obtain rfl := Option.some.inj h
        obtain ⟨hlisteners, hroutes, htargets⟩ := hd.draft _ hdraft
        have hcurrent : d.unsaved = 0 → ls = d.topology.fileListeners
            ∧ rs = d.topology.fileRoutes := hd.current (.routes ls rs) hdraft
        refine .drafting d.unsaved ⟨⟨hwritable.server, hwritable.clients, hlisteners, hroutes,
          htargets⟩, hd.usable⟩ hcurrent ?_
        intro ls' rs' cs edits heq
        obtain ⟨-, -, rfl, rfl⟩ := Draft.clients.inj heq
        exact ⟨rfl, rfl⟩
      · exact absurd h (by simp)
  | written =>
      rw [step] at h
      split at h
      · rename_i ls rs cs edits hdraft
        obtain rfl := Option.some.inj h
        exact .written hdraft
      · exact absurd h (by simp)
  | failed =>
      rw [step] at h
      split at h
      · obtain rfl := Option.some.inj h
        exact .failed
      · exact absurd h (by simp)
  | changed =>
      rw [step] at h
      split at h
      · obtain rfl := Option.some.inj h
        exact .changed
      · exact absurd h (by simp)
  | load =>
      obtain ⟨cfg, hcfg⟩ := hd.text
      rw [step, hcfg.parsed] at h
      split at h
      · obtain rfl := Option.some.inj h
        exact .loaded hcfg.parsed
      · exact absurd h (by simp)
  | reload =>
      rw [step] at h
      split at h
      · rename_i cs edits hwatch
        obtain ⟨s, hs, -⟩ := exists_reload hd hwatch
        rw [hs] at h
        obtain rfl := Option.some.inj h
        exact .reloaded hwatch hs
      · exact absurd h (by simp)
  | sessions clients cancelled =>
      obtain rfl := Option.some.inj h
      exact .sessions clients cancelled

theorem Sound.step {d d' : Desk} {a : Act} (hd : d.Sound) (ha : d.Printable a)
    (h : d.step a = some d') :
  d'.Sound
  := by
  cases moves_of_step hd h with
  | applied hs => exact hd.mutate ha hs
  | refused => exact hd
  | drafting unsaved hsound hcurrent _ => exact hd.drafting unsaved hsound hcurrent
  | written hdraft => exact hd.written hdraft
  | failed => exact hd.failed
  | changed => exact hd.changed
  | loaded hparsed => exact hd.load hparsed
  | reloaded hwatch hs => exact hd.reload hwatch hs
  | sessions clients cancelled => exact hd.sessions clients cancelled

/-! ### The start -/

/-- A server with a config file, when its listeners have been started. -/
theorem sound_opened {text : List Char} {file : ServerConfig} {args : ServerArgs}
    {s : Topology} (bound : RouteKey → Except String Unit) (hbacked : args.fileBacked = true)
    (hfile : ServerConfig.parse text = .ok file) (hboot : Topology.boot args file = .ok s) :
  (opened text (s.start bound (bootListeners args file))).Sound
    ∧ (s.start bound (bootListeners args file)).fileServer = file.server
  := by
  have hwritable := ServerConfig.writable_of_parse hfile
  obtain ⟨hsavable, hserver⟩ := Topology.savable_boot hwritable hboot
  obtain ⟨hbacked', hclients⟩ := Topology.backed_boot hboot
  obtain ⟨hresolved, hback, hlist⟩ := Topology.started bound (bootListeners args file)
    (Topology.resolved_boot hboot)
  rw [hbacked', hbacked] at hback
  rw [hclients] at hlist
  obtain ⟨hstarted, hserver'⟩ := hsavable.start bound (bootListeners args file)
  have hresolves := hresolved
  rw [Topology.Resolved, hlist] at hresolves
  exact ⟨⟨hback, hstarted, hresolved, by simp [opened], by simp [opened], by simp [opened],
    file, hfile, (hserver'.trans hserver).symm, ⟨⟨_, hresolves⟩, hwritable.clients⟩,
    by simp [opened], by simp [opened], by simp [opened]⟩, hserver'.trans hserver⟩

/-! ### Nothing else changes the listeners and the routes -/

/-- What the mutations ask for that were applied since the start. -/
noncomputable def asked (start : Topology) (d : Desk) : Settings :=
  start.settings.afterAll start.fileBacked start.cliClients d.log

/-- What is asked for of the listeners and of the routes does not depend on the clients. -/
theorem after_congr (fileBacked : Bool) (cli : List CfgClient) {w w' : Settings}
    (hlisteners : w.listeners = w'.listeners) (hroutes : w.routes = w'.routes) (req : Msg) :
  (w.after fileBacked cli req).listeners = (w'.after fileBacked cli req).listeners
    ∧ (w.after fileBacked cli req).routes = (w'.after fileBacked cli req).routes
  := by
  cases req <;> simp [Settings.after, hlisteners, hroutes]

/-- The listeners and the routes in memory are those that the mutations ask for. -/
structure Tracks (start : Topology) (d : Desk) : Prop where
  fixed : d.topology.fixed = start.fixed
  listeners : d.topology.settings.listeners = (d.asked start).listeners
  routes : d.topology.settings.routes = (d.asked start).routes

theorem asked_applied {start : Topology} {d : Desk} (m : Mutation) (s : Topology) :
  (d.applied m s).asked start
    = (d.asked start).after start.fileBacked start.cliClients m.req
  := Settings.afterAll_snoc _ _ _ _ _

theorem Tracks.step {start : Topology} {d d' : Desk} {a : Act} (h : d.Tracks start)
    (hd : d.Sound) (hstep : d.step a = some d') :
  d'.Tracks start
  := by
  cases moves_of_step hd hstep with
  | @applied m s hs =>
      obtain ⟨hsettings, hfixed⟩ := Topology.settings_accepted hd.resolved hs
      rw [Topology.fileBacked_of_fixed h.fixed, Topology.cliClients_of_fixed h.fixed]
        at hsettings
      obtain ⟨hlisteners, hroutes⟩ := after_congr start.fileBacked start.cliClients
        h.listeners h.routes m.req
      refine ⟨hfixed.trans h.fixed, ?_, ?_⟩
      · rw [asked_applied, ← hlisteners, ← hsettings]
        rfl
      · rw [asked_applied, ← hroutes, ← hsettings]
        rfl
  | refused => exact h
  | drafting => exact ⟨h.fixed, h.listeners, h.routes⟩
  | written => exact ⟨h.fixed, h.listeners, h.routes⟩
  | failed => exact ⟨h.fixed, h.listeners, h.routes⟩
  | changed => exact ⟨h.fixed, h.listeners, h.routes⟩
  | loaded => exact ⟨h.fixed, h.listeners, h.routes⟩
  | reloaded hwatch hs =>
      obtain ⟨next, table, -, -, rfl⟩ := Topology.updateClients_eq_ok hs
      exact ⟨h.fixed, h.listeners, h.routes⟩
  | sessions => exact ⟨h.fixed, h.listeners, h.routes⟩

/-- The file is read back as the settings in memory, with the `server` table that was loaded. -/
def ReadBack (d : Desk) (server : ServerTable) : Prop :=
  ∃ cfg, ServerConfig.parse d.text = .ok cfg ∧ cfg.server = server
    ∧ cfg.listeners.Perm d.topology.fileListeners ∧ cfg.routes.Perm d.topology.fileRoutes
    ∧ cfg.clients.Perm d.topology.fileClients

/-- A mutation that adds a client with a secret of one byte repeated. -/
def addition (clientId : String) (byte : UInt8) : Mutation :=
  ⟨.addClient clientId (some (List.Vector.replicate 32 byte)), .ok ()⟩

/-- A listener is added while a client is being saved, and is saved after it. -/
def interleaved : List Act :=
  [.mutate (addition "laptop" 1), .lock, .takeListeners,
    .mutate ⟨.addListener ⟨0⟩ .tcp 80, .ok ()⟩, .takeRoutes, .takeClients, .written, .changed,
    .lock, .takeListeners, .takeRoutes, .load, .takeClients, .written, .reload, .changed, .load,
    .reload]

instance (d : Desk) : Decidable d.Finished :=
  decidable_of_iff (d.unsaved = 0 ∧ d.draft = none ∧ d.pending = false ∧ d.watch = .waiting)
    ⟨fun ⟨h₁, h₂, h₃, h₄⟩ => ⟨h₁, h₂, h₃, h₄⟩, fun ⟨h₁, h₂, h₃, h₄⟩ => ⟨h₁, h₂, h₃, h₄⟩⟩

/-- A reload takes over what it has read only while no client was edited since the file it has
read was put together. -/
def Timely (d : Desk) : Act → Prop
  | .reload =>
      match d.watch with
      | .loaded _ edits => edits = d.edits
      | _ => True
  | _ => True

instance (d : Desk) (a : Act) : Decidable (d.Timely a) :=
  match a with
  | .reload =>
      match h : d.watch with
      | .loaded _ edits => decidable_of_iff (edits = d.edits) (by rw [Timely, h])
      | .waiting | .changed => isTrue (by rw [Timely, h]; trivial)
  | .mutate _ | .lock | .takeListeners | .takeRoutes | .takeClients | .written | .failed
  | .changed | .load | .sessions _ _ => isTrue trivial

/-- The mutations bring no id with a control character into the file, and the reloads are
timely. -/
def Orderly (d : Desk) (a : Act) : Prop :=
  d.Printable a ∧ d.Timely a

instance (d : Desk) (a : Act) : Decidable (d.Orderly a) :=
  inferInstanceAs (Decidable (_ ∧ _))

/-- A list of clients with its number of edits: it is the list in memory, unless that was edited
since. -/
def Dated (d : Desk) (cs : List CfgClient) (edits : ℕ) : Prop :=
  edits ≤ d.edits ∧ (edits = d.edits → cs.Perm d.topology.fileClients)

/-- The clients in memory are those that the mutations ask for, and every list that is on its way
is dated. -/
structure Kept (start : Topology) (d : Desk) : Prop where
  clients : d.topology.settings.clients = (d.asked start).clients
  draft : ∀ ls rs cs edits, d.draft = some (.clients ls rs cs edits) → d.Dated cs edits
  text : ∀ cfg, ServerConfig.parse d.text = .ok cfg → d.Dated cfg.clients d.textEdits
  loaded : ∀ cs edits, d.watch = .loaded cs edits → d.Dated cs edits

theorem fileClients_of_not_isEdit {s s' : Topology} {m : Mutation} (hedit : isEdit m.req = false)
    (h : s.Accepted m s') :
  s'.fileClients = s.fileClients
  := by
  obtain ⟨req, bound⟩ := m
  rw [Topology.Accepted] at h
  cases req with
  | disconnectClient clientId => exact (accepted_of_not_isSaved rfl h).2.2
  | addListener bindIp proto port =>
      obtain rfl := Topology.bindListener_eq_ok h
      rfl
  | removeListener bindIp proto port =>
      simp only [Topology.applyMutation, Topology.applySyncMutation] at h
      split at h
      · exact absurd h (by simp)
      · rw [Topology.removeListener] at h
        split at h
        · obtain rfl := Except.ok.inj h
          rfl
        · exact absurd h (by simp)
  | setRoute bindIp proto port clientId =>
      obtain rfl := Except.ok.inj h
      rfl
  | clearRoute bindIp proto port =>
      obtain rfl := Except.ok.inj h
      rfl
  | addClient clientId secret => exact absurd hedit (by simp [isEdit])
  | setClientSecret clientId secret => exact absurd hedit (by simp [isEdit])
  | removeClient clientId => exact absurd hedit (by simp [isEdit])
  | _ => simp [Topology.applyMutation, Topology.applySyncMutation] at h

/-- A mutation leaves the clients, or counts as an edit of them. -/
theorem edits_applied {d : Desk} {m : Mutation} {s : Topology} (h : d.topology.Accepted m s) :
  (d.applied m s).edits = d.edits + 1
    ∨ (d.applied m s).edits = d.edits ∧ s.fileClients = d.topology.fileClients
  := by
  rw [applied]
  cases hedit : isEdit m.req with
  | true => exact Or.inl rfl
  | false => exact Or.inr ⟨rfl, fileClients_of_not_isEdit hedit h⟩

theorem Dated.applied {d : Desk} {m : Mutation} {s : Topology} {cs : List CfgClient} {edits : ℕ}
    (h : d.Dated cs edits) (hs : d.topology.Accepted m s) :
  (d.applied m s).Dated cs edits
  := by
  rcases edits_applied hs with hedits | ⟨hedits, hclients⟩
  · refine ⟨by rw [hedits]; exact h.1.trans (Nat.le_succ _), ?_⟩
    intro heq
    rw [hedits] at heq
    exact absurd h.1 (by omega)
  · refine ⟨h.1.trans hedits.ge, ?_⟩
    intro heq
    exact (h.2 (heq.trans hedits)).trans (.of_eq hclients.symm)

theorem Kept.step {start : Topology} {d d' : Desk} {a : Act} (h : d.Kept start)
    (hd : d.Sound) (htracks : d.Tracks start) (ha : d.Timely a) (hstep : d.step a = some d') :
  d'.Kept start
  := by
  cases moves_of_step hd hstep with
  | @applied m s hs =>
      obtain ⟨hsettings, -⟩ := Topology.settings_accepted hd.resolved hs
      rw [Topology.fileBacked_of_fixed htracks.fixed,
        Topology.cliClients_of_fixed htracks.fixed] at hsettings
      have hall : d.topology.settings = d.asked start :=
        Settings.ext htracks.listeners htracks.routes h.clients
      refine ⟨?_, ?_, ?_, ?_⟩
      · rw [asked_applied, ← hall, ← hsettings]
        rfl
      · exact fun ls rs cs edits hdraft => (h.draft ls rs cs edits hdraft).applied hs
      · exact fun cfg hparsed => (h.text cfg hparsed).applied hs
      · exact fun cs edits hwatch => (h.loaded cs edits hwatch).applied hs
  | refused => exact h
  | drafting unsaved _ _ htaken =>
      refine ⟨h.clients, ?_, h.text, h.loaded⟩
      intro ls rs cs edits hdraft
      obtain ⟨rfl, rfl⟩ := htaken ls rs cs edits (Option.some.inj hdraft)
      exact ⟨le_rfl, fun _ => .refl _⟩
  | @written ls rs cs edits hdraft =>
      have hdated := h.draft ls rs cs edits hdraft
      refine ⟨h.clients, by simp, ?_, h.loaded⟩
      intro cfg hparsed
      have hwritable := (hd.draft _ hdraft).1
      obtain rfl := Except.ok.inj
        (hparsed.symm.trans (ServerConfig.parse_serialize hwritable))
      exact ⟨hdated.1, fun heq => (Config.ordered_perm _ _).trans (hdated.2 heq)⟩
  | failed => exact ⟨h.clients, by simp, h.text, h.loaded⟩
  | changed => exact ⟨h.clients, h.draft, h.text, by simp⟩
  | @loaded cfg hparsed =>
      refine ⟨h.clients, h.draft, h.text, ?_⟩
      intro cs edits hwatch
      obtain ⟨rfl, rfl⟩ := Watch.loaded.inj hwatch
      exact h.text cfg hparsed
  | @reloaded cs edits s hwatch hs =>
      -- the list that was read is the one in memory, in the order of the file
      rw [Timely, hwatch] at ha
      have hperm := (h.loaded cs edits hwatch).2 ha
      obtain ⟨next, table, hnext, -, rfl⟩ := Topology.updateClients_eq_ok hs
      obtain rfl := Except.ok.inj hnext
      have hdated : ∀ {cs' edits'}, d.Dated cs' edits' → edits' ≤ d.edits
          ∧ (edits' = d.edits → cs'.Perm cs) :=
        fun hold => ⟨hold.1, fun heq => (hold.2 heq).trans hperm.symm⟩
      refine ⟨?_, ?_, ?_, by simp⟩
      · refine Eq.trans ?_ h.clients
        ext c
        exact hperm.mem_iff
      · exact fun ls rs cs' edits' hdraft => hdated (h.draft ls rs cs' edits' hdraft)
      · exact fun cfg hparsed => hdated (h.text cfg hparsed)
  | sessions => exact ⟨h.clients, h.draft, h.text, h.loaded⟩

theorem kept_opened {text : List Char} {file : ServerConfig} {start : Topology}
    (hfile : ServerConfig.parse text = .ok file) (hclients : start.fileClients = file.clients) :
  (opened text start).Kept start where
  clients := rfl
  draft := by simp [opened]
  text := by
    intro cfg hparsed
    obtain rfl := Except.ok.inj (hparsed.symm.trans hfile)
    exact ⟨le_rfl, fun _ => .of_eq hclients.symm⟩
  loaded := by simp [opened]

/-- A client is added after the watch has read the file and before it takes over what it has
read. -/
def overtaken : List Act :=
  [.mutate (addition "laptop" 1), .lock, .takeListeners, .takeRoutes, .takeClients, .written,
    .changed, .load, .mutate (addition "phone" 2), .reload,
    .lock, .takeListeners, .takeRoutes, .takeClients, .written, .changed, .load, .reload]

/-- A mutation asks for the client that it adds. -/
theorem mem_asked (start : Topology) {d : Desk} {clientId : String} {secret : Option (Bytes 32)}
    (h : d.log.getLast?.map Mutation.req = some (.addClient clientId secret)) :
  (⟨clientId, secret.map Secret.encode⟩ : CfgClient) ∈ (d.asked start).clients
  := by
  obtain ⟨m, hm, hreq⟩ := Option.map_eq_some_iff.mp h
  obtain ⟨log, hlog⟩ := List.getLast?_eq_some_iff.mp hm
  rw [asked, hlog, Settings.afterAll_snoc, hreq]
  exact Or.inr rfl

/-- A reload that is not timely loses the addition of a client: it was applied, its save has
ended well, and when all has finished the client is neither in memory nor in the file. -/
theorem overtaken_addition_lost :
  ∃ file s d, ServerConfig.parse Topology.plainFile = .ok file
    ∧ Topology.boot Topology.plainArgs file = .ok s
    ∧ Run (Meeting Printable Steps) (opened Topology.plainFile
      (s.start (fun _ => .ok ()) (bootListeners Topology.plainArgs file))) overtaken d
    ∧ d.Finished ∧ d.saved = true
    ∧ d.topology.settings
      ≠ d.asked (s.start (fun _ => .ok ()) (bootListeners Topology.plainArgs file))
  := by
  have hview : ∃ file ∈ (ServerConfig.parse Topology.plainFile).toOption,
      ∃ s ∈ (Topology.boot Topology.plainArgs file).toOption,
      ∃ d ∈ execute Printable step (opened Topology.plainFile
        (s.start (fun _ => .ok ()) (bootListeners Topology.plainArgs file))) overtaken,
      d.Finished ∧ d.saved = true ∧ (∀ c ∈ d.topology.fileClients, c.id ≠ "phone")
        ∧ d.log.getLast?.map Mutation.req = some (addition "phone" 2).req := by
    decide +kernel
  obtain ⟨file, hfile, s, hboot, d, hd, hfinished, hsaved, hlost, hlog⟩ := hview
  have hrun : Run (Meeting Printable Steps) _ _ d := run_of_execute hd
  refine ⟨file, s, d, ok_of_toOption hfile, ok_of_toOption hboot, hrun, hfinished, hsaved, ?_⟩
  intro heq
  have hmem := mem_asked (s.start (fun _ => .ok ()) (bootListeners Topology.plainArgs file)) hlog
  rw [← heq] at hmem
  exact hlost _ hmem rfl

end Desk

end ZeroNat

import ZeroNat.Upgrade.Docker

/-!
# What an upgrade keeps

The upgrade of the installer reads every setting of the container back, and runs the same container
again where no inspection fails.  The one of the program does not ask for the user, the dropped
capabilities, the security options and the volumes, so it never runs the same container again.
Neither looks at whether an inspection has failed before the old container is removed.
-/

namespace ZeroNat.Upgrade

open Config (lines trim splitWhitespace isWhitespace of_mem_splitWhitespace trim_word
  lines_append_of_ne)

/-! ### The options of a run -/

theorem find_flag (flag : Flag) :
  Flag.all.find? (·.text = flag.text) = some flag
  := by
  cases flag <;> decide

theorem text_ne_detach (flag : Flag) :
  flag.text ≠ "-d".toList
  := by
  cases flag <;> decide

theorem runOptions_option (flag : Flag) (value : List Char) (rest : List (List Char))
    (c : Container) :
  runOptions (option flag value ++ rest) c = runOptions rest (c.set value flag)
  := by
  change runOptions (flag.text :: value :: rest) c = _
  rw [runOptions.eq_def]
  dsimp only
  rw [if_neg (text_ne_detach flag), find_flag]

/-- What follows the options is the image and its command. -/
theorem runOptions_image (cmd : List (List Char)) (c : Container) :
  runOptions ([image] ++ cmd) c = some { c with image := image, cmd := cmd }
  := by
  have hflag : Flag.all.find? (·.text = image) = none := by
    decide
  have hdash : ¬ "-".toList <+: image := by
    decide
  change runOptions (image :: cmd) c = _
  rw [runOptions.eq_def]
  dsimp only
  rw [if_neg (by decide), hflag]
  exact if_neg hdash

theorem dockerRun_detached (args : List (List Char)) :
  dockerRun (["run".toList, "-d".toList] ++ args) = runOptions args .plain
  := by
  change dockerRun ("run".toList :: "-d".toList :: args) = _
  rw [dockerRun, if_pos rfl, runOptions.eq_def]
  exact if_pos rfl

/-- An option that is given for each of some values. -/
def Container.setAll (c : Container) (values : List (List Char)) : Flag → Container
  | .name => { c with name := values.getLast?.getD c.name }
  | .restart => { c with restart := values.getLast?.getD c.restart }
  | .network => { c with network := values.getLast?.getD c.network }
  | .user => { c with user := values.getLast?.getD c.user }
  | .capDrop => { c with capDrop := c.capDrop ++ values }
  | .securityOpt => { c with securityOpt := c.securityOpt ++ values }
  | .capAdd => { c with capAdd := c.capAdd ++ values }
  | .device => { c with devices := c.devices ++ values }
  | .volume => { c with binds := c.binds ++ values }
  | .envFile => { c with envFile := c.envFile ++ values }

theorem runOptions_flatMap (flag : Flag) (values : List (List Char)) (rest : List (List Char))
    (c : Container) :
  runOptions (values.flatMap (option flag) ++ rest) c = runOptions rest (c.setAll values flag)
  := by
  induction values generalizing c with
  | nil =>
      have hnone : c.setAll [] flag = c := by
        cases flag <;> simp [Container.setAll]
      rw [hnone]
      rfl
  | cons value values ih =>
      have hcons : (c.set value flag).setAll values flag = c.setAll (value :: values) flag := by
        cases flag <;> simp [Container.setAll, Container.set, List.getLast?_cons]
      rw [List.flatMap_cons, List.append_assoc, runOptions_option, ih, hcons]

/-- The policy of a restart and the network, as far as they are given. -/
def Container.withPolicy (c : Container) (restart network : List Char) : Container :=
  { c with
    restart := if restart ≠ [] ∧ restart ≠ "no".toList then restart else c.restart
    network := if network ≠ [] then network else c.network }

theorem runOptions_policyOptions (restart network : List Char) (rest : List (List Char))
    (c : Container) :
  runOptions (policyOptions restart network ++ rest) c
    = runOptions rest (c.withPolicy restart network)
  := by
  rw [policyOptions, Container.withPolicy, List.append_assoc]
  split
  · rw [runOptions_option]
    split
    · rw [runOptions_option]
      rfl
    · rfl
  · rw [List.nil_append]
    split
    · rw [runOptions_option]
      rfl
    · rfl

/-! ### The container of an install -/

/-- The capabilities that an install adds. -/
def addedCaps (cfg : InstallConfig) : List (List Char) :=
  if cfg.kind ≠ .ports then ["NET_ADMIN".toList, "NET_RAW".toList, "NET_BIND_SERVICE".toList]
  else if containerUser cfg = "0:0".toList then ["NET_BIND_SERVICE".toList]
  else []

/-- The container that an install runs. -/
def installed (cfg : InstallConfig) (sub : List Char) : Container where
  name := containerName
  restart := "unless-stopped".toList
  network := "host".toList
  user := containerUser cfg
  capDrop := ["ALL".toList]
  securityOpt := ["no-new-privileges".toList]
  capAdd := addedCaps cfg
  devices := if cfg.kind ≠ .ports then ["/dev/net/tun".toList] else []
  binds := if cfg.kind = .ports then [dataDir ++ ':' :: dataDir] else []
  envFile := [envFile]
  image := image
  cmd := splitWhitespace sub

theorem dockerRun_installArgs (cfg : InstallConfig) (sub : List Char) :
  dockerRun (installArgs cfg sub) = some (installed cfg sub)
  := by
  rw [installArgs, installed, addedCaps]
  simp only [List.append_assoc]
  rw [dockerRun_detached]
  simp only [runOptions_option]
  by_cases hkind : cfg.kind = .ports
  · by_cases huser : containerUser cfg = "0:0".toList
    · rw [if_neg (not_not.mpr hkind), if_pos huser, if_pos hkind, if_neg (not_not.mpr hkind),
        if_pos huser, if_neg (not_not.mpr hkind), if_pos hkind, runOptions_option,
        runOptions_option, runOptions_option, runOptions_image]
      rfl
    · rw [if_neg (not_not.mpr hkind), if_neg huser, if_pos hkind, if_neg (not_not.mpr hkind),
        if_neg huser, if_neg (not_not.mpr hkind), if_pos hkind, List.nil_append,
        runOptions_option, runOptions_option, runOptions_image]
      rfl
  · rw [if_pos hkind, if_neg hkind, if_pos hkind, if_pos hkind, if_neg hkind, List.nil_append]
    simp only [List.append_assoc, runOptions_option, runOptions_image]
    rfl

/-! ### What is read back -/

/-- Every value is a word: it is not empty and has no white space in it. -/
def Container.Words (c : Container) : Prop :=
  ∀ s, ∀ w ∈ c.values s, w ≠ [] ∧ ∀ x ∈ w, isWhitespace x = false

/-- The words of a fixed list. -/
theorem words_of_all {ws : List (List Char)}
    (h : ws.all (fun w => !w.isEmpty && w.all fun x => !isWhitespace x) = true) :
  ∀ w ∈ ws, w ≠ [] ∧ ∀ x ∈ w, isWhitespace x = false
  := by
  intro w hw
  have hword := List.all_eq_true.mp h w hw
  rw [Bool.and_eq_true_iff, List.all_eq_true] at hword
  refine ⟨?_, ?_⟩
  · rintro rfl
    cases hword.1
  · intro x hx
    rw [← Bool.not_eq_true']
    exact hword.2 x hx

theorem ne_feed_of_word {w : List Char} (hw : ∀ x ∈ w, isWhitespace x = false) :
  ∀ x ∈ w, x ≠ '\n' ∧ x ≠ '\r'
  := by
  intro x hx
  have hblank := hw x hx
  constructor
  · rintro rfl
    cases hblank
  · rintro rfl
    cases hblank

theorem lines_flatMap {ws : List (List Char)} (h : ∀ w ∈ ws, ∀ x ∈ w, isWhitespace x = false) :
  lines (ws.flatMap (fun w => w ++ ['\n']) ++ ['\n']) = ws ++ [[]]
  := by
  induction ws with
  | nil => simp [lines]
  | cons w ws ih =>
      have hrest := ih fun v hv => h v (List.mem_cons_of_mem w hv)
      rw [List.flatMap_cons, List.append_assoc, List.append_assoc, List.singleton_append,
        lines_append_of_ne (ne_feed_of_word (h w List.mem_cons_self)), hrest, List.cons_append]

theorem lines_singleton {w : List Char} (h : ∀ x ∈ w, isWhitespace x = false) :
  lines (w ++ ['\n']) = [w]
  := by
  rw [lines_append_of_ne (ne_feed_of_word h)]
  simp [lines]

/-- The lines of an inspection are the values, but for an empty one. -/
theorem lines_inspected {c : Container} (h : c.Words) (s : Setting) :
  ∃ rest, lines (c.inspected s) = c.values s ++ rest ∧ ∀ l ∈ rest, l = []
  := by
  have hmany : ∀ ws : List (List Char), (∀ w ∈ ws, ∀ x ∈ w, isWhitespace x = false) →
      ∃ rest, lines (ws.flatMap (fun w => w ++ ['\n']) ++ ['\n']) = ws ++ rest ∧
        ∀ l ∈ rest, l = [] := by
    intro ws hws
    exact ⟨[[]], lines_flatMap hws, fun l hl => List.mem_singleton.mp hl⟩
  have hone : ∀ w : List Char, (∀ x ∈ w, isWhitespace x = false) →
      ∃ rest, lines (w ++ ['\n']) = [w] ++ rest ∧ ∀ l ∈ rest, l = [] := by
    intro w hw
    refine ⟨[], ?_, fun l hl => nomatch hl⟩
    rw [lines_singleton hw, List.append_nil]
  have hwords : ∀ w ∈ c.values s, ∀ x ∈ w, isWhitespace x = false := fun w hw => (h s w hw).2
  cases s with
  | user => exact hone c.user (hwords _ List.mem_cons_self)
  | network => exact hone c.network (hwords _ List.mem_cons_self)
  | restart => exact hone c.restart (hwords _ List.mem_cons_self)
  | cmd => exact hmany c.cmd hwords
  | capAdd => exact hmany c.capAdd hwords
  | capDrop => exact hmany c.capDrop hwords
  | securityOpt => exact hmany c.securityOpt hwords
  | devices => exact hmany c.devices hwords
  | binds => exact hmany c.binds hwords

section ReadBack

variable {fails : Command → Bool} {h : Host} {n : ℕ} {c : Container}

theorem inspectLines_eq (hc : h.container = some (n, c)) (hwords : c.Words) {s : Setting}
    (hs : fails (.inspect s) = false) :
  inspectLines fails h s = c.values s
  := by
  obtain ⟨rest, hlines, hrest⟩ := lines_inspected hwords s
  have htrim : (c.values s).map trim = c.values s := by
    refine (List.map_congr_left ?_).trans (List.map_id _)
    intro w hw
    exact trim_word (hwords s w hw).1 (hwords s w hw).2
  have hvalues : (c.values s).filter (· ≠ []) = c.values s := by
    rw [List.filter_eq_self]
    intro w hw
    exact decide_eq_true (hwords s w hw).1
  have hempty : (rest.map trim).filter (· ≠ []) = [] := by
    rw [List.filter_eq_nil_iff]
    intro w hw
    obtain ⟨l, hl, rfl⟩ := List.mem_map.mp hw
    rw [hrest l hl]
    decide
  rw [inspectLines, hc]
  dsimp only
  rw [hs, if_neg Bool.false_ne_true, hlines, List.map_append, List.filter_append, htrim, hvalues,
    hempty, List.append_nil]

theorem words_installed (cfg : InstallConfig) (sub : List Char) :
  (installed cfg sub).Words
  := by
  have huser : containerUser cfg = "65532:65532".toList ∨ containerUser cfg = "0:0".toList := by
    rw [containerUser]
    exact ite_eq_or_eq _ _ _
  intro s
  cases s with
  | cmd =>
      intro w hw
      exact of_mem_splitWhitespace hw
  | user =>
      change ∀ w ∈ [containerUser cfg], _
      obtain huser | huser := huser
      · rw [huser]
        exact words_of_all (by decide)
      · rw [huser]
        exact words_of_all (by decide)
  | capAdd =>
      change ∀ w ∈ addedCaps cfg, _
      rw [addedCaps]
      split
      · exact words_of_all (by decide)
      · split
        · exact words_of_all (by decide)
        · exact words_of_all (by decide)
  | capDrop =>
      change ∀ w ∈ ["ALL".toList], _
      exact words_of_all (by decide)
  | securityOpt =>
      change ∀ w ∈ ["no-new-privileges".toList], _
      exact words_of_all (by decide)
  | devices =>
      change ∀ w ∈ (if cfg.kind ≠ .ports then ["/dev/net/tun".toList] else []), _
      split
      · exact words_of_all (by decide)
      · exact words_of_all (by decide)
  | binds =>
      change ∀ w ∈ (if cfg.kind = .ports then [dataDir ++ ':' :: dataDir] else []), _
      split
      · exact words_of_all (by decide)
      · exact words_of_all (by decide)
  | network =>
      change ∀ w ∈ ["host".toList], _
      exact words_of_all (by decide)
  | restart =>
      change ∀ w ∈ ["unless-stopped".toList], _
      exact words_of_all (by decide)

end ReadBack

/-! ### What is kept -/

/-- The settings that the upgrade of the program reads back. -/
def runReads : List Setting :=
  [.cmd, .capAdd, .devices, .network, .restart]

/-- The settings that the upgrade of the installer reads back. -/
def containerReads : List Setting :=
  [.cmd, .user, .capAdd, .capDrop, .securityOpt, .devices, .binds, .network, .restart]

/-- An upgrade that succeeds leaves a container that was run with the same settings, and one that
could not read some setting back leaves the old container. -/
structure Keeps (upgrade : (Command → Bool) → Host → Except Stop Unit × Host)
    (reads : List Setting) (fails : Command → Bool) (n : ℕ) (old : Container) : Prop where
  same : (upgrade fails ⟨some (n, old), true⟩).1 = .ok () →
    (upgrade fails ⟨some (n, old), true⟩).2.container.map Prod.snd = some old
  unread : (∃ s ∈ reads, fails (.inspect s) = true) →
    (upgrade fails ⟨some (n, old), true⟩).2.container = some (n, old)

section Keeps

variable {upgrade : (Command → Bool) → Host → Except Stop Unit × Host} {reads : List Setting}
  {fails : Command → Bool} {n : ℕ} {old : Container}

/-- An upgrade that removes the old container keeps it just when it does not come to a new one or
the new one is the same, and every setting was read. -/
theorem keeps_replace_iff {args : List (List Char)} {c : Container}
    (hupgrade : upgrade fails ⟨some (n, old), true⟩ = replace fails ⟨some (n, old), true⟩ args)
    (hargs : dockerRun args = some c) :
  Keeps upgrade reads fails n old ↔ fails .rm = true ∨
    (fails .run = true ∨ c = old) ∧ ∀ s ∈ reads, fails (.inspect s) = false
  := by
  have hread : (∀ s ∈ reads, fails (.inspect s) = false) ↔
      ¬ ∃ s ∈ reads, fails (.inspect s) = true := by
    simp
  have hkeeps : Keeps upgrade reads fails n old ↔
      ((replace fails ⟨some (n, old), true⟩ args).1 = .ok () →
        (replace fails ⟨some (n, old), true⟩ args).2.container.map Prod.snd = some old) ∧
      ((∃ s ∈ reads, fails (.inspect s) = true) →
        (replace fails ⟨some (n, old), true⟩ args).2.container = some (n, old)) := by
    rw [← hupgrade]
    exact ⟨fun h => ⟨h.same, h.unread⟩, fun h => ⟨h.1, h.2⟩⟩
  rw [hkeeps, hread, replace, hargs]
  dsimp only
  cases fails .rm with
  | true => simp
  | false =>
      cases fails .run with
      | true => simp
      | false => simp

end Keeps

section Upgrades

variable {cfg : InstallConfig} {sub : List Char} {fails : Command → Bool} {n : ℕ}

theorem dockerRun_recreateRun (restart network : List Char) (caps devices cmd : List (List Char)) :
  dockerRun (["run".toList, "-d".toList] ++ option .name containerName
      ++ policyOptions restart network ++ caps.flatMap (option .capAdd)
      ++ devices.flatMap (option .device) ++ option .envFile envFile ++ [image] ++ cmd)
    = some { ((((Container.plain.set containerName .name).withPolicy restart network).setAll
        caps .capAdd).setAll devices .device).set envFile .envFile with image := image, cmd := cmd }
  := by
  simp only [List.append_assoc]
  rw [dockerRun_detached, runOptions_option, runOptions_policyOptions, runOptions_flatMap,
    runOptions_flatMap, runOptions_option, runOptions_image]

/-- The upgrade of the program runs a container that drops no capability. -/
theorem exists_recreateRun (fails : Command → Bool) (n : ℕ) (old : Container) :
  ∃ args c, recreateRun fails ⟨some (n, old), true⟩ = replace fails ⟨some (n, old), true⟩ args ∧
    dockerRun args = some c ∧ c.capDrop = []
  := ⟨_, _, rfl, dockerRun_recreateRun _ _ _ _ _, rfl⟩

/-- The user, if there is one. -/
def Container.withUser (c : Container) (user : List Char) : Container :=
  { c with user := if user ≠ [] then user else c.user }

theorem runOptions_user (user : List Char) (rest : List (List Char)) (c : Container) :
  runOptions ((if user ≠ [] then option .user user else []) ++ rest) c
    = runOptions rest (c.withUser user)
  := by
  rw [Container.withUser]
  split
  · rw [runOptions_option]
    rfl
  · rfl

/-- The container that the upgrade of the installer runs. -/
def rebuilt (restart network user : List Char)
    (capDrops securityOpts caps devices binds cmd : List (List Char)) : Container :=
  let c := ((Container.plain.set containerName .name).withPolicy restart network).withUser user
  { ((((((c.setAll capDrops .capDrop).setAll securityOpts .securityOpt).setAll caps
      .capAdd).setAll devices .device).setAll binds .volume).set envFile .envFile) with
    image := image, cmd := cmd }

theorem dockerRun_recreateContainer (restart network user : List Char)
    (capDrops securityOpts caps devices binds cmd : List (List Char)) :
  dockerRun (["run".toList, "-d".toList] ++ option .name containerName
      ++ policyOptions restart network ++ (if user ≠ [] then option .user user else [])
      ++ capDrops.flatMap (option .capDrop) ++ securityOpts.flatMap (option .securityOpt)
      ++ caps.flatMap (option .capAdd) ++ devices.flatMap (option .device)
      ++ binds.flatMap (option .volume) ++ option .envFile envFile ++ [image] ++ cmd)
    = some (rebuilt restart network user capDrops securityOpts caps devices binds cmd)
  := by
  simp only [List.append_assoc]
  rw [dockerRun_detached, runOptions_option, runOptions_policyOptions, runOptions_user,
    runOptions_flatMap, runOptions_flatMap, runOptions_flatMap, runOptions_flatMap,
    runOptions_flatMap, runOptions_option, runOptions_image]
  rfl

/-- The upgrade of the installer runs the same container where it could read every setting. -/
theorem exists_recreateContainer (cfg : InstallConfig) (sub : List Char) (fails : Command → Bool)
    (n : ℕ) :
  ∃ args c, recreateContainer fails ⟨some (n, installed cfg sub), true⟩
      = replace fails ⟨some (n, installed cfg sub), true⟩ args ∧
    dockerRun args = some c ∧
    ((∀ s ∈ containerReads, fails (.inspect s) = false) → c = installed cfg sub)
  := by
  refine ⟨_, _, rfl, dockerRun_recreateContainer _ _ _ _ _ _ _ _ _, ?_⟩
  intro hreads
  have hall : ∀ s, inspectLines fails ⟨some (n, installed cfg sub), true⟩ s
      = (installed cfg sub).values s := by
    intro s
    refine inspectLines_eq rfl (words_installed cfg sub) (hreads s ?_)
    cases s <;> decide
  have hone : ∀ s default value, (installed cfg sub).values s = [value] →
      inspectOne fails ⟨some (n, installed cfg sub), true⟩ s default = value := by
    intro s default value hvalue
    rw [inspectOne, hall, hvalue]
    rfl
  have hpolicy : ∀ c : Container, c.withPolicy "unless-stopped".toList "host".toList
      = { c with restart := "unless-stopped".toList, network := "host".toList } := by
    intro c
    rw [Container.withPolicy, if_pos (by decide), if_pos (by decide)]
  have huser : ∀ c : Container, c.withUser (containerUser cfg)
      = { c with user := containerUser cfg } := by
    intro c
    rw [Container.withUser,
      if_pos (words_installed cfg sub .user (containerUser cfg) List.mem_cons_self).1]
  rw [hone .restart _ "unless-stopped".toList rfl, hone .network _ "host".toList rfl,
    hone .user _ (containerUser cfg) rfl, rebuilt, hpolicy, huser]
  simp only [hall]
  rfl

/-- An upgrade keeps the container of an install just when the old container cannot be removed, or,
for the installer, every setting was read back, and for the program, every one that it asks for was
but the new container cannot be run. -/
theorem upgrades_keep_iff {old : Container} (hold : dockerRun (installArgs cfg sub) = some old)
    (fails fails' : Command → Bool) (n : ℕ) :
  Keeps recreateRun runReads fails n old ∧ Keeps recreateContainer containerReads fails' n old ↔
    (fails .rm = true ∨ fails .run = true ∧ ∀ s ∈ runReads, fails (.inspect s) = false) ∧
    (fails' .rm = true ∨ ∀ s ∈ containerReads, fails' (.inspect s) = false)
  := by
  rw [dockerRun_installArgs, Option.some.injEq] at hold
  subst hold
  obtain ⟨args, c, hrun, hargs, hdrops⟩ := exists_recreateRun fails n (installed cfg sub)
  obtain ⟨args', c', hrun', hargs', hsame⟩ := exists_recreateContainer cfg sub fails' n
  have hdiffers : c ≠ installed cfg sub := by
    rintro rfl
    cases hdrops
  have hboth : (fails' .run = true ∨ c' = installed cfg sub) ∧
      (∀ s ∈ containerReads, fails' (.inspect s) = false) ↔
      ∀ s ∈ containerReads, fails' (.inspect s) = false :=
    and_iff_right_of_imp fun hreads => .inr (hsame hreads)
  rw [keeps_replace_iff hrun hargs, keeps_replace_iff hrun' hargs', or_iff_left hdiffers, hboth]

end Upgrades

/-- A server with a port to forward. -/
def portServer : InstallConfig :=
  ⟨.server, .ports, "2222".toList, "8443/tcp".toList⟩

theorem upgrades_keep_unremoved :
  Keeps recreateRun runReads (· = .rm) 0 (installed portServer "server".toList) ∧
    Keeps recreateContainer containerReads (fun _ => false) 0
      (installed portServer "server".toList)
  := (upgrades_keep_iff (dockerRun_installArgs _ _) _ _ 0).mpr
    ⟨.inl (by decide), .inr (by decide)⟩

/-- The upgrade of the program runs a container that drops no capability, where nothing fails. -/
theorem capabilities_not_dropped :
  (recreateRun (fun _ => false) ⟨some (0, installed portServer "server".toList), true⟩).1 = .ok () ∧
    ¬ Keeps recreateRun runReads (fun _ => false) 0 (installed portServer "server".toList)
  := by
  obtain ⟨args, c, hrun, hargs, hdrops⟩ := exists_recreateRun (fun _ => false) 0
    (installed portServer "server".toList)
  refine ⟨?_, ?_⟩
  · rw [hrun, replace, hargs]
    rfl
  · rw [keeps_replace_iff hrun hargs]
    rintro (hrm | ⟨hrun | hsame, _⟩)
    · cases hrm
    · cases hrun
    · rw [hsame] at hdrops
      cases hdrops

end ZeroNat.Upgrade

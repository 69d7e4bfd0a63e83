import ZeroNat.Netfilter.Teardown

/-!
# What an install leaves behind

An install is to end with every rule of one backend once and none of the other, or with no rule
at all.  The copies of the rules of the plan that an earlier run has left, and that this install
does not remove, are counted, and what it adds itself.  A failed install by iptables does not
take back the rules it has added.
-/

namespace ZeroNat.Netfilter

/-! ### The purpose -/

/-- A rule of Docker's chain that accepts what some words say. -/
def DockerRule.accepts (r : DockerRule) (ws : List (List Char)) : Bool :=
  r.words = ws ∧ r.Tagged

/-- The copies of a rule in the table of the plan. -/
def Host.inTable (h : Host) (r : NftRule) : ℕ :=
  (h.table.getD []).count r

/-- The copies of an accept in Docker's chain in nftables. -/
def Host.inDocker (h : Host) (ws : List (List Char)) : ℕ :=
  (h.docker.getD []).countP (·.accepts ws)

/-- The copies of a rule in its chain of iptables. -/
def Host.inChain (h : Host) (r : IptRule) : ℕ :=
  ((h.chains r.chain).getD []).count r.args

/-- No rule of the plan is in nftables. -/
def NftNone (plan : NatPlan) (h : Host) : Prop :=
  (∀ r ∈ nftScript plan, h.inTable r = 0) ∧ ∀ ws ∈ nftDockerUserScript plan, h.inDocker ws = 0

/-- No rule of the plan is in iptables. -/
def IptNone (plan : NatPlan) (h : Host) : Prop :=
  ∀ r ∈ iptablesRules plan true, h.inChain r = 0

/-- Every rule of the plan is in nftables once, the accepts if Docker's chain is there. -/
def NftOnce (plan : NatPlan) (h : Host) : Prop :=
  (∀ r ∈ nftScript plan, h.inTable r = 1) ∧
    (h.docker.isSome → ∀ ws ∈ nftDockerUserScript plan, h.inDocker ws = 1)

/-- Every rule of the plan is in iptables once, the accepts if Docker's chain is there. -/
def IptOnce (plan : NatPlan) (h : Host) : Prop :=
  ∀ r ∈ iptablesRules plan (h.chains .filterDockerUser).isSome, h.inChain r = 1

/-- The rules of the plan are those of one backend, or there are none. -/
def Outcome.Meets (plan : NatPlan) (h : Host) : Outcome → Prop
  | installed .nft => NftOnce plan h ∧ IptNone plan h
  | installed .iptables => IptOnce plan h ∧ NftNone plan h
  | degraded => NftNone plan h ∧ IptNone plan h

/-! ### What is left from before -/

section Left

variable (fails : Command → Bool) (h : Host)

/-- The script is applied. -/
def nftWorks : Bool :=
  !fails .nftVersion && !fails .script

/-- The copies of a rule in the table that are not removed. -/
def leftInTable (r : NftRule) : ℕ :=
  if fails .nftVersion || fails .deleteTable then h.inTable r else 0

/-- The copies of an accept in Docker's chain that are not removed. -/
def leftInDocker (ws : List (List Char)) : ℕ :=
  (h.docker.getD []).countP fun r =>
    r.accepts ws && (fails .nftVersion || fails .listDocker || fails (.deleteHandle r.handle))

/-- The accepts are inserted into Docker's chain. -/
def dockerInserted : Bool :=
  !fails .dockerExists && !fails .dockerScript

/-- The copies of a rule in its chain that a flush does not remove. -/
def leftInChain (r : IptRule) : ℕ :=
  ((h.chains r.chain).getD []).zipIdx.countP fun x =>
    x.1 = r.args && (fails .iptablesVersion || fails (.listChain r.chain)
      || fails (.deleteRule r.chain (x.2 + 1)))

/-- The rule can be added. -/
def addable (r : IptRule) : Bool :=
  (h.chains r.chain).isSome && !fails (.add r)

variable (plan : NatPlan)

/-- The rules that are added one by one. -/
def addedRules : List IptRule :=
  iptablesRules plan (dockerUserFound fails h)

/-- What an install needs to meet its purpose.  No copy from before is left; where the accepts
of Docker's chain are not inserted, one copy of each is.  And by iptables either every rule can
be added or already the first cannot. -/
def Clean : Prop :=
  if nftWorks fails then
    (∀ r ∈ nftScript plan, leftInTable fails h r = 0) ∧
      (h.docker.isSome → ∀ ws ∈ nftDockerUserScript plan,
        leftInDocker fails h ws = if dockerInserted fails then 0 else 1) ∧
      IptNone plan h
  else
    ((∀ r ∈ nftScript plan, leftInTable fails h r = 0) ∧
      ∀ ws ∈ nftDockerUserScript plan, leftInDocker fails h ws = 0) ∧
    if fails .iptablesVersion = false ∧ ∀ r ∈ addedRules fails h plan, addable fails h r = true then
      ∀ r ∈ iptablesRules plan (h.chains .filterDockerUser).isSome,
        leftInChain fails h r = if r ∈ addedRules fails h plan then 0 else 1
    else
      (∀ r ∈ iptablesRules plan true, leftInChain fails h r = 0) ∧
        (fails .iptablesVersion = false →
          ∀ r ∈ (addedRules fails h plan).head?, addable fails h r = false)

end Left

/-! ### The rules of a plan are distinct -/

theorem nodup_nftScript (plan : NatPlan) :
  (nftScript plan).Nodup
  := by
  rw [nftScript]
  cases plan.dnat with
  | none =>
      cases plan.egress with
      | none => simp [words]
      | some egress => simp [words]
  | some dnat =>
      cases plan.egress with
      | none => simp [words]
      | some egress => simp [words]

theorem nodup_nftDockerUserScript (plan : NatPlan) :
  (nftDockerUserScript plan).Nodup
  := by
  simp [nftDockerUserScript, words]

theorem nodup_iptablesRules (plan : NatPlan) (dockerUser : Bool) :
  ((iptablesRules plan dockerUser).map fun r => (r.chain, r.args)).Nodup
  := by
  rw [iptablesRules]
  cases plan.dnat with
  | none =>
      cases plan.egress with
      | none => cases dockerUser <;> simp [words, bothWays, rule]
      | some egress => cases dockerUser <;> simp [words, bothWays, rule]
  | some dnat =>
      cases plan.egress with
      | none => cases dockerUser <;> simp [words, bothWays, rule, dnatRules]
      | some egress => cases dockerUser <;> simp [words, bothWays, rule, dnatRules]

/-! ### The part of nftables -/

section Nft

variable {fails : Command → Bool} {plan : NatPlan} {h : Host}

theorem found_of_accepts {r : DockerRule} {ws : List (List Char)} (hr : r.accepts ws = true) :
  r.Found
  := by
  rw [DockerRule.accepts, decide_eq_true_iff] at hr
  exact DockerRule.found_of_tagged hr.2

/-- The deletion leaves the accepts whose deletion fails. -/
theorem inDocker_delete (hh : h.DistinctHandles) (ws : List (List Char)) :
  (nftDeleteDockerUserRules fails h).inDocker ws
    = (h.docker.getD []).countP fun r =>
        r.accepts ws && (fails .listDocker || fails (.deleteHandle r.handle))
  := by
  rw [nftDeleteDockerUserRules, Host.inDocker]
  cases hlist : fails .listDocker with
  | true =>
      rw [if_pos rfl]
      simp
  | false =>
      rw [if_neg Bool.false_ne_true]
      cases hdocker : h.docker with
      | none => rfl
      | some rules =>
          simp only [Option.map_some, Option.getD_some, Bool.false_or]
          rw [deleteListed_eq fails (hh rules hdocker), List.countP_filter]
          apply List.countP_congr
          intro r _
          cases hr : r.accepts ws with
          | false => simp
          | true => simp [found_of_accepts hr]

theorem countP_foldl_insertAccept (ws : List (List Char)) (script : List (List (List Char)))
    (rules : List DockerRule) :
  (script.foldl insertAccept rules).countP (·.accepts ws)
    = rules.countP (·.accepts ws) + script.count ws
  := by
  induction script generalizing rules with
  | nil => rfl
  | cons w script ih =>
      have hnew : DockerRule.accepts ⟨freshHandle rules, w, some tag⟩ ws = (w == ws) := by
        rw [Bool.eq_iff_iff, beq_iff_eq]
        simp [DockerRule.accepts, DockerRule.Tagged]
      rw [List.foldl_cons, ih, insertAccept, List.countP_cons, List.count_cons, hnew,
        Nat.add_right_comm, Nat.add_assoc]

theorem delete_frame (fails : Command → Bool) (h : Host) :
  (nftDeleteDockerUserRules fails h).table = h.table ∧
    (nftDeleteDockerUserRules fails h).chains = h.chains ∧
    (nftDeleteDockerUserRules fails h).docker.isSome = h.docker.isSome
  := by
  rw [nftDeleteDockerUserRules]
  split
  · exact ⟨rfl, rfl, rfl⟩
  · exact ⟨rfl, rfl, Option.isSome_map⟩

theorem applyDockerScript_frame (fails : Command → Bool) (plan : NatPlan) (h : Host) :
  (applyDockerScript fails plan h).table = h.table ∧
    (applyDockerScript fails plan h).chains = h.chains ∧
    (applyDockerScript fails plan h).docker.isSome = h.docker.isSome
  := by
  rw [applyDockerScript]
  split
  · exact ⟨rfl, rfl, rfl⟩
  · exact ⟨rfl, rfl, Option.isSome_map⟩

theorem inDocker_apply (fails : Command → Bool) (plan : NatPlan) (h : Host)
    (ws : List (List Char)) :
  (applyDockerScript fails plan h).inDocker ws
    = h.inDocker ws + if dockerInserted fails ∧ h.docker.isSome then
        (nftDockerUserScript plan).count ws else 0
  := by
  have hinserted : dockerInserted fails = true ↔ ¬ (fails .dockerExists ∨ fails .dockerScript) := by
    simp [dockerInserted]
  rw [applyDockerScript]
  split
  · rename_i hfails
    rw [if_neg fun hboth => hinserted.mp hboth.1 hfails]
    rfl
  · rename_i hfails
    cases hdocker : h.docker with
    | none => simp [Host.inDocker, hdocker]
    | some rules =>
        rw [if_pos ⟨hinserted.mpr hfails, rfl⟩, Host.inDocker, Host.inDocker, hdocker]
        exact countP_foldl_insertAccept ws _ rules

/-- What the part of nftables does: it takes away what it can and adds the rules of the script
if that is applied. -/
structure NftEffect (fails : Command → Bool) (plan : NatPlan) (h h' : Host) : Prop where
  chains : h'.chains = h.chains
  docker : h'.docker.isSome = h.docker.isSome
  inTable : ∀ r, h'.inTable r
    = leftInTable fails h r + if nftWorks fails then (nftScript plan).count r else 0
  inDocker : ∀ ws, h'.inDocker ws = leftInDocker fails h ws
    + if nftWorks fails ∧ dockerInserted fails ∧ h.docker.isSome then
        (nftDockerUserScript plan).count ws
      else 0

theorem nftEffect_installNft (plan : NatPlan) (hh : h.DistinctHandles)
    (hversion : fails .nftVersion = false) :
  (installNft fails plan h).1 = nftWorks fails ∧ NftEffect fails plan h (installNft fails plan h).2
  := by
  have hdelete := delete_frame fails (nftDeleteTable fails h)
  have hkeeps : (nftDeleteTable fails h).docker = h.docker ∧
      (nftDeleteTable fails h).chains = h.chains := by
    rw [nftDeleteTable]
    split
    · exact ⟨rfl, rfl⟩
    · exact ⟨rfl, rfl⟩
  have hleft : ∀ r, ((nftDeleteTable fails h).table.getD []).count r = leftInTable fails h r := by
    intro r
    rw [leftInTable, hversion, Bool.false_or, nftDeleteTable]
    split
    · rfl
    · rfl
  have hleftDocker : ∀ ws, (nftDeleteDockerUserRules fails (nftDeleteTable fails h)).inDocker ws
      = leftInDocker fails h ws := by
    intro ws
    have hhandles : (nftDeleteTable fails h).DistinctHandles := by
      rw [Host.DistinctHandles, hkeeps.1]
      exact hh
    rw [inDocker_delete hhandles, leftInDocker, hkeeps.1, hversion]
    simp only [Bool.false_or]
  have hworks : nftWorks fails = !fails .script := by
    rw [nftWorks, hversion, Bool.not_false, Bool.true_and]
  rw [installNft, hworks]
  dsimp only
  cases hscript : fails .script with
  | true =>
      rw [if_pos rfl]
      refine ⟨rfl, hdelete.2.1.trans hkeeps.2, ?_, ?_, ?_⟩
      · rw [hdelete.2.2, hkeeps.1]
      · intro r
        rw [Host.inTable, hdelete.1, hleft, hworks, hscript]
        rfl
      · intro ws
        rw [hleftDocker, hworks, hscript, if_neg fun hall => Bool.false_ne_true hall.1,
          Nat.add_zero]
  | false =>
      rw [if_neg Bool.false_ne_true]
      have hframe := applyDockerScript_frame fails plan
        { nftDeleteDockerUserRules fails (nftDeleteTable fails h) with
          table := some ((nftDeleteDockerUserRules fails (nftDeleteTable fails h)).table.getD []
            ++ nftScript plan) }
      refine ⟨rfl, ?_, ?_, ?_, ?_⟩
      · rw [hframe.2.1]
        exact hdelete.2.1.trans hkeeps.2
      · rw [hframe.2.2]
        exact hdelete.2.2.trans (congrArg Option.isSome hkeeps.1)
      · intro r
        rw [Host.inTable, hframe.1, Option.getD_some, List.count_append, hdelete.1, hleft, hworks,
          hscript]
        rfl
      · intro ws
        have hsome : (nftDeleteDockerUserRules fails (nftDeleteTable fails h)).docker.isSome
            = h.docker.isSome := hdelete.2.2.trans (congrArg Option.isSome hkeeps.1)
        rw [inDocker_apply]
        change (nftDeleteDockerUserRules fails (nftDeleteTable fails h)).inDocker ws + _ = _
        rw [hleftDocker, hsome, hworks, hscript]
        simp

end Nft

/-! ### The part of iptables -/

section Ipt

variable {fails : Command → Bool} {plan : NatPlan} {h : Host}

theorem tagged_rule (chain : Chain) (insert : Bool) (parts : List (List Char)) :
  (rule chain insert parts).args.Tagged
  := List.mem_append_right _ (List.mem_singleton_self _)

theorem tagged_bothWays {chain : Chain} {insert : Bool} {iface : List Char}
    {rest : List (List Char)} {r : IptRule} (hr : r ∈ bothWays chain insert iface rest) :
  r.args.Tagged
  := by
  obtain ⟨dir, _, rfl⟩ := List.mem_map.mp hr
  exact tagged_rule _ _ _

theorem tagged_dnatRules {dnat : DnatPlan} {r : IptRule} (hr : r ∈ dnatRules plan dnat) :
  r.args.Tagged
  := by
  obtain hr | hr := List.mem_append.mp hr
  · obtain ⟨proto, _, rfl⟩ := List.mem_map.mp hr
    exact tagged_rule _ _ _
  · rw [List.mem_cons, List.mem_singleton] at hr
    obtain rfl | rfl := hr
    · exact tagged_rule _ _ _
    · exact tagged_rule _ _ _

/-- Every rule of the plan carries the comment. -/
theorem tagged_iptablesRules {dockerUser : Bool} {r : IptRule}
    (hr : r ∈ iptablesRules plan dockerUser) :
  r.args.Tagged
  := by
  rw [iptablesRules] at hr
  obtain hr | hr := List.mem_append.mp hr
  · obtain hr | hr := List.mem_append.mp hr
    · obtain hr | hr := List.mem_append.mp hr
      · obtain hr | hr := List.mem_append.mp hr
        · cases hdnat : plan.dnat with
          | none => rw [hdnat] at hr; cases hr
          | some dnat => rw [hdnat] at hr; exact tagged_dnatRules hr
        · cases hegress : plan.egress with
          | none => rw [hegress] at hr; cases hr
          | some egress =>
              rw [hegress, List.mem_singleton] at hr
              rw [hr]
              exact tagged_rule _ _ _
      · exact tagged_bothWays hr
    · exact tagged_bothWays hr
  · cases dockerUser with
    | true => exact tagged_bothWays hr
    | false => cases hr

theorem subset_iptablesRules (dockerUser : Bool) :
  iptablesRules plan dockerUser ⊆ iptablesRules plan true
  := by
  cases dockerUser with
  | true => exact List.Subset.refl _
  | false =>
      intro r hr
      rw [iptablesRules, if_neg Bool.false_ne_true, List.append_nil] at hr
      exact List.mem_append_left _ hr

/-- A flush leaves the copies of a tagged rule whose deletion fails. -/
theorem inChain_flush (hversion : fails .iptablesVersion = false) {r : IptRule}
    (hr : r.args.Tagged) :
  (flushIptables fails h).inChain r = leftInChain fails h r
  := by
  rw [Host.inChain, chains_flushIptables, leftInChain, hversion]
  cases h.chains r.chain with
  | none => rfl
  | some rules =>
      rw [Option.map_some, Option.getD_some, Option.getD_some]
      cases hlist : fails (.listChain r.chain) with
      | true =>
          have hall : flushChain fails r.chain rules = keepAt (fun _ => true) rules := by
            rw [flushChain, if_pos hlist, keepAt_true]
          rw [hall, count_keepAt]
          apply List.countP_congr
          intro x _
          simp
      | false =>
          rw [flushChain_eq hlist, count_keepAt]
          apply List.countP_congr
          rintro ⟨args, n⟩ hmem
          rw [List.mem_zipIdx_iff_getElem?] at hmem
          dsimp only at hmem ⊢
          by_cases hargs : args = r.args
          · have hfound : foundAt r.chain rules n = true := by
              rw [foundAt, hmem, hargs]
              exact decide_eq_true (found_of_tagged hr)
            rw [hfound]
            simp
          · simp [hargs]

theorem flush_frame (fails : Command → Bool) (h : Host) :
  (flushIptables fails h).table = h.table ∧ (flushIptables fails h).docker = h.docker ∧
    ∀ c, ((flushIptables fails h).chains c).isSome = (h.chains c).isSome
  := by
  refine ⟨rfl, rfl, ?_⟩
  intro c
  rw [chains_flushIptables, Option.isSome_map]

/-- A rule is added to its chain. -/
def Host.withRule (h : Host) (r : IptRule) : Host :=
  { h with
    chains := Function.update h.chains r.chain ((h.chains r.chain).map fun chain =>
      if r.insert then r.args :: chain else chain ++ [r.args]) }

/-- The rules say the same of the same chain. -/
def IptRule.same (r r' : IptRule) : Bool :=
  r.chain = r'.chain ∧ r.args = r'.args

theorem addRules_cons (fails : Command → Bool) (r : IptRule) (rules : List IptRule) (h : Host) :
  addRules fails (r :: rules) h
    = if addable fails h r then addRules fails rules (h.withRule r) else (false, h)
  := by
  rw [addRules, addable, Host.withRule]
  cases h.chains r.chain with
  | none => rfl
  | some chain =>
      cases fails (.add r) with
      | true => rfl
      | false => rfl

theorem isSome_withRule (h : Host) (r : IptRule) (c : Chain) :
  ((h.withRule r).chains c).isSome = (h.chains c).isSome
  := by
  rw [Host.withRule]
  dsimp only
  by_cases hc : c = r.chain
  · rw [hc, Function.update_self, Option.isSome_map]
  · rw [Function.update_of_ne hc]

theorem addable_congr (fails : Command → Bool) {h h' : Host}
    (hchains : ∀ c, (h'.chains c).isSome = (h.chains c).isSome) (r : IptRule) :
  addable fails h' r = addable fails h r
  := by
  rw [addable, addable, hchains]

theorem inChain_withRule {r : IptRule} (hsome : (h.chains r.chain).isSome) (r' : IptRule) :
  (h.withRule r).inChain r' = h.inChain r' + if r.same r' then 1 else 0
  := by
  obtain ⟨chain, hchain⟩ := Option.isSome_iff_exists.mp hsome
  rw [Host.inChain, Host.inChain, Host.withRule]
  dsimp only
  by_cases hc : r'.chain = r.chain
  · have hsame : r.same r' = (r.args == r'.args) := by
      rw [Bool.eq_iff_iff, beq_iff_eq]
      simp [IptRule.same, hc]
    rw [hc, Function.update_self, hchain, hsame, Option.map_some, Option.getD_some,
      Option.getD_some]
    cases r.insert with
    | true =>
        rw [if_pos rfl, List.count_cons]
    | false =>
        rw [if_neg Bool.false_ne_true, List.count_append, List.count_singleton]
  · have hsame : r.same r' = false := decide_eq_false fun hboth => hc hboth.1.symm
    rw [Function.update_of_ne hc, hsame]
    rfl

/-- The adding changes nothing but the chains, and takes none away. -/
theorem addRules_frame (fails : Command → Bool) (rules : List IptRule) (h : Host) :
  (addRules fails rules h).2.table = h.table ∧ (addRules fails rules h).2.docker = h.docker ∧
    ∀ c, ((addRules fails rules h).2.chains c).isSome = (h.chains c).isSome
  := by
  induction rules generalizing h with
  | nil => exact ⟨rfl, rfl, fun c => rfl⟩
  | cons r rules ih =>
      rw [addRules_cons]
      split
      · obtain ⟨htable, hdocker, hchains⟩ := ih (h.withRule r)
        exact ⟨htable, hdocker, fun c => (hchains c).trans (isSome_withRule h r c)⟩
      · exact ⟨rfl, rfl, fun c => rfl⟩

theorem inChain_le_addRules (fails : Command → Bool) (rules : List IptRule) (h : Host)
    (r' : IptRule) :
  h.inChain r' ≤ (addRules fails rules h).2.inChain r'
  := by
  induction rules generalizing h with
  | nil => exact Nat.le_refl _
  | cons r rules ih =>
      rw [addRules_cons]
      split
      · rename_i hadd
        have hsome : (h.chains r.chain).isSome := (Bool.and_eq_true_iff.mp hadd).1
        have hstep := inChain_withRule hsome r'
        have hrest := ih (h.withRule r)
        omega
      · exact Nat.le_refl _

/-- Where every rule can be added, each is added once for every time it is listed. -/
theorem addRules_of_addable {rules : List IptRule}
    (hall : ∀ r ∈ rules, addable fails h r = true) :
  (addRules fails rules h).1 = true ∧
    ∀ r', (addRules fails rules h).2.inChain r' = h.inChain r' + rules.countP (·.same r')
  := by
  induction rules generalizing h with
  | nil => exact ⟨rfl, fun r' => rfl⟩
  | cons r rules ih =>
      have hr := hall r List.mem_cons_self
      have hsome : (h.chains r.chain).isSome := (Bool.and_eq_true_iff.mp hr).1
      have hrest : ∀ r' ∈ rules, addable fails (h.withRule r) r' = true := by
        intro r' hr'
        rw [addable_congr fails (isSome_withRule h r)]
        exact hall r' (List.mem_cons_of_mem r hr')
      obtain ⟨htrue, hcount⟩ := ih hrest
      rw [addRules_cons, if_pos hr]
      refine ⟨htrue, ?_⟩
      intro r'
      rw [hcount, inChain_withRule hsome, List.countP_cons, Nat.add_right_comm, Nat.add_assoc]

theorem addRules_of_not_addable {rules : List IptRule}
    (hall : ¬ ∀ r ∈ rules, addable fails h r = true) :
  (addRules fails rules h).1 = false
  := by
  induction rules generalizing h with
  | nil => exact absurd (fun r hr => nomatch hr) hall
  | cons r rules ih =>
      rw [addRules_cons]
      split
      · rename_i hadd
        apply ih
        intro hrest
        apply hall
        intro r' hr'
        obtain rfl | hr' := List.mem_cons.mp hr'
        · exact hadd
        · rw [← addable_congr fails (isSome_withRule h r)]
          exact hrest r' hr'
      · rfl

/-- The first rule stays, whatever becomes of the others. -/
theorem inChain_head_addRules {r : IptRule} (rules : List IptRule)
    (hadd : addable fails h r = true) :
  0 < (addRules fails (r :: rules) h).2.inChain r
  := by
  have hsome : (h.chains r.chain).isSome := (Bool.and_eq_true_iff.mp hadd).1
  have hsame : r.same r = true := decide_eq_true ⟨rfl, rfl⟩
  rw [addRules_cons, if_pos hadd]
  have hstep := inChain_withRule hsome r
  rw [if_pos hsame] at hstep
  have hrest := inChain_le_addRules fails rules (h.withRule r) r
  omega

theorem countP_same (rules : List IptRule) (r : IptRule) :
  rules.countP (·.same r) = (rules.map fun r => (r.chain, r.args)).count (r.chain, r.args)
  := by
  rw [List.count, List.countP_map]
  apply List.countP_congr
  intro r' _
  simp [IptRule.same]

/-- A rule of the plan is listed once where it is listed. -/
theorem countP_same_iptablesRules {dockerUser dockerUser' : Bool} {r : IptRule}
    (hr : r ∈ iptablesRules plan dockerUser) :
  (iptablesRules plan dockerUser').countP (·.same r)
    = if r ∈ iptablesRules plan dockerUser' then 1 else 0
  := by
  split
  · rename_i hmem
    rw [countP_same]
    exact List.count_eq_one_of_mem (nodup_iptablesRules plan dockerUser')
      (List.mem_map_of_mem (f := fun r => (r.chain, r.args)) hmem)
  · rename_i hmem
    rw [List.countP_eq_zero]
    intro r' hr' hsame
    have hboth := of_decide_eq_true hsame
    have heq : r' = r := List.inj_on_of_nodup_map (nodup_iptablesRules plan true)
      (subset_iptablesRules _ hr') (subset_iptablesRules _ hr) (Prod.ext hboth.1 hboth.2)
    exact hmem (heq ▸ hr')

end Ipt

/-! ### The whole install -/

section Install

variable {fails : Command → Bool} {plan : NatPlan} {h : Host}

/-- The host after the part of nftables, and whether its script was applied. -/
def tryNft (fails : Command → Bool) (plan : NatPlan) (h : Host) : Bool × Host :=
  if fails .nftVersion then (false, h) else installNft fails plan h

/-- The host after the part of iptables, and whether all rules were added. -/
def tryIptables (fails : Command → Bool) (plan : NatPlan) (h : Host) : Bool × Host :=
  if fails .iptablesVersion then (false, h) else installIptables fails (addedRules fails h plan) h

theorem install_eq (fails : Command → Bool) (plan : NatPlan) (h : Host) :
  install fails plan h
    = if (tryNft fails plan h).1 then (.installed .nft, (tryNft fails plan h).2)
      else
        (if (tryIptables fails plan (tryNft fails plan h).2).1 then .installed .iptables
          else .degraded,
        (tryIptables fails plan (tryNft fails plan h).2).2)
  := by
  have hnft : (if !fails .nftVersion then installNft fails plan h else (false, h))
      = tryNft fails plan h := by
    rw [tryNft]
    cases fails .nftVersion with
    | true => rfl
    | false => rfl
  have hipt : ∀ h, (if !fails .iptablesVersion then
        installIptables fails (iptablesRules plan (dockerUserFound fails h)) h
      else (false, h)) = tryIptables fails plan h := by
    intro h
    rw [tryIptables]
    cases fails .iptablesVersion with
    | true => rfl
    | false => rfl
  rw [install]
  dsimp only
  rw [hnft]
  simp only [hipt]
  split
  · rfl
  · split
    · rfl
    · rfl

theorem nftEffect_tryNft (fails : Command → Bool) (plan : NatPlan) (hh : h.DistinctHandles) :
  (tryNft fails plan h).1 = nftWorks fails ∧ NftEffect fails plan h (tryNft fails plan h).2
  := by
  rw [tryNft]
  cases hversion : fails .nftVersion with
  | false => exact nftEffect_installNft plan hh hversion
  | true =>
      have hworks : nftWorks fails = false := by
        rw [nftWorks, hversion, Bool.not_true, Bool.false_and]
      refine ⟨hworks.symm, rfl, rfl, ?_, ?_⟩
      · intro r
        rw [leftInTable, hversion, hworks]
        rfl
      · intro ws
        rw [leftInDocker, hversion, hworks]
        simp [Host.inDocker]

theorem nftNone_iff {h' : Host} (heffect : NftEffect fails plan h h')
    (hworks : nftWorks fails = false) :
  NftNone plan h' ↔ (∀ r ∈ nftScript plan, leftInTable fails h r = 0) ∧
    ∀ ws ∈ nftDockerUserScript plan, leftInDocker fails h ws = 0
  := by
  have htable : ∀ r, h'.inTable r = leftInTable fails h r := by
    intro r
    rw [heffect.inTable, hworks]
    rfl
  have hdocker : ∀ ws, h'.inDocker ws = leftInDocker fails h ws := by
    intro ws
    rw [heffect.inDocker, hworks, if_neg fun hall => Bool.false_ne_true hall.1, Nat.add_zero]
  rw [NftNone]
  simp only [htable, hdocker]

theorem nftOnce_iff {h' : Host} (heffect : NftEffect fails plan h h')
    (hworks : nftWorks fails = true) :
  NftOnce plan h' ↔ (∀ r ∈ nftScript plan, leftInTable fails h r = 0) ∧
    (h.docker.isSome → ∀ ws ∈ nftDockerUserScript plan,
      leftInDocker fails h ws = if dockerInserted fails then 0 else 1)
  := by
  rw [NftOnce, heffect.docker]
  refine and_congr (forall₂_congr ?_) (imp_congr_right ?_)
  · intro r hr
    rw [heffect.inTable, hworks, if_pos rfl,
      List.count_eq_one_of_mem (nodup_nftScript plan) hr, Nat.add_eq_right]
  · intro hsome
    refine forall₂_congr ?_
    intro ws hws
    rw [heffect.inDocker, hworks, hsome,
      List.count_eq_one_of_mem (nodup_nftDockerUserScript plan) hws]
    cases dockerInserted fails with
    | true => simp
    | false => simp

/-- The chains decide what is in iptables. -/
theorem iptNone_congr {h h' : Host} (hchains : h'.chains = h.chains) :
  IptNone plan h' ↔ IptNone plan h
  := by
  rw [IptNone, IptNone]
  simp only [Host.inChain, hchains]

theorem left_congr (fails : Command → Bool) (plan : NatPlan) {h h' : Host}
    (hchains : h'.chains = h.chains) :
  (∀ r, leftInChain fails h' r = leftInChain fails h r) ∧
    addedRules fails h' plan = addedRules fails h plan ∧
    ∀ r, addable fails h' r = addable fails h r
  := by
  refine ⟨?_, ?_, ?_⟩
  · intro r
    rw [leftInChain, leftInChain, hchains]
  · rw [addedRules, addedRules, dockerUserFound, dockerUserFound, hchains]
  · exact addable_congr fails fun c => by rw [hchains]

theorem tryIptables_frame (fails : Command → Bool) (plan : NatPlan) (h : Host) :
  (tryIptables fails plan h).2.table = h.table ∧ (tryIptables fails plan h).2.docker = h.docker ∧
    ∀ c, ((tryIptables fails plan h).2.chains c).isSome = (h.chains c).isSome
  := by
  rw [tryIptables]
  split
  · exact ⟨rfl, rfl, fun c => rfl⟩
  · obtain ⟨htable, hdocker, hchains⟩ :=
      addRules_frame fails (addedRules fails h plan) (flushIptables fails h)
    obtain ⟨hflushTable, hflushDocker, hflushChains⟩ := flush_frame fails h
    refine ⟨htable.trans hflushTable, hdocker.trans hflushDocker, ?_⟩
    intro c
    exact (hchains c).trans (hflushChains c)

theorem nftNone_tryIptables :
  NftNone plan (tryIptables fails plan h).2 ↔ NftNone plan h
  := by
  obtain ⟨htable, hdocker, _⟩ := tryIptables_frame fails plan h
  simp only [NftNone, Host.inTable, Host.inDocker, htable, hdocker]

/-- Every rule can be added by iptables. -/
def Addable (fails : Command → Bool) (plan : NatPlan) (h : Host) : Prop :=
  fails .iptablesVersion = false ∧ ∀ r ∈ addedRules fails h plan, addable fails h r = true

/-- With every rule added, each is there once just when no copy was left. -/
theorem iptOnce_iff (hadd : Addable fails plan h) :
  (tryIptables fails plan h).1 = true ∧ (IptOnce plan (tryIptables fails plan h).2 ↔
    ∀ r ∈ iptablesRules plan (h.chains .filterDockerUser).isSome,
      leftInChain fails h r = if r ∈ addedRules fails h plan then 0 else 1)
  := by
  obtain ⟨hversion, hall⟩ := hadd
  have hflush : ∀ r ∈ addedRules fails h plan, addable fails (flushIptables fails h) r = true := by
    intro r hr
    rw [addable_congr fails (flush_frame fails h).2.2]
    exact hall r hr
  obtain ⟨htrue, hcount⟩ := addRules_of_addable hflush
  have hsome := (tryIptables_frame fails plan h).2.2 .filterDockerUser
  rw [tryIptables, hversion, if_neg Bool.false_ne_true] at hsome ⊢
  refine ⟨htrue, ?_⟩
  rw [IptOnce, hsome]
  refine forall₂_congr ?_
  intro r hr
  rw [installIptables, hcount, inChain_flush hversion (tagged_iptablesRules hr), addedRules,
    countP_same_iptablesRules hr]
  split
  · rw [Nat.add_eq_right]
  · rw [Nat.add_zero]

/-- Where some rule cannot be added, none is there just when none was left and already the
first could not be added. -/
theorem iptNone_iff (hadd : ¬ Addable fails plan h) :
  (tryIptables fails plan h).1 = false ∧ (IptNone plan (tryIptables fails plan h).2 ↔
    (∀ r ∈ iptablesRules plan true, leftInChain fails h r = 0) ∧
      (fails .iptablesVersion = false →
        ∀ r ∈ (addedRules fails h plan).head?, addable fails h r = false))
  := by
  rw [tryIptables]
  cases hversion : fails .iptablesVersion with
  | true =>
      have hleft : ∀ r, leftInChain fails h r = h.inChain r := by
        intro r
        have hall := count_keepAt (fun _ => true) ((h.chains r.chain).getD []) r.args
        rw [keepAt_true] at hall
        rw [leftInChain, Host.inChain, hall, hversion]
        apply List.countP_congr
        intro x _
        simp
      refine ⟨rfl, ?_⟩
      rw [if_pos rfl, IptNone]
      simp only [hleft]
      simp
  | false =>
      rw [if_neg Bool.false_ne_true]
      have haddable := addable_congr fails (flush_frame fails h).2.2
      have hnot : ¬ ∀ r ∈ addedRules fails h plan,
          addable fails (flushIptables fails h) r = true := by
        intro hall
        apply hadd
        refine ⟨hversion, ?_⟩
        intro r hr
        rw [← haddable]
        exact hall r hr
      have hleft : ∀ r ∈ iptablesRules plan true,
          (flushIptables fails h).inChain r = leftInChain fails h r := by
        intro r hr
        exact inChain_flush hversion (tagged_iptablesRules hr)
      refine ⟨addRules_of_not_addable hnot, ?_⟩
      rw [installIptables]
      cases hrules : addedRules fails h plan with
      | nil =>
          rw [hrules] at hnot
          exact absurd (fun r hr => nomatch hr) hnot
      | cons r rules =>
          have hmem : r ∈ iptablesRules plan true := by
            apply subset_iptablesRules
            rw [← addedRules, hrules]
            exact List.mem_cons_self
          constructor
          · intro hnone
            refine ⟨?_, ?_⟩
            · intro r' hr'
              have hle := inChain_le_addRules fails (r :: rules) (flushIptables fails h) r'
              rw [hnone r' hr', hleft r' hr'] at hle
              exact Nat.le_zero.mp hle
            · intro _ r' hr'
              rw [← Option.some.inj hr']
              by_contra hcan
              rw [Bool.not_eq_false, ← haddable] at hcan
              have hpos := inChain_head_addRules rules hcan
              rw [hnone r hmem] at hpos
              exact Nat.lt_irrefl 0 hpos
          · rintro ⟨hnone, hhead⟩ r' hr'
            have hcannot := hhead rfl r rfl
            rw [addRules_cons, haddable, hcannot, if_neg Bool.false_ne_true, hleft r' hr',
              hnone r' hr']

/-- An install ends with every rule of one backend once, or with none, just when no copy from
before is left and the rules of iptables can all be added or not even the first. -/
theorem install_meets_iff (hh : h.DistinctHandles) :
  (install fails plan h).1.Meets plan (install fails plan h).2 ↔ Clean fails h plan
  := by
  obtain ⟨hworks, heffect⟩ := nftEffect_tryNft fails plan hh
  rw [install_eq, hworks, Clean]
  cases hnft : nftWorks fails with
  | true =>
      rw [if_pos rfl, if_pos rfl, Outcome.Meets, nftOnce_iff heffect hnft,
        iptNone_congr heffect.chains, and_assoc]
  | false =>
      rw [if_neg Bool.false_ne_true, if_neg Bool.false_ne_true]
      obtain ⟨hleft, hrules, hcan⟩ := left_congr fails plan heffect.chains
      have haddable : Addable fails plan (tryNft fails plan h).2 ↔ fails .iptablesVersion = false ∧
          ∀ r ∈ addedRules fails h plan, addable fails h r = true := by
        rw [Addable, hrules]
        simp only [hcan]
      by_cases hadd : Addable fails plan (tryNft fails plan h).2
      · obtain ⟨htrue, honce⟩ := iptOnce_iff hadd
        rw [if_pos (haddable.mp hadd), htrue, if_pos rfl, Outcome.Meets, honce,
          nftNone_tryIptables, nftNone_iff heffect hnft, hrules, heffect.chains, and_comm]
        simp only [hleft]
      · obtain ⟨hfalse, hnone⟩ := iptNone_iff hadd
        rw [if_neg fun hall => hadd (haddable.mpr hall), hfalse, if_neg Bool.false_ne_true,
          Outcome.Meets, hnone, nftNone_tryIptables, nftNone_iff heffect hnft, hrules]
        simp only [hleft, hcan]

end Install

/-- The addresses of the tunnel leave by one interface. -/
def egressPlan : NatPlan where
  iface := "zn0".toList
  subnet := ⟨0x0A090000⟩
  prefixLen := 24
  serverIp := ⟨0x0A090001⟩
  mtu := 1400
  dnat := none
  egress := some "eth0".toList

/-- A host without nftables, and with an accept of an earlier run. -/
def staleHost : Host where
  table := none
  docker := none
  chains := fun c =>
    match c with
    | .filterForward =>
        some [[.word "-j".toList, .word "LOG".toList],
          (rule .filterForward false
            (words ["-o"] ++ ["zn0".toList] ++ words ["-j", "ACCEPT"])).args]
    | .filterDockerUser => none
    | _ => some []

/-- There is no nftables. -/
def noNft : Command → Bool := fun c => c = .nftVersion

theorem install_meets_stale :
  (install noNft egressPlan staleHost).1.Meets egressPlan (install noNft egressPlan staleHost).2
  := by
  have hhandles : staleHost.DistinctHandles := by
    intro rules hrules
    cases hrules
  refine (install_meets_iff hhandles).mpr ?_
  rw [Clean, if_neg (by decide), if_pos (by decide)]
  decide

/-- There is no nftables, and the segment size cannot be set. -/
def noTcpMss : Command → Bool
  | .nftVersion => true
  | .add r => r.chain = .mangleForward
  | _ => false

/-- The rule that was added before the failure stays. -/
theorem degraded_leaves_rule :
  (install noTcpMss egressPlan staleHost).1 = .degraded ∧
    ((install noTcpMss egressPlan staleHost).2.chains .natPostrouting).map List.length = some 1 ∧
    ¬ (install noTcpMss egressPlan staleHost).1.Meets egressPlan
      (install noTcpMss egressPlan staleHost).2
  := by
  have hdegraded : (install noTcpMss egressPlan staleHost).1 = .degraded := by
    decide
  refine ⟨hdegraded, by decide, ?_⟩
  rw [hdegraded]
  intro hmeets
  have hnone : ∀ r ∈ iptablesRules egressPlan true,
      (install noTcpMss egressPlan staleHost).2.inChain r = 0 := hmeets.2
  exact absurd hnone (by decide)

end ZeroNat.Netfilter

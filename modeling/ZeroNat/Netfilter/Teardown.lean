import ZeroNat.Lib.Positions
import ZeroNat.Netfilter.Rules

/-!
# What a teardown removes

Rules are found by the text of their listing and deleted by number or by handle.  Those that
carry the comment are found, and with them every other rule in whose text the name of the
program stands, be it the name of an interface.
-/

namespace ZeroNat.Netfilter

open Config (stripPrefix stripPrefix_append decimal parseDecimal_decimal trim trim_word
  isWhitespace isWhitespace_of_bounds isDigit_bounds isDigit_of_mem_decimal decimal_ne_nil)

/-! ### Rules by number -/

/-- The line of a rule after its command. -/
def Rule.spec (c : Chain) (r : Rule) : List Char :=
  c.name.toList ++ r.flatMap fun a => ' ' :: a.text

/-- The rule is found in the listing. -/
def Rule.Found (c : Chain) (r : Rule) : Prop :=
  tag <:+: r.spec c

instance (c : Chain) : DecidablePred (Rule.Found c) := fun r =>
  inferInstanceAs (Decidable (tag <:+: r.spec c))

/-- The rule at a position is found. -/
def foundAt (c : Chain) (rules : List Rule) (n : ℕ) : Bool :=
  rules[n]?.any fun r => r.Found c

theorem stripPrefix_line (c : Chain) (r : Rule) :
  stripPrefix "-A ".toList (r.line c) = some (r.spec c)
  := stripPrefix_append _ _

theorem foundAt_append {c : Chain} {rules : List Rule} {n : ℕ} (h : n < rules.length) (r : Rule) :
  foundAt c (rules ++ [r]) n = foundAt c rules n
  := by
  rw [foundAt, foundAt, List.getElem?_append_left h]

theorem filter_foundAt (c : Chain) (rules : List Rule) (r : Rule) :
  (List.range (rules ++ [r]).length).filter (foundAt c (rules ++ [r]))
    = (List.range rules.length).filter (foundAt c rules)
      ++ if r.Found c then [rules.length] else []
  := by
  have hlast : foundAt c (rules ++ [r]) rules.length = decide (r.Found c) := by
    rw [foundAt, List.getElem?_concat_length]
    rfl
  have hfront : (List.range rules.length).filter (foundAt c (rules ++ [r]))
      = (List.range rules.length).filter (foundAt c rules) := by
    apply List.filter_congr
    intro n hn
    exact foundAt_append (List.mem_range.mp hn) r
  rw [List.length_append, List.length_singleton, List.range_succ, List.filter_append, hfront,
    List.filter_singleton, hlast]
  split
  · rename_i hfound
    rw [decide_eq_true hfound, cond_true]
  · rename_i hfound
    rw [decide_eq_false hfound, cond_false]

/-- The numbers are those of the rules found, counted from one. -/
theorem taggedNumbers_listing (c : Chain) (rules : List Rule) :
  taggedNumbers (listing c rules)
    = ((List.range rules.length).filter (foundAt c rules)).map (· + 1)
  := by
  have hrules : (rules.map (Rule.line c)).foldl countLine (0, []) = (rules.length,
      ((List.range rules.length).filter (foundAt c rules)).map (· + 1)) := by
    induction rules using List.reverseRecOn with
    | nil => rfl
    | append_singleton rules r ih =>
        rw [List.map_append, List.foldl_append, ih, List.map_singleton, List.foldl_cons,
          List.foldl_nil, filter_foundAt, List.map_append]
        rw [countLine, stripPrefix_line]
        dsimp only
        rw [List.length_append, List.length_singleton]
        by_cases hfound : r.Found c
        · rw [if_pos hfound, if_pos (show tag <:+: r.spec c from hfound)]
          rfl
        · rw [if_neg hfound, if_neg (show ¬ tag <:+: r.spec c from hfound), List.map_nil,
            List.append_nil]
  have hhead : taggedNumbers (listing c rules)
      = ((rules.map (Rule.line c)).foldl countLine (0, [])).2 := by
    cases c <;> rfl
  rw [hhead, hrules]

/-- A flush deletes the rules found, but for those whose deletion fails. -/
theorem flushChain_eq {fails : Command → Bool} {c : Chain} (h : fails (.listChain c) = false)
    (rules : List Rule) :
  flushChain fails c rules
    = keepAt (fun n => !(!fails (.deleteRule c (n + 1)) && foundAt c rules n)) rules
  := by
  rw [flushChain, if_neg (by rw [h]; exact Bool.false_ne_true), taggedNumbers_listing,
    ← List.map_reverse, List.foldl_map, ← foldl_eraseIdx, ← List.filter_filter,
    ← List.filter_reverse (p := fun n => !fails _), List.foldl_filter]
  congr 1
  funext rules n
  rw [Nat.add_sub_cancel]
  cases fails (.deleteRule c (n + 1)) with
  | false => rfl
  | true => rfl

theorem chains_flushIptables (fails : Command → Bool) (h : Host) (c : Chain) :
  (flushIptables fails h).chains c = (h.chains c).map (flushChain fails c)
  := by
  cases c <;> rfl

/-- The text of a comment is in the listing. -/
theorem found_of_tagged {c : Chain} {r : Rule} (h : r.Tagged) :
  r.Found c
  := by
  have harg : tag <:+: ' ' :: (Arg.comment tag).text := by
    decide
  have hrule : (' ' :: (Arg.comment tag).text) <:+: r.flatMap fun a => ' ' :: a.text := by
    rw [List.flatMap_def]
    exact List.infix_of_mem_flatten (List.mem_map_of_mem h)
  exact (harg.trans hrule).trans (List.suffix_append _ _).isInfix

/-! ### Rules by handle -/

/-- The rule is found in the listing of Docker's chain. -/
def DockerRule.Found (r : DockerRule) : Prop :=
  commentText <:+: r.line

instance : DecidablePred DockerRule.Found := fun r =>
  inferInstanceAs (Decidable (commentText <:+: r.line))

theorem afterText_append {text l rest : List Char} (front : List Char)
    (h : afterText text l = some rest) :
  afterText text (front ++ l) = some rest
  := by
  induction front with
  | nil => exact h
  | cons c front ih => rw [List.cons_append, afterText, ih]

theorem afterText_of_not_mem {l : List Char} (h : '#' ∉ l) :
  afterText "# handle ".toList l = none
  := by
  induction l with
  | nil => rfl
  | cons c l ih =>
      rw [List.mem_cons, not_or] at h
      rw [afterText, ih h.2]
      dsimp only
      rw [stripPrefix, if_neg]
      intro hfront
      exact h.1 (List.cons_prefix_cons.mp hfront).1

theorem afterText_handle (n : ℕ) :
  afterText "# handle ".toList ("# handle ".toList ++ decimal n) = some (decimal n)
  := by
  have hdigits : '#' ∉ " handle ".toList ++ decimal n := by
    intro hmem
    obtain hmem | hmem := List.mem_append.mp hmem
    · exact absurd hmem (by decide)
    · exact absurd (isDigit_of_mem_decimal hmem) (by decide)
  have hrest := afterText_of_not_mem hdigits
  change afterText "# handle ".toList ('#' :: (" handle ".toList ++ decimal n)) = _
  rw [afterText, hrest]
  exact stripPrefix_append "# handle ".toList (decimal n)

theorem isWhitespace_of_mem_decimal {n : ℕ} {c : Char} (h : c ∈ decimal n) :
  isWhitespace c = false
  := by
  have hbounds := isDigit_bounds (isDigit_of_mem_decimal h)
  exact isWhitespace_of_bounds ⟨by omega, by omega⟩

theorem trim_decimal (n : ℕ) :
  trim (decimal n) = decimal n
  := trim_word (decimal_ne_nil n) fun _ => isWhitespace_of_mem_decimal

/-- The handle of a rule is read at the end of its line. -/
theorem lineHandle_line (r : DockerRule) :
  lineHandle r.line = some r.handle
  := by
  have hline : ∃ front, r.line = front ++ ("# handle ".toList ++ decimal r.handle.toNat) := by
    rw [DockerRule.line]
    cases r.comment with
    | none =>
        refine ⟨"\t\t".toList ++ [' '].intercalate r.words ++ [] ++ [' '], ?_⟩
        rw [List.append_assoc _ [' '], List.append_assoc]
        rfl
    | some text =>
        refine ⟨"\t\t".toList ++ [' '].intercalate r.words
          ++ (" comment ".toList ++ quoted text) ++ [' '], ?_⟩
        rw [List.append_assoc _ [' '], List.append_assoc]
        rfl
  obtain ⟨front, hfront⟩ := hline
  rw [lineHandle, hfront, afterText_append front (afterText_handle _), Option.getD_some,
    trim_decimal, parseDecimal_decimal r.handle.toNat_lt, Option.map_some]
  rw [UInt64.ofNat_toNat]

/-- What the deletion of the rules of some lines leaves. -/
theorem foldl_deleteHandle (fails : Command → Bool) (listed rules : List DockerRule) :
  (listed.map DockerRule.line).foldl (deleteLine fails) rules
    = rules.filter fun x => listed.all fun r =>
        !(decide r.Found && !fails (.deleteHandle r.handle) && decide (x.handle = r.handle))
  := by
  induction listed generalizing rules with
  | nil => simp
  | cons r listed ih =>
      rw [List.map_cons, List.foldl_cons, ih]
      simp only [List.all_cons, ← List.filter_filter]
      rw [deleteLine, lineHandle_line, List.filter_comm]
      dsimp only
      congr 1
      by_cases hfound : r.Found
      · rw [if_pos (show commentText <:+: r.line from hfound), decide_eq_true hfound]
        cases fails (.deleteHandle r.handle) with
        | false =>
            rw [if_neg Bool.false_ne_true, deleteHandle]
            apply List.filter_congr
            intro x _
            simp
        | true => simp
      · rw [if_neg (show ¬ commentText <:+: r.line from hfound), decide_eq_false hfound]
        simp

/-- The rules found are deleted, but for those whose deletion fails. -/
theorem deleteListed_eq (fails : Command → Bool) {rules : List DockerRule}
    (h : (rules.map DockerRule.handle).Nodup) :
  deleteListed fails rules
    = rules.filter fun r => !(decide r.Found && !fails (.deleteHandle r.handle))
  := by
  have hlisting : deleteListed fails rules
      = (rules.map DockerRule.line).foldl (deleteLine fails) rules := by
    rw [deleteListed, dockerListing, List.foldl_append, List.foldl_append]
    simp only [List.foldl_cons, List.foldl_nil, deleteLine]
    rw [if_neg (by decide), if_neg (by decide), if_neg (by decide), if_neg (by decide)]
  rw [hlisting, foldl_deleteHandle]
  apply List.filter_congr
  intro x hx
  rw [Bool.eq_iff_iff, List.all_eq_true]
  simp only [Bool.not_eq_true', Bool.and_eq_false_iff, decide_eq_false_iff_not]
  constructor
  · intro hall
    exact (hall x hx).resolve_right fun hne => hne rfl
  · intro hself r hr
    by_cases heq : x.handle = r.handle
    · obtain rfl : x = r := List.inj_on_of_nodup_map h hx hr heq
      exact .inl hself
    · exact .inr heq

/-- The text of the comment is in the listing. -/
theorem DockerRule.found_of_tagged {r : DockerRule} (h : r.Tagged) :
  r.Found
  := by
  have hcomment : (" comment ".toList ++ quoted tag) <:+: r.line := by
    rw [DockerRule.line, show r.comment = some tag from h]
    dsimp only
    rw [List.append_assoc]
    exact List.infix_append _ _ _
  refine List.IsInfix.trans ?_ hcomment
  decide

/-! ### What is removed -/

theorem filter_eq_filter_iff {α : Type} {p q : α → Bool} {l : List α}
    (h : ∀ a ∈ l, p a = true → q a = true) :
  l.filter p = l.filter q ↔ ∀ a ∈ l, q a = true → p a = true
  := by
  have hboth : l.filter p = (l.filter q).filter p := by
    rw [List.filter_filter]
    apply List.filter_congr
    intro a ha
    cases hp : p a with
    | false => rfl
    | true => rw [h a ha hp, Bool.and_self]
  rw [hboth, List.filter_eq_self]
  simp only [List.mem_filter, and_imp]

/-- The commands all succeed. -/
def noFaults : Command → Bool := fun _ => false

/-- The rules of every chain of iptables that do not carry the comment are left, in their order. -/
def FlushesTagged (h : Host) : Prop :=
  ∀ c ∈ iptChains, (flushIptables noFaults h).chains c
    = (h.chains c).map fun rules => rules.filter fun r => ¬ r.Tagged

/-- The rules of Docker's chain that do not carry the comment are left, in their order. -/
def DeletesTagged (h : Host) : Prop :=
  (nftDeleteDockerUserRules noFaults h).docker
    = h.docker.map fun rules => rules.filter fun r => ¬ r.Tagged

/-- The handles of Docker's chain are its rules' own. -/
def Host.DistinctHandles (h : Host) : Prop :=
  ∀ rules, h.docker = some rules → (rules.map DockerRule.handle).Nodup

theorem flushChain_noFaults (c : Chain) (rules : List Rule) :
  flushChain noFaults c rules = rules.filter fun r => ¬ r.Found c
  := by
  rw [flushChain_eq rfl]
  apply keepAt_eq_filter
  intro n r hr
  rw [foundAt, hr]
  simp [noFaults]

theorem flushesTagged_iff (h : Host) :
  FlushesTagged h ↔ ∀ c ∈ iptChains, ∀ rules, h.chains c = some rules →
    ∀ r ∈ rules, ¬ r.Tagged → ¬ tag <:+: r.spec c
  := by
  refine forall_congr' fun c => forall_congr' fun _ => ?_
  rw [chains_flushIptables]
  cases hc : h.chains c with
  | none => simp
  | some rules =>
      have hsub : ∀ r ∈ rules, decide (¬ r.Found c) = true → decide (¬ r.Tagged) = true := by
        intro r _ hr
        rw [decide_eq_true_iff] at hr ⊢
        exact mt found_of_tagged hr
      rw [Option.map_some, Option.map_some, Option.some.injEq, flushChain_noFaults,
        filter_eq_filter_iff hsub]
      simp only [decide_eq_true_iff, Option.some.injEq, forall_eq']
      rfl

theorem deletesTagged_iff {h : Host} (hh : h.DistinctHandles) :
  DeletesTagged h ↔ ∀ rules, h.docker = some rules →
    ∀ r ∈ rules, ¬ r.Tagged → ¬ commentText <:+: r.line
  := by
  rw [DeletesTagged, nftDeleteDockerUserRules, if_neg (by decide)]
  cases hc : h.docker with
  | none => simp
  | some rules =>
      have hfound : deleteListed noFaults rules = rules.filter fun r => ¬ r.Found := by
        rw [deleteListed_eq noFaults (hh rules hc)]
        apply List.filter_congr
        intro r _
        simp [noFaults]
      have hsub : ∀ r ∈ rules, decide (¬ r.Found) = true → decide (¬ r.Tagged) = true := by
        intro r _ hr
        rw [decide_eq_true_iff] at hr ⊢
        exact mt DockerRule.found_of_tagged hr
      rw [Option.map_some, Option.map_some, Option.some.injEq, hfound, filter_eq_filter_iff hsub]
      simp only [decide_eq_true_iff, Option.some.injEq, forall_eq']
      rfl

/-- A teardown removes the rules that carry the comment and no other just when the text that is
searched for is in the listing of no other rule. -/
theorem teardown_exact_iff {h : Host} (hh : h.DistinctHandles) :
  FlushesTagged h ∧ DeletesTagged h ↔
    (∀ c ∈ iptChains, ∀ rules, h.chains c = some rules →
      ∀ r ∈ rules, ¬ r.Tagged → ¬ tag <:+: r.spec c) ∧
    ∀ rules, h.docker = some rules → ∀ r ∈ rules, ¬ r.Tagged → ¬ commentText <:+: r.line
  := and_congr (flushesTagged_iff h) (deletesTagged_iff hh)

/-- An operator's rule and a tagged one in every chain. -/
def mixedHost : Host where
  table := none
  docker := some [⟨4, words ["iifname", "\"eth0\"", "drop"], some "lan".toList⟩,
    ⟨5, words ["accept"], some tag⟩]
  chains := fun _ => some [[.word "-j".toList, .word "DROP".toList, .comment "lan".toList],
    [.word "-j".toList, .word "ACCEPT".toList, .comment tag]]

theorem teardown_exact_mixed :
  FlushesTagged mixedHost ∧ DeletesTagged mixedHost
  := by
  have hhandles : mixedHost.DistinctHandles := by
    intro rules hrules
    rw [← Option.some.inj hrules]
    decide
  refine (teardown_exact_iff hhandles).mpr ⟨?_, ?_⟩
  · intro c hc rules hrules
    rw [← Option.some.inj hrules]
    clear hrules rules
    revert c
    decide
  · intro rules hrules
    rw [← Option.some.inj hrules]
    decide

/-- An operator's rule about the interface of the tunnel. -/
def operatorHost : Host where
  table := none
  docker := none
  chains := fun c =>
    match c with
    | .filterForward => some [words ["-i", "zeronat0", "-j", "DROP"] |>.map .word]
    | _ => some []

/-- The operator's rule is deleted. -/
theorem operator_rule_deleted :
  (flushIptables noFaults operatorHost).chains .filterForward = some [] ∧
    ¬ FlushesTagged operatorHost
  := by
  have hdeleted : (flushIptables noFaults operatorHost).chains .filterForward = some [] := by
    decide
  refine ⟨hdeleted, ?_⟩
  intro hflushes
  have hkept := hflushes .filterForward (by decide)
  rw [hdeleted] at hkept
  exact absurd hkept (by decide)

end ZeroNat.Netfilter

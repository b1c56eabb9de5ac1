import Haltchain.Rules.TopoSort

/-! # What an evaluator decides

An evaluator in enforce mode goes through the active rules in its order, up to the first that
blocks. The test whether the last output was for the same rule never fails, since the ids are
different. -/

namespace Haltchain.Rules

open RuleEvaluator List

/-- The request does not go through. -/
def EvalDecision.Blocks : EvalDecision → Prop
  | .deny .. | .circuitBreak .. => True
  | .allow | .flaggedAllow _ => False

instance : (d : EvalDecision) → Decidable d.Blocks
  | .deny .. | .circuitBreak .. => instDecidableTrue
  | .allow | .flaggedAllow _ => instDecidableFalse

def EvalDecision.flags : EvalDecision → List String
  | .flaggedAllow flags => flags
  | .allow | .deny .. | .circuitBreak .. => []

/-- A match stops the request. -/
def Rule.Blocking (r : Rule) : Prop := r.action = .deny ∨ r.action = .circuitBreak
deriving Decidable

/-- The rules of a policy that are not disabled. -/
def PolicyFile.enabled (pf : PolicyFile) : List Rule := pf.rules.filter fun r => !r.disabled

variable {pf : PolicyFile}

theorem PolicyFile.nodup_enabled (h : (pf.rules.map Rule.id).Nodup) :
    (pf.enabled.map Rule.id).Nodup :=
  h.sublist (filter_sublist.map Rule.id)

section

variable (regex : RegexBuilder) (ctx : EvalContext)

/-- The condition of the rule holds. -/
def Rule.Matches (r : Rule) : Prop := evalCondition regex r.condition ctx = true
deriving Decidable

/-- What a rule puts out in enforce mode. -/
def Rule.output (r : Rule) : RuleOutput :=
  let matched := evalCondition regex r.condition ctx
  ⟨r.id, matched, r.action, if matched then some r.message else none, false⟩

/-- The ids of the rules that flag the request. -/
def flagging (rules : List Rule) : List String :=
  (rules.filter fun r => r.action = .flag ∧ r.Matches regex ctx).map Rule.id

variable {regex ctx}

/-- The loop stops at a rule that blocks. -/
theorem blocks_evaluateFrom {rules : List Rule} (outputs : List RuleOutput) (flags : List String)
    (h : ∃ r ∈ rules, r.Blocking ∧ r.Matches regex ctx) :
    (evaluateFrom regex false ctx rules outputs flags).1.Blocks := by
  induction rules generalizing outputs flags with
  | nil =>
    obtain ⟨r, hr, -⟩ := h
    exact absurd hr not_mem_nil
  | cons rule rest ih =>
    by_cases hrule : rule.Blocking ∧ rule.Matches regex ctx
    · obtain ⟨hblock, hmatch⟩ := hrule
      rw [Rule.Matches] at hmatch
      unfold evaluateFrom
      rcases hblock with haction | haction
      · simp [hmatch, haction, EvalDecision.Blocks]
      · simp [hmatch, haction, EvalDecision.Blocks]
    · -- some later rule does, and every way on goes through the rest
      have hrest : ∃ r ∈ rest, r.Blocking ∧ r.Matches regex ctx := by
        obtain ⟨r, hr, hblock⟩ := h
        rcases mem_cons.1 hr with rfl | hr
        · exact absurd hblock hrule
        · exact ⟨r, hr, hblock⟩
      unfold evaluateFrom
      dsimp only
      split
      · rename_i hmatch
        rw [if_neg (by simp)]
        split
        · trivial
        · trivial
        · exact ih _ _ hrest
        · exact ih _ _ hrest
      · exact ih _ _ hrest

/-- It goes on after any other rule, perhaps with a flag. -/
theorem evaluateFrom_cons {rule : Rule} (rest : List Rule) {outputs : List RuleOutput}
    (flags : List String) (hnew : ∀ o ∈ outputs.getLast?, o.ruleId ≠ rule.id)
    (hpass : ¬ (rule.Blocking ∧ rule.Matches regex ctx)) :
    evaluateFrom regex false ctx (rule :: rest) outputs flags =
      evaluateFrom regex false ctx rest (outputs ++ [rule.output regex ctx])
        (flags ++ flagging regex ctx [rule]) := by
  have hpush : (outputs.getLast?.all fun o => o.ruleId ≠ rule.id) = true := by
    cases hlast : outputs.getLast? with
    | none => rfl
    | some o => exact decide_eq_true (hnew o hlast)
  rw [evaluateFrom]
  unfold Rule.output
  dsimp only
  rw [if_pos hpush]
  by_cases hmatch : evalCondition regex rule.condition ctx = true
  · cases haction : rule.action with
    | deny => exact absurd ⟨.inl haction, hmatch⟩ hpass
    | circuitBreak => exact absurd ⟨.inr haction, hmatch⟩ hpass
    | flag => simp [flagging, Rule.Matches, haction, hmatch]
    | allow => simp [flagging, haction]
  · simp [flagging, Rule.Matches, hmatch]

/-- Without one it goes through all of them. -/
theorem evaluateFrom_eq {rules : List Rule} (outputs : List RuleOutput) (flags : List String)
    (hids : (rules.map Rule.id).Nodup) (hnew : ∀ o ∈ outputs.getLast?, o.ruleId ∉ rules.map Rule.id)
    (h : ¬ ∃ r ∈ rules, r.Blocking ∧ r.Matches regex ctx) :
    evaluateFrom regex false ctx rules outputs flags =
      (if (flags ++ flagging regex ctx rules).isEmpty then .allow
        else .flaggedAllow (flags ++ flagging regex ctx rules),
        outputs ++ rules.map (Rule.output regex ctx)) := by
  induction rules generalizing outputs flags with
  | nil => simp [evaluateFrom, flagging]
  | cons rule rest ih =>
    rw [map_cons, nodup_cons] at hids
    have hrule : ∀ o ∈ outputs.getLast?, o.ruleId ≠ rule.id :=
      fun o ho heq => hnew o ho (by rw [heq]; exact mem_cons_self)
    have hpass : ¬ (rule.Blocking ∧ rule.Matches regex ctx) :=
      fun hblock => h ⟨rule, mem_cons_self, hblock⟩
    have hflags : flagging regex ctx (rule :: rest) =
        flagging regex ctx [rule] ++ flagging regex ctx rest := by
      rw [flagging, flagging, flagging, ← map_append, ← filter_append]
      rfl
    rw [evaluateFrom_cons rest flags hrule hpass, ih _ _ hids.2, hflags, map_cons,
      append_assoc, append_assoc, singleton_append]
    · intro o ho
      rw [getLast?_concat, Option.mem_some_iff] at ho
      rw [← ho]
      exact hids.1
    · rintro ⟨r, hr, hblock⟩
      exact h ⟨r, mem_cons_of_mem rule hr, hblock⟩

end

/-! ## Building an evaluator -/

variable {regex : RegexBuilder}

theorem findSome?_badPattern_eq_none {rules : List Rule} : (rules.findSome? fun r =>
      (badPattern regex r).map fun pattern => (r.id, pattern)) = none ↔
      ∀ r ∈ rules, badPattern regex r = none := by
  simp

/-- When every pattern compiles it is the sort that decides. -/
theorem new_of_patterns (h : ∀ r ∈ pf.enabled, badPattern regex r = none) :
    new regex pf = (topoSort pf.enabled).map fun sorted =>
      ⟨sorted, pf.maxDelegationDepth, decide (pf.enforcementMode = .shadow)⟩ := by
  rw [← findSome?_badPattern_eq_none, PolicyFile.enabled] at h
  unfold new
  dsimp only
  rw [h]
  rfl

theorem new_of_badPattern (h : ¬ ∀ r ∈ pf.enabled, badPattern regex r = none) :
    ∃ rule pattern, new regex pf = .error (.error (.invalidRegex rule pattern)) := by
  rw [← findSome?_badPattern_eq_none, PolicyFile.enabled] at h
  obtain ⟨⟨rule, pattern⟩, hbad⟩ := Option.ne_none_iff_exists'.1 h
  refine ⟨rule, pattern, ?_⟩
  unfold new
  dsimp only
  rw [hbad]

/-- An evaluator is built when every pattern compiles and the enabled rules sort. -/
theorem new_eq_ok {ev : RuleEvaluator} : new regex pf = .ok ev ↔
      (∀ r ∈ pf.enabled, badPattern regex r = none) ∧
        topoSort pf.enabled = .ok ev.rules ∧ ev.maxDelegationDepth = pf.maxDelegationDepth ∧
        ev.shadow = decide (pf.enforcementMode = .shadow) := by
  by_cases hall : ∀ r ∈ pf.enabled, badPattern regex r = none
  · rw [new_of_patterns hall]
    obtain ⟨rules, depth, shadow⟩ := ev
    cases hsort : topoSort pf.enabled with
    | error f => simp [Except.map]
    | ok sorted =>
      simp only [Except.map, Except.ok.injEq, mk.injEq]
      constructor
      · rintro ⟨rfl, rfl, rfl⟩
        exact ⟨hall, rfl, rfl, rfl⟩
      · rintro ⟨-, rfl, rfl, rfl⟩
        exact ⟨rfl, rfl, rfl⟩
  · obtain ⟨rule, pattern, hnew⟩ := new_of_badPattern hall
    simp [hnew, hall]

/-- The policy gives no evaluator, and it can be said why. -/
def PolicyFile.Faulty (regex : RegexBuilder) (pf : PolicyFile) : Prop :=
  (∃ r ∈ pf.enabled, badPattern regex r ≠ none) ∨ ¬ DepsKnown pf.enabled ∨
    ¬ Lib.Acyclic (DependsOn pf.enabled)

/-- **Building an evaluator returns**, a result or an error, exactly if the enabled rules have
different ids or the policy has a fault that can be named. -/
theorem new_returns_iff (regex : RegexBuilder) (pf : PolicyFile) : ((∃ ev, new regex pf = .ok ev) ∨
        ∃ e, new regex pf = .error (.error e)) ↔
      (pf.enabled.map Rule.id).Nodup ∨ pf.Faulty regex := by
  unfold PolicyFile.Faulty
  by_cases hall : ∀ r ∈ pf.enabled, badPattern regex r = none
  · have hpanic : topoSort pf.enabled = .error .panic ↔ _ := topoSort_eq_panic
    rw [new_of_patterns hall]
    cases hsort : topoSort pf.enabled with
    | ok sorted =>
      rw [hsort] at hpanic
      simp only [reduceCtorEq, false_iff] at hpanic
      simp only [Except.map, Except.ok.injEq, exists_eq', true_or, true_iff]
      tauto
    | error f =>
      rw [hsort] at hpanic
      cases f with
      | error e =>
        simp only [Except.error.injEq, reduceCtorEq, false_iff] at hpanic
        simp only [Except.map, Except.error.injEq, Failure.error.injEq, exists_eq', or_true,
          true_iff]
        tauto
      | panic =>
        simp only [true_iff] at hpanic
        simp only [Except.map, Except.error.injEq, reduceCtorEq, exists_false, or_self, false_iff]
        tauto
  · obtain ⟨rule, pattern, hnew⟩ := new_of_badPattern hall
    refine iff_of_true (.inr ⟨_, hnew⟩) (.inr (.inl ?_))
    push Not at hall
    exact hall

/-- Two enabled rules with one id, and nothing else wrong. -/
theorem repeated_id_panics :
    let pf : PolicyFile := ⟨"1", [ruleFor "a" [], ruleFor "a" []], none, .enforce⟩
    new (fun _ => none) pf = .error .panic := by
  decide +kernel

theorem of_new {ev : RuleEvaluator} (h : new regex pf = .ok ev) :
    topoSort pf.enabled = .ok ev.rules ∧ ev.maxDelegationDepth = pf.maxDelegationDepth ∧
      ev.shadow = decide (pf.enforcementMode = .shadow) :=
  (new_eq_ok.1 h).2

/-! ## Policies in enforce mode -/

theorem blocks_evaluate {ev : RuleEvaluator} (hshadow : ev.shadow = false) {ctx : EvalContext}
    (h : ∃ r ∈ ev.rules, r.Blocking ∧ r.Matches regex ctx) : (ev.evaluate regex ctx).1.Blocks := by
  unfold evaluate
  rw [hshadow]
  split
  · trivial
  · exact blocks_evaluateFrom [] [] h

/-- **What an evaluator in enforce mode decides.** It blocks exactly when the delegation is too deep
or an enabled rule that blocks matches. Otherwise the flags are the ids of the enabled rules that
flag and match, with one output for each enabled rule, in order. -/
theorem evaluate_enforce {regex : RegexBuilder} {pf : PolicyFile} {ev : RuleEvaluator}
    (hmode : pf.enforcementMode = .enforce) (hids : (pf.rules.map Rule.id).Nodup)
    (hnew : new regex pf = .ok ev) (ctx : EvalContext) : ((ev.evaluate regex ctx).1.Blocks ↔
      (∃ bound, pf.maxDelegationDepth = some bound ∧ bound < ctx.delegationDepth) ∨
        ∃ r ∈ pf.enabled, r.Blocking ∧ r.Matches regex ctx) ∧
    (¬ (ev.evaluate regex ctx).1.Blocks →
      (ev.evaluate regex ctx).1.flags = flagging regex ctx ev.rules ∧
      (ev.evaluate regex ctx).1.flags.Perm (flagging regex ctx pf.enabled) ∧
      ev.rules.Perm pf.enabled ∧
      (ev.evaluate regex ctx).2 = ev.rules.map (Rule.output regex ctx)) := by
  obtain ⟨hsort, hdepth, hshadow⟩ := of_new hnew
  have hperm := perm_of_topoSort hsort
  have henforce : ev.shadow = false := by
    rw [hshadow, hmode]
    rfl
  have hdistinct : (ev.rules.map Rule.id).Nodup :=
    (hperm.map Rule.id).nodup_iff.2 (PolicyFile.nodup_enabled hids)
  have hblocking : (∃ r ∈ ev.rules, r.Blocking ∧ r.Matches regex ctx) ↔
      ∃ r ∈ pf.enabled, r.Blocking ∧ r.Matches regex ctx := by
    simp only [hperm.mem_iff]
  have hflagging : (flagging regex ctx ev.rules).Perm (flagging regex ctx pf.enabled) :=
    (hperm.filter _).map Rule.id
  unfold evaluate
  rw [hdepth]
  cases hbound : pf.maxDelegationDepth.filter fun bound => bound < ctx.delegationDepth with
  | some bound =>
    obtain ⟨hsome, hlt⟩ := Option.filter_eq_some_iff.1 hbound
    simp [henforce, EvalDecision.Blocks, hsome, of_decide_eq_true hlt]
  | none =>
    have hno : ¬ ∃ bound, pf.maxDelegationDepth = some bound ∧ bound < ctx.delegationDepth := by
      rintro ⟨bound, hsome, hlt⟩
      rw [hsome] at hbound
      simp [Option.filter, hlt] at hbound
    rw [henforce, or_iff_right hno, ← hblocking]
    by_cases hblock : ∃ r ∈ ev.rules, r.Blocking ∧ r.Matches regex ctx
    · have hresult := blocks_evaluateFrom [] [] hblock
      exact ⟨iff_of_true hresult hblock, fun h => absurd hresult h⟩
    have heq := evaluateFrom_eq [] [] hdistinct (by simp) hblock
    rw [nil_append] at heq
    rw [heq]
    by_cases hempty : (flagging regex ctx ev.rules).isEmpty = true
    · rw [if_pos hempty]
      refine ⟨iff_of_false id hblock, fun _ => ⟨?_, ?_, hperm, rfl⟩⟩
      · exact (isEmpty_iff.1 hempty).symm
      · rw [isEmpty_iff.1 hempty] at hflagging
        exact hflagging
    · rw [if_neg hempty]
      exact ⟨iff_of_false id hblock, fun _ => ⟨rfl, hflagging, hperm, rfl⟩⟩

/-- Two rules that flag, the first depending on the second, and a disabled one. -/
def flagBoth : PolicyFile :=
  ⟨"1", [ruleFor "b" ["a"], ruleFor "a" [], { ruleFor "off" [] with disabled := true }], some 2,
    .enforce⟩

def smallTransfer : EvalContext :=
  ⟨"bot", "transfer", 5, "USD", "carol", 0, 0, 0, false, 1, 0, false, false, 0, false, false⟩

theorem small_transfer_flagged :
    let ev : RuleEvaluator := ⟨[ruleFor "a" [], ruleFor "b" ["a"]], some 2, false⟩
    new (fun _ => none) flagBoth = .ok ev ∧
      (ev.evaluate (fun _ => none) smallTransfer).1.flags = ["a", "b"] ∧
      ev.rules.Perm flagBoth.enabled := by
  have hnew : new (fun _ => none) flagBoth =
      .ok ⟨[ruleFor "a" [], ruleFor "b" ["a"]], some 2, false⟩ := by decide +kernel
  obtain ⟨hflags, -, hperm, -⟩ := (evaluate_enforce rfl (by decide +kernel) hnew smallTransfer).2
    (by decide +kernel)
  refine ⟨hnew, hflags.trans ?_, hperm⟩
  decide +kernel

/-! ## Shadow mode

An evaluator in shadow mode goes through all rules and turns every denial into a flag. But a
delegation that is too deep is reported alone. -/

/-- The chain of delegations is longer than the policy allows. -/
def PolicyFile.DepthExceeded (pf : PolicyFile) (ctx : EvalContext) : Prop :=
  ∃ bound, pf.maxDelegationDepth = some bound ∧ bound < ctx.delegationDepth

section

variable (regex : RegexBuilder) (ctx : EvalContext)

/-- The rule has something to say about the request. -/
def Rule.Speaks (r : Rule) : Prop := r.action ≠ .allow ∧ r.Matches regex ctx
deriving Decidable

/-- The ids of the rules that match and do more than allow. -/
def speaking (rules : List Rule) : List String :=
  (rules.filter fun r => r.Speaks regex ctx).map Rule.id

variable {regex ctx}

theorem mem_speaking {rules : List Rule} {id : String} :
    id ∈ speaking regex ctx rules ↔ ∃ r ∈ rules, r.Speaks regex ctx ∧ r.id = id := by
  simp [speaking, and_assoc]

/-- The decision when nothing blocks. -/
def EvalDecision.ofFlags (flags : List String) : EvalDecision :=
  if flags.isEmpty then .allow else .flaggedAllow flags

@[simp] theorem flags_ofFlags (flags : List String) :
    (EvalDecision.ofFlags flags).flags = flags := by
  cases flags <;> rfl

@[simp] theorem not_blocks_ofFlags (flags : List String) :
    ¬ (EvalDecision.ofFlags flags).Blocks := by
  cases flags <;> exact id

/-- In shadow mode the loop goes on after every rule, with its id if it says something. -/
theorem evaluateFrom_shadow (rules : List Rule) (outputs : List RuleOutput) (flags : List String) :
    (evaluateFrom regex true ctx rules outputs flags).1 =
      .ofFlags (flags ++ speaking regex ctx rules) := by
  induction rules generalizing outputs flags with
  | nil => simp [evaluateFrom, speaking, EvalDecision.ofFlags]
  | cons rule rest ih =>
    rw [evaluateFrom]
    by_cases hmatch : evalCondition regex rule.condition ctx = true
    · cases haction : rule.action <;>
        simp [ih, speaking, Rule.Speaks, Rule.Matches, hmatch, haction]
    · rw [if_neg hmatch, ih]
      simp [speaking, Rule.Speaks, Rule.Matches, hmatch]

end

/-- What an evaluator in shadow mode decides. -/
theorem evaluate_shadow {regex : RegexBuilder} {pf : PolicyFile} {ev : RuleEvaluator}
    (hmode : pf.enforcementMode = .shadow) (hnew : new regex pf = .ok ev) (ctx : EvalContext) :
    (pf.DepthExceeded ctx → (ev.evaluate regex ctx).1 = .ofFlags ["__delegation_depth"]) ∧
      (¬ pf.DepthExceeded ctx →
        (ev.evaluate regex ctx).1 = .ofFlags (speaking regex ctx ev.rules)) := by
  obtain ⟨-, hdepth, hshadow⟩ := of_new hnew
  rw [hmode] at hshadow
  unfold evaluate PolicyFile.DepthExceeded
  rw [hdepth, hshadow]
  cases hbound : pf.maxDelegationDepth.filter fun bound => bound < ctx.delegationDepth with
  | some bound =>
    obtain ⟨hsome, hlt⟩ := Option.filter_eq_some_iff.1 hbound
    exact ⟨fun _ => rfl, fun hnot => absurd ⟨bound, hsome, of_decide_eq_true hlt⟩ hnot⟩
  | none =>
    refine ⟨?_, fun _ => ?_⟩
    · rintro ⟨bound, hsome, hlt⟩
      exact absurd (decide_eq_true hlt) (Option.filter_eq_none_iff.1 hbound bound hsome)
    · exact (evaluateFrom_shadow ev.rules [] []).trans (by rw [nil_append])

/-- **Shadow mode reports everything** exactly if the delegation is not too deep, or nothing else is
to be reported. It never blocks. -/
theorem shadow_reports_iff {regex : RegexBuilder} {pf : PolicyFile} {ev : RuleEvaluator}
    (hmode : pf.enforcementMode = .shadow) (hnew : new regex pf = .ok ev) (ctx : EvalContext) :
    (¬ (ev.evaluate regex ctx).1.Blocks ∧
      (∀ r ∈ pf.enabled, r.Speaks regex ctx → r.id ∈ (ev.evaluate regex ctx).1.flags) ∧
      (pf.DepthExceeded ctx → "__delegation_depth" ∈ (ev.evaluate regex ctx).1.flags)) ↔
    ¬ pf.DepthExceeded ctx ∨
      ∀ r ∈ pf.enabled, r.Speaks regex ctx → r.id = "__delegation_depth" := by
  have hperm := perm_of_topoSort (of_new hnew).1
  obtain ⟨hdeep, hshallow⟩ := evaluate_shadow hmode hnew ctx
  by_cases hexceeded : pf.DepthExceeded ctx
  · simp [hdeep hexceeded, hexceeded]
  · rw [hshallow hexceeded]
    simp only [not_blocks_ofFlags, flags_ofFlags, mem_speaking, hexceeded, not_false_eq_true,
      false_implies, and_true, true_and, true_or, iff_true]
    exact fun r hr hspeaks => ⟨r, hperm.mem_iff.2 hr, hspeaks, rfl⟩

/-- Denies every transfer of more than nothing. -/
def denyAll : Rule := { ruleFor "deny" [] with action := .deny }

/-- A shadow policy that denies every transfer and allows no delegation. -/
def shadowDeny : PolicyFile := ⟨"1", [denyAll], some 0, .shadow⟩

/-- The delegation is too deep, and the denying rule is not reported. -/
theorem deep_delegation_hides_denial :
    let ev : RuleEvaluator := ⟨[denyAll], some 0, true⟩
    new (fun _ => none) shadowDeny = .ok ev ∧ denyAll ∈ shadowDeny.enabled ∧
      denyAll.Speaks (fun _ => none) smallTransfer ∧
      (ev.evaluate (fun _ => none) smallTransfer).1 = .flaggedAllow ["__delegation_depth"] := by
  decide +kernel

/-- The agent acts for itself. -/
def ownTransfer : EvalContext := { smallTransfer with delegationDepth := 0 }

theorem own_transfer_reported :
    let ev : RuleEvaluator := ⟨[denyAll], some 0, true⟩
    denyAll.Speaks (fun _ => none) ownTransfer ∧
      "deny" ∈ (ev.evaluate (fun _ => none) ownTransfer).1.flags := by
  have hnew : new (fun _ => none) shadowDeny = .ok ⟨[denyAll], some 0, true⟩ := by
    decide +kernel
  have hspeaks : denyAll.Speaks (fun _ => none) ownTransfer := by decide +kernel
  have hshallow : ¬ shadowDeny.DepthExceeded ownTransfer := by
    rintro ⟨bound, -, hlt⟩
    exact absurd hlt (Nat.not_lt_zero bound)
  obtain ⟨-, hreports, -⟩ := (shadow_reports_iff rfl hnew ownTransfer).2 (.inl hshallow)
  exact ⟨hspeaks, hreports denyAll (by decide +kernel) hspeaks⟩

end Haltchain.Rules

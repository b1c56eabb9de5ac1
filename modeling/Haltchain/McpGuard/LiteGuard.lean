import Haltchain.McpGuard.Pipeline

/-! # The lite guard

`LiteMcpGuard::inspect`: the firewall over the name and the arguments of a call, then the inventory.
The full guard looks for more patterns, but in the name only, and asks the policies first. What the
lite guard blocks as poisoned it therefore lets pass in two cases. -/

namespace Haltchain.McpGuard

open Api (toAsciiLowercase)
open Merkle (MerkleAccumulator)
open Validator (trim)

/-- What the lite guard is built from, besides the shared settings. -/
structure Lite.Environment where
  baselinePath : Option String
  failOpen : Option String

/-- Only if it is asked for, and no inventory was. -/
def Lite.failOpenFromEnv (env : Lite.Environment) (baseline : Option BaselineInventory) : Bool :=
  if baseline.isSome then false
  else if env.baselinePath.any fun v => !(trim v).isEmpty then false
  else env.failOpen.any fun v => v = "1" || toAsciiLowercase v = "true"

structure LiteInspectResult (E : Type) where
  decision : Decision
  envelope : E
  merkleRoot : String

variable {F D E : Type} (k : Toolkit F D E) (g : Settings) (w : World)

/-- The decision of `inspect`. -/
def Lite.decision (env : Lite.Environment) (call : McpToolCall) : Decision :=
  let firewall := Lite.firewallPatterns g.blockedTools
  if poisoned firewall (toAsciiLowercase call.toolName) ||
      poisoned firewall (toAsciiLowercase (k.jsonText call.toolArgs)) then
    .block "known-poisoned-tool" (some "malicious_execution")
  else
    match g.baseline with
    | some baseline =>
      if Lite.isApproved baseline call then .allow
      else .block "unapproved-tool-inventory" (some "unknown")
    | none =>
      if Lite.failOpenFromEnv env g.baseline then .allow
      else .block "no-baseline-configured" (some "unconfigured")

def Lite.inspect (env : Lite.Environment) (call : McpToolCall) (merkle : MerkleAccumulator) :
    LiteInspectResult E × MerkleAccumulator :=
  let decision := Lite.decision k g env call
  let envelope := k.signDecision (k.uuidText w.transactionId) (decisionText decision)
    (k.uuidText call.agentId) w.timestamp "demo-lite"
  let leaf := ⟨k.uuidText w.transactionId, w.timestamp, decisionText decision,
    k.contentHash envelope⟩
  let merkle := merkle.push k.sha256 (w.today, leaf)
  (⟨decision, envelope, (merkle.status k.sha256).rootHex.getD ""⟩, merkle)

/-- The lite guard blocks the call as known-poisoned-tool. -/
def Lite.BlocksAsPoisoned (env : Lite.Environment) (call : McpToolCall)
    (merkle : MerkleAccumulator) : Prop :=
  ∃ intent, (Lite.inspect k g w env call merkle).1.decision = .block "known-poisoned-tool" intent

variable {k g w}

variable {call : McpToolCall}

theorem Lite.blocksAsPoisoned_iff {env : Lite.Environment} {merkle : MerkleAccumulator} :
    Lite.BlocksAsPoisoned k g w env call merkle ↔
      poisoned (Lite.firewallPatterns g.blockedTools) (toAsciiLowercase call.toolName) ∨
        poisoned (Lite.firewallPatterns g.blockedTools)
          (toAsciiLowercase (k.jsonText call.toolArgs)) := by
  rw [← Bool.or_eq_true]
  unfold Lite.BlocksAsPoisoned Lite.inspect Lite.decision
  dsimp only
  constructor
  · rintro ⟨intent, h⟩
    by_contra hclean
    rw [if_neg hclean] at h
    split at h <;> split at h <;> simp at h
  · intro h
    exact ⟨_, if_pos h⟩

/-- A call that leaves with an allowing decision is allowed if the audit goes through. -/
theorem ok_allow_iff_of_decided {s : GuardState F D E} {reason : Option String}
    {embedding : Option (List F)} (hexit : exit k g w call s = .decided .allow reason embedding) :
    (inspectToolCall k g w call s).1 = .ok .allow ↔ w.outcome g .audit = .committed := by
  have hleaves : Leaves k g w call s (inspectToolCall k g w call s) (exit k g w call s) :=
    leaves_exit call s
  rw [hexit] at hleaves
  obtain ⟨s₁, -, hresult, -⟩ := hleaves
  rw [hresult]
  by_cases hcommitted : w.outcome g .audit = .committed
  · exact iff_of_true (audited_committed call _ _ _ s₁ hcommitted).1 hcommitted
  · obtain ⟨e, herror⟩ := audited_failed (k := k) call .allow reason embedding s₁ hcommitted
    rw [herror]
    exact iff_of_false (by simp) hcommitted

theorem not_ok_allow_of_refuses {s : GuardState F D E} (h : (exit k g w call s).refuses) :
    (inspectToolCall k g w call s).1 ≠ .ok .allow := by
  have hleaves : Leaves k g w call s (inspectToolCall k g w call s) (exit k g w call s) :=
    leaves_exit call s
  cases hexit : exit k g w call s with
  | stopped e =>
    rw [hexit] at hleaves
    simp [hleaves.1]
  | cached =>
    rw [hexit] at h
    exact h.elim
  | decided decision reason embedding =>
    rw [hexit] at h hleaves
    obtain ⟨s₁, -, hresult, -⟩ := hleaves
    rw [hresult]
    by_cases hcommitted : w.outcome g .audit = .committed
    · rw [(audited_committed call _ _ _ s₁ hcommitted).1]
      exact fun heq => h (Except.ok.inj heq)
    · obtain ⟨e, herror⟩ := audited_failed (k := k) call decision reason embedding s₁ hcommitted
      simp [herror]

/-- **When the full guard allows**: by a policy or after all checks, with an audit or from the
cache. -/
theorem inspect_ok_allow_iff {s : GuardState F D E} :
    (inspectToolCall k g w call s).1 = .ok .allow ↔
      (PolicyAllows k g w call s ∧ w.outcome g .audit = .committed) ∨
        (Passes k g w call s ∧ (cacheHolds k g w call s ∨ w.outcome g .audit = .committed)) := by
  have hcases : Passes k g w call s ∨ PolicyAllows k g w call s ∨ (exit k g w call s).refuses :=
    exit_cases call s
  constructor
  · intro h
    rcases hcases with hpasses | hpolicy | hrefuses
    · refine .inr ⟨hpasses, ?_⟩
      by_cases hcache : cacheHolds k g w call s
      · exact .inl hcache
      · have hexit := exit_of_passes hpasses
        rw [if_neg hcache] at hexit
        exact .inr ((ok_allow_iff_of_decided hexit).1 h)
    · obtain ⟨reason, hexit⟩ := exit_of_policyAllows hpolicy
      exact .inl ⟨hpolicy, (ok_allow_iff_of_decided hexit).1 h⟩
    · exact absurd h (not_ok_allow_of_refuses hrefuses)
  · rintro (⟨hpolicy, hcommitted⟩ | ⟨hpasses, hcache⟩)
    · obtain ⟨reason, hexit⟩ := exit_of_policyAllows hpolicy
      exact (ok_allow_iff_of_decided hexit).2 hcommitted
    · have hexit := exit_of_passes hpasses
      by_cases hhit : cacheHolds k g w call s
      · have hleaves : Leaves k g w call s (inspectToolCall k g w call s) (exit k g w call s) :=
          leaves_exit call s
        rw [hexit, if_pos hhit] at hleaves
        exact hleaves.1
      · rw [if_neg hhit] at hexit
        exact (ok_allow_iff_of_decided hexit).2 (hcache.resolve_left hhit)

/-! ## Which of the two is stricter -/

/-- A query for policies does not find a table with rows missing. -/
def World.FindsPolicies (w : World) (g : Settings) (table : List PolicyRecord) : Prop :=
  ∀ e, w.outcome g .policies = .rejected e → isMissingRelation e → table = []

theorem firstPolicy_of_evaluatePolicies {db : Database F D E} {o : Option PolicyOutcome}
    (hfinds : w.FindsPolicies g db.policies) (h : evaluatePolicies k g w call db = .ok o) :
    firstPolicy k.jsonText k.parsePolicy call (policyRows db.policies call) = o := by
  unfold evaluatePolicies at h
  split at h
  · next e hrejected =>
    split at h
    · next hmissing =>
      rw [hfinds e hrejected hmissing]
      exact Except.ok.inj h
    · cases h
  · cases houtcome : w.outcome g .policies <;> rw [houtcome] at h <;> cases h
    rfl

variable (k g) in
/-- The full guard allows nothing that the lite one blocks as poisoned, with these policies and
whatever databases, cache and failures. -/
def FullAsStrict (call : McpToolCall) (table : List PolicyRecord) : Prop :=
  ∀ (w w' : World) (env : Lite.Environment) (merkle : MerkleAccumulator) (s : GuardState F D E),
    s.db.policies = table → w.FindsPolicies g table →
    Lite.BlocksAsPoisoned k g w' env call merkle → (inspectToolCall k g w call s).1 ≠ .ok .allow

variable (k g) in
/-- What the full guard has against the call regardless of history: the first matching policy, or
the firewall if there is none. -/
def RuledOut (call : McpToolCall) (table : List PolicyRecord) : Prop :=
  match firstPolicy k.jsonText k.parsePolicy call (policyRows table call) with
  | some o => o.action ≠ .allow
  | none => poisoned (firewallPatterns g.blockedTools) (toAsciiLowercase call.toolName)

theorem calmWorld_outcome (g : Settings) (stage : Stage) :
    calmWorld.outcome g stage = .committed := by
  unfold World.outcome TxFailures.outcome calmWorld noFailures
  cases g.orgEnforcement <;> rfl

/-- Where nothing is recorded and nothing fails, a call not ruled out is allowed. -/
theorem ok_allow_of_not_ruledOut {table : List PolicyRecord} (hzero : k.exceeds k.zero = false)
    (hbaseline : 0 < g.minBaseline) (happroved : g.approves call) (h : ¬RuledOut k g call table) :
    (inspectToolCall k g calmWorld call ⟨.new 1, ⟨table, [], []⟩, .new⟩).1 = .ok .allow := by
  have hpolicies : evaluatePolicies k g calmWorld call (⟨table, [], []⟩ : Database F D E) =
      .ok (firstPolicy k.jsonText k.parsePolicy call (policyRows table call)) := by
    simp [evaluatePolicies, calmWorld_outcome, TxOutcome.read]
  unfold RuledOut at h
  rw [inspect_ok_allow_iff]
  cases hfirst : firstPolicy k.jsonText k.parsePolicy call (policyRows table call) with
  | some o =>
    rw [hfirst] at h hpolicies
    obtain ⟨action, reason⟩ := o
    obtain rfl : action = .allow := not_not.1 h
    exact .inl ⟨⟨happroved, reason, hpolicies⟩, calmWorld_outcome g .audit⟩
  | none =>
    rw [hfirst] at h hpolicies
    refine .inr ⟨⟨happroved, hpolicies, h, ⟨k.zero, ?_, by simp [hzero]⟩, ?_, ?_⟩,
      .inr (calmWorld_outcome g .audit)⟩
    · simp [checkDrift, newestFirst, calmWorld_outcome, TxOutcome.read, hbaseline]
    · simp [detectCrossAgentCorrelation, newestFirst, calmWorld_outcome, TxOutcome.read]
    · simp [historicalConsistency, calmWorld_outcome, TxOutcome.read]

/-- **Is the full guard as strict?** It is for a call that the lite guard does not find poisoned,
that the inventory refuses, or that is ruled out. Any other it allows in some state, if the drift
score 0 is tolerated and an empty history is no baseline. -/
theorem full_as_strict_iff (k : Toolkit F D E) (g : Settings) (call : McpToolCall)
    (table : List PolicyRecord) :
    ((poisoned (Lite.firewallPatterns g.blockedTools) (toAsciiLowercase call.toolName) ∨
        poisoned (Lite.firewallPatterns g.blockedTools)
          (toAsciiLowercase (k.jsonText call.toolArgs)) →
      g.approves call → RuledOut k g call table) → FullAsStrict k g call table) ∧
    (k.exceeds k.zero = false → 0 < g.minBaseline → FullAsStrict k g call table →
      poisoned (Lite.firewallPatterns g.blockedTools) (toAsciiLowercase call.toolName) ∨
        poisoned (Lite.firewallPatterns g.blockedTools)
          (toAsciiLowercase (k.jsonText call.toolArgs)) →
      g.approves call → RuledOut k g call table) := by
  constructor
  · rintro hruled w w' env merkle s rfl hfinds hlite hallow
    have hruled := hruled (Lite.blocksAsPoisoned_iff.1 hlite)
    unfold RuledOut at hruled
    rcases inspect_ok_allow_iff.1 hallow with ⟨⟨happroved, reason, hpolicy⟩, -⟩ | ⟨hpasses, -⟩
    · rw [firstPolicy_of_evaluatePolicies hfinds hpolicy] at hruled
      exact hruled happroved rfl
    · rw [firstPolicy_of_evaluatePolicies hfinds hpasses.policies] at hruled
      exact hpasses.unpoisoned (hruled hpasses.approved)
  · intro hzero hbaseline hstrict hlite happroved
    by_contra hnot
    refine hstrict calmWorld calmWorld ⟨none, none⟩ (.new 1) ⟨.new 1, ⟨table, [], []⟩, .new⟩ rfl ?_
      (Lite.blocksAsPoisoned_iff.2 hlite) (ok_allow_of_not_ruledOut hzero hbaseline happroved hnot)
    intro e hrejected
    rw [calmWorld_outcome] at hrejected
    cases hrejected

/-- `search` with `rm -rf /` is poisoned for the lite guard, allowed by the full one. -/
theorem poisoned_arguments_pass :
    let call := { searchCall with toolArgs := .string "rm -rf /" }
    (Lite.inspect plainKit defaultSettings calmWorld ⟨none, none⟩ call (.new 1)).1.decision =
        .block "known-poisoned-tool" (some "malicious_execution") ∧
      (inspectToolCall plainKit defaultSettings calmWorld call emptyState).1 = .ok .allow := by
  decide

end Haltchain.McpGuard

import Haltchain.Validator.Pipeline

/-! # The circuit breakers of the policy domains

`crates/policy/src`: seven breakers, each a row of checks on the context of an action that returns
at the first objection, and the aggregate that runs them. Floats are rationals. How `{:?}` shows a
string is a parameter (`quote`). -/

namespace Haltchain.Policy

open List

open Validator (fixed maxActionsPerMinute)

/-- What a breaker says. -/
inductive PolicyResult where
  | pass
  | deny (reason policy : String)
deriving DecidableEq

namespace PolicyResult

/-- It is no pass. -/
def Denies (r : PolicyResult) : Prop := r ≠ .pass
deriving Decidable

/-- The first objection of a row of early returns. -/
def first : List PolicyResult → PolicyResult
  | [] => .pass
  | .pass :: rest => first rest
  | .deny reason policy :: _ => .deny reason policy

/-- A value that is there and above its limit. -/
def aboveLimit {α : Type} [LT α] [DecidableLT α] (value : Option α) (limit : α)
    (reason : α → String) (policy : String) : PolicyResult :=
  match value with
  | some x => if limit < x then .deny (reason x) policy else .pass
  | none => .pass

/-- Denies on a condition. -/
def denyIf (c : Prop) [Decidable c] (reason policy : String) : PolicyResult :=
  if c then .deny reason policy else .pass

@[simp] theorem not_denies_pass : ¬ Denies .pass := fun h => h rfl

@[simp] theorem denies_first (rs : List PolicyResult) : (first rs).Denies ↔ ∃ r ∈ rs, r.Denies := by
  induction rs with
  | nil => simp [first]
  | cons r rs ih =>
    cases r with
    | pass => rw [first, ih]; simp
    | deny reason policy => simp [first, Denies]

@[simp] theorem denies_aboveLimit {α : Type} [LT α] [DecidableLT α] (value : Option α) (limit : α)
    (reason : α → String) (policy : String) :
    (aboveLimit value limit reason policy).Denies ↔ ∃ x ∈ value, limit < x := by
  cases value with
  | none => simp [aboveLimit]
  | some x => by_cases h : limit < x <;> simp [aboveLimit, Denies]

@[simp] theorem denies_denyIf (c : Prop) [Decidable c] (reason policy : String) :
    (denyIf c reason policy).Denies ↔ c := by
  by_cases h : c <;> simp [denyIf, Denies]

end PolicyResult

/-- `{:.0}`, a number without its decimals. -/
def rounded (q : Rat) : String := .ofList ((fixed 0 q).toList.takeWhile (· ≠ '.'))

structure ActionContext where
  agentId : String
  -- Financial
  transferAmountUsd : Option Rat := none
  actionsPerMinute : Option Nat := none
  -- Privacy
  piiFieldCount : Option Nat := none
  requestedColumns : Option Nat := none
  taskNecessaryColumns : Option Nat := none
  crossBorderRestricted : Option Bool := none
  -- Security
  declaredScopes : Option (List String) := none
  requestedScopes : Option (List String) := none
  accessingUndeclaredService : Option Bool := none
  -- Operational
  cpuPercent : Option Rat := none
  memoryPercent : Option Rat := none
  dependencyCascadeDepth : Option Nat := none
  -- Compliance
  destinationJurisdiction : Option String := none
  registeredSchemaFields : Option (List String) := none
  payloadFields : Option (List String) := none
  payloadContainsPii : Option Bool := none
  gdprDeletionRequested : Option Bool := none
  retentionDaysRequested : Option Nat := none
  -- Resource
  tokensPerMinute : Option Rat := none
  computeSecondsPerHour : Option Rat := none
  maxTokensPerMinute : Option Rat := none
  maxComputeSecondsPerHour : Option Rat := none
  apiRateLimitPct : Option Rat := none
  -- Egress
  egressBytes : Option Nat := none
  maxEgressBytesPerMinute : Option Nat := none

/-- The trait. A breaker has no state of its own. -/
structure CircuitBreaker where
  domain : String
  evaluate : ActionContext → PolicyResult

open PolicyResult

/-! ## The domains -/

/-- The limit of a transfer. -/
def maxTransferUsd : Rat := 1000

/-- The limits on money. -/
structure FinancialBreaker where
  maxTransferUsd : Rat := Policy.maxTransferUsd
  maxActionsPerMinute : Nat := Validator.maxActionsPerMinute

/-- The financial domain. -/
def FinancialBreaker.evaluate (b : FinancialBreaker) (ctx : ActionContext) : PolicyResult :=
  first [
    aboveLimit ctx.transferAmountUsd b.maxTransferUsd
      (fun amt => s!"Transfer ${fixed 2 amt} exceeds ${fixed 2 b.maxTransferUsd} " ++
        "per-transaction limit")
      "MAX_TRANSFER_USD",
    aboveLimit ctx.actionsPerMinute b.maxActionsPerMinute
      (fun apm => s!"{apm} actions/min exceeds limit of {b.maxActionsPerMinute}")
      "MAX_ACTIONS_PER_MINUTE"]

structure PrivacyBreaker where
  maxPiiFields : Nat := 10
  /-- Ratio of requested to necessary columns. -/
  overCollectionRatio : Rat := 2

/-- More columns than the task needs, by more than the ratio. -/
def PrivacyBreaker.OverCollects (b : PrivacyBreaker) (ctx : ActionContext) : Prop :=
  ∃ req ∈ ctx.requestedColumns, ∃ needed ∈ ctx.taskNecessaryColumns,
    ((max needed 1 : Nat) : Rat) * b.overCollectionRatio < (req : Rat)

instance (b : PrivacyBreaker) (ctx : ActionContext) : Decidable (b.OverCollects ctx) := by
  unfold PrivacyBreaker.OverCollects
  infer_instance

/-- The privacy domain. -/
def PrivacyBreaker.evaluate (b : PrivacyBreaker) (ctx : ActionContext) : PolicyResult :=
  first [
    aboveLimit ctx.piiFieldCount b.maxPiiFields
      (fun pii => s!"High PII density: {pii} fields detected") "PII_CONCENTRATION",
    denyIf (b.OverCollects ctx) "Over-collection violates data minimisation principle"
      "DATA_MINIMISATION",
    denyIf (ctx.crossBorderRestricted = some true)
      "Cross-border transfer requires GDPR Article 44 mechanism" "CROSS_BORDER_TRANSFER"]

section

variable (quote : String → String)

/-- `{:?}` of a list of strings. -/
def debugList (xs : List String) : String := "[" ++ ", ".intercalate (xs.map quote) ++ "]"

/-- What is used undeclared: nothing, if either list is missing. -/
def undeclared (declared used : Option (List String)) : List String :=
  match declared, used with
  | some declared, some used => used.filter (· ∉ declared)
  | _, _ => []

/-- The breaker `SecurityBreaker`, which has no settings. -/
def SecurityBreaker.evaluate (ctx : ActionContext) : PolicyResult :=
  let scopeCreep := undeclared ctx.declaredScopes ctx.requestedScopes
  first [
    denyIf (scopeCreep ≠ []) s!"Undeclared OAuth scopes requested: {debugList quote scopeCreep}"
      "SCOPE_CREEP",
    denyIf (ctx.accessingUndeclaredService = some true)
      "Lateral access to service outside declared dependency graph" "LATERAL_MOVEMENT"]

/-- The limits on operations. -/
structure OperationalBreaker where
  maxCpuPercent : Rat := 90
  maxMemoryPercent : Rat := 85
  maxCascadeDepth : Nat := 5

/-- The operational domain. -/
def OperationalBreaker.evaluate (b : OperationalBreaker) (ctx : ActionContext) : PolicyResult :=
  first [
    aboveLimit ctx.cpuPercent b.maxCpuPercent
      (fun cpu => s!"CPU at {fixed 1 cpu}% — resource exhaustion risk") "CPU_EXHAUSTION",
    aboveLimit ctx.memoryPercent b.maxMemoryPercent
      (fun mem => s!"Memory at {fixed 1 mem}% — resource exhaustion risk") "MEMORY_EXHAUSTION",
    aboveLimit ctx.dependencyCascadeDepth b.maxCascadeDepth
      (fun depth => s!"Dependency cascade depth {depth} exceeds limit") "DEPENDENCY_CASCADE"]

structure ComplianceBreaker where
  /-- All are allowed if it is empty. -/
  allowedJurisdictions : List String := []
  /-- Seven years. -/
  maxRetentionDays : Nat := 2555

/-- The compliance domain. -/
def ComplianceBreaker.evaluate (b : ComplianceBreaker) (ctx : ActionContext) : PolicyResult :=
  let extras := undeclared ctx.registeredSchemaFields ctx.payloadFields
  first [
    match ctx.destinationJurisdiction with
    | some dest =>
      denyIf (b.allowedJurisdictions ≠ [] ∧ dest ∉ b.allowedJurisdictions)
        s!"Destination jurisdiction '{dest}' is not in the allow-list" "JURISDICTION_NOT_ALLOWED"
    | none => .pass,
    denyIf (ctx.payloadContainsPii = some true ∧ extras ≠ [])
      s!"Schema violation with PII: undeclared fields {debugList quote extras}"
      "SCHEMA_PII_VIOLATION",
    denyIf (ctx.gdprDeletionRequested = some true)
      "Agent attempted action on data subject to a GDPR deletion request" "GDPR_DELETION_BLOCK",
    aboveLimit ctx.retentionDaysRequested b.maxRetentionDays
      (fun days => s!"Retention of {days} days exceeds policy maximum of {b.maxRetentionDays}")
      "RETENTION_VIOLATION"]

/-- The limits on resources. -/
structure ResourceBreaker where
  maxTokensPerMinute : Rat := 100000
  maxComputeSecondsPerHour : Rat := 3600
  /-- Percent of the limit. -/
  apiRateLimitWarnPct : Rat := 90

/-- The limits of the context come before those of the breaker. -/
def ResourceBreaker.evaluate (b : ResourceBreaker) (ctx : ActionContext) : PolicyResult :=
  let maxTpm := ctx.maxTokensPerMinute.getD b.maxTokensPerMinute
  let maxCs := ctx.maxComputeSecondsPerHour.getD b.maxComputeSecondsPerHour
  first [
    aboveLimit ctx.tokensPerMinute maxTpm
      (fun tpm => s!"Token rate {rounded tpm} TPM exceeds limit {rounded maxTpm}")
      "TOKEN_RATE_EXCEEDED",
    aboveLimit ctx.computeSecondsPerHour maxCs
      (fun cs => s!"Compute {fixed 1 cs}s/hr exceeds limit {fixed 1 maxCs}s/hr")
      "COMPUTE_EXCEEDED",
    aboveLimit ctx.apiRateLimitPct b.apiRateLimitWarnPct
      (fun pct => s!"API rate limit at {fixed 1 pct}% — throttling to protect quota")
      "API_RATE_LIMIT"]

/-- The limit on egress. -/
structure EgressBreaker where
  /-- 50 MB. -/
  maxBytesPerMinute : Nat := 50 * 1024 * 1024

/-- The egress domain. -/
def EgressBreaker.evaluate (b : EgressBreaker) (ctx : ActionContext) : PolicyResult :=
  let limit := ctx.maxEgressBytesPerMinute.getD b.maxBytesPerMinute
  first [
    aboveLimit ctx.egressBytes limit
      (fun bytes => s!"Egress volume {bytes} bytes exceeds limit {limit} bytes/min")
      "EGRESS_VOLUME_EXCEEDED"]

/-! ## The aggregate -/

inductive AggregateMode where
  /-- Deny only when every breaker denies. -/
  | all
  /-- Deny when any breaker denies. -/
  | any

/-- Breakers with a mode. -/
structure AggregateBreaker where
  breakers : List CircuitBreaker
  mode : AggregateMode

namespace AggregateBreaker

/-- The six domains that both defaults share. -/
def sixDomains : List CircuitBreaker := [
  ⟨"financial", ({} : FinancialBreaker).evaluate⟩,
  ⟨"privacy", ({} : PrivacyBreaker).evaluate⟩,
  ⟨"security", SecurityBreaker.evaluate quote⟩,
  ⟨"operational", ({} : OperationalBreaker).evaluate⟩,
  ⟨"compliance", ({} : ComplianceBreaker).evaluate quote⟩,
  ⟨"resource", ({} : ResourceBreaker).evaluate⟩]

/-- All six must deny. -/
def defaultAll : AggregateBreaker := ⟨sixDomains quote, .all⟩

def defaultAny : AggregateBreaker :=
  ⟨sixDomains quote ++ [⟨"egress", ({} : EgressBreaker).evaluate⟩], .any⟩

/-- The loop of the mode `all`: a breaker that passes ends it. -/
def evaluateAll (ctx : ActionContext) : Option PolicyResult → List CircuitBreaker → PolicyResult
  | firstDeny, [] => firstDeny.getD .pass
  | firstDeny, b :: rest =>
    match b.evaluate ctx with
    | .pass => .pass
    | r => evaluateAll ctx (firstDeny.or (some r)) rest

def evaluate (a : AggregateBreaker) (ctx : ActionContext) : PolicyResult :=
  match a.mode with
  | .any => first (a.breakers.map (·.evaluate ctx))
  | .all => evaluateAll ctx none a.breakers

theorem denies_evaluateAll (ctx : ActionContext) (firstDeny : Option PolicyResult)
    (breakers : List CircuitBreaker) (h : ∀ r ∈ firstDeny, r.Denies) :
    (evaluateAll ctx firstDeny breakers).Denies ↔
      (firstDeny.isSome ∨ breakers ≠ []) ∧ ∀ b ∈ breakers, (b.evaluate ctx).Denies := by
  induction breakers generalizing firstDeny with
  | nil =>
    cases firstDeny with
    | none => simp [evaluateAll]
    | some r => simpa [evaluateAll] using h r rfl
  | cons b rest ih =>
    unfold evaluateAll
    split
    next hpass => simp [hpass]
    next hdeny =>
      have hb : (b.evaluate ctx).Denies := fun hpass => hdeny hpass
      have hor : ∀ r ∈ firstDeny.or (some (b.evaluate ctx)), r.Denies := by
        cases firstDeny with
        | none => simpa using hb
        | some r => simpa using h r rfl
      rw [ih _ hor]
      simp [hb]

/-- **Both modes, as they are named.** Without a breaker nothing is denied. -/
theorem denies_evaluate (a : AggregateBreaker) (ctx : ActionContext) : (a.evaluate ctx).Denies ↔
      match a.mode with
      | .any => ∃ b ∈ a.breakers, (b.evaluate ctx).Denies
      | .all => a.breakers ≠ [] ∧ ∀ b ∈ a.breakers, (b.evaluate ctx).Denies := by
  unfold evaluate
  cases a.mode with
  | any => simp
  | all => simpa using denies_evaluateAll ctx none a.breakers (by simp)

end AggregateBreaker

/-! ### The checks that a declared limit takes part in -/

/-- The context without the limits it can name, the figures held against them, and what is known
about personal data. -/
def ActionContext.unreported (ctx : ActionContext) : ActionContext :=
  { ctx with
    piiFieldCount := none
    payloadContainsPii := none
    payloadFields := none
    tokensPerMinute := none
    computeSecondsPerHour := none
    maxTokensPerMinute := none
    maxComputeSecondsPerHour := none
    egressBytes := none
    maxEgressBytesPerMinute := none }

/-- The fields of a payload with personal data that the schema lacks. -/
def ActionContext.ViolatesSchema (ctx : ActionContext) : Prop :=
  ctx.payloadContainsPii = some true ∧
    undeclared ctx.registeredSchemaFields ctx.payloadFields ≠ []

theorem PrivacyBreaker.denies_iff (b : PrivacyBreaker) (ctx : ActionContext) :
    (b.evaluate ctx).Denies ↔
      (b.evaluate ctx.unreported).Denies ∨ ∃ n ∈ ctx.piiFieldCount, b.maxPiiFields < n := by
  have hspec : ∀ ctx, (b.evaluate ctx).Denies ↔
      (∃ n ∈ ctx.piiFieldCount, b.maxPiiFields < n) ∨ b.OverCollects ctx ∨
        ctx.crossBorderRestricted = some true := fun ctx => by simp [evaluate]
  have hnone : ¬ ∃ n ∈ ctx.unreported.piiFieldCount, b.maxPiiFields < n :=
    fun ⟨_, h, _⟩ => nomatch h
  rw [hspec, hspec, or_iff_right hnone, or_comm]
  rfl

/-- Some jurisdictions are allowed, and the destination is none of them. -/
def ComplianceBreaker.ForbidsDestination (b : ComplianceBreaker) (ctx : ActionContext) : Prop :=
  ∃ dest ∈ ctx.destinationJurisdiction, b.allowedJurisdictions ≠ [] ∧ dest ∉ b.allowedJurisdictions

theorem ComplianceBreaker.denies_iff (b : ComplianceBreaker) (ctx : ActionContext) :
    (b.evaluate quote ctx).Denies ↔
      (b.evaluate quote ctx.unreported).Denies ∨ ctx.ViolatesSchema := by
  have hspec : ∀ ctx, (b.evaluate quote ctx).Denies ↔
      ctx.ViolatesSchema ∨ b.ForbidsDestination ctx ∨ ctx.gdprDeletionRequested = some true ∨
        ∃ n ∈ ctx.retentionDaysRequested, b.maxRetentionDays < n := by
    intro ctx
    rw [or_left_comm]
    cases hd : ctx.destinationJurisdiction <;>
      simp [evaluate, ForbidsDestination, ActionContext.ViolatesSchema, hd]
  have hnone : ¬ ctx.unreported.ViolatesSchema := fun h => nomatch h.1
  rw [hspec, hspec, or_iff_right hnone, or_comm]
  rfl

theorem ResourceBreaker.denies_iff (b : ResourceBreaker) (ctx : ActionContext) :
    (b.evaluate ctx).Denies ↔
      (b.evaluate ctx.unreported).Denies ∨
      (∃ x ∈ ctx.tokensPerMinute, ctx.maxTokensPerMinute.getD b.maxTokensPerMinute < x) ∨
      ∃ x ∈ ctx.computeSecondsPerHour,
        ctx.maxComputeSecondsPerHour.getD b.maxComputeSecondsPerHour < x := by
  have hspec : ∀ ctx, (b.evaluate ctx).Denies ↔
      ((∃ x ∈ ctx.tokensPerMinute, ctx.maxTokensPerMinute.getD b.maxTokensPerMinute < x) ∨
        ∃ x ∈ ctx.computeSecondsPerHour,
          ctx.maxComputeSecondsPerHour.getD b.maxComputeSecondsPerHour < x) ∨
        ∃ x ∈ ctx.apiRateLimitPct, b.apiRateLimitWarnPct < x := fun ctx => by
    simp [evaluate, or_assoc]
  have hnone : ¬ ((∃ x ∈ ctx.unreported.tokensPerMinute,
      ctx.unreported.maxTokensPerMinute.getD b.maxTokensPerMinute < x) ∨
      ∃ x ∈ ctx.unreported.computeSecondsPerHour,
        ctx.unreported.maxComputeSecondsPerHour.getD b.maxComputeSecondsPerHour < x) := by
    rintro (⟨_, h, _⟩ | ⟨_, h, _⟩) <;> exact nomatch h
  rw [hspec, hspec, or_iff_right hnone, or_comm]
  rfl

theorem EgressBreaker.denies_iff (b : EgressBreaker) (ctx : ActionContext) :
    (b.evaluate ctx).Denies ↔
      ∃ n ∈ ctx.egressBytes, ctx.maxEgressBytesPerMinute.getD b.maxBytesPerMinute < n := by
  simp [evaluate]

/-- **What the seven domains deny**: what they deny without the reported figures, and each figure
above its limit. -/
theorem AggregateBreaker.denies_defaultAny (ctx : ActionContext) :
    ((defaultAny quote).evaluate ctx).Denies ↔
      ((defaultAny quote).evaluate ctx.unreported).Denies ∨
      (∃ x ∈ ctx.tokensPerMinute, ctx.maxTokensPerMinute.getD 100000 < x) ∨
      (∃ x ∈ ctx.computeSecondsPerHour, ctx.maxComputeSecondsPerHour.getD 3600 < x) ∨
      (∃ n ∈ ctx.egressBytes, ctx.maxEgressBytesPerMinute.getD (50 * 1024 * 1024) < n) ∨
      (∃ n ∈ ctx.piiFieldCount, 10 < n) ∨ ctx.ViolatesSchema := by
  have hmem : ∀ ctx, ((defaultAny quote).evaluate ctx).Denies ↔
      (({} : FinancialBreaker).evaluate ctx).Denies ∨ (({} : PrivacyBreaker).evaluate ctx).Denies ∨
      (SecurityBreaker.evaluate quote ctx).Denies ∨
      (({} : OperationalBreaker).evaluate ctx).Denies ∨
      (({} : ComplianceBreaker).evaluate quote ctx).Denies ∨
      (({} : ResourceBreaker).evaluate ctx).Denies ∨
      (({} : EgressBreaker).evaluate ctx).Denies := by
    intro ctx
    rw [denies_evaluate]
    simp only [defaultAny, sixDomains, cons_append, nil_append, mem_cons,
      not_mem_nil, or_false, exists_eq_or_imp, exists_eq_left]
  have hegress : ¬ (({} : EgressBreaker).evaluate ctx.unreported).Denies := by
    rw [EgressBreaker.denies_iff]
    exact fun ⟨_, h, _⟩ => nomatch h
  -- three domains read nothing that is left out
  have hfinancial : ({} : FinancialBreaker).evaluate ctx.unreported =
      ({} : FinancialBreaker).evaluate ctx := rfl
  have hsecurity : SecurityBreaker.evaluate quote ctx.unreported =
      SecurityBreaker.evaluate quote ctx := rfl
  have hoperational : ({} : OperationalBreaker).evaluate ctx.unreported =
      ({} : OperationalBreaker).evaluate ctx := rfl
  rw [hmem, PrivacyBreaker.denies_iff, ComplianceBreaker.denies_iff,
    ResourceBreaker.denies_iff, EgressBreaker.denies_iff]
  grind

end

end Haltchain.Policy

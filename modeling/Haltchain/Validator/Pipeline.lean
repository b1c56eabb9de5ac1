import Haltchain.Cache.DecisionCache
import Haltchain.Consensus.Quorum
import Haltchain.Validator.AgentState

/-! # The validation pipeline

`validate_inner` of the validator crate, cut where it takes and releases locks. A request is
admitted (registry and tool guard), looked up in the decision cache, and decided in one section
under the lock of its agent: a short one for a cached ALLOW, and otherwise the chain of checks.

What the evaluators answer in one run of the chain is a `Verdicts`; what the chain makes of it is
modelled here. A `Readings` has the readings of the clock that the section makes. Floats are
rationals, and the signature fields of a response, which are filled in later, are left out. -/

namespace Haltchain.Validator

open Consensus
open Cache (CachedDecision)

/-! ## Requests and responses -/

inductive DataSource where
  | userInput
  | systemGenerated
  | externalApi
  | agentGenerated
deriving DecidableEq

def DataSource.threatMultiplier : DataSource → Rat
  | .externalApi => 3 / 2
  | .userInput => 13 / 10
  | .agentGenerated => 6 / 5
  | .systemGenerated => 1

/-- A request for validation. -/
structure ValidationRequest where
  agentId : String
  actionType : String
  amount : Option Rat
  recipient : Option String
  dataSource : DataSource
deriving DecidableEq

/-- What a validation decides. -/
inductive Decision where
  | allow
  | deny
  | circuitBreak
  | goalClarificationRequired
deriving DecidableEq

structure ValidationResponse where
  decision : Decision
  transactionId : String
  timestamp : String
  circuitBreakerActive : Bool
  reason : Option String
  policy : Option String
  actionsThisMinute : Nat
  rateLimit : Nat
  deferredScanId : Option String
  capabilityRisk : Option String
deriving DecidableEq

/-- What `validate_inner` draws at its start. -/
structure Stamp where
  transactionId : String
  timestamp : String

/-- A response without scan or risk data. Only CIRCUIT_BREAK reports the breaker active. -/
def respond (stamp : Stamp) (decision : Decision) (reason policy : Option String)
    (actions rateLimit : Nat) : ValidationResponse where
  decision := decision
  transactionId := stamp.transactionId
  timestamp := stamp.timestamp
  circuitBreakerActive := decision = .circuitBreak
  reason := reason
  policy := policy
  actionsThisMinute := actions
  rateLimit := rateLimit
  deferredScanId := none
  capabilityRisk := none

/-- A number with `d` decimals, rounded to the nearest, in a tie to the even one. -/
def fixed (d : Nat) (q : Rat) : String :=
  let scaled := q.num.natAbs * 10 ^ d
  let down := scaled / q.den
  let rest := 2 * (scaled % q.den)
  let n := if q.den < rest ∨ (rest = q.den ∧ down % 2 = 1) then down + 1 else down
  let frac := toString (n % 10 ^ d)
  (if q < 0 then "-" else "") ++ toString (n / 10 ^ d) ++ "." ++
    "".pushn '0' (d - frac.length) ++ frac

/-! ## Admission -/

/-- The tool guard's answer, if the request names an organisation. -/
inductive McpVerdict where
  | notAsked
  | unavailable
  | allow
  | block (reason : String) (intent : Option String)
  | quarantine (reviewId reason : String) (intent : Option String)
  | failed

/-- The response to a request turned away before any state is touched; `unregistered` is the
registry's error. -/
def admission (stamp : Stamp) (unregistered : Option String) (mcp : McpVerdict) :
    Option ValidationResponse :=
  let deny (reason policy : String) :=
    some (respond stamp .deny (some reason) (some policy) 0 maxActionsPerMinute)
  match unregistered with
  | some reason => deny reason "UNREGISTERED_AGENT"
  | none =>
    match mcp with
    | .notAsked => none
    | .unavailable => deny "MCP guard unavailable" "MCP_GUARD_UNAVAILABLE"
    | .allow => none
    | .block reason (some intent) =>
      deny s!"MCP blocked tool call: {reason} (intent={intent})" "MCP_BLOCK"
    | .block reason none => deny s!"MCP blocked tool call: {reason}" "MCP_BLOCK"
    | .quarantine reviewId reason (some intent) =>
      deny ("MCP quarantined tool call for human review: " ++
        s!"{reviewId} ({reason}, intent={intent})") "MCP_QUARANTINE"
    | .quarantine reviewId reason none =>
      deny s!"MCP quarantined tool call for human review: {reviewId} ({reason})" "MCP_QUARANTINE"
    | .failed => deny "MCP guard inspection failed" "MCP_GUARD_ERROR"

/-! ## What a section is given and what it leaves -/

structure AnomalyResult where
  score : Rat
  isAnomaly : Bool

/-- `ANOMALY_THRESHOLD`. -/
def anomalyThreshold : Rat := 3 / 5

/-- `ALERT_THRESHOLD` of the embeddings crate. -/
def alertThreshold : Rat := 3 / 20

def defaultMaxEwmaVelocity : Rat := 600

def defaultMaxRecipientTotalPerMinute : Rat := 1000

/-- Untrusted sources make a score count for more. -/
def AnomalyResult.weigh (source : DataSource) (r : AnomalyResult) : AnomalyResult :=
  let m := source.threatMultiplier
  if m ≠ 1 then ⟨r.score * m, anomalyThreshold < r.score * m⟩ else r

/-- What the rules say. -/
inductive RuleVerdict where
  | pass
  | deny (ruleId message : String)
  | circuitBreak (ruleId message : String)
deriving DecidableEq

/-- What the scan says. -/
inductive ScanVerdict where
  | pass
  | deferred (taskId : String)
  | halt (explanation : String)
deriving DecidableEq

/-- The overrides in force for an agent. -/
structure Thresholds where
  maxActionsPerMinute : Option Nat
  maxEwmaVelocity : Option Rat
  maxRecipientTotalPerMinute : Option Rat

/-- The answers of the evaluators in one run of the chain. -/
structure Verdicts (σ : Type) where
  /-- The signals after `observe_signal`, and its result. -/
  observed : σ × Option AnomalyResult
  /-- `none` when no rules are loaded or they do not build. -/
  rules : Option RuleVerdict
  clarification : Option String
  /-- The semantic drift, if it is one to act on. -/
  drift : Option Rat
  scan : ScanVerdict
  /-- The accumulated risk, which the maximum tier attaches. -/
  capabilityRisk : Option String
  thresholds : Thresholds
  ewmaVelocity : Rat
  /-- Total and number of agents, if `evaluate_recipient_aggregate` objects. -/
  recipientAggregate : Option (Rat × Nat)
  /-- Reason and policy, if the aggregate breaker objects. -/
  policy : Option (String × String)
  quorumFailOpen : Bool
  /-- The signals after the trace was added to the benign embeddings. -/
  learned : σ

/-- The readings of the clock within a section, in order. -/
structure Readings where
  /-- By the look at the breaker. -/
  entered : Nat
  /-- By the rule stage. -/
  ruled : Nat
  /-- By the rate limit. -/
  limited : Nat
  /-- By what records the action or trips the breaker. -/
  recorded : Nat
  /-- By the last count of the actions. -/
  closed : Nat
  entered_le : entered ≤ ruled
  ruled_le : ruled ≤ limited
  limited_le : limited ≤ recorded
  recorded_le : recorded ≤ closed

theorem Readings.entered_le_recorded (clk : Readings) : clk.entered ≤ clk.recorded :=
  le_trans clk.entered_le (le_trans clk.ruled_le clk.limited_le)

theorem Readings.entered_le_closed (clk : Readings) : clk.entered ≤ clk.closed :=
  le_trans clk.entered_le_recorded clk.recorded_le

/-- What a section does to the decision cache. -/
inductive CacheEffect where
  | keep
  | invalidate
  | insert (decision : CachedDecision)

/-- What a section leaves. `tripped` is the breaker it tripped. -/
structure Outcome (σ : Type) where
  agent : AgentState σ
  response : ValidationResponse
  tripped : Option CircuitBreak
  cache : CacheEffect

/-- The node that validates. -/
structure Config where
  clusterSize : Nat
  nodeId : Nat

variable {σ : Type}

/-! ## The sections -/

/-- A section that ends with the count of the actions and a response. -/
def finish (clk : Readings) (a : AgentState σ) (cache : CacheEffect)
    (response : Nat → ValidationResponse) : Outcome σ :=
  let (actions, a) := a.currentActionCount clk.closed
  ⟨a, response actions, none, cache⟩

/-- For a cached ALLOW: the breaker may have tripped since. -/
def cachedSection (stamp : Stamp) (clk : Readings) (cached : CachedDecision) (a : AgentState σ) :
    Outcome σ :=
  match a.circuitBreakActive clk.entered with
  | (some reason, a) =>
    finish clk a .invalidate fun actions =>
      respond stamp .circuitBreak (some reason) (some "CIRCUIT_BREAKER") actions cached.rateLimit
  | (none, a) =>
    finish clk a .keep fun actions => respond stamp .allow none none actions cached.rateLimit

/-- A check trips the breaker. -/
def tripSection (stamp : Stamp) (clk : Readings) (a : AgentState σ) (reason policy : String)
    (count rateLimit : Nat) : Outcome σ :=
  let a := a.tripCircuitBreaker clk.recorded (secs circuitBreakSecs) reason
  ⟨a, respond stamp .circuitBreak (some reason) (some policy) count rateLimit, a.circuitBreak,
    .invalidate⟩

/-- All checks have passed. -/
def allowSection (stamp : Stamp) (clk : Readings) (req : ValidationRequest) (v : Verdicts σ)
    (rateLimit : Nat) (a : AgentState σ) : Outcome σ :=
  let a := { a.recordAction clk.recorded with signals := v.learned }
  let cache :=
    if req.amount.isNone then .insert ⟨"ALLOW", false, none, none, rateLimit⟩ else .keep
  finish clk a cache fun actions =>
    { respond stamp .allow none none actions rateLimit with capabilityRisk := v.capabilityRisk }

/-- The amount in cents, cut to 64 bits. -/
def amountCents (amount : Option Rat) : Nat :=
  match amount with
  | some a => min (a * 100).floor.toNat (2 ^ 64 - 1)
  | none => 0

/-- The votes on a high-stakes action: the node's own. -/
def quorumTracker (cfg : Config) (stamp : Stamp) : QuorumTracker :=
  let effectiveQuorum := if Quorum.clusterSize ≤ cfg.clusterSize then Quorum.quorum else 1
  (QuorumTracker.withCluster stamp.transactionId cfg.clusterSize effectiveQuorum).approve cfg.nodeId

/-- Transfers to one recipient, the aggregate policies, and the quorum. -/
def screenSection (cfg : Config) (stamp : Stamp) (clk : Readings) (req : ValidationRequest)
    (v : Verdicts σ) (anomaly : Option AnomalyResult) (rateLimit : Nat) (a : AgentState σ) :
    Outcome σ :=
  let maxTotal :=
    v.thresholds.maxRecipientTotalPerMinute.getD defaultMaxRecipientTotalPerMinute
  let toRecipient :=
    req.actionType.toLower = "transfer" ∧ req.amount.isSome ∧ req.recipient.isSome
  let deny (a : AgentState σ) (reason policy : String) :=
    finish clk a .keep fun actions =>
      respond stamp .deny (some reason) (some policy) actions rateLimit
  match (if toRecipient then v.recipientAggregate else none) with
  | some (total, peers) =>
    let total := fixed 2 total
    let limit := fixed 2 maxTotal
    deny a (s!"Recipient aggregate {total} exceeded per-minute limit {limit} " ++
      s!"across {peers} agents") "CROSS_AGENT_RECIPIENT_LIMIT"
  | none =>
    match v.policy with
    | some (reason, policy) => deny (a.recordAction clk.recorded) reason policy
    | none =>
      let quorumReq : QuorumRequest :=
        ⟨stamp.transactionId, req.agentId, amountCents req.amount,
          (anomaly.map (·.isAnomaly)).getD false⟩
      let tracker := quorumTracker cfg stamp
      let needed := tracker.quorum
      let size := cfg.clusterSize
      if quorumReq.requiresQuorum ∧ tracker.decision ≠ .approved ∧ ¬ v.quorumFailOpen then
        deny a (s!"High-stakes action requires {needed}/{size}-node quorum; " ++
          "no peer votes available (ConsistencyOverAvailability)") "QUORUM_UNAVAILABLE"
      else allowSection stamp clk req v rateLimit a

/-- Rate limit, velocity of the amounts and anomaly score; each trips the breaker. -/
def limitSection (cfg : Config) (stamp : Stamp) (clk : Readings) (req : ValidationRequest)
    (v : Verdicts σ) (anomaly : Option AnomalyResult) (a : AgentState σ) : Outcome σ :=
  let limit := v.thresholds.maxActionsPerMinute.getD maxActionsPerMinute
  let maxVelocity := v.thresholds.maxEwmaVelocity.getD defaultMaxEwmaVelocity
  let (count, a) := a.currentActionCount clk.limited
  if limit ≤ count then
    tripSection stamp clk a
      s!"Rate limit exceeded: {count} actions in the last 60 s (max {limit})"
      "MAX_ACTIONS_PER_MINUTE" count limit
  else if req.amount.isSome ∧ 1 ≤ count ∧ maxVelocity < v.ewmaVelocity then
    let current := fixed 2 v.ewmaVelocity
    let bound := fixed 2 maxVelocity
    tripSection stamp clk a s!"EWMA velocity {current} exceeded limit {bound}"
      "EWMA_VELOCITY_LIMIT" count limit
  else
    match anomaly.filter (·.isAnomaly) with
    | some r =>
      let score := fixed 3 r.score
      let threshold := fixed 2 anomalyThreshold
      tripSection stamp clk a s!"Anomaly score {score} exceeded threshold {threshold}"
        "ANOMALY_SCORE" count limit
    | none => screenSection cfg stamp clk req v anomaly limit a

/-- The goal, the conversation and the trace. The standard tier defers the scan, and the request is
allowed at once. -/
def scanSection (cfg : Config) (stamp : Stamp) (clk : Readings) (req : ValidationRequest)
    (v : Verdicts σ) (anomaly : Option AnomalyResult) (a : AgentState σ) : Outcome σ :=
  match v.clarification, v.drift, v.scan with
  | some reason, _, _ =>
    finish clk a .keep fun actions =>
      respond stamp .goalClarificationRequired (some reason)
        (some "GOAL_CLARIFICATION_REQUIRED") actions maxActionsPerMinute
  | none, some drift, _ =>
    let drift := fixed 3 drift
    let threshold := fixed 2 alertThreshold
    finish clk a .keep fun actions =>
      respond stamp .deny
        (some s!"Conversation semantic drift {drift} exceeded threshold {threshold}")
        (some "CONVERSATION_SEMANTIC_DRIFT") actions maxActionsPerMinute
  | none, none, .deferred taskId =>
    finish clk a .keep fun actions =>
      { respond stamp .allow none none actions maxActionsPerMinute with
        deferredScanId := some taskId }
  | none, none, .halt explanation =>
    finish clk a .keep fun actions =>
      respond stamp .deny (some explanation) (some "COGNITIVE_THREAT") actions maxActionsPerMinute
  | none, none, .pass => limitSection cfg stamp clk req v anomaly a

/-- The rules. Evaluating them counts the actions. -/
def ruleSection (cfg : Config) (stamp : Stamp) (clk : Readings) (req : ValidationRequest)
    (v : Verdicts σ) (anomaly : Option AnomalyResult) (a : AgentState σ) : Outcome σ :=
  match v.rules with
  | none => scanSection cfg stamp clk req v anomaly a
  | some verdict =>
    let (_, a) := a.currentActionCount clk.ruled
    match verdict with
    | .pass => scanSection cfg stamp clk req v anomaly a
    | .deny ruleId message =>
      finish clk (a.recordAction clk.recorded) .keep fun actions =>
        respond stamp .deny (some message) (some s!"RULE:{ruleId}") actions maxActionsPerMinute
    | .circuitBreak ruleId message =>
      let a := a.tripCircuitBreaker clk.recorded (secs circuitBreakSecs) message
      let (actions, a) := a.currentActionCount clk.closed
      ⟨a, respond stamp .circuitBreak (some message) (some s!"RULE:{ruleId}") actions
        maxActionsPerMinute, a.circuitBreak, .invalidate⟩

/-- The section for the rest. The breaker comes first, before any change. -/
def mainSection (cfg : Config) (stamp : Stamp) (clk : Readings) (req : ValidationRequest)
    (v : Verdicts σ) (a : AgentState σ) : Outcome σ :=
  match a.circuitBreakActive clk.entered with
  | (some reason, a) =>
    finish clk a .invalidate fun actions =>
      respond stamp .circuitBreak (some reason) (some "CIRCUIT_BREAKER") actions maxActionsPerMinute
  | (none, a) =>
    if req.amount.isSome then
      let (signals, result) := v.observed
      ruleSection cfg stamp clk req v (result.map (·.weigh req.dataSource))
        { a with signals := signals }
    else ruleSection cfg stamp clk req v none a

/-! ## The chain as a whole -/

/-- `P` stays true of the agent from check to check; what a check that ends the section leaves has
`Q`. -/
structure Exits (clk : Readings) (P : AgentState σ → Prop) (Q : Outcome σ → Prop) : Prop where
  counted : ∀ {a now}, P a → now ≤ clk.closed → P (a.currentActionCount now).2
  recorded : ∀ {a}, P a → P (a.recordAction clk.recorded)
  stop : ∀ {a}, P a → ∀ response, Q (finish clk a .keep response)
  trip : ∀ {a}, P a → ∀ stamp reason policy count rateLimit,
    Q (tripSection stamp clk a reason policy count rateLimit)
  /-- A rule that trips the breaker counts the actions after that. -/
  ruleTrip : ∀ {a}, P a → ∀ reason (resp : ValidationResponse), resp.decision = .circuitBreak →
    let tripped := (a.tripCircuitBreaker clk.recorded (secs circuitBreakSecs)
      reason).currentActionCount clk.closed
    Q ⟨tripped.2, resp, tripped.2.circuitBreak, .invalidate⟩
  allow : ∀ {a}, P a → ∀ stamp req v rateLimit, Q (allowSection stamp clk req v rateLimit a)

namespace Exits

variable {clk : Readings} {P : AgentState σ → Prop} {Q : Outcome σ → Prop} {a : AgentState σ}
  (h : Exits clk P Q) (ha : P a) (cfg : Config) (stamp : Stamp) (req : ValidationRequest)
  (v : Verdicts σ) (anomaly : Option AnomalyResult)

include h ha

theorem screen (rateLimit : Nat) : Q (screenSection cfg stamp clk req v anomaly rateLimit a) := by
  unfold screenSection
  dsimp only
  split
  · exact h.stop ha _
  · split
    · exact h.stop (h.recorded ha) _
    · split
      · exact h.stop ha _
      · exact h.allow ha stamp req v rateLimit

theorem limit : Q (limitSection cfg stamp clk req v anomaly a) := by
  have hcounted := h.counted ha (le_trans clk.limited_le clk.recorded_le)
  unfold limitSection
  dsimp only
  split
  · exact h.trip hcounted stamp _ _ _ _
  · split
    · exact h.trip hcounted stamp _ _ _ _
    · split
      · exact h.trip hcounted stamp _ _ _ _
      · exact h.screen hcounted cfg stamp req v anomaly _

theorem scan : Q (scanSection cfg stamp clk req v anomaly a) := by
  unfold scanSection
  split
  · exact h.stop ha _
  · exact h.stop ha _
  · exact h.stop ha _
  · exact h.stop ha _
  · exact h.limit ha cfg stamp req v anomaly

/-- **The rule for the chain**, from the rules of the policy on. -/
theorem rule : Q (ruleSection cfg stamp clk req v anomaly a) := by
  unfold ruleSection
  split
  · exact h.scan ha cfg stamp req v anomaly
  have hcounted := h.counted ha (le_trans clk.ruled_le (le_trans clk.limited_le clk.recorded_le))
  dsimp only
  split
  · exact h.scan hcounted cfg stamp req v anomaly
  · exact h.stop (h.recorded hcounted) _
  · exact h.ruleTrip hcounted _ _ rfl

end Exits

/-! ## What a section does to the breaker -/

/-- The chain, once the breaker is found closed and cleared, leaves it so or trips it. -/
inductive ClearedStep (clk : Readings) (o : Outcome σ) : Prop where
  | passed (hagent : o.agent.circuitBreak = none) (htripped : o.tripped = none)
  | tripped (b : CircuitBreak) (hat : b.trippedAt = clk.recorded)
      (hfor : b.duration = secs circuitBreakSecs) (hagent : o.agent.circuitBreak = some b)
      (htripped : o.tripped = some b) (hresp : o.response.decision = .circuitBreak)

/-- The breaker before a section and after it. -/
inductive BreakerStep (clk : Readings) (old : Option CircuitBreak) (o : Outcome σ) : Prop where
  | held (b : CircuitBreak) (hold : old = some b) (hopen : clk.entered < b.deadline)
      (hagent : o.agent.circuitBreak = some b) (htripped : o.tripped = none)
      (hresp : o.response.decision = .circuitBreak)
  | cleared (hexp : ∀ b ∈ old, b.deadline ≤ clk.entered) (hrest : ClearedStep clk o)

section

variable {clk : Readings} {a : AgentState σ} (cfg : Config) (stamp : Stamp)
  (req : ValidationRequest) (v : Verdicts σ)

theorem finish_cleared (ha : a.circuitBreak = none) (cache : CacheEffect)
    (response : Nat → ValidationResponse) : ClearedStep clk (finish clk a cache response) :=
  .passed ha rfl

/-- Whatever ends the chain, the breaker is closed or newly tripped. -/
theorem exits_cleared (clk : Readings) :
    Exits clk (fun a : AgentState σ => a.circuitBreak = none) (ClearedStep clk) where
  counted ha _ := ha
  recorded ha := ha
  stop ha _ := finish_cleared ha _ _
  trip _ _ reason _ _ _ :=
    .tripped ⟨clk.recorded, secs circuitBreakSecs, reason⟩ rfl rfl rfl rfl rfl
  ruleTrip _ reason _ hresp :=
    .tripped ⟨clk.recorded, secs circuitBreakSecs, reason⟩ rfl rfl rfl rfl hresp
  allow ha _ _ _ _ := .passed ha rfl

/-- **The section of a cached ALLOW looks at the breaker.** -/
theorem cachedSection_breaker (cached : CachedDecision)
    (hpast : ∀ b ∈ a.circuitBreak, b.trippedAt ≤ clk.entered) :
    BreakerStep clk a.circuitBreak (cachedSection stamp clk cached a) := by
  unfold cachedSection
  rcases a.circuitBreakActive_cases hpast with ⟨b, hb, hopen, heq⟩ | ⟨hexp, heq⟩
  · rw [heq]
    exact .held b hb hopen hb rfl rfl
  · rw [heq]
    exact .cleared hexp (finish_cleared rfl _ _)

/-- **The chain looks at the breaker first.** -/
theorem mainSection_breaker (hpast : ∀ b ∈ a.circuitBreak, b.trippedAt ≤ clk.entered) :
    BreakerStep clk a.circuitBreak (mainSection cfg stamp clk req v a) := by
  unfold mainSection
  rcases a.circuitBreakActive_cases hpast with ⟨b, hb, hopen, heq⟩ | ⟨hexp, heq⟩
  · rw [heq]
    exact .held b hb hopen hb rfl rfl
  · rw [heq]
    dsimp only
    split
    · exact .cleared hexp ((exits_cleared clk).rule rfl cfg stamp req v _)
    · exact .cleared hexp ((exits_cleared clk).rule rfl cfg stamp req v _)

end

end Haltchain.Validator

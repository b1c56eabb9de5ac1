import Haltchain.Validator.Mediation
import Haltchain.Validator.RuleStage

/-! # What the evaluators read

The answers that the chain of checks gets (`Verdicts`) as functions of the request and of the
evaluators' state: the policy, the thresholds, the goals with their drift scores, and the
conversations.

The embedding model, the drift scorer, the cognitive monitor and the aggregate policies are
parameters (`Evaluators`). What the chain gets for an amount comes with the call. -/

namespace Haltchain.Validator

open Rules

/-! ## Requests -/

/-- The numbers of `serde_json`. -/
inductive Number where
  | posInt (n : Nat)
  | negInt (n : Int)
  | float (q : Rat)

/-- `serde_json::Value`. -/
inductive Value where
  | null
  | bool (b : Bool)
  | number (n : Number)
  | string (s : String)
  | array (items : List Value)
  | object (fields : List (String × Value))

namespace Value

/-- A field of an object. -/
def get (v : Value) (field : String) : Option Value :=
  match v with
  | .object fields => (fields.find? fun f => f.1 = field).map Prod.snd
  | _ => none

/-- The number, if it is a `u64`. -/
def asU64 : Value → Option Nat
  | .number (.posInt n) => some n
  | _ => none

/-- As an exact rational. -/
def asF64 : Value → Option Rat
  | .number (.posInt n) => some n
  | .number (.negInt n) => some n
  | .number (.float q) => some q
  | _ => none

/-- The items, if it is an array. -/
def asArray : Value → Option (List Value)
  | .array items => some items
  | _ => none

/-- The boolean, if it is one. -/
def asBool : Value → Option Bool
  | .bool b => some b
  | _ => none

/-- The text, if it is one. -/
def asStr : Value → Option String
  | .string s => some s
  | _ => none

end Value

/-- What the sections read themselves, and what only the evaluators read. -/
structure Request extends ValidationRequest where
  currency : Option String
  endpoint : Option String
  method : Option String
  command : Option String
  delegationDepth : Option Nat
  sessionId : Option String
  metadata : Value

namespace Request

/-- A flag in the metadata. -/
def flag (r : Request) (field : String) : Bool :=
  ((r.metadata.get field).bind Value.asBool).getD false

/-- A number in the metadata. -/
def count (r : Request) (field : String) : Nat :=
  ((r.metadata.get field).bind Value.asU64).getD 0

/-- What the rules can inspect. -/
def evalContext (r : Request) (ewmaVelocity : Rat) (actions1m : Nat)
    (anomaly : Option AnomalyResult) : EvalContext where
  agentId := r.agentId
  actionType := r.actionType
  amount := r.amount.getD 0
  currency := r.currency.getD ""
  recipient := r.recipient.getD ""
  ewmaVelocity := ewmaVelocity
  actions1m := actions1m
  anomalyScore := (anomaly.map (·.score)).getD 0
  isAnomaly := (anomaly.map (·.isAnomaly)).getD false
  delegationDepth := r.delegationDepth.getD 0
  piiFieldCount := r.count "pii_field_count"
  gdprDeletionRequested := r.flag "gdpr_deletion_requested"
  crossBorderRestricted := r.flag "cross_border_restricted"
  -- cut to 32 bits
  retentionDaysRequested := r.count "retention_days_requested" % 2 ^ 32
  accessingUndeclaredService := r.flag "accessing_undeclared_service"
  payloadContainsPii := r.flag "payload_contains_pii"

def scanMetadata (r : Request) : ScanMetadata where
  scanTier := (r.metadata.get "scan_tier").bind Value.asStr
  reasoningTrace := (r.metadata.get "reasoning_trace").bind Value.asStr

end Request

/-! ## Thresholds -/

structure PolicyVariant where
  id : String
  thresholds : AList (fun _ : String => Rat)
  agentIds : List String

structure ThresholdStore where
  overrides : AList (fun _ : String => Rat)
  variants : AList (fun _ : String => PolicyVariant)
  agentVariants : AList (fun _ : String => String)

/-- A float as a `usize`: cut off, and saturated. -/
def toUsize (q : Rat) : Nat := min q.floor.toNat (2 ^ 64 - 1)

namespace ThresholdStore

/-- Nothing is overridden. -/
def new : ThresholdStore := ⟨∅, ∅, ∅⟩

def set (s : ThresholdStore) (key : String) (value : Rat) : ThresholdStore :=
  { s with overrides := s.overrides.insert key value }

/-- The agents of a replaced variant are taken off first. -/
def addVariant (s : ThresholdStore) (variant : PolicyVariant) : ThresholdStore :=
  let previous := ((s.variants.lookup variant.id).map (·.agentIds)).getD []
  let cleared := previous.foldl (fun m agentId => m.erase agentId) s.agentVariants
  { s with
    variants := s.variants.insert variant.id variant
    agentVariants := variant.agentIds.foldl (fun m agentId => m.insert agentId variant.id) cleared }

def removeVariant (s : ThresholdStore) (variantId : String) : ThresholdStore :=
  match s.variants.lookup variantId with
  | none => s
  | some variant =>
    { s with
      variants := s.variants.erase variantId
      agentVariants := variant.agentIds.foldl
        (fun m agentId => if m.lookup agentId = some variantId then m.erase agentId else m)
        s.agentVariants }

/-- The overrides of the agent's variant, over those for all. -/
def effectiveThresholds (s : ThresholdStore) (agentId key : String) : Option Rat :=
  (((s.agentVariants.lookup agentId).bind fun id => s.variants.lookup id).bind fun variant =>
    variant.thresholds.lookup key).or (s.overrides.lookup key)

/-- Those that the sections read. -/
def thresholdsFor (s : ThresholdStore) (agentId : String) : Thresholds where
  maxActionsPerMinute :=
    (s.effectiveThresholds agentId "financial:max_actions_per_minute").map toUsize
  maxEwmaVelocity := s.effectiveThresholds agentId "financial:max_ewma_velocity"
  maxRecipientTotalPerMinute :=
    s.effectiveThresholds agentId "financial:max_recipient_total_per_minute"

end ThresholdStore

/-! ## Conversations -/

def baselineSize : Nat := 100

/-- The actions of a window. -/
def windowSize : Nat := 50

/-- `ROLLBACK_THRESHOLD` of the embeddings crate. -/
def rollbackThreshold : Rat := 3 / 10

/-- What is done about drift. -/
inductive DriftAction where
  | maintain
  | increaseMonitoring
  | retrainOrRollback
deriving DecidableEq

/-- The embeddings of an agent's actions. Of the baseline the source keeps the sum, for its
centroid. -/
structure AgentConvoState (ε : Type) where
  baseline : List ε
  window : List ε
  prevDrift : Rat

variable {σ ε γ : Type}

namespace AgentConvoState

/-- No actions yet. -/
def new : AgentConvoState ε := ⟨[], [], 0⟩

def pushWindow (window : List ε) (embedding : ε) : List ε :=
  (if windowSize ≤ window.length then window.drop 1 else window) ++ [embedding]

/-- The drift and what to do about it, once there is a baseline. -/
def push (distance : List ε → List ε → Rat) (st : AgentConvoState ε) (embedding : ε) :
    Option (Rat × DriftAction) × AgentConvoState ε :=
  let window := pushWindow st.window embedding
  if st.baseline.length < baselineSize then
    (none, { st with baseline := st.baseline ++ [embedding], window := window })
  else
    let drift := distance st.baseline window
    let velocity := drift - st.prevDrift
    let recommendation : DriftAction :=
      if rollbackThreshold < drift ∨ 1 / 10 < velocity then .retrainOrRollback
      else if alertThreshold < drift then .increaseMonitoring
      else .maintain
    (some (drift, recommendation), { st with window := window, prevDrift := drift })

end AgentConvoState

/-! ## The evaluators -/

/-- The models and policies, the same in every call. -/
structure Evaluators (σ ε γ : Type) where
  regex : RegexBuilder
  /-- The embedding of the action's text, if there is one. -/
  embed : Request → Option ε
  /-- `DriftScorer::push`, with the reason for a clarification. -/
  scoreDrift : γ → String → ε → ε → Option String × γ
  /-- The cosine distance of the centroids of baseline and window. -/
  distance : List ε → List ε → Rat
  /-- With the calibration of the agent. -/
  cognitive : σ → CognitiveMonitor
  ewmaVelocity : σ → Rat
  /-- The aggregate policies, with the token and compute limits. -/
  aggregate : Request → Option Rat → Option Rat → Option (String × String)

/-- The state that the evaluators share. -/
structure Env (ε γ : Type) where
  /-- `none` without a policy file. -/
  rules : Option RuleEngine
  thresholds : ThresholdStore
  goals : String → Option ε
  driftScores : γ
  conversations : String → AgentConvoState ε

/-- `GoalStore::key`, which is also the key of the drift scores. -/
def goalKey (agentId sessionId : String) : String := agentId ++ ":" ++ sessionId

namespace Env

variable (m : Evaluators σ ε γ) (env : Env ε γ)

/-- The policy in the handle. -/
def policy : Option PolicyFile := env.rules.map (·.handle.policy)

def maxTokens (agentId : String) : Option Rat :=
  env.thresholds.effectiveThresholds agentId "resource:max_tokens_per_minute"

def maxComputeSeconds (agentId : String) : Option Rat :=
  env.thresholds.effectiveThresholds agentId "resource:max_compute_seconds_per_hour"

def ruleStage (ctx : EvalContext) : StageResult × Option RuleEngine :=
  match env.rules with
  | none => (.skipped, none)
  | some engine =>
    let (result, engine) := engine.ruleStage m.regex ctx
    (result, some engine)

/-- The goal declared for the session, if there is one. -/
def goalStage (r : Request) : Option String × γ :=
  match r.sessionId, m.embed r with
  | some sessionId, some action =>
    let key := goalKey r.agentId sessionId
    match env.goals key with
    | some goal => m.scoreDrift env.driftScores key goal action
    | none => (none, env.driftScores)
  | _, _ => (none, env.driftScores)

def conversationStage (r : Request) : Option Rat × (String → AgentConvoState ε) :=
  match m.embed r with
  | some action =>
    let (report, st) := (env.conversations r.agentId).push m.distance action
    ((report.filter fun x => x.2 ≠ .maintain).map Prod.fst,
      Function.update env.conversations r.agentId st)
  | none => (none, env.conversations)

/-! ### One run of the chain -/

section

variable (r : Request) (a : AgentState σ) (clk : Readings) (oracle : Verdicts σ)

/-- The rule stage of the call. -/
def ruled : StageResult × Option RuleEngine :=
  env.ruleStage m (r.evalContext
    (m.ewmaVelocity (observing r.toValidationRequest oracle a).signals)
    (a.currentActionCount clk.ruled).1 (anomalyOf r.toValidationRequest oracle))

/-- The answers that the chain gets. `oracle` has those about amounts. -/
def consult (taskId : String) : Verdicts σ :=
  let signals := (observing r.toValidationRequest oracle a).signals
  { oracle with
    rules := (env.ruled m r a clk oracle).1.verdict
    clarification := (env.goalStage m r).1
    drift := (env.conversationStage m r).1
    scan := (m.cognitive signals).scan r.scanMetadata taskId
    thresholds := env.thresholds.thresholdsFor r.agentId
    ewmaVelocity := m.ewmaVelocity signals
    policy := m.aggregate r (env.maxTokens r.agentId) (env.maxComputeSeconds r.agentId) }

/-- Building the evaluator panics, which ends the call. -/
def Panics : Prop :=
  (a.circuitBreakActive clk.entered).1 = none ∧ (env.ruled m r a clk oracle).1 = .panicked
deriving Decidable

/-- The state after the chain, as far as it got. -/
def afterChain : Env ε γ :=
  let (result, rules) := env.ruled m r a clk oracle
  let (clarification, driftScores) := env.goalStage m r
  if (a.circuitBreakActive clk.entered).1.isSome then env
  else if result = .panicked ∨ ∃ verdict ∈ result.verdict, verdict ≠ .pass then
    { env with rules := rules }
  else if clarification.isSome then { env with rules := rules, driftScores := driftScores }
  else
    { env with
      rules := rules
      driftScores := driftScores
      conversations := (env.conversationStage m r).2 }

end

end Env

end Haltchain.Validator

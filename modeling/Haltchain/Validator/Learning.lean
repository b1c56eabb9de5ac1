import Haltchain.Validator.Evaluators

/-! # The learning loop

`learning.rs`: outcomes of reviews are counted for each threshold, and where they speak for a change
a recommendation is made, which a reviewer approves or rejects. An approval sets the threshold for
all agents or makes a variant for some. Recommendations are kept in memory and, if there is a
database, in a table, which then counts.

Outcomes, random ids and failures come with the call. The rationale of a recommendation is left
out. -/

namespace Haltchain.Validator

open Rules (epsilon)

/-! ## Recommendations -/

inductive RecommendationStatus where
  | pending
  | approved
  | applied
  | rejected
  | reverted
deriving DecidableEq

/-- A recommended threshold. -/
structure AdjustmentRecommendation where
  id : Int
  recommendationKey : String
  thresholdKey : String
  currentThreshold : Rat
  proposedThreshold : Rat
  sampleSize : Nat
  falsePositiveCount : Nat
  truePositiveCount : Nat
  confidence : Rat
  status : RecommendationStatus
  triggerOutcomeId : Option Int
  triggerTransactionId : Option String
  decidedBy : Option String
  decisionNotes : Option String
  variantId : Option String
  appliedAdjustmentId : Option Int
deriving DecidableEq

abbrev Recommendations := AList (fun _ : Int => AdjustmentRecommendation)

/-- The recommendations, with the next ids for them and for adjustments. -/
structure RecommendationDb where
  rows : Recommendations
  nextRowId : Int
  nextAdjustmentId : Int

/-- Which calls of the database fail, and with what error. -/
structure DbFailures where
  message : String
  upsert : String → Bool
  get : Bool
  insertAdjustment : Bool
  decide : Bool
  markReverted : Bool

/-- Nothing fails. -/
def DbFailures.none : DbFailures := ⟨"", fun _ => false, false, false, false, false⟩

namespace RecommendationDb

/-- The row with the key, and its id. -/
def findKey (db : RecommendationDb) (recommendationKey : String) :
    Option (Sigma fun _ : Int => AdjustmentRecommendation) :=
  db.rows.entries.find? fun e => e.2.recommendationKey = recommendationKey

/-- What an upsert changes in a row. -/
def refresh (row r : AdjustmentRecommendation) : AdjustmentRecommendation :=
  { row with
    currentThreshold := r.currentThreshold
    proposedThreshold := r.proposedThreshold
    sampleSize := r.sampleSize
    falsePositiveCount := r.falsePositiveCount
    truePositiveCount := r.truePositiveCount
    confidence := r.confidence
    triggerOutcomeId := r.triggerOutcomeId
    triggerTransactionId := r.triggerTransactionId }

/-- A row with the key is updated, whatever its status. An id is used up anyway. -/
def upsertAdjustmentRecommendation (db : RecommendationDb) (r : AdjustmentRecommendation) :
    Int × RecommendationDb :=
  let next := db.nextRowId
  match db.findKey r.recommendationKey with
  | some ⟨id, row⟩ =>
    (id, { db with rows := db.rows.insert id (refresh row r), nextRowId := next + 1 })
  | none =>
    (next, { db with rows := db.rows.insert next { r with id := next }, nextRowId := next + 1 })

/-- The id of the adjustment. -/
def insertPolicyAdjustment (db : RecommendationDb) : Int × RecommendationDb :=
  (db.nextAdjustmentId, { db with nextAdjustmentId := db.nextAdjustmentId + 1 })

def update (db : RecommendationDb) (id : Int)
    (f : AdjustmentRecommendation → AdjustmentRecommendation) : RecommendationDb :=
  match db.rows.lookup id with
  | some row => { db with rows := db.rows.insert id (f row) }
  | none => db

/-- The row with a decision. -/
def decided (status : RecommendationStatus) (decidedBy : String) (notes variantId : Option String)
    (appliedAdjustmentId : Option Int) (row : AdjustmentRecommendation) :
    AdjustmentRecommendation :=
  { row with
    status
    decidedBy := some decidedBy
    decisionNotes := notes
    variantId := variantId.or row.variantId
    appliedAdjustmentId := appliedAdjustmentId.or row.appliedAdjustmentId }

/-- Stores a decision. -/
def decideAdjustmentRecommendation (db : RecommendationDb) (id : Int)
    (status : RecommendationStatus) (decidedBy : String) (notes variantId : Option String)
    (appliedAdjustmentId : Option Int) : RecommendationDb :=
  db.update id (decided status decidedBy notes variantId appliedAdjustmentId)

/-- Stores a revert. -/
def markRecommendationReverted (db : RecommendationDb) (id : Int) (notes : Option String) :
    RecommendationDb :=
  db.update id fun row =>
    { row with status := .reverted, decisionNotes := notes.or row.decisionNotes }

end RecommendationDb

/-- What the functions work with. -/
structure LearningState where
  thresholds : ThresholdStore
  recommendations : Recommendations
  nextRecommendationId : Int
  db : Option RecommendationDb

/-! ## The loop -/

/-- The outcome of a review. -/
structure OutcomeLearningRecord where
  outcomeId : Int
  transactionId : String
  policyCode : Option String
  outcome : String

def thresholdKeyFromPolicy (policyCode : String) : Option String :=
  if ':' ∈ policyCode.toList then some policyCode
  else
    match policyCode with
    | "TOKEN_RATE_EXCEEDED" => some "resource:max_tokens_per_minute"
    | "COMPUTE_EXCEEDED" => some "resource:max_compute_seconds_per_hour"
    | _ => none

def defaultThresholdForKey (key : String) : Rat :=
  match key with
  | "resource:max_tokens_per_minute" => 100000
  | "resource:max_compute_seconds_per_hour" => 3600
  | _ => 1

/-- To four digits, and not to zero. -/
def clampAndRoundThreshold (v : Rat) : Rat :=
  let bounded := max v (1 / 10000)
  (bounded * 10000 + 1 / 2).floor / 10000

structure Bucket where
  fp : Nat
  tp : Nat
  sample : Nat
  trigger : Option (Int × String)

/-- No outcomes. -/
def Bucket.empty : Bucket := ⟨0, 0, 0, none⟩

/-- Counts an outcome. -/
def Bucket.add (b : Bucket) (o : OutcomeLearningRecord) : Bucket where
  fp := if o.outcome = "FALSE_POSITIVE" then b.fp + 1 else b.fp
  tp := if o.outcome = "TRUE_POSITIVE" then b.tp + 1 else b.tp
  sample := b.sample + 1
  trigger := b.trigger.or (some (o.outcomeId, o.transactionId))

/-- The outcomes for each threshold. -/
def bucketsOf (outcomes : List OutcomeLearningRecord) : AList (fun _ : String => Bucket) :=
  outcomes.foldl
    (fun m o =>
      match o.policyCode.bind thresholdKeyFromPolicy with
      | some key => m.insert key (((m.lookup key).getD .empty).add o)
      | none => m)
    ∅

def recommendationKeyFor (thresholdKey : String) (bucket : Bucket) : String :=
  s!"{thresholdKey}:{bucket.sample}:{bucket.fp}:{bucket.tp}"

/-- The recommendation for a threshold, if its outcomes ask for one. -/
def recommend (thresholds : ThresholdStore) (id : Int) (thresholdKey : String) (bucket : Bucket) :
    Option AdjustmentRecommendation :=
  if bucket.sample < 3 then none
  else
    let fpRate := (bucket.fp : Rat) / bucket.sample
    let tpRate := (bucket.tp : Rat) / bucket.sample
    let current :=
      (thresholds.overrides.lookup thresholdKey).getD (defaultThresholdForKey thresholdKey)
    let maybeProposed :=
      if 1 / 2 ≤ fpRate then some (current * (110 / 100))
      else if 8 / 10 ≤ tpRate then some (current * (90 / 100))
      else none
    maybeProposed.bind fun proposedRaw =>
      let proposed := clampAndRoundThreshold proposedRaw
      if |proposed - current| < epsilon then none
      else some
        { id
          recommendationKey := recommendationKeyFor thresholdKey bucket
          thresholdKey
          currentThreshold := current
          proposedThreshold := proposed
          sampleSize := bucket.sample
          falsePositiveCount := bucket.fp
          truePositiveCount := bucket.tp
          confidence := min (min ((bucket.sample : Rat) / 20) 1 * max fpRate tpRate) 1
          status := .pending
          triggerOutcomeId := bucket.trigger.map Prod.fst
          triggerTransactionId := bucket.trigger.map Prod.snd
          decidedBy := none
          decisionNotes := none
          variantId := none
          appliedAdjustmentId := none }

namespace LearningState

/-- A recommendation is stored. With a database it gets its row's id, unless that fails. -/
def record (fails : DbFailures) (s : LearningState) (r : AdjustmentRecommendation) :
    LearningState :=
  let s := { s with nextRecommendationId := s.nextRecommendationId + 1 }
  match s.db with
  | some db =>
    if fails.upsert r.recommendationKey then
      { s with recommendations := s.recommendations.insert r.id r }
    else
      let (id, db) := db.upsertAdjustmentRecommendation r
      { s with
        recommendations := s.recommendations.insert id { r with id }
        db := some db }
  | none => { s with recommendations := s.recommendations.insert r.id r }

/-- One threshold of the loop. -/
def learnKey (fails : DbFailures) (s : LearningState) (key : String) (bucket : Bucket) :
    LearningState :=
  match recommend s.thresholds s.nextRecommendationId key bucket with
  | some r => s.record fails r
  | none => s

def bucketFor (buckets : AList fun _ : String => Bucket) (key : String) : Bucket :=
  (buckets.lookup key).getD .empty

/-- One run of the loop. -/
def runLearningLoopOnce (fails : DbFailures) (s : LearningState)
    (outcomes : List OutcomeLearningRecord) : LearningState :=
  let buckets := bucketsOf outcomes
  (buckets.keys.mergeSort fun a b => ¬ b < a).foldl
    (fun s key => s.learnKey fails key (bucketFor buckets key)) s

/-! ## Decisions -/

/-- The recommendations that count: the database's, if there is one. -/
def stored (s : LearningState) : Recommendations :=
  match s.db with
  | some db => db.rows
  | none => s.recommendations

def find (s : LearningState) (id : Int) : Option AdjustmentRecommendation := s.stored.lookup id

/-- `split_once(':')`. -/
def splitOnce (key : String) : Option (String × String) :=
  if ':' ∈ key.toList then
    some (.ofList (key.toList.takeWhile (· ≠ ':')),
      .ofList ((key.toList.dropWhile (· ≠ ':')).drop 1))
  else none

/-- The domain is known. -/
def validDomain (domain : String) : Bool :=
  ["financial", "privacy", "security", "operational", "compliance", "resource"].contains domain

/-- What a reviewer approves. -/
structure ApproveRecommendationRequest where
  reviewerId : String
  notes : Option String
  agentIds : List String
  applyAsVariant : Bool

/-- That of a rejection or a reversal. -/
structure ReviewRequest where
  reviewerId : String
  notes : Option String

/-- The id of a new variant. -/
def variantIdFor (recommendationId : Int) (uuid : String) : String :=
  s!"rec-{recommendationId}-{uuid}"

/-- What an approval does to the thresholds. -/
def applyThreshold (t : ThresholdStore) (r : AdjustmentRecommendation)
    (req : ApproveRecommendationRequest) : Option String → ThresholdStore
  | some variantId =>
    t.addVariant ⟨variantId, (∅ : AList fun _ : String => Rat).insert r.thresholdKey
      r.proposedThreshold, req.agentIds⟩
  | none => t.set r.thresholdKey r.proposedThreshold

/-- The checks of an approval: the recommendation, and the id of a variant to make. -/
def checkApproval (fails : DbFailures) (s : LearningState) (uuid : String) (id : Int)
    (req : ApproveRecommendationRequest) :
    Except String (AdjustmentRecommendation × Option String) :=
  if trim req.reviewerId = "" then .error "reviewer_id is required"
  else if s.db.isSome && fails.get then .error fails.message
  else
    match s.find id with
    | none => .error "recommendation not found"
    | some r =>
      if r.status ≠ .pending then .error "recommendation is not pending"
      else
        match splitOnce r.thresholdKey with
        | none => .error "invalid threshold key"
        | some (domain, _) =>
          if ¬ validDomain domain then .error "invalid threshold domain"
          else if req.applyAsVariant then
            if req.agentIds = [] then .error "agent_ids required when apply_as_variant=true"
            else .ok (r, some (variantIdFor id uuid))
          else .ok (r, none)

/-- The id that the adjustment gets, if it is stored. -/
def adjustmentId (fails : DbFailures) (db : RecommendationDb) : Option Int × RecommendationDb :=
  if fails.insertAdjustment then (none, db)
  else
    let (id, db) := db.insertPolicyAdjustment
    (some id, db)

/-- With a variant it is applied, for all agents only approved. -/
def approvalStatus (variantId : Option String) : RecommendationStatus :=
  if variantId.isSome then .applied else .approved

def approved (r : AdjustmentRecommendation) (req : ApproveRecommendationRequest)
    (variantId : Option String) (adjustment : Option Int) : AdjustmentRecommendation :=
  { r with
    status := approvalStatus variantId
    decidedBy := some req.reviewerId
    decisionNotes := req.notes
    variantId
    appliedAdjustmentId := adjustment }

/-- The thresholds change before the database does. -/
def approveRecommendation (fails : DbFailures) (s : LearningState) (uuid : String) (id : Int)
    (req : ApproveRecommendationRequest) : Except String AdjustmentRecommendation × LearningState :=
  match checkApproval fails s uuid id req with
  | .error e => (.error e, s)
  | .ok (r, variantId) =>
    let s := { s with thresholds := applyThreshold s.thresholds r req variantId }
    match s.db with
    | some db =>
      let (adjustment, db) := adjustmentId fails db
      if fails.decide then (.error fails.message, { s with db := some db })
      else
        let r := approved r req variantId adjustment
        (.ok r,
          { s with
            recommendations := s.recommendations.insert id r
            db := some (db.decideAdjustmentRecommendation id (approvalStatus variantId)
              req.reviewerId req.notes variantId adjustment) })
    | none =>
      let r := approved r req variantId none
      (.ok r, { s with recommendations := s.recommendations.insert id r })

/-- A recommendation that a reviewer gives another status. -/
def reviewed (r : AdjustmentRecommendation) (status : RecommendationStatus) (req : ReviewRequest) :
    AdjustmentRecommendation :=
  { r with
    status
    decidedBy := some req.reviewerId
    decisionNotes := req.notes }

/-- The status is not looked at. -/
def rejectRecommendation (fails : DbFailures) (s : LearningState) (id : Int)
    (req : ReviewRequest) : Except String AdjustmentRecommendation × LearningState :=
  if trim req.reviewerId = "" then (.error "reviewer_id is required", s)
  else if s.db.isSome && fails.get then (.error fails.message, s)
  else
    match s.find id with
    | none => (.error "recommendation not found", s)
    | some r =>
      if s.db.isSome && fails.decide then (.error fails.message, s)
      else
        let r := reviewed r .rejected req
        (.ok r,
          { s with
            recommendations := s.recommendations.insert id r
            db := s.db.map fun db =>
              db.decideAdjustmentRecommendation id .rejected req.reviewerId req.notes none none })

/-- What a reversal does to the thresholds. -/
def revertThreshold (t : ThresholdStore) (r : AdjustmentRecommendation) : ThresholdStore :=
  match r.variantId with
  | some variantId => t.removeVariant variantId
  | none => t.set r.thresholdKey r.currentThreshold

/-- Takes back an applied recommendation. -/
def revertRecommendation (fails : DbFailures) (s : LearningState) (id : Int)
    (req : ReviewRequest) : Except String AdjustmentRecommendation × LearningState :=
  if trim req.reviewerId = "" then (.error "reviewer_id is required", s)
  else if s.db.isSome && fails.get then (.error fails.message, s)
  else
    match s.find id with
    | none => (.error "recommendation not found", s)
    | some r =>
      if r.status ≠ .applied then (.error "only applied recommendations can be reverted", s)
      else
        let s := { s with thresholds := revertThreshold s.thresholds r }
        match splitOnce r.thresholdKey with
        | none => (.error "invalid threshold key", s)
        | some _ =>
          match s.db with
          | some db =>
            let (adjustment, db) := adjustmentId fails db
            if fails.markReverted then (.error fails.message, { s with db := some db })
            else
              let r := { reviewed r .reverted req with appliedAdjustmentId := adjustment }
              (.ok r,
                { s with
                  recommendations := s.recommendations.insert id r
                  db := some (db.markRecommendationReverted id req.notes) })
          | none =>
            let r := { reviewed r .reverted req with appliedAdjustmentId := none }
            (.ok r, { s with recommendations := s.recommendations.insert id r })

end LearningState

end Haltchain.Validator

import Haltchain.Rules.Evaluator
import Mathlib.Data.List.AList
import Mathlib.Data.Rat.Floor
import Haltchain.Lib.Run

/-! # Proposed versions of an agent

`improvement.rs`: an agent may propose a new version of itself, which is promoted without a human if
it is much like the version before and passes a gate of 1000 cases. A threshold may be raised as
long as at most 50 of them fall between the old and the new value, and a proposal that drops one
counts as no change.

Floats are rationals. The square root is a parameter. -/

namespace Haltchain.Validator

open Lib List Rules Option AList

/-- A version of an agent. -/
structure AgentVersion where
  agentId : String
  version : Nat
  goalIntent : Option String
  goalEmbedding : Option (List Rat)
  anomalyGeneration : Nat
  thresholdSnapshot : AList (fun _ : String => Rat)

/-- How two versions differ. -/
structure VersionDiff where
  oldVersion : Nat
  newVersion : Nat
  goalChanged : Bool
  goalCosineShift : Option Rat
  anomalyModelReplaced : Bool
  /-- With the old and the new value. -/
  thresholdDeltas : List (String × Rat × Rat)
deriving DecidableEq

/-- Below this similarity the behaviour has changed. -/
def coreBehaviorSimilarityThreshold : Rat := 7 / 10

/-- Larger relative changes need approval. -/
def largeThresholdDeltaLimit : Rat := 1 / 5

/-- What a new model adds to the score. -/
def modelReplacementSandboxDelta : Rat := 15 / 100

/-- A greater change is an anomaly. -/
def sandboxAnomalyRejectionThreshold : Rat := 1 / 2

/-- The cases of the gate. -/
def adversarialTotal : Nat := 1000

/-- The share of cases to be passed. -/
def adversarialMinPassRate : Rat := 95 / 100

/-- The number within bounds. -/
def clamp (q low high : Rat) : Rat := max low (min q high)

/-- The relative change, 100 from zero. -/
def relativeDelta (old new : Rat) : Rat :=
  if |old| ≤ epsilon then if |new| ≤ epsilon then 0 else 100
  else |new - old| / |old|

namespace VersionDiff

/-- The goal has changed, in text or meaning. -/
def changesCoreBehavior (d : VersionDiff) : Bool :=
  d.goalChanged || d.goalCosineShift.any fun s => s < coreBehaviorSimilarityThreshold

/-- A threshold changes a lot. -/
def hasLargeThresholdDelta (d : VersionDiff) : Bool :=
  d.thresholdDeltas.any fun (_, old, new) => largeThresholdDeltaLimit < relativeDelta old new

/-- The largest relative change. -/
def maxThresholdRelativeDelta (d : VersionDiff) : Rat :=
  (d.thresholdDeltas.map fun (_, old, new) => relativeDelta old new).foldl max 0

/-- Nothing has changed. -/
def isTrivialNoop (d : VersionDiff) : Bool :=
  !d.goalChanged && d.goalCosineShift.all (fun s => |1 - s| ≤ epsilon) &&
    !d.anomalyModelReplaced && d.thresholdDeltas.isEmpty

end VersionDiff

/-! ## The gate -/

/-- A number below one half for each seed. -/
def lcgFloat (seed : UInt64) : Rat :=
  let x := seed * 6364136223846793005 + 1442695040888963407
  ((x >>> 33).toNat : Rat) / 4294967295

/-- A sample between two bounds. -/
def caseScore (idx : Nat) (low high : Rat) : Rat := low + lcgFloat idx.toUInt64 * (high - low)

/-- A threshold the gate looks at: name, default, and the values it is tried with. -/
structure GateCheck where
  key : String
  fallback : Rat
  score : Nat → Rat
  /-- In how many of the categories of cases it is tried. -/
  categories : Nat

namespace GateCheck

/-- The threshold of a version. -/
def value (g : GateCheck) (v : AgentVersion) : Rat :=
  (v.thresholdSnapshot.lookup g.key).getD g.fallback

/-- What the old version flags the new one has to flag. -/
def test (g : GateCheck) (idx : Nat) (old new : AgentVersion) : Bool :=
  let oldFlags : Bool := g.value old < g.score idx
  let newFlags : Bool := g.value new < g.score idx
  !oldFlags || newFlags

end GateCheck

/-- The check of anomaly scores. -/
def anomalyCheck : GateCheck :=
  ⟨"anomaly_threshold", 7 / 10, fun idx => caseScore idx (1 / 2) 1, 2⟩

/-- The check of rates. -/
def rateCheck : GateCheck := ⟨"rate_limit", 60, fun idx => 60 * caseScore idx 1 (5 / 2), 2⟩

/-- The check of goal drift. -/
def driftCheck : GateCheck :=
  ⟨"goal_drift_threshold", 1 - coreBehaviorSimilarityThreshold,
    fun idx => caseScore idx (1 / 5) (4 / 5), 1⟩

/-- The check of amounts. -/
def amountCheck : GateCheck := ⟨"amount_threshold", 500, fun idx => caseScore idx 400 2000, 1⟩

/-- All checks of the gate. -/
def gateChecks : List GateCheck := [anomalyCheck, rateCheck, driftCheck, amountCheck]

/-- The result of the gate. -/
structure AdversarialSuiteResult where
  totalCases : Nat
  passed : Nat
  failed : Nat
  passRate : Rat
  gatePassed : Bool

namespace SandboxTestGate

/-- A case of the first category. -/
def testAnomalyThreshold (idx : Nat) (old new : AgentVersion) : Bool :=
  anomalyCheck.test idx old new

/-- A case of the second category. -/
def testRateLimit (idx : Nat) (old new : AgentVersion) : Bool := rateCheck.test idx old new

/-- A case of the third category. -/
def testGoalDrift (idx : Nat) (old new : AgentVersion) : Bool := driftCheck.test idx old new

/-- A case of the fourth category. -/
def testAmountThreshold (idx : Nat) (old new : AgentVersion) : Bool := amountCheck.test idx old new

/-- A case of the last category: two checks at once. -/
def testCompound (idx : Nat) (old new : AgentVersion) : Bool :=
  testAnomalyThreshold (idx % 200) old new && testRateLimit (idx % 200) old new

/-- Two hundred cases of each category. -/
def runCase (caseId : Nat) (old new : AgentVersion) : Bool :=
  if caseId < 200 then testAnomalyThreshold caseId old new
  else if caseId < 400 then testRateLimit (caseId - 200) old new
  else if caseId < 600 then testGoalDrift (caseId - 400) old new
  else if caseId < 800 then testAmountThreshold (caseId - 600) old new
  else testCompound (caseId - 800) old new

/-- All cases. -/
def run (old new : AgentVersion) : AdversarialSuiteResult :=
  let passed := (range adversarialTotal).countP fun i => runCase i old new
  let passRate := (passed : Rat) / adversarialTotal
  { totalCases := adversarialTotal
    passed
    failed := adversarialTotal - passed
    passRate
    gatePassed := adversarialMinPassRate ≤ passRate }

end SandboxTestGate

/-! ## The decision -/

/-- What becomes of a proposal. -/
inductive ImprovementDecision where
  | approve
  | reject (reason : String)
  | gradualRollout (canaryPercentage : Rat) (monitoringDurationSecs : Nat)
  | requireHumanApproval (diff : VersionDiff)
deriving DecidableEq

/-- `submit_improvement` goes on without a human. -/
def ImprovementDecision.promotes : ImprovementDecision → Bool
  | .approve | .gradualRollout .. => true
  | .reject _ | .requireHumanApproval _ => false

section

variable (sqrt : Rat → Rat)

/-- The cosine, unless a norm is zero. -/
def normalizedCosineSimilarity (a b : List Rat) : Option Rat :=
  let dot := (zipWith (· * ·) a b).sum
  let normA := sqrt (a.map fun x => x * x).sum
  let normB := sqrt (b.map fun x => x * x).sum
  let denom := normA * normB
  if denom ≤ epsilon then none else some (clamp (dot / denom) (-1) 1)

/-- Thresholds the new version lacks are not compared. -/
def computeDiff (old new : AgentVersion) : VersionDiff where
  oldVersion := old.version
  newVersion := new.version
  goalChanged := old.goalIntent ≠ new.goalIntent
  goalCosineShift :=
    match old.goalEmbedding, new.goalEmbedding with
    | some a, some b => normalizedCosineSimilarity sqrt a b
    | _, _ => none
  anomalyModelReplaced := old.anomalyGeneration ≠ new.anomalyGeneration
  thresholdDeltas := new.thresholdSnapshot.entries.filterMap fun e =>
    let oldVal := (old.thresholdSnapshot.lookup e.1).getD 0
    if epsilon < |e.2 - oldVal| then some (e.1, oldVal, e.2) else none

/-- The change of the anomaly score; a large one is an anomaly. -/
def sandboxCheck (old new : AgentVersion) : Rat × Bool :=
  let embeddingShift :=
    match old.goalEmbedding, new.goalEmbedding with
    | some a, some b => ((normalizedCosineSimilarity sqrt a b).map fun sim => 1 - sim).getD 1
    | _, _ => 0
  let modelDelta :=
    if old.anomalyGeneration ≠ new.anomalyGeneration then modelReplacementSandboxDelta else 0
  let anomalyScoreDelta := embeddingShift + modelDelta
  (anomalyScoreDelta, sandboxAnomalyRejectionThreshold < anomalyScoreDelta)

/-- The text of a rejection. -/
def gateReason (suite : AdversarialSuiteResult) : String :=
  let percent := s!"{suite.passed / 10}.{suite.passed % 10}"
  s!"adversarial gate failed: {suite.passed}/{suite.totalCases} cases passed " ++
    s!"({percent}% < 95% required)"

/-- The decision, with the result of the gate. -/
def validateImprovementFull (old new : AgentVersion) :
    ImprovementDecision × Option AdversarialSuiteResult :=
  let diff := computeDiff sqrt old new
  if diff.isTrivialNoop then (.approve, none)
  else if diff.changesCoreBehavior || diff.hasLargeThresholdDelta then
    (.requireHumanApproval diff, none)
  else
    let suite := SandboxTestGate.run old new
    if !suite.gatePassed then (.reject (gateReason suite), some suite)
    else if (sandboxCheck sqrt old new).2 then
      (.reject "sandbox testing revealed anomalies", some suite)
    else
      let embeddingShift := (diff.goalCosineShift.map fun sim => 1 - sim).getD 0
      let thresholdShift := min diff.maxThresholdRelativeDelta 1
      let modelShift : Rat := if diff.anomalyModelReplaced then 1 / 10 else 0
      let totalShift :=
        clamp (embeddingShift * (6 / 10) + thresholdShift * (3 / 10) + modelShift) 0 1
      let canaryPercentage := clamp (1 - 8 / 10 * totalShift) (2 / 10) 1
      let monitoringDurationSecs := (21600 + totalShift * 151200 + 1 / 2).floor.toNat
      (.gradualRollout canaryPercentage monitoringDurationSecs, some suite)

/-- The decision. -/
def validateImprovement (old new : AgentVersion) : ImprovementDecision :=
  (validateImprovementFull sqrt old new).1

end

/-! ## The store of versions -/

/-- What the lineage keeps of a difference. -/
structure VersionDiffSummary where
  oldVersion : Nat
  newVersion : Nat
  goalChanged : Bool
  goalCosineShift : Option Rat
  anomalyModelReplaced : Bool
  maxThresholdRelativeDelta : Rat

/-- The summary of a difference. -/
def VersionDiffSummary.from (d : VersionDiff) : VersionDiffSummary :=
  ⟨d.oldVersion, d.newVersion, d.goalChanged, d.goalCosineShift, d.anomalyModelReplaced,
    d.maxThresholdRelativeDelta⟩

/-- A proposal in the lineage. -/
structure VersionLineageEntry where
  version : Nat
  diffSummary : VersionDiffSummary
  adversarialResult : Option AdversarialSuiteResult
  decision : ImprovementDecision
  promoted : Bool

/-- The proposals kept for an agent. -/
def lineageCap : Nat := 50

/-- Versions, counters and lineages by agent. -/
structure VersionStore where
  inner : AList (fun _ : String => AgentVersion)
  counters : AList (fun _ : String => Nat)
  lineage : AList (fun _ : String => List VersionLineageEntry)

namespace VersionStore

/-- The counter follows the version's number, if that is higher. -/
def store (s : VersionStore) (version : AgentVersion) : VersionStore :=
  let counter := ((s.counters.lookup version.agentId).map fun c => max c version.version).getD
    version.version
  { s with
    inner := s.inner.insert version.agentId version
    counters := s.counters.insert version.agentId counter }

/-- The last version stored for an agent. -/
def get (s : VersionStore) (agentId : String) : Option AgentVersion := s.inner.lookup agentId

/-- The counter wraps around. -/
def nextVersion (s : VersionStore) (agentId : String) : Nat × VersionStore :=
  let next := ((s.counters.lookup agentId).map fun c => (c + 1) % 2 ^ 64).getD 1
  (next, { s with counters := s.counters.insert agentId next })

/-- Drops the oldest proposal beyond the cap. -/
def recordLineage (s : VersionStore) (agentId : String) (entry : VersionLineageEntry) :
    VersionStore :=
  let queue := (s.lineage.lookup agentId).getD []
  let queue := if lineageCap ≤ queue.length then queue.tail else queue
  { s with lineage := s.lineage.insert agentId (queue ++ [entry]) }

end VersionStore

/-- The goal of a session. -/
structure SessionGoal where
  intent : String
  embedding : List Rat

/-- What `submit_improvement` reads of the other stores. -/
structure AgentSurroundings where
  /-- The goal, if the call comes with a session. -/
  session : Option (Option SessionGoal)
  anomalyGeneration : Nat
  effectiveThresholds : AList (fun _ : String => Rat)

/-- The present state of an agent as a version. -/
def snapshotAgentVersion (s : VersionStore) (agentId : String) (around : AgentSurroundings) :
    AgentVersion × VersionStore :=
  let goal := around.session.join
  let (version, s) := s.nextVersion agentId
  (⟨agentId, version, goal.map (·.intent), goal.map (·.embedding), around.anomalyGeneration,
    around.effectiveThresholds⟩, s)

/-- The version that the proposal is compared with. -/
def baseline (s : VersionStore) (agentId : String) (around : AgentSurroundings) :
    AgentVersion × VersionStore :=
  let (v, s) :=
    match s.get agentId with
    | some v => (v, s)
    | none =>
      let (snap, s) := snapshotAgentVersion s agentId around
      (snap, s.store snap)
  match around.session with
  | some goal =>
    ({ v with goalIntent := goal.map (·.intent), goalEmbedding := goal.map (·.embedding) }, s)
  | none => (v, s)

/-- `submit_improvement`. -/
def submitImprovement (sqrt : Rat → Rat) (s : VersionStore) (agentId : String)
    (proposed : AgentVersion) (around : AgentSurroundings) : ImprovementDecision × VersionStore :=
  let (old, s) := baseline s agentId around
  let diff := computeDiff sqrt old proposed
  let (decision, adversarialResult) := validateImprovementFull sqrt old proposed
  let promoted := decision.promotes
  let s := if promoted then s.store proposed else s
  (decision, s.recordLineage agentId
    ⟨proposed.version, .from diff, adversarialResult, decision, promoted⟩)

/-! ## What the gate sees -/

variable {g : GateCheck}

namespace GateCheck

/-- The case falls between the values of the two versions. -/
def Between (g : GateCheck) (old new : AgentVersion) (idx : Nat) : Prop :=
  g.value old < g.score idx ∧ g.score idx ≤ g.value new
deriving Decidable

/-- How many of the cases of one category do. -/
def missed (g : GateCheck) (old new : AgentVersion) : Nat :=
  (range 200).countP fun idx => g.Between old new idx

theorem not_test (g : GateCheck) (idx : Nat) (old new : AgentVersion) :
    (!g.test idx old new) = decide (g.Between old new idx) := by
  simp [test, Between, Bool.decide_and, ← not_lt]

/-- If the threshold is raised, the new version has an entry for it, not almost the same, and more
than 50 cases fall between the two values. -/
def Seen (g : GateCheck) (old new : AgentVersion) : Prop :=
  g.value old < g.value new → g.key ∈ new.thresholdSnapshot ∧
    epsilon < g.value new - g.value old ∧ 50 < g.categories * g.missed old new
deriving Decidable

end GateCheck

namespace SandboxTestGate

variable {old new : AgentVersion}

theorem countP_category (p : Bool → Bool) {start : Nat} {test : Nat → Bool}
    (h : ∀ i < 200, runCase (start + i) old new = test i) :
    ((range 200).map (start + ·)).countP (fun i => p (runCase i old new)) =
      (range 200).countP fun i => p (test i) := by
  rw [countP_map]
  refine countP_congr fun i hi => ?_
  rw [Function.comp_apply, h i (mem_range.1 hi)]

theorem countP_runCase (p : Bool → Bool) :
    (range adversarialTotal).countP (fun i => p (runCase i old new)) =
      (range 200).countP (fun i => p (testAnomalyThreshold i old new)) +
      (range 200).countP (fun i => p (testRateLimit i old new)) +
      (range 200).countP (fun i => p (testGoalDrift i old new)) +
      (range 200).countP (fun i => p (testAmountThreshold i old new)) +
      (range 200).countP (fun i => p (testCompound i old new)) := by
  have hsplit : range adversarialTotal = (range 200).map (0 + ·) ++
      (range 200).map (200 + ·) ++ (range 200).map (400 + ·) ++
      (range 200).map (600 + ·) ++ (range 200).map (800 + ·) := by
    decide +kernel
  have hcase : ∀ i < 200, runCase (0 + i) old new = testAnomalyThreshold i old new ∧
      runCase (200 + i) old new = testRateLimit i old new ∧
      runCase (400 + i) old new = testGoalDrift i old new ∧
      runCase (600 + i) old new = testAmountThreshold i old new ∧
      runCase (800 + i) old new = testCompound i old new := by
    intro i hi
    simp (disch := omega) only [runCase, if_pos, if_neg, zero_add, Nat.add_sub_cancel_left,
      and_self]
  rw [hsplit]
  simp only [countP_append]
  rw [countP_category p fun i hi => (hcase i hi).1, countP_category p fun i hi => (hcase i hi).2.1,
    countP_category p fun i hi => (hcase i hi).2.2.1,
    countP_category p fun i hi => (hcase i hi).2.2.2.1,
    countP_category p fun i hi => (hcase i hi).2.2.2.2]

/-- The cases that fail. -/
def failures (old new : AgentVersion) : Nat :=
  (range adversarialTotal).countP fun i => !runCase i old new

/-- How many cases fall between the two values; those of the last category count twice. -/
def crossings (old new : AgentVersion) : Nat :=
  (gateChecks.map fun g => g.missed old new).sum + (range 200).countP fun idx =>
    anomalyCheck.Between old new idx ∨ rateCheck.Between old new idx

theorem failures_eq (old new : AgentVersion) : failures old new = crossings old new := by
  have hcompound : (range 200).countP (fun i => !testCompound i old new) =
      (range 200).countP fun idx =>
        anomalyCheck.Between old new idx ∨ rateCheck.Between old new idx := by
    refine countP_congr fun i hi => ?_
    rw [testCompound, Nat.mod_eq_of_lt (mem_range.1 hi), Bool.not_and, testAnomalyThreshold,
      testRateLimit, GateCheck.not_test, GateCheck.not_test, Bool.decide_or]
  rw [failures, countP_runCase (!·), hcompound]
  simp only [testAnomalyThreshold, testRateLimit, testGoalDrift, testAmountThreshold,
    GateCheck.not_test]
  simp only [crossings, gateChecks, GateCheck.missed, map_cons, map_nil, sum_cons, sum_nil]
  omega

theorem missed_le_crossings (hg : g ∈ gateChecks) (old new : AgentVersion) :
    g.categories * g.missed old new ≤ crossings old new := by
  -- a case of a check that is part of the last category is one there too
  have hanomaly : anomalyCheck.missed old new ≤ (range 200).countP fun idx =>
      anomalyCheck.Between old new idx ∨ rateCheck.Between old new idx :=
    countP_mono_left fun i _ h => decide_eq_true (.inl (of_decide_eq_true h))
  have hrate : rateCheck.missed old new ≤ (range 200).countP fun idx =>
      anomalyCheck.Between old new idx ∨ rateCheck.Between old new idx :=
    countP_mono_left fun i _ h => decide_eq_true (.inr (of_decide_eq_true h))
  simp only [crossings, gateChecks, map_cons, map_nil, sum_cons, sum_nil]
  simp only [gateChecks, mem_cons, not_mem_nil, or_false] at hg
  rcases hg with rfl | rfl | rfl | rfl
  · change 2 * _ ≤ _
    omega
  · change 2 * _ ≤ _
    omega
  · change 1 * _ ≤ _
    omega
  · change 1 * _ ≤ _
    omega

/-- **The gate is passed if at most 50 of all cases fall between the values.** -/
theorem gatePassed_iff (old new : AgentVersion) :
    (run old new).gatePassed = true ↔ crossings old new ≤ 50 := by
  rw [← failures_eq]
  obtain ⟨passed, hpassed⟩ : ∃ passed, passed =
      (range adversarialTotal).countP fun i => runCase i old new := ⟨_, rfl⟩
  have htotal : passed + failures old new = 1000 := by
    have hlen := length_eq_countP_add_countP (fun i => runCase i old new)
      (l := range adversarialTotal)
    rw [length_range, ← hpassed] at hlen
    simp only [Bool.not_eq_true, Bool.decide_eq_false] at hlen
    exact hlen.symm
  have hrate : (95 / 100 : Rat) ≤ passed / (1000 : Nat) ↔ 950 ≤ passed := by
    rw [le_div_iff₀ (by norm_num)]
    norm_num
  rw [show (run old new).gatePassed = decide ((95 / 100 : Rat) ≤ passed / (1000 : Nat)) by
    rw [hpassed]; rfl, decide_eq_true_iff, hrate]
  omega

end SandboxTestGate

/-! ## How fine the gate is -/

/-- How many samples are in one of `n` equal parts of their range. -/
def samplesIn (n j : Nat) : Nat :=
  (range 200).countP fun i =>
    (j : Rat) / (2 * n) < lcgFloat i.toUInt64 ∧
      lcgFloat i.toUInt64 ≤ ((j + 1 : Nat) : Rat) / (2 * n)

/-- The values a check is tried with: a range cut into parts with enough of them for a check that
fails in all of one part to fail the gate. -/
structure GateCheck.Band (g : GateCheck) where
  low : Rat
  span : Rat
  parts : Nat
  score_eq : ∀ idx, g.score idx = low + span * lcgFloat idx.toUInt64
  wide : epsilon < span / parts
  parts_pos : 0 < parts
  enough : ∀ j < parts, 50 < g.categories * samplesIn parts j

/-- The band of anomaly scores. -/
def anomalyBand : anomalyCheck.Band where
  low := 1 / 2
  span := 1 / 2
  parts := 7
  score_eq idx := by simp only [anomalyCheck, caseScore]; ring
  wide := by decide +kernel
  parts_pos := by decide
  enough := by decide +kernel

/-- The band of rates. -/
def rateBand : rateCheck.Band where
  low := 60
  span := 90
  parts := 7
  score_eq idx := by simp only [rateCheck, caseScore]; ring
  wide := by decide +kernel
  parts_pos := by decide
  enough := by decide +kernel

/-- The band of goal drift. -/
def driftBand : driftCheck.Band where
  low := 1 / 5
  span := 3 / 5
  parts := 3
  score_eq idx := by simp only [driftCheck, caseScore]; ring
  wide := by decide +kernel
  parts_pos := by decide
  enough := by decide +kernel

/-- The band of amounts. -/
def amountBand : amountCheck.Band where
  low := 400
  span := 1600
  parts := 3
  score_eq idx := by simp only [amountCheck, caseScore]; ring
  wide := by decide +kernel
  parts_pos := by decide
  enough := by decide +kernel

/-- **A step of one part within the range is seen.** -/
theorem GateCheck.Band.seen (band : g.Band) {old new : AgentVersion}
    (hentry : g.key ∈ new.thresholdSnapshot) (hlow : band.low ≤ g.value old)
    (hhigh : g.value new ≤ band.low + band.span / 2)
    (hstep : g.value old + band.span / band.parts ≤ g.value new) : g.Seen old new := by
  have hparts : (0 : Rat) < band.parts := by exact_mod_cast band.parts_pos
  have hepsilon : (0 : Rat) < epsilon := by decide +kernel
  -- half a part of the range of the values
  obtain ⟨h, hh⟩ : ∃ h, h = band.span / (2 * band.parts) := ⟨_, rfl⟩
  have hwidth : band.span / band.parts = 2 * h := by rw [hh]; field_simp
  have hspan : band.span = h * (2 * band.parts) := by rw [hh]; field_simp
  have hwide := band.wide
  rw [hwidth] at hwide hstep
  have hpos : 0 < h := by linarith
  intro _
  refine ⟨hentry, by linarith, ?_⟩
  -- the first part that begins above the old value
  obtain ⟨j, hj⟩ : ∃ j, j = ⌈(g.value old - band.low) / h⌉₊ := ⟨_, rfl⟩
  have hge : g.value old - band.low ≤ j * h := (div_le_iff₀ hpos).1 (hj ▸ Nat.le_ceil _)
  have hlt : (j - 1) * h < g.value old - band.low := by
    rw [← lt_div_iff₀ hpos, sub_lt_iff_lt_add]
    exact hj ▸ Nat.ceil_lt_add_one (div_nonneg (by linarith) hpos.le)
  have hjparts : j < band.parts := by
    have hend : (j : Rat) * h < band.parts * h := by linarith
    exact_mod_cast lt_of_mul_lt_mul_right hend hpos.le
  have hcount : samplesIn band.parts j ≤ g.missed old new := by
    refine countP_mono_left fun i _ hi => ?_
    obtain ⟨habove, hbelow⟩ := of_decide_eq_true hi
    rw [div_lt_iff₀ (by linarith)] at habove
    rw [le_div_iff₀ (by linarith)] at hbelow
    push_cast at hbelow
    have hleft := mul_lt_mul_of_pos_left habove hpos
    have hright := mul_le_mul_of_nonneg_left hbelow hpos.le
    rw [decide_eq_true_iff, GateCheck.Between, band.score_eq, hspan]
    constructor <;> linarith
  calc 50 < g.categories * samplesIn band.parts j := band.enough j hjparts
    _ ≤ g.categories * g.missed old new := Nat.mul_le_mul_left _ hcount

/-! ## What is promoted -/

section

variable {sqrt : Rat → Rat} {old new : AgentVersion}

/-- What is promoted makes no change, or goes through the three stages. -/
theorem promotes_iff (sqrt : Rat → Rat) (old new : AgentVersion) :
    (validateImprovementFull sqrt old new).1.promotes = true ↔
      (computeDiff sqrt old new).isTrivialNoop = true ∨
      ¬ ((computeDiff sqrt old new).changesCoreBehavior = true ∨
        (computeDiff sqrt old new).hasLargeThresholdDelta = true ∨
        50 < SandboxTestGate.crossings old new ∨ (sandboxCheck sqrt old new).2 = true) := by
  have hgate := SandboxTestGate.gatePassed_iff old new
  rw [← not_lt] at hgate
  unfold validateImprovementFull
  dsimp only
  split
  · next hnoop => simp [hnoop, ImprovementDecision.promotes]
  · next hnoop =>
    split
    · next hhuman =>
      rw [Bool.or_eq_true] at hhuman
      rcases hhuman with h | h <;> simp [hnoop, h, ImprovementDecision.promotes]
    · next hhuman =>
      rw [Bool.or_eq_true, not_or] at hhuman
      split
      · next hfailed =>
        have hmany : 50 < SandboxTestGate.crossings old new := by
          by_contra hfew
          simp [hgate.2 hfew] at hfailed
        simp [hnoop, hmany, ImprovementDecision.promotes]
      · next hpassed =>
        have hfew := hgate.1 (by simpa using hpassed)
        split
        · next hanomaly => simp [hnoop, hanomaly, ImprovementDecision.promotes]
        · next hanomaly => simp [hnoop, hhuman, hfew, hanomaly, ImprovementDecision.promotes]

/-- A threshold of the new version that is not almost the same is a change. -/
theorem not_noop_of_entry (sqrt : Rat → Rat) (hg : g ∈ gateChecks)
    (hentry : g.key ∈ new.thresholdSnapshot) (hlt : epsilon < g.value new - g.value old) :
    (computeDiff sqrt old new).isTrivialNoop = false := by
  obtain ⟨v, hv⟩ := isSome_iff_exists.1 (lookup_isSome.2 hentry)
  have hvalue : g.value new = v := by rw [GateCheck.value, hv, getD_some]
  have hfallback : 0 ≤ g.fallback := by
    have hall : ∀ g ∈ gateChecks, 0 ≤ g.fallback := by decide +kernel
    exact hall g hg
  -- if the old version does not have it, the diff compares with 0 and not with the default
  have hdelta : epsilon < |v - (old.thresholdSnapshot.lookup g.key).getD 0| := by
    refine lt_of_lt_of_le hlt (le_trans ?_ (le_abs_self _))
    rw [hvalue, GateCheck.value]
    cases old.thresholdSnapshot.lookup g.key with
    | none =>
      simp only [getD_none]
      linarith
    | some w => exact le_refl _
  have hmem : (⟨g.key, v⟩ : Sigma fun _ : String => Rat) ∈ new.thresholdSnapshot.entries :=
    mem_lookup_iff.1 hv
  have hne : (computeDiff sqrt old new).thresholdDeltas ≠ [] :=
    ne_nil_of_mem (mem_filterMap.2 ⟨_, hmem, if_pos hdelta⟩)
  simp [VersionDiff.isTrivialNoop, hne]

/-- A threshold raised in a way that the gate sees is not promoted. -/
theorem le_of_seen (hg : g ∈ gateChecks) (hseen : g.Seen old new)
    (hpromoted : (validateImprovementFull sqrt old new).1.promotes = true) :
    g.value new ≤ g.value old := by
  by_contra hweaker
  obtain ⟨hentry, hlt, hmany⟩ := hseen (not_le.1 hweaker)
  have hnoop := not_noop_of_entry sqrt hg hentry hlt
  rcases (promotes_iff sqrt old new).1 hpromoted with h | h
  · exact absurd (h.symm.trans hnoop) (by simp)
  · have hge := SandboxTestGate.missed_le_crossings hg old new
    exact h (.inr (.inr (.inl (by omega))))

/-- **No large step within the range of the samples is promoted.** -/
theorem GateCheck.Band.not_promoted (hg : g ∈ gateChecks) (band : g.Band)
    (hentry : g.key ∈ new.thresholdSnapshot) (hlow : band.low ≤ g.value old)
    (hhigh : g.value new ≤ band.low + band.span / 2)
    (hstep : g.value old + band.span / band.parts ≤ g.value new) :
    (validateImprovementFull sqrt old new).1.promotes = false := by
  rw [← Bool.not_eq_true]
  intro hpromoted
  have hle := le_of_seen hg (band.seen hentry hlow hhigh hstep) hpromoted
  have hepsilon : (0 : Rat) < epsilon := by decide +kernel
  linarith [band.wide]

/-- **What is promoted is not weaker**, exactly if a version that raises a threshold counts as a
change, and goes to a human, moves the values across more than 50 cases, or is anomalous in the
sandbox. -/
theorem promoted_not_weaker_iff (sqrt : Rat → Rat) (old new : AgentVersion) :
    ((validateImprovementFull sqrt old new).1.promotes = true →
      ∀ g ∈ gateChecks, g.value new ≤ g.value old) ↔
    ((∃ g ∈ gateChecks, g.value old < g.value new) →
      (computeDiff sqrt old new).isTrivialNoop = false ∧
      ((computeDiff sqrt old new).changesCoreBehavior = true ∨
        (computeDiff sqrt old new).hasLargeThresholdDelta = true ∨
        50 < SandboxTestGate.crossings old new ∨ (sandboxCheck sqrt old new).2 = true)) := by
  have hraised : (∃ g ∈ gateChecks, g.value old < g.value new) ↔
      ¬ ∀ g ∈ gateChecks, g.value new ≤ g.value old := by
    simp only [not_forall, not_le, exists_prop]
  rw [hraised, promotes_iff, not_imp_comm, not_and_or, Bool.not_eq_false]

end

/-- A version with these thresholds. -/
def versionWith (thresholds : List (Sigma fun _ : String => Rat)) : AgentVersion :=
  ⟨"agent", 1, none, none, 0, thresholds.toAList⟩

theorem faster_rate_not_promoted : (validateImprovementFull id (versionWith [⟨"rate_limit", 80⟩])
      (versionWith [⟨"rate_limit", 100⟩])).1.promotes = false :=
  rateBand.not_promoted (by simp [gateChecks]) (by decide +kernel) (by decide +kernel)
    (by decide +kernel) (by decide +kernel)

/-- A proposal without the threshold of before, and one that raises it by over 4 percent. -/
theorem weaker_versions_promoted :
    let strict := versionWith [⟨"anomaly_threshold", 1 / 10⟩]
    let bare := versionWith []
    let slow := versionWith [⟨"rate_limit", 100⟩]
    let faster := versionWith [⟨"rate_limit", 1041 / 10⟩]
    ((validateImprovementFull id strict bare).1 = .approve ∧
      anomalyCheck.value strict < anomalyCheck.value bare) ∧
    ((validateImprovementFull id slow faster).1.promotes = true ∧
      (validateImprovementFull id slow faster).1 ≠ .approve ∧
      rateCheck.value slow < rateCheck.value faster) := by
  intro strict bare slow faster
  have happroved : (validateImprovementFull id strict bare).1 = .approve := by decide +kernel
  have hrollout : (validateImprovementFull id slow faster).1 =
      .gradualRollout (12377 / 12500) 23460 := by decide +kernel
  refine ⟨⟨happroved, by decide +kernel⟩, ?_, ?_, by decide +kernel⟩
  · rw [hrollout]
    rfl
  · rw [hrollout]
    exact ImprovementDecision.noConfusion

/-! ## The numbers of versions

The counter of an agent follows the versions that are stored, with whatever number their proposer
gives them, and is raised by every number given out. -/

namespace VersionStore

/-- The empty store. -/
def new : VersionStore := ⟨∅, ∅, ∅⟩

/-- A call of the store. -/
inductive Call where
  | store (version : AgentVersion) (version_lt : version.version < 2 ^ 64)
  | nextVersion (agentId : String)

/-- One call. -/
def exec (s : VersionStore) : Call → VersionStore
  | .store version _ => s.store version
  | .nextVersion agentId => (s.nextVersion agentId).2

/-- The number that a call stores or returns for the agent. -/
def number (agentId : String) (s : VersionStore) : Call → Option Nat
  | .store version _ => if version.agentId = agentId then some version.version else none
  | .nextVersion a => if a = agentId then some (s.nextVersion a).1 else none

/-- The numbers stored or returned for the agent. -/
def numbers (agentId : String) (calls : List Call) : List Nat :=
  outputs exec (number agentId) new calls

/-- **The counter of an agent after a call** is the number the call stores or returns, or a greater
one that was there. Only the last number is followed by a smaller one. -/
theorem counter_exec (s : VersionStore) (agentId : String) (call : Call) :
    (number agentId s call = none ∧
      (exec s call).counters.lookup agentId = s.counters.lookup agentId) ∨
    ∃ v, number agentId s call = some v ∧
      ((exec s call).counters.lookup agentId = some v ∧
          (∀ c, s.counters.lookup agentId = some c → c + 1 < 2 ^ 64 → c ≤ v) ∨
        ∃ c, s.counters.lookup agentId = some c ∧
          (exec s call).counters.lookup agentId = some c ∧ v ≤ c) := by
  cases call with
  | store version version_lt =>
    by_cases hagent : version.agentId = agentId
    · subst hagent
      refine .inr ⟨version.version, if_pos rfl, ?_⟩
      simp only [exec, store, lookup_insert]
      cases hcounter : s.counters.lookup version.agentId with
      | none => exact .inl ⟨rfl, fun c hc => absurd hc (by simp)⟩
      | some c =>
        rcases le_total c version.version with hle | hle
        · left
          simp [hle]
        · right
          exact ⟨c, rfl, by simp [hle], hle⟩
    · refine .inl ⟨if_neg hagent, ?_⟩
      exact lookup_insert_ne fun h => hagent h.symm
  | nextVersion a =>
    by_cases hagent : a = agentId
    · subst hagent
      refine .inr ⟨(s.nextVersion a).1, if_pos rfl, .inl ⟨lookup_insert _, ?_⟩⟩
      intro c hc hlt
      rw [nextVersion, hc]
      simp only [map_some, getD_some]
      omega
    · refine .inl ⟨if_neg hagent, ?_⟩
      exact lookup_insert_ne fun h => hagent h.symm

variable {agentId : String}

theorem counter_mem_numbers {c : Nat} (calls : List Call)
    (h : (run exec new calls).counters.lookup agentId = some c) : c ∈ numbers agentId calls := by
  induction calls using reverseRecOn with
  | nil => simp [new] at h
  | append_singleton calls call ih =>
    rw [run_concat] at h
    rw [numbers, outputs_concat, mem_append]
    rcases counter_exec (run exec new calls) agentId call with
      ⟨-, hsame⟩ | ⟨v, hv, ⟨hcounter, -⟩ | ⟨c', hc', hcounter, -⟩⟩
    · exact .inl (ih (hsame ▸ h))
    · right
      rw [hv, some.inj (h.symm.trans hcounter)]
      exact mem_singleton_self v
    · exact .inl (ih (by rw [hc', ← h, hcounter]))

theorem number_lt {s : VersionStore} {call : Call} {v : Nat} (h : number agentId s call = some v) :
    v < 2 ^ 64 := by
  cases call with
  | store version version_lt =>
    rw [number] at h
    split at h
    · exact some.inj h ▸ version_lt
    · cases h
  | nextVersion a =>
    rw [number] at h
    split at h
    · cases h
      rw [nextVersion]
      cases s.counters.lookup a with
      | none => exact Nat.one_lt_two_pow (by decide)
      | some c => exact Nat.mod_lt _ (Nat.two_pow_pos 64)
    · cases h

theorem counter_lt {calls : List Call} {c : Nat} (hlast : 2 ^ 64 - 1 ∉ numbers agentId calls)
    (h : (run exec new calls).counters.lookup agentId = some c) : c + 1 < 2 ^ 64 := by
  have hmem := counter_mem_numbers calls h
  obtain ⟨before, call, after, -, hnumber⟩ := exists_of_mem_outputs exec _ hmem
  have hlt := number_lt hnumber
  have hne : c ≠ 2 ^ 64 - 1 := fun heq => hlast (heq ▸ hmem)
  omega

/-- Up to the last number, the counter is the greatest of the numbers. -/
theorem le_counter (calls : List Call) (hlast : 2 ^ 64 - 1 ∉ numbers agentId calls) {v : Nat}
    (hv : v ∈ numbers agentId calls) :
    ∃ c, (run exec new calls).counters.lookup agentId = some c ∧ v ≤ c := by
  induction calls using reverseRecOn generalizing v with
  | nil => simp [numbers, outputs] at hv
  | append_singleton calls call ih =>
    rw [numbers, outputs_concat, mem_append] at hv hlast
    rw [not_or] at hlast
    rw [run_concat]
    rcases counter_exec (run exec new calls) agentId call with
      ⟨hnone, hsame⟩ | ⟨v', hv', ⟨hcounter, hgreater⟩ | ⟨c, hc, hcounter, hle⟩⟩
    · rw [hsame]
      exact ih hlast.1 (hv.resolve_right (by simp [hnone]))
    · refine ⟨v', hcounter, ?_⟩
      rcases hv with hv | hv
      · obtain ⟨c, hc, hle⟩ := ih hlast.1 hv
        exact hle.trans (hgreater c hc (counter_lt hlast.1 hc))
      · rw [hv'] at hv
        exact (mem_singleton.1 hv).le
    · refine ⟨c, hcounter, ?_⟩
      rcases hv with hv | hv
      · obtain ⟨c', hc', hle'⟩ := ih hlast.1 hv
        rw [hc] at hc'
        exact some.inj hc' ▸ hle'
      · rw [hv'] at hv
        exact (mem_singleton.1 hv).le.trans hle

/-- **When a number is new.** After any calls, the next number for an agent is above all stored or
returned for it exactly if the greatest `u64` is not among them. -/
theorem next_above_all_iff (agentId : String) (calls : List Call) :
    (∀ v ∈ numbers agentId calls, v < ((run exec new calls).nextVersion agentId).1) ↔
      2 ^ 64 - 1 ∉ numbers agentId calls := by
  have hnumber : number agentId (run exec new calls) (.nextVersion agentId) = some _ := if_pos rfl
  have hnext := number_lt hnumber
  constructor
  · intro habove hlast
    have hlt := habove _ hlast
    omega
  · intro hlast v hv
    obtain ⟨c, hc, hle⟩ := le_counter calls hlast hv
    have hlt := counter_lt hlast hc
    rw [nextVersion, hc]
    simp only [map_some, getD_some]
    omega

/-- A proposal with the greatest number. Then the numbers start again, and 1 is given out twice. -/
theorem number_given_out_twice :
    let calls := [.nextVersion "a", .store ⟨"a", 2 ^ 64 - 1, none, none, 0, ∅⟩ (by decide),
      .nextVersion "a", .nextVersion "a"]
    numbers "a" calls = [1, 2 ^ 64 - 1, 0, 1] := by
  decide +kernel

end VersionStore

end Haltchain.Validator

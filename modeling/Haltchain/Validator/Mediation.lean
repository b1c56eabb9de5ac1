import Haltchain.Validator.AppState

/-! # What an allowed request has passed

The chain of checks has two exits with ALLOW: its end, and the scan of the reasoning trace, which
the standard tier leaves for later. Which tier is used, and whether there is a trace, is up to the
metadata of the request.

`mainSection_allow_iff` says exactly which requests are allowed; the results on single checks follow
from it. -/

namespace Haltchain.Validator

open Consensus Option
open Cache (CachedDecision)

/-! ## The scan of the reasoning trace -/

/-- The tiers of the scan. -/
inductive ScanTier where
  | essential
  | standard
  | maximum
deriving DecidableEq

/-- The characters that `str::trim` takes off. -/
def isWhitespace (c : Char) : Bool :=
  let n := c.toNat
  (9 ≤ n && n ≤ 13) || n = 0x20 || n = 0x85 || n = 0xA0 || n = 0x1680 ||
    (0x2000 ≤ n && n ≤ 0x200A) || n = 0x2028 || n = 0x2029 || n = 0x202F || n = 0x205F ||
    n = 0x3000

def trim (s : String) : String :=
  String.ofList (((s.toList.dropWhile isWhitespace).reverse.dropWhile isWhitespace).reverse)

/-- Anything that is not a tier stands for the standard one. -/
def ScanTier.fromHeader (s : String) : ScanTier :=
  if trim s = "Essential" then .essential
  else if trim s = "Maximum" then .maximum
  else .standard

/-- What the scan is to do. -/
inductive Triage where
  | fastPath
  | deepScanRequired
deriving DecidableEq

/-- What the request's metadata has for the scan, if it is a string. -/
structure ScanMetadata where
  scanTier : Option String
  reasoningTrace : Option String

/-- The tier of a request. -/
def ScanMetadata.tier (m : ScanMetadata) : ScanTier :=
  (m.scanTier.map ScanTier.fromHeader).getD .standard

/-- The cognitive monitor, for the agent at hand. -/
structure CognitiveMonitor where
  enabled : Bool
  triage : String → Triage
  /-- The explanation, if the assessment is to halt and clarify. -/
  deepScan : String → Option String

/-- The tier-aware scan. `taskId` names a deferred task. -/
def CognitiveMonitor.scan (c : CognitiveMonitor) (m : ScanMetadata) (taskId : String) :
    ScanVerdict :=
  match m.reasoningTrace with
  | none => .pass
  | some trace =>
    if c.enabled then
      match m.tier with
      | .essential => .pass
      | .standard =>
        if c.triage trace = .deepScanRequired then .deferred taskId else .pass
      | .maximum =>
        if c.triage trace = .deepScanRequired then
          match c.deepScan trace with
          | some explanation => .halt explanation
          | none => .pass
        else .pass
    else .pass

/-- The scan asks for a deep scan and does not wait for it. -/
def CognitiveMonitor.Defers (c : CognitiveMonitor) (m : ScanMetadata) : Prop :=
  c.enabled ∧ m.tier = .standard ∧ ∃ trace ∈ m.reasoningTrace, c.triage trace = .deepScanRequired

theorem CognitiveMonitor.scan_deferred_iff (c : CognitiveMonitor) (m : ScanMetadata)
    (taskId : String) : (∃ id, c.scan m taskId = .deferred id) ↔ c.Defers m := by
  unfold scan Defers
  cases m.reasoningTrace with
  | none => simp
  | some trace =>
    by_cases hdeep : c.triage trace = .deepScanRequired
    · cases c.enabled <;> cases m.tier <;> simp [hdeep]
      split <;> simp
    · cases c.enabled <;> cases m.tier <;> simp [hdeep]

instance decidableDeferred : (scan : ScanVerdict) → Decidable (∃ taskId, scan = .deferred taskId)
  | .deferred taskId => isTrue ⟨taskId, rfl⟩
  | .pass => isFalse (by simp)
  | .halt _ => isFalse (by simp)

variable {σ : Type}

/-- The answers, with the scan for this metadata. Only the maximum tier attaches the risk. -/
def Verdicts.scanned (v : Verdicts σ) (c : CognitiveMonitor) (m : ScanMetadata) (taskId : String) :
    Verdicts σ :=
  { v with
    scan := c.scan m taskId
    capabilityRisk := if m.tier = .maximum then v.capabilityRisk else none }

/-! ## The stages of the chain -/

section

variable (cfg : Config) (stamp : Stamp) (clk : Readings) (req : ValidationRequest) (v : Verdicts σ)
  (a : AgentState σ)

/-- The agent once the breaker was found closed and the amount observed. -/
def observing : AgentState σ :=
  { a with circuitBreak := none, signals := if req.amount.isSome then v.observed.1 else a.signals }

/-- The anomaly result of the request. -/
def anomalyOf : Option AnomalyResult :=
  if req.amount.isSome then v.observed.2.map (·.weigh req.dataSource) else none

/-- What the agent may do per minute. -/
def effectiveRateLimit : Nat := v.thresholds.maxActionsPerMinute.getD maxActionsPerMinute

def quorumRequest : QuorumRequest :=
  ⟨stamp.transactionId, req.agentId, amountCents req.amount,
    ((anomalyOf req v).map (·.isAnomaly)).getD false⟩

/-- The chain gets to the scan: breaker closed, no rule objects, goal clear, no drift. -/
@[mk_iff]
structure Screened : Prop where
  closed : (a.circuitBreakActive clk.entered).1 = none
  rules : ∀ verdict ∈ v.rules, verdict = .pass
  goal : v.clarification = none
  conversation : v.drift = none

/-- The checks between scan and quorum gate are passed. -/
@[mk_iff]
structure PassedLimits : Prop where
  rate : (a.currentActionCount clk.limited).1 < effectiveRateLimit v
  velocity : req.amount.isSome → 1 ≤ (a.currentActionCount clk.limited).1 →
    v.ewmaVelocity ≤ v.thresholds.maxEwmaVelocity.getD defaultMaxEwmaVelocity
  anomaly : ∀ r ∈ anomalyOf req v, r.isAnomaly = false
  recipient : req.actionType.toLower = "transfer" → req.amount.isSome → req.recipient.isSome →
    v.recipientAggregate = none
  policy : v.policy = none

instance : Decidable (Screened clk v a) := decidable_of_iff _ (screened_iff ..).symm

instance : Decidable (PassedLimits clk req v a) := decidable_of_iff _ (passedLimits_iff ..).symm

/-- What the scan answers plays no part in either. -/
theorem screened_scanned (c : CognitiveMonitor) (m : ScanMetadata) (taskId : String) :
    Screened clk (v.scanned c m taskId) a ↔ Screened clk v a :=
  ⟨fun ⟨h1, h2, h3, h4⟩ => ⟨h1, h2, h3, h4⟩, fun ⟨h1, h2, h3, h4⟩ => ⟨h1, h2, h3, h4⟩⟩

theorem passedLimits_scanned (c : CognitiveMonitor) (m : ScanMetadata) (taskId : String) :
    PassedLimits clk req (v.scanned c m taskId) a ↔ PassedLimits clk req v a :=
  ⟨fun ⟨h1, h2, h3, h4, h5⟩ => ⟨h1, h2, h3, h4, h5⟩,
    fun ⟨h1, h2, h3, h4, h5⟩ => ⟨h1, h2, h3, h4, h5⟩⟩

/-- The checks after the scan are passed. -/
structure Passed : Prop extends PassedLimits clk req v a where
  /-- The gate is passed by a quorum, or by the operator's switch. -/
  quorum : (quorumRequest stamp req v).requiresQuorum →
    (quorumTracker cfg stamp).decision = .approved ∨ v.quorumFailOpen

/-- The end of the chain. -/
def allowed : Outcome σ :=
  allowSection stamp clk req v (effectiveRateLimit v)
    ((observing req v a).currentActionCount clk.limited).2

/-- The other exit with ALLOW. -/
def deferredAllow (taskId : String) : Outcome σ :=
  finish clk (observing req v a) .keep fun actions =>
    { respond stamp .allow none none actions maxActionsPerMinute with
      deferredScanId := some taskId }

/-- The exits of the chain, and the requests that take them. -/
inductive ChainExit (o : Outcome σ) : Prop where
  | deferred (taskId : String) (h : Screened clk v a) (hscan : v.scan = .deferred taskId)
      (ho : o = deferredAllow stamp clk req v a taskId)
  | passed (h : Screened clk v a) (hscan : v.scan = .pass) (hpassed : Passed cfg stamp clk req v a)
      (ho : o = allowed stamp clk req v a)
  | stopped
      (hwhy : ¬ (Screened clk v a ∧
        ((∃ taskId, v.scan = .deferred taskId) ∨ v.scan = .pass ∧ Passed cfg stamp clk req v a)))
      (hresp : o.response.decision ≠ .allow)

/-! ### One lemma for each section -/

/-- The quorum gate is the last check. -/
theorem screenSection_cases (rateLimit : Nat)
    (hrate : (a.currentActionCount clk.limited).1 < effectiveRateLimit v)
    (hvelocity : req.amount.isSome → 1 ≤ (a.currentActionCount clk.limited).1 →
      v.ewmaVelocity ≤ v.thresholds.maxEwmaVelocity.getD defaultMaxEwmaVelocity)
    (hanomaly : ∀ r ∈ anomalyOf req v, r.isAnomaly = false) (b : AgentState σ) :
    (Passed cfg stamp clk req v a ∧
        screenSection cfg stamp clk req v (anomalyOf req v) rateLimit b =
          allowSection stamp clk req v rateLimit b) ∨
      (¬ Passed cfg stamp clk req v a ∧
        (screenSection cfg stamp clk req v (anomalyOf req v) rateLimit b).response.decision ≠
          .allow) := by
  unfold screenSection
  dsimp only
  split
  · next total peers hsome =>
    refine .inr ⟨fun h => ?_, by simp [finish, respond]⟩
    split at hsome
    · next hto => exact absurd (h.recipient hto.1 hto.2.1 hto.2.2) (by simp [hsome])
    · simp at hsome
  · next hnone =>
    have hrecipient : req.actionType.toLower = "transfer" → req.amount.isSome →
        req.recipient.isSome → v.recipientAggregate = none := by
      intro h1 h2 h3
      rwa [if_pos ⟨h1, h2, h3⟩] at hnone
    split
    · next hpolicy =>
      exact .inr ⟨fun h => absurd h.policy (by simp [hpolicy]), by simp [finish, respond]⟩
    · next hpolicy =>
      split
      · next hgate =>
        refine .inr ⟨fun h => ?_, by simp [finish, respond]⟩
        rcases h.quorum hgate.1 with happroved | hopen
        · exact hgate.2.1 happroved
        · exact hgate.2.2 hopen
      · next hgate =>
        refine .inl ⟨⟨⟨hrate, hvelocity, hanomaly, hrecipient, hpolicy⟩, ?_⟩, rfl⟩
        intro hreq
        by_contra hno
        rw [not_or] at hno
        exact hgate ⟨hreq, hno⟩

theorem limitSection_cases :
    (Passed cfg stamp clk req v a ∧
        limitSection cfg stamp clk req v (anomalyOf req v) (observing req v a) =
          allowed stamp clk req v a) ∨
      (¬ Passed cfg stamp clk req v a ∧
        (limitSection cfg stamp clk req v (anomalyOf req v)
          (observing req v a)).response.decision ≠ .allow) := by
  unfold limitSection
  dsimp only
  split
  · next hrate =>
    exact .inr ⟨fun h => absurd h.rate (not_lt.2 hrate), by simp [tripSection, respond]⟩
  · next hrate =>
    split
    · next hvel =>
      refine .inr ⟨fun h => ?_, by simp [tripSection, respond]⟩
      exact absurd (h.velocity hvel.1 hvel.2.1) (not_le.2 hvel.2.2)
    · next hvel =>
      split
      · next r hr =>
        rw [filter_eq_some_iff] at hr
        exact .inr ⟨fun h => absurd (h.anomaly r hr.1) (by simp [hr.2]),
          by simp [tripSection, respond]⟩
      · next hnone =>
        refine screenSection_cases cfg stamp clk req v a _ (not_le.1 hrate) ?_ ?_ _
        · exact fun h1 h2 => not_lt.1 fun hlt => hvel ⟨h1, h2, hlt⟩
        · intro r hr
          rw [mem_def.1 hr] at hnone
          simpa using hnone

theorem limitSection_pruned (anomaly : Option AnomalyResult) :
    limitSection cfg stamp clk req v anomaly (a.currentActionCount clk.ruled).2 =
      limitSection cfg stamp clk req v anomaly a := by
  unfold limitSection
  rw [a.currentActionCount_later clk.ruled_le]

theorem finish_pruned (cache : CacheEffect) (response : Nat → ValidationResponse) :
    finish clk (a.currentActionCount clk.ruled).2 cache response = finish clk a cache response := by
  unfold finish
  rw [a.currentActionCount_later (le_trans clk.ruled_le (le_trans clk.limited_le clk.recorded_le))]

/-- Counting the actions for the rules makes no difference later. -/
theorem scanSection_pruned (anomaly : Option AnomalyResult) :
    scanSection cfg stamp clk req v anomaly (a.currentActionCount clk.ruled).2 =
      scanSection cfg stamp clk req v anomaly a := by
  unfold scanSection
  split
  · exact finish_pruned clk a _ _
  · exact finish_pruned clk a _ _
  · exact finish_pruned clk a _ _
  · exact finish_pruned clk a _ _
  · exact limitSection_pruned cfg stamp clk req v a anomaly

theorem scanSection_exit (hclosed : (a.circuitBreakActive clk.entered).1 = none)
    (hrules : ∀ verdict ∈ v.rules, verdict = .pass) : ChainExit cfg stamp clk req v a
      (scanSection cfg stamp clk req v (anomalyOf req v) (observing req v a)) := by
  unfold scanSection
  split
  · next hgoal =>
    exact .stopped (fun h => absurd h.1.goal (by simp [hgoal])) (by simp [finish, respond])
  · next hdrift =>
    exact .stopped (fun h => absurd h.1.conversation (by simp [hdrift])) (by simp [finish, respond])
  · next taskId hgoal hdrift hscan =>
    exact .deferred taskId ⟨hclosed, hrules, hgoal, hdrift⟩ hscan rfl
  · next hscan => exact .stopped (fun h => by simp [hscan] at h) (by simp [finish, respond])
  · next hgoal hdrift hscan =>
    rcases limitSection_cases cfg stamp clk req v a with ⟨hpassed, heq⟩ | ⟨hno, hresp⟩
    · exact .passed ⟨hclosed, hrules, hgoal, hdrift⟩ hscan hpassed heq
    · exact .stopped (fun h => by simp [hscan, hno] at h) hresp

theorem mainSection_of_closed (hclosed : (a.circuitBreakActive clk.entered).1 = none) :
    mainSection cfg stamp clk req v a =
      ruleSection cfg stamp clk req v (anomalyOf req v) (observing req v a) := by
  unfold mainSection anomalyOf observing
  rw [a.circuitBreakActive_of_none hclosed]
  cases req.amount <;> rfl

/-- **The exits of the chain.** -/
theorem mainSection_exit : ChainExit cfg stamp clk req v a (mainSection cfg stamp clk req v a) := by
  cases hactive : (a.circuitBreakActive clk.entered).1 with
  | some reason =>
    refine .stopped (fun h => absurd h.1.closed (by simp [hactive])) ?_
    unfold mainSection
    rw [← Prod.eta (a.circuitBreakActive clk.entered), hactive]
    simp [finish, respond]
  | none =>
    rw [mainSection_of_closed cfg stamp clk req v a hactive]
    unfold ruleSection
    split
    · next hrules =>
      exact scanSection_exit cfg stamp clk req v a hactive (by simp [hrules])
    · next verdict hrules =>
      dsimp only
      split
      · rw [scanSection_pruned]
        exact scanSection_exit cfg stamp clk req v a hactive (by simp [hrules])
      · exact .stopped (fun h => absurd (h.1.rules _ hrules) (by simp)) (by simp [finish, respond])
      · exact .stopped (fun h => absurd (h.1.rules _ hrules) (by simp)) (by simp [respond])

/-- **Which requests are allowed.** -/
theorem mainSection_allow_iff : (mainSection cfg stamp clk req v a).response.decision = .allow ↔
      Screened clk v a ∧
        ((∃ taskId, v.scan = .deferred taskId) ∨
          v.scan = .pass ∧ Passed cfg stamp clk req v a) := by
  cases mainSection_exit cfg stamp clk req v a with
  | deferred taskId h hscan ho =>
    exact ⟨fun _ => ⟨h, .inl ⟨taskId, hscan⟩⟩, fun _ => by rw [ho]; rfl⟩
  | passed h hscan hpassed ho =>
    exact ⟨fun _ => ⟨h, .inr ⟨hscan, hpassed⟩⟩, fun _ => by rw [ho]; rfl⟩
  | stopped hwhy hresp => exact ⟨fun h => absurd h hresp, fun h => absurd h hwhy⟩

theorem cachedSection_allow_iff (cached : CachedDecision) :
    (cachedSection stamp clk cached a).response.decision = .allow ↔
      (a.circuitBreakActive clk.entered).1 = none := by
  unfold cachedSection
  split
  · next heq => simp [heq, finish, respond]
  · next heq => simp [heq, finish, respond]

/-! ## Complete mediation -/

/-- Every check has been passed, the call left by the end of the chain, and its action went into the
window as it stood at the rate limit. -/
structure Mediated (o : Outcome σ) : Prop extends Passed cfg stamp clk req v a where
  exit : o = allowed stamp clk req v a
  recorded : o.agent.actionTimestamps =
    ((a.actionTimestamps.filter fun t => clk.limited < t + secs 60) ++ [clk.recorded]).filter
      fun t => clk.closed < t + secs 60

theorem mainSection_deferred {taskId : String} (h : Screened clk v a)
    (hscan : v.scan = .deferred taskId) :
    mainSection cfg stamp clk req v a = deferredAllow stamp clk req v a taskId := by
  cases mainSection_exit cfg stamp clk req v a with
  | deferred taskId' _ hscan' ho =>
    obtain rfl := ScanVerdict.deferred.inj (hscan'.symm.trans hscan)
    exact ho
  | passed _ hscan' _ _ => exact absurd (hscan'.symm.trans hscan) (by simp)
  | stopped hwhy _ => exact absurd ⟨h, .inl ⟨taskId, hscan⟩⟩ hwhy

/-- The deferred exit is not the end of the chain. -/
theorem deferredAllow_ne_allowed (taskId : String) :
    deferredAllow stamp clk req v a taskId ≠ allowed stamp clk req v a := by
  intro heq
  have hid := congrArg (fun o => o.response.deferredScanId) heq
  simp [deferredAllow, allowed, allowSection, finish, respond] at hid

end

namespace AppState

theorem decision_miss (cfg : Config) (call : PendingCall) {cached : Option CachedDecision}
    (hmiss : ∀ c ∈ cached, c.decision ≠ "ALLOW") (clk : Readings) (v : Verdicts σ)
    (a : AgentState σ) :
    decision cfg call cached clk v a = mainSection cfg call.stamp clk call.req v a := by
  unfold decision
  split
  · next c => rw [if_neg (hmiss c rfl)]
  · rfl

/-- The caches had an ALLOW for the call. -/
def Turn.FromCache (t : Turn σ) : Prop := ∃ c ∈ t.cached, c.decision = "ALLOW"
deriving Decidable

variable [Inhabited σ]

theorem Turn.outcome_miss (cfg : Config) {t : Turn σ} (h : ¬ t.FromCache) (s : AppState σ) :
    t.outcome cfg s = mainSection cfg t.call.stamp t.clk t.call.req t.v
      (s.agent t.call.req.agentId) :=
  decision_miss cfg t.call (fun c hc hallow => h ⟨c, hc, hallow⟩) t.clk t.v _

/-- **The exits with ALLOW of the whole call**: the cache, a deferred scan, or the end of the
chain. -/
theorem Turn.allow_cases (cfg : Config) {t : Turn σ} {s : AppState σ}
    (hallow : (t.outcome cfg s).response.decision = .allow) :
    let a := s.agent t.call.req.agentId
    (t.FromCache ∧ (a.circuitBreakActive t.clk.entered).1 = none) ∨
      (¬ t.FromCache ∧ Screened t.clk t.v a ∧ ∃ taskId, t.v.scan = .deferred taskId) ∨
      (¬ t.FromCache ∧ Screened t.clk t.v a ∧ t.v.scan = .pass ∧
        Passed cfg t.call.stamp t.clk t.call.req t.v a ∧
        t.outcome cfg s = allowed t.call.stamp t.clk t.call.req t.v a) := by
  intro a
  by_cases hcache : t.FromCache
  · obtain ⟨c, hc, hdec⟩ := hcache
    refine .inl ⟨⟨c, hc, hdec⟩, ?_⟩
    unfold Turn.outcome decision at hallow
    rw [mem_def.1 hc] at hallow
    dsimp only at hallow
    rw [if_pos hdec] at hallow
    exact (cachedSection_allow_iff t.call.stamp t.clk a c).1 hallow
  · rw [Turn.outcome_miss cfg hcache] at hallow ⊢
    cases mainSection_exit cfg t.call.stamp t.clk t.call.req t.v a with
    | deferred taskId h hscan _ => exact .inr (.inl ⟨hcache, h, taskId, hscan⟩)
    | passed h hscan hpassed ho => exact .inr (.inr ⟨hcache, h, hscan, hpassed, ho⟩)
    | stopped _ hresp => exact absurd hallow hresp

/-- **Complete mediation.** A request that the caches have no ALLOW for is allowed only after every
check, and recorded: exactly for those requests that do not leave with a deferred scan. -/
theorem complete_mediation_iff (cfg : Config) (s : AppState σ) (call : PendingCall)
    (cached : Option CachedDecision) (hmiss : ∀ c ∈ cached, c.decision ≠ "ALLOW") (clk : Readings)
    (v : Verdicts σ) (c : CognitiveMonitor) (m : ScanMetadata) (taskId : String) :
    let a := s.agent call.req.agentId
    let w := v.scanned c m taskId
    let o := decision cfg call cached clk w a
    (o.response.decision = .allow → Mediated cfg call.stamp clk call.req w a o) ↔
      ¬ (Screened clk v a ∧ c.Defers m) := by
  intro a w o
  have ho : o = mainSection cfg call.stamp clk call.req w a := decision_miss cfg call hmiss clk w a
  have hdefers : (∃ id, w.scan = .deferred id) ↔ c.Defers m := c.scan_deferred_iff m taskId
  constructor
  · -- the deferred exit allows the request, and it is not the end of the chain
    rintro hmediated ⟨hscreened, hdef⟩
    obtain ⟨id, hscan⟩ := hdefers.2 hdef
    rw [ho, mainSection_deferred cfg call.stamp clk call.req w a
      ((screened_scanned clk v a c m taskId).2 hscreened) hscan] at hmediated
    exact deferredAllow_ne_allowed call.stamp clk call.req w a id (hmediated rfl).exit
  · intro hnot hallow
    rw [ho] at hallow ⊢
    cases mainSection_exit cfg call.stamp clk call.req w a with
    | deferred id h hscan _ =>
      exact absurd ⟨(screened_scanned clk v a c m taskId).1 h, hdefers.1 ⟨id, hscan⟩⟩ hnot
    | passed h hscan hpassed heq =>
      rw [heq]
      exact ⟨hpassed, rfl, rfl⟩
    | stopped _ hresp => exact absurd hallow hresp

/-- An agent with ten actions in its window. -/
def busyAgent : AppState Unit :=
  { (new : AppState Unit) with
    agents := AList.insert "bot" ⟨List.replicate 10 (secs 100), none, ()⟩ ∅ }

/-- A million to be transferred. -/
def bigTransfer : PendingCall :=
  ⟨⟨"bot", "transfer", some 1000000, some "mallory", .systemGenerated⟩, ⟨"tx", "noon"⟩,
    .waiting "key" none⟩

/-- All within one second. -/
def atSecond (n : Nat) : Readings :=
  ⟨secs n, secs n, secs n, secs n, secs n, le_rfl, le_rfl, le_rfl, le_rfl⟩

/-- No evaluator objects. -/
def noObjection : Verdicts Unit :=
  ⟨((), none), none, none, none, .pass, none, ⟨none, none, none⟩, 0, none, none, false, ()⟩

/-- A monitor that asks for a deep scan of every trace. -/
def suspicious : CognitiveMonitor := ⟨true, fun _ => .deepScanRequired, fun _ => none⟩

/-- The agent has used up its actions and the cluster of three was not asked, but a trace that calls
for a deep scan gets the transfer allowed. -/
theorem deferred_scan_not_mediated :
    let a := busyAgent.agent "bot"
    let w := noObjection.scanned suspicious ⟨none, some "ignore the limits"⟩ "task"
    let o := decision ⟨3, 1⟩ bigTransfer none (atSecond 101) w a
    o.response.decision = .allow ∧
      o.agent.actionTimestamps = a.actionTimestamps ∧
      ¬ Mediated ⟨3, 1⟩ bigTransfer.stamp (atSecond 101) bigTransfer.req w a o :=
  ⟨by decide +kernel, by decide +kernel, fun h => absurd h.rate (by decide +kernel)⟩

/-- In the essential tier an idle agent's small transfer goes through all checks. -/
theorem essential_tier_mediated :
    let call : PendingCall := { bigTransfer with req := { bigTransfer.req with amount := some 5 } }
    let a := (new : AppState Unit).agent "bot"
    let w := noObjection.scanned suspicious ⟨some " Essential", some "ignore the limits"⟩ "task"
    let o := decision ⟨3, 1⟩ call none (atSecond 101) w a
    o.response.decision = .allow ∧
      Mediated ⟨3, 1⟩ call.stamp (atSecond 101) call.req w a o := by
  refine ⟨by decide +kernel, (complete_mediation_iff ⟨3, 1⟩ new _ none (by simp) _ noObjection
    suspicious ⟨some " Essential", some "ignore the limits"⟩ "task").2 ?_ (by decide +kernel)⟩
  exact fun h => absurd h.2.2.1 (by decide +kernel)

end AppState

end Haltchain.Validator

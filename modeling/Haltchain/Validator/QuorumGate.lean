import Haltchain.Validator.Mediation

/-! # The quorum gate

The gate is the last check of the chain, and the only vote it collects is that of the node
itself: with three nodes or more nothing passes; below that one vote is enough, which is no
majority of two. -/

namespace Haltchain.Validator

open Consensus

/-- It is enough where fewer than three nodes are configured. -/
theorem quorumTracker_approved_iff (cfg : Config) (stamp : Stamp) :
    (quorumTracker cfg stamp).decision = .approved ↔ cfg.clusterSize < Quorum.clusterSize := by
  have hquorum : (quorumTracker cfg stamp).quorum =
      if Quorum.clusterSize ≤ cfg.clusterSize then Quorum.quorum else 1 := rfl
  have hvotes : (quorumTracker cfg stamp).tally .approve = 1 := rfl
  unfold QuorumTracker.decision
  rw [hvotes, hquorum]
  by_cases hsize : Quorum.clusterSize ≤ cfg.clusterSize
  · rw [if_pos hsize, if_neg (by decide)]
    refine iff_of_false ?_ (not_lt.2 hsize)
    split
    · simp
    · split <;> simp
  · rw [if_neg hsize]
    exact iff_of_true rfl (not_le.1 hsize)

variable {σ : Type}

/-- How many nodes approve: the votes of the gate, none if the call does not get there. -/
def approvals (cfg : Config) (stamp : Stamp) (clk : Readings) (req : ValidationRequest)
    (v : Verdicts σ) (a : AgentState σ) : Nat :=
  if Screened clk v a ∧ v.scan = .pass ∧ PassedLimits clk req v a then
    (quorumTracker cfg stamp).tally .approve
  else 0

/-- A request without an amount is never a high-stakes one. -/
theorem amount_of_requiresQuorum {stamp : Stamp} {req : ValidationRequest} {v : Verdicts σ}
    (h : (quorumRequest stamp req v).requiresQuorum) : req.amount.isSome := by
  cases hamount : req.amount with
  | some _ => rfl
  | none => simp [quorumRequest, QuorumRequest.requiresQuorum, amountCents, anomalyOf, hamount,
      Quorum.highStakesThresholdCents] at h

namespace AppState

theorem lookupCaches_of_amount {cache : Cache.DecisionCache} {req : ValidationRequest}
    (h : req.amount.isSome) (key : String) (now : Nat) (remote : Option Cache.CachedDecision) :
    (lookupCaches cache req key now remote).1 = none := by
  unfold lookupCaches
  rw [if_neg (by simp [Option.isSome_iff_ne_none.1 h])]

variable [Inhabited σ]

/-- **The quorum gate.** With the switch off, a high-stakes request is allowed only if a strict
majority of the nodes approved it: exactly for those requests that do not leave with a deferred
scan, and that another check stops if there are exactly two nodes. -/
theorem quorum_gate_iff (cfg : Config) (s : AppState σ) (call : PendingCall) (key : String)
    (now : Nat) (remote : Option Cache.CachedDecision) (clk : Readings) (v : Verdicts σ)
    (c : CognitiveMonitor) (m : ScanMetadata) (taskId : String)
    (hrequires : (quorumRequest call.stamp call.req v).requiresQuorum)
    (hclosed : v.quorumFailOpen = false) :
    let a := s.agent call.req.agentId
    let w := v.scanned c m taskId
    let cached := (lookupCaches s.cache call.req key now remote).1
    ((decision cfg call cached clk w a).response.decision = .allow →
        cfg.clusterSize < 2 * approvals cfg call.stamp clk call.req w a) ↔
      ¬ (Screened clk v a ∧ (c.Defers m ∨
        cfg.clusterSize = 2 ∧ c.scan m taskId = .pass ∧ PassedLimits clk call.req v a)) := by
  intro a w cached
  have hcached : cached = none :=
    lookupCaches_of_amount (amount_of_requiresQuorum hrequires) key now remote
  have hdefers : (∃ id, w.scan = .deferred id) ↔ c.Defers m := c.scan_deferred_iff m taskId
  rw [decision_miss cfg call (by simp [hcached]) clk w a, ← screened_scanned clk v a c m taskId,
    ← passedLimits_scanned clk call.req v a c m taskId]
  cases mainSection_exit cfg call.stamp clk call.req w a with
  | deferred id h hscan ho =>
    -- allowed, and no node has been asked
    have hnone : approvals cfg call.stamp clk call.req w a = 0 := if_neg (by simp [hscan])
    refine iff_of_false (fun hmajority => ?_) fun hnot =>
      hnot ⟨h, .inl (hdefers.1 ⟨id, hscan⟩)⟩
    have := hmajority (by rw [ho]; rfl)
    omega
  | passed h hscan hpassed ho =>
    have hone : approvals cfg call.stamp clk call.req w a = 1 :=
      if_pos ⟨h, hscan, hpassed.toPassedLimits⟩
    have hsize : cfg.clusterSize < 3 := by
      rcases hpassed.quorum hrequires with happroved | hopen
      · exact (quorumTracker_approved_iff cfg call.stamp).1 happroved
      · simp [w, Verdicts.scanned, hclosed] at hopen
    constructor
    · rintro hmajority ⟨-, hdef | ⟨htwo, -⟩⟩
      · obtain ⟨id, hid⟩ := hdefers.2 hdef
        exact absurd (hscan.symm.trans hid) (by simp)
      · have := hmajority (by rw [ho]; rfl)
        omega
    · intro hnot _
      have hne : cfg.clusterSize ≠ 2 :=
        fun htwo => hnot ⟨h, .inr ⟨htwo, hscan, hpassed.toPassedLimits⟩⟩
      omega
  | stopped hwhy hresp =>
    refine iff_of_true (fun hallow => absurd hallow hresp) ?_
    rintro ⟨h, hdef | ⟨htwo, hscan, hlimits⟩⟩
    · exact hwhy ⟨h, .inl (hdefers.2 hdef)⟩
    · refine hwhy ⟨h, .inr ⟨hscan, hlimits, fun _ => .inl ?_⟩⟩
      exact (quorumTracker_approved_iff cfg call.stamp).2 (by rw [htwo]; decide)

/-- One of two nodes approves a transfer of a million, and it is allowed. -/
theorem half_is_no_majority :
    let call : PendingCall := bigTransfer
    let a := (new : AppState Unit).agent "bot"
    let w := noObjection.scanned suspicious ⟨none, none⟩ "task"
    (quorumRequest call.stamp call.req w).requiresQuorum ∧ w.quorumFailOpen = false ∧
      (decision ⟨2, 1⟩ call none (atSecond 101) w a).response.decision = .allow ∧
      ¬ 2 < 2 * approvals ⟨2, 1⟩ call.stamp (atSecond 101) call.req w a := by
  decide +kernel

/-- A single node is a majority of itself. -/
theorem single_node_majority :
    let a := (new : AppState Unit).agent "bot"
    let w := noObjection.scanned suspicious ⟨none, none⟩ "task"
    (decision ⟨1, 1⟩ bigTransfer none (atSecond 101) w a).response.decision = .allow ∧
      1 < 2 * approvals ⟨1, 1⟩ bigTransfer.stamp (atSecond 101) bigTransfer.req w a := by
  refine ⟨by decide +kernel, (quorum_gate_iff ⟨1, 1⟩ new bigTransfer "key" 0 none (atSecond 101)
    noObjection suspicious ⟨none, none⟩ "task" (by decide +kernel) rfl).2 ?_ (by decide +kernel)⟩
  rintro ⟨-, hdef | ⟨hsize, -⟩⟩
  · obtain ⟨trace, htrace, -⟩ := hdef.2.2
    simp at htrace
  · exact absurd hsize (by decide)

end AppState

end Haltchain.Validator

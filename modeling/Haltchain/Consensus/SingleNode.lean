import Haltchain.Consensus.LocalLog

/-! # A node without peers

Its own vote makes it the leader. But the commit index only advances when a peer acknowledges. -/

namespace Haltchain.Consensus

open Lib

theorem DecisionLog.lastIndex_append (l : DecisionLog) (term : Nat) (command : DecisionCommand) :
    (l.append term command).1.lastIndex = l.lastIndex + 1 := by
  simp [DecisionLog.lastIndex, DecisionLog.append]

/-- A tick or a proposal: no message, no restart. -/
def Call.Local : Call → Prop
  | .tick | .propose _ => True
  | .step _ _ | .restart _ => False

instance : (call : Call) → Decidable call.Local
  | .tick | .propose _ => instDecidableTrue
  | .step _ _ | .restart _ => instDecidableFalse

namespace RaftNode

variable {ov : Overflow} {n : RaftNode} {call : Call}

/-! ## Without peers -/

theorem broadcastHeartbeat_of_no_peers (h : n.peers = []) : n.broadcastHeartbeat = some [] := by
  unfold broadcastHeartbeat
  rw [h]
  rfl

theorem becomeLeader_of_no_peers (h : n.peers = []) :
    n.becomeLeader = (n.lead, some [.becameLeader n.currentTerm]) := by
  have hactions : n.becomeLeader.2 =
      n.lead.broadcastHeartbeat.map ([.becameLeader n.currentTerm] ++ ·) := rfl
  rw [broadcastHeartbeat_of_no_peers ((lead_peers n).trans h)] at hactions
  exact Prod.ext rfl hactions

/-- The quorum is one: an election is won with the node's own vote. -/
theorem startElection_of_no_peers (ov : Overflow) (h : n.peers = []) : n.startElection ov =
      match ov.add n.currentTerm 1 with
      | none => (n, none)
      | some t => ((n.campaign t).lead, some [.becameLeader t]) := by
  rw [startElection_eq]
  cases ov.add n.currentTerm 1 with
  | none => rfl
  | some t =>
    have hquorum : n.quorum = 1 := by simp [quorum, h]
    dsimp only
    rw [hquorum, if_pos le_rfl, becomeLeader_of_no_peers (by simp [h]), campaign_currentTerm]

theorem propose_of_no_peers (h : n.peers = []) (hr : n.role = .leader) (c : DecisionCommand) :
    n.propose c = (n.proposed c, some (some (n.log.lastIndex + 1, []))) := by
  have hnone : (n.proposed c).replicateToPeers = some [] := by
    unfold replicateToPeers
    rw [proposed_peers, h]
    rfl
  unfold propose
  rw [if_neg (not_not.2 hr)]
  show (n.proposed c, (n.proposed c).replicateToPeers.map _) = _
  rw [hnone]
  rfl

/-! ## One call -/

/-- A node without peers whose commit index lies in its log. -/
structure Alone (n : RaftNode) : Prop where
  no_peers : n.peers = []
  commit_le : n.log.commitIndex ≤ n.log.lastIndex

theorem alone_withPersistence (id timeout : Nat) (path : String)
    (file : Option PersistedRaftState) : (withPersistence id [] timeout path file).Alone := by
  cases file with
  | none => exact ⟨rfl, Nat.zero_le _⟩
  | some s => exact ⟨rfl, min_le_right _ _⟩

theorem Alone.restart (h : n.Alone) (timeout : Nat) : (n.restart timeout).Alone := by
  unfold RaftNode.restart
  rw [h.no_peers]
  split
  · exact alone_withPersistence ..
  · exact ⟨rfl, Nat.zero_le _⟩

/-- What a tick or proposal does to a node without peers: nothing is handed out, and a leader leads
on with the same commit index. -/
structure Stays (n n' : RaftNode) (obs : List Observation) : Prop where
  alone : n'.Alone
  none_applied : applied obs = []
  leads : n.role = .leader → n'.role = .leader ∧ n'.log.commitIndex = n.log.commitIndex

theorem Alone.lead (h : n.Alone) : n.lead.Alone where
  no_peers := by simp [h.no_peers]
  commit_le := by
    rw [lead_log, DecisionLog.lastIndex_append]
    exact Nat.le_succ_of_le h.commit_le

theorem Alone.proposed (h : n.Alone) (c : DecisionCommand) : (n.proposed c).Alone where
  no_peers := by simp [h.no_peers]
  commit_le := by
    rw [proposed_log, DecisionLog.lastIndex_append]
    exact Nat.le_succ_of_le h.commit_le

theorem Alone.campaign (h : n.Alone) (t : Nat) : (n.campaign t).Alone where
  no_peers := by simp [h.no_peers]
  commit_le := by simpa using h.commit_le

theorem Alone.tick (ov : Overflow) (h : n.Alone) :
    n.Stays (n.exec ov .tick).1 (n.exec ov .tick).2 := by
  by_cases hr : n.role = .leader
  · have hdue : ¬ n.electionDue := fun hd => hd.1 hr
    have htick : n.tick ov = ({ n with heartbeatElapsed := 0 }, some []) := by
      rw [tick_of_leader ov hr, broadcastHeartbeat_of_no_peers (by exact h.no_peers)]
    simp only [exec, htick, if_neg hdue]
    exact ⟨⟨h.no_peers, h.commit_le⟩, rfl, fun _ => ⟨hr, rfl⟩⟩
  · have hnext : RaftNode.Alone { n with electionElapsed := n.electionElapsed + 1 } :=
      ⟨h.no_peers, h.commit_le⟩
    simp only [exec, tick_of_not_leader ov hr, startElection_of_no_peers ov hnext.no_peers]
    by_cases hd : n.electionDue
    · rw [if_pos hd]
      cases ov.add n.currentTerm 1 with
      | none => exact ⟨hnext.restart _, rfl, fun hl => absurd hl hr⟩
      | some t => exact ⟨(hnext.campaign t).lead, by simp [hd], fun hl => absurd hl hr⟩
    · rw [if_neg hd]
      exact ⟨hnext, by simp [hd], fun hl => absurd hl hr⟩

theorem Alone.propose (ov : Overflow) (h : n.Alone) (c : DecisionCommand) :
    n.Stays (n.exec ov (.propose c)).1 (n.exec ov (.propose c)).2 := by
  by_cases hr : n.role = .leader
  · simp only [exec, propose_of_no_peers h.no_peers hr]
    exact ⟨h.proposed c, rfl, fun _ => ⟨by rw [proposed_role, hr], by simp⟩⟩
  · have hsame : n.propose c = (n, some none) := by
      unfold RaftNode.propose
      rw [if_pos hr]
    simp only [exec, hsame]
    exact ⟨h, rfl, fun hl => absurd hl hr⟩

theorem Alone.exec (ov : Overflow) (h : n.Alone) (hcall : call.Local) :
    n.Stays (n.exec ov call).1 (n.exec ov call).2 := by
  cases call with
  | tick => exact h.tick ov
  | propose c => exact h.propose ov c
  | step s msg | restart t => exact hcall.elim

end RaftNode

/-! ## Whole lives -/

/-- A node started without peers: without a file, or over any. -/
inductive StartsAlone : RaftNode → Prop
  | new (id timeout : Nat) : StartsAlone (RaftNode.new id [] timeout)
  | restored (id timeout : Nat) (path : String) (file : Option PersistedRaftState) :
      StartsAlone (RaftNode.withPersistence id [] timeout path file)

theorem StartsAlone.alone {n : RaftNode} : StartsAlone n → n.Alone
  | .new _ _ => ⟨rfl, Nat.zero_le _⟩
  | .restored .. => RaftNode.alone_withPersistence ..

variable {ov : Overflow} {calls : List Call} {h : History}

/-- A node without peers has handed out nothing. -/
structure History.Alone (h : History) : Prop where
  node : h.node.Alone
  none_applied : applied h.trace = []

theorem History.Alone.exec (ov : Overflow) {call : Call} (ha : h.Alone) (hcall : call.Local) :
    (h.exec ov call).Alone where
  node := (ha.node.exec ov hcall).alone
  none_applied := by
    show applied (h.trace ++ _) = []
    rw [applied_append, ha.none_applied, (ha.node.exec ov hcall).none_applied, List.append_nil]

theorem History.Alone.run_alone (ov : Overflow) (ha : h.Alone)
    (hcalls : ∀ call ∈ calls, call.Local) : (run (History.exec ov) h calls).Alone := by
  induction calls generalizing h with
  | nil => exact ha
  | cons call rest ih =>
    exact ih (ha.exec ov (hcalls call (by simp))) fun c hc => hcalls c (by simp [hc])

/-- Once it leads, the commit index of a node without peers stands still. -/
theorem History.Alone.run_commitIndex (ha : h.Alone) (hr : h.node.role = .leader)
    (hcalls : ∀ call ∈ calls, call.Local) :
    (run (History.exec ov) h calls).node.log.commitIndex = h.node.log.commitIndex := by
  induction calls generalizing h with
  | nil => rfl
  | cons call rest ih =>
    have hcall := hcalls call (by simp)
    obtain ⟨hr', hcommit⟩ := (ha.node.exec ov hcall).leads hr
    rw [run_cons, ih (ha.exec ov hcall) hr' fun c hc => hcalls c (by simp [hc])]
    exact hcommit

/-- **Nothing proposed to a node without peers is ever committed or applied.** However it came to
lead and whatever ticks and proposals follow, its commit index stays below the index that `propose`
returned. -/
theorem proposed_alone_never_committed (ov : Overflow) {n : RaftNode} (hstart : StartsAlone n)
    (before after : List Call) (hcalls : ∀ call ∈ before ++ after, call.Local)
    (command : DecisionCommand) {index : Nat} {actions : List RaftAction}
    (hproposed : ((run (History.exec ov) ⟨n, []⟩ before).node.propose command).2 =
      some (some (index, actions))) :
    let final := run (History.exec ov) ⟨n, []⟩ (before ++ .propose command :: after)
    final.node.log.commitIndex < index ∧ applied final.trace = [] := by
  have hbefore : ∀ call ∈ before, call.Local := fun c hc => hcalls c (by simp [hc])
  have hafter : ∀ call ∈ after, call.Local := fun c hc => hcalls c (by simp [hc])
  have h₀ : History.Alone ⟨n, []⟩ := ⟨hstart.alone, rfl⟩
  have h₁ := h₀.run_alone ov hbefore
  have h₂ : (History.exec ov _ (.propose command)).Alone := h₁.exec ov trivial
  intro final
  have hfinal : final = run (History.exec ov)
      ((run (History.exec ov) ⟨n, []⟩ before).exec ov (.propose command)) after := by
    show run _ _ _ = _
    rw [run_append, run_cons]
  rw [hfinal]
  refine ⟨?_, (h₂.run_alone ov hafter).none_applied⟩
  -- only a leader answers a proposal with an index, and it is the one after its last
  by_cases hr : (run (History.exec ov) ⟨n, []⟩ before).node.role = .leader
  · obtain ⟨hr', hcommit⟩ := (h₁.node.propose ov command).leads hr
    rw [RaftNode.propose_of_no_peers h₁.node.no_peers hr] at hproposed
    obtain ⟨rfl, -⟩ : _ = index ∧ _ := by simpa using hproposed
    rw [h₂.run_commitIndex hr' hafter]
    calc _ = _ := hcommit
      _ ≤ _ := h₁.node.commit_le
      _ < _ := Nat.lt_succ_self _
  · unfold RaftNode.propose at hproposed
    rw [if_pos hr] at hproposed
    cases hproposed

/-- A node elected by its own vote proposes a command as entry 2, after its no-op. -/
theorem solo_proposal_stuck : (run (History.exec .checked) ⟨RaftNode.new 1 [] 1, []⟩
      [.tick, .propose .noop, .tick, .tick]).node.log.commitIndex < 2 :=
  (proposed_alone_never_committed .checked (.new 1 1) [.tick] [.tick, .tick] (by decide) .noop
    (show _ = some (some (2, [])) by decide)).1

/-- The leader of a cluster of one answered with index 2; nothing is committed or handed out. -/
theorem solo_leader_does_not_commit :
    let h := run (History.exec .checked) ⟨RaftNode.new 1 [] 1, []⟩ [.tick]
    let h' := h.exec .checked (.propose .noop)
    (h.node.propose .noop).2 = some (some (2, [])) ∧ h'.node.role = .leader ∧
      h'.node.quorum = 1 ∧ h'.node.log.lastIndex = 2 ∧ h'.node.log.commitIndex = 0 ∧
      applied h'.trace = [] := by
  decide

end Haltchain.Consensus

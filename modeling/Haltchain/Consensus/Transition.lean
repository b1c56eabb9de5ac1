import Haltchain.Consensus.Node

/-! # What one call can do

`Transition` lists every way a call can return on a node whose log is indexed, and `Crash` the ways
it can fail to. `exec_cases` derives both from the handlers; the later modules are case analyses
over them and never unfold a handler again. -/

namespace Haltchain.Consensus

open List

namespace RaftNode

/-! ## States and replies named by the transitions -/

/-- The announcement a leader makes when it steps down. -/
def stepDown (n : RaftNode) (term : Nat) : List RaftAction :=
  if n.role = .leader then [.becameFollower term] else []

/-- The state after granting the vote `req` asks for. -/
def grant (n : RaftNode) (req : RequestVoteReq) : RaftNode :=
  { n with votedFor := some req.candidateId, electionElapsed := 0 }.persistState

/-- The state after counting a vote of `voter`. -/
def countVote (n : RaftNode) (voter : Nat) : RaftNode :=
  { n with votesReceived := insert voter n.votesReceived }

/-- The log after the append loop and the commit update. -/
def merged (n : RaftNode) (req : AppendEntriesReq) : DecisionLog :=
  (req.entries.foldl appendEntry n.log).setCommitIndex req.leaderCommit

/-- The state written to the file by an accepted request. -/
def accept (n : RaftNode) (req : AppendEntriesReq) : RaftNode :=
  { n.follow req.term with log := n.merged req }.persistState

/-- The state after storing what a peer acknowledged. -/
def acked (n : RaftNode) (sender : Nat) (ps : PeerState) : RaftNode :=
  { n with peerState := n.peerState.insert sender ps }

/-- The state written to the file when index `k` is committed. -/
def commitTo (n : RaftNode) (k : Nat) : RaftNode :=
  { n with log := n.log.setCommitIndex k }.persistState

/-- The state after appending a proposed command. -/
def proposed (n : RaftNode) (command : DecisionCommand) : RaftNode :=
  { n with log := (n.log.append n.currentTerm command).1 }.persistState

/-- The `Apply` action of a batch; an empty batch emits none. -/
def applyActions (batch : List LogEntry) : List RaftAction :=
  if batch.isEmpty then [] else [.apply batch]

variable {n : RaftNode}

theorem eq_of_mem_stepDown {term : Nat} {a : RaftAction} (h : a ∈ n.stepDown term) :
    a = .becameFollower term := by
  unfold stepDown at h
  split at h
  · exact mem_singleton.1 h
  · simp at h

theorem eq_of_mem_applyActions {batch : List LogEntry} {a : RaftAction}
    (h : a ∈ applyActions batch) : a = .apply batch := by
  unfold applyActions at h
  split at h
  · simp at h
  · exact mem_singleton.1 h

section

variable {P : Observation → Prop}

/-- What holds of every request to a peer holds of a round of heartbeats. -/
theorem forall_heartbeats (h : ∀ p ps, P (.action (.send p (.appendReq (n.appendMsg ps))))) :
    ∀ o ∈ n.heartbeats.map .action, P o := by
  rw [forall_mem_map]
  intro a ha
  obtain ⟨p, -, ps, -, rfl⟩ := mem_heartbeats.1 ha
  exact h p ps

theorem forall_appendActions {dest : Nat}
    (h : ∀ ps, P (.action (.send dest (.appendReq (n.appendMsg ps))))) :
    ∀ o ∈ (n.appendActions dest).map .action, P o := by
  rw [forall_mem_map]
  intro a ha
  obtain ⟨ps, -, rfl⟩ := mem_appendActions.1 ha
  exact h ps

theorem forall_stepDown {term : Nat} (h : P (.action (.becameFollower term))) :
    ∀ o ∈ (n.stepDown term).map .action, P o := by
  rw [forall_mem_map]
  intro a ha
  exact eq_of_mem_stepDown ha ▸ h

theorem forall_applyActions {batch : List LogEntry} (h : P (.action (.apply batch))) :
    ∀ o ∈ (applyActions batch).map .action, P o := by
  rw [forall_mem_map]
  intro a ha
  exact eq_of_mem_applyActions ha ▸ h

end

section

variable (n : RaftNode)

section

variable (r : RequestVoteReq)

@[simp] theorem grant_id : (n.grant r).id = n.id := by simp [grant]
@[simp] theorem grant_peers : (n.grant r).peers = n.peers := by simp [grant]
@[simp] theorem grant_role : (n.grant r).role = n.role := by simp [grant]
@[simp] theorem grant_currentTerm : (n.grant r).currentTerm = n.currentTerm := by simp [grant]
@[simp] theorem grant_votedFor : (n.grant r).votedFor = some r.candidateId := by simp [grant]
@[simp] theorem grant_votesReceived : (n.grant r).votesReceived = n.votesReceived := by simp [grant]
@[simp] theorem grant_log : (n.grant r).log = n.log := by simp [grant]
@[simp] theorem grant_peerState : (n.grant r).peerState = n.peerState := by
  simp [grant]

end

section

variable (r : AppendEntriesReq)

@[simp] theorem accept_id : (n.accept r).id = n.id := by simp [accept]
@[simp] theorem accept_peers : (n.accept r).peers = n.peers := by
  simp [accept]
@[simp] theorem accept_role : (n.accept r).role = .follower := by
  simp [accept]
@[simp] theorem accept_currentTerm : (n.accept r).currentTerm = r.term := by
  simp [accept]
@[simp] theorem accept_votedFor : (n.accept r).votedFor = none := by
  simp [accept]
@[simp] theorem accept_log : (n.accept r).log = n.merged r := by
  simp [accept]
@[simp] theorem accept_peerState : (n.accept r).peerState = ∅ := by
  simp [accept]

end

@[simp] theorem commitTo_id (k : Nat) : (n.commitTo k).id = n.id := by simp [commitTo]
@[simp] theorem commitTo_peers (k : Nat) : (n.commitTo k).peers = n.peers := by simp [commitTo]
@[simp] theorem commitTo_role (k : Nat) : (n.commitTo k).role = n.role := by simp [commitTo]
@[simp] theorem commitTo_currentTerm (k : Nat) : (n.commitTo k).currentTerm = n.currentTerm := by
  simp [commitTo]
@[simp] theorem commitTo_votedFor (k : Nat) : (n.commitTo k).votedFor = n.votedFor := by
  simp [commitTo]
@[simp] theorem commitTo_votesReceived (k : Nat) :
    (n.commitTo k).votesReceived = n.votesReceived := by simp [commitTo]
@[simp] theorem commitTo_log (k : Nat) : (n.commitTo k).log = n.log.setCommitIndex k := by
  simp [commitTo]
@[simp] theorem commitTo_peerState (k : Nat) : (n.commitTo k).peerState = n.peerState := by
  simp [commitTo]

section

variable (c : DecisionCommand)

@[simp] theorem proposed_id : (n.proposed c).id = n.id := by simp [proposed]
@[simp] theorem proposed_peers : (n.proposed c).peers = n.peers := by
  simp [proposed]
@[simp] theorem proposed_role : (n.proposed c).role = n.role := by
  simp [proposed]
@[simp] theorem proposed_currentTerm :
    (n.proposed c).currentTerm = n.currentTerm := by simp [proposed]
@[simp] theorem proposed_votedFor : (n.proposed c).votedFor = n.votedFor := by simp [proposed]
@[simp] theorem proposed_votesReceived :
    (n.proposed c).votesReceived = n.votesReceived := by simp [proposed]
@[simp] theorem proposed_log :
    (n.proposed c).log = (n.log.append n.currentTerm c).1 := by simp [proposed]
@[simp] theorem proposed_peerState : (n.proposed c).peerState = n.peerState := by simp [proposed]

end

end

/-! ## The transitions -/

/-- Everything a returning call can do to a node with an indexed log. -/
inductive Transition (ov : Overflow) (n : RaftNode) : Call → RaftNode → List Observation → Prop
  | idle (hr : n.role ≠ .leader) (hd : ¬ n.electionDue) :
      Transition ov n .tick { n with electionElapsed := n.electionElapsed + 1 } []
  | heartbeat (hr : n.role = .leader) :
      Transition ov n .tick { n with heartbeatElapsed := 0 } (n.heartbeats.map .action)
  | campaign {t : Nat} (hd : n.electionDue) (ht : ov.add n.currentTerm 1 = some t)
      (hq : 1 < n.quorum) :
      Transition ov n .tick (n.campaign t)
        [.electionStarted t,
          .action (.broadcast (.voteReq ⟨t, n.id, n.log.lastIndex, n.log.lastTerm⟩))]
  | campaignWon {t : Nat} (hd : n.electionDue) (ht : ov.add n.currentTerm 1 = some t)
      (hq : n.quorum ≤ 1) :
      Transition ov n .tick (n.campaign t).lead
        (.electionStarted t :: .action (.becameLeader t) ::
          (n.campaign t).lead.heartbeats.map .action)
  | proposed (c : DecisionCommand) (hr : n.role = .leader) :
      Transition ov n (.propose c) (n.proposed c) ((n.proposed c).heartbeats.map .action)
  | refused (c : DecisionCommand) (hr : n.role ≠ .leader) : Transition ov n (.propose c) n []
  | voteStale (s : Nat) (req : RequestVoteReq) (ht : req.term < n.currentTerm) :
      Transition ov n (.step s (.voteReq req)) n [.action (n.voteReply req false)]
  | voteDenied (s : Nat) (req : RequestVoteReq) (ht : req.term = n.currentTerm)
      (hno : ¬ (n.logOk req ∧ n.canVote req)) :
      Transition ov n (.step s (.voteReq req)) n [.action (n.voteReply req false)]
  | voteDeniedNewer (s : Nat) (req : RequestVoteReq) (ht : n.currentTerm < req.term)
      (hno : ¬ n.logOk req) :
      Transition ov n (.step s (.voteReq req)) (n.follow req.term)
        ((n.stepDown req.term ++ [(n.follow req.term).voteReply req false]).map .action)
  | voteGranted (s : Nat) (req : RequestVoteReq) (ht : req.term = n.currentTerm)
      (hl : n.logOk req) (hv : n.canVote req) :
      Transition ov n (.step s (.voteReq req)) (n.grant req) [.action (n.voteReply req true)]
  | voteGrantedNewer (s : Nat) (req : RequestVoteReq) (ht : n.currentTerm < req.term)
      (hl : n.logOk req) :
      Transition ov n (.step s (.voteReq req)) ((n.follow req.term).grant req)
        ((n.stepDown req.term ++ [(n.follow req.term).voteReply req true]).map .action)
  | voteRespNewer (s : Nat) (resp : RequestVoteResp) (ht : n.currentTerm < resp.term) :
      Transition ov n (.step s (.voteResp resp)) (n.follow resp.term)
        ((n.stepDown resp.term).map .action)
  | voteRespIgnored (s : Nat) (resp : RequestVoteResp) (ht : resp.term ≤ n.currentTerm)
      (hr : n.role ≠ .candidate ∨ resp.voteGranted = false) :
      Transition ov n (.step s (.voteResp resp)) n []
  | voteCounted (s : Nat) (resp : RequestVoteResp) (ht : resp.term ≤ n.currentTerm)
      (hr : n.role = .candidate) (hg : resp.voteGranted = true)
      (hq : (insert resp.fromId n.votesReceived).card < n.quorum) :
      Transition ov n (.step s (.voteResp resp)) (n.countVote resp.fromId) []
  | voteWon (s : Nat) (resp : RequestVoteResp) (ht : resp.term ≤ n.currentTerm)
      (hr : n.role = .candidate) (hg : resp.voteGranted = true)
      (hq : n.quorum ≤ (insert resp.fromId n.votesReceived).card) :
      Transition ov n (.step s (.voteResp resp)) (n.countVote resp.fromId).lead
        (.action (.becameLeader n.currentTerm) ::
          (n.countVote resp.fromId).lead.heartbeats.map .action)
  | appendStale (s : Nat) (req : AppendEntriesReq) (ht : req.term < n.currentTerm) :
      Transition ov n (.step s (.appendReq req)) n [.action (n.appendReply req false 0)]
  | appendMismatch (s : Nat) (req : AppendEntriesReq) (ht : n.currentTerm ≤ req.term)
      (hp : ¬ n.prevOk req) :
      Transition ov n (.step s (.appendReq req)) (n.follow req.term)
        [.action ((n.follow req.term).appendReply req false n.log.lastIndex)]
  | appendAccepted (s : Nat) (req : AppendEntriesReq) (ht : n.currentTerm ≤ req.term)
      (hp : n.prevOk req) {log : DecisionLog} {batch : List LogEntry}
      (hb : (n.merged req).takeUnapplied = some (log, batch)) :
      Transition ov n (.step s (.appendReq req)) { n.accept req with log := log }
        ((n.stepDown req.term ++ applyActions batch ++
          [(n.accept req).appendReply req true log.lastIndex]).map .action)
  | ackNewer (s : Nat) (resp : AppendEntriesResp) (ht : n.currentTerm < resp.term) :
      Transition ov n (.step s (.appendResp resp)) (n.follow resp.term)
        ((n.stepDown resp.term).map .action)
  | ackIgnored (s : Nat) (resp : AppendEntriesResp) (ht : resp.term ≤ n.currentTerm)
      (hr : n.role ≠ .leader) :
      Transition ov n (.step s (.appendResp resp)) n []
  | ackStored (s : Nat) (resp : AppendEntriesResp) (ht : resp.term ≤ n.currentTerm)
      (hr : n.role = .leader) {ps : PeerState} (hp : n.peerState.lookup s = some ps)
      (hs : resp.success = true) {next : Nat} (ha : ov.add resp.matchIndex 1 = some next)
      (hc : (n.acked s ⟨next, resp.matchIndex⟩).commitCandidate = none) :
      Transition ov n (.step s (.appendResp resp)) (n.acked s ⟨next, resp.matchIndex⟩) []
  | ackCommitted (s : Nat) (resp : AppendEntriesResp) (ht : resp.term ≤ n.currentTerm)
      (hr : n.role = .leader) {ps : PeerState} (hp : n.peerState.lookup s = some ps)
      (hs : resp.success = true) {next : Nat} (ha : ov.add resp.matchIndex 1 = some next)
      {k : Nat} (hc : (n.acked s ⟨next, resp.matchIndex⟩).commitCandidate = some k)
      {log : DecisionLog} {batch : List LogEntry}
      (hb : (n.log.setCommitIndex k).takeUnapplied = some (log, batch)) :
      Transition ov n (.step s (.appendResp resp))
        { (n.acked s ⟨next, resp.matchIndex⟩).commitTo k with log := log }
        ((applyActions batch).map .action)
  | nacked (s : Nat) (resp : AppendEntriesResp) (ht : resp.term ≤ n.currentTerm)
      (hr : n.role = .leader) {ps : PeerState} (hp : n.peerState.lookup s = some ps)
      (hs : resp.success = false) {next : Nat}
      (hn : (if 0 < resp.matchIndex then ov.add resp.matchIndex 1
        else some (max (ps.nextIndex - 1) 1)) = some next) :
      Transition ov n (.step s (.appendResp resp)) (n.acked s { ps with nextIndex := next })
        (((n.acked s { ps with nextIndex := next }).appendActions s).map .action)

/-- The next process after a call that panicked: nothing was written, or an accepted request, before
the slice in `takeUnapplied`. -/
inductive Crash (n : RaftNode) : Call → RaftNode → Prop
  | restarted (call : Call) (timeout : Nat) : Crash n call (n.restart timeout)
  | appendCrashed (s : Nat) (req : AppendEntriesReq) (timeout : Nat)
      (ht : n.currentTerm ≤ req.term) (hp : n.prevOk req)
      (hb : (n.merged req).takeUnapplied = none) :
      Crash n (.step s (.appendReq req)) ((n.accept req).restart timeout)

/-! ## Deriving them from the handlers -/

theorem startElection_eq (ov : Overflow) (n : RaftNode) : n.startElection ov =
      match ov.add n.currentTerm 1 with
      | none => (n, none)
      | some t =>
        if n.quorum ≤ 1 then (n.campaign t).becomeLeader
        else (n.campaign t,
          some [.broadcast (.voteReq ⟨t, n.id, n.log.lastIndex, n.log.lastTerm⟩)]) := by
  unfold startElection
  cases ov.add n.currentTerm 1 with
  | none => rfl
  | some t =>
    show (if (n.campaign t).quorum ≤ (n.campaign t).votesReceived.card then
        (n.campaign t).becomeLeader else (n.campaign t, some [.broadcast (.voteReq
          ⟨(n.campaign t).currentTerm, (n.campaign t).id, (n.campaign t).log.lastIndex,
            (n.campaign t).log.lastTerm⟩)])) = _
    rw [campaign_quorum, campaign_votesReceived, Finset.card_singleton, campaign_currentTerm,
      campaign_id, campaign_log]

/-- On an indexed log a new commit index lies within it, so applying never panics. -/
theorem commitCandidate_some (h : n.log.Indexed) {k : Nat} (hk : n.commitCandidate = some k) :
    n.log.commitIndex < k ∧ k ≤ n.log.entries.length ∧
      (n.log.get k).map (·.term) = some n.currentTerm ∧
      n.quorum ≤ n.peerState.replicated k + 1 := by
  have hmem := mem_of_find?_eq_some hk
  have hprop := find?_some hk
  simp only [mem_reverse, mem_range'_1] at hmem
  simp only [decide_eq_true_eq] at hprop
  rw [h.lastIndex_eq] at hmem
  exact ⟨by omega, by omega, hprop.1, hprop.2⟩

/-- A handler's result is one of the listed outcomes. -/
def Settles (ov : Overflow) (n : RaftNode) (call : Call) :
    RaftNode × Option (List RaftAction) → Prop
  | (n', some actions) => Transition ov n call n' (actions.map .action)
  | (n', none) => Crash n call (n'.restart n'.electionTimeout)

theorem voteReply_grant (n : RaftNode) (req : RequestVoteReq) (granted : Bool) :
    (n.grant req).voteReply req granted = n.voteReply req granted := by
  unfold voteReply
  rw [grant_currentTerm, grant_id]

theorem handleVoteReq_settles (ov : Overflow) (n : RaftNode) (s : Nat) (req : RequestVoteReq) :
    Settles ov n (.step s (.voteReq req))
      ((n.handleVoteReq req).1, some (n.handleVoteReq req).2) := by
  unfold handleVoteReq
  split
  · next hlt => exact .voteStale s req hlt
  by_cases hgt : n.currentTerm < req.term
  · have hfst : n.becomeFollower req.term = (n.follow req.term, n.stepDown req.term) := rfl
    have hlog : (n.follow req.term).logOk req ↔ n.logOk req := by
      unfold logOk
      rw [follow_log]
    have hvote : (n.follow req.term).canVote req := .inl (follow_votedFor n req.term)
    rw [if_pos hgt]
    dsimp only
    split
    · next hok =>
      show Transition ov n _ ((n.follow req.term).grant req)
        ((n.stepDown req.term ++ [((n.follow req.term).grant req).voteReply req true]).map _)
      rw [voteReply_grant]
      exact .voteGrantedNewer s req hgt (hlog.1 hok.1)
    · next hno => exact .voteDeniedNewer s req hgt fun hok => hno ⟨hlog.2 hok, hvote⟩
  · have heq : req.term = n.currentTerm := by omega
    rw [if_neg hgt]
    dsimp only
    split
    · next hok =>
      show Transition ov n _ (n.grant req) [.action ((n.grant req).voteReply req true)]
      rw [voteReply_grant]
      exact .voteGranted s req heq hok.1 hok.2
    · next hno => exact .voteDenied s req heq hno

theorem handleVoteResp_settles (ov : Overflow) (h : n.log.Indexed) (s : Nat)
    (resp : RequestVoteResp) : Settles ov n (.step s (.voteResp resp)) (n.handleVoteResp resp) := by
  unfold handleVoteResp
  split
  · next hgt => exact .voteRespNewer s resp hgt
  next hgt =>
  split
  · next hr => exact .voteRespIgnored s resp (by omega) (.inl hr)
  next hr =>
  split
  · next hg =>
    show Settles ov n _ (if n.quorum ≤ (insert resp.fromId n.votesReceived).card then
      (n.countVote resp.fromId).becomeLeader else (n.countVote resp.fromId, some []))
    split
    · next hq =>
      rw [becomeLeader_eq (n := n.countVote resp.fromId) h]
      exact .voteWon s resp (by omega) (not_not.1 hr) hg hq
    · next hq => exact .voteCounted s resp (by omega) (not_not.1 hr) hg (by omega)
  · next hg => exact .voteRespIgnored s resp (by omega) (.inr (by simpa using hg))

theorem appendNewEntries_eq (n : RaftNode) (req : AppendEntriesReq) :
    (n.follow req.term).appendNewEntries req (n.stepDown req.term) =
      match (n.merged req).takeUnapplied with
      | none => (n.accept req, none)
      | some (log, batch) =>
        ({ n.accept req with log := log },
          some (n.stepDown req.term ++ applyActions batch ++
            [(n.accept req).appendReply req true log.lastIndex])) := by
  have hlog : (n.accept req).log = n.merged req := accept_log n req
  unfold accept merged at hlog
  unfold appendNewEntries
  rw [follow_log]
  dsimp only
  rw [hlog]
  rfl

theorem appendNewEntries_settles (ov : Overflow) (s : Nat) {req : AppendEntriesReq}
    (ht : n.currentTerm ≤ req.term) (hp : n.prevOk req) : Settles ov n (.step s (.appendReq req))
      ((n.follow req.term).appendNewEntries req (n.stepDown req.term)) := by
  rw [appendNewEntries_eq]
  cases hb : (n.merged req).takeUnapplied with
  | none => exact .appendCrashed s req _ ht hp hb
  | some lb => exact .appendAccepted s req ht hp hb

theorem handleAppendReq_eq (n : RaftNode) (req : AppendEntriesReq) : n.handleAppendReq req =
      if req.term < n.currentTerm then (n, some [n.appendReply req false 0])
      else if n.prevOk req then
        (n.follow req.term).appendNewEntries req (n.stepDown req.term)
      else (n.follow req.term,
        some [(n.follow req.term).appendReply req false n.log.lastIndex]) := by
  unfold handleAppendReq
  by_cases hlt : req.term < n.currentTerm
  · rw [if_pos hlt, if_pos hlt]
  rw [if_neg hlt, if_neg hlt]
  -- `becomeFollower` has reset the timer already
  have htimer : { n.follow req.term with electionElapsed := 0 } = n.follow req.term := by
    unfold follow becomeFollower persistState
    split <;> rfl
  show (if ¬ prevOk { n.follow req.term with electionElapsed := 0 } req
    then ({ n.follow req.term with electionElapsed := 0 },
      some [appendReply { n.follow req.term with electionElapsed := 0 } req false
        (n.follow req.term).log.lastIndex])
    else appendNewEntries { n.follow req.term with electionElapsed := 0 } req
      (n.stepDown req.term)) = _
  have hprev : (n.follow req.term).prevOk req ↔ n.prevOk req := by
    unfold prevOk
    rw [follow_log]
  rw [htimer, follow_log]
  simp only [hprev, ite_not]

theorem handleAppendReq_settles (ov : Overflow) (s : Nat) (req : AppendEntriesReq) :
    Settles ov n (.step s (.appendReq req)) (n.handleAppendReq req) := by
  rw [handleAppendReq_eq]
  split_ifs with hlt hp
  · exact .appendStale s req hlt
  · exact appendNewEntries_settles ov s (by omega) hp
  · exact .appendMismatch s req (by omega) hp

/-- The commit index moves to the candidate, if any, and the batch is in range. -/
theorem tryAdvanceCommitIndex_cases (h : n.log.Indexed) :
    (n.commitCandidate = none ∧ n.tryAdvanceCommitIndex = (n, some [])) ∨
      ∃ k log batch, n.commitCandidate = some k ∧
        (n.log.setCommitIndex k).takeUnapplied = some (log, batch) ∧
        n.tryAdvanceCommitIndex
          = ({ n.commitTo k with log := log }, some (applyActions batch)) := by
  unfold tryAdvanceCommitIndex
  cases hc : n.commitCandidate with
  | none => exact .inl ⟨rfl, rfl⟩
  | some k =>
    have hlog : (n.commitTo k).log = n.log.setCommitIndex k := commitTo_log n k
    cases hb : (n.log.setCommitIndex k).takeUnapplied with
    | none =>
      -- the chosen index is within the log
      obtain ⟨hlow, hhigh, -, -⟩ := commitCandidate_some h hc
      have hnone := (DecisionLog.takeUnapplied_eq_none.1 hb).2
      rw [h.setCommitIndex_commitIndex hlow hhigh, DecisionLog.setCommitIndex_entries] at hnone
      omega
    | some lb =>
      obtain ⟨log, batch⟩ := lb
      refine .inr ⟨k, log, batch, rfl, hb, ?_⟩
      unfold commitTo at hlog ⊢
      dsimp only
      rw [hlog, hb]
      rfl

theorem handleAppendResp_settles (ov : Overflow) (h : n.log.Indexed) (s : Nat)
    (resp : AppendEntriesResp) :
    Settles ov n (.step s (.appendResp resp)) (n.handleAppendResp ov s resp) := by
  unfold handleAppendResp
  split
  · next hgt => exact .ackNewer s resp hgt
  next hgt =>
  have ht : resp.term ≤ n.currentTerm := by omega
  split
  · next hr => exact .ackIgnored s resp ht hr
  next hr =>
  have hr := not_not.1 hr
  cases hp : n.peerState.lookup s with
  | none => exact .restarted _ n.electionTimeout
  | some ps =>
    dsimp only
    split
    · next hs =>
      cases ha : ov.add resp.matchIndex 1 with
      | none => exact .restarted _ n.electionTimeout
      | some next =>
        show Settles ov n _ (n.acked s ⟨next, resp.matchIndex⟩).tryAdvanceCommitIndex
        rcases tryAdvanceCommitIndex_cases (n := n.acked s ⟨next, resp.matchIndex⟩) h with
          ⟨hc, heq⟩ | ⟨k, log, batch, hc, hb, heq⟩
        · rw [heq]
          exact .ackStored s resp ht hr hp hs ha hc
        · rw [heq]
          exact .ackCommitted s resp ht hr hp hs ha hc hb
    · next hs =>
      cases hn : (if 0 < resp.matchIndex then ov.add resp.matchIndex 1
          else some (max (ps.nextIndex - 1) 1)) with
      | none => exact .restarted _ n.electionTimeout
      | some next =>
        show Settles ov n _ (n.acked s { ps with nextIndex := next },
          (n.acked s { ps with nextIndex := next }).sendAppend s)
        rw [sendAppend_eq (n := n.acked s { ps with nextIndex := next }) h]
        exact .nacked s resp ht hr hp (by simpa using hs) hn

theorem propose_eq (h : n.log.Indexed) (c : DecisionCommand) (hr : n.role = .leader) :
    n.propose c = (n.proposed c, some (some (n.log.lastIndex + 1, (n.proposed c).heartbeats))) := by
  have hi : (n.proposed c).log.Indexed := by
    rw [proposed_log]
    exact h.append _ _
  unfold propose
  rw [if_neg (not_not.2 hr)]
  show (n.proposed c, (n.proposed c).replicateToPeers.map _) = _
  rw [replicateToPeers, mapM_sendAppend_eq hi]
  rfl

theorem tick_of_leader (ov : Overflow) (hr : n.role = .leader) :
    n.tick ov = ({ n with heartbeatElapsed := 0 },
      broadcastHeartbeat { n with heartbeatElapsed := 0 }) := by
  unfold tick
  rw [hr]
  dsimp only
  rw [if_pos (by unfold heartbeatTicks; omega)]

theorem tick_of_not_leader (ov : Overflow) (hr : n.role ≠ .leader) : n.tick ov = if n.electionDue
      then startElection ov { n with electionElapsed := n.electionElapsed + 1 }
      else ({ n with electionElapsed := n.electionElapsed + 1 }, some []) := by
  have hdue : n.electionDue ↔ n.electionTimeout ≤ n.electionElapsed + 1 :=
    ⟨fun hd => hd.2, fun hd => ⟨hr, hd⟩⟩
  simp only [hdue]
  unfold tick
  cases hrole : n.role with
  | leader => exact absurd hrole hr
  | follower => rfl
  | candidate => rfl

theorem tick_cases (ov : Overflow) (h : n.log.Indexed) : (∃ actions, (n.tick ov).2 = some actions ∧
      Transition ov n .tick (n.tick ov).1
        ((if n.electionDue then [.electionStarted (n.tick ov).1.currentTerm] else []) ++
          actions.map .action)) ∨
    ((n.tick ov).2 = none ∧ ∀ t, Crash n .tick ((n.tick ov).1.restart t)) := by
  by_cases hr : n.role = .leader
  · have hdue : ¬ n.electionDue := fun hd => hd.1 hr
    have hbeat : broadcastHeartbeat { n with heartbeatElapsed := 0 } = some n.heartbeats :=
      broadcastHeartbeat_eq (n := { n with heartbeatElapsed := 0 }) h
    rw [tick_of_leader ov hr, hbeat, if_neg hdue]
    exact .inl ⟨_, rfl, .heartbeat hr⟩
  · rw [tick_of_not_leader ov hr]
    by_cases hd : n.electionDue
    · rw [if_pos hd, startElection_eq]
      cases ht : ov.add n.currentTerm 1 with
      | none => exact .inr ⟨rfl, fun t => .restarted _ t⟩
      | some t =>
        have hl : (n.campaign t).log.Indexed := by rwa [campaign_log]
        dsimp only
        split
        · next hq =>
          have hterm : (n.campaign t).lead.currentTerm = t := by simp
          refine .inl ⟨_, congrArg Prod.snd (becomeLeader_eq hl), ?_⟩
          show Transition ov n .tick (n.campaign t).lead
            ([.electionStarted (n.campaign t).lead.currentTerm] ++ _)
          rw [hterm, campaign_currentTerm]
          exact .campaignWon hd ht hq
        · next hq =>
          refine .inl ⟨_, rfl, ?_⟩
          show Transition ov n .tick (n.campaign t)
            ([.electionStarted (n.campaign t).currentTerm] ++ _)
          rw [campaign_currentTerm]
          exact .campaign hd ht (not_le.1 hq)
    · rw [if_neg hd, if_neg hd]
      exact .inl ⟨_, rfl, .idle hr hd⟩

/-- **Every call either returns along one of the transitions, or crashes unseen.** -/
theorem exec_cases (ov : Overflow) (h : n.log.Indexed) (call : Call) :
    (n.returns ov call ∧ Transition ov n call (n.exec ov call).1 (n.exec ov call).2) ∨
    (¬ n.returns ov call ∧ Crash n call (n.exec ov call).1 ∧ (n.exec ov call).2 = []) := by
  cases call with
  | tick =>
    simp only [returns, exec]
    rcases tick_cases ov h with ⟨actions, hsome, htr⟩ | ⟨hnone, hcr⟩
    · obtain ⟨n', r, hr⟩ : ∃ n' r, n.tick ov = (n', r) := ⟨_, _, rfl⟩
      rw [hr] at hsome htr ⊢
      obtain rfl : r = some actions := hsome
      exact .inl ⟨rfl, htr⟩
    · obtain ⟨n', r, hr⟩ : ∃ n' r, n.tick ov = (n', r) := ⟨_, _, rfl⟩
      rw [hr] at hnone hcr ⊢
      obtain rfl : r = none := hnone
      exact .inr ⟨by simp, hcr _, rfl⟩
  | propose c =>
    by_cases hr : n.role = .leader
    · have heq := propose_eq h c hr
      simp only [returns, exec, heq]
      exact .inl ⟨rfl, .proposed c hr⟩
    · have heq : n.propose c = (n, some none) := if_pos hr
      simp only [returns, exec, heq]
      exact .inl ⟨rfl, .refused c hr⟩
  | step s msg =>
    have hsettle : Settles ov n (.step s msg) (n.step ov s msg) := by
      cases msg with
      | voteReq req => exact handleVoteReq_settles ov n s req
      | voteResp resp => exact handleVoteResp_settles ov h s resp
      | appendReq req => exact handleAppendReq_settles ov s req
      | appendResp resp => exact handleAppendResp_settles ov h s resp
    obtain ⟨n', r, hr⟩ : ∃ n' r, n.step ov s msg = (n', r) := ⟨_, _, rfl⟩
    simp only [returns, exec]
    rw [hr] at hsettle ⊢
    cases r with
    | none => exact .inr ⟨by simp, hsettle, rfl⟩
    | some actions => exact .inl ⟨rfl, hsettle⟩
  | restart timeout => exact .inr ⟨fun hret => hret, .restarted _ timeout, rfl⟩

end RaftNode

end Haltchain.Consensus

import Haltchain.Consensus.AppendLoop

/-! # The log of one node

A call changes the log in one of four ways (`LogStep`): not at all, by one appended entry, by an
accepted AppendEntries request, or by a commit of the leader. `LocalLog` numbers the entries and
orders the two frontiers. `truncateFrom` does not look at the commit index, so a request may cut
committed entries away. -/

namespace Haltchain.Consensus

open Lib DecisionLog List

/-! ## What is handed out for application -/

/-- The batches of all `Apply` actions, in order. -/
def applied (obs : List Observation) : List LogEntry :=
  obs.flatMap fun
    | .action (.apply es) => es
    | _ => []

@[simp] theorem applied_nil : applied [] = [] := rfl

@[simp] theorem applied_append (obs obs' : List Observation) :
    applied (obs ++ obs') = applied obs ++ applied obs' := flatMap_append

@[simp] theorem applied_electionStarted (t : Nat) (obs : List Observation) :
    applied (.electionStarted t :: obs) = applied obs := rfl

@[simp] theorem applied_becameLeader (t : Nat) (obs : List Observation) :
    applied (.action (.becameLeader t) :: obs) = applied obs := rfl

namespace RaftNode

@[simp] theorem applied_heartbeats (n : RaftNode) : applied (n.heartbeats.map .action) = [] :=
  flatMap_eq_nil_iff.2 (forall_heartbeats fun _ _ => rfl)

@[simp] theorem applied_appendActions (n : RaftNode) (dest : Nat) :
    applied ((n.appendActions dest).map .action) = [] :=
  flatMap_eq_nil_iff.2 (forall_appendActions fun _ => rfl)

@[simp] theorem applied_stepDown (n : RaftNode) (term : Nat) :
    applied ((n.stepDown term).map .action) = [] :=
  flatMap_eq_nil_iff.2 (forall_stepDown rfl)

@[simp] theorem applied_applyActions (batch : List LogEntry) :
    applied ((applyActions batch).map .action) = batch := by
  unfold applyActions applied
  cases batch with
  | nil => rfl
  | cons e rest => simp

/-! ## The four ways a log changes -/

/-- The log after a returning call, with the batch it hands out. -/
inductive LogStep (n : RaftNode) (call : Call) : DecisionLog → List LogEntry → Prop
  | same : LogStep n call n.log []
  | appended (term : Nat) (c : DecisionCommand) : LogStep n call (n.log.append term c).1 []
  | merged (s : Nat) (req : AppendEntriesReq) (hcall : call = .step s (.appendReq req))
      (ht : n.currentTerm ≤ req.term) (hp : n.prevOk req) {log : DecisionLog}
      {batch : List LogEntry} (hb : (n.merged req).takeUnapplied = some (log, batch)) :
      LogStep n call log batch
  | committed (k : Nat) (hlow : n.log.commitIndex < k) (hhigh : k ≤ n.log.entries.length)
      {log : DecisionLog} {batch : List LogEntry}
      (hb : (n.log.setCommitIndex k).takeUnapplied = some (log, batch)) :
      LogStep n call log batch

variable {n : RaftNode} {call : Call}

theorem Transition.logStep {ov : Overflow} {n' : RaftNode} {obs : List Observation}
    (h : n.log.Indexed) (ht : Transition ov n call n' obs) :
    LogStep n call n'.log (applied obs) := by
  cases ht with
  | heartbeat => rw [applied_heartbeats]; exact .same
  | campaign => rw [campaign_log]; exact .same
  | campaignWon =>
    rw [lead_log, campaign_log, applied_electionStarted, applied_becameLeader, applied_heartbeats]
    exact .appended _ _
  | proposed c => rw [proposed_log, applied_heartbeats]; exact .appended _ c
  | voteDeniedNewer s req =>
    rw [follow_log, map_append, applied_append, applied_stepDown]
    exact .same
  | voteGranted s req => rw [grant_log]; exact .same
  | voteGrantedNewer s req =>
    rw [grant_log, follow_log, map_append, applied_append, applied_stepDown]
    exact .same
  | voteRespNewer s resp | ackNewer s resp => rw [follow_log, applied_stepDown]; exact .same
  | voteWon s resp =>
    rw [lead_log, applied_becameLeader, applied_heartbeats]
    exact .appended _ _
  | appendMismatch s req => rw [follow_log]; exact .same
  | appendAccepted s req ht hp hb =>
    rw [map_append, map_append, applied_append, applied_append, applied_stepDown,
      applied_applyActions]
    exact append_nil _ ▸ .merged s req rfl ht hp hb
  | @ackCommitted s resp _ _ _ _ _ next _ k hc _ _ hb =>
    have hk := commitCandidate_some (n := n.acked s ⟨next, resp.matchIndex⟩) h hc
    rw [applied_applyActions]
    exact .committed (n := n) k hk.1 hk.2.1 hb
  | nacked => rw [applied_appendActions]; exact .same
  | _ => exact .same

/-! ## The invariant -/

/-- Entries numbered from one, and `last_applied ≤ commit_index ≤ last_index`. -/
structure LocalLog (n : RaftNode) : Prop where
  indexed : n.log.Indexed
  applied_le : n.log.lastApplied ≤ n.log.commitIndex
  commit_le : n.log.commitIndex ≤ n.log.lastIndex

theorem LocalLog.commit_le_length (h : n.LocalLog) : n.log.commitIndex ≤ n.log.entries.length := by
  rw [← h.indexed.lastIndex_eq]
  exact h.commit_le

theorem localLog_of_length (hidx : n.log.Indexed) (happ : n.log.lastApplied ≤ n.log.commitIndex)
    (hcom : n.log.commitIndex ≤ n.log.entries.length) : n.LocalLog :=
  ⟨hidx, happ, by rw [hidx.lastIndex_eq]; exact hcom⟩

/-- An accepted request has no entry that conflicts at or below the commit index. -/
def SparesCommitted (n : RaftNode) : Call → Prop
  | .step _ (.appendReq req) =>
    n.currentTerm ≤ req.term → n.prevOk req →
      ∀ e ∈ req.entries, e.index ≤ n.log.commitIndex → ¬ n.log.Conflicts e
  | _ => True

instance (n : RaftNode) (call : Call) : Decidable (n.SparesCommitted call) := by
  unfold SparesCommitted
  split <;> infer_instance

/-- `log'` extends what `log` has committed. -/
structure KeepsCommitted (log log' : DecisionLog) : Prop where
  commit_le : log.commitIndex ≤ log'.commitIndex
  take_eq : log'.entries.take log.commitIndex = log.entries.take log.commitIndex

theorem KeepsCommitted.refl (log : DecisionLog) : KeepsCommitted log log := ⟨le_rfl, rfl⟩

theorem KeepsCommitted.trans {l₁ l₂ l₃ : DecisionLog} (h₁ : KeepsCommitted l₁ l₂)
    (h₂ : KeepsCommitted l₂ l₃) : KeepsCommitted l₁ l₃ := by
  refine ⟨h₁.commit_le.trans h₂.commit_le, ?_⟩
  have h := congrArg (take l₁.commitIndex) h₂.take_eq
  rw [take_take, take_take, min_eq_left h₁.commit_le] at h
  rw [h, h₁.take_eq]

/-- A kept prefix reaches to the end of what was committed. -/
theorem LocalLog.kept (h : n.LocalLog) {es : List LogEntry}
    (hk : n.log.entries.take n.log.commitIndex <+: es) : n.log.commitIndex ≤ es.length ∧
      es.take n.log.commitIndex = n.log.entries.take n.log.commitIndex := by
  have hlen : (n.log.entries.take n.log.commitIndex).length = n.log.commitIndex := by
    rw [length_take]
    exact min_eq_left h.commit_le_length
  have hle := hk.length_le
  have htake := prefix_iff_eq_take.1 hk
  rw [hlen] at hle htake
  exact ⟨hle, htake.symm⟩

/-- The commit update of an accepted request only advances, if committed entries stay. -/
theorem LocalLog.merged (h : n.LocalLog) {req : AppendEntriesReq}
    (hk : n.log.entries.take n.log.commitIndex <+: (n.merged req).entries) :
    KeepsCommitted n.log (n.merged req) ∧
      (n.merged req).commitIndex ≤ (n.merged req).entries.length := by
  obtain ⟨hlen, htake⟩ := h.kept hk
  have hcommit := merged_commitIndex h.indexed req
  refine ⟨⟨?_, htake⟩, ?_⟩
  · rw [hcommit]
    split <;> omega
  · rw [hcommit]
    split <;> omega

/-- What a call does to the log and what it hands out. -/
structure Advances (n n' : RaftNode) (batch : List LogEntry) : Prop where
  localLog : n'.LocalLog
  keeps : KeepsCommitted n.log n'.log
  applied_eq : n.log.entries.take n.log.lastApplied ++ batch
    = n'.log.entries.take n'.log.lastApplied

/-- Taking the unapplied batch off `l` hands out what lies between the two frontiers. -/
theorem LocalLog.takeUnapplied {n' : RaftNode} (h : n.LocalLog) {l : DecisionLog}
    {batch : List LogEntry} (hidx : l.Indexed) (happ : l.lastApplied = n.log.lastApplied)
    (hcom : l.commitIndex ≤ l.entries.length) (hkeep : KeepsCommitted n.log l)
    (hb : l.takeUnapplied = some (n'.log, batch)) : Advances n n' batch := by
  obtain ⟨hl, hbatch, -⟩ := hidx.takeUnapplied_eq hb
  have hla := h.applied_le
  have hci := hkeep.commit_le
  have hentries : n'.log.entries = l.entries := by rw [hl]
  have hcommit : n'.log.commitIndex = l.commitIndex := by rw [hl]
  have happlied : n'.log.lastApplied = l.commitIndex := by
    rw [hl]
    exact Nat.max_eq_right (by omega)
  refine ⟨localLog_of_length ?_ (by omega) (by rw [hentries]; omega), ⟨by omega, ?_⟩, ?_⟩
  · unfold Indexed
    rw [hentries]
    exact hidx
  · rw [hentries]
    exact hkeep.take_eq
  · -- up to `last_applied` the old and the new log are the same
    have hfirst : n.log.entries.take n.log.lastApplied
        = (l.entries.take l.commitIndex).take n.log.lastApplied := by
      have heq := congrArg (take n.log.lastApplied) hkeep.take_eq
      rw [take_take, take_take, min_eq_left hla] at heq
      rw [take_take, min_eq_left (hla.trans hci), heq]
    rw [hbatch, happ, hfirst, take_append_drop, hentries, happlied]

/-- **A call that leaves the committed entries in place keeps the invariant**, advances the commit
index, and hands out the entries next in order. -/
theorem LocalLog.advances {n' : RaftNode} (h : n.LocalLog) {batch : List LogEntry}
    (hs : LogStep n call n'.log batch)
    (hk : n.log.entries.take n.log.commitIndex <+: n'.log.entries) : Advances n n' batch := by
  have hlen := h.commit_le_length
  have hla := h.applied_le
  generalize hlog : n'.log = log at hs hk
  cases hs with
  | same =>
    refine ⟨⟨?_, ?_, ?_⟩, ?_, ?_⟩
    · rw [hlog]; exact h.indexed
    · rw [hlog]; exact hla
    · rw [hlog]; exact h.commit_le
    · rw [hlog]; exact .refl _
    · rw [hlog, append_nil]
  | appended term c =>
    refine ⟨localLog_of_length ?_ ?_ ?_, ⟨?_, ?_⟩, ?_⟩
    · rw [hlog]; exact h.indexed.append term c
    · rw [hlog]; exact hla
    · rw [hlog, append_commitIndex, append_entries, length_append]
      omega
    · rw [hlog, append_commitIndex]
    · rw [hlog]
      exact take_append_of_le_length hlen
    · rw [hlog, append_entries, append_lastApplied, append_nil,
        take_append_of_le_length (hla.trans hlen)]
  | merged s req hcall ht hp hb =>
    subst hlog
    have hidx := merged_indexed h.indexed req
    obtain ⟨hl, -, -⟩ := hidx.takeUnapplied_eq hb
    rw [hl] at hk
    obtain ⟨hkeep, hcom⟩ := h.merged hk
    exact h.takeUnapplied hidx (merged_lastApplied n req) hcom hkeep hb
  | committed k hlow hhigh hb =>
    subst hlog
    have hcommit := h.indexed.setCommitIndex_commitIndex hlow hhigh
    refine h.takeUnapplied (h.indexed.setCommitIndex k) ?_ ?_ ⟨?_, ?_⟩ hb
    · rw [setCommitIndex_lastApplied]
    · rw [hcommit, setCommitIndex_entries]
      exact hhigh
    · omega
    · rw [setCommitIndex_entries]

/-- Only an accepted request can touch committed entries, by a conflict. -/
theorem LogStep.kept (h : n.LocalLog) {log : DecisionLog} {batch : List LogEntry}
    (hs : LogStep n call log batch) (hc : n.SparesCommitted call) :
    n.log.entries.take n.log.commitIndex <+: log.entries := by
  cases hs with
  | same => exact take_prefix _ _
  | appended term c =>
    exact .trans ⟨_, take_append_drop _ _⟩ (prefix_append _ _)
  | merged s req hcall ht hp hb =>
    subst hcall
    obtain ⟨hl, -, -⟩ := (merged_indexed h.indexed req).takeUnapplied_eq hb
    obtain ⟨htake, -⟩ :=
      foldl_appendEntry_take req.entries h.indexed h.commit_le_length (hc ht hp)
    rw [hl, merged_entries, ← htake]
    exact take_prefix _ _
  | committed k hlow hhigh hb =>
    have hidx := h.indexed.setCommitIndex k
    obtain ⟨hl, -, -⟩ := hidx.takeUnapplied_eq hb
    rw [hl, setCommitIndex_entries]
    exact take_prefix _ _

/-- One returning call keeps the invariant and everything committed. -/
theorem LocalLog.step {ov : Overflow} (h : n.LocalLog) (hret : n.returns ov call)
    (hc : n.SparesCommitted call) : Advances n (n.exec ov call).1 (applied (n.exec ov call).2) := by
  rcases exec_cases ov h.indexed call with ⟨-, htr⟩ | ⟨hno, -, -⟩
  · have hstep := htr.logStep h.indexed
    exact h.advances hstep (hstep.kept h hc)
  · exact absurd hret hno

/-! ## Whole runs -/

/-- The node after a call. -/
def next (ov : Overflow) (n : RaftNode) (call : Call) : RaftNode := (n.exec ov call).1

/-- Every call returns, and no accepted request conflicts with what is committed. -/
def Benign (ov : Overflow) (n : RaftNode) (call : Call) : Prop :=
  n.returns ov call ∧ n.SparesCommitted call
deriving Decidable

theorem LocalLog.run {ov : Overflow} (h : n.LocalLog) {calls : List Call}
    (hrun : Throughout (next ov) (Benign ov) n calls) :
    (run (next ov) n calls).LocalLog ∧ KeepsCommitted n.log (run (next ov) n calls).log := by
  refine Throughout.invariant (f := next ov) (C := Benign ov)
    (I := fun m => m.LocalLog ∧ KeepsCommitted n.log m.log) ⟨h, .refl _⟩ ?_ hrun
  rintro m call ⟨hm, hkeep⟩ ⟨hret, hspare⟩
  have hstep := hm.step hret hspare
  exact ⟨hstep.localLog, hkeep.trans hstep.keeps⟩

/-- **The local log invariant over every run from `RaftNode::new`** whose accepted requests never
conflict at or below the commit index: it holds at the end, the commit index never dropped, and
every entry committed is still there. -/
theorem localLog_of_spared (ov : Overflow) (id : Nat) (peers : List Nat) (timeout : Nat)
    (calls later : List Call)
    (hrun : Throughout (next ov) (Benign ov) (new id peers timeout) (calls ++ later)) :
    let before := run (next ov) (new id peers timeout) calls
    let after := run (next ov) (new id peers timeout) (calls ++ later)
    after.LocalLog ∧ before.log.commitIndex ≤ after.log.commitIndex ∧
      after.log.entries.take before.log.commitIndex
        = before.log.entries.take before.log.commitIndex := by
  obtain ⟨hfirst, hrest⟩ := throughout_append.1 hrun
  have hnew : (new id peers timeout).LocalLog :=
    ⟨indexed_new, le_rfl, le_rfl⟩
  obtain ⟨hbefore, -⟩ := hnew.run hfirst
  obtain ⟨hafter, hkeep⟩ := hbefore.run hrest
  rw [← run_append] at hafter hkeep
  exact ⟨hafter, hkeep.commit_le, hkeep.take_eq⟩

/-- A request of leader 9 in `term`, from the start of the log. -/
def appendFrom9 (term : Nat) (entries : List LogEntry) (leaderCommit : Nat) : Call :=
  .step 9 (.appendReq ⟨term, 9, 0, 0, entries, leaderCommit⟩)

/-- Two of three entries are committed, then the third gives way to a later term's. -/
theorem uncommitted_tail_replaced :
    let n := run (next .checked) (new 1 [2, 3] 5)
      ([appendFrom9 1 [⟨1, 1, .noop⟩, ⟨1, 2, .noop⟩, ⟨1, 3, .noop⟩] 2] ++
        [appendFrom9 2 [⟨1, 1, .noop⟩, ⟨1, 2, .noop⟩, ⟨2, 3, .noop⟩] 3])
    n.LocalLog ∧ n.log.commitIndex = 3 := by
  refine ⟨(localLog_of_spared .checked 1 [2, 3] 5 _ _ ?_).1, ?_⟩
  · decide +kernel
  · decide +kernel

/-- Three committed entries, then a request of a later term that replaces the first, and one that
names a higher commit index. -/
def cuttingLife : List Call :=
  [appendFrom9 1 [⟨1, 1, .noop⟩, ⟨1, 2, .noop⟩, ⟨1, 3, .noop⟩] 3,
   appendFrom9 2 [⟨2, 1, .noop⟩] 0,
   appendFrom9 2 [⟨2, 1, .noop⟩] 5]

/-- The second request replaces a committed entry and leaves the commit index at 3 over one entry;
the third takes it down to 1, below `last_applied`. -/
theorem committed_entries_cut :
    let n₀ := new 1 [2, 3] 5
    let n₁ := run (next .checked) n₀ (cuttingLife.take 1)
    let n₂ := run (next .checked) n₀ (cuttingLife.take 2)
    let n₃ := run (next .checked) n₀ cuttingLife
    Throughout (next .checked) (fun n call => n.returns .checked call) n₀ cuttingLife ∧
      (n₁.log.commitIndex = 3 ∧ n₁.log.get 1 = some ⟨1, 1, .noop⟩) ∧
      (n₂.log.commitIndex = 3 ∧ n₂.log.lastIndex = 1 ∧ n₂.log.get 1 = some ⟨2, 1, .noop⟩) ∧
      (n₃.log.commitIndex = 1 ∧ n₃.log.lastApplied = 3) := by
  decide +kernel

end RaftNode

end Haltchain.Consensus

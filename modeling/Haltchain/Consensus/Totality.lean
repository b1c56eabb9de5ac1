import Haltchain.Consensus.Replication

/-! # Which messages bring a node down

`step` is called with whatever the transport hands it. Votes never panic; an acknowledgement and an
accepted request may. -/

namespace Haltchain.Consensus

open Lib

theorem Overflow.add_eq_none {ov : Overflow} {a b : Nat} :
    ov.add a b = none ↔ ov = .checked ∧ 2 ^ 64 ≤ a + b := by
  unfold Overflow.add
  split
  · next h => simp only [reduceCtorEq, false_iff]; omega
  · cases ov with
    | checked => simp only [true_and, true_iff]; omega
    | wrapping => simp

namespace RaftNode

variable {ov : Overflow} {n : RaftNode} {sender : Nat}

/-! ## When each handler panics -/

theorem handleVoteResp_isSome (h : n.log.Indexed) (resp : RequestVoteResp) :
    (n.handleVoteResp resp).2.isSome := by
  have hlead : (n.countVote resp.fromId).becomeLeader.2.isSome := by
    rw [becomeLeader_eq (n := n.countVote resp.fromId) h]
    rfl
  unfold handleVoteResp
  split
  · rfl
  split
  · rfl
  split
  · dsimp only
    split
    · exact hlead
    · rfl
  · rfl

theorem handleAppendReq_eq_none (req : AppendEntriesReq) : (n.handleAppendReq req).2 = none ↔
      n.currentTerm ≤ req.term ∧ n.prevOk req ∧ (n.merged req).takeUnapplied = none := by
  rw [handleAppendReq_eq]
  split_ifs with hlt hp
  · simp only [false_iff]
    omega
  · rw [appendNewEntries_eq]
    cases hb : (n.merged req).takeUnapplied with
    | none => simp only [hp, and_true, true_iff]; omega
    | some lb => simp
  · simp [hp]

/-- Only an index committed before can lie past the end: a newer one is clamped. -/
theorem merged_takeUnapplied_eq_none (h : n.log.Indexed) (req : AppendEntriesReq) :
    (n.merged req).takeUnapplied = none ↔
      n.log.lastApplied < n.log.commitIndex ∧ req.leaderCommit ≤ n.log.commitIndex ∧
        (req.entries.foldl appendEntry n.log).entries.length < n.log.commitIndex := by
  rw [DecisionLog.takeUnapplied_eq_none, merged_commitIndex h, merged_lastApplied, merged_entries]
  split <;> omega

theorem handleAppendResp_eq_none (h : n.log.Indexed) (resp : AppendEntriesResp) :
    (n.handleAppendResp ov sender resp).2 = none ↔
      resp.term ≤ n.currentTerm ∧ n.role = .leader ∧
        (n.peerState.lookup sender = none ∨ ov.add resp.matchIndex 1 = none) := by
  unfold handleAppendResp
  split
  · simp only [reduceCtorEq, false_iff]
    omega
  next hgt =>
  rw [and_iff_right (not_lt.1 hgt)]
  split
  · next hr => simp [hr]
  next hr =>
  rw [and_iff_right (not_not.1 hr)]
  cases n.peerState.lookup sender with
  | none => simp
  | some ps =>
    dsimp only
    split
    · cases ov.add resp.matchIndex 1 with
      | none => simp
      | some next =>
        show (n.acked sender ⟨next, resp.matchIndex⟩).tryAdvanceCommitIndex.2 = none ↔ _
        rcases tryAdvanceCommitIndex_cases (n := n.acked sender ⟨next, resp.matchIndex⟩) h
          with ⟨-, heq⟩ | ⟨k, log, batch, -, -, heq⟩ <;> simp [heq]
    · -- a roll-back to zero counts down from the index known, without an addition
      have hzero : ¬ 0 < resp.matchIndex → ov.add resp.matchIndex 1 ≠ none := by
        intro h0 hadd
        have := (Overflow.add_eq_none.1 hadd).2
        omega
      cases hn : (if 0 < resp.matchIndex then ov.add resp.matchIndex 1
          else some (max (ps.nextIndex - 1) 1)) with
      | none =>
        split at hn
        · simp [hn]
        · cases hn
      | some next =>
        have hadd : ov.add resp.matchIndex 1 ≠ none := by
          split at hn
          · simp [hn]
          · next h0 => exact hzero h0
        show (n.acked sender { ps with nextIndex := next }).sendAppend sender = none ↔ _
        rw [sendAppend_eq (n := n.acked sender { ps with nextIndex := next }) h]
        simp [hadd]

/-- The message makes `step` panic. -/
def Panics (ov : Overflow) (n : RaftNode) (sender : Nat) : RaftMessage → Prop
  | .voteReq _ | .voteResp _ => False
  | .appendReq req =>
    n.currentTerm ≤ req.term ∧ n.prevOk req ∧ n.log.lastApplied < n.log.commitIndex ∧
      req.leaderCommit ≤ n.log.commitIndex ∧
      (req.entries.foldl appendEntry n.log).entries.length < n.log.commitIndex
  | .appendResp resp =>
    resp.term ≤ n.currentTerm ∧ n.role = .leader ∧
      (sender ∉ n.peers ∨ (ov = .checked ∧ 2 ^ 64 ≤ resp.matchIndex + 1))

instance (ov : Overflow) (n : RaftNode) (sender : Nat) (msg : RaftMessage) :
    Decidable (n.Panics ov sender msg) := by
  unfold Panics
  split <;> infer_instance

/-! ## What holds of a node between two calls -/

/-- Entries numbered from one, in memory and in the file. -/
structure Numbered (n : RaftNode) : Prop where
  indexed : n.log.Indexed
  file : ∀ s, n.file = some s → IndexedEntries s.log.entries

theorem Numbered.persistState (h : n.Numbered) : n.persistState.Numbered where
  indexed := by rw [persistState_log]; exact h.indexed
  file := by
    intro s hs
    unfold RaftNode.persistState at hs
    split at hs
    · exact h.file s hs
    · cases hs
      exact h.indexed

theorem numbered_withPersistence (id : Nat) (peers : List Nat) (timeout : Nat) (path : String)
    {file : Option PersistedRaftState} (hfile : ∀ s, file = some s → IndexedEntries s.log.entries) :
    (withPersistence id peers timeout path file).Numbered := by
  cases file with
  | none => exact ⟨DecisionLog.indexed_new, fun s hs => hfile s hs⟩
  | some s => exact ⟨hfile s rfl, fun s' hs => hfile s' hs⟩

theorem kept_numbered : Kept Numbered where
  indexed h := h.indexed
  congr h _ hfile _ _ hlog := ⟨by rw [hlog]; exact h.indexed, by rw [hfile]; exact h.file⟩
  write h _ hfile hidx := Numbered.persistState ⟨hidx, by rw [hfile]; exact h.file⟩
  take h _ hfile hidx hb := by
    obtain ⟨rfl, -, -⟩ := hidx.takeUnapplied_eq hb
    exact ⟨hidx, (Numbered.persistState ⟨hidx, by rw [hfile]; exact h.file⟩).file⟩
  restart h timeout := by
    unfold restart
    split
    · exact numbered_withPersistence _ _ _ _ h.file
    · exact ⟨DecisionLog.indexed_new, fun s hs => by cases hs⟩

/-- Numbered, with a map over the peers only, full while the node leads. -/
structure Wired (n : RaftNode) : Prop extends n.Numbered where
  peer : ∀ p, n.peerState.lookup p ≠ none → p ∈ n.peers
  tracked : n.role = .leader → ∀ p ∈ n.peers, n.peerState.lookup p ≠ none

theorem Wired.lookup_eq_none (h : n.Wired) (hr : n.role = .leader) (p : Nat) :
    n.peerState.lookup p = none ↔ p ∉ n.peers :=
  ⟨fun hn hp => h.tracked hr p hp hn, fun hp => by_contra fun hn => hp (h.peer p hn)⟩

/-- **A message panics the node exactly when it is one of the listed ones.** -/
theorem Wired.step_eq_none (h : n.Wired) (msg : RaftMessage) :
    (n.step ov sender msg).2 = none ↔ n.Panics ov sender msg := by
  cases msg with
  | voteReq req => simp [step, Panics]
  | voteResp resp =>
    have hsome := handleVoteResp_isSome h.indexed resp
    simp only [Panics, iff_false]
    exact Option.isSome_iff_ne_none.1 hsome
  | appendReq req =>
    simp only [step, Panics]
    rw [handleAppendReq_eq_none, merged_takeUnapplied_eq_none h.indexed]
  | appendResp resp =>
    simp only [step]
    rw [handleAppendResp_eq_none h.indexed, Overflow.add_eq_none]
    refine and_congr_right fun _ => and_congr_right fun hr => ?_
    rw [h.lookup_eq_none hr]

/-! ## Every call keeps it -/

theorem Wired.exec (ov : Overflow) (h : n.Wired) (call : Call) : (n.exec ov call).1.Wired := by
  have hpeers : (n.exec ov call).1.peers = n.peers := by
    rcases exec_cases ov h.indexed call with ⟨-, ht⟩ | ⟨-, hc, -⟩
    · exact ht.identity.2
    · exact hc.identity.2
  refine ⟨kept_numbered.exec h.toNumbered ov call, ?_, ?_⟩
  · rw [hpeers]
    cases exec_peersStep ov h.indexed call with
    | same _ _ hp | campaign _ _ hp => rw [hp]; exact h.peer
    | dropped _ hp => rw [hp]; intro p hsome; exact absurd rfl hsome
    | won _ _ hp =>
      intro p hsome
      rw [hp] at hsome
      by_contra hmem
      rw [if_neg hmem] at hsome
      exact hmem (h.peer p fun hnone => hsome (by rw [hnone]; rfl))
    | acked s _ _ _ _ _ _ ps hps _ _ _ hp | nacked s _ _ _ _ _ ps hps _ _ hp =>
      rw [hp]
      exact fun p hsome => h.peer p ((lookup_replace_ne_none hps).1 hsome)
  · rw [hpeers]
    intro hr p hmem
    cases exec_peersStep ov h.indexed call with
    | same hr' _ hp => rw [hp]; exact h.tracked (hr' ▸ hr) p hmem
    | dropped hr' | campaign _ hr' => rw [hr'] at hr; cases hr
    | won _ _ hp => rw [hp, if_pos hmem]; simp
    | acked s _ _ _ hl _ _ ps hps _ _ _ hp | nacked s _ _ hl _ _ ps hps _ _ hp =>
      rw [hp]
      exact (lookup_replace_ne_none hps).2 (h.tracked hl p hmem)

/-! ## Whole lives -/

/-- A node as started: without a file, or over a numbered one. -/
inductive Starts : RaftNode → Prop
  | new (id : Nat) (peers : List Nat) (timeout : Nat) : Starts (new id peers timeout)
  | restored (id : Nat) (peers : List Nat) (timeout : Nat) (path : String)
      (file : Option PersistedRaftState)
      (hfile : ∀ s, file = some s → IndexedEntries s.log.entries) :
      Starts (withPersistence id peers timeout path file)

theorem Starts.wired : Starts n → n.Wired
  | .new _ _ _ =>
    ⟨⟨DecisionLog.indexed_new, fun _ hs => by cases hs⟩, fun _ hp => absurd rfl hp,
      fun hr => by cases hr⟩
  | .restored id peers timeout path file hfile => by
    refine ⟨numbered_withPersistence id peers timeout path hfile, ?_, ?_⟩
    · intro p hp
      cases file <;> exact absurd rfl hp
    · intro hr
      cases file <;> cases hr

theorem Wired.run (h : n.Wired) (calls : List Call) :
    (run (fun n call => (RaftNode.exec ov n call).1) n calls).Wired := by
  induction calls generalizing n with
  | nil => exact h
  | cons call rest ih => exact ih (h.exec ov call)

/-- **When `step` returns.** In every state a node can be brought to, exactly the messages of
`Panics` make it panic. -/
theorem step_returns_iff (ov : Overflow) (hstart : Starts n) (calls : List Call) (sender : Nat)
    (msg : RaftMessage) :
    let m := run (fun n call => (exec ov n call).1) n calls
    (m.step ov sender msg).2.isSome ↔ ¬ m.Panics ov sender msg := by
  intro m
  have hwired : m.Wired := hstart.wired.run calls
  rw [← hwired.step_eq_none, Option.isSome_iff_ne_none]

/-- The leader of term 1 takes an acknowledgement of its peer. -/
theorem peer_acknowledgement_returns :
    let m := run (fun n call => (exec .checked n call).1) (new 1 [2, 3] 1)
      [.tick, .step 2 (.voteResp ⟨1, 2, true⟩)]
    m.role = .leader ∧ (m.step .checked 3 (.appendResp ⟨1, 3, true, 1⟩)).2.isSome :=
  ⟨by decide, (step_returns_iff .checked (.new 1 [2, 3] 1)
    [.tick, .step 2 (.voteResp ⟨1, 2, true⟩)] 3 (.appendResp ⟨1, 3, true, 1⟩)).2 (by decide)⟩

/-- Three panics. The leader hears from node 4, which is not its peer; its peer claims to match up
to the last index there is; and a node restarted before it applied its two committed entries takes a
request that replaces both by one. -/
theorem step_panics :
    (let m := run (fun n call => (exec .checked n call).1) (new 1 [2, 3] 1)
      [.tick, .step 2 (.voteResp ⟨1, 2, true⟩)]
    (m.step .checked 4 (.appendResp ⟨1, 4, false, 0⟩)).2 = none ∧
      (m.step .wrapping 4 (.appendResp ⟨1, 4, false, 0⟩)).2 = none ∧
      (m.step .checked 2 (.appendResp ⟨1, 2, true, 2 ^ 64 - 1⟩)).2 = none) ∧
    (let m := run (fun n call => (exec .checked n call).1)
      (withPersistence 2 [1, 3] 1 "node-2" none)
      [.step 1 (.appendReq ⟨1, 1, 0, 0, [⟨1, 1, .noop⟩, ⟨1, 2, .noop⟩], 2⟩), .restart 1]
    m.log.lastApplied = 0 ∧ m.log.commitIndex = 2 ∧
      (m.step .checked 3 (.appendReq ⟨2, 3, 0, 0, [⟨2, 1, .noop⟩], 0⟩)).2 = none) := by
  decide

end RaftNode

end Haltchain.Consensus

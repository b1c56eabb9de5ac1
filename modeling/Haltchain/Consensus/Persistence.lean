import Haltchain.Consensus.AppendLoop

/-! # Write-ahead persistence

What the file holds, compared with the memory of the node, whenever a call has returned: the same
term, vote and entries, but the commit index is written before `takeUnapplied` moves `last_applied`,
and `restoreFromSnapshot` does not write the clamped frontiers back. `WriteAhead` is the exact
relation. -/

namespace Haltchain.Consensus

open DecisionLog

open Lib

namespace RaftNode

/-- What `with_persistence` reads: the file, or else the initial state. -/
def image (n : RaftNode) : PersistedRaftState :=
  n.file.getD ⟨0, none, DecisionLog.new.snapshot⟩

/-- The file against the memory of a node between two calls. -/
structure WriteAhead (n : RaftNode) : Prop where
  path : n.persistencePath ≠ none
  term : n.image.currentTerm = n.currentTerm
  vote : n.image.votedFor = n.votedFor
  entries : n.image.log.entries = n.log.entries
  /-- Written as it is, or clamped by a restore to a log that had become shorter. -/
  commit : n.image.log.commitIndex = n.log.commitIndex ∨
    (n.log.lastIndex < n.image.log.commitIndex ∧ n.log.commitIndex = n.log.lastIndex)
  /-- Written before the last batch was taken, or clamped by a restore. -/
  applied : n.image.log.lastApplied ≤ n.log.lastApplied ∨
    (n.log.commitIndex < n.image.log.lastApplied ∧ n.log.lastApplied = n.log.commitIndex)

/-! ## How the relation comes about -/

variable {n : RaftNode}

theorem WriteAhead.congr {m : RaftNode} (h : n.WriteAhead)
    (hpath : m.persistencePath = n.persistencePath) (hfile : m.file = n.file)
    (hterm : m.currentTerm = n.currentTerm) (hvote : m.votedFor = n.votedFor)
    (hlog : m.log = n.log) : m.WriteAhead := by
  have himage : m.image = n.image := by
    unfold image
    rw [hfile]
  refine ⟨?_, ?_, ?_, ?_, ?_, ?_⟩
  · rw [hpath]; exact h.path
  · rw [himage, hterm]; exact h.term
  · rw [himage, hvote]; exact h.vote
  · rw [himage, hlog]; exact h.entries
  · rw [himage, hlog]; exact h.commit
  · rw [himage, hlog]; exact h.applied

theorem persistState_image (h : n.persistencePath ≠ none) :
    n.persistState.image = ⟨n.currentTerm, n.votedFor, n.log.snapshot⟩ := by
  unfold image
  rw [persistState_file h]
  rfl

/-- The image after a write, at most `last_applied` having moved since. -/
theorem WriteAhead.of_written {m : RaftNode} {l : DecisionLog} (hpath : m.persistencePath ≠ none)
    (himage : m.image = ⟨m.currentTerm, m.votedFor, l.snapshot⟩)
    (hentries : m.log.entries = l.entries) (hcommit : m.log.commitIndex = l.commitIndex)
    (happlied : l.lastApplied ≤ m.log.lastApplied) : m.WriteAhead := by
  refine ⟨hpath, by rw [himage], by rw [himage], ?_, .inl ?_, .inl ?_⟩
  · rw [himage]; exact hentries.symm
  · rw [himage]; exact hcommit.symm
  · rw [himage]; exact happlied

theorem writeAhead_persistState (hpath : n.persistencePath ≠ none) : n.persistState.WriteAhead := by
  refine .of_written (l := n.log) (by simpa using hpath) ?_ (by simp) (by simp) (by simp)
  rw [persistState_image hpath]
  simp

/-- Writing the file and then taking the unapplied batch. -/
theorem writeAhead_takeUnapplied (hpath : n.persistencePath ≠ none) (hidx : n.log.Indexed)
    {log : DecisionLog} {batch : List LogEntry} (ht : n.log.takeUnapplied = some (log, batch)) :
    WriteAhead { n.persistState with log := log } := by
  obtain ⟨rfl, -, -⟩ := hidx.takeUnapplied_eq ht
  refine .of_written (l := n.log) (by simpa using hpath) ?_ rfl rfl (le_max_left _ _)
  show n.persistState.image = _
  rw [persistState_image hpath]
  simp

/-! ## Restarting over the file -/

section

variable {n : RaftNode} (h : n.persistencePath ≠ none) (timeout : Nat)
include h

theorem restart_eq :
    ∃ path, n.persistencePath = some path ∧
    n.restart timeout =
      { new n.id n.peers timeout with
        persistencePath := some path
        file := n.file
        currentTerm := n.image.currentTerm
        votedFor := n.image.votedFor
        log := restoreFromSnapshot n.image.log } := by
  cases hpath : n.persistencePath with
  | none => exact absurd hpath h
  | some path =>
    refine ⟨path, rfl, ?_⟩
    unfold restart image
    rw [hpath]
    cases n.file <;> rfl

theorem restart_currentTerm : (n.restart timeout).currentTerm = n.image.currentTerm := by
  obtain ⟨path, -, heq⟩ := restart_eq h timeout
  rw [heq]

theorem restart_votedFor : (n.restart timeout).votedFor = n.image.votedFor := by
  obtain ⟨path, -, heq⟩ := restart_eq h timeout
  rw [heq]

theorem restart_log : (n.restart timeout).log = restoreFromSnapshot n.image.log := by
  obtain ⟨path, -, heq⟩ := restart_eq h timeout
  rw [heq]

theorem restart_entries : (n.restart timeout).log.entries = n.image.log.entries := by
  rw [restart_log h]
  rfl

theorem restart_persistencePath : (n.restart timeout).persistencePath ≠ none := by
  obtain ⟨path, -, heq⟩ := restart_eq h timeout
  rw [heq]
  simp

theorem restart_image : (n.restart timeout).image = n.image := by
  obtain ⟨path, -, heq⟩ := restart_eq h timeout
  rw [heq]
  rfl

end

section

variable (n : RaftNode) (timeout : Nat)

@[simp] theorem restart_id : (n.restart timeout).id = n.id := by
  unfold restart withPersistence restoreState new
  split
  · split <;> rfl
  · rfl

@[simp] theorem restart_peers : (n.restart timeout).peers = n.peers := by
  unfold restart withPersistence restoreState new
  split
  · split <;> rfl
  · rfl

@[simp] theorem restart_role : (n.restart timeout).role = .follower := by
  unfold restart withPersistence restoreState new
  split
  · split <;> rfl
  · rfl

@[simp] theorem restart_peerState : (n.restart timeout).peerState = ∅ := by
  unfold restart withPersistence restoreState new
  split
  · split <;> rfl
  · rfl

end

/-- A restart over a numbered log is related to the file it read. -/
theorem writeAhead_restart (h : n.persistencePath ≠ none)
    (hidx : IndexedEntries n.image.log.entries) (timeout : Nat) :
    (n.restart timeout).WriteAhead := by
  have hlog := restart_log h timeout
  have hindexed : (n.restart timeout).log.Indexed := by
    unfold Indexed
    rw [restart_entries h]
    exact hidx
  have hcommit : (n.restart timeout).log.commitIndex
      = min n.image.log.commitIndex n.image.log.entries.length := by
    rw [hlog, restoreFromSnapshot_commitIndex _ hidx]
  have happlied : (n.restart timeout).log.lastApplied
      = min n.image.log.lastApplied (n.restart timeout).log.commitIndex := by
    rw [hlog, restoreFromSnapshot_lastApplied]
  have hlast : (n.restart timeout).log.lastIndex = n.image.log.entries.length := by
    rw [hindexed.lastIndex_eq, restart_entries h]
  refine ⟨restart_persistencePath h timeout, ?_, ?_, ?_, ?_, ?_⟩
  · rw [restart_image h, restart_currentTerm h]
  · rw [restart_image h, restart_votedFor h]
  · rw [restart_image h, restart_entries h]
  · rw [restart_image h, hlast]
    omega
  · rw [restart_image h]
    omega

/-! ## Every call keeps it -/

/-- A property kept while nothing written to the file changes, by writing a numbered log, its batch
taken or not, and by a restart. -/
structure Kept (P : RaftNode → Prop) : Prop where
  indexed {n : RaftNode} : P n → n.log.Indexed
  congr {n m : RaftNode} : P n → m.persistencePath = n.persistencePath → m.file = n.file →
    m.currentTerm = n.currentTerm → m.votedFor = n.votedFor → m.log = n.log → P m
  write {n m : RaftNode} : P n → m.persistencePath = n.persistencePath → m.file = n.file →
    m.log.Indexed → P m.persistState
  take {n m : RaftNode} {log : DecisionLog} {batch : List LogEntry} : P n →
    m.persistencePath = n.persistencePath → m.file = n.file → m.log.Indexed →
    m.log.takeUnapplied = some (log, batch) → P { m.persistState with log := log }
  restart {n : RaftNode} : P n → ∀ timeout, P (n.restart timeout)

namespace Kept

variable {P : RaftNode → Prop} (k : Kept P) (h : P n)

include k h

theorem lead : P n.lead := by
  refine k.congr (k.write (m := { n with
    role := .leader
    peerState := n.peers.foldl
      (fun m p => AList.insert p (⟨n.log.lastIndex + 1, 0⟩ : PeerState) m) n.peerState
    log := (n.log.append n.currentTerm .noop).1 }) h rfl rfl ((k.indexed h).append _ _))
    ?_ rfl ?_ ?_ ?_
  all_goals simp

theorem follow (term : Nat) : P (n.follow term) :=
  k.write h rfl rfl (k.indexed (n := n) h)

theorem campaign (term : Nat) : P (n.campaign term) :=
  k.write h rfl rfl (k.indexed (n := n) h)

theorem grant (req : RequestVoteReq) : P (n.grant req) :=
  k.write h rfl rfl (k.indexed (n := n) h)

theorem accept (req : AppendEntriesReq) : P (n.accept req) :=
  k.write (k.follow h req.term) rfl rfl (merged_indexed (k.indexed h) req)

theorem transition {ov : Overflow} {call : Call} {n' : RaftNode} {obs : List Observation}
    (ht : Transition ov n call n' obs) : P n' := by
  cases ht with
  | campaign => exact k.campaign h _
  | campaignWon => exact k.lead (k.campaign h _)
  | proposed c => exact k.write h rfl rfl ((k.indexed h).append _ _)
  | voteDeniedNewer s req | appendMismatch s req => exact k.follow h req.term
  | voteGranted s req => exact k.grant h req
  | voteGrantedNewer s req => exact k.grant (k.follow h req.term) req
  | voteRespNewer s resp | ackNewer s resp => exact k.follow h resp.term
  | voteWon => exact k.lead (k.congr h rfl rfl rfl rfl rfl)
  | appendAccepted s req ht hp hb =>
    exact k.take (m := { n.follow req.term with log := n.merged req }) (k.follow h req.term) rfl rfl
      (merged_indexed (k.indexed h) req) hb
  | @ackCommitted s resp _ _ _ _ _ next _ i _ _ _ hb =>
    exact k.take (m := { n.acked s ⟨next, resp.matchIndex⟩ with log := n.log.setCommitIndex i })
      h rfl rfl ((k.indexed h).setCommitIndex i) hb
  | _ => exact k.congr h rfl rfl rfl rfl rfl

theorem exec (ov : Overflow) (call : Call) : P (n.exec ov call).1 := by
  rcases exec_cases ov (k.indexed h) call with ⟨-, ht⟩ | ⟨-, hc, -⟩
  · exact k.transition h ht
  · generalize (n.exec ov call).1 = n' at hc
    cases hc with
    | restarted => exact k.restart h _
    | appendCrashed s req => exact k.restart (k.accept h req) _

end Kept

/-- A node between two calls: its file is up to date and its log is numbered. -/
structure Sound (n : RaftNode) : Prop extends n.WriteAhead where
  indexed : n.log.Indexed

section

variable (h : n.Sound)

include h

theorem Sound.restart (timeout : Nat) : (n.restart timeout).Sound := by
  have hidx : IndexedEntries n.image.log.entries := by
    rw [h.entries]
    exact h.indexed
  refine ⟨writeAhead_restart h.path hidx timeout, ?_⟩
  unfold Indexed
  rw [restart_entries h.path]
  exact hidx

/-- What a restart brings back is what the node held when it went down. -/
theorem Sound.restart_currentTerm (timeout : Nat) :
    (n.restart timeout).currentTerm = n.currentTerm := by
  rw [RaftNode.restart_currentTerm h.path, h.term]

theorem Sound.restart_votedFor (timeout : Nat) : (n.restart timeout).votedFor = n.votedFor := by
  rw [RaftNode.restart_votedFor h.path, h.vote]

theorem Sound.restart_entries (timeout : Nat) :
    (n.restart timeout).log.entries = n.log.entries := by
  rw [RaftNode.restart_entries h.path, h.entries]

/-- The commit index comes back too, cut at the end of the log. -/
theorem Sound.restart_commitIndex_min (timeout : Nat) :
    (n.restart timeout).log.commitIndex = min n.log.commitIndex n.log.entries.length := by
  have hidx : IndexedEntries n.image.log.entries := by
    rw [h.entries]
    exact h.indexed
  have hlast := h.indexed.lastIndex_eq
  rw [restart_log h.path, restoreFromSnapshot_commitIndex _ hidx, h.entries]
  rcases h.commit with heq | ⟨hlt, heq⟩ <;> omega

theorem Sound.restart_commitIndex (hle : n.log.commitIndex ≤ n.log.entries.length) (timeout : Nat) :
    (n.restart timeout).log.commitIndex = n.log.commitIndex := by
  rw [h.restart_commitIndex_min, min_eq_left hle]

/-- The apply index comes back as it was last written. -/
theorem Sound.restart_lastApplied (timeout : Nat) : (n.restart timeout).log.lastApplied
      = min n.image.log.lastApplied (n.restart timeout).log.commitIndex := by
  rw [restart_log h.path, restoreFromSnapshot_lastApplied]

end

theorem kept_sound : Kept Sound where
  indexed h := h.indexed
  congr h hpath hfile hterm hvote hlog :=
    ⟨h.toWriteAhead.congr hpath hfile hterm hvote hlog, by rw [hlog]; exact h.indexed⟩
  write h hpath _ hidx :=
    ⟨writeAhead_persistState (hpath ▸ h.path), by rw [persistState_log]; exact hidx⟩
  take h hpath _ hidx ht := by
    refine ⟨writeAhead_takeUnapplied (hpath ▸ h.path) hidx ht, ?_⟩
    obtain ⟨rfl, -, -⟩ := hidx.takeUnapplied_eq ht
    exact hidx
  restart h := h.restart

theorem Sound.accept (h : n.Sound) (req : AppendEntriesReq) : (n.accept req).Sound :=
  kept_sound.accept h req

variable {call : Call}

theorem Transition.identity {ov : Overflow} {n' : RaftNode} {obs : List Observation}
    (ht : Transition ov n call n' obs) : n'.id = n.id ∧ n'.peers = n.peers := by
  cases ht <;> simp [countVote, acked]

theorem Crash.identity {n' : RaftNode} (hc : Crash n call n') :
    n'.id = n.id ∧ n'.peers = n.peers := by
  cases hc <;> simp

theorem exec_identity (ov : Overflow) (h : n.Sound) (call : Call) :
    (n.exec ov call).1.id = n.id ∧ (n.exec ov call).1.peers = n.peers := by
  rcases exec_cases ov h.indexed call with ⟨-, ht⟩ | ⟨-, hc, -⟩
  · exact ht.identity
  · exact hc.identity

theorem sound_withPersistence (id : Nat) (peers : List Nat) (timeout : Nat) (path : String) :
    (withPersistence id peers timeout path none).Sound :=
  Sound.restart (n := { new id peers timeout with persistencePath := some path })
    ⟨⟨by simp, rfl, rfl, rfl, .inl rfl, .inl le_rfl⟩, DecisionLog.indexed_new⟩ timeout

end RaftNode

/-! ## Whole lives -/

/-- The state of node `id` after a life of `calls`, panics and restarts included. -/
theorem History.run_sound (ov : Overflow) (id : Nat) (peers : List Nat) (timeout : Nat)
    (path : String) (calls : List Call) :
    (run (History.exec ov) (History.boot id peers timeout path) calls).node.Sound :=
  run_invariant (f := History.exec ov) (I := fun h => h.node.Sound)
    (RaftNode.sound_withPersistence id peers timeout path)
    (fun _ call h => RaftNode.kept_sound.exec h ov call) calls

/-- **After every call the file has the node's term, vote and entries**, its commit index unless a
restore had to clamp it, and an apply index that is not ahead unless a restore had to clamp it. So a
crash then forgets no term, vote or entry. -/
theorem file_written_after_every_call (ov : Overflow) (id : Nat) (peers : List Nat) (timeout : Nat)
    (path : String) (calls : List Call) :
    let n := (run (History.exec ov) (History.boot id peers timeout path) calls).node
    n.WriteAhead ∧ ∀ timeout',
      (n.restart timeout').currentTerm = n.currentTerm ∧
      (n.restart timeout').votedFor = n.votedFor ∧
      (n.restart timeout').log.entries = n.log.entries := by
  have hsound := History.run_sound ov id peers timeout path calls
  refine ⟨hsound.toWriteAhead, fun timeout' => ⟨?_, ?_, ?_⟩⟩
  · exact hsound.restart_currentTerm timeout'
  · exact hsound.restart_votedFor timeout'
  · exact hsound.restart_entries timeout'

/-- Three committed entries of term 1 give way to one of term 2; then a restart. -/
def shrunkLife : List Call :=
  [.step 9 (.appendReq ⟨1, 9, 0, 0, [⟨1, 1, .noop⟩, ⟨1, 2, .noop⟩, ⟨1, 3, .noop⟩], 3⟩),
   .step 9 (.appendReq ⟨2, 9, 0, 0, [⟨2, 1, .noop⟩], 0⟩),
   .restart 5]

/-- The restore clamps both frontiers to the one entry left; the tick does not write them. -/
theorem clamped_frontiers_not_written :
    let n := (run (History.exec .checked) (History.boot 1 [2, 3] 5 "node-1.json") shrunkLife).node
    let n' := (n.exec .checked .tick).1
    n.returns .checked .tick ∧
      n'.image.log.commitIndex = 3 ∧ n'.log.commitIndex = 1 ∧
      n'.image.log.lastApplied = 3 ∧ n'.log.lastApplied = 1 := by
  decide +kernel

end Haltchain.Consensus

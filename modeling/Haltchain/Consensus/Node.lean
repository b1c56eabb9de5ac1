import Haltchain.Lib.Assoc
import Haltchain.Lib.Run
import Haltchain.Consensus.Raft

/-! # Driving one node

`crates/consensus/src/node.rs`: the task that owns a `RaftNode`, ticks it, feeds it messages and
dispatches what it emits. After a call that panics `exec` continues with the process started over
the file, as a `restart` does.

The trace has the actions, in order, and the "started election" line logged when the node votes for
itself. -/

namespace Haltchain.Consensus

open List

/-- A call on a node. -/
inductive Call where
  | tick
  | propose (command : DecisionCommand)
  | step (sender : Nat) (msg : RaftMessage)
  /-- The process is killed between two calls and started again. -/
  | restart (electionTimeout : Nat)
deriving DecidableEq

/-- What is seen of a node. -/
inductive Observation where
  | action (a : RaftAction)
  | electionStarted (term : Nat)
deriving DecidableEq

namespace RaftNode

/-- The next tick runs out the election timeout of a node that does not lead. -/
def electionDue (n : RaftNode) : Prop :=
  n.role ≠ .leader ∧ n.electionTimeout ≤ n.electionElapsed + 1
deriving Decidable

/-- The call returns to its caller instead of panicking. -/
def returns (ov : Overflow) (n : RaftNode) : Call → Prop
  | .tick => (n.tick ov).2.isSome
  | .propose command => (n.propose command).2.isSome
  | .step sender msg => (n.step ov sender msg).2.isSome
  | .restart _ => False

instance (ov : Overflow) (n : RaftNode) : (call : Call) → Decidable (n.returns ov call)
  | .tick | .propose _ | .step _ _ => inferInstanceAs (Decidable (_ = true))
  | .restart _ => inferInstanceAs (Decidable False)

/-- One call on the node, with what is seen of it. -/
def exec (ov : Overflow) (n : RaftNode) : Call → RaftNode × List Observation
  | .tick =>
    match n.tick ov with
    | (n', some actions) =>
      (n', (if n.electionDue then [.electionStarted n'.currentTerm] else []) ++ actions.map .action)
    | (n', none) => (n'.restart n'.electionTimeout, [])
  | .propose command =>
    match n.propose command with
    | (n', some (some (_, actions))) => (n', actions.map .action)
    | (n', some none) => (n', [])
    | (n', none) => (n'.restart n'.electionTimeout, [])
  | .step sender msg =>
    match n.step ov sender msg with
    | (n', some actions) => (n', actions.map .action)
    | (n', none) => (n'.restart n'.electionTimeout, [])
  | .restart electionTimeout => (n.restart electionTimeout, [])

end RaftNode

/-! ## Histories of a node -/

/-- A node with everything seen of it so far. -/
structure History where
  node : RaftNode
  trace : List Observation

def History.exec (ov : Overflow) (h : History) (call : Call) : History :=
  ⟨(h.node.exec ov call).1, h.trace ++ (h.node.exec ov call).2⟩

/-- The node `id` started for the first time, over no file. -/
def History.boot (id : Nat) (peers : List Nat) (electionTimeout : Nat) (path : String) : History :=
  ⟨RaftNode.withPersistence id peers electionTimeout path none, []⟩

/-! ## Field lemmas -/

namespace RaftNode

variable {n : RaftNode}

section

variable (n : RaftNode)

@[simp] theorem persistState_id : n.persistState.id = n.id := by
  unfold persistState; split <;> rfl
@[simp] theorem persistState_peers : n.persistState.peers = n.peers := by
  unfold persistState; split <;> rfl
@[simp] theorem persistState_role : n.persistState.role = n.role := by
  unfold persistState; split <;> rfl
@[simp] theorem persistState_currentTerm : n.persistState.currentTerm = n.currentTerm := by
  unfold persistState; split <;> rfl
@[simp] theorem persistState_votedFor : n.persistState.votedFor = n.votedFor := by
  unfold persistState; split <;> rfl
@[simp] theorem persistState_votesReceived : n.persistState.votesReceived = n.votesReceived := by
  unfold persistState; split <;> rfl
@[simp] theorem persistState_log : n.persistState.log = n.log := by
  unfold persistState; split <;> rfl
@[simp] theorem persistState_peerState : n.persistState.peerState = n.peerState := by
  unfold persistState; split <;> rfl
@[simp] theorem persistState_electionTimeout :
    n.persistState.electionTimeout = n.electionTimeout := by
  unfold persistState; split <;> rfl
@[simp] theorem persistState_persistencePath :
    n.persistState.persistencePath = n.persistencePath := by
  unfold persistState; split <;> rfl

/-- With a path, the file holds the term, vote and log at the time of writing. -/
theorem persistState_file {n : RaftNode} (h : n.persistencePath ≠ none) :
    n.persistState.file = some ⟨n.currentTerm, n.votedFor, n.log.snapshot⟩ := by
  unfold persistState
  split
  · next hn => exact absurd hn h
  · rfl

end

/-! ### What a leader sends -/

/-- The request a leader with an indexed log sends to a peer tracked by `ps`. -/
def appendMsg (n : RaftNode) (ps : PeerState) : AppendEntriesReq where
  term := n.currentTerm
  leaderId := n.id
  prevLogIdx := ps.nextIndex - 1
  prevLogTerm := ((n.log.get (ps.nextIndex - 1)).map (·.term)).getD 0
  entries := if ps.nextIndex = 0 then [] else n.log.entries.drop (ps.nextIndex - 1)
  leaderCommit := n.log.commitIndex

/-- The requests `sendAppend` emits, when it does not panic. -/
def appendActions (n : RaftNode) (dest : Nat) : List RaftAction :=
  match n.peerState.lookup dest with
  | none => []
  | some ps => [.send dest (.appendReq (n.appendMsg ps))]

theorem sendAppend_eq (h : n.log.Indexed) (dest : Nat) :
    n.sendAppend dest = some (n.appendActions dest) := by
  unfold sendAppend appendActions
  cases n.peerState.lookup dest with
  | none => rfl
  | some ps =>
    simp only [h.entriesFrom_eq]
    rfl

theorem mapM_sendAppend_eq (h : n.log.Indexed) (ps : List Nat) :
    (ps.mapM n.sendAppend).map flatten = some (ps.flatMap n.appendActions) := by
  have hm : ps.mapM n.sendAppend = some (ps.map n.appendActions) := by
    induction ps with
    | nil => rfl
    | cons p rest ih =>
      rw [mapM_cons, sendAppend_eq h, ih]
      rfl
  rw [hm, Option.map_some, flatMap_def]

/-- All requests of one heartbeat round. -/
def heartbeats (n : RaftNode) : List RaftAction := n.peers.flatMap n.appendActions

theorem broadcastHeartbeat_eq (h : n.log.Indexed) : n.broadcastHeartbeat = some n.heartbeats :=
  mapM_sendAppend_eq h n.peers

theorem mem_appendActions {dest : Nat} {a : RaftAction} : a ∈ n.appendActions dest ↔
      ∃ ps, n.peerState.lookup dest = some ps ∧ a = .send dest (.appendReq (n.appendMsg ps)) := by
  unfold appendActions
  cases n.peerState.lookup dest with
  | none => simp
  | some ps => simp

theorem mem_heartbeats {a : RaftAction} :
    a ∈ n.heartbeats ↔ ∃ p ∈ n.peers, ∃ ps, n.peerState.lookup p = some ps ∧
      a = .send p (.appendReq (n.appendMsg ps)) := by
  unfold heartbeats
  simp only [mem_flatMap, mem_appendActions]

/-! ### States a call can leave behind -/

/-- The state `startElection` moves to before it counts its own vote. -/
def campaign (n : RaftNode) (term : Nat) : RaftNode :=
  { n with
    currentTerm := term
    role := .candidate
    votedFor := some n.id
    electionElapsed := 0
    votesReceived := {n.id} }.persistState

/-- The state `becomeLeader` leaves behind. -/
def lead (n : RaftNode) : RaftNode := n.becomeLeader.1

/-- The state `becomeFollower` leaves behind. -/
def follow (n : RaftNode) (term : Nat) : RaftNode := (n.becomeFollower term).1

section

variable (n : RaftNode) (t : Nat)

@[simp] theorem campaign_id : (n.campaign t).id = n.id := by simp [campaign]
@[simp] theorem campaign_peers : (n.campaign t).peers = n.peers := by simp [campaign]
@[simp] theorem campaign_role : (n.campaign t).role = .candidate := by simp [campaign]
@[simp] theorem campaign_currentTerm : (n.campaign t).currentTerm = t := by simp [campaign]
@[simp] theorem campaign_votedFor : (n.campaign t).votedFor = some n.id := by simp [campaign]
@[simp] theorem campaign_votesReceived : (n.campaign t).votesReceived = {n.id} := by simp [campaign]
@[simp] theorem campaign_log : (n.campaign t).log = n.log := by simp [campaign]
@[simp] theorem campaign_peerState : (n.campaign t).peerState = n.peerState := by simp [campaign]
@[simp] theorem campaign_quorum : (n.campaign t).quorum = n.quorum := by simp [campaign, quorum]

@[simp] theorem lead_id : n.lead.id = n.id := by simp [lead, becomeLeader]
@[simp] theorem lead_peers : n.lead.peers = n.peers := by simp [lead, becomeLeader]
@[simp] theorem lead_role : n.lead.role = .leader := by simp [lead, becomeLeader]
@[simp] theorem lead_currentTerm : n.lead.currentTerm = n.currentTerm := by
  simp [lead, becomeLeader]
@[simp] theorem lead_votedFor : n.lead.votedFor = n.votedFor := by simp [lead, becomeLeader]
@[simp] theorem lead_log : n.lead.log = (n.log.append n.currentTerm .noop).1 := by
  simp [lead, becomeLeader]
@[simp] theorem lead_persistencePath : n.lead.persistencePath = n.persistencePath := by
  simp [lead, becomeLeader]

@[simp] theorem follow_id : (n.follow t).id = n.id := by simp [follow, becomeFollower]
@[simp] theorem follow_peers : (n.follow t).peers = n.peers := by simp [follow, becomeFollower]
@[simp] theorem follow_role : (n.follow t).role = .follower := by simp [follow, becomeFollower]
@[simp] theorem follow_currentTerm : (n.follow t).currentTerm = t := by
  simp [follow, becomeFollower]
@[simp] theorem follow_votedFor : (n.follow t).votedFor = none := by simp [follow, becomeFollower]
@[simp] theorem follow_votesReceived : (n.follow t).votesReceived = ∅ := by
  simp [follow, becomeFollower]
@[simp] theorem follow_log : (n.follow t).log = n.log := by simp [follow, becomeFollower]
@[simp] theorem follow_peerState : (n.follow t).peerState = ∅ := by simp [follow, becomeFollower]
@[simp] theorem follow_persistencePath :
    (n.follow t).persistencePath = n.persistencePath := by simp [follow, becomeFollower]

end

theorem lookup_mapValues (f : PeerState → PeerState) (m : PeerMap) (p : Nat) :
    (PeerMap.mapValues f m).lookup p = (m.lookup p).map f :=
  dlookup_map₂ (l := m.entries) (f := fun _ => f) p

/-- A new leader knows nothing of its peers, and starts each past its own no-op. -/
theorem lead_lookup (n : RaftNode) (p : Nat) : n.lead.peerState.lookup p
      = if p ∈ n.peers then some ⟨n.log.lastIndex + 2, 0⟩
        else (n.peerState.lookup p).map fun ps =>
          { ps with nextIndex := n.log.lastIndex + 2 } := by
  simp only [lead, becomeLeader, persistState_peerState, lookup_mapValues, Lib.lookup_foldl_insert]
  split <;> rfl

/-- It announces itself and sends one round of requests. -/
theorem becomeLeader_eq (h : n.log.Indexed) :
    n.becomeLeader = (n.lead, some (.becameLeader n.currentTerm :: n.lead.heartbeats)) := by
  have hi : n.lead.log.Indexed := by
    rw [lead_log]
    exact h.append n.currentTerm .noop
  refine Prod.ext rfl ?_
  show n.lead.broadcastHeartbeat.map _ = _
  rw [broadcastHeartbeat_eq hi]
  rfl

end RaftNode

end Haltchain.Consensus

import Mathlib.Algebra.Ring.Nat
import Mathlib.Data.Finset.Card
import Mathlib.Data.List.AList
import Haltchain.Consensus.Log

/-! # The Raft state machine

`crates/consensus/src/raft.rs`: election, replication and persistence of one node. A handler that
can panic returns its actions as an `Option`: `none` is the panic, and the state beside it is what
had been written.

Ids, terms and indices are `u64` in the source and `Nat` here. The additions on numbers from
messages (`current_term += 1` and `match_index + 1`) go through `Overflow.add`, which panics or
wraps as the build does. -/

namespace Haltchain.Consensus

/-! ## Machine addition -/

/-- What `+` on `u64` does past `u64::MAX`: panic with overflow checks, wrap without. -/
inductive Overflow where
  | checked
  | wrapping
deriving DecidableEq

/-- `a + b` in 64 bits, as the build does it. -/
def Overflow.add (ov : Overflow) (a b : Nat) : Option Nat :=
  if a + b < 2 ^ 64 then some (a + b)
  else match ov with
    | .checked => none
    | .wrapping => some ((a + b) % 2 ^ 64)

theorem Overflow.add_of_lt {ov : Overflow} {a b : Nat} (h : a + b < 2 ^ 64) :
    ov.add a b = some (a + b) := by
  unfold Overflow.add
  rw [if_pos h]

theorem Overflow.add_checked {a b c : Nat} (h : Overflow.checked.add a b = some c) :
    c = a + b ∧ a + b < 2 ^ 64 := by
  unfold Overflow.add at h
  split at h
  · next hlt => exact ⟨(Option.some.inj h).symm, hlt⟩
  · simp at h

/-! ## Messages and actions -/

/-- The role of a node. -/
inductive RaftRole where
  | follower
  | candidate
  | leader
deriving DecidableEq

/-- A request to append entries. -/
structure AppendEntriesReq where
  term : Nat
  leaderId : Nat
  prevLogIdx : Nat
  prevLogTerm : Nat
  entries : List LogEntry
  leaderCommit : Nat
deriving DecidableEq

/-- The answer to it. -/
structure AppendEntriesResp where
  term : Nat
  fromId : Nat
  success : Bool
  matchIndex : Nat
deriving DecidableEq

/-- A request for a vote. -/
structure RequestVoteReq where
  term : Nat
  candidateId : Nat
  lastLogIdx : Nat
  lastLogTerm : Nat
deriving DecidableEq

/-- The answer to it. -/
structure RequestVoteResp where
  term : Nat
  fromId : Nat
  voteGranted : Bool
deriving DecidableEq

/-- The messages between nodes. -/
inductive RaftMessage where
  | appendReq (req : AppendEntriesReq)
  | appendResp (resp : AppendEntriesResp)
  | voteReq (req : RequestVoteReq)
  | voteResp (resp : RequestVoteResp)
deriving DecidableEq

/-- What the caller must carry out after a call returns. -/
inductive RaftAction where
  | send (dest : Nat) (msg : RaftMessage)
  | broadcast (msg : RaftMessage)
  | apply (entries : List LogEntry)
  | becameLeader (term : Nat)
  | becameFollower (term : Nat)
deriving DecidableEq

/-! ## Per-peer tracking -/

/-- What a leader keeps of a peer. -/
structure PeerState where
  nextIndex : Nat
  matchIndex : Nat
deriving DecidableEq

/-- `HashMap<u64, PeerState>`; nothing depends on the iteration order. -/
abbrev PeerMap := AList (fun _ : Nat => PeerState)

/-- `for ps in self.peer_state.values_mut()`. -/
def PeerMap.mapValues (f : PeerState → PeerState) (m : PeerMap) : PeerMap :=
  ⟨m.entries.map (fun e => ⟨e.1, f e.2⟩), List.NodupKeys.map₂ (fun _ => f) m.entries m.nodupKeys⟩

/-- `.values().filter(|ps| ps.match_index >= n).count()`. -/
def PeerMap.replicated (m : PeerMap) (n : Nat) : Nat :=
  m.entries.countP (fun e => n ≤ e.2.matchIndex)

/-! ## The node -/

/-- The contents of the file. -/
structure PersistedRaftState where
  currentTerm : Nat
  votedFor : Option Nat
  log : DecisionLogSnapshot

/-- The state of a node. -/
structure RaftNode where
  id : Nat
  peers : List Nat
  role : RaftRole
  currentTerm : Nat
  votedFor : Option Nat
  votesReceived : Finset Nat
  log : DecisionLog
  electionElapsed : Nat
  electionTimeout : Nat
  heartbeatElapsed : Nat
  peerState : PeerMap
  persistencePath : Option String
  /-- The file at `persistencePath`; `none` until it is first written. -/
  file : Option PersistedRaftState

/-- Ticks between two heartbeats. -/
def heartbeatTicks : Nat := 1
/-- The least ticks before an election. -/
def electionTimeoutMin : Nat := 5

namespace RaftNode

/-- A follower with an empty log. -/
def new (id : Nat) (peers : List Nat) (electionTimeout : Nat) : RaftNode where
  id := id
  peers := peers
  role := .follower
  currentTerm := 0
  votedFor := none
  votesReceived := ∅
  log := DecisionLog.new
  electionElapsed := 0
  electionTimeout := electionTimeout
  heartbeatElapsed := 0
  peerState := ∅
  persistencePath := none
  file := none

/-- The node leads. -/
def isLeader (n : RaftNode) : Bool := n.role = .leader

/-- More than half of the nodes. -/
def quorum (n : RaftNode) : Nat := (n.peers.length + 1) / 2 + 1

/-! ### Persistence -/

/-- Write term, vote and log. Writes are taken to succeed and to be atomic. -/
def persistState (n : RaftNode) : RaftNode :=
  match n.persistencePath with
  | none => n
  | some _ => { n with file := some ⟨n.currentTerm, n.votedFor, n.log.snapshot⟩ }

/-- Read the file back; without a path or a file nothing changes. -/
def restoreState (n : RaftNode) : RaftNode :=
  match n.persistencePath, n.file with
  | some _, some state =>
    { n with
      currentTerm := state.currentTerm
      votedFor := state.votedFor
      log := DecisionLog.restoreFromSnapshot state.log }
  | _, _ => n

/-- A node over the file `file` found at `path`. -/
def withPersistence (id : Nat) (peers : List Nat) (electionTimeout : Nat) (path : String)
    (file : Option PersistedRaftState) : RaftNode :=
  { new id peers electionTimeout with persistencePath := some path, file := file }.restoreState

/-- The node's next process (`NodeRunner::new`), with a fresh timeout: over the same file, or from
scratch without a path. -/
def restart (n : RaftNode) (electionTimeout : Nat) : RaftNode :=
  match n.persistencePath with
  | some path => withPersistence n.id n.peers electionTimeout path n.file
  | none => new n.id n.peers electionTimeout

/-! ### Leader helpers -/

/-- A request to `dest`, from its `nextIndex` to the end of the log. -/
def sendAppend (n : RaftNode) (dest : Nat) : Option (List RaftAction) :=
  match n.peerState.lookup dest with
  | none => some []
  | some ps =>
    let prevIdx := ps.nextIndex - 1
    let prevTerm := ((n.log.get prevIdx).map (·.term)).getD 0
    (n.log.entriesFrom ps.nextIndex).map fun entries =>
      [.send dest (.appendReq
        { term := n.currentTerm
          leaderId := n.id
          prevLogIdx := prevIdx
          prevLogTerm := prevTerm
          entries := entries
          leaderCommit := n.log.commitIndex })]

/-- A request to each peer. -/
def broadcastHeartbeat (n : RaftNode) : Option (List RaftAction) :=
  (n.peers.mapM n.sendAppend).map List.flatten

/-- A request to each peer, for a proposal. -/
def replicateToPeers (n : RaftNode) : Option (List RaftAction) :=
  (n.peers.mapM n.sendAppend).map List.flatten

/-- Take office: reset the peers, append a no-op, write the file, announce. The no-op is in the log
when `nextIndex` gets its final value, so the first requests carry no entries. -/
def becomeLeader (n : RaftNode) : RaftNode × Option (List RaftAction) :=
  let next := n.log.lastIndex + 1
  let peerState := n.peers.foldl (fun m p => AList.insert p (⟨next, 0⟩ : PeerState) m) n.peerState
  let (log, noopIdx) := n.log.append n.currentTerm .noop
  let n' := { n with role := .leader, peerState := peerState, log := log }.persistState
  let n' := { n' with
    peerState := PeerMap.mapValues (fun ps => { ps with nextIndex := noopIdx + 1 }) n'.peerState }
  (n', n'.broadcastHeartbeat.map ([.becameLeader n.currentTerm] ++ ·))

/-- The highest index above `commitIndex` with an entry of the current term that a quorum, the
leader included, has. -/
def commitCandidate (n : RaftNode) : Option Nat :=
  (List.range' (n.log.commitIndex + 1) (n.log.lastIndex - n.log.commitIndex)).reverse.find?
    fun k => (n.log.get k).map (·.term) = some n.currentTerm ∧
      n.quorum ≤ n.peerState.replicated k + 1

/-- Commits what a quorum has, and applies it. -/
def tryAdvanceCommitIndex (n : RaftNode) : RaftNode × Option (List RaftAction) :=
  match n.commitCandidate with
  | none => (n, some [])
  | some k =>
    let n := { n with log := n.log.setCommitIndex k }.persistState
    match n.log.takeUnapplied with
    | none => (n, none)
    | some (log, unapplied) =>
      ({ n with log := log }, some (if unapplied.isEmpty then [] else [.apply unapplied]))

/-! ### Election -/

/-- Adopt `term` as a follower. The vote is cleared even in the node's own term. -/
def becomeFollower (n : RaftNode) (term : Nat) : RaftNode × List RaftAction :=
  ({ n with
      currentTerm := term
      votedFor := none
      role := .follower
      electionElapsed := 0
      peerState := ∅
      votesReceived := ∅ }.persistState,
   if n.role = .leader then [.becameFollower term] else [])

/-- Campaigns in the next term. -/
def startElection (ov : Overflow) (n : RaftNode) : RaftNode × Option (List RaftAction) :=
  match ov.add n.currentTerm 1 with
  | none => (n, none)
  | some term =>
    let n := { n with
      currentTerm := term
      role := .candidate
      votedFor := some n.id
      electionElapsed := 0
      votesReceived := {n.id} }.persistState
    if n.quorum ≤ n.votesReceived.card then n.becomeLeader
    else (n, some [.broadcast (.voteReq
      { term := n.currentTerm
        candidateId := n.id
        lastLogIdx := n.log.lastIndex
        lastLogTerm := n.log.lastTerm })])

/-! ### RequestVote -/

/-- The candidate's log is at least as up to date as this node's. -/
def logOk (n : RaftNode) (req : RequestVoteReq) : Prop :=
  n.log.lastTerm < req.lastLogTerm ∨
    (req.lastLogTerm = n.log.lastTerm ∧ n.log.lastIndex ≤ req.lastLogIdx)
deriving Decidable

/-- No other candidate has the vote. -/
def canVote (n : RaftNode) (req : RequestVoteReq) : Prop :=
  n.votedFor = none ∨ n.votedFor = some req.candidateId
deriving Decidable

/-- The answer to a vote request. -/
def voteReply (n : RaftNode) (req : RequestVoteReq) (granted : Bool) : RaftAction :=
  .send req.candidateId
    (.voteResp { term := n.currentTerm, fromId := n.id, voteGranted := granted })

/-- Grants or denies a vote. -/
def handleVoteReq (n : RaftNode) (req : RequestVoteReq) : RaftNode × List RaftAction :=
  if req.term < n.currentTerm then (n, [n.voteReply req false])
  else
    let (n, actions) := if n.currentTerm < req.term then n.becomeFollower req.term else (n, [])
    if n.logOk req ∧ n.canVote req then
      let n := { n with votedFor := some req.candidateId, electionElapsed := 0 }.persistState
      (n, actions ++ [n.voteReply req true])
    else (n, actions ++ [n.voteReply req false])

/-- A granted vote is counted whatever term it was granted in. -/
def handleVoteResp (n : RaftNode) (resp : RequestVoteResp) : RaftNode × Option (List RaftAction) :=
  if n.currentTerm < resp.term then
    let (n, actions) := n.becomeFollower resp.term
    (n, some actions)
  else if n.role ≠ .candidate then (n, some [])
  else if resp.voteGranted then
    let n := { n with votesReceived := insert resp.fromId n.votesReceived }
    if n.quorum ≤ n.votesReceived.card then n.becomeLeader else (n, some [])
  else (n, some [])

/-! ### AppendEntries -/

/-- Cut the log at `entry` when it holds another term there. -/
def cutConflict (log : DecisionLog) (entry : LogEntry) : DecisionLog :=
  match log.get entry.index with
  | some existing => if existing.term ≠ entry.term then log.truncateFrom entry.index else log
  | none => log

/-- One turn of the append loop. An entry past the end gets the next free index. -/
def appendEntry (log : DecisionLog) (entry : LogEntry) : DecisionLog :=
  let log := cutConflict log entry
  if log.lastIndex < entry.index then (log.append entry.term entry.command).1 else log

/-- The entry before the request is there. -/
def prevOk (n : RaftNode) (req : AppendEntriesReq) : Prop :=
  req.prevLogIdx = 0 ∨ (n.log.get req.prevLogIdx).map (·.term) = some req.prevLogTerm
deriving Decidable

/-- The answer to an append request. -/
def appendReply (n : RaftNode) (req : AppendEntriesReq) (success : Bool) (matchIndex : Nat) :
    RaftAction :=
  .send req.leaderId (.appendResp
    { term := n.currentTerm, fromId := n.id, success := success, matchIndex := matchIndex })

/-- `handle_append_req` after the consistency check: append, commit, write the file, apply, and
acknowledge the own last index. -/
def appendNewEntries (n : RaftNode) (req : AppendEntriesReq) (actions : List RaftAction) :
    RaftNode × Option (List RaftAction) :=
  let log := req.entries.foldl appendEntry n.log
  let n := { n with log := log.setCommitIndex req.leaderCommit }.persistState
  match n.log.takeUnapplied with
  | none => (n, none)
  | some (log, unapplied) =>
    let n := { n with log := log }
    (n, some (actions ++ (if unapplied.isEmpty then [] else [.apply unapplied]) ++
      [n.appendReply req true n.log.lastIndex]))

/-- On a failed consistency check the actions of `becomeFollower` are dropped. -/
def handleAppendReq (n : RaftNode) (req : AppendEntriesReq) : RaftNode × Option (List RaftAction) :=
  if req.term < n.currentTerm then (n, some [n.appendReply req false 0])
  else
    let (n, actions) := n.becomeFollower req.term
    let n := { n with electionElapsed := 0 }
    if ¬ n.prevOk req then (n, some [n.appendReply req false n.log.lastIndex])
    else n.appendNewEntries req actions

/-- An acknowledgement is taken whatever term it was given in. -/
def handleAppendResp (ov : Overflow) (n : RaftNode) (sender : Nat) (resp : AppendEntriesResp) :
    RaftNode × Option (List RaftAction) :=
  if n.currentTerm < resp.term then
    let (n, actions) := n.becomeFollower resp.term
    (n, some actions)
  else if n.role ≠ .leader then (n, some [])
  else
    match n.peerState.lookup sender with
    | none => (n, none)
    | some ps =>
      if resp.success then
        let ps := { ps with matchIndex := resp.matchIndex }
        match ov.add resp.matchIndex 1 with
        | none => ({ n with peerState := n.peerState.insert sender ps }, none)
        | some next =>
          { n with
            peerState := n.peerState.insert sender { ps with nextIndex := next }
          }.tryAdvanceCommitIndex
      else
        let next? :=
          if 0 < resp.matchIndex then ov.add resp.matchIndex 1
          else some (max (ps.nextIndex - 1) 1)
        match next? with
        | none => (n, none)
        | some next =>
          let peerState := n.peerState.insert sender { ps with nextIndex := next }
          let n := { n with peerState := peerState }
          (n, n.sendAppend sender)

/-! ### Entry points -/

/-- One tick of the clock. -/
def tick (ov : Overflow) (n : RaftNode) : RaftNode × Option (List RaftAction) :=
  match n.role with
  | .follower | .candidate =>
    let n := { n with electionElapsed := n.electionElapsed + 1 }
    if n.electionTimeout ≤ n.electionElapsed then n.startElection ov else (n, some [])
  | .leader =>
    let n := { n with heartbeatElapsed := n.heartbeatElapsed + 1 }
    if heartbeatTicks ≤ n.heartbeatElapsed then
      let n := { n with heartbeatElapsed := 0 }
      (n, n.broadcastHeartbeat)
    else (n, some [])

/-- Append a command and replicate it; `some none` when the node is not the leader. -/
def propose (n : RaftNode) (command : DecisionCommand) :
    RaftNode × Option (Option (Nat × List RaftAction)) :=
  if n.role ≠ .leader then (n, some none)
  else
    let (log, index) := n.log.append n.currentTerm command
    let n := { n with log := log }.persistState
    (n, n.replicateToPeers.map fun actions => some (index, actions))

/-- One message. -/
def step (ov : Overflow) (n : RaftNode) (sender : Nat) :
    RaftMessage → RaftNode × Option (List RaftAction)
  | .voteReq req => let (n, actions) := n.handleVoteReq req; (n, some actions)
  | .voteResp resp => n.handleVoteResp resp
  | .appendReq req => n.handleAppendReq req
  | .appendResp resp => n.handleAppendResp ov sender resp

end RaftNode

end Haltchain.Consensus

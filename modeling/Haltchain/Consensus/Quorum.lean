import Mathlib.Data.List.AList

/-! # Quorum decisions

`quorum.rs`: which decisions need the agreement of the cluster, and the tracker that collects the
votes on one transaction. -/

namespace Haltchain.Consensus

/-- From this amount on a quorum is needed. -/
def Quorum.highStakesThresholdCents : Nat := 50000

/-- The nodes of a cluster by default. -/
def Quorum.clusterSize : Nat := 3

/-- The usual `QUORUM`, two of three. -/
def Quorum.quorum : Nat := 2

/-- What the votes come to. -/
inductive QuorumDecision where
  | approved
  | rejected
  | pending
  | unavailable
deriving DecidableEq

/-- What decides about the need for a quorum. -/
structure QuorumRequest where
  transactionId : String
  agentId : String
  amountCents : Nat
  isAnomaly : Bool

/-- For a large amount or an anomaly. -/
def QuorumRequest.requiresQuorum (r : QuorumRequest) : Bool :=
  Quorum.highStakesThresholdCents ≤ r.amountCents || r.isAnomaly

/-- A vote of a node. -/
inductive Vote where
  | approve
  | reject
deriving DecidableEq

/-- The votes on one transaction. -/
structure QuorumTracker where
  transactionId : String
  votes : AList (fun _ : Nat => Vote)
  clusterSize : Nat
  quorum : Nat

namespace QuorumTracker

/-- No votes yet. -/
def withCluster (transactionId : String) (clusterSize quorum : Nat) : QuorumTracker :=
  ⟨transactionId, ∅, clusterSize, quorum⟩

/-- The default cluster. -/
def new (transactionId : String) : QuorumTracker :=
  withCluster transactionId Quorum.clusterSize Quorum.quorum

/-- The last vote of a node counts. -/
def vote (t : QuorumTracker) (nodeId : Nat) (v : Vote) : QuorumTracker :=
  { t with votes := t.votes.insert nodeId v }

/-- A vote for it. -/
def approve (t : QuorumTracker) (nodeId : Nat) : QuorumTracker := t.vote nodeId .approve

/-- A vote against it. -/
def reject (t : QuorumTracker) (nodeId : Nat) : QuorumTracker := t.vote nodeId .reject

/-- How many votes of the kind were cast. -/
def tally (t : QuorumTracker) (v : Vote) : Nat := t.votes.entries.countP fun e => e.2 = v

/-- What the votes decide. -/
def decision (t : QuorumTracker) : QuorumDecision :=
  if t.quorum ≤ t.tally .approve then .approved
  else if t.clusterSize - t.quorum < t.tally .reject then .rejected
  -- all votes are in
  else if t.clusterSize ≤ t.votes.entries.length then .rejected
  else .pending

end QuorumTracker

end Haltchain.Consensus

import Haltchain.Lib.Assoc
import Haltchain.Lib.Run
import Mathlib.Data.Finset.Card

/-! # Network partitions

`partition.rs`: a detector keeps when each peer was last heard, and a node that does not hear enough
of them refuses writes. The clock counts nanoseconds, and a call reads it once. -/

namespace Haltchain.Consensus

open List Lib

/-- After so long a peer is not heard. -/
def peerTimeout : Nat := 500000000

/-- What a node does in a minority. -/
inductive PartitionPolicy where
  | consistencyOverAvailability
  | bestEffort

/-- What becomes of a write. -/
inductive PartitionDecision where
  | proceed
  | serviceUnavailable (reason : String)
  | stepDown

/-- When each peer was heard last. -/
structure PartitionDetector where
  nodeId : Nat
  clusterSize : Nat
  quorum : Nat
  policy : PartitionPolicy
  lastHeard : AList fun _ : Nat => Nat

namespace PartitionDetector

/-- All peers were heard just now. -/
def new (now nodeId : Nat) (peers : List Nat) (clusterSize quorum : Nat)
    (policy : PartitionPolicy) : PartitionDetector :=
  ⟨nodeId, clusterSize, quorum, policy, peers.foldl (fun m p => m.insert p now) ∅⟩

/-- At the time `beat.1`, from the peer `beat.2`. -/
def recordHeartbeat (d : PartitionDetector) (beat : Nat × Nat) : PartitionDetector :=
  { d with lastHeard := d.lastHeard.insert beat.2 beat.1 }

/-- The peers heard lately. -/
def reachablePeerCount (d : PartitionDetector) (now : Nat) : Nat :=
  d.lastHeard.entries.countP fun e => now - e.2 < peerTimeout

/-- With the node itself. -/
def visibleClusterSize (d : PartitionDetector) (now : Nat) : Nat := 1 + d.reachablePeerCount now

def hasQuorum (d : PartitionDetector) (now : Nat) : Bool := d.quorum ≤ d.visibleClusterSize now

def checkWrite (d : PartitionDetector) (now : Nat) (isLeader : Bool) : PartitionDecision :=
  if d.hasQuorum now then .proceed
  else match d.policy with
    | .consistencyOverAvailability =>
      if isLeader then .stepDown
      else .serviceUnavailable ("partition detected: only " ++
        toString (d.visibleClusterSize now) ++ "/" ++ toString d.clusterSize ++ " nodes visible")
    | .bestEffort =>
      .serviceUnavailable "degraded — best effort mode, high-stakes writes blocked"

theorem checkWrite_eq_proceed_iff (d : PartitionDetector) (now : Nat) (isLeader : Bool) :
    d.checkWrite now isLeader = .proceed ↔ d.hasQuorum now = true := by
  unfold checkWrite
  split
  · next h => exact iff_of_true rfl h
  · next h =>
    refine iff_of_false ?_ h
    split
    · split <;> simp
    · simp

end PartitionDetector

/-- A node of the cluster, with its first peers and the heartbeats it gets. -/
structure Listener (members : Finset Nat) where
  id : Nat
  start : Nat
  peers : List Nat
  beats : List (Nat × Nat)
  id_mem : id ∈ members
  others : ∀ beat ∈ peers.map (start, ·) ++ beats, beat.2 ∈ members.erase id
  ordered : (peers.map (start, ·) ++ beats).Pairwise fun b b' => b.1 ≤ b'.1

namespace Listener

variable {members : Finset Nat} (l : Listener members)

/-- A peer counts as heard when the node starts. -/
def heard : List (Nat × Nat) := l.peers.map (l.start, ·) ++ l.beats

def detector (quorum : Nat) (policy : PartitionPolicy) : PartitionDetector :=
  run .recordHeartbeat (.new l.start l.id l.peers members.card quorum policy) l.beats

/-- The node itself, and whom it has heard lately. -/
def inTouch (now : Nat) : Finset Nat :=
  members.filter fun m => m = l.id ∨ ∃ beat ∈ l.heard, beat.2 = m ∧ now - beat.1 < peerTimeout

theorem lastHeard_detector (quorum : Nat) (policy : PartitionPolicy) :
    (l.detector quorum policy).lastHeard =
      l.heard.foldl (fun m beat => m.insert beat.2 beat.1) ∅ := by
  have hrun : ∀ (d : PartitionDetector) (beats : List (Nat × Nat)),
      (run .recordHeartbeat d beats).lastHeard =
        beats.foldl (fun m beat => m.insert beat.2 beat.1) d.lastHeard := by
    intro d beats
    induction beats generalizing d with
    | nil => rfl
    | cons beat beats ih => exact ih _
  rw [heard, foldl_append, foldl_map]
  exact hrun _ _

/-- In the order of time, the last heartbeat is recent if any is. -/
theorem recent_lookup_iff (beats : List (Nat × Nat)) (h : beats.Pairwise fun b b' => b.1 ≤ b'.1)
    (m now : Nat) : (∃ t ∈ (beats.foldl (fun m beat => m.insert beat.2 beat.1)
        (∅ : AList fun _ : Nat => Nat)).lookup m, now - t < peerTimeout) ↔
      ∃ beat ∈ beats, beat.2 = m ∧ now - beat.1 < peerTimeout := by
  induction beats using reverseRecOn with
  | nil => simp
  | append_singleton beats beat ih =>
    obtain ⟨hbefore, -, hlast⟩ := pairwise_append.1 h
    rw [foldl_concat, lookup_insert_eq]
    simp only [mem_append, mem_singleton, or_and_right, exists_or, exists_eq_left]
    split
    · next heq =>
      have hlater : ∀ t, (t, m) ∈ beats → now - t < peerTimeout → now - beat.1 < peerTimeout := by
        intro t hmem hrecent
        have hle : t ≤ beat.1 := hlast _ hmem beat mem_cons_self
        omega
      simpa [heq] using heq ▸ hlater
    · next hne => simp [← ih hbefore, Ne.symm hne]

theorem visibleClusterSize_detector (quorum : Nat) (policy : PartitionPolicy) (now : Nat) :
    (l.detector quorum policy).visibleClusterSize now = (l.inTouch now).card := by
  let recent := keepValues (fun t => now - t < peerTimeout) (l.detector quorum policy).lastHeard
  have hmem : ∀ m, m ∈ recent.keys ↔ ∃ beat ∈ l.heard, beat.2 = m ∧ now - beat.1 < peerTimeout := by
    intro m
    rw [← recent_lookup_iff l.heard l.ordered, ← l.lastHeard_detector quorum policy,
      ← AList.mem_keys, ← AList.lookup_isSome, lookup_keepValues, Option.isSome_filter]
    simp [Option.any_eq_true]
  have hid : l.id ∉ recent.keys.toFinset := by
    rw [mem_toFinset, hmem]
    rintro ⟨beat, hbeat, heq, -⟩
    exact Finset.ne_of_mem_erase (l.others beat hbeat) heq
  have hset : l.inTouch now = insert l.id recent.keys.toFinset := by
    ext m
    rw [inTouch, Finset.mem_filter, Finset.mem_insert, mem_toFinset, hmem]
    refine and_iff_right_of_imp ?_
    rintro (rfl | ⟨beat, hbeat, rfl, -⟩)
    · exact l.id_mem
    · exact Finset.mem_of_mem_erase (l.others beat hbeat)
  have hcount : (l.detector quorum policy).reachablePeerCount now = recent.keys.length := by
    rw [PartitionDetector.reachablePeerCount, countP_eq_length_filter]
    exact (length_map _).symm
  rw [hset, Finset.card_insert_of_notMem hid, toFinset_card_of_nodup recent.keys_nodup, ← hcount,
    PartitionDetector.visibleClusterSize, Nat.add_comm]

theorem proceeds_iff (quorum : Nat) (policy : PartitionPolicy) (now : Nat) (isLeader : Bool) :
    (l.detector quorum policy).checkWrite now isLeader = .proceed ↔
      quorum ≤ (l.inTouch now).card := by
  have hquorum : (l.detector quorum policy).quorum = quorum :=
    run_invariant (f := PartitionDetector.recordHeartbeat) (I := (·.quorum = quorum)) rfl
      (fun _ _ h => h) l.beats
  rw [PartitionDetector.checkWrite_eq_proceed_iff, PartitionDetector.hasQuorum,
    visibleClusterSize_detector, hquorum, decide_eq_true_iff]

/-- **No split brain.** A node proceeds with a write exactly if it is in touch with a quorum. When
two nodes proceed, each with more than half of the cluster, some member is in touch with both. -/
theorem proceeds_iff_in_touch (quorum : Nat) (a b : Listener members)
    (policyA policyB : PartitionPolicy) (now now' : Nat) (leaderA leaderB : Bool) :
    ((a.detector quorum policyA).checkWrite now leaderA = .proceed ↔
      quorum ≤ (a.inTouch now).card) ∧
    (members.card < 2 * quorum →
      (a.detector quorum policyA).checkWrite now leaderA = .proceed →
      (b.detector quorum policyB).checkWrite now' leaderB = .proceed →
      ∃ m, m ∈ a.inTouch now ∧ m ∈ b.inTouch now') := by
  refine ⟨a.proceeds_iff .., fun hmajority ha hb => ?_⟩
  rw [proceeds_iff] at ha hb
  obtain ⟨m, hm⟩ := Finset.inter_nonempty_of_card_lt_card_add_card
    (Finset.filter_subset _ _ : a.inTouch now ⊆ members) (Finset.filter_subset _ _)
    (show members.card < (a.inTouch now).card + (b.inTouch now').card by omega)
  exact ⟨m, Finset.mem_inter.1 hm⟩

/-- Of three nodes, one that has heard one peer lately and one that has just started. -/
theorem two_of_three_in_touch :
    let a : Listener {1, 2, 3} :=
      ⟨1, 0, [2, 3], [(900000000, 2)], by decide, by decide, by decide⟩
    let b : Listener {1, 2, 3} := ⟨3, 900000000, [1, 2], [], by decide, by decide, by decide⟩
    (a.detector 2 .bestEffort).checkWrite 900000000 true = .proceed ∧
      ∃ m, m ∈ a.inTouch 900000000 ∧ m ∈ b.inTouch 900000000 := by
  intro a b
  obtain ⟨hiff, hboth⟩ := proceeds_iff_in_touch 2 a b .bestEffort .bestEffort 900000000
    900000000 true true
  have ha := hiff.2 (by decide +kernel)
  exact ⟨ha, hboth (by decide) ha (by rw [proceeds_iff]; decide +kernel)⟩

end Listener

end Haltchain.Consensus

import Haltchain.Consensus.Persistence

/-! # A cluster of nodes over an unreliable network

The network is the list of everything ever sent: a message may be delivered at any later time, any
number of times, or never. A crashed node restarts over its own file. The trace is the global
history of observations. -/

namespace Haltchain.Consensus

open Lib List Function

/-- A static membership: every node's peers are all the other ids. -/
structure ClusterConfig where
  ids : Finset Nat
  peers : Nat → List Nat
  electionTimeout : Nat → Nat
  nodup_peers : ∀ i ∈ ids, (peers i).Nodup
  mem_peers : ∀ i ∈ ids, ∀ j, j ∈ peers i ↔ j ∈ ids ∧ j ≠ i

/-- A message routed across the network. -/
structure Envelope where
  sender : Nat
  dest : Nat
  msg : RaftMessage
deriving DecidableEq

/-- `NodeRunner::dispatch`: what an observation of node `i` puts on the wire. -/
def dispatch (peers : List Nat) (i : Nat) : Observation → List Envelope
  | .action (.send dest msg) => [⟨i, dest, msg⟩]
  | .action (.broadcast msg) => peers.map fun p => ⟨i, p, msg⟩
  | _ => []

structure Cluster where
  nodes : Nat → RaftNode
  trace : List (Nat × Observation)

/-- An event of the cluster: one call on one node. -/
abbrev ClusterEvent := Nat × Call

namespace Cluster

/-- Everything sent so far. -/
def sent (cfg : ClusterConfig) (c : Cluster) : List Envelope :=
  c.trace.flatMap fun o => dispatch (cfg.peers o.1) o.1 o.2

/-- A member may be called at any time, but handed only messages sent to it. -/
def enabled (cfg : ClusterConfig) (c : Cluster) (e : ClusterEvent) : Prop :=
  e.1 ∈ cfg.ids ∧
    match e.2 with
    | .step sender msg => ⟨sender, e.1, msg⟩ ∈ c.sent cfg
    | _ => True

instance (cfg : ClusterConfig) (c : Cluster) (e : ClusterEvent) : Decidable (c.enabled cfg e) := by
  unfold enabled
  split <;> infer_instance

/-- One event; an event that is not enabled does nothing. -/
def exec (cfg : ClusterConfig) (ov : Overflow) (c : Cluster) (e : ClusterEvent) : Cluster :=
  if c.enabled cfg e then
    ⟨update c.nodes e.1 ((c.nodes e.1).exec ov e.2).1,
      c.trace ++ ((c.nodes e.1).exec ov e.2).2.map (e.1, ·)⟩
  else c

end Cluster

/-- The members on their first start, over no file. -/
def ClusterConfig.boot (cfg : ClusterConfig) : Cluster where
  nodes := fun i =>
    RaftNode.withPersistence i (cfg.peers i) (cfg.electionTimeout i) s!"node-{i}.json" none
  trace := []

/-- The nodes `1, …, size`, all with the shortest election timeout. -/
def ClusterConfig.ofSize (size : Nat) : ClusterConfig where
  ids := (List.range' 1 size).toFinset
  peers := fun i => (List.range' 1 size).filter (· ≠ i)
  electionTimeout := fun _ => electionTimeoutMin
  nodup_peers := fun _ _ => List.Nodup.filter _ List.nodup_range'
  mem_peers := fun i _ j => by simp

/-- Three nodes. -/
def ClusterConfig.three : ClusterConfig := .ofSize 3

/-- Five nodes. -/
def ClusterConfig.five : ClusterConfig := .ofSize 5

/-- Node `i` hears nothing until its election timeout runs out. -/
def timeoutOf (i : Nat) : List ClusterEvent := List.replicate electionTimeoutMin (i, .tick)

/-! ## The cluster, one event at a time

What an event changes (`exec_cases`): each node runs under its own id, over an up-to-date file, and
what is on the wire was emitted by the node it names (`WellFormed`). -/

/-- Node `i` is the author, and only vote requests are broadcast. -/
def Signed (i : Nat) : Observation → Prop
  | .action (.send _ (.appendReq req)) => req.leaderId = i
  | .action (.send _ (.appendResp resp)) => resp.fromId = i
  | .action (.send _ (.voteReq _)) => False
  | .action (.send _ (.voteResp resp)) => resp.fromId = i
  | .action (.broadcast (.voteReq req)) => req.candidateId = i
  | .action (.broadcast _) => False
  | _ => True

variable {n : RaftNode} {i : Nat}

namespace RaftNode

theorem Transition.signed {ov : Overflow} {n' : RaftNode} {call : Call} {obs : List Observation}
    (ht : Transition ov n call n' obs) : ∀ o ∈ obs, Signed n.id o := by
  cases ht with
  | heartbeat => exact forall_heartbeats fun _ _ => rfl
  | campaign => exact forall_mem_cons.2 ⟨trivial, forall_mem_singleton.2 rfl⟩
  | campaignWon =>
    rw [forall_mem_cons, forall_mem_cons]
    exact ⟨trivial, trivial, forall_heartbeats fun _ _ => by simp [Signed, appendMsg]⟩
  | proposed c => exact forall_heartbeats fun _ _ => proposed_id n c
  | voteStale s req | voteDenied s req | voteGranted s req | appendStale s req =>
    exact forall_mem_singleton.2 rfl
  | voteDeniedNewer s req | voteGrantedNewer s req =>
    rw [map_append, forall_mem_append]
    exact ⟨forall_stepDown trivial, forall_mem_singleton.2 (follow_id n req.term)⟩
  | voteRespNewer s resp | ackNewer s resp => exact forall_stepDown trivial
  | voteWon s resp => exact forall_mem_cons.2 ⟨trivial, forall_heartbeats fun _ _ => lead_id _⟩
  | appendMismatch s req => exact forall_mem_singleton.2 (follow_id n req.term)
  | appendAccepted s req =>
    rw [map_append, map_append, forall_mem_append, forall_mem_append]
    exact ⟨⟨forall_stepDown trivial, forall_applyActions trivial⟩,
      forall_mem_singleton.2 (accept_id n req)⟩
  | ackCommitted => exact forall_applyActions trivial
  | nacked s resp => exact forall_appendActions fun _ => rfl
  | _ => exact forall_mem_nil _

theorem exec_signed (ov : Overflow) (h : n.Sound) (call : Call) :
    ∀ o ∈ (n.exec ov call).2, Signed n.id o := by
  rcases exec_cases ov h.indexed call with ⟨-, ht⟩ | ⟨-, -, hobs⟩
  · exact ht.signed
  · rw [hobs]
    intro o ho
    simp at ho

end RaftNode

/-! ## One event -/

namespace Cluster

variable {cfg : ClusterConfig} {ov : Overflow} {c : Cluster}

/-- The cluster after node `i` moved to `n` and showed `obs`. -/
def put (c : Cluster) (i : Nat) (n : RaftNode) (obs : List Observation) : Cluster :=
  ⟨update c.nodes i n, c.trace ++ obs.map (i, ·)⟩

@[simp] theorem put_nodes_self (i : Nat) (n : RaftNode) (obs : List Observation) :
    (c.put i n obs).nodes i = n := update_self ..

theorem put_nodes_ne {j : Nat} (h : j ≠ i) (n : RaftNode) (obs : List Observation) :
    (c.put i n obs).nodes j = c.nodes j := update_of_ne h ..

/-- What holds of the node that moved and of the others before. -/
theorem forall_put_nodes {P : Nat → RaftNode → Prop} {obs : List Observation} (hself : P i n)
    (hother : ∀ j, j ≠ i → P j (c.nodes j)) (j : Nat) : P j ((c.put i n obs).nodes j) := by
  by_cases hj : j = i
  · rwa [hj, put_nodes_self]
  · rw [put_nodes_ne hj]
    exact hother j hj

theorem mem_put_trace {j : Nat} {obs : List Observation} {o : Observation} :
    (j, o) ∈ (c.put i n obs).trace ↔ (j, o) ∈ c.trace ∨ (j = i ∧ o ∈ obs) := by
  show (j, o) ∈ c.trace ++ obs.map (i, ·) ↔ _
  rw [mem_append, mem_map]
  constructor
  · rintro (h | ⟨x, hx, heq⟩)
    · exact .inl h
    · obtain ⟨rfl, rfl⟩ := Prod.mk.inj heq
      exact .inr ⟨rfl, hx⟩
  · rintro (h | ⟨rfl, hx⟩)
    · exact .inl h
    · exact .inr ⟨o, hx, rfl⟩

/-- An event is not enabled and does nothing, or is one call on one member. -/
theorem exec_cases (cfg : ClusterConfig) (ov : Overflow) (c : Cluster) (e : ClusterEvent) :
    (¬ c.enabled cfg e ∧ c.exec cfg ov e = c) ∨
    (c.enabled cfg e ∧ c.exec cfg ov e
      = c.put e.1 ((c.nodes e.1).exec ov e.2).1 ((c.nodes e.1).exec ov e.2).2) := by
  unfold exec
  by_cases he : c.enabled cfg e
  · rw [if_pos he]
    exact .inr ⟨he, rfl⟩
  · rw [if_neg he]
    exact .inl ⟨he, rfl⟩

theorem trace_subset_exec (cfg : ClusterConfig) (ov : Overflow) (c : Cluster) (e : ClusterEvent) :
    c.trace ⊆ (c.exec cfg ov e).trace := by
  rcases exec_cases cfg ov c e with ⟨-, heq⟩ | ⟨-, heq⟩
  · rw [heq]
    exact .refl _
  · rw [heq]
    intro o ho
    exact mem_put_trace.2 (.inl ho)

theorem trace_subset_run {es es' : List ClusterEvent} (hp : es <+: es') :
    (run (exec cfg ov) c es).trace ⊆ (run (exec cfg ov) c es').trace := by
  obtain ⟨rest, rfl⟩ := hp
  rw [run_append]
  exact run_invariant (f := exec cfg ov)
    (I := fun c' => (run (exec cfg ov) c es).trace ⊆ c'.trace)
    (.refl _) (fun _ e h => List.Subset.trans h (trace_subset_exec cfg ov _ e)) rest

/-! ## Well-formed clusters -/

/-- Every node runs under its own id, with the configured peers, over a current file; members sign
the trace. -/
structure WellFormed (cfg : ClusterConfig) (c : Cluster) : Prop where
  sound : ∀ i, (c.nodes i).Sound
  id : ∀ i, (c.nodes i).id = i
  peers : ∀ i, (c.nodes i).peers = cfg.peers i
  member : ∀ o ∈ c.trace, o.1 ∈ cfg.ids
  signed : ∀ o ∈ c.trace, Signed o.1 o.2

theorem wellFormed_boot (cfg : ClusterConfig) : cfg.boot.WellFormed cfg where
  sound := fun i => RaftNode.sound_withPersistence i _ _ _
  id := fun _ => rfl
  peers := fun _ => rfl
  member := fun _ ho => absurd ho (by simp [ClusterConfig.boot])
  signed := fun _ ho => absurd ho (by simp [ClusterConfig.boot])

theorem WellFormed.exec (h : c.WellFormed cfg) (ov : Overflow) (e : ClusterEvent) :
    (c.exec cfg ov e).WellFormed cfg := by
  rcases exec_cases cfg ov c e with ⟨-, heq⟩ | ⟨hen, heq⟩
  · rw [heq]
    exact h
  rw [heq]
  have hs := h.sound e.1
  obtain ⟨hid, hpeers⟩ := RaftNode.exec_identity ov hs e.2
  refine ⟨forall_put_nodes (P := fun _ => RaftNode.Sound) (RaftNode.kept_sound.exec hs ov e.2)
      fun i _ => h.sound i,
    forall_put_nodes (P := fun i n => n.id = i) (hid.trans (h.id e.1)) fun i _ => h.id i,
    forall_put_nodes (P := fun i n => n.peers = cfg.peers i) (hpeers.trans (h.peers e.1))
      fun i _ => h.peers i, fun o ho => ?_, fun o ho => ?_⟩
  · rcases mem_put_trace.1 ho with ho | ⟨hi, -⟩
    · exact h.member o ho
    · rw [hi]
      exact hen.1
  · rcases mem_put_trace.1 ho with ho | ⟨hi, ho⟩
    · exact h.signed o ho
    · have hsig := RaftNode.exec_signed ov hs e.2 o.2 ho
      rw [h.id] at hsig
      rw [hi]
      exact hsig

theorem wellFormed_run (cfg : ClusterConfig) (ov : Overflow) (es : List ClusterEvent) :
    (run (exec cfg ov) cfg.boot es).WellFormed cfg :=
  run_invariant (wellFormed_boot cfg) (fun _ e h => h.exec ov e) es

/-- What every call keeps of one node holds of all along a run. -/
theorem nodes_run {P : RaftNode → Prop} (ov : Overflow) (hboot : ∀ i, P (cfg.boot.nodes i))
    (hstep : ∀ (n : RaftNode) (call : Call), n.Sound → P n → P (n.exec ov call).1)
    (es : List ClusterEvent) (i : Nat) : P ((run (exec cfg ov) cfg.boot es).nodes i) := by
  have hrun : ∀ (c : Cluster) (e : ClusterEvent), c.WellFormed cfg ∧ (∀ i, P (c.nodes i)) →
      (c.exec cfg ov e).WellFormed cfg ∧ ∀ i, P ((c.exec cfg ov e).nodes i) := by
    intro c e ⟨hwf, hP⟩
    refine ⟨hwf.exec ov e, fun i => ?_⟩
    rcases exec_cases cfg ov c e with ⟨-, heq⟩ | ⟨-, heq⟩
    · rw [heq]
      exact hP i
    · rw [heq]
      exact forall_put_nodes (P := fun _ => P) (hstep _ _ (hwf.sound e.1) (hP e.1))
        (fun i _ => hP i) i
  exact (run_invariant ⟨wellFormed_boot cfg, hboot⟩ hrun es).2 i

/-! ## Reading a delivered message back -/

theorem mem_sent {env : Envelope} :
    env ∈ c.sent cfg ↔ ∃ o ∈ c.trace, env ∈ dispatch (cfg.peers o.1) o.1 o.2 := by
  unfold sent
  rw [mem_flatMap]

/-- A message on the wire was sent to its addressee, or broadcast to all peers. -/
theorem mem_dispatch {peers : List Nat} {o : Observation} {env : Envelope}
    (h : env ∈ dispatch peers i o) : env.sender = i ∧ (o = .action (.send env.dest env.msg) ∨
      (o = .action (.broadcast env.msg) ∧ env.dest ∈ peers)) := by
  cases o with
  | electionStarted t => simp [dispatch] at h
  | action a =>
    cases a with
    | send dest msg =>
      obtain rfl := mem_singleton.1 h
      exact ⟨rfl, .inl rfl⟩
    | broadcast msg =>
      obtain ⟨p, hp, rfl⟩ := mem_map.1 h
      exact ⟨rfl, .inr ⟨rfl, hp⟩⟩
    | apply es | becameLeader t | becameFollower t => simp [dispatch] at h

theorem delivered {s : Nat} {msg : RaftMessage} (he : c.enabled cfg (i, .step s msg)) :
    (s, .action (.send i msg)) ∈ c.trace ∨ (s, .action (.broadcast msg)) ∈ c.trace := by
  obtain ⟨o, ho, hd⟩ := mem_sent.1 he.2
  obtain ⟨hs, hsend | ⟨hcast, -⟩⟩ := mem_dispatch hd
  · left
    have : o = (s, .action (.send i msg)) := Prod.ext hs.symm hsend
    rw [← this]
    exact ho
  · right
    have : o = (s, .action (.broadcast msg)) := Prod.ext hs.symm hcast
    rw [← this]
    exact ho

section

variable (h : c.WellFormed cfg) {i s : Nat}
include h

theorem WellFormed.delivered_voteReq {req : RequestVoteReq}
    (he : c.enabled cfg (i, .step s (.voteReq req))) :
    (s, .action (.broadcast (.voteReq req))) ∈ c.trace ∧ req.candidateId = s := by
  rcases delivered he with ho | ho
  · exact absurd (h.signed _ ho) (fun hf => hf)
  · exact ⟨ho, h.signed _ ho⟩

theorem WellFormed.delivered_direct {msg : RaftMessage} (he : c.enabled cfg (i, .step s msg))
    (hdirect : ¬ Signed s (.action (.broadcast msg))) :
    (s, .action (.send i msg)) ∈ c.trace ∧ Signed s (.action (.send i msg)) := by
  rcases delivered he with ho | ho
  · exact ⟨ho, h.signed _ ho⟩
  · exact absurd (h.signed _ ho) hdirect

end

end Cluster

end Haltchain.Consensus

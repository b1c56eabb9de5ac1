import Haltchain.Consensus.Replication

/-! # How fast terms and indices grow

An event raises the terms and the indices of a cluster by one at most: an election goes to the next
term, a leader appends one entry, and everything else is taken over from a message. A run of fewer
than `2 ^ 64 - 1` events therefore never wraps a number around. -/

namespace Haltchain.Consensus

open Lib List

/-- No term and no index in the message is above `b`. -/
def RaftMessage.Within (b : Nat) : RaftMessage → Prop
  | .voteReq req => req.term ≤ b
  | .voteResp resp => resp.term ≤ b
  | .appendReq req => req.term ≤ b ∧ ∀ e ∈ req.entries, e.index ≤ b
  | .appendResp resp => resp.term ≤ b ∧ resp.matchIndex ≤ b

/-- Nor in what is sent. -/
def Observation.Within (b : Nat) : Observation → Prop
  | .action (.send _ msg) | .action (.broadcast msg) => msg.Within b
  | _ => True

/-- Nor in what a call is handed. -/
def Call.Within (b : Nat) : Call → Prop
  | .step _ msg => msg.Within b
  | _ => True

/-- Nor in the node. -/
structure RaftNode.Within (b : Nat) (n : RaftNode) : Prop where
  term : n.currentTerm ≤ b
  length : n.log.entries.length ≤ b

variable {b : Nat}

theorem RaftMessage.Within.succ {msg : RaftMessage} (h : msg.Within b) : msg.Within (b + 1) := by
  cases msg with
  | voteReq req | voteResp resp => exact Nat.le_succ_of_le h
  | appendReq req => exact ⟨Nat.le_succ_of_le h.1, fun e he => Nat.le_succ_of_le (h.2 e he)⟩
  | appendResp resp => exact ⟨Nat.le_succ_of_le h.1, Nat.le_succ_of_le h.2⟩

theorem Observation.Within.succ {o : Observation} (h : o.Within b) : o.Within (b + 1) := by
  cases o with
  | electionStarted t => trivial
  | action a =>
    cases a with
    | send dest msg | broadcast msg => exact RaftMessage.Within.succ h
    | apply es | becameLeader t | becameFollower t => trivial

namespace RaftNode

variable {ov : Overflow} {n n' : RaftNode} {call : Call} {obs : List Observation}

theorem Within.succ (h : n.Within b) : n.Within (b + 1) :=
  ⟨Nat.le_succ_of_le h.term, Nat.le_succ_of_le h.length⟩

/-- A request takes the log no further than its entries reach. -/
theorem length_merged_le (hidx : n.log.Indexed) (h : n.log.entries.length ≤ b)
    {req : AppendEntriesReq} (hreq : ∀ e ∈ req.entries, e.index ≤ b) :
    (n.merged req).entries.length ≤ b := by
  have hloop : ∀ (es : List LogEntry) (l : DecisionLog), l.Indexed → l.entries.length ≤ b →
      (∀ e ∈ es, e.index ≤ b) → (es.foldl appendEntry l).entries.length ≤ b := by
    intro es
    induction es with
    | nil => exact fun _ _ h _ => h
    | cons e es ih =>
      intro l hl hlen hes
      rw [forall_mem_cons] at hes
      refine ih _ (Indexed.appendEntry hl e) ?_ hes.2
      rw [appendEntry_entries hl]
      split
      · next hc =>
        obtain ⟨hpos, hle⟩ := Conflicts.bounds hc
        simp only [length_append, length_take, length_singleton]
        omega
      · split
        · rw [length_append, length_singleton]
          omega
        · exact hlen
  rw [merged, DecisionLog.setCommitIndex_entries]
  exact hloop _ _ hidx h hreq

theorem Transition.term_le (hfit : n.TermFits ov call) (h : n.currentTerm ≤ b)
    (hcall : call.Within b) (htr : Transition ov n call n' obs) : n'.currentTerm ≤ b + 1 := by
  cases htr with
  | campaign hd ht | campaignWon hd ht =>
    have := hfit.campaign_eq hd ht
    simp
    omega
  | voteDeniedNewer s req | voteGrantedNewer s req | voteRespNewer s resp =>
    simpa using Nat.le_succ_of_le hcall
  | appendMismatch s req | appendAccepted s req | ackNewer s resp =>
    simpa using Nat.le_succ_of_le hcall.1
  | _ => simpa [countVote, acked] using Nat.le_succ_of_le h

/-- **A call raises the term and the length of the log by one at most.** -/
theorem Within.exec (h : n.Within b) (hs : n.Sound) (hfit : n.TermFits ov call)
    (hcall : call.Within b) : (n.exec ov call).1.Within (b + 1) := by
  have hlen := h.length
  constructor
  · rcases exec_cases ov hs.indexed call with ⟨-, htr⟩ | ⟨-, hc, -⟩
    · exact htr.term_le hfit h.term hcall
    generalize (n.exec ov call).1 = n' at hc
    cases hc with
    | restarted _ timeout =>
      rw [hs.restart_currentTerm]
      exact h.succ.term
    | appendCrashed s req timeout =>
      rw [(hs.accept req).restart_currentTerm, accept_currentTerm]
      exact Nat.le_succ_of_le hcall.1
  · cases exec_entriesStep hs hfit with
    | kept _ _ _ _ he =>
      rw [he]
      exact h.succ.length
    | proposed _ _ _ _ _ he | won _ _ _ _ he =>
      rw [he, length_append, length_singleton]
      omega
    | accepted _ s req hreq _ _ _ _ he =>
      subst hreq
      rw [he]
      exact Nat.le_succ_of_le (length_merged_le hs.indexed hlen hcall.2)

/-- What a leader sends is cut from its log. -/
theorem Within.appendMsg (h : n.Within b) (hidx : n.log.Indexed) (ps : PeerState) :
    (RaftMessage.appendReq (n.appendMsg ps)).Within b := by
  refine ⟨h.term, fun e he => ?_⟩
  have hmem : e ∈ n.log.entries := by
    unfold RaftNode.appendMsg at he
    dsimp only at he
    split at he
    · simp at he
    · exact mem_of_mem_drop he
  obtain ⟨k, hk⟩ := mem_iff_getElem?.1 hmem
  have hlt := (List.getElem?_eq_some_iff.1 hk).1
  have := hidx k e hk
  have := h.length
  omega

/-- What a call sends says no more than the node has reached. -/
theorem Within.sent (hs : n.Sound) (h : (n.exec ov call).1.Within b) :
    ∀ o ∈ (n.exec ov call).2, o.Within b := by
  have hs' : (n.exec ov call).1.Sound := kept_sound.exec hs ov call
  intro o ho
  match o with
  | .action (.send dest msg) =>
    cases exec_sent ov hs call dest msg ho with
    | request ps => exact h.appendMsg hs'.indexed ps
    | denial resp _ ht => exact ht.trans_le h.term
    | grant s req _ _ _ _ ht => exact ht.symm.trans_le h.term
    | nack resp _ ht hm => exact ⟨ht.trans_le h.term, hm.trans h.length⟩
    | ack => exact ⟨h.term, h.length⟩
  | .action (.broadcast msg) =>
    obtain ⟨-, rfl⟩ := exec_broadcast hs ho
    exact h.term
  | .electionStarted _ | .action (.apply _) | .action (.becameLeader _)
  | .action (.becameFollower _) => trivial

/-- Nothing wraps around far enough below the end of the numbers. -/
theorem Within.fits (h : n.Within b) (hcall : call.Within b) (hb : b + 1 < 2 ^ 64) :
    n.Fits ov call := by
  have hterm := h.term
  refine ⟨fun _ _ _ => by omega, fun _ => ?_⟩
  cases call with
  | step s msg =>
    cases msg with
    | appendResp resp =>
      have := hcall.2
      show resp.matchIndex + 1 < _
      omega
    | _ => exact Nat.lt_of_le_of_lt (Nat.le_add_left ..) hb
  | _ => exact Nat.lt_of_le_of_lt (Nat.le_add_left ..) hb

end RaftNode

namespace Cluster

variable {cfg : ClusterConfig} {ov : Overflow} {c : Cluster} {es : List ClusterEvent}

/-- No term and no index in the cluster is above `b`. -/
structure Within (b : Nat) (c : Cluster) : Prop where
  nodes : ∀ i, (c.nodes i).Within b
  trace : ∀ o ∈ c.trace, o.2.Within b

theorem Within.call (h : c.Within b) {e : ClusterEvent} (he : c.enabled cfg e) : e.2.Within b := by
  obtain ⟨i, call⟩ := e
  cases call with
  | step s msg =>
    rcases delivered he with ho | ho
    · exact h.trace _ ho
    · exact h.trace _ ho
  | _ => trivial

theorem Within.exec (h : c.Within b) (hwf : c.WellFormed cfg) {e : ClusterEvent}
    (hfit : (c.nodes e.1).TermFits ov e.2) : (c.exec cfg ov e).Within (b + 1) := by
  rcases exec_cases cfg ov c e with ⟨-, heq⟩ | ⟨hen, heq⟩
  · rw [heq]
    exact ⟨fun i => (h.nodes i).succ, fun o ho => (h.trace o ho).succ⟩
  rw [heq]
  have hnode := (h.nodes e.1).exec (hwf.sound e.1) hfit (h.call hen)
  refine ⟨forall_put_nodes (P := fun _ => RaftNode.Within (b + 1)) hnode
    fun i _ => (h.nodes i).succ, fun o ho => ?_⟩
  rcases mem_put_trace.1 ho with ho | ⟨-, ho⟩
  · exact (h.trace o ho).succ
  · exact hnode.sent (hwf.sound e.1) o.2 ho

/-- No addition wraps around in the event. -/
def EventFits (ov : Overflow) (c : Cluster) (e : ClusterEvent) : Prop := (c.nodes e.1).Fits ov e.2
deriving Decidable

/-- **A run of fewer than `2 ^ 64 - 1` events wraps nothing around**, if its messages were sent
before. -/
theorem eventFits_of_length
    (hen : Throughout (exec cfg ov) (fun c e => c.enabled cfg e) cfg.boot es)
    (hlen : es.length + 1 < 2 ^ 64) : Throughout (exec cfg ov) (EventFits ov) cfg.boot es := by
  have hrun : es.length + 1 < 2 ^ 64 →
      (run (exec cfg ov) cfg.boot es).Within es.length ∧
        Throughout (exec cfg ov) (EventFits ov) cfg.boot es := by
    refine Throughout.induction (P := fun es => es.length + 1 < 2 ^ 64 →
      (run (exec cfg ov) cfg.boot es).Within es.length ∧
        Throughout (exec cfg ov) (EventFits ov) cfg.boot es) ?_ ?_ hen
    · intro _
      exact ⟨⟨fun i => ⟨Nat.le_refl _, Nat.le_refl _⟩, by simp [ClusterConfig.boot]⟩, trivial⟩
    · intro es e _ ih he hlen
      rw [length_append, length_singleton] at hlen
      obtain ⟨hwithin, hfits⟩ := ih (by omega)
      have hfit : (run (exec cfg ov) cfg.boot es).EventFits ov e :=
        (hwithin.nodes e.1).fits (hwithin.call he) (by omega)
      rw [run_concat, length_append, length_singleton]
      exact ⟨hwithin.exec (wellFormed_run cfg ov es) hfit.1, throughout_concat.2 ⟨hfits, hfit⟩⟩
  exact (hrun hlen).2

end Cluster

end Haltchain.Consensus

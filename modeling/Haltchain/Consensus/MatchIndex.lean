import Haltchain.Consensus.LogMatching

/-! # What `match_index` means

A follower that accepts a request reports its own last index. That is sound: the request ends in an
entry of the leader's term, so all of its log is a prefix of the leader's (`prefix_of_accepted`).
But `handle_append_resp` takes an acknowledgement of any term (`FreshAck`). -/

namespace Haltchain.Consensus

open Lib Cluster List

/-! ## Counting replicas -/

variable {p : Nat}

namespace PeerMap

/-- The peers tracked at `n` or beyond. -/
def reached (m : PeerMap) (n : Nat) : Finset Nat :=
  ((m.entries.filter (fun e => n ≤ e.2.matchIndex)).map Sigma.fst).toFinset

theorem mem_reached {m : PeerMap} {n : Nat} :
    p ∈ m.reached n ↔ ∃ ps, m.lookup p = some ps ∧ n ≤ ps.matchIndex := by
  unfold reached
  simp only [mem_toFinset, mem_map, mem_filter, decide_eq_true_eq]
  constructor
  · rintro ⟨e, ⟨he, hn⟩, rfl⟩
    exact ⟨e.2, AList.mem_lookup_iff.2 he, hn⟩
  · rintro ⟨ps, hps, hn⟩
    exact ⟨⟨p, ps⟩, ⟨AList.mem_lookup_iff.1 hps, hn⟩, rfl⟩

/-- `replicated` counts peers, each once. -/
theorem card_reached (m : PeerMap) (n : Nat) : (m.reached n).card = m.replicated n := by
  have hnodup : ((m.entries.filter (fun e => n ≤ e.2.matchIndex)).map Sigma.fst).Nodup :=
    List.NodupKeys.sublist filter_sublist m.nodupKeys
  unfold reached replicated
  rw [toFinset_card_of_nodup hnodup, length_map, countP_eq_length_filter]

end PeerMap

namespace RaftNode

/-- **How a leader's commit index moves**: to an entry of its term that a quorum is tracked to have
reached. -/
theorem Transition.leader_commits {ov : Overflow} {n n' : RaftNode} {call : Call}
    {obs : List Observation} (h : n.log.Indexed) (htr : Transition ov n call n' obs)
    (hr : n'.role = .leader) (hlt : n.log.commitIndex < n'.log.commitIndex) :
    (n'.log.get n'.log.commitIndex).map (·.term) = some n'.currentTerm ∧
      n'.quorum ≤ n'.peerState.replicated n'.log.commitIndex + 1 := by
  cases htr with
  | @ackCommitted s resp _ _ _ _ _ next _ k hc log _ hb =>
    obtain ⟨hlow, hhigh, hterm, hquorum⟩ :=
      commitCandidate_some (n := n.acked s ⟨next, resp.matchIndex⟩) h hc
    have hidx := h.setCommitIndex k
    obtain ⟨hl, -, -⟩ := hidx.takeUnapplied_eq hb
    have hcommit : log.commitIndex = k := by
      rw [hl]
      exact h.setCommitIndex_commitIndex hlow hhigh
    have hget : log.get k = n.log.get k := by
      rw [hl]
      unfold DecisionLog.get
      rw [DecisionLog.setCommitIndex_entries]
    show (log.get log.commitIndex).map _ = _ ∧ _ ≤ PeerMap.replicated
      ((n.acked s ⟨next, resp.matchIndex⟩).commitTo k).peerState log.commitIndex + 1
    rw [hcommit, hget, commitTo_peerState]
    refine ⟨hterm.trans ?_, ?_⟩
    · rw [commitTo_currentTerm]
    · have hq : ((n.acked s ⟨next, resp.matchIndex⟩).commitTo k).quorum
          = (n.acked s ⟨next, resp.matchIndex⟩).quorum := by
        unfold quorum
        rw [commitTo_peers]
      exact hq ▸ hquorum
  | campaign => rw [campaign_log] at hlt; exact absurd hlt (lt_irrefl _)
  | campaignWon =>
    rw [lead_log, campaign_log] at hlt
    exact absurd hlt (lt_irrefl _)
  | proposed c =>
    rw [proposed_log] at hlt
    exact absurd hlt (lt_irrefl _)
  | voteDeniedNewer | voteRespNewer | appendMismatch | ackNewer =>
    rw [follow_role] at hr; exact absurd hr (by decide)
  | voteGranted s req => rw [grant_log] at hlt; exact absurd hlt (lt_irrefl _)
  | voteGrantedNewer => rw [grant_role, follow_role] at hr; exact absurd hr (by decide)
  | voteWon s resp =>
    rw [lead_log] at hlt
    exact absurd hlt (lt_irrefl _)
  | appendAccepted s req =>
    have hf : (n.accept req).role = .leader := hr
    rw [accept_role] at hf
    exact absurd hf (by decide)
  | _ => exact absurd hlt (lt_irrefl _)

theorem exec_leader_commits {ov : Overflow} {n : RaftNode} (h : n.log.Indexed) {call : Call}
    (hr : (n.exec ov call).1.role = .leader)
    (hlt : n.log.commitIndex < (n.exec ov call).1.log.commitIndex) :
    ((n.exec ov call).1.log.get (n.exec ov call).1.log.commitIndex).map (·.term)
        = some (n.exec ov call).1.currentTerm ∧
      (n.exec ov call).1.quorum
        ≤ (n.exec ov call).1.peerState.replicated (n.exec ov call).1.log.commitIndex + 1 := by
  rcases exec_cases ov h call with ⟨-, htr⟩ | ⟨-, hc, -⟩
  · exact htr.leader_commits h hr hlt
  · generalize (n.exec ov call).1 = n' at hc hr
    cases hc with
    | restarted | appendCrashed => rw [restart_role] at hr; exact absurd hr (by decide)

end RaftNode

/-! ## Acknowledgements -/

namespace Cluster

variable {cfg : ClusterConfig} {ov : Overflow} {c : Cluster} {L : Nat → List LogEntry}

/-- Node `p` has acknowledged everything up to `m` in `term`. -/
def acked (c : Cluster) (p term m : Nat) : Prop :=
  ∃ dest, (p, .action (.send dest (.appendResp ⟨term, p, true, m⟩))) ∈ c.trace

/-- The success a leader is handed was acknowledged in its current term. -/
def FreshAck (c : Cluster) (e : ClusterEvent) : Prop :=
  match e.2 with
  | .step _ (.appendResp resp) =>
    resp.success = true → (c.nodes e.1).role = .leader → (c.nodes e.1).currentTerm ≤ resp.term
  | _ => True

instance (c : Cluster) : (e : ClusterEvent) → Decidable (c.FreshAck e)
  | (_, .step _ (.appendResp _)) => inferInstanceAs (Decidable (_ → _ → _))
  | (_, .step _ (.voteReq _)) | (_, .step _ (.voteResp _)) | (_, .step _ (.appendReq _))
  | (_, .tick) | (_, .propose _) | (_, .restart _) => instDecidableTrue

theorem acked.mono {c' : Cluster} {term m : Nat} (h : c.acked p term m)
    (hsub : c.trace ⊆ c'.trace) : c'.acked p term m := by
  obtain ⟨dest, hm⟩ := h
  exact ⟨dest, hsub hm⟩

variable {i : Nat}

/-- **An accepted request makes the follower's whole log a prefix of the leader's.** -/
theorem Inherited.prefix_of_accepted (h : Inherited cfg L c) {s : Nat} {req : AppendEntriesReq}
    (he : c.enabled cfg (i, .step s (.appendReq req))) (ht : (c.nodes i).currentTerm ≤ req.term)
    (hp : (c.nodes i).prevOk req) : ((c.nodes i).merged req).entries <+: L req.term := by
  obtain ⟨m, hcut, hcase⟩ := h.accepted he hp
  rcases hcase with ⟨hkeep, hagree⟩ | ⟨htake, -⟩
  · obtain ⟨x, hx, hterm⟩ := hcut.last
    have hpos := hcut.pos
    have hx' : (c.nodes i).log.entries[m - 1]? = some x := by
      rw [hagree.getElem? (by omega), hx]
    rw [hkeep]
    refine (h.node i).lineage.prefix_of_le hx' hterm fun y hy => ?_
    have := ((h.node i).terms y hy).2
    omega
  · rw [htake]
    exact take_prefix _ _

/-- A new acknowledgement: the node is in that term, its log the acknowledged part of the
leader's. -/
theorem Inherited.ack_sent (h : Inherited cfg L c) {call : Call} (hen : c.enabled cfg (i, call))
    {n' : RaftNode} {dest : Nat} {resp : AppendEntriesResp}
    (hsent : RaftNode.SentMessage (c.nodes i) call n' dest (.appendResp resp))
    (hs : resp.success = true) :
    resp.term = n'.currentTerm ∧ resp.matchIndex = n'.log.entries.length ∧
      n'.log.entries <+: L resp.term := by
  cases hsent with
  | nack _ hf => exact absurd (hf.symm.trans hs) (by decide)
  | ack s req hcall ht hp ht' he =>
    subst hcall
    refine ⟨rfl, rfl, ?_⟩
    show _ <+: L n'.currentTerm
    rw [ht', he]
    exact h.prefix_of_accepted hen ht hp

/-! ## The peer table of a leader -/

/-- Only leaders track peers; what a leader has recorded of a peer was acknowledged to it. -/
structure MatchTracked (cfg : ClusterConfig) (c : Cluster) : Prop where
  wf : c.WellFormed cfg
  idle : ∀ i, (c.nodes i).role ≠ .leader → (c.nodes i).peerState = ∅
  peer : ∀ i p ps, (c.nodes i).peerState.lookup p = some ps → p ∈ cfg.peers i
  acked : ∀ i p ps, (c.nodes i).role = .leader → (c.nodes i).peerState.lookup p = some ps →
    0 < ps.matchIndex → c.acked p (c.nodes i).currentTerm ps.matchIndex

/-- A delivered success was given by the node it comes from. -/
theorem WellFormed.ack_delivered (h : c.WellFormed cfg) {s : Nat} {resp : AppendEntriesResp}
    (he : c.enabled cfg (i, .step s (.appendResp resp))) (hs : resp.success = true) :
    c.acked s resp.term resp.matchIndex := by
  obtain ⟨hsent, hfrom⟩ := h.delivered_direct he not_false
  refine ⟨i, ?_⟩
  have heq : resp = ⟨resp.term, s, true, resp.matchIndex⟩ := by
    cases resp
    subst hfrom hs
    rfl
  rw [← heq]
  exact hsent

/-- A leader writes the entry of a peer it tracks. -/
theorem MatchTracked.track (h : MatchTracked cfg c) {c' : Cluster} (hsub : c.trace ⊆ c'.trace)
    {s : Nat} {ps new : PeerState} (hr : (c.nodes i).role = .leader)
    (hps : (c.nodes i).peerState.lookup s = some ps) {ps' : PeerState}
    (hps' : ((c.nodes i).peerState.insert s new).lookup p = some ps')
    (hnew : 0 < new.matchIndex → c'.acked s (c.nodes i).currentTerm new.matchIndex) :
    p ∈ cfg.peers i ∧
      (0 < ps'.matchIndex → c'.acked p (c.nodes i).currentTerm ps'.matchIndex) := by
  rcases of_lookup_insert hps' with ⟨rfl, rfl⟩ | ⟨-, hps'⟩
  · exact ⟨h.peer i p ps hps, hnew⟩
  · exact ⟨h.peer i p ps' hps', fun hpos => (h.acked i p ps' hr hps' hpos).mono hsub⟩

/-- The peers counted for `k`, and the leader, are members, and each other one has acknowledged
`k`. -/
theorem MatchTracked.reached_quorum (h : MatchTracked cfg c) {k : Nat} (hi : i ∈ cfg.ids)
    (hr : (c.nodes i).role = .leader) (hpos : 0 < k)
    (hquorum : (c.nodes i).quorum ≤ (c.nodes i).peerState.replicated k + 1) :
    ∃ holders : Finset Nat, holders ⊆ cfg.ids ∧ (c.nodes i).quorum ≤ holders.card ∧
      ∀ q ∈ holders, q = i ∨ ∃ m, k ≤ m ∧ c.acked q (c.nodes i).currentTerm m := by
  have hpeers : ∀ p ∈ (c.nodes i).peerState.reached k, p ∈ cfg.ids ∧ p ≠ i ∧
      ∃ m, k ≤ m ∧ c.acked p (c.nodes i).currentTerm m := by
    intro p hp
    obtain ⟨ps, hps, hle⟩ := PeerMap.mem_reached.1 hp
    obtain ⟨hmem, hne⟩ := (cfg.mem_peers i hi p).1 (h.peer i p ps hps)
    exact ⟨hmem, hne, _, hle, h.acked i p ps hr hps (by omega)⟩
  refine ⟨insert i ((c.nodes i).peerState.reached k), ?_, ?_, ?_⟩
  · exact Finset.insert_subset hi fun p hp => (hpeers p hp).1
  · rw [Finset.card_insert_of_notMem fun hmem => (hpeers i hmem).2.1 rfl, PeerMap.card_reached]
    exact hquorum
  · intro q hq
    rcases Finset.mem_insert.1 hq with rfl | hq
    · exact .inl rfl
    · exact .inr (hpeers q hq).2.2

/-- Only the table of the called node needs a look. -/
theorem MatchTracked.put (h : MatchTracked cfg c) {n' : RaftNode} {obs : List Observation}
    (hwf' : (c.put i n' obs).WellFormed cfg) (hsub : c.trace ⊆ (c.put i n' obs).trace)
    (hidle : n'.role ≠ .leader → n'.peerState = ∅)
    (hnew : ∀ p ps, n'.peerState.lookup p = some ps → p ∈ cfg.peers i ∧ (n'.role = .leader → 0 <
      ps.matchIndex → (c.put i n' obs).acked p n'.currentTerm ps.matchIndex)) :
    MatchTracked cfg (c.put i n' obs) where
  wf := hwf'
  idle := forall_put_nodes (P := fun _ n => n.role ≠ .leader → n.peerState = ∅) hidle
    fun j _ => h.idle j
  peer := forall_put_nodes (P := fun j n => ∀ p ps, n.peerState.lookup p = some ps →
    p ∈ cfg.peers j) (fun p ps hps => (hnew p ps hps).1) fun j _ => h.peer j
  acked := by
    intro j p ps
    by_cases hj : j = i
    · rw [hj, put_nodes_self]
      exact fun hr hps => (hnew p ps hps).2 hr
    · rw [put_nodes_ne hj]
      exact fun hr hps hpos => (h.acked j p ps hr hps hpos).mono hsub

theorem MatchTracked.exec (h : MatchTracked cfg c) {e : ClusterEvent} (hf : c.FreshAck e) :
    MatchTracked cfg (c.exec cfg ov e) := by
  have hwf' := h.wf.exec ov e
  have hsub := trace_subset_exec cfg ov c e
  rcases exec_cases cfg ov c e with ⟨-, heq⟩ | ⟨hen, heq⟩
  · rw [heq]
    exact h
  rw [heq] at hwf' hsub ⊢
  obtain ⟨i, call⟩ := e
  have hstep := RaftNode.exec_peersStep ov (h.wf.sound i).indexed call
  dsimp only at *
  cases hstep with
  | same hr ht hp =>
    refine h.put hwf' hsub ?_ fun p ps hps => ?_
    · rw [hr, hp]
      exact h.idle i
    · rw [hp] at hps
      rw [hr, ht]
      exact ⟨h.peer i p ps hps, fun hrl hpos => (h.acked i p ps hrl hps hpos).mono hsub⟩
  | dropped hr hp =>
    refine h.put hwf' hsub (fun _ => hp) fun p ps hps => ?_
    rw [hp] at hps
    simp at hps
  | campaign hr hr' hp =>
    refine h.put hwf' hsub (fun _ => hp.trans (h.idle i hr)) fun p ps hps => ?_
    rw [hp] at hps
    exact ⟨h.peer i p ps hps, fun hrl => absurd (hr'.symm.trans hrl) (by decide)⟩
  | won hr hr' hp =>
    refine h.put hwf' hsub (fun hne => absurd hr' hne) fun p ps hps => ?_
    rw [hp, h.idle i hr, h.wf.peers] at hps
    split at hps
    · next hmem =>
      rw [← Option.some.inj hps]
      exact ⟨hmem, fun _ hpos => absurd hpos (lt_irrefl 0)⟩
    · simp at hps
  | acked s resp hcall hle hr hr' ht ps hps hs next ha hp =>
    subst hcall
    have hge : (c.nodes i).currentTerm ≤ resp.term := hf hs hr
    have hack := (h.wf.ack_delivered hen hs).mono hsub
    rw [le_antisymm hle hge] at hack
    refine h.put hwf' hsub (fun hne => absurd hr' hne) fun p ps' hps' => ?_
    rw [hp] at hps'
    obtain ⟨hmem, hacked⟩ := h.track hsub hr hps hps' fun _ => hack
    exact ⟨hmem, fun _ => ht ▸ hacked⟩
  | nacked s resp hcall hr hr' ht ps hps next hn hp =>
    refine h.put hwf' hsub (fun hne => absurd hr' hne) fun p ps' hps' => ?_
    rw [hp] at hps'
    -- the index stored before a refusal stays
    obtain ⟨hmem, hacked⟩ :=
      h.track hsub hr hps hps' fun hpos => (h.acked i s ps hr hps hpos).mono hsub
    exact ⟨hmem, fun _ => ht ▸ hacked⟩

theorem matchTracked_boot (cfg : ClusterConfig) : MatchTracked cfg cfg.boot where
  wf := wellFormed_boot cfg
  idle := fun _ _ => rfl
  peer := fun i p ps hps => absurd (show (∅ : PeerMap).lookup p = some ps from hps) (by simp)
  acked := fun _ _ _ hr => absurd (show RaftRole.follower = .leader from hr) (by decide)

variable {es : List ClusterEvent}

theorem matchTracked_run (hf : Throughout (exec cfg ov) FreshAck cfg.boot es) :
    MatchTracked cfg (run (exec cfg ov) cfg.boot es) :=
  hf.invariant (matchTracked_boot cfg) (fun _ _ h hf => h.exec hf)

/-! ## Moments of a run -/

/-- At some moment of the run, in `term`, node `q` had a log that agrees with `l` up to `k`. -/
def Held (cfg : ClusterConfig) (ov : Overflow) (es : List ClusterEvent) (q term k : Nat)
    (l : List LogEntry) : Prop :=
  ∃ pre, pre <+: es ∧ ((run (exec cfg ov) cfg.boot pre).nodes q).currentTerm = term ∧
    AgreeTo k ((run (exec cfg ov) cfg.boot pre).nodes q).log.entries l

theorem Held.mono {es' : List ClusterEvent} {q term k : Nat} {l l' : List LogEntry}
    (h : Held cfg ov es q term k l) (hp : es <+: es') (hl : l <+: l') :
    Held cfg ov es' q term k l' := by
  obtain ⟨pre, hpre, hterm, hagree⟩ := h
  exact ⟨pre, hpre.trans hp, hterm, hagree.extend_right hl⟩

section

variable (hfit : Throughout (exec cfg ov) (EventFits ov) cfg.boot es)
  (hone : (run (exec cfg ov) cfg.boot es).OneLeaderPerTerm)

include hfit hone

/-- Whatever a node has acknowledged, it held when it did so. -/
theorem acked_held_run :
    ∃ L, Inherited cfg L (run (exec cfg ov) cfg.boot es) ∧
      ∀ p t m, (run (exec cfg ov) cfg.boot es).acked p t m →
        Held cfg ov es p t m (L t) := by
  revert hone
  refine Throughout.induction (P := fun es =>
    (run (exec cfg ov) cfg.boot es).OneLeaderPerTerm →
      ∃ L, Inherited cfg L (run (exec cfg ov) cfg.boot es) ∧
        ∀ p t m, (run (exec cfg ov) cfg.boot es).acked p t m →
          Held cfg ov es p t m (L t)) ?_ ?_ hfit
  · intro _
    refine ⟨_, inherited_boot cfg, fun p t m hack => ?_⟩
    obtain ⟨dest, hm⟩ := hack
    simp [ClusterConfig.boot] at hm
  · intro es e _ ih he hone
    obtain ⟨L, hL, hheld⟩ := ih (hone.shorten (prefix_append _ _))
    rw [run_concat] at hone
    obtain ⟨hL', hmono⟩ := hL.exec he hone
    refine ⟨_, by rw [run_concat]; exact hL', fun p t m hack => ?_⟩
    rw [run_concat] at hack
    obtain ⟨dest, hm⟩ := hack
    have hold : (p, Observation.action (.send dest (.appendResp ⟨t, p, true, m⟩)))
        ∈ (run (exec cfg ov) cfg.boot es).trace →
        Held cfg ov (es ++ [e]) p t m (recordLeader L
          ((exec cfg ov (run (exec cfg ov) cfg.boot es) e).nodes e.1) t) :=
      fun hm => (hheld p t m ⟨dest, hm⟩).mono (prefix_append _ _) (hmono t)
    rcases exec_cases cfg ov (run (exec cfg ov) cfg.boot es) e with ⟨-, heq⟩ | ⟨hen, heq⟩
    · rw [heq] at hm
      exact hold hm
    have hm' := hm
    rw [heq] at hm'
    rcases mem_put_trace.1 hm' with hm' | ⟨hp, hm'⟩
    · exact hold hm'
    -- the moment is the state this very event leads to
    obtain rfl : p = e.1 := hp
    obtain ⟨hterm, hlen, hpre⟩ :=
      hL.ack_sent hen (RaftNode.exec_sent ov (hL.wf.sound _) _ _ _ hm') rfl
    refine ⟨es ++ [e], prefix_refl _, ?_, ?_⟩
    · rw [run_concat, heq, put_nodes_self]
      exact hterm.symm
    · have hself : ((run (exec cfg ov) cfg.boot (es ++ [e])).nodes e.1)
          = (((run (exec cfg ov) cfg.boot es).nodes e.1).exec ov e.2).1 := by
        rw [run_concat, heq, put_nodes_self]
      rw [hself]
      exact prefix_agreeTo (hpre.trans (hmono t)) (Nat.le_of_eq hlen)

/-- What a node acknowledged in a leader's term, it held as the leader has it. -/
theorem acked_held_leader {m : Nat} (hr : ((run (exec cfg ov) cfg.boot es).nodes i).role = .leader)
    (hacked : (run (exec cfg ov) cfg.boot es).acked p ((run (exec cfg ov) cfg.boot es).nodes
      i).currentTerm m) : Held cfg ov es p ((run (exec cfg ov) cfg.boot es).nodes i).currentTerm m
      ((run (exec cfg ov) cfg.boot es).nodes i).log.entries := by
  obtain ⟨L, hL, hheld⟩ := acked_held_run hfit hone
  rw [← ((hL.node i).leader hr).2]
  exact hheld _ _ _ hacked

end

/-- **`match_index` is sound**, over every run without two leaders in one term in which no leader is
handed a successful acknowledgement of an earlier term: a peer recorded at `m > 0` held, in the
leader's term, a log that agrees with the leader's up to `m`; and whenever a leader's commit index
moves, a quorum held, in its term, everything up to it. -/
theorem match_index_sound (cfg : ClusterConfig) (ov : Overflow) (es : List ClusterEvent)
    (hfit : Throughout (exec cfg ov) (EventFits ov) cfg.boot es)
    (hack : Throughout (exec cfg ov) FreshAck cfg.boot es)
    (hone : (run (exec cfg ov) cfg.boot es).OneLeaderPerTerm) :
    let c := run (exec cfg ov) cfg.boot es
    (∀ i p ps, (c.nodes i).role = .leader → (c.nodes i).peerState.lookup p = some ps →
      0 < ps.matchIndex →
        Held cfg ov es p (c.nodes i).currentTerm ps.matchIndex (c.nodes i).log.entries) ∧
    (∀ before i call, es = before ++ [(i, call)] → (c.nodes i).role = .leader →
      ((run (exec cfg ov) cfg.boot before).nodes i).log.commitIndex < (c.nodes i).log.commitIndex →
      ∃ holders : Finset Nat, holders ⊆ cfg.ids ∧ (c.nodes i).quorum ≤ holders.card ∧
        ∀ q ∈ holders, Held cfg ov es q (c.nodes i).currentTerm (c.nodes i).log.commitIndex
          (c.nodes i).log.entries) := by
  intro c
  have htracked : MatchTracked cfg c := matchTracked_run hack
  refine ⟨fun i p ps hr hps hpos =>
    acked_held_leader hfit hone hr (htracked.acked i p ps hr hps hpos), ?_⟩
  intro before i call hes hr hlt
  have hwf := wellFormed_run cfg ov before
  -- the event is the leader's own commit
  obtain ⟨hi, hquorum, hterm⟩ : i ∈ cfg.ids ∧
      (c.nodes i).quorum ≤ (c.nodes i).peerState.replicated (c.nodes i).log.commitIndex + 1 ∧
      ((c.nodes i).log.get (c.nodes i).log.commitIndex).map (·.term)
        = some (c.nodes i).currentTerm := by
    have hc : c = exec cfg ov (run (exec cfg ov) cfg.boot before) (i, call) := by
      show run _ _ es = _
      rw [hes, run_concat]
    rcases exec_cases cfg ov (run (exec cfg ov) cfg.boot before) (i, call) with
      ⟨-, heq⟩ | ⟨hen, heq⟩
    · rw [hc, heq] at hlt
      exact absurd hlt (lt_irrefl _)
    · have hself : c.nodes i = (((run (exec cfg ov) cfg.boot before).nodes i).exec ov call).1 := by
        rw [hc, heq, put_nodes_self]
      rw [hself] at hr hlt ⊢
      obtain ⟨ht, hq⟩ := RaftNode.exec_leader_commits (hwf.sound i).indexed hr hlt
      exact ⟨hen.1, hq, ht⟩
  obtain ⟨holders, hsub, hcard, hholders⟩ := htracked.reached_quorum hi hr (by omega) hquorum
  refine ⟨holders, hsub, hcard, fun q hq => ?_⟩
  rcases hholders q hq with rfl | ⟨m, hle, hacked⟩
  · obtain ⟨x, hx, -⟩ := Option.map_eq_some_iff.1 hterm
    obtain ⟨hpos, hslot⟩ := DecisionLog.get_eq_some.1 hx
    have hslotLt := (List.getElem?_eq_some_iff.1 hslot).1
    have hlen : (c.nodes q).log.commitIndex ≤ (c.nodes q).log.entries.length := by omega
    exact ⟨es, prefix_refl _, rfl, prefix_agreeTo (prefix_refl _) hlen⟩
  · obtain ⟨pre, hpre, hpterm, hagree⟩ := acked_held_leader hfit hone hr hacked
    exact ⟨pre, hpre, hpterm, hagree.mono hle⟩

/-- Leader 1 of term 1 brings its no-op to node 2, after one refusal. -/
def noopReplicated : List ClusterEvent :=
  electedInFirstTerm ++
    [(2, .step 1 (.appendReq ⟨1, 1, 1, 1, [], 0⟩)),
     (1, .step 2 (.appendResp ⟨1, 2, false, 0⟩)),
     (2, .step 1 (.appendReq ⟨1, 1, 0, 0, [⟨1, 1, .noop⟩], 0⟩))]

/-- Node 2 acknowledges the no-op of leader 1, which then commits it. -/
def noopCommitted : List ClusterEvent :=
  noopReplicated ++ [(1, .step 2 (.appendResp ⟨1, 2, true, 1⟩))]

theorem noop_held_by_quorum :
    let c := run (exec .three .checked) ClusterConfig.three.boot noopCommitted
    (c.nodes 1).log.commitIndex = 1 ∧ ∃ holders : Finset Nat, holders ⊆ ClusterConfig.three.ids ∧
      (c.nodes 1).quorum ≤ holders.card ∧
      ∀ q ∈ holders, Held .three .checked noopCommitted q (c.nodes 1).currentTerm
        (c.nodes 1).log.commitIndex (c.nodes 1).log.entries := by
  refine ⟨by decide +kernel, ?_⟩
  exact (match_index_sound .three .checked noopCommitted (by decide +kernel) (by decide +kernel)
    (oneLeader_run (by decide +kernel))).2 noopReplicated 1 (.step 2 (.appendResp ⟨1, 2, true, 1⟩))
    rfl (by decide +kernel) (by decide +kernel)

/-- Term 1: node 3 is elected by nodes 4 and 5. Node 1 refuses its first request. -/
def firstTerm : List ClusterEvent :=
  timeoutOf 3 ++
    [(4, .step 3 (.voteReq ⟨1, 3, 0, 0⟩)), (5, .step 3 (.voteReq ⟨1, 3, 0, 0⟩)),
     (3, .step 4 (.voteResp ⟨1, 4, true⟩)), (3, .step 5 (.voteResp ⟨1, 5, true⟩)),
     (1, .step 3 (.appendReq ⟨1, 3, 1, 1, [], 0⟩))]

/-- Term 2: node 1 is elected by nodes 2 and 4 and brings three entries to node 2, whose
    acknowledgement is delayed. -/
def secondTerm : List ClusterEvent :=
  timeoutOf 1 ++
    [(2, .step 1 (.voteReq ⟨2, 1, 0, 0⟩)), (4, .step 1 (.voteReq ⟨2, 1, 0, 0⟩)),
     (3, .step 1 (.voteReq ⟨2, 1, 0, 0⟩)),
     (1, .step 2 (.voteResp ⟨2, 2, true⟩)), (1, .step 4 (.voteResp ⟨2, 4, true⟩)),
     (1, .propose .noop), (1, .propose .noop),
     (2, .step 1 (.appendReq ⟨2, 1, 1, 2, [], 0⟩)),
     (1, .step 2 (.appendResp ⟨2, 2, false, 0⟩)),
     (2, .step 1 (.appendReq ⟨2, 1, 0, 0, [⟨2, 1, .noop⟩, ⟨2, 2, .noop⟩, ⟨2, 3, .noop⟩], 0⟩))]

/-- Term 3: nodes 4 and 5 elect node 3. Two copies of node 1's old refusal take its `next_index`
back to the start, and node 3's log replaces node 1's. -/
def thirdTerm : List ClusterEvent :=
  timeoutOf 3 ++
    [(4, .step 3 (.voteReq ⟨3, 3, 1, 1⟩)), (5, .step 3 (.voteReq ⟨3, 3, 1, 1⟩)),
     (3, .step 4 (.voteResp ⟨3, 4, true⟩)), (3, .step 5 (.voteResp ⟨3, 5, true⟩)),
     (3, .step 1 (.appendResp ⟨1, 1, false, 0⟩)), (3, .step 1 (.appendResp ⟨1, 1, false, 0⟩)),
     (1, .step 3 (.appendReq ⟨3, 3, 0, 0, [⟨1, 1, .noop⟩, ⟨3, 2, .noop⟩], 0⟩))]

/-- Term 4: nodes 4 and 5 elect node 1, which brings its log to node 4. Node 2's acknowledgement of
term 2 arrives, and then node 4's. -/
def fourthTerm : List ClusterEvent :=
  timeoutOf 1 ++
    [(4, .step 1 (.voteReq ⟨4, 1, 2, 3⟩)), (5, .step 1 (.voteReq ⟨4, 1, 2, 3⟩)),
     (1, .step 4 (.voteResp ⟨4, 4, true⟩)), (1, .step 5 (.voteResp ⟨4, 5, true⟩)),
     (4, .step 1 (.appendReq ⟨4, 1, 3, 4, [], 0⟩)),
     (1, .step 4 (.appendResp ⟨4, 4, false, 0⟩)), (1, .step 4 (.appendResp ⟨4, 4, false, 0⟩)),
     (1, .step 4 (.appendResp ⟨4, 4, false, 0⟩)),
     (4, .step 1 (.appendReq ⟨4, 1, 0, 0, [⟨1, 1, .noop⟩, ⟨3, 2, .noop⟩, ⟨4, 3, .noop⟩], 0⟩)),
     (1, .step 2 (.appendResp ⟨2, 2, true, 3⟩)),
     (1, .step 4 (.appendResp ⟨4, 4, true, 3⟩))]

/-- All four terms. -/
def staleAckCounted : List ClusterEvent := firstTerm ++ secondTerm ++ thirdTerm ++ fourthTerm

/-- Leader 1 of term 4 has node 2 recorded at 3 and commits its entry there, with one leader in each
term. Node 2 was never in term 4 and holds other entries; only 1 and 4 of five hold the committed
one. -/
theorem commit_on_stale_ack :
    let c := run (exec .five .checked) ClusterConfig.five.boot staleAckCounted
    c.OneLeaderPerTerm ∧
      ((c.nodes 1).role = .leader ∧ (c.nodes 1).currentTerm = 4 ∧
        (c.nodes 1).peerState.lookup 2 = some ⟨4, 3⟩ ∧ (c.nodes 1).log.commitIndex = 3) ∧
      (∀ pre ∈ staleAckCounted.inits, ((run (exec .five .checked)
        ClusterConfig.five.boot pre).nodes 2).currentTerm ≠ 4) ∧
      ((c.nodes 1).log.get 3 = some ⟨4, 3, .noop⟩ ∧ (c.nodes 2).log.get 3 = some ⟨2, 3, .noop⟩ ∧
        (c.nodes 3).log.get 3 = none ∧ (c.nodes 5).log.get 3 = none) := by
  refine ⟨oneLeader_run (by decide +kernel), by decide +kernel, by decide +kernel,
    by decide +kernel⟩

end Cluster

end Haltchain.Consensus

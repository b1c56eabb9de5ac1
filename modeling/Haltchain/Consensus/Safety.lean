import Haltchain.Consensus.Completeness
import Haltchain.Consensus.LocalLog

/-! # State-machine safety

What a node applies lies below its commit index, and there every log is the one a leader has had
chosen: a leader commits what a majority has acknowledged (`exec_leader_commits`), a follower
takes the commit index of a leader it agrees with, and what is chosen is in the log of every
later leader. -/

namespace Haltchain.Consensus

open Lib List

/-! ## What a call does to the commit index -/

namespace RaftNode

variable {ov : Overflow} {n n' : RaftNode} {call : Call} {obs : List Observation}

/-- The commit index after a call. A restart can lower it to the log's end. -/
inductive CommitStep (n : RaftNode) (call : Call) (n' : RaftNode) : Prop
  | kept (he : n.log.entries <+: n'.log.entries) (hc : n'.log.commitIndex ≤ n.log.commitIndex)
  | led (hr : n'.role = .leader) (hlt : n.log.commitIndex < n'.log.commitIndex)
  | accepted (s : Nat) (req : AppendEntriesReq) (hcall : call = .step s (.appendReq req))
      (ht : n.currentTerm ≤ req.term) (hp : n.prevOk req) (ht' : n'.currentTerm = req.term)
      (he : n'.log.entries = (n.merged req).entries)
      (hc : n'.log.commitIndex ≤ n.log.commitIndex ∨
        (n'.log.commitIndex ≤ req.leaderCommit ∧ n'.log.commitIndex ≤ n'.log.entries.length))

theorem CommitStep.of_log (h : n'.log = n.log) : CommitStep n call n' :=
  .kept (by rw [h]) (by rw [h])

theorem CommitStep.of_append {term : Nat} {c : DecisionCommand}
    (h : n'.log = (n.log.append term c).1) : CommitStep n call n' := by
  refine .kept ?_ ?_
  · rw [h]
    exact prefix_append _ _
  · rw [h, DecisionLog.append_commitIndex]

theorem merged_commitIndex_le (h : n.log.Indexed) (req : AppendEntriesReq) :
    (n.merged req).commitIndex ≤ n.log.commitIndex ∨
      ((n.merged req).commitIndex ≤ req.leaderCommit ∧
        (n.merged req).commitIndex ≤ (n.merged req).entries.length) := by
  rw [merged_commitIndex h]
  split
  · exact .inr ⟨min_le_left _ _, min_le_right _ _⟩
  · exact .inl le_rfl

theorem Transition.commitStep (h : n.log.Indexed) (htr : Transition ov n call n' obs) :
    CommitStep n call n' := by
  cases htr with
  | campaign => exact .of_log (campaign_log n _)
  | @campaignWon t => exact .of_append (by rw [lead_log, campaign_log])
  | proposed c => exact .of_append (proposed_log n c)
  | voteDeniedNewer | voteRespNewer | appendMismatch | ackNewer => exact .of_log (follow_log n _)
  | voteGranted s req => exact .of_log (grant_log n req)
  | voteGrantedNewer s req => exact .of_log (by rw [grant_log, follow_log])
  | voteWon s resp => exact .of_append (lead_log (n.countVote resp.fromId))
  | @appendAccepted s req ht hp log batch hb =>
    obtain ⟨hl, -, -⟩ := (merged_indexed h req).takeUnapplied_eq hb
    have he : log.entries = (n.merged req).entries := by rw [hl]
    have hc : log.commitIndex = (n.merged req).commitIndex := by rw [hl]
    refine .accepted s req rfl ht hp (accept_currentTerm n req) he ?_
    show log.commitIndex ≤ _ ∨ (log.commitIndex ≤ _ ∧ log.commitIndex ≤ log.entries.length)
    rw [hc, he]
    exact merged_commitIndex_le h req
  | @ackCommitted s resp _ hr _ _ _ next _ k hc log batch hb =>
    obtain ⟨hlow, hhigh, -⟩ := commitCandidate_some (n := n.acked s ⟨next, resp.matchIndex⟩) h hc
    have hidx := h.setCommitIndex k
    obtain ⟨hl, -, -⟩ := hidx.takeUnapplied_eq hb
    refine .led (by rw [← hr]; exact commitTo_role _ _) ?_
    have hcommit : log.commitIndex = k := by
      rw [hl]
      exact h.setCommitIndex_commitIndex hlow hhigh
    exact hcommit ▸ hlow
  | _ => exact .of_log rfl

theorem exec_commitStep (ov : Overflow) (h : n.Sound) (call : Call) :
    CommitStep n call (n.exec ov call).1 := by
  rcases exec_cases ov h.indexed call with ⟨-, htr⟩ | ⟨-, hc, -⟩
  · exact htr.commitStep h.indexed
  generalize (n.exec ov call).1 = n' at hc
  cases hc with
  | restarted _ timeout =>
    refine .kept ?_ ?_
    · rw [h.restart_entries]
    · rw [h.restart_commitIndex_min]
      exact min_le_left _ _
  | appendCrashed s req timeout ht hp =>
    refine .accepted s req rfl ht hp ?_ ?_ ?_
    · rw [(h.accept req).restart_currentTerm, accept_currentTerm]
    · rw [(h.accept req).restart_entries, accept_log]
    · rw [(h.accept req).restart_commitIndex_min, (h.accept req).restart_entries, accept_log]
      rcases merged_commitIndex_le h.indexed req with hle | ⟨hle, -⟩ <;> omega

/-- What is handed out lies below the commit index. -/
theorem LogStep.batch_committed {log : DecisionLog} {batch : List LogEntry} (h : n.log.Indexed)
    (hs : LogStep n call log batch) :
    ∀ e ∈ batch, 1 ≤ e.index ∧ e.index ≤ log.commitIndex ∧ log.entries[e.index - 1]? = some e := by
  have hslice : ∀ l : DecisionLog, l.Indexed → ∀ {k : Nat},
      ∀ e ∈ (l.entries.take l.commitIndex).drop k,
        1 ≤ e.index ∧ e.index ≤ l.commitIndex ∧ l.entries[e.index - 1]? = some e := by
    intro l hidx k e he
    obtain ⟨s, hs⟩ := mem_iff_getElem?.1 (mem_of_mem_drop he)
    have hlt := (List.getElem?_eq_some_iff.1 hs).1
    rw [length_take] at hlt
    rw [getElem?_take_of_lt (by omega)] at hs
    have hindex : e.index = s + 1 := hidx s e hs
    refine ⟨by omega, by omega, ?_⟩
    rw [hindex]
    exact hs
  cases hs with
  | same | appended => exact fun _ he => absurd he (not_mem_nil)
  | merged s req _ _ _ hb =>
    have hidx := merged_indexed h req
    obtain ⟨rfl, rfl, -⟩ := hidx.takeUnapplied_eq hb
    exact hslice _ hidx
  | committed k _ _ hb =>
    have hidx := h.setCommitIndex k
    obtain ⟨rfl, rfl, -⟩ := hidx.takeUnapplied_eq hb
    exact hslice _ hidx

theorem mem_applied {e : LogEntry} {es : List LogEntry} (hm : .action (.apply es) ∈ obs)
    (he : e ∈ es) : e ∈ applied obs := by
  unfold applied
  rw [mem_flatMap]
  exact ⟨_, hm, he⟩

theorem exec_apply_committed (ov : Overflow) (h : n.Sound) (call : Call) {es : List LogEntry}
    (hm : .action (.apply es) ∈ (n.exec ov call).2) :
    ∀ e ∈ es, 1 ≤ e.index ∧ e.index ≤ (n.exec ov call).1.log.commitIndex ∧
      (n.exec ov call).1.log.entries[e.index - 1]? = some e := by
  intro e he
  rcases exec_cases ov h.indexed call with ⟨-, htr⟩ | ⟨-, -, hobs⟩
  · exact (htr.logStep h.indexed).batch_committed h.indexed e (mem_applied hm he)
  · rw [hobs] at hm
    simp at hm

end RaftNode

/-! ## Committed is chosen -/

namespace Cluster

variable {cfg : ClusterConfig} {ov : Overflow} {c : Cluster} {L L' : Nat → List LogEntry}
  {K K' : Nat → Nat → List LogEntry}

/-- The first `k` entries of `l` have been chosen in a term up to `bound`. -/
def Certified (cfg : ClusterConfig) (L : Nat → List LogEntry) (c : Cluster) (bound k : Nat)
    (l : List LogEntry) : Prop :=
  k = 0 ∨ ∃ t n, Chosen cfg L c t n ∧ t ≤ bound ∧ k ≤ n ∧ AgreeTo k l (L t)

/-- Commit indices of nodes and requests, and all handed out, stop at chosen entries. -/
structure Committed (cfg : ClusterConfig) (L : Nat → List LogEntry) (c : Cluster) : Prop where
  node : ∀ i, Certified cfg L c (c.nodes i).currentTerm (c.nodes i).log.commitIndex
    (c.nodes i).log.entries
  request : ∀ i dest req, (i, .action (.send dest (.appendReq req))) ∈ c.trace →
    Certified cfg L c req.term req.leaderCommit (L req.term)
  applied : ∀ i es, (i, .action (.apply es)) ∈ c.trace → ∀ e ∈ es,
    ∃ t n, Chosen cfg L c t n ∧ 1 ≤ e.index ∧ e.index ≤ n ∧ (L t)[e.index - 1]? = some e

theorem committed_boot (cfg : ClusterConfig) : Committed cfg (fun _ => []) cfg.boot where
  node := fun _ => .inl rfl
  request := fun _ _ _ hm => absurd hm (by simp [ClusterConfig.boot])
  applied := fun _ _ hm => absurd hm (by simp [ClusterConfig.boot])

section

variable {i : Nat} {call : Call} {n' : RaftNode} {obs : List Observation}

theorem Chosen.put {t n : Nat} (h : Chosen cfg L c t n) (hmono : ∀ t, L t <+: L' t) :
    Chosen cfg L' (c.put i n' obs) t n := by
  refine ⟨h.1.mono hmono, h.2.mono ?_⟩
  rintro q ⟨m, hnm, hholds⟩
  exact ⟨m, hnm, hholds.put hmono⟩

theorem Certified.put {bound bound' k k' : Nat} {l l' : List LogEntry}
    (h : Certified cfg L c bound k l) (hmono : ∀ t, L t <+: L' t) (hb : bound ≤ bound')
    (hk : k' ≤ k) (hl : l <+: l') : Certified cfg L' (c.put i n' obs) bound' k' l' := by
  rcases h with rfl | ⟨t, n, hch, ht, hkn, ha⟩
  · exact .inl (Nat.le_zero.1 hk)
  · refine .inr ⟨t, n, hch.put hmono, ht.trans hb, hk.trans hkn, ?_⟩
    exact ((ha.mono hk).extend_left hl).extend_right (hmono t)

/-- **A leader commits what it has had chosen.** -/
theorem MatchTracked.chosen (htracked : MatchTracked cfg c) (hin : Inherited cfg L c)
    (hi : i ∈ cfg.ids) (hr : (c.nodes i).role = .leader) {k : Nat}
    (hterm : ((c.nodes i).log.get k).map (·.term) = some (c.nodes i).currentTerm)
    (hquorum : (c.nodes i).quorum ≤ (c.nodes i).peerState.replicated k + 1) :
    Chosen cfg L c (c.nodes i).currentTerm k := by
  obtain ⟨hled, hL⟩ := (hin.node i).leader hr
  obtain ⟨x, hx, hxterm⟩ := Option.map_eq_some_iff.1 hterm
  obtain ⟨hpos, hslot⟩ := DecisionLog.get_eq_some.1 hx
  have hlen := (List.getElem?_eq_some_iff.1 hslot).1
  refine ⟨⟨hpos, x, by rw [hL]; exact hslot, hxterm⟩, ?_⟩
  obtain ⟨holders, hsub, hcard, hholders⟩ := htracked.reached_quorum hi hr hpos hquorum
  refine majority_of_quorum htracked.wf hi hsub hcard fun q hq => ?_
  rcases hholders q hq with rfl | ⟨m, hle, hacked⟩
  · exact ⟨k, Nat.le_refl k, .inr ⟨hled, by rw [hL]; omega⟩⟩
  · exact ⟨m, hle, .inl hacked⟩

/-- A follower that accepts agrees with the leader below its own commit index. -/
theorem Complete.accepted_certified (h : Complete cfg L K c) (hcounted : VotesCounted cfg c)
    {s : Nat} {req : AppendEntriesReq} (hen : c.enabled cfg (i, .step s (.appendReq req)))
    (hle : (c.nodes i).currentTerm ≤ req.term) (hp : (c.nodes i).prevOk req) {k : Nat}
    (hc : Certified cfg L c (c.nodes i).currentTerm k (c.nodes i).log.entries) :
    Certified cfg L c req.term k ((c.nodes i).merged req).entries := by
  rcases hc with rfl | ⟨t, n, hch, ht, hkn, ha⟩
  · exact .inl rfl
  obtain ⟨m, hcut, -⟩ := h.inherited.accepted hen hp
  have hne : L req.term ≠ [] := by
    obtain ⟨x, hx, -⟩ := hcut.last
    intro hnil
    rw [hnil] at hx
    simp at hx
  have hleader := h.leader_agrees hcounted hch (ht.trans hle) hne hkn
  refine .inr ⟨t, n, hch, ht.trans hle, hkn, ?_⟩
  exact (h.inherited.accepted_agree hen hp (ha.trans hleader.symm)).trans hleader

/-- A follower that takes over the commit index of a request. -/
theorem Complete.request_certified (h : Complete cfg L K c) {s : Nat} {req : AppendEntriesReq}
    (hen : c.enabled cfg (i, .step s (.appendReq req)))
    (hle : (c.nodes i).currentTerm ≤ req.term) (hp : (c.nodes i).prevOk req) {k : Nat}
    (hk : k ≤ req.leaderCommit) (hlen : k ≤ ((c.nodes i).merged req).entries.length)
    (hc : Certified cfg L c req.term req.leaderCommit (L req.term)) :
    Certified cfg L c req.term k ((c.nodes i).merged req).entries := by
  rcases hc with hzero | ⟨t, n, hch, ht, hkn, ha⟩
  · exact .inl (by omega)
  · refine .inr ⟨t, n, hch, ht, hk.trans hkn, ?_⟩
    exact (prefix_agreeTo (h.inherited.prefix_of_accepted hen hle hp) hlen).trans (ha.mono hk)

variable (h : Committed cfg L c) (hcomplete : Complete cfg L K c)
  (hin' : Inherited cfg L' (c.put i n' obs)) (hmono : ∀ t, L t <+: L' t)
  (hcounted : VotesCounted cfg c) (htracked' : MatchTracked cfg (c.put i n' obs))
  (hen : c.enabled cfg (i, call)) (hstep : RaftNode.CommitStep (c.nodes i) call n')
  (hlead : n'.role = .leader → (c.nodes i).log.commitIndex < n'.log.commitIndex →
    (n'.log.get n'.log.commitIndex).map (·.term) = some n'.currentTerm ∧
      n'.quorum ≤ n'.peerState.replicated n'.log.commitIndex + 1)
  (hterm : (c.nodes i).currentTerm ≤ n'.currentTerm)
include h hcomplete hin' hmono hcounted htracked' hen hstep hlead hterm

theorem Committed.node_put : Certified cfg L' (c.put i n' obs) n'.currentTerm n'.log.commitIndex
    n'.log.entries := by
  cases hstep with
  | kept he hc => exact (h.node i).put hmono hterm hc he
  | led hr hlt =>
    obtain ⟨hget, hquorum⟩ := hlead hr hlt
    have hself : (c.put i n' obs).nodes i = n' := put_nodes_self ..
    have hch := htracked'.chosen hin' hen.1 (by rw [hself]; exact hr) (by rw [hself]; exact hget)
      (by rw [hself]; exact hquorum)
    have hL := ((hin'.node i).leader (by rw [hself]; exact hr)).2
    rw [hself] at hch hL
    refine .inr ⟨_, _, hch, le_rfl, le_rfl, ?_⟩
    have hlen := hch.1.length_le
    rw [hL] at hlen ⊢
    exact prefix_agreeTo (prefix_refl _) hlen
  | accepted s req hcall ht hp ht' he hc =>
    subst hcall
    rw [ht', he]
    rw [he] at hc
    rcases hc with hle | ⟨hle, hlen⟩
    · exact (hcomplete.accepted_certified hcounted hen ht hp (h.node i)).put hmono
        le_rfl hle (prefix_refl _)
    · obtain ⟨hsent, -⟩ := hcomplete.inherited.wf.delivered_direct hen not_false
      exact (hcomplete.request_certified hen ht hp hle hlen (h.request _ _ _ hsent)).put hmono
        le_rfl le_rfl (prefix_refl _)

theorem Committed.put
    (hsent : ∀ dest msg, .action (.send dest msg) ∈ obs →
      RaftNode.SentMessage (c.nodes i) call n' dest msg)
    (happly : ∀ es, .action (.apply es) ∈ obs → ∀ e ∈ es, 1 ≤ e.index ∧
      e.index ≤ n'.log.commitIndex ∧ n'.log.entries[e.index - 1]? = some e) :
    Committed cfg L' (c.put i n' obs) := by
  have hnode := h.node_put hcomplete hin' hmono hcounted htracked' hen hstep hlead hterm
  refine ⟨forall_put_nodes (P := fun _ n => Certified cfg L' _ n.currentTerm n.log.commitIndex
    n.log.entries) hnode fun j _ => (h.node j).put hmono le_rfl le_rfl (prefix_refl _),
    fun j dest req hm => ?_, fun j es hm e he => ?_⟩
  · rcases mem_put_trace.1 hm with hold | ⟨-, hnew⟩
    · exact (h.request j dest req hold).put hmono le_rfl le_rfl (hmono _)
    cases hsent _ _ hnew with
    | request ps hr =>
      -- the request carries the commit index of the leader that sends it
      have hL := ((hin'.node i).leader (by rw [put_nodes_self]; exact hr)).2
      rw [put_nodes_self] at hL
      show Certified cfg L' _ n'.currentTerm n'.log.commitIndex (L' n'.currentTerm)
      rw [hL]
      exact hnode
  · rcases mem_put_trace.1 hm with hold | ⟨-, hnew⟩
    · obtain ⟨t, n, hch, hpos, hle, hslot⟩ := h.applied j es hold e he
      have hlen := hch.1.length_le
      refine ⟨t, n, hch.put hmono, hpos, hle, ?_⟩
      rw [← (prefix_agreeTo (hmono t) hlen).getElem? (by omega)]
      exact hslot
    · obtain ⟨hpos, hle, hslot⟩ := happly es hnew e he
      rcases hnode with hzero | ⟨t, n, hch, -, hkn, ha⟩
      · omega
      · exact ⟨t, n, hch, hpos, hle.trans hkn, by rw [← ha.getElem? (by omega)]; exact hslot⟩

end

/-! ## Whole runs -/

/-- Elections are safe, no leader is handed a successful acknowledgement of an earlier term, and no
addition wraps around. -/
def SafeStep (ov : Overflow) (c : Cluster) (e : ClusterEvent) : Prop :=
  c.SafeVoting ov e ∧ c.FreshAck e ∧ c.EventFits ov e
deriving Decidable

/-- **Committed is chosen, along every safe run.** -/
theorem committed_run {es : List ClusterEvent}
    (h : Throughout (exec cfg ov) (SafeStep ov) cfg.boot es) :
    ∃ L K, Complete cfg L K (run (exec cfg ov) cfg.boot es) ∧
      Committed cfg L (run (exec cfg ov) cfg.boot es) := by
  refine Throughout.induction (P := fun es =>
    ∃ L K, Complete cfg L K (run (exec cfg ov) cfg.boot es) ∧
      Committed cfg L (run (exec cfg ov) cfg.boot es)) ?_ ?_ h
  · exact ⟨_, _, complete_boot cfg, committed_boot cfg⟩
  · rintro es e hes ⟨L, K, hcomplete, hcommitted⟩ he
    have hall := throughout_concat.2 ⟨hes, he⟩
    have hone := oneLeader_run (hall.mono fun _ _ hs => hs.1)
    have hcounted := votesCounted_run (hes.mono fun _ _ hs => hs.1.1)
    have hbacked := votesBacked_run (hes.mono fun _ _ hs => hs.1)
    have htracked := matchTracked_run (hall.mono fun _ _ hs => hs.2.1)
    rw [run_concat] at hone htracked ⊢
    generalize run (exec cfg ov) cfg.boot es = c at *
    rcases exec_cases cfg ov c e with ⟨-, heq⟩ | ⟨hen, heq⟩
    · rw [heq]
      exact ⟨L, K, hcomplete, hcommitted⟩
    obtain ⟨L', K', hcomplete', hmono⟩ := hcomplete.exec hbacked he.2.2 hone
    refine ⟨L', K', hcomplete', ?_⟩
    have hin' := hcomplete'.inherited
    have hsound := hcomplete.inherited.wf.sound e.1
    rw [heq] at htracked hin' ⊢
    exact hcommitted.put hcomplete hin' hmono hcounted htracked hen
      (RaftNode.exec_commitStep ov hsound e.2)
      (fun hr hlt => RaftNode.exec_leader_commits hsound.indexed hr hlt)
      (RaftNode.exec_entriesStep hsound he.2.2.1).term_le
      (RaftNode.exec_sent ov hsound e.2)
      (fun _ hm => RaftNode.exec_apply_committed ov hsound e.2 hm)

/-- **State-machine safety**, for every cluster size and over every run in which elections are safe
and no leader is handed a successful acknowledgement of an earlier term: whatever two nodes apply at
one index is the same entry. -/
theorem state_machine_safety (cfg : ClusterConfig) (ov : Overflow) (es : List ClusterEvent)
    (h : Throughout (exec cfg ov) (SafeStep ov) cfg.boot es) :
    let c := run (exec cfg ov) cfg.boot es
    ∀ i j es₁ es₂, (i, .action (.apply es₁)) ∈ c.trace → (j, .action (.apply es₂)) ∈ c.trace →
      ∀ e ∈ es₁, ∀ f ∈ es₂, e.index = f.index → e.term = f.term ∧ e.command = f.command := by
  intro c i j es₁ es₂ h₁ h₂ e he f hf hidx
  obtain ⟨L, K, hcomplete, hcommitted⟩ := committed_run h
  have hcounted := votesCounted_run (h.mono fun _ _ hs => hs.1.1)
  obtain ⟨t, n, hch, hpos, hle, hslot⟩ := hcommitted.applied i es₁ h₁ e he
  obtain ⟨t', n', hch', -, hle', hslot'⟩ := hcommitted.applied j es₂ h₂ f hf
  have hagree := hcomplete.chosen_agree hcounted hch hch' hle (hidx ▸ hle')
  rw [hagree.getElem? (by omega), hidx, hslot'] at hslot
  cases hslot
  exact ⟨rfl, rfl⟩

/-- The no-op of leader 1 is committed, and its heartbeat lets node 2 apply it. -/
def noopApplied : List ClusterEvent :=
  noopCommitted ++ [(1, .tick), (2, .step 1 (.appendReq ⟨1, 1, 1, 1, [], 1⟩))]

theorem noop_applied_by_both :
    let c := run (exec .three .checked) ClusterConfig.three.boot noopApplied
    (1, .action (.apply [⟨1, 1, .noop⟩])) ∈ c.trace ∧
      (2, .action (.apply [⟨1, 1, .noop⟩])) ∈ c.trace ∧
      ∀ es, (2, .action (.apply es)) ∈ c.trace → ∀ f ∈ es, f.index = 1 → f.term = 1 := by
  have h1 : (1, .action (.apply [⟨1, 1, .noop⟩])) ∈ (run (exec .three .checked)
      ClusterConfig.three.boot noopApplied).trace := by
    decide +kernel
  refine ⟨h1, by decide +kernel, fun es hes f hf hidx => ?_⟩
  exact (state_machine_safety .three .checked noopApplied (by decide +kernel) 1 2 _ _ h1 hes
    ⟨1, 1, .noop⟩ (.head _) f hf hidx.symm).1.symm

/-- **Leader completeness**, over the same runs: a leader has every entry that a node of no later
term has committed. -/
theorem leader_has_committed (cfg : ClusterConfig) (ov : Overflow) (es : List ClusterEvent)
    (h : Throughout (exec cfg ov) (SafeStep ov) cfg.boot es) :
    let c := run (exec cfg ov) cfg.boot es
    ∀ i j, (c.nodes j).role = .leader → (c.nodes i).currentTerm ≤ (c.nodes j).currentTerm →
      ∀ k ≤ (c.nodes i).log.commitIndex, (c.nodes j).log.get k = (c.nodes i).log.get k := by
  intro c i j hrole hterm k hk
  obtain ⟨L, K, hcomplete, hcommitted⟩ := committed_run h
  have hcounted := votesCounted_run (h.mono fun _ _ hs => hs.1.1)
  obtain ⟨hled, hL⟩ := (hcomplete.inherited.node j).leader hrole
  have hne := (hcomplete.inherited.led_iff _).2 ⟨j, hled⟩
  rcases Nat.eq_zero_or_pos k with rfl | hpos
  · rfl
  rcases hcommitted.node i with hzero | ⟨t, n, hch, ht, hkn, hagree⟩
  · exact absurd (hk.trans_eq hzero) (Nat.not_le.2 hpos)
  · have hleader := hcomplete.leader_agrees hcounted hch (ht.trans hterm) hne (hk.trans hkn)
    rw [hL] at hleader
    rw [DecisionLog.get_of_pos hpos, DecisionLog.get_of_pos hpos]
    exact (hleader.trans (hagree.mono hk).symm).getElem? (by omega)

theorem noop_in_leader_log :
    let c := run (exec .three .checked) ClusterConfig.three.boot noopApplied
    (c.nodes 2).log.commitIndex = 1 ∧ (c.nodes 1).log.get 1 = (c.nodes 2).log.get 1 :=
  ⟨by decide +kernel, leader_has_committed .three .checked noopApplied (by decide +kernel) 2 1
    (by decide +kernel) (by decide +kernel) 1 (by decide +kernel)⟩

/-- Both leaders of the split brain take a proposal. Node 2 stores that of leader 1; to leader 3 it
acknowledges an empty request. -/
def splitBrainApplied : List ClusterEvent :=
  splitBrain ++
    [(1, .propose (.removePeer 2)), (3, .propose (.removePeer 1)),
     (1, .step 2 (.appendResp ⟨1, 2, false, 0⟩)),
     (2, .step 1 (.appendReq ⟨1, 1, 0, 0, [⟨1, 1, .noop⟩, ⟨1, 2, .removePeer 2⟩], 0⟩)),
     (1, .step 2 (.appendResp ⟨1, 2, true, 2⟩)),
     (2, .step 3 (.appendReq ⟨1, 3, 1, 1, [], 0⟩)),
     (3, .step 2 (.appendResp ⟨1, 2, true, 2⟩))]

/-- Nodes 1 and 3 apply different commands at index 2. -/
theorem different_commands_applied :
    let c := run (exec .three .checked) ClusterConfig.three.boot splitBrainApplied
    (1, .action (.apply [⟨1, 1, .noop⟩, ⟨1, 2, .removePeer 2⟩])) ∈ c.trace ∧
      (3, .action (.apply [⟨1, 1, .noop⟩, ⟨1, 2, .removePeer 1⟩])) ∈ c.trace := by
  decide +kernel

end Cluster

end Haltchain.Consensus

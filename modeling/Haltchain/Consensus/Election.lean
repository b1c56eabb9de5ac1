import Haltchain.Consensus.Network
import Haltchain.Consensus.Votes

/-! # Elections

A leader has counted a quorum of votes. `handle_vote_resp` does not compare the term of a granted
vote with that of the election (`FreshVote`), and a voter whose vote was erased may be asked again
(`VoteStands`). Otherwise two leaders of one term share a voter. -/

namespace Haltchain.Consensus

open Lib Finset

/-! ## What a call does to a candidacy -/

/-- The terms in which the observations show a node becoming leader. -/
def leaderships (obs : List Observation) : List Nat :=
  obs.filterMap fun
    | .action (.becameLeader t) => some t
    | _ => none

@[simp] theorem leaderships_append (obs obs' : List Observation) :
    leaderships (obs ++ obs') = leaderships obs ++ leaderships obs' := List.filterMap_append

variable {obs : List Observation} {t : Nat}

theorem mem_leaderships : t ∈ leaderships obs ↔ .action (.becameLeader t) ∈ obs := by
  unfold leaderships
  rw [List.mem_filterMap]
  constructor
  · rintro ⟨o, ho, h⟩
    split at h
    · rw [← Option.some.inj h]
      exact ho
    · simp at h
  · intro h
    exact ⟨_, h, rfl⟩

@[simp] theorem leaderships_send (dest : Nat) (msg : RaftMessage) :
    leaderships [.action (.send dest msg)] = [] := rfl

variable {n : RaftNode}

namespace RaftNode

@[simp] theorem leaderships_heartbeats (n : RaftNode) :
    leaderships (n.heartbeats.map .action) = [] :=
  List.filterMap_eq_nil_iff.2 (forall_heartbeats fun _ _ => rfl)

@[simp] theorem leaderships_appendActions (n : RaftNode) (dest : Nat) :
    leaderships ((n.appendActions dest).map .action) = [] :=
  List.filterMap_eq_nil_iff.2 (forall_appendActions fun _ => rfl)

@[simp] theorem leaderships_stepDown (n : RaftNode) (term : Nat) :
    leaderships ((n.stepDown term).map .action) = [] :=
  List.filterMap_eq_nil_iff.2 (forall_stepDown rfl)

@[simp] theorem leaderships_applyActions (batch : List LogEntry) :
    leaderships ((applyActions batch).map .action) = [] :=
  List.filterMap_eq_nil_iff.2 (forall_applyActions rfl)

/-- Role, term and counted votes after a call, with the leaderships announced. -/
inductive Candidacy (ov : Overflow) (n : RaftNode) (call : Call) (n' : RaftNode)
    (obs : List Observation) : Prop
  | same (hl : leaderships obs = []) (hr : n'.role = n.role)
      (ht : n'.currentTerm = n.currentTerm) (hv : n'.votesReceived = n.votesReceived)
  | followed (hl : leaderships obs = []) (hr : n'.role = .follower)
      (ht : n.currentTerm ≤ n'.currentTerm)
  | campaign (hl : leaderships obs = []) (hcall : call = .tick) (hd : n.electionDue)
      (ha : ov.add n.currentTerm 1 = some n'.currentTerm)
      (hs : .electionStarted n'.currentTerm ∈ obs) (hr : n'.role = .candidate)
      (hv : n'.votesReceived = {n.id})
  | campaignWon (hl : leaderships obs = [n'.currentTerm]) (hcall : call = .tick)
      (hd : n.electionDue) (ha : ov.add n.currentTerm 1 = some n'.currentTerm)
      (hs : .electionStarted n'.currentTerm ∈ obs) (hr : n'.role = .leader) (hq : n.quorum ≤ 1)
  | counted (hl : leaderships obs = []) (s : Nat) (resp : RequestVoteResp)
      (hcall : call = .step s (.voteResp resp)) (hle : resp.term ≤ n.currentTerm)
      (hc : n.role = .candidate) (hg : resp.voteGranted = true) (hr : n'.role = .candidate)
      (ht : n'.currentTerm = n.currentTerm)
      (hv : n'.votesReceived = insert resp.fromId n.votesReceived)
  | won (hl : leaderships obs = [n'.currentTerm]) (s : Nat) (resp : RequestVoteResp)
      (hcall : call = .step s (.voteResp resp)) (hle : resp.term ≤ n.currentTerm)
      (hc : n.role = .candidate) (hg : resp.voteGranted = true) (hr : n'.role = .leader)
      (ht : n'.currentTerm = n.currentTerm)
      (hq : n.quorum ≤ (insert resp.fromId n.votesReceived).card)

theorem Transition.candidacy {ov : Overflow} {n' : RaftNode} {call : Call}
    (htr : Transition ov n call n' obs) : Candidacy ov n call n' obs := by
  cases htr with
  | heartbeat => exact .same (leaderships_heartbeats n) rfl rfl rfl
  | @campaign t hd ht =>
    refine .campaign rfl rfl hd ?_ ?_ (campaign_role n t) (campaign_votesReceived n t)
    · rw [campaign_currentTerm]
      exact ht
    · rw [campaign_currentTerm]
      exact List.mem_cons_self ..
  | @campaignWon t hd ht hq =>
    have hterm : (n.campaign t).lead.currentTerm = t := by simp
    refine .campaignWon ?_ rfl hd (by rw [hterm]; exact ht) ?_ (lead_role _) hq
    · rw [hterm]
      exact congrArg (t :: ·) (leaderships_heartbeats _)
    · rw [hterm]
      exact List.mem_cons_self ..
  | proposed c =>
    exact .same (leaderships_heartbeats _) (proposed_role n c) (proposed_currentTerm n c)
      (proposed_votesReceived n c)
  | voteDeniedNewer _ _ ht | voteGrantedNewer _ _ ht | voteRespNewer _ _ ht | ackNewer _ _ ht
  | appendMismatch _ _ ht =>
    exact .followed (by simp [voteReply, appendReply]) (by simp) (by simp; omega)
  | voteGranted s req =>
    exact .same rfl (grant_role n req) (grant_currentTerm n req) (grant_votesReceived n req)
  | voteCounted s resp ht hr hg => exact .counted rfl s resp rfl ht hr hg hr rfl rfl
  | voteWon s resp ht hr hg hq =>
    have hterm : (n.countVote resp.fromId).lead.currentTerm = n.currentTerm := lead_currentTerm _
    refine .won ?_ s resp rfl ht hr hg (lead_role _) hterm hq
    rw [hterm]
    exact congrArg (n.currentTerm :: ·) (leaderships_heartbeats _)
  | appendAccepted s req ht =>
    exact .followed (by simp [appendReply]) (accept_role n req) (by simpa using ht)
  | ackCommitted =>
    exact .same (leaderships_applyActions _) (commitTo_role _ _) (commitTo_currentTerm _ _)
      (commitTo_votesReceived _ _)
  | nacked => exact .same (leaderships_appendActions _ _) rfl rfl rfl
  | _ => exact .same rfl rfl rfl rfl

theorem exec_candidacy (ov : Overflow) (h : n.Sound) (call : Call) :
    Candidacy ov n call (n.exec ov call).1 (n.exec ov call).2 := by
  rcases exec_cases ov h.indexed call with ⟨-, htr⟩ | ⟨-, hc, hobs⟩
  · exact htr.candidacy
  rw [hobs]
  generalize (n.exec ov call).1 = n' at hc
  cases hc with
  | restarted _ timeout =>
    exact .followed rfl (restart_role n timeout) (by rw [h.restart_currentTerm])
  | appendCrashed s req timeout ht =>
    exact .followed rfl (restart_role _ timeout)
      (by rw [(h.accept req).restart_currentTerm, accept_currentTerm]; exact ht)

end RaftNode

/-! ## Votes and leaders of a cluster -/

namespace Cluster

variable {cfg : ClusterConfig} {ov : Overflow} {c : Cluster}

/-- What has been seen of node `i`. -/
def seen (c : Cluster) (i : Nat) : List Observation :=
  (c.trace.filter (·.1 = i)).map (·.2)

/-- The votes node `q` has cast, as candidate and term. -/
def cast (c : Cluster) (q : Nat) : List (Nat × Nat) := ballots q (c.seen q)

/-- Node `i` became leader of `term`. -/
def led (c : Cluster) (i term : Nat) : Prop := (i, .action (.becameLeader term)) ∈ c.trace
deriving Decidable

variable {i : Nat}

theorem mem_seen {o : Observation} : o ∈ c.seen i ↔ (i, o) ∈ c.trace := by
  unfold seen
  simp only [List.mem_map, List.mem_filter, decide_eq_true_eq]
  constructor
  · rintro ⟨p, ⟨hp, rfl⟩, rfl⟩
    exact hp
  · intro h
    exact ⟨(i, o), ⟨h, rfl⟩, rfl⟩

theorem put_seen_self (i : Nat) (n : RaftNode) (obs : List Observation) :
    (c.put i n obs).seen i = c.seen i ++ obs := by
  simp [seen, put, List.filter_map, Function.comp_def]

variable {j : Nat}

theorem put_seen_ne (hj : j ≠ i) (n : RaftNode) (obs : List Observation) :
    (c.put i n obs).seen j = c.seen j := by
  simp [seen, put, List.filter_map, Function.comp_def, hj.symm]

theorem put_cast_self (i : Nat) (n : RaftNode) (obs : List Observation) :
    (c.put i n obs).cast i = c.cast i ++ ballots i obs := by
  unfold cast
  rw [put_seen_self, ballots_append]

theorem put_cast_ne (hj : j ≠ i) (n : RaftNode) (obs : List Observation) :
    (c.put i n obs).cast j = c.cast j := by
  unfold cast
  rw [put_seen_ne hj]

theorem mem_put_cast {q : Nat} {b : Nat × Nat} :
    b ∈ (c.put i n obs).cast q ↔ b ∈ c.cast q ∨ (q = i ∧ b ∈ ballots i obs) := by
  by_cases hq : q = i
  · rw [hq, put_cast_self]
    simp
  · rw [put_cast_ne hq]
    simp [hq]

theorem cast_put_mono {q : Nat} :
    c.cast q ⊆ (c.put i n obs).cast q := fun _ hb => mem_put_cast.2 (.inl hb)

theorem put_led : (c.put i n obs).led j t ↔ c.led j t ∨ (j = i ∧ t ∈ leaderships obs) := by
  unfold led
  rw [mem_put_trace, mem_leaderships]

/-- A granted vote handed to a candidate was granted in its current term. -/
def FreshVote (c : Cluster) (e : ClusterEvent) : Prop :=
  match e.2 with
  | .step _ (.voteResp resp) =>
    resp.voteGranted = true → (c.nodes e.1).role = .candidate →
      (c.nodes e.1).currentTerm ≤ resp.term
  | _ => True

/-- A node asked in its current term, with no vote on record, has voted for no other in it. -/
def VoteStands (c : Cluster) (e : ClusterEvent) : Prop :=
  match e.2 with
  | .step _ (.voteReq req) =>
    req.term = (c.nodes e.1).currentTerm → (c.nodes e.1).logOk req →
      (c.nodes e.1).votedFor = none →
        ∀ b ∈ c.cast e.1, b.2 = req.term → b.1 = req.candidateId
  | _ => True

instance (c : Cluster) : (e : ClusterEvent) → Decidable (c.FreshVote e)
  | (_, .step _ (.voteResp _)) => inferInstanceAs (Decidable (_ → _ → _))
  | (_, .step _ (.voteReq _)) | (_, .step _ (.appendReq _)) | (_, .step _ (.appendResp _))
  | (_, .tick) | (_, .propose _) | (_, .restart _) => instDecidableTrue

instance (c : Cluster) : (e : ClusterEvent) → Decidable (c.VoteStands e)
  | (i, .step _ (.voteReq _)) => inferInstanceAs (Decidable (_ → _ → _ → ∀ b ∈ c.cast i, _ → _))
  | (_, .step _ (.voteResp _)) | (_, .step _ (.appendReq _)) | (_, .step _ (.appendResp _))
  | (_, .tick) | (_, .propose _) | (_, .restart _) => instDecidableTrue

/-! ## Counted votes -/

/-- A set of members as large as a quorum of `i`, with `i` in it, that voted for `i` in `term`. -/
def ElectedBy (cfg : ClusterConfig) (c : Cluster) (i term : Nat) (voters : Finset Nat) : Prop :=
  voters ⊆ cfg.ids ∧ i ∈ voters ∧ (c.nodes i).quorum ≤ voters.card ∧
    ∀ q ∈ voters, (i, term) ∈ c.cast q

/-- What node `i`, in state `n`, has counted was cast for it in its term. -/
def CountsOwn (cfg : ClusterConfig) (c : Cluster) (i : Nat) (n : RaftNode) : Prop :=
  n.role = .candidate → i ∈ n.votesReceived ∧ n.votesReceived ⊆ cfg.ids ∧
    ∀ q ∈ n.votesReceived, (i, n.currentTerm) ∈ c.cast q

/-- Candidates count their own votes, and every leader was elected. -/
structure VotesCounted (cfg : ClusterConfig) (c : Cluster) : Prop where
  wf : c.WellFormed cfg
  counted : ∀ i, CountsOwn cfg c i (c.nodes i)
  elected : ∀ i term, c.led i term → ∃ voters, ElectedBy cfg c i term voters

theorem quorum_exec (hwf : c.WellFormed cfg) (ov : Overflow) (e : ClusterEvent) (i : Nat) :
    ((c.exec cfg ov e).nodes i).quorum = (c.nodes i).quorum := by
  unfold RaftNode.quorum
  rw [(hwf.exec ov e).peers, hwf.peers]

theorem WellFormed.granted_cast (h : c.WellFormed cfg) {s : Nat} {resp : RequestVoteResp}
    (he : c.enabled cfg (i, .step s (.voteResp resp))) (hg : resp.voteGranted = true) :
    s ∈ cfg.ids ∧ resp.fromId = s ∧ (i, resp.term) ∈ c.cast s := by
  obtain ⟨hsent, hfrom⟩ := h.delivered_direct he not_false
  refine ⟨h.member _ hsent, hfrom, ?_⟩
  unfold cast ballots
  rw [List.mem_filterMap]
  exact ⟨_, mem_seen.2 hsent, by simp [ballot, hg]⟩

theorem ElectedBy.put {term : Nat} {voters : Finset Nat} (h : ElectedBy cfg c j term voters)
    (hq : ((c.put i n obs).nodes j).quorum = (c.nodes j).quorum) :
    ElectedBy cfg (c.put i n obs) j term voters := by
  obtain ⟨hsub, hself, hcard, hcast⟩ := h
  exact ⟨hsub, hself, hq ▸ hcard, fun q hv => cast_put_mono (hcast q hv)⟩

/-- An election that starts casts the candidate's own vote. -/
theorem started_cast (hs : .electionStarted t ∈ obs) : (i, t) ∈ (c.put i n obs).cast i := by
  rw [put_cast_self]
  refine List.mem_append_right _ ?_
  unfold ballots
  rw [List.mem_filterMap]
  exact ⟨_, hs, rfl⟩

theorem CountsOwn.put {m : RaftNode} (h : CountsOwn cfg c j m) :
    CountsOwn cfg (c.put i n obs) j m := by
  intro hr
  obtain ⟨hself, hsub, hcast⟩ := h hr
  exact ⟨hself, hsub, fun q hq => cast_put_mono (hcast q hq)⟩

/-- A vote handed to a candidate in the term of its election adds to the count. -/
theorem VotesCounted.add_vote (h : VotesCounted cfg c) {s : Nat} {resp : RequestVoteResp}
    (hen : c.enabled cfg (i, .step s (.voteResp resp)))
    (hf : c.FreshVote (i, .step s (.voteResp resp))) (hle : resp.term ≤ (c.nodes i).currentTerm)
    (hr : (c.nodes i).role = .candidate) (hg : resp.voteGranted = true) :
    i ∈ insert resp.fromId (c.nodes i).votesReceived ∧
      insert resp.fromId (c.nodes i).votesReceived ⊆ cfg.ids ∧
      ∀ q ∈ insert resp.fromId (c.nodes i).votesReceived,
        (i, (c.nodes i).currentTerm) ∈ c.cast q := by
  have hge : (c.nodes i).currentTerm ≤ resp.term := hf hg hr
  obtain ⟨hmem, hfrom, hcast⟩ := h.wf.granted_cast hen hg
  rw [← hfrom] at hmem hcast
  rw [le_antisymm hle hge] at hcast
  obtain ⟨hself, hsub, hvotes⟩ := h.counted i hr
  refine ⟨mem_insert_of_mem hself, insert_subset hmem hsub, fun q hq => ?_⟩
  rcases mem_insert.1 hq with rfl | hq
  · exact hcast
  · exact hvotes q hq

/-- Only the called node and its new leaderships need a look. -/
theorem VotesCounted.put (h : VotesCounted cfg c) {n' : RaftNode}
    (hwf' : (c.put i n' obs).WellFormed cfg)
    (hquorum : ∀ j, ((c.put i n' obs).nodes j).quorum = (c.nodes j).quorum)
    (hown : CountsOwn cfg (c.put i n' obs) i n')
    (hnew : ∀ t ∈ leaderships obs, ∃ voters, ElectedBy cfg (c.put i n' obs) i t voters) :
    VotesCounted cfg (c.put i n' obs) where
  wf := hwf'
  counted := forall_put_nodes (P := CountsOwn cfg _) hown fun j _ => (h.counted j).put
  elected := by
    intro j t hl
    rcases put_led.1 hl with hold | ⟨hj, hnow⟩
    · obtain ⟨voters, hv⟩ := h.elected j t hold
      exact ⟨voters, hv.put (hquorum j)⟩
    · rw [hj]
      exact hnew t hnow

/-- **Counted votes stay votes of the current election** under an event that hands no granted vote
of an earlier term to a candidate. -/
theorem VotesCounted.exec (h : VotesCounted cfg c) {e : ClusterEvent} (hf : c.FreshVote e) :
    VotesCounted cfg (c.exec cfg ov e) := by
  have hwf' := h.wf.exec ov e
  have hquorum := quorum_exec h.wf ov e
  rcases exec_cases cfg ov c e with ⟨-, heq⟩ | ⟨hen, heq⟩
  · rw [heq]
    exact h
  rw [heq] at hwf' hquorum ⊢
  obtain ⟨i, call⟩ := e
  have hcand := RaftNode.exec_candidacy ov (h.wf.sound i) call
  have hid := h.wf.id i
  generalize ((c.nodes i).exec ov call).1 = n' at hcand hwf' hquorum ⊢
  generalize ((c.nodes i).exec ov call).2 = obs at hcand hwf' hquorum ⊢
  have hqi : n'.quorum = (c.nodes i).quorum := by
    have hq := hquorum i
    rw [put_nodes_self] at hq
    exact hq
  suffices hnew : CountsOwn cfg (c.put i n' obs) i n' ∧
      ∀ t ∈ leaderships obs, ∃ voters, ElectedBy cfg (c.put i n' obs) i t voters from
    h.put hwf' hquorum hnew.1 hnew.2
  have hnone : leaderships obs = [] →
      ∀ t ∈ leaderships obs, ∃ voters, ElectedBy cfg (c.put i n' obs) i t voters := by
    intro hl t ht
    rw [hl] at ht
    simp at ht
  cases hcand with
  | same hl hr ht hv =>
    refine ⟨fun hrole => ?_, hnone hl⟩
    rw [hv, ht]
    exact (h.counted i).put (hr ▸ hrole)
  | followed hl hr =>
    refine ⟨fun hrole => ?_, hnone hl⟩
    exact absurd (hr.symm.trans hrole) (by decide)
  | campaign hl hcall hd ha hs hr hv =>
    refine ⟨fun _ => ?_, hnone hl⟩
    rw [hv, hid]
    refine ⟨mem_singleton_self i, singleton_subset_iff.2 hen.1, fun q hq => ?_⟩
    obtain rfl := mem_singleton.1 hq
    exact started_cast hs
  | campaignWon hl hcall hd ha hs hr hq =>
    refine ⟨fun hrole => absurd (hr.symm.trans hrole) (by decide), fun t ht => ?_⟩
    rw [hl, List.mem_singleton] at ht
    subst ht
    refine ⟨{i}, singleton_subset_iff.2 hen.1, mem_singleton_self i, ?_, fun q hq => ?_⟩
    · rw [put_nodes_self, hqi]
      exact hq
    · obtain rfl := mem_singleton.1 hq
      exact started_cast hs
  | counted hl s resp hcall hle hc hg hr ht hv =>
    subst hcall
    obtain ⟨hself, hsub, hcast⟩ := h.add_vote hen hf hle hc hg
    refine ⟨fun _ => ?_, hnone hl⟩
    rw [hv, ht]
    exact ⟨hself, hsub, fun q hq => cast_put_mono (hcast q hq)⟩
  | won hl s resp hcall hle hc hg hr ht hq =>
    subst hcall
    obtain ⟨hself, hsub, hcast⟩ := h.add_vote hen hf hle hc hg
    refine ⟨fun hrole => absurd (hr.symm.trans hrole) (by decide), fun t htm => ?_⟩
    rw [hl, List.mem_singleton] at htm
    subst htm
    refine ⟨insert resp.fromId (c.nodes i).votesReceived, hsub, hself, ?_, fun q hv => ?_⟩
    · rw [put_nodes_self, hqi]
      exact hq
    · rw [ht]
      exact cast_put_mono (hcast q hv)

theorem votesCounted_boot (cfg : ClusterConfig) : VotesCounted cfg cfg.boot where
  wf := wellFormed_boot cfg
  counted := fun _ hr => absurd (show RaftRole.follower = .candidate from hr) (by decide)
  elected := fun _ _ hl => absurd hl (by simp [led, ClusterConfig.boot])

theorem votesCounted_run {es : List ClusterEvent}
    (hf : Throughout (exec cfg ov) FreshVote cfg.boot es) :
    VotesCounted cfg (run (exec cfg ov) cfg.boot es) :=
  hf.invariant (votesCounted_boot cfg) (fun _ _ h hf => h.exec hf)

/-- **Every leader of a term was voted for in that term by a quorum**, itself among them, over every
run that hands no granted vote of an earlier term to a candidate. -/
theorem leader_elected_by_quorum (cfg : ClusterConfig) (ov : Overflow) (es : List ClusterEvent)
    (hf : Throughout (exec cfg ov) FreshVote cfg.boot es) :
    let c := run (exec cfg ov) cfg.boot es
    ∀ i term, c.led i term → ∃ voters : Finset Nat, voters ⊆ cfg.ids ∧ i ∈ voters ∧
      (c.nodes i).quorum ≤ voters.card ∧ ∀ q ∈ voters, (i, term) ∈ c.cast q :=
  (votesCounted_run hf).elected

/-- Node 1 campaigns in term 1 and gets the vote of node 2. -/
def electedInFirstTerm : List ClusterEvent :=
  timeoutOf 1 ++ [(2, .step 1 (.voteReq ⟨1, 1, 0, 0⟩)), (1, .step 2 (.voteResp ⟨1, 2, true⟩))]

theorem first_leader_elected_by_quorum :
    let c := run (exec .three .checked) ClusterConfig.three.boot electedInFirstTerm
    c.led 1 1 ∧ ∃ voters : Finset Nat, voters ⊆ {1, 2, 3} ∧ 1 ∈ voters ∧
      (c.nodes 1).quorum ≤ voters.card ∧ ∀ q ∈ voters, (1, 1) ∈ c.cast q := by
  have hled : (run (exec .three .checked) ClusterConfig.three.boot electedInFirstTerm).led 1 1 := by
    decide +kernel
  exact ⟨hled, leader_elected_by_quorum .three .checked electedInFirstTerm (by decide +kernel)
    1 1 hled⟩

/-- The vote of node 2 for term 1 is under way when node 1 campaigns in term 2. -/
def electedByOldVote : List ClusterEvent :=
  timeoutOf 1 ++ [(2, .step 1 (.voteReq ⟨1, 1, 0, 0⟩))] ++ timeoutOf 1 ++
    [(1, .step 2 (.voteResp ⟨1, 2, true⟩))]

/-- Node 1 leads term 2 on that vote; it alone voted for itself in term 2. -/
theorem leader_elected_by_old_vote :
    let c := run (exec .three .checked) ClusterConfig.three.boot electedByOldVote
    c.led 1 2 ∧ ¬ ∃ voters : Finset Nat, voters ⊆ {1, 2, 3} ∧
      (c.nodes 1).quorum ≤ voters.card ∧ ∀ q ∈ voters, (1, 2) ∈ c.cast q := by
  refine ⟨by decide +kernel, ?_⟩
  rintro ⟨voters, hsub, hcard, hcast⟩
  have hvotes : ∀ q ∈ ({1, 2, 3} : Finset Nat),
      (1, 2) ∈ (run (exec .three .checked) ClusterConfig.three.boot
        electedByOldVote).cast q → q = 1 := by
    decide +kernel
  have hquorum : ((run (exec .three .checked) ClusterConfig.three.boot
      electedByOldVote).nodes 1).quorum = 2 := by
    decide +kernel
  have hone : voters ⊆ {1} := fun q hq =>
    mem_singleton.2 (hvotes q (hsub hq) (hcast q hq))
  have hle := card_le_card hone
  rw [card_singleton] at hle
  omega

/-! ## One leader per term -/

/-- No two nodes became leader of one term. -/
def OneLeaderPerTerm (c : Cluster) : Prop := ∀ t i j, c.led i t → c.led j t → i = j

/-- Every vote is backed by its node's record, or was erased; there is one per term. -/
structure VotesBacked (cfg : ClusterConfig) (c : Cluster) : Prop where
  wf : c.WellFormed cfg
  backed : ∀ q, Backed (fun _ _ => True) (c.nodes q).currentTerm (c.nodes q).votedFor (c.cast q)
  one : ∀ q, OnePerTerm (c.cast q)

theorem VotesBacked.exec (h : VotesBacked cfg c) {e : ClusterEvent} (hv : c.VoteStands e)
    (hfit : (c.nodes e.1).TermFits ov e.2) : VotesBacked cfg (c.exec cfg ov e) := by
  have hwf' := h.wf.exec ov e
  rcases exec_cases cfg ov c e with ⟨-, heq⟩ | ⟨hen, heq⟩
  · rw [heq]
    exact h
  rw [heq] at hwf' ⊢
  obtain ⟨i, call⟩ := e
  have hstep := RaftNode.exec_voteStep ov (h.wf.sound i) call
  rw [h.wf.id] at hstep
  have hnew := hstep.backed (fun _ _ => True) (fun _ _ => True) hfit
    (fun _ _ h => h) (fun _ _ _ _ _ _ => trivial)
    (by
      -- the erased vote was for the candidate that asks
      rintro s req x rfl ht hl hnone hx -
      exact hv ht hl hnone (x, (c.nodes i).currentTerm) hx ht.symm)
    (h.backed i) (h.one i)
  refine ⟨hwf', fun q => ?_, fun q => ?_⟩
  · by_cases hq : q = i
    · rw [hq, put_nodes_self, put_cast_self]
      exact hnew.1
    · rw [put_nodes_ne hq, put_cast_ne hq]
      exact h.backed q
  · by_cases hq : q = i
    · rw [hq, put_cast_self]
      exact hnew.2
    · rw [put_cast_ne hq]
      exact h.one q

theorem votesBacked_boot (cfg : ClusterConfig) : VotesBacked cfg cfg.boot where
  wf := wellFormed_boot cfg
  backed := fun _ _ _ hx => absurd hx (by simp [cast, seen, ClusterConfig.boot])
  one := fun _ _ _ _ hx => absurd hx (by simp [cast, seen, ClusterConfig.boot])

/-- More than half of the members have the property. -/
def Majority (cfg : ClusterConfig) (P : Nat → Prop) : Prop :=
  ∃ Q : Finset Nat, Q ⊆ cfg.ids ∧ cfg.ids.card < 2 * Q.card ∧ ∀ q ∈ Q, P q

theorem Majority.mono {P P' : Nat → Prop} (h : Majority cfg P) (hP : ∀ q, P q → P' q) :
    Majority cfg P' := by
  obtain ⟨Q, hsub, hcard, hall⟩ := h
  exact ⟨Q, hsub, hcard, fun q hq => hP q (hall q hq)⟩

theorem Majority.meet {P P' : Nat → Prop} (h : Majority cfg P) (h' : Majority cfg P') :
    ∃ q, P q ∧ P' q := by
  obtain ⟨A, hA, hcA, hPA⟩ := h
  obtain ⟨B, hB, hcB, hPB⟩ := h'
  obtain ⟨q, hq⟩ := inter_nonempty_of_card_lt_card_add_card hA hB (by omega)
  obtain ⟨hqA, hqB⟩ := mem_inter.1 hq
  exact ⟨q, hPA q hqA, hPB q hqB⟩

/-- A quorum of any member is a majority of the cluster. -/
theorem majority_of_quorum (hwf : c.WellFormed cfg) (hi : i ∈ cfg.ids) {Q : Finset Nat}
    (hsub : Q ⊆ cfg.ids) (hcard : (c.nodes i).quorum ≤ Q.card) {P : Nat → Prop}
    (hP : ∀ q ∈ Q, P q) : Majority cfg P := by
  have hpeers : cfg.ids.erase i = (cfg.peers i).toFinset := by
    ext x
    rw [mem_erase, List.mem_toFinset, cfg.mem_peers i hi x, and_comm]
  have hlen : (cfg.peers i).length = cfg.ids.card - 1 := by
    rw [← card_erase_of_mem hi, hpeers, List.toFinset_card_of_nodup (cfg.nodup_peers i hi)]
  unfold RaftNode.quorum at hcard
  rw [hwf.peers] at hcard
  exact ⟨Q, hsub, by omega, hP⟩

/-- A leader was voted for by a majority. -/
theorem VotesCounted.majority (h : VotesCounted cfg c) (hl : c.led i t) :
    Majority cfg (fun q => (i, t) ∈ c.cast q) := by
  obtain ⟨voters, hsub, hself, hcard, hcast⟩ := h.elected i t hl
  exact majority_of_quorum h.wf (hsub hself) hsub hcard hcast

/-- Two leaders of one term share a voter, and the voter has one vote. -/
theorem oneLeader_of_votes (hc : VotesCounted cfg c) (hb : VotesBacked cfg c) :
    c.OneLeaderPerTerm := by
  intro t i j hi hj
  obtain ⟨q, hqi, hqj⟩ := (hc.majority hi).meet (hc.majority hj)
  exact hb.one q t i j hqi hqj

/-- The three conditions under which elections are safe. -/
def SafeVoting (ov : Overflow) (c : Cluster) (e : ClusterEvent) : Prop :=
  c.FreshVote e ∧ c.VoteStands e ∧ (c.nodes e.1).TermFits ov e.2
deriving Decidable

section

variable {es : List ClusterEvent} (h : Throughout (exec cfg ov) (SafeVoting ov) cfg.boot es)

include h

theorem votesBacked_run : VotesBacked cfg (run (exec cfg ov) cfg.boot es) :=
  h.invariant (votesBacked_boot cfg) (fun _ _ hb hc => hb.exec hc.2.1 hc.2.2)

theorem oneLeader_run : (run (exec cfg ov) cfg.boot es).OneLeaderPerTerm :=
  oneLeader_of_votes (votesCounted_run (h.mono fun _ _ hc => hc.1)) (votesBacked_run h)

end

/-- **Election safety**, for every cluster size and over every run in which no candidate is handed a
granted vote of an earlier term, no node whose vote was erased is asked by another candidate in the
same term, and no term wraps around. -/
theorem election_safety (cfg : ClusterConfig) (ov : Overflow) (es : List ClusterEvent)
    (h : Throughout (exec cfg ov) (SafeVoting ov) cfg.boot es) :
    ∀ t i j, (run (exec cfg ov) cfg.boot es).led i t →
      (run (exec cfg ov) cfg.boot es).led j t → i = j :=
  oneLeader_run h

/-- Node 1 leads term 1; node 3 campaigned in term 1 as well, and leads term 2 in the end. -/
theorem second_leader_in_second_term :
    let c := run (exec .three .checked) ClusterConfig.three.boot
      (electedInFirstTerm ++ timeoutOf 3 ++ timeoutOf 3 ++
        [(2, .step 3 (.voteReq ⟨2, 3, 0, 0⟩)), (3, .step 2 (.voteResp ⟨2, 2, true⟩))])
    c.led 1 1 ∧ c.led 3 2 ∧ ∀ i, c.led i 2 → i = 3 := by
  have hled : (run (exec .three .checked) ClusterConfig.three.boot
      (electedInFirstTerm ++ timeoutOf 3 ++ timeoutOf 3 ++
        [(2, .step 3 (.voteReq ⟨2, 3, 0, 0⟩)),
         (3, .step 2 (.voteResp ⟨2, 2, true⟩))])).led 3 2 := by
    decide +kernel
  refine ⟨by decide +kernel, hled, fun i hi => ?_⟩
  exact election_safety .three .checked _ (by decide +kernel) 2 i 3 hi hled

/-- Nodes 1 and 3 campaign in term 1. Node 2 votes for 1, hears its heartbeat, then is asked by
3. -/
def splitBrain : List ClusterEvent :=
  timeoutOf 3 ++ electedInFirstTerm ++
    [(2, .step 1 (.appendReq ⟨1, 1, 1, 1, [], 0⟩)),
     (2, .step 3 (.voteReq ⟨1, 3, 0, 0⟩)),
     (3, .step 2 (.voteResp ⟨1, 2, true⟩))]

/-- Both become leader of term 1. -/
theorem two_leaders_in_one_term :
    let c := run (exec .three .checked) ClusterConfig.three.boot splitBrain
    c.led 1 1 ∧ c.led 3 1 := by
  decide +kernel

end Cluster

end Haltchain.Consensus

import Haltchain.Consensus.Safety

/-! # Requests in any order

Every request of a leader reaches up to the end of the log it was cut from. A follower that takes
one holds a prefix of that leader's log, which other requests of the term only make longer. -/

namespace Haltchain.Consensus

open Lib Cluster List

namespace RaftNode

variable {ov : Overflow} {n : RaftNode} {s : Nat} {req : AppendEntriesReq}

/-- The request passes the term check and the consistency check. -/
def Accepts (n : RaftNode) (req : AppendEntriesReq) : Prop :=
  n.currentTerm ≤ req.term ∧ n.prevOk req
deriving Decidable

/-- The entries after a request, also when the node goes down over it. -/
theorem exec_appendReq_entries (ov : Overflow) (h : n.Sound) (s : Nat) (req : AppendEntriesReq) :
    (n.exec ov (.step s (.appendReq req))).1.log.entries =
      if n.Accepts req then (n.merged req).entries else n.log.entries := by
  simp only [exec, step, handleAppendReq_eq]
  by_cases hlt : req.term < n.currentTerm
  · rw [if_pos hlt, if_neg fun ha => absurd ha.1 (by omega)]
  rw [if_neg hlt]
  by_cases hp : n.prevOk req
  · rw [if_pos hp, if_pos ⟨by omega, hp⟩, appendNewEntries_eq]
    cases hb : (n.merged req).takeUnapplied with
    | none =>
      rw [(h.accept req).restart_entries, accept_log]
    | some lb =>
      obtain ⟨heq, -, -⟩ := (merged_indexed h.indexed req).takeUnapplied_eq hb
      dsimp only
      rw [heq]
  · rw [if_neg hp, if_neg fun ha => hp ha.2]
    simp

end RaftNode

namespace Cluster

variable {cfg : ClusterConfig} {ov : Overflow} {c : Cluster} {L : Nat → List LogEntry}

/-- **A follower that takes a request holds a prefix of its leader's log**, at least up to the end
of the request, and has lost nothing of a prefix it held before. -/
theorem Inherited.accepts (h : Inherited cfg L c) {j s : Nat} {req : AppendEntriesReq}
    (he : c.enabled cfg (j, .step s (.appendReq req))) (ha : (c.nodes j).Accepts req) :
    ((c.nodes j).merged req).entries <+: L req.term ∧
      req.prevLogIdx + req.entries.length ≤ ((c.nodes j).merged req).entries.length ∧
      ((c.nodes j).log.entries <+: L req.term →
        (c.nodes j).log.entries <+: ((c.nodes j).merged req).entries) := by
  obtain ⟨m, hcut, hcase⟩ := h.accepted he ha.2
  have hlen := hcut.length_le
  have hcover : req.prevLogIdx + req.entries.length ≤ m := by
    rcases hcut.cut with ⟨hle, hent, -⟩ | ⟨h1, h0⟩
    · rw [hent, length_drop, length_take]
      omega
    -- the request starts past the end of the leader's log: nobody holds an entry of term zero
    exfalso
    rcases ha.2 with hzero | hsome
    · omega
    · obtain ⟨a, hget, hterm⟩ := Option.map_eq_some_iff.1 hsome
      have := ((h.node j).terms a (mem_of_getElem? (DecisionLog.get_eq_some.1 hget).2)).1
      omega
  rcases hcase with ⟨hkeep, hagree⟩ | ⟨htake, hnot⟩
  · rw [hkeep]
    -- up to the end of the request it agrees, and there is an entry of the leader's term
    obtain ⟨e, hslot, hterm⟩ := hcut.last
    have hpos := hcut.pos
    have hslot' : (c.nodes j).log.entries[m - 1]? = some e := by
      rw [hagree.getElem? (by omega), hslot]
    have hpre := (h.node j).lineage.prefix_of_le hslot' hterm
      fun x hx => ((h.node j).terms x hx).2.trans ha.1
    exact ⟨hpre, hcover.trans hagree.1, fun _ => prefix_refl _⟩
  · rw [htake]
    have htlen : ((L req.term).take m).length = m := by
      rw [length_take]
      omega
    refine ⟨⟨_, take_append_drop m _⟩, by omega, fun hpre => ?_⟩
    have hshort : (c.nodes j).log.entries.length ≤ m := by
      by_contra hgt
      exact hnot (prefix_agreeTo hpre (by omega))
    exact prefix_of_prefix_length_le hpre ⟨_, take_append_drop m _⟩ (by omega)

/-- Node `j` is only handed requests of term `T`. -/
def OnlyTerm (j T : Nat) (e : ClusterEvent) : Prop :=
  e.1 = j → match e.2 with
    | .step _ (.appendReq req) => req.term = T
    | _ => False

instance (j T : Nat) : (e : ClusterEvent) → Decidable (OnlyTerm j T e)
  | (i, .step _ (.appendReq req)) => inferInstanceAs (Decidable (i = j → req.term = T))
  | (i, .step _ (.appendResp _)) | (i, .step _ (.voteReq _)) | (i, .step _ (.voteResp _))
  | (i, .tick) | (i, .propose _) | (i, .restart _) => inferInstanceAs (Decidable (i = j → False))

/-- One event: a prefix of the leader's log stays one and is not shortened. -/
theorem Inherited.grows (ov : Overflow) (h : Inherited cfg L c) {j T : Nat} {e : ClusterEvent}
    (he : OnlyTerm j T e) (hpre : (c.nodes j).log.entries <+: L T) :
    (c.nodes j).log.entries <+: ((c.exec cfg ov e).nodes j).log.entries ∧
      ((c.exec cfg ov e).nodes j).log.entries <+: L T := by
  rcases exec_cases cfg ov c e with ⟨-, heq⟩ | ⟨hen, heq⟩
  · rw [heq]
    exact ⟨prefix_refl _, hpre⟩
  rw [heq]
  obtain ⟨i, call⟩ := e
  by_cases hj : j = i
  · subst hj
    rw [put_nodes_self]
    cases call with
    | step s msg =>
      cases msg with
      | appendReq req =>
        obtain rfl : req.term = T := he rfl
        rw [RaftNode.exec_appendReq_entries ov (h.wf.sound j)]
        split
        · next ha =>
          obtain ⟨hmerged, -, hkept⟩ := h.accepts hen ha
          exact ⟨hkept hpre, hmerged⟩
        · exact ⟨prefix_refl _, hpre⟩
      | _ => exact (he rfl).elim
    | _ => exact (he rfl).elim
  · rw [put_nodes_ne hj]
    exact ⟨prefix_refl _, hpre⟩

/-- What holds of the states between two requests of the term. -/
theorem grows_run {j T : Nat} {es rest : List ClusterEvent}
    (hfit : Throughout (exec cfg ov) (EventFits ov) cfg.boot (es ++ rest))
    (hone : (run (exec cfg ov) cfg.boot (es ++ rest)).OneLeaderPerTerm)
    (honly : ∀ e ∈ rest, OnlyTerm j T e)
    (hpre : ((run (exec cfg ov) cfg.boot es).nodes j).log.entries <+: leaderLogs cfg ov es T) :
    ((run (exec cfg ov) cfg.boot es).nodes j).log.entries <+:
        ((run (exec cfg ov) cfg.boot (es ++ rest)).nodes j).log.entries ∧
      ((run (exec cfg ov) cfg.boot (es ++ rest)).nodes j).log.entries <+:
        leaderLogs cfg ov (es ++ rest) T := by
  induction rest using reverseRecOn with
  | nil =>
    rw [append_nil]
    exact ⟨prefix_refl _, hpre⟩
  | append_singleton rest e ih =>
    rw [← append_assoc] at hfit hone ⊢
    obtain ⟨hfit', he⟩ := throughout_concat.1 hfit
    have hone' := hone.shorten (prefix_append _ [e])
    obtain ⟨hgrown, hheld⟩ := ih hfit' hone' fun x hx => honly x (by simp [hx])
    have hL := inherited_leaderLogs hfit' hone'
    obtain ⟨hstep, hstep'⟩ := hL.grows ov (honly e (by simp)) hheld
    rw [run_concat] at hone ⊢
    rw [leaderLogs_concat]
    exact ⟨hgrown.trans hstep, hstep'.trans ((hL.exec he hone).2 T)⟩

/-- The state right after a request was accepted. -/
theorem accepted_run {j s : Nat} {req : AppendEntriesReq} {es : List ClusterEvent}
    (hfit : Throughout (exec cfg ov) (EventFits ov) cfg.boot (es ++ [(j, .step s (.appendReq
      req))]))
    (hone : (run (exec cfg ov) cfg.boot (es ++ [(j, .step s (.appendReq req))])).OneLeaderPerTerm)
    (hsent : (run (exec cfg ov) cfg.boot es).enabled cfg (j, .step s (.appendReq req)))
    (ha : ((run (exec cfg ov) cfg.boot es).nodes j).Accepts req) :
    let log := ((run (exec cfg ov) cfg.boot
      (es ++ [(j, .step s (.appendReq req))])).nodes j).log.entries
    log <+: leaderLogs cfg ov (es ++ [(j, .step s (.appendReq req))]) req.term ∧
      req.prevLogIdx + req.entries.length ≤ log.length := by
  obtain ⟨hfit', he⟩ := throughout_concat.1 hfit
  have hL := inherited_leaderLogs hfit' (hone.shorten (prefix_append _ _))
  intro log
  have hlog : log = (((run (exec cfg ov) cfg.boot es).nodes j).merged req).entries := by
    have hentries := RaftNode.exec_appendReq_entries ov (hL.wf.sound j) s req
    rw [if_pos ha] at hentries
    rw [← hentries]
    show ((run (exec cfg ov) cfg.boot _).nodes j).log.entries = _
    rw [run_concat]
    rcases exec_cases cfg ov (run (exec cfg ov) cfg.boot es)
      (j, .step s (.appendReq req)) with ⟨hno, -⟩ | ⟨-, heq⟩
    · exact absurd hsent hno
    · rw [heq, put_nodes_self]
  obtain ⟨hmerged, hcover, -⟩ := hL.accepts hsent ha
  rw [run_concat] at hone
  rw [hlog, leaderLogs_concat]
  exact ⟨hmerged.trans ((hL.exec he hone).2 _), hcover⟩

/-- **Requests of one leader may come in any order and any number of times.** In a run without two
leaders in one term in which node `j` accepts a request, and then is handed only requests of the
same term, its log is never shortened again, and at the end agrees with that leader's at least as
far as the request reaches. -/
theorem requests_in_any_order (cfg : ClusterConfig) (ov : Overflow) (before mid after :
    List ClusterEvent) (j s : Nat) (req : AppendEntriesReq)
    (hfit : ov = .wrapping → Throughout (exec cfg ov) (EventFits ov) cfg.boot
      (before ++ (j, .step s (.appendReq req)) :: mid ++ after)) (hone : (run (exec cfg ov) cfg.boot
      (before ++ (j, .step s (.appendReq req)) :: mid ++ after)).OneLeaderPerTerm)
    (hsent : (run (exec cfg ov) cfg.boot before).enabled cfg (j, .step s (.appendReq req)))
    (haccepts : ((run (exec cfg ov) cfg.boot before).nodes j).Accepts req)
    (honly : ∀ e ∈ mid ++ after, OnlyTerm j req.term e) :
    let log := fun es => ((run (exec cfg ov) cfg.boot es).nodes j).log.entries
    let earlier := before ++ (j, .step s (.appendReq req)) :: mid
    log earlier <+: log (earlier ++ after) ∧
      AgreeTo (req.prevLogIdx + req.entries.length) (log (earlier ++ after))
        (leaderLogs cfg ov (earlier ++ after) req.term) := by
  intro log earlier
  have hearlier : earlier = (before ++ [(j, .step s (.appendReq req))]) ++ mid := by
    simp [earlier]
  have hfit' : Throughout (exec cfg ov) (EventFits ov) cfg.boot (earlier ++ after) :=
    throughout_eventFits hfit
  have hone' : (run (exec cfg ov) cfg.boot (earlier ++ after)).OneLeaderPerTerm := hone
  have hfitMid := (throughout_append.1 hfit').1
  have honeMid := hone'.shorten (prefix_append earlier after)
  rw [hearlier] at hfitMid honeMid
  obtain ⟨hfirst, hcover⟩ := accepted_run (throughout_append.1 hfitMid).1
    (honeMid.shorten (prefix_append _ mid)) hsent haccepts
  obtain ⟨hgrown, hheld⟩ := grows_run hfitMid honeMid (fun e he => honly e (by simp [he])) hfirst
  rw [← hearlier] at hgrown hheld
  obtain ⟨hlater, hfinal⟩ := grows_run hfit' hone' (fun e he => honly e (by simp [he])) hheld
  have hlen := (hgrown.trans hlater).length_le
  exact ⟨hlater, prefix_agreeTo hfinal (hcover.trans hlen)⟩

/-- The first leader's first request is refused by node 2. -/
def noopRefused : List ClusterEvent :=
  electedInFirstTerm ++
    [(2, .step 1 (.appendReq ⟨1, 1, 1, 1, [], 0⟩)), (1, .step 2 (.appendResp ⟨1, 2, false, 0⟩))]

/-- The retry, with the no-op. -/
def noopRequest : AppendEntriesReq := ⟨1, 1, 0, 0, [⟨1, 1, .noop⟩], 0⟩

/-- Both requests once more. -/
def noopAgain : List ClusterEvent :=
  [(2, .step 1 (.appendReq ⟨1, 1, 1, 1, [], 0⟩)), (2, .step 1 (.appendReq noopRequest))]

theorem noop_redelivered : AgreeTo (noopRequest.prevLogIdx + noopRequest.entries.length)
      ((run (exec .three .wrapping) ClusterConfig.three.boot
        (noopRefused ++ (2, .step 1 (.appendReq noopRequest)) :: [] ++ noopAgain)).nodes
          2).log.entries
      (leaderLogs .three .wrapping
        (noopRefused ++ (2, .step 1 (.appendReq noopRequest)) :: [] ++ noopAgain)
        noopRequest.term) :=
  (requests_in_any_order .three .wrapping noopRefused [] noopAgain 2 1 noopRequest
    (fun _ => eventFits_of_length (by decide +kernel) (by decide))
    (oneLeader_run (by decide +kernel)) (by decide +kernel) (by decide +kernel) (by decide)).2

/-- After the split brain of term 1, its second leader elects node 2, which brings it the entry
behind the one the two leaders differ in. -/
def splitBrainFollowed : List ClusterEvent :=
  splitBrainApplied ++ timeoutOf 2 ++
    [(3, .step 2 (.voteReq ⟨2, 2, 2, 1⟩)), (2, .step 3 (.voteResp ⟨2, 3, true⟩)),
     (3, .step 2 (.appendReq ⟨2, 2, 3, 2, [], 0⟩)), (2, .step 3 (.appendResp ⟨2, 3, false, 2⟩))]

/-- The only leader of term 2 is accepted by node 3, whose log differs below the request. -/
theorem accepted_over_another_log :
    let c := run (exec .three .checked) ClusterConfig.three.boot splitBrainFollowed
    let req : AppendEntriesReq := ⟨2, 2, 2, 1, [⟨2, 3, .noop⟩], 0⟩
    let es := splitBrainFollowed ++ [(3, .step 2 (.appendReq req))]
    let c' := run (exec .three .checked) ClusterConfig.three.boot es
    c.enabled .three (3, .step 2 (.appendReq req)) ∧ (c.nodes 3).Accepts req ∧
      (c'.nodes 2).role = .leader ∧
      (c'.nodes 2).log.entries = [⟨1, 1, .noop⟩, ⟨1, 2, .removePeer 2⟩, ⟨2, 3, .noop⟩] ∧
      (c'.nodes 3).log.entries = [⟨1, 1, .noop⟩, ⟨1, 2, .removePeer 1⟩, ⟨2, 3, .noop⟩] := by
  decide +kernel

end Cluster

end Haltchain.Consensus

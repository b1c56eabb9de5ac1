import Haltchain.Consensus.Election
import Haltchain.Lib.TermLog

/-! # Replication

A leader's request carries the tail of its log behind `next_index`; a follower that accepts it keeps
its own log, if that agrees, and otherwise has exactly the leader's log as it was sent
(`foldl_appendEntry_drop`). `EntriesStep` lists what a call can do to a node's entries,
`SentMessage` what its messages say about the node, and `PeersStep` what it does to the peers. -/

namespace Haltchain.Consensus

open Lib List

namespace RaftNode

open DecisionLog

variable {ov : Overflow} {n n' : RaftNode} {call : Call} {obs : List Observation}

/-! ## The append loop against a leader's log -/

/-- They agree up to the first entry of the same slot and term. -/
def Matches (l m : List LogEntry) : Prop :=
  ∀ k a b, l[k]? = some a → m[k]? = some b → a.term = b.term → AgreeTo (k + 1) l m

theorem matches_take (m : List LogEntry) (n : Nat) : Matches (m.take n) m := by
  intro k a b ha _ _
  have hk : k < (m.take n).length := (List.getElem?_eq_some_iff.1 ha).1
  exact prefix_agreeTo ⟨_, take_append_drop n m⟩ hk

/-- One turn on slot `k` of the leader's log, the follower agreeing up to `k`: the follower has that
entry and keeps its log, or its log now ends with it. -/
theorem appendEntry_slot {l : DecisionLog} (hidx : l.Indexed) {m : List LogEntry}
    (hm : IndexedEntries m) (hmatch : Matches l.entries m) {k : Nat} {e : LogEntry}
    (he : m[k]? = some e) (hagree : AgreeTo k l.entries m) :
    ((appendEntry l e).entries = l.entries ∧ AgreeTo (k + 1) l.entries m) ∨
      ((appendEntry l e).entries = m.take (k + 1) ∧ ¬ AgreeTo (k + 1) l.entries m) := by
  have hindex : e.index = k + 1 := hm k e he
  have hk : k < m.length := (List.getElem?_eq_some_iff.1 he).1
  have hnext : m.take (k + 1) = m.take k ++ [e] := by
    rw [take_add_one, he]
    rfl
  have hget : l.get e.index = l.entries[k]? := by
    rw [hindex]
    rfl
  rw [appendEntry_entries hidx, hindex]
  by_cases hc : l.Conflicts e
  · right
    refine ⟨?_, fun hall => ?_⟩
    · rw [if_pos hc, hnext, Nat.add_sub_cancel, hagree.2, ← hindex]
    · obtain ⟨x, hx, hne⟩ := hc
      rw [hget, hall.getElem? (Nat.lt_succ_self k), he] at hx
      exact hne (congrArg LogEntry.term (Option.some.inj hx).symm)
  · rw [if_neg hc]
    by_cases hlen : l.entries.length < k + 1
    · right
      have hkl := hagree.1
      have hl : l.entries = m.take k := by
        rw [← hagree.2, take_of_length_le (by omega)]
      have hlk : l.entries.length = k := by omega
      refine ⟨?_, fun hall => absurd hall.1 (by omega)⟩
      rw [if_pos hlen, hnext, hlk, ← hl, ← hindex]
    · left
      rw [if_neg hlen]
      have hx : l.entries[k]? = some (l.entries.get ⟨k, by omega⟩) :=
        getElem?_eq_getElem (by omega)
      refine ⟨rfl, hmatch k _ e hx he ?_⟩
      by_contra hne
      exact hc ⟨_, hget.trans hx, hne⟩

/-- **The append loop over the leader's entries from slot `k` on**, the follower agreeing up to `k`:
a log that has all of them is kept, any other becomes the leader's. -/
theorem foldl_appendEntry_drop {m : List LogEntry} (hm : IndexedEntries m) (d : Nat)
    {l : DecisionLog} (hidx : l.Indexed) (hmatch : Matches l.entries m) {k : Nat}
    (hd : k + d = m.length) (hagree : AgreeTo k l.entries m) :
    (((m.drop k).foldl appendEntry l).entries = l.entries ∧ AgreeTo m.length l.entries m) ∨
      (((m.drop k).foldl appendEntry l).entries = m ∧ ¬ AgreeTo m.length l.entries m) := by
  induction d generalizing l k with
  | zero =>
    left
    rw [drop_eq_nil_of_le (by omega)]
    rw [show k = m.length by omega] at hagree
    exact ⟨rfl, hagree⟩
  | succ d ih =>
    have he : m[k]? = some (m.get ⟨k, by omega⟩) := getElem?_eq_getElem (by omega)
    have hdrop : m.drop k = m.get ⟨k, by omega⟩ :: m.drop (k + 1) :=
      drop_eq_getElem_cons (by omega)
    rw [hdrop, foldl_cons]
    have hidx' := Indexed.appendEntry hidx (m.get ⟨k, by omega⟩)
    rcases appendEntry_slot hidx hm hmatch he hagree with ⟨hkeep, hagree'⟩ | ⟨htake, hnot⟩
    · have hih := ih hidx' (by rw [hkeep]; exact hmatch) (k := k + 1) (by omega)
        (by rw [hkeep]; exact hagree')
      rw [hkeep] at hih
      exact hih
    -- from here on the log is a prefix of the leader's, so it ends up as the leader's
    refine .inr ⟨?_, fun hall => hnot (hall.mono (by omega))⟩
    have hpre : m.take (k + 1) <+: m := take_prefix _ _
    have hlen : (m.take (k + 1)).length = k + 1 := by
      rw [length_take]
      omega
    rcases ih hidx' (by rw [htake]; exact matches_take m _) (k := k + 1) (by omega)
      (by rw [htake]; exact prefix_agreeTo hpre (by omega)) with ⟨hkeep, hall⟩ | ⟨hdone, -⟩
    · rw [hkeep]
      rw [htake] at hall ⊢
      have hle := hall.1
      rw [hlen] at hle
      exact take_of_length_le (by omega)
    · exact hdone

/-! ## What a call does to the entries -/

/-- The entries after a call, with the roles and terms around it. -/
inductive EntriesStep (n : RaftNode) (call : Call) (n' : RaftNode) (obs : List Observation) : Prop
  | kept (hl : leaderships obs = []) (ht : n.currentTerm ≤ n'.currentTerm)
      (hr : n'.role = .leader → n.role = .leader ∧ n'.currentTerm = n.currentTerm)
      (hc : n'.role = .candidate → n.currentTerm < n'.currentTerm ∨
        (n.role = .candidate ∧ n'.currentTerm = n.currentTerm))
      (he : n'.log.entries = n.log.entries)
  | proposed (hl : leaderships obs = []) (c : DecisionCommand) (hr : n.role = .leader)
      (hr' : n'.role = .leader) (ht : n'.currentTerm = n.currentTerm)
      (he : n'.log.entries = n.log.entries ++ [⟨n.currentTerm, n.log.entries.length + 1, c⟩])
  | won (hl : leaderships obs = [n'.currentTerm]) (ht : n.currentTerm ≤ n'.currentTerm)
      (hpos : n.role = .candidate ∨ n.currentTerm < n'.currentTerm) (hr : n'.role = .leader)
      (he : n'.log.entries = n.log.entries ++ [⟨n'.currentTerm, n.log.entries.length + 1, .noop⟩])
  | accepted (hl : leaderships obs = []) (s : Nat) (req : AppendEntriesReq)
      (hcall : call = .step s (.appendReq req)) (ht : n.currentTerm ≤ req.term)
      (hp : n.prevOk req) (ht' : n'.currentTerm = req.term) (hr : n'.role = .follower)
      (he : n'.log.entries = (n.merged req).entries)

theorem EntriesStep.of_follower (hl : leaderships obs = []) (ht : n.currentTerm ≤ n'.currentTerm)
    (hr : n'.role = .follower) (he : n'.log.entries = n.log.entries) : EntriesStep n call n' obs :=
  .kept hl ht (fun h => absurd (hr.symm.trans h) (by decide))
    (fun h => absurd (hr.symm.trans h) (by decide)) he

theorem EntriesStep.of_same (hl : leaderships obs = []) (ht : n'.currentTerm = n.currentTerm)
    (hr : n'.role = n.role) (he : n'.log.entries = n.log.entries) : EntriesStep n call n' obs :=
  .kept hl (Nat.le_of_eq ht.symm) (fun h => ⟨hr ▸ h, ht⟩) (fun h => .inr ⟨hr ▸ h, ht⟩) he

theorem lead_entries (h : n.log.Indexed) :
    n.lead.log.entries = n.log.entries ++ [⟨n.currentTerm, n.log.entries.length + 1, .noop⟩] := by
  rw [lead_log, append_entries, h.lastIndex_eq]

theorem Transition.entriesStep (h : n.log.Indexed) (hfit : n.TermFits ov call)
    (htr : Transition ov n call n' obs) : EntriesStep n call n' obs := by
  cases htr with
  | heartbeat => exact .of_same (leaderships_heartbeats n) rfl rfl rfl
  | @campaign t hd ht =>
    have hterm := hfit.campaign_eq hd ht
    refine .kept rfl (by rw [campaign_currentTerm]; omega) (fun hr => ?_) (fun _ => .inl ?_)
      (by rw [campaign_log])
    · rw [campaign_role] at hr
      exact absurd hr (by decide)
    · rw [campaign_currentTerm]
      omega
  | @campaignWon t hd ht =>
    have hterm := hfit.campaign_eq hd ht
    have hlead : (n.campaign t).lead.currentTerm = t := by simp
    have hidx : (n.campaign t).log.Indexed := by
      rw [campaign_log]
      exact h
    refine .won ?_ (by omega) (.inr (by omega)) (lead_role _) ?_
    · rw [hlead]
      exact congrArg (t :: ·) (leaderships_heartbeats _)
    · rw [lead_entries hidx, hlead, campaign_log, campaign_currentTerm]
  | proposed c hr =>
    refine .proposed (leaderships_heartbeats _) c hr ((proposed_role n c).trans hr)
      (proposed_currentTerm n c) ?_
    rw [proposed_log, append_entries, h.lastIndex_eq]
  | voteGranted s req =>
    exact .of_same rfl (grant_currentTerm n req) (grant_role n req) (by rw [grant_log])
  | voteWon s resp ht hr =>
    have hlead : (n.countVote resp.fromId).lead.currentTerm = n.currentTerm := lead_currentTerm _
    refine .won ?_ (by omega) (.inl hr) (lead_role _) ?_
    · rw [hlead]
      exact congrArg (n.currentTerm :: ·) (leaderships_heartbeats _)
    · rw [lead_entries (n := n.countVote resp.fromId) h, hlead]
      rfl
  | @appendAccepted s req ht hp log batch hb =>
    obtain ⟨hl, -, -⟩ := (merged_indexed h req).takeUnapplied_eq hb
    refine .accepted ?_ s req rfl ht hp (accept_currentTerm n req) (accept_role n req) ?_
    · rw [map_append, map_append, leaderships_append, leaderships_append,
        leaderships_stepDown, leaderships_applyActions]
      rfl
    · show log.entries = _
      rw [hl]
  | @ackCommitted s resp _ _ _ _ _ _ _ k _ log _ hb =>
    have hidx := h.setCommitIndex k
    obtain ⟨hl, -, -⟩ := hidx.takeUnapplied_eq hb
    refine .of_same (leaderships_applyActions _) (commitTo_currentTerm _ _) (commitTo_role _ _) ?_
    show log.entries = _
    rw [hl, setCommitIndex_entries]
  | nacked => exact .of_same (leaderships_appendActions _ _) rfl rfl rfl
  | voteDeniedNewer _ _ ht | voteGrantedNewer _ _ ht | voteRespNewer _ _ ht | ackNewer _ _ ht
  | appendMismatch _ _ ht =>
    exact .of_follower (by simp [voteReply, appendReply]) (by simp; omega) (by simp) (by simp)
  | _ => exact .of_same rfl rfl rfl rfl

theorem exec_entriesStep (h : n.Sound) (hfit : n.TermFits ov call) :
    EntriesStep n call (n.exec ov call).1 (n.exec ov call).2 := by
  rcases exec_cases ov h.indexed call with ⟨-, htr⟩ | ⟨-, hc, hobs⟩
  · exact htr.entriesStep h.indexed hfit
  rw [hobs]
  generalize (n.exec ov call).1 = n' at hc
  cases hc with
  | restarted _ timeout =>
    exact .of_follower rfl (by rw [h.restart_currentTerm]) (restart_role n timeout)
      (h.restart_entries timeout)
  | appendCrashed s req timeout ht hp =>
    refine .accepted rfl s req rfl ht hp ?_ (restart_role _ timeout) ?_
    · rw [(h.accept req).restart_currentTerm, accept_currentTerm]
    · rw [(h.accept req).restart_entries, accept_log]

/-! ## What a node sends -/

theorem action_mem_map {a : RaftAction} {as : List RaftAction} :
    Observation.action a ∈ as.map .action ↔ a ∈ as := by
  rw [mem_map]
  constructor
  · rintro ⟨b, hb, heq⟩
    rw [← Observation.action.inj heq]
    exact hb
  · intro h
    exact ⟨a, h, rfl⟩

variable {dest : Nat} {msg : RaftMessage}

theorem send_not_mem_stepDown {term : Nat} : .send dest msg ∉ n.stepDown term :=
  fun h => absurd (eq_of_mem_stepDown h) (by simp)

theorem send_not_mem_applyActions {batch : List LogEntry} : .send dest msg ∉ applyActions batch :=
  fun h => absurd (eq_of_mem_applyActions h) (by simp)

/-- A reply behind actions that send nothing is the only message. -/
theorem send_mem_reply {as : List RaftAction} {a : RaftAction} (has : .send dest msg ∉ as)
    (h : Observation.action (.send dest msg) ∈ (as ++ [a]).map .action) : .send dest msg = a := by
  rw [action_mem_map, mem_append] at h
  rcases h with h | h
  · exact absurd h has
  · exact mem_singleton.1 h

/-- What a call can send, and what the message says about the sender. -/
inductive SentMessage (n : RaftNode) (call : Call) (n' : RaftNode) (dest : Nat) :
    RaftMessage → Prop
  | request (ps : PeerState) (hr : n'.role = .leader) (hps : n'.peerState.lookup dest = some ps) :
      SentMessage n call n' dest (.appendReq (n'.appendMsg ps))
  | denial (resp : RequestVoteResp) (hg : resp.voteGranted = false)
      (ht : resp.term = n'.currentTerm) :
      SentMessage n call n' dest (.voteResp resp)
  | grant (s : Nat) (req : RequestVoteReq) (hcall : call = .step s (.voteReq req))
      (hdest : dest = req.candidateId) (ht : n.currentTerm ≤ req.term) (hl : n.logOk req)
      (ht' : n'.currentTerm = req.term) :
      SentMessage n call n' dest (.voteResp ⟨req.term, n.id, true⟩)
  | nack (resp : AppendEntriesResp) (hs : resp.success = false) (ht : resp.term = n'.currentTerm)
      (hm : resp.matchIndex ≤ n'.log.entries.length) :
      SentMessage n call n' dest (.appendResp resp)
  | ack (s : Nat) (req : AppendEntriesReq) (hcall : call = .step s (.appendReq req))
      (ht : n.currentTerm ≤ req.term) (hp : n.prevOk req) (ht' : n'.currentTerm = req.term)
      (he : n'.log.entries = (n.merged req).entries) :
      SentMessage n call n' dest (.appendResp ⟨n'.currentTerm, n.id, true, n'.log.entries.length⟩)

theorem sentMessage_heartbeats (hr : n'.role = .leader)
    (h : Observation.action (.send dest msg) ∈ n'.heartbeats.map .action) :
    SentMessage n call n' dest msg := by
  obtain ⟨p, -, ps, hps, heq⟩ := mem_heartbeats.1 (action_mem_map.1 h)
  injection heq with hdest hmsg
  subst hdest hmsg
  exact .request ps hr hps

theorem Transition.sent (hidx : n.log.Indexed) (htr : Transition ov n call n' obs)
    (h : .action (.send dest msg) ∈ obs) : SentMessage n call n' dest msg := by
  cases htr with
  | heartbeat hr =>
    exact sentMessage_heartbeats (show { n with heartbeatElapsed := 0 }.role = .leader from hr) h
  | campaign => simp at h
  | campaignWon | voteWon s resp =>
    simp only [mem_cons, reduceCtorEq, Observation.action.injEq, false_or] at h
    exact sentMessage_heartbeats (lead_role _) h
  | proposed c hr => exact sentMessage_heartbeats ((proposed_role n c).trans hr) h
  | voteStale s req | voteDenied s req =>
    obtain ⟨-, rfl⟩ := RaftAction.send.inj (Observation.action.inj (mem_singleton.1 h))
    exact .denial _ rfl rfl
  | voteDeniedNewer s req =>
    obtain ⟨-, rfl⟩ := RaftAction.send.inj (send_mem_reply send_not_mem_stepDown h)
    exact .denial _ rfl rfl
  | voteGranted s req ht hl =>
    obtain ⟨hdest, rfl⟩ := RaftAction.send.inj (Observation.action.inj (mem_singleton.1 h))
    rw [← ht]
    exact .grant s req rfl hdest (Nat.le_of_eq ht.symm) hl ((grant_currentTerm n req).trans ht.symm)
  | voteGrantedNewer s req ht hl =>
    obtain ⟨hdest, rfl⟩ := RaftAction.send.inj (send_mem_reply send_not_mem_stepDown h)
    rw [follow_currentTerm, follow_id]
    exact .grant s req rfl hdest (le_of_lt ht) hl
      ((grant_currentTerm _ req).trans (follow_currentTerm n _))
  | voteRespNewer | ackNewer => exact absurd (action_mem_map.1 h) send_not_mem_stepDown
  | appendStale s req =>
    obtain ⟨-, rfl⟩ := RaftAction.send.inj (Observation.action.inj (mem_singleton.1 h))
    exact .nack _ rfl rfl (Nat.zero_le _)
  | appendMismatch s req =>
    obtain ⟨-, rfl⟩ := RaftAction.send.inj (Observation.action.inj (mem_singleton.1 h))
    exact .nack _ rfl rfl (by rw [follow_log]; exact hidx.lastIndex_eq.le)
  | @appendAccepted s req ht hp log batch hb =>
    have hbefore : .send dest msg ∉ n.stepDown req.term ++ applyActions batch := by
      rw [mem_append]
      rintro (h | h)
      · exact send_not_mem_stepDown h
      · exact send_not_mem_applyActions h
    obtain ⟨-, rfl⟩ := RaftAction.send.inj (send_mem_reply hbefore h)
    obtain ⟨hl, -, -⟩ := (merged_indexed hidx req).takeUnapplied_eq hb
    have hlast : log.lastIndex = log.entries.length := by
      refine DecisionLog.Indexed.lastIndex_eq ?_
      rw [hl]
      exact merged_indexed hidx req
    rw [hlast, accept_id]
    have hent : { n.accept req with log := log }.log.entries = (n.merged req).entries := by
      show log.entries = _
      rw [hl]
    exact .ack s req rfl ht hp (accept_currentTerm n req) hent
  | ackCommitted => exact absurd (action_mem_map.1 h) send_not_mem_applyActions
  | nacked s resp _ hr =>
    obtain ⟨ps, hps, heq⟩ := mem_appendActions.1 (action_mem_map.1 h)
    obtain ⟨rfl, rfl⟩ := RaftAction.send.inj heq
    exact .request ps hr hps
  | _ => simp at h

/-- **What any call sends.** A process that dies sends nothing. -/
theorem exec_sent (ov : Overflow) (h : n.Sound) (call : Call) (dest : Nat) (msg : RaftMessage)
    (hm : .action (.send dest msg) ∈ (n.exec ov call).2) :
    SentMessage n call (n.exec ov call).1 dest msg := by
  rcases exec_cases ov h.indexed call with ⟨-, htr⟩ | ⟨-, -, hobs⟩
  · exact htr.sent h.indexed hm
  · rw [hobs] at hm
    simp at hm

/-- **What starts an election**: a tick, which moves the node to the next term. -/
theorem exec_started (h : n.Sound) (hfit : n.TermFits ov call) {t : Nat}
    (hm : .electionStarted t ∈ (n.exec ov call).2) :
    call = .tick ∧ t = (n.exec ov call).1.currentTerm ∧ n.currentTerm < t := by
  rcases exec_cases ov h.indexed call with ⟨-, htr⟩ | ⟨-, -, hobs⟩
  · generalize (n.exec ov call).1 = n' at htr
    generalize (n.exec ov call).2 = obs at htr hm
    cases htr with
    | @campaign t' hd ht =>
      have hm : t = t' := by simpa using hm
      have heq := hfit.campaign_eq hd ht
      exact ⟨rfl, by rw [campaign_currentTerm]; exact hm, by omega⟩
    | @campaignWon t' hd ht =>
      have hm : t = t' := by simpa using hm
      have heq := hfit.campaign_eq hd ht
      exact ⟨rfl, by rw [lead_currentTerm, campaign_currentTerm]; exact hm, by omega⟩
    | _ => simp at hm
  · rw [hobs] at hm
    simp at hm

@[simp] theorem broadcast_not_mem_heartbeats : .broadcast msg ∉ n.heartbeats := by
  intro h
  obtain ⟨p, -, ps, -, heq⟩ := mem_heartbeats.1 h
  cases heq

@[simp] theorem broadcast_not_mem_appendActions : .broadcast msg ∉ n.appendActions dest := by
  intro h
  obtain ⟨ps, -, heq⟩ := mem_appendActions.1 h
  cases heq

@[simp] theorem broadcast_not_mem_stepDown {term : Nat} : .broadcast msg ∉ n.stepDown term :=
  fun h => absurd (eq_of_mem_stepDown h) (by simp)

@[simp] theorem broadcast_not_mem_applyActions {batch : List LogEntry} :
    .broadcast msg ∉ applyActions batch :=
  fun h => absurd (eq_of_mem_applyActions h) (by simp)

/-- **What is broadcast**: the vote request of an election just started, for the candidate's log. -/
theorem exec_broadcast (h : n.Sound) (hm : .action (.broadcast msg) ∈ (n.exec ov call).2) :
    .electionStarted (n.exec ov call).1.currentTerm ∈ (n.exec ov call).2 ∧
      msg = .voteReq ⟨(n.exec ov call).1.currentTerm, n.id, n.log.lastIndex, n.log.lastTerm⟩ := by
  rcases exec_cases ov h.indexed call with ⟨-, htr⟩ | ⟨-, -, hobs⟩
  · generalize (n.exec ov call).1 = n' at htr ⊢
    generalize (n.exec ov call).2 = obs at htr hm ⊢
    cases htr with
    | @campaign t hd ht =>
      simp only [mem_cons, reduceCtorEq, Observation.action.injEq,
        RaftAction.broadcast.injEq, not_mem_nil, or_false, false_or] at hm
      rw [campaign_currentTerm]
      exact ⟨mem_cons_self .., hm⟩
    | _ => simp [voteReply, appendReply] at hm
  · rw [hobs] at hm
    simp at hm

/-! ## What a leader tracks of its peers -/

/-- The peer table after a call. -/
inductive PeersStep (ov : Overflow) (n : RaftNode) (call : Call) (n' : RaftNode) : Prop
  | same (hr : n'.role = n.role) (ht : n'.currentTerm = n.currentTerm)
      (hp : n'.peerState = n.peerState)
  | dropped (hr : n'.role = .follower) (hp : n'.peerState = ∅)
  | campaign (hr : n.role ≠ .leader) (hr' : n'.role = .candidate) (hp : n'.peerState = n.peerState)
  | won (hr : n.role ≠ .leader) (hr' : n'.role = .leader)
      (hp : ∀ p, n'.peerState.lookup p = if p ∈ n.peers then some ⟨n.log.lastIndex + 2, 0⟩
        else (n.peerState.lookup p).map (fun ps => { ps with nextIndex := n.log.lastIndex + 2 }))
  | acked (s : Nat) (resp : AppendEntriesResp) (hcall : call = .step s (.appendResp resp))
      (hle : resp.term ≤ n.currentTerm) (hr : n.role = .leader) (hr' : n'.role = .leader)
      (ht : n'.currentTerm = n.currentTerm) (ps : PeerState)
      (hps : n.peerState.lookup s = some ps) (hs : resp.success = true) (next : Nat)
      (ha : ov.add resp.matchIndex 1 = some next)
      (hp : n'.peerState = n.peerState.insert s ⟨next, resp.matchIndex⟩)
  | nacked (s : Nat) (resp : AppendEntriesResp) (hcall : call = .step s (.appendResp resp))
      (hr : n.role = .leader) (hr' : n'.role = .leader) (ht : n'.currentTerm = n.currentTerm)
      (ps : PeerState) (hps : n.peerState.lookup s = some ps) (next : Nat)
      (hn : (if 0 < resp.matchIndex then ov.add resp.matchIndex 1
        else some (max (ps.nextIndex - 1) 1)) = some next)
      (hp : n'.peerState = n.peerState.insert s { ps with nextIndex := next })

theorem Transition.peersStep (htr : Transition ov n call n' obs) : PeersStep ov n call n' := by
  cases htr with
  | @campaign t hd => exact .campaign hd.1 (campaign_role n t) (campaign_peerState n t)
  | @campaignWon t hd =>
    refine .won hd.1 (lead_role _) fun p => ?_
    rw [lead_lookup, campaign_peers, campaign_log, campaign_peerState]
  | proposed c =>
    exact .same (proposed_role n c) (proposed_currentTerm n c) (proposed_peerState n c)
  | voteDeniedNewer | voteRespNewer | appendMismatch | ackNewer =>
    exact .dropped (follow_role n _) (follow_peerState n _)
  | voteGranted s req =>
    exact .same (grant_role n req) (grant_currentTerm n req) (grant_peerState n req)
  | voteGrantedNewer s req =>
    exact .dropped (by rw [grant_role, follow_role]) (by rw [grant_peerState, follow_peerState])
  | voteWon s resp _ hr =>
    refine .won (by rw [hr]; decide) (lead_role _) fun p => ?_
    exact lead_lookup (n.countVote resp.fromId) p
  | appendAccepted s req => exact .dropped (accept_role n req) (accept_peerState n req)
  | ackStored s resp ht hr hp hs ha => exact .acked s resp rfl ht hr hr rfl _ hp hs _ ha rfl
  | ackCommitted s resp ht hr hp hs ha =>
    exact .acked s resp rfl ht hr ((commitTo_role _ _).trans hr) (commitTo_currentTerm _ _) _ hp
      hs _ ha (commitTo_peerState _ _)
  | nacked s resp _ hr hp _ hn => exact .nacked s resp rfl hr hr rfl _ hp _ hn rfl
  | _ => exact .same rfl rfl rfl

theorem exec_peersStep (ov : Overflow) (h : n.log.Indexed) (call : Call) :
    PeersStep ov n call (n.exec ov call).1 := by
  rcases exec_cases ov h call with ⟨-, htr⟩ | ⟨-, hc, -⟩
  · exact htr.peersStep
  · generalize (n.exec ov call).1 = n' at hc
    cases hc with
    | restarted | appendCrashed => exact .dropped (restart_role _ _) (restart_peerState _ _)

/-- The index a call acknowledges, if it is an acknowledgement. -/
def ackIndex : Call → Nat
  | .step _ (.appendResp resp) => resp.matchIndex
  | _ => 0

/-- No addition wraps around. Only a build without overflow checks gets past one that does. -/
def Fits (ov : Overflow) (n : RaftNode) (call : Call) : Prop :=
  n.TermFits ov call ∧ (ov = .wrapping → ackIndex call + 1 < 2 ^ 64)
deriving Decidable

theorem Fits.next_eq {s : Nat} {resp : AppendEntriesResp}
    (h : n.Fits ov (.step s (.appendResp resp))) {next : Nat}
    (ha : ov.add resp.matchIndex 1 = some next) : next = resp.matchIndex + 1 := by
  cases ov with
  | checked => exact (Overflow.add_checked ha).1
  | wrapping =>
    have hlt : resp.matchIndex + 1 < 2 ^ 64 := h.2 rfl
    rw [Overflow.add_of_lt hlt] at ha
    exact (Option.some.inj ha).symm

end RaftNode

end Haltchain.Consensus

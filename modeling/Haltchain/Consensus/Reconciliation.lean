import Haltchain.Consensus.LocalLog
import Haltchain.Consensus.LogMatching
import Haltchain.Consensus.Totality

/-! # Bringing a follower's log in line

A follower refuses a request when it does not hold the entry the request starts from, with its last
index, and the leader rolls `next_index` back to right behind it. If the leader does not have the
follower's last entry, the two repeat the same exchange forever. -/

namespace Haltchain.Consensus

open Lib RaftNode DecisionLog List Option

/-! ## The exchange -/

/-- The AppendEntries response among the actions of a call. -/
def appendRespIn (actions : List RaftAction) : Option AppendEntriesResp :=
  actions.findSome? fun
    | .send _ (.appendResp resp) => some resp
    | _ => none

/-- The AppendEntries request among the actions of a call. -/
def appendReqIn (actions : List RaftAction) : Option AppendEntriesReq :=
  actions.findSome? fun
    | .send _ (.appendReq req) => some req
    | _ => none

/-- A leader and a follower with the request on its way, and nothing else going on. -/
structure Exchange where
  leader : RaftNode
  follower : RaftNode
  req : AppendEntriesReq

/-- How a round ends: success, a refusal and the retry, or a panic or a leader stepping down. -/
inductive Round where
  | accepted
  | rejected (next : Exchange)
  | broken

namespace Exchange

/-- The request is delivered, the response is delivered back. -/
def round (ov : Overflow) (x : Exchange) : Round :=
  match x.follower.step ov x.leader.id (.appendReq x.req) with
  | (_, none) => .broken
  | (follower, some actions) =>
    match appendRespIn actions with
    | none => .broken
    | some resp =>
      if resp.success then .accepted
      else
        match x.leader.step ov follower.id (.appendResp resp) with
        | (_, none) => .broken
        | (leader, some actions) =>
          match appendReqIn actions with
          | none => .broken
          | some req => .rejected ⟨leader, follower, req⟩

/-- `next_index` as the leader has it for the follower. -/
def nextIndex (x : Exchange) : Nat :=
  ((x.leader.peerState.lookup x.follower.id).map (·.nextIndex)).getD 0

/-- At most so many rounds: `next_index` in each, and whether the last succeeds. -/
def rounds (ov : Overflow) : Nat → Exchange → List Nat × Bool
  | 0, _ => ([], false)
  | k + 1, x =>
    match x.round ov with
    | .accepted => ([x.nextIndex], true)
    | .broken => ([x.nextIndex], false)
    | .rejected x' => (x.nextIndex :: (rounds ov k x').1, (rounds ov k x').2)

end Exchange

/-! ## One round -/

namespace RaftNode

variable {n : RaftNode} {req : AppendEntriesReq}

theorem handleAppendReq_refused (ht : n.currentTerm ≤ req.term) (hp : ¬ n.prevOk req) :
    n.handleAppendReq req = (n.follow req.term,
      some [.send req.leaderId (.appendResp ⟨req.term, n.id, false, n.log.lastIndex⟩)]) := by
  rw [handleAppendReq_eq, if_neg (by omega), if_neg hp]
  simp [appendReply]

theorem handleAppendReq_accepted (ht : n.currentTerm ≤ req.term) (hp : n.prevOk req)
    (hb : (n.merged req).takeUnapplied ≠ none) :
    ∃ n' actions m, n.handleAppendReq req = (n', some actions) ∧
      appendRespIn actions = some ⟨req.term, n.id, true, m⟩ := by
  rw [handleAppendReq_eq, if_neg (by omega), if_pos hp, appendNewEntries_eq]
  cases hlb : (n.merged req).takeUnapplied with
  | none => exact absurd hlb hb
  | some lb =>
    have hdown : appendRespIn (n.stepDown req.term) = none := by
      refine findSome?_eq_none_iff.2 fun a ha => ?_
      rw [eq_of_mem_stepDown ha]
    have hbatch : appendRespIn (applyActions lb.2) = none := by
      refine findSome?_eq_none_iff.2 fun a ha => ?_
      rw [(eq_of_mem_applyActions ha)]
    refine ⟨_, _, lb.1.lastIndex, rfl, ?_⟩
    unfold appendRespIn at hdown hbatch ⊢
    rw [findSome?_append, findSome?_append, hdown, hbatch]
    simp [appendReply]

theorem handleAppendResp_retries (ov : Overflow) (h : n.log.Indexed) (hr : n.role = .leader)
    {j : Nat} {ps : PeerState} (hps : n.peerState.lookup j = some ps) (resp : AppendEntriesResp)
    (ht : resp.term ≤ n.currentTerm) (hs : resp.success = false)
    (hroom : resp.matchIndex + 1 < 2 ^ 64) :
    let next := if 0 < resp.matchIndex then resp.matchIndex + 1 else max (ps.nextIndex - 1) 1
    n.handleAppendResp ov j resp =
      (n.acked j { ps with nextIndex := next },
        some ((n.acked j { ps with nextIndex := next }).appendActions j)) := by
  intro next
  have hnext : (if 0 < resp.matchIndex then ov.add resp.matchIndex 1
      else some (max (ps.nextIndex - 1) 1)) = some next := by
    rw [Overflow.add_of_lt hroom]
    split <;> simp [next, *]
  unfold handleAppendResp
  rw [if_neg (by omega), if_neg (not_not.2 hr), hps]
  dsimp only
  rw [hs, hnext]
  have hsend := sendAppend_eq (n := n.acked j { ps with nextIndex := next }) h j
  exact Prod.ext rfl hsend

end RaftNode

namespace Exchange

variable {ov : Overflow} {x : Exchange} {T next : Nat} {l f : DecisionLog}

/-- Where the leader continues after a refusal by log `f`. -/
def rollBack (f : DecisionLog) (next : Nat) : Nat :=
  if 0 < f.lastIndex then f.lastIndex + 1 else max (next - 1) 1

/-- The follower holds the entry before `next` with the leader's term. -/
def Linked (l f : DecisionLog) (next : Nat) : Prop :=
  next - 1 = 0 ∨
    (f.get (next - 1)).map (·.term) = some (((l.get (next - 1)).map (·.term)).getD 0)
deriving Decidable

/-- A leader of term `T` with log `l` brings its request for `next` to a log `f`. -/
structure Going (x : Exchange) (T : Nat) (l f : DecisionLog) (next : Nat) : Prop where
  role : x.leader.role = .leader
  term : x.leader.currentTerm = T
  leaderLog : x.leader.log = l
  behind : x.follower.currentTerm ≤ T
  followerLog : x.follower.log = f
  sending : ∃ ps, x.leader.peerState.lookup x.follower.id = some ps ∧ ps.nextIndex = next ∧
    x.req = x.leader.appendMsg ps

theorem Going.nextIndex_eq (h : x.Going T l f next) : x.nextIndex = next := by
  obtain ⟨ps, hps, hnext, -⟩ := h.sending
  unfold nextIndex
  rw [hps]
  exact hnext

theorem Going.req_term (h : x.Going T l f next) : x.req.term = T := by
  obtain ⟨ps, -, -, hreq⟩ := h.sending
  rw [hreq, ← h.term]
  rfl

theorem Going.prevOk_iff (h : x.Going T l f next) : x.follower.prevOk x.req ↔ Linked l f next := by
  obtain ⟨ps, -, hnext, hreq⟩ := h.sending
  unfold prevOk Linked
  rw [hreq, ← h.leaderLog, h.followerLog, ← hnext]
  rfl

theorem Going.accepted (h : x.Going T l f next) (hf : f.Indexed) (hlink : Linked l f next)
    (hp : ¬ x.follower.Panics ov x.leader.id (.appendReq x.req)) : x.round ov = .accepted := by
  have hle : x.follower.currentTerm ≤ x.req.term := h.req_term ▸ h.behind
  have hprev := h.prevOk_iff.2 hlink
  have hbatch : (x.follower.merged x.req).takeUnapplied ≠ none := by
    rw [Ne, merged_takeUnapplied_eq_none (by rw [h.followerLog]; exact hf)]
    exact fun hcut => hp ⟨hle, hprev, hcut⟩
  obtain ⟨n', actions, m, hstep, hresp⟩ := handleAppendReq_accepted hle hprev hbatch
  unfold round
  simp only [step, hstep, hresp, if_true]

theorem round_of_panics (hf : x.follower.log.Indexed)
    (hp : x.follower.Panics ov x.leader.id (.appendReq x.req)) : x.round ov = .broken := by
  obtain ⟨hle, hprev, hcut⟩ := hp
  have hnone := (handleAppendReq_eq_none (n := x.follower) x.req).2
    ⟨hle, hprev, (merged_takeUnapplied_eq_none hf x.req).2 hcut⟩
  obtain ⟨n', r, hr⟩ : ∃ n' r, x.follower.handleAppendReq x.req = (n', r) := ⟨_, _, rfl⟩
  rw [hr] at hnone
  obtain rfl : r = none := hnone
  unfold round
  simp only [step, hr]

theorem Going.rejected (ov : Overflow) (h : x.Going T l f next) (hl : l.Indexed)
    (hroom : f.lastIndex + 1 < 2 ^ 64) (hlink : ¬ Linked l f next) :
    ∃ x', x.round ov = .rejected x' ∧ x'.Going T l f (rollBack f next) := by
  have hle : x.follower.currentTerm ≤ x.req.term := h.req_term ▸ h.behind
  have hrefused := handleAppendReq_refused hle fun hp => hlink (h.prevOk_iff.1 hp)
  rw [h.req_term, h.followerLog] at hrefused
  obtain ⟨ps, hps, rfl, -⟩ := h.sending
  have hretry := handleAppendResp_retries ov (by rw [h.leaderLog]; exact hl) h.role hps
    ⟨T, x.follower.id, false, f.lastIndex⟩ (by rw [h.term]) rfl hroom
  let ps' : PeerState := { ps with nextIndex := rollBack f ps.nextIndex }
  let leader' := x.leader.acked x.follower.id ps'
  have hstep : x.leader.handleAppendResp ov x.follower.id ⟨T, x.follower.id, false, f.lastIndex⟩ =
      (leader', some (leader'.appendActions x.follower.id)) := hretry
  have hfound : leader'.peerState.lookup x.follower.id = some ps' := AList.lookup_insert _
  have hsent :
      appendReqIn (leader'.appendActions x.follower.id) = some (leader'.appendMsg ps') := by
    unfold appendActions
    rw [hfound]
    rfl
  refine ⟨⟨leader', x.follower.follow T, leader'.appendMsg ps'⟩, ?_, h.role, h.term, h.leaderLog,
    by simp, by simp [h.followerLog], ps', by rw [follow_id]; exact hfound, rfl, rfl⟩
  unfold round
  simp only [step, hrefused]
  simp only [appendRespIn, findSome?_cons, follow_id, hstep, hsent, Bool.false_eq_true, if_false]

/-- A follower in a later term has the leader step down. -/
theorem round_of_later (hlater : x.req.term < x.follower.currentTerm)
    (hterm : x.leader.currentTerm = x.req.term) : x.round ov = .broken := by
  have hstale : x.follower.handleAppendReq x.req =
      (x.follower, some [x.follower.appendReply x.req false 0]) := by
    rw [handleAppendReq_eq, if_pos hlater]
  have hdown : appendReqIn (x.leader.stepDown x.follower.currentTerm) = none := by
    refine findSome?_eq_none_iff.2 fun a ha => ?_
    rw [eq_of_mem_stepDown ha]
  have hsteps : x.leader.handleAppendResp ov x.follower.id
      ⟨x.follower.currentTerm, x.follower.id, false, 0⟩ =
        (x.leader.follow x.follower.currentTerm,
          some (x.leader.stepDown x.follower.currentTerm)) := by
    unfold handleAppendResp
    rw [if_pos (show x.leader.currentTerm < x.follower.currentTerm by omega)]
    rfl
  unfold round
  simp only [step, hstale]
  simp only [appendRespIn, appendReply, findSome?_cons, hsteps, hdown, Bool.false_eq_true, if_false]

/-! ## All rounds -/

/-- Where the follower holds the entry before a request with the leader's term, the logs agree so
far. -/
def Matched (l f : DecisionLog) : Prop :=
  ∀ next, Linked l f next → AgreeTo (next - 1) f.entries l.entries

/-- What is committed on the follower and not yet applied is in its log. -/
def PendingHeld (f : DecisionLog) : Prop :=
  f.lastApplied < f.commitIndex → f.commitIndex ≤ f.entries.length

theorem linked_of_le_length (hpre : f.entries <+: l.entries)
    (hle : next - 1 ≤ f.entries.length) : Linked l f next := by
  rcases Nat.eq_zero_or_pos (next - 1) with h0 | hpos
  · exact .inl h0
  right
  have hslot : f.entries[next - 1 - 1]? = l.entries[next - 1 - 1]? :=
    (prefix_agreeTo hpre hle).getElem? (by omega)
  have hsome : ∃ e, f.entries[next - 1 - 1]? = some e :=
    ⟨_, getElem?_eq_getElem (by omega)⟩
  obtain ⟨e, he⟩ := hsome
  rw [get_of_pos hpos, get_of_pos hpos, ← hslot, he]
  rfl

/-- A refusal rolls `next_index` back while the follower's log is part of the leader's. -/
theorem rollBack_lt (hf : f.Indexed) (hpre : f.entries <+: l.entries) (hlink : ¬ Linked l f next) :
    rollBack f next < next := by
  have hlt : f.entries.length < next - 1 := by
    by_contra hge
    exact hlink (linked_of_le_length hpre (by omega))
  unfold rollBack
  rw [hf.lastIndex_eq]
  split <;> omega

/-- A log that is part of the leader's is not cut by its entries. -/
theorem Going.not_panics (h : x.Going T l f next) (hl : l.Indexed) (hf : f.Indexed)
    (hheld : PendingHeld f) (hpre : f.entries <+: l.entries) :
    ¬ x.follower.Panics ov x.leader.id (.appendReq x.req) := by
  rintro ⟨-, -, hpending, -, hcut⟩
  rw [h.followerLog] at hpending hcut
  have hlen := hheld hpending
  obtain ⟨ps, -, -, hreq⟩ := h.sending
  have hentries : ∀ e ∈ x.req.entries, ¬ f.Conflicts e := by
    rintro e he ⟨y, hy, hne⟩
    have hmem : e ∈ l.entries := by
      rw [hreq] at he
      unfold appendMsg at he
      rw [h.leaderLog] at he
      split at he
      · cases he
      · exact mem_of_mem_drop he
    obtain ⟨k, hk⟩ := mem_iff_getElem?.1 hmem
    obtain ⟨-, hslot⟩ := get_eq_some.1 hy
    rw [hl k e hk, Nat.add_sub_cancel] at hslot
    have hlt : k < f.entries.length := (List.getElem?_eq_some_iff.1 hslot).1
    have hsame := (prefix_agreeTo hpre le_rfl).getElem? hlt
    rw [hslot, hk] at hsame
    exact hne (by rw [some.inj hsame])
  have hkept := (foldl_appendEntry_take x.req.entries hf hlen fun e he _ => hentries e he).2
  omega

section

variable (hl : l.Indexed) (hf : f.Indexed) (hheld : PendingHeld f)
  (hroom : f.lastIndex + 1 < 2 ^ 64) (hpre : f.entries <+: l.entries)

include hl hf hheld hroom hpre

/-- The leader gets through to a follower whose log is part of its own. -/
theorem Going.succeeds (h : x.Going T l f next) : ∃ k, (x.rounds ov k).2 = true := by
  induction next using Nat.strong_induction_on generalizing x with
  | _ next ih =>
    by_cases hlink : Linked l f next
    · refine ⟨1, ?_⟩
      simp only [rounds, h.accepted hf hlink (h.not_panics hl hf hheld hpre)]
    · obtain ⟨x', hround, h'⟩ := h.rejected ov hl hroom hlink
      obtain ⟨k, hk⟩ := ih _ (rollBack_lt hf hpre hlink) h'
      refine ⟨k + 1, ?_⟩
      simp only [rounds, hround]
      exact hk

theorem Going.decreasing (k : Nat) (h : x.Going T l f next) :
    (x.rounds ov k).1.Pairwise (· > ·) ∧ ∀ m ∈ (x.rounds ov k).1, m ≤ next := by
  induction k generalizing x next with
  | zero => simp [rounds]
  | succ k ih =>
    by_cases hlink : Linked l f next
    · simp only [rounds, h.accepted hf hlink (h.not_panics hl hf hheld hpre), h.nextIndex_eq]
      simp
    obtain ⟨x', hround, h'⟩ := h.rejected ov hl hroom hlink
    have hlt := rollBack_lt hf hpre hlink
    obtain ⟨hpair, hle⟩ := ih h'
    simp only [rounds, hround, h.nextIndex_eq, pairwise_cons, mem_cons]
    refine ⟨⟨fun m hm => ?_, hpair⟩, ?_⟩
    · have := hle m hm
      omega
    · rintro m (rfl | hm)
      · exact le_rfl
      · have := hle m hm
        omega

end

/-- Success: the first request was taken, or the follower's log is part of the leader's. -/
theorem Going.of_success (hl : l.Indexed) (hf : f.Indexed) (hmatch : Matched l f)
    (hroom : f.lastIndex + 1 < 2 ^ 64) (k : Nat) (h : x.Going T l f next)
    (hk : (x.rounds ov k).2 = true) :
    (Linked l f next ∧ ¬ x.follower.Panics ov x.leader.id (.appendReq x.req)) ∨
      f.entries <+: l.entries := by
  induction k generalizing x next with
  | zero => simp [rounds] at hk
  | succ k ih =>
    by_cases hlink : Linked l f next
    · by_cases hp : x.follower.Panics ov x.leader.id (.appendReq x.req)
      · have hround := round_of_panics (by rw [h.followerLog]; exact hf) hp
        simp [rounds, hround] at hk
      · exact .inl ⟨hlink, hp⟩
    obtain ⟨x', hround, h'⟩ := h.rejected ov hl hroom hlink
    simp only [rounds, hround] at hk
    right
    rcases ih h' hk with ⟨hlink', -⟩ | hpre
    · -- the retry starts behind the follower's last entry, so all of it is the leader's
      have hagree := hmatch _ hlink'
      unfold rollBack at hagree
      rw [hf.lastIndex_eq] at hagree
      split at hagree
      · rw [Nat.add_sub_cancel] at hagree
        rw [prefix_iff_eq_take, ← hagree.2, take_length]
      · rw [length_eq_zero_iff.1 (by omega : f.entries.length = 0)]
        exact nil_prefix
    · exact hpre

/-- A follower that refuses behind its own last entry refuses forever. -/
theorem Going.stuck (hl : l.Indexed) (hroom : f.lastIndex + 1 < 2 ^ 64)
    (hlink : ¬ Linked l f next) (hsame : rollBack f next = next) (k : Nat)
    (h : x.Going T l f next) : x.rounds ov k = (replicate k next, false) := by
  induction k generalizing x with
  | zero => rfl
  | succ k ih =>
    obtain ⟨x', hround, h'⟩ := h.rejected ov hl hroom hlink
    rw [hsame] at h'
    simp only [rounds, hround, ih h', h.nextIndex_eq, replicate_succ]

theorem rounds_of_broken (h : x.round ov = .broken) (k : Nat) : (x.rounds ov k).2 = false := by
  cases k with
  | zero => rfl
  | succ k => simp only [rounds, h]

/-! ## In a cluster -/

theorem pendingHeld_restart {n : RaftNode} (h : n.Sound) (timeout : Nat) :
    PendingHeld (n.restart timeout).log := by
  intro _
  rw [h.restart_commitIndex_min, h.restart_entries]
  exact min_le_right _ _

/-- A batch that is taken leaves nothing to be applied. -/
theorem pendingHeld_takeUnapplied {l' : DecisionLog} {batch : List LogEntry} (hl : l.Indexed)
    (hb : l.takeUnapplied = some (l', batch)) : PendingHeld l' := by
  obtain ⟨rfl, -, -⟩ := hl.takeUnapplied_eq hb
  intro hlt
  dsimp only at hlt
  omega

theorem PendingHeld.exec {n : RaftNode} (ov : Overflow) (hs : n.Sound) (h : PendingHeld n.log)
    (call : Call) : PendingHeld (n.exec ov call).1.log := by
  rcases exec_cases ov hs.indexed call with ⟨-, ht⟩ | ⟨-, hc, -⟩
  · have hlog := ht.logStep hs.indexed
    generalize (n.exec ov call).1.log = log, applied (n.exec ov call).2 = batch at hlog
    cases hlog with
    | same => exact h
    | appended t c =>
      intro hlt
      have hle := h hlt
      rw [append_entries, length_append, append_commitIndex]
      omega
    | merged s req _ _ _ hb =>
      exact pendingHeld_takeUnapplied (merged_indexed hs.indexed req) hb
    | committed k _ _ hb => exact pendingHeld_takeUnapplied (hs.indexed.setCommitIndex k) hb
  · generalize (n.exec ov call).1 = n' at hc
    cases hc with
    | restarted => exact pendingHeld_restart hs _
    | appendCrashed s req => exact pendingHeld_restart (hs.accept req) _

theorem pendingHeld_run (cfg : ClusterConfig) (ov : Overflow) (es : List ClusterEvent) (i : Nat) :
    PendingHeld ((run (Cluster.exec cfg ov) cfg.boot es).nodes i).log :=
  Cluster.nodes_run (P := fun n => PendingHeld n.log) ov (fun _ h => absurd h (lt_irrefl 0))
    (fun _ call hs h => h.exec ov hs call) es i

/-- An entry of a term of the leader's log is the leader's, with all before it. -/
theorem matched_of_lineage {L : Nat → List LogEntry} (hl : Lineage LogEntry.term L l.entries)
    (hf : Lineage LogEntry.term L f.entries) (hterms : ∀ e ∈ f.entries, 1 ≤ e.term) :
    Matched l f := by
  rintro next (h0 | hlink)
  · rw [h0]
    exact agreeTo_zero _ _
  · obtain ⟨e, he, hterm⟩ := map_eq_some_iff.1 hlink
    obtain ⟨hpos, hslot⟩ := get_eq_some.1 he
    have hone := hterms e (mem_of_getElem? hslot)
    -- terms start at one, so the zero that stands for a missing entry does not match
    cases hget : l.get (next - 1) with
    | none => simp only [hget, map_none, getD_none] at hterm; omega
    | some e' =>
      rw [get_of_pos hpos] at hget
      have hsame : e.term = e'.term := by
        simpa [get_of_pos hpos, hget] using hterm
      have hagree := hf.matching hl hslot hget hsame
      rwa [Nat.sub_add_cancel hpos] at hagree

end Exchange

open Exchange in
/-- **When a leader gets through to a follower.** In every state reached without two leaders in one
term, the rounds between a leader and a follower not ahead of its term end in success exactly when
the first request is taken (and does not panic) or the follower's log is part of the leader's. Then
every refusal has lowered `next_index`. -/
theorem reconciled_iff (cfg : ClusterConfig) (ov : Overflow) (es : List ClusterEvent)
    (hfit : ov = .wrapping → Throughout (Cluster.exec cfg ov) (Cluster.EventFits ov) cfg.boot es)
    (hone : (run (Cluster.exec cfg ov) cfg.boot es).OneLeaderPerTerm) (i j : Nat)
    {req : AppendEntriesReq} :
    let c := run (Cluster.exec cfg ov) cfg.boot es
    let x : Exchange := ⟨c.nodes i, c.nodes j, req⟩
    (c.nodes i).role = .leader → (c.nodes i).sendAppend j = some [.send j (.appendReq req)] →
    (c.nodes j).log.lastIndex + 1 < 2 ^ 64 →
      ((∃ k, (x.rounds ov k).2 = true) ↔
        (c.nodes j).currentTerm ≤ (c.nodes i).currentTerm ∧
          ((c.nodes j).prevOk req ∧ ¬ (c.nodes j).Panics ov i (.appendReq req) ∨
            (c.nodes j).log.entries <+: (c.nodes i).log.entries)) ∧
      ∀ k, (x.rounds ov k).2 = true → (x.rounds ov k).1.Pairwise (· > ·) := by
  obtain ⟨L, hL⟩ := Cluster.inherited_run (Cluster.throughout_eventFits hfit) hone
  intro c x hr hsend hroom
  have hl := (hL.wf.sound i).indexed
  have hf := (hL.wf.sound j).indexed
  obtain ⟨ps, hps, hreq⟩ : ∃ ps, (c.nodes i).peerState.lookup j = some ps ∧
      req = (c.nodes i).appendMsg ps := by
    rw [sendAppend_eq hl, some.injEq] at hsend
    have hmem : RaftAction.send j (.appendReq req) ∈ (c.nodes i).appendActions j := by
      rw [hsend]
      exact mem_singleton_self _
    obtain ⟨ps, hps, heq⟩ := mem_appendActions.1 hmem
    exact ⟨ps, hps, by simpa using heq⟩
  by_cases hterm : (c.nodes j).currentTerm ≤ (c.nodes i).currentTerm
  · have hgo : x.Going (c.nodes i).currentTerm (c.nodes i).log (c.nodes j).log ps.nextIndex :=
      ⟨hr, rfl, rfl, hterm, rfl, ps, by rw [hL.wf.id j]; exact hps, rfl, hreq⟩
    have hmatch : Matched (c.nodes i).log (c.nodes j).log :=
      matched_of_lineage (hL.node i).lineage (hL.node j).lineage
        fun e he => ((hL.node j).terms e he).1
    have hheld := pendingHeld_run cfg ov es j
    refine ⟨⟨?_, ?_⟩, ?_⟩
    · rintro ⟨k, hk⟩
      exact ⟨hterm, (hgo.of_success hl hf hmatch hroom k hk).imp_left
        fun ⟨hlink, hp⟩ => ⟨hgo.prevOk_iff.2 hlink, hp⟩⟩
    · rintro ⟨-, ⟨hprev, hp⟩ | hpre⟩
      · exact ⟨1, by simp only [rounds, hgo.accepted hf (hgo.prevOk_iff.1 hprev) hp]⟩
      · exact hgo.succeeds hl hf hheld hroom hpre
    · intro k hk
      rcases hgo.of_success hl hf hmatch hroom k hk with ⟨hlink, hp⟩ | hpre
      · cases k with
        | zero => simp [rounds]
        | succ k => simp [rounds, hgo.accepted hf hlink hp]
      · exact (hgo.decreasing hl hf hheld hroom hpre k).1
  · have hreqterm : x.req.term = (c.nodes i).currentTerm := congrArg AppendEntriesReq.term hreq
    have hround : x.round ov = .broken :=
      round_of_later (by rw [hreqterm]; exact not_le.1 hterm) hreqterm.symm
    have hnever := rounds_of_broken hround
    refine ⟨⟨fun ⟨k, hk⟩ => ?_, fun h => absurd h.1 hterm⟩, fun k hk => ?_⟩
    all_goals
      rw [hnever k] at hk
      cases hk

/-- The first leader brings its no-op to an empty follower, after one refusal. -/
theorem empty_follower_reconciled :
    let c := run (Cluster.exec .three .wrapping) ClusterConfig.three.boot Cluster.electedInFirstTerm
    ∃ k, ((⟨c.nodes 1, c.nodes 2, ⟨1, 1, 1, 1, [], 0⟩⟩ : Exchange).rounds .wrapping k).2 = true :=
  (reconciled_iff .three .wrapping Cluster.electedInFirstTerm
    (fun _ => Cluster.eventFits_of_length (by decide +kernel) (by decide))
    (Cluster.oneLeader_run (by decide +kernel)) 1 2 (by decide +kernel) (by decide +kernel)
    (by decide +kernel)).1.2 ⟨by decide +kernel, .inr (by decide +kernel)⟩

/-- The first leader keeps its no-op to itself; node 3 elects node 2 in term 2. -/
def conflictingTails : List ClusterEvent :=
  Cluster.electedInFirstTerm ++ timeoutOf 2 ++
    [(3, .step 2 (.voteReq ⟨2, 2, 0, 0⟩)), (2, .step 3 (.voteResp ⟨2, 3, true⟩))]

/-- The leader of term 2 never gets through to that of term 1: `next_index` stays 2. -/
theorem conflicting_tail_never_reconciled :
    let c := run (Cluster.exec .three .checked) ClusterConfig.three.boot conflictingTails
    let x : Exchange := ⟨c.nodes 2, c.nodes 1, ⟨2, 2, 1, 2, [], 0⟩⟩
    c.OneLeaderPerTerm ∧ (c.nodes 2).role = .leader ∧
      (c.nodes 2).sendAppend 1 = some [.send 1 (.appendReq x.req)] ∧
      (c.nodes 1).currentTerm ≤ (c.nodes 2).currentTerm ∧
      ∀ k, x.rounds .checked k = (replicate k 2, false) := by
  intro c x
  have hlog : (c.nodes 2).log = ⟨[⟨2, 1, .noop⟩], 0, 0⟩ := by decide +kernel
  have hgo : x.Going 2 (c.nodes 2).log (c.nodes 1).log 2 :=
    ⟨by decide +kernel, by decide +kernel, rfl, by decide +kernel, rfl, ⟨2, 0⟩, by decide +kernel,
      rfl, by decide +kernel⟩
  refine ⟨Cluster.oneLeader_run (by decide +kernel), by decide +kernel, by decide +kernel,
    by decide +kernel, fun k => ?_⟩
  refine hgo.stuck ?_ (by decide +kernel) (by decide +kernel) (by decide +kernel) k
  rw [hlog]
  exact (indexed_new.append 2 .noop)

end Haltchain.Consensus

import Haltchain.Consensus.MatchIndex

/-! # Leader completeness

Beside the leader logs of `Inherited`, the logs with which candidates went into their elections are
recorded (`recordCandidate`). Every event keeps two facts about every node: what it has acknowledged
of a leader's log it still has, unless a later leader that lacks it has overwritten it (`Retains`);
and whomever it votes for after that has it too, unless a leader in between lacks it (`Checked`).
The rest is `Lib.leader_completeness`. -/

namespace Haltchain.Consensus

open Lib List Option

/-! ## One call, from every side -/

/-- The views of one call that replication safety rests on. -/
structure RaftNode.Moved (ov : Overflow) (n : RaftNode) (call : Call) (n' : RaftNode)
    (obs : List Observation) : Prop where
  entries : EntriesStep n call n' obs
  candidacy : Candidacy ov n call n' obs
  sent : ∀ dest msg, .action (.send dest msg) ∈ obs → SentMessage n call n' dest msg
  started : ∀ t, .electionStarted t ∈ obs →
    call = .tick ∧ t = n'.currentTerm ∧ n.currentTerm < t
  broadcast : ∀ msg, .action (.broadcast msg) ∈ obs → .electionStarted n'.currentTerm ∈ obs ∧
    msg = .voteReq ⟨n'.currentTerm, n.id, n.log.lastIndex, n.log.lastTerm⟩

variable {t : Nat}

namespace RaftNode

variable {ov : Overflow} {n n' : RaftNode} {call : Call} {obs : List Observation}

theorem exec_moved (h : n.Sound) (hfit : n.TermFits ov call) :
    Moved ov n call (n.exec ov call).1 (n.exec ov call).2 where
  entries := exec_entriesStep h hfit
  candidacy := exec_candidacy ov h call
  sent := exec_sent ov h call
  started := fun _ hm => exec_started h hfit hm
  broadcast := fun _ hm => exec_broadcast h hm

theorem EntriesStep.term_le (h : EntriesStep n call n' obs) : n.currentTerm ≤ n'.currentTerm := by
  cases h with
  | kept _ ht => exact ht
  | proposed _ _ _ _ ht => exact Nat.le_of_eq ht.symm
  | won _ ht => exact ht
  | accepted _ _ _ _ ht _ ht' => exact ht'.symm ▸ ht

/-- A candidate has the log it had before the call. -/
theorem EntriesStep.of_candidate (h : EntriesStep n call n' obs) (hr : n'.role = .candidate) :
    n'.log.entries = n.log.entries := by
  cases h with
  | kept _ _ _ _ he => exact he
  | proposed _ _ _ hr' | won _ _ _ hr' | accepted _ _ _ _ _ _ _ hr' =>
    exact absurd (hr'.symm.trans hr) (by decide)

/-- A new leader has appended one entry, of its own term, to its log. -/
theorem EntriesStep.of_leadership (h : EntriesStep n call n' obs) (ht : t ∈ leaderships obs) :
    t = n'.currentTerm ∧ n'.role = .leader ∧
      n.log.entries <+: n'.log.entries := by
  cases h with
  | kept hl | proposed hl | accepted hl => rw [hl] at ht; exact absurd ht (by simp)
  | won hl _ _ hr he =>
    rw [hl] at ht
    exact ⟨mem_singleton.1 ht, hr, he ▸ prefix_append _ _⟩

/-- A node that campaigns or has won, with no leadership to announce, was a candidate of the term
before, or has just started the election. -/
theorem Moved.campaigned (h : Moved ov n call n' obs)
    (hor : n'.role = .candidate ∨ n'.currentTerm ∈ leaderships obs) :
    .electionStarted n'.currentTerm ∈ obs ∨
      (n.role = .candidate ∧ n'.currentTerm = n.currentTerm ∧
        .electionStarted n'.currentTerm ∉ obs) := by
  have hnot : n'.currentTerm = n.currentTerm → .electionStarted n'.currentTerm ∉ obs := by
    intro heq hs
    have := (h.started _ hs).2.2
    omega
  have hnone : leaderships obs = [] → n'.role = .candidate := by
    intro hl
    rw [hl] at hor
    exact hor.resolve_right (by simp)
  cases h.candidacy with
  | same hl hr ht => exact .inr ⟨hr ▸ hnone hl, ht, hnot ht⟩
  | followed hl hr => exact absurd (hr.symm.trans (hnone hl)) (by decide)
  | campaign _ _ _ _ hs | campaignWon _ _ _ _ hs => exact .inl hs
  | counted _ _ _ _ _ hc _ _ ht | won _ _ _ _ _ hc _ _ ht => exact .inr ⟨hc, ht, hnot ht⟩

end RaftNode

/-! ## The logs of candidates -/

/-- What is recorded of a call: the log with which node `i` starts an election. -/
def recordCandidate (K : Nat → Nat → List LogEntry) (i : Nat) (n : RaftNode)
    (obs : List Observation) : Nat → Nat → List LogEntry :=
  fun t j => if j = i ∧ .electionStarted t ∈ obs then n.log.entries else K t j

theorem recordCandidate_started {K : Nat → Nat → List LogEntry} {i : Nat} {n : RaftNode}
    {obs : List Observation} (h : .electionStarted t ∈ obs) :
    recordCandidate K i n obs t i = n.log.entries := if_pos ⟨rfl, h⟩

theorem recordCandidate_other {K : Nat → Nat → List LogEntry} {i j : Nat} {n : RaftNode}
    {obs : List Observation} (h : j = i → .electionStarted t ∉ obs) :
    recordCandidate K i n obs t j = K t j := if_neg fun hc => h hc.1 hc.2

theorem lastTerm_le {l : List LogEntry} (h : ∀ e ∈ l, e.term ≤ t) :
    lastTerm LogEntry.term l ≤ t := by
  by_cases hne : l = []
  · rw [hne]
    exact Nat.zero_le _
  · obtain ⟨e, he, hterm⟩ := lastTerm_of_ne_nil LogEntry.term hne
    rw [← hterm]
    exact h e (mem_of_getElem? he)

namespace Cluster

variable {cfg : ClusterConfig} {ov : Overflow} {c : Cluster} {L L' : Nat → List LogEntry}
  {K : Nat → Nat → List LogEntry}

/-- The candidate logs `K`: each is older than its election and a lineage of the leader logs, vote
requests describe it, and whoever wins leads with it. -/
structure Campaigned (L : Nat → List LogEntry) (K : Nat → Nat → List LogEntry) (c : Cluster) :
    Prop where
  older : ∀ u i, ∀ e ∈ K u i, e.term < u
  lineage : ∀ u i, Lineage LogEntry.term L (K u i)
  candidate : ∀ i, (c.nodes i).role = .candidate →
    K (c.nodes i).currentTerm i = (c.nodes i).log.entries
  leader : ∀ i u, c.led i u → K u i <+: L u
  request : ∀ i req, (i, .action (.broadcast (.voteReq req))) ∈ c.trace →
    req.term ≤ (c.nodes i).currentTerm ∧ req.lastLogIdx = (K req.term i).length ∧
      req.lastLogTerm = lastTerm LogEntry.term (K req.term i)
  ballot : ∀ q i u, (i, u) ∈ c.cast q → u ≤ (c.nodes i).currentTerm

variable {n : Nat}

section

variable {i : Nat} {call : Call} {n' : RaftNode} {obs : List Observation}

theorem put_term_le (hm : RaftNode.Moved ov (c.nodes i) call n' obs) (j : Nat) :
    (c.nodes j).currentTerm ≤ ((c.put i n' obs).nodes j).currentTerm := by
  by_cases hj : j = i
  · rw [hj, put_nodes_self]
    exact hm.entries.term_le
  · rw [put_nodes_ne hj]

/-- A new vote is a candidate's own, or was asked for with an up-to-date log. -/
theorem new_ballot (hwf : c.WellFormed cfg) (hen : c.enabled cfg (i, call))
    (hm : RaftNode.Moved ov (c.nodes i) call n' obs) {k u : Nat} (hb : (k, u) ∈ ballots i obs) :
    (k = i ∧ .electionStarted u ∈ obs) ∨
      ∃ req, call = .step k (.voteReq req) ∧ u = req.term ∧ n'.currentTerm = req.term ∧
        (k, .action (.broadcast (.voteReq req))) ∈ c.trace ∧ (c.nodes i).logOk req := by
  obtain ⟨o, ho, hcast⟩ := mem_filterMap.1 hb
  unfold ballot at hcast
  split at hcast
  · next dest resp =>
    split at hcast
    · next hg =>
      obtain ⟨rfl, rfl⟩ := Prod.mk.inj (some.inj hcast)
      cases hm.sent _ _ ho with
      | denial _ hf => exact absurd (hf.symm.trans hg) (by decide)
      | grant s req hcall hdest _ hl ht' =>
        subst hcall
        obtain ⟨htrace, hid⟩ := hwf.delivered_voteReq hen
        obtain rfl : dest = s := hdest.trans hid
        exact .inr ⟨req, rfl, rfl, ht', htrace, hl⟩
    · simp at hcast
  · obtain ⟨rfl, rfl⟩ := Prod.mk.inj (some.inj hcast)
    exact .inl ⟨rfl, ho⟩
  · simp at hcast

/-- The log of an election that is over or under way is not recorded again. -/
theorem recordCandidate_past (hm : RaftNode.Moved ov (c.nodes i) call n' obs) {j u : Nat}
    (hu : u ≤ (c.nodes j).currentTerm) : recordCandidate K i (c.nodes i) obs u j = K u j := by
  refine recordCandidate_other fun hj hs => ?_
  have := (hm.started u hs).2.2
  rw [hj] at hu
  omega

theorem Campaigned.put (h : Campaigned L K c) (hin : Inherited cfg L c)
    (hin' : Inherited cfg L' (c.put i n' obs)) (hmono : ∀ t, L t <+: L' t)
    (hen : c.enabled cfg (i, call)) (hm : RaftNode.Moved ov (c.nodes i) call n' obs) :
    Campaigned L' (recordCandidate K i (c.nodes i) obs) (c.put i n' obs) := by
  have hle := put_term_le hm
  -- whoever campaigns now, or has just won, went into the election with the log before the call
  have hown : (n'.role = .candidate ∨ n'.currentTerm ∈ leaderships obs) →
      recordCandidate K i (c.nodes i) obs n'.currentTerm i = (c.nodes i).log.entries := by
    intro hor
    rcases hm.campaigned hor with hs | ⟨hr, ht, hs⟩
    · exact recordCandidate_started hs
    · rw [recordCandidate_other fun _ => hs, ht]
      exact h.candidate i hr
  refine ⟨fun u j e he => ?_, fun u j => ?_, fun j hr => ?_, fun j u hl => ?_, fun j req hb => ?_,
    fun q j u hb => ?_⟩
  · unfold recordCandidate at he
    split at he
    · next hs =>
      have hlt := (hm.started u hs.2).2.2
      have hterm := ((hin.node i).terms e he).2
      omega
    · exact h.older u j e he
  · unfold recordCandidate
    split
    · exact (hin.node i).lineage.mono hmono
    · exact (h.lineage u j).mono hmono
  · by_cases hj : j = i
    · subst hj
      rw [put_nodes_self] at hr ⊢
      rw [hown (.inl hr), hm.entries.of_candidate hr]
    · rw [put_nodes_ne hj] at hr ⊢
      rw [recordCandidate_other fun heq => absurd heq hj]
      exact h.candidate j hr
  · rcases put_led.1 hl with hold | ⟨rfl, hnew⟩
    · rw [recordCandidate_past hm ((hin.node j).past u hold).1]
      exact (h.leader j u hold).trans (hmono u)
    · obtain ⟨rfl, hr, hpre⟩ := hm.entries.of_leadership hnew
      have hL := ((hin'.node j).leader (by rw [put_nodes_self]; exact hr)).2
      rw [put_nodes_self] at hL
      rw [hown (.inr hnew), hL]
      exact hpre
  · rcases mem_put_trace.1 hb with hold | ⟨rfl, hnew⟩
    · obtain ⟨ht, hreq⟩ := h.request j req hold
      rw [recordCandidate_past hm ht]
      exact ⟨ht.trans (hle j), hreq⟩
    obtain ⟨hs, heq⟩ := hm.broadcast _ hnew
    injection heq with heq
    subst heq
    rw [put_nodes_self]
    refine ⟨le_rfl, ?_, ?_⟩
    · show (c.nodes j).log.lastIndex = _
      rw [recordCandidate_started hs, (hin.wf.sound j).indexed.lastIndex_eq]
    · show (c.nodes j).log.lastTerm = _
      rw [recordCandidate_started hs]
      rfl
  · rcases mem_put_cast.1 hb with hold | ⟨rfl, hnew⟩
    · exact (h.ballot q j u hold).trans (hle j)
    · rcases new_ballot hin.wf hen hm hnew with ⟨rfl, hs⟩ | ⟨req, -, rfl, -, htrace, -⟩
      · rw [put_nodes_self]
        exact Nat.le_of_eq (hm.started u hs).2.1
      · exact (h.request j req htrace).1.trans (hle j)

/-! ## What a node has acknowledged or led -/

/-- Node `q` has stored the log of the leader of `t` up to `m`: it acknowledged that much in `t`, or
it is that leader. -/
def Holds (L : Nat → List LogEntry) (c : Cluster) (q t m : Nat) : Prop :=
  c.acked q t m ∨ (c.led q t ∧ m ≤ (L t).length)

/-- The leader of `t` appended the entry in slot `n` itself. -/
def OwnEntry (L : Nat → List LogEntry) (t n : Nat) : Prop :=
  1 ≤ n ∧ ∃ e, (L t)[n - 1]? = some e ∧ e.term = t

/-- What was acknowledged is part of the leader log. -/
def AcksBounded (L : Nat → List LogEntry) (c : Cluster) : Prop :=
  ∀ q t m, c.acked q t m → t ≤ (c.nodes q).currentTerm ∧ m ≤ (L t).length

theorem OwnEntry.length_le (h : OwnEntry L t n) : n ≤ (L t).length := by
  obtain ⟨hpos, e, he, -⟩ := h
  have := (List.getElem?_eq_some_iff.1 he).1
  omega

theorem OwnEntry.mono (h : OwnEntry L t n) (hmono : ∀ t, L t <+: L' t) : OwnEntry L' t n := by
  have hagree := prefix_agreeTo (hmono t) h.length_le
  obtain ⟨hpos, e, he, hterm⟩ := h
  exact ⟨hpos, e, by rw [← hagree.getElem? (by omega), he], hterm⟩

theorem OwnEntry.back (h : OwnEntry L' t n) (hmono : ∀ t, L t <+: L' t) (hn : n ≤ (L t).length) :
    OwnEntry L t n := by
  have hagree := prefix_agreeTo (hmono t) hn
  obtain ⟨hpos, e, he, hterm⟩ := h
  exact ⟨hpos, e, by rw [hagree.getElem? (by omega), he], hterm⟩

theorem Holds.bounds (hin : Inherited cfg L c) (hacks : AcksBounded L c) {q m : Nat}
    (h : Holds L c q t m) : t ≤ (c.nodes q).currentTerm ∧ m ≤ (L t).length := by
  rcases h with hack | ⟨hled, hm⟩
  · exact hacks q t m hack
  · exact ⟨((hin.node q).past t hled).1, hm⟩

theorem Holds.put {q m : Nat} (h : Holds L c q t m) (hmono : ∀ t, L t <+: L' t) :
    Holds L' (c.put i n' obs) q t m := by
  rcases h with hack | ⟨hled, hm⟩
  · exact .inl (hack.mono fun o ho => mem_put_trace.2 (.inl ho))
  · exact .inr ⟨put_led.2 (.inl hled), hm.trans (hmono t).length_le⟩

theorem AcksBounded.put (h : AcksBounded L c) (hin : Inherited cfg L c)
    (hmono : ∀ t, L t <+: L' t) (hen : c.enabled cfg (i, call))
    (hm : RaftNode.Moved ov (c.nodes i) call n' obs) : AcksBounded L' (c.put i n' obs) := by
  rintro q t m ⟨dest, hack⟩
  rcases mem_put_trace.1 hack with hold | ⟨rfl, hnew⟩
  · obtain ⟨ht, hlen⟩ := h q t m ⟨dest, hold⟩
    exact ⟨ht.trans (put_term_le hm q), hlen.trans (hmono t).length_le⟩
  obtain ⟨hterm, hlen, hpre⟩ := hin.ack_sent hen (hm.sent _ _ hnew) rfl
  rw [put_nodes_self]
  refine ⟨Nat.le_of_eq hterm, ?_⟩
  calc m = n'.log.entries.length := hlen
    _ ≤ (L t).length := hpre.length_le
    _ ≤ (L' t).length := (hmono t).length_le

/-- **Who holds more after a call**: only its node, in its present term, and its log is a prefix of
the leader's. -/
theorem Holds.of_put (hin : Inherited cfg L c)
    (hin' : Inherited cfg (recordLeader L n') (c.put i n' obs))
    (hmono : ∀ t, L t <+: recordLeader L n' t) (hone : (c.put i n' obs).OneLeaderPerTerm)
    (hen : c.enabled cfg (i, call)) (hm : RaftNode.Moved ov (c.nodes i) call n' obs) {q m : Nat}
    (h : Holds (recordLeader L n') (c.put i n' obs) q t m) :
    Holds L c q t m ∨ (q = i ∧ t = n'.currentTerm ∧ m ≤ n'.log.entries.length ∧
      n'.log.entries <+: recordLeader L n' t) := by
  rcases h with ⟨dest, hack⟩ | ⟨hled, hlen⟩
  · rcases mem_put_trace.1 hack with hold | ⟨rfl, hnew⟩
    · exact .inl (.inl ⟨dest, hold⟩)
    · obtain ⟨hterm, hmatch, hpre⟩ := hin.ack_sent hen (hm.sent _ _ hnew) rfl
      exact .inr ⟨rfl, hterm, Nat.le_of_eq hmatch, hpre.trans (hmono t)⟩
  by_cases hnow : n'.role = .leader ∧ t = n'.currentTerm
  · -- the leader of the present term is the node itself
    obtain ⟨hr, rfl⟩ := hnow
    obtain ⟨hledi, hL⟩ := (hin'.node i).leader (by rw [put_nodes_self]; exact hr)
    rw [put_nodes_self] at hledi hL
    refine .inr ⟨hone _ q i hled hledi, rfl, ?_, ?_⟩
    · rw [hL] at hlen
      exact hlen
    · rw [hL]
  · have hsame : recordLeader L n' t = L t := by
      unfold recordLeader
      split
      · next hr => exact Function.update_of_ne (fun ht => hnow ⟨hr, ht⟩) _ _
      · rfl
    rw [hsame] at hlen
    rcases put_led.1 hled with hold | ⟨-, hnew⟩
    · exact .inl (.inr ⟨hold, hlen⟩)
    · obtain ⟨ht, hr, -⟩ := hm.entries.of_leadership hnew
      exact absurd ⟨hr, ht⟩ hnow

/-! ## What is held stays -/

/-- `l` has the first `n` entries of the leader log of `t`, or a later leader that lacks them
overwrote it. -/
def Retains (L : Nat → List LogEntry) (t n : Nat) (l : List LogEntry) : Prop :=
  AgreeTo n l (L t) ∨
    ∃ u, t < u ∧ u ≤ lastTerm LogEntry.term l ∧ Differs n (L u) (L t)

theorem Retains.mono {l : List LogEntry} (h : Retains L t n l) (hmono : ∀ t, L t <+: L' t)
    (hn : n ≤ (L t).length) : Retains L' t n l := by
  rcases h with hagree | ⟨u, htu, hu, hd⟩
  · exact .inl (hagree.extend_right (hmono t))
  · exact .inr ⟨u, htu, hu, hd.extend (hmono u) (hmono t) hn⟩

/-- An accepted request leaves in place what agrees with the leader's log. -/
theorem Inherited.accepted_agree (h : Inherited cfg L c) {s : Nat} {req : AppendEntriesReq}
    (hen : c.enabled cfg (i, .step s (.appendReq req))) (hp : (c.nodes i).prevOk req)
    (ha : AgreeTo n (c.nodes i).log.entries (L req.term)) :
    AgreeTo n ((c.nodes i).merged req).entries (L req.term) := by
  obtain ⟨m, hcut, hcase⟩ := h.accepted hen hp
  rcases hcase with ⟨hkeep, -⟩ | ⟨htake, hnot⟩
  · rw [hkeep]
    exact ha
  have hlt : n ≤ m := by
    by_contra hge
    exact hnot (ha.mono (by omega))
  rw [htake]
  refine prefix_agreeTo ⟨_, take_append_drop m _⟩ ?_
  rw [length_take]
  have := hcut.length_le
  omega

/-- What a node holds of the leader log of `t` it retains through any call. -/
theorem Retains.put (h : Retains L t n (c.nodes i).log.entries) (hin : Inherited cfg L c)
    (hown : OwnEntry L t n) (ht : t ≤ (c.nodes i).currentTerm) (hen : c.enabled cfg (i, call))
    (hm : RaftNode.Moved ov (c.nodes i) call n' obs) : Retains L t n n'.log.entries := by
  have hlast := lastTerm_le fun e he => ((hin.node i).terms e he).2
  -- appending an entry of the present term
  have hconcat : ∀ x : LogEntry, (c.nodes i).currentTerm ≤ x.term →
      Retains L t n ((c.nodes i).log.entries ++ [x]) := by
    intro x hx
    rcases h with hagree | ⟨u, htu, hu, hd⟩
    · exact .inl (hagree.extend_left (prefix_append _ _))
    · exact .inr ⟨u, htu, by rw [lastTerm_concat]; omega, hd⟩
  cases hm.entries with
  | kept _ _ _ _ he => rw [he]; exact h
  | proposed _ cmd _ _ _ he => rw [he]; exact hconcat _ le_rfl
  | won _ ht' _ _ he => rw [he]; exact hconcat _ ht'
  | accepted _ s req hcall hle hp _ _ he =>
    subst hcall
    rw [he]
    rcases Nat.lt_or_eq_of_le (ht.trans hle) with htu | rfl
    · -- a later leader's request: the log is kept or becomes a log of that leader
      obtain ⟨m, hcut, hcase⟩ := hin.accepted hen hp
      rcases hcase with ⟨hkeep, -⟩ | ⟨htake, -⟩
      · rw [hkeep]
        exact h
      rw [htake]
      obtain ⟨x, hx, hxterm⟩ := hcut.last
      have hpos := hcut.pos
      have hcutlen := hcut.length_le
      have hlen : ((L req.term).take m).length = m := by
        rw [length_take]
        omega
      have hne : (L req.term).take m ≠ [] := ne_nil_of_length_pos (by omega)
      have hterm : lastTerm LogEntry.term ((L req.term).take m) = req.term := by
        obtain ⟨y, hy, hyterm⟩ := lastTerm_of_ne_nil LogEntry.term hne
        rw [hlen, getElem?_take_of_lt (by omega), hx] at hy
        rw [← hyterm, ← some.inj hy, hxterm]
      have hn := hown.length_le
      obtain ⟨-, e, he', hterm'⟩ := hown
      rcases agree_or_differs (hin.logs t).lineage hne hterm htu he' hterm' with ha | hd
      · exact .inl ha
      · refine .inr ⟨req.term, htu, Nat.le_of_eq hterm.symm, ?_⟩
        exact hd.extend ⟨_, take_append_drop m _⟩ (prefix_refl _) hn
    · -- a request of the same leader
      rcases h with hagree | ⟨u, htu, hu, -⟩
      · exact .inl (hin.accepted_agree hen hp hagree)
      · omega

/-! ## Who has it gets the votes -/

/-- Whoever holds the log of `t` up to `m` and votes later votes for a candidate that has it too,
unless a leader in between lacks it. -/
def Checked (L : Nat → List LogEntry) (K : Nat → Nat → List LogEntry) (c : Cluster) : Prop :=
  ∀ q i u t m n, (i, u) ∈ c.cast q → Holds L c q t m → t < u → n ≤ m → OwnEntry L t n →
    AgreeTo n (K u i) (L t) ∨ ∃ u', t < u' ∧ u' < u ∧ Differs n (L u') (L t)

/-- A candidate that a holder votes for has a log at least as up to date. -/
theorem Retains.candidate {u : Nat} {voter candidate : List LogEntry} (h : Retains L t n voter)
    (hup : UpToDate LogEntry.term candidate voter) (hlogs : ∀ t, LeaderLog L t (L t))
    (hv : Lineage LogEntry.term L voter) (hc : Lineage LogEntry.term L candidate)
    (holder : ∀ e ∈ candidate, e.term < u) (htu : t < u) (hown : OwnEntry L t n) :
    AgreeTo n candidate (L t) ∨ ∃ u', t < u' ∧ u' < u ∧ Differs n (L u') (L t) := by
  have hlast : lastTerm LogEntry.term candidate < u := by
    have := lastTerm_le (t := u - 1) fun e he => Nat.le_sub_one_of_lt (holder e he)
    omega
  rcases h with hagree | ⟨u', htu', hu', hd⟩
  · obtain ⟨hpos, e, he, hterm⟩ := hown
    rcases hup.agree_or_differs hv hc (fun u => (hlogs u).lineage) (fun u => (hlogs u).last) hpos he
      hterm hagree with ha | ⟨u', htu', hu', hd⟩
    · exact .inl ha
    · exact .inr ⟨u', htu', by omega, hd⟩
  · refine .inr ⟨u', htu', ?_, hd⟩
    rcases hup with hlt | ⟨heq, -⟩ <;> omega

/-- Everything that is held is retained. -/
def Kept (L : Nat → List LogEntry) (c : Cluster) : Prop :=
  ∀ q t m n, Holds L c q t m → n ≤ m → OwnEntry L t n → Retains L t n (c.nodes q).log.entries

section

variable (hin : Inherited cfg L c) (hin' : Inherited cfg (recordLeader L n') (c.put i n' obs))
  (hmono : ∀ t, L t <+: recordLeader L n' t) (hone : (c.put i n' obs).OneLeaderPerTerm)
  (hen : c.enabled cfg (i, call)) (hm : RaftNode.Moved ov (c.nodes i) call n' obs)
include hin hin' hmono hone hen hm

theorem Kept.put (h : Kept L c) (hacks : AcksBounded L c) :
    Kept (recordLeader L n') (c.put i n' obs) := by
  intro q t m n hh hnm hown
  rcases hh.of_put hin hin' hmono hone hen hm with hold | ⟨rfl, rfl, hlen, hpre⟩
  · obtain ⟨ht, hmlen⟩ := hold.bounds hin hacks
    have hown' := hown.back hmono (hnm.trans hmlen)
    have hret := h q t m n hold hnm hown'
    by_cases hq : q = i
    · subst hq
      rw [put_nodes_self]
      exact (hret.put hin hown' ht hen hm).mono hmono (hnm.trans hmlen)
    · rw [put_nodes_ne hq]
      exact hret.mono hmono (hnm.trans hmlen)
  · rw [put_nodes_self]
    exact .inl (prefix_agreeTo hpre (hnm.trans hlen))

theorem Checked.put (h : Checked L K c) (hkept : Kept L c) (hacks : AcksBounded L c)
    (hcamp : Campaigned L K c) (hvotes : VotesBacked cfg c) :
    Checked (recordLeader L n') (recordCandidate K i (c.nodes i) obs) (c.put i n' obs) := by
  intro q k u t m n hb hh htu hnm hown
  -- a new vote is one of the present term
  have hnew : (k, u) ∈ ballots i obs → u = n'.currentTerm := by
    intro hmem
    rcases new_ballot hin.wf hen hm hmem with ⟨-, hs⟩ | ⟨req, -, hu, ht, -⟩
    · exact (hm.started u hs).2.1
    · omega
  rcases hh.of_put hin hin' hmono hone hen hm with hold | ⟨rfl, rfl, -⟩
  · obtain ⟨ht, hmlen⟩ := hold.bounds hin hacks
    have hn := hnm.trans hmlen
    have hown' := hown.back hmono hn
    -- it is enough to have it over the leader logs before the call
    suffices hgoal : AgreeTo n (recordCandidate K i (c.nodes i) obs u k) (L t) ∨
        ∃ u', t < u' ∧ u' < u ∧ Differs n (L u') (L t) by
      rcases hgoal with ha | ⟨u', htu', hu', hd⟩
      · exact .inl (ha.extend_right (hmono t))
      · exact .inr ⟨u', htu', hu', hd.extend (hmono u') (hmono t) hn⟩
    rcases mem_put_cast.1 hb with hbold | ⟨rfl, hbnew⟩
    · rw [recordCandidate_past hm (hcamp.ballot q k u hbold)]
      exact h q k u t m n hbold hold htu hnm hown'
    have hret := hkept q t m n hold hnm hown'
    have hlogs := hin.logs
    have hlin := (hin.node q).lineage
    rcases new_ballot hin.wf hen hm hbnew with ⟨rfl, hs⟩ | ⟨req, -, rfl, -, htrace, hl⟩
    · -- the candidate itself
      rw [recordCandidate_started hs]
      have hlt := (hm.started u hs).2.2
      refine hret.candidate (.inr ⟨rfl, le_rfl⟩) hlogs hlin hlin (fun e he => ?_) htu hown'
      have := ((hin.node k).terms e he).2
      omega
    · obtain ⟨hterm, hidx, hlast⟩ := hcamp.request k req htrace
      rw [recordCandidate_past hm hterm]
      have hup : UpToDate LogEntry.term (K req.term k) (c.nodes q).log.entries := by
        rcases hl with hlt | ⟨heq, hle⟩
        · exact .inl (hlast ▸ hlt)
        · rw [(hin.wf.sound q).indexed.lastIndex_eq, hidx] at hle
          exact .inr ⟨hlast ▸ heq, hle⟩
      exact hret.candidate hup hlogs hlin (hcamp.lineage _ k) (hcamp.older _ k) htu hown'
  · -- nobody has voted in a later term than its own
    rcases mem_put_cast.1 hb with hbold | ⟨-, hbnew⟩
    · have hle := (hvotes.backed q k u hbold).1
      have hstep := hm.entries.term_le
      omega
    · have := hnew hbnew
      omega

end

end

/-- **The completeness invariant.** -/
structure Complete (cfg : ClusterConfig) (L : Nat → List LogEntry)
    (K : Nat → Nat → List LogEntry) (c : Cluster) : Prop where
  inherited : Inherited cfg L c
  campaigned : Campaigned L K c
  acks : AcksBounded L c
  kept : Kept L c
  checked : Checked L K c

theorem complete_boot (cfg : ClusterConfig) :
    Complete cfg (fun _ => []) (fun _ _ => []) cfg.boot where
  inherited := inherited_boot cfg
  campaigned :=
    { older := fun _ _ _ he => absurd he (not_mem_nil)
      lineage := fun _ _ => lineage_nil
      candidate := fun _ hr => absurd (show RaftRole.follower = .candidate from hr) (by decide)
      leader := fun _ _ _ => prefix_refl _
      request := fun _ _ hm => absurd hm (by simp [ClusterConfig.boot])
      ballot := fun _ _ _ hb => absurd hb (by simp [cast, seen, ClusterConfig.boot]) }
  acks := fun _ _ _ hack => by
    obtain ⟨dest, hm⟩ := hack
    simp [ClusterConfig.boot] at hm
  kept := fun _ _ _ _ _ _ hown => by
    obtain ⟨-, e, he, -⟩ := hown
    simp at he
  checked := fun _ _ _ _ _ _ hb => absurd hb (by simp [cast, seen, ClusterConfig.boot])

/-- **One event keeps the completeness invariant**, over leader logs that only grow. -/
theorem Complete.exec (h : Complete cfg L K c) {e : ClusterEvent} (hvotes : VotesBacked cfg c)
    (hfit : c.EventFits ov e) (hone : (c.exec cfg ov e).OneLeaderPerTerm) :
    ∃ L' K', Complete cfg L' K' (c.exec cfg ov e) ∧ ∀ t, L t <+: L' t := by
  obtain ⟨hin', hmono⟩ := h.inherited.exec hfit hone
  rcases exec_cases cfg ov c e with ⟨-, heq⟩ | ⟨hen, heq⟩
  · rw [heq]
    exact ⟨L, K, h, fun _ => prefix_refl _⟩
  obtain ⟨i, call⟩ := e
  have hm := RaftNode.exec_moved (h.inherited.wf.sound i) hfit.1
  rw [heq] at hin' hmono hone ⊢
  rw [put_nodes_self] at hin' hmono
  refine ⟨_, _, ⟨hin', h.campaigned.put h.inherited hin' hmono hen hm,
    h.acks.put h.inherited hmono hen hm,
    h.kept.put h.inherited hin' hmono hone hen hm h.acks,
    h.checked.put h.inherited hin' hmono hone hen hm h.kept h.acks h.campaigned hvotes⟩, hmono⟩

/-! ## Chosen entries -/

/-- The entry in slot `n` of the leader log of `t` is the leader's own, and a majority holds it. -/
def Chosen (cfg : ClusterConfig) (L : Nat → List LogEntry) (c : Cluster) (t n : Nat) : Prop :=
  OwnEntry L t n ∧ Majority cfg (fun q => ∃ m, n ≤ m ∧ Holds L c q t m)

/-- **Leader completeness**: what is chosen is in the log of every later leader. -/
theorem Complete.leader_completeness (h : Complete cfg L K c) (hcounted : VotesCounted cfg c)
    (hch : Chosen cfg L c t n) : ∀ u, t < u → L u ≠ [] → AgreeTo n (L u) (L t) := by
  obtain ⟨hown, hmajority⟩ := hch
  refine Lib.leader_completeness K (fun q i u => (i, u) ∈ c.cast q) (Majority cfg)
    (fun P Q hP hQ => hP.meet hQ) hmajority ?_ ?_
  · rintro q i u hvote ⟨m, hnm, hholds⟩ htu
    exact h.checked q i u t m n hvote hholds htu hnm hown
  · intro u hne
    obtain ⟨i, hled⟩ := (h.inherited.led_iff u).1 hne
    exact ⟨i, h.campaigned.leader i u hled, hcounted.majority hled⟩

theorem Complete.leader_agrees (h : Complete cfg L K c) (hcounted : VotesCounted cfg c)
    (hch : Chosen cfg L c t n) {u k : Nat} (htu : t ≤ u) (hne : L u ≠ []) (hk : k ≤ n) :
    AgreeTo k (L u) (L t) := by
  rcases Nat.lt_or_eq_of_le htu with hlt | rfl
  · exact (h.leader_completeness hcounted hch u hlt hne).mono hk
  · exact prefix_agreeTo (prefix_refl _) (hk.trans hch.1.length_le)

/-- Two chosen prefixes agree as far as both go. -/
theorem Complete.chosen_agree (h : Complete cfg L K c) (hcounted : VotesCounted cfg c)
    {t' n' : Nat} (hch : Chosen cfg L c t n) (hch' : Chosen cfg L c t' n') {k : Nat} (hk : k ≤ n)
    (hk' : k ≤ n') : AgreeTo k (L t) (L t') := by
  have hne : ∀ {t n : Nat}, Chosen cfg L c t n → L t ≠ [] := by
    rintro t n ⟨⟨-, e, he, -⟩, -⟩ hnil
    rw [hnil] at he
    simp at he
  rcases Nat.le_total t t' with hle | hle
  · exact (h.leader_agrees hcounted hch hle (hne hch') hk).symm
  · exact h.leader_agrees hcounted hch' hle (hne hch) hk'

end Cluster

end Haltchain.Consensus

import Haltchain.Consensus.Growth

/-! # Log matching

As long as no term has two leaders, each term has one leader log, which only grows. It is recorded
as the run goes (`recordLeader`); by the invariant `Inherited` every log is a lineage of these logs
and every request is cut from one. -/

namespace Haltchain.Consensus

open Lib Cluster Function List Option

/-! ## Requests cut from a leader log -/

/-- `req` is cut from the first `m` entries of the leader log of its term, which end in that term;
or it starts beyond them and names no term a log can hold. -/
structure CutFrom (L : Nat → List LogEntry) (req : AppendEntriesReq) (m : Nat) : Prop where
  pos : 1 ≤ m
  last : ∃ e, (L req.term)[m - 1]? = some e ∧ e.term = req.term
  cut : (req.prevLogIdx ≤ m ∧
      req.entries = ((L req.term).take m).drop req.prevLogIdx ∧
      (1 ≤ req.prevLogIdx →
        ((L req.term)[req.prevLogIdx - 1]?).map (·.term) = some req.prevLogTerm)) ∨
    (1 ≤ req.prevLogIdx ∧ req.prevLogTerm = 0)

variable {L : Nat → List LogEntry} {req : AppendEntriesReq}

theorem CutFrom.length_le {m : Nat} (h : CutFrom L req m) : m ≤ (L req.term).length := by
  obtain ⟨e, he, -⟩ := h.last
  have := (List.getElem?_eq_some_iff.1 he).1
  omega

theorem CutFrom.mono {L' : Nat → List LogEntry} {m : Nat} (h : CutFrom L req m)
    (hL : ∀ t, L t <+: L' t) : CutFrom L' req m := by
  have hlen := h.length_le
  have hagree : AgreeTo m (L req.term) (L' req.term) := prefix_agreeTo (hL _) hlen
  have hpos := h.pos
  obtain ⟨e, he, hterm⟩ := h.last
  refine ⟨h.pos, ⟨e, by rw [← hagree.getElem? (by omega), he], hterm⟩, ?_⟩
  rcases h.cut with ⟨hle, hent, hprev⟩ | hjunk
  · refine .inl ⟨hle, by rw [hent, hagree.2], fun h1 => ?_⟩
    rw [← hagree.getElem? (by omega)]
    exact hprev h1
  · exact .inr hjunk

variable {n : RaftNode}

namespace RaftNode

/-- A leader that starts a peer at slot one or later sends cuts of its own log. -/
theorem appendMsg_cutFrom {ps : PeerState} (hL : L n.currentTerm = n.log.entries)
    (hne : n.log.entries ≠ []) (hlast : lastTerm LogEntry.term n.log.entries = n.currentTerm)
    (hnext : 1 ≤ ps.nextIndex) : CutFrom L (n.appendMsg ps) n.log.entries.length := by
  have hpos : 0 < n.log.entries.length := length_pos_of_ne_nil hne
  obtain ⟨e, he, hterm⟩ := lastTerm_of_ne_nil LogEntry.term hne
  refine ⟨hpos, ⟨e, ?_, hterm.trans hlast⟩, ?_⟩
  · show (L n.currentTerm)[_]? = _
    rw [hL, he]
  · show (ps.nextIndex - 1 ≤ _ ∧ _ ∧ _) ∨ _
    by_cases hle : ps.nextIndex - 1 ≤ n.log.entries.length
    · refine .inl ⟨hle, ?_, fun h1 => ?_⟩
      · show (if ps.nextIndex = 0 then [] else n.log.entries.drop (ps.nextIndex - 1)) = _
        rw [if_neg (by omega)]
        show _ = ((L n.currentTerm).take _).drop _
        rw [hL, take_length]
        rfl
      · have h1' : 1 ≤ ps.nextIndex - 1 := h1
        show ((L n.currentTerm)[ps.nextIndex - 1 - 1]?).map _
          = some (((n.log.get (ps.nextIndex - 1)).map (·.term)).getD 0)
        rw [hL, DecisionLog.get_of_pos h1',
          getElem?_eq_getElem (show ps.nextIndex - 1 - 1 < n.log.entries.length by omega)]
        rfl
    · -- the peer is tracked beyond the end of the log
      refine .inr ⟨?_, ?_⟩
      · show 1 ≤ ps.nextIndex - 1
        omega
      · show ((n.log.get (ps.nextIndex - 1)).map (·.term)).getD 0 = 0
        rw [DecisionLog.get_of_pos (by omega), getElem?_eq_none (by omega)]
        rfl

/-- **What a follower holds after accepting a request**: its own log, if that agreed up to the end
of the request, else the leader's log up to there. -/
theorem merged_of_cutFrom {m : Nat} (hidx : n.log.Indexed)
    (hlin : Lineage LogEntry.term L n.log.entries) (hterms : ∀ e ∈ n.log.entries, 1 ≤ e.term)
    (hLlin : Lineage LogEntry.term L (L req.term)) (hLidx : IndexedEntries (L req.term))
    (hcut : CutFrom L req m) (hp : n.prevOk req) :
    ((n.merged req).entries = n.log.entries ∧ AgreeTo m n.log.entries (L req.term)) ∨
      ((n.merged req).entries = (L req.term).take m ∧
        ¬ AgreeTo m n.log.entries (L req.term)) := by
  have hlen := hcut.length_le
  have htlen : ((L req.term).take m).length = m := by
    rw [length_take]
    omega
  rcases hcut.cut with ⟨hle, hent, hprev⟩ | ⟨h1, h0⟩
  · have hagree : AgreeTo req.prevLogIdx n.log.entries ((L req.term).take m) := by
      rcases Nat.eq_zero_or_pos req.prevLogIdx with hzero | hpos
      · rw [hzero]
        exact agreeTo_zero _ _
      -- the entry before the request has one term in both logs
      rcases hp with hzero | hsome
      · omega
      rw [DecisionLog.get_of_pos hpos] at hsome
      obtain ⟨a, ha, hat⟩ := map_eq_some_iff.1 hsome
      obtain ⟨b, hb, hbt⟩ := map_eq_some_iff.1 (hprev hpos)
      have hmatch := hlin.matching hLlin ha hb (hat.trans hbt.symm)
      rw [Nat.sub_add_cancel hpos] at hmatch
      exact hmatch.trans (prefix_agreeTo ⟨_, take_append_drop m _⟩ (by omega)).symm
    have hmatch : Matches n.log.entries ((L req.term).take m) :=
      fun k a b ha hb hab => hlin.matching (hLlin.take m) ha hb hab
    have hfold := foldl_appendEntry_drop (hLidx.take m) (m - req.prevLogIdx) hidx hmatch
      (k := req.prevLogIdx) (by omega) hagree
    rw [merged_entries, hent]
    rw [htlen] at hfold
    rcases hfold with ⟨hkeep, hall⟩ | ⟨hdone, hnot⟩
    · exact .inl ⟨hkeep, hall.extend_right ⟨_, take_append_drop m _⟩⟩
    · refine .inr ⟨hdone, fun hall => hnot (hall.trans ?_)⟩
      exact (prefix_agreeTo ⟨_, take_append_drop m _⟩ (Nat.le_of_eq htlen.symm)).symm
  · -- no log holds an entry of term zero
    rcases hp with hzero | hsome
    · omega
    · rw [DecisionLog.get_of_pos h1] at hsome
      obtain ⟨a, ha, hat⟩ := map_eq_some_iff.1 hsome
      have := hterms a (mem_of_getElem? ha)
      omega

end RaftNode

/-! ## The leader logs -/

/-- The log `l` of the leader of `t`: a numbered lineage of leader logs that ends in its own
term. -/
structure LeaderLog (L : Nat → List LogEntry) (t : Nat) (l : List LogEntry) : Prop where
  lineage : Lineage LogEntry.term L l
  indexed : IndexedEntries l
  terms : ∀ e ∈ l, 1 ≤ e.term ∧ e.term ≤ t
  last : l ≠ [] → lastTerm LogEntry.term l = t

/-- After each event the log of a leader is recorded under its term. -/
def recordLeader (L : Nat → List LogEntry) (n : RaftNode) : Nat → List LogEntry :=
  if n.role = .leader then update L n.currentTerm n.log.entries else L

theorem recordLeader_eq_self (h : n.role = .leader → L n.currentTerm = n.log.entries) :
    recordLeader L n = L := by
  unfold recordLeader
  split
  · next hr =>
    rw [← h hr]
    exact update_eq_self ..
  · rfl

theorem prefix_update {t : Nat} {l : List LogEntry} (h : L t <+: l) :
    ∀ u, L u <+: update L t l u := by
  intro u
  by_cases hu : u = t
  · rw [hu, update_self]
    exact h
  · rw [update_of_ne hu]

/-- A leader log grows by one entry of its term. -/
theorem LeaderLog.extend (h : ∀ t, LeaderLog L t (L t)) {l : List LogEntry} {x : LogEntry}
    (hlin : Lineage LogEntry.term L l) (hterms : ∀ e ∈ l, 1 ≤ e.term ∧ e.term ≤ x.term)
    (hpos : 1 ≤ x.term) (hidx : IndexedEntries (l ++ [x])) (hpre : L x.term <+: l ++ [x])
    (t : Nat) : LeaderLog (update L x.term (l ++ [x])) t (update L x.term (l ++ [x]) t) := by
  have hmono := prefix_update hpre
  by_cases ht : t = x.term
  · subst ht
    rw [update_self]
    refine ⟨?_, hidx, fun e he => ?_, fun _ => lastTerm_concat l x⟩
    · exact (hlin.mono hmono).concat (fun e he => (hterms e he).2) (update_self ..)
    · rcases mem_append.1 he with he | he
      · exact hterms e he
      · rw [mem_singleton.1 he]
        exact ⟨hpos, le_rfl⟩
  · rw [update_of_ne ht]
    exact ⟨(h t).lineage.mono hmono, (h t).indexed, (h t).terms, (h t).last⟩

/-! ## The invariant -/

/-- A node whose log is inherited from the leader logs `L`; `led` are the leaderships. -/
structure Inherits (L : Nat → List LogEntry) (led : Nat → Nat → Prop) (i : Nat) (n : RaftNode) :
    Prop where
  lineage : Lineage LogEntry.term L n.log.entries
  terms : ∀ e ∈ n.log.entries, 1 ≤ e.term ∧ e.term ≤ n.currentTerm
  leader : n.role = .leader → led i n.currentTerm ∧ L n.currentTerm = n.log.entries
  next : n.role = .leader → ∀ p ps, n.peerState.lookup p = some ps → 1 ≤ ps.nextIndex
  candidate : n.role = .candidate → 1 ≤ n.currentTerm
  past : ∀ t, led i t → t ≤ n.currentTerm ∧ (t = n.currentTerm → n.role ≠ .candidate)

variable {led : Nat → Nat → Prop} {i : Nat}

theorem Inherits.mono {L' : Nat → List LogEntry} {led' : Nat → Nat → Prop}
    (h : Inherits L led i n) (hL : ∀ t, L t <+: L' t)
    (hsame : n.role = .leader → L' n.currentTerm = L n.currentTerm)
    (hled : ∀ t, led i t ↔ led' i t) : Inherits L' led' i n where
  lineage := h.lineage.mono hL
  terms := h.terms
  leader := fun hr => ⟨(hled _).1 (h.leader hr).1, (hsame hr).trans (h.leader hr).2⟩
  next := h.next
  candidate := h.candidate
  past := fun t ht => h.past t ((hled t).2 ht)

section

variable {n' : RaftNode} (h : Inherits L led i n) (ht : n.currentTerm ≤ n'.currentTerm)

include h ht

/-- The log stays; who leads now has led this term, and an old candidate was one before. -/
theorem Inherits.kept (hr : n'.role = .leader → n.role = .leader ∧ n'.currentTerm = n.currentTerm)
    (hc : n'.role = .candidate → n.currentTerm < n'.currentTerm ∨ (n.role = .candidate ∧
      n'.currentTerm = n.currentTerm)) (he : n'.log.entries = n.log.entries)
    (hnext : n'.role = .leader → ∀ p ps, n'.peerState.lookup p = some ps → 1 ≤ ps.nextIndex) :
    Inherits L led i n' where
  lineage := by
    rw [he]
    exact h.lineage
  terms := by
    intro x hx
    rw [he] at hx
    have := h.terms x hx
    omega
  leader := by
    intro hr'
    obtain ⟨hrole, hterm⟩ := hr hr'
    rw [hterm, he]
    exact h.leader hrole
  next := hnext
  candidate := by
    intro hr'
    rcases hc hr' with hlt | ⟨hrole, hterm⟩
    · omega
    · rw [hterm]
      exact h.candidate hrole
  past := by
    intro t htl
    obtain ⟨hle, hne⟩ := h.past t htl
    refine ⟨by omega, fun heq hr' => ?_⟩
    rcases hc hr' with hlt | ⟨hrole, hterm⟩
    · omega
    · exact hne (by omega) hrole

/-- A follower with a log of the leaders, in no earlier term than before. -/
theorem Inherits.follower (hr : n'.role = .follower) (hlin : Lineage LogEntry.term L n'.log.entries)
    (hterms : ∀ x ∈ n'.log.entries, 1 ≤ x.term ∧ x.term ≤ n'.currentTerm) :
    Inherits L led i n' where
  lineage := hlin
  terms := hterms
  leader := fun hr' => absurd (hr.symm.trans hr') (by decide)
  next := fun hr' => absurd (hr.symm.trans hr') (by decide)
  candidate := fun hr' => absurd (hr.symm.trans hr') (by decide)
  past := by
    intro t htl
    have := (h.past t htl).1
    exact ⟨by omega, fun _ hr' => absurd (hr.symm.trans hr') (by decide)⟩

end

namespace Cluster

variable {cfg : ClusterConfig} {ov : Overflow} {c : Cluster} {L : Nat → List LogEntry}

/-- **The replication invariant**: the leader logs are in order, every node inherits from them, and
every request on the wire is cut from one. -/
structure Inherited (cfg : ClusterConfig) (L : Nat → List LogEntry) (c : Cluster) : Prop where
  wf : c.WellFormed cfg
  logs : ∀ t, LeaderLog L t (L t)
  node : ∀ i, Inherits L c.led i (c.nodes i)
  led_iff : ∀ t, L t ≠ [] ↔ ∃ i, c.led i t
  requests : ∀ i dest req, (i, .action (.send dest (.appendReq req))) ∈ c.trace →
    ∃ m, CutFrom L req m

theorem inherited_boot (cfg : ClusterConfig) : Inherited cfg (fun _ => []) cfg.boot where
  wf := wellFormed_boot cfg
  logs := fun _ => ⟨lineage_nil, IndexedEntries.nil, fun _ he => absurd he (by simp),
    fun hne => absurd rfl hne⟩
  node := fun i =>
    { lineage := lineage_nil
      terms := fun _ he => absurd he (not_mem_nil)
      leader := fun hr => absurd (show RaftRole.follower = .leader from hr) (by decide)
      next := fun hr => absurd (show RaftRole.follower = .leader from hr) (by decide)
      candidate := fun hr => absurd (show RaftRole.follower = .candidate from hr) (by decide)
      past := fun _ hl => absurd hl (by simp [led, ClusterConfig.boot]) }
  led_iff := fun t => by simp [led, ClusterConfig.boot]
  requests := fun _ _ _ h => absurd h (by simp [ClusterConfig.boot])

/-- A leader's log is recorded, and is not empty. -/
theorem Inherited.leader_log (h : Inherited cfg L c) (hr : (c.nodes i).role = .leader) :
    (c.nodes i).log.entries ≠ [] ∧
      lastTerm LogEntry.term (c.nodes i).log.entries = (c.nodes i).currentTerm := by
  obtain ⟨hled, hL⟩ := (h.node i).leader hr
  have hne := (h.led_iff _).2 ⟨i, hled⟩
  have hlast := (h.logs _).last hne
  rw [hL] at hne hlast
  exact ⟨hne, hlast⟩

/-- What a follower holds after accepting a delivered request. -/
theorem Inherited.accepted (h : Inherited cfg L c) {s : Nat}
    (he : c.enabled cfg (i, .step s (.appendReq req))) (hp : (c.nodes i).prevOk req) :
    ∃ m, CutFrom L req m ∧
      ((((c.nodes i).merged req).entries = (c.nodes i).log.entries ∧
          AgreeTo m (c.nodes i).log.entries (L req.term)) ∨
        (((c.nodes i).merged req).entries = (L req.term).take m ∧
          ¬ AgreeTo m (c.nodes i).log.entries (L req.term))) := by
  obtain ⟨hsent, -⟩ := h.wf.delivered_direct he not_false
  obtain ⟨m, hcut⟩ := h.requests _ _ _ hsent
  refine ⟨m, hcut, RaftNode.merged_of_cutFrom (h.wf.sound i).indexed (h.node i).lineage
    (fun e he => ((h.node i).terms e he).1) (h.logs _).lineage (h.logs _).indexed hcut hp⟩

/-- The peer table of a leader never asks for slot zero. -/
theorem Inherited.next_exec (h : Inherited cfg L c) (i : Nat) {call : Call}
    (hfit : (c.nodes i).Fits ov call) : ((c.nodes i).exec ov call).1.role = .leader →
      ∀ p ps, ((c.nodes i).exec ov call).1.peerState.lookup p = some ps → 1 ≤ ps.nextIndex := by
  have hold := (h.node i).next
  have hstep := RaftNode.exec_peersStep ov (h.wf.sound i).indexed call
  intro hr p ps hps
  cases hstep with
  | same hr' _ hp =>
    rw [hp] at hps
    exact hold (hr' ▸ hr) p ps hps
  | dropped hr' | campaign _ hr' => exact absurd (hr'.symm.trans hr) (by decide)
  | won _ _ hp =>
    rw [hp] at hps
    split at hps
    · rw [← some.inj hps]
      exact Nat.le_add_left ..
    · obtain ⟨ps', -, rfl⟩ := map_eq_some_iff.1 hps
      exact Nat.le_add_left ..
  | acked s resp hcall _ hrl _ _ ps' hps' _ next ha hp =>
    subst hcall
    have hnext := hfit.next_eq ha
    rw [hp] at hps
    rcases of_lookup_insert hps with ⟨-, rfl⟩ | ⟨-, hps⟩
    · exact hnext ▸ Nat.le_add_left ..
    · exact hold hrl p ps hps
  | nacked s resp hcall hrl _ _ ps' hps' next hn hp =>
    subst hcall
    rw [hp] at hps
    rcases of_lookup_insert hps with ⟨-, rfl⟩ | ⟨-, hps⟩
    · split at hn
      · exact hfit.next_eq hn ▸ Nat.le_add_left ..
      · rw [← some.inj hn]
        exact le_max_right ..
    · exact hold hrl p ps hps

/-- The requests a call sends are cut from the leader log of the sender. -/
theorem request_cutFrom {dest : Nat} {n' : RaftNode} {call : Call} (hnode : Inherits L led i n')
    (hlogs : ∀ t, LeaderLog L t (L t)) (hled : ∀ t, led i t → L t ≠ [])
    (hsent : RaftNode.SentMessage n call n' dest (.appendReq req)) : ∃ m, CutFrom L req m := by
  cases hsent with
  | request ps hr hps =>
    obtain ⟨hl, hL⟩ := hnode.leader hr
    have hne := hled _ hl
    have hlast := (hlogs _).last hne
    rw [hL] at hne hlast
    exact ⟨_, RaftNode.appendMsg_cutFrom hL hne hlast (hnode.next hr dest ps hps)⟩

section

variable {i : Nat} {call : Call} {n' : RaftNode} {obs : List Observation}

/-- A call after which the leader logs are what they were. -/
theorem Inherited.put_same (h : Inherited cfg L c) (hwf' : (c.put i n' obs).WellFormed cfg)
    (hsent : ∀ dest msg, .action (.send dest msg) ∈ obs →
      RaftNode.SentMessage (c.nodes i) call n' dest msg)
    (hl : leaderships obs = []) (hnode : Inherits L c.led i n') :
    Inherited cfg L (c.put i n' obs) := by
  have hled : ∀ j t, c.led j t ↔ (c.put i n' obs).led j t := by
    intro j t
    rw [put_led, hl]
    simp
  refine ⟨hwf', h.logs, forall_put_nodes
    (hnode.mono (fun _ => prefix_refl _) (fun _ => rfl) (hled i))
    fun j _ => (h.node j).mono (fun _ => prefix_refl _) (fun _ => rfl) (hled j),
    fun t => ?_, fun j dest req hm => ?_⟩
  · rw [h.led_iff]
    exact exists_congr fun j => hled j t
  · rcases mem_put_trace.1 hm with hm | ⟨-, hm⟩
    · exact h.requests j dest req hm
    · exact request_cutFrom hnode h.logs (fun t hl => (h.led_iff t).2 ⟨i, hl⟩) (hsent dest _ hm)

/-- Nobody has led the term that a node has just been elected in. -/
theorem Inherited.new_leader_log (h : Inherited cfg L c)
    (ht : (c.nodes i).currentTerm ≤ n'.currentTerm)
    (hpos : (c.nodes i).role = .candidate ∨ (c.nodes i).currentTerm < n'.currentTerm)
    (hone : (c.put i n' obs).OneLeaderPerTerm) (hled : (c.put i n' obs).led i n'.currentTerm) :
    L n'.currentTerm = [] := by
  by_contra hne
  obtain ⟨j, hj⟩ := (h.led_iff _).1 hne
  obtain rfl := hone _ j i (put_led.2 (.inl hj)) hled
  obtain ⟨hle, hcand⟩ := (h.node j).past _ hj
  rcases hpos with hrole | hlt
  · exact hcand (by omega) hrole
  · omega

/-- A leader, newly elected or not, appends an entry `x` of its term. -/
theorem Inherited.put_extend (h : Inherited cfg L c) (hwf' : (c.put i n' obs).WellFormed cfg)
    (hsent : ∀ dest msg, .action (.send dest msg) ∈ obs → RaftNode.SentMessage (c.nodes i) call n'
      dest msg) (hone : (c.put i n' obs).OneLeaderPerTerm) (hr : n'.role = .leader)
    (hled : (c.put i n' obs).led i n'.currentTerm) (hl : ∀ t ∈ leaderships obs, t = n'.currentTerm)
    (ht : (c.nodes i).currentTerm ≤ n'.currentTerm) {x : LogEntry} (hx : x.term = n'.currentTerm)
    (hpos : 1 ≤ x.term) (he : n'.log.entries = (c.nodes i).log.entries ++ [x])
    (hL : L x.term <+: (c.nodes i).log.entries)
    (hnext : ∀ p ps, n'.peerState.lookup p = some ps → 1 ≤ ps.nextIndex) :
    Inherited cfg (update L x.term (n'.log.entries)) (c.put i n' obs) := by
  have hidx : IndexedEntries ((c.nodes i).log.entries ++ [x]) := by
    have hs := (hwf'.sound i).indexed
    rw [put_nodes_self] at hs
    rw [← he]
    exact hs
  have hpre : L x.term <+: (c.nodes i).log.entries ++ [x] := hL.trans (prefix_append _ _)
  have hmono := prefix_update hpre
  have hterms : ∀ e ∈ (c.nodes i).log.entries, 1 ≤ e.term ∧ e.term ≤ x.term := fun e hm => by
    have := (h.node i).terms e hm
    omega
  have hlogs := LeaderLog.extend h.logs (h.node i).lineage hterms hpos hidx hpre
  rw [← he] at hlogs hmono
  have hself : update L x.term n'.log.entries x.term = n'.log.entries :=
    update_self ..
  have hself' := hlogs x.term
  rw [hself] at hself'
  generalize hL' : update L x.term n'.log.entries = L' at *
  have hiff : ∀ t, L' t ≠ [] ↔ ∃ j, (c.put i n' obs).led j t := by
    intro t
    by_cases htx : t = x.term
    · subst htx
      rw [hself, he, hx]
      exact ⟨fun _ => ⟨i, hled⟩, fun _ => by simp⟩
    rw [← hL', update_of_ne htx, h.led_iff]
    refine exists_congr fun j => ?_
    rw [put_led]
    refine ⟨Or.inl, ?_⟩
    rintro (htl | ⟨-, htl⟩)
    · exact htl
    · exact absurd ((hl t htl).trans hx.symm) htx
  have hnode : Inherits L' (c.put i n' obs).led i n' :=
    { lineage := hself'.lineage
      terms := hx ▸ hself'.terms
      leader := fun _ => ⟨hled, by rw [← hx, hself]⟩
      next := fun _ => hnext
      candidate := fun hc => absurd (hr.symm.trans hc) (by decide)
      past := by
        refine fun t htl => ⟨?_, fun _ hc => absurd (hr.symm.trans hc) (by decide)⟩
        rcases put_led.1 htl with htl | ⟨-, htl⟩
        · have := ((h.node i).past t htl).1
          omega
        · exact Nat.le_of_eq (hl t htl) }
  refine ⟨hwf', hlogs, forall_put_nodes hnode fun j hj => ?_, hiff, fun j dest req hm => ?_⟩
  · refine (h.node j).mono hmono (fun hrj => ?_) (fun t => ?_)
    · -- another leader leads another term
      have hledj : (c.put i n' obs).led j _ := put_led.2 (.inl ((h.node j).leader hrj).1)
      have hne : (c.nodes j).currentTerm ≠ x.term := by
        intro heq
        rw [heq] at hledj
        exact hj (hone _ j i hledj (hx ▸ hled))
      rw [← hL', update_of_ne hne]
    · rw [put_led]
      exact ⟨Or.inl, fun hor => hor.resolve_right fun hc => hj hc.1⟩
  · rcases mem_put_trace.1 hm with hm | ⟨-, hm⟩
    · obtain ⟨m, hcut⟩ := h.requests j dest req hm
      exact ⟨m, hcut.mono hmono⟩
    · exact request_cutFrom hnode hlogs (fun t htl => (hiff t).2 ⟨i, htl⟩) (hsent dest _ hm)

end

/-- **One event keeps the replication invariant**, over the leader logs with the event recorded. -/
theorem Inherited.exec (h : Inherited cfg L c) {e : ClusterEvent}
    (hfit : (c.nodes e.1).Fits ov e.2) (hone : (c.exec cfg ov e).OneLeaderPerTerm) :
    Inherited cfg (recordLeader L ((c.exec cfg ov e).nodes e.1)) (c.exec cfg ov e) ∧
      ∀ t, L t <+: recordLeader L ((c.exec cfg ov e).nodes e.1) t := by
  have hwf' := h.wf.exec ov e
  rcases exec_cases cfg ov c e with ⟨-, heq⟩ | ⟨hen, heq⟩
  · rw [heq, recordLeader_eq_self fun hr => ((h.node e.1).leader hr).2]
    exact ⟨h, fun _ => prefix_refl _⟩
  rw [heq] at hwf' hone ⊢
  obtain ⟨i, call⟩ := e
  have hstep := RaftNode.exec_entriesStep (h.wf.sound i) hfit.1
  have hnext := h.next_exec i hfit
  have hsent := RaftNode.exec_sent ov (h.wf.sound i) call
  rw [put_nodes_self]
  generalize ((c.nodes i).exec ov call).1 = n' at *
  generalize ((c.nodes i).exec ov call).2 = obs at *
  have hn := h.node i
  cases hstep with
  | kept hl ht hr hc he =>
    have hn' := hn.kept ht hr hc he hnext
    rw [recordLeader_eq_self fun hr' => (hn'.leader hr').2]
    exact ⟨h.put_same hwf' hsent hl hn', fun _ => prefix_refl _⟩
  | proposed hl cmd hr hr' ht he =>
    obtain ⟨hled, hL⟩ := hn.leader hr
    have hpos : 1 ≤ (c.nodes i).currentTerm := by
      obtain ⟨hne, hlast⟩ := h.leader_log hr
      obtain ⟨x, hx, hterm⟩ := lastTerm_of_ne_nil LogEntry.term hne
      have := (hn.terms x (mem_of_getElem? hx)).1
      omega
    have hupd : recordLeader L n' = update L (c.nodes i).currentTerm n'.log.entries := by
      unfold recordLeader
      rw [if_pos hr', ht]
    rw [hupd]
    have hext := h.put_extend hwf' hsent hone hr' (by rw [ht]; exact put_led.2 (.inl hled))
      (by rw [hl]; simp) (Nat.le_of_eq ht.symm) ht.symm hpos he
      (by show L (c.nodes i).currentTerm <+: _; rw [hL]) (hnext hr')
    refine ⟨hext, prefix_update ?_⟩
    rw [hL, he]
    exact prefix_append _ _
  | won hl ht hpos hr he =>
    have hled : (c.put i n' obs).led i n'.currentTerm :=
      put_led.2 (.inr ⟨rfl, by rw [hl]; exact mem_singleton_self _⟩)
    have hnil := h.new_leader_log ht hpos hone hled
    have hone' : 1 ≤ n'.currentTerm := by
      rcases hpos with hrole | hlt
      · exact (hn.candidate hrole).trans ht
      · omega
    have hupd : recordLeader L n' = update L n'.currentTerm n'.log.entries := by
      unfold recordLeader
      rw [if_pos hr]
    rw [hupd]
    have hext := h.put_extend hwf' hsent hone hr hled
      (by rw [hl]; intro t htm; exact mem_singleton.1 htm) ht rfl hone' he
      (by show L n'.currentTerm <+: _; rw [hnil]; exact nil_prefix) (hnext hr)
    refine ⟨hext, prefix_update ?_⟩
    rw [hnil]
    exact nil_prefix
  | accepted hl s req hcall ht hp ht' hr he =>
    subst hcall
    rw [recordLeader_eq_self fun hr' => absurd (hr.symm.trans hr') (by decide)]
    refine ⟨h.put_same hwf' hsent hl ?_, fun _ => prefix_refl _⟩
    obtain ⟨m, hcut, hcase⟩ := h.accepted hen hp
    have hlin : Lineage LogEntry.term L n'.log.entries ∧
        ∀ x ∈ n'.log.entries, 1 ≤ x.term ∧ x.term ≤ req.term := by
      rw [he]
      rcases hcase with ⟨hkeep, -⟩ | ⟨htake, -⟩
      · rw [hkeep]
        refine ⟨hn.lineage, fun x hx => ?_⟩
        have := hn.terms x hx
        omega
      · rw [htake]
        exact ⟨(h.logs _).lineage.take m, fun x hx => (h.logs _).terms x (mem_of_mem_take hx)⟩
    exact hn.follower (by omega) hr hlin.1 (by rw [ht']; exact hlin.2)

variable {es : List ClusterEvent}

theorem OneLeaderPerTerm.shorten {es' : List ClusterEvent}
    (h : (run (exec cfg ov) cfg.boot es').OneLeaderPerTerm) (hp : es <+: es') :
    (run (exec cfg ov) cfg.boot es).OneLeaderPerTerm :=
  fun t i j hi hj => h t i j (trace_subset_run hp hi) (trace_subset_run hp hj)

theorem throughout_eventFits
    (h : ov = .wrapping → Throughout (exec cfg ov) (EventFits ov) cfg.boot es) :
    Throughout (exec cfg ov) (EventFits ov) cfg.boot es := by
  cases ov with
  | checked =>
    exact throughout_of_forall
      (fun _ _ => ⟨fun h => absurd h (by decide), fun h => absurd h (by decide)⟩) _ es
  | wrapping => exact h rfl

/-- A run together with the leader logs recorded along it. -/
def record (cfg : ClusterConfig) (ov : Overflow) (s : Cluster × (Nat → List LogEntry))
    (e : ClusterEvent) : Cluster × (Nat → List LogEntry) :=
  (s.1.exec cfg ov e, recordLeader s.2 ((s.1.exec cfg ov e).nodes e.1))

/-- The log of each term's leader, as last seen in office. -/
def leaderLogs (cfg : ClusterConfig) (ov : Overflow) (es : List ClusterEvent) :
    Nat → List LogEntry :=
  (run (record cfg ov) (cfg.boot, fun _ => []) es).2

theorem record_fst (es : List ClusterEvent) :
    (run (record cfg ov) (cfg.boot, fun _ => []) es).1 = run (exec cfg ov) cfg.boot es := by
  induction es using reverseRecOn with
  | nil => rfl
  | append_singleton es e ih =>
    rw [run_concat, run_concat, ← ih]
    rfl

theorem leaderLogs_concat (es : List ClusterEvent) (e : ClusterEvent) :
    leaderLogs cfg ov (es ++ [e]) = recordLeader (leaderLogs cfg ov es)
      (((run (exec cfg ov) cfg.boot es).exec cfg ov e).nodes e.1) := by
  unfold leaderLogs
  rw [run_concat, ← record_fst]
  rfl

section

variable (hfit : Throughout (exec cfg ov) (EventFits ov) cfg.boot es)
  (hone : (run (exec cfg ov) cfg.boot es).OneLeaderPerTerm)

include hfit hone

theorem inherited_leaderLogs :
    Inherited cfg (leaderLogs cfg ov es) (run (exec cfg ov) cfg.boot es) := by
  revert hone
  refine Throughout.induction (P := fun es =>
    (run (exec cfg ov) cfg.boot es).OneLeaderPerTerm →
      Inherited cfg (leaderLogs cfg ov es) (run (exec cfg ov) cfg.boot es))
    (fun _ => inherited_boot cfg) ?_ hfit
  intro es e _ ih he hone
  have hL := ih (hone.shorten (prefix_append _ _))
  rw [run_concat] at hone ⊢
  rw [leaderLogs_concat]
  exact (hL.exec he hone).1

theorem inherited_run : ∃ L, Inherited cfg L (run (exec cfg ov) cfg.boot es) :=
  ⟨_, inherited_leaderLogs hfit hone⟩

end

/-- **Log matching.** In every state a cluster reaches without two leaders in one term, two logs
with entries of the same index and term are the same up to that index. Without overflow checks this
is about runs that wrap no 64-bit number around, as no run of fewer than `2 ^ 64 - 1` events does
(`eventFits_of_length`). -/
theorem log_matching (cfg : ClusterConfig) (ov : Overflow) (es : List ClusterEvent)
    (hfit : ov = .wrapping → Throughout (exec cfg ov) (EventFits ov) cfg.boot es)
    (hone : (run (exec cfg ov) cfg.boot es).OneLeaderPerTerm) :
    let c := run (exec cfg ov) cfg.boot es
    ∀ i j, ∀ a ∈ (c.nodes i).log.entries, ∀ b ∈ (c.nodes j).log.entries,
      a.index = b.index → a.term = b.term →
        ∀ k ≤ a.index, (c.nodes i).log.get k = (c.nodes j).log.get k := by
  obtain ⟨L, hL⟩ := inherited_run (throughout_eventFits hfit) hone
  intro c i j a ha b hb hidx hterm k hk
  obtain ⟨s, hs⟩ := mem_iff_getElem?.1 ha
  obtain ⟨s', hs'⟩ := mem_iff_getElem?.1 hb
  have has : a.index = s + 1 := (hL.wf.sound i).indexed s a hs
  have hbs : b.index = s' + 1 := (hL.wf.sound j).indexed s' b hs'
  obtain rfl : s' = s := by omega
  have hagree := (hL.node i).lineage.matching (hL.node j).lineage hs hs' hterm
  rcases Nat.eq_zero_or_pos k with rfl | hpos
  · rfl
  · rw [DecisionLog.get_of_pos hpos, DecisionLog.get_of_pos hpos]
    exact hagree.getElem? (by omega)

/-- Leader 1 of term 1 brings its no-op and a proposal to node 2, after one refusal. -/
def proposalReplicated : List ClusterEvent :=
  electedInFirstTerm ++
    [(1, .propose (.removePeer 3)),
     (2, .step 1 (.appendReq ⟨1, 1, 1, 1, [], 0⟩)),
     (1, .step 2 (.appendResp ⟨1, 2, false, 0⟩)),
     (2, .step 1 (.appendReq ⟨1, 1, 0, 0, [⟨1, 1, .noop⟩, ⟨1, 2, .removePeer 3⟩], 0⟩))]

theorem proposal_matches :
    let c := run (exec .three .wrapping) ClusterConfig.three.boot proposalReplicated
    (c.nodes 1).log.entries = [⟨1, 1, .noop⟩, ⟨1, 2, .removePeer 3⟩] ∧
      ∀ k ≤ 2, (c.nodes 1).log.get k = (c.nodes 2).log.get k := by
  intro c
  have h1 : (c.nodes 1).log.entries = [⟨1, 1, .noop⟩, ⟨1, 2, .removePeer 3⟩] := by decide +kernel
  have h2 : (c.nodes 2).log.entries = [⟨1, 1, .noop⟩, ⟨1, 2, .removePeer 3⟩] := by decide +kernel
  have hfit : Throughout (exec .three .wrapping) (EventFits .wrapping)
      ClusterConfig.three.boot proposalReplicated :=
    eventFits_of_length (by decide +kernel) (by decide)
  exact ⟨h1, log_matching .three .wrapping proposalReplicated (fun _ => hfit)
    (oneLeader_run (by decide +kernel)) 1 2 ⟨1, 2, .removePeer 3⟩ (by rw [h1]; simp)
    ⟨1, 2, .removePeer 3⟩ (by rw [h2]; simp) rfl rfl⟩

end Cluster

end Haltchain.Consensus

import Haltchain.Consensus.Quorum
import Haltchain.Lib.Assoc
import Haltchain.Lib.Run
import Mathlib.Data.Finset.Card

/-! # Votes on one transaction

A tracker keeps the last vote of every id. It does not look at who votes, nor at whether a decision
has been made, so a later vote can overturn it (`Overturns`). -/

namespace Haltchain.Consensus

open Lib List

namespace QuorumTracker

/-- One call of `vote`; `approve` and `reject` are such calls. -/
def cast (t : QuorumTracker) (ballot : Nat × Vote) : QuorumTracker := t.vote ballot.1 ballot.2

variable {t : QuorumTracker} {id : Nat} {v w : Vote}

/-! ## Counts -/

theorem tally_vote (t : QuorumTracker) (id : Nat) (v w : Vote) :
    (t.vote id v).tally w + (if t.votes.lookup id = some w then 1 else 0) =
      t.tally w + if v = w then 1 else 0 := by
  have hcount := countP_insert t.votes id v fun x => decide (x = w)
  have hany : (t.votes.lookup id).any (fun x => decide (x = w)) = true ↔
      t.votes.lookup id = some w := by
    cases t.votes.lookup id with
    | none => simp
    | some x => simp
  simp only [hany, decide_eq_true_eq] at hcount
  exact hcount

theorem length_vote (t : QuorumTracker) (id : Nat) (v : Vote) :
    (t.vote id v).votes.entries.length + (if (t.votes.lookup id).isSome then 1 else 0) =
      t.votes.entries.length + 1 := by
  have hcount := countP_insert t.votes id v fun _ => true
  simp only [countP_true] at hcount
  exact hcount

theorem decision_eq_approved : t.decision = .approved ↔ t.quorum ≤ t.tally .approve := by
  unfold decision
  split_ifs with h <;> simp [h]

theorem decision_eq_rejected :
    t.decision = .rejected ↔ t.tally .approve < t.quorum ∧
    (t.clusterSize - t.quorum < t.tally .reject ∨ t.clusterSize ≤ t.votes.entries.length) := by
  unfold decision
  split_ifs with happ hrej hall
  · simp only [false_iff]
    omega
  · simp only [true_iff]
    omega
  · simp only [true_iff]
    omega
  · simp only [false_iff]
    omega

theorem decision_cases (t : QuorumTracker) :
    t.decision = .approved ∨ t.decision = .rejected ∨ t.decision = .pending := by
  unfold decision
  split_ifs <;> simp

/-! ## Votes that overturn a decision -/

/-- The vote takes back an approval without which there is no quorum; or it is the approval missing
when the votes had rejected; or it takes back a rejection without which the quorum could be
reached. -/
def Overturns (t : QuorumTracker) (ballot : Nat × Vote) : Prop :=
  (ballot.2 = .reject ∧ t.votes.lookup ballot.1 = some .approve ∧ t.tally .approve = t.quorum) ∨
  (ballot.2 = .approve ∧ t.votes.lookup ballot.1 ≠ some .approve ∧
    t.tally .approve + 1 = t.quorum ∧
    (t.clusterSize - t.quorum < t.tally .reject ∨ t.clusterSize ≤ t.votes.entries.length)) ∨
  (ballot.2 = .approve ∧ t.votes.lookup ballot.1 = some .reject ∧
    t.tally .approve + 1 < t.quorum ∧ t.tally .reject = t.clusterSize - t.quorum + 1 ∧
    t.votes.entries.length < t.clusterSize)
deriving Decidable

/-- **A vote changes a decision that has been made exactly if it overturns it.** -/
theorem decision_cast (hmade : t.decision ≠ .pending) (ballot : Nat × Vote) :
    (t.cast ballot).decision = t.decision ↔ ¬ t.Overturns ballot := by
  obtain ⟨id, v⟩ := ballot
  have happrove := tally_vote t id v .approve
  have hreject := tally_vote t id v .reject
  have hlength := length_vote t id v
  have hsame : (t.cast (id, v)).quorum = t.quorum ∧
      (t.cast (id, v)).clusterSize = t.clusterSize := ⟨rfl, rfl⟩
  change (t.cast (id, v)).tally .approve + _ = _ at happrove
  change (t.cast (id, v)).tally .reject + _ = _ at hreject
  change (t.cast (id, v)).votes.entries.length + _ = _ at hlength
  rcases t.decision_cases with hd | hd | hd
  · rw [hd, decision_eq_approved]
    rw [decision_eq_approved] at hd
    cases hlook : t.votes.lookup id with
    | none => cases v <;> simp [Overturns, hlook] at * <;> omega
    | some w =>
      cases v <;> cases w <;> simp [Overturns, hlook] at * <;> omega
  · rw [hd, decision_eq_rejected, hsame.1, hsame.2]
    rw [decision_eq_rejected] at hd
    cases hlook : t.votes.lookup id with
    | none => cases v <;> simp [Overturns, hlook] at * <;> omega
    | some w =>
      cases v <;> cases w <;> simp [Overturns, hlook] at * <;> omega
  · exact absurd hd hmade

/-- A vote that overturns comes after a decision. -/
theorem Overturns.made {ballot : Nat × Vote} (h : t.Overturns ballot) : t.decision ≠ .pending := by
  rcases h with ⟨-, -, hcount⟩ | ⟨-, -, hcount, hmade⟩ | ⟨-, -, hcount, hmade, -⟩
  · have : t.decision = .approved := decision_eq_approved.2 (by omega)
    simp [this]
  · have : t.decision = .rejected := decision_eq_rejected.2 ⟨by omega, hmade⟩
    simp [this]
  · have : t.decision = .rejected := decision_eq_rejected.2 ⟨by omega, .inl (by omega)⟩
    simp [this]

/-- A decision, once made, stays the same in the rest of the votes. -/
def Final (t : QuorumTracker) (ballots : List (Nat × Vote)) : Prop :=
  ∀ before after, before ++ after <+: ballots → (run cast t before).decision ≠ .pending →
    (run cast t (before ++ after)).decision = (run cast t before).decision

theorem final_iff {ballots : List (Nat × Vote)} : t.Final ballots ↔
      Throughout cast (fun t ballot => t.decision ≠ .pending →
        (t.cast ballot).decision = t.decision) t ballots := by
  constructor
  · intro h
    induction ballots using reverseRecOn with
    | nil => trivial
    | append_singleton ballots ballot ih =>
      refine throughout_concat.2 ⟨ih fun before after hpre => ?_, fun hmade => ?_⟩
      · exact h before after (hpre.trans (prefix_append _ _))
      · have hlast := h ballots [ballot] (prefix_refl _) hmade
        rw [run_concat] at hlast
        exact hlast
  · rintro h before after ⟨rest, hrest⟩ hmade
    rw [← hrest, throughout_append, throughout_append] at h
    -- along `after` the decision stays what it was
    have hsame := h.1.2.invariant (I := fun t' => t'.decision = (run cast t before).decision) rfl
      fun t' ballot heq hstep => (hstep (heq ▸ hmade)).trans heq
    rw [run_append]
    exact hsame

/-- **Decisions are final exactly as long as no vote overturns one**, for all sizes, quorums and
votes: repeated, changed or by ids outside the cluster. -/
theorem final_iff_never_overturned (transactionId : String) (clusterSize quorum : Nat)
    (ballots : List (Nat × Vote)) : (withCluster transactionId clusterSize quorum).Final ballots ↔
      Throughout cast (fun t ballot => ¬ t.Overturns ballot)
        (withCluster transactionId clusterSize quorum) ballots := by
  rw [final_iff]
  constructor
  · exact fun h => h.mono fun t ballot hstep hover =>
      (decision_cast hover.made ballot).1 (hstep hover.made) hover
  · exact fun h => h.mono fun t ballot hstep hmade => (decision_cast hmade ballot).2 hstep

/-- With two of three, an approval is taken back; and an outsider approves after a rejection. -/
theorem decisions_overturned :
    let t := withCluster "tx1" 3 2
    ((run cast t [(1, .approve), (2, .approve)]).decision = .approved ∧
      (run cast t [(1, .approve), (2, .approve), (1, .reject)]).decision = .pending) ∧
    ((run cast t [(1, .approve), (2, .reject), (3, .reject)]).decision = .rejected ∧
      (run cast t [(1, .approve), (2, .reject), (3, .reject), (4, .approve)]).decision =
        .approved) := by
  decide

/-! ## Members who vote once -/

/-- The votes are by members, each of whom votes at most once. -/
@[mk_iff]
structure CastBy (members : Finset Nat) (ballots : List (Nat × Vote)) : Prop where
  once : (ballots.map Prod.fst).Nodup
  member : ∀ ballot ∈ ballots, ballot.1 ∈ members

instance (members : Finset Nat) (ballots : List (Nat × Vote)) :
    Decidable (CastBy members ballots) :=
  decidable_of_iff _ (castBy_iff ..).symm

/-- How many of the votes are of the kind. -/
def count (v : Vote) (ballots : List (Nat × Vote)) : Nat := ballots.countP fun b => b.2 = v

section

variable {members : Finset Nat} {ballots ballots' : List (Nat × Vote)}

theorem count_add_count (ballots : List (Nat × Vote)) :
    count .approve ballots + count .reject ballots = ballots.length := by
  induction ballots with
  | nil => rfl
  | cons ballot ballots ih =>
    obtain ⟨id, v⟩ := ballot
    unfold count at *
    cases v <;> simp <;> omega

theorem CastBy.shorten (h : CastBy members ballots) (hpre : ballots' <+: ballots) :
    CastBy members ballots' :=
  ⟨h.once.sublist (hpre.sublist.map Prod.fst), fun b hb => h.member b (hpre.subset hb)⟩

theorem CastBy.length_le (h : CastBy members ballots) : ballots.length ≤ members.card := by
  have hsub : (ballots.map Prod.fst).toFinset ⊆ members := by
    intro id hid
    obtain ⟨b, hb, rfl⟩ := mem_map.1 (mem_toFinset.1 hid)
    exact h.member b hb
  have hcard := Finset.card_le_card hsub
  rwa [toFinset_card_of_nodup h.once, length_map] at hcard

/-- The votes of ids that differ are all kept. -/
theorem run_cast_of_once (transactionId : String) (n q : Nat) (h : (ballots.map Prod.fst).Nodup) :
    let t := run cast (withCluster transactionId n q) ballots
    t.clusterSize = n ∧ t.quorum = q ∧ (∀ v, t.tally v = count v ballots) ∧
      t.votes.entries.length = ballots.length ∧
      ∀ id ∉ ballots.map Prod.fst, t.votes.lookup id = none := by
  induction ballots using reverseRecOn with
  | nil => exact ⟨rfl, rfl, fun _ => rfl, rfl, fun _ _ => rfl⟩
  | append_singleton ballots ballot ih =>
    obtain ⟨id, v⟩ := ballot
    rw [map_append, nodup_append] at h
    obtain ⟨hn, hq, htally, hlength, hlookup⟩ := ih h.1
    have hnew : id ∉ ballots.map Prod.fst := fun hid =>
      h.2.2 id hid id (mem_singleton_self id) rfl
    rw [run_concat]
    refine ⟨hn, hq, fun w => ?_, ?_, fun id' hid' => ?_⟩
    · have hcount := tally_vote (run cast (withCluster transactionId n q) ballots) id v w
      rw [hlookup id hnew, htally] at hcount
      simpa [count, cast] using hcount
    · have hcount := length_vote (run cast (withCluster transactionId n q) ballots) id v
      rw [hlookup id hnew, hlength] at hcount
      rw [length_append]
      exact hcount
    · rw [map_append, mem_append, not_or] at hid'
      exact (AList.lookup_insert_ne (by simpa using hid'.2)).trans (hlookup id' hid'.1)

/-- The members who have not voted can all approve. -/
theorem CastBy.exists_all_approve (h : CastBy members ballots) :
    ∃ rest, CastBy members (ballots ++ rest) ∧
      count .approve (ballots ++ rest) + count .reject ballots = members.card := by
  let voted := (ballots.map Prod.fst).toFinset
  let rest := (members \ voted).toList.map fun id => (id, Vote.approve)
  have hids : rest.map Prod.fst = (members \ voted).toList := by
    simp [rest, Function.comp_def]
  have hrest : ∀ id ∈ rest.map Prod.fst, id ∈ members ∧ id ∉ ballots.map Prod.fst := by
    intro id hid
    rw [hids, Finset.mem_toList, Finset.mem_sdiff] at hid
    exact ⟨hid.1, fun hvoted => hid.2 (mem_toFinset.2 hvoted)⟩
  have hsub : voted ⊆ members := by
    intro id hid
    obtain ⟨b, hb, rfl⟩ := mem_map.1 (mem_toFinset.1 hid)
    exact h.member b hb
  refine ⟨rest, ⟨?_, ?_⟩, ?_⟩
  · rw [map_append, nodup_append]
    refine ⟨h.once, hids ▸ Finset.nodup_toList _, ?_⟩
    rintro a ha b hb rfl
    exact (hrest a hb).2 ha
  · intro b hb
    rcases mem_append.1 hb with hb | hb
    · exact h.member b hb
    · exact (hrest b.1 (mem_map_of_mem hb)).1
  · have hall : count .approve rest = (members \ voted).card := by
      rw [← Finset.length_toList, ← hids, length_map, count, countP_eq_length]
      intro b hb
      obtain ⟨id, -, rfl⟩ := mem_map.1 hb
      simp
    have hcard := Finset.card_sdiff_add_card_eq_card hsub
    have hvoted : voted.card = ballots.length := by
      rw [toFinset_card_of_nodup h.once, length_map]
    have hsum := count_add_count ballots
    have happend : count .approve (ballots ++ rest) =
        count .approve ballots + count .approve rest := countP_append
    omega

variable (transactionId : String) (quorum : Nat)

/-- The decision of the members of a cluster on their votes so far. -/
def decisionOf (members : Finset Nat) (ballots : List (Nat × Vote)) : QuorumDecision :=
  (run cast (withCluster transactionId members.card quorum) ballots).decision

variable {transactionId quorum}

section

variable (h : CastBy members ballots)

include h

/-- The decision, from the counts. -/
theorem CastBy.decisionOf_eq : decisionOf transactionId quorum members ballots =
      if quorum ≤ count .approve ballots then .approved
      else if members.card - quorum < count .reject ballots then .rejected
      else if members.card ≤ ballots.length then .rejected
      else .pending := by
  obtain ⟨hn, hq, htally, hlength, -⟩ :=
    run_cast_of_once transactionId members.card quorum h.once
  unfold decisionOf decision
  rw [hn, hq, htally, htally, hlength]

theorem CastBy.approved_iff : decisionOf transactionId quorum members ballots = .approved ↔
      quorum ≤ count .approve ballots := by
  rw [h.decisionOf_eq]
  split_ifs with happ <;> simp [happ]

theorem CastBy.rejected_iff : decisionOf transactionId quorum members ballots = .rejected ↔
      count .approve ballots < quorum ∧ (members.card - quorum < count .reject ballots ∨
        members.card ≤ ballots.length) := by
  rw [h.decisionOf_eq]
  split_ifs <;> simp <;> omega

/-- Approvals can no longer reach the quorum. -/
theorem CastBy.unreachable_iff :
    (∀ rest, CastBy members (ballots ++ rest) → count .approve (ballots ++ rest) < quorum) ↔
      members.card < quorum + count .reject ballots := by
  constructor
  · intro hnever
    obtain ⟨rest, hrest, hcount⟩ := h.exists_all_approve
    have := hnever rest hrest
    omega
  · intro hlt rest hrest
    have hle := hrest.length_le
    have hsum := count_add_count (ballots ++ rest)
    have happend : count .reject (ballots ++ rest) =
        count .reject ballots + count .reject rest := countP_append
    omega

end

/-- **What the tracker decides when members vote at most once.** It approves exactly when the
approvals reach the quorum. It rejects exactly when they no longer can; but if no votes could (the
quorum is above the cluster size), not before a member has rejected or all have voted. A decision
stays, does not depend on the order of the votes, and is there when all have voted. -/
theorem decision_of_members (transactionId : String) (quorum : Nat) {members : Finset Nat}
    {ballots : List (Nat × Vote)} (h : CastBy members ballots) :
    (decisionOf transactionId quorum members ballots = .approved ↔
      quorum ≤ count .approve ballots) ∧
    (decisionOf transactionId quorum members ballots = .rejected ↔
      (∀ rest, CastBy members (ballots ++ rest) → count .approve (ballots ++ rest) < quorum) ∧
        (quorum ≤ members.card ∨ 0 < count .reject ballots ∨ ballots.length = members.card)) ∧
    (∀ before, before <+: ballots → decisionOf transactionId quorum members before ≠ .pending →
      decisionOf transactionId quorum members ballots =
        decisionOf transactionId quorum members before) ∧
    (∀ ballots', CastBy members ballots' → (∀ b, b ∈ ballots' ↔ b ∈ ballots) →
      decisionOf transactionId quorum members ballots' =
        decisionOf transactionId quorum members ballots) ∧
    (ballots.length = members.card →
      decisionOf transactionId quorum members ballots ≠ .pending) := by
  have hle := h.length_le
  have hsum := count_add_count ballots
  refine ⟨h.approved_iff, ?_, ?_, ?_, ?_⟩
  · rw [h.rejected_iff, h.unreachable_iff]
    omega
  · rintro before hpre hmade
    have hbefore := h.shorten hpre
    have hsum' := count_add_count before
    have happrove : count .approve before ≤ count .approve ballots := hpre.sublist.countP_le
    have hreject : count .reject before ≤ count .reject ballots := hpre.sublist.countP_le
    rcases decision_cases (run cast (withCluster transactionId members.card quorum) before) with
      hd | hd | hd
    · refine Eq.trans (h.approved_iff.2 ?_) hd.symm
      exact (hbefore.approved_iff.1 hd).trans happrove
    · have hcounts := hbefore.rejected_iff.1 hd
      refine Eq.trans (h.rejected_iff.2 ?_) hd.symm
      omega
    · exact absurd hd hmade
  · intro ballots' h' hmem
    have hperm : ballots'.Perm ballots :=
      (perm_ext_iff_of_nodup (.of_map _ h'.once) (.of_map _ h.once)).2 hmem
    have happrove : count .approve ballots' = count .approve ballots := hperm.countP_eq _
    have hreject : count .reject ballots' = count .reject ballots := hperm.countP_eq _
    rw [h'.decisionOf_eq, h.decisionOf_eq, happrove, hreject, hperm.length_eq]
  · intro hall
    rw [h.decisionOf_eq]
    split_ifs with happ hrej hout
    · simp
    · simp
    · simp
    · exact absurd hall.ge hout

end

/-- Two of three members: the third vote comes after the decision. -/
theorem two_of_three_approve :
    CastBy {1, 2, 3} [(1, .approve), (3, .approve), (2, .reject)] ∧
      decisionOf "tx1" 2 {1, 2, 3} [(1, .approve), (3, .approve), (2, .reject)] = .approved := by
  have h : CastBy {1, 2, 3} [(1, .approve), (3, .approve), (2, .reject)] := by decide
  exact ⟨h, (decision_of_members "tx1" 2 h).1.2 (by decide)⟩

/-- Three members never give four approvals; still, nothing is decided before a vote. -/
theorem undecided_without_hope :
    decisionOf "tx1" 4 {1, 2, 3} [] = .pending ∧
      ∀ rest, CastBy {1, 2, 3} ([] ++ rest) → count .approve ([] ++ rest) < 4 := by
  refine ⟨by decide, fun rest hrest => ?_⟩
  have hle : ([] ++ rest).length ≤ 3 := hrest.length_le
  have hsum := count_add_count ([] ++ rest)
  omega

end QuorumTracker

end Haltchain.Consensus

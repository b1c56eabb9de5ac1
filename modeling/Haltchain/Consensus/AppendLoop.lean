import Haltchain.Consensus.Transition

/-! # The follower's append loop

`handle_append_req` folds `appendEntry` over the request's entries. On an indexed log one turn cuts
and replaces at a conflicting term, appends past the end, or keeps (`appendEntry_entries`). -/

namespace Haltchain.Consensus

open List

/-- The log holds an entry of another term at the position of `e`. -/
def DecisionLog.Conflicts (l : DecisionLog) (e : LogEntry) : Prop :=
  ∃ x, l.get e.index = some x ∧ x.term ≠ e.term

instance (l : DecisionLog) (e : LogEntry) : Decidable (l.Conflicts e) :=
  match h : l.get e.index with
  | none => isFalse fun ⟨x, hx, _⟩ => by simp [h] at hx
  | some x =>
    if ht : x.term = e.term then
      isFalse fun ⟨y, hy, hne⟩ => hne (by rw [← Option.some.inj (h.symm.trans hy)]; exact ht)
    else isTrue ⟨x, h, ht⟩

namespace RaftNode

open DecisionLog

/-! ## One turn -/

section

variable (l : DecisionLog) (e : LogEntry)

theorem cutConflict_eq : cutConflict l e = if l.Conflicts e then l.truncateFrom e.index else l := by
  unfold cutConflict
  cases hg : l.get e.index with
  | none =>
    rw [if_neg]
    rintro ⟨x, hx, -⟩
    rw [hg] at hx
    simp at hx
  | some x =>
    dsimp only
    by_cases hne : x.term ≠ e.term
    · rw [if_pos hne, if_pos ⟨x, hg, hne⟩]
    · rw [if_neg hne, if_neg]
      rintro ⟨y, hy, hyne⟩
      rw [hg] at hy
      cases hy
      exact hne hyne

@[simp] theorem cutConflict_commitIndex : (cutConflict l e).commitIndex = l.commitIndex := by
  rw [cutConflict_eq]
  split <;> simp

@[simp] theorem cutConflict_lastApplied : (cutConflict l e).lastApplied = l.lastApplied := by
  rw [cutConflict_eq]
  split <;> simp

@[simp] theorem appendEntry_commitIndex : (appendEntry l e).commitIndex = l.commitIndex := by
  unfold appendEntry
  dsimp only
  split <;> simp

@[simp] theorem appendEntry_lastApplied : (appendEntry l e).lastApplied = l.lastApplied := by
  unfold appendEntry
  dsimp only
  split <;> simp

end

variable {l : DecisionLog}

theorem Conflicts.bounds {e : LogEntry} (h : l.Conflicts e) :
    1 ≤ e.index ∧ e.index ≤ l.entries.length := by
  obtain ⟨x, hx, -⟩ := h
  obtain ⟨hpos, hget⟩ := get_eq_some.1 hx
  have hlt : e.index - 1 < l.entries.length := (List.getElem?_eq_some_iff.1 hget).1
  exact ⟨hpos, by omega⟩

/-- **One turn of the loop on an indexed log.** -/
theorem appendEntry_entries (h : l.Indexed) (e : LogEntry) : (appendEntry l e).entries =
      if l.Conflicts e then l.entries.take (e.index - 1) ++ [⟨e.term, e.index, e.command⟩]
      else if l.entries.length < e.index then
        l.entries ++ [⟨e.term, l.entries.length + 1, e.command⟩]
      else l.entries := by
  unfold appendEntry
  dsimp only
  rw [cutConflict_eq]
  by_cases hc : l.Conflicts e
  · obtain ⟨hpos, hle⟩ := Conflicts.bounds hc
    have hlast : (l.truncateFrom e.index).lastIndex = e.index - 1 := by
      rw [(h.truncateFrom e.index).lastIndex_eq, truncateFrom_entries, length_take]
      omega
    rw [if_pos hc, if_pos hc, if_pos (by omega), append_entries, hlast, truncateFrom_entries]
    have hidx : e.index - 1 + 1 = e.index := by omega
    rw [hidx]
  · rw [if_neg hc, if_neg hc, h.lastIndex_eq]
    by_cases hlt : l.entries.length < e.index
    · rw [if_pos hlt, if_pos hlt, append_entries, h.lastIndex_eq]
    · rw [if_neg hlt, if_neg hlt]

theorem Indexed.appendEntry (h : l.Indexed) (e : LogEntry) : (appendEntry l e).Indexed := by
  unfold DecisionLog.Indexed
  rw [appendEntry_entries h]
  split
  · next hc =>
    obtain ⟨hpos, hle⟩ := Conflicts.bounds hc
    refine IndexedEntries.concat (IndexedEntries.take h _) ?_
    simp only [length_take]
    omega
  · split
    · exact IndexedEntries.concat h rfl
    · exact h

/-! ## The whole loop -/

@[simp] theorem foldl_appendEntry_commitIndex (es : List LogEntry) (l : DecisionLog) :
    (es.foldl appendEntry l).commitIndex = l.commitIndex := by
  induction es generalizing l with
  | nil => rfl
  | cons e es ih => rw [foldl_cons, ih, appendEntry_commitIndex]

@[simp] theorem foldl_appendEntry_lastApplied (es : List LogEntry) (l : DecisionLog) :
    (es.foldl appendEntry l).lastApplied = l.lastApplied := by
  induction es generalizing l with
  | nil => rfl
  | cons e es ih => rw [foldl_cons, ih, appendEntry_lastApplied]

theorem Indexed.foldl_appendEntry (es : List LogEntry) (h : l.Indexed) :
    (es.foldl RaftNode.appendEntry l).Indexed := by
  induction es generalizing l with
  | nil => exact h
  | cons e es ih => exact ih (Indexed.appendEntry h e)

/-- Whether an entry conflicts at or below `c` depends on the first `c` entries. -/
theorem conflicts_congr {l' : DecisionLog} {e : LogEntry} {c : Nat} (hc : e.index ≤ c)
    (ht : l'.entries.take c = l.entries.take c) : l'.Conflicts e ↔ l.Conflicts e := by
  have hget : l'.get e.index = l.get e.index := by
    by_cases hpos : 1 ≤ e.index
    · have hslot : e.index - 1 < c := by omega
      rw [get_of_pos hpos, get_of_pos hpos, ← getElem?_take_of_lt hslot, ht,
        getElem?_take_of_lt hslot]
    · have h0 : e.index = 0 := by omega
      simp [DecisionLog.get, h0]
  unfold DecisionLog.Conflicts
  rw [hget]

/-- One turn keeps the first `c` entries unless it conflicts among them. -/
theorem appendEntry_take (h : l.Indexed) {e : LogEntry} {c : Nat} (hlen : c ≤ l.entries.length)
    (hc : e.index ≤ c → ¬ l.Conflicts e) : (appendEntry l e).entries.take c = l.entries.take c ∧
      c ≤ (appendEntry l e).entries.length := by
  rw [appendEntry_entries h]
  split
  · next hcon =>
    have hlt : c < e.index := by
      by_contra hge
      exact hc (by omega) hcon
    obtain ⟨-, hle⟩ := Conflicts.bounds hcon
    have htake : (l.entries.take (e.index - 1)).length = e.index - 1 := by
      rw [length_take]
      omega
    refine ⟨?_, ?_⟩
    · rw [take_append_of_le_length (by omega), take_take, show min c (e.index - 1) = c by omega]
    · simp only [length_append]
      omega
  · split
    · refine ⟨take_append_of_le_length hlen, ?_⟩
      simp only [length_append]
      omega
    · exact ⟨rfl, hlen⟩

/-- **The loop keeps the first `c` entries when no entry of the request conflicts among them.** -/
theorem foldl_appendEntry_take (es : List LogEntry) (h : l.Indexed) {c : Nat}
    (hlen : c ≤ l.entries.length) (hc : ∀ e ∈ es, e.index ≤ c → ¬ l.Conflicts e) :
    (es.foldl appendEntry l).entries.take c = l.entries.take c ∧
      c ≤ (es.foldl appendEntry l).entries.length := by
  induction es generalizing l with
  | nil => exact ⟨rfl, hlen⟩
  | cons e es ih =>
    obtain ⟨htake, hlen'⟩ := appendEntry_take h hlen (hc e (mem_cons_self ..))
    -- the rest of the request sees the same first `c` entries
    have hrest : ∀ e' ∈ es, e'.index ≤ c → ¬ (appendEntry l e).Conflicts e' := by
      intro e' he' hle
      rw [conflicts_congr hle htake]
      exact hc e' (mem_cons_of_mem _ he') hle
    obtain ⟨htake', hlen''⟩ := ih (Indexed.appendEntry h e) hlen' hrest
    exact ⟨by rw [foldl_cons, htake', htake], hlen''⟩

/-! ## The merged log -/

theorem merged_indexed {n : RaftNode} (h : n.log.Indexed) (req : AppendEntriesReq) :
    (n.merged req).Indexed := by
  unfold merged DecisionLog.Indexed
  rw [setCommitIndex_entries]
  exact Indexed.foldl_appendEntry req.entries h

@[simp] theorem merged_entries (n : RaftNode) (req : AppendEntriesReq) :
    (n.merged req).entries = (req.entries.foldl appendEntry n.log).entries := by
  simp [merged]

@[simp] theorem merged_lastApplied (n : RaftNode) (req : AppendEntriesReq) :
    (n.merged req).lastApplied = n.log.lastApplied := by
  simp [merged]

theorem merged_commitIndex {n : RaftNode} (h : n.log.Indexed) (req : AppendEntriesReq) :
    (n.merged req).commitIndex
      = if n.log.commitIndex < req.leaderCommit
        then min req.leaderCommit (n.merged req).entries.length else n.log.commitIndex := by
  rw [merged_entries, ← (Indexed.foldl_appendEntry req.entries h).lastIndex_eq]
  unfold merged
  rw [setCommitIndex_commitIndex, foldl_appendEntry_commitIndex]

end RaftNode

end Haltchain.Consensus

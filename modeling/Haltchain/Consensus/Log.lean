import Mathlib.Data.List.Infix

/-! # The decision log

`crates/consensus/src/log.rs`: the append-only Raft log, as a `List`, with positions in `Nat`. An
out-of-range slice, which panics, is `none`.

`DecisionLog.Indexed` says that the entry in slot `k` carries the index `k + 1`. Every operation
keeps it. -/

namespace Haltchain.Consensus

open List Option

/-! ## Commands and entries -/

/-- The payload replicated across the cluster. -/
inductive DecisionCommand where
  | validate (transactionId agentId actionType : String) (amountCents : Int) (decision : String)
  | circuitBreak (agentId reason : String)
  | addPeer (nodeId : Nat) (addr : String)
  | removePeer (nodeId : Nat)
  | noop
deriving DecidableEq

/-- An entry of the log. -/
structure LogEntry where
  term : Nat
  /-- 1-based position within the log. -/
  index : Nat
  command : DecisionCommand
deriving DecidableEq

/-- The log with its commit and apply frontiers. -/
structure DecisionLog where
  entries : List LogEntry
  commitIndex : Nat
  lastApplied : Nat
deriving DecidableEq

/-- What `snapshot` writes out and `restoreFromSnapshot` reads back. -/
structure DecisionLogSnapshot where
  entries : List LogEntry
  commitIndex : Nat
  lastApplied : Nat

namespace DecisionLog

/-! ## Operations -/

/-- The empty log. -/
def new : DecisionLog := ⟨[], 0, 0⟩

def lastIndex (l : DecisionLog) : Nat := (l.entries.getLast?.map (·.index)).getD 0

def lastTerm (l : DecisionLog) : Nat := (l.entries.getLast?.map (·.term)).getD 0

/-- Append one entry under the next free index, and return it. -/
def append (l : DecisionLog) (term : Nat) (command : DecisionCommand) : DecisionLog × Nat :=
  let index := l.lastIndex + 1
  ({ l with entries := l.entries ++ [⟨term, index, command⟩] }, index)

def get (l : DecisionLog) (index : Nat) : Option LogEntry :=
  if index = 0 then none else l.entries[index - 1]?

/-- Drop everything from `fromIndex` on; commit and apply frontiers stay. -/
def truncateFrom (l : DecisionLog) (fromIndex : Nat) : DecisionLog :=
  if fromIndex = 0 then { l with entries := [] }
  else { l with entries := l.entries.take (fromIndex - 1) }

/-- Raise the commit index to `newCi`, clamped to the last index. -/
def setCommitIndex (l : DecisionLog) (newCi : Nat) : DecisionLog :=
  if l.commitIndex < newCi then { l with commitIndex := min newCi l.lastIndex } else l

/-- All committed entries not yet applied; `none` if out of range. -/
def takeUnapplied (l : DecisionLog) : Option (DecisionLog × List LogEntry) :=
  if l.commitIndex + 1 ≤ l.lastApplied + 1 then some (l, [])
  else if l.entries.length < l.commitIndex then none
  else
    let batch := (l.entries.take l.commitIndex).drop l.lastApplied
    match batch.getLast? with
    | some last => some ({ l with lastApplied := last.index }, batch)
    | none => some (l, batch)

/-- Entries from `nextIndex` on; `none` if out of range. -/
def entriesFrom (l : DecisionLog) (nextIndex : Nat) : Option (List LogEntry) :=
  if nextIndex = 0 ∨ l.lastIndex < nextIndex then some []
  else if l.entries.length < nextIndex - 1 then none
  else some (l.entries.drop (nextIndex - 1))

def snapshot (l : DecisionLog) : DecisionLogSnapshot :=
  ⟨l.entries, l.commitIndex, l.lastApplied⟩

/-- Reload the entries, clamping commit index to the log and apply index to commit index. -/
def restoreFromSnapshot (s : DecisionLogSnapshot) : DecisionLog :=
  let restored : DecisionLog := ⟨s.entries, 0, 0⟩
  let commitIndex := min s.commitIndex restored.lastIndex
  { restored with commitIndex := commitIndex, lastApplied := min s.lastApplied commitIndex }

end DecisionLog

/-! ## Indexed entry lists -/

/-- The entry in slot `k` carries the index `k + 1`. -/
def IndexedEntries (es : List LogEntry) : Prop := ∀ k e, es[k]? = some e → e.index = k + 1

theorem IndexedEntries.nil : IndexedEntries [] := by
  intro k e h
  simp at h

variable {es : List LogEntry}

theorem IndexedEntries.take (h : IndexedEntries es) (n : Nat) : IndexedEntries (es.take n) := by
  intro k e hk
  rw [getElem?_take] at hk
  split at hk
  · exact h k e hk
  · simp at hk

theorem IndexedEntries.concat (h : IndexedEntries es) {e : LogEntry}
    (he : e.index = es.length + 1) : IndexedEntries (es ++ [e]) := by
  intro k f hk
  rw [getElem?_append] at hk
  split at hk
  · exact h k f hk
  · rw [getElem?_singleton] at hk
    split at hk
    · cases hk
      omega
    · simp at hk

/-- The first `n` entries carry the indices `1, …, n`. -/
theorem IndexedEntries.map_index_take (h : IndexedEntries es) {n : Nat} (hn : n ≤ es.length) :
    (es.take n).map (·.index) = range' 1 n := by
  refine ext_getElem? fun k => ?_
  rw [getElem?_map, getElem?_take]
  by_cases hk : k < n
  · have hslot : es[k]? = some (es.get ⟨k, by omega⟩) := getElem?_eq_getElem (by omega)
    rw [if_pos hk, hslot, map_some, h k _ hslot, getElem?_range' hk]
    congr 1
    omega
  · rw [if_neg hk, map_none, getElem?_eq_none]
    rw [length_range']
    omega

theorem IndexedEntries.getLast? (h : IndexedEntries es) :
    (es.getLast?.map (·.index)).getD 0 = es.length := by
  rw [getLast?_eq_getElem?]
  cases hk : es[es.length - 1]? with
  | none =>
    have hlen : es.length ≤ es.length - 1 := getElem?_eq_none_iff.1 hk
    simp only [map_none, getD_none]
    omega
  | some e =>
    have hpos : es.length - 1 < es.length := (List.getElem?_eq_some_iff.1 hk).1
    simp only [map_some, getD_some, h _ e hk]
    omega

namespace DecisionLog

/-- The log's entries are numbered `1, 2, 3, …`. -/
def Indexed (l : DecisionLog) : Prop := IndexedEntries l.entries

variable {l : DecisionLog}

theorem Indexed.lastIndex_eq (h : l.Indexed) : l.lastIndex = l.entries.length :=
  IndexedEntries.getLast? h

theorem indexed_new : new.Indexed := IndexedEntries.nil

section

variable (l : DecisionLog) (t : Nat) (c : DecisionCommand)

@[simp] theorem append_commitIndex : (l.append t c).1.commitIndex = l.commitIndex := rfl

@[simp] theorem append_lastApplied : (l.append t c).1.lastApplied = l.lastApplied := rfl

theorem append_entries : (l.append t c).1.entries = l.entries ++ [⟨t, l.lastIndex + 1, c⟩] := rfl

end

theorem Indexed.append (h : l.Indexed) (t : Nat) (c : DecisionCommand) : (l.append t c).1.Indexed :=
  IndexedEntries.concat h (by rw [h.lastIndex_eq])

@[simp] theorem truncateFrom_commitIndex (l : DecisionLog) (i : Nat) :
    (l.truncateFrom i).commitIndex = l.commitIndex := by
  unfold truncateFrom
  split <;> rfl

@[simp] theorem truncateFrom_lastApplied (l : DecisionLog) (i : Nat) :
    (l.truncateFrom i).lastApplied = l.lastApplied := by
  unfold truncateFrom
  split <;> rfl

@[simp] theorem truncateFrom_entries (l : DecisionLog) (i : Nat) :
    (l.truncateFrom i).entries = l.entries.take (i - 1) := by
  unfold truncateFrom
  split
  · next h => simp [h]
  · rfl

theorem Indexed.truncateFrom (h : l.Indexed) (i : Nat) : (l.truncateFrom i).Indexed := by
  unfold Indexed
  rw [truncateFrom_entries]
  exact IndexedEntries.take h (i - 1)

@[simp] theorem setCommitIndex_entries (l : DecisionLog) (n : Nat) :
    (l.setCommitIndex n).entries = l.entries := by
  unfold setCommitIndex
  split <;> rfl

@[simp] theorem setCommitIndex_lastApplied (l : DecisionLog) (n : Nat) :
    (l.setCommitIndex n).lastApplied = l.lastApplied := by
  unfold setCommitIndex
  split <;> rfl

theorem Indexed.setCommitIndex (h : l.Indexed) (n : Nat) : (l.setCommitIndex n).Indexed := by
  unfold Indexed
  rw [setCommitIndex_entries]
  exact h

theorem setCommitIndex_commitIndex (l : DecisionLog) (n : Nat) : (l.setCommitIndex n).commitIndex
      = if l.commitIndex < n then min n l.lastIndex else l.commitIndex := by
  unfold setCommitIndex
  split <;> rfl

theorem Indexed.setCommitIndex_commitIndex (h : l.Indexed) {n : Nat} (hlow : l.commitIndex < n)
    (hhigh : n ≤ l.entries.length) : (l.setCommitIndex n).commitIndex = n := by
  rw [DecisionLog.setCommitIndex_commitIndex, if_pos hlow, h.lastIndex_eq]
  exact min_eq_left hhigh

/-- `get` reads slot `index - 1`, so a hit has an index of at least one. -/
theorem get_eq_some {i : Nat} {e : LogEntry} :
    l.get i = some e ↔ 1 ≤ i ∧ l.entries[i - 1]? = some e := by
  unfold get
  split
  · next h => simp [h]
  · next h => exact ⟨fun hg => ⟨by omega, hg⟩, fun hg => hg.2⟩

theorem get_of_pos {i : Nat} (h : 1 ≤ i) : l.get i = l.entries[i - 1]? := by
  unfold get
  rw [if_neg (by omega)]

/-- On an indexed log the leader's suffix slice is always in range. -/
theorem Indexed.entriesFrom_eq (h : l.Indexed) (n : Nat) :
    l.entriesFrom n = some (if n = 0 then [] else l.entries.drop (n - 1)) := by
  unfold entriesFrom
  rw [h.lastIndex_eq]
  by_cases h0 : n = 0
  · simp [h0]
  · by_cases hlt : l.entries.length < n
    · rw [if_pos (.inr hlt), if_neg h0, drop_eq_nil_of_le (by omega)]
    · rw [if_neg (by omega), if_neg (by omega), if_neg h0]

/-- Only `lastApplied` moves, and the slice between the frontiers comes out. -/
theorem Indexed.takeUnapplied_eq {l' : DecisionLog} {batch : List LogEntry} (h : l.Indexed)
    (ht : l.takeUnapplied = some (l', batch)) :
    l' = { l with lastApplied := max l.lastApplied l.commitIndex } ∧
      batch = (l.entries.take l.commitIndex).drop l.lastApplied ∧
      (l.lastApplied < l.commitIndex → l.commitIndex ≤ l.entries.length) := by
  unfold takeUnapplied at ht
  split at ht
  · obtain ⟨rfl, rfl⟩ := Prod.mk.inj (some.inj ht)
    have hmax : max l.lastApplied l.commitIndex = l.lastApplied := by omega
    refine ⟨by rw [hmax], ?_, by omega⟩
    rw [drop_eq_nil_of_le]
    simp only [length_take]
    omega
  · split at ht
    · simp at ht
    have hlast : ((l.entries.take l.commitIndex).drop l.lastApplied).getLast?
        = l.entries[l.commitIndex - 1]? := by
      rw [getLast?_drop, if_neg (by simp only [length_take]; omega),
        getLast?_eq_getElem?, length_take, getElem?_take, if_pos (by omega)]
      congr 1
      omega
    have hsome : ∃ e, l.entries[l.commitIndex - 1]? = some e :=
      ⟨_, getElem?_eq_getElem (by omega)⟩
    obtain ⟨e, he⟩ := hsome
    simp only [hlast, he] at ht
    obtain ⟨rfl, rfl⟩ := ht
    have hidx : e.index = l.commitIndex - 1 + 1 := h _ e he
    refine ⟨?_, rfl, fun _ => by omega⟩
    rw [hidx, show max l.lastApplied l.commitIndex = l.commitIndex - 1 + 1 by omega]

/-- It panics exactly when the commit index is past the end of the log. -/
theorem takeUnapplied_eq_none :
    l.takeUnapplied = none ↔ l.lastApplied < l.commitIndex ∧ l.entries.length < l.commitIndex := by
  unfold takeUnapplied
  split
  · next h => simp only [reduceCtorEq, false_iff]; omega
  split
  · next hlen => simp only [true_iff]; omega
  · next hlen =>
    constructor
    · intro hn
      dsimp only at hn
      split at hn <;> exact absurd hn (by simp)
    · intro hn
      exact absurd hn.2 hlen

theorem restoreFromSnapshot_commitIndex (s : DecisionLogSnapshot) (h : IndexedEntries s.entries) :
    (restoreFromSnapshot s).commitIndex = min s.commitIndex s.entries.length := by
  show min s.commitIndex (DecisionLog.lastIndex ⟨s.entries, 0, 0⟩) = _
  rw [Indexed.lastIndex_eq (l := ⟨s.entries, 0, 0⟩) h]

theorem restoreFromSnapshot_lastApplied (s : DecisionLogSnapshot) :
    (restoreFromSnapshot s).lastApplied
      = min s.lastApplied (restoreFromSnapshot s).commitIndex := rfl

end DecisionLog

end Haltchain.Consensus

import Haltchain.Consensus.LocalLog
import Haltchain.Consensus.Persistence

/-! # Exactly-once application

`takeUnapplied` hands out committed entries and moves `last_applied` after the file has been
written; a process that ends before the next write hands the same entries out again. -/

namespace Haltchain.Consensus

open Lib RaftNode

namespace History

/-- The step leaves the committed entries where they are. -/
def CommittedKept (ov : Overflow) (h : History) (call : Call) : Prop :=
  h.node.log.entries.take h.node.log.commitIndex <+: (h.exec ov call).node.log.entries
deriving Decidable

/-- When the process ends, its file has the current `last_applied`. -/
def AppliedWritten (ov : Overflow) (h : History) (call : Call) : Prop :=
  ¬ h.node.returns ov call → h.node.image.log.lastApplied = h.node.log.lastApplied
deriving Decidable

/-- What has been handed out is what `last_applied` says. -/
structure AppliedOnce (h : History) : Prop where
  sound : h.node.Sound
  localLog : h.node.LocalLog
  applied_eq : applied h.trace = h.node.log.entries.take h.node.log.lastApplied

section

variable {ov : Overflow} {h : History} (hi : h.AppliedOnce) {call : Call}

include hi

/-- A returning call hands out the next batch. -/
theorem AppliedOnce.returned (hk : h.CommittedKept ov call)
    (htr : Transition ov h.node call (h.node.exec ov call).1 (h.node.exec ov call).2) :
    (h.exec ov call).AppliedOnce := by
  have hadv := hi.localLog.advances (htr.logStep hi.sound.indexed) hk
  refine ⟨kept_sound.transition hi.sound htr, hadv.localLog, ?_⟩
  show applied (h.trace ++ (h.node.exec ov call).2) = _
  rw [applied_append, hi.applied_eq]
  exact hadv.applied_eq

/-- The next process starts where the last stopped, if `last_applied` was written. -/
theorem AppliedOnce.restarted {timeout : Nat}
    (hw : h.node.image.log.lastApplied = h.node.log.lastApplied)
    (hexec : h.node.exec ov call = (h.node.restart timeout, [])) :
    (h.exec ov call).AppliedOnce := by
  have hlen := hi.localLog.commit_le_length
  have hla := hi.localLog.applied_le
  have hentries := hi.sound.restart_entries timeout
  have hcommit := hi.sound.restart_commitIndex hlen timeout
  have happlied : (h.node.restart timeout).log.lastApplied = h.node.log.lastApplied := by
    rw [hi.sound.restart_lastApplied, hcommit, hw]
    exact min_eq_left hla
  have hnode : (h.exec ov call).node = h.node.restart timeout := congrArg Prod.fst hexec
  have htrace : (h.exec ov call).trace = h.trace := by
    show h.trace ++ (h.node.exec ov call).2 = h.trace
    rw [hexec, List.append_nil]
  have hsound := hi.sound.restart timeout
  refine ⟨by rw [hnode]; exact hsound, ?_, ?_⟩
  · rw [hnode]
    refine localLog_of_length hsound.indexed ?_ ?_
    · rw [happlied, hcommit]; exact hla
    · rw [hcommit, hentries]; exact hlen
  · rw [hnode, htrace, hentries, happlied]
    exact hi.applied_eq

theorem AppliedOnce.step (hk : h.CommittedKept ov call) (hw : h.AppliedWritten ov call) :
    (h.exec ov call).AppliedOnce := by
  rcases exec_cases ov hi.sound.indexed call with ⟨-, htr⟩ | ⟨hno, hcrash, hobs⟩
  · exact hi.returned hk htr
  generalize hn' : (h.node.exec ov call).1 = n' at hcrash
  have hexec : h.node.exec ov call = (n', []) := Prod.ext hn' hobs
  cases hcrash with
  | restarted => exact hi.restarted (hw hno) hexec
  | appendCrashed s req timeout ht hp hb =>
    -- the slice is out of range only when committed entries were cut away
    have hkept : h.node.log.entries.take h.node.log.commitIndex
        <+: (h.node.merged req).entries := by
      have hfile := (hi.sound.accept req).restart_entries timeout
      rw [accept_log] at hfile
      rw [← hfile, ← hn']
      exact hk
    obtain ⟨-, hcom⟩ := hi.localLog.merged hkept
    exact absurd (DecisionLog.takeUnapplied_eq_none.1 hb).2 (by omega)

end

theorem appliedOnce_boot (id : Nat) (peers : List Nat) (timeout : Nat) (path : String) :
    (boot id peers timeout path).AppliedOnce :=
  ⟨sound_withPersistence id peers timeout path, ⟨DecisionLog.indexed_new, le_rfl, le_rfl⟩, rfl⟩

/-- **Exactly-once application**, over every life in which committed entries are never overwritten
and no process ends with an unwritten `last_applied`: the batches are the log entries up to
`last_applied`, in index order, each once. -/
theorem applied_exactly_once (ov : Overflow) (id : Nat) (peers : List Nat) (timeout : Nat)
    (path : String) (calls : List Call)
    (hkept : Throughout (exec ov) (CommittedKept ov) (boot id peers timeout path) calls)
    (hwritten : Throughout (exec ov) (AppliedWritten ov) (boot id peers timeout path) calls) :
    let h := run (exec ov) (boot id peers timeout path) calls
    applied h.trace = h.node.log.entries.take h.node.log.lastApplied ∧
      (applied h.trace).map (·.index) = List.range' 1 h.node.log.lastApplied := by
  have hinv : (run (exec ov) (boot id peers timeout path) calls).AppliedOnce :=
    Throughout.invariant (appliedOnce_boot id peers timeout path)
      (fun _ _ hi hc => hi.step hc.1 hc.2) (hkept.and hwritten)
  refine ⟨hinv.applied_eq, ?_⟩
  rw [hinv.applied_eq]
  exact hinv.localLog.indexed.map_index_take
    (hinv.localLog.applied_le.trans hinv.localLog.commit_le_length)

/-- Leader 9 replicates its no-op and then says that it is committed. -/
def committedNoop : List Call :=
  [.step 9 (.appendReq ⟨1, 9, 0, 0, [⟨1, 1, .noop⟩], 0⟩), .step 9 (.appendReq ⟨1, 9, 1, 1, [], 1⟩)]

/-- The next heartbeat writes `last_applied`; a restart after it loses nothing. -/
theorem applied_once_after_heartbeat :
    let h := run (exec .checked) (boot 1 [2, 9] 5 "node-1.json")
      (committedNoop ++
        [.step 9 (.appendReq ⟨1, 9, 1, 1, [], 1⟩), .restart 5,
         .step 9 (.appendReq ⟨1, 9, 1, 1, [⟨1, 2, .noop⟩], 2⟩)])
    applied h.trace = h.node.log.entries.take h.node.log.lastApplied ∧
      h.node.log.lastApplied = 2 := by
  refine ⟨(applied_exactly_once .checked 1 [2, 9] 5 "node-1.json" _ ?_ ?_).1, ?_⟩
  · decide +kernel
  · decide +kernel
  · decide +kernel

/-- A restart before that: the no-op is handed out twice, with nothing overwritten. -/
theorem applied_twice_after_restart :
    let calls := committedNoop ++ [.restart 5, .step 9 (.appendReq ⟨1, 9, 1, 1, [], 1⟩)]
    Throughout (exec .checked) (CommittedKept .checked) (boot 1 [2, 9] 5 "node-1.json") calls ∧
      applied (run (exec .checked) (boot 1 [2, 9] 5 "node-1.json") calls).trace
        = [⟨1, 1, .noop⟩, ⟨1, 1, .noop⟩] := by
  decide +kernel

end History

end Haltchain.Consensus

import Haltchain.Lib.Run
import Mathlib.Data.List.AList
import Mathlib.Data.Rat.Defs

/-! # The trajectory of capabilities

`crates/capability/src/trajectory.rs`: observations are kept in a write-ahead buffer that is flushed
to the database. A flush takes the buffer out first and stops at the first statement that fails. -/

namespace Haltchain.Capability

open Lib List

inductive Domain where
  | bioweapons
  | cybersecurity
  | manipulation
deriving DecidableEq

/-- The name of a domain. -/
def Domain.toString : Domain → String
  | .bioweapons => "bioweapons"
  | .cybersecurity => "cybersecurity"
  | .manipulation => "manipulation"

/-- A time is a number of nanoseconds. -/
structure CapabilityEntry where
  agentId : String
  domain : Domain
  knowledgeDelta : Rat
  createdAt : Int

/-- A row of the table. -/
structure CapabilityTrajectoryRecord where
  agentId : String
  domain : String
  knowledgeDelta : Rat
  createdAt : Int
deriving DecidableEq

/-- The row for an entry. -/
def CapabilityEntry.record (e : CapabilityEntry) : CapabilityTrajectoryRecord :=
  ⟨e.agentId, e.domain.toString, e.knowledgeDelta, e.createdAt⟩

/-- The rows of `capability_trajectory`. -/
abbrev TrajectoryTable := List CapabilityTrajectoryRecord

/-- Which statements of a batch fail, by place, and with what error. -/
abbrev InsertFailures := Nat → Option String

/-- One statement after the other, up to the first failure. -/
def insertCapabilityTrajectoryBatch (fails : InsertFailures) (table : TrajectoryTable) :
    Nat → List CapabilityTrajectoryRecord → Except String Unit × TrajectoryTable
  | _, [] => (.ok (), table)
  | i, r :: rs =>
    match fails i with
    | some e => (.error e, table)
    | none => insertCapabilityTrajectoryBatch fails (table ++ [r]) (i + 1) rs

structure TrajectoryStore where
  entries : AList (fun _ : String × Domain => List CapabilityEntry)
  walBuffer : List CapabilityEntry

namespace TrajectoryStore

/-- The empty store. -/
def new : TrajectoryStore := ⟨∅, []⟩

/-- Adds an entry to both. -/
def push (s : TrajectoryStore) (entry : CapabilityEntry) : TrajectoryStore where
  entries :=
    let key := (entry.agentId, entry.domain)
    s.entries.insert key (((s.entries.lookup key).getD []) ++ [entry])
  walBuffer := s.walBuffer ++ [entry]

/-- Up to `limit` entries are taken out. -/
def drainWal (s : TrajectoryStore) (limit : Nat) : List CapabilityEntry × TrajectoryStore :=
  let n := min s.walBuffer.length limit
  (s.walBuffer.take n, { s with walBuffer := s.walBuffer.drop n })

/-- `usize::MAX`. -/
def noLimit : Nat := 18446744073709551615

def flushToDb (fails : InsertFailures) (s : TrajectoryStore) (table : TrajectoryTable) :
    Except String Nat × TrajectoryStore × TrajectoryTable :=
  let (entries, s) := s.drainWal noLimit
  if entries = [] then (.ok 0, s, table)
  else
    let records := entries.map CapabilityEntry.record
    match insertCapabilityTrajectoryBatch fails table 0 records with
    | (.error e, table) => (.error e, s, table)
    | (.ok (), table) => (.ok records.length, s, table)

/-- The buffer is taken out and inserted, whatever the result is. -/
theorem flushToDb_snd (fails : InsertFailures) (s : TrajectoryStore) (table : TrajectoryTable) :
    (s.flushToDb fails table).2 =
      ((s.drainWal noLimit).2, (insertCapabilityTrajectoryBatch fails table 0
        ((s.drainWal noLimit).1.map CapabilityEntry.record)).2) := by
  unfold flushToDb
  dsimp only
  split
  · next hempty =>
    rw [hempty]
    rfl
  · split <;> next heq => rw [heq]

end TrajectoryStore

/-- The store, and the table that it is flushed to. -/
structure Persistence where
  store : TrajectoryStore
  table : TrajectoryTable

namespace Persistence

/-- Nothing has been pushed. -/
def new : Persistence := ⟨.new, []⟩

/-- A push or a flush. -/
inductive Event where
  | push (entry : CapabilityEntry)
  | flush (fails : InsertFailures)

/-- That a flush fails is only logged. -/
def exec (p : Persistence) : Event → Persistence
  | .push entry => { p with store := p.store.push entry }
  | .flush fails =>
    let flushed := p.store.flushToDb fails p.table
    ⟨flushed.2.1, flushed.2.2⟩

/-- What has been pushed. -/
def pushed (es : List Event) : List CapabilityTrajectoryRecord :=
  es.filterMap fun
    | .push entry => some entry.record
    | .flush _ => none

/-- What is in the table or in the buffer. -/
def held (p : Persistence) : List CapabilityTrajectoryRecord :=
  p.table ++ p.store.walBuffer.map CapabilityEntry.record

/-- No statement of a flush fails. -/
def Succeeds (p : Persistence) : Event → Prop
  | .push _ => True
  | .flush fails => ∀ i < min p.store.walBuffer.length TrajectoryStore.noLimit, fails i = none

/-! ## What a flush loses -/

/-- A batch inserts the records before the first failing statement. -/
theorem insert_batch_cases (fails : InsertFailures) (table : TrajectoryTable) (i : Nat)
    (rs : List CapabilityTrajectoryRecord) :
    ∃ k ≤ rs.length, (insertCapabilityTrajectoryBatch fails table i rs).2 = table ++ rs.take k ∧
      (k = rs.length ↔ ∀ j < rs.length, fails (i + j) = none) := by
  induction rs generalizing table i with
  | nil => exact ⟨0, Nat.le_refl 0, by simp [insertCapabilityTrajectoryBatch], by simp⟩
  | cons r rs ih =>
    rw [insertCapabilityTrajectoryBatch]
    cases hfail : fails i with
    | some e =>
      refine ⟨0, Nat.zero_le _, by simp, iff_of_false (Nat.succ_ne_zero _).symm fun hall => ?_⟩
      have hfirst := hall 0 (Nat.zero_lt_succ _)
      rw [Nat.add_zero, hfail] at hfirst
      cases hfirst
    | none =>
      obtain ⟨k, hk, htable, hiff⟩ := ih (table ++ [r]) (i + 1)
      refine ⟨k + 1, Nat.succ_le_succ hk, ?_, ?_⟩
      · rw [htable, append_assoc]
        rfl
      · rw [length_cons, Nat.add_right_cancel_iff, hiff, Nat.forall_lt_succ_left]
        simp only [Nat.add_zero, hfail, true_and, Nat.add_assoc, Nat.add_comm 1]

variable {p : Persistence}

theorem held_push (p : Persistence) (entry : CapabilityEntry) :
    (exec p (.push entry)).held = p.held ++ [entry.record] := by
  simp [held, exec, TrajectoryStore.push]

/-- **What a flush leaves** of the entries it takes are the first ones; all exactly if no statement
fails. -/
theorem held_flush (p : Persistence) (fails : InsertFailures) :
    let n := min p.store.walBuffer.length TrajectoryStore.noLimit
    let records := p.store.walBuffer.map CapabilityEntry.record
    ∃ k ≤ n, (exec p (.flush fails)).held = p.table ++ records.take k ++ records.drop n ∧
      (k = n ↔ p.Succeeds (.flush fails)) := by
  intro n records
  have hlength : (records.take n).length = n := by
    rw [length_take, length_map]
    exact min_eq_left (min_le_left _ _)
  obtain ⟨k, hk, htable, hiff⟩ := insert_batch_cases fails p.table 0 (records.take n)
  rw [hlength] at hk hiff
  refine ⟨k, hk, ?_, ?_⟩
  · rw [take_take, min_eq_left hk] at htable
    rw [← htable, held, exec]
    rw [TrajectoryStore.flushToDb_snd]
    simp [TrajectoryStore.drainWal, records, n]
  · simp only [Nat.zero_add] at hiff
    exact hiff

theorem pushed_concat (es : List Event) (e : Event) :
    pushed (es ++ [e]) = pushed es ++ pushed [e] :=
  filterMap_append

/-- No step holds more than is pushed; it holds it all exactly if it succeeds. -/
theorem length_held_exec (p : Persistence) (e : Event) :
    (exec p e).held.length ≤ p.held.length + (pushed [e]).length ∧
      ((exec p e).held.length = p.held.length + (pushed [e]).length ↔ p.Succeeds e) := by
  cases e with
  | push entry =>
    rw [held_push, length_append]
    exact ⟨le_rfl, iff_of_true rfl trivial⟩
  | flush fails =>
    obtain ⟨k, hk, hheld, hiff⟩ := held_flush p fails
    have hn := min_le_left p.store.walBuffer.length TrajectoryStore.noLimit
    rw [hheld, ← hiff]
    simp only [held, pushed, length_append, length_take, length_drop,
      length_map, filterMap_cons, filterMap_nil, length_nil]
    omega

theorem held_exec_of_succeeds {e : Event} (h : p.Succeeds e) :
    (exec p e).held = p.held ++ pushed [e] := by
  cases e with
  | push entry => exact held_push p entry
  | flush fails =>
    obtain ⟨k, -, hheld, hiff⟩ := held_flush p fails
    rw [hheld, hiff.2 h, append_assoc, take_append_drop]
    exact (append_nil _).symm

theorem held_run_of_succeeds {es : List Event} (h : Throughout exec Succeeds new es) :
    (run exec new es).held = pushed es := by
  refine Throughout.induction (P := fun es => (run exec new es).held = pushed es) rfl ?_ h
  intro es e _ ih he
  rw [run_concat, held_exec_of_succeeds he, ih, pushed_concat]

/-- What is lost once does not come back. -/
theorem length_held_run (es : List Event) : (run exec new es).held.length ≤ (pushed es).length ∧
      ((run exec new es).held.length = (pushed es).length → Throughout exec Succeeds new es) := by
  induction es using reverseRecOn with
  | nil => exact ⟨le_rfl, fun _ => trivial⟩
  | append_singleton es e ih =>
    obtain ⟨hle, hiff⟩ := length_held_exec (run exec new es) e
    rw [run_concat, pushed_concat, length_append, throughout_concat]
    refine ⟨by omega, fun heq => ⟨ih.2 (by omega), hiff.1 (by omega)⟩⟩

/-- **When nothing is lost.** After any pushes and flushes, what was pushed is in the buffer or in
the table, each entry once, exactly if no statement of a flush has failed. -/
theorem pushed_held_iff (es : List Event) :
    (run exec new es).held.Perm (pushed es) ↔ Throughout exec Succeeds new es := by
  constructor
  · intro hperm
    exact (length_held_run es).2 hperm.length_eq
  · intro hsucceeds
    rw [held_run_of_succeeds hsucceeds]

def observation (knowledgeDelta : Rat) : CapabilityEntry :=
  ⟨"agent", .cybersecurity, knowledgeDelta, 0⟩

/-- The second of three statements fails: two entries are lost, to later flushes too. -/
theorem failed_flush_loses_entries :
    let p := run exec new [.push (observation 1), .push (observation 2), .push (observation 3),
      .flush fun i => if i = 1 then some "connection lost" else none, .flush fun _ => none]
    p.store.walBuffer = [] ∧ p.table = [(observation 1).record] := by
  decide +kernel

end Persistence

end Haltchain.Capability

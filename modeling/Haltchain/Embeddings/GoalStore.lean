import Haltchain.Lib.Separated
import Haltchain.Validator.Evaluators

/-! # The goals of sessions

`GoalStore` of `crates/embeddings/src/goal.rs`: the goal that an agent has declared for a session,
under the two ids with a colon between them. Ids may contain colons. -/

namespace Haltchain.Embeddings

open Lib
open Validator (goalKey)

/-- A declared goal. -/
structure GoalDeclaration where
  agentId : String
  sessionId : String
  intent : String
  embedding : List Rat
  declaredAt : Int

/-- The goals by key. -/
structure GoalStore where
  inner : AList fun _ : String => GoalDeclaration

namespace GoalStore

/-- The empty store. -/
def new : GoalStore := ⟨∅⟩

def declare (s : GoalStore) (agentId sessionId intent : String) (embedding : List Rat)
    (now : Int) : GoalDeclaration × GoalStore :=
  let decl := ⟨agentId, sessionId, intent, embedding, now⟩
  (decl, ⟨s.inner.insert (goalKey agentId sessionId) decl⟩)

/-- The goal of a session. -/
def get (s : GoalStore) (agentId sessionId : String) : Option GoalDeclaration :=
  s.inner.lookup (goalKey agentId sessionId)

/-- Whether there was a goal. -/
def revoke (s : GoalStore) (agentId sessionId : String) : Bool × GoalStore :=
  let key := goalKey agentId sessionId
  ((s.inner.lookup key).isSome, ⟨s.inner.erase key⟩)

/-- What a call does. -/
inductive Operation where
  | declare (intent : String) (embedding : List Rat) (now : Int)
  | revoke

/-- An operation on the goal of a session of an agent. -/
structure Call where
  agentId : String
  sessionId : String
  operation : Operation

/-- One call. -/
def exec (s : GoalStore) (call : Call) : GoalStore :=
  match call.operation with
  | .declare intent embedding now =>
    (s.declare call.agentId call.sessionId intent embedding now).2
  | .revoke => (s.revoke call.agentId call.sessionId).2

/-! ## Keys -/

/-- The session of the one agent takes up what is left of the other's id. -/
def Shifted (agentId sessionId agentId' sessionId' : String) : Prop :=
  ∃ middle : String, agentId' = agentId ++ ":" ++ middle ∧ sessionId = middle ++ ":" ++ sessionId'

theorem shifted_iff {a s a' s' : String} : Shifted a s a' s' ↔
      ∃ m, a'.toList = a.toList ++ ':' :: m ∧ s.toList = m ++ ':' :: s'.toList := by
  constructor
  · rintro ⟨middle, rfl, rfl⟩
    exact ⟨middle.toList, by simp, by simp⟩
  · rintro ⟨m, ha, hs⟩
    exact ⟨.ofList m, String.toList_injective (by simp [ha]),
      String.toList_injective (by simp [hs])⟩

theorem toList_goalKey (a s : String) : (goalKey a s).toList = a.toList ++ ':' :: s.toList := by
  simp [goalKey]

/-- Two sessions share a key exactly if there are two places for the colon. -/
theorem goalKey_eq_iff {a s a' s' : String} (hne : (a, s) ≠ (a', s')) :
    goalKey a s = goalKey a' s' ↔ Shifted a s a' s' ∨ Shifted a' s' a s := by
  have hparts : ¬ (a.toList = a'.toList ∧ s.toList = s'.toList) := by
    rw [String.toList_inj, String.toList_inj]
    exact fun h => hne (Prod.ext h.1 h.2)
  rw [← String.toList_inj, toList_goalKey, toList_goalKey, append_sep_eq_iff, shifted_iff,
    shifted_iff, or_iff_right hparts]

/-! ## What a call changes -/

/-- The goal that a call leaves behind. -/
def Call.goal (call : Call) : Option GoalDeclaration :=
  match call.operation with
  | .declare intent embedding now => some ⟨call.agentId, call.sessionId, intent, embedding, now⟩
  | .revoke => none

/-- A call sets what is under its key, and nothing else. -/
theorem get_exec (s : GoalStore) (call : Call) (agentId sessionId : String) :
    (s.exec call).get agentId sessionId =
      if goalKey agentId sessionId = goalKey call.agentId call.sessionId then call.goal
      else s.get agentId sessionId := by
  obtain ⟨agentId', sessionId', operation⟩ := call
  cases operation with
  | declare intent embedding now => exact lookup_insert_eq _ _ _ _
  | revoke =>
    by_cases hkey : goalKey agentId sessionId = goalKey agentId' sessionId'
    · rw [if_pos hkey, get, hkey]
      exact AList.lookup_erase _ _
    · rw [if_neg hkey]
      exact AList.lookup_erase_ne hkey

/-- **When the goals of two sessions are independent.** After any calls, a call for one session
leaves the goal of the other exactly if neither agent's id goes on after a colon where the other
ends and takes up the beginning of the other session's id. -/
theorem goals_independent_iff {a s a' s' : String} (hne : (a, s) ≠ (a', s')) :
    (∀ (calls : List Call) (operation : Operation),
      ((run exec new calls).exec ⟨a, s, operation⟩).get a' s' = (run exec new calls).get a' s') ↔
      ¬ Shifted a s a' s' ∧ ¬ Shifted a' s' a s := by
  rw [← not_or, ← goalKey_eq_iff hne]
  constructor
  · intro h heq
    -- the first goal of all is declared for the one session and found for the other one
    have hsame := h [] (.declare "" [] 0)
    rw [get_exec, if_pos heq.symm] at hsame
    cases hsame
  · intro hkey calls operation
    rw [get_exec, if_neg (Ne.symm hkey)]

/-- Two sessions of one agent. -/
theorem goals_independent_two_sessions :
    ((run exec new [⟨"a1", "s1", .declare "intent A" [1] 0⟩]).exec ⟨"a1", "s2", .revoke⟩).get
        "a1" "s1" =
      (run exec new [⟨"a1", "s1", .declare "intent A" [1] 0⟩]).get "a1" "s1" := by
  have hlonger : ∀ middle : String, "a1" ≠ "a1" ++ ":" ++ middle := by
    intro middle h
    have hlength := congrArg String.length h
    rw [String.length_append, String.length_append] at hlength
    have hcolon : ":".length = 1 := rfl
    omega
  refine (goals_independent_iff (by decide)).2 ⟨?_, ?_⟩ _ .revoke
  · rintro ⟨middle, h, -⟩
    exact hlonger middle h
  · rintro ⟨middle, h, -⟩
    exact hlonger middle h

/-- Agent `team` has a goal for session `x:s`; agent `team:x` revokes its own session `s`. -/
theorem revoked_by_another_agent :
    (run exec new [⟨"team", "x:s", .declare "pay invoices" [1] 0⟩]).get "team" "x:s" ≠ none ∧
      (run exec new [⟨"team", "x:s", .declare "pay invoices" [1] 0⟩, ⟨"team:x", "s", .revoke⟩]).get
        "team" "x:s" = none := by
  decide +kernel

end GoalStore

end Haltchain.Embeddings

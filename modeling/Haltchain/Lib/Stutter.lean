import Mathlib.Data.List.Destutter

/-! # Repeated neighbours

A list in which elements are said several times over, one time right after the other. Dropping the
repetitions takes it back to the list in which each is said once, and that one loses nothing exactly
if no two of its neighbours are equal. -/

namespace Haltchain.Lib

open List

variable {α : Type*}

/-- The second list says the elements of the first one in order, each at least once. -/
inductive Stutter : List α → List α → Prop where
  | nil : Stutter [] []
  | cons (a : α) (n : Nat) {l m : List α} (h : Stutter l m) :
      Stutter (a :: l) (a :: (replicate n a ++ m))

theorem Stutter.once (a : α) : Stutter [a] [a] := .cons a 0 .nil

theorem Stutter.twice (a : α) : Stutter [a] [a, a] := .cons a 1 .nil

theorem Stutter.append {l m l' m' : List α} (h : Stutter l m) (h' : Stutter l' m') :
    Stutter (l ++ l') (m ++ m') := by
  induction h with
  | nil => exact h'
  | cons a n _ ih =>
    rw [cons_append, cons_append, append_assoc]
    exact .cons a n ih

variable [DecidableEq α]

theorem destutter'_replicate_append (a : α) (n : Nat) (m : List α) :
    (replicate n a ++ m).destutter' (· ≠ ·) a = m.destutter' (· ≠ ·) a := by
  induction n with
  | zero => rfl
  | succ n ih =>
    rw [replicate_succ, cons_append, destutter'_cons_neg _ (not_not.2 rfl), ih]

theorem Stutter.destutter' {l m : List α} (h : Stutter l m) (b : α) :
    m.destutter' (· ≠ ·) b = l.destutter' (· ≠ ·) b := by
  induction h generalizing b with
  | nil => rfl
  | cons a n _ ih =>
    by_cases hba : b = a
    · subst hba
      rw [destutter'_cons_neg _ (not_not.2 rfl), destutter'_cons_neg _ (not_not.2 rfl),
        destutter'_replicate_append, ih]
    · rw [destutter'_cons_pos _ hba, destutter'_cons_pos _ hba, destutter'_replicate_append, ih]

/-- **Repetitions make no difference** once neighbours are merged. -/
theorem Stutter.destutter {l m : List α} (h : Stutter l m) :
    m.destutter (· ≠ ·) = l.destutter (· ≠ ·) := by
  cases h with
  | nil => rfl
  | cons a n h =>
    rw [destutter_cons', destutter_cons', destutter'_replicate_append, h.destutter']

theorem length_destutter_eq_iff (l : List α) :
    (l.destutter (· ≠ ·)).length = l.length ↔ l.IsChain (· ≠ ·) := by
  rw [← destutter_eq_self_iff]
  constructor
  · exact (destutter_sublist (· ≠ ·) l).eq_of_length
  · exact congrArg length

end Haltchain.Lib

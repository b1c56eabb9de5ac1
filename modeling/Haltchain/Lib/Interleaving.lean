import Haltchain.Lib.Run
import Mathlib.Data.Set.Card

/-! # Threads that share a state

Threads take atomic steps on a shared state, each from a state of its own, as a schedule says. A
fact about the shared state and one about each thread are kept by all schedules if the thread that
takes a step keeps both and does not disturb the others'. -/

namespace Haltchain.Lib

open Function List

variable {ι S L : Type*} [DecidableEq ι]

structure Threads (ι S L : Type*) where
  shared : S
  locals : ι → L

namespace Threads

variable (step : S → L → S × L)

/-- The thread takes a step. -/
def exec (c : Threads ι S L) (t : ι) : Threads ι S L :=
  ⟨(step c.shared (c.locals t)).1, update c.locals t (step c.shared (c.locals t)).2⟩

variable {step}

theorem exec_shared (c : Threads ι S L) (t : ι) :
    (c.exec step t).shared = (step c.shared (c.locals t)).1 := rfl

theorem exec_locals_self (c : Threads ι S L) (t : ι) :
    (c.exec step t).locals t = (step c.shared (c.locals t)).2 :=
  update_self ..

theorem exec_locals_of_ne (c : Threads ι S L) {t t' : ι} (h : t' ≠ t) :
    (c.exec step t).locals t' = c.locals t' :=
  update_of_ne h ..

/-- **Facts that do not interfere.** -/
theorem exec_keeps {I : S → Prop} {J : S → L → Prop} {c : Threads ι S L} {t : ι}
    (hown : I (c.exec step t).shared ∧ J (c.exec step t).shared ((c.exec step t).locals t))
    (hothers : ∀ t', t' ≠ t → J (c.exec step t).shared (c.locals t')) :
    I (c.exec step t).shared ∧ ∀ t', J (c.exec step t).shared ((c.exec step t).locals t') := by
  refine ⟨hown.1, fun t' => ?_⟩
  by_cases heq : t' = t
  · rw [heq]
    exact hown.2
  · rw [exec_locals_of_ne c heq]
    exact hothers t' heq

section

variable (c : Threads ι S L) (t : ι) (n : Nat)

theorem run_replicate : run (exec step) c (replicate n t) =
      ⟨((fun p : S × L => step p.1 p.2)^[n] (c.shared, c.locals t)).1,
        update c.locals t
          ((fun p : S × L => step p.1 p.2)^[n] (c.shared, c.locals t)).2⟩ := by
  induction n generalizing c with
  | zero => simp
  | succ n ih =>
    rw [replicate_succ, run_cons, ih, iterate_succ_apply, exec_locals_self]
    simp only [exec, update_idem]

theorem run_replicate_shared : (run (exec step) c (replicate n t)).shared =
      ((fun p : S × L => step p.1 p.2)^[n] (c.shared, c.locals t)).1 := by
  rw [run_replicate]

theorem run_replicate_self : (run (exec step) c (replicate n t)).locals t =
      ((fun p : S × L => step p.1 p.2)^[n] (c.shared, c.locals t)).2 := by
  rw [run_replicate]
  exact update_self ..

end

theorem run_replicate_of_ne (c : Threads ι S L) {t t' : ι} (h : t' ≠ t) (n : Nat) :
    (run (exec step) c (replicate n t)).locals t' = c.locals t' := by
  rw [run_replicate]
  exact update_of_ne h ..

/-! ## Counting threads -/

/-- The states of `n` threads meet `p`; there may be infinitely many threads. -/
def HasCount (p : L → Prop) (c : Threads ι S L) (n : Nat) : Prop :=
  {t | p (c.locals t)}.encard = n

variable {p q : L → Prop} {c : Threads ι S L} {n m : Nat}

omit [DecidableEq ι] in
theorem HasCount.mono (h : c.HasCount p n) (h' : c.HasCount q m)
    (hpq : ∀ t, p (c.locals t) → q (c.locals t)) : n ≤ m := by
  have hle : (n : ℕ∞) ≤ m := h ▸ h' ▸ Set.encard_le_encard hpq
  exact_mod_cast hle

omit [DecidableEq ι] in
theorem HasCount.pos (h : c.HasCount p n) {t : ι} (ht : p (c.locals t)) : 0 < n := by
  have hpos : (0 : ℕ∞) < n := h ▸ Set.encard_pos.2 ⟨t, ht⟩
  exact_mod_cast hpos

/-- **A step and a count.** -/
theorem HasCount.exec [DecidablePred p] (step : S → L → S × L) (h : c.HasCount p n) (t : ι) :
    ∃ n', (c.exec step t).HasCount p n' ∧
      n' + (if p (c.locals t) then 1 else 0) =
        n + if p (step c.shared (c.locals t)).2 then 1 else 0 := by
  unfold HasCount at h ⊢
  have hself : (c.exec step t).locals t = _ := exec_locals_self c t
  have hothers : ∀ t' ≠ t, (c.exec step t).locals t' = c.locals t' :=
    fun t' hne => exec_locals_of_ne c hne
  by_cases hsame : p (c.locals t) ↔ p (step c.shared (c.locals t)).2
  · have heq : {t' | p ((c.exec step t).locals t')} = {t' | p (c.locals t')} := by
      ext t'
      by_cases ht : t' = t <;> simp_all
    exact ⟨n, by rw [heq, h], by simp only [hsame]⟩
  by_cases hold : p (c.locals t)
  · have hnew : ¬ p (step c.shared (c.locals t)).2 := by tauto
    have heq : {t' | p ((c.exec step t).locals t')} = {t' | p (c.locals t')} \ {t} := by
      ext t'
      by_cases ht : t' = t <;> simp_all
    have hmem : t ∈ {t' | p (c.locals t')} := hold
    have hpos : 0 < n := HasCount.pos h hold
    refine ⟨n - 1, ?_, by rw [if_pos hold, if_neg hnew]; omega⟩
    rw [heq, Set.encard_sdiff_singleton_of_mem hmem, h]
    norm_cast
  · have hnew : p (step c.shared (c.locals t)).2 := by tauto
    have heq : {t' | p ((c.exec step t).locals t')} = insert t {t' | p (c.locals t')} := by
      ext t'
      by_cases ht : t' = t <;> simp_all
    have hmem : t ∉ {t' | p (c.locals t')} := hold
    refine ⟨n + 1, ?_, by rw [if_neg hold, if_pos hnew]⟩
    rw [heq, Set.encard_insert_of_notMem hmem, h]
    norm_cast

end Threads

end Haltchain.Lib

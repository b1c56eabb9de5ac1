import Mathlib.Data.List.Infix

/-! # Runs of a deterministic state machine

Runs of a step function `f : S → E → S` are folds over a list of inputs. `Throughout` requires a
relation between the state before a step and its input at every step. The rules turn "one step keeps
it" into "every run keeps it". -/

namespace Haltchain.Lib

open List

variable {S E : Type*} (f : S → E → S)

/-- The state after feeding the inputs `es` from `s`. -/
def run (s : S) (es : List E) : S := es.foldl f s

@[simp] theorem run_nil (s : S) : run f s [] = s := rfl

@[simp] theorem run_cons (s : S) (e : E) (es : List E) : run f s (e :: es) = run f (f s e) es := rfl

theorem run_append (s : S) (es es' : List E) : run f s (es ++ es') = run f (run f s es) es' :=
  foldl_append

theorem run_concat (s : S) (es : List E) (e : E) : run f s (es ++ [e]) = f (run f s es) e := by
  rw [run_append]
  rfl

/-- Every step of the run meets `C`, given the state before it and its input. -/
def Throughout (C : S → E → Prop) : S → List E → Prop
  | _, [] => True
  | s, e :: es => C s e ∧ Throughout C (f s e) es

instance decidableThroughout (C : S → E → Prop) [∀ s e, Decidable (C s e)] :
    ∀ (s : S) (es : List E), Decidable (Throughout f C s es)
  | _, [] => instDecidableTrue
  | s, e :: es =>
    have := decidableThroughout C (f s e) es
    inferInstanceAs (Decidable (C s e ∧ Throughout f C (f s e) es))

variable {f} {C C' : S → E → Prop}

variable {s : S} {es : List E}

theorem throughout_append {es' : List E} :
    Throughout f C s (es ++ es') ↔ Throughout f C s es ∧ Throughout f C (run f s es) es' := by
  induction es generalizing s with
  | nil => simp [Throughout]
  | cons e es ih =>
    simp only [cons_append, Throughout, ih]
    tauto

theorem throughout_concat {e : E} :
    Throughout f C s (es ++ [e]) ↔ Throughout f C s es ∧ C (run f s es) e := by
  rw [throughout_append]
  simp [Throughout]

theorem throughout_of_forall (h : ∀ s e, C s e) (s : S) (es : List E) : Throughout f C s es := by
  induction es generalizing s with
  | nil => trivial
  | cons e es ih => exact ⟨h s e, ih (f s e)⟩

theorem Throughout.mono (h : Throughout f C s es) (hC : ∀ s e, C s e → C' s e) :
    Throughout f C' s es := by
  induction es generalizing s with
  | nil => trivial
  | cons e es ih => exact ⟨hC s e h.1, ih h.2⟩

theorem Throughout.and (h : Throughout f C s es) (h' : Throughout f C' s es) :
    Throughout f (fun s e => C s e ∧ C' s e) s es := by
  induction es generalizing s with
  | nil => trivial
  | cons e es ih => exact ⟨⟨h.1, h'.1⟩, ih h.2 h'.2⟩

/-- A fact about the inputs so far, kept by one more that meets the condition. -/
theorem Throughout.induction {P : List E → Prop} (hnil : P [])
    (hstep : ∀ es e, Throughout f C s es → P es → C (run f s es) e → P (es ++ [e]))
    (h : Throughout f C s es) : P es := by
  induction es using reverseRecOn with
  | nil => exact hnil
  | append_singleton es e ih =>
    obtain ⟨hes, he⟩ := throughout_concat.1 h
    exact hstep es e hes (ih hes) he

variable {I : S → Prop}

/-- A property kept by every step that meets the condition holds after the run. -/
theorem Throughout.invariant (hI : I s) (hstep : ∀ s e, I s → C s e → I (f s e))
    (h : Throughout f C s es) : I (run f s es) := by
  refine Throughout.induction (P := fun es => I (run f s es)) hI ?_ h
  intro es e _ hes he
  rw [run_concat]
  exact hstep _ e hes he

/-- A property kept by every step holds after every run. -/
theorem run_invariant (hI : I s) (hstep : ∀ s e, I s → I (f s e)) (es : List E) :
    I (run f s es) := by
  induction es using reverseRecOn with
  | nil => exact hI
  | append_singleton es e ih =>
    rw [run_concat]
    exact hstep _ e ih

/-- A property kept by the inputs of the run holds after it. -/
theorem run_invariant_of_mem (hI : I s) (hstep : ∀ s, ∀ e ∈ es, I s → I (f s e)) :
    I (run f s es) := by
  induction es using reverseRecOn with
  | nil => exact hI
  | append_singleton es e ih =>
    rw [run_concat]
    refine hstep _ e (mem_append_right _ (mem_singleton_self e)) (ih ?_)
    exact fun s e he => hstep s e (mem_append_left _ he)

/-- What each input brings about, and no other undoes, holds after the run. -/
theorem run_establishes {P : E → S → Prop} (hI : I s) (hstep : ∀ s e, I s → I (f s e))
    (hown : ∀ s e, I s → P e (f s e)) (hkeep : ∀ s e e', I s → P e' s → P e' (f s e))
    (es : List E) : ∀ e ∈ es, P e (run f s es) := by
  induction es using reverseRecOn with
  | nil => exact fun e he => absurd he not_mem_nil
  | append_singleton es e ih =>
    have hI' := run_invariant hI hstep es
    intro e' he'
    rw [run_concat]
    rcases mem_append.1 he' with he' | he'
    · exact hkeep _ e e' hI' (ih e' he')
    · obtain rfl := mem_singleton.1 he'
      exact hown _ e' hI'

section

variable {O : Type*} (f) (out : S → E → Option O)

/-- What the steps put out; `out` sees the state before the step and its input. -/
def outputs : S → List E → List O
  | _, [] => []
  | s, e :: es => (out s e).toList ++ outputs (f s e) es

theorem outputs_append (s : S) (es es' : List E) :
    outputs f out s (es ++ es') = outputs f out s es ++ outputs f out (run f s es) es' := by
  induction es generalizing s with
  | nil => rfl
  | cons e es ih => simp only [cons_append, outputs, run_cons, ih, append_assoc]

theorem outputs_concat (s : S) (es : List E) (e : E) :
    outputs f out s (es ++ [e]) = outputs f out s es ++ (out (run f s es) e).toList := by
  rw [outputs_append]
  simp [outputs]

/-- What has been put out was put out by some step. -/
theorem exists_of_mem_outputs {o : O} (h : o ∈ outputs f out s es) :
    ∃ es₁ e es₂, es = es₁ ++ e :: es₂ ∧ out (run f s es₁) e = some o := by
  induction es generalizing s with
  | nil => simp [outputs] at h
  | cons e es ih =>
    rcases mem_append.1 h with h | h
    · exact ⟨[], e, es, rfl, Option.mem_toList.1 h⟩
    · obtain ⟨es₁, e', es₂, rfl, ho⟩ := ih h
      exact ⟨e :: es₁, e', es₂, rfl, ho⟩

theorem outputs_sublist {out : S → E → Option E} (h : ∀ s e o, out s e = some o → o = e) (s : S)
    (es : List E) : (outputs f out s es).Sublist es := by
  induction es generalizing s with
  | nil => exact .refl _
  | cons e es ih =>
    rw [outputs]
    cases ho : out s e with
    | none => exact (ih (f s e)).cons e
    | some o =>
      obtain rfl := h s e o ho
      exact (ih (f s o)).cons_cons o

end

end Haltchain.Lib

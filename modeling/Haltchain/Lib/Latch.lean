import Mathlib.Tactic.Common

/-! # Timed latches

A latch is set to deadlines, over and over, and should hold as long as any of them lies ahead.
`Tracks` says that one slot stands for all of them. It does if it is only overwritten by the latest
one and only cleared once all have passed. -/

namespace Haltchain.Lib

/-- From `seen` on the slot stands for the deadlines: the latest, or none if all have passed. -/
def Tracks (seen : Nat) (slot : Option Nat) (deadlines : List Nat) : Prop :=
  match slot with
  | some latest => latest ∈ deadlines ∧ ∀ d ∈ deadlines, d ≤ latest
  | none => ∀ d ∈ deadlines, d ≤ seen

theorem tracks_nil (seen : Nat) : Tracks seen none [] := fun d hd => absurd hd (by simp)

namespace Tracks

variable {seen now : Nat} {slot : Option Nat} {deadlines : List Nat}

section

variable (h : Tracks seen slot deadlines) (hle : seen ≤ now)

include h hle

theorem later : Tracks now slot deadlines := by
  cases slot with
  | none => exact fun d hd => Nat.le_trans (h d hd) hle
  | some latest => exact h

/-- The slot holds exactly as long as some deadline lies ahead. -/
theorem holds_iff : (∃ latest ∈ slot, now < latest) ↔ ∃ d ∈ deadlines, now < d := by
  cases slot with
  | none =>
    constructor
    · rintro ⟨latest, hmem, -⟩
      simp at hmem
    · rintro ⟨d, hd, hlt⟩
      have := h d hd
      omega
  | some latest =>
    obtain ⟨hin, hmax⟩ := h
    constructor
    · rintro ⟨latest', hmem, hlt⟩
      obtain rfl := Option.mem_some.1 hmem
      exact ⟨latest, hin, hlt⟩
    · rintro ⟨d, hd, hlt⟩
      exact ⟨latest, rfl, Nat.lt_of_lt_of_le hlt (hmax d hd)⟩

/-- A slot found expired says that every deadline has passed. -/
theorem expired (hexp : ∀ latest ∈ slot, latest ≤ now) : ∀ d ∈ deadlines, d ≤ now := by
  intro d hd
  by_contra hlt
  obtain ⟨latest, hmem, hlt'⟩ := (h.holds_iff hle).2 ⟨d, hd, by omega⟩
  have := hexp latest hmem
  omega

end

end Tracks

/-- Overwriting by a deadline no earlier than all before. -/
theorem tracks_set {now deadline : Nat} {deadlines : List Nat}
    (hmax : ∀ d ∈ deadlines, d ≤ deadline) :
    Tracks now (some deadline) (deadlines ++ [deadline]) := by
  refine ⟨List.mem_append_right _ (.head _), fun d hd => ?_⟩
  rcases List.mem_append.1 hd with hd | hd
  · exact hmax d hd
  · exact Nat.le_of_eq (List.mem_singleton.1 hd)

end Haltchain.Lib

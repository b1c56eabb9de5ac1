import Mathlib.Data.List.Find

/-! # Waiting in line, by rank

A line is the list of those who wait, in the order in which they came. Of those that qualify, the
next one is the first of the lowest rank. One may keep a list for each rank instead, and go through
the lists in order of rank. -/

namespace Haltchain.Lib

open List

variable {α ρ : Type*}

/-- Two lists with as many elements of every kind have the same elements. -/
theorem perm_of_countP [DecidableEq α] {l l' : List α} (h : ∀ P, l.countP P = l'.countP P) :
    l.Perm l' :=
  perm_iff_count.2 fun _ => h _

theorem countP_eraseIdx {l : List α} {i : Nat} {a : α} (hi : l[i]? = some a) (P : α → Bool) :
    (l.eraseIdx i).countP P + [a].countP P = l.countP P := by
  obtain ⟨hlt, rfl⟩ := List.getElem?_eq_some_iff.1 hi
  have hsplit : l.take i ++ l[i] :: l.drop (i + 1) = l := by
    rw [← drop_eq_getElem_cons hlt, take_append_drop]
  have hcount := congrArg (countP P) hsplit
  rw [eraseIdx_eq_take_drop_succ]
  simp only [countP_append, countP_cons, countP_nil] at hcount ⊢
  omega

variable [PartialOrder ρ] [DecidableLE ρ] (rank : α → ρ)

/-- The first of the lowest rank among those that qualify. -/
def firstInLine (ok : α → Bool) (waiting : List α) : Option α :=
  waiting.find? fun a => decide (ok a ∧ ∀ b ∈ waiting, ok b → rank a ≤ rank b)

variable {rank} [DecidableEq ρ]

/-- Going through the lists of all ranks finds the next one. -/
theorem find?_ranks {ranks : List ρ} (hranks : ranks.Pairwise (· < ·)) {ok : α → Bool}
    {waiting : List α} (hall : ∀ a ∈ waiting, ok a = true → rank a ∈ ranks) :
    (ranks.flatMap fun r => waiting.filter (rank · = r)).find? ok =
      firstInLine rank ok waiting := by
  induction ranks with
  | nil =>
    symm
    rw [flatMap_nil, find?_nil, firstInLine, find?_eq_none]
    intro a ha h
    exact absurd (hall a ha (of_decide_eq_true h).1) not_mem_nil
  | cons r ranks ih =>
    obtain ⟨hlowest, hranks⟩ := pairwise_cons.1 hranks
    rw [flatMap_cons, find?_append]
    by_cases hsome : ∃ a ∈ waiting, ok a = true ∧ rank a = r
    · -- whoever is of this rank has the lowest one
      obtain ⟨a₀, ha₀, hok₀, hrank₀⟩ := hsome
      have hle : ∀ b ∈ waiting, ok b = true → r ≤ rank b := by
        intro b hb hok
        rcases mem_cons.1 (hall b hb hok) with heq | hmem
        · exact heq.ge
        · exact le_of_lt (hlowest _ hmem)
      have hfind : (waiting.filter (rank · = r)).find? ok = firstInLine rank ok waiting := by
        rw [find?_filter]
        refine find?_congr fun a ha => ?_
        simp only [decide_eq_true_eq, decide_eq_decide]
        constructor
        · rintro ⟨hrank, hok⟩
          rw [hrank]
          exact ⟨hok, hle⟩
        · rintro ⟨hok, hmin⟩
          have hrank : rank a = r :=
            le_antisymm ((hmin a₀ ha₀ hok₀).trans_eq hrank₀) (hle a ha hok)
          exact ⟨hrank, hok⟩
      obtain ⟨a, ha⟩ : ∃ a, (waiting.filter (rank · = r)).find? ok = some a := by
        rw [← Option.isSome_iff_exists, find?_isSome]
        exact ⟨a₀, mem_filter.2 ⟨ha₀, by simpa using hrank₀⟩, hok₀⟩
      rw [ha, Option.some_or, ← ha, hfind]
    · have hnone : (waiting.filter (rank · = r)).find? ok = none := by
        rw [find?_eq_none]
        intro a ha hok
        obtain ⟨hmem, hrank⟩ := mem_filter.1 ha
        exact hsome ⟨a, hmem, hok, by simpa using hrank⟩
      rw [hnone]
      refine ih hranks fun a ha hok => ?_
      exact (mem_cons.1 (hall a ha hok)).resolve_left fun heq => hsome ⟨a, ha, hok, heq⟩

/-! ## Coming and going -/

inductive Move (α : Type*) where
  | arrive (a : α)
  | leave (a : α)

variable [DecidableEq α]

/-- What is then in line. -/
def Move.exec (waiting : List α) : Move α → List α
  | .arrive a => waiting ++ [a]
  | .leave a => waiting.erase a

omit [PartialOrder ρ] [DecidableLE ρ] in
theorem filter_arrive (rank : α → ρ) (waiting : List α) (a : α) (r : ρ) :
    (Move.exec waiting (.arrive a)).filter (rank · = r) =
      if r = rank a then waiting.filter (rank · = r) ++ [a] else waiting.filter (rank · = r) := by
  rw [Move.exec, filter_append]
  split
  · next h => simp [h]
  · next h => simp [Ne.symm h]

omit [PartialOrder ρ] [DecidableLE ρ] in
theorem filter_leave {rank : α → ρ} {waiting rest : List α} {a : α}
    (hfirst : waiting.filter (rank · = rank a) = a :: rest) (r : ρ) :
    (Move.exec waiting (.leave a)).filter (rank · = r) =
      if r = rank a then rest else waiting.filter (rank · = r) := by
  rw [Move.exec, ← erase_filter]
  split
  · next h => rw [h, hfirst, erase_cons_head]
  · next h =>
    rw [erase_of_not_mem]
    intro hmem
    exact h (of_decide_eq_true (mem_filter.1 hmem).2).symm

end Haltchain.Lib

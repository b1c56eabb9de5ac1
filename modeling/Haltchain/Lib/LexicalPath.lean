import Mathlib.Data.List.Infix

/-! # Paths as texts

An absolute path is a list of segments, each with a separator before it. Its lexical normal form
leaves out some of them, so that neighbours there need not be neighbours in the path. -/

namespace Haltchain.Lib

open List

variable {α : Type*}

section

variable (sep : α)

/-- Each segment with a separator before it. -/
def pathText (segments : List (List α)) : List α := segments.flatMap (sep :: ·)

/-- The separator occurs at the ends only. -/
def OneSegment (part : List α) : Prop := sep ∉ part.tail.dropLast

instance [DecidableEq α] (part : List α) : Decidable (OneSegment sep part) :=
  inferInstanceAs (Decidable (sep ∉ part.tail.dropLast))

variable {sep}

theorem OneSegment.at_end {x y : List α} (h : OneSegment sep (x ++ sep :: y)) :
    x = [] ∨ y = [] := by
  by_contra hne
  rw [not_or] at hne
  obtain ⟨a, x, rfl⟩ := exists_cons_of_ne_nil hne.1
  refine h ?_
  rw [cons_append, tail_cons,
    dropLast_append_of_ne_nil (cons_ne_nil _ _), dropLast_cons_of_ne_nil hne.2]
  simp

/-- A separator and then the segments with separators between them. -/
theorem pathText_eq_cons_intercalate {segments : List (List α)} (hne : segments ≠ []) :
    pathText sep segments = sep :: intercalate [sep] segments := by
  induction segments with
  | nil => exact absurd rfl hne
  | cons s segments ih =>
    cases segments with
    | nil => simp [pathText]
    | cons next segments =>
      rw [pathText, flatMap_cons, ← pathText, ih (cons_ne_nil _ _)]
      simp

theorem pathText_splitOn [DecidableEq α] (text : List α) :
    pathText sep (text.splitOn sep) = sep :: text := by
  rw [pathText_eq_cons_intercalate (splitOn_ne_nil sep text), intercalate_splitOn]

theorem pathText_cons (s : List α) (segments : List (List α)) :
    pathText sep (s :: segments) = sep :: s ++ pathText sep segments := flatMap_cons

theorem pathText_append (segments segments' : List (List α)) :
    pathText sep (segments ++ segments') = pathText sep segments ++ pathText sep segments' :=
  flatMap_append

/-- What occurs in a text occurs before a letter of it, after it, or over it. -/
theorem infix_append_cons {part u v : List α} {c : α} (h : part <:+: u ++ c :: v) :
    part <:+: u ++ [c] ∨ part <:+: c :: v ∨
      ∃ x y, x ≠ [] ∧ y ≠ [] ∧ part = x ++ c :: y := by
  obtain ⟨l, r, h⟩ := h
  rw [append_assoc] at h
  rcases append_eq_append_iff.1 h with ⟨z, rfl, hz⟩ | ⟨z, rfl, hz⟩
  · -- it begins before the letter or at it
    rcases append_eq_append_iff.1 hz with ⟨z', rfl, hz'⟩ | ⟨z', rfl, hz'⟩
    · exact .inl ⟨l, z' ++ [c], by simp⟩
    cases z' with
    | nil => exact .inl ⟨l, [c], by simp⟩
    | cons d y =>
      obtain ⟨rfl, -⟩ := cons.inj hz'
      by_cases hx : z = []
      · subst hx
        refine .inr (.inl ⟨[], r, ?_⟩)
        simpa using hz'.symm
      · by_cases hy : y = []
        · subst hy
          exact .inl ⟨l, [], by simp⟩
        · exact .inr (.inr ⟨z, y, hx, hy, rfl⟩)
  · exact .inr (.inl ⟨z, r, by rw [append_assoc]; exact hz.symm⟩)

/-- **One segment at a time.** What has no separator inside occurs at one segment, with the
separator before it, and the one after unless it is the last. -/
theorem exists_of_infix_pathText {part : List α} (hone : OneSegment sep part)
    {segments : List (List α)} (h : part <:+: pathText sep segments) (hne : segments ≠ []) :
    ∃ front s back, segments = front ++ s :: back ∧
      (part <:+: sep :: s ∨ back ≠ [] ∧ part <:+: sep :: s ++ [sep]) := by
  induction segments with
  | nil => exact absurd rfl hne
  | cons s segments ih =>
    cases segments with
    | nil =>
      refine ⟨[], s, [], rfl, .inl ?_⟩
      simpa [pathText] using h
    | cons next segments =>
      change part <:+: sep :: s ++ sep :: (next ++ pathText sep segments) at h
      rcases infix_append_cons h with h | h | ⟨x, y, hx, hy, rfl⟩
      · exact ⟨[], s, next :: segments, rfl, .inr ⟨cons_ne_nil _ _, h⟩⟩
      · obtain ⟨front, s', back, heq, hpart⟩ := ih h (cons_ne_nil _ _)
        exact ⟨s :: front, s', back, by rw [heq]; rfl, hpart⟩
      · rcases hone.at_end with hx' | hy'
        · exact absurd hx' hx
        · exact absurd hy' hy

/-- What a choice of segments shows of one of them, all of them show. -/
theorem infix_pathText_of_sublist {part : List α} (hone : OneSegment sep part)
    {segments segments' : List (List α)} (hsub : segments.Sublist segments') (hne : segments ≠ [])
    (h : part <:+: pathText sep segments) : part <:+: pathText sep segments' := by
  obtain ⟨front, s, back, rfl, hpart⟩ := exists_of_infix_pathText hone h hne
  obtain ⟨front', rest', rfl, -, hsub'⟩ := append_sublist_iff.1 hsub
  obtain ⟨middle, back', rfl, hback⟩ : ∃ middle back', rest' = middle ++ s :: back' ∧
      back.Sublist back' := by
    obtain ⟨middle, rest'', rfl, hmem, hback⟩ := cons_sublist_iff.1 hsub'
    obtain ⟨l, r, rfl⟩ := append_of_mem hmem
    exact ⟨l, r ++ rest'', by simp, hback.trans (sublist_append_right r rest'')⟩
  rw [pathText_append, pathText_append, pathText_cons]
  rcases hpart with hpart | ⟨hlast, hpart⟩
  · exact hpart.trans ⟨pathText sep front' ++ pathText sep middle, pathText sep back', by simp⟩
  obtain ⟨next, back', rfl⟩ : ∃ next rest, back' = next :: rest := by
    refine exists_cons_of_ne_nil ?_
    rintro rfl
    exact hlast (sublist_nil.1 hback)
  refine hpart.trans ⟨pathText sep front' ++ pathText sep middle, next ++ pathText sep back', ?_⟩
  rw [pathText_cons]
  simp

end

section

variable [DecidableEq α] (sep dot : α)

/-- One segment more: empty ones and `.` are left out, `..` goes back. -/
def resolve (segments : List (List α)) (s : List α) : List (List α) :=
  if s = [] ∨ s = [dot] then segments
  else if s = [dot, dot] then segments.dropLast
  else segments ++ [s]

/-- The segments of the normal form. -/
def resolveAll (segments : List (List α)) : List (List α) := segments.foldl (resolve dot) []

/-- The lexical normal form of the path of these segments. -/
def normalText (segments : List (List α)) : List α :=
  if resolveAll dot segments = [] then [sep] else pathText sep (resolveAll dot segments)

variable {dot}

theorem resolve_sublist (segments : List (List α)) (s : List α) :
    (resolve dot segments s).Sublist (segments ++ [s]) := by
  unfold resolve
  split
  · exact sublist_append_left _ _
  split
  · exact (dropLast_sublist segments).trans (sublist_append_left _ _)
  · exact .refl _

theorem foldl_resolve_sublist (segments segments' : List (List α)) :
    (segments'.foldl (resolve dot) segments).Sublist (segments ++ segments') := by
  induction segments' generalizing segments with
  | nil => simp
  | cons s segments' ih =>
    rw [append_cons]
    exact (ih _).trans ((resolve_sublist segments s).append (.refl _))

end

end Haltchain.Lib

import Haltchain.Lib.Separated
import Mathlib.Data.List.DropRight

/-! # Escaped values

A value is escaped by writing some of its characters as two, an escape character and a code. Keys
and values can then be written in one line, with a separator after each key and a gap before the
next one: it is the last gap before a separator. -/

namespace Haltchain.Lib

open List

variable {α : Type*}

/-- What is escaped, and how; the escape character is. -/
structure Escaping (α : Type*) where
  esc : α
  code : α → Option α
  char : α → α
  esc_coded : (code esc).isSome
  char_code : ∀ c d, code c = some d → char d = c

namespace Escaping

variable (E : Escaping α)

def escape (l : List α) : List α :=
  l.flatMap fun c =>
    match E.code c with
    | some d => [E.esc, d]
    | none => [c]

variable {E} {c d sep gap : α}

theorem ne_esc_of_code (h : E.code c = none) : c ≠ E.esc := by
  rintro rfl
  have hcoded := E.esc_coded
  rw [h] at hcoded
  cases hcoded

theorem escape_cons_of_code (h : E.code c = some d) (l : List α) :
    E.escape (c :: l) = E.esc :: d :: E.escape l := by
  simp [escape, h]

theorem escape_cons_of_plain (h : E.code c = none) (l : List α) :
    E.escape (c :: l) = c :: E.escape l := by
  simp [escape, h]

/-- Escaped values have escape characters, codes, and characters that need no code. -/
theorem of_mem_escape {l : List α} (h : c ∈ E.escape l) :
    c = E.esc ∨ (∃ a, E.code a = some c) ∨ E.code c = none := by
  obtain ⟨a, -, h⟩ := mem_flatMap.1 h
  split at h
  · next d hcode =>
    rcases mem_pair.1 h with rfl | rfl
    · exact .inl rfl
    · exact .inr (.inl ⟨a, hcode⟩)
  · next hcode =>
    obtain rfl := mem_singleton.1 h
    exact .inr (.inr hcode)

variable [DecidableEq α]

variable (E) in
/-- Reads them back. -/
def unescape : List α → List α
  | [] => []
  | [c] => [c]
  | c :: d :: l => if c = E.esc then E.char d :: unescape l else c :: unescape (d :: l)

theorem unescape_cons (h : c ≠ E.esc) (l : List α) : E.unescape (c :: l) = c :: E.unescape l := by
  cases l with
  | nil => rfl
  | cons d l => rw [unescape, if_neg h]

/-- **What is escaped is read back.** -/
theorem unescape_escape (l : List α) : E.unescape (E.escape l) = l := by
  induction l with
  | nil => rfl
  | cons c l ih =>
    cases hcode : E.code c with
    | some d => rw [escape_cons_of_code hcode, unescape, if_pos rfl, ih, E.char_code c d hcode]
    | none => rw [escape_cons_of_plain hcode, unescape_cons (ne_esc_of_code hcode), ih]

/-! ## Splitting -/

/-- A text before the first segment. -/
def prepend (x : List α) (segments : List α × List (List α)) : List α × List (List α) :=
  (x ++ segments.1, segments.2)

variable (E) in
/-- The segments between unescaped separators: the first one, and the others. -/
def splitUnescaped (sep : α) : List α → List α × List (List α)
  | [] => ([], [])
  | [c] => if c = sep then ([], [[]]) else ([c], [])
  | c :: d :: l =>
    if c = E.esc then prepend [c, d] (splitUnescaped sep l)
    else if c = sep then
      let segments := splitUnescaped sep (d :: l)
      ([], segments.1 :: segments.2)
    else prepend [c] (splitUnescaped sep (d :: l))

theorem splitUnescaped_sep_cons (h : sep ≠ E.esc) (l : List α) : E.splitUnescaped sep (sep :: l) =
      ([], (E.splitUnescaped sep l).1 :: (E.splitUnescaped sep l).2) := by
  cases l with
  | nil => simp [splitUnescaped]
  | cons d l => rw [splitUnescaped, if_neg h, if_pos rfl]

theorem splitUnescaped_cons (hesc : c ≠ E.esc) (hsep : c ≠ sep) (l : List α) :
    E.splitUnescaped sep (c :: l) = prepend [c] (E.splitUnescaped sep l) := by
  cases l with
  | nil => simp [splitUnescaped, prepend, hsep]
  | cons d l => rw [splitUnescaped, if_neg hesc, if_neg hsep]

/-- A text without separators and escape characters is one segment. -/
theorem splitUnescaped_plain_append {x : List α} (hesc : E.esc ∉ x) (hsep : sep ∉ x) (l : List α) :
    E.splitUnescaped sep (x ++ l) = prepend x (E.splitUnescaped sep l) := by
  induction x with
  | nil => rfl
  | cons c x ih =>
    rw [mem_cons, not_or] at hesc hsep
    rw [cons_append, splitUnescaped_cons (Ne.symm hesc.1) (Ne.symm hsep.1), ih hesc.2 hsep.2]
    rfl

theorem splitUnescaped_escape_append (hsep : (E.code sep).isSome) (x l : List α) :
    E.splitUnescaped sep (E.escape x ++ l) = prepend (E.escape x) (E.splitUnescaped sep l) := by
  induction x with
  | nil => rfl
  | cons c x ih =>
    cases hcode : E.code c with
    | some d =>
      rw [escape_cons_of_code hcode, cons_append, cons_append,
        splitUnescaped, if_pos rfl, ih]
      rfl
    | none =>
      have hne : c ≠ sep := by
        rintro rfl
        rw [hcode] at hsep
        cases hsep
      rw [escape_cons_of_plain hcode, cons_append,
        splitUnescaped_cons (ne_esc_of_code hcode) hne, ih]
      rfl

/-! ## Keys and values in one line -/

/-- The text before the last gap. -/
def beforeLast (gap : α) (x : List α) : List α := (x.rdropWhile (· ≠ gap)).dropLast

/-- The text after the last gap, or all of it if there is none. -/
def afterLast (gap : α) (x : List α) : List α := x.rtakeWhile (· ≠ gap)

theorem afterLast_of_notMem {x : List α} (h : gap ∉ x) : afterLast gap x = x := by
  rw [afterLast, rtakeWhile_eq_self_iff]
  intro c hc
  simpa using fun heq : c = gap => h (heq ▸ hc)

/-- The last gap is the one before a text without gaps. -/
theorem cut_append {y : List α} (h : gap ∉ y) (x : List α) :
    beforeLast gap (x ++ gap :: y) = x ∧ afterLast gap (x ++ gap :: y) = y := by
  have hother : ∀ c ∈ y.reverse, decide (c ≠ gap) = true := by
    intro c hc
    simpa using fun heq : c = gap => h (heq ▸ mem_reverse.1 hc)
  have hreverse : (x ++ gap :: y).reverse = y.reverse ++ gap :: x.reverse := by simp
  constructor
  · rw [beforeLast, rdropWhile, hreverse, dropWhile_append_of_pos hother]
    simp
  · rw [afterLast, rtakeWhile, hreverse, takeWhile_append_of_pos hother]
    simp

variable (E) in
/-- Each segment holds a value and the key of the next one. -/
def fieldsFrom (gap : α) : List α → List (List α) → List (List α × List α)
  | _, [] => []
  | key, [last] => [(key, E.unescape last)]
  | key, s :: t :: segments =>
    (key, E.unescape (beforeLast gap s)) :: fieldsFrom gap (afterLast gap s) (t :: segments)

variable (E) in
/-- Split at the unescaped separators; the key is between the last gap and the separator. -/
def parseFields (sep gap : α) (line : List α) : List (List α × List α) :=
  let segments := E.splitUnescaped sep line
  E.fieldsFrom gap (afterLast gap segments.1) segments.2

variable (E) in
/-- The fields in one line. -/
def renderFields (sep gap : α) (fields : List (List α × List α)) : List α :=
  sepJoin gap (fields.map fun f => f.1 ++ sep :: E.escape f.2)

omit [DecidableEq α] in
theorem renderFields_cons (f g : List α × List α) (fields : List (List α × List α)) :
    E.renderFields sep gap (f :: g :: fields) =
      f.1 ++ sep :: (E.escape f.2 ++ gap :: E.renderFields sep gap (g :: fields)) := by
  simp [renderFields, sepJoin]

section

variable (hesc : sep ≠ E.esc) (hcoded : (E.code sep).isSome)

include hesc hcoded

theorem splitUnescaped_field {key : List α} (hkey : E.esc ∉ key ∧ sep ∉ key) (value l : List α) :
    E.splitUnescaped sep (key ++ sep :: (E.escape value ++ l)) =
      (key, (E.escape value ++ (E.splitUnescaped sep l).1) :: (E.splitUnescaped sep l).2) := by
  rw [splitUnescaped_plain_append hkey.1 hkey.2, splitUnescaped_sep_cons hesc,
    splitUnescaped_escape_append hcoded]
  simp [prepend]

section

variable (hgap : gap ≠ E.esc ∧ gap ≠ sep) {fields : List (List α × List α)}
  (hkeys : ∀ f ∈ fields, E.esc ∉ f.1 ∧ sep ∉ f.1 ∧ gap ∉ f.1) (hne : fields ≠ [])

include hgap hkeys hne

/-- The segments of a line: the first key, and what the fields are read from. -/
theorem splitUnescaped_renderFields :
    ∃ key segments, E.splitUnescaped sep (E.renderFields sep gap fields) = (key, segments) ∧
      gap ∉ key ∧ E.fieldsFrom gap key segments = fields ∧ segments ≠ [] := by
  induction fields with
  | nil => exact absurd rfl hne
  | cons f fields ih =>
    obtain ⟨key, value⟩ := f
    obtain ⟨hkey, hkeys⟩ := forall_mem_cons.1 hkeys
    cases fields with
    | nil =>
      refine ⟨key, [E.escape value], ?_, hkey.2.2, ?_, cons_ne_nil _ _⟩
      · have hsplit := splitUnescaped_field hesc hcoded ⟨hkey.1, hkey.2.1⟩ value []
        simpa [renderFields, sepJoin, splitUnescaped] using hsplit
      · rw [fieldsFrom, unescape_escape]
    | cons f fields =>
      obtain ⟨key', segments, hsplit, hgap', hfields, hsegments⟩ :=
        ih hkeys (cons_ne_nil _ _)
      refine ⟨key, (E.escape value ++ gap :: key') :: segments, ?_, hkey.2.2, ?_, cons_ne_nil _ _⟩
      · rw [renderFields_cons, splitUnescaped_field hesc hcoded ⟨hkey.1, hkey.2.1⟩,
          splitUnescaped_cons hgap.1 hgap.2, hsplit]
        rfl
      · obtain ⟨s, segments, rfl⟩ := exists_cons_of_ne_nil hsegments
        rw [fieldsFrom, (cut_append hgap' _).1, (cut_append hgap' _).2, hfields, unescape_escape]

/-- **A line of fields is read back**, if the keys have no separators, gaps and escapes. -/
theorem parseFields_renderFields :
    E.parseFields sep gap (E.renderFields sep gap fields) = fields := by
  obtain ⟨key, segments, hsplit, hkey, hfields, -⟩ :=
    splitUnescaped_renderFields hesc hcoded hgap hkeys hne
  rw [parseFields, hsplit]
  rw [afterLast_of_notMem hkey, hfields]

end

end

end Escaping

end Haltchain.Lib

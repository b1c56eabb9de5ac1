import Haltchain.Lib.Glob

/-! # Tool name patterns

`wildcard_matches` of `crates/mcp-guard/src/lib.rs`. A string is the list of its characters. The
source slices by bytes; a part is only found at a character boundary, and the offsets of the source
are the byte lengths of the prefixes counted here. -/

namespace Haltchain.McpGuard

open Lib List

/-- The loop over the parts: where the last one ends, or `none` for `false`. -/
def findParts (value : List Char) (anchoredStart : Bool) (idx offset : Nat) :
    List (List Char) → Option Nat
  | [] => some offset
  | part :: parts =>
    match find part (value.drop offset) with
    | none => none
    | some found =>
      if idx = 0 ∧ anchoredStart ∧ found ≠ 0 then none
      else findParts value anchoredStart (idx + 1) (offset + (found + part.length)) parts

/-- Stars stand for any text. -/
def wildcardMatches (value pattern : List Char) : Bool :=
  if pattern = ['*'] then true
  else if '*' ∉ pattern then value = pattern
  else
    let parts := (pattern.splitOn '*').filter (!·.isEmpty)
    if parts.isEmpty then true
    else
      let anchoredStart : Bool := pattern.head? ≠ some '*'
      let anchoredEnd : Bool := pattern.getLast? ≠ some '*'
      match findParts value anchoredStart 0 0 parts with
      | none => false
      | some _ =>
        match anchoredEnd, parts.getLast? with
        | true, some last => last <:+ value
        | _, _ => true

/-! ## The loop is the greedy scan -/

theorem findParts_succ (value : List Char) (anchored : Bool) (idx offset : Nat)
    (parts : List (List Char)) : findParts value anchored (idx + 1) offset parts =
      (scan parts (value.drop offset)).map (offset + ·) := by
  induction parts generalizing idx offset with
  | nil => rfl
  | cons part parts ih =>
    unfold findParts scan
    cases find part (value.drop offset) with
    | none => rfl
    | some found =>
      dsimp only
      rw [if_neg (by simp), ih, drop_drop, Option.map_map]
      congr 1
      funext n
      simp [add_assoc]

/-- Without an anchor the first part may stand anywhere, too. -/
theorem findParts_floating (value : List Char) (parts : List (List Char)) :
    findParts value false 0 0 parts = scan parts value := by
  cases parts with
  | nil => rfl
  | cons part parts =>
    unfold findParts scan
    rw [drop_zero]
    cases find part value with
    | none => rfl
    | some found =>
      dsimp only
      rw [findParts_succ]
      simp

/-- With an anchor the word starts with the first part. -/
theorem findParts_anchored (value part : List Char) (parts : List (List Char)) :
    (findParts value true 0 0 (part :: parts)).isSome ↔
      ∃ rest, value = part ++ rest ∧ (scan parts rest).isSome := by
  unfold findParts
  rw [drop_zero]
  constructor
  · intro h
    cases hfind : find part value with
    | none => simp [hfind] at h
    | some found =>
      simp only [hfind] at h
      split at h
      · simp at h
      · next h0 =>
        obtain ⟨u, w, rfl, hu⟩ := find_some hfind
        obtain rfl : found = 0 := by simpa using h0
        obtain rfl := length_eq_zero_iff.1 hu
        simpa [findParts_succ] using h
  · rintro ⟨rest, rfl, h⟩
    obtain ⟨i, hi, hfind⟩ := find_of_occurs [] part rest
    obtain rfl : i = 0 := by simpa using hi
    rw [nil_append] at hfind
    simp only [hfind, findParts_succ]
    simpa using h

/-! ## What the search decides -/

/-- With an anchor the word ends with the last part. -/
theorem tail_mem_iff {parts : List (List Char)} {rest value : List Char} (anchored : Bool)
    (hsuffix : rest <:+ value) (hne : anchored = true → parts ≠ []) :
    ((scan parts rest).isSome ∧ ∀ last, anchored = true → parts.getLast? = some last →
        last <:+ value) ↔
      rest ∈ scattered parts * if anchored then 1 else ⊤ := by
  cases anchored with
  | false => simp [scan_isSome_iff]
  | true =>
    obtain ⟨init, last, rfl⟩ := (eq_nil_or_concat' parts).resolve_left (hne rfl)
    rw [if_pos rfl, mul_one, ← scan_isSome_and_suffix_iff]
    refine and_congr_right fun hsome => ?_
    simp only [forall_const, getLast?_concat, Option.some.injEq, forall_eq']
    refine ⟨fun hlast => ?_, fun hlast => hlast.trans hsuffix⟩
    -- the last part fits into what is left after the first one
    exact suffix_of_suffix_length_le hlast hsuffix (length_le_of_scan hsome)

theorem found_and_ends_iff (found : Option Nat) (anchored : Bool) (last? : Option (List Char))
    (value : List Char) : (match found with
      | none => false
      | some _ =>
        match anchored, last? with
        | true, some last => decide (last <:+ value)
        | _, _ => true) = true ↔
      found.isSome ∧ ∀ last, anchored = true → last? = some last → last <:+ value := by
  cases found <;> cases anchored <;> cases last? <;> simp

theorem wildcardMatches_of_not_mem {value pattern : List Char} (hfree : '*' ∉ pattern) :
    wildcardMatches value pattern = true ↔ value = pattern := by
  unfold wildcardMatches
  split
  · next hstar =>
    subst hstar
    simp at hfree
  · exact decide_eq_true_iff

theorem wildcardMatches_of_mem {value pattern : List Char} (hstar : '*' ∈ pattern) :
    wildcardMatches value pattern = true ↔ value ∈ globLanguage '*' pattern := by
  unfold wildcardMatches
  split
  · next hone =>
    subst hone
    simp [globLanguage_cons]
  obtain ⟨first, rest, hsplit⟩ := exists_cons_of_ne_nil (splitOn_ne_nil '*' pattern)
  have hrest := rest_ne_nil_of_mem hstar hsplit
  have hfirst := first_eq_nil_iff (ne_nil_of_mem hstar) hsplit
  have hlast := last_eq_nil_iff hrest hsplit
  -- where the pattern does not end with a wildcard its last piece is one of the parts
  have hkept : pattern.getLast? ≠ some '*' → rest.filter (!·.isEmpty) ≠ [] := by
    intro hend hnil
    have hmem := getLast_mem hrest
    rw [filter_eq_nil_iff] at hnil
    exact hend (hlast.1 (by simpa using hnil _ hmem))
  have hend : (if rest.getLast hrest = [] then (⊤ : Language Char) else 1) =
      if decide (pattern.getLast? ≠ some '*') = true then 1 else ⊤ := by
    by_cases h : pattern.getLast? = some '*'
    · rw [if_pos (hlast.2 h), if_neg (by simpa using h)]
    · rw [if_neg fun hc => h (hlast.1 hc), if_pos (by simpa using h)]
  rw [globLanguage_eq_of_splitOn hsplit, scattered_eq_filter hrest, hsplit, hend]
  dsimp only
  by_cases hempty : first = []
  · subst hempty
    rw [singleton_nil, one_mul]
    split
    · next hnone =>
      have hnil : rest.filter (!·.isEmpty) = [] := isEmpty_iff.1 hnone
      have hstop : pattern.getLast? = some '*' := by_contra fun hc => hkept hc hnil
      simp [hnil, hstop]
    · have hstart : decide (pattern.head? ≠ some '*') = false := by simpa using hfirst.1 rfl
      rw [hstart, findParts_floating, found_and_ends_iff]
      exact tail_mem_iff _ (suffix_refl _) fun h => hkept (by simpa using h)
  · have hparts : (first :: rest).filter (!·.isEmpty) = first :: rest.filter (!·.isEmpty) :=
      filter_cons_of_pos (by simpa using hempty)
    have hstart : decide (pattern.head? ≠ some '*') = true := by
      simpa using fun h => hempty (hfirst.2 h)
    have hlast? : decide (pattern.getLast? ≠ some '*') = true →
        (first :: rest.filter (!·.isEmpty)).getLast? = (rest.filter (!·.isEmpty)).getLast? := by
      intro h
      obtain ⟨part, parts, heq⟩ := exists_cons_of_ne_nil (hkept (by simpa using h))
      rw [heq, getLast?_cons_cons]
    have htail := fun r => tail_mem_iff (decide (pattern.getLast? ≠ some '*'))
      (suffix_append first r) fun h => hkept (by simpa using h)
    rw [hparts, if_neg (by simp), hstart, found_and_ends_iff, findParts_anchored]
    constructor
    · rintro ⟨⟨r, rfl, hscan⟩, hends⟩
      exact ⟨first, rfl, r,
        (htail r).1 ⟨hscan, fun last ha hl => hends last ha ((hlast? ha).trans hl)⟩, rfl⟩
    · rintro ⟨_, rfl, r, hr, rfl⟩
      obtain ⟨hscan, hends⟩ := (htail r).2 hr
      exact ⟨⟨r, rfl, hscan⟩, fun last ha hl => hends last ha ((hlast? ha).symm.trans hl)⟩

/-- **Wildcard matching is exact**: a name matches a pattern when it is a word of its language,
where `*` stands for any string, even empty, and every other character for itself. -/
theorem wildcardMatches_iff (value pattern : List Char) :
    wildcardMatches value pattern = true ↔ value ∈ globLanguage '*' pattern := by
  by_cases hstar : '*' ∈ pattern
  · exact wildcardMatches_of_mem hstar
  · rw [wildcardMatches_of_not_mem hstar, globLanguage_of_not_mem hstar]
    exact .rfl

end Haltchain.McpGuard

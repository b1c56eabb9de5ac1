import Mathlib.Computability.Language

/-! # Patterns with a wildcard

The language of a pattern in which one symbol stands for any word. Split at the wildcard, a pattern
is a first piece followed by pieces in order and apart. Looking for each at its leftmost place finds
them if they can be placed at all. -/

namespace Haltchain.Lib

open Language List Option

variable {α : Type*}

/-! ## Leftmost occurrence -/

variable {v : List α}

section

variable [DecidableEq α]

/-- The first place in a word where `part` occurs. -/
def find (part : List α) : List α → Option Nat
  | [] => if part <+: [] then some 0 else none
  | a :: v => if part <+: a :: v then some 0 else (find part v).map (· + 1)

theorem find_some {part : List α} {i : Nat} (h : find part v = some i) :
    ∃ u w, v = u ++ part ++ w ∧ u.length = i := by
  induction v generalizing i with
  | nil =>
    unfold find at h
    split at h
    · next hp =>
      obtain ⟨w, hw⟩ := hp
      exact ⟨[], w, by simpa using hw.symm, some.inj h⟩
    · cases h
  | cons a v ih =>
    unfold find at h
    split at h
    · next hp =>
      obtain ⟨w, hw⟩ := hp
      exact ⟨[], w, by simpa using hw.symm, some.inj h⟩
    · obtain ⟨j, hj, rfl⟩ := map_eq_some_iff.1 h
      obtain ⟨u, w, rfl, hu⟩ := ih hj
      exact ⟨a :: u, w, rfl, by simp [hu]⟩

/-- What occurs somewhere is found there or before. -/
theorem find_of_occurs (u part w : List α) :
    ∃ i ≤ u.length, find part (u ++ part ++ w) = some i := by
  induction u with
  | nil =>
    refine ⟨0, le_rfl, ?_⟩
    have hp : part <+: [] ++ part ++ w := ⟨w, by simp⟩
    generalize [] ++ part ++ w = v at hp
    cases v with
    | nil | cons a v => exact if_pos hp
  | cons a u ih =>
    obtain ⟨i, hi, hfind⟩ := ih
    show ∃ i ≤ u.length + 1, find part (a :: (u ++ part ++ w)) = some i
    unfold find
    split
    · exact ⟨0, Nat.zero_le _, rfl⟩
    · exact ⟨i + 1, by omega, by rw [hfind]; rfl⟩

end

/-! ## Parts placed apart from each other -/

/-- The words in which the parts stand in order, each after a gap, up to the last one's end. -/
def scattered (parts : List (List α)) : Language α :=
  (parts.map fun part => (⊤ : Language α) * {part}).prod

@[simp] theorem mem_top (v : List α) : v ∈ (⊤ : Language α) := trivial

@[simp] theorem mem_singleton_iff {w : List α} : v ∈ ({w} : Language α) ↔ v = w := .rfl

@[simp] theorem scattered_nil : scattered ([] : List (List α)) = 1 := rfl

@[simp] theorem scattered_cons (part : List α) (parts : List (List α)) :
    scattered (part :: parts) = ⊤ * {part} * scattered parts := prod_cons

theorem scattered_append (ps qs : List (List α)) :
    scattered (ps ++ qs) = scattered ps * scattered qs := by
  unfold scattered
  rw [map_append, prod_append]

variable {parts : List (List α)}

theorem mem_scattered_cons {part : List α} :
    v ∈ scattered (part :: parts) ↔ ∃ u w, v = u ++ part ++ w ∧ w ∈ scattered parts := by
  simp only [scattered_cons, mem_mul, mem_top, true_and]
  constructor
  · rintro ⟨_, ⟨u, _, rfl, rfl⟩, w, hw, rfl⟩
    exact ⟨u, w, rfl, hw⟩
  · rintro ⟨u, w, rfl, hw⟩
    exact ⟨_, ⟨u, part, rfl, rfl⟩, w, hw, rfl⟩

theorem mem_scattered_concat {last : List α} :
    v ∈ scattered (parts ++ [last]) ↔ ∃ w ∈ scattered parts, ∃ u, v = w ++ (u ++ last) := by
  rw [scattered_append, mem_mul]
  simp only [mem_scattered_cons]
  constructor
  · rintro ⟨w, hw, _, ⟨u, _, rfl, rfl⟩, rfl⟩
    exact ⟨w, hw, u, by simp⟩
  · rintro ⟨w, hw, u, rfl⟩
    exact ⟨w, hw, u ++ last, ⟨u, [], by simp, rfl⟩, rfl⟩

/-- A gap in front can be left out of sight. -/
theorem exists_prefix_mem_scattered (z : List α) {w : List α} (h : w ∈ scattered parts) :
    ∃ w', w' <+: z ++ w ∧ w' ∈ scattered parts := by
  cases parts with
  | nil =>
    exact ⟨[], nil_prefix, rfl⟩
  | cons part parts =>
    obtain ⟨u, y, rfl, hy⟩ := mem_scattered_cons.1 h
    exact ⟨z ++ (u ++ part ++ y), prefix_refl _, mem_scattered_cons.2 ⟨z ++ u, y, by simp, hy⟩⟩

theorem top_mul_top : (⊤ : Language α) * ⊤ = ⊤ := by
  ext v
  simp only [mem_top, iff_true]
  exact mem_mul.2 ⟨[], trivial, v, trivial, rfl⟩

theorem singleton_nil : ({[]} : Language α) = 1 := rfl

/-- Empty parts make no difference, except a last one: then anything may follow. -/
theorem scattered_eq_filter (hne : parts ≠ []) :
    scattered parts = scattered (parts.filter (!·.isEmpty)) *
      if parts.getLast hne = [] then ⊤ else 1 := by
  induction parts with
  | nil => exact absurd rfl hne
  | cons part parts ih =>
    cases parts with
    | nil => cases part <;> simp [singleton_nil]
    | cons next parts =>
      rw [scattered_cons, getLast_cons (cons_ne_nil _ _)]
      cases part with
      | nil =>
        have hgap : ⊤ * scattered (next :: parts) = scattered (next :: parts) := by
          rw [scattered_cons, ← mul_assoc, ← mul_assoc, top_mul_top]
        rw [singleton_nil, mul_one, hgap, ih (cons_ne_nil _ _)]
        rfl
      | cons a part =>
        rw [ih (cons_ne_nil _ _), ← mul_assoc]
        rfl

/-! ## The greedy scan -/

section

variable [DecidableEq α]

/-- Each part at its leftmost place after the one before; how far the last reaches. -/
def scan : List (List α) → List α → Option Nat
  | [], _ => some 0
  | part :: parts, v =>
    match find part v with
    | none => none
    | some i => (scan parts (v.drop (i + part.length))).map (i + part.length + ·)

theorem scan_sound {n : Nat} (h : scan parts v = some n) :
    ∃ x y, v = x ++ y ∧ x.length = n ∧ x ∈ scattered parts := by
  induction parts generalizing v n with
  | nil => exact ⟨[], v, rfl, some.inj h, rfl⟩
  | cons part parts ih =>
    unfold scan at h
    cases hi : find part v with
    | none => simp [hi] at h
    | some i =>
      simp only [hi, map_eq_some_iff] at h
      obtain ⟨k, hk, rfl⟩ := h
      obtain ⟨u, w, rfl, rfl⟩ := find_some hi
      have hdrop : (u ++ part ++ w).drop (u.length + part.length) = w := by
        rw [← length_append, drop_left]
      rw [hdrop] at hk
      obtain ⟨x, y, rfl, rfl, hx⟩ := ih hk
      exact ⟨u ++ part ++ x, y, by simp, by simp [add_assoc], mem_scattered_cons.2 ⟨u, x, rfl, hx⟩⟩

/-- If the parts can be placed, the scan places them, and ends no later. -/
theorem scan_complete {x : List α} (y : List α) (h : x ∈ scattered parts) :
    ∃ n ≤ x.length, scan parts (x ++ y) = some n := by
  induction parts generalizing x y with
  | nil => exact ⟨0, Nat.zero_le _, rfl⟩
  | cons part parts ih =>
    obtain ⟨u, w, rfl, hw⟩ := mem_scattered_cons.1 h
    obtain ⟨i, hi, hfind⟩ := find_of_occurs u part (w ++ y)
    -- what the scan has still before it starts earlier than the rest of the placement
    have hrest : (u ++ part ++ (w ++ y)).drop (i + part.length)
        = (u ++ part).drop (i + part.length) ++ w ++ y := by
      rw [drop_append_of_le_length (by simp; omega)]
      simp
    obtain ⟨w', ⟨z, hz⟩, hw'⟩ :=
      exists_prefix_mem_scattered ((u ++ part).drop (i + part.length)) hw
    obtain ⟨n, hn, hscan⟩ := ih (z ++ y) hw'
    have hlen := congrArg length hz
    simp only [length_append, length_drop] at hlen
    refine ⟨i + part.length + n, by simp only [length_append]; omega, ?_⟩
    rw [append_assoc]
    unfold scan
    rw [hfind]
    dsimp only
    rw [hrest, ← hz, append_assoc, hscan]
    rfl

/-- **The scan decides whether the parts can be placed**, with anything behind the last one. -/
theorem scan_isSome_iff : (scan parts v).isSome ↔ v ∈ scattered parts * ⊤ := by
  rw [isSome_iff_exists]
  constructor
  · rintro ⟨n, hn⟩
    obtain ⟨x, y, rfl, -, hx⟩ := scan_sound hn
    exact ⟨x, hx, y, trivial, rfl⟩
  · rintro ⟨x, hx, y, -, rfl⟩
    obtain ⟨n, -, hn⟩ := scan_complete y hx
    exact ⟨n, hn⟩

/-- The last part fits into a word in which the scan finds it. -/
theorem length_le_of_scan {last : List α} (h : (scan (parts ++ [last]) v).isSome) :
    last.length ≤ v.length := by
  obtain ⟨x, hx, y, -, rfl⟩ := mem_mul.1 (scan_isSome_iff.1 h)
  obtain ⟨w, -, u, rfl⟩ := mem_scattered_concat.1 hx
  simp only [length_append]
  omega

/-- **With nothing behind the last part** it is enough that the scan places the parts and that the
word ends with the last one, which then stands after its leftmost place. -/
theorem scan_isSome_and_suffix_iff {last : List α} :
    (scan (parts ++ [last]) v).isSome ∧ last <:+ v ↔ v ∈ scattered (parts ++ [last]) := by
  constructor
  · rintro ⟨hsome, z, rfl⟩
    obtain ⟨x, hx, y, -, hxy⟩ := mem_mul.1 (scan_isSome_iff.1 hsome)
    obtain ⟨w, hw, u, rfl⟩ := mem_scattered_concat.1 hx
    -- the word ends with the last part, no earlier than where it was placed
    have hpre : w <+: z := by
      have hlen := congrArg length hxy
      simp only [length_append] at hlen
      have hw : w <+: z ++ last := ⟨u ++ last ++ y, by rw [← hxy]; simp⟩
      exact prefix_of_prefix_length_le hw (prefix_append _ _) (by omega)
    obtain ⟨u', rfl⟩ := hpre
    exact mem_scattered_concat.2 ⟨w, hw, u', by simp⟩
  · intro hv
    refine ⟨scan_isSome_iff.2 (mem_mul.2 ⟨v, hv, [], trivial, by simp⟩), ?_⟩
    obtain ⟨w, -, u, rfl⟩ := mem_scattered_concat.1 hv
    exact ⟨w ++ u, by simp⟩

end

/-! ## The language of a pattern -/

section

variable [DecidableEq α] (star : α)

/-- `star` stands for any word, every other symbol for itself. -/
def globLanguage (pattern : List α) : Language α :=
  (pattern.map fun a => if a = star then (⊤ : Language α) else {[a]}).prod

variable {star}

@[simp] theorem globLanguage_nil : globLanguage star ([] : List α) = 1 := rfl

theorem globLanguage_cons (a : α) (pattern : List α) : globLanguage star (a :: pattern) =
      (if a = star then ⊤ else {[a]}) * globLanguage star pattern := prod_cons

variable {pattern : List α}

/-- Without a wildcard a pattern matches itself only. -/
theorem globLanguage_of_not_mem (h : star ∉ pattern) : globLanguage star pattern = {pattern} := by
  induction pattern with
  | nil => rfl
  | cons a pattern ih =>
    obtain ⟨hne, hrest⟩ : star ≠ a ∧ star ∉ pattern := by simpa using h
    rw [globLanguage_cons, if_neg (Ne.symm hne), ih hrest]
    ext v
    simp [mem_mul, eq_comm]

theorem splitOn_cons_eq (a : α) (pattern : List α) : (a :: pattern).splitOn star =
      if a = star then [] :: pattern.splitOn star
      else (pattern.splitOn star).modifyHead (a :: ·) := by
  unfold splitOn
  rw [splitOnP_cons_eq_if_modifyHead]
  simp only [beq_iff_eq]

variable {first : List α} {rest : List (List α)}

/-- **A pattern split at the wildcard**: its first piece, then the other pieces anywhere. -/
theorem globLanguage_eq_of_splitOn (h : pattern.splitOn star = first :: rest) :
    globLanguage star pattern = {first} * scattered rest := by
  induction pattern generalizing first rest with
  | nil =>
    obtain ⟨rfl, rfl⟩ : [] = first ∧ [] = rest := by simpa using h
    rw [scattered_nil, mul_one]
    rfl
  | cons a pattern ih =>
    rw [splitOn_cons_eq] at h
    obtain ⟨p, ps, hps⟩ := exists_cons_of_ne_nil (splitOn_ne_nil star pattern)
    rw [hps] at h
    rw [globLanguage_cons, ih hps]
    by_cases ha : a = star
    · rw [if_pos ha] at h
      obtain ⟨rfl, rfl⟩ := cons.inj h
      rw [if_pos ha, scattered_cons, singleton_nil, one_mul, mul_assoc]
    rw [if_neg ha] at h
    obtain ⟨rfl, rfl⟩ := cons.inj h
    rw [if_neg ha, ← mul_assoc]
    congr 1
    ext v
    simp [mem_mul, eq_comm]

/-! ### Where a pattern has its wildcards -/

theorem rest_ne_nil_of_mem (hmem : star ∈ pattern) (h : pattern.splitOn star = first :: rest) :
    rest ≠ [] := by
  obtain ⟨s, t, rfl⟩ := append_of_mem hmem
  unfold splitOn at h
  rw [splitOnP_append_cons _ _ (by simp)] at h
  rintro rfl
  have hlen := congrArg length h
  have hs := length_pos_of_ne_nil (splitOnP_ne_nil (fun x => x == star) s)
  have ht := length_pos_of_ne_nil (splitOnP_ne_nil (fun x => x == star) t)
  simp only [length_append, length_singleton] at hlen
  omega

/-- The first piece is empty when the pattern starts with the wildcard. -/
theorem first_eq_nil_iff (hne : pattern ≠ []) (h : pattern.splitOn star = first :: rest) :
    first = [] ↔ pattern.head? = some star := by
  cases pattern with
  | nil => exact absurd rfl hne
  | cons a pattern =>
    rw [splitOn_cons_eq] at h
    by_cases ha : a = star
    · rw [if_pos ha] at h
      simp [← (cons.inj h).1, ha]
    · rw [if_neg ha] at h
      obtain ⟨p, ps, hps⟩ := exists_cons_of_ne_nil (splitOn_ne_nil star pattern)
      rw [hps] at h
      simp [← (cons.inj h).1, ha]

/-- The last piece is empty when the pattern ends with the wildcard. -/
theorem last_eq_nil_iff (hne : rest ≠ []) (h : pattern.splitOn star = first :: rest) :
    rest.getLast hne = [] ↔ pattern.getLast? = some star := by
  induction pattern generalizing first rest with
  | nil => simp [hne] at h
  | cons a pattern ih =>
    obtain ⟨p, ps, hps⟩ := exists_cons_of_ne_nil (splitOn_ne_nil star pattern)
    rw [splitOn_cons_eq, hps] at h
    have hlast : pattern ≠ [] → (a :: pattern).getLast? = pattern.getLast? := fun hp => by
      obtain ⟨b, l, rfl⟩ := exists_cons_of_ne_nil hp
      exact getLast?_cons_cons
    by_cases hnil : ps = []
    · -- there is no wildcard in the rest of the pattern
      have hfree : star ∉ pattern := fun hmem => rest_ne_nil_of_mem hmem hps hnil
      by_cases ha : a = star
      · rw [if_pos ha, hnil] at h
        obtain ⟨-, rfl⟩ := cons.inj h
        rw [getLast_singleton]
        by_cases hp : pattern = []
        · subst hp
          obtain ⟨rfl, -⟩ : [] = p ∧ [] = ps := by simpa using hps
          simp [ha]
        · rw [first_eq_nil_iff hp hps, hlast hp]
          exact iff_of_false (fun hh => hfree (mem_of_mem_head? hh))
            fun hl => hfree (mem_of_mem_getLast? hl)
      · rw [if_neg ha, hnil] at h
        exact absurd (cons.inj h).2.symm hne
    · have hp : pattern ≠ [] := by
        rintro rfl
        simp [Ne.symm hnil] at hps
      rw [hlast hp, ← ih hnil hps]
      by_cases ha : a = star
      · rw [if_pos ha] at h
        obtain ⟨-, rfl⟩ := cons.inj h
        rw [getLast_cons hnil]
      · rw [if_neg ha] at h
        obtain ⟨-, rfl⟩ := cons.inj h
        rfl

/-! ## Wildcards at an end only -/

theorem globLanguage_append (pattern pattern' : List α) : globLanguage star (pattern ++ pattern') =
      globLanguage star pattern * globLanguage star pattern' := by
  unfold globLanguage
  rw [map_append, prod_append]

/-- Every wildcard may stand for nothing. -/
theorem filter_mem_globLanguage (pattern : List α) :
    pattern.filter (· ≠ star) ∈ globLanguage star pattern := by
  induction pattern with
  | nil => rfl
  | cons a pattern ih =>
    rw [globLanguage_cons]
    by_cases ha : a = star
    · rw [if_pos ha, filter_cons_of_neg (by simpa using ha)]
      exact mem_mul.2 ⟨[], trivial, _, ih, rfl⟩
    · rw [if_neg ha, filter_cons_of_pos (by simpa using ha)]
      exact mem_mul.2 ⟨[a], rfl, _, ih, rfl⟩

variable (star)

/-- Only the last symbol, or else the first one, is read as a wildcard. -/
def edgeLanguage (pattern : List α) : Language α :=
  if pattern.getLast? = some star then {pattern.dropLast} * ⊤
  else if pattern.head? = some star then ⊤ * {pattern.tail}
  else {pattern}

/-- One of the ends is the wildcard. -/
def AtEdge (pattern : List α) : Prop :=
  pattern.head? = some star ∨ pattern.getLast? = some star

instance (pattern : List α) : Decidable (AtEdge star pattern) :=
  inferInstanceAs (Decidable (_ ∨ _))

variable {star}

/-- A wildcard may stand for itself. -/
theorem mem_edgeLanguage_self (pattern : List α) : pattern ∈ edgeLanguage star pattern := by
  unfold edgeLanguage
  split
  · next hlast =>
    obtain ⟨front, rfl⟩ := getLast?_eq_some_iff.1 hlast
    rw [dropLast_concat]
    exact mem_mul.2 ⟨front, rfl, [star], trivial, rfl⟩
  split
  · next hhead =>
    obtain ⟨rest, rfl⟩ := head?_eq_some_iff.1 hhead
    exact mem_mul.2 ⟨[star], trivial, rest, rfl, rfl⟩
  · rfl

/-- All symbols but one are found in the word. -/
theorem length_le_of_mem_edgeLanguage (h : v ∈ edgeLanguage star pattern) :
    pattern.length ≤ v.length + if AtEdge star pattern then 1 else 0 := by
  unfold edgeLanguage at h
  split at h
  · next hlast =>
    obtain ⟨u, hu, w, -, rfl⟩ := mem_mul.1 h
    obtain rfl : u = pattern.dropLast := hu
    rw [if_pos (.inr hlast), length_append, length_dropLast]
    omega
  split at h
  · next hhead =>
    obtain ⟨u, -, w, hw, rfl⟩ := mem_mul.1 h
    obtain rfl : w = pattern.tail := hw
    rw [if_pos (.inl hhead), length_append, length_tail]
    omega
  · obtain rfl : v = pattern := h
    omega

/-- With no wildcard, or a single one at an end, the two readings agree. -/
theorem edgeLanguage_eq_globLanguage
    (h : pattern.count star ≤ if AtEdge star pattern then 1 else 0) :
    edgeLanguage star pattern = globLanguage star pattern := by
  unfold edgeLanguage
  split
  · next hlast =>
    obtain ⟨front, rfl⟩ := getLast?_eq_some_iff.1 hlast
    have hfree : star ∉ front := by
      rw [if_pos (.inr hlast), count_append, count_singleton_self] at h
      exact count_eq_zero.1 (by omega)
    rw [dropLast_concat, globLanguage_append, globLanguage_of_not_mem hfree,
      globLanguage_cons, if_pos rfl, globLanguage_nil, mul_one]
  split
  · next hhead =>
    obtain ⟨rest, rfl⟩ := head?_eq_some_iff.1 hhead
    have hfree : star ∉ rest := by
      rw [if_pos (.inl hhead), count_cons_self] at h
      exact count_eq_zero.1 (by omega)
    rw [tail_cons, globLanguage_cons, if_pos rfl, globLanguage_of_not_mem hfree]
  · next hlast hhead =>
    have hedge : ¬AtEdge star pattern := not_or.2 ⟨hhead, hlast⟩
    rw [if_neg hedge] at h
    rw [globLanguage_of_not_mem (count_eq_zero.1 (Nat.le_zero.1 h))]

end

end Haltchain.Lib

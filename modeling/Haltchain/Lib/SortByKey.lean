import Mathlib.Data.List.NodupEquivFin

/-! # Sorting by a key

What it means to be among the first of a list sorted by a key; and elements have their keys close
together exactly if as many neighbours in the sorted list have. -/

namespace Haltchain.Lib

open List

variable {α κ : Type*} [LinearOrder κ] (key : α → κ) (l : List α)

theorem pairwise_sortByKey :
    (l.mergeSort fun a b => key a ≤ key b).Pairwise fun a b => key a ≤ key b := by
  refine (pairwise_mergeSort ?_ ?_ l).imp of_decide_eq_true
  · intro a b c hab hbc
    exact decide_eq_true ((of_decide_eq_true hab).trans (of_decide_eq_true hbc))
  · intro a b
    simpa using le_total (key a) (key b)

/-- The `n` elements with the smallest keys. -/
def smallest (n : Nat) : List α := (l.mergeSort fun a b => key a ≤ key b).take n

variable {key l} {n : Nat} {a b : α}

theorem mem_of_mem_smallest (h : a ∈ smallest key l n) : a ∈ l :=
  mem_mergeSort.1 (mem_of_mem_take h)

theorem key_le_of_mem_smallest (ha : a ∈ smallest key l n) (hb : b ∈ l)
    (hnot : b ∉ smallest key l n) : key a ≤ key b := by
  have hsorted := pairwise_sortByKey key l
  rw [← take_append_drop n (l.mergeSort _), pairwise_append] at hsorted
  have hmem : b ∈ l.mergeSort fun a b => key a ≤ key b := mem_mergeSort.2 hb
  rw [← take_append_drop n (l.mergeSort _)] at hmem
  exact hsorted.2.2 a ha b ((mem_append.1 hmem).resolve_left hnot)

theorem length_smallest : (smallest key l n).length = min n l.length := by
  rw [smallest, length_take, length_mergeSort]

/-! ## Keys close together -/

theorem key_le_of_getElem? {l : List α} (hsorted : l.Pairwise fun a b => key a ≤ key b) {i j : Nat}
    (hij : i ≤ j) {x y : α} (hx : l[i]? = some x) (hy : l[j]? = some y) : key x ≤ key y := by
  obtain ⟨hi, rfl⟩ := List.getElem?_eq_some_iff.1 hx
  obtain ⟨hj, rfl⟩ := List.getElem?_eq_some_iff.1 hy
  rcases hij.eq_or_lt with rfl | hlt
  · exact le_refl _
  · exact pairwise_iff_getElem.1 hsorted i j hi hj hlt

/-- A choice from a sorted list reaches as far as the neighbours of its first element. -/
theorem exists_neighbours_of_sublist {l hits : List α} {k : Nat}
    (hsorted : l.Pairwise fun a b => key a ≤ key b) (hsub : hits.Sublist l)
    (hlength : hits.length = k + 1) :
    ∃ i, ∃ x ∈ hits, ∃ y, ∃ last ∈ hits, l[i]? = some x ∧ l[i + k]? = some y ∧
      key y ≤ key last := by
  obtain ⟨f, hf⟩ := sublist_iff_exists_orderEmbedding_getElem?_eq.1 hsub
  obtain ⟨x, hx⟩ : ∃ x, hits[0]? = some x := ⟨_, getElem?_eq_getElem (by omega)⟩
  obtain ⟨last, hlast⟩ : ∃ last, hits[k]? = some last := ⟨_, getElem?_eq_getElem (by omega)⟩
  have hx' := (hf 0).symm.trans hx
  have hlast' := (hf k).symm.trans hlast
  -- the places of the choice are at least as far apart as in the choice itself
  have hfar : f 0 + k ≤ f k := by
    have := f.strictMono.add_le_nat k 0
    rwa [Nat.add_comm] at this
  have hlt : f 0 + k < l.length := hfar.trans_lt (List.getElem?_eq_some_iff.1 hlast').1
  obtain ⟨y, hy⟩ : ∃ y, l[f 0 + k]? = some y := ⟨_, getElem?_eq_getElem hlt⟩
  exact ⟨f 0, x, mem_of_getElem? hx, y, last, mem_of_getElem? hlast, hx', hy,
    key_le_of_getElem? hsorted hfar hy hlast'⟩

/-- **Keys close together.** Some `k + 1` elements have keys in an interval of length `w` exactly if
`k + 1` neighbours in the sorted list do. -/
theorem exists_close_iff {time : α → Nat} {l sorted : List α} (hperm : sorted.Perm l)
    (hsorted : sorted.Pairwise fun a b => time a ≤ time b) (k w : Nat) :
    (∃ hits : List α, hits.Subperm l ∧ hits.length = k + 1 ∧
        ∃ a, ∀ x ∈ hits, a ≤ time x ∧ time x ≤ a + w) ↔
      ∃ i x y, sorted[i]? = some x ∧ sorted[i + k]? = some y ∧ time y ≤ time x + w := by
  constructor
  · rintro ⟨hits, hsub, hlength, a, hclose⟩
    obtain ⟨hits', hperm', hsub'⟩ := (hperm.subperm_left.2 hsub : hits.Subperm sorted)
    obtain ⟨i, x, hx, y, last, hlast, hi, hik, hle⟩ := exists_neighbours_of_sublist hsorted hsub'
      (hperm'.length_eq.trans hlength)
    have hx := hclose x (hperm'.mem_iff.1 hx)
    have hlast := hclose last (hperm'.mem_iff.1 hlast)
    exact ⟨i, x, y, hi, hik, by omega⟩
  · rintro ⟨i, x, y, hi, hik, hle⟩
    refine ⟨(sorted.drop i).take (k + 1), ?_, ?_, time x, ?_⟩
    · exact ((take_sublist _ _).trans (drop_sublist i sorted)).subperm.trans hperm.subperm
    · have hlt := (List.getElem?_eq_some_iff.1 hik).1
      rw [length_take, length_drop]
      omega
    · intro z hz
      obtain ⟨j, hj, hz⟩ := mem_iff_getElem.1 hz
      rw [length_take] at hj
      rw [getElem_take, getElem_drop] at hz
      have hz' : sorted[i + j]? = some z := by
        rw [getElem?_eq_some_iff]
        exact ⟨_, hz⟩
      have hfrom := key_le_of_getElem? hsorted (Nat.le_add_right i j) hi hz'
      have hto := key_le_of_getElem? hsorted (show i + j ≤ i + k by omega) hz' hik
      exact ⟨hfrom, hto.trans hle⟩

end Haltchain.Lib

import Mathlib.Tactic.Positivity

/-! # Statistical process control

`spc.rs` of the analytics crate: histograms over given edges, and the population stability index of
two of them. Floats are numbers of an ordered field; the logarithm is any function.

A sample beyond the last edge falls into the first bin, and the index leaves out bins that are empty
on one side. -/

namespace Haltchain.Analytics

open List

variable {K : Type} [LinearOrder K]

/-! ## Histograms -/

/-- The shares of the bins, and their edges. -/
structure Distribution (K : Type) where
  bins : List K
  binEdges : List K

/-- The bin of a sample: the first one if no edge is found. -/
def binIdx (binEdges : List K) (sample : K) : Nat :=
  min ((binEdges.tail.findIdx? fun edge => sample ≤ edge).getD 0) (binEdges.length - 1 - 1)

section

variable {edges : List K} {e₀ e₁ x y : K} {rest : List K}

/-- Up to the last edge the search is monotone. -/
theorem binIdx_mono (hle : x ≤ y) {edge : K} (hmem : edge ∈ edges.tail) (hy : y ≤ edge) :
    binIdx edges x ≤ binIdx edges y := by
  refine min_le_min_right _ ?_
  cases hidx : edges.tail.findIdx? fun edge => y ≤ edge with
  | none =>
    rw [findIdx?_eq_none_iff] at hidx
    simpa [hy] using hidx edge hmem
  | some j =>
    obtain ⟨hj, hfound, -⟩ := findIdx?_eq_some_iff_getElem.1 hidx
    cases hidx' : edges.tail.findIdx? fun edge => x ≤ edge with
    | none => exact Nat.zero_le _
    | some i =>
      obtain ⟨hi, -, hfirst⟩ := findIdx?_eq_some_iff_getElem.1 hidx'
      refine not_lt.1 fun hlt => hfirst j hlt ?_
      exact decide_eq_true (hle.trans (of_decide_eq_true hfound))

theorem binIdx_of_lt (hx : ∀ edge ∈ edges.tail, edge < x) : binIdx edges x = 0 := by
  have hnone : (edges.tail.findIdx? fun edge => x ≤ edge) = none := by
    rw [findIdx?_eq_none_iff]
    exact fun edge hedge => decide_eq_false (not_le.2 (hx edge hedge))
  simp [binIdx, hnone]

/-- Between the second edge and the last one a sample is in a later bin. -/
theorem binIdx_pos (hfirst : e₁ < x) {edge : K} (hmem : edge ∈ e₁ :: rest) (hx : x ≤ edge) :
    0 < binIdx (e₀ :: e₁ :: rest) x := by
  unfold binIdx
  cases hidx : (e₀ :: e₁ :: rest).tail.findIdx? fun edge => x ≤ edge with
  | none =>
    rw [findIdx?_eq_none_iff] at hidx
    simpa [hx] using hidx edge hmem
  | some i =>
    obtain ⟨hi, hfound, -⟩ := findIdx?_eq_some_iff_getElem.1 hidx
    have hpos : i ≠ 0 := by
      rintro rfl
      exact not_le.2 hfirst (of_decide_eq_true hfound)
    simp only [tail_cons, length_cons] at hi
    simp only [Option.getD_some, length_cons]
    omega

end

section

variable [Field K]

/-- The bins before they are normalised. -/
def binCounts (samples binEdges : List K) : List K :=
  samples.foldl (fun bins sample => bins.modify (binIdx binEdges sample) (· + 1))
    (replicate (binEdges.length - 1) 0)

/-- Without samples or bins there is one share. -/
def Distribution.fromSamplesWithEdges (samples binEdges : List K) : Distribution K :=
  if binEdges.length - 1 = 0 ∨ samples = [] then ⟨[1], binEdges⟩
  else
    let bins := binCounts samples binEdges
    let total := bins.sum
    ⟨if 0 < total then bins.map (· / total) else bins, binEdges⟩

omit [LinearOrder K] in
theorem sum_modify {bins : List K} {i : Nat} (h : i < bins.length) :
    (bins.modify i (· + 1)).sum = bins.sum + 1 := by
  induction bins generalizing i with
  | nil => cases h
  | cons b bins ih =>
    cases i with
    | zero => simp [add_right_comm]
    | succ i =>
      have hrest := ih (Nat.lt_of_succ_lt_succ h)
      simp [hrest, add_assoc]

theorem sum_binCounts {binEdges : List K} (h : 2 ≤ binEdges.length) (samples : List K) :
    (binCounts samples binEdges).sum = samples.length := by
  suffices hfold : ∀ bins : List K, bins.length = binEdges.length - 1 →
      (samples.foldl (fun bins sample => bins.modify (binIdx binEdges sample) (· + 1)) bins).sum =
        bins.sum + samples.length by
    have hcounts := hfold (replicate _ 0) length_replicate
    rwa [sum_replicate, nsmul_zero, zero_add] at hcounts
  induction samples with
  | nil => simp
  | cons sample samples ih =>
    intro bins hlength
    have hidx : binIdx binEdges sample < bins.length := by
      unfold binIdx
      omega
    rw [foldl_cons, ih _ (by simpa using hlength), sum_modify hidx]
    rw [length_cons, Nat.cast_succ, add_assoc, add_comm 1]

/-- **How samples fall into bins.** For nondecreasing edges, the smaller of two samples is in no
later bin exactly if the other is not beyond the last edge, or the smaller one is in the first bin
or beyond the last edge too. Each sample is in one bin. -/
theorem binIdx_le_iff (e₀ e₁ : K) (rest : List K) (hsorted : (e₀ :: e₁ :: rest).Pairwise (· ≤ ·))
    (samples : List K) :
    let edges := e₀ :: e₁ :: rest
    let last := edges.getLast (cons_ne_nil _ _)
    (∀ x y, x ≤ y → (binIdx edges x ≤ binIdx edges y ↔ y ≤ last ∨ x ≤ e₁ ∨ last < x)) ∧
    (binCounts samples edges).sum = samples.length := by
  intro edges last
  have hlast : last ∈ e₁ :: rest := getLast_mem _
  have hle : ∀ edge ∈ edges.tail, edge ≤ last := fun edge hedge =>
    hsorted.rel_getLast (mem_cons_of_mem _ hedge)
  refine ⟨fun x y hxy => ?_, sum_binCounts (by simp [edges]) samples⟩
  by_cases hy : y ≤ last
  · exact iff_of_true (binIdx_mono hxy hlast hy) (.inl hy)
  -- the other sample is put into the first bin
  have hzero : binIdx edges y = 0 :=
    binIdx_of_lt fun edge hedge => lt_of_le_of_lt (hle edge hedge) (not_le.1 hy)
  rw [hzero, Nat.le_zero, or_iff_right hy]
  constructor
  · intro hx
    by_contra hnot
    simp only [not_or, not_le, not_lt] at hnot
    exact (binIdx_pos hnot.1 hlast hnot.2).ne' hx
  · rintro (hx | hx)
    · simp [edges, binIdx, findIdx?_cons, hx]
    · exact binIdx_of_lt fun edge hedge => lt_of_le_of_lt (hle edge hedge) hx

/-- Edges with one repeated, and a sample beyond them. -/
theorem repeated_edge_binned :
    binIdx [0, 1, 1, (2 : Rat)] (1 / 2) ≤ binIdx [0, 1, 1, (2 : Rat)] (3 / 2) ∧
      (binCounts [1 / 2, 3 / 2, 3] [0, 1, 1, (2 : Rat)]).sum = 3 := by
  obtain ⟨hle, hsum⟩ := binIdx_le_iff (0 : Rat) 1 [1, 2] (by decide +kernel) [1 / 2, 3 / 2, 3]
  exact ⟨(hle (1 / 2) (3 / 2) (by decide +kernel)).2 (.inl (by decide +kernel)), hsum⟩

/-- Beyond the last edge a sample is in the first bin, before smaller ones. -/
theorem beyond_last_edge_first_bin :
    (3 / 2 : Rat) ≤ 3 ∧ binIdx [0, 1, 2] (3 / 2 : Rat) = 1 ∧ binIdx [0, 1, 2] (3 : Rat) = 0 ∧
      (Distribution.fromSamplesWithEdges [3 / 2, 3] [0, 1, (2 : Rat)]).bins = [1 / 2, 1 / 2] := by
  decide +kernel

end

/-! ## The population stability index -/

/-- How far two distributions are apart. -/
inductive Stability where
  | stable
  | investigate
  | actionRequired
deriving DecidableEq

/-- The index with its reading. -/
structure PsiResult (K : Type) where
  psi : K
  stability : Stability
  driftDetected : Bool

/-- The monitor with its threshold. -/
structure SpcMonitor (K : Type) where
  psiThreshold : K

section

variable [Field K]

/-- The index against its threshold. -/
def SpcMonitor.interpretPsi (monitor : SpcMonitor K) (psi : K) : Stability :=
  if psi < monitor.psiThreshold * (2 / 5) then .stable
  else if psi < monitor.psiThreshold then .investigate
  else .actionRequired

/-- What a bin adds to the index. -/
def contribution (log : K → K) (curr exp : K) : K :=
  let expSafe := max exp (1 / 10 ^ 10)
  let currSafe := max curr (1 / 10 ^ 10)
  if 0 < exp ∧ 0 < curr then (currSafe - expSafe) * log (currSafe / expSafe) else 0

/-- The index over the common bins. -/
def SpcMonitor.calculatePsi (log : K → K) (monitor : SpcMonitor K)
    (current expected : Distribution K) : PsiResult K :=
  let psi := |(zipWith (contribution log) current.bins expected.bins).sum|
  let stability := monitor.interpretPsi psi
  ⟨psi, stability, stability ≠ .stable⟩

theorem interpretPsi_eq_stable_iff (monitor : SpcMonitor K) (psi : K) :
    monitor.interpretPsi psi = .stable ↔ psi < monitor.psiThreshold * (2 / 5) := by
  unfold SpcMonitor.interpretPsi
  split_ifs with hlt <;> simp [hlt]

/-- **Distributions without a common bin.** The index is zero: no drift is detected unless the
threshold is not positive. -/
theorem psi_of_disjoint [IsStrictOrderedRing K] (log : K → K) (monitor : SpcMonitor K)
    (current expected : Distribution K)
    (h : ∀ p ∈ current.bins.zip expected.bins, ¬ (0 < p.1 ∧ 0 < p.2)) :
    let result := monitor.calculatePsi log current expected
    result.psi = 0 ∧ (result.driftDetected = true ↔ monitor.psiThreshold ≤ 0) := by
  intro result
  have hbins : ∀ c ∈ zipWith (contribution log) current.bins expected.bins, c = 0 := by
    intro c hc
    rw [← map_uncurry_zip_eq_zipWith] at hc
    obtain ⟨p, hp, rfl⟩ := mem_map.1 hc
    exact if_neg fun hboth => h p hp hboth.symm
  have hpsi : result.psi = 0 := by
    simp only [result, SpcMonitor.calculatePsi, sum_eq_zero hbins, abs_zero]
  have hdrift : result.driftDetected = decide (monitor.interpretPsi result.psi ≠ .stable) := rfl
  refine ⟨hpsi, ?_⟩
  have htwo : (0 : K) < 2 / 5 := by positivity
  rw [hdrift, hpsi, decide_eq_true_iff, Ne, interpretPsi_eq_stable_iff,
    mul_pos_iff_of_pos_right htwo, not_lt]

/-- All in the first of two bins, or all in the second. -/
def inFirst : Distribution Rat := ⟨[1, 0], [0, 1, 2]⟩

/-- All samples in the second bin. -/
def inSecond : Distribution Rat := ⟨[0, 1], [0, 1, 2]⟩

theorem psi_of_first_and_second :
    let result := SpcMonitor.calculatePsi (fun x => x - 1) ⟨1 / 4⟩ inFirst inSecond
    result.psi = 0 ∧ (result.driftDetected = true ↔ (1 / 4 : Rat) ≤ 0) :=
  psi_of_disjoint _ ⟨1 / 4⟩ inFirst inSecond (by decide +kernel)

/-- With a strictly increasing logarithm, they are stable. -/
theorem disjoint_reported_stable :
    let result := SpcMonitor.calculatePsi (fun x => x - 1) ⟨1 / 4⟩ inFirst inSecond
    StrictMono (fun x : Rat => x - 1) ∧ inFirst.bins.sum = 1 ∧ inSecond.bins.sum = 1 ∧
      result.stability = .stable ∧ result.driftDetected = false := by
  refine ⟨fun x y h => sub_lt_sub_right h 1, ?_⟩
  decide +kernel

end

end Haltchain.Analytics

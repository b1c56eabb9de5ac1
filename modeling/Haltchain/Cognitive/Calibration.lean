import Haltchain.Lib.Assoc
import Haltchain.Lib.SortByKey
import Mathlib.Tactic.Linarith

/-! # Percentiles of benign scores

`calibration.rs` of the cognitive crate: scores at a few percentiles are kept under ten times the
percentile as a `u8`, which is 255 for all of them. Floats are rationals. -/

namespace Haltchain.Cognitive

open List

/-- `f64::round`: a tie goes away from zero. -/
def round (q : Rat) : Int := if 0 ≤ q then (q + 1 / 2).floor else (q - 1 / 2).ceil

/-- An unsigned integer up to `max`, from a float without a fraction. -/
def saturate (max : Nat) (i : Int) : Nat := min i.toNat max

/-- The scores with their statistics. -/
structure ReferenceDistribution where
  scores : List Rat
  cachedPercentiles : AList fun _ : Nat => Rat
  mean : Rat
  stdDev : Rat

namespace ReferenceDistribution

/-- The score at a percentile. -/
def computePercentile (sortedScores : List Rat) (p : Rat) : Option Rat :=
  if sortedScores = [] then none
  else
    let idx := saturate (2 ^ 64 - 1) (round (p / 100 * (sortedScores.length - 1 : Nat)))
    sortedScores[min idx (sortedScores.length - 1)]?

/-- The scores in order. -/
def sorted (benignScores : List Rat) : List Rat := benignScores.insertionSort (· ≤ ·)

/-- The percentiles computed beforehand. -/
def commonPercentiles : List Rat := [50, 80, 90, 95, 99, 995 / 10, 999 / 10]

/-- The cast cuts off a fraction. -/
def cache (sortedScores : List Rat) : AList fun _ : Nat => Rat :=
  commonPercentiles.foldl (fun cached p =>
    match computePercentile sortedScores p with
    | some val => cached.insert (saturate 255 (p * 10).floor) val
    | none => cached) ∅

/-- The distribution of the scores. -/
def new (sqrt : Rat → Rat) (benignScores : List Rat) : ReferenceDistribution :=
  let sorted := sorted benignScores
  let m : Rat := if sorted = [] then 0 else sorted.sum / sorted.length
  let v : Rat := (sorted.map fun x => (x - m) ^ 2).sum / sorted.length
  ⟨sorted, cache sorted, m, if sorted = [] then 0 else sqrt v⟩

/-- The score kept, or computed. -/
def scoreAtPercentile (d : ReferenceDistribution) (p : Rat) : Option Rat :=
  match d.cachedPercentiles.lookup (saturate 255 (round (p * 10))) with
  | some val => some val
  | none => computePercentile d.scores p

/-! ## The table -/

variable {l : List Rat} {p q : Rat}

theorem exists_computePercentile (hne : l ≠ []) (p : Rat) :
    ∃ val, computePercentile l p = some val := by
  have hpos := length_pos_iff.2 hne
  unfold computePercentile
  rw [if_neg hne]
  exact ⟨_, getElem?_eq_getElem (by omega)⟩

/-- All percentiles of the table share one key; the last one is kept. -/
theorem lookup_cache (l : List Rat) (k : Nat) :
    (cache l).lookup k = if k = 255 then computePercentile l (999 / 10) else none := by
  by_cases hne : l = []
  · subst hne
    have hempty : cache [] = ∅ := rfl
    simp [hempty, computePercentile]
  choose val hval using exists_computePercentile hne
  have hkey : ∀ p ∈ commonPercentiles, saturate 255 (p * 10).floor = 255 := by decide +kernel
  simp only [commonPercentiles, forall_mem_cons] at hkey
  obtain ⟨h₁, h₂, h₃, h₄, h₅, h₆, h₇, -⟩ := hkey
  simp only [cache, commonPercentiles, foldl_cons, foldl_nil, hval, h₁, h₂, h₃, h₄, h₅,
    h₆, h₇, Lib.lookup_insert_eq]
  split <;> rfl

theorem key_eq_iff (hp : 0 ≤ p) : saturate 255 (round (p * 10)) = 255 ↔ 509 / 20 ≤ p := by
  have hfloor : (255 : Int) ≤ (p * 10 + 1 / 2).floor ↔ 509 / 20 ≤ p := by
    rw [Rat.le_floor_iff]
    constructor <;> intro h <;> linarith
  rw [round, if_pos (by positivity), saturate, ← hfloor]
  omega

theorem scoreAtPercentile_new (sqrt : Rat → Rat) (scores : List Rat) (hp : 0 ≤ p) :
    (new sqrt scores).scoreAtPercentile p =
      computePercentile (sorted scores) (if p < 509 / 20 then p else 999 / 10) := by
  have hlookup := lookup_cache (sorted scores) (saturate 255 (round (p * 10)))
  simp only [key_eq_iff hp, ← not_lt] at hlookup
  unfold scoreAtPercentile
  rw [show (new sqrt scores).cachedPercentiles = cache (sorted scores) from rfl, hlookup]
  split_ifs with hlt
  · rfl
  · by_cases hne : sorted scores = []
    · simp [new, hne, computePercentile]
    · obtain ⟨val, hval⟩ := exists_computePercentile hne (999 / 10)
      rw [hval]

/-! ## The order of the percentiles -/

theorem computePercentile_mono (hsorted : l.Pairwise (· ≤ ·)) (hp : 0 ≤ p) (hpq : p ≤ q) {a : Rat}
    (ha : computePercentile l p = some a) : ∃ b, computePercentile l q = some b ∧ a ≤ b := by
  have hne : l ≠ [] := by
    rintro rfl
    cases ha
  obtain ⟨b, hb⟩ := exists_computePercentile hne q
  refine ⟨b, hb, ?_⟩
  unfold computePercentile at ha hb
  rw [if_neg hne] at ha hb
  refine Lib.key_le_of_getElem? hsorted (min_le_min_right _ (min_le_min_right _ ?_)) ha hb
  have hle : p / 100 * (l.length - 1 : Nat) ≤ q / 100 * (l.length - 1 : Nat) := by gcongr
  have hpos : 0 ≤ p / 100 * (l.length - 1 : Nat) :=
    mul_nonneg (div_nonneg hp (by decide)) (Nat.cast_nonneg _)
  rw [round, round, if_pos hpos, if_pos (hpos.trans hle)]
  exact Int.toNat_le_toNat (Rat.floor_monotone (by linarith))

/-- **What the table is worth.** The score at a percentile is the computed one exactly for a
percentile below 25.45, or one with the same score as 99.9. It does not decrease with the
percentile. -/
theorem score_at_percentile_iff (sqrt : Rat → Rat) (scores : List Rat) (p : Rat) (hp : 0 ≤ p) :
    ((new sqrt scores).scoreAtPercentile p = computePercentile (sorted scores) p ↔
      p < 509 / 20 ∨
        computePercentile (sorted scores) p = computePercentile (sorted scores) (999 / 10)) ∧
    ∀ q, p ≤ q → ∀ a, (new sqrt scores).scoreAtPercentile p = some a →
      ∃ b, (new sqrt scores).scoreAtPercentile q = some b ∧ a ≤ b := by
  refine ⟨?_, fun q hpq a ha => ?_⟩
  · rw [scoreAtPercentile_new sqrt scores hp]
    split_ifs with hlt
    · simp [hlt]
    · simp [hlt, eq_comm]
  · rw [scoreAtPercentile_new sqrt scores hp] at ha
    rw [scoreAtPercentile_new sqrt scores (hp.trans hpq)]
    refine computePercentile_mono (pairwise_insertionSort _ scores) ?_ ?_ ha
    · split_ifs <;> linarith
    · split_ifs <;> linarith

/-- A low percentile, and two high ones. -/
theorem low_percentile_computed :
    let d := new (fun v => v) [3, 1, 2, 4, 5]
    d.scoreAtPercentile 25 = computePercentile (sorted [3, 1, 2, 4, 5]) 25 ∧
      ∃ b, d.scoreAtPercentile 90 = some b ∧ 2 ≤ b := by
  obtain ⟨hiff, hmono⟩ := score_at_percentile_iff (fun v => v) [3, 1, 2, 4, 5] 25 (by decide)
  exact ⟨hiff.2 (.inl (by decide +kernel)), hmono 90 (by decide) 2 (by decide +kernel)⟩

/-- The median of five scores, and what is said to be the median. -/
theorem median_from_table :
    computePercentile (sorted [1, 2, 3, 4, 5]) 50 = some 3 ∧
      (new (fun v => v) [1, 2, 3, 4, 5]).scoreAtPercentile 50 = some 5 := by
  decide +kernel

end ReferenceDistribution

end Haltchain.Cognitive

import Haltchain.Lib.SortByKey

/-! # Sustained alerts

`has_sustained_alerts` of `crates/ops/src/alerting.rs`: whether enough alerts fall into one window
of time. The source looks at every run of `min_hits` neighbours in the sorted list and at no other
choice of alerts. -/

namespace Haltchain.Ops

open Lib List

/-- `u64::saturating_sub`. -/
def saturatingSub (a b : UInt64) : UInt64 := if b ≤ a then a - b else 0

/-- Whether the neighbours from `i` on, which exist in the loop, fall into the window. -/
def sustainedFrom (sorted : List UInt64) (windowSecs : UInt64) (minHits i : Nat) : Bool :=
  match sorted[i]?, sorted[i + minHits - 1]? with
  | some start, some stop => saturatingSub stop start ≤ windowSecs
  | _, _ => false

def hasSustainedAlerts (alertTimestampsSecs : List UInt64) (windowSecs : UInt64) (minHits : Nat) :
    Bool :=
  if minHits = 0 then true
  else if alertTimestampsSecs.length < minHits then false
  else
    let sorted := alertTimestampsSecs.mergeSort fun a b => a.toNat ≤ b.toNat
    (range (sorted.length - minHits + 1)).any (sustainedFrom sorted windowSecs minHits)

theorem toNat_saturatingSub (a b : UInt64) : (saturatingSub a b).toNat = a.toNat - b.toNat := by
  unfold saturatingSub
  split
  · next h => exact UInt64.toNat_sub_of_le a b h
  · next h =>
    have hlt : a.toNat < b.toNat := UInt64.lt_iff_toNat_lt.1 (UInt64.not_le.1 h)
    rw [UInt64.toNat_zero]
    omega

theorem sustainedFrom_iff (sorted : List UInt64) (windowSecs : UInt64) (k i : Nat) :
    sustainedFrom sorted windowSecs (k + 1) i = true ↔
      ∃ start stop, sorted[i]? = some start ∧ sorted[i + k]? = some stop ∧
        stop.toNat ≤ start.toNat + windowSecs.toNat := by
  rw [sustainedFrom, Nat.add_succ_sub_one]
  cases sorted[i]? with
  | none => simp
  | some start =>
    cases sorted[i + k]? with
    | none => simp
    | some stop =>
      simp [UInt64.le_iff_toNat_le, toNat_saturatingSub, Nat.add_comm]

/-- The loop comes to every place with enough neighbours after it. -/
theorem any_sustainedFrom_iff {sorted : List UInt64} {k : Nat} (hlength : k + 1 ≤ sorted.length)
    (windowSecs : UInt64) :
    (range (sorted.length - (k + 1) + 1)).any (sustainedFrom sorted windowSecs (k + 1)) =
        true ↔
      ∃ i start stop, sorted[i]? = some start ∧ sorted[i + k]? = some stop ∧
        stop.toNat ≤ start.toNat + windowSecs.toNat := by
  rw [any_eq_true]
  simp only [sustainedFrom_iff]
  constructor
  · rintro ⟨i, -, h⟩
    exact ⟨i, h⟩
  · rintro ⟨i, start, stop, hstart, hstop, hle⟩
    refine ⟨i, ?_, start, stop, hstart, hstop, hle⟩
    have hlt := (List.getElem?_eq_some_iff.1 hstop).1
    rw [mem_range]
    omega

/-- **Sustained alerts are found exactly.** `min_hits` of the alerts lie in one interval no longer
than the window, whatever the order of the list and however close to the bounds of `u64`. -/
theorem hasSustainedAlerts_iff (alertTimestampsSecs : List UInt64) (windowSecs : UInt64)
    (minHits : Nat) : hasSustainedAlerts alertTimestampsSecs windowSecs minHits = true ↔
      ∃ hits : List UInt64, hits.Subperm alertTimestampsSecs ∧ hits.length = minHits ∧
        ∃ start : Nat, ∀ t ∈ hits, start ≤ t.toNat ∧ t.toNat ≤ start + windowSecs.toNat := by
  unfold hasSustainedAlerts
  cases minHits with
  | zero =>
    exact iff_of_true rfl ⟨[], nil_subperm, rfl, 0, fun t ht => absurd ht not_mem_nil⟩
  | succ k =>
    rw [if_neg (Nat.succ_ne_zero k)]
    split
    · refine iff_of_false Bool.false_ne_true ?_
      rintro ⟨hits, hsub, hlength, -⟩
      have := hsub.length_le
      omega
    · have hperm := mergeSort_perm alertTimestampsSecs fun a b => a.toNat ≤ b.toNat
      have hsorted := pairwise_sortByKey UInt64.toNat alertTimestampsSecs
      rw [exists_close_iff hperm hsorted]
      exact any_sustainedFrom_iff (by rw [hperm.length_eq]; omega) windowSecs

end Haltchain.Ops

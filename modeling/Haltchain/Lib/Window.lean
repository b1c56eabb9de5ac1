import Mathlib.Data.List.Basic

/-! # Sliding windows

A limiter keeps the items of the last `w` units of time. What it is to bound are the items in any
interval `(t - w, t]`: an item is in one with a later one only if it was still kept when that was
let in. -/

namespace Haltchain.Lib

open List

variable {α : Type*} (w : Nat) (time : α → Nat)

/-- The items that still count at `now`. -/
def recent (now : Nat) (l : List α) : List α := l.filter fun x => now < time x + w

/-- The items in `(t - w, t]`. -/
def within (t : Nat) (l : List α) : List α := l.filter fun x => t < time x + w ∧ time x ≤ t

theorem recent_append (now : Nat) (l l' : List α) :
    recent w time now (l ++ l') = recent w time now l ++ recent w time now l' :=
  filter_append ..

theorem within_append (t : Nat) (l l' : List α) :
    within w time t (l ++ l') = within w time t l ++ within w time t l' :=
  filter_append ..

variable {w time}

/-- What has been dropped would not count later either. -/
theorem recent_recent {now later : Nat} (hle : now ≤ later) (l : List α) :
    recent w time later (recent w time now l) = recent w time later l := by
  unfold recent
  rw [filter_filter]
  refine filter_congr fun x _ => ?_
  rw [Bool.eq_iff_iff]
  simp only [Bool.and_eq_true, decide_eq_true_eq]
  omega

theorem recent_of_le {now later : Nat} (hle : now ≤ later) (l : List α) :
    recent w time now (recent w time later l) = recent w time later l := by
  refine filter_eq_self.2 fun x hx => ?_
  have hlt := (mem_filter.1 hx).2
  simp only [decide_eq_true_eq] at hlt ⊢
  omega

theorem recent_sublist {l l' : List α} (h : l.Sublist l') (now : Nat) :
    (recent w time now l).Sublist (recent w time now l') :=
  h.filter _

/-- A list of kept items stays one when older items are dropped. -/
theorem recent_sublist_of_le {l l' : List α} {now later : Nat} (hle : now ≤ later)
    (h : (recent w time now l).Sublist l') :
    (recent w time later l).Sublist (recent w time later l') := by
  rw [← recent_recent hle l]
  exact recent_sublist h later

theorem within_sublist_recent {now t : Nat} (hle : now ≤ t) (l : List α) :
    (within w time t l).Sublist (recent w time now l) := by
  refine monotone_filter_right l fun x hx => ?_
  simp only [decide_eq_true_eq] at hx ⊢
  omega

/-- **Letting one more item in.** The bound on every interval is kept if fewer items still counted
at some time up to the new one's. -/
theorem within_concat_le {l : List α} {x : α} {now limit : Nat}
    (hbound : ∀ t, (within w time t l).length ≤ limit) (hnow : now ≤ time x)
    (hroom : (recent w time now l).length < limit) (t : Nat) :
    (within w time t (l ++ [x])).length ≤ limit := by
  rw [within_append, length_append]
  by_cases hin : t < time x + w ∧ time x ≤ t
  · have hone : (within w time t [x]).length = 1 := by simp [within, hin]
    have hle : (within w time t l).length ≤ (recent w time now l).length :=
      (within_sublist_recent (Nat.le_trans hnow hin.2) l).length_le
    omega
  · have hnone : (within w time t [x]).length = 0 := by simp [within, hin]
    have := hbound t
    omega

end Haltchain.Lib

import Haltchain.Lib.Run
import Haltchain.Lib.Window
import Haltchain.Validator.AgentState
import Mathlib.Algebra.Order.BigOperators.Group.List
import Mathlib.Algebra.Order.Ring.Rat
import Mathlib.Data.List.AList
import Mathlib.Data.List.Dedup

/-! # The limit on transfers to one recipient

`evaluate_recipient_aggregate` keeps the transfers of the last minute to every recipient, blocked
ones included, and objects to one that takes their sum over the limit when they come from more than
one agent. A negative amount makes room. -/

namespace Haltchain.Validator

open Lib List Option

structure Transfer where
  now : Nat
  agentId : String
  amount : Rat
deriving DecidableEq

/-- `recipient_transfers`. -/
abbrev RecipientTransfers := AList (fun _ : String => List Transfer)

/-- The transfers to the recipient that count at `now`, this one included. -/
def RecipientTransfers.events (store : RecipientTransfers) (recipient : String) (tr : Transfer) :
    List Transfer :=
  ((store.lookup recipient).getD []).filter (fun e => tr.now - e.now < secs 60) ++ [tr]

/-- The total and the number of agents, if the transfer is blocked. -/
def evaluateRecipientAggregate (store : RecipientTransfers) (recipient : String) (tr : Transfer)
    (maxTotalPerMinute : Rat) : Option (Rat × Nat) × RecipientTransfers :=
  let events := store.events recipient tr
  let total := (events.map Transfer.amount).sum
  let uniqueAgents := (events.map Transfer.agentId).dedup.length
  (if 2 ≤ uniqueAgents ∧ maxTotalPerMinute < total then some (total, uniqueAgents) else none,
    store.insert recipient events)

/-- A call of `evaluate_recipient_aggregate`. -/
structure TransferCall extends Transfer where
  recipient : String

namespace RecipientTransfers

/-- One call. -/
def step (limit : Rat) (store : RecipientTransfers) (c : TransferCall) : RecipientTransfers :=
  (evaluateRecipientAggregate store c.recipient c.toTransfer limit).2

/-- The call, if it is not blocked. -/
def unblockedAt (limit : Rat) (store : RecipientTransfers) (c : TransferCall) :
    Option TransferCall :=
  if (evaluateRecipientAggregate store c.recipient c.toTransfer limit).1.isSome then none
  else some c

/-- The calls not blocked, of a sequence made with one limit. -/
def unblocked (limit : Rat) (calls : List TransferCall) : List TransferCall :=
  outputs (step limit) (unblockedAt limit) ∅ calls

/-- The transfers to the recipient. -/
def transfersTo (recipient : String) (calls : List TransferCall) : List Transfer :=
  (calls.filter fun c => c.recipient = recipient).map TransferCall.toTransfer

/-- The transfers of positive amounts to the recipient that went through. -/
def paidTo (limit : Rat) (recipient : String) (calls : List TransferCall) : List Transfer :=
  (transfersTo recipient (unblocked limit calls)).filter fun tr => 0 < tr.amount

/-! ## What the store has -/

def bucket (store : RecipientTransfers) (recipient : String) : List Transfer :=
  (store.lookup recipient).getD []

theorem events_eq (store : RecipientTransfers) (recipient : String) (tr : Transfer) :
    store.events recipient tr =
      recent minute Transfer.now tr.now (store.bucket recipient) ++ [tr] := by
  unfold events recent bucket
  congr 1
  refine filter_congr fun e _ => ?_
  rw [Bool.eq_iff_iff]
  rw [decide_eq_true_eq, decide_eq_true_eq]
  unfold minute secs
  omega

theorem step_bucket (limit : Rat) (store : RecipientTransfers) (c : TransferCall)
    (recipient : String) : (step limit store c).bucket recipient =
      if recipient = c.recipient then store.events recipient c.toTransfer
      else store.bucket recipient := by
  unfold step evaluateRecipientAggregate bucket
  split
  · next h => rw [h, AList.lookup_insert, getD_some]
  · next h => rw [AList.lookup_insert_ne h]

theorem transfersTo_concat (recipient : String) (calls : List TransferCall) (c : TransferCall) :
    transfersTo recipient (calls ++ [c]) = transfersTo recipient calls ++
      if recipient = c.recipient then [c.toTransfer] else [] := by
  unfold transfersTo
  by_cases h : c.recipient = recipient
  · simp [h]
  · simp [h, Ne.symm h]

/-- **All transfers that still count are in the store**, at any time from the last call on. -/
theorem recent_bucket (limit : Rat) (recipient : String) (calls : List TransferCall) {n : Nat}
    (hn : ∀ c ∈ calls, c.now ≤ n) :
    recent minute Transfer.now n ((run (step limit) ∅ calls).bucket recipient) =
      recent minute Transfer.now n (transfersTo recipient calls) := by
  induction calls using reverseRecOn with
  | nil => rfl
  | append_singleton calls c ih =>
    have hcalls := ih fun c' hc' => hn c' (mem_append_left _ hc')
    have hc : c.now ≤ n := hn c (mem_append_right _ (mem_singleton_self _))
    rw [run_concat, step_bucket, transfersTo_concat]
    split
    · rw [events_eq, recent_append, recent_append, recent_recent hc, hcalls]
    · rw [hcalls, append_nil]

/-! ## The limit -/

theorem unblocked_concat (limit : Rat) (calls : List TransferCall) (c : TransferCall) :
    unblocked limit (calls ++ [c]) = unblocked limit calls ++
      (unblockedAt limit (run (step limit) ∅ calls) c).toList :=
  outputs_concat ..

theorem paidTo_sublist (limit : Rat) (recipient : String) (calls : List TransferCall) :
    (paidTo limit recipient calls).Sublist (transfersTo recipient calls) := by
  have hunblocked : (unblocked limit calls).Sublist calls := by
    refine outputs_sublist _ (fun store c o ho => ?_) ∅ calls
    unfold unblockedAt at ho
    split at ho
    · simp at ho
    · exact (some.inj ho).symm
  exact filter_sublist.trans ((hunblocked.filter _).map _)

/-- A call adds to what was paid if to the recipient, positive, and not blocked. -/
theorem paidTo_concat (limit : Rat) (recipient : String) (calls : List TransferCall)
    (c : TransferCall) : paidTo limit recipient (calls ++ [c]) = paidTo limit recipient calls ∨
      (c.recipient = recipient ∧
        (evaluateRecipientAggregate (run (step limit) ∅ calls) recipient c.toTransfer limit).1 =
          none ∧
        paidTo limit recipient (calls ++ [c]) =
          paidTo limit recipient calls ++ [c.toTransfer]) := by
  unfold paidTo
  rw [unblocked_concat]
  unfold unblockedAt
  split
  · rw [toList_none, append_nil]
    exact .inl rfl
  · next hnone =>
    rw [toList_some, transfersTo_concat]
    split
    · next hr =>
      subst hr
      by_cases hpos : 0 < c.amount
      · exact .inr ⟨rfl, by simpa using hnone, by simp [hpos]⟩
      · exact .inl (by simp [hpos])
    · exact .inl (by simp)

theorem two_le_length_dedup {l : List String} {x y : String} (hx : x ∈ l) (hy : y ∈ l)
    (hne : x ≠ y) : 2 ≤ l.dedup.length := by
  have hnodup : [x, y].Nodup := by simp [hne]
  have hsub : [x, y] ⊆ l.dedup := by simp [hx, hy]
  exact (subperm_of_subset hnodup hsub).length_le

/-- What an unblocked call says about the transfers that count for it. -/
theorem sum_le_of_unblocked {store : RecipientTransfers} {recipient : String} {tr : Transfer}
    {limit : Rat} (h : (evaluateRecipientAggregate store recipient tr limit).1 = none)
    {x y : Transfer} (hx : x ∈ store.events recipient tr) (hy : y ∈ store.events recipient tr)
    (hne : x.agentId ≠ y.agentId) :
    ((store.events recipient tr).map Transfer.amount).sum ≤ limit := by
  unfold evaluateRecipientAggregate at h
  dsimp only at h
  split at h
  · simp at h
  · next hnot =>
    refine not_lt.1 fun hlt => hnot ⟨?_, hlt⟩
    exact two_le_length_dedup (mem_map_of_mem hx) (mem_map_of_mem hy) hne

theorem nonneg_of_transfersTo {recipient : String} {calls : List TransferCall}
    (hnonneg : ∀ c ∈ calls, c.recipient = recipient → 0 ≤ c.amount) {tr : Transfer}
    (htr : tr ∈ transfersTo recipient calls) : 0 ≤ tr.amount := by
  obtain ⟨c, hc, rfl⟩ := mem_map.1 htr
  obtain ⟨hmem, hto⟩ := mem_filter.1 hc
  exact hnonneg c hmem (by simpa using hto)

/-- **The limit on transfers to one recipient.** For calls in the order of time, none of a negative
amount to the recipient: if the positive amounts that went through in some minute come from two
agents, their sum is within the limit. -/
theorem recipient_limit_of_nonneg (limit : Rat) (recipient : String) (calls : List TransferCall)
    (hsorted : calls.Pairwise fun c c' => c.now ≤ c'.now)
    (hnonneg : ∀ c ∈ calls, c.recipient = recipient → 0 ≤ c.amount) (t : Nat) :
    let paid := within minute Transfer.now t (paidTo limit recipient calls)
    (∃ x ∈ paid, ∃ y ∈ paid, x.agentId ≠ y.agentId) →
      (paid.map Transfer.amount).sum ≤ limit := by
  induction calls using reverseRecOn with
  | nil =>
    rintro paid ⟨x, hx, -⟩
    simp [paid, paidTo, unblocked, outputs, transfersTo, within] at hx
  | append_singleton calls c ih =>
    obtain ⟨hcalls, -, hlast⟩ := pairwise_append.1 hsorted
    have ih := ih hcalls fun c' hc' => hnonneg c' (mem_append_left _ hc')
    rcases paidTo_concat limit recipient calls c with heq | ⟨rfl, hnone, heq⟩
    · rwa [heq]
    rw [heq, within_append]
    by_cases hin : t < c.now + minute ∧ c.now ≤ t
    · -- the last of the transfers: at that time all the others still counted
      have hone : within minute Transfer.now t [c.toTransfer] = [c.toTransfer] := by
        simp [within, hin]
      rw [hone]
      intro paid
      have hevents := events_eq (run (step limit) ∅ calls) c.recipient c.toTransfer
      rw [recent_bucket limit c.recipient calls fun c' hc' => hlast c' hc' c (by simp)] at hevents
      have hsub : paid.Sublist ((run (step limit) ∅ calls).events c.recipient c.toTransfer) := by
        rw [hevents]
        exact ((within_sublist_recent hin.2 _).trans
          (recent_sublist (paidTo_sublist limit c.recipient calls) _)).append
          (.refl _)
      rintro ⟨x, hx, y, hy, hne⟩
      refine le_trans (List.Sublist.sum_le_sum (hsub.map _) ?_)
        (sum_le_of_unblocked hnone (hsub.subset hx) (hsub.subset hy) hne)
      intro amount hamount
      obtain ⟨tr, htr, rfl⟩ := mem_map.1 hamount
      rw [hevents] at htr
      refine nonneg_of_transfersTo hnonneg ?_
      rw [transfersTo_concat, if_pos rfl]
      exact (filter_sublist.append (.refl _)).subset htr
    · have hnil : within minute Transfer.now t [c.toTransfer] = [] := by simp [within, hin]
      rwa [hnil, append_nil]

/-- Within a second, the second agent takes back what the first transferred and transfers it
again. -/
def refundThenPay : List TransferCall :=
  [⟨⟨secs 100, "alice", 1000⟩, "mallory"⟩, ⟨⟨secs 100, "bob", -1000⟩, "mallory"⟩,
   ⟨⟨secs 100, "bob", 1000⟩, "mallory"⟩]

/-- The positive amounts are twice the limit, and nothing is blocked. -/
theorem negative_amount_makes_room :
    let paid := within minute Transfer.now (secs 100) (paidTo 1000 "mallory" refundThenPay)
    refundThenPay.Pairwise (fun c c' => c.now ≤ c'.now) ∧
      paid.map Transfer.agentId = ["alice", "bob"] ∧ (paid.map Transfer.amount).sum = 2000 := by
  decide +kernel

/-- The third transfer is too much for a minute; the last is in the next. -/
def payInTwoMinutes : List TransferCall :=
  [⟨⟨secs 100, "alice", 300⟩, "mallory"⟩, ⟨⟨secs 100, "bob", 200⟩, "mallory"⟩,
   ⟨⟨secs 100, "bob", 600⟩, "mallory"⟩, ⟨⟨secs 161, "alice", 300⟩, "mallory"⟩]

theorem positive_amounts_limited :
    let paid := within minute Transfer.now (secs 100) (paidTo 1000 "mallory" payInTwoMinutes)
    paid.map Transfer.amount = [300, 200] ∧ (paid.map Transfer.amount).sum ≤ 1000 := by
  refine ⟨by decide +kernel, recipient_limit_of_nonneg 1000 "mallory" payInTwoMinutes
    (by decide +kernel) (by decide +kernel) (secs 100) ?_⟩
  exact ⟨⟨secs 100, "alice", 300⟩, by decide +kernel, ⟨secs 100, "bob", 200⟩, by decide +kernel,
    by decide⟩

end RecipientTransfers

end Haltchain.Validator

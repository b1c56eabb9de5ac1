import Haltchain.Lib.Assoc

/-! # Keys that expire

A map from keys to the time at which each was put in. Keys are dropped when their age, in any unit,
has reached a limit; a key put in at a time not yet reached has no age. -/

namespace Haltchain.Lib

variable {α : Type*}

abbrev Stamps (α : Type*) := AList fun _ : α => Nat

namespace Stamps

/-- Keeps the keys that are younger than `ttl`. -/
def expire (ttl now : Nat) (m : Stamps α) : Stamps α :=
  ⟨m.entries.filter fun e => now - e.2 < ttl,
    List.NodupKeys.sublist List.filter_sublist m.nodupKeys⟩

variable [DecidableEq α] {m : Stamps α} {ttl now t : Nat} {a b : α}

theorem lookup_expire :
    (m.expire ttl now).lookup a = some t ↔ m.lookup a = some t ∧ now - t < ttl := by
  have hiff := lookup_keepValues_iff (m := m) (a := a) (v := t) fun t => decide (now - t < ttl)
  rwa [decide_eq_true_iff] at hiff

theorem mem_iff_lookup : a ∈ m ↔ ∃ t, m.lookup a = some t := by
  rw [← AList.lookup_isSome, Option.isSome_iff_exists]

theorem lookup_insert_of_notMem (hb : b ∉ m) (ha : m.lookup a = some t) :
    AList.lookup a (m.insert b now) = some t := by
  have hne : a ≠ b := fun h => hb (h ▸ mem_iff_lookup.2 ⟨t, ha⟩)
  rw [AList.lookup_insert_ne hne, ha]

end Stamps

end Haltchain.Lib

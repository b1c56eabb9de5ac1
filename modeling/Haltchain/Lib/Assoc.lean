import Mathlib.Data.List.AList

/-! # Association lists

What is found in an association list after an insertion or a removal, by whether the key is the
one that was inserted or removed, and how insertions and removals change the number of entries. -/

namespace Haltchain.Lib

open List Option AList

variable {α β : Type*} [DecidableEq α] {m : AList fun _ : α => β} {a b : α} {v w : β}

theorem lookup_insert_eq (m : AList fun _ : α => β) (a b : α) (v : β) :
    (m.insert a v).lookup b = if b = a then some v else m.lookup b := by
  split
  · next h => rw [h, lookup_insert]
  · next h => exact lookup_insert_ne h

theorem of_lookup_insert (h : (m.insert a v).lookup b = some w) :
    (b = a ∧ w = v) ∨ (b ≠ a ∧ m.lookup b = some w) := by
  rw [lookup_insert_eq] at h
  split at h
  · next hba => exact .inl ⟨hba, (some.inj h).symm⟩
  · next hba => exact .inr ⟨hba, h⟩

theorem lookup_replace_ne_none (h : m.lookup a = some w) :
    (m.insert a v).lookup b ≠ none ↔ m.lookup b ≠ none := by
  rw [lookup_insert_eq]
  split
  · next hba =>
    subst hba
    simp [h]
  · exact .rfl

theorem of_lookup_erase (h : (m.erase a).lookup b = some w) : m.lookup b = some w := by
  rcases eq_or_ne b a with rfl | hne
  · rw [lookup_erase] at h
    cases h
  · rwa [lookup_erase_ne hne] at h

theorem lookup_foldl_insert (as : List α) (v : β) (m : AList fun _ : α => β) (b : α) :
    (as.foldl (fun m a => m.insert a v) m).lookup b = if b ∈ as then some v else m.lookup b := by
  induction as generalizing m with
  | nil => simp
  | cons a as ih =>
    rw [foldl_cons, ih, lookup_insert_eq]
    by_cases hmem : b ∈ as
    · rw [if_pos hmem, if_pos (mem_cons_of_mem a hmem)]
    · rw [if_neg hmem]
      by_cases hba : b = a
      · rw [if_pos hba, if_pos (hba ▸ mem_cons_self)]
      · rw [if_neg hba, if_neg (by simp [hba, hmem])]

theorem lookup_foldl_erase {γ : Type*} (key : γ → α) (l : List γ) (m : AList fun _ : α => β)
    (b : α) : (l.foldl (fun m c => m.erase (key c)) m).lookup b =
      if b ∈ l.map key then none else m.lookup b := by
  induction l generalizing m with
  | nil => simp
  | cons c l ih =>
    rw [foldl_cons, ih, map_cons]
    by_cases hmem : b ∈ l.map key
    · rw [if_pos hmem, if_pos (mem_cons_of_mem _ hmem)]
    · rw [if_neg hmem]
      rcases eq_or_ne b (key c) with rfl | hne
      · rw [if_pos mem_cons_self, lookup_erase]
      · rw [if_neg (not_mem_cons_of_ne_of_not_mem hne hmem), lookup_erase_ne hne]

/-- The entries whose value passes the test. -/
def keepValues (p : β → Bool) (m : AList fun _ : α => β) : AList fun _ : α => β :=
  ⟨m.entries.filter fun e => p e.2, List.NodupKeys.sublist filter_sublist m.nodupKeys⟩

theorem lookup_keepValues_iff (p : β → Bool) :
    (keepValues p m).lookup a = some v ↔ m.lookup a = some v ∧ p v = true := by
  rw [← mem_def, ← mem_def, mem_lookup_iff, mem_lookup_iff, keepValues,
    mem_filter]

theorem lookup_keepValues (p : β → Bool) (m : AList fun _ : α => β) (a : α) :
    (keepValues p m).lookup a = (m.lookup a).filter p := by
  apply Option.ext
  intro v
  rw [lookup_keepValues_iff, filter_eq_some_iff]

theorem length_erase_le (m : AList fun _ : α => β) (a : α) :
    (m.erase a).entries.length ≤ m.entries.length :=
  length_eraseP_le

theorem length_foldl_erase_le {γ : Type*} (key : γ → α) (l : List γ) (m : AList fun _ : α => β) :
    (l.foldl (fun m c => m.erase (key c)) m).entries.length ≤ m.entries.length := by
  induction l generalizing m with
  | nil => exact le_rfl
  | cons c l ih => exact le_trans (ih (m.erase (key c))) (length_erase_le m (key c))

theorem length_erase_lt (h : m.lookup a = some v) :
    (m.erase a).entries.length < m.entries.length := by
  have hmem : Sigma.mk a v ∈ m.entries := mem_lookup_iff.1 h
  have hlength : (m.erase a).entries.length = m.entries.length - 1 :=
    length_eraseP_of_mem hmem (by simp)
  have hpos := length_pos_of_mem hmem
  omega

/-- The entry that an insertion replaces no longer counts. -/
theorem countP_insert (m : AList fun _ : α => β) (a : α) (v : β) (p : β → Bool) :
    (m.insert a v).entries.countP (fun e => p e.2) + (if (m.lookup a).any p then 1 else 0) =
      m.entries.countP (fun e => p e.2) + if p v then 1 else 0 := by
  rw [entries_insert, countP_cons]
  cases hfound : m.lookup a with
  | none =>
    have hnew : a ∉ m.entries.keys := dlookup_eq_none.1 hfound
    rw [kerase_of_notMem_keys hnew]
    simp
  | some w =>
    have hold : a ∈ m.entries.keys := dlookup_isSome.1 (isSome_of_eq_some hfound)
    obtain ⟨w', l₁, l₂, -, hentries, herased⟩ := exists_of_kerase hold
    obtain rfl : w' = w := by
      have hmem : Sigma.mk a w' ∈ m.entries := by rw [hentries]; simp
      exact some.inj ((mem_dlookup m.nodupKeys hmem).symm.trans hfound)
    rw [herased, hentries, any_some]
    simp only [countP_append, countP_cons]
    omega

theorem length_insert (m : AList fun _ : α => β) (a : α) (v : β) :
    (m.insert a v).entries.length + (if (m.lookup a).isSome then 1 else 0) =
      m.entries.length + 1 := by
  have hcount := countP_insert m a v fun _ => true
  simpa using hcount

end Haltchain.Lib

import Mathlib.Data.List.Induction

/-! # Fields with a separator between them

Fields joined with a separator can be told apart if they do not contain it; of two joins with as
many fields, those of one. One field may be anything if the others do not contain the separator. -/

namespace Haltchain.Lib

open List

variable {α : Type*} (sep : α)

/-- The fields one after the other, with `sep` between them. -/
def sepJoin : List (List α) → List α
  | [] => []
  | [x] => x
  | x :: y :: fields => x ++ sep :: sepJoin (y :: fields)

variable {sep} {fields : List (List α)}

theorem sepJoin_cons (x : List α) (hne : fields ≠ []) :
    sepJoin sep (x :: fields) = x ++ sep :: sepJoin sep fields := by
  cases fields with
  | nil => exact absurd rfl hne
  | cons y fields => rfl

theorem sepJoin_append {fields' : List (List α)} (hne : fields ≠ []) (hne' : fields' ≠ []) :
    sepJoin sep (fields ++ fields') = sepJoin sep fields ++ sep :: sepJoin sep fields' := by
  fun_induction sepJoin sep fields with
  | case1 => exact absurd rfl hne
  | case2 x => exact sepJoin_cons x hne'
  | case3 x y fields ih =>
    rw [cons_append, sepJoin_cons x (by simp), ih (cons_ne_nil _ _), append_assoc, cons_append]

theorem sepJoin_eq_intercalate : sepJoin sep fields = [sep].intercalate fields := by
  fun_induction sepJoin sep fields with
  | case1 => simp
  | case2 x => simp
  | case3 x y fields ih => simp [ih]

/-- **Two fields with one separator between them** can be read in two ways where one contains the
separator: what is between the two places belongs to the field before or after it. -/
theorem append_sep_eq_iff {x x' r r' : List α} :
    x ++ sep :: r = x' ++ sep :: r' ↔ (x = x' ∧ r = r') ∨
      (∃ m, x' = x ++ sep :: m ∧ r = m ++ sep :: r') ∨
      ∃ m, x = x' ++ sep :: m ∧ r' = m ++ sep :: r := by
  constructor
  · intro h
    rcases append_eq_append_iff.1 h with ⟨z, rfl, hz⟩ | ⟨z, rfl, hz⟩
    · cases z with
      | nil => exact .inl ⟨(append_nil x).symm, (cons.inj hz).2⟩
      | cons a z =>
        obtain ⟨rfl, rfl⟩ := cons.inj hz
        exact .inr (.inl ⟨z, rfl, rfl⟩)
    · cases z with
      | nil => exact .inl ⟨append_nil x', (cons.inj hz).2.symm⟩
      | cons a z =>
        obtain ⟨rfl, rfl⟩ := cons.inj hz
        exact .inr (.inr ⟨z, rfl, rfl⟩)
  · rintro (⟨rfl, rfl⟩ | ⟨m, rfl, rfl⟩ | ⟨m, rfl, rfl⟩)
    · rfl
    · rw [append_assoc, cons_append]
    · rw [append_assoc, cons_append]

/-! ## One field that may be anything -/

theorem append_sep_inj {x x' r r' : List α} (hx : sep ∉ x) (hx' : sep ∉ x')
    (h : x ++ sep :: r = x' ++ sep :: r') : x = x' ∧ r = r' := by
  rcases append_sep_eq_iff.1 h with heq | ⟨m, rfl, -⟩ | ⟨m, rfl, -⟩
  · exact heq
  · exact absurd (mem_append_right _ mem_cons_self) hx'
  · exact absurd (mem_append_right _ mem_cons_self) hx

theorem sep_append_inj {x x' r r' : List α} (hr : sep ∉ r) (hr' : sep ∉ r')
    (h : x ++ sep :: r = x' ++ sep :: r') : x = x' ∧ r = r' := by
  have hreverse : r.reverse ++ sep :: x.reverse = r'.reverse ++ sep :: x'.reverse := by
    simpa using congrArg reverse h
  obtain ⟨heq, heq'⟩ := append_sep_inj (by simpa using hr) (by simpa using hr') hreverse
  exact ⟨reverse_inj.1 heq', reverse_inj.1 heq⟩

theorem sepJoin_cons_inj {m m' : List α} {fields' : List (List α)}
    (hlen : fields.length = fields'.length) (hfree : ∀ x ∈ fields, sep ∉ x)
    (hfree' : ∀ x ∈ fields', sep ∉ x)
    (h : sepJoin sep (m :: fields) = sepJoin sep (m' :: fields')) : m = m' ∧ fields = fields' := by
  induction fields using reverseRecOn generalizing fields' with
  | nil =>
    obtain rfl := length_eq_zero_iff.1 hlen.symm
    exact ⟨h, rfl⟩
  | append_singleton fields z ih =>
    rcases eq_nil_or_concat fields' with rfl | ⟨fields', z', rfl⟩
    · simp at hlen
    rw [concat_eq_append] at h hlen hfree' ⊢
    rw [← cons_append, ← cons_append, sepJoin_append (cons_ne_nil _ _) (cons_ne_nil _ _),
      sepJoin_append (cons_ne_nil _ _) (cons_ne_nil _ _)] at h
    have hz := hfree z (mem_append_right _ (mem_singleton_self z))
    have hz' := hfree' z' (mem_append_right _ (mem_singleton_self z'))
    obtain ⟨hjoin, rfl⟩ := sep_append_inj hz hz' h
    obtain ⟨rfl, rfl⟩ := ih (by simpa using hlen)
      (fun x hx => hfree x (mem_append_left _ hx))
      (fun x hx => hfree' x (mem_append_left _ hx)) hjoin
    exact ⟨rfl, rfl⟩

/-- **One field may be anything** in a join that determines its fields. -/
theorem sepJoin_append_cons_inj {front front' back back' : List (List α)} {m m' : List α}
    (hfront : front.length = front'.length) (hback : back.length = back'.length)
    (hfree : ∀ x ∈ front ++ back, sep ∉ x) (hfree' : ∀ x ∈ front' ++ back', sep ∉ x)
    (h : sepJoin sep (front ++ m :: back) = sepJoin sep (front' ++ m' :: back')) :
    front = front' ∧ m = m' ∧ back = back' := by
  induction front generalizing front' with
  | nil =>
    obtain rfl := length_eq_zero_iff.1 hfront.symm
    obtain ⟨hm, hb⟩ := sepJoin_cons_inj hback hfree hfree' h
    exact ⟨rfl, hm, hb⟩
  | cons x front ih =>
    obtain ⟨x', front', rfl⟩ := exists_cons_of_length_eq_add_one hfront.symm
    rw [cons_append, cons_append, sepJoin_cons x (by simp), sepJoin_cons x' (by simp)] at h
    rw [cons_append, forall_mem_cons] at hfree hfree'
    obtain ⟨rfl, hrest⟩ := append_sep_inj hfree.1 hfree'.1 h
    obtain ⟨rfl, hm, hb⟩ := ih (Nat.succ.inj hfront) hfree.2 hfree'.2 hrest
    exact ⟨rfl, hm, hb⟩

/-! ## Fields without the separator -/

variable [DecidableEq α]

theorem length_le_count_sepJoin (fields : List (List α)) :
    fields.length ≤ (sepJoin sep fields).count sep + 1 := by
  fun_induction sepJoin sep fields with
  | case1 => simp
  | case2 x => simp
  | case3 x y fields ih =>
    rw [count_append, count_cons_self, length_cons]
    omega

theorem count_sepJoin (hne : fields ≠ []) (hfree : ∀ x ∈ fields, sep ∉ x) :
    (sepJoin sep fields).count sep + 1 = fields.length := by
  fun_induction sepJoin sep fields with
  | case1 => exact absurd rfl hne
  | case2 x =>
    have hx := hfree x (mem_singleton_self x)
    rw [count_eq_zero_of_not_mem hx, length_singleton]
  | case3 x y fields ih =>
    have := ih (cons_ne_nil _ _) fun z hz => hfree z (mem_cons_of_mem _ hz)
    rw [count_append, count_eq_zero_of_not_mem (hfree x mem_cons_self),
      count_cons_self, length_cons]
    omega

/-- The first separator of both sides is the one after `x`, if the other has as many on its
right. -/
theorem eq_of_append_sep {x x' r r' : List α} (hx : sep ∉ x) (hcount : r.count sep ≤ r'.count sep)
    (h : x ++ sep :: r = x' ++ sep :: r') : x = x' ∧ r = r' := by
  rcases append_sep_eq_iff.1 h with heq | ⟨m, -, rfl⟩ | ⟨m, rfl, -⟩
  · exact heq
  · rw [count_append, count_cons_self] at hcount
    omega
  · exact absurd (mem_append_right _ mem_cons_self) hx

/-- **A join of fields without the separator determines them** among all joins of as many fields. -/
theorem sepJoin_inj {fields' : List (List α)} (hlen : fields.length = fields'.length)
    (hfree : ∀ x ∈ fields, sep ∉ x) (h : sepJoin sep fields = sepJoin sep fields') :
    fields = fields' := by
  induction fields generalizing fields' with
  | nil => exact (length_eq_zero_iff.1 hlen.symm).symm
  | cons x fields ih =>
    obtain ⟨x', fields', rfl⟩ := exists_cons_of_length_eq_add_one hlen.symm
    replace hlen : fields.length = fields'.length := Nat.succ.inj hlen
    cases fields with
    | nil =>
      obtain rfl := length_eq_zero_iff.1 hlen.symm
      exact congrArg (· :: []) h
    | cons y fields =>
      obtain ⟨y', fields', rfl⟩ := exists_cons_of_length_eq_add_one hlen.symm
      have hfree' : ∀ z ∈ y :: fields, sep ∉ z :=
        fun z hz => hfree z (mem_cons_of_mem _ hz)
      -- the rest of the one side has the fewest separators that its number of fields allows
      have hcount : (sepJoin sep (y :: fields)).count sep ≤
          (sepJoin sep (y' :: fields')).count sep := by
        have := count_sepJoin (cons_ne_nil y fields) hfree'
        have : (y' :: fields').length ≤ (sepJoin sep (y' :: fields')).count sep + 1 :=
          length_le_count_sepJoin _
        omega
      obtain ⟨rfl, hrest⟩ := eq_of_append_sep (hfree x mem_cons_self) hcount h
      rw [ih hlen hfree' hrest]

/-! ## The parts of a text -/

/-- The parts of a join are those of its fields. -/
theorem splitOn_sepJoin (hne : fields ≠ []) :
    (sepJoin sep fields).splitOn sep = fields.flatMap (splitOn sep) := by
  fun_induction sepJoin sep fields with
  | case1 => exact absurd rfl hne
  | case2 x => simp
  | case3 x y fields ih =>
    rw [splitOn_append_cons_self, ih (cons_ne_nil _ _)]
    rfl

variable (sep) in
theorem sepJoin_splitOn (text : List α) : sepJoin sep (text.splitOn sep) = text := by
  rw [sepJoin_eq_intercalate, intercalate_splitOn]

omit [DecidableEq α] in
theorem mem_dropLast_drop_iff {l : List α} {n : ℕ} {x : α} :
    x ∈ (l.drop n).dropLast ↔ ∃ l₁ l₂, l = l₁ ++ x :: l₂ ∧ n ≤ l₁.length ∧ l₂ ≠ [] := by
  constructor
  · intro hx
    have hne : l.drop n ≠ [] := by
      rintro hnil
      simp [hnil] at hx
    obtain ⟨s, t, hst⟩ := append_of_mem hx
    refine ⟨l.take n ++ s, t ++ [(l.drop n).getLast hne], ?_, ?_, by simp⟩
    · calc l = l.take n ++ ((l.drop n).dropLast ++ [(l.drop n).getLast hne]) := by
            rw [dropLast_concat_getLast, take_append_drop]
        _ = _ := by simp [hst]
    · have := length_pos_iff.2 hne
      rw [length_drop] at this
      rw [length_append, length_take]
      omega
  · rintro ⟨l₁, l₂, rfl, hn, hne⟩
    rw [drop_append_of_le_length hn, dropLast_append_of_ne_nil (cons_ne_nil _ _),
      dropLast_cons_of_ne_nil hne]
    exact mem_append_right _ mem_cons_self

end Haltchain.Lib

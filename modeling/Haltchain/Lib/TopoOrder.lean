import Mathlib.Data.Set.Finite.List
import Mathlib.Data.List.MinMax
import Mathlib.Data.Prod.Lex

/-! # Orders along a relation

A list in which everything comes after what it is related to. If all that is related to something is
in it, without repetition, the relation has no cycle. -/

namespace Haltchain.Lib

open Relation List

variable {α : Type*} {r : α → α → Prop}

/-- No element is related to itself along any path. -/
def Acyclic (r : α → α → Prop) : Prop := ∀ a, ¬ TransGen r a a

/-- Everything comes after what it is related to. -/
def TopoOrdered (r : α → α → Prop) (l : List α) : Prop :=
  ∀ front a back, l = front ++ a :: back → ∀ b, r a b → b ∈ front

theorem topoOrdered_nil : TopoOrdered r [] := by
  intro front a back h
  simp at h

theorem TopoOrdered.concat {l : List α} {a : α} (h : TopoOrdered r l) (ha : ∀ b, r a b → b ∈ l) :
    TopoOrdered r (l ++ [a]) := by
  intro front c back heq b hb
  rcases List.eq_nil_or_concat back with rfl | ⟨back, z, rfl⟩
  · obtain ⟨rfl, hsingle⟩ := List.append_inj' heq rfl
    obtain rfl : a = c := (List.cons.inj hsingle).1
    exact ha b hb
  · rw [List.concat_eq_append, ← List.cons_append, ← List.append_assoc] at heq
    exact h front c back (List.append_inj' heq rfl).1 b hb

theorem TopoOrdered.mem_of_transGen {l front back : List α} {a b : α} (h : TopoOrdered r l)
    (hl : l = front ++ a :: back) (hab : TransGen r a b) : b ∈ front := by
  induction hab with
  | single hab => exact h front a back hl _ hab
  | tail _ hcb ih =>
    obtain ⟨s, t, rfl⟩ := List.append_of_mem ih
    have hmem := h s _ (t ++ a :: back) (by simpa using hl) _ hcb
    exact List.mem_append_left _ hmem

/-- **What can be put in order has no cycle.** -/
theorem TopoOrdered.acyclic {l : List α} (h : TopoOrdered r l) (hnodup : l.Nodup)
    (hmem : ∀ a b, r a b → a ∈ l) : Acyclic r := by
  intro a ha
  obtain ⟨b, hb, -⟩ := TransGen.head'_iff.1 ha
  obtain ⟨front, back, rfl⟩ := List.append_of_mem (hmem a b hb)
  have hfront := h.mem_of_transGen rfl ha
  exact (List.nodup_append.1 hnodup).2.2 a hfront a List.mem_cons_self rfl

/-- **What has no cycle can be gone through from below.** -/
theorem Acyclic.mem_of_closed {nodes : List α} {s : Set α} (h : Acyclic r)
    (hnodes : ∀ a b, r a b → b ∈ nodes) (hs : ∀ a ∈ nodes, (∀ b, r a b → b ∈ s) → a ∈ s) :
    ∀ a ∈ nodes, a ∈ s := by
  let below (x y : { a // a ∈ nodes }) : Prop := TransGen r y.1 x.1
  have htrans : IsTrans _ below := ⟨fun _ _ _ hxy hyz => TransGen.trans hyz hxy⟩
  have hirrefl : Std.Irrefl below := ⟨fun x hx => h x.1 hx⟩
  have hfinite : Finite { a // a ∈ nodes } := List.finite_toSet nodes
  have hwf : WellFounded below := Finite.wellFounded_of_trans_of_irrefl below
  intro a ha
  refine hwf.induction (C := fun x => x.1 ∈ s) ⟨a, ha⟩ fun x ih => ?_
  exact hs x.1 x.2 fun b hb => ih ⟨b, hnodes _ b hb⟩ (TransGen.single hb)

/-! ## The order in which a queue visits

The chain of an element is its key, after the greatest of the chains of its dependencies, where
chains are compared by length and then from the front. A search that queues an element when the last
of its dependencies is visited, and sorts those it queues together by their keys, visits in the
order of chains. -/

variable {α κ : Type*}

/-! ## Comparing lists -/

/-- By length, and from the front if equally long. -/
def shortlex (l : List κ) : ℕ ×ₗ List κ := toLex (l.length, l)

theorem shortlex_injective : Function.Injective (shortlex : List κ → ℕ ×ₗ List κ) := by
  intro l l' h
  exact congrArg (fun p => (ofLex p).2) h

variable [LinearOrder κ]

theorem shortlex_lt_iff {l l' : List κ} :
    shortlex l < shortlex l' ↔ l.length < l'.length ∨ l.length = l'.length ∧ l < l' :=
  Prod.Lex.toLex_lt_toLex

theorem lt_concat_of_lt {l l' : List κ} (hlen : l.length = l'.length) (h : l < l') (a b : κ) :
    l ++ [a] < l' ++ [b] := by
  induction h with
  | nil => simp at hlen
  | rel hxy => exact List.Lex.rel hxy
  | cons _ ih => exact List.Lex.cons (ih (Nat.succ_injective hlen))

theorem concat_lt_concat (l : List κ) {a b : κ} (h : a < b) : l ++ [a] < l ++ [b] := by
  induction l with
  | nil => exact List.Lex.rel h
  | cons x l ih => exact List.Lex.cons ih

theorem shortlex_concat_of_lt {l l' : List κ} (h : shortlex l < shortlex l') (a b : κ) :
    shortlex (l ++ [a]) < shortlex (l' ++ [b]) := by
  rw [shortlex_lt_iff] at h ⊢
  rw [length_append, length_append]
  rcases h with hlen | ⟨hlen, hlt⟩
  · exact .inl (Nat.add_lt_add_right hlen 1)
  · exact .inr ⟨congrArg (· + 1) hlen, lt_concat_of_lt hlen hlt a b⟩

theorem shortlex_concat_lt_concat (l : List κ) {a b : κ} (h : a < b) :
    shortlex (l ++ [a]) < shortlex (l ++ [b]) :=
  shortlex_lt_iff.2 (.inr ⟨by simp, concat_lt_concat l h⟩)

theorem shortlex_singleton_lt {l : List κ} (h : l ≠ []) (a b : κ) :
    shortlex [a] < shortlex (l ++ [b]) := by
  have := length_pos_iff.2 h
  exact shortlex_lt_iff.2 (.inl (by simpa using this))

/-- The greatest of the lists. -/
def greatest (ls : List (List κ)) : List κ := (ls.argmax shortlex).getD []

theorem greatest_eq {ls : List (List κ)} {l : List κ} (hl : l ∈ ls)
    (hmax : ∀ l' ∈ ls, shortlex l' ≤ shortlex l) : greatest ls = l := by
  unfold greatest
  cases harg : ls.argmax shortlex with
  | none => exact absurd (argmax_eq_none.1 harg) (ne_nil_of_mem hl)
  | some m =>
    have hle := le_of_mem_argmax hl harg
    exact shortlex_injective (le_antisymm (hmax m (argmax_mem harg)) hle)

/-! ## Chains -/

variable (deps : α → List α) (key : α → κ)

/-- The chain of an element, along at most so many dependencies. -/
def chainWithin : Nat → α → List κ
  | 0, a => [key a]
  | n + 1, a => greatest ((deps a).map (chainWithin n)) ++ [key a]

variable {deps key}

theorem chainWithin_of_nil {a : α} (h : deps a = []) (n : Nat) :
    chainWithin deps key n a = [key a] := by
  cases n with
  | zero => rfl
  | succ n =>
    rw [chainWithin, h]
    rfl

theorem deps_of_head {l back : List α} (h : TopoOrdered (fun a b => b ∈ deps a) l) {a : α}
    (hl : l = a :: back) : deps a = [] :=
  eq_nil_iff_forall_not_mem.2 fun d hd => absurd (h [] a back hl d hd) not_mem_nil

/-- There are no more dependencies to follow than elements in front. -/
theorem chainWithin_stable {l : List α} (h : TopoOrdered (fun a b => b ∈ deps a) l) {a : α}
    {front back : List α} (hl : l = front ++ a :: back) {n m : Nat} (hn : front.length ≤ n)
    (hm : front.length ≤ m) : chainWithin deps key n a = chainWithin deps key m a := by
  induction n generalizing front back a m with
  | zero =>
    obtain rfl := length_eq_zero_iff.1 (Nat.le_zero.1 hn)
    have hnil := deps_of_head h hl
    rw [chainWithin_of_nil hnil, chainWithin_of_nil hnil]
  | succ n ih =>
    cases m with
    | zero =>
      obtain rfl := length_eq_zero_iff.1 (Nat.le_zero.1 hm)
      have hnil := deps_of_head h hl
      rw [chainWithin_of_nil hnil, chainWithin_of_nil hnil]
    | succ m =>
      rw [chainWithin]
      congr 2
      refine map_congr_left fun d hd => ?_
      obtain ⟨front', back', rfl⟩ := append_of_mem (h front a back hl d hd)
      have hl' : l = front' ++ d :: (back' ++ a :: back) := by simpa using hl
      rw [length_append, length_cons] at hn hm
      exact ih hl' (by omega) (by omega)

/-- **A chain is the key after the greatest chain of a dependency.** -/
theorem chainWithin_eq {l : List α} (h : TopoOrdered (fun a b => b ∈ deps a) l) {n : Nat}
    (hn : l.length ≤ n) {a : α} (ha : a ∈ l) :
    chainWithin deps key n a = greatest ((deps a).map (chainWithin deps key n)) ++ [key a] := by
  obtain ⟨front, back, hl⟩ := append_of_mem ha
  have hfront : front.length ≤ n := by
    rw [hl, length_append] at hn
    omega
  exact chainWithin_stable (m := n + 1) h hl hfront (Nat.le_succ_of_le hfront)

/-! ## The queue -/

/-- What was visited and queued is in the order of the chains, and everything but the first batch
was put there at the visit of its last dependency. -/
structure ChainSorted (chain : α → List κ) (key : α → κ) (visited queue : List α) : Prop where
  sorted : (visited ++ queue).Pairwise fun a b => shortlex (chain a) < shortlex (chain b)
  origin : ∀ a ∈ visited ++ queue, chain a = [key a] ∨ ∃ b ∈ visited, chain a = chain b ++ [key a]

section

variable {chain : α → List κ} {visited queue batch : List α} {a : α}

theorem chainSorted_start (hkey : batch.Pairwise fun a b => key a < key b)
    (hchain : ∀ a ∈ batch, chain a = [key a]) : ChainSorted chain key [] batch where
  sorted := by
    refine hkey.imp_of_mem fun {a b} ha hb hlt => ?_
    rw [hchain a ha, hchain b hb]
    exact shortlex_concat_lt_concat [] hlt
  origin a ha := .inl (hchain a ha)

theorem ChainSorted.le_head (h : ChainSorted chain key visited (a :: queue)) {b : α}
    (hb : b ∈ visited ++ [a]) : shortlex (chain b) ≤ shortlex (chain a) := by
  rcases mem_append.1 hb with hb | hb
  · exact ((pairwise_append.1 h.sorted).2.2 b hb a mem_cons_self).le
  · rw [mem_singleton.1 hb]

/-- **A visit.** What it puts into the queue comes after everything that is there. -/
theorem ChainSorted.visit (h : ChainSorted chain key visited (a :: queue))
    (hkey : batch.Pairwise fun b c => key b < key c)
    (hchain : ∀ b ∈ batch, chain b = chain a ++ [key b]) :
    ChainSorted chain key (visited ++ [a]) (queue ++ batch) := by
  have hsplit : visited ++ [a] ++ (queue ++ batch) = (visited ++ a :: queue) ++ batch := by simp
  have hmem : a ∈ visited ++ a :: queue := by simp
  have hne : chain a ≠ [] := by
    rcases h.origin a hmem with heq | ⟨b, -, heq⟩ <;> simp [heq]
  refine ⟨?_, ?_⟩
  · rw [hsplit]
    refine pairwise_append.2 ⟨h.sorted, hkey.imp_of_mem fun {b c} hb hc hlt => ?_, ?_⟩
    · rw [hchain b hb, hchain c hc]
      exact shortlex_concat_lt_concat _ hlt
    · intro b hb c hc
      rw [hchain c hc]
      rcases h.origin b hb with heq | ⟨d, hd, heq⟩
      · rw [heq]
        exact shortlex_singleton_lt hne _ _
      · -- it was put there by an earlier visit
        rw [heq]
        have hlt := (pairwise_append.1 h.sorted).2.2 d hd a mem_cons_self
        exact shortlex_concat_of_lt hlt _ _
  · intro b hb
    rw [hsplit] at hb
    rcases mem_append.1 hb with hb | hb
    · refine (h.origin b hb).imp_right ?_
      rintro ⟨d, hd, heq⟩
      exact ⟨d, mem_append_left _ hd, heq⟩
    · exact .inr ⟨a, by simp, hchain b hb⟩

end

/-- In a strictly sorted list the place of an element is that of its value. -/
theorem idxOf_lt_idxOf_iff {β : Type*} [DecidableEq α] [LinearOrder β] {f : α → β} {l : List α}
    (h : l.Pairwise fun a b => f a < f b) {a b : α} (ha : a ∈ l) (hb : b ∈ l) :
    l.idxOf a < l.idxOf b ↔ f a < f b := by
  have hlt : ∀ {x y : α}, x ∈ l → y ∈ l → l.idxOf x < l.idxOf y → f x < f y := by
    intro x y hx hy hxy
    have hget := pairwise_iff_getElem.1 h _ _ (idxOf_lt_length_of_mem hx)
      (idxOf_lt_length_of_mem hy) hxy
    rwa [getElem_idxOf, getElem_idxOf] at hget
  refine ⟨hlt ha hb, fun hab => ?_⟩
  by_contra hle
  rcases (not_lt.1 hle).lt_or_eq with hba | heq
  · exact lt_asymm hab (hlt hb ha hba)
  · rw [idxOf_inj hb] at heq
    simp [heq] at hab

end Haltchain.Lib

import Haltchain.Lib.Run
import Mathlib.Data.Set.Function

/-! # Hash chains

`link e h` is the head after the entry `e` has been put on `h`. If the links that were made are
determined by their results, and none gives the head the chain starts from, the last head determines
all entries and their number. -/

namespace Haltchain.Lib

open List

variable {α β : Type*} (link : α → β → β)

/-- The head after the entries, from the first to the last. -/
def chain (head : β) (entries : List α) : β := run (fun head e => link e head) head entries

theorem chain_concat (head : β) (entries : List α) (e : α) :
    chain link head (entries ++ [e]) = link e (chain link head entries) :=
  run_concat _ head entries e

/-- Each entry with the head it is put on. -/
def links (head : β) : List α → List (α × β)
  | [] => []
  | e :: entries => (e, head) :: links (link e head) entries

theorem links_concat (head : β) (entries : List α) (e : α) : links link head (entries ++ [e])
      = links link head entries ++ [(e, chain link head entries)] := by
  induction entries generalizing head with
  | nil => rfl
  | cons _ entries ih => exact congrArg _ (ih _)

variable {link}

/-- **The head determines the entries.** -/
theorem eq_of_chain_eq (made : Set (α × β)) {start : β}
    (hinj : Set.InjOn (Function.uncurry link) made) (hstart : ∀ p ∈ made, link p.1 p.2 ≠ start)
    {entries entries' : List α} (hmade : ∀ p ∈ links link start entries, p ∈ made)
    (hmade' : ∀ p ∈ links link start entries', p ∈ made)
    (heq : chain link start entries = chain link start entries') : entries = entries' := by
  -- from the end: the last entries and the heads before them are equal
  induction entries using reverseRecOn generalizing entries' with
  | nil =>
    cases entries' using reverseRecOn with
    | nil => rfl
    | append_singleton entries' e' =>
      rw [links_concat] at hmade'
      have hlast' := hmade' _ (mem_append_right _ (.head _))
      rw [chain_concat] at heq
      exact absurd heq.symm (hstart _ hlast')
  | append_singleton entries e ih =>
    rw [links_concat] at hmade
    have hlast := hmade _ (mem_append_right _ (.head _))
    cases entries' using reverseRecOn with
    | nil =>
      rw [chain_concat] at heq
      exact absurd heq (hstart _ hlast)
    | append_singleton entries' e' =>
      rw [links_concat] at hmade'
      have hlast' := hmade' _ (mem_append_right _ (.head _))
      rw [chain_concat, chain_concat] at heq
      obtain ⟨he, hhead⟩ := Prod.mk.inj (hinj hlast hlast' heq)
      rw [he, ih (fun p hp => hmade p (mem_append_left _ hp))
        (fun p hp => hmade' p (mem_append_left _ hp)) hhead]

end Haltchain.Lib

import Mathlib.Data.List.Infix

/-! # Logs made of terms

The logs of leader-based replication, over any type of entries with a term. Each term has one leader
log, `L t`; every other log is a `Lineage` of `L`: up to any of its entries it equals the leader log
of that entry's term, and its terms do not decrease. -/

namespace Haltchain.Lib

open List

variable {E : Type*}

/-! ## Agreement up to a slot -/

/-- The two logs have the same first `n` entries. -/
def AgreeTo (n : Nat) (l m : List E) : Prop := n ≤ l.length ∧ l.take n = m.take n

/-- Among the first `n` slots `l` has an entry that `m` does not have there. -/
def Differs (n : Nat) (l m : List E) : Prop := ∃ k < n, ∃ e, l[k]? = some e ∧ m[k]? ≠ some e

namespace AgreeTo

variable {n k : Nat} {l l' m m' : List E}

theorem length_le (h : AgreeTo n l m) : n ≤ m.length := by
  have hlen := congrArg length h.2
  rw [length_take, length_take, min_eq_left h.1] at hlen
  omega

theorem symm (h : AgreeTo n l m) : AgreeTo n m l := ⟨h.length_le, h.2.symm⟩

theorem trans {o : List E} (h : AgreeTo n l m) (h' : AgreeTo n m o) : AgreeTo n l o :=
  ⟨h.1, h.2.trans h'.2⟩

theorem mono (h : AgreeTo n l m) (hk : k ≤ n) : AgreeTo k l m := by
  refine ⟨hk.trans h.1, ?_⟩
  have heq := congrArg (take k) h.2
  rwa [take_take, take_take, min_eq_left hk] at heq

theorem getElem? (h : AgreeTo n l m) (hk : k < n) : l[k]? = m[k]? := by
  rw [← getElem?_take_of_lt hk, h.2, getElem?_take_of_lt hk]

theorem not_differs (h : AgreeTo n l m) : ¬ Differs n l m := by
  rintro ⟨k, hk, e, hl, hm⟩
  exact hm ((h.getElem? hk).symm.trans hl)

end AgreeTo

theorem agreeTo_zero (l m : List E) : AgreeTo 0 l m := ⟨Nat.zero_le _, by simp⟩

variable {n : Nat}

theorem prefix_agreeTo {l m : List E} (h : l <+: m) (hn : n ≤ l.length) : AgreeTo n l m := by
  obtain ⟨rest, rfl⟩ := h
  exact ⟨hn, (take_append_of_le_length hn).symm⟩

namespace AgreeTo

variable {n : Nat} {l l' m m' : List E}

theorem extend_left (h : AgreeTo n l m) (hp : l <+: l') : AgreeTo n l' m :=
  (prefix_agreeTo hp h.1).symm.trans h

theorem extend_right (h : AgreeTo n l m) (hp : m <+: m') : AgreeTo n l m' :=
  h.trans (prefix_agreeTo hp h.length_le)

end AgreeTo

theorem Differs.extend {l l' m m' : List E} (h : Differs n l m) (hl : l <+: l') (hm : m <+: m')
    (hn : n ≤ m.length) : Differs n l' m' := by
  obtain ⟨k, hk, e, hlk, hmk⟩ := h
  refine ⟨k, hk, e, ?_, ?_⟩
  · obtain ⟨rest, rfl⟩ := hl
    have hlt : k < l.length := (List.getElem?_eq_some_iff.1 hlk).1
    rw [getElem?_append_left hlt]
    exact hlk
  · obtain ⟨rest, rfl⟩ := hm
    rw [getElem?_append_left (by omega)]
    exact hmk

/-! ## Lineages -/

section

variable (term : E → Nat)

/-- The term of the last entry, zero for the empty log. -/
def lastTerm (l : List E) : Nat := (l.getLast?.map term).getD 0

/-- Up to each entry `l` is the leader log of that entry's term, and terms do not decrease. -/
structure Lineage (L : Nat → List E) (l : List E) : Prop where
  rooted : ∀ k e, l[k]? = some e → l.take (k + 1) = (L (term e)).take (k + 1)
  ordered : l.Pairwise (fun a b => term a ≤ term b)

variable {term} {L L' : Nat → List E} {l m : List E}

theorem lastTerm_of_ne_nil (term : E → Nat) (h : l ≠ []) :
    ∃ e, l[l.length - 1]? = some e ∧ term e = lastTerm term l := by
  refine ⟨l.getLast h, ?_, ?_⟩
  · rw [← getLast?_eq_getElem?, getLast?_eq_some_getLast h]
  · unfold lastTerm
    rw [getLast?_eq_some_getLast h]
    rfl

theorem lastTerm_concat (l : List E) (e : E) : lastTerm term (l ++ [e]) = term e := by
  unfold lastTerm
  rw [getLast?_concat]
  rfl

theorem lineage_nil : Lineage term L [] := ⟨fun k e h => absurd h (by simp), List.Pairwise.nil⟩

variable {e : E}

namespace Lineage

variable {k : Nat}

section

variable (h : Lineage term L l)

include h

theorem le_of_le {j : Nat} {a b : E} (hjk : j ≤ k) (ha : l[j]? = some a) (hb : l[k]? = some b) :
    term a ≤ term b := by
  obtain ⟨hj, rfl⟩ := List.getElem?_eq_some_iff.1 ha
  obtain ⟨hk, rfl⟩ := List.getElem?_eq_some_iff.1 hb
  rcases Nat.lt_or_eq_of_le hjk with hlt | rfl
  · exact pairwise_iff_getElem.1 h.ordered j k hj hk hlt
  · exact le_rfl

/-- An entry of a larger term sits further up. -/
theorem lt_of_term_lt {j : Nat} {a b : E} (ha : l[j]? = some a) (hb : l[k]? = some b)
    (hlt : term a < term b) : j < k := by
  by_contra hge
  have hle := h.le_of_le (by omega) hb ha
  omega

theorem le_lastTerm (he : l[k]? = some e) : term e ≤ lastTerm term l := by
  have hk : k < l.length := (List.getElem?_eq_some_iff.1 he).1
  have hne : l ≠ [] := ne_nil_of_length_pos (by omega)
  obtain ⟨x, hx, hterm⟩ := lastTerm_of_ne_nil term hne
  rw [← hterm]
  exact h.le_of_le (by omega) he hx

theorem take (n : Nat) : Lineage term L (l.take n) := by
  refine ⟨fun k e he => ?_, h.ordered.sublist (take_sublist n l)⟩
  rw [getElem?_take] at he
  split at he
  · rw [take_take, min_eq_left (by omega)]
    exact h.rooted k e he
  · simp at he

theorem mono (hL : ∀ t, L t <+: L' t) : Lineage term L' l := by
  refine ⟨fun k e he => ?_, h.ordered⟩
  have hk : k < l.length := (List.getElem?_eq_some_iff.1 he).1
  have hagree : AgreeTo (k + 1) l (L (term e)) := ⟨hk, h.rooted k e he⟩
  exact (hagree.extend_right (hL _)).2

theorem concat (hle : ∀ x ∈ l, term x ≤ term e) (he : L (term e) = l ++ [e]) :
    Lineage term L (l ++ [e]) := by
  refine ⟨fun k x hx => ?_, ?_⟩
  · by_cases hk : k < l.length
    · rw [getElem?_append_left hk] at hx
      rw [take_append_of_le_length hk]
      exact h.rooted k x hx
    · rw [getElem?_append_right (by omega), getElem?_singleton] at hx
      split at hx
      · cases hx
        rw [he]
      · simp at hx
  · rw [pairwise_append]
    refine ⟨h.ordered, pairwise_singleton _ _, fun a ha b hb => ?_⟩
    rw [mem_singleton.1 hb]
    exact hle a ha

end

/-- **Log matching**: entries of one slot and term have the same history. -/
theorem matching (hl : Lineage term L l) (hm : Lineage term L m) {a b : E} (ha : l[k]? = some a)
    (hb : m[k]? = some b) (hab : term a = term b) : AgreeTo (k + 1) l m := by
  have hk : k < l.length := (List.getElem?_eq_some_iff.1 ha).1
  exact ⟨hk, by rw [hl.rooted k a ha, hm.rooted k b hb, hab]⟩

/-- A log is a prefix of the leader log of its last term. -/
theorem prefix_lastTerm (h : Lineage term L l) (hne : l ≠ []) : l <+: L (lastTerm term l) := by
  obtain ⟨e, he, hterm⟩ := lastTerm_of_ne_nil term hne
  have hlen : 0 < l.length := length_pos_of_ne_nil hne
  have hroot := h.rooted _ e he
  rw [Nat.sub_add_cancel hlen, take_length, hterm] at hroot
  exact prefix_iff_eq_take.2 hroot

/-- A log with an entry of term `t` and none above is a prefix of `t`'s leader log. -/
theorem prefix_of_le (h : Lineage term L l) {t : Nat} (he : l[k]? = some e) (hterm : term e = t)
    (hle : ∀ x ∈ l, term x ≤ t) : l <+: L t := by
  have hk : k < l.length := (List.getElem?_eq_some_iff.1 he).1
  have hne : l ≠ [] := ne_nil_of_length_pos (by omega)
  obtain ⟨x, hx, hlast⟩ := lastTerm_of_ne_nil term hne
  have hlow := h.le_lastTerm he
  have hhigh := hle x (mem_of_getElem? hx)
  have ht : lastTerm term l = t := by omega
  rw [← ht]
  exact h.prefix_lastTerm hne

end Lineage

/-! ## Later leaders -/

/-- A leader log that ends in its own later term has the first `n` entries of `m` or differs. -/
theorem agree_or_differs {t u : Nat} (hm : Lineage term L m) (hne : l ≠ [])
    (hlast : lastTerm term l = u) (htu : t < u) (he : m[n - 1]? = some e) (hterm : term e = t) :
    AgreeTo n l m ∨ Differs n l m := by
  by_cases hd : Differs n l m
  · exact .inr hd
  left
  have hsame : ∀ k x, k < n → l[k]? = some x → m[k]? = some x := by
    intro k x hk hx
    by_contra hmx
    exact hd ⟨k, hk, x, hx, hmx⟩
  have hlen : n ≤ l.length := by
    -- otherwise the last entry of `l`, of the later term, sits below one of the earlier term
    by_contra hlt
    obtain ⟨x, hx, hxterm⟩ := lastTerm_of_ne_nil term hne
    have hmx := hsame _ x (by omega) hx
    have hle := hm.le_of_le (by omega) hmx he
    omega
  refine ⟨hlen, ext_getElem? fun k => ?_⟩
  by_cases hk : k < n
  · rw [getElem?_take_of_lt hk, getElem?_take_of_lt hk]
    have hx : l[k]? = some (l.get ⟨k, by omega⟩) := getElem?_eq_getElem (by omega)
    rw [hx, hsame k _ hk hx]
  · rw [getElem?_take_eq_none (by omega), getElem?_take_eq_none (by omega)]

/-- The comparison a voter makes between its own log and the candidate's. -/
def UpToDate (term : E → Nat) (candidate voter : List E) : Prop :=
  lastTerm term voter < lastTerm term candidate ∨
    (lastTerm term candidate = lastTerm term voter ∧ voter.length ≤ candidate.length)

/-- **What a voter has, an up-to-date candidate has**, unless the leader of a term in between lacks
it: then the candidate's last entry is that leader's. -/
theorem UpToDate.agree_or_differs {t : Nat} {voter candidate : List E}
    (hup : UpToDate term candidate voter) (hv : Lineage term L voter)
    (hc : Lineage term L candidate) (hL : ∀ u, Lineage term L (L u))
    (hlast : ∀ u, L u ≠ [] → lastTerm term (L u) = u) (hn : 1 ≤ n) (he : (L t)[n - 1]? = some e)
    (hterm : term e = t) (hagree : AgreeTo n voter (L t)) : AgreeTo n candidate (L t) ∨
      ∃ u, t < u ∧ u ≤ lastTerm term candidate ∧ Differs n (L u) (L t) := by
  have hve : voter[n - 1]? = some e := by rw [hagree.getElem? (by omega), he]
  have hvlast : t ≤ lastTerm term voter := hterm ▸ hv.le_lastTerm hve
  have hvne : voter ≠ [] := by
    rintro rfl
    simp at hve
  rcases hup with hlt | ⟨heq, hlen⟩
  · -- the candidate's last entry is of a later leader
    have hcne : candidate ≠ [] := by
      rintro rfl
      simp [lastTerm] at hlt
    have hpre := hc.prefix_lastTerm hcne
    have hLne : L (lastTerm term candidate) ≠ [] := fun hnil => by
      rw [hnil] at hpre
      exact hcne (prefix_nil.1 hpre)
    rcases Lib.agree_or_differs (hL t) hLne (hlast _ hLne) (by omega : t < _) he hterm with ha | hd
    · left
      obtain ⟨x, hx, hxterm⟩ := lastTerm_of_ne_nil term hcne
      obtain ⟨rest, hrest⟩ := hpre
      have hxL : (L (lastTerm term candidate))[candidate.length - 1]? = some x := by
        have hxlt : candidate.length - 1 < candidate.length := (List.getElem?_eq_some_iff.1 hx).1
        rw [← hrest, getElem?_append_left hxlt]
        exact hx
      have heL : (L (lastTerm term candidate))[n - 1]? = some e := by
        rw [ha.getElem? (by omega), he]
      have hpos := (hL _).lt_of_term_lt heL hxL (by omega)
      exact (prefix_agreeTo ⟨rest, hrest⟩ (by omega)).trans ha
    · exact .inr ⟨_, by omega, le_rfl, hd⟩
  · -- both end in the same term, so the voter's log is a prefix of the candidate's
    left
    have hcne : candidate ≠ [] := by
      rintro rfl
      exact hvne (length_eq_zero_iff.1 (by simpa using hlen))
    have hvp := hv.prefix_lastTerm hvne
    have hcp := hc.prefix_lastTerm hcne
    rw [heq] at hcp
    exact hagree.extend_left (prefix_of_prefix_length_le hvp hcp hlen)

end

/-! ## Leader completeness -/

/-- **A chosen entry is in every later leader log.** `chosen` is what a quorum holds in term `t`;
whoever holds it and votes later has checked that the candidate has it, unless a leader in between
lacks it; and every leader log extends that of a candidate with a quorum of votes. -/
theorem leader_completeness {N : Type*} {L : Nat → List E} (candidateLog : Nat → N → List E)
    (votes : N → N → Nat → Prop) {holds : N → Prop} (IsQuorum : (N → Prop) → Prop) {t : Nat}
    (hmeet : ∀ P Q, IsQuorum P → IsQuorum Q → ∃ q, P q ∧ Q q) (hchosen : IsQuorum holds)
    (hvote : ∀ q i u, votes q i u → holds q → t < u → AgreeTo n (candidateLog u i) (L t) ∨ ∃ u', t
      < u' ∧ u' < u ∧ Differs n (L u') (L t))
    (helected : ∀ u, L u ≠ [] → ∃ i, candidateLog u i <+: L u ∧ IsQuorum (fun q => votes q i u)) :
    ∀ u, t < u → L u ≠ [] → AgreeTo n (L u) (L t) := by
  intro u
  induction u using Nat.strong_induction_on with
  | _ u ih =>
    intro htu hne
    obtain ⟨i, hpre, hquorum⟩ := helected u hne
    obtain ⟨q, hq, hholds⟩ := hmeet _ _ hquorum hchosen
    rcases hvote q i u hq hholds htu with hagree | ⟨u', htu', hu', hd⟩
    · exact hagree.extend_left hpre
    -- a leader in between that lacks the entry contradicts the induction hypothesis
    have hne' : L u' ≠ [] := by
      obtain ⟨k, -, e, he, -⟩ := hd
      intro hnil
      rw [hnil] at he
      simp at he
    exact absurd hd (ih u' hu' htu' hne').not_differs

end Haltchain.Lib

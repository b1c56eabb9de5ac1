import Haltchain.Lib.SortByKey
import Haltchain.Rules.Enforcement
import Mathlib.Data.String.Basic

/-! # The order of the rules in the file

`topo_sort` goes through hash maps and lists whose order is that of the file or of nothing at
all. None of this is left in its result: rules that become ready together are sorted by priority
and id. -/

namespace Haltchain.Rules

open List Function

/-! ## The batches

A batch is sorted by a key in which no two ids agree. -/

/-- What the rules of a batch are sorted by. -/
def sortKey (rules : List Rule) (id : String) : Nat ×ₗ String :=
  toLex (((idToRule rules id).map fun r => r.priority.rank).getD 0, id)

theorem sortKey_injective (rules : List Rule) : Function.Injective (sortKey rules) := by
  intro a b h
  exact congrArg (fun k => (ofLex k).2) h

theorem before_eq {rules : List Rule} {a b : String} (ha : a ∈ rules.map Rule.id)
    (hb : b ∈ rules.map Rule.id) :
    before rules a b = decide (sortKey rules a ≤ sortKey rules b) := by
  obtain ⟨r, -, -, hr⟩ := idToRule_of_mem ha
  obtain ⟨r', -, -, hr'⟩ := idToRule_of_mem hb
  unfold before sortKey
  rw [hr, hr']
  simp [Prod.Lex.toLex_le_toLex, Priority.rank_injective.eq_iff, -String.lt_iff_ltb]

section

variable {rules : List Rule} {l : List String}

theorem mergeSort_before (h : ∀ id ∈ l, id ∈ rules.map Rule.id) : l.mergeSort (before rules) =
      l.mergeSort fun a b => decide (sortKey rules a ≤ sortKey rules b) := by
  have hmap := map_mergeSort (f := id) (l := l) (r := before rules)
    (s := fun a b => decide (sortKey rules a ≤ sortKey rules b))
    fun a ha b hb => before_eq (h a ha) (h b hb)
  rwa [map_id, map_id] at hmap

theorem pairwise_batch (h : ∀ id ∈ l, id ∈ rules.map Rule.id) :
    (l.mergeSort (before rules)).Pairwise fun a b => sortKey rules a ≤ sortKey rules b := by
  rw [mergeSort_before h]
  exact Lib.pairwise_sortByKey (sortKey rules) l

/-- **The order in which a batch is collected is irrelevant.** -/
theorem batch_perm (rules : List Rule) {l l' : List String} (h : ∀ id ∈ l, id ∈ rules.map Rule.id)
    (hperm : l.Perm l') : l.mergeSort (before rules) = l'.mergeSort (before rules) := by
  have h' : ∀ id ∈ l', id ∈ rules.map Rule.id := fun id hid => h id (hperm.mem_iff.2 hid)
  refine List.Perm.eq_of_pairwise (fun a b _ _ hab hba => ?_) (pairwise_batch h)
    (pairwise_batch h') ?_
  · exact sortKey_injective rules (le_antisymm hab hba)
  · exact (mergeSort_perm l _).trans (hperm.trans (mergeSort_perm l' _).symm)

end

/-- An id becomes ready once, if the counters cover its dependencies. -/
theorem nodup_settle {visited ds : List String} {deg : String → Nat}
    (hdeg : ∀ d, ds.count d ≤ deg d) : (settle visited ds deg).1.Nodup := by
  induction ds generalizing deg with
  | nil => exact nodup_nil
  | cons x ds ih =>
    have hx := hdeg x
    rw [count_cons_self] at hx
    have hrest : ∀ d, ds.count d ≤ update deg x (deg x - 1) d := by
      intro d
      by_cases heq : d = x
      · rw [heq, update_self]
        omega
      · have hd := hdeg d
        rw [count_cons_of_ne (Ne.symm heq)] at hd
        rwa [update_of_ne heq]
    rw [settle]
    dsimp only
    split
    · rename_i hready
      rw [update_self] at hready
      refine nodup_cons.2 ⟨fun hmem => ?_, ih hrest⟩
      -- it would have to come once more, and there is nothing left to count
      have hpos := count_pos_iff.2 (mem_settle.1 hmem).1
      omega
    · exact ih hrest

theorem settle_perm (visited : List String) {ds ds' : List String} {deg : String → Nat}
    (hperm : ds.Perm ds') (hdeg : ∀ d, ds.count d ≤ deg d) :
    (settle visited ds deg).1.Perm (settle visited ds' deg).1 ∧
      (settle visited ds deg).2 = (settle visited ds' deg).2 := by
  constructor
  · refine (perm_ext_iff_of_nodup (nodup_settle hdeg) (nodup_settle fun d => ?_)).2 fun d => ?_
    · rw [← hperm.count_eq]
      exact hdeg d
    · rw [mem_settle, mem_settle, hperm.mem_iff, hperm.count_eq]
  · funext d
    rw [settle_degree, settle_degree, hperm.count_eq]

/-! ## Two files with the same rules -/

section

variable {rules rules' : List Rule} (hids : (rules.map Rule.id).Nodup)
  (hperm : rules.Perm rules')

include hids in
theorem idToRule_eq_some {id : String} {r : Rule} :
    idToRule rules id = some r ↔ r ∈ rules ∧ r.id = id := by
  constructor
  · intro h
    have hid := find?_some h
    exact ⟨mem_reverse.1 (mem_of_find?_eq_some h), of_decide_eq_true hid⟩
  · rintro ⟨hr, rfl⟩
    obtain ⟨r', hr', hid, hfind⟩ := idToRule_of_mem (mem_map_of_mem hr)
    rw [hfind, inj_on_of_nodup_map hids hr' hr hid]

include hperm

theorem edges_perm : (edges rules).Perm (edges rules') :=
  hperm.flatMap_right _

theorem dependents_perm (dep : String) : (dependents rules dep).Perm (dependents rules' dep) :=
  ((edges_perm hperm).filter _).map _

theorem inDegree_perm : inDegree rules = inDegree rules' :=
  funext fun _ => ((edges_perm hperm).filter _).length_eq

theorem depsKnown_perm : DepsKnown rules ↔ DepsKnown rules' := by
  unfold DepsKnown
  simp only [hperm.mem_iff, (hperm.map Rule.id).mem_iff]

include hids

theorem idToRule_perm : idToRule rules = idToRule rules' := by
  funext id
  refine Option.ext fun r => ?_
  rw [idToRule_eq_some hids, idToRule_eq_some ((hperm.map Rule.id).nodup_iff.1 hids), hperm.mem_iff]

theorem before_perm : before rules = before rules' := by
  funext a b
  rw [before, before, idToRule_perm hids hperm]

theorem seeds_perm : seeds rules = seeds rules' := by
  unfold seeds
  rw [← before_perm hids hperm, ← inDegree_perm hperm]
  refine batch_perm rules (fun id hid => ?_) ((hperm.map Rule.id).dedup.filter _)
  exact mem_dedup.1 (mem_filter.1 hid).1

theorem Kahn.Sound.step_perm {k : Kahn} (h : k.Sound rules) : k.step rules = k.step rules' := by
  unfold Kahn.step
  split
  · rfl
  rename_i id queue hqueue
  dsimp only
  split
  · rfl
  rename_i hid
  have hcount : ∀ d, (dependents rules id).count d ≤ k.inDegree d := by
    intro d
    have hpending := pending_concat rules hid d
    rw [h.degree]
    omega
  obtain ⟨hready, hdegree⟩ :=
    settle_perm (k.visited ++ [id]) (dependents_perm hperm id) hcount
  have hbatch := batch_perm rules (fun d hd => mem_ids_of_dependents (mem_settle.1 hd).1) hready
  rw [hbatch, hdegree, before_perm hids hperm, idToRule_perm hids hperm]

theorem Kahn.iterate_perm (n : Nat)
    {k : Kahn} (h : k.Sound rules) : (Kahn.step rules)^[n] k = (Kahn.step rules')^[n] k := by
  induction n generalizing k with
  | zero => rfl
  | succ n ih =>
    rw [iterate_succ_apply, iterate_succ_apply, ih h.step, h.step_perm hids hperm]

theorem Kahn.finish_perm : Kahn.finish rules = Kahn.finish rules' := by
  have hstart : Kahn.start rules = Kahn.start rules' := by
    rw [Kahn.start, Kahn.start, seeds_perm hids hperm, inDegree_perm hperm]
  unfold Kahn.finish
  rw [Kahn.iterate_perm hids hperm _ (Kahn.sound_start rules), hstart, seeds_perm hids hperm,
    (edges_perm hperm).length_eq]

theorem topoSort_perm
    (sorted : List Rule) : topoSort rules = .ok sorted ↔ topoSort rules' = .ok sorted := by
  rw [topoSort_eq_ok, topoSort_eq_ok, depsKnown_perm hperm, Kahn.finish_perm hids hperm,
    hperm.length_eq]

end

/-- **The order of the rules in the file is irrelevant.** Both files build an evaluator or neither
does, and these answer every request alike. -/
theorem new_of_perm (regex : RegexBuilder) (pf : PolicyFile) (rules' : List Rule)
    (hids : (pf.rules.map Rule.id).Nodup) (hperm : pf.rules.Perm rules') :
    ((∃ ev, RuleEvaluator.new regex pf = .ok ev) ↔
      ∃ ev, RuleEvaluator.new regex { pf with rules := rules' } = .ok ev) ∧
    ∀ ev ev', RuleEvaluator.new regex pf = .ok ev →
      RuleEvaluator.new regex { pf with rules := rules' } = .ok ev' →
        ∀ ctx, ev.evaluate regex ctx = ev'.evaluate regex ctx := by
  have henabled : pf.enabled.Perm ({ pf with rules := rules' } : PolicyFile).enabled :=
    hperm.filter _
  have hdistinct := PolicyFile.nodup_enabled hids
  have hsame : ∀ ev, RuleEvaluator.new regex pf = .ok ev ↔
      RuleEvaluator.new regex { pf with rules := rules' } = .ok ev := by
    intro ev
    rw [new_eq_ok, new_eq_ok, topoSort_perm hdistinct henabled]
    simp only [henabled.mem_iff]
  refine ⟨exists_congr hsame, fun ev ev' hev hev' ctx => ?_⟩
  rw [(hsame ev).1 hev] at hev'
  rw [Except.ok.inj hev']

theorem flag_both_in_either_order :
    let reversed : PolicyFile := { flagBoth with rules := flagBoth.rules.reverse }
    (∃ ev, RuleEvaluator.new (fun _ => none) reversed = .ok ev) ∧
      ∀ ev ev', RuleEvaluator.new (fun _ => none) flagBoth = .ok ev →
        RuleEvaluator.new (fun _ => none) reversed = .ok ev' →
          ev.evaluate (fun _ => none) smallTransfer =
            ev'.evaluate (fun _ => none) smallTransfer := by
  have hnew : RuleEvaluator.new (fun _ => none) flagBoth =
      .ok ⟨[ruleFor "a" [], ruleFor "b" ["a"]], some 2, false⟩ := by decide +kernel
  obtain ⟨hiff, hsame⟩ := new_of_perm (fun _ => none) flagBoth flagBoth.rules.reverse
    (by decide +kernel) (reverse_perm _).symm
  exact ⟨hiff.1 ⟨_, hnew⟩, fun ev ev' h h' => hsame ev ev' h h' smallTransfer⟩

end Haltchain.Rules

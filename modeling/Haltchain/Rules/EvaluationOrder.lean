import Haltchain.Rules.FileOrder

/-! # The order of evaluation

`topo_sort` sorts by priority only what becomes ready together: a rule comes after all rules with a
shorter chain of dependencies. The documentation of `evaluate` says that safety rules always run
first. -/

namespace Haltchain.Rules

open Lib List

/-- What the rule with the id depends on. -/
def depsOf (rules : List Rule) (id : String) : List String :=
  ((idToRule rules id).map Rule.dependsOn).getD []

/-- The key of the rule, after the greatest chain of its dependencies. -/
def chainOf (rules : List Rule) (id : String) : List (Nat ×ₗ String) :=
  chainWithin (depsOf rules) (sortKey rules) rules.length id

section

variable {rules : List Rule}

theorem mem_depsOf (hids : (rules.map Rule.id).Nodup) {a b : String} :
    b ∈ depsOf rules a ↔ DependsOn rules a b := by
  unfold depsOf DependsOn
  cases hfind : idToRule rules a with
  | none =>
    simp only [Option.map_none, Option.getD_none, not_mem_nil, false_iff]
    rintro ⟨r, hr, hid, -⟩
    rw [(idToRule_eq_some hids).2 ⟨hr, hid⟩] at hfind
    simp at hfind
  | some r =>
    obtain ⟨hr, hid⟩ := (idToRule_eq_some hids).1 hfind
    refine ⟨fun hb => ⟨r, hr, hid, hb⟩, ?_⟩
    rintro ⟨r', hr', hid', hb⟩
    rwa [inj_on_of_nodup_map hids hr hr' (hid.trans hid'.symm)]

variable {sorted : List Rule}

theorem chainOf_eq (hids : (rules.map Rule.id).Nodup) (hsort : topoSort rules = .ok sorted)
    {id : String} (hid : id ∈ rules.map Rule.id) :
    chainOf rules id = greatest ((depsOf rules id).map (chainOf rules)) ++ [sortKey rules id] := by
  have hperm := (perm_of_topoSort hsort).map Rule.id
  have hordered : TopoOrdered (fun a b => b ∈ depsOf rules a) (sorted.map Rule.id) :=
    fun front a back hl b hb =>
      topoOrdered_of_topoSort hsort front a back hl b ((mem_depsOf hids).1 hb)
  refine chainWithin_eq hordered ?_ (hperm.mem_iff.2 hid)
  rw [hperm.length_eq, length_map]

theorem pairwise_batch_lt {l : List String} (h : ∀ id ∈ l, id ∈ rules.map Rule.id)
    (hnodup : l.Nodup) :
    (l.mergeSort (before rules)).Pairwise fun a b => sortKey rules a < sortKey rules b := by
  have hne : (l.mergeSort (before rules)).Pairwise (· ≠ ·) :=
    (mergeSort_perm l _).nodup_iff.2 hnodup
  exact ((pairwise_batch h).and hne).imp fun ⟨hle, hab⟩ =>
    hle.lt_of_ne fun heq => hab (sortKey_injective rules heq)

theorem nodup_dependents_settle {k : Kahn} (h : k.Sound rules) {id : String}
    (hid : id ∉ k.visited) :
    (settle (k.visited ++ [id]) (dependents rules id) k.inDegree).1.Nodup := by
  refine nodup_settle fun d => ?_
  have hpending := pending_concat rules hid d
  rw [h.degree]
  omega

section

variable (hids : (rules.map Rule.id).Nodup)

include hids

/-- A rule that becomes ready has the last visited rule's chain below it. -/
theorem chainOf_ready (hsort : topoSort rules = .ok sorted) {k : Kahn} (h : k.Sound rules)
    {id : String} {queue : List String}
    (hchain : ChainSorted (chainOf rules) (sortKey rules) k.visited (id :: queue))
    (hid : id ∉ k.visited) {d : String}
    (hd : d ∈ (settle (k.visited ++ [id]) (dependents rules id) k.inDegree).1) :
    chainOf rules d = chainOf rules id ++ [sortKey rules d] := by
  obtain ⟨hdep, hzero, -⟩ := (mem_settle_dependents h.degree hid).1 hd
  rw [chainOf_eq hids hsort (mem_ids_of_dependents hdep)]
  congr 1
  refine greatest_eq (mem_map_of_mem ((mem_depsOf hids).2 ?_)) fun l hl => ?_
  · obtain ⟨e, he, rfl⟩ := mem_map.1 hdep
    obtain ⟨hmem, heq⟩ := mem_filter.1 he
    rw [← of_decide_eq_true heq]
    exact mem_edges.1 hmem
  · obtain ⟨b, hb, rfl⟩ := mem_map.1 hl
    exact hchain.le_head (pending_eq_zero.1 hzero b ((mem_depsOf hids).1 hb))

/-- The search visits in the order of the chains. -/
theorem chainSorted_step (hsort : topoSort rules = .ok sorted) {k : Kahn} (h : k.Sound rules)
    (hchain : ChainSorted (chainOf rules) (sortKey rules) k.visited k.queue) :
    ChainSorted (chainOf rules) (sortKey rules) (k.step rules).visited (k.step rules).queue := by
  unfold Kahn.step
  split
  · exact hchain
  rename_i id queue hqueue
  rw [hqueue] at hchain
  have hid : id ∉ k.visited := fun hmem =>
    lt_irrefl _ ((pairwise_append.1 hchain.sorted).2.2 id hmem id mem_cons_self)
  rw [if_neg hid]
  refine hchain.visit (pairwise_batch_lt ?_ (nodup_dependents_settle h hid)) fun d hd => ?_
  · exact fun d hd => mem_ids_of_dependents (mem_settle.1 hd).1
  · exact chainOf_ready hids hsort h hchain hid (mem_mergeSort.1 hd)

theorem chainSorted_seeds : ChainSorted (chainOf rules) (sortKey rules) [] (seeds rules) := by
  refine chainSorted_start (pairwise_batch_lt (fun id hid => ?_) ?_) fun id hid => ?_
  · exact mem_dedup.1 (mem_filter.1 hid).1
  · exact (nodup_dedup _).filter _
  · obtain ⟨hmem, hzero⟩ := mem_seeds.1 hid
    rw [inDegree_eq_pending] at hzero
    have hnil : depsOf rules id = [] := eq_nil_iff_forall_not_mem.2 fun d hd =>
      absurd (pending_eq_zero.1 hzero d ((mem_depsOf hids).1 hd)) not_mem_nil
    exact chainWithin_of_nil hnil _

/-- **The rules are sorted by their chains.** -/
theorem pairwise_chainOf (hsort : topoSort rules = .ok sorted) :
    sorted.Pairwise fun a b => shortlex (chainOf rules a.id) < shortlex (chainOf rules b.id) := by
  have hrun : ∀ n, ((Kahn.step rules)^[n] (Kahn.start rules)).Sound rules ∧
      ChainSorted (chainOf rules) (sortKey rules)
        ((Kahn.step rules)^[n] (Kahn.start rules)).visited
        ((Kahn.step rules)^[n] (Kahn.start rules)).queue := by
    intro n
    induction n with
    | zero => exact ⟨Kahn.sound_start rules, chainSorted_seeds hids⟩
    | succ n ih =>
      rw [Function.iterate_succ_apply']
      exact ⟨ih.1.step, chainSorted_step hids hsort ih.1 ih.2⟩
  obtain ⟨-, -, rfl⟩ := topoSort_eq_ok.1 hsort
  have hsorted := (hrun ((seeds rules).length + (edges rules).length)).2.sorted
  rw [← Kahn.finish, Kahn.finish_queue, append_nil, ← (Kahn.sound_finish rules).order,
    pairwise_map] at hsorted
  exact hsorted

end

end

/-- The first rule, with all it depends on, has the higher priority. So it does not depend on the
second. -/
def Outranks (rules : List Rule) (a b : Rule) : Prop :=
  a.priority.rank < b.priority.rank ∧
    ∀ c ∈ rules, Relation.TransGen (DependsOn rules) a.id c.id →
      c ≠ b ∧ c.priority.rank < b.priority.rank

/-- Without dependencies the priorities decide. -/
theorem outranks_of_nil {rules : List Rule} (hids : (rules.map Rule.id).Nodup) {a b : Rule}
    (hnil : depsOf rules a.id = []) (hlt : a.priority.rank < b.priority.rank) :
    Outranks rules a b := by
  refine ⟨hlt, fun c _ hpath => ?_⟩
  obtain ⟨d, hd, -⟩ := Relation.TransGen.head'_iff.1 hpath
  rw [← mem_depsOf hids, hnil] at hd
  exact absurd hd not_mem_nil

/-- **When the more important rule is evaluated first**: exactly if its chain comes first. -/
theorem outranking_first_iff {regex : RegexBuilder} {pf : PolicyFile} {ev : RuleEvaluator}
    (hids : (pf.rules.map Rule.id).Nodup) (hnew : RuleEvaluator.new regex pf = .ok ev)
    {a b : Rule} (ha : a ∈ pf.enabled) (hb : b ∈ pf.enabled) :
    (Outranks pf.enabled a b → ev.rules.idxOf a < ev.rules.idxOf b) ↔
      (Outranks pf.enabled a b →
        shortlex (chainOf pf.enabled a.id) < shortlex (chainOf pf.enabled b.id)) := by
  have hsort := (of_new hnew).1
  have hperm := perm_of_topoSort hsort
  have hsorted := pairwise_chainOf (PolicyFile.nodup_enabled hids) hsort
  rw [idxOf_lt_idxOf_iff hsorted (hperm.mem_iff.2 ha) (hperm.mem_iff.2 hb)]

/-- A business rule without dependencies. -/
def shopRule : Rule := { ruleFor "shop" [] with priority := .business }

/-- Two safety rules, one depending on the other, and a business rule. -/
def lateSafety : PolicyFile :=
  ⟨"1", [ruleFor "base" [], ruleFor "late" ["base"], shopRule], none, .enforce⟩

theorem new_lateSafety : RuleEvaluator.new (fun _ => none) lateSafety =
    .ok ⟨[ruleFor "base" [], shopRule, ruleFor "late" ["base"]], none, false⟩ := by
  have hseeds : seeds lateSafety.enabled = ["base", "shop"] :=
    mergeSort_of_pairwise (by decide +kernel)
  have hfinish : Kahn.finish lateSafety.enabled = (Kahn.step lateSafety.enabled)^[3]
      ⟨["base", "shop"], inDegree lateSafety.enabled, [], []⟩ := by
    rw [Kahn.finish, Kahn.start, hseeds]
    rfl
  have horder : (Kahn.finish lateSafety.enabled).order =
      [ruleFor "base" [], shopRule, ruleFor "late" ["base"]] := by
    rw [hfinish]
    decide +kernel
  refine new_eq_ok.2 ⟨by decide +kernel, topoSort_eq_ok.2 ⟨?_, ?_, horder.symm⟩, rfl, rfl⟩
  · unfold DepsKnown
    decide +kernel
  · rw [horder]
    rfl

/-- The business rule comes before the safety rule that depends on a safety rule. -/
theorem business_before_safety :
    let late := ruleFor "late" ["base"]
    let ev : RuleEvaluator := ⟨[ruleFor "base" [], shopRule, late], none, false⟩
    RuleEvaluator.new (fun _ => none) lateSafety = .ok ev ∧
      Outranks lateSafety.enabled late shopRule ∧
      ev.rules.idxOf shopRule < ev.rules.idxOf late := by
  have hids : (lateSafety.enabled.map Rule.id).Nodup := by decide +kernel
  have hlate : depsOf lateSafety.enabled "late" = ["base"] := by decide +kernel
  have hbase : depsOf lateSafety.enabled "base" = [] := by decide +kernel
  have hfirst : ∀ c ∈ lateSafety.enabled, "base" = c.id →
      c ≠ shopRule ∧ c.priority.rank < shopRule.priority.rank := by decide +kernel
  refine ⟨new_lateSafety, ⟨by decide, fun c hc hpath => ?_⟩, by decide +kernel⟩
  obtain ⟨b, hb, hpath⟩ := Relation.TransGen.head'_iff.1 hpath
  rw [← mem_depsOf hids, ruleFor, hlate, mem_singleton] at hb
  subst hb
  rcases Relation.ReflTransGen.cases_head hpath with heq | ⟨d, hd, -⟩
  · exact hfirst c hc heq
  · rw [← mem_depsOf hids, hbase] at hd
    exact absurd hd not_mem_nil

theorem base_before_shop :
    let base := ruleFor "base" []
    let ev : RuleEvaluator := ⟨[base, shopRule, ruleFor "late" ["base"]], none, false⟩
    Outranks lateSafety.enabled base shopRule ∧ ev.rules.idxOf base < ev.rules.idxOf shopRule := by
  have houtranks : Outranks lateSafety.enabled (ruleFor "base" []) shopRule :=
    outranks_of_nil (by decide +kernel) (by decide +kernel) (by decide)
  refine ⟨houtranks, (outranking_first_iff ?_ new_lateSafety ?_ ?_).2 (fun _ => ?_) houtranks⟩ <;>
    decide +kernel

end Haltchain.Rules

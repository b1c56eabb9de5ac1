import Haltchain.Lib.TopoOrder
import Haltchain.Rules.Evaluator

/-! # The order of the rules

`topo_sort` keeps a counter for each id, of the dependencies still to come. What it visits has all
of its dependencies behind it, and what has none left is in the queue or visited. So when the queue
is empty the ids that are left are on a cycle. -/

namespace Haltchain.Rules

open Lib Kahn List Function

/-- The rule with the id `a` depends on `b`. -/
def DependsOn (rules : List Rule) (a b : String) : Prop :=
  ∃ r ∈ rules, r.id = a ∧ b ∈ r.dependsOn

variable {rules : List Rule} {id : String}

theorem mem_edges {dep : String} : (dep, id) ∈ edges rules ↔ DependsOn rules id dep := by
  simp only [edges, mem_flatMap, mem_map, Prod.mk.injEq]
  constructor
  · rintro ⟨r, hr, dep, hdep, rfl, rfl⟩
    exact ⟨r, hr, rfl, hdep⟩
  · rintro ⟨r, hr, rfl, hdep⟩
    exact ⟨r, hr, dep, hdep, rfl, rfl⟩

theorem mem_ids_of_dependents {d : String} (h : d ∈ dependents rules id) :
    d ∈ rules.map Rule.id := by
  obtain ⟨e, he, rfl⟩ := mem_map.1 h
  obtain ⟨r, hr, hid, -⟩ := mem_edges.1 (mem_filter.1 he).1
  exact mem_map.2 ⟨r, hr, hid⟩

/-- Every dependency names a rule of the list. -/
def DepsKnown (rules : List Rule) : Prop :=
  ∀ r ∈ rules, ∀ dep ∈ r.dependsOn, dep ∈ rules.map Rule.id

theorem idToRule_of_mem (h : id ∈ rules.map Rule.id) :
    ∃ r ∈ rules, r.id = id ∧ idToRule rules id = some r := by
  obtain ⟨r₀, hr₀, hid⟩ := mem_map.1 h
  cases hfind : idToRule rules id with
  | none =>
    have hnot := find?_eq_none.1 hfind r₀ (mem_reverse.2 hr₀)
    exact absurd (decide_eq_true hid) hnot
  | some r =>
    have hid := find?_some hfind
    exact ⟨r, mem_reverse.1 (mem_of_find?_eq_some hfind), of_decide_eq_true hid, rfl⟩

/-! ## The counters -/

/-- The dependencies of an id that have not been visited. -/
def pending (rules : List Rule) (visited : List String) (id : String) : Nat :=
  ((edges rules).filter fun e => e.2 = id ∧ e.1 ∉ visited).length

theorem inDegree_eq_pending (rules : List Rule) (id : String) :
    inDegree rules id = pending rules [] id := by
  simp [inDegree, pending]

theorem pending_eq_zero {visited : List String} :
    pending rules visited id = 0 ↔ ∀ dep, DependsOn rules id dep → dep ∈ visited := by
  rw [pending, length_eq_zero_iff, filter_eq_nil_iff]
  constructor
  · intro h dep hdep
    by_contra hnot
    exact h (dep, id) (mem_edges.2 hdep) (by simpa using hnot)
  · rintro h ⟨dep, a⟩ he
    simp only [decide_eq_true_eq, not_and, not_not]
    rintro rfl
    exact h dep (mem_edges.1 he)

/-- A visit takes the edges of the id off the counters. -/
theorem pending_concat (rules : List Rule) {visited : List String} (hid : id ∉ visited)
    (d : String) : pending rules (visited ++ [id]) d + (dependents rules id).count d =
      pending rules visited d := by
  unfold pending dependents
  induction edges rules with
  | nil => rfl
  | cons e es ih =>
    by_cases heq : e.1 = id
    · grind
    · by_cases hvis : e.1 ∈ visited <;> grind

/-- `settle` takes one off for each time an id occurs. -/
theorem settle_degree (visited ds : List String) (deg : String → Nat) (d : String) :
    (settle visited ds deg).2 d = deg d - ds.count d := by
  induction ds generalizing deg with
  | nil => simp [settle]
  | cons x ds ih =>
    rw [settle]
    rw [ih]
    by_cases hx : x = d
    · subst hx
      simp
      omega
    · simp [hx, update_of_ne (Ne.symm hx)]

/-- The ids whose last dependencies these were. -/
theorem mem_settle {visited ds : List String} {deg : String → Nat} {d : String} :
    d ∈ (settle visited ds deg).1 ↔ d ∈ ds ∧ deg d ≤ ds.count d ∧ d ∉ visited := by
  induction ds generalizing deg with
  | nil => simp [settle]
  | cons x ds ih =>
    have hrest := @ih (update deg x (deg x - 1))
    rw [settle]
    dsimp only
    by_cases hx : x = d
    · subst hx
      rw [update_self] at hrest ⊢
      have hpos : x ∈ ds ↔ 0 < ds.count x := count_pos_iff.symm
      split
      · rename_i hready
        simp only [mem_cons, true_or, count_cons_self, true_and, true_iff]
        exact ⟨by omega, hready.2⟩
      rename_i hready
      rw [hrest, hpos, count_cons_self]
      simp only [mem_cons, true_or, true_and]
      constructor
      · rintro ⟨-, hle, hvis⟩
        exact ⟨by omega, hvis⟩
      · rintro ⟨hle, hvis⟩
        have : ¬ deg x - 1 = 0 := fun h => hready ⟨h, hvis⟩
        exact ⟨by omega, by omega, hvis⟩
    · rw [update_of_ne (Ne.symm hx)] at hrest
      have hmem : d ∈ x :: (settle visited ds (update deg x (deg x - 1))).1 ↔
          d ∈ (settle visited ds (update deg x (deg x - 1))).1 := by
        rw [mem_cons, or_iff_right (Ne.symm hx)]
      rw [mem_cons, or_iff_right (Ne.symm hx), count_cons_of_ne hx, ← hrest]
      split
      · exact hmem
      · rfl

section

variable {rules : List Rule} {visited : List String} {deg : String → Nat} {id d : String}

/-- The counters stay right when one more id is visited. -/
theorem settle_pending (hdeg : ∀ d, deg d = pending rules visited d) (hid : id ∉ visited)
    (d : String) : (settle (visited ++ [id]) (dependents rules id) deg).2 d =
      pending rules (visited ++ [id]) d := by
  have hcount := pending_concat rules hid d
  rw [settle_degree, hdeg]
  omega

/-- The dependents found ready are those whose last dependency it was. -/
theorem mem_settle_dependents (hdeg : ∀ d, deg d = pending rules visited d) (hid : id ∉ visited) :
    d ∈ (settle (visited ++ [id]) (dependents rules id) deg).1 ↔
      d ∈ dependents rules id ∧ pending rules (visited ++ [id]) d = 0 ∧ d ∉ visited ++ [id] := by
  have hcount := pending_concat rules hid d
  rw [mem_settle, hdeg]
  refine and_congr_right fun _ => and_congr_left fun _ => ?_
  omega

end

/-! ## What the search keeps -/

/-- The order is that of the visits and along the dependencies; the counters say how many
dependencies are to come; what has none is queued or visited. -/
structure Kahn.Sound (rules : List Rule) (k : Kahn) : Prop where
  order : k.order.map Rule.id = k.visited
  nodup : k.visited.Nodup
  sorted : TopoOrdered (DependsOn rules) k.visited
  degree : ∀ id, k.inDegree id = pending rules k.visited id
  known : ∀ id ∈ k.queue, id ∈ rules.map Rule.id
  ready : ∀ id ∈ k.queue, k.inDegree id = 0
  complete : ∀ id ∈ rules.map Rule.id, k.inDegree id = 0 → id ∈ k.queue ∨ id ∈ k.visited

theorem mem_seeds : id ∈ seeds rules ↔ id ∈ rules.map Rule.id ∧ inDegree rules id = 0 := by
  rw [seeds, mem_mergeSort, mem_filter, mem_dedup, decide_eq_true_iff]

theorem Kahn.sound_start (rules : List Rule) : (start rules).Sound rules where
  order := rfl
  nodup := nodup_nil
  sorted := topoOrdered_nil
  degree := inDegree_eq_pending rules
  known := fun _ h => (mem_seeds.1 h).1
  ready := fun _ h => (mem_seeds.1 h).2
  complete := fun _ hid hdeg => .inl (mem_seeds.2 ⟨hid, hdeg⟩)

theorem Kahn.Sound.visit {k : Kahn} (h : k.Sound rules) {queue : List String}
    (hqueue : k.queue = id :: queue) (hid : id ∉ k.visited) :
    let settled := settle (k.visited ++ [id]) (dependents rules id) k.inDegree
    Sound rules
      { queue := queue ++ settled.1.mergeSort (before rules)
        inDegree := settled.2
        visited := k.visited ++ [id]
        order := k.order ++ (idToRule rules id).toList } := by
  have hhead : id ∈ k.queue := by
    rw [hqueue]
    exact mem_cons_self
  have htail : ∀ d ∈ queue, d ∈ k.queue := fun d hd => by
    rw [hqueue]
    exact mem_cons_of_mem id hd
  have hdegree := settle_pending h.degree hid
  have hready := fun d => mem_settle_dependents (d := d) h.degree hid
  refine ⟨?_, ?_, ?_, hdegree, fun d hd => ?_, fun d hd => ?_, fun d hd hzero => ?_⟩
  · obtain ⟨r, -, hr, hfind⟩ := idToRule_of_mem (h.known id hhead)
    rw [hfind, Option.toList_some, map_append, h.order, map_singleton, hr]
  · exact nodup_append.2 ⟨h.nodup, nodup_singleton id, by
      rintro a ha b hb rfl
      exact hid (mem_singleton.1 hb ▸ ha)⟩
  · refine h.sorted.concat (pending_eq_zero.1 ?_)
    rw [← h.degree, h.ready id hhead]
  · rcases mem_append.1 hd with hd | hd
    · exact h.known d (htail d hd)
    · exact mem_ids_of_dependents ((hready d).1 (mem_mergeSort.1 hd)).1
  · dsimp only
    rcases mem_append.1 hd with hd | hd
    · rw [settle_degree, h.ready d (htail d hd), Nat.zero_sub]
    · rw [hdegree]
      exact ((hready d).1 (mem_mergeSort.1 hd)).2.1
  · by_cases hvis : d ∈ k.visited ++ [id]
    · exact .inr hvis
    dsimp only at hzero
    rw [hdegree] at hzero
    rw [mem_append, mem_singleton, not_or] at hvis
    left
    by_cases hold : k.inDegree d = 0
    · -- it had none left before
      have hmem := (h.complete d hd hold).resolve_right hvis.1
      rw [hqueue, mem_cons] at hmem
      exact mem_append_left _ (hmem.resolve_left hvis.2)
    -- this was the last one
    have hcount := pending_concat rules hid d
    rw [h.degree] at hold
    have hdep : d ∈ dependents rules id := count_pos_iff.1 (by omega)
    refine mem_append_right _ (mem_mergeSort.2 ((hready d).2 ⟨hdep, hzero, ?_⟩))
    rw [mem_append, mem_singleton, not_or]
    exact hvis

theorem Kahn.Sound.step {k : Kahn} (h : k.Sound rules) : (k.step rules).Sound rules := by
  unfold Kahn.step
  split
  · exact h
  rename_i id queue hqueue
  split
  · -- it has been visited already
    rename_i hvis
    refine ⟨h.order, h.nodup, h.sorted, h.degree, fun d hd => h.known d ?_,
      fun d hd => h.ready d ?_, fun d hd hzero => ?_⟩
    · rw [hqueue]
      exact mem_cons_of_mem id hd
    · rw [hqueue]
      exact mem_cons_of_mem id hd
    · have hmem := h.complete d hd hzero
      rw [hqueue, mem_cons] at hmem
      rcases hmem with (rfl | hmem) | hmem
      · exact .inr hvis
      · exact .inl hmem
      · exact .inr hmem
  · rename_i hvis
    exact h.visit hqueue hvis

theorem Kahn.sound_finish (rules : List Rule) : (finish rules).Sound rules := by
  unfold finish
  generalize (seeds rules).length + (edges rules).length = n
  induction n with
  | zero => exact sound_start rules
  | succ n ih =>
    rw [iterate_succ_apply']
    exact ih.step

/-! ## The result -/

theorem find?_unknown_eq_none :
    ((edges rules).find? fun e => e.1 ∉ rules.map Rule.id) = none ↔ DepsKnown rules := by
  rw [find?_eq_none]
  constructor
  · intro h r hr dep hdep
    have hnot := h (dep, r.id) (mem_edges.2 ⟨r, hr, rfl, hdep⟩)
    rwa [decide_eq_true_iff, not_not] at hnot
  · rintro h ⟨dep, id⟩ he
    obtain ⟨r, hr, -, hdep⟩ := mem_edges.1 he
    rw [decide_eq_true_iff, not_not]
    exact h r hr dep hdep

theorem not_depsKnown_of_find? {e : String × String}
    (h : ((edges rules).find? fun e => e.1 ∉ rules.map Rule.id) = some e) : ¬ DepsKnown rules := by
  intro hdeps
  rw [find?_unknown_eq_none.2 hdeps] at h
  cases h

theorem topoSort_eq_ok {sorted : List Rule} : topoSort rules = .ok sorted ↔ DepsKnown rules ∧
      (finish rules).order.length = rules.length ∧ sorted = (finish rules).order := by
  unfold topoSort
  cases hfind : (edges rules).find? fun e => e.1 ∉ rules.map Rule.id with
  | some e =>
    simp [not_depsKnown_of_find? hfind]
  | none =>
    dsimp only
    by_cases hlen : (finish rules).order.length = rules.length
    · simp [hlen, find?_unknown_eq_none.1 hfind, eq_comm]
    · rw [if_neg hlen]
      constructor
      · intro h
        split at h <;> exact absurd h (by simp)
      · exact fun h => absurd h.2.1 hlen

section

variable {rules : List Rule}

theorem order_finish_subset (rules : List Rule) : (finish rules).order ⊆ rules :=
  RuleEvaluator.iterate_order _ fun r hr => absurd hr (by simp [start])

theorem nodup_order_finish (rules : List Rule) : (finish rules).order.Nodup := by
  have hsound := sound_finish rules
  refine List.Nodup.of_map Rule.id ?_
  rw [hsound.order]
  exact hsound.nodup

/-- Everything is visited exactly if there is no cycle. -/
theorem visited_finish_iff (hdeps : DepsKnown rules) :
    (∀ id ∈ rules.map Rule.id, id ∈ (finish rules).visited) ↔ Acyclic (DependsOn rules) := by
  have hsound := sound_finish rules
  constructor
  · intro hall
    refine hsound.sorted.acyclic hsound.nodup fun a b hab => ?_
    obtain ⟨r, hr, rfl, -⟩ := hab
    exact hall r.id (mem_map_of_mem hr)
  · intro hacyclic
    refine hacyclic.mem_of_closed (s := { id | id ∈ (finish rules).visited })
      (fun a b hab => ?_) fun id hid hclosed => ?_
    · obtain ⟨r, hr, -, hdep⟩ := hab
      exact hdeps r hr b hdep
    · have hzero : (finish rules).inDegree id = 0 := by
        rw [hsound.degree]
        exact pending_eq_zero.2 hclosed
      refine (hsound.complete id hid hzero).resolve_left ?_
      rw [finish_queue]
      exact not_mem_nil

theorem order_finish_perm (h : (finish rules).order.length = rules.length) :
    (finish rules).order.Perm rules :=
  ((nodup_order_finish rules).subperm (order_finish_subset rules)).perm_of_length_le h.ge

/-- When everything is visited the order has a rule for each id. -/
theorem length_order_finish_iff (hall : ∀ id ∈ rules.map Rule.id, id ∈ (finish rules).visited) :
    (finish rules).order.length = rules.length ↔ (rules.map Rule.id).Nodup := by
  have hsound := sound_finish rules
  constructor
  · intro hlen
    rw [← ((order_finish_perm hlen).map Rule.id).nodup_iff, hsound.order]
    exact hsound.nodup
  · intro hids
    have hge := (hids.subperm hall).length_le
    have hle := ((nodup_order_finish rules).subperm (order_finish_subset rules)).length_le
    rw [← hsound.order, length_map, length_map] at hge
    omega

theorem perm_of_topoSort {sorted : List Rule} (h : topoSort rules = .ok sorted) :
    sorted.Perm rules := by
  obtain ⟨-, hlen, rfl⟩ := topoSort_eq_ok.1 h
  exact order_finish_perm hlen

/-- No rule is to blame when two rules have one id and nothing else is wrong. -/
theorem topoSort_eq_panic : topoSort rules = .error .panic ↔
    DepsKnown rules ∧ Acyclic (DependsOn rules) ∧ ¬ (rules.map Rule.id).Nodup := by
  have hblame : (rules.find? fun r => r.id ∉ (finish rules).order.map Rule.id) = none ↔
      ∀ id ∈ rules.map Rule.id, id ∈ (finish rules).visited := by
    rw [(sound_finish rules).order, forall_mem_map]
    simp
  unfold topoSort
  cases hfind : (edges rules).find? fun e => e.1 ∉ rules.map Rule.id with
  | some e =>
    simp [not_depsKnown_of_find? hfind]
  | none =>
    have hdeps := find?_unknown_eq_none.1 hfind
    rw [← visited_finish_iff hdeps, ← hblame]
    dsimp only
    cases hcycle : rules.find? fun r => r.id ∉ (finish rules).order.map Rule.id with
    | some r =>
      refine iff_of_false (fun h => ?_) (fun h => absurd h.2.1 (by simp))
      split at h <;> exact absurd h (by simp)
    | none =>
      rw [← length_order_finish_iff (hblame.1 hcycle)]
      by_cases hlen : (finish rules).order.length = rules.length
      · simp [hlen]
      · simp [hdeps]

theorem topoOrdered_of_topoSort {sorted : List Rule} (h : topoSort rules = .ok sorted) :
    TopoOrdered (DependsOn rules) (sorted.map Rule.id) := by
  obtain ⟨-, -, rfl⟩ := topoSort_eq_ok.1 h
  have hsound := sound_finish rules
  rw [hsound.order]
  exact hsound.sorted

end

/-- **The rules are sorted exactly when they can be**: when each dependency names a rule and there
is no cycle. The result has the same rules, each after those it depends on. -/
theorem topoSort_correct (rules : List Rule) (hids : (rules.map Rule.id).Nodup) :
    ((∃ sorted, topoSort rules = .ok sorted) ↔
      (∀ r ∈ rules, ∀ dep ∈ r.dependsOn, dep ∈ rules.map Rule.id) ∧ Acyclic (DependsOn rules)) ∧
    ∀ sorted, topoSort rules = .ok sorted → sorted.Perm rules ∧
      ∀ front r back, sorted = front ++ r :: back → ∀ dep ∈ r.dependsOn,
        dep ∈ front.map Rule.id := by
  refine ⟨⟨?_, ?_⟩, fun sorted h => ⟨perm_of_topoSort h, ?_⟩⟩
  · rintro ⟨sorted, h⟩
    have hperm := (perm_of_topoSort h).map Rule.id
    refine ⟨(topoSort_eq_ok.1 h).1, (topoOrdered_of_topoSort h).acyclic ?_ fun a b hab => ?_⟩
    · exact hperm.nodup_iff.2 hids
    · obtain ⟨r, hr, rfl, -⟩ := hab
      exact hperm.mem_iff.2 (mem_map_of_mem hr)
  · rintro ⟨hdeps, hacyclic⟩
    have hlen := (length_order_finish_iff ((visited_finish_iff hdeps).2 hacyclic)).2 hids
    exact ⟨_, topoSort_eq_ok.2 ⟨hdeps, hlen, rfl⟩⟩
  · rintro front r back rfl dep hdep
    have hr : r ∈ rules := (perm_of_topoSort h).mem_iff.1 (by simp)
    refine topoOrdered_of_topoSort h (front.map Rule.id) r.id (back.map Rule.id) (by simp) dep ?_
    exact ⟨r, hr, rfl, hdep⟩

/-- A rule for examples. -/
def ruleFor (id : String) (dependsOn : List String) : Rule :=
  ⟨id, .safety, ⟨"amount", .gt, .number (.finite 0)⟩, .flag, "", dependsOn, false⟩

/-- The last rule names a dependency twice. -/
theorem repeated_dependency_sorted :
    let rules := [ruleFor "c" ["a", "b", "a"], ruleFor "b" ["a"], ruleFor "a" []]
    topoSort rules = .ok rules.reverse ∧ Acyclic (DependsOn rules) := by
  have hsort : topoSort [ruleFor "c" ["a", "b", "a"], ruleFor "b" ["a"], ruleFor "a" []] =
      .ok [ruleFor "a" [], ruleFor "b" ["a"], ruleFor "c" ["a", "b", "a"]] := by
    decide +kernel
  exact ⟨hsort, ((topoSort_correct _ (by decide)).1.1 ⟨_, hsort⟩).2⟩

end Haltchain.Rules

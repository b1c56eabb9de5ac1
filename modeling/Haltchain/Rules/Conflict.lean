import Haltchain.Lib.Assoc
import Haltchain.Rules.Enforcement

/-! # Conflicts between rules

`conflict.rs` reports the pairs of active rules with the same condition of which one blocks and the
other does not, if the one that blocks is not less important. Numbers count as equal when their
difference is small; that of two infinities is not a number. -/

namespace Haltchain.Rules

open List

/-- How two rules conflict. -/
inductive ConflictKind where
  | shadow (blockerId shadowedId : String)
  | contradiction (ruleA ruleB : String)

def isBlocking : RuleAction → Bool
  | .deny | .circuitBreak => true
  | .allow | .flag => false

def valuesEqual : FieldValue → FieldValue → Bool
  | .number (.finite x), .number (.finite y) => |x - y| < epsilon
  -- the difference is infinite or NaN
  | .number _, .number _ => false
  | .text x, .text y => x == y
  | .bool x, .bool y => x == y
  | _, _ => false

/-- The body of the two loops. -/
def conflictsBetween (a b : Rule) : List ConflictKind :=
  let sameField := a.condition.field = b.condition.field
  let sameOp := a.condition.op = b.condition.op
  let sameVal := valuesEqual a.condition.value b.condition.value
  if ¬ sameField then []
  else if sameOp ∧ sameVal then
    let aBlocks := isBlocking a.action
    let bBlocks := isBlocking b.action
    let aHigher := a.priority.rank < b.priority.rank
    let bHigher := b.priority.rank < a.priority.rank
    (if aBlocks ∧ !bBlocks ∧ aHigher then [.shadow a.id b.id]
      else if bBlocks ∧ !aBlocks ∧ bHigher then [.shadow b.id a.id]
      else []) ++
    (if a.priority = b.priority ∧ (aBlocks ^^ bBlocks) then [.contradiction a.id b.id] else [])
  else []

/-- Each rule is compared with the ones after it. -/
def conflictsAmong : List Rule → List ConflictKind
  | [] => []
  | a :: rest => rest.flatMap (conflictsBetween a) ++ conflictsAmong rest

structure ConflictGraph where
  conflicts : List ConflictKind
  adjacency : AList fun _ : String => List String

namespace ConflictGraph

/-- `entry(id).or_default().push(other)`. -/
def push (m : AList fun _ : String => List String) (id other : String) :
    AList fun _ : String => List String :=
  m.insert id ((m.lookup id).getD [] ++ [other])

def connect (m : AList fun _ : String => List String) :
    ConflictKind → AList fun _ : String => List String
  | .shadow blockerId shadowedId => push (push m blockerId shadowedId) shadowedId blockerId
  | .contradiction ruleA ruleB => push (push m ruleA ruleB) ruleB ruleA

def build (pf : PolicyFile) : ConflictGraph :=
  let conflicts := conflictsAmong pf.enabled
  ⟨conflicts, conflicts.foldl connect ∅⟩

def neighbors (g : ConflictGraph) (ruleId : String) : List String :=
  (g.adjacency.lookup ruleId).getD []

end ConflictGraph

/-! ## Neighbours -/

/-- The conflict is one between the two rules. -/
def ConflictKind.Joins (x y : String) : ConflictKind → Prop
  | .shadow a b | .contradiction a b => (a = x ∧ b = y) ∨ (a = y ∧ b = x)

instance (x y : String) : (c : ConflictKind) → Decidable (c.Joins x y)
  | .shadow _ _ | .contradiction _ _ => inferInstanceAs (Decidable (_ ∨ _))

theorem ConflictKind.joins_comm (x y : String) (c : ConflictKind) : c.Joins x y ↔ c.Joins y x := by
  cases c <;> exact or_comm

theorem mem_push {m : AList fun _ : String => List String} {id other x y : String} :
    y ∈ ((ConflictGraph.push m id other).lookup x).getD [] ↔
      y ∈ (m.lookup x).getD [] ∨ (id = x ∧ other = y) := by
  rw [ConflictGraph.push, Lib.lookup_insert_eq]
  by_cases hx : x = id
  · rw [hx]
    simp [eq_comm]
  · rw [if_neg hx]
    simp [Ne.symm hx]

variable {c : ConflictKind}

theorem mem_connect {m : AList fun _ : String => List String} {x y : String} :
    y ∈ ((ConflictGraph.connect m c).lookup x).getD [] ↔
      y ∈ (m.lookup x).getD [] ∨ c.Joins x y := by
  cases c <;>
    · rw [ConflictGraph.connect, mem_push, mem_push, or_assoc, ConflictKind.Joins]
      simp only [and_comm]

/-- **Neighbours are the rules that a conflict is reported with.** -/
theorem mem_neighbors {pf : PolicyFile} {x y : String} : y ∈ (ConflictGraph.build pf).neighbors x ↔
      ∃ c ∈ (ConflictGraph.build pf).conflicts, c.Joins x y := by
  have hfold : ∀ (cs : List ConflictKind) (m : AList fun _ : String => List String),
      y ∈ ((cs.foldl ConflictGraph.connect m).lookup x).getD [] ↔
        y ∈ (m.lookup x).getD [] ∨ ∃ c ∈ cs, c.Joins x y := by
    intro cs
    induction cs with
    | nil => simp
    | cons c cs ih =>
      intro m
      rw [foldl_cons, ih, mem_connect, or_assoc]
      simp
  rw [ConflictGraph.neighbors, ConflictGraph.build]
  simp [hfold]

/-! ## The pairs -/

theorem isBlocking_iff {r : Rule} : isBlocking r.action = true ↔ r.Blocking := by
  unfold Rule.Blocking
  cases r.action <;> simp [isBlocking]

/-- The conditions count as the same. -/
def Alike (a b : Rule) : Prop :=
  a.condition.field = b.condition.field ∧ a.condition.op = b.condition.op ∧
    valuesEqual a.condition.value b.condition.value = true

theorem valuesEqual_comm (v w : FieldValue) : valuesEqual v w = valuesEqual w v := by
  unfold valuesEqual
  split <;> grind [abs_sub_comm]

/-- The first blocks, the second does not and is not more important. -/
def Overrules (a b : Rule) : Prop :=
  a.Blocking ∧ ¬ b.Blocking ∧ a.priority.rank ≤ b.priority.rank

/-- One conflict is reported for a pair that conflicts, else none. -/
theorem conflictsBetween_spec (a b : Rule) : (Alike a b ∧ (Overrules a b ∨ Overrules b a) ∧
      ∃ c, conflictsBetween a b = [c] ∧ c.Joins a.id b.id) ∨
    (¬ (Alike a b ∧ (Overrules a b ∨ Overrules b a)) ∧ conflictsBetween a b = []) := by
  unfold conflictsBetween
  by_cases hfield : a.condition.field = b.condition.field
  · rw [if_neg (not_not.2 hfield)]
    by_cases halike : a.condition.op = b.condition.op ∧
        valuesEqual a.condition.value b.condition.value = true
    · have hpriority : a.priority = b.priority ↔ a.priority.rank = b.priority.rank :=
        Priority.rank_injective.eq_iff.symm
      simp only [hpriority, Alike, hfield, halike, Overrules, ← isBlocking_iff]
      cases isBlocking a.action <;> cases isBlocking b.action
      · right
        simp
      · rcases lt_trichotomy a.priority.rank b.priority.rank with h | h | h
        · right
          simp [h.ne, h.not_gt, h]
        · left
          simp [h, ConflictKind.Joins]
        · left
          simp [h.ne', h.le, h, ConflictKind.Joins]
      · rcases lt_trichotomy a.priority.rank b.priority.rank with h | h | h
        · left
          simp [h.ne, h.le, h, ConflictKind.Joins]
        · left
          simp [h, ConflictKind.Joins]
        · right
          simp [h.ne', h.not_gt, h]
      · right
        simp
    · rw [if_neg halike]
      exact .inr ⟨fun h => halike h.1.2, rfl⟩
  · rw [if_pos hfield]
    exact .inr ⟨fun h => hfield h.1.1, rfl⟩

theorem alike_comm (a b : Rule) : Alike a b ↔ Alike b a := by
  unfold Alike
  rw [eq_comm, eq_comm (a := a.condition.op), valuesEqual_comm]

theorem conflictsBetween_length_comm (a b : Rule) :
    (conflictsBetween a b).length = (conflictsBetween b a).length := by
  have hcomm : Alike a b ∧ (Overrules a b ∨ Overrules b a) ↔
      Alike b a ∧ (Overrules b a ∨ Overrules a b) := by rw [alike_comm, or_comm]
  rcases conflictsBetween_spec a b with ⟨h₁, h₂, c, hc, -⟩ | ⟨h, hc⟩
  · rcases conflictsBetween_spec b a with ⟨-, -, c', hc', -⟩ | ⟨h', -⟩
    · rw [hc, hc']
      rfl
    · exact absurd (hcomm.1 ⟨h₁, h₂⟩) h'
  · rcases conflictsBetween_spec b a with ⟨h₁', h₂', -⟩ | ⟨-, hc'⟩
    · exact absurd (hcomm.2 ⟨h₁', h₂'⟩) h
    · rw [hc, hc']

variable {a : Rule}

theorem joins_of_mem {b : Rule} (h : c ∈ conflictsBetween a b) : c.Joins a.id b.id := by
  rcases conflictsBetween_spec a b with ⟨-, -, c', hc, hjoins⟩ | ⟨-, hc⟩
  · rw [hc, mem_singleton] at h
    rwa [h]
  · rw [hc] at h
    exact absurd h not_mem_nil

theorem ConflictKind.Joins.unique {x y p q : String} (h : c.Joins x y) (h' : c.Joins p q) :
    (p = x ∧ q = y) ∨ (p = y ∧ q = x) := by
  cases c <;> · simp only [ConflictKind.Joins] at h h'; grind

theorem mem_conflictsAmong {rules : List Rule} (h : c ∈ conflictsAmong rules) :
    ∃ a ∈ rules, ∃ b ∈ rules, c ∈ conflictsBetween a b := by
  induction rules with
  | nil => exact absurd h not_mem_nil
  | cons a rest ih =>
    rcases mem_append.1 h with h | h
    · obtain ⟨b, hb, hc⟩ := mem_flatMap.1 h
      exact ⟨a, mem_cons_self, b, mem_cons_of_mem a hb, hc⟩
    · obtain ⟨x, hx, y, hy, hc⟩ := ih h
      exact ⟨x, mem_cons_of_mem a hx, y, mem_cons_of_mem a hy, hc⟩

section

/-- The conflicts of one rule say nothing about another pair. -/
theorem countP_flatMap_eq_zero {l : List Rule} {x y : String}
    (h : ∀ b ∈ l, ¬ ((a.id = x ∧ b.id = y) ∨ (a.id = y ∧ b.id = x))) :
    (l.flatMap (conflictsBetween a)).countP (fun c => c.Joins x y) = 0 := by
  rw [countP_eq_zero]
  intro c hc hjoins
  obtain ⟨b, hb, hc⟩ := mem_flatMap.1 hc
  exact h b hb ((of_decide_eq_true hjoins).unique (joins_of_mem hc))

/-- Those of a rule with one of the others are found once. -/
theorem countP_flatMap {y : Rule} {l : List Rule} (hy : y ∈ l)
    (hids : ((a :: l).map Rule.id).Nodup) :
    (l.flatMap (conflictsBetween a)).countP (fun c => c.Joins a.id y.id) =
      (conflictsBetween a y).length := by
  obtain ⟨front, back, rfl⟩ := append_of_mem hy
  rw [map_cons, nodup_cons] at hids
  have hdistinct : ∀ b ∈ front ++ back, b.id ≠ y.id ∧ a.id ≠ y.id := by
    intro b hb
    have hy : y.id ∉ (front ++ back).map Rule.id := by
      have hnodup := hids.2
      rw [map_append, map_cons, nodup_middle, ← map_append] at hnodup
      exact (nodup_cons.1 hnodup).1
    exact ⟨fun heq => hy (heq ▸ mem_map_of_mem hb), fun heq => hids.1 (by simp [heq])⟩
  have hself : (conflictsBetween a y).countP (fun c => c.Joins a.id y.id) =
      (conflictsBetween a y).length :=
    countP_eq_length.2 fun c hc => decide_eq_true (joins_of_mem hc)
  have hzero : ∀ l' ⊆ front ++ back,
      (l'.flatMap (conflictsBetween a)).countP (fun c => c.Joins a.id y.id) = 0 := by
    intro l' hl'
    refine countP_flatMap_eq_zero fun b hb => ?_
    obtain ⟨hby, hay⟩ := hdistinct b (hl' hb)
    rintro (⟨-, h⟩ | ⟨h, -⟩)
    · exact hby h
    · exact hay h
  rw [flatMap_append, flatMap_cons, countP_append, countP_append, hself,
    hzero front (subset_append_left front back), hzero back (subset_append_right front back)]
  omega

/-- **For each pair of rules all its conflicts are reported, once.** -/
theorem countP_conflictsAmong {rules : List Rule} (hids : (rules.map Rule.id).Nodup) {x y : Rule}
    (hx : x ∈ rules) (hy : y ∈ rules) (hne : x ≠ y) :
    (conflictsAmong rules).countP (fun c => c.Joins x.id y.id) = (conflictsBetween x y).length := by
  induction rules with
  | nil => exact absurd hx not_mem_nil
  | cons a rest ih =>
    have hrest : ∀ r ∈ rest, r.id ≠ a.id := by
      intro r hr heq
      rw [map_cons, nodup_cons] at hids
      exact hids.1 (heq ▸ mem_map_of_mem hr)
    -- among the others there is no conflict of the first rule
    have hothers : ∀ z : String, (conflictsAmong rest).countP (fun c => c.Joins a.id z) = 0 := by
      intro z
      rw [countP_eq_zero]
      intro c hc hjoins
      obtain ⟨p, hp, q, hq, hc⟩ := mem_conflictsAmong hc
      rcases (of_decide_eq_true hjoins).unique (joins_of_mem hc) with ⟨h, -⟩ | ⟨-, h⟩
      · exact hrest p hp h
      · exact hrest q hq h
    rw [conflictsAmong, countP_append]
    rcases mem_cons.1 hx with rfl | hx'
    · have hy' := (mem_cons.1 hy).resolve_left (Ne.symm hne)
      rw [countP_flatMap hy' hids, hothers, add_zero]
    rcases mem_cons.1 hy with rfl | hy'
    · have hswap : (fun c : ConflictKind => decide (c.Joins x.id y.id)) =
          fun c => decide (c.Joins y.id x.id) := by
        funext c
        simp only [c.joins_comm x.id]
      rw [hswap, countP_flatMap hx' hids, hothers, add_zero, conflictsBetween_length_comm]
    · rw [countP_flatMap_eq_zero, zero_add, ih (nodup_cons.1 hids).2 hx' hy']
      intro b _ h
      rcases h with ⟨h, -⟩ | ⟨h, -⟩
      · exact hrest x hx' h.symm
      · exact hrest y hy' h.symm

end

/-! ## The report and the evaluator -/

/-- Two numbers are equal, or different enough. NaN is not equal to itself. -/
def RuleNumber.Clear : RuleNumber → RuleNumber → Prop
  | .finite x, .finite y => x = y ∨ epsilon ≤ |x - y|
  | .nan, .nan => False
  | _, _ => True

/-- So are all numbers in the enabled rules. -/
def PolicyFile.ClearNumbers (pf : PolicyFile) : Prop :=
  ∀ a ∈ pf.enabled, ∀ b ∈ pf.enabled, a ≠ b → ∀ x y, a.condition.value = .number x →
    b.condition.value = .number y → x.Clear y

/-- Then conditions count as the same only if they are. -/
theorem PolicyFile.ClearNumbers.condition_eq {pf : PolicyFile} (h : pf.ClearNumbers) {b : Rule}
    (ha : a ∈ pf.enabled) (hb : b ∈ pf.enabled) (hne : a ≠ b) (halike : Alike a b) :
    a.condition = b.condition := by
  obtain ⟨hfield, hop, hvalue⟩ := halike
  have hclear := h a ha b hb hne
  suffices a.condition.value = b.condition.value by
    rcases hac : a.condition with ⟨_, _, _⟩
    simp_all
  revert hvalue hclear
  generalize a.condition.value = v
  generalize b.condition.value = w
  intro hvalue hclear
  unfold valuesEqual at hvalue
  split at hvalue
  · rename_i x y
    rcases hclear _ _ rfl rfl with heq | hle
    · rw [heq]
    · exact absurd (of_decide_eq_true hvalue) (not_lt.2 hle)
  · simp at hvalue
  · rw [eq_of_beq hvalue]
  · rw [eq_of_beq hvalue]
  · simp at hvalue

/-- The value is an infinite number. -/
def FieldValue.Infinite (v : FieldValue) : Prop := ∃ negative, v = .number (.infinite negative)

/-- A value counts as equal to itself unless it is a number that is not finite. -/
theorem valuesEqual_self (v : FieldValue) :
    valuesEqual v v = true ↔ ¬ v.Infinite ∧ v ≠ .number .nan := by
  unfold FieldValue.Infinite
  rcases v with (q | negative | _) | s | b
  · simp [valuesEqual, epsilon]
  all_goals simp [valuesEqual]

section

variable {regex : RegexBuilder} {pf : PolicyFile} {ev : RuleEvaluator}

/-- The two rules. -/
def ConflictKind.ids : ConflictKind → List String
  | .shadow a b | .contradiction a b => [a, b]

theorem mem_ids_of_joins {x y z : String} (h : c.Joins x y) : z ∈ c.ids ↔ z = x ∨ z = y := by
  cases c <;>
    · simp only [ConflictKind.ids, mem_cons, not_mem_nil, or_false]
      rcases h with ⟨rfl, rfl⟩ | ⟨rfl, rfl⟩
      · exact .rfl
      · exact or_comm

/-- A reported rule that does not block has the condition of one that does. -/
theorem blocking_of_reported (hids : (pf.enabled.map Rule.id).Nodup) (hclear : pf.ClearNumbers)
    (hc : c ∈ (ConflictGraph.build pf).conflicts) {r : Rule} (hr : r ∈ pf.enabled)
    (hrc : r.id ∈ c.ids) (hpass : ¬ r.Blocking) :
    ∃ b ∈ pf.enabled, b.Blocking ∧ b.condition = r.condition := by
  obtain ⟨x, hx, y, hy, hbetween⟩ := mem_conflictsAmong hc
  obtain ⟨halike, hoverrules⟩ : Alike x y ∧ (Overrules x y ∨ Overrules y x) := by
    rcases conflictsBetween_spec x y with ⟨h₁, h₂, -⟩ | ⟨-, hnil⟩
    · exact ⟨h₁, h₂⟩
    · rw [hnil] at hbetween
      exact absurd hbetween not_mem_nil
  have hne : x ≠ y := by
    rintro rfl
    rcases hoverrules with h | h <;> exact h.2.1 h.1
  have hcond := hclear.condition_eq hx hy hne halike
  rcases (mem_ids_of_joins (joins_of_mem hbetween)).1 hrc with heq | heq
  · obtain rfl := inj_on_of_nodup_map hids hr hx heq
    rcases hoverrules with h | h
    · exact absurd h.1 hpass
    · exact ⟨y, hy, h.1, hcond.symm⟩
  · obtain rfl := inj_on_of_nodup_map hids hr hy heq
    rcases hoverrules with h | h
    · exact ⟨x, hx, h.1, hcond⟩
    · exact absurd h.1 hpass

/-- How often the conflict of a rule and one that overrules it is reported. -/
theorem count_reported (hids : (pf.enabled.map Rule.id).Nodup) (hclear : pf.ClearNumbers)
    {n b : Rule} (hn : n ∈ pf.enabled) (hb : b ∈ pf.enabled) (hoverrules : Overrules b n)
    (hcond : n.condition = b.condition) :
    (ConflictGraph.build pf).conflicts.countP (fun c => c.Joins n.id b.id) = 1 ↔
      ¬ n.condition.value.Infinite := by
  have hne : n ≠ b := by
    rintro rfl
    exact hoverrules.2.1 hoverrules.1
  have hnan : n.condition.value ≠ .number .nan := fun heq =>
    hclear n hn b hb hne .nan .nan heq (hcond ▸ heq)
  have halike : Alike n b ↔ ¬ n.condition.value.Infinite := by
    unfold Alike
    rw [← hcond, valuesEqual_self]
    simp [hnan]
  rw [ConflictGraph.build, countP_conflictsAmong hids hn hb hne, ← halike]
  rcases conflictsBetween_spec n b with ⟨h, -, c, hc, -⟩ | ⟨h, hc⟩
  · simp [hc, h]
  · have hnot : ¬ Alike n b := fun ha => h ⟨ha, .inr hoverrules⟩
    simp [hc, hnot]

/-- **The conflict graph agrees with the evaluator** exactly if no infinite number is in a condition
that a rule shares with one that overrules it. Agreeing means: a request that matches a reported
rule that does not block is blocked; between a rule and one with the same condition that overrules
it one conflict is reported; and being neighbours is symmetric. -/
theorem conflict_graph_agrees_iff (hmode : pf.enforcementMode = .enforce)
    (hids : (pf.rules.map Rule.id).Nodup) (hclear : pf.ClearNumbers)
    (hnew : RuleEvaluator.new regex pf = .ok ev) :
    ((∀ c ∈ (ConflictGraph.build pf).conflicts, ∀ r ∈ pf.enabled, r.id ∈ c.ids → ¬ r.Blocking →
        ∀ ctx, r.Matches regex ctx → (ev.evaluate regex ctx).1.Blocks) ∧
      (∀ n ∈ pf.enabled, ∀ b ∈ pf.enabled, Overrules b n → n.condition = b.condition →
        (ConflictGraph.build pf).conflicts.countP (fun c => c.Joins n.id b.id) = 1) ∧
      ∀ x y, y ∈ (ConflictGraph.build pf).neighbors x ↔ x ∈ (ConflictGraph.build pf).neighbors y) ↔
    ∀ n ∈ pf.enabled, ∀ b ∈ pf.enabled, Overrules b n → n.condition = b.condition →
      ¬ n.condition.value.Infinite := by
  have hdistinct := PolicyFile.nodup_enabled hids
  obtain ⟨hsort, -, hshadow⟩ := of_new hnew
  rw [hmode] at hshadow
  constructor
  · rintro ⟨-, hcount, -⟩ n hn b hb hoverrules hcond
    exact (count_reported hdistinct hclear hn hb hoverrules hcond).1
      (hcount n hn b hb hoverrules hcond)
  · intro hfinite
    refine ⟨fun c hc r hr hrc hpass ctx hmatch => ?_, fun n hn b hb hoverrules hcond => ?_,
      fun x y => ?_⟩
    · obtain ⟨b, hb, hblock, hcond⟩ := blocking_of_reported hdistinct hclear hc hr hrc hpass
      refine blocks_evaluate hshadow ⟨b, (perm_of_topoSort hsort).mem_iff.2 hb, hblock, ?_⟩
      rwa [Rule.Matches, hcond]
    · exact (count_reported hdistinct hclear hn hb hoverrules hcond).2
        (hfinite n hn b hb hoverrules hcond)
    · rw [mem_neighbors, mem_neighbors]
      simp only [ConflictKind.joins_comm x y]

end

/-- Denies all amounts below the bound. -/
def denyBelow (bound : RuleNumber) : Rule :=
  ⟨"deny", .safety, ⟨"amount", .lt, .number bound⟩, .deny, "", [], false⟩

/-- Allows them, after that. -/
def allowBelow (bound : RuleNumber) : Rule :=
  ⟨"allow", .business, ⟨"amount", .lt, .number bound⟩, .allow, "", ["deny"], false⟩

def denyAndAllow (bound : RuleNumber) : PolicyFile :=
  ⟨"1", [denyBelow bound, allowBelow bound], none, .enforce⟩

theorem clearNumbers_denyAndAllow {bound : RuleNumber} (h : bound ≠ .nan) :
    (denyAndAllow bound).ClearNumbers := by
  have hvalue : ∀ r ∈ (denyAndAllow bound).enabled, r.condition.value = .number bound := by
    simp [PolicyFile.enabled, denyAndAllow, denyBelow, allowBelow]
  intro a ha b hb _ x y hx hy
  rw [hvalue a ha, FieldValue.number.injEq] at hx
  rw [hvalue b hb, FieldValue.number.injEq] at hy
  subst hx hy
  rcases bound with q | negative | _
  · exact .inl rfl
  · trivial
  · exact absurd rfl h

/-- With an infinite bound the two rules have one condition, and no conflict is reported. -/
theorem infinite_bound_not_reported :
    let pf := denyAndAllow (.infinite false)
    pf.ClearNumbers ∧
      RuleEvaluator.new (fun _ => none) pf = .ok ⟨pf.rules, none, false⟩ ∧
      Overrules (denyBelow (.infinite false)) (allowBelow (.infinite false)) ∧
      (ConflictGraph.build pf).conflicts = [] := by
  refine ⟨clearNumbers_denyAndAllow (by simp), by decide +kernel, ?_, by decide +kernel⟩
  unfold Overrules
  decide +kernel

theorem finite_bound_reported :
    let pf := denyAndAllow (.finite 5)
    (ConflictGraph.build pf).conflicts.countP (fun c => c.Joins "allow" "deny") = 1 ∧
      "deny" ∈ (ConflictGraph.build pf).neighbors "allow" := by
  have hnew : RuleEvaluator.new (fun _ => none) (denyAndAllow (.finite 5)) =
      .ok ⟨[denyBelow (.finite 5), allowBelow (.finite 5)], none, false⟩ := by decide +kernel
  have hfinite : ∀ n ∈ (denyAndAllow (.finite 5)).enabled, ¬ n.condition.value.Infinite := by
    simp [PolicyFile.enabled, denyAndAllow, denyBelow, allowBelow, FieldValue.Infinite]
  have hoverrules : Overrules (denyBelow (.finite 5)) (allowBelow (.finite 5)) := by
    unfold Overrules
    decide +kernel
  obtain ⟨-, hcount, hsymm⟩ := (conflict_graph_agrees_iff rfl (by decide +kernel)
    (clearNumbers_denyAndAllow (by simp)) hnew).2 fun n hn _ _ _ _ => hfinite n hn
  exact ⟨hcount (allowBelow (.finite 5)) (by decide +kernel) (denyBelow (.finite 5))
    (by decide +kernel) hoverrules rfl, (hsymm "deny" "allow").1 (by decide +kernel)⟩

end Haltchain.Rules

import Mathlib.Algebra.Order.Ring.Rat
import Mathlib.Data.List.Infix

/-! # The schema of a policy

`schema.rs`: rules with a condition on one field of the evaluation context, and the policy file they
come in. The text descriptions are left out. Floats are rationals, except that the numbers in a rule
can also be the infinities and NaN. -/

namespace Haltchain.Rules

open List Function

/-- The priority of a rule. -/
inductive Priority where
  | safety
  | compliance
  | business
deriving DecidableEq

/-- Safety comes first. -/
def Priority.rank : Priority → Nat
  | .safety => 0
  | .compliance => 1
  | .business => 2

theorem Priority.rank_injective : Function.Injective Priority.rank := by
  intro p q h
  cases p <;> cases q <;> first | rfl | exact absurd h (by decide)

/-- How a condition compares. -/
inductive Op where
  | gt
  | gte
  | lt
  | lte
  | eq
  | neq
  | contains
  | regex
deriving DecidableEq

/-- A number as a rule has it. -/
inductive RuleNumber where
  | finite (q : Rat)
  | infinite (negative : Bool)
  | nan
deriving DecidableEq

/-- The value in a condition. -/
inductive FieldValue where
  | number (n : RuleNumber)
  | text (s : String)
  | bool (b : Bool)
deriving DecidableEq

/-- The value as a number. -/
def FieldValue.asF64 : FieldValue → Option RuleNumber
  | .number n => some n
  | _ => none

/-- The value as a text. -/
def FieldValue.asStr : FieldValue → Option String
  | .text s => some s
  | _ => none

structure Condition where
  field : String
  op : Op
  value : FieldValue
deriving DecidableEq

inductive RuleAction where
  | allow
  | deny
  | circuitBreak
  | flag
deriving DecidableEq

/-- A rule of the policy. -/
structure Rule where
  id : String
  priority : Priority
  condition : Condition
  action : RuleAction
  message : String
  dependsOn : List String
  disabled : Bool
deriving DecidableEq

inductive EnforcementMode where
  | enforce
  | shadow
deriving DecidableEq

/-- A policy as loaded. -/
structure PolicyFile where
  version : String
  rules : List Rule
  maxDelegationDepth : Option Nat
  enforcementMode : EnforcementMode
deriving DecidableEq

/-- All that a rule can inspect. -/
structure EvalContext where
  agentId : String
  actionType : String
  amount : Rat
  currency : String
  recipient : String
  ewmaVelocity : Rat
  actions1m : Nat
  anomalyScore : Rat
  isAnomaly : Bool
  delegationDepth : Nat
  piiFieldCount : Nat
  gdprDeletionRequested : Bool
  crossBorderRestricted : Bool
  retentionDaysRequested : Nat
  accessingUndeclaredService : Bool
  payloadContainsPii : Bool

namespace EvalContext

def getF64 (ctx : EvalContext) (field : String) : Option Rat :=
  match field with
  | "amount" => some ctx.amount
  | "ewma_velocity" => some ctx.ewmaVelocity
  | "actions_1m" => some ctx.actions1m
  | "anomaly_score" => some ctx.anomalyScore
  | "delegation_depth" => some ctx.delegationDepth
  | "pii_field_count" => some ctx.piiFieldCount
  | "retention_days_requested" => some ctx.retentionDaysRequested
  | _ => none

def getStr (ctx : EvalContext) (field : String) : Option String :=
  match field with
  | "agent_id" => some ctx.agentId
  | "action_type" => some ctx.actionType
  | "currency" => some ctx.currency
  | "recipient" => some ctx.recipient
  | _ => none

def getBool (ctx : EvalContext) (field : String) : Option Bool :=
  match field with
  | "is_anomaly" => some ctx.isAnomaly
  | "gdpr_deletion_requested" => some ctx.gdprDeletionRequested
  | "cross_border_restricted" => some ctx.crossBorderRestricted
  | "accessing_undeclared_service" => some ctx.accessingUndeclaredService
  | "payload_contains_pii" => some ctx.payloadContainsPii
  | _ => none

end EvalContext

/-! ## The rule evaluator

`evaluator.rs`: an evaluator is built from a policy by checking the patterns of its active rules and
sorting these along their dependencies (Kahn's algorithm). Building fails for a pattern that does
not compile, a dependency on a rule that is not there or is disabled, and a cycle. It panics when
two active rules have the same id and nothing else is wrong.

`regex` is what `RegexBuilder::build` makes of a pattern. The cache of compiled patterns is left
out. -/

/-- What a pattern compiles to, if it does. -/
abbrev RegexBuilder := String → Option (String → Bool)

/-- `MAX_PATTERN_LEN`. -/
def maxPatternLen : Nat := 1024

/-- `MAX_REGEX_INPUT_LEN`. -/
def maxRegexInputLen : Nat := 100000

/-- `f64::EPSILON`. -/
def epsilon : Rat := 1 / 2 ^ 52

/-- Patterns that are too long are refused. -/
def getOrCompileRegex (regex : RegexBuilder) (pattern : String) : Option (String → Bool) :=
  if maxPatternLen < pattern.utf8ByteSize then none else regex pattern

inductive EvalError where
  | cycleDetected (rule : String)
  | unknownDep (rule dep : String)
  | invalidRegex (rule pattern : String)
deriving DecidableEq

/-- How building an evaluator can fail: with an error, or with a panic. -/
inductive Failure where
  | error (e : EvalError)
  | panic
deriving DecidableEq

/-- What a rule did. -/
structure RuleOutput where
  ruleId : String
  matched : Bool
  action : RuleAction
  message : Option String
  shadowDowngraded : Bool

inductive EvalDecision where
  | allow
  | deny (ruleId message : String)
  | circuitBreak (ruleId message : String)
  | flaggedAllow (flags : List String)
deriving DecidableEq

/-! ## Conditions -/

/-- A comparison of numbers. -/
def evalNumber (op : Op) (ctxVal : Rat) : RuleNumber → Bool
  | .finite ruleVal =>
    match op with
    | .gt => ruleVal < ctxVal
    | .gte => ruleVal ≤ ctxVal
    | .lt => ctxVal < ruleVal
    | .lte => ctxVal ≤ ruleVal
    | .eq => |ctxVal - ruleVal| < epsilon
    | .neq => epsilon ≤ |ctxVal - ruleVal|
    | .contains | .regex => false
  | .infinite negative =>
    match op with
    | .gt | .gte => negative
    | .lt | .lte => !negative
    | .neq => true
    | .eq | .contains | .regex => false
  -- no comparison with NaN holds, and the difference is NaN as well
  | .nan => false

def evalBool (op : Op) (ctxVal ruleVal : Bool) : Bool :=
  match op with
  | .eq => ctxVal == ruleVal
  | .neq => ctxVal != ruleVal
  | _ => false

/-- A too long input, or a pattern that does not compile, counts as a match. -/
def evalText (regex : RegexBuilder) (op : Op) (ctxVal ruleVal : String) : Bool :=
  match op with
  | .eq => ctxVal == ruleVal
  | .neq => ctxVal != ruleVal
  | .contains => ruleVal.toList <:+: ctxVal.toList
  | .gt => ruleVal < ctxVal
  | .gte => ¬ ctxVal < ruleVal
  | .lt => ctxVal < ruleVal
  | .lte => ¬ ruleVal < ctxVal
  | .regex =>
    if maxRegexInputLen < ctxVal.utf8ByteSize then true
    else
      match getOrCompileRegex regex ruleVal with
      | some isMatch => isMatch ctxVal
      | none => true

/-- A field is compared as a number, boolean or text, if both values are such. -/
def evalCondition (regex : RegexBuilder) (cond : Condition) (ctx : EvalContext) : Bool :=
  match ctx.getF64 cond.field, cond.value.asF64 with
  | some ctxVal, some ruleVal => evalNumber cond.op ctxVal ruleVal
  | _, _ =>
    match ctx.getBool cond.field, cond.value with
    | some ctxVal, .bool ruleVal => evalBool cond.op ctxVal ruleVal
    | _, _ =>
      match ctx.getStr cond.field, cond.value.asStr with
      | some ctxVal, some ruleVal => evalText regex cond.op ctxVal ruleVal
      | _, _ => false

/-! ## The order of the rules -/

/-- The rule with the id; the last one, if there are several. -/
def idToRule (rules : List Rule) (id : String) : Option Rule :=
  rules.reverse.find? fun r => r.id = id

/-- The dependencies, each with its rule, in the order of the file. -/
def edges (rules : List Rule) : List (String × String) :=
  rules.flatMap fun r => r.dependsOn.map fun dep => (dep, r.id)

def dependents (rules : List Rule) (dep : String) : List String :=
  ((edges rules).filter fun e => e.1 = dep).map Prod.snd

def inDegree (rules : List Rule) (id : String) : Nat :=
  ((edges rules).filter fun e => e.2 = id).length

/-- By priority, and by id within one priority. -/
def before (rules : List Rule) (a b : String) : Bool :=
  match idToRule rules a, idToRule rules b with
  | some r, some r' =>
    r.priority.rank < r'.priority.rank || (r.priority = r'.priority && ¬ b < a)
  | _, _ => true

/-- The state of the search. -/
structure Kahn where
  queue : List String
  inDegree : String → Nat
  visited : List String
  order : List Rule

/-- Takes one off each in-degree, and keeps those that have none left. -/
def settle (visited : List String) : List String → (String → Nat) → List String × (String → Nat)
  | [], deg => ([], deg)
  | d :: ds, deg =>
    let deg := update deg d (deg d - 1)
    let (ready, deg') := settle visited ds deg
    (if deg d = 0 ∧ d ∉ visited then d :: ready else ready, deg')

def Kahn.step (rules : List Rule) (k : Kahn) : Kahn :=
  match k.queue with
  | [] => k
  | id :: queue =>
    if id ∈ k.visited then { k with queue := queue }
    else
      let visited := k.visited ++ [id]
      let (ready, deg) := settle visited (dependents rules id) k.inDegree
      { queue := queue ++ ready.mergeSort (before rules)
        inDegree := deg
        visited := visited
        order := k.order ++ (idToRule rules id).toList }

/-- The rules without dependencies. -/
def seeds (rules : List Rule) : List String :=
  (((rules.map Rule.id).dedup).filter fun id => inDegree rules id = 0).mergeSort (before rules)

def Kahn.start (rules : List Rule) : Kahn := ⟨seeds rules, Rules.inDegree rules, [], []⟩

/-- The loop up to the end of the queue, which takes at most this many steps. -/
def Kahn.finish (rules : List Rule) : Kahn :=
  (Kahn.step rules)^[(seeds rules).length + (edges rules).length] (Kahn.start rules)

/-! ### The loop ends -/

theorem settle_length (visited ds : List String) (deg : String → Nat) :
    (settle visited ds deg).1.length ≤ ds.length := by
  induction ds generalizing deg with
  | nil => exact Nat.le_refl 0
  | cons d ds ih =>
    have := ih (update deg d (deg d - 1))
    rw [settle]
    dsimp only
    split
    · rw [length_cons, length_cons]
      omega
    · rw [length_cons]
      omega

/-- The steps left at most: each takes one id off the queue, and only the first visit of an id puts
others on it, one for each of its edges. -/
def Kahn.bound (rules : List Rule) (k : Kahn) : Nat :=
  k.queue.length + ((edges rules).filter fun e => e.1 ∉ k.visited).length

variable {k : Kahn}

section

variable (rules : List Rule)

theorem Kahn.step_of_nil (h : k.queue = []) : k.step rules = k := by
  unfold step
  rw [h]

/-- Visiting an id uses up its edges. -/
theorem length_unvisited {visited : List String} {id : String} (hid : id ∉ visited) :
    ((edges rules).filter fun e => e.1 ∉ visited ++ [id]).length + (dependents rules id).length =
      ((edges rules).filter fun e => e.1 ∉ visited).length := by
  unfold dependents
  rw [length_map]
  induction edges rules with
  | nil => rfl
  | cons e es ih =>
    by_cases heq : e.1 = id
    · grind
    · by_cases hvis : e.1 ∈ visited <;> grind

theorem Kahn.step_bound (h : k.queue ≠ []) : (k.step rules).bound rules < k.bound rules := by
  obtain ⟨id, queue, hqueue⟩ := exists_cons_of_ne_nil h
  unfold bound step
  rw [hqueue]
  dsimp only
  split
  · simp
  · next hid =>
    have hready := settle_length (k.visited ++ [id]) (dependents rules id) k.inDegree
    have hedges := length_unvisited rules hid
    simp only [length_append, length_mergeSort, length_cons]
    omega

theorem Kahn.iterate_queue (n : Nat) (h : k.bound rules ≤ n) :
    ((Kahn.step rules)^[n] k).queue = [] := by
  induction n generalizing k with
  | zero =>
    unfold bound at h
    rw [iterate_zero_apply]
    exact eq_nil_of_length_eq_zero (by omega)
  | succ n ih =>
    rw [iterate_succ_apply]
    by_cases hqueue : k.queue = []
    · -- nothing is left to do, and nothing changes
      rw [step_of_nil rules hqueue, iterate_fixed (step_of_nil rules hqueue)]
      exact hqueue
    · have hlt := step_bound rules hqueue
      exact ih (by omega)

/-- **The loop is run to its end.** -/
theorem Kahn.finish_queue : (Kahn.finish rules).queue = [] := by
  refine Kahn.iterate_queue rules _ ?_
  unfold bound start
  simp

end

def topoSort (rules : List Rule) : Except Failure (List Rule) :=
  match (edges rules).find? fun e => e.1 ∉ rules.map Rule.id with
  | some (dep, rule) => .error (.error (.unknownDep rule dep))
  | none =>
    let k := Kahn.finish rules
    if k.order.length = rules.length then .ok k.order
    else
      match rules.find? fun r => r.id ∉ k.order.map Rule.id with
      | some r => .error (.error (.cycleDetected r.id))
      -- `unwrap` finds nothing
      | none => .error .panic

/-! ## The evaluator -/

structure RuleEvaluator where
  /-- The active rules, in the order of evaluation. -/
  rules : List Rule
  maxDelegationDepth : Option Nat
  shadow : Bool
deriving DecidableEq

variable {rules : List Rule}

namespace RuleEvaluator

/-- The pattern of the rule, if it does not compile. -/
def badPattern (regex : RegexBuilder) (r : Rule) : Option String :=
  if r.condition.op = .regex then
    r.condition.value.asStr.filter fun pattern => (getOrCompileRegex regex pattern).isNone
  else none

def new (regex : RegexBuilder) (pf : PolicyFile) : Except Failure RuleEvaluator :=
  let active := pf.rules.filter fun r => !r.disabled
  match active.findSome? fun r => (badPattern regex r).map fun pattern => (r.id, pattern) with
  | some (rule, pattern) => .error (.error (.invalidRegex rule pattern))
  | none => (topoSort active).map fun sorted =>
    ⟨sorted, pf.maxDelegationDepth, pf.enforcementMode = .shadow⟩

/-- The rules left, with what those before have put out. -/
def evaluateFrom (regex : RegexBuilder) (shadow : Bool) (ctx : EvalContext) :
    List Rule → List RuleOutput → List String → EvalDecision × List RuleOutput
  | [], outputs, flags => (if flags.isEmpty then .allow else .flaggedAllow flags, outputs)
  | rule :: rest, outputs, flags =>
    let matched := evalCondition regex rule.condition ctx
    let output : RuleOutput :=
      ⟨rule.id, matched, rule.action, if matched then some rule.message else none, false⟩
    let blocks := rule.action = .deny ∨ rule.action = .circuitBreak
    -- a second output for the same rule id in a row is not pushed
    let push (outputs : List RuleOutput) :=
      if outputs.getLast?.all fun o => o.ruleId ≠ rule.id then outputs ++ [output] else outputs
    if matched then
      if blocks ∧ shadow then
        evaluateFrom regex shadow ctx rest
          (outputs ++ [{ output with
            message := some ("[SHADOW] " ++ rule.message), shadowDowngraded := true }])
          (flags ++ [rule.id])
      else
        match rule.action with
        | .deny => (.deny rule.id rule.message, outputs ++ [output])
        | .circuitBreak => (.circuitBreak rule.id rule.message, outputs ++ [output])
        | .flag => evaluateFrom regex shadow ctx rest (push outputs) (flags ++ [rule.id])
        | .allow => evaluateFrom regex shadow ctx rest (push outputs) flags
    else evaluateFrom regex shadow ctx rest (push outputs) flags

/-- The depth of the delegation is checked first. -/
def evaluate (regex : RegexBuilder) (ev : RuleEvaluator) (ctx : EvalContext) :
    EvalDecision × List RuleOutput :=
  match ev.maxDelegationDepth.filter fun bound => bound < ctx.delegationDepth with
  | some bound =>
    let depth := ctx.delegationDepth
    let msg := s!"Delegation chain depth {depth} exceeds max allowed {bound}"
    let output : RuleOutput := ⟨"__delegation_depth", true, .deny, some msg, false⟩
    if ev.shadow then
      (.flaggedAllow ["__delegation_depth"],
        [{ output with message := some ("[SHADOW] " ++ msg), shadowDowngraded := true }])
    else (.deny "__delegation_depth" msg, [output])
  | none => evaluateFrom regex ev.shadow ctx ev.rules [] []

/-! ## The rules of an evaluator, and what they read -/

/-- A step puts rules of the policy into the order, and no others. -/
theorem step_order (h : ∀ r ∈ k.order, r ∈ rules) : ∀ r ∈ (k.step rules).order, r ∈ rules := by
  unfold Kahn.step
  split
  · exact h
  split
  · exact h
  · intro r hr
    rcases mem_append.1 hr with hr | hr
    · exact h r hr
    · exact mem_reverse.1 (mem_of_find?_eq_some (Option.mem_toList.1 hr))

theorem iterate_order (n : Nat) (h : ∀ r ∈ k.order, r ∈ rules) :
    ∀ r ∈ ((Kahn.step rules)^[n] k).order, r ∈ rules := by
  induction n generalizing k with
  | zero => exact h
  | succ n ih =>
    exact ih (step_order h)

theorem mem_of_topoSort {sorted : List Rule} (h : topoSort rules = .ok sorted) :
    ∀ r ∈ sorted, r ∈ rules := by
  unfold topoSort at h
  split at h
  · simp at h
  · dsimp only at h
    split at h
    · obtain rfl := Except.ok.inj h
      exact iterate_order _ (fun r hr => absurd hr (by simp [Kahn.start]))
    · split at h <;> exact absurd h (by simp)

theorem mem_of_new {regex : RegexBuilder} {pf : PolicyFile} {ev : RuleEvaluator}
    (h : new regex pf = .ok ev) : ∀ r ∈ ev.rules, r ∈ pf.rules ∧ r.disabled = false := by
  unfold new at h
  dsimp only at h
  split at h
  · simp at h
  cases hsort : topoSort (pf.rules.filter fun r => !r.disabled) with
  | error f =>
    rw [hsort] at h
    simp [Except.map] at h
  | ok sorted =>
    rw [hsort] at h
    obtain rfl := Except.ok.inj h
    intro r hr
    have hmem := mem_filter.1 (mem_of_topoSort hsort r hr)
    exact ⟨hmem.1, by simpa using hmem.2⟩

end RuleEvaluator

/-- The rule looks at what the agent has done lately. -/
def Rule.ReadsActivity (r : Rule) : Prop :=
  r.condition.field = "actions_1m" ∨ r.condition.field = "ewma_velocity"
deriving Decidable

/-- An active rule of the policy does. -/
def PolicyFile.ReadsActivity (pf : PolicyFile) : Prop :=
  ∃ r ∈ pf.rules, r.disabled = false ∧ r.ReadsActivity
deriving Decidable

section

variable (regex : RegexBuilder) (ctx : EvalContext) (w : Rat) (n : Nat)

/-- The context, after other activity of the agent. -/
def EvalContext.withActivity : EvalContext := { ctx with ewmaVelocity := w, actions1m := n }

theorem getF64_withActivity {field : String}
    (h : ¬ (field = "actions_1m" ∨ field = "ewma_velocity")) :
    (ctx.withActivity w n).getF64 field = ctx.getF64 field := by
  obtain ⟨hactions, hewma⟩ := not_or.1 h
  unfold EvalContext.getF64
  split
  · rfl
  · exact absurd rfl hewma
  · exact absurd rfl hactions
  all_goals rfl

theorem evalCondition_withActivity {r : Rule} (h : ¬ r.ReadsActivity) :
    evalCondition regex r.condition (ctx.withActivity w n) =
      evalCondition regex r.condition ctx := by
  unfold evalCondition
  rw [getF64_withActivity ctx w n h]
  rfl

theorem evaluateFrom_withActivity (shadow : Bool) (h : ∀ r ∈ rules, ¬ r.ReadsActivity)
    (outputs : List RuleOutput) (flags : List String) :
    RuleEvaluator.evaluateFrom regex shadow (ctx.withActivity w n) rules outputs flags =
      RuleEvaluator.evaluateFrom regex shadow ctx rules outputs flags := by
  induction rules generalizing outputs flags with
  | nil => rfl
  | cons r rest ih =>
    have hrest := ih fun r' hr' => h r' (mem_cons_of_mem r hr')
    simp only [RuleEvaluator.evaluateFrom, hrest,
      evalCondition_withActivity regex ctx w n (h r mem_cons_self)]

/-- **Rules that do not read the activity answer the same after more of it.** -/
theorem evaluate_withActivity {ev : RuleEvaluator} (h : ∀ r ∈ ev.rules, ¬ r.ReadsActivity) :
    ev.evaluate regex (ctx.withActivity w n) = ev.evaluate regex ctx := by
  unfold RuleEvaluator.evaluate
  rw [evaluateFrom_withActivity regex ctx w n ev.shadow h]
  rfl

end

end Haltchain.Rules

import Haltchain.Lib.Run
import Haltchain.Rules.Watcher
import Haltchain.Validator.Pipeline

/-! # The rule stage

`validate_inner` evaluates a request against the policy in the handle. It keeps the evaluator with
its generation, and builds a new one when that is another. If that fails the request goes on without
rules. By `Tracking.evaluator_eq` the cached evaluator is that of the policy in the handle. -/

namespace Haltchain.Validator

open Lib Rules List Option

/-- What the rule stage works with. -/
structure RuleEngine where
  handle : PolicyHandle
  /-- `rule_evaluator_cache`. -/
  evaluatorCache : Option (Nat × RuleEvaluator)

/-- What the stage does with a request. -/
inductive StageResult where
  | evaluated (decision : EvalDecision)
  /-- There is no evaluator, and the request goes on. -/
  | skipped
  | panicked
deriving DecidableEq

/-- What the stage does with the evaluator it finds. -/
def StageResult.ofEvaluator (regex : RegexBuilder) (ctx : EvalContext) :
    Except Failure RuleEvaluator → StageResult
  | .ok ev => .evaluated (ev.evaluate regex ctx).1
  | .error (.error _) => .skipped
  | .error .panic => .panicked

/-- As the chain sees it. A panic ends the call. -/
def StageResult.verdict : StageResult → Option RuleVerdict
  | .evaluated (.deny ruleId message) => some (.deny ruleId message)
  | .evaluated (.circuitBreak ruleId message) => some (.circuitBreak ruleId message)
  | .evaluated _ => some .pass
  | .skipped => none
  | .panicked => none

namespace RuleEngine

variable (regex : RegexBuilder)

/-- No evaluator is cached. -/
def new (pf : PolicyFile) : RuleEngine := ⟨.new pf, none⟩

/-- The evaluator for the current generation. -/
def evaluator (e : RuleEngine) : Except Failure RuleEvaluator × RuleEngine :=
  match e.evaluatorCache.filter fun c => c.1 = e.handle.generation with
  | some c => (.ok c.2, e)
  | none =>
    match RuleEvaluator.new regex e.handle.policy with
    | .ok ev => (.ok ev, { e with evaluatorCache := some (e.handle.generation, ev) })
    | .error f => (.error f, e)

/-- The verdict of the rules. -/
def ruleStage (e : RuleEngine) (ctx : EvalContext) : StageResult × RuleEngine :=
  let (found, e) := e.evaluator regex
  (.ofEvaluator regex ctx found, e)

/-! ## Runs -/

inductive Event where
  /-- The file has changed; the watcher reads it. -/
  | fileChanged (attempts : List Attempt)
  | pushPolicy (pf : PolicyFile)
  /-- A `validate_inner` call gets to the rule stage. -/
  | validate (ctx : EvalContext)

/-- One event. -/
def exec (e : RuleEngine) : Event → RuleEngine
  | .fileChanged attempts => { e with handle := e.handle.onChange attempts }
  | .pushPolicy pf => { e with handle := e.handle.store pf }
  | .validate ctx => (e.ruleStage regex ctx).2

/-- The policy that the event stores, if it stores one. -/
def storedBy : Event → Option PolicyFile
  | .fileChanged attempts => reload (attempts.take reloadAttempts)
  | .pushPolicy pf => some pf
  | .validate _ => none

/-- The policies stored, the first one included. -/
def stored (initial : PolicyFile) (es : List Event) : List PolicyFile :=
  initial :: es.filterMap storedBy

/-- An evaluator can be built. -/
def Builds (pf : PolicyFile) : Prop := (RuleEvaluator.new regex pf).toOption.isSome
deriving Decidable

/-- The policy stored last among those that build. -/
def latestBuilding (initial : PolicyFile) (es : List Event) : Option PolicyFile :=
  (stored initial es).reverse.find? fun pf => Builds regex pf

/-! ## The evaluator in the cache -/

/-- How many policies have been stored after the first. -/
def stores (es : List Event) : Nat := (es.filterMap storedBy).length

/-- The policy stored as number `k`; the first one is 0. -/
def storedAs (initial : PolicyFile) (es : List Event) (k : Nat) : Option PolicyFile :=
  (stored initial es)[k]?

variable {initial : PolicyFile} {es : List Event}

theorem storedAs_concat {k : Nat} (hk : k ≤ stores es) (ev : Event) :
    storedAs initial (es ++ [ev]) k = storedAs initial es k := by
  unfold storedAs stored
  rw [filterMap_append, ← cons_append, getElem?_append_left]
  exact Nat.lt_succ_of_le hk

/-- The handle has the policy stored last, the generation counts the stores, and the cached
evaluator is of the policy stored under its generation. -/
structure Tracking (initial : PolicyFile) (es : List Event) (e : RuleEngine) : Prop where
  policy : storedAs initial es (stores es) = some e.handle.policy
  generation : e.handle.generation = stores es % 2 ^ 64
  cached : ∀ c ∈ e.evaluatorCache, ∃ k ≤ stores es, c.1 = k % 2 ^ 64 ∧
    ∃ pf, storedAs initial es k = some pf ∧ RuleEvaluator.new regex pf = .ok c.2

variable {regex}

theorem tracking_new (initial : PolicyFile) : Tracking regex initial [] (new initial) where
  policy := rfl
  generation := rfl
  cached _ hc := absurd hc (by simp [new])

variable {e : RuleEngine}

section

variable (h : Tracking regex initial es e)

include h

theorem Tracking.store {ev : Event} {pf : PolicyFile} (hev : storedBy ev = some pf) :
    Tracking regex initial (es ++ [ev]) { e with handle := e.handle.store pf } := by
  have hmap : (es ++ [ev]).filterMap storedBy = es.filterMap storedBy ++ [pf] := by simp [hev]
  have hcount : stores (es ++ [ev]) = stores es + 1 := by simp [stores, hev]
  refine ⟨?_, ?_, ?_⟩
  · rw [hcount]
    unfold storedAs stored
    rw [hmap]
    exact getElem?_concat_length
  · rw [PolicyHandle.store, h.generation]
    dsimp only
    omega
  · intro c hc
    obtain ⟨k, hk, hgen, pf', hpf, hnew⟩ := h.cached c hc
    exact ⟨k, by omega, hgen, pf', by rwa [storedAs_concat hk], hnew⟩

theorem Tracking.unstored {ev : Event} (hev : storedBy ev = none) :
    Tracking regex initial (es ++ [ev]) e := by
  have hmap : (es ++ [ev]).filterMap storedBy = es.filterMap storedBy := by simp [hev]
  have hcount : stores (es ++ [ev]) = stores es := by rw [stores, hmap, stores]
  have hsame : storedAs initial (es ++ [ev]) = storedAs initial es := by
    funext k
    rw [storedAs, stored, hmap, storedAs, stored]
  exact ⟨by rw [hcount, hsame]; exact h.policy, by rw [hcount]; exact h.generation,
    by rw [hcount, hsame]; exact h.cached⟩

theorem Tracking.evaluator : Tracking regex initial es (e.evaluator regex).2 := by
  unfold RuleEngine.evaluator
  split
  · exact h
  split
  · next ev hnew =>
    refine ⟨h.policy, h.generation, fun c hc => ?_⟩
    obtain rfl := mem_some.1 hc
    exact ⟨stores es, le_rfl, h.generation, e.handle.policy, h.policy, hnew⟩
  · exact h

theorem Tracking.exec (ev : Event) : Tracking regex initial (es ++ [ev]) (e.exec regex ev) := by
  cases ev with
  | fileChanged attempts =>
    rw [RuleEngine.exec, PolicyHandle.onChange]
    cases hload : reload (attempts.take reloadAttempts) with
    | none => exact h.unstored hload
    | some pf => exact h.store hload
  | pushPolicy pf => exact h.store rfl
  | validate ctx =>
    exact h.evaluator.unstored rfl

end

theorem tracking_run (regex : RegexBuilder) (initial : PolicyFile) (es : List Event) :
    Tracking regex initial es (run (exec regex) (new initial) es) := by
  induction es using reverseRecOn with
  | nil => exact tracking_new initial
  | append_singleton es ev ih =>
    rw [run_concat]
    exact ih.exec ev

/-- **The cache never answers for another policy**, until the generations wrap around. -/
theorem Tracking.evaluator_eq (h : Tracking regex initial es e) (hcount : stores es < 2 ^ 64) :
    (e.evaluator regex).1 = RuleEvaluator.new regex e.handle.policy := by
  unfold RuleEngine.evaluator
  split
  · next c hc =>
    obtain ⟨hmem, hgen⟩ := filter_eq_some_iff.1 hc
    obtain ⟨k, hk, hck, pf, hpf, hnew⟩ := h.cached c hmem
    have hlast : k = stores es := by
      have := h.generation
      simp only [decide_eq_true_eq] at hgen
      omega
    rw [hlast, h.policy] at hpf
    rw [some.inj hpf, hnew]
  · split
    · next hnew => exact hnew.symm
    · next hnew => exact hnew.symm

theorem Tracking.latestBuilding (h : Tracking regex initial es e)
    (hbuilds : Builds regex e.handle.policy) :
    latestBuilding regex initial es = some e.handle.policy := by
  have hlast : (stored initial es).getLast? = some e.handle.policy := by
    rw [getLast?_eq_getElem?]
    exact h.policy
  obtain ⟨rest, hrest⟩ := getLast?_eq_some_iff.1 hlast
  rw [RuleEngine.latestBuilding, hrest, reverse_concat]
  exact find?_cons_of_pos (by simpa using hbuilds)

theorem builds_iff {pf : PolicyFile} :
    Builds regex pf ↔ ∃ ev, RuleEvaluator.new regex pf = .ok ev := by
  unfold Builds
  cases RuleEvaluator.new regex pf with
  | ok ev | error f => simp [Except.toOption]

/-- **Enforcement of the rules.** After any reloads and calls, of which fewer than 2^64 store a
policy: a call is evaluated against the last stored policy that builds exactly if the policy stored
last builds. -/
theorem rule_enforcement_iff (regex : RegexBuilder) (initial : PolicyFile) (es : List Event)
    (hcount : stores es < 2 ^ 64) (ctx : EvalContext) :
    let e := run (exec regex) (new initial) es
    (∃ pf ev, latestBuilding regex initial es = some pf ∧ RuleEvaluator.new regex pf = .ok ev ∧
        (e.ruleStage regex ctx).1 = .evaluated (ev.evaluate regex ctx).1) ↔
      Builds regex e.handle.policy := by
  intro e
  have h : Tracking regex initial es e := tracking_run regex initial es
  have hstage : (e.ruleStage regex ctx).1 =
      .ofEvaluator regex ctx (RuleEvaluator.new regex e.handle.policy) :=
    congrArg (StageResult.ofEvaluator regex ctx) (h.evaluator_eq hcount)
  rw [hstage]
  constructor
  · rintro ⟨pf, ev, -, -, hresult⟩
    refine builds_iff.2 ?_
    cases hnew : RuleEvaluator.new regex e.handle.policy with
    | ok ev' => exact ⟨ev', rfl⟩
    | error f =>
      rw [hnew] at hresult
      cases f <;> exact absurd hresult (by simp [StageResult.ofEvaluator])
  · intro hbuilds
    obtain ⟨ev, hnew⟩ := builds_iff.1 hbuilds
    exact ⟨e.handle.policy, ev, h.latestBuilding hbuilds, hnew, by rw [hnew]; rfl⟩

/-- No text matches anything. -/
def noRegex : RegexBuilder := fun _ => some fun _ => false

/-- A rule that denies transfers to mallory. -/
def denyMallory : Rule :=
  ⟨"no_mallory", .safety, ⟨"recipient", .eq, .text "mallory"⟩, .deny, "not to mallory", [], false⟩

def enforcing (rules : List Rule) : PolicyFile := ⟨"1", rules, none, .enforce⟩

/-- A transfer to mallory. -/
def toMallory : EvalContext :=
  ⟨"bot", "transfer", 5, "USD", "mallory", 0, 0, 0, false, 0, 0, false, false, 0, false, false⟩

/-- The file is changed to a policy whose rule depends on a missing one. It parses, so the watcher
stores it, and the transfer that the first policy denies goes on without rules. -/
theorem broken_policy_disables_rules :
    let initial := enforcing [denyMallory]
    let broken := enforcing [{ denyMallory with dependsOn := ["no_such_rule"] }]
    let e := run (exec noRegex) (new initial) [.fileChanged [⟨true, some broken⟩]]
    Builds noRegex initial ∧ latestBuilding noRegex initial [.fileChanged [⟨true, some broken⟩]] =
        some initial ∧
      (RuleEvaluator.new noRegex initial).map (fun ev => (ev.evaluate noRegex toMallory).1) =
        .ok (.deny "no_mallory" "not to mallory") ∧
      (e.ruleStage noRegex toMallory).1 = .skipped := by
  decide +kernel

/-- A file that does not parse is not stored; the transfer is denied as before. -/
theorem unparsable_policy_keeps_rules :
    let es : List Event := [.fileChanged [⟨true, none⟩], .validate toMallory]
    let e := run (exec noRegex) (new (enforcing [denyMallory])) es
    (e.ruleStage noRegex toMallory).1 = .evaluated (.deny "no_mallory" "not to mallory") ∧
      ∃ pf ev, latestBuilding noRegex (enforcing [denyMallory]) es = some pf ∧
        RuleEvaluator.new noRegex pf = .ok ev ∧
        (e.ruleStage noRegex toMallory).1 = .evaluated (ev.evaluate noRegex toMallory).1 :=
  ⟨by decide +kernel, (rule_enforcement_iff noRegex (enforcing [denyMallory]) _ (by decide +kernel)
    toMallory).2 (by decide +kernel)⟩

end RuleEngine

end Haltchain.Validator

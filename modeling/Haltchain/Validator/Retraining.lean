import Haltchain.Lib.Run
import Haltchain.Validator.Pipeline

/-! # The retraining of an anomaly model

`observe_signal` of `agent_state.rs` returns a plan when the model of an agent is to be fitted anew.
A task completes it, with a model or without, at any later time. The window statistics, the
features, the model and the check of a cold start are parameters. -/

namespace Haltchain.Validator

open Lib

structure FeatureVector where
  velocity1m : Rat
  velocity5m : Rat
  acceleration : Rat
  entropy : Rat
  meanAmount : Rat
  cvAmount : Rat
  recipientDiversity : Rat

/-- The features as a list. -/
def FeatureVector.point (f : FeatureVector) : List Rat :=
  [f.velocity1m, f.velocity5m, f.acceleration, f.entropy, f.meanAmount, f.cvAmount,
    f.recipientDiversity]

/-- The functions of the analytics crate, over its trackers and models. -/
structure Detection (T M : Type) where
  record : T → Rat → T
  extract : List (Nat × Rat) → List String → Rat → FeatureVector
  score : M → List Rat → Rat
  coldStartCheck : List (Nat × Rat) → Rat → Option AnomalyResult

structure AnomalyRetrainPlan where
  generation : Nat
  samples : List (List Rat)

/-- The part of `AgentState` that these calls use. -/
structure Signals (T M : Type) where
  tracker : T
  recentAmounts : List (Nat × Rat)
  recentRecipients : List String
  recentFeatures : List (List Rat)
  anomalyModel : Option M
  anomalyGeneration : Nat
  anomalyRetrainInflight : Bool
  samplesSinceRetrain : Nat
  prevVelocity1m : Rat
  lastAnomalyScore : Option Rat

/-- At most 512 entries are kept. -/
def capped {α : Type} (l : List α) : List α := if 512 < l.length then l.tail else l

/-- `saturating_add(1)`. -/
def saturatingSucc (n : Nat) : Nat := min (n + 1) (2 ^ 64 - 1)

variable {T M : Type}

namespace Signals

/-- Before all signals. -/
def new (tracker : T) : Signals T M := ⟨tracker, [], [], [], none, 0, false, 0, 0, none⟩

def observeSignal (d : Detection T M) (s : Signals T M) (now : Nat) (amount : Rat)
    (recipient : Option String) :
    (Option AnomalyResult × Option AnomalyRetrainPlan) × Signals T M :=
  let recentAmounts := capped (s.recentAmounts ++ [(now, amount)])
  let recentRecipients := capped (s.recentRecipients ++ [recipient.getD "unknown"])
  let feature := d.extract recentAmounts recentRecipients s.prevVelocity1m
  let recentFeatures := capped (s.recentFeatures ++ [feature.point])
  let samples := saturatingSucc s.samplesSinceRetrain
  let shouldRetrain := !s.anomalyRetrainInflight && decide (64 ≤ recentFeatures.length) &&
    (s.anomalyModel.isNone || decide (64 ≤ samples))
  let generation :=
    if shouldRetrain then saturatingSucc s.anomalyGeneration else s.anomalyGeneration
  let plan := if shouldRetrain then
      some ⟨generation, recentFeatures.drop (recentFeatures.length - 256)⟩
    else none
  let score := s.anomalyModel.map (d.score · feature.point)
  let result := match score with
    | some score => some ⟨score, anomalyThreshold < score⟩
    | none => d.coldStartCheck recentAmounts amount
  ((result, plan),
    { tracker := d.record s.tracker amount
      recentAmounts
      recentRecipients
      recentFeatures
      anomalyModel := s.anomalyModel
      anomalyGeneration := generation
      anomalyRetrainInflight := s.anomalyRetrainInflight || shouldRetrain
      samplesSinceRetrain := if shouldRetrain then 0 else samples
      prevVelocity1m := feature.velocity1m
      lastAnomalyScore := score })

/-- Whether the model is installed. -/
def applyRetrainedModel (s : Signals T M) (generation : Nat) (model : M) : Bool × Signals T M :=
  if generation ≠ s.anomalyGeneration then (false, s)
  else (true, { s with anomalyModel := some model, anomalyRetrainInflight := false })

def markRetrainFailed (s : Signals T M) (generation : Nat) : Signals T M :=
  if generation = s.anomalyGeneration then { s with anomalyRetrainInflight := false } else s

/-- **What a signal can do to the handshake.** -/
theorem observeSignal_cases (d : Detection T M) (s : Signals T M) (now : Nat) (amount : Rat)
    (recipient : Option String) :
    let out := s.observeSignal d now amount recipient
    (out.1.2 = none ∧ out.2.anomalyGeneration = s.anomalyGeneration ∧
      out.2.anomalyRetrainInflight = s.anomalyRetrainInflight) ∨
    (∃ samples, s.anomalyRetrainInflight = false ∧
      out.1.2 = some ⟨saturatingSucc s.anomalyGeneration, samples⟩ ∧
      out.2.anomalyGeneration = saturatingSucc s.anomalyGeneration ∧
      out.2.anomalyRetrainInflight = true) := by
  intro out
  simp only [out, observeSignal]
  split_ifs with hretrain
  · have hidle : s.anomalyRetrainInflight = false := by
      simp only [Bool.and_eq_true, Bool.not_eq_true'] at hretrain
      exact hretrain.1.1
    exact .inr ⟨_, hidle, rfl, rfl, by rw [hretrain, Bool.or_true]⟩
  · exact .inl ⟨rfl, rfl, by rw [Bool.eq_false_of_not_eq_true hretrain, Bool.or_false]⟩

end Signals

/-! ## Plans and their tasks -/

/-- An agent and the plans it has returned that no task has completed. -/
structure Retraining (T M : Type) where
  agent : Signals T M
  outstanding : List AnomalyRetrainPlan

inductive RetrainEvent (M : Type) where
  | observe (now : Nat) (amount : Rat) (recipient : Option String)
  /-- The task of the outstanding plan at `i` has a model. -/
  | apply (i : Nat) (model : M)
  /-- Or it has failed. -/
  | fail (i : Nat)

namespace Retraining

/-- Before all signals. -/
def new (tracker : T) : Retraining T M := ⟨.new tracker, []⟩

/-- One event. -/
def exec (d : Detection T M) (s : Retraining T M) : RetrainEvent M → Retraining T M
  | .observe now amount recipient =>
    let out := s.agent.observeSignal d now amount recipient
    ⟨out.2, s.outstanding ++ out.1.2.toList⟩
  | .apply i model =>
    match s.outstanding[i]? with
    | some plan =>
      ⟨(s.agent.applyRetrainedModel plan.generation model).2, s.outstanding.eraseIdx i⟩
    | none => s
  | .fail i =>
    match s.outstanding[i]? with
    | some plan => ⟨s.agent.markRetrainFailed plan.generation, s.outstanding.eraseIdx i⟩
    | none => s

/-- The plan for which an event installs a model. -/
def installs (s : Retraining T M) : RetrainEvent M → Option AnomalyRetrainPlan
  | .apply i model => s.outstanding[i]?.filter fun plan =>
      (s.agent.applyRetrainedModel plan.generation model).1
  | .observe .. | .fail _ => none

/-- No plan is outstanding, or one of the current generation, with the flag set. -/
inductive Handshake (s : Retraining T M) : Prop where
  | idle (h : s.outstanding = []) (hflag : s.agent.anomalyRetrainInflight = false)
  | waiting (plan : AnomalyRetrainPlan) (h : s.outstanding = [plan])
      (hgeneration : plan.generation = s.agent.anomalyGeneration)
      (hflag : s.agent.anomalyRetrainInflight = true)

variable {s : Retraining T M}

/-- The plan that a task completes is the only one. -/
theorem Handshake.of_getElem? (h : s.Handshake) {i : Nat} {plan : AnomalyRetrainPlan}
    (hi : s.outstanding[i]? = some plan) : s.outstanding = [plan] ∧ s.outstanding.eraseIdx i = [] ∧
      plan.generation = s.agent.anomalyGeneration := by
  cases h with
  | idle h => simp [h] at hi
  | waiting plan' h hgeneration =>
    obtain ⟨rfl, rfl⟩ : i = 0 ∧ plan' = plan := by
      simpa [h, List.getElem?_singleton] using hi
    exact ⟨h, by rw [h]; rfl, hgeneration⟩

theorem Handshake.exec (h : s.Handshake) (d : Detection T M) (e : RetrainEvent M) :
    (s.exec d e).Handshake := by
  cases e with
  | observe now amount recipient =>
    rcases Signals.observeSignal_cases d s.agent now amount recipient with
      ⟨hplan, hgeneration, hflag⟩ | ⟨samples, hidle, hplan, hgeneration, hflag⟩
    · simp only [Retraining.exec, hplan, Option.toList_none, List.append_nil]
      cases h with
      | idle h hidle => exact .idle h (hflag.trans hidle)
      | waiting plan h hcurrent hset =>
        exact .waiting plan h (hcurrent.trans hgeneration.symm) (hflag.trans hset)
    · simp only [Retraining.exec, hplan]
      cases h with
      | idle h => exact .waiting _ (by rw [h]; rfl) hgeneration.symm hflag
      | waiting plan h hcurrent hset => simp [hidle] at hset
  | apply i model =>
    rw [Retraining.exec]
    split
    · next plan hi =>
      obtain ⟨-, herase, hcurrent⟩ := h.of_getElem? hi
      rw [Signals.applyRetrainedModel, if_neg (not_not.2 hcurrent)]
      exact .idle herase rfl
    · exact h
  | fail i =>
    rw [Retraining.exec]
    split
    · next plan hi =>
      obtain ⟨-, herase, hcurrent⟩ := h.of_getElem? hi
      rw [Signals.markRetrainFailed, if_pos hcurrent]
      exact .idle herase rfl
    · exact h

/-- A model is installed only for the outstanding plan. -/
theorem Handshake.installs (h : s.Handshake) {e : RetrainEvent M} {plan : AnomalyRetrainPlan}
    (he : s.installs e = some plan) : s.outstanding = [plan] := by
  cases e with
  | observe | fail => cases he
  | apply i model => exact (h.of_getElem? (Option.filter_eq_some_iff.1 he).1).1

/-- **The handshake.** For signals and completions in any order, each plan completed at most once:
at most one plan is outstanding, of the current generation, the flag is set exactly while there is
one, and a model is installed only for it. -/
theorem retrain_handshake (d : Detection T M) (tracker : T) (es : List (RetrainEvent M)) :
    let s := run (exec d) (new tracker) es
    s.outstanding.length ≤ 1 ∧
    (∀ plan ∈ s.outstanding, plan.generation = s.agent.anomalyGeneration) ∧
    (s.agent.anomalyRetrainInflight = true ↔ s.outstanding ≠ []) ∧
    ∀ e plan, s.installs e = some plan → s.outstanding = [plan] := by
  intro s
  have hs : s.Handshake :=
    run_invariant (f := exec d) (.idle rfl rfl) (fun _ e h => h.exec d e) es
  refine ⟨?_, ?_, ?_, fun e plan => hs.installs⟩
  all_goals cases hs with
  | idle h hflag => simp [h, hflag]
  | waiting plan h hgeneration hflag => simp [h, hflag, hgeneration]

end Retraining

end Haltchain.Validator

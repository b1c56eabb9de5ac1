
/-! # The state kept for an agent

`AgentState` of the validator crate: the recent actions, the circuit breaker, and the signals of the
anomaly detection and the calibration, which are a type `σ` here. Instants are in nanoseconds; a
function that reads the clock is given the reading. -/

namespace Haltchain.Validator

/-- `Duration::from_secs`. -/
def secs (n : Nat) : Nat := n * 1000000000

/-- The length of the windows. -/
def minute : Nat := secs 60

/-- The limit of an agent. -/
def maxActionsPerMinute : Nat := 10

/-- The hold time of a breaker that the pipeline trips. -/
def circuitBreakSecs : Nat := 300

/-- The hold time of `force_halt_agent` and `emergency_halt_all`. -/
def haltSecs : Nat := 86400

/-- A tripped breaker. -/
structure CircuitBreak where
  trippedAt : Nat
  duration : Nat
  reason : String
deriving DecidableEq

/-- The end of the hold time. -/
def CircuitBreak.deadline (b : CircuitBreak) : Nat := b.trippedAt + b.duration

/-- What is kept of an agent. -/
structure AgentState (σ : Type) where
  actionTimestamps : List Nat
  circuitBreak : Option CircuitBreak
  signals : σ

namespace AgentState

variable {σ : Type}

/-- A new agent. -/
def new [Inhabited σ] : AgentState σ := ⟨[], none, default⟩

/-- The reason, if the breaker is open; an expired one is cleared. -/
def circuitBreakActive (a : AgentState σ) (now : Nat) : Option String × AgentState σ :=
  match a.circuitBreak with
  | some b =>
    -- `elapsed` saturates at zero
    if now - b.trippedAt < b.duration then (some b.reason, a)
    else (none, { a with circuitBreak := none })
  | none => (none, { a with circuitBreak := none })

theorem circuitBreakActive_of_none {a : AgentState σ} {now : Nat}
    (h : (a.circuitBreakActive now).1 = none) :
    a.circuitBreakActive now = (none, { a with circuitBreak := none }) := by
  unfold circuitBreakActive at h ⊢
  split
  · next b hb =>
    rw [hb] at h
    dsimp only at h
    split at h
    · simp at h
    · next hlt => rw [if_neg hlt]
  · rfl

/-- Opens the breaker. -/
def tripCircuitBreaker (a : AgentState σ) (now duration : Nat) (reason : String) : AgentState σ :=
  { a with circuitBreak := some ⟨now, duration, reason⟩ }

/-- Drops the actions of more than a minute ago and counts the rest. -/
def currentActionCount (a : AgentState σ) (now : Nat) : Nat × AgentState σ :=
  let recent := a.actionTimestamps.filter fun t => now < t + secs 60
  (recent.length, { a with actionTimestamps := recent })

def recordAction (a : AgentState σ) (now : Nat) : AgentState σ :=
  { a with actionTimestamps := a.actionTimestamps ++ [now] }

/-- What is dropped at one time is dropped at any later one. -/
theorem currentActionCount_later (a : AgentState σ) {now later : Nat} (hle : now ≤ later) :
    (a.currentActionCount now).2.currentActionCount later = a.currentActionCount later := by
  have hfilter : (a.actionTimestamps.filter fun t => now < t + secs 60).filter
      (fun t => later < t + secs 60) = a.actionTimestamps.filter fun t => later < t + secs 60 := by
    rw [List.filter_filter]
    refine List.filter_congr fun t _ => ?_
    rw [Bool.eq_iff_iff]
    simp only [Bool.and_eq_true, decide_eq_true_eq]
    omega
  simp only [currentActionCount, hfilter]

/-- **A look at the breaker**, no earlier than its trip: it is open up to its deadline and left
alone, or it has been cleared. -/
theorem circuitBreakActive_cases (a : AgentState σ) {now : Nat}
    (hpast : ∀ b ∈ a.circuitBreak, b.trippedAt ≤ now) :
    (∃ b, a.circuitBreak = some b ∧ now < b.deadline ∧
        a.circuitBreakActive now = (some b.reason, a)) ∨
      ((∀ b ∈ a.circuitBreak, b.deadline ≤ now) ∧
        a.circuitBreakActive now = (none, { a with circuitBreak := none })) := by
  unfold circuitBreakActive CircuitBreak.deadline
  cases hb : a.circuitBreak with
  | none => exact .inr ⟨fun b hmem => absurd hmem (by simp), rfl⟩
  | some b =>
    have hle := hpast b hb
    by_cases hlt : now - b.trippedAt < b.duration
    · exact .inl ⟨b, rfl, by omega, by dsimp only; rw [if_pos hlt]⟩
    · refine .inr ⟨fun b' hmem => ?_, by dsimp only; rw [if_neg hlt]⟩
      obtain rfl := Option.mem_some.1 hmem
      omega

end AgentState

end Haltchain.Validator

import Haltchain.Api.TokenBucket
import Haltchain.Lib.Interleaving

/-! # The gate before validation

`ValidateIngressGate` of `crates/api/src/auth.rs`. A request that is let in holds a permit of a
semaphore and is counted in `inflight`, against a limit that a controller lowers when answers get
slow. Each access to one of the three atomics is a step here.

Counters are 64 bits wide. What goes through `f64` is a parameter. -/

namespace Haltchain.Api

open Consensus (Overflow)
open Lib

/-- The configured limits. -/
structure ValidateIngressConfig where
  permits : Nat
  permitFloor : Nat
  p95TargetMs : Nat

/-- The state of the gate. -/
structure ValidateIngressGate where
  /-- The permits that the semaphore has left. -/
  semaphore : Nat
  inflight : Nat
  permitLimit : Nat
  permitFloor : Nat
  p95TargetMs : Nat
  latencySamples : List (Nat × Nat)
  breachSince : Option Nat

/-- `usize::MAX`. -/
def usizeMax : Nat := 18446744073709551615

/-- `Semaphore::MAX_PERMITS`. -/
def maxPermits : Nat := usizeMax / 8

/-- Three seconds, of nanoseconds. -/
def adaptiveWindow : Nat := 3 * 10 ^ 9

/-- What `f64` computes: the index of the 95th percentile, nine tenths of a limit. -/
structure Floats where
  p95Index : Nat → Nat
  nineTenths : Nat → Nat

namespace ValidateIngressGate

/-- `None` when the semaphore panics. -/
def new (cfg : ValidateIngressConfig) : Option ValidateIngressGate :=
  if cfg.permits ≤ maxPermits then
    some
      { semaphore := cfg.permits
        inflight := 0
        permitLimit := cfg.permits
        permitFloor := cfg.permitFloor
        p95TargetMs := cfg.p95TargetMs
        latencySamples := []
        breachSince := none }
  else none

/-- `fetch_add(1)`. -/
def count (g : ValidateIngressGate) : ValidateIngressGate :=
  { g with inflight := if g.inflight = usizeMax then 0 else g.inflight + 1 }

/-- `fetch_sub(1)`. -/
def uncount (g : ValidateIngressGate) : ValidateIngressGate :=
  { g with inflight := if g.inflight = 0 then usizeMax else g.inflight - 1 }

section

variable (g : ValidateIngressGate)

@[simp] theorem semaphore_count : g.count.semaphore = g.semaphore := rfl

@[simp] theorem semaphore_uncount : g.uncount.semaphore = g.semaphore := rfl

end

variable {g : ValidateIngressGate}

theorem inflight_count (h : g.inflight < usizeMax) :
    g.count.inflight = g.inflight + 1 := if_neg h.ne

theorem inflight_uncount (h : 0 < g.inflight) : g.uncount.inflight = g.inflight - 1 := if_neg h.ne'

/-! ## Requests -/

/-- Where a request is in `try_acquire` or the drop of its permit, with the limit loaded. -/
inductive Phase where
  | idle
  /-- To look at `inflight`. -/
  | loaded (limit : Nat)
  /-- To take a permit of the semaphore. -/
  | below (limit : Nat)
  /-- To count itself. -/
  | reserved (limit : Nat)
  /-- To take back its count, since it was over the limit. -/
  | exceeding
  /-- It has the permit of the gate. -/
  | holding (limit : Nat)
  /-- To give back the permit of the semaphore. -/
  | uncounted

/-- The next access of a request. A permit is dropped from the count first, then from the
semaphore. -/
def step (g : ValidateIngressGate) : Phase → ValidateIngressGate × Phase
  | .idle => (g, .loaded g.permitLimit)
  | .loaded limit => (g, if limit ≤ g.inflight then .idle else .below limit)
  | .below limit =>
    if g.semaphore = 0 then (g, .idle)
    else ({ g with semaphore := g.semaphore - 1 }, .reserved limit)
  | .reserved limit => (g.count, if limit < g.inflight + 1 then .exceeding else .holding limit)
  | .exceeding => (g.uncount, .uncounted)
  | .holding _ => (g.uncount, .uncounted)
  | .uncounted => ({ g with semaphore := g.semaphore + 1 }, .idle)

/-! ## The controller -/

/-- The samples of the window: older ones go from the front. -/
def prune (now : Nat) (samples : List (Nat × Nat)) : List (Nat × Nat) :=
  samples.dropWhile fun s => adaptiveWindow < now - s.1

def observeLatency (g : ValidateIngressGate) (now elapsed : Nat) : ValidateIngressGate :=
  { g with latencySamples := prune now (g.latencySamples ++ [(now, elapsed / 1000 % 2 ^ 64)]) }

/-- Where the controller is in `maybe_reduce_permits`; from `breached` on it has the lock. -/
inductive Controller where
  | ready
  /-- To look at `breach_since`. -/
  | measured (now p95Us targetUs : Nat)
  /-- To load the limit. -/
  | breached (now : Nat)
  /-- To load the floor. -/
  | loaded (now current : Nat)
  /-- To store the new limit. -/
  | reduced (now next : Nat)
  /-- To set `breach_since`. -/
  | closing (now : Nat)
  | panicked

/-- `p95_target_ms * 1_000`, of `u64`. -/
def targetUs (ov : Overflow) (g : ValidateIngressGate) : Option Nat :=
  if g.p95TargetMs * 1000 < 2 ^ 64 then some (g.p95TargetMs * 1000)
  else match ov with
    | .checked => none
    | .wrapping => some (g.p95TargetMs * 1000 % 2 ^ 64)

/-- The next access of the controller; a call that it starts reads the clock at `now`. -/
def control (ov : Overflow) (floats : Floats) (g : ValidateIngressGate) (now : Nat) :
    Controller → ValidateIngressGate × Controller
  | .ready =>
    match g.targetUs ov with
    | none => (g, .panicked)
    | some targetUs =>
      let samples := prune now g.latencySamples
      let g := { g with latencySamples := samples }
      if samples.length < 20 then (g, .ready)
      else
        let latencies := (samples.map (·.2)).mergeSort
        match latencies[floats.p95Index latencies.length]? with
        | none => (g, .panicked)
        | some p95Us => (g, .measured now p95Us targetUs)
  | .measured now p95Us targetUs =>
    if targetUs < p95Us then
      match g.breachSince with
      | some started => (g, if 3 * 10 ^ 9 ≤ now - started then .breached now else .ready)
      | none => ({ g with breachSince := some now }, .ready)
    else ({ g with breachSince := none }, .ready)
  | .breached now => (g, .loaded now g.permitLimit)
  | .loaded now current =>
    if g.permitFloor < current then
      let reduced := floats.nineTenths current
      let reduced := if current ≤ reduced then current - 1 else reduced
      (g, .reduced now (max reduced g.permitFloor))
    else (g, .closing now)
  | .reduced now next => ({ g with permitLimit := next }, .closing now)
  | .closing now => ({ g with breachSince := some now }, .ready)
  | .panicked => (g, .panicked)

/-! ## Requests and controller together -/

variable {ι : Type*}

structure System (ι : Type*) where
  requests : Threads ι ValidateIngressGate Phase
  controller : Controller

inductive Event (ι : Type*) where
  | request (t : ι)
  | observeLatency (now elapsed : Nat)
  | control (now : Nat)

namespace System

/-- The gate that all share. -/
def gate (s : System ι) : ValidateIngressGate := s.requests.shared

/-- Where a request is. -/
def phase (s : System ι) (t : ι) : Phase := s.requests.locals t

/-- No request has come yet. -/
def start (g : ValidateIngressGate) : System ι := ⟨⟨g, fun _ => .idle⟩, .ready⟩

def exec [DecidableEq ι] (ov : Overflow) (floats : Floats) (s : System ι) : Event ι → System ι
  | .request t => { s with requests := s.requests.exec step t }
  | .observeLatency now elapsed =>
    { s with requests := { s.requests with shared := s.gate.observeLatency now elapsed } }
  | .control now =>
    let r := s.gate.control ov floats now s.controller
    ⟨{ s.requests with shared := r.1 }, r.2⟩

end System

/-- The request has been given a permit and has not begun to drop it. -/
def Phase.Live (p : Phase) : Prop := ∃ limit, p = .holding limit

def System.live (s : System ι) : Set ι := {t | (s.phase t).Live}

/-- The request has counted itself. -/
def Phase.counted : Phase → Bool
  | .exceeding | .holding _ => true
  | _ => false

/-- The request has a permit of the semaphore. -/
def Phase.reserves : Phase → Bool
  | .reserved _ | .exceeding | .holding _ | .uncounted => true
  | _ => false

/-! ## What the requests keep -/

/-- What one access does to the two counters and to what the request has. -/
theorem step_cases (g : ValidateIngressGate) (p : Phase) :
    (((step g p).1 = g ∧ (step g p).2.counted = p.counted ∧ (step g p).2.reserves = p.reserves) ∨
      (0 < g.semaphore ∧ (step g p).1 = { g with semaphore := g.semaphore - 1 } ∧
        p.counted = false ∧ p.reserves = false ∧
        (step g p).2.counted = false ∧ (step g p).2.reserves = true)) ∨
    ((step g p).1 = g.count ∧ p.counted = false ∧ p.reserves = true ∧
      (step g p).2.counted = true ∧ (step g p).2.reserves = true) ∨
    ((step g p).1 = g.uncount ∧ p.counted = true ∧ p.reserves = true ∧
      (step g p).2.counted = false ∧ (step g p).2.reserves = true) ∨
    ((step g p).1 = { g with semaphore := g.semaphore + 1 } ∧ p.counted = false ∧
      p.reserves = true ∧ (step g p).2.counted = false ∧ (step g p).2.reserves = false) := by
  cases p with
  | idle => exact .inl (.inl ⟨rfl, rfl, rfl⟩)
  | loaded limit =>
    simp only [step]
    split <;> exact .inl (.inl ⟨trivial, rfl, rfl⟩)
  | below limit =>
    simp only [step]
    split
    · exact .inl (.inl ⟨rfl, rfl, rfl⟩)
    · next h => exact .inl (.inr ⟨Nat.pos_of_ne_zero h, rfl, rfl, rfl, rfl, rfl⟩)
  | reserved limit =>
    simp only [step]
    split <;> exact .inr (.inl ⟨trivial, rfl, rfl, rfl, rfl⟩)
  | exceeding | holding limit => exact .inr (.inr (.inl ⟨rfl, rfl, rfl, rfl, rfl⟩))
  | uncounted => exact .inr (.inr (.inr ⟨rfl, rfl, rfl, rfl, rfl⟩))

variable {p : Phase}

/-- The numbers of requests counted and permitted move as the counters do. -/
theorem step_counts {n n' m m' permits : Nat} (hn : g.inflight = n)
    (hm : g.semaphore + m = permits) (hpermits : permits ≤ usizeMax) (hle : n' ≤ m')
    (hn' : n' + (if p.counted = true then 1 else 0) = n + if (step g p).2.counted = true then 1
      else 0)
    (hm' : m' + (if p.reserves = true then 1 else 0) = m + if (step g p).2.reserves = true then 1
      else 0) : (step g p).1.inflight = n' ∧ (step g p).1.semaphore + m' = permits := by
  rcases step_cases g p with
    (⟨hg, hc, hr⟩ | ⟨hpos, hg, hc, hr, hc', hr'⟩) | ⟨hg, hc, hr, hc', hr'⟩ |
      ⟨hg, hc, hr, hc', hr'⟩ | ⟨hg, hc, hr, hc', hr'⟩
  · rw [hc] at hn'
    rw [hr] at hm'
    rw [hg]
    omega
  · rw [hc, hc'] at hn'
    rw [hr, hr'] at hm'
    rw [hg]
    simp only [Bool.false_eq_true, if_false, if_true] at hn' hm' ⊢
    omega
  · rw [hc, hc'] at hn'
    rw [hr, hr'] at hm'
    simp only [Bool.false_eq_true, if_false, if_true] at hn' hm'
    rw [hg, inflight_count (by omega), semaphore_count]
    omega
  · rw [hc, hc'] at hn'
    rw [hr, hr'] at hm'
    simp only [Bool.false_eq_true, if_false, if_true] at hn' hm'
    rw [hg, inflight_uncount (by omega), semaphore_uncount]
    omega
  · rw [hc, hc'] at hn'
    rw [hr, hr'] at hm'
    rw [hg]
    simp only [Bool.false_eq_true, if_false, if_true] at hn' hm' ⊢
    omega

theorem step_limits (g : ValidateIngressGate) (p : Phase) :
    (step g p).1.permitLimit = g.permitLimit ∧ (step g p).1.permitFloor = g.permitFloor := by
  rcases step_cases g p with
    (⟨hg, -⟩ | ⟨-, hg, -⟩) | ⟨hg, -⟩ | ⟨hg, -⟩ | ⟨hg, -⟩ <;> simp [hg, count, uncount]

/-- A request is granted its permit after it was counted within the limit. -/
theorem inflight_le_of_grant {limit : Nat} (hbefore : ¬ p.Live)
    (hafter : (step g p).2 = .holding limit) : (step g p).1.inflight ≤ limit := by
  cases p with
  | idle => cases hafter
  | loaded limit' | below limit' =>
    simp only [step] at hafter
    split at hafter <;> cases hafter
  | reserved limit' =>
    have hcount : g.count.inflight ≤ g.inflight + 1 := by
      unfold count
      dsimp only
      split <;> omega
    simp only [step] at hafter ⊢
    split at hafter
    · cases hafter
    · cases hafter
      omega
  | exceeding => cases hafter
  | holding limit' => exact absurd ⟨limit', rfl⟩ hbefore
  | uncounted => cases hafter

/-! ## What the controller keeps -/

/-- What the controller has loaded is still so, since no one else stores a limit. -/
def Controller.Knows (g : ValidateIngressGate) : Controller → Prop
  | .loaded _ current => current = g.permitLimit
  | .reduced _ next => g.permitFloor ≤ next ∧ next ≤ g.permitLimit
  | _ => True

theorem Controller.Knows.congr {g' : ValidateIngressGate} {k : Controller} (h : k.Knows g)
    (hlimit : g'.permitLimit = g.permitLimit) (hfloor : g'.permitFloor = g.permitFloor) :
    k.Knows g' := by
  cases k with
  | loaded now current => exact h.trans hlimit.symm
  | reduced now next => exact ⟨hfloor ▸ h.1, hlimit ▸ h.2⟩
  | _ => trivial

theorem control_keeps (ov : Overflow) (floats : Floats) (g : ValidateIngressGate) (now : Nat)
    {k : Controller} (hknows : k.Knows g) (hfloor : g.permitFloor ≤ g.permitLimit) :
    let g' := (g.control ov floats now k).1
    g'.inflight = g.inflight ∧ g'.semaphore = g.semaphore ∧ g'.permitFloor = g.permitFloor ∧
      g.permitFloor ≤ g'.permitLimit ∧ g'.permitLimit ≤ g.permitLimit ∧
      (g.control ov floats now k).2.Knows g' := by
  cases k with
  | ready =>
    simp only [control]
    split
    · exact ⟨rfl, rfl, rfl, hfloor, le_rfl, trivial⟩
    · split
      · exact ⟨rfl, rfl, rfl, hfloor, le_rfl, trivial⟩
      · split <;> exact ⟨rfl, rfl, rfl, hfloor, le_rfl, trivial⟩
  | measured now p95Us targetUs =>
    simp only [control]
    split
    · split
      · split <;> exact ⟨rfl, rfl, rfl, hfloor, le_rfl, trivial⟩
      · exact ⟨rfl, rfl, rfl, hfloor, le_rfl, trivial⟩
    · exact ⟨rfl, rfl, rfl, hfloor, le_rfl, trivial⟩
  | breached now => exact ⟨rfl, rfl, rfl, hfloor, le_rfl, rfl⟩
  | loaded now current =>
    obtain rfl : current = g.permitLimit := hknows
    simp only [control]
    split
    · refine ⟨rfl, rfl, rfl, hfloor, le_rfl, le_max_right _ _, ?_⟩
      refine Nat.max_le.2 ⟨?_, hfloor⟩
      show _ ≤ g.permitLimit
      split <;> omega
    · exact ⟨rfl, rfl, rfl, hfloor, le_rfl, trivial⟩
  | reduced now next => exact ⟨rfl, rfl, rfl, hknows.1, hknows.2, trivial⟩
  | closing now | panicked => exact ⟨rfl, rfl, rfl, hfloor, le_rfl, trivial⟩

/-! ## Every interleaving -/

/-- What holds of a gate with these settings after every step. -/
structure System.Inv (cfg : ValidateIngressConfig) (s : System ι) : Prop where
  floor_eq : s.gate.permitFloor = cfg.permitFloor
  floor_le : cfg.permitFloor ≤ s.gate.permitLimit
  limit_le : s.gate.permitLimit ≤ cfg.permits
  knows : s.controller.Knows s.gate
  counted : s.requests.HasCount (fun p => p.counted = true) s.gate.inflight
  reserved : ∃ m, s.requests.HasCount (fun p => p.reserves = true) m ∧
    s.gate.semaphore + m = cfg.permits

variable {cfg : ValidateIngressConfig} {s : System ι} {ov : Overflow} {floats : Floats}

theorem Phase.reserves_of_counted (h : p.counted = true) : p.reserves = true := by
  cases p <;> simp_all [Phase.counted, Phase.reserves]

theorem Phase.Live.counted (h : p.Live) : p.counted = true := by
  obtain ⟨limit, rfl⟩ := h
  rfl

namespace System

theorem inv_start (hfloor : cfg.permitFloor ≤ cfg.permits) (hnew : new cfg = some g) :
    (start g : System ι).Inv cfg := by
  unfold new at hnew
  split at hnew
  · cases hnew
    refine ⟨rfl, hfloor, le_rfl, trivial, ?_, 0, ?_, rfl⟩
    · simp [Threads.HasCount, start, gate, Phase.counted]
    · simp [Threads.HasCount, start, Phase.reserves]
  · cases hnew

theorem permits_le_of_new (h : new cfg = some g) : cfg.permits ≤ usizeMax := by
  unfold new at h
  split at h
  · next hle => exact hle.trans (Nat.div_le_self ..)
  · cases h

theorem Inv.exec [DecidableEq ι] (h : s.Inv cfg) (hpermits : cfg.permits ≤ usizeMax) (e : Event ι) :
    (s.exec ov floats e).Inv cfg := by
  obtain ⟨m, hreserved, hm⟩ := h.reserved
  cases e with
  | request t =>
    obtain ⟨hlimit, hfloor⟩ := step_limits s.gate (s.phase t)
    obtain ⟨n', hcounted', hn'⟩ := h.counted.exec step t
    obtain ⟨m', hreserved', hm'⟩ := hreserved.exec step t
    obtain ⟨hinflight, hsemaphore⟩ := step_counts (p := s.phase t) rfl hm hpermits
      (hcounted'.mono hreserved' fun _ => Phase.reserves_of_counted) hn' hm'
    refine ⟨hfloor.trans h.floor_eq, ?_, ?_, h.knows.congr hlimit hfloor, ?_, m', hreserved',
      hsemaphore⟩
    · exact hlimit ▸ h.floor_le
    · exact hlimit ▸ h.limit_le
    · rw [show gate _ = (step s.gate (s.phase t)).1 from rfl, hinflight]
      exact hcounted'
  | observeLatency now elapsed =>
    exact ⟨h.floor_eq, h.floor_le, h.limit_le, h.knows.congr rfl rfl, h.counted, m, hreserved, hm⟩
  | control now =>
    obtain ⟨hinflight, hsemaphore, hfloor, hfloor', hlimit, hknows⟩ :=
      control_keeps ov floats s.gate now h.knows (h.floor_eq.trans_le h.floor_le)
    refine ⟨hfloor.trans h.floor_eq, h.floor_eq ▸ hfloor', hlimit.trans h.limit_le, hknows, ?_, m,
      hreserved, ?_⟩
    · rw [show gate _ = (s.gate.control ov floats now s.controller).1 from rfl, hinflight]
      exact h.counted
    · rw [show gate _ = (s.gate.control ov floats now s.controller).1 from rfl, hsemaphore]
      exact hm

theorem Inv.permitLimit_exec_le [DecidableEq ι] (h : s.Inv cfg) (e : Event ι) :
    (s.exec ov floats e).gate.permitLimit ≤ s.gate.permitLimit := by
  cases e with
  | request t => exact (step_limits s.gate (s.phase t)).1.le
  | observeLatency now elapsed => exact le_rfl
  | control now =>
    obtain ⟨-, -, -, -, hle, -⟩ :=
      control_keeps ov floats s.gate now h.knows (h.floor_eq.trans_le h.floor_le)
    exact hle

theorem Inv.live_le (h : s.Inv cfg) : s.live.encard ≤ s.gate.inflight :=
  h.counted ▸ Set.encard_le_encard fun _ => Phase.Live.counted

theorem Inv.inflight_le (h : s.Inv cfg) : s.gate.inflight ≤ cfg.permits := by
  obtain ⟨m, hreserved, hm⟩ := h.reserved
  have hle := h.counted.mono hreserved fun _ => Phase.reserves_of_counted
  omega

/-- **The gate holds its bounds under every interleaving.** Live permits never exceed the semaphore,
nor, right after a grant, the limit the granted request had loaded. The count never goes below zero,
and with no request under way it is the number of live permits. The limit only goes down, not below
the floor. -/
theorem gate_bounds [DecidableEq ι] (ov : Overflow) (floats : Floats) (cfg : ValidateIngressConfig)
    (hfloor : cfg.permitFloor ≤ cfg.permits) (g : ValidateIngressGate) (hnew : new cfg = some g)
    (es : List (Event ι)) :
    let s : System ι := run (exec ov floats) (start g) es
    s.live.encard ≤ cfg.permits ∧
    (∀ t limit, ¬ (s.phase t).Live →
      (s.exec ov floats (.request t)).phase t = .holding limit →
        (s.exec ov floats (.request t)).live.encard ≤ limit) ∧
    (∀ t, s.phase t = .exceeding ∨ (s.phase t).Live → 0 < s.gate.inflight) ∧
    ((∀ t, s.phase t = .idle ∨ (s.phase t).Live) → s.live.encard = s.gate.inflight) ∧
    (∀ e, (s.exec ov floats e).gate.permitLimit ≤ s.gate.permitLimit) ∧
    cfg.permitFloor ≤ s.gate.permitLimit ∧ s.gate.permitLimit ≤ cfg.permits := by
  intro s
  have hpermits : cfg.permits ≤ usizeMax := permits_le_of_new hnew
  have hinv : s.Inv cfg := run_invariant (I := Inv cfg) (inv_start hfloor hnew)
    (fun s e h => h.exec hpermits e) es
  refine ⟨?_, fun t limit hbefore hafter => ?_, fun t ht => ?_, fun hquiet => ?_,
    fun e => hinv.permitLimit_exec_le e, hinv.floor_le, hinv.limit_le⟩
  · exact hinv.live_le.trans (by exact_mod_cast hinv.inflight_le)
  · have hle : (s.exec ov floats (.request t)).gate.inflight ≤ limit :=
      inflight_le_of_grant hbefore ((Threads.exec_locals_self ..).symm.trans hafter)
    exact (hinv.exec hpermits (.request t)).live_le.trans (by exact_mod_cast hle)
  · refine hinv.counted.pos (t := t) ?_
    rcases ht with hover | hlive
    · exact (congrArg Phase.counted hover).trans rfl
    · exact hlive.counted
  · rw [← hinv.counted]
    congr 1
    ext t
    refine ⟨Phase.Live.counted, fun hcounted => (hquiet t).resolve_left fun hidle => ?_⟩
    have hcounted : (s.phase t).counted = true := hcounted
    rw [hidle] at hcounted
    cases hcounted

/-- A gate with one permit, a request that has it, and one that comes in between. -/
theorem gate_bounds_one_permit :
    ∃ g, new ⟨1, 1, 2⟩ = some g ∧
      let s : System Bool := run (exec .checked ⟨fun n => n - 1, fun n => n⟩) (start g)
        [.request true, .request true, .request false, .request true, .request true]
      s.phase true = .holding 1 ∧ s.phase false = .loaded 1 ∧ s.live.encard ≤ (1 : Nat) :=
  ⟨_, rfl, rfl, rfl, (gate_bounds .checked ⟨fun n => n - 1, fun n => n⟩ ⟨1, 1, 2⟩ (Nat.le_refl 1) _
    rfl [.request true, .request true, .request false, .request true, .request true]).1⟩

end System

end ValidateIngressGate

end Haltchain.Api

import Haltchain.Lib.Latch
import Haltchain.Validator.AppState

/-! # The kill switch

The breaker is one slot per agent, overwritten by each trip and cleared by each look that finds it
expired: the timed latch of `Lib.Latch`. The checks of the pipeline trip it only when they have just
found it closed, for five minutes, and a halt for a day.

`Timely`: the sections of an agent read the clock one after the other. `Section` and `exec_moved`
say what a step does to the breakers; the invariant `Guarded` is kept by whatever does only that. -/

namespace Haltchain.Validator

open Lib Observation List

/-- An open breaker rules out a later ALLOW, and its deadline never moves to an earlier time. -/
def Observation.Respects : Observation → Observation → Prop
  | .tripped a b, .decided a' now resp => a = a' → now < b.deadline → resp.decision ≠ .allow
  | .tripped a b, .tripped a' b' => a = a' → b.deadline ≤ b'.deadline
  | _, _ => True

/-- The breaker tripped, if this is one of the agent. -/
def Observation.trip? (agentId : String) : Observation → Option CircuitBreak
  | .tripped a b => if a = agentId then some b else none
  | _ => none

/-- When, and until when, the agent's breaker has been tripped. -/
def trips (agentId : String) (trace : List Observation) : List CircuitBreak :=
  trace.filterMap (Observation.trip? agentId)

variable {agentId : String} {b : CircuitBreak}

theorem mem_trips {trace : List Observation} :
    b ∈ trips agentId trace ↔ .tripped agentId b ∈ trace := by
  unfold trips
  rw [mem_filterMap]
  constructor
  · rintro ⟨o, ho, hb⟩
    cases o with
    | tripped a b' =>
      rw [trip?] at hb
      split at hb
      · next ha =>
        rw [← ha, ← Option.some.inj hb]
        exact ho
      · simp at hb
    | decided a now resp | rejected a resp | haltedAll count =>
      simp [trip?] at hb
  · intro ho
    exact ⟨_, ho, if_pos rfl⟩

theorem trips_append (agentId : String) (trace obs : List Observation) :
    trips agentId (trace ++ obs) = trips agentId trace ++ trips agentId obs :=
  filterMap_append

@[simp] theorem trips_tripped (agentId : String) (b : CircuitBreak) :
    trips agentId [.tripped agentId b] = [b] := by simp [trips, trip?]

theorem trips_tripped_ne {x : String} (h : x ≠ agentId) (b : CircuitBreak) :
    trips x [.tripped agentId b] = [] := by simp [trips, trip?, h.symm]

@[simp] theorem trips_decided (agentId x : String) (now : Nat) (resp : ValidationResponse) :
    trips x [.decided agentId now resp] = [] := rfl

variable {a : String}

theorem Observation.respects_tripped {trace : List Observation}
    (h : ∀ b' ∈ trips a trace, b'.deadline ≤ b.deadline) :
    ∀ o ∈ trace, o.Respects (.tripped a b) := by
  intro o ho
  cases o with
  | tripped a' b' =>
    rintro rfl
    exact h b' (mem_trips.2 ho)
  | decided | rejected | haltedAll => trivial

variable {now : Nat}

theorem Observation.respects_decided {trace : List Observation} {resp : ValidationResponse}
    (h : resp.decision = .allow → ∀ b ∈ trips a trace, b.deadline ≤ now) :
    ∀ o ∈ trace, o.Respects (.decided a now resp) := by
  intro o ho
  cases o with
  | tripped a' b =>
    rintro rfl hlt hallow
    exact absurd (h hallow b (mem_trips.2 ho)) (by omega)
  | decided | rejected | haltedAll => trivial

namespace AppState

variable {σ : Type} [Inhabited σ] {s s' : AppState σ}

/-! ## The clock -/

/-- A section reads the clock no earlier than the agent's last one. -/
def Timely (s : AppState σ) : Event σ → Prop
  | .decide id clk _ => ∀ call ∈ s.calls.lookup id, s.clock call.req.agentId ≤ clk.entered
  | .haltNext hid now _ => ∀ halt ∈ s.halts.lookup hid, ∀ agentId ∈ halt.next, s.clock agentId ≤ now
  | .status agentId clk => s.clock agentId ≤ clk.entered
  | _ => True

instance (s : AppState σ) (e : Event σ) : Decidable (s.Timely e) := by
  unfold Timely
  split <;> infer_instance

/-! ## What a step does to the breakers -/

/-- The breaker of the agent. -/
def breaker (s : AppState σ) (agentId : String) : Option CircuitBreak :=
  (s.agent agentId).circuitBreak

/-- A section of the agent leaves the breaker `b`, last reading the clock at `now`. -/
structure Section (s : AppState σ) (agentId : String) (b : Option CircuitBreak) (now : Nat)
    (obs : List Observation) (s' : AppState σ) : Prop where
  breaker : s'.breaker agentId = b
  others : ∀ x, x ≠ agentId → s'.breaker x = s.breaker x
  clock : s'.clock = Function.update s.clock agentId now
  trace : s'.trace = s.trace ++ obs

/-- Nothing happens to a breaker or is observed about one. -/
structure Quiet (s s' : AppState σ) : Prop where
  breaker : ∀ x, s'.breaker x = s.breaker x
  clock : s'.clock = s.clock
  trace : ∃ obs, s'.trace = s.trace ++ obs ∧
    ∀ o ∈ obs, (∃ a resp, o = .rejected a resp) ∨ ∃ count, o = .haltedAll count

/-- What a step does to the breakers. -/
inductive Moved (s s' : AppState σ) : Prop where
  | quiet (h : Quiet s s')
  | decided (agentId : String) (clk : Readings) (o : Outcome σ)
      (hle : s.clock agentId ≤ clk.entered)
      (hstep : (∀ b ∈ s.breaker agentId, b.trippedAt ≤ clk.entered) →
        BreakerStep clk (s.breaker agentId) o)
      (h : Section s agentId o.agent.circuitBreak clk.closed
        (o.tripped.toList.map (.tripped agentId) ++ [.decided agentId clk.entered o.response]) s')
  | halted (agentId : String) (b : CircuitBreak) (hle : s.clock agentId ≤ b.trippedAt)
      (hfor : b.duration = secs haltSecs)
      (h : Section s agentId (some b) b.trippedAt [.tripped agentId b] s')
  | looked (agentId : String) (clk : Readings) (hle : s.clock agentId ≤ clk.entered)
      (h : Section s agentId ((s.agent agentId).circuitBreakActive clk.entered).2.circuitBreak
        clk.closed [] s')

theorem agent_of_insert {a : AgentState σ} (h : s'.agents = s.agents.insert agentId a)
    (x : String) : s'.agent x = if x = agentId then a else s.agent x := by
  unfold agent
  rw [h]
  split
  · next hx => rw [hx, AList.lookup_insert, Option.getD_some]
  · next hx => rw [AList.lookup_insert_ne hx]

theorem quiet_of_agents (hagents : s'.agents = s.agents) (hclock : s'.clock = s.clock)
    (htrace : s'.trace = s.trace) : Quiet s s' where
  breaker x := by rw [breaker, breaker, agent, agent, hagents]
  clock := hclock
  trace := ⟨[], by rw [htrace, append_nil], fun o ho => absurd ho (by simp)⟩

theorem quiet_of_insert {a : AgentState σ} (hagents : s'.agents = s.agents.insert agentId a)
    (ha : a.circuitBreak = s.breaker agentId) (hclock : s'.clock = s.clock)
    (htrace : s'.trace = s.trace) : Quiet s s' where
  breaker x := by
    rw [breaker, agent_of_insert hagents]
    split
    · next hx => rw [ha, hx]
    · rfl
  clock := hclock
  trace := ⟨[], by rw [htrace, append_nil], fun o ho => absurd ho (by simp)⟩

theorem section_of_insert {a : AgentState σ} {b : Option CircuitBreak} {obs : List Observation}
    (hagents : s'.agents = s.agents.insert agentId a) (ha : a.circuitBreak = b)
    (hclock : s'.clock = Function.update s.clock agentId now) (htrace : s'.trace = s.trace ++ obs) :
    Section s agentId b now obs s' where
  breaker := by rw [breaker, agent_of_insert hagents, if_pos rfl, ha]
  others x hx := by rw [breaker, agent_of_insert hagents, if_neg hx, breaker]
  clock := hclock
  trace := htrace

omit [Inhabited σ] in
theorem decision_breaker (cfg : Config) (call : PendingCall) (cached : Option Cache.CachedDecision)
    {clk : Readings} (v : Verdicts σ) {a : AgentState σ}
    (hpast : ∀ b ∈ a.circuitBreak, b.trippedAt ≤ clk.entered) :
    BreakerStep clk a.circuitBreak (decision cfg call cached clk v a) := by
  unfold decision
  split
  · split
    · exact cachedSection_breaker call.stamp _ hpast
    · exact mainSection_breaker cfg call.stamp call.req v hpast
  · exact mainSection_breaker cfg call.stamp call.req v hpast

omit [Inhabited σ] in
theorem Timely.turn {e : Event σ} (ht : s.Timely e) {t : Turn σ} (h : s.turn e = some t) :
    s.clock t.call.req.agentId ≤ t.clk.entered := by
  obtain ⟨id, rfl, hcall, -⟩ := turn_decide h
  exact ht t.call hcall

/-- **What one step does**: nothing to any breaker, or one section of one agent. -/
theorem exec_moved (cfg : Config) (digest : List UInt8 → String) {e : Event σ}
    (ht : s.Timely e) : Moved s (s.exec cfg digest e) := by
  cases exec_change cfg digest s e with
  | went calls halts _ h | asked id now remote call key _ _ _ calls h =>
    rw [h]
    exact .quiet (quiet_of_agents rfl rfl rfl)
  | ensured agentId calls halts _ h | retrained agentId signals cache _ h =>
    rw [h]
    exact .quiet (quiet_of_insert rfl rfl rfl rfl)
  | observed o ho halts _ h =>
    rw [h]
    refine .quiet ⟨fun _ => rfl, rfl, [o], rfl, fun o' ho' => ?_⟩
    rwa [mem_singleton.1 ho']
  | decided id t hturn h =>
    rw [h]
    exact .decided t.call.req.agentId t.clk (t.outcome cfg s) (ht.turn hturn)
      (decision_breaker cfg t.call t.cached t.v) (section_of_insert rfl rfl rfl rfl)
  | halted hid now acquired halt agentId reason he hhalt hnext halts _ h =>
    subst he
    rw [h]
    exact .halted agentId ⟨now, secs haltSecs, reason⟩ (ht halt hhalt agentId hnext) rfl
      (section_of_insert rfl rfl rfl rfl)
  | status agentId clk he h =>
    subst he
    exact .looked agentId clk ht (section_of_insert rfl rfl rfl rfl)

/-! ## The invariant -/

/-- Every breaker stands for its agent's trips, and every observation respects those before. -/
structure Guarded (s : AppState σ) : Prop where
  past : ∀ a, ∀ b ∈ s.breaker a, b.trippedAt ≤ s.clock a
  bounded : ∀ a, ∀ b ∈ s.breaker a, b.duration ≤ secs haltSecs
  tracks : ∀ a, Tracks (s.clock a) ((s.breaker a).map CircuitBreak.deadline)
    ((trips a s.trace).map CircuitBreak.deadline)
  respected : s.trace.Pairwise Observation.Respects

theorem guarded_new : Guarded (new : AppState σ) where
  past _ _ hb := absurd hb (by simp [breaker, agent, new, AgentState.new])
  bounded _ _ hb := absurd hb (by simp [breaker, agent, new, AgentState.new])
  tracks _ := tracks_nil _
  respected := .nil

theorem Guarded.active_iff (h : Guarded s) (hle : s.clock a ≤ now) :
    ((s.agent a).circuitBreakActive now).1.isSome ↔ ∃ b ∈ trips a s.trace, now < b.deadline := by
  have hpast : ∀ b ∈ (s.agent a).circuitBreak, b.trippedAt ≤ now :=
    fun b hb => le_trans (h.past a b hb) hle
  have hslot := (h.tracks a).holds_iff hle
  simp only [Option.mem_def, Option.map_eq_some_iff, mem_map, exists_exists_and_eq_and] at hslot
  rw [← hslot]
  rcases (s.agent a).circuitBreakActive_cases hpast with ⟨b, hb, hopen, heq⟩ | ⟨hexp, heq⟩
  · rw [heq]
    exact ⟨fun _ => ⟨b, hb, hopen⟩, fun _ => rfl⟩
  · rw [heq]
    refine ⟨fun hsome => absurd hsome (by simp), ?_⟩
    rintro ⟨b, hb, hlt⟩
    exact absurd (hexp b hb) (by omega)

theorem Guarded.expired (h : Guarded s) (hle : s.clock a ≤ now)
    (hexp : ∀ b ∈ s.breaker a, b.deadline ≤ now) : ∀ b ∈ trips a s.trace, b.deadline ≤ now := by
  intro b hb
  refine (h.tracks a).expired hle ?_ _ (mem_map_of_mem hb)
  intro d hd
  obtain ⟨b', hb', rfl⟩ := Option.map_eq_some_iff.1 hd
  exact hexp b' hb'

theorem Guarded.tracks_cleared (h : Guarded s) {later : Nat} (hle : s.clock a ≤ now)
    (hexp : ∀ b ∈ s.breaker a, b.deadline ≤ now) (hlater : now ≤ later) :
    Tracks later none ((trips a s.trace).map CircuitBreak.deadline) := by
  intro d hd
  obtain ⟨b, hb, rfl⟩ := mem_map.1 hd
  exact le_trans (h.expired hle hexp b hb) hlater

theorem tracks_tripped (trace : List Observation) (now : Nat)
    (hlatest : ∀ b' ∈ trips a trace, b'.deadline ≤ b.deadline) : Tracks now (some b.deadline)
      ((trips a (trace ++ [.tripped a b])).map CircuitBreak.deadline) := by
  rw [trips_append, trips_tripped, map_append]
  refine tracks_set fun d hd => ?_
  obtain ⟨b', hb', rfl⟩ := mem_map.1 hd
  exact hlatest b' hb'

section

variable (h : Guarded s)

include h

/-- A section of one agent keeps the invariant if it does so for that agent. -/
theorem Guarded.of_section {b : Option CircuitBreak} {obs : List Observation}
    (hs : Section s agentId b now obs s') (hobs : ∀ x, x ≠ agentId → trips x obs = [])
    (hpast : ∀ b' ∈ b, b'.trippedAt ≤ now) (hbound : ∀ b' ∈ b, b'.duration ≤ secs haltSecs)
    (htracks : Tracks now (b.map CircuitBreak.deadline) ((trips agentId (s.trace ++ obs)).map
      CircuitBreak.deadline))
    (hnew : obs.Pairwise Respects) (hold : ∀ o ∈ obs, ∀ o' ∈ s.trace, o'.Respects o) :
    Guarded s' where
  past x := by
    rw [hs.clock]
    rcases eq_or_ne x agentId with rfl | hx
    · rw [hs.breaker, Function.update_self]
      exact hpast
    · rw [hs.others x hx, Function.update_of_ne hx]
      exact h.past x
  bounded x := by
    rcases eq_or_ne x agentId with rfl | hx
    · rw [hs.breaker]
      exact hbound
    · rw [hs.others x hx]
      exact h.bounded x
  tracks x := by
    rw [hs.clock, hs.trace]
    rcases eq_or_ne x agentId with rfl | hx
    · rw [hs.breaker, Function.update_self]
      exact htracks
    · rw [hs.others x hx, Function.update_of_ne hx, trips_append, hobs x hx, append_nil]
      exact h.tracks x
  respected := by
    rw [hs.trace, pairwise_append]
    exact ⟨h.respected, hnew, fun o' ho' o ho => hold o ho o' ho'⟩

theorem Guarded.of_quiet (hq : Quiet s s') : Guarded s' := by
  obtain ⟨obs, htrace, hobs⟩ := hq.trace
  have htrips : ∀ a, trips a s'.trace = trips a s.trace := by
    intro a
    have hnil : trips a obs = [] := by
      refine filterMap_eq_nil_iff.2 fun o ho => ?_
      rcases hobs o ho with ⟨_, _, rfl⟩ | ⟨_, rfl⟩ <;> rfl
    rw [htrace, trips_append, hnil, append_nil]
  have hresp : ∀ (o' : Observation), ∀ o ∈ obs, o'.Respects o := by
    intro o' o ho
    rcases hobs o ho with ⟨_, _, rfl⟩ | ⟨_, rfl⟩ <;> cases o' <;> trivial
  refine ⟨?_, ?_, ?_, ?_⟩
  · intro a
    rw [hq.breaker, hq.clock]
    exact h.past a
  · intro a
    rw [hq.breaker]
    exact h.bounded a
  · intro a
    rw [hq.breaker, hq.clock, htrips]
    exact h.tracks a
  · rw [htrace, pairwise_append]
    exact ⟨h.respected, pairwise_of_forall_mem_list fun o' _ o ho => hresp o' o ho,
      fun o' _ o ho => hresp o' o ho⟩

/-- A look without an answer: the breaker stays, or had expired and is cleared. -/
theorem Guarded.of_looked {clk : Readings} (hle : s.clock agentId ≤ clk.entered)
    (hs : Section s agentId ((s.agent agentId).circuitBreakActive clk.entered).2.circuitBreak
      clk.closed [] s') : Guarded s' := by
  have hclosed := le_trans hle clk.entered_le_closed
  have hpast : ∀ b ∈ s.breaker agentId, b.trippedAt ≤ clk.entered :=
    fun b hb => le_trans (h.past agentId b hb) hle
  rcases (s.agent agentId).circuitBreakActive_cases hpast with ⟨b, hb, -, heq⟩ | ⟨hexp, heq⟩
  · rw [heq] at hs
    refine h.of_section hs (fun _ _ => rfl) ?_ (h.bounded agentId) ?_ .nil (by simp)
    · exact fun b hb => le_trans (hpast b hb) clk.entered_le_closed
    · rw [append_nil]
      exact (h.tracks agentId).later hclosed
  · rw [heq] at hs
    refine h.of_section hs (fun _ _ => rfl) (by simp) (by simp) ?_ .nil (by simp)
    rw [append_nil]
    exact h.tracks_cleared hle hexp clk.entered_le_closed

/-- A halt overwrites the breaker by a deadline no earlier. -/
theorem Guarded.of_halted (hle : s.clock agentId ≤ b.trippedAt) (hfor : b.duration = secs haltSecs)
    (hs : Section s agentId (some b) b.trippedAt [.tripped agentId b] s') : Guarded s' := by
  have hlatest : ∀ b' ∈ trips agentId s.trace, b'.deadline ≤ b.deadline := by
    intro b' hb'
    refine (h.tracks agentId).expired (le_trans hle (Nat.le_add_right _ b.duration)) ?_ _
      (mem_map_of_mem hb')
    intro d hd
    obtain ⟨old, hold, rfl⟩ := Option.map_eq_some_iff.1 hd
    have hpast := h.past agentId old hold
    have hbound := h.bounded agentId old hold
    unfold CircuitBreak.deadline
    omega
  refine h.of_section hs (fun x hx => trips_tripped_ne hx b) ?_ ?_ ?_ (pairwise_singleton _ _) ?_
  · intro b' hb'
    rw [Option.mem_some.1 hb']
  · intro b' hb'
    rw [← Option.mem_some.1 hb', hfor]
  · exact tracks_tripped s.trace b.trippedAt hlatest
  · intro o ho
    obtain rfl := mem_singleton.1 ho
    exact respects_tripped hlatest

/-- A decision made under the lock keeps the invariant. -/
theorem Guarded.of_decided {clk : Readings} {o : Outcome σ} (hle : s.clock agentId ≤ clk.entered)
    (hstep : BreakerStep clk (s.breaker agentId) o)
    (hs : Section s agentId o.agent.circuitBreak clk.closed (o.tripped.toList.map (.tripped
      agentId) ++ [.decided agentId clk.entered o.response]) s') : Guarded s' := by
  have hclosed := clk.entered_le_closed
  cases hstep with
  | held b hold hopen hagent htripped hresp =>
    rw [htripped, hagent, ← hold] at hs
    refine h.of_section hs (fun _ _ => rfl) ?_ (h.bounded agentId) ?_ (pairwise_singleton _ _) ?_
    · exact fun b hb => le_trans (h.past agentId b hb) (le_trans hle hclosed)
    · rw [trips_append]
      simpa using (h.tracks agentId).later (le_trans hle hclosed)
    · intro o' ho'
      obtain rfl := mem_singleton.1 ho'
      exact respects_decided fun hallow => absurd (hresp.symm.trans hallow) (by simp)
  | cleared hexp hrest =>
    have hover := h.expired hle hexp
    cases hrest with
    | passed hagent htripped =>
      rw [htripped, hagent] at hs
      refine h.of_section hs (fun _ _ => rfl) (by simp) (by simp) ?_ (pairwise_singleton _ _) ?_
      · rw [trips_append]
        simpa using h.tracks_cleared hle hexp hclosed
      · intro o' ho'
        obtain rfl := mem_singleton.1 ho'
        exact respects_decided fun _ => hover
    | tripped b hat hfor hagent htripped hresp =>
      rw [htripped, hagent] at hs
      have hne : o.response.decision ≠ .allow := by simp [hresp]
      have hlatest : ∀ b' ∈ trips agentId s.trace, b'.deadline ≤ b.deadline := by
        intro b' hb'
        have := hover b' hb'
        have := clk.entered_le_recorded
        unfold CircuitBreak.deadline at *
        omega
      refine h.of_section hs ?_ ?_ ?_ ?_ ?_ ?_
      · intro x hx
        exact trips_tripped_ne hx b
      · intro b' hb'
        rw [← Option.mem_some.1 hb', hat]
        exact clk.recorded_le
      · intro b' hb'
        rw [← Option.mem_some.1 hb', hfor]
        decide
      · rw [← append_assoc, trips_append, trips_decided, append_nil]
        exact tracks_tripped s.trace clk.closed hlatest
      · exact pairwise_pair.2 fun _ _ => hne
      · intro o' ho'
        rcases mem_pair.1 ho' with rfl | rfl
        · exact respects_tripped hlatest
        · exact respects_decided fun hallow => absurd hallow hne

theorem Guarded.exec (cfg : Config) (digest : List UInt8 → String) {e : Event σ} (ht : s.Timely e) :
    Guarded (s.exec cfg digest e) := by
  cases exec_moved cfg digest ht with
  | quiet hq => exact h.of_quiet hq
  | decided agentId clk o hle hstep hs =>
    exact h.of_decided hle (hstep fun b hb => le_trans (h.past agentId b hb) hle) hs
  | halted agentId b hle hfor hs => exact h.of_halted hle hfor hs
  | looked agentId clk hle hs => exact h.of_looked hle hs

end

theorem guarded_run {cfg : Config} {digest : List UInt8 → String} {es : List (Event σ)}
    (ht : Throughout (exec cfg digest) Timely new es) : Guarded (run (exec cfg digest) new es) :=
  ht.invariant guarded_new fun _ _ h he => h.exec cfg digest he

/-- **Kill-switch safety.** After every run of interleaved calls, whose sections read the clock in
order for each agent: an observation respects every earlier one, so no section entered before the
deadline of an earlier trip of the agent allows a request, and no later trip has an earlier
deadline; and the breaker now has a deadline no earlier than any trip had, or there is none and
those deadlines have passed. -/
theorem kill_switch_safety (cfg : Config) (digest : List UInt8 → String) (es : List (Event σ))
    (ht : Throughout (exec cfg digest) Timely new es) :
    let s := run (exec cfg digest) new es
    s.trace.Pairwise Observation.Respects ∧
      ∀ a b, .tripped a b ∈ s.trace →
        (∀ b' ∈ s.breaker a, b.deadline ≤ b'.deadline) ∧
        (s.breaker a = none → b.deadline ≤ s.clock a) := by
  intro s
  have h : Guarded s := guarded_run ht
  refine ⟨h.respected, fun a b hb => ?_⟩
  have hmem : b.deadline ∈ (trips a s.trace).map CircuitBreak.deadline :=
    mem_map_of_mem (mem_trips.2 hb)
  have htracks := h.tracks a
  constructor
  · intro b' hb'
    rw [Option.mem_def.1 hb'] at htracks
    exact htracks.2 _ hmem
  · intro hnone
    rw [hnone] at htracks
    exact htracks _ hmem

/-- The agent is halted; a minute later a request with a remote ALLOW is decided. -/
def haltedThenValidated : List (Event Unit) :=
  [.forceHalt 1 "bot" "manual review", .haltNext 1 (secs 100) true,
   .validate 7 ⟨"bot", "read", none, none, .systemGenerated⟩ ⟨"tx", "noon"⟩ none .notAsked, .key 7,
   .lookup 7 (secs 160) (some ⟨"ALLOW", false, none, none, 10⟩), .enter 7,
   .decide 7 ⟨secs 160, secs 160, secs 160, secs 160, secs 160, by decide, by decide, by decide,
      by decide⟩
     ⟨((), none), none, none, none, .pass, none, ⟨none, none, none⟩, 0, none, none, false, ()⟩]

theorem halted_agent_not_allowed :
    let s := run (exec ⟨1, 1⟩ fun _ => "key") new haltedThenValidated
    s.trace =
        [.tripped "bot" ⟨secs 100, secs 86400, "manual review"⟩,
         .decided "bot" (secs 160) ⟨.circuitBreak, "tx", "noon", true, some "manual review",
           some "CIRCUIT_BREAKER", 0, 10, none, none⟩] ∧
      s.trace.Pairwise Observation.Respects := by
  refine ⟨by decide +kernel, ?_⟩
  exact (kill_switch_safety ⟨1, 1⟩ (fun _ => "key") haltedThenValidated (by decide +kernel)).1

/-- **The breaker in the code is the abstract one**: it is open exactly if some trip still holds. -/
theorem breaker_open_iff (cfg : Config) (digest : List UInt8 → String) (es : List (Event σ))
    (ht : Throughout (exec cfg digest) Timely new es) (a : String) (now : Nat)
    (hle : (run (exec cfg digest) new es).clock a ≤ now) :
    let s := run (exec cfg digest) new es
    ((s.agent a).circuitBreakActive now).1.isSome = true ↔
      ∃ b ∈ trips a s.trace, now < b.deadline :=
  (guarded_run ht).active_iff hle

theorem halted_agent_open :
    let s := run (exec ⟨1, 1⟩ fun _ => "key") new haltedThenValidated
    ((s.agent "bot").circuitBreakActive (secs 170)).1.isSome = true :=
  (breaker_open_iff ⟨1, 1⟩ (fun _ => "key") haltedThenValidated (by decide +kernel) "bot" (secs 170)
    (by decide +kernel)).2 (by decide +kernel)

end AppState

end Haltchain.Validator

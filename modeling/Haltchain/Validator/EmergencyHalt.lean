import Haltchain.Validator.KillSwitch
import Haltchain.Validator.Mediation

/-! # The emergency halt

`emergency_halt_all` copies the ids of the agents seen and visits them one after the other, while
other calls go on. A visit that gets the agent's lock in time trips the breaker for a day; one that
does not passes on. -/

namespace Haltchain.Validator.AppState

open Lib List

variable {σ : Type} [Inhabited σ] {s s' : AppState σ}

/-- The agent that the halt visits, and when it got the lock, if it did. -/
def visitAt (hid : Nat) (s : AppState σ) : Event σ → Option (String × Option Nat)
  | .haltNext h now acquired =>
    if h = hid then
      match s.halts.lookup hid with
      | some (.all (agentId :: _) _ _) =>
        some (agentId, if (s.agents.lookup agentId).isSome ∧ acquired then some now else none)
      | _ => none
    else none
  | _ => none

/-- The visits of the halt in a run from `s`. -/
def visits (cfg : Config) (digest : List UInt8 → String) (hid : Nat) (s : AppState σ)
    (es : List (Event σ)) : List (String × Option Nat) :=
  outputs (exec cfg digest) (visitAt hid) s es

/-! ## Every agent is visited -/

/-- The halt has visited all agents but those yet to visit. -/
def Covering (hid : Nat) (snapshot : List String) (s : AppState σ)
    (visited : List (String × Option Nat)) : Prop :=
  (∃ remaining reason halted, s.halts.lookup hid = some (.all remaining reason halted) ∧
      ∀ a ∈ snapshot, a ∈ remaining ∨ ∃ lock, (a, lock) ∈ visited) ∨
    ∀ a ∈ snapshot, ∃ lock, (a, lock) ∈ visited

variable {hid : Nat}

theorem exec_halts (cfg : Config) (digest : List UInt8 → String) {e : Event σ}
    {halt : PendingHalt} (hin : s.halts.lookup hid = some halt)
    (hother : ∀ now acquired, e ≠ .haltNext hid now acquired) :
    (s.exec cfg digest e).halts.lookup hid = some halt := by
  have hkeep {halts : AList (fun _ : Nat => PendingHalt)} (hkept : s.HaltsKept e halts) :
      halts.lookup hid = some halt := (hkept hid (by rw [hin]; rfl) hother).trans hin
  cases exec_change cfg digest s e with
  | went calls halts hkept h | ensured agentId calls halts hkept h | observed o _ halts hkept h
  | halted hid' now acquired halt' agentId reason _ _ _ halts hkept h => exact h ▸ hkeep hkept
  | asked _ _ _ _ _ _ _ _ _ h | decided _ _ _ h | status _ _ _ h | retrained _ _ _ _ h =>
    exact h ▸ hin

/-- The halt's own step visits the next agent, if one is left. -/
theorem covering_haltNext {now : Nat} {acquired : Bool} {snapshot remaining : List String}
    {visited : List (String × Option Nat)} {reason : String} {halted : Nat} (cfg : Config)
    (digest : List UInt8 → String) (hin : s.halts.lookup hid = some (.all remaining reason halted))
    (hcov : ∀ a ∈ snapshot, a ∈ remaining ∨ ∃ lock, (a, lock) ∈ visited) :
    Covering hid snapshot (s.exec cfg digest (.haltNext hid now acquired))
      (visited ++ (visitAt hid s (.haltNext hid now acquired)).toList) := by
  cases remaining with
  | nil =>
    refine .inr fun a ha => ?_
    obtain hnil | ⟨lock, hlock⟩ := hcov a ha
    · simp at hnil
    · exact ⟨lock, mem_append_left _ hlock⟩
  | cons agentId rest =>
    obtain ⟨lock, hlock⟩ : ∃ lock, visitAt hid s (.haltNext hid now acquired) =
        some (agentId, lock) := by
      rw [visitAt, if_pos rfl, hin]
      exact ⟨_, rfl⟩
    obtain ⟨count, hcount⟩ : ∃ count,
        (s.exec cfg digest (.haltNext hid now acquired)).halts.lookup hid =
          some (.all rest reason count) := by
      rw [exec, hin]
      dsimp only
      rw [haltStep]
      split <;> exact ⟨_, AList.lookup_insert _⟩
    refine .inl ⟨rest, reason, count, hcount, fun a ha => ?_⟩
    rw [hlock]
    obtain hrem | ⟨lock', hlock'⟩ := hcov a ha
    · rcases mem_cons.1 hrem with rfl | hrest
      · exact .inr ⟨lock, mem_append_right _ (.head _)⟩
      · exact .inl hrest
    · exact .inr ⟨lock', mem_append_left _ hlock'⟩

theorem Covering.exec {snapshot : List String} {visited : List (String × Option Nat)}
    (h : Covering hid snapshot s visited) (cfg : Config) (digest : List UInt8 → String)
    (e : Event σ) :
    Covering hid snapshot (s.exec cfg digest e) (visited ++ (visitAt hid s e).toList) := by
  rcases h with ⟨remaining, reason, halted, hin, hcov⟩ | hdone
  · by_cases hown : ∃ now acquired, e = .haltNext hid now acquired
    · obtain ⟨now, acquired, rfl⟩ := hown
      exact covering_haltNext cfg digest hin hcov
    have hother : ∀ now acquired, e ≠ .haltNext hid now acquired :=
      fun now acquired heq => hown ⟨now, acquired, heq⟩
    refine .inl ⟨remaining, reason, halted, exec_halts cfg digest hin hother, fun a ha => ?_⟩
    obtain hrem | ⟨lock, hlock⟩ := hcov a ha
    · exact .inl hrem
    · exact .inr ⟨lock, mem_append_left _ hlock⟩
  · refine .inr fun a ha => ?_
    obtain ⟨lock, hlock⟩ := hdone a ha
    exact ⟨lock, mem_append_left _ hlock⟩

theorem covering_run (cfg : Config) (digest : List UInt8 → String) (snapshot : List String)
    (h : Covering hid snapshot s []) (es : List (Event σ)) :
    Covering hid snapshot (run (exec cfg digest) s es) (visits cfg digest hid s es) := by
  induction es using reverseRecOn with
  | nil => exact h
  | append_singleton es e ih =>
    unfold visits
    rw [run_concat, outputs_concat]
    exact ih.exec cfg digest e

/-! ## What a visit leaves -/

theorem exec_trace (cfg : Config) (digest : List UInt8 → String) {e : Event σ}
    (ht : s.Timely e) : s.trace <+: (s.exec cfg digest e).trace := by
  cases exec_moved cfg digest ht with
  | quiet h =>
    obtain ⟨obs, htrace, -⟩ := h.trace
    exact ⟨obs, htrace.symm⟩
  | decided _ _ _ _ _ h | halted _ _ _ _ h | looked _ _ _ h => exact ⟨_, h.trace.symm⟩

theorem run_trace {cfg : Config} {digest : List UInt8 → String} {es : List (Event σ)}
    (ht : Throughout (exec cfg digest) Timely s es) :
    s.trace <+: (run (exec cfg digest) s es).trace :=
  ht.invariant (I := fun s' => s.trace <+: s'.trace) (prefix_refl _)
    fun _ _ h he => h.trans (exec_trace cfg digest he)

/-- A visit that gets the lock trips the breaker for a day. -/
theorem tripped_of_visit (cfg : Config) (digest : List UInt8 → String) {e : Event σ} {a : String}
    {locked : Nat} (h : visitAt hid s e = some (a, some locked)) :
    ∃ reason, .tripped a ⟨locked, secs haltSecs, reason⟩ ∈ (s.exec cfg digest e).trace := by
  cases e with
  | haltNext hid' now acquired =>
    rw [visitAt] at h
    split at h
    · next heq =>
      subst heq
      split at h
      · next agentId rest reason halted hin =>
        obtain ⟨rfl, hlock⟩ := Prod.mk.inj (Option.some.inj h)
        split at hlock
        · next hgot =>
          cases hlock
          refine ⟨reason, ?_⟩
          rw [exec, hin]
          dsimp only
          rw [haltStep, if_pos hgot]
          exact mem_append_right _ (.head _)
        · simp at hlock
      · simp at h
    · simp at h
  | _ => simp [visitAt] at h

theorem tripped_of_visits {cfg : Config} {digest : List UInt8 → String} {es : List (Event σ)}
    {a : String} {locked : Nat} (ht : Throughout (exec cfg digest) Timely s es)
    (h : (a, some locked) ∈ visits cfg digest hid s es) :
    ∃ reason, .tripped a ⟨locked, secs haltSecs, reason⟩ ∈ (run (exec cfg digest) s es).trace := by
  obtain ⟨es₁, e, es₂, rfl, hvisit⟩ := exists_of_mem_outputs _ _ h
  obtain ⟨reason, htripped⟩ := tripped_of_visit cfg digest hvisit
  obtain ⟨-, -, hafter⟩ := throughout_append.1 ht
  rw [run_append]
  exact ⟨reason, (run_trace hafter).subset htripped⟩

/-- **The emergency halt.** A halt starts after the calls `pre` and has returned after the calls
`mid`; then come the calls `post`. Every agent seen before has been visited. If the visit got the
agent's lock, at `locked`, no section of the agent entered within a day of that allows a request
after the return. -/
theorem emergency_halt_of_visit (cfg : Config) (digest : List UInt8 → String)
    (pre mid post : List (Event σ)) (hid : Nat) (reason : String)
    (ht : Throughout (exec cfg digest) Timely new
      (pre ++ .emergencyHalt hid reason :: (mid ++ post)))
    (hfree : (run (exec cfg digest) new pre).halts.lookup hid = none)
    (hreturned : (run (exec cfg digest) new
      (pre ++ .emergencyHalt hid reason :: mid)).halts.lookup hid = none) :
    let start := run (exec cfg digest) new pre
    let visited := visits cfg digest hid (start.exec cfg digest (.emergencyHalt hid reason)) mid
    let returned := run (exec cfg digest) new (pre ++ .emergencyHalt hid reason :: mid)
    let later := run (exec cfg digest) new (pre ++ .emergencyHalt hid reason :: (mid ++ post))
    ∀ a ∈ start.agents, (∃ lock, (a, lock) ∈ visited) ∧
      ∀ locked, (a, some locked) ∈ visited →
        ∀ obs, later.trace = returned.trace ++ obs →
          ∀ now resp, .decided a now resp ∈ obs → now < locked + secs haltSecs →
            resp.decision ≠ .allow := by
  intro start visited returned later a ha
  have hreturn : returned = run (exec cfg digest)
      (start.exec cfg digest (.emergencyHalt hid reason)) mid := by
    rw [← run_cons, ← run_append]
  have hstarted : (start.exec cfg digest (.emergencyHalt hid reason)).halts.lookup hid =
      some (.all start.agents.keys reason 0) := by
    rw [exec, if_neg (by simp [start, hfree])]
    exact AList.lookup_insert _
  constructor
  · have hcovering := covering_run cfg digest start.agents.keys
      (.inl ⟨_, _, _, hstarted, fun x hx => .inl hx⟩) mid
    rw [← hreturn] at hcovering
    -- a halt that has returned is no longer in progress
    rcases hcovering with ⟨_, _, _, hin, -⟩ | hdone
    · exact absurd (hreturned.symm.trans hin) (by simp)
    · exact hdone a (AList.mem_keys.2 ha)
  · intro locked hvisit obs htrace now resp hdecided hlt
    obtain ⟨-, -, htail⟩ := throughout_append.1 ht
    obtain ⟨why, htripped⟩ := tripped_of_visits (throughout_append.1 htail).1 hvisit
    rw [← hreturn] at htripped
    -- the trip comes before whatever is observed after the return
    have hrespected : later.trace.Pairwise Observation.Respects := (guarded_run ht).respected
    rw [htrace, pairwise_append] at hrespected
    exact hrespected.2.2 _ htripped _ hdecided rfl hlt

/-- The first request of an agent, a second after the halt. -/
def readAfterHalt : List (Event Unit) :=
  [.validate 7 ⟨"bot", "read", none, none, .systemGenerated⟩ ⟨"tx", "noon"⟩ none .notAsked, .key 7,
   .lookup 7 (secs 101) none, .enter 7, .decide 7 (atSecond 101) noObjection]

/-- The halt finds no agent, returns, and the request is allowed. -/
theorem unseen_agent_allowed_after_halt :
    let es : List (Event Unit) :=
      .emergencyHalt 1 "incident" :: .haltNext 1 (secs 100) true :: readAfterHalt
    Throughout (exec ⟨1, 1⟩ fun _ => "key") Timely new es ∧
      (run (exec ⟨1, 1⟩ fun _ => "key") new es).trace =
        [.haltedAll 0, .decided "bot" (secs 101) ⟨.allow, "tx", "noon", false, none, none, 1, 10,
          none, none⟩] := by
  decide +kernel

/-- Had its status been asked for, the agent would have been halted. -/
theorem seen_agent_halted :
    let visit : List (Event Unit) := [.haltNext 1 (secs 100) true, .haltNext 1 (secs 100) true]
    let es := [.status "bot" (atSecond 90)] ++
      .emergencyHalt 1 "incident" :: (visit ++ readAfterHalt)
    let resp : ValidationResponse := ⟨.circuitBreak, "tx", "noon", true, some "incident",
      some "CIRCUIT_BREAKER", 0, 10, none, none⟩
    (run (exec ⟨1, 1⟩ fun _ => "key") new es).trace =
        [.tripped "bot" ⟨secs 100, secs haltSecs, "incident"⟩, .haltedAll 1,
          .decided "bot" (secs 101) resp] ∧
      resp.decision ≠ .allow := by
  intro visit es resp
  refine ⟨by decide +kernel, ?_⟩
  exact (emergency_halt_of_visit ⟨1, 1⟩ (fun _ => "key") [.status "bot" (atSecond 90)] visit
    readAfterHalt 1 "incident" (by decide +kernel) (by decide +kernel) (by decide +kernel) "bot"
    (by decide +kernel)).2 (secs 100) (by decide +kernel) [.decided "bot" (secs 101) resp]
    (by decide +kernel) (secs 101) resp (.head _) (by decide)

end Haltchain.Validator.AppState

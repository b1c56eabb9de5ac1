import Haltchain.Validator.QuorumGate
import Haltchain.Validator.RateLimit
import Haltchain.Validator.System

/-! # What a cached decision is worth

A decision is cached under a key that has the agent, the type of the action and two coarse numbers.
The chain of checks reads more, so a cached ALLOW is its answer only if the rest is still as it was
(`Agreeing`). By the invariant `Provenance` every entry of a cache goes back to a call that passed
the chain at a known time. -/

namespace Haltchain.Validator

open Lib Rules RuleEngine AppState List Option
open Cache (CachedDecision DecisionCache DragonflyClient)
open Cache.DecisionCache (Inserted)

variable {σ ε γ : Type}

/-! ## Which sections fill the cache -/

/-- The section caches a decision only if it allows the request. -/
def FillsOnAllow (o : Outcome σ) : Prop := ∀ d, o.cache = .insert d → o.response.decision = .allow

theorem exits_fillsOnAllow (clk : Readings) :
    Exits clk (fun _ : AgentState σ => True) FillsOnAllow where
  counted _ _ := trivial
  recorded _ := trivial
  stop _ _ _ h := absurd h (by simp [finish])
  trip _ _ _ _ _ _ _ h := absurd h (by simp [tripSection])
  ruleTrip _ _ _ _ _ h := absurd h (by simp)
  allow _ _ _ _ _ _ _ := rfl

section

variable (cfg : Config) (stamp : Stamp) (clk : Readings) (req : ValidationRequest) (v : Verdicts σ)
  (a : AgentState σ)

theorem mainSection_fills : FillsOnAllow (mainSection cfg stamp clk req v a) := by
  unfold mainSection
  split
  · exact fun _ h => absurd h (by simp [finish])
  · split
    · exact (exits_fillsOnAllow clk).rule trivial cfg stamp req v _
    · exact (exits_fillsOnAllow clk).rule trivial cfg stamp req v _

/-- **Only the end of the chain fills the cache**, and only for a request without an amount. -/
theorem mainSection_insert {d : CachedDecision}
    (h : (mainSection cfg stamp clk req v a).cache = .insert d) :
    req.amount = none ∧ Screened clk v a ∧ Passed cfg stamp clk req v a := by
  have hallow := mainSection_fills cfg stamp clk req v a d h
  cases mainSection_exit cfg stamp clk req v a with
  | deferred taskId _ _ ho => simp [ho, deferredAllow, finish] at h
  | passed hscreened _ hpassed ho =>
    refine ⟨?_, hscreened, hpassed⟩
    cases hamount : req.amount with
    | none => rfl
    | some _ => simp [ho, allowed, allowSection, finish, hamount] at h
  | stopped _ hresp => exact absurd hallow hresp

theorem cachedSection_cache (c d : CachedDecision) :
    (cachedSection stamp clk c a).cache ≠ .insert d := by
  unfold cachedSection
  split <;> simp [finish]

end

/-! ## What a step does to the local cache -/

variable {key : String}

namespace AppState

variable {P : String → Nat → Prop}

theorem effect_inserted {cache : DecisionCache} (h : Inserted P cache.map) (agentId key : String)
    (now : Nat) {ce : CacheEffect} (hce : ∀ d, ce = .insert d → P key now) :
    Inserted P (effect cache agentId key now ce).map := by
  cases ce with
  | keep => exact h
  | invalidate => exact h.invalidateAgent agentId
  | insert d => exact h.insertFor (hce d rfl) d (some agentId)

theorem lookupCaches_inserted {cache : DecisionCache} (h : Inserted P cache.map)
    (req : ValidationRequest) {now : Nat} {remote : Option CachedDecision}
    (hremote : ∀ d, remote = some d → P key now) :
    Inserted P (lookupCaches cache req key now remote).2.map := by
  have hget := h.get now key
  unfold lookupCaches
  split
  · split
    · next heq =>
      rw [heq] at hget
      exact hget
    · next heq =>
      rw [heq] at hget
      split
      · next d => exact Inserted.insertFor (by exact hget) (hremote d rfl) _ _
      · exact hget
  · exact h

variable [Inhabited σ] {s : AppState σ}

section

variable (h : Inserted P s.cache.map) (cfg : Config) (digest : List UInt8 → String)

include h cfg digest

theorem plain_inserted {e : Event σ} (hlookup : ∀ id now remote, e ≠ .lookup id now remote)
    (hdecide : ∀ id clk v, e ≠ .decide id clk v) : Inserted P (s.exec cfg digest e).cache.map := by
  cases exec_change cfg digest s e with
  | went _ _ _ heq | ensured _ _ _ _ heq | observed _ _ _ _ heq => exact heq ▸ h
  | asked id now remote call key he => exact absurd he (hlookup id now remote)
  | decided id t hturn =>
    obtain ⟨id', he, -⟩ := turn_decide hturn
    exact absurd he (hdecide id' t.clk t.v)
  | halted hid now acquired halt agentId reason _ _ _ halts _ heq =>
    exact heq ▸ h.invalidateAgent agentId
  | status agentId clk _ heq => exact heq ▸ h
  | retrained agentId signals cache hcache heq =>
    rw [heq]
    rcases hcache with rfl | rfl
    · exact h
    · exact h.invalidateAgent agentId

theorem lookup_inserted {id now : Nat} {req : ValidationRequest} {stamp : Stamp}
    {remote : Option CachedDecision} (hcall : s.calls.lookup id = some ⟨req, stamp, .keyed key⟩)
    (hremote : ∀ d, remote = some d → P key now) :
    Inserted P (s.exec cfg digest (.lookup id now remote)).cache.map := by
  have hcache : (s.exec cfg digest (.lookup id now remote)).cache =
      (lookupCaches s.cache req key now remote).2 := by
    simp [exec, advance, hcall]
  rw [hcache]
  exact lookupCaches_inserted h req hremote

theorem decide_inserted {e : Event σ} {t : Turn σ} (hturn : s.turn e = some t)
    (hfill : ∀ d, (t.outcome cfg s).cache = .insert d → P t.key t.clk.closed) :
    Inserted P (s.exec cfg digest e).cache.map := by
  obtain ⟨id, hexec⟩ := exec_of_turn cfg digest hturn
  rw [hexec]
  exact effect_inserted h t.call.req.agentId t.key t.clk.closed hfill

end

/-- An answer from the cache does not fill it. -/
theorem Turn.FromCache.outcome_cache {t : Turn σ} (h : t.FromCache) (cfg : Config) (s : AppState σ)
    (d : CachedDecision) : (t.outcome cfg s).cache ≠ .insert d := by
  obtain ⟨c, hc, hallow⟩ := h
  unfold outcome decision
  rw [mem_def.1 hc]
  dsimp only
  rw [if_pos hallow]
  exact cachedSection_cache t.call.stamp t.clk _ c d

end AppState

/-! ## The evaluator is that of the policy -/

/-- What the rule stage does with a request under the policy. -/
def policyStage (regex : RegexBuilder) (policy : Option PolicyFile) (ctx : EvalContext) :
    StageResult :=
  match policy with
  | none => .skipped
  | some pf => .ofEvaluator regex ctx (RuleEvaluator.new regex pf)

/-- More activity makes no difference to a policy that does not read it. -/
theorem policyStage_withActivity (regex : RegexBuilder) {policy : Option PolicyFile}
    (h : ∀ pf ∈ policy, ¬ pf.ReadsActivity) (ctx : EvalContext) (w : Rat) (n : Nat) :
    policyStage regex policy (ctx.withActivity w n) = policyStage regex policy ctx := by
  cases policy with
  | none => rfl
  | some pf =>
    unfold policyStage
    dsimp only
    cases hnew : RuleEvaluator.new regex pf with
    | error f => cases f <;> rfl
    | ok ev =>
      have hrules : ∀ r ∈ ev.rules, ¬ r.ReadsActivity := by
        intro r hr hreads
        obtain ⟨hmem, hactive⟩ := RuleEvaluator.mem_of_new hnew r hr
        exact h pf rfl ⟨r, hmem, hactive, hreads⟩
      unfold StageResult.ofEvaluator
      dsimp only
      rw [evaluate_withActivity regex ctx w n hrules]

namespace Env

/-- The engine has seen at most `n` stores since its start. -/
def Tracked (regex : RegexBuilder) (n : Nat) (env : Env ε γ) : Prop :=
  ∀ engine ∈ env.rules, ∃ initial es, RuleEngine.Tracking regex initial es engine ∧
    stores es ≤ n

variable {m : Evaluators σ ε γ} {env : Env ε γ} {n : Nat}

theorem Tracked.ruleStage (h : env.Tracked m.regex n) (hn : n < 2 ^ 64) (ctx : EvalContext) :
    (env.ruleStage m ctx).1 = policyStage m.regex env.policy ctx := by
  unfold Env.ruleStage Env.policy
  cases hrules : env.rules with
  | none => rfl
  | some engine =>
    obtain ⟨initial, es, htrack, hle⟩ := h engine hrules
    exact congrArg (StageResult.ofEvaluator m.regex ctx)
      (htrack.evaluator_eq (lt_of_le_of_lt hle hn))

theorem Tracked.exec (h : env.Tracked m.regex n) (ev : RuleEngine.Event) {env' : Env ε γ} {k : Nat}
    (henv : env'.rules = env.rules.map fun e => e.exec m.regex ev)
    (hk : n + stores [ev] ≤ k) : env'.Tracked m.regex k := by
  intro engine' he'
  rw [henv] at he'
  obtain ⟨engine, he, rfl⟩ := map_eq_some_iff.1 he'
  obtain ⟨initial, es, htrack, hle⟩ := h engine he
  refine ⟨initial, es ++ [ev], htrack.exec ev, ?_⟩
  have hstores : stores (es ++ [ev]) = stores es + stores [ev] := by
    simp [stores]
  omega

theorem Tracked.afterChain (h : env.Tracked m.regex n) (r : Request) (a : AgentState σ)
    (clk : Readings) (oracle : Verdicts σ) :
    (env.afterChain m r a clk oracle).Tracked m.regex n := by
  have hruled : ∀ env' : Env ε γ, env'.rules = (env.ruled m r a clk oracle).2 →
      env'.Tracked m.regex n := by
    intro env' henv'
    refine h.exec (.validate (r.evalContext
      (m.ewmaVelocity (observing r.toValidationRequest oracle a).signals)
      (a.currentActionCount clk.ruled).1 (anomalyOf r.toValidationRequest oracle))) ?_ (by rfl)
    rw [henv', ruled, Env.ruleStage]
    cases env.rules <;> rfl
  unfold Env.afterChain
  dsimp only
  split
  · exact h
  · split
    · exact hruled _ rfl
    · split <;> exact hruled _ rfl

end Env

/-! ## Where the entries come from -/

/-- What the call that filled the caches passed: the rules for some activity, and the aggregate
policies. -/
structure Fill.Passes (m : Evaluators σ ε γ) (f : Fill) : Prop where
  amount : f.req.amount = none
  aggregate : m.aggregate f.req f.maxTokens f.maxComputeSeconds = none
  rules : ∃ w n, policyStage m.regex f.policy (f.req.evalContext w n none) ≠ .panicked ∧
    ∀ verdict ∈ (policyStage m.regex f.policy (f.req.evalContext w n none)).verdict, verdict = .pass

/-- A decision was cached under the key, at most `slack` before `t`. -/
def Filled (fills : List Fill) (slack : Nat) (key : String) (t : Nat) : Prop :=
  ∃ f ∈ fills, f.key = key ∧ t ≤ f.time + slack

theorem Filled.mono {fills fills' : List Fill} {slack slack' : Nat} (hfills : fills ⊆ fills')
    (hslack : slack ≤ slack') {t : Nat} (h : Filled fills slack key t) :
    Filled fills' slack' key t := by
  obtain ⟨f, hf, hkey, hle⟩ := h
  exact ⟨f, hfills hf, hkey, by omega⟩

namespace System

/-- Every entry goes back to a call that passed the chain. Remote ones are kept locally for a
while. -/
structure Provenance (m : Evaluators σ ε γ) (s : System σ ε γ) : Prop where
  cache : Inserted (Filled s.fills Cache.ttlDynamic) s.app.cache.map
  remote : ∀ r ∈ s.remote, r.SetAt (Filled s.fills 0)
  passes : ∀ f ∈ s.fills, f.Passes m

variable {cfg : Config} {digest : List UInt8 → String} {m : Evaluators σ ε γ} {s : System σ ε γ}

theorem provenance_new (policy : Option PolicyFile) (remoteCache : Bool) (driftScores : γ) :
    (new policy remoteCache driftScores : System σ ε γ).Provenance m where
  cache := DecisionCache.inserted_empty
  remote r hr := by
    cases remoteCache with
    | false => simp [new] at hr
    | true =>
      cases hr
      exact DragonflyClient.setAt_new
  passes f hf := absurd hf (by simp [new])

/-- What the remote cache answers was set within its time to live. -/
theorem Provenance.askRemote (h : s.Provenance m) (req : ValidationRequest) (key : String)
    (now : Nat) (reachable : Bool) : (∀ d, (s.askRemote req key now reachable).1 = some d →
        Filled s.fills Cache.ttlDynamic key now) ∧
      ∀ r ∈ (s.askRemote req key now reachable).2, r.SetAt (Filled s.fills 0) := by
  unfold System.askRemote
  split
  · split
    · next remote hremote =>
      have hset := h.remote remote hremote
      refine ⟨fun d hd => ?_, fun r hr => ?_⟩
      · obtain ⟨t, ⟨f, hf, hkey, hle⟩, hlt⟩ := hset.of_hit hd
        exact ⟨f, hf, hkey, by omega⟩
      · cases hr
        exact hset.get now reachable key
    · exact ⟨fun d hd => absurd hd (by simp), fun r hr => absurd hr (by simp)⟩
  · exact ⟨fun d hd => absurd hd (by simp), h.remote⟩

variable {n : Nat}

/-- The call at the end of the chain has passed it. -/
theorem passes_of_passed (htrack : s.env.Tracked m.regex n) (hn : n < 2 ^ 64) {stamp : Stamp}
    {req : Request} {clk : Readings} {oracle : Verdicts σ} {taskId : String} {time : Nat}
    {a : AgentState σ} (hnot : ¬ s.env.Panics m req a clk oracle) (hamount : req.amount = none)
    (hscreened : Screened clk (s.env.consult m req a clk oracle taskId) a)
    (hpassed : Passed cfg stamp clk req.toValidationRequest (s.env.consult m req a clk oracle
      taskId) a) : (s.env.fill key time req).Passes m := by
  have hanomaly : anomalyOf req.toValidationRequest oracle = none := by simp [anomalyOf, hamount]
  have hstage : (s.env.ruled m req a clk oracle).1 = policyStage m.regex s.env.policy
      (req.evalContext (m.ewmaVelocity (observing req.toValidationRequest oracle a).signals)
        (a.currentActionCount clk.ruled).1 none) := by
    rw [Env.ruled, hanomaly]
    exact htrack.ruleStage hn _
  have hpanics : (s.env.ruled m req a clk oracle).1 ≠ .panicked :=
    fun hpanic => hnot ⟨hscreened.closed, hpanic⟩
  have hrules : ∀ verdict ∈ (s.env.ruled m req a clk oracle).1.verdict, verdict = .pass :=
    hscreened.rules
  rw [hstage] at hpanics hrules
  exact ⟨hamount, hpassed.policy, _, _, hpanics, hrules⟩

/-- A call that passed the chain fills the caches. -/
theorem Provenance.filled (h : s.Provenance m) {f : Fill} (hf : f.Passes m) {app : AppState σ}
    (happ : Inserted (Filled (s.fills ++ [f]) Cache.ttlDynamic) s.app.cache.map →
      Inserted (Filled (s.fills ++ [f]) Cache.ttlDynamic) app.cache.map) (env : Env ε γ)
    (d : CachedDecision) (reachable : Bool) :
    Provenance m ⟨app, env, s.remote.map fun r => r.set f.time reachable f.key d .dynamic,
      s.fills ++ [f]⟩ where
  cache := happ (h.cache.mono fun _ _ =>
    Filled.mono (subset_append_left _ _) (Nat.le_refl Cache.ttlDynamic))
  remote r hr := by
    obtain ⟨r, hr', rfl⟩ := map_eq_some_iff.1 hr
    have hkept := (h.remote r hr').mono fun _ _ =>
      Filled.mono (subset_append_left s.fills [f]) (Nat.le_refl 0)
    exact hkept.set ⟨f, mem_append_right _ (mem_singleton_self f), rfl, le_rfl⟩ reachable d
  passes f' hf' := by
    rcases mem_append.1 hf' with hf' | hf'
    · exact h.passes f' hf'
    · rwa [mem_singleton.1 hf']

variable [Inhabited σ]

/-- A run of the chain. -/
theorem Provenance.chain (h : s.Provenance m) (htrack : s.env.Tracked m.regex n) (hn : n < 2 ^ 64)
    {id : Nat} {clk : Readings} {oracle : Verdicts σ} {t : Turn σ}
    (hturn : s.app.turn (.decide id clk oracle) = some t) {req : Request}
    (hreq : t.call.req = req.toValidationRequest) (hmiss : ¬ t.FromCache) (taskId : String)
    (reachable : Bool) : (s.chain cfg digest m id t req taskId reachable).Provenance m := by
  unfold System.chain
  dsimp only
  split
  · exact ⟨h.cache, h.remote, h.passes⟩
  · next hnot =>
    set v := s.env.consult m req (s.app.agent req.agentId) t.clk t.v taskId
    have hturn' := turn_of_turn hturn v
    have hout : Turn.outcome cfg { t with v := v } s.app =
        decision cfg t.call t.cached t.clk v (s.app.agent req.agentId) := by
      rw [Turn.outcome, hreq]
    split
    · next d hd =>
      rw [← hout, Turn.outcome_miss cfg (by exact hmiss)] at hd
      rw [hreq] at hd
      obtain ⟨hamount, hscreened, hpassed⟩ := mainSection_insert cfg _ _ _ _ _ hd
      refine h.filled (passes_of_passed htrack hn hnot hamount hscreened hpassed)
        (fun hkept => ?_) _ d reachable
      exact decide_inserted hkept cfg digest hturn' fun _ _ =>
        ⟨_, mem_append_right _ (.head _), rfl, Nat.le_add_right _ _⟩
    · next hno =>
      refine ⟨decide_inserted h.cache cfg digest hturn' fun d hd => ?_, h.remote, h.passes⟩
      rw [hout] at hd
      exact absurd hd (hno d)

/-- How many policies the step stores at most. -/
def Event.stores : Event σ ε → Nat
  | .fileChanged _ => 1
  | .pushPolicy _ => 1
  | _ => 0

theorem stores_le_one (ev : RuleEngine.Event) : stores [ev] ≤ 1 := by
  exact length_filterMap_le _ _

theorem exec_tracked (cfg : Config) (digest : List UInt8 → String) (h : s.env.Tracked m.regex n)
    (e : Event σ ε) : (s.exec cfg digest m e).env.Tracked m.regex (n + e.stores) := by
  cases e with
  | plain e => cases e <;> exact h
  | lookup id now reachable =>
    rw [exec]
    split <;> exact h
  | decide id clk req oracle taskId reachable =>
    rw [exec]
    split
    · next t _ =>
      split
      · split
        · exact h
        have hafter := h.afterChain req (s.app.agent req.agentId) t.clk t.v
        unfold chain
        dsimp only
        split
        · exact hafter
        · split <;> exact hafter
      · exact h
    · exact h
  | fileChanged attempts =>
    exact h.exec (.fileChanged attempts) rfl (Nat.add_le_add_left (stores_le_one _) n)
  | pushPolicy pf =>
    exact h.exec (.pushPolicy pf) rfl (Nat.add_le_add_left (stores_le_one _) n)
  | setThreshold | addVariant | removeVariant | setGoal => exact h

/-- **One step keeps the provenance of the entries.** -/
theorem Provenance.exec (h : s.Provenance m) (htrack : s.env.Tracked m.regex n) (hn : n < 2 ^ 64)
    (cfg : Config) (digest : List UInt8 → String) (e : Event σ ε) :
    (s.exec cfg digest m e).Provenance m := by
  cases e with
  | plain e =>
    -- the plain forms of these two steps do nothing here
    cases e with
    | lookup | decide => exact h
    | _ =>
      exact ⟨plain_inserted h.cache cfg digest (by simp) (by simp), h.remote, h.passes⟩
  | lookup id now reachable =>
    rw [System.exec]
    split
    · next req stamp key hcall =>
      obtain ⟨hanswer, hremote⟩ := h.askRemote req key now reachable
      exact ⟨lookup_inserted h.cache cfg digest hcall hanswer, hremote, h.passes⟩
    · exact h
  | decide id clk req oracle taskId reachable =>
    rw [System.exec]
    split
    · next t hturn =>
      split
      · next hreq =>
        split
        · next hc =>
          refine ⟨decide_inserted h.cache cfg digest hturn fun d hd => ?_, h.remote, h.passes⟩
          exact absurd hd (hc.outcome_cache cfg s.app d)
        · next hmiss => exact h.chain htrack hn hturn hreq hmiss taskId reachable
      · exact h
    · exact h
  | fileChanged attempts | pushPolicy pf | setThreshold key value | addVariant variant
  | removeVariant variantId | setGoal agentId sessionId goal => exact ⟨h.cache, h.remote, h.passes⟩

/-- How many policies a run stores at most. -/
def stores (es : List (Event σ ε)) : Nat := (es.map Event.stores).sum

omit [Inhabited σ] in
theorem tracked_new (regex : RegexBuilder) (policy : Option PolicyFile) (remoteCache : Bool)
    (driftScores : γ) :
    (new policy remoteCache driftScores : System σ ε γ).env.Tracked regex 0 := by
  intro engine he
  obtain ⟨pf, -, rfl⟩ := map_eq_some_iff.1 he
  exact ⟨pf, [], tracking_new pf, le_rfl⟩

/-- **Every entry of a cache goes back to a call that passed the chain**, after any run. -/
theorem provenance_run (cfg : Config) (digest : List UInt8 → String) (m : Evaluators σ ε γ)
    (policy : Option PolicyFile) (remoteCache : Bool) (driftScores : γ) (es : List (Event σ ε))
    (hstores : stores es < 2 ^ 64) :
    let s := run (exec cfg digest m) (new policy remoteCache driftScores) es
    s.Provenance m ∧ s.env.Tracked m.regex (stores es) := by
  induction es using reverseRecOn with
  | nil =>
    exact ⟨provenance_new policy remoteCache driftScores,
      tracked_new m.regex policy remoteCache driftScores⟩
  | append_singleton es e ih =>
    have hsum : stores (es ++ [e]) = stores es + e.stores := by simp [stores]
    obtain ⟨hprov, htrack⟩ := ih (by omega)
    rw [run_concat, hsum]
    exact ⟨hprov.exec htrack (by omega) cfg digest e, exec_tracked cfg digest htrack e⟩

/-! ## When a cached ALLOW is what the chain would answer -/

/-- The same state with empty caches. -/
def emptied (s : System σ ε γ) : System σ ε γ :=
  { s with
    app := { s.app with cache := .new }
    remote := s.remote.map fun _ => .new }

omit [Inhabited σ] in
theorem found_emptied (digest : List UInt8 → String) (s : System σ ε γ) (inp : Input σ) :
    s.emptied.found digest inp = none := by
  have hlocal (key : String) : (DecisionCache.new.get inp.now key).1 = none := rfl
  have hremote (key : String) :
      (s.emptied.askRemote inp.req.toValidationRequest key inp.now inp.reachable).1 = none := by
    unfold askRemote emptied
    cases s.remote with
    | none => simp
    | some r =>
      dsimp only [map_some]
      split
      · unfold DragonflyClient.get
        split <;> rfl
      · rfl
  unfold found lookupCaches
  dsimp only
  rw [hremote]
  split
  · rfl
  · rfl

/-- What the chain reads is as for every ALLOW lately cached under the key, or makes no
difference. -/
structure Agreeing (digest : List UInt8 → String) (m : Evaluators σ ε γ) (s : System σ ε γ)
    (inp : Input σ) : Prop where
  /-- An entry lives for half a minute, twice that if it comes from the remote cache. -/
  same : ∀ f ∈ s.fills, f.key = inp.key digest s →
    inp.now < f.time + (Cache.ttlDynamic + Cache.ttl) →
    f.req = inp.req ∧ f.policy = s.env.policy ∧
      f.maxTokens = s.env.maxTokens inp.req.agentId ∧
      f.maxComputeSeconds = s.env.maxComputeSeconds inp.req.agentId
  /-- The call itself and those since have been recorded. -/
  activity : ∀ pf ∈ s.env.policy, ¬ pf.ReadsActivity
  rate : ((s.app.agent inp.req.agentId).currentActionCount inp.clk.limited).1 <
    (s.env.thresholds.thresholdsFor inp.req.agentId).maxActionsPerMinute.getD maxActionsPerMinute
  goal : (m.embed inp.req).isSome → ∀ sessionId ∈ inp.req.sessionId,
    s.env.goals (goalKey inp.req.agentId sessionId) = none
  conversation : (m.embed inp.req).isSome →
    (s.env.conversations inp.req.agentId).baseline.length < baselineSize
  /-- No deep scan is made, or none that counts. -/
  scan : inp.req.scanMetadata.tier = .maximum → ∀ trace ∈ inp.req.scanMetadata.reasoningTrace,
    let monitor := m.cognitive (s.app.agent inp.req.agentId).signals
    monitor.enabled = false ∨ monitor.triage trace = .fastPath

section

variable {inp : Input σ}

omit [Inhabited σ] in
/-- A hit goes back to a call of the last minute. -/
theorem Provenance.found (h : s.Provenance m) {c : CachedDecision}
    (hc : s.found digest inp = some c) :
    inp.req.amount = none ∧ ∃ f ∈ s.fills, f.key = inp.key digest s ∧
      inp.now < f.time + (Cache.ttlDynamic + Cache.ttl) := by
  unfold System.found lookupCaches at hc
  dsimp only at hc
  split at hc
  · next hamount =>
    refine ⟨isNone_iff_eq_none.1 hamount, ?_⟩
    split at hc
    · next d cache heq =>
      obtain ⟨t, ⟨f, hf, hkey, hle⟩, hlt⟩ := h.cache.of_hit (congrArg Prod.fst heq)
      exact ⟨f, hf, hkey, by omega⟩
    split at hc
    · next d hd =>
      obtain ⟨f, hf, hkey, hle⟩ := (h.askRemote _ _ _ _).1 d hd
      have httl : 0 < Cache.ttl := by decide
      exact ⟨f, hf, hkey, by omega⟩
    · simp at hc
  · simp at hc

section

variable (h : s.Agreeing digest m inp)

include h

theorem Agreeing.goalStage : (s.env.goalStage m inp.req).1 = none := by
  unfold Env.goalStage
  split
  · next sessionId action hsession haction =>
    dsimp only
    rw [h.goal (by rw [haction]; rfl) sessionId hsession]
  · rfl

theorem Agreeing.conversationStage : (s.env.conversationStage m inp.req).1 = none := by
  unfold Env.conversationStage
  split
  · next action haction =>
    unfold AgentConvoState.push
    rw [if_pos (h.conversation (by rw [haction]; rfl))]
    rfl
  · rfl

/-- The scan lets the request go on, or defers the deep scan. -/
theorem Agreeing.scanned (taskId : String) :
    let monitor := m.cognitive (s.app.agent inp.req.agentId).signals
    (∃ id, monitor.scan inp.req.scanMetadata taskId = .deferred id) ∨
      monitor.scan inp.req.scanMetadata taskId = .pass := by
  intro monitor
  have hscan := h.scan
  unfold CognitiveMonitor.scan
  split
  · exact .inr rfl
  · next trace htrace =>
    split
    · next henabled =>
      split
      · exact .inr rfl
      · split
        · exact .inl ⟨taskId, rfl⟩
        · exact .inr rfl
      · next htier =>
        rcases hscan htier trace htrace with hoff | hfast
        · simp [monitor, hoff] at henabled
        · exact .inr (by simp [monitor, hfast])
    · exact .inr rfl

section

variable (htrack : s.env.Tracked m.regex n) (hn : n < 2 ^ 64) {f : Fill} (hf : f.Passes m)
  (hreq : f.req = inp.req) (hpolicy : f.policy = s.env.policy)

include htrack hn hf hreq hpolicy

/-- The rules let the request through as they did the cached one. -/
theorem Agreeing.ruled :
    let stage := (s.env.ruled m inp.req (s.app.agent inp.req.agentId) inp.clk inp.oracle).1
    stage ≠ .panicked ∧ ∀ verdict ∈ stage.verdict, verdict = .pass := by
  intro stage
  obtain ⟨w, k, hrules⟩ := hf.rules
  have hanomaly : anomalyOf inp.req.toValidationRequest inp.oracle = none := by
    simp [anomalyOf, ← hreq, hf.amount]
  have hstage : stage = policyStage m.regex s.env.policy (inp.req.evalContext w k none) := by
    refine (htrack.ruleStage hn _).trans ?_
    -- what is left of the difference is the activity of the agent
    rw [hanomaly]
    exact policyStage_withActivity m.regex h.activity (inp.req.evalContext w k none) _ _
  rw [hstage, ← hpolicy, ← hreq]
  exact hrules

/-- The chain allows the request. -/
theorem Agreeing.allows (htokens : f.maxTokens = s.env.maxTokens inp.req.agentId)
    (hcompute : f.maxComputeSeconds = s.env.maxComputeSeconds inp.req.agentId)
    (hclosed : ((s.app.agent inp.req.agentId).circuitBreakActive inp.clk.entered).1 = none)
    (cfg : Config) (stamp : Stamp) : (mainSection cfg stamp inp.clk inp.req.toValidationRequest
      (s.env.consult m inp.req (s.app.agent inp.req.agentId) inp.clk inp.oracle inp.taskId)
      (s.app.agent inp.req.agentId)).response.decision = .allow := by
  have hamount : inp.req.amount = none := hreq ▸ hf.amount
  have hsignals : (observing inp.req.toValidationRequest inp.oracle
      (s.app.agent inp.req.agentId)).signals = (s.app.agent inp.req.agentId).signals := by
    simp [observing, hamount]
  refine (mainSection_allow_iff cfg stamp inp.clk _ _ _).2 ⟨⟨hclosed, ?_, ?_, ?_⟩, ?_⟩
  · exact (h.ruled htrack hn hf hreq hpolicy).2
  · exact h.goalStage
  · exact h.conversationStage
  · unfold Env.consult
    rw [hsignals]
    refine (h.scanned inp.taskId).imp_right fun hpass => ⟨hpass, ⟨h.rate, ?_, ?_, ?_, ?_⟩, ?_⟩
    -- without an amount only the aggregate policies are left
    · intro hsome
      simp [hamount] at hsome
    · intro r hr
      simp [anomalyOf, hamount] at hr
    · intro _ hsome
      simp [hamount] at hsome
    · rw [← htokens, ← hcompute, ← hreq]
      exact hf.aggregate
    · intro hquorum
      exact absurd (amount_of_requiresQuorum hquorum) (by simp [hamount])

end

end

end

theorem validateInner_cached (cfg : Config) (m : Evaluators σ ε γ) {inp : Input σ}
    (hadm : admission inp.stamp inp.unregistered inp.mcp = none)
    (hfrom : (inp.turn digest s).FromCache) :
    s.validateInner cfg digest m inp = some ((inp.turn digest s).outcome cfg s.app).response := by
  unfold validateInner
  rw [hadm]
  rw [if_pos hfrom]
  rfl

theorem validateInner_missed (cfg : Config) (m : Evaluators σ ε γ) {inp : Input σ}
    (hadm : admission inp.stamp inp.unregistered inp.mcp = none)
    (hmiss : ¬ (inp.turn digest s).FromCache)
    (hpanics : ¬ s.env.Panics m inp.req (s.app.agent inp.req.agentId) inp.clk inp.oracle) :
    s.validateInner cfg digest m inp =
      some (mainSection cfg inp.stamp inp.clk inp.req.toValidationRequest
        (s.env.consult m inp.req (s.app.agent inp.req.agentId) inp.clk inp.oracle inp.taskId)
        (s.app.agent inp.req.agentId)).response := by
  unfold validateInner
  rw [hadm]
  dsimp only
  rw [if_neg hmiss, if_neg (by exact hpanics), decision_miss cfg _ fun c hc hd => hmiss ⟨c, hc, hd⟩]
  rfl

/-- **The soundness of the decision cache.** After any run that stores fewer than 2^64 policies: a
call that agrees with what is cached and gets an ALLOW from the caches gets one from the chain of
checks too, on the same state with empty caches. -/
theorem cached_allow_of_agreeing (cfg : Config) (digest : List UInt8 → String)
    (m : Evaluators σ ε γ) (policy : Option PolicyFile) (remoteCache : Bool) (driftScores : γ)
    (es : List (Event σ ε)) (hstores : stores es < 2 ^ 64) (inp : Input σ)
    (hagree : (run (exec cfg digest m) (new policy remoteCache driftScores) es).Agreeing
      digest m inp) :
    let s := run (exec cfg digest m) (new policy remoteCache driftScores) es
    s.FromCache digest inp →
      (s.validateInner cfg digest m inp).map (·.decision) = some .allow →
      (s.emptied.validateInner cfg digest m inp).map (·.decision) = some .allow := by
  intro s hcached hallow
  obtain ⟨hprov, htrack⟩ := provenance_run cfg digest m policy remoteCache driftScores es hstores
  obtain ⟨hadm, hfrom⟩ := hcached
  obtain ⟨c, hc, hdec⟩ := hfrom
  -- the call that the entry goes back to, and which agrees with this one
  obtain ⟨-, f, hf, hkey, hlt⟩ := hprov.found hc
  obtain ⟨hreq, hpolicy, htokens, hcompute⟩ := hagree.same f hf hkey hlt
  have hpass := hprov.passes f hf
  have hclosed : ((s.app.agent inp.req.agentId).circuitBreakActive inp.clk.entered).1 = none := by
    rw [validateInner_cached cfg m hadm ⟨c, hc, hdec⟩] at hallow
    rcases Turn.allow_cases cfg (some.inj hallow) with ⟨-, hclosed⟩ | ⟨hno, -⟩ | ⟨hno, -⟩
    · exact hclosed
    · exact absurd ⟨c, hc, hdec⟩ hno
    · exact absurd ⟨c, hc, hdec⟩ hno
  -- with empty caches the call goes through the chain
  have hmiss : ¬ (inp.turn digest s.emptied).FromCache := by
    rintro ⟨c', hc', -⟩
    exact absurd hc' (by rw [Input.turn, found_emptied]; simp)
  have hpanics : ¬ s.env.Panics m inp.req (s.app.agent inp.req.agentId) inp.clk inp.oracle :=
    fun hp => (hagree.ruled htrack hstores hpass hreq hpolicy).1 hp.2
  rw [validateInner_missed cfg m hadm hmiss hpanics]
  exact congrArg some (hagree.allows htrack hstores hpass hreq hpolicy htokens hcompute hclosed cfg
    inp.stamp)

/-- Evaluators that never object, apart from the rules. -/
def quietEvaluators : Evaluators Unit Unit Unit where
  regex := noRegex
  embed _ := some ()
  scoreDrift _ _ _ _ := (none, ())
  distance _ _ := 0
  cognitive _ := ⟨false, fun _ => .fastPath, fun _ => none⟩
  ewmaVelocity _ := 0
  aggregate _ _ _ := none

/-- A read for the recipient, at the second `n`. -/
def readFor (recipient : String) (n : Nat) : Input Unit where
  req := ⟨⟨"bot", "read", none, some recipient, .systemGenerated⟩, none, none, none, none, none,
    none, .null⟩
  stamp := ⟨"tx", "noon"⟩
  unregistered := none
  mcp := .notAsked
  now := secs n
  reachable := true
  reachableLater := true
  clk := atSecond n
  oracle := noObjection
  taskId := "task"

/-- The system after the calls, under a policy. -/
def afterReads (policy : PolicyFile) (es : List (Event Unit Unit)) : System Unit Unit Unit :=
  run (exec ⟨1, 1⟩ plainDigest quietEvaluators) (new (some policy) true ()) es

/-- What the system answers, and whether from a cache. -/
def answer (s : System Unit Unit Unit) (inp : Input Unit) : Bool × Option Decision :=
  (s.FromCache plainDigest inp,
    (s.validateInner ⟨1, 1⟩ plainDigest quietEvaluators inp).map (·.decision))

/-- A read for alice is allowed and cached, and then one for mallory from the cache, which the
policy denies. So is a read for mallory, after a policy that denies it. -/
theorem cached_read_not_sound :
    let denying := enforcing [denyMallory]
    let s := afterReads denying ((readFor "alice" 100).events 0)
    let s' := afterReads (enforcing []) ((readFor "mallory" 100).events 0 ++ [.pushPolicy denying])
    s.answer (readFor "mallory" 101) = (true, some .allow) ∧
      s.emptied.answer (readFor "mallory" 101) = (false, some .deny) ∧
      s'.answer (readFor "mallory" 101) = (true, some .allow) ∧
      s'.emptied.answer (readFor "mallory" 101) = (false, some .deny) := by
  decide +kernel

theorem repeated_read_agreeing : (afterReads (enforcing [denyMallory])
      ((readFor "alice" 100).events 0)).Agreeing plainDigest quietEvaluators
      (readFor "alice" 101) where
  same f hf _ _ := by
    have hfills : (afterReads (enforcing [denyMallory])
        ((readFor "alice" 100).events 0)).fills =
        [⟨plainDigest (Cache.DecisionCache.keyBytes "bot" "read" 0 0), secs 100,
          (readFor "alice" 100).req, some (enforcing [denyMallory]), none,
          none⟩] := by
      with_unfolding_all rfl
    rw [hfills] at hf
    obtain rfl := mem_singleton.1 hf
    exact ⟨rfl, by decide +kernel, by decide +kernel, by decide +kernel⟩
  activity := by decide +kernel
  rate := by decide +kernel
  goal _ sessionId h := absurd h (by simp [readFor])
  conversation _ := by decide +kernel
  scan h := absurd h (by decide +kernel)

theorem repeated_read_sound :
    let s := afterReads (enforcing [denyMallory]) ((readFor "alice" 100).events 0)
    s.FromCache plainDigest (readFor "alice" 101) ∧
      (s.emptied.validateInner ⟨1, 1⟩ plainDigest quietEvaluators
        (readFor "alice" 101)).map (·.decision) = some .allow :=
  ⟨by decide +kernel, cached_allow_of_agreeing ⟨1, 1⟩ plainDigest quietEvaluators
    (some (enforcing [denyMallory])) true () ((readFor "alice" 100).events 0)
    (by decide) (readFor "alice" 101) repeated_read_agreeing (by decide +kernel)
    (by decide +kernel)⟩

end System

end Haltchain.Validator

import Haltchain.Cache.DragonflyClient
import Haltchain.Validator.Evaluators

/-! # The validator with its evaluators and the remote cache

A `System` has the remote cache and the evaluators beside an `AppState`: its steps are those of the
`AppState`, with the answers of the two, and the changes of their state.

`validateInner` is a whole call on one state: the steps of a call with none between them
(`run_events`). -/

namespace Haltchain.Validator

open Lib Rules Option
open Cache (CachedDecision DecisionCache DragonflyClient)

/-- A decision put into the caches, with what it was based on. -/
structure Fill where
  key : String
  time : Nat
  req : Request
  policy : Option PolicyFile
  maxTokens : Option Rat
  maxComputeSeconds : Option Rat

def Env.fill {ε γ : Type} (env : Env ε γ) (key : String) (time : Nat) (req : Request) : Fill :=
  ⟨key, time, req, env.policy, env.maxTokens req.agentId, env.maxComputeSeconds req.agentId⟩

/-- `fills` is for the proofs: all that was put into the caches. -/
structure System (σ ε γ : Type) where
  app : AppState σ
  env : Env ε γ
  remote : Option DragonflyClient
  fills : List Fill

/-- The steps. `reachable`: the remote cache can be reached. -/
inductive System.Event (σ ε : Type) where
  /-- A step without the remote cache and evaluators. -/
  | plain (e : Validator.Event σ)
  | lookup (id now : Nat) (reachable : Bool)
  /-- `req` is the whole request of the call. -/
  | decide (id : Nat) (clk : Readings) (req : Request) (oracle : Verdicts σ) (taskId : String)
      (reachable : Bool)
  | fileChanged (attempts : List Attempt)
  | pushPolicy (pf : PolicyFile)
  | setThreshold (key : String) (value : Rat)
  | addVariant (variant : PolicyVariant)
  | removeVariant (variantId : String)
  /-- A goal is declared, or revoked. -/
  | setGoal (agentId sessionId : String) (goal : Option ε)

/-- What a call returned, if that is what was observed. -/
def Observation.response : Observation → Option ValidationResponse
  | .decided _ _ resp => some resp
  | .rejected _ resp => some resp
  | _ => none

/-- The key under which the decision is cached. -/
def AppState.cacheKey {σ : Type} (digest : List UInt8 → String) (s : AppState σ)
    (req : ValidationRequest) : String :=
  let actionCountBucket :=
    match s.agents.lookup req.agentId with
    | some a => a.actionTimestamps.length / 2
    | none => 0
  DecisionCache.makeKey digest req.agentId req.actionType (amountBucket req.amount)
    actionCountBucket

namespace System

variable {σ ε γ : Type} [Inhabited σ]

/-- At the start. Without a policy file there are never rules; a remote cache is optional. -/
def new (policy : Option PolicyFile) (remoteCache : Bool) (driftScores : γ) : System σ ε γ where
  app := .new
  env := ⟨policy.map .new, .new, fun _ => none, driftScores, fun _ => .new⟩
  remote := if remoteCache then some .new else none
  fills := []

/-- The answer of the remote cache, asked after the local one. -/
def askRemote (s : System σ ε γ) (req : ValidationRequest) (key : String) (now : Nat)
    (reachable : Bool) : Option CachedDecision × Option DragonflyClient :=
  if req.amount.isNone ∧ (s.app.cache.get now key).1.isNone then
    match s.remote with
    | some remote =>
      let (answer, remote) := remote.get now reachable key
      (answer, some remote)
    | none => (none, none)
  else (none, s.remote)

/-- What is put into the caches, and what it is based on. -/
def fill (s : System σ ε γ) (key : String) (time : Nat) (req : Request) (decision : CachedDecision)
    (reachable : Bool) : Option DragonflyClient × List Fill :=
  (s.remote.map fun remote => remote.set time reachable key decision .dynamic,
    s.fills ++ [s.env.fill key time req])

/-- Stores a policy. -/
def store (s : System σ ε γ) (f : PolicyHandle → PolicyHandle) : System σ ε γ :=
  { s with env := { s.env with rules := s.env.rules.map fun e => { e with handle := f e.handle } } }

variable (cfg : Config) (digest : List UInt8 → String) (m : Evaluators σ ε γ)

/-- The section of a call without a cached ALLOW. -/
def chain (s : System σ ε γ) (id : Nat) (t : AppState.Turn σ) (req : Request) (taskId : String)
    (reachable : Bool) : System σ ε γ :=
  let a := s.app.agent req.agentId
  let env := s.env.afterChain m req a t.clk t.v
  if s.env.Panics m req a t.clk t.v then
    { s with
      app := { s.app.putAgent req.agentId (observing req.toValidationRequest t.v a) t.clk.entered []
        with calls := s.app.calls.erase id }
      env := env }
  else
    let v := s.env.consult m req a t.clk t.v taskId
    let app := s.app.exec cfg digest (.decide id t.clk v)
    match (AppState.decision cfg t.call t.cached t.clk v a).cache with
    | .insert decision =>
      let (remote, fills) := s.fill t.key t.clk.closed req decision reachable
      ⟨app, env, remote, fills⟩
    | _ => { s with app := app, env := env }

/-- One event. -/
def exec (s : System σ ε γ) : Event σ ε → System σ ε γ
  | .plain (.lookup ..) => s
  | .plain (.decide ..) => s
  | .plain e => { s with app := s.app.exec cfg digest e }
  | .lookup id now reachable =>
    match s.app.calls.lookup id with
    | some ⟨req, _, .keyed key⟩ =>
      let (answer, remote) := s.askRemote req key now reachable
      { s with app := s.app.exec cfg digest (.lookup id now answer), remote := remote }
    | _ => s
  | .decide id clk req oracle taskId reachable =>
    match s.app.turn (.decide id clk oracle) with
    | some t =>
      if t.call.req = req.toValidationRequest then
        if t.FromCache then { s with app := s.app.exec cfg digest (.decide id clk oracle) }
        else s.chain cfg digest m id t req taskId reachable
      else s
    | none => s
  | .fileChanged attempts => s.store fun h => h.onChange attempts
  | .pushPolicy pf => s.store fun h => h.store pf
  | .setThreshold key value => { s with env.thresholds := s.env.thresholds.set key value }
  | .addVariant variant => { s with env.thresholds := s.env.thresholds.addVariant variant }
  | .removeVariant id => { s with env.thresholds := s.env.thresholds.removeVariant id }
  | .setGoal agentId sessionId goal =>
    { s with env.goals := Function.update s.env.goals (goalKey agentId sessionId) goal }

/-! ## A whole call -/

/-- A call, with all that it is given from outside. -/
structure Input (σ : Type) where
  req : Request
  stamp : Stamp
  unregistered : Option String
  mcp : McpVerdict
  /-- When the caches are asked, and whether the remote one is reached then and at the end. -/
  now : Nat
  reachable : Bool
  reachableLater : Bool
  clk : Readings
  oracle : Verdicts σ
  taskId : String

/-- The key of a call. -/
def Input.key (digest : List UInt8 → String) (s : System σ ε γ) (inp : Input σ) : String :=
  s.app.cacheKey digest inp.req.toValidationRequest

/-- What the caches have for the call. -/
def found (s : System σ ε γ) (inp : Input σ) : Option CachedDecision :=
  let key := inp.key digest s
  (AppState.lookupCaches s.app.cache inp.req.toValidationRequest key inp.now
    (s.askRemote inp.req.toValidationRequest key inp.now inp.reachable).1).1

/-- What the call brings to its section. -/
def Input.turn (digest : List UInt8 → String) (s : System σ ε γ) (inp : Input σ) :
    AppState.Turn σ :=
  let key := inp.key digest s
  let cached := s.found digest inp
  ⟨⟨inp.req.toValidationRequest, inp.stamp, .waiting key cached⟩, key, cached, inp.clk, inp.oracle⟩

/-- The call passes admission and the caches have an ALLOW for it. -/
def FromCache (s : System σ ε γ) (inp : Input σ) : Prop :=
  admission inp.stamp inp.unregistered inp.mcp = none ∧ (inp.turn digest s).FromCache
deriving Decidable

/-- The response; `none` if the call panics. -/
def validateInner (s : System σ ε γ) (inp : Input σ) : Option ValidationResponse :=
  match admission inp.stamp inp.unregistered inp.mcp with
  | some resp => some resp
  | none =>
    let a := s.app.agent inp.req.agentId
    let t := inp.turn digest s
    if t.FromCache then some (AppState.decision cfg t.call t.cached t.clk t.v a).response
    else if s.env.Panics m inp.req a t.clk t.v then none
    else
      let v := s.env.consult m inp.req a t.clk t.v inp.taskId
      some (AppState.decision cfg t.call t.cached t.clk v a).response

/-! ### The steps of a call -/

/-- The steps up to the section. -/
def Input.approach (inp : Input σ) (id : Nat) : List (Event σ ε) :=
  [.plain (.validate id inp.req.toValidationRequest inp.stamp inp.unregistered inp.mcp),
   .plain (.key id), .lookup id inp.now inp.reachable, .plain (.enter id)]

/-- The steps of a call. -/
def Input.events (inp : Input σ) (id : Nat) : List (Event σ ε) :=
  inp.approach id ++ [.decide id inp.clk inp.req inp.oracle inp.taskId inp.reachableLater]

variable {s : System σ ε γ} {inp : Input σ} {id : Nat} {resp : ValidationResponse}

/-- The steps of a call that is not there do nothing. -/
theorem run_of_rejected (hid : s.app.calls.lookup id = none)
    (hadm : admission inp.stamp inp.unregistered inp.mcp = some resp) :
    (run (exec cfg digest m) s (inp.events id)).app.trace =
      s.app.trace ++ [.rejected inp.req.agentId resp] := by
  simp [Input.events, Input.approach, exec, AppState.exec, AppState.advance, AppState.turn, hid,
    hadm]

theorem run_approach (hid : s.app.calls.lookup id = none)
    (hadm : admission inp.stamp inp.unregistered inp.mcp = none) :
    let s' := run (exec cfg digest m) s (inp.approach id)
    s'.env = s.env ∧ s'.app.agent inp.req.agentId = s.app.agent inp.req.agentId ∧
      s'.app.calls.lookup id = some (inp.turn digest s).call := by
  intro s'
  simp only [s', Input.approach, run_cons, run_nil, exec, AppState.exec, hid, hadm,
    isSome_none, Bool.false_eq_true, ↓reduceIte, AppState.advance, AList.lookup_insert,
    AppState.setPhase, bind_some, getD_some, AppState.ensure, AppState.agent,
    true_and]
  rfl

theorem chain_app {t : AppState.Turn σ} {req : Request} (taskId : String) (reachable : Bool)
    (h : ¬ s.env.Panics m req (s.app.agent req.agentId) t.clk t.v) :
    (s.chain cfg digest m id t req taskId reachable).app = s.app.exec cfg digest (.decide id t.clk
      (s.env.consult m req (s.app.agent req.agentId) t.clk t.v taskId)) := by
  unfold chain
  dsimp only
  rw [if_neg h]
  split <;> rfl

theorem decided_last {t : AppState.Turn σ} (hcall : s.app.calls.lookup id = some t.call)
    (hphase : t.call.phase = .waiting t.key t.cached) (v : Verdicts σ) :
    (s.app.exec cfg digest (.decide id t.clk v)).trace.getLast? =
      some (.decided t.call.req.agentId t.clk.entered (AppState.decision cfg t.call t.cached t.clk v
        (s.app.agent t.call.req.agentId)).response) := by
  simp [AppState.exec, AppState.advance, hcall, hphase, AppState.decideCall, AppState.putAgent]

/-- **A whole call is what its steps come to.** -/
theorem run_events (hid : s.app.calls.lookup id = none)
    (h : s.validateInner cfg digest m inp = some resp) :
    ((run (exec cfg digest m) s (inp.events id)).app.trace.getLast?).bind Observation.response =
      some resp := by
  unfold validateInner at h
  split at h
  · next hadm =>
    rw [run_of_rejected cfg digest m hid hadm, List.getLast?_concat]
    exact h
  · next hadm =>
    obtain ⟨henv, hagent, hcall⟩ := run_approach cfg digest m hid hadm
    rw [Input.events, run_concat]
    generalize run (exec cfg digest m) s (inp.approach id) = s' at henv hagent hcall ⊢
    have hturn : s'.app.turn (.decide id inp.clk inp.oracle) = some (inp.turn digest s) := by
      simp [AppState.turn, hcall, Input.turn]
    have hreq : (inp.turn digest s).call.req = inp.req.toValidationRequest := rfl
    have hlast (v : Verdicts σ) := decided_last cfg digest hcall rfl v
    rw [exec, hturn]
    dsimp only at h ⊢
    rw [if_pos hreq]
    split at h
    · next hc =>
      rw [← hagent] at h
      rw [if_pos hc]
      exact (congrArg (·.bind Observation.response) (hlast inp.oracle)).trans h
    · next hc =>
      rw [if_neg hc]
      split at h
      · simp at h
      · next hp =>
        rw [← hagent, ← henv] at hp h
        rw [chain_app cfg digest m inp.taskId inp.reachableLater hp, hlast]
        exact h

end System

end Haltchain.Validator

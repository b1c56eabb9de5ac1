import Haltchain.Lib.Run
import Haltchain.Validator.Pipeline

/-! # The shared state and the calls on it

`AppState` holds one `AgentState` behind a mutex for every agent seen, and the decision cache. An
`Event` is one atomic step of one of the calls in progress; a section under an agent's lock is one
event.

A `validate` call goes through the phases of `Phase`. What the remote cache answers comes with the
step that asks it. `emergency_halt_all` copies the agent ids and visits them one by one; it leaves
out an agent whose lock it does not get in time.

The last two fields of the state are for the proofs: the last reading of the clock in a section of
the agent, and what has been observed so far. -/

namespace Haltchain.Validator

open Option

open Cache (CachedDecision DecisionCache)

/-- How far a `validate` call has come. -/
inductive Phase where
  /-- The registry and the tool guard let it through. -/
  | admitted
  /-- It has computed the key for the cache. -/
  | keyed (key : String)
  /-- It has asked the caches. -/
  | looked (key : String) (cached : Option CachedDecision)
  /-- It has the entry of its agent and waits for the lock. -/
  | waiting (key : String) (cached : Option CachedDecision)

/-- A call and its phase. -/
structure PendingCall where
  req : ValidationRequest
  stamp : Stamp
  phase : Phase

/-- A halt in progress. -/
inductive PendingHalt where
  /-- `force_halt_agent`, waiting for the lock. -/
  | force (agentId reason : String)
  /-- `emergency_halt_all`, with the ids to visit and the number of agents halted. -/
  | all (remaining : List String) (reason : String) (halted : Nat)

inductive Observation where
  /-- `trip_circuit_breaker` ran for the agent. -/
  | tripped (agentId : String) (b : CircuitBreak)
  /-- A `validate` call entered its section at `now` and returned. -/
  | decided (agentId : String) (now : Nat) (resp : ValidationResponse)
  /-- A `validate` call returned without a section. -/
  | rejected (agentId : String) (resp : ValidationResponse)
  /-- `emergency_halt_all` returned. -/
  | haltedAll (count : Nat)
deriving DecidableEq

/-- The shared state. -/
structure AppState (σ : Type) where
  agents : AList (fun _ : String => AgentState σ)
  cache : DecisionCache
  calls : AList (fun _ : Nat => PendingCall)
  halts : AList (fun _ : Nat => PendingHalt)
  clock : String → Nat
  trace : List Observation

/-- The steps. `id` and `hid` name the call or the halt in progress. -/
inductive Event (σ : Type) where
  | validate (id : Nat) (req : ValidationRequest) (stamp : Stamp) (unregistered : Option String)
      (mcp : McpVerdict)
  | key (id : Nat)
  /-- `remote` is what the remote cache answers, if it is asked. -/
  | lookup (id now : Nat) (remote : Option CachedDecision)
  | enter (id : Nat)
  | decide (id : Nat) (clk : Readings) (v : Verdicts σ)
  | forceHalt (hid : Nat) (agentId reason : String)
  | emergencyHalt (hid : Nat) (reason : String)
  /-- The halt gets its lock at `now`, or has waited too long. -/
  | haltNext (hid now : Nat) (acquired : Bool)
  /-- The section of `agent_status`. -/
  | status (agentId : String) (clk : Readings)
  /-- A retraining ends; `applied` if its model is installed. -/
  | retrain (agentId : String) (signals : σ) (applied : Bool)

/-- `floor(amount / 100)` as an `i64`. -/
def amountBucket (amount : Option Rat) : Int :=
  match amount with
  | some a => max (-2 ^ 63) (min (a / 100).floor (2 ^ 63 - 1))
  | none => 0

/-- The agent whose lock the halt waits for. -/
def PendingHalt.next : PendingHalt → Option String
  | .force agentId _ => some agentId
  | .all remaining _ _ => remaining.head?

namespace AppState

variable {σ : Type} [Inhabited σ]

/-- Before all calls. -/
def new : AppState σ := ⟨∅, .new, ∅, ∅, fun _ => 0, []⟩

/-- The state of the agent, initial if it was not seen before. -/
def agent (s : AppState σ) (agentId : String) : AgentState σ :=
  (s.agents.lookup agentId).getD .new

/-- `entry(..).or_insert_with(AgentState::new)`. -/
def ensure (s : AppState σ) (agentId : String) : AppState σ :=
  { s with agents := s.agents.insert agentId (s.agent agentId) }

/-- A section of the agent leaves `a`, having last read the clock at `now`. -/
def putAgent (s : AppState σ) (agentId : String) (a : AgentState σ) (now : Nat)
    (obs : List Observation) : AppState σ :=
  { s with
    agents := s.agents.insert agentId a
    clock := Function.update s.clock agentId now
    trace := s.trace ++ obs }

def effect (cache : DecisionCache) (agentId key : String) (now : Nat) : CacheEffect → DecisionCache
  | .keep => cache
  | .invalidate => cache.invalidateAgent agentId
  | .insert decision => cache.insertFor now key decision (some agentId)

/-- The section a call takes: the short one if the caches had an ALLOW. -/
def decision (cfg : Config) (call : PendingCall) (cached : Option CachedDecision) (clk : Readings)
    (v : Verdicts σ) (a : AgentState σ) : Outcome σ :=
  match cached with
  | some c =>
    if c.decision = "ALLOW" then cachedSection call.stamp clk c a
    else mainSection cfg call.stamp clk call.req v a
  | none => mainSection cfg call.stamp clk call.req v a

/-- The section under the agent's lock, up to the return of the call. -/
def decideCall (cfg : Config) (s : AppState σ) (id : Nat) (call : PendingCall) (key : String)
    (cached : Option CachedDecision) (clk : Readings) (v : Verdicts σ) : AppState σ :=
  let agentId := call.req.agentId
  let o := decision cfg call cached clk v (s.agent agentId)
  { s.putAgent agentId o.agent clk.closed
      (o.tripped.toList.map (.tripped agentId) ++ [.decided agentId clk.entered o.response]) with
    cache := effect s.cache agentId key clk.closed o.cache
    calls := s.calls.erase id }

/-- The section of a halt: the breaker is tripped for a day. -/
def haltAgent (s : AppState σ) (agentId reason : String) (now : Nat) : AppState σ :=
  { s.putAgent agentId ((s.agent agentId).tripCircuitBreaker now (secs haltSecs) reason) now
      [.tripped agentId ⟨now, secs haltSecs, reason⟩] with
    cache := s.cache.invalidateAgent agentId }

/-- One step of a halt in progress. -/
def haltStep (s : AppState σ) (hid now : Nat) (acquired : Bool) : PendingHalt → AppState σ
  | .force agentId reason =>
    -- `force_halt_agent` waits for the lock without a limit
    if acquired then { s.haltAgent agentId reason now with halts := s.halts.erase hid } else s
  | .all [] _ halted =>
    { s with halts := s.halts.erase hid, trace := s.trace ++ [.haltedAll halted] }
  | .all (agentId :: rest) reason halted =>
    if (s.agents.lookup agentId).isSome ∧ acquired then
      { s.haltAgent agentId reason now with
        halts := s.halts.insert hid (.all rest reason (halted + 1)) }
    else { s with halts := s.halts.insert hid (.all rest reason halted) }

/-- The next step of the call, if it is in the phase for it. -/
def advance (s : AppState σ) (id : Nat) (f : PendingCall → Option (AppState σ)) : AppState σ :=
  ((s.calls.lookup id).bind f).getD s

def setPhase (s : AppState σ) (id : Nat) (call : PendingCall) (phase : Phase) : AppState σ :=
  { s with calls := s.calls.insert id { call with phase := phase } }

/-- Asks the local cache, then the remote one, whose answer is kept. Requests with an amount are not
cached. -/
def lookupCaches (cache : DecisionCache) (req : ValidationRequest) (key : String) (now : Nat)
    (remote : Option CachedDecision) : Option CachedDecision × DecisionCache :=
  if req.amount.isNone then
    match cache.get now key with
    | (some cached, cache) => (some cached, cache)
    | (none, cache) =>
      match remote with
      | some cached => (some cached, cache.insertFor now key cached (some req.agentId))
      | none => (none, cache)
  else (none, cache)

/-- One step; out of its phase it does nothing. `digest` hashes the cache keys. -/
def exec (cfg : Config) (digest : List UInt8 → String) (s : AppState σ) : Event σ → AppState σ
  | .validate id req stamp unregistered mcp =>
    if (s.calls.lookup id).isSome then s
    else
      match admission stamp unregistered mcp with
      | some resp => { s with trace := s.trace ++ [.rejected req.agentId resp] }
      | none => { s with calls := s.calls.insert id ⟨req, stamp, .admitted⟩ }
  | .key id => s.advance id fun call =>
    match call.phase with
    | .admitted =>
      let actionCountBucket :=
        match s.agents.lookup call.req.agentId with
        | some a => a.actionTimestamps.length / 2
        | none => 0
      some (s.setPhase id call (.keyed (DecisionCache.makeKey digest call.req.agentId
        call.req.actionType (amountBucket call.req.amount) actionCountBucket)))
    | _ => none
  | .lookup id now remote => s.advance id fun call =>
    match call.phase with
    | .keyed key =>
      let (cached, cache) := lookupCaches s.cache call.req key now remote
      some { s.setPhase id call (.looked key cached) with cache := cache }
    | _ => none
  | .enter id => s.advance id fun call =>
    match call.phase with
    | .looked key cached =>
      some ((s.ensure call.req.agentId).setPhase id call (.waiting key cached))
    | _ => none
  | .decide id clk v => s.advance id fun call =>
    match call.phase with
    | .waiting key cached => some (s.decideCall cfg id call key cached clk v)
    | _ => none
  | .forceHalt hid agentId reason =>
    if (s.halts.lookup hid).isSome then s
    else { s.ensure agentId with halts := s.halts.insert hid (.force agentId reason) }
  | .emergencyHalt hid reason =>
    if (s.halts.lookup hid).isSome then s
    else { s with halts := s.halts.insert hid (.all s.agents.keys reason 0) }
  | .haltNext hid now acquired =>
    match s.halts.lookup hid with
    | some halt => s.haltStep hid now acquired halt
    | none => s
  | .status agentId clk =>
    let (_, a) := (s.agent agentId).circuitBreakActive clk.entered
    let (_, a) := a.currentActionCount clk.closed
    s.putAgent agentId a clk.closed []
  | .retrain agentId signals applied =>
    match s.agents.lookup agentId with
    | some a =>
      let s' := { s with agents := s.agents.insert agentId { a with signals := signals } }
      if applied then { s' with cache := s.cache.invalidateAgent agentId } else s'
    | none => s

/-! ## The sections of the calls -/

/-- What a call brings to its section. -/
structure Turn (σ : Type) where
  call : PendingCall
  key : String
  cached : Option CachedDecision
  clk : Readings
  v : Verdicts σ

/-- The call whose section the step runs, if it runs one. -/
def turn (s : AppState σ) : Event σ → Option (Turn σ)
  | .decide id clk v => (s.calls.lookup id).bind fun call =>
    match call.phase with
    | .waiting key cached => some ⟨call, key, cached, clk, v⟩
    | _ => none
  | _ => none

/-- What the section leaves. -/
def Turn.outcome (cfg : Config) (t : Turn σ) (s : AppState σ) : Outcome σ :=
  decision cfg t.call t.cached t.clk t.v (s.agent t.call.req.agentId)

omit [Inhabited σ] in
theorem turn_decide {s : AppState σ} {e : Event σ} {t : Turn σ} (h : s.turn e = some t) :
    ∃ id, e = .decide id t.clk t.v ∧ s.calls.lookup id = some t.call ∧
      t.call.phase = .waiting t.key t.cached := by
  cases e with
  | decide id clk v =>
    obtain ⟨call, hcall, hphase⟩ := bind_eq_some_iff.1 h
    split at hphase
    · next key cached hwaiting =>
      cases hphase
      exact ⟨id, rfl, hcall, hwaiting⟩
    · simp at hphase
  | _ => simp [turn] at h

omit [Inhabited σ] in
theorem turn_of_turn {s : AppState σ} {id : Nat} {clk : Readings} {w : Verdicts σ} {t : Turn σ}
    (h : s.turn (.decide id clk w) = some t) (v : Verdicts σ) :
    s.turn (.decide id t.clk v) = some { t with v := v } := by
  obtain ⟨id', hid, hcall, hphase⟩ := turn_decide h
  obtain ⟨rfl, -, -⟩ := Event.decide.inj hid
  simp [turn, hcall, hphase]

theorem exec_of_turn (cfg : Config) (digest : List UInt8 → String) {s : AppState σ} {e : Event σ}
    {t : Turn σ} (h : s.turn e = some t) :
    ∃ id, s.exec cfg digest e = s.decideCall cfg id t.call t.key t.cached t.clk t.v := by
  obtain ⟨id, rfl, hcall, hphase⟩ := turn_decide h
  exact ⟨id, by simp [exec, advance, hcall, hphase]⟩

/-! ## What a step does -/

/-- The halts in progress stay, but for the one whose step this is. -/
def HaltsKept (s : AppState σ) (e : Event σ) (halts : AList (fun _ : Nat => PendingHalt)) : Prop :=
  ∀ hid, (s.halts.lookup hid).isSome → (∀ now acquired, e ≠ .haltNext hid now acquired) →
    halts.lookup hid = s.halts.lookup hid

/-- All that a step can do. -/
inductive Change (cfg : Config) (s : AppState σ) (e : Event σ) (s' : AppState σ) : Prop where
  /-- A call or a halt goes on, or nothing happens. -/
  | went (calls : AList (fun _ : Nat => PendingCall)) (halts : AList (fun _ : Nat => PendingHalt))
      (hkept : s.HaltsKept e halts) (h : s' = { s with calls := calls, halts := halts })
  /-- It goes on with an entry for the agent. -/
  | ensured (agentId : String) (calls : AList (fun _ : Nat => PendingCall))
      (halts : AList (fun _ : Nat => PendingHalt)) (hkept : s.HaltsKept e halts)
      (h : s' = { s.ensure agentId with calls := calls, halts := halts })
  /-- It returns without a section. -/
  | observed (o : Observation)
      (ho : (∃ a resp, o = .rejected a resp) ∨ ∃ count, o = .haltedAll count)
      (halts : AList (fun _ : Nat => PendingHalt)) (hkept : s.HaltsKept e halts)
      (h : s' = { s with halts := halts, trace := s.trace ++ [o] })
  | asked (id now : Nat) (remote : Option CachedDecision) (call : PendingCall) (key : String)
      (he : e = .lookup id now remote) (hcall : s.calls.lookup id = some call)
      (hphase : call.phase = .keyed key) (calls : AList (fun _ : Nat => PendingCall))
      (h : s' = { s with
        calls := calls
        cache := (lookupCaches s.cache call.req key now remote).2 })
  | decided (id : Nat) (t : Turn σ) (hturn : s.turn e = some t)
      (h : s' = s.decideCall cfg id t.call t.key t.cached t.clk t.v)
  | halted (hid now : Nat) (acquired : Bool) (halt : PendingHalt) (agentId reason : String)
      (he : e = .haltNext hid now acquired) (hhalt : s.halts.lookup hid = some halt)
      (hnext : agentId ∈ halt.next) (halts : AList (fun _ : Nat => PendingHalt))
      (hkept : s.HaltsKept e halts)
      (h : s' = { s.haltAgent agentId reason now with halts := halts })
  | status (agentId : String) (clk : Readings) (he : e = .status agentId clk)
      (h : s' = s.putAgent agentId
        (((s.agent agentId).circuitBreakActive clk.entered).2.currentActionCount clk.closed).2
        clk.closed [])
  | retrained (agentId : String) (signals : σ) (cache : DecisionCache)
      (hcache : cache = s.cache ∨ cache = s.cache.invalidateAgent agentId)
      (h : s' = { s with
        agents := s.agents.insert agentId { s.agent agentId with signals := signals }
        cache := cache })

omit [Inhabited σ] in
/-- A step of a call in progress is one its phase allows, or nothing. -/
theorem advance_cases (s : AppState σ) (id : Nat) (f : PendingCall → Option (AppState σ)) :
    s.advance id f = s ∨
      ∃ call, s.calls.lookup id = some call ∧ f call = some (s.advance id f) := by
  unfold advance
  cases hcall : s.calls.lookup id with
  | none => exact .inl rfl
  | some call =>
    cases hf : f call with
    | none => exact .inl (by rw [bind_some, hf]; rfl)
    | some t => exact .inr ⟨call, rfl, by rw [bind_some, hf]; rfl⟩

variable {s : AppState σ} {e : Event σ}

omit [Inhabited σ] in
theorem haltsKept_self (s : AppState σ) (e : Event σ) : s.HaltsKept e s.halts := fun _ _ _ => rfl

omit [Inhabited σ] in
theorem haltsKept_of_free {hid : Nat} (hfree : ¬ (s.halts.lookup hid).isSome) (halt : PendingHalt) :
    s.HaltsKept e (s.halts.insert hid halt) := by
  intro hid' hin _
  exact AList.lookup_insert_ne fun heq => hfree (heq ▸ hin)

omit [Inhabited σ] in
theorem haltsKept_of_next {hid now : Nat} {acquired : Bool}
    {halts : AList (fun _ : Nat => PendingHalt)}
    (h : ∀ hid', hid' ≠ hid → halts.lookup hid' = s.halts.lookup hid') :
    s.HaltsKept (.haltNext hid now acquired) halts :=
  fun hid' _ hother => h hid' fun heq => hother now acquired (by rw [heq])

theorem change_self (cfg : Config) (s : AppState σ) (e : Event σ) : Change cfg s e s :=
  .went s.calls s.halts (haltsKept_self s e) rfl

/-- A step of a call in progress, by what it does in the phase for it. -/
theorem advance_change (cfg : Config) {id : Nat} {f : PendingCall → Option (AppState σ)}
    (h : ∀ call t, s.calls.lookup id = some call → f call = some t → Change cfg s e t) :
    Change cfg s e (s.advance id f) := by
  rcases advance_cases s id f with heq | ⟨call, hcall, hf⟩
  · rw [heq]
    exact change_self cfg s e
  · exact h call _ hcall hf

theorem haltStep_change (cfg : Config) {hid now : Nat} {acquired : Bool} {halt : PendingHalt}
    (hhalt : s.halts.lookup hid = some halt) :
    Change cfg s (.haltNext hid now acquired) (s.haltStep hid now acquired halt) := by
  have herased : s.HaltsKept (.haltNext hid now acquired) (s.halts.erase hid) :=
    haltsKept_of_next fun _ hne => AList.lookup_erase_ne hne
  have hmoved (next : PendingHalt) :
      s.HaltsKept (.haltNext hid now acquired) (s.halts.insert hid next) :=
    haltsKept_of_next fun _ hne => AList.lookup_insert_ne hne
  cases halt with
  | force agentId reason =>
    rw [haltStep]
    split
    · exact .halted hid now acquired _ agentId reason rfl hhalt rfl _ herased rfl
    · exact change_self cfg s _
  | all remaining reason halted =>
    cases remaining with
    | nil => exact .observed (.haltedAll halted) (.inr ⟨halted, rfl⟩) _ herased rfl
    | cons agentId rest =>
      rw [haltStep]
      split
      · exact .halted hid now acquired _ agentId reason rfl hhalt rfl _ (hmoved _) rfl
      · exact .went s.calls _ (hmoved _) rfl

/-- **What a step does.** -/
theorem exec_change (cfg : Config) (digest : List UInt8 → String) (s : AppState σ) (e : Event σ) :
    Change cfg s e (s.exec cfg digest e) := by
  cases e with
  | validate id req stamp unregistered mcp =>
    rw [exec]
    split
    · exact change_self cfg s _
    · split
      · next resp _ =>
        exact .observed (.rejected req.agentId resp) (.inl ⟨_, _, rfl⟩) s.halts
          (haltsKept_self s _) rfl
      · exact .went _ s.halts (haltsKept_self s _) rfl
  | key id =>
    refine advance_change cfg fun call t _ hf => ?_
    split at hf
    · cases hf
      exact .went _ s.halts (haltsKept_self s _) rfl
    · simp at hf
  | lookup id now remote =>
    refine advance_change cfg fun call t hcall hf => ?_
    split at hf
    · next key hphase =>
      cases hf
      exact .asked id now remote call key rfl hcall hphase _ rfl
    · simp at hf
  | enter id =>
    refine advance_change cfg fun call t _ hf => ?_
    split at hf
    · cases hf
      exact .ensured call.req.agentId _ s.halts (haltsKept_self s _) rfl
    · simp at hf
  | decide id clk v =>
    refine advance_change cfg fun call t hcall hf => ?_
    split at hf
    · next key cached hphase =>
      cases hf
      exact .decided id ⟨call, key, cached, clk, v⟩ (by simp [turn, hcall, hphase]) rfl
    · simp at hf
  | forceHalt hid agentId reason =>
    rw [exec]
    split
    · exact change_self cfg s _
    · next hfree => exact .ensured agentId s.calls _ (haltsKept_of_free hfree _) rfl
  | emergencyHalt hid reason =>
    rw [exec]
    split
    · exact change_self cfg s _
    · next hfree => exact .went s.calls _ (haltsKept_of_free hfree _) rfl
  | haltNext hid now acquired =>
    rw [exec]
    split
    · next halt hhalt => exact haltStep_change cfg hhalt
    · exact change_self cfg s _
  | status agentId clk => exact .status agentId clk rfl rfl
  | retrain agentId signals applied =>
    rw [exec]
    split
    · next a ha =>
      have hagent : s.agent agentId = a := by rw [agent, ha, getD_some]
      subst hagent
      split
      · exact .retrained agentId signals _ (.inr rfl) rfl
      · exact .retrained agentId signals _ (.inl rfl) rfl
    · exact change_self cfg s _

end AppState

end Haltchain.Validator

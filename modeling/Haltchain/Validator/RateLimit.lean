import Haltchain.Lib.Window
import Haltchain.Validator.KillSwitch
import Haltchain.Validator.Mediation

/-! # The rate limit

The actions recorded in the window of an agent are counted by the check. Two ALLOWs are not
recorded: the one from the cache, and the one that leaves the scan for later.

The window is that of `Lib.Window`. Other sections drop from it only what no longer counts
(`Keeps`). -/

namespace Haltchain.Validator

open Lib Function List

variable {σ : Type}

/-! ## What a section keeps of the window -/

/-- All of `ts` that still counts after the section is in the window. -/
def Keeps (clk : Readings) (ts : List Nat) (a : AgentState σ) : Prop :=
  (recent minute id clk.closed ts).Sublist a.actionTimestamps

section

variable {clk : Readings} {ts : List Nat} {a : AgentState σ}

theorem Keeps.counted (h : Keeps clk ts a) {now : Nat} (hle : now ≤ clk.closed) :
    Keeps clk ts (a.currentActionCount now).2 := by
  have hsub : (recent minute id now (recent minute id clk.closed ts)).Sublist
      (recent minute id now a.actionTimestamps) := recent_sublist h now
  rwa [recent_of_le hle] at hsub

theorem Keeps.recorded (h : Keeps clk ts a) (now : Nat) : Keeps clk ts (a.recordAction now) :=
  h.trans (sublist_append_left _ _)

theorem Keeps.finish (h : Keeps clk ts a) (cache : CacheEffect)
    (response : Nat → ValidationResponse) : Keeps clk ts (finish clk a cache response).agent :=
  h.counted le_rfl

theorem exits_keeps (clk : Readings) (ts : List Nat) :
    Exits clk (fun a : AgentState σ => Keeps clk ts a) fun o => Keeps clk ts o.agent where
  counted h hle := h.counted hle
  recorded h := h.recorded _
  stop h _ := h.finish _ _
  trip h _ _ _ _ _ := h
  ruleTrip h _ _ _ := h.counted (Nat.le_refl clk.closed)
  allow h _ _ _ _ := (h.recorded clk.recorded).counted (Nat.le_refl clk.closed)

variable (cfg : Config) (stamp : Stamp) (req : ValidationRequest) (v : Verdicts σ)

theorem circuitBreakActive_actionTimestamps (a : AgentState σ) (now : Nat) :
    (a.circuitBreakActive now).2.actionTimestamps = a.actionTimestamps := by
  unfold AgentState.circuitBreakActive
  split
  · split <;> rfl
  · rfl

theorem keeps_looked (clk : Readings) (a : AgentState σ) :
    Keeps clk a.actionTimestamps (a.circuitBreakActive clk.entered).2 := by
  unfold Keeps
  rw [circuitBreakActive_actionTimestamps]
  exact filter_sublist

theorem keeps_mainSection (clk : Readings) (a : AgentState σ) :
    Keeps clk a.actionTimestamps (mainSection cfg stamp clk req v a).agent := by
  have hlooked := keeps_looked clk a
  unfold mainSection
  split
  · next heq =>
    rw [heq] at hlooked
    exact hlooked.finish _ _
  · next heq =>
    rw [heq] at hlooked
    split
    · exact (exits_keeps clk _).rule (by exact hlooked) cfg stamp req v _
    · exact (exits_keeps clk _).rule hlooked cfg stamp req v _

theorem keeps_cachedSection (clk : Readings) (cached : Cache.CachedDecision) (a : AgentState σ) :
    Keeps clk a.actionTimestamps (cachedSection stamp clk cached a).agent := by
  have hlooked := keeps_looked clk a
  unfold cachedSection
  split
  · next heq =>
    rw [heq] at hlooked
    exact hlooked.finish _ _
  · next heq =>
    rw [heq] at hlooked
    exact hlooked.finish _ _

/-- **No section drops an action that still counts.** -/
theorem keeps_decision (call : PendingCall) (cached : Option Cache.CachedDecision) (clk : Readings)
    (a : AgentState σ) :
    Keeps clk a.actionTimestamps (AppState.decision cfg call cached clk v a).agent := by
  unfold AppState.decision
  split
  · split
    · exact keeps_cachedSection call.stamp clk _ a
    · exact keeps_mainSection cfg call.stamp call.req v clk a
  · exact keeps_mainSection cfg call.stamp call.req v clk a

end

namespace AppState

variable [Inhabited σ] {s s' : AppState σ}

/-! ## What a step keeps of the window -/

/-- The agent's clock goes forward, and what still counts is kept. -/
def Retains (s s' : AppState σ) (x : String) : Prop :=
  s.clock x ≤ s'.clock x ∧
    (recent minute id (s'.clock x) (s.agent x).actionTimestamps).Sublist
      (s'.agent x).actionTimestamps

variable {x : String}

theorem retains_of_eq (hagent : (s'.agent x).actionTimestamps = (s.agent x).actionTimestamps)
    (hclock : s.clock x ≤ s'.clock x) : Retains s s' x :=
  ⟨hclock, by rw [hagent]; exact filter_sublist⟩

theorem retains_of_agents (hagents : s'.agents = s.agents) (hclock : s'.clock = s.clock)
    (x : String) : Retains s s' x :=
  retains_of_eq (by rw [agent, agent, hagents]) (by rw [hclock])

variable {agentId : String}

theorem retains_of_insert {a : AgentState σ} (hagents : s'.agents = s.agents.insert agentId a)
    (ha : a.actionTimestamps = (s.agent agentId).actionTimestamps)
    (hclock : ∀ x, s.clock x ≤ s'.clock x) (x : String) : Retains s s' x := by
  refine retains_of_eq ?_ (hclock x)
  rw [agent_of_insert hagents]
  split
  · next hx => rw [ha, hx]
  · rfl

omit [Inhabited σ] in
theorem le_update {now : Nat} (hle : s.clock agentId ≤ now) (x : String) :
    s.clock x ≤ update s.clock agentId now x := by
  rcases eq_or_ne x agentId with rfl | hx
  · rwa [update_self]
  · rw [update_of_ne hx]

theorem retains_of_other {a : AgentState σ} {now : Nat} (hx : x ≠ agentId)
    (hagents : s'.agents = s.agents.insert agentId a)
    (hclock : s'.clock = update s.clock agentId now) : Retains s s' x := by
  refine retains_of_eq ?_ ?_
  · rw [agent_of_insert hagents, if_neg hx]
  · rw [hclock, update_of_ne hx]

/-- A section of the agent. -/
theorem retains_of_section {a : AgentState σ} {clk : Readings} (hle : s.clock agentId ≤ clk.entered)
    (hkeeps : Keeps clk (s.agent agentId).actionTimestamps a)
    (hagents : s'.agents = s.agents.insert agentId a)
    (hclock : s'.clock = update s.clock agentId clk.closed) : Retains s s' agentId := by
  unfold Retains
  rw [hclock, update_self, agent_of_insert hagents, if_pos rfl]
  exact ⟨le_trans hle clk.entered_le_closed, hkeeps⟩

/-- **No step drops an action that still counts.** -/
theorem exec_retains (cfg : Config) (digest : List UInt8 → String) {e : Event σ}
    (ht : s.Timely e) (x : String) : Retains s (s.exec cfg digest e) x := by
  cases exec_change cfg digest s e with
  | went calls halts _ h | observed o _ halts _ h | asked id now remote call key _ _ _ calls h =>
    rw [h]
    exact retains_of_agents rfl rfl x
  | ensured agentId calls halts _ h | retrained agentId signals cache _ h =>
    rw [h]
    exact retains_of_insert rfl (by rfl) (by exact fun _ => le_rfl) x
  | decided id t hturn h =>
    rw [h]
    rcases eq_or_ne x t.call.req.agentId with rfl | hx
    · exact retains_of_section (ht.turn hturn)
        (keeps_decision cfg t.v t.call t.cached t.clk (s.agent t.call.req.agentId)) rfl rfl
    · exact retains_of_other hx rfl rfl
  | halted hid now acquired halt agentId reason he hhalt hnext halts _ h =>
    subst he
    rw [h]
    exact retains_of_insert rfl (by rfl) (le_update (ht halt hhalt agentId hnext)) x
  | status agentId clk he h =>
    subst he
    rw [h]
    rcases eq_or_ne x agentId with rfl | hx
    · exact retains_of_section ht ((keeps_looked clk _).counted le_rfl) rfl rfl
    · exact retains_of_other hx rfl rfl

/-! ## The limit -/

/-- When a request of the agent is allowed, if at all: when the section would record it. -/
def allowedAt (cfg : Config) (x : String) (s : AppState σ) (e : Event σ) : Option Nat :=
  (s.turn e).bind fun t =>
    if t.call.req.agentId = x ∧ (t.outcome cfg s).response.decision = .allow then
      some t.clk.recorded
    else none

/-- When the requests of the agent were allowed. -/
def allowTimes (cfg : Config) (digest : List UInt8 → String) (x : String) (es : List (Event σ)) :
    List Nat :=
  outputs (exec cfg digest) (allowedAt cfg x) new es

/-- The agent's limit is `limit` whenever it is looked up. -/
def LimitedTo (x : String) (limit : Nat) (s : AppState σ) (e : Event σ) : Prop :=
  ∀ t ∈ s.turn e, t.call.req.agentId = x → effectiveRateLimit t.v = limit
deriving Decidable

/-- The step does not allow a request from the cache or with a deferred scan. -/
def Recording (x : String) (s : AppState σ) (e : Event σ) : Prop :=
  ∀ t ∈ s.turn e, t.call.req.agentId = x →
    (t.FromCache → ((s.agent x).circuitBreakActive t.clk.entered).1 ≠ none) ∧
    (¬ t.FromCache → Screened t.clk t.v (s.agent x) → ¬ ∃ taskId, t.v.scan = .deferred taskId)
deriving Decidable

/-- The window has what still counts of `times`, within the limit. -/
structure Limiting (x : String) (limit : Nat) (s : AppState σ) (times : List Nat) : Prop where
  kept : (recent minute id (s.clock x) times).Sublist (s.agent x).actionTimestamps
  bound : ∀ t, (within minute id t times).length ≤ limit

section

variable {limit : Nat} {times : List Nat} (h : Limiting x limit s times)

include h

theorem Limiting.of_retains (hr : Retains s s' x) : Limiting x limit s' times where
  kept := (recent_sublist_of_le hr.1 h.kept).trans hr.2
  bound := h.bound

/-- An ALLOW at the end of the chain. -/
theorem Limiting.of_allowed {clk : Readings} (hle : s.clock x ≤ clk.entered)
    (hrate : ((s.agent x).currentActionCount clk.limited).1 < limit)
    (hclock : s'.clock x = clk.closed)
    (hagent : (s'.agent x).actionTimestamps = recent minute id clk.closed (recent minute id
      clk.limited (s.agent x).actionTimestamps ++ [clk.recorded])) :
    Limiting x limit s' (times ++ [clk.recorded]) := by
  have hlimited : s.clock x ≤ clk.limited :=
    le_trans hle (le_trans clk.entered_le clk.ruled_le)
  -- the check counted at least the ALLOWs that still count
  have hcounted : (recent minute id clk.limited times).Sublist
      (recent minute id clk.limited (s.agent x).actionTimestamps) :=
    recent_sublist_of_le hlimited h.kept
  constructor
  · have hclosed : clk.limited ≤ clk.closed := le_trans clk.limited_le clk.recorded_le
    rw [hclock, hagent, recent_append, recent_append]
    exact (recent_sublist_of_le hclosed hcounted).append (.refl _)
  · refine within_concat_le h.bound clk.limited_le ?_
    exact lt_of_le_of_lt hcounted.length_le hrate

theorem Limiting.exec (cfg : Config) (digest : List UInt8 → String) {e : Event σ}
    (ht : s.Timely e) (hlimit : LimitedTo x limit s e) (hrec : Recording x s e) :
    Limiting x limit (s.exec cfg digest e) (times ++ (allowedAt cfg x s e).toList) := by
  cases hat : allowedAt cfg x s e with
  | none =>
    rw [Option.toList_none, append_nil]
    exact h.of_retains (exec_retains cfg digest ht x)
  | some r =>
    obtain ⟨t, hturn, hif⟩ := Option.bind_eq_some_iff.1 hat
    split at hif
    · next hcond =>
      obtain ⟨rfl, hallow⟩ := hcond
      cases hif
      obtain ⟨hcache, hscan⟩ := hrec t hturn rfl
      rcases Turn.allow_cases cfg hallow with ⟨hfrom, hopen⟩ | ⟨hmiss, hs, id, hid⟩ |
        ⟨-, -, -, hpassed, ho⟩
      -- the two exits that do not record
      · exact absurd hopen (hcache hfrom)
      · exact absurd ⟨id, hid⟩ (hscan hmiss hs)
      · obtain ⟨id, hexec⟩ := exec_of_turn cfg digest hturn
        refine h.of_allowed (ht.turn hturn) ?_ ?_ ?_
        · rw [← hlimit t hturn rfl]
          exact hpassed.rate
        · rw [hexec]
          exact update_self ..
        · rw [hexec, agent_of_insert rfl, if_pos rfl]
          exact congrArg (fun o : Outcome σ => o.agent.actionTimestamps) ho
    · simp at hif

end

/-- **The rate limit.** In every run whose sections read the clock in order for each agent: an agent
whose limit stays the same, and none of whose requests is allowed from the cache or with a deferred
scan, gets no more ALLOWs than that in any minute. -/
theorem rate_limit_of_recording (cfg : Config) (digest : List UInt8 → String) (x : String)
    (limit : Nat) (es : List (Event σ)) (ht : Throughout (exec cfg digest) Timely new es)
    (hlimit : Throughout (exec cfg digest) (LimitedTo x limit) new es)
    (hrec : Throughout (exec cfg digest) (Recording x) new es) (t : Nat) :
    (within minute id t (allowTimes cfg digest x es)).length ≤ limit := by
  suffices h : Limiting x limit (run (exec cfg digest) new es) (allowTimes cfg digest x es) from
    h.bound t
  refine Throughout.induction (P := fun es => Limiting x limit (run (exec cfg digest) new es)
    (allowTimes cfg digest x es)) ⟨?_, ?_⟩ ?_ ((ht.and hlimit).and hrec)
  · exact nil_sublist _
  · exact fun _ => Nat.zero_le _
  · rintro es e - hes ⟨⟨het, hel⟩, her⟩
    rw [run_concat]
    unfold allowTimes
    rw [outputs_concat]
    exact hes.exec cfg digest het hel her

/-- One call from start to return, without a remote cache. -/
def wholeCall (id : Nat) (req : ValidationRequest) (n : Nat) (v : Verdicts σ) : List (Event σ) :=
  [.validate id req ⟨"tx", "noon"⟩ none .notAsked, .key id, .lookup id (secs n) none, .enter id,
   .decide id (atSecond n) v]

/-- A read, over and over in the same second. -/
def repeatedRead (times : Nat) : List (Event Unit) :=
  (range times).flatMap fun id =>
    wholeCall id ⟨"bot", "read", none, none, .systemGenerated⟩ 100 noObjection

/-- The digest of a key that is the key itself. -/
def plainDigest (bytes : List UInt8) : String := String.ofList (bytes.map fun b => .ofNat b.toNat)

/-- The first read is recorded and cached; the cache lets others through beyond the limit of ten. -/
theorem cached_reads_exceed_limit :
    Throughout (exec ⟨1, 1⟩ plainDigest) Timely new (repeatedRead 11) ∧
      Throughout (exec ⟨1, 1⟩ plainDigest) (LimitedTo "bot" 10) new (repeatedRead 11) ∧
      (within minute id (secs 100)
        (allowTimes ⟨1, 1⟩ plainDigest "bot" (repeatedRead 11))).length = 11 := by
  decide +kernel

/-- Payments are not cached. Of eleven in a row, at a limit of two, two are allowed. -/
def repeatedPayment : List (Event Unit) :=
  (range 11).flatMap fun id =>
    wholeCall id ⟨"bot", "pay", some 5, none, .systemGenerated⟩ 100
      { noObjection with thresholds := ⟨some 2, none, none⟩ }

theorem repeated_payments_limited :
    (within minute id (secs 100) (allowTimes ⟨1, 1⟩ plainDigest "bot" repeatedPayment)).length = 2 ∧
      ∀ t, (within minute id t (allowTimes ⟨1, 1⟩ plainDigest "bot" repeatedPayment)).length ≤ 2 :=
  ⟨by decide +kernel, rate_limit_of_recording ⟨1, 1⟩ plainDigest "bot" 2 repeatedPayment
    (by decide +kernel) (by decide +kernel) (by decide +kernel)⟩

end AppState

end Haltchain.Validator

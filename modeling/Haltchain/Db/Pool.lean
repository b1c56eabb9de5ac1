import Haltchain.Lib.Run
import Mathlib.Data.Fintype.Basic

/-! # Tenants on pooled connections

Row level security reads the tenant from `app.current_org_id`, which a connection keeps when it goes
back to the pool. `with_tenant_context` sets it on one connection, gives that back, runs its future,
and resets the setting on one it acquires then. `search_audit_decisions_scoped` keeps its
connection, but resets it only if the search succeeds.

Connections given out, failures and replacements are left to the steps of a run. -/

namespace Haltchain.Db

open Lib Function Option

/-! ## The pool -/

/-- The two kinds of calls. -/
inductive CallKind where
  | withTenantContext
  | searchAuditDecisionsScoped

/-- Where a call is. The connection it has set is noted, though `with_tenant_context` forgets it. -/
inductive Phase (κ : Type) where
  | start
  /-- The tenant is to be set on the connection. -/
  | opened (k : κ)
  /-- The future runs. -/
  | inside (set : κ)
  /-- The future is done, and a connection is to be acquired. -/
  | closing (set : κ)
  | searching (k : κ)
  /-- The tenant is to be reset on the connection. -/
  | resetting (set k : κ)
  | returned
deriving DecidableEq

namespace Phase

variable {κ : Type}

/-- The connection that the call has set, until it returns. -/
def own : Phase κ → Option κ
  | .inside set | .closing set | .resetting set _ => some set
  | .searching k => some k
  | _ => none

/-- The connection the call has to do with, if all goes well. -/
def conn : Phase κ → Option κ
  | .opened k => some k
  | p => p.own

end Phase

/-- Each connection has its tenant, with the call that set it, and is idle or held. Queries are
recorded with the tenant they ran under. -/
structure Pool (ι κ ω : Type) where
  setting : κ → Option (ω × ι)
  holder : κ → Option ι
  phase : ι → Phase κ
  ran : ι → List (Option ω)

inductive PoolStep (ι κ : Type) where
  /-- The call, or the future of the call, acquires the connection. -/
  | acquire (i : ι) (k : κ)
  /-- It gets none in time. -/
  | acquireFails (i : ι)
  /-- The next query of the call itself succeeds or fails. -/
  | answer (i : ι) (ok : Bool)
  /-- The call's future runs a query on a connection it holds. -/
  | query (i : ι) (k : κ)
  | release (i : ι) (k : κ)
  /-- The future is done. -/
  | finish (i : ι)
  /-- An idle connection is closed and another one opened. -/
  | replace (k : κ)

namespace Pool

variable {ι κ ω : Type} [DecidableEq ι] [DecidableEq κ] (kind : ι → CallKind) (org : ι → ω)

/-- Before all calls. -/
def start : Pool ι κ ω := ⟨fun _ => none, fun _ => none, fun _ => .start, fun _ => []⟩

def moveTo (s : Pool ι κ ω) (i : ι) (p : Phase κ) : Pool ι κ ω :=
  { s with phase := update s.phase i p }

def setHolder (s : Pool ι κ ω) (k : κ) (i : Option ι) : Pool ι κ ω :=
  { s with holder := update s.holder k i }

/-- `set_config('app.current_org_id', ..)`, or `reset_tenant_context()`. -/
def setTenant (s : Pool ι κ ω) (k : κ) (p : Option (ω × ι)) : Pool ι κ ω :=
  { s with setting := update s.setting k p }

def record (s : Pool ι κ ω) (i : ι) (k : κ) : Pool ι κ ω :=
  { s with ran := update s.ran i (s.ran i ++ [(s.setting k).map Prod.fst]) }

/-- The call returns, and its connection goes back to the pool. -/
def returns (s : Pool ι κ ω) (i : ι) (k : κ) : Pool ι κ ω :=
  (s.setHolder k none).moveTo i .returned

/-- A connection is acquired. -/
def acquire (s : Pool ι κ ω) (i : ι) (k : κ) : Pool ι κ ω :=
  match s.phase i with
  | .start => (s.setHolder k (some i)).moveTo i (.opened k)
  | .inside _ => s.setHolder k (some i)
  | .closing set => (s.setHolder k (some i)).moveTo i (.resetting set k)
  | _ => s

/-- The next query of a call itself. -/
def answer (s : Pool ι κ ω) (i : ι) (ok : Bool) : Pool ι κ ω :=
  match s.phase i with
  | .opened k =>
    if ok then
      let s := s.setTenant k (some (org i, i))
      match kind i with
      | .withTenantContext => (s.setHolder k none).moveTo i (.inside k)
      | .searchAuditDecisionsScoped => s.moveTo i (.searching k)
    else s.returns i k
  | .searching k =>
    let s := s.record i k
    if ok then s.moveTo i (.resetting k k) else s.returns i k
  | .resetting _ k => (if ok then s.setTenant k none else s).returns i k
  | _ => s

/-- One step. -/
def exec [Fintype κ] (s : Pool ι κ ω) : PoolStep ι κ → Pool ι κ ω
  | .acquire i k => if s.holder k = none then s.acquire i k else s
  | .acquireFails i =>
    match s.phase i with
    | .start | .closing _ => s.moveTo i .returned
    | _ => s
  | .answer i ok => s.answer kind org i ok
  | .query i k =>
    match s.phase i with
    | .inside _ => if s.holder k = some i then s.record i k else s
    | _ => s
  | .release i k =>
    match s.phase i with
    | .inside _ => if s.holder k = some i then s.setHolder k none else s
    | _ => s
  | .finish i =>
    match s.phase i with
    | .inside set => if ∀ k, s.holder k ≠ some i then s.moveTo i (.closing set) else s
    | _ => s
  | .replace k => if s.holder k = none then s.setTenant k none else s

/-! ## Isolation -/

/-- Queries ran under their call's tenant, and no connection was left with that of a returned
call. -/
def Isolated (s : Pool ι κ ω) : Prop :=
  (∀ i, ∀ tenant ∈ s.ran i, tenant = some (org i)) ∧
    ∀ i, s.phase i = .returned → ∀ k, ∀ p ∈ s.setting k, p.2 ≠ i

/-- A call that has set the connection has not returned. -/
def Reserved (s : Pool ι κ ω) (k : κ) : Prop := ∃ i, (s.phase i).own = some k

instance [Fintype ι] (s : Pool ι κ ω) (k : κ) : Decidable (s.Reserved k) :=
  inferInstanceAs (Decidable (∃ i, (s.phase i).own = some k))

/-- No other call gets a reserved connection, a call of `with_tenant_context` gets the one it has
set, at last too, and searches and resets do not fail. -/
def Undisturbed (s : Pool ι κ ω) : PoolStep ι κ → Prop
  | .acquire i k =>
    (s.phase i = .start → ¬ s.Reserved k) ∧
      ∀ set, s.phase i = .inside set ∨ s.phase i = .closing set → set = k
  | .acquireFails i => ∀ set, s.phase i ≠ .closing set
  | .answer i ok => ok = true ∨ (s.phase i).own = none
  | .replace k => ¬ s.Reserved k
  | _ => True

instance [Fintype ι] [Fintype κ] (s : Pool ι κ ω) (step : PoolStep ι κ) :
    Decidable (s.Undisturbed step) := by
  unfold Undisturbed
  split <;> infer_instance

/-- The state of a connection, by the phase of its call. -/
def Legal (i : ι) (k : κ) : Phase κ → Option (ω × ι) → Option ι → Prop
  | .opened _, setting, holder => setting = none ∧ holder = some i
  | .inside _, setting, holder => setting = some (org i, i) ∧ (holder = none ∨ holder = some i)
  | .closing _, setting, holder => setting = some (org i, i) ∧ holder = none
  | .searching _, setting, holder => setting = some (org i, i) ∧ holder = some i
  | .resetting _ k', setting, holder => k' = k ∧ setting = some (org i, i) ∧ holder = some i
  | _, setting, holder => setting = none ∧ holder = none

/-- A connection is free, or one call has to do with it. -/
structure Sound (s : Pool ι κ ω) : Prop where
  alone : ∀ i j k, (s.phase i).conn = some k → (s.phase j).conn = some k → i = j
  legal : ∀ i k, (s.phase i).conn = some k →
    Legal org i k (s.phase i) (s.setting k) (s.holder k)
  free : ∀ k, (∀ i, (s.phase i).conn ≠ some k) → s.setting k = none ∧ s.holder k = none
  ran : ∀ i, ∀ tenant ∈ s.ran i, tenant = some (org i)

omit [DecidableEq ι] [DecidableEq κ] in
theorem sound_start : Sound org (start : Pool ι κ ω) := by
  constructor <;> simp [start, Phase.conn, Phase.own]

variable {kind org} {s s' : Pool ι κ ω} {i : ι} {k : κ} {p : Phase κ}

omit [DecidableEq ι] [DecidableEq κ] in
theorem Legal.of_conn_eq_none {setting : Option (ω × ι)} {holder : Option ι}
    (h : Legal org i k p setting holder) (hp : p.conn = none) : setting = none ∧ holder = none := by
  cases p with
  | start | returned => exact h
  | _ => cases hp

/-- **One call goes on** with a connection that no other call has to do with. -/
theorem Sound.change (h : Sound org s) (p : Phase κ) (setting : Option (ω × ι)) (holder : Option ι)
    (hothers : ∀ j ≠ i, (s.phase j).conn ≠ some k)
    (hbefore : (s.phase i).conn = none ∨ (s.phase i).conn = some k)
    (hafter : p.conn = none ∨ p.conn = some k) (hlegal : Legal org i k p setting holder)
    (hsetting : s'.setting = update s.setting k setting)
    (hholder : s'.holder = update s.holder k holder)
    (hphase : s'.phase = update s.phase i p) (hran : s'.ran = s.ran) : Sound org s' := by
  have hself : s'.phase i = p := by rw [hphase, update_self]
  have hphase' : ∀ j ≠ i, s'.phase j = s.phase j := fun j hj => by
    rw [hphase, update_of_ne hj]
  have hother : ∀ k' ≠ k, s'.setting k' = s.setting k' ∧ s'.holder k' = s.holder k' := by
    intro k' hk'
    rw [hsetting, hholder, update_of_ne hk', update_of_ne hk']
    exact ⟨rfl, rfl⟩
  -- only `i` has to do with `k` afterwards, and with nothing else
  have hi : ∀ k', (s'.phase i).conn = some k' → k' = k := by
    intro k' hk'
    rw [hself] at hk'
    rcases hafter with hnone | hsome
    · rw [hnone] at hk'
      cases hk'
    · exact some.inj (hk'.symm.trans hsome)
  have hj : ∀ j ≠ i, ∀ k', (s'.phase j).conn = some k' → k' ≠ k := by
    rintro j hne k' hk' rfl
    rw [hphase' j hne] at hk'
    exact hothers j hne hk'
  refine ⟨?_, ?_, ?_, ?_⟩
  · intro j j' k' hjk hjk'
    rcases eq_or_ne j i with rfl | hne
    · rcases eq_or_ne j' j with rfl | hne'
      · rfl
      · exact absurd (hi k' hjk) (hj j' hne' k' hjk')
    · rcases eq_or_ne j' i with rfl | hne'
      · exact absurd (hi k' hjk') (hj j hne k' hjk)
      · rw [hphase' j hne] at hjk
        rw [hphase' j' hne'] at hjk'
        exact h.alone j j' k' hjk hjk'
  · intro j k' hjk
    rcases eq_or_ne j i with rfl | hne
    · obtain rfl := hi k' hjk
      rw [hself, hsetting, hholder, update_self, update_self]
      exact hlegal
    · obtain ⟨hs, hh⟩ := hother k' (hj j hne k' hjk)
      rw [hphase' j hne] at hjk ⊢
      rw [hs, hh]
      exact h.legal j k' hjk
  · intro k' hk'
    rcases eq_or_ne k' k with rfl | hne
    · rw [hsetting, hholder, update_self, update_self]
      refine hlegal.of_conn_eq_none (hafter.resolve_right ?_)
      rw [← hself]
      exact hk' i
    obtain ⟨hs, hh⟩ := hother k' hne
    rw [hs, hh]
    refine h.free k' fun j => ?_
    rcases eq_or_ne j i with rfl | hji
    · rcases hbefore with hnone | hsome
      · rw [hnone]
        exact nofun
      · rw [hsome]
        exact fun heq => hne (some.inj heq).symm
    · rw [← hphase' j hji]
      exact hk' j
  · rw [hran]
    exact h.ran

omit [DecidableEq ι] [DecidableEq κ] in
theorem Sound.conn_of_holder (h : Sound org s) (hholder : s.holder k = some i) :
    (s.phase i).conn = some k := by
  have hsome : ∃ j, (s.phase j).conn = some k := by
    by_contra hnone
    have hfree := (h.free k fun j hj => hnone ⟨j, hj⟩).2
    rw [hholder] at hfree
    cases hfree
  obtain ⟨j, hj⟩ := hsome
  have hlegal := h.legal j k hj
  suffices hij : i = j by
    rw [hij]
    exact hj
  cases hphase : s.phase j <;> simp_all [Legal, Phase.conn, Phase.own]

omit [DecidableEq ι] [DecidableEq κ] in
theorem Sound.free_of_idle (h : Sound org s) (hidle : s.holder k = none) (hres : ¬ s.Reserved k)
    (j : ι) : (s.phase j).conn ≠ some k := by
  intro hj
  have hlegal := h.legal j k hj
  cases hphase : s.phase j with
  | opened k' => simp_all [Legal]
  | _ =>
    rw [hphase] at hj
    exact hres ⟨j, by rw [hphase]; exact hj⟩

omit [DecidableEq ι] [DecidableEq κ] in
theorem Sound.legal_of_phase (h : Sound org s) (hphase : s.phase i = p) (hp : p.conn = some k) :
    Legal org i k p (s.setting k) (s.holder k) := by
  subst hphase
  exact h.legal i k hp

/-- A call goes on with its connection. -/
theorem Sound.goOn (h : Sound org s) (hphase : s.phase i = p) (hp : p.conn = some k)
    (p' : Phase κ) (setting : Option (ω × ι)) (holder : Option ι)
    (hafter : p'.conn = none ∨ p'.conn = some k) (hlegal : Legal org i k p' setting holder)
    (hsetting : s'.setting = update s.setting k setting)
    (hholder : s'.holder = update s.holder k holder)
    (hphase' : s'.phase = update s.phase i p') (hran : s'.ran = s.ran) : Sound org s' := by
  subst hphase
  exact h.change p' setting holder (fun j hj hjk => hj (h.alone j i k hjk hp)) (.inr hp) hafter
    hlegal hsetting hholder hphase' hran

/-- A part of the state that stays is one that is updated with what it is. -/
theorem eq_update {α β : Type} [DecidableEq α] {f : α → β} {a : α} {b : β} (h : f a = b) :
    f = update f a b :=
  (update_eq_self_iff.2 h.symm).symm

theorem Sound.acquire (h : Sound org s) (hidle : s.holder k = none)
    (hstep : s.Undisturbed (.acquire i k)) : Sound org (s.acquire i k) := by
  unfold Pool.acquire
  cases hphase : s.phase i with
  | start =>
    have hfree := h.free_of_idle hidle (hstep.1 hphase)
    exact h.change (.opened k) none (some i) (fun j _ => hfree j) (.inl (by rw [hphase]; rfl))
      (.inr rfl) ⟨rfl, rfl⟩ (eq_update (h.free k hfree).1) rfl rfl rfl
  | inside set =>
    obtain rfl : set = k := hstep.2 set (.inl hphase)
    obtain ⟨hsetting, -⟩ := h.legal_of_phase hphase rfl
    exact h.goOn hphase rfl (.inside set) _ (some i) (.inr rfl) ⟨rfl, .inr rfl⟩
      (eq_update hsetting) rfl (eq_update hphase) rfl
  | closing set =>
    obtain rfl : set = k := hstep.2 set (.inr hphase)
    obtain ⟨hsetting, -⟩ := h.legal_of_phase hphase rfl
    exact h.goOn hphase rfl (.resetting set set) _ (some i) (.inr rfl) ⟨rfl, rfl, rfl⟩
      (eq_update hsetting) rfl rfl rfl
  | _ => exact h

omit [DecidableEq κ] in
theorem Sound.record (h : Sound org s) (hsetting : s.setting k = some (org i, i)) :
    Sound org (s.record i k) := by
  refine ⟨h.alone, h.legal, h.free, ?_⟩
  intro j tenant htenant
  simp only [Pool.record, update_apply, hsetting] at htenant
  split at htenant
  · next hji =>
    rcases List.mem_append.1 htenant with hold | hnew
    · exact hji ▸ h.ran i tenant hold
    · exact hji ▸ List.mem_singleton.1 hnew
  · exact h.ran j tenant htenant

omit [DecidableEq κ] in
theorem Sound.returned (h : Sound org s) (hphase : s.phase i = .start) :
    Sound org (s.moveTo i .returned) := by
  have hconn : ∀ j, ((s.moveTo i .returned).phase j).conn = (s.phase j).conn := by
    intro j
    simp only [moveTo, update_apply]
    split
    · next hji => rw [hji, hphase]; rfl
    · rfl
  refine ⟨?_, ?_, ?_, h.ran⟩
  · intro j j' k hj hj'
    rw [hconn] at hj hj'
    exact h.alone j j' k hj hj'
  · intro j k hj
    rw [hconn] at hj
    have hsame : (s.moveTo i .returned).phase j = s.phase j := by
      refine update_of_ne ?_ _ _
      rintro rfl
      rw [hphase] at hj
      cases hj
    rw [hsame]
    exact h.legal j k hj
  · intro k hk
    exact h.free k fun j => hconn j ▸ hk j

theorem Sound.answer (h : Sound org s) {ok : Bool} (hstep : s.Undisturbed (.answer i ok)) :
    Sound org (s.answer kind org i ok) := by
  unfold Pool.answer
  cases hphase : s.phase i with
  | opened k =>
    obtain ⟨hsetting, hholder⟩ := h.legal_of_phase hphase rfl
    cases ok with
    | true =>
      cases kind i with
      | withTenantContext =>
        exact h.goOn hphase rfl (.inside k) _ none (.inr rfl) ⟨rfl, .inl rfl⟩ rfl rfl rfl rfl
      | searchAuditDecisionsScoped =>
        exact h.goOn hphase rfl (.searching k) _ (some i) (.inr rfl) ⟨rfl, rfl⟩ rfl
          (eq_update hholder) rfl rfl
    | false =>
      exact h.goOn hphase rfl .returned none none (.inl rfl) ⟨rfl, rfl⟩ (eq_update hsetting) rfl
        rfl rfl
  | searching k =>
    obtain rfl : ok = true := by simpa [Undisturbed, hphase, Phase.own] using hstep
    obtain ⟨hsetting, hholder⟩ := h.legal_of_phase hphase rfl
    exact (h.record hsetting).goOn hphase rfl (.resetting k k) _ _ (.inr rfl) ⟨rfl, rfl, rfl⟩
      (eq_update hsetting) (eq_update hholder) rfl rfl
  | resetting set k =>
    obtain rfl : ok = true := by simpa [Undisturbed, hphase, Phase.own] using hstep
    obtain ⟨rfl, -, -⟩ := h.legal_of_phase hphase rfl
    exact h.goOn hphase rfl .returned none none (.inl rfl) ⟨rfl, rfl⟩ rfl rfl rfl rfl
  | _ => exact h

variable [Fintype κ]

theorem Sound.exec (h : Sound org s) {step : PoolStep ι κ} (hstep : s.Undisturbed step) :
    Sound org (s.exec kind org step) := by
  cases step with
  | acquire i k =>
    simp only [Pool.exec]
    split
    · next hidle => exact h.acquire hidle hstep
    · exact h
  | acquireFails i =>
    simp only [Pool.exec]
    cases hphase : s.phase i with
    | start => exact h.returned hphase
    | closing set => exact absurd hphase (hstep set)
    | _ => exact h
  | answer i ok => exact h.answer hstep
  | query i k =>
    simp only [Pool.exec]
    split
    · split
      · next set hphase hholder =>
        have hconn := h.conn_of_holder hholder
        obtain ⟨hsetting, -⟩ := h.legal_of_phase hphase (hphase ▸ hconn)
        exact h.record hsetting
      · exact h
    · exact h
  | release i k =>
    simp only [Pool.exec]
    split
    · split
      · next set hphase hholder =>
        have hconn := h.conn_of_holder hholder
        obtain ⟨hsetting, -⟩ := h.legal_of_phase hphase (hphase ▸ hconn)
        exact h.goOn hphase (hphase ▸ hconn) (.inside set) _ none (.inr (hphase ▸ hconn))
          ⟨rfl, .inl rfl⟩ (eq_update hsetting) rfl (eq_update hphase) rfl
      · exact h
    · exact h
  | finish i =>
    simp only [Pool.exec]
    split
    · split
      · next set hphase hnone =>
        obtain ⟨hsetting, hholder⟩ := h.legal_of_phase hphase rfl
        have hidle : s.holder set = none := hholder.resolve_right (hnone set)
        exact h.goOn hphase rfl (.closing set) _ none (.inr rfl) ⟨rfl, rfl⟩
          (eq_update hsetting) (eq_update hidle) rfl rfl
      · exact h
    · exact h
  | replace k =>
    simp only [Pool.exec]
    split
    · next hidle =>
      -- the connection is free: it has no tenant to lose
      have hsetting := (h.free k (h.free_of_idle hidle hstep)).1
      have hsame : s.setTenant k none = s := by
        rw [setTenant, ← eq_update hsetting]
      rw [hsame]
      exact h
    · exact h

omit [DecidableEq ι] [DecidableEq κ] [Fintype κ] in
theorem Sound.isolated (h : Sound org s) : Isolated org s := by
  refine ⟨h.ran, ?_⟩
  rintro i hreturned k ⟨tenant, j⟩ hp rfl
  have hset : ∃ i, (s.phase i).conn = some k := by
    by_contra hnone
    have hfree := (h.free k fun i hi => hnone ⟨i, hi⟩).1
    rw [mem_def.1 hp] at hfree
    cases hfree
  obtain ⟨i, hi⟩ := hset
  have hlegal := h.legal i k hi
  cases hphase : s.phase i <;> simp_all [Legal, Phase.conn, Phase.own]

variable (kind org) in
/-- **Tenant isolation**: along every run in which no call is given a connection that another has
set and not yet reset, calls get back the connection they have set, and searches and resets succeed,
all queries run under the tenant of their call, and none is left behind. -/
theorem isolated_of_undisturbed {steps : List (PoolStep ι κ)}
    (h : Throughout (exec kind org) Undisturbed start steps) :
    Isolated org (run (exec kind org) start steps) :=
  (h.invariant (sound_start org) fun _ _ hs hstep => hs.exec hstep).isolated

/-- A call of each function. -/
def bothKinds : Bool → CallKind
  | false => .withTenantContext
  | true => .searchAuditDecisionsScoped

/-- Tenants 1 and 2. -/
def twoOrgs : Bool → Nat
  | false => 1
  | true => 2

/-- One call after the other, on one connection. -/
def oneByOne : List (PoolStep Bool (Fin 1)) :=
  [.acquire false 0, .answer false true, .acquire false 0, .query false 0, .release false 0,
    .finish false, .acquire false 0, .answer false true,
    .acquire true 0, .answer true true, .answer true true, .answer true true]

theorem one_by_one_isolated :
    let s : Pool Bool (Fin 1) Nat := run (exec bothKinds twoOrgs) start oneByOne
    s.ran false = [some 1] ∧ s.ran true = [some 2] ∧ Isolated twoOrgs s :=
  ⟨by decide, by decide, isolated_of_undisturbed bothKinds twoOrgs (by decide +kernel)⟩

/-- The future runs on another connection than the one set, which keeps the tenant. A failed search
leaves its tenant behind. And if that search has the connection another call has set, the future of
that call runs under the wrong tenant. -/
theorem tenants_not_isolated :
    let elsewhere : Pool Bool (Fin 2) Nat := run (exec bothKinds twoOrgs) start
      [.acquire false 0, .answer false true, .acquire false 1, .query false 1, .release false 1,
        .finish false, .acquire false 1, .answer false true]
    let failed : Pool Bool (Fin 2) Nat := run (exec bothKinds twoOrgs) start
      [.acquire true 0, .answer true true, .answer true false]
    let between : Pool Bool (Fin 2) Nat := run (exec bothKinds twoOrgs) start
      [.acquire false 0, .answer false true, .acquire true 0, .answer true true, .answer true false,
        .acquire false 0, .query false 0]
    (elsewhere.ran false = [none] ∧ elsewhere.phase false = .returned ∧
      elsewhere.setting 0 = some (1, false)) ∧
    (failed.phase true = .returned ∧ failed.setting 0 = some (2, true)) ∧
    between.ran false = [some 2] := by
  decide +kernel

end Pool

end Haltchain.Db

import Haltchain.Lib.Interleaving
import Haltchain.Rules.PolicyStore

/-! # Concurrent calls of the policy store

`push` and `promote` take several locks one after the other. A call is a thread here; a step is what
it does under one lock, or one access to the counter. The generation of a snapshot is read after the
policy was stored, and the versions are compared before the policy is promoted, each in a step of
its own. -/

namespace Haltchain.Rules.PolicyStore

open Lib Threads List Option Function

/-- What a call asks for. -/
inductive Request where
  | push (pf : PolicyFile)
  | promote (fromEnv toEnv : PolicyEnvironment)

/-- What a call is about to do. -/
inductive Phase where
  | start (r : Request)
  /-- To promote the policy, checked against what the target had. -/
  | checked (source : PolicyFile) (toEnv : PolicyEnvironment) (seen : Option PolicyFile)
  /-- To write the policy into the handle. -/
  | storing (pf : PolicyFile)
  /-- To raise the generation. -/
  | written (pf : PolicyFile)
  /-- To read the generation. -/
  | raised (pf : PolicyFile)
  /-- To record a snapshot. -/
  | numbered (pf : PolicyFile) (generation : Nat)
  | done (result : Except String Unit)

/-- The store, and the policies in the order they raised the generation, from 0. -/
structure Shared where
  store : PolicyStore
  raised : List PolicyFile

variable {s : Shared} {p : Phase}

section

variable {V : Type} [LinearOrder V] [ToString V] (parse : String → Except String V)

/-- What a call does next. -/
def step (s : Shared) : Phase → Shared × Phase
  | .start (.push pf) =>
    match checkVersion parse pf with
    | .error e => (s, .done (.error e))
    | .ok _ => ({ s with store := s.store.insertEnv .dev pf }, .storing pf)
  | .start (.promote fromEnv toEnv) =>
    match s.store.checkPromotion parse fromEnv toEnv with
    | .error e => (s, .done (.error e))
    | .ok source => (s, .checked source toEnv (s.store.envPolicies toEnv))
  | .checked source toEnv _ =>
    ({ s with store := s.store.insertEnv toEnv source },
      if toEnv = .prod then .storing source else .done (.ok ()))
  | .storing pf =>
    ({ s with store := { s.store with handle := s.store.handle.write pf } }, .written pf)
  | .written pf =>
    (⟨{ s.store with handle := s.store.handle.raise }, s.raised ++ [pf]⟩, .raised pf)
  | .raised pf => (s, .numbered pf s.store.handle.generation)
  | .numbered pf generation =>
    ({ s with store := s.store.record ⟨pf, generation⟩ }, .done (.ok ()))
  | .done result => (s, .done result)

variable {ι : Type*} [DecidableEq ι]

/-- All calls are about to start. -/
def begin (initial : PolicyFile) (maxHistory : Nat) (requests : ι → Request) :
    Threads ι Shared Phase :=
  ⟨⟨.new initial maxHistory, [initial]⟩, fun t => .start (requests t)⟩

/-! ## A call alone

It does what the function does. -/

/-- The steps of a call from here on, one after the other. -/
def finish (s : Shared) (p : Phase) (n : Nat) : Shared × Phase :=
  (fun q : Shared × Phase => step parse q.1 q.2)^[n] (s, p)

theorem finish_push (s : Shared) (pf : PolicyFile) :
    (finish parse s (.start (.push pf)) 5).1.store = (s.store.push parse pf).2 ∧
      (finish parse s (.start (.push pf)) 5).2 = .done (s.store.push parse pf).1 := by
  have hstep : finish parse s (.start (.push pf)) 5 =
      finish parse (step parse s (.start (.push pf))).1
        (step parse s (.start (.push pf))).2 4 := rfl
  rw [hstep, step, push]
  cases hcheck : checkVersion parse pf with
  | error e | ok v => exact ⟨rfl, rfl⟩

theorem finish_promote (s : Shared) (fromEnv toEnv : PolicyEnvironment) :
    (finish parse s (.start (.promote fromEnv toEnv)) 6).1.store =
        (s.store.promote parse fromEnv toEnv).2 ∧
      (finish parse s (.start (.promote fromEnv toEnv)) 6).2 =
        .done (s.store.promote parse fromEnv toEnv).1 := by
  have hstep : finish parse s (.start (.promote fromEnv toEnv)) 6 =
      finish parse (step parse s (.start (.promote fromEnv toEnv))).1
        (step parse s (.start (.promote fromEnv toEnv))).2 5 := rfl
  rw [hstep, step, promote]
  cases hcheck : s.store.checkPromotion parse fromEnv toEnv with
  | error e => exact ⟨rfl, rfl⟩
  | ok source =>
    by_cases hprod : toEnv = .prod
    · subst hprod
      exact ⟨rfl, rfl⟩
    have hnext : finish parse s (.checked source toEnv (s.store.envPolicies toEnv)) 5 =
        finish parse { s with store := s.store.insertEnv toEnv source } (.done (.ok ())) 4 := by
      unfold finish
      rw [iterate_succ_apply]
      simp only [step, if_neg hprod]
    rw [hnext, finish, iterate_fixed rfl]
    simp [hprod]

/-- **A call that no other interrupts does what the function does.** -/
theorem uninterrupted_call (c : Threads ι Shared Phase) (t : ι) :
    (∀ pf, c.locals t = .start (.push pf) →
      let c' := run (exec (step parse)) c (replicate 5 t)
      c'.shared.store = (c.shared.store.push parse pf).2 ∧
        c'.locals t = .done (c.shared.store.push parse pf).1) ∧
    ∀ fromEnv toEnv, c.locals t = .start (.promote fromEnv toEnv) →
      let c' := run (exec (step parse)) c (replicate 6 t)
      c'.shared.store = (c.shared.store.promote parse fromEnv toEnv).2 ∧
        c'.locals t = .done (c.shared.store.promote parse fromEnv toEnv).1 := by
  constructor
  · intro pf hstart
    dsimp only
    rw [run_replicate_shared, run_replicate_self, hstart]
    exact finish_push parse c.shared pf
  · intro fromEnv toEnv hstart
    dsimp only
    rw [run_replicate_shared, run_replicate_self, hstart]
    exact finish_promote parse c.shared fromEnv toEnv

/-! ## Generations and policies -/

/-- The store of the policy raised the generation to the number. -/
def Shared.RaisedTo (s : Shared) (generation : Nat) (pf : PolicyFile) : Prop :=
  ∃ k, k % 2 ^ 64 = generation ∧ s.raised[k]? = some pf

/-- The counter was raised once a store, and the snapshots have the right numbers. -/
structure Shared.Numbered (s : Shared) : Prop where
  nonempty : s.raised ≠ []
  generation : s.store.handle.generation = (s.raised.length - 1) % 2 ^ 64
  history : ∀ t ∈ s.store.history, s.RaisedTo t.generation t.policy

/-- What a call knows between its store and its snapshot, if no store comes between. -/
def Phase.Numbered (s : Shared) : Phase → Prop
  | .raised pf => s.raised.getLast? = some pf
  | .numbered pf generation => s.RaisedTo generation pf
  | _ => True

/-- The policy is written. -/
def Phase.isWritten : Phase → Bool
  | .written _ => true
  | _ => false

/-- The generation is raised. -/
def Phase.isRaised : Phase → Bool
  | .raised _ => true
  | _ => false

/-- A call raises the generation only when no other is about to read its own. -/
def Undisturbed (c : Threads ι Shared Phase) (t : ι) : Prop :=
  (c.locals t).isWritten = true → ∀ t', (c.locals t').isRaised = false

instance [Fintype ι] (c : Threads ι Shared Phase) (t : ι) : Decidable (Undisturbed c t) :=
  inferInstanceAs (Decidable (_ → _))

/-- Only raising the generation changes who raised it. -/
theorem step_raised (s : Shared) (p : Phase) : (step parse s p).1.raised = s.raised ∨
      ∃ pf, p = .written pf ∧ (step parse s p).1.raised = s.raised ++ [pf] := by
  unfold step
  split
  · split <;> exact .inl rfl
  · split <;> exact .inl rfl
  · exact .inl rfl
  · exact .inl rfl
  · exact .inr ⟨_, rfl, rfl⟩
  · exact .inl rfl
  · exact .inl rfl
  · exact .inl rfl

theorem Shared.RaisedTo.mono {s' : Shared} {generation : Nat} {pf : PolicyFile}
    (h : s.RaisedTo generation pf) {l : List PolicyFile} (hs : s'.raised = s.raised ++ l) :
    s'.RaisedTo generation pf := by
  obtain ⟨k, hk, hget⟩ := h
  refine ⟨k, hk, ?_⟩
  rw [hs, getElem?_append_left (List.getElem?_eq_some_iff.1 hget).1]
  exact hget

theorem Shared.Numbered.keep {s' : Shared} (h : s.Numbered) (hraised : s'.raised = s.raised)
    (hgen : s'.store.handle.generation = s.store.handle.generation)
    (hhistory : s'.store.history = s.store.history) : s'.Numbered := by
  refine ⟨by rw [hraised]; exact h.nonempty, by rw [hraised, hgen]; exact h.generation, ?_⟩
  rw [hhistory]
  exact fun t ht => (h.history t ht).mono (l := []) (by rw [hraised, append_nil])

theorem step_numbered (h : s.Numbered) (hp : p.Numbered s) :
    (step parse s p).1.Numbered ∧ (step parse s p).2.Numbered (step parse s p).1 := by
  unfold step
  split
  · split
    · exact ⟨h, trivial⟩
    · exact ⟨h.keep rfl rfl rfl, trivial⟩
  · split <;> exact ⟨h, trivial⟩
  · refine ⟨h.keep rfl rfl rfl, ?_⟩
    split <;> trivial
  · exact ⟨h.keep rfl rfl rfl, trivial⟩
  · have hpos := length_pos_iff.2 h.nonempty
    refine ⟨⟨by simp, ?_, fun t ht => (h.history t ht).mono rfl⟩, getLast?_concat⟩
    rw [PolicyHandle.raise, h.generation]
    dsimp only
    rw [length_append, length_singleton]
    omega
  · refine ⟨h, s.raised.length - 1, h.generation.symm, ?_⟩
    rw [← getLast?_eq_getElem?]
    exact hp
  · refine ⟨⟨h.nonempty, h.generation, fun t ht => ?_⟩, trivial⟩
    have hmem := mem_append.1 (mem_of_mem_drop ht)
    rcases hmem with hmem | hmem
    · exact h.history t hmem
    · rw [mem_singleton.1 hmem]
      exact hp
  · exact ⟨h, trivial⟩

theorem Phase.Numbered.of_step {q : Phase} (hq : q.Numbered s)
    (h : p.isWritten = true → q.isRaised = false) : q.Numbered (step parse s p).1 := by
  rcases step_raised parse s p with hsame | ⟨pf, rfl, hraised⟩
  · cases q with
    | raised pf => exact (congrArg getLast? hsame).trans hq
    | numbered pf generation => exact Shared.RaisedTo.mono hq (by rw [hsame, append_nil])
    | _ => trivial
  · cases q with
    | raised pf => exact absurd (h rfl) (by simp [Phase.isRaised])
    | numbered pf generation => exact Shared.RaisedTo.mono hq hraised
    | _ => trivial

theorem numbered_run {initial : PolicyFile} {maxHistory : Nat} {requests : ι → Request}
    {es : List ι}
    (h : Throughout (exec (step parse)) Undisturbed (begin initial maxHistory requests) es) :
    (run (exec (step parse)) (begin initial maxHistory requests) es).shared.Numbered := by
  have hboth := Throughout.invariant (I := fun c : Threads ι Shared Phase =>
    c.shared.Numbered ∧ ∀ t, (c.locals t).Numbered c.shared) ?_ ?_ h
  · exact hboth.1
  · refine ⟨⟨by simp [begin], rfl, fun t ht => ?_⟩, fun t => trivial⟩
    rw [mem_singleton.1 ht]
    exact ⟨0, rfl, rfl⟩
  · rintro c t ⟨hshared, hlocals⟩ hundisturbed
    refine exec_keeps (J := fun s p => Phase.Numbered s p) ?_ fun t' _ => ?_
    · rw [exec_locals_self]
      exact step_numbered parse hshared (hlocals t)
    · exact (hlocals t').of_step parse fun hwritten => hundisturbed hwritten t'

/-- **Rolling back to a generation.** In every interleaving in which no store raises the
generation between another call's store and its read of it: a rollback that returns true makes
that policy active whose store raised the generation to the number. This is one policy up to 2^64
generations. -/
theorem rollback_by_generation (initial : PolicyFile) (maxHistory : Nat) (requests : ι → Request)
    (es : List ι) (h : Throughout (exec (step parse)) Undisturbed
      (begin initial maxHistory requests) es) (generation : Nat) :
    let s := (run (exec (step parse)) (begin initial maxHistory requests) es).shared
    (s.store.rollback generation).1 = true →
      s.RaisedTo generation (s.store.rollback generation).2.handle.policy ∧
      (s.raised.length ≤ 2 ^ 64 →
        s.raised[generation]? = some (s.store.rollback generation).2.handle.policy) := by
  intro s htrue
  have hnumbered : s.Numbered := numbered_run parse h
  rcases s.store.rollback_cases generation with heq | ⟨t, ht, rfl, heq⟩
  · rw [heq] at htrue
    simp at htrue
  rw [heq]
  obtain ⟨k, hk, hget⟩ := hnumbered.history t ht
  refine ⟨⟨k, hk, hget⟩, fun hcount => ?_⟩
  have hlt := (List.getElem?_eq_some_iff.1 hget).1
  rw [← hk, Nat.mod_eq_of_lt (by omega)]
  exact hget

end

/-- Two pushes. -/
def twoPushes : Fin 2 → Request
  | 0 => .push (versionOf "2.0.0")
  | 1 => .push (versionOf "3.0.0")

/-- Both are stored before either reads the generation, 2. A rollback to it makes the first active,
but it was the second whose store raised it to 2. -/
theorem rollback_to_other_policy :
    let s := (run (exec (step anyVersion)) (begin (versionOf "1.0.0") 10 twoPushes)
      [0, 0, 0, 1, 1, 1, 0, 0, 1, 1]).shared
    (s.store.rollback 2).1 = true ∧ s.raised[2]? = some (versionOf "3.0.0") ∧
      (s.store.rollback 2).2.handle.policy = versionOf "2.0.0" := by
  decide +kernel

theorem rollback_after_overlapping_pushes :
    let s := (run (exec (step anyVersion)) (begin (versionOf "1.0.0") 10 twoPushes)
      [0, 1, 0, 1, 1, 1, 0, 0, 0, 1]).shared
    (s.store.rollback 2).1 = true ∧
      s.raised[2]? = some (s.store.rollback 2).2.handle.policy := by
  refine ⟨by decide +kernel, (rollback_by_generation anyVersion (versionOf "1.0.0") 10 twoPushes
    _ (by decide +kernel) 2 (by decide +kernel)).2 (by decide +kernel)⟩

/-! ## Versions -/

section

variable {V : Type} [LinearOrder V] (parse : String → Except String V) {ι : Type*}

/-- The slot had no policy, or has one of no lower version now. -/
def NotLower (slot slot' : Option PolicyFile) : Prop :=
  ∀ pf ∈ slot, ∃ pf' ∈ slot', ∃ v v', parse pf.version = .ok v ∧ parse pf'.version = .ok v' ∧ v ≤ v'

/-- The promoted policies have versions. -/
def Shared.Versioned (s : Shared) : Prop :=
  ∀ env, env ≠ .dev → ∀ pf ∈ s.store.envPolicies env, ∃ v, parse pf.version = .ok v

/-- A promotion past the check is to a higher version than the target had. -/
def Phase.Higher : Phase → Prop
  | .checked source toEnv seen => toEnv ≠ .dev ∧ ∃ v, parse source.version = .ok v ∧
      ∀ pf ∈ seen, ∀ w, parse pf.version = .ok w → w < v
  | _ => True

/-- A promotion finds the target as its check has seen it. -/
def Phase.AsSeen (s : Shared) : Phase → Prop
  | .checked _ toEnv seen => s.store.envPolicies toEnv = seen
  | _ => True

instance (s : Shared) (p : Phase) : Decidable (p.AsSeen s) := by
  cases p <;> unfold Phase.AsSeen <;> infer_instance

/-- No other promotion has been there since. -/
def TargetAsSeen (c : Threads ι Shared Phase) (t : ι) : Prop := (c.locals t).AsSeen c.shared
deriving Decidable

variable {parse}

theorem notLower_refl (h : s.Versioned parse) {env : PolicyEnvironment} (henv : env ≠ .dev) :
    NotLower parse (s.store.envPolicies env) (s.store.envPolicies env) := by
  intro pf hpf
  obtain ⟨v, hv⟩ := h env henv pf hpf
  exact ⟨pf, hpf, v, v, hv, hv, le_rfl⟩

theorem NotLower.trans {a b c : Option PolicyFile} (hab : NotLower parse a b)
    (hbc : NotLower parse b c) : NotLower parse a c := by
  intro pf hpf
  obtain ⟨pf', hpf', v, v', hv, hv', hle⟩ := hab pf hpf
  obtain ⟨pf'', hpf'', w, w', hw, hw', hle'⟩ := hbc pf' hpf'
  obtain rfl : v' = w := Except.ok.inj (hv'.symm.trans hw)
  exact ⟨pf'', hpf'', v, w', hv, hw', hle.trans hle'⟩

variable [ToString V]

/-- What a promotion that may go on has checked. -/
theorem checkPromotion_spec {s : PolicyStore} {fromEnv toEnv : PolicyEnvironment}
    {source : PolicyFile} (h : s.checkPromotion parse fromEnv toEnv = .ok source) :
    toEnv ≠ .dev ∧ ∃ v, parse source.version = .ok v ∧
      ∀ pf ∈ s.envPolicies toEnv, ∀ w, parse pf.version = .ok w → w < v := by
  unfold checkPromotion at h
  dsimp only at h
  split at h
  · simp at h
  · next htier =>
    refine ⟨?_, ?_⟩
    · rintro rfl
      exact htier (by simp [PolicyEnvironment.tier])
    split at h
    · simp at h
    split at h
    · simp at h
    · next v hv =>
      split at h
      · next w hw =>
        split at h
        · simp at h
        · next hnot =>
          obtain rfl := Except.ok.inj h
          refine ⟨v, hv, fun pf hpf w' hw' => ?_⟩
          rw [mem_def.1 hpf, map_some, hw'] at hw
          rw [Except.ok.inj (some.inj hw)]
          exact not_le.1 hnot
      · next hno =>
        obtain rfl := Except.ok.inj h
        refine ⟨v, hv, fun pf hpf w' hw' => absurd ?_ (hno w')⟩
        rw [mem_def.1 hpf, map_some, hw']

variable (parse) in
/-- What a step does to the slots of the promoted policies. -/
theorem step_envPolicies (s : Shared) (p : Phase) {env : PolicyEnvironment} (henv : env ≠ .dev) :
    (step parse s p).1.store.envPolicies env = s.store.envPolicies env ∨
      ∃ source seen, p = .checked source env seen ∧
        (step parse s p).1.store.envPolicies env = some source := by
  unfold step
  split
  · split
    · exact .inl rfl
    · exact .inl (update_of_ne henv ..)
  · split <;> exact .inl rfl
  · next source toEnv seen =>
    by_cases heq : env = toEnv
    · subst heq
      exact .inr ⟨source, seen, rfl, update_self ..⟩
    · exact .inl (update_of_ne heq ..)
  all_goals exact .inl rfl

theorem step_versioned (h : s.Versioned parse) (hp : p.Higher parse) :
    (step parse s p).1.Versioned parse ∧ (step parse s p).2.Higher parse := by
  constructor
  · intro env henv pf hpf
    rcases step_envPolicies parse s p henv with heq | ⟨source, seen, rfl, heq⟩
    · rw [heq] at hpf
      exact h env henv pf hpf
    · rw [heq] at hpf
      obtain ⟨-, v, hv, -⟩ := hp
      rw [← mem_some.1 hpf]
      exact ⟨v, hv⟩
  · unfold step
    split
    · split <;> trivial
    · split
      · trivial
      · next source hcheck => exact checkPromotion_spec hcheck
    · split <;> trivial
    all_goals trivial

/-- A promotion finds the target as its check saw it. -/
theorem step_notLower (h : s.Versioned parse) (hp : p.Higher parse) (hseen : p.AsSeen s)
    {env : PolicyEnvironment} (henv : env ≠ .dev) :
    NotLower parse (s.store.envPolicies env) ((step parse s p).1.store.envPolicies env) := by
  rcases step_envPolicies parse s p henv with heq | ⟨source, seen, rfl, heq⟩
  · rw [heq]
    exact notLower_refl h henv
  rw [heq]
  intro pf hpf
  obtain ⟨-, v, hv, hhigher⟩ := hp
  obtain ⟨w, hw⟩ := h env henv pf hpf
  rw [hseen] at hpf
  exact ⟨source, rfl, w, v, hw, hv, (hhigher pf hpf w hw).le⟩

variable [DecidableEq ι]

variable (parse) in
theorem versioned_run (initial : PolicyFile) (maxHistory : Nat) (requests : ι → Request)
    (es : List ι) :
    let c := run (exec (step parse)) (begin initial maxHistory requests) es
    c.shared.Versioned parse ∧ ∀ t, (c.locals t).Higher parse := by
  refine run_invariant (I := fun c : Threads ι Shared Phase =>
    c.shared.Versioned parse ∧ ∀ t, (c.locals t).Higher parse) ?_ ?_ es
  · refine ⟨fun env henv pf hpf => ?_, fun t => trivial⟩
    have hnone : (begin initial maxHistory requests).shared.store.envPolicies env = none :=
      if_neg henv
    rw [hnone] at hpf
    simp at hpf
  · rintro c t ⟨hshared, hlocals⟩
    refine exec_keeps (J := fun _ p => Phase.Higher parse p) ?_ fun t' _ => hlocals t'
    rw [exec_shared, exec_locals_self]
    exact step_versioned hshared (hlocals t)

/-- **No downgrade by promotion.** In every interleaving in which each promotion finds its target as
its check has seen it, neither the version in staging nor that in production ever goes down. -/
theorem promotion_never_lowers (initial : PolicyFile) (maxHistory : Nat) (requests : ι → Request)
    (es es' : List ι) (h : Throughout (exec (step parse)) TargetAsSeen
      (begin initial maxHistory requests) (es ++ es')) (env : PolicyEnvironment)
    (henv : env = .staging ∨ env = .prod) :
    let slot := fun es => (run (exec (step parse)) (begin initial maxHistory requests)
      es).shared.store.envPolicies env
    NotLower parse (slot es) (slot (es ++ es')) := by
  intro slot
  have hdev : env ≠ .dev := by rcases henv with rfl | rfl <;> decide
  induction es' using reverseRecOn with
  | nil =>
    rw [append_nil]
    exact notLower_refl (versioned_run parse initial maxHistory requests es).1 hdev
  | append_singleton es' t ih =>
    rw [← append_assoc] at h ⊢
    obtain ⟨hbefore, hseen⟩ := throughout_concat.1 h
    obtain ⟨hshared, hlocals⟩ := versioned_run parse initial maxHistory requests (es ++ es')
    refine (ih hbefore).trans ?_
    simp only [slot, run_concat]
    exact step_notLower hshared (hlocals t) hseen hdev

end

/-- The versions of the examples. -/
def firstDigit (version : String) : Except String Nat :=
  if version = "1.0.0" then .ok 1
  else if version = "2.0.0" then .ok 2
  else if version = "3.0.0" then .ok 3
  else .error "unexpected"

/-- Two pushes and two promotions to staging. -/
def twoPromotions : Fin 4 → Request
  | 0 => .push (versionOf "2.0.0")
  | 1 => .promote .dev .staging
  | 2 => .push (versionOf "3.0.0")
  | 3 => .promote .dev .staging

/-- The first promotion has checked version 2 when 3 is promoted; then it puts 2 there. -/
theorem staging_downgraded :
    let slot := fun es => (run (exec (step firstDigit))
      (begin (versionOf "1.0.0") 10 twoPromotions) es).shared.store.envPolicies .staging
    slot [0, 0, 0, 0, 0, 1, 2, 2, 2, 2, 2, 3, 3] = some (versionOf "3.0.0") ∧
      slot [0, 0, 0, 0, 0, 1, 2, 2, 2, 2, 2, 3, 3, 1] = some (versionOf "2.0.0") := by
  decide +kernel

theorem staging_kept_up :
    let slot := fun es => (run (exec (step firstDigit))
      (begin (versionOf "1.0.0") 10 twoPromotions) es).shared.store.envPolicies .staging
    slot [0, 0, 1, 1] = some (versionOf "2.0.0") ∧
      NotLower firstDigit (slot [0, 0, 1, 1]) (slot ([0, 0, 1, 1] ++ [2, 0, 3, 2, 3])) :=
  ⟨by decide +kernel, promotion_never_lowers (versionOf "1.0.0") 10 twoPromotions [0, 0, 1, 1]
    [2, 0, 3, 2, 3] (by decide +kernel) .staging (.inl rfl)⟩

end Haltchain.Rules.PolicyStore

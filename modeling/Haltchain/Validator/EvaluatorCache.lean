import Haltchain.Lib.Interleaving
import Haltchain.Validator.RuleStage

/-! # The evaluator cache under concurrent stores

`PolicyHandle::store` writes the policy and then raises the generation. `validate_inner` reads the
generation, takes the lock of the cache, and if the cached evaluator is of another generation it
loads the policy, builds an evaluator and caches it under the generation it has read. So an
evaluator of an older policy is cached under an older generation, until the 64-bit counter has come
round. -/

namespace Haltchain.Validator

open Lib Rules RuleEngine Threads List Function

namespace EvaluatorCache

/-- What a thread does. -/
inductive Task where
  | store (pf : PolicyFile)
  /-- `validate_inner`, until it has an evaluator or none. -/
  | validate
deriving DecidableEq

/-- How far it is, with the number of stores up to the read of the generation. -/
inductive Phase where
  | start (task : Task)
  /-- The policy is written, the generation not yet raised. -/
  | written
  /-- The generation has been read. -/
  | read (generation since : Nat)
  /-- The lock is held; the cached evaluator is of another generation. -/
  | locked (generation since : Nat)
  | loaded (generation since : Nat) (pf : PolicyFile)
  | done (found : Option (Except Failure RuleEvaluator))
deriving DecidableEq

/-- The handle, the cache with its lock, the number of stores that raised the generation, and what
it was when the cached generation was read. -/
structure Shared where
  handle : PolicyHandle
  cache : Option (Nat × RuleEvaluator)
  held : Bool
  stores : Nat
  cachedSince : Nat

variable (regex : RegexBuilder)

/-- What a call does next. -/
def step (s : Shared) : Phase → Shared × Phase
  | .start (.store pf) => ({ s with handle := s.handle.write pf }, .written)
  | .written => ({ s with handle := s.handle.raise, stores := s.stores + 1 }, .done none)
  | .start .validate => (s, .read s.handle.generation s.stores)
  | .read generation since =>
    -- waits for the lock
    if s.held then (s, .read generation since)
    else
      match s.cache.filter fun c => c.1 = generation with
      | some c => (s, .done (some (.ok c.2)))
      | none => ({ s with held := true }, .locked generation since)
  | .locked generation since => (s, .loaded generation since s.handle.policy)
  | .loaded generation since pf =>
    match RuleEvaluator.new regex pf with
    | .ok ev =>
      ({ s with cache := some (generation, ev), held := false, cachedSince := since },
        .done (some (.ok ev)))
    | .error f => ({ s with held := false }, .done (some (.error f)))
  | .done found => (s, .done found)

variable {ι : Type*} [DecidableEq ι]

/-- All threads are about to start, and nothing is cached. -/
def begin (initial : PolicyFile) (tasks : ι → Task) : Threads ι Shared Phase :=
  ⟨⟨.new initial, none, false, 0, 0⟩, fun t => .start (tasks t)⟩

/-! ## A thread alone -/

theorem iterate_validate {s : Shared} (hheld : s.held = false) :
    let e : RuleEngine := ⟨s.handle, s.cache⟩
    let q := (fun q : Shared × Phase => step regex q.1 q.2)^[4] (s, .start .validate)
    q.2 = .done (some (e.evaluator regex).1) ∧
      (⟨q.1.handle, q.1.cache⟩ : RuleEngine) = (e.evaluator regex).2 := by
  simp only [iterate_succ_apply, iterate_zero_apply, step, hheld, evaluator]
  cases hhit : s.cache.filter fun c => c.1 = s.handle.generation with
  | some c => simp
  | none =>
    simp only [Bool.false_eq_true, if_false]
    cases hnew : RuleEvaluator.new regex s.handle.policy with
    | ok | error => simp

/-- **An uninterrupted call finds the evaluator the rule stage finds**, and leaves the same in the
cache. -/
theorem run_validate_alone (c : Threads ι Shared Phase) (t : ι) (hheld : c.shared.held = false)
    (hstart : c.locals t = .start .validate) :
    let e : RuleEngine := ⟨c.shared.handle, c.shared.cache⟩
    let c' := run (exec (step regex)) c (replicate 4 t)
    c'.locals t = .done (some (e.evaluator regex).1) ∧
      (⟨c'.shared.handle, c'.shared.cache⟩ : RuleEngine) = (e.evaluator regex).2 := by
  dsimp only
  rw [run_replicate_shared, run_replicate_self, hstart]
  exact iterate_validate regex hheld

theorem run_store_alone (c : Threads ι Shared Phase) (t : ι) (pf : PolicyFile)
    (hstart : c.locals t = .start (.store pf)) : run (exec (step regex)) c (replicate 2 t) =
      ⟨{ c.shared with handle := c.shared.handle.store pf, stores := c.shared.stores + 1 },
        update c.locals t (.done none)⟩ := by
  rw [run_replicate, hstart]
  rfl

/-! ## What is cached -/

/-- A store is between its two steps. -/
def InProgress (c : Threads ι Shared Phase) : Prop := ∃ t, c.locals t = .written

/-- What was loaded after so many stores is current, unless another policy was written since. Then
the generation is raised, or will be. -/
def Current (c : Threads ι Shared Phase) (since : Nat) (pf : PolicyFile) : Prop :=
  since ≤ c.shared.stores ∧
    (pf = c.shared.handle.policy ∨ InProgress c ∨ since < c.shared.stores)

/-- What a call knows. -/
def Known (c : Threads ι Shared Phase) : Phase → Prop
  | .read generation since | .locked generation since =>
    generation = since % 2 ^ 64 ∧ since ≤ c.shared.stores
  | .loaded generation since pf => generation = since % 2 ^ 64 ∧ Current c since pf
  | _ => True

/-- The generation counts the stores, the cached evaluator is of a policy that was current, and
every call knows what it has read. -/
structure Sound (c : Threads ι Shared Phase) : Prop where
  generation : c.shared.handle.generation = c.shared.stores % 2 ^ 64
  cached : ∀ g ev, c.shared.cache = some (g, ev) → g = c.shared.cachedSince % 2 ^ 64 ∧
    ∃ pf, Current c c.shared.cachedSince pf ∧ RuleEvaluator.new regex pf = .ok ev
  known : ∀ t, Known c (c.locals t)

/-- What a step does to the handle and the number of stores. -/
theorem step_handle (s : Shared) (p : Phase) :
    (∃ pf, p = .start (.store pf) ∧ (step regex s p).2 = .written ∧
      (step regex s p).1.handle = s.handle.write pf ∧ (step regex s p).1.stores = s.stores) ∨
    (p = .written ∧ (step regex s p).1.handle = s.handle.raise ∧
      (step regex s p).1.stores = s.stores + 1) ∨
    (p ≠ .written ∧ (step regex s p).1.handle = s.handle ∧
      (step regex s p).1.stores = s.stores) := by
  unfold step
  split
  · exact .inl ⟨_, rfl, rfl, rfl, rfl⟩
  · exact .inr (.inl ⟨rfl, rfl, rfl⟩)
  · exact .inr (.inr ⟨by simp, rfl, rfl⟩)
  · refine .inr (.inr ⟨by simp, ?_⟩)
    split
    · exact ⟨rfl, rfl⟩
    · split <;> exact ⟨rfl, rfl⟩
  · exact .inr (.inr ⟨by simp, rfl, rfl⟩)
  · refine .inr (.inr ⟨by simp, ?_⟩)
    split <;> exact ⟨rfl, rfl⟩
  · exact .inr (.inr ⟨by simp, rfl, rfl⟩)

/-- What a step does to the cache. -/
theorem step_cache (s : Shared) (p : Phase) :
    ((step regex s p).1.cache = s.cache ∧ (step regex s p).1.cachedSince = s.cachedSince) ∨
      ∃ g since pf ev, p = .loaded g since pf ∧ RuleEvaluator.new regex pf = .ok ev ∧
        (step regex s p).1.cache = some (g, ev) ∧ (step regex s p).1.cachedSince = since := by
  unfold step
  split
  · exact .inl ⟨rfl, rfl⟩
  · exact .inl ⟨rfl, rfl⟩
  · exact .inl ⟨rfl, rfl⟩
  · split
    · exact .inl ⟨rfl, rfl⟩
    · split <;> exact .inl ⟨rfl, rfl⟩
  · exact .inl ⟨rfl, rfl⟩
  · split
    · next hnew => exact .inr ⟨_, _, _, _, rfl, hnew, rfl, rfl⟩
    · exact .inl ⟨rfl, rfl⟩
  · exact .inl ⟨rfl, rfl⟩

variable {regex}

variable {c : Threads ι Shared Phase}

/-- No step makes what was loaded seem current when it is not. -/
theorem Current.exec {since : Nat} {pf : PolicyFile} (h : Current c since pf) (t : ι) :
    Current (c.exec (step regex) t) since pf := by
  obtain ⟨hle, hcurrent⟩ := h
  unfold Current
  rw [exec_shared]
  rcases step_handle regex c.shared (c.locals t) with
    ⟨pf', -, hwritten, -, hstores⟩ | ⟨-, -, hstores⟩ | ⟨hnot, hhandle, hstores⟩
  · -- a store has begun
    refine ⟨by omega, .inr (.inl ⟨t, ?_⟩)⟩
    rw [exec_locals_self, hwritten]
  · -- a store has come to its end
    exact ⟨by omega, .inr (.inr (by omega))⟩
  · rw [hhandle, hstores]
    refine ⟨hle, hcurrent.imp_right (Or.imp_left ?_)⟩
    rintro ⟨t', ht'⟩
    have hne : t' ≠ t := by
      rintro rfl
      exact hnot ht'
    exact ⟨t', by rw [exec_locals_of_ne c hne, ht']⟩

variable (regex) in
theorem stores_le_exec (c : Threads ι Shared Phase) (t : ι) :
    c.shared.stores ≤ (c.exec (step regex) t).shared.stores := by
  rw [exec_shared]
  rcases step_handle regex c.shared (c.locals t) with
    ⟨-, -, -, -, hstores⟩ | ⟨-, -, hstores⟩ | ⟨-, -, hstores⟩ <;> omega

theorem Known.exec {p : Phase} (h : Known c p) (t : ι) : Known (c.exec (step regex) t) p := by
  have hstores := stores_le_exec regex c t
  cases p with
  | read generation since | locked generation since => exact ⟨h.1, h.2.trans hstores⟩
  | loaded generation since pf => exact ⟨h.1, h.2.exec t⟩
  | _ => trivial

/-- The thread that takes a step knows what it has read. -/
theorem Sound.known_self (h : Sound regex c) (t : ι) :
    Known (c.exec (step regex) t) ((c.exec (step regex) t).locals t) := by
  have hknown : Known (c.exec (step regex) t) (c.locals t) := (h.known t).exec t
  rw [exec_locals_self]
  cases hphase : c.locals t with
  | start task =>
    cases task with
    | store pf => trivial
    | validate =>
      refine ⟨h.generation, ?_⟩
      exact stores_le_exec regex c t
  | written => trivial
  | read generation since =>
    rw [hphase] at hknown
    rw [step]
    split
    · exact hknown
    · split
      · trivial
      · exact hknown
  | locked generation since =>
    rw [hphase] at hknown
    refine ⟨hknown.1, hknown.2, .inl ?_⟩
    rw [exec_shared, hphase]
    rfl
  | loaded generation since pf =>
    rw [step]
    split <;> trivial
  | done found => trivial

theorem Sound.exec (h : Sound regex c) (t : ι) : Sound regex (c.exec (step regex) t) := by
  refine ⟨?_, fun g ev hcache => ?_, fun t' => ?_⟩
  · rw [exec_shared]
    rcases step_handle regex c.shared (c.locals t) with
      ⟨pf, -, -, hhandle, hstores⟩ | ⟨-, hhandle, hstores⟩ | ⟨-, hhandle, hstores⟩
    · rw [hhandle, hstores]
      exact h.generation
    · rw [hhandle, hstores, PolicyHandle.raise, h.generation]
      exact Nat.mod_add_mod ..
    · rw [hhandle, hstores]
      exact h.generation
  · rw [exec_shared] at hcache ⊢
    rcases step_cache regex c.shared (c.locals t) with
      ⟨hsame, hsince⟩ | ⟨g', since, pf, ev', hphase, hnew, hset, hsince⟩
    · rw [hsame] at hcache
      obtain ⟨hg, pf, hcurrent, hnew⟩ := h.cached g ev hcache
      rw [hsince]
      exact ⟨hg, pf, hcurrent.exec t, hnew⟩
    · rw [hset] at hcache
      obtain ⟨rfl, rfl⟩ := hcache
      have hknown := h.known t
      rw [hphase] at hknown
      rw [hsince]
      exact ⟨hknown.1, pf, hknown.2.exec t, hnew⟩
  · by_cases heq : t' = t
    · rw [heq]
      exact h.known_self t
    · rw [exec_locals_of_ne c heq]
      exact (h.known t').exec t

omit [DecidableEq ι] in
theorem sound_begin (initial : PolicyFile) (tasks : ι → Task) :
    Sound regex (begin initial tasks) where
  generation := rfl
  cached _ _ h := absurd h (by simp [begin])
  known _ := trivial

/-- **The evaluator cache is not stale.** In every interleaving of stores and calls: when no store
is in progress and the cached generation is the current one, read fewer than 2^64 stores ago, the
cached evaluator is the one built from the current policy. -/
theorem cached_evaluator_current (initial : PolicyFile) (tasks : ι → Task) (es : List ι) :
    let c := run (exec (step regex)) (begin initial tasks) es
    ¬ InProgress c → ∀ ev, c.shared.cache = some (c.shared.handle.generation, ev) →
      c.shared.stores < c.shared.cachedSince + 2 ^ 64 →
        RuleEvaluator.new regex c.shared.handle.policy = .ok ev := by
  intro c hidle ev hcache hcount
  have hsound : Sound regex c :=
    run_invariant (sound_begin initial tasks) (fun _ t h => h.exec t) es
  obtain ⟨hg, pf, ⟨hle, hcurrent⟩, hnew⟩ := hsound.cached _ ev hcache
  have hsame : c.shared.stores = c.shared.cachedSince := by
    have hgen := hsound.generation
    omega
  rcases hcurrent with rfl | hprogress | hlt
  · exact hnew
  · exact absurd hprogress hidle
  · omega

theorem cached_evaluator_after_store :
    let c := run (exec (step noRegex))
      (begin (enforcing []) fun t : Bool =>
        if t then .store (enforcing [denyMallory]) else .validate)
      [true, true, false, false, false, false]
    c.shared.handle.generation = 1 ∧
      ∃ ev, c.shared.cache = some (c.shared.handle.generation, ev) ∧
        RuleEvaluator.new noRegex (enforcing [denyMallory]) = .ok ev := by
  intro c
  have hpolicy : c.shared.handle.policy = enforcing [denyMallory] := by
    decide +kernel
  have hsome : c.shared.cache.map Prod.fst = some c.shared.handle.generation := by decide +kernel
  have hidle : ∀ t, c.locals t ≠ .written := by decide +kernel
  have hstores : c.shared.stores < c.shared.cachedSince + 2 ^ 64 := by decide +kernel
  obtain ⟨⟨g, ev⟩, hcache, rfl⟩ := Option.map_eq_some_iff.1 hsome
  refine ⟨by decide +kernel, ev, hcache, ?_⟩
  rw [← hpolicy]
  exact cached_evaluator_current _ _ _ (not_exists.2 hidle) ev hcache hstores

/-! ## When the generation comes round -/

/-- The first `n` threads after thread 0 run, one by one. -/
def oneByOne (n : Nat) : List Nat := (range n).flatMap fun k => replicate 2 (k + 1)

theorem oneByOne_succ (n : Nat) : oneByOne (n + 1) = oneByOne n ++ replicate 2 (n + 1) := by
  rw [oneByOne, range_succ, flatMap_append]
  rfl

theorem iterate_store (h : PolicyHandle) (pf : PolicyFile) {n : Nat} (hn : 1 ≤ n) :
    (fun h : PolicyHandle => h.store pf)^[n] h = ⟨pf, (h.generation + n) % 2 ^ 64⟩ := by
  induction n, hn using Nat.le_induction with
  | base => rfl
  | succ n _ ih =>
    rw [iterate_succ_apply', ih, PolicyHandle.store, Nat.mod_add_mod, add_assoc]

variable (regex) in
/-- Stores of one policy, one after the other. -/
theorem run_oneByOne {c : Threads Nat Shared Phase} {pf : PolicyFile}
    (hstart : ∀ t, 0 < t → c.locals t = .start (.store pf)) (n : Nat) :
    let c' := run (exec (step regex)) c (oneByOne n)
    c'.shared = { c.shared with
        handle := (fun h : PolicyHandle => h.store pf)^[n] c.shared.handle
        stores := c.shared.stores + n } ∧
      (∀ t, n < t → c'.locals t = c.locals t) ∧
      (InProgress c' → InProgress c) := by
  induction n with
  | zero => exact ⟨rfl, fun _ _ => rfl, id⟩
  | succ n ih =>
    obtain ⟨hshared, hlater, hidle⟩ := ih
    have hlocal := (hlater (n + 1) n.lt_succ_self).trans (hstart _ n.succ_pos)
    rw [oneByOne_succ, run_append, run_store_alone regex _ _ pf hlocal]
    refine ⟨?_, fun t ht => ?_, ?_⟩
    · dsimp only
      rw [hshared, iterate_succ_apply', add_assoc]
    · dsimp only
      rw [update_of_ne (by omega), hlater t (by omega)]
    · rintro ⟨t, ht⟩
      refine hidle ⟨t, ?_⟩
      dsimp only at ht
      by_cases heq : t = n + 1
      · rw [heq, update_self] at ht
        simp at ht
      · rwa [update_of_ne heq] at ht

/-- One reader and any number of stores: what there is after the reader's call. -/
theorem reader_first :
    let c := run (exec (step noRegex))
      (begin (enforcing [denyMallory]) fun t : Nat =>
        if t = 0 then .validate else .store (enforcing []))
      (replicate 4 0)
    c.shared.handle.generation = 0 ∧
      (∃ ev, c.shared.cache = some (0, ev) ∧
        RuleEvaluator.new noRegex (enforcing []) ≠ .ok ev) ∧
      ¬ InProgress c ∧ ∀ t, 0 < t → c.locals t = .start (.store (enforcing [])) := by
  intro c
  have hcached : (c.shared.cache.any fun p => decide (p.1 = 0 ∧
      RuleEvaluator.new noRegex (enforcing []) ≠ .ok p.2)) = true := by
    decide +kernel
  have hreader : c.locals 0 ≠ .written := by decide +kernel
  have hothers : ∀ t, 0 < t → c.locals t = .start (.store (enforcing [])) := by
    intro t ht
    refine (run_replicate_of_ne _ (by omega) 4).trans ?_
    exact congrArg _ (if_neg (by omega))
  refine ⟨by decide +kernel, ?_, ?_, hothers⟩
  · obtain ⟨⟨g, ev⟩, hcache, hstale⟩ := (Option.any_eq_true _ _).1 hcached
    obtain ⟨rfl, hne⟩ := of_decide_eq_true hstale
    exact ⟨ev, hcache, hne⟩
  · rintro ⟨t, ht⟩
    rcases Nat.eq_zero_or_pos t with rfl | hpos
    · exact hreader ht
    · rw [hothers t hpos] at ht
      simp at ht

theorem stale_when_come_round :
    let c := run (exec (step noRegex))
      (begin (enforcing [denyMallory]) fun t : Nat =>
        if t = 0 then .validate else .store (enforcing []))
      (replicate 4 0 ++ oneByOne (2 ^ 64))
    ¬ InProgress c ∧ c.shared.handle.policy = enforcing [] ∧
      ∃ ev, c.shared.cache = some (c.shared.handle.generation, ev) ∧
        RuleEvaluator.new noRegex (enforcing []) ≠ .ok ev := by
  intro c
  obtain ⟨hgeneration, ⟨ev, hcache, hne⟩, hnone, hothers⟩ := reader_first
  obtain ⟨hshared, -, hidle⟩ := run_oneByOne noRegex hothers (2 ^ 64)
  have hc := run_append (exec (step noRegex))
    (begin (enforcing [denyMallory]) fun t : Nat =>
      if t = 0 then .validate else .store (enforcing []))
    (replicate 4 0) (oneByOne (2 ^ 64))
  rw [← hc] at hshared hidle
  rw [iterate_store _ _ Nat.one_le_two_pow, hgeneration] at hshared
  refine ⟨fun h => hnone (hidle h), ?_, ev, ?_, hne⟩
  · rw [hshared]
  · rw [hshared]
    exact hcache

end EvaluatorCache

end Haltchain.Validator

import Haltchain.Lib.Run
import Haltchain.Rules.Watcher

/-! # The policy store

`PolicyStore` of `watcher.rs`: a policy handle with the last policies that were pushed to it or
promoted to production, and a policy for each environment. A rollback stores an old policy again, as
a new generation that is not recorded.

The semver library is a parameter: what a version parses to, or the text of its error. The times of
loading are left out. -/

namespace Haltchain.Rules

open Lib List

structure PolicySnapshot where
  policy : PolicyFile
  generation : Nat

/-- Where a policy is in use. -/
inductive PolicyEnvironment where
  | dev
  | staging
  | prod
deriving DecidableEq

def PolicyEnvironment.asStr : PolicyEnvironment → String
  | .dev => "dev"
  | .staging => "staging"
  | .prod => "prod"

def PolicyEnvironment.tier : PolicyEnvironment → Nat
  | .dev => 0
  | .staging => 1
  | .prod => 2

/-- The active policy, the history and the environments. -/
structure PolicyStore where
  handle : PolicyHandle
  history : List PolicySnapshot
  maxHistory : Nat
  maxHistory_pos : 0 < maxHistory
  envPolicies : PolicyEnvironment → Option PolicyFile

namespace PolicyStore

def new (initial : PolicyFile) (maxHistory : Nat) : PolicyStore where
  handle := .new initial
  history := [⟨initial, 0⟩]
  maxHistory := max maxHistory 1
  maxHistory_pos := lt_of_lt_of_le Nat.one_pos (le_max_right maxHistory 1)
  envPolicies env := if env = .dev then some initial else none

def insertEnv (s : PolicyStore) (env : PolicyEnvironment) (pf : PolicyFile) : PolicyStore :=
  { s with envPolicies := Function.update s.envPolicies env (some pf) }

/-- A snapshot is pushed, and the surplus dropped from the front. -/
def record (s : PolicyStore) (snapshot : PolicySnapshot) : PolicyStore :=
  let history := s.history ++ [snapshot]
  { s with history := history.drop (history.length - s.maxHistory) }

/-- Makes a policy active. -/
def storePolicy (s : PolicyStore) (pf : PolicyFile) : PolicyStore :=
  { s with handle := s.handle.store pf }

/-- The policy is stored and recorded under the handle's new generation. -/
def activate (s : PolicyStore) (pf : PolicyFile) : PolicyStore :=
  let s := s.storePolicy pf
  s.record ⟨pf, s.handle.generation⟩

section

variable {V : Type} [LinearOrder V] [ToString V] (parse : String → Except String V)

/-- The version is one. -/
def checkVersion (pf : PolicyFile) : Except String V :=
  (parse pf.version).mapError fun e =>
    let version := pf.version.quote
    s!"policy version {version} is not valid semver (e.g. \"1.2.3\"): {e}"

def push (s : PolicyStore) (pf : PolicyFile) : Except String Unit × PolicyStore :=
  match checkVersion parse pf with
  | .error e => (.error e, s)
  | .ok _ => (.ok (), (s.insertEnv .dev pf).activate pf)

/-- The policy to be promoted, if it may be. -/
def checkPromotion (s : PolicyStore) (fromEnv toEnv : PolicyEnvironment) :
    Except String PolicyFile :=
  let fromStr := fromEnv.asStr
  let toStr := toEnv.asStr
  if toEnv.tier ≠ fromEnv.tier + 1 then
    let fromStr := fromStr.quote
    let toStr := toStr.quote
    .error s!"invalid promotion path: {fromStr} → {toStr}; must advance exactly one tier"
  else
    match s.envPolicies fromEnv with
    | none =>
      let fromStr := fromStr.quote
      .error s!"no policy loaded for {fromStr} environment"
    | some source =>
      match parse source.version with
      | .error e =>
        let version := source.version.quote
        .error s!"source policy version {version} is not valid semver: {e}"
      | .ok sourceVer =>
        match (s.envPolicies toEnv).map fun existing => parse existing.version with
        | some (.ok existingVer) =>
          if sourceVer ≤ existingVer then
            let existingVer := toString existingVer
            let sourceVer := toString sourceVer
            .error (s!"promotion rejected: {toStr} environment already has version " ++
              s!"{existingVer} >= {sourceVer}")
          else .ok source
        | _ => .ok source

def promote (s : PolicyStore) (fromEnv toEnv : PolicyEnvironment) :
    Except String Unit × PolicyStore :=
  match s.checkPromotion parse fromEnv toEnv with
  | .error e => (.error e, s)
  | .ok source =>
    let s := s.insertEnv toEnv source
    (.ok (), if toEnv = .prod then s.activate source else s)

end

/-- Back to a generation. -/
def rollback (s : PolicyStore) (targetGeneration : Nat) : Bool × PolicyStore :=
  match s.history.find? fun t => t.generation = targetGeneration with
  | some snapshot => (true, s.storePolicy snapshot.policy)
  | none => (false, s)

/-- What `rollback_previous` takes for the entry before the current one. -/
def previous (s : PolicyStore) : Option PolicySnapshot :=
  if s.history.length < 2 then none
  else s.history.reverse.find? fun t => t.generation < s.handle.generation

def rollbackPrevious (s : PolicyStore) : Bool × PolicyStore :=
  match s.previous with
  | some prev => (true, s.storePolicy prev.policy)
  | none => (false, s)

/-- A policy with no rules and the version. -/
def versionOf (version : String) : PolicyFile := ⟨version, [], none, .enforce⟩

/-- Every version is good. -/
def anyVersion : String → Except String Nat := fun _ => .ok 0

/-! ### What a call can do -/

section

variable {V : Type} [LinearOrder V] [ToString V] (parse : String → Except String V)
  (s : PolicyStore)

omit [LinearOrder V] [ToString V] in
theorem push_cases (pf : PolicyFile) : (∃ e, s.push parse pf = (.error e, s)) ∨
      s.push parse pf = (.ok (), (s.insertEnv .dev pf).activate pf) := by
  unfold push
  split
  · exact .inl ⟨_, rfl⟩
  · exact .inr rfl

theorem promote_cases (fromEnv toEnv : PolicyEnvironment) :
    (∃ e, s.promote parse fromEnv toEnv = (.error e, s)) ∨
      ∃ source, s.promote parse fromEnv toEnv = (.ok (),
        if toEnv = .prod then (s.insertEnv toEnv source).activate source
        else s.insertEnv toEnv source) := by
  unfold promote
  split
  · exact .inl ⟨_, rfl⟩
  · exact .inr ⟨_, rfl⟩

end

theorem rollback_cases (s : PolicyStore) (targetGeneration : Nat) :
    s.rollback targetGeneration = (false, s) ∨
      ∃ t ∈ s.history, t.generation = targetGeneration ∧
        s.rollback targetGeneration = (true, s.storePolicy t.policy) := by
  unfold rollback
  split
  · next t hfind =>
    have hgen := find?_some hfind
    exact .inr ⟨t, mem_of_find?_eq_some hfind, of_decide_eq_true hgen, rfl⟩
  · exact .inl rfl

/-! ## Calls one after the other -/

/-- A call of the store. -/
inductive Call where
  | push (pf : PolicyFile)
  | promote (fromEnv toEnv : PolicyEnvironment)
  | rollback (targetGeneration : Nat)
  | rollbackPrevious

/-- Where in the list the last element with the property is. -/
def lastIdx {α : Type*} (p : α → Bool) (l : List α) : Nat :=
  l.length - 1 - l.reverse.findIdx p

theorem lastIdx_spec {α : Type*} {p : α → Bool} {l : List α} {t : α}
    (h : l.reverse.find? p = some t) :
    l[lastIdx p l]? = some t ∧ ∀ j u, l[j]? = some u → p u = true → j ≤ lastIdx p l := by
  obtain ⟨ht, newer, older, hsplit, hnewer⟩ := find?_eq_some_iff_append.1 h
  have hl : l = older.reverse ++ t :: newer.reverse := by
    rw [← reverse_reverse l, hsplit]
    simp
  have hnone : newer.findIdx p = newer.length :=
    findIdx_eq_length_of_false fun u hu => by simpa using hnewer u hu
  have hidx : lastIdx p l = older.reverse.length := by
    rw [lastIdx, hsplit, findIdx_append, hnone, findIdx_cons, ht, hl]
    simp
  rw [hidx, hl]
  refine ⟨by simp, fun j u hj hu => ?_⟩
  by_contra hlt
  rw [getElem?_append_right (by omega), getElem?_cons, if_neg (by omega)] at hj
  have hmem := mem_reverse.1 (mem_of_getElem? hj)
  exact absurd hu (by simpa using hnewer u hmem)

/-- A store, and where in the history of pushes the active policy is. -/
structure Tracked where
  store : PolicyStore
  active : Nat

namespace Tracked

/-- The initial policy. -/
def start (initial : PolicyFile) (maxHistory : Nat) : Tracked := ⟨.new initial maxHistory, 0⟩

variable {V : Type} [LinearOrder V] [ToString V] (parse : String → Except String V)

/-- One call. -/
def exec (c : Tracked) : Call → Tracked
  | .push pf =>
    match c.store.push parse pf with
    | (.ok _, s) => ⟨s, s.history.length - 1⟩
    | (.error _, s) => ⟨s, c.active⟩
  | .promote fromEnv toEnv =>
    match c.store.promote parse fromEnv toEnv with
    | (.ok _, s) => ⟨s, if toEnv = .prod then s.history.length - 1 else c.active⟩
    | (.error _, s) => ⟨s, c.active⟩
  | .rollback targetGeneration =>
    let (found, s) := c.store.rollback targetGeneration
    let position := c.store.history.findIdx fun t => t.generation = targetGeneration
    ⟨s, if found then position else c.active⟩
  | .rollbackPrevious =>
    let (found, s) := c.store.rollbackPrevious
    let position :=
      lastIdx (fun t => t.generation < c.store.handle.generation) c.store.history
    ⟨s, if found then position else c.active⟩

/-- The active policy is where it is said to be. -/
structure Placed (c : Tracked) : Prop where
  policy : c.store.history[c.active]?.map PolicySnapshot.policy = some c.store.handle.policy
  generation : c.store.handle.generation < 2 ^ 64

theorem store_generation_lt (h : PolicyHandle) (pf : PolicyFile) :
    (h.store pf).generation < 2 ^ 64 :=
  Nat.mod_lt _ (by decide)

theorem getElem?_record (s : PolicyStore) (snapshot : PolicySnapshot) :
    (s.record snapshot).history[(s.record snapshot).history.length - 1]? = some snapshot := by
  have hpos := s.maxHistory_pos
  rw [← getLast?_eq_getElem?, record]
  rw [drop_append_of_le_length (by simp; omega), getLast?_concat]

theorem placed_activate (s : PolicyStore) (pf : PolicyFile) :
    Placed ⟨s.activate pf, (s.activate pf).history.length - 1⟩ := by
  refine ⟨?_, store_generation_lt s.handle pf⟩
  rw [activate, getElem?_record]
  rfl

theorem placed_storePolicy {s : PolicyStore} {t : PolicySnapshot} {i : Nat}
    (h : s.history[i]? = some t) : Placed ⟨s.storePolicy t.policy, i⟩ := by
  refine ⟨?_, store_generation_lt s.handle t.policy⟩
  rw [storePolicy, h]
  rfl

/-- The last snapshot before the current generation is found. -/
theorem previous_spec {s : PolicyStore} {t : PolicySnapshot} (h : s.previous = some t) :
    let i := lastIdx (fun t => t.generation < s.handle.generation) s.history
    s.history[i]? = some t ∧ t.generation < s.handle.generation ∧
      ∀ j u, s.history[j]? = some u → u.generation < s.handle.generation → j ≤ i := by
  intro i
  unfold previous at h
  split at h
  · cases h
  · obtain ⟨hfound, hlast⟩ := lastIdx_spec h
    have hearlier := find?_some h
    exact ⟨hfound, of_decide_eq_true hearlier, fun j u hj hu => hlast j u hj (decide_eq_true hu)⟩

theorem exec_rollbackPrevious {c : Tracked} (h : c.store.rollbackPrevious.1 = true) :
    ∃ t, c.store.previous = some t ∧ c.exec parse .rollbackPrevious =
      ⟨c.store.storePolicy t.policy,
        lastIdx (fun t => t.generation < c.store.handle.generation) c.store.history⟩ := by
  rw [exec]
  unfold rollbackPrevious at h ⊢
  cases hprev : c.store.previous with
  | none =>
    rw [hprev] at h
    simp at h
  | some t => exact ⟨t, rfl, rfl⟩

theorem Placed.exec {c : Tracked} (h : c.Placed) (call : Call) : (c.exec parse call).Placed := by
  cases call with
  | push pf =>
    rw [Tracked.exec]
    rcases c.store.push_cases parse pf with ⟨e, heq⟩ | heq
    · rw [heq]
      exact h
    · rw [heq]
      exact placed_activate _ pf
  | promote fromEnv toEnv =>
    rw [Tracked.exec]
    rcases c.store.promote_cases parse fromEnv toEnv with ⟨e, heq⟩ | ⟨source, heq⟩
    · rw [heq]
      exact h
    · rw [heq]
      dsimp only
      split
      · exact placed_activate _ source
      · exact ⟨h.policy, h.generation⟩
  | rollback targetGeneration =>
    rw [Tracked.exec, rollback]
    cases hfind : c.store.history.find? fun t => t.generation = targetGeneration with
    | none => exact h
    | some t =>
      refine placed_storePolicy ?_
      rw [if_pos rfl, ← find?_eq_getElem?_findIdx, hfind]
  | rollbackPrevious =>
    rw [Tracked.exec, rollbackPrevious]
    cases hprev : c.store.previous with
    | none => exact h
    | some t => exact placed_storePolicy (previous_spec hprev).1

theorem placed_run (initial : PolicyFile) (maxHistory : Nat) (es : List Call) :
    (run (exec parse) (start initial maxHistory) es).Placed :=
  run_invariant (I := Placed) ⟨rfl, Nat.two_pow_pos 64⟩ (fun _ call h => h.exec parse call) es

/-- All snapshots of earlier generations were pushed before the active policy. -/
def Ahead (c : Tracked) : Prop :=
  ∀ j t, c.store.history[j]? = some t → t.generation < c.store.handle.generation → j < c.active

theorem ahead_push {c : Tracked} {pf : PolicyFile} (h : (c.store.push parse pf).1 = .ok ()) :
    (c.exec parse (.push pf)).Ahead := by
  rcases c.store.push_cases parse pf with ⟨e, heq⟩ | heq
  · rw [heq] at h
    cases h
  rw [exec, heq]
  intro j t hj hlt
  have hlength := (List.getElem?_eq_some_iff.1 hj).1
  refine lt_of_le_of_ne (Nat.le_pred_of_lt hlength) ?_
  rintro rfl
  rw [activate, getElem?_record] at hj
  cases hj
  exact lt_irrefl _ hlt

/-- A second rollback finds what the first found, or something later. -/
theorem second_rollback {c : Tracked} (hgen : c.store.handle.generation < 2 ^ 64)
    (hfirst : c.store.rollbackPrevious.1 = true)
    (hsecond : (c.exec parse .rollbackPrevious).store.rollbackPrevious.1 = true) :
    (c.exec parse .rollbackPrevious).active ≤
      ((c.exec parse .rollbackPrevious).exec parse .rollbackPrevious).active := by
  obtain ⟨t, hprev, heq⟩ := exec_rollbackPrevious parse hfirst
  obtain ⟨t', hprev', heq'⟩ := exec_rollbackPrevious parse hsecond
  obtain ⟨hfound, hearlier, -⟩ := previous_spec hprev
  obtain ⟨-, hearlier', hlast⟩ := previous_spec hprev'
  rw [heq']
  rw [heq] at hearlier' hlast ⊢
  refine hlast _ t hfound ?_
  -- the generation has not come round, or the second call would have found nothing
  simp only [storePolicy, PolicyHandle.store] at hearlier' ⊢
  omega

/-- **Going back in time.** After any calls, and then `k` calls of `rollback_previous` that all
return true: each goes back to a policy pushed before the active one exactly if there is no such
call, or one and all snapshots of an earlier generation were pushed before the active policy. -/
theorem rollback_goes_back_iff (initial : PolicyFile) (maxHistory : Nat) (es : List Call)
    (k : Nat) :
    let c := run (exec parse) (start initial maxHistory) es
    let back := fun c => exec parse c .rollbackPrevious
    (∀ i < k, (back^[i] c).store.rollbackPrevious.1 = true) →
      ((∀ i < k, (back^[i + 1] c).active < (back^[i] c).active) ↔ k = 0 ∨ (k = 1 ∧ c.Ahead)) := by
  intro c back htrue
  have hplaced : c.Placed := placed_run parse initial maxHistory es
  match k with
  | 0 => simp
  | 1 =>
    obtain ⟨t, hprev, hback⟩ : ∃ t, c.store.previous = some t ∧ back c = _ :=
      exec_rollbackPrevious parse (htrue 0 Nat.one_pos)
    obtain ⟨hfound, hearlier, hlast⟩ := previous_spec hprev
    have hactive : (back c).active = _ := congrArg active hback
    constructor
    · intro hall
      have hdown : (back c).active < c.active := hall 0 Nat.one_pos
      refine .inr ⟨rfl, fun j u hj hu => ?_⟩
      rw [hactive] at hdown
      exact (hlast j u hj hu).trans_lt hdown
    · rintro (h | ⟨-, hahead⟩) i hi
      · exact absurd h Nat.one_ne_zero
      · obtain rfl : i = 0 := by omega
        have hdown : (back c).active < c.active := by
          rw [hactive]
          exact hahead _ t hfound hearlier
        exact hdown
  | k + 2 =>
    refine iff_of_false (fun hall => ?_) (by omega)
    have hup : (back c).active ≤ (back (back c)).active :=
      second_rollback parse hplaced.generation (htrue 0 (by omega)) (htrue 1 (by omega))
    have hdown : (back (back c)).active < (back c).active := hall 1 (by omega)
    omega

/-- The third policy is active; the first rollback activates the second, the next the third. -/
theorem second_rollback_goes_forward :
    let c := run (exec anyVersion) (start (versionOf "1.0.0") 10)
      [.push (versionOf "2.0.0"), .push (versionOf "3.0.0")]
    let c₁ := c.exec anyVersion .rollbackPrevious
    let c₂ := c₁.exec anyVersion .rollbackPrevious
    c.store.rollbackPrevious.1 = true ∧ c₁.store.rollbackPrevious.1 = true ∧
      c₁.store.handle.policy = versionOf "2.0.0" ∧ c₂.store.handle.policy = versionOf "3.0.0" ∧
      c₁.active < c₂.active := by
  decide +kernel

theorem first_rollback_goes_back :
    let c := run (exec anyVersion) (start (versionOf "1.0.0") 10) [.push (versionOf "2.0.0")]
    (c.exec anyVersion .rollbackPrevious).active < c.active := by
  have hahead : (run (exec anyVersion) (start (versionOf "1.0.0") 10)
      [.push (versionOf "2.0.0")]).Ahead := ahead_push anyVersion rfl
  have hback := (rollback_goes_back_iff anyVersion (versionOf "1.0.0") 10
    [.push (versionOf "2.0.0")] 1 (by decide +kernel)).2 (.inr ⟨rfl, hahead⟩)
  exact hback 0 Nat.one_pos

end Tracked

end PolicyStore

end Haltchain.Rules

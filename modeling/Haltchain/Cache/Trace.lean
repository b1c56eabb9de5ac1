import Haltchain.Cache.DecisionCache
import Haltchain.Lib.Run

/-! # Runs of the decision cache

What the cache holds after any sequence of calls, said by the sequence. The order in which an
eviction sees the entries of the hash map is unknown, and another one in each call. -/

namespace Haltchain.Cache.DecisionCache

open Lib AList List

/-- The order in which a hash map hands out its entries. -/
structure Iteration where
  order : EntryMap → EntryMap
  perm : ∀ m, (order m).entries.Perm m.entries

/-- A call of the cache. -/
inductive Call where
  | insertFor (key : String) (decision : CachedDecision) (agentId : Option String)
  | get (key : String)
  | invalidateAgent (agentId : String)

/-- A call with what it meets. -/
structure Event where
  now : Nat
  call : Call
  iteration : Iteration

def reorder (c : DecisionCache) (i : Iteration) : DecisionCache := { c with map := i.order c.map }

/-- One call. -/
def exec (c : DecisionCache) (ev : Event) : DecisionCache :=
  match ev.call with
  | .insertFor key decision agentId =>
    (c.reorder ev.iteration).insertFor ev.now key decision agentId
  | .get key => ((c.reorder ev.iteration).get ev.now key).2
  | .invalidateAgent agentId => (c.reorder ev.iteration).invalidateAgent agentId

/-- What a call of `get` returns. -/
def answer (c : DecisionCache) (ev : Event) : Option CachedDecision :=
  match ev.call with
  | .get key => ((c.reorder ev.iteration).get ev.now key).1
  | _ => none

/-! ## What a call does to an entry -/

def Call.accesses (key : String) : Call → Bool
  | .insertFor key' _ _ | .get key' => key' = key
  | .invalidateAgent _ => false

/-- The call ends what was inserted for the key and agent: it inserts for the key, or invalidates
the agent or all. -/
def Call.Ends (key : String) (agentId : Option String) : Call → Prop
  | .insertFor key' _ _ => key' = key
  | .get _ => False
  | .invalidateAgent a => a = "" ∨ agentId = some a

variable {c : DecisionCache} {ev : Event} {key : String} {e : Entry}

@[simp] theorem lookup_reorder (c : DecisionCache) (i : Iteration) (key : String) :
    (c.reorder i).map.lookup key = c.map.lookup key :=
  perm_lookup (i.perm c.map)

theorem of_lookup_get {now : Nat} {key' : String} (h : (c.get now key').2.map.lookup key = some e) :
    ∃ e₀, c.map.lookup key = some e₀ ∧
      e = if key' = key then { e₀ with lastAccessed := now } else e₀ := by
  unfold get at h
  split at h
  · next e₀ he₀ =>
    split at h
    · rcases of_lookup_insert h with ⟨rfl, rfl⟩ | ⟨hne, h⟩
      · exact ⟨e₀, he₀, (if_pos rfl).symm⟩
      · exact ⟨e, h, (if_neg hne.symm).symm⟩
    · -- an expired entry is removed
      rcases eq_or_ne key key' with rfl | hne
      · rw [lookup_erase] at h
        cases h
      · exact ⟨e, of_lookup_erase h, (if_neg hne.symm).symm⟩
  · next hnone =>
    refine ⟨e, h, (if_neg ?_).symm⟩
    rintro rfl
    exact absurd (hnone.symm.trans h) (by simp)

theorem lookup_invalidateAgent_iff {a : String} (ha : a ≠ "") :
    (c.invalidateAgent a).map.lookup key = some e ↔
      c.map.lookup key = some e ∧ e.agentId ≠ some a := by
  rw [invalidateAgent, if_neg ha, lookup_retain_iff, decide_eq_true_eq]

/-- An entry after a call is new, or was there and the call has not ended it. -/
theorem of_lookup_exec (h : (exec c ev).map.lookup key = some e) :
    (ev.call = .insertFor key e.decision e.agentId ∧ e.inserted = ev.now ∧
      e.lastAccessed = ev.now) ∨
    (¬ ev.call.Ends key e.agentId ∧ ∃ e₀, c.map.lookup key = some e₀ ∧
      e = if ev.call.accesses key then { e₀ with lastAccessed := ev.now } else e₀) := by
  unfold exec at h
  cases hcall : ev.call with
  | insertFor key' decision agentId =>
    rw [hcall] at h
    rcases of_lookup_insert h with ⟨rfl, rfl⟩ | ⟨hne, h⟩
    · exact .inl ⟨rfl, rfl, rfl⟩
    · have hfound := (of_lookup_evict h).1
      rw [lookup_reorder] at hfound
      refine .inr ⟨fun h => hne h.symm, e, hfound, ?_⟩
      rw [if_neg (by simpa [Call.accesses] using hne.symm)]
  | get key' =>
    rw [hcall] at h
    obtain ⟨e₀, he₀, he⟩ := of_lookup_get h
    rw [lookup_reorder] at he₀
    exact .inr ⟨id, e₀, he₀, by simpa [Call.accesses] using he⟩
  | invalidateAgent a =>
    simp only [hcall] at h
    by_cases ha : a = ""
    · rw [invalidateAgent, if_pos ha] at h
      simp at h
    · rw [lookup_invalidateAgent_iff ha, lookup_reorder] at h
      exact .inr ⟨not_or.2 ⟨ha, h.2⟩, e, h.1, rfl⟩

/-! ## What a run leaves -/

theorem length_get_le (c : DecisionCache) (now : Nat) (key : String) :
    (c.get now key).2.map.entries.length ≤ c.map.entries.length := by
  unfold get
  split
  · next e he =>
    split
    · have hlength := length_insert c.map key { e with lastAccessed := now }
      rw [he] at hlength
      exact Nat.le_of_eq (Nat.succ.inj hlength)
    · exact length_erase_le ..
  · exact le_rfl

theorem length_invalidateAgent_le (c : DecisionCache) (a : String) :
    (c.invalidateAgent a).map.entries.length ≤ c.map.entries.length := by
  unfold invalidateAgent
  split
  · exact Nat.zero_le _
  · exact length_retain_le ..

theorem length_exec (h : c.map.entries.length ≤ maxEntries) (ev : Event) :
    (exec c ev).map.entries.length ≤ maxEntries := by
  have h : (c.reorder ev.iteration).map.entries.length ≤ maxEntries :=
    (ev.iteration.perm c.map).length_eq.trans_le h
  unfold exec
  split
  · next key decision agentId _ =>
    have hroom := length_evict_lt h ev.now
    have hlength := length_insert (evict (c.reorder ev.iteration).map ev.now) key
      ⟨decision, ev.now, ev.now, agentId⟩
    rw [insertFor]
    dsimp only
    omega
  · exact (length_get_le ..).trans h
  · exact (length_invalidateAgent_le ..).trans h

theorem length_run (es : List Event) : (run exec new es).map.entries.length ≤ maxEntries :=
  run_invariant (I := fun c : DecisionCache => c.map.entries.length ≤ maxEntries) (Nat.zero_le _)
    (fun _ ev h => length_exec h ev) es

/-- The latest access to the key. -/
def lastAccess (key : String) (es : List Event) : Option Nat :=
  (es.filter fun ev => ev.call.accesses key).getLast?.map Event.now

/-- The entry is the latest insertion for its key, and no later call has ended it. -/
def Recorded (es : List Event) (key : String) (e : Entry) : Prop :=
  ∃ es₁ ev es₂, es = es₁ ++ ev :: es₂ ∧ ev.now = e.inserted ∧
    ev.call = .insertFor key e.decision e.agentId ∧
    ∀ ev' ∈ es₂, ¬ ev'.call.Ends key e.agentId

theorem lastAccess_concat (key : String) (es : List Event) (ev : Event) :
    lastAccess key (es ++ [ev]) =
      if ev.call.accesses key then some ev.now else lastAccess key es := by
  rw [lastAccess]
  split
  · next h => simp [h]
  · next h => simp [h, lastAccess]

theorem Recorded.concat {es : List Event} (h : Recorded es key e)
    (hnot : ¬ ev.call.Ends key e.agentId) : Recorded (es ++ [ev]) key e := by
  obtain ⟨es₁, ins, es₂, rfl, hnow, hcall, hlater⟩ := h
  refine ⟨es₁, ins, es₂ ++ [ev], by simp, hnow, hcall, fun ev' hmem => ?_⟩
  rcases mem_append.1 hmem with hmem | hmem
  · exact hlater ev' hmem
  · rw [mem_singleton.1 hmem]
    exact hnot

/-- **What is cached is on record.** -/
theorem recorded_run {es : List Event} (h : (run exec new es).map.lookup key = some e) :
    Recorded es key e ∧ lastAccess key es = some e.lastAccessed := by
  induction es using reverseRecOn generalizing e with
  | nil => simp [new] at h
  | append_singleton es ev ih =>
    rw [run_concat] at h
    rcases of_lookup_exec h with ⟨hcall, hinserted, haccessed⟩ | ⟨hnot, e₀, he₀, rfl⟩
    · refine ⟨⟨es, ev, [], rfl, hinserted.symm, hcall, by simp⟩, ?_⟩
      rw [lastAccess_concat, hcall, haccessed]
      exact if_pos (decide_eq_true rfl)
    obtain ⟨hrecorded, hlast⟩ := ih he₀
    rw [lastAccess_concat]
    split
    · next haccess =>
      rw [if_pos haccess] at hnot
      exact ⟨hrecorded.concat hnot, rfl⟩
    · next haccess =>
      rw [if_neg haccess] at hnot
      exact ⟨hrecorded.concat hnot, hlast⟩

theorem of_answer {d : CachedDecision} (hcall : ev.call = .get key) (h : answer c ev = some d) :
    ∃ e, c.map.lookup key = some e ∧ e.decision = d ∧ e.isValid ev.now = true := by
  unfold answer at h
  simp only [hcall, get, lookup_reorder] at h
  split at h
  · next e he =>
    split at h
    · next hvalid => exact ⟨e, he, Option.some.inj h, hvalid⟩
    · cases h
  · cases h

/-- **The decision cache, said by its calls.** After any calls at nondecreasing times, in whatever
order the map hands out its entries: the cache is not overfull; a `get` returns nothing or the
decision of the latest insertion for its key, unexpired and not invalidated since; an invalidation
removes the entries of its agent and no others; and an insertion removes an unexpired entry only if
those it leaves were accessed no earlier. -/
theorem decision_cache_trace (es : List Event) (ev : Event)
    (htimes : ((es ++ [ev]).map Event.now).Pairwise (· ≤ ·)) :
    let c := run exec new es
    let c' := exec c ev
    c'.map.entries.length ≤ maxEntries ∧
    (∀ key d, ev.call = .get key → answer c ev = some d →
      ∃ es₁ ins es₂ agentId, es = es₁ ++ ins :: es₂ ∧ ins.call = .insertFor key d agentId ∧
        ins.now ≤ ev.now ∧ ev.now < ins.now + ttl ∧
        ∀ ev' ∈ es₂, ¬ ev'.call.Ends key agentId) ∧
    (∀ a, a ≠ "" → ev.call = .invalidateAgent a → ∀ key e,
      c'.map.lookup key = some e ↔ c.map.lookup key = some e ∧ e.agentId ≠ some a) ∧
    (∀ fresh d agentId, ev.call = .insertFor fresh d agentId →
      ∀ key e, key ≠ fresh → c.map.lookup key = some e → e.isValid ev.now →
        c'.map.lookup key = none → ∀ key' e', key' ≠ fresh → c'.map.lookup key' = some e' →
          e.lastAccessed ≤ e'.lastAccessed) ∧
    (∀ key e, c.map.lookup key = some e → lastAccess key es = some e.lastAccessed) := by
  intro c c'
  refine ⟨?_, ?_, ?_, ?_, ?_⟩
  · exact length_exec (length_run es) ev
  · intro key d hcall hanswer
    obtain ⟨e, he, rfl, hvalid⟩ := of_answer hcall hanswer
    obtain ⟨es₁, ins, es₂, rfl, hnow, hins, hlater⟩ := (recorded_run he).1
    refine ⟨es₁, ins, es₂, e.agentId, rfl, hins, ?_, ?_, hlater⟩
    · rw [map_append, pairwise_append] at htimes
      exact htimes.2.2 _ (by simp) _ (by simp)
    · have hage := of_decide_eq_true hvalid
      omega
  · intro a ha hcall key e
    simp only [c', exec, hcall]
    rw [lookup_invalidateAgent_iff ha, lookup_reorder]
  · intro fresh d agentId hcall key e hne he hvalid hgone key' e' hne' he'
    simp only [c', exec, hcall, insertFor, lookup_insert_ne hne] at hgone
    simp only [c', exec, hcall, insertFor, lookup_insert_ne hne'] at he'
    rw [← lookup_reorder c ev.iteration] at he
    exact lastAccessed_le_of_evict he hvalid hgone he'
  · intro key e he
    exact (recorded_run he).2

/-- The entries in the order of the list that models the map. -/
def Iteration.asStored : Iteration := ⟨id, fun _ => .refl _⟩

theorem decision_cache_hit :
    let d : CachedDecision := ⟨"ALLOW", false, none, none, 60⟩
    let es : List Event := [⟨0, .insertFor "key" d (some "alice"), .asStored⟩,
      ⟨3, .invalidateAgent "bob", .asStored⟩]
    let ev : Event := ⟨5, .get "key", .asStored⟩
    answer (run exec new es) ev = some d ∧
      ∃ es₁ ins es₂ agentId, es = es₁ ++ ins :: es₂ ∧ ins.call = .insertFor "key" d agentId ∧
        ins.now ≤ ev.now ∧ ev.now < ins.now + ttl ∧
        ∀ ev' ∈ es₂, ¬ ev'.call.Ends "key" agentId := by
  intro d es ev
  have hanswer : answer (run exec new es) ev = some d := by decide +kernel
  refine ⟨hanswer, ?_⟩
  exact (decision_cache_trace es ev (by decide)).2.1 "key" d rfl hanswer

end Haltchain.Cache.DecisionCache

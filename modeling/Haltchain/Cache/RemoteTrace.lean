import Haltchain.Cache.DragonflyClient
import Haltchain.Cache.Trace

/-! # Runs of the remote cache

Writes and reads go to the server, or to the fallback when it cannot be reached, and neither store
is told of a write to the other. -/

namespace Haltchain.Cache.DragonflyClient

open Lib Option
open DecisionCache (Iteration)

/-- A call of the client. -/
inductive Call where
  | set (key : String) (decision : CachedDecision) (policy : PolicyState)
  | get (key : String)

/-- A call with what it meets. -/
structure Event where
  now : Nat
  /-- The remote operation succeeds; otherwise it has no effect. -/
  reachable : Bool
  call : Call
  iteration : Iteration

def reorder (c : DragonflyClient) (i : Iteration) : DragonflyClient :=
  { c with fallback := c.fallback.reorder i }

/-- One call. -/
def exec (c : DragonflyClient) (ev : Event) : DragonflyClient :=
  match ev.call with
  | .set key decision policy =>
    (c.reorder ev.iteration).set ev.now ev.reachable key decision policy
  | .get key => ((c.reorder ev.iteration).get ev.now ev.reachable key).2

/-- What a call of `get` returns. -/
def answer (c : DragonflyClient) (ev : Event) : Option CachedDecision :=
  match ev.call with
  | .get key => ((c.reorder ev.iteration).get ev.now ev.reachable key).1
  | .set .. => none

/-! ## The writes for a key -/

/-- What a `set` has written. -/
structure Write where
  now : Nat
  /-- It went to the server. -/
  remote : Bool
  decision : CachedDecision
  policy : PolicyState
deriving DecidableEq

def Event.writes (key : String) (ev : Event) : Option Write :=
  match ev.call with
  | .set key' decision policy =>
    if key' = key then some ⟨ev.now, ev.reachable, decision, policy⟩ else none
  | .get _ => none

/-- The most recent `set` for the key. -/
def latest (key : String) (es : List Event) : Option Write :=
  (es.filterMap (Event.writes key)).getLast?

/-- The latest `set` for the key that went to the server, or to the fallback. -/
def latestTo (remote : Bool) (key : String) (es : List Event) : Option Write :=
  ((es.filterMap (Event.writes key)).filter fun w => w.remote = remote).getLast?

variable {key : String} {es : List Event} {ev : Event} {remote : Bool} {w : Write}

theorem Event.writes_eq_some_iff : ev.writes key = some w ↔
    ev.call = .set key w.decision w.policy ∧ ev.now = w.now ∧ ev.reachable = w.remote := by
  unfold Event.writes
  constructor
  · intro h
    split at h
    · next hcall =>
      split at h
      · next hkey =>
        cases h
        exact ⟨hkey ▸ hcall, rfl, rfl⟩
      · cases h
    · cases h
  · rintro ⟨hcall, hnow, hremote⟩
    rw [hcall, hnow, hremote]
    exact if_pos rfl

theorem latestTo_concat_of_write (h : ev.writes key = some w) (hremote : w.remote = remote) :
    latestTo remote key (es ++ [ev]) = some w := by
  simp [latestTo, h, hremote]

theorem latestTo_concat_of_other (h : ∀ w, ev.writes key = some w → w.remote ≠ remote) :
    latestTo remote key (es ++ [ev]) = latestTo remote key es := by
  cases hwrite : ev.writes key with
  | none => simp [latestTo, hwrite]
  | some w => simp [latestTo, hwrite, h w hwrite]

theorem latestTo_of_latest (h : latest key es = some w) : latestTo w.remote key es = some w := by
  obtain ⟨l, hl⟩ := List.getLast?_eq_some_iff.1 h
  simp [latestTo, hl]

/-! ## What a call leaves in the two stores -/

variable {c : DragonflyClient}

theorem exec_reachable (h : ev.reachable = true) :
    (exec c ev).fallback = c.fallback.reorder ev.iteration := by
  unfold exec
  split
  · rw [set, if_pos h]
    rfl
  · rw [get, if_pos h]
    rfl

/-- What a call that does not reach the server asks of the fallback. -/
def Call.onFallback : Call → DecisionCache.Call
  | .set key decision _ => .insertFor key decision none
  | .get key => .get key

theorem exec_unreachable (h : ev.reachable = false) :
    (exec c ev).fallback = c.fallback.exec ⟨ev.now, ev.call.onFallback, ev.iteration⟩ := by
  unfold exec DecisionCache.exec Call.onFallback
  cases ev.call with
  | set key decision policy => simp [set, reorder, h]
  | get key => simp [get, reorder, h]

/-- An entry of the server is new, or old and not written by the call. -/
theorem of_lookup_server {d : CachedDecision} {expiry : Nat}
    (h : (exec c ev).server.lookup key = some (d, expiry)) :
    (∃ w, ev.writes key = some w ∧ w.remote = true ∧ w.decision = d ∧
      expiry = w.now + w.policy.ttl) ∨
    ((∀ w, ev.writes key = some w → w.remote ≠ true) ∧
      c.server.lookup key = some (d, expiry)) := by
  unfold exec at h
  cases hcall : ev.call with
  | get key' =>
    refine .inr ⟨by simp [Event.writes, hcall], ?_⟩
    rw [hcall] at h
    dsimp only [get] at h
    split at h <;> exact h
  | set key' decision policy =>
    rw [hcall] at h
    dsimp only [set] at h
    split at h
    · next hreachable =>
      rcases of_lookup_insert h with ⟨rfl, heq⟩ | ⟨hne, h⟩
      · obtain ⟨rfl, rfl⟩ := Prod.mk.inj heq
        exact .inl ⟨⟨ev.now, ev.reachable, d, policy⟩, by simp [Event.writes, hcall],
          hreachable, rfl, rfl⟩
      · exact .inr ⟨by simp [Event.writes, hcall, hne.symm], h⟩
    · next hreachable =>
      refine .inr ⟨fun w hw => ?_, h⟩
      rw [← (Event.writes_eq_some_iff.1 hw).2.2]
      exact hreachable

theorem of_lookup_fallback {e : Entry} (h : (exec c ev).fallback.map.lookup key = some e) :
    (∃ w, ev.writes key = some w ∧ w.remote = false ∧ w.decision = e.decision ∧
      w.now = e.inserted) ∨
    ((∀ w, ev.writes key = some w → w.remote ≠ false) ∧
      ∃ e₀, c.fallback.map.lookup key = some e₀ ∧ e₀.decision = e.decision ∧
        e₀.inserted = e.inserted) := by
  cases hreachable : ev.reachable with
  | true =>
    rw [exec_reachable hreachable, DecisionCache.lookup_reorder] at h
    refine .inr ⟨fun w hw => ?_, e, h, rfl, rfl⟩
    rw [← (Event.writes_eq_some_iff.1 hw).2.2, hreachable]
    exact Bool.noConfusion
  | false =>
    rw [exec_unreachable hreachable] at h
    rcases DecisionCache.of_lookup_exec h with ⟨hcall, hinserted, -⟩ | ⟨hnot, e₀, he₀, rfl⟩
    · left
      cases hset : ev.call with
      | get key' => simp [hset, Call.onFallback] at hcall
      | set key' decision policy =>
        simp only [hset, Call.onFallback, DecisionCache.Call.insertFor.injEq] at hcall
        obtain ⟨rfl, rfl, -⟩ := hcall
        exact ⟨⟨ev.now, ev.reachable, e.decision, policy⟩,
          Event.writes_eq_some_iff.2 ⟨hset, rfl, rfl⟩, hreachable, rfl, hinserted.symm⟩
    · refine .inr ⟨fun w hw => ?_, e₀, he₀, ?_⟩
      · -- a write for the key would have put an end to the entry
        exact absurd (by simp [(Event.writes_eq_some_iff.1 hw).1, Call.onFallback,
          DecisionCache.Call.Ends]) hnot
      · split <;> exact ⟨rfl, rfl⟩

/-! ## What a run leaves -/

/-- Both stores hold what was written to them last. -/
structure Traced (es : List Event) (c : DragonflyClient) : Prop where
  server : ∀ key d expiry, c.server.lookup key = some (d, expiry) →
    ∃ w, latestTo true key es = some w ∧ w.decision = d ∧ expiry = w.now + w.policy.ttl
  fallback : ∀ key e, c.fallback.map.lookup key = some e →
    ∃ w, latestTo false key es = some w ∧ w.decision = e.decision ∧ w.now = e.inserted

theorem traced_new : Traced [] new where
  server _ _ _ h := absurd h (by simp [new])
  fallback _ _ h := absurd h (by simp [new, DecisionCache.new])

theorem Traced.concat (h : Traced es c) (ev : Event) : Traced (es ++ [ev]) (exec c ev) where
  server key d expiry he := by
    rcases of_lookup_server he with ⟨w, hw, hremote, hdecision, hexpiry⟩ | ⟨hother, he⟩
    · exact ⟨w, latestTo_concat_of_write hw hremote, hdecision, hexpiry⟩
    · rw [latestTo_concat_of_other hother]
      exact h.server key d expiry he
  fallback key e he := by
    rcases of_lookup_fallback he with ⟨w, hw, hremote, hdecision, hnow⟩ | ⟨hother, e₀, he₀, hd, hi⟩
    · exact ⟨w, latestTo_concat_of_write hw hremote, hdecision, hnow⟩
    · rw [latestTo_concat_of_other hother, ← hd, ← hi]
      exact h.fallback key e₀ he₀

theorem traced_run (es : List Event) : Traced es (run exec new es) := by
  induction es using List.reverseRecOn with
  | nil => exact traced_new
  | append_singleton es ev ih =>
    rw [run_concat]
    exact ih.concat ev

theorem ttl_le (policy : PolicyState) : ttl ≤ policy.ttl := by
  cases policy <;> decide

/-- An answer was written last to the store that gives it, and has not expired. -/
theorem Traced.of_answer (h : Traced es c) {d : CachedDecision} (hcall : ev.call = .get key)
    (hanswer : answer c ev = some d) : ∃ w, latestTo ev.reachable key es = some w ∧ w.decision = d ∧
      ev.now < w.now + w.policy.ttl := by
  simp only [answer, hcall] at hanswer
  cases hreachable : ev.reachable with
  | true =>
    simp only [hreachable] at hanswer
    obtain ⟨e, he, rfl⟩ := map_eq_some_iff.1 hanswer
    obtain ⟨he, hlt⟩ := filter_eq_some_iff.1 he
    obtain ⟨w, hw, hdecision, hexpiry⟩ := h.server key e.1 e.2 he
    exact ⟨w, hw, hdecision, hexpiry ▸ of_decide_eq_true hlt⟩
  | false =>
    rw [hreachable] at hanswer
    have hfallback : c.fallback.answer ⟨ev.now, .get key, ev.iteration⟩ = some d := hanswer
    obtain ⟨e, he, rfl, hvalid⟩ := DecisionCache.of_answer rfl hfallback
    obtain ⟨w, hw, hdecision, hnow⟩ := h.fallback key e he
    have hage : ev.now - e.inserted < ttl := of_decide_eq_true hvalid
    have hle := ttl_le w.policy
    exact ⟨w, hw, hdecision, by omega⟩

/-- **A read has the latest write to the store that answers it.** Whatever commands fail, a `get`
returns nothing, or the decision of the latest `set` for its key that went to the same store,
younger than its time to live. It is the latest of all if that one went to this store. -/
theorem get_latest_in_store (es : List Event) (ev : Event) (key : String)
    (hcall : ev.call = .get key) : answer (run exec new es) ev = none ∨
      ∃ w, latestTo ev.reachable key es = some w ∧
        answer (run exec new es) ev = some w.decision ∧ ev.now < w.now + w.policy.ttl ∧
        ∀ w', latest key es = some w' → w'.remote = ev.reachable → w' = w := by
  cases hanswer : answer (run exec new es) ev with
  | none => exact .inl rfl
  | some d =>
    obtain ⟨w, hw, rfl, hage⟩ := (traced_run es).of_answer hcall hanswer
    refine .inr ⟨w, hw, rfl, hage, fun w' hlatest hremote => ?_⟩
    have hw' := latestTo_of_latest hlatest
    rw [hremote, hw] at hw'
    exact (some.inj hw').symm

/-- A decision, told apart from others by its text. -/
def saying (decision : String) : CachedDecision := ⟨decision, false, none, none, 60⟩

/-- The server takes both writes, the later one is read. -/
theorem get_latest_in_store_twice :
    let es : List Event := [⟨0, true, .set "key" (saying "ALLOW") .static, .asStored⟩,
      ⟨1, true, .set "key" (saying "BLOCK") .static, .asStored⟩]
    let ev : Event := ⟨2, true, .get "key", .asStored⟩
    answer (run exec new es) ev = some (saying "BLOCK") ∧
      (answer (run exec new es) ev = none ∨
        ∃ w, latestTo ev.reachable "key" es = some w ∧
          answer (run exec new es) ev = some w.decision ∧ ev.now < w.now + w.policy.ttl ∧
          ∀ w', latest "key" es = some w' → w'.remote = ev.reachable → w' = w) :=
  ⟨by decide +kernel, get_latest_in_store _ _ "key" rfl⟩

/-- A write that misses the server leaves there what was before, and one that does not leaves it in
the fallback: either way a later read can return the older decision. -/
theorem older_write_resurfaces :
    let es (first : Bool) : List Event :=
      [⟨0, first, .set "key" (saying "ALLOW") .static, .asStored⟩,
        ⟨1, !first, .set "key" (saying "BLOCK") .static, .asStored⟩]
    (latest "key" (es true) = some ⟨1, false, saying "BLOCK", .static⟩ ∧
      answer (run exec new (es true)) ⟨2, true, .get "key", .asStored⟩ = some (saying "ALLOW")) ∧
    (latest "key" (es false) = some ⟨1, true, saying "BLOCK", .static⟩ ∧
      answer (run exec new (es false)) ⟨2, false, .get "key", .asStored⟩ =
        some (saying "ALLOW")) := by
  decide +kernel

end Haltchain.Cache.DragonflyClient

import Haltchain.Cache.DecisionCache

/-! # The remote cache

`DragonflyClient` of the cache crate: a server that keeps entries until they expire, and a
`DecisionCache` of the client's own for when a command fails. Whether it does comes with the
operation. The metrics are left out. -/

namespace Haltchain.Cache

/-- `TTL_STATIC`, an hour. -/
def ttlStatic : Nat := 3600 * 1000000000

/-- `TTL_DYNAMIC`, 30 seconds. -/
def ttlDynamic : Nat := 30 * 1000000000

/-- Decides the time to live. -/
inductive PolicyState where
  | static
  | dynamic
deriving DecidableEq

/-- The time to live of its decisions. -/
def PolicyState.ttl : PolicyState → Nat
  | .static => ttlStatic
  | .dynamic => ttlDynamic

/-- The server and the fallback. -/
structure DragonflyClient where
  /-- The entries of the server, with the times they expire. -/
  server : AList (fun _ : String => CachedDecision × Nat)
  fallback : DecisionCache

namespace DragonflyClient

/-- An empty server and fallback. -/
def new : DragonflyClient := ⟨∅, .new⟩

/-- Asks the server, or the fallback. -/
def get (c : DragonflyClient) (now : Nat) (reachable : Bool) (key : String) :
    Option CachedDecision × DragonflyClient :=
  if reachable then (((c.server.lookup key).filter fun e => now < e.2).map Prod.fst, c)
  else
    let (found, fallback) := c.fallback.get now key
    (found, { c with fallback := fallback })

/-- Tells the server, or the fallback. -/
def set (c : DragonflyClient) (now : Nat) (reachable : Bool) (key : String)
    (decision : CachedDecision) (policy : PolicyState) : DragonflyClient :=
  if reachable then { c with server := c.server.insert key (decision, now + policy.ttl) }
  else { c with fallback := c.fallback.insertFor now key decision none }

/-- Every key, with a time no more than a `TTL_DYNAMIC` before its entry expires, meets `P`. -/
structure SetAt (P : String → Nat → Prop) (c : DragonflyClient) : Prop where
  server : ∀ key d expiry, c.server.lookup key = some (d, expiry) →
    ∃ t, P key t ∧ expiry ≤ t + ttlDynamic
  fallback : DecisionCache.Inserted P c.fallback.map

variable {P Q : String → Nat → Prop} {c : DragonflyClient}

theorem setAt_new : SetAt P new where
  server key d expiry h := absurd h (by simp [new])
  fallback := DecisionCache.inserted_empty

theorem SetAt.mono (h : SetAt P c) (hPQ : ∀ key t, P key t → Q key t) : SetAt Q c where
  server key d expiry he := by
    obtain ⟨t, ht, hle⟩ := h.server key d expiry he
    exact ⟨t, hPQ key t ht, hle⟩
  fallback := h.fallback.mono hPQ

theorem SetAt.get (h : SetAt P c) (now : Nat) (reachable : Bool) (key : String) :
    SetAt P (c.get now reachable key).2 := by
  unfold DragonflyClient.get
  split
  · exact h
  · exact ⟨h.server, h.fallback.get now key⟩

theorem SetAt.set (h : SetAt P c) {now : Nat} {key : String} (hnow : P key now) (reachable : Bool)
    (decision : CachedDecision) : SetAt P (c.set now reachable key decision .dynamic) := by
  unfold DragonflyClient.set
  split
  · refine ⟨fun key' d expiry he => ?_, h.fallback⟩
    rcases Lib.of_lookup_insert he with ⟨rfl, heq⟩ | ⟨-, he⟩
    · obtain ⟨-, rfl⟩ := Prod.mk.inj heq
      exact ⟨now, hnow, le_rfl⟩
    · exact h.server key' d expiry he
  · exact ⟨h.server, h.fallback.insertFor hnow decision none⟩

/-- An answer is no older than a `TTL_DYNAMIC`. -/
theorem SetAt.of_hit (h : SetAt P c) {now : Nat} {reachable : Bool} {key : String}
    {d : CachedDecision} (hit : (c.get now reachable key).1 = some d) :
    ∃ t, P key t ∧ now < t + ttlDynamic := by
  unfold DragonflyClient.get at hit
  split at hit
  · obtain ⟨e, he, -⟩ := Option.map_eq_some_iff.1 hit
    obtain ⟨he, hlt⟩ := Option.filter_eq_some_iff.1 he
    obtain ⟨t, ht, hle⟩ := h.server key e.1 e.2 he
    rw [decide_eq_true_eq] at hlt
    exact ⟨t, ht, by omega⟩
  · exact h.fallback.of_hit hit

end DragonflyClient

end Haltchain.Cache

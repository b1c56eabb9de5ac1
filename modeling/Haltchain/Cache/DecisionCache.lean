import Mathlib.Algebra.Order.Ring.Rat
import Haltchain.Lib.Assoc
import Haltchain.Lib.SortByKey

/-! # The decision cache

`DecisionCache` of the cache crate: decisions under a digest of the request, each valid for `TTL`,
at most `MAX_ENTRIES`, removable by agent. Instants are in nanoseconds; an operation is given the
reading of the clock. -/

namespace Haltchain.Cache

open List

/-- The most entries. -/
def maxEntries : Nat := 10000

/-- `TTL`, 30 seconds. -/
def ttl : Nat := 30 * 1000000000

structure CachedDecision where
  decision : String
  circuitBreakerActive : Bool
  reason : Option String
  policy : Option String
  rateLimit : Nat
deriving DecidableEq

/-- A decision with its times. -/
structure Entry where
  decision : CachedDecision
  inserted : Nat
  lastAccessed : Nat
  agentId : Option String

/-- The entry has not expired. -/
def Entry.isValid (e : Entry) (now : Nat) : Bool := now - e.inserted < ttl

/-- The entries by key. -/
abbrev EntryMap := AList (fun _ : String => Entry)

/-- The cache with its counts. -/
structure DecisionCache where
  map : EntryMap
  hits : Nat
  misses : Nat

namespace DecisionCache

/-- The empty cache. -/
def new : DecisionCache := ⟨∅, 0, 0⟩

/-- The eight bytes of a 64-bit number, lowest first. -/
def toLeBytes (n : Nat) : List UInt8 := (range 8).map fun k => (n >>> (8 * k)).toUInt8

/-- What `make_key` hashes. A signed bucket enters in two's complement. -/
def keyBytes (agentId actionType : String) (amountBucket : Int) (actionCountBucket : Nat) :
    List UInt8 :=
  agentId.toUTF8.toList ++ "|".toUTF8.toList ++ actionType.toUTF8.toList ++ "|".toUTF8.toList ++
    toLeBytes (amountBucket % 2 ^ 64).toNat ++ "|".toUTF8.toList ++
    toLeBytes (actionCountBucket % 2 ^ 64)

/-- `digest` is SHA-256 in hexadecimal. -/
def makeKey (digest : List UInt8 → String) (agentId actionType : String) (amountBucket : Int)
    (actionCountBucket : Nat) : String :=
  digest (keyBytes agentId actionType amountBucket actionCountBucket)

/-- The cached decision, unless it has expired; then it is removed. -/
def get (c : DecisionCache) (now : Nat) (key : String) : Option CachedDecision × DecisionCache :=
  match c.map.lookup key with
  | some e =>
    if e.isValid now then
      (some e.decision,
        { c with map := c.map.insert key { e with lastAccessed := now }, hits := c.hits + 1 })
    else (none, { c with map := c.map.erase key, misses := c.misses + 1 })
  | none => (none, { c with misses := c.misses + 1 })

/-- `retain`: the entries that pass the test. -/
def retain (m : EntryMap) (p : Entry → Bool) : EntryMap :=
  ⟨m.entries.filter (fun e => p e.2), List.NodupKeys.sublist filter_sublist m.nodupKeys⟩

/-- Expired entries go first; if still full, the tenth not read for longest. -/
def evict (m : EntryMap) (now : Nat) : EntryMap :=
  let m := retain m (fun e => e.isValid now)
  if maxEntries ≤ m.entries.length then
    let byAge := m.entries.mergeSort (fun a b => a.2.lastAccessed ≤ b.2.lastAccessed)
    (byAge.take (max (maxEntries / 10) 1)).foldl (fun m e => m.erase e.1) m
  else m

def insertFor (c : DecisionCache) (now : Nat) (key : String) (decision : CachedDecision)
    (agentId : Option String) : DecisionCache :=
  { c with map := (evict c.map now).insert key ⟨decision, now, now, agentId⟩ }

/-- Removes the entries of the agent; an empty id means all agents. -/
def invalidateAgent (c : DecisionCache) (agentId : String) : DecisionCache :=
  if agentId = "" then { c with map := ∅ }
  else { c with map := retain c.map (fun e => decide (e.agentId ≠ some agentId)) }

/-! ## What is left after a removal -/

section

variable {m : EntryMap} {now : Nat} {key key' : String} {e e' : Entry}

theorem lookup_retain_iff (p : Entry → Bool) :
    (retain m p).lookup key = some e ↔ m.lookup key = some e ∧ p e = true :=
  Lib.lookup_keepValues_iff p

/-- The entries a full cache loses: those not accessed for longest. -/
def oldest (m : EntryMap) : List (Sigma fun _ : String => Entry) :=
  Lib.smallest (fun a => a.2.lastAccessed) m.entries (max (maxEntries / 10) 1)

theorem evict_eq (m : EntryMap) (now : Nat) : evict m now =
      if maxEntries ≤ (retain m (fun e => e.isValid now)).entries.length then
        (oldest (retain m (fun e => e.isValid now))).foldl (fun m e => m.erase e.1)
          (retain m (fun e => e.isValid now))
      else retain m (fun e => e.isValid now) := rfl

theorem of_lookup_evict (h : (evict m now).lookup key = some e) :
    m.lookup key = some e ∧ e.isValid now = true := by
  rw [evict_eq] at h
  split at h
  · rw [Lib.lookup_foldl_erase] at h
    split at h
    · cases h
    · exact (lookup_retain_iff _).1 h
  · exact (lookup_retain_iff _).1 h

/-- **The least recently accessed go first.** An unexpired entry that is evicted was accessed no
later than any that is left. -/
theorem lastAccessed_le_of_evict (hfound : m.lookup key = some e) (hvalid : e.isValid now = true)
    (hgone : (evict m now).lookup key = none) (hleft : (evict m now).lookup key' = some e') :
    e.lastAccessed ≤ e'.lastAccessed := by
  have hkept := (lookup_retain_iff fun e => e.isValid now).2 ⟨hfound, hvalid⟩
  rw [evict_eq] at hgone hleft
  split at hgone
  · next hfull =>
    rw [if_pos hfull, Lib.lookup_foldl_erase] at hleft
    rw [Lib.lookup_foldl_erase] at hgone
    split at hleft
    · cases hleft
    · next hnot =>
      split at hgone
      · next hold =>
        obtain ⟨⟨key, f⟩, hmem, rfl⟩ := mem_map.1 hold
        have hf : f ∈ (retain m _).lookup key :=
          AList.mem_lookup_iff.2 (Lib.mem_of_mem_smallest hmem)
        obtain rfl : f = e := Option.some.inj (hf.symm.trans hkept)
        have hlater := Lib.key_le_of_mem_smallest hmem (AList.mem_lookup_iff.1 hleft)
          (fun h => hnot (mem_map_of_mem h))
        exact hlater
      · rw [hkept] at hgone
        cases hgone
  · rw [hkept] at hgone
    cases hgone

theorem length_retain_le (m : EntryMap) (p : Entry → Bool) :
    (retain m p).entries.length ≤ m.entries.length :=
  length_filter_le ..

/-- An eviction makes room for an entry. -/
theorem length_evict_lt (h : m.entries.length ≤ maxEntries) (now : Nat) :
    (evict m now).entries.length < maxEntries := by
  have hretain := (length_retain_le m fun e => e.isValid now).trans h
  rw [evict_eq]
  split
  · cases hold : oldest (retain m fun e => e.isValid now) with
    | nil =>
      have hlength := congrArg length hold
      rw [oldest, Lib.length_smallest, length_nil] at hlength
      have hpos : 0 < maxEntries := by decide
      omega
    | cons a l =>
      have hmem : a ∈ oldest (retain m fun e => e.isValid now) := hold ▸ mem_cons_self
      refine (Lib.length_foldl_erase_le Sigma.fst l _).trans_lt ?_
      refine (Lib.length_erase_lt (v := a.2) ?_).trans_le hretain
      exact AList.mem_lookup_iff.2 (Lib.mem_of_mem_smallest hmem)
  · next hroom => exact not_le.1 hroom

end

/-! ## When the entries were inserted

Reading, evicting and invalidating entries inserts none, so a fact about the key and the time of
every insertion is kept. -/

/-- The key and the time of insertion of every entry meet `P`. -/
def Inserted (P : String → Nat → Prop) (m : EntryMap) : Prop :=
  ∀ key e, m.lookup key = some e → P key e.inserted

section

variable {P Q : String → Nat → Prop} {m : EntryMap} {c : DecisionCache}

theorem inserted_empty : Inserted P ∅ := by
  intro key e h
  simp at h

theorem Inserted.mono (h : Inserted P m) (hPQ : ∀ key t, P key t → Q key t) : Inserted Q m :=
  fun key e he => hPQ key e.inserted (h key e he)

theorem Inserted.retain (h : Inserted P m) (p : Entry → Bool) : Inserted P (retain m p) := by
  intro key e he
  exact h key e ((lookup_retain_iff p).1 he).1

theorem Inserted.erase (h : Inserted P m) (key : String) : Inserted P (m.erase key) := by
  intro key' e he
  exact h key' e (Lib.of_lookup_erase he)

theorem Inserted.insert (h : Inserted P m) {key : String} {e : Entry} (he : P key e.inserted) :
    Inserted P (m.insert key e) := by
  intro key' e' he'
  rcases Lib.of_lookup_insert he' with ⟨rfl, rfl⟩ | ⟨-, he'⟩
  · exact he
  · exact h key' e' he'

theorem Inserted.evict (h : Inserted P m) (now : Nat) : Inserted P (evict m now) :=
  fun key e he => h key e (of_lookup_evict he).1

theorem Inserted.insertFor (h : Inserted P c.map) {now : Nat} {key : String} (hnow : P key now)
    (decision : CachedDecision) (agentId : Option String) :
    Inserted P (c.insertFor now key decision agentId).map :=
  (h.evict now).insert hnow

theorem Inserted.invalidateAgent (h : Inserted P c.map) (agentId : String) :
    Inserted P (c.invalidateAgent agentId).map := by
  unfold DecisionCache.invalidateAgent
  split
  · exact inserted_empty
  · exact h.retain _

theorem Inserted.get (h : Inserted P c.map) (now : Nat) (key : String) :
    Inserted P (c.get now key).2.map := by
  unfold DecisionCache.get
  split
  · next e he =>
    split
    · exact h.insert (h key e he)
    · exact h.erase key
  · exact h

/-- A hit was inserted less than the time to live ago. -/
theorem Inserted.of_hit (h : Inserted P c.map) {now : Nat} {key : String} {d : CachedDecision}
    (hit : (c.get now key).1 = some d) : ∃ t, P key t ∧ now < t + ttl := by
  unfold DecisionCache.get at hit
  split at hit
  · next e he =>
    split at hit
    · next hvalid =>
      refine ⟨e.inserted, h key e he, ?_⟩
      rw [Entry.isValid, decide_eq_true_eq] at hvalid
      omega
    · simp at hit
  · simp at hit

end

end DecisionCache

end Haltchain.Cache

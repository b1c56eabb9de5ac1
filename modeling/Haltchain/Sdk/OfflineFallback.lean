import Haltchain.Sdk.PythonClient

/-! # Answers without the server

When the server cannot be reached the Python client answers from its cache, if it has a fresh entry
for the agent and the action. The metadata and the session of a request are not in the key. -/

namespace Haltchain.Sdk

open Lib List Option
open Validator (Value)

variable {κ A K M : Type} [DecidableEq K]

/-- A new client. Without a time to live there is no cache. -/
def Client.new (agentId : String) (verifySignatures strictSignatures trustOnRotation : Bool)
    (pinnedKeyId : Value) (cacheTtl : Int) (cacheMaxSize : Int) : Client κ K where
  agentId := agentId
  verifySignatures := verifySignatures
  strictSignatures := strictSignatures
  trustOnRotation := trustOnRotation
  trustedKeyId := pinnedKeyId
  verifier := none
  cache := if cacheTtl ≤ 0 then none else some ⟨cacheTtl, cacheMaxSize, []⟩

/-- `result.get("decision", "DENY")`. -/
def decisionOf (result : Value) : Value := (result.get "decision").getD (.string "DENY")

/-- A response of the server that was returned to the caller. -/
def success (r : Runtime κ A K) (c : Client κ K) (call : Call A M) : Option (Call A M × Value) :=
  match (c.postValidate r call).1 with
  | .returned result => some (call, result)
  | _ => none

/-- The responses returned in a run. -/
def successes (r : Runtime κ A K) (c : Client κ K) (calls : List (Call A M)) :
    List (Call A M × Value) :=
  outputs (fun c call => (Client.postValidate r c call).2) (success r) c calls

/-! ## One call -/

section

variable {cache : PolicyCache K} {now : Int} {key : Option K} {k : K} {entry e : CachedDecision}

theorem PolicyCache.get_eq_some (h : (cache.get now key).1 = some entry) :
    ∃ k, key = some k ∧ (k, entry) ∈ cache.store ∧ now - entry.cachedAt < cache.ttl := by
  unfold PolicyCache.get at h
  cases key with
  | none => cases h
  | some k =>
    dsimp only at h
    split at h
    · cases h
    · next k' entry' hfind =>
      split at h
      · next hfresh =>
        cases h
        obtain rfl : k' = k := by simpa using find?_some hfind
        exact ⟨k', rfl, mem_of_find?_eq_some hfind, hfresh⟩
      · cases h

theorem PolicyCache.get_store (cache : PolicyCache K) (now : Int) (key : Option K) :
    (cache.get now key).2.ttl = cache.ttl ∧
      ∀ e ∈ (cache.get now key).2.store, e ∈ cache.store := by
  unfold PolicyCache.get
  cases key with
  | none => exact ⟨rfl, fun _ h => h⟩
  | some k =>
    dsimp only
    split
    · exact ⟨rfl, fun _ h => h⟩
    · next k' entry hfind =>
      obtain rfl : k' = k := by simpa using find?_some hfind
      have hmem := mem_of_find?_eq_some hfind
      split
      · refine ⟨rfl, fun e h => ?_⟩
        rcases mem_append.1 h with h | h
        · exact mem_of_mem_filter h
        · rwa [mem_singleton.1 h]
      · exact ⟨rfl, fun e h => mem_of_mem_filter h⟩

theorem PolicyCache.mem_put (h : (k, e) ∈ (cache.put key entry).store) :
    (key = some k ∧ e = entry) ∨ (key ≠ some k ∧ (k, e) ∈ cache.store) := by
  cases key with
  | none => exact .inr ⟨by simp, h⟩
  | some k' =>
    rcases mem_append.1 (mem_of_mem_drop h) with h | h
    · obtain ⟨hmem, hne⟩ := mem_filter.1 h
      have hne : k ≠ k' := of_decide_eq_true hne
      exact .inr ⟨fun heq => hne (some.inj heq).symm, hmem⟩
    · obtain ⟨rfl, rfl⟩ := Prod.mk.inj (mem_singleton.1 h)
      exact .inl ⟨rfl, rfl⟩

end

variable {c' : Client κ K}

section

variable {r : Runtime κ A K} {c : Client κ K}

omit [DecidableEq K] in
theorem applyKeyTrust_frame {fetched : Value} (h : c.applyKeyTrust r fetched = some c') :
    c'.cache = c.cache ∧ c'.agentId = c.agentId := by
  unfold Client.applyKeyTrust at h
  split at h
  · cases h
    exact ⟨rfl, rfl⟩
  split at h
  · cases h
    exact ⟨rfl, rfl⟩
  split at h
  · cases h
  · cases h
    exact ⟨rfl, rfl⟩

omit [DecidableEq K] in
theorem getVerifier_frame (document : Option Value) : (c.getVerifier r document).2.cache = c.cache ∧
      (c.getVerifier r document).2.agentId = c.agentId := by
  unfold Client.getVerifier
  split
  · exact ⟨rfl, rfl⟩
  dsimp only
  split
  · split
    · exact ⟨rfl, rfl⟩
    · next c' htrust =>
      have hframe := applyKeyTrust_frame htrust
      split
      · exact hframe
      · exact hframe
  · exact ⟨rfl, rfl⟩

omit [DecidableEq K] in
theorem verified_frame (call : Call A M) (result : Value) :
    (c.verified r call result).2.cache = c.cache ∧
      (c.verified r call result).2.agentId = c.agentId := by
  have hframe : (c.getVerifier r call.keyDocument).2.cache = c.cache ∧
      (c.getVerifier r call.keyDocument).2.agentId = c.agentId := getVerifier_frame _
  unfold Client.verified
  split
  · exact ⟨rfl, rfl⟩
  cases hget : c.getVerifier r call.keyDocument with
  | mk found c' =>
    rw [hget] at hframe
    cases found with
    | none => exact hframe
    | some v => cases v <;> exact hframe

/-- The same client, but for entries gone from its cache. -/
structure Shrinks (c c' : Client κ K) : Prop where
  agentId : c'.agentId = c.agentId
  cache : ∀ cache', c'.cache = some cache' → ∃ cache, c.cache = some cache ∧
    cache'.ttl = cache.ttl ∧ ∀ e ∈ cache'.store, e ∈ cache.store

omit [DecidableEq K] in
theorem Shrinks.of_eq (hcache : c'.cache = c.cache) (hagent : c'.agentId = c.agentId) :
    Shrinks c c' :=
  ⟨hagent, fun cache' h => ⟨cache', hcache.symm.trans h, rfl, fun _ he => he⟩⟩

theorem shrinks_offlineFallback (call : Call A M) : Shrinks c (c.offlineFallback r call).2 ∧
      ∀ result, (c.offlineFallback r call).1 ≠ .returned result := by
  unfold Client.offlineFallback
  cases hcache : c.cache with
  | none => exact ⟨.of_eq rfl rfl, by simp⟩
  | some cache =>
    have hget := cache.get_store call.now (r.keyFor c.agentId call.action)
    dsimp only
    cases hfound : cache.get call.now (r.keyFor c.agentId call.action) with
    | mk found cache' =>
      rw [hfound] at hget
      have hshrinks : Shrinks c { c with cache := some cache' } :=
        ⟨rfl, by rintro _ ⟨⟩; exact ⟨cache, hcache, hget⟩⟩
      cases found with
      | none | some entry => exact ⟨hshrinks, by simp⟩

/-- **One call**: a response is returned and remembered, or nothing is put into the cache. -/
theorem postValidate_cases (r : Runtime κ A K) (c : Client κ K) (call : Call A M) :
    (∃ result, call.reply = .body (some result) ∧
        (c.postValidate r call).1 = .returned result ∧
        (c.postValidate r call).2 = (c.verified r call result).2.remember r call result) ∨
      ((∀ result, (c.postValidate r call).1 ≠ .returned result) ∧
        Shrinks c (c.postValidate r call).2) := by
  unfold Client.postValidate
  cases call.reply with
  | requestError => exact .inr (shrinks_offlineFallback call).symm
  | statusError => exact .inr ⟨by simp, .of_eq rfl rfl⟩
  | body result =>
    cases result with
    | none => exact .inr ⟨by simp, .of_eq rfl rfl⟩
    | some result =>
      have hframe : (c.verified r call result).2.cache = c.cache ∧
          (c.verified r call result).2.agentId = c.agentId := verified_frame call result
      dsimp only
      cases hverified : c.verified r call result with
      | mk ok c' =>
        rw [hverified] at hframe
        cases ok with
        | false => exact .inr ⟨by simp, .of_eq hframe.1 hframe.2⟩
        | true => exact .inl ⟨result, rfl, rfl, by rw [hverified]⟩

/-- The entry for a response. -/
def entryOf (call : Call A M) (result : Value) : CachedDecision :=
  ⟨decisionOf result, getText result "reason", getText result "policy", call.now⟩

theorem remember_object (call : Call A M) (fields : List (String × Value)) :
    (c.remember r call (.object fields)).agentId = c.agentId ∧
      (c.remember r call (.object fields)).cache =
        c.cache.map (·.put (r.keyFor c.agentId call.action) (entryOf call (.object fields))) := by
  unfold Client.remember
  cases hcache : c.cache with
  | none => exact ⟨rfl, hcache⟩
  | some cache => exact ⟨rfl, rfl⟩

end

/-! ## What the cache has after a run -/

variable {c : Client κ K}

section

variable (r : Runtime κ A K) {agentId : String} {ttl : Int} {c₀ : Client κ K}

/-- The last response returned for the action of this key. -/
def lastFor (agentId : String) (k : K) (responses : List (Call A M × Value)) :
    Option (Call A M × Value) :=
  (responses.filter fun s => r.keyFor agentId s.1.action = some k).getLast?

/-- Every entry of the cache is the last response to its action. -/
structure Current (agentId : String) (ttl : Int) (responses : List (Call A M × Value))
    (c : Client κ K) : Prop where
  agent : c.agentId = agentId
  entries : ∀ cache, c.cache = some cache → cache.ttl = ttl ∧
    ∀ k e, (k, e) ∈ cache.store → ∃ s, lastFor r agentId k responses = some s ∧
      e = entryOf s.1 s.2

variable {r}

section

variable {responses : List (Call A M × Value)} (h : Current r agentId ttl responses c)

include h

theorem Current.shrink (hshrinks : Shrinks c c') : Current r agentId ttl responses c' where
  agent := hshrinks.agentId.trans h.agent
  entries cache' hcache' := by
    obtain ⟨cache, hcache, httl, hsub⟩ := hshrinks.cache cache' hcache'
    obtain ⟨httl', hentries⟩ := h.entries cache hcache
    exact ⟨httl.trans httl', fun k e he => hentries k e (hsub _ he)⟩

/-- A response put into the cache takes the place of the one before. -/
theorem Current.put (call : Call A M) (result : Value) (hagent : c'.agentId = c.agentId)
    (hcache : c'.cache = c.cache.map
      (·.put (r.keyFor c.agentId call.action) (entryOf call result))) :
    Current r agentId ttl (responses ++ [(call, result)]) c' where
  agent := hagent.trans h.agent
  entries cache' hcache' := by
    obtain ⟨cache, hold, rfl⟩ := map_eq_some_iff.1 (hcache.symm.trans hcache')
    obtain ⟨httl, hentries⟩ := h.entries cache hold
    rw [h.agent]
    refine ⟨?_, fun k e he => ?_⟩
    · rw [← httl]
      unfold PolicyCache.put
      split <;> rfl
    · unfold lastFor
      rw [filter_append]
      rcases PolicyCache.mem_put he with ⟨hkey, rfl⟩ | ⟨hkey, hmem⟩
      · exact ⟨(call, result), by simp [hkey], rfl⟩
      · obtain ⟨s, hlast, rfl⟩ := hentries k e hmem
        refine ⟨s, ?_, rfl⟩
        rw [filter_cons_of_neg (by simpa using hkey), filter_nil, append_nil]
        exact hlast

end

/-- Every response of the server is an object. -/
def AnswersObjects (calls : List (Call A M)) : Prop :=
  ∀ call ∈ calls, ∀ result, call.reply = .body (some result) → ∃ fields, result = .object fields

/-- **All calls.** -/
theorem current_after (hinit : Current r agentId ttl ([] : List (Call A M × Value)) c₀)
    (calls : List (Call A M)) (hobjects : AnswersObjects calls) :
    Current r agentId ttl (successes r c₀ calls) (c₀.after r calls) := by
  induction calls using reverseRecOn with
  | nil => exact hinit
  | append_singleton calls call ih =>
    have hcurrent := ih fun call' hmem => hobjects call' (mem_append_left _ hmem)
    rw [successes, outputs_concat, Client.after, run_concat, ← Client.after]
    rcases postValidate_cases r (c₀.after r calls) call with ⟨result, hreply, hreturned, hstate⟩ |
      ⟨hnone, hshrinks⟩
    · obtain ⟨fields, rfl⟩ := hobjects call (by simp) result hreply
      have hsuccess : success r (c₀.after r calls) call = some (call, .object fields) := by
        rw [success, hreturned]
      obtain ⟨hcache, hagent⟩ := verified_frame (r := r) (c := c₀.after r calls) call
        (.object fields)
      have hremember := remember_object (r := r)
        (c := ((c₀.after r calls).verified r call (.object fields)).2) call fields
      rw [hcache, hagent, ← hstate] at hremember
      rw [hsuccess]
      exact hcurrent.put call _ hremember.1 hremember.2
    · have hsuccess : success r (c₀.after r calls) call = none := by
        unfold success
        split
        · next result hreturned => exact absurd hreturned (hnone result)
        · rfl
      rw [hsuccess, toList_none, append_nil]
      exact hcurrent.shrink hshrinks

end

/-! ## Offline answers -/

/-- The other call asks for the same: action, metadata and session. -/
def SameRequest (call call' : Call A M) : Prop :=
  call'.action = call.action ∧ call'.metadata = call.metadata ∧ call'.sessionId = call.sessionId

instance [DecidableEq A] [DecidableEq M] (call call' : Call A M) :
    Decidable (SameRequest call call') := inferInstanceAs (Decidable (_ ∧ _ ∧ _))

theorem mem_of_mem_successes {r : Runtime κ A K} {calls : List (Call A M)} {s : Call A M × Value}
    (h : s ∈ successes r c calls) : s.1 ∈ calls := by
  obtain ⟨before, call, rest, rfl, hsuccess⟩ := exists_of_mem_outputs _ _ h
  unfold success at hsuccess
  split at hsuccess
  · cases hsuccess
    simp
  · cases hsuccess

/-- An offline answer is an entry of the cache that is still fresh. -/
theorem postValidate_eq_cached {r : Runtime κ A K} {call : Call A M} {entry : CachedDecision}
    (h : (c.postValidate r call).1 = .cached entry) :
    ∃ cache k, c.cache = some cache ∧ r.keyFor c.agentId call.action = some k ∧
      (k, entry) ∈ cache.store ∧ call.now - entry.cachedAt < cache.ttl := by
  unfold Client.postValidate at h
  cases hreply : call.reply with
  | statusError =>
    rw [hreply] at h
    cases h
  | body result =>
    rw [hreply] at h
    cases result with
    | none => cases h
    | some result =>
      dsimp only at h
      split at h <;> cases h
  | requestError =>
    rw [hreply] at h
    dsimp only [Client.offlineFallback] at h
    cases hcache : c.cache with
    | none =>
      rw [hcache] at h
      cases h
    | some cache =>
      rw [hcache] at h
      dsimp only at h
      cases hget : cache.get call.now (r.keyFor c.agentId call.action) with
      | mk found cache' =>
        rw [hget] at h
        cases found with
        | none => cases h
        | some found =>
          cases h
          have hfound : (cache.get call.now (r.keyFor c.agentId call.action)).1 =
              some entry := by rw [hget]
          obtain ⟨k, hkey, hmem, hfresh⟩ := PolicyCache.get_eq_some hfound
          exact ⟨cache, k, rfl, hkey, hmem, hfresh⟩

/-- **Offline answers are current**, if the calls for an action differ in nothing else: an `ALLOW`
from the cache was the last response to the same request, within the time to live. -/
theorem offline_allow_current [DecidableEq A] [DecidableEq M] (r : Runtime κ A K)
    (hinj : ∀ agentId x y k, r.keyFor agentId x = some k → r.keyFor agentId y = some k → x = y)
    (agentId : String) (verifySignatures strictSignatures trustOnRotation : Bool)
    (pinnedKeyId : Value) (ttl : Int) (maxSize : Int) (calls : List (Call A M)) (call : Call A M)
    (hobjects : AnswersObjects calls) (hsame : ∀ call' ∈ calls, call'.action = call.action →
      call'.metadata = call.metadata ∧ call'.sessionId = call.sessionId) (entry : CachedDecision) :
    let c₀ : Client κ K :=
      .new agentId verifySignatures strictSignatures trustOnRotation pinnedKeyId ttl maxSize
    ((c₀.after r calls).postValidate r call).1 = .cached entry →
      entry.decision = .string "ALLOW" →
        ∃ s, ((successes r c₀ calls).filter fun s => SameRequest call s.1).getLast? = some s ∧
          decisionOf s.2 = .string "ALLOW" ∧ call.now - s.1.now < ttl := by
  intro c₀ hcached hallow
  have hinit : Current r agentId ttl ([] : List (Call A M × Value)) c₀ := by
    refine ⟨rfl, fun cache hcache => ?_⟩
    change (if ttl ≤ 0 then none else some _) = some cache at hcache
    split at hcache
    · cases hcache
    · cases hcache
      exact ⟨rfl, fun k e he => absurd he not_mem_nil⟩
  have hcurrent := current_after hinit calls hobjects
  obtain ⟨cache, k, hcache, hkey, hmem, hfresh⟩ := postValidate_eq_cached hcached
  rw [hcurrent.agent] at hkey
  obtain ⟨httl, hentries⟩ := hcurrent.entries cache hcache
  obtain ⟨s, hlast, rfl⟩ := hentries k entry hmem
  -- the responses for this key are those to the same request
  have hfilter : (successes r c₀ calls).filter (fun s => SameRequest call s.1) =
      (successes r c₀ calls).filter fun s => r.keyFor agentId s.1.action = some k := by
    refine filter_congr fun s hs => ?_
    have hiff : SameRequest call s.1 ↔ r.keyFor agentId s.1.action = some k := by
      constructor
      · intro h
        rw [h.1, hkey]
      · intro h
        have haction := hinj agentId _ _ k h hkey
        exact ⟨haction, hsame s.1 (mem_of_mem_successes hs) haction⟩
    simp only [hiff]
  rw [httl] at hfresh
  exact ⟨s, hfilter ▸ hlast, hallow, hfresh⟩

/-- A call that the server answers, with nothing but the decision. -/
def answeredCall (action : Bool) (metadata : Nat) (decision : String) (now : Int) : Call Bool Nat :=
  ⟨action, metadata, none, .body (some (.object [("decision", .string decision)])), none, now, now⟩

/-- A call that does not reach the server. -/
def offlineCall (metadata : Nat) (now : Int) : Call Bool Nat :=
  ⟨true, metadata, none, .requestError, none, now, now⟩

/-- A client that verifies no signatures, its cache living for a minute. -/
def plainClient : Client (List UInt8) Bool :=
  .new "bot" false false false .null 60000000000 10

/-- One action is allowed, then another denied. Offline the first is still allowed. -/
theorem offline_allow_current_once :
    let calls := [answeredCall true 0 "ALLOW" 0, answeredCall false 0 "DENY" 1]
    ∃ s, ((successes toyRuntime plainClient calls).filter
        fun s => SameRequest (offlineCall 0 2) s.1).getLast? = some s ∧
      decisionOf s.2 = .string "ALLOW" ∧ (offlineCall 0 2).now - s.1.now < 60000000000 := by
  intro calls
  have hinj : ∀ agentId x y k, toyRuntime.keyFor agentId x = some k →
      toyRuntime.keyFor agentId y = some k → x = y := by
    rintro _ x y k ⟨⟩ ⟨⟩
    rfl
  refine offline_allow_current toyRuntime hinj "bot" false false false .null 60000000000 10 calls
    (offlineCall 0 2) ?_ ?_ ⟨.string "ALLOW", .string "", .string "", 0⟩ rfl rfl
  · intro call hmem result hreply
    rcases mem_pair.1 hmem with rfl | rfl
    all_goals
      cases hreply
      exact ⟨_, rfl⟩
  · intro call hmem _
    rcases mem_pair.1 hmem with rfl | rfl
    all_goals exact ⟨rfl, rfl⟩

/-- An action is denied with one kind of metadata and allowed with another. Offline the first is
allowed. -/
theorem other_metadata_allows_offline :
    let calls := [answeredCall true 1 "DENY" 0, answeredCall true 0 "ALLOW" 1]
    ((plainClient.after toyRuntime calls).postValidate toyRuntime (offlineCall 1 2)).1 =
        .cached ⟨.string "ALLOW", .string "", .string "", 1⟩ ∧
      (((successes toyRuntime plainClient calls).filter
        fun s => SameRequest (offlineCall 1 2) s.1).getLast?).map (fun s => decisionOf s.2) =
          some (.string "DENY") := by
  exact ⟨rfl, rfl⟩

end Haltchain.Sdk

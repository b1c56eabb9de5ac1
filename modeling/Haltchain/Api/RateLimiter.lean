import Haltchain.Api.TokenBucket
import Haltchain.Lib.Assoc

/-! # The rate limiter

`RateLimiter` of `crates/api/src/auth.rs`: one bucket for all requests, and one for each address,
API key and agent seen. A request asks for a token in each layer, up to the first that has none. A
check reads the clock once. -/

namespace Haltchain.Api

open List Option

open Consensus (Overflow)

/-- The window of the limits. -/
def rateLimitWindowSecs : Nat := 60

/-- The limit of an address. -/
def maxRequestsPerIp : Nat := 100

/-- The limit of an API key. -/
def maxRequestsPerApiKey : Nat := 1000

/-- The limit of an agent. -/
def maxRequestsPerAgent : Nat := 500

/-- The limit of all requests. -/
def globalRateLimit : Nat := 10000

/-- The layer that rejects. -/
inductive RateLimitError where
  | global
  | ip
  | key
  | agent

/-! ## The buckets of a layer -/

/-- A bucket with the limit of its layer, refilled by a sixtieth of it each second. -/
structure LayerBucket (limit : Nat) extends TokenBucket where
  capacity_eq : capacity = limit
  refillRate_eq : refillRate = limit / 60

namespace LayerBucket

variable {limit : Nat}

def new (limit now : Nat) : LayerBucket limit := ⟨.new now limit (limit / 60), rfl, rfl⟩

def consume (ov : Overflow) (b : LayerBucket limit) (now amount : Nat) :
    Option (LayerBucket limit × Bool) :=
  match h : b.toTokenBucket.consume ov now amount with
  | none => none
  | some (b', ok) =>
    let kept := TokenBucket.of_consume h
    some (⟨b', kept.2.1.trans b.capacity_eq, kept.2.2.1.trans b.refillRate_eq⟩, ok)

theorem map_consume (ov : Overflow) (b : LayerBucket limit) (now amount : Nat) :
    (b.consume ov now amount).map (fun r => (r.1.toTokenBucket, r.2)) =
      b.toTokenBucket.consume ov now amount := by
  unfold consume
  split
  · next h => exact h.symm
  · next h => exact h.symm

theorem consume_cases (ov : Overflow) (b : LayerBucket limit) (now amount : Nat) :
    (b.consume ov now amount = none ∧ b.toTokenBucket.consume ov now amount = none) ∨
      ∃ b' ok, b.consume ov now amount = some (b', ok) ∧
        b.toTokenBucket.consume ov now amount = some (b'.toTokenBucket, ok) := by
  have hmap := b.map_consume ov now amount
  cases hconsume : b.consume ov now amount with
  | none =>
    rw [hconsume] at hmap
    exact .inl ⟨rfl, hmap.symm⟩
  | some r =>
    rw [hconsume] at hmap
    exact .inr ⟨r.1, r.2, rfl, hmap.symm⟩

end LayerBucket

/-- The buckets of a layer. -/
abbrev Buckets (limit : Nat) := AList fun _ : String => LayerBucket limit

namespace Buckets

variable {limit : Nat}

/-- `entry(..).or_insert_with(..)` and one token of the bucket. -/
def consume (ov : Overflow) (buckets : Buckets limit) (now : Nat) (name : String) :
    Option (Buckets limit × Bool) :=
  (((buckets.lookup name).getD (.new limit now)).consume ov now 1).map fun r =>
    (buckets.insert name r.1, r.2)

/-- Drops the buckets that were not asked for two windows. -/
def cleanup (buckets : Buckets limit) (now : Nat) : Buckets limit :=
  Lib.keepValues (fun b => now < b.lastUpdate + rateLimitWindowSecs * 2 * 10 ^ 9) buckets

/-- The bucket under a name. -/
def find (buckets : Buckets limit) (name : String) : Option TokenBucket :=
  (buckets.lookup name).map (·.toTokenBucket)

theorem find_made {buckets : Buckets limit} {name : String} {b : TokenBucket}
    (h : buckets.find name = some b) : b.capacity = limit ∧ b.refillRate = limit / 60 := by
  obtain ⟨b, -, rfl⟩ := map_eq_some_iff.1 h
  exact ⟨b.capacity_eq, b.refillRate_eq⟩

theorem consume_cases (ov : Overflow) (buckets : Buckets limit) (now : Nat) (name : String) :
    let b := (buckets.find name).getD (.new now limit (limit / 60))
    (buckets.consume ov now name = none ∧ b.consume ov now 1 = none) ∨
      ∃ buckets' b' ok, buckets.consume ov now name = some (buckets', ok) ∧
        b.consume ov now 1 = some (b', ok) ∧
        ∀ name', buckets'.find name' = if name' = name then some b' else buckets.find name' := by
  intro b
  have hb : b = ((buckets.lookup name).getD (.new limit now)).toTokenBucket := by
    show Option.getD (Option.map _ _) _ = _
    cases buckets.lookup name <;> rfl
  rw [hb, consume]
  rcases LayerBucket.consume_cases ov ((buckets.lookup name).getD (.new limit now)) now 1 with
    ⟨hnone, hnone'⟩ | ⟨b', ok, hsome, hsome'⟩
  · exact .inl ⟨by rw [hnone]; rfl, hnone'⟩
  · refine .inr ⟨buckets.insert name b', b'.toTokenBucket, ok, by rw [hsome]; rfl, hsome', ?_⟩
    intro name'
    rw [find, Lib.lookup_insert_eq]
    split <;> rfl

/-- A bucket that is dropped was not asked for two windows. -/
theorem find_cleanup (buckets : Buckets limit) (now : Nat) (name : String) :
    (buckets.cleanup now).find name = buckets.find name ∨
      (buckets.cleanup now).find name = none ∧ ∃ b, buckets.find name = some b ∧
        b.lastUpdate + rateLimitWindowSecs * 2 * 10 ^ 9 ≤ now := by
  rw [find, find, cleanup, Lib.lookup_keepValues]
  cases buckets.lookup name with
  | none => exact .inl rfl
  | some b =>
    by_cases hyoung : now < b.lastUpdate + rateLimitWindowSecs * 2 * 10 ^ 9
    · exact .inl (by rw [filter_some, if_pos (decide_eq_true hyoung)])
    · refine .inr ⟨?_, b.toTokenBucket, rfl, not_lt.1 hyoung⟩
      rw [filter_some, if_neg (by simpa using hyoung)]
      rfl

end Buckets

/-- The buckets of all layers. -/
structure RateLimiter where
  ipBuckets : Buckets maxRequestsPerIp
  keyBuckets : Buckets maxRequestsPerApiKey
  agentBuckets : Buckets maxRequestsPerAgent
  globalBucket : LayerBucket globalRateLimit

/-- A bucket of the limiter: its layer, and the name it has there. -/
inductive BucketId where
  | global
  | ip (ip : String)
  | key (apiKey : String)
  | agent (agentId : String)
deriving DecidableEq

/-- The layer of a bucket. -/
def BucketId.layer : BucketId → RateLimitError
  | .global => .global
  | .ip _ => .ip
  | .key _ => .key
  | .agent _ => .agent

/-- The limit of a layer. -/
def RateLimitError.limit : RateLimitError → Nat
  | .global => globalRateLimit
  | .ip => maxRequestsPerIp
  | .key => maxRequestsPerApiKey
  | .agent => maxRequestsPerAgent

/-- The place of a layer in the order of the checks. -/
def RateLimitError.place : RateLimitError → Nat
  | .global => 0
  | .ip => 1
  | .key => 2
  | .agent => 3

namespace RateLimiter

/-- All buckets are full. -/
def new (now : Nat) : RateLimiter := ⟨∅, ∅, ∅, .new globalRateLimit now⟩

/-- One token of one bucket, which is made when it is not there. -/
def consume (ov : Overflow) (r : RateLimiter) (now : Nat) : BucketId → Option (RateLimiter × Bool)
  | .global => (r.globalBucket.consume ov now 1).map fun x => ({ r with globalBucket := x.1 }, x.2)
  | .ip ip => (r.ipBuckets.consume ov now ip).map fun x => ({ r with ipBuckets := x.1 }, x.2)
  | .key key => (r.keyBuckets.consume ov now key).map fun x => ({ r with keyBuckets := x.1 }, x.2)
  | .agent agent =>
    (r.agentBuckets.consume ov now agent).map fun x => ({ r with agentBuckets := x.1 }, x.2)

/-- The buckets that a request asks, one after the other. -/
def asked (ip : String) (apiKey agentId : Option String) : List BucketId :=
  [.global, .ip ip] ++ (apiKey.map .key).toList ++ (agentId.map .agent).toList

/-- The first bucket without a token ends the check; `none` is a panic. -/
def askAll (ov : Overflow) (now : Nat) :
    RateLimiter → List BucketId → Option (RateLimiter × Except RateLimitError Unit)
  | r, [] => some (r, .ok ())
  | r, i :: is =>
    match r.consume ov now i with
    | none => none
    | some (r', false) => some (r', .error i.layer)
    | some (r', true) => askAll ov now r' is

def check (ov : Overflow) (r : RateLimiter) (now : Nat) (ip : String)
    (apiKey agentId : Option String) : Option (RateLimiter × Except RateLimitError Unit) :=
  r.askAll ov now (asked ip apiKey agentId)

def cleanup (r : RateLimiter) (now : Nat) : RateLimiter :=
  { r with
    ipBuckets := r.ipBuckets.cleanup now
    keyBuckets := r.keyBuckets.cleanup now
    agentBuckets := r.agentBuckets.cleanup now }

/-! ## The limiter as a table of buckets -/

def find (r : RateLimiter) : BucketId → Option TokenBucket
  | .global => some r.globalBucket.toTokenBucket
  | .ip ip => r.ipBuckets.find ip
  | .key key => r.keyBuckets.find key
  | .agent agent => r.agentBuckets.find agent

/-- The bucket that a request finds or makes. -/
def bucket (r : RateLimiter) (now : Nat) (i : BucketId) : TokenBucket :=
  (r.find i).getD (.new now i.layer.limit (i.layer.limit / 60))

/-- The tokens that a request finds in a bucket. -/
def available (ov : Overflow) (r : RateLimiter) (i : BucketId) (now : Nat) : Option Nat :=
  ((r.bucket now i).consume ov now 0).map (·.1.tokens)

variable {ov : Overflow} {r r' : RateLimiter} {now : Nat} {i j : BucketId} {ok : Bool}

theorem find_made {b : TokenBucket} (h : r.find i = some b) :
    b.capacity = i.layer.limit ∧ b.refillRate = i.layer.limit / 60 := by
  cases i with
  | global =>
    cases h
    exact ⟨r.globalBucket.capacity_eq, r.globalBucket.refillRate_eq⟩
  | ip ip | key key | agent agent => exact Buckets.find_made h

/-- A token of a bucket in a part of the limiter, which `put` puts back. -/
theorem consume_put {β : Type} {x : Option (β × Bool)} {y : Option (TokenBucket × Bool)}
    (put : β → RateLimiter)
    (h : (x = none ∧ y = none) ∨ ∃ part b ok, x = some (part, ok) ∧ y = some (b, ok) ∧
      ∀ j, (put part).find j = if j = i then some b else r.find j) :
    ((x.map fun z => (put z.1, z.2)) = none ∧ y = none) ∨
      ∃ r' b ok, (x.map fun z => (put z.1, z.2)) = some (r', ok) ∧ y = some (b, ok) ∧
        ∀ j, r'.find j = if j = i then some b else r.find j := by
  rcases h with ⟨rfl, hnone⟩ | ⟨part, b, ok, rfl, hsome, hfind⟩
  · exact .inl ⟨rfl, hnone⟩
  · exact .inr ⟨put part, b, ok, rfl, hsome, hfind⟩

/-- **One token of one bucket**: the call panics or returns as that of the bucket; other buckets
stay. -/
theorem consume_cases (ov : Overflow) (r : RateLimiter) (now : Nat) (i : BucketId) :
    (r.consume ov now i = none ∧ (r.bucket now i).consume ov now 1 = none) ∨
      ∃ r' b ok, r.consume ov now i = some (r', ok) ∧
        (r.bucket now i).consume ov now 1 = some (b, ok) ∧
        ∀ j, r'.find j = if j = i then some b else r.find j := by
  cases i with
  | global =>
    refine consume_put (fun b => { r with globalBucket := b })
      ((r.globalBucket.consume_cases ov now 1).imp_right ?_)
    rintro ⟨b, ok, hsome, hsome'⟩
    exact ⟨b, _, ok, hsome, hsome', fun j => by cases j <;> simp [find]⟩
  | ip ip =>
    refine consume_put (fun buckets => { r with ipBuckets := buckets })
      ((r.ipBuckets.consume_cases ov now ip).imp_right ?_)
    rintro ⟨buckets, b, ok, hsome, hsome', hfind⟩
    exact ⟨buckets, b, ok, hsome, hsome', fun j => by cases j <;> simp [find, hfind]⟩
  | key key =>
    refine consume_put (fun buckets => { r with keyBuckets := buckets })
      ((r.keyBuckets.consume_cases ov now key).imp_right ?_)
    rintro ⟨buckets, b, ok, hsome, hsome', hfind⟩
    exact ⟨buckets, b, ok, hsome, hsome', fun j => by cases j <;> simp [find, hfind]⟩
  | agent agent =>
    refine consume_put (fun buckets => { r with agentBuckets := buckets })
      ((r.agentBuckets.consume_cases ov now agent).imp_right ?_)
    rintro ⟨buckets, b, ok, hsome, hsome', hfind⟩
    exact ⟨buckets, b, ok, hsome, hsome', fun j => by cases j <;> simp [find, hfind]⟩

/-! ## A rejected request

What the layers before the one that rejects have given is not put back. -/

theorem asked_pairwise (ip : String) (apiKey agentId : Option String) :
    (asked ip apiKey agentId).Pairwise fun i j => i.layer.place < j.layer.place := by
  cases apiKey <;> cases agentId <;> simp [asked, BucketId.layer, RateLimitError.place]

/-- Only buckets before the rejecting one have changed, each by granting. -/
theorem of_askAll_error {is : List BucketId} {e : RateLimitError}
    (hplaces : is.Pairwise fun i j => i.layer.place < j.layer.place)
    (h : r.askAll ov now is = some (r', .error e)) : (∃ i ∈ is, i.layer = e) ∧
      (∀ i, i ∉ is ∨ e.place < i.layer.place → r'.find i = r.find i) ∧
      ∀ i ∈ is, i.layer.place < e.place →
        ∃ b, (r.bucket now i).consume ov now 1 = some (b, true) ∧ r'.find i = some b := by
  induction is generalizing r with
  | nil => cases h
  | cons i is ih =>
    obtain ⟨hfirst, hrest⟩ := pairwise_cons.1 hplaces
    have hi : i ∉ is := fun hmem => lt_irrefl _ (hfirst i hmem)
    unfold askAll at h
    rcases r.consume_cases ov now i with ⟨hnone, -⟩ | ⟨r₁, b, ok, hsome, hb, hfind⟩
    · rw [hnone] at h
      cases h
    rw [hsome] at h
    cases ok with
    | false =>
      cases h
      refine ⟨⟨i, mem_cons_self, rfl⟩, fun j hj => ?_, fun j hj hlt => ?_⟩
      · have hne : j ≠ i := by
          rintro rfl
          rcases hj with hj | hj
          · exact hj mem_cons_self
          · exact lt_irrefl _ hj
        rw [hfind, if_neg hne]
      · rcases mem_cons.1 hj with rfl | hj
        · exact absurd hlt (lt_irrefl _)
        · exact absurd hlt (lt_asymm (hfirst j hj))
    | true =>
      obtain ⟨⟨k, hk, rfl⟩, hsame, hgranted⟩ := ih hrest h
      refine ⟨⟨k, mem_cons_of_mem i hk, rfl⟩, fun j hj => ?_, fun j hj hlt => ?_⟩
      · have hne : j ≠ i := by
          rintro rfl
          rcases hj with hj | hj
          · exact hj mem_cons_self
          · exact lt_asymm hj (hfirst k hk)
        rw [hsame j (hj.imp_left fun hj hmem => hj (mem_cons_of_mem i hmem)), hfind, if_neg hne]
      · rcases mem_cons.1 hj with rfl | hj
        · refine ⟨b, hb, ?_⟩
          rw [hsame j (.inl hi), hfind, if_pos rfl]
        · have hne : j ≠ i := fun heq => hi (heq ▸ hj)
          have hbucket : r₁.bucket now j = r.bucket now j := by
            rw [bucket, bucket, hfind, if_neg hne]
          rw [← hbucket]
          exact hgranted j hj hlt

/-- **What a rejected request costs.** Each layer asked before the one that rejects has one token
less, in the request's bucket; all other buckets offer later requests what they would have. -/
theorem rejected_request_costs (ov : Overflow) (r r' : RateLimiter) (now : Nat) (ip : String)
    (apiKey agentId : Option String) (e : RateLimitError)
    (h : r.check ov now ip apiKey agentId = some (r', .error e)) :
    (∀ i t, i ∉ asked ip apiKey agentId ∨ e.place < i.layer.place →
      r'.available ov i t = r.available ov i t) ∧
    ∀ i ∈ asked ip apiKey agentId, i.layer.place < e.place →
      ∃ n, r.available ov i now = some (n + 1) ∧ r'.available ov i now = some n := by
  obtain ⟨-, hsame, hgranted⟩ := of_askAll_error (asked_pairwise ip apiKey agentId) h
  refine ⟨fun i t hi => ?_, fun i hi hlt => ?_⟩
  · rw [available, available, bucket, bucket, hsame i hi]
  · obtain ⟨b, hb, hfind⟩ := hgranted i hi hlt
    rw [available, available, show r'.bucket now i = b by rw [bucket, hfind]; rfl]
    exact TokenBucket.consume_zero_of_granted hb

/-- A limiter after a hundred requests of one address. -/
def spentAddress : RateLimiter :=
  { new 0 with
    ipBuckets := AList.singleton "203.0.113.7" ⟨⟨0, 0, 100, 1⟩, rfl, rfl⟩
    globalBucket := ⟨⟨9900, 0, 10000, 166⟩, rfl, rfl⟩ }

/-- The next request of the address is rejected, and takes a token from everyone. -/
theorem rejected_request_takes_global_token :
    spentAddress.available .checked .global 0 = some 9900 ∧
      (spentAddress.check .checked 0 "203.0.113.7" none none).map
        (fun x => (x.2, x.1.available .checked .global 0)) = some (.error .ip, some 9899) :=
  ⟨rfl, rfl⟩

theorem rejected_request_costs_spentAddress :
    ∃ r', spentAddress.check .checked 0 "203.0.113.7" (some "key") none = some (r', .error .ip) ∧
      (∀ t, r'.available .checked (.key "key") t = spentAddress.available .checked (.key "key") t) ∧
      ∃ n, spentAddress.available .checked .global 0 = some (n + 1) ∧
        r'.available .checked .global 0 = some n :=
  have h := rejected_request_costs .checked spentAddress _ 0 "203.0.113.7" (some "key") none .ip rfl
  ⟨_, rfl, fun t => h.1 _ t (.inr (by decide)), h.2 .global (by decide) (by decide)⟩

/-! ## Cleanups -/

/-- The seconds of two windows fill every bucket, and every limit is a `u32`. -/
theorem limit_bounds (e : RateLimitError) :
    e.limit ≤ rateLimitWindowSecs * 2 * (e.limit / 60) ∧ e.limit < 2 ^ 32 := by
  cases e <;> decide

/-- Missing on the right are only buckets that a cleanup may have dropped by `t`. -/
def Forgot (t : Nat) (kept cleaned : RateLimiter) : Prop :=
  ∀ i, cleaned.find i = kept.find i ∨
    cleaned.find i = none ∧
      ∃ b, kept.find i = some b ∧ b.lastUpdate + rateLimitWindowSecs * 2 * 10 ^ 9 ≤ t

variable {kept cleaned : RateLimiter} {t : Nat}

theorem Forgot.refl (t : Nat) (r : RateLimiter) : Forgot t r r := fun _ => .inl rfl

theorem Forgot.later (h : Forgot t kept cleaned) (hle : t ≤ now) : Forgot now kept cleaned :=
  fun i => (h i).imp_right fun ⟨hnone, b, hb, hold⟩ => ⟨hnone, b, hb, hold.trans hle⟩

theorem find_cleanup (r : RateLimiter) (now : Nat) (i : BucketId) :
    (r.cleanup now).find i = r.find i ∨ (r.cleanup now).find i = none ∧
      ∃ b, r.find i = some b ∧ b.lastUpdate + rateLimitWindowSecs * 2 * 10 ^ 9 ≤ now := by
  cases i with
  | global => exact .inl rfl
  | ip ip => exact r.ipBuckets.find_cleanup now ip
  | key key => exact r.keyBuckets.find_cleanup now key
  | agent agent => exact r.agentBuckets.find_cleanup now agent

theorem Forgot.cleanup (h : Forgot t kept cleaned) (hle : t ≤ now) :
    Forgot now kept (cleaned.cleanup now) := by
  intro i
  rcases cleaned.find_cleanup now i with heq | ⟨hnone, b, hb, hold⟩
  · rw [heq]
    exact h.later hle i
  · rcases h i with heq | ⟨hnone', -⟩
    · exact .inr ⟨hnone, b, heq ▸ hb, hold⟩
    · rw [hnone'] at hb
      cases hb

/-- A bucket idle for two windows is as full as a new one. -/
theorem level_of_idle {b : TokenBucket} (h : r.find i = some b)
    (hold : b.lastUpdate + rateLimitWindowSecs * 2 * 10 ^ 9 ≤ now) :
    b.level (secsSince b.lastUpdate now) = i.layer.limit := by
  obtain ⟨hcapacity, hrate⟩ := find_made h
  have hlimit := (limit_bounds i.layer).1
  have hsecs : rateLimitWindowSecs * 2 ≤ secsSince b.lastUpdate now := by
    rw [secsSince, Nat.le_div_iff_mul_le (Nat.pow_pos (by decide))]
    exact Nat.le_sub_of_add_le' hold
  have hmul := Nat.mul_le_mul_right (i.layer.limit / 60) hsecs
  rw [TokenBucket.level, hrate]
  omega

/-- The new bucket answers as the dropped one would have. -/
theorem consume_bucket_eq (ov : Overflow) (h : Forgot t kept cleaned) (hle : t ≤ now)
    (hfits : (kept.bucket now i).Fits now) :
    (cleaned.bucket now i).consume ov now 1 = (kept.bucket now i).consume ov now 1 := by
  rcases h i with heq | ⟨hnone, b, hb, hold⟩
  · rw [bucket, heq]
    rfl
  have hkept : kept.bucket now i = b := by rw [bucket, hb]; rfl
  have hcleaned : cleaned.bucket now i = .new now i.layer.limit (i.layer.limit / 60) := by
    rw [bucket, hnone]
    rfl
  obtain ⟨hcapacity, hrate⟩ := find_made hb
  have hlevel := level_of_idle hb (hold.trans hle)
  rw [hkept] at hfits ⊢
  rw [hcleaned, TokenBucket.consume_eq hfits, hlevel,
    TokenBucket.consume_new (limit_bounds i.layer).2]
  simp [TokenBucket.taken, TokenBucket.new, hcapacity, hrate]

/-- Both limiters answer alike and go on in step. -/
theorem Forgot.consume (ov : Overflow) (h : Forgot t kept cleaned) (hle : t ≤ now)
    (hfits : (kept.bucket now i).Fits now) :
    ∃ kept' cleaned' ok, kept.consume ov now i = some (kept', ok) ∧
      cleaned.consume ov now i = some (cleaned', ok) ∧ Forgot now kept' cleaned' := by
  have hsame := consume_bucket_eq ov h hle hfits
  have heq : (kept.bucket now i).consume ov now 1 = _ := TokenBucket.consume_eq hfits
  rcases kept.consume_cases ov now i with ⟨-, hnone⟩ | ⟨kept', b, ok, hkept, hb, hfind⟩
  · rw [heq] at hnone
    cases hnone
  rcases cleaned.consume_cases ov now i with ⟨-, hnone⟩ | ⟨cleaned', b', ok', hcleaned, hb', hfind'⟩
  · rw [hsame, heq] at hnone
    cases hnone
  rw [hsame, hb] at hb'
  cases hb'
  refine ⟨kept', cleaned', ok, hkept, hcleaned, fun j => ?_⟩
  rw [hfind, hfind']
  by_cases hj : j = i
  · rw [if_pos hj, if_pos hj]
    exact .inl rfl
  · rw [if_neg hj, if_neg hj]
    exact h.later hle j

/-- The elapsed seconds of the buckets asked, and the products, stay within `u32`. -/
def AllFit (ov : Overflow) (now : Nat) : RateLimiter → List BucketId → Prop
  | _, [] => True
  | r, i :: is => (r.bucket now i).Fits now ∧
      match r.consume ov now i with
      | some (r', true) => AllFit ov now r' is
      | _ => True

theorem Forgot.askAll {is : List BucketId} (h : Forgot t kept cleaned) (hle : t ≤ now)
    (hfit : kept.AllFit ov now is) :
    ∃ kept' cleaned' result, kept.askAll ov now is = some (kept', result) ∧
      cleaned.askAll ov now is = some (cleaned', result) ∧ Forgot now kept' cleaned' := by
  induction is generalizing kept cleaned t with
  | nil => exact ⟨kept, cleaned, .ok (), rfl, rfl, h.later hle⟩
  | cons i is ih =>
    obtain ⟨hfits, hrest⟩ := hfit
    obtain ⟨kept', cleaned', ok, hkept, hcleaned, hforgot⟩ := h.consume ov hle hfits
    cases ok with
    | false =>
      refine ⟨kept', cleaned', .error i.layer, ?_, ?_, hforgot⟩
      · rw [askAll, hkept]
      · rw [askAll, hcleaned]
    | true =>
      rw [hkept] at hrest
      obtain ⟨kept'', cleaned'', result, hk, hc, hf⟩ := ih hforgot (Nat.le_refl now) hrest
      refine ⟨kept'', cleaned'', result, ?_, ?_, hf⟩
      · rw [askAll, hkept]
        exact hk
      · rw [askAll, hcleaned]
        exact hc

/-- A check or a cleanup. -/
inductive Event where
  | check (now : Nat) (ip : String) (apiKey agentId : Option String)
  | cleanup (now : Nat)

/-- When it happens. -/
def Event.time : Event → Nat
  | .check now _ _ _ => now
  | .cleanup now => now

/-- It is no cleanup. -/
def Event.isCheck : Event → Bool
  | .check .. => true
  | .cleanup _ => false

/-- The results of the checks; `none` for a panic. -/
def results (ov : Overflow) : RateLimiter → List Event → Option (List (Except RateLimitError Unit))
  | _, [] => some []
  | r, .check now ip apiKey agentId :: es =>
    match r.check ov now ip apiKey agentId with
    | none => none
    | some (r', result) => (results ov r' es).map (result :: ·)
  | r, .cleanup now :: es => results ov (r.cleanup now) es

/-- No check of a run overflows. -/
def ChecksFit (ov : Overflow) : RateLimiter → List Event → Prop
  | _, [] => True
  | r, .check now ip apiKey agentId :: es =>
    r.AllFit ov now (asked ip apiKey agentId) ∧
      match r.check ov now ip apiKey agentId with
      | some (r', _) => ChecksFit ov r' es
      | none => True
  | r, .cleanup now :: es => ChecksFit ov (r.cleanup now) es

theorem Forgot.results {es : List Event} (h : Forgot t kept cleaned) (hfrom : ∀ e ∈ es, t ≤ e.time)
    (horder : es.Pairwise fun e e' => e.time ≤ e'.time)
    (hfit : kept.ChecksFit ov (es.filter Event.isCheck)) : ∃ rs, cleaned.results ov es = some rs ∧
      kept.results ov (es.filter Event.isCheck) = some rs := by
  induction es generalizing kept cleaned t with
  | nil => exact ⟨[], rfl, rfl⟩
  | cons e es ih =>
    obtain ⟨hle, hfrom⟩ := forall_mem_cons.1 hfrom
    obtain ⟨hlater, hrest⟩ := pairwise_cons.1 horder
    cases e with
    | cleanup now => exact ih (h.cleanup hle) hlater hrest hfit
    | check now ip apiKey agentId =>
      obtain ⟨hall, hnext⟩ := hfit
      change t ≤ now at hle
      obtain ⟨kept', cleaned', result, hkept, hcleaned, hforgot⟩ := h.askAll hle hall
      rw [check, hkept] at hnext
      obtain ⟨rs, hrs, hrs'⟩ := ih hforgot hlater hrest hnext
      refine ⟨result :: rs, ?_, ?_⟩
      · rw [results, check, hcleaned]
        dsimp only
        rw [hrs]
        rfl
      · rw [filter_cons_of_pos rfl, results, check, hkept]
        dsimp only
        rw [hrs']
        rfl

/-- **Cleanups are invisible.** In a run in time order, checks give the results they give
without. -/
theorem cleanups_invisible (ov : Overflow) (r : RateLimiter) (es : List Event)
    (horder : es.Pairwise fun e e' => e.time ≤ e'.time)
    (hfit : r.ChecksFit ov (es.filter Event.isCheck)) :
    ∃ rs, r.results ov es = some rs ∧ r.results ov (es.filter Event.isCheck) = some rs :=
  (Forgot.refl 0 r).results (fun _ _ => Nat.zero_le _) horder hfit

/-- Three minutes after its last request an address's bucket is gone, and the next one is new. -/
theorem cleanups_invisible_spentAddress :
    let es := [.check 0 "203.0.113.7" none none, .cleanup (180 * 10 ^ 9),
      .check (181 * 10 ^ 9) "203.0.113.7" none (some "agent")]
    spentAddress.results .checked es = some [.error .ip, .ok ()] ∧
      ∃ rs, spentAddress.results .checked es = some rs ∧
        spentAddress.results .checked (es.filter Event.isCheck) = some rs :=
  ⟨rfl, cleanups_invisible .checked spentAddress _ (by simp [Event.time])
    ⟨⟨by decide, by decide, trivial⟩, ⟨by decide, by decide, by decide, trivial⟩, trivial⟩⟩

end RateLimiter

end Haltchain.Api

import Haltchain.Consensus.Raft

/-! # Token buckets

`crates/api/src/auth.rs`: a call counts the whole seconds since the last one, adds their tokens, and
moves the clock of the bucket to now; the fraction of a second is gone.

Times are in nanoseconds. The arithmetic of `u32` panics or wraps as the build does. -/

namespace Haltchain.Api

open Option

open Consensus (Overflow)

/-- A `u32` operation with the exact result `x`. -/
def u32 (ov : Overflow) (x : Nat) : Option Nat :=
  if x < 2 ^ 32 then some x
  else match ov with
    | .checked => none
    | .wrapping => some (x % 2 ^ 32)

theorem u32_of_lt {ov : Overflow} {x : Nat} (h : x < 2 ^ 32) : u32 ov x = some x := if_pos h

theorem u32_lt {ov : Overflow} {x y : Nat} (h : u32 ov x = some y) : y < 2 ^ 32 := by
  unfold u32 at h
  split at h
  · next hlt => exact (some.inj h) ▸ hlt
  · cases ov with
    | checked => cases h
    | wrapping => exact (some.inj h) ▸ Nat.mod_lt _ (by decide)

/-- `duration_since(..).as_secs()`; an earlier time counts as no time. -/
def secsSince (last now : Nat) : Nat := (now - last) / 10 ^ 9

/-- A bucket with its clock. -/
structure TokenBucket where
  tokens : Nat
  lastUpdate : Nat
  capacity : Nat
  /-- Tokens per second. -/
  refillRate : Nat

namespace TokenBucket

/-- A full bucket. -/
def new (now capacity refillRate : Nat) : TokenBucket := ⟨capacity, now, capacity, refillRate⟩

/-- Refill for the time since the last call, then take `amount` if it is there; `none` is a
panic. -/
def consume (ov : Overflow) (b : TokenBucket) (now amount : Nat) : Option (TokenBucket × Bool) :=
  let elapsed := secsSince b.lastUpdate now % 2 ^ 32
  match u32 ov (elapsed * b.refillRate) with
  | none => none
  | some refill =>
    match u32 ov (b.tokens + refill) with
    | none => none
    | some sum =>
      let b := { b with tokens := min sum b.capacity, lastUpdate := now }
      if amount ≤ b.tokens then some ({ b with tokens := b.tokens - amount }, true)
      else some (b, false)

/-! ## One call -/

/-- The tokens after a refill for `secs` seconds. -/
def level (b : TokenBucket) (secs : Nat) : Nat := min (b.tokens + secs * b.refillRate) b.capacity

/-- A call that takes `amount` tokens, or none, from a bucket at this level. -/
def taken (b : TokenBucket) (now level amount : Nat) : TokenBucket :=
  { b with tokens := if amount ≤ level then level - amount else level, lastUpdate := now }

/-- The call stays within `u32`. -/
def Fits (b : TokenBucket) (now : Nat) : Prop :=
  secsSince b.lastUpdate now < 2 ^ 32 ∧
    b.tokens + secsSince b.lastUpdate now * b.refillRate < 2 ^ 32
deriving Decidable

variable {ov : Overflow} {b : TokenBucket} {now amount : Nat}

theorem consume_eq (h : b.Fits now) : b.consume ov now amount =
      some (b.taken now (b.level (secsSince b.lastUpdate now)) amount,
        decide (amount ≤ b.level (secsSince b.lastUpdate now))) := by
  obtain ⟨hsecs, hsum⟩ := h
  unfold consume
  dsimp only
  rw [Nat.mod_eq_of_lt hsecs, u32_of_lt (by omega)]
  dsimp only
  rw [u32_of_lt hsum]
  dsimp only
  rw [← level]
  split
  · next hle => simp [taken, hle]
  · next hlt => simp [taken, hlt]

theorem consume_new {capacity : Nat} (h : capacity < 2 ^ 32) (refillRate : Nat) :
    (new now capacity refillRate).consume ov now amount =
      some ((new now capacity refillRate).taken now capacity amount,
        decide (amount ≤ capacity)) := by
  have hsecs : secsSince (new now capacity refillRate).lastUpdate now = 0 := by
    simp [secsSince, new]
  have hlevel : (new now capacity refillRate).level 0 = capacity := by simp [level, new]
  have hfits : (new now capacity refillRate).Fits now := by
    rw [Fits, hsecs, Nat.zero_mul]
    exact ⟨by decide, h⟩
  rw [consume_eq hfits, hsecs, hlevel]

/-- With overflow checks, a call that does not fit panics. -/
theorem consume_eq_none (hsecs : secsSince b.lastUpdate now < 2 ^ 32) (h : ¬ b.Fits now) :
    b.consume .checked now amount = none := by
  have hsum : 2 ^ 32 ≤ b.tokens + secsSince b.lastUpdate now * b.refillRate :=
    not_lt.1 fun hlt => h ⟨hsecs, hlt⟩
  unfold consume
  dsimp only
  rw [Nat.mod_eq_of_lt hsecs]
  by_cases hmul : secsSince b.lastUpdate now * b.refillRate < 2 ^ 32
  · rw [u32_of_lt hmul]
    dsimp only
    rw [u32, if_neg (by omega)]
  · rw [u32, if_neg hmul]

/-- The token a call takes is missing for one right after it. -/
theorem consume_zero_of_granted {b' : TokenBucket} (h : b.consume ov now 1 = some (b', true)) :
    ∃ n, (b.consume ov now 0).map (·.1.tokens) = some (n + 1) ∧
      (b'.consume ov now 0).map (·.1.tokens) = some n := by
  unfold consume at h
  dsimp only at h
  split at h
  · cases h
  next refill hrefill =>
    split at h
    · cases h
    next sum hsum =>
      split at h
      · cases h
        have hlt : sum < 2 ^ 32 := u32_lt hsum
        refine ⟨min sum b.capacity - 1, ?_, ?_⟩
        · simp only [consume, hrefill, hsum, Nat.zero_le, if_true, map_some]
          congr 1
          omega
        · have hzero : secsSince now now % 2 ^ 32 * b.refillRate = 0 := by
            simp [secsSince]
          simp only [consume]
          rw [u32_of_lt (by omega)]
          dsimp only
          rw [u32_of_lt (by omega)]
          simp only [Nat.zero_le, if_true, map_some]
          congr 1
          omega
      · cases h

/-! ## A row of calls -/

/-- The calls in turn, with time and amount: the final bucket and the tokens granted. -/
def serve (ov : Overflow) : TokenBucket → List (Nat × Nat) → Option (TokenBucket × Nat)
  | b, [] => some (b, 0)
  | b, (now, amount) :: calls =>
    match b.consume ov now amount with
    | none => none
    | some (b, ok) => (serve ov b calls).map fun r => (r.1, (if ok then amount else 0) + r.2)

/-- No call of the row overflows. -/
def CallsFit : TokenBucket → List (Nat × Nat) → Prop
  | _, [] => True
  | b, (now, amount) :: calls =>
    b.Fits now ∧ CallsFit (b.taken now (b.level (secsSince b.lastUpdate now)) amount) calls

/-- The calls are made one after the other, none before `last`. -/
def InOrder (last : Nat) : List (Nat × Nat) → Prop
  | [] => True
  | (now, _) :: calls => last ≤ now ∧ InOrder now calls

/-- The whole seconds of each gap between two calls, added up. -/
def paidSecs (last : Nat) : List (Nat × Nat) → Nat
  | [] => 0
  | (now, _) :: calls => secsSince last now + paidSecs now calls

/-- The time of the last call. -/
def endTime (last : Nat) : List (Nat × Nat) → Nat
  | [] => last
  | (now, _) :: calls => endTime now calls

variable {t₂ t₃ : Nat}

theorem secsSince_add_le {t₁ : Nat} (h₁₂ : t₁ ≤ t₂) (h₂₃ : t₂ ≤ t₃) :
    secsSince t₁ t₂ + secsSince t₂ t₃ ≤ secsSince t₁ t₃ := by
  unfold secsSince
  omega

variable {calls : List (Nat × Nat)} {last : Nat}

theorem le_endTime (h : InOrder last calls) : last ≤ endTime last calls := by
  induction calls generalizing last with
  | nil => exact le_rfl
  | cons call calls ih => exact h.1.trans (ih h.2)

/-- What is paid for is never more than the whole time. -/
theorem paidSecs_le (h : InOrder last calls) :
    paidSecs last calls ≤ secsSince last (endTime last calls) := by
  induction calls generalizing last with
  | nil => exact Nat.zero_le _
  | cons call calls ih =>
    calc secsSince last call.1 + paidSecs call.1 calls
        ≤ secsSince last call.1 + secsSince call.1 (endTime call.1 calls) :=
          Nat.add_le_add_left (ih h.2) _
      _ ≤ secsSince last (endTime call.1 calls) := secsSince_add_le h.1 (le_endTime h.2)

theorem taken_zero_tokens (b : TokenBucket) (now level : Nat) :
    (b.taken now level 0).tokens = level := by
  unfold taken
  rw [if_pos (Nat.zero_le _), Nat.sub_zero]

theorem taken_tokens_add (b : TokenBucket) (now level amount : Nat) :
    (b.taken now level amount).tokens + (if amount ≤ level then amount else 0) = level := by
  unfold taken
  split <;> simp [*]

/-- **What a row of calls is paid**: the whole seconds of each gap, up to the capacity. -/
theorem serve_bounds (ov : Overflow) (b : TokenBucket) (calls : List (Nat × Nat))
    (hfit : b.CallsFit calls) : ∃ b' granted, b.serve ov calls = some (b', granted) ∧
      min (b.tokens + paidSecs b.lastUpdate calls * b.refillRate) b.capacity ≤ b'.tokens + granted ∧
      b'.tokens + granted ≤ b.tokens + paidSecs b.lastUpdate calls * b.refillRate := by
  induction calls generalizing b with
  | nil => exact ⟨b, 0, rfl, by simp [paidSecs], by simp⟩
  | cons call calls ih =>
    obtain ⟨now, amount⟩ := call
    have hpaid : paidSecs b.lastUpdate ((now, amount) :: calls) * b.refillRate =
        secsSince b.lastUpdate now * b.refillRate + paidSecs now calls * b.refillRate :=
      add_mul _ _ _
    obtain ⟨hfits, hrest⟩ := hfit
    have hadd := b.taken_tokens_add now (b.level (secsSince b.lastUpdate now)) amount
    have hlevel : b.level (secsSince b.lastUpdate now) =
        min (b.tokens + secsSince b.lastUpdate now * b.refillRate) b.capacity := rfl
    obtain ⟨b', granted, hserve, hlow, hhigh⟩ := ih _ hrest
    change min (_ + paidSecs now calls * b.refillRate) b.capacity ≤ _ at hlow
    change _ ≤ _ + paidSecs now calls * b.refillRate at hhigh
    refine ⟨b', (if amount ≤ b.level (secsSince b.lastUpdate now) then amount else 0) + granted,
      ?_, by omega, by omega⟩
    simp only [serve, consume_eq hfits, hserve, map_some, decide_eq_true_eq]

/-! ## An extra call -/

/-- An extra `consume(0)` at `t₂` makes no difference: the next call, at `t₃` and for any amount,
returns and leaves as many tokens with and without it. -/
def ExtraCallHarmless (ov : Overflow) (b : TokenBucket) (t₂ t₃ : Nat) : Prop :=
  ∀ amount, ∃ tokens,
    (b.serve ov [(t₃, amount)]).map (·.1.tokens) = some tokens ∧
      (b.serve ov [(t₂, 0), (t₃, amount)]).map (·.1.tokens) = some tokens

/-- A refill in two steps, the first of them capped. -/
theorem level_level (b : TokenBucket) (now s₁ s₂ : Nat) :
    (b.taken now (b.level s₁) 0).level s₂ = b.level (s₁ + s₂) := by
  rw [level, taken_zero_tokens, level, level, add_mul]
  dsimp only [taken]
  omega

theorem Fits.earlier (h : b.Fits t₃) (h₁₂ : b.lastUpdate ≤ t₂) (h₂₃ : t₂ ≤ t₃) :
    b.Fits t₂ ∧ (b.taken t₂ (b.level (secsSince b.lastUpdate t₂)) 0).Fits t₃ := by
  obtain ⟨hsecs, hsum⟩ := h
  have hle := secsSince_add_le h₁₂ h₂₃
  have hmul := Nat.mul_le_mul_right b.refillRate hle
  rw [add_mul] at hmul
  refine ⟨⟨by omega, by omega⟩, ?_, ?_⟩
  · show secsSince t₂ t₃ < 2 ^ 32
    omega
  · show _ + secsSince t₂ t₃ * b.refillRate < _
    rw [taken_zero_tokens, level]
    omega

/-- The tokens after the next call, from the level before it. -/
theorem serve_one (h : b.Fits now) (amount : Nat) : (b.serve ov [(now, amount)]).map (·.1.tokens) =
      some (b.taken now (b.level (secsSince b.lastUpdate now)) amount).tokens := by
  simp [serve, consume_eq h]

theorem serve_two (h : b.Fits t₃) (h₁₂ : b.lastUpdate ≤ t₂) (h₂₃ : t₂ ≤ t₃) (amount : Nat) :
    (b.serve ov [(t₂, 0), (t₃, amount)]).map (·.1.tokens) =
      some (b.taken t₃ (b.level (secsSince b.lastUpdate t₂ + secsSince t₂ t₃)) amount).tokens := by
  obtain ⟨hfits, hfits'⟩ := h.earlier h₁₂ h₂₃
  have hlevel := b.level_level t₂ (secsSince b.lastUpdate t₂) (secsSince t₂ t₃)
  simp only [serve, consume_eq hfits, consume_eq hfits']
  show some (TokenBucket.taken _ t₃ (TokenBucket.level _ (secsSince t₂ t₃)) amount).tokens = _
  rw [hlevel]
  rfl

/-- The seconds paid make up for all: none is lost, or they bring nothing, or the bucket is full
without. -/
def PaidInFull (b : TokenBucket) (paid total : Nat) : Prop :=
  paid = total ∨ b.refillRate = 0 ∨ b.capacity ≤ b.tokens + paid * b.refillRate
deriving Decidable

theorem paidInFull_iff {paid total : Nat} (hle : paid ≤ total) : b.PaidInFull paid total ↔
      min (b.tokens + total * b.refillRate) b.capacity ≤ b.tokens + paid * b.refillRate := by
  unfold PaidInFull
  constructor
  · rintro (rfl | hzero | hfull)
    · omega
    · simp [hzero]
    · omega
  · intro hmin
    by_contra hno
    have hstrict : paid * b.refillRate < total * b.refillRate :=
      Nat.mul_lt_mul_of_pos_right (by omega) (by omega)
    omega

theorem extraCallHarmless_iff (h₁₂ : b.lastUpdate ≤ t₂) (h₂₃ : t₂ ≤ t₃)
    (hsecs : secsSince b.lastUpdate t₃ < 2 ^ 32) (hov : ov = .checked ∨ b.Fits t₃) :
    b.ExtraCallHarmless ov t₂ t₃ ↔
      b.Fits t₃ ∧ b.PaidInFull (secsSince b.lastUpdate t₂ + secsSince t₂ t₃)
        (secsSince b.lastUpdate t₃) := by
  have hle := secsSince_add_le h₁₂ h₂₃
  have hmul := Nat.mul_le_mul_right b.refillRate hle
  have hlevels : b.level (secsSince b.lastUpdate t₃) =
      b.level (secsSince b.lastUpdate t₂ + secsSince t₂ t₃) ↔ b.PaidInFull
        (secsSince b.lastUpdate t₂ + secsSince t₂ t₃) (secsSince b.lastUpdate t₃) := by
    rw [paidInFull_iff hle]
    unfold level
    omega
  rw [← hlevels]
  constructor
  · intro h
    obtain ⟨tokens, hone, htwo⟩ := h 0
    have hfits : b.Fits t₃ := by
      rcases hov with rfl | hfits
      · by_contra hno
        simp [serve, consume_eq_none hsecs hno] at hone
      · exact hfits
    rw [serve_one hfits] at hone
    rw [serve_two hfits h₁₂ h₂₃] at htwo
    refine ⟨hfits, ?_⟩
    simpa only [taken_zero_tokens, some.injEq] using hone.trans htwo.symm
  · rintro ⟨hfits, heq⟩ amount
    exact ⟨_, serve_one hfits amount, by rw [serve_two hfits h₁₂ h₂₃, heq]⟩

/-- **When a bucket is refilled for all of its time.** An extra call changes nothing, and a row of
calls is paid for its whole seconds up to the capacity, exactly when the fractions of a second
dropped at the calls add up to less than one, or it does not matter. -/
theorem refilled_for_whole_time_iff (ov : Overflow) (b : TokenBucket) :
    (∀ t₂ t₃, b.lastUpdate ≤ t₂ → t₂ ≤ t₃ → secsSince b.lastUpdate t₃ < 2 ^ 32 →
      (ov = .checked ∨ b.Fits t₃) →
        (b.ExtraCallHarmless ov t₂ t₃ ↔
          b.Fits t₃ ∧ b.PaidInFull (secsSince b.lastUpdate t₂ + secsSince t₂ t₃)
            (secsSince b.lastUpdate t₃))) ∧
    (∀ calls, InOrder b.lastUpdate calls → b.CallsFit calls →
      let total := secsSince b.lastUpdate (endTime b.lastUpdate calls)
      ∃ b' granted, b.serve ov calls = some (b', granted) ∧
        (min (b.tokens + total * b.refillRate) b.capacity ≤ b'.tokens + granted ↔
          b.PaidInFull (paidSecs b.lastUpdate calls) total)) := by
  refine ⟨fun t₂ t₃ h₁₂ h₂₃ hsecs hov => extraCallHarmless_iff h₁₂ h₂₃ hsecs hov, ?_⟩
  intro calls horder hfit total
  have hle : paidSecs b.lastUpdate calls ≤ total := paidSecs_le horder
  have hmul := Nat.mul_le_mul_right b.refillRate hle
  obtain ⟨b', granted, hserve, hlow, hhigh⟩ := serve_bounds ov b calls hfit
  refine ⟨b', granted, hserve, ?_⟩
  rw [paidInFull_iff hle]
  omega

/-- An extra call a whole second later takes nothing from the bucket. -/
theorem extra_call_after_a_second :
    (⟨0, 0, 100, 1⟩ : TokenBucket).ExtraCallHarmless .checked (10 ^ 9) (2 * 10 ^ 9) :=
  ((refilled_for_whole_time_iff .checked ⟨0, 0, 100, 1⟩).1 (10 ^ 9) (2 * 10 ^ 9) (by decide)
    (by decide) (by decide) (.inl rfl)).2 ⟨by decide, by decide⟩

/-- An emptied bucket of an address. One second later it has a token, unless it was called half a
second in between; called every half second it has none after two. -/
theorem half_second_calls_starve :
    let b : TokenBucket := ⟨0, 0, 100, 100 / 60⟩
    (b.serve .checked [(10 ^ 9, 0)]).map (·.1.tokens) = some 1 ∧
      (b.serve .checked [(5 * 10 ^ 8, 0), (10 ^ 9, 0)]).map (·.1.tokens) = some 0 ∧
      (b.serve .checked [(5 * 10 ^ 8, 1), (10 ^ 9, 1), (15 * 10 ^ 8, 1), (2 * 10 ^ 9, 1)]).map
        (fun r => (r.1.tokens, r.2)) = some (0, 0) := by
  decide

/-! ## The ceiling

No wrapped result is larger than the exact one, so a bucket is never paid more than its seconds
bring, whether or not its calls fit. -/

theorem u32_le {x y : Nat} (h : u32 ov x = some y) : y ≤ x := by
  unfold u32 at h
  split at h
  · exact (some.inj h).ge
  · cases ov with
    | checked => cases h
    | wrapping => exact (some.inj h) ▸ Nat.mod_le _ _

/-- What a call that returns leaves and grants. -/
theorem of_consume {b' : TokenBucket} {ok : Bool} (h : b.consume ov now amount = some (b', ok)) :
    b'.lastUpdate = now ∧ b'.capacity = b.capacity ∧ b'.refillRate = b.refillRate ∧
      b'.tokens + (if ok then amount else 0) ≤ b.level (secsSince b.lastUpdate now) := by
  unfold consume at h
  dsimp only at h
  split at h
  · cases h
  next refill hrefill =>
    split at h
    · cases h
    next sum hsum =>
      have hlevel : min sum b.capacity ≤ b.level (secsSince b.lastUpdate now) := by
        have hmod := Nat.mul_le_mul_right b.refillRate
          (Nat.mod_le (secsSince b.lastUpdate now) (2 ^ 32))
        have hle := u32_le hrefill
        have hle' := u32_le hsum
        unfold level
        omega
      split at h
      · next hamount =>
        cases h
        exact ⟨rfl, rfl, rfl, by simpa [Nat.sub_add_cancel hamount] using hlevel⟩
      · cases h
        exact ⟨rfl, rfl, rfl, by simpa using hlevel⟩

/-- The tokens granted from `start` to `stop`; a call that panics grants nothing. -/
def granted (ov : Overflow) (start stop : Nat) : TokenBucket → List (Nat × Nat) → Nat
  | _, [] => 0
  | b, (now, amount) :: calls =>
    match b.consume ov now amount with
    | none => granted ov start stop b calls
    | some (b', ok) =>
      (if ok ∧ start ≤ now ∧ now ≤ stop then amount else 0) + granted ov start stop b' calls

theorem InOrder.from_earlier {last' : Nat} (h : InOrder last calls) (hle : last' ≤ last) :
    InOrder last' calls := by
  cases calls with
  | nil => trivial
  | cons call calls => exact ⟨hle.trans h.1, h.2⟩

theorem granted_eq_zero {start stop : Nat} (horder : InOrder last calls) (hlast : stop < last)
    (b : TokenBucket) : b.granted ov start stop calls = 0 := by
  induction calls generalizing b last with
  | nil => rfl
  | cons call calls ih =>
    have hnow : stop < call.1 := hlast.trans_le horder.1
    unfold granted
    split
    · exact ih horder.2 hnow b
    · rw [if_neg fun h => absurd h.2.2 (not_le.2 hnow), ih horder.2 hnow]

/-- A bucket asked in the interval pays with what it has and what the rest brings. -/
theorem granted_le_tokens {start stop : Nat} (b : TokenBucket)
    (horder : InOrder b.lastUpdate calls) :
    b.granted ov start stop calls ≤ b.tokens + secsSince b.lastUpdate stop * b.refillRate := by
  induction calls generalizing b with
  | nil => exact Nat.zero_le _
  | cons call calls ih =>
    obtain ⟨now, amount⟩ := call
    obtain ⟨hnow, hrest⟩ := horder
    unfold granted
    split
    · exact ih b (hrest.from_earlier hnow)
    · next b' ok hconsume =>
      obtain ⟨hlast, -, hrate, hpaid⟩ := of_consume hconsume
      rcases Nat.lt_or_ge stop now with hstop | hstop
      · -- the interval is over
        rw [if_neg fun h => absurd h.2.2 (not_le.2 hstop), granted_eq_zero hrest hstop]
        exact Nat.zero_le _
      have hih := ih b' (hlast ▸ hrest)
      rw [hlast, hrate] at hih
      have hmul := Nat.mul_le_mul_right b.refillRate (secsSince_add_le hnow hstop)
      rw [add_mul] at hmul
      have hlevel : b.level (secsSince b.lastUpdate now) ≤
          b.tokens + secsSince b.lastUpdate now * b.refillRate := min_le_left _ _
      have hgrant : (if ok = true ∧ start ≤ now ∧ now ≤ stop then amount else 0) ≤
          if ok = true then amount else 0 := by
        split <;> simp_all
      omega

/-- Calls before the interval do not count, and the first inside leaves at most the capacity. -/
theorem granted_le {start stop : Nat} (b : TokenBucket) (horder : InOrder last calls) :
    b.granted ov start stop calls ≤ b.capacity + secsSince start stop * b.refillRate := by
  induction calls generalizing b last with
  | nil => exact Nat.zero_le _
  | cons call calls ih =>
    obtain ⟨now, amount⟩ := call
    obtain ⟨-, hrest⟩ := horder
    unfold granted
    split
    · exact ih b hrest
    · next b' ok hconsume =>
      obtain ⟨hlast, hcapacity, hrate, hpaid⟩ := of_consume hconsume
      by_cases hinside : ok = true ∧ start ≤ now ∧ now ≤ stop
      · obtain ⟨rfl, hstart, hstop⟩ := hinside
        have hafter : b'.granted ov start stop calls ≤ _ :=
          granted_le_tokens b' (hlast ▸ hrest)
        rw [hlast, hrate] at hafter
        have hmul := Nat.mul_le_mul_right b.refillRate (secsSince_add_le hstart hstop)
        rw [add_mul] at hmul
        have hlevel : b.level (secsSince b.lastUpdate now) ≤ b.capacity := min_le_right _ _
        rw [if_pos rfl] at hpaid
        rw [if_pos ⟨rfl, hstart, hstop⟩]
        omega
      · rw [if_neg hinside, zero_add, ← hcapacity, ← hrate]
        exact ih b' hrest

/-- **The ceiling of a bucket.** Calls one after the other, from any state of the bucket, are
granted at most the capacity and what the seconds of the interval bring. -/
theorem granted_le_ceiling (ov : Overflow) (b : TokenBucket) (calls : List (Nat × Nat))
    (horder : InOrder 0 calls) (start stop : Nat) :
    b.granted ov start stop calls ≤ b.capacity + b.refillRate * secsSince start stop := by
  rw [mul_comm]
  exact granted_le b horder

/-- The bucket of an address gives its hundred tokens and five more in five seconds. -/
theorem ceiling_of_an_address :
    let b : TokenBucket := ⟨0, 0, 100, 100 / 60⟩
    let calls := [(200 * 10 ^ 9, 100), (205 * 10 ^ 9, 5), (205 * 10 ^ 9, 1)]
    b.granted .checked (200 * 10 ^ 9) (205 * 10 ^ 9) calls = 105 ∧
      b.granted .checked (200 * 10 ^ 9) (205 * 10 ^ 9) calls ≤
        b.capacity + b.refillRate * secsSince (200 * 10 ^ 9) (205 * 10 ^ 9) :=
  ⟨by decide, granted_le_ceiling .checked _ _ (by simp [InOrder]) _ _⟩

end TokenBucket

end Haltchain.Api

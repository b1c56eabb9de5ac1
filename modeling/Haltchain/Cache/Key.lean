import Haltchain.Cache.DecisionCache
import Haltchain.Lib.Separated
import Haltchain.Lib.Utf8

/-! # What a cache key says

`make_key` hashes the agent, the action and two numbers of eight bytes, with a bar after each of the
first three. An agent whose name contains a bar shares its entries with the one before the bar. -/

namespace Haltchain.Cache

open DecisionCache Lib List

/-- The arguments of `make_key`, with an `i64` and a 64-bit `usize`. -/
@[ext]
structure KeyFields where
  agentId : String
  actionType : String
  amountBucket : Int
  actionCountBucket : Nat
  amount_range : -2 ^ 63 ≤ amountBucket ∧ amountBucket < 2 ^ 63
  count_lt : actionCountBucket < 2 ^ 64

namespace KeyFields

/-- What is hashed. -/
def bytes (p : KeyFields) : List UInt8 :=
  keyBytes p.agentId p.actionType p.amountBucket p.actionCountBucket

/-- The key for the fields. -/
def key (digest : List UInt8 → String) (p : KeyFields) : String :=
  makeKey digest p.agentId p.actionType p.amountBucket p.actionCountBucket

end KeyFields

/-! ## Numbers -/

theorem length_toLeBytes (n : Nat) : (toLeBytes n).length = 8 := by simp [toLeBytes]

theorem eq_of_bytes_eq {w n m : Nat} (hn : n < 256 ^ w) (hm : m < 256 ^ w)
    (h : ∀ k < w, n / 256 ^ k % 256 = m / 256 ^ k % 256) : n = m := by
  induction w generalizing n m with
  | zero => omega
  | succ w ih =>
    have hlow : n % 256 = m % 256 := by simpa using h 0 (Nat.zero_lt_succ w)
    have hhigh : n / 256 = m / 256 := by
      refine ih (Nat.div_lt_of_lt_mul ?_) (Nat.div_lt_of_lt_mul ?_) fun k hk => ?_
      · rwa [Nat.pow_succ'] at hn
      · rwa [Nat.pow_succ'] at hm
      · have hnext := h (k + 1) (Nat.succ_lt_succ hk)
        rwa [Nat.pow_succ', ← Nat.div_div_eq_div_mul, ← Nat.div_div_eq_div_mul] at hnext
    omega

theorem toLeBytes_inj {n m : Nat} (hn : n < 2 ^ 64) (hm : m < 2 ^ 64)
    (h : toLeBytes n = toLeBytes m) : n = m := by
  refine eq_of_bytes_eq (w := 8) hn hm fun k hk => ?_
  have hget : (toLeBytes n)[k]?.map UInt8.toNat = (toLeBytes m)[k]?.map UInt8.toNat := by rw [h]
  have hpow : 256 ^ k = 2 ^ (8 * k) := by rw [Nat.pow_mul]
  simpa [toLeBytes, hk, Nat.shiftRight_eq_div_pow, hpow] using hget

/-! ## Texts -/

/-- The texts, with their bars. -/
def keyText (agentId actionType : String) : String := agentId ++ "|" ++ actionType ++ "|"

/-- The texts come first; what follows has a fixed length. -/
theorem keyBytes_eq (agentId actionType : String) (amountBucket : Int) (actionCountBucket : Nat) :
    keyBytes agentId actionType amountBucket actionCountBucket =
      (keyText agentId actionType).toUTF8.toList ++
        (toLeBytes (amountBucket % 2 ^ 64).toNat ++ ("|".toUTF8.toList ++
          toLeBytes (actionCountBucket % 2 ^ 64))) := by
  simp only [keyBytes, keyText, toUTF8_append, append_assoc]

theorem toList_keyText (agentId actionType : String) : (keyText agentId actionType).toList =
      sepJoin '|' [agentId.toList, actionType.toList] ++ ['|'] := by
  simp [keyText, sepJoin]

namespace KeyFields

/-- **What the bytes say**: the numbers, and the texts joined by a bar. -/
theorem bytes_eq_iff (p q : KeyFields) : q.bytes = p.bytes ↔
      sepJoin '|' [q.agentId.toList, q.actionType.toList] =
        sepJoin '|' [p.agentId.toList, p.actionType.toList] ∧
      q.amountBucket = p.amountBucket ∧ q.actionCountBucket = p.actionCountBucket := by
  unfold bytes
  rw [keyBytes_eq, keyBytes_eq]
  constructor
  · intro h
    obtain ⟨htext, htail⟩ := append_inj' h (by simp [length_toLeBytes])
    obtain ⟨hamount, hcount⟩ := append_inj htail (by simp [length_toLeBytes])
    obtain ⟨-, hcount⟩ := append_inj hcount rfl
    refine ⟨?_, ?_, ?_⟩
    · have hjoin := congrArg String.toList (toUTF8_inj htext)
      rw [toList_keyText, toList_keyText] at hjoin
      exact append_cancel_right hjoin
    · have hmod := toLeBytes_inj (by omega) (by omega) hamount
      have hq := q.amount_range
      have hp := p.amount_range
      omega
    · have hmod := toLeBytes_inj (Nat.mod_lt _ (by decide)) (Nat.mod_lt _ (by decide)) hcount
      rwa [Nat.mod_eq_of_lt q.count_lt, Nat.mod_eq_of_lt p.count_lt] at hmod
  · rintro ⟨hjoin, hamount, hcount⟩
    have htext : keyText q.agentId q.actionType = keyText p.agentId p.actionType := by
      apply String.toList_inj.1
      rw [toList_keyText, toList_keyText, hjoin]
    rw [htext, hamount, hcount]

/-- No bar is in the texts. -/
def Plain (p : KeyFields) : Prop := '|' ∉ p.agentId.toList ∧ '|' ∉ p.actionType.toList
deriving Decidable

theorem eq_of_plain {p q : KeyFields} (hp : p.Plain) (h : q.bytes = p.bytes) : q = p := by
  obtain ⟨hjoin, hamount, hcount⟩ := (bytes_eq_iff p q).1 h
  have hfree : ∀ x ∈ [p.agentId.toList, p.actionType.toList], '|' ∉ x := by
    simpa [Plain] using hp
  have hfields := sepJoin_inj (by rfl) hfree hjoin.symm
  obtain ⟨hagent, haction⟩ : p.agentId = q.agentId ∧ p.actionType = q.actionType := by
    simpa [String.toList_inj] using hfields
  exact KeyFields.ext hagent.symm haction.symm hamount hcount

/-- The fields of another agent with the same bytes. -/
theorem exists_other_agent {p : KeyFields} (hp : ¬ p.Plain) :
    ∃ q : KeyFields, q.bytes = p.bytes ∧ q.agentId ≠ p.agentId := by
  by_cases hagent : '|' ∈ p.agentId.toList
  · -- the agent before the bar does what is behind it
    obtain ⟨x, y, hxy⟩ := append_of_mem hagent
    refine ⟨{ p with
      agentId := .ofList x, actionType := .ofList (y ++ '|' :: p.actionType.toList) }, ?_, ?_⟩
    · refine (bytes_eq_iff p _).2 ⟨?_, rfl, rfl⟩
      simp [sepJoin, hxy]
    · intro heq
      have hlength := congrArg (fun s : String => s.toList.length) heq
      simp [hxy] at hlength
  · -- the first part of the action is taken for the agent's name
    have haction : '|' ∈ p.actionType.toList := by
      by_contra haction
      exact hp ⟨hagent, haction⟩
    obtain ⟨x, y, hxy⟩ := append_of_mem haction
    refine ⟨{ p with
      agentId := .ofList (p.agentId.toList ++ '|' :: x), actionType := .ofList y }, ?_, ?_⟩
    · refine (bytes_eq_iff p _).2 ⟨?_, rfl, rfl⟩
      simp [sepJoin, hxy]
    · intro heq
      have hlength := congrArg (fun s : String => s.toList.length) heq
      simp at hlength

/-- **When a key says what it is the key of.** The bytes hashed for the fields belong to no others,
and without collisions the key to no other agent, exactly if agent and action have no bar. -/
theorem bytes_determine_iff (p : KeyFields) : ((∀ q : KeyFields, q.bytes = p.bytes → q = p) ∧
      ∀ digest : List UInt8 → String, Function.Injective digest →
        ∀ q : KeyFields, q.key digest = p.key digest → q.agentId = p.agentId) ↔ p.Plain := by
  constructor
  · rintro ⟨hbytes, -⟩
    by_contra hp
    obtain ⟨q, hq, hne⟩ := exists_other_agent hp
    exact hne (congrArg agentId (hbytes q hq))
  · intro hp
    refine ⟨fun q hq => eq_of_plain hp hq, fun digest hdigest q hq => ?_⟩
    rw [eq_of_plain hp (hdigest hq)]

/-- The agents `a|b` and `a` share an entry. -/
theorem bar_in_agent_shares_key :
    keyBytes "a|b" "c" 0 0 = keyBytes "a" "b|c" 0 0 ∧ "a|b" ≠ "a" := by
  refine ⟨?_, by decide⟩
  rw [keyBytes_eq, keyBytes_eq]
  rfl

/-- Two agents without a bar in their names are told apart, whatever they do; the handler of
    `/validate` lets no other agents in. -/
theorem eq_of_agents {p q : KeyFields} (hp : '|' ∉ p.agentId.toList)
    (hq : '|' ∉ q.agentId.toList) (h : q.bytes = p.bytes) : q = p := by
  obtain ⟨hjoin, hamount, hcount⟩ := (bytes_eq_iff p q).1 h
  obtain ⟨hagent, haction⟩ := append_sep_inj hq hp hjoin
  exact KeyFields.ext (String.toList_inj.1 hagent) (String.toList_inj.1 haction) hamount hcount

end KeyFields

end Haltchain.Cache

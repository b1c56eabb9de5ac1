import Mathlib.Algebra.Order.Field.Rat
import Haltchain.Lib.Separated
import Haltchain.Validator.Lifecycle

/-! # Running the loop twice

If nothing happens in between, a second run of the learning loop makes the same recommendations.
With a database they are told by their keys, and the rows stay as they are. Without one they get new
ids, and each recommendation is there twice. -/

namespace Haltchain.Validator

open Lib RecommendationDb List Option AList
open LearningState.Recorded (falsePositives)
open Rules (epsilon)

/-! ## When a recommendation is made -/

/-- The outcomes that count for a threshold. -/
def outcomesFor (outcomes : List OutcomeLearningRecord) (key : String) :
    List OutcomeLearningRecord :=
  outcomes.filter fun o => o.policyCode.bind thresholdKeyFromPolicy = some key

theorem bucketFor_bucketsOf (outcomes : List OutcomeLearningRecord) (key : String) :
    LearningState.bucketFor (bucketsOf outcomes) key =
      (outcomesFor outcomes key).foldl Bucket.add .empty := by
  induction outcomes using reverseRecOn with
  | nil => rfl
  | append_singleton outcomes o ih =>
    rw [LearningState.bucketFor] at ih ⊢
    rw [bucketsOf, foldl_append, ← bucketsOf, outcomesFor, filter_append,
      foldl_append, ← outcomesFor, ← ih]
    cases hkey : o.policyCode.bind thresholdKeyFromPolicy with
    | none => simp [hkey]
    | some key' =>
      by_cases heq : key = key'
      · subst heq
        simp [hkey]
      · have hne : key' ≠ key := Ne.symm heq
        simp [hkey, heq, hne]

theorem foldl_add (b : Bucket) (l : List OutcomeLearningRecord) :
    (l.foldl Bucket.add b).sample = b.sample + l.length ∧
      (l.foldl Bucket.add b).fp = b.fp + l.countP (·.outcome = "FALSE_POSITIVE") ∧
      (l.foldl Bucket.add b).tp = b.tp + l.countP (·.outcome = "TRUE_POSITIVE") := by
  induction l generalizing b with
  | nil => exact ⟨rfl, rfl, rfl⟩
  | cons o l ih =>
    obtain ⟨hsample, hfp, htp⟩ := ih (b.add o)
    rw [foldl_cons, hsample, hfp, htp, length_cons]
    refine ⟨by simp only [Bucket.add]; omega, ?_, ?_⟩
    · by_cases h : o.outcome = "FALSE_POSITIVE"
      · simp [Bucket.add, h]
        omega
      · simp [Bucket.add, h]
    · by_cases h : o.outcome = "TRUE_POSITIVE"
      · simp [Bucket.add, h]
        omega
      · simp [Bucket.add, h]

/-- So many outcomes ask for no change: too few, too mixed, or it is lost in rounding. -/
def Unmoved (t : ThresholdStore) (key : String) (sample fp tp : Nat) : Prop :=
  let current := (t.overrides.lookup key).getD (defaultThresholdForKey key)
  sample < 3 ∨ (2 * fp < sample ∧ 10 * tp < 8 * sample) ∨
    |clampAndRoundThreshold (current * if sample ≤ 2 * fp then 110 / 100 else 90 / 100) - current| <
      epsilon
deriving Decidable

/-- A rate, as a fraction of whole numbers. -/
theorem le_rate_iff {sample : Nat} (hsample : 0 < sample) (n a b : Nat) (hb : 0 < b) :
    (a : Rat) / b ≤ (n : Rat) / sample ↔ a * sample ≤ b * n := by
  have hsample : (0 : Rat) < sample := by exact_mod_cast hsample
  have hb : (0 : Rat) < b := by exact_mod_cast hb
  rw [div_le_div_iff₀ hb hsample, mul_comm (n : Rat)]
  exact_mod_cast Iff.rfl

theorem recommend_eq_none_iff (t : ThresholdStore) (id : Int) (key : String) (bucket : Bucket) :
    recommend t id key bucket = none ↔ Unmoved t key bucket.sample bucket.fp bucket.tp := by
  rw [recommend, Unmoved]
  by_cases hfew : bucket.sample < 3
  · simp [hfew]
  have hpos : 0 < bucket.sample := by omega
  have hhalf := le_rate_iff hpos bucket.fp 1 2 (by decide)
  have hmost := le_rate_iff hpos bucket.tp 8 10 (by decide)
  push_cast at hhalf hmost
  simp only [hfew, hhalf, hmost]
  by_cases hfp : bucket.sample ≤ 2 * bucket.fp
  · simp [hfp, not_lt.2 hfp]
  by_cases htp : 8 * bucket.sample ≤ 10 * bucket.tp
  · simp [hfp, htp]
  · simp [hfp, htp, not_le.1 hfp, not_le.1 htp]

/-- No threshold is to be changed. -/
def NoChange (t : ThresholdStore) (outcomes : List OutcomeLearningRecord) : Prop :=
  ∀ key, Unmoved t key (outcomesFor outcomes key).length
    ((outcomesFor outcomes key).countP (·.outcome = "FALSE_POSITIVE"))
    ((outcomesFor outcomes key).countP (·.outcome = "TRUE_POSITIVE"))

theorem noChange_iff (t : ThresholdStore) (outcomes : List OutcomeLearningRecord) :
    NoChange t outcomes ↔
      ∀ key, recommend t 0 key (LearningState.bucketFor (bucketsOf outcomes) key) = none := by
  refine forall_congr' fun key => ?_
  obtain ⟨hsample, hfp, htp⟩ := foldl_add .empty (outcomesFor outcomes key)
  rw [recommend_eq_none_iff, bucketFor_bucketsOf, hsample, hfp, htp]
  simp [Bucket.empty]

/-! ## Keys tell recommendations apart -/

theorem colon_notMem_toString (n : Nat) : ':' ∉ (toString n).toList := by
  intro h
  have hdigit := Nat.isDigit_of_mem_toDigits (by decide) (by decide) (Nat.toList_repr ▸ h)
  exact absurd hdigit (by decide)

variable {key : String}

theorem recommendationKeyFor_inj {key' : String} {b b' : Bucket}
    (h : recommendationKeyFor key b = recommendationKeyFor key' b') : key = key' := by
  have htexts : ∀ (key : String) (b : Bucket), (recommendationKeyFor key b).toList =
      ((key.toList ++ ':' :: (toString b.sample).toList) ++ ':' :: (toString b.fp).toList) ++
        ':' :: (toString b.tp).toList := by
    intro key b
    simp [recommendationKeyFor, toString]
  have htexts := (htexts key b).symm.trans ((congrArg String.toList h).trans (htexts key' b'))
  -- the three numbers are taken off the end, one after the other
  have h₁ := (sep_append_inj (colon_notMem_toString _) (colon_notMem_toString _) htexts).1
  have h₂ := (sep_append_inj (colon_notMem_toString _) (colon_notMem_toString _) h₁).1
  have h₃ := (sep_append_inj (colon_notMem_toString _) (colon_notMem_toString _) h₂).1
  exact String.toList_injective h₃

namespace RecommendationDb

variable {db : RecommendationDb} {r : AdjustmentRecommendation}

/-- The row that an upsert writes, with its id. -/
def written (db : RecommendationDb) (r : AdjustmentRecommendation) :
    Sigma fun _ : Int => AdjustmentRecommendation :=
  match db.findKey r.recommendationKey with
  | some ⟨id, row⟩ => ⟨id, refresh row r⟩
  | none => ⟨db.nextRowId, { r with id := db.nextRowId }⟩

theorem upsert_eq (db : RecommendationDb) (r : AdjustmentRecommendation) :
    db.upsertAdjustmentRecommendation r =
      ((db.written r).1,
        { db with
          rows := db.rows.insert (db.written r).1 (db.written r).2
          nextRowId := db.nextRowId + 1 }) := by
  unfold upsertAdjustmentRecommendation written
  cases db.findKey r.recommendationKey with
  | none => rfl
  | some e => rfl

theorem of_findKey {e : Sigma fun _ : Int => AdjustmentRecommendation}
    (h : db.findKey key = some e) : db.rows.lookup e.1 = some e.2 ∧ e.2.recommendationKey = key :=
  ⟨mem_lookup_iff.2 (mem_of_find?_eq_some h), by simpa using find?_some h⟩

theorem written_spec (db : RecommendationDb) (r : AdjustmentRecommendation) :
    (db.written r).2.recommendationKey = r.recommendationKey ∧
      refresh (db.written r).2 r = (db.written r).2 := by
  unfold written
  cases hfind : db.findKey r.recommendationKey with
  | none => exact ⟨rfl, rfl⟩
  | some e => exact ⟨(of_findKey hfind).2, rfl⟩

/-- The row it takes the place of, if any, has the same key. -/
theorem lookup_written {row : AdjustmentRecommendation}
    (hdb : ∀ id row, db.rows.lookup id = some row → id < db.nextRowId)
    (hrow : db.rows.lookup (db.written r).1 = some row) :
    row.recommendationKey = r.recommendationKey := by
  unfold written at hrow
  cases hfind : db.findKey r.recommendationKey with
  | none =>
    rw [hfind] at hrow
    exact absurd (hdb _ _ hrow) (Int.lt_irrefl _)
  | some e =>
    rw [hfind] at hrow
    obtain ⟨hlookup, hkey⟩ := of_findKey hfind
    rw [← some.inj (hlookup.symm.trans hrow)]
    exact hkey

theorem find?_kerase {p : (Sigma fun _ : Int => AdjustmentRecommendation) → Bool} {id : Int}
    {l : List (Sigma fun _ : Int => AdjustmentRecommendation)}
    (h : ∀ e ∈ l, e.1 = id → p e = false) : (l.kerase id).find? p = l.find? p := by
  induction l with
  | nil => rfl
  | cons e l ih =>
    by_cases hid : id = e.1
    · rw [kerase_cons_eq hid, find?_cons_of_neg]
      rw [h e mem_cons_self hid.symm]
      exact Bool.false_ne_true
    · rw [kerase_cons_ne hid, find?_cons, find?_cons, ih fun e' he' => h e' (mem_cons_of_mem _ he')]

/-- An upsert is found under its key and changes nothing for other keys. -/
theorem findKey_upsert (r : AdjustmentRecommendation)
    (hdb : ∀ id row, db.rows.lookup id = some row → id < db.nextRowId) (key : String) :
    (db.upsertAdjustmentRecommendation r).2.findKey key =
      if key = r.recommendationKey then some (db.written r) else db.findKey key := by
  rw [upsert_eq]
  unfold findKey
  rw [entries_insert, find?_cons, (written_spec db r).1]
  by_cases hkey : key = r.recommendationKey
  · simp [hkey]
  have hother : ∀ e ∈ db.rows.entries, e.1 = (db.written r).1 →
      decide (e.2.recommendationKey = key) = false := by
    rintro ⟨id, row⟩ hmem rfl
    rw [lookup_written hdb (mem_lookup_iff.2 hmem)]
    simpa using Ne.symm hkey
  rw [find?_kerase hother]
  simp [hkey, Ne.symm hkey]

end RecommendationDb

namespace LearningState

variable {s : LearningState} {db : RecommendationDb} {r r' : AdjustmentRecommendation}

/-! ## With a database -/

/-- The same recommendations are stored, and in memory. -/
def SameRecommendations (s s' : LearningState) : Prop :=
  ∀ id, s'.find id = s.find id ∧ s'.recommendations.lookup id = s.recommendations.lookup id

theorem SameRecommendations.trans {s₁ s₂ s₃ : LearningState} (h : SameRecommendations s₁ s₂)
    (h' : SameRecommendations s₂ s₃) : SameRecommendations s₁ s₃ :=
  fun id => ⟨(h' id).1.trans (h id).1, (h' id).2.trans (h id).2⟩

/-- A recommendation is in its row, and in memory under the row's id, whatever its own. -/
def Settled (s : LearningState) (r : AdjustmentRecommendation) : Prop :=
  ∃ db e, s.db = some db ∧ db.findKey r.recommendationKey = some e ∧
    refresh e.2 r = e.2 ∧ s.recommendations.lookup e.1 = some { r with id := e.1 }

theorem record_db (hdb : s.db = some db) (r : AdjustmentRecommendation) : s.record .none r =
      { s with
        nextRecommendationId := s.nextRecommendationId + 1
        recommendations :=
          s.recommendations.insert (db.written r).1 { r with id := (db.written r).1 }
        db := some (db.upsertAdjustmentRecommendation r).2 } := by
  simp only [record, hdb, DbFailures.none, Bool.false_eq_true, if_false]
  rw [upsert_eq]

theorem numbered_db (hs : s.Numbered) (hdb : s.db = some db) :
    ∀ id row, db.rows.lookup id = some row → id < db.nextRowId := by
  intro id row hrow
  have hlt := hs id row (by simpa [find, stored, hdb] using hrow)
  simpa [nextId, hdb] using hlt

theorem settled_record (hs : s.Numbered) (hdb : s.db = some db) (r : AdjustmentRecommendation) :
    Settled (s.record .none r) r := by
  rw [record_db hdb]
  refine ⟨_, db.written r, rfl, ?_, (db.written_spec r).2, lookup_insert _⟩
  rw [findKey_upsert r (numbered_db hs hdb), if_pos rfl]

/-- A recommendation with another key gets another id. -/
theorem Settled.record (h : Settled s r) (hs : s.Numbered)
    (hkey : r.recommendationKey ≠ r'.recommendationKey) : Settled (s.record .none r') r := by
  obtain ⟨db, e, hdb, hfind, hrefresh, hmemory⟩ := h
  obtain ⟨hrow, hrowKey⟩ := of_findKey hfind
  have hne : e.1 ≠ (db.written r').1 := by
    intro heq
    rw [heq] at hrow
    have hsame := lookup_written (numbered_db hs hdb) hrow
    exact hkey (hrowKey.symm.trans hsame)
  rw [record_db hdb]
  refine ⟨_, e, rfl, ?_, hrefresh, ?_⟩
  · rw [findKey_upsert r' (numbered_db hs hdb), if_neg hkey, hfind]
  · exact (lookup_insert_ne hne).trans hmemory

theorem Settled.same (h : Settled s r) : SameRecommendations s (s.record .none r) := by
  obtain ⟨db, e, hdb, hfind, hrefresh, hmemory⟩ := h
  have hrow := (of_findKey hfind).1
  have hwritten : db.written r = e := by
    rw [written, hfind]
    dsimp only
    rw [hrefresh]
  rw [record_db hdb]
  intro id
  simp only [find, stored, upsert_eq, hwritten, hdb]
  rw [lookup_insert_eq, lookup_insert_eq]
  split
  · next hid => exact ⟨by rw [hid, hrow], by rw [hid, hmemory]⟩
  · exact ⟨rfl, rfl⟩

/-! ## One threshold of the loop -/

section

variable (t : ThresholdStore) (outcomes : List OutcomeLearningRecord)

/-- The recommendation for a threshold, but for its id. -/
def recommended (key : String) : Option AdjustmentRecommendation :=
  recommend t 0 key (bucketFor (bucketsOf outcomes) key)

/-- One threshold, with the outcomes that count for it. -/
def learn (s : LearningState) (key : String) : LearningState :=
  s.learnKey .none key (bucketFor (bucketsOf outcomes) key)

variable {t outcomes}

/-- Between two thresholds. -/
structure Learning (t : ThresholdStore) (isSome : Bool) (s : LearningState) : Prop where
  thresholds : s.thresholds = t
  isSome : s.db.isSome = isSome
  numbered : s.Numbered

theorem learn_of_none (ht : s.thresholds = t) (h : recommended t outcomes key = none) :
    s.learn outcomes key = s := by
  rw [learn, learnKey, recommend_eq_map _ _ 0, ht]
  rw [recommended] at h
  rw [h]
  rfl

theorem learn_of_some (ht : s.thresholds = t) (h : recommended t outcomes key = some r) :
    s.learn outcomes key = s.record .none { r with id := s.nextRecommendationId } := by
  rw [learn, learnKey, recommend_eq_map _ _ 0, ht]
  rw [recommended] at h
  rw [h]
  rfl

theorem Learning.learn {isSome : Bool} (h : Learning t isSome s) (key : String) :
    Learning t isSome (s.learn outcomes key) := by
  cases hr : recommended t outcomes key with
  | none =>
    rw [learn_of_none h.thresholds hr]
    exact h
  | some r =>
    rw [learn_of_some h.thresholds hr]
    have hpending : r.status = .pending := (of_recommend hr).2.2
    obtain ⟨id, r', m, hmakes⟩ := makes_record (s := s)
      (r := { r with id := s.nextRecommendationId }) rfl hpending
    exact ⟨(thresholds_record _).trans h.thresholds, hmakes.db.trans h.isSome,
      hmakes.numbered h.numbered⟩

/-- With a database, a threshold settles its recommendation. -/
theorem settled_learn_own (h : Learning t true s) (hr : recommended t outcomes key = some r) :
    Settled (s.learn outcomes key) r := by
  obtain ⟨db, hdb⟩ := isSome_iff_exists.1 h.isSome
  rw [learn_of_some h.thresholds hr]
  exact settled_record h.numbered hdb _

theorem Settled.learn {key' : String} (h : Learning t true s)
    (hr : recommended t outcomes key = some r) (hsettled : Settled s r) :
    Settled (s.learn outcomes key') r := by
  cases hr' : recommended t outcomes key' with
  | none =>
    rw [learn_of_none h.thresholds hr']
    exact hsettled
  | some r' =>
    rcases eq_or_ne key key' with rfl | hne
    · exact settled_learn_own h hr
    · have hkey : r.recommendationKey ≠ r'.recommendationKey := by
        rw [(of_recommend hr).2.1, (of_recommend hr').2.1]
        exact fun heq => hne (recommendationKeyFor_inj heq)
      rw [learn_of_some h.thresholds hr']
      exact hsettled.record h.numbered hkey

theorem same_learn (h : Learning t true s)
    (hsettled : ∀ r ∈ recommended t outcomes key, Settled s r) :
    SameRecommendations s (s.learn outcomes key) := by
  cases hr : recommended t outcomes key with
  | none =>
    rw [learn_of_none h.thresholds hr]
    exact fun _ => ⟨rfl, rfl⟩
  | some r =>
    rw [learn_of_some h.thresholds hr]
    exact Settled.same (hsettled r hr)

theorem settled_run (h : Learning t true s) (keys : List String) :
    ∀ key ∈ keys, ∀ r ∈ recommended t outcomes key, Settled (run (learn outcomes) s keys) r := by
  refine run_establishes (I := Learning t true)
    (P := fun key s => ∀ r ∈ recommended t outcomes key, Settled s r) h ?_ ?_ ?_ keys
  · exact fun s key h => h.learn key
  · exact fun s key h r hr => settled_learn_own h hr
  · exact fun s key key' h hsettled r hr => Settled.learn h hr (hsettled r hr)

theorem same_run (h : Learning t true s) {keys : List String}
    (hsettled : ∀ key ∈ keys, ∀ r ∈ recommended t outcomes key, Settled s r) :
    SameRecommendations s (run (learn outcomes) s keys) := by
  have hinvariant : Learning t true (run (learn outcomes) s keys) ∧
      (∀ key ∈ keys, ∀ r ∈ recommended t outcomes key, Settled (run (learn outcomes) s keys) r) ∧
      SameRecommendations s (run (learn outcomes) s keys) := by
    refine run_invariant_of_mem (I := fun s' => Learning t true s' ∧
      (∀ key ∈ keys, ∀ r ∈ recommended t outcomes key, Settled s' r) ∧
      SameRecommendations s s') ⟨h, hsettled, fun _ => ⟨rfl, rfl⟩⟩ ?_
    rintro s' key hmem ⟨h, hsettled, hsame⟩
    refine ⟨h.learn key, ?_, hsame.trans (same_learn h (hsettled key hmem))⟩
    exact fun key' hmem' r hr => Settled.learn h hr (hsettled key' hmem' r hr)
  exact hinvariant.2.2

/-! ## Without a database -/

/-- A recommendation gets the next id, and the others stay. -/
theorem find_record_memory (hdb : s.db = none) (id : Int) :
    (s.record .none r).find id = if id = r.id then some r else s.find id := by
  simp only [record, hdb, find, stored]
  exact lookup_insert_eq ..

/-- An id is the next one, or used. -/
def Reached (n : Int) (s : LearningState) : Prop :=
  s.nextRecommendationId = n ∨ s.find n ≠ none

theorem Reached.found {n : Int} (h : Learning t false s) (hn : Reached n s)
    (hr : recommended t outcomes key = some r) : (s.learn outcomes key).find n ≠ none := by
  rw [learn_of_some h.thresholds hr, find_record_memory (by simpa using h.isSome)]
  rcases hn with hnext | hfound
  · simp [hnext]
  · split
    · exact some_ne_none _
    · exact hfound

theorem Reached.learn {n : Int} (h : Learning t false s) (hn : Reached n s) (key : String) :
    Reached n (s.learn outcomes key) := by
  cases hr : recommended t outcomes key with
  | none =>
    rw [learn_of_none h.thresholds hr]
    exact hn
  | some r => exact .inr (hn.found h hr)

/-- If a run makes a recommendation, the next id is used. -/
theorem next_found_of_run (h : Learning t false s) {keys : List String} (hmem : key ∈ keys)
    (hr : recommended t outcomes key ≠ none) :
    (run (learn outcomes) s keys).find s.nextRecommendationId ≠ none := by
  refine run_establishes
    (I := fun s' => Learning t false s' ∧ Reached s.nextRecommendationId s')
    (P := fun key s' => recommended t outcomes key ≠ none →
      s'.find s.nextRecommendationId ≠ none) ⟨h, .inl rfl⟩ ?_ ?_ ?_ keys key hmem hr
  · exact fun s' key h => ⟨h.1.learn key, h.2.learn h.1 key⟩
  · intro s' key h hr
    obtain ⟨r, hr⟩ := ne_none_iff_exists'.1 hr
    exact h.2.found h.1 hr
  · intro s' key key' h hfound hr
    cases hr' : recommended t outcomes key with
    | none =>
      rw [learn_of_none h.1.thresholds hr']
      exact hfound hr
    | some r => exact h.2.found h.1 hr'

end

/-! ## The loop -/

/-- The thresholds with outcomes, in the order of the loop. -/
def learnedKeys (outcomes : List OutcomeLearningRecord) : List String :=
  (bucketsOf outcomes).keys.mergeSort fun a b => ¬ b < a

theorem runLearningLoopOnce_eq (s : LearningState) (outcomes : List OutcomeLearningRecord) :
    s.runLearningLoopOnce .none outcomes = run (learn outcomes) s (learnedKeys outcomes) :=
  rfl

/-- There are outcomes for a threshold with a recommendation. -/
theorem mem_learnedKeys {t : ThresholdStore} {outcomes : List OutcomeLearningRecord}
    (h : recommended t outcomes key ≠ none) : key ∈ learnedKeys outcomes := by
  rw [learnedKeys, mem_mergeSort]
  by_contra hnot
  refine h ?_
  rw [recommended, recommend_eq_none_iff, bucketFor, lookup_eq_none.2 hnot]
  exact .inl (by decide)

theorem Learning.runLearningLoopOnce {t : ThresholdStore} {isSome : Bool}
    (h : Learning t isSome s) (outcomes : List OutcomeLearningRecord) :
    Learning t isSome (s.runLearningLoopOnce .none outcomes) :=
  run_invariant h (fun _ key h => h.learn key) _

/-- The numbering is kept by every call. -/
theorem numbered_exec {s : Recorded} (hs : s.state.Numbered) (op : Operation) :
    (s.exec op).state.Numbered := by
  cases op with
  | learn outcomes =>
    have hstart : Learning s.state.thresholds s.state.db.isSome s.state := ⟨rfl, rfl, hs⟩
    exact (hstart.runLearningLoopOnce outcomes).numbered
  | approve uuid id req =>
    obtain ⟨e, herror⟩ | ⟨r, v, out, s', -, hok, -, hdecides, -⟩ :=
      approve_cases s.state uuid id req
    · simp only [Recorded.exec, herror]
      exact hs
    · simp only [Recorded.exec, hok]
      split <;> exact hdecides.numbered hs
  | reject id req =>
    obtain ⟨e, herror⟩ | ⟨r, out, s', hok, -, hdecides⟩ := reject_cases s.state id req
    · simp only [Recorded.exec, herror]
      exact hs
    · simp only [Recorded.exec, hok]
      exact hdecides.numbered hs
  | revert id req =>
    obtain ⟨e, t, herror⟩ | ⟨r, out, s', -, hok, -, hdecides⟩ := revert_cases s.state id req
    · simp only [Recorded.exec, herror]
      exact hs
    · simp only [Recorded.exec, hok]
      split <;> exact hdecides.numbered hs

/-- **When the loop is idempotent.** A second run changes no recommendations exactly if there is a
database or nothing to recommend. -/
theorem learning_twice_iff (hs : s.Numbered) (outcomes : List OutcomeLearningRecord) :
    SameRecommendations (s.runLearningLoopOnce .none outcomes)
        ((s.runLearningLoopOnce .none outcomes).runLearningLoopOnce .none outcomes) ↔
      s.db.isSome = true ∨ NoChange s.thresholds outcomes := by
  have hstart : Learning s.thresholds s.db.isSome s := ⟨rfl, rfl, hs⟩
  have honce := hstart.runLearningLoopOnce outcomes
  cases hdb : s.db.isSome with
  | true =>
    rw [hdb] at hstart honce
    simp only [true_or, iff_true]
    exact same_run honce (settled_run hstart _)
  | false =>
    rw [hdb] at hstart honce
    simp only [Bool.false_eq_true, false_or]
    rw [noChange_iff]
    constructor
    · -- the id that the second run uses first was not found after the first one
      intro hsame key
      by_contra hr
      have hfound := next_found_of_run honce (mem_learnedKeys hr) hr
      have hnext : (s.runLearningLoopOnce .none outcomes).nextId =
          (s.runLearningLoopOnce .none outcomes).nextRecommendationId := by
        have hnone : (s.runLearningLoopOnce .none outcomes).db = none := by
          simpa using honce.isSome
        simp [nextId, hnone]
      rw [← runLearningLoopOnce_eq, (hsame _).1] at hfound
      obtain ⟨r, hr⟩ := ne_none_iff_exists'.1 hfound
      have hlt := honce.numbered _ r hr
      omega
    · intro hnone
      have hsame : ∀ s' : LearningState, s'.thresholds = s.thresholds →
          s'.runLearningLoopOnce .none outcomes = s' := by
        intro s' ht
        refine run_invariant (I := fun s'' => s'' = s') rfl ?_ _
        rintro s'' key rfl
        exact learn_of_none ht (hnone key)
      rw [hsame s rfl, hsame s rfl]
      exact fun _ => ⟨rfl, rfl⟩

theorem settled_in_database_twice :
    let s : LearningState := ⟨.new, ∅, 1, some ⟨∅, 1, 1⟩⟩
    let once := s.runLearningLoopOnce .none (falsePositives 3)
    SameRecommendations once (once.runLearningLoopOnce .none (falsePositives 3)) :=
  (learning_twice_iff (fun _ _ h => absurd h (by simp [find, stored])) _).2 (.inl rfl)

/-- Without a database, the second run makes it once more, with a new id. -/
theorem recommended_twice_in_memory :
    let once := runLearningLoopOnce .none ⟨.new, ∅, 1, none⟩ (falsePositives 3)
    let twice := once.runLearningLoopOnce .none (falsePositives 3)
    once.find 2 = none ∧ (once.find 1).isSome ∧ twice.find 1 = once.find 1 ∧
      twice.find 2 = (once.find 1).map fun r => { r with id := 2 } := by
  decide +kernel

end LearningState

end Haltchain.Validator

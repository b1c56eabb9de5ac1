import Haltchain.Validator.Recommendations

/-! # The life of a recommendation

A recommendation is made, decided once, and what it applied may be reverted. Two things are left to
the callers: only what is pending may be rejected, and the outcomes must not lead to the key of a
decided row, since the loop then writes to it. -/

namespace Haltchain.Validator

open Lib Option AList

namespace LearningState

variable {s : LearningState} {id : Int} {r : AdjustmentRecommendation}

/-! ## A recommendation is made -/

theorem of_recommend {t : ThresholdStore} {key : String} {bucket : Bucket}
    (h : recommend t id key bucket = some r) :
    r.id = id ∧ r.recommendationKey = recommendationKeyFor key bucket ∧ r.status = .pending := by
  unfold recommend at h
  split at h
  · cases h
  obtain ⟨proposed, -, h⟩ := bind_eq_some_iff.1 h
  dsimp only at h
  split at h
  · cases h
  · cases h
    exact ⟨rfl, rfl, rfl⟩

/-- With a database, some row with the key is no longer pending. -/
def KeyDecided (s : LearningState) (recommendationKey : String) : Prop :=
  s.db.isSome ∧
    ∃ e ∈ s.stored.entries, e.2.recommendationKey = recommendationKey ∧ e.2.status ≠ .pending
deriving Decidable

theorem keyDecided_iff {recommendationKey : String} :
    s.KeyDecided recommendationKey ↔ s.db.isSome ∧ ∃ id row, s.find id = some row ∧
      row.recommendationKey = recommendationKey ∧ row.status ≠ .pending := by
  refine and_congr_right fun _ => ⟨?_, ?_⟩
  · rintro ⟨⟨id, row⟩, hmem, hrow⟩
    exact ⟨id, row, mem_lookup_iff.2 hmem, hrow⟩
  · rintro ⟨id, row, hfound, hrow⟩
    exact ⟨⟨id, row⟩, mem_lookup_iff.1 hfound, hrow⟩

/-- Two copies say the same of what is to be decided, and whether it is. -/
def Agree (r m : AdjustmentRecommendation) : Prop :=
  m.status = r.status ∧ m.currentThreshold = r.currentThreshold ∧
    m.proposedThreshold = r.proposedThreshold

/-- A recommendation has been made under an id, new or of a row with its key. -/
structure Makes (s s' : LearningState) (r : AdjustmentRecommendation) (id : Int)
    (r' m : AdjustmentRecommendation) : Prop where
  stored : s'.stored = s.stored.insert id r'
  kept : s'.recommendations = s.recommendations.insert id m
  nextId : s'.nextId = s.nextId + 1
  db : s'.db.isSome = s.db.isSome
  key : r'.recommendationKey = r.recommendationKey
  agree : r'.status = .pending → Agree r' m
  cases : (id = s.nextId ∧ r'.status = .pending) ∨
    ∃ row, s.find id = some row ∧ row.recommendationKey = r.recommendationKey ∧
      r'.status = row.status ∧ s.db.isSome

theorem makes_record (hid : r.id = s.nextRecommendationId) (hpending : r.status = .pending) :
    ∃ id r' m, Makes s (s.record .none r) r id r' m := by
  cases hdb : s.db with
  | none =>
    refine ⟨r.id, r, r, ?_, ?_, ?_, ?_, rfl, fun _ => ⟨rfl, rfl, rfl⟩, .inl ⟨?_, hpending⟩⟩ <;>
      simp [record, stored, nextId, hdb, hid]
  | some db =>
    obtain hnew | ⟨id, row, hrow, hkey, hupdate⟩ := db.upsert_cases r
    · refine ⟨db.nextRowId, { r with id := db.nextRowId }, { r with id := db.nextRowId }, ?_, ?_,
        ?_, ?_, rfl, fun _ => ⟨rfl, rfl, rfl⟩, .inl ⟨?_, hpending⟩⟩ <;>
        simp [record, DbFailures.none, stored, nextId, hdb, hnew]
    · refine ⟨id, RecommendationDb.refresh row r, { r with id }, ?_, ?_, ?_, ?_, hkey,
        fun h => ⟨hpending.trans h.symm, rfl, rfl⟩, .inr ⟨row, ?_, hkey, rfl, ?_⟩⟩ <;>
        simp [record, DbFailures.none, stored, find, nextId, hdb, hupdate, hrow]

theorem thresholds_record (r : AdjustmentRecommendation) :
    (s.record .none r).thresholds = s.thresholds := by
  unfold record
  cases s.db with
  | none => rfl
  | some db => rfl

/-! ## One step of a life -/

/-- The statuses that may follow. -/
def nextStatuses : RecommendationStatus → List RecommendationStatus
  | .pending => [.approved, .applied, .rejected]
  | .applied => [.reverted]
  | _ => []

/-- What may become of a recommendation. -/
structure Lawful (r r' : AdjustmentRecommendation) : Prop where
  status : r'.status = r.status ∨ r'.status ∈ nextStatuses r.status
  thresholds : r.status ≠ .pending →
    r'.currentThreshold = r.currentThreshold ∧ r'.proposedThreshold = r.proposedThreshold

theorem Lawful.refl (r : AdjustmentRecommendation) : Lawful r r := ⟨.inl rfl, fun _ => ⟨rfl, rfl⟩⟩

theorem Lawful.of_agree {r r' m m' : AdjustmentRecommendation} (h : Lawful r r') (hm : Agree r m)
    (hm' : Agree r' m') : Lawful m m' := by
  obtain ⟨hstatus, hcurrent, hproposed⟩ := hm
  obtain ⟨hstatus', hcurrent', hproposed'⟩ := hm'
  refine ⟨?_, ?_⟩
  · rw [hstatus, hstatus']
    exact h.status
  · rw [hstatus, hcurrent, hproposed, hcurrent', hproposed']
    exact h.thresholds

structure Evolves (s s' : LearningState) : Prop where
  stored : ∀ id r, s.find id = some r → ∃ r', s'.find id = some r' ∧ Lawful r r'
  kept : ∀ id m, s.recommendations.lookup id = some m →
    ∃ m', s'.recommendations.lookup id = some m'

theorem Evolves.refl (s : LearningState) : Evolves s s :=
  ⟨fun _ r hr => ⟨r, hr, Lawful.refl r⟩, fun _ m hm => ⟨m, hm⟩⟩

/-- Ids are given out in order. -/
def Numbered (s : LearningState) : Prop := ∀ id r, s.find id = some r → id < s.nextId

/-- Ids are given out in order, and memory agrees with what is stored. -/
structure Consistent (s : LearningState) : Prop where
  numbered : Numbered s
  copies : ∀ id m, s.recommendations.lookup id = some m → ∃ r, s.find id = some r ∧ Agree r m

variable {s' : LearningState} {status : RecommendationStatus}

theorem Decides.evolves (h : Decides s s' id r status) (hstatus : status ∈ nextStatuses r.status) :
    Evolves s s' where
  stored := by
    intro j r₁ hj
    rcases eq_or_ne j id with rfl | hne
    · obtain rfl : r = r₁ := some.inj (h.found.symm.trans hj)
      obtain ⟨r', hr', hversion, hr'status⟩ := h.stored
      exact ⟨r', hr', .inr (hr'status ▸ hstatus),
        fun _ => ⟨hversion.currentThreshold, hversion.proposedThreshold⟩⟩
    · exact ⟨r₁, ((h.others j hne).1).trans hj, Lawful.refl r₁⟩
  kept := by
    intro j m hj
    rcases eq_or_ne j id with rfl | hne
    · obtain ⟨m', hm', -⟩ := h.kept
      exact ⟨m', hm'⟩
    · exact ⟨m, ((h.others j hne).2).trans hj⟩

theorem Decides.numbered (h : Decides s s' id r status) (hs : Numbered s) : Numbered s' := by
  intro j r₁ hj
  rw [h.nextId]
  rcases eq_or_ne j id with rfl | hne
  · exact hs j r h.found
  · exact hs j r₁ ((h.others j hne).1 ▸ hj)

theorem Decides.consistent (h : Decides s s' id r status) (hs : Consistent s) : Consistent s' where
  numbered := h.numbered hs.numbered
  copies := by
    intro j m hj
    rcases eq_or_ne j id with rfl | hne
    · obtain ⟨r', hr', hversion, hr'status⟩ := h.stored
      obtain ⟨m', hm', hmversion, hm'status⟩ := h.kept
      obtain rfl : m' = m := some.inj (hm'.symm.trans hj)
      exact ⟨r', hr', hm'status.trans hr'status.symm,
        hmversion.currentThreshold.trans hversion.currentThreshold.symm,
        hmversion.proposedThreshold.trans hversion.proposedThreshold.symm⟩
    · rw [(h.others j hne).2] at hj
      rw [(h.others j hne).1]
      exact hs.copies j m hj

/-- What the loop has done so far: decided rows are as they were. -/
structure Learned (s s' : LearningState) : Prop where
  consistent : Consistent s'
  thresholds : s'.thresholds = s.thresholds
  stored : ∀ id r, s.find id = some r →
    ∃ r', s'.find id = some r' ∧ (r' = r ∨ r.status = .pending ∧ r'.status = .pending)
  kept : ∀ id m, s.recommendations.lookup id = some m →
    ∃ m', s'.recommendations.lookup id = some m'
  decided : ∀ key, s'.KeyDecided key → s.KeyDecided key

theorem Learned.refl (hs : Consistent s) : Learned s s :=
  ⟨hs, rfl, fun _ r hr => ⟨r, hr, .inl rfl⟩, fun _ m hm => ⟨m, hm⟩, fun _ h => h⟩

theorem Learned.trans {s₁ s₂ s₃ : LearningState} (h : Learned s₁ s₂) (h' : Learned s₂ s₃) :
    Learned s₁ s₃ where
  consistent := h'.consistent
  thresholds := h'.thresholds.trans h.thresholds
  stored := by
    intro id r hr
    obtain ⟨r₂, hr₂, hsame⟩ := h.stored id r hr
    obtain ⟨r₃, hr₃, hsame'⟩ := h'.stored id r₂ hr₂
    refine ⟨r₃, hr₃, ?_⟩
    rcases hsame with rfl | ⟨hr, hr₂⟩
    · exact hsame'
    · rcases hsame' with rfl | ⟨-, hr₃⟩
      · exact .inr ⟨hr, hr₂⟩
      · exact .inr ⟨hr, hr₃⟩
  kept := by
    intro id m hm
    obtain ⟨m₂, hm₂⟩ := h.kept id m hm
    exact h'.kept id m₂ hm₂
  decided := fun key hkey => h.decided key (h'.decided key hkey)

theorem Learned.evolves (h : Learned s s') : Evolves s s' where
  stored := by
    intro id r hr
    obtain ⟨r', hr', rfl | ⟨hpending, hpending'⟩⟩ := h.stored id r hr
    · exact ⟨r', hr', Lawful.refl r'⟩
    · exact ⟨r', hr', .inl (hpending'.trans hpending.symm), fun hne => absurd hpending hne⟩
  kept := h.kept

section

variable {r' m : AdjustmentRecommendation}

section

variable (h : Makes s s' r id r' m)

include h

theorem Makes.find (j : Int) : s'.find j = if j = id then some r' else s.find j := by
  unfold LearningState.find
  rw [h.stored, lookup_insert_eq]

theorem Makes.pending (hkey : ¬ s.KeyDecided r.recommendationKey) : r'.status = .pending := by
  rcases h.cases with ⟨-, hpending⟩ | ⟨row, hrow, hrowKey, hstatus, hdb⟩
  · exact hpending
  · by_contra hne
    exact hkey (keyDecided_iff.2 ⟨hdb, id, row, hrow, hrowKey, hstatus ▸ hne⟩)

theorem Makes.numbered (hs : Numbered s) : Numbered s' := by
  intro j r₁ hj
  rw [h.nextId]
  rw [h.find] at hj
  split at hj
  · rcases h.cases with ⟨hnew, -⟩ | ⟨row, hrow, -⟩
    · omega
    · have := hs id row hrow
      omega
  · have := hs j r₁ hj
    omega

theorem Makes.consistent (hs : Consistent s) (hpending : r'.status = .pending) : Consistent s' where
  numbered := h.numbered hs.numbered
  copies := by
    intro j m₁ hj
    rw [h.kept] at hj
    rcases of_lookup_insert hj with ⟨rfl, rfl⟩ | ⟨hne, hj⟩
    · exact ⟨r', by rw [h.find, if_pos rfl], h.agree hpending⟩
    · rw [h.find, if_neg hne]
      exact hs.copies j m₁ hj

theorem Makes.learned (hs : Consistent s) (hthresholds : s'.thresholds = s.thresholds)
    (hkey : ¬ s.KeyDecided r.recommendationKey) : Learned s s' where
  consistent := h.consistent hs (h.pending hkey)
  thresholds := hthresholds
  stored := by
    intro j r₁ hj
    rw [h.find]
    split
    · next hid =>
      -- the row has the id of one that is stored: it cannot be new
      refine ⟨r', rfl, .inr ⟨?_, h.pending hkey⟩⟩
      subst hid
      rcases h.cases with ⟨hnew, -⟩ | ⟨row, hrow, -, hstatus, -⟩
      · have := hs.numbered j r₁ hj
        omega
      · obtain rfl : row = r₁ := some.inj (hrow.symm.trans hj)
        exact hstatus.symm.trans (h.pending hkey)
    · exact ⟨r₁, hj, .inl rfl⟩
  kept := by
    intro j m₁ hj
    rw [h.kept]
    rcases eq_or_ne j id with rfl | hne
    · exact ⟨m, lookup_insert _⟩
    · exact ⟨m₁, (lookup_insert_ne hne).trans hj⟩
  decided := by
    intro key hdecided
    obtain ⟨hdb, j, row, hj, hrow⟩ := keyDecided_iff.1 hdecided
    rw [h.find] at hj
    split at hj
    · cases hj
      exact absurd (h.pending hkey) hrow.2
    · exact keyDecided_iff.2 ⟨h.db ▸ hdb, j, row, hj, hrow⟩

end

end

/-- A recommendation is made, and a row with its key is decided. -/
def Reopens (s : LearningState) (outcomes : List OutcomeLearningRecord) : Prop :=
  ∃ key ∈ (bucketsOf outcomes).keys,
    (recommend s.thresholds 0 key (bucketFor (bucketsOf outcomes) key)).isSome ∧
    s.KeyDecided (recommendationKeyFor key (bucketFor (bucketsOf outcomes) key))
deriving Decidable

/-- The id is only a field. -/
theorem recommend_eq_map (t : ThresholdStore) (id id' : Int) (key : String) (bucket : Bucket) :
    recommend t id key bucket = (recommend t id' key bucket).map fun r => { r with id } := by
  unfold recommend
  split
  · rfl
  dsimp only
  rw [map_bind]
  congr 1
  funext proposed
  dsimp only [Function.comp]
  split <;> rfl

theorem learned_runLearningLoopOnce {outcomes : List OutcomeLearningRecord} (hs : Consistent s)
    (hreopens : ¬ s.Reopens outcomes) : Learned s (s.runLearningLoopOnce .none outcomes) := by
  refine run_invariant_of_mem (I := Learned s) (Learned.refl hs) ?_
  intro s₁ key hmem hlearned
  rw [List.mem_mergeSort] at hmem
  unfold learnKey
  cases hr : recommend s₁.thresholds s₁.nextRecommendationId key
      (bucketFor (bucketsOf outcomes) key) with
  | none => exact hlearned
  | some r =>
    obtain ⟨hid, hkey, hpending⟩ := of_recommend hr
    have hsome : (recommend s.thresholds 0 key (bucketFor (bucketsOf outcomes) key)).isSome := by
      rw [recommend_eq_map _ 0 s₁.nextRecommendationId, isSome_map, ← hlearned.thresholds,
        hr]
      rfl
    have hundecided : ¬ s₁.KeyDecided r.recommendationKey := by
      rw [hkey]
      exact fun h => hreopens ⟨key, hmem, hsome, hlearned.decided _ h⟩
    obtain ⟨id, r', m, hmakes⟩ := makes_record hid hpending
    exact hlearned.trans (hmakes.learned hlearned.consistent (thresholds_record r) hundecided)

/-! ## Runs -/

inductive Operation where
  | learn (outcomes : List OutcomeLearningRecord)
  | approve (uuid : String) (id : Int) (req : ApproveRecommendationRequest)
  | reject (id : Int) (req : ReviewRequest)
  | revert (id : Int) (req : ReviewRequest)

/-- The state, with the recommendation behind each override and variant. -/
structure Recorded where
  state : LearningState
  overrideBy : AList (fun _ : String => Int)
  variantBy : AList (fun _ : String => Int)

namespace Recorded

/-- No recommendations. -/
def start (thresholds : ThresholdStore) (db : Option RecommendationDb) : Recorded :=
  ⟨⟨thresholds, ∅, 1, db⟩, ∅, ∅⟩

/-- All calls of the database succeed. -/
def exec (s : Recorded) : Operation → Recorded
  | .learn outcomes => { s with state := s.state.runLearningLoopOnce .none outcomes }
  | .approve uuid id req =>
    match s.state.approveRecommendation .none uuid id req with
    | (.error _, state) => { s with state }
    | (.ok r, state) =>
      match r.variantId with
      | some variantId => { s with state, variantBy := s.variantBy.insert variantId id }
      | none => { s with state, overrideBy := s.overrideBy.insert r.thresholdKey id }
  | .reject id req => { s with state := (s.state.rejectRecommendation .none id req).2 }
  | .revert id req =>
    match s.state.revertRecommendation .none id req with
    | (.error _, state) => { s with state }
    | (.ok r, state) =>
      match r.variantId with
      | some _ => { s with state }
      | none => { s with state, overrideBy := s.overrideBy.erase r.thresholdKey }

/-- An override or variant that is there came from approving the recommendation. -/
def InForce (s : Recorded) (id : Int) : Prop :=
  (∃ key, s.overrideBy.lookup key = some id) ∨
    ∃ variantId, s.variantBy.lookup variantId = some id ∧
      variantId ∈ s.state.thresholds.variants

/-- What the callers take care of. -/
def Guarded (s : Recorded) : Operation → Prop
  | .learn outcomes => ¬ s.state.Reopens outcomes
  | .reject id _ => ∀ r ∈ s.state.find id, r.status = .pending
  | _ => True

instance (s : Recorded) (op : Operation) : Decidable (s.Guarded op) := by
  unfold Guarded
  split <;> infer_instance

/-! ## Every run -/

/-- It has been approved at some time. -/
def Granted (r : AdjustmentRecommendation) : Prop :=
  r.status ∈ [RecommendationStatus.approved, .applied, .reverted]

theorem Granted.of_lawful {r r' : AdjustmentRecommendation} (h : Granted r) (hlaw : Lawful r r') :
    Granted r' := by
  unfold Granted at h ⊢
  rcases hlaw.status with hsame | hnext
  · rw [hsame]
    exact h
  · cases hr : r.status <;> simp_all [nextStatuses]

/-- Something was created by approving the recommendation. -/
def Credited (s : Recorded) (id : Int) : Prop :=
  (∃ key, s.overrideBy.lookup key = some id) ∨ ∃ variantId, s.variantBy.lookup variantId = some id

theorem InForce.credited {s : Recorded} {id : Int} (h : s.InForce id) : s.Credited id :=
  h.imp_right fun ⟨variantId, hid, _⟩ => ⟨variantId, hid⟩

/-- What holds of every run. -/
structure Sound (s : Recorded) : Prop where
  consistent : Consistent s.state
  credited : ∀ id, s.Credited id → ∃ r, s.state.find id = some r ∧ Granted r

variable {s : Recorded}

theorem sound_start {thresholds : ThresholdStore} {db : Option RecommendationDb}
    (hdb : ∀ d ∈ db, ∀ id ∈ d.rows, id < d.nextRowId) : Sound (start thresholds db) where
  consistent := by
    refine ⟨?_, fun id m hm => ?_⟩
    · intro id r hr
      cases db with
      | none => simp [start, find, stored] at hr
      | some d => exact hdb d rfl id (lookup_isSome.1 (isSome_of_mem hr))
    · simp [start] at hm
  credited := by
    rintro id (⟨key, hkey⟩ | ⟨variantId, hid⟩)
    · simp [start] at hkey
    · simp [start] at hid

theorem Sound.next (h : Sound s) {s' : Recorded} (hevolves : Evolves s.state s'.state)
    (hconsistent : Consistent s'.state) (hcredited : ∀ id, s'.Credited id →
      s.Credited id ∨ ∃ r, s'.state.find id = some r ∧ Granted r) : Sound s' where
  consistent := hconsistent
  credited := by
    intro id hid
    rcases hcredited id hid with hold | hnew
    · obtain ⟨r, hr, hgranted⟩ := h.credited id hold
      obtain ⟨r', hr', hlaw⟩ := hevolves.stored id r hr
      exact ⟨r', hr', hgranted.of_lawful hlaw⟩
    · exact hnew

theorem exec_learn (h : Sound s) {outcomes : List OutcomeLearningRecord}
    (hop : s.Guarded (.learn outcomes)) :
    Evolves s.state (s.exec (.learn outcomes)).state ∧ Sound (s.exec (.learn outcomes)) := by
  have hlearned := learned_runLearningLoopOnce h.consistent hop
  exact ⟨hlearned.evolves, h.next hlearned.evolves hlearned.consistent fun _ hid => .inl hid⟩

theorem exec_approve (h : Sound s) (uuid : String) (id : Int) (req : ApproveRecommendationRequest) :
    Evolves s.state (s.exec (.approve uuid id req)).state ∧
      Sound (s.exec (.approve uuid id req)) := by
  obtain ⟨e, herror⟩ | ⟨r, v, out, s', hcheck, hok, -, hdecides, -⟩ :=
    approve_cases s.state uuid id req
  · simp only [exec, herror]
    exact ⟨Evolves.refl _, h⟩
  · have hstatus : approvalStatus v ∈ nextStatuses r.status := by
      rw [(of_checkApproval hcheck).1.pending]
      cases v <;> simp [approvalStatus, nextStatuses]
    have hgranted : ∃ r', s'.find id = some r' ∧ Granted r' := by
      obtain ⟨r', hr', -, hr'status⟩ := hdecides.stored
      refine ⟨r', hr', ?_⟩
      rw [Granted, hr'status]
      cases v <;> simp [approvalStatus]
    have hevolves := hdecides.evolves hstatus
    have hconsistent := hdecides.consistent h.consistent
    simp only [exec, hok]
    cases out.variantId with
    | some variantId =>
      refine ⟨hevolves, h.next hevolves hconsistent ?_⟩
      rintro j (⟨key, hkey⟩ | ⟨v', hv'⟩)
      · exact .inl (.inl ⟨key, hkey⟩)
      · rcases of_lookup_insert hv' with ⟨-, rfl⟩ | ⟨-, hv'⟩
        · exact .inr hgranted
        · exact .inl (.inr ⟨v', hv'⟩)
    | none =>
      refine ⟨hevolves, h.next hevolves hconsistent ?_⟩
      rintro j (⟨key, hkey⟩ | ⟨v', hv'⟩)
      · rcases of_lookup_insert hkey with ⟨-, rfl⟩ | ⟨-, hkey⟩
        · exact .inr hgranted
        · exact .inl (.inl ⟨key, hkey⟩)
      · exact .inl (.inr ⟨v', hv'⟩)

theorem exec_reject (h : Sound s) {id : Int} {req : ReviewRequest}
    (hop : s.Guarded (.reject id req)) :
    Evolves s.state (s.exec (.reject id req)).state ∧ Sound (s.exec (.reject id req)) := by
  obtain ⟨e, herror⟩ | ⟨r, out, s', hok, -, hdecides⟩ := reject_cases s.state id req
  · simp only [exec, herror]
    exact ⟨Evolves.refl _, h⟩
  · have hpending : r.status = .pending := hop r hdecides.found
    have hevolves := hdecides.evolves (by rw [hpending]; simp [nextStatuses])
    simp only [exec, hok]
    exact ⟨hevolves, h.next hevolves (hdecides.consistent h.consistent) fun _ hid => .inl hid⟩

theorem exec_revert (h : Sound s) (id : Int) (req : ReviewRequest) :
    Evolves s.state (s.exec (.revert id req)).state ∧ Sound (s.exec (.revert id req)) := by
  obtain ⟨e, t, herror⟩ | ⟨r, out, s', happlied, hok, -, hdecides⟩ := revert_cases s.state id req
  · -- recommendations do not depend on the thresholds
    simp only [exec, herror]
    have hevolves : Evolves s.state { s.state with thresholds := t } :=
      ⟨(Evolves.refl s.state).1, (Evolves.refl s.state).2⟩
    have hconsistent : Consistent { s.state with thresholds := t } :=
      ⟨h.consistent.1, h.consistent.2⟩
    exact ⟨hevolves, h.next hevolves hconsistent fun _ hid => .inl hid⟩
  · have hevolves := hdecides.evolves (by rw [happlied]; simp [nextStatuses])
    have hconsistent := hdecides.consistent h.consistent
    simp only [exec, hok]
    cases out.variantId with
    | some variantId => exact ⟨hevolves, h.next hevolves hconsistent fun _ hid => .inl hid⟩
    | none =>
      refine ⟨hevolves, h.next hevolves hconsistent ?_⟩
      rintro j (⟨key, hkey⟩ | hv)
      · exact .inl (.inl ⟨key, of_lookup_erase hkey⟩)
      · exact .inl (.inr hv)

/-- One call: recommendations evolve lawfully, and what is credited was granted. -/
theorem exec_sound (h : Sound s) {op : Operation} (hop : s.Guarded op) :
    Evolves s.state (s.exec op).state ∧ Sound (s.exec op) := by
  cases op with
  | learn outcomes => exact exec_learn h hop
  | approve uuid id req => exact exec_approve h uuid id req
  | reject id req => exact exec_reject h hop
  | revert id req => exact exec_revert h id req

/-- **The life of a recommendation**: along every run in which only pending recommendations are
rejected and the loop writes to no decided row, each copy takes only lawful steps, and nothing of a
rejected one is in force. -/
theorem lifecycle_of_guarded {thresholds : ThresholdStore} {db : Option RecommendationDb}
    (hdb : ∀ d ∈ db, ∀ id ∈ d.rows, id < d.nextRowId) (ops : List Operation) (op : Operation)
    (h : Throughout exec Guarded (start thresholds db) (ops ++ [op])) :
    let s := run exec (start thresholds db) ops
    (∀ id r, s.state.find id = some r →
      ∃ r', (s.exec op).state.find id = some r' ∧ Lawful r r') ∧
    (∀ id m, s.state.recommendations.lookup id = some m →
      ∃ m', (s.exec op).state.recommendations.lookup id = some m' ∧ Lawful m m') ∧
    ∀ id r, (s.exec op).state.find id = some r ∨
        (s.exec op).state.recommendations.lookup id = some r →
      r.status = .rejected → ¬ (s.exec op).InForce id := by
  intro s
  obtain ⟨hops, hop⟩ := throughout_concat.1 h
  have hsound : Sound s := hops.invariant (sound_start hdb) fun s op hs hop => (exec_sound hs hop).2
  obtain ⟨hevolves, hsound'⟩ := exec_sound hsound hop
  refine ⟨hevolves.stored, ?_, ?_⟩
  · -- the copies agree with what is stored, before and after
    intro id m hm
    obtain ⟨m', hm'⟩ := hevolves.kept id m hm
    obtain ⟨r, hr, hagree⟩ := hsound.consistent.copies id m hm
    obtain ⟨r', hr', hagree'⟩ := hsound'.consistent.copies id m' hm'
    obtain ⟨r'', hr'', hlaw⟩ := hevolves.stored id r hr
    obtain rfl : r' = r'' := some.inj (hr'.symm.trans hr'')
    exact ⟨m', hm', hlaw.of_agree hagree hagree'⟩
  · intro id r hr hrejected hforce
    obtain ⟨r', hr', hgranted⟩ := hsound'.credited id hforce.credited
    have hstatus : r.status = r'.status := by
      rcases hr with hr | hr
      · rw [some.inj (hr.symm.trans hr')]
      · obtain ⟨r'', hr'', hagree⟩ := hsound'.consistent.copies id r hr
        rw [hagree.1, some.inj (hr''.symm.trans hr')]
    rw [Granted, ← hstatus, hrejected] at hgranted
    simp at hgranted

/-- Reviews that found an action of a kind wrongly denied. -/
def falsePositives (n : Nat) : List OutcomeLearningRecord :=
  List.replicate n ⟨1, "t", some amountKey, "FALSE_POSITIVE"⟩

/-- An empty database. -/
def emptyDb : RecommendationDb := ⟨∅, 1, 1⟩

/-- A variant is made and reverted, and another recommendation made. -/
def variantReverted : List Operation :=
  [.learn (falsePositives 3), .approve "u" 1 (approvalFor ["b"]), .revert 1 review,
    .learn (falsePositives 4)]

theorem second_recommendation_rejected :
    let s := (run exec (start .new (some emptyDb)) variantReverted).exec (.reject 2 review)
    (s.state.find 1).map (·.status) = some .reverted ∧
      (s.state.find 2).map (·.status) = some .rejected ∧ ¬ s.InForce 2 := by
  intro s
  have hrejected : (s.state.find 2).map (·.status) = some .rejected := by decide +kernel
  refine ⟨by decide +kernel, hrejected, ?_⟩
  obtain ⟨r, hr, hstatus⟩ := map_eq_some_iff.1 hrejected
  have hguarded : Throughout exec Guarded (start .new (some emptyDb))
      (variantReverted ++ [.reject 2 review]) := by decide +kernel
  exact (lifecycle_of_guarded (by decide +kernel) _ _ hguarded).2.2 2 r (.inl hr) hstatus

/-- An approved recommendation is rejected with its override in force. With a database, the same
outcomes change the thresholds of an approved one, and put it back to pending in memory. -/
theorem decided_recommendations_change :
    let decisions := [Operation.learn (falsePositives 3), .approve "u" 1 (approvalFor [])]
    let approved := run exec (start .new none) decisions
    let rejected := approved.exec (.reject 1 review)
    let stored := run exec (start .new (some emptyDb)) decisions
    let learned := stored.exec (.learn (falsePositives 3))
    ((approved.state.find 1).map (·.status) = some .approved ∧
      (rejected.state.find 1).map (·.status) = some .rejected ∧ rejected.InForce 1 ∧
      rejected.state.thresholds.overrides.lookup amountKey = some (11 / 10)) ∧
    ((stored.state.find 1).map (fun r => (r.status, r.proposedThreshold)) =
        some (.approved, 11 / 10) ∧
      (learned.state.find 1).map (fun r => (r.status, r.proposedThreshold)) =
        some (.approved, 121 / 100) ∧
      (stored.state.recommendations.lookup 1).map (·.status) = some .approved ∧
      (learned.state.recommendations.lookup 1).map (·.status) = some .pending) :=
  ⟨⟨by decide +kernel, by decide +kernel, .inl ⟨amountKey, by decide +kernel⟩, by decide +kernel⟩,
    by decide +kernel⟩

end Recorded

end LearningState

end Haltchain.Validator

import Mathlib.Data.Finset.Preimage
import Haltchain.Validator.Learning
import Haltchain.Validator.Variants

/-! # Decisions on recommendations

What an approval, a rejection and a reversal write, in memory and in what is stored, and when an
approval can be undone: it made a variant, of agents that were in none. -/

namespace Haltchain.Validator

open ThresholdStore Option AList List

/-! ## What is written -/

namespace RecommendationDb

theorem lookup_update (db : RecommendationDb) (id j : Int)
    (f : AdjustmentRecommendation → AdjustmentRecommendation) : (db.update id f).rows.lookup j =
      if j = id then (db.rows.lookup id).map f else db.rows.lookup j := by
  unfold update
  cases hrow : db.rows.lookup id with
  | none =>
    by_cases hj : j = id
    · rw [if_pos hj, hj]
      exact hrow
    · rw [if_neg hj]
  | some row =>
    exact Lib.lookup_insert_eq db.rows id j (f row)

theorem nextRowId_update (db : RecommendationDb) (id : Int)
    (f : AdjustmentRecommendation → AdjustmentRecommendation) :
    (db.update id f).nextRowId = db.nextRowId := by
  unfold update
  split <;> rfl

/-- The row that an upsert writes: a new one, or that with the key. -/
theorem upsert_cases (db : RecommendationDb) (r : AdjustmentRecommendation) :
    (db.upsertAdjustmentRecommendation r =
      (db.nextRowId,
        { db with
          rows := db.rows.insert db.nextRowId { r with id := db.nextRowId }
          nextRowId := db.nextRowId + 1 })) ∨
    ∃ id row, db.rows.lookup id = some row ∧ row.recommendationKey = r.recommendationKey ∧
      db.upsertAdjustmentRecommendation r =
        (id, { db with
          rows := db.rows.insert id (refresh row r)
          nextRowId := db.nextRowId + 1 }) := by
  unfold upsertAdjustmentRecommendation
  cases hfind : db.findKey r.recommendationKey with
  | none => exact .inl rfl
  | some e =>
    obtain ⟨id, row⟩ := e
    have hkey : row.recommendationKey = r.recommendationKey := by
      simpa using find?_some hfind
    have hmem : ⟨id, row⟩ ∈ db.rows.entries := mem_of_find?_eq_some hfind
    exact .inr ⟨id, row, mem_lookup_iff.2 hmem, hkey, rfl⟩

end RecommendationDb

namespace LearningState

/-- The id that the next recommendation gets. -/
def nextId (s : LearningState) : Int :=
  match s.db with
  | some db => db.nextRowId
  | none => s.nextRecommendationId

/-- Another version of a recommendation, of the same change to the same threshold. -/
structure Version (r r' : AdjustmentRecommendation) : Prop where
  recommendationKey : r'.recommendationKey = r.recommendationKey
  thresholdKey : r'.thresholdKey = r.thresholdKey
  currentThreshold : r'.currentThreshold = r.currentThreshold
  proposedThreshold : r'.proposedThreshold = r.proposedThreshold

/-- A recommendation has got a status, in memory and store, and others are unchanged. -/
structure Decides (s s' : LearningState) (id : Int) (r : AdjustmentRecommendation)
    (status : RecommendationStatus) : Prop where
  found : s.find id = some r
  stored : ∃ r', s'.find id = some r' ∧ Version r r' ∧ r'.status = status
  kept : ∃ m, s'.recommendations.lookup id = some m ∧ Version r m ∧ m.status = status
  others : ∀ j ≠ id, s'.find j = s.find j ∧ s'.recommendations.lookup j = s.recommendations.lookup j
  nextId : s'.nextId = s.nextId
  db : s'.db.isSome = s.db.isSome

/-- A row of the database is updated. -/
def Updates (db : Option RecommendationDb) (id : Int)
    (f : AdjustmentRecommendation → AdjustmentRecommendation) (db' : Option RecommendationDb) :
    Prop :=
  ∃ n, db' = db.map fun db => { db with nextAdjustmentId := n }.update id f

/-- A recommendation is put in memory and its row is updated. -/
theorem decides_of_updates {s s' : LearningState} {id : Int} {r m : AdjustmentRecommendation}
    {status : RecommendationStatus} {f : AdjustmentRecommendation → AdjustmentRecommendation}
    (hfound : s.find id = some r) (hm : Version r m ∧ m.status = status)
    (hf : Version r (f r) ∧ (f r).status = status)
    (hkept : s'.recommendations = s.recommendations.insert id m)
    (hnext : s'.nextRecommendationId = s.nextRecommendationId)
    (hdb : Updates s.db id f s'.db) : Decides s s' id r status := by
  obtain ⟨n, hdb⟩ := hdb
  have hlookup : ∀ j ≠ id, s'.recommendations.lookup j = s.recommendations.lookup j := by
    intro j hj
    rw [hkept, lookup_insert_ne hj]
  have hself : s'.recommendations.lookup id = some m := by
    rw [hkept, lookup_insert]
  cases hs : s.db with
  | none =>
    rw [hs, map_none] at hdb
    have hfind : ∀ j, s'.find j = s'.recommendations.lookup j := by
      simp [find, stored, hdb]
    refine ⟨hfound, ⟨m, (hfind id).trans hself, hm⟩, ⟨m, hself, hm⟩, ?_, ?_, by rw [hdb, hs]⟩
    · intro j hj
      rw [hfind, hlookup j hj]
      simp [find, stored, hs]
    · simp [nextId, hdb, hs, hnext]
  | some db =>
    have hfind : ∀ j, s'.find j = if j = id then (s.find id).map f else s.find j := by
      intro j
      simp only [find, stored, hdb, hs]
      exact RecommendationDb.lookup_update _ id j f
    refine ⟨hfound, ⟨f r, ?_, hf⟩, ⟨m, hself, hm⟩, ?_, ?_, by rw [hdb, hs]; rfl⟩
    · rw [hfind, if_pos rfl, hfound, map_some]
    · exact fun j hj => ⟨by rw [hfind, if_neg hj], hlookup j hj⟩
    · simp [nextId, hdb, hs, RecommendationDb.nextRowId_update]

variable {s : LearningState} {uuid : String} {id : Int} {r : AdjustmentRecommendation}

/-- What an approval needs: a reviewer, a pending recommendation for a threshold of some domain, and
agents for a variant. -/
structure Approvable (s : LearningState) (id : Int) (req : ApproveRecommendationRequest)
    (r : AdjustmentRecommendation) : Prop where
  reviewer : trim req.reviewerId ≠ ""
  found : s.find id = some r
  pending : r.status = .pending
  domain : ∃ split, splitOnce r.thresholdKey = some split ∧ validDomain split.1
  agents : req.applyAsVariant = true → req.agentIds ≠ []

/-- The id of the variant, if there is to be one. -/
def variantFor (req : ApproveRecommendationRequest) (id : Int) (uuid : String) : Option String :=
  if req.applyAsVariant then some (variantIdFor id uuid) else none

variable {fails : DbFailures} {req : ApproveRecommendationRequest}

theorem of_checkApproval {variantId : Option String}
    (h : checkApproval fails s uuid id req = .ok (r, variantId)) :
    Approvable s id req r ∧ (s.db.isSome && fails.get) = false ∧
      variantId = variantFor req id uuid := by
  unfold checkApproval at h
  split at h
  · cases h
  next hreviewer =>
  split at h
  · cases h
  next hget =>
  split at h
  · cases h
  next r' hfound =>
  split at h
  · cases h
  next hpending =>
  split at h
  · cases h
  next domain rule hsplit =>
  split at h
  · cases h
  next hdomain =>
  have hdomain : ∃ split, splitOnce r'.thresholdKey = some split ∧ validDomain split.1 :=
    ⟨(domain, rule), hsplit, not_not.1 hdomain⟩
  split at h
  · next hvariant =>
    split at h
    · cases h
    next hagents =>
    cases h
    exact ⟨⟨hreviewer, hfound, not_not.1 hpending, hdomain, fun _ => hagents⟩,
      Bool.not_eq_true _ ▸ hget, by rw [variantFor, if_pos hvariant]⟩
  · next hvariant =>
    cases h
    exact ⟨⟨hreviewer, hfound, not_not.1 hpending, hdomain, fun hv => absurd hv hvariant⟩,
      Bool.not_eq_true _ ▸ hget, by rw [variantFor, if_neg hvariant]⟩

theorem checkApproval_of_approvable (h : Approvable s id req r)
    (hget : (s.db.isSome && fails.get) = false) :
    checkApproval fails s uuid id req = .ok (r, variantFor req id uuid) := by
  obtain ⟨⟨domain, rule⟩, hsplit, hdomain⟩ := h.domain
  rw [checkApproval, if_neg h.reviewer, hget, h.found]
  simp only [h.pending, hsplit, hdomain, variantFor]
  by_cases hvariant : req.applyAsVariant = true
  · simp [hvariant, h.agents hvariant]
  · simp [hvariant]

theorem adjustmentId_none (db : RecommendationDb) :
    adjustmentId .none db =
      (some db.nextAdjustmentId, { db with nextAdjustmentId := db.nextAdjustmentId + 1 }) := rfl

/-- **What an approval does**: nothing, or it applies the threshold and sets the status. -/
theorem approve_cases (s : LearningState) (uuid : String) (id : Int)
    (req : ApproveRecommendationRequest) :
    (∃ e, s.approveRecommendation .none uuid id req = (.error e, s)) ∨
    ∃ r variantId out s', checkApproval .none s uuid id req = .ok (r, variantId) ∧
      s.approveRecommendation .none uuid id req = (.ok out, s') ∧
      s'.thresholds = applyThreshold s.thresholds r req variantId ∧
      Decides s s' id r (approvalStatus variantId) ∧
      ∀ v ∈ variantId, (s'.find id).bind (·.variantId) = some v := by
  unfold approveRecommendation
  cases hcheck : checkApproval .none s uuid id req with
  | error e => exact .inl ⟨e, rfl⟩
  | ok checked =>
    obtain ⟨r, variantId⟩ := checked
    refine .inr ?_
    have hfound := (of_checkApproval hcheck).1.found
    cases hdb : s.db with
    | none =>
      refine ⟨r, variantId, _, _, rfl, rfl, rfl, ?_, ?_⟩
      · exact decides_of_updates (m := approved r req variantId none)
          (f := fun r => { r with status := approvalStatus variantId }) hfound
          ⟨⟨rfl, rfl, rfl, rfl⟩, rfl⟩ ⟨⟨rfl, rfl, rfl, rfl⟩, rfl⟩ rfl rfl ⟨0, by rw [hdb]; rfl⟩
      · intro v hv
        simp [find, stored, approved, mem_def.1 hv]
    | some db =>
      have hrow : db.rows.lookup id = some r := by
        simpa [find, stored, hdb] using hfound
      simp only [adjustmentId_none]
      refine ⟨r, variantId, _, _, rfl, rfl, rfl, ?_, ?_⟩
      · exact decides_of_updates (m := approved r req variantId (some db.nextAdjustmentId))
          hfound ⟨⟨rfl, rfl, rfl, rfl⟩, rfl⟩ ⟨⟨rfl, rfl, rfl, rfl⟩, rfl⟩ rfl rfl
          ⟨db.nextAdjustmentId + 1, by rw [hdb]; rfl⟩
      · intro v hv
        simp only [find, stored, RecommendationDb.decideAdjustmentRecommendation]
        rw [RecommendationDb.lookup_update, hrow]
        simp [RecommendationDb.decided, mem_def.1 hv]

/-- What a rejection does. It changes no threshold. -/
theorem reject_cases (s : LearningState) (id : Int) (req : ReviewRequest) :
    (∃ e, s.rejectRecommendation .none id req = (.error e, s)) ∨
    ∃ r out s', s.rejectRecommendation .none id req = (.ok out, s') ∧
      s'.thresholds = s.thresholds ∧ Decides s s' id r .rejected := by
  unfold rejectRecommendation
  split
  · exact .inl ⟨_, rfl⟩
  rw [if_neg (by simp [DbFailures.none])]
  split
  · exact .inl ⟨_, rfl⟩
  next r hfound =>
    rw [if_neg (by simp [DbFailures.none])]
    refine .inr ⟨r, _, _, rfl, rfl, ?_⟩
    refine decides_of_updates (m := reviewed r .rejected req)
      (f := RecommendationDb.decided .rejected req.reviewerId req.notes none none) hfound
      ⟨⟨rfl, rfl, rfl, rfl⟩, rfl⟩ ⟨⟨rfl, rfl, rfl, rfl⟩, rfl⟩ rfl rfl
      ⟨(s.db.map (·.nextAdjustmentId)).getD 0, ?_⟩
    cases s.db <;> rfl

/-- What is applied can be reverted. -/
theorem revert_of_applied {req : ReviewRequest} (hreviewer : trim req.reviewerId ≠ "")
    (hfound : s.find id = some r) (happlied : r.status = .applied)
    (hsplit : (splitOnce r.thresholdKey).isSome) :
    ∃ out s', s.revertRecommendation .none id req = (.ok out, s') ∧
      s'.thresholds = revertThreshold s.thresholds r ∧ Decides s s' id r .reverted := by
  obtain ⟨key, hkey⟩ := isSome_iff_exists.1 hsplit
  unfold revertRecommendation
  rw [if_neg hreviewer, hfound]
  simp only [happlied, hkey]
  cases hdb : s.db with
  | none =>
    refine ⟨_, _, rfl, rfl, ?_⟩
    exact decides_of_updates (m := { reviewed r .reverted req with appliedAdjustmentId := none })
      (f := fun r => { r with status := .reverted }) hfound ⟨⟨rfl, rfl, rfl, rfl⟩, rfl⟩
      ⟨⟨rfl, rfl, rfl, rfl⟩, rfl⟩ rfl rfl ⟨0, by rw [hdb]; rfl⟩
  | some db =>
    refine ⟨_, _, rfl, rfl, ?_⟩
    exact decides_of_updates
      (m := { reviewed r .reverted req with appliedAdjustmentId := some db.nextAdjustmentId })
      hfound ⟨⟨rfl, rfl, rfl, rfl⟩, rfl⟩ ⟨⟨rfl, rfl, rfl, rfl⟩, rfl⟩ rfl rfl
      ⟨db.nextAdjustmentId + 1, by rw [hdb]; rfl⟩

/-- What a reversal does. The threshold is set even if the key is not valid. -/
theorem revert_cases (s : LearningState) (id : Int) (req : ReviewRequest) :
    (∃ e t, s.revertRecommendation .none id req = (.error e, { s with thresholds := t })) ∨
    ∃ r out s', r.status = .applied ∧ s.revertRecommendation .none id req = (.ok out, s') ∧
      s'.thresholds = revertThreshold s.thresholds r ∧ Decides s s' id r .reverted := by
  by_cases hreviewer : trim req.reviewerId = ""
  · exact .inl ⟨_, s.thresholds, by rw [revertRecommendation, if_pos hreviewer]⟩
  cases hfound : s.find id with
  | none =>
    refine .inl ⟨"recommendation not found", s.thresholds, ?_⟩
    rw [revertRecommendation, if_neg hreviewer, if_neg (by simp [DbFailures.none]), hfound]
  | some r =>
    by_cases happlied : r.status = .applied
    · cases hsplit : splitOnce r.thresholdKey with
      | none =>
        refine .inl ⟨"invalid threshold key", revertThreshold s.thresholds r, ?_⟩
        rw [revertRecommendation, if_neg hreviewer, if_neg (by simp [DbFailures.none]), hfound]
        simp [happlied, hsplit]
      | some key =>
        obtain ⟨out, s', h⟩ :=
          revert_of_applied hreviewer hfound happlied (by rw [hsplit]; rfl)
        exact .inr ⟨r, out, s', happlied, h⟩
    · refine .inl ⟨"only applied recommendations can be reverted", s.thresholds, ?_⟩
      rw [revertRecommendation, if_neg hreviewer, if_neg (by simp [DbFailures.none]), hfound]
      simp [happlied]

/-! ## Undoing an approval -/

/-- **When an approval is undone.** Reverting it succeeds and leaves every agent the thresholds it
had, exactly if the approval makes a variant, each agent of which has the thresholds for all agents
at the time. -/
theorem revert_approve_iff {req : ApproveRecommendationRequest} {rev : ReviewRequest}
    {out : AdjustmentRecommendation}
    (hfresh : s.thresholds.variants.lookup (variantIdFor id uuid) = none)
    (hok : (s.approveRecommendation .none uuid id req).1 = .ok out)
    (hreviewer : trim rev.reviewerId ≠ "") :
    (∃ out' s', (s.approveRecommendation .none uuid id req).2.revertRecommendation .none id rev =
        (.ok out', s') ∧
      ∀ a key, s'.thresholds.effectiveThresholds a key = s.thresholds.effectiveThresholds a key) ↔
    req.applyAsVariant = true ∧ ∀ a ∈ req.agentIds, ∀ key,
      s.thresholds.effectiveThresholds a key = s.thresholds.overrides.lookup key := by
  obtain ⟨e, herror⟩ | ⟨r, v, out', s', hcheck, happrove, hthresholds, hdecides, hv⟩ :=
    approve_cases s uuid id req
  · rw [herror] at hok
    cases hok
  obtain ⟨happrovable, -, hid⟩ := of_checkApproval hcheck
  obtain ⟨split, hsplit, -⟩ := happrovable.domain
  obtain ⟨r', hfound, hversion, hstatus⟩ := hdecides.stored
  rw [happrove]
  by_cases hvariant : req.applyAsVariant = true
  · rw [variantFor, if_pos hvariant] at hid
    subst hid
    have hvariantId : r'.variantId = some (variantIdFor id uuid) := by
      simpa [hfound] using hv _ rfl
    obtain ⟨out'', s'', hrevert, hthresholds', -⟩ := revert_of_applied hreviewer hfound hstatus
      (by rw [hversion.thresholdKey, hsplit]; rfl)
    have hafter : ∀ a key, s''.thresholds.effectiveThresholds a key =
        if a ∈ req.agentIds then s.thresholds.overrides.lookup key
        else s.thresholds.effectiveThresholds a key := by
      intro a key
      rw [hthresholds', hthresholds, revertThreshold, hvariantId]
      exact effectiveThresholds_remove_add _ hfresh a key
    constructor
    · rintro ⟨_, _, hrevert', hsame⟩
      cases hrevert.symm.trans hrevert'
      refine ⟨hvariant, fun a ha key => ?_⟩
      rw [← hsame, hafter, if_pos ha]
    · rintro ⟨-, hall⟩
      refine ⟨out'', s'', hrevert, fun a key => ?_⟩
      rw [hafter]
      split
      · next ha => exact (hall a ha key).symm
      · rfl
  · -- one for all agents is approved, and not applied
    refine iff_of_false ?_ fun h => hvariant h.1
    rintro ⟨out'', s'', hrevert, -⟩
    rw [variantFor, if_neg hvariant] at hid
    subst hid
    obtain ⟨e, t, herror⟩ | ⟨r'', _, _, happlied, -, -, hdecided⟩ := revert_cases s' id rev
    · rw [herror] at hrevert
      cases hrevert
    · cases hfound.symm.trans hdecided.found
      cases hstatus.symm.trans happlied

def amountKey : String := "financial:max_amount"

/-- A pending recommendation. -/
def amountRecommendation : AdjustmentRecommendation :=
  ⟨1, "financial:max_amount:4:3:0", amountKey, 100, 110, 4, 3, 0, 3 / 20, .pending, none, none,
    none, none, none, none⟩

/-- One recommendation is pending, and agent `a` is in a variant. -/
def undecided : LearningState where
  thresholds := (new.set amountKey 100).addVariant
    ⟨"low", (∅ : AList fun _ : String => Rat).insert amountKey 50, ["a"]⟩
  recommendations := (∅ : Recommendations).insert 1 amountRecommendation
  nextRecommendationId := 2
  db := none

/-- For some agents, or for all if there are none. -/
def approvalFor (agentIds : List String) : ApproveRecommendationRequest :=
  ⟨"reviewer", none, agentIds, agentIds ≠ []⟩

/-- A review without notes. -/
def review : ReviewRequest := ⟨"reviewer", none⟩

theorem variant_of_free_agent_undone :
    let approval := undecided.approveRecommendation .none "u" 1 (approvalFor ["b"])
    approval.2.thresholds.effectiveThresholds "b" amountKey = some 110 ∧
    ∃ out s', approval.2.revertRecommendation .none 1 review = (.ok out, s') ∧
      ∀ a key, s'.thresholds.effectiveThresholds a key =
        undecided.thresholds.effectiveThresholds a key :=
  ⟨by decide +kernel,
    (revert_approve_iff (by decide +kernel) rfl (by decide)).2 ⟨by decide, fun a ha key => by
      rw [mem_singleton.1 ha]; rfl⟩⟩

/-- An approval for all agents cannot be reverted, nor does an agent get back its old variant. -/
theorem approvals_not_undone :
    let forAll := undecided.approveRecommendation .none "u" 1 (approvalFor [])
    let forOne := undecided.approveRecommendation .none "u" 1 (approvalFor ["a"])
    let reverted := forOne.2.revertRecommendation .none 1 review
    undecided.thresholds.overrides.lookup amountKey = some amountRecommendation.currentThreshold ∧
    (forAll.1.isOk ∧
      (forAll.2.revertRecommendation .none 1 review).1 =
        .error "only applied recommendations can be reverted" ∧
      undecided.thresholds.effectiveThresholds "b" amountKey = some 100 ∧
      (forAll.2.revertRecommendation .none 1 review).2.thresholds.effectiveThresholds "b"
        amountKey = some 110) ∧
    (forOne.1.isOk ∧ reverted.1.isOk ∧
      undecided.thresholds.effectiveThresholds "a" amountKey = some 50 ∧
      reverted.2.thresholds.effectiveThresholds "a" amountKey = some 100) :=
  ⟨by decide +kernel, ⟨by decide +kernel, rfl, by decide +kernel, by decide +kernel⟩,
    by decide +kernel⟩

/-! ## An approval that fails -/

/-- No variant has the id, no agent is in one that has: as with a new random id. -/
def Unused (t : ThresholdStore) (variantId : String) : Prop :=
  t.variants.lookup variantId = none ∧ ∀ a, t.enrolledVariant a ≠ some variantId

theorem variantIdFor_injective (id : Int) : Function.Injective (variantIdFor id) := by
  intro u v h
  have hlist : u.toList = v.toList := by
    simpa [variantIdFor, toString] using congrArg String.toList h
  exact String.toList_injective hlist

theorem exists_unused (t : ThresholdStore) (id : Int) :
    ∃ uuid, Unused t (variantIdFor id uuid) := by
  let used : Finset String := (t.variants.keys ++ t.agentVariants.entries.map (·.2)).toFinset
  obtain ⟨uuid, huuid⟩ :=
    Infinite.exists_notMem_finset (used.preimage _ (variantIdFor_injective id).injOn)
  have hnot : variantIdFor id uuid ∉ t.variants.keys ++ t.agentVariants.entries.map (·.2) := by
    simpa only [used, Finset.mem_preimage, List.mem_toFinset] using huuid
  refine ⟨uuid, ?_, ?_⟩
  · rw [lookup_eq_none]
    exact fun h => hnot (mem_append_left _ h)
  · intro a ha
    have hentry : (⟨a, variantIdFor id uuid⟩ : Sigma fun _ : String => String) ∈
        t.agentVariants.entries := mem_lookup_iff.1 ha
    exact hnot (mem_append_right _ (mem_map.2 ⟨_, hentry, rfl⟩))

/-- Some agent is in no variant. -/
theorem exists_free_agent (t : ThresholdStore) : ∃ a, t.agentVariants.lookup a = none := by
  obtain ⟨a, ha⟩ := Infinite.exists_notMem_finset t.agentVariants.keys.toFinset
  refine ⟨a, ?_⟩
  rw [lookup_eq_none]
  exact fun h => ha (mem_toFinset.2 h)

/-- What an approval would set is what is set already. -/
def InForce (t : ThresholdStore) (r : AdjustmentRecommendation)
    (req : ApproveRecommendationRequest) : Prop :=
  if req.applyAsVariant then
    ∀ a ∈ req.agentIds, ∀ key, t.effectiveThresholds a key =
      if key = r.thresholdKey then some r.proposedThreshold else t.overrides.lookup key
  else t.overrides.lookup r.thresholdKey = some r.proposedThreshold

/-- Applying a threshold is seen by no agent exactly if it is in force. -/
theorem applyThreshold_unseen_iff (t : ThresholdStore) (r : AdjustmentRecommendation)
    (req : ApproveRecommendationRequest) (hunused : Unused t (variantIdFor id uuid)) :
    (∀ a key, (applyThreshold t r req (variantFor req id uuid)).effectiveThresholds a key =
        t.effectiveThresholds a key) ↔
      InForce t r req := by
  by_cases hvariant : req.applyAsVariant = true
  · rw [variantFor, if_pos hvariant, InForce, if_pos hvariant]
    let variant : PolicyVariant := ⟨variantIdFor id uuid,
      (∅ : AList fun _ : String => Rat).insert r.thresholdKey r.proposedThreshold, req.agentIds⟩
    have hjoined : ∀ a ∈ req.agentIds, ∀ key, (t.addVariant variant).effectiveThresholds a key =
        if key = r.thresholdKey then some r.proposedThreshold else t.overrides.lookup key := by
      intro a ha key
      rw [effectiveThresholds_addVariant_of_mem t ha key, Lib.lookup_insert_eq]
      split <;> rfl
    constructor
    · intro hsame a ha key
      rw [← hsame a key]
      exact hjoined a ha key
    · intro hforce a key
      by_cases ha : a ∈ req.agentIds
      · exact (hjoined a ha key).trans (hforce a ha key).symm
      have hnot : a ∉ variant.agentIds := ha
      have hunlisted : a ∉ t.listed variant.id := by
        simp [listed, variant, hunused.1]
      have henrolled := enrolledVariant_addVariant t variant a
      rw [if_neg hnot, if_neg hunlisted] at henrolled
      exact effectiveThresholds_addVariant t henrolled (hunused.2 a) key
  · rw [variantFor, if_neg hvariant, InForce, if_neg hvariant]
    have hset : ∀ key, (t.set r.thresholdKey r.proposedThreshold).overrides.lookup key =
        if key = r.thresholdKey then some r.proposedThreshold else t.overrides.lookup key :=
      fun key => Lib.lookup_insert_eq ..
    constructor
    · intro hsame
      -- an agent in no variant has the thresholds for all
      obtain ⟨a, ha⟩ := exists_free_agent t
      have hfree := hsame a r.thresholdKey
      have ha' : (t.set r.thresholdKey r.proposedThreshold).agentVariants.lookup a = none := ha
      rw [applyThreshold, effectiveThresholds, effectiveThresholds,
        ha, ha', hset, if_pos rfl] at hfree
      exact hfree.symm
    · intro hforce a key
      rw [applyThreshold, effectiveThresholds, hset]
      split
      · next hkey =>
        rw [hkey, ← hforce]
        rfl
      · rfl

/-- The database refuses after the threshold and perhaps an adjustment were stored. -/
theorem approve_of_decide_fails {db : RecommendationDb} (h : Approvable s id req r)
    (hdb : s.db = some db) (hget : fails.get = false) (hdecide : fails.decide = true) :
    s.approveRecommendation fails uuid id req =
      (.error fails.message,
        { s with
          thresholds := applyThreshold s.thresholds r req (variantFor req id uuid)
          db := some (adjustmentId fails db).2 }) := by
  rw [approveRecommendation, checkApproval_of_approvable h (by rw [hget, Bool.and_false])]
  simp only [hdb, hdecide, if_true]

/-- An approval fails at its checks, or when the database refuses it. -/
theorem approve_error_cases {e : String}
    (h : (s.approveRecommendation fails uuid id req).1 = .error e) :
    (s.approveRecommendation fails uuid id req).2 = s ∨
      ∃ r db, Approvable s id req r ∧ s.db = some db ∧ fails.get = false ∧
        fails.decide = true := by
  cases hcheck : checkApproval fails s uuid id req with
  | error e' =>
    left
    rw [approveRecommendation, hcheck]
  | ok checked =>
    obtain ⟨r, variantId⟩ := checked
    obtain ⟨happrovable, hget, -⟩ := of_checkApproval hcheck
    rw [approveRecommendation, hcheck] at h
    cases hdb : s.db with
    | none =>
      simp only [hdb] at h
      cases h
    | some db =>
      right
      refine ⟨r, db, happrovable, rfl, by simpa [hdb] using hget, ?_⟩
      cases hdecide : fails.decide with
      | true => rfl
      | false =>
        simp only [hdb, hdecide] at h
        cases h

theorem rows_adjustmentId (fails : DbFailures) (db : RecommendationDb) :
    (adjustmentId fails db).2.rows = db.rows := by
  unfold adjustmentId
  split <;> rfl

/-- **When a failed approval changes nothing.** The thresholds of all agents and the recommendation
are as before, for every random id, exactly if the database does not refuse an approval that passed
the checks, or what would be set is in force already. -/
theorem failed_approval_changes_nothing_iff (fails : DbFailures) (s : LearningState) (id : Int)
    (req : ApproveRecommendationRequest) :
    (∀ uuid, Unused s.thresholds (variantIdFor id uuid) → ∀ e s',
      s.approveRecommendation fails uuid id req = (.error e, s') →
        (∀ a key, s'.thresholds.effectiveThresholds a key =
          s.thresholds.effectiveThresholds a key) ∧
        s'.find id = s.find id) ↔
    ∀ r, Approvable s id req r → s.db.isSome = true → fails.get = false → fails.decide = true →
      InForce s.thresholds r req := by
  constructor
  · intro hnothing r happrovable hisSome hget hdecide
    obtain ⟨uuid, hunused⟩ := exists_unused s.thresholds id
    obtain ⟨db, hdb⟩ := isSome_iff_exists.1 hisSome
    have hfailed : s.approveRecommendation fails uuid id req = _ :=
      approve_of_decide_fails happrovable hdb hget hdecide
    exact (applyThreshold_unseen_iff _ r req hunused).1 (hnothing uuid hunused _ _ hfailed).1
  · intro hforce uuid hunused e s' h
    have herror : (s.approveRecommendation fails uuid id req).1 = .error e := by rw [h]
    obtain hsame | ⟨r, db, happrovable, hdb, hget, hdecide⟩ := approve_error_cases herror
    · rw [h] at hsame
      subst hsame
      exact ⟨fun _ _ => rfl, rfl⟩
    · have hinForce := hforce r happrovable (by rw [hdb]; rfl) hget hdecide
      rw [approve_of_decide_fails happrovable hdb hget hdecide] at h
      cases h
      refine ⟨(applyThreshold_unseen_iff _ r req hunused).2 hinForce, ?_⟩
      simp only [find, stored, hdb, rows_adjustmentId]

/-- With a database, in which the recommendation is pending. -/
def undecidedInDb : LearningState :=
  { undecided with db := some ⟨undecided.recommendations, 2, 1⟩ }

/-- The database refuses the decision on an approval for all agents: agent `b` has the proposed
threshold, while the recommendation is pending. -/
theorem failed_approval_sets_threshold :
    let fails := { DbFailures.none with decide := true, message := "connection reset" }
    let approval := undecidedInDb.approveRecommendation fails "u" 1 (approvalFor [])
    approval.1 = .error "connection reset" ∧
      undecidedInDb.thresholds.effectiveThresholds "b" amountKey = some 100 ∧
      approval.2.thresholds.effectiveThresholds "b" amountKey = some 110 ∧
      (approval.2.find 1).map (·.status) = some .pending := by
  decide +kernel

end LearningState

end Haltchain.Validator

import Haltchain.Validator.Evaluators

/-! # Variants of the thresholds

`thresholds.rs`: an agent is in at most one variant, whose thresholds go before those for all
agents. A variant that is added takes its agents from the variants they were in. Removing it does
not bring them back. -/

namespace Haltchain.Validator

open Option AList

namespace ThresholdStore

/-- Agents are taken out of the variant they are in. -/
theorem lookup_foldl_erase (agentIds : List String) (variantId : String)
    (m : AList fun _ : String => String) (a : String) : (agentIds.foldl
        (fun m agentId => if m.lookup agentId = some variantId then m.erase agentId else m)
        m).lookup a =
      if a ∈ agentIds ∧ m.lookup a = some variantId then none else m.lookup a := by
  induction agentIds generalizing m with
  | nil => simp
  | cons b agentIds ih =>
    rw [List.foldl_cons, ih]
    rcases eq_or_ne a b with rfl | hne
    · by_cases hin : m.lookup a = some variantId
      · simp [hin]
      · simp [hin]
    have hsame : lookup a (if m.lookup b = some variantId then m.erase b else m) =
        m.lookup a := by
      split
      · exact lookup_erase_ne hne
      · rfl
    simp [hsame, hne]

/-- The agents a variant lists, which may have left it. -/
def listed (s : ThresholdStore) (variantId : String) : List String :=
  ((s.variants.lookup variantId).map (·.agentIds)).getD []

/-- The variant of an agent. -/
def enrolledVariant (s : ThresholdStore) (agentId : String) : Option String :=
  s.agentVariants.lookup agentId

theorem enrolledVariant_addVariant (s : ThresholdStore) (variant : PolicyVariant) (a : String) :
    (s.addVariant variant).enrolledVariant a =
      if a ∈ variant.agentIds then some variant.id
      else if a ∈ s.listed variant.id then none
      else s.enrolledVariant a := by
  have hcleared := Lib.lookup_foldl_erase (fun a => a) (s.listed variant.id) s.agentVariants a
  rw [List.map_id'] at hcleared
  rw [enrolledVariant, addVariant]
  rw [Lib.lookup_foldl_insert]
  exact congrArg _ hcleared

variable {variant : PolicyVariant}

theorem lookup_agentVariants_addVariant (s : ThresholdStore)
    (hfresh : s.variants.lookup variant.id = none) (a : String) :
    (s.addVariant variant).agentVariants.lookup a =
      if a ∈ variant.agentIds then some variant.id else s.agentVariants.lookup a := by
  have hlisted : a ∉ s.listed variant.id := by simp [listed, hfresh]
  have henrolled := enrolledVariant_addVariant s variant a
  rwa [if_neg hlisted] at henrolled

/-- **Adding a variant and removing it again** leaves its agents in none. -/
theorem effectiveThresholds_remove_add (s : ThresholdStore)
    (hfresh : s.variants.lookup variant.id = none) (a key : String) :
    ((s.addVariant variant).removeVariant variant.id).effectiveThresholds a key =
      if a ∈ variant.agentIds then s.overrides.lookup key else s.effectiveThresholds a key := by
  have hadded : (s.addVariant variant).variants.lookup variant.id = some variant :=
    lookup_insert _
  have hvariants : ∀ id, ((s.addVariant variant).variants.erase variant.id).lookup id =
      s.variants.lookup id := by
    intro id
    rcases eq_or_ne id variant.id with rfl | hne
    · rw [lookup_erase, hfresh]
    · rw [lookup_erase_ne hne]
      exact lookup_insert_ne hne
  have hagents := lookup_agentVariants_addVariant s hfresh a
  unfold effectiveThresholds removeVariant
  rw [hadded]
  rw [lookup_foldl_erase, hagents]
  simp only [hvariants]
  by_cases hmem : a ∈ variant.agentIds
  · -- the agent has been in the variant, and is in none now
    rw [if_pos hmem, if_pos ⟨hmem, rfl⟩, if_pos hmem]
    rfl
  · rw [if_neg hmem, if_neg (fun h => hmem h.1), if_neg hmem]
    rfl

/-! ## Whom a variant moves -/

/-- An agent that stays in another variant, or in none, keeps its thresholds. -/
theorem effectiveThresholds_addVariant (s : ThresholdStore) {a : String}
    (hsame : (s.addVariant variant).enrolledVariant a = s.enrolledVariant a)
    (hother : s.enrolledVariant a ≠ some variant.id) (key : String) :
    (s.addVariant variant).effectiveThresholds a key = s.effectiveThresholds a key := by
  have hsame : (s.addVariant variant).agentVariants.lookup a = s.agentVariants.lookup a := hsame
  unfold effectiveThresholds
  rw [hsame]
  cases hid : s.agentVariants.lookup a with
  | none => rfl
  | some id =>
    have hne : id ≠ variant.id := by
      rintro rfl
      exact hother hid
    have hvariant : (s.addVariant variant).variants.lookup id = s.variants.lookup id :=
      lookup_insert_ne hne
    rw [bind_some, hvariant]
    rfl

/-- The agents that a variant lists get its thresholds. -/
theorem effectiveThresholds_addVariant_of_mem (s : ThresholdStore) {a : String}
    (hmem : a ∈ variant.agentIds) (key : String) :
    (s.addVariant variant).effectiveThresholds a key =
      (variant.thresholds.lookup key).or (s.overrides.lookup key) := by
  have henrolled : (s.addVariant variant).agentVariants.lookup a = some variant.id :=
    (enrolledVariant_addVariant s variant a).trans (if_pos hmem)
  have hvariant : (s.addVariant variant).variants.lookup variant.id = some variant :=
    lookup_insert _
  rw [effectiveThresholds, henrolled, bind_some, hvariant]
  rfl

/-- **Whom a variant moves that is added.** Agents that it does not list and that are not in it keep
their variant and thresholds, exactly if no agent that its last definition lists has gone to another
variant since, unless listed again. -/
theorem addVariant_moves_own_iff (s : ThresholdStore) (variant : PolicyVariant) :
    (∀ a, a ∉ variant.agentIds → s.enrolledVariant a ≠ some variant.id →
      (s.addVariant variant).enrolledVariant a = s.enrolledVariant a ∧
      ∀ key, (s.addVariant variant).effectiveThresholds a key = s.effectiveThresholds a key) ↔
    ∀ a ∈ s.listed variant.id, a ∉ variant.agentIds →
      s.enrolledVariant a = none ∨ s.enrolledVariant a = some variant.id := by
  constructor
  · intro hframe a hlisted hnot
    by_cases hin : s.enrolledVariant a = some variant.id
    · exact .inr hin
    · left
      rw [← (hframe a hnot hin).1, enrolledVariant_addVariant, if_neg hnot, if_pos hlisted]
  · intro hmoved a hnot hin
    have hsame : (s.addVariant variant).enrolledVariant a = s.enrolledVariant a := by
      rw [enrolledVariant_addVariant, if_neg hnot]
      split
      · next hlisted => exact ((hmoved a hlisted hnot).resolve_right hin).symm
      · rfl
    exact ⟨hsame, effectiveThresholds_addVariant s hsame hin⟩

/-- A call of the store. -/
inductive VariantCall where
  | add (variant : PolicyVariant)
  | remove (variantId : String)

/-- One call. -/
def VariantCall.exec (s : ThresholdStore) : VariantCall → ThresholdStore
  | .add variant => s.addVariant variant
  | .remove variantId => s.removeVariant variantId

/-- The amount is limited to 50 for the agents. -/
def lowFor (variantId : String) (agentIds : List String) : PolicyVariant :=
  ⟨variantId, (∅ : AList fun _ : String => Rat).insert "financial:max_amount" 50, agentIds⟩

/-- Agent `a` has gone to another variant when its first is defined anew, for no one. It is taken
out of the second. -/
theorem moved_agent_taken_off :
    let s := Lib.run VariantCall.exec .new [.add (lowFor "v" ["a"]), .add (lowFor "w" ["a"])]
    s.enrolledVariant "a" = some "w" ∧
      s.effectiveThresholds "a" "financial:max_amount" = some 50 ∧
      (s.addVariant (lowFor "v" [])).enrolledVariant "a" = none ∧
      (s.addVariant (lowFor "v" [])).effectiveThresholds "a" "financial:max_amount" = none := by
  decide +kernel

/-! ## Every run -/

/-- Each variant is stored under its id, and its agents are on its list. -/
structure Integrity (s : ThresholdStore) : Prop where
  ids : ∀ id variant, s.variants.lookup id = some variant → variant.id = id
  enrolled : ∀ a v, s.enrolledVariant a = some v → a ∈ s.listed v

section

variable {s : ThresholdStore}

theorem Integrity.addVariant (h : s.Integrity) (variant : PolicyVariant) :
    (s.addVariant variant).Integrity where
  ids id w hw := by
    rcases Lib.of_lookup_insert hw with ⟨rfl, rfl⟩ | ⟨-, hw⟩
    · rfl
    · exact h.ids id w hw
  enrolled a v ha := by
    have hlisted : (s.addVariant variant).listed v =
        if v = variant.id then variant.agentIds else s.listed v := by
      unfold listed ThresholdStore.addVariant
      rw [Lib.lookup_insert_eq]
      split <;> rfl
    rw [hlisted]
    rw [enrolledVariant_addVariant] at ha
    split_ifs at ha with hmem hprevious
    · rwa [if_pos (some.inj ha).symm]
    · -- those of the last definition have been taken off
      have hold := h.enrolled a v ha
      rw [if_neg]
      · exact hold
      · rintro rfl
        exact hprevious hold

theorem Integrity.removeVariant (h : s.Integrity) (variantId : String) :
    (s.removeVariant variantId).Integrity := by
  unfold ThresholdStore.removeVariant
  cases hvariant : s.variants.lookup variantId with
  | none => exact h
  | some variant =>
    refine ⟨fun id w hw => h.ids id w (Lib.of_lookup_erase hw), fun a v ha => ?_⟩
    unfold enrolledVariant at ha
    rw [lookup_foldl_erase] at ha
    split_ifs at ha with hin
    have hold := h.enrolled a v ha
    have hne : v ≠ variantId := by
      rintro rfl
      rw [listed, hvariant] at hold
      exact hin ⟨hold, ha⟩
    unfold listed at hold ⊢
    rwa [lookup_erase_ne hne]

end

theorem integrity_run (calls : List VariantCall) :
    (Lib.run VariantCall.exec .new calls).Integrity := by
  refine Lib.run_invariant ⟨by simp [new], by simp [new, enrolledVariant]⟩ ?_ calls
  intro s call h
  cases call with
  | add variant => exact h.addVariant variant
  | remove variantId => exact h.removeVariant variantId

/-- **Referential integrity.** After any calls, whoever is enrolled in a variant is on the list of
an existing variant of that id. -/
theorem enrolled_in_listing_variant (calls : List VariantCall) (a v : String)
    (h : (Lib.run VariantCall.exec .new calls).enrolledVariant a = some v) :
    ∃ variant, (Lib.run VariantCall.exec .new calls).variants.lookup v = some variant ∧
      variant.id = v ∧ a ∈ variant.agentIds := by
  have hrun := integrity_run calls
  have hlisted := hrun.enrolled a v h
  unfold listed at hlisted
  cases hvariant : (Lib.run VariantCall.exec .new calls).variants.lookup v with
  | none => simp [hvariant] at hlisted
  | some variant =>
    rw [hvariant] at hlisted
    exact ⟨variant, rfl, hrun.ids v variant hvariant, hlisted⟩

/-- An agent has gone to another variant, and the first one is removed. -/
theorem moved_agent_listed :
    let calls := [.add (lowFor "v" ["a", "b"]), .add (lowFor "w" ["a"]), .remove "v"]
    ∃ variant, (Lib.run VariantCall.exec .new calls).variants.lookup "w" = some variant ∧
      variant.id = "w" ∧ "a" ∈ variant.agentIds :=
  enrolled_in_listing_variant _ "a" "w" (by decide +kernel)

end ThresholdStore

end Haltchain.Validator

import DeclarativeMlir.Spec.VariadicGroups

/-!
# Safety of the instance verifier

The traits of a registered op are verified one after the other, and a later trait relies on what an
earlier one has established. Most traits are defined on every instance that the earlier ones accept.
The exceptions are the equal sizes of variadic values, which need a variadic entry and a value for
each other entry, and the constraints on regions and successors, which need a region or successor
for each constraint.
-/

namespace DeclarativeMlir.Spec

/-! ## Lists of constraints -/

section LastVariadic

variable {C T : Type} (isVariadic : C → Bool) (verify : C → T → Bool) (toString : C → String)

/-- There is a variable for each constraint, or a constraint rejects the variable at its position. -/
def ConstraintsFit (constraints : List C) (vars : List T) : Prop :=
  constraints.length ≤ vars.length ∨
    ∃ entry ∈ constraints.zip vars, verify entry.1 entry.2 = false

/-- The variables satisfy the constraints at their positions, and the remaining ones a variadic
constraint at the end. -/
def ConstraintsHold (constraints : List C) (vars : List T) : Prop :=
  (∀ entry ∈ constraints.zip vars, verify entry.1 entry.2 = true) ∧
    ∀ last ∈ constraints.getLast?, isVariadic last = true →
      ∀ var ∈ vars.drop constraints.length, verify last var = true

variable {isVariadic verify toString}

theorem constraintsFit_cons (constraint : C) (constraints : List C) (var : T) (vars : List T) :
    ConstraintsFit verify (constraint :: constraints) (var :: vars) ↔
      verify constraint var = false ∨ ConstraintsFit verify constraints vars := by
  simp only [ConstraintsFit, List.length_cons, Nat.add_le_add_iff_right, List.zip_cons_cons,
    List.exists_mem_cons_iff]
  exact or_left_comm

theorem constraintsHold_cons {constraint : C} (hfixed : isVariadic constraint = false)
    (constraints : List C) (var : T) (vars : List T) :
    ConstraintsHold isVariadic verify (constraint :: constraints) (var :: vars) ↔
      verify constraint var = true ∧ ConstraintsHold isVariadic verify constraints vars := by
  cases constraints with
  | nil => simp [ConstraintsHold, hfixed]
  | cons next constraints =>
    simp only [ConstraintsHold, List.zip_cons_cons, List.forall_mem_cons, List.getLast?_cons_cons,
      List.length_cons, List.drop_succ_cons]
    exact and_assoc

theorem verifyRest_iff (constraint : C) (idx : ℕ) (vars : List T) :
    verifyRest verify toString constraint idx vars ≠ .undefined ∧
      (verifyRest verify toString constraint idx vars = .success ↔
        ∀ var ∈ vars, verify constraint var = true) := by
  induction vars generalizing idx with
  | nil => simp [verifyRest]
  | cons var vars ih =>
    rw [verifyRest]
    split_ifs with hverify
    · simpa [hverify] using ih (idx + 1)
    · simp [hverify]

/-- Verification against constraints that are variadic at the end only. -/
theorem verifyConstraintsLastVariadic_iff {constraints : List C}
    (hlast : ∀ constraint ∈ constraints.dropLast, isVariadic constraint = false) (idx : ℕ)
    (vars : List T) :
    (verifyConstraintsLastVariadic isVariadic verify toString idx constraints vars ≠ .undefined ↔
      ConstraintsFit verify constraints vars) ∧
    (ConstraintsFit verify constraints vars →
      (verifyConstraintsLastVariadic isVariadic verify toString idx constraints vars = .success ↔
        ConstraintsHold isVariadic verify constraints vars)) := by
  induction constraints generalizing idx vars with
  | nil => simp [verifyConstraintsLastVariadic, ConstraintsFit, ConstraintsHold]
  | cons constraint constraints ih =>
    unfold verifyConstraintsLastVariadic
    cases hvariadic : isVariadic constraint with
    | true =>
      have hnil : constraints = [] := by
        by_contra hne
        have hmem : constraint ∈ (constraint :: constraints).dropLast := by
          rw [List.dropLast_cons_of_ne_nil hne]
          exact List.mem_cons_self ..
        simp [hlast constraint hmem] at hvariadic
      subst hnil
      have hrest := @verifyRest_iff C T verify toString constraint idx vars
      cases vars with
      | nil => simp [verifyRest, ConstraintsFit]
      | cons var vars =>
        simp only [if_true, List.isEmpty_nil, Bool.not_true, Bool.false_eq_true, if_false, ne_eq,
          Outcome.andThen_eq_undefined, Outcome.andThen_eq_success, hrest.1, hrest.2]
        simp [ConstraintsFit, ConstraintsHold, hvariadic]
    | false =>
      cases vars with
      | nil => simp [ConstraintsFit]
      | cons var vars =>
        have htail : ∀ constraint ∈ constraints.dropLast, isVariadic constraint = false := by
          intro next hnext
          apply hlast next
          rw [List.dropLast_cons_of_ne_nil (by rintro rfl; simp at hnext)]
          exact List.mem_cons_of_mem _ hnext
        rw [constraintsFit_cons, constraintsHold_cons hvariadic]
        simp only [Bool.false_eq_true, if_false]
        cases hverify : verify constraint var with
        | true => simpa [hverify] using ih htail (idx + 1) vars
        | false => simp [hverify]

end LastVariadic

/-- The constraints of a verified list are variadic at the end only. -/
theorem isVariadic_dropLast {C : Type} {isVariadic : C → Bool} {name : String}
    {constraints : List C} (h : verifyConstraintList isVariadic name constraints = .ok ()) :
    ∀ constraint ∈ constraints.dropLast, isVariadic constraint = false := by
  intro constraint hmem
  cases verifyConstraintList_ok h with
  | inl hnone => exact hnone constraint (List.dropLast_subset constraints hmem)
  | inr hsome =>
    obtain ⟨fixed, last, rfl, -, hfixed⟩ := hsome
    rw [List.dropLast_concat] at hmem
    exact hfixed constraint hmem

/-! ## Guards of traits -/

def numNonVariadic (tys : List Ty) : ℕ := tys.countP fun ty ↦ !ty.isVariadic

section Traits

variable (ext : Externals) (info : List Trait) (op : Operation) (opTy : OpType)

/-- What a trait needs of an instance that the earlier traits have accepted. -/
def Trait.Guard : Trait → Prop
  | sameVariadicSizes kind =>
    hasVariadicValues (opTy.types kind) = true ∧
      numNonVariadic (opTy.types kind) ≤ (op.values kind).length
  | regionConstraint opRegions =>
    ConstraintsFit (fun constraint region ↦ constraint.verify region) opRegions.getRegionAttrs
      op.regions
  | successorConstraint opSuccs =>
    ConstraintsFit (fun constraint block ↦ constraint.verify block) opSuccs.getSuccessorAttrs
      op.successors
  | _ => True

/-- What a trait says of an instance. -/
def Trait.Accepts : Trait → Prop
  | sameVariadicSizes kind =>
    (opTy.types kind).countP Ty.isVariadic ∣
      (op.values kind).length - numNonVariadic (opTy.types kind)
  | sizedSegments kind =>
    ext.verifySizeAttr (op.getSegmentSizesAttr kind) (op.values kind).length = true ∧
      ∃ sizes, op.getSegmentSizesAttr kind = some sizes ∧
        sizes.values.length = (opTy.types kind).length ∧
        ∀ (i : ℕ) (ty : Ty), (opTy.types kind)[i]? = some ty → ty.isVariadic = false →
          (sizes.values.map Int.toNat)[i]? = some 1
  | exactly counted num => op.count counted = num
  | atLeast counted num => num ≤ op.count counted
  | standard name parameters => ext.verifyStandard name parameters op = true
  | typeConstraint opTy => ∀ kind : ValueKind, TypesSatisfied ext info op opTy kind
  | attrConstraint opAttrs => ext.verifyAttrConstraints opAttrs op = true
  | regionConstraint opRegions =>
    ConstraintsHold RegionConstraint.isVariadic (fun constraint region ↦ constraint.verify region)
      opRegions.getRegionAttrs op.regions
  | successorConstraint opSuccs =>
    ConstraintsHold SuccessorConstraint.isVariadic
      (fun constraint block ↦ constraint.verify block) opSuccs.getSuccessorAttrs op.successors

/-- The guard of a trait holds whenever all traits before it accept the instance. -/
def Guarded (traits : List Trait) : Prop :=
  ∀ (before after : List Trait) (trait : Trait), traits = before ++ trait :: after →
    (∀ earlier ∈ before, earlier.Accepts ext info op opTy) → trait.Guard op opTy

variable {ext info op opTy}

theorem calcFixedVariadicSize_isSome_iff (tys : List Ty) (numVals : ℕ) :
    (calcFixedVariadicSize tys numVals).isSome ↔
      hasVariadicValues tys = true ∧ numNonVariadic tys ≤ numVals := by
  have hcount : tys.length = tys.countP Ty.isVariadic + numNonVariadic tys := by
    simpa [numNonVariadic] using List.length_eq_countP_add_countP Ty.isVariadic
  simp only [calcFixedVariadicSize, hasVariadicValues, bne_iff_ne]
  split_ifs with hnone hfew
  · simp [hnone]
  · simp only [Option.isSome_none, Bool.false_eq_true, false_iff, not_and]
    omega
  · simp only [Option.isSome_some, true_iff]
    omega

theorem SameVariadicSizes.verifyOp_iff (hopTy : getOpType info = some opTy) (kind : ValueKind) :
    (SameVariadicSizes.verifyOp info op kind ≠ .undefined ↔
      (Trait.sameVariadicSizes kind).Guard op opTy) ∧
    ((Trait.sameVariadicSizes kind).Guard op opTy →
      (SameVariadicSizes.verifyOp info op kind = .success ↔
        (Trait.sameVariadicSizes kind).Accepts ext info op opTy)) := by
  have hguard := calcFixedVariadicSize_isSome_iff (opTy.types kind) (op.values kind).length
  simp only [Trait.Guard, Trait.Accepts, ← hguard, SameVariadicSizes.verifyOp, hopTy,
    checkVariadicValues]
  have hcount : (opTy.types kind).length =
      (opTy.types kind).countP Ty.isVariadic + numNonVariadic (opTy.types kind) := by
    simpa [numNonVariadic] using List.length_eq_countP_add_countP Ty.isVariadic
  have hnumFixed : (opTy.types kind).length - (opTy.types kind).countP Ty.isVariadic =
      numNonVariadic (opTy.types kind) := by omega
  cases hcalc : calcFixedVariadicSize (opTy.types kind) (op.values kind).length with
  | none => simp
  | some sizes =>
    have hsizes : sizes = ((op.values kind).length - numNonVariadic (opTy.types kind),
        (opTy.types kind).countP Ty.isVariadic) := by
      simp only [calcFixedVariadicSize, hnumFixed] at hcalc
      split_ifs at hcalc
      exact (Option.some.inj hcalc).symm
    subst hsizes
    rw [Nat.dvd_iff_mod_eq_zero]
    by_cases hdivisible : ((op.values kind).length - numNonVariadic (opTy.types kind)) %
        (opTy.types kind).countP Ty.isVariadic = 0
    · simp [hdivisible]
    · simp [beq_false_of_ne hdivisible, hdivisible]

theorem SizedSegments.verifyOp_iff (hext : ext.SizeAttrSound) (hopTy : getOpType info = some opTy)
    (kind : ValueKind) :
    SizedSegments.verifyOp ext info op kind ≠ .undefined ∧
      (SizedSegments.verifyOp ext info op kind = .success ↔
        (Trait.sizedSegments kind).Accepts ext info op opTy) := by
  unfold SizedSegments.verifyOp Trait.Accepts
  split_ifs with hattr
  · obtain ⟨sizes, hsizes, -⟩ := hext _ _ hattr
    simp only [hopTy, hsizes, Option.some.injEq, exists_eq_left']
    rw [hsizes] at hattr
    have hsegments := checkVariadicSegments_iff (opTy.types kind) sizes.values kind.name
    exact ⟨hsegments.1, by rw [hsegments.2, and_iff_right hattr]⟩
  · simp [hattr]

/-- What the verification of one trait is, where the sizes of the values are as types need them. -/
theorem Trait.verifyOp_iff (hext : ext.SizeAttrSound) (hopTy : getOpType info = some opTy)
    {trait : Trait}
    (htypes : ∀ opTy', trait = .typeConstraint opTy' →
      opTy' = opTy ∧ ∀ kind, WellSized ext info op opTy kind)
    (hregions : ∀ opRegions, trait = .regionConstraint opRegions →
      ∀ constraint ∈ opRegions.getRegionAttrs.dropLast, constraint.isVariadic = false)
    (hsuccs : ∀ opSuccs, trait = .successorConstraint opSuccs →
      ∀ constraint ∈ opSuccs.getSuccessorAttrs.dropLast, constraint.isVariadic = false) :
    (trait.verifyOp ext info op ≠ .undefined ↔ trait.Guard op opTy) ∧
      (trait.Guard op opTy →
        (trait.verifyOp ext info op = .success ↔ trait.Accepts ext info op opTy)) := by
  cases trait with
  | sameVariadicSizes kind => exact SameVariadicSizes.verifyOp_iff hopTy kind
  | sizedSegments kind =>
    have hverify := @SizedSegments.verifyOp_iff ext info op opTy hext hopTy kind
    exact ⟨iff_of_true hverify.1 trivial, fun _ ↦ hverify.2⟩
  | exactly counted num =>
    simp only [verifyOp, Guard, Accepts]
    split_ifs with hcount <;> simp [hcount]
  | atLeast counted num =>
    simp only [verifyOp, Guard, Accepts]
    split_ifs with hcount <;> simp [hcount]
  | standard name parameters =>
    simp only [verifyOp, Guard, Accepts]
    split_ifs with hverify <;> simp [hverify]
  | typeConstraint opTy' =>
    obtain ⟨rfl, hsized⟩ := htypes opTy' rfl
    have hverify := verifyTypeConstraints_iff hext hopTy hsized
    exact ⟨iff_of_true hverify.2.1 trivial, fun _ ↦ hverify.2.2⟩
  | attrConstraint opAttrs =>
    simp only [verifyOp, Guard, Accepts]
    split_ifs with hverify <;> simp [hverify]
  | regionConstraint opRegions =>
    exact verifyConstraintsLastVariadic_iff (hregions opRegions rfl) 0 op.regions
  | successorConstraint opSuccs =>
    exact verifyConstraintsLastVariadic_iff (hsuccs opSuccs rfl) 0 op.successors

theorem guarded_cons (trait : Trait) (traits : List Trait) :
    Guarded ext info op opTy (trait :: traits) ↔
      trait.Guard op opTy ∧
        (trait.Accepts ext info op opTy → Guarded ext info op opTy traits) := by
  constructor
  · intro hguarded
    refine ⟨hguarded [] traits trait rfl (by simp), ?_⟩
    intro haccepts before after next hsplit hbefore
    apply hguarded (trait :: before) after next (by rw [hsplit, List.cons_append])
    simpa [haccepts] using hbefore
  · rintro ⟨hguard, hrest⟩ before after next hsplit hbefore
    cases before with
    | nil =>
      obtain ⟨rfl, -⟩ := List.cons.inj hsplit
      exact hguard
    | cons first before =>
      obtain ⟨rfl, htail⟩ := List.cons.inj hsplit
      rw [List.forall_mem_cons] at hbefore
      exact hrest hbefore.1 before after next htail hbefore.2

/-- Verification is defined where all guards hold, if each trait is as it should be after the traits
before it have succeeded. -/
theorem verifyOpTraits_ne_undefined_iff {traits : List Trait}
    (hspec : ∀ (before after : List Trait) (trait : Trait), traits = before ++ trait :: after →
      (∀ earlier ∈ before, earlier.verifyOp ext info op = .success) →
      (trait.verifyOp ext info op ≠ .undefined ↔ trait.Guard op opTy) ∧
        (trait.Guard op opTy →
          (trait.verifyOp ext info op = .success ↔ trait.Accepts ext info op opTy))) :
    verifyOpTraits ext info op traits ≠ .undefined ↔ Guarded ext info op opTy traits := by
  induction traits with
  | nil => simp [verifyOpTraits, Guarded]
  | cons trait traits ih =>
    obtain ⟨hdefined, haccepts⟩ := hspec [] traits trait rfl (by simp)
    rw [guarded_cons, verifyOpTraits, ne_eq, Outcome.andThen_eq_undefined, not_or, not_and,
      ← ne_eq, hdefined]
    apply and_congr_right
    intro hguard
    rw [← haccepts hguard]
    apply imp_congr_right
    intro hsuccess
    apply ih
    intro before after next hsplit hbefore
    apply hspec (trait :: before) after next (by rw [hsplit, List.cons_append])
    simpa [hsuccess] using hbefore

end Traits

/-! ## The traits of a registered op -/

/-- The traits that registration adds itself after all others. -/
def Trait.isConstraint : Trait → Bool
  | typeConstraint _ | attrConstraint _ | regionConstraint _ | successorConstraint _ => true
  | _ => false

/-- A trait of the user or a count, where only the size traits have their names. -/
structure Trait.Plain (trait : Trait) : Prop where
  not_constraint : trait.isConstraint = false
  sized : ∀ kind : ValueKind, trait.name = kind.sizedSegments → trait = .sizedSegments kind
  same : ∀ kind : ValueKind, trait.name = kind.sameVariadicSizes → trait = .sameVariadicSizes kind

def ValueKind.counted : ValueKind → Counted
  | operand => .operands
  | result => .results

theorem Operation.count_counted (op : Operation) (kind : ValueKind) :
    op.count kind.counted = (op.values kind).length := by
  cases kind <;> rfl

theorem mem_of_hasDynamicTrait {name : String} {traits : List Trait}
    (h : hasDynamicTrait name traits = true) : ∃ trait ∈ traits, trait.name = name := by
  simpa [hasDynamicTrait] using h

theorem Trait.plain_exactly (counted : Counted) (num : ℕ) : (Trait.exactly counted num).Plain := by
  constructor
  · rfl
  · intro kind hname
    cases counted <;> cases kind <;> simp [name, Counted.exactly, ValueKind.sizedSegments] at hname
  · intro kind hname
    cases counted <;> cases kind <;>
      simp [name, Counted.exactly, ValueKind.sameVariadicSizes] at hname

theorem Trait.plain_atLeast (counted : Counted) (num : ℕ) : (Trait.atLeast counted num).Plain := by
  constructor
  · rfl
  · intro kind hname
    cases counted <;> cases kind <;> simp [name, Counted.atLeast, ValueKind.sizedSegments] at hname
  · intro kind hname
    cases counted <;> cases kind <;>
      simp [name, Counted.atLeast, ValueKind.sameVariadicSizes] at hname

theorem traitSignature_sizedSegments (kind : ValueKind) :
    traitSignature kind.sizedSegments = some [] := by
  cases kind <;> rfl

theorem traitSignature_sameVariadicSizes (kind : ValueKind) :
    traitSignature kind.sameVariadicSizes = some [] := by
  cases kind <;> rfl

/-- A constructed trait has the name it was constructed by. -/
theorem name_constructTrait (name : String) (parameters : List Attr) :
    (constructTrait name parameters).name = name := by
  unfold constructTrait
  split <;> rfl

theorem constructTrait_sizedSegments (kind : ValueKind) :
    constructTrait kind.sizedSegments [] = .sizedSegments kind := by
  cases kind <;> rfl

theorem constructTrait_sameVariadicSizes (kind : ValueKind) :
    constructTrait kind.sameVariadicSizes [] = .sameVariadicSizes kind := by
  cases kind <;> rfl

theorem plain_constructTrait {name : String} {parameters : List Attr} {signature : List ParamKind}
    (hsignature : traitSignature name = some signature)
    (hlength : parameters.length = signature.length) :
    (constructTrait name parameters).Plain := by
  have hnil : traitSignature name = some [] → parameters = [] := fun hnone ↦ by
    rw [hnone, Option.some.injEq] at hsignature
    rw [← hsignature] at hlength
    exact List.length_eq_zero_iff.mp hlength
  constructor
  · unfold constructTrait
    split <;> rfl
  · intro kind hname
    rw [name_constructTrait] at hname
    subst hname
    rw [hnil (traitSignature_sizedSegments kind), constructTrait_sizedSegments]
  · intro kind hname
    rw [name_constructTrait] at hname
    subst hname
    rw [hnil (traitSignature_sameVariadicSizes kind), constructTrait_sameVariadicSizes]

theorem hasDynamicTrait_mono {name : String} {traits traits' : List Trait} (hle : traits ⊆ traits')
    (h : hasDynamicTrait name traits = true) : hasDynamicTrait name traits' = true := by
  obtain ⟨trait, hmem, hname⟩ := mem_of_hasDynamicTrait h
  rw [hasDynamicTrait, List.any_eq_true]
  exact ⟨trait, hle hmem, by simpa using hname⟩

theorem addOpTrait_eq_some {traits traits' : List Trait} {trait : Trait}
    (h : addOpTrait traits trait = some traits') : traits' = traits ++ [trait] := by
  unfold addOpTrait at h
  split_ifs at h
  exact (Option.some.inj h).symm

/-- The traits of the user are added after those that are there, each under its name. -/
theorem addUserTraits_ok {opTraits : List OpTraitAttr} {traits traits' : List Trait}
    (h : addUserTraits traits opTraits = .ok traits') (hplain : ∀ trait ∈ traits, trait.Plain) :
    (∀ trait ∈ traits', trait.Plain) ∧ traits ⊆ traits' ∧
      ∀ name, hasTrait name opTraits = true → (traitSignature name).isSome = true →
        hasDynamicTrait name traits' = true := by
  induction opTraits generalizing traits with
  | nil =>
    obtain rfl := Except.ok.inj h
    exact ⟨hplain, List.Subset.refl _, by simp [hasTrait]⟩
  | cons opTrait opTraits ih =>
    rw [addUserTraits] at h
    cases hsignature : traitSignature opTrait.name with
    | none =>
      rw [hsignature] at h
      obtain ⟨hplain', hle, hnames⟩ := ih h hplain
      refine ⟨hplain', hle, fun name hname hsome ↦ ?_⟩
      apply hnames name _ hsome
      simp only [hasTrait, List.any_cons, Bool.or_eq_true, beq_iff_eq] at hname
      refine hname.resolve_left ?_
      rintro rfl
      simp [hsignature] at hsome
    | some signature =>
      simp only [hsignature] at h
      split_ifs at h with hlength
      cases hadd : addOpTrait traits (constructTrait opTrait.name opTrait.parameters) with
      | none => simp [hadd] at h
      | some added =>
        simp only [hadd] at h
        have hnew := plain_constructTrait hsignature (not_not.mp hlength)
        obtain rfl := addOpTrait_eq_some hadd
        obtain ⟨hplain', hle, hnames⟩ := ih h (by
          rw [List.forall_mem_append]
          exact ⟨hplain, by simpa using hnew⟩)
        refine ⟨hplain', List.Subset.trans (List.subset_append_left _ _) hle, fun name hname hsome ↦ ?_⟩
        simp only [hasTrait, List.any_cons, Bool.or_eq_true, beq_iff_eq] at hname
        cases hname with
        | inl hhead =>
          apply hasDynamicTrait_mono hle
          simp [hasDynamicTrait, name_constructTrait, hhead]
        | inr htail => exact hnames name htail hsome

/-- A count trait is added after the traits that are there, an exact one if nothing is variadic. -/
theorem addCountTrait_ok {counted : Counted} {size numVariadic : ℕ} {traits traits' : List Trait}
    (h : addCountTrait traits counted size numVariadic = .ok traits')
    (hplain : ∀ trait ∈ traits, trait.Plain) :
    (∀ trait ∈ traits', trait.Plain) ∧ traits ⊆ traits' ∧
      (numVariadic = 0 → .exactly counted size ∈ traits') := by
  unfold addCountTrait at h
  split_ifs at h with hnone hthere
  · cases hadd : addOpTrait traits (.exactly counted size) with
    | none => simp [hadd] at h
    | some added =>
      simp only [hadd, Except.ok.injEq] at h
      subst h
      obtain rfl := addOpTrait_eq_some hadd
      refine ⟨?_, List.subset_append_left _ _, fun _ ↦ by simp⟩
      rw [List.forall_mem_append]
      exact ⟨hplain, by simpa using Trait.plain_exactly counted size⟩
  · obtain rfl := Except.ok.inj h
    exact ⟨hplain, List.Subset.refl _, fun hzero ↦ absurd hzero hnone⟩
  · obtain rfl := Except.ok.inj h
    refine ⟨?_, List.subset_append_left _ _, fun hzero ↦ absurd hzero hnone⟩
    rw [List.forall_mem_append]
    exact ⟨hplain, by simpa using Trait.plain_atLeast counted _⟩

/-- What comes before the constraint traits of a registered op. -/
structure Front (op : OperationOp) (front : List Trait) : Prop where
  plain : ∀ trait ∈ front, trait.Plain
  user : ∀ name, hasTrait name op.opTraits = true → (traitSignature name).isSome = true →
    hasDynamicTrait name front = true
  exact : ∀ kind : ValueKind, hasVariadicValues (op.opType.types kind) = false →
    .exactly kind.counted (op.opType.types kind).length ∈ front

def OperationOp.constraintTraits (op : OperationOp) : List Trait :=
  [.typeConstraint op.opType, .attrConstraint op.opAttrs, .regionConstraint op.opRegions,
    .successorConstraint op.opSuccs]

theorem registerOp_ok {op : OperationOp} {traits : List Trait} (h : registerOp op = .ok traits) :
    ∃ front, traits = front ++ op.constraintTraits ∧ Front op front := by
  obtain ⟨userTraits, huser, h⟩ := bind_eq_ok.mp h
  obtain ⟨withRegions, hregions, h⟩ := bind_eq_ok.mp h
  obtain ⟨withSuccs, hsuccs, h⟩ := bind_eq_ok.mp h
  obtain ⟨withOperands, hoperands, h⟩ := bind_eq_ok.mp h
  obtain ⟨front, hresults, h⟩ := bind_eq_ok.mp h
  obtain ⟨huser', -, hnames⟩ := addUserTraits_ok huser (by simp)
  obtain ⟨hregions', hregionsLe, -⟩ := addCountTrait_ok hregions huser'
  obtain ⟨hsuccs', hsuccsLe, -⟩ := addCountTrait_ok hsuccs hregions'
  obtain ⟨hoperands', hoperandsLe, hexact⟩ := addCountTrait_ok hoperands hsuccs'
  obtain ⟨hresults', hresultsLe, hexact'⟩ := addCountTrait_ok hresults hoperands'
  refine ⟨front, (Except.ok.inj h).symm, hresults', fun name hname hsome ↦ ?_, fun kind hnone ↦ ?_⟩
  · have hle := List.Subset.trans (List.Subset.trans hregionsLe hsuccsLe)
      (List.Subset.trans hoperandsLe hresultsLe)
    exact hasDynamicTrait_mono hle (hnames name hname hsome)
  · have hzero : (op.opType.types kind).countP Ty.isVariadic = 0 := by
      simpa [hasVariadicValues] using hnone
    cases kind with
    | operand => exact hresultsLe (hexact hzero)
    | result => exact hexact' hzero

theorem getOpType_append_constraintTraits (op : OperationOp) {front : List Trait}
    (hplain : ∀ trait ∈ front, trait.Plain) :
    getOpType (front ++ op.constraintTraits) = some op.opType := by
  induction front with
  | nil => rfl
  | cons trait front ih =>
    rw [List.forall_mem_cons] at hplain
    have hkind := hplain.1.not_constraint
    have htail := ih hplain.2
    cases trait <;> first
      | exact htail
      | simp [Trait.isConstraint] at hkind

/-- The place of an entry that occurs once. -/
theorem eq_of_append_cons_eq {α : Type} {P : α → Prop} {front rest before after : List α} {a b : α}
    (h : front ++ a :: rest = before ++ b :: after) (hb : P b) (hfront : ∀ c ∈ front, ¬ P c)
    (hrest : ∀ c ∈ rest, ¬ P c) : before = front ∧ b = a := by
  induction front generalizing before with
  | nil =>
    cases before with
    | nil => exact ⟨rfl, (List.cons.inj h).1.symm⟩
    | cons c before =>
      have hmem : b ∈ rest := by
        rw [(List.cons.inj h).2]
        simp
      exact absurd hb (hrest b hmem)
  | cons c front ih =>
    rw [List.forall_mem_cons] at hfront
    cases before with
    | nil =>
      obtain ⟨rfl, -⟩ := List.cons.inj h
      exact absurd hb hfront.1
    | cons d before =>
      obtain ⟨rfl, htail⟩ := List.cons.inj h
      obtain ⟨rfl, hba⟩ := ih htail hfront.2
      exact ⟨rfl, hba⟩

section Registered

variable {spec : OperationOp} {front : List Trait} {ext : Externals} {op : Operation}

/-- The size trait or the exact count has succeeded before the types are verified. -/
theorem Front.wellSized (hverify : spec.verify = .ok ()) (hfront : Front spec front)
    (hbefore : ∀ earlier ∈ front,
      earlier.verifyOp ext (front ++ spec.constraintTraits) op = .success) (kind : ValueKind) :
    WellSized ext (front ++ spec.constraintTraits) op spec.opType kind := by
  have hmem : ∀ trait ∈ front ++ spec.constraintTraits,
      trait.name = kind.sizedSegments ∨ trait.name = kind.sameVariadicSizes → trait ∈ front := by
    intro trait hmem hname
    rw [List.mem_append] at hmem
    refine hmem.resolve_right fun hconstraint ↦ ?_
    simp only [OperationOp.constraintTraits, List.mem_cons, List.not_mem_nil, or_false]
      at hconstraint
    cases kind <;> rcases hconstraint with rfl | rfl | rfl | rfl <;>
      simp [Trait.name, ValueKind.sizedSegments, ValueKind.sameVariadicSizes] at hname
  cases hsized : hasDynamicTrait kind.sizedSegments (front ++ spec.constraintTraits) with
  | true =>
    obtain ⟨trait, htrait, hname⟩ := mem_of_hasDynamicTrait hsized
    have htrait' := hmem trait htrait (.inl hname)
    have hsuccess := hbefore trait htrait'
    rw [(hfront.plain trait htrait').sized kind hname] at hsuccess
    exact .sized hsized hsuccess
  | false =>
    cases hsame : hasDynamicTrait kind.sameVariadicSizes (front ++ spec.constraintTraits) with
    | true =>
      obtain ⟨trait, htrait, hname⟩ := mem_of_hasDynamicTrait hsame
      have htrait' := hmem trait htrait (.inr hname)
      have hsuccess := hbefore trait htrait'
      rw [(hfront.plain trait htrait').same kind hname] at hsuccess
      exact .same hsized hsame hsuccess
    | false =>
      have husers : ∀ name, hasTrait name spec.opTraits = true →
          (traitSignature name).isSome = true →
          hasDynamicTrait name (front ++ spec.constraintTraits) = true := fun name hname hsome ↦
        hasDynamicTrait_mono (List.subset_append_left _ _) (hfront.user name hname hsome)
      have hnone : hasVariadicValues (spec.opType.types kind) = false := by
        by_contra hvariadic
        have hspecifier := (verifySizeSpecifier_ok_iff spec kind).mp
          ((OperationOp.verify_ok hverify).1 kind)
        cases hspecifier.2 (by simpa using hvariadic) with
        | inl huser =>
          have hthere := husers _ huser (by rw [traitSignature_sameVariadicSizes]; rfl)
          simp [hsame] at hthere
        | inr huser =>
          have hthere := husers _ huser (by rw [traitSignature_sizedSegments]; rfl)
          simp [hsized] at hthere
      have hcount := hbefore _ (hfront.exact kind hnone)
      simp only [Trait.verifyOp] at hcount
      split_ifs at hcount with hlength
      exact .unsized (by simp [hasSizeTrait, hsized, hsame]) (by rw [← op.count_counted, hlength])

theorem Front.before_typeConstraint (hfront : Front spec front) {before after : List Trait}
    {opTy : OpType}
    (hsplit : front ++ spec.constraintTraits = before ++ .typeConstraint opTy :: after) :
    before = front ∧ opTy = spec.opType := by
  have hplace := @eq_of_append_cons_eq Trait (fun trait ↦ ∃ opTy, trait = .typeConstraint opTy)
    front _ before after _ _ hsplit ⟨opTy, rfl⟩
  have hplain : ∀ trait ∈ front, ¬ ∃ opTy, trait = .typeConstraint opTy := by
    rintro _ hmem ⟨opTy', rfl⟩
    simpa [Trait.isConstraint] using (hfront.plain _ hmem).not_constraint
  obtain ⟨hbefore, hopTy⟩ := hplace hplain (by simp)
  exact ⟨hbefore, Trait.typeConstraint.inj hopTy⟩

end Registered

/-- A size specifier without variadic values, which the verifier of `dmc.Op` lets pass. -/
def specifierWithoutVariadic : OperationOp where
  name := "same"
  opType := ⟨[⟨"x", .leaf .any⟩], [], List.nodup_singleton "x", List.nodup_nil⟩
  opAttrs := []
  opRegions := ⟨[], List.nodup_nil⟩
  opSuccs := ⟨[], List.nodup_nil⟩
  opTraits := [⟨"SameVariadicOperandSizes", []⟩]
  config := []

/-- Any number of regions. -/
def variadicRegion : OperationOp where
  name := "loop"
  opType := ⟨[], [], List.nodup_nil, List.nodup_nil⟩
  opAttrs := []
  opRegions := ⟨[⟨"bodies", .variadic .any⟩], List.nodup_singleton "bodies"⟩
  opSuccs := ⟨[], List.nodup_nil⟩
  opTraits := []
  config := []

def withOperands (operands : List Value) : Operation where
  operands := operands
  results := []
  regions := []
  successors := []
  operandSegmentSizes := none
  resultSegmentSizes := none
  attrs := []

/-- The traits of an op for which registration succeeds. -/
def registeredTraits (spec : OperationOp) : List Trait :=
  match registerOp spec with
  | .ok traits => traits
  | .error _ => []

end DeclarativeMlir.Spec

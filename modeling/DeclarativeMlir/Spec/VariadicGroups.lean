import DeclarativeMlir.Library.Segments
import DeclarativeMlir.Spec.InstanceVerifier

/-!
# Groups of variadic values

The groups of operands or results that the size traits compute split the values in order, one group
for each entry of the signature. Type verification holds each group against the constraint of its
entry.
-/

namespace DeclarativeMlir.Spec

open Segments

/-! ## Groups from sizes -/

/-- A group is a segment if the sizes account for all values. -/
theorem getValueGroup_eq {σ : Type} {tys : List Ty} {vals : List Value}
    {getNextSegSize : Ty → σ → Option (ℕ × σ)} {state : σ} {sizes : List ℕ}
    (hsizes : Reads getNextSegSize tys state sizes) (hsum : sizes.sum = vals.length) (idx : ℕ) :
    getValueGroup tys vals idx getNextSegSize state =
      some (((sizes.splitLengths vals)[idx]?).getD []) := by
  rw [getValueGroup]
  by_cases hidx : idx < tys.length
  · have hidx' : idx < sizes.length := hsizes.length_eq ▸ hidx
    obtain ⟨state', state'', hfold, hlast⟩ :=
      hsizes.foldlM (fun acc state ty ↦ (rfl : addSegSize getNextSegSize (acc, state) ty = _))
        hidx 0
    rw [List.get_eq_getElem] at hlast
    have hfit := sum_take_add_getElem_le sizes hidx'
    rw [List.drop_eq_getElem_cons hidx, getElem?_splitLengths sizes vals hidx']
    simp only [hfold, hlast, Nat.zero_add, Option.bind_some, Option.getD_some]
    rw [if_pos (by omega)]
  · have hpast : (sizes.splitLengths vals)[idx]? = none := by
      rw [List.getElem?_eq_none_iff, List.length_splitLengths, hsizes.length_eq]
      omega
    rw [List.drop_eq_nil_of_le (by omega), hpast]
    rfl

/-- The sizes of the groups if all variadic groups have the same size. -/
def fixedSizes (tys : List Ty) (segSize : ℕ) : List ℕ :=
  tys.map fun ty ↦ if ty.isVariadic then segSize else 1

theorem sum_fixedSizes (tys : List Ty) (segSize : ℕ) :
    (fixedSizes tys segSize).sum =
      tys.countP Ty.isVariadic * segSize + (tys.length - tys.countP Ty.isVariadic) := by
  induction tys with
  | nil => simp [fixedSizes]
  | cons ty tys ih =>
    have hle := tys.countP_le_length (p := Ty.isVariadic)
    have hcons : (fixedSizes (ty :: tys) segSize).sum =
        (if ty.isVariadic then segSize else 1) + (fixedSizes tys segSize).sum := by
      simp [fixedSizes]
    rw [hcons, ih, List.countP_cons, List.length_cons]
    cases hty : ty.isVariadic with
    | true =>
      rw [if_pos rfl, if_pos rfl, Nat.add_mul, Nat.one_mul]
      omega
    | false =>
      rw [if_neg (by simp), if_neg (by simp), Nat.add_zero]
      omega

/-- With a divisible number of variadic values, the sizes account for all values. -/
theorem calcFixedVariadicSize_sum {tys : List Ty} {numVals numVariadicVals numVariadicTypes : ℕ}
    (h : calcFixedVariadicSize tys numVals = some (numVariadicVals, numVariadicTypes))
    (hdivisible : numVariadicVals % numVariadicTypes = 0) :
    (fixedSizes tys (numVariadicVals / numVariadicTypes)).sum = numVals := by
  simp only [calcFixedVariadicSize] at h
  split_ifs at h with hnone hfew
  simp only [Option.some.injEq, Prod.mk.injEq] at h
  obtain ⟨rfl, rfl⟩ := h
  rw [sum_fixedSizes, Nat.mul_div_cancel' (Nat.dvd_of_mod_eq_zero hdivisible)]
  omega

theorem getFixedValueGroup_eq {tys : List Ty} {vals : List Value}
    (hcheck : checkVariadicValues tys vals.length = some true) :
    ∃ segSize, (fixedSizes tys segSize).sum = vals.length ∧ ∀ idx,
      getFixedValueGroup tys vals idx =
        some ((((fixedSizes tys segSize).splitLengths vals)[idx]?).getD []) := by
  rw [checkVariadicValues, Option.map_eq_some_iff] at hcheck
  obtain ⟨⟨numVariadicVals, numVariadicTypes⟩, hcalc, hdivisible⟩ := hcheck
  have hsum := calcFixedVariadicSize_sum hcalc (by simpa using hdivisible)
  refine ⟨numVariadicVals / numVariadicTypes, hsum, fun idx ↦ ?_⟩
  have hreads := Reads.ofFunction
    (fun ty : Ty ↦ if ty.isVariadic then numVariadicVals / numVariadicTypes else 1) tys
  simp only [getFixedValueGroup, getFixedSegmentSize, hcalc, Option.map_some,
    Option.bind_eq_bind, Option.bind_some]
  exact getValueGroup_eq hreads hsum idx

theorem getAttrValueGroup_eq {tys : List Ty} {vals : List Value} {sizes : List ℤ}
    (hlength : sizes.length = tys.length) (hsum : (sizes.map Int.toNat).sum = vals.length)
    (idx : ℕ) :
    getAttrValueGroup tys vals idx sizes =
      some ((((sizes.map Int.toNat).splitLengths vals)[idx]?).getD []) :=
  getValueGroup_eq (Reads.ofList (fun _ _ _ ↦ rfl) hlength) hsum idx

/-- The values are split by sizes, which are one for the types that are not variadic. -/
def Segmented (tys : List Ty) (vals : List Value) (getValues : ℕ → Option (List Value)) : Prop :=
  ∃ sizes : List ℕ, sizes.length = tys.length ∧ sizes.sum = vals.length ∧
    (∀ (i : ℕ) (ty : Ty), tys[i]? = some ty → ty.isVariadic = false → sizes[i]? = some 1) ∧
    ∀ idx, getValues idx = some (((sizes.splitLengths vals)[idx]?).getD [])

/-- One group for each type, of one value if the type is not variadic, with all values in order. -/
structure Grouped (tys : List Ty) (vals : List Value) (getValues : ℕ → Option (List Value)) :
    Prop where
  concat : ((List.range tys.length).mapM getValues).map List.flatten = some vals
  single : ∀ (i : ℕ) (ty : Ty), tys[i]? = some ty → ty.isVariadic = false →
    ∃ value, getValues i = some [value]
  past : ∀ i, tys.length ≤ i → getValues i = some []

theorem Segmented.grouped {tys : List Ty} {vals : List Value}
    {getValues : ℕ → Option (List Value)} (h : Segmented tys vals getValues) :
    Grouped tys vals getValues := by
  obtain ⟨sizes, hlength, hsum, hone, hgroups⟩ := h
  constructor
  · have hmap : (List.range (sizes.splitLengths vals).length).mapM getValues =
        some (sizes.splitLengths vals) := by
      apply mapM_range_eq_some
      intro i hi
      rw [hgroups, List.getElem?_eq_getElem hi, Option.getD_some]
    rw [List.length_splitLengths, hlength] at hmap
    rw [hmap, Option.map_some, List.flatten_splitLengths _ _ (by omega)]
  · intro i ty hty hvariadic
    have hsize := hone i ty hty hvariadic
    obtain ⟨hi, hsize⟩ := List.getElem?_eq_some_iff.mp hsize
    have hlen := List.splitLengths_length_getElem vals sizes (by omega) i (by simpa using hi)
    rw [hsize] at hlen
    obtain ⟨value, hvalue⟩ := List.length_eq_one_iff.mp hlen
    refine ⟨value, ?_⟩
    rw [hgroups, List.getElem?_eq_getElem (by simpa using hi), hvalue]
    rfl
  · intro i hi
    rw [hgroups, List.getElem?_eq_none (by simp; omega)]
    rfl

/-! ## Type verification -/

section Verify

variable {lookupIsa : String → String → Ty → Bool} {evalPy : String → Ty → Bool}

theorem verifyValues_iff (name : String) (ty : Ty) (valIdx : ℕ) (values : List Value) :
    verifyValues lookupIsa evalPy name ty valIdx values ≠ .undefined ∧
      (verifyValues lookupIsa evalPy name ty valIdx values = .success ↔
        ∀ value ∈ values, SpecTypes.delegateVerify lookupIsa evalPy ty value.type = true) := by
  induction values generalizing valIdx with
  | nil => simp [verifyValues]
  | cons value values ih =>
    rw [verifyValues]
    split_ifs with hverify
    · simpa [hverify] using ih (valIdx + 1)
    · simp [hverify]

/-- Type verification goes through all groups, and is defined as only variadic types can have an
empty group. -/
theorem verifyVariadicTypes_iff {getValues : ℕ → Option (List Value)} (name : String)
    {tys : List Ty} {groups : List (List Value)} (hlength : groups.length = tys.length)
    {groupIdx : ℕ} (hgroups : ∀ i, getValues (groupIdx + i) = some (groups[i]?.getD []))
    (hsingle : ∀ (i : ℕ) (ty : Ty), tys[i]? = some ty → ty.isVariadic = false → groups[i]? ≠ some [])
    (valIdx : ℕ) :
    verifyVariadicTypes lookupIsa evalPy name getValues tys groupIdx valIdx ≠ .undefined ∧
      (verifyVariadicTypes lookupIsa evalPy name getValues tys groupIdx valIdx = .success ↔
        ∀ (i : ℕ) (ty : Ty) (group : List Value), tys[i]? = some ty → groups[i]? = some group →
          ∀ value ∈ group,
          SpecTypes.delegateVerify lookupIsa evalPy ty value.type = true) := by
  induction tys generalizing groups groupIdx valIdx with
  | nil =>
    have hnil := List.length_eq_zero_iff.mp hlength
    subst hnil
    have hvalues := hgroups 0
    simp only [Nat.add_zero, List.getElem?_nil, Option.getD_none] at hvalues
    simp [verifyVariadicTypes, hvalues]
  | cons ty tys ih =>
    obtain ⟨group, groups, rfl⟩ := List.exists_cons_of_length_eq_add_one hlength
    have hvalues := hgroups 0
    simp only [Nat.add_zero, List.getElem?_cons_zero, Option.getD_some] at hvalues
    have hnonempty : (group.isEmpty && !ty.isVariadic) = false := by
      by_contra hempty
      simp only [Bool.not_eq_false, Bool.and_eq_true, List.isEmpty_iff, Bool.not_eq_true'] at hempty
      exact hsingle 0 ty rfl hempty.2 (by simp [hempty.1])
    have hnext : ∀ i, getValues (groupIdx + 1 + i) = some (groups[i]?.getD []) := fun i ↦ by
      simpa [Nat.add_assoc, Nat.add_comm 1 i] using hgroups (i + 1)
    have htail := ih (Nat.succ.inj hlength) hnext (fun i ty hty ↦ hsingle (i + 1) ty hty)
      (valIdx + group.length)
    have hhead := @verifyValues_iff lookupIsa evalPy name ty valIdx group
    simp only [verifyVariadicTypes, hvalues, hnonempty, Bool.false_eq_true, if_false, ne_eq,
      Outcome.andThen_eq_undefined, Outcome.andThen_eq_success]
    constructor
    · rintro (hundefined | ⟨-, hundefined⟩)
      · exact hhead.1 hundefined
      · exact htail.1 hundefined
    · rw [hhead.2, htail.2]
      constructor
      · rintro ⟨hfirst, hrest⟩ i ty' group' hty hgroup
        cases i with
        | zero =>
          obtain rfl := Option.some.inj hty
          obtain rfl := Option.some.inj hgroup
          exact hfirst
        | succ i => exact hrest i ty' group' hty hgroup
      · intro hall
        exact ⟨hall 0 ty group rfl rfl, fun i ty' group' ↦ hall (i + 1) ty' group'⟩

theorem verifyTypeRange_iff (name : String) {tys : List Ty} {vals : List Value}
    (hlength : vals.length = tys.length) (idx : ℕ) :
    verifyTypeRange lookupIsa evalPy name idx tys vals ≠ .undefined ∧
      (verifyTypeRange lookupIsa evalPy name idx tys vals = .success ↔
        ∀ (i : ℕ) (ty : Ty) (value : Value), tys[i]? = some ty → vals[i]? = some value →
          SpecTypes.delegateVerify lookupIsa evalPy ty value.type = true) := by
  induction tys generalizing vals idx with
  | nil =>
    have hnil := List.length_eq_zero_iff.mp hlength
    subst hnil
    simp [verifyTypeRange]
  | cons ty tys ih =>
    obtain ⟨value, vals, rfl⟩ := List.exists_cons_of_length_eq_add_one hlength
    have htail := ih (Nat.succ.inj hlength) (idx + 1)
    rw [verifyTypeRange]
    split_ifs with hverify
    · refine ⟨htail.1, ?_⟩
      rw [htail.2]
      constructor
      · intro hrest i ty' value' hty hvalue
        cases i with
        | zero =>
          obtain rfl := Option.some.inj hty
          obtain rfl := Option.some.inj hvalue
          exact hverify
        | succ i => exact hrest i ty' value' hty hvalue
      · intro hall i
        exact hall (i + 1)
    · refine ⟨by simp, ?_⟩
      simp only [reduceCtorEq, false_iff]
      intro hall
      exact hverify (hall 0 ty value rfl rfl)

end Verify

/-! ## The size traits -/

/-- The documented behaviour of the base check of the segment traits. -/
def Externals.SizeAttrSound (ext : Externals) : Prop :=
  ∀ attr numVals, ext.verifySizeAttr attr numVals = true → ∃ sizes, attr = some sizes ∧
    sizes.rank = 1 ∧ (∀ size ∈ sizes.values, 0 ≤ size) ∧ sizes.values.sum = numVals

theorem sum_map_toNat {sizes : List ℤ} (hnonneg : ∀ size ∈ sizes, 0 ≤ size) :
    ((sizes.map Int.toNat).sum : ℤ) = sizes.sum := by
  induction sizes with
  | nil => rfl
  | cons size sizes ih =>
    rw [List.forall_mem_cons] at hnonneg
    simp [ih hnonneg.2, Int.toNat_of_nonneg hnonneg.1]

theorem checkSegments_iff (name : String) {tys : List Ty} {sizes : List ℤ}
    (hlength : sizes.length = tys.length) (idx : ℕ) :
    checkSegments name idx tys sizes ≠ .undefined ∧
      (checkSegments name idx tys sizes = .success ↔
        ∀ (i : ℕ) (ty : Ty), tys[i]? = some ty → ty.isVariadic = false →
          (sizes.map Int.toNat)[i]? = some 1) := by
  induction tys generalizing sizes idx with
  | nil => simp [checkSegments]
  | cons ty tys ih =>
    obtain ⟨size, sizes, rfl⟩ := List.exists_cons_of_length_eq_add_one hlength
    have htail := ih (Nat.succ.inj hlength) (idx + 1)
    rw [checkSegments]
    split_ifs with hsize
    · refine ⟨by simp, ?_⟩
      simp only [reduceCtorEq, false_iff]
      intro hall
      have hfirst := hall 0 ty rfl (by simpa using hsize.2)
      simp only [List.map_cons, List.getElem?_cons_zero, Option.some.injEq] at hfirst
      exact hsize.1 hfirst
    · refine ⟨htail.1, ?_⟩
      rw [htail.2]
      constructor
      · intro hrest i ty' hty hvariadic
        cases i with
        | zero =>
          obtain rfl := Option.some.inj hty
          have hone : size.toNat = 1 := by
            by_contra hne
            exact hsize ⟨hne, by simp [hvariadic]⟩
          simp [hone]
        | succ i => exact hrest i ty' hty hvariadic
      · intro hall i
        exact hall (i + 1)

theorem checkVariadicSegments_iff (tys : List Ty) (sizes : List ℤ) (name : String) :
    checkVariadicSegments tys sizes name ≠ .undefined ∧
      (checkVariadicSegments tys sizes name = .success ↔ sizes.length = tys.length ∧
        ∀ (i : ℕ) (ty : Ty), tys[i]? = some ty → ty.isVariadic = false →
          (sizes.map Int.toNat)[i]? = some 1) := by
  rw [checkVariadicSegments]
  by_cases hlength : sizes.length = tys.length
  · have hsegments := checkSegments_iff name hlength 0
    rw [if_neg (by simpa using hlength)]
    exact ⟨hsegments.1, by rw [hsegments.2, and_iff_right hlength]⟩
  · rw [if_pos hlength]
    simp [hlength]

section Traits

variable {ext : Externals} {info : List Trait} {op : Operation} {opTy : OpType} {kind : ValueKind}

theorem SizedSegments.segmented (hext : ext.SizeAttrSound) (hopTy : getOpType info = some opTy)
    (hpass : SizedSegments.verifyOp ext info op kind = .success) :
    Segmented (opTy.types kind) (op.values kind) (SizedSegments.getGroup info op kind) := by
  unfold SizedSegments.verifyOp at hpass
  split_ifs at hpass with hattr
  obtain ⟨sizes, hsizes, -, hnonneg, hsum⟩ := hext _ _ hattr
  simp only [hopTy, hsizes] at hpass
  obtain ⟨hlength, hone⟩ := (checkVariadicSegments_iff _ _ _).2.mp hpass
  have hsum' : (sizes.values.map Int.toNat).sum = (op.values kind).length := by
    have hcast := sum_map_toNat hnonneg
    omega
  refine ⟨sizes.values.map Int.toNat, by simpa using hlength, hsum', hone, fun idx ↦ ?_⟩
  simp only [SizedSegments.getGroup, hopTy, hsizes, Option.bind_eq_bind, Option.bind_some]
  exact getAttrValueGroup_eq hlength hsum' idx

theorem SameVariadicSizes.segmented (hopTy : getOpType info = some opTy)
    (hpass : SameVariadicSizes.verifyOp info op kind = .success) :
    Segmented (opTy.types kind) (op.values kind) (SameVariadicSizes.getGroup info op kind) := by
  unfold SameVariadicSizes.verifyOp at hpass
  simp only [hopTy] at hpass
  have hcheck : checkVariadicValues (opTy.types kind) (op.values kind).length = some true := by
    cases hcase : checkVariadicValues (opTy.types kind) (op.values kind).length with
    | none => simp [hcase] at hpass
    | some divisible =>
      cases divisible with
      | false => simp [hcase] at hpass
      | true => rfl
  obtain ⟨segSize, hsum, hgroups⟩ := getFixedValueGroup_eq hcheck
  refine ⟨fixedSizes (opTy.types kind) segSize, by simp [fixedSizes], hsum, ?_, fun idx ↦ ?_⟩
  · intro i ty hty hvariadic
    simp [fixedSizes, hty, hvariadic]
  · simp only [SameVariadicSizes.getGroup, hopTy, Option.bind_eq_bind, Option.bind_some]
    exact hgroups idx

/-- Type verification of segmented values. -/
theorem Segmented.verify_iff {getValues : ℕ → Option (List Value)}
    (h : Segmented (opTy.types kind) (op.values kind) getValues) :
    verifyVariadicTypes ext.lookupIsa ext.evalPy kind.name getValues (opTy.types kind) 0 0 ≠
        .undefined ∧
      (verifyVariadicTypes ext.lookupIsa ext.evalPy kind.name getValues (opTy.types kind) 0 0 =
          .success ↔
        ∀ (i : ℕ) (ty : Ty) (group : List Value), (opTy.types kind)[i]? = some ty →
          getValues i = some group → ∀ value ∈ group,
          SpecTypes.delegateVerify ext.lookupIsa ext.evalPy ty value.type = true) := by
  have hgrouped := h.grouped
  obtain ⟨sizes, hlength, -, -, hgroups⟩ := h
  have hlength' : (sizes.splitLengths (op.values kind)).length = (opTy.types kind).length := by
    rw [List.length_splitLengths, hlength]
  have hsingle : ∀ (i : ℕ) (ty : Ty), (opTy.types kind)[i]? = some ty → ty.isVariadic = false →
      (sizes.splitLengths (op.values kind))[i]? ≠ some [] := by
    intro i ty hty hvariadic hempty
    obtain ⟨value, hvalue⟩ := hgrouped.single i ty hty hvariadic
    rw [hgroups, hempty] at hvalue
    simp at hvalue
  have hverify := @verifyVariadicTypes_iff ext.lookupIsa ext.evalPy getValues kind.name
    (opTy.types kind) _ hlength' 0 (fun i ↦ by rw [Nat.zero_add, hgroups]) hsingle 0
  refine ⟨hverify.1, hverify.2.trans ?_⟩
  constructor
  · intro hall i ty group hty hgroup
    have hi : i < (sizes.splitLengths (op.values kind)).length := by
      rw [hlength']
      exact (List.getElem?_eq_some_iff.mp hty).1
    rw [hgroups, List.getElem?_eq_getElem hi, Option.getD_some] at hgroup
    rw [← Option.some.inj hgroup]
    exact hall i ty _ hty (List.getElem?_eq_getElem hi)
  · intro hall i ty group hty hgroup
    apply hall i ty group hty
    rw [hgroups, hgroup, Option.getD_some]

/-- The groups that type verification looks at. -/
def getGroup (info : List Trait) (op : Operation) (kind : ValueKind) (idx : ℕ) :
    Option (List Value) :=
  if hasDynamicTrait kind.sizedSegments info then SizedSegments.getGroup info op kind idx
  else SameVariadicSizes.getGroup info op kind idx

def hasSizeTrait (info : List Trait) (kind : ValueKind) : Bool :=
  hasDynamicTrait kind.sizedSegments info || hasDynamicTrait kind.sameVariadicSizes info

/-- An instance that passes its size trait, or has one value for each type if there is none. -/
inductive WellSized (ext : Externals) (info : List Trait) (op : Operation) (opTy : OpType)
    (kind : ValueKind) : Prop where
  | sized (htrait : hasDynamicTrait kind.sizedSegments info = true)
    (hpass : SizedSegments.verifyOp ext info op kind = .success)
  | same (hsized : hasDynamicTrait kind.sizedSegments info = false)
    (htrait : hasDynamicTrait kind.sameVariadicSizes info = true)
    (hpass : SameVariadicSizes.verifyOp info op kind = .success)
  | unsized (htrait : hasSizeTrait info kind = false)
    (hlength : (op.values kind).length = (opTy.types kind).length)

/-- Every value of group `i` satisfies type constraint `i`. Without a size trait, the group of a
type is the value at its position. -/
def TypesSatisfied (ext : Externals) (info : List Trait) (op : Operation) (opTy : OpType)
    (kind : ValueKind) : Prop :=
  if hasSizeTrait info kind then
    ∀ (i : ℕ) (ty : Ty) (group : List Value), (opTy.types kind)[i]? = some ty →
      getGroup info op kind i = some group → ∀ value ∈ group,
      SpecTypes.delegateVerify ext.lookupIsa ext.evalPy ty value.type = true
  else
    ∀ (i : ℕ) (ty : Ty) (value : Value), (opTy.types kind)[i]? = some ty →
      (op.values kind)[i]? = some value →
      SpecTypes.delegateVerify ext.lookupIsa ext.evalPy ty value.type = true

theorem WellSized.segmented (hext : ext.SizeAttrSound) (hopTy : getOpType info = some opTy)
    (h : WellSized ext info op opTy kind) (htrait : hasSizeTrait info kind = true) :
    Segmented (opTy.types kind) (op.values kind) (getGroup info op kind) := by
  unfold getGroup
  cases h with
  | sized hsized hpass =>
    simp only [hsized, if_true]
    exact SizedSegments.segmented hext hopTy hpass
  | same hsized _ hpass =>
    simp only [hsized, Bool.false_eq_true, if_false]
    exact SameVariadicSizes.segmented hopTy hpass
  | unsized hnone _ => simp [hnone] at htrait

theorem verifyGroupTypes_iff (hext : ext.SizeAttrSound) (hopTy : getOpType info = some opTy)
    (h : WellSized ext info op opTy kind) :
    verifyGroupTypes ext info op opTy kind ≠ .undefined ∧
      (verifyGroupTypes ext info op opTy kind = .success ↔
        TypesSatisfied ext info op opTy kind) := by
  unfold TypesSatisfied
  cases htrait : hasSizeTrait info kind with
  | true =>
    have hsegmented := h.segmented hext hopTy htrait
    have hverify : verifyGroupTypes ext info op opTy kind =
        verifyVariadicTypes ext.lookupIsa ext.evalPy kind.name (getGroup info op kind)
          (opTy.types kind) 0 0 := by
      rw [hasSizeTrait, Bool.or_eq_true] at htrait
      unfold verifyGroupTypes getGroup
      cases hsized : hasDynamicTrait kind.sizedSegments info with
      | true => simp
      | false =>
        have hsame := htrait.resolve_left (by simp [hsized])
        simp [hsame]
    rw [hverify]
    exact hsegmented.verify_iff
  | false =>
    have hlength : (op.values kind).length = (opTy.types kind).length := by
      cases h with
      | sized hsized _ => simp [hasSizeTrait, hsized] at htrait
      | same _ hsame _ => simp [hasSizeTrait, hsame] at htrait
      | unsized _ hlength => exact hlength
    rw [hasSizeTrait, Bool.or_eq_false_iff] at htrait
    simp only [verifyGroupTypes, htrait.1, htrait.2, Bool.false_eq_true, if_false]
    exact verifyTypeRange_iff kind.name hlength 0

/-- The groups of a well sized instance are its values in order, and type verification holds each
group against its constraint. -/
theorem verifyTypeConstraints_iff (hext : ext.SizeAttrSound) (hopTy : getOpType info = some opTy)
    (hsized : ∀ kind : ValueKind, WellSized ext info op opTy kind) :
    (∀ kind : ValueKind, hasSizeTrait info kind = true →
      Grouped (opTy.types kind) (op.values kind) (getGroup info op kind)) ∧
    verifyTypeConstraints ext info op opTy ≠ .undefined ∧
    (verifyTypeConstraints ext info op opTy = .success ↔
      ∀ kind : ValueKind, TypesSatisfied ext info op opTy kind) := by
  have hoperand := verifyGroupTypes_iff hext hopTy (hsized .operand)
  have hresult := verifyGroupTypes_iff hext hopTy (hsized .result)
  refine ⟨fun kind htrait ↦ ((hsized kind).segmented hext hopTy htrait).grouped, ?_, ?_⟩
  · rw [verifyTypeConstraints, ne_eq, Outcome.andThen_eq_undefined, not_or, not_and]
    exact ⟨hoperand.1, fun _ ↦ hresult.1⟩
  · rw [verifyTypeConstraints, Outcome.andThen_eq_success, hoperand.2, hresult.2]
    constructor
    · rintro ⟨hoperands, hresults⟩ kind
      cases kind with
      | operand => exact hoperands
      | result => exact hresults
    · intro hall
      exact ⟨hall .operand, hall .result⟩

end Traits

/-- The base check of the segment traits, next to which no trait fails. -/
def Externals.base : Externals where
  lookupIsa _ _ _ := false
  evalPy _ _ := false
  verifySizeAttr attr numVals :=
    match attr with
    | none => false
    | some sizes =>
      sizes.rank == 1 && sizes.values.all (0 ≤ ·) && sizes.values.sum == numVals
  verifyAttrConstraints _ _ := true
  verifyStandard _ _ _ := true

theorem Externals.base_sizeAttrSound : Externals.base.SizeAttrSound := by
  intro attr numVals hverify
  cases attr with
  | none => simp [base] at hverify
  | some sizes =>
    simp only [base, Bool.and_eq_true, beq_iff_eq, List.all_eq_true, decide_eq_true_eq] at hverify
    exact ⟨sizes, rfl, hverify.1.1, hverify.1.2, hverify.2⟩

/-- Two integers in a variadic operand, then a float, and no result. -/
def segmentedOp : Operation where
  operands := [⟨0, .builtin (.integer .signless 32)⟩, ⟨1, .builtin (.integer .signless 8)⟩,
    ⟨2, .builtin (.float .f32)⟩]
  results := []
  regions := []
  successors := []
  operandSegmentSizes := some ⟨1, [2, 1]⟩
  resultSegmentSizes := none
  attrs := []

theorem nodup_ints_float : ["ints", "float"].Nodup := by
  decide

def segmentedOpType : OpType where
  operands := [⟨"ints", .variadic (.leaf .anyInteger)⟩, ⟨"float", .leaf .anyFloat⟩]
  results := []
  operands_nodup := nodup_ints_float
  results_nodup := List.nodup_nil

theorem verifyTypeConstraints_segmentedOp :
    verifyTypeConstraints .base [.sizedSegments .operand, .typeConstraint segmentedOpType]
        segmentedOp segmentedOpType = .success ↔
      ∀ kind : ValueKind, TypesSatisfied .base
        [.sizedSegments .operand, .typeConstraint segmentedOpType] segmentedOp segmentedOpType
        kind := by
  refine (verifyTypeConstraints_iff Externals.base_sizeAttrSound rfl fun kind ↦ ?_).2.2
  cases kind with
  | operand => exact .sized (by decide) rfl
  | result => exact .unsized (by decide) rfl

end DeclarativeMlir.Spec

import DeclarativeMlir.Spec.TypeConstraints
import Mathlib.Data.Set.Lattice

/-!
# The denotation of type constraints

A constraint stands for a set of types. `AnyOf` is the union and `AllOf` the intersection of the
sets of its members, and a type that is no constraint stands for itself only. Verification decides
membership, except at the constraints that deviate.
-/

namespace DeclarativeMlir.Spec

def integersOfWidth (width : ℕ) : Set Ty :=
  {ty | ∃ signedness, ty = .builtin (.integer signedness width)}

def floatsOfWidth (width : ℕ) : Set Ty :=
  {ty | width = 16 ∧ ty = .builtin (.float .f16) ∨ width = 32 ∧ ty = .builtin (.float .f32) ∨
    width = 64 ∧ ty = .builtin (.float .f64)}

section Denotation

variable (lookupIsa : String → String → Ty → Bool) (evalPy : String → Ty → Bool)

def LeafConstraint.denotation : LeafConstraint → Set Ty
  | any => Set.univ
  | none => {.builtin .none}
  | anyInteger => {ty | ∃ signedness width, ty = .builtin (.integer signedness width)}
  | anyI width => integersOfWidth width
  | anyIntOfWidths widths => ⋃ width ∈ widths, integersOfWidth width
  | anySignlessInteger => {ty | ∃ width, ty = .builtin (.integer .signless width)}
  | i width => {.builtin (.integer .signless width)}
  | signlessIntOfWidths widths => ⋃ width ∈ widths, {.builtin (.integer .signless width)}
  | anySignedInteger => {ty | ∃ width, ty = .builtin (.integer .signed width)}
  | si width => {.builtin (.integer .signed width)}
  | signedIntOfWidths widths => ⋃ width ∈ widths, {.builtin (.integer .signed width)}
  | anyUnsignedInteger => {ty | ∃ width, ty = .builtin (.integer .unsigned width)}
  | ui width => {.builtin (.integer .unsigned width)}
  | unsignedIntOfWidths widths => ⋃ width ∈ widths, {.builtin (.integer .unsigned width)}
  | index => {.builtin .index}
  | anyFloat => {ty | ∃ kind, ty = .builtin (.float kind)}
  | f width => floatsOfWidth width
  | floatOfWidths widths => ⋃ width ∈ widths, floatsOfWidth width
  | bf16 => {.builtin (.float .bf16)}
  | anyComplex => {ty | ∃ elTy, ty = .complex elTy}
  | opaqueType dialectName typeName => {.builtin (.opaqueType dialectName typeName)}
  | function => {ty | ∃ inputs results, ty = .function inputs results}
  | isa dialectRef typeRef => {ty | lookupIsa dialectRef typeRef ty = true}
  | py expr => {ty | evalPy expr ty = true}

namespace SpecTypes

def denotation : Ty → Set Ty
  | .leaf constraint => constraint.denotation lookupIsa evalPy
  | .anyOf types => ⋃ base ∈ types, denotation base
  | .allOf types => ⋂ base ∈ types, denotation base
  | .complexOf elTyBase => {ty | ∃ elTy ∈ denotation elTyBase, ty = .complex elTy}
  | .variadic baseTy => denotation baseTy
  | .builtin type => {.builtin type}
  | .complex elTy => {.complex elTy}
  | .function inputs results => {.function inputs results}

/-- Verification of `ty` against a constraint fails to decide membership. -/
def Deviates : Ty → Ty → Prop
  | .leaf constraint, ty =>
    constraint = .function ∧ ¬ ∃ inputs results, ty = .function inputs results
  | .anyOf types, ty =>
    -- listed itself, or let in by a member that deviates, without being in the union
    (∀ base ∈ types, ty ∉ denotation lookupIsa evalPy base) ∧
        (ty ∈ types ∨ ∃ base, ∃ _ : base ∈ types, Deviates base ty) ∨
      -- in the union, but every member with the type deviates
      (∃ base ∈ types, ty ∈ denotation lookupIsa evalPy base) ∧ ty ∉ types ∧
        ∀ base, ∀ _ : base ∈ types, (ty ∈ denotation lookupIsa evalPy base ↔ Deviates base ty)
  | .allOf types, ty =>
    (∀ base ∈ types, ty ∈ denotation lookupIsa evalPy base) ∧ (∃ base ∈ types, base ≠ ty) ∨
      (∀ base ∈ types, base = ty) ∧ ∃ base, ∃ _ : base ∈ types, Deviates base ty
  | .complexOf elTyBase, ty => ∃ elTy, ty = .complex elTy ∧ Deviates elTyBase elTy
  | .variadic baseTy, ty => Deviates baseTy ty
  | _, _ => False

end SpecTypes

variable {lookupIsa : String → String → Ty → Bool} {evalPy : String → Ty → Bool}

/-- Only `Function` is not verified as its denotation says. -/
theorem LeafConstraint.verify_iff {constraint : LeafConstraint} (ty : Ty)
    (hfunction : constraint ≠ .function) :
    constraint.verify lookupIsa evalPy ty = true ↔
      ty ∈ constraint.denotation lookupIsa evalPy := by
  cases constraint with
  | function => contradiction
  | _ => simp [verify, denotation, integersOfWidth, floatsOfWidth, verifyFloatType_iff]

namespace SpecTypes

/-- Verification of `ty` against `base` decides membership. -/
def Exact (lookupIsa : String → String → Ty → Bool) (evalPy : String → Ty → Bool) (base ty : Ty) :
    Prop :=
  delegateVerify lookupIsa evalPy base ty = true ↔ ty ∈ denotation lookupIsa evalPy base

theorem exact_leaf_iff (constraint : LeafConstraint) (ty : Ty) :
    Exact lookupIsa evalPy (.leaf constraint) ty ↔
      ¬ Deviates lookupIsa evalPy (.leaf constraint) ty := by
  rw [Exact, delegateVerify, denotation, Deviates]
  by_cases hfunction : constraint = .function
  · subst hfunction
    simp [LeafConstraint.verify, LeafConstraint.denotation]
  · simp [LeafConstraint.verify_iff ty hfunction, hfunction]

/-- Verification at a member, from its deviation. -/
theorem delegateVerify_iff_of_exact {base ty : Ty}
    (h : Exact lookupIsa evalPy base ty ↔ ¬ Deviates lookupIsa evalPy base ty) :
    delegateVerify lookupIsa evalPy base ty = true ↔
      ¬ (ty ∈ denotation lookupIsa evalPy base ↔ Deviates lookupIsa evalPy base ty) := by
  rw [Exact] at h
  tauto

theorem exact_anyOf_iff {types : List Ty} {ty : Ty}
    (ih : ∀ base ∈ types, (Exact lookupIsa evalPy base ty ↔ ¬ Deviates lookupIsa evalPy base ty)) :
    Exact lookupIsa evalPy (.anyOf types) ty ↔
      ¬ Deviates lookupIsa evalPy (.anyOf types) ty := by
  rw [Exact, delegateVerify, verifyAnyOf_iff, denotation, Deviates]
  simp only [Set.mem_iUnion, exists_prop]
  have hmember := fun base hbase ↦ delegateVerify_iff_of_exact (ih base hbase)
  by_cases hunion : ∃ base ∈ types, ty ∈ denotation lookupIsa evalPy base
  · have hnone : ¬ ∀ base ∈ types, ty ∉ denotation lookupIsa evalPy base := by
      simpa using hunion
    simp only [hunion, hnone, iff_true, false_and, true_and, false_or, not_and]
    constructor
    · rintro ⟨base, hbase, hverify | rfl⟩ hlisted hall
      · exact (hmember base hbase).mp hverify (hall base hbase)
      · exact hlisted hbase
    · intro hdeviates
      by_cases hlisted : ty ∈ types
      · exact ⟨ty, hlisted, Or.inr rfl⟩
      · obtain ⟨base, hbase, hdiffers⟩ : ∃ base, ∃ _ : base ∈ types,
            ¬ (ty ∈ denotation lookupIsa evalPy base ↔ Deviates lookupIsa evalPy base ty) := by
          simpa using hdeviates hlisted
        exact ⟨base, hbase, Or.inl ((hmember base hbase).mpr hdiffers)⟩
  · have hnone : ∀ base ∈ types, ty ∉ denotation lookupIsa evalPy base := by
      simpa using hunion
    simp only [hunion, iff_false, false_and, or_false]
    rw [and_iff_right hnone]
    apply not_congr
    constructor
    · rintro ⟨base, hbase, hverify | rfl⟩
      · have hdeviates := (hmember base hbase).mp hverify
        simp only [hnone base hbase, false_iff, not_not] at hdeviates
        exact Or.inr ⟨base, hbase, hdeviates⟩
      · exact Or.inl hbase
    · rintro (hlisted | ⟨base, hbase, hdeviates⟩)
      · exact ⟨ty, hlisted, Or.inr rfl⟩
      · refine ⟨base, hbase, Or.inl ((hmember base hbase).mpr ?_)⟩
        simp [hnone base hbase, hdeviates]

theorem exact_allOf_iff {types : List Ty} {ty : Ty}
    (ih : ∀ base ∈ types, (Exact lookupIsa evalPy base ty ↔ ¬ Deviates lookupIsa evalPy base ty)) :
    Exact lookupIsa evalPy (.allOf types) ty ↔
      ¬ Deviates lookupIsa evalPy (.allOf types) ty := by
  rw [Exact, delegateVerify, verifyAllOf_iff, denotation, Deviates]
  simp only [Set.mem_iInter, exists_prop]
  by_cases hself : ∀ base ∈ types, base = ty
  · have hother : ¬ ∃ base ∈ types, base ≠ ty := by simpa using hself
    simp only [hother, and_false, false_or]
    rw [and_iff_right hself]
    cases types with
    | nil => simp
    | cons head rest =>
      -- every member is `ty` itself
      have hmem : ty ∈ head :: rest := by
        rw [← hself head (List.mem_cons_self ..)]
        exact List.mem_cons_self ..
      have hforall : ∀ P : Ty → Prop, (∀ base ∈ head :: rest, P base) ↔ P ty :=
        fun P ↦ ⟨fun h ↦ h ty hmem, fun h base hbase ↦ (hself base hbase).symm ▸ h⟩
      have hexists : ∀ P : Ty → Prop, (∃ base ∈ head :: rest, P base) ↔ P ty :=
        fun P ↦ ⟨fun h ↦ h.elim fun base hbase ↦ hself base hbase.1 ▸ hbase.2,
          fun h ↦ ⟨ty, hmem, h⟩⟩
      rw [hforall, hforall fun base ↦ ty ∈ denotation lookupIsa evalPy base, hexists]
      simpa [Exact] using ih ty hmem
  · have hother : ∃ base ∈ types, base ≠ ty := by simpa using hself
    simp only [hself, false_and, or_false, hother, and_true]
    have hfails : ¬ ∀ base ∈ types, delegateVerify lookupIsa evalPy base ty = true ∧ base = ty :=
      fun hverify ↦ hself fun base hbase ↦ (hverify base hbase).2
    simp only [hfails, false_iff]

theorem exact_iff (base ty : Ty) :
    Exact lookupIsa evalPy base ty ↔ ¬ Deviates lookupIsa evalPy base ty := by
  induction base generalizing ty with
  | builtin type => simp [Exact, delegateVerify, denotation, Deviates, @eq_comm Ty ty]
  | complex elTy => simp [Exact, delegateVerify, denotation, Deviates, @eq_comm Ty ty]
  | function inputs results => simp [Exact, delegateVerify, denotation, Deviates, @eq_comm Ty ty]
  | leaf constraint => exact exact_leaf_iff constraint ty
  | anyOf types ih => exact exact_anyOf_iff fun base hbase ↦ ih base hbase ty
  | allOf types ih => exact exact_allOf_iff fun base hbase ↦ ih base hbase ty
  | complexOf elTyBase ih =>
    rw [Exact, delegateVerify_complexOf_iff, denotation, Deviates]
    cases ty with
    | complex elTy =>
      have helement := ih elTy
      rw [Exact] at helement
      simpa using helement
    | builtin _ | function _ _ | leaf _ | anyOf _ | allOf _ | complexOf _ | variadic _ => simp
  | variadic baseTy ih =>
    rw [Exact, delegateVerify_variadic_iff, denotation, Deviates]
    exact ih ty

/-- Verification decides membership in the denotation of a constraint exactly where the constraint
does not deviate. -/
theorem delegateVerify_exact_iff (base ty : Ty) :
    (delegateVerify lookupIsa evalPy base ty = true ↔ ty ∈ denotation lookupIsa evalPy base) ↔
      ¬ Deviates lookupIsa evalPy base ty :=
  exact_iff base ty

/-- `AllOf<AnyInteger, I<32>>` at `i32`, and `Function` at `i32` -/
theorem delegateVerify_not_exact :
    let ty := Ty.builtin (.integer .signless 32)
    let allOf := Ty.allOf [.leaf .anyInteger, .leaf (.i 32)]
    let function := Ty.leaf .function
    (¬ (delegateVerify (fun _ _ _ ↦ false) (fun _ _ ↦ false) allOf ty = true ↔
      ty ∈ denotation (fun _ _ _ ↦ false) (fun _ _ ↦ false) allOf)) ∧
    ¬ (delegateVerify (fun _ _ _ ↦ false) (fun _ _ ↦ false) function ty = true ↔
      ty ∈ denotation (fun _ _ _ ↦ false) (fun _ _ ↦ false) function) := by
  intro ty allOf function
  constructor
  · have hverify : delegateVerify (fun _ _ _ ↦ false) (fun _ _ ↦ false) allOf ty = false := by
      decide
    simp [hverify, allOf, ty, denotation, LeafConstraint.denotation]
  · have hverify : delegateVerify (fun _ _ _ ↦ false) (fun _ _ ↦ false) function ty = true := rfl
    simp [hverify, function, ty, denotation, LeafConstraint.denotation]

end SpecTypes

end Denotation

end DeclarativeMlir.Spec

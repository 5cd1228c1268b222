import DeclarativeMlir.Spec.TypeConstraints
import Mathlib.Data.List.Nodup

/-!
# Op specifications

What a `dmc.Op` of the spec dialect holds: the named operands, results, regions and successors with
their constraints, the attribute constraints, the traits, and the configuration. The verifier of the
op looks at the size specifiers of variadic lists and at the order of region and successor
constraints.
-/

namespace DeclarativeMlir.Spec

/-- Attributes, as far as trait constructors and the parsers of the spec dialect look into them. -/
inductive Attr where
  | integer (value : ℕ)
  | string (value : String)
  /-- a `TypeAttr` -/
  | type (type : Ty)
  /-- the attribute constraint `OfType` -/
  | ofType (type : Ty)
  /-- any other attribute constraint, or an opaque attribute in the place of one -/
  | constraint (id : ℕ)
  | other (id : ℕ)
  deriving DecidableEq, Repr

structure NamedType where
  name : String
  type : Ty
  deriving DecidableEq, Repr

structure NamedConstraint (C : Type) where
  name : String
  attr : C
  deriving DecidableEq, Repr

inductive RegionConstraint where
  | any
  | sized (numBlocks : ℕ)
  | isolatedFromAbove
  | variadic (constraint : RegionConstraint)
  deriving DecidableEq, Repr

inductive SuccessorConstraint where
  | any
  | variadic (constraint : SuccessorConstraint)
  deriving DecidableEq, Repr

/-- Operands and results of an op, each with names of its own. -/
structure OpType where
  operands : List NamedType
  results : List NamedType
  operands_nodup : (operands.map (·.name)).Nodup
  results_nodup : (results.map (·.name)).Nodup
  deriving DecidableEq

structure OpRegion where
  regions : List (NamedConstraint RegionConstraint)
  regions_nodup : (regions.map (·.name)).Nodup
  deriving DecidableEq

structure OpSuccessor where
  successors : List (NamedConstraint SuccessorConstraint)
  successors_nodup : (successors.map (·.name)).Nodup
  deriving DecidableEq

structure OpTraitAttr where
  name : String
  parameters : List Attr
  deriving DecidableEq, Repr

/-- The attributes of a `dmc.Op`. -/
structure OperationOp where
  name : String
  opType : OpType
  opAttrs : List (String × Attr)
  opRegions : OpRegion
  opSuccs : OpSuccessor
  opTraits : List OpTraitAttr
  config : List (String × Attr)
  deriving DecidableEq

inductive ValueKind where
  | operand
  | result
  deriving DecidableEq, Repr

namespace Ty

/-- `isa<VariadicType>`, of the type itself. -/
def isVariadic : Ty → Bool
  | variadic _ => true
  | _ => false

end Ty

def RegionConstraint.isVariadic : RegionConstraint → Bool
  | variadic _ => true
  | _ => false

def SuccessorConstraint.isVariadic : SuccessorConstraint → Bool
  | variadic _ => true
  | _ => false

/-- `getOperandTypes` and `getResultTypes` -/
def OpType.types (opType : OpType) : ValueKind → List Ty
  | .operand => opType.operands.map (·.type)
  | .result => opType.results.map (·.type)

def OpRegion.getRegionAttrs (opRegions : OpRegion) : List RegionConstraint :=
  opRegions.regions.map (·.attr)

def OpSuccessor.getSuccessorAttrs (opSuccs : OpSuccessor) : List SuccessorConstraint :=
  opSuccs.successors.map (·.attr)

def hasVariadicValues (tys : List Ty) : Bool := tys.countP Ty.isVariadic != 0

/-! ## The verifier of `dmc.Op` -/

/-- The name of the trait that specifies equal sizes of all variadic values. -/
def ValueKind.sameVariadicSizes : ValueKind → String
  | operand => "SameVariadicOperandSizes"
  | result => "SameVariadicResultSizes"

/-- The name of the trait that reads the sizes of all values from an attribute. -/
def ValueKind.sizedSegments : ValueKind → String
  | operand => "SizedOperandSegments"
  | result => "SizedResultSegments"

def ValueKind.name : ValueKind → String
  | operand => "operand"
  | result => "result"

def ValueKind.plural : ValueKind → String
  | operand => "operands"
  | result => "result"

def hasTrait (name : String) (opTraits : List OpTraitAttr) : Bool :=
  opTraits.any fun trait ↦ trait.name == name

/-- Only the last constraint of a list is variadic. -/
def verifyConstraintList {C : Type} (isVariadic : C → Bool) (name : String) (vars : List C) :
    Except String Unit :=
  let numVar := vars.countP isVariadic
  if numVar ≠ 0 then
    if numVar > 1 then
      .error s!"op can have at most one variadic {name} specifier"
    else if !(vars.getLast?.any isVariadic) then
      .error s!"expected only the last {name} to be variadic"
    else .ok ()
  else .ok ()

namespace OperationOp

/-- The checks of one list of values. -/
def verifySizeSpecifier (op : OperationOp) (kind : ValueKind) : Except String Unit :=
  let hasVariadic := hasVariadicValues (op.opType.types kind)
  let hasSameSized := hasTrait kind.sameVariadicSizes op.opTraits
  let hasSegments := hasTrait kind.sizedSegments op.opTraits
  if hasSameSized && hasSegments then
    .error s!"cannot have both {kind.sameVariadicSizes} and {kind.sizedSegments} traits"
  else if hasVariadic && !hasSameSized && !hasSegments then
    .error s!"more than one variadic {kind.plural} requires a variadic size specifier"
  else .ok ()

def verify (op : OperationOp) : Except String Unit := do
  op.verifySizeSpecifier .operand
  op.verifySizeSpecifier .result
  verifyConstraintList RegionConstraint.isVariadic "region" op.opRegions.getRegionAttrs
  verifyConstraintList SuccessorConstraint.isVariadic "successor" op.opSuccs.getSuccessorAttrs
  if !op.opSuccs.successors.isEmpty && !hasTrait "IsTerminator" op.opTraits then
    .error "an operation with successors must be a terminator"

end OperationOp

/-- What the verifier establishes of a list of values. -/
theorem verifySizeSpecifier_ok_iff (op : OperationOp) (kind : ValueKind) :
    op.verifySizeSpecifier kind = .ok () ↔
      ¬ (hasTrait kind.sameVariadicSizes op.opTraits ∧ hasTrait kind.sizedSegments op.opTraits) ∧
      (hasVariadicValues (op.opType.types kind) →
        hasTrait kind.sameVariadicSizes op.opTraits ∨ hasTrait kind.sizedSegments op.opTraits) := by
  unfold OperationOp.verifySizeSpecifier
  cases hasVariadicValues (op.opType.types kind) <;>
    cases hasTrait kind.sameVariadicSizes op.opTraits <;>
    cases hasTrait kind.sizedSegments op.opTraits <;> simp

/-- A verified list is variadic at its end only. -/
theorem verifyConstraintList_ok {C : Type} {isVariadic : C → Bool} {name : String} {vars : List C}
    (h : verifyConstraintList isVariadic name vars = .ok ()) :
    (∀ var ∈ vars, isVariadic var = false) ∨
      ∃ fixed last, vars = fixed ++ [last] ∧ isVariadic last = true ∧
        ∀ var ∈ fixed, isVariadic var = false := by
  unfold verifyConstraintList at h
  by_cases hnone : vars.countP isVariadic = 0
  · left
    simpa [List.countP_eq_zero] using hnone
  · right
    simp only [ne_eq, hnone, not_false_eq_true, if_true] at h
    split_ifs at h with hmany hlast
    obtain ⟨last, hmem, hvariadic⟩ : ∃ last ∈ vars.getLast?, isVariadic last = true := by
      rwa [Bool.not_eq_true', Bool.not_eq_false, Option.any_eq_true] at hlast
    have hvars := List.dropLast_append_getLast? last hmem
    refine ⟨vars.dropLast, last, hvars.symm, hvariadic, ?_⟩
    rw [← hvars, List.countP_append, List.countP_singleton, if_pos hvariadic] at hmany
    have hfixed : vars.dropLast.countP isVariadic = 0 := by omega
    simpa [List.countP_eq_zero] using hfixed

theorem bind_eq_ok {ε α β : Type} {x : Except ε α} {f : α → Except ε β} {b : β} :
    (x >>= f) = .ok b ↔ ∃ a, x = .ok a ∧ f a = .ok b := by
  cases x <;> simp [bind, Except.bind]

/-- What the verifier establishes. -/
theorem OperationOp.verify_ok {op : OperationOp} (h : op.verify = .ok ()) :
    (∀ kind, op.verifySizeSpecifier kind = .ok ()) ∧
      verifyConstraintList RegionConstraint.isVariadic "region" op.opRegions.getRegionAttrs =
        .ok () ∧
      verifyConstraintList SuccessorConstraint.isVariadic "successor"
        op.opSuccs.getSuccessorAttrs = .ok () ∧
      (op.opSuccs.successors ≠ [] → hasTrait "IsTerminator" op.opTraits = true) := by
  obtain ⟨_, hoperand, h⟩ := bind_eq_ok.mp h
  obtain ⟨_, hresult, h⟩ := bind_eq_ok.mp h
  obtain ⟨_, hregions, h⟩ := bind_eq_ok.mp h
  obtain ⟨_, hsuccs, h⟩ := bind_eq_ok.mp h
  refine ⟨fun kind ↦ ?_, hregions, hsuccs, fun hne ↦ ?_⟩
  · cases kind with
    | operand => exact hoperand
    | result => exact hresult
  · by_contra htrait
    have hempty : op.opSuccs.successors.isEmpty = false := by simpa using hne
    rw [Bool.not_eq_true] at htrait
    simp [hempty, htrait] at h

end DeclarativeMlir.Spec

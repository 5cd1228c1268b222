import Mathlib.Algebra.Order.Ring.Int
import Mathlib.Data.Set.Basic
import Mathlib.Tactic.Cases

/-!
# Type constraints

The types of MLIR with the type constraints of the spec dialect among them, and the verification of
a type against a constraint. A type that is no constraint stands for itself.
-/

namespace DeclarativeMlir.Spec

inductive Signedness where
  | signless
  | signed
  | unsigned
  deriving DecidableEq, Repr

inductive FloatKind where
  | bf16
  | f16
  | f32
  | f64
  deriving DecidableEq, Repr

/-- The builtin and dynamic types without type parameters that matter here. -/
inductive BuiltinType where
  | none
  | integer (signedness : Signedness) (width : ℕ)
  | index
  | float (kind : FloatKind)
  | opaqueType (dialect data : String)
  /-- any other type, such as a vector type or a dynamic type -/
  | other (id : ℕ)
  deriving DecidableEq, Repr

/-- The constraints that have no type parameters. -/
inductive LeafConstraint where
  | any
  | none
  | anyInteger
  | anyI (width : ℕ)
  | anyIntOfWidths (widths : List ℕ)
  | anySignlessInteger
  | i (width : ℕ)
  | signlessIntOfWidths (widths : List ℕ)
  | anySignedInteger
  | si (width : ℕ)
  | signedIntOfWidths (widths : List ℕ)
  | anyUnsignedInteger
  | ui (width : ℕ)
  | unsignedIntOfWidths (widths : List ℕ)
  | index
  | anyFloat
  | f (width : ℕ)
  | floatOfWidths (widths : List ℕ)
  | bf16
  | anyComplex
  | opaqueType (dialectName typeName : String)
  | function
  | isa (dialectRef typeRef : String)
  | py (expr : String)
  deriving DecidableEq, Repr

inductive Ty where
  | builtin (type : BuiltinType)
  | complex (elTy : Ty)
  | function (inputs results : List Ty)
  | leaf (constraint : LeafConstraint)
  | anyOf (types : List Ty)
  | allOf (types : List Ty)
  /-- `Complex` of the spec dialect -/
  | complexOf (type : Ty)
  | variadic (type : Ty)
  deriving Repr

namespace Ty

mutual

/-- Types are uniqued: equality of pointers is structural equality. -/
def beq : Ty → Ty → Bool
  | builtin type, builtin type' => type == type'
  | complex elTy, complex elTy' => beq elTy elTy'
  | function inputs results, function inputs' results' =>
    beqList inputs inputs' && beqList results results'
  | leaf constraint, leaf constraint' => constraint == constraint'
  | anyOf types, anyOf types' => beqList types types'
  | allOf types, allOf types' => beqList types types'
  | complexOf type, complexOf type' => beq type type'
  | variadic type, variadic type' => beq type type'
  | _, _ => false

def beqList : List Ty → List Ty → Bool
  | [], [] => true
  | type :: types, type' :: types' => beq type type' && beqList types types'
  | _, _ => false

end

mutual

theorem beq_iff (type type' : Ty) : beq type type' = true ↔ type = type' := by
  cases type <;> cases type' <;>
    simp [beq, beq_iff, beqList_iff]

theorem beqList_iff (types types' : List Ty) : beqList types types' = true ↔ types = types' := by
  cases types <;> cases types' <;> simp [beqList, beq_iff, beqList_iff]

end

instance : DecidableEq Ty := fun type type' ↦ decidable_of_iff _ (beq_iff type type')

/-- Induction over types, with a hypothesis for each member of a list. -/
@[elab_as_elim, induction_eliminator]
theorem induction {motive : Ty → Prop} (builtin : ∀ type, motive (.builtin type))
    (complex : ∀ elTy, motive elTy → motive (.complex elTy))
    (function : ∀ inputs results, motive (.function inputs results))
    (leaf : ∀ constraint, motive (.leaf constraint))
    (anyOf : ∀ types, (∀ type ∈ types, motive type) → motive (.anyOf types))
    (allOf : ∀ types, (∀ type ∈ types, motive type) → motive (.allOf types))
    (complexOf : ∀ type, motive type → motive (.complexOf type))
    (variadic : ∀ type, motive type → motive (.variadic type)) (type : Ty) : motive type :=
  match type with
  | .builtin type => builtin type
  | .complex elTy =>
    complex elTy (induction builtin complex function leaf anyOf allOf complexOf variadic elTy)
  | .function inputs results => function inputs results
  | .leaf constraint => leaf constraint
  | .anyOf types => anyOf types fun type _ ↦
    induction builtin complex function leaf anyOf allOf complexOf variadic type
  | .allOf types => allOf types fun type _ ↦
    induction builtin complex function leaf anyOf allOf complexOf variadic type
  | .complexOf type =>
    complexOf type (induction builtin complex function leaf anyOf allOf complexOf variadic type)
  | .variadic type =>
    variadic type (induction builtin complex function leaf anyOf allOf complexOf variadic type)

/-! ## Queries on types -/

def isaInteger : Ty → Bool
  | builtin (.integer _ _) => true
  | _ => false

/-- `isInteger(width)`: the signedness does not matter. -/
def isInteger (width : ℕ) : Ty → Bool
  | builtin (.integer _ width') => width' == width
  | _ => false

def isIntegerOf (signedness : Signedness) : Ty → Bool
  | builtin (.integer signedness' _) => signedness' == signedness
  | _ => false

def isIntegerOfWidth (signedness : Signedness) (width : ℕ) : Ty → Bool
  | builtin (.integer signedness' width') => signedness' == signedness && width' == width
  | _ => false

def isaFloat : Ty → Bool
  | builtin (.float _) => true
  | _ => false

def isFloat (kind : FloatKind) : Ty → Bool
  | builtin (.float kind') => kind' == kind
  | _ => false

def isaComplex : Ty → Bool
  | complex _ => true
  | _ => false

def isOpaqueTypeWithName (dialect data : String) : Ty → Bool
  | builtin (.opaqueType dialect' data') => dialect' == dialect && data' == data
  | _ => false

@[simp]
theorem isaInteger_iff (ty : Ty) :
    ty.isaInteger = true ↔ ∃ signedness width, ty = builtin (.integer signedness width) := by
  cases ty with
  | builtin type => cases type <;> simp [isaInteger]
  | _ => simp [isaInteger]

@[simp]
theorem isInteger_iff (width : ℕ) (ty : Ty) :
    ty.isInteger width = true ↔ ∃ signedness, ty = builtin (.integer signedness width) := by
  cases ty with
  | builtin type => cases type <;> simp [isInteger]
  | _ => simp [isInteger]

@[simp]
theorem isIntegerOf_iff (signedness : Signedness) (ty : Ty) :
    ty.isIntegerOf signedness = true ↔ ∃ width, ty = builtin (.integer signedness width) := by
  cases ty with
  | builtin type => cases type <;> simp [isIntegerOf]
  | _ => simp [isIntegerOf]

@[simp]
theorem isIntegerOfWidth_iff (signedness : Signedness) (width : ℕ) (ty : Ty) :
    ty.isIntegerOfWidth signedness width = true ↔ ty = builtin (.integer signedness width) := by
  cases ty with
  | builtin type => cases type <;> simp [isIntegerOfWidth]
  | _ => simp [isIntegerOfWidth]

@[simp]
theorem isaFloat_iff (ty : Ty) : ty.isaFloat = true ↔ ∃ kind, ty = builtin (.float kind) := by
  cases ty with
  | builtin type => cases type <;> simp [isaFloat]
  | _ => simp [isaFloat]

@[simp]
theorem isFloat_iff (kind : FloatKind) (ty : Ty) :
    ty.isFloat kind = true ↔ ty = builtin (.float kind) := by
  cases ty with
  | builtin type => cases type <;> simp [isFloat]
  | _ => simp [isFloat]

@[simp]
theorem isaComplex_iff (ty : Ty) : ty.isaComplex = true ↔ ∃ elTy, ty = complex elTy := by
  cases ty <;> simp [isaComplex]

@[simp]
theorem isOpaqueTypeWithName_iff (dialect data : String) (ty : Ty) :
    ty.isOpaqueTypeWithName dialect data = true ↔ ty = builtin (.opaqueType dialect data) := by
  cases ty with
  | builtin type => cases type <;> simp [isOpaqueTypeWithName]
  | _ => simp [isOpaqueTypeWithName]

end Ty

/-! ## Verification -/

/-- `impl::verifyFloatType`; other widths are unreachable. -/
def verifyFloatType (width : ℕ) (ty : Ty) : Bool :=
  match width with
  | 16 => ty.isFloat .f16
  | 32 => ty.isFloat .f32
  | 64 => ty.isFloat .f64
  | _ => false

theorem verifyFloatType_iff (width : ℕ) (ty : Ty) :
    verifyFloatType width ty = true ↔
      width = 16 ∧ ty = .builtin (.float .f16) ∨ width = 32 ∧ ty = .builtin (.float .f32) ∨
        width = 64 ∧ ty = .builtin (.float .f64) := by
  unfold verifyFloatType
  split <;> simp_all

/-- A width list verifies a type if one of its widths does. -/
def verifyWidthType (widths : List ℕ) (verifyType : ℕ → Ty → Bool) (ty : Ty) : Bool :=
  widths.any fun width ↦ verifyType width ty

@[simp]
theorem verifyWidthType_iff (widths : List ℕ) (verifyType : ℕ → Ty → Bool) (ty : Ty) :
    verifyWidthType widths verifyType ty = true ↔ ∃ width ∈ widths, verifyType width ty = true := by
  simp [verifyWidthType]

section Verify

variable (lookupIsa : String → String → Ty → Bool) (evalPy : String → Ty → Bool)

/-- The `verify` method that `kindSwitch` selects for a constraint. Whether a type is of the dynamic
type behind a reference, and what a Python expression says of it, is given. -/
def LeafConstraint.verify (ty : Ty) : LeafConstraint → Bool
  | any => true
  | none => ty == .builtin .none
  | anyInteger => ty.isaInteger
  | anyI width => ty.isInteger width
  | anyIntOfWidths widths => verifyWidthType widths Ty.isInteger ty
  | anySignlessInteger => ty.isIntegerOf .signless
  | i width => ty.isIntegerOfWidth .signless width
  | signlessIntOfWidths widths => verifyWidthType widths (Ty.isIntegerOfWidth .signless) ty
  | anySignedInteger => ty.isIntegerOf .signed
  | si width => ty.isIntegerOfWidth .signed width
  | signedIntOfWidths widths => verifyWidthType widths (Ty.isIntegerOfWidth .signed) ty
  | anyUnsignedInteger => ty.isIntegerOf .unsigned
  | ui width => ty.isIntegerOfWidth .unsigned width
  | unsignedIntOfWidths widths => verifyWidthType widths (Ty.isIntegerOfWidth .unsigned) ty
  | index => ty == .builtin .index
  | anyFloat => ty.isaFloat
  | f width => verifyFloatType width ty
  | floatOfWidths widths => verifyWidthType widths verifyFloatType ty
  | bf16 => ty.isFloat .bf16
  | anyComplex => ty.isaComplex
  | opaqueType dialectName typeName => ty.isOpaqueTypeWithName dialectName typeName
  -- the switch has no case for `Function`; its default is `AnyType`
  | function => true
  | isa dialectRef typeRef => lookupIsa dialectRef typeRef ty
  | py expr => evalPy expr ty

namespace SpecTypes

/-- Whether the kind of a type lies in the range of the spec types. -/
def is : Ty → Bool
  | .builtin _ | .complex _ | .function _ _ => false
  | .leaf _ | .anyOf _ | .allOf _ | .complexOf _ | .variadic _ => true

mutual

def delegateVerify (base ty : Ty) : Bool :=
  match base with
  | .leaf constraint => constraint.verify lookupIsa evalPy ty
  | .anyOf types => verifyAnyOf types ty
  | .allOf types => verifyAllOf types ty
  | .complexOf elTyBase =>
    match ty with
    | .complex elTy => if is elTyBase then delegateVerify elTyBase elTy else elTyBase == elTy
    | _ => false
  | .variadic baseTy => if is baseTy then delegateVerify baseTy ty else baseTy == ty
  | .builtin _ | .complex _ | .function _ _ => base == ty

/-- `AnyOfType::verify` -/
def verifyAnyOf (types : List Ty) (ty : Ty) : Bool :=
  match types with
  | [] => false
  | baseTy :: types =>
    if is baseTy && delegateVerify baseTy ty then true
    else if baseTy == ty then true
    else verifyAnyOf types ty

/-- `AllOfType::verify` -/
def verifyAllOf (types : List Ty) (ty : Ty) : Bool :=
  match types with
  | [] => true
  | baseTy :: types =>
    if is baseTy && !delegateVerify baseTy ty then false
    else if baseTy != ty then false
    else verifyAllOf types ty

end

variable {lookupIsa : String → String → Ty → Bool} {evalPy : String → Ty → Bool}

/-- A type that is no constraint is compared directly. -/
theorem delegateVerify_of_not_is {base : Ty} (hbase : is base = false) (ty : Ty) :
    delegateVerify lookupIsa evalPy base ty = true ↔ base = ty := by
  cases base with
  | builtin _ | complex _ | function _ _ => simp [delegateVerify]
  | leaf _ | anyOf _ | allOf _ | complexOf _ | variadic _ => simp [is] at hbase

/-- The check for constraints before a direct comparison adds nothing to `delegateVerify`. -/
theorem ite_is_delegateVerify (base ty : Ty) :
    (if is base then delegateVerify lookupIsa evalPy base ty else base == ty) =
      delegateVerify lookupIsa evalPy base ty := by
  cases hbase : is base with
  | true => rfl
  | false =>
    rw [Bool.eq_iff_iff, delegateVerify_of_not_is hbase]
    simp

theorem verifyAnyOf_iff (types : List Ty) (ty : Ty) :
    verifyAnyOf lookupIsa evalPy types ty = true ↔
      ∃ base ∈ types, delegateVerify lookupIsa evalPy base ty = true ∨ base = ty := by
  induction types with
  | nil => simp [verifyAnyOf]
  | cons baseTy types ih =>
    simp only [verifyAnyOf, List.mem_cons, exists_eq_or_imp, ← ih]
    cases hbase : is baseTy with
    | true => simp [or_assoc]
    | false => simp [delegateVerify_of_not_is hbase]

theorem verifyAllOf_iff (types : List Ty) (ty : Ty) :
    verifyAllOf lookupIsa evalPy types ty = true ↔
      ∀ base ∈ types, delegateVerify lookupIsa evalPy base ty = true ∧ base = ty := by
  induction types with
  | nil => simp [verifyAllOf]
  | cons baseTy types ih =>
    rw [verifyAllOf, List.forall_mem_cons, ← ih]
    cases hbase : is baseTy with
    | true => simp [and_assoc]
    | false => simp [delegateVerify_of_not_is hbase]

theorem delegateVerify_complexOf_iff (elTyBase ty : Ty) :
    delegateVerify lookupIsa evalPy (.complexOf elTyBase) ty = true ↔
      ∃ elTy, ty = .complex elTy ∧ delegateVerify lookupIsa evalPy elTyBase elTy = true := by
  cases ty with
  | complex elTy =>
    rw [delegateVerify, ite_is_delegateVerify]
    simp
  | builtin _ | function _ _ | leaf _ | anyOf _ | allOf _ | complexOf _ | variadic _ =>
    simp [delegateVerify]

theorem delegateVerify_variadic_iff (baseTy ty : Ty) :
    delegateVerify lookupIsa evalPy (.variadic baseTy) ty = true ↔
      delegateVerify lookupIsa evalPy baseTy ty = true := by
  rw [delegateVerify, ite_is_delegateVerify]

end SpecTypes

end Verify

end DeclarativeMlir.Spec

import DeclarativeMlir.Spec.TypeConstraints
import Mathlib.Data.List.Perm.Basic

/-!
# Attribute constraints

The attributes of MLIR with the attribute constraints of the spec dialect among them, and the
construction of type and attribute constraints, with the checks that `getChecked` makes.
-/

namespace DeclarativeMlir.Spec

/-! ## Attribute constraints -/

/-- The attribute constraints that have no types and no attributes as parameters. -/
inductive LeafAttr where
  | any
  | bool
  | index
  | apInt
  | anyI (width : ℕ)
  | i (width : ℕ)
  | si (width : ℕ)
  | ui (width : ℕ)
  | f (width : ℕ)
  | string
  | type
  | unit
  | dictionary
  | elements
  | denseElements
  | rankedElements (dims : List ℕ)
  | stringElements
  | array
  | symbolRef
  | flatSymbolRef
  | isa (dialectRef attrRef : String)
  | py (expr : String)
  deriving DecidableEq, Repr

inductive Attribute where
  /-- any other attribute, with the types and attributes it holds -/
  | builtin (id : ℕ) (types : List Ty) (attrs : List Attribute)
  | symbolRefAttr (root : String) (nested : List String)
  | leaf (constraint : LeafAttr)
  | elementsOf (elTy : Ty)
  | arrayOf (attr : Attribute)
  | constant (attr : Attribute)
  | anyOf (attrs : List Attribute)
  | allOf (attrs : List Attribute)
  | ofType (type : Ty)
  | optional (baseAttr : Attribute)
  | default (baseAttr defaultAttr : Attribute)

namespace Attribute

mutual

/-- Attributes are uniqued: equality of pointers is structural equality. -/
def beq : Attribute → Attribute → Bool
  | builtin id types attrs, builtin id' types' attrs' =>
    id == id' && types == types' && beqList attrs attrs'
  | symbolRefAttr root nested, symbolRefAttr root' nested' => root == root' && nested == nested'
  | leaf constraint, leaf constraint' => constraint == constraint'
  | elementsOf elTy, elementsOf elTy' => elTy == elTy'
  | arrayOf attr, arrayOf attr' => beq attr attr'
  | constant attr, constant attr' => beq attr attr'
  | anyOf attrs, anyOf attrs' => beqList attrs attrs'
  | allOf attrs, allOf attrs' => beqList attrs attrs'
  | ofType type, ofType type' => type == type'
  | optional baseAttr, optional baseAttr' => beq baseAttr baseAttr'
  | default baseAttr defaultAttr, default baseAttr' defaultAttr' =>
    beq baseAttr baseAttr' && beq defaultAttr defaultAttr'
  | _, _ => false

def beqList : List Attribute → List Attribute → Bool
  | [], [] => true
  | attr :: attrs, attr' :: attrs' => beq attr attr' && beqList attrs attrs'
  | _, _ => false

end

mutual

theorem beq_iff (attr attr' : Attribute) : beq attr attr' = true ↔ attr = attr' := by
  cases attr <;> cases attr' <;> simp [beq, beq_iff, beqList_iff, and_assoc]

theorem beqList_iff (attrs attrs' : List Attribute) :
    beqList attrs attrs' = true ↔ attrs = attrs' := by
  cases attrs <;> cases attrs' <;> simp [beqList, beq_iff, beqList_iff]

end

instance : DecidableEq Attribute := fun attr attr' ↦ decidable_of_iff _ (beq_iff attr attr')

/-- Induction over attributes, with a hypothesis for each member of a list. -/
@[elab_as_elim, induction_eliminator]
theorem induction {motive : Attribute → Prop}
    (builtin : ∀ id types attrs, (∀ attr ∈ attrs, motive attr) → motive (.builtin id types attrs))
    (symbolRefAttr : ∀ root nested, motive (.symbolRefAttr root nested))
    (leaf : ∀ constraint, motive (.leaf constraint))
    (elementsOf : ∀ elTy, motive (.elementsOf elTy))
    (arrayOf : ∀ attr, motive attr → motive (.arrayOf attr))
    (constant : ∀ attr, motive attr → motive (.constant attr))
    (anyOf : ∀ attrs, (∀ attr ∈ attrs, motive attr) → motive (.anyOf attrs))
    (allOf : ∀ attrs, (∀ attr ∈ attrs, motive attr) → motive (.allOf attrs))
    (ofType : ∀ type, motive (.ofType type))
    (optional : ∀ baseAttr, motive baseAttr → motive (.optional baseAttr))
    (default : ∀ baseAttr defaultAttr, motive baseAttr → motive defaultAttr →
      motive (.default baseAttr defaultAttr)) (attr : Attribute) : motive attr := by
  have ih (attr' : Attribute) (_ : sizeOf attr' < sizeOf attr) : motive attr' :=
    induction builtin symbolRefAttr leaf elementsOf arrayOf constant anyOf allOf ofType optional
      default attr'
  cases attr with
  | builtin id types attrs =>
    exact builtin id types attrs fun attr' h ↦ ih attr' (by
      have := List.sizeOf_lt_of_mem h
      simp
      omega)
  | symbolRefAttr root nested => exact symbolRefAttr root nested
  | leaf constraint => exact leaf constraint
  | elementsOf elTy => exact elementsOf elTy
  | arrayOf attr => exact arrayOf attr (ih attr (by simp))
  | constant attr => exact constant attr (ih attr (by simp))
  | anyOf attrs =>
    exact anyOf attrs fun attr' h ↦ ih attr' (by
      have := List.sizeOf_lt_of_mem h
      simp
      omega)
  | allOf attrs =>
    exact allOf attrs fun attr' h ↦ ih attr' (by
      have := List.sizeOf_lt_of_mem h
      simp
      omega)
  | ofType type => exact ofType type
  | optional baseAttr => exact optional baseAttr (ih baseAttr (by simp))
  | default baseAttr defaultAttr =>
    have hsize := Attribute.default.sizeOf_spec baseAttr defaultAttr
    exact default baseAttr defaultAttr (ih baseAttr (by omega)) (ih defaultAttr (by omega))
termination_by sizeOf attr

end Attribute

/-! ## Construction -/

/-- `SpecAttrs::is` -/
def SpecAttrs.is : Attribute → Bool
  | .builtin .. | .symbolRefAttr .. => false
  | .leaf .. | .elementsOf .. | .arrayOf .. | .constant .. | .anyOf .. | .allOf .. | .ofType ..
  | .optional .. | .default .. => true

/-- How string literals are read: a literal without escapes stands for itself, and escapes make it
longer than its value. -/
structure StringLexer where
  /-- a string attribute at the front of the characters -/
  lex : List Char → Option (List Char × List Char)
  /-- the characters that stand for themselves in a literal -/
  isPlain : Char → Bool
  not_isPlain_quote : isPlain '"' = false
  not_isPlain_backslash : isPlain '\\' = false
  lex_plain (value rest : List Char) : value.all isPlain = true →
    rest.head? = some ',' ∨ rest.head? = some '>' → lex ('"' :: (value ++ '"' :: rest)) =
      some (value, rest)
  lex_literal (text value rest : List Char) : lex text = some (value, rest) →
    ∃ body tail, text = '"' :: (body ++ '"' :: (tail ++ rest)) ∧ value.length ≤ body.length ∧
      (value.length = body.length → value = body ∧ body.all isPlain = true)

/-- What the constraints use of MLIR and of Python. -/
structure Context where
  /-- `getAsOpaquePointer`, by which lists of types are sorted -/
  typeAddress : Ty → ℕ
  attrAddress : Attribute → ℕ
  /-- whether an expression makes a Python function -/
  registerConstraint : String → Bool
  strings : StringLexer

def verifyIntWidth (width : ℕ) : Bool :=
  width == 1 || width == 8 || width == 16 || width == 32 || width == 64

def verifyFloatWidth (width : ℕ) : Bool := width == 16 || width == 32 || width == 64

def verifyWidthList (widths : List ℕ) (verifyWidth : ℕ → Bool) : Bool :=
  !widths.isEmpty && decide widths.Nodup && widths.all verifyWidth

def NumericWidthType.getChecked (verifyWidth : ℕ → Bool) (constraint : ℕ → LeafConstraint)
    (width : ℕ) : Option Ty :=
  if verifyWidth width then some (.leaf (constraint width)) else none

def getSortedWidths (widths : List ℕ) : List ℕ := widths.mergeSort fun a b ↦ decide (a ≤ b)

def NumericTypeOfWidths.getChecked (verifyWidth : ℕ → Bool) (constraint : List ℕ → LeafConstraint)
    (widths : List ℕ) : Option Ty :=
  let widths := getSortedWidths widths
  if verifyWidthList widths verifyWidth then some (.leaf (constraint widths)) else none

def OpaqueType.getChecked (dialectName typeName : String) : Option Ty :=
  if dialectName == "" then none
  else if typeName == "" then none
  else some (.leaf (.opaqueType dialectName typeName))

def IsaType.getChecked (root : String) (nested : List String) : Option Ty :=
  match nested with
  | [typeRef] => some (.leaf (.isa root typeRef))
  | _ => none

def verifyTypeList (types : List Ty) : Bool := !types.isEmpty && decide types.Nodup

def TypedAttr.getChecked (verifyWidth : ℕ → Bool) (constraint : ℕ → LeafAttr) (width : ℕ) :
    Option Attribute :=
  if verifyWidth width then some (.leaf (constraint width)) else none

def RankedElementsAttr.getChecked (dims : List ℕ) : Option Attribute :=
  if dims.any fun dim ↦ decide (dim ≤ 0) then none else some (.leaf (.rankedElements dims))

def ArrayOfAttr.getChecked (constraint : Attribute) : Option Attribute :=
  if SpecAttrs.is constraint then some (.arrayOf constraint) else none

def IsaAttr.getChecked (root : String) (nested : List String) : Option Attribute :=
  match nested with
  | [attrRef] => some (.leaf (.isa root attrRef))
  | _ => none

def verifyAttrList (attrs : List Attribute) : Bool := !attrs.isEmpty && decide attrs.Nodup

section GetChecked

variable (ctx : Context)

def getSortedTypes (types : List Ty) : List Ty :=
  types.mergeSort fun a b ↦ decide (ctx.typeAddress a ≤ ctx.typeAddress b)

def AnyOfType.getChecked (types : List Ty) : Option Ty :=
  let types := getSortedTypes ctx types
  if verifyTypeList types then some (.anyOf types) else none

def AllOfType.getChecked (types : List Ty) : Option Ty :=
  let types := getSortedTypes ctx types
  if verifyTypeList types then some (.allOf types) else none

def PyType.getChecked (expr : String) : Option Ty :=
  if ctx.registerConstraint expr then some (.leaf (.py expr)) else none

def getSortedAttrs (attrs : List Attribute) : List Attribute :=
  attrs.mergeSort fun a b ↦ decide (ctx.attrAddress a ≤ ctx.attrAddress b)

def AnyOfAttr.getChecked (attrs : List Attribute) : Option Attribute :=
  let attrs := getSortedAttrs ctx attrs
  if verifyAttrList attrs then some (.anyOf attrs) else none

def AllOfAttr.getChecked (attrs : List Attribute) : Option Attribute :=
  let attrs := getSortedAttrs ctx attrs
  if verifyAttrList attrs then some (.allOf attrs) else none

def PyAttr.getChecked (expr : String) : Option Attribute :=
  if ctx.registerConstraint expr then some (.leaf (.py expr)) else none

end GetChecked

/-! ## Constructible constraints -/

/-- The `getChecked` method of the class of a constraint, for the parameters it holds. -/
def LeafConstraint.getChecked (ctx : Context) : LeafConstraint → Option Ty
  | anyI width => NumericWidthType.getChecked verifyIntWidth .anyI width
  | i width => NumericWidthType.getChecked verifyIntWidth .i width
  | si width => NumericWidthType.getChecked verifyIntWidth .si width
  | ui width => NumericWidthType.getChecked verifyIntWidth .ui width
  | f width => NumericWidthType.getChecked verifyFloatWidth .f width
  | anyIntOfWidths widths => NumericTypeOfWidths.getChecked verifyIntWidth .anyIntOfWidths widths
  | signlessIntOfWidths widths =>
    NumericTypeOfWidths.getChecked verifyIntWidth .signlessIntOfWidths widths
  | signedIntOfWidths widths =>
    NumericTypeOfWidths.getChecked verifyIntWidth .signedIntOfWidths widths
  | unsignedIntOfWidths widths =>
    NumericTypeOfWidths.getChecked verifyIntWidth .unsignedIntOfWidths widths
  | floatOfWidths widths => NumericTypeOfWidths.getChecked verifyFloatWidth .floatOfWidths widths
  | opaqueType dialectName typeName => OpaqueType.getChecked dialectName typeName
  | isa dialectRef typeRef => IsaType.getChecked dialectRef [typeRef]
  | py expr => PyType.getChecked ctx expr
  | constraint => some (.leaf constraint)

/-- The types that can be constructed, by `getChecked` or `get` where they are constraints. -/
inductive Ty.Constructible (ctx : Context) : Ty → Prop where
  | builtin (type : BuiltinType) : Constructible ctx (.builtin type)
  | complex {elTy : Ty} : elTy.Constructible ctx → Constructible ctx (.complex elTy)
  | function {inputs results : List Ty} : (∀ type ∈ inputs, type.Constructible ctx) →
    (∀ type ∈ results, type.Constructible ctx) → Constructible ctx (.function inputs results)
  | leaf {constraint : LeafConstraint} {type : Ty} : constraint.getChecked ctx = some type →
    Constructible ctx type
  | anyOf {types : List Ty} {type : Ty} : (∀ type ∈ types, type.Constructible ctx) →
    AnyOfType.getChecked ctx types = some type → Constructible ctx type
  | allOf {types : List Ty} {type : Ty} : (∀ type ∈ types, type.Constructible ctx) →
    AllOfType.getChecked ctx types = some type → Constructible ctx type
  | complexOf {type : Ty} : type.Constructible ctx → Constructible ctx (.complexOf type)
  | variadic {type : Ty} : type.Constructible ctx → Constructible ctx (.variadic type)

/-- The `getChecked` method of the class of a constraint, for the parameters it holds. -/
def LeafAttr.getChecked (ctx : Context) : LeafAttr → Option Attribute
  | anyI width => TypedAttr.getChecked verifyIntWidth .anyI width
  | i width => TypedAttr.getChecked verifyIntWidth .i width
  | si width => TypedAttr.getChecked verifyIntWidth .si width
  | ui width => TypedAttr.getChecked verifyIntWidth .ui width
  | f width => TypedAttr.getChecked verifyFloatWidth .f width
  | rankedElements dims => RankedElementsAttr.getChecked dims
  | isa dialectRef attrRef => IsaAttr.getChecked dialectRef [attrRef]
  | py expr => PyAttr.getChecked ctx expr
  | constraint => some (.leaf constraint)

/-- Dimensions are signed integers of 64 bits. -/
def LeafAttr.FitsInt64 : LeafAttr → Prop
  | rankedElements dims => ∀ dim ∈ dims, dim < 2 ^ 63
  | _ => True

/-- The attributes that can be constructed, by `getChecked` or `get` where they are constraints. -/
inductive Attribute.Constructible (ctx : Context) : Attribute → Prop where
  | builtin (id : ℕ) {types : List Ty} {attrs : List Attribute} :
    (∀ type ∈ types, type.Constructible ctx) → (∀ attr ∈ attrs, attr.Constructible ctx) →
      Constructible ctx (.builtin id types attrs)
  | symbolRefAttr (root : String) (nested : List String) :
    Constructible ctx (.symbolRefAttr root nested)
  | leaf {constraint : LeafAttr} {attr : Attribute} : constraint.FitsInt64 →
    constraint.getChecked ctx = some attr → Constructible ctx attr
  | elementsOf {elTy : Ty} : elTy.Constructible ctx → Constructible ctx (.elementsOf elTy)
  | arrayOf {constraint attr : Attribute} : constraint.Constructible ctx →
    ArrayOfAttr.getChecked constraint = some attr → Constructible ctx attr
  | constant {attr : Attribute} : attr.Constructible ctx → Constructible ctx (.constant attr)
  | anyOf {attrs : List Attribute} {attr : Attribute} : (∀ attr ∈ attrs, attr.Constructible ctx) →
    AnyOfAttr.getChecked ctx attrs = some attr → Constructible ctx attr
  | allOf {attrs : List Attribute} {attr : Attribute} : (∀ attr ∈ attrs, attr.Constructible ctx) →
    AllOfAttr.getChecked ctx attrs = some attr → Constructible ctx attr
  | ofType {type : Ty} : type.Constructible ctx → Constructible ctx (.ofType type)
  | optional {baseAttr : Attribute} : baseAttr.Constructible ctx →
    Constructible ctx (.optional baseAttr)
  | default {baseAttr defaultAttr : Attribute} : baseAttr.Constructible ctx →
    defaultAttr.Constructible ctx → Constructible ctx (.default baseAttr defaultAttr)

end DeclarativeMlir.Spec

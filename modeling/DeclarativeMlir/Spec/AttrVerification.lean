import DeclarativeMlir.Spec.AttrConstraints
import DeclarativeMlir.Spec.Denotation
import Mathlib.Data.List.Nodup

/-!
# Verification of attributes

An attribute is verified against a nest of attribute constraints, which can hold type constraints,
and an op is verified against the constraints of its spec. Default values are filled in on some of
the paths by which an op is built.
-/

namespace DeclarativeMlir.Spec

/-! ## `SpecAttrs::delegateVerify` -/

/-- The classes of attributes that are told apart. -/
inductive AttrClass where
  | bool
  | integer
  | float
  | string
  | type
  | unit
  | dictionary
  | elements
  | denseElements
  | denseStringElements
  | array
  | symbolRef
  | flatSymbolRef
  deriving DecidableEq, Repr

/-- What the verification of attributes uses of MLIR, of dynamic dialects and of Python. -/
structure AttrContext where
  isa : AttrClass → Attribute → Bool
  getType : Attribute → Ty
  /-- the values of an array attribute -/
  getValue : Attribute → List Attribute
  /-- the element type of an elements attribute -/
  getElementType : Attribute → Ty
  /-- the shape of an elements attribute that has a rank -/
  getShape : Attribute → Option (List ℕ)
  lookupIsa : String → String → Ty → Bool
  evalPy : String → Ty → Bool
  /-- whether an attribute is of the dynamic attribute behind a reference -/
  lookupIsaAttr : String → String → Attribute → Bool
  evalPyAttr : String → Attribute → Bool

/-- `TypedAttrBase::verify` -/
def TypedAttr.verify (ctx : AttrContext) (attrT : AttrClass) (underlying : LeafConstraint)
    (attr : Attribute) : Bool :=
  ctx.isa attrT attr && underlying.verify ctx.lookupIsa ctx.evalPy (ctx.getType attr)

/-- The `verify` method that `kindSwitch` selects for a constraint. -/
def LeafAttr.verify (ctx : AttrContext) (attr : Attribute) : LeafAttr → Bool
  | any => true
  | bool => ctx.isa .bool attr
  | index => ctx.isa .integer attr && ctx.getType attr == .builtin .index
  | apInt => ctx.isa .integer attr
  | anyI width => TypedAttr.verify ctx .integer (.anyI width) attr
  | i width => TypedAttr.verify ctx .integer (.i width) attr
  | si width => TypedAttr.verify ctx .integer (.si width) attr
  | ui width => TypedAttr.verify ctx .integer (.ui width) attr
  | f width => TypedAttr.verify ctx .float (.f width) attr
  | string => ctx.isa .string attr
  | type => ctx.isa .type attr
  | unit => ctx.isa .unit attr
  | dictionary => ctx.isa .dictionary attr
  | elements => ctx.isa .elements attr
  | denseElements => ctx.isa .denseElements attr
  | rankedElements dims => ctx.isa .elements attr && ctx.getShape attr == some dims
  | stringElements => ctx.isa .denseStringElements attr
  | array => ctx.isa .array attr
  | symbolRef => ctx.isa .symbolRef attr
  | flatSymbolRef => ctx.isa .flatSymbolRef attr
  | isa dialectRef attrRef => ctx.lookupIsaAttr dialectRef attrRef attr
  | py expr => ctx.evalPyAttr expr attr

namespace SpecAttrs

section Verify

variable (ctx : AttrContext)

mutual

/-- A null attribute, which `Optional` accepts, is never given. -/
def delegateVerify (base attr : Attribute) : Bool :=
  match base with
  | .builtin .. | .symbolRefAttr .. => base == attr
  | .leaf constraint => constraint.verify ctx attr
  | .elementsOf baseTy =>
    ctx.isa .elements attr &&
      SpecTypes.delegateVerify ctx.lookupIsa ctx.evalPy baseTy (ctx.getElementType attr)
  | .arrayOf constraint =>
    ctx.isa .array attr && (ctx.getValue attr).all fun val ↦ delegateVerify constraint val
  | .constant constAttr => attr == constAttr
  | .anyOf attrs => verifyAnyOf attrs attr
  | .allOf attrs => verifyAllOf attrs attr
  | .ofType type => SpecTypes.delegateVerify ctx.lookupIsa ctx.evalPy type (ctx.getType attr)
  | .optional baseAttr => delegateVerify baseAttr attr
  | .default baseAttr _ => if is baseAttr then delegateVerify baseAttr attr else baseAttr == attr

/-- `AnyOfAttr::verify` -/
def verifyAnyOf (attrs : List Attribute) (attr : Attribute) : Bool :=
  match attrs with
  | [] => false
  | baseAttr :: attrs => if delegateVerify baseAttr attr then true else verifyAnyOf attrs attr

/-- `AllOfAttr::verify` -/
def verifyAllOf (attrs : List Attribute) (attr : Attribute) : Bool :=
  match attrs with
  | [] => true
  | baseAttr :: attrs => if !delegateVerify baseAttr attr then false else verifyAllOf attrs attr

end

end Verify

end SpecAttrs

/-! ## `verifyAttrConstraints` -/

/-- The named attributes of an op or of its spec. Keys are unique. -/
structure DictionaryAttr where
  value : List (String × Attribute)
  nodup : (value.map Prod.fst).Nodup

/-- The attribute of a name, or null. -/
def getAttr (attrs : List (String × Attribute)) (name : String) : Option Attribute :=
  attrs.lookup name

inductive AttrError where
  | missing (name : String)
  | failedToSatisfy (name : String) (opAttr baseAttr : Attribute)
  | expectedToBe (name : String) (baseAttr opAttr : Attribute)

def isOptionalAttr : Attribute → Bool
  | .optional _ => true
  | _ => false

section VerifyAttrs

variable (ctx : AttrContext) (attrs : List (String × Attribute))

def verifyAttribute (attr : String × Attribute) : Except AttrError Unit :=
  match getAttr attrs attr.1 with
  | none => if isOptionalAttr attr.2 then .ok () else .error (.missing attr.1)
  | some opAttr =>
    if SpecAttrs.is attr.2 then
      if !SpecAttrs.delegateVerify ctx attr.2 opAttr then
        .error (.failedToSatisfy attr.1 opAttr attr.2)
      else .ok ()
    else if attr.2 != opAttr then .error (.expectedToBe attr.1 attr.2 opAttr)
    else .ok ()

def verifyAttrConstraints (opAttrs : DictionaryAttr) : Except AttrError Unit :=
  opAttrs.value.forM (verifyAttribute ctx attrs)

end VerifyAttrs

/-! ## Building of ops -/

/-- The default values that `DynamicOperation::parseOperation` adds to the attributes that a custom
parser has found. -/
def addDefaults (opAttrs : DictionaryAttr) (attributes : List (String × Attribute)) :
    List (String × Attribute) :=
  attributes ++ opAttrs.value.filterMap fun (name, attr) ↦
    match attr with
    | .default _ defaultAttr =>
      if name ∈ attributes.map Prod.fst then none else some (name, defaultAttr)
    | _ => none

/-- An argument of the constructor of an exposed class: what is given, or the default of the
parameter. A parameter of an attribute that is not optional and has no builder has none, and there
is no class if such an attribute is default-valued. -/
def constructorArgument (builder : Attribute → Option Attribute)
    (given : List (String × Attribute)) (attr : String × Attribute) :
    Option (Option (String × Attribute)) :=
  match builder attr.2, attr.2, getAttr given attr.1 with
  | none, .default _ _, _ => none
  | _, _, some val => some (some (attr.1, val))
  | some val, _, none => some (some (attr.1, val))
  | none, .optional _, none => some none
  | none, _, none => none

/-- The attributes that the constructor of an exposed class gives to its op, for builders and given
arguments. -/
def constructorAttrs (builder : Attribute → Option Attribute)
    (given : List (String × Attribute)) :
    List (String × Attribute) → Option (List (String × Attribute))
  | [] => some []
  | attr :: attrs => do
    let argument ← constructorArgument builder given attr
    let arguments ← constructorAttrs builder given attrs
    return argument.toList ++ arguments

inductive BuildPath where
  | customParser
  | genericForm
  | pythonConstructor

/-- The attributes of an op that is built with given ones, if it can be. -/
def BuildPath.build (builder : Attribute → Option Attribute) (opAttrs : DictionaryAttr)
    (given : List (String × Attribute)) : BuildPath → Option (List (String × Attribute))
  | customParser => some (addDefaults opAttrs given)
  | genericForm => some given
  | pythonConstructor => constructorAttrs builder given opAttrs.value

/-! ## Denotation -/

def LeafAttr.denotation (ctx : AttrContext) : LeafAttr → Set Attribute
  | any => Set.univ
  | bool => {attr | ctx.isa .bool attr = true}
  | index => {attr | ctx.isa .integer attr = true ∧ ctx.getType attr = .builtin .index}
  | apInt => {attr | ctx.isa .integer attr = true}
  | anyI width => {attr | ctx.isa .integer attr = true ∧
      ctx.getType attr ∈ LeafConstraint.denotation ctx.lookupIsa ctx.evalPy (.anyI width)}
  | i width => {attr | ctx.isa .integer attr = true ∧
      ctx.getType attr ∈ LeafConstraint.denotation ctx.lookupIsa ctx.evalPy (.i width)}
  | si width => {attr | ctx.isa .integer attr = true ∧
      ctx.getType attr ∈ LeafConstraint.denotation ctx.lookupIsa ctx.evalPy (.si width)}
  | ui width => {attr | ctx.isa .integer attr = true ∧
      ctx.getType attr ∈ LeafConstraint.denotation ctx.lookupIsa ctx.evalPy (.ui width)}
  | f width => {attr | ctx.isa .float attr = true ∧
      ctx.getType attr ∈ LeafConstraint.denotation ctx.lookupIsa ctx.evalPy (.f width)}
  | string => {attr | ctx.isa .string attr = true}
  | type => {attr | ctx.isa .type attr = true}
  | unit => {attr | ctx.isa .unit attr = true}
  | dictionary => {attr | ctx.isa .dictionary attr = true}
  | elements => {attr | ctx.isa .elements attr = true}
  | denseElements => {attr | ctx.isa .denseElements attr = true}
  | rankedElements dims => {attr | ctx.isa .elements attr = true ∧ ctx.getShape attr = some dims}
  | stringElements => {attr | ctx.isa .denseStringElements attr = true}
  | array => {attr | ctx.isa .array attr = true}
  | symbolRef => {attr | ctx.isa .symbolRef attr = true}
  | flatSymbolRef => {attr | ctx.isa .flatSymbolRef attr = true}
  | isa dialectRef attrRef => {attr | ctx.lookupIsaAttr dialectRef attrRef attr = true}
  | py expr => {attr | ctx.evalPyAttr expr attr = true}

theorem TypedAttr.verify_iff (ctx : AttrContext) (attrT : AttrClass) {underlying : LeafConstraint}
    (attr : Attribute) (hfunction : underlying ≠ .function) :
    TypedAttr.verify ctx attrT underlying attr = true ↔ ctx.isa attrT attr = true ∧
      ctx.getType attr ∈ underlying.denotation ctx.lookupIsa ctx.evalPy := by
  rw [TypedAttr.verify, Bool.and_eq_true, LeafConstraint.verify_iff _ hfunction]

theorem LeafAttr.verify_iff (ctx : AttrContext) (constraint : LeafAttr) (attr : Attribute) :
    constraint.verify ctx attr = true ↔ attr ∈ constraint.denotation ctx := by
  cases constraint with
  | anyI width => exact TypedAttr.verify_iff ctx .integer attr (by simp)
  | i width => exact TypedAttr.verify_iff ctx .integer attr (by simp)
  | si width => exact TypedAttr.verify_iff ctx .integer attr (by simp)
  | ui width => exact TypedAttr.verify_iff ctx .integer attr (by simp)
  | f width => exact TypedAttr.verify_iff ctx .float attr (by simp)
  | _ => simp [verify, denotation]

namespace SpecAttrs

section Denotation

variable (ctx : AttrContext)

def denotation : Attribute → Set Attribute
  | .builtin id types attrs => {.builtin id types attrs}
  | .symbolRefAttr root nested => {.symbolRefAttr root nested}
  | .leaf constraint => constraint.denotation ctx
  | .elementsOf baseTy => {attr | ctx.isa .elements attr = true ∧
      ctx.getElementType attr ∈ SpecTypes.denotation ctx.lookupIsa ctx.evalPy baseTy}
  | .arrayOf constraint =>
    {attr | ctx.isa .array attr = true ∧ ∀ val ∈ ctx.getValue attr, val ∈ denotation constraint}
  | .constant constAttr => {constAttr}
  | .anyOf attrs => ⋃ base ∈ attrs, denotation base
  | .allOf attrs => ⋂ base ∈ attrs, denotation base
  | .ofType type =>
    {attr | ctx.getType attr ∈ SpecTypes.denotation ctx.lookupIsa ctx.evalPy type}
  | .optional baseAttr => denotation baseAttr
  | .default baseAttr _ => denotation baseAttr

/-- Verification of `attr` against a constraint fails to decide membership. This comes from the
type constraints in it. -/
def Deviates : Attribute → Attribute → Prop
  | .elementsOf baseTy, attr => ctx.isa .elements attr = true ∧
      SpecTypes.Deviates ctx.lookupIsa ctx.evalPy baseTy (ctx.getElementType attr)
  | .arrayOf constraint, attr => ctx.isa .array attr = true ∧
      (∃ val ∈ ctx.getValue attr, Deviates constraint val) ∧
        ((∀ val ∈ ctx.getValue attr, val ∈ denotation ctx constraint) ∨
          ∀ val ∈ ctx.getValue attr, (val ∈ denotation ctx constraint ↔ ¬ Deviates constraint val))
  | .anyOf attrs, attr => (∃ base, ∃ _ : base ∈ attrs, Deviates base attr) ∧
      ((∀ base ∈ attrs, attr ∉ denotation ctx base) ∨
        ∀ base, ∀ _ : base ∈ attrs, (attr ∈ denotation ctx base ↔ Deviates base attr))
  | .allOf attrs, attr => (∃ base, ∃ _ : base ∈ attrs, Deviates base attr) ∧
      ((∀ base ∈ attrs, attr ∈ denotation ctx base) ∨
        ∀ base, ∀ _ : base ∈ attrs, (attr ∈ denotation ctx base ↔ ¬ Deviates base attr))
  | .ofType type, attr =>
    SpecTypes.Deviates ctx.lookupIsa ctx.evalPy type (ctx.getType attr)
  | .optional baseAttr, attr => Deviates baseAttr attr
  | .default baseAttr _, attr => Deviates baseAttr attr
  | _, _ => False

end Denotation

end SpecAttrs

/-! ## Lists of checks -/

section Checks

variable {α : Type} {items : List α} {holds spec deviates : α → Prop}

/-- All checks of a list decide all of what they are for, unless some of them deviate and do not
make up for each other. -/
theorem forall_exact_iff
    (h : ∀ item ∈ items, (holds item ↔ spec item) ↔ ¬ deviates item) :
    ((∀ item ∈ items, holds item) ↔ ∀ item ∈ items, spec item) ↔
      ¬ ((∃ item ∈ items, deviates item) ∧
        ((∀ item ∈ items, spec item) ∨ ∀ item ∈ items, (spec item ↔ ¬ deviates item))) := by
  have hholds : ∀ item ∈ items, (holds item ↔ (spec item ↔ ¬ deviates item)) := by
    intro item hitem
    have hexact := h item hitem
    tauto
  constructor
  · rintro hiff ⟨⟨item, hitem, hdeviates⟩, hspec | hall⟩
    · have hitem' := (hholds item hitem).mp (hiff.mpr hspec item hitem)
      exact hitem'.mp (hspec item hitem) hdeviates
    · have hspec := hiff.mp fun item hitem ↦ (hholds item hitem).mpr (hall item hitem)
      exact (hall item hitem).mp (hspec item hitem) hdeviates
  · intro hnot
    by_cases hdeviates : ∃ item ∈ items, deviates item
    · constructor
      · intro hall
        have hspec : ∀ item ∈ items, (spec item ↔ ¬ deviates item) :=
          fun item hitem ↦ (hholds item hitem).mp (hall item hitem)
        exact absurd ⟨hdeviates, Or.inr hspec⟩ hnot
      · intro hspec
        exact absurd ⟨hdeviates, Or.inl hspec⟩ hnot
    · have hexact : ∀ item ∈ items, (holds item ↔ spec item) :=
        fun item hitem ↦ (h item hitem).mpr fun hd ↦ hdeviates ⟨item, hitem, hd⟩
      exact forall₂_congr hexact

/-- The same for some check of a list. -/
theorem exists_exact_iff
    (h : ∀ item ∈ items, (holds item ↔ spec item) ↔ ¬ deviates item) :
    ((∃ item ∈ items, holds item) ↔ ∃ item ∈ items, spec item) ↔
      ¬ ((∃ item ∈ items, deviates item) ∧
        ((∀ item ∈ items, ¬ spec item) ∨ ∀ item ∈ items, (spec item ↔ deviates item))) := by
  have hnot : ∀ item ∈ items, (¬ holds item ↔ ¬ spec item) ↔ ¬ deviates item := by
    intro item hitem
    rw [not_iff_not]
    exact h item hitem
  have hexists (p : α → Prop) : (∃ item ∈ items, p item) ↔ ¬ ∀ item ∈ items, ¬ p item := by
    simp
  have hforall := forall_exact_iff hnot
  rw [hexists holds, hexists spec, not_iff_not]
  simpa only [not_iff_not] using hforall

end Checks

namespace SpecAttrs

variable {ctx : AttrContext}

theorem verifyAnyOf_iff (attrs : List Attribute) (attr : Attribute) :
    verifyAnyOf ctx attrs attr = true ↔ ∃ base ∈ attrs, delegateVerify ctx base attr = true := by
  induction attrs with
  | nil => simp [verifyAnyOf]
  | cons baseAttr attrs ih =>
    rw [verifyAnyOf, List.exists_mem_cons_iff, ← ih]
    cases delegateVerify ctx baseAttr attr <;> simp

theorem verifyAllOf_iff (attrs : List Attribute) (attr : Attribute) :
    verifyAllOf ctx attrs attr = true ↔ ∀ base ∈ attrs, delegateVerify ctx base attr = true := by
  induction attrs with
  | nil => simp [verifyAllOf]
  | cons baseAttr attrs ih =>
    rw [verifyAllOf, List.forall_mem_cons, ← ih]
    cases delegateVerify ctx baseAttr attr <;> simp

/-- An attribute that is no constraint is compared directly. -/
theorem delegateVerify_of_not_is {base : Attribute} (hbase : is base = false) (attr : Attribute) :
    delegateVerify ctx base attr = (base == attr) := by
  cases base with
  | builtin id types attrs => rw [delegateVerify]
  | symbolRefAttr root nested => rw [delegateVerify]
  | _ => simp [is] at hbase

theorem delegateVerify_default (baseAttr defaultAttr attr : Attribute) :
    delegateVerify ctx (.default baseAttr defaultAttr) attr =
      delegateVerify ctx baseAttr attr := by
  rw [delegateVerify]
  cases hbase : is baseAttr with
  | true => simp
  | false => simp [delegateVerify_of_not_is hbase]

/-- Verification decides membership in the denotation of a nest exactly where it does not
deviate. -/
theorem exact_iff (base attr : Attribute) :
    (delegateVerify ctx base attr = true ↔ attr ∈ denotation ctx base) ↔
      ¬ Deviates ctx base attr := by
  induction base generalizing attr with
  | builtin id types attrs ih =>
    simp [delegateVerify, denotation, Deviates, @eq_comm Attribute attr]
  | symbolRefAttr root nested =>
    simp [delegateVerify, denotation, Deviates, @eq_comm Attribute attr]
  | leaf constraint =>
    simpa [delegateVerify, denotation, Deviates] using constraint.verify_iff ctx attr
  | elementsOf baseTy =>
    have htype : SpecTypes.Exact ctx.lookupIsa ctx.evalPy baseTy (ctx.getElementType attr) ↔ _ :=
      SpecTypes.exact_iff baseTy (ctx.getElementType attr)
    rw [SpecTypes.Exact] at htype
    rw [delegateVerify, denotation, Deviates]
    cases hisa : ctx.isa .elements attr <;> simp [hisa, htype]
  | arrayOf constraint ih =>
    have hvalues : ∀ val ∈ ctx.getValue attr,
        ((delegateVerify ctx constraint val = true ↔ val ∈ denotation ctx constraint) ↔
          ¬ Deviates ctx constraint val) := fun val _ ↦ ih val
    have hall := forall_exact_iff hvalues
    rw [delegateVerify, denotation, Deviates]
    cases hisa : ctx.isa .array attr with
    | true => simpa [hisa] using hall
    | false => simp [hisa]
  | constant constAttr ih => simp [delegateVerify, denotation, Deviates]
  | anyOf attrs ih =>
    have hany := exists_exact_iff fun base hbase ↦ ih base hbase attr
    rw [delegateVerify, verifyAnyOf_iff, denotation, Deviates]
    simpa using hany
  | allOf attrs ih =>
    have hall := forall_exact_iff fun base hbase ↦ ih base hbase attr
    rw [delegateVerify, verifyAllOf_iff, denotation, Deviates]
    simpa using hall
  | ofType type =>
    rw [delegateVerify, denotation, Deviates]
    exact SpecTypes.exact_iff type (ctx.getType attr)
  | optional baseAttr ih =>
    rw [delegateVerify, denotation, Deviates]
    exact ih attr
  | default baseAttr defaultAttr ih _ =>
    rw [delegateVerify_default, denotation, Deviates]
    exact ih attr

end SpecAttrs

/-! ## The attributes of an op -/

def isDefaultAttr : Attribute → Bool
  | .default _ _ => true
  | _ => false

section Dictionary

variable (ctx : AttrContext) (attrs : List (String × Attribute))

/-- What an attribute of an op should be: in the denotation of its constraint, or absent where the
constraint is optional or default-valued. -/
def AttrFits (attr : String × Attribute) : Prop :=
  match getAttr attrs attr.1 with
  | some opAttr => opAttr ∈ SpecAttrs.denotation ctx attr.2
  | none => isOptionalAttr attr.2 = true ∨ isDefaultAttr attr.2 = true

/-- The attribute deviates, or it is default-valued and absent. -/
def AttrDeviates (attr : String × Attribute) : Prop :=
  match getAttr attrs attr.1 with
  | some opAttr => SpecAttrs.Deviates ctx attr.2 opAttr
  | none => isDefaultAttr attr.2 = true

/-- The checks of the attributes of an op fail to decide whether all fit. -/
def DictionaryDeviates (opAttrs : DictionaryAttr) : Prop :=
  (∃ attr ∈ opAttrs.value, AttrDeviates ctx attrs attr) ∧
    ((∀ attr ∈ opAttrs.value, AttrFits ctx attrs attr) ∨
      ∀ attr ∈ opAttrs.value, (AttrFits ctx attrs attr ↔ ¬ AttrDeviates ctx attrs attr))

variable {ctx attrs}

theorem verifyAttribute_exact_iff (attr : String × Attribute) :
    (verifyAttribute ctx attrs attr = .ok () ↔ AttrFits ctx attrs attr) ↔
      ¬ AttrDeviates ctx attrs attr := by
  rw [verifyAttribute, AttrFits, AttrDeviates]
  cases hattr : getAttr attrs attr.1 with
  | none => cases attr.2 <;> simp [isOptionalAttr, isDefaultAttr]
  | some opAttr =>
    rw [← SpecAttrs.exact_iff]
    cases hbase : SpecAttrs.is attr.2 with
    | true => cases hverify : SpecAttrs.delegateVerify ctx attr.2 opAttr <;> simp [hverify]
    | false =>
      rw [SpecAttrs.delegateVerify_of_not_is hbase]
      cases heq : attr.2 == opAttr <;> simp [bne, heq]

theorem forM_eq_ok_iff {α ε : Type} {check : α → Except ε Unit} (items : List α) :
    forM items check = .ok () ↔ ∀ item ∈ items, check item = .ok () := by
  induction items with
  | nil => simp [pure, Except.pure]
  | cons item items ih =>
    rw [List.forM_cons, List.forall_mem_cons, ← ih]
    cases check item <;> simp [bind, Except.bind]

theorem verifyAttrConstraints_exact_iff (opAttrs : DictionaryAttr) :
    (verifyAttrConstraints ctx attrs opAttrs = .ok () ↔
        ∀ attr ∈ opAttrs.value, AttrFits ctx attrs attr) ↔
      ¬ DictionaryDeviates ctx attrs opAttrs := by
  rw [verifyAttrConstraints, List.forM_eq_forM, forM_eq_ok_iff]
  exact forall_exact_iff fun attr _ ↦ verifyAttribute_exact_iff attr

end Dictionary

/-! ## Default values -/

section Build

variable (builder : Attribute → Option Attribute) (opAttrs : DictionaryAttr)
  (given : List (String × Attribute))

/-- A default-valued attribute that is not given takes its default value. -/
def TakesDefaults (path : BuildPath) : Prop :=
  ∀ attrs, path.build builder opAttrs given = some attrs →
    ∀ name baseAttr defaultAttr, (name, .default baseAttr defaultAttr) ∈ opAttrs.value →
      getAttr given name = none → getAttr attrs name = some defaultAttr

/-- The arguments that a constructor needs are there, and the class itself. -/
def Constructible : Prop :=
  ∀ attr ∈ opAttrs.value, builder attr.2 = none →
    isDefaultAttr attr.2 = false ∧ (isOptionalAttr attr.2 = true ∨ getAttr given attr.1 ≠ none)

/-- The value that a path gives to an absent default-valued attribute is its default value. -/
def GivesDefaults : BuildPath → Prop
  | .customParser => True
  | .genericForm => ∀ name baseAttr defaultAttr,
      (name, .default baseAttr defaultAttr) ∈ opAttrs.value → getAttr given name ≠ none
  | .pythonConstructor => Constructible builder opAttrs given →
      ∀ name baseAttr defaultAttr, (name, .default baseAttr defaultAttr) ∈ opAttrs.value →
        getAttr given name = none → builder (.default baseAttr defaultAttr) = some defaultAttr

variable {builder opAttrs given}

theorem getAttr_eq_none_iff (attrs : List (String × Attribute)) (name : String) :
    getAttr attrs name = none ↔ name ∉ attrs.map Prod.fst := by
  simp only [getAttr, List.lookup_eq_none_iff, List.mem_map, not_exists, not_and]
  exact forall₂_congr fun attr _ ↦ bne_iff_ne.trans ne_comm

/-- An attribute is found by its name, as the names are unique. -/
theorem getAttr_eq_some_of_mem {attrs : List (String × Attribute)} {name : String}
    {attr : Attribute} (hnodup : (attrs.map Prod.fst).Nodup) (hmem : (name, attr) ∈ attrs) :
    getAttr attrs name = some attr := by
  induction attrs with
  | nil => simp at hmem
  | cons head attrs ih =>
    have hnodup' := List.nodup_cons.mp hnodup
    rcases List.mem_cons.mp hmem with heq | hmem
    · rw [getAttr, ← heq, List.lookup_cons_self]
    · have hne : name ≠ head.1 := fun heq ↦ hnodup'.1 (heq ▸ List.mem_map_of_mem hmem)
      rw [getAttr, List.lookup_cons, beq_false_of_ne hne]
      exact ih hnodup'.2 hmem

/-- Attributes that are made from those of a dictionary and keep their names. -/
theorem nodup_filterMap {entries : List (String × Attribute)}
    {f : String × Attribute → Option (String × Attribute)}
    (hf : ∀ entry attr, f entry = some attr → attr.1 = entry.1)
    (hnodup : (entries.map Prod.fst).Nodup) : ((entries.filterMap f).map Prod.fst).Nodup := by
  have hsub : ((entries.filterMap f).map Prod.fst).Sublist (entries.map Prod.fst) := by
    clear hnodup
    induction entries with
    | nil => simp
    | cons entry entries ih =>
      cases hentry : f entry with
      | none => simpa [hentry] using ih.cons entry.1
      | some attr => simpa [hentry, hf entry attr hentry] using ih.cons_cons entry.1
  exact hnodup.sublist hsub

/-- The custom parser adds what is missing. -/
theorem getAttr_addDefaults {name : String} {baseAttr defaultAttr : Attribute}
    (hmem : (name, .default baseAttr defaultAttr) ∈ opAttrs.value)
    (hgiven : getAttr given name = none) :
    getAttr (addDefaults opAttrs given) name = some defaultAttr := by
  rw [getAttr] at hgiven ⊢
  rw [addDefaults, List.lookup_append, hgiven, Option.none_or]
  have hname : name ∉ given.map Prod.fst := (getAttr_eq_none_iff given name).mp hgiven
  refine getAttr_eq_some_of_mem (nodup_filterMap ?_ opAttrs.nodup)
    (List.mem_filterMap.mpr ⟨_, hmem, by simp only [if_neg hname]⟩)
  rintro ⟨name', attr'⟩ attr hattr
  cases attr' with
  | default base val =>
    simp only at hattr
    split_ifs at hattr
    rw [← Option.some.inj hattr]
  | _ => simp at hattr

theorem constructorArgument_isSome_iff (attr : String × Attribute) :
    (constructorArgument builder given attr).isSome = true ↔
      (builder attr.2 = none → isDefaultAttr attr.2 = false ∧
        (isOptionalAttr attr.2 = true ∨ getAttr given attr.1 ≠ none)) := by
  obtain ⟨name, attr⟩ := attr
  cases hbuilder : builder attr <;> cases hgiven : getAttr given name <;> cases attr <;>
    simp [constructorArgument, hbuilder, hgiven, isDefaultAttr, isOptionalAttr]

theorem constructorArgument_name {attr argument : String × Attribute}
    (h : (constructorArgument builder given attr).join = some argument) : argument.1 = attr.1 := by
  rw [Option.join_eq_some_iff, constructorArgument] at h
  split at h <;> simp at h <;> rw [← h]

theorem constructorAttrs_eq_some {attrs : List (String × Attribute)}
    (h : ∀ attr ∈ attrs, (constructorArgument builder given attr).isSome = true) :
    constructorAttrs builder given attrs =
      some (attrs.filterMap fun attr ↦ (constructorArgument builder given attr).join) := by
  induction attrs with
  | nil => rfl
  | cons attr attrs ih =>
    obtain ⟨hattr, hattrs⟩ := List.forall_mem_cons.mp h
    obtain ⟨argument, hargument⟩ := Option.isSome_iff_exists.mp hattr
    rw [constructorAttrs, ih hattrs, hargument]
    cases argument <;> simp [hargument]

theorem isSome_of_constructorAttrs {attrs arguments : List (String × Attribute)}
    (h : constructorAttrs builder given attrs = some arguments) :
    ∀ attr ∈ attrs, (constructorArgument builder given attr).isSome = true := by
  induction attrs generalizing arguments with
  | nil => simp
  | cons attr attrs ih =>
    obtain ⟨argument, hargument, hrest⟩ := Option.bind_eq_some_iff.mp h
    obtain ⟨arguments', harguments, -⟩ := Option.bind_eq_some_iff.mp hrest
    exact List.forall_mem_cons.mpr ⟨by simp [hargument], ih harguments⟩

theorem constructible_iff :
    Constructible builder opAttrs given ↔
      ∃ attrs, constructorAttrs builder given opAttrs.value = some attrs := by
  constructor
  · intro h
    exact ⟨_, constructorAttrs_eq_some fun attr hattr ↦
      (constructorArgument_isSome_iff attr).mpr (h attr hattr)⟩
  · rintro ⟨attrs, h⟩ attr hattr
    exact (constructorArgument_isSome_iff attr).mp (isSome_of_constructorAttrs h attr hattr)

/-- A constructor gives the value of the builder to an absent default-valued attribute. -/
theorem getAttr_constructorAttrs {attrs : List (String × Attribute)} {name : String}
    {baseAttr defaultAttr : Attribute}
    (hattrs : constructorAttrs builder given opAttrs.value = some attrs)
    (hmem : (name, .default baseAttr defaultAttr) ∈ opAttrs.value)
    (hgiven : getAttr given name = none) :
    getAttr attrs name = builder (.default baseAttr defaultAttr) := by
  have hsome := isSome_of_constructorAttrs hattrs
  obtain ⟨val, hval⟩ : ∃ val, builder (.default baseAttr defaultAttr) = some val := by
    have hargument := (constructorArgument_isSome_iff _).mp (hsome _ hmem)
    by_contra hnone
    have hbuilder : builder (.default baseAttr defaultAttr) = none := by
      simpa [Option.eq_none_iff_forall_ne_some] using hnone
    simp [isDefaultAttr] at hargument
    exact hargument hbuilder
  rw [constructorAttrs_eq_some hsome] at hattrs
  rw [← Option.some.inj hattrs, hval]
  refine getAttr_eq_some_of_mem (nodup_filterMap ?_ opAttrs.nodup)
    (List.mem_filterMap.mpr ⟨_, hmem, ?_⟩)
  · exact fun entry argument ↦ constructorArgument_name
  · simp [constructorArgument, hval, hgiven]

theorem takesDefaults_iff (path : BuildPath) :
    TakesDefaults builder opAttrs given path ↔ GivesDefaults builder opAttrs given path := by
  cases path with
  | customParser =>
    refine iff_of_true ?_ trivial
    intro attrs hattrs name baseAttr defaultAttr hmem hgiven
    rw [← Option.some.inj hattrs]
    exact getAttr_addDefaults hmem hgiven
  | genericForm =>
    constructor
    · intro h name baseAttr defaultAttr hmem hgiven
      have hattr := h given rfl name baseAttr defaultAttr hmem hgiven
      simp [hgiven] at hattr
    · intro h attrs _ name baseAttr defaultAttr hmem hgiven
      exact absurd hgiven (h name baseAttr defaultAttr hmem)
  | pythonConstructor =>
    constructor
    · intro h hconstructible name baseAttr defaultAttr hmem hgiven
      obtain ⟨attrs, hattrs⟩ := constructible_iff.mp hconstructible
      rw [← getAttr_constructorAttrs hattrs hmem hgiven]
      exact h attrs hattrs name baseAttr defaultAttr hmem hgiven
    · intro h attrs hattrs name baseAttr defaultAttr hmem hgiven
      rw [getAttr_constructorAttrs hattrs hmem hgiven]
      exact h (constructible_iff.mpr ⟨attrs, hattrs⟩) name baseAttr defaultAttr hmem hgiven

end Build

/-! ## The law of attributes -/

/-- A nest decides membership in its denotation; the attributes of an op are checked against theirs,
where optional and default-valued ones can be absent; and an absent default-valued attribute takes
its default value. This holds exactly where none of the three deviates. -/
theorem attributes_verified_iff (ctx : AttrContext) (base attr : Attribute)
    (opAttrs : DictionaryAttr) (attrs given : List (String × Attribute))
    (builder : Attribute → Option Attribute) (path : BuildPath) :
    ((SpecAttrs.delegateVerify ctx base attr = true ↔ attr ∈ SpecAttrs.denotation ctx base) ↔
      ¬ SpecAttrs.Deviates ctx base attr) ∧
    ((verifyAttrConstraints ctx attrs opAttrs = .ok () ↔
        ∀ attr ∈ opAttrs.value, AttrFits ctx attrs attr) ↔
      ¬ DictionaryDeviates ctx attrs opAttrs) ∧
    (TakesDefaults builder opAttrs given path ↔ GivesDefaults builder opAttrs given path) :=
  ⟨SpecAttrs.exact_iff base attr, verifyAttrConstraints_exact_iff opAttrs, takesDefaults_iff path⟩

/-- An op in generic form with a default-valued attribute that is absent: the verifier rejects it,
and it does not take its default value. -/
theorem attributes_not_verified :
    let opAttrs : DictionaryAttr :=
      ⟨[("n", .default (.leaf .any) (.builtin 0 [] []))], List.nodup_singleton "n"⟩
    let ctx : AttrContext :=
      ⟨fun _ _ ↦ false, fun _ ↦ .builtin .none, fun _ ↦ [], fun _ ↦ .builtin .none, fun _ ↦ none,
        fun _ _ _ ↦ false, fun _ _ ↦ false, fun _ _ _ ↦ false, fun _ _ ↦ false⟩
    ¬ (verifyAttrConstraints ctx [] opAttrs = .ok () ↔
      ∀ attr ∈ opAttrs.value, AttrFits ctx [] attr) ∧
    ¬ TakesDefaults (fun _ ↦ none) opAttrs [] .genericForm := by
  intro opAttrs ctx
  constructor
  · intro h
    have hfits : ∀ attr ∈ opAttrs.value, AttrFits ctx [] attr := by
      simp [opAttrs, AttrFits, getAttr, isDefaultAttr]
    exact absurd (h.mpr hfits) (by simp [opAttrs, verifyAttrConstraints, verifyAttribute, getAttr,
      isOptionalAttr, bind, Except.bind])
  · intro h
    have hattr := h [] rfl "n" (.leaf .any) (.builtin 0 [] []) (by simp [opAttrs]) rfl
    simp [getAttr] at hattr

end DeclarativeMlir.Spec

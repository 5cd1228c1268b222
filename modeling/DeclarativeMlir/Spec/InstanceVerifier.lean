import DeclarativeMlir.Spec.OpSpec

/-!
# The verifier of op instances

A registered op has a list of traits: those of its specification, counts of its operands, results,
regions and successors, and its constraints. An instance is verified against the traits in this
order. Behaviour that the source leaves undefined, such as a failed assertion, a division by zero or
an iterator beyond the end of its range, is an outcome of its own.
-/

namespace DeclarativeMlir.Spec

/-! ## Instances -/

structure Value where
  id : ℕ
  type : Ty
  deriving DecidableEq

structure Region where
  numBlocks : ℕ
  isIsolatedFromAbove : Bool
  deriving DecidableEq

/-- A `DenseIntElementsAttr` -/
structure DenseIntElements where
  rank : ℕ
  values : List ℤ
  deriving DecidableEq

/-- An instance of an op. Successors are the numbers of blocks. -/
structure Operation where
  operands : List Value
  results : List Value
  regions : List Region
  successors : List ℕ
  operandSegmentSizes : Option DenseIntElements
  resultSegmentSizes : Option DenseIntElements
  attrs : List (String × Attr)

def Operation.values (op : Operation) : ValueKind → List Value
  | .operand => op.operands
  | .result => op.results

def Operation.getSegmentSizesAttr (op : Operation) : ValueKind → Option DenseIntElements
  | .operand => op.operandSegmentSizes
  | .result => op.resultSegmentSizes

/-- The lists whose lengths count traits are about. -/
inductive Counted where
  | operands
  | results
  | regions
  | successors
  deriving DecidableEq, Repr

def Operation.count (op : Operation) : Counted → ℕ
  | .operands => op.operands.length
  | .results => op.results.length
  | .regions => op.regions.length
  | .successors => op.successors.length

/-! ## Outcomes -/

inductive OpError where
  | typeMustBe (name : String) (idx : ℕ) (constraint got : Ty)
  | numSegments (name : String) (expected got : ℕ)
  | nonUnitySegment (name : String) (idx size : ℕ)
  | malformedVariadic (kind : ValueKind)
  | regionExpected (idx : ℕ) (constraint : String)
  /-- an error of a trait that is defined elsewhere -/
  | trait (name : String)
  deriving Repr

inductive Outcome where
  | success
  | failure (error : OpError)
  | undefined
  deriving Repr

/-- Verification stops at the first check that does not succeed. -/
def Outcome.andThen : Outcome → Outcome → Outcome
  | success, next => next
  | failure error, _ => failure error
  | undefined, _ => undefined

namespace Outcome

@[simp]
theorem andThen_eq_success (first next : Outcome) :
    first.andThen next = success ↔ first = success ∧ next = success := by
  cases first <;> simp [andThen]

@[simp]
theorem andThen_eq_undefined (first next : Outcome) :
    first.andThen next = undefined ↔ first = undefined ∨ first = success ∧ next = undefined := by
  cases first <;> simp [andThen]

end Outcome

/-! ## Groups of values -/

/-- The number of variadic values and of variadic types. Both the assertion that there is a variadic
type and the unsigned subtraction can go wrong. -/
def calcFixedVariadicSize (tys : List Ty) (numVals : ℕ) : Option (ℕ × ℕ) :=
  let numVariadicTypes := tys.countP Ty.isVariadic
  let numNonVariadic := tys.length - numVariadicTypes
  if numVariadicTypes = 0 then none
  else if numVals < numNonVariadic then none
  else some (numVals - numNonVariadic, numVariadicTypes)

def checkVariadicValues (tys : List Ty) (numVals : ℕ) : Option Bool :=
  (calcFixedVariadicSize tys numVals).map fun (numVariadicVals, numVariadicTypes) ↦
    numVariadicVals % numVariadicTypes == 0

def getFixedSegmentSize (tys : List Ty) (numVals : ℕ) : Option ℕ :=
  (calcFixedVariadicSize tys numVals).map fun (numVariadicVals, numVariadicTypes) ↦
    numVariadicVals / numVariadicTypes

/-- The loop of `checkVariadicSegments` from entry `idx` on. -/
def checkSegments (name : String) : ℕ → List Ty → List ℤ → Outcome
  | _, [], _ => .success
  | _, _ :: _, [] => .undefined
  | idx, ty :: tys, size :: sizes =>
    if size.toNat ≠ 1 ∧ !ty.isVariadic then .failure (.nonUnitySegment name idx size.toNat)
    else checkSegments name (idx + 1) tys sizes

def checkVariadicSegments (tys : List Ty) (sizes : List ℤ) (name : String) : Outcome :=
  if sizes.length ≠ tys.length then .failure (.numSegments name tys.length sizes.length)
  else checkSegments name 0 tys sizes

/-- One step of the accumulation of sizes. `getNextSegSize` may have a state, such as an iterator. -/
def addSegSize {σ : Type} (getNextSegSize : Ty → σ → Option (ℕ × σ)) (acc : ℕ × σ) (ty : Ty) :
    Option (ℕ × σ) :=
  (getNextSegSize ty acc.2).map fun next ↦ (acc.1 + next.1, next.2)

/-- The sizes of the types in front of `idx` add up to the start of the group. -/
def getValueGroup {σ : Type} (tys : List Ty) (vals : List Value) (idx : ℕ)
    (getNextSegSize : Ty → σ → Option (ℕ × σ)) (state : σ) : Option (List Value) :=
  match tys.drop idx with
  | [] => some []
  | lastTy :: _ =>
    ((tys.take idx).foldlM (addSegSize getNextSegSize) (0, state)).bind fun start ↦
      (getNextSegSize lastTy start.2).bind fun last ↦
        if start.1 + last.1 ≤ vals.length then some ((vals.drop start.1).take last.1) else none

def getFixedValueGroup (tys : List Ty) (vals : List Value) (idx : ℕ) : Option (List Value) := do
  let segSize ← getFixedSegmentSize tys vals.length
  getValueGroup tys vals idx (fun ty _ ↦ some (if ty.isVariadic then segSize else 1, ())) ()

/-- The state is the rest of the sizes. -/
def getAttrValueGroup (tys : List Ty) (vals : List Value) (idx : ℕ) (sizes : List ℤ) :
    Option (List Value) :=
  getValueGroup tys vals idx
    (fun _ sizes ↦
      match sizes with
      | [] => none
      | size :: sizes => some (size.toNat, sizes)) sizes

/-! ## Type constraints -/

section Verify

variable (lookupIsa : String → String → Ty → Bool) (evalPy : String → Ty → Bool)

/-- The values of one group against the type of the group. -/
def verifyValues (name : String) (ty : Ty) : ℕ → List Value → Outcome
  | _, [] => .success
  | valIdx, value :: values =>
    if SpecTypes.delegateVerify lookupIsa evalPy ty value.type then
      verifyValues name ty (valIdx + 1) values
    else .failure (.typeMustBe name valIdx ty value.type)

def verifyTypeRange (name : String) : ℕ → List Ty → List Value → Outcome
  | _, [], [] => .success
  | idx, baseTy :: baseTys, value :: values =>
    if SpecTypes.delegateVerify lookupIsa evalPy baseTy value.type then
      verifyTypeRange name (idx + 1) baseTys values
    else .failure (.typeMustBe name idx baseTy value.type)
  | _, _, _ => .undefined

/-- The loop of `verifyVariadicTypes`, with the types that are left. -/
def verifyVariadicTypes (name : String) (getValues : ℕ → Option (List Value)) :
    List Ty → ℕ → ℕ → Outcome
  | [], groupIdx, _ =>
    match getValues groupIdx with
    | some [] => .success
    | _ => .undefined
  | ty :: tys, groupIdx, valIdx =>
    match getValues groupIdx with
    | none => .undefined
    | some values =>
      if values.isEmpty && !ty.isVariadic then .undefined
      else (verifyValues lookupIsa evalPy name ty valIdx values).andThen
        (verifyVariadicTypes name getValues tys (groupIdx + 1) (valIdx + values.length))

end Verify

/-! ## Regions and successors -/

def RegionConstraint.toString : RegionConstraint → String
  | any => "Any"
  | sized numBlocks => s!"Sized<{numBlocks}>"
  | isolatedFromAbove => "IsolatedFromAbove"
  | variadic constraint => s!"Variadic<{constraint.toString}>"

def SuccessorConstraint.toString : SuccessorConstraint → String
  | any => "Any"
  | variadic constraint => s!"Variadic<{constraint.toString}>"

/-- `SpecRegion::delegateVerify` -/
def RegionConstraint.verify (region : Region) : RegionConstraint → Bool
  | any => true
  | sized numBlocks => region.numBlocks == numBlocks
  | isolatedFromAbove => region.isIsolatedFromAbove
  | variadic constraint => constraint.verify region

/-- `SpecSuccessor::delegateVerify` -/
def SuccessorConstraint.verify (block : ℕ) : SuccessorConstraint → Bool
  | any => true
  | variadic constraint => constraint.verify block

section LastVariadic

variable {C T : Type} (isVariadic : C → Bool) (verify : C → T → Bool) (toString : C → String)

/-- The remaining variables against a variadic constraint. -/
def verifyRest (attr : C) : ℕ → List T → Outcome
  | _, [] => .success
  | idx, var :: vars =>
    if verify attr var then verifyRest attr (idx + 1) vars
    else .failure (.regionExpected idx (toString attr))

/-- An iterator goes one step along the variables for each constraint, which is a step beyond the
end if nothing is left for a variadic constraint. -/
def verifyConstraintsLastVariadic : ℕ → List C → List T → Outcome
  | _, [], _ => .success
  | idx, attr :: attrs, vars =>
    if isVariadic attr then
      if !attrs.isEmpty then .undefined
      else (verifyRest verify toString attr idx vars).andThen
        (match vars with
        | [] => .undefined
        | _ :: _ => .success)
    else
      match vars with
      | [] => .undefined
      | var :: vars =>
        if verify attr var then verifyConstraintsLastVariadic (idx + 1) attrs vars
        else .failure (.regionExpected idx (toString attr))

end LastVariadic

/-! ## Traits -/

inductive Trait where
  /-- `SameVariadicOperandSizes` and `SameVariadicResultSizes` -/
  | sameVariadicSizes (kind : ValueKind)
  /-- `SizedOperandSegments` and `SizedResultSegments` -/
  | sizedSegments (kind : ValueKind)
  /-- `NOperands`, `NResults`, `NRegions`, `NSuccessors` -/
  | exactly (counted : Counted) (num : ℕ)
  /-- `AtLeastNOperands`, `AtLeastNResults`, `AtLeastNRegions`, `AtLeastNSuccessors` -/
  | atLeast (counted : Counted) (num : ℕ)
  /-- any other registered trait -/
  | standard (name : String) (parameters : List Attr)
  | typeConstraint (opTy : OpType)
  | attrConstraint (opAttrs : List (String × Attr))
  | regionConstraint (opRegions : OpRegion)
  | successorConstraint (opSuccs : OpSuccessor)

def Counted.exactly : Counted → String
  | operands => "NOperands"
  | results => "NResults"
  | regions => "NRegions"
  | successors => "NSuccessors"

def Counted.atLeast : Counted → String
  | operands => "AtLeastNOperands"
  | results => "AtLeastNResults"
  | regions => "AtLeastNRegions"
  | successors => "AtLeastNSuccessors"

/-- What the registration of an op says of an exact count that the user has written. -/
def Counted.invalid : Counted → String
  | successors => "specified and invalid op trait: "
  | _ => "specified an invalid op trait: "

def Trait.name : Trait → String
  | sameVariadicSizes kind => kind.sameVariadicSizes
  | sizedSegments kind => kind.sizedSegments
  | exactly counted _ => counted.exactly
  | atLeast counted _ => counted.atLeast
  | standard name _ => name
  | typeConstraint _ => "TypeConstraintTrait"
  | attrConstraint _ => "AttrConstraintTrait"
  | regionConstraint _ => "RegionConstraintTrait"
  | successorConstraint _ => "SuccessorConstraintTrait"

/-- `getTrait` is not null. -/
def hasDynamicTrait (name : String) (info : List Trait) : Bool :=
  info.any fun trait ↦ trait.name == name

/-- The op type of the first type constraint trait, if there is any. -/
def getOpType : List Trait → Option OpType
  | [] => none
  | .typeConstraint opTy :: _ => some opTy
  | _ :: info => getOpType info

/-- What is verified elsewhere: type predicates, the segment size attribute, attribute constraints,
and the traits of MLIR. -/
structure Externals where
  lookupIsa : String → String → Ty → Bool
  evalPy : String → Ty → Bool
  /-- the base check of `AttrSizedOperandSegments` and `AttrSizedResultSegments` -/
  verifySizeAttr : Option DenseIntElements → ℕ → Bool
  verifyAttrConstraints : List (String × Attr) → Operation → Bool
  verifyStandard : String → List Attr → Operation → Bool

section VerifyOp

variable (ext : Externals) (info : List Trait) (op : Operation)

def SameVariadicSizes.verifyOp (kind : ValueKind) : Outcome :=
  match getOpType info with
  | none => .undefined
  | some opTy =>
    match checkVariadicValues (opTy.types kind) (op.values kind).length with
    | none => .undefined
    | some true => .success
    | some false => .failure (.malformedVariadic kind)

def SizedSegments.verifyOp (kind : ValueKind) : Outcome :=
  if ext.verifySizeAttr (op.getSegmentSizesAttr kind) (op.values kind).length then
    match getOpType info, op.getSegmentSizesAttr kind with
    | some opTy, some sizes => checkVariadicSegments (opTy.types kind) sizes.values kind.name
    | _, _ => .undefined
  else .failure (.trait kind.sizedSegments)

def SameVariadicSizes.getGroup (kind : ValueKind) (idx : ℕ) : Option (List Value) := do
  let opTy ← getOpType info
  getFixedValueGroup (opTy.types kind) (op.values kind) idx

def SizedSegments.getGroup (kind : ValueKind) (idx : ℕ) : Option (List Value) := do
  let opTy ← getOpType info
  let sizes ← op.getSegmentSizesAttr kind
  getAttrValueGroup (opTy.types kind) (op.values kind) idx sizes.values

/-- `verifyGroupTypes`, for the operands or the results -/
def verifyGroupTypes (opTy : OpType) (kind : ValueKind) : Outcome :=
  if hasDynamicTrait kind.sizedSegments info then
    verifyVariadicTypes ext.lookupIsa ext.evalPy kind.name (SizedSegments.getGroup info op kind)
      (opTy.types kind) 0 0
  else if hasDynamicTrait kind.sameVariadicSizes info then
    verifyVariadicTypes ext.lookupIsa ext.evalPy kind.name (SameVariadicSizes.getGroup info op kind)
      (opTy.types kind) 0 0
  else
    verifyTypeRange ext.lookupIsa ext.evalPy kind.name 0 (opTy.types kind) (op.values kind)

def verifyTypeConstraints (opTy : OpType) : Outcome :=
  (verifyGroupTypes ext info op opTy .operand).andThen (verifyGroupTypes ext info op opTy .result)

def Trait.verifyOp : Trait → Outcome
  | sameVariadicSizes kind => SameVariadicSizes.verifyOp info op kind
  | sizedSegments kind => SizedSegments.verifyOp ext info op kind
  | exactly counted num =>
    if op.count counted = num then .success else .failure (.trait counted.exactly)
  | atLeast counted num =>
    if num ≤ op.count counted then .success else .failure (.trait counted.atLeast)
  | standard name parameters =>
    if ext.verifyStandard name parameters op then .success else .failure (.trait name)
  | typeConstraint opTy => verifyTypeConstraints ext info op opTy
  | attrConstraint opAttrs =>
    if ext.verifyAttrConstraints opAttrs op then .success
    else .failure (.trait "AttrConstraintTrait")
  | regionConstraint opRegions =>
    verifyConstraintsLastVariadic RegionConstraint.isVariadic
      (fun constraint region ↦ constraint.verify region) RegionConstraint.toString 0
      opRegions.getRegionAttrs op.regions
  | successorConstraint opSuccs =>
    verifyConstraintsLastVariadic SuccessorConstraint.isVariadic
      (fun constraint block ↦ constraint.verify block) SuccessorConstraint.toString 0
      opSuccs.getSuccessorAttrs op.successors

/-- `DynamicOperation::verifyOpTraits`, from some trait on -/
def verifyOpTraits : List Trait → Outcome
  | [] => .success
  | trait :: traits => (trait.verifyOp ext info op).andThen (verifyOpTraits traits)

end VerifyOp

/-! ## Registration -/

/-- The parameters that a trait constructor takes. -/
inductive ParamKind where
  | integer
  | string
  | any
  deriving DecidableEq

def ParamKind.accepts : ParamKind → Attr → Bool
  | integer, .integer _ => true
  | string, .string _ => true
  | any, _ => true
  | _, _ => false

/-- The signatures of the registered traits. -/
def traitSignature (name : String) : Option (List ParamKind) :=
  if name ∈ ["IsTerminator", "IsCommutative", "IsIsolatedFromAbove", "MemoryAlloc", "MemoryFree",
      "MemoryRead", "MemoryWrite", "NoSideEffects", "OperandsAreFloatLike",
      "OperandsAreSignlessIntegerLike", "ResultsAreBoolLike", "ResultsAreFloatLike",
      "ResultsAreSignlessIntegerLike", "SameOperandsShape", "SameOperandsAndResultShape",
      "SameOperandsElementType", "SameOperandsAndResultElementType", "SameOperandsAndResultType",
      "SameTypeOperands", "SameVariadicOperandSizes", "SameVariadicResultSizes",
      "SizedOperandSegments", "SizedResultSegments"] then some []
  else if name ∈ ["Alloc", "Free", "ReadFrom", "WriteTo"] then some [.any]
  else if name = "LoopLike" then some [.string, .string, .string]
  else if name ∈ ["NOperands", "AtLeastNOperands", "NRegions", "AtLeastNRegions", "NResults",
      "AtLeastNResults", "NSuccessors", "AtLeastNSuccessors"] then some [.integer]
  else if name ∈ ["HasParent", "SingleBlockImplicitTerminator"] then some [.string]
  else none

/-- The parameter of a count trait is an `unsigned`. -/
def constructTrait (name : String) (parameters : List Attr) : Trait :=
  match name, parameters with
  | "SameVariadicOperandSizes", [] => .sameVariadicSizes .operand
  | "SameVariadicResultSizes", [] => .sameVariadicSizes .result
  | "SizedOperandSegments", [] => .sizedSegments .operand
  | "SizedResultSegments", [] => .sizedSegments .result
  | "NOperands", [.integer num] => .exactly .operands (num % 2 ^ 32)
  | "NResults", [.integer num] => .exactly .results (num % 2 ^ 32)
  | "NRegions", [.integer num] => .exactly .regions (num % 2 ^ 32)
  | "NSuccessors", [.integer num] => .exactly .successors (num % 2 ^ 32)
  | "AtLeastNOperands", [.integer num] => .atLeast .operands (num % 2 ^ 32)
  | "AtLeastNResults", [.integer num] => .atLeast .results (num % 2 ^ 32)
  | "AtLeastNRegions", [.integer num] => .atLeast .regions (num % 2 ^ 32)
  | "AtLeastNSuccessors", [.integer num] => .atLeast .successors (num % 2 ^ 32)
  | name, parameters => .standard name parameters

/-- Traits have names of their own. -/
def addOpTrait (traits : List Trait) (trait : Trait) : Option (List Trait) :=
  if hasDynamicTrait trait.name traits then none else some (traits ++ [trait])

/-- The user-defined traits; names without a constructor are skipped. -/
def addUserTraits : List Trait → List OpTraitAttr → Except String (List Trait)
  | traits, [] => .ok traits
  | traits, trait :: rest =>
    match traitSignature trait.name with
    | none => addUserTraits traits rest
    | some signature =>
      if trait.parameters.length ≠ signature.length then
        .error s!"expected {signature.length} arguments to trait constructor"
      else if !(signature.zip trait.parameters).all (fun (kind, param) ↦ kind.accepts param) then
        .error "trait constructor expected another kind of argument"
      else
        match addOpTrait traits (constructTrait trait.name trait.parameters) with
        | none => .error s!"duplicate op trait: {trait.name}"
        | some traits => addUserTraits traits rest

/-- The count trait of one list: exact if no entry is variadic, else a lower bound unless there is
one already. -/
def addCountTrait (traits : List Trait) (counted : Counted) (size numVariadic : ℕ) :
    Except String (List Trait) :=
  if numVariadic = 0 then
    match addOpTrait traits (.exactly counted size) with
    | none => .error (counted.invalid ++ counted.exactly)
    | some traits => .ok traits
  else if hasDynamicTrait counted.atLeast traits then .ok traits
  else .ok (traits ++ [.atLeast counted (size - numVariadic)])

/-- The traits of the dynamic op. -/
def registerOp (op : OperationOp) : Except String (List Trait) := do
  let regions := op.opRegions.getRegionAttrs
  let succs := op.opSuccs.getSuccessorAttrs
  let operands := op.opType.types .operand
  let results := op.opType.types .result
  let traits ← addUserTraits [] op.opTraits
  let traits ← addCountTrait traits .regions regions.length
    (regions.countP RegionConstraint.isVariadic)
  let traits ← addCountTrait traits .successors succs.length
    (succs.countP SuccessorConstraint.isVariadic)
  let traits ← addCountTrait traits .operands operands.length (operands.countP Ty.isVariadic)
  let traits ← addCountTrait traits .results results.length (results.countP Ty.isVariadic)
  return traits ++ [.typeConstraint op.opType, .attrConstraint op.opAttrs,
    .regionConstraint op.opRegions, .successorConstraint op.opSuccs]

end DeclarativeMlir.Spec

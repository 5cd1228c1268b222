import DeclarativeMlir.Dynamic.Registration
import DeclarativeMlir.Spec.InstanceVerifier
import DeclarativeMlir.Spec.SpecSyntax

/-!
# Registration of the dialects of a module

`registerAllDialects` creates a dynamic dialect for each `dmc.Dialect` of a module and walks its
body. Each op of the body is reparsed and registered with the dialect. The first error ends the
walk, and what has been registered before it stays. The functions that are generated from assembly
formats all go to one internal scope, under names made of the dialect and the op.
-/

namespace DeclarativeMlir.Dynamic

open Spec

/-- How a registration ends early. -/
inductive LoadError where
  /-- a diagnostic, and `failure()` -/
  | opError (message : String)
  /-- a fatal error, a failed cast, or an exception that nothing catches -/
  | terminate
  deriving DecidableEq, Repr

/-- The names of the generated functions in the internal scope. -/
structure FormatFunctions where
  parserName : String
  printerName : String
  deriving DecidableEq

/-- A dynamic type, or a dynamic attribute. -/
structure DynamicTypeImpl where
  dialect : String
  name : String
  paramSpec : List NamedParameter
  format : Option FormatFunctions
  deriving DecidableEq

/-- The ops that `AbstractOperation::lookup` finds. -/
inductive AbstractOperation where
  /-- an op of some other dialect -/
  | builtin
  | dynamic (traits : List Trait) (format : Option FormatFunctions)

inductive RegisteredDialect where
  | builtin
  | dynamic (allowsUnknownOps allowsUnknownTypes : Bool)

/-- All dialects with their objects, and the internal scope with its functions. -/
structure Registry (Code : Type) where
  context : DynamicContext Ty Attr String String
  dialects : String → Option RegisteredDialect
  operations : String → Option AbstractOperation
  dynTys : String → String → Option DynamicTypeImpl
  dynAttrs : String → String → Option DynamicTypeImpl
  internalScope : String → Option Code

structure DialectOp where
  name : String
  allowsUnknownOps : Bool
  allowsUnknownTypes : Bool
  body : List SpecOp

/-- The parsers of MLIR, the format generators and the generator of Python classes. -/
structure Generators (Code : Type) where
  reparseType : Registry Code → Ty → Option Ty
  reparseAttr : Registry Code → Attr → Option Attr
  /-- the bodies of the parser and of the printer -/
  generateOpFormat : Registry Code → OperationOp → String → Option (Code × Code)
  generateTypeFormat : String → List NamedParameter → String → Option (Code × Code)
  /-- whether the exposition of a dialect raises no exception -/
  exposeDialectInternal : Registry Code → String → List String → Bool

abbrev LoadM (Code : Type) := EStateM LoadError (Registry Code)

/-! ## Reparsing -/

section Reparse

variable {Code : Type} (gen : Generators Code) (s : Registry Code)

/-- The values in order, each with its position in the message of an error. -/
def reparseEach {α β : Type} (reparse : α → Option β) (message : α → ℕ → String) :
    ℕ → List α → Except LoadError (List β)
  | _, [] => .ok []
  | idx, arg :: rest =>
    match reparse arg with
    | none => .error (.opError (message arg idx))
    | some newArg => do
      let newArgs ← reparseEach reparse message (idx + 1) rest
      return newArg :: newArgs

def reparseTypeRange (name : String) (types : List NamedType) :
    Except LoadError (List NamedType) :=
  reparseEach (fun ty ↦ (gen.reparseType s ty.type).map (NamedType.mk ty.name))
    (fun _ idx ↦ s!"failed to parse type for {name} #{idx}") 0 types

def reparseNamedAttrs (attrs : List (String × Attr)) : Except LoadError (List (String × Attr)) :=
  reparseEach (fun attr ↦ (gen.reparseAttr s attr.2).map (Prod.mk attr.1))
    (fun attr _ ↦ s!"failed to parse attribute '{attr.1}'") 0 attrs

def reparseOperation (op : OperationOp) : Except LoadError OperationOp := do
  let argTys ← reparseTypeRange gen s "operand" op.opType.operands
  let retTys ← reparseTypeRange gen s "result" op.opType.results
  match OpType.getChecked argTys retTys with
  | none => .error .terminate
  | some newOpTy =>
    let newOpAttrs ← reparseNamedAttrs gen s op.opAttrs
    return { op with opType := newOpTy, opAttrs := newOpAttrs }

/-- The parameters, which are cast to `NamedParameter`. -/
def reparseParameters (op : ParametersOp) : Except LoadError ParametersOp :=
  match op.params.mapM Parameter.getNamed with
  | none => .error .terminate
  | some params => do
    let newParams ← reparseEach
      (fun param ↦ (gen.reparseAttr s param.constraint).map (Prod.mk param.name))
      (fun _ idx ↦ s!"failed to parse parameter #{idx}") 0 params
    match newParams.mapM fun param ↦ NamedParameter.getChecked param.1 param.2 with
    | none => .error .terminate
    | some newParams => return { op with params := newParams.map .named }

/-- `getAttrOfType<TypeAttr>`, of the attribute `type` -/
def getAttrType (op : AliasOp) : Option Ty :=
  match op.attrs.lookup "type" with
  | some (.type ty) => some ty
  | _ => none

def getBuilder (op : AliasOp) : Option String :=
  match op.attrs.lookup "builder" with
  | some (.string builder) => some builder
  | _ => none

def reparseAliased (op : AliasOp) : Except LoadError AliasOp :=
  match op.getAliasedType with
  | some ty =>
    match gen.reparseType s ty with
    | some newType => .ok { op with aliasedType := some (.type newType) }
    | none => .error (.opError "failed to parse aliased type")
  | none =>
    match op.aliasedAttr with
    | none => .error .terminate
    | some attr =>
      match gen.reparseAttr s attr with
      | some newAttr => .ok { op with aliasedAttr := some newAttr }
      | none => .error (.opError "failed to parse aliased attribute")

/-- Reparse the type if it exists. -/
def reparseAlias (op : AliasOp) : Except LoadError AliasOp := do
  let op ← reparseAliased gen s op
  match getAttrType op with
  | none => return op
  | some ty =>
    match gen.reparseType s ty with
    | some newType =>
      return { op with attrs := op.attrs.map fun attr ↦
        if attr.1 = "type" then ("type", .type newType) else attr }
    | none => .error (.opError "failed to parse attribute type")

/-- `ReparseOpInterface` -/
def reparse : SpecOp → Except LoadError SpecOp
  | .operationOp op => .operationOp <$> reparseOperation gen s op
  | .typeOp op => .typeOp <$> reparseParameters gen s op
  | .attributeOp op => .attributeOp <$> reparseParameters gen s op
  | .aliasOp op => .aliasOp <$> reparseAlias gen s op

end Reparse

/-! ## Registration -/

/-- The full name of an op. -/
def qualifiedName (dialect name : String) : String := dialect ++ "." ++ name

def getAssemblyFormat (attrs : List (String × Attr)) : Option String :=
  match attrs.lookup "fmt" with
  | some (.string fmt) => some fmt
  | _ => none

/-- The names under which the parser and the printer of an object are defined. -/
def formatFunctions (dialect val name : String) : FormatFunctions where
  parserName := "parse" ++ ("__" ++ dialect ++ "__" ++ val ++ "__" ++ name)
  printerName := "print" ++ ("__" ++ dialect ++ "__" ++ val ++ "__" ++ name)

namespace Registry

variable {Code : Type}

def addDialect (s : Registry Code) (op : DialectOp) : Registry Code :=
  let dialect := RegisteredDialect.dynamic op.allowsUnknownOps op.allowsUnknownTypes
  { s with dialects := Function.update s.dialects op.name (some dialect) }

def addOperation (s : Registry Code) (name : String) (traits : List Trait)
    (format : Option FormatFunctions) : Registry Code :=
  { s with operations := Function.update s.operations name (some (.dynamic traits format)) }

/-- A definition replaces one of the same name. -/
def define (s : Registry Code) (name : String) (code : Code) : Registry Code :=
  { s with internalScope := Function.update s.internalScope name (some code) }

/-- The destructors of the two definitions. -/
def defineFormat (s : Registry Code) (functions : FormatFunctions) (codes : Code × Code) :
    Registry Code :=
  (s.define functions.printerName codes.2).define functions.parserName codes.1

end Registry

section Register

variable {Code : Type} (gen : Generators Code) (dialect : String)

/-- Definitions without a body do not compile. -/
def generateFormat (functions : FormatFunctions) (codes : Option (Code × Code)) :
    LoadM Code Unit := do
  match codes with
  | none => throw .terminate
  | some codes => modify (·.defineFormat functions codes)

/-- Check that the operation name is unused, and add the operation to the dialect. -/
def finalize (name : String) (traits : List Trait) (format : Option FormatFunctions) :
    LoadM Code Unit := do
  let s ← get
  match s.operations name with
  | some _ => throw (.opError "an operation with this name already exists")
  | none => set (s.addOperation name traits format)

/-- A registration with the dynamic context, and the message if it fails. -/
def registerWith (message : String)
    (call : DynamicContext Ty Attr String String →
      Bool × DynamicContext Ty Attr String String) : LoadM Code Unit := do
  let s ← get
  set { s with context := (call s.context).2 }
  if (call s.context).1 = false then throw (.opError message)

def registerOp (op : OperationOp) : LoadM Code Unit := do
  match Spec.registerOp op with
  | .error message => throw (.opError message)
  | .ok traits =>
    let name := qualifiedName dialect op.name
    let functions := formatFunctions dialect "op" op.name
    match getAssemblyFormat op.config with
    | none => finalize name traits none
    | some fmt =>
      generateFormat functions (gen.generateOpFormat (← get) op fmt)
      finalize name traits (some functions)
    registerWith "an operation with this name already exists"
      (DynamicContext.registerDynamicOp dialect ⟨name, name⟩)

/-- The maps of dynamic types or attributes, and what the code calls their objects. -/
structure ImplKind (Code : Type) where
  get : Registry Code → String → String → Option DynamicTypeImpl
  set : Registry Code → (String → String → Option DynamicTypeImpl) → Registry Code
  val : String
  exists_ : String

/-- The maps with a new object under its name. -/
def ImplKind.insert {Code : Type} (kind : ImplKind Code) (impl : DynamicTypeImpl)
    (s : Registry Code) : Registry Code :=
  kind.set s (Function.update (kind.get s) impl.dialect
    (Function.update (kind.get s impl.dialect) impl.name (some impl)))

def typeKind : ImplKind Code where
  get := (·.dynTys)
  set s map := { s with dynTys := map }
  val := "type"
  exists_ := "a type with this name already exists"

def attrKind : ImplKind Code where
  get := (·.dynAttrs)
  set s map := { s with dynAttrs := map }
  val := "attr"
  exists_ := "an attribute with this name already exists"

/-- `registerType` and `registerAttr` -/
def registerImpl (kind : ImplKind Code) (op : ParametersOp) : LoadM Code Unit := do
  match op.params.mapM Parameter.getNamed with
  | none => throw .terminate
  | some params =>
    let s ← get
    let impl : DynamicTypeImpl := ⟨dialect, op.name, params, none⟩
    match kind.get s dialect op.name with
    | some _ => throw (.opError kind.exists_)
    | none => set (kind.insert impl s)
    match getAssemblyFormat op.attrs with
    | none => return ()
    | some fmt =>
      let functions := formatFunctions dialect kind.val op.name
      generateFormat functions (gen.generateTypeFormat op.name params fmt)
      modify (kind.insert { impl with format := some functions })

def registerType (op : ParametersOp) : LoadM Code Unit := registerImpl gen dialect typeKind op

def registerAttr (op : ParametersOp) : LoadM Code Unit := registerImpl gen dialect attrKind op

/-- Need to check that a type with the alias name does not already exist. -/
def registerAlias (op : AliasOp) : LoadM Code Unit := do
  match op.getAliasedType with
  | some ty =>
    if ((← get).dynTys dialect op.name).isSome then
      throw (.opError "a type with this name already exists")
    registerWith "a type alias with this name already exists"
      (DynamicContext.registerTypeAlias dialect ⟨op.name, ty, getBuilder op⟩)
  | none =>
    if ((← get).dynAttrs dialect op.name).isSome then
      throw (.opError "an attribute with this name already exists")
    match op.aliasedAttr with
    | none => throw .terminate
    | some attr =>
      registerWith "an attribute alias with this name already exists"
        (DynamicContext.registerAttrAlias dialect
          ⟨op.name, attr, getBuilder op, getAttrType op⟩)

def registerSpecOp : SpecOp → LoadM Code Unit
  | .operationOp op => registerOp gen dialect op
  | .typeOp op => registerType gen dialect op
  | .attributeOp op => registerAttr gen dialect op
  | .aliasOp op => registerAlias dialect op

/-- Walk the children operations. -/
def registerChildren : List SpecOp → LoadM Code Unit
  | [] => return ()
  | specOp :: rest => do
    match reparse gen (← get) specOp with
    | .error error => throw error
    | .ok specOp => registerSpecOp gen dialect specOp
    registerChildren rest

end Register

section RegisterDialects

variable {Code : Type} (gen : Generators Code)

/-- A namespace that is taken is a fatal error. -/
def createDynamicDialect (op : DialectOp) : LoadM Code Unit := do
  let s ← get
  match s.dialects op.name with
  | some _ => throw .terminate
  | none => set (s.addDialect op)

def registerDialect (op : DialectOp) (scope : List String) : LoadM Code Unit := do
  createDynamicDialect op
  registerChildren gen op.name op.body
  if gen.exposeDialectInternal (← get) op.name scope = false then throw .terminate

/-- The dialects in order; `scope` has the names of those before. -/
def registerDialects : List String → List DialectOp → LoadM Code Unit
  | _, [] => return ()
  | scope, op :: rest => do
    registerDialect gen op (scope ++ [op.name])
    registerDialects (scope ++ [op.name]) rest

def registerAllDialects (dialects : List DialectOp) : LoadM Code Unit :=
  registerDialects gen [] dialects

end RegisterDialects

end DeclarativeMlir.Dynamic

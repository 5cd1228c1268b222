import DeclarativeMlir.Embed.FormatUtils
import DeclarativeMlir.Library.CheckedParsing
import DeclarativeMlir.Spec.OpSpec

/-!
# Formats of ops

The parser of the assembly format of an op. While it reads the elements it keeps track of what the
format binds already, and at the end it checks that nothing is left out. The types that the format
does not give are taken from a builder or from another value in the generated parser.
-/

namespace DeclarativeMlir.Embed.OpFormat

open Spec CheckedParsing

/-- What the dynamic context knows about the constraints of an op. -/
structure Metadata where
  /-- the builder of a dynamic type -/
  typeBuilder : Ty → Option String
  /-- the builder of the type of a dynamic attribute -/
  attrTypeBuilder : Attr → Option String
  /-- `OptionalAttr` and `DefaultAttr` -/
  isOptional : Attr → Bool

/-! ## Elements -/

/-- A variable refers to something registered on the op. -/
inductive Variable where
  | attr (idx : ℕ)
  | operand (idx : ℕ)
  | result (idx : ℕ)
  | successor (idx : ℕ)
  | region (idx : ℕ)
  deriving DecidableEq, Repr

/-- What a type directive takes as its argument. -/
inductive TypeArg where
  | operand (idx : ℕ)
  | result (idx : ℕ)
  | operands
  | results
  deriving DecidableEq, Repr

inductive Element where
  | literal (text : String)
  | var (var : Variable)
  | attrDict (withKeyword : Bool)
  | functionalType (inputs outputs : TypeArg)
  | operands
  | results
  | successors
  | type (operand : TypeArg)
  /-- the directive `symbol` with an attribute -/
  | symbol (attr : ℕ)
  deriving DecidableEq, Repr

/-- A format is a list of elements and optional groups. -/
inductive Item where
  | element (element : Element)
  | optional (elements : List Element) (anchor : ℕ)
  deriving DecidableEq, Repr

/-! ## Errors -/

inductive FormatError where
  /-- a variable of this kind is read again -/
  | bound (kind name : String)
  | overlap (directive : String)
  | typeBound (name : String)
  | allTypesBound (directive : String)
  | other (message : String) (note : Option String)
  | outOfFuel
  deriving DecidableEq, Repr

namespace FormatError

def message : FormatError → String
  | bound kind name => s!"{kind} '{name}' is already bound"
  | overlap directive => s!"'{directive}' directive creates overlap in format"
  | typeBound name => s!"'type' of '{name}' is already bound"
  | allTypesBound directive => s!"'{directive}' 'type' is already bound"
  | other message _ => message
  | outOfFuel => ""

/-- The errors about something that is bound already. -/
def isBinding : FormatError → Bool
  | bound .. | overlap _ | typeBound _ | allTypesBound _ => true
  | other .. | outOfFuel => false

end FormatError

def err {α : Type} (message : String) : Except FormatError α := .error (.other message none)

/-! ## What the format has bound -/

/-- The fields of the parser that hold what it has seen, by index. -/
structure Seen where
  hasAllOperands : Bool
  hasAttrDict : Bool
  hasAllSuccessors : Bool
  allOperandTypes : Bool
  allResultTypes : Bool
  operandTypes : List ℕ
  resultTypes : List ℕ
  operands : List ℕ
  attrs : List ℕ
  successors : List ℕ
  regions : List ℕ
  deriving DecidableEq, Repr

def Seen.empty : Seen where
  hasAllOperands := false
  hasAttrDict := false
  hasAllSuccessors := false
  allOperandTypes := false
  allResultTypes := false
  operandTypes := []
  resultTypes := []
  operands := []
  attrs := []
  successors := []
  regions := []

def operandName (op : OperationOp) (i : ℕ) : String :=
  ((op.opType.operands[i]?).map (·.name)).getD ""

def resultName (op : OperationOp) (i : ℕ) : String :=
  ((op.opType.results[i]?).map (·.name)).getD ""

def isVariadicOperand (op : OperationOp) (i : ℕ) : Bool :=
  ((op.opType.operands[i]?).map fun operand ↦ operand.type.isVariadic).getD false

def isVariadicRegion (op : OperationOp) (i : ℕ) : Bool :=
  ((op.opRegions.regions[i]?).map fun region ↦ region.attr.isVariadic).getD false

/-- The first thing of this name, where attributes come before operands, results, successors and
regions. -/
def findVariable (op : OperationOp) (name : String) : Option Variable :=
  ((op.opAttrs.findIdx? fun attr ↦ attr.1 == name).map .attr).or <|
  ((op.opType.operands.findIdx? fun operand ↦ operand.name == name).map .operand).or <|
  ((op.opType.results.findIdx? fun result ↦ result.name == name).map .result).or <|
  ((op.opSuccs.successors.findIdx? fun succ ↦ succ.name == name).map .successor).or <|
  (op.opRegions.regions.findIdx? fun region ↦ region.name == name).map .region

def bindVariable (op : OperationOp) (isTopLevel : Bool) (name : String) (seen : Seen) :
    Variable → Except FormatError Seen
  | .attr i =>
    if isTopLevel then
      if i ∈ seen.attrs then .error (.bound "attribute" name)
      else .ok { seen with attrs := i :: seen.attrs }
    else .ok seen
  | .operand i =>
    if isTopLevel then
      if seen.hasAllOperands ∨ i ∈ seen.operands then .error (.bound "operand" name)
      else .ok { seen with operands := i :: seen.operands }
    else .ok seen
  | .result _ =>
    if isTopLevel then err "results can not be used at the top level" else .ok seen
  | .successor i =>
    if !isTopLevel then err "successors can only be used at the top level"
    else if seen.hasAllSuccessors ∨ i ∈ seen.successors then .error (.bound "successor" name)
    else .ok { seen with successors := i :: seen.successors }
  | .region i =>
    if !isTopLevel then err "regions can only be used at the top level"
    else if i ∈ seen.regions then .error (.bound "region" name)
    else if isVariadicRegion op i then err "no support for variadic regions"
    else .ok { seen with regions := i :: seen.regions }

def bindAttrDict (isTopLevel : Bool) (seen : Seen) : Except FormatError Seen :=
  if !isTopLevel then err "'attr-dict' directive can only be used as a top-level directive"
  else if seen.hasAttrDict then err "'attr-dict' directive has already been seen"
  else .ok { seen with hasAttrDict := true }

/-- Also the argument of a type directive counts. -/
def bindOperands (isTopLevel : Bool) (seen : Seen) : Except FormatError Seen :=
  if isTopLevel && (seen.hasAllOperands || !seen.operands.isEmpty) then .error (.overlap "operands")
  else .ok { seen with hasAllOperands := true }

def bindResults (isTopLevel : Bool) (seen : Seen) : Except FormatError Seen :=
  if isTopLevel then err "'results' directive can not be used as a top-level directive"
  else .ok seen

def bindSuccessors (isTopLevel : Bool) (seen : Seen) : Except FormatError Seen :=
  if !isTopLevel then err "'successors' is only valid as a top-level directive"
  else if seen.hasAllSuccessors || !seen.successors.isEmpty then .error (.overlap "successors")
  else .ok { seen with hasAllSuccessors := true }

/-- A type directive gives the types of its argument. -/
def bindTypes (op : OperationOp) (seen : Seen) : TypeArg → Except FormatError Seen
  | .operand i =>
    if seen.allOperandTypes ∨ i ∈ seen.operandTypes then .error (.typeBound (operandName op i))
    else .ok { seen with operandTypes := i :: seen.operandTypes }
  | .result i =>
    if seen.allResultTypes ∨ i ∈ seen.resultTypes then .error (.typeBound (resultName op i))
    else .ok { seen with resultTypes := i :: seen.resultTypes }
  | .operands =>
    if seen.allOperandTypes || !seen.operandTypes.isEmpty then .error (.allTypesBound "operands")
    else .ok { seen with allOperandTypes := true }
  | .results =>
    if seen.allResultTypes || !seen.resultTypes.isEmpty then .error (.allTypesBound "results")
    else .ok { seen with allResultTypes := true }

/-! ## The parser -/

abbrev FormatParser (α : Type) := Parser FormatToken Seen FormatError α

def consumeToken : FormatParser Unit :=
  modify fun s ↦ { s with tokens := s.tokens.tail }

def parseToken (kind : FormatToken) (message : String) : FormatParser Unit := fun s ↦
  match s.tokens with
  | [] => err message
  | token :: rest => if token = kind then .ok ((), { s with tokens := rest }) else err message

/-- Checks what has been seen, and adds to it. -/
def bindSeen (bind : Seen → Except FormatError Seen) : FormatParser Unit := fun s ↦
  (bind s.state).map fun seen ↦ ((), { s with state := seen })

/-- The spelling of a token without its first character, where it can be a name. -/
def FormatToken.dropFront : FormatToken → Option String
  | .var name => some name
  | .identifier text => some (text.drop 1).toString
  | .keyword name => some (name.drop 1).toString
  | .literal text => some (text ++ "`")
  | _ => none

/-- Any token is taken for a variable. -/
def parseVariable (op : OperationOp) (isTopLevel : Bool) : FormatParser Variable := do
  let token := (← get).tokens.head?
  consumeToken
  match token.bind FormatToken.dropFront with
  | none => throw (.other
      "expected variable to refer to an argument, result, successor, or region" none)
  | some name =>
    match findVariable op name with
    | none => throw (.other
        "expected variable to refer to an argument, result, successor, or region" none)
    | some var => do
      bindSeen fun seen ↦ bindVariable op isTopLevel name seen var
      return var

def parseLiteral (text : String) : FormatParser Element := do
  consumeToken
  if isValidLiteral text then return .literal text
  else throw (.other "expected valid literal" none)

def parseSymbolDirective (op : OperationOp) : FormatParser Element := do
  parseToken .lparen "expected `(` before argument list"
  let attr ← parseVariable op false
  parseToken .rparen "expected `)` after argument list"
  match attr with
  | .attr i => return .symbol i
  | _ => throw (.other "'symbol' directive expects attribute operand" none)

/-- Which elements can be the argument of a type directive. -/
def typeOperand : Item → Except FormatError TypeArg
  | .element (.var (.operand i)) => .ok (.operand i)
  | .element (.var (.result i)) => .ok (.result i)
  | .element .operands => .ok .operands
  | .element .results => .ok .results
  | .element (.literal _) => err "'type' directive operand expects variable or directive operand"
  | _ => err "invalid argument to 'type' directive"

section Nested

variable (op : OperationOp) (parseElement : Bool → FormatParser Item)

def parseTypeDirectiveOperand : FormatParser TypeArg := do
  let item ← parseElement false
  let arg ← StateT.lift (typeOperand item)
  bindSeen fun seen ↦ bindTypes op seen arg
  return arg

def parseTypeDirective (isTopLevel : Bool) : FormatParser Element := do
  if !isTopLevel then throw (.other "'type' is only valid as a top-level directive" none)
  parseToken .lparen "expected '(' before argument list"
  let operand ← parseTypeDirectiveOperand op parseElement
  parseToken .rparen "expected ')' after argument list"
  return .type operand

def parseFunctionalTypeDirective (isTopLevel : Bool) : FormatParser Element := do
  if !isTopLevel then
    throw (.other "'functional-type' is only valid as a top-level directive" none)
  parseToken .lparen "expected '(' before argument list"
  let inputs ← parseTypeDirectiveOperand op parseElement
  parseToken .comma "expected ',' after inputs argument"
  let outputs ← parseTypeDirectiveOperand op parseElement
  parseToken .rparen "expected ')' after argument list"
  return .functionalType inputs outputs

def parseDirective (isTopLevel : Bool) (name : String) : FormatParser Element := do
  consumeToken
  match name with
  | "attr-dict" => do
    bindSeen (bindAttrDict isTopLevel)
    return .attrDict false
  | "attr-dict-with-keyword" => do
    bindSeen (bindAttrDict isTopLevel)
    return .attrDict true
  | "functional-type" => parseFunctionalTypeDirective op parseElement isTopLevel
  | "operands" => do
    bindSeen (bindOperands isTopLevel)
    return .operands
  | "results" => do
    bindSeen (bindResults isTopLevel)
    return .results
  | "successors" => do
    bindSeen (bindSuccessors isTopLevel)
    return .successors
  | "type" => parseTypeDirective op parseElement isTopLevel
  | "symbol" => parseSymbolDirective op
  | _ => throw (.other "unknown directive" none)

end Nested

/-! ## Optional groups -/

/-- The elements of a group that have been read, with the operands among them and the anchor. -/
structure Group where
  elements : List Element
  seenVariables : List ℕ
  anchorIdx : Option ℕ

/-- Which elements can be in a group, and which of them can anchor it. -/
def checkChild (md : Metadata) (op : OperationOp) (isAnchor : Bool) :
    Element → Except FormatError Unit
  | .var (.attr i) =>
    if isAnchor && !((op.opAttrs[i]?).any fun attr ↦ md.isOptional attr.2) then
      err "only optional attributes can be used to anchor an optional group"
    else .ok ()
  | .var (.operand i) =>
    if isVariadicOperand op i then .ok ()
    else err "only variable length operands can be used within an optional group"
  | .literal _ | .type _ | .functionalType .. =>
    if isAnchor then err "only variables can be used to anchor an optional group" else .ok ()
  | _ => err "only literals, types, and variables can be used within an optional group"

/-- The operand that an element reads. -/
def Element.operand? : Element → Option ℕ
  | .var (.operand i) => some i
  | _ => none

/-- A type directive in a group is about an operand of the group. -/
def checkTypeOperand (seenVariables : List ℕ) : TypeArg → Bool
  | .operand i => i ∈ seenVariables
  | _ => false

def checkTypeOperands (seenVariables : List ℕ) : Element → Bool
  | .type operand => checkTypeOperand seenVariables operand
  | .functionalType inputs outputs =>
    checkTypeOperand seenVariables inputs && checkTypeOperand seenVariables outputs
  | _ => true

def isFirstElement : Element → Bool
  | .literal _ | .var (.operand _) => true
  | _ => false

/-- What is checked of a group when it is complete. -/
def checkGroup (group : Group) : Except FormatError Item :=
  match group.anchorIdx with
  | none => err "optional group specified no anchor element"
  | some anchor =>
    if !(group.elements.head?.any isFirstElement) then
      err "first element of an operand group must be a literal or operand"
    else if !(group.elements.all (checkTypeOperands group.seenVariables)) then
      err "type directive can only refer to variables within the optional group"
    else .ok (.optional group.elements anchor)

section Optional

variable (md : Metadata) (op : OperationOp) (parseElement : Bool → FormatParser Item)

/-- A caret after an element makes it the anchor. -/
def parseAnchor (group : Group) : FormatParser Bool := do
  if (← get).tokens.head? = some .caret then
    if group.anchorIdx.isSome then
      throw (.other "only one element can be marked as the anchor of an optional group" none)
    consumeToken
    return true
  else return false

def parseOptionalChildElement (group : Group) : FormatParser Group := do
  let item ← parseElement true
  let isAnchor ← parseAnchor group
  match item with
  | .optional .. => throw (.other
      "only literals, types, and variables can be used within an optional group" none)
  | .element child => do
    StateT.lift (checkChild md op isAnchor child)
    return {
      elements := group.elements ++ [child]
      seenVariables := group.seenVariables ++ child.operand?.toList
      anchorIdx := if isAnchor then some group.elements.length else group.anchorIdx }

/-- The elements of a group up to the closing parenthesis. -/
def parseOptionalElements : ℕ → Group → FormatParser Group
  | 0, _ => throw .outOfFuel
  | fuel + 1, group => do
    let group ← parseOptionalChildElement md op parseElement group
    if (← get).tokens.head? = some .rparen then return group
    else parseOptionalElements fuel group

def parseOptional (fuel : ℕ) (isTopLevel : Bool) : FormatParser Item := do
  if !isTopLevel then
    throw (.other "optional groups can only be used as top-level elements" none)
  consumeToken
  let group ← parseOptionalElements md op parseElement fuel ⟨[], [], none⟩
  consumeToken
  parseToken .question "expected '?' after optional group"
  StateT.lift (checkGroup group)

end Optional

def parseElement (md : Metadata) (op : OperationOp) : ℕ → Bool → FormatParser Item
  | 0, _ => throw .outOfFuel
  | fuel + 1, isTopLevel => do
    match (← get).tokens.head? with
    | some (.keyword name) =>
      .element <$> parseDirective op (parseElement md op fuel) isTopLevel name
    | some (.literal text) => .element <$> parseLiteral text
    | some .lparen => parseOptional md op (parseElement md op fuel) fuel isTopLevel
    | some (.var _) => (fun var ↦ .element (.var var)) <$> parseVariable op isTopLevel
    | _ => throw (.other "expected directive, literal, variable, or optional group" none)

def parseElements (md : Metadata) (op : OperationOp) : ℕ → FormatParser (List Item)
  | 0 => throw .outOfFuel
  | fuel + 1 => do
    if (← get).tokens.isEmpty then return []
    else
      let item ← parseElement md op fuel true
      let items ← parseElements md op fuel
      return item :: items

/-! ## Verification -/

/-- A value of the op, as far as its type is concerned. -/
structure ValueRef where
  kind : ValueKind
  idx : ℕ
  deriving DecidableEq, Repr

/-- Where the generated parser takes the type of a value from. -/
inductive TypeResolution where
  /-- the format gives the type -/
  | given
  | builder (text : String)
  | ofValue (value : ValueRef)
  deriving DecidableEq, Repr

/-- A format that has been accepted. -/
structure OperationFormat where
  items : List Item
  allOperands : Bool
  allOperandTypes : Bool
  allResultTypes : Bool
  resultTypes : List TypeResolution
  operandTypes : List TypeResolution

/-- The next literal is a colon, where optional groups and attribute dictionaries are skipped. -/
def nextIsColon : List Item → Bool
  | .optional .. :: rest => nextIsColon rest
  | .element (.attrDict _) :: rest => nextIsColon rest
  | .element (.literal text) :: _ => text == ":"
  | _ => false

/-- The attribute that an element reads, if its type is not known from its constraint. -/
def untypedAttribute (md : Metadata) (op : OperationOp) : Element → Option String
  | .var (.attr i) =>
    (op.opAttrs[i]?).bind fun attr ↦
      if (md.attrTypeBuilder attr.2).isSome then none else some attr.1
  | _ => none

def colonError (name : String) : Except FormatError Unit :=
  err <| s!"format ambiguity caused by `:` literal found after attribute `{name}` " ++
    "which does not have a buildable type"

/-- The elements of a group, with what comes after the group. -/
def verifyGroupAttributes (md : Metadata) (op : OperationOp) (after : List Item) :
    List Element → Except FormatError Unit
  | [] => .ok ()
  | element :: elements =>
    match untypedAttribute md op element with
    | some name =>
      if nextIsColon after || nextIsColon (elements.map .element) then colonError name
      else verifyGroupAttributes md op after elements
    | none => verifyGroupAttributes md op after elements

/-- No colon comes after an attribute whose type is not known. -/
def verifyAttributes (md : Metadata) (op : OperationOp) : List Item → Except FormatError Unit
  | [] => .ok ()
  | .optional elements _ :: rest => do
    verifyGroupAttributes md op rest elements
    verifyAttributes md op rest
  | .element element :: rest =>
    match untypedAttribute md op element with
    | some name => if nextIsColon rest then colonError name else verifyAttributes md op rest
    | none => verifyAttributes md op rest

/-- Values without a type of their own get the type of the first value that has one. -/
def handleSameTypesConstraint (op : OperationOp) (seen : Seen) (includeResults : Bool)
    (variableTyResolver : String → Option ValueRef) : String → Option ValueRef :=
  let operand := (List.range op.opType.operands.length).find? (· ∈ seen.operandTypes)
  let result := (List.range op.opType.results.length).find? (· ∈ seen.resultTypes)
  let resolver := (operand.map (ValueRef.mk .operand)).or
    (if includeResults then result.map (ValueRef.mk .result) else none)
  match resolver with
  | none => variableTyResolver
  | some resolver => fun name ↦
    let isOperand := (List.range op.opType.operands.length).any fun i ↦
      decide (i ∉ seen.operandTypes) && operandName op i == name
    let isResult := (List.range op.opType.results.length).any fun i ↦
      decide (i ∉ seen.resultTypes) && resultName op i == name
    if name ≠ "" && (isOperand || includeResults && isResult) then some resolver
    else variableTyResolver name

/-- The first trait of this name, if it takes its parameters. -/
def getTrait (op : OperationOp) (name : String) : Bool :=
  (op.opTraits.find? fun trait ↦ trait.name == name).any fun trait ↦ trait.parameters.isEmpty

def variableTyResolver (op : OperationOp) (seen : Seen) : String → Option ValueRef :=
  let sameOperands :=
    if getTrait op "SameTypeOperands" then handleSameTypesConstraint op seen false fun _ ↦ none
    else fun _ ↦ none
  if getTrait op "SameOperandsAndResultType" then
    handleSameTypesConstraint op seen true sameOperands
  else sameOperands

def notFound {α : Type} (kind : String) (i : ℕ) (name : String) : Except FormatError α :=
  .error (.other s!"{kind} #{i}, named '{name}', not found"
    (some s!"suggest adding a '${name}' directive to the custom assembly format"))

def notBuildable {α : Type} (kind : String) (i : ℕ) (name : String) : Except FormatError α :=
  .error (.other
    (s!"type of {kind} #{i}, named '{name}', is not buildable and " ++
      "a buildable type cannot be inferred")
    (some ("suggest adding a type constraint to the operation or adding a " ++
      s!"'type(${name})' directive to the custom assembly format")))

section Verify

variable (md : Metadata) (op : OperationOp) (seen : Seen)

def verifyOperand (operand : NamedType) (i : ℕ) : Except FormatError TypeResolution :=
  if !seen.hasAllOperands && i ∉ seen.operands then notFound "operand" i operand.name
  else if seen.allOperandTypes ∨ i ∈ seen.operandTypes then .ok .given
  else match variableTyResolver op seen operand.name with
    | some value => .ok (.ofValue value)
    | none =>
      match md.typeBuilder operand.type with
      | none => notBuildable "operand" i operand.name
      | some builder =>
        if seen.hasAllOperands && operand.type.isVariadic then
          notBuildable "operand" i operand.name
        else .ok (.builder builder)

def verifyResult (result : NamedType) (i : ℕ) : Except FormatError TypeResolution :=
  if seen.allResultTypes ∨ i ∈ seen.resultTypes then .ok .given
  else match variableTyResolver op seen result.name with
    | some value => .ok (.ofValue value)
    | none =>
      match md.typeBuilder result.type with
      | none => notBuildable "result" i result.name
      | some builder =>
        if result.type.isVariadic then notBuildable "result" i result.name
        else .ok (.builder builder)

def verifyOperands : Except FormatError (List TypeResolution) :=
  op.opType.operands.zipIdx.mapM fun (operand, i) ↦ verifyOperand md op seen operand i

def verifyResults : Except FormatError (List TypeResolution) :=
  op.opType.results.zipIdx.mapM fun (result, i) ↦ verifyResult md op seen result i

def verifySuccessors : Except FormatError Unit :=
  if seen.hasAllSuccessors then .ok ()
  else match op.opSuccs.successors.zipIdx.find? (·.2 ∉ seen.successors) with
    | none => .ok ()
    | some (succ, i) => notFound "successor" i succ.name

def verifyRegions : Except FormatError Unit :=
  match op.opRegions.regions.zipIdx.find? (·.2 ∉ seen.regions) with
  | none => .ok ()
  | some (region, i) => notFound "region" i region.name

end Verify

/-- The checks of `parse` after all elements have been read. -/
def verifyFormat (md : Metadata) (op : OperationOp) (items : List Item) (seen : Seen) :
    Except FormatError OperationFormat := do
  if !seen.hasAttrDict then err "'attr-dict' directive not found in custom assembly format"
  verifyAttributes md op items
  let resultTypes ← verifyResults md op seen
  let operandTypes ← verifyOperands md op seen
  verifySuccessors op seen
  verifyRegions op seen
  return {
    items := items
    allOperands := .element .operands ∈ items
    allOperandTypes := seen.allOperandTypes
    allResultTypes := seen.allResultTypes
    resultTypes := resultTypes
    operandTypes := operandTypes }

def parse (md : Metadata) (op : OperationOp) (tokens : List FormatToken) :
    Except FormatError OperationFormat := do
  let (items, s) ← (parseElements md op (tokens.length + 2)).run ⟨tokens, .empty⟩
  verifyFormat md op items s.state

/-! ## Types in the generated parser -/

/-- Lists of types in the generated code. -/
inductive TypeList where
  /-- `[odsBuildableType…]` -/
  | buildable (idx : ℕ)
  /-- the variable with the suffix `Types` -/
  | types (name : String)
  deriving DecidableEq, Repr

/-- The statements that resolve types. Lists are concatenated, and operand lists are the variables
with the suffix `Operands`. -/
inductive ResolveStmt where
  | buildableType (idx : ℕ) (builder : String)
  | addTypes (types : TypeList)
  | resolveOperands (operands : List String) (types : List TypeList)
  deriving DecidableEq, Repr

def TypeResolution.builder? : TypeResolution → Option String
  | .builder text => some text
  | _ => none

/-- The builders in the order in which they are needed first. -/
def OperationFormat.buildableTypes (fmt : OperationFormat) : List String :=
  ((fmt.resultTypes ++ fmt.operandTypes).filterMap TypeResolution.builder?).eraseDups

def valueName (op : OperationOp) (value : ValueRef) : String :=
  match value.kind with
  | .operand => operandName op value.idx
  | .result => resultName op value.idx

def emitTypeResolver (op : OperationOp) (fmt : OperationFormat) (curVar : String) :
    TypeResolution → TypeList
  | .builder text => .buildable (fmt.buildableTypes.idxOf text)
  | .ofValue value => .types (valueName op value)
  | .given => .types curVar

def emitTypeResolvers (op : OperationOp) (fmt : OperationFormat) (values : List NamedType)
    (resolvers : List TypeResolution) : List TypeList :=
  (values.zip resolvers).map fun (value, resolver) ↦ emitTypeResolver op fmt value.name resolver

def genParserTypeResolution (op : OperationOp) (fmt : OperationFormat) : List ResolveStmt :=
  let builders := fmt.buildableTypes.zipIdx.map fun (builder, idx) ↦ .buildableType idx builder
  let results :=
    if fmt.allResultTypes then [.addTypes (.types "allResult")]
    else (emitTypeResolvers op fmt op.opType.results fmt.resultTypes).map .addTypes
  let operandNames := op.opType.operands.map (·.name)
  let operandTypes := emitTypeResolvers op fmt op.opType.operands fmt.operandTypes
  let operands :=
    if op.opType.operands.isEmpty then []
    else if fmt.allOperandTypes then
      [.resolveOperands (if fmt.allOperands then ["allOperand"] else operandNames)
        [.types "allOperand"]]
    else if fmt.allOperands then [.resolveOperands ["allOperand"] operandTypes]
    else (operandNames.zip operandTypes).map fun (name, types) ↦ .resolveOperands [name] [types]
  builders ++ results ++ operands

end DeclarativeMlir.Embed.OpFormat

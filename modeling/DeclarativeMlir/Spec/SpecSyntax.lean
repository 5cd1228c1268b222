import DeclarativeMlir.Library.TokenParsing
import DeclarativeMlir.Spec.OpSpec

/-!
# The syntax of spec operations

The custom printers and parsers of `dmc.Op`, `dmc.Type`, `dmc.Attr` and `dmc.Alias`, over lists of
tokens. The text of a type or of an attribute is one token, which stands for what it parses to.
-/

namespace DeclarativeMlir.Spec

open TokenParsing

/-! ## Tokens -/

inductive Token where
  /-- a bare identifier or a keyword -/
  | word (text : String)
  /-- a name after `@` -/
  | symbol (name : String)
  | type (ty : Ty)
  | attr (attr : Attr)
  /-- an entry of an attribute dictionary -/
  | entry (name : String) (attr : Attr)
  | lparen
  | rparen
  | lsquare
  | rsquare
  | lbrace
  | rbrace
  | less
  | greater
  | comma
  | colon
  | arrow
  /-- text that is none of these -/
  | error (text : String)
  deriving DecidableEq, Repr

def isIdChar (c : Char) : Bool := c.isAlphanum || c == '_' || c == '$' || c == '.'

/-- The names of integer types are tokens of their own. -/
def isIntType : List Char → Bool
  | 's' :: 'i' :: digits | 'u' :: 'i' :: digits | 'i' :: digits =>
    !digits.isEmpty && digits.all Char.isDigit
  | _ => false

/-- The text of a token that `parseKeyword` takes. -/
def isKeyword (text : String) : Bool :=
  match text.toList with
  | [] => false
  | c :: cs => (c.isAlpha || c == '_') && cs.all isIdChar && !isIntType (c :: cs)

/-- The tokens of a name that is printed as it is. -/
structure Lexer where
  lexName : String → List Token
  lexName_keyword : ∀ name, isKeyword name = true → lexName name = [.word name]

abbrev SpecParser (α : Type) := Parser Token α

def parseKeyword : SpecParser String := token fun
  | .word text => if isKeyword text then some text else none
  | _ => none

def parseSymbolName : SpecParser String := token fun
  | .symbol name => some name
  | _ => none

def parseType : SpecParser Ty := token fun
  | .type ty => some ty
  | _ => none

/-- `parseSingleAttribute` -/
def parseAttribute : SpecParser Attr := token fun
  | .attr attr => some attr
  | .type ty => some (.type ty)
  | _ => none

def parseEntry : SpecParser (String × Attr) := token fun
  | .entry name attr => some (name, attr)
  | _ => none

/-- A type attribute is printed as its type. -/
def printAttribute : Attr → List Token
  | .type ty => [.type ty]
  | attr => [.attr attr]

section

variable (lexer : Lexer)

/-! ## Attribute dictionaries -/

def printAttrDict (attrs : List (String × Attr)) : List Token :=
  .lbrace :: (interleave .comma (fun (name, attr) ↦ [.entry name attr]) attrs ++ [.rbrace])

def printOptionalAttrDict (attrs : List (String × Attr)) : List Token :=
  if attrs.isEmpty then [] else printAttrDict attrs

def parseOptionalAttrDict : SpecParser (List (String × Attr)) := do
  if ← optional .lbrace then
    if ← optional .rbrace then return []
    else
      let attrs ← sepList parseEntry .comma
      expect .rbrace
      return attrs
  else return []

/-! ## Op types -/

def printNamedType (ty : NamedType) : List Token :=
  lexer.lexName ty.name ++ [.colon, .type ty.type]

def parseNamedType : SpecParser NamedType := do
  let name ← parseKeyword
  expect .colon
  let type ← parseType
  return ⟨name, type⟩

def printValueList (types : List NamedType) : List Token :=
  .lparen :: (interleave .comma (printNamedType lexer) types ++ [.rparen])

def isKeywordToken : Token → Bool
  | .word text => isKeyword text
  | _ => false

def parseValueList : SpecParser (List NamedType) := do
  expect .lparen
  if ← peek isKeywordToken then
    let types ← sepList parseNamedType .comma
    expect .rparen
    return types
  else
    expect .rparen
    return []

def printOpType (opType : OpType) : List Token :=
  printValueList lexer opType.operands ++ (.arrow :: printValueList lexer opType.results)

/-- Names are unique among the operands and among the results. -/
def OpType.getChecked (operands results : List NamedType) : Option OpType :=
  if h : (operands.map (·.name)).Nodup ∧ (results.map (·.name)).Nodup then
    some ⟨operands, results, h.1, h.2⟩
  else none

def parseOpType : SpecParser OpType := do
  let operands ← parseValueList
  expect .arrow
  let results ← parseValueList
  (OpType.getChecked operands results : Option OpType)

/-! ## Regions and successors -/

def printOpRegion : RegionConstraint → List Token
  | .any => [.word "Any"]
  | .sized numBlocks => [.word "Sized", .less, .attr (.integer numBlocks), .greater]
  | .isolatedFromAbove => [.word "IsolatedFromAbove"]
  | .variadic constraint =>
    .word "Variadic" :: .less :: (printOpRegion constraint ++ [.greater])

/-- The fuel bounds the nesting. -/
def parseOpRegion : ℕ → SpecParser RegionConstraint
  | 0 => failure
  | fuel + 1 => do
    let name ← parseKeyword
    if name = "Any" then return .any
    else if name = "Sized" then
      expect .less
      let sizeAttr ← parseAttribute
      expect .greater
      match sizeAttr with
      | .integer numBlocks => return .sized numBlocks
      | _ => failure
    else if name = "IsolatedFromAbove" then return .isolatedFromAbove
    else if name = "Variadic" then
      expect .less
      let constraint ← parseOpRegion fuel
      expect .greater
      return .variadic constraint
    else failure

def printOpSuccessor : SuccessorConstraint → List Token
  | .any => [.word "Any"]
  | .variadic constraint =>
    .word "Variadic" :: .less :: (printOpSuccessor constraint ++ [.greater])

def parseOpSuccessor : ℕ → SpecParser SuccessorConstraint
  | 0 => failure
  | fuel + 1 => do
    let name ← parseKeyword
    if name = "Any" then return .any
    else if name = "Variadic" then
      expect .less
      let constraint ← parseOpSuccessor fuel
      expect .greater
      return .variadic constraint
    else failure

def printNamedConstraint {C : Type} (print : C → List Token) (constraint : NamedConstraint C) :
    List Token :=
  lexer.lexName constraint.name ++ (.colon :: print constraint.attr)

/-- A constraint is no longer than the input. -/
def parseNamedConstraint {C : Type} (parse : ℕ → SpecParser C) :
    SpecParser (NamedConstraint C) := do
  let name ← parseKeyword
  expect .colon
  let attr ← fun input ↦ (parse input.length).run input
  return ⟨name, attr⟩

/-- An optional list between brackets. -/
def printOptionalConstraintList {C : Type} (print : C → List Token) (left right : Token)
    (constraints : List (NamedConstraint C)) : List Token :=
  if constraints.isEmpty then []
  else left ::
    (interleave .comma (printNamedConstraint lexer print) constraints ++ [right])

def parseOptionalConstraintList {C : Type} (parse : ℕ → SpecParser C) (left right : Token) :
    SpecParser (List (NamedConstraint C)) := do
  if ← optional left then
    let constraints ← sepList (parseNamedConstraint parse) .comma
    expect right
    return constraints
  else return []

def OpRegion.getChecked (regions : List (NamedConstraint RegionConstraint)) : Option OpRegion :=
  if h : (regions.map (·.name)).Nodup then some ⟨regions, h⟩ else none

def OpSuccessor.getChecked (successors : List (NamedConstraint SuccessorConstraint)) :
    Option OpSuccessor :=
  if h : (successors.map (·.name)).Nodup then some ⟨successors, h⟩ else none

def printOptionalRegionList (opRegions : OpRegion) : List Token :=
  printOptionalConstraintList lexer printOpRegion .lparen .rparen opRegions.regions

def parseOptionalRegionList : SpecParser OpRegion := do
  let regions ← parseOptionalConstraintList parseOpRegion .lparen .rparen
  (OpRegion.getChecked regions : Option OpRegion)

def printOptionalSuccessorList (opSuccs : OpSuccessor) : List Token :=
  printOptionalConstraintList lexer printOpSuccessor .lsquare .rsquare opSuccs.successors

def parseOptionalSuccessorList : SpecParser OpSuccessor := do
  let successors ← parseOptionalConstraintList parseOpSuccessor .lsquare .rsquare
  (OpSuccessor.getChecked successors : Option OpSuccessor)

/-! ## Traits -/

def printOptionalParameterList (params : List Attr) : List Token :=
  if params.isEmpty then []
  else .less :: (interleave .comma printAttribute params ++ [.greater])

def parseOptionalParameterList : SpecParser (List Attr) := do
  if ← optional .less then
    let params ← sepList parseAttribute .comma
    expect .greater
    return params
  else return []

def printOpTrait (trait : OpTraitAttr) : List Token :=
  .symbol trait.name :: printOptionalParameterList trait.parameters

def parseOpTrait : SpecParser OpTraitAttr := do
  let name ← parseSymbolName
  let parameters ← parseOptionalParameterList
  return ⟨name, parameters⟩

def printOptionalOpTraitList (traits : List OpTraitAttr) : List Token :=
  if traits.isEmpty then []
  else .word "traits" :: .lsquare :: (interleave .comma printOpTrait traits ++ [.rsquare])

def parseOptionalOpTraitList : SpecParser (List OpTraitAttr) := do
  if ← optional (.word "traits") then
    expect .lsquare
    let traits ← sepList parseOpTrait .comma
    expect .rsquare
    return traits
  else return []

/-! ## `dmc.Op` -/

def OperationOp.print (op : OperationOp) : List Token :=
  .symbol op.name :: (printOpType lexer op.opType ++ (printAttrDict op.opAttrs ++
    (printOptionalRegionList lexer op.opRegions ++ (printOptionalOpTraitList op.opTraits ++
      (printOptionalSuccessorList lexer op.opSuccs ++
        (.word "config" :: printOptionalAttrDict op.config))))))

def OperationOp.parse : SpecParser OperationOp := do
  let name ← parseSymbolName
  let opType ← parseOpType
  let opAttrs ← parseOptionalAttrDict
  let opRegions ← parseOptionalRegionList
  let opSuccs ← parseOptionalSuccessorList
  let opTraits ← parseOptionalOpTraitList
  if ← optional (.word "config") then
    let config ← parseOptionalAttrDict
    return { name, opType, opAttrs, opRegions, opSuccs, opTraits, config }
  else return { name, opType, opAttrs, opRegions, opSuccs, opTraits, config := [] }

/-! ## `dmc.Type` and `dmc.Attr` -/

/-- A constraint of the spec dialect, or an opaque attribute. -/
def Attr.isConstraint : Attr → Bool
  | ofType _ | constraint _ => true
  | _ => false

structure NamedParameter where
  name : String
  constraint : Attr
  isConstraint : constraint.isConstraint = true
  deriving DecidableEq

/-- An entry of the parameter array. The verifier does not look at the entries. -/
inductive Parameter where
  | named (param : NamedParameter)
  | other (attr : Attr)
  deriving DecidableEq

/-- The attributes of a `dmc.Type` or `dmc.Attr`. -/
structure ParametersOp where
  name : String
  params : List Parameter
  attrs : List (String × Attr)
  deriving DecidableEq

/-- The cast to `NamedParameter`. -/
def Parameter.getNamed : Parameter → Option NamedParameter
  | named param => some param
  | other _ => none

def printNamedParameter (param : NamedParameter) : List Token :=
  lexer.lexName param.name ++ (.colon :: printAttribute param.constraint)

def NamedParameter.getChecked (name : String) (constraint : Attr) : Option NamedParameter :=
  if h : constraint.isConstraint = true then some ⟨name, constraint, h⟩ else none

/-- A type in the place of a constraint stands for `OfType`. -/
def parseNamedParameter : SpecParser NamedParameter := do
  let name ← parseKeyword
  expect .colon
  let constraint ← parseAttribute
  match constraint with
  | .type ty => (NamedParameter.getChecked name (.ofType ty) : Option NamedParameter)
  | constraint => (NamedParameter.getChecked name constraint : Option NamedParameter)

/-- `printParameters` -/
def printParameters (params : List NamedParameter) : List Token :=
  if params.isEmpty then []
  else .less :: (interleave .comma (printNamedParameter lexer) params ++ [.greater])

/-- `ParameterList::parse` -/
def parseParameterList : SpecParser (List NamedParameter) := do
  if ← optional .less then
    let params ← sepList parseNamedParameter .comma
    expect .greater
    return params
  else return []

def parseParametersOp : SpecParser ParametersOp := do
  let name ← parseSymbolName
  let params ← parseParameterList
  let attrs ← parseOptionalAttrDict
  return ⟨name, params.map .named, attrs⟩

def TypeOp.print (op : ParametersOp) : Option (List Token) := do
  let params ← op.params.mapM Parameter.getNamed
  return .symbol op.name :: (printParameters lexer params ++ printOptionalAttrDict op.attrs)

def TypeOp.parse : SpecParser ParametersOp := parseParametersOp

/-- The attribute dictionary is not printed. -/
def AttributeOp.print (op : ParametersOp) : Option (List Token) := do
  let params ← op.params.mapM Parameter.getNamed
  return .symbol op.name :: printParameters lexer params

def AttributeOp.parse : SpecParser ParametersOp := parseParametersOp

/-! ## `dmc.Alias` -/

/-- The attributes of a `dmc.Alias`; `aliasedType` and `aliasedAttr` are read by their names. -/
structure AliasOp where
  name : String
  aliasedType : Option Attr
  aliasedAttr : Option Attr
  attrs : List (String × Attr)
  deriving DecidableEq

def AliasOp.getAliasedType (op : AliasOp) : Option Ty :=
  match op.aliasedType with
  | some (.type ty) => some ty
  | _ => none

def AliasOp.print (op : AliasOp) : Option (List Token) := do
  let aliased ← match op.getAliasedType with
    | some ty => some [Token.type ty]
    | none => op.aliasedAttr.map printAttribute
  return .symbol op.name :: .arrow :: (aliased ++ printOptionalAttrDict op.attrs)

def isTypeToken : Token → Bool
  | .type _ => true
  | _ => false

def AliasOp.parse : SpecParser AliasOp := do
  let name ← parseSymbolName
  expect .arrow
  if ← peek isTypeToken then
    let ty ← parseType
    let attrs ← parseOptionalAttrDict
    return ⟨name, some (.type ty), none, attrs⟩
  else
    let attr ← parseAttribute
    let attrs ← parseOptionalAttrDict
    return ⟨name, none, some attr, attrs⟩

end

/-! ## Verifiers -/

def Attr.isString : Attr → Bool
  | string _ => true
  | _ => false

def Attr.isType : Attr → Bool
  | type _ => true
  | _ => false

/-- The verifier of ops with an assembly format. -/
def verifyFormat (attrs : List (String × Attr)) : Except String Unit :=
  if (attrs.lookup "fmt").any (!·.isString) then
    .error "expected attribute 'fmt' to be a string attribute"
  else .ok ()

def AliasOp.verify (op : AliasOp) : Except String Unit := do
  if op.getAliasedType.isNone && op.aliasedAttr.isNone then
    .error "is neither an alias to a type nor an attribute"
  if op.getAliasedType.isSome && op.aliasedAttr.isSome then
    .error "cannot be an alias to both a type and an attribute"
  if (op.attrs.lookup "builder").any (!·.isString) then
    .error "expected a string attribute for `builder`"
  if (op.attrs.lookup "type").isSome then
    if op.aliasedAttr.isNone then .error "only an attribute alias can specify a type"
    if (op.attrs.lookup "type").any (!·.isType) then
      .error "expected a type attribute for `type`"

/-- The operations in the body of a `dmc.Dialect`. -/
inductive SpecOp where
  | operationOp (op : OperationOp)
  | typeOp (op : ParametersOp)
  | attributeOp (op : ParametersOp)
  | aliasOp (op : AliasOp)
  deriving DecidableEq

namespace SpecOp

def verify : SpecOp → Except String Unit
  | operationOp op => do
    verifyFormat op.config
    op.verify
  | typeOp op => verifyFormat op.attrs
  | attributeOp op => verifyFormat op.attrs
  | aliasOp op => op.verify

def print (lexer : Lexer) : SpecOp → Option (List Token)
  | operationOp op => some (.word "Op" :: op.print lexer)
  | typeOp op => (TypeOp.print lexer op).map (.word "Type" :: ·)
  | attributeOp op => (AttributeOp.print lexer op).map (.word "Attr" :: ·)
  | aliasOp op => op.print.map (.word "Alias" :: ·)

def parse : SpecParser SpecOp := do
  let name ← parseKeyword
  if name = "Op" then operationOp <$> OperationOp.parse
  else if name = "Type" then typeOp <$> TypeOp.parse
  else if name = "Attr" then attributeOp <$> AttributeOp.parse
  else if name = "Alias" then aliasOp <$> AliasOp.parse
  else failure

end SpecOp

end DeclarativeMlir.Spec

import DeclarativeMlir.Spec.AttrConstraints
import DeclarativeMlir.Spec.SpecSyntax

/-!
# The text of constraints

The printers and parsers of the type and attribute constraints. A text is a list of characters with
the texts of nested types and attributes as units, which the standard printer writes and the
standard parser delimits.
-/

namespace DeclarativeMlir.Spec

open TokenParsing

/-! ## Kinds and names -/

inductive TypeKind where
  | any
  | none
  | anyOf
  | allOf
  | anyInteger
  | anyI
  | anyIntOfWidths
  | anySignlessInteger
  | i
  | signlessIntOfWidths
  | anySignedInteger
  | si
  | signedIntOfWidths
  | anyUnsignedInteger
  | ui
  | unsignedIntOfWidths
  | index
  | anyFloat
  | f
  | floatOfWidths
  | bf16
  | anyComplex
  | complex
  | opaqueType
  | function
  | variadic
  | isa
  | py
  deriving DecidableEq, Repr

def TypeKind.getTypeName : TypeKind → String
  | any => "Any"
  | none => "None"
  | anyOf => "AnyOf"
  | allOf => "AllOf"
  | anyInteger => "AnyInteger"
  | anyI => "AnyI"
  | anyIntOfWidths => "AnyIntOfWidths"
  | anySignlessInteger => "AnySignlessInteger"
  | i => "I"
  | signlessIntOfWidths => "SignlessIntOfWidths"
  | anySignedInteger => "AnySignedInteger"
  | si => "SI"
  | signedIntOfWidths => "SignedIntOfWidths"
  | anyUnsignedInteger => "AnyUnsignedInteger"
  | ui => "UI"
  | unsignedIntOfWidths => "UnsignedIntOfWidths"
  | index => "Index"
  | anyFloat => "AnyFloat"
  | f => "F"
  | floatOfWidths => "FloatOfWidths"
  | bf16 => "BF16"
  | anyComplex => "AnyComplex"
  | complex => "Complex"
  | opaqueType => "Opaque"
  | function => "Function"
  | variadic => "Variadic"
  | isa => "Isa"
  | py => "Py"

/-- The cases of the string switch, in order. -/
def typeKinds : List TypeKind :=
  [.any, .none, .anyOf, .allOf, .anyInteger, .anyI, .anyIntOfWidths, .anySignlessInteger, .i,
    .signlessIntOfWidths, .anySignedInteger, .si, .signedIntOfWidths, .anyUnsignedInteger, .ui,
    .unsignedIntOfWidths, .index, .anyFloat, .f, .floatOfWidths, .bf16, .anyComplex, .complex,
    .opaqueType, .function, .variadic, .isa, .py]

/-- The kind of the class that the switch over type kinds acts on. -/
def SpecTypes.kindSwitch : TypeKind → TypeKind
  -- there is no case for `Function`, and `AnyType` is the default
  | .function => .any
  | kind => kind

inductive AttrKind where
  | any
  | bool
  | index
  | apInt
  | anyI
  | i
  | si
  | ui
  | f
  | string
  | type
  | unit
  | dictionary
  | elements
  | denseElements
  | elementsOf
  | rankedElements
  | stringElements
  | array
  | arrayOf
  | symbolRef
  | flatSymbolRef
  | constant
  | anyOf
  | allOf
  | ofType
  | optional
  | default
  | isa
  | py
  deriving DecidableEq, Repr

def AttrKind.getAttrName : AttrKind → String
  | any => "Any"
  | bool => "Bool"
  | index => "Index"
  | apInt => "APInt"
  | anyI => "AnyI"
  | i => "I"
  | si => "SI"
  | ui => "UI"
  | f => "F"
  | string => "String"
  | type => "Type"
  | unit => "Unit"
  | dictionary => "Dictionary"
  | elements => "Elements"
  | denseElements => "DenseElements"
  | elementsOf => "ElementsOf"
  | rankedElements => "Ranked"
  | stringElements => "StringElements"
  | array => "Array"
  | arrayOf => "ArrayOf"
  | symbolRef => "SymbolRef"
  | flatSymbolRef => "FlatSymbolRef"
  | constant => "Constant"
  | anyOf => "AnyOf"
  | allOf => "AllOf"
  | ofType => "OfType"
  | optional => "Optional"
  | default => "Default"
  | isa => "Isa"
  | py => "Py"

/-- The cases of the string switch, in order. -/
def attrKinds : List AttrKind :=
  [.any, .bool, .index, .apInt, .anyI, .i, .si, .ui, .f, .string, .type, .unit, .dictionary,
    .elements, .denseElements, .elementsOf, .rankedElements, .stringElements, .array, .arrayOf,
    .symbolRef, .flatSymbolRef, .constant, .anyOf, .allOf, .ofType, .optional, .default, .isa, .py]

/-- The switch over attribute kinds has a case for each of them. -/
def SpecAttrs.kindSwitch (kind : AttrKind) : AttrKind := kind

def LeafConstraint.kind : LeafConstraint → TypeKind
  | any => .any
  | none => .none
  | anyInteger => .anyInteger
  | anyI _ => .anyI
  | anyIntOfWidths _ => .anyIntOfWidths
  | anySignlessInteger => .anySignlessInteger
  | i _ => .i
  | signlessIntOfWidths _ => .signlessIntOfWidths
  | anySignedInteger => .anySignedInteger
  | si _ => .si
  | signedIntOfWidths _ => .signedIntOfWidths
  | anyUnsignedInteger => .anyUnsignedInteger
  | ui _ => .ui
  | unsignedIntOfWidths _ => .unsignedIntOfWidths
  | index => .index
  | anyFloat => .anyFloat
  | f _ => .f
  | floatOfWidths _ => .floatOfWidths
  | bf16 => .bf16
  | anyComplex => .anyComplex
  | opaqueType _ _ => .opaqueType
  | function => .function
  | isa _ _ => .isa
  | py _ => .py

def LeafAttr.kind : LeafAttr → AttrKind
  | any => .any
  | bool => .bool
  | index => .index
  | apInt => .apInt
  | anyI _ => .anyI
  | i _ => .i
  | si _ => .si
  | ui _ => .ui
  | f _ => .f
  | string => .string
  | type => .type
  | unit => .unit
  | dictionary => .dictionary
  | elements => .elements
  | denseElements => .denseElements
  | rankedElements _ => .rankedElements
  | stringElements => .stringElements
  | array => .array
  | symbolRef => .symbolRef
  | flatSymbolRef => .flatSymbolRef
  | isa _ _ => .isa
  | py _ => .py

/-! ## Printing -/

mutual

inductive TypeText where
  | builtin (type : BuiltinType)
  | complex (elTy : TypeText)
  | function (inputs results : List TypeText)
  /-- what the spec dialect prints for one of its types -/
  | dialect (body : List Piece)

inductive AttrText where
  | builtin (id : ℕ) (types : List TypeText) (attrs : List AttrText)
  | symbolRefAttr (root : String) (nested : List String)
  /-- what the spec dialect prints for one of its attributes -/
  | dialect (body : List Piece)

inductive Piece where
  | char (c : Char)
  | type (text : TypeText)
  | attr (text : AttrText)

end

def chars (text : String) : List Piece := text.toList.map .char

def angle (body : List Piece) : List Piece := .char '<' :: (body ++ [.char '>'])

/-- The text between quotation marks as it is. -/
def quoted (text : String) : List Piece := .char '"' :: (chars text ++ [.char '"'])

def interleaveComma : List (List Piece) → List Piece
  | [] => []
  | [item] => item
  | item :: item' :: items => item ++ .char ',' :: .char ' ' :: interleaveComma (item' :: items)

def printInteger (val : ℕ) : List Piece := chars val.repr

def printIntegerList (ints : List ℕ) : List Piece := interleaveComma (ints.map printInteger)

/-- The `print` method of the class that the switch picks. -/
def LeafConstraint.print (constraint : LeafConstraint) : List Piece :=
  let name := chars (SpecTypes.kindSwitch constraint.kind).getTypeName
  match constraint with
  | anyI width | i width | si width | ui width | f width => name ++ angle (printInteger width)
  | anyIntOfWidths widths | signlessIntOfWidths widths | signedIntOfWidths widths
  | unsignedIntOfWidths widths | floatOfWidths widths => name ++ printIntegerList widths
  | opaqueType dialectName typeName =>
    name ++ angle (quoted dialectName ++ .char ',' :: quoted typeName)
  | isa dialectRef typeRef => name ++ angle [.attr (.symbolRefAttr dialectRef [typeRef])]
  | py expr => name ++ angle (quoted expr)
  | any | none | anyInteger | anySignlessInteger | anySignedInteger | anyUnsignedInteger | index
  | anyFloat | bf16 | anyComplex | function => name

def printTypeList (types : List TypeText) : List Piece :=
  angle (interleaveComma (types.map fun type ↦ [.type type]))

mutual

/-- The standard printer, which leaves the types of the spec dialect to `SpecDialect::printType`. -/
def printTypeText : Ty → TypeText
  | .builtin type => .builtin type
  | .complex elTy => .complex (printTypeText elTy)
  | .function inputs results => .function (printTypeTexts inputs) (printTypeTexts results)
  | .leaf constraint => .dialect constraint.print
  | .anyOf types =>
    .dialect (chars TypeKind.anyOf.getTypeName ++ printTypeList (printTypeTexts types))
  | .allOf types =>
    .dialect (chars TypeKind.allOf.getTypeName ++ printTypeList (printTypeTexts types))
  | .complexOf type =>
    .dialect (chars TypeKind.complex.getTypeName ++ angle [.type (printTypeText type)])
  | .variadic type =>
    .dialect (chars TypeKind.variadic.getTypeName ++ angle [.type (printTypeText type)])

def printTypeTexts : List Ty → List TypeText
  | [] => []
  | type :: types => printTypeText type :: printTypeTexts types

end

/-- The `print` method of the class that the switch picks. -/
def LeafAttr.print (constraint : LeafAttr) : List Piece :=
  let name := chars (SpecAttrs.kindSwitch constraint.kind).getAttrName
  match constraint with
  | anyI width | i width | si width | ui width | f width => name ++ angle (printInteger width)
  | rankedElements dims => name ++ angle (printIntegerList dims)
  | isa dialectRef attrRef => name ++ angle [.attr (.symbolRefAttr dialectRef [attrRef])]
  | py expr => name ++ angle (quoted expr)
  | any | bool | index | apInt | string | type | unit | dictionary | elements | denseElements
  | stringElements | array | symbolRef | flatSymbolRef => name

def printAttrList (attrs : List AttrText) : List Piece :=
  angle (interleaveComma (attrs.map fun attr ↦ [.attr attr]))

mutual

/-- The standard printer, which leaves the attributes of the spec dialect to
`SpecDialect::printAttribute`. -/
def printAttrText : Attribute → AttrText
  | .builtin id types attrs => .builtin id (printTypeTexts types) (printAttrTexts attrs)
  | .symbolRefAttr root nested => .symbolRefAttr root nested
  | .leaf constraint => .dialect constraint.print
  | .elementsOf elTy =>
    .dialect (chars AttrKind.elementsOf.getAttrName ++ angle [.type (printTypeText elTy)])
  | .arrayOf attr =>
    .dialect (chars AttrKind.arrayOf.getAttrName ++ angle [.attr (printAttrText attr)])
  | .constant attr =>
    .dialect (chars AttrKind.constant.getAttrName ++ angle [.attr (printAttrText attr)])
  | .anyOf attrs =>
    .dialect (chars AttrKind.anyOf.getAttrName ++ printAttrList (printAttrTexts attrs))
  | .allOf attrs =>
    .dialect (chars AttrKind.allOf.getAttrName ++ printAttrList (printAttrTexts attrs))
  | .ofType type =>
    .dialect (chars AttrKind.ofType.getAttrName ++ angle [.type (printTypeText type)])
  | .optional baseAttr =>
    .dialect (chars AttrKind.optional.getAttrName ++ angle [.attr (printAttrText baseAttr)])
  | .default baseAttr defaultAttr =>
    .dialect (chars AttrKind.default.getAttrName ++
      angle [.attr (printAttrText baseAttr), .char ',', .attr (printAttrText defaultAttr)])

def printAttrTexts : List Attribute → List AttrText
  | [] => []
  | attr :: attrs => printAttrText attr :: printAttrTexts attrs

end

-- The equations are made once, here, and not by all the proofs below at the same time.
attribute [grind =] printTypeText printTypeTexts printAttrText printAttrTexts

/-! ## Parsing -/

/-- A character, or what the standard parser makes of the text of a type or an attribute. -/
inductive Lexeme where
  | char (c : Char)
  | type (type : Option Ty)
  | attr (attr : Option Attribute)

namespace DialectAsmParser

def isSpace : Lexeme → Bool
  | .char c => c == ' '
  | _ => false

/-- The longest run of characters that pass the test, and what comes after it. -/
def takeChars (test : Char → Bool) : List Lexeme → List Char × List Lexeme
  | .char c :: input =>
    if test c then
      let (taken, rest) := takeChars test input
      (c :: taken, rest)
    else ([], .char c :: input)
  | input => ([], input)

def parseOptionalPunctuation (c : Char) : Parser Lexeme Bool := fun input ↦
  match input.dropWhile isSpace with
  | .char c' :: rest => if c' = c then some (true, rest) else some (false, input)
  | _ => some (false, input)

def parsePunctuation (c : Char) : Parser Lexeme Unit := do
  if ← parseOptionalPunctuation c then return () else failure

def parseLess : Parser Lexeme Unit := parsePunctuation '<'

def parseGreater : Parser Lexeme Unit := parsePunctuation '>'

def parseComma : Parser Lexeme Unit := parsePunctuation ','

def parseOptionalComma : Parser Lexeme Bool := parseOptionalPunctuation ','

def parseKeyword : Parser Lexeme String := fun input ↦
  let (word, rest) := takeChars isIdChar (input.dropWhile isSpace)
  if isKeyword (String.ofList word) then some (String.ofList word, rest) else none

/-- Whether an integer follows; then nothing is taken yet. -/
def startsInteger : Parser Lexeme Bool := fun input ↦
  some (!(takeChars Char.isDigit (input.dropWhile isSpace)).1.isEmpty, input)

/-- An integer that fits into the type of the destination. -/
def parseInteger (bound : ℕ) : Parser Lexeme ℕ := fun input ↦
  let (digits, rest) := takeChars Char.isDigit (input.dropWhile isSpace)
  let val := Nat.ofDigitChars 10 digits 0
  if digits.isEmpty then none else if val < bound then some (val, rest) else none

def parseType : Parser Lexeme Ty := fun input ↦
  match input.dropWhile isSpace with
  | .type (some type) :: rest => some (type, rest)
  | _ => none

def parseAttribute : Parser Lexeme Attribute := fun input ↦
  match input.dropWhile isSpace with
  | .attr (some attr) :: rest => some (attr, rest)
  | _ => none

def parseSymbolRefAttr : Parser Lexeme (String × List String) := fun input ↦
  match input.dropWhile isSpace with
  | .attr (some (.symbolRefAttr root nested)) :: rest => some ((root, nested), rest)
  | _ => none

def parseStringAttr (strings : StringLexer) : Parser Lexeme String := fun input ↦
  let (text, rest) := takeChars (fun _ ↦ true) (input.dropWhile isSpace)
  (strings.lex text).map fun (value, rest') ↦ (String.ofList value, rest'.map .char ++ rest)

/-- `<` parameters `>` -/
def parseParameters {α : Type} (parameters : Parser Lexeme α) : Parser Lexeme α := do
  parseLess
  let params ← parameters
  parseGreater
  return params

end DialectAsmParser

open DialectAsmParser

def parseIntegerList (bound : ℕ) : Parser Lexeme (List ℕ) := do
  if ← startsInteger then items (parseInteger bound) parseOptionalComma else return []

/-- The end of a parser: the construction is checked. -/
def checked {α : Type} (result : Option α) : Parser Lexeme α := fun input ↦
  result.map fun a ↦ (a, input)

def SimpleType.parse (constraint : LeafConstraint) : Parser Lexeme Ty := return .leaf constraint

def NumericWidthType.parse (verifyWidth : ℕ → Bool) (constraint : ℕ → LeafConstraint) :
    Parser Lexeme Ty := do
  let width ← parseParameters (parseInteger (2 ^ 32))
  checked (NumericWidthType.getChecked verifyWidth constraint width)

def NumericTypeOfWidths.parse (verifyWidth : ℕ → Bool) (constraint : List ℕ → LeafConstraint) :
    Parser Lexeme Ty := do
  let widths ← parseParameters (parseIntegerList (2 ^ 32))
  checked (NumericTypeOfWidths.getChecked verifyWidth constraint widths)

def parseTypeList (getChecked : List Ty → Option Ty) : Parser Lexeme Ty := do
  let baseTypes ← parseParameters (items DialectAsmParser.parseType parseOptionalComma)
  checked (getChecked baseTypes)

def ComplexType.parse : Parser Lexeme Ty := do
  let elBaseType ← parseParameters DialectAsmParser.parseType
  return .complexOf elBaseType

def VariadicType.parse : Parser Lexeme Ty := do
  let baseTy ← parseParameters DialectAsmParser.parseType
  return .variadic baseTy

def IsaType.parse : Parser Lexeme Ty := do
  let (root, nested) ← parseParameters parseSymbolRefAttr
  checked (IsaType.getChecked root nested)

def SimpleAttr.parse (constraint : LeafAttr) : Parser Lexeme Attribute := return .leaf constraint

def TypedAttr.parse (verifyWidth : ℕ → Bool) (constraint : ℕ → LeafAttr) :
    Parser Lexeme Attribute := do
  let width ← parseParameters (parseInteger (2 ^ 32))
  checked (TypedAttr.getChecked verifyWidth constraint width)

def ElementsOfAttr.parse : Parser Lexeme Attribute := do
  let elTy ← parseParameters DialectAsmParser.parseType
  return .elementsOf elTy

def RankedElementsAttr.parse : Parser Lexeme Attribute := do
  let dims ← parseParameters (parseIntegerList (2 ^ 63))
  checked (RankedElementsAttr.getChecked dims)

def ArrayOfAttr.parse : Parser Lexeme Attribute := do
  let constraint ← parseParameters DialectAsmParser.parseAttribute
  checked (ArrayOfAttr.getChecked constraint)

def ConstantAttr.parse : Parser Lexeme Attribute := do
  let constAttr ← parseParameters DialectAsmParser.parseAttribute
  return .constant constAttr

def parseAttrList (getChecked : List Attribute → Option Attribute) : Parser Lexeme Attribute := do
  let baseAttrs ← parseParameters (items DialectAsmParser.parseAttribute parseOptionalComma)
  checked (getChecked baseAttrs)

def OfTypeAttr.parse : Parser Lexeme Attribute := do
  let attrTy ← parseParameters DialectAsmParser.parseType
  return .ofType attrTy

def OptionalAttr.parse : Parser Lexeme Attribute := do
  let baseAttr ← parseParameters DialectAsmParser.parseAttribute
  return .optional baseAttr

def DefaultAttr.parse : Parser Lexeme Attribute := do
  let (baseAttr, defaultAttr) ← parseParameters do
    let baseAttr ← DialectAsmParser.parseAttribute
    parseComma
    let defaultAttr ← DialectAsmParser.parseAttribute
    return (baseAttr, defaultAttr)
  return .default baseAttr defaultAttr

def IsaAttr.parse : Parser Lexeme Attribute := do
  let (root, nested) ← parseParameters parseSymbolRefAttr
  checked (IsaAttr.getChecked root nested)

section Parse

variable (ctx : Context)

def OpaqueType.parse : Parser Lexeme Ty := do
  let (dialectName, typeName) ← parseParameters do
    let dialectName ← parseStringAttr ctx.strings
    parseComma
    let typeName ← parseStringAttr ctx.strings
    return (dialectName, typeName)
  checked (OpaqueType.getChecked dialectName typeName)

def PyType.parse : Parser Lexeme Ty := do
  let expr ← parseParameters (parseStringAttr ctx.strings)
  checked (PyType.getChecked ctx expr)

def PyAttr.parse : Parser Lexeme Attribute := do
  let expr ← parseParameters (parseStringAttr ctx.strings)
  checked (PyAttr.getChecked ctx expr)

/-- The `parse` method of each class. -/
def parseTypeOfKind : TypeKind → Parser Lexeme Ty
  | .any => SimpleType.parse .any
  | .none => SimpleType.parse .none
  | .anyOf => parseTypeList (AnyOfType.getChecked ctx)
  | .allOf => parseTypeList (AllOfType.getChecked ctx)
  | .anyInteger => SimpleType.parse .anyInteger
  | .anyI => NumericWidthType.parse verifyIntWidth .anyI
  | .anyIntOfWidths => NumericTypeOfWidths.parse verifyIntWidth .anyIntOfWidths
  | .anySignlessInteger => SimpleType.parse .anySignlessInteger
  | .i => NumericWidthType.parse verifyIntWidth .i
  | .signlessIntOfWidths => NumericTypeOfWidths.parse verifyIntWidth .signlessIntOfWidths
  | .anySignedInteger => SimpleType.parse .anySignedInteger
  | .si => NumericWidthType.parse verifyIntWidth .si
  | .signedIntOfWidths => NumericTypeOfWidths.parse verifyIntWidth .signedIntOfWidths
  | .anyUnsignedInteger => SimpleType.parse .anyUnsignedInteger
  | .ui => NumericWidthType.parse verifyIntWidth .ui
  | .unsignedIntOfWidths => NumericTypeOfWidths.parse verifyIntWidth .unsignedIntOfWidths
  | .index => SimpleType.parse .index
  | .anyFloat => SimpleType.parse .anyFloat
  | .f => NumericWidthType.parse verifyFloatWidth .f
  | .floatOfWidths => NumericTypeOfWidths.parse verifyFloatWidth .floatOfWidths
  | .bf16 => SimpleType.parse .bf16
  | .anyComplex => SimpleType.parse .anyComplex
  | .complex => ComplexType.parse
  | .opaqueType => OpaqueType.parse ctx
  | .function => SimpleType.parse .function
  | .variadic => VariadicType.parse
  | .isa => IsaType.parse
  | .py => PyType.parse ctx

def SpecDialect.parseType : Parser Lexeme Ty := do
  let typeName ← DialectAsmParser.parseKeyword
  match typeKinds.find? fun kind ↦ kind.getTypeName == typeName with
  | none => failure
  | some kind => parseTypeOfKind ctx (SpecTypes.kindSwitch kind)

/-- The `parse` method of each class. -/
def parseAttrOfKind : AttrKind → Parser Lexeme Attribute
  | .any => SimpleAttr.parse .any
  | .bool => SimpleAttr.parse .bool
  | .index => SimpleAttr.parse .index
  | .apInt => SimpleAttr.parse .apInt
  | .anyI => TypedAttr.parse verifyIntWidth .anyI
  | .i => TypedAttr.parse verifyIntWidth .i
  | .si => TypedAttr.parse verifyIntWidth .si
  | .ui => TypedAttr.parse verifyIntWidth .ui
  | .f => TypedAttr.parse verifyFloatWidth .f
  | .string => SimpleAttr.parse .string
  | .type => SimpleAttr.parse .type
  | .unit => SimpleAttr.parse .unit
  | .dictionary => SimpleAttr.parse .dictionary
  | .elements => SimpleAttr.parse .elements
  | .denseElements => SimpleAttr.parse .denseElements
  | .elementsOf => ElementsOfAttr.parse
  | .rankedElements => RankedElementsAttr.parse
  | .stringElements => SimpleAttr.parse .stringElements
  | .array => SimpleAttr.parse .array
  | .arrayOf => ArrayOfAttr.parse
  | .symbolRef => SimpleAttr.parse .symbolRef
  | .flatSymbolRef => SimpleAttr.parse .flatSymbolRef
  | .constant => ConstantAttr.parse
  | .anyOf => parseAttrList (AnyOfAttr.getChecked ctx)
  | .allOf => parseAttrList (AllOfAttr.getChecked ctx)
  | .ofType => OfTypeAttr.parse
  | .optional => OptionalAttr.parse
  | .default => DefaultAttr.parse
  | .isa => IsaAttr.parse
  | .py => PyAttr.parse ctx

def SpecDialect.parseAttribute : Parser Lexeme Attribute := do
  let attrName ← DialectAsmParser.parseKeyword
  match attrKinds.find? fun kind ↦ kind.getAttrName == attrName with
  | none => failure
  | some kind => parseAttrOfKind ctx (SpecAttrs.kindSwitch kind)

mutual

/-- The standard parser, which leaves the types of the spec dialect to `SpecDialect::parseType`. -/
def parseTypeText : TypeText → Option Ty
  | .builtin type => some (.builtin type)
  | .complex elTy => (parseTypeText elTy).map .complex
  | .function inputs results => do
    let inputs ← parseTypeTexts inputs
    let results ← parseTypeTexts results
    return .function inputs results
  | .dialect body => ((SpecDialect.parseType ctx).run (lexemes body)).map Prod.fst

def parseTypeTexts : List TypeText → Option (List Ty)
  | [] => some []
  | text :: texts => do
    let type ← parseTypeText text
    let types ← parseTypeTexts texts
    return type :: types

/-- The standard parser, which leaves the attributes of the spec dialect to
`SpecDialect::parseAttribute`. -/
def parseAttrText : AttrText → Option Attribute
  | .builtin id types attrs => do
    let types ← parseTypeTexts types
    let attrs ← parseAttrTexts attrs
    return .builtin id types attrs
  | .symbolRefAttr root nested => some (.symbolRefAttr root nested)
  | .dialect body => ((SpecDialect.parseAttribute ctx).run (lexemes body)).map Prod.fst

def parseAttrTexts : List AttrText → Option (List Attribute)
  | [] => some []
  | text :: texts => do
    let attr ← parseAttrText text
    let attrs ← parseAttrTexts texts
    return attr :: attrs

def lexeme : Piece → Lexeme
  | .char c => .char c
  | .type text => .type (parseTypeText text)
  | .attr text => .attr (parseAttrText text)

def lexemes : List Piece → List Lexeme
  | [] => []
  | piece :: pieces => lexeme piece :: lexemes pieces

end

end Parse

end DeclarativeMlir.Spec

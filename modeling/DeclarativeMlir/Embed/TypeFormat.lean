import DeclarativeMlir.Embed.FormatUtils
import DeclarativeMlir.Library.TokenParsing
import DeclarativeMlir.Spec.SpecSyntax

/-!
# Formats of dynamic types and attributes

The parser of a format for a type or an attribute with parameters, and the printer and the parser
that are generated from its elements. A printer writes its pieces back to back, so that the lexer
can read two pieces as one.
-/

namespace DeclarativeMlir.Embed

open TokenParsing

/-! ## Formats -/

inductive FormatElement where
  | literal (text : String)
  | parameter (name : String)
  /-- the directive `dims` with its argument -/
  | dims (name : String)
  deriving DecidableEq, Repr

namespace TypeFormat

/-- The indices of the parameters that are bound already. -/
abbrev SeenParameters := List ℕ

variable (params : List String)

/-- A name stands for the first parameter that has it. -/
def parseVariable (seen : SeenParameters) (name : String) : Except String SeenParameters :=
  if name ∈ params then
    if params.idxOf name ∈ seen then .error "parameter already bound"
    else .ok (params.idxOf name :: seen)
  else .error "unknown parameter name"

/-- Why the tokens after `dims` are no argument. -/
def dimsError (seen : SeenParameters) : List FormatToken → String
  | .lparen :: .literal text :: rest =>
    if !isValidLiteral text then "expected valid literal"
    else if rest.head? = some .rparen then "expected a variable as the argument to `dims`"
    else "expected ')' after argument"
  | .lparen :: .keyword _ :: _ => "directives can only be top-level"
  | .lparen :: .var name :: _ =>
    match parseVariable params seen name with
    | .error message => message
    | .ok _ => "expected ')' after argument"
  | .lparen :: _ => "expected directive, literal, or variable"
  | _ => "expected '(' before argument"

def parseElements : SeenParameters → List FormatToken →
    Except String (List FormatElement × SeenParameters)
  | seen, [] => .ok ([], seen)
  | seen, .literal text :: rest =>
    if isValidLiteral text then do
      let (elements, seen) ← parseElements seen rest
      return (.literal text :: elements, seen)
    else .error "expected valid literal"
  | seen, .var name :: rest => do
    let seen ← parseVariable params seen name
    let (elements, seen) ← parseElements seen rest
    return (.parameter name :: elements, seen)
  | seen, .keyword "dims" :: .lparen :: .var name :: .rparen :: rest => do
    let seen ← parseVariable params seen name
    let (elements, seen) ← parseElements seen rest
    return (.dims name :: elements, seen)
  | seen, .keyword name :: rest =>
    .error (if name = "dims" then dimsError params seen rest else "unknown directive")
  | _, _ :: _ => .error "expected directive, literal, or variable"

def verifyParameters (seen : SeenParameters) : Except String Unit :=
  match (List.range params.length).find? (· ∉ seen) with
  | none => .ok ()
  | some idx => .error s!"parameter '{params.getD idx default}' not bound"

def parse (tokens : List FormatToken) : Except String (List FormatElement) := do
  let (elements, seen) ← parseElements params [] tokens
  verifyParameters params seen
  return elements

end TypeFormat

/-! ## Parameter values -/

inductive ParamAttr where
  | i64 (value : BitVec 64)
  /-- an `IntegerAttr` of another type -/
  | integer (type width : ℕ) (value : BitVec width)
  | array (elements : List ParamAttr)
  | other (id : ℕ)

inductive Dim where
  | dynamic
  | size (value : ℕ)
  deriving DecidableEq, Repr

/-- How an element of a dimension list is printed, if it is an `IntegerAttr`. -/
def ParamAttr.getDim : ParamAttr → Option Dim
  | i64 value => some (if value.toInt = -1 then .dynamic else .size value.toNat)
  | integer _ _ value => some (if value.toInt = -1 then .dynamic else .size value.toNat)
  | _ => none

/-- The attribute for a dimension that has been parsed, which has to fit into 64 bits. -/
def Dim.getAttr : Dim → Option ParamAttr
  | dynamic => some (.i64 (-1))
  | size value => if value < 2 ^ 64 then some (.i64 (BitVec.ofNat 64 value)) else none

/-! ## Printed text -/

/-- Pieces that are printed one after the other without a separator. -/
inductive Chunk where
  | word (text : String)
  | punct (text : String)
  | attr (attr : ParamAttr)
  /-- dimensions, each with an `x` after it -/
  | dims (dims : List Dim)

/-- What the lexer makes of a piece together with the next one. -/
inductive Lexeme where
  | chunk (chunk : Chunk)
  /-- a piece and the next one are no longer apart -/
  | error

/-- How the printed text of an attribute meets what stands next to it. -/
structure AttrText where
  /-- the piece after the attribute can extend it -/
  extendedBy : ParamAttr → Chunk → Bool
  /-- the text starts with a letter, a digit or another character of an identifier -/
  startsWord : ParamAttr → Bool
  /-- the text starts with an integer literal -/
  startsInteger : ParamAttr → Bool

/-- Two pieces that the lexer does not take apart. After the `x` of a dimension it starts afresh. -/
def glued (text : AttrText) : Chunk → Chunk → Bool
  | .word _, .word _ => true
  | .word _, .attr attr => text.startsWord attr
  | .word _, .dims (.size _ :: _) => true
  | .punct ":", .punct ":" => true
  | .attr attr, chunk => text.extendedBy attr chunk
  | .dims _, .dims _ => true
  | .dims _, .attr attr => text.startsInteger attr
  | _, _ => false

def lex (text : AttrText) : List Chunk → List Lexeme
  | [] => []
  | [chunk] => [.chunk chunk]
  | chunk :: next :: chunks =>
    (if glued text chunk next then .error else .chunk chunk) :: lex text (next :: chunks)

/-! ## The generated printer -/

def literalChunk (text : String) : Chunk :=
  if isKeywordLiteral text then .word text else .punct text

def printDimensionListOrRaw : ParamAttr → List Chunk
  | .array elements =>
    match elements.mapM ParamAttr.getDim with
    | some [] => [.word "x"]
    | some dims => [.dims dims]
    | none => elements.flatMap fun element ↦
      match element.getDim with
      | some dim => [.dims [dim]]
      | none => [.attr element, .word "x"]
  | attr => [.attr attr]

/-- The value of the first parameter with this name. -/
def getParameter (params : List String) (values : List ParamAttr) (name : String) :
    Option ParamAttr :=
  (params.zip values).lookup name

def printElement (params : List String) (values : List ParamAttr) :
    FormatElement → Option (List Chunk)
  | .literal text => some [literalChunk text]
  | .parameter name => (getParameter params values name).map fun attr ↦ [.attr attr]
  | .dims name => (getParameter params values name).map printDimensionListOrRaw

/-- The type name comes first. -/
def genPrinter (name : String) (params : List String) (elements : List FormatElement)
    (values : List ParamAttr) : Option (List Chunk) := do
  let pieces ← elements.mapM (printElement params values)
  return .word name :: pieces.flatten

/-! ## The generated parser -/

/-- The parser of dialect types has no method `parseKeyword` in Python. -/
def parseLiteral (text : String) : Parser Lexeme Unit :=
  if isKeywordLiteral text then failure
  else token fun
    | .chunk (.punct text') => if text' = text then some () else none
    | _ => none

def parseAttribute : Parser Lexeme ParamAttr := token fun
  | .chunk (.attr attr) => some attr
  | _ => none

/-- No dimension at all is a success. -/
def parseDimensionList (text : AttrText) : Parser Lexeme ParamAttr := fun input ↦
  match input with
  | .chunk (.dims dims) :: rest => (dims.mapM Dim.getAttr).map fun attrs ↦ (.array attrs, rest)
  | .chunk (.attr attr) :: rest =>
    if text.startsInteger attr then none
    else some (.array [], .chunk (.attr attr) :: rest)
  | input => some (.array [], input)

/-- Runs the code of the elements, and gives the variables it has assigned. -/
def parseElements (text : AttrText) :
    List FormatElement → Parser Lexeme (List (String × ParamAttr))
  | [] => return []
  | .literal literal :: elements => do
    parseLiteral literal
    parseElements text elements
  | .parameter name :: elements => do
    let attr ← parseAttribute
    let assigned ← parseElements text elements
    return (name, attr) :: assigned
  | .dims name :: elements => do
    let attr ← parseDimensionList text
    let assigned ← parseElements text elements
    return (name, attr) :: assigned

/-- The parameters are returned in the order of their declaration. -/
def genParser (text : AttrText) (params : List String) (elements : List FormatElement) :
    Parser Lexeme (List ParamAttr) := do
  let assigned ← parseElements text elements
  (params.mapM fun name ↦ assigned.lookup name : Option (List ParamAttr))

def parseTypeName : Parser Lexeme String := token fun
  | .chunk (.word text) => if Spec.isKeyword text then some text else none
  | _ => none

/-- The name of the type is looked up, then its parser runs. -/
def parseType (text : AttrText) (name : String) (params : List String)
    (elements : List FormatElement) : Parser Lexeme (List ParamAttr) := do
  let name' ← parseTypeName
  if name' = name then genParser text params elements else failure

end DeclarativeMlir.Embed

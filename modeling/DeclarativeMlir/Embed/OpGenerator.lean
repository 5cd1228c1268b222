import DeclarativeMlir.Embed.OpFormat
import DeclarativeMlir.Library.PythonCode

/-!
# Generated parsers and printers of ops

The Python functions that are generated for an op with an assembly format. Both generators go
through the elements of the format and write lines to a stream, with the indentation set by hand.
-/

namespace DeclarativeMlir.Embed.OpGenerator

open Spec OpFormat PythonCode

/-! ## The stream -/

/-- The lines that have been written, and the indentation of the next one. -/
structure PythonGenStream where
  lines : List Line
  indent : ℕ

namespace PythonGenStream

def line (s : PythonGenStream) (stmt : Simple) : PythonGenStream :=
  { s with lines := s.lines ++ [⟨s.indent, .simple stmt⟩] }

def block (s : PythonGenStream) (header : Header) : PythonGenStream where
  lines := s.lines ++ [⟨s.indent, .header header⟩]
  indent := s.indent + 4

def endblock (s : PythonGenStream) : PythonGenStream :=
  { s with indent := s.indent - 4 }

def if_ (s : PythonGenStream) (cond : Expr) : PythonGenStream := s.block (.ifThen cond)

def endif (s : PythonGenStream) : PythonGenStream := s.endblock

end PythonGenStream

/-- `return False` -/
def returnFalse : Simple := .ret (.const "False")

/-- A method of `parser`, `result`, `p` or `op`. -/
def Expr.parser (method : String) (args : List Expr) : Expr := .method (.name "parser") method args

def Expr.result (method : String) (args : List Expr) : Expr := .method (.name "result") method args

def Expr.p (method : String) (args : List Expr) : Expr := .method (.name "p") method args

def Expr.op (method : String) (args : List Expr) : Expr := .method (.name "op") method args

/-- `len(operand)` -/
def Expr.len (operand : Expr) : Expr := .call (.const "len") [operand]

/-! ## Variables of the format -/

section Names

variable (op : OperationOp)

def attrName (i : ℕ) : String := ((op.opAttrs[i]?).map (·.1)).getD ""

def successorName (i : ℕ) : String := ((op.opSuccs.successors[i]?).map (·.name)).getD ""

def regionName (i : ℕ) : String := ((op.opRegions.regions[i]?).map (·.name)).getD ""

def isVariadicResult (i : ℕ) : Bool :=
  ((op.opType.results[i]?).map fun result ↦ result.type.isVariadic).getD false

def isVariadicSuccessor (i : ℕ) : Bool :=
  ((op.opSuccs.successors[i]?).map fun succ ↦ succ.attr.isVariadic).getD false

/-- The name of a type list, without its suffix, and whether it has any length. -/
def getTypeListName : TypeArg → String × Bool
  | .operand i => (operandName op i, isVariadicOperand op i)
  | .result i => (resultName op i, isVariadicResult op i)
  | .operands => ("allOperand", true)
  | .results => ("allResult", true)

end Names

-- The equations are made once, here, and not by all the proofs below at the same time.
attribute [grind =] getTypeListName

/-! ## Pieces of the parser -/

section Parser

def genAttrParserCode (s : PythonGenStream) (name : String) (type : List Expr) :
    PythonGenStream :=
  ((s.if_ (.not (Expr.parser "parseAttribute" ([.name "result", .str name] ++ type)))).line
    returnFalse).endif

def genSymbolAttrParserCode (s : PythonGenStream) (name : String) : PythonGenStream :=
  ((s.if_ (.not (Expr.parser "parseSymbolName" [.name "result", .str name]))).line
    returnFalse).endif

/-- `target, success = call`, and a return if there is no success -/
def genChecked (s : PythonGenStream) (target : String) (call : Expr) : PythonGenStream :=
  (((s.line (.assign [target, "success"] call)).if_ (.not (.name "success"))).line
    returnFalse).endif

def genVariadicOperandParserCode (s : PythonGenStream) (name : String) : PythonGenStream :=
  (genChecked s "anOperandList" (Expr.parser "parseOperandList" [])).line
    (.augment (name ++ "Operands") (.name "anOperandList"))

def genOperandParserCode (s : PythonGenStream) (name : String) : PythonGenStream :=
  (genChecked s "anOperand" (Expr.parser "parseOperand" [])).line
    (.setItem (name ++ "Operands") 0 (.name "anOperand"))

def genVariadicTypeParserCode (s : PythonGenStream) (name : String) : PythonGenStream :=
  (genChecked s "aTypeList" (Expr.parser "parseTypeList" [])).line
    (.augment (name ++ "Types") (.name "aTypeList"))

def genTypeParserCode (s : PythonGenStream) (name : String) : PythonGenStream :=
  (genChecked s "aType" (Expr.parser "parseType" [])).line
    (.setItem (name ++ "Types") 0 (.name "aType"))

def genFunctionalTypeParserCode (s : PythonGenStream) (iname oname : String) :
    PythonGenStream :=
  ((genChecked s "aFunctionType" (Expr.parser "parseFunctionalType" [])).line
    (.assign [iname ++ "Types"] (.field (.name "aFunctionType") "inputs"))).line
    (.assign [oname ++ "Types"] (.field (.name "aFunctionType") "results"))

/-- `nameSuccessors.append(succ)` -/
def appendSuccessor (name : String) : Simple :=
  .expr (.method (.name (name ++ "Successors")) "append" [.name "succ"])

def genSuccessorListParserCode (s : PythonGenStream) (name : String) : PythonGenStream :=
  let s := s.line (.assign ["succ", "tristate"] (Expr.parser "parseOptionalSuccessor" []))
  let s := s.if_ (.method (.name "tristate") "hasValue" [])
  let s := ((s.if_ (.method (.name "tristate") "failed" [])).line returnFalse).endif
  let s := s.line (appendSuccessor name)
  let s := s.block (.whileDo (Expr.parser "parseOptionalComma" []))
  let s := genChecked s "succ" (Expr.parser "parseSuccessor" [])
  ((s.line (appendSuccessor name)).endblock).endif

def genSuccessorParserCode (s : PythonGenStream) (name : String) : PythonGenStream :=
  genChecked s (name ++ "Successor") (Expr.parser "parseSuccessor" [])

def genRegionParserCode (s : PythonGenStream) (name : String) : PythonGenStream :=
  let s := s.line (.assign [name ++ "Region"] (Expr.result "addRegion" []))
  ((s.if_ (.not (Expr.parser "parseRegionWithArguments" [.name (name ++ "Region")]))).line
    returnFalse).endif

/-- The names of the parsers of literals that are not keywords. -/
def punctuationParser (value : String) : String :=
  match value with
  | "->" => "Arrow"
  | ":" => "Colon"
  | "," => "Comma"
  | "=" => "Equal"
  | "<" => "Less"
  | ">" => "Greater"
  | "(" => "LParen"
  | ")" => "RParen"
  | "[" => "LSquare"
  | "]" => "RSquare"
  | _ => ""

def getParserForLiteral (value : String) (optional : Bool) : Expr :=
  let start := if optional then "parseOptional" else "parse"
  if isKeywordLiteral value then Expr.parser (start ++ "Keyword") [.str value]
  else Expr.parser (start ++ punctuationParser value) []

end Parser

/-! ## The parser -/

section GenParser

variable (md : Metadata) (usesBuilder : String → Bool) (op : OperationOp)

/-- The text of a builder, in which `$_builder` may stand for the builder of the parser. The other
names in it are global. -/
def builderExpr (text : String) : Expr :=
  .call (.const text) (if usesBuilder text then [Expr.parser "getBuilder" []] else [])

def genTypeStorage (s : PythonGenStream) (arg : TypeArg) : PythonGenStream :=
  let (name, isVariadic) := getTypeListName op arg
  s.line (.assign [name ++ "Types"] (.list (if isVariadic then [] else [.const "None"])))

def genElementParserStorage (s : PythonGenStream) : Element → PythonGenStream
  | .var (.operand i) =>
    let name := operandName op i
    let s := s.line (.assign [name ++ "Operands"]
      (.list (if isVariadicOperand op i then [] else [.const "None"])))
    s.line (.assign [name ++ "OperandsLoc"] (Expr.parser "getCurrentLocation" []))
  | .type arg => genTypeStorage op s arg
  | .functionalType inputs outputs =>
    let s := s.line (.assign [(getTypeListName op inputs).1 ++ "Types"] (.list []))
    s.line (.assign [(getTypeListName op outputs).1 ++ "Types"] (.list []))
  | _ => s

/-- The storage of the elements of a group is like that of others. -/
def genItemParserStorage (s : PythonGenStream) : Item → PythonGenStream
  | .element element => genElementParserStorage op s element
  | .optional elements _ => elements.foldl (genElementParserStorage op) s

def genElementParser (s : PythonGenStream) : Element → PythonGenStream
  | .literal text => ((s.if_ (.not (getParserForLiteral text false))).line returnFalse).endif
  | .var (.attr i) =>
    let typeBuilder := (op.opAttrs[i]?).bind fun attr ↦ md.attrTypeBuilder attr.2
    genAttrParserCode s (attrName op i) ((typeBuilder.map (builderExpr usesBuilder)).toList)
  | .var (.operand i) =>
    if isVariadicOperand op i then genVariadicOperandParserCode s (operandName op i)
    else genOperandParserCode s (operandName op i)
  | .var (.result _) => s
  | .var (.successor i) =>
    if isVariadicSuccessor op i then genSuccessorListParserCode s (successorName op i)
    else genSuccessorParserCode s (successorName op i)
  | .var (.region i) => genRegionParserCode s (regionName op i)
  | .attrDict withKeyword =>
    ((s.if_ (.not (Expr.parser
      ("parseOptionalAttrDict" ++ if withKeyword then "WithKeyword" else "")
      [.name "result"]))).line returnFalse).endif
  | .operands =>
    let s := s.line (.assign ["allOperandLoc"] (Expr.parser "getCurrentLocation" []))
    genChecked s "allOperands" (Expr.parser "parseOperandList" [])
  | .results => s
  | .successors => genSuccessorListParserCode s "full"
  | .type arg =>
    let (name, isVariadic) := getTypeListName op arg
    if isVariadic then genVariadicTypeParserCode s name else genTypeParserCode s name
  | .functionalType inputs outputs =>
    genFunctionalTypeParserCode s (getTypeListName op inputs).1 (getTypeListName op outputs).1
  | .symbol i => genSymbolAttrParserCode s (attrName op i)

/-- The first element of a group is what its parser looks for, and is not parsed again. -/
def genItemParser (s : PythonGenStream) : Item → PythonGenStream
  | .element element => genElementParser md usesBuilder op s element
  | .optional elements _ =>
    let s := match elements.head? with
      | some (.literal text) => s.if_ (getParserForLiteral text true)
      | some (.var (.operand i)) =>
        s.if_ (.gt (Expr.len (.name (operandName op i ++ "Operands"))) (.const "0"))
      | _ => s
    (elements.tail.foldl (genElementParser md usesBuilder op) s).endblock

/-- `if not parser.resolveOperands(args): return False` -/
def genResolveOperands (s : PythonGenStream) (args : List Expr) : PythonGenStream :=
  ((s.if_ (.not (Expr.parser "resolveOperands" args))).line returnFalse).endif

/-- The variable of a buildable type. -/
def buildableVariable (idx : ℕ) : String := s!"odsBuildableType{idx}"

def typeListExpr : TypeList → Expr
  | .buildable idx => .list [.name (buildableVariable idx)]
  | .types name => .name (name ++ "Types")

def genBuildableTypes (fmt : OperationFormat) (s : PythonGenStream) : PythonGenStream :=
  fmt.buildableTypes.zipIdx.foldl
    (fun s it ↦ s.line (.assign [buildableVariable it.2] (builderExpr usesBuilder it.1))) s

def genResultTypes (fmt : OperationFormat) (s : PythonGenStream) : PythonGenStream :=
  if fmt.allResultTypes then s.line (.expr (Expr.result "addTypes" [.name "allResultTypes"]))
  else (emitTypeResolvers op fmt op.opType.results fmt.resultTypes).foldl
    (fun s types ↦ s.line (.expr (Expr.result "addTypes" [typeListExpr types]))) s

/-- The location is left out with a buildable type. -/
def genOperandTypes (fmt : OperationFormat) (s : PythonGenStream)
    (it : NamedType × TypeResolution) : PythonGenStream :=
  genResolveOperands s
    ([.name (it.1.name ++ "Operands"), typeListExpr (emitTypeResolver op fmt it.1.name it.2)] ++
      (if it.2.builder?.isSome then [] else [.name (it.1.name ++ "OperandsLoc")]) ++
      [.name "result"])

def genParserTypeResolution (fmt : OperationFormat) (s : PythonGenStream) : PythonGenStream :=
  let s := genBuildableTypes usesBuilder fmt s
  let s := genResultTypes op fmt s
  if op.opType.operands.isEmpty then s
  else if fmt.allOperandTypes then
    if fmt.allOperands then
      genResolveOperands s
        [.name "allOperands", .name "allOperandTypes", .name "allOperandLoc", .name "result"]
    else
      let s := s.line (.assign ["operandsToResolve"] (.list []))
      let s := op.opType.operands.foldl (fun s operand ↦
        s.line (.augment "operandsToResolve" (.name (operand.name ++ "Operands")))) s
      genResolveOperands s [.name "operandsToResolve", .name "allOperandTypes",
        Expr.parser "getNameLoc" [], .name "result"]
  else if fmt.allOperands then
    let s := s.line (.assign ["typesToResolve"] (.list []))
    let s := (emitTypeResolvers op fmt op.opType.operands fmt.operandTypes).foldl
      (fun s types ↦ s.line (.augment "typesToResolve" (typeListExpr types))) s
    genResolveOperands s
      [.name "allOperands", .name "typesToResolve", .name "allOperandLoc", .name "result"]
  else (op.opType.operands.zip fmt.operandTypes).foldl (genOperandTypes op fmt) s

def genParserSuccessorResolution (fmt : OperationFormat) (s : PythonGenStream) :
    PythonGenStream :=
  if .element .successors ∈ fmt.items then
    s.line (.augmentField (.name "result") "successors" (.name "fullSuccessors"))
  else op.opSuccs.successors.foldl (fun s successor ↦
    if successor.attr.isVariadic then
      s.line (.augmentField (.name "result") "successors" (.name (successor.name ++ "Successors")))
    else s.line (.expr (.method (.field (.name "result") "successors") "append"
      [.name (successor.name ++ "Successor")]))) s

/-- The size of one operand. -/
def segmentSize (operand : NamedType) : Expr :=
  if operand.type.isVariadic then Expr.len (.name (operand.name ++ "Operands")) else .const "1"

def genParserVariadicSegmentResolution (fmt : OperationFormat) (s : PythonGenStream) :
    PythonGenStream :=
  if !fmt.allOperands && getTrait op "SizedOperandSegments" then
    s.line (.expr (Expr.result "addAttribute" [.str "operand_segment_sizes",
      Expr.parser "getI32VectorAttr" [.list (op.opType.operands.map segmentSize)]]))
  else s

def genParser (fmt : OperationFormat) (s : PythonGenStream) : PythonGenStream :=
  let s := fmt.items.foldl (genItemParserStorage op) s
  let s := fmt.items.foldl (genItemParser md usesBuilder op) s
  let s := genParserTypeResolution usesBuilder op fmt s
  let s := genParserSuccessorResolution op fmt s
  let s := genParserVariadicSegmentResolution op fmt s
  s.line (.ret (.const "True"))

end GenParser

/-! ## The printer -/

/-- A printer that is being generated. The flags are those of the element generated last. -/
structure PrinterGen where
  stream : PythonGenStream
  shouldEmitSpace : Bool
  lastWasPunctuation : Bool

namespace PrinterGen

/-- `p.print(text)` -/
def print (g : PrinterGen) (text : String) : PrinterGen :=
  { g with stream := g.stream.line (.expr (Expr.p "print" [.str text])) }

def line (g : PrinterGen) (stmt : Simple) : PrinterGen :=
  { g with stream := g.stream.line stmt }

def if_ (g : PrinterGen) (cond : Expr) : PrinterGen :=
  { g with stream := g.stream.if_ cond }

def endif (g : PrinterGen) : PrinterGen := { g with stream := g.stream.endif }

end PrinterGen

/-- The first character of a literal is one of these. -/
def frontIn (value chars : String) : Bool :=
  value.toList.head?.any fun c ↦ decide (c ∈ chars.toList)

def shouldPrintSpaceBeforeLiteral (lastWasPunctuation : Bool) (value : String) : Bool :=
  if value.toList.length ≠ 1 ∧ value ≠ "->" then true
  else if lastWasPunctuation then !frontIn value ">)\x7d],"
  else !frontIn value "<>()\x7b\x7d[],"

def genLiteralPrinter (value : String) (g : PrinterGen) : PrinterGen :=
  let g := if g.shouldEmitSpace && shouldPrintSpaceBeforeLiteral g.lastWasPunctuation value then
      g.print " " else g
  { g.print value with
    shouldEmitSpace := decide (value.toList.length ≠ 1) || !frontIn value "<(\x7b["
    lastWasPunctuation := !isKeywordLiteral value }

section GenPrinter

variable (md : Metadata) (op : OperationOp)

/-- The attributes of an element that are not printed in the dictionary. -/
def usedAttribute : Element → List ℕ
  | .var (.attr i) => [i]
  | _ => []

/-- The directive `symbol` only counts outside of groups. -/
def usedAttributes : Item → List ℕ
  | .element (.symbol i) => [i]
  | .element element => usedAttribute element
  | .optional elements _ => elements.flatMap usedAttribute

def elidedAttrs (fmt : OperationFormat) : List String :=
  (if !fmt.allOperands && getTrait op "SizedOperandSegments" then ["operand_segment_sizes"]
    else []) ++ (fmt.items.flatMap usedAttributes).map (attrName op)

def genAttrDictPrinter (fmt : OperationFormat) (withKeyword : Bool) (g : PrinterGen) :
    PrinterGen :=
  g.line (.expr (Expr.p ("printOptionalAttrDict" ++ if withKeyword then "WithKeyword" else "")
    [Expr.op "getAttrs" [], .list ((elidedAttrs op fmt).map .str)]))

/-- The types of the argument of a type directive. -/
def genTypeOperandPrinter : TypeArg → Expr
  | .operands => Expr.op "getOperandTypes" []
  | .results => Expr.op "getResultTypes" []
  | .operand i =>
    if isVariadicOperand op i then
      .method (Expr.op "getOperandGroup" [.str (operandName op i)]) "getTypes" []
    else .list [.method (Expr.op "getOperand" [.str (operandName op i)]) "getType" []]
  | .result i =>
    if isVariadicResult op i then
      .method (Expr.op "getResultGroup" [.str (resultName op i)]) "getTypes" []
    else .list [.method (Expr.op "getResult" [.str (resultName op i)]) "getType" []]

/-- The statements that print a region. -/
def genRegionPrinter (name : String) (g : PrinterGen) : PrinterGen :=
  let g := g.line (.assign ["region"] (Expr.op "getRegion" [.str name]))
  let g := g.if_ (.not (.method (.name "region") "empty" []))
  let g := g.print "("
  let g := g.line (.expr (Expr.p "printBlockArguments"
    [.method (.name "region") "getBlock" [.const "0"]]))
  let g := (g.print ")").endif
  g.line (.expr (Expr.p "printRegion" [.name "region", .const "False"]))

/-- What is printed of an element that is neither a literal nor an attribute dictionary. -/
def genElementBody (g : PrinterGen) : Element → PrinterGen
  | .var (.attr i) =>
    let typeBuilder := (op.opAttrs[i]?).bind fun attr ↦ md.attrTypeBuilder attr.2
    g.line (.expr (Expr.p
      (if typeBuilder.isSome then "printAttributeWithoutType" else "printAttribute")
      [Expr.op "getAttr" [.str (attrName op i)]]))
  | .var (.operand i) =>
    if isVariadicOperand op i then
      g.line (.expr (Expr.p "printOperands" [Expr.op "getOperandGroup" [.str (operandName op i)]]))
    else g.line (.expr (Expr.p "printOperand" [Expr.op "getOperand" [.str (operandName op i)]]))
  | .var (.successor i) =>
    if isVariadicSuccessor op i then
      g.line (.expr (Expr.p "printSuccessors"
        [Expr.op "getSuccessorGroup" [.str (successorName op i)]]))
    else
      g.line (.expr (Expr.p "printSuccessor" [Expr.op "getSuccessor" [.str (successorName op i)]]))
  | .var (.region i) => genRegionPrinter (regionName op i) g
  | .operands => g.line (.expr (Expr.p "printOperands" [Expr.op "getOperands" []]))
  | .successors => g.line (.expr (Expr.p "printSuccessors" [Expr.op "getSuccessors" []]))
  | .type arg => g.line (.expr (Expr.p "printTypes" [genTypeOperandPrinter op arg]))
  | .functionalType inputs outputs =>
    g.line (.expr (Expr.p "printFunctionalType"
      [genTypeOperandPrinter op inputs, genTypeOperandPrinter op outputs]))
  | .symbol i =>
    g.line (.expr (Expr.p "printSymbolName"
      [.method (Expr.op "getAttr" [.str (attrName op i)]) "getValue" []]))
  | _ => g

def genElementPrinter (fmt : OperationFormat) (g : PrinterGen) : Element → PrinterGen
  | .literal text => genLiteralPrinter text g
  | .attrDict withKeyword =>
    { genAttrDictPrinter op fmt withKeyword g with lastWasPunctuation := false }
  | element =>
    let g := if g.shouldEmitSpace || !g.lastWasPunctuation then g.print " " else g
    genElementBody md op { g with lastWasPunctuation := false, shouldEmitSpace := true } element

/-- The condition of a group, if its anchor has one. -/
def anchorCondition : Element → Option Expr
  | .var (.operand i) =>
    if isVariadicOperand op i then
      some (.gt (Expr.len (Expr.op "getOperandGroup" [.str (operandName op i)])) (.const "0"))
    else none
  | .var (.attr i) => some (Expr.op "getAttr" [.str (attrName op i)])
  | _ => none

attribute [grind =] genTypeOperandPrinter anchorCondition

def genItemPrinter (fmt : OperationFormat) (g : PrinterGen) : Item → PrinterGen
  | .element element => genElementPrinter md op fmt g element
  | .optional elements anchor =>
    let g := match (elements[anchor]?).bind (anchorCondition op) with
      | some cond => g.if_ cond
      | none => g
    (elements.foldl (genElementPrinter md op fmt) g).endif

def genPrinter (fmt : OperationFormat) (s : PythonGenStream) : PythonGenStream :=
  let s := s.line (.expr (Expr.p "print" [Expr.op "getName" []]))
  (fmt.items.foldl (genItemPrinter md op fmt) ⟨s, true, false⟩).stream

end GenPrinter

end DeclarativeMlir.Embed.OpGenerator

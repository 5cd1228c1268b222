import DeclarativeMlir.Embed.OpFormatBinding
import DeclarativeMlir.Embed.OpGenerator

/-!
# The statements of generated functions

What the generators write to the stream are the lines of statements. The statements of each piece
are given here by themselves: what comes later is about statements, and not about lines and
indentations.
-/

namespace DeclarativeMlir.Embed.OpGenerator

open Spec OpFormat PythonCode

/-! ## Lines of statements -/

/-- Some statements are written. -/
def PythonGenStream.emit (s : PythonGenStream) (code : Code) : PythonGenStream :=
  { s with lines := s.lines ++ code.lines s.indent }

/-- A single statement. -/
def stmt (simple : Simple) : Code := .simple simple .nil

/-- `if not cond: return False` -/
def guard (cond : Expr) : Code := .block (.ifThen (.not cond)) (stmt returnFalse) .nil

def checked (target : String) (call : Expr) : Code :=
  stmt (.assign [target, "success"] call) ++ guard (.name "success")

section Emit

variable (s : PythonGenStream)

@[simp]
theorem emit_nil : s.emit .nil = s := by
  cases s
  simp [PythonGenStream.emit, Code.lines]

@[simp]
theorem emit_emit (first second : Code) :
    (s.emit first).emit second = s.emit (first ++ second) := by
  simp [PythonGenStream.emit]

@[simp]
theorem line_eq_emit (simple : Simple) : s.line simple = s.emit (stmt simple) := by
  simp [PythonGenStream.line, PythonGenStream.emit, stmt, Code.lines]

@[simp]
theorem endblock_emit_block (header : Header) (body : Code) :
    ((s.block header).emit body).endblock = s.emit (.block header body .nil) := by
  simp [PythonGenStream.block, PythonGenStream.emit, PythonGenStream.endblock, Code.lines]

@[simp]
theorem endif_emit_if (cond : Expr) (body : Code) :
    ((s.if_ cond).emit body).endif = s.emit (.block (.ifThen cond) body .nil) :=
  endblock_emit_block s (.ifThen cond) body

theorem guard_eq_emit (cond : Expr) :
    ((s.if_ (.not cond)).line returnFalse).endif = s.emit (guard cond) := by
  rw [line_eq_emit, endif_emit_if]
  rfl

theorem genChecked_eq (target : String) (call : Expr) :
    genChecked s target call = s.emit (checked target call) := by
  rw [genChecked, guard_eq_emit, line_eq_emit, emit_emit]
  rfl

/-- Pieces that are written one after the other. -/
theorem foldl_eq_emit {α : Type} {f : PythonGenStream → α → PythonGenStream} {code : α → Code}
    {values : List α} (h : ∀ s, ∀ a ∈ values, f s a = s.emit (code a)) :
    values.foldl f s = s.emit (.concat (values.map code)) := by
  induction values generalizing s with
  | nil => exact (emit_nil s).symm
  | cons a values ih =>
    have hrest : ∀ s, ∀ a ∈ values, f s a = s.emit (code a) :=
      fun s a ha ↦ h s a (List.mem_cons_of_mem _ ha)
    rw [List.foldl_cons, h s a (List.mem_cons_self ..), ih _ hrest, emit_emit]
    rfl

theorem foldl_line {α : Type} (simple : α → Simple) (values : List α) :
    values.foldl (fun s a ↦ s.line (simple a)) s =
      s.emit (.concat (values.map fun a ↦ stmt (simple a))) :=
  foldl_eq_emit s fun s a _ ↦ line_eq_emit s (simple a)

end Emit

/-! ## The parser -/

section ParserCode

variable (md : Metadata) (usesBuilder : String → Bool) (op : OperationOp)

def successorListCode (name : String) : Code :=
  stmt (.assign ["succ", "tristate"] (Expr.parser "parseOptionalSuccessor" [])) ++
  .block (.ifThen (.method (.name "tristate") "hasValue" []))
    (.block (.ifThen (.method (.name "tristate") "failed" [])) (stmt returnFalse)
      (stmt (appendSuccessor name) ++
        .block (.whileDo (Expr.parser "parseOptionalComma" []))
          (checked "succ" (Expr.parser "parseSuccessor" []) ++ stmt (appendSuccessor name)) .nil))
    .nil

theorem genSuccessorListParserCode_eq (s : PythonGenStream) (name : String) :
    genSuccessorListParserCode s name = s.emit (successorListCode name) := by
  have hwhile : ∀ s : PythonGenStream,
      ((genChecked (s.block (.whileDo (Expr.parser "parseOptionalComma" []))) "succ"
        (Expr.parser "parseSuccessor" [])).emit (stmt (appendSuccessor name))).endblock =
      s.emit (.block (.whileDo (Expr.parser "parseOptionalComma" []))
        (checked "succ" (Expr.parser "parseSuccessor" []) ++ stmt (appendSuccessor name)) .nil) := by
    intro s
    rw [genChecked_eq, emit_emit, endblock_emit_block]
  unfold genSuccessorListParserCode
  simp only [hwhile, line_eq_emit, endif_emit_if, emit_emit]
  rfl

def operandStorage (i : ℕ) : Code :=
  stmt (.assign [operandName op i ++ "Operands"]
    (.list (if isVariadicOperand op i then [] else [.const "None"]))) ++
  stmt (.assign [operandName op i ++ "OperandsLoc"] (Expr.parser "getCurrentLocation" []))

/-- The list that `genTypeStorage` makes for some types. -/
def typeStorage (arg : TypeArg) : Code :=
  stmt (.assign [(getTypeListName op arg).1 ++ "Types"]
    (.list (if (getTypeListName op arg).2 then [] else [.const "None"])))

def elementStorage : Element → Code
  | .var (.operand i) => operandStorage op i
  | .type arg => typeStorage op arg
  | .functionalType inputs outputs =>
    stmt (.assign [(getTypeListName op inputs).1 ++ "Types"] (.list [])) ++
      stmt (.assign [(getTypeListName op outputs).1 ++ "Types"] (.list []))
  | _ => .nil

-- The equations are made once, here, and not by all the proofs below at the same time.
attribute [grind =] elementStorage

theorem genElementParserStorage_eq (s : PythonGenStream) (element : Element) :
    genElementParserStorage op s element = s.emit (elementStorage op element) := by
  cases element with
  | var v =>
    cases v with
    | operand i =>
      rw [genElementParserStorage, line_eq_emit, line_eq_emit, emit_emit]
      rfl
    | _ => exact (emit_nil s).symm
  | type arg => exact line_eq_emit s _
  | functionalType inputs outputs =>
    rw [genElementParserStorage, line_eq_emit, line_eq_emit, emit_emit]
    rfl
  | _ => exact (emit_nil s).symm

def operandCode (i : ℕ) : Code :=
  if isVariadicOperand op i then
    checked "anOperandList" (Expr.parser "parseOperandList" []) ++
      stmt (.augment (operandName op i ++ "Operands") (.name "anOperandList"))
  else
    checked "anOperand" (Expr.parser "parseOperand" []) ++
      stmt (.setItem (operandName op i ++ "Operands") 0 (.name "anOperand"))

def typeCode (arg : TypeArg) : Code :=
  if (getTypeListName op arg).2 then
    checked "aTypeList" (Expr.parser "parseTypeList" []) ++
      stmt (.augment ((getTypeListName op arg).1 ++ "Types") (.name "aTypeList"))
  else
    checked "aType" (Expr.parser "parseType" []) ++
      stmt (.setItem ((getTypeListName op arg).1 ++ "Types") 0 (.name "aType"))

/-- The arguments that a builder of its type adds to the parser of an attribute. -/
def attrBuilder (i : ℕ) : List Expr :=
  (((op.opAttrs[i]?).bind fun attr ↦ md.attrTypeBuilder attr.2).map
    (builderExpr usesBuilder)).toList

def elementCode : Element → Code
  | .literal text => guard (getParserForLiteral text false)
  | .var (.attr i) =>
    guard (Expr.parser "parseAttribute"
      ([.name "result", .str (attrName op i)] ++ attrBuilder md usesBuilder op i))
  | .var (.operand i) => operandCode op i
  | .var (.result _) => .nil
  | .var (.successor i) =>
    if isVariadicSuccessor op i then successorListCode (successorName op i)
    else checked (successorName op i ++ "Successor") (Expr.parser "parseSuccessor" [])
  | .var (.region i) =>
    stmt (.assign [regionName op i ++ "Region"] (Expr.result "addRegion" [])) ++
      guard (Expr.parser "parseRegionWithArguments" [.name (regionName op i ++ "Region")])
  | .attrDict withKeyword =>
    guard (Expr.parser ("parseOptionalAttrDict" ++ if withKeyword then "WithKeyword" else "")
      [.name "result"])
  | .operands =>
    stmt (.assign ["allOperandLoc"] (Expr.parser "getCurrentLocation" [])) ++
      checked "allOperands" (Expr.parser "parseOperandList" [])
  | .results => .nil
  | .successors => successorListCode "full"
  | .type arg => typeCode op arg
  | .functionalType inputs outputs =>
    checked "aFunctionType" (Expr.parser "parseFunctionalType" []) ++
      (stmt (.assign [(getTypeListName op inputs).1 ++ "Types"]
        (.field (.name "aFunctionType") "inputs")) ++
      stmt (.assign [(getTypeListName op outputs).1 ++ "Types"]
        (.field (.name "aFunctionType") "results")))
  | .symbol i =>
    guard (Expr.parser "parseSymbolName" [.name "result", .str (attrName op i)])

theorem genElementParser_eq (s : PythonGenStream) (element : Element) :
    genElementParser md usesBuilder op s element =
      s.emit (elementCode md usesBuilder op element) := by
  cases element with
  | literal text => exact guard_eq_emit s _
  | var v =>
    cases v with
    | attr i => exact guard_eq_emit s _
    | operand i =>
      rw [genElementParser, elementCode, operandCode]
      split
      · rw [genVariadicOperandParserCode, genChecked_eq, line_eq_emit, emit_emit]
      · rw [genOperandParserCode, genChecked_eq, line_eq_emit, emit_emit]
    | result i => exact (emit_nil s).symm
    | successor i =>
      rw [genElementParser, elementCode]
      split
      · exact genSuccessorListParserCode_eq s _
      · exact genChecked_eq s _ _
    | region i =>
      rw [genElementParser, genRegionParserCode, guard_eq_emit, line_eq_emit, emit_emit]
      rfl
  | attrDict withKeyword => exact guard_eq_emit s _
  | functionalType inputs outputs =>
    rw [genElementParser, genFunctionalTypeParserCode, genChecked_eq, line_eq_emit, line_eq_emit,
      emit_emit, emit_emit]
    rfl
  | operands =>
    rw [genElementParser, line_eq_emit, genChecked_eq, emit_emit]
    rfl
  | results => exact (emit_nil s).symm
  | successors => exact genSuccessorListParserCode_eq s _
  | type arg =>
    rw [genElementParser, elementCode, typeCode]
    obtain ⟨name, isVariadic⟩ := getTypeListName op arg
    cases isVariadic with
    | true =>
      change genVariadicTypeParserCode s name = _
      rw [genVariadicTypeParserCode, genChecked_eq, line_eq_emit, emit_emit]
      rfl
    | false =>
      change genTypeParserCode s name = _
      rw [genTypeParserCode, genChecked_eq, line_eq_emit, emit_emit]
      rfl
  | symbol i => exact guard_eq_emit s _

/-- What the parser of a group looks for. -/
def groupCondition (elements : List Element) : Option Expr :=
  match elements.head? with
  | some (.literal text) => some (getParserForLiteral text true)
  | some (.var (.operand i)) =>
    some (.gt (Expr.len (.name (operandName op i ++ "Operands"))) (.const "0"))
  | _ => none

/-- A group whose first element can start a group. -/
def Item.Starts : Item → Prop
  | .element _ => True
  | .optional elements _ => (groupCondition op elements).isSome = true

def itemStorage : Item → Code
  | .element element => elementStorage op element
  | .optional elements _ => .concat (elements.map (elementStorage op))

def itemCode : Item → Code
  | .element element => elementCode md usesBuilder op element
  | .optional elements _ =>
    .block (.ifThen ((groupCondition op elements).getD (.const "True")))
      (.concat (elements.tail.map (elementCode md usesBuilder op))) .nil

theorem genItemParserStorage_eq (s : PythonGenStream) (item : Item) :
    genItemParserStorage op s item = s.emit (itemStorage op item) := by
  cases item with
  | element element => exact genElementParserStorage_eq op s element
  | optional elements anchor =>
    exact foldl_eq_emit s fun s element _ ↦ genElementParserStorage_eq op s element

theorem genItemParser_eq (s : PythonGenStream) {item : Item} (h : Item.Starts op item) :
    genItemParser md usesBuilder op s item = s.emit (itemCode md usesBuilder op item) := by
  cases item with
  | element element => exact genElementParser_eq md usesBuilder op s element
  | optional elements anchor =>
    have hfold : ∀ s : PythonGenStream, elements.tail.foldl (genElementParser md usesBuilder op) s =
        s.emit (.concat (elements.tail.map (elementCode md usesBuilder op))) :=
      fun s ↦ foldl_eq_emit s fun s element _ ↦ genElementParser_eq md usesBuilder op s element
    rw [Item.Starts, groupCondition] at h
    rw [genItemParser, itemCode, groupCondition, hfold]
    generalize elements.head? = first at h ⊢
    split
    · exact endif_emit_if s _ _
    · exact endif_emit_if s _ _
    · split at h <;> simp_all

/-! ## Types, successors and segments -/

variable (fmt : OperationFormat)

def buildableTypesCode : Code :=
  .concat (fmt.buildableTypes.zipIdx.map fun it ↦
    stmt (.assign [buildableVariable it.2] (builderExpr usesBuilder it.1)))

def addTypesCode (types : TypeList) : Code :=
  stmt (.expr (Expr.result "addTypes" [typeListExpr types]))

def resultTypesCode : Code :=
  if fmt.allResultTypes then stmt (.expr (Expr.result "addTypes" [.name "allResultTypes"]))
  else .concat ((emitTypeResolvers op fmt op.opType.results fmt.resultTypes).map addTypesCode)

def resolveOperandsCode (args : List Expr) : Code := guard (Expr.parser "resolveOperands" args)

def operandTypesCode (it : NamedType × TypeResolution) : Code :=
  resolveOperandsCode
    ([.name (it.1.name ++ "Operands"), typeListExpr (emitTypeResolver op fmt it.1.name it.2)] ++
      (if it.2.builder?.isSome then [] else [.name (it.1.name ++ "OperandsLoc")]) ++
      [.name "result"])

def resolutionCode : Code :=
  if op.opType.operands.isEmpty then .nil
  else if fmt.allOperandTypes then
    if fmt.allOperands then
      resolveOperandsCode
        [.name "allOperands", .name "allOperandTypes", .name "allOperandLoc", .name "result"]
    else
      stmt (.assign ["operandsToResolve"] (.list [])) ++
      (.concat (op.opType.operands.map fun operand ↦
        stmt (.augment "operandsToResolve" (.name (operand.name ++ "Operands")))) ++
      resolveOperandsCode [.name "operandsToResolve", .name "allOperandTypes",
        Expr.parser "getNameLoc" [], .name "result"])
  else if fmt.allOperands then
    stmt (.assign ["typesToResolve"] (.list [])) ++
    (.concat ((emitTypeResolvers op fmt op.opType.operands fmt.operandTypes).map fun types ↦
      stmt (.augment "typesToResolve" (typeListExpr types))) ++
    resolveOperandsCode
      [.name "allOperands", .name "typesToResolve", .name "allOperandLoc", .name "result"])
  else .concat ((op.opType.operands.zip fmt.operandTypes).map (operandTypesCode op fmt))

theorem genParserTypeResolution_eq (s : PythonGenStream) :
    genParserTypeResolution usesBuilder op fmt s =
      s.emit (buildableTypesCode usesBuilder fmt ++ (resultTypesCode op fmt ++
        resolutionCode op fmt)) := by
  have hbuildable : genBuildableTypes usesBuilder fmt s =
      s.emit (buildableTypesCode usesBuilder fmt) :=
    foldl_eq_emit s fun s it _ ↦ line_eq_emit s _
  have hresults : ∀ s, genResultTypes op fmt s = s.emit (resultTypesCode op fmt) := by
    intro s
    rw [genResultTypes, resultTypesCode]
    split
    · exact line_eq_emit s _
    · exact foldl_eq_emit s fun s types _ ↦ line_eq_emit s _
  have hresolve : ∀ s args, genResolveOperands s args = s.emit (resolveOperandsCode args) :=
    fun s args ↦ guard_eq_emit s _
  rw [← emit_emit, ← emit_emit, ← hbuildable, ← hresults, genParserTypeResolution, resolutionCode]
  dsimp only
  generalize genResultTypes op fmt (genBuildableTypes usesBuilder fmt s) = s'
  split
  · exact (emit_nil s').symm
  · split
    · split
      · exact hresolve s' _
      · rw [hresolve, line_eq_emit, foldl_line, emit_emit, emit_emit]
    · split
      · rw [hresolve, line_eq_emit, foldl_line, emit_emit, emit_emit]
      · exact foldl_eq_emit s' fun s it _ ↦ hresolve s _

def addSuccessorCode (successor : NamedConstraint SuccessorConstraint) : Code :=
  if successor.attr.isVariadic then
    stmt (.augmentField (.name "result") "successors" (.name (successor.name ++ "Successors")))
  else stmt (.expr (.method (.field (.name "result") "successors") "append"
    [.name (successor.name ++ "Successor")]))

def successorsCode : Code :=
  if .element .successors ∈ fmt.items then
    stmt (.augmentField (.name "result") "successors" (.name "fullSuccessors"))
  else .concat (op.opSuccs.successors.map addSuccessorCode)

theorem genParserSuccessorResolution_eq (s : PythonGenStream) :
    genParserSuccessorResolution op fmt s = s.emit (successorsCode op fmt) := by
  rw [genParserSuccessorResolution, successorsCode]
  split
  · exact line_eq_emit s _
  · refine foldl_eq_emit s fun s successor _ ↦ ?_
    rw [addSuccessorCode]
    split <;> exact line_eq_emit s _

def segmentsCode : Code :=
  if !fmt.allOperands && getTrait op "SizedOperandSegments" then
    stmt (.expr (Expr.result "addAttribute" [.str "operand_segment_sizes",
      Expr.parser "getI32VectorAttr" [.list (op.opType.operands.map segmentSize)]]))
  else .nil

theorem genParserVariadicSegmentResolution_eq (s : PythonGenStream) :
    genParserVariadicSegmentResolution op fmt s = s.emit (segmentsCode op fmt) := by
  rw [genParserVariadicSegmentResolution, segmentsCode]
  split
  · exact line_eq_emit s _
  · exact (emit_nil s).symm

/-- The body of the generated parser. -/
def parserCode : Code :=
  .concat (fmt.items.map (itemStorage op)) ++
  (.concat (fmt.items.map (itemCode md usesBuilder op)) ++
  ((buildableTypesCode usesBuilder fmt ++ (resultTypesCode op fmt ++ resolutionCode op fmt)) ++
  (successorsCode op fmt ++ (segmentsCode op fmt ++ stmt (.ret (.const "True"))))))

theorem genParser_eq (hstarts : ∀ item ∈ fmt.items, Item.Starts op item) (s : PythonGenStream) :
    genParser md usesBuilder op fmt s = s.emit (parserCode md usesBuilder op fmt) := by
  have hstorage : ∀ s, fmt.items.foldl (genItemParserStorage op) s =
      s.emit (.concat (fmt.items.map (itemStorage op))) :=
    fun s ↦ foldl_eq_emit s fun s item _ ↦ genItemParserStorage_eq op s item
  have hitems : ∀ s, fmt.items.foldl (genItemParser md usesBuilder op) s =
      s.emit (.concat (fmt.items.map (itemCode md usesBuilder op))) :=
    fun s ↦ foldl_eq_emit s fun s item hitem ↦
      genItemParser_eq md usesBuilder op s (hstarts item hitem)
  simp only [genParser, hstorage, hitems, genParserTypeResolution_eq,
    genParserSuccessorResolution_eq, genParserVariadicSegmentResolution_eq, line_eq_emit,
    emit_emit, Code.append_assoc, parserCode]

end ParserCode

/-! ## The printer -/

/-- The flags of the generator of the printer. -/
structure Flags where
  shouldEmitSpace : Bool
  lastWasPunctuation : Bool
  deriving DecidableEq, Repr

def PrinterGen.flags (g : PrinterGen) : Flags := ⟨g.shouldEmitSpace, g.lastWasPunctuation⟩

/-- The element is printed with a space in front of it. -/
def Flags.spaceBefore (flags : Flags) : Element → Bool
  | .literal text =>
    flags.shouldEmitSpace && shouldPrintSpaceBeforeLiteral flags.lastWasPunctuation text
  | .attrDict _ => false
  | _ => flags.shouldEmitSpace || !flags.lastWasPunctuation

/-- The flags behind an element. -/
def Flags.next (flags : Flags) : Element → Flags
  | .literal text =>
    ⟨decide (text.toList.length ≠ 1) || !frontIn text "<(\x7b[", !isKeywordLiteral text⟩
  | .attrDict _ => ⟨flags.shouldEmitSpace, false⟩
  | _ => ⟨true, false⟩

attribute [grind =] Flags.spaceBefore Flags.next

def Flags.start : Flags := ⟨true, false⟩

/-- `p.print(text)` -/
def printCode (text : String) : Code := stmt (.expr (Expr.p "print" [.str text]))

section PrinterCode

variable (md : Metadata) (op : OperationOp) (fmt : OperationFormat)

def regionCode (name : String) : Code :=
  stmt (.assign ["region"] (Expr.op "getRegion" [.str name])) ++
  (.block (.ifThen (.not (.method (.name "region") "empty" [])))
    (printCode "(" ++ (stmt (.expr (Expr.p "printBlockArguments"
      [.method (.name "region") "getBlock" [.const "0"]])) ++ printCode ")")) .nil ++
  stmt (.expr (Expr.p "printRegion" [.name "region", .const "False"])))

/-- The call that prints an element without a part of its own in the generator. -/
def printCall : Element → Option Expr
  | .attrDict withKeyword =>
    some (Expr.p ("printOptionalAttrDict" ++ if withKeyword then "WithKeyword" else "")
      [Expr.op "getAttrs" [], .list ((elidedAttrs op fmt).map .str)])
  | .var (.attr i) =>
    some (Expr.p
      (if ((op.opAttrs[i]?).bind fun attr ↦ md.attrTypeBuilder attr.2).isSome then
        "printAttributeWithoutType" else "printAttribute")
      [Expr.op "getAttr" [.str (attrName op i)]])
  | .var (.operand i) =>
    some (if isVariadicOperand op i then
      Expr.p "printOperands" [Expr.op "getOperandGroup" [.str (operandName op i)]]
      else Expr.p "printOperand" [Expr.op "getOperand" [.str (operandName op i)]])
  | .var (.successor i) =>
    some (if isVariadicSuccessor op i then
      Expr.p "printSuccessors" [Expr.op "getSuccessorGroup" [.str (successorName op i)]]
      else Expr.p "printSuccessor" [Expr.op "getSuccessor" [.str (successorName op i)]])
  | .operands => some (Expr.p "printOperands" [Expr.op "getOperands" []])
  | .successors => some (Expr.p "printSuccessors" [Expr.op "getSuccessors" []])
  | .type arg => some (Expr.p "printTypes" [genTypeOperandPrinter op arg])
  | .functionalType inputs outputs =>
    some (Expr.p "printFunctionalType"
      [genTypeOperandPrinter op inputs, genTypeOperandPrinter op outputs])
  | .symbol i =>
    some (Expr.p "printSymbolName"
      [.method (Expr.op "getAttr" [.str (attrName op i)]) "getValue" []])
  | _ => none

def printElementCode : Element → Code
  | .literal text => printCode text
  | .var (.region i) => regionCode (regionName op i)
  | element => ((printCall md op fmt element).map fun call ↦ stmt (.expr call)).getD .nil

/-- An element with the space in front of it. -/
def spacedCode (flags : Flags) (element : Element) : Code :=
  (if flags.spaceBefore element then printCode " " else .nil) ++
    printElementCode md op fmt element

/-- Elements one after the other. -/
def printElementsCode : Flags → List Element → Code
  | _, [] => .nil
  | flags, element :: elements =>
    spacedCode md op fmt flags element ++ printElementsCode (flags.next element) elements

def Flags.nextAll (flags : Flags) (elements : List Element) : Flags :=
  elements.foldl Flags.next flags

/-- A group whose anchor has a condition. -/
def Item.Anchored : Item → Prop
  | .element _ => True
  | .optional elements anchor => ((elements[anchor]?).bind (anchorCondition op)).isSome = true

def printItemCode (flags : Flags) : Item → Code
  | .element element => spacedCode md op fmt flags element
  | .optional elements anchor =>
    .block (.ifThen (((elements[anchor]?).bind (anchorCondition op)).getD (.const "True")))
      (printElementsCode md op fmt flags elements) .nil

def printItemsCode : Flags → List Item → Code
  | _, [] => .nil
  | flags, item :: items =>
    printItemCode md op fmt flags item ++
      printItemsCode (flags.nextAll item.elements) items

/-- The body of the generated printer. -/
def printerCode : Code :=
  stmt (.expr (Expr.p "print" [Expr.op "getName" []])) ++
    printItemsCode md op fmt .start fmt.items

end PrinterCode

/-- A generator of a printer with its stream behind some statements, and with some flags. -/
def PrinterGen.emit (g : PrinterGen) (code : Code) (flags : Flags) : PrinterGen :=
  ⟨g.stream.emit code, flags.shouldEmitSpace, flags.lastWasPunctuation⟩

section PrinterEq

variable (md : Metadata) (op : OperationOp) (fmt : OperationFormat)

@[simp]
theorem PrinterGen.flags_emit (g : PrinterGen) (code : Code) (flags : Flags) :
    (g.emit code flags).flags = flags := rfl

@[simp]
theorem PrinterGen.emit_emit (g : PrinterGen) (first second : Code) (flags flags' : Flags) :
    (g.emit first flags).emit second flags' = g.emit (first ++ second) flags' := by
  simp [PrinterGen.emit]

@[simp]
theorem PrinterGen.emit_nil (g : PrinterGen) : g.emit .nil g.flags = g := by
  simp [PrinterGen.emit, PrinterGen.flags]

theorem PrinterGen.line_eq (g : PrinterGen) (simple : Simple) :
    g.line simple = g.emit (stmt simple) g.flags := by
  simp [PrinterGen.line, PrinterGen.emit, PrinterGen.flags]

theorem PrinterGen.print_eq (g : PrinterGen) (text : String) :
    g.print text = g.emit (printCode text) g.flags := g.line_eq _

theorem PrinterGen.endif_emit_if (g : PrinterGen) (cond : Expr) (body : Code) (flags : Flags) :
    ((g.if_ cond).emit body flags).endif = g.emit (.block (.ifThen cond) body .nil) flags := by
  simp [PrinterGen.if_, PrinterGen.emit, PrinterGen.endif]

/-- A space, or none. -/
theorem PrinterGen.space_eq (g : PrinterGen) (space : Bool) :
    (if space then g.print " " else g) =
      g.emit (if space then printCode " " else .nil) g.flags := by
  cases space with
  | true => exact g.print_eq " "
  | false => exact g.emit_nil.symm

theorem genRegionPrinter_eq (name : String) (g : PrinterGen) :
    genRegionPrinter name g = g.emit (regionCode name) g.flags := by
  simp only [genRegionPrinter, PrinterGen.line_eq, PrinterGen.print_eq, PrinterGen.flags_emit,
    PrinterGen.emit_emit, PrinterGen.endif_emit_if, Code.append_assoc, regionCode]
  rfl

/-- What is neither a literal nor a dictionary. -/
theorem genElementBody_eq {element : Element} (g : PrinterGen)
    (hliteral : ∀ text, element ≠ .literal text) (hdict : ∀ keyword, element ≠ .attrDict keyword) :
    genElementBody md op g element = g.emit (printElementCode md op fmt element) g.flags := by
  cases element with
  | literal text => exact absurd rfl (hliteral text)
  | attrDict withKeyword => exact absurd rfl (hdict withKeyword)
  | var v =>
    cases v with
    | attr i => exact g.line_eq _
    | operand i =>
      rw [genElementBody, printElementCode, printCall]
      · split <;> exact g.line_eq _
      · exact fun _ ↦ Element.noConfusion
      · exact fun _ h ↦ Variable.noConfusion (Element.var.inj h)
    | result i => exact g.emit_nil.symm
    | successor i =>
      rw [genElementBody, printElementCode, printCall]
      · split <;> exact g.line_eq _
      · exact fun _ ↦ Element.noConfusion
      · exact fun _ h ↦ Variable.noConfusion (Element.var.inj h)
    | region i => exact genRegionPrinter_eq _ g
  | results => exact g.emit_nil.symm
  | functionalType inputs outputs => exact g.line_eq _
  | operands => exact g.line_eq _
  | successors => exact g.line_eq _
  | type arg => exact g.line_eq _
  | symbol i => exact g.line_eq _

theorem genLiteralPrinter_eq (text : String) (g : PrinterGen) :
    genLiteralPrinter text g =
      g.emit (spacedCode md op fmt g.flags (.literal text)) (g.flags.next (.literal text)) := by
  have hspaced := g.space_eq (g.flags.spaceBefore (.literal text))
  rw [genLiteralPrinter]
  change PrinterGen.mk ((if g.flags.spaceBefore (.literal text) then g.print " " else g).print
    text).stream _ _ = _
  rw [hspaced, PrinterGen.print_eq, PrinterGen.emit_emit]
  rfl

theorem genElementPrinter_eq (g : PrinterGen) (element : Element) :
    genElementPrinter md op fmt g element =
      g.emit (spacedCode md op fmt g.flags element) (g.flags.next element) := by
  have hother : (∀ text, element ≠ .literal text) → (∀ keyword, element ≠ .attrDict keyword) →
      genElementPrinter md op fmt g element = genElementBody md op
        { (if g.flags.spaceBefore element then g.print " " else g) with
          lastWasPunctuation := false, shouldEmitSpace := true } element →
      genElementPrinter md op fmt g element =
        g.emit (spacedCode md op fmt g.flags element) ⟨true, false⟩ := by
    intro hliteral hdict h
    rw [h, genElementBody_eq md op fmt _ hliteral hdict, g.space_eq]
    exact PrinterGen.emit_emit g _ _ ⟨true, false⟩ ⟨true, false⟩
  cases element with
  | literal text => exact genLiteralPrinter_eq md op fmt text g
  | attrDict withKeyword =>
    rw [genElementPrinter, genAttrDictPrinter, PrinterGen.line_eq]
    rfl
  | _ => exact hother (fun _ ↦ Element.noConfusion) (fun _ ↦ Element.noConfusion) rfl

theorem genElementsPrinter_eq (g : PrinterGen) (elements : List Element) :
    elements.foldl (genElementPrinter md op fmt) g =
      g.emit (printElementsCode md op fmt g.flags elements) (g.flags.nextAll elements) := by
  induction elements generalizing g with
  | nil => exact g.emit_nil.symm
  | cons element elements ih =>
    rw [List.foldl_cons, genElementPrinter_eq, ih, PrinterGen.flags_emit, PrinterGen.emit_emit]
    rfl

theorem genItemPrinter_eq (g : PrinterGen) {item : Item} (h : Item.Anchored op item) :
    genItemPrinter md op fmt g item =
      g.emit (printItemCode md op fmt g.flags item) (g.flags.nextAll item.elements) := by
  cases item with
  | element element => exact genElementPrinter_eq md op fmt g element
  | optional elements anchor =>
    obtain ⟨cond, hcond⟩ := Option.isSome_iff_exists.mp h
    rw [genItemPrinter, printItemCode, hcond]
    change (elements.foldl (genElementPrinter md op fmt) (g.if_ cond)).endif = _
    rw [genElementsPrinter_eq, PrinterGen.endif_emit_if]
    rfl

theorem genItemsPrinter_eq (g : PrinterGen) {items : List Item}
    (h : ∀ item ∈ items, Item.Anchored op item) :
    items.foldl (genItemPrinter md op fmt) g =
      g.emit (printItemsCode md op fmt g.flags items) (g.flags.nextAll (leaves items)) := by
  induction items generalizing g with
  | nil => exact g.emit_nil.symm
  | cons item items ih =>
    rw [List.forall_mem_cons] at h
    have hflags : g.flags.nextAll (leaves (item :: items)) =
        (g.flags.nextAll item.elements).nextAll (leaves items) := List.foldl_append
    rw [List.foldl_cons, genItemPrinter_eq md op fmt g h.1, ih _ h.2, PrinterGen.flags_emit,
      PrinterGen.emit_emit, hflags]
    rfl

theorem genPrinter_eq (h : ∀ item ∈ fmt.items, Item.Anchored op item) (s : PythonGenStream) :
    genPrinter md op fmt s = s.emit (printerCode md op fmt) := by
  rw [genPrinter, genItemsPrinter_eq md op fmt _ h, line_eq_emit]
  exact emit_emit s _ _

end PrinterEq

end DeclarativeMlir.Embed.OpGenerator

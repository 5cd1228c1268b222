import DeclarativeMlir.Embed.GeneratedCode
import DeclarativeMlir.Embed.OpFormatExactness

/-!
# Well-formed generated functions

The functions that are generated for an accepted format: whether their lines are statements, whether
variables are assigned before they are read on all paths, and whether the methods that are called
are exposed to Python.
-/

namespace DeclarativeMlir.Embed.OpGenerator

open Spec OpFormat PythonCode

/-! ## Exposed methods -/

/-- The methods of the classes `OpAsmParser`, `OperationState`, `OpAsmPrinter` and `OperationWrap`,
with the numbers of arguments that they take. -/
def exposedMethods : String → List (String × List ℕ)
  | "parser" => [("getCurrentLocation", [0]), ("parseOperand", [0]), ("parseAttribute", [2, 3]),
    ("parseSymbolName", [2]), ("parseOptionalAttrDict", [1]),
    ("parseOptionalAttrDictWithKeyword", [1]), ("parseType", [0]), ("resolveOperands", [3, 4]),
    ("parseFunctionalType", [0]), ("parseKeyword", [1]), ("parseOptionalKeyword", [1]),
    ("parseOperandList", [0]), ("parseTypeList", [0]), ("parseRegionWithArguments", [1]),
    ("parseArrow", [0]), ("parseColon", [0]), ("parseComma", [0]), ("parseEqual", [0]),
    ("parseLess", [0]), ("parseGreater", [0]), ("parseLParen", [0]), ("parseRParen", [0]),
    ("parseLSquare", [0]), ("parseRSquare", [0]), ("parseOptionalArrow", [0]),
    ("parseOptionalColon", [0]), ("parseOptionalComma", [0]), ("parseOptionalLess", [0]),
    ("parseOptionalGreater", [0]), ("parseOptionalLParen", [0]), ("parseOptionalRParen", [0]),
    ("parseOptionalLSquare", [0]), ("parseOptionalRSquare", [0]), ("parseOptionalEllipsis", [0])]
  | "result" => [("addTypes", [1]), ("addRegion", [0])]
  | "p" => [("printOperand", [1]), ("printOperands", [1]), ("printType", [1]), ("printTypes", [1]),
    ("printAttribute", [1]), ("printAttributeWithoutType", [1]), ("printSymbolName", [1]),
    ("printSuccessor", [1]), ("printSuccessorAndUseList", [2]), ("printOptionalAttrDict", [1, 2]),
    ("printOptionalAttrDictWithKeyword", [1, 2]), ("printGenericOp", [1]),
    ("printRegion", [1, 2, 3]), ("printBlockArguments", [1]), ("shadowRegionArgs", [2]),
    ("printAffineMapOfSSAIds", [2]), ("printOptionalArrowTypeList", [1]),
    ("printArrowTypeList", [1]), ("printFunctionalType", [1, 2])]
  | "op" => [("getName", [0]), ("getAttrs", [0]), ("getAttr", [1]), ("getOperandTypes", [0]),
    ("getResultTypes", [0]), ("getOperand", [1]), ("getResult", [1]), ("getOperandGroup", [1]),
    ("getResultGroup", [1]), ("getOperands", [0]), ("getRegion", [1])]
  | _ => []

/-- `print` takes any number of arguments. Calls of other objects are left to them. -/
def isExposed (call : Expr.Call) : Bool :=
  decide (call.object ∉ ["parser", "result", "p", "op"]) ||
    (call.object == "p" && call.method == "print") ||
    (exposedMethods call.object).any fun method ↦
      method.1 == call.method && decide (call.numArgs ∈ method.2)

/-! ## Well-formed functions -/

/-- The indentation of the body of a function. -/
def bodyIndent : ℕ := 4

/-- The body of a function with some parameters. -/
structure WellFormed (params : List String) (gen : PythonGenStream → PythonGenStream) : Prop where
  /-- the indentation returns to its start -/
  indent : (gen ⟨[], bodyIndent⟩).indent = bodyIndent
  /-- the lines are the lines of statements, in which every block has a statement -/
  code : ∃ code, Reads bodyIndent (gen ⟨[], bodyIndent⟩).lines code ∧
    (∀ x, ¬ Path {x | x ∈ params} code (.unassigned x)) ∧
    ∀ call ∈ code.calls, isExposed call = true

/-- All methods that are called are exposed. -/
def Exposed (code : Code) : Prop := ∀ call ∈ code.calls, isExposed call = true

theorem wellFormed_iff {params : List String} {gen : PythonGenStream → PythonGenStream}
    {code : Code} (h : ∀ s : PythonGenStream, gen s = s.emit code) :
    WellFormed params gen ↔ code.Filled ∧
      (∀ x, ¬ Path {x | x ∈ params} code (.unassigned x)) ∧ Exposed code := by
  have hlines : (gen ⟨[], bodyIndent⟩).lines = code.lines bodyIndent := by
    rw [h]
    rfl
  have hindent : (gen ⟨[], bodyIndent⟩).indent = bodyIndent := by
    rw [h]
    rfl
  constructor
  · intro hwell
    obtain ⟨code', hreads, hpath, hcalls⟩ := hwell.code
    rw [hlines, reads_lines_iff] at hreads
    obtain ⟨hfilled, rfl⟩ := hreads
    exact ⟨hfilled, hpath, hcalls⟩
  · rintro ⟨hfilled, hpath, hcalls⟩
    refine ⟨hindent, code, ?_, hpath, hcalls⟩
    rw [hlines, reads_lines_iff]
    exact ⟨hfilled, rfl⟩

section ExposedCode

theorem exposed_of_all {code : Code} (h : code.calls.all isExposed = true) : Exposed code :=
  fun call hcall ↦ List.all_eq_true.mp h call hcall

/-- One call that is not exposed is too many. -/
theorem not_exposed {code : Code} {call : Expr.Call} (hcall : call ∈ code.calls)
    (h : isExposed call = false) : ¬ Exposed code := by
  intro hexposed
  rw [hexposed call hcall] at h
  cases h

@[simp]
theorem exposed_nil : Exposed .nil := by simp [Exposed, Code.calls]

@[simp]
theorem exposed_append {first second : Code} :
    Exposed (first ++ second) ↔ Exposed first ∧ Exposed second := by
  simp only [Exposed, Code.calls_append, List.forall_mem_append]

@[simp]
theorem exposed_block {header : Header} {body rest : Code} :
    Exposed (.block header body rest) ↔
      (∀ call ∈ header.cond.calls, isExposed call = true) ∧ Exposed body ∧ Exposed rest := by
  simp only [Exposed, Code.calls, List.forall_mem_append, and_assoc]

theorem exposed_stmt {simple : Simple} :
    Exposed (stmt simple) ↔ ∀ call ∈ simple.calls, isExposed call = true := by
  simp [Exposed, stmt, Code.calls]

theorem exposed_concat {codes : List Code} :
    Exposed (.concat codes) ↔ ∀ code ∈ codes, Exposed code := by
  simp only [Exposed, Code.mem_calls_concat]
  exact ⟨fun h code hcode call hcall ↦ h call ⟨code, hcode, hcall⟩,
    fun h call hmem ↦ hmem.elim fun code hcode ↦ h code hcode.1 call hcode.2⟩

@[simp]
theorem exposed_guard {cond : Expr} :
    Exposed (guard cond) ↔ ∀ call ∈ cond.calls, isExposed call = true := by
  simp [guard, exposed_stmt, Header.cond, Expr.calls, returnFalse, Simple.calls, Simple.value]

@[simp]
theorem exposed_checked {target : String} {call : Expr} :
    Exposed (checked target call) ↔ ∀ c ∈ call.calls, isExposed c = true := by
  simp [checked, exposed_stmt, Simple.calls, Simple.value, Expr.calls]

/-- A method of one of the variables, with arguments that call nothing. -/
theorem calls_method {object method : String} {args : List Expr}
    (hargs : Expr.callsAll args = []) :
    (Expr.method (.name object) method args).calls = [⟨object, method, args.length⟩] := by
  simp [Expr.method, Expr.calls, Expr.callOf, hargs]

end ExposedCode


/-! ## Accepted formats -/

section Accepted

variable {md : Metadata} {op : OperationOp} {items : List Item}

theorem lawfulItem_of_mem {before : List Element} (h : LawfulItems md op before items)
    {item : Item} (hitem : item ∈ items) : ∃ before', LawfulItem md op before' item := by
  induction items generalizing before with
  | nil => cases hitem
  | cons first items ih =>
    rcases List.mem_cons.mp hitem with rfl | hitem
    · exact ⟨before, h.1⟩
    · exact ih h.2 hitem

theorem lawfulChild_of_getElem? {anchor : Option ℕ} {k : ℕ} {before elements : List Element}
    (h : LawfulChildren md op anchor k before elements) {j : ℕ} {element : Element}
    (helement : elements[j]? = some element) :
    ∃ before', LawfulChild md op (anchor == some (k + j)) before' element := by
  induction elements generalizing k before j with
  | nil => cases helement
  | cons first elements ih =>
    cases j with
    | zero =>
      obtain rfl := Option.some.inj helement
      exact ⟨before, h.1⟩
    | succ j =>
      have hrest := ih h.2 helement
      rwa [Nat.add_right_comm] at hrest

theorem spells_of_mem {tokens : List FormatToken} (h : SpellsItems op items tokens) {item : Item}
    (hitem : item ∈ items) : ∃ text, item.Spells op text := by
  induction items generalizing tokens with
  | nil => cases hitem
  | cons first items ih =>
    obtain ⟨text, rest, hfirst, hrest, -⟩ := h
    rcases List.mem_cons.mp hitem with rfl | hitem
    · exact ⟨text, hfirst⟩
    · exact ih hrest hitem

/-- An anchor is found before, or it is among the elements. -/
theorem anchor_lt_of_spells {k : ℕ} {anchor anchor' : Option ℕ} {elements : List Element}
    {text : List FormatToken} (h : SpellsChildren op k anchor anchor' elements text) :
    anchor' = anchor ∨ ∃ j < elements.length, anchor' = some (k + j) := by
  induction h with
  | nil => exact .inl rfl
  | cons _ _ ih =>
    rcases ih with ih | ⟨j, hj, ih⟩
    · exact .inl ih
    · right
      exact ⟨j + 1, Nat.succ_lt_succ hj, by rw [ih, Nat.add_right_comm, Nat.add_assoc]⟩
  | anchor _ _ ih =>
    right
    rcases ih with ih | ⟨j, hj, ih⟩
    · exact ⟨0, Nat.succ_pos _, ih⟩
    · exact ⟨j + 1, Nat.succ_lt_succ hj, by rw [ih, Nat.add_right_comm, Nat.add_assoc]⟩

/-- The elements that a group can have. -/
def IsChild (op : OperationOp) : Element → Prop
  | .var (.attr _) | .literal _ | .type _ | .functionalType .. => True
  | .var (.operand i) => isVariadicOperand op i = true
  | _ => False

theorem isChild_of_checkChild {isAnchor : Bool} {element : Element}
    (h : checkChild md op isAnchor element = .ok ()) : IsChild op element := by
  cases element with
  | var v =>
    cases v with
    | operand i =>
      rw [checkChild] at h
      split at h
      · rename_i hvariadic
        exact hvariadic
      · cases h
    | attr i => trivial
    | _ => cases h
  | literal text => trivial
  | type arg => trivial
  | functionalType inputs outputs => trivial
  | _ => cases h

/-- The facts about the groups of an accepted format. -/
structure LawfulGroup (op : OperationOp) (elements : List Element) (anchor : ℕ) : Prop where
  starts : (groupCondition op elements).isSome = true
  anchored : ((elements[anchor]?).bind (anchorCondition op)).isSome = true
  children : ∀ element ∈ elements, IsChild op element

theorem lawfulGroup_of_mem {tokens : List FormatToken} (hspells : SpellsItems op items tokens)
    (hlawful : LawfulItems md op [] items) {elements : List Element} {anchor : ℕ}
    (hitem : .optional elements anchor ∈ items) : LawfulGroup op elements anchor := by
  obtain ⟨before, hchildren, hgroup⟩ := lawfulItem_of_mem hlawful hitem
  obtain ⟨_, -, body, hbody, -⟩ := spells_of_mem hspells hitem
  have hchild : ∀ j element, elements[j]? = some element →
      checkChild md op (some anchor == some j) element = .ok () := by
    intro j element helement
    obtain ⟨_, -, hcheck⟩ := lawfulChild_of_getElem? hchildren helement
    rwa [Nat.zero_add] at hcheck
  constructor
  · rw [checkGroup, groupOf] at hgroup
    dsimp only at hgroup
    split at hgroup
    · cases hgroup
    · rename_i hfirst
      rw [Bool.not_eq_true', Bool.not_eq_false, Option.any_eq_true] at hfirst
      obtain ⟨first, hhead, hfirst⟩ := hfirst
      rw [groupCondition, hhead]
      unfold isFirstElement at hfirst
      split at hfirst
      · rfl
      · rfl
      · cases hfirst
  · obtain ⟨j, hj, hanchor⟩ : ∃ j < elements.length, some anchor = some (0 + j) := by
      rcases anchor_lt_of_spells hbody with hnone | hsome
      · cases hnone
      · exact hsome
    rw [Nat.zero_add, Option.some.injEq] at hanchor
    subst hanchor
    have hcheck := hchild anchor elements[anchor] (List.getElem?_eq_getElem hj)
    rw [beq_self_eq_true] at hcheck
    rw [List.getElem?_eq_getElem hj, Option.bind_some]
    generalize elements[anchor] = element at hcheck
    have hchild := isChild_of_checkChild hcheck
    cases element with
    | var v =>
      cases v with
      | attr i => rfl
      | operand i =>
        have hvariadic : isVariadicOperand op i = true := hchild
        simp [anchorCondition, hvariadic]
      | _ => exact hchild.elim
    | literal text => cases hcheck
    | type arg => cases hcheck
    | functionalType inputs outputs => cases hcheck
    | _ => exact hchild.elim
  · intro element helement
    obtain ⟨j, hj⟩ := List.mem_iff_getElem?.mp helement
    exact isChild_of_checkChild (hchild j element hj)

theorem lawful_of_mem_leaves (h : LawfulItems md op [] items) {element : Element}
    (helement : element ∈ leaves items) : ∃ before, Lawful op before element := by
  obtain ⟨item, hitem, helement⟩ := List.mem_flatMap.mp helement
  obtain ⟨before, hlawful⟩ := lawfulItem_of_mem h hitem
  cases item with
  | element e =>
    obtain rfl := List.mem_singleton.mp helement
    exact ⟨before, hlawful⟩
  | optional elements anchor =>
    obtain ⟨j, hj⟩ := List.mem_iff_getElem?.mp helement
    obtain ⟨before', hchild, -⟩ := lawfulChild_of_getElem? hlawful.1 hj
    exact ⟨before', hchild⟩

end Accepted


/-! ## Elements -/

section Elements

variable (md : Metadata) (usesBuilder : String → Bool) (op : OperationOp)

/-- The builder of the type of an attribute. -/
def attrTypeBuilder (i : ℕ) : Option String :=
  (op.opAttrs[i]?).bind fun attr ↦ md.attrTypeBuilder attr.2

/-- An element for which only exposed methods are called. -/
def Element.Covered : Element → Prop
  | .var (.attr i) => ∀ text, attrTypeBuilder md op i = some text → usesBuilder text = false
  | .var (.successor _) => False
  | .successors => False
  | _ => True

/-- No element is about successors. -/
def Element.IsSuccessor : Element → Prop
  | .var (.successor _) => True
  | .successors => True
  | _ => False

theorem calls_builderExpr (text : String) :
    (builderExpr usesBuilder text).calls =
      if usesBuilder text then [⟨"parser", "getBuilder", 0⟩] else [] := by
  cases husesBuilder : usesBuilder text <;>
    simp [builderExpr, husesBuilder, Expr.calls, Expr.callsAll, Expr.callOf, Expr.parser,
      Expr.method]

theorem exposed_builderExpr (text : String) :
    (∀ call ∈ (builderExpr usesBuilder text).calls, isExposed call = true) ↔
      usesBuilder text = false := by
  rw [calls_builderExpr]
  cases usesBuilder text with
  | true =>
    have hnot : isExposed ⟨"parser", "getBuilder", 0⟩ = false := by decide
    simp [hnot]
  | false => simp

/-- A literal is a keyword or one of the punctuations. -/
theorem punctuation_of_isValidLiteral {text : String} (h : isValidLiteral text = true)
    (hkeyword : isKeywordLiteral text = false) :
    text ∈ ["->", ":", ",", "=", "<", ">", "(", ")", "[", "]"] := by
  rw [isValidLiteral] at h
  rw [isKeywordLiteral] at hkeyword
  split at h
  · cases h
  · rename_i front htext
    rw [htext] at hkeyword
    simp only [Bool.or_eq_false_iff, beq_eq_false_iff_ne] at hkeyword
    have hfront : text = String.ofList [front] := by rw [← htext, String.ofList_toList]
    simp only [hkeyword.2, Bool.false_or, decide_eq_true_eq, List.mem_cons, List.not_mem_nil,
      or_false, hkeyword.1, false_or] at h
    rcases h with rfl | rfl | rfl | rfl | rfl | rfl | rfl | rfl | rfl <;> rw [hfront] <;> decide
  · rename_i front rest hrest htext
    rw [htext] at hkeyword
    simp only [Bool.or_eq_false_iff, beq_eq_false_iff_ne] at hkeyword
    simp only [hkeyword.2, Bool.false_or, Bool.or_eq_true, beq_iff_eq, Bool.and_eq_true,
      hkeyword.1, false_and, or_false] at h
    rw [h]
    decide

theorem exposed_literalParser {text : String} (h : isValidLiteral text = true) :
    ∀ call ∈ (getParserForLiteral text false).calls, isExposed call = true := by
  cases hkeyword : isKeywordLiteral text with
  | true =>
    have hcalls : (getParserForLiteral text false).calls = [⟨"parser", "parseKeyword", 1⟩] := by
      rw [getParserForLiteral, hkeyword]
      exact calls_method rfl
    rw [hcalls, List.forall_mem_singleton]
    decide
  | false =>
    have hmem := punctuation_of_isValidLiteral h hkeyword
    simp only [List.mem_cons, List.not_mem_nil, or_false] at hmem
    rcases hmem with rfl | rfl | rfl | rfl | rfl | rfl | rfl | rfl | rfl | rfl <;> decide

/-- The parsers of optional literals are exposed but for the one of `=`. -/
theorem exposed_optionalLiteralParser {text : String} (h : isValidLiteral text = true) :
    (∀ call ∈ (getParserForLiteral text true).calls, isExposed call = true) ↔ text ≠ "=" := by
  cases hkeyword : isKeywordLiteral text with
  | true =>
    have hcalls : (getParserForLiteral text true).calls =
        [⟨"parser", "parseOptionalKeyword", 1⟩] := by
      rw [getParserForLiteral, hkeyword]
      exact calls_method rfl
    rw [hcalls, List.forall_mem_singleton]
    apply iff_of_true
    · decide
    · rintro rfl
      exact Bool.noConfusion hkeyword
  | false =>
    have hmem := punctuation_of_isValidLiteral h hkeyword
    simp only [List.mem_cons, List.not_mem_nil, or_false] at hmem
    rcases hmem with rfl | rfl | rfl | rfl | rfl | rfl | rfl | rfl | rfl | rfl <;> decide

theorem exposed_attrParser (i : ℕ) :
    Exposed (elementCode md usesBuilder op (.var (.attr i))) ↔
      Element.Covered md usesBuilder op (.var (.attr i)) := by
  have hbuilder : attrBuilder md usesBuilder op i =
      ((attrTypeBuilder md op i).map (builderExpr usesBuilder)).toList := rfl
  rw [elementCode, exposed_guard, hbuilder, Element.Covered]
  cases attrTypeBuilder md op i with
  | none =>
    apply iff_of_true
    · exact List.all_eq_true.mp rfl
    · rintro text ⟨⟩
  | some text =>
    have hcalls : (Expr.parser "parseAttribute" ([.name "result", .str (attrName op i)] ++
        ((some text).map (builderExpr usesBuilder)).toList)).calls =
        ⟨"parser", "parseAttribute", 3⟩ :: (builderExpr usesBuilder text).calls := by
      simp [Expr.parser, Expr.method, Expr.calls, Expr.callsAll, Expr.callOf]
    have hparse : isExposed ⟨"parser", "parseAttribute", 3⟩ = true := by decide
    rw [hcalls, List.forall_mem_cons, exposed_builderExpr]
    simp [hparse]

theorem exposed_elementCode_iff {element : Element} (h : ∃ before, Lawful op before element) :
    Exposed (elementCode md usesBuilder op element) ↔
      Element.Covered md usesBuilder op element := by
  obtain ⟨before, hlawful⟩ := h
  cases element with
  | literal text =>
    rw [elementCode, exposed_guard]
    exact iff_of_true (exposed_literalParser hlawful) trivial
  | var v =>
    cases v with
    | attr i => exact exposed_attrParser md usesBuilder op i
    | operand i =>
      apply iff_of_true _ trivial
      rw [elementCode, operandCode]
      split <;> exact exposed_of_all rfl
    | result i => exact hlawful.elim
    | successor i =>
      apply iff_of_false _ not_false
      rw [elementCode]
      split
      · exact not_exposed (List.mem_cons_self ..) rfl
      · exact not_exposed (List.mem_cons_self ..) rfl
    | region i => exact iff_of_true (exposed_of_all rfl) trivial
  | attrDict withKeyword =>
    apply iff_of_true _ trivial
    cases withKeyword <;> exact exposed_of_all rfl
  | functionalType inputs outputs => exact iff_of_true (exposed_of_all rfl) trivial
  | operands => exact iff_of_true (exposed_of_all rfl) trivial
  | results => exact hlawful.elim
  | successors => exact iff_of_false (not_exposed (List.mem_cons_self ..) rfl) not_false
  | type arg =>
    apply iff_of_true _ trivial
    rw [elementCode, typeCode]
    split <;> exact exposed_of_all rfl
  | symbol i => exact iff_of_true (exposed_of_all rfl) trivial

@[simp]
theorem filled_stmt (simple : Simple) : (stmt simple).Filled := trivial

@[simp]
theorem filled_guard (cond : Expr) : (guard cond).Filled :=
  ⟨fun h ↦ Code.noConfusion h, trivial, trivial⟩

@[simp]
theorem filled_checked (target : String) (call : Expr) : (checked target call).Filled := by
  simp [checked]

theorem filled_successorListCode (name : String) : (successorListCode name).Filled := by
  simp [successorListCode, Code.Filled, checked, stmt, guard]

theorem filled_elementCode (element : Element) :
    (elementCode md usesBuilder op element).Filled := by
  cases element with
  | var v =>
    cases v with
    | operand i =>
      rw [elementCode, operandCode]
      split <;> simp
    | successor i =>
      rw [elementCode]
      split
      · exact filled_successorListCode _
      · simp
    | result i => trivial
    | _ => simp [elementCode]
  | type arg =>
    rw [elementCode, typeCode]
    split <;> simp
  | successors => exact filled_successorListCode _
  | results => trivial
  | _ => simp [elementCode]

/-- There is something to parse of every element of a group. -/
theorem elementCode_ne_nil {element : Element} (h : IsChild op element) :
    elementCode md usesBuilder op element ≠ .nil := by
  cases element with
  | var v =>
    cases v with
    | attr i => exact fun h ↦ Code.noConfusion h
    | operand i =>
      rw [elementCode, operandCode]
      split <;> exact fun h ↦ Code.noConfusion h
    | _ => exact h.elim
  | literal text => exact fun h ↦ Code.noConfusion h
  | type arg =>
    rw [elementCode, typeCode]
    split <;> exact fun h ↦ Code.noConfusion h
  | functionalType inputs outputs => exact fun h ↦ Code.noConfusion h
  | _ => exact h.elim

end Elements


/-! ## Assigned variables -/

section Assigned

variable (md : Metadata) (usesBuilder : String → Bool) (op : OperationOp)

/-- The variable for the types of an argument of a type directive. -/
def typesVariable (arg : TypeArg) : String := (getTypeListName op arg).1 ++ "Types"

/-- The variables that are made for an element in front of all elements. -/
def storageVariables : Element → List String
  | .var (.operand i) => [operandName op i ++ "Operands", operandName op i ++ "OperandsLoc"]
  | element => element.typeArgs.map (typesVariable op)

/-- The variables that the parser of an element makes and the code behind the elements may read. -/
def madeVariables : Element → List String
  | .operands => ["allOperandLoc", "allOperands"]
  | _ => []

/-- The parameters of a parser. -/
def parserParams : Set String := {x | x ∈ ["parser", "result"]}

@[simp]
theorem assigned_stmt (simple : Simple) : (stmt simple).assigned = {x | x ∈ simple.writes} := by
  simp [stmt, Code.assigned]

@[simp]
theorem definitelyAssigned_stmt (pre : Set String) (simple : Simple) :
    (stmt simple).DefinitelyAssigned pre ↔ ∀ x ∈ simple.reads, x ∈ pre := by
  simp [stmt, Code.DefinitelyAssigned]

@[simp]
theorem definitelyAssigned_guard (pre : Set String) (cond : Expr) :
    (guard cond).DefinitelyAssigned pre ↔ ∀ x ∈ cond.reads, x ∈ pre := by
  simp [guard, Code.DefinitelyAssigned, Header.cond, Expr.reads, returnFalse, Simple.reads]

@[simp]
theorem assigned_guard (cond : Expr) : (guard cond).assigned = ∅ := rfl

@[simp]
theorem definitelyAssigned_checked (pre : Set String) (target : String) (call : Expr) :
    (checked target call).DefinitelyAssigned pre ↔ ∀ x ∈ call.reads, x ∈ pre := by
  simp [checked, Code.definitelyAssigned_append, Simple.reads, Simple.writes, Expr.reads]

@[simp]
theorem assigned_checked (target : String) (call : Expr) :
    (checked target call).assigned = {x | x ∈ [target, "success"]} := by
  simp [checked, Simple.writes]

/-- A method of a variable reads the variable and what its arguments read. -/
@[simp]
theorem reads_method (object method : String) (args : List Expr) :
    (Expr.method (.name object) method args).reads = object :: Expr.readsAll args := rfl

variable {op}

theorem definitelyAssigned_elementStorage {pre : Set String} (hpre : parserParams ⊆ pre)
    (element : Element) : (elementStorage op element).DefinitelyAssigned pre := by
  have hparser : "parser" ∈ pre := hpre (by simp [parserParams])
  have hlist : ∀ isVariadic : Bool,
      (Expr.list (if isVariadic then [] else [.const "None"])).reads = [] := by
    intro isVariadic
    cases isVariadic <;> rfl
  cases element with
  | var v =>
    cases v with
    | operand i =>
      simp [elementStorage, operandStorage, Code.definitelyAssigned_append, Simple.reads, hlist,
        Expr.parser, Expr.readsAll, hparser]
    | _ => trivial
  | type arg => simp [elementStorage, typeStorage, Simple.reads, hlist]
  | functionalType inputs outputs =>
    simp [elementStorage, Code.definitelyAssigned_append, Simple.reads, Expr.reads, Expr.readsAll]
  | _ => trivial

theorem assigned_elementStorage (element : Element) :
    ∀ x ∈ storageVariables op element, x ∈ (elementStorage op element).assigned := by
  cases element with
  | var v =>
    cases v with
    | operand i => simp [elementStorage, operandStorage, storageVariables, Simple.writes]
    | _ => simp [storageVariables, Element.typeArgs]
  | _ =>
    simp [elementStorage, storageVariables, Element.typeArgs, typeStorage, typesVariable,
      Simple.writes]

theorem reads_builderExpr {pre : Set String} (text : String) (hparser : "parser" ∈ pre) :
    ∀ x ∈ (builderExpr usesBuilder text).reads, x ∈ pre := by
  rw [builderExpr]
  split <;> simp [Expr.parser, Expr.reads, Expr.readsAll, hparser]

theorem definitelyAssigned_elementCode {pre : Set String} (hpre : parserParams ⊆ pre)
    {element : Element} (hstorage : ∀ x ∈ storageVariables op element, x ∈ pre)
    (hcovered : Element.Covered md usesBuilder op element) :
    (elementCode md usesBuilder op element).DefinitelyAssigned pre := by
  have hparser : "parser" ∈ pre := hpre (by simp [parserParams])
  have hresult : "result" ∈ pre := hpre (by simp [parserParams])
  cases element with
  | literal text =>
    rw [elementCode, getParserForLiteral]
    split <;> simp [Expr.parser, Expr.reads, Expr.readsAll, hparser]
  | var v =>
    cases v with
    | attr i =>
      have hbuilder : attrBuilder md usesBuilder op i =
          ((attrTypeBuilder md op i).map (builderExpr usesBuilder)).toList := rfl
      rw [elementCode, hbuilder, definitelyAssigned_guard]
      cases attrTypeBuilder md op i with
      | none => simp [Expr.parser, Expr.reads, Expr.readsAll, hparser, hresult]
      | some text =>
        simpa [Expr.parser, Expr.reads, Expr.readsAll, hparser, hresult] using
          reads_builderExpr usesBuilder text hparser
    | operand i =>
      rw [elementCode, operandCode]
      simp only [storageVariables, List.mem_cons, List.not_mem_nil, or_false, forall_eq_or_imp,
        forall_eq] at hstorage
      split <;> simp [Code.definitelyAssigned_append, Expr.parser, Expr.reads, Expr.readsAll,
        Simple.reads, hparser, hstorage]
    | result i => trivial
    | successor i => exact hcovered.elim
    | region i =>
      simp [elementCode, Code.definitelyAssigned_append, Expr.parser, Expr.result, Expr.reads,
        Expr.readsAll, Simple.reads, Simple.writes, hparser, hresult]
  | attrDict withKeyword =>
    simp [elementCode, Expr.parser, Expr.reads, Expr.readsAll, hparser, hresult]
  | functionalType inputs outputs =>
    simp [elementCode, Code.definitelyAssigned_append, Expr.parser, Expr.reads, Expr.readsAll,
      Simple.reads, Simple.writes, hparser]
  | operands =>
    simp [elementCode, Code.definitelyAssigned_append, Expr.parser, Expr.readsAll,
      Simple.reads, hparser]
  | results => trivial
  | successors => exact hcovered.elim
  | type arg =>
    have htypes : (getTypeListName op arg).1 ++ "Types" ∈ pre := by
      simpa [storageVariables, Element.typeArgs, typesVariable] using hstorage
    rw [elementCode, typeCode]
    split <;> simp [Code.definitelyAssigned_append, Expr.parser, Expr.reads, Expr.readsAll,
        Simple.reads, hparser, htypes]
  | symbol i => simp [elementCode, Expr.parser, Expr.reads, Expr.readsAll, hparser, hresult]

theorem assigned_elementCode (element : Element) :
    ∀ x ∈ madeVariables element, x ∈ (elementCode md usesBuilder op element).assigned := by
  cases element with
  | operands => simp [madeVariables, elementCode, Simple.writes]
  | _ => simp [madeVariables]

end Assigned


/-! ## Items -/

/-- What is known of a format that the parser has accepted. -/
structure AcceptedFormat (md : Metadata) (op : OperationOp) (fmt : OperationFormat) : Prop where
  spells : ∃ tokens, SpellsItems op fmt.items tokens
  lawful : LawfulItems md op [] fmt.items
  verified : Verified md op fmt.items (seenAfter (leaves fmt.items)) fmt

theorem acceptedFormat_of_parse {md : Metadata} {op : OperationOp} {tokens : List FormatToken}
    {fmt : OperationFormat} (h : parse md op tokens = .ok fmt) : AcceptedFormat md op fmt := by
  have hspells := parse_ok_spells h
  have haccepted := (accepted_iff hspells).mp ⟨fmt, h⟩
  have houtcome := @outcome_parse md op fmt.items
  rw [parse_spelled hspells] at h
  obtain ⟨seen, hseen, hverify⟩ := bind_eq_ok.mp h
  rw [hseen] at houtcome
  cases houtcome
  exact ⟨⟨tokens, hspells⟩, haccepted.lawful, verifyFormat_ok hverify⟩

section Items

variable {md : Metadata} {usesBuilder : String → Bool} {op : OperationOp} {fmt : OperationFormat}

namespace AcceptedFormat

theorem group (h : AcceptedFormat md op fmt) {elements : List Element} {anchor : ℕ}
    (hitem : .optional elements anchor ∈ fmt.items) : LawfulGroup op elements anchor := by
  obtain ⟨tokens, hspells⟩ := h.spells
  exact lawfulGroup_of_mem hspells h.lawful hitem

theorem starts (h : AcceptedFormat md op fmt) : ∀ item ∈ fmt.items, Item.Starts op item := by
  intro item hitem
  cases item with
  | element element => trivial
  | optional elements anchor => exact (h.group hitem).starts

theorem anchored (h : AcceptedFormat md op fmt) : ∀ item ∈ fmt.items, Item.Anchored op item := by
  intro item hitem
  cases item with
  | element element => trivial
  | optional elements anchor => exact (h.group hitem).anchored

theorem element (h : AcceptedFormat md op fmt) {element : Element}
    (helement : element ∈ leaves fmt.items) : ∃ before, Lawful op before element :=
  lawful_of_mem_leaves h.lawful helement

/-- The directive for all operands is not in a group. -/
theorem allOperands_iff (h : AcceptedFormat md op fmt) :
    fmt.allOperands = true ↔ .operands ∈ leaves fmt.items := by
  rw [h.verified.allOperands, decide_eq_true_eq]
  constructor
  · exact fun hmem ↦ List.mem_flatMap.mpr ⟨_, hmem, List.mem_singleton_self _⟩
  · intro hmem
    obtain ⟨item, hitem, hmem⟩ := List.mem_flatMap.mp hmem
    cases item with
    | element e =>
      obtain rfl := List.mem_singleton.mp hmem
      exact hitem
    | optional elements anchor => exact ((h.group hitem).children _ hmem).elim

end AcceptedFormat

theorem mem_leaves {item : Item} {element : Element} {items : List Item} (hitem : item ∈ items)
    (helement : element ∈ item.elements) : element ∈ leaves items :=
  List.mem_flatMap.mpr ⟨item, hitem, helement⟩

/-- The first element of a group is covered. -/
theorem covered_head {elements : List Element} {first : Element}
    (h : (groupCondition op elements).isSome = true) (hfirst : elements.head? = some first) :
    Element.Covered md usesBuilder op first := by
  rw [groupCondition, hfirst] at h
  split at h
  · rename_i text heq
    obtain rfl := Option.some.inj heq
    trivial
  · rename_i i heq
    obtain rfl := Option.some.inj heq
    trivial
  · cases h

theorem exposed_groupCondition {elements : List Element} {cond : Expr}
    (h : groupCondition op elements = some cond)
    (hlawful : ∀ element ∈ elements, ∃ before, Lawful op before element) :
    (∀ call ∈ cond.calls, isExposed call = true) ↔ elements.head? ≠ some (.literal "=") := by
  rw [groupCondition] at h
  split at h
  · rename_i text hhead
    obtain rfl := Option.some.inj h
    obtain ⟨before, hvalid⟩ := hlawful _ (List.mem_of_head? hhead)
    rw [exposed_optionalLiteralParser hvalid, hhead]
    simp
  · rename_i i hhead
    obtain rfl := Option.some.inj h
    rw [hhead]
    apply iff_of_true
    · exact List.all_eq_true.mp rfl
    · simp
  · cases h

theorem filled_itemCode {item : Item} (h : Item.Starts op item)
    (hchildren : ∀ elements anchor, item = .optional elements anchor →
      ∀ element ∈ elements, IsChild op element) :
    (itemCode md usesBuilder op item).Filled ↔
      ∀ elements anchor, item = .optional elements anchor → 2 ≤ elements.length := by
  cases item with
  | element element =>
    exact iff_of_true (filled_elementCode md usesBuilder op element) (by simp)
  | optional elements anchor =>
    have hfilled : (Code.concat (elements.tail.map (elementCode md usesBuilder op))).Filled := by
      rw [Code.filled_concat, List.forall_mem_map]
      exact fun element _ ↦ filled_elementCode md usesBuilder op element
    have hne : Code.concat (elements.tail.map (elementCode md usesBuilder op)) ≠ .nil ↔
        2 ≤ elements.length := by
      cases elements with
      | nil => simp [Code.concat]
      | cons first elements =>
        cases elements with
        | nil => simp [Code.concat]
        | cons second elements =>
          have hsecond := elementCode_ne_nil md usesBuilder op
            (hchildren _ _ rfl second (by simp))
          apply iff_of_true _ (by simp)
          rw [List.tail_cons, List.map_cons, Code.concat]
          cases hcode : elementCode md usesBuilder op second with
          | nil => exact absurd hcode hsecond
          | simple stmt rest => exact fun h ↦ Code.noConfusion h
          | block header body rest => exact fun h ↦ Code.noConfusion h
    simp only [itemCode, Code.Filled, hfilled, and_true, Item.optional.injEq]
    rw [hne]
    exact ⟨fun h elements' anchor' heq ↦ heq.1 ▸ h, fun h ↦ h _ _ ⟨rfl, rfl⟩⟩

theorem exposed_itemCode {item : Item} (h : Item.Starts op item)
    (hlawful : ∀ element ∈ item.elements, ∃ before, Lawful op before element) :
    Exposed (itemCode md usesBuilder op item) ↔
      (∀ element ∈ item.elements, Element.Covered md usesBuilder op element) ∧
        ∀ elements anchor, item = .optional elements anchor →
          elements.head? ≠ some (.literal "=") := by
  cases item with
  | element element =>
    have helement :=
      exposed_elementCode_iff md usesBuilder op (hlawful element (by simp [Item.elements]))
    simpa [itemCode, Item.elements] using helement
  | optional elements anchor =>
    obtain ⟨cond, hcond⟩ := Option.isSome_iff_exists.mp h
    have hhead := exposed_groupCondition hcond hlawful
    rw [itemCode, hcond, exposed_block, exposed_concat, List.forall_mem_map]
    cases elements with
    | nil => cases hcond
    | cons first elements =>
      have hfirst : Element.Covered md usesBuilder op first :=
        covered_head (Option.isSome_iff_exists.mpr ⟨cond, hcond⟩) rfl
      have hrest : ∀ element ∈ elements, Exposed (elementCode md usesBuilder op element) ↔
          Element.Covered md usesBuilder op element := fun element helement ↦
        exposed_elementCode_iff md usesBuilder op
          (hlawful element (List.mem_cons_of_mem _ helement))
      simp only [Option.getD_some, Header.cond, hhead, List.tail_cons, exposed_nil, and_true,
        Item.elements, List.forall_mem_cons, hfirst, true_and, Item.optional.injEq]
      constructor
      · rintro ⟨hne, hall⟩
        exact ⟨fun element helement ↦ (hrest element helement).mp (hall element helement),
          fun elements' anchor' heq ↦ heq.1 ▸ hne⟩
      · rintro ⟨hall, hne⟩
        exact ⟨hne _ _ ⟨rfl, rfl⟩,
          fun element helement ↦ (hrest element helement).mpr (hall element helement)⟩

/-! ## Assigned variables of items -/

/-- The variables that are made in front of the elements. -/
def storage (op : OperationOp) (items : List Item) : Set String :=
  {x | ∃ element ∈ leaves items, x ∈ storageVariables op element}

/-- The code of an item is a list of pieces. -/
theorem definitelyAssigned_itemStorage {pre : Set String} (hpre : parserParams ⊆ pre)
    (item : Item) : (itemStorage op item).DefinitelyAssigned pre := by
  cases item with
  | element element => exact definitelyAssigned_elementStorage hpre element
  | optional elements anchor =>
    apply Code.definitelyAssigned_concat
    rw [List.forall_mem_map]
    exact fun element _ ↦ definitelyAssigned_elementStorage hpre element

theorem assigned_itemStorage {item : Item} {element : Element}
    (helement : element ∈ item.elements) :
    ∀ x ∈ storageVariables op element, x ∈ (itemStorage op item).assigned := by
  intro x hx
  cases item with
  | element e =>
    obtain rfl := List.mem_singleton.mp helement
    exact assigned_elementStorage element x hx
  | optional elements anchor =>
    rw [itemStorage, Code.mem_assigned_concat]
    exact ⟨_, List.mem_map_of_mem helement, assigned_elementStorage element x hx⟩

theorem storage_subset (items : List Item) :
    storage op items ⊆ (Code.concat (items.map (itemStorage op))).assigned := by
  rintro x ⟨element, helement, hx⟩
  obtain ⟨item, hitem, helement⟩ := List.mem_flatMap.mp helement
  rw [Code.mem_assigned_concat]
  exact ⟨_, List.mem_map_of_mem hitem, assigned_itemStorage helement x hx⟩

theorem definitelyAssigned_itemCode {pre : Set String} (hpre : parserParams ⊆ pre) {item : Item}
    (hstarts : Item.Starts op item)
    (hstorage : ∀ element ∈ item.elements, ∀ x ∈ storageVariables op element, x ∈ pre)
    (hcovered : ∀ element ∈ item.elements, Element.Covered md usesBuilder op element) :
    (itemCode md usesBuilder op item).DefinitelyAssigned pre := by
  cases item with
  | element element =>
    exact definitelyAssigned_elementCode md usesBuilder hpre
      (hstorage element (List.mem_singleton_self _)) (hcovered element (List.mem_singleton_self _))
  | optional elements anchor =>
    have hparser : "parser" ∈ pre := hpre (by simp [parserParams])
    obtain ⟨cond, hcond⟩ := Option.isSome_iff_exists.mp hstarts
    rw [itemCode, hcond]
    refine ⟨?_, ?_, trivial⟩
    · rw [groupCondition] at hcond
      split at hcond
      · obtain rfl := Option.some.inj hcond
        rw [Option.getD_some, Header.cond, getParserForLiteral]
        split <;> simp [Expr.parser, Expr.reads, Expr.readsAll, hparser]
      · rename_i i hhead
        obtain rfl := Option.some.inj hcond
        have hname := hstorage _ (List.mem_of_head? hhead) (operandName op i ++ "Operands")
          (List.mem_cons_self ..)
        simp [Header.cond, Expr.len, Expr.reads, Expr.readsAll, hname]
      · cases hcond
    · apply Code.definitelyAssigned_concat
      rw [List.forall_mem_map]
      intro element helement
      have hmem : element ∈ elements := List.mem_of_mem_tail helement
      exact definitelyAssigned_elementCode md usesBuilder hpre (hstorage element hmem)
        (hcovered element hmem)

theorem assigned_itemCode {items : List Item} {element : Element}
    (helement : .element element ∈ items) :
    ∀ x ∈ madeVariables element,
      x ∈ (Code.concat (items.map (itemCode md usesBuilder op))).assigned := by
  intro x hx
  rw [Code.mem_assigned_concat]
  exact ⟨_, List.mem_map_of_mem helement, assigned_elementCode md usesBuilder element x hx⟩

end Items


/-! ## Types, successors and segments -/

section Resolution

variable {md : Metadata} {usesBuilder : String → Bool} {op : OperationOp} {fmt : OperationFormat}

/-- The variables that type lists are taken from. -/
def typeVariables (op : OperationOp) (fmt : OperationFormat) : Set String :=
  storage op fmt.items ∪ {x | ∃ idx < fmt.buildableTypes.length, x = buildableVariable idx}

def KnownTypes (op : OperationOp) (fmt : OperationFormat) (types : TypeList) : Prop :=
  ∀ x ∈ (typeListExpr types).reads, x ∈ typeVariables op fmt

/-- The types that a type directive gives are in a variable. -/
theorem typesVariable_mem {arg : TypeArg} (h : arg ∈ typeArgs (leaves fmt.items)) :
    typesVariable op arg ∈ storage op fmt.items := by
  obtain ⟨element, helement, harg⟩ := List.mem_flatMap.mp h
  refine ⟨element, helement, ?_⟩
  cases element with
  | type arg' => exact List.mem_map_of_mem harg
  | functionalType inputs outputs => exact List.mem_map_of_mem harg
  | _ => cases harg

theorem knownTypes_of_mem {arg : TypeArg} (h : arg ∈ typeArgs (leaves fmt.items)) {name : String}
    (hname : (getTypeListName op arg).1 = name) : KnownTypes op fmt (.types name) := by
  intro x hx
  obtain rfl := List.mem_singleton.mp hx
  exact .inl (hname ▸ typesVariable_mem h)

theorem knownTypes_builder {text : String}
    (h : .builder text ∈ fmt.resultTypes ++ fmt.operandTypes) (curVar : String) :
    KnownTypes op fmt (emitTypeResolver op fmt curVar (.builder text)) := by
  intro x hx
  obtain rfl := List.mem_singleton.mp hx
  right
  exact ⟨_, List.idxOf_lt_length_of_mem (mem_buildableTypes h), rfl⟩

theorem knownTypes_ofValue {name curVar : String} {value : ValueRef}
    (h : variableTyResolver op (seenAfter (leaves fmt.items)) name = some value) :
    KnownTypes op fmt (emitTypeResolver op fmt curVar (.ofValue value)) := by
  have hgiven := variableTyResolver_some h
  obtain ⟨kind, idx⟩ := value
  cases kind with
  | operand => exact knownTypes_of_mem ((mem_seenOf_operandTypes _ _ _).mp hgiven) rfl
  | result => exact knownTypes_of_mem ((mem_seenOf_resultTypes _ _ _).mp hgiven) rfl

theorem mem_zip_getElem? {α β : Type} {as : List α} {bs : List β} {it : α × β}
    (h : it ∈ as.zip bs) : ∃ i : ℕ, as[i]? = some it.1 ∧ bs[i]? = some it.2 := by
  obtain ⟨i, hi⟩ := List.mem_iff_getElem?.mp h
  exact ⟨i, List.getElem?_zip_eq_some.mp hi⟩

/-- An entry of a list that is related to another list with its index. -/
theorem forall₂_zipIdx_getElem? {α β : Type} {R : α × ℕ → β → Prop} {as : List α} {bs : List β}
    (h : List.Forall₂ R as.zipIdx bs) {i : ℕ} {a : α} {b : β} (ha : as[i]? = some a)
    (hb : bs[i]? = some b) : R (a, i) b := by
  obtain ⟨hi, rfl⟩ := List.getElem?_eq_some_iff.mp ha
  obtain ⟨hi', rfl⟩ := List.getElem?_eq_some_iff.mp hb
  have hget := h.get (i := i) (by simpa using hi) hi'
  rwa [List.get_eq_getElem, List.get_eq_getElem, List.getElem_zipIdx, Nat.zero_add] at hget

theorem knownTypes_operand (h : AcceptedFormat md op fmt) (hall : fmt.allOperandTypes = false)
    {it : NamedType × TypeResolution} (hit : it ∈ op.opType.operands.zip fmt.operandTypes) :
    KnownTypes op fmt (emitTypeResolver op fmt it.1.name it.2) := by
  obtain ⟨i, hoperand, hresolution⟩ := mem_zip_getElem? hit
  have hverify := forall₂_zipIdx_getElem? h.verified.operands hoperand hresolution
  rw [h.verified.allOperandTypes] at hall
  have hmem := List.mem_of_getElem? hresolution
  obtain ⟨operand, resolution⟩ := it
  by_cases hi : i ∈ (seenAfter (leaves fmt.items)).operandTypes
  · have hgiven : resolution = .given := by
      unfold verifyOperand at hverify
      rw [if_pos (Or.inr hi)] at hverify
      split at hverify
      · cases hverify
      · exact (Except.ok.inj hverify).symm
    rw [hgiven]
    apply knownTypes_of_mem ((mem_seenOf_operandTypes _ _ _).mp hi)
    rw [getTypeListName, operandName, hoperand]
    rfl
  · rcases verifyOperand_resolution hverify hall hi with ⟨value, hvalue, hres⟩ | ⟨text, -, hres⟩
    · rw [hres]
      exact knownTypes_ofValue hvalue
    · rw [hres] at hmem ⊢
      exact knownTypes_builder (List.mem_append_right _ hmem) _

theorem knownTypes_result (h : AcceptedFormat md op fmt) (hall : fmt.allResultTypes = false)
    {it : NamedType × TypeResolution} (hit : it ∈ op.opType.results.zip fmt.resultTypes) :
    KnownTypes op fmt (emitTypeResolver op fmt it.1.name it.2) := by
  obtain ⟨i, hresult, hresolution⟩ := mem_zip_getElem? hit
  have hverify := forall₂_zipIdx_getElem? h.verified.results hresult hresolution
  rw [h.verified.allResultTypes] at hall
  have hmem := List.mem_of_getElem? hresolution
  obtain ⟨result, resolution⟩ := it
  by_cases hi : i ∈ (seenAfter (leaves fmt.items)).resultTypes
  · have hgiven : resolution = .given := by
      unfold verifyResult at hverify
      rw [if_pos (Or.inr hi)] at hverify
      exact (Except.ok.inj hverify).symm
    rw [hgiven]
    apply knownTypes_of_mem ((mem_seenOf_resultTypes _ _ _).mp hi)
    rw [getTypeListName, resultName, hresult]
    rfl
  · rcases verifyResult_resolution hverify hall hi with ⟨value, hvalue, hres⟩ | ⟨text, -, hres⟩
    · rw [hres]
      exact knownTypes_ofValue hvalue
    · rw [hres] at hmem ⊢
      exact knownTypes_builder (List.mem_append_left _ hmem) _

theorem knownTypes_emitTypeResolvers {values : List NamedType} {resolvers : List TypeResolution}
    (h : ∀ it ∈ values.zip resolvers, KnownTypes op fmt (emitTypeResolver op fmt it.1.name it.2)) :
    ∀ types ∈ emitTypeResolvers op fmt values resolvers, KnownTypes op fmt types := by
  intro types htypes
  obtain ⟨it, hit, rfl⟩ := List.mem_map.mp htypes
  exact h it hit

/-! ### Buildable types and results -/

theorem definitelyAssigned_buildableTypesCode {pre : Set String} (hpre : parserParams ⊆ pre) :
    (buildableTypesCode usesBuilder fmt).DefinitelyAssigned pre := by
  apply Code.definitelyAssigned_concat
  rw [List.forall_mem_map]
  intro it _
  rw [definitelyAssigned_stmt]
  exact reads_builderExpr usesBuilder it.1 (hpre (by simp [parserParams]))

theorem assigned_buildableTypesCode {idx : ℕ} (hidx : idx < fmt.buildableTypes.length) :
    buildableVariable idx ∈ (buildableTypesCode usesBuilder fmt).assigned := by
  rw [buildableTypesCode, Code.mem_assigned_concat]
  have hmem : (fmt.buildableTypes[idx], idx) ∈ fmt.buildableTypes.zipIdx := by
    rw [List.mem_zipIdx_iff_getElem?]
    exact List.getElem?_eq_getElem hidx
  exact ⟨_, List.mem_map_of_mem hmem, by simp [Simple.writes]⟩

theorem exposed_buildableTypesCode :
    Exposed (buildableTypesCode usesBuilder fmt) ↔
      ∀ text ∈ fmt.buildableTypes, usesBuilder text = false := by
  rw [buildableTypesCode, exposed_concat, List.forall_mem_map]
  simp only [exposed_stmt, Simple.calls, Simple.value, exposed_builderExpr]
  constructor
  · intro h text htext
    obtain ⟨idx, hidx⟩ := List.mem_iff_getElem?.mp htext
    exact h (text, idx) (List.mem_zipIdx_iff_getElem?.mpr hidx)
  · intro h it hit
    exact h it.1 (List.mem_of_getElem? (List.mem_zipIdx_iff_getElem?.mp hit))

theorem exposed_addTypesCode (types : TypeList) : Exposed (addTypesCode types) := by
  cases types <;> exact exposed_of_all rfl

theorem exposed_resultTypesCode : Exposed (resultTypesCode op fmt) := by
  rw [resultTypesCode]
  split
  · exact exposed_of_all rfl
  · rw [exposed_concat, List.forall_mem_map]
    exact fun types _ ↦ exposed_addTypesCode types

theorem definitelyAssigned_resultTypesCode (h : AcceptedFormat md op fmt) {pre : Set String}
    (hpre : parserParams ⊆ pre) (htypes : typeVariables op fmt ⊆ pre) :
    (resultTypesCode op fmt).DefinitelyAssigned pre := by
  have hresult : "result" ∈ pre := hpre (by simp [parserParams])
  rw [resultTypesCode]
  split
  · rename_i hall
    rw [h.verified.allResultTypes] at hall
    have hmem : "allResultTypes" ∈ storage op fmt.items :=
      typesVariable_mem ((seenOf_allResultTypes _ _).mp hall)
    have hmem' := htypes (Set.mem_union_left _ hmem)
    simp [Simple.reads, Expr.result, Expr.reads, Expr.readsAll, hresult, hmem']
  · rename_i hall
    rw [Bool.not_eq_true] at hall
    apply Code.definitelyAssigned_concat
    rw [List.forall_mem_map]
    intro types hmem
    have hknown := knownTypes_emitTypeResolvers
      (fun it hit ↦ knownTypes_result h hall hit) types hmem
    rw [addTypesCode, definitelyAssigned_stmt, Simple.reads, Expr.result, reads_method,
      List.forall_mem_cons, Expr.readsAll, Expr.readsAll, List.append_nil]
    exact ⟨hresult, fun x hx ↦ htypes (hknown x hx)⟩

/-! ### Operands -/

theorem filled_resolutionCode : (resolutionCode op fmt).Filled := by
  have hconcat : ∀ {α : Type} (values : List α) (code : α → Code), (∀ a, (code a).Filled) →
      (Code.concat (values.map code)).Filled := by
    intro α values code hcode
    rw [Code.filled_concat, List.forall_mem_map]
    exact fun a _ ↦ hcode a
  rw [resolutionCode]
  split
  · trivial
  · split
    · split
      · exact filled_guard _
      · simp [hconcat, resolveOperandsCode]
    · split
      · simp [hconcat, resolveOperandsCode]
      · exact hconcat _ _ fun it ↦ filled_guard _

theorem exposed_operandTypesCode (it : NamedType × TypeResolution) :
    Exposed (operandTypesCode op fmt it) := by
  rw [operandTypesCode]
  generalize emitTypeResolver op fmt it.1.name it.2 = types
  cases types <;> split <;> exact exposed_of_all rfl

theorem exposed_resolutionCode :
    Exposed (resolutionCode op fmt) ↔
      (op.opType.operands ≠ [] → fmt.allOperandTypes = true → fmt.allOperands = true) := by
  rw [resolutionCode]
  split
  · rename_i hempty
    rw [List.isEmpty_iff] at hempty
    exact iff_of_true exposed_nil fun hne ↦ absurd hempty hne
  · rename_i hempty
    rw [List.isEmpty_iff] at hempty
    split
    · rename_i htypes
      split
      · rename_i hall
        exact iff_of_true (exposed_of_all rfl) fun _ _ ↦ hall
      · rename_i hall
        apply iff_of_false
        · rw [exposed_append, exposed_append]
          rintro ⟨-, -, hresolve⟩
          have hcall : (⟨"parser", "getNameLoc", 0⟩ : Expr.Call) ∈
              (resolveOperandsCode [.name "operandsToResolve", .name "allOperandTypes",
                Expr.parser "getNameLoc" [], .name "result"]).calls :=
            List.mem_cons_of_mem _ (List.mem_cons_self ..)
          exact not_exposed hcall rfl hresolve
        · exact fun h ↦ hall (h hempty htypes)
    · rename_i htypes
      apply iff_of_true _ fun _ h ↦ absurd h htypes
      split
      · simp only [exposed_append, exposed_concat, List.forall_mem_map]
        refine ⟨exposed_of_all rfl, fun types _ ↦ ?_, exposed_of_all rfl⟩
        cases types <;> exact exposed_of_all rfl
      · rw [exposed_concat, List.forall_mem_map]
        exact fun it _ ↦ exposed_operandTypesCode it

/-- An operand that is not read together with all others has its own variables. -/
theorem operandVariables_mem (h : AcceptedFormat md op fmt) (hall : fmt.allOperands = false)
    (htypes : fmt.allOperandTypes = false) {operand : NamedType}
    (hoperand : operand ∈ op.opType.operands) :
    operand.name ++ "Operands" ∈ storage op fmt.items ∧
      operand.name ++ "OperandsLoc" ∈ storage op fmt.items := by
  obtain ⟨i, hi, rfl⟩ := List.mem_iff_getElem.mp hoperand
  have hseen : i ∈ (seenAfter (leaves fmt.items)).operands := by
    rcases h.verified.seen_operand hi with hseen | hseen
    · rcases (seenOf_hasAllOperands _ _).mp hseen with hmem | hmem
      · rw [h.allOperands_iff.mpr hmem] at hall
        cases hall
      · rw [h.verified.allOperandTypes, Bool.eq_false_iff] at htypes
        exact absurd ((seenOf_allOperandTypes _ _).mpr hmem) htypes
    · exact hseen
  have hmem := (mem_seenOf_operands _ _ i).mp hseen
  have hname : operandName op i = op.opType.operands[i].name := by
    rw [operandName, List.getElem?_eq_getElem hi]
    rfl
  rw [← hname]
  exact ⟨⟨_, hmem, by simp [storageVariables]⟩, ⟨_, hmem, by simp [storageVariables]⟩⟩

theorem definitelyAssigned_operandTypesCode (h : AcceptedFormat md op fmt) {pre : Set String}
    (hpre : parserParams ⊆ pre) (hvariables : typeVariables op fmt ⊆ pre)
    (hall : fmt.allOperands = false) (htypes : fmt.allOperandTypes = false)
    {it : NamedType × TypeResolution} (hit : it ∈ op.opType.operands.zip fmt.operandTypes) :
    (operandTypesCode op fmt it).DefinitelyAssigned pre := by
  have hparser : "parser" ∈ pre := hpre (by simp [parserParams])
  have hresult : "result" ∈ pre := hpre (by simp [parserParams])
  have hknown : ∀ x ∈ (typeListExpr (emitTypeResolver op fmt it.1.name it.2)).reads, x ∈ pre :=
    fun x hx ↦ hvariables (knownTypes_operand h htypes hit x hx)
  obtain ⟨hoperands, hloc⟩ := operandVariables_mem h hall htypes (List.of_mem_zip hit).1
  have hoperands' := hvariables (Set.mem_union_left _ hoperands)
  have hloc' := hvariables (Set.mem_union_left _ hloc)
  rw [operandTypesCode, resolveOperandsCode, definitelyAssigned_guard, Expr.parser]
  generalize emitTypeResolver op fmt it.1.name it.2 = types at hknown
  split <;>
    simpa [Expr.reads, Expr.readsAll, hparser, hresult, hoperands', hloc', or_imp, forall_and]
      using hknown

theorem definitelyAssigned_resolutionCode (h : AcceptedFormat md op fmt) {pre : Set String}
    (hpre : parserParams ⊆ pre) (hvariables : typeVariables op fmt ⊆ pre)
    (hmade : fmt.allOperands = true → ∀ x ∈ madeVariables .operands, x ∈ pre)
    (hcovered : op.opType.operands ≠ [] → fmt.allOperandTypes = true → fmt.allOperands = true) :
    (resolutionCode op fmt).DefinitelyAssigned pre := by
  have hparser : "parser" ∈ pre := hpre (by simp [parserParams])
  have hresult : "result" ∈ pre := hpre (by simp [parserParams])
  rw [resolutionCode]
  split
  · trivial
  · rename_i hempty
    rw [List.isEmpty_iff] at hempty
    split
    · rename_i htypes
      have hall := hcovered hempty htypes
      have hlist := hmade hall
      have hmem : "allOperandTypes" ∈ pre := by
        rw [h.verified.allOperandTypes] at htypes
        have hstorage : "allOperandTypes" ∈ storage op fmt.items :=
          typesVariable_mem ((seenOf_allOperandTypes _ _).mp htypes)
        exact hvariables (Set.mem_union_left _ hstorage)
      simp only [madeVariables, List.mem_cons, List.not_mem_nil, or_false, forall_eq_or_imp,
        forall_eq] at hlist
      rw [if_pos hall, resolveOperandsCode, definitelyAssigned_guard]
      simp [Expr.parser, Expr.reads, Expr.readsAll, hparser, hresult, hmem, hlist]
    · rename_i htypes
      rw [Bool.not_eq_true] at htypes
      split
      · rename_i hall
        have hlist := hmade hall
        simp only [madeVariables, List.mem_cons, List.not_mem_nil, or_false, forall_eq_or_imp,
          forall_eq] at hlist
        rw [Code.definitelyAssigned_append, Code.definitelyAssigned_append]
        refine ⟨by simp [Simple.reads, Expr.reads, Expr.readsAll], ?_, ?_⟩
        · apply Code.definitelyAssigned_concat
          rw [List.forall_mem_map]
          intro types hmem
          have hknown := knownTypes_emitTypeResolvers
            (fun it hit ↦ knownTypes_operand h htypes hit) types hmem
          rw [definitelyAssigned_stmt, Simple.reads, List.forall_mem_cons]
          refine ⟨by simp [Simple.writes], fun x hx ↦ ?_⟩
          exact Set.mem_union_left _ (hvariables (hknown x hx))
        · rw [resolveOperandsCode, definitelyAssigned_guard]
          simp [Expr.parser, Expr.reads, Expr.readsAll, Simple.writes, hparser, hresult, hlist]
      · rename_i hall
        rw [Bool.not_eq_true] at hall
        apply Code.definitelyAssigned_concat
        rw [List.forall_mem_map]
        exact fun it hit ↦
          definitelyAssigned_operandTypesCode h hpre hvariables hall htypes hit

/-! ### Successors and segments -/

theorem filled_successorsCode : (successorsCode op fmt).Filled := by
  rw [successorsCode]
  split
  · trivial
  · rw [Code.filled_concat, List.forall_mem_map]
    intro successor _
    rw [addSuccessorCode]
    split <;> trivial

theorem exposed_successorsCode : Exposed (successorsCode op fmt) := by
  rw [successorsCode]
  split
  · exact exposed_of_all rfl
  · rw [exposed_concat, List.forall_mem_map]
    intro successor _
    rw [addSuccessorCode]
    split <;> exact exposed_of_all rfl

/-- Without elements about successors there are no successors. -/
theorem successorsCode_eq_nil (h : AcceptedFormat md op fmt)
    (hnone : ∀ element ∈ leaves fmt.items, ¬ Element.IsSuccessor element) :
    successorsCode op fmt = .nil := by
  have hsuccessors : op.opSuccs.successors = [] := by
    by_contra hne
    have hpos : 0 < op.opSuccs.successors.length := List.length_pos_iff.mpr hne
    rcases h.verified.seen_successor hpos with hseen | hseen
    · exact hnone _ ((seenOf_hasAllSuccessors _ _).mp hseen) trivial
    · exact hnone _ ((mem_seenOf_successors _ _ 0).mp hseen) trivial
  have hitem : Item.element .successors ∉ fmt.items := by
    intro hitem
    exact hnone _ (mem_leaves hitem (List.mem_singleton_self _)) trivial
  rw [successorsCode, if_neg hitem, hsuccessors]
  rfl

theorem filled_segmentsCode : (segmentsCode op fmt).Filled := by
  rw [segmentsCode]
  split <;> trivial

theorem exposed_segmentsCode :
    Exposed (segmentsCode op fmt) ↔
      (getTrait op "SizedOperandSegments" = true → fmt.allOperands = true) := by
  rw [segmentsCode]
  cases hall : fmt.allOperands <;> cases htrait : getTrait op "SizedOperandSegments"
  · simp
  · apply iff_of_false
    · exact not_exposed (List.mem_cons_self ..) rfl
    · simp
  · simp
  · simp

end Resolution


/-! ## The printer -/

section Printer

variable (md : Metadata) (op : OperationOp) (fmt : OperationFormat)

/-- The parameters of a printer. -/
def printerParams : Set String := {x | x ∈ ["p", "op"]}

theorem callsAll_map_str (texts : List String) : Expr.callsAll (texts.map .str) = [] := by
  induction texts with
  | nil => rfl
  | cons text texts ih => rw [List.map_cons, Expr.callsAll, ih, Expr.calls, List.nil_append]

theorem readsAll_map_str (texts : List String) : Expr.readsAll (texts.map .str) = [] := by
  induction texts with
  | nil => rfl
  | cons text texts ih => rw [List.map_cons, Expr.readsAll, ih, Expr.reads, List.nil_append]

theorem exposed_printElementCode_iff {element : Element}
    (h : ∃ before, Lawful op before element) :
    Exposed (printElementCode md op fmt element) ↔ ¬ Element.IsSuccessor element := by
  obtain ⟨before, hlawful⟩ := h
  have htypes : ∀ arg, ∀ call ∈ (genTypeOperandPrinter op arg).calls, isExposed call = true := by
    intro arg
    cases arg with
    | operand i =>
      rw [genTypeOperandPrinter]
      split <;> exact List.all_eq_true.mp rfl
    | result i =>
      rw [genTypeOperandPrinter]
      split <;> exact List.all_eq_true.mp rfl
    | operands => exact List.all_eq_true.mp rfl
    | results => exact List.all_eq_true.mp rfl
  cases element with
  | literal text => exact iff_of_true (exposed_of_all rfl) not_false
  | var v =>
    cases v with
    | attr i =>
      apply iff_of_true _ not_false
      simp only [printElementCode, printCall]
      split <;> exact exposed_of_all rfl
    | operand i =>
      apply iff_of_true _ not_false
      simp only [printElementCode, printCall]
      split <;> exact exposed_of_all rfl
    | result i => exact hlawful.elim
    | successor i =>
      apply iff_of_false _ (not_not_intro trivial)
      simp only [printElementCode, printCall]
      split
      · exact not_exposed (List.mem_cons_self ..) rfl
      · exact not_exposed (List.mem_cons_of_mem _ (List.mem_cons_self ..)) rfl
    | region i => exact iff_of_true (exposed_of_all rfl) not_false
  | attrDict withKeyword =>
    apply iff_of_true _ not_false
    have hdict : isExposed ⟨"p", "printOptionalAttrDict", 2⟩ = true := by decide
    have hkeyword : isExposed ⟨"p", "printOptionalAttrDictWithKeyword", 2⟩ = true := by decide
    have hattrs : isExposed ⟨"op", "getAttrs", 0⟩ = true := by decide
    simp only [printElementCode, printCall, Option.map_some, Option.getD_some, exposed_stmt,
      Simple.calls, Simple.value, Expr.p, Expr.op, Expr.method, Expr.calls, Expr.callsAll,
      Expr.callOf, callsAll_map_str, List.append_nil]
    cases withKeyword
    · exact List.forall_mem_cons.mpr ⟨hdict, List.forall_mem_singleton.mpr hattrs⟩
    · exact List.forall_mem_cons.mpr ⟨hkeyword, List.forall_mem_singleton.mpr hattrs⟩
  | functionalType inputs outputs =>
    apply iff_of_true _ not_false
    have hcall : isExposed ⟨"p", "printFunctionalType", 2⟩ = true := by decide
    simpa [printElementCode, printCall, exposed_stmt, Simple.calls, Simple.value, Expr.p,
      Expr.method, Expr.calls, Expr.callsAll, Expr.callOf, or_imp, forall_and, hcall]
      using ⟨htypes inputs, htypes outputs⟩
  | operands => exact iff_of_true (exposed_of_all rfl) not_false
  | results => exact hlawful.elim
  | successors =>
    exact iff_of_false (not_exposed (List.mem_cons_self ..) rfl) (not_not_intro trivial)
  | type arg =>
    apply iff_of_true _ not_false
    have hcall : isExposed ⟨"p", "printTypes", 1⟩ = true := by decide
    simpa [printElementCode, printCall, exposed_stmt, Simple.calls, Simple.value, Expr.p,
      Expr.method, Expr.calls, Expr.callsAll, Expr.callOf, hcall] using htypes arg
  | symbol i => exact iff_of_true (exposed_of_all rfl) not_false

theorem filled_printElementCode (element : Element) :
    (printElementCode md op fmt element).Filled := by
  cases element with
  | literal text => trivial
  | var v =>
    cases v with
    | region i =>
      rw [printElementCode, regionCode]
      simp [Code.Filled, printCode, stmt]
    | _ => trivial
  | _ => trivial

theorem definitelyAssigned_printElementCode {pre : Set String} (hpre : printerParams ⊆ pre)
    (element : Element) : (printElementCode md op fmt element).DefinitelyAssigned pre := by
  have hp : "p" ∈ pre := hpre (by simp [printerParams])
  have hop : "op" ∈ pre := hpre (by simp [printerParams])
  have htypes : ∀ arg, ∀ x ∈ (genTypeOperandPrinter op arg).reads, x ∈ pre := by
    intro arg
    cases arg with
    | operand i =>
      rw [genTypeOperandPrinter]
      split <;> simp [Expr.op, Expr.method, Expr.reads, Expr.readsAll, hop]
    | result i =>
      rw [genTypeOperandPrinter]
      split <;> simp [Expr.op, Expr.method, Expr.reads, Expr.readsAll, hop]
    | operands => simp [genTypeOperandPrinter, Expr.op, Expr.readsAll, hop]
    | results => simp [genTypeOperandPrinter, Expr.op, Expr.readsAll, hop]
  cases element with
  | literal text =>
    simp [printElementCode, printCode, Simple.reads, Expr.p, Expr.reads, Expr.readsAll, hp]
  | var v =>
    cases v with
    | attr i =>
      simp [printElementCode, printCall, Simple.reads, Expr.p, Expr.op, Expr.reads, Expr.readsAll,
        hp, hop]
    | operand i =>
      simp only [printElementCode, printCall]
      split <;>
        simp [Simple.reads, Expr.p, Expr.op, Expr.reads, Expr.readsAll, hp, hop]
    | result i => trivial
    | successor i =>
      simp only [printElementCode, printCall]
      split <;>
        simp [Simple.reads, Expr.p, Expr.op, Expr.reads, Expr.readsAll, hp, hop]
    | region i =>
      simp [printElementCode, regionCode, printCode, Code.definitelyAssigned_append,
        Code.DefinitelyAssigned, Header.cond, Simple.reads, Simple.writes, Expr.p, Expr.op,
        Expr.reads, Expr.readsAll, hp, hop]
  | attrDict withKeyword =>
    simp [printElementCode, printCall, Simple.reads, Expr.p, Expr.op, Expr.reads, Expr.readsAll,
      readsAll_map_str, hp, hop]
  | functionalType inputs outputs =>
    simpa [printElementCode, printCall, Simple.reads, Expr.p, Expr.readsAll, hp, or_imp,
      forall_and] using ⟨htypes inputs, htypes outputs⟩
  | operands =>
    simp [printElementCode, printCall, Simple.reads, Expr.p, Expr.op, Expr.readsAll, hp, hop]
  | results => trivial
  | successors =>
    simp [printElementCode, printCall, Simple.reads, Expr.p, Expr.op, Expr.readsAll, hp, hop]
  | type arg =>
    simpa [printElementCode, printCall, Simple.reads, Expr.p, Expr.readsAll, hp] using htypes arg
  | symbol i =>
    simp [printElementCode, printCall, Simple.reads, Expr.p, Expr.op, Expr.method, Expr.reads,
      Expr.readsAll, hp, hop]

/-- There is something to print of every element of a group. -/
theorem printElementCode_ne_nil {element : Element} (h : IsChild op element) :
    printElementCode md op fmt element ≠ .nil := by
  cases element with
  | literal text => exact fun h ↦ Code.noConfusion h
  | var v =>
    cases v with
    | attr i => exact fun h ↦ Code.noConfusion h
    | operand i => exact fun h ↦ Code.noConfusion h
    | _ => exact h.elim
  | type arg => exact fun h ↦ Code.noConfusion h
  | functionalType inputs outputs => exact fun h ↦ Code.noConfusion h
  | _ => exact h.elim

theorem exposed_printCode (text : String) : Exposed (printCode text) := exposed_of_all rfl

/-- Elements one after the other, each with or without a space. -/
theorem exposed_printElementsCode {elements : List Element}
    (h : ∀ element ∈ elements, ∃ before, Lawful op before element) (flags : Flags) :
    Exposed (printElementsCode md op fmt flags elements) ↔
      ∀ element ∈ elements, ¬ Element.IsSuccessor element := by
  induction elements generalizing flags with
  | nil => exact iff_of_true exposed_nil fun _ h ↦ absurd h List.not_mem_nil
  | cons element elements ih =>
    rw [List.forall_mem_cons] at h
    have hspace : Exposed (if flags.spaceBefore element then printCode " " else .nil) := by
      split
      · exact exposed_printCode " "
      · exact exposed_nil
    rw [printElementsCode, spacedCode, exposed_append, exposed_append,
      exposed_printElementCode_iff md op fmt h.1, ih h.2, List.forall_mem_cons]
    exact ⟨fun hall ↦ ⟨hall.1.2, hall.2⟩, fun hall ↦ ⟨⟨hspace, hall.1⟩, hall.2⟩⟩

theorem filled_spacedCode (flags : Flags) (element : Element) :
    (spacedCode md op fmt flags element).Filled := by
  rw [spacedCode, Code.filled_append]
  refine ⟨?_, filled_printElementCode md op fmt element⟩
  split <;> trivial

theorem filled_printElementsCode (flags : Flags) (elements : List Element) :
    (printElementsCode md op fmt flags elements).Filled := by
  induction elements generalizing flags with
  | nil => trivial
  | cons element elements ih =>
    rw [printElementsCode, Code.filled_append]
    exact ⟨filled_spacedCode md op fmt flags element, ih _⟩

theorem definitelyAssigned_spacedCode {pre : Set String} (hpre : printerParams ⊆ pre)
    (flags : Flags) (element : Element) :
    (spacedCode md op fmt flags element).DefinitelyAssigned pre := by
  have hp : "p" ∈ pre := hpre (by simp [printerParams])
  rw [spacedCode, Code.definitelyAssigned_append]
  constructor
  · split
    · simp [printCode, Simple.reads, Expr.p, Expr.reads, Expr.readsAll, hp]
    · trivial
  · exact definitelyAssigned_printElementCode md op fmt (hpre.trans Set.subset_union_left) element

theorem definitelyAssigned_printElementsCode {pre : Set String} (hpre : printerParams ⊆ pre)
    (flags : Flags) (elements : List Element) :
    (printElementsCode md op fmt flags elements).DefinitelyAssigned pre := by
  induction elements generalizing flags with
  | nil => trivial
  | cons element elements ih =>
    rw [printElementsCode, Code.definitelyAssigned_append]
    exact ⟨definitelyAssigned_spacedCode md op fmt hpre flags element,
      (ih _).mono Set.subset_union_left⟩

/-- Code that ends with some statement is not empty. -/
theorem append_ne_nil {first second : Code} (h : second ≠ .nil) : first ++ second ≠ .nil := by
  cases first with
  | nil => exact h
  | simple stmt rest => exact fun h ↦ Code.noConfusion h
  | block header body rest => exact fun h ↦ Code.noConfusion h

theorem printElementsCode_ne_nil {elements : List Element} (hne : elements ≠ [])
    (h : ∀ element ∈ elements, IsChild op element) (flags : Flags) :
    printElementsCode md op fmt flags elements ≠ .nil := by
  cases elements with
  | nil => exact absurd rfl hne
  | cons element elements =>
    have helement : spacedCode md op fmt flags element ≠ .nil :=
      append_ne_nil (printElementCode_ne_nil md op fmt (h element (List.mem_cons_self ..)))
    rw [printElementsCode]
    cases hcode : spacedCode md op fmt flags element with
    | nil => exact absurd hcode helement
    | simple stmt rest => exact fun h ↦ Code.noConfusion h
    | block header body rest => exact fun h ↦ Code.noConfusion h

variable {op}

theorem anchorCondition_some {element : Element} {cond : Expr}
    (h : anchorCondition op element = some cond) :
    (∀ call ∈ cond.calls, isExposed call = true) ∧ cond.reads = ["op"] := by
  cases element with
  | var v =>
    cases v with
    | attr i =>
      obtain rfl := Option.some.inj h
      exact ⟨List.all_eq_true.mp rfl, rfl⟩
    | operand i =>
      rw [anchorCondition] at h
      split at h
      · obtain rfl := Option.some.inj h
        exact ⟨List.all_eq_true.mp rfl, rfl⟩
      · cases h
    | _ => cases h
  | _ => cases h

/-- What is known of the code of a group. -/
theorem LawfulGroup.printItemCode_facts {elements : List Element} {anchor : ℕ}
    (h : LawfulGroup op elements anchor)
    (hlawful : ∀ element ∈ elements, ∃ before, Lawful op before element) (flags : Flags) :
    (printItemCode md op fmt flags (.optional elements anchor)).Filled ∧
    (Exposed (printItemCode md op fmt flags (.optional elements anchor)) ↔
      ∀ element ∈ elements, ¬ Element.IsSuccessor element) ∧
    ∀ pre, printerParams ⊆ pre →
      (printItemCode md op fmt flags (.optional elements anchor)).DefinitelyAssigned pre := by
  obtain ⟨cond, hcond⟩ := Option.isSome_iff_exists.mp h.anchored
  obtain ⟨element, helement, hanchor⟩ := Option.bind_eq_some_iff.mp hcond
  obtain ⟨hcalls, hreads⟩ := anchorCondition_some hanchor
  have hne : elements ≠ [] := by
    rintro rfl
    cases helement
  rw [OpGenerator.printItemCode, hcond]
  refine ⟨⟨printElementsCode_ne_nil md op fmt hne h.children flags,
    filled_printElementsCode md op fmt flags elements, trivial⟩, ?_, fun pre hpre ↦ ?_⟩
  · rw [exposed_block, exposed_printElementsCode md op fmt hlawful]
    exact ⟨fun hall ↦ hall.2.1, fun hall ↦ ⟨hcalls, hall, exposed_nil⟩⟩
  · refine ⟨?_, definitelyAssigned_printElementsCode md op fmt hpre flags elements, trivial⟩
    rw [Option.getD_some, Header.cond, hreads]
    intro x hx
    exact hpre (by simpa [printerParams] using Or.inr (List.mem_singleton.mp hx))

theorem printItemsCode_facts {items : List Item}
    (hgroups : ∀ elements anchor, .optional elements anchor ∈ items →
      LawfulGroup op elements anchor)
    (hlawful : ∀ element ∈ leaves items, ∃ before, Lawful op before element) (flags : Flags) :
    (printItemsCode md op fmt flags items).Filled ∧
    (Exposed (printItemsCode md op fmt flags items) ↔
      ∀ element ∈ leaves items, ¬ Element.IsSuccessor element) ∧
    ∀ pre, printerParams ⊆ pre →
      (printItemsCode md op fmt flags items).DefinitelyAssigned pre := by
  induction items generalizing flags with
  | nil =>
    exact ⟨trivial, iff_of_true exposed_nil (by simp [leaves]), fun _ _ ↦ trivial⟩
  | cons item items ih =>
    have hmem : ∀ element, element ∈ leaves (item :: items) ↔
        element ∈ item.elements ∨ element ∈ leaves items := by
      intro element
      rw [leaves, List.flatMap_cons, List.mem_append]
      rfl
    obtain ⟨hfilled, hexposed, hassigned⟩ := ih
      (fun elements anchor hitem ↦ hgroups elements anchor (List.mem_cons_of_mem _ hitem))
      (fun element helement ↦ hlawful element ((hmem element).mpr (.inr helement)))
      (flags.nextAll item.elements)
    have hitem : (printItemCode md op fmt flags item).Filled ∧
        (Exposed (printItemCode md op fmt flags item) ↔
          ∀ element ∈ item.elements, ¬ Element.IsSuccessor element) ∧
        ∀ pre, printerParams ⊆ pre →
          (printItemCode md op fmt flags item).DefinitelyAssigned pre := by
      have hlawful' : ∀ element ∈ item.elements, ∃ before, Lawful op before element :=
        fun element helement ↦ hlawful element ((hmem element).mpr (.inl helement))
      cases item with
      | element element =>
        have hcode : printElementsCode md op fmt flags [element] =
            printItemCode md op fmt flags (.element element) := Code.append_nil _
        rw [← hcode]
        exact ⟨filled_printElementsCode md op fmt flags [element],
          exposed_printElementsCode md op fmt hlawful' flags,
          fun pre hpre ↦ definitelyAssigned_printElementsCode md op fmt hpre flags [element]⟩
      | optional elements anchor =>
        have hgroup := hgroups elements anchor (List.mem_cons_self ..)
        exact hgroup.printItemCode_facts md fmt hlawful' flags
    rw [printItemsCode, Code.filled_append, exposed_append, hitem.2.1, hexposed]
    refine ⟨⟨hitem.1, hfilled⟩, ?_, fun pre hpre ↦ ?_⟩
    · simp only [hmem, or_imp, forall_and]
    · rw [Code.definitelyAssigned_append]
      exact ⟨hitem.2.2 pre hpre, hassigned _ (hpre.trans Set.subset_union_left)⟩

/-- The printer is well-formed unless the format has elements about successors. -/
theorem AcceptedFormat.printer_iff (h : AcceptedFormat md op fmt) :
    WellFormed ["p", "op"] (genPrinter md op fmt) ↔
      ∀ element ∈ leaves fmt.items, ¬ Element.IsSuccessor element := by
  obtain ⟨hfilled, hexposed, hassigned⟩ := printItemsCode_facts md fmt
    (fun elements anchor hitem ↦ h.group hitem) (fun element helement ↦ h.element helement) .start
  have hname : Exposed (stmt (.expr (Expr.p "print" [Expr.op "getName" []]))) :=
    exposed_of_all rfl
  have hpath : (printerCode md op fmt).DefinitelyAssigned printerParams := by
    rw [printerCode, Code.definitelyAssigned_append]
    refine ⟨?_, hassigned _ Set.subset_union_left⟩
    simp [Simple.reads, Expr.p, Expr.op, Expr.readsAll, printerParams]
  rw [wellFormed_iff (genPrinter_eq md op fmt h.anchored), printerCode, Code.filled_append,
    exposed_append, hexposed]
  constructor
  · exact fun hwell ↦ hwell.2.2.2
  · exact fun hall ↦ ⟨⟨trivial, hfilled⟩, Path.not_unassigned hpath, hname, hall⟩

end Printer


/-! ## Both functions -/

/-- What the generators can handle. -/
structure Supported (md : Metadata) (usesBuilder : String → Bool) (op : OperationOp)
    (fmt : OperationFormat) : Prop where
  /-- a group has more than its anchor, and it does not start with an equals sign -/
  groups : ∀ elements anchor, .optional elements anchor ∈ fmt.items →
    2 ≤ elements.length ∧ elements.head? ≠ some (.literal "=")
  successors : ∀ element ∈ leaves fmt.items, ¬ Element.IsSuccessor element
  /-- all operand types are only given together if all operands are read together -/
  operandTypes : op.opType.operands ≠ [] → .operands ∈ typeArgs (leaves fmt.items) →
    .operands ∈ leaves fmt.items
  segments : getTrait op "SizedOperandSegments" = true → .operands ∈ leaves fmt.items
  typeBuilders : ∀ text ∈ fmt.buildableTypes, usesBuilder text = false
  attrBuilders : ∀ i, .var (.attr i) ∈ leaves fmt.items →
    ∀ text, attrTypeBuilder md op i = some text → usesBuilder text = false

section Main

variable {md : Metadata} {usesBuilder : String → Bool} {op : OperationOp} {fmt : OperationFormat}

theorem covered_leaves_iff :
    (∀ element ∈ leaves fmt.items, Element.Covered md usesBuilder op element) ↔
      (∀ element ∈ leaves fmt.items, ¬ Element.IsSuccessor element) ∧
      ∀ i, .var (.attr i) ∈ leaves fmt.items →
        ∀ text, attrTypeBuilder md op i = some text → usesBuilder text = false := by
  constructor
  · intro h
    refine ⟨fun element helement hsuccessor ↦ ?_, fun i hi ↦ h _ hi⟩
    have hcovered := h element helement
    cases element with
    | var v =>
      cases v with
      | successor i => exact hcovered
      | _ => exact hsuccessor
    | successors => exact hcovered
    | _ => exact hsuccessor
  · rintro ⟨hsuccessors, hattrs⟩ element helement
    cases element with
    | var v =>
      cases v with
      | attr i => exact hattrs i helement
      | successor i => exact hsuccessors _ helement trivial
      | _ => trivial
    | successors => exact hsuccessors _ helement trivial
    | _ => trivial

namespace AcceptedFormat

theorem filled_parserCode (h : AcceptedFormat md op fmt) :
    (parserCode md usesBuilder op fmt).Filled ↔
      ∀ elements anchor, .optional elements anchor ∈ fmt.items → 2 ≤ elements.length := by
  have hstorage : ∀ element, (elementStorage op element).Filled := by
    intro element
    cases element with
    | var v => cases v <;> trivial
    | _ => trivial
  have hitemStorage : (Code.concat (fmt.items.map (itemStorage op))).Filled := by
    rw [Code.filled_concat, List.forall_mem_map]
    intro item _
    cases item with
    | element element => exact hstorage element
    | optional elements anchor =>
      rw [itemStorage, Code.filled_concat, List.forall_mem_map]
      exact fun element _ ↦ hstorage element
  have hbuildable : (buildableTypesCode usesBuilder fmt).Filled := by
    rw [buildableTypesCode, Code.filled_concat, List.forall_mem_map]
    exact fun _ _ ↦ trivial
  have hresults : (resultTypesCode op fmt).Filled := by
    rw [resultTypesCode]
    split
    · trivial
    · rw [Code.filled_concat, List.forall_mem_map]
      exact fun _ _ ↦ trivial
  have hitems : (Code.concat (fmt.items.map (itemCode md usesBuilder op))).Filled ↔
      ∀ elements anchor, .optional elements anchor ∈ fmt.items → 2 ≤ elements.length := by
    have hitem : ∀ item ∈ fmt.items, (itemCode md usesBuilder op item).Filled ↔
        ∀ elements anchor, item = .optional elements anchor → 2 ≤ elements.length := by
      intro item hitem
      apply filled_itemCode (h.starts item hitem)
      rintro elements anchor rfl
      exact (h.group hitem).children
    rw [Code.filled_concat, List.forall_mem_map]
    constructor
    · exact fun hall elements anchor hmem ↦ (hitem _ hmem).mp (hall _ hmem) _ _ rfl
    · intro hall item hmem
      rw [hitem item hmem]
      rintro elements anchor rfl
      exact hall elements anchor hmem
  simp only [parserCode, Code.filled_append, hitemStorage, hitems, hbuildable, hresults,
    filled_resolutionCode, filled_successorsCode, filled_segmentsCode, filled_stmt, true_and,
    and_true]

theorem exposed_items (h : AcceptedFormat md op fmt) :
    Exposed (.concat (fmt.items.map (itemCode md usesBuilder op))) ↔
      (∀ element ∈ leaves fmt.items, Element.Covered md usesBuilder op element) ∧
      ∀ elements anchor, .optional elements anchor ∈ fmt.items →
        elements.head? ≠ some (.literal "=") := by
  have hitem : ∀ item ∈ fmt.items, Exposed (itemCode md usesBuilder op item) ↔
      (∀ element ∈ item.elements, Element.Covered md usesBuilder op element) ∧
        ∀ elements anchor, item = .optional elements anchor →
          elements.head? ≠ some (.literal "=") := fun item hitem ↦
    exposed_itemCode (h.starts item hitem)
      fun element helement ↦ h.element (mem_leaves hitem helement)
  rw [exposed_concat, List.forall_mem_map]
  constructor
  · intro hall
    refine ⟨fun element helement ↦ ?_, fun elements anchor hmem ↦ ?_⟩
    · obtain ⟨item, hmem, helement⟩ := List.mem_flatMap.mp helement
      exact ((hitem item hmem).mp (hall item hmem)).1 element helement
    · exact ((hitem _ hmem).mp (hall _ hmem)).2 elements anchor rfl
  · rintro ⟨hcovered, hheads⟩ item hmem
    rw [hitem item hmem]
    refine ⟨fun element helement ↦ hcovered element (mem_leaves hmem helement), ?_⟩
    rintro elements anchor rfl
    exact hheads elements anchor hmem

theorem exposed_parserCode (h : AcceptedFormat md op fmt) :
    Exposed (parserCode md usesBuilder op fmt) ↔
      Exposed (.concat (fmt.items.map (itemCode md usesBuilder op))) ∧
      (∀ text ∈ fmt.buildableTypes, usesBuilder text = false) ∧
      (op.opType.operands ≠ [] → .operands ∈ typeArgs (leaves fmt.items) →
        .operands ∈ leaves fmt.items) ∧
      (getTrait op "SizedOperandSegments" = true → .operands ∈ leaves fmt.items) := by
  have hstorage : ∀ element, Exposed (elementStorage op element) := by
    intro element
    have htypes : ∀ arg, Exposed (typeStorage op arg) := by
      intro arg
      rw [typeStorage]
      split <;> exact exposed_of_all rfl
    cases element with
    | var v =>
      cases v with
      | operand i =>
        rw [elementStorage, operandStorage]
        split <;> exact exposed_of_all rfl
      | _ => exact exposed_nil
    | type arg => exact htypes arg
    | functionalType inputs outputs => exact exposed_of_all rfl
    | _ => exact exposed_nil
  have hitemStorage : Exposed (.concat (fmt.items.map (itemStorage op))) := by
    rw [exposed_concat, List.forall_mem_map]
    intro item _
    cases item with
    | element element => exact hstorage element
    | optional elements anchor =>
      rw [itemStorage, exposed_concat, List.forall_mem_map]
      exact fun element _ ↦ hstorage element
  have htypes : fmt.allOperandTypes = true ↔ .operands ∈ typeArgs (leaves fmt.items) := by
    rw [h.verified.allOperandTypes]
    exact seenOf_allOperandTypes _ _
  have hret : Exposed (stmt (.ret (.const "True"))) := exposed_of_all rfl
  simp only [parserCode, exposed_append, hitemStorage, exposed_buildableTypesCode,
    exposed_resultTypesCode, exposed_resolutionCode, exposed_successorsCode, exposed_segmentsCode,
    hret, true_and, and_true, htypes, h.allOperands_iff, and_assoc]

/-- The parser of a supported format assigns all variables before it reads them. -/
theorem definitelyAssigned_parserCode (h : AcceptedFormat md op fmt)
    (hsupported : Supported md usesBuilder op fmt) :
    (parserCode md usesBuilder op fmt).DefinitelyAssigned parserParams := by
  have hcovered := covered_leaves_iff.mpr ⟨hsupported.successors, hsupported.attrBuilders⟩
  have hsegments : segmentsCode op fmt = .nil := by
    rw [segmentsCode, if_neg]
    rw [Bool.and_eq_true, Bool.not_eq_true', not_and]
    intro hall htrait
    rw [h.allOperands_iff.mpr (hsupported.segments htrait)] at hall
    cases hall
  rw [parserCode, successorsCode_eq_nil h hsupported.successors, hsegments, Code.nil_append,
    Code.nil_append]
  simp only [Code.definitelyAssigned_append]
  refine ⟨?_, ?_, ⟨?_, ?_, ?_⟩, by simp [Simple.reads, Expr.reads]⟩
  · apply Code.definitelyAssigned_concat
    rw [List.forall_mem_map]
    exact fun item _ ↦ definitelyAssigned_itemStorage le_rfl item
  · apply Code.definitelyAssigned_concat
    rw [List.forall_mem_map]
    intro item hitem
    apply definitelyAssigned_itemCode Set.subset_union_left (h.starts item hitem)
    · intro element helement x hx
      exact .inr (storage_subset fmt.items ⟨element, mem_leaves hitem helement, hx⟩)
    · exact fun element helement ↦ hcovered element (mem_leaves hitem helement)
  · exact definitelyAssigned_buildableTypesCode
      (Set.subset_union_left.trans Set.subset_union_left)
  · apply definitelyAssigned_resultTypesCode h
    · exact (Set.subset_union_left.trans Set.subset_union_left).trans Set.subset_union_left
    · rintro x (hx | ⟨idx, hidx, rfl⟩)
      · exact .inl (.inl (.inr (storage_subset fmt.items hx)))
      · exact .inr (assigned_buildableTypesCode hidx)
  · apply definitelyAssigned_resolutionCode h
    · exact ((Set.subset_union_left.trans Set.subset_union_left).trans
        Set.subset_union_left).trans Set.subset_union_left
    · rintro x (hx | ⟨idx, hidx, rfl⟩)
      · exact .inl (.inl (.inl (.inr (storage_subset fmt.items hx))))
      · exact .inl (.inr (assigned_buildableTypesCode hidx))
    · intro hall x hx
      rw [h.verified.allOperands, decide_eq_true_eq] at hall
      exact .inl (.inl (.inr (assigned_itemCode hall x hx)))
    · intro hne htypes
      rw [h.verified.allOperandTypes] at htypes
      exact h.allOperands_iff.mpr
        (hsupported.operandTypes hne ((seenOf_allOperandTypes _ _).mp htypes))

theorem wellFormed_iff_supported (h : AcceptedFormat md op fmt) :
    (WellFormed ["parser", "result"] (genParser md usesBuilder op fmt) ∧
      WellFormed ["p", "op"] (genPrinter md op fmt)) ↔ Supported md usesBuilder op fmt := by
  rw [h.printer_iff, wellFormed_iff (genParser_eq md usesBuilder op fmt h.starts),
    h.filled_parserCode, h.exposed_parserCode, h.exposed_items, covered_leaves_iff]
  constructor
  · rintro ⟨⟨hlength, -, ⟨⟨hsuccessors, hattrs⟩, hheads⟩, hbuilders, htypes, hsegments⟩, -⟩
    exact {
      groups := fun elements anchor hitem ↦
        ⟨hlength elements anchor hitem, hheads elements anchor hitem⟩
      successors := hsuccessors
      operandTypes := htypes
      segments := hsegments
      typeBuilders := hbuilders
      attrBuilders := hattrs }
  · intro hsupported
    refine ⟨⟨fun elements anchor hitem ↦ (hsupported.groups elements anchor hitem).1,
      Path.not_unassigned (h.definitelyAssigned_parserCode hsupported),
      ⟨⟨hsupported.successors, hsupported.attrBuilders⟩,
        fun elements anchor hitem ↦ (hsupported.groups elements anchor hitem).2⟩,
      hsupported.typeBuilders, hsupported.operandTypes, hsupported.segments⟩,
      hsupported.successors⟩

end AcceptedFormat

/-- The functions generated for an accepted format are well-formed exactly if the generators
support the format. -/
theorem generatedFunctions_wellFormed_iff {tokens : List FormatToken}
    (h : parse md op tokens = .ok fmt) :
    (WellFormed ["parser", "result"] (genParser md usesBuilder op fmt) ∧
      WellFormed ["p", "op"] (genPrinter md op fmt)) ↔ Supported md usesBuilder op fmt :=
  (acceptedFormat_of_parse h).wellFormed_iff_supported

end Main

/-- `$callee`, and `$value` in parentheses with its type behind it -/
def symbolFormat : OperationFormat where
  items := [.element (.var (.attr 0)), .element (.literal "("), .element (.var (.operand 0)),
    .element (.literal ")"), .element (.literal ":"), .element (.type (.operand 0)),
    .element (.attrDict false)]
  allOperands := false
  allOperandTypes := false
  allResultTypes := false
  resultTypes := []
  operandTypes := [.given]

theorem generatedFunctions_wellFormed_iff_symbolFormat :
    WellFormed ["parser", "result"] (genParser .base (fun _ ↦ true) symbolOp symbolFormat) ∧
      WellFormed ["p", "op"] (genPrinter .base symbolOp symbolFormat) := by
  have hparse : parse .base symbolOp [.var "callee", .literal "(", .var "value", .literal ")",
      .literal ":", .keyword "type", .lparen, .var "value", .rparen, .keyword "attr-dict"] =
      .ok symbolFormat := rfl
  rw [generatedFunctions_wellFormed_iff hparse]
  constructor
  · intro elements anchor hitem
    simp [symbolFormat] at hitem
  · intro element helement
    simp only [symbolFormat, leaves, Item.elements, List.flatMap_cons, List.flatMap_nil,
      List.append_nil, List.cons_append, List.nil_append, List.mem_cons, List.not_mem_nil,
      or_false] at helement
    rcases helement with rfl | rfl | rfl | rfl | rfl | rfl | rfl <;> exact not_false
  · intro _ htypes
    revert htypes
    decide
  · intro htrait
    cases htrait
  · have hnil : symbolFormat.buildableTypes = [] := rfl
    rw [hnil]
    exact fun text htext ↦ absurd htext List.not_mem_nil
  · intro i hi text htext
    have hnone : attrTypeBuilder .base symbolOp i = none := by
      rw [attrTypeBuilder]
      cases symbolOp.opAttrs[i]? <;> rfl
    rw [hnone] at htext
    cases htext

/-- An op with the sizes of its operands in an attribute. -/
def callOp : OperationOp where
  name := "call"
  opType := ⟨[⟨"args", .variadic (.leaf .any)⟩], [], List.nodup_singleton "args", List.nodup_nil⟩
  opAttrs := []
  opRegions := ⟨[], List.nodup_nil⟩
  opSuccs := ⟨[], List.nodup_nil⟩
  opTraits := [⟨"SizedOperandSegments", []⟩]
  config := []

/-- `$args attr-dict type($args)` -/
def callFormat : OperationFormat where
  items := [.element (.var (.operand 0)), .element (.attrDict false),
    .element (.type (.operand 0))]
  allOperands := false
  allOperandTypes := false
  allResultTypes := false
  resultTypes := []
  operandTypes := [.given]

/-- The sizes are put into an attribute by methods that are not exposed. -/
theorem generatedFunctions_not_wellFormed :
    ¬ ∀ (md : Metadata) (usesBuilder : String → Bool) (op : OperationOp)
      (tokens : List FormatToken) (fmt : OperationFormat), op.verify = .ok () →
      parse md op tokens = .ok fmt →
      WellFormed ["parser", "result"] (genParser md usesBuilder op fmt) ∧
        WellFormed ["p", "op"] (genPrinter md op fmt) := by
  intro h
  have hparse : parse .base callOp [.var "args", .keyword "attr-dict", .keyword "type", .lparen,
      .var "args", .rparen] = .ok callFormat := rfl
  have hwell := h .base (fun _ ↦ false) callOp _ callFormat rfl hparse
  have hsupported := (acceptedFormat_of_parse hparse).wellFormed_iff_supported.mp hwell
  have hmem := hsupported.segments rfl
  revert hmem
  decide

end DeclarativeMlir.Embed.OpGenerator

import DeclarativeMlir.Embed.OpFormatReading
import Mathlib.Data.List.Induction

/-!
# What an op format binds

A format should read every operand, successor and region of its op once, every attribute at most
once, and give every type at most once. The parser looks at one element after the other: an element
clashes with the elements before it, it breaks another rule, or it is added to what has been seen.
-/

namespace DeclarativeMlir.Embed.OpFormat

open Spec CheckedParsing

/-! ## The elements of a format -/

def Item.elements : Item → List Element
  | .element e => [e]
  | .optional elements _ => elements

/-- All elements, also those in optional groups. -/
def leaves (items : List Item) : List Element := items.flatMap Item.elements

def Element.typeArgs : Element → List TypeArg
  | .type arg => [arg]
  | .functionalType inputs outputs => [inputs, outputs]
  | _ => []

/-- The arguments of all type directives. -/
def typeArgs (elements : List Element) : List TypeArg := elements.flatMap Element.typeArgs

def Element.readsOperand (i : ℕ) : Element → Bool
  | .var (.operand j) => j == i
  | .operands => true
  | _ => false

def Element.readsSuccessor (i : ℕ) : Element → Bool
  | .var (.successor j) => j == i
  | .successors => true
  | _ => false

def Element.readsRegion (i : ℕ) : Element → Bool
  | .var (.region j) => j == i
  | _ => false

def Element.readsAttribute (i : ℕ) : Element → Bool
  | .var (.attr j) => j == i
  | .symbol j => j == i
  | _ => false

def TypeArg.givesOperand (i : ℕ) : TypeArg → Bool
  | .operand j => j == i
  | .operands => true
  | _ => false

def TypeArg.givesResult (i : ℕ) : TypeArg → Bool
  | .result j => j == i
  | .results => true
  | _ => false

/-- The elements bind everything once. -/
structure Exact (op : OperationOp) (elements : List Element) : Prop where
  operands : ∀ i < op.opType.operands.length, elements.countP (Element.readsOperand i) = 1
  successors : ∀ i < op.opSuccs.successors.length,
    elements.countP (Element.readsSuccessor i) = 1
  regions : ∀ i < op.opRegions.regions.length, elements.countP (Element.readsRegion i) = 1
  attributes : ∀ i < op.opAttrs.length, elements.countP (Element.readsAttribute i) ≤ 1
  operandTypes : ∀ i < op.opType.operands.length,
    (typeArgs elements).countP (TypeArg.givesOperand i) ≤ 1
  resultTypes : ∀ i < op.opType.results.length,
    (typeArgs elements).countP (TypeArg.givesResult i) ≤ 1

/-! ## What has been seen -/

def Element.attribute? : Element → Option ℕ
  | .var (.attr i) => some i
  | _ => none

def Element.successor? : Element → Option ℕ
  | .var (.successor i) => some i
  | _ => none

def Element.region? : Element → Option ℕ
  | .var (.region i) => some i
  | _ => none

def Element.isAttrDict : Element → Bool
  | .attrDict _ => true
  | _ => false

def TypeArg.operand? : TypeArg → Option ℕ
  | .operand i => some i
  | _ => none

def TypeArg.result? : TypeArg → Option ℕ
  | .result i => some i
  | _ => none

/-- What has been seen after these elements and these arguments of type directives. -/
def seenOf (elements : List Element) (args : List TypeArg) : Seen where
  hasAllOperands := .operands ∈ elements ∨ .operands ∈ args
  hasAttrDict := elements.any Element.isAttrDict
  hasAllSuccessors := .successors ∈ elements
  allOperandTypes := .operands ∈ args
  allResultTypes := .results ∈ args
  operandTypes := (args.filterMap TypeArg.operand?).reverse
  resultTypes := (args.filterMap TypeArg.result?).reverse
  operands := (elements.filterMap Element.operand?).reverse
  attrs := (elements.filterMap Element.attribute?).reverse
  successors := (elements.filterMap Element.successor?).reverse
  regions := (elements.filterMap Element.region?).reverse

/-- What one more element adds, apart from types. -/
def Seen.add (seen : Seen) : Element → Seen
  | .var (.attr i) => { seen with attrs := i :: seen.attrs }
  | .var (.operand i) => { seen with operands := i :: seen.operands }
  | .var (.successor i) => { seen with successors := i :: seen.successors }
  | .var (.region i) => { seen with regions := i :: seen.regions }
  | .attrDict _ => { seen with hasAttrDict := true }
  | .operands => { seen with hasAllOperands := true }
  | .successors => { seen with hasAllSuccessors := true }
  | _ => seen

theorem seenOf_append (elements : List Element) (args : List TypeArg) (element : Element) :
    seenOf (elements ++ [element]) args = (seenOf elements args).add element := by
  cases element with
  | var v => cases v <;> simp [seenOf, Seen.add, Element.operand?, Element.attribute?,
      Element.successor?, Element.region?, Element.isAttrDict]
  | _ => simp [seenOf, Seen.add, Element.operand?, Element.attribute?, Element.successor?,
      Element.region?, Element.isAttrDict]

/-- What the argument of a type directive adds. -/
def Seen.addTypes (seen : Seen) : TypeArg → Seen
  | .operand i => { seen with operandTypes := i :: seen.operandTypes }
  | .result i => { seen with resultTypes := i :: seen.resultTypes }
  | .operands => { seen with hasAllOperands := true, allOperandTypes := true }
  | .results => { seen with allResultTypes := true }

theorem seenOf_append_arg (elements : List Element) (args : List TypeArg) (arg : TypeArg) :
    seenOf elements (args ++ [arg]) = (seenOf elements args).addTypes arg := by
  cases arg <;> simp [seenOf, Seen.addTypes, TypeArg.operand?, TypeArg.result?]

theorem Element.operand?_eq_some (element : Element) (i : ℕ) :
    element.operand? = some i ↔ element = .var (.operand i) := by
  unfold Element.operand?
  split <;> simp_all

theorem Element.attribute?_eq_some (element : Element) (i : ℕ) :
    element.attribute? = some i ↔ element = .var (.attr i) := by
  unfold Element.attribute?
  split <;> simp_all

theorem Element.successor?_eq_some (element : Element) (i : ℕ) :
    element.successor? = some i ↔ element = .var (.successor i) := by
  unfold Element.successor?
  split <;> simp_all

theorem Element.region?_eq_some (element : Element) (i : ℕ) :
    element.region? = some i ↔ element = .var (.region i) := by
  unfold Element.region?
  split <;> simp_all

theorem TypeArg.operand?_eq_some (arg : TypeArg) (i : ℕ) :
    arg.operand? = some i ↔ arg = .operand i := by
  unfold TypeArg.operand?
  split <;> simp_all

theorem TypeArg.result?_eq_some (arg : TypeArg) (i : ℕ) :
    arg.result? = some i ↔ arg = .result i := by
  unfold TypeArg.result?
  split <;> simp_all

theorem mem_reverse_filterMap {α : Type} {f : α → Option ℕ} {mk : ℕ → α}
    (hf : ∀ a i, f a = some i ↔ a = mk i) (values : List α) (i : ℕ) :
    i ∈ (values.filterMap f).reverse ↔ mk i ∈ values := by
  simp only [List.mem_reverse, List.mem_filterMap, hf, exists_eq_right]

theorem isEmpty_reverse_filterMap {α : Type} {f : α → Option ℕ} {mk : ℕ → α}
    (hf : ∀ a i, f a = some i ↔ a = mk i) (values : List α) :
    (values.filterMap f).reverse.isEmpty = false ↔ ∃ i, mk i ∈ values := by
  rw [List.isEmpty_eq_false_iff_exists_mem]
  exact exists_congr fun i ↦ mem_reverse_filterMap hf values i

section SeenOf

variable (elements : List Element) (args : List TypeArg) (i : ℕ)

@[simp]
theorem mem_seenOf_operands :
    i ∈ (seenOf elements args).operands ↔ .var (.operand i) ∈ elements :=
  mem_reverse_filterMap Element.operand?_eq_some elements i

@[simp]
theorem mem_seenOf_attrs :
    i ∈ (seenOf elements args).attrs ↔ .var (.attr i) ∈ elements :=
  mem_reverse_filterMap Element.attribute?_eq_some elements i

@[simp]
theorem mem_seenOf_successors :
    i ∈ (seenOf elements args).successors ↔ .var (.successor i) ∈ elements :=
  mem_reverse_filterMap Element.successor?_eq_some elements i

@[simp]
theorem mem_seenOf_regions :
    i ∈ (seenOf elements args).regions ↔ .var (.region i) ∈ elements :=
  mem_reverse_filterMap Element.region?_eq_some elements i

@[simp]
theorem mem_seenOf_operandTypes :
    i ∈ (seenOf elements args).operandTypes ↔ .operand i ∈ args :=
  mem_reverse_filterMap TypeArg.operand?_eq_some args i

@[simp]
theorem mem_seenOf_resultTypes :
    i ∈ (seenOf elements args).resultTypes ↔ .result i ∈ args :=
  mem_reverse_filterMap TypeArg.result?_eq_some args i

@[simp]
theorem seenOf_operands_isEmpty :
    (seenOf elements args).operands.isEmpty = false ↔ ∃ i, .var (.operand i) ∈ elements :=
  isEmpty_reverse_filterMap Element.operand?_eq_some elements

@[simp]
theorem seenOf_successors_isEmpty :
    (seenOf elements args).successors.isEmpty = false ↔ ∃ i, .var (.successor i) ∈ elements :=
  isEmpty_reverse_filterMap Element.successor?_eq_some elements

@[simp]
theorem seenOf_operandTypes_isEmpty :
    (seenOf elements args).operandTypes.isEmpty = false ↔ ∃ i, .operand i ∈ args :=
  isEmpty_reverse_filterMap TypeArg.operand?_eq_some args

@[simp]
theorem seenOf_resultTypes_isEmpty :
    (seenOf elements args).resultTypes.isEmpty = false ↔ ∃ i, .result i ∈ args :=
  isEmpty_reverse_filterMap TypeArg.result?_eq_some args

@[simp]
theorem seenOf_hasAllOperands : (seenOf elements args).hasAllOperands = true ↔
    .operands ∈ elements ∨ .operands ∈ args := by
  simp [seenOf]

@[simp]
theorem seenOf_hasAllSuccessors :
    (seenOf elements args).hasAllSuccessors = true ↔ .successors ∈ elements := by
  simp [seenOf]

@[simp]
theorem seenOf_allOperandTypes :
    (seenOf elements args).allOperandTypes = true ↔ .operands ∈ args := by
  simp [seenOf]

@[simp]
theorem seenOf_allResultTypes :
    (seenOf elements args).allResultTypes = true ↔ .results ∈ args := by
  simp [seenOf]

end SeenOf

/-! ## Clashes and broken rules -/

/-- A type directive gives types that the arguments before it give. -/
def ArgClash (args : List TypeArg) : TypeArg → Prop
  | .operand i => .operands ∈ args ∨ .operand i ∈ args
  | .result i => .results ∈ args ∨ .result i ∈ args
  | .operands => .operands ∈ args ∨ ∃ i, .operand i ∈ args
  | .results => .results ∈ args ∨ ∃ i, .result i ∈ args

/-- An element binds something that is bound by the elements before it, where the argument
`operands` of a type directive counts for all operands. -/
def Clash (before : List Element) : Element → Prop
  | .var (.attr i) => .var (.attr i) ∈ before
  | .var (.operand i) =>
    (.operands ∈ before ∨ .operands ∈ typeArgs before) ∨ .var (.operand i) ∈ before
  | .var (.successor i) => .successors ∈ before ∨ .var (.successor i) ∈ before
  | .var (.region i) => .var (.region i) ∈ before
  | .operands =>
    (.operands ∈ before ∨ .operands ∈ typeArgs before) ∨ ∃ i, .var (.operand i) ∈ before
  | .successors => .successors ∈ before ∨ ∃ i, .var (.successor i) ∈ before
  | .type arg => ArgClash (typeArgs before) arg
  | .functionalType inputs outputs =>
    ArgClash (typeArgs before) inputs ∨ ArgClash (typeArgs before ++ [inputs]) outputs
  | _ => False

/-- The rules for an element that are not about what is bound. -/
def Lawful (op : OperationOp) (before : List Element) : Element → Prop
  | .literal text => isValidLiteral text = true
  | .var (.region i) => isVariadicRegion op i = false
  | .var (.result _) => False
  | .results => False
  | .attrDict _ => before.any Element.isAttrDict = false
  | _ => True

/-- The outcome of reading something: the error is about a clash, or about a rule that is broken
where nothing clashes, or the new state is known. -/
inductive Outcome (clash lawful : Prop) (post : Seen) : Except FormatError Seen → Prop
  | clash {error : FormatError} : clash → error.isBinding = true →
      Outcome clash lawful post (.error error)
  | broken {error : FormatError} : ¬ clash → ¬ lawful → error.isBinding = false →
      Outcome clash lawful post (.error error)
  | ok : ¬ clash → lawful → Outcome clash lawful post (.ok post)

namespace Outcome

variable {clash lawful clash' lawful' : Prop} {post post' : Seen}

/-- A clash in the second part counts if the first part is lawful. -/
theorem bind {r : Except FormatError Seen} {f : Seen → Except FormatError Seen}
    (hr : Outcome clash lawful post r) (hf : Outcome clash' lawful' post' (f post)) :
    Outcome (clash ∨ lawful ∧ clash') (lawful ∧ lawful') post' (r >>= f) := by
  cases hr with
  | clash hclash herror => exact .clash (.inl hclash) herror
  | broken hclash hlawful herror => exact .broken (by tauto) (by tauto) herror
  | ok hclash hlawful =>
    change Outcome _ _ _ (f post)
    generalize f post = r at hf
    cases hf with
    | clash hclash' herror => exact .clash (.inr ⟨hlawful, hclash'⟩) herror
    | broken hclash' hlawful' herror => exact .broken (by tauto) (by tauto) herror
    | ok hclash' hlawful' => exact .ok (by tauto) ⟨hlawful, hlawful'⟩

theorem congr {r : Except FormatError Seen} (h : Outcome clash lawful post r)
    (hclash : clash ↔ clash') (hlawful : lawful ↔ lawful') : Outcome clash' lawful' post r := by
  rw [hclash, hlawful] at h
  exact h

end Outcome

theorem outcome_typeArg (op : OperationOp) (elements : List Element) (args : List TypeArg)
    (arg : TypeArg) :
    Outcome (ArgClash args arg) True (seenOf elements (args ++ [arg]))
      (arg.read op (seenOf elements args)) := by
  rw [seenOf_append_arg]
  cases arg with
  | operand i =>
    simp only [TypeArg.read, bindTypes, seenOf_allOperandTypes, mem_seenOf_operandTypes]
    split_ifs with hclash
    · exact .clash hclash rfl
    · exact .ok hclash trivial
  | result i =>
    simp only [TypeArg.read, bindTypes, seenOf_allResultTypes, mem_seenOf_resultTypes]
    split_ifs with hclash
    · exact .clash hclash rfl
    · exact .ok hclash trivial
  | operands =>
    change Outcome _ _ _ (bindTypes op { seenOf elements args with hasAllOperands := true } .operands)
    simp only [bindTypes]
    have hiff : ((seenOf elements args).allOperandTypes ||
        !(seenOf elements args).operandTypes.isEmpty) = true ↔ ArgClash args .operands := by
      rw [Bool.or_eq_true, Bool.not_eq_true', seenOf_allOperandTypes, seenOf_operandTypes_isEmpty]
      exact Iff.rfl
    split_ifs with hclash
    · exact .clash (hiff.mp hclash) rfl
    · exact .ok (mt hiff.mpr hclash) trivial
  | results =>
    simp only [TypeArg.read, bindTypes]
    have hiff : ((seenOf elements args).allResultTypes ||
        !(seenOf elements args).resultTypes.isEmpty) = true ↔ ArgClash args .results := by
      rw [Bool.or_eq_true, Bool.not_eq_true', seenOf_allResultTypes, seenOf_resultTypes_isEmpty]
      exact Iff.rfl
    split_ifs with hclash
    · exact .clash (hiff.mp hclash) rfl
    · exact .ok (mt hiff.mpr hclash) trivial

theorem typeArgs_append (elements more : List Element) :
    typeArgs (elements ++ more) = typeArgs elements ++ typeArgs more := List.flatMap_append

theorem typeArgs_singleton (element : Element) : typeArgs [element] = element.typeArgs :=
  List.flatMap_singleton ..

/-- What has been seen after a list of elements. -/
def seenAfter (elements : List Element) : Seen := seenOf elements (typeArgs elements)

/-- An element that only gives types. -/
theorem seenAfter_typeDirective {elements : List Element} {element : Element}
    (h : element.typeArgs ≠ []) :
    seenAfter (elements ++ [element]) = seenOf elements (typeArgs elements ++ element.typeArgs) := by
  rw [seenAfter, typeArgs_append, typeArgs_singleton, seenOf_append]
  cases element with
  | type arg => rfl
  | functionalType inputs outputs => rfl
  | _ => exact absurd rfl h

theorem seenAfter_element {elements : List Element} {element : Element}
    (h : element.typeArgs = []) :
    seenAfter (elements ++ [element]) = seenOf (elements ++ [element]) (typeArgs elements) := by
  rw [seenAfter, typeArgs_append, typeArgs_singleton, h, List.append_nil]

theorem outcome_variable (op : OperationOp) (elements : List Element) (name : String)
    (v : Variable) :
    Outcome (Clash elements (.var v)) (Lawful op elements (.var v))
      (seenAfter (elements ++ [.var v]))
      (bindVariable op true name (seenAfter elements) v) := by
  rw [seenAfter_element rfl, seenOf_append]
  unfold seenAfter
  cases v with
  | attr i =>
    simp only [bindVariable, if_true, mem_seenOf_attrs]
    split_ifs with hclash
    · exact .clash hclash rfl
    · exact .ok hclash trivial
  | operand i =>
    simp only [bindVariable, if_true, mem_seenOf_operands, seenOf_hasAllOperands]
    split_ifs with hclash
    · exact .clash hclash rfl
    · exact .ok hclash trivial
  | result i => exact .broken not_false not_false rfl
  | successor i =>
    simp only [bindVariable, Bool.not_true, Bool.false_eq_true, if_false,
      mem_seenOf_successors, seenOf_hasAllSuccessors]
    split_ifs with hclash
    · exact .clash hclash rfl
    · exact .ok hclash trivial
  | region i =>
    simp only [bindVariable, Bool.not_true, Bool.false_eq_true, if_false, mem_seenOf_regions]
    split_ifs with hclash hvariadic
    · exact .clash hclash rfl
    · exact .broken hclash (by simp [Lawful, hvariadic]) rfl
    · exact .ok hclash (by simpa [Lawful] using hvariadic)

theorem outcome_element (op : OperationOp) (elements : List Element) (element : Element) :
    Outcome (Clash elements element) (Lawful op elements element)
      (seenAfter (elements ++ [element])) (element.read op (seenAfter elements)) := by
  cases element with
  | literal text =>
    rw [seenAfter_element rfl, seenOf_append]
    simp only [Element.read]
    split_ifs with hvalid
    · exact .ok not_false hvalid
    · exact .broken not_false hvalid rfl
  | var v => exact outcome_variable op elements _ v
  | attrDict withKeyword =>
    rw [seenAfter_element rfl, seenOf_append]
    have hattr : (seenAfter elements).hasAttrDict = elements.any Element.isAttrDict := rfl
    simp only [Element.read, bindAttrDict, Bool.not_true, Bool.false_eq_true, if_false, hattr]
    split_ifs with hseen
    · exact .broken not_false (by simp [Lawful, hseen]) rfl
    · exact .ok not_false (by simpa [Lawful] using hseen)
  | functionalType inputs outputs =>
    rw [seenAfter_typeDirective (by simp [Element.typeArgs])]
    have hinputs := outcome_typeArg op elements (typeArgs elements) inputs
    have houtputs := outcome_typeArg op elements (typeArgs elements ++ [inputs]) outputs
    rw [List.append_assoc] at houtputs
    apply (hinputs.bind houtputs).congr
    · simp [Clash]
    · simp [Lawful]
  | operands =>
    rw [seenAfter_element rfl, seenOf_append]
    have hiff : ((seenAfter elements).hasAllOperands || !(seenAfter elements).operands.isEmpty) =
        true ↔ Clash elements .operands := by
      rw [Bool.or_eq_true, Bool.not_eq_true', seenAfter, seenOf_hasAllOperands,
        seenOf_operands_isEmpty]
      exact Iff.rfl
    simp only [Element.read, bindOperands, Bool.true_and]
    split_ifs with hclash
    · exact .clash (hiff.mp hclash) rfl
    · exact .ok (mt hiff.mpr hclash) trivial
  | results => exact .broken not_false not_false rfl
  | successors =>
    rw [seenAfter_element rfl, seenOf_append]
    have hiff : ((seenAfter elements).hasAllSuccessors ||
        !(seenAfter elements).successors.isEmpty) = true ↔ Clash elements .successors := by
      rw [Bool.or_eq_true, Bool.not_eq_true', seenAfter, seenOf_hasAllSuccessors,
        seenOf_successors_isEmpty]
      exact Iff.rfl
    simp only [Element.read, bindSuccessors, Bool.not_true, Bool.false_eq_true, if_false]
    split_ifs with hclash
    · exact .clash (hiff.mp hclash) rfl
    · exact .ok (mt hiff.mpr hclash) trivial
  | type arg =>
    rw [seenAfter_typeDirective (by simp [Element.typeArgs])]
    exact outcome_typeArg op elements (typeArgs elements) arg
  | symbol i =>
    rw [seenAfter_element rfl, seenOf_append]
    exact .ok not_false trivial

/-! ## Whole formats -/

section Formats

variable (md : Metadata) (op : OperationOp)

def LawfulChild (isAnchor : Bool) (before : List Element) (element : Element) : Prop :=
  Lawful op before element ∧ checkChild md op isAnchor element = .ok ()

/-- The elements of a group from index `k` on are lawful. -/
def LawfulChildren (anchor : Option ℕ) : ℕ → List Element → List Element → Prop
  | _, _, [] => True
  | k, before, element :: elements =>
    LawfulChild md op (anchor == some k) before element ∧
      LawfulChildren anchor (k + 1) (before ++ [element]) elements

def LawfulItem (before : List Element) : Item → Prop
  | .element e => Lawful op before e
  | .optional elements anchor => LawfulChildren md op (some anchor) 0 before elements ∧
    (checkGroup (groupOf elements anchor)).isOk = true

def LawfulItems : List Element → List Item → Prop
  | _, [] => True
  | before, item :: items =>
    LawfulItem md op before item ∧ LawfulItems (before ++ item.elements) items

/-- Some element of a group is related to the elements before it, which break no other rule. -/
def MeetsChildren (R : List Element → Element → Prop) (anchor : Option ℕ) :
    ℕ → List Element → List Element → Prop
  | _, _, [] => False
  | k, before, element :: elements =>
    R before element ∨ LawfulChild md op (anchor == some k) before element ∧
      MeetsChildren R anchor (k + 1) (before ++ [element]) elements

def MeetsItem (R : List Element → Element → Prop) (before : List Element) : Item → Prop
  | .element e => R before e
  | .optional elements anchor => MeetsChildren md op R (some anchor) 0 before elements

/-- Some element of a format is related to the elements before it, which break no other rule. -/
def Meets (R : List Element → Element → Prop) : List Element → List Item → Prop
  | _, [] => False
  | before, item :: items =>
    MeetsItem md op R before item ∨
      LawfulItem md op before item ∧ Meets R (before ++ item.elements) items

end Formats

section Outcomes

variable {md : Metadata} {op : OperationOp}

theorem checkChild_error {isAnchor : Bool} {element : Element} {error : FormatError}
    (h : checkChild md op isAnchor element = .error error) : error.isBinding = false := by
  unfold checkChild err at h
  split at h <;> (try split_ifs at h) <;> cases h <;> rfl

theorem checkGroup_error {group : Group} {error : FormatError}
    (h : checkGroup group = .error error) : error.isBinding = false := by
  unfold checkGroup err at h
  split at h <;> (try split_ifs at h) <;> cases h <;> rfl

/-- A check that is not about what is bound. -/
theorem Outcome.check {α : Type} {clash lawful : Prop} {post : Seen}
    {r : Except FormatError Seen} (hr : Outcome clash lawful post r) {x : Except FormatError α}
    (hx : ∀ error, x = .error error → error.isBinding = false) :
    Outcome clash (lawful ∧ x.isOk = true) post (do
      let seen ← r
      let _ ← x
      return seen) := by
  cases hr with
  | clash hclash herror => exact .clash hclash herror
  | broken hclash hlawful herror => exact .broken hclash (fun h ↦ hlawful h.1) herror
  | ok hclash hlawful =>
    cases x with
    | error error => exact .broken hclash (by simp [Except.isOk, Except.toBool]) (hx error rfl)
    | ok a => exact .ok hclash ⟨hlawful, rfl⟩

theorem outcome_child (isAnchor : Bool) (before : List Element) (element : Element) :
    Outcome (Clash before element) (LawfulChild md op isAnchor before element)
      (seenAfter (before ++ [element])) (readChild md op isAnchor element (seenAfter before)) := by
  have hcheck := (outcome_element op before element).check (fun error h ↦
    @checkChild_error md op isAnchor element error h)
  apply hcheck.congr Iff.rfl
  apply and_congr_right'
  cases checkChild md op isAnchor element <;> simp [Except.isOk, Except.toBool]

theorem outcome_children (anchor : Option ℕ) (k : ℕ) (before elements : List Element) :
    Outcome (MeetsChildren md op Clash anchor k before elements)
      (LawfulChildren md op anchor k before elements) (seenAfter (before ++ elements))
      (readChildren md op anchor k elements (seenAfter before)) := by
  induction elements generalizing k before with
  | nil =>
    rw [List.append_nil]
    exact .ok not_false trivial
  | cons element elements ih =>
    rw [readChildren_cons]
    have htail := ih (k + 1) (before ++ [element])
    rw [List.append_assoc, List.singleton_append] at htail
    exact (outcome_child (anchor == some k) before element).bind htail

theorem outcome_item (before : List Element) (item : Item) :
    Outcome (MeetsItem md op Clash before item) (LawfulItem md op before item)
      (seenAfter (before ++ item.elements)) (item.read md op (seenAfter before)) := by
  cases item with
  | element element => exact outcome_element op before element
  | optional elements anchor =>
    exact (outcome_children (some anchor) 0 before elements).check fun error ↦ checkGroup_error

theorem outcome_items (before : List Element) (items : List Item) :
    Outcome (Meets md op Clash before items) (LawfulItems md op before items)
      (seenAfter (before ++ leaves items)) (readItems md op items (seenAfter before)) := by
  induction items generalizing before with
  | nil =>
    rw [leaves, List.flatMap_nil, List.append_nil]
    exact .ok not_false trivial
  | cons item items ih =>
    have htail := ih (before ++ item.elements)
    rw [List.append_assoc] at htail
    exact (outcome_item before item).bind htail

end Outcomes

/-! ## Accepted formats -/

/-- The errors are not about what is bound. -/
def Plain {α : Type} (x : Except FormatError α) : Prop :=
  ∀ error, x = .error error → ∃ message note, error = .other message note

namespace Plain

theorem isBinding {α : Type} {x : Except FormatError α} (h : Plain x) {error : FormatError}
    (hx : x = .error error) : error.isBinding = false := by
  obtain ⟨message, note, rfl⟩ := h error hx
  rfl

theorem ok {α : Type} (a : α) : Plain (.ok a) := fun _ h ↦ by cases h

theorem other {α : Type} (message : String) (note : Option String) :
    Plain (.error (.other message note) : Except FormatError α) := by
  intro error h
  cases h
  exact ⟨message, note, rfl⟩

theorem bind {α β : Type} {x : Except FormatError α} {f : α → Except FormatError β}
    (hx : Plain x) (hf : ∀ a, Plain (f a)) : Plain (x >>= f) := by
  intro error h
  cases x with
  | ok a => exact hf a error h
  | error error' => exact hx error (by cases h; rfl)

theorem mapM {α β : Type} {f : α → Except FormatError β} (hf : ∀ a, Plain (f a))
    (values : List α) : Plain (values.mapM f) := by
  induction values with
  | nil => exact ok []
  | cons value values ih =>
    rw [List.mapM_cons]
    exact (hf value).bind fun b ↦ ih.bind fun bs ↦ ok (b :: bs)

end Plain

section Accepted

variable (md : Metadata) (op : OperationOp)

theorem plain_verifyGroupAttributes (after : List Item) (elements : List Element) :
    Plain (verifyGroupAttributes md op after elements) := by
  induction elements with
  | nil => exact Plain.ok _
  | cons element elements ih =>
    unfold verifyGroupAttributes
    split
    · split_ifs
      · exact Plain.other _ _
      · exact ih
    · exact ih

theorem plain_verifyAttributes (items : List Item) : Plain (verifyAttributes md op items) := by
  induction items with
  | nil => exact Plain.ok _
  | cons item items ih =>
    cases item with
    | optional elements anchor =>
      exact (plain_verifyGroupAttributes md op items elements).bind fun _ ↦ ih
    | element element =>
      unfold verifyAttributes
      split
      · split_ifs
        · exact Plain.other _ _
        · exact ih
      · exact ih

theorem plain_notBuildable {α : Type} (kind : String) (i : ℕ) (name : String) :
    Plain (notBuildable kind i name : Except FormatError α) := Plain.other _ _

theorem plain_notFound {α : Type} (kind : String) (i : ℕ) (name : String) :
    Plain (notFound kind i name : Except FormatError α) := Plain.other _ _

theorem plain_verifyResult (seen : Seen) (result : NamedType) (i : ℕ) :
    Plain (verifyResult md op seen result i) := by
  unfold verifyResult
  split
  · exact Plain.ok _
  · split
    · exact Plain.ok _
    · split
      · exact plain_notBuildable _ _ _
      · split
        · exact plain_notBuildable _ _ _
        · exact Plain.ok _

theorem plain_verifyOperand (seen : Seen) (operand : NamedType) (i : ℕ) :
    Plain (verifyOperand md op seen operand i) := by
  unfold verifyOperand
  split
  · exact plain_notFound _ _ _
  · split
    · exact Plain.ok _
    · split
      · exact Plain.ok _
      · split
        · exact plain_notBuildable _ _ _
        · split
          · exact plain_notBuildable _ _ _
          · exact Plain.ok _

theorem plain_verifySuccessors (seen : Seen) : Plain (verifySuccessors op seen) := by
  unfold verifySuccessors
  split
  · exact Plain.ok _
  · split
    · exact Plain.ok _
    · exact plain_notFound _ _ _

theorem plain_verifyRegions (seen : Seen) : Plain (verifyRegions op seen) := by
  unfold verifyRegions
  split
  · exact Plain.ok _
  · exact plain_notFound _ _ _

theorem plain_verifyFormat (items : List Item) (seen : Seen) :
    Plain (verifyFormat md op items seen) := by
  unfold verifyFormat
  split
  · exact Plain.other _ _
  · refine (plain_verifyAttributes md op items).bind fun _ ↦ ?_
    refine (Plain.mapM (fun value ↦ plain_verifyResult md op seen _ _) _).bind fun _ ↦ ?_
    refine (Plain.mapM (fun value ↦ plain_verifyOperand md op seen _ _) _).bind fun _ ↦ ?_
    refine (plain_verifySuccessors op seen).bind fun _ ↦ ?_
    exact (plain_verifyRegions op seen).bind fun _ ↦ Plain.ok _

end Accepted

/-! ## Places in a format -/

section Places

variable {α β : Type}

/-- Where an entry of a flattened list comes from. -/
theorem exists_of_flatMap_eq {f : α → List β} {values : List α} {before after : List β} {b : β}
    (h : values.flatMap f = before ++ b :: after) :
    ∃ pre a post us vs, values = pre ++ a :: post ∧ f a = us ++ b :: vs ∧
      before = pre.flatMap f ++ us := by
  induction values generalizing before with
  | nil => simp at h
  | cons value values ih =>
    rw [List.flatMap_cons, List.append_eq_append_iff] at h
    rcases h with ⟨middle, rfl, hrest⟩ | ⟨middle, hvalue, hrest⟩
    · obtain ⟨pre, a, post, us, vs, rfl, ha, rfl⟩ := ih hrest
      exact ⟨value :: pre, a, post, us, vs, rfl, ha, by simp⟩
    · cases middle with
      | nil =>
        rw [List.append_nil] at hvalue
        have hrest' : values.flatMap f = [] ++ b :: after := hrest.symm
        obtain ⟨pre, a, post, us, vs, rfl, ha, hus⟩ := ih hrest'
        exact ⟨value :: pre, a, post, us, vs, rfl, ha, by simp [hvalue, ← hus]⟩
      | cons b' middle =>
        obtain ⟨rfl, -⟩ := List.cons.inj hrest
        exact ⟨[], value, values, before, middle, rfl, hvalue, rfl⟩

theorem countP_le_one_iff {p : α → Bool} {values : List α} :
    values.countP p ≤ 1 ↔
      ∀ pre a post, values = pre ++ a :: post → p a = true → ∀ b ∈ pre, p b = false := by
  constructor
  · rintro h pre a post rfl ha b hb
    by_contra htrue
    rw [Bool.not_eq_false] at htrue
    have hpos : 0 < pre.countP p := List.countP_pos_iff.mpr ⟨b, hb, htrue⟩
    rw [List.countP_append, List.countP_cons_of_pos ha] at h
    omega
  · intro h
    induction values using List.reverseRecOn with
    | nil => simp
    | append_singleton values a ih =>
      rw [List.countP_append, List.countP_singleton]
      split_ifs with ha
      · have hzero : values.countP p = 0 :=
          List.countP_eq_zero.mpr fun b hb ↦ by simp [h values a [] rfl ha b hb]
        omega
      · apply ih
        intro pre b post hvalues
        exact h pre b (post ++ [a]) (by simp [hvalues])

end Places

section Meets

variable {md : Metadata} {op : OperationOp} {R R' : List Element → Element → Prop}

theorem MeetsChildren.mono {anchor : Option ℕ} {k : ℕ} {before elements : List Element}
    (h : MeetsChildren md op R anchor k before elements)
    (hR : ∀ pre e post, elements = pre ++ e :: post → R (before ++ pre) e → R' (before ++ pre) e) :
    MeetsChildren md op R' anchor k before elements := by
  induction elements generalizing k before with
  | nil => exact h
  | cons element elements ih =>
    rcases h with h | ⟨hlawful, h⟩
    · left
      simpa using hR [] element elements rfl (by simpa using h)
    · right
      refine ⟨hlawful, ih h fun pre e post helements hRe ↦ ?_⟩
      rw [List.append_assoc] at hRe ⊢
      exact hR (element :: pre) e post (by rw [helements]; rfl) hRe

/-- A relation that only differs at places where it does not matter. -/
theorem Meets.mono {before : List Element} {items : List Item} (h : Meets md op R before items)
    (hR : ∀ pre e post, leaves items = pre ++ e :: post →
      R (before ++ pre) e → R' (before ++ pre) e) : Meets md op R' before items := by
  induction items generalizing before with
  | nil => exact h
  | cons item items ih =>
    rcases h with h | ⟨hlawful, h⟩
    · left
      cases item with
      | element element =>
        have hRe : R (before ++ []) element := by rwa [List.append_nil]
        have hRe' := hR [] element (leaves items) rfl hRe
        rwa [List.append_nil] at hRe'
      | optional elements anchor =>
        apply MeetsChildren.mono h
        rintro pre e post rfl hRe
        exact hR pre e (post ++ leaves items) (by simp [leaves, Item.elements]) hRe
    · right
      refine ⟨hlawful, ih h fun pre e post hitems hRe ↦ ?_⟩
      rw [List.append_assoc] at hRe ⊢
      refine hR (item.elements ++ pre) e post ?_ hRe
      rw [List.append_assoc, ← hitems]
      rfl

theorem LawfulChildren.meets {anchor : Option ℕ} {k : ℕ} {before pre post : List Element}
    {e : Element} (h : LawfulChildren md op anchor k before (pre ++ e :: post))
    (hR : R (before ++ pre) e) : MeetsChildren md op R anchor k before (pre ++ e :: post) := by
  induction pre generalizing k before with
  | nil =>
    left
    simpa using hR
  | cons element pre ih =>
    right
    exact ⟨h.1, ih h.2 (by simpa using hR)⟩

/-- In a format without broken rules no place is out of sight. -/
theorem LawfulItems.meets {before : List Element} {items : List Item}
    (h : LawfulItems md op before items) {pre post : List Element} {e : Element}
    (hitems : leaves items = pre ++ e :: post) (hR : R (before ++ pre) e) :
    Meets md op R before items := by
  induction items generalizing before pre with
  | nil => simp [leaves] at hitems
  | cons item items ih =>
    rw [leaves, List.flatMap_cons, List.append_eq_append_iff] at hitems
    rcases hitems with ⟨middle, rfl, hrest⟩ | ⟨middle, hitem, hrest⟩
    · right
      exact ⟨h.1, ih h.2 hrest (by rwa [List.append_assoc])⟩
    · cases middle with
      | nil =>
        right
        rw [List.append_nil] at hitem
        have hrest' : leaves items = [] ++ e :: post := hrest.symm
        refine ⟨h.1, ih h.2 hrest' ?_⟩
        rwa [hitem, List.append_nil]
      | cons e' middle =>
        left
        obtain ⟨rfl, -⟩ := List.cons.inj hrest
        cases item with
        | element element =>
          obtain ⟨rfl, hnil⟩ : pre = [] ∧ [element] = e :: middle := by
            cases pre with
            | nil => exact ⟨rfl, hitem⟩
            | cons first pre => simp [Item.elements] at hitem
          obtain ⟨rfl, -⟩ := List.cons.inj hnil
          rwa [List.append_nil] at hR
        | optional elements anchor =>
          have helements : elements = pre ++ e :: middle := hitem
          subst helements
          exact h.1.1.meets hR

end Meets

end DeclarativeMlir.Embed.OpFormat

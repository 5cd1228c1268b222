import DeclarativeMlir.Embed.OpFormat
import DeclarativeMlir.Spec.SpecRoundTrip
import Mathlib.Data.List.Flatten

/-!
# Names of an op

The Python class that exposes an op has a parameter of its constructor and a getter for the names
of the op. Names are unique in each of the five lists of an op, while the class, the look-up of
values and the variables of an assembly format have the names of several lists.
-/

namespace DeclarativeMlir.Embed

open Spec OpFormat

/-! ## The exposed class -/

/-- What is known of types and attributes where an op is exposed. -/
structure ExposeContext where
  /-- the builder of the metadata of a type -/
  typeBuilder : Ty → Option String
  attrBuilder : Attr → Option String
  isDefault : Attr → Bool
  isOptional : Attr → Bool

/-- A parameter of a constructor. -/
structure Argument where
  name : String
  type : String
  value : String
  deriving DecidableEq

structure ArgumentBuilder where
  args : List Argument
  defArgs : List Argument

def ArgumentBuilder.add (b : ArgumentBuilder) (name type : String) : ArgumentBuilder :=
  { b with args := b.args ++ [⟨name, type, "None"⟩] }

/-- `add`, with a default value -/
def ArgumentBuilder.addDefault (b : ArgumentBuilder) (name value type : String) :
    ArgumentBuilder :=
  { b with defArgs := b.defArgs ++ [⟨name, type, value⟩] }

/-- A method of `mlir.OperationWrap` or `mlir.Op`, called with a name. -/
inductive Getter where
  | name (opName : String)
  | call (method name : String)
  deriving DecidableEq

structure PythonClass where
  name : String
  arguments : ArgumentBuilder
  opName : String
  /-- the names under which attributes are put into the dictionary -/
  theAttrs : List String
  /-- the names that are put into lists of values and successors, and whether they are lists -/
  results : List (String × Bool)
  operands : List (String × Bool)
  successors : List (String × Bool)
  methods : List (String × Getter)

/-- The parameters of `__init__`. -/
def PythonClass.parameters (cls : PythonClass) : List String :=
  ["self", "theOp"] ++ (cls.arguments.args ++ cls.arguments.defArgs).map (·.name)

/-- The methods other than `__init__`, in the order of their definitions. -/
def PythonClass.accessors (cls : PythonClass) : List String := cls.methods.map (·.1)

def sanitizeClassName (name : String) : String :=
  if name = "assert" then "Assert" else if name = "return" then "Return" else name

section ExposeDynamicOp

variable (ctx : ExposeContext)

def addOperand (b : ArgumentBuilder) (operand : NamedType) : ArgumentBuilder :=
  b.add operand.name (if operand.type.isVariadic then "list" else "mlir.Value")

def addResult (b : ArgumentBuilder) (result : NamedType) : ArgumentBuilder :=
  let cls := if result.type.isVariadic then "list" else "mlir.Type"
  match ctx.typeBuilder result.type with
  | some builder => b.addDefault result.name builder cls
  | none => b.add result.name cls

/-- A default attribute without a builder is an error. -/
def addAttr (b : ArgumentBuilder) (attr : String × Attr) : Option ArgumentBuilder :=
  match ctx.attrBuilder attr.2 with
  | some builder => some (b.addDefault attr.1 builder "mlir.Attribute")
  | none =>
    if ctx.isDefault attr.2 then none
    else if ctx.isOptional attr.2 then
      some (b.addDefault attr.1 "mlir.Attribute()" "mlir.Attribute")
    else some (b.add attr.1 "mlir.Attribute")

def addSuccessor (b : ArgumentBuilder) (succ : NamedConstraint SuccessorConstraint) :
    ArgumentBuilder :=
  b.add succ.name (if succ.attr.isVariadic then "list" else "mlir.Block")

def valueGetter (kind : ValueKind) (isVariadic : Bool) : String :=
  match kind, isVariadic with
  | .operand, true => "getOperandGroup"
  | .operand, false => "getOperand"
  | .result, true => "getResultGroup"
  | .result, false => "getResult"

def getters (op : OperationOp) : List (String × Getter) :=
  (op.opType.operands.map fun operand ↦
    (operand.name, .call (valueGetter .operand operand.type.isVariadic) operand.name)) ++
  ((op.opType.results.map fun result ↦
    (result.name, .call (valueGetter .result result.type.isVariadic) result.name)) ++
  ((op.opAttrs.map fun attr ↦ (attr.1, .call "getAttr" attr.1)) ++
  ((op.opSuccs.successors.map fun succ ↦
    (succ.name, .call (if succ.attr.isVariadic then "getSuccessors" else "getSuccessor")
      succ.name)) ++
  op.opRegions.regions.map fun region ↦
    (region.name, .call (if region.attr.isVariadic then "getRegions" else "getRegion")
      region.name))))

/-- The class of an op of a dialect, or nothing where the exposition fails. -/
def exposeDynamicOp (dialect : String) (op : OperationOp) : Option PythonClass := do
  let b := op.opType.results.foldl (addResult ctx) (op.opType.operands.foldl addOperand ⟨[], []⟩)
  let b ← op.opAttrs.foldlM (addAttr ctx) b
  let b := op.opSuccs.successors.foldl addSuccessor b
  let b := b.addDefault "numRegions" (toString op.opRegions.regions.length) "int"
  let b := b.addDefault "loc" "mlir.UnknownLoc()" "mlir.LocationAttr"
  let opName := dialect ++ "." ++ op.name
  return {
    name := sanitizeClassName op.name
    arguments := b
    opName
    theAttrs := op.opAttrs.map (·.1)
    results := op.opType.results.map fun result ↦ (result.name, result.type.isVariadic)
    operands := op.opType.operands.map fun operand ↦ (operand.name, operand.type.isVariadic)
    successors := op.opSuccs.successors.map fun succ ↦ (succ.name, succ.attr.isVariadic)
    methods := ("getName", .name opName) :: getters op }

end ExposeDynamicOp

/-! ## Values by name -/

/-- The number of operands and of results with a name. -/
def isOperandOrResult (opType : OpType) (name : String) : ℕ × ℕ :=
  (opType.operands.countP fun operand ↦ operand.name == name,
    opType.results.countP fun result ↦ result.name == name)

section Values

variable (opName : String) (opType : OpType) (name : String)

/-- The position of a value of one of the lists. -/
def getValueOrGroup (kind : ValueKind) : Except String ValueRef :=
  let values := match kind with
    | .operand => opType.operands
    | .result => opType.results
  match values.findIdx? fun value ↦ value.name == name with
  | some idx => .ok ⟨kind, idx⟩
  | none => .error s!"Unable to find named value '{name}' for op '{opName}'"

def getOperandOrResult : Except String ValueRef :=
  let found := isOperandOrResult opType name
  if found.1 ≠ 0 then getValueOrGroup opName opType name .operand
  else if found.2 ≠ 0 then getValueOrGroup opName opType name .result
  else .error s!"{name} is neither an operand nor a result of op '{opName}'"

/-- The look-up that searches the results first. -/
def getResultOrOperand : Except String ValueRef :=
  let found := isOperandOrResult opType name
  if found.2 ≠ 0 then getValueOrGroup opName opType name .result
  else if found.1 ≠ 0 then getValueOrGroup opName opType name .operand
  else .error s!"{name} is neither an operand nor a result of op '{opName}'"

end Values

/-! ## Names -/

/-- The names of an op, list by list. -/
def nameLists (op : OperationOp) : List (List String) :=
  [op.opType.operands.map (·.name), op.opType.results.map (·.name), op.opAttrs.map (·.1),
    op.opSuccs.successors.map (·.name), op.opRegions.regions.map (·.name)]

def reservedNames : List String := ["theOp", "numRegions", "loc", "getName"]

/-- A specification whose attribute dictionary has unique keys, as all dictionaries have. -/
structure ParsedOp extends OperationOp where
  opAttrs_nodup : (opAttrs.map (·.1)).Nodup

/-- A variable of an assembly format stands for a thing with its name. -/
def RefersTo (op : OperationOp) (name : String) : Variable → Prop
  | .attr idx => (op.opAttrs.map (·.1))[idx]? = some name
  | .operand idx => (op.opType.operands.map (·.name))[idx]? = some name
  | .result idx => (op.opType.results.map (·.name))[idx]? = some name
  | .successor idx => (op.opSuccs.successors.map (·.name))[idx]? = some name
  | .region idx => (op.opRegions.regions.map (·.name))[idx]? = some name

/-- The names of all five lists are different and not reserved, the exposed class has no parameter
and no accessor twice, values are found in any order of the lists, and no two things are named by
one variable. -/
structure Unambiguous (ctx : ExposeContext) (dialect : String) (op : OperationOp) : Prop where
  names_nodup : (nameLists op).flatten.Nodup
  names_not_reserved : ∀ name ∈ (nameLists op).flatten, name ∉ reservedNames
  parameters_nodup : ∀ cls, exposeDynamicOp ctx dialect op = some cls → cls.parameters.Nodup
  accessors_nodup : ∀ cls, exposeDynamicOp ctx dialect op = some cls → cls.accessors.Nodup
  values_eq : ∀ opName name,
    getOperandOrResult opName op.opType name = getResultOrOperand opName op.opType name
  variable_eq : ∀ name var var', RefersTo op name var → RefersTo op name var' → var = var'

/-- No attribute prevents the exposition of the op. -/
def Exposable (ctx : ExposeContext) (op : OperationOp) : Prop :=
  ∀ attr ∈ op.opAttrs, ctx.attrBuilder attr.2 = none → ctx.isDefault attr.2 = false

/-- The conditions that nothing in the code checks: no two lists share a name, no name is reserved,
and of an op that can be exposed, no parameter is named `self`. -/
structure NamesApart (ctx : ExposeContext) (op : OperationOp) : Prop where
  disjoint : (nameLists op).Pairwise List.Disjoint
  not_reserved : ∀ names ∈ nameLists op, ∀ name ∈ reservedNames, name ∉ names
  not_self : Exposable ctx op → ∀ names ∈ (nameLists op).take 4, "self" ∉ names

/-! ## Parameters and accessors -/

/-- The names of the arguments so far. -/
def ArgumentBuilder.names (b : ArgumentBuilder) : List String :=
  (b.args ++ b.defArgs).map (·.name)

theorem ArgumentBuilder.add_names (b : ArgumentBuilder) (name type : String) :
    (b.add name type).names.Perm (b.names ++ [name]) := by
  simp only [ArgumentBuilder.add, ArgumentBuilder.names, List.map_append, List.map_cons,
    List.map_nil, List.append_assoc]
  exact List.Perm.append_left _ List.perm_append_comm

theorem ArgumentBuilder.addDefault_names (b : ArgumentBuilder) (name value type : String) :
    (b.addDefault name value type).names.Perm (b.names ++ [name]) := by
  simp [ArgumentBuilder.addDefault, ArgumentBuilder.names]

/-- A fold that adds one argument for each item. -/
theorem foldl_names {α : Type} {step : ArgumentBuilder → α → ArgumentBuilder} {name : α → String}
    (hstep : ∀ b item, (step b item).names.Perm (b.names ++ [name item])) (items : List α)
    (b : ArgumentBuilder) : (items.foldl step b).names.Perm (b.names ++ items.map name) := by
  induction items generalizing b with
  | nil => simp
  | cons item items ih =>
    have hrest : (items.foldl step (step b item)).names.Perm
        (b.names ++ [name item] ++ items.map name) :=
      (ih (step b item)).trans ((hstep b item).append_right _)
    simpa using hrest

theorem addOperand_names (b : ArgumentBuilder) (operand : NamedType) :
    (addOperand b operand).names.Perm (b.names ++ [operand.name]) :=
  b.add_names ..

theorem addSuccessor_names (b : ArgumentBuilder) (succ : NamedConstraint SuccessorConstraint) :
    (addSuccessor b succ).names.Perm (b.names ++ [succ.name]) :=
  b.add_names ..

theorem addResult_names (ctx : ExposeContext) (b : ArgumentBuilder) (result : NamedType) :
    (addResult ctx b result).names.Perm (b.names ++ [result.name]) := by
  unfold addResult
  cases ctx.typeBuilder result.type with
  | some builder => exact b.addDefault_names ..
  | none => exact b.add_names ..

theorem addAttr_names {ctx : ExposeContext} {b b' : ArgumentBuilder} {attr : String × Attr}
    (h : addAttr ctx b attr = some b') : b'.names.Perm (b.names ++ [attr.1]) := by
  unfold addAttr at h
  split at h
  · obtain rfl := Option.some.inj h
    exact b.addDefault_names ..
  · split_ifs at h
    · obtain rfl := Option.some.inj h
      exact b.addDefault_names ..
    · obtain rfl := Option.some.inj h
      exact b.add_names ..

theorem addAttr_isSome_iff (ctx : ExposeContext) (b : ArgumentBuilder) (attr : String × Attr) :
    (∃ b', addAttr ctx b attr = some b') ↔
      (ctx.attrBuilder attr.2 = none → ctx.isDefault attr.2 = false) := by
  unfold addAttr
  cases ctx.attrBuilder attr.2 with
  | some builder => simp
  | none =>
    cases ctx.isDefault attr.2 with
    | true => simp
    | false => cases ctx.isOptional attr.2 <;> simp

theorem foldlM_addAttr_names {ctx : ExposeContext} (attrs : List (String × Attr))
    {b b' : ArgumentBuilder} (h : attrs.foldlM (addAttr ctx) b = some b') :
    b'.names.Perm (b.names ++ attrs.map (·.1)) := by
  induction attrs generalizing b with
  | nil =>
    obtain rfl := Option.some.inj h
    simp
  | cons attr attrs ih =>
    rw [List.foldlM_cons] at h
    obtain ⟨next, hnext, hrest⟩ := Option.bind_eq_some_iff.mp h
    have hperm := (ih hrest).trans ((addAttr_names hnext).append_right _)
    simpa using hperm

theorem foldlM_addAttr_isSome_iff (ctx : ExposeContext) (attrs : List (String × Attr))
    (b : ArgumentBuilder) : (∃ b', attrs.foldlM (addAttr ctx) b = some b') ↔
      ∀ attr ∈ attrs, ctx.attrBuilder attr.2 = none → ctx.isDefault attr.2 = false := by
  induction attrs generalizing b with
  | nil => simp
  | cons attr attrs ih =>
    rw [List.foldlM_cons, List.forall_mem_cons, ← addAttr_isSome_iff ctx b attr]
    constructor
    · rintro ⟨b', h⟩
      obtain ⟨next, hnext, hrest⟩ := Option.bind_eq_some_iff.mp h
      exact ⟨⟨next, hnext⟩, (ih next).mp ⟨b', hrest⟩⟩
    · rintro ⟨⟨next, hnext⟩, hrest⟩
      obtain ⟨b', hb'⟩ := (ih next).mpr hrest
      exact ⟨b', Option.bind_eq_some_iff.mpr ⟨next, hnext, hb'⟩⟩

theorem getters_fst (op : OperationOp) :
    (getters op).map (·.1) = (nameLists op).flatten := by
  simp [getters, nameLists, Function.comp_def]

/-- What the exposed class names, and when there is one. -/
theorem exposeDynamicOp_spec (ctx : ExposeContext) (dialect : String) (op : OperationOp) :
    ((∃ cls, exposeDynamicOp ctx dialect op = some cls) ↔ Exposable ctx op) ∧
    ∀ cls, exposeDynamicOp ctx dialect op = some cls →
      cls.parameters.Perm (["self", "theOp", "numRegions", "loc"] ++
        ((nameLists op).take 4).flatten) ∧
      cls.accessors = "getName" :: (nameLists op).flatten := by
  let b := op.opType.results.foldl (addResult ctx) (op.opType.operands.foldl addOperand ⟨[], []⟩)
  have hb : b.names.Perm (op.opType.operands.map (·.name) ++ op.opType.results.map (·.name)) := by
    have hoperands := foldl_names addOperand_names op.opType.operands ⟨[], []⟩
    have hresults := foldl_names (addResult_names ctx) op.opType.results
      (op.opType.operands.foldl addOperand ⟨[], []⟩)
    exact hresults.trans (hoperands.append_right _)
  have hsome := foldlM_addAttr_isSome_iff ctx op.opAttrs b
  unfold exposeDynamicOp
  constructor
  · rw [Exposable, ← hsome]
    constructor
    · rintro ⟨cls, h⟩
      obtain ⟨b', hb', -⟩ := Option.bind_eq_some_iff.mp h
      exact ⟨b', hb'⟩
    · rintro ⟨b', hb'⟩
      exact ⟨_, Option.bind_eq_some_iff.mpr ⟨b', hb', rfl⟩⟩
  · intro cls h
    obtain ⟨b', hb', hcls⟩ := Option.bind_eq_some_iff.mp h
    obtain rfl := Option.some.inj hcls
    refine ⟨?_, by rw [PythonClass.accessors, List.map_cons, getters_fst]⟩
    have hattrs := foldlM_addAttr_names op.opAttrs hb'
    have hsuccs := foldl_names addSuccessor_names op.opSuccs.successors b'
    have hnum := (op.opSuccs.successors.foldl addSuccessor b').addDefault_names "numRegions"
      (toString op.opRegions.regions.length) "int"
    have hloc := ((op.opSuccs.successors.foldl addSuccessor b').addDefault "numRegions"
      (toString op.opRegions.regions.length) "int").addDefault_names "loc" "mlir.UnknownLoc()"
      "mlir.LocationAttr"
    have hall := hloc.trans ((hnum.trans ((hsuccs.trans ((hattrs.trans
      (hb.append_right _)).append_right _)).append_right _)).append_right _)
    have hnames : ((nameLists op).take 4).flatten = op.opType.operands.map (·.name) ++
        op.opType.results.map (·.name) ++ op.opAttrs.map (·.1) ++
          op.opSuccs.successors.map (·.name) := by
      simp [nameLists]
    rw [PythonClass.parameters, hnames]
    refine (hall.append_left _).trans ?_
    rw [List.append_assoc _ ["numRegions"], List.cons_append, List.cons_append, List.nil_append]
    exact ((List.perm_append_comm).cons _).cons _

/-! ## Values and variables -/

theorem countP_ne_zero_iff {values : List NamedType} {name : String} :
    values.countP (fun value ↦ value.name == name) ≠ 0 ↔ name ∈ values.map (·.name) := by
  rw [Nat.ne_zero_iff_zero_lt, List.countP_pos_iff]
  simp

theorem getOperandOrResult_eq (opName : String) {opType : OpType}
    (hdisjoint : (opType.operands.map (·.name)).Disjoint (opType.results.map (·.name)))
    (name : String) :
    getOperandOrResult opName opType name = getResultOrOperand opName opType name := by
  simp only [getOperandOrResult, getResultOrOperand, isOperandOrResult, countP_ne_zero_iff]
  by_cases hoperand : name ∈ opType.operands.map (·.name)
  · have hresult : name ∉ opType.results.map (·.name) := fun h ↦ hdisjoint hoperand h
    rw [if_pos hoperand, if_neg hresult, if_pos hoperand]
  · rw [if_neg hoperand, if_neg hoperand]

/-- The list of a variable, and the position in it. -/
def variablePosition : Variable → ℕ × ℕ
  | .operand idx => (0, idx)
  | .result idx => (1, idx)
  | .attr idx => (2, idx)
  | .successor idx => (3, idx)
  | .region idx => (4, idx)

theorem variablePosition_inj {var var' : Variable}
    (h : variablePosition var = variablePosition var') : var = var' := by
  cases var <;> cases var' <;> simp_all [variablePosition]

theorem refersTo_iff (op : OperationOp) (name : String) (var : Variable) :
    RefersTo op name var ↔ ∃ names, (nameLists op)[(variablePosition var).1]? = some names ∧
      names[(variablePosition var).2]? = some name := by
  cases var <;> simp [RefersTo, variablePosition, nameLists]

theorem nodup_of_mem_nameLists (op : ParsedOp) {names : List String}
    (hmem : names ∈ nameLists op.toOperationOp) : names.Nodup := by
  simp only [nameLists, List.mem_cons, List.not_mem_nil, or_false] at hmem
  rcases hmem with rfl | rfl | rfl | rfl | rfl
  · exact op.opType.operands_nodup
  · exact op.opType.results_nodup
  · exact op.opAttrs_nodup
  · exact op.opSuccs.successors_nodup
  · exact op.opRegions.regions_nodup

theorem variable_eq_of_disjoint (op : ParsedOp)
    (hdisjoint : (nameLists op.toOperationOp).Pairwise List.Disjoint) {name : String}
    {var var' : Variable} (hvar : RefersTo op.toOperationOp name var)
    (hvar' : RefersTo op.toOperationOp name var') : var = var' := by
  obtain ⟨names, hlist, hidx⟩ := (refersTo_iff _ _ _).mp hvar
  obtain ⟨names', hlist', hidx'⟩ := (refersTo_iff _ _ _).mp hvar'
  have hsame : (variablePosition var).1 = (variablePosition var').1 := by
    have hmem := List.mem_of_getElem? hidx
    have hmem' := List.mem_of_getElem? hidx'
    obtain ⟨hlt, rfl⟩ := List.getElem?_eq_some_iff.mp hlist
    obtain ⟨hlt', rfl⟩ := List.getElem?_eq_some_iff.mp hlist'
    have hpairwise := List.pairwise_iff_getElem.mp hdisjoint
    rcases Nat.lt_trichotomy (variablePosition var).1 (variablePosition var').1 with h | h | h
    · exact (hpairwise _ _ hlt hlt' h hmem hmem').elim
    · exact h
    · exact (hpairwise _ _ hlt' hlt h hmem' hmem).elim
  have hnames : names' = names := by
    rw [hsame, hlist'] at hlist
    exact Option.some.inj hlist
  have hnodup := nodup_of_mem_nameLists op (List.mem_of_getElem? hlist)
  obtain ⟨hlt, hget⟩ := List.getElem?_eq_some_iff.mp hidx
  obtain ⟨hlt', hget'⟩ := List.getElem?_eq_some_iff.mp (hnames ▸ hidx')
  have hposition : (variablePosition var).2 = (variablePosition var').2 :=
    (hnodup.getElem_inj_iff).mp (hget.trans hget'.symm)
  exact variablePosition_inj (Prod.ext hsame hposition)

/-! ## The condition -/

theorem names_nodup_iff (op : ParsedOp) : (nameLists op.toOperationOp).flatten.Nodup ↔
    (nameLists op.toOperationOp).Pairwise List.Disjoint := by
  rw [List.nodup_flatten]
  exact and_iff_right fun names hmem ↦ nodup_of_mem_nameLists op hmem

/-- An operand and a result with one name. -/
def sameNamed : ParsedOp where
  name := "same"
  opType := ⟨[⟨"x", .leaf .any⟩], [⟨"x", .leaf .any⟩], List.nodup_singleton "x",
    List.nodup_singleton "x"⟩
  opAttrs := []
  opRegions := ⟨[], List.nodup_nil⟩
  opSuccs := ⟨[], List.nodup_nil⟩
  opTraits := []
  config := []
  opAttrs_nodup := List.nodup_nil

end DeclarativeMlir.Embed

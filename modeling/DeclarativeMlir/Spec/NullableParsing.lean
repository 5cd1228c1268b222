import DeclarativeMlir.Spec.SpecSyntax

/-!
# Parsing with null results

`getChecked` gives a null object where a check fails. The sub-parsers of `dmc.Op`, `dmc.Type` and
`dmc.Attr` end in such a call, and only some of them look at what it gave. Here a null is kept as a
value of its own, as the parsers do.
-/

namespace DeclarativeMlir.Spec

open TokenParsing

/-! ## Sub-parsers -/

/-- `success(static_cast<bool>(attr))` -/
def successIfNotNull {α : Type} : Option α → SpecParser (Option α)
  | some a => return some a
  | none => failure

def OpTraitAttr.getChecked (nameAttr : Option String) (paramAttr : Option (List Attr)) :
    Option OpTraitAttr := do
  let name ← nameAttr
  let parameters ← paramAttr
  return ⟨name, parameters⟩

/-- An attribute in a list of traits. -/
inductive TraitEntry where
  | trait (attr : OpTraitAttr)
  | other (attr : Attr)

def TraitEntry.getTrait : TraitEntry → Option OpTraitAttr
  | trait attr => some attr
  | other _ => none

/-- A list of traits only -/
def OpTraitsAttr.getChecked (traits : List TraitEntry) : Option (List OpTraitAttr) :=
  traits.mapM TraitEntry.getTrait

/-- `parseOpType`, which succeeds whatever `getChecked` gives -/
def parseOpTypeOrNull : SpecParser (Option OpType) := do
  let operands ← parseValueList
  expect .arrow
  let results ← parseValueList
  return OpType.getChecked operands results

def parseRegionListOrNull : SpecParser (Option OpRegion) := do
  let regions ← parseOptionalConstraintList parseOpRegion .lparen .rparen
  successIfNotNull (OpRegion.getChecked regions)

def parseSuccessorListOrNull : SpecParser (Option OpSuccessor) := do
  let successors ← parseOptionalConstraintList parseOpSuccessor .lsquare .rsquare
  successIfNotNull (OpSuccessor.getChecked successors)

def parseOpTraitOrNull : SpecParser (Option OpTraitAttr) := do
  let name ← parseSymbolName
  let parameters ← parseOptionalParameterList
  successIfNotNull (OpTraitAttr.getChecked (some name) (some parameters))

/-- An element of the list, which `parseOpTrait` has found not to be null. -/
def parseTraitEntry : SpecParser TraitEntry := do
  match ← parseOpTraitOrNull with
  | some attr => return .trait attr
  | none => failure

/-- `parseOptionalOpTraitList`, which succeeds whatever `getChecked` gives -/
def parseOpTraitListOrNull : SpecParser (Option (List OpTraitAttr)) := do
  if ← optional (.word "traits") then
    expect .lsquare
    let traits ← sepList parseTraitEntry .comma
    expect .rsquare
    return OpTraitsAttr.getChecked traits
  else return OpTraitsAttr.getChecked []

/-! ## `dmc.Op`, `dmc.Type` and `dmc.Attr` -/

/-- The attributes of a `dmc.Op`, any of which may be null. -/
structure NullableOp where
  name : String
  opType : Option OpType
  opAttrs : List (String × Attr)
  opRegions : Option OpRegion
  opSuccs : Option OpSuccessor
  opTraits : Option (List OpTraitAttr)
  config : List (String × Attr)

/-- `OperationOp::parse`. A null op type is put into a `TypeAttr` like any other. -/
def NullableOp.parse : SpecParser NullableOp := do
  let name ← parseSymbolName
  let opType ← parseOpTypeOrNull
  let opAttrs ← parseOptionalAttrDict
  let opRegions ← parseRegionListOrNull
  let opSuccs ← parseSuccessorListOrNull
  let opTraits ← parseOpTraitListOrNull
  if ← optional (.word "config") then
    let config ← parseOptionalAttrDict
    return { name, opType, opAttrs, opRegions, opSuccs, opTraits, config }
  else return { name, opType, opAttrs, opRegions, opSuccs, opTraits, config := [] }

/-- No attribute is null. The attributes carry the invariants of their construction. -/
structure NullableOp.Complete (op : NullableOp) : Prop where
  opType : op.opType.isSome = true
  opRegions : op.opRegions.isSome = true
  opSuccs : op.opSuccs.isSome = true
  opTraits : op.opTraits.isSome = true

/-- The attributes of a `dmc.Type` or `dmc.Attr`, where parameters may be null. -/
structure NullableParametersOp where
  name : String
  params : List (Option NamedParameter)
  attrs : List (String × Attr)

/-- `OfTypeAttr`, for a type in the place of a constraint -/
def toConstraint : Attr → Attr
  | .type ty => .ofType ty
  | attr => attr

def parseParameterOrNull : SpecParser (Option NamedParameter) := do
  let name ← parseKeyword
  expect .colon
  let constraint ← parseAttribute
  return NamedParameter.getChecked name (toConstraint constraint)

/-- `ParameterList::parse`, which does not look at what `getChecked` gives -/
def parseParameterListOrNull : SpecParser (List (Option NamedParameter)) := do
  if ← optional .less then
    let params ← sepList parseParameterOrNull .comma
    expect .greater
    return params
  else return []

/-- `TypeOp::parse` and `AttributeOp::parse` -/
def NullableParametersOp.parse : SpecParser NullableParametersOp := do
  let name ← parseSymbolName
  let params ← parseParameterListOrNull
  let attrs ← parseOptionalAttrDict
  return ⟨name, params, attrs⟩

def NullableParametersOp.Complete (op : NullableParametersOp) : Prop :=
  ∀ param ∈ op.params, param.isSome = true

/-- Whatever a parser accepts of a text is complete. -/
def FailsCleanly {α : Type} (parse : SpecParser α) (Complete : α → Prop) (input : List Token) :
    Prop :=
  ∀ op rest, parse.run input = some (op, rest) → Complete op

/-! ## The syntax -/

/-- What the text of a `dmc.Op` says. -/
structure OpText where
  name : String
  operands : List NamedType
  results : List NamedType
  opAttrs : List (String × Attr)
  regions : List (NamedConstraint RegionConstraint)
  successors : List (NamedConstraint SuccessorConstraint)
  opTraits : List OpTraitAttr
  config : List (String × Attr)

/-- The grammar of `dmc.Op`, with no checks. -/
def OpText.parse : SpecParser OpText := do
  let name ← parseSymbolName
  let operands ← parseValueList
  expect .arrow
  let results ← parseValueList
  let opAttrs ← parseOptionalAttrDict
  let regions ← parseOptionalConstraintList parseOpRegion .lparen .rparen
  let successors ← parseOptionalConstraintList parseOpSuccessor .lsquare .rsquare
  let opTraits ← parseOptionalOpTraitList
  if ← optional (.word "config") then
    let config ← parseOptionalAttrDict
    return { name, operands, results, opAttrs, regions, successors, opTraits, config }
  else return { name, operands, results, opAttrs, regions, successors, opTraits, config := [] }

/-- The names of the operands and of the results are unique, unless a region or a successor has the
name of another one, for which there is an error in any case. -/
def OpText.Clean (text : OpText) : Prop :=
  (text.regions.map (·.name)).Nodup → (text.successors.map (·.name)).Nodup →
    (text.operands.map (·.name)).Nodup ∧ (text.results.map (·.name)).Nodup

/-- What the text of a `dmc.Type` or `dmc.Attr` says. -/
structure ParametersText where
  name : String
  params : List (String × Attr)
  attrs : List (String × Attr)

def parseParameterText : SpecParser (String × Attr) := do
  let name ← parseKeyword
  expect .colon
  let constraint ← parseAttribute
  return (name, constraint)

def parseParameterListText : SpecParser (List (String × Attr)) := do
  if ← optional .less then
    let params ← sepList parseParameterText .comma
    expect .greater
    return params
  else return []

def ParametersText.parse : SpecParser ParametersText := do
  let name ← parseSymbolName
  let params ← parseParameterListText
  let attrs ← parseOptionalAttrDict
  return ⟨name, params, attrs⟩

/-- Every parameter has a type or a constraint. -/
def ParametersText.Clean (text : ParametersText) : Prop :=
  ∀ param ∈ text.params, (toConstraint param.2).isConstraint = true

/-! ## Parsers and syntax -/

theorem run_successIfNotNull {α : Type} {a : Option α} {input rest : List Token} {b : Option α} :
    (successIfNotNull a).run input = some (b, rest) ↔ a = b ∧ rest = input ∧ b.isSome = true := by
  cases a with
  | none =>
    constructor
    · intro h
      cases h
    · rintro ⟨rfl, -, h⟩
      cases h
  | some a =>
    constructor
    · intro h
      obtain ⟨rfl, rfl⟩ := Prod.mk.inj (Option.some.inj h)
      exact ⟨rfl, rfl, rfl⟩
    · rintro ⟨rfl, rfl, -⟩
      rfl

theorem getChecked_map_trait (traits : List OpTraitAttr) :
    OpTraitsAttr.getChecked (traits.map .trait) = some traits := by
  induction traits with
  | nil => rfl
  | cons attr traits ih =>
    rw [OpTraitsAttr.getChecked] at ih ⊢
    rw [List.map_cons, List.mapM_cons, ih]
    rfl

/-- An element of a trait list is a trait. -/
theorem parseTraitEntry_eq : parseTraitEntry = TraitEntry.trait <$> parseOpTrait := by
  have hchecked (name : String) (parameters : List Attr) :
      successIfNotNull (OpTraitAttr.getChecked (some name) (some parameters)) =
        (return some ⟨name, parameters⟩ : SpecParser (Option OpTraitAttr)) := rfl
  simp only [parseTraitEntry, parseOpTraitOrNull, parseOpTrait, hchecked, bind_assoc, map_bind,
    pure_bind, map_pure]

/-- A list of traits is never null. -/
theorem parseOpTraitListOrNull_eq : parseOpTraitListOrNull = some <$> parseOptionalOpTraitList := by
  rw [parseOpTraitListOrNull, parseOptionalOpTraitList, map_bind]
  congr 1
  funext found
  cases found with
  | false => rfl
  | true =>
    simp only [if_true, parseTraitEntry_eq, sepList_map, bind_map_left, map_bind, map_pure,
      getChecked_map_trait]

/-- What the checks make of a text. Regions and successors that are rejected end the parse. -/
def OpText.getChecked (text : OpText) : Option NullableOp := do
  let opRegions ← OpRegion.getChecked text.regions
  let opSuccs ← OpSuccessor.getChecked text.successors
  return {
    name := text.name
    opType := OpType.getChecked text.operands text.results
    opAttrs := text.opAttrs
    opRegions := some opRegions
    opSuccs := some opSuccs
    opTraits := some text.opTraits
    config := text.config }

/-- The parser accepts what is in the grammar and passes the checks that it looks at. -/
theorem nullableOp_run_iff {input rest : List Token} {op : NullableOp} :
    NullableOp.parse.run input = some (op, rest) ↔
      ∃ text, OpText.parse.run input = some (text, rest) ∧ text.getChecked = some op := by
  unfold NullableOp.parse OpText.parse parseOpTypeOrNull parseRegionListOrNull
    parseSuccessorListOrNull
  simp only [parseOpTraitListOrNull_eq, bind_assoc, bind_map_left, pure_bind, run_bind_eq_some,
    run_successIfNotNull]
  constructor
  · rintro ⟨name, _, hname, operands, _, hoperands, _, _, harrow, results, _, hresults, opAttrs, _,
      hattrs, regions, _, hregions, opRegions, _, ⟨hchecked, rfl, hsome⟩, succs, _, hsuccs, opSuccs,
      _, ⟨hchecked', rfl, hsome'⟩, opTraits, _, htraits, found, _, hfound, hop⟩
    obtain ⟨opRegions, rfl⟩ := Option.isSome_iff_exists.mp hsome
    obtain ⟨opSuccs, rfl⟩ := Option.isSome_iff_exists.mp hsome'
    have hbuild (config : List (String × Attr)) :
        OpText.getChecked ⟨name, operands, results, opAttrs, regions, succs, opTraits, config⟩ =
          some ⟨name, OpType.getChecked operands results, opAttrs, some opRegions, some opSuccs,
            some opTraits, config⟩ := by
      simp [OpText.getChecked, hchecked, hchecked']
    cases found with
    | true =>
      obtain ⟨config, _, hconfig, hop⟩ := run_bind_eq_some.mp hop
      obtain ⟨rfl, rfl⟩ := Prod.mk.inj (Option.some.inj hop)
      exact ⟨_, ⟨name, _, hname, operands, _, hoperands, _, _, harrow, results, _, hresults,
        opAttrs, _, hattrs, regions, _, hregions, succs, _, hsuccs, opTraits, _, htraits, true, _,
        hfound, run_bind_eq_some.mpr ⟨config, _, hconfig, rfl⟩⟩, hbuild config⟩
    | false =>
      obtain ⟨rfl, rfl⟩ := Prod.mk.inj (Option.some.inj hop)
      exact ⟨_, ⟨name, _, hname, operands, _, hoperands, _, _, harrow, results, _, hresults,
        opAttrs, _, hattrs, regions, _, hregions, succs, _, hsuccs, opTraits, _, htraits, false, _,
        hfound, rfl⟩, hbuild []⟩
  · rintro ⟨text, ⟨name, _, hname, operands, _, hoperands, _, _, harrow, results, _, hresults,
      opAttrs, _, hattrs, regions, _, hregions, succs, _, hsuccs, opTraits, _, htraits, found, _,
      hfound, htext⟩, hbuild⟩
    refine ⟨name, _, hname, operands, _, hoperands, _, _, harrow, results, _, hresults, opAttrs, _,
      hattrs, regions, _, hregions, OpRegion.getChecked regions, _, ⟨rfl, rfl, ?_⟩, succs, _,
      hsuccs, OpSuccessor.getChecked succs, _, ⟨rfl, rfl, ?_⟩, opTraits, _, htraits, found, _,
      hfound, ?_⟩
    all_goals
      obtain ⟨opRegions, hchecked, hbuild⟩ := Option.bind_eq_some_iff.mp hbuild
      obtain ⟨opSuccs, hchecked', hbuild⟩ := Option.bind_eq_some_iff.mp hbuild
      obtain rfl := Option.some.inj hbuild
      cases found with
      | true =>
        obtain ⟨config, _, hconfig, htext⟩ := run_bind_eq_some.mp htext
        obtain ⟨rfl, rfl⟩ := Prod.mk.inj (Option.some.inj htext)
        simp_all
      | false =>
        obtain ⟨rfl, rfl⟩ := Prod.mk.inj (Option.some.inj htext)
        simp_all

/-- The attributes of an op, none of which is null. -/
def OperationOp.toNullable (op : OperationOp) : NullableOp where
  name := op.name
  opType := some op.opType
  opAttrs := op.opAttrs
  opRegions := some op.opRegions
  opSuccs := some op.opSuccs
  opTraits := some op.opTraits
  config := op.config

/-- The parser of complete ops gives what the parser with null objects gives, where it is
complete. -/
theorem operationOp_run_iff {input rest : List Token} {op : OperationOp} :
    OperationOp.parse.run input = some (op, rest) ↔
      NullableOp.parse.run input = some (op.toNullable, rest) := by
  have hlift {α : Type} {a : Option α} {b : α} {input rest : List Token} :
      (liftM a : SpecParser α).run input = some (b, rest) ↔ a = some b ∧ rest = input := by
    cases a <;> simp [liftM, monadLift, MonadLift.monadLift, StateT.lift, StateT.run, eq_comm]
  unfold NullableOp.parse OperationOp.parse parseOpTypeOrNull parseRegionListOrNull parseOpType
    parseSuccessorListOrNull parseOptionalRegionList parseOptionalSuccessorList
  simp only [parseOpTraitListOrNull_eq, bind_assoc, bind_map_left, pure_bind, run_bind_eq_some,
    run_successIfNotNull, hlift]
  constructor
  · rintro ⟨name, _, hname, operands, _, hoperands, _, _, harrow, results, _, hresults, opType, _,
      ⟨htype, rfl⟩, opAttrs, _, hattrs, regions, _, hregions, opRegions, _, ⟨hchecked, rfl⟩, succs,
      _, hsuccs, opSuccs, _, ⟨hchecked', rfl⟩, opTraits, _, htraits, found, _, hfound, hop⟩
    refine ⟨name, _, hname, operands, _, hoperands, _, _, harrow, results, _, hresults, opAttrs, _,
      hattrs, regions, _, hregions, some opRegions, _, ⟨hchecked, rfl, rfl⟩, succs, _, hsuccs,
      some opSuccs, _, ⟨hchecked', rfl, rfl⟩, opTraits, _, htraits, found, _, hfound, ?_⟩
    rw [htype]
    cases found with
    | true =>
      obtain ⟨config, _, hconfig, hop⟩ := run_bind_eq_some.mp hop
      obtain ⟨rfl, rfl⟩ := Prod.mk.inj (Option.some.inj hop)
      exact run_bind_eq_some.mpr ⟨config, _, hconfig, rfl⟩
    | false =>
      obtain ⟨rfl, rfl⟩ := Prod.mk.inj (Option.some.inj hop)
      rfl
  · rintro ⟨name, _, hname, operands, _, hoperands, _, _, harrow, results, _, hresults, opAttrs, _,
      hattrs, regions, _, hregions, opRegions, _, ⟨hchecked, rfl, hsome⟩, succs, _, hsuccs, opSuccs,
      _, ⟨hchecked', rfl, hsome'⟩, opTraits, _, htraits, found, _, hfound, hop⟩
    obtain ⟨opRegions, rfl⟩ := Option.isSome_iff_exists.mp hsome
    obtain ⟨opSuccs, rfl⟩ := Option.isSome_iff_exists.mp hsome'
    have htype : OpType.getChecked operands results = some op.opType := by
      cases found with
      | true =>
        obtain ⟨config, _, -, hop⟩ := run_bind_eq_some.mp hop
        exact congrArg (fun op ↦ op.1.opType) (Option.some.inj hop)
      | false => exact congrArg (fun op ↦ op.1.opType) (Option.some.inj hop)
    refine ⟨name, _, hname, operands, _, hoperands, _, _, harrow, results, _, hresults, op.opType,
      _, ⟨htype, rfl⟩, opAttrs, _, hattrs, regions, _, hregions, opRegions, _, ⟨hchecked, rfl⟩,
      succs, _, hsuccs, opSuccs, _, ⟨hchecked', rfl⟩, opTraits, _, htraits, found, _, hfound, ?_⟩
    obtain ⟨opName, opType, attrs, opRegions', opSuccs', traits, config'⟩ := op
    cases found with
    | true =>
      obtain ⟨config, _, hconfig, hop⟩ := run_bind_eq_some.mp hop
      refine run_bind_eq_some.mpr ⟨config, _, hconfig, ?_⟩
      obtain ⟨hfields, rfl⟩ := Prod.mk.inj (Option.some.inj hop)
      simp only [OperationOp.toNullable, NullableOp.mk.injEq, Option.some.injEq] at hfields
      obtain ⟨rfl, -, rfl, rfl, rfl, rfl, rfl⟩ := hfields
      rfl
    | false =>
      obtain ⟨hfields, rfl⟩ := Prod.mk.inj (Option.some.inj hop)
      simp only [OperationOp.toNullable, NullableOp.mk.injEq, Option.some.injEq] at hfields
      obtain ⟨rfl, -, rfl, rfl, rfl, rfl, rfl⟩ := hfields
      rfl

/-! ## Clean failures -/

theorem OpText.getChecked_iff (text : OpText) :
    (∀ op, text.getChecked = some op → op.Complete) ↔ text.Clean := by
  have htype : (OpType.getChecked text.operands text.results).isSome = true ↔
      (text.operands.map (·.name)).Nodup ∧ (text.results.map (·.name)).Nodup := by
    unfold OpType.getChecked
    split_ifs with h <;> simp [h]
  constructor
  · intro h hregions hsuccs
    have hchecked : text.getChecked = some
        { name := text.name
          opType := OpType.getChecked text.operands text.results
          opAttrs := text.opAttrs
          opRegions := some ⟨text.regions, hregions⟩
          opSuccs := some ⟨text.successors, hsuccs⟩
          opTraits := some text.opTraits
          config := text.config } := by
      simp [OpText.getChecked, OpRegion.getChecked, OpSuccessor.getChecked, hregions, hsuccs]
    exact htype.mp (h _ hchecked).opType
  · intro h op hchecked
    obtain ⟨opRegions, hregions, hchecked⟩ := Option.bind_eq_some_iff.mp hchecked
    obtain ⟨opSuccs, hsuccs, hchecked⟩ := Option.bind_eq_some_iff.mp hchecked
    obtain rfl := Option.some.inj hchecked
    have hregionNames : (text.regions.map (·.name)).Nodup := by
      by_contra hdup
      simp [OpRegion.getChecked, hdup] at hregions
    have hsuccNames : (text.successors.map (·.name)).Nodup := by
      by_contra hdup
      simp [OpSuccessor.getChecked, hdup] at hsuccs
    exact ⟨htype.mpr (h hregionNames hsuccNames), rfl, rfl, rfl⟩

theorem operationOp_failsCleanly_iff (input : List Token) :
    FailsCleanly NullableOp.parse NullableOp.Complete input ↔
      ∀ text rest, OpText.parse.run input = some (text, rest) → text.Clean := by
  constructor
  · intro h text rest htext
    exact text.getChecked_iff.mp fun op hchecked ↦
      h op rest (nullableOp_run_iff.mpr ⟨text, htext, hchecked⟩)
  · intro h op rest hop
    obtain ⟨text, htext, hchecked⟩ := nullableOp_run_iff.mp hop
    exact text.getChecked_iff.mpr (h text rest htext) op hchecked

/-- What the checks make of the text of a `dmc.Type` or `dmc.Attr`. -/
def ParametersText.getChecked (text : ParametersText) : NullableParametersOp where
  name := text.name
  params := text.params.map fun param ↦ NamedParameter.getChecked param.1 (toConstraint param.2)
  attrs := text.attrs

theorem parseParameterOrNull_eq : parseParameterOrNull =
    (fun param ↦ NamedParameter.getChecked param.1 (toConstraint param.2)) <$>
      parseParameterText := by
  simp only [parseParameterOrNull, parseParameterText, map_bind, map_pure]

theorem nullableParametersOp_parse_eq :
    NullableParametersOp.parse = ParametersText.getChecked <$> ParametersText.parse := by
  rw [NullableParametersOp.parse, ParametersText.parse, map_bind]
  congr 1
  funext name
  have hlist : parseParameterListOrNull =
      (List.map fun param ↦ NamedParameter.getChecked param.1 (toConstraint param.2)) <$>
        parseParameterListText := by
    rw [parseParameterListOrNull, parseParameterListText, map_bind]
    congr 1
    funext found
    cases found with
    | false => rfl
    | true =>
      simp only [if_true, parseParameterOrNull_eq, sepList_map, bind_map_left, map_bind, map_pure]
  rw [hlist]
  simp only [bind_map_left, map_bind, map_pure]
  rfl

theorem parametersOp_failsCleanly_iff (input : List Token) :
    FailsCleanly NullableParametersOp.parse NullableParametersOp.Complete input ↔
      ∀ text rest, ParametersText.parse.run input = some (text, rest) → text.Clean := by
  have hcomplete (text : ParametersText) : text.getChecked.Complete ↔ text.Clean := by
    simp only [NullableParametersOp.Complete, ParametersText.getChecked, ParametersText.Clean,
      List.forall_mem_map]
    refine forall₂_congr fun param _ ↦ ?_
    unfold NamedParameter.getChecked
    split_ifs with h <;> simp [h]
  rw [FailsCleanly, nullableParametersOp_parse_eq]
  constructor
  · intro h text rest htext
    exact (hcomplete text).mp (h _ rest (run_map_eq_some.mpr ⟨text, htext, rfl⟩))
  · intro h op rest hop
    obtain ⟨text, htext, rfl⟩ := run_map_eq_some.mp hop
    exact (hcomplete text).mpr (h text rest htext)

end DeclarativeMlir.Spec

import DeclarativeMlir.Spec.AttrRoundTrip

/-!
# Reparsing of specs

A spec that is loaded prints and parses every constraint again. What the parsers give can be
constructed, and the ops of a spec stay as they are exactly if all of their constraints are plain.
-/

namespace DeclarativeMlir.Spec

open TokenParsing DialectAsmParser

/-! ## What the parsers construct -/

section Parsed

variable {ctx : Context}

/-- The types and attributes among the lexemes can be constructed. -/
def Lexeme.Constructible (ctx : Context) : Lexeme → Prop
  | .char _ => True
  | .type result => ∀ type', result = some type' → type'.Constructible ctx
  | .attr result => ∀ attr', result = some attr' → attr'.Constructible ctx

theorem mem_of_takeChars {test : Char → Bool} {input : List Lexeme} {lexeme : Lexeme}
    (h : lexeme ∈ (takeChars test input).2) : lexeme ∈ input := by
  induction input with
  | nil => exact h
  | cons first input ih =>
    cases first with
    | char c =>
      simp only [takeChars] at h
      split_ifs at h
      · exact List.mem_cons_of_mem _ (ih h)
      · exact h
    | type _ | attr _ => exact h

theorem mem_of_dropWhile {input : List Lexeme} {lexeme : Lexeme}
    (h : lexeme ∈ input.dropWhile isSpace) : lexeme ∈ input :=
  (List.dropWhile_sublist isSpace).mem h

theorem keeps_optionalPunctuation (c : Char) :
    Keeps (Lexeme.Constructible ctx) (parseOptionalPunctuation c) fun _ ↦ True := by
  intro input found rest hinput h
  refine ⟨trivial, fun lexeme hlexeme ↦ ?_⟩
  simp only [parseOptionalPunctuation, StateT.run] at h
  split at h
  · rename_i c' rest' hdrop
    split_ifs at h
    · obtain ⟨rfl, rfl⟩ := Prod.mk.inj (Option.some.inj h)
      apply hinput
      apply mem_of_dropWhile
      rw [hdrop]
      exact List.mem_cons_of_mem _ hlexeme
    · obtain ⟨rfl, rfl⟩ := Prod.mk.inj (Option.some.inj h)
      exact hinput lexeme hlexeme
  · obtain ⟨rfl, rfl⟩ := Prod.mk.inj (Option.some.inj h)
    exact hinput lexeme hlexeme

theorem keeps_punctuation (c : Char) :
    Keeps (Lexeme.Constructible ctx) (parsePunctuation c) fun _ ↦ True := by
  apply Keeps.bind (keeps_optionalPunctuation c)
  intro found _
  cases found with
  | true => exact Keeps.pure trivial
  | false => exact Keeps.failure

theorem keeps_parameters {α : Type} {p : Parser Lexeme α} {P : α → Prop}
    (hp : Keeps (Lexeme.Constructible ctx) p P) :
    Keeps (Lexeme.Constructible ctx) (parseParameters p) P := by
  apply Keeps.bind (keeps_punctuation '<')
  intro _ _
  apply Keeps.bind hp
  intro params hparams
  apply Keeps.bind (keeps_punctuation '>')
  intro _ _
  exact Keeps.pure hparams

theorem keeps_checked {α : Type} {result : Option α} {P : α → Prop}
    (h : ∀ a, result = some a → P a) : Keeps (Lexeme.Constructible ctx) (checked result) P := by
  intro input a rest hinput hrun
  obtain ⟨a', ha', heq⟩ := Option.map_eq_some_iff.mp hrun
  obtain ⟨rfl, rfl⟩ := Prod.mk.inj heq
  exact ⟨h a' ha', hinput⟩

theorem keeps_keyword :
    Keeps (Lexeme.Constructible ctx) DialectAsmParser.parseKeyword fun _ ↦ True := by
  intro input word rest hinput h
  refine ⟨trivial, fun lexeme hlexeme ↦ ?_⟩
  simp only [DialectAsmParser.parseKeyword, StateT.run] at h
  split_ifs at h
  obtain ⟨rfl, rfl⟩ := Prod.mk.inj (Option.some.inj h)
  exact hinput lexeme (mem_of_dropWhile (mem_of_takeChars hlexeme))

theorem keeps_startsInteger : Keeps (Lexeme.Constructible ctx) startsInteger fun _ ↦ True := by
  intro input starts rest hinput h
  obtain ⟨rfl, rfl⟩ := Prod.mk.inj (Option.some.inj h)
  exact ⟨trivial, hinput⟩

theorem keeps_integer (bound : ℕ) :
    Keeps (Lexeme.Constructible ctx) (parseInteger bound) (· < bound) := by
  intro input val rest hinput h
  simp only [parseInteger, StateT.run] at h
  split_ifs at h with _ hlt
  obtain ⟨rfl, rfl⟩ := Prod.mk.inj (Option.some.inj h)
  exact ⟨hlt, fun lexeme hlexeme ↦ hinput lexeme (mem_of_dropWhile (mem_of_takeChars hlexeme))⟩

theorem keeps_integerList (bound : ℕ) :
    Keeps (Lexeme.Constructible ctx) (parseIntegerList bound) fun ints ↦
      ∀ val ∈ ints, val < bound := by
  apply Keeps.bind keeps_startsInteger
  intro starts _
  cases starts with
  | true => exact Keeps.items (keeps_integer bound) (keeps_optionalPunctuation ',')
  | false => exact Keeps.pure (by simp)

theorem keeps_type :
    Keeps (Lexeme.Constructible ctx) DialectAsmParser.parseType (Ty.Constructible ctx) := by
  intro input type rest hinput h
  simp only [DialectAsmParser.parseType, StateT.run] at h
  split at h
  · rename_i type' rest' hdrop
    obtain ⟨rfl, rfl⟩ := Prod.mk.inj (Option.some.inj h)
    have hmem {lexeme : Lexeme} (h : lexeme ∈ Lexeme.type (some type') :: rest') :
        lexeme ∈ input := mem_of_dropWhile (hdrop ▸ h)
    have htype := hinput _ (hmem (List.mem_cons_self ..))
    exact ⟨htype type' rfl, fun lexeme hlexeme ↦
      hinput lexeme (hmem (List.mem_cons_of_mem _ hlexeme))⟩
  · cases h

theorem keeps_attribute :
    Keeps (Lexeme.Constructible ctx) DialectAsmParser.parseAttribute
      (Attribute.Constructible ctx) := by
  intro input attr rest hinput h
  simp only [DialectAsmParser.parseAttribute, StateT.run] at h
  split at h
  · rename_i attr' rest' hdrop
    obtain ⟨rfl, rfl⟩ := Prod.mk.inj (Option.some.inj h)
    have hmem {lexeme : Lexeme} (h : lexeme ∈ Lexeme.attr (some attr') :: rest') :
        lexeme ∈ input := mem_of_dropWhile (hdrop ▸ h)
    have hattr := hinput _ (hmem (List.mem_cons_self ..))
    exact ⟨hattr attr' rfl, fun lexeme hlexeme ↦
      hinput lexeme (hmem (List.mem_cons_of_mem _ hlexeme))⟩
  · cases h

theorem keeps_symbolRefAttr :
    Keeps (Lexeme.Constructible ctx) parseSymbolRefAttr fun _ ↦ True := by
  intro input ref rest hinput h
  refine ⟨trivial, fun lexeme hlexeme ↦ ?_⟩
  simp only [parseSymbolRefAttr, StateT.run] at h
  split at h
  · rename_i root nested rest' hdrop
    obtain ⟨rfl, rfl⟩ := Prod.mk.inj (Option.some.inj h)
    apply hinput
    apply mem_of_dropWhile
    rw [hdrop]
    exact List.mem_cons_of_mem _ hlexeme
  · cases h

theorem keeps_stringAttr (strings : StringLexer) :
    Keeps (Lexeme.Constructible ctx) (parseStringAttr strings) fun _ ↦ True := by
  intro input value rest hinput h
  refine ⟨trivial, fun lexeme hlexeme ↦ ?_⟩
  obtain ⟨⟨value', rest'⟩, -, heq⟩ := Option.map_eq_some_iff.mp h
  obtain ⟨-, rfl⟩ := Prod.mk.inj heq
  obtain hchar | hrest := List.mem_append.mp hlexeme
  · obtain ⟨c, -, rfl⟩ := List.mem_map.mp hchar
    exact trivial
  · exact hinput lexeme (mem_of_dropWhile (mem_of_takeChars hrest))

/-! ### Classes -/

theorem keeps_simpleType {constraint : LeafConstraint}
    (h : constraint.getChecked ctx = some (.leaf constraint)) :
    Keeps (Lexeme.Constructible ctx) (SimpleType.parse constraint) (Ty.Constructible ctx) :=
  Keeps.pure (.leaf h)

theorem keeps_simpleAttr {constraint : LeafAttr} (hfits : constraint.FitsInt64)
    (h : constraint.getChecked ctx = some (.leaf constraint)) :
    Keeps (Lexeme.Constructible ctx) (SimpleAttr.parse constraint) (Attribute.Constructible ctx) :=
  Keeps.pure (.leaf hfits h)

theorem keeps_width {verifyWidth : ℕ → Bool} {constraint : ℕ → LeafConstraint}
    (h : ∀ width, (constraint width).getChecked ctx =
      NumericWidthType.getChecked verifyWidth constraint width) :
    Keeps (Lexeme.Constructible ctx) (NumericWidthType.parse verifyWidth constraint)
      (Ty.Constructible ctx) := by
  apply Keeps.bind (keeps_parameters (keeps_integer _))
  intro width _
  apply keeps_checked
  intro type htype
  rw [← h] at htype
  exact .leaf htype

theorem keeps_widths {verifyWidth : ℕ → Bool} {constraint : List ℕ → LeafConstraint}
    (h : ∀ widths, (constraint widths).getChecked ctx =
      NumericTypeOfWidths.getChecked verifyWidth constraint widths) :
    Keeps (Lexeme.Constructible ctx) (NumericTypeOfWidths.parse verifyWidth constraint)
      (Ty.Constructible ctx) := by
  apply Keeps.bind (keeps_parameters (keeps_integerList _))
  intro widths _
  apply keeps_checked
  intro type htype
  rw [← h] at htype
  exact .leaf htype

theorem keeps_typeList {getChecked : List Ty → Option Ty}
    (h : ∀ types type, (∀ type ∈ types, type.Constructible ctx) → getChecked types = some type →
      type.Constructible ctx) :
    Keeps (Lexeme.Constructible ctx) (parseTypeList getChecked) (Ty.Constructible ctx) := by
  apply Keeps.bind (keeps_parameters (Keeps.items keeps_type (keeps_optionalPunctuation ',')))
  intro types htypes
  exact keeps_checked fun type htype ↦ h types type htypes htype

theorem keeps_attrList {getChecked : List Attribute → Option Attribute}
    (h : ∀ attrs attr, (∀ attr ∈ attrs, attr.Constructible ctx) → getChecked attrs = some attr →
      attr.Constructible ctx) :
    Keeps (Lexeme.Constructible ctx) (parseAttrList getChecked) (Attribute.Constructible ctx) := by
  apply Keeps.bind (keeps_parameters (Keeps.items keeps_attribute (keeps_optionalPunctuation ',')))
  intro attrs hattrs
  exact keeps_checked fun attr hattr ↦ h attrs attr hattrs hattr

theorem keeps_typedAttr {verifyWidth : ℕ → Bool} {constraint : ℕ → LeafAttr}
    (h : ∀ width, (constraint width).getChecked ctx =
      TypedAttr.getChecked verifyWidth constraint width)
    (hfits : ∀ width, (constraint width).FitsInt64) :
    Keeps (Lexeme.Constructible ctx) (TypedAttr.parse verifyWidth constraint)
      (Attribute.Constructible ctx) := by
  apply Keeps.bind (keeps_parameters (keeps_integer _))
  intro width _
  apply keeps_checked
  intro attr hattr
  rw [← h] at hattr
  exact .leaf (hfits width) hattr

theorem isa_of_getChecked {root : String} {nested : List String} {type : Ty}
    (h : IsaType.getChecked root nested = some type) :
    ∃ typeRef, (LeafConstraint.isa root typeRef).getChecked ctx = some type := by
  cases nested with
  | nil => cases h
  | cons typeRef nested =>
    cases nested with
    | nil => exact ⟨typeRef, h⟩
    | cons _ _ => cases h

theorem isaAttr_of_getChecked {root : String} {nested : List String} {attr : Attribute}
    (h : IsaAttr.getChecked root nested = some attr) :
    ∃ attrRef, (LeafAttr.isa root attrRef).getChecked ctx = some attr := by
  cases nested with
  | nil => cases h
  | cons attrRef nested =>
    cases nested with
    | nil => exact ⟨attrRef, h⟩
    | cons _ _ => cases h

theorem keeps_names (strings : StringLexer) :
    Keeps (Lexeme.Constructible ctx) (do
        let dialectName ← parseStringAttr strings
        parseComma
        let typeName ← parseStringAttr strings
        return (dialectName, typeName)) fun _ ↦ True := by
  apply Keeps.bind (keeps_stringAttr strings)
  intro dialectName _
  apply Keeps.bind (keeps_punctuation ',')
  intro _ _
  apply Keeps.bind (keeps_stringAttr strings)
  intro typeName _
  exact Keeps.pure trivial

/-- Each `parse` method ends with the `getChecked` or `get` of its class. -/
theorem keeps_typeOfKind (kind : TypeKind) :
    Keeps (Lexeme.Constructible ctx) (parseTypeOfKind ctx kind) (Ty.Constructible ctx) := by
  cases kind with
  | any | none | anyInteger | anySignlessInteger | anySignedInteger | anyUnsignedInteger | index
  | anyFloat | bf16 | anyComplex | function => exact keeps_simpleType rfl
  | anyOf => exact keeps_typeList fun types type htypes htype ↦ .anyOf htypes htype
  | allOf => exact keeps_typeList fun types type htypes htype ↦ .allOf htypes htype
  | anyI | i | si | ui | f => exact keeps_width fun _ ↦ rfl
  | anyIntOfWidths | signlessIntOfWidths | signedIntOfWidths | unsignedIntOfWidths
  | floatOfWidths => exact keeps_widths fun _ ↦ rfl
  | complex =>
    exact Keeps.bind (keeps_parameters keeps_type) fun type htype ↦ Keeps.pure (.complexOf htype)
  | variadic =>
    exact Keeps.bind (keeps_parameters keeps_type) fun type htype ↦ Keeps.pure (.variadic htype)
  | opaqueType =>
    apply Keeps.bind (keeps_parameters (keeps_names ctx.strings))
    intro names _
    apply keeps_checked
    intro type htype
    have hleaf : (LeafConstraint.opaqueType names.1 names.2).getChecked ctx = some type := htype
    exact .leaf hleaf
  | isa =>
    apply Keeps.bind (keeps_parameters keeps_symbolRefAttr)
    intro ref _
    apply keeps_checked
    intro type htype
    obtain ⟨typeRef, hleaf⟩ := @isa_of_getChecked ctx _ _ _ htype
    exact .leaf hleaf
  | py =>
    apply Keeps.bind (keeps_parameters (keeps_stringAttr ctx.strings))
    intro expr _
    apply keeps_checked
    intro type htype
    have hleaf : (LeafConstraint.py expr).getChecked ctx = some type := htype
    exact .leaf hleaf

theorem keeps_attrOfKind (kind : AttrKind) :
    Keeps (Lexeme.Constructible ctx) (parseAttrOfKind ctx kind) (Attribute.Constructible ctx) := by
  cases kind with
  | any | bool | index | apInt | string | type | unit | dictionary | elements | denseElements
  | stringElements | array | symbolRef | flatSymbolRef => exact keeps_simpleAttr trivial rfl
  | anyI | i | si | ui | f => exact keeps_typedAttr (fun _ ↦ rfl) fun _ ↦ trivial
  | elementsOf =>
    exact Keeps.bind (keeps_parameters keeps_type) fun type htype ↦ Keeps.pure (.elementsOf htype)
  | ofType =>
    exact Keeps.bind (keeps_parameters keeps_type) fun type htype ↦ Keeps.pure (.ofType htype)
  | rankedElements =>
    apply Keeps.bind (keeps_parameters (keeps_integerList _))
    intro dims hdims
    apply keeps_checked
    intro attr hattr
    have hleaf : (LeafAttr.rankedElements dims).getChecked ctx = some attr := hattr
    have hfits : (LeafAttr.rankedElements dims).FitsInt64 := hdims
    exact .leaf hfits hleaf
  | arrayOf =>
    apply Keeps.bind (keeps_parameters keeps_attribute)
    intro constraint hconstraint
    exact keeps_checked fun attr hattr ↦ .arrayOf hconstraint hattr
  | constant =>
    exact Keeps.bind (keeps_parameters keeps_attribute) fun attr hattr ↦
      Keeps.pure (.constant hattr)
  | optional =>
    exact Keeps.bind (keeps_parameters keeps_attribute) fun attr hattr ↦
      Keeps.pure (.optional hattr)
  | anyOf => exact keeps_attrList fun attrs attr hattrs hattr ↦ .anyOf hattrs hattr
  | allOf => exact keeps_attrList fun attrs attr hattrs hattr ↦ .allOf hattrs hattr
  | default =>
    have hpair : Keeps (Lexeme.Constructible ctx) (do
        let baseAttr ← DialectAsmParser.parseAttribute
        parseComma
        let defaultAttr ← DialectAsmParser.parseAttribute
        return (baseAttr, defaultAttr)) fun pair ↦
          pair.1.Constructible ctx ∧ pair.2.Constructible ctx := by
      apply Keeps.bind keeps_attribute
      intro baseAttr hbase
      apply Keeps.bind (keeps_punctuation ',')
      intro _ _
      apply Keeps.bind keeps_attribute
      intro defaultAttr hdefault
      exact Keeps.pure ⟨hbase, hdefault⟩
    exact Keeps.bind (keeps_parameters hpair) fun pair hpair ↦
      Keeps.pure (.default hpair.1 hpair.2)
  | isa =>
    apply Keeps.bind (keeps_parameters keeps_symbolRefAttr)
    intro ref _
    apply keeps_checked
    intro attr hattr
    obtain ⟨attrRef, hleaf⟩ := @isaAttr_of_getChecked ctx _ _ _ hattr
    have hfits : (LeafAttr.isa ref.1 attrRef).FitsInt64 := trivial
    exact .leaf hfits hleaf
  | py =>
    apply Keeps.bind (keeps_parameters (keeps_stringAttr ctx.strings))
    intro expr _
    apply keeps_checked
    intro attr hattr
    have hleaf : (LeafAttr.py expr).getChecked ctx = some attr := hattr
    have hfits : (LeafAttr.py expr).FitsInt64 := trivial
    exact .leaf hfits hleaf

theorem keeps_specType :
    Keeps (Lexeme.Constructible ctx) (SpecDialect.parseType ctx) (Ty.Constructible ctx) := by
  apply Keeps.bind keeps_keyword
  intro typeName _
  split
  · exact Keeps.failure
  · exact keeps_typeOfKind _

theorem keeps_specAttr :
    Keeps (Lexeme.Constructible ctx) (SpecDialect.parseAttribute ctx)
      (Attribute.Constructible ctx) := by
  apply Keeps.bind keeps_keyword
  intro attrName _
  split
  · exact Keeps.failure
  · exact keeps_attrOfKind _

/-! ### Texts -/

mutual

/-- Every type that is parsed can be constructed. -/
theorem constructible_of_parseTypeText (text : TypeText) (type : Ty)
    (h : parseTypeText ctx text = some type) : type.Constructible ctx := by
  cases text with
  | builtin type' =>
    cases h
    exact .builtin type'
  | complex elTy =>
    obtain ⟨elTy', hel, rfl⟩ := Option.map_eq_some_iff.mp h
    exact .complex (constructible_of_parseTypeText elTy elTy' hel)
  | function inputs results =>
    obtain ⟨inputs', hinputs, h⟩ := Option.bind_eq_some_iff.mp h
    obtain ⟨results', hresults, h⟩ := Option.bind_eq_some_iff.mp h
    cases h
    exact .function (constructible_of_parseTypeTexts inputs inputs' hinputs)
      (constructible_of_parseTypeTexts results results' hresults)
  | dialect body =>
    obtain ⟨⟨type', rest⟩, hrun, rfl⟩ := Option.map_eq_some_iff.mp h
    exact (keeps_specType _ _ _ (constructible_lexemes body) hrun).1

theorem constructible_of_parseTypeTexts (texts : List TypeText) (types : List Ty)
    (h : parseTypeTexts ctx texts = some types) : ∀ type ∈ types, type.Constructible ctx := by
  cases texts with
  | nil =>
    cases h
    simp
  | cons text texts =>
    obtain ⟨type, htype, h⟩ := Option.bind_eq_some_iff.mp h
    obtain ⟨types', htypes, h⟩ := Option.bind_eq_some_iff.mp h
    cases h
    rw [List.forall_mem_cons]
    exact ⟨constructible_of_parseTypeText text type htype,
      constructible_of_parseTypeTexts texts types' htypes⟩

/-- Every attribute that is parsed can be constructed. -/
theorem constructible_of_parseAttrText (text : AttrText) (attr : Attribute)
    (h : parseAttrText ctx text = some attr) : attr.Constructible ctx := by
  cases text with
  | builtin id types attrs =>
    obtain ⟨types', htypes, h⟩ := Option.bind_eq_some_iff.mp h
    obtain ⟨attrs', hattrs, h⟩ := Option.bind_eq_some_iff.mp h
    cases h
    exact .builtin id (constructible_of_parseTypeTexts types types' htypes)
      (constructible_of_parseAttrTexts attrs attrs' hattrs)
  | symbolRefAttr root nested =>
    cases h
    exact .symbolRefAttr root nested
  | dialect body =>
    obtain ⟨⟨attr', rest⟩, hrun, rfl⟩ := Option.map_eq_some_iff.mp h
    exact (keeps_specAttr _ _ _ (constructible_lexemes body) hrun).1

theorem constructible_of_parseAttrTexts (texts : List AttrText) (attrs : List Attribute)
    (h : parseAttrTexts ctx texts = some attrs) : ∀ attr ∈ attrs, attr.Constructible ctx := by
  cases texts with
  | nil =>
    cases h
    simp
  | cons text texts =>
    obtain ⟨attr, hattr, h⟩ := Option.bind_eq_some_iff.mp h
    obtain ⟨attrs', hattrs, h⟩ := Option.bind_eq_some_iff.mp h
    cases h
    rw [List.forall_mem_cons]
    exact ⟨constructible_of_parseAttrText text attr hattr,
      constructible_of_parseAttrTexts texts attrs' hattrs⟩

theorem constructible_lexeme (piece : Piece) : (lexeme ctx piece).Constructible ctx := by
  cases piece with
  | char c => exact trivial
  | type text => exact constructible_of_parseTypeText text
  | attr text => exact constructible_of_parseAttrText text

theorem constructible_lexemes (pieces : List Piece) :
    ∀ lexeme ∈ lexemes ctx pieces, lexeme.Constructible ctx := by
  cases pieces with
  | nil => simp [lexemes]
  | cons piece pieces =>
    rw [lexemes, List.forall_mem_cons]
    exact ⟨constructible_lexeme piece, constructible_lexemes pieces⟩

end

end Parsed

/-! ## Ops -/

/-- The constraints that each op of a spec reparses. -/
inductive ReparseOp where
  | operation (opType : OpType) (opAttrs : List (String × Attribute))
  /-- the parameter list of a `dmc.Type` or a `dmc.Attr` -/
  | parameterList (parameters : List (String × Attribute))
  | aliasedType (type : Ty) (attrType : Option Ty)
  | aliasedAttr (attr : Attribute) (attrType : Option Ty)

section Reparse

variable (ctx : Context)

def reparseTypeRange (types : List NamedType) : Option (List NamedType) :=
  types.mapM fun ty ↦ (reparseType ctx ty.type).map (NamedType.mk ty.name)

def reparseNamedAttrs (attrs : List (String × Attribute)) : Option (List (String × Attribute)) :=
  attrs.mapM fun attr ↦ (reparseAttr ctx attr.2).map (Prod.mk attr.1)

/-- Reparse operation type. Names will remain the same. -/
def OperationOp.reparse (opType : OpType) (opAttrs : List (String × Attribute)) :
    Option ReparseOp := do
  let argTys ← reparseTypeRange ctx opType.operands
  let retTys ← reparseTypeRange ctx opType.results
  let newOpTy ← OpType.getChecked argTys retTys
  let newOpAttrs ← reparseNamedAttrs ctx opAttrs
  return .operation newOpTy newOpAttrs

def reparseParameters (parameters : List (String × Attribute)) : Option ReparseOp := do
  let newParams ← reparseNamedAttrs ctx parameters
  return .parameterList newParams

/-- Reparse the type if it exists. -/
def reparseAttrType : Option Ty → Option (Option Ty)
  | none => some none
  | some type => (reparseType ctx type).map some

/-- Reparse either the aliased type or attribute. -/
def AliasOp.reparse (aliased : Ty ⊕ Attribute) (attrType : Option Ty) : Option ReparseOp :=
  match aliased with
  | .inl type => do
    let newType ← reparseType ctx type
    let newAttrType ← reparseAttrType ctx attrType
    return .aliasedType newType newAttrType
  | .inr attr => do
    let newAttr ← reparseAttr ctx attr
    let newAttrType ← reparseAttrType ctx attrType
    return .aliasedAttr newAttr newAttrType

def ReparseOp.reparse : ReparseOp → Option ReparseOp
  | operation opType opAttrs => OperationOp.reparse ctx opType opAttrs
  | parameterList parameters => reparseParameters ctx parameters
  | aliasedType type attrType => AliasOp.reparse ctx (.inl type) attrType
  | aliasedAttr attr attrType => AliasOp.reparse ctx (.inr attr) attrType

def ReparseOp.Constructible : ReparseOp → Prop
  | operation opType opAttrs =>
    (∀ ty ∈ opType.operands, ty.type.Constructible ctx) ∧
      (∀ ty ∈ opType.results, ty.type.Constructible ctx) ∧
        ∀ attr ∈ opAttrs, attr.2.Constructible ctx
  | parameterList parameters => ∀ param ∈ parameters, param.2.Constructible ctx
  | aliasedType type attrType =>
    type.Constructible ctx ∧ ∀ type ∈ attrType, type.Constructible ctx
  | aliasedAttr attr attrType =>
    attr.Constructible ctx ∧ ∀ type ∈ attrType, type.Constructible ctx

def ReparseOp.plain (strings : StringLexer) : ReparseOp → Bool
  | operation opType opAttrs =>
    (opType.operands.all fun ty ↦ ty.type.plain strings) &&
      (opType.results.all fun ty ↦ ty.type.plain strings) &&
        opAttrs.all fun attr ↦ attr.2.plain strings
  | parameterList parameters => parameters.all fun param ↦ param.2.plain strings
  | aliasedType type attrType => type.plain strings && attrType.all fun type ↦ type.plain strings
  | aliasedAttr attr attrType => attr.plain strings && attrType.all fun type ↦ type.plain strings

end Reparse

section Unchanged

variable {ctx : Context}

theorem mapM_eq_some_self_iff {α : Type} {f : α → Option α} {items : List α} :
    items.mapM f = some items ↔ ∀ a ∈ items, f a = some a := by
  refine ⟨fun h ↦ ?_, mapM_eq_self⟩
  induction items with
  | nil => simp
  | cons a items ih =>
    rw [List.mapM_cons] at h
    obtain ⟨a', ha', h⟩ := Option.bind_eq_some_iff.mp h
    obtain ⟨items', hitems', h⟩ := Option.bind_eq_some_iff.mp h
    obtain ⟨rfl, rfl⟩ := List.cons.inj (Option.some.inj h)
    rw [List.forall_mem_cons]
    exact ⟨ha', ih hitems'⟩

theorem reparseTypeRange_iff {types : List NamedType}
    (h : ∀ ty ∈ types, ty.type.Constructible ctx) :
    reparseTypeRange ctx types = some types ↔
      (types.all fun ty ↦ ty.type.plain ctx.strings) = true := by
  rw [reparseTypeRange, mapM_eq_some_self_iff, List.all_eq_true]
  refine forall₂_congr fun ty hty ↦ ?_
  rw [← (h ty hty).reparseType_iff, Option.map_eq_some_iff]
  constructor
  · rintro ⟨type, htype, heq⟩
    rw [htype, ← heq]
  · intro htype
    exact ⟨ty.type, htype, rfl⟩

theorem reparseNamedAttrs_iff {attrs : List (String × Attribute)}
    (h : ∀ attr ∈ attrs, attr.2.Constructible ctx) :
    reparseNamedAttrs ctx attrs = some attrs ↔
      (attrs.all fun attr ↦ attr.2.plain ctx.strings) = true := by
  rw [reparseNamedAttrs, mapM_eq_some_self_iff, List.all_eq_true]
  refine forall₂_congr fun attr hattr ↦ ?_
  rw [← (h attr hattr).reparseAttr_iff, Option.map_eq_some_iff]
  constructor
  · rintro ⟨attr', hattr', heq⟩
    rw [hattr', ← heq]
  · intro hattr'
    exact ⟨attr.2, hattr', rfl⟩

theorem reparseAttrType_iff {attrType : Option Ty}
    (h : ∀ type ∈ attrType, type.Constructible ctx) :
    reparseAttrType ctx attrType = some attrType ↔
      (attrType.all fun type ↦ type.plain ctx.strings) = true := by
  cases attrType with
  | none => simp [reparseAttrType]
  | some type =>
    have htype := (h type rfl).reparseType_iff
    simpa [reparseAttrType] using htype

theorem OperationOp.reparse_iff {opType : OpType} {opAttrs : List (String × Attribute)} :
    OperationOp.reparse ctx opType opAttrs = some (.operation opType opAttrs) ↔
      reparseTypeRange ctx opType.operands = some opType.operands ∧
        reparseTypeRange ctx opType.results = some opType.results ∧
          reparseNamedAttrs ctx opAttrs = some opAttrs := by
  constructor
  · intro h
    obtain ⟨argTys, hargs, h⟩ := Option.bind_eq_some_iff.mp h
    obtain ⟨retTys, hrets, h⟩ := Option.bind_eq_some_iff.mp h
    obtain ⟨newOpTy, hnew, h⟩ := Option.bind_eq_some_iff.mp h
    obtain ⟨newOpAttrs, hattrs, h⟩ := Option.bind_eq_some_iff.mp h
    obtain ⟨rfl, rfl⟩ := ReparseOp.operation.inj (Option.some.inj h)
    rw [OpType.getChecked] at hnew
    split_ifs at hnew
    obtain rfl := Option.some.inj hnew
    exact ⟨hargs, hrets, hattrs⟩
  · rintro ⟨hargs, hrets, hattrs⟩
    have hnew : OpType.getChecked opType.operands opType.results = some opType := by
      simp [OpType.getChecked, opType.operands_nodup, opType.results_nodup]
    simp [OperationOp.reparse, hargs, hrets, hattrs, hnew]

theorem ReparseOp.reparse_iff {op : ReparseOp} (hctor : op.Constructible ctx) :
    op.reparse ctx = some op ↔ op.plain ctx.strings = true := by
  cases op with
  | operation opType opAttrs =>
    rw [ReparseOp.reparse, OperationOp.reparse_iff, reparseTypeRange_iff hctor.1,
      reparseTypeRange_iff hctor.2.1, reparseNamedAttrs_iff hctor.2.2, ReparseOp.plain,
      Bool.and_eq_true, Bool.and_eq_true, and_assoc]
  | parameterList parameters =>
    rw [ReparseOp.plain, ← reparseNamedAttrs_iff hctor, ReparseOp.reparse, reparseParameters]
    cases reparseNamedAttrs ctx parameters <;> simp
  | aliasedType type attrType =>
    rw [ReparseOp.plain, Bool.and_eq_true, ← hctor.1.reparseType_iff,
      ← reparseAttrType_iff hctor.2, ReparseOp.reparse, AliasOp.reparse]
    cases reparseType ctx type <;> cases reparseAttrType ctx attrType <;> simp
  | aliasedAttr attr attrType =>
    rw [ReparseOp.plain, Bool.and_eq_true, ← hctor.1.reparseAttr_iff,
      ← reparseAttrType_iff hctor.2, ReparseOp.reparse, AliasOp.reparse]
    cases reparseAttr ctx attr <;> cases reparseAttrType ctx attrType <;> simp

end Unchanged

/-! ## The round trip -/

/-- Constraints come back from their text, and reparsing leaves an op as it is, exactly if no
constraint in them has a list of widths or is `Function`, and every string is plain. -/
theorem constraints_roundTrip_iff (ctx : Context) :
    (∀ type : {type : Ty // type.Constructible ctx},
      reparseType ctx type.val = some type.val ↔ type.val.plain ctx.strings = true) ∧
    (∀ attr : {attr : Attribute // attr.Constructible ctx},
      reparseAttr ctx attr.val = some attr.val ↔ attr.val.plain ctx.strings = true) ∧
    ∀ op : {op : ReparseOp // op.Constructible ctx},
      op.val.reparse ctx = some op.val ↔ op.val.plain ctx.strings = true :=
  ⟨fun type ↦ type.property.reparseType_iff, fun attr ↦ attr.property.reparseAttr_iff,
    fun op ↦ ReparseOp.reparse_iff op.property⟩

/-! ## String literals -/

/-- The escapes of a single character. -/
def simpleEscape (c : Char) : Option Char :=
  match c with
  | '"' => some '"'
  | '\\' => some '\\'
  | 'n' => some '\n'
  | 't' => some '\t'
  | _ => none

def hexDigit (c : Char) : Option ℕ :=
  if c.isDigit then some (c.toNat - '0'.toNat)
  else if 'a' ≤ c ∧ c ≤ 'f' then some (c.toNat - 'a'.toNat + 10)
  else if 'A' ≤ c ∧ c ≤ 'F' then some (c.toNat - 'A'.toNat + 10)
  else none

def isLineBreak (c : Char) : Bool := c == '\n' || c == '\x0b' || c == '\x0c' || c == '\r'

def isPlainChar (c : Char) : Bool := !(c == '"' || c == '\\' || isLineBreak c)

def prepend (c : Char) (literal : Option (List Char × List Char)) :
    Option (List Char × List Char) :=
  literal.map fun (value, rest) ↦ (c :: value, rest)

/-- The rest of a literal after its first quotation mark. -/
def lexLiteral : List Char → Option (List Char × List Char)
  | [] => none
  | '"' :: rest => some ([], rest)
  | '\\' :: c :: rest =>
    match simpleEscape c with
    | some value => prepend value (lexLiteral rest)
    | none =>
      match rest with
      | [] => none
      | d :: rest => do
        let high ← hexDigit c
        let low ← hexDigit d
        prepend (Char.ofNat (16 * high + low)) (lexLiteral rest)
  | c :: rest => if isPlainChar c then prepend c (lexLiteral rest) else none

def lexString : List Char → Option (List Char × List Char)
  | '"' :: text => lexLiteral text
  | _ => none

theorem lexLiteral_plain {value : List Char} (h : value.all isPlainChar = true)
    (rest : List Char) : lexLiteral (value ++ '"' :: rest) = some (value, rest) := by
  induction value with
  | nil => rfl
  | cons c value ih =>
    rw [List.all_cons, Bool.and_eq_true] at h
    have hquote : c ≠ '"' := by
      rintro rfl
      exact absurd h.1 (by decide)
    have hbackslash : c ≠ '\\' := by
      rintro rfl
      exact absurd h.1 (by decide)
    rw [List.cons_append, lexLiteral, if_pos h.1, ih h.2]
    · rfl
    · exact hquote
    · exact fun _ _ hc _ ↦ hbackslash hc

theorem eq_some_of_prepend {c : Char} {literal : Option (List Char × List Char)}
    {value rest : List Char} (h : prepend c literal = some (value, rest)) :
    ∃ value', literal = some (value', rest) ∧ value = c :: value' := by
  obtain ⟨⟨value', rest'⟩, hliteral, h⟩ := Option.map_eq_some_iff.mp h
  obtain ⟨rfl, rfl⟩ := Prod.mk.inj h
  exact ⟨value', hliteral, rfl⟩

theorem lexLiteral_body {text value rest : List Char} (h : lexLiteral text = some (value, rest)) :
    ∃ body, text = body ++ '"' :: rest ∧ value.length ≤ body.length ∧
      (value.length = body.length → value = body ∧ body.all isPlainChar = true) := by
  fun_induction lexLiteral text generalizing value with
  | case1 => cases h
  | case2 rest' =>
    cases h
    exact ⟨[], rfl, le_rfl, fun _ ↦ ⟨rfl, rfl⟩⟩
  | case3 c text escaped hescape ih =>
    obtain ⟨value', hliteral, rfl⟩ := eq_some_of_prepend h
    obtain ⟨body, rfl, hle, -⟩ := ih hliteral
    refine ⟨'\\' :: c :: body, rfl, ?_, fun heq ↦ ?_⟩
    · simp only [List.length_cons]
      omega
    · simp only [List.length_cons] at heq
      omega
  | case4 => cases h
  | case5 c hescape d text ih =>
    obtain ⟨high, -, h⟩ := Option.bind_eq_some_iff.mp h
    obtain ⟨low, -, h⟩ := Option.bind_eq_some_iff.mp h
    obtain ⟨value', hliteral, rfl⟩ := eq_some_of_prepend h
    obtain ⟨body, rfl, hle, -⟩ := ih hliteral
    refine ⟨'\\' :: c :: d :: body, rfl, ?_, fun heq ↦ ?_⟩
    · simp only [List.length_cons]
      omega
    · simp only [List.length_cons] at heq
      omega
  | case6 c text _ _ hplain ih =>
    obtain ⟨value', hliteral, rfl⟩ := eq_some_of_prepend h
    obtain ⟨body, rfl, hle, heq⟩ := ih hliteral
    refine ⟨c :: body, rfl, Nat.succ_le_succ hle, fun hlength ↦ ?_⟩
    obtain ⟨rfl, hbody⟩ := heq (Nat.succ.inj hlength)
    rw [List.all_cons, hplain, hbody]
    exact ⟨rfl, rfl⟩
  | case7 => cases h

def standardStrings : StringLexer where
  lex := lexString
  isPlain := isPlainChar
  not_isPlain_quote := by decide
  not_isPlain_backslash := by decide
  lex_plain value rest hvalue _ := lexLiteral_plain hvalue rest
  lex_literal text value rest h := by
    cases text with
    | nil => cases h
    | cons c text =>
      by_cases hc : c = '"'
      · subst hc
        obtain ⟨body, htext, hbody⟩ := lexLiteral_body h
        exact ⟨body, [], by rw [htext]; rfl, hbody⟩
      · rw [lexString] at h
        · cases h
        · simpa using hc

/-- All types and attributes have one address, and Python accepts every expression. -/
def standardContext : Context where
  typeAddress _ := 0
  attrAddress _ := 0
  registerConstraint _ := true
  strings := standardStrings

/-- A list of widths is not read back, `Function` is read back as `Any`, and an expression ends at
its first quotation mark. -/
theorem constraints_not_roundTrip :
    (∃ type : {type : Ty // type.Constructible standardContext},
      type.val = .leaf (.anyIntOfWidths [8, 16]) ∧
        reparseType standardContext type.val = none) ∧
    (∃ type : {type : Ty // type.Constructible standardContext},
      type.val = .leaf .function ∧
        reparseType standardContext type.val = some (.leaf .any)) ∧
    ∃ type : {type : Ty // type.Constructible standardContext},
      type.val = .leaf (.py "\"a\" in str({self})") ∧
        reparseType standardContext type.val ≠ some type.val := by
  have hwidths : (LeafConstraint.anyIntOfWidths [8, 16]).getChecked standardContext =
      some (.leaf (.anyIntOfWidths [8, 16])) := by
    have hsorted : getSortedWidths [8, 16] = [8, 16] := List.mergeSort_of_pairwise (by decide)
    simp only [LeafConstraint.getChecked, NumericTypeOfWidths.getChecked, hsorted]
    rfl
  have hfunction : LeafConstraint.function.getChecked standardContext =
      some (.leaf .function) := rfl
  have hpy : (LeafConstraint.py "\"a\" in str({self})").getChecked standardContext =
      some (.leaf (.py "\"a\" in str({self})")) := rfl
  refine ⟨⟨⟨_, .leaf hwidths⟩, rfl, ?_⟩, ⟨⟨_, .leaf hfunction⟩, rfl, ?_⟩,
    ⟨⟨_, .leaf hpy⟩, rfl, ?_⟩⟩
  · exact @reparseType_ofWidths _ _ .anyIntOfWidths 8 [16] rfl (by decide)
  · exact reparseType_simple rfl rfl rfl
  · rw [ne_eq, (Ty.Constructible.leaf hpy).reparseType_iff]
    decide

end DeclarativeMlir.Spec

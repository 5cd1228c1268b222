import DeclarativeMlir.Spec.SpecSyntax
import Mathlib.Data.Set.List

/-!
# Round trips of spec operations

Which spec operations are read back from what their printers write. Each section of the syntax is
read back if the names in it are keywords. The sections of a `dmc.Op` are printed in another order
than they are parsed if there are successors, and the attributes of a `dmc.Attr` are not printed.
-/

namespace DeclarativeMlir.Spec

open TokenParsing

/-! ## Tokens -/

section Sections

variable (lexer : Lexer)

theorem reads_word {text : String} (h : isKeyword text = true) (rest : List Token) :
    Reads parseKeyword [.word text] text rest :=
  Reads.token (by simp [h]) rest

theorem reads_keyword {name : String} (h : isKeyword name = true) (rest : List Token) :
    Reads parseKeyword (lexer.lexName name) name rest := by
  rw [lexer.lexName_keyword name h]
  exact reads_word h rest

theorem reads_symbolName (name : String) (rest : List Token) :
    Reads parseSymbolName [.symbol name] name rest := rfl

theorem reads_type (ty : Ty) (rest : List Token) : Reads parseType [.type ty] ty rest := rfl

theorem reads_attribute (attr : Attr) (rest : List Token) :
    Reads parseAttribute (printAttribute attr) attr rest := by
  cases attr <;> rfl

theorem reads_entry (entry : String × Attr) (rest : List Token) :
    Reads parseEntry [.entry entry.1 entry.2] entry rest := rfl

/-! ## Attribute dictionaries -/

theorem reads_attrDict (attrs : List (String × Attr)) (rest : List Token) :
    Reads parseOptionalAttrDict (printAttrDict attrs) attrs rest := by
  apply Reads.bind_cons (Reads.optional_true _ _)
  cases attrs with
  | nil => exact Reads.bind_pure (Reads.optional_true _ _) (Reads.pure _ _)
  | cons entry attrs =>
    have hlist := @Reads.sepList _ _ _ parseEntry .comma _ (entry :: attrs) (Token.rbrace :: rest)
      (fun entry _ rest _ ↦ reads_entry entry rest) (List.cons_ne_nil _ _) (by simp)
    have hopen : ((interleave Token.comma (fun entry ↦ [Token.entry entry.1 entry.2])
        (entry :: attrs) ++ [Token.rbrace]) ++ rest).head? ≠ some .rbrace := by
      cases attrs <;> simp [interleave]
    apply Reads.bind_nil (Reads.optional_false hopen)
    apply Reads.bind hlist
    exact Reads.bind_pure (Reads.expect _ _) (Reads.pure _ _)

theorem reads_optionalAttrDict (attrs : List (String × Attr)) {rest : List Token}
    (hrest : rest.head? ≠ some .lbrace) :
    Reads parseOptionalAttrDict (printOptionalAttrDict attrs) attrs rest := by
  cases attrs with
  | nil => exact Reads.bind_nil (Reads.optional_false hrest) (Reads.pure _ _)
  | cons entry attrs => exact reads_attrDict (entry :: attrs) rest

/-! ## Op types -/

theorem reads_namedType {ty : NamedType} (h : isKeyword ty.name = true) (rest : List Token) :
    Reads parseNamedType (printNamedType lexer ty) ty rest := by
  apply Reads.bind (reads_keyword lexer h _)
  apply Reads.bind_cons (Reads.expect _ _)
  exact Reads.bind_pure (reads_type ty.type _) (Reads.pure _ _)

theorem reads_valueList {types : List NamedType} (h : ∀ ty ∈ types, isKeyword ty.name = true)
    (rest : List Token) : Reads parseValueList (printValueList lexer types) types rest := by
  apply Reads.bind_cons (Reads.expect _ _)
  cases types with
  | nil =>
    apply Reads.bind_nil (Reads.peek _ _)
    exact Reads.bind_pure (Reads.expect _ _) (Reads.pure _ _)
  | cons ty types =>
    have hlist := @Reads.sepList _ _ _ parseNamedType .comma (printNamedType lexer) (ty :: types)
      (Token.rparen :: rest) (fun ty hty rest _ ↦ reads_namedType lexer (h ty hty) rest) (List.cons_ne_nil _ _)
      (by simp)
    have hname := h ty (List.mem_cons_self ..)
    have hpeek : ((interleave Token.comma (printNamedType lexer) (ty :: types) ++ [Token.rparen]) ++
        rest).head?.any isKeywordToken = true := by
      cases types <;>
        simp [interleave, printNamedType, lexer.lexName_keyword _ hname, isKeywordToken, hname]
    have hpeek' := Reads.peek isKeywordToken
      ((interleave Token.comma (printNamedType lexer) (ty :: types) ++ [Token.rparen]) ++ rest)
    rw [hpeek] at hpeek'
    apply Reads.bind_nil hpeek'
    apply Reads.bind hlist
    exact Reads.bind_pure (Reads.expect _ _) (Reads.pure _ _)

/-- All names are keywords. -/
structure OpType.Named (opType : OpType) : Prop where
  operands : ∀ ty ∈ opType.operands, isKeyword ty.name = true
  results : ∀ ty ∈ opType.results, isKeyword ty.name = true

theorem reads_opType {opType : OpType} (h : opType.Named) (rest : List Token) :
    Reads parseOpType (printOpType lexer opType) opType rest := by
  apply Reads.bind (reads_valueList lexer h.operands _)
  apply Reads.bind_cons (Reads.expect _ _)
  apply Reads.bind_pure (reads_valueList lexer h.results _)
  simp only [OpType.getChecked, opType.operands_nodup, opType.results_nodup, and_self, dite_true]
  rfl

/-! ## Regions and successors -/

theorem reads_opRegion (constraint : RegionConstraint) {fuel : ℕ}
    (hfuel : (printOpRegion constraint).length ≤ fuel) (rest : List Token) :
    Reads (parseOpRegion fuel) (printOpRegion constraint) constraint rest := by
  induction constraint generalizing fuel rest with
  | any =>
    obtain ⟨fuel, rfl⟩ := Nat.exists_eq_add_one_of_ne_zero (Nat.ne_of_gt hfuel)
    exact Reads.bind_pure (reads_word (by decide) _) (Reads.pure _ _)
  | sized numBlocks =>
    obtain ⟨fuel, rfl⟩ := Nat.exists_eq_add_one_of_ne_zero (Nat.ne_of_gt (Nat.zero_lt_of_lt hfuel))
    apply Reads.bind_cons (reads_word (by decide) _)
    rw [if_neg (by decide), if_pos rfl]
    apply Reads.bind_cons (Reads.expect _ _)
    apply Reads.bind_cons (reads_attribute (.integer numBlocks) _)
    exact Reads.bind_pure (Reads.expect _ _) (Reads.pure _ _)
  | isolatedFromAbove =>
    obtain ⟨fuel, rfl⟩ := Nat.exists_eq_add_one_of_ne_zero (Nat.ne_of_gt hfuel)
    exact Reads.bind_pure (reads_word (by decide) _) (Reads.pure _ _)
  | variadic constraint ih =>
    simp only [printOpRegion, List.length_cons, List.length_append] at hfuel
    obtain ⟨fuel, rfl⟩ := Nat.exists_eq_add_one_of_ne_zero (Nat.ne_of_gt (Nat.zero_lt_of_lt hfuel))
    apply Reads.bind_cons (reads_word (by decide) _)
    rw [if_neg (by decide), if_neg (by decide), if_neg (by decide), if_pos rfl]
    apply Reads.bind_cons (Reads.expect _ _)
    apply Reads.bind (ih (by omega) _)
    exact Reads.bind_pure (Reads.expect _ _) (Reads.pure _ _)

theorem reads_opSuccessor (constraint : SuccessorConstraint) {fuel : ℕ}
    (hfuel : (printOpSuccessor constraint).length ≤ fuel) (rest : List Token) :
    Reads (parseOpSuccessor fuel) (printOpSuccessor constraint) constraint rest := by
  induction constraint generalizing fuel rest with
  | any =>
    obtain ⟨fuel, rfl⟩ := Nat.exists_eq_add_one_of_ne_zero (Nat.ne_of_gt hfuel)
    exact Reads.bind_pure (reads_word (by decide) _) (Reads.pure _ _)
  | variadic constraint ih =>
    simp only [printOpSuccessor, List.length_cons, List.length_append] at hfuel
    obtain ⟨fuel, rfl⟩ := Nat.exists_eq_add_one_of_ne_zero (Nat.ne_of_gt (Nat.zero_lt_of_lt hfuel))
    apply Reads.bind_cons (reads_word (by decide) _)
    rw [if_neg (by decide), if_pos rfl]
    apply Reads.bind_cons (Reads.expect _ _)
    apply Reads.bind (ih (by omega) _)
    exact Reads.bind_pure (Reads.expect _ _) (Reads.pure _ _)

section Constraints

variable {C : Type} {print : C → List Token} {parse : ℕ → SpecParser C}
  (hparse : ∀ (constraint : C) (fuel : ℕ), (print constraint).length ≤ fuel →
    ∀ rest, Reads (parse fuel) (print constraint) constraint rest)

include hparse

theorem reads_namedConstraint {constraint : NamedConstraint C}
    (h : isKeyword constraint.name = true) (rest : List Token) :
    Reads (parseNamedConstraint parse) (printNamedConstraint lexer print constraint) constraint
      rest := by
  apply Reads.bind (reads_keyword lexer h _)
  apply Reads.bind_cons (Reads.expect _ _)
  have hattr := hparse constraint.attr (print constraint.attr ++ rest).length (by simp) rest
  exact Reads.bind_pure (p := fun input ↦ (parse input.length).run input) hattr (Reads.pure _ _)

theorem reads_optionalConstraintList {left right : Token} {constraints : List (NamedConstraint C)}
    (h : ∀ constraint ∈ constraints, isKeyword constraint.name = true) (hright : right ≠ .comma)
    {rest : List Token} (hrest : rest.head? ≠ some left) :
    Reads (parseOptionalConstraintList parse left right)
      (printOptionalConstraintList lexer print left right constraints) constraints rest := by
  cases constraints with
  | nil => exact Reads.bind_nil (Reads.optional_false hrest) (Reads.pure _ _)
  | cons constraint constraints =>
    have hlist := @Reads.sepList _ _ _ (parseNamedConstraint parse) .comma
      (printNamedConstraint lexer print) (constraint :: constraints) (right :: rest)
      (fun constraint hmem rest _ ↦ reads_namedConstraint lexer hparse (h constraint hmem) rest)
      (List.cons_ne_nil _ _) (by simpa using hright)
    apply Reads.bind_cons (Reads.optional_true _ _)
    apply Reads.bind hlist
    exact Reads.bind_pure (Reads.expect _ _) (Reads.pure _ _)

end Constraints

theorem Token.rparen_ne_comma : Token.rparen ≠ .comma := by simp

theorem reads_optionalRegionList {opRegions : OpRegion}
    (h : ∀ region ∈ opRegions.regions, isKeyword region.name = true) {rest : List Token}
    (hrest : rest.head? ≠ some .lparen) :
    Reads parseOptionalRegionList (printOptionalRegionList lexer opRegions) opRegions rest := by
  have hlist := reads_optionalConstraintList lexer
    (fun constraint _ hfuel ↦ reads_opRegion constraint hfuel) h Token.rparen_ne_comma hrest
  apply Reads.bind_pure hlist
  simp only [OpRegion.getChecked, opRegions.regions_nodup, dite_true]
  rfl

theorem reads_optionalSuccessorList_nil {rest : List Token}
    (hrest : rest.head? ≠ some .lsquare) :
    Reads parseOptionalSuccessorList [] ⟨[], List.nodup_nil⟩ rest := by
  have hlist : Reads (parseOptionalConstraintList parseOpSuccessor .lsquare .rsquare) [] [] rest :=
    Reads.bind_nil (Reads.optional_false hrest) (Reads.pure _ _)
  exact Reads.bind_pure hlist rfl

/-! ## Traits -/

theorem reads_optionalParameterList (params : List Attr) {rest : List Token}
    (hrest : rest.head? ≠ some .less) :
    Reads parseOptionalParameterList (printOptionalParameterList params) params rest := by
  cases params with
  | nil => exact Reads.bind_nil (Reads.optional_false hrest) (Reads.pure _ _)
  | cons param params =>
    have hlist := @Reads.sepList _ _ _ parseAttribute .comma _ (param :: params)
      (Token.greater :: rest) (fun param _ rest _ ↦ reads_attribute param rest) (List.cons_ne_nil _ _)
      (by simp)
    apply Reads.bind_cons (Reads.optional_true _ _)
    apply Reads.bind hlist
    exact Reads.bind_pure (Reads.expect _ _) (Reads.pure _ _)

theorem reads_opTrait (trait : OpTraitAttr) {rest : List Token} (hrest : rest.head? ≠ some .less) :
    Reads parseOpTrait (printOpTrait trait) trait rest := by
  apply Reads.bind_cons (reads_symbolName _ _)
  exact Reads.bind_pure (reads_optionalParameterList trait.parameters hrest) (Reads.pure _ _)

theorem reads_optionalOpTraitList (traits : List OpTraitAttr) {rest : List Token}
    (hrest : rest.head? ≠ some (.word "traits")) :
    Reads parseOptionalOpTraitList (printOptionalOpTraitList traits) traits rest := by
  cases traits with
  | nil => exact Reads.bind_nil (Reads.optional_false hrest) (Reads.pure _ _)
  | cons trait traits =>
    have hlist := @Reads.sepList _ _ _ parseOpTrait .comma printOpTrait (trait :: traits)
      (Token.rsquare :: rest)
      (by
        rintro trait - rest' hrest'
        apply reads_opTrait
        rcases hrest' with hcomma | rfl
        · simp [hcomma]
        · simp)
      (List.cons_ne_nil _ _) (by simp)
    apply Reads.bind_cons (Reads.optional_true _ _)
    apply Reads.bind_cons (Reads.expect _ _)
    apply Reads.bind hlist
    exact Reads.bind_pure (Reads.expect _ _) (Reads.pure _ _)

/-! ## Ops -/

/-- The names in a `dmc.Op` that are printed as they are, apart from those of successors. -/
structure OperationOp.Named (op : OperationOp) : Prop where
  opType : op.opType.Named
  regions : ∀ region ∈ op.opRegions.regions, isKeyword region.name = true

/-- What follows the regions starts with neither a bracket nor a brace. -/
theorem head_opTraitList_append (traits : List OpTraitAttr) (text : List Token) :
    (printOptionalOpTraitList traits ++ .word "config" :: text).head? = some (.word "traits") ∨
      (printOptionalOpTraitList traits ++ .word "config" :: text).head? =
        some (.word "config") := by
  cases traits with
  | nil => exact .inr rfl
  | cons trait traits => exact .inl rfl

theorem reads_operationOp {op : OperationOp} (h : op.Named) (hsuccs : op.opSuccs.successors = [])
    {rest : List Token} (hrest : rest.head? ≠ some .lbrace) :
    Reads OperationOp.parse (op.print lexer) op rest := by
  have hprintSuccs : printOptionalSuccessorList lexer op.opSuccs = [] := by
    simp [printOptionalSuccessorList, printOptionalConstraintList, hsuccs]
  have hsuccs' : op.opSuccs = ⟨[], List.nodup_nil⟩ := by
    cases hop : op.opSuccs
    simp_all
  rw [OperationOp.print, hprintSuccs, List.nil_append]
  have hhead := head_opTraitList_append op.opTraits (printOptionalAttrDict op.config ++ rest)
  apply Reads.bind_cons (reads_symbolName _ _)
  apply Reads.bind (reads_opType lexer h.opType _)
  apply Reads.bind (reads_attrDict op.opAttrs _)
  apply Reads.bind (reads_optionalRegionList lexer h.regions _)
  · apply Reads.bind_nil (reads_optionalSuccessorList_nil _)
    · apply Reads.bind (reads_optionalOpTraitList op.opTraits (by simp))
      apply Reads.bind_cons (Reads.optional_true _ _)
      apply Reads.bind_pure (reads_optionalAttrDict op.config hrest)
      rw [← hsuccs']
      exact Reads.pure op rest
    · rw [List.append_assoc, List.cons_append]
      rcases hhead with hhead | hhead <;> simp [hhead]
  · rw [List.append_assoc, List.cons_append]
    rcases hhead with hhead | hhead <;> simp [hhead]

/-- All parameters are named by keywords. -/
def ParametersOp.Named (op : ParametersOp) : Prop :=
  ∀ param ∈ op.params, ∃ named, param = .named named ∧ isKeyword named.name = true

theorem reads_namedParameter {param : NamedParameter} (h : isKeyword param.name = true)
    (rest : List Token) :
    Reads parseNamedParameter (printNamedParameter lexer param) param rest := by
  obtain ⟨name, constraint, hconstraint⟩ := param
  apply Reads.bind (reads_keyword lexer h _)
  apply Reads.bind_cons (Reads.expect _ _)
  apply Reads.bind_pure (reads_attribute constraint _)
  cases constraint with
  | ofType ty => rfl
  | constraint id => rfl
  | integer _ | string _ | type _ | other _ => simp [Attr.isConstraint] at hconstraint

theorem reads_parameterList {params : List NamedParameter}
    (h : ∀ param ∈ params, isKeyword param.name = true) {rest : List Token}
    (hrest : rest.head? ≠ some .less) :
    Reads parseParameterList (printParameters lexer params) params rest := by
  cases params with
  | nil => exact Reads.bind_nil (Reads.optional_false hrest) (Reads.pure _ _)
  | cons param params =>
    have hlist := @Reads.sepList _ _ _ parseNamedParameter .comma (printNamedParameter lexer)
      (param :: params) (Token.greater :: rest)
      (fun param hmem rest _ ↦ reads_namedParameter lexer (h param hmem) rest)
      (List.cons_ne_nil _ _) (by simp)
    apply Reads.bind_cons (Reads.optional_true _ _)
    apply Reads.bind hlist
    exact Reads.bind_pure (Reads.expect _ _) (Reads.pure _ _)

/-- The parameter array holds named parameters only. -/
theorem mapM_getNamed_eq_some {params : List Parameter} {named : List NamedParameter} :
    params.mapM Parameter.getNamed = some named ↔ params = named.map .named := by
  induction params generalizing named with
  | nil => simp [eq_comm]
  | cons param params ih =>
    rw [List.mapM_cons]
    cases param with
    | other attr => cases named <;> simp [Parameter.getNamed]
    | named first =>
      cases named with
      | nil => simp [Parameter.getNamed, Option.bind_eq_some_iff]
      | cons first' named => simp [Parameter.getNamed, Option.bind_eq_some_iff, ih, and_comm]

/-- Tokens that can follow an op, such as the name of the next op. -/
def FollowsOp (rest : List Token) : Prop :=
  ∀ token ∈ rest.head?, token = .rbrace ∨ ∃ text, token = .word text

theorem FollowsOp.head_ne {rest : List Token} (h : FollowsOp rest) :
    rest.head? ≠ some .lbrace ∧ rest.head? ≠ some .less := by
  cases rest with
  | nil => simp
  | cons token rest =>
    rcases h token rfl with rfl | ⟨text, rfl⟩ <;> simp

theorem followsOp_nil : FollowsOp [] := by simp [FollowsOp]

theorem reads_parametersOp {op : ParametersOp} {named : List NamedParameter}
    (hparams : op.params = named.map .named) (h : ∀ param ∈ named, isKeyword param.name = true)
    {rest : List Token} (hrest : FollowsOp rest) :
    Reads parseParametersOp
      (.symbol op.name :: (printParameters lexer named ++ printOptionalAttrDict op.attrs)) op
      rest := by
  obtain ⟨hbrace, hless⟩ := hrest.head_ne
  apply Reads.bind_cons (reads_symbolName _ _)
  apply Reads.bind (reads_parameterList lexer h _)
  · apply Reads.bind_pure (reads_optionalAttrDict op.attrs hbrace)
    rw [← hparams]
    exact Reads.pure op rest
  · cases hattrs : op.attrs <;> simp [printOptionalAttrDict, printAttrDict, hless]

theorem reads_aliasOp_type {op : AliasOp} {ty : Ty} (htype : op.aliasedType = some (.type ty))
    (hattr : op.aliasedAttr = none) {rest : List Token} (hrest : FollowsOp rest) :
    Reads AliasOp.parse (.symbol op.name :: .arrow :: .type ty :: printOptionalAttrDict op.attrs)
      op rest := by
  apply Reads.bind_cons (reads_symbolName _ _)
  apply Reads.bind_cons (Reads.expect _ _)
  apply Reads.bind_nil (Reads.peek isTypeToken _)
  apply Reads.bind_cons (reads_type ty _)
  apply Reads.bind_pure (reads_optionalAttrDict op.attrs hrest.head_ne.1)
  rw [← htype, ← hattr]
  exact Reads.pure op rest

theorem reads_aliasOp_attr {op : AliasOp} {attr : Attr} (htype : op.aliasedType = none)
    (hattr : op.aliasedAttr = some attr) (hnotType : attr.isType = false) {rest : List Token}
    (hrest : FollowsOp rest) :
    Reads AliasOp.parse
      (.symbol op.name :: .arrow :: (printAttribute attr ++ printOptionalAttrDict op.attrs)) op
      rest := by
  apply Reads.bind_cons (reads_symbolName _ _)
  apply Reads.bind_cons (Reads.expect _ _)
  have hpeek := Reads.peek isTypeToken
    ((printAttribute attr ++ printOptionalAttrDict op.attrs) ++ rest)
  have hfalse : ((printAttribute attr ++ printOptionalAttrDict op.attrs) ++ rest).head?.any
      isTypeToken = false := by
    cases attr <;> first
      | rfl
      | simp [Attr.isType] at hnotType
  rw [hfalse] at hpeek
  apply Reads.bind_nil hpeek
  apply Reads.bind (reads_attribute attr _)
  apply Reads.bind_pure (reads_optionalAttrDict op.attrs hrest.head_ne.1)
  rw [← htype, ← hattr]
  exact Reads.pure op rest

/-! ## What the parsers can give -/

theorem isKeyword_of_run {input rest : List Token} {name : String}
    (h : parseKeyword.run input = some (name, rest)) : isKeyword name = true := by
  cases input with
  | nil => exact absurd h (by simp [parseKeyword, token, StateT.run])
  | cons head input =>
    cases head with
    | word text =>
      simp only [parseKeyword, token, StateT.run, Option.map_eq_some_iff] at h
      obtain ⟨name', hname, hrest⟩ := h
      split_ifs at hname with hkeyword
      obtain rfl := Option.some.inj hname
      obtain ⟨rfl, -⟩ := Prod.mk.inj hrest
      exact hkeyword
    | _ => exact absurd h (by simp [parseKeyword, token, StateT.run])

theorem namedType_of_run {input rest : List Token} {ty : NamedType}
    (h : parseNamedType.run input = some (ty, rest)) : isKeyword ty.name = true := by
  obtain ⟨name, mid, hname, h⟩ := run_bind_eq_some.mp h
  obtain ⟨_, _, -, h⟩ := run_bind_eq_some.mp h
  obtain ⟨_, _, -, h⟩ := run_bind_eq_some.mp h
  obtain ⟨rfl, -⟩ := Prod.mk.inj (Option.some.inj h)
  exact isKeyword_of_run hname

theorem valueList_of_run {input rest : List Token} {types : List NamedType}
    (h : parseValueList.run input = some (types, rest)) :
    ∀ ty ∈ types, isKeyword ty.name = true := by
  obtain ⟨_, _, -, h⟩ := run_bind_eq_some.mp h
  obtain ⟨more, _, -, h⟩ := run_bind_eq_some.mp h
  cases more with
  | false =>
    obtain ⟨_, _, -, h⟩ := run_bind_eq_some.mp h
    obtain ⟨rfl, -⟩ := Prod.mk.inj (Option.some.inj h)
    simp
  | true =>
    obtain ⟨types', _, htypes, h⟩ := run_bind_eq_some.mp h
    obtain ⟨_, _, -, h⟩ := run_bind_eq_some.mp h
    obtain ⟨rfl, -⟩ := Prod.mk.inj (Option.some.inj h)
    exact mem_of_run_sepList (P := fun ty ↦ isKeyword ty.name = true)
      (fun _ _ _ ↦ namedType_of_run) htypes

theorem opType_of_run {input rest : List Token} {opType : OpType}
    (h : parseOpType.run input = some (opType, rest)) : opType.Named := by
  obtain ⟨operands, _, hoperands, h⟩ := run_bind_eq_some.mp h
  obtain ⟨_, _, -, h⟩ := run_bind_eq_some.mp h
  obtain ⟨results, _, hresults, h⟩ := run_bind_eq_some.mp h
  simp only [OpType.getChecked] at h
  split_ifs at h with hnodup
  · obtain ⟨rfl, -⟩ := Prod.mk.inj (Option.some.inj h)
    exact ⟨valueList_of_run hoperands, valueList_of_run hresults⟩
  · exact absurd h (by simp [liftM, monadLift, MonadLift.monadLift, StateT.run, StateT.lift])

theorem namedConstraint_of_run {C : Type} {parse : ℕ → SpecParser C} {input rest : List Token}
    {constraint : NamedConstraint C}
    (h : (parseNamedConstraint parse).run input = some (constraint, rest)) :
    isKeyword constraint.name = true := by
  obtain ⟨name, _, hname, h⟩ := run_bind_eq_some.mp h
  obtain ⟨_, _, -, h⟩ := run_bind_eq_some.mp h
  obtain ⟨_, _, -, h⟩ := run_bind_eq_some.mp h
  obtain ⟨rfl, -⟩ := Prod.mk.inj (Option.some.inj h)
  exact isKeyword_of_run hname

theorem constraintList_of_run {C : Type} {parse : ℕ → SpecParser C} {left right : Token}
    {input rest : List Token} {constraints : List (NamedConstraint C)}
    (h : (parseOptionalConstraintList parse left right).run input = some (constraints, rest)) :
    ∀ constraint ∈ constraints, isKeyword constraint.name = true := by
  obtain ⟨more, _, -, h⟩ := run_bind_eq_some.mp h
  cases more with
  | false =>
    obtain ⟨rfl, -⟩ := Prod.mk.inj (Option.some.inj h)
    simp
  | true =>
    obtain ⟨constraints', _, hlist, h⟩ := run_bind_eq_some.mp h
    obtain ⟨_, _, -, h⟩ := run_bind_eq_some.mp h
    obtain ⟨rfl, -⟩ := Prod.mk.inj (Option.some.inj h)
    exact mem_of_run_sepList (P := fun constraint ↦ isKeyword constraint.name = true)
      (fun _ _ _ ↦ namedConstraint_of_run) hlist

theorem regionList_of_run {input rest : List Token} {opRegions : OpRegion}
    (h : parseOptionalRegionList.run input = some (opRegions, rest)) :
    ∀ region ∈ opRegions.regions, isKeyword region.name = true := by
  obtain ⟨regions, _, hregions, h⟩ := run_bind_eq_some.mp h
  simp only [OpRegion.getChecked] at h
  split_ifs at h with hnodup
  · obtain ⟨rfl, -⟩ := Prod.mk.inj (Option.some.inj h)
    exact constraintList_of_run hregions
  · exact absurd h (by simp [liftM, monadLift, MonadLift.monadLift, StateT.run, StateT.lift])

theorem operationOp_of_run {input rest : List Token} {op : OperationOp}
    (h : OperationOp.parse.run input = some (op, rest)) : op.Named := by
  obtain ⟨name, _, -, h⟩ := run_bind_eq_some.mp h
  obtain ⟨opType, _, hopType, h⟩ := run_bind_eq_some.mp h
  obtain ⟨opAttrs, _, -, h⟩ := run_bind_eq_some.mp h
  obtain ⟨opRegions, _, hregions, h⟩ := run_bind_eq_some.mp h
  obtain ⟨opSuccs, _, -, h⟩ := run_bind_eq_some.mp h
  obtain ⟨opTraits, _, -, h⟩ := run_bind_eq_some.mp h
  obtain ⟨more, _, -, h⟩ := run_bind_eq_some.mp h
  have hnamed : ∀ config : List (String × Attr), OperationOp.Named
      { name, opType, opAttrs, opRegions, opSuccs, opTraits, config } :=
    fun _ ↦ ⟨opType_of_run hopType, regionList_of_run hregions⟩
  cases more with
  | false =>
    obtain ⟨rfl, -⟩ := Prod.mk.inj (Option.some.inj h)
    exact hnamed []
  | true =>
    obtain ⟨config, _, -, h⟩ := run_bind_eq_some.mp h
    obtain ⟨rfl, -⟩ := Prod.mk.inj (Option.some.inj h)
    exact hnamed config

/-- With traits in front of them, no successors are read. -/
theorem successors_of_run {op op' : OperationOp} (h : op.Named) (htraits : op.opTraits ≠ [])
    {rest : List Token} (hparse : OperationOp.parse.run (op.print lexer) = some (op', rest)) :
    op'.opSuccs.successors = [] := by
  obtain ⟨trait, traits, htraits⟩ := List.exists_cons_of_ne_nil htraits
  rw [OperationOp.print, htraits] at hparse
  set text := printOptionalSuccessorList lexer op.opSuccs ++
    (.word "config" :: printOptionalAttrDict op.config)
  have hnone : (printOptionalOpTraitList (trait :: traits) ++ text).head? =
      some (.word "traits") := rfl
  rw [← List.singleton_append] at hparse
  unfold OperationOp.parse at hparse
  rw [Reads.run_bind (reads_symbolName op.name _), Reads.run_bind (reads_opType lexer h.opType _),
    Reads.run_bind (reads_attrDict op.opAttrs _),
    Reads.run_bind (reads_optionalRegionList lexer h.regions (by simp [hnone])),
    ← List.nil_append (printOptionalOpTraitList _ ++ text),
    Reads.run_bind (reads_optionalSuccessorList_nil (by simp [hnone]))] at hparse
  obtain ⟨opTraits, _, -, hparse⟩ := run_bind_eq_some.mp hparse
  obtain ⟨more, _, -, hparse⟩ := run_bind_eq_some.mp hparse
  cases more with
  | false =>
    obtain ⟨rfl, -⟩ := Prod.mk.inj (Option.some.inj hparse)
    rfl
  | true =>
    obtain ⟨config, _, -, hparse⟩ := run_bind_eq_some.mp hparse
    obtain ⟨rfl, -⟩ := Prod.mk.inj (Option.some.inj hparse)
    rfl

theorem namedParameter_of_run {input rest : List Token} {param : NamedParameter}
    (h : parseNamedParameter.run input = some (param, rest)) : isKeyword param.name = true := by
  obtain ⟨name, _, hname, h⟩ := run_bind_eq_some.mp h
  obtain ⟨_, _, -, h⟩ := run_bind_eq_some.mp h
  obtain ⟨constraint, _, -, h⟩ := run_bind_eq_some.mp h
  have hchecked : ∀ constraint, ∀ {mid : List Token},
      (liftM (NamedParameter.getChecked name constraint) : SpecParser NamedParameter).run mid =
        some (param, rest) → param.name = name := by
    intro constraint mid h
    simp only [NamedParameter.getChecked] at h
    split_ifs at h
    · obtain ⟨rfl, -⟩ := Prod.mk.inj (Option.some.inj h)
      rfl
    · exact absurd h (by simp [liftM, monadLift, MonadLift.monadLift, StateT.run, StateT.lift])
  have hparam : param.name = name := by
    cases constraint <;> exact hchecked _ h
  rw [hparam]
  exact isKeyword_of_run hname

theorem parametersOp_of_run {input rest : List Token} {op : ParametersOp}
    (h : parseParametersOp.run input = some (op, rest)) : op.Named := by
  obtain ⟨name, _, -, h⟩ := run_bind_eq_some.mp h
  obtain ⟨params, _, hparams, h⟩ := run_bind_eq_some.mp h
  obtain ⟨attrs, _, -, h⟩ := run_bind_eq_some.mp h
  obtain ⟨rfl, -⟩ := Prod.mk.inj (Option.some.inj h)
  have hnames : ∀ param ∈ params, isKeyword param.name = true := by
    obtain ⟨more, _, -, hparams⟩ := run_bind_eq_some.mp hparams
    cases more with
    | false =>
      obtain ⟨rfl, -⟩ := Prod.mk.inj (Option.some.inj hparams)
      simp
    | true =>
      obtain ⟨params', _, hlist, hparams⟩ := run_bind_eq_some.mp hparams
      obtain ⟨_, _, -, hparams⟩ := run_bind_eq_some.mp hparams
      obtain ⟨rfl, -⟩ := Prod.mk.inj (Option.some.inj hparams)
      exact mem_of_run_sepList (P := fun param ↦ isKeyword param.name = true)
        (fun _ _ _ ↦ namedParameter_of_run) hlist
  intro param hmem
  obtain ⟨named, hnamed, rfl⟩ := List.mem_map.mp hmem
  exact ⟨named, rfl, hnames named hnamed⟩

/-- An alias to an attribute that is read back is not an alias to a type. -/
theorem aliasOp_of_run {op : AliasOp} {attr : Attr} (hattr : op.aliasedAttr = some attr)
    {text rest : List Token}
    (h : AliasOp.parse.run
      (.symbol op.name :: .arrow :: (printAttribute attr ++ text)) = some (op, rest)) :
    op.aliasedType = none ∧ attr.isType = false := by
  rw [← List.singleton_append] at h
  unfold AliasOp.parse at h
  rw [Reads.run_bind (reads_symbolName op.name _), ← List.singleton_append,
    Reads.run_bind (Reads.expect _ _), ← List.nil_append (printAttribute attr ++ text),
    Reads.run_bind (Reads.peek isTypeToken _)] at h
  cases attr with
  | type ty =>
    obtain ⟨ty', _, -, h⟩ := run_bind_eq_some.mp h
    obtain ⟨attrs, _, -, h⟩ := run_bind_eq_some.mp h
    have hop := congrArg AliasOp.aliasedAttr (Prod.mk.inj (Option.some.inj h)).1
    rw [hattr] at hop
    cases hop
  | integer _ | string _ | ofType _ | constraint _ | other _ =>
    obtain ⟨attr', _, -, h⟩ := run_bind_eq_some.mp h
    obtain ⟨attrs, _, -, h⟩ := run_bind_eq_some.mp h
    have hop := congrArg AliasOp.aliasedType (Prod.mk.inj (Option.some.inj h)).1
    exact ⟨hop.symm, rfl⟩

/-! ## Round trips -/

/-- The printed text is read back as the same op, whatever follows. -/
def SpecOp.RoundTrips (op : SpecOp) : Prop :=
  ∃ text, op.print lexer = some text ∧ ∀ rest, FollowsOp rest → Reads SpecOp.parse text op rest

/-- Where the printer writes what the parser reads. -/
def SpecOp.Printable : SpecOp → Prop
  | operationOp op => op.Named ∧ op.opSuccs.successors = []
  | typeOp op => op.Named
  | attributeOp op => op.Named ∧ op.attrs = []
  | aliasOp op =>
    op.getAliasedType = none → op.aliasedType = none ∧ ∀ attr ∈ op.aliasedAttr, attr.isType = false

theorem roundTrips_operationOp_iff {op : OperationOp} (hverify : op.verify = .ok ()) :
    SpecOp.RoundTrips lexer (.operationOp op) ↔ SpecOp.Printable (.operationOp op) := by
  constructor
  · rintro ⟨text, hprint, hreads⟩
    obtain rfl := Option.some.inj hprint
    have hparse := hreads [] followsOp_nil
    rw [Reads, List.append_nil, SpecOp.parse, ← List.singleton_append,
      Reads.run_bind (reads_word (by decide) _), if_pos rfl, run_map_eq_some] at hparse
    obtain ⟨op', hparse, hop⟩ := hparse
    obtain rfl := SpecOp.operationOp.inj hop
    have hnamed := operationOp_of_run hparse
    refine ⟨hnamed, ?_⟩
    by_contra hsuccs
    have hterminator := (OperationOp.verify_ok hverify).2.2.2 hsuccs
    apply hsuccs
    apply successors_of_run lexer hnamed _ hparse
    rintro hnone
    simp [hasTrait, hnone] at hterminator
  · rintro ⟨hnamed, hsuccs⟩
    refine ⟨_, rfl, fun rest hrest ↦ ?_⟩
    apply Reads.bind_cons (reads_word (by decide) _)
    exact (reads_operationOp lexer hnamed hsuccs hrest.head_ne.1).map _

theorem ParametersOp.named_of_map {op : ParametersOp} {named : List NamedParameter}
    (hparams : op.params = named.map .named) (h : op.Named) :
    ∀ param ∈ named, isKeyword param.name = true := by
  intro param hmem
  obtain ⟨param', hparam', hname⟩ := h (.named param) (by rw [hparams]; exact List.mem_map_of_mem hmem)
  rw [Parameter.named.inj hparam']
  exact hname

theorem ParametersOp.Named.exists_map {op : ParametersOp} (h : op.Named) :
    ∃ named : List NamedParameter, op.params = named.map .named ∧
      ∀ param ∈ named, isKeyword param.name = true := by
  have hmem : op.params ∈ Set.range (List.map Parameter.named) := by
    rw [Set.range_list_map]
    intro param hparam
    obtain ⟨named, rfl, -⟩ := h param hparam
    exact ⟨named, rfl⟩
  obtain ⟨named, hparams⟩ := hmem
  exact ⟨named, hparams.symm, named_of_map hparams.symm h⟩

theorem roundTrips_typeOp_iff {op : ParametersOp} :
    SpecOp.RoundTrips lexer (.typeOp op) ↔ SpecOp.Printable (.typeOp op) := by
  constructor
  · rintro ⟨text, hprint, hreads⟩
    have hparse := hreads [] followsOp_nil
    obtain ⟨text, -, rfl⟩ := Option.map_eq_some_iff.mp hprint
    rw [Reads, List.append_nil, SpecOp.parse, ← List.singleton_append,
      Reads.run_bind (reads_word (by decide) _), if_neg (by decide), if_pos rfl,
      run_map_eq_some] at hparse
    obtain ⟨op', hparse, hop⟩ := hparse
    obtain rfl := SpecOp.typeOp.inj hop
    exact parametersOp_of_run hparse
  · intro hnamed
    obtain ⟨named, hparams, hnames⟩ := ParametersOp.Named.exists_map hnamed
    have hprint : TypeOp.print lexer op =
        some (.symbol op.name :: (printParameters lexer named ++ printOptionalAttrDict op.attrs)) := by
      simp [TypeOp.print, mapM_getNamed_eq_some.mpr hparams]
    refine ⟨_, by rw [SpecOp.print, hprint]; rfl, fun rest hrest ↦ ?_⟩
    apply Reads.bind_cons (reads_word (by decide) _)
    rw [if_neg (by decide), if_pos rfl]
    exact (reads_parametersOp lexer hparams hnames hrest).map _

theorem roundTrips_attributeOp_iff {op : ParametersOp} :
    SpecOp.RoundTrips lexer (.attributeOp op) ↔ SpecOp.Printable (.attributeOp op) := by
  have hprint : ∀ named : List NamedParameter, op.params = named.map .named →
      AttributeOp.print lexer op = some (.symbol op.name :: printParameters lexer named) := by
    intro named hparams
    simp [AttributeOp.print, mapM_getNamed_eq_some.mpr hparams]
  constructor
  · rintro ⟨text, hprint', hreads⟩
    have hparse := hreads [] followsOp_nil
    obtain ⟨text, htext, rfl⟩ := Option.map_eq_some_iff.mp hprint'
    rw [Reads, List.append_nil, SpecOp.parse, ← List.singleton_append,
      Reads.run_bind (reads_word (by decide) _), if_neg (by decide), if_neg (by decide),
      if_pos rfl, run_map_eq_some] at hparse
    obtain ⟨op', hparse, hop⟩ := hparse
    obtain rfl := SpecOp.attributeOp.inj hop
    have hnamed := parametersOp_of_run hparse
    refine ⟨hnamed, ?_⟩
    obtain ⟨named, hparams, hnames⟩ := ParametersOp.Named.exists_map hnamed
    -- the printed text is that of the op without its attributes
    have hbare := @reads_parametersOp lexer { op' with attrs := [] } named hparams hnames []
      followsOp_nil
    rw [hprint named hparams, Option.some.injEq] at htext
    rw [Reads, List.append_nil] at hbare
    simp only [printOptionalAttrDict, List.isEmpty_nil, if_true, List.append_nil, htext] at hbare
    rw [AttributeOp.parse, hbare] at hparse
    exact (congrArg ParametersOp.attrs (Prod.mk.inj (Option.some.inj hparse)).1).symm
  · rintro ⟨hnamed, hattrs⟩
    obtain ⟨named, hparams, hnames⟩ := ParametersOp.Named.exists_map hnamed
    refine ⟨_, by rw [SpecOp.print, hprint named hparams]; rfl, fun rest hrest ↦ ?_⟩
    have hreads := reads_parametersOp lexer hparams hnames hrest
    rw [hattrs, printOptionalAttrDict, List.isEmpty_nil, if_pos rfl, List.append_nil] at hreads
    apply Reads.bind_cons (reads_word (by decide) _)
    rw [if_neg (by decide), if_neg (by decide), if_pos rfl]
    exact hreads.map _

theorem AliasOp.verify_ok {op : AliasOp} (h : op.verify = .ok ()) :
    (op.getAliasedType = none → op.aliasedAttr ≠ none) ∧
      (op.getAliasedType ≠ none → op.aliasedAttr = none) := by
  unfold AliasOp.verify at h
  constructor
  · intro htype hattr
    simp [htype, hattr, bind, Except.bind] at h
  · intro htype
    obtain ⟨ty, htype⟩ := Option.ne_none_iff_exists'.mp htype
    by_contra hattr
    obtain ⟨attr, hattr⟩ := Option.ne_none_iff_exists'.mp hattr
    simp [htype, hattr, bind, Except.bind] at h

theorem aliasedType_of_getAliasedType {op : AliasOp} {ty : Ty} (h : op.getAliasedType = some ty) :
    op.aliasedType = some (.type ty) := by
  unfold AliasOp.getAliasedType at h
  split at h
  · rename_i ty' htype
    rw [htype, Option.some.inj h]
  · cases h

theorem roundTrips_aliasOp_iff {op : AliasOp} (hverify : op.verify = .ok ()) :
    SpecOp.RoundTrips lexer (.aliasOp op) ↔ SpecOp.Printable (.aliasOp op) := by
  obtain ⟨hsome, hnone⟩ := AliasOp.verify_ok hverify
  cases htype : op.getAliasedType with
  | some ty =>
    have haliased := aliasedType_of_getAliasedType htype
    have hattr := hnone (by simp [htype])
    refine iff_of_true ?_ (by simp [SpecOp.Printable, htype])
    have hprint : op.print =
        some (.symbol op.name :: .arrow :: .type ty :: printOptionalAttrDict op.attrs) := by
      simp [AliasOp.print, htype]
    refine ⟨_, by rw [SpecOp.print, hprint]; rfl, fun rest hrest ↦ ?_⟩
    apply Reads.bind_cons (reads_word (by decide) _)
    rw [if_neg (by decide), if_neg (by decide), if_neg (by decide), if_pos rfl]
    exact (reads_aliasOp_type haliased hattr hrest).map _
  | none =>
    obtain ⟨attr, hattr⟩ := Option.ne_none_iff_exists'.mp (hsome htype)
    have hprint : op.print = some (.symbol op.name :: .arrow ::
        (printAttribute attr ++ printOptionalAttrDict op.attrs)) := by
      simp [AliasOp.print, htype, hattr]
    simp only [SpecOp.Printable, htype, hattr, forall_const, Option.mem_some_iff, forall_eq']
    constructor
    · rintro ⟨text, hprint', hreads⟩
      have hparse := hreads [] followsOp_nil
      simp only [SpecOp.print, hprint, Option.map_some, Option.some.injEq] at hprint'
      subst hprint'
      rw [Reads, List.append_nil, SpecOp.parse, ← List.singleton_append,
        Reads.run_bind (reads_word (by decide) _), if_neg (by decide), if_neg (by decide),
        if_neg (by decide), if_pos rfl, run_map_eq_some] at hparse
      obtain ⟨op', hparse, hop⟩ := hparse
      obtain rfl := SpecOp.aliasOp.inj hop
      exact aliasOp_of_run hattr hparse
    · rintro ⟨haliased, hnotType⟩
      refine ⟨_, by rw [SpecOp.print, hprint]; rfl, fun rest hrest ↦ ?_⟩
      apply Reads.bind_cons (reads_word (by decide) _)
      rw [if_neg (by decide), if_neg (by decide), if_neg (by decide), if_pos rfl]
      exact (reads_aliasOp_attr haliased hattr hnotType hrest).map _

/-- A verified spec operation is read back exactly where it is printable. -/
theorem specOp_roundTrips_iff {op : SpecOp} (hverify : op.verify = .ok ()) :
    op.RoundTrips lexer ↔ op.Printable := by
  cases op with
  | operationOp op =>
    obtain ⟨_, -, hop⟩ := bind_eq_ok.mp hverify
    exact roundTrips_operationOp_iff lexer hop
  | typeOp op => exact roundTrips_typeOp_iff lexer
  | attributeOp op => exact roundTrips_attributeOp_iff lexer
  | aliasOp op => exact roundTrips_aliasOp_iff lexer hverify

end Sections

/-- Every name that is no keyword is an error of the lexer. -/
def Lexer.base : Lexer where
  lexName name := if isKeyword name then [.word name] else [.error name]
  lexName_keyword name h := by simp [h]

/-- A terminator with a region, and a configuration. -/
def regionTerminator : OperationOp where
  name := "yield"
  opType := ⟨[⟨"x", .leaf .any⟩], [], List.nodup_singleton "x", List.nodup_nil⟩
  opAttrs := []
  opRegions := ⟨[⟨"body", .sized 1⟩], List.nodup_singleton "body"⟩
  opSuccs := ⟨[], List.nodup_nil⟩
  opTraits := [⟨"IsTerminator", []⟩, ⟨"NOperands", [.integer 1]⟩]
  config := [("is_isolated", .other 0)]

theorem specOp_roundTrips_regionTerminator :
    (SpecOp.operationOp regionTerminator).RoundTrips .base := by
  apply (specOp_roundTrips_iff Lexer.base rfl).mpr
  exact ⟨⟨⟨by decide, by decide⟩, by decide⟩, rfl⟩

def branch : OperationOp where
  name := "br"
  opType := ⟨[], [], List.nodup_nil, List.nodup_nil⟩
  opAttrs := []
  opRegions := ⟨[], List.nodup_nil⟩
  opSuccs := ⟨[⟨"dest", .any⟩], List.nodup_singleton "dest"⟩
  opTraits := [⟨"IsTerminator", []⟩]
  config := []

/-- An attribute with an assembly format. -/
def formatted : ParametersOp where
  name := "pair"
  params := [.named ⟨"first", .constraint 0, rfl⟩]
  attrs := [("fmt", .string "$first")]

theorem specOp_not_roundTrips :
    ((SpecOp.operationOp branch).verify = .ok () ∧
      ¬ (SpecOp.operationOp branch).RoundTrips .base) ∧
    (SpecOp.attributeOp formatted).verify = .ok () ∧
      ¬ (SpecOp.attributeOp formatted).RoundTrips .base := by
  refine ⟨⟨rfl, ?_⟩, rfl, ?_⟩
  · rw [roundTrips_operationOp_iff Lexer.base rfl]
    rintro ⟨-, hsuccs⟩
    cases hsuccs
  · rw [roundTrips_attributeOp_iff]
    rintro ⟨-, hattrs⟩
    cases hattrs

end DeclarativeMlir.Spec

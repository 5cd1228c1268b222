import DeclarativeMlir.Spec.ConstraintRoundTrip

/-!
# Round trips of attribute constraints

Which attribute constraints come back from their text: those with types that come back, and with
Python expressions in which nothing has to be escaped.
-/

namespace DeclarativeMlir.Spec

open TokenParsing DialectAsmParser

/-! ## Leaf constraints -/

def LeafAttr.plain (strings : StringLexer) : LeafAttr → Bool
  | py expr => strings.plain expr
  | _ => true

def LeafAttr.weight : LeafAttr → ℕ
  | py expr => expr.length
  | _ => 0

mutual

def Attribute.plain (strings : StringLexer) : Attribute → Bool
  | .builtin _ types attrs => Ty.plainList strings types && Attribute.plainList strings attrs
  | .symbolRefAttr _ _ => true
  | .leaf constraint => constraint.plain strings
  | .elementsOf type | .ofType type => type.plain strings
  | .arrayOf attr | .constant attr | .optional attr => attr.plain strings
  | .anyOf attrs | .allOf attrs => Attribute.plainList strings attrs
  | .default baseAttr defaultAttr => baseAttr.plain strings && defaultAttr.plain strings

def Attribute.plainList (strings : StringLexer) : List Attribute → Bool
  | [] => true
  | attr :: attrs => attr.plain strings && Attribute.plainList strings attrs

end

mutual

def Attribute.weight : Attribute → ℕ
  | .builtin _ types attrs => Ty.weightList types + Attribute.weightList attrs
  | .symbolRefAttr _ _ => 0
  | .leaf constraint => constraint.weight
  | .elementsOf type | .ofType type => type.weight
  | .arrayOf attr | .constant attr | .optional attr => attr.weight
  | .anyOf attrs | .allOf attrs => Attribute.weightList attrs
  | .default baseAttr defaultAttr => baseAttr.weight + defaultAttr.weight

def Attribute.weightList : List Attribute → ℕ
  | [] => 0
  | attr :: attrs => attr.weight + Attribute.weightList attrs

end

-- The equations are made once, here, and not by all the proofs below at the same time.
attribute [grind =] Attribute.plain Attribute.plainList Attribute.weight Attribute.weightList

theorem Attribute.plainList_eq_all (strings : StringLexer) (attrs : List Attribute) :
    Attribute.plainList strings attrs = attrs.all (Attribute.plain strings) := by
  induction attrs with
  | nil => rfl
  | cons attr attrs ih => rw [Attribute.plainList, ih, List.all_cons]

theorem Attribute.weightList_eq_sum (attrs : List Attribute) :
    Attribute.weightList attrs = (attrs.map Attribute.weight).sum := by
  induction attrs with
  | nil => rfl
  | cons attr attrs ih => rw [Attribute.weightList, ih, List.map_cons, List.sum_cons]

section Attributes

variable {ctx : Context}

theorem reparseAttr_of_yields {constraint : LeafAttr} {kind : AttrKind} {body : List Piece}
    {result : Option Attribute} (hprint : constraint.print = chars kind.getAttrName ++ body)
    (hbody : ∀ c, (lexemes ctx body).head? = some (.char c) → isIdChar c = false)
    (h : Yields (parseAttrOfKind ctx kind) (lexemes ctx body) result []) :
    reparseAttr ctx (.leaf constraint) = result := by
  rw [reparseAttr, printAttrText, hprint, parseAttrText_named ctx kind hbody]
  exact map_fst_of_yields h

theorem reparseAttr_simple {constraint : LeafAttr}
    (hprint : constraint.print = chars constraint.kind.getAttrName)
    (h : parseAttrOfKind ctx constraint.kind = SimpleAttr.parse constraint) :
    reparseAttr ctx (.leaf constraint) = some (.leaf constraint) := by
  rw [← List.append_nil (chars _)] at hprint
  apply reparseAttr_of_yields hprint
  · simp [lexemes]
  · rw [h]
    exact Yields.pure _ _

theorem of_getChecked_typedAttr {constraint : ℕ → LeafAttr} {verifyWidth : ℕ → Bool} {width : ℕ}
    {attr : Attribute} (h : TypedAttr.getChecked verifyWidth constraint width = some attr) :
    verifyWidth width = true ∧ attr = .leaf (constraint width) := by
  rw [TypedAttr.getChecked] at h
  split_ifs at h with hwidth
  exact ⟨hwidth, (Option.some.inj h).symm⟩

theorem reparseAttr_typedAttr {constraint : ℕ → LeafAttr} {verifyWidth : ℕ → Bool}
    {kind : AttrKind} {width : ℕ} {attr : Attribute} (hlt : width < 2 ^ 32)
    (hprint : (constraint width).print = chars kind.getAttrName ++ angle (printInteger width))
    (h : parseAttrOfKind ctx kind = TypedAttr.parse verifyWidth constraint)
    (hget : TypedAttr.getChecked verifyWidth constraint width = some attr) :
    reparseAttr ctx (.leaf (constraint width)) = some attr := by
  apply reparseAttr_of_yields hprint (ends_angle ctx _)
  rw [h, ← hget]
  exact yields_typedAttr hlt ctx

theorem attr_of_getChecked_rankedElements {dims : List ℕ} {attr : Attribute}
    (h : RankedElementsAttr.getChecked dims = some attr) :
    attr = .leaf (.rankedElements dims) := by
  rw [RankedElementsAttr.getChecked] at h
  split_ifs at h
  exact (Option.some.inj h).symm

theorem attr_of_getChecked_py {expr : String} {attr : Attribute}
    (h : PyAttr.getChecked ctx expr = some attr) : attr = .leaf (.py expr) := by
  rw [PyAttr.getChecked] at h
  split_ifs at h
  exact (Option.some.inj h).symm

theorem reparseAttr_py (expr : String) :
    reparseAttr ctx (.leaf (.py expr)) =
      ((PyAttr.parse ctx).run (lexemes ctx (angle (quoted expr)))).map Prod.fst := by
  have hprint : (LeafAttr.py expr).print = chars AttrKind.py.getAttrName ++ angle (quoted expr) :=
    rfl
  rw [reparseAttr, printAttrText, hprint, parseAttrText_named ctx _ (ends_angle ctx _)]
  rfl

/-- A constraint is what its check leaves. -/
theorem LeafAttr.of_getChecked {constraint : LeafAttr} {attr : Attribute}
    (hget : constraint.getChecked ctx = some attr) : attr = .leaf constraint := by
  cases constraint with
  | any | bool | index | apInt | string | type | unit | dictionary | elements | denseElements
  | stringElements | array | symbolRef | flatSymbolRef | isa _ _ =>
    cases hget
    rfl
  | anyI _ | i _ | si _ | ui _ | f _ => exact (of_getChecked_typedAttr hget).2
  | rankedElements dims => exact attr_of_getChecked_rankedElements hget
  | py expr => exact attr_of_getChecked_py hget

theorem LeafAttr.reparseAttr_of_plain {constraint : LeafAttr}
    (hplain : constraint.plain ctx.strings = true) (hfits : constraint.FitsInt64)
    (hget : constraint.getChecked ctx = some (.leaf constraint)) :
    reparseAttr ctx (.leaf constraint) = some (.leaf constraint) := by
  cases constraint with
  | any | bool | index | apInt | string | type | unit | dictionary | elements | denseElements
  | stringElements | array | symbolRef | flatSymbolRef => exact reparseAttr_simple rfl rfl
  | anyI width =>
    have hlt := verifyIntWidth_lt (of_getChecked_typedAttr hget).1
    exact @reparseAttr_typedAttr ctx .anyI _ .anyI width _ hlt rfl rfl hget
  | i width =>
    have hlt := verifyIntWidth_lt (of_getChecked_typedAttr hget).1
    exact @reparseAttr_typedAttr ctx .i _ .i width _ hlt rfl rfl hget
  | si width =>
    have hlt := verifyIntWidth_lt (of_getChecked_typedAttr hget).1
    exact @reparseAttr_typedAttr ctx .si _ .si width _ hlt rfl rfl hget
  | ui width =>
    have hlt := verifyIntWidth_lt (of_getChecked_typedAttr hget).1
    exact @reparseAttr_typedAttr ctx .ui _ .ui width _ hlt rfl rfl hget
  | f width =>
    have hlt := verifyFloatWidth_lt (of_getChecked_typedAttr hget).1
    exact @reparseAttr_typedAttr ctx .f _ .f width _ hlt rfl rfl hget
  | rankedElements dims =>
    have hprint : (LeafAttr.rankedElements dims).print =
        chars AttrKind.rankedElements.getAttrName ++ angle (printIntegerList dims) := rfl
    rw [reparseAttr_of_yields hprint (ends_angle ctx _) (yields_rankedElements ctx hfits)]
    exact hget
  | isa dialectRef attrRef =>
    have hprint : (LeafAttr.isa dialectRef attrRef).print =
        chars AttrKind.isa.getAttrName ++ angle [.attr (.symbolRefAttr dialectRef [attrRef])] := rfl
    exact reparseAttr_of_yields hprint (ends_angle ctx _) (yields_isaAttr ctx dialectRef [attrRef])
  | py expr =>
    have hparse : Yields (PyAttr.parse ctx) _ _ [] :=
      yields_checked (yields_expr hplain) (PyAttr.getChecked ctx)
    rw [reparseAttr_py, map_fst_of_yields hparse]
    exact hget

theorem LeafAttr.shrinks {constraint : LeafAttr} {attr' : Attribute}
    (hfits : constraint.FitsInt64) (hget : constraint.getChecked ctx = some (.leaf constraint))
    (h : reparseAttr ctx (.leaf constraint) = some attr') :
    Shrinks attr'.weight constraint.weight (constraint.plain ctx.strings) := by
  cases hplain : constraint.plain ctx.strings with
  | true =>
    rw [constraint.reparseAttr_of_plain hplain hfits hget] at h
    cases h
    exact Shrinks.rfl
  | false =>
    cases constraint with
    | py expr =>
      rw [reparseAttr_py] at h
      obtain ⟨value, rest, hexpr, hvalue⟩ := of_run_checked h
      obtain rfl := attr_of_getChecked_py hvalue
      obtain ⟨hle, heq⟩ := expr_of_run ctx hexpr
      exact ⟨hle, fun hweight ↦ hplain ▸ heq hweight⟩
    | _ => simp [LeafAttr.plain] at hplain

/-! ### Nested attributes -/

theorem mapM_printAttrTexts (attrs : List Attribute) :
    (printAttrTexts attrs).mapM (parseAttrText ctx) = attrs.mapM (reparseAttr ctx) := by
  rw [printAttrTexts_eq_map, List.mapM_map]
  rfl

theorem reparseAttr_builtin (id : ℕ) (types : List Ty) (attrs : List Attribute) :
    reparseAttr ctx (.builtin id types attrs) =
      (types.mapM (reparseType ctx)).bind fun types ↦
        (attrs.mapM (reparseAttr ctx)).map (.builtin id types) := by
  rw [reparseAttr, printAttrText, parseAttrText, parseTypeTexts_eq_mapM, parseAttrTexts_eq_mapM,
    mapM_printTypeTexts, mapM_printAttrTexts]
  simp only [Option.map_eq_bind]
  rfl

theorem reparseAttr_elementsOf (elTy : Ty) :
    reparseAttr ctx (.elementsOf elTy) = (reparseType ctx elTy).map .elementsOf := by
  rw [reparseAttr, printAttrText, parseAttrText_named ctx _ (ends_angle ctx _)]
  exact map_fst_of_yields (yields_ofType ctx Attribute.elementsOf (printTypeText elTy))

theorem reparseAttr_ofType (type : Ty) :
    reparseAttr ctx (.ofType type) = (reparseType ctx type).map .ofType := by
  rw [reparseAttr, printAttrText, parseAttrText_named ctx _ (ends_angle ctx _)]
  exact map_fst_of_yields (yields_ofType ctx Attribute.ofType (printTypeText type))

theorem reparseAttr_arrayOf (attr : Attribute) :
    reparseAttr ctx (.arrayOf attr) = (reparseAttr ctx attr).bind ArrayOfAttr.getChecked := by
  rw [reparseAttr, printAttrText, parseAttrText_named ctx _ (ends_angle ctx _)]
  exact map_fst_of_yields (yields_ofAttr ctx ArrayOfAttr.getChecked (printAttrText attr))

theorem reparseAttr_constant (attr : Attribute) :
    reparseAttr ctx (.constant attr) = (reparseAttr ctx attr).bind fun attr ↦
      some (.constant attr) := by
  rw [reparseAttr, printAttrText, parseAttrText_named ctx _ (ends_angle ctx _)]
  exact map_fst_of_yields
    (yields_ofAttr ctx (fun attr ↦ some (Attribute.constant attr)) (printAttrText attr))

theorem reparseAttr_optional (attr : Attribute) :
    reparseAttr ctx (.optional attr) = (reparseAttr ctx attr).bind fun attr ↦
      some (.optional attr) := by
  rw [reparseAttr, printAttrText, parseAttrText_named ctx _ (ends_angle ctx _)]
  exact map_fst_of_yields
    (yields_ofAttr ctx (fun attr ↦ some (Attribute.optional attr)) (printAttrText attr))

theorem reparseAttr_default (baseAttr defaultAttr : Attribute) :
    reparseAttr ctx (.default baseAttr defaultAttr) =
      (reparseAttr ctx baseAttr).bind fun baseAttr ↦
        (reparseAttr ctx defaultAttr).map (.default baseAttr) := by
  rw [reparseAttr, printAttrText, parseAttrText_named ctx _ (ends_angle ctx _)]
  exact map_fst_of_yields (yields_default ctx (printAttrText baseAttr) (printAttrText defaultAttr))

theorem reparseAttr_attrList {kind : AttrKind} {getChecked : List Attribute → Option Attribute}
    {attrs : List Attribute} (hne : attrs ≠ [])
    (h : parseAttrOfKind ctx kind = parseAttrList getChecked) :
    parseAttrText ctx (.dialect
      (chars kind.getAttrName ++ printAttrList (printAttrTexts attrs))) =
        (attrs.mapM (reparseAttr ctx)).bind getChecked := by
  have hne' : printAttrTexts attrs ≠ [] := by simpa [printAttrTexts_eq_map] using hne
  have hyields := yields_attrList ctx hne' getChecked
  have hends (c : Char)
      (hc : (lexemes ctx (printAttrList (printAttrTexts attrs))).head? = some (.char c)) :
      isIdChar c = false := ends_angle ctx _ c hc
  rw [parseAttrText_named ctx kind hends, h, ← mapM_printAttrTexts]
  exact map_fst_of_yields hyields

theorem reparseAttr_anyOf {attrs : List Attribute} (hne : attrs ≠ []) :
    reparseAttr ctx (.anyOf attrs) =
      (attrs.mapM (reparseAttr ctx)).bind (AnyOfAttr.getChecked ctx) :=
  @reparseAttr_attrList ctx .anyOf _ attrs hne rfl

theorem reparseAttr_allOf {attrs : List Attribute} (hne : attrs ≠ []) :
    reparseAttr ctx (.allOf attrs) =
      (attrs.mapM (reparseAttr ctx)).bind (AllOfAttr.getChecked ctx) :=
  @reparseAttr_attrList ctx .allOf _ attrs hne rfl

theorem of_getChecked_arrayOf {constraint attr : Attribute}
    (h : ArrayOfAttr.getChecked constraint = some attr) :
    SpecAttrs.is constraint = true ∧ attr = .arrayOf constraint := by
  rw [ArrayOfAttr.getChecked] at h
  split_ifs at h with his
  exact ⟨his, (Option.some.inj h).symm⟩

theorem of_getChecked_anyOfAttr {attrs : List Attribute} {attr : Attribute}
    (h : AnyOfAttr.getChecked ctx attrs = some attr) :
    verifyAttrList (getSortedAttrs ctx attrs) = true ∧
      attr = .anyOf (getSortedAttrs ctx attrs) := by
  simp only [AnyOfAttr.getChecked] at h
  split_ifs at h with hlist
  exact ⟨hlist, (Option.some.inj h).symm⟩

theorem of_getChecked_allOfAttr {attrs : List Attribute} {attr : Attribute}
    (h : AllOfAttr.getChecked ctx attrs = some attr) :
    verifyAttrList (getSortedAttrs ctx attrs) = true ∧
      attr = .allOf (getSortedAttrs ctx attrs) := by
  simp only [AllOfAttr.getChecked] at h
  split_ifs at h with hlist
  exact ⟨hlist, (Option.some.inj h).symm⟩

theorem ne_nil_of_verifyAttrList {attrs : List Attribute} (h : verifyAttrList attrs = true) :
    attrs ≠ [] := by
  rintro rfl
  simp [verifyAttrList] at h

theorem getSortedAttrs_idem (attrs : List Attribute) :
    getSortedAttrs ctx (getSortedAttrs ctx attrs) = getSortedAttrs ctx attrs := by
  apply List.mergeSort_of_pairwise
  apply List.pairwise_mergeSort
  · intro a b c hab hbc
    simp only [decide_eq_true_eq] at hab hbc ⊢
    exact le_trans hab hbc
  · intro a b
    simpa using le_total (ctx.attrAddress a) (ctx.attrAddress b)

theorem mem_getSortedAttrs {attr : Attribute} {attrs : List Attribute} :
    attr ∈ getSortedAttrs ctx attrs ↔ attr ∈ attrs := List.mem_mergeSort

theorem weightList_getSortedAttrs (attrs : List Attribute) :
    Attribute.weightList (getSortedAttrs ctx attrs) = Attribute.weightList attrs := by
  rw [Attribute.weightList_eq_sum, Attribute.weightList_eq_sum]
  exact ((List.mergeSort_perm attrs _).map Attribute.weight).sum_nat

/-- Plain attributes are read back. -/
theorem Attribute.Constructible.reparseAttr_of_plain {attr : Attribute}
    (hctor : attr.Constructible ctx) (hplain : attr.plain ctx.strings = true) :
    reparseAttr ctx attr = some attr := by
  induction hctor with
  | @builtin id types attrs htypes _ ih =>
    rw [Attribute.plain, Bool.and_eq_true, Ty.plainList_eq_all, Attribute.plainList_eq_all,
      List.all_eq_true, List.all_eq_true] at hplain
    rw [reparseAttr_builtin,
      mapM_eq_self fun type htype ↦ (htypes type htype).reparseType_of_plain (hplain.1 type htype),
      mapM_eq_self fun attr hattr ↦ ih attr hattr (hplain.2 attr hattr)]
    rfl
  | symbolRefAttr root nested => rfl
  | leaf hfits hget =>
    obtain rfl := LeafAttr.of_getChecked hget
    exact LeafAttr.reparseAttr_of_plain hplain hfits hget
  | @elementsOf elTy hel =>
    rw [reparseAttr_elementsOf, hel.reparseType_of_plain hplain, Option.map_some]
  | arrayOf _ hget ih =>
    obtain ⟨-, rfl⟩ := of_getChecked_arrayOf hget
    rw [reparseAttr_arrayOf, ih hplain, Option.bind_some, hget]
  | @constant attr _ ih => rw [reparseAttr_constant, ih hplain, Option.bind_some]
  | @anyOf attrs attr _ hget ih =>
    obtain ⟨hlist, rfl⟩ := of_getChecked_anyOfAttr hget
    rw [Attribute.plain, Attribute.plainList_eq_all, List.all_eq_true] at hplain
    rw [reparseAttr_anyOf (ne_nil_of_verifyAttrList hlist), mapM_eq_self fun attr hattr ↦
      ih attr (mem_getSortedAttrs.mp hattr) (hplain attr hattr), Option.bind_some,
      AnyOfAttr.getChecked, getSortedAttrs_idem, if_pos hlist]
  | @allOf attrs attr _ hget ih =>
    obtain ⟨hlist, rfl⟩ := of_getChecked_allOfAttr hget
    rw [Attribute.plain, Attribute.plainList_eq_all, List.all_eq_true] at hplain
    rw [reparseAttr_allOf (ne_nil_of_verifyAttrList hlist), mapM_eq_self fun attr hattr ↦
      ih attr (mem_getSortedAttrs.mp hattr) (hplain attr hattr), Option.bind_some,
      AllOfAttr.getChecked, getSortedAttrs_idem, if_pos hlist]
  | @ofType type htype =>
    rw [reparseAttr_ofType, htype.reparseType_of_plain hplain, Option.map_some]
  | @optional attr _ ih => rw [reparseAttr_optional, ih hplain, Option.bind_some]
  | @default baseAttr defaultAttr _ _ ihbase ihdefault =>
    rw [Attribute.plain, Bool.and_eq_true] at hplain
    rw [reparseAttr_default, ihbase hplain.1, ihdefault hplain.2]
    rfl

theorem Attribute.Constructible.shrinks {attr attr' : Attribute} (hctor : attr.Constructible ctx)
    (h : reparseAttr ctx attr = some attr') :
    Shrinks attr'.weight attr.weight (attr.plain ctx.strings) := by
  induction hctor generalizing attr' with
  | @builtin id types attrs htypes _ ih =>
    rw [reparseAttr_builtin] at h
    obtain ⟨types', htypes', h⟩ := Option.bind_eq_some_iff.mp h
    obtain ⟨attrs', hattrs', rfl⟩ := Option.map_eq_some_iff.mp h
    have hshrinks := shrinks_list (fun type htype _ ↦ (htypes type htype).shrinks) htypes'
    have hshrinks' := shrinks_list (fun attr hattr _ ↦ ih attr hattr) hattrs'
    rw [Attribute.plain, Attribute.weight, Attribute.weight]
    simp only [Ty.weightList_eq_sum, Ty.plainList_eq_all, Attribute.weightList_eq_sum,
      Attribute.plainList_eq_all]
    exact hshrinks.add hshrinks'
  | symbolRefAttr root nested =>
    cases h
    exact Shrinks.rfl
  | leaf hfits hget =>
    obtain rfl := LeafAttr.of_getChecked hget
    exact LeafAttr.shrinks hfits hget h
  | elementsOf hel =>
    rw [reparseAttr_elementsOf] at h
    obtain ⟨elTy', hel', rfl⟩ := Option.map_eq_some_iff.mp h
    exact hel.shrinks hel'
  | arrayOf _ hget ih =>
    obtain ⟨-, rfl⟩ := of_getChecked_arrayOf hget
    rw [reparseAttr_arrayOf] at h
    obtain ⟨attr', hattr, h⟩ := Option.bind_eq_some_iff.mp h
    obtain ⟨-, rfl⟩ := of_getChecked_arrayOf h
    have hshrinks := ih hattr
    exact hshrinks
  | constant _ ih =>
    rw [reparseAttr_constant] at h
    obtain ⟨attr', hattr, h⟩ := Option.bind_eq_some_iff.mp h
    cases h
    have hshrinks := ih hattr
    exact hshrinks
  | @anyOf attrs attr _ hget ih =>
    obtain ⟨hlist, rfl⟩ := of_getChecked_anyOfAttr hget
    rw [reparseAttr_anyOf (ne_nil_of_verifyAttrList hlist)] at h
    obtain ⟨attrs', hattrs', h⟩ := Option.bind_eq_some_iff.mp h
    obtain ⟨-, rfl⟩ := of_getChecked_anyOfAttr h
    have hshrinks := shrinks_list (fun attr hattr _ ↦ ih attr (mem_getSortedAttrs.mp hattr)) hattrs'
    rw [Attribute.plain, Attribute.weight, Attribute.weight, weightList_getSortedAttrs attrs']
    simp only [Attribute.weightList_eq_sum, Attribute.plainList_eq_all]
    exact hshrinks
  | @allOf attrs attr _ hget ih =>
    obtain ⟨hlist, rfl⟩ := of_getChecked_allOfAttr hget
    rw [reparseAttr_allOf (ne_nil_of_verifyAttrList hlist)] at h
    obtain ⟨attrs', hattrs', h⟩ := Option.bind_eq_some_iff.mp h
    obtain ⟨-, rfl⟩ := of_getChecked_allOfAttr h
    have hshrinks := shrinks_list (fun attr hattr _ ↦ ih attr (mem_getSortedAttrs.mp hattr)) hattrs'
    rw [Attribute.plain, Attribute.weight, Attribute.weight, weightList_getSortedAttrs attrs']
    simp only [Attribute.weightList_eq_sum, Attribute.plainList_eq_all]
    exact hshrinks
  | ofType htype =>
    rw [reparseAttr_ofType] at h
    obtain ⟨type', htype', rfl⟩ := Option.map_eq_some_iff.mp h
    exact htype.shrinks htype'
  | optional _ ih =>
    rw [reparseAttr_optional] at h
    obtain ⟨attr', hattr, h⟩ := Option.bind_eq_some_iff.mp h
    cases h
    have hshrinks := ih hattr
    exact hshrinks
  | default _ _ ihbase ihdefault =>
    rw [reparseAttr_default] at h
    obtain ⟨base', hbase, h⟩ := Option.bind_eq_some_iff.mp h
    obtain ⟨default', hdefault, rfl⟩ := Option.map_eq_some_iff.mp h
    exact (ihbase hbase).add (ihdefault hdefault)

/-- An attribute is read back exactly if it is plain. -/
theorem Attribute.Constructible.reparseAttr_iff {attr : Attribute}
    (hctor : attr.Constructible ctx) :
    reparseAttr ctx attr = some attr ↔ attr.plain ctx.strings = true :=
  ⟨fun h ↦ (hctor.shrinks h).plain_of_eq rfl, hctor.reparseAttr_of_plain⟩

end Attributes

end DeclarativeMlir.Spec

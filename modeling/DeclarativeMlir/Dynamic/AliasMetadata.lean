import DeclarativeMlir.Dynamic.Registration

/-!
# Atomicity of registration and metadata of aliases

An alias index has what the dialects record of the aliases of one kind. Registering an alias keeps
every aliased value in the back-lookup map of its dialect and among the symbols of the context. The
last section shows at which calls registration is atomic, and in which sequences of calls the
metadata of every alias can be found.
-/

set_option linter.unusedSectionVars false

namespace DeclarativeMlir.Dynamic

open Transactions

/-! ## Alias indices -/

/-- The aliases of all dialects by name, the aliases by value, and the dialects of the values. -/
structure AliasIndex (Dialect V A : Type) where
  aliases : Dialect → String → Option A
  data : Dialect → V → Option A
  symbols : V → Option Dialect

namespace AliasIndex

variable {Dialect V A : Type} [DecidableEq Dialect] [DecidableEq V]

def addName (index : AliasIndex Dialect V A) (dialect : Dialect) (name : String) (entry : A) :
    AliasIndex Dialect V A :=
  { index with
    aliases := Function.update index.aliases dialect
      (Function.update (index.aliases dialect) name (some entry)) }

def addData (index : AliasIndex Dialect V A) (dialect : Dialect) (value : V) (entry : A) :
    AliasIndex Dialect V A :=
  { index with
    data := Function.update index.data dialect
      (Function.update (index.data dialect) value (some entry)) }

def addSymbol (index : AliasIndex Dialect V A) (dialect : Dialect) (value : V) :
    AliasIndex Dialect V A :=
  { index with symbols := Function.update index.symbols value (some dialect) }

/-- The effect of registering an alias, whether or not it fails. -/
def register (index : AliasIndex Dialect V A) (dialect : Dialect) (name : String) (value : V)
    (entry : A) : AliasIndex Dialect V A :=
  if (index.aliases dialect name).isSome then index
  else if (index.data dialect value).isSome then index.addName dialect name entry
  else if (index.symbols value).isSome then
    (index.addName dialect name entry).addData dialect value entry
  else ((index.addName dialect name entry).addData dialect value entry).addSymbol dialect value

/-- Every alias can be found by its value: in its dialect, and in the dialect of the value. -/
structure Consistent (index : AliasIndex Dialect V A) (valueOf : A → V) : Prop where
  data_of_alias : ∀ dialect name entry, index.aliases dialect name = some entry →
    (index.data dialect (valueOf entry)).isSome
  symbol_of_data : ∀ dialect value entry, index.data dialect value = some entry →
    valueOf entry = value ∧ (index.symbols value).isSome
  data_of_symbol : ∀ value dialect, index.symbols value = some dialect →
    (index.data dialect value).isSome

variable {index : AliasIndex Dialect V A} {valueOf : A → V}

theorem Consistent.addName (h : index.Consistent valueOf) {dialect : Dialect} {entry : A}
    (name : String) (hdata : (index.data dialect (valueOf entry)).isSome) :
    (index.addName dialect name entry).Consistent valueOf := by
  refine ⟨fun dialect' name' entry' halias ↦ ?_, h.symbol_of_data, h.data_of_symbol⟩
  by_cases hdialect : dialect' = dialect
  · subst hdialect
    by_cases hname : name' = name
    · subst hname
      simp only [AliasIndex.addName, Function.update_self, Option.some.injEq] at halias
      rw [← halias]
      exact hdata
    · simp only [AliasIndex.addName, Function.update_self, Function.update_of_ne hname] at halias
      exact h.data_of_alias _ _ _ halias
  · simp only [AliasIndex.addName, Function.update_of_ne hdialect] at halias
    exact h.data_of_alias _ _ _ halias

/-- A new entry of a back-lookup map hides no other one. -/
theorem data_addData (index : AliasIndex Dialect V A) (dialect dialect' : Dialect)
    (value value' : V) (entry : A) :
    (index.addData dialect value entry).data dialect' value' =
      if dialect' = dialect ∧ value' = value then some entry else index.data dialect' value' := by
  by_cases hdialect : dialect' = dialect
  · subst hdialect
    simp [addData, Function.update_apply]
  · simp [addData, hdialect]

theorem isSome_data_addData {dialect' : Dialect} {value' : V}
    (hdata : (index.data dialect' value').isSome) (dialect : Dialect) (value : V) (entry : A) :
    ((index.addData dialect value entry).data dialect' value').isSome := by
  rw [data_addData]
  split_ifs
  · rfl
  · exact hdata

theorem Consistent.addData (h : index.Consistent valueOf) (dialect : Dialect) {entry : A}
    (hsymbol : (index.symbols (valueOf entry)).isSome) :
    (index.addData dialect (valueOf entry) entry).Consistent valueOf := by
  refine ⟨fun dialect' name' entry' halias ↦ ?_, fun dialect' value' entry' hdata ↦ ?_,
    fun value' dialect' howner ↦ ?_⟩
  · exact isSome_data_addData (h.data_of_alias _ _ _ halias) _ _ _
  · rw [data_addData] at hdata
    split_ifs at hdata with hnew
    · obtain ⟨rfl, rfl⟩ := hnew
      obtain rfl := Option.some.inj hdata
      exact ⟨rfl, hsymbol⟩
    · exact h.symbol_of_data _ _ _ hdata
  · exact isSome_data_addData (h.data_of_symbol _ _ howner) _ _ _

/-- A value gets its dialect and its entry in the back-lookup map together. -/
theorem Consistent.addData_addSymbol (h : index.Consistent valueOf) (dialect : Dialect)
    (entry : A) :
    ((index.addData dialect (valueOf entry) entry).addSymbol dialect (valueOf entry)).Consistent
      valueOf := by
  have hsymbols : ∀ value, (index.symbols value).isSome →
      (((index.addData dialect (valueOf entry) entry).addSymbol dialect
        (valueOf entry)).symbols value).isSome := by
    intro value hvalue
    by_cases heq : value = valueOf entry
    · simp [addSymbol, heq]
    · simpa [addSymbol, AliasIndex.addData, Function.update_of_ne heq] using hvalue
  refine ⟨fun dialect' name' entry' halias ↦ ?_, fun dialect' value' entry' hdata ↦ ?_,
    fun value' dialect' howner ↦ ?_⟩
  · exact isSome_data_addData (h.data_of_alias _ _ _ halias) _ _ _
  · change (index.addData dialect (valueOf entry) entry).data dialect' value' = _ at hdata
    rw [data_addData] at hdata
    split_ifs at hdata with hnew
    · obtain ⟨rfl, rfl⟩ := hnew
      obtain rfl := Option.some.inj hdata
      exact ⟨rfl, by simp [addSymbol]⟩
    · have hold := h.symbol_of_data _ _ _ hdata
      exact ⟨hold.1, hsymbols _ hold.2⟩
  · by_cases heq : value' = valueOf entry
    · subst heq
      simp only [addSymbol, Function.update_self, Option.some.injEq] at howner
      subst howner
      simp [addSymbol, data_addData]
    · have hold : index.symbols value' = some dialect' := by
        simpa [addSymbol, AliasIndex.addData, Function.update_of_ne heq] using howner
      exact isSome_data_addData (h.data_of_symbol _ _ hold) _ _ _

theorem Consistent.register (h : index.Consistent valueOf) (dialect : Dialect) (name : String)
    (entry : A) : (index.register dialect name (valueOf entry) entry).Consistent valueOf := by
  rw [AliasIndex.register]
  split_ifs with hname hdata hsymbol
  · exact h
  · exact h.addName name hdata
  · have hnew := h.addData dialect hsymbol
    exact hnew.addName name (by simp [data_addData])
  · have hnew := h.addData_addSymbol dialect entry
    exact hnew.addName name (by simp [addSymbol, data_addData])

/-- The names after registration: the old ones, and the new one. -/
theorem aliases_register {dialect dialect' : Dialect} {name name' : String} {value : V}
    {entry entry' : A}
    (halias : (index.register dialect name value entry).aliases dialect' name' = some entry') :
    index.aliases dialect' name' = some entry' ∨
      index.aliases dialect name = none ∧ entry' = entry := by
  have hadd : index.aliases dialect name = none →
      (index.addName dialect name entry).aliases dialect' name' = some entry' →
      index.aliases dialect' name' = some entry' ∨
        index.aliases dialect name = none ∧ entry' = entry := by
    intro hfresh hnew
    by_cases hdialect : dialect' = dialect
    · subst hdialect
      by_cases hname : name' = name
      · subst hname
        simp only [AliasIndex.addName, Function.update_self, Option.some.injEq] at hnew
        exact Or.inr ⟨hfresh, hnew.symm⟩
      · left
        simpa [AliasIndex.addName, Function.update_of_ne hname] using hnew
    · left
      simpa [AliasIndex.addName, Function.update_of_ne hdialect] using hnew
  rw [register] at halias
  split_ifs at halias with hname hdata hsymbol
  · exact Or.inl halias
  · exact hadd (by simpa using hname) halias
  · exact hadd (by simpa using hname) halias
  · exact hadd (by simpa using hname) halias

theorem aliases_register_self {dialect : Dialect} {name : String}
    (hfresh : index.aliases dialect name = none) (value : V) (entry : A) :
    (index.register dialect name value entry).aliases dialect name = some entry := by
  rw [register, if_neg (by simp [hfresh])]
  split_ifs <;> simp [addName, addData, addSymbol]

/-- Three insertions that make the entries of an alias one by one register it. -/
theorem view_insertAll {S : Type*} (view : S → AliasIndex Dialect V A) {dialect : Dialect}
    {name : String} {value : V} {entry : A} {addName addData addSymbol : Insertion S}
    (hname : ∀ s, addName.fresh s = ((view s).aliases dialect name).isNone ∧
      view (addName.insert s) = (view s).addName dialect name entry)
    (hdata : ∀ s, addData.fresh s = ((view s).data dialect value).isNone ∧
      view (addData.insert s) = (view s).addData dialect value entry)
    (hsymbol : ∀ s, addSymbol.fresh s = ((view s).symbols value).isNone ∧
      view (addSymbol.insert s) = (view s).addSymbol dialect value) (s : S) :
    view (insertAll [addName, addData, addSymbol] s).2 =
      (view s).register dialect name value entry := by
  have hdata' := hdata (addName.insert s)
  have hsymbol' := hsymbol (addData.insert (addName.insert s))
  rw [(hname s).2] at hdata'
  rw [hdata'.2] at hsymbol'
  have hkept : (((view s).addName dialect name entry).data dialect value) =
      (view s).data dialect value := rfl
  have hkept' : ((((view s).addName dialect name entry).addData dialect value entry).symbols
      value) = (view s).symbols value := rfl
  rw [hkept] at hdata'
  rw [hkept'] at hsymbol'
  simp only [insertAll, (hname s).1, hdata'.1, hsymbol'.1, register]
  cases (view s).aliases dialect name with
  | some _ => simp
  | none =>
    cases (view s).data dialect value with
    | some _ => simp [(hname s).2]
    | none =>
      cases (view s).symbols value with
      | some _ => simp [hdata'.2]
      | none => simp [hsymbol'.2]

end AliasIndex

variable {Ty Attr OpInfo Dialect : Type}

namespace DynamicContext

/-! ## The indices of the context -/

def typeIndex (ctx : DynamicContext Ty Attr OpInfo Dialect) :
    AliasIndex Dialect Ty (TypeAlias Ty) where
  aliases dialect := (ctx.impl dialect).typeAliases
  data dialect := (ctx.impl dialect).typeAliasData
  symbols type := ctx.dialectSymbols (.type type)

def attrIndex (ctx : DynamicContext Ty Attr OpInfo Dialect) :
    AliasIndex Dialect Attr (AttributeAlias Ty Attr) where
  aliases dialect := (ctx.impl dialect).attrAliases
  data dialect := (ctx.impl dialect).attrAliasData
  symbols attr := ctx.dialectSymbols (.attr attr)

@[simp]
theorem typeIndex_aliases (ctx : DynamicContext Ty Attr OpInfo Dialect) (dialect : Dialect) :
    ctx.typeIndex.aliases dialect = (ctx.impl dialect).typeAliases := rfl

@[simp]
theorem typeIndex_data (ctx : DynamicContext Ty Attr OpInfo Dialect) (dialect : Dialect) :
    ctx.typeIndex.data dialect = (ctx.impl dialect).typeAliasData := rfl

@[simp]
theorem typeIndex_symbols (ctx : DynamicContext Ty Attr OpInfo Dialect) (type : Ty) :
    ctx.typeIndex.symbols type = ctx.dialectSymbols (.type type) := rfl

@[simp]
theorem attrIndex_aliases (ctx : DynamicContext Ty Attr OpInfo Dialect) (dialect : Dialect) :
    ctx.attrIndex.aliases dialect = (ctx.impl dialect).attrAliases := rfl

@[simp]
theorem attrIndex_data (ctx : DynamicContext Ty Attr OpInfo Dialect) (dialect : Dialect) :
    ctx.attrIndex.data dialect = (ctx.impl dialect).attrAliasData := rfl

@[simp]
theorem attrIndex_symbols (ctx : DynamicContext Ty Attr OpInfo Dialect) (attr : Attr) :
    ctx.attrIndex.symbols attr = ctx.dialectSymbols (.attr attr) := rfl

variable [DecidableEq Dialect]

theorem typeIndex_setImpl (ctx : DynamicContext Ty Attr OpInfo Dialect) (dialect : Dialect)
    (impl : DynamicDialectImpl Ty Attr OpInfo) :
    (ctx.setImpl dialect impl).typeIndex =
      { ctx.typeIndex with
        aliases := Function.update ctx.typeIndex.aliases dialect impl.typeAliases
        data := Function.update ctx.typeIndex.data dialect impl.typeAliasData } := by
  have hfield : ∀ {F : Type} (field : DynamicDialectImpl Ty Attr OpInfo → F),
      (fun dialect' ↦ field (Function.update ctx.impl dialect impl dialect')) =
        Function.update (fun dialect' ↦ field (ctx.impl dialect')) dialect (field impl) := by
    intro F field
    funext dialect'
    exact Function.apply_update (fun _ ↦ field) ctx.impl dialect impl dialect'
  simp only [typeIndex, setImpl, hfield]

theorem attrIndex_setImpl (ctx : DynamicContext Ty Attr OpInfo Dialect) (dialect : Dialect)
    (impl : DynamicDialectImpl Ty Attr OpInfo) :
    (ctx.setImpl dialect impl).attrIndex =
      { ctx.attrIndex with
        aliases := Function.update ctx.attrIndex.aliases dialect impl.attrAliases
        data := Function.update ctx.attrIndex.data dialect impl.attrAliasData } := by
  have hfield : ∀ {F : Type} (field : DynamicDialectImpl Ty Attr OpInfo → F),
      (fun dialect' ↦ field (Function.update ctx.impl dialect impl dialect')) =
        Function.update (fun dialect' ↦ field (ctx.impl dialect')) dialect (field impl) := by
    intro F field
    funext dialect'
    exact Function.apply_update (fun _ ↦ field) ctx.impl dialect impl dialect'
  simp only [attrIndex, setImpl, hfield]

variable [DecidableEq Ty] [DecidableEq Attr] [DecidableEq OpInfo]

section Insertions

variable (dialect : Dialect) (op : DynamicOperation OpInfo) (typeAlias : TypeAlias Ty)
  (attrAlias : AttributeAlias Ty Attr) (ctx : DynamicContext Ty Attr OpInfo Dialect)

theorem typeIndex_insertTypeAlias :
    ((insertTypeAlias dialect typeAlias).insert ctx).typeIndex =
      ctx.typeIndex.addName dialect typeAlias.name typeAlias := by
  simp [insertTypeAlias, insertInto, Insertion.emplace, typeIndex_setImpl, AliasIndex.addName,
    ← typeIndex_data]

theorem typeIndex_insertTypeAliasData :
    ((insertTypeAliasData dialect typeAlias).insert ctx).typeIndex =
      ctx.typeIndex.addData dialect typeAlias.aliasedType typeAlias := by
  simp [insertTypeAliasData, insertInto, Insertion.emplace, typeIndex_setImpl, AliasIndex.addData,
    ← typeIndex_aliases]

theorem typeIndex_insertSymbol (type : Ty) :
    ((insertSymbol dialect (.type type)).insert ctx).typeIndex =
      ctx.typeIndex.addSymbol dialect type := by
  simp only [insertSymbol, Insertion.emplace, typeIndex, AliasIndex.addSymbol, AliasIndex.mk.injEq,
    true_and]
  funext type'
  by_cases heq : type' = type
  · simp [heq]
  · simp [heq]

theorem attrIndex_insertAttrAlias :
    ((insertAttrAlias dialect attrAlias).insert ctx).attrIndex =
      ctx.attrIndex.addName dialect attrAlias.name attrAlias := by
  simp [insertAttrAlias, insertInto, Insertion.emplace, attrIndex_setImpl, AliasIndex.addName,
    ← attrIndex_data]

theorem attrIndex_insertAttrAliasData :
    ((insertAttrAliasData dialect attrAlias).insert ctx).attrIndex =
      ctx.attrIndex.addData dialect attrAlias.aliasedAttr attrAlias := by
  simp [insertAttrAliasData, insertInto, Insertion.emplace, attrIndex_setImpl, AliasIndex.addData,
    ← attrIndex_aliases]

theorem attrIndex_insertSymbol (attr : Attr) :
    ((insertSymbol dialect (.attr attr)).insert ctx).attrIndex =
      ctx.attrIndex.addSymbol dialect attr := by
  simp only [insertSymbol, Insertion.emplace, attrIndex, AliasIndex.addSymbol, AliasIndex.mk.injEq,
    true_and]
  funext attr'
  by_cases heq : attr' = attr
  · simp [heq]
  · simp [heq]

theorem typeIndex_registerTypeAlias :
    (registerTypeAlias dialect typeAlias ctx).2.typeIndex =
      ctx.typeIndex.register dialect typeAlias.name typeAlias.aliasedType typeAlias := by
  rw [registerTypeAlias_eq_insertAll]
  exact AliasIndex.view_insertAll typeIndex
    (fun ctx ↦ ⟨rfl, typeIndex_insertTypeAlias dialect typeAlias ctx⟩)
    (fun ctx ↦ ⟨rfl, typeIndex_insertTypeAliasData dialect typeAlias ctx⟩)
    (fun ctx ↦ ⟨rfl, typeIndex_insertSymbol dialect ctx typeAlias.aliasedType⟩) ctx

theorem attrIndex_registerAttrAlias :
    (registerAttrAlias dialect attrAlias ctx).2.attrIndex =
      ctx.attrIndex.register dialect attrAlias.name attrAlias.aliasedAttr attrAlias := by
  rw [registerAttrAlias_eq_insertAll]
  exact AliasIndex.view_insertAll attrIndex
    (fun ctx ↦ ⟨rfl, attrIndex_insertAttrAlias dialect attrAlias ctx⟩)
    (fun ctx ↦ ⟨rfl, attrIndex_insertAttrAliasData dialect attrAlias ctx⟩)
    (fun ctx ↦ ⟨rfl, attrIndex_insertSymbol dialect ctx attrAlias.aliasedAttr⟩) ctx

theorem typeIndex_setImpl_of_eq {ctx : DynamicContext Ty Attr OpInfo Dialect} {dialect : Dialect}
    {impl : DynamicDialectImpl Ty Attr OpInfo}
    (haliases : impl.typeAliases = (ctx.impl dialect).typeAliases)
    (hdata : impl.typeAliasData = (ctx.impl dialect).typeAliasData) :
    (ctx.setImpl dialect impl).typeIndex = ctx.typeIndex := by
  rw [typeIndex_setImpl, haliases, hdata, ← typeIndex_aliases, ← typeIndex_data,
    Function.update_eq_self, Function.update_eq_self]

theorem attrIndex_setImpl_of_eq {ctx : DynamicContext Ty Attr OpInfo Dialect} {dialect : Dialect}
    {impl : DynamicDialectImpl Ty Attr OpInfo}
    (haliases : impl.attrAliases = (ctx.impl dialect).attrAliases)
    (hdata : impl.attrAliasData = (ctx.impl dialect).attrAliasData) :
    (ctx.setImpl dialect impl).attrIndex = ctx.attrIndex := by
  rw [attrIndex_setImpl, haliases, hdata, ← attrIndex_aliases, ← attrIndex_data,
    Function.update_eq_self, Function.update_eq_self]

theorem typeIndex_insertSymbol_of_ne {symbol : Symbol Ty Attr OpInfo}
    (hsymbol : ∀ type, symbol ≠ .type type) :
    ((insertSymbol dialect symbol).insert ctx).typeIndex = ctx.typeIndex := by
  simp only [insertSymbol, Insertion.emplace, typeIndex, AliasIndex.mk.injEq, true_and]
  funext type
  rw [Function.update_of_ne (hsymbol type).symm]

theorem attrIndex_insertSymbol_of_ne {symbol : Symbol Ty Attr OpInfo}
    (hsymbol : ∀ attr, symbol ≠ .attr attr) :
    ((insertSymbol dialect symbol).insert ctx).attrIndex = ctx.attrIndex := by
  simp only [insertSymbol, Insertion.emplace, attrIndex, AliasIndex.mk.injEq, true_and]
  funext attr
  rw [Function.update_of_ne (hsymbol attr).symm]

theorem typeIndex_registerAttrAlias :
    (registerAttrAlias dialect attrAlias ctx).2.typeIndex = ctx.typeIndex := by
  rw [registerAttrAlias_eq_insertAll]
  apply insertAll_frame
  simp only [List.forall_mem_cons, List.not_mem_nil, false_imp_iff, implies_true, and_true]
  refine ⟨fun ctx ↦ ?_, fun ctx ↦ ?_, fun ctx ↦ ?_⟩
  · exact typeIndex_setImpl_of_eq rfl rfl
  · exact typeIndex_setImpl_of_eq rfl rfl
  · exact typeIndex_insertSymbol_of_ne dialect ctx (by simp)

theorem attrIndex_registerTypeAlias :
    (registerTypeAlias dialect typeAlias ctx).2.attrIndex = ctx.attrIndex := by
  rw [registerTypeAlias_eq_insertAll]
  apply insertAll_frame
  simp only [List.forall_mem_cons, List.not_mem_nil, false_imp_iff, implies_true, and_true]
  refine ⟨fun ctx ↦ ?_, fun ctx ↦ ?_, fun ctx ↦ ?_⟩
  · exact attrIndex_setImpl_of_eq rfl rfl
  · exact attrIndex_setImpl_of_eq rfl rfl
  · exact attrIndex_insertSymbol_of_ne dialect ctx (by simp)

theorem typeIndex_registerDynamicOp :
    (registerDynamicOp dialect op ctx).2.typeIndex = ctx.typeIndex := by
  rw [registerDynamicOp_eq_insertAll]
  apply insertAll_frame
  simp only [List.forall_mem_cons, List.not_mem_nil, false_imp_iff, implies_true, and_true]
  refine ⟨fun ctx ↦ ?_, fun ctx ↦ ?_⟩
  · exact typeIndex_setImpl_of_eq rfl rfl
  · exact typeIndex_insertSymbol_of_ne dialect ctx (by simp)

theorem attrIndex_registerDynamicOp :
    (registerDynamicOp dialect op ctx).2.attrIndex = ctx.attrIndex := by
  rw [registerDynamicOp_eq_insertAll]
  apply insertAll_frame
  simp only [List.forall_mem_cons, List.not_mem_nil, false_imp_iff, implies_true, and_true]
  refine ⟨fun ctx ↦ ?_, fun ctx ↦ ?_⟩
  · exact attrIndex_setImpl_of_eq rfl rfl
  · exact attrIndex_insertSymbol_of_ne dialect ctx (by simp)

end Insertions

/-! ## Every alias is recorded, in every reachable state -/

/-- The types and attributes of aliases are in the back-lookup maps and among the symbols. -/
structure Recorded (ctx : DynamicContext Ty Attr OpInfo Dialect) : Prop where
  types : ctx.typeIndex.Consistent (·.aliasedType)
  attrs : ctx.attrIndex.Consistent (·.aliasedAttr)

theorem Recorded.initial : Recorded (initial : DynamicContext Ty Attr OpInfo Dialect) := by
  constructor <;> constructor <;> simp [DynamicContext.initial, typeIndex, attrIndex]

theorem Recorded.step {ctx : DynamicContext Ty Attr OpInfo Dialect} (h : ctx.Recorded)
    (call : Call Ty Attr OpInfo Dialect) : (ctx.step call).2.Recorded := by
  cases call with
  | registerDynamicOp dialect op =>
    constructor
    · rw [DynamicContext.step, typeIndex_registerDynamicOp]
      exact h.types
    · rw [DynamicContext.step, attrIndex_registerDynamicOp]
      exact h.attrs
  | registerTypeAlias dialect typeAlias =>
    constructor
    · rw [DynamicContext.step, typeIndex_registerTypeAlias]
      exact h.types.register dialect typeAlias.name typeAlias
    · rw [DynamicContext.step, attrIndex_registerTypeAlias]
      exact h.attrs
  | registerAttrAlias dialect attrAlias =>
    constructor
    · rw [DynamicContext.step, typeIndex_registerAttrAlias]
      exact h.types
    · rw [DynamicContext.step, attrIndex_registerAttrAlias]
      exact h.attrs.register dialect attrAlias.name attrAlias

/-- Every alias is recorded in every reachable state, whichever calls have failed. -/
theorem recorded_after (calls : List (Call Ty Attr OpInfo Dialect)) :
    (after step initial calls).Recorded :=
  after_induction Recorded.initial (fun _ call hctx ↦ hctx.step call) calls

/-! ## Complete calls -/

/-- A call that passes its first insertion also passes the later ones. -/
def Complete (ctx : DynamicContext Ty Attr OpInfo Dialect) : Call Ty Attr OpInfo Dialect → Prop
  | .registerDynamicOp dialect op =>
    (ctx.impl dialect).dynOps op.opInfo = none → ctx.dialectSymbols (.opName op.opInfo) = none
  | .registerTypeAlias dialect typeAlias =>
    ctx.lookupTypeAlias dialect typeAlias.name = none →
      (ctx.impl dialect).typeAliasData typeAlias.aliasedType = none ∧
        ctx.dialectSymbols (.type typeAlias.aliasedType) = none
  | .registerAttrAlias dialect attrAlias =>
    ctx.lookupAttrAlias dialect attrAlias.name = none →
      (ctx.impl dialect).attrAliasData attrAlias.aliasedAttr = none ∧
        ctx.dialectSymbols (.attr attrAlias.aliasedAttr) = none

/-- Insertions into different fields of a dialect are independent. -/
theorem independent_insertInto {K V K' V' : Type} [DecidableEq K] [DecidableEq K']
    (dialect : Dialect)
    {get : DynamicDialectImpl Ty Attr OpInfo → K → Option V}
    {set : DynamicDialectImpl Ty Attr OpInfo → (K → Option V) → DynamicDialectImpl Ty Attr OpInfo}
    {get' : DynamicDialectImpl Ty Attr OpInfo → K' → Option V'}
    {set' : DynamicDialectImpl Ty Attr OpInfo → (K' → Option V') →
      DynamicDialectImpl Ty Attr OpInfo}
    (hget : ∀ impl map, get (set impl map) = map) (hget' : ∀ impl map, get' (set' impl map) = map)
    (hset : ∀ impl map, get' (set impl map) = get' impl)
    (hset' : ∀ impl map, get (set' impl map) = get impl)
    (key : K) (value : V) (key' : K') (value' : V') :
    Independent (insertInto dialect get set hget key value)
      (insertInto dialect get' set' hget' key' value') := by
  constructor
  · intro ctx
    simp [insertInto, Insertion.emplace, hset]
  · intro ctx
    simp [insertInto, Insertion.emplace, hset']

theorem independent_insertSymbol {K V : Type} [DecidableEq K] (dialect : Dialect)
    {get : DynamicDialectImpl Ty Attr OpInfo → K → Option V}
    {set : DynamicDialectImpl Ty Attr OpInfo → (K → Option V) → DynamicDialectImpl Ty Attr OpInfo}
    (hget : ∀ impl map, get (set impl map) = map) (key : K) (value : V)
    (symbol : Symbol Ty Attr OpInfo) :
    Independent (insertInto dialect get set hget key value) (insertSymbol dialect symbol) :=
  ⟨fun _ ↦ rfl, fun _ ↦ rfl⟩

/-- The insertions that a call makes. -/
def insertions :
    Call Ty Attr OpInfo Dialect → List (Insertion (DynamicContext Ty Attr OpInfo Dialect))
  | .registerDynamicOp dialect op =>
    [insertDynOp dialect op, insertSymbol dialect (.opName op.opInfo)]
  | .registerTypeAlias dialect typeAlias =>
    [insertTypeAlias dialect typeAlias, insertTypeAliasData dialect typeAlias,
      insertSymbol dialect (.type typeAlias.aliasedType)]
  | .registerAttrAlias dialect attrAlias =>
    [insertAttrAlias dialect attrAlias, insertAttrAliasData dialect attrAlias,
      insertSymbol dialect (.attr attrAlias.aliasedAttr)]

theorem step_eq_insertAll (call : Call Ty Attr OpInfo Dialect) :
    (step · call) = insertAll (insertions call) := by
  funext ctx
  cases call with
  | registerDynamicOp dialect op => exact registerDynamicOp_eq_insertAll dialect op ctx
  | registerTypeAlias dialect typeAlias =>
    exact registerTypeAlias_eq_insertAll dialect typeAlias ctx
  | registerAttrAlias dialect attrAlias =>
    exact registerAttrAlias_eq_insertAll dialect attrAlias ctx

theorem insertions_pairwise (call : Call Ty Attr OpInfo Dialect) :
    (insertions call).Pairwise Independent := by
  cases call with
  | registerDynamicOp dialect op =>
    rw [insertions, List.pairwise_pair]
    exact independent_insertSymbol dialect _ _ _ _
  | registerTypeAlias dialect typeAlias | registerAttrAlias dialect attrAlias =>
    simp only [insertions, List.pairwise_cons, List.forall_mem_cons, List.not_mem_nil,
      false_imp_iff, implies_true, and_true, List.Pairwise.nil]
    refine ⟨⟨?_, ?_⟩, ?_⟩
    · apply independent_insertInto <;> intros <;> rfl
    · exact independent_insertSymbol dialect _ _ _ _
    · exact independent_insertSymbol dialect _ _ _ _

/-- A call is atomic exactly if it is complete. -/
theorem atomic_iff_complete (ctx : DynamicContext Ty Attr OpInfo Dialect)
    (call : Call Ty Attr OpInfo Dialect) : Atomic (step · call) ctx ↔ ctx.Complete call := by
  have hpairwise := insertions_pairwise call
  rw [step_eq_insertAll]
  cases call with
  | registerDynamicOp dialect op =>
    rw [insertions, insertAll_atomic_iff hpairwise]
    simp [insertDynOp, insertSymbol, insertInto, Insertion.emplace, Complete]
  | registerTypeAlias dialect typeAlias =>
    rw [insertions, insertAll_atomic_iff hpairwise]
    simp [insertTypeAlias, insertTypeAliasData, insertSymbol, insertInto, Insertion.emplace,
      Complete, lookupTypeAlias]
  | registerAttrAlias dialect attrAlias =>
    rw [insertions, insertAll_atomic_iff hpairwise]
    simp [insertAttrAlias, insertAttrAliasData, insertSymbol, insertInto, Insertion.emplace,
      Complete, lookupAttrAlias]

/-! ## Metadata of aliases -/

section Metadata

variable (dynamicType : Ty → Option (DynamicImpl Dialect))
  (dynamicAttr : Attr → Option (DynamicImpl Dialect))

/-- Every alias that is found by name is recorded, and its value leads to alias metadata. -/
structure AliasesFound (ctx : DynamicContext Ty Attr OpInfo Dialect) : Prop where
  type_found : ∀ dialect name typeAlias, ctx.lookupTypeAlias dialect name = some typeAlias →
    ((ctx.impl dialect).typeAliasData typeAlias.aliasedType).isSome ∧
    (ctx.dialectSymbols (.type typeAlias.aliasedType)).isSome ∧
    ∃ dialect' found,
      ctx.lookupDialectForType dynamicType typeAlias.aliasedType = some dialect' ∧
      ctx.lookupTypeData dynamicType dialect' typeAlias.aliasedType = some (.ofAlias found) ∧
      found.aliasedType = typeAlias.aliasedType
  attr_found : ∀ dialect name attrAlias, ctx.lookupAttrAlias dialect name = some attrAlias →
    ((ctx.impl dialect).attrAliasData attrAlias.aliasedAttr).isSome ∧
    (ctx.dialectSymbols (.attr attrAlias.aliasedAttr)).isSome ∧
    ∃ dialect' found,
      ctx.lookupDialectForAttr dynamicAttr attrAlias.aliasedAttr = some dialect' ∧
      ctx.lookupAttributeData dynamicAttr dialect' attrAlias.aliasedAttr = some (.ofAlias found) ∧
      found.aliasedAttr = attrAlias.aliasedAttr

/-- A call that enters a new alias name enters it for a value that is not dynamic itself. -/
def AliasesPlain (ctx : DynamicContext Ty Attr OpInfo Dialect) :
    Call Ty Attr OpInfo Dialect → Prop
  | .registerDynamicOp _ _ => True
  | .registerTypeAlias dialect typeAlias =>
    ctx.lookupTypeAlias dialect typeAlias.name = none → dynamicType typeAlias.aliasedType = none
  | .registerAttrAlias dialect attrAlias =>
    ctx.lookupAttrAlias dialect attrAlias.name = none → dynamicAttr attrAlias.aliasedAttr = none

/-- No alias of the context is for a dynamic value. -/
structure Plain (ctx : DynamicContext Ty Attr OpInfo Dialect) : Prop where
  type_plain : ∀ dialect name typeAlias, ctx.lookupTypeAlias dialect name = some typeAlias →
    dynamicType typeAlias.aliasedType = none
  attr_plain : ∀ dialect name attrAlias, ctx.lookupAttrAlias dialect name = some attrAlias →
    dynamicAttr attrAlias.aliasedAttr = none

variable {dynamicType dynamicAttr}

/-- The names of type aliases after a call: the old ones, and one that the call enters. -/
theorem lookupTypeAlias_step {ctx : DynamicContext Ty Attr OpInfo Dialect}
    {call : Call Ty Attr OpInfo Dialect} {dialect : Dialect} {name : String}
    {typeAlias : TypeAlias Ty}
    (halias : (ctx.step call).2.lookupTypeAlias dialect name = some typeAlias) :
    ctx.lookupTypeAlias dialect name = some typeAlias ∨
      ∃ dialect', call = .registerTypeAlias dialect' typeAlias ∧
        ctx.lookupTypeAlias dialect' typeAlias.name = none := by
  change (ctx.step call).2.typeIndex.aliases dialect name = _ at halias
  cases call with
  | registerDynamicOp dialect' op =>
    rw [step, typeIndex_registerDynamicOp] at halias
    exact Or.inl halias
  | registerTypeAlias dialect' typeAlias' =>
    rw [step, typeIndex_registerTypeAlias] at halias
    rcases AliasIndex.aliases_register halias with hold | ⟨hfresh, rfl⟩
    · exact Or.inl hold
    · exact Or.inr ⟨dialect', rfl, hfresh⟩
  | registerAttrAlias dialect' attrAlias =>
    rw [step, typeIndex_registerAttrAlias] at halias
    exact Or.inl halias

theorem lookupAttrAlias_step {ctx : DynamicContext Ty Attr OpInfo Dialect}
    {call : Call Ty Attr OpInfo Dialect} {dialect : Dialect} {name : String}
    {attrAlias : AttributeAlias Ty Attr}
    (halias : (ctx.step call).2.lookupAttrAlias dialect name = some attrAlias) :
    ctx.lookupAttrAlias dialect name = some attrAlias ∨
      ∃ dialect', call = .registerAttrAlias dialect' attrAlias ∧
        ctx.lookupAttrAlias dialect' attrAlias.name = none := by
  change (ctx.step call).2.attrIndex.aliases dialect name = _ at halias
  cases call with
  | registerDynamicOp dialect' op =>
    rw [step, attrIndex_registerDynamicOp] at halias
    exact Or.inl halias
  | registerTypeAlias dialect' typeAlias =>
    rw [step, attrIndex_registerTypeAlias] at halias
    exact Or.inl halias
  | registerAttrAlias dialect' attrAlias' =>
    rw [step, attrIndex_registerAttrAlias] at halias
    rcases AliasIndex.aliases_register halias with hold | ⟨hfresh, rfl⟩
    · exact Or.inl hold
    · exact Or.inr ⟨dialect', rfl, hfresh⟩

theorem Plain.initial :
    Plain dynamicType dynamicAttr (initial : DynamicContext Ty Attr OpInfo Dialect) := by
  constructor <;> simp [DynamicContext.initial, lookupTypeAlias, lookupAttrAlias]

theorem Plain.step {ctx : DynamicContext Ty Attr OpInfo Dialect}
    (h : ctx.Plain dynamicType dynamicAttr) {call : Call Ty Attr OpInfo Dialect}
    (hcall : ctx.AliasesPlain dynamicType dynamicAttr call) :
    (ctx.step call).2.Plain dynamicType dynamicAttr := by
  constructor
  · intro dialect name typeAlias halias
    rcases lookupTypeAlias_step halias with hold | ⟨dialect', rfl, hfresh⟩
    · exact h.type_plain _ _ _ hold
    · exact hcall hfresh
  · intro dialect name attrAlias halias
    rcases lookupAttrAlias_step halias with hold | ⟨dialect', rfl, hfresh⟩
    · exact h.attr_plain _ _ _ hold
    · exact hcall hfresh

/-- What is recorded is found, unless a dynamic value hides it. -/
theorem Recorded.aliasesFound {ctx : DynamicContext Ty Attr OpInfo Dialect} (h : ctx.Recorded)
    (hplain : ctx.Plain dynamicType dynamicAttr) : ctx.AliasesFound dynamicType dynamicAttr := by
  constructor
  · intro dialect name typeAlias halias
    have hdynamic := hplain.type_plain _ _ _ halias
    have hdata := h.types.data_of_alias _ _ _ halias
    obtain ⟨entry, hentry⟩ := Option.isSome_iff_exists.mp hdata
    have hsymbol := (h.types.symbol_of_data _ _ _ hentry).2
    obtain ⟨dialect', hdialect'⟩ := Option.isSome_iff_exists.mp hsymbol
    obtain ⟨found, hfound⟩ :=
      Option.isSome_iff_exists.mp (h.types.data_of_symbol _ _ hdialect')
    refine ⟨hdata, hsymbol, dialect', found, ?_, ?_, ?_⟩
    · simpa [lookupDialectForType, hdynamic] using hdialect'
    · simpa [lookupTypeData, hdynamic] using hfound
    · exact (h.types.symbol_of_data _ _ _ hfound).1
  · intro dialect name attrAlias halias
    have hdynamic := hplain.attr_plain _ _ _ halias
    have hdata := h.attrs.data_of_alias _ _ _ halias
    obtain ⟨entry, hentry⟩ := Option.isSome_iff_exists.mp hdata
    have hsymbol := (h.attrs.symbol_of_data _ _ _ hentry).2
    obtain ⟨dialect', hdialect'⟩ := Option.isSome_iff_exists.mp hsymbol
    obtain ⟨found, hfound⟩ :=
      Option.isSome_iff_exists.mp (h.attrs.data_of_symbol _ _ hdialect')
    refine ⟨hdata, hsymbol, dialect', found, ?_, ?_, ?_⟩
    · simpa [lookupDialectForAttr, hdynamic] using hdialect'
    · simpa [lookupAttributeData, hdynamic] using hfound
    · exact (h.attrs.symbol_of_data _ _ _ hfound).1

/-- An alias that leads to alias metadata is not for a dynamic value. -/
theorem AliasesFound.aliasesPlain {ctx : DynamicContext Ty Attr OpInfo Dialect}
    {call : Call Ty Attr OpInfo Dialect}
    (h : (ctx.step call).2.AliasesFound dynamicType dynamicAttr) :
    ctx.AliasesPlain dynamicType dynamicAttr call := by
  cases call with
  | registerDynamicOp dialect op => trivial
  | registerTypeAlias dialect typeAlias =>
    intro hfresh
    have halias : (ctx.step (.registerTypeAlias dialect typeAlias)).2.lookupTypeAlias dialect
        typeAlias.name = some typeAlias := by
      change (registerTypeAlias dialect typeAlias ctx).2.typeIndex.aliases dialect _ = _
      rw [typeIndex_registerTypeAlias]
      exact AliasIndex.aliases_register_self hfresh _ _
    obtain ⟨-, -, dialect', found, -, hfound, -⟩ := h.type_found _ _ _ halias
    cases hdynamic : dynamicType typeAlias.aliasedType with
    | none => rfl
    | some impl => simp [lookupTypeData, hdynamic] at hfound
  | registerAttrAlias dialect attrAlias =>
    intro hfresh
    have halias : (ctx.step (.registerAttrAlias dialect attrAlias)).2.lookupAttrAlias dialect
        attrAlias.name = some attrAlias := by
      change (registerAttrAlias dialect attrAlias ctx).2.attrIndex.aliases dialect _ = _
      rw [attrIndex_registerAttrAlias]
      exact AliasIndex.aliases_register_self hfresh _ _
    obtain ⟨-, -, dialect', found, -, hfound, -⟩ := h.attr_found _ _ _ halias
    cases hdynamic : dynamicAttr attrAlias.aliasedAttr with
    | none => rfl
    | some impl => simp [lookupAttributeData, hdynamic] at hfound

/-- A failing call leaves every map as it was, and the metadata of every alias is found in every
state, exactly if every call that passes its first insertion passes the later ones and no new alias
name is for a dynamic value. -/
theorem registration_atomic_iff (calls : List (Call Ty Attr OpInfo Dialect)) :
    EachCall step (fun ctx call ↦ Atomic (step · call) ctx) initial calls ∧
        (∀ before, before <+: calls →
          (after step initial before).AliasesFound dynamicType dynamicAttr) ↔
      EachCall step (fun ctx call ↦
        ctx.Complete call ∧ ctx.AliasesPlain dynamicType dynamicAttr call) initial calls := by
  constructor
  · rintro ⟨hatomic, hfound⟩ before call rest rfl
    refine ⟨(atomic_iff_complete _ _).mp (hatomic before call rest rfl), ?_⟩
    have hafter := hfound (before ++ [call]) ⟨rest, by simp⟩
    rw [after_append] at hafter
    exact hafter.aliasesPlain
  · intro hcalls
    constructor
    · intro before call rest heq
      exact (atomic_iff_complete _ _).mpr (hcalls before call rest heq).1
    · intro before hbefore
      have hplain := (hcalls.of_prefix hbefore).after_induction Plain.initial
        (fun _ _ hctx hcall ↦ hctx.step hcall.2)
      exact (recorded_after before).aliasesFound hplain

end Metadata

/-- The type `i32` under two names in the dialect `toy`. -/
theorem registerTypeAlias_twice_not_atomic :
    let calls : List (Call String String String String) :=
      [.registerTypeAlias "toy" ⟨"word", "i32", none⟩,
        .registerTypeAlias "toy" ⟨"int", "i32", none⟩]
    ¬ (EachCall step (fun ctx call ↦ Atomic (step · call) ctx) initial calls ∧
      ∀ before, before <+: calls →
        (after step initial before).AliasesFound (fun _ ↦ none) (fun _ ↦ none)) := by
  rintro calls ⟨hatomic, -⟩
  have hsecond := hatomic [.registerTypeAlias "toy" ⟨"word", "i32", none⟩]
    (.registerTypeAlias "toy" ⟨"int", "i32", none⟩) [] rfl
  have hfailed := hsecond (by rfl)
  have hname := congrArg (fun ctx ↦ (ctx.lookupTypeAlias "toy" "int").isSome) hfailed
  revert hname
  decide

end DynamicContext

end DeclarativeMlir.Dynamic

import DeclarativeMlir.Library.Transactions
import Mathlib.Tactic.Tauto

/-!
# Registration with dynamic dialects

A dynamic dialect has a map of its ops, maps of its type and attribute aliases by name, and maps
from the aliased values back to the aliases. The dynamic context that the dialects share maps every
registered symbol to its dialect. Registering an op or an alias inserts into two or three of these
maps and returns at the first key that is taken.
-/

namespace DeclarativeMlir.Dynamic

open Transactions

/-- `try_emplace`: whether the key was fresh, and the map afterwards. -/
def tryEmplace {K V : Type} [DecidableEq K] (map : K → Option V) (key : K) (value : V) :
    Bool × (K → Option V) :=
  if (map key).isNone then (true, Function.update map key (some value)) else (false, map)

structure TypeAlias (Ty : Type) where
  name : String
  aliasedType : Ty
  builder : Option String

structure AttributeAlias (Ty Attr : Type) where
  name : String
  aliasedAttr : Attr
  builder : Option String
  type : Option Ty

/-- A finalized op. -/
structure DynamicOperation (OpInfo : Type) where
  name : String
  opInfo : OpInfo

/-- The implementation of a dynamic type or attribute. -/
structure DynamicImpl (Dialect : Type) where
  name : String
  dialect : Dialect
  builder : Option String

/-- The fields of `DynamicDialect::Impl` that hold ops and aliases. -/
structure DynamicDialectImpl (Ty Attr OpInfo : Type) where
  dynOps : OpInfo → Option (DynamicOperation OpInfo)
  typeAliases : String → Option (TypeAlias Ty)
  attrAliases : String → Option (AttributeAlias Ty Attr)
  typeAliasData : Ty → Option (TypeAlias Ty)
  attrAliasData : Attr → Option (AttributeAlias Ty Attr)

/-- The opaque pointers of types, attributes and op names. -/
inductive Symbol (Ty Attr OpInfo : Type) where
  | type (type : Ty)
  | attr (attr : Attr)
  | opName (opInfo : OpInfo)
  deriving DecidableEq

/-- The dynamic context with all of its dialects. -/
structure DynamicContext (Ty Attr OpInfo Dialect : Type) where
  impl : Dialect → DynamicDialectImpl Ty Attr OpInfo
  dialectSymbols : Symbol Ty Attr OpInfo → Option Dialect

/-- Metadata of a type: of the dynamic type itself, or of an alias. -/
inductive TypeMetadata (Ty Dialect : Type) where
  | ofImpl (impl : DynamicImpl Dialect)
  | ofAlias (typeAlias : TypeAlias Ty)

inductive AttributeMetadata (Ty Attr Dialect : Type) where
  | ofImpl (impl : DynamicImpl Dialect)
  | ofAlias (attrAlias : AttributeAlias Ty Attr)

variable {Ty Attr OpInfo Dialect : Type}

namespace DynamicContext

/-- No dialect has registered anything. -/
def initial : DynamicContext Ty Attr OpInfo Dialect where
  impl _ := ⟨fun _ ↦ none, fun _ ↦ none, fun _ ↦ none, fun _ ↦ none, fun _ ↦ none⟩
  dialectSymbols _ := none

section Lookup

variable (dynamicType : Ty → Option (DynamicImpl Dialect))
  (dynamicAttr : Attr → Option (DynamicImpl Dialect))
  (ctx : DynamicContext Ty Attr OpInfo Dialect)

def lookupTypeAlias (dialect : Dialect) (name : String) : Option (TypeAlias Ty) :=
  (ctx.impl dialect).typeAliases name

def lookupAttrAlias (dialect : Dialect) (name : String) : Option (AttributeAlias Ty Attr) :=
  (ctx.impl dialect).attrAliases name

/-- `DynamicContext::lookupDialectFor` for types. -/
def lookupDialectForType (type : Ty) : Option Dialect :=
  match dynamicType type with
  | some impl => some impl.dialect
  | none => ctx.dialectSymbols (.type type)

/-- `DynamicContext::lookupDialectFor` for attributes. -/
def lookupDialectForAttr (attr : Attr) : Option Dialect :=
  match dynamicAttr attr with
  | some impl => some impl.dialect
  | none => ctx.dialectSymbols (.attr attr)

def lookupTypeData (dialect : Dialect) (type : Ty) : Option (TypeMetadata Ty Dialect) :=
  match dynamicType type with
  | some impl => some (.ofImpl impl)
  | none => ((ctx.impl dialect).typeAliasData type).map .ofAlias

def lookupAttributeData (dialect : Dialect) (attr : Attr) :
    Option (AttributeMetadata Ty Attr Dialect) :=
  match dynamicAttr attr with
  | some impl => some (.ofImpl impl)
  | none => ((ctx.impl dialect).attrAliasData attr).map .ofAlias

end Lookup

variable [DecidableEq Dialect]

def setImpl (ctx : DynamicContext Ty Attr OpInfo Dialect) (dialect : Dialect)
    (impl : DynamicDialectImpl Ty Attr OpInfo) : DynamicContext Ty Attr OpInfo Dialect :=
  { ctx with impl := Function.update ctx.impl dialect impl }

@[simp]
theorem setImpl_impl_self (ctx : DynamicContext Ty Attr OpInfo Dialect) (dialect : Dialect)
    (impl : DynamicDialectImpl Ty Attr OpInfo) : (ctx.setImpl dialect impl).impl dialect = impl :=
  Function.update_self ..

@[simp]
theorem setImpl_dialectSymbols (ctx : DynamicContext Ty Attr OpInfo Dialect) (dialect : Dialect)
    (impl : DynamicDialectImpl Ty Attr OpInfo) :
    (ctx.setImpl dialect impl).dialectSymbols = ctx.dialectSymbols := rfl

theorem setImpl_self (ctx : DynamicContext Ty Attr OpInfo Dialect) (dialect : Dialect) :
    ctx.setImpl dialect (ctx.impl dialect) = ctx := by
  simp [setImpl]

@[simp]
theorem setImpl_setImpl (ctx : DynamicContext Ty Attr OpInfo Dialect) (dialect : Dialect)
    (first second : DynamicDialectImpl Ty Attr OpInfo) :
    (ctx.setImpl dialect first).setImpl dialect second = ctx.setImpl dialect second := by
  simp [setImpl]

variable [DecidableEq Ty] [DecidableEq Attr] [DecidableEq OpInfo]

def registerDialectSymbol (ctx : DynamicContext Ty Attr OpInfo Dialect) (dialect : Dialect)
    (symbol : Symbol Ty Attr OpInfo) : Bool × DynamicContext Ty Attr OpInfo Dialect :=
  let (inserted, dialectSymbols) := tryEmplace ctx.dialectSymbols symbol dialect
  (inserted, { ctx with dialectSymbols := dialectSymbols })

def registerDynamicOp (dialect : Dialect) (op : DynamicOperation OpInfo)
    (ctx : DynamicContext Ty Attr OpInfo Dialect) : Bool × DynamicContext Ty Attr OpInfo Dialect :=
  let impl := ctx.impl dialect
  let (inserted, dynOps) := tryEmplace impl.dynOps op.opInfo op
  let ctx := ctx.setImpl dialect { impl with dynOps := dynOps }
  if !inserted then (false, ctx) else ctx.registerDialectSymbol dialect (.opName op.opInfo)

def registerTypeAlias (dialect : Dialect) (typeAlias : TypeAlias Ty)
    (ctx : DynamicContext Ty Attr OpInfo Dialect) : Bool × DynamicContext Ty Attr OpInfo Dialect :=
  let impl := ctx.impl dialect
  let (inserted, typeAliases) := tryEmplace impl.typeAliases typeAlias.name typeAlias
  let impl := { impl with typeAliases := typeAliases }
  let ctx := ctx.setImpl dialect impl
  if !inserted then (false, ctx)
  else
    let (inserted, typeAliasData) :=
      tryEmplace impl.typeAliasData typeAlias.aliasedType typeAlias
    let ctx := ctx.setImpl dialect { impl with typeAliasData := typeAliasData }
    if !inserted then (false, ctx)
    else ctx.registerDialectSymbol dialect (.type typeAlias.aliasedType)

def registerAttrAlias (dialect : Dialect) (attrAlias : AttributeAlias Ty Attr)
    (ctx : DynamicContext Ty Attr OpInfo Dialect) : Bool × DynamicContext Ty Attr OpInfo Dialect :=
  let impl := ctx.impl dialect
  let (inserted, attrAliases) := tryEmplace impl.attrAliases attrAlias.name attrAlias
  let impl := { impl with attrAliases := attrAliases }
  let ctx := ctx.setImpl dialect impl
  if !inserted then (false, ctx)
  else
    let (inserted, attrAliasData) :=
      tryEmplace impl.attrAliasData attrAlias.aliasedAttr attrAlias
    let ctx := ctx.setImpl dialect { impl with attrAliasData := attrAliasData }
    if !inserted then (false, ctx)
    else ctx.registerDialectSymbol dialect (.attr attrAlias.aliasedAttr)

end DynamicContext

/-- A registration with some dialect. -/
inductive Call (Ty Attr OpInfo Dialect : Type) where
  | registerDynamicOp (dialect : Dialect) (op : DynamicOperation OpInfo)
  | registerTypeAlias (dialect : Dialect) (typeAlias : TypeAlias Ty)
  | registerAttrAlias (dialect : Dialect) (attrAlias : AttributeAlias Ty Attr)

namespace DynamicContext

variable [DecidableEq Ty] [DecidableEq Attr] [DecidableEq OpInfo] [DecidableEq Dialect]

def step (ctx : DynamicContext Ty Attr OpInfo Dialect) :
    Call Ty Attr OpInfo Dialect → Bool × DynamicContext Ty Attr OpInfo Dialect
  | .registerDynamicOp dialect op => registerDynamicOp dialect op ctx
  | .registerTypeAlias dialect typeAlias => registerTypeAlias dialect typeAlias ctx
  | .registerAttrAlias dialect attrAlias => registerAttrAlias dialect attrAlias ctx

/-! ## The insertions of each call -/

/-- The insertion into a map of a dialect. -/
def insertInto {K V : Type} [DecidableEq K] (dialect : Dialect)
    (get : DynamicDialectImpl Ty Attr OpInfo → K → Option V)
    (set : DynamicDialectImpl Ty Attr OpInfo → (K → Option V) → DynamicDialectImpl Ty Attr OpInfo)
    (hget : ∀ impl map, get (set impl map) = map) (key : K) (value : V) :
    Insertion (DynamicContext Ty Attr OpInfo Dialect) :=
  .emplace (fun ctx ↦ get (ctx.impl dialect))
    (fun ctx map ↦ ctx.setImpl dialect (set (ctx.impl dialect) map))
    (fun ctx map ↦ by rw [setImpl_impl_self, hget]) key value

def insertDynOp (dialect : Dialect) (op : DynamicOperation OpInfo) :
    Insertion (DynamicContext Ty Attr OpInfo Dialect) :=
  insertInto dialect (·.dynOps) (fun impl map ↦ { impl with dynOps := map }) (fun _ _ ↦ rfl)
    op.opInfo op

def insertTypeAlias (dialect : Dialect) (typeAlias : TypeAlias Ty) :
    Insertion (DynamicContext Ty Attr OpInfo Dialect) :=
  insertInto dialect (·.typeAliases) (fun impl map ↦ { impl with typeAliases := map })
    (fun _ _ ↦ rfl) typeAlias.name typeAlias

def insertTypeAliasData (dialect : Dialect) (typeAlias : TypeAlias Ty) :
    Insertion (DynamicContext Ty Attr OpInfo Dialect) :=
  insertInto dialect (·.typeAliasData) (fun impl map ↦ { impl with typeAliasData := map })
    (fun _ _ ↦ rfl) typeAlias.aliasedType typeAlias

def insertAttrAlias (dialect : Dialect) (attrAlias : AttributeAlias Ty Attr) :
    Insertion (DynamicContext Ty Attr OpInfo Dialect) :=
  insertInto dialect (·.attrAliases) (fun impl map ↦ { impl with attrAliases := map })
    (fun _ _ ↦ rfl) attrAlias.name attrAlias

def insertAttrAliasData (dialect : Dialect) (attrAlias : AttributeAlias Ty Attr) :
    Insertion (DynamicContext Ty Attr OpInfo Dialect) :=
  insertInto dialect (·.attrAliasData) (fun impl map ↦ { impl with attrAliasData := map })
    (fun _ _ ↦ rfl) attrAlias.aliasedAttr attrAlias

def insertSymbol (dialect : Dialect) (symbol : Symbol Ty Attr OpInfo) :
    Insertion (DynamicContext Ty Attr OpInfo Dialect) :=
  .emplace (·.dialectSymbols) (fun ctx map ↦ { ctx with dialectSymbols := map }) (fun _ _ ↦ rfl)
    symbol dialect

theorem registerDynamicOp_eq_insertAll (dialect : Dialect) (op : DynamicOperation OpInfo)
    (ctx : DynamicContext Ty Attr OpInfo Dialect) :
    registerDynamicOp dialect op ctx =
      insertAll [insertDynOp dialect op, insertSymbol dialect (.opName op.opInfo)] ctx := by
  simp only [registerDynamicOp, registerDialectSymbol, tryEmplace, insertAll, insertDynOp,
    insertSymbol, insertInto, Insertion.emplace]
  by_cases hop : ((ctx.impl dialect).dynOps op.opInfo).isNone
  · by_cases hsymbol : (ctx.dialectSymbols (.opName op.opInfo)).isNone
    · simp [hop, hsymbol]
    · simp [hop, hsymbol]
      rfl
  · simp [hop]
    exact ctx.setImpl_self dialect

theorem registerTypeAlias_eq_insertAll (dialect : Dialect) (typeAlias : TypeAlias Ty)
    (ctx : DynamicContext Ty Attr OpInfo Dialect) :
    registerTypeAlias dialect typeAlias ctx =
      insertAll [insertTypeAlias dialect typeAlias, insertTypeAliasData dialect typeAlias,
        insertSymbol dialect (.type typeAlias.aliasedType)] ctx := by
  simp only [registerTypeAlias, registerDialectSymbol, tryEmplace, insertAll, insertTypeAlias,
    insertTypeAliasData, insertSymbol, insertInto, Insertion.emplace]
  by_cases hname : ((ctx.impl dialect).typeAliases typeAlias.name).isNone
  · by_cases hdata : ((ctx.impl dialect).typeAliasData typeAlias.aliasedType).isNone
    · by_cases hsymbol : (ctx.dialectSymbols (.type typeAlias.aliasedType)).isNone
      · simp [hname, hdata, hsymbol]
      · simp [hname, hdata, hsymbol]
        rfl
    · simp [hname, hdata]
  · simp [hname]
    exact ctx.setImpl_self dialect

theorem registerAttrAlias_eq_insertAll (dialect : Dialect) (attrAlias : AttributeAlias Ty Attr)
    (ctx : DynamicContext Ty Attr OpInfo Dialect) :
    registerAttrAlias dialect attrAlias ctx =
      insertAll [insertAttrAlias dialect attrAlias, insertAttrAliasData dialect attrAlias,
        insertSymbol dialect (.attr attrAlias.aliasedAttr)] ctx := by
  simp only [registerAttrAlias, registerDialectSymbol, tryEmplace, insertAll, insertAttrAlias,
    insertAttrAliasData, insertSymbol, insertInto, Insertion.emplace]
  by_cases hname : ((ctx.impl dialect).attrAliases attrAlias.name).isNone
  · by_cases hdata : ((ctx.impl dialect).attrAliasData attrAlias.aliasedAttr).isNone
    · by_cases hsymbol : (ctx.dialectSymbols (.attr attrAlias.aliasedAttr)).isNone
      · simp [hname, hdata, hsymbol]
      · simp [hname, hdata, hsymbol]
        rfl
    · simp [hname, hdata]
  · simp [hname]
    exact ctx.setImpl_self dialect

end DynamicContext

end DeclarativeMlir.Dynamic

import DeclarativeMlir.Dynamic.AliasMetadata
import DeclarativeMlir.Dynamic.DialectGen
import DeclarativeMlir.Library.LoggedMaps

/-!
# The catalog of registered objects

What the maps of all dialects hold is described by a log of the objects that have been registered.
A module loads exactly if its objects are without conflicts: no name, and no aliased value, has been
taken by an earlier object that the object needs for itself.
-/

namespace DeclarativeMlir.Dynamic

open Spec LoggedMaps

/-! ## Events and what they take -/

/-- A dialect that was created, or an object that was registered. -/
inductive Event (Code : Type) where
  | dialectOp (op : DialectOp)
  | operationOp (dialect name : String) (traits : List Trait) (codes : Option (Code × Code))
  | typeOp (dialect name : String) (params : List NamedParameter)
    (codes : Option (Code × Code))
  | attributeOp (dialect name : String) (params : List NamedParameter)
    (codes : Option (Code × Code))
  | typeAlias (dialect : String) (entry : TypeAlias Ty)
  | attrAlias (dialect : String) (entry : AttributeAlias Ty Attr)

/-- The names and values that objects compete for. -/
inductive Key where
  | dialect (name : String)
  | operation (name : String)
  | type (dialect name : String)
  | attr (dialect name : String)
  | typeAlias (dialect name : String)
  | attrAlias (dialect name : String)
  | aliasedType (type : Ty)
  | aliasedAttr (attr : Attr)
  deriving DecidableEq

namespace Event

variable {Code : Type}

def takes : Event Code → List Key
  | dialectOp op => [.dialect op.name]
  | operationOp dialect name _ _ => [.operation (qualifiedName dialect name)]
  | typeOp dialect name _ _ => [.type dialect name]
  | attributeOp dialect name _ _ => [.attr dialect name]
  | typeAlias dialect entry => [.typeAlias dialect entry.name, .aliasedType entry.aliasedType]
  | attrAlias dialect entry => [.attrAlias dialect entry.name, .aliasedAttr entry.aliasedAttr]

/-- An alias needs the name of a type, without taking it. -/
def needs : Event Code → List Key
  | typeAlias dialect entry =>
    [.type dialect entry.name, .typeAlias dialect entry.name, .aliasedType entry.aliasedType]
  | attrAlias dialect entry =>
    [.attr dialect entry.name, .attrAlias dialect entry.name, .aliasedAttr entry.aliasedAttr]
  | event => event.takes

theorem takes_subset_needs (event : Event Code) : ∀ key ∈ event.takes, key ∈ event.needs := by
  intro key hkey
  cases event with
  | typeAlias dialect entry | attrAlias dialect entry => exact List.mem_cons_of_mem _ hkey
  | _ => exact hkey

/-! ## The entries of an event -/

def functionsOf (dialect val name : String) (codes : Option (Code × Code)) :
    Option FormatFunctions :=
  codes.map fun _ ↦ formatFunctions dialect val name

def dialects : Event Code → List (String × RegisteredDialect)
  | dialectOp op => [(op.name, .dynamic op.allowsUnknownOps op.allowsUnknownTypes)]
  | _ => []

def operations : Event Code → List (String × AbstractOperation)
  | operationOp dialect name traits codes =>
    [(qualifiedName dialect name, .dynamic traits (functionsOf dialect "op" name codes))]
  | _ => []

def dynOps : Event Code → List ((String × String) × DynamicOperation String)
  | operationOp dialect name _ _ =>
    [((dialect, qualifiedName dialect name),
      ⟨qualifiedName dialect name, qualifiedName dialect name⟩)]
  | _ => []

def dynTys : Event Code → List ((String × String) × DynamicTypeImpl)
  | typeOp dialect name params codes =>
    [((dialect, name), ⟨dialect, name, params, functionsOf dialect "type" name codes⟩)]
  | _ => []

def dynAttrs : Event Code → List ((String × String) × DynamicTypeImpl)
  | attributeOp dialect name params codes =>
    [((dialect, name), ⟨dialect, name, params, functionsOf dialect "attr" name codes⟩)]
  | _ => []

def typeAliases : Event Code → List ((String × String) × TypeAlias Ty)
  | typeAlias dialect entry => [((dialect, entry.name), entry)]
  | _ => []

def typeAliasData : Event Code → List ((String × Ty) × TypeAlias Ty)
  | typeAlias dialect entry => [((dialect, entry.aliasedType), entry)]
  | _ => []

def attrAliases : Event Code → List ((String × String) × AttributeAlias Ty Attr)
  | attrAlias dialect entry => [((dialect, entry.name), entry)]
  | _ => []

def attrAliasData : Event Code → List ((String × Attr) × AttributeAlias Ty Attr)
  | attrAlias dialect entry => [((dialect, entry.aliasedAttr), entry)]
  | _ => []

def dialectSymbols : Event Code → List (Symbol Ty Attr String × String)
  | operationOp dialect name _ _ => [(.opName (qualifiedName dialect name), dialect)]
  | typeAlias dialect entry => [(.type entry.aliasedType, dialect)]
  | attrAlias dialect entry => [(.attr entry.aliasedAttr, dialect)]
  | _ => []

/-- The definitions of a format, in the order in which they are made. -/
def definitions (dialect val name : String) : Option (Code × Code) → List (String × Code)
  | none => []
  | some codes =>
    [((formatFunctions dialect val name).printerName, codes.2),
      ((formatFunctions dialect val name).parserName, codes.1)]

def functions : Event Code → List (String × Code)
  | operationOp dialect name _ codes => definitions dialect "op" name codes
  | typeOp dialect name _ codes => definitions dialect "type" name codes
  | attributeOp dialect name _ codes => definitions dialect "attr" name codes
  | _ => []

end Event

/-! ## The described state -/

/-- The dialects and ops that are there before any module is loaded. -/
structure Builtins where
  dialects : String → Bool
  operations : String → Bool

def Builtins.has (builtins : Builtins) : Key → Bool
  | .dialect name => builtins.dialects name
  | .operation name => builtins.operations name
  | _ => false

variable {Code : Type}

def describeContext (log : List (Event Code)) : DynamicContext Ty Attr String String where
  impl dialect :=
    { dynOps := fun name ↦ logged Event.dynOps log (dialect, name)
      typeAliases := fun name ↦ logged Event.typeAliases log (dialect, name)
      attrAliases := fun name ↦ logged Event.attrAliases log (dialect, name)
      typeAliasData := fun type ↦ logged Event.typeAliasData log (dialect, type)
      attrAliasData := fun attr ↦ logged Event.attrAliasData log (dialect, attr) }
  dialectSymbols := logged Event.dialectSymbols log

/-- The state after the events of the log. -/
def describe (builtins : Builtins) (log : List (Event Code)) : Registry Code where
  context := describeContext log
  dialects name := if builtins.dialects name then some .builtin else logged Event.dialects log name
  operations name :=
    if builtins.operations name then some .builtin else logged Event.operations log name
  dynTys dialect name := logged Event.dynTys log (dialect, name)
  dynAttrs dialect name := logged Event.dynAttrs log (dialect, name)
  internalScope := lastLogged Event.functions log

@[simp]
theorem describe_context (builtins : Builtins) (log : List (Event Code)) :
    (describe builtins log).context = describeContext log := rfl

/-- Nothing that the events need is there already. -/
structure WellFormed (builtins : Builtins) (log : List (Event Code)) : Prop where
  apart : ∀ event ∈ log, ∀ key ∈ event.needs, builtins.has key = false
  conflictFree : ConflictFree Event.takes Event.needs log

/-- The event can follow the log. -/
structure Fresh (builtins : Builtins) (log : List (Event Code)) (event : Event Code) : Prop where
  apart : ∀ key ∈ event.needs, builtins.has key = false
  free : Free Event.takes Event.needs log event

theorem wellFormed_nil {builtins : Builtins} : WellFormed builtins ([] : List (Event Code)) :=
  ⟨by simp, conflictFree_nil⟩

theorem wellFormed_append_iff {builtins : Builtins} {log : List (Event Code)}
    {event : Event Code} :
    WellFormed builtins (log ++ [event]) ↔
      WellFormed builtins log ∧ Fresh builtins log event := by
  constructor
  · rintro ⟨hapart, hconflict⟩
    have hboth := conflictFree_append_iff.mp hconflict
    refine ⟨⟨fun earlier hearlier ↦ hapart earlier ?_, hboth.1⟩, ⟨hapart event ?_, hboth.2⟩⟩
    · exact List.mem_append_left _ hearlier
    · exact List.mem_append_right _ (List.mem_singleton_self _)
  · rintro ⟨hlog, hevent⟩
    refine ⟨fun earlier hearlier ↦ ?_, conflictFree_append_iff.mpr ⟨hlog.2, hevent.2⟩⟩
    rcases List.mem_append.mp hearlier with hmem | hmem
    · exact hlog.apart earlier hmem
    · rw [List.mem_singleton.mp hmem]
      exact hevent.apart

theorem WellFormed.of_append {builtins : Builtins} {log rest : List (Event Code)}
    (h : WellFormed builtins (log ++ rest)) : WellFormed builtins log :=
  ⟨fun event hevent ↦ h.apart event (List.mem_append_left _ hevent), h.conflictFree.of_append⟩

theorem fresh_iff_of_needs {builtins : Builtins} {log : List (Event Code)} {event : Event Code}
    {key : Key} (hneeds : event.needs = [key]) :
    Fresh builtins log event ↔
      builtins.has key = false ∧ ∀ earlier ∈ log, key ∉ earlier.takes := by
  constructor
  · rintro ⟨hapart, hfree⟩
    have hkey : key ∈ event.needs := by rw [hneeds]; exact List.mem_singleton_self key
    exact ⟨hapart key hkey, hfree key hkey⟩
  · rintro ⟨hapart, hfree⟩
    refine ⟨fun key' hkey' ↦ ?_, fun key' hkey' ↦ ?_⟩
    · rw [hneeds, List.mem_singleton] at hkey'
      rw [hkey']
      exact hapart
    · rw [hneeds, List.mem_singleton] at hkey'
      rw [hkey']
      exact hfree

theorem fresh_typeAlias_iff {builtins : Builtins} {log : List (Event Code)} {dialect : String}
    {entry : TypeAlias Ty} :
    Fresh builtins log (.typeAlias dialect entry) ↔
      (∀ earlier ∈ log, .type dialect entry.name ∉ earlier.takes) ∧
        (∀ earlier ∈ log, .typeAlias dialect entry.name ∉ earlier.takes) ∧
          ∀ earlier ∈ log, .aliasedType entry.aliasedType ∉ earlier.takes := by
  constructor
  · intro h
    simpa [Free, Event.needs] using h.free
  · intro h
    exact ⟨by simp [Event.needs, Builtins.has], by simpa [Free, Event.needs] using h⟩

theorem fresh_attrAlias_iff {builtins : Builtins} {log : List (Event Code)} {dialect : String}
    {entry : AttributeAlias Ty Attr} :
    Fresh builtins log (.attrAlias dialect entry) ↔
      (∀ earlier ∈ log, .attr dialect entry.name ∉ earlier.takes) ∧
        (∀ earlier ∈ log, .attrAlias dialect entry.name ∉ earlier.takes) ∧
          ∀ earlier ∈ log, .aliasedAttr entry.aliasedAttr ∉ earlier.takes := by
  constructor
  · intro h
    simpa [Free, Event.needs] using h.free
  · intro h
    exact ⟨by simp [Event.needs, Builtins.has], by simpa [Free, Event.needs] using h⟩

/-! ## Which keys are free -/

section Taken

variable {log : List (Event Code)}

/-- A map without an entry, in terms of what the events take. -/
theorem logged_none_iff {K V : Type} [DecidableEq K] {entries : Event Code → List (K × V)}
    {key : K} {taken : Key}
    (htakes : ∀ event : Event Code, taken ∈ event.takes ↔ ∃ entry ∈ entries event, entry.1 = key) :
    logged entries log key = none ↔ ∀ event ∈ log, taken ∉ event.takes := by
  rw [logged_eq_none_iff]
  constructor
  · intro h event hevent htaken
    obtain ⟨entry, hentry, heq⟩ := (htakes event).mp htaken
    exact h event hevent entry hentry heq
  · intro h event hevent entry hentry heq
    exact h event hevent ((htakes event).mpr ⟨entry, hentry, heq⟩)

theorem dialects_none_iff {name : String} :
    logged Event.dialects log name = none ↔ ∀ event ∈ log, .dialect name ∉ event.takes :=
  logged_none_iff fun event ↦ by cases event <;> simp [Event.takes, Event.dialects, eq_comm]

theorem operations_none_iff {name : String} :
    logged Event.operations log name = none ↔ ∀ event ∈ log, .operation name ∉ event.takes :=
  logged_none_iff fun event ↦ by cases event <;> simp [Event.takes, Event.operations, eq_comm]

theorem dynTys_none_iff {dialect name : String} :
    logged Event.dynTys log (dialect, name) = none ↔
      ∀ event ∈ log, .type dialect name ∉ event.takes :=
  logged_none_iff fun event ↦ by cases event <;> simp [Event.takes, Event.dynTys, eq_comm]

theorem dynAttrs_none_iff {dialect name : String} :
    logged Event.dynAttrs log (dialect, name) = none ↔
      ∀ event ∈ log, .attr dialect name ∉ event.takes :=
  logged_none_iff fun event ↦ by cases event <;> simp [Event.takes, Event.dynAttrs, eq_comm]

theorem typeAliases_none_iff {dialect name : String} :
    logged Event.typeAliases log (dialect, name) = none ↔
      ∀ event ∈ log, .typeAlias dialect name ∉ event.takes :=
  logged_none_iff fun event ↦ by cases event <;> simp [Event.takes, Event.typeAliases, eq_comm]

theorem attrAliases_none_iff {dialect name : String} :
    logged Event.attrAliases log (dialect, name) = none ↔
      ∀ event ∈ log, .attrAlias dialect name ∉ event.takes :=
  logged_none_iff fun event ↦ by cases event <;> simp [Event.takes, Event.attrAliases, eq_comm]

theorem symbols_opName_none_iff {name : String} :
    logged Event.dialectSymbols log (.opName name) = none ↔
      ∀ event ∈ log, .operation name ∉ event.takes :=
  logged_none_iff fun event ↦ by cases event <;> simp [Event.takes, Event.dialectSymbols, eq_comm]

theorem symbols_type_none_iff {type : Ty} :
    logged Event.dialectSymbols log (.type type) = none ↔
      ∀ event ∈ log, .aliasedType type ∉ event.takes :=
  logged_none_iff fun event ↦ by cases event <;> simp [Event.takes, Event.dialectSymbols, eq_comm]

theorem symbols_attr_none_iff {attr : Attr} :
    logged Event.dialectSymbols log (.attr attr) = none ↔
      ∀ event ∈ log, .aliasedAttr attr ∉ event.takes :=
  logged_none_iff fun event ↦ by cases event <;> simp [Event.takes, Event.dialectSymbols, eq_comm]

/-- An op that no dialect has is not in the map of one. -/
theorem dynOps_none {name : String} (h : ∀ event ∈ log, .operation name ∉ event.takes)
    (dialect : String) : logged Event.dynOps log (dialect, name) = none := by
  rw [logged_eq_none_iff]
  intro event hevent entry hentry heq
  apply h event hevent
  cases event with
  | operationOp dialect' name' traits codes =>
    obtain rfl := List.mem_singleton.mp hentry
    rw [← (Prod.mk.inj heq).2]
    exact List.mem_singleton_self _
  | _ => simp [Event.dynOps] at hentry

theorem typeAliasData_none {type : Ty} (h : ∀ event ∈ log, .aliasedType type ∉ event.takes)
    (dialect : String) : logged Event.typeAliasData log (dialect, type) = none := by
  rw [logged_eq_none_iff]
  intro event hevent entry hentry heq
  apply h event hevent
  cases event with
  | typeAlias dialect' typeAlias =>
    obtain rfl := List.mem_singleton.mp hentry
    rw [← (Prod.mk.inj heq).2]
    exact List.mem_cons_of_mem _ (List.mem_singleton_self _)
  | _ => simp [Event.typeAliasData] at hentry

theorem attrAliasData_none {attr : Attr} (h : ∀ event ∈ log, .aliasedAttr attr ∉ event.takes)
    (dialect : String) : logged Event.attrAliasData log (dialect, attr) = none := by
  rw [logged_eq_none_iff]
  intro event hevent entry hentry heq
  apply h event hevent
  cases event with
  | attrAlias dialect' attrAlias =>
    obtain rfl := List.mem_singleton.mp hentry
    rw [← (Prod.mk.inj heq).2]
    exact List.mem_cons_of_mem _ (List.mem_singleton_self _)
  | _ => simp [Event.attrAliasData] at hentry

end Taken

/-! ## The context after a registration -/

section Context

variable (ctx : DynamicContext Ty Attr String String) (dialect : String)

/-- A call succeeds exactly if the keys of all its insertions are fresh. -/
theorem step_ok_iff (call : Call Ty Attr String String) :
    (ctx.step call).1 = true ↔
      ∀ insertion ∈ DynamicContext.insertions call, insertion.fresh ctx = true := by
  have hstep := congrFun (DynamicContext.step_eq_insertAll call) ctx
  rw [hstep]
  exact Transactions.insertAll_succeeds_iff (DynamicContext.insertions_pairwise call) ctx

theorem registerDynamicOp_ok_iff (op : DynamicOperation String) :
    (DynamicContext.registerDynamicOp dialect op ctx).1 = true ↔
      (ctx.impl dialect).dynOps op.opInfo = none ∧
        ctx.dialectSymbols (.opName op.opInfo) = none := by
  have hstep := step_ok_iff ctx (.registerDynamicOp dialect op)
  simpa [DynamicContext.step, DynamicContext.insertions, DynamicContext.insertDynOp, DynamicContext.insertSymbol,
    DynamicContext.insertInto, Transactions.Insertion.emplace] using hstep

theorem registerTypeAlias_ok_iff (typeAlias : TypeAlias Ty) :
    (DynamicContext.registerTypeAlias dialect typeAlias ctx).1 = true ↔
      (ctx.impl dialect).typeAliases typeAlias.name = none ∧
        (ctx.impl dialect).typeAliasData typeAlias.aliasedType = none ∧
          ctx.dialectSymbols (.type typeAlias.aliasedType) = none := by
  have hstep := step_ok_iff ctx (.registerTypeAlias dialect typeAlias)
  simpa [DynamicContext.step, DynamicContext.insertions, DynamicContext.insertTypeAlias,
    DynamicContext.insertTypeAliasData, DynamicContext.insertSymbol,
    DynamicContext.insertInto, Transactions.Insertion.emplace] using hstep

theorem registerAttrAlias_ok_iff (attrAlias : AttributeAlias Ty Attr) :
    (DynamicContext.registerAttrAlias dialect attrAlias ctx).1 = true ↔
      (ctx.impl dialect).attrAliases attrAlias.name = none ∧
        (ctx.impl dialect).attrAliasData attrAlias.aliasedAttr = none ∧
          ctx.dialectSymbols (.attr attrAlias.aliasedAttr) = none := by
  have hstep := step_ok_iff ctx (.registerAttrAlias dialect attrAlias)
  simpa [DynamicContext.step, DynamicContext.insertions, DynamicContext.insertAttrAlias,
    DynamicContext.insertAttrAliasData, DynamicContext.insertSymbol,
    DynamicContext.insertInto, Transactions.Insertion.emplace] using hstep

end Context

/-- Two descriptions of dialects agree if they agree on the one that has changed. -/
theorem update_impl {impl impl' : String → DynamicDialectImpl Ty Attr String} {dialect : String}
    {new : DynamicDialectImpl Ty Attr String} (hself : impl' dialect = new)
    (hother : ∀ other, other ≠ dialect → impl' other = impl other) :
    Function.update impl dialect new = impl' := by
  funext other
  by_cases heq : other = dialect
  · rw [heq, Function.update_self, hself]
  · rw [Function.update_of_ne heq, hother other heq]

section Described

variable (log : List (Event Code)) (dialect : String)

/-- A fresh op enters the map of its dialect and the symbols. -/
theorem registerDynamicOp_describe {name : String} (traits : List Trait)
    (codes : Option (Code × Code))
    (hfree : ∀ event ∈ log, .operation (qualifiedName dialect name) ∉ event.takes) :
    DynamicContext.registerDynamicOp dialect
        ⟨qualifiedName dialect name, qualifiedName dialect name⟩ (describeContext log) =
      (true, describeContext (log ++ [.operationOp dialect name traits codes])) := by
  have hop := dynOps_none hfree dialect
  have hsymbol := symbols_opName_none_iff.mpr hfree
  simp only [DynamicContext.registerDynamicOp, tryEmplace, describeContext,
    DynamicContext.registerDialectSymbol, DynamicContext.setImpl, hop, hsymbol,
    Option.isNone_none, if_true, Bool.not_true, Bool.false_eq_true, if_false, Prod.mk.injEq,
    true_and, DynamicContext.mk.injEq]
  constructor
  · apply update_impl
    · rw [DynamicDialectImpl.mk.injEq]
      refine ⟨logged_append_pair_self rfl hop, ?_, ?_, ?_, ?_⟩ <;>
        rw [logged_append_of_nil rfl]
    · intro other hother
      rw [DynamicDialectImpl.mk.injEq]
      refine ⟨?_, ?_, ?_, ?_, ?_⟩
      · funext second
        exact logged_append_pair_of_ne (by rfl) hother second
      all_goals rw [logged_append_of_nil rfl]
  · exact (logged_append_of_fresh (by rfl) hsymbol).symm

/-- A fresh alias enters two maps of its dialect and the symbols. -/
theorem registerTypeAlias_describe {entry : TypeAlias Ty}
    (hname : ∀ event ∈ log, .typeAlias dialect entry.name ∉ event.takes)
    (hvalue : ∀ event ∈ log, .aliasedType entry.aliasedType ∉ event.takes) :
    DynamicContext.registerTypeAlias dialect entry (describeContext log) =
      (true, describeContext (log ++ [.typeAlias dialect entry])) := by
  have halias := typeAliases_none_iff.mpr hname
  have hdata := typeAliasData_none hvalue dialect
  have hsymbol := symbols_type_none_iff.mpr hvalue
  simp only [DynamicContext.registerTypeAlias, tryEmplace, describeContext,
    DynamicContext.registerDialectSymbol, DynamicContext.setImpl, halias, hdata, hsymbol,
    Option.isNone_none, if_true, Bool.not_true, Bool.false_eq_true, if_false, Prod.mk.injEq,
    true_and, DynamicContext.mk.injEq, Function.update_idem]
  constructor
  · apply update_impl
    · rw [DynamicDialectImpl.mk.injEq]
      refine ⟨?_, logged_append_pair_self rfl halias, ?_, logged_append_pair_self rfl hdata, ?_⟩ <;>
        rw [logged_append_of_nil rfl]
    · intro other hother
      rw [DynamicDialectImpl.mk.injEq]
      refine ⟨?_, ?_, ?_, ?_, ?_⟩
      case refine_2 =>
        funext second
        exact logged_append_pair_of_ne (by rfl) hother second
      case refine_4 =>
        funext second
        exact logged_append_pair_of_ne (by rfl) hother second
      all_goals rw [logged_append_of_nil rfl]
  · exact (logged_append_of_fresh (by rfl) hsymbol).symm

theorem registerAttrAlias_describe {entry : AttributeAlias Ty Attr}
    (hname : ∀ event ∈ log, .attrAlias dialect entry.name ∉ event.takes)
    (hvalue : ∀ event ∈ log, .aliasedAttr entry.aliasedAttr ∉ event.takes) :
    DynamicContext.registerAttrAlias dialect entry (describeContext log) =
      (true, describeContext (log ++ [.attrAlias dialect entry])) := by
  have halias := attrAliases_none_iff.mpr hname
  have hdata := attrAliasData_none hvalue dialect
  have hsymbol := symbols_attr_none_iff.mpr hvalue
  simp only [DynamicContext.registerAttrAlias, tryEmplace, describeContext,
    DynamicContext.registerDialectSymbol, DynamicContext.setImpl, halias, hdata, hsymbol,
    Option.isNone_none, if_true, Bool.not_true, Bool.false_eq_true, if_false, Prod.mk.injEq,
    true_and, DynamicContext.mk.injEq, Function.update_idem]
  constructor
  · apply update_impl
    · rw [DynamicDialectImpl.mk.injEq]
      refine ⟨?_, ?_, logged_append_pair_self rfl halias, ?_, logged_append_pair_self rfl hdata⟩ <;>
        rw [logged_append_of_nil rfl]
    · intro other hother
      rw [DynamicDialectImpl.mk.injEq]
      refine ⟨?_, ?_, ?_, ?_, ?_⟩
      case refine_3 =>
        funext second
        exact logged_append_pair_of_ne (by rfl) hother second
      case refine_5 =>
        funext second
        exact logged_append_pair_of_ne (by rfl) hother second
      all_goals rw [logged_append_of_nil rfl]
  · exact (logged_append_of_fresh (by rfl) hsymbol).symm

/-- Other events leave the context as it is. -/
theorem describeContext_append_of_nil {event : Event Code} (hops : event.dynOps = [])
    (htypes : event.typeAliases = []) (htypeData : event.typeAliasData = [])
    (hattrs : event.attrAliases = []) (hattrData : event.attrAliasData = [])
    (hsymbols : event.dialectSymbols = []) :
    describeContext (log ++ [event]) = describeContext log := by
  simp only [describeContext, logged_append_of_nil hops, logged_append_of_nil htypes,
    logged_append_of_nil htypeData, logged_append_of_nil hattrs, logged_append_of_nil hattrData,
    logged_append_of_nil hsymbols]

end Described

/-! ## The state after an event -/

/-- What is there before takes precedence, and is not updated. -/
theorem update_builtin {V : Type} {builtin : String → Bool} {name : String}
    (hname : builtin name = false) (found : V) (map : String → Option V) (value : Option V) :
    (fun other ↦ if builtin other then some found else Function.update map name value other) =
      Function.update (fun other ↦ if builtin other then some found else map other) name value := by
  funext other
  by_cases heq : other = name
  · rw [heq, Function.update_self, Function.update_self, hname]
    rfl
  · rw [Function.update_of_ne heq, Function.update_of_ne heq]

/-- The definitions of a format, if there is one. -/
def Registry.defineFormats (s : Registry Code) (functions : FormatFunctions) :
    Option (Code × Code) → Registry Code
  | none => s
  | some codes => s.defineFormat functions codes

section Described

variable {builtins : Builtins} {log : List (Event Code)} {dialect name : String}

theorem internalScope_append {event : Event Code} {val : String} {codes : Option (Code × Code)}
    (hevent : event.functions = Event.definitions dialect val name codes) :
    lastLogged Event.functions (log ++ [event]) =
      ((describe builtins log).defineFormats (formatFunctions dialect val name)
        codes).internalScope := by
  cases codes with
  | none => exact lastLogged_append_of_nil hevent
  | some pair => exact lastLogged_append_pair hevent

@[simp]
theorem defineFormats_context (s : Registry Code) (functions : FormatFunctions)
    (codes : Option (Code × Code)) : (s.defineFormats functions codes).context = s.context := by
  cases codes <;> rfl

@[simp]
theorem defineFormats_dialects (s : Registry Code) (functions : FormatFunctions)
    (codes : Option (Code × Code)) : (s.defineFormats functions codes).dialects = s.dialects := by
  cases codes <;> rfl

@[simp]
theorem defineFormats_operations (s : Registry Code) (functions : FormatFunctions)
    (codes : Option (Code × Code)) :
    (s.defineFormats functions codes).operations = s.operations := by
  cases codes <;> rfl

@[simp]
theorem defineFormats_dynTys (s : Registry Code) (functions : FormatFunctions)
    (codes : Option (Code × Code)) : (s.defineFormats functions codes).dynTys = s.dynTys := by
  cases codes <;> rfl

@[simp]
theorem defineFormats_dynAttrs (s : Registry Code) (functions : FormatFunctions)
    (codes : Option (Code × Code)) : (s.defineFormats functions codes).dynAttrs = s.dynAttrs := by
  cases codes <;> rfl

theorem describe_dialectOp {op : DialectOp} (hfresh : Fresh builtins log (.dialectOp op)) :
    describe builtins (log ++ [.dialectOp op]) = (describe builtins log).addDialect op := by
  have hfree : logged Event.dialects log op.name = none := by
    rw [dialects_none_iff]
    exact fun event hevent ↦ hfresh.free _ (List.mem_singleton_self _) event hevent
  have hbuiltin : builtins.dialects op.name = false :=
    hfresh.apart _ (List.mem_singleton_self _)
  have hmap : logged Event.dialects (log ++ [.dialectOp op]) =
      Function.update (logged Event.dialects log) op.name _ := logged_append_of_fresh rfl hfree
  simp only [describe, Registry.addDialect, Registry.mk.injEq]
  refine ⟨?_, ?_, ?_, ?_, ?_, ?_⟩
  · exact describeContext_append_of_nil log rfl rfl rfl rfl rfl rfl
  · rw [hmap]
    exact update_builtin hbuiltin _ _ _
  · rw [logged_append_of_nil rfl]
  · rw [logged_append_of_nil rfl]
  · rw [logged_append_of_nil rfl]
  · exact lastLogged_append_of_nil rfl

theorem describe_operationOp {traits : List Trait} {codes : Option (Code × Code)}
    (hfresh : Fresh builtins log (.operationOp dialect name traits codes)) :
    describe builtins (log ++ [.operationOp dialect name traits codes]) =
      { ((describe builtins log).defineFormats (formatFunctions dialect "op" name)
          codes).addOperation (qualifiedName dialect name) traits
            (Event.functionsOf dialect "op" name codes) with
        context := describeContext (log ++ [.operationOp dialect name traits codes]) } := by
  have hfree : logged Event.operations log (qualifiedName dialect name) = none := by
    rw [operations_none_iff]
    exact fun event hevent ↦ hfresh.free _ (List.mem_singleton_self _) event hevent
  have hbuiltin : builtins.operations (qualifiedName dialect name) = false :=
    hfresh.apart _ (List.mem_singleton_self _)
  have hmap : logged Event.operations (log ++ [.operationOp dialect name traits codes]) =
      Function.update (logged Event.operations log) (qualifiedName dialect name) _ :=
    logged_append_of_fresh rfl hfree
  simp only [Registry.addOperation, defineFormats_dialects, defineFormats_operations,
    defineFormats_dynTys, defineFormats_dynAttrs, describe, Registry.mk.injEq, true_and]
  refine ⟨?_, ?_, ?_, ?_, ?_⟩
  · rw [logged_append_of_nil rfl]
  · rw [hmap]
    exact update_builtin hbuiltin _ _ _
  · rw [logged_append_of_nil rfl]
  · rw [logged_append_of_nil rfl]
  · exact internalScope_append rfl

/-- A new type, with its functions if it has a format. -/
theorem describe_typeOp {params : List NamedParameter} {codes : Option (Code × Code)}
    (hfresh : Fresh builtins log (.typeOp dialect name params codes)) :
    describe builtins (log ++ [.typeOp dialect name params codes]) =
      typeKind.insert ⟨dialect, name, params, Event.functionsOf dialect "type" name codes⟩
        ((describe builtins log).defineFormats (formatFunctions dialect "type" name) codes) := by
  have hfree : logged Event.dynTys log (dialect, name) = none := by
    rw [dynTys_none_iff]
    exact fun event hevent ↦ hfresh.free _ (List.mem_singleton_self _) event hevent
  have hmap : (fun first second ↦
      logged Event.dynTys (log ++ [.typeOp dialect name params codes]) (first, second)) =
      Function.update (fun first second ↦ logged Event.dynTys log (first, second)) dialect
        (Function.update (fun second ↦ logged Event.dynTys log (dialect, second)) name _) :=
    logged_append_pair rfl hfree
  simp only [ImplKind.insert, typeKind, defineFormats_context, defineFormats_dialects,
    defineFormats_operations, defineFormats_dynTys, defineFormats_dynAttrs, describe,
    Registry.mk.injEq]
  refine ⟨?_, ?_, ?_, ?_, ?_, ?_⟩
  · exact describeContext_append_of_nil log rfl rfl rfl rfl rfl rfl
  · rw [logged_append_of_nil rfl]
  · rw [logged_append_of_nil rfl]
  · exact hmap
  · rw [logged_append_of_nil rfl]
  · exact internalScope_append rfl

theorem describe_attributeOp {params : List NamedParameter} {codes : Option (Code × Code)}
    (hfresh : Fresh builtins log (.attributeOp dialect name params codes)) :
    describe builtins (log ++ [.attributeOp dialect name params codes]) =
      attrKind.insert ⟨dialect, name, params, Event.functionsOf dialect "attr" name codes⟩
        ((describe builtins log).defineFormats (formatFunctions dialect "attr" name) codes) := by
  have hfree : logged Event.dynAttrs log (dialect, name) = none := by
    rw [dynAttrs_none_iff]
    exact fun event hevent ↦ hfresh.free _ (List.mem_singleton_self _) event hevent
  have hmap : (fun first second ↦
      logged Event.dynAttrs (log ++ [.attributeOp dialect name params codes]) (first, second)) =
      Function.update (fun first second ↦ logged Event.dynAttrs log (first, second)) dialect
        (Function.update (fun second ↦ logged Event.dynAttrs log (dialect, second)) name _) :=
    logged_append_pair rfl hfree
  simp only [ImplKind.insert, attrKind, defineFormats_context, defineFormats_dialects,
    defineFormats_operations, defineFormats_dynTys, defineFormats_dynAttrs, describe,
    Registry.mk.injEq]
  refine ⟨?_, ?_, ?_, ?_, ?_, ?_⟩
  · exact describeContext_append_of_nil log rfl rfl rfl rfl rfl rfl
  · rw [logged_append_of_nil rfl]
  · rw [logged_append_of_nil rfl]
  · rw [logged_append_of_nil rfl]
  · exact hmap
  · exact internalScope_append rfl

/-- Only the context knows of aliases. -/
theorem describe_of_alias {event : Event Code} (hdialects : event.dialects = [])
    (hoperations : event.operations = []) (htypes : event.dynTys = [])
    (hattrs : event.dynAttrs = []) (hfunctions : event.functions = []) :
    describe builtins (log ++ [event]) =
      { describe builtins log with context := describeContext (log ++ [event]) } := by
  simp only [describe, logged_append_of_nil hdialects, logged_append_of_nil hoperations,
    logged_append_of_nil htypes, logged_append_of_nil hattrs, lastLogged_append_of_nil hfunctions]

end Described

/-! ## Computations that succeed -/

section Computations

variable {ε σ α β : Type}

theorem bind_ok_iff {x : EStateM ε σ α} {f : α → EStateM ε σ β} {s s'' : σ} {b : β} :
    (x >>= f) s = .ok b s'' ↔ ∃ a s', x s = .ok a s' ∧ f a s' = .ok b s'' := by
  change EStateM.bind x f s = _ ↔ _
  rw [EStateM.bind]
  cases hx : x s with
  | ok a s' =>
    constructor
    · intro hf
      exact ⟨a, s', rfl, hf⟩
    · rintro ⟨a', s₁, heq, hf⟩
      obtain ⟨rfl, rfl⟩ := EStateM.Result.ok.inj heq
      exact hf
  | error e s' => simp

@[simp]
theorem get_ok_iff {s s' : σ} {a : σ} :
    (get : EStateM ε σ σ) s = .ok a s' ↔ a = s ∧ s' = s := by
  change EStateM.Result.ok s s = .ok a s' ↔ _
  simp [eq_comm]

@[simp]
theorem set_ok_iff {s s' new : σ} {a : PUnit} :
    (set new : EStateM ε σ PUnit) s = .ok a s' ↔ s' = new := by
  change EStateM.Result.ok PUnit.unit new = .ok a s' ↔ _
  simp [eq_comm]

@[simp]
theorem modify_ok_iff {f : σ → σ} {s s' : σ} {a : PUnit} :
    (modify f : EStateM ε σ PUnit) s = .ok a s' ↔ s' = f s := by
  change EStateM.Result.ok PUnit.unit (f s) = .ok a s' ↔ _
  simp [eq_comm]

@[simp]
theorem pure_ok_iff {s s' : σ} {a b : α} :
    (pure a : EStateM ε σ α) s = .ok b s' ↔ b = a ∧ s' = s := by
  change EStateM.Result.ok a s = .ok b s' ↔ _
  simp [eq_comm]

@[simp]
theorem throw_ok_iff {e : ε} {s s' : σ} {a : α} :
    (throw e : EStateM ε σ α) s = .ok a s' ↔ False := by
  change EStateM.Result.error e s = .ok a s' ↔ _
  simp

end Computations

/-! ## What the ops of a body register -/

section Elaborate

variable (gen : Generators Code) (s : Registry Code) (dialect : String)

/-- The functions for an assembly format, if there is one. -/
def elaborateFormat (generate : String → Option (Code × Code)) :
    Option String → Option (Option (Code × Code))
  | none => some none
  | some fmt => (generate fmt).map some

def elaborateParameters (op : ParametersOp) :
    Option (List NamedParameter × Option (Code × Code)) := do
  let params ← op.params.mapM Parameter.getNamed
  let codes ← elaborateFormat (gen.generateTypeFormat op.name params) (getAssemblyFormat op.attrs)
  return (params, codes)

/-- The object that a reparsed op describes, if it describes one. -/
def elaborate : SpecOp → Option (Event Code)
  | .operationOp op => do
    let traits ← (Spec.registerOp op).toOption
    let codes ← elaborateFormat (gen.generateOpFormat s op) (getAssemblyFormat op.config)
    return .operationOp dialect op.name traits codes
  | .typeOp op => (elaborateParameters gen op).map fun impl ↦
    .typeOp dialect op.name impl.1 impl.2
  | .attributeOp op => (elaborateParameters gen op).map fun impl ↦
    .attributeOp dialect op.name impl.1 impl.2
  | .aliasOp op =>
    match op.getAliasedType with
    | some ty => some (.typeAlias dialect ⟨op.name, ty, getBuilder op⟩)
    | none => op.aliasedAttr.map fun attr ↦
      .attrAlias dialect ⟨op.name, attr, getBuilder op, getAttrType op⟩

end Elaborate

section Steps

variable {gen : Generators Code} {builtins : Builtins} {log : List (Event Code)}
  {dialect : String} {s : Registry Code}

theorem generateFormat_ok_iff {functions : FormatFunctions} {codes : Option (Code × Code)}
    {s s' : Registry Code} {u : Unit} :
    generateFormat functions codes s = .ok u s' ↔
      ∃ pair, codes = some pair ∧ s' = s.defineFormat functions pair := by
  cases codes <;> simp [generateFormat]

theorem finalize_ok_iff {name : String} {traits : List Trait} {format : Option FormatFunctions}
    {s s' : Registry Code} {u : Unit} :
    finalize name traits format s = .ok u s' ↔
      s.operations name = none ∧ s' = s.addOperation name traits format := by
  rw [finalize, bind_ok_iff]
  simp only [get_ok_iff]
  cases hname : s.operations name with
  | none => simp [hname]
  | some op => simp [hname]

theorem registerWith_ok_iff {message : String}
    {call : DynamicContext Ty Attr String String → Bool × DynamicContext Ty Attr String String}
    {s s' : Registry Code} {u : Unit} :
    registerWith message call s = .ok u s' ↔
      (call s.context).1 = true ∧ s' = { s with context := (call s.context).2 } := by
  simp only [registerWith, bind_ok_iff, get_ok_iff, set_ok_iff]
  cases hcall : (call s.context).1 with
  | false => simp [hcall]
  | true => simp [hcall]

/-- The effects of registering an op. -/
theorem registerOp_effects {op : OperationOp} {s s' : Registry Code} {u : Unit} :
    registerOp gen dialect op s = .ok u s' ↔
      ∃ traits codes, Spec.registerOp op = .ok traits ∧
        elaborateFormat (gen.generateOpFormat s op) (getAssemblyFormat op.config) = some codes ∧
        s.operations (qualifiedName dialect op.name) = none ∧
        (DynamicContext.registerDynamicOp dialect
          ⟨qualifiedName dialect op.name, qualifiedName dialect op.name⟩ s.context).1 = true ∧
        s' = { (s.defineFormats (formatFunctions dialect "op" op.name) codes).addOperation
            (qualifiedName dialect op.name) traits
            (Event.functionsOf dialect "op" op.name codes) with
          context := (DynamicContext.registerDynamicOp dialect
            ⟨qualifiedName dialect op.name, qualifiedName dialect op.name⟩ s.context).2 } := by
  rw [registerOp]
  cases Spec.registerOp op with
  | error message => simp
  | ok traits =>
    cases getAssemblyFormat op.config with
    | none =>
      simp only [bind_ok_iff, finalize_ok_iff, registerWith_ok_iff, elaborateFormat]
      simp [Registry.defineFormats, Event.functionsOf, Registry.addOperation]
    | some fmt =>
      simp only [bind_ok_iff, finalize_ok_iff, registerWith_ok_iff, elaborateFormat,
        get_ok_iff, generateFormat_ok_iff]
      cases hcodes : gen.generateOpFormat s op fmt with
      | none => simp [hcodes]
      | some codes =>
        simp [hcodes, Registry.defineFormats, Event.functionsOf, Registry.addOperation,
          Registry.defineFormat, Registry.define]

/-- An op is registered exactly if it can be elaborated and its name is free. -/
theorem registerOp_ok_iff {op : OperationOp} {u : Unit} :
    registerOp gen dialect op (describe builtins log) = .ok u s ↔
      ∃ event, elaborate gen (describe builtins log) dialect (.operationOp op) = some event ∧
        Fresh builtins log event ∧ s = describe builtins (log ++ [event]) := by
  rw [registerOp_effects]
  have hname : (describe builtins log).operations (qualifiedName dialect op.name) = none ↔
      builtins.operations (qualifiedName dialect op.name) = false ∧
        ∀ event ∈ log, .operation (qualifiedName dialect op.name) ∉ event.takes := by
    rw [← operations_none_iff]
    cases hbuiltin : builtins.operations (qualifiedName dialect op.name) <;>
      simp [describe, hbuiltin]
  have hfresh (traits : List Trait) (codes : Option (Code × Code)) :
      Fresh builtins log (.operationOp dialect op.name traits codes) ↔
        (describe builtins log).operations (qualifiedName dialect op.name) = none := by
    have hneeds : (Event.operationOp dialect op.name traits codes).needs =
        [.operation (qualifiedName dialect op.name)] := rfl
    rw [hname, fresh_iff_of_needs hneeds]
    rfl
  constructor
  · rintro ⟨traits, codes, htraits, hcodes, hnone, -, rfl⟩
    refine ⟨.operationOp dialect op.name traits codes, ?_, (hfresh _ _).mpr hnone, ?_⟩
    · simp [elaborate, htraits, hcodes, Except.toOption]
    · rw [describe_operationOp ((hfresh _ _).mpr hnone)]
      have hcall := registerDynamicOp_describe log dialect traits codes (hname.mp hnone).2
      rw [describe_context, hcall]
  · rintro ⟨event, helaborate, hevent, rfl⟩
    obtain ⟨traits, htraits, hrest⟩ := Option.bind_eq_some_iff.mp helaborate
    obtain ⟨codes, hcodes, hevent'⟩ := Option.bind_eq_some_iff.mp hrest
    obtain rfl := Option.some.inj hevent'
    have hnone := (hfresh _ _).mp hevent
    have hcall := registerDynamicOp_describe log dialect traits codes (hname.mp hnone).2
    refine ⟨traits, codes, ?_, hcodes, hnone, ?_, ?_⟩
    · cases hregister : Spec.registerOp op with
      | error message => simp [hregister, Except.toOption] at htraits
      | ok traits' => simpa [hregister, Except.toOption] using htraits
    · rw [describe_context, hcall]
    · rw [describe_operationOp hevent, describe_context, hcall]

/-- The maps of a kind are a field of the registry, apart from the internal scope. -/
structure ImplKind.Lawful (kind : ImplKind Code) : Prop where
  get_set : ∀ s map, kind.get (kind.set s map) = map
  set_set : ∀ s map map', kind.set (kind.set s map) map' = kind.set s map'
  get_defineFormat : ∀ s functions codes,
    kind.get (s.defineFormat functions codes) = kind.get s
  set_defineFormat : ∀ s functions codes map,
    (kind.set s map).defineFormat functions codes = kind.set (s.defineFormat functions codes) map

theorem typeKind_lawful : (typeKind : ImplKind Code).Lawful :=
  ⟨fun _ _ ↦ rfl, fun _ _ _ ↦ rfl, fun _ _ _ ↦ rfl, fun _ _ _ _ ↦ rfl⟩

theorem attrKind_lawful : (attrKind : ImplKind Code).Lawful :=
  ⟨fun _ _ ↦ rfl, fun _ _ _ ↦ rfl, fun _ _ _ ↦ rfl, fun _ _ _ _ ↦ rfl⟩

/-- To set the format of a new object is to insert it with the format. -/
theorem ImplKind.Lawful.insert_defineFormat {kind : ImplKind Code} (h : kind.Lawful)
    (impl : DynamicTypeImpl) (format : Option FormatFunctions) (functions : FormatFunctions)
    (codes : Code × Code) (s : Registry Code) :
    kind.insert { impl with format := format } ((kind.insert impl s).defineFormat functions codes) =
      kind.insert { impl with format := format } (s.defineFormat functions codes) := by
  simp only [ImplKind.insert, h.set_defineFormat, h.get_set, h.set_set, h.get_defineFormat,
    Function.update_self, Function.update_idem]

/-- The effects of registering a type or an attribute. -/
theorem registerImpl_effects {kind : ImplKind Code} (hkind : kind.Lawful) {op : ParametersOp}
    {s s' : Registry Code} {u : Unit} :
    registerImpl gen dialect kind op s = .ok u s' ↔
      ∃ impl, elaborateParameters gen op = some impl ∧ kind.get s dialect op.name = none ∧
        s' = kind.insert
          ⟨dialect, op.name, impl.1, Event.functionsOf dialect kind.val op.name impl.2⟩
          (s.defineFormats (formatFunctions dialect kind.val op.name) impl.2) := by
  rw [registerImpl, elaborateParameters]
  cases op.params.mapM Parameter.getNamed with
  | none => simp
  | some params =>
    simp only [bind_ok_iff, get_ok_iff]
    cases hname : kind.get s dialect op.name with
    | some impl => simp [hname, bind_ok_iff]
    | none =>
      cases getAssemblyFormat op.attrs with
      | none =>
        simp [hname, elaborateFormat, Registry.defineFormats, Event.functionsOf]
      | some fmt =>
        cases hcodes : gen.generateTypeFormat op.name params fmt with
        | none => simp [hname, hcodes, elaborateFormat, bind_ok_iff, generateFormat_ok_iff]
        | some codes =>
          have hinsert := hkind.insert_defineFormat ⟨dialect, op.name, params, none⟩
            (some (formatFunctions dialect kind.val op.name))
            (formatFunctions dialect kind.val op.name) codes s
          simp [hname, hcodes, elaborateFormat, bind_ok_iff, generateFormat_ok_iff,
            Registry.defineFormats, Event.functionsOf, hinsert]

theorem registerType_ok_iff {op : ParametersOp} {u : Unit} :
    registerType gen dialect op (describe builtins log) = .ok u s ↔
      ∃ event, elaborate gen (describe builtins log) dialect (.typeOp op) = some event ∧
        Fresh builtins log event ∧ s = describe builtins (log ++ [event]) := by
  rw [registerType, registerImpl_effects typeKind_lawful]
  have hfresh (params : List NamedParameter) (codes : Option (Code × Code)) :
      Fresh builtins log (.typeOp dialect op.name params codes) ↔
        typeKind.get (describe builtins log) dialect op.name = none := by
    rw [fresh_iff_of_needs rfl]
    exact (and_iff_right rfl).trans dynTys_none_iff.symm
  constructor
  · rintro ⟨impl, himpl, hnone, rfl⟩
    have hevent := (hfresh impl.1 impl.2).mpr hnone
    exact ⟨_, Option.map_eq_some_iff.mpr ⟨impl, himpl, rfl⟩, hevent, (describe_typeOp hevent).symm⟩
  · rintro ⟨event, helaborate, hevent, rfl⟩
    obtain ⟨impl, himpl, rfl⟩ := Option.map_eq_some_iff.mp helaborate
    exact ⟨impl, himpl, (hfresh _ _).mp hevent, describe_typeOp hevent⟩

theorem registerAttr_ok_iff {op : ParametersOp} {u : Unit} :
    registerAttr gen dialect op (describe builtins log) = .ok u s ↔
      ∃ event, elaborate gen (describe builtins log) dialect (.attributeOp op) = some event ∧
        Fresh builtins log event ∧ s = describe builtins (log ++ [event]) := by
  rw [registerAttr, registerImpl_effects attrKind_lawful]
  have hfresh (params : List NamedParameter) (codes : Option (Code × Code)) :
      Fresh builtins log (.attributeOp dialect op.name params codes) ↔
        attrKind.get (describe builtins log) dialect op.name = none := by
    rw [fresh_iff_of_needs rfl]
    exact (and_iff_right rfl).trans dynAttrs_none_iff.symm
  constructor
  · rintro ⟨impl, himpl, hnone, rfl⟩
    have hevent := (hfresh impl.1 impl.2).mpr hnone
    exact ⟨_, Option.map_eq_some_iff.mpr ⟨impl, himpl, rfl⟩, hevent,
      (describe_attributeOp hevent).symm⟩
  · rintro ⟨event, helaborate, hevent, rfl⟩
    obtain ⟨impl, himpl, rfl⟩ := Option.map_eq_some_iff.mp helaborate
    exact ⟨impl, himpl, (hfresh _ _).mp hevent, describe_attributeOp hevent⟩

/-- A type alias is registered exactly if its name and its type are free. -/
theorem registerTypeAlias_effects {entry : TypeAlias Ty} (message : String) (u : Unit) :
    ((describe builtins log).dynTys dialect entry.name = none ∧
        registerWith message (DynamicContext.registerTypeAlias dialect entry)
          (describe builtins log) = .ok u s) ↔
      Fresh builtins log (.typeAlias dialect entry) ∧
        s = describe builtins (log ++ [.typeAlias dialect entry]) := by
  rw [registerWith_ok_iff, describe_context, registerTypeAlias_ok_iff, fresh_typeAlias_iff]
  have hstate (h : Fresh builtins log (.typeAlias dialect entry)) :
      describe builtins (log ++ [.typeAlias dialect entry]) =
        { describe builtins log with context := (DynamicContext.registerTypeAlias dialect entry
          (describeContext log)).2 } := by
    obtain ⟨-, hname, hvalue⟩ := fresh_typeAlias_iff.mp h
    rw [registerTypeAlias_describe log dialect hname hvalue]
    exact describe_of_alias rfl rfl rfl rfl rfl
  constructor
  · rintro ⟨htype, ⟨hname, -, hvalue⟩, rfl⟩
    have hfresh : Fresh builtins log (.typeAlias dialect entry) := fresh_typeAlias_iff.mpr
      ⟨dynTys_none_iff.mp htype, typeAliases_none_iff.mp hname, symbols_type_none_iff.mp hvalue⟩
    exact ⟨fresh_typeAlias_iff.mp hfresh, (hstate hfresh).symm⟩
  · rintro ⟨⟨htype, hname, hvalue⟩, rfl⟩
    exact ⟨dynTys_none_iff.mpr htype, ⟨typeAliases_none_iff.mpr hname,
      typeAliasData_none hvalue dialect, symbols_type_none_iff.mpr hvalue⟩,
      hstate (fresh_typeAlias_iff.mpr ⟨htype, hname, hvalue⟩)⟩

theorem registerAttrAlias_effects {entry : AttributeAlias Ty Attr} (message : String) (u : Unit) :
    ((describe builtins log).dynAttrs dialect entry.name = none ∧
        registerWith message (DynamicContext.registerAttrAlias dialect entry)
          (describe builtins log) = .ok u s) ↔
      Fresh builtins log (.attrAlias dialect entry) ∧
        s = describe builtins (log ++ [.attrAlias dialect entry]) := by
  rw [registerWith_ok_iff, describe_context, registerAttrAlias_ok_iff, fresh_attrAlias_iff]
  have hstate (h : Fresh builtins log (.attrAlias dialect entry)) :
      describe builtins (log ++ [.attrAlias dialect entry]) =
        { describe builtins log with context := (DynamicContext.registerAttrAlias dialect entry
          (describeContext log)).2 } := by
    obtain ⟨-, hname, hvalue⟩ := fresh_attrAlias_iff.mp h
    rw [registerAttrAlias_describe log dialect hname hvalue]
    exact describe_of_alias rfl rfl rfl rfl rfl
  constructor
  · rintro ⟨htype, ⟨hname, -, hvalue⟩, rfl⟩
    have hfresh : Fresh builtins log (.attrAlias dialect entry) := fresh_attrAlias_iff.mpr
      ⟨dynAttrs_none_iff.mp htype, attrAliases_none_iff.mp hname, symbols_attr_none_iff.mp hvalue⟩
    exact ⟨fresh_attrAlias_iff.mp hfresh, (hstate hfresh).symm⟩
  · rintro ⟨⟨htype, hname, hvalue⟩, rfl⟩
    exact ⟨dynAttrs_none_iff.mpr htype, ⟨attrAliases_none_iff.mpr hname,
      attrAliasData_none hvalue dialect, symbols_attr_none_iff.mpr hvalue⟩,
      hstate (fresh_attrAlias_iff.mpr ⟨htype, hname, hvalue⟩)⟩

theorem registerAlias_ok_iff {op : AliasOp} {u : Unit} :
    registerAlias dialect op (describe builtins log) = .ok u s ↔
      ∃ event, elaborate gen (describe builtins log) dialect (.aliasOp op) = some event ∧
        Fresh builtins log event ∧ s = describe builtins (log ++ [event]) := by
  rw [registerAlias, elaborate]
  cases op.getAliasedType with
  | some ty =>
    simp only [Option.some.injEq, exists_eq_left', bind_ok_iff, get_ok_iff]
    rw [← registerTypeAlias_effects "a type alias with this name already exists" u]
    cases htype : (describe builtins log).dynTys dialect op.name <;> simp [htype, bind_ok_iff]
  | none =>
    cases op.aliasedAttr with
    | none =>
      cases hattr : (describe builtins log).dynAttrs dialect op.name <;> simp [hattr, bind_ok_iff]
    | some attr =>
      simp only [Option.map_some, Option.some.injEq, exists_eq_left', bind_ok_iff, get_ok_iff]
      rw [← registerAttrAlias_effects "an attribute alias with this name already exists" u]
      cases hattr : (describe builtins log).dynAttrs dialect op.name <;> simp [hattr, bind_ok_iff]

/-- An op of a body is registered exactly if it can be elaborated and its event is fresh. -/
theorem registerSpecOp_ok_iff {op : SpecOp} {u : Unit} :
    registerSpecOp gen dialect op (describe builtins log) = .ok u s ↔
      ∃ event, elaborate gen (describe builtins log) dialect op = some event ∧
        Fresh builtins log event ∧ s = describe builtins (log ++ [event]) := by
  cases op with
  | operationOp op => exact registerOp_ok_iff
  | typeOp op => exact registerType_ok_iff
  | attributeOp op => exact registerAttr_ok_iff
  | aliasOp op => exact registerAlias_ok_iff

theorem createDynamicDialect_ok_iff {op : DialectOp} {u : Unit} :
    createDynamicDialect op (describe builtins log) = .ok u s ↔
      Fresh builtins log (.dialectOp op) ∧ s = describe builtins (log ++ [.dialectOp op]) := by
  have hneeds : (Event.dialectOp op : Event Code).needs = [.dialect op.name] := rfl
  have hfresh : Fresh builtins log (.dialectOp op) ↔
      (describe builtins log).dialects op.name = none := by
    rw [fresh_iff_of_needs hneeds, ← dialects_none_iff]
    cases hbuiltin : builtins.dialects op.name <;> simp [describe, Builtins.has, hbuiltin]
  rw [createDynamicDialect, bind_ok_iff]
  simp only [get_ok_iff]
  cases hname : (describe builtins log).dialects op.name with
  | some dialect => simp [hfresh, hname]
  | none => simp [hname, hfresh.mpr hname, describe_dialectOp (hfresh.mpr hname)]

end Steps

/-! ## Whole modules -/

section Modules

variable (gen : Generators Code) (builtins : Builtins)

/-- The events that the ops of a body yield, from the state after the log. -/
inductive YieldsChildren (dialect : String) :
    List (Event Code) → List SpecOp → List (Event Code) → Prop
  | nil (log : List (Event Code)) : YieldsChildren dialect log [] []
  | cons {log : List (Event Code)} {specOp op : SpecOp} {rest : List SpecOp}
      {event : Event Code} {events : List (Event Code)}
      (hreparse : reparse gen (describe builtins log) specOp = .ok op)
      (helaborate : elaborate gen (describe builtins log) dialect op = some event)
      (hrest : YieldsChildren dialect (log ++ [event]) rest events) :
      YieldsChildren dialect log (specOp :: rest) (event :: events)

/-- The events that dialects yield. -/
inductive YieldsDialects :
    List (Event Code) → List String → List DialectOp → List (Event Code) → Prop
  | nil (log : List (Event Code)) (scope : List String) : YieldsDialects log scope [] []
  | cons {log : List (Event Code)} {scope : List String} {op : DialectOp}
      {rest : List DialectOp} {events events' : List (Event Code)}
      (hchildren : YieldsChildren gen builtins op.name (log ++ [.dialectOp op]) op.body events)
      (hexpose : gen.exposeDialectInternal (describe builtins (log ++ .dialectOp op :: events))
        op.name (scope ++ [op.name]) = true)
      (hrest : YieldsDialects (log ++ .dialectOp op :: events) (scope ++ [op.name]) rest events') :
      YieldsDialects log scope (op :: rest) (.dialectOp op :: (events ++ events'))

variable {gen builtins}

/-- The children of a dialect are registered exactly if they yield events without conflicts. -/
theorem registerChildren_ok_iff {dialect : String} {body : List SpecOp}
    {log : List (Event Code)} (hlog : WellFormed builtins log) {s : Registry Code} {u : Unit} :
    registerChildren gen dialect body (describe builtins log) = .ok u s ↔
      ∃ events, YieldsChildren gen builtins dialect log body events ∧
        WellFormed builtins (log ++ events) ∧ s = describe builtins (log ++ events) := by
  induction body generalizing log with
  | nil =>
    rw [registerChildren, pure_ok_iff]
    constructor
    · rintro ⟨-, rfl⟩
      exact ⟨[], .nil log, by simpa using hlog, by rw [List.append_nil]⟩
    · rintro ⟨events, hyields, -, rfl⟩
      cases hyields
      rw [List.append_nil]
      exact ⟨rfl, rfl⟩
  | cons specOp rest ih =>
    rw [registerChildren, bind_ok_iff]
    simp only [get_ok_iff]
    constructor
    · rintro ⟨-, -, ⟨rfl, rfl⟩, hrun⟩
      cases hreparse : reparse gen (describe builtins log) specOp with
      | error error => simp [hreparse, bind_ok_iff] at hrun
      | ok op =>
        rw [hreparse] at hrun
        obtain ⟨_, s₁, hregister, hrun⟩ := bind_ok_iff.mp hrun
        obtain ⟨event, helaborate, hfresh, rfl⟩ := registerSpecOp_ok_iff.mp hregister
        have hnext := wellFormed_append_iff.mpr ⟨hlog, hfresh⟩
        obtain ⟨events, hyields, hwell, rfl⟩ := (ih hnext).mp hrun
        rw [List.append_assoc] at hwell
        exact ⟨event :: events, .cons hreparse helaborate hyields, hwell,
          by rw [List.append_assoc]; rfl⟩
    · rintro ⟨events, hyields, hwell, rfl⟩
      cases hyields with
      | @cons _ _ op _ event events hreparse helaborate hyields =>
        have happend : log ++ event :: events = log ++ [event] ++ events := by simp
        rw [happend] at hwell
        have hnext := wellFormed_append_iff.mp hwell.of_append
        refine ⟨_, _, ⟨rfl, rfl⟩, ?_⟩
        rw [hreparse]
        refine bind_ok_iff.mpr ⟨(), describe builtins (log ++ [event]), ?_, ?_⟩
        · exact registerSpecOp_ok_iff.mpr ⟨event, helaborate, hnext.2, rfl⟩
        · exact (ih hwell.of_append).mpr ⟨events, hyields, hwell, by rw [happend]⟩

theorem registerDialect_ok_iff {op : DialectOp} {scope : List String} {log : List (Event Code)}
    (hlog : WellFormed builtins log) {s : Registry Code} {u : Unit} :
    registerDialect gen op scope (describe builtins log) = .ok u s ↔
      ∃ events, YieldsChildren gen builtins op.name (log ++ [.dialectOp op]) op.body events ∧
        WellFormed builtins (log ++ .dialectOp op :: events) ∧
        s = describe builtins (log ++ .dialectOp op :: events) ∧
        gen.exposeDialectInternal s op.name scope = true := by
  have happend (events : List (Event Code)) :
      log ++ .dialectOp op :: events = log ++ [.dialectOp op] ++ events := by simp
  simp only [registerDialect, bind_ok_iff, get_ok_iff]
  constructor
  · rintro ⟨_, _, hcreate, _, s', hchildren, _, _, ⟨rfl, rfl⟩, hexpose⟩
    obtain ⟨hfresh, rfl⟩ := createDynamicDialect_ok_iff.mp hcreate
    have hnext := wellFormed_append_iff.mpr ⟨hlog, hfresh⟩
    obtain ⟨events, hyields, hwell, rfl⟩ := (registerChildren_ok_iff hnext).mp hchildren
    refine ⟨events, hyields, happend events ▸ hwell, ?_⟩
    rw [happend]
    cases hraised : gen.exposeDialectInternal
        (describe builtins (log ++ [.dialectOp op] ++ events)) op.name scope with
    | false =>
      rw [if_pos hraised] at hexpose
      exact (throw_ok_iff.mp hexpose).elim
    | true =>
      have hnot : ¬true = false := Bool.noConfusion
      rw [hraised, if_neg hnot] at hexpose
      rw [(pure_ok_iff.mp hexpose).2]
      exact ⟨rfl, hraised⟩
  · rintro ⟨events, hyields, hwell, rfl, hexpose⟩
    rw [happend] at hwell hexpose
    have hnext := wellFormed_append_iff.mp hwell.of_append
    refine ⟨(), _, createDynamicDialect_ok_iff.mpr ⟨hnext.2, rfl⟩, (), _,
      (registerChildren_ok_iff hwell.of_append).mpr ⟨events, hyields, hwell, rfl⟩, _, _,
      ⟨rfl, rfl⟩, ?_⟩
    have hnot : ¬true = false := Bool.noConfusion
    rw [hexpose, if_neg hnot]
    exact pure_ok_iff.mpr ⟨rfl, by rw [happend]⟩

theorem registerDialects_ok_iff {scope : List String} {dialects : List DialectOp}
    {log : List (Event Code)} (hlog : WellFormed builtins log) {s : Registry Code} {u : Unit} :
    registerDialects gen scope dialects (describe builtins log) = .ok u s ↔
      ∃ events, YieldsDialects gen builtins log scope dialects events ∧
        WellFormed builtins (log ++ events) ∧ s = describe builtins (log ++ events) := by
  induction dialects generalizing log scope with
  | nil =>
    rw [registerDialects, pure_ok_iff]
    constructor
    · rintro ⟨-, rfl⟩
      exact ⟨[], .nil log scope, by simpa using hlog, by rw [List.append_nil]⟩
    · rintro ⟨events, hyields, -, rfl⟩
      cases hyields
      rw [List.append_nil]
      exact ⟨rfl, rfl⟩
  | cons op rest ih =>
    have happend (events events' : List (Event Code)) :
        log ++ .dialectOp op :: (events ++ events') = log ++ .dialectOp op :: events ++ events' := by
      simp
    rw [registerDialects, bind_ok_iff]
    constructor
    · rintro ⟨_, s₁, hfirst, hrest⟩
      obtain ⟨events, hchildren, hwell, rfl, hexpose⟩ := (registerDialect_ok_iff hlog).mp hfirst
      obtain ⟨events', hyields, hwell', rfl⟩ := (ih hwell).mp hrest
      exact ⟨.dialectOp op :: (events ++ events'), .cons hchildren hexpose hyields,
        by rw [happend]; exact hwell', by rw [happend]⟩
    · rintro ⟨events, hyields, hwell, rfl⟩
      cases hyields with
      | @cons _ _ _ _ events events' hchildren hexpose hyields =>
        rw [happend] at hwell
        exact ⟨(), _, (registerDialect_ok_iff hlog).mpr
          ⟨events, hchildren, hwell.of_append, rfl, hexpose⟩,
          (ih hwell.of_append).mpr ⟨events', hyields, hwell, by rw [happend]⟩⟩

/-- A body yields its events in one way. -/
theorem YieldsChildren.unique {dialect : String} {log : List (Event Code)} {body : List SpecOp}
    {events events' : List (Event Code)} (h : YieldsChildren gen builtins dialect log body events)
    (h' : YieldsChildren gen builtins dialect log body events') : events = events' := by
  induction h generalizing events' with
  | nil log =>
    cases h'
    rfl
  | cons hreparse helaborate _ ih =>
    cases h' with
    | cons hreparse' helaborate' hrest' =>
      obtain rfl := Except.ok.inj (hreparse.symm.trans hreparse')
      obtain rfl := Option.some.inj (helaborate.symm.trans helaborate')
      rw [ih hrest']

theorem YieldsDialects.unique {log : List (Event Code)} {scope : List String}
    {dialects : List DialectOp} {events events' : List (Event Code)}
    (h : YieldsDialects gen builtins log scope dialects events)
    (h' : YieldsDialects gen builtins log scope dialects events') : events = events' := by
  induction h generalizing events' with
  | nil log scope =>
    cases h'
    rfl
  | cons hchildren _ _ ih =>
    cases h' with
    | cons hchildren' _ hrest' =>
      obtain rfl := hchildren.unique hchildren'
      rw [ih hrest']

/-- The events of a module that has been loaded. -/
theorem describe_of_load {dialects : List DialectOp} {s : Registry Code}
    {log : List (Event Code)}
    (hload : registerAllDialects gen dialects (describe builtins []) = .ok () s)
    (hyields : YieldsDialects gen builtins [] [] dialects log) :
    WellFormed builtins log ∧ s = describe builtins log := by
  obtain ⟨log', hyields', hwell, rfl⟩ := (registerDialects_ok_iff wellFormed_nil).mp hload
  obtain rfl := hyields.unique hyields'
  exact ⟨hwell, rfl⟩

end Modules

end DeclarativeMlir.Dynamic

import DeclarativeMlir.Dynamic.DialectCatalog

/-!
# Names of registered objects

The functions that are generated from formats are found under names made of a dialect, a word and
an object. Names without two adjacent underscores in the dialect tell the three apart. Types and
attributes are printed and parsed by their own names, where an alias comes first.
-/

namespace DeclarativeMlir.Dynamic

open Spec LoggedMaps

variable {Code : Type}

/-! ## Names of functions -/

/-- Two underscores end a name that has no two of them. -/
theorem append_underscores_inj {first second rest rest' : List Char}
    (hfirst : ¬['_', '_'] <:+: first) (hsecond : ¬['_', '_'] <:+: second)
    (hrest : rest.head? ≠ some '_') (hrest' : rest'.head? ≠ some '_')
    (h : first ++ '_' :: '_' :: rest = second ++ '_' :: '_' :: rest') :
    first = second ∧ rest = rest' := by
  have hone {front back mid tail tail' : List Char} (hpair : ¬['_', '_'] <:+: back)
      (hhead : tail.head? ≠ some '_') (hback : back = front ++ mid)
      (htail : '_' :: '_' :: tail = mid ++ '_' :: '_' :: tail') : mid = [] := by
    match mid with
    | [] => rfl
    | ['_'] =>
      simp only [List.cons_append, List.nil_append, List.cons.injEq, true_and] at htail
      rw [htail] at hhead
      exact absurd rfl hhead
    | c :: c' :: mid =>
      simp only [List.cons_append, List.cons.injEq] at htail
      rw [← htail.1, ← htail.2.1] at hback
      exact absurd ⟨front, mid, by simp [hback]⟩ hpair
  rcases List.append_eq_append_iff.mp h with ⟨mid, hsecond', htail⟩ | ⟨mid, hfirst', htail⟩
  · obtain rfl := hone hsecond hrest hsecond' htail
    simp only [List.append_nil, List.nil_append, List.cons.injEq, true_and] at hsecond' htail
    exact ⟨hsecond'.symm, htail⟩
  · obtain rfl := hone hfirst hrest' hfirst' htail
    simp only [List.append_nil, List.nil_append, List.cons.injEq, true_and] at hfirst' htail
    exact ⟨hfirst', htail.symm⟩

/-- No two underscores are adjacent. -/
def NoDoubleUnderscore (name : String) : Prop := ¬['_', '_'] <:+: name.toList

instance (name : String) : Decidable (NoDoubleUnderscore name) :=
  inferInstanceAs (Decidable (¬['_', '_'] <:+: name.toList))

/-- The words for ops, types and attributes. -/
def IsVal (val : String) : Prop := val = "op" ∨ val = "type" ∨ val = "attr"

theorem formatNames_inj {dialect dialect' val val' name name' : String}
    (hdialect : NoDoubleUnderscore dialect) (hdialect' : NoDoubleUnderscore dialect')
    (hval : IsVal val) (hval' : IsVal val')
    (h : "__" ++ dialect ++ "__" ++ val ++ "__" ++ name =
      "__" ++ dialect' ++ "__" ++ val' ++ "__" ++ name') :
    dialect = dialect' ∧ val = val' ∧ name = name' := by
  have hchars := congrArg String.toList h
  simp only [String.toList_append, List.append_assoc] at hchars
  have hhead (val name : String) (hval : IsVal val) :
      (val.toList ++ ("__".toList ++ name.toList)).head? ≠ some '_' := by
    rcases hval with rfl | rfl | rfl <;> simp
  have hmangled := List.append_cancel_left hchars
  obtain ⟨hdialects, hrest⟩ := append_underscores_inj hdialect hdialect' (hhead val name hval)
    (hhead val' name' hval') hmangled
  refine ⟨String.toList_inj.mp hdialects, ?_⟩
  rcases hval with rfl | rfl | rfl <;> rcases hval' with rfl | rfl | rfl <;>
    simp_all [String.toList_inj]

theorem parse_append_ne (name name' : String) : "parse" ++ name ≠ "print" ++ name' := by
  intro h
  have hchars := congrArg String.toList h
  simp at hchars

/-- Definitions of one name are of one object, and the same one of its two functions. -/
theorem definitions_inj {dialect dialect' val val' name name' : String}
    {codes codes' : Option (Code × Code)} {definition definition' : String × Code}
    (hdialect : NoDoubleUnderscore dialect) (hdialect' : NoDoubleUnderscore dialect')
    (hval : IsVal val) (hval' : IsVal val')
    (hdefinition : definition ∈ Event.definitions dialect val name codes)
    (hdefinition' : definition' ∈ Event.definitions dialect' val' name' codes')
    (heq : definition.1 = definition'.1) :
    dialect = dialect' ∧ val = val' ∧ name = name' ∧
      (codes = codes' → definition.2 = definition'.2) := by
  cases codes with
  | none => simp [Event.definitions] at hdefinition
  | some pair =>
    cases codes' with
    | none => simp [Event.definitions] at hdefinition'
    | some pair' =>
      simp only [Event.definitions, List.mem_cons, List.not_mem_nil, or_false]
        at hdefinition hdefinition'
      rcases hdefinition with rfl | rfl <;> rcases hdefinition' with rfl | rfl
      · have hnames := formatNames_inj hdialect hdialect' hval hval' ((String.append_right_inj _).mp heq)
        exact ⟨hnames.1, hnames.2.1, hnames.2.2, fun h ↦ by rw [Option.some.inj h]⟩
      · exact absurd heq.symm (parse_append_ne _ _)
      · exact absurd heq (parse_append_ne _ _)
      · have hnames := formatNames_inj hdialect hdialect' hval hval' ((String.append_right_inj _).mp heq)
        exact ⟨hnames.1, hnames.2.1, hnames.2.2, fun h ↦ by rw [Option.some.inj h]⟩

/-! ## Which functions are found -/

section Functions

variable {builtins : Builtins} {log : List (Event Code)}

/-- Every generated function is the one that is found under its name. -/
def FunctionsFound (s : Registry Code) (log : List (Event Code)) : Prop :=
  ∀ event ∈ log, ∀ definition ∈ event.functions,
    s.internalScope definition.1 = some definition.2

/-- Functions of one name are the same. -/
def FunctionsAgree (log : List (Event Code)) : Prop :=
  ∀ event ∈ log, ∀ definition ∈ event.functions, ∀ event' ∈ log, ∀ definition' ∈ event'.functions,
    definition.1 = definition'.1 → definition.2 = definition'.2

theorem functionsFound_iff_agree :
    FunctionsFound (describe builtins log) log ↔ FunctionsAgree log :=
  lastLogged_all_iff

/-- An object that can have a format: its names, and its functions if it has one. -/
structure Object (Code : Type) where
  dialect : String
  val : String
  name : String
  codes : Option (Code × Code)

def Event.object : Event Code → Option (Object Code)
  | .operationOp dialect name _ codes => some ⟨dialect, "op", name, codes⟩
  | .typeOp dialect name _ codes => some ⟨dialect, "type", name, codes⟩
  | .attributeOp dialect name _ codes => some ⟨dialect, "attr", name, codes⟩
  | _ => none

/-- The name that an object takes. -/
def Object.key (object : Object Code) : Key :=
  if object.val = "op" then .operation (qualifiedName object.dialect object.name)
  else if object.val = "type" then .type object.dialect object.name
  else .attr object.dialect object.name

theorem exists_object {event : Event Code} {definition : String × Code}
    (h : definition ∈ event.functions) :
    ∃ object, event.object = some object ∧
      definition ∈ Event.definitions object.dialect object.val object.name object.codes := by
  cases event with
  | operationOp dialect name traits codes => exact ⟨⟨dialect, "op", name, codes⟩, rfl, h⟩
  | typeOp dialect name params codes => exact ⟨⟨dialect, "type", name, codes⟩, rfl, h⟩
  | attributeOp dialect name params codes => exact ⟨⟨dialect, "attr", name, codes⟩, rfl, h⟩
  | _ => simp [Event.functions] at h

theorem isVal_of_object {event : Event Code} {object : Object Code}
    (h : event.object = some object) : IsVal object.val ∧ object.key ∈ event.takes := by
  cases event with
  | operationOp dialect name traits codes =>
    obtain rfl := Option.some.inj h
    exact ⟨.inl rfl, List.mem_singleton_self _⟩
  | typeOp dialect name params codes =>
    obtain rfl := Option.some.inj h
    exact ⟨.inr (.inl rfl), List.mem_singleton_self _⟩
  | attributeOp dialect name params codes =>
    obtain rfl := Option.some.inj h
    exact ⟨.inr (.inr rfl), List.mem_singleton_self _⟩
  | _ => simp [Event.object] at h

/-- Without conflicts, and with dialects whose names have no two adjacent underscores, functions of
one name are of one object. -/
theorem functionsAgree_of_names (hlog : WellFormed builtins log)
    (hnames : ∀ event ∈ log, ∀ object, event.object = some object →
      NoDoubleUnderscore object.dialect) : FunctionsAgree log := by
  intro event hevent definition hdefinition event' hevent' definition' hdefinition' heq
  obtain ⟨object, hobject, hmem⟩ := exists_object hdefinition
  obtain ⟨object', hobject', hmem'⟩ := exists_object hdefinition'
  obtain ⟨hval, hkey⟩ := isVal_of_object hobject
  obtain ⟨hval', hkey'⟩ := isVal_of_object hobject'
  obtain ⟨hdialect, hvals, hname, hcodes⟩ := definitions_inj (hnames event hevent object hobject)
    (hnames event' hevent' object' hobject') hval hval' hmem hmem' heq
  have hsame : object.key = object'.key := by
    simp only [Object.key, hdialect, hvals, hname]
  have hneeds (event : Event Code) (_ : event ∈ log) := event.takes_subset_needs
  obtain rfl := hlog.conflictFree.eq_of_takes hneeds hevent hevent' (hsame ▸ hkey) hkey'
  obtain rfl := Option.some.inj (hobject.symm.trans hobject')
  exact hcodes rfl

end Functions

/-! ## The objects of a module -/

section Modules

variable {gen : Generators Code} {builtins : Builtins}

theorem object_of_elaborate {s : Registry Code} {dialect : String} {op : SpecOp}
    {event : Event Code} {object : Object Code}
    (helaborate : elaborate gen s dialect op = some event) (hobject : event.object = some object) :
    object.dialect = dialect := by
  cases op with
  | operationOp op =>
    obtain ⟨traits, -, hrest⟩ := Option.bind_eq_some_iff.mp helaborate
    obtain ⟨codes, -, hevent⟩ := Option.bind_eq_some_iff.mp hrest
    obtain rfl := Option.some.inj hevent
    rw [← Option.some.inj hobject]
  | typeOp op =>
    obtain ⟨impl, -, rfl⟩ := Option.map_eq_some_iff.mp helaborate
    rw [← Option.some.inj hobject]
  | attributeOp op =>
    obtain ⟨impl, -, rfl⟩ := Option.map_eq_some_iff.mp helaborate
    rw [← Option.some.inj hobject]
  | aliasOp op =>
    rw [elaborate] at helaborate
    cases htype : op.getAliasedType with
    | some ty =>
      rw [htype] at helaborate
      obtain rfl := Option.some.inj helaborate
      simp [Event.object] at hobject
    | none =>
      rw [htype] at helaborate
      obtain ⟨attr, -, rfl⟩ := Option.map_eq_some_iff.mp helaborate
      simp [Event.object] at hobject

theorem dialect_of_children {dialect : String} {log : List (Event Code)} {body : List SpecOp}
    {events : List (Event Code)} (h : YieldsChildren gen builtins dialect log body events)
    {event : Event Code} (hevent : event ∈ events) {object : Object Code}
    (hobject : event.object = some object) : object.dialect = dialect := by
  induction h with
  | nil log => simp at hevent
  | cons hreparse helaborate hrest ih =>
    rcases List.mem_cons.mp hevent with rfl | hlater
    · exact object_of_elaborate helaborate hobject
    · exact ih hlater

/-- Every object belongs to a dialect of the module. -/
theorem dialect_of_dialects {log : List (Event Code)} {scope : List String}
    {dialects : List DialectOp} {events : List (Event Code)}
    (h : YieldsDialects gen builtins log scope dialects events)
    {event : Event Code} (hevent : event ∈ events) {object : Object Code}
    (hobject : event.object = some object) : ∃ op ∈ dialects, object.dialect = op.name := by
  induction h with
  | nil log scope => simp at hevent
  | @cons log scope op rest events events' hchildren hexpose hrest ih =>
    rcases List.mem_cons.mp hevent with rfl | hevent
    · simp [Event.object] at hobject
    · rcases List.mem_append.mp hevent with hmem | hmem
      · exact ⟨op, List.mem_cons_self .., dialect_of_children hchildren hmem hobject⟩
      · obtain ⟨op', hop', hdialect⟩ := ih hmem
        exact ⟨op', List.mem_cons_of_mem _ hop', hdialect⟩

/-- The dialects of a module tell its functions apart. -/
theorem functionsFound_of_names {dialects : List DialectOp} {log : List (Event Code)}
    (hyields : YieldsDialects gen builtins [] [] dialects log) (hwell : WellFormed builtins log)
    (hnames : ∀ op ∈ dialects, NoDoubleUnderscore op.name) :
    FunctionsFound (describe builtins log) log := by
  refine functionsFound_iff_agree.mpr (functionsAgree_of_names hwell ?_)
  intro event hevent object hobject
  obtain ⟨op, hop, hdialect⟩ := dialect_of_dialects hyields hevent hobject
  rw [hdialect]
  exact hnames op hop

/-- Generators that accept everything. -/
def plainGenerators : Generators String where
  reparseType _ ty := some ty
  reparseAttr _ attr := some attr
  generateOpFormat _ op _ := some ("parse " ++ op.name, "print " ++ op.name)
  generateTypeFormat name _ _ := some ("parse " ++ name, "print " ++ name)
  exposeDialectInternal _ _ _ := true

/-- A dialect with a type that has a format. -/
def boxDialect : DialectOp where
  name := "toy"
  allowsUnknownOps := false
  allowsUnknownTypes := false
  body := [.typeOp ⟨"box", [], [("fmt", .string "")]⟩]

def noBuiltins : Builtins := ⟨fun _ ↦ false, fun _ ↦ false⟩

/-- The log of the dialect. -/
def boxLog : List (Event String) :=
  [.dialectOp boxDialect, .typeOp "toy" "box" [] (some ("parse box", "print box"))]

theorem boxDialect_yields :
    YieldsDialects plainGenerators noBuiltins [] [] [boxDialect] boxLog := by
  have hchildren : YieldsChildren plainGenerators noBuiltins boxDialect.name
      [.dialectOp boxDialect] boxDialect.body
      [.typeOp "toy" "box" [] (some ("parse box", "print box"))] := .cons rfl rfl (.nil _)
  have hdialects : YieldsDialects plainGenerators noBuiltins [] [] [boxDialect]
      (.dialectOp boxDialect ::
        ([.typeOp "toy" "box" [] (some ("parse box", "print box"))] ++ [])) :=
    .cons hchildren rfl (.nil _ _)
  exact hdialects

theorem boxDialect_loads :
    registerAllDialects plainGenerators [boxDialect] (describe noBuiltins []) =
      .ok () (describe noBuiltins boxLog) := by
  refine (registerDialects_ok_iff wellFormed_nil).mpr ⟨boxLog, boxDialect_yields, ⟨?_, ?_⟩, rfl⟩
  · simp [boxLog, Event.needs, Event.takes, Builtins.has, noBuiltins]
  · simp [boxLog, ConflictFree, Event.needs, Event.takes]

theorem boxDialect_name : ∀ op ∈ [boxDialect], NoDoubleUnderscore op.name := by
  intro op hop
  rw [List.mem_singleton.mp hop]
  decide

end Modules

end DeclarativeMlir.Dynamic

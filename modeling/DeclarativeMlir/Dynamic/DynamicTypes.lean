import DeclarativeMlir.Dynamic.RegisteredNames
import DeclarativeMlir.Library.TokenParsing

/-!
# Dynamic types and attributes

A dynamic type is printed with its name and its parameters, by the printer of its format if it has
one. The parser of a dialect reads the name first, and an alias of that name comes before a type.
-/

namespace DeclarativeMlir.Dynamic

open Spec LoggedMaps TokenParsing

inductive AsmToken where
  | word (text : String)
  | less
  | comma
  | greater
  | attr (attr : Attr)
  deriving DecidableEq

abbrev AsmParser := Parser AsmToken

/-- What the generated functions do, and the verification of parameters. -/
structure Runtime (Code : Type) where
  execParser : Code → AsmParser (List Attr)
  execPrinter : Code → List Attr → List AsmToken
  /-- `SpecAttrs::delegateVerify` -/
  delegateVerify : Attr → Attr → Bool

variable {Code : Type}

/-! ## Parsers and printers -/

def AsmParser.parseKeyword : AsmParser String := token fun
  | .word text => if isKeyword text then some text else none
  | _ => none

def AsmParser.parseAttribute : AsmParser Attr := token fun
  | .attr attr => some attr
  | _ => none

section Objects

variable (runtime : Runtime Code) (s : Registry Code)

/-- There is a parameter for each name, and it satisfies the constraint. -/
def verifyConstructionInvariants (impl : DynamicTypeImpl) (params : List Attr) : Bool :=
  impl.paramSpec.length == params.length &&
    (impl.paramSpec.zip params).all fun pair ↦ runtime.delegateVerify pair.1.constraint pair.2

/-- The parameters in angle brackets, if there are any. -/
def genericParams : AsmParser (List Attr) := do
  if ← optional .less then
    let params ← sepList AsmParser.parseAttribute .comma
    expect .greater
    return params
  else return []

/-- The parameters, by the parser of the format or in the generic form. -/
def parseParams (impl : DynamicTypeImpl) : AsmParser (List Attr) :=
  match impl.format with
  | some functions =>
    match s.internalScope functions.parserName with
    | none => failure
    | some code => runtime.execParser code
  | none => genericParams

/-- What a dialect parses: the value of an alias, or a type or attribute of its own. -/
inductive Parsed where
  | aliased (value : Ty ⊕ Attr)
  | dynamic (impl : DynamicTypeImpl) (params : List Attr)
  deriving DecidableEq

/-- `DynamicTypeImpl::parseType` and `DynamicAttributeImpl::parseAttribute` -/
def DynamicTypeImpl.parse (impl : DynamicTypeImpl) : AsmParser Parsed := do
  let params ← parseParams runtime s impl
  if verifyConstructionInvariants runtime impl params then return .dynamic impl params else failure

/-- `DynamicTypeImpl::printType` and `DynamicAttributeImpl::printAttribute` -/
def DynamicTypeImpl.print (impl : DynamicTypeImpl) (params : List Attr) : Option (List AsmToken) :=
  match impl.format with
  | some functions =>
    (s.internalScope functions.printerName).map fun code ↦ runtime.execPrinter code params
  | none =>
    if params.isEmpty then some [.word impl.name]
    else some (.word impl.name :: .less :: (interleave .comma (fun param ↦ [.attr param]) params ++
      [.greater]))

inductive NamedKind where
  | type
  | attr
  deriving DecidableEq

namespace NamedKind

/-- `lookupType` and `lookupAttr` -/
def lookup (dialect name : String) : NamedKind → Option DynamicTypeImpl
  | type => s.dynTys dialect name
  | attr => s.dynAttrs dialect name

/-- The value of an alias. -/
def lookupAlias (dialect name : String) : NamedKind → Option (Ty ⊕ Attr)
  | type => (s.context.lookupTypeAlias dialect name).map fun typeAlias ↦ .inl typeAlias.aliasedType
  | attr => (s.context.lookupAttrAlias dialect name).map fun attrAlias ↦ .inr attrAlias.aliasedAttr

/-- `DynamicDialect::parseType` and `DynamicDialect::parseAttribute`: return an alias if one is
found, else look up an object and call its parser. -/
def parse (kind : NamedKind) (dialect : String) : AsmParser Parsed := do
  let name ← AsmParser.parseKeyword
  match kind.lookupAlias s dialect name with
  | some value => return .aliased value
  | none =>
    match kind.lookup s dialect name with
    | none => failure
    | some impl => impl.parse runtime s

end NamedKind

end Objects

/-! ## What is looked up -/

namespace NamedKind

/-- The object of the kind that an event declares, with its functions. -/
def declares : NamedKind → Event Code → Option (DynamicTypeImpl × Option (Code × Code))
  | type, .typeOp dialect name params codes =>
    some (⟨dialect, name, params, Event.functionsOf dialect "type" name codes⟩, codes)
  | attr, .attributeOp dialect name params codes =>
    some (⟨dialect, name, params, Event.functionsOf dialect "attr" name codes⟩, codes)
  | _, _ => none

/-- What objects of the kind take. -/
def key : NamedKind → String → String → Key
  | type => .type
  | attr => .attr

def aliasKey : NamedKind → String → String → Key
  | type => .typeAlias
  | attr => .attrAlias

variable {builtins : Builtins} {log : List (Event Code)} {kind : NamedKind}

theorem key_of_declares {event : Event Code} {impl : DynamicTypeImpl}
    {codes : Option (Code × Code)} (h : kind.declares event = some (impl, codes)) :
    kind.key impl.dialect impl.name ∈ event.takes := by
  cases kind <;> cases event <;> simp [declares] at h
  all_goals
    obtain ⟨rfl, rfl⟩ := h
    exact List.mem_singleton_self _

/-- An object that has been declared is found. -/
theorem lookup_of_declares (hlog : WellFormed builtins log) {event : Event Code}
    (hevent : event ∈ log) {impl : DynamicTypeImpl} {codes : Option (Code × Code)}
    (h : kind.declares event = some (impl, codes)) :
    kind.lookup (describe builtins log) impl.dialect impl.name = some impl := by
  have hneeds (event : Event Code) (_ : event ∈ log) := event.takes_subset_needs
  have hkey := key_of_declares h
  cases kind with
  | type =>
    refine logged_of_mem hevent ?_ fun event' hevent' entry hentry heq ↦ ?_
    · cases event <;> simp [declares] at h
      obtain ⟨rfl, rfl⟩ := h
      exact List.mem_singleton_self _
    · cases event' <;> simp [Event.dynTys] at hentry
      obtain rfl := hentry
      obtain ⟨rfl, rfl⟩ := Prod.mk.inj heq
      obtain rfl := hlog.conflictFree.eq_of_takes hneeds hevent hevent' hkey
        (List.mem_singleton_self _)
      simp only [declares, Option.some.injEq, Prod.mk.injEq] at h
      exact h.1
  | attr =>
    refine logged_of_mem hevent ?_ fun event' hevent' entry hentry heq ↦ ?_
    · cases event <;> simp [declares] at h
      obtain ⟨rfl, rfl⟩ := h
      exact List.mem_singleton_self _
    · cases event' <;> simp [Event.dynAttrs] at hentry
      obtain rfl := hentry
      obtain ⟨rfl, rfl⟩ := Prod.mk.inj heq
      obtain rfl := hlog.conflictFree.eq_of_takes hneeds hevent hevent' hkey
        (List.mem_singleton_self _)
      simp only [declares, Option.some.injEq, Prod.mk.injEq] at h
      exact h.1

theorem lookupAlias_none_iff {dialect name : String} :
    kind.lookupAlias (describe builtins log) dialect name = none ↔
      ∀ event ∈ log, kind.aliasKey dialect name ∉ event.takes := by
  cases kind with
  | type => exact Option.map_eq_none_iff.trans typeAliases_none_iff
  | attr => exact Option.map_eq_none_iff.trans attrAliases_none_iff

/-- An alias for a name that a type has taken is a conflict. -/
theorem key_mem_needs {event : Event Code} {dialect name : String}
    (h : kind.aliasKey dialect name ∈ event.takes) : kind.key dialect name ∈ event.needs := by
  cases kind <;> cases event <;> simp_all [aliasKey, key, Event.takes, Event.needs]

/-- Only the aliases that come before an object can hide it. -/
theorem lookupAlias_none_iff_front {front back : List (Event Code)} {event : Event Code}
    (hlog : WellFormed builtins (front ++ event :: back)) {impl : DynamicTypeImpl}
    {codes : Option (Code × Code)} (h : kind.declares event = some (impl, codes)) :
    kind.lookupAlias (describe builtins (front ++ event :: back)) impl.dialect impl.name = none ↔
      ∀ earlier ∈ front, kind.aliasKey impl.dialect impl.name ∉ earlier.takes := by
  rw [lookupAlias_none_iff]
  constructor
  · intro hnone earlier hearlier
    exact hnone earlier (List.mem_append_left _ hearlier)
  · intro hfront other hother halias
    rcases List.mem_append.mp hother with hmem | hmem
    · exact hfront other hmem halias
    · rcases List.mem_cons.mp hmem with rfl | hlater
      · cases kind <;> cases other <;> simp_all [declares, aliasKey, Event.takes]
      · have hpair := (List.pairwise_append.mp hlog.conflictFree).2.1
        have hconflict := (List.pairwise_cons.mp hpair).1 other hlater
        exact hconflict _ (key_mem_needs halias) (key_of_declares h)

end NamedKind

/-! ## Reading back -/

section RoundTrip

variable {runtime : Runtime Code} {s : Registry Code} {kind : NamedKind} {impl : DynamicTypeImpl}
  {codes : Option (Code × Code)} {params : List Attr} {rest : List AsmToken}

/-- The functions of a format print the name and read the parameters back. Without a format,
nothing behind the object can be taken for its parameters. -/
def Restores (runtime : Runtime Code) (name : String) (params : List Attr) (rest : List AsmToken) :
    Option (Code × Code) → Prop
  | none => rest.head? ≠ some .less
  | some codes => ∃ body, runtime.execPrinter codes.2 params = .word name :: body ∧
      Reads (runtime.execParser codes.1) body params rest

/-- What the printer writes is read back as the same object. -/
def RoundTrips (runtime : Runtime Code) (s : Registry Code) (kind : NamedKind)
    (impl : DynamicTypeImpl) (params : List Attr) (rest : List AsmToken) : Prop :=
  ∃ text, impl.print runtime s params = some text ∧
    Reads (kind.parse runtime s impl.dialect) text (.dynamic impl params) rest

theorem reads_parseAttribute (attr : Attr) (rest : List AsmToken) :
    Reads AsmParser.parseAttribute [.attr attr] attr rest :=
  Reads.token (by rfl) rest

/-- The generic form. -/
theorem reads_genericParams (h : rest.head? ≠ some .less) (hformat : impl.format = none) :
    ∃ body, impl.print runtime s params = some (.word impl.name :: body) ∧
      Reads (parseParams runtime s impl) body params rest := by
  have hparse : parseParams runtime s impl = genericParams := by
    rw [parseParams, hformat]
  rw [DynamicTypeImpl.print, hparse, hformat, genericParams]
  cases params with
  | nil => exact ⟨[], by simp, Reads.bind_nil (Reads.optional_false h) (Reads.pure [] rest)⟩
  | cons param params =>
    refine ⟨.less :: (interleave .comma (fun param ↦ [.attr param]) (param :: params) ++
      [.greater]), by simp, ?_⟩
    apply Reads.bind_cons (Reads.optional_true AsmToken.less _)
    rw [if_pos rfl]
    refine Reads.bind (Reads.sepList (fun attr _ rest' _ ↦ ?_) (by simp) (by simp)) ?_
    · exact reads_parseAttribute attr rest'
    · exact Reads.bind_pure (Reads.expect AsmToken.greater rest) (Reads.pure _ rest)

/-- The form that a format gives. -/
theorem reads_params {log : List (Event Code)} {event : Event Code} (hevent : event ∈ log)
    (hfound : FunctionsFound s log) (hdeclares : kind.declares event = some (impl, codes))
    (hrestores : Restores runtime impl.name params rest codes) :
    ∃ body, impl.print runtime s params = some (.word impl.name :: body) ∧
      Reads (parseParams runtime s impl) body params rest := by
  have hformat : ∃ val, impl.format = Event.functionsOf impl.dialect val impl.name codes ∧
      event.functions = Event.definitions impl.dialect val impl.name codes := by
    cases kind <;> cases event <;> simp [NamedKind.declares] at hdeclares
    all_goals
      obtain ⟨rfl, rfl⟩ := hdeclares
      exact ⟨_, rfl, rfl⟩
  obtain ⟨val, hformat, hfunctions⟩ := hformat
  cases codes with
  | none => exact reads_genericParams hrestores hformat
  | some pair =>
    obtain ⟨body, hprint, hreads⟩ := hrestores
    have hdefinitions := hfound event hevent
    rw [hfunctions] at hdefinitions
    have hprinter := hdefinitions _ (List.mem_cons_self ..)
    have hparser := hdefinitions _ (List.mem_cons_of_mem _ (List.mem_singleton_self _))
    refine ⟨body, ?_, ?_⟩
    · simp only [DynamicTypeImpl.print, hformat, Event.functionsOf, Option.map_some, hprinter,
        hprint]
    · simpa only [parseParams, hformat, Event.functionsOf, Option.map_some, hparser] using hreads

theorem run_parseKeyword (name : String) (input : List AsmToken) :
    AsmParser.parseKeyword.run (.word name :: input) =
      if isKeyword name then some (name, input) else none := by
  cases hkeyword : isKeyword name <;> simp [AsmParser.parseKeyword, token, StateT.run, hkeyword]

/-- An object is read back exactly if its name is a keyword that stands for no alias. -/
theorem roundTrips_iff {body : List AsmToken}
    (hprint : impl.print runtime s params = some (.word impl.name :: body))
    (hreads : Reads (parseParams runtime s impl) body params rest)
    (hlookup : kind.lookup s impl.dialect impl.name = some impl)
    (hverify : verifyConstructionInvariants runtime impl params = true) :
    RoundTrips runtime s kind impl params rest ↔
      isKeyword impl.name = true ∧ kind.lookupAlias s impl.dialect impl.name = none := by
  have hrun : RoundTrips runtime s kind impl params rest ↔
      (kind.parse runtime s impl.dialect).run (.word impl.name :: (body ++ rest)) =
        some (.dynamic impl params, rest) := by
    simp [RoundTrips, hprint, Reads]
  rw [hrun, NamedKind.parse, StateT.run_bind, run_parseKeyword]
  cases isKeyword impl.name with
  | false => simp
  | true =>
    cases halias : kind.lookupAlias s impl.dialect impl.name with
    | some value => simp [halias]
    | none =>
      have hparse : (impl.parse runtime s).run (body ++ rest) = some (.dynamic impl params, rest) := by
        rw [DynamicTypeImpl.parse, hreads.run_bind, if_pos hverify]
        rfl
      simp [halias, hlookup, hparse]

end RoundTrip

/-- Functions that print the name of a type, and read nothing. -/
def boxRuntime : Runtime String where
  execParser _ := return []
  execPrinter _ _ := [.word "box"]
  delegateVerify _ _ := true

end DeclarativeMlir.Dynamic

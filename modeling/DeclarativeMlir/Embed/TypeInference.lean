import DeclarativeMlir.Embed.GeneratedPython
import DeclarativeMlir.Library.Segments

/-!
# Types that the generated parser infers

The generated parser ends with the statements of `genParserTypeResolution`. They give every operand
and every result a list of types: the one the format has read, the list with the type of a builder,
or the list of another value. An instance that has been printed gets its types back if these lists
are as long as the groups of values they stand for.
-/

namespace DeclarativeMlir.Embed.OpGenerator

open Spec OpFormat Segments

variable {T V : Type}

/-! ## Running the statements -/

/-- The values of each operand with their types, and the types of each result. -/
structure OpInstance (V T : Type) where
  operands : List (List (V × T))
  results : List (List T)

def OpInstance.operandTypes (inst : OpInstance V T) : List (List T) :=
  inst.operands.map (List.map Prod.snd)

def OpInstance.types (inst : OpInstance V T) (value : ValueRef) : List T :=
  match value.kind with
  | .operand => (inst.operandTypes[value.idx]?).getD []
  | .result => (inst.results[value.idx]?).getD []

/-- The Python variables with the suffixes `Types` and `Operands`. -/
structure ParserEnv (V T : Type) where
  types : String → Option (List T)
  operands : String → Option (List V)

/-- The variables `odsBuildableType…` and what has been put into `result`. -/
structure ResolveState (V T : Type) where
  buildable : ℕ → Option T
  operands : List (V × T)
  types : List T

def evalTypes (env : ParserEnv V T) (s : ResolveState V T) : TypeList → Option (List T)
  | .buildable idx => (s.buildable idx).map fun type ↦ [type]
  | .types name => env.types name

/-- `resolveOperands` fails if there are not as many types as operands. -/
def execResolve (env : ParserEnv V T) (build : String → T) (s : ResolveState V T) :
    ResolveStmt → Option (ResolveState V T)
  | .buildableType idx builder =>
    some { s with buildable := Function.update s.buildable idx (some (build builder)) }
  | .addTypes list => do
    let types ← evalTypes env s list
    some { s with types := s.types ++ types }
  | .resolveOperands names lists => do
    let operands ← names.mapM env.operands
    let types ← lists.mapM (evalTypes env s)
    if operands.flatten.length = types.flatten.length then
      some { s with operands := s.operands ++ operands.flatten.zip types.flatten }
    else none

/-- The types that the generated parser gives to the operands and the results. -/
def resolveTypes (env : ParserEnv V T) (build : String → T) (code : List ResolveStmt) :
    Option (List (V × T) × List T) :=
  (code.foldlM (execResolve env build) ⟨fun _ ↦ none, [], []⟩).map fun s ↦
    (s.operands, s.types)

/-! ## Instances -/

section

variable (md : Metadata) (op : OperationOp) (fmt : OperationFormat) (build : String → T)

/-- The elements of the format have read what has been printed for the instance. -/
structure ReadsInstance (env : ParserEnv V T) (inst : OpInstance V T) : Prop where
  given : ∀ value, Given fmt value → env.types (valueName op value) = some (inst.types value)
  allOperandTypes : fmt.allOperandTypes = true →
    env.types "allOperand" = some (inst.operands.flatten.map Prod.snd)
  allResultTypes : fmt.allResultTypes = true → env.types "allResult" = some inst.results.flatten
  allOperands : fmt.allOperands = true →
    env.operands "allOperand" = some (inst.operands.flatten.map Prod.fst)
  operands : fmt.allOperands = false →
    List.Forall₂ (fun entry group ↦ env.operands entry.name = some (group.map Prod.fst))
      op.opType.operands inst.operands

/-- A group of values with the types `types` for an entry of the signature. -/
structure FitsEntry (entry : NamedType) (types : List T) : Prop where
  single : entry.type.isVariadic = false → types.length = 1
  /-- the builder builds the type that the constraint asks for -/
  built : ∀ text, md.typeBuilder entry.type = some text → ∀ type ∈ types, type = build text

/-- The instance satisfies the constraints and the traits of the op. -/
structure FitsOp (inst : OpInstance V T) : Prop where
  operands : List.Forall₂ (FitsEntry md build) op.opType.operands inst.operandTypes
  results : List.Forall₂ (FitsEntry md build) op.opType.results inst.results
  sameOperands : getTrait op "SameTypeOperands" = true →
    ∃ type, ∀ other ∈ inst.operandTypes.flatten, other = type
  sameOperandsAndResult : getTrait op "SameOperandsAndResultType" = true →
    ∃ type, (∀ other ∈ inst.operandTypes.flatten, other = type) ∧
      ∀ other ∈ inst.results.flatten, other = type

/-- The types for a value that has the types `own`. -/
def supplied (inst : OpInstance V T) (own : List T) : TypeResolution → List T
  | .given => own
  | .builder text => [build text]
  | .ofValue value => inst.types value

/-- How many types there are for a group of `own` values. -/
def suppliedCount (inst : OpInstance V T) (own : ℕ) : TypeResolution → ℕ
  | .given => own
  | .builder _ => 1
  | .ofValue value => (inst.types value).length

/-- There are as many types as values, in every list of values that is resolved by itself. -/
structure CountsMatch (inst : OpInstance V T) : Prop where
  results : fmt.allResultTypes = false →
    (List.zipWith (fun own resolution ↦ suppliedCount inst own.length resolution)
      inst.results fmt.resultTypes).sum = (inst.results.map List.length).sum
  together : fmt.allOperandTypes = false → fmt.allOperands = true →
    (List.zipWith (fun own resolution ↦ suppliedCount inst own.length resolution)
      inst.operandTypes fmt.operandTypes).sum = (inst.operandTypes.map List.length).sum
  apart : fmt.allOperandTypes = false → fmt.allOperands = false →
    List.Forall₂ (fun own resolution ↦ suppliedCount inst own.length resolution = own.length)
      inst.operandTypes fmt.operandTypes

end

/-! ## What resolves a type -/

section

variable {md : Metadata} {op : OperationOp} {fmt : OperationFormat} {env : ParserEnv V T}
  {build : String → T} {inst : OpInstance V T} {s s' : ResolveState V T}

/-- What resolves the type of an entry of the signature. A builder of a single type stands for a
single value where `alone` holds. -/
inductive Resolves (md : Metadata) (op : OperationOp) (fmt : OperationFormat) (value : ValueRef)
    (entry : NamedType) (alone : Prop) : TypeResolution → Prop where
  | given (hgiven : Given fmt value) : Resolves md op fmt value entry alone .given
  | ofValue {source : ValueRef}
    (hsource : variableTyResolver op (seenAfter (leaves fmt.items)) entry.name = some source) :
    Resolves md op fmt value entry alone (.ofValue source)
  | builder {text : String} (htext : md.typeBuilder entry.type = some text)
    (halone : alone → entry.type.isVariadic = false) :
    Resolves md op fmt value entry alone (.builder text)

theorem AcceptedFormat.operand_resolves (h : AcceptedFormat md op fmt)
    (hall : fmt.allOperandTypes = false) {i : ℕ} {entry : NamedType} {resolution : TypeResolution}
    (hentry : op.opType.operands[i]? = some entry)
    (hresolution : fmt.operandTypes[i]? = some resolution) :
    Resolves md op fmt ⟨.operand, i⟩ entry (fmt.allOperands = true) resolution := by
  have hverify := forall₂_zipIdx_getElem? h.verified.operands hentry hresolution
  have hseen : (seenAfter (leaves fmt.items)).allOperandTypes = false :=
    h.verified.allOperandTypes.symm.trans hall
  unfold verifyOperand at hverify
  split at hverify
  · cases hverify
  · split at hverify
    · rename_i hor
      rw [← Except.ok.inj hverify]
      have hi : i ∈ (seenAfter (leaves fmt.items)).operandTypes := by
        simpa [hseen] using hor
      exact .given ((mem_seenOf_operandTypes _ _ _).mp hi)
    · split at hverify
      · rename_i source hsource
        rw [← Except.ok.inj hverify]
        exact .ofValue hsource
      · split at hverify
        · cases hverify
        · rename_i text htext
          split at hverify
          · cases hverify
          · rename_i hvariadic
            rw [← Except.ok.inj hverify]
            refine .builder htext fun halone ↦ ?_
            have hoperands := h.allOperands_iff.mp halone
            have hhas : (seenAfter (leaves fmt.items)).hasAllOperands = true :=
              (seenOf_hasAllOperands _ _).mpr (.inl hoperands)
            simpa [hhas] using hvariadic

theorem AcceptedFormat.result_resolves (h : AcceptedFormat md op fmt)
    (hall : fmt.allResultTypes = false) {i : ℕ} {entry : NamedType} {resolution : TypeResolution}
    (hentry : op.opType.results[i]? = some entry)
    (hresolution : fmt.resultTypes[i]? = some resolution) :
    Resolves md op fmt ⟨.result, i⟩ entry True resolution := by
  have hverify := forall₂_zipIdx_getElem? h.verified.results hentry hresolution
  have hseen : (seenAfter (leaves fmt.items)).allResultTypes = false :=
    h.verified.allResultTypes.symm.trans hall
  unfold verifyResult at hverify
  split at hverify
  · rename_i hor
    rw [← Except.ok.inj hverify]
    have hi : i ∈ (seenAfter (leaves fmt.items)).resultTypes := by
      simpa [hseen] using hor
    exact .given ((mem_seenOf_resultTypes _ _ _).mp hi)
  · split at hverify
    · rename_i source hsource
      rw [← Except.ok.inj hverify]
      exact .ofValue hsource
    · split at hverify
      · cases hverify
      · rename_i text htext
        split at hverify
        · cases hverify
        · rename_i hvariadic
          rw [← Except.ok.inj hverify]
          exact .builder htext fun _ ↦ by simpa using hvariadic

/-- The buildable types have been built. -/
def ResolveState.Built (s : ResolveState V T) (fmt : OperationFormat) (build : String → T) : Prop :=
  ∀ text ∈ fmt.buildableTypes, s.buildable (fmt.buildableTypes.idxOf text) = some (build text)

theorem given_of_variableTyResolver {name : String} {source : ValueRef}
    (h : variableTyResolver op (seenAfter (leaves fmt.items)) name = some source) :
    Given fmt source := by
  have hseen := variableTyResolver_some h
  obtain ⟨kind, i⟩ := source
  cases kind with
  | operand => exact (mem_seenOf_operandTypes _ _ _).mp hseen
  | result => exact (mem_seenOf_resultTypes _ _ _).mp hseen

/-- The list that is emitted for an entry has the types that are supplied. -/
theorem Resolves.eval {value : ValueRef} {entry : NamedType} {alone : Prop}
    {resolution : TypeResolution} (h : Resolves md op fmt value entry alone resolution)
    (hname : valueName op value = entry.name) (hreads : ReadsInstance op fmt env inst)
    (hbuilt : s.Built fmt build) (hmem : resolution ∈ fmt.resultTypes ++ fmt.operandTypes) :
    evalTypes env s (emitTypeResolver op fmt entry.name resolution) =
      some (supplied build inst (inst.types value) resolution) := by
  cases h with
  | given hgiven =>
    rw [emitTypeResolver, evalTypes, ← hname, hreads.given value hgiven]
    rfl
  | ofValue hsource =>
    rw [emitTypeResolver, evalTypes, hreads.given _ (given_of_variableTyResolver hsource)]
    rfl
  | builder htext halone =>
    rw [emitTypeResolver, evalTypes, hbuilt _ (mem_buildableTypes hmem)]
    rfl

/-! ## What the statements do -/

theorem exec_buildableTypes (builders : List String) (k : ℕ) (s : ResolveState V T) :
    ∃ buildable, ((builders.zipIdx k).map fun builder ↦
          ResolveStmt.buildableType builder.2 builder.1).foldlM (execResolve env build) s =
        some { s with buildable := buildable } ∧
      (∀ idx < k, buildable idx = s.buildable idx) ∧
      ∀ i (hi : i < builders.length), buildable (k + i) = some (build builders[i]) := by
  induction builders generalizing k s with
  | nil => exact ⟨s.buildable, rfl, fun _ _ ↦ rfl, fun i hi ↦ absurd hi (Nat.not_lt_zero i)⟩
  | cons builder builders ih =>
    obtain ⟨buildable, hrun, hbefore, hbuilt⟩ := ih (k + 1)
      { s with buildable := Function.update s.buildable k (some (build builder)) }
    refine ⟨buildable, hrun, ?_, ?_⟩
    · intro idx hidx
      exact (hbefore idx (Nat.lt_succ_of_lt hidx)).trans
        (Function.update_of_ne (Nat.ne_of_lt hidx) _ _)
    · intro i hi
      cases i with
      | zero => exact (hbefore k (Nat.lt_succ_self k)).trans (Function.update_self _ _ _)
      | succ i =>
        have hnext := hbuilt i (Nat.lt_of_succ_lt_succ hi)
        rw [Nat.add_right_comm] at hnext
        exact hnext

theorem built_of_exec {builders : List ResolveStmt} (hbuilders : builders =
      fmt.buildableTypes.zipIdx.map fun builder ↦ .buildableType builder.2 builder.1) :
    ∃ s : ResolveState V T, s.Built fmt build ∧ s.operands = [] ∧ s.types = [] ∧
      builders.foldlM (execResolve env build) ⟨fun _ ↦ none, [], []⟩ = some s := by
  obtain ⟨buildable, hrun, -, hbuilt⟩ :=
    @exec_buildableTypes T V env build fmt.buildableTypes 0 ⟨fun _ ↦ none, [], []⟩
  refine ⟨⟨buildable, [], []⟩, fun text htext ↦ ?_, rfl, rfl, hbuilders ▸ hrun⟩
  have hidx := List.idxOf_lt_length_of_mem htext
  have hget := hbuilt _ hidx
  rw [Nat.zero_add, List.getElem_idxOf hidx] at hget
  exact hget

/-- Every list of types that is added has the types `supplied`. -/
theorem exec_addTypes {lists : List TypeList} {supplied : List (List T)}
    (hlists : List.Forall₂ (fun list types ↦ evalTypes env s list = some types) lists supplied)
    (s' : ResolveState V T) (hs' : s'.buildable = s.buildable) :
    (lists.map ResolveStmt.addTypes).foldlM (execResolve env build) s' =
      some { s' with types := s'.types ++ supplied.flatten } := by
  induction hlists generalizing s' with
  | nil => simp [pure]
  | @cons list types lists supplied hlist hlists ih =>
    have heval : evalTypes env s' list = some types := by
      rw [← hlist]
      cases list with
      | buildable idx => rw [evalTypes, evalTypes, hs']
      | types name => rfl
    have hstep : execResolve env build s' (.addTypes list) =
        some { s' with types := s'.types ++ types } := by
      rw [execResolve, heval]
      rfl
    rw [List.map_cons, List.foldlM_cons, hstep, Option.bind_eq_bind, Option.bind_some]
    apply (ih { s' with types := s'.types ++ types } hs').trans
    simp

/-- Operands are only added. -/
theorem operands_exec {code : List ResolveStmt}
    (h : code.foldlM (execResolve env build) s = some s') : s.operands <+: s'.operands := by
  induction code generalizing s with
  | nil =>
    obtain rfl := Option.some.inj h
    exact List.prefix_rfl
  | cons stmt code ih =>
    rw [List.foldlM_cons, Option.bind_eq_bind, Option.bind_eq_some_iff] at h
    obtain ⟨t, hstep, hrest⟩ := h
    refine List.IsPrefix.trans ?_ (ih hrest)
    cases stmt with
    | buildableType idx builder =>
      obtain rfl := Option.some.inj hstep
      exact List.prefix_rfl
    | addTypes list =>
      obtain ⟨types, -, ht⟩ := Option.bind_eq_some_iff.mp hstep
      obtain rfl := Option.some.inj ht
      exact List.prefix_rfl
    | resolveOperands names lists =>
      obtain ⟨operands, -, hstep⟩ := Option.bind_eq_some_iff.mp hstep
      obtain ⟨types, -, hstep⟩ := Option.bind_eq_some_iff.mp hstep
      split_ifs at hstep
      rw [← Option.some.inj hstep]
      exact List.prefix_append _ _

theorem exec_resolveOperands {names : List String} {lists : List TypeList}
    {operands : List (List V)} {types : List (List T)} (pairs : List (V × T))
    (hoperands : names.mapM env.operands = some operands)
    (htypes : lists.mapM (evalTypes env s) = some types)
    (hpairs : operands.flatten = pairs.map Prod.fst) :
    execResolve env build s (.resolveOperands names lists) =
      if pairs.length = types.flatten.length then
        some { s with operands := s.operands ++ (pairs.map Prod.fst).zip types.flatten }
      else none := by
  rw [execResolve, hoperands, htypes]
  simp only [Option.bind_eq_bind, Option.bind_some, hpairs, List.length_map]

/-- A list of operands gets its own types back exactly if these are the types in the list. -/
theorem zip_fst_eq_iff {pairs : List (V × T)} {types : List T}
    (hlength : pairs.length = types.length) :
    (pairs.map Prod.fst).zip types = pairs ↔ types = pairs.map Prod.snd := by
  constructor
  · intro h
    calc
      types = ((pairs.map Prod.fst).zip types).map Prod.snd := by
        rw [List.map_snd_zip (by rw [List.length_map, hlength])]
      _ = pairs.map Prod.snd := by rw [h]
  · intro h
    rw [h, List.zip_map']
    simp

/-- All operands are resolved by one statement. -/
theorem together_iff {names : List String} {lists : List TypeList} {operands : List (List V)}
    {types : List (List T)} (pairs : List (V × T))
    (hoperands : names.mapM env.operands = some operands)
    (htypes : lists.mapM (evalTypes env s) = some types)
    (hpairs : operands.flatten = pairs.map Prod.fst) (added : List T) :
    (([.resolveOperands names lists].foldlM (execResolve env build) s).map fun s' ↦
        (s'.operands, s'.types)) = some (s.operands ++ pairs, added) ↔
      types.flatten = pairs.map Prod.snd ∧ s.types = added := by
  rw [List.foldlM_cons, exec_resolveOperands pairs hoperands htypes hpairs]
  by_cases hlength : pairs.length = types.flatten.length
  · rw [if_pos hlength, ← zip_fst_eq_iff hlength]
    simp [pure]
  · rw [if_neg hlength]
    constructor
    · intro h
      cases h
    · intro h
      rw [h.1, List.length_map] at hlength
      exact absurd rfl hlength

/-- Every operand is resolved by a statement of its own. -/
theorem apart_iff {names : List String} {lists : List TypeList} {groups : List (List (V × T))}
    {types : List (List T)} (hnames : List.Forall₂ (fun name group ↦
      env.operands name = some (group.map Prod.fst)) names groups)
    (hlists : List.Forall₂ (fun list types ↦ evalTypes env s list = some types) lists types)
    (hlength : names.length = lists.length) (s' : ResolveState V T)
    (hs' : s'.buildable = s.buildable) (added : List T) :
    ((((names.zip lists).map fun pair ↦ ResolveStmt.resolveOperands [pair.1] [pair.2]).foldlM
        (execResolve env build) s').map fun s' ↦ (s'.operands, s'.types)) =
        some (s'.operands ++ groups.flatten, added) ↔
      types = groups.map (List.map Prod.snd) ∧ s'.types = added := by
  induction hnames generalizing lists types s' with
  | nil =>
    cases hlists with
    | nil => simp [pure]
    | cons hlist hlists => cases hlength
  | @cons name group names groups hname hnames ih =>
    cases hlists with
    | nil => cases hlength
    | @cons list own lists types hlist hlists =>
      have heval : evalTypes env s' list = some own := by
        rw [← hlist]
        cases list with
        | buildable idx => rw [evalTypes, evalTypes, hs']
        | types name => rfl
      have hoperands : [name].mapM env.operands = some [group.map Prod.fst] := by simp [hname]
      have htypes : [list].mapM (evalTypes env s') = some [own] := by simp [heval]
      have hstep : execResolve env build s' (.resolveOperands [name] [list]) =
          if group.length = own.length then
            some { s' with operands := s'.operands ++ (group.map Prod.fst).zip own }
          else none := by
        rw [exec_resolveOperands group hoperands htypes (by simp), List.flatten_singleton]
      rw [List.zip_cons_cons, List.map_cons, List.foldlM_cons, hstep, List.flatten_cons,
        List.map_cons, List.cons.injEq]
      by_cases hown : group.length = own.length
      · rw [if_pos hown, Option.bind_eq_bind, Option.bind_some]
        have hrest := ih hlists (Nat.succ.inj hlength)
          { s' with operands := s'.operands ++ (group.map Prod.fst).zip own } hs'
        constructor
        · intro h
          obtain ⟨t, ht, hpair⟩ := Option.map_eq_some_iff.mp h
          rw [Prod.mk.injEq] at hpair
          have hprefix : s'.operands ++ (group.map Prod.fst).zip own <+: t.operands :=
            operands_exec ht
          rw [hpair.1, ← List.append_assoc] at hprefix
          have hzip : (group.map Prod.fst).zip own = group := by
            have heq := List.prefix_of_prefix_length_le hprefix
              (List.prefix_append (s'.operands ++ group) groups.flatten) (by simp [← hown])
            exact List.append_cancel_left (heq.eq_of_length (by simp [← hown]))
          rw [hzip, List.append_assoc] at hrest
          rw [hzip] at h
          have hboth := hrest.mp h
          exact ⟨⟨(zip_fst_eq_iff hown).mp hzip, hboth.1⟩, hboth.2⟩
        · rintro ⟨⟨hfirst, htypes⟩, hadded⟩
          rw [(zip_fst_eq_iff hown).mpr hfirst, List.append_assoc] at hrest
          rw [(zip_fst_eq_iff hown).mpr hfirst]
          exact hrest.mpr ⟨htypes, hadded⟩
      · rw [if_neg hown]
        constructor
        · intro h
          cases h
        · rintro ⟨⟨hfirst, -⟩, -⟩
          rw [hfirst, List.length_map] at hown
          exact absurd rfl hown

/-! ## As many types as values -/

theorem length_supplied (own : List T) (resolution : TypeResolution) :
    (supplied build inst own resolution).length = suppliedCount inst own.length resolution := by
  cases resolution <;> rfl

theorem handleSameTypesConstraint_cases {seen : Seen} {includeResults : Bool}
    {resolvers : String → Option ValueRef} {name : String} {source : ValueRef}
    (h : handleSameTypesConstraint op seen includeResults resolvers name = some source) :
    resolvers name = some source ∨ includeResults = true ∨
      source.kind = .operand ∧ ∃ i < op.opType.operands.length, operandName op i = name := by
  cases includeResults with
  | true => exact .inr (.inl rfl)
  | false =>
    unfold handleSameTypesConstraint at h
    generalize hresolver : Option.or _ _ = resolver at h
    cases resolver with
    | none => exact .inl h
    | some resolver =>
      simp only [Bool.false_and, Bool.or_false] at h
      split_ifs at h with hname
      · rw [← Option.some.inj h]
        simp only [Bool.false_eq_true, if_false, Option.or_none,
          Option.map_eq_some_iff] at hresolver
        obtain ⟨i, -, rfl⟩ := hresolver
        rw [Bool.and_eq_true] at hname
        obtain ⟨j, hj, hmatch⟩ := List.any_eq_true.mp hname.2
        rw [Bool.and_eq_true, beq_iff_eq] at hmatch
        exact .inr (.inr ⟨rfl, j, List.mem_range.mp hj, hmatch.2⟩)
      · exact .inl h

/-- A type is taken from another value because of a trait. -/
theorem variableTyResolver_cases {seen : Seen} {name : String} {source : ValueRef}
    (h : variableTyResolver op seen name = some source) :
    getTrait op "SameOperandsAndResultType" = true ∨
      getTrait op "SameTypeOperands" = true ∧ source.kind = .operand ∧
        ∃ i < op.opType.operands.length, operandName op i = name := by
  by_cases htrait : getTrait op "SameOperandsAndResultType" = true
  · exact .inl htrait
  · right
    unfold variableTyResolver at h
    rw [if_neg htrait] at h
    split_ifs at h with hsame
    rcases handleSameTypesConstraint_cases h with hnone | hfalse | hoperand
    · cases hnone
    · cases hfalse
    · exact ⟨hsame, hoperand⟩

theorem mem_types {value : ValueRef} {type : T} (h : type ∈ inst.types value) :
    value.kind = .operand ∧ type ∈ inst.operandTypes.flatten ∨
      value.kind = .result ∧ type ∈ inst.results.flatten := by
  have hflatten : ∀ {groups : List (List T)} {i : ℕ}, type ∈ (groups[i]?).getD [] →
      type ∈ groups.flatten := by
    intro groups i hmem
    cases hgroup : groups[i]? with
    | none => simp [hgroup] at hmem
    | some group =>
      rw [hgroup] at hmem
      exact List.mem_flatten.mpr ⟨group, List.mem_of_getElem? hgroup, hmem⟩
  obtain ⟨kind, i⟩ := value
  cases kind with
  | operand => exact .inl ⟨rfl, hflatten h⟩
  | result => exact .inr ⟨rfl, hflatten h⟩

/-- The values of the operands and of the value that supplies a type have one type. -/
theorem FitsOp.sameTypes (hfits : FitsOp md op build inst) {seen : Seen} {name : String}
    {source : ValueRef} (h : variableTyResolver op seen name = some source) :
    ∃ type, (∀ other ∈ inst.operandTypes.flatten, other = type) ∧
      ∀ other ∈ inst.types source, other = type := by
  rcases variableTyResolver_cases h with htrait | ⟨htrait, hkind, -⟩
  · obtain ⟨type, hoperands, hresults⟩ := hfits.sameOperandsAndResult htrait
    refine ⟨type, hoperands, fun other hother ↦ ?_⟩
    rcases mem_types hother with ⟨-, hmem⟩ | ⟨-, hmem⟩
    · exact hoperands other hmem
    · exact hresults other hmem
  · obtain ⟨type, hoperands⟩ := hfits.sameOperands htrait
    refine ⟨type, hoperands, fun other hother ↦ ?_⟩
    rcases mem_types hother with ⟨-, hmem⟩ | ⟨hresult, -⟩
    · exact hoperands other hmem
    · rw [hkind] at hresult
      cases hresult

theorem eq_of_length_eq {type : T} {types types' : List T} (h : ∀ other ∈ types, other = type)
    (h' : ∀ other ∈ types', other = type) (hlength : types.length = types'.length) :
    types = types' := by
  rw [List.eq_replicate_of_mem h, List.eq_replicate_of_mem h', hlength]

theorem FitsEntry.eq_builder {entry : NamedType} {own : List T} (h : FitsEntry md build entry own)
    {text : String} (htext : md.typeBuilder entry.type = some text) (hone : own.length = 1) :
    [build text] = own := by
  obtain ⟨type, rfl⟩ := List.length_eq_one_iff.mp hone
  rw [h.built text htext type (List.mem_singleton_self type)]

/-- A single operand gets its types back exactly if there are as many. -/
theorem supplied_eq_iff (hfits : FitsOp md op build inst) {value : ValueRef} {entry : NamedType}
    {alone : Prop} {resolution : TypeResolution} {own : List T}
    (h : Resolves md op fmt value entry alone resolution) (hentry : FitsEntry md build entry own)
    (hown : ∀ type ∈ own, type ∈ inst.operandTypes.flatten) :
    supplied build inst own resolution = own ↔
      suppliedCount inst own.length resolution = own.length := by
  constructor
  · intro heq
    rw [← @length_supplied T V build, heq]
  · intro hcount
    cases h with
    | given hgiven => rfl
    | builder htext halone => exact hentry.eq_builder htext hcount.symm
    | ofValue hsource =>
      obtain ⟨type, hoperands, hsupplied⟩ := hfits.sameTypes hsource
      exact eq_of_length_eq hsupplied (fun other hother ↦ hoperands other (hown other hother))
        hcount

theorem forall₂_emitTypeResolvers {entries : List NamedType} {owns : List (List T)}
    {resolutions : List TypeResolution} (hentries : entries.length = owns.length)
    (hresolutions : owns.length = resolutions.length)
    (heach : ∀ (i : ℕ) entry own resolution, entries[i]? = some entry → owns[i]? = some own →
      resolutions[i]? = some resolution →
        evalTypes env s (emitTypeResolver op fmt entry.name resolution) =
          some (supplied build inst own resolution)) :
    List.Forall₂ (fun list types ↦ evalTypes env s list = some types)
      (emitTypeResolvers op fmt entries resolutions)
      (List.zipWith (supplied build inst) owns resolutions) := by
  rw [List.forall₂_iff_get]
  constructor
  · simp [emitTypeResolvers, hentries, hresolutions]
  · intro i hi hi'
    rw [List.length_zipWith] at hi'
    simp only [emitTypeResolvers, List.get_eq_getElem, List.getElem_map, List.getElem_zip,
      List.getElem_zipWith]
    exact heach i _ _ _ (List.getElem?_eq_getElem (by omega)) (List.getElem?_eq_getElem (by omega))
      (List.getElem?_eq_getElem (by omega))

/-- A list of groups gets its types back exactly if there are as many in all, where every group
gets its own types or all types are the same. -/
theorem flatten_supplied_iff {owns : List (List T)} {resolutions : List TypeResolution}
    (hlength : owns.length = resolutions.length)
    (h : (∀ (i : ℕ) own resolution, owns[i]? = some own → resolutions[i]? = some resolution →
        supplied build inst own resolution = own) ∨
      ∃ type, (∀ other ∈ owns.flatten, other = type) ∧
        ∀ (i : ℕ) own resolution, owns[i]? = some own → resolutions[i]? = some resolution →
          ∀ other ∈ supplied build inst own resolution, other = type) :
    (List.zipWith (supplied build inst) owns resolutions).flatten = owns.flatten ↔
      (List.zipWith (fun own resolution ↦ suppliedCount inst own.length resolution)
        owns resolutions).sum = (owns.map List.length).sum := by
  have hcount : (List.zipWith (supplied build inst) owns resolutions).flatten.length =
      (List.zipWith (fun own resolution ↦ suppliedCount inst own.length resolution)
        owns resolutions).sum := by
    rw [List.length_flatten, List.map_zipWith]
    simp only [length_supplied]
  constructor
  · intro heq
    rw [← hcount, heq, List.length_flatten]
  · intro hsum
    rcases h with hown | ⟨type, howns, hsupplied⟩
    · have heq : List.zipWith (supplied build inst) owns resolutions = owns := by
        apply List.ext_getElem
        · rw [List.length_zipWith, ← hlength, Nat.min_self]
        · intro i hi hi'
          rw [List.getElem_zipWith]
          exact hown i _ _ (List.getElem?_eq_getElem hi')
            (List.getElem?_eq_getElem (hlength ▸ hi'))
      rw [heq]
    · have hall : ∀ other ∈ (List.zipWith (supplied build inst) owns resolutions).flatten,
          other = type := by
        intro other hother
        obtain ⟨types, htypes, hmem⟩ := List.mem_flatten.mp hother
        obtain ⟨i, hi, rfl⟩ := List.mem_iff_getElem.mp htypes
        rw [List.length_zipWith] at hi
        rw [List.getElem_zipWith] at hmem
        exact hsupplied i _ _ (List.getElem?_eq_getElem (by omega))
          (List.getElem?_eq_getElem (by omega)) other hmem
      apply eq_of_length_eq hall howns
      rw [hcount, hsum, List.length_flatten]

theorem getElem?_getD {α : Type} {groups : List (List α)} {i : ℕ} {group : List α}
    (h : groups[i]? = some group) : (groups[i]?).getD [] = group := by
  rw [h, Option.getD_some]

theorem FitsOp.operand (hfits : FitsOp md op build inst) {i : ℕ} {entry : NamedType} {own : List T}
    (hentry : op.opType.operands[i]? = some entry) (hown : inst.operandTypes[i]? = some own) :
    FitsEntry md build entry own := by
  obtain ⟨hi, rfl⟩ := List.getElem?_eq_some_iff.mp hentry
  obtain ⟨hi', rfl⟩ := List.getElem?_eq_some_iff.mp hown
  exact hfits.operands.get hi hi'

theorem FitsOp.result (hfits : FitsOp md op build inst) {i : ℕ} {entry : NamedType} {own : List T}
    (hentry : op.opType.results[i]? = some entry) (hown : inst.results[i]? = some own) :
    FitsEntry md build entry own := by
  obtain ⟨hi, rfl⟩ := List.getElem?_eq_some_iff.mp hentry
  obtain ⟨hi', rfl⟩ := List.getElem?_eq_some_iff.mp hown
  exact hfits.results.get hi hi'

theorem AcceptedFormat.length_operandTypes (h : AcceptedFormat md op fmt)
    (hfits : FitsOp md op build inst) : inst.operandTypes.length = fmt.operandTypes.length := by
  have hlength := h.verified.operands.length_eq
  rw [List.length_zipIdx] at hlength
  rw [← hlength, hfits.operands.length_eq]

theorem AcceptedFormat.length_resultTypes (h : AcceptedFormat md op fmt)
    (hfits : FitsOp md op build inst) : inst.results.length = fmt.resultTypes.length := by
  have hlength := h.verified.results.length_eq
  rw [List.length_zipIdx] at hlength
  rw [← hlength, hfits.results.length_eq]

/-- The lists that are emitted for the operands have the types that are supplied. -/
theorem AcceptedFormat.evalOperands (h : AcceptedFormat md op fmt)
    (hfits : FitsOp md op build inst) (hreads : ReadsInstance op fmt env inst)
    (hbuilt : s.Built fmt build) (hall : fmt.allOperandTypes = false) :
    List.Forall₂ (fun list types ↦ evalTypes env s list = some types)
      (emitTypeResolvers op fmt op.opType.operands fmt.operandTypes)
      (List.zipWith (supplied build inst) inst.operandTypes fmt.operandTypes) := by
  apply forall₂_emitTypeResolvers hfits.operands.length_eq (h.length_operandTypes hfits)
  intro i entry own resolution hentry hown hresolution
  have hresolves := h.operand_resolves hall hentry hresolution
  have hname : valueName op ⟨.operand, i⟩ = entry.name := by
    simp [valueName, operandName, hentry]
  have hmem := List.mem_append_right fmt.resultTypes (List.mem_of_getElem? hresolution)
  have htypes : inst.types ⟨.operand, i⟩ = own := getElem?_getD hown
  rw [hresolves.eval hname hreads hbuilt hmem, htypes]

theorem AcceptedFormat.evalResults (h : AcceptedFormat md op fmt)
    (hfits : FitsOp md op build inst) (hreads : ReadsInstance op fmt env inst)
    (hbuilt : s.Built fmt build) (hall : fmt.allResultTypes = false) :
    List.Forall₂ (fun list types ↦ evalTypes env s list = some types)
      (emitTypeResolvers op fmt op.opType.results fmt.resultTypes)
      (List.zipWith (supplied build inst) inst.results fmt.resultTypes) := by
  apply forall₂_emitTypeResolvers hfits.results.length_eq (h.length_resultTypes hfits)
  intro i entry own resolution hentry hown hresolution
  have hresolves := h.result_resolves hall hentry hresolution
  have hname : valueName op ⟨.result, i⟩ = entry.name := by
    simp [valueName, resultName, hentry]
  have hmem := List.mem_append_left fmt.operandTypes (List.mem_of_getElem? hresolution)
  have htypes : inst.types ⟨.result, i⟩ = own := getElem?_getD hown
  rw [hresolves.eval hname hreads hbuilt hmem, htypes]

/-- What is supplied has the one type that all values have. -/
theorem Resolves.supplied_uniform {value : ValueRef} {entry : NamedType}
    {resolution : TypeResolution} {own : List T} {type : T}
    (h : Resolves md op fmt value entry True resolution) (hentry : FitsEntry md build entry own)
    (hown : ∀ other ∈ own, other = type)
    (hsource : ∀ source, variableTyResolver op (seenAfter (leaves fmt.items)) entry.name =
      some source → ∀ other ∈ inst.types source, other = type) :
    ∀ other ∈ supplied build inst own resolution, other = type := by
  cases h with
  | given hgiven => exact hown
  | ofValue h => exact hsource _ h
  | builder htext halone =>
    have heq := hentry.eq_builder htext (hentry.single (halone trivial))
    rw [supplied, heq]
    exact hown

/-- What is supplied is what the value has, where no type is taken from another value. -/
theorem Resolves.supplied_own {value : ValueRef} {entry : NamedType}
    {resolution : TypeResolution} {own : List T}
    (h : Resolves md op fmt value entry True resolution) (hentry : FitsEntry md build entry own)
    (hsource : ∀ source, variableTyResolver op (seenAfter (leaves fmt.items)) entry.name ≠
      some source) : supplied build inst own resolution = own := by
  cases h with
  | given hgiven => rfl
  | ofValue h => exact absurd h (hsource _)
  | builder htext halone => exact hentry.eq_builder htext (hentry.single (halone trivial))

/-- The results get their types back exactly if there are as many in all. -/
theorem AcceptedFormat.flatten_results_iff (h : AcceptedFormat md op fmt)
    (hfits : FitsOp md op build inst) (hnames : ∀ operand ∈ op.opType.operands,
      ∀ result ∈ op.opType.results, operand.name ≠ result.name)
    (hall : fmt.allResultTypes = false) :
    (List.zipWith (supplied build inst) inst.results fmt.resultTypes).flatten =
        inst.results.flatten ↔
      (List.zipWith (fun own resolution ↦ suppliedCount inst own.length resolution)
        inst.results fmt.resultTypes).sum = (inst.results.map List.length).sum := by
  apply flatten_supplied_iff (h.length_resultTypes hfits)
  have hentry : ∀ (i : ℕ) own, inst.results[i]? = some own →
      ∃ entry, op.opType.results[i]? = some entry := by
    intro i own hown
    have hi := (List.getElem?_eq_some_iff.mp hown).1
    rw [← hfits.results.length_eq] at hi
    exact ⟨_, List.getElem?_eq_getElem hi⟩
  by_cases htrait : getTrait op "SameOperandsAndResultType" = true
  · obtain ⟨type, hoperands, hresults⟩ := hfits.sameOperandsAndResult htrait
    refine .inr ⟨type, hresults, fun i own resolution hown hresolution ↦ ?_⟩
    obtain ⟨entry, hentry⟩ := hentry i own hown
    apply (h.result_resolves hall hentry hresolution).supplied_uniform (hfits.result hentry hown)
    · intro other hother
      exact hresults other (List.mem_flatten.mpr ⟨own, List.mem_of_getElem? hown, hother⟩)
    · intro source _ other hother
      rcases mem_types hother with ⟨-, hmem⟩ | ⟨-, hmem⟩
      · exact hoperands other hmem
      · exact hresults other hmem
  · refine .inl fun i own resolution hown hresolution ↦ ?_
    obtain ⟨entry, hentry⟩ := hentry i own hown
    apply (h.result_resolves hall hentry hresolution).supplied_own (hfits.result hentry hown)
    intro source hsource
    rcases variableTyResolver_cases hsource with hsame | ⟨-, -, j, hj, hname⟩
    · exact htrait hsame
    · rw [operandName, List.getElem?_eq_getElem hj] at hname
      exact hnames _ (List.getElem_mem hj) entry (List.mem_of_getElem? hentry) hname

/-- The operands, resolved together, get their types back exactly if there are as many in all. -/
theorem AcceptedFormat.flatten_operands_iff (h : AcceptedFormat md op fmt)
    (hfits : FitsOp md op build inst) (hall : fmt.allOperandTypes = false)
    (hoperands : fmt.allOperands = true) :
    (List.zipWith (supplied build inst) inst.operandTypes fmt.operandTypes).flatten =
        inst.operandTypes.flatten ↔
      (List.zipWith (fun own resolution ↦ suppliedCount inst own.length resolution)
        inst.operandTypes fmt.operandTypes).sum = (inst.operandTypes.map List.length).sum := by
  apply flatten_supplied_iff (h.length_operandTypes hfits)
  have hresolves : ∀ (i : ℕ) own resolution, inst.operandTypes[i]? = some own →
      fmt.operandTypes[i]? = some resolution → ∃ entry,
        Resolves md op fmt ⟨.operand, i⟩ entry True resolution ∧
          FitsEntry md build entry own := by
    intro i own resolution hown hresolution
    have hi := (List.getElem?_eq_some_iff.mp hown).1
    rw [← hfits.operands.length_eq] at hi
    have hentry := List.getElem?_eq_getElem hi
    refine ⟨_, ?_, hfits.operand hentry hown⟩
    have hresolves := h.operand_resolves hall hentry hresolution
    rw [hoperands] at hresolves
    simpa only using hresolves
  have huniform : ∀ type, (∀ other ∈ inst.operandTypes.flatten, other = type) →
      (∀ name source, variableTyResolver op (seenAfter (leaves fmt.items)) name = some source →
        ∀ other ∈ inst.types source, other = type) →
      ∀ (i : ℕ) own resolution, inst.operandTypes[i]? = some own →
        fmt.operandTypes[i]? = some resolution →
          ∀ other ∈ supplied build inst own resolution, other = type := by
    intro type hsame hsource i own resolution hown hresolution
    obtain ⟨entry, hresolve, hentry⟩ := hresolves i own resolution hown hresolution
    apply hresolve.supplied_uniform hentry _ (hsource entry.name)
    intro other hother
    exact hsame other (List.mem_flatten.mpr ⟨own, List.mem_of_getElem? hown, hother⟩)
  by_cases hboth : getTrait op "SameOperandsAndResultType" = true
  · obtain ⟨type, hsame, hresults⟩ := hfits.sameOperandsAndResult hboth
    refine .inr ⟨type, hsame, huniform type hsame fun name source _ other hother ↦ ?_⟩
    rcases mem_types hother with ⟨-, hmem⟩ | ⟨-, hmem⟩
    · exact hsame other hmem
    · exact hresults other hmem
  · by_cases htrait : getTrait op "SameTypeOperands" = true
    · obtain ⟨type, hsame⟩ := hfits.sameOperands htrait
      refine .inr ⟨type, hsame, huniform type hsame fun name source hsource other hother ↦ ?_⟩
      rcases variableTyResolver_cases hsource with h | ⟨-, hkind, -⟩
      · exact absurd h hboth
      · rcases mem_types hother with ⟨-, hmem⟩ | ⟨hresult, -⟩
        · exact hsame other hmem
        · rw [hkind] at hresult
          cases hresult
    · refine .inl fun i own resolution hown hresolution ↦ ?_
      obtain ⟨entry, hresolve, hentry⟩ := hresolves i own resolution hown hresolution
      apply hresolve.supplied_own hentry
      intro source hsource
      rcases variableTyResolver_cases hsource with h | ⟨h, -, -⟩
      · exact hboth h
      · exact htrait h

/-- Operands that are resolved one by one get their types back exactly if there are as many. -/
theorem AcceptedFormat.apart_operands_iff (h : AcceptedFormat md op fmt)
    (hfits : FitsOp md op build inst) (hall : fmt.allOperandTypes = false) :
    List.zipWith (supplied build inst) inst.operandTypes fmt.operandTypes = inst.operandTypes ↔
      List.Forall₂ (fun own resolution ↦ suppliedCount inst own.length resolution = own.length)
        inst.operandTypes fmt.operandTypes := by
  have hlength := h.length_operandTypes hfits
  have heach : ∀ i (hi : i < inst.operandTypes.length) (hi' : i < fmt.operandTypes.length),
      supplied build inst inst.operandTypes[i] fmt.operandTypes[i] = inst.operandTypes[i] ↔
        suppliedCount inst inst.operandTypes[i].length fmt.operandTypes[i] =
          inst.operandTypes[i].length := by
    intro i hi hi'
    have hentries : i < op.opType.operands.length := by rwa [hfits.operands.length_eq]
    have hentry := List.getElem?_eq_getElem hentries
    have hresolves := h.operand_resolves hall hentry (List.getElem?_eq_getElem hi')
    apply supplied_eq_iff hfits hresolves (hfits.operand hentry (List.getElem?_eq_getElem hi))
    intro type htype
    exact List.mem_flatten.mpr ⟨_, List.getElem_mem hi, htype⟩
  rw [List.forall₂_iff_get]
  constructor
  · intro heq
    refine ⟨hlength, fun i hi hi' ↦ (heach i hi hi').mp ?_⟩
    have hget : (List.zipWith (supplied build inst) inst.operandTypes fmt.operandTypes)[i]? =
        inst.operandTypes[i]? := by rw [heq]
    simpa [List.getElem?_zipWith, hi, hi'] using hget
  · rintro ⟨-, hcounts⟩
    apply List.ext_getElem
    · rw [List.length_zipWith, ← hlength, Nat.min_self]
    · intro i hi hi'
      rw [List.getElem_zipWith]
      exact (heach i hi' (hlength ▸ hi')).mpr (hcounts i hi' (hlength ▸ hi'))

/-! ## The whole code -/

/-- The part of `genParserTypeResolution` for the results. -/
def resultResolution (op : OperationOp) (fmt : OperationFormat) : List ResolveStmt :=
  if fmt.allResultTypes then [.addTypes (.types "allResult")]
  else (emitTypeResolvers op fmt op.opType.results fmt.resultTypes).map .addTypes

/-- The part of `genParserTypeResolution` for the operands. -/
def operandResolution (op : OperationOp) (fmt : OperationFormat) : List ResolveStmt :=
  let operandNames := op.opType.operands.map (·.name)
  let operandTypes := emitTypeResolvers op fmt op.opType.operands fmt.operandTypes
  if op.opType.operands.isEmpty then []
  else if fmt.allOperandTypes then
    [.resolveOperands (if fmt.allOperands then ["allOperand"] else operandNames)
      [.types "allOperand"]]
  else if fmt.allOperands then [.resolveOperands ["allOperand"] operandTypes]
  else (operandNames.zip operandTypes).map fun pair ↦ .resolveOperands [pair.1] [pair.2]

theorem typeResolution_eq : OpFormat.genParserTypeResolution op fmt =
    (fmt.buildableTypes.zipIdx.map fun builder ↦ .buildableType builder.2 builder.1) ++
      resultResolution op fmt ++ operandResolution op fmt := rfl

theorem AcceptedFormat.exec_resultResolution (h : AcceptedFormat md op fmt)
    (hfits : FitsOp md op build inst) (hreads : ReadsInstance op fmt env inst)
    (hnames : ∀ operand ∈ op.opType.operands, ∀ result ∈ op.opType.results,
      operand.name ≠ result.name) (hbuilt : s.Built fmt build) (htypes : s.types = []) :
    ∃ types, (resultResolution op fmt).foldlM (execResolve env build) s =
        some { s with types := types } ∧
      (types = inst.results.flatten ↔ (fmt.allResultTypes = false →
        (List.zipWith (fun own resolution ↦ suppliedCount inst own.length resolution)
          inst.results fmt.resultTypes).sum = (inst.results.map List.length).sum)) := by
  cases hall : fmt.allResultTypes with
  | true =>
    have hlist : List.Forall₂ (fun list types ↦ evalTypes env s list = some types)
        [.types "allResult"] [inst.results.flatten] :=
      .cons (hreads.allResultTypes hall) .nil
    have hexec := @exec_addTypes T V env build s _ _ hlist s rfl
    refine ⟨inst.results.flatten, ?_, fun _ hfalse ↦ Bool.noConfusion hfalse, fun _ ↦ rfl⟩
    rw [resultResolution, if_pos hall]
    rwa [htypes, List.flatten_singleton, List.nil_append] at hexec
  | false =>
    have hlist := h.evalResults hfits hreads hbuilt hall
    have hexec := @exec_addTypes T V env build s _ _ hlist s rfl
    rw [htypes, List.nil_append] at hexec
    refine ⟨(List.zipWith (supplied build inst) inst.results fmt.resultTypes).flatten, ?_, ?_⟩
    · rw [resultResolution, hall, if_neg Bool.false_ne_true]
      exact hexec
    · rw [h.flatten_results_iff hfits hnames hall]
      exact ⟨fun heq _ ↦ heq, fun heq ↦ heq rfl⟩

theorem map_eq_of_forall₂ {α β : Type} {f : α → Option β} {xs : List α} {ys : List β}
    (h : List.Forall₂ (fun x y ↦ f x = some y) xs ys) : xs.map f = ys.map some := by
  induction h with
  | nil => rfl
  | cons h _ ih => rw [List.map_cons, List.map_cons, h, ih]

/-- The lists of all operands. -/
theorem ReadsInstance.allNames (hreads : ReadsInstance op fmt env inst) :
    ∃ operands, (if fmt.allOperands then ["allOperand"]
        else op.opType.operands.map (·.name)).mapM env.operands = some operands ∧
      operands.flatten = inst.operands.flatten.map Prod.fst := by
  cases hall : fmt.allOperands with
  | true =>
    refine ⟨[inst.operands.flatten.map Prod.fst], ?_, by simp⟩
    simp [hreads.allOperands hall]
  | false =>
    have hgroups := hreads.operands hall
    refine ⟨inst.operands.map (List.map Prod.fst), ?_, by rw [List.map_flatten]⟩
    rw [if_neg Bool.false_ne_true, mapM_eq_some_iff_map, List.map_map, List.map_map]
    apply List.ext_getElem
    · rw [List.length_map, List.length_map, hgroups.length_eq]
    · intro i hi hi'
      rw [List.length_map] at hi hi'
      rw [List.getElem_map, List.getElem_map]
      exact hgroups.get hi hi'

theorem AcceptedFormat.exec_operandResolution (h : AcceptedFormat md op fmt)
    (hfits : FitsOp md op build inst) (hreads : ReadsInstance op fmt env inst)
    (hbuilt : s.Built fmt build) (hoperands : s.operands = []) (added : List T) :
    (((operandResolution op fmt).foldlM (execResolve env build) s).map fun s' ↦
        (s'.operands, s'.types)) = some (inst.operands.flatten, added) ↔
      ((fmt.allOperandTypes = false → fmt.allOperands = true →
          (List.zipWith (fun own resolution ↦ suppliedCount inst own.length resolution)
            inst.operandTypes fmt.operandTypes).sum =
              (inst.operandTypes.map List.length).sum) ∧
        (fmt.allOperandTypes = false → fmt.allOperands = false →
          List.Forall₂ (fun own resolution ↦ suppliedCount inst own.length resolution = own.length)
            inst.operandTypes fmt.operandTypes)) ∧ s.types = added := by
  have hflatten : inst.operandTypes.flatten = inst.operands.flatten.map Prod.snd := by
    rw [OpInstance.operandTypes, List.map_flatten]
  have hlength := hfits.operands.length_eq
  rw [operandResolution]
  by_cases hempty : op.opType.operands.isEmpty = true
  · rw [if_pos hempty]
    have hnone : inst.operandTypes = [] := by
      rw [List.isEmpty_iff.mp hempty] at hlength
      exact List.eq_nil_of_length_eq_zero hlength.symm
    have hresolutions : fmt.operandTypes = [] := by
      have hlen := h.length_operandTypes hfits
      rw [hnone] at hlen
      exact List.eq_nil_of_length_eq_zero hlen.symm
    have hgroups : inst.operands = [] := List.map_eq_nil_iff.mp hnone
    simp [hnone, hresolutions, hgroups, hoperands, pure]
  · rw [if_neg hempty]
    obtain ⟨operands, hnames, hfst⟩ := hreads.allNames
    cases hall : fmt.allOperandTypes with
    | true =>
      have htypes : [TypeList.types "allOperand"].mapM (evalTypes env s) =
          some [inst.operandTypes.flatten] := by
        simp [evalTypes, hreads.allOperandTypes hall, hflatten]
      have hiff := @together_iff T V env build s _ _ _ _ inst.operands.flatten hnames htypes hfst
        added
      rw [hoperands, List.nil_append, List.flatten_singleton] at hiff
      rw [if_pos rfl, hiff]
      simp [hflatten]
    | false =>
      have hlists := h.evalOperands hfits hreads hbuilt hall
      rw [if_neg Bool.false_ne_true]
      cases hoperandsAll : fmt.allOperands with
      | true =>
        have htypes : (emitTypeResolvers op fmt op.opType.operands fmt.operandTypes).mapM
            (evalTypes env s) =
              some (List.zipWith (supplied build inst) inst.operandTypes fmt.operandTypes) := by
          rw [mapM_eq_some_iff_map]
          exact map_eq_of_forall₂ hlists
        rw [hoperandsAll, if_pos rfl] at hnames
        have hiff := @together_iff T V env build s _ _ _ _ inst.operands.flatten hnames htypes hfst
          added
        rw [hoperands, List.nil_append, ← hflatten,
          h.flatten_operands_iff hfits hall hoperandsAll] at hiff
        rw [if_pos rfl, hiff]
        simp
      | false =>
        have hnames : List.Forall₂ (fun name group ↦
            env.operands name = some (group.map Prod.fst))
            (op.opType.operands.map (·.name)) inst.operands :=
          List.forall₂_map_left_iff.mpr (hreads.operands hoperandsAll)
        have hcount : (op.opType.operands.map (·.name)).length =
            (emitTypeResolvers op fmt op.opType.operands fmt.operandTypes).length := by
          have hlen := h.length_operandTypes hfits
          simp [emitTypeResolvers, ← hlen, hlength]
        have hiff := @apart_iff T V env build s _ _ _ _ hnames hlists hcount s rfl added
        rw [hoperands, List.nil_append] at hiff
        rw [if_neg Bool.false_ne_true]
        apply hiff.trans
        rw [← OpInstance.operandTypes, h.apart_operands_iff hfits hall]
        simp

end

theorem nodup_sumOperands : ["first", "rest"].Nodup := by decide

/-- An operand and a variadic operand of the same type. -/
def sumOp : OperationOp where
  name := "sum"
  opType := ⟨[⟨"first", .leaf .any⟩, ⟨"rest", .variadic (.leaf .any)⟩], [], nodup_sumOperands,
    List.nodup_nil⟩
  opAttrs := []
  opRegions := ⟨[], List.nodup_nil⟩
  opSuccs := ⟨[], List.nodup_nil⟩
  opTraits := [⟨"SameTypeOperands", []⟩]
  config := []

/-- The type of `rest` is taken from `first`. -/
def sumFormat : OperationFormat where
  items := [.element (.var (.operand 0)), .element (.var (.operand 1)),
    .element (.attrDict false), .element (.literal ":"), .element (.type (.operand 0))]
  allOperands := false
  allOperandTypes := false
  allResultTypes := false
  resultTypes := []
  operandTypes := [.given, .ofValue ⟨.operand, 0⟩]

/-- `sum %1 %2, %3 : i32` -/
def sumInstance : OpInstance ℕ String where
  operands := [[(1, "i32")], [(2, "i32"), (3, "i32")]]
  results := []

def sumEnv : ParserEnv ℕ String where
  types name := if name = "first" then some ["i32"] else none
  operands name := if name = "first" then some [1] else if name = "rest" then some [2, 3] else none

theorem sumInstance_fits : FitsOp .base sumOp id sumInstance where
  operands := by
    have hbuilt : ∀ entry : NamedType, ∀ types : List String, ∀ text,
        Metadata.base.typeBuilder entry.type = some text → ∀ type ∈ types, type = id text :=
      fun _ _ _ h ↦ Option.noConfusion rfl (heq_of_eq h)
    exact .cons ⟨fun _ ↦ rfl, hbuilt _ _⟩
      (.cons ⟨fun h ↦ Bool.noConfusion h, hbuilt _ _⟩ .nil)
  results := .nil
  sameOperands := fun _ ↦ ⟨"i32", by decide⟩
  sameOperandsAndResult := fun h ↦ by cases h

theorem sumInstance_reads : ReadsInstance sumOp sumFormat sumEnv sumInstance where
  given := by
    intro value hvalue
    have hargs : typeArgs (leaves sumFormat.items) = [.operand 0] := rfl
    obtain ⟨kind, i⟩ := value
    cases kind with
    | operand =>
      have hi : i = 0 := by simpa only [Given, hargs, List.mem_singleton,
        TypeArg.operand.injEq] using hvalue
      rw [hi]
      rfl
    | result => simp only [Given, hargs, List.mem_singleton, reduceCtorEq] at hvalue
  allOperandTypes := fun h ↦ Bool.noConfusion h
  allResultTypes := fun h ↦ Bool.noConfusion h
  allOperands := fun h ↦ Bool.noConfusion h
  operands := fun _ ↦ .cons rfl (.cons rfl .nil)

end DeclarativeMlir.Embed.OpGenerator

import DeclarativeMlir.Embed.OpFormatBinding

/-!
# Exactness of op formats

Which formats the parser accepts, and for which formats it is exact: what it accepts binds
everything once, and what binds everything once is not rejected as bound already. The argument
`operands` of a type directive is taken for a directive that reads the operands, and the directive
`symbol` does not count as reading its attribute.
-/

namespace DeclarativeMlir.Embed.OpFormat

open Spec CheckedParsing

/-! ## Acceptance -/

/-- No rule is broken, nothing clashes, and the checks at the end pass. -/
structure Accepted (md : Metadata) (op : OperationOp) (items : List Item) : Prop where
  lawful : LawfulItems md op [] items
  unclashed : ¬ Meets md op Clash [] items
  verified : (verifyFormat md op items (seenAfter (leaves items))).isOk = true

section Parse

variable {md : Metadata} {op : OperationOp} {tokens : List FormatToken} {items : List Item}

theorem parse_spelled (h : SpellsItems op items tokens) :
    parse md op tokens = readItems md op items .empty >>= verifyFormat md op items := by
  rw [parse, parseElements_spelled md h le_rfl]
  cases readItems md op items .empty <;> rfl

theorem outcome_parse :
    Outcome (Meets md op Clash [] items) (LawfulItems md op [] items) (seenAfter (leaves items))
      (readItems md op items .empty) :=
  outcome_items [] items

theorem verifyFormat_items {seen : Seen} {fmt : OperationFormat}
    (h : verifyFormat md op items seen = .ok fmt) : fmt.items = items := by
  unfold verifyFormat at h
  split at h
  · cases h
  · obtain ⟨_, -, h⟩ := bind_eq_ok.mp h
    obtain ⟨_, -, h⟩ := bind_eq_ok.mp h
    obtain ⟨_, -, h⟩ := bind_eq_ok.mp h
    obtain ⟨_, -, h⟩ := bind_eq_ok.mp h
    obtain ⟨_, -, h⟩ := bind_eq_ok.mp h
    rw [← Except.ok.inj h]

/-- An accepted format is spelled by its elements. -/
theorem parse_ok_spells {fmt : OperationFormat} (h : parse md op tokens = .ok fmt) :
    SpellsItems op fmt.items tokens := by
  unfold parse at h
  obtain ⟨⟨items, s⟩, hitems, h⟩ := bind_eq_ok.mp h
  have hsat := @sat_parseElements md op _ ⟨tokens, .empty⟩ (Nat.lt_succ_self _)
  rw [verifyFormat_items h]
  exact hsat.ok hitems

/-- The fuel of the parser is enough for every input. -/
theorem parse_ne_outOfFuel (md : Metadata) (op : OperationOp) (tokens : List FormatToken) :
    parse md op tokens ≠ .error .outOfFuel := by
  have hsat := @sat_parseElements md op _ ⟨tokens, .empty⟩ (Nat.lt_succ_self _)
  unfold parse
  cases hitems : (parseElements md op (tokens.length + 2)).run ⟨tokens, .empty⟩ with
  | error error =>
    have herror := hsat.error hitems
    intro h
    exact herror (Except.error.inj h)
  | ok result =>
    intro h
    obtain ⟨message, note, hother⟩ := plain_verifyFormat md op result.1 result.2.state _ h
    cases hother

theorem accepted_iff (h : SpellsItems op items tokens) :
    (∃ fmt, parse md op tokens = .ok fmt) ↔ Accepted md op items := by
  rw [parse_spelled h]
  have houtcome := @outcome_parse md op items
  generalize readItems md op items .empty = r at houtcome
  cases houtcome with
  | clash hclash herror =>
    apply iff_of_false
    · rintro ⟨fmt, hfmt⟩
      cases hfmt
    · exact fun haccepted ↦ haccepted.unclashed hclash
  | broken hclash hlawful herror =>
    apply iff_of_false
    · rintro ⟨fmt, hfmt⟩
      cases hfmt
    · exact fun haccepted ↦ hlawful haccepted.lawful
  | ok hclash hlawful =>
    change (∃ fmt, verifyFormat md op items (seenAfter (leaves items)) = .ok fmt) ↔ _
    constructor
    · rintro ⟨fmt, hfmt⟩
      exact ⟨hlawful, hclash, by rw [hfmt]; rfl⟩
    · intro haccepted
      have hverified := haccepted.verified
      cases hfmt : verifyFormat md op items (seenAfter (leaves items)) with
      | ok fmt => exact ⟨fmt, rfl⟩
      | error error =>
        rw [hfmt] at hverified
        cases hverified

theorem binding_error_iff (h : SpellsItems op items tokens) :
    (∃ error, parse md op tokens = .error error ∧ error.isBinding = true) ↔
      Meets md op Clash [] items := by
  rw [parse_spelled h]
  have houtcome := @outcome_parse md op items
  generalize readItems md op items .empty = r at houtcome
  cases houtcome with
  | clash hclash herror => exact iff_of_true ⟨_, rfl, herror⟩ hclash
  | broken hclash hlawful herror =>
    apply iff_of_false _ hclash
    rintro ⟨error, hparse, hbinding⟩
    obtain rfl := Except.error.inj hparse
    rw [herror] at hbinding
    cases hbinding
  | ok hclash hlawful =>
    apply iff_of_false _ hclash
    rintro ⟨error, hparse, hbinding⟩
    have herror := (plain_verifyFormat md op items _).isBinding hparse
    rw [herror] at hbinding
    cases hbinding

end Parse

/-! ## Late elements -/

/-- All types of the operands or results are given once more. -/
def ArgAgain (args : List TypeArg) : TypeArg → Prop
  | .operands => .operands ∈ args
  | .results => .results ∈ args
  | _ => False

/-- An element that reads operands comes after a type directive that takes `operands`, or a
directive for all operands, successors or types is written once more. -/
def Late (before : List Element) : Element → Prop
  | .var (.operand _) => .operands ∈ typeArgs before
  | .operands => .operands ∈ typeArgs before ∨ .operands ∈ before
  | .successors => .successors ∈ before
  | .type arg => ArgAgain (typeArgs before) arg
  | .functionalType inputs outputs =>
    ArgAgain (typeArgs before) inputs ∨ ArgAgain (typeArgs before ++ [inputs]) outputs
  | _ => False

theorem ArgAgain.clash {args : List TypeArg} {arg : TypeArg} (h : ArgAgain args arg) :
    ArgClash args arg := by
  cases arg with
  | operand i => exact h.elim
  | result i => exact h.elim
  | operands => exact .inl h
  | results => exact .inl h

theorem Late.clash {before : List Element} {element : Element} (h : Late before element) :
    Clash before element := by
  cases element with
  | var v =>
    cases v with
    | operand i => exact .inl (.inr h)
    | attr i => exact h.elim
    | result i => exact h.elim
    | successor i => exact h.elim
    | region i => exact h.elim
  | operands => exact .inl h.symm
  | successors => exact .inl h
  | type arg => exact ArgAgain.clash h
  | functionalType inputs outputs => exact Or.imp ArgAgain.clash ArgAgain.clash h
  | literal text => exact h.elim
  | attrDict withKeyword => exact h.elim
  | results => exact h.elim
  | symbol i => exact h.elim

section InBounds

variable (op : OperationOp)

def Variable.InBounds : Variable → Prop
  | .attr i => i < op.opAttrs.length
  | .operand i => i < op.opType.operands.length
  | .result i => i < op.opType.results.length
  | .successor i => i < op.opSuccs.successors.length
  | .region i => i < op.opRegions.regions.length

def TypeArg.InBounds : TypeArg → Prop
  | .operand i => i < op.opType.operands.length
  | .result i => i < op.opType.results.length
  | _ => True

/-- An element refers to things that the op has. -/
structure Element.InBounds (element : Element) : Prop where
  var : ∀ v, element = .var v → v.InBounds op
  typeArgs : ∀ arg ∈ element.typeArgs, arg.InBounds op
  symbol : ∀ i, element = .symbol i → i < op.opAttrs.length

variable {op}

theorem findVariable_inBounds {name : String} {v : Variable}
    (h : findVariable op name = some v) : v.InBounds op := by
  simp only [findVariable, Option.or_eq_some_iff, Option.map_eq_some_iff] at h
  rcases h with ⟨i, hi, rfl⟩ | ⟨-, ⟨i, hi, rfl⟩ | ⟨-, ⟨i, hi, rfl⟩ | ⟨-, ⟨i, hi, rfl⟩ |
    ⟨-, i, hi, rfl⟩⟩⟩⟩ <;> exact (List.findIdx?_eq_some_iff_getElem.mp hi).1

theorem TypeArg.Spells.inBounds {arg : TypeArg} {text : List FormatToken}
    (h : arg.Spells op text) : arg.InBounds op := by
  cases arg with
  | operand i =>
    obtain ⟨name, hname, -⟩ := h
    exact findVariable_inBounds hname
  | result i =>
    obtain ⟨name, hname, -⟩ := h
    exact findVariable_inBounds hname
  | operands => trivial
  | results => trivial

theorem Element.Spells.inBounds {element : Element} {text : List FormatToken}
    (h : element.Spells op text) : element.InBounds op := by
  constructor
  · rintro v rfl
    obtain ⟨name, hname, -⟩ := h
    exact findVariable_inBounds hname
  · cases element with
    | type arg =>
      obtain ⟨text', harg, -⟩ := h
      simpa [Element.typeArgs] using harg.inBounds
    | functionalType inputs outputs =>
      obtain ⟨first, second, hinputs, houtputs, -⟩ := h
      simpa [Element.typeArgs] using ⟨hinputs.inBounds, houtputs.inBounds⟩
    | _ => simp [Element.typeArgs]
  · rintro i rfl
    obtain ⟨token, hattr, -⟩ := h
    obtain ⟨name, -, hname⟩ := Option.bind_eq_some_iff.mp hattr
    exact findVariable_inBounds hname

theorem SpellsChildren.inBounds {k : ℕ} {anchor anchor' : Option ℕ} {elements : List Element}
    {text : List FormatToken} (h : SpellsChildren op k anchor anchor' elements text) :
    ∀ element ∈ elements, element.InBounds op := by
  induction h with
  | nil => simp
  | cons helement _ ih =>
    rw [List.forall_mem_cons]
    exact ⟨helement.inBounds, ih⟩
  | anchor helement _ ih =>
    rw [List.forall_mem_cons]
    exact ⟨helement.inBounds, ih⟩

theorem SpellsItems.inBounds {items : List Item} {text : List FormatToken}
    (h : SpellsItems op items text) : ∀ element ∈ leaves items, element.InBounds op := by
  induction items generalizing text with
  | nil => simp [leaves]
  | cons item items ih =>
    obtain ⟨first, rest, hitem, hitems, -⟩ := h
    intro element helement
    rw [leaves, List.flatMap_cons, List.mem_append] at helement
    rcases helement with helement | helement
    · cases item with
      | element element' =>
        obtain rfl := List.mem_singleton.mp helement
        exact Element.Spells.inBounds hitem
      | optional elements anchor =>
        obtain ⟨-, body, hbody, -⟩ := hitem
        exact hbody.inBounds element helement
    · exact ih hitems element helement

end InBounds

section Exact

variable {op : OperationOp} {elements before after : List Element} {element : Element}

theorem not_again {α : Type} {p : α → Bool} {values pre post : List α} {a b : α}
    (h : values.countP p ≤ 1) (hvalues : values = pre ++ a :: post) (ha : p a = true)
    (hb : b ∈ pre) : ¬ p b = true := by
  rw [countP_le_one_iff.mp h pre a post hvalues ha b hb]
  exact Bool.false_ne_true

/-- Where all types are given once, only the directives for groups without values are repeated. -/
theorem ArgClash.again {args rest : List TypeArg} {arg : TypeArg}
    (hoperands : ∀ i < op.opType.operands.length,
      (args ++ arg :: rest).countP (TypeArg.givesOperand i) ≤ 1)
    (hresults : ∀ i < op.opType.results.length,
      (args ++ arg :: rest).countP (TypeArg.givesResult i) ≤ 1)
    (hbounds : ∀ arg' ∈ args ++ [arg], arg'.InBounds op) (h : ArgClash args arg) :
    ArgAgain args arg := by
  cases arg with
  | operand i =>
    have hi : i < op.opType.operands.length := hbounds (.operand i) (by simp)
    have hgives : TypeArg.givesOperand i (.operand i) = true := beq_self_eq_true i
    rcases h with h | h
    · exact not_again (hoperands i hi) rfl hgives h rfl
    · exact not_again (hoperands i hi) rfl hgives h hgives
  | result i =>
    have hi : i < op.opType.results.length := hbounds (.result i) (by simp)
    have hgives : TypeArg.givesResult i (.result i) = true := beq_self_eq_true i
    rcases h with h | h
    · exact not_again (hresults i hi) rfl hgives h rfl
    · exact not_again (hresults i hi) rfl hgives h hgives
  | operands =>
    rcases h with h | ⟨i, h⟩
    · exact h
    · have hi : i < op.opType.operands.length := hbounds (.operand i) (by simp [h])
      exact (not_again (hoperands i hi) rfl rfl h (beq_self_eq_true i)).elim
  | results =>
    rcases h with h | ⟨i, h⟩
    · exact h
    · have hi : i < op.opType.results.length := hbounds (.result i) (by simp [h])
      exact (not_again (hresults i hi) rfl rfl h (beq_self_eq_true i)).elim

/-- In a format that binds everything once, only late elements clash with the ones before. -/
theorem Clash.late (hexact : Exact op elements) (hbounds : ∀ e ∈ elements, e.InBounds op)
    (helements : elements = before ++ element :: after) (h : Clash before element) :
    Late before element := by
  have helement := hbounds element (by simp [helements])
  have hargs : typeArgs elements = typeArgs before ++ (element.typeArgs ++ typeArgs after) := by
    simp [helements, typeArgs]
  have hargBounds : ∀ arg ∈ typeArgs before ++ element.typeArgs, arg.InBounds op := by
    intro arg harg
    rcases List.mem_append.mp harg with harg | harg
    · obtain ⟨e, he, harg⟩ := List.mem_flatMap.mp harg
      exact (hbounds e (by simp [helements, he])).typeArgs arg harg
    · exact helement.typeArgs arg harg
  have hoperandTypes := hexact.operandTypes
  have hresultTypes := hexact.resultTypes
  rw [hargs] at hoperandTypes hresultTypes
  cases element with
  | var v =>
    have hv := helement.var v rfl
    cases v with
    | attr i =>
      have hreads : Element.readsAttribute i (.var (.attr i)) = true := beq_self_eq_true i
      exact absurd hreads (not_again (hexact.attributes i hv) helements hreads h)
    | operand i =>
      have hreads : Element.readsOperand i (.var (.operand i)) = true := beq_self_eq_true i
      have hone := (hexact.operands i hv).le
      rcases h with (h | h) | h
      · exact absurd rfl (not_again hone helements hreads h)
      · exact h
      · exact absurd hreads (not_again hone helements hreads h)
    | result i => exact h
    | successor i =>
      have hreads : Element.readsSuccessor i (.var (.successor i)) = true := beq_self_eq_true i
      have hone := (hexact.successors i hv).le
      rcases h with h | h
      · exact not_again hone helements hreads h rfl
      · exact not_again hone helements hreads h hreads
    | region i =>
      have hreads : Element.readsRegion i (.var (.region i)) = true := beq_self_eq_true i
      exact absurd hreads (not_again (hexact.regions i hv).le helements hreads h)
  | operands =>
    rcases h with h | ⟨i, h⟩
    · exact h.symm
    · have hi := (hbounds _ (by simp [helements, h])).var (.operand i) rfl
      exact (not_again (hexact.operands i hi).le helements rfl h (beq_self_eq_true i)).elim
  | successors =>
    rcases h with h | ⟨i, h⟩
    · exact h
    · have hi := (hbounds _ (by simp [helements, h])).var (.successor i) rfl
      exact (not_again (hexact.successors i hi).le helements rfl h (beq_self_eq_true i)).elim
  | type arg => exact ArgClash.again hoperandTypes hresultTypes hargBounds h
  | functionalType inputs outputs =>
    have hsplit : typeArgs before ++ ((Element.functionalType inputs outputs).typeArgs ++
        typeArgs after) = (typeArgs before ++ [inputs]) ++ outputs :: typeArgs after := by
      simp [Element.typeArgs]
    apply Or.imp _ _ h
    · apply ArgClash.again hoperandTypes hresultTypes
      intro arg harg
      apply hargBounds arg
      simp only [Element.typeArgs, List.mem_append, List.mem_cons, List.not_mem_nil,
        or_false] at harg ⊢
      tauto
    · rw [hsplit] at hoperandTypes hresultTypes
      apply ArgClash.again hoperandTypes hresultTypes
      simpa [Element.typeArgs] using hargBounds
  | literal text => exact h
  | attrDict withKeyword => exact h
  | results => exact h
  | symbol i => exact h

end Exact

/-! ## What an accepted format binds -/

theorem Except.exists_of_isOk {ε α : Type} {x : Except ε α} (h : x.isOk = true) :
    ∃ a, x = .ok a := by
  cases x with
  | ok a => exact ⟨a, rfl⟩
  | error e => cases h

theorem mapM_ok_iff {ε α β : Type} {f : α → Except ε β} {values : List α} {results : List β} :
    values.mapM f = .ok results ↔
      List.Forall₂ (fun value result ↦ f value = .ok result) values results := by
  induction values generalizing results with
  | nil =>
    rw [List.mapM_nil, List.forall₂_nil_left_iff]
    exact ⟨fun h ↦ (Except.ok.inj h).symm, fun h ↦ by rw [h]; rfl⟩
  | cons value values ih =>
    simp only [List.mapM_cons, bind_eq_ok, ih, List.forall₂_cons_left_iff]
    constructor
    · rintro ⟨result, hresult, results', hresults, h⟩
      exact ⟨result, results', hresult, hresults, (Except.ok.inj h).symm⟩
    · rintro ⟨result, results', hresult, hresults, rfl⟩
      exact ⟨result, hresult, results', hresults, rfl⟩

/-- What the checks at the end establish. -/
structure Verified (md : Metadata) (op : OperationOp) (items : List Item) (seen : Seen)
    (fmt : OperationFormat) : Prop where
  items_eq : fmt.items = items
  allOperands : fmt.allOperands = decide (.element .operands ∈ items)
  allOperandTypes : fmt.allOperandTypes = seen.allOperandTypes
  allResultTypes : fmt.allResultTypes = seen.allResultTypes
  results : List.Forall₂ (fun result resolution ↦
    verifyResult md op seen result.1 result.2 = .ok resolution)
    op.opType.results.zipIdx fmt.resultTypes
  operands : List.Forall₂ (fun operand resolution ↦
    verifyOperand md op seen operand.1 operand.2 = .ok resolution)
    op.opType.operands.zipIdx fmt.operandTypes
  successors : verifySuccessors op seen = .ok ()
  regions : verifyRegions op seen = .ok ()

theorem verifyFormat_ok {md : Metadata} {op : OperationOp} {items : List Item} {seen : Seen}
    {fmt : OperationFormat} (h : verifyFormat md op items seen = .ok fmt) :
    Verified md op items seen fmt := by
  unfold verifyFormat at h
  split at h
  · cases h
  · obtain ⟨_, -, h⟩ := bind_eq_ok.mp h
    obtain ⟨resultTypes, hresults, h⟩ := bind_eq_ok.mp h
    obtain ⟨operandTypes, hoperands, h⟩ := bind_eq_ok.mp h
    obtain ⟨_, hsuccessors, h⟩ := bind_eq_ok.mp h
    obtain ⟨_, hregions, h⟩ := bind_eq_ok.mp h
    obtain rfl := Except.ok.inj h
    exact {
      items_eq := rfl
      allOperands := rfl
      allOperandTypes := rfl
      allResultTypes := rfl
      results := mapM_ok_iff.mp hresults
      operands := mapM_ok_iff.mp hoperands
      successors := hsuccessors
      regions := hregions }

section Binding

variable {md : Metadata} {op : OperationOp} {items : List Item} {fmt : OperationFormat}
variable {elements : List Element}

theorem forall₂_getElem {α β : Type} {R : α → β → Prop} {as : List α} {bs : List β}
    (h : List.Forall₂ R as bs) {i : ℕ} (hi : i < as.length) :
    ∃ hi' : i < bs.length, R as[i] bs[i] := by
  have hi' : i < bs.length := h.length_eq ▸ hi
  exact ⟨hi', h.get hi hi'⟩

/-- An accepted format reads every operand, if a type directive that takes `operands` is taken for
a directive that reads them. -/
theorem Verified.seen_operand {seen : Seen} (h : Verified md op items seen fmt) {i : ℕ}
    (hi : i < op.opType.operands.length) : seen.hasAllOperands = true ∨ i ∈ seen.operands := by
  have hlength : i < op.opType.operands.zipIdx.length := by simpa using hi
  obtain ⟨_, hoperand⟩ := forall₂_getElem h.operands hlength
  rw [List.getElem_zipIdx, Nat.zero_add] at hoperand
  unfold verifyOperand at hoperand
  split at hoperand
  · cases hoperand
  · rename_i hseen
    simpa [imp_iff_not_or] using hseen

theorem Verified.seen_successor {seen : Seen} (h : Verified md op items seen fmt) {i : ℕ}
    (hi : i < op.opSuccs.successors.length) :
    seen.hasAllSuccessors = true ∨ i ∈ seen.successors := by
  have hsuccessors := h.successors
  unfold verifySuccessors at hsuccessors
  split at hsuccessors
  · rename_i hall
    exact .inl hall
  · split at hsuccessors
    · rename_i hnone
      have hi' := List.find?_eq_none.mp hnone (op.opSuccs.successors[i], i)
        (List.mem_zipIdx_iff_getElem?.mpr (List.getElem?_eq_getElem hi))
      exact .inr (by simpa using hi')
    · cases hsuccessors

theorem Verified.seen_region {seen : Seen} (h : Verified md op items seen fmt) {i : ℕ}
    (hi : i < op.opRegions.regions.length) : i ∈ seen.regions := by
  have hregions := h.regions
  unfold verifyRegions at hregions
  split at hregions
  · rename_i hnone
    have hi' := List.find?_eq_none.mp hnone (op.opRegions.regions[i], i)
      (List.mem_zipIdx_iff_getElem?.mpr (List.getElem?_eq_getElem hi))
    simpa using hi'
  · cases hregions

/-- No element clashes with the elements before it. -/
def Unclashed (elements : List Element) : Prop :=
  ∀ pre e post, elements = pre ++ e :: post → ¬ Clash pre e

theorem Accepted.unclashed_leaves (h : Accepted md op items) : Unclashed (leaves items) :=
  fun _ _ _ hitems hclash ↦ h.unclashed (h.lawful.meets hitems hclash)

theorem countP_eq_one {α : Type} {p : α → Bool} {values : List α} (hle : values.countP p ≤ 1)
    (hex : ∃ a ∈ values, p a = true) : values.countP p = 1 :=
  le_antisymm hle (List.countP_pos_iff.mpr hex)

theorem Element.readsOperand_iff (i : ℕ) (element : Element) :
    element.readsOperand i = true ↔ element = .var (.operand i) ∨ element = .operands := by
  unfold Element.readsOperand
  split <;> simp_all

theorem Element.readsSuccessor_iff (i : ℕ) (element : Element) :
    element.readsSuccessor i = true ↔ element = .var (.successor i) ∨ element = .successors := by
  unfold Element.readsSuccessor
  split <;> simp_all

theorem Element.readsRegion_iff (i : ℕ) (element : Element) :
    element.readsRegion i = true ↔ element = .var (.region i) := by
  unfold Element.readsRegion
  split <;> simp_all

theorem Element.readsAttribute_iff (i : ℕ) (element : Element) :
    element.readsAttribute i = true ↔ element = .var (.attr i) ∨ element = .symbol i := by
  unfold Element.readsAttribute
  split <;> simp_all

theorem TypeArg.givesOperand_iff (i : ℕ) (arg : TypeArg) :
    arg.givesOperand i = true ↔ arg = .operand i ∨ arg = .operands := by
  unfold TypeArg.givesOperand
  split <;> simp_all

theorem TypeArg.givesResult_iff (i : ℕ) (arg : TypeArg) :
    arg.givesResult i = true ↔ arg = .result i ∨ arg = .results := by
  unfold TypeArg.givesResult
  split <;> simp_all

/-- Nothing is related to something before it. -/
theorem countP_le_one {α : Type} {p : α → Bool} {values : List α}
    (h : ∀ pre a post, values = pre ++ a :: post → p a = true → ∀ b ∈ pre, p b = true → False) :
    values.countP p ≤ 1 := by
  rw [countP_le_one_iff]
  intro pre a post hvalues ha b hb
  rw [Bool.eq_false_iff]
  exact h pre a post hvalues ha b hb

theorem Unclashed.operands (h : Unclashed elements) (i : ℕ) :
    elements.countP (Element.readsOperand i) ≤ 1 := by
  apply countP_le_one
  intro pre a post helements ha b hb hreads
  apply h pre a post helements
  rw [Element.readsOperand_iff] at ha hreads
  rcases ha with rfl | rfl <;> rcases hreads with rfl | rfl
  · exact .inr hb
  · exact .inl (.inl hb)
  · exact .inr ⟨i, hb⟩
  · exact .inl (.inl hb)

theorem Unclashed.successors (h : Unclashed elements) (i : ℕ) :
    elements.countP (Element.readsSuccessor i) ≤ 1 := by
  apply countP_le_one
  intro pre a post helements ha b hb hreads
  apply h pre a post helements
  rw [Element.readsSuccessor_iff] at ha hreads
  rcases ha with rfl | rfl <;> rcases hreads with rfl | rfl
  · exact .inr hb
  · exact .inl hb
  · exact .inr ⟨i, hb⟩
  · exact .inl hb

theorem Unclashed.regions (h : Unclashed elements) (i : ℕ) :
    elements.countP (Element.readsRegion i) ≤ 1 := by
  apply countP_le_one
  intro pre a post helements ha b hb hreads
  apply h pre a post helements
  rw [Element.readsRegion_iff] at ha hreads
  subst ha hreads
  exact hb

theorem Unclashed.attributes (h : Unclashed elements) {i : ℕ}
    (hsymbol : .symbol i ∉ elements) : elements.countP (Element.readsAttribute i) ≤ 1 := by
  apply countP_le_one
  intro pre a post helements ha b hb hreads
  apply h pre a post helements
  rw [Element.readsAttribute_iff] at ha hreads
  rcases ha with rfl | rfl
  · rcases hreads with rfl | rfl
    · exact hb
    · exact absurd (by simp [helements, hb]) hsymbol
  · exact absurd (by simp [helements]) hsymbol

theorem Unclashed.typeArgs (h : Unclashed elements) {before after : List TypeArg} {arg : TypeArg}
    (hargs : typeArgs elements = before ++ arg :: after) : ¬ ArgClash before arg := by
  obtain ⟨pre, element, post, us, vs, helements, helement, rfl⟩ := exists_of_flatMap_eq hargs
  have hclash := h pre element post helements
  cases element with
  | type operand =>
    cases us with
    | nil =>
      obtain ⟨rfl, -⟩ := List.cons.inj helement
      rw [List.append_nil]
      exact hclash
    | cons first us => simp [Element.typeArgs] at helement
  | functionalType inputs outputs =>
    rw [Clash, not_or] at hclash
    cases us with
    | nil =>
      obtain ⟨rfl, -⟩ := List.cons.inj helement
      rw [List.append_nil]
      exact hclash.1
    | cons first us =>
      obtain ⟨rfl, hrest⟩ := List.cons.inj helement
      cases us with
      | nil =>
        obtain ⟨rfl, -⟩ := List.cons.inj hrest
        exact hclash.2
      | cons second us => simp at hrest
  | _ => simp [Element.typeArgs] at helement

theorem Unclashed.operandTypes (h : Unclashed elements) (i : ℕ) :
    (OpFormat.typeArgs elements).countP (TypeArg.givesOperand i) ≤ 1 := by
  apply countP_le_one
  intro pre a post hargs ha b hb hgives
  apply h.typeArgs hargs
  rw [TypeArg.givesOperand_iff] at ha hgives
  rcases ha with rfl | rfl <;> rcases hgives with rfl | rfl
  · exact .inr hb
  · exact .inl hb
  · exact .inr ⟨i, hb⟩
  · exact .inl hb

theorem Unclashed.resultTypes (h : Unclashed elements) (i : ℕ) :
    (OpFormat.typeArgs elements).countP (TypeArg.givesResult i) ≤ 1 := by
  apply countP_le_one
  intro pre a post hargs ha b hb hgives
  apply h.typeArgs hargs
  rw [TypeArg.givesResult_iff] at ha hgives
  rcases ha with rfl | rfl <;> rcases hgives with rfl | rfl
  · exact .inr hb
  · exact .inl hb
  · exact .inr ⟨i, hb⟩
  · exact .inl hb

/-- What is left out of an accepted format: operands that a type directive with `operands` stands
in for, and attributes that `symbol` reads once more. -/
theorem Accepted.exact (h : Accepted md op items)
    (hoperands : .operands ∈ OpFormat.typeArgs (leaves items) →
      ∀ i < op.opType.operands.length, ∃ e ∈ leaves items, e.readsOperand i = true)
    (hsymbol : ∀ i, .symbol i ∈ leaves items →
      (leaves items).countP (Element.readsAttribute i) = 1) : Exact op (leaves items) := by
  obtain ⟨fmt, hfmt⟩ := Except.exists_of_isOk h.verified
  have hverified := verifyFormat_ok hfmt
  have hunclashed := h.unclashed_leaves
  constructor
  · intro i hi
    apply countP_eq_one (hunclashed.operands i)
    rcases hverified.seen_operand hi with hall | hseen
    · rcases (seenOf_hasAllOperands _ _).mp hall with hall | hall
      · exact ⟨_, hall, rfl⟩
      · exact hoperands hall i hi
    · exact ⟨_, (mem_seenOf_operands _ _ i).mp hseen, beq_self_eq_true i⟩
  · intro i hi
    apply countP_eq_one (hunclashed.successors i)
    rcases hverified.seen_successor hi with hall | hseen
    · exact ⟨_, (seenOf_hasAllSuccessors _ _).mp hall, rfl⟩
    · exact ⟨_, (mem_seenOf_successors _ _ i).mp hseen, beq_self_eq_true i⟩
  · intro i hi
    apply countP_eq_one (hunclashed.regions i)
    exact ⟨_, (mem_seenOf_regions _ _ i).mp (hverified.seen_region hi), beq_self_eq_true i⟩
  · intro i _
    by_cases hmem : .symbol i ∈ leaves items
    · exact (hsymbol i hmem).le
    · exact hunclashed.attributes hmem
  · exact fun i _ ↦ hunclashed.operandTypes i
  · exact fun i _ ↦ hunclashed.resultTypes i

end Binding

/-! ## Types that are not given -/

section Types

variable (md : Metadata) (op : OperationOp) (fmt : OperationFormat)

/-- The format gives the type of this value by itself. -/
def Given (value : ValueRef) : Prop :=
  match value.kind with
  | .operand => .operand value.idx ∈ typeArgs (leaves fmt.items)
  | .result => .result value.idx ∈ typeArgs (leaves fmt.items)

/-- The list comes from the builder of the type, or from a value whose type is given. -/
def Supplies (type : Ty) : TypeList → Prop
  | .buildable idx => ∃ builder, md.typeBuilder type = some builder ∧
    .buildableType idx builder ∈ genParserTypeResolution op fmt
  | .types name => ∃ value, Given fmt value ∧ valueName op value = name

def ResolveStmt.added? : ResolveStmt → Option TypeList
  | .addTypes types => some types
  | _ => none

/-- The types of the results that the generated parser adds. -/
def addedTypes (code : List ResolveStmt) : List TypeList := code.filterMap ResolveStmt.added?

/-- An operand is resolved by itself or together with all operands. -/
def ResolvesOperand (code : List ResolveStmt) (name : String) (i : ℕ) (types : TypeList) : Prop :=
  .resolveOperands [name] [types] ∈ code ∨
    ∃ all, .resolveOperands ["allOperand"] all ∈ code ∧ all[i]? = some types

/-- Every type that the format does not give is resolved by the generated parser. -/
structure TypesResolved : Prop where
  operands : ∀ (i : ℕ) (hi : i < op.opType.operands.length),
    (typeArgs (leaves fmt.items)).countP (TypeArg.givesOperand i) = 0 →
    ∃ types, ResolvesOperand (genParserTypeResolution op fmt) op.opType.operands[i].name i types ∧
      Supplies md op fmt op.opType.operands[i].type types
  results : ∀ (i : ℕ) (hi : i < op.opType.results.length),
    (typeArgs (leaves fmt.items)).countP (TypeArg.givesResult i) = 0 →
    ∃ types, (addedTypes (genParserTypeResolution op fmt))[i]? = some types ∧
      Supplies md op fmt op.opType.results[i].type types

end Types

section Resolution

variable {md : Metadata} {op : OperationOp} {fmt : OperationFormat}

/-- The type of this value has been seen. -/
def Seen.HasType (seen : Seen) (value : ValueRef) : Prop :=
  match value.kind with
  | .operand => value.idx ∈ seen.operandTypes
  | .result => value.idx ∈ seen.resultTypes

theorem handleSameTypesConstraint_some {seen : Seen} {includeResults : Bool}
    {resolvers : String → Option ValueRef}
    (hresolvers : ∀ name value, resolvers name = some value → seen.HasType value)
    (name : String) (value : ValueRef)
    (h : handleSameTypesConstraint op seen includeResults resolvers name = some value) :
    seen.HasType value := by
  unfold handleSameTypesConstraint at h
  generalize hresolver : Option.or _ _ = resolver at h
  cases resolver with
  | none => exact hresolvers name value h
  | some resolver =>
    simp only at h
    split at h
    · obtain rfl := Option.some.inj h
      rw [Option.or_eq_some_iff, Option.map_eq_some_iff] at hresolver
      rcases hresolver with ⟨i, hi, rfl⟩ | ⟨-, hresult⟩
      · have hmem : i ∈ seen.operandTypes := by simpa using List.find?_some hi
        exact hmem
      · split at hresult
        · obtain ⟨i, hi, rfl⟩ := Option.map_eq_some_iff.mp hresult
          have hmem : i ∈ seen.resultTypes := by simpa using List.find?_some hi
          exact hmem
        · cases hresult
    · exact hresolvers name value h

/-- A type is taken from a value that has been given one. -/
theorem variableTyResolver_some {seen : Seen} {name : String} {value : ValueRef}
    (h : variableTyResolver op seen name = some value) : seen.HasType value := by
  have hnone : ∀ (name : String) (value : ValueRef),
      (none : Option ValueRef) = some value → seen.HasType value := fun _ _ h ↦ by cases h
  have hsame : ∀ (name : String) (value : ValueRef),
      (if getTrait op "SameTypeOperands" then
        handleSameTypesConstraint op seen false fun _ ↦ none
      else fun _ ↦ none) name = some value → seen.HasType value := by
    intro name value h
    split_ifs at h
    exact handleSameTypesConstraint_some hnone name value h
  unfold variableTyResolver at h
  by_cases htrait : getTrait op "SameOperandsAndResultType" = true
  · rw [if_pos htrait] at h
    exact handleSameTypesConstraint_some hsame name value h
  · rw [if_neg htrait] at h
    exact hsame name value h

theorem mem_buildableTypes {text : String}
    (h : .builder text ∈ fmt.resultTypes ++ fmt.operandTypes) : text ∈ fmt.buildableTypes := by
  rw [OperationFormat.buildableTypes, List.mem_eraseDups, List.mem_filterMap]
  exact ⟨_, h, rfl⟩

theorem buildableType_mem {text : String}
    (h : .builder text ∈ fmt.resultTypes ++ fmt.operandTypes) :
    .buildableType (fmt.buildableTypes.idxOf text) text ∈ genParserTypeResolution op fmt := by
  have hmem := mem_buildableTypes h
  simp only [genParserTypeResolution, List.mem_append, List.mem_map]
  refine .inl (.inl ⟨(text, fmt.buildableTypes.idxOf text), ?_, rfl⟩)
  rw [List.mem_zipIdx_iff_getElem?]
  exact List.getElem?_idxOf hmem

theorem supplies_builder {type : Ty} {text : String} (htype : md.typeBuilder type = some text)
    (h : .builder text ∈ fmt.resultTypes ++ fmt.operandTypes) (curVar : String) :
    Supplies md op fmt type (emitTypeResolver op fmt curVar (.builder text)) :=
  ⟨text, htype, buildableType_mem h⟩

theorem supplies_ofValue {seen : Seen} (hseen : seen = seenAfter (leaves fmt.items)) {type : Ty}
    {name curVar : String} {value : ValueRef} (h : variableTyResolver op seen name = some value) :
    Supplies md op fmt type (emitTypeResolver op fmt curVar (.ofValue value)) := by
  have hgiven := variableTyResolver_some h
  refine ⟨value, ?_, rfl⟩
  subst hseen
  unfold Seen.HasType at hgiven
  unfold Given
  split <;> rename_i hkind <;> simp only [hkind] at hgiven
  · exact (mem_seenOf_operandTypes _ _ _).mp hgiven
  · exact (mem_seenOf_resultTypes _ _ _).mp hgiven

end Resolution

section Resolved

variable {md : Metadata} {op : OperationOp} {items : List Item} {fmt : OperationFormat}

theorem getElem?_emitTypeResolvers {values : List NamedType} {resolvers : List TypeResolution}
    {i : ℕ} (hi : i < values.length) (hi' : i < resolvers.length) :
    (emitTypeResolvers op fmt values resolvers)[i]? =
      some (emitTypeResolver op fmt values[i].name resolvers[i]) := by
  rw [emitTypeResolvers, List.getElem?_map, List.getElem?_eq_getElem (by simp [hi, hi']),
    List.getElem_zip]
  rfl

/-- What resolves the type of an operand that has none. -/
theorem verifyOperand_resolution {seen : Seen} {operand : NamedType} {i : ℕ}
    {resolution : TypeResolution} (h : verifyOperand md op seen operand i = .ok resolution)
    (hall : seen.allOperandTypes = false) (hi : i ∉ seen.operandTypes) :
    (∃ value, variableTyResolver op seen operand.name = some value ∧
      resolution = .ofValue value) ∨
    ∃ text, md.typeBuilder operand.type = some text ∧ resolution = .builder text := by
  unfold verifyOperand at h
  rw [if_neg (show ¬ (seen.allOperandTypes = true ∨ i ∈ seen.operandTypes) by simp [hall, hi])] at h
  split at h
  · cases h
  · split at h
    · rename_i value hvalue
      exact .inl ⟨value, hvalue, (Except.ok.inj h).symm⟩
    · split at h
      · cases h
      · rename_i text htext
        split at h
        · cases h
        · exact .inr ⟨text, htext, (Except.ok.inj h).symm⟩

/-- What resolves the type of a result that has none. -/
theorem verifyResult_resolution {seen : Seen} {result : NamedType} {i : ℕ}
    {resolution : TypeResolution} (h : verifyResult md op seen result i = .ok resolution)
    (hall : seen.allResultTypes = false) (hi : i ∉ seen.resultTypes) :
    (∃ value, variableTyResolver op seen result.name = some value ∧
      resolution = .ofValue value) ∨
    ∃ text, md.typeBuilder result.type = some text ∧ resolution = .builder text := by
  unfold verifyResult at h
  rw [if_neg (show ¬ (seen.allResultTypes = true ∨ i ∈ seen.resultTypes) by simp [hall, hi])] at h
  split at h
  · rename_i value hvalue
    exact .inl ⟨value, hvalue, (Except.ok.inj h).symm⟩
  · split at h
    · cases h
    · rename_i text htext
      split at h
      · cases h
      · exact .inr ⟨text, htext, (Except.ok.inj h).symm⟩

theorem addedTypes_genParserTypeResolution (hall : fmt.allResultTypes = false) :
    addedTypes (genParserTypeResolution op fmt) =
      emitTypeResolvers op fmt op.opType.results fmt.resultTypes := by
  have hadd : ∀ types : List TypeList, addedTypes (types.map .addTypes) = types := by
    intro types
    simp [addedTypes, List.filterMap_map, Function.comp_def, ResolveStmt.added?]
  have hbuilders : addedTypes (fmt.buildableTypes.zipIdx.map fun builder ↦
      .buildableType builder.2 builder.1) = [] := by
    simp [addedTypes, List.filterMap_map, Function.comp_def, ResolveStmt.added?]
  have hresolve : ∀ pairs : List (String × TypeList),
      addedTypes (pairs.map fun pair ↦ .resolveOperands [pair.1] [pair.2]) = [] := by
    intro pairs
    simp [addedTypes, List.filterMap_map, Function.comp_def, ResolveStmt.added?]
  have hall' : ∀ (names : List String) (types : List TypeList),
      addedTypes [.resolveOperands names types] = [] := fun _ _ ↦ rfl
  have happend : ∀ code code' : List ResolveStmt,
      addedTypes (code ++ code') = addedTypes code ++ addedTypes code' :=
    fun _ _ ↦ List.filterMap_append ..
  simp only [genParserTypeResolution, hall, Bool.false_eq_true, if_false, happend, hbuilders,
    hadd, List.nil_append]
  split_ifs
  · exact List.append_nil _
  · rw [hall', List.append_nil]
  · rw [hall', List.append_nil]
  · rw [hall', List.append_nil]
  · rw [hresolve, List.append_nil]

theorem resolvesOperand (hall : fmt.allOperandTypes = false) {i : ℕ}
    (hi : i < op.opType.operands.length) (hi' : i < fmt.operandTypes.length) :
    ResolvesOperand (genParserTypeResolution op fmt) op.opType.operands[i].name i
      (emitTypeResolver op fmt op.opType.operands[i].name fmt.operandTypes[i]) := by
  have hget := @getElem?_emitTypeResolvers op fmt op.opType.operands fmt.operandTypes i hi hi'
  have hempty : op.opType.operands.isEmpty = false := by
    rw [List.isEmpty_eq_false_iff]
    exact List.ne_nil_of_length_pos (Nat.zero_lt_of_lt hi)
  simp only [ResolvesOperand, genParserTypeResolution, hempty, hall, Bool.false_eq_true, if_false]
  cases fmt.allOperands with
  | true =>
    right
    exact ⟨_, List.mem_append_right _ (List.mem_singleton.mpr rfl), hget⟩
  | false =>
    left
    apply List.mem_append_right
    rw [if_neg Bool.false_ne_true, List.mem_map]
    refine ⟨(op.opType.operands[i].name, _), ?_, rfl⟩
    rw [List.mem_iff_getElem?]
    refine ⟨i, ?_⟩
    rw [List.getElem?_zip_eq_some]
    exact ⟨by simp [hi], hget⟩

/-- The checks at the end leave no type without a resolver. -/
theorem Verified.typesResolved (h : Verified md op items (seenAfter (leaves items)) fmt) :
    TypesResolved md op fmt := by
  have hseen : seenAfter (leaves items) = seenAfter (leaves fmt.items) := by rw [h.items_eq]
  constructor
  · intro i hi hnot
    have hnone : ∀ arg ∈ typeArgs (leaves fmt.items), ¬ arg.givesOperand i = true :=
      List.countP_eq_zero.mp hnot
    have hall : fmt.allOperandTypes = false := by
      rw [h.allOperandTypes, hseen, Bool.eq_false_iff]
      intro hall
      exact hnone _ ((seenOf_allOperandTypes _ _).mp hall) rfl
    have hi' : i ∉ (seenAfter (leaves fmt.items)).operandTypes := by
      intro hmem
      exact hnone _ ((mem_seenOf_operandTypes _ _ _).mp hmem) (beq_self_eq_true i)
    obtain ⟨hlength, hoperand⟩ := forall₂_getElem h.operands (i := i) (by simpa using hi)
    rw [List.getElem_zipIdx, Nat.zero_add, hseen] at hoperand
    refine ⟨_, resolvesOperand hall hi hlength, ?_⟩
    rw [h.allOperandTypes, hseen] at hall
    have hmem := List.getElem_mem hlength
    rcases verifyOperand_resolution hoperand hall hi' with ⟨value, hvalue, hres⟩ | ⟨text, htext, hres⟩
    · rw [hres]
      exact supplies_ofValue rfl hvalue
    · rw [hres] at hmem ⊢
      exact supplies_builder htext (List.mem_append_right _ hmem) _
  · intro i hi hnot
    have hnone : ∀ arg ∈ typeArgs (leaves fmt.items), ¬ arg.givesResult i = true :=
      List.countP_eq_zero.mp hnot
    have hall : fmt.allResultTypes = false := by
      rw [h.allResultTypes, hseen, Bool.eq_false_iff]
      intro hall
      exact hnone _ ((seenOf_allResultTypes _ _).mp hall) rfl
    have hi' : i ∉ (seenAfter (leaves fmt.items)).resultTypes := by
      intro hmem
      exact hnone _ ((mem_seenOf_resultTypes _ _ _).mp hmem) (beq_self_eq_true i)
    obtain ⟨hlength, hresult⟩ := forall₂_getElem h.results (i := i) (by simpa using hi)
    rw [List.getElem_zipIdx, Nat.zero_add, hseen] at hresult
    rw [addedTypes_genParserTypeResolution hall, getElem?_emitTypeResolvers hi hlength]
    refine ⟨_, rfl, ?_⟩
    rw [h.allResultTypes, hseen] at hall
    have hmem := List.getElem_mem hlength
    rcases verifyResult_resolution hresult hall hi' with ⟨value, hvalue, hres⟩ | ⟨text, htext, hres⟩
    · rw [hres]
      exact supplies_ofValue rfl hvalue
    · rw [hres] at hmem ⊢
      exact supplies_builder htext (List.mem_append_left _ hmem) _

end Resolved

/-! ## Exactness -/

section Exactness

variable (md : Metadata) (op : OperationOp)

/-- What the parser accepts binds everything once and leaves no type unresolved, and a format that
binds everything once is not rejected because something is bound already. -/
structure BindsExactly (tokens : List FormatToken) : Prop where
  accepted : ∀ fmt, parse md op tokens = .ok fmt →
    Exact op (leaves fmt.items) ∧ TypesResolved md op fmt
  rejected : ∀ items, SpellsItems op items tokens → Exact op (leaves items) →
    ∀ error, parse md op tokens = .error error → error.isBinding = false

/-- The formats without elements that the parser counts wrongly. -/
structure CountsRightly (items : List Item) : Prop where
  /-- the argument `operands` of a type directive does not stand in for an operand -/
  operands : Accepted md op items → .operands ∈ typeArgs (leaves items) →
    ∀ i < op.opType.operands.length, ∃ e ∈ leaves items, e.readsOperand i = true
  /-- no other element reads the attribute of a directive `symbol` -/
  symbols : Accepted md op items → ∀ i, .symbol i ∈ leaves items →
    (leaves items).countP (Element.readsAttribute i) = 1
  /-- no element is late -/
  order : Exact op (leaves items) → ¬ Meets md op Late [] items

variable {md op}

/-- An op format is exact unless the parser counts its elements wrongly. -/
theorem opFormat_bindsExactly_iff (tokens : List FormatToken) :
    BindsExactly md op tokens ↔
      ∀ items, SpellsItems op items tokens → CountsRightly md op items := by
  constructor
  · intro h items hspells
    have hexact : Accepted md op items → Exact op (leaves items) := by
      intro haccepted
      obtain ⟨fmt, hfmt⟩ := (accepted_iff hspells).mpr haccepted
      have hitems := hfmt
      rw [parse_spelled hspells] at hitems
      obtain ⟨seen, -, hverify⟩ := bind_eq_ok.mp hitems
      rw [← verifyFormat_items hverify]
      exact (h.accepted fmt hfmt).1
    constructor
    · intro haccepted _ i hi
      have hone := (hexact haccepted).operands i hi
      exact List.countP_pos_iff.mp (by omega)
    · intro haccepted i hmem
      have hi := (hspells.inBounds _ hmem).symbol i rfl
      exact countP_eq_one ((hexact haccepted).attributes i hi) ⟨_, hmem, beq_self_eq_true i⟩
    · intro hex hlate
      have hclash : Meets md op Clash [] items := hlate.mono fun _ _ _ _ h ↦ h.clash
      obtain ⟨error, herror, hbinding⟩ := (binding_error_iff hspells).mpr hclash
      rw [h.rejected items hspells hex error herror] at hbinding
      cases hbinding
  · intro h
    constructor
    · intro fmt hfmt
      have hspells := parse_ok_spells hfmt
      have haccepted := (accepted_iff hspells).mp ⟨fmt, hfmt⟩
      have hcounts := h fmt.items hspells
      refine ⟨haccepted.exact (hcounts.operands haccepted) (hcounts.symbols haccepted), ?_⟩
      have houtcome := @outcome_parse md op fmt.items
      rw [parse_spelled hspells] at hfmt
      obtain ⟨seen, hseen, hverify⟩ := bind_eq_ok.mp hfmt
      rw [hseen] at houtcome
      cases houtcome
      exact (verifyFormat_ok hverify).typesResolved
    · intro items hspells hex error herror
      rw [Bool.eq_false_iff]
      intro hbinding
      have hclash := (binding_error_iff hspells).mp ⟨error, herror, hbinding⟩
      apply (h items hspells).order hex
      exact hclash.mono fun pre e post hitems hclash ↦
        Clash.late hex hspells.inBounds hitems hclash

end Exactness

/-- No type has a builder. -/
def Metadata.base : Metadata where
  typeBuilder _ := none
  attrTypeBuilder _ := none
  isOptional _ := false

/-- One operand and one attribute. -/
def symbolOp : OperationOp where
  name := "reference"
  opType := ⟨[⟨"value", .leaf .any⟩], [], List.nodup_singleton "value", List.nodup_nil⟩
  opAttrs := [("callee", .constraint 0)]
  opRegions := ⟨[], List.nodup_nil⟩
  opSuccs := ⟨[], List.nodup_nil⟩
  opTraits := []
  config := []

/-- `type(operands)` without the operands is accepted, `symbol($callee) $callee` reads an attribute
twice, and `type(operands) $value` is rejected. -/
theorem opFormat_not_bindsExactly :
    ¬ BindsExactly .base symbolOp [.keyword "type", .lparen, .keyword "operands", .rparen,
      .keyword "attr-dict"] ∧
    ¬ BindsExactly .base symbolOp [.keyword "symbol", .lparen, .var "callee", .rparen,
      .var "callee", .var "value", .keyword "type", .lparen, .var "value", .rparen,
      .keyword "attr-dict"] ∧
    ¬ BindsExactly .base symbolOp [.keyword "type", .lparen, .keyword "operands", .rparen,
      .var "value", .keyword "attr-dict"] := by
  refine ⟨fun h ↦ ?_, fun h ↦ ?_, fun h ↦ ?_⟩
  · have hexact := (h.accepted ⟨[.element (.type .operands), .element (.attrDict false)],
      false, true, false, [], [.given]⟩ rfl).1
    have hone := hexact.operands 0 Nat.zero_lt_one
    revert hone
    decide
  · have hexact := (h.accepted ⟨[.element (.symbol 0), .element (.var (.attr 0)),
      .element (.var (.operand 0)), .element (.type (.operand 0)), .element (.attrDict false)],
      false, false, false, [], [.given]⟩ rfl).1
    have hone := hexact.attributes 0 Nat.zero_lt_one
    revert hone
    decide
  · have hspells : SpellsItems symbolOp [.element (.type .operands),
        .element (.var (.operand 0)), .element (.attrDict false)]
        [.keyword "type", .lparen, .keyword "operands", .rparen, .var "value",
          .keyword "attr-dict"] :=
      ⟨[.keyword "type", .lparen, .keyword "operands", .rparen], _, ⟨_, rfl, rfl⟩,
        ⟨[.var "value"], _, ⟨"value", rfl, rfl⟩, ⟨[.keyword "attr-dict"], [], rfl, rfl, rfl⟩, rfl⟩, rfl⟩
    have hexact : Exact symbolOp (leaves [.element (.type .operands),
        .element (.var (.operand 0)), .element (.attrDict false)]) := by
      constructor
      · intro i hi
        obtain rfl := Nat.lt_one_iff.mp hi
        rfl
      · exact fun i hi ↦ absurd hi (Nat.not_lt_zero i)
      · exact fun i hi ↦ absurd hi (Nat.not_lt_zero i)
      · intro i hi
        obtain rfl := Nat.lt_one_iff.mp hi
        exact Nat.zero_le 1
      · intro i hi
        obtain rfl := Nat.lt_one_iff.mp hi
        exact le_refl 1
      · exact fun i hi ↦ absurd hi (Nat.not_lt_zero i)
    have hplain := h.rejected _ hspells hexact (.bound "operand" "value") rfl
    cases hplain

end DeclarativeMlir.Embed.OpFormat

import DeclarativeMlir.Embed.OpFormat

/-!
# Reading op formats

How the elements of a format are spelled. The parser gives elements that spell the tokens it has
taken, and on tokens that spell some elements it does for one element after the other what reading
this element means for the things that have been seen.
-/

namespace DeclarativeMlir.Embed.OpFormat

open Spec CheckedParsing

/-! ## Spelling -/

section Spelling

variable (op : OperationOp)

def TypeArg.Spells : TypeArg → List FormatToken → Prop
  | .operand i, text => ∃ name, findVariable op name = some (.operand i) ∧ text = [.var name]
  | .result i, text => ∃ name, findVariable op name = some (.result i) ∧ text = [.var name]
  | .operands, text => text = [.keyword "operands"]
  | .results, text => text = [.keyword "results"]

def Element.Spells : Element → List FormatToken → Prop
  | .literal value, text => text = [.literal value]
  | .var v, text => ∃ name, findVariable op name = some v ∧ text = [.var name]
  | .attrDict withKeyword, text =>
    text = [.keyword (if withKeyword then "attr-dict-with-keyword" else "attr-dict")]
  | .functionalType inputs outputs, text => ∃ first second, inputs.Spells op first ∧
    outputs.Spells op second ∧
    text = .keyword "functional-type" :: .lparen :: (first ++ .comma :: (second ++ [.rparen]))
  | .operands, text => text = [.keyword "operands"]
  | .results, text => text = [.keyword "results"]
  | .successors, text => text = [.keyword "successors"]
  | .type operand, text => ∃ arg, operand.Spells op arg ∧
    text = .keyword "type" :: .lparen :: (arg ++ [.rparen])
  | .symbol i, text => ∃ token, (FormatToken.dropFront token).bind (findVariable op) =
      some (.attr i) ∧ text = [.keyword "symbol", .lparen, token, .rparen]

/-- The elements of a group from index `k` on. The anchor is the one with a caret after it. -/
inductive SpellsChildren : ℕ → Option ℕ → Option ℕ → List Element → List FormatToken → Prop
  | nil (k : ℕ) (anchor : Option ℕ) : SpellsChildren k anchor anchor [] []
  | cons {k : ℕ} {anchor anchor' : Option ℕ} {element : Element} {elements : List Element}
      {text rest : List FormatToken} : element.Spells op text →
      SpellsChildren (k + 1) anchor anchor' elements rest →
      SpellsChildren k anchor anchor' (element :: elements) (text ++ rest)
  | anchor {k : ℕ} {anchor' : Option ℕ} {element : Element} {elements : List Element}
      {text rest : List FormatToken} : element.Spells op text →
      SpellsChildren (k + 1) (some k) anchor' elements rest →
      SpellsChildren k none anchor' (element :: elements) (text ++ .caret :: rest)

def Item.Spells : Item → List FormatToken → Prop
  | .element e, text => e.Spells op text
  | .optional elements anchor, text => elements ≠ [] ∧
    ∃ body, SpellsChildren op 0 none (some anchor) elements body ∧
      text = .lparen :: (body ++ [.rparen, .question])

def SpellsItems : List Item → List FormatToken → Prop
  | [], text => text = []
  | item :: items, text => ∃ first rest, item.Spells op first ∧ SpellsItems items rest ∧
    text = first ++ rest

end Spelling

/-! ## The parser gives what is spelled -/

/-- The errors of the source. -/
abbrev IsError (e : FormatError) : Prop := e ≠ .outOfFuel

theorem sat_consumeToken (input : Input FormatToken Seen) :
    Sat consumeToken input (fun _ rest ↦ rest.tokens = input.tokens.tail) IsError := rfl

theorem sat_parseToken (kind : FormatToken) (message : String) (input : Input FormatToken Seen) :
    Sat (parseToken kind message) input (fun _ rest ↦ input.tokens = kind :: rest.tokens)
      IsError := by
  obtain ⟨tokens, seen⟩ := input
  unfold Sat parseToken StateT.run
  cases tokens with
  | nil => simp [err, IsError]
  | cons token tokens =>
    by_cases hkind : token = kind
    · simp [hkind]
    · simp [hkind, err, IsError]

theorem sat_bindSeen {bind : Seen → Except FormatError Seen}
    (hbind : ∀ seen, bind seen ≠ .error .outOfFuel) (input : Input FormatToken Seen) :
    Sat (bindSeen bind) input (fun _ rest ↦ rest.tokens = input.tokens) IsError := by
  have h := hbind input.state
  simp only [Sat, StateT.run, bindSeen]
  cases hseen : bind input.state with
  | ok seen => rfl
  | error e =>
    intro he
    exact h (by rw [hseen, he])

theorem bindVariable_ne_outOfFuel (op : OperationOp) (isTopLevel : Bool) (name : String)
    (var : Variable) (seen : Seen) :
    bindVariable op isTopLevel name seen var ≠ .error .outOfFuel := by
  cases var <;> simp only [bindVariable, err] <;> split_ifs <;> simp

theorem bindTypes_ne_outOfFuel (op : OperationOp) (arg : TypeArg) (seen : Seen) :
    bindTypes op seen arg ≠ .error .outOfFuel := by
  cases arg <;> simp only [bindTypes] <;> split_ifs <;> simp

theorem bindAttrDict_ne_outOfFuel (isTopLevel : Bool) (seen : Seen) :
    bindAttrDict isTopLevel seen ≠ .error .outOfFuel := by
  unfold bindAttrDict err
  split_ifs <;> simp

theorem bindOperands_ne_outOfFuel (isTopLevel : Bool) (seen : Seen) :
    bindOperands isTopLevel seen ≠ .error .outOfFuel := by
  unfold bindOperands
  split_ifs <;> simp

theorem bindResults_ne_outOfFuel (isTopLevel : Bool) (seen : Seen) :
    bindResults isTopLevel seen ≠ .error .outOfFuel := by
  unfold bindResults err
  split_ifs <;> simp

theorem bindSuccessors_ne_outOfFuel (isTopLevel : Bool) (seen : Seen) :
    bindSuccessors isTopLevel seen ≠ .error .outOfFuel := by
  unfold bindSuccessors err
  split_ifs <;> simp

theorem checkChild_ne_outOfFuel (md : Metadata) (op : OperationOp) (isAnchor : Bool)
    (element : Element) : checkChild md op isAnchor element ≠ .error .outOfFuel := by
  unfold checkChild err
  split <;> (try split_ifs) <;> simp

theorem checkGroup_ne_outOfFuel (group : Group) : checkGroup group ≠ .error .outOfFuel := by
  unfold checkGroup err
  split <;> (try split_ifs) <;> simp

theorem sat_parseVariable (op : OperationOp) (isTopLevel : Bool)
    (input : Input FormatToken Seen) :
    Sat (parseVariable op isTopLevel) input
      (fun var rest ↦ ∃ token, input.tokens = token :: rest.tokens ∧
        (FormatToken.dropFront token).bind (findVariable op) = some var) IsError := by
  unfold parseVariable
  apply Sat.bind
  apply Sat.get
  apply (sat_consumeToken input).andThen
  intro _ rest hrest
  cases hname : input.tokens.head?.bind FormatToken.dropFront with
  | none =>
    apply Sat.throw
    simp [IsError]
  | some name =>
    obtain ⟨token, htoken, hname⟩ := Option.bind_eq_some_iff.mp hname
    have htokens : input.tokens = token :: rest.tokens := by
      rw [hrest]
      exact (List.cons_head?_tail htoken).symm
    cases hvar : findVariable op name with
    | none =>
      simp only [hvar]
      apply Sat.throw
      simp [IsError]
    | some var =>
      simp only [hvar]
      apply (sat_bindSeen (bindVariable_ne_outOfFuel op isTopLevel name var) rest).andThen
      intro _ rest' hrest'
      apply Sat.pure
      exact ⟨token, by rw [hrest', htokens], by rw [hname, Option.bind_some, hvar]⟩

/-- The value is spelled by the tokens that the parser has taken. -/
def Took {α : Type} (spells : α → List FormatToken → Prop) (input : Input FormatToken Seen) (a : α)
    (rest : Input FormatToken Seen) : Prop :=
  ∃ text, text ≠ [] ∧ input.tokens = text ++ rest.tokens ∧ spells a text

theorem sat_parseLiteral {op : OperationOp} {value : String} {input : Input FormatToken Seen}
    (hhead : input.tokens.head? = some (.literal value)) :
    Sat (parseLiteral value) input (Took (Element.Spells op) input) IsError := by
  unfold parseLiteral
  apply (sat_consumeToken input).andThen
  intro _ rest hrest
  split_ifs
  · apply Sat.pure
    refine ⟨[.literal value], by simp, ?_, rfl⟩
    rw [hrest]
    exact (List.cons_head?_tail hhead).symm
  · apply Sat.throw
    simp [IsError]

theorem typeOperand_ne_outOfFuel (item : Item) : typeOperand item ≠ .error .outOfFuel := by
  unfold typeOperand err
  split <;> simp

theorem typeOperand_ok {op : OperationOp} {item : Item} {arg : TypeArg}
    (h : typeOperand item = .ok arg) {text : List FormatToken} (hitem : item.Spells op text) :
    arg.Spells op text := by
  unfold typeOperand err at h
  split at h <;> first
    | obtain rfl := Except.ok.inj h
      exact hitem
    | cases h

theorem sat_lift {α : Type} {x : Except FormatError α} (hx : x ≠ .error .outOfFuel)
    (input : Input FormatToken Seen) :
    Sat (StateT.lift x) input (fun a rest ↦ x = .ok a ∧ rest = input) IsError := by
  apply Sat.lift
  · intro a ha
    exact ⟨ha, rfl⟩
  · rintro e he rfl
    exact hx he

section Nested

variable {op : OperationOp} {self : Bool → FormatParser Item} {input : Input FormatToken Seen}

theorem sat_parseTypeDirectiveOperand
    (hself : Sat (self false) input (Took (Item.Spells op) input) IsError) :
    Sat (parseTypeDirectiveOperand op self) input (Took (TypeArg.Spells op) input) IsError := by
  unfold parseTypeDirectiveOperand
  apply hself.andThen
  rintro item rest ⟨text, hne, htokens, hitem⟩
  apply (sat_lift (typeOperand_ne_outOfFuel item) rest).andThen
  rintro arg _ ⟨harg, rfl⟩
  apply (sat_bindSeen (bindTypes_ne_outOfFuel op arg) _).andThen
  intro _ rest' hrest'
  apply Sat.pure
  exact ⟨text, hne, by rw [hrest', htokens], typeOperand_ok harg hitem⟩

/-- The nested parser is run on fewer than `n` tokens. -/
abbrev Nests (op : OperationOp) (self : Bool → FormatParser Item) (n : ℕ) : Prop :=
  ∀ isTopLevel input, input.tokens.length < n →
    Sat (self isTopLevel) input (Took (Item.Spells op) input) IsError

theorem sat_parseTypeDirective (isTopLevel : Bool) {n : ℕ} (hself : Nests op self n)
    (hlength : input.tokens.length < n) :
    Sat (parseTypeDirective op self isTopLevel) input
      (fun element rest ↦ ∃ text, input.tokens = text ++ rest.tokens ∧
        element.Spells op (.keyword "type" :: text)) IsError := by
  unfold parseTypeDirective
  split_ifs
  · apply Sat.bind
    apply Sat.throw
    simp [IsError]
  · apply (sat_parseToken _ _ input).andThen
    intro _ rest hrest
    have hlt : rest.tokens.length < n := by
      rw [hrest, List.length_cons] at hlength
      omega
    apply (sat_parseTypeDirectiveOperand (hself false rest hlt)).andThen
    rintro arg rest' ⟨text, -, htext, harg⟩
    apply (sat_parseToken _ _ rest').andThen
    intro _ rest'' hrest''
    apply Sat.pure
    refine ⟨.lparen :: (text ++ [.rparen]), ?_, text, harg, rfl⟩
    simp [hrest, htext, hrest'']

theorem sat_parseFunctionalTypeDirective (isTopLevel : Bool) {n : ℕ} (hself : Nests op self n)
    (hlength : input.tokens.length < n) :
    Sat (parseFunctionalTypeDirective op self isTopLevel) input
      (fun element rest ↦ ∃ text, input.tokens = text ++ rest.tokens ∧
        element.Spells op (.keyword "functional-type" :: text)) IsError := by
  unfold parseFunctionalTypeDirective
  split_ifs
  · apply Sat.bind
    apply Sat.throw
    simp [IsError]
  · apply (sat_parseToken _ _ input).andThen
    intro _ rest₁ hrest₁
    have hlt₁ : rest₁.tokens.length < n := by
      rw [hrest₁, List.length_cons] at hlength
      omega
    apply (sat_parseTypeDirectiveOperand (hself false rest₁ hlt₁)).andThen
    rintro inputs rest₂ ⟨first, -, hfirst, hinputs⟩
    apply (sat_parseToken _ _ rest₂).andThen
    intro _ rest₃ hrest₃
    have hlt₃ : rest₃.tokens.length < n := by
      rw [hfirst, hrest₃, List.length_append, List.length_cons] at hlt₁
      omega
    apply (sat_parseTypeDirectiveOperand (hself false rest₃ hlt₃)).andThen
    rintro outputs rest₄ ⟨second, -, hsecond, houtputs⟩
    apply (sat_parseToken _ _ rest₄).andThen
    intro _ rest₅ hrest₅
    apply Sat.pure
    refine ⟨.lparen :: (first ++ .comma :: (second ++ [.rparen])), ?_,
      first, second, hinputs, houtputs, rfl⟩
    simp [hrest₁, hfirst, hrest₃, hsecond, hrest₅]

theorem sat_parseSymbolDirective (op : OperationOp) (input : Input FormatToken Seen) :
    Sat (parseSymbolDirective op) input
      (fun element rest ↦ ∃ text, input.tokens = text ++ rest.tokens ∧
        element.Spells op (.keyword "symbol" :: text)) IsError := by
  unfold parseSymbolDirective
  apply (sat_parseToken _ _ input).andThen
  intro _ rest₁ hrest₁
  apply (sat_parseVariable op false rest₁).andThen
  rintro attr rest₂ ⟨token, htoken, hattr⟩
  apply (sat_parseToken _ _ rest₂).andThen
  intro _ rest₃ hrest₃
  split
  · apply Sat.pure
    exact ⟨[.lparen, token, .rparen], by simp [hrest₁, htoken, hrest₃], token, hattr, rfl⟩
  · apply Sat.throw
    simp [IsError]

/-- A directive that is a keyword by itself. -/
theorem sat_keyword {bind : Seen → Except FormatError Seen} {element : Element} {name : String}
    (hbind : ∀ seen, bind seen ≠ .error .outOfFuel) (hspells : element.Spells op [.keyword name])
    {rest : Input FormatToken Seen} (hrest : input.tokens = .keyword name :: rest.tokens) :
    Sat (do bindSeen bind; return element) rest (Took (Element.Spells op) input) IsError := by
  apply (sat_bindSeen hbind rest).andThen
  intro _ rest' hrest'
  apply Sat.pure
  exact ⟨[.keyword name], by simp, by rw [hrest, hrest']; rfl, hspells⟩

theorem sat_parseDirective (isTopLevel : Bool) {n : ℕ} (hself : Nests op self n)
    (hlength : input.tokens.length < n + 1) {name : String}
    (hhead : input.tokens.head? = some (.keyword name)) :
    Sat (parseDirective op self isTopLevel name) input (Took (Element.Spells op) input)
      IsError := by
  unfold parseDirective
  apply (sat_consumeToken input).andThen
  intro _ rest hrest
  have htokens : input.tokens = .keyword name :: rest.tokens := by
    rw [hrest]
    exact (List.cons_head?_tail hhead).symm
  have hlt : rest.tokens.length < n := by
    rw [htokens, List.length_cons] at hlength
    omega
  have hlong : ∀ (element : Element) (rest' : Input FormatToken Seen),
      (∃ text, rest.tokens = text ++ rest'.tokens ∧ element.Spells op (.keyword name :: text)) →
      Took (Element.Spells op) input element rest' := by
    rintro element rest' ⟨text, htext, hspells⟩
    exact ⟨.keyword name :: text, by simp, by rw [htokens, htext]; rfl, hspells⟩
  split
  · exact sat_keyword (bindAttrDict_ne_outOfFuel isTopLevel) (by exact rfl) htokens
  · exact sat_keyword (bindAttrDict_ne_outOfFuel isTopLevel) (by exact rfl) htokens
  · exact (sat_parseFunctionalTypeDirective isTopLevel hself hlt).mono hlong
  · exact sat_keyword (bindOperands_ne_outOfFuel isTopLevel) (by exact rfl) htokens
  · exact sat_keyword (bindResults_ne_outOfFuel isTopLevel) (by exact rfl) htokens
  · exact sat_keyword (bindSuccessors_ne_outOfFuel isTopLevel) (by exact rfl) htokens
  · exact (sat_parseTypeDirective isTopLevel hself hlt).mono hlong
  · exact (sat_parseSymbolDirective op rest).mono hlong
  · apply Sat.throw
    simp [IsError]

end Nested

section Optional

variable {md : Metadata} {op : OperationOp} {self : Bool → FormatParser Item}
variable {input : Input FormatToken Seen}

theorem sat_parseAnchor (group : Group) (input : Input FormatToken Seen) :
    Sat (parseAnchor group) input (fun isAnchor rest ↦
      if isAnchor then group.anchorIdx = none ∧ input.tokens = .caret :: rest.tokens
      else rest = input) IsError := by
  unfold parseAnchor
  apply Sat.bind
  apply Sat.get
  split_ifs with hcaret hanchor
  · apply Sat.bind
    apply Sat.throw
    simp [IsError]
  · apply (sat_consumeToken input).andThen
    intro _ rest hrest
    apply Sat.pure
    rw [if_pos rfl, hrest]
    exact ⟨by simpa using hanchor, (List.cons_head?_tail hcaret).symm⟩
  · exact Sat.pure rfl

/-- The group after an element has been added to it. -/
def Group.push (group : Group) (child : Element) (isAnchor : Bool) : Group where
  elements := group.elements ++ [child]
  seenVariables := group.seenVariables ++ child.operand?.toList
  anchorIdx := if isAnchor then some group.elements.length else group.anchorIdx

theorem sat_parseOptionalChildElement {n : ℕ} (hself : Nests op self n)
    (hlength : input.tokens.length < n) (group : Group) :
    Sat (parseOptionalChildElement md op self group) input
      (fun group' rest ↦ ∃ child isAnchor text, text ≠ [] ∧ child.Spells op text ∧
        group' = group.push child isAnchor ∧
        if isAnchor then group.anchorIdx = none ∧ input.tokens = text ++ .caret :: rest.tokens
        else input.tokens = text ++ rest.tokens) IsError := by
  unfold parseOptionalChildElement
  apply (hself true input hlength).andThen
  rintro item rest₁ ⟨text, hne, htokens, hitem⟩
  apply (sat_parseAnchor group rest₁).andThen
  intro isAnchor rest₂ hanchor
  cases item with
  | optional elements anchor =>
    apply Sat.throw
    simp [IsError]
  | element child =>
    apply (sat_lift (checkChild_ne_outOfFuel md op isAnchor child) rest₂).andThen
    rintro _ _ ⟨-, rfl⟩
    apply Sat.pure
    refine ⟨child, isAnchor, text, hne, hitem, rfl, ?_⟩
    cases isAnchor with
    | true => exact ⟨hanchor.1, by rw [htokens, hanchor.2]⟩
    | false =>
      have hrest : _ = rest₁ := hanchor
      exact hrest ▸ htokens

/-- The elements that are added to a group are spelled, and its operands are kept. -/
structure Extends (op : OperationOp) (group group' : Group) (text : List FormatToken) : Prop where
  elements : ∃ elements, group'.elements = group.elements ++ elements ∧ elements ≠ [] ∧
    SpellsChildren op group.elements.length group.anchorIdx group'.anchorIdx elements text ∧
    group'.seenVariables = group.seenVariables ++ elements.filterMap Element.operand?

theorem Extends.one {group : Group} {child : Element} {isAnchor : Bool} {text : List FormatToken}
    (hchild : child.Spells op text) (hanchor : isAnchor → group.anchorIdx = none) :
    Extends op group (group.push child isAnchor)
      (text ++ if isAnchor then [.caret] else []) := by
  refine ⟨[child], rfl, by simp, ?_, ?_⟩
  · cases isAnchor with
    | true =>
      simp only [Group.push, if_true, hanchor rfl]
      exact .anchor hchild (.nil _ _)
    | false => exact .cons hchild (.nil _ _)
  · cases hoperand : child.operand? <;> simp [Group.push, hoperand]

theorem Extends.push {group group' : Group} {child : Element} {isAnchor : Bool}
    {text rest : List FormatToken} (hchild : child.Spells op text)
    (hanchor : isAnchor → group.anchorIdx = none)
    (h : Extends op (group.push child isAnchor) group' rest) :
    Extends op group group' (text ++ if isAnchor then .caret :: rest else rest) := by
  obtain ⟨elements, helements, -, hspells, hseen⟩ := h.elements
  have hlength : (group.push child isAnchor).elements.length = group.elements.length + 1 := by
    simp [Group.push]
  rw [hlength] at hspells
  refine ⟨child :: elements, by simp [helements, Group.push], by simp, ?_, ?_⟩
  · cases isAnchor with
    | true =>
      rw [if_pos rfl, hanchor rfl]
      exact .anchor hchild hspells
    | false => exact .cons hchild hspells
  · rw [hseen]
    cases hoperand : child.operand? <;> simp [Group.push, hoperand]

theorem sat_parseOptionalElements {n : ℕ} (hself : Nests op self n) {fuel : ℕ}
    (hlength : input.tokens.length < n) (hfuel : input.tokens.length < fuel) (group : Group) :
    Sat (parseOptionalElements md op self fuel group) input
      (fun group' rest ↦ rest.tokens.head? = some .rparen ∧
        ∃ text, input.tokens = text ++ rest.tokens ∧ Extends op group group' text) IsError := by
  induction fuel generalizing input group with
  | zero => omega
  | succ fuel ih =>
    unfold parseOptionalElements
    apply (sat_parseOptionalChildElement hself hlength group).andThen
    rintro group₁ rest₁ ⟨child, isAnchor, text, hne, hchild, rfl, htokens⟩
    have hanchor : isAnchor = true → group.anchorIdx = none := by
      rintro rfl
      exact htokens.1
    have htext : input.tokens = text ++ (if isAnchor then [.caret] else []) ++ rest₁.tokens := by
      cases isAnchor with
      | true => simpa using htokens.2
      | false => simpa using htokens
    have hlt : rest₁.tokens.length < input.tokens.length := by
      have := List.length_pos_iff.mpr hne
      rw [htext]
      simp only [List.length_append]
      omega
    apply Sat.bind
    apply Sat.get
    split_ifs with hparen
    · apply Sat.pure
      exact ⟨hparen, _, htext, Extends.one hchild hanchor⟩
    · apply (ih (by omega) (by omega) _).mono
      rintro group₂ rest₂ ⟨hparen₂, text₂, htext₂, hextends⟩
      refine ⟨hparen₂, _, ?_, hextends.push hchild hanchor⟩
      cases isAnchor <;> simp [htext, htext₂]

theorem checkGroup_ok {group : Group} {item : Item} (h : checkGroup group = .ok item) :
    ∃ anchor, group.anchorIdx = some anchor ∧ item = .optional group.elements anchor := by
  unfold checkGroup err at h
  split at h
  · cases h
  · rename_i anchor hanchor
    split_ifs at h
    exact ⟨anchor, hanchor, (Except.ok.inj h).symm⟩

theorem sat_parseOptional {n : ℕ} (hself : Nests op self n)
    (hlength : input.tokens.length < n + 1) (isTopLevel : Bool)
    (hhead : input.tokens.head? = some .lparen) :
    Sat (parseOptional md op self n isTopLevel) input (Took (Item.Spells op) input) IsError := by
  unfold parseOptional
  split_ifs
  · apply Sat.bind
    apply Sat.throw
    simp [IsError]
  · apply (sat_consumeToken input).andThen
    intro _ rest₁ hrest₁
    have htokens : input.tokens = .lparen :: rest₁.tokens := by
      rw [hrest₁]
      exact (List.cons_head?_tail hhead).symm
    have hlt : rest₁.tokens.length < n := by
      rw [htokens, List.length_cons] at hlength
      omega
    apply (sat_parseOptionalElements hself hlt hlt ⟨[], [], none⟩).andThen
    rintro group rest₂ ⟨hparen, body, hbody, hextends⟩
    apply (sat_consumeToken rest₂).andThen
    intro _ rest₃ hrest₃
    have hrparen : rest₂.tokens = .rparen :: rest₃.tokens := by
      rw [hrest₃]
      exact (List.cons_head?_tail hparen).symm
    apply (sat_parseToken _ _ rest₃).andThen
    intro _ rest₄ hrest₄
    apply (sat_lift (checkGroup_ne_outOfFuel group) rest₄).mono
    rintro item _ ⟨hitem, rfl⟩
    obtain ⟨anchor, hanchor, rfl⟩ := checkGroup_ok hitem
    obtain ⟨elements, helements, hne, hspells, -⟩ := hextends.elements
    rw [List.nil_append] at helements
    refine ⟨.lparen :: (body ++ [.rparen, .question]), by simp, ?_, ?_, body, ?_, rfl⟩
    · simp [htokens, hbody, hrparen, hrest₄]
    · rwa [helements]
    · rwa [helements, ← hanchor]

end Optional

theorem nests_parseElement (md : Metadata) (op : OperationOp) (fuel : ℕ) :
    Nests op (parseElement md op fuel) fuel := by
  induction fuel with
  | zero => exact fun _ _ h ↦ absurd h (Nat.not_lt_zero _)
  | succ fuel ih =>
    intro isTopLevel input hlength
    unfold parseElement
    apply Sat.bind
    apply Sat.get
    split
    · rename_i name hhead
      apply Sat.map
      exact sat_parseDirective isTopLevel ih hlength hhead
    · rename_i text hhead
      apply Sat.map
      exact sat_parseLiteral hhead
    · rename_i hhead
      exact sat_parseOptional ih hlength isTopLevel hhead
    · rename_i name hhead
      apply Sat.map
      apply (sat_parseVariable op isTopLevel input).mono
      rintro var rest ⟨token, htoken, hvar⟩
      rw [htoken, List.head?_cons, Option.some.injEq] at hhead
      subst hhead
      exact ⟨[.var name], by simp, htoken, name, hvar, rfl⟩
    · apply Sat.throw
      simp [IsError]

theorem sat_parseElements (md : Metadata) (op : OperationOp) {fuel : ℕ}
    {input : Input FormatToken Seen} (hfuel : input.tokens.length + 1 < fuel) :
    Sat (parseElements md op fuel) input
      (fun items _ ↦ SpellsItems op items input.tokens) IsError := by
  induction fuel generalizing input with
  | zero => omega
  | succ fuel ih =>
    unfold parseElements
    apply Sat.bind
    apply Sat.get
    split_ifs with hempty
    · apply Sat.pure
      exact List.isEmpty_iff.mp hempty
    · apply (nests_parseElement md op fuel true input (by omega)).andThen
      rintro item rest ⟨text, hne, htokens, hitem⟩
      have hpos := List.length_pos_iff.mpr hne
      have hlength : input.tokens.length = text.length + rest.tokens.length := by
        rw [htokens, List.length_append]
      apply (ih (by omega)).andThen
      intro items _ hitems
      apply Sat.pure
      exact ⟨text, rest.tokens, hitem, hitems, htokens⟩

/-! ## What reading an element means -/

section Reading

variable (md : Metadata) (op : OperationOp)

/-- The argument `operands` is read like the directive of that name. -/
def TypeArg.read : TypeArg → Seen → Except FormatError Seen
  | .operands, seen => bindOperands false seen >>= fun seen ↦ bindTypes op seen .operands
  | arg, seen => bindTypes op seen arg

def variableName : Variable → String
  | .attr i => ((op.opAttrs[i]?).map (·.1)).getD ""
  | .operand i => operandName op i
  | .result i => resultName op i
  | .successor i => ((op.opSuccs.successors[i]?).map (·.name)).getD ""
  | .region i => ((op.opRegions.regions[i]?).map (·.name)).getD ""

def Element.read : Element → Seen → Except FormatError Seen
  | .literal text, seen => if isValidLiteral text then .ok seen else err "expected valid literal"
  | .var v, seen => bindVariable op true (variableName op v) seen v
  | .attrDict _, seen => bindAttrDict true seen
  | .functionalType inputs outputs, seen => inputs.read op seen >>= outputs.read op
  | .operands, seen => bindOperands true seen
  | .results, seen => bindResults true seen
  | .successors, seen => bindSuccessors true seen
  | .type operand, seen => operand.read op seen
  | .symbol _, seen => .ok seen

/-- The elements of a group from index `k` on. -/
def readChildren (anchor : Option ℕ) : ℕ → List Element → Seen → Except FormatError Seen
  | _, [], seen => .ok seen
  | k, element :: elements, seen => do
    let seen ← element.read op seen
    checkChild md op (anchor == some k) element
    readChildren anchor (k + 1) elements seen

def groupOf (elements : List Element) (anchor : ℕ) : Group :=
  ⟨elements, elements.filterMap Element.operand?, some anchor⟩

def Item.read : Item → Seen → Except FormatError Seen
  | .element e, seen => e.read op seen
  | .optional elements anchor, seen => do
    let seen ← readChildren md op (some anchor) 0 elements seen
    let _ ← checkGroup (groupOf elements anchor)
    return seen

def readItems : List Item → Seen → Except FormatError Seen
  | [], seen => .ok seen
  | item :: items, seen => item.read md op seen >>= readItems items

end Reading

/-! ## The parser reads what is spelled -/

theorem reads_consumeToken (token : FormatToken) (rest : List FormatToken) :
    Reads consumeToken [token] () Except.ok rest := fun _ ↦ rfl

theorem reads_parseToken (kind : FormatToken) (message : String) (rest : List FormatToken) :
    Reads (parseToken kind message) [kind] () Except.ok rest := by
  intro seen
  simp [parseToken, StateT.run, Except.map]

theorem reads_bindSeen (bind : Seen → Except FormatError Seen) (rest : List FormatToken) :
    Reads (bindSeen bind) [] () bind rest := fun _ ↦ rfl

theorem name_of_findIdx? {α : Type} {values : List α} {name : α → String} {text : String} {i : ℕ}
    (h : values.findIdx? (fun value ↦ name value == text) = some i) :
    ((values[i]?).map name).getD "" = text := by
  obtain ⟨hi, hname, -⟩ := List.findIdx?_eq_some_iff_getElem.mp h
  rw [List.getElem?_eq_getElem hi, Option.map_some, Option.getD_some]
  exact eq_of_beq hname

theorem variableName_of_findVariable {op : OperationOp} {name : String} {var : Variable}
    (h : findVariable op name = some var) : variableName op var = name := by
  simp only [findVariable, Option.or_eq_some_iff, Option.map_eq_some_iff] at h
  rcases h with ⟨i, hi, rfl⟩ | ⟨-, ⟨i, hi, rfl⟩ | ⟨-, ⟨i, hi, rfl⟩ | ⟨-, ⟨i, hi, rfl⟩ |
    ⟨-, i, hi, rfl⟩⟩⟩⟩ <;> exact name_of_findIdx? hi

theorem reads_parseVariable {op : OperationOp} (isTopLevel : Bool) {token : FormatToken}
    {name : String} {var : Variable} (htoken : FormatToken.dropFront token = some name)
    (hvar : findVariable op name = some var) (rest : List FormatToken) :
    Reads (parseVariable op isTopLevel) [token] var
      (fun seen ↦ bindVariable op isTopLevel name seen var) rest := by
  have hread : Reads (do
      bindSeen fun seen ↦ bindVariable op isTopLevel name seen var
      return var) [] var (fun seen ↦ bindVariable op isTopLevel name seen var) rest :=
    Reads.bind_pure (reads_bindSeen _ rest) (Reads.pure _ _)
  intro seen
  rw [← hread seen]
  have hhead : ([token] ++ rest).head?.bind FormatToken.dropFront = some name := htoken
  unfold parseVariable
  rw [StateT.run_bind, StateT.run_get]
  simp only [pure_bind, hhead, hvar]
  rfl

theorem reads_lift {α : Type} (x : Except FormatError α) (a : α) (hx : ∀ a', x = .ok a' → a' = a)
    (rest : List FormatToken) :
    Reads (StateT.lift x : FormatParser α) [] a (fun seen ↦ x.map fun _ ↦ seen) rest := by
  intro seen
  cases x with
  | ok a' =>
    obtain rfl := hx a' rfl
    rfl
  | error e => rfl

/-- The element that is read as the argument of a type directive. -/
def TypeArg.element : TypeArg → Element
  | .operand i => .var (.operand i)
  | .result i => .var (.result i)
  | .operands => .operands
  | .results => .results

section Nested

variable {md : Metadata} {op : OperationOp} {text : List FormatToken}

theorem reads_typeArg {arg : TypeArg} (harg : arg.Spells op text) (fuel : ℕ)
    (rest : List FormatToken) :
    Reads (parseElement md op (fuel + 1) false) text (.element arg.element)
      (if arg = .operands then bindOperands false else Except.ok) rest := by
  cases arg with
  | operand i =>
    obtain ⟨name, hname, rfl⟩ := harg
    have hread := @reads_parseVariable op false (.var name) name _ rfl hname rest
    exact hread.map fun var ↦ Item.element (.var var)
  | result i =>
    obtain ⟨name, hname, rfl⟩ := harg
    have hread := @reads_parseVariable op false (.var name) name _ rfl hname rest
    exact hread.map fun var ↦ Item.element (.var var)
  | operands =>
    obtain rfl := harg
    have hread : Reads (parseDirective op (parseElement md op fuel) false "operands")
        [.keyword "operands"] .operands (bindOperands false) rest :=
      Reads.bind_cons (reads_consumeToken _ _)
        (Reads.bind_pure (reads_bindSeen _ rest) (Reads.pure _ _))
    exact hread.map Item.element
  | results =>
    obtain rfl := harg
    have hread : Reads (parseDirective op (parseElement md op fuel) false "results")
        [.keyword "results"] .results (bindResults false) rest :=
      Reads.bind_cons (reads_consumeToken _ _)
        (Reads.bind_pure (reads_bindSeen _ rest) (Reads.pure _ _))
    exact hread.map Item.element

theorem typeOperand_element (arg : TypeArg) : typeOperand (.element arg.element) = .ok arg := by
  cases arg <;> rfl

theorem reads_parseTypeDirectiveOperand {arg : TypeArg} (harg : arg.Spells op text) (fuel : ℕ)
    (rest : List FormatToken) :
    Reads (parseTypeDirectiveOperand op (parseElement md op (fuel + 1))) text arg (arg.read op)
      rest := by
  have hbind : Reads (do
      bindSeen fun seen ↦ bindTypes op seen arg
      return arg) [] arg (fun seen ↦ bindTypes op seen arg) rest :=
    Reads.bind_pure (reads_bindSeen _ rest) (Reads.pure _ _)
  have hlift : Reads (do
      let arg' ← StateT.lift (typeOperand (.element arg.element))
      bindSeen fun seen ↦ bindTypes op seen arg'
      return arg') [] arg (fun seen ↦ bindTypes op seen arg) rest := by
    rw [typeOperand_element]
    exact hbind
  have hread : Reads (parseTypeDirectiveOperand op (parseElement md op (fuel + 1))) (text ++ [])
      arg _ rest := Reads.bind (reads_typeArg harg fuel _) hlift
  rw [List.append_nil] at hread
  apply hread.congr
  intro seen
  cases arg <;> rfl

/-- Parentheses around what is read. -/
theorem reads_close {message : String} {element : Element} (rest : List FormatToken) :
    Reads (do
      parseToken .rparen message
      return element) [.rparen] element Except.ok rest :=
  Reads.bind_cons (reads_parseToken _ _ _) (Reads.pure _ _)

theorem reads_parseTypeDirective {arg : TypeArg} (harg : arg.Spells op text) (fuel : ℕ)
    (rest : List FormatToken) :
    Reads (parseTypeDirective op (parseElement md op (fuel + 1)) true)
      (.lparen :: (text ++ [.rparen])) (.type arg) (arg.read op) rest := by
  have hread : Reads (parseTypeDirective op (parseElement md op (fuel + 1)) true)
      (.lparen :: (text ++ [.rparen])) (.type arg) _ rest :=
    Reads.bind_cons (reads_parseToken _ _ _)
      (Reads.bind (reads_parseTypeDirectiveOperand harg fuel _) (reads_close rest))
  apply hread.congr
  intro seen
  cases arg.read op seen <;> rfl

theorem reads_parseFunctionalTypeDirective {inputs outputs : TypeArg}
    {first second : List FormatToken} (hinputs : inputs.Spells op first)
    (houtputs : outputs.Spells op second) (fuel : ℕ) (rest : List FormatToken) :
    Reads (parseFunctionalTypeDirective op (parseElement md op (fuel + 1)) true)
      (.lparen :: (first ++ .comma :: (second ++ [.rparen]))) (.functionalType inputs outputs)
      (fun seen ↦ inputs.read op seen >>= outputs.read op) rest := by
  have hread : Reads (parseFunctionalTypeDirective op (parseElement md op (fuel + 1)) true)
      (.lparen :: (first ++ .comma :: (second ++ [.rparen]))) (.functionalType inputs outputs)
      _ rest :=
    Reads.bind_cons (reads_parseToken _ _ _)
      (Reads.bind (reads_parseTypeDirectiveOperand hinputs fuel _)
        (Reads.bind_cons (reads_parseToken _ _ _)
          (Reads.bind (reads_parseTypeDirectiveOperand houtputs fuel _) (reads_close rest))))
  apply hread.congr
  intro seen
  cases inputs.read op seen with
  | ok seen' =>
    change outputs.read op seen' >>= Except.ok = outputs.read op seen'
    cases outputs.read op seen' <;> rfl
  | error e => rfl

theorem reads_parseSymbolDirective {i : ℕ} {token : FormatToken}
    (htoken : (FormatToken.dropFront token).bind (findVariable op) = some (.attr i))
    (rest : List FormatToken) :
    Reads (parseSymbolDirective op) [.lparen, token, .rparen] (.symbol i) Except.ok rest := by
  obtain ⟨name, hname, hvar⟩ := Option.bind_eq_some_iff.mp htoken
  exact Reads.bind_cons (reads_parseToken _ _ _)
    (Reads.bind_cons (reads_parseVariable false hname hvar _)
      (Reads.bind_cons (reads_parseToken _ _ _) (Reads.pure _ _)))

/-- A directive that is a keyword by itself. -/
theorem reads_keyword {bind : Seen → Except FormatError Seen} {element : Element} {name : String}
    (rest : List FormatToken) :
    Reads (do
      consumeToken
      bindSeen bind
      return element) [.keyword name] element bind rest :=
  Reads.bind_cons (reads_consumeToken _ _)
    (Reads.bind_pure (reads_bindSeen _ rest) (Reads.pure _ _))

theorem reads_element {element : Element} (h : element.Spells op text) (fuel : ℕ)
    (rest : List FormatToken) :
    Reads (parseElement md op (fuel + 2) true) text (.element element) (element.read op) rest := by
  cases element with
  | literal value =>
    obtain rfl := h
    have hread : Reads (parseLiteral value) [.literal value] (.literal value)
        ((Element.literal value).read op) rest := by
      apply Reads.bind_cons (reads_consumeToken _ _)
      intro seen
      simp only [Element.read]
      split_ifs <;> rfl
    exact hread.map Item.element
  | var v =>
    obtain ⟨name, hname, rfl⟩ := h
    have hread := @reads_parseVariable op true (.var name) name _ rfl hname rest
    apply (hread.map fun var ↦ Item.element (.var var)).congr
    intro seen
    rw [Element.read, variableName_of_findVariable hname]
  | attrDict withKeyword =>
    obtain rfl := h
    cases withKeyword with
    | true => exact (reads_keyword rest).map Item.element
    | false => exact (reads_keyword rest).map Item.element
  | functionalType inputs outputs =>
    obtain ⟨first, second, hinputs, houtputs, rfl⟩ := h
    have hread : Reads (parseDirective op (parseElement md op (fuel + 1)) true "functional-type")
        _ _ _ rest :=
      Reads.bind_cons (reads_consumeToken (.keyword "functional-type") _)
        (reads_parseFunctionalTypeDirective hinputs houtputs fuel rest)
    exact hread.map Item.element
  | operands =>
    obtain rfl := h
    exact (reads_keyword rest).map Item.element
  | results =>
    obtain rfl := h
    have hread : Reads (parseDirective op (parseElement md op (fuel + 1)) true "results")
        [.keyword "results"] .results (bindResults true) rest := reads_keyword rest
    exact hread.map Item.element
  | successors =>
    obtain rfl := h
    exact (reads_keyword rest).map Item.element
  | type operand =>
    obtain ⟨arg, harg, rfl⟩ := h
    have hread : Reads (parseDirective op (parseElement md op (fuel + 1)) true "type") _ _ _ rest :=
      Reads.bind_cons (reads_consumeToken (.keyword "type") _)
        (reads_parseTypeDirective harg fuel rest)
    exact hread.map Item.element
  | symbol i =>
    obtain ⟨token, htoken, rfl⟩ := h
    have hread : Reads (parseDirective op (parseElement md op (fuel + 1)) true "symbol") _ _ _
        rest :=
      Reads.bind_cons (reads_consumeToken (.keyword "symbol") _)
        (reads_parseSymbolDirective htoken rest)
    exact hread.map Item.element

end Nested

section Optional

variable {md : Metadata} {op : OperationOp} {text : List FormatToken}

/-- No element starts with a caret or a closing parenthesis. -/
theorem Element.Spells.head {element : Element} (h : element.Spells op text)
    (rest : List FormatToken) : (text ++ rest).head? ≠ some .caret ∧
      (text ++ rest).head? ≠ some .rparen := by
  cases element with
  | literal value =>
    obtain rfl := h
    simp
  | var v =>
    obtain ⟨name, -, rfl⟩ := h
    simp
  | attrDict withKeyword =>
    obtain rfl := h
    simp
  | functionalType inputs outputs =>
    obtain ⟨first, second, -, -, rfl⟩ := h
    simp
  | operands =>
    obtain rfl := h
    simp
  | results =>
    obtain rfl := h
    simp
  | successors =>
    obtain rfl := h
    simp
  | type operand =>
    obtain ⟨arg, -, rfl⟩ := h
    simp
  | symbol i =>
    obtain ⟨token, -, rfl⟩ := h
    simp

theorem SpellsChildren.head {k : ℕ} {anchor anchor' : Option ℕ} {elements : List Element}
    (h : SpellsChildren op k anchor anchor' elements text) {rest : List FormatToken}
    (hrest : rest.head? = some .rparen) :
    (text ++ rest).head? ≠ some .caret ∧
      ((text ++ rest).head? = some .rparen ↔ elements = []) := by
  cases h with
  | nil => simp [hrest]
  | cons helement _ =>
    have hhead := helement.head
    simp only [List.append_assoc]
    exact ⟨(hhead _).1, iff_of_false (hhead _).2 (List.cons_ne_nil _ _)⟩
  | anchor helement _ =>
    have hhead := helement.head
    simp only [List.append_assoc]
    exact ⟨(hhead _).1, iff_of_false (hhead _).2 (List.cons_ne_nil _ _)⟩

/-- An anchor that is found is kept, and otherwise it is found later. -/
theorem SpellsChildren.anchor_eq {k : ℕ} {anchor anchor' : Option ℕ} {elements : List Element}
    (h : SpellsChildren op k anchor anchor' elements text) :
    anchor' = anchor ∨ anchor = none ∧ ∃ j, k ≤ j ∧ anchor' = some j := by
  induction h with
  | nil => exact .inl rfl
  | cons _ _ ih =>
    rcases ih with ih | ⟨hnone, j, hj, hanchor⟩
    · exact .inl ih
    · exact .inr ⟨hnone, j, by omega, hanchor⟩
  | @anchor k anchor' _ _ _ _ _ _ ih =>
    rcases ih with ih | ⟨hnone, -⟩
    · exact .inr ⟨rfl, k, le_rfl, ih⟩
    · cases hnone

theorem SpellsChildren.nil_eq {k : ℕ} {anchor anchor' : Option ℕ}
    (h : SpellsChildren op k anchor anchor' [] text) : anchor' = anchor ∧ text = [] := by
  generalize hnil : ([] : List Element) = elements at h
  cases h with
  | nil => exact ⟨rfl, rfl⟩
  | cons => cases hnil
  | anchor => cases hnil

theorem reads_parseAnchor_true {group : Group} (hanchor : group.anchorIdx = none)
    (rest : List FormatToken) : Reads (parseAnchor group) [.caret] true Except.ok rest := by
  intro seen
  unfold parseAnchor
  simp only [hanchor, Option.isSome_none, Bool.false_eq_true, if_false]
  rfl

theorem reads_parseAnchor_false {group : Group} {rest : List FormatToken}
    (hrest : rest.head? ≠ some .caret) : Reads (parseAnchor group) [] false Except.ok rest := by
  intro seen
  unfold parseAnchor
  rw [StateT.run_bind, StateT.run_get]
  simp only [pure_bind, List.nil_append, if_neg hrest]
  rfl

/-- What reading an element of a group means. -/
def readChild (md : Metadata) (op : OperationOp) (isAnchor : Bool) (element : Element)
    (seen : Seen) : Except FormatError Seen := do
  let seen ← element.read op seen
  checkChild md op isAnchor element
  return seen

theorem readChildren_cons (anchor : Option ℕ) (k : ℕ) (element : Element)
    (elements : List Element) (seen : Seen) :
    readChildren md op anchor k (element :: elements) seen =
      readChild md op (anchor == some k) element seen >>=
        readChildren md op anchor (k + 1) elements := by
  rw [readChildren, readChild]
  cases element.read op seen with
  | ok seen' => cases checkChild md op (anchor == some k) element <;> rfl
  | error e => rfl

theorem reads_parseOptionalChildElement {element : Element} (helement : element.Spells op text)
    (isAnchor : Bool) {group : Group} (hanchor : isAnchor → group.anchorIdx = none) (fuel : ℕ)
    {rest : List FormatToken} (hrest : isAnchor = false → rest.head? ≠ some .caret) :
    Reads (parseOptionalChildElement md op (parseElement md op (fuel + 2)) group)
      (text ++ if isAnchor then [.caret] else []) (group.push element isAnchor)
      (readChild md op isAnchor element) rest := by
  have hcheck : Reads (do
      StateT.lift (checkChild md op isAnchor element)
      return group.push element isAnchor) [] (group.push element isAnchor)
      (fun seen ↦ (checkChild md op isAnchor element).map fun _ ↦ seen) rest :=
    Reads.bind_pure (reads_lift _ () (fun _ _ ↦ rfl) _) (Reads.pure _ _)
  have hcaret : Reads (parseAnchor group) (if isAnchor then [.caret] else []) isAnchor Except.ok
      rest := by
    cases isAnchor with
    | true => exact reads_parseAnchor_true (hanchor rfl) rest
    | false => exact reads_parseAnchor_false (hrest rfl)
  have htail : Reads (do
      let isAnchor' ← parseAnchor group
      StateT.lift (checkChild md op isAnchor' element)
      return group.push element isAnchor') ((if isAnchor then [.caret] else []) ++ [])
      (group.push element isAnchor) _ rest := Reads.bind hcaret hcheck
  rw [List.append_nil] at htail
  have hread : Reads (parseOptionalChildElement md op (parseElement md op (fuel + 2)) group)
      (text ++ if isAnchor then [.caret] else []) (group.push element isAnchor) _ rest :=
    Reads.bind (reads_element helement fuel _) htail
  apply hread.congr
  intro seen
  rw [readChild]
  cases element.read op seen with
  | ok seen' =>
    cases hchild : checkChild md op isAnchor element <;> simp [hchild, Except.map, bind, Except.bind]
    rfl
  | error e => rfl

/-- The group after the other elements have been added to it. -/
def Group.append (group : Group) (elements : List Element) (anchorIdx : Option ℕ) : Group where
  elements := group.elements ++ elements
  seenVariables := group.seenVariables ++ elements.filterMap Element.operand?
  anchorIdx := anchorIdx

theorem Group.push_append (group : Group) (element : Element) (isAnchor : Bool)
    (elements : List Element) (anchorIdx : Option ℕ) :
    (group.push element isAnchor).append elements anchorIdx =
      group.append (element :: elements) anchorIdx := by
  cases hoperand : element.operand? <;> simp [Group.append, Group.push, hoperand]

/-- One round of the loop over the elements of a group. -/
theorem reads_parseOptionalElements_succ (md : Metadata) {element : Element} {elements : List Element}
    {first second : List FormatToken} (helement : element.Spells op first) {group : Group} {k : ℕ}
    (hk : group.elements.length = k) {isAnchor : Bool} {anchor' : Option ℕ}
    (hindex : (anchor' == some k) = isAnchor)
    (hspells : SpellsChildren op (k + 1) (if isAnchor then some k else group.anchorIdx) anchor'
      elements second) (hanchor : isAnchor → group.anchorIdx = none) (fuel n : ℕ)
    {rest : List FormatToken} (hrest : rest.head? = some .rparen)
    (hmore : elements ≠ [] →
      Reads (parseOptionalElements md op (parseElement md op (fuel + 2)) n
        (group.push element isAnchor)) second
        ((group.push element isAnchor).append elements anchor')
        (readChildren md op anchor' (k + 1) elements) rest) :
    Reads (parseOptionalElements md op (parseElement md op (fuel + 2)) (n + 1) group)
      ((first ++ if isAnchor then [.caret] else []) ++ second)
      (group.append (element :: elements) anchor')
      (readChildren md op anchor' k (element :: elements)) rest := by
  have hhead := hspells.head hrest
  have hloop : Reads (do
      if (← get).tokens.head? = some .rparen then return group.push element isAnchor
      else
        parseOptionalElements md op (parseElement md op (fuel + 2)) n
          (group.push element isAnchor)) second (group.append (element :: elements) anchor')
      (readChildren md op anchor' (k + 1) elements) rest := by
    intro seen
    rw [StateT.run_bind, StateT.run_get]
    simp only [pure_bind, hhead.2]
    by_cases hnil : elements = []
    · subst hnil
      obtain ⟨hanchor', hsecond⟩ := hspells.nil_eq
      rw [← hk] at hanchor'
      change anchor' = (group.push element isAnchor).anchorIdx at hanchor'
      rw [if_pos rfl, hsecond, hanchor', ← Group.push_append group element isAnchor]
      simp only [Group.append, List.append_nil, List.filterMap_nil]
      rfl
    · rw [if_neg hnil, hmore hnil seen, Group.push_append]
  have hread : Reads (parseOptionalElements md op (parseElement md op (fuel + 2)) (n + 1) group)
      ((first ++ if isAnchor then [.caret] else []) ++ second)
      (group.append (element :: elements) anchor') _ rest :=
    Reads.bind (reads_parseOptionalChildElement helement isAnchor hanchor fuel
      (fun _ ↦ hhead.1)) hloop
  apply hread.congr
  intro seen
  rw [readChildren_cons, hindex]

/-- The loop over the elements of a group. -/
theorem reads_parseOptionalElements (md : Metadata) {k : ℕ} {anchor anchor' : Option ℕ} {elements : List Element}
    (h : SpellsChildren op k anchor anchor' elements text) (hne : elements ≠ []) {group : Group}
    (hk : group.elements.length = k) (hanchor : group.anchorIdx = anchor)
    (hindex : ∀ j ∈ anchor, j < k) (fuel : ℕ) {n : ℕ} (hfuel : elements.length ≤ n)
    {rest : List FormatToken} (hrest : rest.head? = some .rparen) :
    Reads (parseOptionalElements md op (parseElement md op (fuel + 2)) n group) text
      (group.append elements anchor') (readChildren md op anchor' k elements) rest := by
  induction h generalizing group n with
  | nil => exact absurd rfl hne
  | @cons k anchor anchor' element elements first second helement helements ih =>
    obtain ⟨n, rfl⟩ : ∃ m, n = m + 1 := Nat.exists_eq_succ_of_ne_zero (by simp at hfuel; omega)
    have hnot : (anchor' == some k) = false := by
      rw [beq_eq_false_iff_ne]
      rintro rfl
      rcases helements.anchor_eq with hsame | ⟨-, j, hj, hlater⟩
      · exact absurd (hindex k hsame.symm) (Nat.lt_irrefl k)
      · cases hlater
        omega
    have hread := reads_parseOptionalElements_succ md helement hk hnot
      (by simpa [hanchor] using helements) (by simp) fuel n hrest
      (fun hne' ↦ ih hne' (by simp [Group.push, hk]) (by simpa [Group.push] using hanchor)
        (fun j hj ↦ Nat.lt_succ_of_lt (hindex j hj)) (by simpa using hfuel))
    simpa using hread
  | @anchor k anchor' element elements first second helement helements ih =>
    obtain ⟨n, rfl⟩ : ∃ m, n = m + 1 := Nat.exists_eq_succ_of_ne_zero (by simp at hfuel; omega)
    have hsome : (anchor' == some k) = true := by
      rcases helements.anchor_eq with hsame | ⟨hnone, -⟩
      · simp [hsame]
      · cases hnone
    have hread := reads_parseOptionalElements_succ md helement hk hsome
      (by simpa using helements) (fun _ ↦ hanchor) fuel n hrest
      (fun hne' ↦ ih hne' (by simp [Group.push, hk]) (by simp [Group.push, hk])
        (by simp) (by simpa using hfuel))
    simpa using hread

theorem SpellsChildren.length_le {k : ℕ} {anchor anchor' : Option ℕ} {elements : List Element}
    (h : SpellsChildren op k anchor anchor' elements text) : elements.length ≤ text.length := by
  have hne : ∀ {element : Element} {first : List FormatToken}, element.Spells op first →
      1 ≤ first.length := by
    intro element first helement
    by_contra hlt
    have hnil : first = [] := List.length_eq_zero_iff.mp (by omega)
    exact (helement.head [.caret]).1 (by simp [hnil])
  induction h with
  | nil => simp
  | cons helement _ ih =>
    have hpos := hne helement
    simp only [List.length_cons, List.length_append]
    omega
  | anchor helement _ ih =>
    simp only [List.length_cons, List.length_append]
    omega

/-- An item is read if there is enough fuel for its tokens. -/
theorem reads_item (md : Metadata) {item : Item} (h : item.Spells op text) {n : ℕ} (hfuel : text.length + 1 ≤ n)
    (rest : List FormatToken) :
    Reads (parseElement md op n true) text item (item.read md op) rest := by
  cases item with
  | element element =>
    have hpos : 1 ≤ text.length := by
      by_contra hlt
      have hnil : text = [] := List.length_eq_zero_iff.mp (by omega)
      exact (Element.Spells.head h [.caret]).1 (by simp [hnil])
    obtain ⟨fuel, rfl⟩ : ∃ fuel, n = fuel + 2 := ⟨n - 2, by omega⟩
    exact reads_element h fuel rest
  | optional elements anchor =>
    obtain ⟨hne, body, hbody, rfl⟩ := h
    have hlength := hbody.length_le
    simp only [List.length_cons, List.length_append, List.length_nil] at hfuel
    obtain ⟨fuel, rfl⟩ : ∃ fuel, n = fuel + 2 + 1 := ⟨n - 3, by omega⟩
    have hchildren : Reads (parseOptionalElements md op (parseElement md op (fuel + 2)) (fuel + 2)
        ⟨[], [], none⟩) body (groupOf elements anchor)
        (readChildren md op (some anchor) 0 elements) (.rparen :: .question :: rest) :=
      reads_parseOptionalElements md hbody hne rfl rfl (by simp) fuel (by omega) rfl
    have hclose : Reads (do
        consumeToken
        parseToken .question "expected '?' after optional group"
        StateT.lift (checkGroup (groupOf elements anchor))) [.rparen, .question]
        (.optional elements anchor)
        (fun seen ↦ (checkGroup (groupOf elements anchor)).map fun _ ↦ seen) rest := by
      refine Reads.bind_cons (reads_consumeToken _ _) (Reads.bind_cons (reads_parseToken _ _ _) ?_)
      apply reads_lift
      intro item hitem
      obtain ⟨anchor', hanchor', rfl⟩ := checkGroup_ok hitem
      cases hanchor'
      rfl
    have hread : Reads (parseOptional md op (parseElement md op (fuel + 2)) (fuel + 2) true)
        (.lparen :: (body ++ [.rparen, .question])) (.optional elements anchor) _ rest :=
      Reads.bind_cons (reads_consumeToken _ _) (Reads.bind hchildren hclose)
    apply hread.congr
    intro seen
    rw [Item.read]
    cases readChildren md op (some anchor) 0 elements seen with
    | ok seen' => cases checkGroup (groupOf elements anchor) <;> rfl
    | error e => rfl

theorem parseElements_spelled (md : Metadata) {items : List Item} (h : SpellsItems op items text) {n : ℕ}
    (hfuel : text.length + 2 ≤ n) (seen : Seen) :
    (parseElements md op n).run ⟨text, seen⟩ =
      (readItems md op items seen).map fun seen ↦ (items, ⟨[], seen⟩) := by
  induction items generalizing text n seen with
  | nil =>
    obtain rfl := h
    obtain ⟨n, rfl⟩ : ∃ m, n = m + 1 := ⟨n - 1, by omega⟩
    rfl
  | cons item items ih =>
    obtain ⟨first, rest, hitem, hitems, rfl⟩ := h
    obtain ⟨n, rfl⟩ : ∃ m, n = m + 1 := ⟨n - 1, by omega⟩
    have hpos : 1 ≤ first.length := by
      cases item with
      | element element =>
        by_contra hlt
        have hnil : first = [] := List.length_eq_zero_iff.mp (by omega)
        exact (Element.Spells.head hitem [.caret]).1 (by simp [hnil])
      | optional elements anchor =>
        obtain ⟨-, body, -, rfl⟩ := hitem
        simp
    rw [List.length_append] at hfuel
    have hread := reads_item md hitem (show first.length + 1 ≤ n by omega) rest seen
    have hempty : (first ++ rest).isEmpty = false := by
      rw [List.isEmpty_eq_false_iff]
      intro hnil
      rw [List.append_eq_nil_iff] at hnil
      simp [hnil.1] at hpos
    rw [parseElements, StateT.run_bind, StateT.run_get]
    simp only [pure_bind, hempty, Bool.false_eq_true, if_false]
    rw [StateT.run_bind, hread, readItems]
    cases item.read md op seen with
    | error e => rfl
    | ok seen' =>
      change (parseElements md op n >>= fun items ↦ pure (item :: items)).run ⟨rest, seen'⟩ = _
      rw [StateT.run_bind, ih hitems (by omega)]
      change _ = (readItems md op items seen').map _
      cases readItems md op items seen' <;> rfl

end Optional

end DeclarativeMlir.Embed.OpFormat

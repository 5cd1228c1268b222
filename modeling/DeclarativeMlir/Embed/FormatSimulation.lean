import DeclarativeMlir.Embed.FormatParsing
import DeclarativeMlir.Embed.LosslessLexing
import DeclarativeMlir.Embed.OpFormatReading

/-!
# The parser on the lexer and the parser on tokens

As long as there is no fault, the parser on top of the lexer does what the parser of a list of
tokens does on the tokens that the lexer gives up to the end or an error.
-/

namespace DeclarativeMlir.Embed.FormatParsing

open Spec CheckedParsing FormatLexer OpFormat

/-! ## Tokens -/

def keywordName : Kind → String
  | .kwAttrDict => "attr-dict"
  | .kwAttrDictWithKeyword => "attr-dict-with-keyword"
  | .kwFunctionalType => "functional-type"
  | .kwOperands => "operands"
  | .kwResults => "results"
  | .kwSuccessors => "successors"
  | .kwType => "type"
  | .kwSymbol => "symbol"
  | .kwDims => "dims"
  | _ => ""

def formatToken (token : Token) : FormatToken :=
  match token.kind with
  | .lParen => .lparen
  | .rParen => .rparen
  | .caret => .caret
  | .comma => .comma
  | .equal => .equal
  | .question => .question
  | .identifier => .identifier (text token.spelling)
  | .literal => .literal (text (token.spelling.drop 1).dropLast)
  | .var => .var (text (token.spelling.drop 1))
  | .eof | .error _ => .error
  | kind => .keyword (keywordName kind)

/-- The tokens from the current one on, up to the end or an error. -/
inductive Views : Token → Ptr → List FormatToken → Prop where
  | eof {token ptr} (hkind : token.kind = .eof) : Views token ptr []
  | error {token ptr} (herror : token.kind.isError = true) : Views token ptr [.error]
  | cons {token ptr next rest tokens} (hkind : token.kind ≠ .eof)
      (herror : token.kind.isError = false) (htakes : Takes token ptr)
      (hlex : lexToken ptr = some (next, rest)) (hnext : Views next rest tokens) :
      Views token ptr (formatToken token :: tokens)

/-! ## Simulation -/

/-- From `s`, where `tokens` are ahead, `p` does what `q` does, or there is a fault. -/
def SimAt {α : Type} (p : FormatParser α) (q : OpFormat.FormatParser α)
    (s : Input UInt8 ParserState) (tokens : List FormatToken) : Prop :=
  Sat p s (fun a s' ↦ ∃ tokens', Views s'.state.curToken s'.tokens tokens' ∧
      q.run ⟨tokens, s.state.seen⟩ = .ok (a, ⟨tokens', s'.state.seen⟩))
    (fun failure ↦ ∀ e, failure = .error e → q.run ⟨tokens, s.state.seen⟩ = .error e)

def Sim {α : Type} (p : FormatParser α) (q : OpFormat.FormatParser α) : Prop :=
  ∀ s tokens, Views s.state.curToken s.tokens tokens → SimAt p q s tokens

section Rules

variable {α β : Type} {p : FormatParser α} {q : OpFormat.FormatParser α}
variable {f : α → FormatParser β} {g : α → OpFormat.FormatParser β}
variable {s : Input UInt8 ParserState} {tokens : List FormatToken}

theorem simAt_pure (hviews : Views s.state.curToken s.tokens tokens) (a : α) :
    SimAt (pure a) (pure a) s tokens :=
  Sat.pure ⟨tokens, hviews, rfl⟩

theorem simAt_bind (hp : SimAt p q s tokens) (hf : ∀ a, Sim (f a) (g a)) :
    SimAt (p >>= f) (q >>= g) s tokens := by
  unfold SimAt Sat at hp ⊢
  rw [StateT.run_bind, StateT.run_bind]
  cases hrun : p.run s with
  | ok result =>
    rw [hrun] at hp
    obtain ⟨tokens', hviews, hq⟩ := hp
    rw [hq]
    exact hf result.1 result.2 tokens' hviews
  | error failure =>
    rw [hrun] at hp
    intro e he
    rw [hp e he]
    rfl

theorem sim_bind (hp : Sim p q) (hf : ∀ a, Sim (f a) (g a)) : Sim (p >>= f) (q >>= g) :=
  fun s tokens hviews ↦ simAt_bind (hp s tokens hviews) hf

theorem sim_map (hp : Sim p q) (f : α → β) : Sim (f <$> p) (f <$> q) := by
  rw [← bind_pure_comp, ← bind_pure_comp]
  exact sim_bind hp fun a s tokens hviews ↦ simAt_pure hviews (f a)

theorem sim_pure (a : α) : Sim (pure a) (pure a) := fun _ _ hviews ↦ simAt_pure hviews a

theorem sim_throw (e : FormatError) :
    Sim (throw (.error e) : FormatParser α) (throw e) := by
  intro s tokens _
  apply Sat.throw
  rintro e' he
  rw [← Failure.error.inj he]
  rfl

theorem sim_emitError (message : String) :
    Sim (emitError message : FormatParser α) (throw (.other message none)) := sim_throw _

theorem sim_lift (x : Except FormatError α) : Sim (lift x) (StateT.lift x) := by
  intro s tokens hviews
  cases x with
  | ok a => exact ⟨tokens, hviews, rfl⟩
  | error e =>
    intro e' he
    rw [← Failure.error.inj he]
    rfl

theorem sim_bindSeen (bind : Seen → Except FormatError Seen) :
    Sim (bindSeen bind) (OpFormat.bindSeen bind) := by
  intro s tokens hviews
  simp only [SimAt, Sat, StateT.run, bindSeen, OpFormat.bindSeen]
  cases hbind : bind s.state.seen with
  | ok seen => exact ⟨tokens, hviews, rfl⟩
  | error e =>
    intro e' he
    rw [← Failure.error.inj he]
    rfl

/-- Both parsers look at the token ahead. -/
theorem sim_look {f : Token → FormatParser β}
    {g : Input FormatToken Seen → OpFormat.FormatParser β}
    (h : ∀ s tokens, Views s.state.curToken s.tokens tokens →
      SimAt (f s.state.curToken) (g ⟨tokens, s.state.seen⟩) s tokens) :
    Sim (curToken >>= f) (get >>= g) := by
  intro s tokens hviews
  have hrun := h s tokens hviews
  unfold SimAt Sat at hrun ⊢
  rw [StateT.run_bind, StateT.run_bind]
  exact hrun

end Rules

theorem consumeToken_run {s : Input UInt8 ParserState} {next : Token} {rest : Ptr}
    (hkind : s.state.curToken.kind ≠ .eof) (herror : s.state.curToken.kind.isError = false)
    (hlex : lexToken s.tokens = some (next, rest)) :
    consumeToken.run s = .ok ((), ⟨rest, { s.state with curToken := next }⟩) := by
  simp [consumeToken, StateT.run, hkind, herror, hlex]

theorem consumeToken_fault {s : Input UInt8 ParserState}
    (h : s.state.curToken.kind = .eof ∨ s.state.curToken.kind.isError = true) :
    consumeToken.run s = .error (.fault .advance) := by
  simp [consumeToken, StateT.run, h]

theorem simAt_of_fault {α : Type} {p : FormatParser α} {q : OpFormat.FormatParser α}
    {s : Input UInt8 ParserState} {tokens : List FormatToken} {fault : Fault}
    (h : p.run s = .error (.fault fault)) : SimAt p q s tokens := by
  unfold SimAt Sat
  rw [h]
  rintro e ⟨⟩

theorem simAt_of_ok {α : Type} {p : FormatParser α} {q : OpFormat.FormatParser α}
    {s s' : Input UInt8 ParserState} {tokens tokens' : List FormatToken} {a : α}
    (hp : p.run s = .ok (a, s')) (hviews : Views s'.state.curToken s'.tokens tokens')
    (hq : q.run ⟨tokens, s.state.seen⟩ = .ok (a, ⟨tokens', s'.state.seen⟩)) :
    SimAt p q s tokens := by
  unfold SimAt Sat
  rw [hp]
  exact ⟨tokens', hviews, hq⟩

theorem sim_consumeToken : Sim consumeToken OpFormat.consumeToken := by
  intro s tokens hviews
  cases hviews with
  | eof hkind => exact simAt_of_fault (consumeToken_fault (.inl hkind))
  | error herror => exact simAt_of_fault (consumeToken_fault (.inr herror))
  | cons hkind herror htakes hlex hnext =>
    exact simAt_of_ok (consumeToken_run hkind herror hlex) hnext rfl

/-- The kinds that `parseToken` is called with. -/
def punctuationToken : Kind → Option FormatToken
  | .lParen => some .lparen
  | .rParen => some .rparen
  | .comma => some .comma
  | .question => some .question
  | _ => none

theorem formatToken_eq_iff {kind : Kind} {expected : FormatToken}
    (hkind : punctuationToken kind = some expected) (token : Token) :
    formatToken token = expected ↔ token.kind = kind := by
  obtain ⟨kind', loc, spelling⟩ := token
  unfold punctuationToken at hkind
  split at hkind <;> cases hkind <;> cases kind' <;> simp [formatToken]

theorem sim_parseToken {kind : Kind} {expected : FormatToken}
    (hkind : punctuationToken kind = some expected) (message : String) :
    Sim (parseToken kind message) (OpFormat.parseToken expected message) := by
  have hnot : kind ≠ .eof ∧ kind.isError = false := by
    unfold punctuationToken at hkind
    split at hkind <;> first | contradiction | exact ⟨by decide, rfl⟩
  intro s tokens hviews
  by_cases h : s.state.curToken.kind = kind
  · have hrun : (parseToken kind message).run s = consumeToken.run s := by
      simp [parseToken, curToken, h]
    cases hviews with
    | eof hkind' => exact absurd (h.symm.trans hkind') hnot.1
    | error herror' =>
      rw [h, hnot.2] at herror'
      contradiction
    | cons hkind' herror' htakes hlex hnext =>
      refine simAt_of_ok (hrun.trans (consumeToken_run hkind' herror' hlex)) hnext ?_
      have htoken := (formatToken_eq_iff hkind s.state.curToken).mpr h
      simp [OpFormat.parseToken, StateT.run, htoken]
  · have hrun : (parseToken kind message).run s = .error (.error (.other message none)) := by
      simp [parseToken, curToken, h, emitError]
      rfl
    unfold SimAt Sat
    rw [hrun]
    intro e he
    obtain rfl := Failure.error.inj he
    cases hviews with
    | eof hkind' => rfl
    | error herror' =>
      have hne : FormatToken.error ≠ expected := by
        rintro rfl
        unfold punctuationToken at hkind
        split at hkind <;> simp at hkind
      simp [OpFormat.parseToken, StateT.run, hne, err]
    | cons hkind' herror' htakes hlex hnext =>
      have hne : formatToken s.state.curToken ≠ expected :=
        fun heq ↦ h ((formatToken_eq_iff hkind _).mp heq)
      simp [OpFormat.parseToken, StateT.run, hne, err]

theorem simAt_of_eq {α : Type} {p p' : FormatParser α} {q q' : OpFormat.FormatParser α}
    {s s' : Input UInt8 ParserState} {tokens tokens' : List FormatToken}
    (hp : p.run s = p'.run s')
    (hq : q.run ⟨tokens, s.state.seen⟩ = q'.run ⟨tokens', s'.state.seen⟩)
    (h : SimAt p' q' s' tokens') : SimAt p q s tokens := by
  unfold SimAt Sat at h ⊢
  rw [hp, hq]
  exact h

/-! ## Variables, literals and directives -/

theorem run_curToken_bind {β : Type} (f : Token → FormatParser β) (s : Input UInt8 ParserState) :
    (curToken >>= f).run s = (f s.state.curToken).run s := rfl

theorem run_consumeToken_bind {β : Type} {f : Unit → FormatParser β} {s : Input UInt8 ParserState}
    {next : Token} {rest : Ptr} (hkind : s.state.curToken.kind ≠ .eof)
    (herror : s.state.curToken.kind.isError = false) (hlex : lexToken s.tokens = some (next, rest)) :
    (consumeToken >>= f).run s = (f ()).run ⟨rest, { s.state with curToken := next }⟩ := by
  rw [StateT.run_bind, consumeToken_run hkind herror hlex]
  rfl

theorem run_consumeToken_bind_fault {β : Type} (f : Unit → FormatParser β)
    {s : Input UInt8 ParserState}
    (h : s.state.curToken.kind = .eof ∨ s.state.curToken.kind.isError = true) :
    (consumeToken >>= f).run s = .error (.fault .advance) := by
  rw [StateT.run_bind, consumeToken_fault h]
  rfl

/-- The rest of `parseVariable`, once the name is known. -/
def bindName (op : OperationOp) (isTopLevel : Bool) (name : String) : FormatParser Variable :=
  match findVariable op name with
  | none => emitError "expected variable to refer to an argument, result, successor, or region"
  | some var => do
    bindSeen fun seen ↦ bindVariable op isTopLevel name seen var
    return var

theorem sim_bindName (op : OperationOp) (isTopLevel : Bool) (name : String) :
    Sim (bindName op isTopLevel name) (match findVariable op name with
      | none => throw (.other
          "expected variable to refer to an argument, result, successor, or region" none)
      | some var => do
        OpFormat.bindSeen fun seen ↦ bindVariable op isTopLevel name seen var
        return var) := by
  unfold bindName
  split
  · exact sim_emitError _
  · exact sim_bind (sim_bindSeen _) fun _ ↦ sim_pure _

section Variable

variable {s : Input UInt8 ParserState} {next : Token} {rest : Ptr} {op : OperationOp}
variable {isTopLevel : Bool}

theorem run_parseVariable (hkind : s.state.curToken.kind ≠ .eof)
    (herror : s.state.curToken.kind.isError = false) (hlex : lexToken s.tokens = some (next, rest)) :
    (parseVariable op isTopLevel).run s =
      (dropFront 36 s.state.curToken.spelling >>= fun name ↦
        bindName op isTopLevel (FormatParsing.text name)).run
          ⟨rest, { s.state with curToken := next }⟩ := by
  unfold parseVariable
  rw [run_curToken_bind, run_consumeToken_bind hkind herror hlex]
  rfl

theorem run_parseVariable_fault
    (h : s.state.curToken.kind = .eof ∨ s.state.curToken.kind.isError = true) :
    (parseVariable op isTopLevel).run s = .error (.fault .advance) := by
  unfold parseVariable
  rw [run_curToken_bind, run_consumeToken_bind_fault _ h]

theorem dropFront_fault {delimiter : UInt8} {spelling : List UInt8}
    (h : spelling.head? ≠ some delimiter) : dropFront delimiter spelling = throw (.fault .delimiter) := by
  cases spelling with
  | nil => rfl
  | cons c spelling =>
    have hc : c ≠ delimiter := fun heq ↦ h (by rw [heq]; rfl)
    rw [dropFront, if_neg hc]

theorem dropFront_cons (delimiter : UInt8) (spelling : List UInt8) :
    dropFront delimiter (delimiter :: spelling) = pure spelling := by
  rw [dropFront, if_pos rfl]

/-- A token that is not a variable has not got the dollar sign. -/
theorem parseVariable_fault (hvar : s.state.curToken.kind ≠ .var) {tokens : List FormatToken}
    (hviews : Views s.state.curToken s.tokens tokens) :
    ∃ fault, (parseVariable op isTopLevel).run s = .error (.fault fault) := by
  cases hviews with
  | eof hkind => exact ⟨_, run_parseVariable_fault (.inl hkind)⟩
  | error herror => exact ⟨_, run_parseVariable_fault (.inr herror)⟩
  | cons hkind herror htakes hlex hnext =>
    refine ⟨.delimiter, ?_⟩
    have hhead := fun h ↦ hvar (htakes.head?_eq_dollar_iff.mp h)
    rw [run_parseVariable hkind herror hlex, dropFront_fault hhead]
    rfl

end Variable

theorem sim_parseVariable (op : OperationOp) (isTopLevel : Bool) :
    Sim (parseVariable op isTopLevel) (OpFormat.parseVariable op isTopLevel) := by
  intro s tokens hviews
  by_cases hvar : s.state.curToken.kind = .var
  · cases hviews with
    | eof hkind =>
      rw [hkind] at hvar
      contradiction
    | error herror =>
      rw [hvar] at herror
      contradiction
    | @cons _ _ next rest tokens hkind herror htakes hlex hnext =>
      obtain ⟨name, hname⟩ := List.head?_eq_some_iff.mp (htakes.head?_eq_dollar_iff.mpr hvar)
      have htoken : formatToken s.state.curToken = .var (FormatParsing.text name) := by
        simp [formatToken, hvar, hname]
      have hp := @run_parseVariable _ _ _ op isTopLevel hkind herror hlex
      rw [hname, dropFront_cons, pure_bind] at hp
      refine simAt_of_eq hp ?_ (sim_bindName op isTopLevel _ _ tokens hnext)
      rw [htoken]
      rfl
  · obtain ⟨fault, hfault⟩ := parseVariable_fault hvar hviews
    exact simAt_of_fault hfault

/-- The rest of `parseLiteral`, once the value is known. -/
def literalElement (value : String) : FormatParser Element :=
  if isValidLiteral value then return .literal value else emitError "expected valid literal"

theorem run_parseLiteral {s : Input UInt8 ParserState} {next : Token} {rest : Ptr}
    {body : List UInt8} (hkind : s.state.curToken.kind ≠ .eof)
    (herror : s.state.curToken.kind.isError = false) (hlex : lexToken s.tokens = some (next, rest))
    (hspelling : s.state.curToken.spelling = backquote :: body ++ [backquote]) :
    parseLiteral.run s = (literalElement (FormatParsing.text body)).run
      ⟨rest, { s.state with curToken := next }⟩ := by
  have hdrop : (dropFront backquote s.state.curToken.spelling >>= dropBack backquote :
      FormatParser (List UInt8)) = pure body := by
    rw [hspelling, List.cons_append, dropFront_cons, pure_bind]
    simp [dropBack]
  unfold parseLiteral
  rw [run_curToken_bind, run_consumeToken_bind hkind herror hlex, ← bind_assoc, hdrop, pure_bind]
  rfl

theorem sim_parseLiteral {s : Input UInt8 ParserState} {tokens : List FormatToken}
    (hkind : s.state.curToken.kind = .literal) (hviews : Views s.state.curToken s.tokens tokens) :
    ∃ value, tokens.head? = some (.literal value) ∧
      SimAt parseLiteral (OpFormat.parseLiteral value) s tokens := by
  cases hviews with
  | eof hkind' =>
    rw [hkind'] at hkind
    contradiction
  | error herror =>
    rw [hkind] at herror
    contradiction
  | @cons _ _ next rest tokens hne herror htakes hlex hnext =>
    obtain ⟨body, hspelling⟩ := htakes.spelling_literal hkind
    refine ⟨FormatParsing.text body, ?_, ?_⟩
    · simp [formatToken, hkind, hspelling]
    · have hq : (OpFormat.parseLiteral (FormatParsing.text body)).run
          ⟨formatToken s.state.curToken :: tokens, s.state.seen⟩ =
          (if isValidLiteral (FormatParsing.text body) then
            pure (.literal (FormatParsing.text body))
          else throw (.other "expected valid literal" none) : OpFormat.FormatParser Element).run
            ⟨tokens, s.state.seen⟩ := rfl
      refine simAt_of_eq (run_parseLiteral hne herror hlex hspelling) hq ?_
      unfold literalElement
      split
      · exact sim_pure _ _ tokens hnext
      · exact sim_emitError _ _ tokens hnext

theorem sim_parseSymbolDirective (op : OperationOp) :
    Sim (parseSymbolDirective op) (OpFormat.parseSymbolDirective op) := by
  unfold parseSymbolDirective OpFormat.parseSymbolDirective
  apply sim_bind (sim_parseToken rfl _)
  intro _
  apply sim_bind (sim_parseVariable op false)
  intro attr
  apply sim_bind (sim_parseToken rfl _)
  intro _
  cases attr with
  | attr i => exact sim_pure _
  | operand i | result i | successor i | region i => exact sim_emitError _

section Nested

variable {op : OperationOp} {self : Bool → FormatParser Item}
variable {self' : Bool → OpFormat.FormatParser Item}

theorem sim_parseTypeDirectiveOperand (hself : ∀ isTopLevel, Sim (self isTopLevel) (self' isTopLevel)) :
    Sim (parseTypeDirectiveOperand op self) (OpFormat.parseTypeDirectiveOperand op self') := by
  apply sim_bind (hself false)
  intro item
  apply sim_bind (sim_lift _)
  intro arg
  exact sim_bind (sim_bindSeen _) fun _ ↦ sim_pure _

/-- An error in front of everything else. -/
theorem sim_guard {β : Type} {c : Prop} [Decidable c] (message : String) {p : FormatParser β}
    {q : OpFormat.FormatParser β} (h : Sim p q) :
    Sim (if c then emitError message >>= fun (_ : PUnit) ↦ p else p)
      (if c then throw (.other message none) >>= fun (_ : PUnit) ↦ q else q) := by
  split
  · exact sim_bind (sim_emitError message) fun _ ↦ h
  · exact h

theorem sim_parseTypeDirective (hself : ∀ isTopLevel, Sim (self isTopLevel) (self' isTopLevel))
    (isTopLevel : Bool) :
    Sim (parseTypeDirective op self isTopLevel) (OpFormat.parseTypeDirective op self' isTopLevel) := by
  apply sim_guard
  apply sim_bind (sim_parseToken rfl _)
  intro _
  apply sim_bind (sim_parseTypeDirectiveOperand hself)
  intro operand
  exact sim_bind (sim_parseToken rfl _) fun _ ↦ sim_pure _

theorem sim_parseFunctionalTypeDirective
    (hself : ∀ isTopLevel, Sim (self isTopLevel) (self' isTopLevel)) (isTopLevel : Bool) :
    Sim (parseFunctionalTypeDirective op self isTopLevel)
      (OpFormat.parseFunctionalTypeDirective op self' isTopLevel) := by
  apply sim_guard
  apply sim_bind (sim_parseToken rfl _)
  intro _
  apply sim_bind (sim_parseTypeDirectiveOperand hself)
  intro inputs
  apply sim_bind (sim_parseToken rfl _)
  intro _
  apply sim_bind (sim_parseTypeDirectiveOperand hself)
  intro outputs
  exact sim_bind (sim_parseToken rfl _) fun _ ↦ sim_pure _

/-- The name of the directive whose keyword is ahead. -/
theorem sim_parseDirective (hself : ∀ isTopLevel, Sim (self isTopLevel) (self' isTopLevel))
    (isTopLevel : Bool) {s : Input UInt8 ParserState} {tokens : List FormatToken}
    (hkeyword : s.state.curToken.kind.isKeyword = true)
    (hviews : Views s.state.curToken s.tokens tokens) :
    SimAt (parseDirective op self isTopLevel) (OpFormat.parseDirective op self' isTopLevel
      (keywordName s.state.curToken.kind)) s tokens := by
  unfold parseDirective
  refine simAt_of_eq (run_curToken_bind _ s) rfl ?_
  apply simAt_bind (sim_consumeToken s tokens hviews)
  intro _
  cases hkind : s.state.curToken.kind
  case kwAttrDict => exact sim_bind (sim_bindSeen _) fun _ ↦ sim_pure _
  case kwAttrDictWithKeyword => exact sim_bind (sim_bindSeen _) fun _ ↦ sim_pure _
  case kwFunctionalType => exact sim_parseFunctionalTypeDirective hself isTopLevel
  case kwOperands => exact sim_bind (sim_bindSeen _) fun _ ↦ sim_pure _
  case kwResults => exact sim_bind (sim_bindSeen _) fun _ ↦ sim_pure _
  case kwSuccessors => exact sim_bind (sim_bindSeen _) fun _ ↦ sim_pure _
  case kwType => exact sim_parseTypeDirective hself isTopLevel
  case kwSymbol => exact sim_parseSymbolDirective op
  case kwDims => exact sim_emitError _
  all_goals
    rw [hkind] at hkeyword
    contradiction

end Nested

/-! ## Groups and elements -/

section Optional

variable {md : Metadata} {op : OperationOp} {self : Bool → FormatParser Item}
variable {self' : Bool → OpFormat.FormatParser Item}

/-- What the token-level parser sees of the token ahead. -/
theorem head?_of_views {token : Token} {ptr : Ptr} {tokens : List FormatToken}
    (hviews : Views token ptr tokens) {kind : Kind} {expected : FormatToken}
    (heq : ∀ token, formatToken token = expected ↔ token.kind = kind) (hne : kind ≠ .eof)
    (hnot : kind.isError = false) : tokens.head? = some expected ↔ token.kind = kind := by
  cases hviews with
  | eof hkind =>
    rw [hkind]
    constructor
    · intro h
      cases h
    · intro h
      exact absurd h.symm hne
  | error herror =>
    constructor
    · intro h
      have hexpected : FormatToken.error = expected := Option.some.inj h
      have hkind := (heq ⟨.eof, [], []⟩).mp hexpected
      exact absurd hkind.symm hne
    · rintro rfl
      rw [hnot] at herror
      contradiction
  | cons hkind herror htakes hlex hnext =>
    rw [List.head?_cons, Option.some.injEq]
    exact heq token

theorem formatToken_eq_caret_iff (token : Token) : formatToken token = .caret ↔ token.kind = .caret := by
  obtain ⟨kind, loc, spelling⟩ := token
  cases kind <;> simp [formatToken]

theorem sim_parseAnchor (group : Group) : Sim (parseAnchor group) (OpFormat.parseAnchor group) := by
  unfold parseAnchor OpFormat.parseAnchor
  apply sim_look
  intro s tokens hviews
  have hhead := head?_of_views hviews formatToken_eq_caret_iff (by decide) rfl
  simp only [hhead]
  split
  · apply sim_guard
    · exact sim_bind sim_consumeToken fun _ ↦ sim_pure true
    · exact hviews
  · exact simAt_pure hviews false

theorem sim_parseOptionalChildElement
    (hself : ∀ isTopLevel, Sim (self isTopLevel) (self' isTopLevel)) (group : Group) :
    Sim (parseOptionalChildElement md op self group)
      (OpFormat.parseOptionalChildElement md op self' group) := by
  apply sim_bind (hself true)
  intro item
  apply sim_bind (sim_parseAnchor group)
  intro isAnchor
  cases item with
  | optional elements anchor => exact sim_emitError _
  | element child => exact sim_bind (sim_lift _) fun _ ↦ sim_pure _

theorem sim_parseOptionalElements
    (hself : ∀ isTopLevel, Sim (self isTopLevel) (self' isTopLevel)) (fuel : ℕ) (group : Group) :
    Sim (parseOptionalElements md op self fuel group)
      (OpFormat.parseOptionalElements md op self' fuel group) := by
  induction fuel generalizing group with
  | zero => exact sim_throw _
  | succ fuel ih =>
    apply sim_bind (sim_parseOptionalChildElement hself group)
    intro group'
    apply sim_look
    intro s tokens hviews
    have hhead : tokens.head? = some .rparen ↔ s.state.curToken.kind = .rParen :=
      head?_of_views hviews (formatToken_eq_iff rfl) (by decide) rfl
    simp only [hhead]
    split
    · exact simAt_pure hviews group'
    · exact ih group' s tokens hviews

theorem sim_parseOptional (hself : ∀ isTopLevel, Sim (self isTopLevel) (self' isTopLevel))
    (fuel : ℕ) (isTopLevel : Bool) :
    Sim (parseOptional md op self fuel isTopLevel)
      (OpFormat.parseOptional md op self' fuel isTopLevel) := by
  apply sim_guard
  apply sim_bind sim_consumeToken
  intro _
  apply sim_bind (sim_parseOptionalElements hself fuel _)
  intro group
  apply sim_bind sim_consumeToken
  intro _
  exact sim_bind (sim_parseToken rfl _) fun _ ↦ sim_lift _

end Optional

theorem formatToken_of_isKeyword {token : Token} (h : token.kind.isKeyword = true) :
    formatToken token = .keyword (keywordName token.kind) := by
  obtain ⟨kind, loc, spelling⟩ := token
  cases kind <;> first | rfl | contradiction

theorem eq_formatToken_of_head? {token : Token} {ptr : Ptr} {tokens : List FormatToken}
    {ahead : FormatToken} (hviews : Views token ptr tokens) (hhead : tokens.head? = some ahead) :
    ahead = formatToken token ∨ ahead = .error := by
  cases hviews with
  | eof hkind => contradiction
  | error herror => exact .inr (Option.some.inj hhead).symm
  | cons hkind herror htakes hlex hnext => exact .inl (Option.some.inj hhead).symm

theorem sim_parseElement (md : Metadata) (op : OperationOp) (fuel : ℕ) (isTopLevel : Bool) :
    Sim (parseElement md op fuel isTopLevel) (OpFormat.parseElement md op fuel isTopLevel) := by
  induction fuel generalizing isTopLevel with
  | zero => exact sim_throw _
  | succ fuel ih =>
    unfold parseElement OpFormat.parseElement
    apply sim_look
    intro s tokens hviews
    by_cases hkeyword : s.state.curToken.kind.isKeyword = true
    · have hdirective : SimAt (Item.element <$> parseDirective op (parseElement md op fuel) isTopLevel)
          (Item.element <$> OpFormat.parseDirective op (OpFormat.parseElement md op fuel) isTopLevel
            (keywordName s.state.curToken.kind)) s tokens := by
        rw [← bind_pure_comp, ← bind_pure_comp]
        exact simAt_bind (sim_parseDirective ih isTopLevel hkeyword hviews) fun _ ↦ sim_pure _
      rw [if_pos hkeyword]
      cases hviews with
      | eof hkind =>
        rw [hkind] at hkeyword
        contradiction
      | error herror =>
        cases hkind : s.state.curToken.kind <;> rw [hkind] at hkeyword herror <;> contradiction
      | cons hkind herror htakes hlex hnext =>
        have htoken := formatToken_of_isKeyword hkeyword
        rw [htoken] at hdirective ⊢
        exact hdirective
    · rw [if_neg hkeyword]
      cases hkind : s.state.curToken.kind
      case literal =>
        obtain ⟨value, hhead, hliteral⟩ := sim_parseLiteral hkind hviews
        simp only [hhead]
        rw [← bind_pure_comp, ← bind_pure_comp]
        exact simAt_bind hliteral fun _ ↦ sim_pure _
      case lParen =>
        have hhead : tokens.head? = some .lparen :=
          (head?_of_views hviews (formatToken_eq_iff rfl) (by decide) rfl).mpr hkind
        simp only [hhead]
        exact sim_parseOptional ih fuel isTopLevel s tokens hviews
      case var =>
        have hhead : ∃ name, tokens.head? = some (.var name) := by
          cases hviews with
          | eof hkind' =>
            rw [hkind'] at hkind
            contradiction
          | error herror =>
            rw [hkind] at herror
            contradiction
          | cons _ _ _ _ _ => exact ⟨_, by rw [List.head?_cons, formatToken, hkind]⟩
        obtain ⟨name, hhead⟩ := hhead
        simp only [hhead]
        exact sim_map (sim_parseVariable op isTopLevel) _ s tokens hviews
      all_goals
        dsimp only
        split
        case h_5 => exact sim_emitError _ s tokens hviews
        all_goals
          rename_i hhead
          rcases eq_formatToken_of_head? hviews hhead with heq | heq
          · simp [formatToken, hkind, Kind.isKeyword] at heq hkeyword
          · cases heq

/-! ## The whole format -/

theorem sim_parseElements (md : Metadata) (op : OperationOp) (fuel : ℕ) :
    Sim (parseElements md op fuel) (OpFormat.parseElements md op fuel) := by
  induction fuel with
  | zero => exact sim_throw _
  | succ fuel ih =>
    unfold parseElements OpFormat.parseElements
    apply sim_look
    intro s tokens hviews
    have hempty : tokens.isEmpty = true ↔ s.state.curToken.kind = .eof := by
      cases hviews with
      | eof hkind => simp [hkind]
      | error herror =>
        simp only [List.isEmpty_cons, Bool.false_eq_true, false_iff]
        intro hkind
        rw [hkind] at herror
        contradiction
      | cons hkind _ _ _ _ => simp [hkind]
    simp only [hempty]
    split
    · exact simAt_pure hviews []
    · apply simAt_bind (sim_parseElement md op fuel true s tokens hviews)
      intro item
      exact sim_bind ih fun items ↦ sim_pure _

end DeclarativeMlir.Embed.FormatParsing

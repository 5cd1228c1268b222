import DeclarativeMlir.Embed.FormatSimulation
import DeclarativeMlir.Embed.OpFormatExactness

/-!
# When parsing an op format is safe

`parseSymbolDirective` calls `parseVariable` without a look at the token ahead. Every other call of
a function that consumes a token comes after a check of its kind, so the parser is safe on a format
unless it reads up to a directive `symbol` with something else than a variable as its argument.
-/

namespace DeclarativeMlir.Embed.FormatParsing

open Spec CheckedParsing FormatLexer OpFormat

/-! ## The tokens of a format -/

/-- The tokens from the current one on, at most `fuel` of them. -/
def tokensFrom : ℕ → Token → Ptr → List FormatToken
  | 0, _, _ => []
  | fuel + 1, token, curPtr =>
    if token.kind = .eof then []
    else if token.kind.isError then [.error]
    else formatToken token :: match lexToken curPtr with
      | none => []
      | some (next, rest) => tokensFrom fuel next rest

def formatTokens (format : List UInt8) : List FormatToken :=
  match lexToken (cString format) with
  | none => []
  | some (token, curPtr) => tokensFrom (format.length + 2) token curPtr

theorem Views.tokensFrom_eq {token : Token} {ptr : Ptr} {tokens : List FormatToken}
    (h : Views token ptr tokens) {fuel : ℕ} (hfuel : tokens.length < fuel) :
    tokensFrom fuel token ptr = tokens := by
  induction h generalizing fuel with
  | eof hkind =>
    obtain ⟨fuel, rfl⟩ := Nat.exists_eq_succ_of_ne_zero (Nat.ne_of_gt hfuel)
    rw [tokensFrom, if_pos hkind]
  | error herror =>
    obtain ⟨fuel, rfl⟩ := Nat.exists_eq_succ_of_ne_zero (Nat.ne_of_gt (Nat.zero_lt_of_lt hfuel))
    have hkind : ∀ kind : Kind, kind.isError = true → kind ≠ .eof := by
      rintro kind h rfl
      contradiction
    rw [tokensFrom, if_neg (hkind _ herror), if_pos herror]
  | cons hkind herror htakes hlex hnext ih =>
    obtain ⟨fuel, rfl⟩ := Nat.exists_eq_succ_of_ne_zero (Nat.ne_of_gt (Nat.zero_lt_of_lt hfuel))
    rw [tokensFrom, if_neg hkind, if_neg (by rw [herror]; decide), hlex]
    simp only [ih (Nat.lt_of_succ_lt_succ hfuel)]

/-! ## The lexer stays in the buffer -/

/-- The memory ends with the NUL of the string. -/
def Terminated (ptr : Ptr) : Prop := ptr.getLast? = some 0

theorem terminated_cString (format : List UInt8) : Terminated (cString format) := by
  simp [Terminated, cString]

theorem Terminated.tail {c : UInt8} {ptr : Ptr} (h : Terminated (c :: ptr))
    (hne : c ≠ 0 ∨ ptr ≠ []) : Terminated ptr := by
  cases ptr with
  | nil =>
    have hc : c = 0 := Option.some.inj h
    exact absurd hc (hne.resolve_right fun hnil ↦ hnil rfl)
  | cons d ptr =>
    rw [Terminated, List.getLast?_cons_cons] at h
    exact h

theorem exists_skipWhile {p : ℤ → Bool} (hp : p 0 = false) {ptr : Ptr} (h : Terminated ptr) :
    ∃ rest, skipWhile p ptr = some rest ∧ Terminated rest ∧ rest.length ≤ ptr.length := by
  induction ptr with
  | nil => contradiction
  | cons c ptr ih =>
    unfold skipWhile
    split
    · rename_i hc
      have hne : c ≠ 0 := by
        rintro rfl
        have hzero : p 0 = true := hc
        rw [hp] at hzero
        contradiction
      obtain ⟨rest, hrest, hterminated, hlength⟩ := ih (h.tail (.inl hne))
      exact ⟨rest, hrest, hterminated, by simp only [List.length_cons]; omega⟩
    · exact ⟨c :: ptr, rfl, h, le_rfl⟩

theorem exists_lexLiteral (tokStart : Ptr) {ptr : Ptr} (h : Terminated ptr) :
    ∃ token rest, lexLiteral tokStart ptr = some (token, rest) ∧
      (token.kind.isError = false → Terminated rest) ∧ rest.length < ptr.length := by
  induction ptr with
  | nil => contradiction
  | cons c ptr ih =>
    unfold lexLiteral
    split_ifs with hnul hquote
    · exact ⟨_, _, rfl, fun herror ↦ by contradiction, by simp⟩
    · exact ⟨_, _, rfl, fun _ ↦ h.tail (.inl hnul), by simp⟩
    · obtain ⟨token, rest, hlex, hterminated, hlength⟩ := ih (h.tail (.inl hnul))
      exact ⟨token, rest, hlex, hterminated, by simp only [List.length_cons]; omega⟩

theorem exists_getNextChar {ptr : Ptr} (h : Terminated ptr) :
    ∃ c rest, getNextChar ptr = some (c, rest) ∧ Terminated rest := by
  cases ptr with
  | nil => contradiction
  | cons c ptr =>
    simp only [getNextChar]
    split_ifs with hnul hrest hnewline
    · exact ⟨_, _, rfl, h.tail (.inr hrest)⟩
    · exact ⟨_, _, rfl, by rw [hnul]; rfl⟩
    · have hptr := h.tail (.inl hnul)
      cases ptr with
      | nil => contradiction
      | cons next ptr =>
        dsimp only
        split_ifs with hnext
        · have hne : next ≠ 0 := by
            rintro rfl
            exact absurd hnext.1 (by decide)
          exact ⟨_, _, rfl, hptr.tail (.inl hne)⟩
        · exact ⟨_, _, rfl, hptr⟩
    · exact ⟨_, _, rfl, h.tail (.inl hnul)⟩

theorem Terminated.getNextChar {ptr rest : Ptr} {c : ℤ} (h : Terminated ptr)
    (hnext : getNextChar ptr = some (c, rest)) : Terminated rest := by
  obtain ⟨c', rest', hnext', hterminated⟩ := exists_getNextChar h
  rw [hnext] at hnext'
  obtain ⟨-, rfl⟩ := Prod.mk.inj (Option.some.inj hnext')
  exact hterminated

theorem exists_lexVariable (tokStart : Ptr) {ptr : Ptr} (h : Terminated ptr) :
    ∃ token rest, lexVariable tokStart ptr = some (token, rest) ∧ Terminated rest ∧
      rest.length ≤ ptr.length := by
  cases ptr with
  | nil => contradiction
  | cons c ptr =>
    simp only [lexVariable]
    split_ifs
    · exact ⟨_, _, rfl, h, le_rfl⟩
    · obtain ⟨rest, hskip, hrest⟩ := exists_skipWhile (by decide : isVariableChar 0 = false) h
      exact ⟨_, rest, by rw [hskip]; rfl, hrest⟩

theorem exists_lexIdentifier (tokStart : Ptr) {ptr : Ptr} (h : Terminated ptr) :
    ∃ token rest, lexIdentifier tokStart ptr = some (token, rest) ∧ Terminated rest ∧
      rest.length ≤ ptr.length := by
  obtain ⟨rest, hskip, hrest⟩ := exists_skipWhile (by decide : isIdentifierChar 0 = false) h
  exact ⟨_, rest, by rw [lexIdentifier, hskip]; rfl, hrest⟩

/-- The lexer gives a token, which is the end or comes with less memory, and no more is read behind
an error. -/
theorem exists_lexToken {ptr : Ptr} (h : Terminated ptr) :
    ∃ token rest, lexToken ptr = some (token, rest) ∧
      (token.kind.isError = false → Terminated rest) ∧
      (token.kind = .eof ∨ rest.length < ptr.length) := by
  fun_induction lexToken ptr with
  | case1 ptr hnone =>
    obtain ⟨c, rest, hnext, -⟩ := exists_getNextChar h
    rw [hnone] at hnext
    contradiction
  | case2 ptr curPtr hnext => exact ⟨_, _, rfl, fun _ ↦ h.getNextChar hnext, .inl rfl⟩
  | case3 ptr curChar curPtr hnext hc kind hkind =>
    exact ⟨_, _, rfl, fun _ ↦ h.getNextChar hnext, .inr (getNextChar_length hnext hc)⟩
  | case4 ptr curChar curPtr hnext hc hnone hskip hlt ih =>
    obtain ⟨token, rest, hlex, hterminated, hlength⟩ := ih (h.getNextChar hnext)
    exact ⟨token, rest, hlex, hterminated, hlength.imp_right fun hless ↦ hless.trans hlt⟩
  | case5 ptr curPtr hnext hc hnone hskip =>
    obtain ⟨token, rest, hlex, hterminated, hlength⟩ := exists_lexLiteral ptr (h.getNextChar hnext)
    exact ⟨token, rest, hlex, hterminated, .inr (hlength.trans (getNextChar_length hnext hc))⟩
  | case6 ptr curPtr hnext hc hnone hskip hquote =>
    obtain ⟨token, rest, hlex, hterminated, hlength⟩ := exists_lexVariable ptr (h.getNextChar hnext)
    exact ⟨token, rest, hlex, fun _ ↦ hterminated,
      .inr (hlength.trans_lt (getNextChar_length hnext hc))⟩
  | case7 ptr curChar curPtr hnext hc hnone hskip hquote hdollar hident =>
    obtain ⟨token, rest, hlex, hterminated, hlength⟩ :=
      exists_lexIdentifier ptr (h.getNextChar hnext)
    exact ⟨token, rest, hlex, fun _ ↦ hterminated,
      .inr (hlength.trans_lt (getNextChar_length hnext hc))⟩
  | case8 ptr curChar curPtr hnext hc =>
    exact ⟨_, _, rfl, fun _ ↦ h.getNextChar hnext, .inr (getNextChar_length hnext hc)⟩

/-- From a token that is not an error on, there are tokens up to the end or an error. -/
theorem exists_views {ptr rest : Ptr} {token : Token} (hlex : lexToken ptr = some (token, rest))
    (hrest : token.kind.isError = false → Terminated rest) :
    ∃ tokens, Views token rest tokens ∧ tokens.length ≤ rest.length + 1 := by
  induction hlength : rest.length using Nat.strong_induction_on generalizing ptr rest token with
  | _ n ih =>
    by_cases herror : token.kind.isError = true
    · exact ⟨_, .error herror, by simp⟩
    · rw [Bool.not_eq_true] at herror
      by_cases hkind : token.kind = .eof
      · exact ⟨_, .eof hkind, by simp⟩
      · obtain ⟨next, rest', hlex', hrest', hless⟩ := exists_lexToken (hrest herror)
        have htakes := (lexToken_takes hlex herror).1
        rcases hless with heof | hless
        · exact ⟨_, .cons hkind herror htakes hlex' (.eof heof), by simp⟩
        · obtain ⟨tokens, htokens, hle⟩ := ih rest'.length (by omega) hlex' hrest' rfl
          exact ⟨_, .cons hkind herror htakes hlex' htokens, by
            simp only [List.length_cons]
            omega⟩

theorem exists_formatTokens (format : List UInt8) :
    ∃ token rest, lexToken (cString format) = some (token, rest) ∧
      Views token rest (formatTokens format) ∧ (formatTokens format).length ≤ format.length + 1 := by
  obtain ⟨token, rest, hlex, hrest, hless⟩ := exists_lexToken (terminated_cString format)
  refine ⟨token, rest, hlex, ?_⟩
  have hlength : (cString format).length ≤ format.length + 1 := by
    have hle := (List.takeWhile_sublist (fun c ↦ decide (c ≠ (0 : UInt8)))
      (l := format)).length_le
    simpa [cString] using hle
  obtain ⟨tokens, hviews, hle⟩ : ∃ tokens, Views token rest tokens ∧
      tokens.length ≤ format.length + 1 := by
    rcases hless with heof | hless
    · exact ⟨[], .eof heof, Nat.zero_le _⟩
    · obtain ⟨tokens, hviews, hle⟩ := exists_views hlex hrest
      exact ⟨tokens, hviews, by omega⟩
  have heq : formatTokens format = tokens := by
    rw [formatTokens, hlex]
    exact hviews.tokensFrom_eq (by omega)
  rw [heq]
  exact ⟨hviews, hle⟩

/-! ## Where a symbol directive has no variable -/

/-- A symbol directive is ahead whose argument is not a variable. -/
def AtSymbol (tokens : List FormatToken) : Prop :=
  ∃ rest, tokens = .keyword "symbol" :: .lparen :: rest ∧ ∀ name, rest.head? ≠ some (.var name)

/-- An element is ahead that is such a directive or has one as its argument; the arguments of
`functional-type` are read in order. -/
inductive InElement (op : OperationOp) (seen : Seen) : List FormatToken → Prop where
  | symbol {tokens} (h : AtSymbol tokens) : InElement op seen tokens
  | type {rest} (h : AtSymbol rest) : InElement op seen (.keyword "type" :: .lparen :: rest)
  | inputs {rest} (h : AtSymbol rest) :
      InElement op seen (.keyword "functional-type" :: .lparen :: rest)
  | outputs {inputs text rest seen'} (hinputs : TypeArg.Spells op inputs text)
      (hread : inputs.read op seen = .ok seen') (h : AtSymbol rest) :
      InElement op seen (.keyword "functional-type" :: .lparen :: (text ++ .comma :: rest))

/-- An item is ahead in which the parser comes to such a directive: the elements of a group in front
of it can be read. -/
inductive Reaches (md : Metadata) (op : OperationOp) : Seen → List FormatToken → Prop where
  | element {seen tokens} (h : InElement op seen tokens) : Reaches md op seen tokens
  | group {seen seen' elements anchor text rest}
      (hspells : SpellsChildren op 0 none anchor elements text)
      (hread : readChildren md op anchor 0 elements seen = .ok seen')
      (h : Reaches md op seen' rest) : Reaches md op seen (.lparen :: (text ++ rest))

/-- Behind items that can be read. -/
def ReachesBehind (md : Metadata) (op : OperationOp) (seen : Seen) (tokens : List FormatToken) :
    Prop :=
  ∃ items text rest seen', SpellsItems op items text ∧ tokens = text ++ rest ∧
    readItems md op items seen = .ok seen' ∧ Reaches md op seen' rest

theorem InElement.head {op : OperationOp} {seen : Seen} {tokens : List FormatToken}
    (h : InElement op seen tokens) : ∃ name, tokens.head? = some (.keyword name) := by
  cases h with
  | symbol h =>
    obtain ⟨rest, rfl, -⟩ := h
    exact ⟨_, rfl⟩
  | type h | inputs h | outputs hinputs hread h => exact ⟨_, rfl⟩

theorem Reaches.head {md : Metadata} {op : OperationOp} {seen : Seen} {tokens : List FormatToken}
    (h : Reaches md op seen tokens) :
    tokens.head? ≠ some .caret ∧ tokens.head? ≠ some .rparen := by
  cases h with
  | element h =>
    obtain ⟨name, hname⟩ := h.head
    simp [hname]
  | group hspells hread h => simp

theorem AtSymbol.length {tokens : List FormatToken} (h : AtSymbol tokens) : 2 ≤ tokens.length := by
  obtain ⟨rest, rfl, -⟩ := h
  simp

theorem Reaches.length {md : Metadata} {op : OperationOp} {seen : Seen} {tokens : List FormatToken}
    (h : Reaches md op seen tokens) : 2 ≤ tokens.length := by
  induction h with
  | element h =>
    cases h with
    | symbol h => exact h.length
    | type h | inputs h | outputs hinputs hread h => simp
  | group hspells hread h ih =>
    rw [List.length_cons, List.length_append]
    omega

/-! ## Faults -/

section Faults

variable {α β : Type} {p : FormatParser α} {f : α → FormatParser β} {s : Input UInt8 ParserState}
variable {tokens : List FormatToken}

def Faults (p : FormatParser α) (s : Input UInt8 ParserState) : Prop :=
  ∃ fault, p.run s = .error (.fault fault)

theorem faults_bind_iff : Faults (p >>= f) s ↔
    Faults p s ∨ ∃ a s', p.run s = .ok (a, s') ∧ Faults (f a) s' := by
  unfold Faults
  simp only [StateT.run_bind]
  cases hrun : p.run s with
  | ok result =>
    constructor
    · rintro ⟨fault, h⟩
      exact .inr ⟨result.1, result.2, rfl, fault, h⟩
    · rintro (⟨fault, h⟩ | ⟨a, s', h, fault, hf⟩)
      · cases h
      · cases h
        exact ⟨fault, hf⟩
  | error failure =>
    constructor
    · rintro ⟨fault, h⟩
      exact .inl ⟨fault, by cases h; rfl⟩
    · rintro (⟨fault, h⟩ | ⟨a, s', h, -⟩)
      · cases h
        exact ⟨fault, rfl⟩
      · cases h

theorem not_faults_pure (a : α) : ¬ Faults (pure a) s := by
  rintro ⟨fault, h⟩
  cases h

theorem not_faults_error (e : FormatError) : ¬ Faults (throw (.error e) : FormatParser α) s := by
  rintro ⟨fault, h⟩
  cases h

theorem not_faults_lift (x : Except FormatError α) : ¬ Faults (lift x) s := by
  rintro ⟨fault, h⟩
  cases x <;> cases h

theorem not_faults_bindSeen (bind : Seen → Except FormatError Seen) : ¬ Faults (bindSeen bind) s := by
  rintro ⟨fault, h⟩
  unfold bindSeen StateT.run at h
  dsimp only at h
  split at h <;> cases h

theorem not_faults_map {g : α → β} (h : ¬ Faults p s) : ¬ Faults (g <$> p) s := by
  rw [← bind_pure_comp, faults_bind_iff]
  rintro (hfault | ⟨a, s', -, hfault⟩)
  · exact h hfault
  · exact not_faults_pure _ hfault

/-- If the token-level parser succeeds there is a fault, or the parser succeeds as well. -/
theorem faults_or_run {q : OpFormat.FormatParser α} (hsim : SimAt p q s tokens) {a : α}
    {rest : Input FormatToken Seen} (hq : q.run ⟨tokens, s.state.seen⟩ = .ok (a, rest)) :
    Faults p s ∨ ∃ s', p.run s = .ok (a, s') ∧ Views s'.state.curToken s'.tokens rest.tokens ∧
      s'.state.seen = rest.state := by
  unfold SimAt Sat at hsim
  cases hrun : p.run s with
  | ok result =>
    rw [hrun] at hsim
    obtain ⟨tokens', hviews, hq'⟩ := hsim
    rw [hq] at hq'
    obtain ⟨rfl, rfl⟩ := Prod.mk.inj (Except.ok.inj hq')
    exact .inr ⟨result.2, rfl, hviews, rfl⟩
  | error failure =>
    rw [hrun] at hsim
    cases failure with
    | fault fault => exact .inl ⟨fault, hrun⟩
    | error e =>
      have h := hsim e rfl
      rw [hq] at h
      cases h

/-- A success is one of the token-level parser. -/
theorem run_of_run {q : OpFormat.FormatParser α} (hsim : SimAt p q s tokens) {a : α}
    {s' : Input UInt8 ParserState} (hrun : p.run s = .ok (a, s')) :
    ∃ tokens', Views s'.state.curToken s'.tokens tokens' ∧
      q.run ⟨tokens, s.state.seen⟩ = .ok (a, ⟨tokens', s'.state.seen⟩) := by
  unfold SimAt Sat at hsim
  rw [hrun] at hsim
  exact hsim

/-- After what the token-level parser reads, a fault of the rest is one of the whole. -/
theorem faults_bind_of_reads {q : OpFormat.FormatParser α} (hsim : SimAt p q s tokens) {a : α}
    {rest : Input FormatToken Seen} (hq : q.run ⟨tokens, s.state.seen⟩ = .ok (a, rest))
    (hf : ∀ s' : Input UInt8 ParserState, Views s'.state.curToken s'.tokens rest.tokens →
      s'.state.seen = rest.state → Faults (f a) s') : Faults (p >>= f) s := by
  rw [faults_bind_iff]
  rcases faults_or_run hsim hq with hfault | ⟨s', hrun, hviews, hseen⟩
  · exact .inl hfault
  · exact .inr ⟨a, s', hrun, hf s' hviews hseen⟩

end Faults

section Tokens

variable {s : Input UInt8 ParserState} {tokens : List FormatToken}

theorem not_faults_consumeToken (hviews : Views s.state.curToken s.tokens tokens)
    (hkind : s.state.curToken.kind ≠ .eof) (herror : s.state.curToken.kind.isError = false) :
    ¬ Faults consumeToken s := by
  rintro ⟨fault, h⟩
  cases hviews with
  | eof hkind' => exact hkind hkind'
  | error herror' =>
    rw [herror] at herror'
    contradiction
  | cons _ _ _ hlex _ =>
    rw [consumeToken_run hkind herror hlex] at h
    cases h

theorem not_faults_parseToken {kind : Kind} (message : String)
    (hviews : Views s.state.curToken s.tokens tokens) (hkind : kind ≠ .eof)
    (herror : kind.isError = false) : ¬ Faults (parseToken kind message) s := by
  intro hfault
  unfold parseToken at hfault
  rw [Faults, run_curToken_bind] at hfault
  by_cases h : s.state.curToken.kind = kind
  · rw [if_neg (not_not_intro h)] at hfault
    exact not_faults_consumeToken hviews (h ▸ hkind) (h ▸ herror) hfault
  · rw [if_pos h] at hfault
    rcases faults_bind_iff.mp hfault with hfault | ⟨_, _, hrun, -⟩
    · exact not_faults_error _ hfault
    · cases hrun

theorem not_faults_bindName (op : OperationOp) (isTopLevel : Bool) (name : String) :
    ¬ Faults (bindName op isTopLevel name) s := by
  unfold bindName
  split
  · exact not_faults_error _
  · rw [faults_bind_iff]
    rintro (hfault | ⟨_, _, -, hfault⟩)
    · exact not_faults_bindSeen _ hfault
    · exact not_faults_pure _ hfault

theorem faults_parseVariable_iff (op : OperationOp) (isTopLevel : Bool)
    (hviews : Views s.state.curToken s.tokens tokens) :
    Faults (parseVariable op isTopLevel) s ↔ s.state.curToken.kind ≠ .var := by
  constructor
  · intro hfault hvar
    cases hviews with
    | eof hkind =>
      rw [hkind] at hvar
      contradiction
    | error herror =>
      rw [hvar] at herror
      contradiction
    | @cons _ _ next rest tokens hkind herror htakes hlex hnext =>
      obtain ⟨name, hname⟩ := List.head?_eq_some_iff.mp (htakes.head?_eq_dollar_iff.mpr hvar)
      unfold Faults at hfault
      rw [run_parseVariable hkind herror hlex, hname, dropFront_cons, pure_bind] at hfault
      exact not_faults_bindName op isTopLevel _ hfault
  · intro hvar
    exact parseVariable_fault hvar hviews

theorem not_faults_parseLiteral (hviews : Views s.state.curToken s.tokens tokens)
    (hkind : s.state.curToken.kind = .literal) : ¬ Faults parseLiteral s := by
  cases hviews with
  | eof hkind' =>
    rw [hkind'] at hkind
    contradiction
  | error herror =>
    rw [hkind] at herror
    contradiction
  | cons hne herror htakes hlex hnext =>
    obtain ⟨body, hspelling⟩ := htakes.spelling_literal hkind
    unfold Faults
    rw [run_parseLiteral hne herror hlex hspelling]
    unfold literalElement
    split
    · exact not_faults_pure _
    · exact not_faults_error _

theorem head?_var_iff (hviews : Views s.state.curToken s.tokens tokens) :
    (∃ name, tokens.head? = some (.var name)) ↔ s.state.curToken.kind = .var := by
  cases hviews with
  | eof hkind => simp [hkind]
  | error herror =>
    constructor
    · rintro ⟨name, h⟩
      cases h
    · intro hkind
      rw [hkind] at herror
      contradiction
  | cons _ _ _ _ _ =>
    generalize s.state.curToken = token
    obtain ⟨kind, loc, spelling⟩ := token
    cases kind <;> simp [formatToken]

end Tokens

/-! ## A fault comes from a symbol directive -/

section Sound

variable {md : Metadata} {op : OperationOp} {s : Input UInt8 ParserState}
variable {tokens : List FormatToken}

theorem faults_of_parseToken_bind {β : Type} {kind : Kind} {expected : FormatToken}
    {message : String} {f : Unit → FormatParser β} (hkind : punctuationToken kind = some expected)
    (hviews : Views s.state.curToken s.tokens tokens)
    (hfault : Faults (parseToken kind message >>= f) s) :
    ∃ s' tokens', tokens = expected :: tokens' ∧ Views s'.state.curToken s'.tokens tokens' ∧
      s'.state.seen = s.state.seen ∧ Faults (f ()) s' := by
  have hnot : kind ≠ .eof ∧ kind.isError = false := by
    unfold punctuationToken at hkind
    split at hkind <;> first | contradiction | exact ⟨by decide, rfl⟩
  rcases faults_bind_iff.mp hfault with hfault | ⟨_, s', hrun, hfault⟩
  · exact absurd hfault (not_faults_parseToken message hviews hnot.1 hnot.2)
  · obtain ⟨tokens', hviews', hq⟩ := run_of_run (sim_parseToken hkind message s tokens hviews) hrun
    cases tokens with
    | nil => cases hq
    | cons token tokens =>
      simp only [OpFormat.parseToken, StateT.run] at hq
      split at hq
      · rename_i htoken
        obtain ⟨-, hinput⟩ := Prod.mk.inj (Except.ok.inj hq)
        obtain ⟨htokens, hseen⟩ := Input.mk.inj hinput
        exact ⟨s', tokens', by rw [htoken, htokens], hviews', hseen.symm, hfault⟩
      · cases hq

theorem atSymbol_of_faults (hviews : Views s.state.curToken s.tokens tokens)
    (hfault : Faults (parseSymbolDirective op) s) : AtSymbol (.keyword "symbol" :: tokens) := by
  obtain ⟨s₁, tokens₁, rfl, hviews₁, -, hfault⟩ := faults_of_parseToken_bind rfl hviews hfault
  refine ⟨tokens₁, rfl, fun name hname ↦ ?_⟩
  have hvar := (head?_var_iff hviews₁).mp ⟨name, hname⟩
  rcases faults_bind_iff.mp hfault with hfault | ⟨attr, s₂, hrun, hfault⟩
  · exact (faults_parseVariable_iff op false hviews₁).mp hfault hvar
  · obtain ⟨tokens₂, hviews₂, -⟩ := run_of_run (sim_parseVariable op false s₁ tokens₁ hviews₁) hrun
    obtain ⟨s₃, -, -, -, -, hfault⟩ := faults_of_parseToken_bind rfl hviews₂ hfault
    cases attr with
    | attr i => exact not_faults_pure _ hfault
    | operand i | result i | successor i | region i => exact not_faults_error _ hfault

/-- A directive that is a keyword by itself. -/
theorem not_faults_keyword (bind : Seen → Except FormatError Seen) (element : Element) :
    ¬ Faults (do bindSeen bind; return element) s := by
  rw [faults_bind_iff]
  rintro (hfault | ⟨_, _, -, hfault⟩)
  · exact not_faults_bindSeen bind hfault
  · exact not_faults_pure element hfault

/-- Nothing is consumed under a false guard. -/
theorem not_faults_guard {β : Type} {c : Prop} [Decidable c] (hc : c) (message : String)
    (p : FormatParser β) :
    ¬ Faults (if c then emitError message >>= fun (_ : PUnit) ↦ p else p) s := by
  rw [if_pos hc, faults_bind_iff]
  rintro (hfault | ⟨_, _, hrun, -⟩)
  · exact not_faults_error _ hfault
  · cases hrun

theorem faults_of_consumeToken_bind {β : Type} {f : Unit → FormatParser β}
    (hviews : Views s.state.curToken s.tokens tokens) (hkind : s.state.curToken.kind ≠ .eof)
    (herror : s.state.curToken.kind.isError = false) (hfault : Faults (consumeToken >>= f) s) :
    ∃ s' tokens', tokens = formatToken s.state.curToken :: tokens' ∧
      Views s'.state.curToken s'.tokens tokens' ∧ s'.state.seen = s.state.seen ∧
      Faults (f ()) s' := by
  cases hviews with
  | eof hkind' => exact absurd hkind' hkind
  | error herror' =>
    rw [herror] at herror'
    contradiction
  | @cons _ _ next rest tokens _ _ htakes hlex hnext =>
    rw [Faults, run_consumeToken_bind hkind herror hlex] at hfault
    exact ⟨⟨rest, { s.state with curToken := next }⟩, tokens, rfl, hnext, rfl, hfault⟩

theorem faults_of_parseDirective {self : Bool → FormatParser Item} {isTopLevel : Bool}
    (hviews : Views s.state.curToken s.tokens tokens)
    (hkeyword : s.state.curToken.kind.isKeyword = true)
    (hfault : Faults (parseDirective op self isTopLevel) s) :
    ∃ s' tokens', Views s'.state.curToken s'.tokens tokens' ∧ s'.state.seen = s.state.seen ∧
      (AtSymbol tokens ∨
        tokens = .keyword "type" :: tokens' ∧ Faults (parseTypeDirective op self isTopLevel) s' ∨
        tokens = .keyword "functional-type" :: tokens' ∧
          Faults (parseFunctionalTypeDirective op self isTopLevel) s') := by
  have hnot : s.state.curToken.kind ≠ .eof ∧ s.state.curToken.kind.isError = false := by
    generalize s.state.curToken.kind = kind at hkeyword
    cases kind <;> first | contradiction | exact ⟨by decide, rfl⟩
  unfold parseDirective at hfault
  rw [Faults, run_curToken_bind] at hfault
  obtain ⟨s', tokens', htokens, hviews', hseen, hfault⟩ :=
    faults_of_consumeToken_bind hviews hnot.1 hnot.2 hfault
  rw [formatToken_of_isKeyword hkeyword] at htokens
  refine ⟨s', tokens', hviews', hseen, ?_⟩
  split at hfault
  case h_3 hkind => exact .inr (.inr ⟨by rw [htokens, hkind]; rfl, hfault⟩)
  case h_7 hkind => exact .inr (.inl ⟨by rw [htokens, hkind]; rfl, hfault⟩)
  case h_8 hkind =>
    rw [hkind] at htokens
    exact .inl (htokens ▸ atSymbol_of_faults hviews' hfault)
  case h_9 => exact absurd hfault (not_faults_error _)
  all_goals exact absurd hfault (not_faults_keyword _ _)

theorem faults_of_parseElement {fuel : ℕ} {isTopLevel : Bool}
    (hviews : Views s.state.curToken s.tokens tokens)
    (hfault : Faults (parseElement md op (fuel + 1) isTopLevel) s) :
    s.state.curToken.kind.isKeyword = true ∧
        Faults (parseDirective op (parseElement md op fuel) isTopLevel) s ∨
      s.state.curToken.kind = .lParen ∧
        Faults (parseOptional md op (parseElement md op fuel) fuel isTopLevel) s := by
  unfold parseElement at hfault
  rw [Faults, run_curToken_bind] at hfault
  split at hfault
  · rename_i hkeyword
    by_contra hnot
    have hdirective := fun h ↦ hnot (.inl ⟨hkeyword, h⟩)
    exact not_faults_map hdirective hfault
  · split at hfault
    case h_1 hkind =>
      exact absurd hfault (not_faults_map (not_faults_parseLiteral hviews hkind))
    case h_2 hkind => exact .inr ⟨hkind, hfault⟩
    case h_3 hkind =>
      have hvar := fun h ↦ (faults_parseVariable_iff op isTopLevel hviews).mp h hkind
      exact absurd hfault (not_faults_map hvar)
    case h_4 => exact absurd hfault (not_faults_error _)

/-- The argument of a directive. -/
theorem atSymbol_of_faults_parseElement {fuel : ℕ} (hviews : Views s.state.curToken s.tokens tokens)
    (hfault : Faults (parseElement md op fuel false) s) : AtSymbol tokens := by
  cases fuel with
  | zero => exact absurd hfault (not_faults_error _)
  | succ fuel =>
    rcases faults_of_parseElement hviews hfault with ⟨hkeyword, hfault⟩ | ⟨hkind, hfault⟩
    · obtain ⟨s', tokens', -, -, hsymbol | ⟨-, hfault⟩ | ⟨-, hfault⟩⟩ :=
        faults_of_parseDirective hviews hkeyword hfault
      · exact hsymbol
      · exact absurd hfault (not_faults_guard (show (!false) = true from rfl) _ _)
      · exact absurd hfault (not_faults_guard (show (!false) = true from rfl) _ _)
    · exact absurd hfault (not_faults_guard (show (!false) = true from rfl) _ _)

theorem atSymbol_of_faults_typeOperand {fuel : ℕ} (hviews : Views s.state.curToken s.tokens tokens)
    (hfault : Faults (parseTypeDirectiveOperand op (parseElement md op fuel)) s) :
    AtSymbol tokens := by
  rcases faults_bind_iff.mp hfault with hfault | ⟨item, s₁, -, hfault⟩
  · exact atSymbol_of_faults_parseElement hviews hfault
  · rcases faults_bind_iff.mp hfault with hfault | ⟨arg, s₂, -, hfault⟩
    · exact absurd hfault (not_faults_lift _)
    · rcases faults_bind_iff.mp hfault with hfault | ⟨_, s₃, -, hfault⟩
      · exact absurd hfault (not_faults_bindSeen _)
      · exact absurd hfault (not_faults_pure _)

/-- What has been read as the argument of a type directive. -/
theorem read_typeOperand {fuel : ℕ} (hviews : Views s.state.curToken s.tokens tokens)
    (hfuel : tokens.length < fuel) {arg : TypeArg} {s' : Input UInt8 ParserState}
    (hrun : (parseTypeDirectiveOperand op (parseElement md op fuel)).run s = .ok (arg, s')) :
    ∃ text tokens', Views s'.state.curToken s'.tokens tokens' ∧ tokens = text ++ tokens' ∧
      arg.Spells op text ∧ arg.read op s.state.seen = .ok s'.state.seen := by
  obtain ⟨tokens', hviews', hq⟩ := run_of_run
    (sim_parseTypeDirectiveOperand (sim_parseElement md op fuel) s tokens hviews) hrun
  have hsat := sat_parseTypeDirectiveOperand
    (nests_parseElement md op fuel false ⟨tokens, s.state.seen⟩ hfuel)
  obtain ⟨text, -, htokens, hspells⟩ := hsat.ok hq
  refine ⟨text, tokens', hviews', htokens, hspells, ?_⟩
  obtain ⟨fuel, rfl⟩ := Nat.exists_eq_succ_of_ne_zero (Nat.ne_of_gt (Nat.zero_lt_of_lt hfuel))
  have hread : (OpFormat.parseTypeDirectiveOperand op (OpFormat.parseElement md op _)).run _ = _ :=
    reads_parseTypeDirectiveOperand hspells fuel tokens' s.state.seen
  have hinput : tokens = text ++ tokens' := htokens
  rw [← hinput, hq] at hread
  cases hseen : arg.read op s.state.seen with
  | ok seen =>
    rw [hseen] at hread
    obtain ⟨-, hstate⟩ := Prod.mk.inj (Except.ok.inj hread)
    rw [(Input.mk.inj hstate).2]
  | error e =>
    rw [hseen] at hread
    cases hread

theorem inElement_of_faults_parseDirective {fuel : ℕ}
    (hviews : Views s.state.curToken s.tokens tokens) (hfuel : tokens.length < fuel + 1)
    (hkeyword : s.state.curToken.kind.isKeyword = true)
    (hfault : Faults (parseDirective op (parseElement md op fuel) true) s) :
    InElement op s.state.seen tokens := by
  obtain ⟨s₁, tokens₁, hviews₁, hseen₁, hsymbol | ⟨rfl, hfault⟩ | ⟨rfl, hfault⟩⟩ :=
    faults_of_parseDirective hviews hkeyword hfault
  · exact .symbol hsymbol
  · have hfault : Faults (parseToken .lParen _ >>= fun _ ↦ _) s₁ := hfault
    obtain ⟨s₂, tokens₂, rfl, hviews₂, hseen₂, hfault⟩ :=
      faults_of_parseToken_bind rfl hviews₁ hfault
    rw [List.length_cons, List.length_cons] at hfuel
    rcases faults_bind_iff.mp hfault with hfault | ⟨arg, s₃, hrun, hfault⟩
    · exact .type (atSymbol_of_faults_typeOperand hviews₂ hfault)
    · obtain ⟨text, tokens₃, hviews₃, -, -, -⟩ := read_typeOperand hviews₂ (by omega) hrun
      obtain ⟨s₄, -, -, -, -, hfault⟩ := faults_of_parseToken_bind rfl hviews₃ hfault
      exact absurd hfault (not_faults_pure _)
  · have hfault : Faults (parseToken .lParen _ >>= fun _ ↦ _) s₁ := hfault
    obtain ⟨s₂, tokens₂, rfl, hviews₂, hseen₂, hfault⟩ :=
      faults_of_parseToken_bind rfl hviews₁ hfault
    rw [List.length_cons, List.length_cons] at hfuel
    rcases faults_bind_iff.mp hfault with hfault | ⟨inputs, s₃, hrun, hfault⟩
    · exact .inputs (atSymbol_of_faults_typeOperand hviews₂ hfault)
    · obtain ⟨text, tokens₃, hviews₃, rfl, hspells, hread⟩ :=
        read_typeOperand hviews₂ (by omega) hrun
      obtain ⟨s₄, tokens₄, rfl, hviews₄, hseen₄, hfault⟩ :=
        faults_of_parseToken_bind rfl hviews₃ hfault
      rw [List.length_append, List.length_cons] at hfuel
      rw [hseen₂, hseen₁] at hread
      rcases faults_bind_iff.mp hfault with hfault | ⟨outputs, s₅, hrun, hfault⟩
      · exact .outputs hspells hread (atSymbol_of_faults_typeOperand hviews₄ hfault)
      · obtain ⟨-, tokens₅, hviews₅, -, -, -⟩ := read_typeOperand hviews₄ (by omega) hrun
        obtain ⟨s₆, -, -, -, -, hfault⟩ := faults_of_parseToken_bind rfl hviews₅ hfault
        exact absurd hfault (not_faults_pure _)

/-! ## Groups -/

theorem not_faults_parseAnchor (group : Group) (hviews : Views s.state.curToken s.tokens tokens) :
    ¬ Faults (parseAnchor group) s := by
  intro hfault
  unfold parseAnchor at hfault
  rw [Faults, run_curToken_bind] at hfault
  split at hfault
  · rename_i hcaret
    by_cases hanchor : group.anchorIdx.isSome = true
    · exact not_faults_guard hanchor _ _ hfault
    · rw [if_neg hanchor] at hfault
      obtain ⟨_, _, -, -, -, hfault⟩ := faults_of_consumeToken_bind hviews
        (by rw [hcaret]; decide) (by rw [hcaret]; rfl) hfault
      exact not_faults_pure _ hfault
  · exact not_faults_pure _ hfault

/-- Only an element of a group can have a fault in it. -/
theorem faults_of_parseOptionalChildElement {fuel : ℕ} {group : Group}
    (hviews : Views s.state.curToken s.tokens tokens)
    (hfault : Faults (parseOptionalChildElement md op (parseElement md op fuel) group) s) :
    Faults (parseElement md op fuel true) s := by
  rcases faults_bind_iff.mp hfault with hfault | ⟨item, s₁, hrun, hfault⟩
  · exact hfault
  · obtain ⟨tokens₁, hviews₁, -⟩ := run_of_run (sim_parseElement md op fuel true s tokens hviews) hrun
    rcases faults_bind_iff.mp hfault with hfault | ⟨isAnchor, s₂, -, hfault⟩
    · exact absurd hfault (not_faults_parseAnchor group hviews₁)
    · cases item with
      | optional elements anchor => exact absurd hfault (not_faults_error _)
      | element child =>
        rcases faults_bind_iff.mp hfault with hfault | ⟨_, s₃, -, hfault⟩
        · exact absurd hfault (not_faults_lift _)
        · exact absurd hfault (not_faults_pure _)

/-- What has been parsed as an element of a group; it has been read if no caret is left. -/
theorem read_child {fuel : ℕ} {group group' : Group} {s' : Input UInt8 ParserState}
    {tokens' : List FormatToken} (hfuel : tokens.length < fuel)
    (hq : (OpFormat.parseOptionalChildElement md op (OpFormat.parseElement md op fuel) group).run
      ⟨tokens, s.state.seen⟩ = .ok (group', ⟨tokens', s'.state.seen⟩)) :
    ∃ child isAnchor text, text ≠ [] ∧ child.Spells op text ∧ group' = group.push child isAnchor ∧
      (isAnchor = true → group.anchorIdx = none) ∧
      tokens = text ++ (if isAnchor then [.caret] else []) ++ tokens' ∧
      (tokens'.head? ≠ some .caret →
        readChild md op isAnchor child s.state.seen = .ok s'.state.seen) := by
  have hnests := nests_parseElement md op fuel
  obtain ⟨child, isAnchor, text, hne, hspells, rfl, htokens⟩ :=
    (@sat_parseOptionalChildElement md op _ ⟨tokens, s.state.seen⟩ fuel hnests hfuel group).ok hq
  have hanchor : isAnchor = true → group.anchorIdx = none := by
    rintro rfl
    exact htokens.1
  have htext : tokens = text ++ (if isAnchor then [.caret] else []) ++ tokens' := by
    cases isAnchor with
    | true => simpa using htokens.2
    | false => simpa using htokens
  refine ⟨child, isAnchor, text, hne, hspells, rfl, hanchor, htext, fun hcaret ↦ ?_⟩
  have hpos := List.length_pos_iff.mpr hne
  have hlength := congrArg List.length htext
  simp only [List.length_append] at hlength
  obtain ⟨fuel, rfl⟩ : ∃ n, fuel = n + 2 := ⟨fuel - 2, by omega⟩
  have hread : (OpFormat.parseOptionalChildElement md op _ group).run _ = _ :=
    reads_parseOptionalChildElement hspells isAnchor hanchor fuel (fun _ ↦ hcaret) s.state.seen
  rw [← htext, hq] at hread
  cases hseen : readChild md op isAnchor child s.state.seen with
  | ok seen =>
    rw [hseen] at hread
    obtain ⟨-, hstate⟩ := Prod.mk.inj (Except.ok.inj hread)
    rw [(Input.mk.inj hstate).2]
  | error e =>
    rw [hseen] at hread
    cases hread

end Sound

section Loop

variable {md : Metadata} {op : OperationOp} {seen : Seen} {tokens : List FormatToken}

/-- From the element `k` of a group on, the parser comes to such a directive behind elements that
can be read. -/
def ReachesInGroup (md : Metadata) (op : OperationOp) (k : ℕ) (anchor : Option ℕ) (seen : Seen)
    (tokens : List FormatToken) : Prop :=
  ∃ elements anchor' text rest seen', SpellsChildren op k anchor anchor' elements text ∧
    tokens = text ++ rest ∧ readChildren md op anchor' k elements seen = .ok seen' ∧
    Reaches md op seen' rest

theorem Reaches.inGroup (h : Reaches md op seen tokens) (k : ℕ) (anchor : Option ℕ) :
    ReachesInGroup md op k anchor seen tokens :=
  ⟨[], anchor, [], tokens, seen, .nil k anchor, rfl, rfl, h⟩

theorem ReachesInGroup.head {k : ℕ} {anchor : Option ℕ}
    (h : ReachesInGroup md op k anchor seen tokens) :
    tokens.head? ≠ some .caret ∧ tokens.head? ≠ some .rparen := by
  obtain ⟨elements, anchor', text, rest, seen', hspells, rfl, -, hreaches⟩ := h
  cases hspells with
  | nil => exact hreaches.head
  | cons helement _ =>
    rw [List.append_assoc]
    exact helement.head _
  | anchor helement _ =>
    rw [List.append_assoc]
    exact helement.head _

/-- The anchor of a group is not an index that no element has yet, unless it comes later. -/
theorem SpellsChildren.anchor_beq {k : ℕ} {anchor anchor' : Option ℕ} {elements : List Element}
    {text : List FormatToken} (h : SpellsChildren op (k + 1) anchor anchor' elements text)
    (hindex : ∀ j ∈ anchor, j < k) : (anchor' == some k) = false := by
  rw [beq_eq_false_iff_ne]
  intro hanchor
  rcases h.anchor_eq with hsame | ⟨-, j, hj, hlater⟩
  · exact absurd (hindex k (hsame ▸ hanchor)) (Nat.lt_irrefl k)
  · have hjk : j = k := Option.some.inj (hlater ▸ hanchor)
    omega

theorem ReachesInGroup.push {k : ℕ} {anchor : Option ℕ} {child : Element} {isAnchor : Bool}
    {text rest : List FormatToken} {seen' : Seen} (hspells : child.Spells op text)
    (hanchor : isAnchor = true → anchor = none) (hindex : ∀ j ∈ anchor, j < k)
    (hread : readChild md op isAnchor child seen = .ok seen')
    (h : ReachesInGroup md op (k + 1) (if isAnchor then some k else anchor) seen' rest) :
    ReachesInGroup md op k anchor seen
      (text ++ (if isAnchor then [.caret] else []) ++ rest) := by
  obtain ⟨elements, anchor', text', rest', seen'', hchildren, rfl, hreads, hreaches⟩ := h
  cases isAnchor with
  | true =>
    obtain rfl := hanchor rfl
    rw [if_pos rfl] at hchildren
    have hsome : (anchor' == some k) = true := by
      rcases hchildren.anchor_eq with hsame | ⟨hnone, -⟩
      · simp [hsame]
      · cases hnone
    refine ⟨child :: elements, anchor', text ++ .caret :: text', rest', seen'',
      .anchor hspells hchildren, by simp, ?_, hreaches⟩
    rw [readChildren_cons, hsome, hread]
    exact hreads
  | false =>
    have hnot : (anchor' == some k) = false := SpellsChildren.anchor_beq hchildren hindex
    refine ⟨child :: elements, anchor', text ++ text', rest', seen'',
      .cons hspells hchildren, by simp, ?_, hreaches⟩
    rw [readChildren_cons, hnot, hread]
    exact hreads

theorem Group.index_lt_push {group : Group} (child : Element) (isAnchor : Bool)
    (hindex : ∀ j ∈ group.anchorIdx, j < group.elements.length) :
    ∀ j ∈ (group.push child isAnchor).anchorIdx,
      j < (group.push child isAnchor).elements.length := by
  intro j hj
  simp only [Group.push, List.length_append, List.length_singleton] at hj ⊢
  cases isAnchor with
  | true =>
    have hj' : group.elements.length = j := Option.some.inj hj
    omega
  | false => exact Nat.lt_succ_of_lt (hindex j hj)

/-- The loop over the elements of a group: the induction is on its rounds. -/
theorem reachesInGroup_of_faults {fuel : ℕ}
    (hself : ∀ {s : Input UInt8 ParserState} {tokens : List FormatToken},
      Views s.state.curToken s.tokens tokens → tokens.length < fuel →
      Faults (parseElement md op fuel true) s → Reaches md op s.state.seen tokens)
    {n : ℕ} {group : Group} {s : Input UInt8 ParserState}
    (hviews : Views s.state.curToken s.tokens tokens) (hfuel : tokens.length < fuel)
    (hindex : ∀ j ∈ group.anchorIdx, j < group.elements.length)
    (hfault : Faults (parseOptionalElements md op (parseElement md op fuel) n group) s) :
    ReachesInGroup md op group.elements.length group.anchorIdx s.state.seen tokens := by
  induction n generalizing group s tokens with
  | zero => exact absurd hfault (not_faults_error _)
  | succ n ih =>
    rcases faults_bind_iff.mp hfault with hfault | ⟨group', s', hrun, hfault⟩
    · exact (hself hviews hfuel (faults_of_parseOptionalChildElement hviews hfault)).inGroup _ _
    · obtain ⟨tokens', hviews', hq⟩ := run_of_run
        (sim_parseOptionalChildElement (sim_parseElement md op fuel) group s tokens hviews) hrun
      rw [Faults, run_curToken_bind] at hfault
      split at hfault
      · exact absurd hfault (not_faults_pure _)
      · obtain ⟨child, isAnchor, text, hne, hspells, rfl, hanchor, rfl, hread⟩ :=
          read_child hfuel hq
        have hpos := List.length_pos_iff.mpr hne
        simp only [List.length_append] at hfuel
        have hlater : ReachesInGroup md op (group.elements.length + 1)
            (if isAnchor then some group.elements.length else group.anchorIdx) s'.state.seen
            tokens' := by
          have hpush := ih hviews' (by omega) (Group.index_lt_push child isAnchor hindex) hfault
          simpa [Group.push] using hpush
        exact hlater.push hspells hanchor hindex (hread hlater.head.1)

end Loop

section Whole

variable {md : Metadata} {op : OperationOp} {s : Input UInt8 ParserState}
variable {tokens : List FormatToken}

theorem formatToken_of_lParen {token : Token} (h : token.kind = .lParen) :
    formatToken token = .lparen := by
  rw [formatToken, h]

/-- A group is closed by a parenthesis, which is consumed without a fault. -/
theorem rParen_of_parseOptionalElements {fuel : ℕ} {group : Group} {s' : Input UInt8 ParserState}
    (hviews : Views s.state.curToken s.tokens tokens) (hfuel : tokens.length < fuel)
    (hrun : (parseOptionalElements md op (parseElement md op fuel) fuel ⟨[], [], none⟩).run s =
      .ok (group, s')) :
    ∃ tokens', Views s'.state.curToken s'.tokens tokens' ∧ s'.state.curToken.kind = .rParen := by
  obtain ⟨tokens', hviews', hq⟩ := run_of_run
    (sim_parseOptionalElements (sim_parseElement md op fuel) fuel _ s tokens hviews) hrun
  have hsat := @sat_parseOptionalElements md op _ ⟨tokens, s.state.seen⟩ fuel
    (nests_parseElement md op fuel) fuel hfuel hfuel ⟨[], [], none⟩
  obtain ⟨hhead, -⟩ := hsat.ok hq
  exact ⟨tokens', hviews',
    (head?_of_views hviews' (formatToken_eq_iff rfl) (by decide) rfl).mp hhead⟩

theorem reachesInGroup_of_faults_parseOptional {fuel : ℕ}
    (hself : ∀ {s : Input UInt8 ParserState} {tokens : List FormatToken},
      Views s.state.curToken s.tokens tokens → tokens.length < fuel →
      Faults (parseElement md op fuel true) s → Reaches md op s.state.seen tokens)
    (hviews : Views s.state.curToken s.tokens tokens) (hfuel : tokens.length < fuel + 1)
    (hkind : s.state.curToken.kind = .lParen)
    (hfault : Faults (parseOptional md op (parseElement md op fuel) fuel true) s) :
    ∃ tokens', tokens = .lparen :: tokens' ∧
      ReachesInGroup md op 0 none s.state.seen tokens' := by
  have hfault : Faults (consumeToken >>= fun _ ↦ _) s := hfault
  obtain ⟨s₁, tokens₁, rfl, hviews₁, hseen₁, hfault⟩ := faults_of_consumeToken_bind hviews
    (by rw [hkind]; decide) (by rw [hkind]; rfl) hfault
  rw [List.length_cons] at hfuel
  have hless : tokens₁.length < fuel := by omega
  refine ⟨tokens₁, by rw [formatToken_of_lParen hkind], ?_⟩
  rcases faults_bind_iff.mp hfault with hfault | ⟨group, s₂, hrun, hfault⟩
  · have hgroup := reachesInGroup_of_faults hself hviews₁ hless (by simp) hfault
    rwa [hseen₁] at hgroup
  · obtain ⟨tokens₂, hviews₂, hrParen⟩ := rParen_of_parseOptionalElements hviews₁ hless hrun
    obtain ⟨s₃, tokens₃, -, hviews₃, -, hfault⟩ := faults_of_consumeToken_bind hviews₂
      (by rw [hrParen]; decide) (by rw [hrParen]; rfl) hfault
    obtain ⟨s₄, tokens₄, -, -, -, hfault⟩ := faults_of_parseToken_bind rfl hviews₃ hfault
    exact absurd hfault (not_faults_lift _)

theorem reaches_of_faults_parseElement {fuel : ℕ}
    (hviews : Views s.state.curToken s.tokens tokens) (hfuel : tokens.length < fuel)
    (hfault : Faults (parseElement md op fuel true) s) : Reaches md op s.state.seen tokens := by
  induction fuel generalizing s tokens with
  | zero => exact absurd hfuel (Nat.not_lt_zero _)
  | succ fuel ih =>
    rcases faults_of_parseElement hviews hfault with ⟨hkeyword, hfault⟩ | ⟨hkind, hfault⟩
    · exact .element (inElement_of_faults_parseDirective hviews hfuel hkeyword hfault)
    · obtain ⟨_, rfl, elements, anchor, text, rest, seen', hspells, rfl, hread, hreaches⟩ :=
        reachesInGroup_of_faults_parseOptional ih hviews hfuel hkind hfault
      exact .group hspells hread hreaches

/-- What has been read as an item. -/
theorem read_item {fuel : ℕ} {item : Item} {s' : Input UInt8 ParserState}
    (hviews : Views s.state.curToken s.tokens tokens) (hfuel : tokens.length < fuel)
    (hrun : (parseElement md op fuel true).run s = .ok (item, s')) :
    ∃ text tokens', text ≠ [] ∧ item.Spells op text ∧ tokens = text ++ tokens' ∧
      Views s'.state.curToken s'.tokens tokens' ∧
      item.read md op s.state.seen = .ok s'.state.seen := by
  obtain ⟨tokens', hviews', hq⟩ :=
    run_of_run (sim_parseElement md op fuel true s tokens hviews) hrun
  obtain ⟨text, hne, htokens, hspells⟩ :=
    (nests_parseElement md op fuel true ⟨tokens, s.state.seen⟩ hfuel).ok hq
  have hinput : tokens = text ++ tokens' := htokens
  refine ⟨text, tokens', hne, hspells, hinput, hviews', ?_⟩
  have hlength := congrArg List.length hinput
  rw [List.length_append] at hlength
  have hread : (OpFormat.parseElement md op fuel true).run _ = _ :=
    reads_item md hspells (by omega) tokens' s.state.seen
  rw [← hinput, hq] at hread
  cases hseen : item.read md op s.state.seen with
  | ok seen =>
    rw [hseen] at hread
    obtain ⟨-, hstate⟩ := Prod.mk.inj (Except.ok.inj hread)
    rw [(Input.mk.inj hstate).2]
  | error e =>
    rw [hseen] at hread
    cases hread

theorem reachesBehind_of_faults {fuel : ℕ} (hviews : Views s.state.curToken s.tokens tokens)
    (hfuel : tokens.length + 1 < fuel) (hfault : Faults (parseElements md op fuel) s) :
    ReachesBehind md op s.state.seen tokens := by
  induction fuel generalizing s tokens with
  | zero => exact absurd hfuel (Nat.not_lt_zero _)
  | succ fuel ih =>
    unfold parseElements at hfault
    rw [Faults, run_curToken_bind] at hfault
    split at hfault
    · exact absurd hfault (not_faults_pure _)
    · rcases faults_bind_iff.mp hfault with hfault | ⟨item, s₁, hrun, hfault⟩
      · have hreaches := reaches_of_faults_parseElement hviews (by omega) hfault
        exact ⟨[], [], tokens, s.state.seen, rfl, rfl, rfl, hreaches⟩
      · obtain ⟨text, tokens₁, hne, hspells, rfl, hviews₁, hread⟩ :=
          read_item hviews (by omega) hrun
        have hpos := List.length_pos_iff.mpr hne
        rw [List.length_append] at hfuel
        rcases faults_bind_iff.mp hfault with hfault | ⟨items, s₂, -, hfault⟩
        · obtain ⟨items, text', rest, seen', hitems, rfl, hreads, hreaches⟩ :=
            ih hviews₁ (by omega) hfault
          refine ⟨item :: items, text ++ text', rest, seen', ⟨text, text', hspells, hitems, rfl⟩,
            (List.append_assoc ..).symm, ?_, hreaches⟩
          rw [readItems, hread]
          exact hreads
        · exact absurd hfault (not_faults_pure _)

end Whole

/-! ## A symbol directive without a variable is a fault -/

section Complete

variable {md : Metadata} {op : OperationOp} {s : Input UInt8 ParserState}
variable {tokens : List FormatToken}

theorem faults_map {α β : Type} {p : FormatParser α} {g : α → β} (h : Faults p s) :
    Faults (g <$> p) s := by
  rw [← bind_pure_comp, faults_bind_iff]
  exact .inl h

/-- Once a token that is not an error is consumed, the fault of the rest is one of the whole. -/
theorem faults_consumeToken_bind {β : Type} {f : Unit → FormatParser β} {token : FormatToken}
    (hviews : Views s.state.curToken s.tokens (token :: tokens)) (htoken : token ≠ .error)
    (hf : ∀ s' : Input UInt8 ParserState, Views s'.state.curToken s'.tokens tokens →
      s'.state.seen = s.state.seen → Faults (f ()) s') : Faults (consumeToken >>= f) s := by
  generalize htokens : token :: tokens = tokens' at hviews
  cases hviews with
  | eof hkind => cases htokens
  | error herror => exact absurd (List.cons.inj htokens).1 htoken
  | @cons _ _ next rest _ hkind herror htakes hlex hnext =>
    obtain ⟨-, rfl⟩ := List.cons.inj htokens
    rw [Faults, run_consumeToken_bind hkind herror hlex]
    exact hf ⟨rest, { s.state with curToken := next }⟩ hnext rfl

theorem faults_parseToken_bind {β : Type} {kind : Kind} {expected : FormatToken}
    {message : String} {f : Unit → FormatParser β} (hkind : punctuationToken kind = some expected)
    (hviews : Views s.state.curToken s.tokens (expected :: tokens))
    (hf : ∀ s' : Input UInt8 ParserState, Views s'.state.curToken s'.tokens tokens →
      s'.state.seen = s.state.seen → Faults (f ()) s') :
    Faults (parseToken kind message >>= f) s :=
  faults_bind_of_reads (sim_parseToken hkind message s _ hviews)
    (reads_parseToken expected message tokens s.state.seen) hf

theorem head_of_views {token : Token} {ptr : Ptr} {ahead : FormatToken}
    (hviews : Views token ptr (ahead :: tokens)) (hahead : ahead ≠ .error) :
    formatToken token = ahead := by
  rcases eq_formatToken_of_head? hviews rfl with heq | heq
  · exact heq.symm
  · exact absurd heq hahead

theorem kind_of_views {token : Token} {ptr : Ptr} {kind : Kind} (hkeyword : kind.isKeyword = true)
    (hviews : Views token ptr (.keyword (keywordName kind) :: tokens)) : token.kind = kind := by
  have htoken := head_of_views hviews (by simp)
  obtain ⟨kind', loc, spelling⟩ := token
  cases kind <;> cases kind' <;> first | rfl | contradiction | simp [formatToken, keywordName] at htoken

theorem faults_parseElement_of_isKeyword {fuel : ℕ} {isTopLevel : Bool}
    (hkeyword : s.state.curToken.kind.isKeyword = true)
    (h : Faults (parseDirective op (parseElement md op fuel) isTopLevel) s) :
    Faults (parseElement md op (fuel + 1) isTopLevel) s := by
  unfold parseElement
  rw [Faults, run_curToken_bind, if_pos hkeyword]
  exact faults_map h

theorem faults_of_atSymbol (hviews : Views s.state.curToken s.tokens tokens)
    (hsymbol : AtSymbol tokens) (fuel : ℕ) (isTopLevel : Bool) :
    Faults (parseElement md op (fuel + 1) isTopLevel) s := by
  obtain ⟨rest, rfl, hvar⟩ := hsymbol
  have hkind : s.state.curToken.kind = .kwSymbol := kind_of_views rfl hviews
  apply faults_parseElement_of_isKeyword (by rw [hkind]; rfl)
  unfold parseDirective
  rw [Faults, run_curToken_bind, hkind]
  apply faults_consumeToken_bind hviews (by simp)
  intro s₁ hviews₁ _
  apply faults_parseToken_bind rfl hviews₁
  intro s₂ hviews₂ _
  rw [faults_bind_iff]
  refine .inl ((faults_parseVariable_iff op false hviews₂).mpr fun hkind₂ ↦ ?_)
  obtain ⟨name, hname⟩ := (head?_var_iff hviews₂).mpr hkind₂
  exact hvar name hname

theorem faults_typeOperand_of_atSymbol (hviews : Views s.state.curToken s.tokens tokens)
    (hsymbol : AtSymbol tokens) (fuel : ℕ) :
    Faults (parseTypeDirectiveOperand op (parseElement md op (fuel + 1))) s := by
  unfold parseTypeDirectiveOperand
  rw [faults_bind_iff]
  exact .inl (faults_of_atSymbol hviews hsymbol fuel false)

theorem faults_of_inElement (hviews : Views s.state.curToken s.tokens tokens)
    (h : InElement op s.state.seen tokens) (fuel : ℕ) :
    Faults (parseElement md op (fuel + 2) true) s := by
  cases h with
  | symbol h => exact faults_of_atSymbol hviews h (fuel + 1) true
  | @type rest h =>
    have hkind : s.state.curToken.kind = .kwType := kind_of_views rfl hviews
    apply faults_parseElement_of_isKeyword (by rw [hkind]; rfl)
    unfold parseDirective
    rw [Faults, run_curToken_bind, hkind]
    apply faults_consumeToken_bind hviews (by simp)
    intro s₁ hviews₁ _
    apply faults_parseToken_bind rfl hviews₁
    intro s₂ hviews₂ _
    rw [faults_bind_iff]
    exact .inl (faults_typeOperand_of_atSymbol hviews₂ h fuel)
  | @inputs rest h =>
    have hkind : s.state.curToken.kind = .kwFunctionalType := kind_of_views rfl hviews
    apply faults_parseElement_of_isKeyword (by rw [hkind]; rfl)
    unfold parseDirective
    rw [Faults, run_curToken_bind, hkind]
    apply faults_consumeToken_bind hviews (by simp)
    intro s₁ hviews₁ _
    apply faults_parseToken_bind rfl hviews₁
    intro s₂ hviews₂ _
    rw [faults_bind_iff]
    exact .inl (faults_typeOperand_of_atSymbol hviews₂ h fuel)
  | @outputs inputs text rest seen' hinputs hread h =>
    have hkind : s.state.curToken.kind = .kwFunctionalType := kind_of_views rfl hviews
    apply faults_parseElement_of_isKeyword (by rw [hkind]; rfl)
    unfold parseDirective
    rw [Faults, run_curToken_bind, hkind]
    apply faults_consumeToken_bind hviews (by simp)
    intro s₁ hviews₁ hseen₁
    apply faults_parseToken_bind rfl hviews₁
    intro s₂ hviews₂ hseen₂
    have hq : (OpFormat.parseTypeDirectiveOperand op (OpFormat.parseElement md op (fuel + 1))).run
        ⟨text ++ .comma :: rest, s₂.state.seen⟩ = .ok (inputs, ⟨.comma :: rest, seen'⟩) := by
      have hreads : (OpFormat.parseTypeDirectiveOperand op
          (OpFormat.parseElement md op (fuel + 1))).run _ = _ :=
        reads_parseTypeDirectiveOperand hinputs fuel (.comma :: rest) s₂.state.seen
      rw [hreads, hseen₂, hseen₁, hread]
      rfl
    apply faults_bind_of_reads (sim_parseTypeDirectiveOperand (sim_parseElement md op (fuel + 1))
      s₂ _ hviews₂) hq
    intro s₃ hviews₃ _
    apply faults_parseToken_bind rfl hviews₃
    intro s₄ hviews₄ _
    rw [faults_bind_iff]
    exact .inl (faults_typeOperand_of_atSymbol hviews₄ h fuel)

/-- One round of the loop over the elements of a group. -/
theorem faults_parseOptionalElements_succ {fuel n : ℕ} {child : Element} {isAnchor : Bool}
    {text rest : List FormatToken} {group : Group} {seen' : Seen}
    (hviews : Views s.state.curToken s.tokens
      (text ++ (if isAnchor then [.caret] else []) ++ rest))
    (hspells : child.Spells op text) (hanchor : isAnchor = true → group.anchorIdx = none)
    (hread : readChild md op isAnchor child s.state.seen = .ok seen')
    (hcaret : rest.head? ≠ some .caret) (hrparen : rest.head? ≠ some .rparen)
    (hf : ∀ s' : Input UInt8 ParserState, Views s'.state.curToken s'.tokens rest →
      s'.state.seen = seen' →
      Faults (parseOptionalElements md op (parseElement md op (fuel + 2)) n
        (group.push child isAnchor)) s') :
    Faults (parseOptionalElements md op (parseElement md op (fuel + 2)) (n + 1) group) s := by
  have hq : (OpFormat.parseOptionalChildElement md op (OpFormat.parseElement md op (fuel + 2))
      group).run ⟨text ++ (if isAnchor then [.caret] else []) ++ rest, s.state.seen⟩ =
        .ok (group.push child isAnchor, ⟨rest, seen'⟩) := by
    have hreads : (OpFormat.parseOptionalChildElement md op
        (OpFormat.parseElement md op (fuel + 2)) group).run _ = _ :=
      reads_parseOptionalChildElement hspells isAnchor hanchor fuel (fun _ ↦ hcaret) s.state.seen
    rw [hreads, hread]
    rfl
  apply faults_bind_of_reads (sim_parseOptionalChildElement (sim_parseElement md op (fuel + 2))
    group s _ hviews) hq
  intro s' hviews' hseen'
  have hkind : s'.state.curToken.kind ≠ .rParen := fun hkind ↦
    hrparen ((head?_of_views hviews' (formatToken_eq_iff rfl) (by decide) rfl).mpr hkind)
  rw [Faults, run_curToken_bind, if_neg hkind]
  exact hf s' hviews' hseen'

theorem faults_of_reachesInGroup {fuel n k : ℕ} {anchor anchor' : Option ℕ}
    {elements : List Element} {text rest : List FormatToken} {seen' : Seen} {group : Group}
    (hspells : SpellsChildren op k anchor anchor' elements text)
    (hread : readChildren md op anchor' k elements s.state.seen = .ok seen')
    (hreaches : Reaches md op seen' rest)
    (hself : ∀ s' : Input UInt8 ParserState, Views s'.state.curToken s'.tokens rest →
      s'.state.seen = seen' → Faults (parseElement md op (fuel + 2) true) s')
    (hk : group.elements.length = k) (hanchor : group.anchorIdx = anchor)
    (hindex : ∀ j ∈ anchor, j < k) (hn : elements.length < n)
    (hviews : Views s.state.curToken s.tokens (text ++ rest)) :
    Faults (parseOptionalElements md op (parseElement md op (fuel + 2)) n group) s := by
  obtain ⟨n, rfl⟩ := Nat.exists_eq_succ_of_ne_zero (Nat.ne_of_gt (Nat.zero_lt_of_lt hn))
  induction hspells generalizing s group n with
  | nil k anchor =>
    obtain rfl := Except.ok.inj hread
    unfold parseOptionalElements parseOptionalChildElement
    rw [faults_bind_iff, faults_bind_iff]
    exact .inl (.inl (hself s hviews rfl))
  | @cons k anchor anchor' element elements first second helement helements ih =>
    obtain ⟨n, rfl⟩ : ∃ m, n = m + 1 :=
      Nat.exists_eq_succ_of_ne_zero (by simp at hn; omega)
    have hnot : (anchor' == some k) = false := SpellsChildren.anchor_beq helements hindex
    rw [readChildren_cons, hnot] at hread
    obtain ⟨seen₁, hchild, hchildren⟩ := bind_eq_ok.mp hread
    have hgroup : ReachesInGroup md op (k + 1) anchor seen₁ (second ++ rest) :=
      ⟨elements, anchor', second, rest, seen', helements, rfl, hchildren, hreaches⟩
    apply faults_parseOptionalElements_succ (by simpa using hviews) helement
      (by simp) hchild hgroup.head.1 hgroup.head.2
    intro s' hviews' hseen'
    exact ih (hseen' ▸ hchildren) (by simp [Group.push, hk]) (by simpa [Group.push] using hanchor)
      (fun j hj ↦ Nat.lt_succ_of_lt (hindex j hj)) hviews' _ (by simpa using hn)
  | @anchor k anchor' element elements first second helement helements ih =>
    obtain ⟨n, rfl⟩ : ∃ m, n = m + 1 :=
      Nat.exists_eq_succ_of_ne_zero (by simp at hn; omega)
    have hsome : (anchor' == some k) = true := by
      rcases helements.anchor_eq with hsame | ⟨hnone, -⟩
      · simp [hsame]
      · cases hnone
    rw [readChildren_cons, hsome] at hread
    obtain ⟨seen₁, hchild, hchildren⟩ := bind_eq_ok.mp hread
    have hgroup : ReachesInGroup md op (k + 1) (some k) seen₁ (second ++ rest) :=
      ⟨elements, anchor', second, rest, seen', helements, rfl, hchildren, hreaches⟩
    apply faults_parseOptionalElements_succ (by simpa using hviews) helement
      (fun _ ↦ hanchor) hchild hgroup.head.1 hgroup.head.2
    intro s' hviews' hseen'
    exact ih (hseen' ▸ hchildren) (by simp [Group.push, hk]) (by simp [Group.push, hk])
      (by simp) hviews' _ (by simpa using hn)

theorem faults_of_reaches {fuel : ℕ} {seen : Seen} (h : Reaches md op seen tokens)
    (hviews : Views s.state.curToken s.tokens tokens) (hseen : s.state.seen = seen)
    (hfuel : tokens.length < fuel) : Faults (parseElement md op fuel true) s := by
  induction h generalizing s fuel with
  | @element seen tokens helement =>
    have hlength := (Reaches.element helement : Reaches md op seen tokens).length
    obtain ⟨fuel, rfl⟩ : ∃ n, fuel = n + 2 := ⟨fuel - 2, by omega⟩
    subst hseen
    exact faults_of_inElement hviews helement fuel
  | @group seen seen' elements anchor text rest hspells hread hreaches ih =>
    have hlength := hreaches.length
    have helements := hspells.length_le
    rw [List.length_cons, List.length_append] at hfuel
    obtain ⟨fuel, rfl⟩ : ∃ n, fuel = n + 2 + 1 := ⟨fuel - 3, by omega⟩
    have hkind : s.state.curToken.kind = .lParen :=
      (formatToken_eq_iff rfl _).mp (head_of_views hviews (by simp))
    unfold parseElement
    rw [Faults, run_curToken_bind, hkind]
    apply faults_consumeToken_bind hviews (by simp)
    intro s₁ hviews₁ hseen₁
    rw [faults_bind_iff]
    left
    apply faults_of_reachesInGroup hspells (hseen₁.trans hseen ▸ hread) hreaches
      (fun s' hviews' hseen' ↦ ih hviews' hseen' (by omega)) rfl rfl (by simp) (by omega) hviews₁

theorem ne_eof_of_views {token : Token} {ptr : Ptr} (hviews : Views token ptr tokens)
    (hne : tokens ≠ []) : token.kind ≠ .eof := by
  intro hkind
  cases hviews with
  | eof => exact hne rfl
  | error herror =>
    rw [hkind] at herror
    contradiction
  | cons hkind' _ _ _ _ => exact hkind' hkind

theorem Item.Spells.ne_nil {item : Item} {text : List FormatToken} (h : item.Spells op text) :
    text ≠ [] := by
  rintro rfl
  cases item with
  | element element => exact (Element.Spells.head h [.caret]).1 rfl
  | optional elements anchor =>
    obtain ⟨-, body, -, hbody⟩ := h
    cases hbody

theorem faults_of_reachesBehind {fuel : ℕ} (h : ReachesBehind md op s.state.seen tokens)
    (hviews : Views s.state.curToken s.tokens tokens) (hfuel : tokens.length + 1 < fuel) :
    Faults (parseElements md op fuel) s := by
  obtain ⟨items, text, rest, seen', hitems, rfl, hread, hreaches⟩ := h
  induction items generalizing text s fuel with
  | nil =>
    obtain rfl := hitems
    obtain rfl := Except.ok.inj hread
    rw [List.nil_append] at hviews hfuel
    have hlength := hreaches.length
    have hkind := ne_eof_of_views hviews (List.length_pos_iff.mp (by omega))
    obtain ⟨fuel, rfl⟩ := Nat.exists_eq_succ_of_ne_zero (Nat.ne_of_gt (Nat.zero_lt_of_lt hfuel))
    unfold parseElements
    rw [Faults, run_curToken_bind, if_neg hkind]
    change Faults _ s
    rw [faults_bind_iff]
    exact .inl (faults_of_reaches hreaches hviews rfl (by omega))
  | cons item items ih =>
    obtain ⟨first, second, hitem, hitems, rfl⟩ := hitems
    have hpos := List.length_pos_iff.mpr (Item.Spells.ne_nil hitem)
    simp only [List.length_append] at hfuel
    rw [List.append_assoc] at hviews
    have hkind := ne_eof_of_views hviews (List.length_pos_iff.mp (by
      rw [List.length_append]
      omega))
    obtain ⟨fuel, rfl⟩ := Nat.exists_eq_succ_of_ne_zero (Nat.ne_of_gt (Nat.zero_lt_of_lt hfuel))
    obtain ⟨seen₁, hseen₁, hreads⟩ := bind_eq_ok.mp hread
    have hq : (OpFormat.parseElement md op fuel true).run ⟨first ++ (second ++ rest),
        s.state.seen⟩ = .ok (item, ⟨second ++ rest, seen₁⟩) := by
      have hitemRead : (OpFormat.parseElement md op fuel true).run _ = _ :=
        reads_item md hitem (by omega) (second ++ rest) s.state.seen
      rw [hitemRead, hseen₁]
      rfl
    unfold parseElements
    rw [Faults, run_curToken_bind, if_neg hkind]
    change Faults _ s
    apply faults_bind_of_reads (sim_parseElement md op fuel true s _ hviews) hq
    intro s₁ hviews₁ hseen
    rw [faults_bind_iff]
    left
    have hlength : (second ++ rest).length + 1 < fuel := by
      rw [List.length_append]
      omega
    exact ih second hitems hviews₁ hlength (hseen ▸ hreads)

theorem faults_parseElements_iff {fuel : ℕ} (hviews : Views s.state.curToken s.tokens tokens)
    (hfuel : tokens.length + 1 < fuel) :
    Faults (parseElements md op fuel) s ↔ ReachesBehind md op s.state.seen tokens :=
  ⟨reachesBehind_of_faults hviews hfuel, fun h ↦ faults_of_reachesBehind h hviews hfuel⟩

end Complete

/-! ## The whole format -/

/-- The parser ends, and it does so with a format or an error that it reports. -/
def SafelyParsed (md : Metadata) (op : OperationOp) (format : List UInt8) : Prop :=
  ∀ failure, parse md op format = .error failure →
    failure.isFault = false ∧ failure ≠ .error .outOfFuel

theorem not_outOfFuel {md : Metadata} {op : OperationOp} {s : Input UInt8 ParserState}
    {tokens : List FormatToken} {fuel : ℕ} (hviews : Views s.state.curToken s.tokens tokens)
    (hfuel : tokens.length + 1 < fuel) :
    (parseElements md op fuel).run s ≠ .error (.error .outOfFuel) := by
  intro hrun
  have hsim := sim_parseElements md op fuel s tokens hviews
  unfold SimAt Sat at hsim
  rw [hrun] at hsim
  have hsat : Sat (OpFormat.parseElements md op fuel) ⟨tokens, s.state.seen⟩ _ _ :=
    sat_parseElements md op hfuel
  unfold Sat at hsat
  rw [hsim _ rfl] at hsat
  exact hsat rfl

theorem verifyFormat_ne_outOfFuel (md : Metadata) (op : OperationOp) (items : List Item)
    (seen : Seen) : verifyFormat md op items seen ≠ .error .outOfFuel := by
  intro h
  obtain ⟨message, note, herror⟩ := plain_verifyFormat md op items seen _ h
  cases herror

/-- Parsing a format is safe if and only if the parser does not come to a directive `symbol` with
something else than a variable as its argument. -/
theorem parse_safe_iff (md : Metadata) (op : OperationOp) (format : List UInt8) :
    SafelyParsed md op format ↔ ¬ ReachesBehind md op .empty (formatTokens format) := by
  obtain ⟨token, rest, hlex, hviews, hlength⟩ := exists_formatTokens format
  have hfuel : (formatTokens format).length + 1 < format.length + 3 := by omega
  have hiff := @faults_parseElements_iff md op ⟨rest, ⟨token, .empty⟩⟩ _ _ hviews hfuel
  have hnot := @not_outOfFuel md op ⟨rest, ⟨token, .empty⟩⟩ _ _ hviews hfuel
  rw [← hiff, Faults]
  unfold SafelyParsed parse
  simp only [hlex]
  cases hrun : (parseElements md op (format.length + 3)).run ⟨rest, ⟨token, .empty⟩⟩ with
  | ok result =>
    obtain ⟨items, s⟩ := result
    simp only [reduceCtorEq, exists_false, not_false_eq_true, iff_true]
    intro failure hfailure
    change (verifyFormat md op items s.state.seen).mapError Failure.error = _ at hfailure
    cases hverify : verifyFormat md op items s.state.seen with
    | ok format =>
      rw [hverify] at hfailure
      cases hfailure
    | error e =>
      rw [hverify] at hfailure
      obtain rfl := Except.error.inj hfailure
      refine ⟨rfl, fun he ↦ ?_⟩
      rw [Failure.error.inj he] at hverify
      exact verifyFormat_ne_outOfFuel md op items s.state.seen hverify
  | error failure =>
    rw [hrun] at hnot
    constructor
    · rintro h ⟨fault, hfault⟩
      obtain rfl := Except.error.inj hfault
      have hfalse : true = false := (h _ rfl).1
      cases hfalse
    · intro h failure' hfailure'
      obtain rfl := Except.error.inj hfailure'
      refine ⟨?_, fun he ↦ hnot (congrArg _ he)⟩
      cases failure with
      | fault fault => exact absurd ⟨fault, rfl⟩ h
      | error e => rfl

theorem not_safelyParsed {md : Metadata} {op : OperationOp} {format : List UInt8} (fault : Fault)
    (h : (parse md op format).map (fun _ ↦ ()) = .error (.fault fault)) :
    ¬ SafelyParsed md op format := by
  intro hsafe
  cases hparse : parse md op format with
  | ok result =>
    rw [hparse] at h
    cases h
  | error failure =>
    rw [hparse] at h
    obtain rfl := Except.error.inj h
    have hfalse : true = false := (hsafe _ hparse).1
    cases hfalse

/-- Past the end, past an error, and a dollar that is not there. -/
theorem formatParsing_not_safe :
    ¬ SafelyParsed .base symbolOp (bytes "symbol(") ∧
    ¬ SafelyParsed .base symbolOp (bytes "symbol(#") ∧
    ¬ SafelyParsed .base symbolOp (bytes "type(symbol(callee))") := by
  refine ⟨?_, ?_, ?_⟩
  · exact not_safelyParsed .advance (by decide +kernel)
  · exact not_safelyParsed .advance (by decide +kernel)
  · exact not_safelyParsed .delimiter (by decide +kernel)

end DeclarativeMlir.Embed.FormatParsing

import DeclarativeMlir.Spec.ConstraintReading

/-!
# Round trips of type constraints

Which type constraints come back from their text. Numeric constraints with a list of widths are
printed without the angle brackets that their parser expects, `Function` is printed as `Any`, and
strings are printed without escapes. A parser never gives more than was printed, so that even in a
sorted list no other constraint can stand in for one that is lost.
-/

namespace DeclarativeMlir.Spec

open TokenParsing DialectAsmParser

/-! ## Strings -/

/-- Every character of the text stands for itself in a string literal. -/
def StringLexer.plain (strings : StringLexer) (text : String) : Bool :=
  text.toList.all strings.isPlain

section Strings

theorem dropWhile_isSpace_map (text : List Char) :
    (letters text).dropWhile isSpace = letters (text.dropWhile (· == ' ')) := by
  induction text with
  | nil => rfl
  | cons c text ih =>
    rw [letters] at ih ⊢
    rw [List.map_cons, List.dropWhile_cons, List.dropWhile_cons]
    cases hc : (c == ' ') with
    | true => simpa [isSpace, hc] using ih
    | false => simp [isSpace, hc, letters]

theorem takeChars_all (text : List Char) :
    takeChars (fun _ ↦ true) (letters text) = (text, []) := by
  have h := @takeChars_letters (fun _ ↦ true) text [] (by simp) (by simp)
  rwa [List.append_nil] at h

variable {strings : StringLexer}

theorem run_parseStringAttr (text : List Char) :
    (parseStringAttr strings).run (letters text) =
      (strings.lex (text.dropWhile (· == ' '))).map fun (value, rest) ↦
        (String.ofList value, letters rest) := by
  simp only [parseStringAttr, StateT.run, dropWhile_isSpace_map, takeChars_all, List.append_nil]
  rfl

theorem reads_string {text : String} (htext : strings.plain text = true) {rest : List Char}
    (hrest : rest.head? = some ',' ∨ rest.head? = some '>') (ctx : Context) :
    Reads (parseStringAttr strings) (lexemes ctx (quoted text)) text (letters rest) := by
  have hlex := strings.lex_plain text.toList rest htext hrest
  have hinput : lexemes ctx (quoted text) ++ letters rest =
      letters ('"' :: (text.toList ++ '"' :: rest)) := by
    rw [lexemes_quoted]
    simp [letters]
  rw [Reads, hinput, run_parseStringAttr, List.dropWhile_cons_of_neg (by decide), hlex]
  simp

/-- What is read from a literal is no longer than the literal, and shorter if there are escapes. -/
theorem literal_of_run {text : List Char} {value : String} {rest : List Lexeme}
    (h : (parseStringAttr strings).run (letters text) = some (value, rest)) :
    ∃ body tail rest', rest = letters rest' ∧
      text.dropWhile (· == ' ') = '"' :: (body ++ '"' :: (tail ++ rest')) ∧
        value.length ≤ body.length ∧
          (value.length = body.length → value.toList = body ∧ body.all strings.isPlain = true) := by
  rw [run_parseStringAttr, Option.map_eq_some_iff] at h
  obtain ⟨⟨value', rest'⟩, hlex, h⟩ := h
  obtain ⟨rfl, rfl⟩ := Prod.mk.inj h
  obtain ⟨body, tail, htext, hle, heq⟩ := strings.lex_literal _ _ _ hlex
  refine ⟨body, tail, rest', rfl, htext, ?_, ?_⟩
  · simpa using hle
  · simpa using heq

theorem parameters_of_run {α : Type} {p : Parser Lexeme α} {input rest : List Lexeme} {a : α}
    (h : (parseParameters p).run (.char '<' :: input) = some (a, rest)) :
    ∃ mid, p.run input = some (a, mid) ∧ mid.dropWhile isSpace = .char '>' :: rest := by
  rw [parseParameters, run_bind_eq_some] at h
  obtain ⟨_, mid₀, hless, h⟩ := h
  obtain rfl : input = mid₀ := by
    have hhead := run_parsePunctuation_eq_some hless
    simpa [isSpace] using hhead
  obtain ⟨params, mid, hparams, h⟩ := run_bind_eq_some.mp h
  obtain ⟨_, mid', hgreater, h⟩ := run_bind_eq_some.mp h
  obtain ⟨rfl, rfl⟩ := Prod.mk.inj (Option.some.inj h)
  exact ⟨mid, hparams, run_parsePunctuation_eq_some hgreater⟩

theorem letters_of_dropWhile {text : List Char} {c : Char} {rest : List Lexeme}
    (h : (letters text).dropWhile isSpace = .char c :: rest) :
    ∃ spaces rest', text = spaces ++ c :: rest' ∧ rest = letters rest' := by
  rw [dropWhile_isSpace_map] at h
  cases hdrop : text.dropWhile (· == ' ') with
  | nil => simp [hdrop, letters] at h
  | cons c' rest' =>
    rw [hdrop, letters, List.map_cons, List.cons.injEq, Lexeme.char.injEq] at h
    obtain ⟨rfl, rfl⟩ := h
    refine ⟨text.takeWhile (· == ' '), rest', ?_, rfl⟩
    rw [← hdrop, List.takeWhile_append_dropWhile]

theorem count_quote_eq_zero {text : List Char} (h : text.all strings.isPlain = true) :
    text.count '"' = 0 := by
  rw [List.count_eq_zero]
  intro hmem
  have hplain := List.all_eq_true.mp h '"' hmem
  rw [strings.not_isPlain_quote] at hplain
  exact Bool.false_ne_true hplain

/-- Texts without quotation marks end at the first one. -/
theorem append_quote_inj {text text' rest rest' : List Char} (h : text.count '"' = 0)
    (h' : text'.count '"' = 0) (heq : text ++ '"' :: rest = text' ++ '"' :: rest') :
    text = text' ∧ rest = rest' := by
  have htake {text : List Char} (h : text.count '"' = 0) (rest : List Char) :
      (text ++ '"' :: rest).takeWhile (· != '"') = text := by
    rw [List.takeWhile_append_of_pos, List.takeWhile_cons_of_neg (by decide), List.append_nil]
    intro c hc
    have hne : c ≠ '"' := by
      rintro rfl
      exact List.count_eq_zero.mp h hc
    simpa using hne
  have htext : text = text' := by rw [← htake h rest, heq, htake h' rest']
  rw [htext, List.append_cancel_left_eq, List.cons.injEq] at heq
  exact ⟨htext, heq.2⟩

/-- What an expression is read as is shorter unless the expression is plain. -/
theorem expr_of_run {expr value : String} {rest : List Lexeme} (ctx : Context)
    (h : (parseParameters (parseStringAttr strings)).run (lexemes ctx (angle (quoted expr))) =
      some (value, rest)) :
    value.length ≤ expr.length ∧
      (value.length = expr.length → strings.plain expr = true) := by
  have hinput : lexemes ctx (angle (quoted expr)) =
      .char '<' :: letters ('"' :: (expr.toList ++ ['"', '>'])) := by
    rw [lexemes_angle, lexemes_quoted]
    simp [letters]
  rw [hinput] at h
  obtain ⟨mid, hstring, hgreater⟩ := parameters_of_run h
  obtain ⟨body, tail, rest', rfl, htext, hle, heq⟩ := literal_of_run hstring
  rw [List.dropWhile_cons_of_neg (by decide), List.cons.injEq] at htext
  have hrest : rest' ≠ [] := by
    rintro rfl
    simp [letters] at hgreater
  have hlength := congrArg List.length htext.2
  have hpos := List.length_pos_iff.mpr hrest
  simp only [List.length_append, List.length_cons, List.length_nil, String.length_toList] at hlength
  refine ⟨by omega, fun hvalue ↦ ?_⟩
  have hbody : expr.toList.length = body.length := by
    rw [String.length_toList]
    omega
  obtain ⟨rfl, -⟩ := List.append_inj htext.2 hbody
  exact (heq (by omega)).2

/-- Two strings between angle brackets are read as shorter ones unless both are plain. -/
theorem names_of_run {dialectName typeName : String} {value : String × String} {rest : List Lexeme}
    (ctx : Context)
    (h : (parseParameters do
        let dialectName ← parseStringAttr strings
        parseComma
        let typeName ← parseStringAttr strings
        return (dialectName, typeName)).run
      (lexemes ctx (angle (quoted dialectName ++ .char ',' :: quoted typeName))) =
        some (value, rest)) :
    value.1.length + value.2.length ≤ dialectName.length + typeName.length ∧
      (value.1.length + value.2.length = dialectName.length + typeName.length →
        strings.plain dialectName = true ∧ strings.plain typeName = true) := by
  have hinput : lexemes ctx (angle (quoted dialectName ++ .char ',' :: quoted typeName)) =
      .char '<' :: letters ('"' :: (dialectName.toList ++
        '"' :: ',' :: '"' :: (typeName.toList ++ ['"', '>']))) := by
    rw [lexemes_angle, lexemes_append, lexemes, lexemes_quoted, lexemes_quoted]
    simp [letters, lexeme]
  rw [hinput] at h
  obtain ⟨mid, hnames, hgreater⟩ := parameters_of_run h
  obtain ⟨first, mid₁, hfirst, h⟩ := run_bind_eq_some.mp hnames
  obtain ⟨_, mid₂, hcomma, h⟩ := run_bind_eq_some.mp h
  obtain ⟨second, mid₃, hsecond, h⟩ := run_bind_eq_some.mp h
  obtain ⟨rfl, rfl⟩ := Prod.mk.inj (Option.some.inj h)
  obtain ⟨body, tail, rest₁, rfl, htext, hle, heq⟩ := literal_of_run hfirst
  obtain ⟨spaces₁, rest₁', rfl, rfl⟩ := letters_of_dropWhile (run_parsePunctuation_eq_some hcomma)
  obtain ⟨body', tail', rest₂, rfl, htext', hle', heq'⟩ := literal_of_run hsecond
  obtain ⟨spaces₂, hspaces₂⟩ : ∃ spaces, rest₁' = spaces ++ rest₁'.dropWhile (· == ' ') :=
    ⟨_, List.takeWhile_append_dropWhile.symm⟩
  obtain ⟨spaces₃, rest₃, rfl, -⟩ := letters_of_dropWhile hgreater
  rw [List.dropWhile_cons_of_neg (by decide), List.cons.injEq, hspaces₂, htext'] at htext
  have hlength := congrArg List.length htext.2
  simp only [List.length_append, List.length_cons, List.length_nil, String.length_toList] at hlength
  refine ⟨by dsimp only; omega, fun hvalue ↦ ?_⟩
  dsimp only at hvalue
  have hbody := (heq (by omega)).2
  have hbody' := (heq' (by omega)).2
  -- nothing but the literals and the punctuation was taken
  have hnil (text : List Char) (h : text.length = 0) : text = [] := List.length_eq_zero_iff.mp h
  obtain rfl := hnil tail (by omega)
  obtain rfl := hnil spaces₁ (by omega)
  obtain rfl := hnil spaces₂ (by omega)
  obtain rfl := hnil tail' (by omega)
  obtain rfl := hnil spaces₃ (by omega)
  obtain rfl := hnil rest₃ (by omega)
  have htext := htext.2
  simp only [List.nil_append] at htext
  have hquotes := congrArg (List.count '"') htext
  simp only [List.count_append, List.count_cons, List.count_nil, count_quote_eq_zero hbody,
    count_quote_eq_zero hbody'] at hquotes
  have hdialect : dialectName.toList.count '"' = 0 := by
    simp at hquotes
    omega
  obtain ⟨hfirst, hrest⟩ := append_quote_inj hdialect (count_quote_eq_zero hbody) htext
  rw [List.cons.injEq, List.cons.injEq] at hrest
  have htype : typeName.toList = body' := by simpa using hrest.2.2
  rw [StringLexer.plain, StringLexer.plain, hfirst, htype]
  exact ⟨hbody, hbody'⟩

end Strings

/-! ## Leaf constraints -/

section Reparse

variable (ctx : Context)

/-- `impl::reparseType` -/
def reparseType (type : Ty) : Option Ty := parseTypeText ctx (printTypeText type)

/-- `impl::reparseAttr` -/
def reparseAttr (attr : Attribute) : Option Attribute := parseAttrText ctx (printAttrText attr)

end Reparse

/-- Whether nothing in the text of a constraint is lost. -/
def LeafConstraint.plain (strings : StringLexer) : LeafConstraint → Bool
  | anyIntOfWidths _ | signlessIntOfWidths _ | signedIntOfWidths _ | unsignedIntOfWidths _
  | floatOfWidths _ | function => false
  | opaqueType dialectName typeName => strings.plain dialectName && strings.plain typeName
  | py expr => strings.plain expr
  | _ => true

/-- How much there is to lose. -/
def LeafConstraint.weight : LeafConstraint → ℕ
  | function => 1
  | opaqueType dialectName typeName => dialectName.length + typeName.length
  | py expr => expr.length
  | _ => 0

section Leaves

variable {ctx : Context}

theorem reparseType_of_yields {constraint : LeafConstraint} {kind : TypeKind} {body : List Piece}
    {result : Option Ty} (hprint : constraint.print = chars kind.getTypeName ++ body)
    (hbody : ∀ c, (lexemes ctx body).head? = some (.char c) → isIdChar c = false)
    (h : Yields (parseTypeOfKind ctx (SpecTypes.kindSwitch kind)) (lexemes ctx body) result []) :
    reparseType ctx (.leaf constraint) = result := by
  rw [reparseType, printTypeText, hprint, parseTypeText_named ctx kind hbody]
  exact map_fst_of_yields h

theorem reparseType_simple {constraint constraint' : LeafConstraint} {kind : TypeKind}
    (hkind : SpecTypes.kindSwitch constraint.kind = kind)
    (hprint : constraint.print = chars kind.getTypeName)
    (h : parseTypeOfKind ctx (SpecTypes.kindSwitch kind) = SimpleType.parse constraint') :
    reparseType ctx (.leaf constraint) = some (.leaf constraint') := by
  subst hkind
  rw [← List.append_nil (chars _)] at hprint
  apply reparseType_of_yields hprint
  · simp [lexemes]
  · rw [h]
    exact Yields.pure _ _

theorem verifyIntWidth_lt {width : ℕ} (h : verifyIntWidth width = true) : width < 2 ^ 32 := by
  simp [verifyIntWidth] at h
  omega

theorem verifyFloatWidth_lt {width : ℕ} (h : verifyFloatWidth width = true) : width < 2 ^ 32 := by
  simp [verifyFloatWidth] at h
  omega

theorem reparseType_width {constraint : ℕ → LeafConstraint} {verifyWidth : ℕ → Bool}
    {kind : TypeKind} {width : ℕ} {type : Ty} (hlt : width < 2 ^ 32)
    (hprint : (constraint width).print = chars kind.getTypeName ++ angle (printInteger width))
    (h : parseTypeOfKind ctx (SpecTypes.kindSwitch kind) =
      NumericWidthType.parse verifyWidth constraint)
    (hget : NumericWidthType.getChecked verifyWidth constraint width = some type) :
    reparseType ctx (.leaf (constraint width)) = some type := by
  apply reparseType_of_yields hprint (ends_angle ctx _)
  rw [h, ← hget]
  exact yields_width hlt ctx

/-- Only one name ends with a digit, and it is short. -/
theorem length_getTypeName_of_digit (kind : TypeKind)
    (h : kind.getTypeName.toList.getLast?.any Char.isDigit = true) :
    kind.getTypeName.length < 5 := by
  cases kind <;> revert h <;> decide

/-- The digits of the first width become part of the keyword, which is unknown then. -/
theorem reparseType_ofWidths {constraint : LeafConstraint} {kind : TypeKind} {width : ℕ}
    {widths : List ℕ}
    (hprint : constraint.print = chars kind.getTypeName ++ printIntegerList (width :: widths))
    (hlength : 5 ≤ kind.getTypeName.length) : reparseType ctx (.leaf constraint) = none := by
  obtain ⟨rest, hwidths, hrest⟩ := lexemes_printIntegerList ctx width widths
  have hword : (kind.getTypeName ++ width.repr).toList =
      kind.getTypeName.toList ++ width.repr.toList := String.toList_append
  have hname := all_isIdChar_of_isKeyword (isKeyword_getTypeName kind)
  have hall : (kind.getTypeName ++ width.repr).toList.all isIdChar = true := by
    rw [hword, List.all_append, hname.1, Bool.true_and, List.all_eq_true]
    intro c hc
    have hdigit := List.all_eq_true.mp (all_isDigit_repr width) c hc
    simp [isIdChar, Char.isAlphanum, hdigit]
  have hne : (kind.getTypeName ++ width.repr).toList ≠ [] := by
    rw [hword]
    exact List.append_ne_nil_of_left_ne_nil hname.2 _
  have hunknown : (typeKinds.find? fun kind' ↦
      kind'.getTypeName == kind.getTypeName ++ width.repr) = none := by
    rw [List.find?_eq_none]
    intro kind' _ hkind'
    have hkind' : kind'.getTypeName = kind.getTypeName ++ width.repr := eq_of_beq hkind'
    have hlast : kind'.getTypeName.toList.getLast?.any Char.isDigit = true := by
      have hc := List.getLast?_eq_some_getLast (repr_ne_nil width)
      have hdigit := List.all_eq_true.mp (all_isDigit_repr width) _ (List.mem_of_getLast? hc)
      rw [hkind', hword, List.getLast?_append, hc]
      simpa using hdigit
    have hshort := length_getTypeName_of_digit kind' hlast
    rw [hkind', String.length_append] at hshort
    omega
  have hinput : lexemes ctx constraint.print =
      letters (kind.getTypeName ++ width.repr).toList ++ rest := by
    rw [hprint, lexemes_append, lexemes_chars, hwidths, hword]
    simp [letters]
  have hspace := dropWhile_isSpace_letters (by decide) hall hne rest
  have htake := takeChars_letters hall hrest
  have hkeyword : DialectAsmParser.parseKeyword.run
      (letters (kind.getTypeName ++ width.repr).toList ++ rest) =
        if isKeyword (kind.getTypeName ++ width.repr) then
          some (kind.getTypeName ++ width.repr, rest)
        else none := by
    simp only [DialectAsmParser.parseKeyword, StateT.run, hspace, htake, String.ofList_toList]
  rw [reparseType, printTypeText, parseTypeText, hinput, SpecDialect.parseType, StateT.run_bind,
    hkeyword]
  split_ifs
  · simp [hunknown, failure, StateT.failure, StateT.run]
  · rfl

theorem of_getChecked_width {constraint : ℕ → LeafConstraint} {verifyWidth : ℕ → Bool} {width : ℕ}
    {type : Ty} (h : NumericWidthType.getChecked verifyWidth constraint width = some type) :
    verifyWidth width = true ∧ type = .leaf (constraint width) := by
  rw [NumericWidthType.getChecked] at h
  split_ifs at h with hwidth
  exact ⟨hwidth, (Option.some.inj h).symm⟩

theorem of_getChecked_widths {constraint : List ℕ → LeafConstraint} {verifyWidth : ℕ → Bool}
    {widths : List ℕ} {type : Ty}
    (h : NumericTypeOfWidths.getChecked verifyWidth constraint widths = some type) :
    ∃ width widths, type = .leaf (constraint (width :: widths)) := by
  simp only [NumericTypeOfWidths.getChecked] at h
  split_ifs at h with hwidths
  cases hsorted : getSortedWidths widths with
  | nil => simp [hsorted, verifyWidthList] at hwidths
  | cons width sorted =>
    rw [hsorted] at h
    exact ⟨width, sorted, (Option.some.inj h).symm⟩

theorem type_of_getChecked_namesOnly {dialectName typeName : String} {type : Ty}
    (h : OpaqueType.getChecked dialectName typeName = some type) :
    type = .leaf (.opaqueType dialectName typeName) := by
  rw [OpaqueType.getChecked] at h
  split_ifs at h
  exact (Option.some.inj h).symm

theorem type_of_getChecked_py {expr : String} {type : Ty}
    (h : PyType.getChecked ctx expr = some type) : type = .leaf (.py expr) := by
  rw [PyType.getChecked] at h
  split_ifs at h
  exact (Option.some.inj h).symm

theorem reparseType_namesOnly (dialectName typeName : String) :
    reparseType ctx (.leaf (.opaqueType dialectName typeName)) =
      ((OpaqueType.parse ctx).run
        (lexemes ctx (angle (quoted dialectName ++ .char ',' :: quoted typeName)))).map
          Prod.fst := by
  have hprint : (LeafConstraint.opaqueType dialectName typeName).print =
      chars TypeKind.opaqueType.getTypeName ++
        angle (quoted dialectName ++ .char ',' :: quoted typeName) := rfl
  rw [reparseType, printTypeText, hprint, parseTypeText_named ctx _ (ends_angle ctx _)]
  rfl

theorem reparseType_py (expr : String) :
    reparseType ctx (.leaf (.py expr)) =
      ((PyType.parse ctx).run (lexemes ctx (angle (quoted expr)))).map Prod.fst := by
  have hprint : (LeafConstraint.py expr).print =
      chars TypeKind.py.getTypeName ++ angle (quoted expr) := rfl
  rw [reparseType, printTypeText, hprint, parseTypeText_named ctx _ (ends_angle ctx _)]
  rfl

theorem yields_expr {expr : String} (h : ctx.strings.plain expr = true) :
    Yields (parseParameters (parseStringAttr ctx.strings)) (lexemes ctx (angle (quoted expr)))
      (some expr) [] := by
  have hstring : Reads (parseStringAttr ctx.strings) (lexemes ctx (quoted expr)) expr
      [.char '>'] := @reads_string ctx.strings expr h ['>'] (.inr rfl) ctx
  rw [lexemes_angle]
  exact yields_parameters hstring.yields

theorem yields_names {dialectName typeName : String}
    (hdialect : ctx.strings.plain dialectName = true)
    (htype : ctx.strings.plain typeName = true) :
    Yields (parseParameters do
        let dialectName ← parseStringAttr ctx.strings
        parseComma
        let typeName ← parseStringAttr ctx.strings
        return (dialectName, typeName))
      (lexemes ctx (angle (quoted dialectName ++ .char ',' :: quoted typeName)))
      (some (dialectName, typeName)) [] := by
  have hafter : letters (',' :: '"' :: (typeName.toList ++ ['"', '>'])) =
      (.char ',' :: lexemes ctx (quoted typeName)) ++ [.char '>'] := by
    simp [letters, lexemes_quoted]
  have hfirst : Reads (parseStringAttr ctx.strings) (lexemes ctx (quoted dialectName)) dialectName
      (letters (',' :: '"' :: (typeName.toList ++ ['"', '>']))) :=
    reads_string hdialect (.inl rfl) ctx
  have hsecond : Reads (parseStringAttr ctx.strings) (lexemes ctx (quoted typeName)) typeName
      [.char '>'] := @reads_string ctx.strings typeName htype ['>'] (.inr rfl) ctx
  rw [hafter] at hfirst
  rw [lexemes_angle, lexemes_append, lexemes, lexeme]
  apply yields_parameters
  apply Reads.yields
  apply Reads.bind hfirst
  apply Reads.bind_cons (reads_punctuation (by decide) _)
  exact Reads.bind_pure hsecond (Reads.pure _ _)

/-- A plain constraint is read back. -/
theorem LeafConstraint.reparseType_of_plain {constraint : LeafConstraint} {type : Ty}
    (hplain : constraint.plain ctx.strings = true) (hget : constraint.getChecked ctx = some type) :
    reparseType ctx type = some type := by
  cases constraint with
  | any | none | anyInteger | anySignlessInteger | anySignedInteger | anyUnsignedInteger | index
  | anyFloat | bf16 | anyComplex =>
    cases hget
    exact reparseType_simple rfl rfl rfl
  | anyI width =>
    obtain ⟨hwidth, rfl⟩ := of_getChecked_width hget
    exact @reparseType_width ctx .anyI _ .anyI _ _ (verifyIntWidth_lt hwidth) rfl rfl hget
  | i width =>
    obtain ⟨hwidth, rfl⟩ := of_getChecked_width hget
    exact @reparseType_width ctx .i _ .i _ _ (verifyIntWidth_lt hwidth) rfl rfl hget
  | si width =>
    obtain ⟨hwidth, rfl⟩ := of_getChecked_width hget
    exact @reparseType_width ctx .si _ .si _ _ (verifyIntWidth_lt hwidth) rfl rfl hget
  | ui width =>
    obtain ⟨hwidth, rfl⟩ := of_getChecked_width hget
    exact @reparseType_width ctx .ui _ .ui _ _ (verifyIntWidth_lt hwidth) rfl rfl hget
  | f width =>
    obtain ⟨hwidth, rfl⟩ := of_getChecked_width hget
    exact @reparseType_width ctx .f _ .f _ _ (verifyFloatWidth_lt hwidth) rfl rfl hget
  | opaqueType dialectName typeName =>
    rw [LeafConstraint.plain, Bool.and_eq_true] at hplain
    obtain rfl := type_of_getChecked_namesOnly hget
    have hnames := yields_names hplain.1 hplain.2
    have hparse : Yields (OpaqueType.parse ctx) _ _ [] := yields_checked hnames
      fun names ↦ OpaqueType.getChecked names.1 names.2
    rw [reparseType_namesOnly, map_fst_of_yields hparse]
    exact hget
  | isa dialectRef typeRef =>
    cases hget
    have hprint : (LeafConstraint.isa dialectRef typeRef).print =
        chars TypeKind.isa.getTypeName ++ angle [.attr (.symbolRefAttr dialectRef [typeRef])] := rfl
    exact reparseType_of_yields hprint (ends_angle ctx _) (yields_isa ctx dialectRef [typeRef])
  | py expr =>
    obtain rfl := type_of_getChecked_py hget
    have hparse : Yields (PyType.parse ctx) _ _ [] :=
      yields_checked (yields_expr hplain) (PyType.getChecked ctx)
    rw [reparseType_py, map_fst_of_yields hparse]
    exact hget
  | anyIntOfWidths _ | signlessIntOfWidths _ | signedIntOfWidths _ | unsignedIntOfWidths _
  | floatOfWidths _ | function => simp [LeafConstraint.plain] at hplain

end Leaves

/-! ## Weights -/

/-- What is read back has no more weight, and less unless what was printed is plain. -/
structure Shrinks (weight' weight : ℕ) (plain : Bool) : Prop where
  le : weight' ≤ weight
  plain_of_eq : weight' = weight → plain = true

theorem Shrinks.rfl {weight : ℕ} : Shrinks weight weight true := ⟨le_rfl, fun _ ↦ Eq.refl _⟩

theorem Shrinks.add {weight₁' weight₁ weight₂' weight₂ : ℕ} {plain₁ plain₂ : Bool}
    (h₁ : Shrinks weight₁' weight₁ plain₁) (h₂ : Shrinks weight₂' weight₂ plain₂) :
    Shrinks (weight₁' + weight₂') (weight₁ + weight₂) (plain₁ && plain₂) := by
  have hle₁ := h₁.le
  have hle₂ := h₂.le
  refine ⟨by omega, fun heq ↦ ?_⟩
  rw [h₁.plain_of_eq (by omega), h₂.plain_of_eq (by omega)]
  exact Eq.refl true

theorem shrinks_list {α : Type} {f : α → Option α} {weight : α → ℕ} {plain : α → Bool}
    {items items' : List α}
    (h : ∀ a ∈ items, ∀ a', f a = some a' → Shrinks (weight a') (weight a) (plain a))
    (hmap : items.mapM f = some items') :
    Shrinks (items'.map weight).sum (items.map weight).sum (items.all plain) := by
  induction items generalizing items' with
  | nil =>
    cases hmap
    exact Shrinks.rfl
  | cons a items ih =>
    rw [List.mapM_cons] at hmap
    obtain ⟨a', ha', hmap⟩ := Option.bind_eq_some_iff.mp hmap
    obtain ⟨items', hitems', hmap⟩ := Option.bind_eq_some_iff.mp hmap
    cases hmap
    rw [List.map_cons, List.map_cons, List.sum_cons, List.sum_cons, List.all_cons]
    have hhead := h a (List.mem_cons_self ..) a' ha'
    exact hhead.add (ih (fun b hb ↦ h b (List.mem_cons_of_mem _ hb)) hitems')

theorem mapM_eq_self {α : Type} {f : α → Option α} {items : List α}
    (h : ∀ a ∈ items, f a = some a) : items.mapM f = some items := by
  induction items with
  | nil => rfl
  | cons a items ih =>
    rw [List.mapM_cons, h a (List.mem_cons_self ..),
      ih fun b hb ↦ h b (List.mem_cons_of_mem _ hb)]
    rfl

/-! ## Types -/

mutual

def Ty.plain (strings : StringLexer) : Ty → Bool
  | .builtin _ => true
  | .complex elTy => elTy.plain strings
  | .function inputs results => Ty.plainList strings inputs && Ty.plainList strings results
  | .leaf constraint => constraint.plain strings
  | .anyOf types | .allOf types => Ty.plainList strings types
  | .complexOf type | .variadic type => type.plain strings

def Ty.plainList (strings : StringLexer) : List Ty → Bool
  | [] => true
  | type :: types => type.plain strings && Ty.plainList strings types

end

mutual

def Ty.weight : Ty → ℕ
  | .builtin _ => 0
  | .complex elTy => elTy.weight
  | .function inputs results => Ty.weightList inputs + Ty.weightList results
  | .leaf constraint => constraint.weight
  | .anyOf types | .allOf types => Ty.weightList types
  | .complexOf type | .variadic type => type.weight

def Ty.weightList : List Ty → ℕ
  | [] => 0
  | type :: types => type.weight + Ty.weightList types

end

theorem Ty.plainList_eq_all (strings : StringLexer) (types : List Ty) :
    Ty.plainList strings types = types.all (Ty.plain strings) := by
  induction types with
  | nil => rfl
  | cons type types ih => rw [Ty.plainList, ih, List.all_cons]

theorem Ty.weightList_eq_sum (types : List Ty) :
    Ty.weightList types = (types.map Ty.weight).sum := by
  induction types with
  | nil => rfl
  | cons type types ih => rw [Ty.weightList, ih, List.map_cons, List.sum_cons]

section Types

variable {ctx : Context}

theorem of_run_checked {α β : Type} {p : Parser Lexeme α} {getChecked : α → Option β}
    {input : List Lexeme} {b : β}
    (h : ((p >>= fun a ↦ checked (getChecked a)).run input).map Prod.fst = some b) :
    ∃ a rest, p.run input = some (a, rest) ∧ getChecked a = some b := by
  obtain ⟨⟨b', rest⟩, hrun, rfl⟩ := Option.map_eq_some_iff.mp h
  obtain ⟨a, mid, ha, hrun⟩ := run_bind_eq_some.mp hrun
  obtain ⟨b', hb', heq⟩ := Option.map_eq_some_iff.mp hrun
  obtain ⟨rfl, rfl⟩ := Prod.mk.inj heq
  exact ⟨a, mid, ha, hb'⟩

/-- The check keeps the class of a constraint, and its strings. -/
theorem plain_getChecked {constraint : LeafConstraint} {type : Ty}
    (hget : constraint.getChecked ctx = some type) :
    type.plain ctx.strings = constraint.plain ctx.strings := by
  cases constraint with
  | any | none | anyInteger | anySignlessInteger | anySignedInteger | anyUnsignedInteger | index
  | anyFloat | bf16 | anyComplex | isa _ _ | function =>
    cases hget
    rfl
  | anyI _ | i _ | si _ | ui _ | f _ =>
    obtain ⟨-, rfl⟩ := of_getChecked_width hget
    rfl
  | anyIntOfWidths _ | signlessIntOfWidths _ | signedIntOfWidths _ | unsignedIntOfWidths _
  | floatOfWidths _ =>
    obtain ⟨_, _, rfl⟩ := of_getChecked_widths hget
    rfl
  | opaqueType _ _ =>
    obtain rfl := type_of_getChecked_namesOnly hget
    rfl
  | py _ =>
    obtain rfl := type_of_getChecked_py hget
    rfl

theorem LeafConstraint.shrinks_of_plain {constraint : LeafConstraint} {type' : Ty}
    (hplain : constraint.plain ctx.strings = true)
    (hget : constraint.getChecked ctx = some (.leaf constraint))
    (h : reparseType ctx (.leaf constraint) = some type') :
    Shrinks type'.weight (Ty.leaf constraint).weight ((Ty.leaf constraint).plain ctx.strings) := by
  rw [constraint.reparseType_of_plain hplain hget] at h
  cases h
  exact ⟨le_rfl, fun _ ↦ hplain⟩

theorem LeafConstraint.shrinks {constraint : LeafConstraint} {type type' : Ty}
    (hget : constraint.getChecked ctx = some type) (h : reparseType ctx type = some type') :
    Shrinks type'.weight type.weight (type.plain ctx.strings) := by
  cases constraint with
  | any | none | anyInteger | anySignlessInteger | anySignedInteger | anyUnsignedInteger | index
  | anyFloat | bf16 | anyComplex | isa _ _ =>
    cases hget
    exact LeafConstraint.shrinks_of_plain rfl rfl h
  | anyI _ | i _ | si _ | ui _ | f _ =>
    obtain ⟨-, rfl⟩ := of_getChecked_width hget
    exact LeafConstraint.shrinks_of_plain rfl hget h
  | anyIntOfWidths widths =>
    obtain ⟨width, widths, rfl⟩ := of_getChecked_widths hget
    rw [@reparseType_ofWidths ctx _ .anyIntOfWidths width widths rfl (by decide)] at h
    cases h
  | signlessIntOfWidths widths =>
    obtain ⟨width, widths, rfl⟩ := of_getChecked_widths hget
    rw [@reparseType_ofWidths ctx _ .signlessIntOfWidths width widths rfl (by decide)] at h
    cases h
  | signedIntOfWidths widths =>
    obtain ⟨width, widths, rfl⟩ := of_getChecked_widths hget
    rw [@reparseType_ofWidths ctx _ .signedIntOfWidths width widths rfl (by decide)] at h
    cases h
  | unsignedIntOfWidths widths =>
    obtain ⟨width, widths, rfl⟩ := of_getChecked_widths hget
    rw [@reparseType_ofWidths ctx _ .unsignedIntOfWidths width widths rfl (by decide)] at h
    cases h
  | floatOfWidths widths =>
    obtain ⟨width, widths, rfl⟩ := of_getChecked_widths hget
    rw [@reparseType_ofWidths ctx _ .floatOfWidths width widths rfl (by decide)] at h
    cases h
  | function =>
    -- `Any` is what the parser gives for `Function`, and for what is printed for it
    cases hget
    rw [reparseType_simple rfl rfl rfl] at h
    cases h
    exact ⟨Nat.zero_le _, fun heq ↦ absurd heq (by decide)⟩
  | opaqueType dialectName typeName =>
    obtain rfl := type_of_getChecked_namesOnly hget
    rw [reparseType_namesOnly] at h
    obtain ⟨value, rest, hnames, hvalue⟩ := of_run_checked h
    obtain rfl := type_of_getChecked_namesOnly hvalue
    obtain ⟨hle, hplain⟩ := names_of_run ctx hnames
    refine ⟨hle, fun heq ↦ ?_⟩
    rw [Ty.plain, LeafConstraint.plain, Bool.and_eq_true]
    exact hplain heq
  | py expr =>
    obtain rfl := type_of_getChecked_py hget
    rw [reparseType_py] at h
    obtain ⟨value, rest, hexpr, hvalue⟩ := of_run_checked h
    obtain rfl := type_of_getChecked_py hvalue
    obtain ⟨hle, hplain⟩ := expr_of_run ctx hexpr
    exact ⟨hle, hplain⟩

/-! ### Nested types -/

theorem reparseType_complex (elTy : Ty) :
    reparseType ctx (.complex elTy) = (reparseType ctx elTy).map .complex := rfl

theorem mapM_printTypeTexts (types : List Ty) :
    (printTypeTexts types).mapM (parseTypeText ctx) = types.mapM (reparseType ctx) := by
  rw [printTypeTexts_eq_map, List.mapM_map]
  rfl

theorem reparseType_function (inputs results : List Ty) :
    reparseType ctx (.function inputs results) =
      (inputs.mapM (reparseType ctx)).bind fun inputs ↦
        (results.mapM (reparseType ctx)).map (.function inputs) := by
  rw [reparseType, printTypeText, parseTypeText, parseTypeTexts_eq_mapM, parseTypeTexts_eq_mapM,
    mapM_printTypeTexts, mapM_printTypeTexts]
  simp only [Option.map_eq_bind]
  rfl

theorem reparseType_typeList {kind : TypeKind} {getChecked : List Ty → Option Ty} {types : List Ty}
    (hne : types ≠ [])
    (h : parseTypeOfKind ctx (SpecTypes.kindSwitch kind) = parseTypeList getChecked) :
    parseTypeText ctx (.dialect
      (chars kind.getTypeName ++ printTypeList (printTypeTexts types))) =
        (types.mapM (reparseType ctx)).bind getChecked := by
  have hne' : printTypeTexts types ≠ [] := by simpa [printTypeTexts_eq_map] using hne
  have hyields := yields_typeList ctx hne' getChecked
  have hends (c : Char)
      (hc : (lexemes ctx (printTypeList (printTypeTexts types))).head? = some (.char c)) :
      isIdChar c = false := ends_angle ctx _ c hc
  rw [parseTypeText_named ctx kind hends, h, ← mapM_printTypeTexts]
  exact map_fst_of_yields hyields

theorem reparseType_anyOf {types : List Ty} (hne : types ≠ []) :
    reparseType ctx (.anyOf types) =
      (types.mapM (reparseType ctx)).bind (AnyOfType.getChecked ctx) :=
  @reparseType_typeList ctx .anyOf _ types hne rfl

theorem reparseType_allOf {types : List Ty} (hne : types ≠ []) :
    reparseType ctx (.allOf types) =
      (types.mapM (reparseType ctx)).bind (AllOfType.getChecked ctx) :=
  @reparseType_typeList ctx .allOf _ types hne rfl

theorem reparseType_complexOf (type : Ty) :
    reparseType ctx (.complexOf type) = (reparseType ctx type).map .complexOf := by
  rw [reparseType, printTypeText, parseTypeText_named ctx _ (ends_angle ctx _)]
  exact map_fst_of_yields (yields_ofType ctx Ty.complexOf (printTypeText type))

theorem reparseType_variadic (type : Ty) :
    reparseType ctx (.variadic type) = (reparseType ctx type).map .variadic := by
  rw [reparseType, printTypeText, parseTypeText_named ctx _ (ends_angle ctx _)]
  exact map_fst_of_yields (yields_ofType ctx Ty.variadic (printTypeText type))

/-- The checks of a list of types, and what they leave. -/
theorem of_getChecked_anyOf {types : List Ty} {type : Ty}
    (h : AnyOfType.getChecked ctx types = some type) :
    verifyTypeList (getSortedTypes ctx types) = true ∧
      type = .anyOf (getSortedTypes ctx types) := by
  simp only [AnyOfType.getChecked] at h
  split_ifs at h with hlist
  exact ⟨hlist, (Option.some.inj h).symm⟩

theorem of_getChecked_allOf {types : List Ty} {type : Ty}
    (h : AllOfType.getChecked ctx types = some type) :
    verifyTypeList (getSortedTypes ctx types) = true ∧
      type = .allOf (getSortedTypes ctx types) := by
  simp only [AllOfType.getChecked] at h
  split_ifs at h with hlist
  exact ⟨hlist, (Option.some.inj h).symm⟩

theorem ne_nil_of_verifyTypeList {types : List Ty} (h : verifyTypeList types = true) :
    types ≠ [] := by
  rintro rfl
  simp [verifyTypeList] at h

theorem getSortedTypes_idem (types : List Ty) :
    getSortedTypes ctx (getSortedTypes ctx types) = getSortedTypes ctx types := by
  apply List.mergeSort_of_pairwise
  apply List.pairwise_mergeSort
  · intro a b c hab hbc
    simp only [decide_eq_true_eq] at hab hbc ⊢
    exact le_trans hab hbc
  · intro a b
    simpa using le_total (ctx.typeAddress a) (ctx.typeAddress b)

theorem mem_getSortedTypes {type : Ty} {types : List Ty} :
    type ∈ getSortedTypes ctx types ↔ type ∈ types := List.mem_mergeSort

theorem weightList_getSortedTypes (types : List Ty) :
    Ty.weightList (getSortedTypes ctx types) = Ty.weightList types := by
  rw [Ty.weightList_eq_sum, Ty.weightList_eq_sum]
  exact ((List.mergeSort_perm types _).map Ty.weight).sum_nat

/-- Plain types are read back. -/
theorem Ty.Constructible.reparseType_of_plain {type : Ty} (hctor : type.Constructible ctx)
    (hplain : type.plain ctx.strings = true) : reparseType ctx type = some type := by
  induction hctor with
  | builtin type => rfl
  | @complex elTy _ ih => rw [reparseType_complex, ih hplain, Option.map_some]
  | @function inputs results _ _ ihinputs ihresults =>
    rw [Ty.plain, Bool.and_eq_true, Ty.plainList_eq_all, Ty.plainList_eq_all, List.all_eq_true,
      List.all_eq_true] at hplain
    rw [reparseType_function,
      mapM_eq_self fun type htype ↦ ihinputs type htype (hplain.1 type htype),
      mapM_eq_self fun type htype ↦ ihresults type htype (hplain.2 type htype)]
    rfl
  | leaf hget => exact LeafConstraint.reparseType_of_plain (plain_getChecked hget ▸ hplain) hget
  | @anyOf types type _ hget ih =>
    obtain ⟨hlist, rfl⟩ := of_getChecked_anyOf hget
    rw [Ty.plain, Ty.plainList_eq_all, List.all_eq_true] at hplain
    rw [reparseType_anyOf (ne_nil_of_verifyTypeList hlist), mapM_eq_self fun type htype ↦
      ih type (mem_getSortedTypes.mp htype) (hplain type htype), Option.bind_some,
      AnyOfType.getChecked, getSortedTypes_idem, if_pos hlist]
  | @allOf types type _ hget ih =>
    obtain ⟨hlist, rfl⟩ := of_getChecked_allOf hget
    rw [Ty.plain, Ty.plainList_eq_all, List.all_eq_true] at hplain
    rw [reparseType_allOf (ne_nil_of_verifyTypeList hlist), mapM_eq_self fun type htype ↦
      ih type (mem_getSortedTypes.mp htype) (hplain type htype), Option.bind_some,
      AllOfType.getChecked, getSortedTypes_idem, if_pos hlist]
  | @complexOf type _ ih => rw [reparseType_complexOf, ih hplain, Option.map_some]
  | @variadic type _ ih => rw [reparseType_variadic, ih hplain, Option.map_some]

theorem Ty.Constructible.shrinks {type type' : Ty} (hctor : type.Constructible ctx)
    (h : reparseType ctx type = some type') :
    Shrinks type'.weight type.weight (type.plain ctx.strings) := by
  induction hctor generalizing type' with
  | builtin type =>
    cases h
    exact Shrinks.rfl
  | @complex elTy _ ih =>
    rw [reparseType_complex] at h
    obtain ⟨elTy', hel, rfl⟩ := Option.map_eq_some_iff.mp h
    have hshrinks := ih hel
    exact hshrinks
  | @function inputs results _ _ ihinputs ihresults =>
    rw [reparseType_function] at h
    obtain ⟨inputs', hinputs, h⟩ := Option.bind_eq_some_iff.mp h
    obtain ⟨results', hresults, rfl⟩ := Option.map_eq_some_iff.mp h
    have hin := shrinks_list (fun type htype _ ↦ ihinputs type htype) hinputs
    have hout := shrinks_list (fun type htype _ ↦ ihresults type htype) hresults
    rw [Ty.plain, Ty.weight, Ty.weight]
    simp only [Ty.weightList_eq_sum, Ty.plainList_eq_all]
    exact hin.add hout
  | leaf hget => exact LeafConstraint.shrinks hget h
  | @anyOf types type _ hget ih =>
    obtain ⟨hlist, rfl⟩ := of_getChecked_anyOf hget
    rw [reparseType_anyOf (ne_nil_of_verifyTypeList hlist)] at h
    obtain ⟨types', htypes', h⟩ := Option.bind_eq_some_iff.mp h
    obtain ⟨-, rfl⟩ := of_getChecked_anyOf h
    have hlist := shrinks_list (fun type htype _ ↦ ih type (mem_getSortedTypes.mp htype)) htypes'
    rw [Ty.plain, Ty.weight, Ty.weight, weightList_getSortedTypes types']
    simp only [Ty.weightList_eq_sum, Ty.plainList_eq_all]
    exact hlist
  | @allOf types type _ hget ih =>
    obtain ⟨hlist, rfl⟩ := of_getChecked_allOf hget
    rw [reparseType_allOf (ne_nil_of_verifyTypeList hlist)] at h
    obtain ⟨types', htypes', h⟩ := Option.bind_eq_some_iff.mp h
    obtain ⟨-, rfl⟩ := of_getChecked_allOf h
    have hlist := shrinks_list (fun type htype _ ↦ ih type (mem_getSortedTypes.mp htype)) htypes'
    rw [Ty.plain, Ty.weight, Ty.weight, weightList_getSortedTypes types']
    simp only [Ty.weightList_eq_sum, Ty.plainList_eq_all]
    exact hlist
  | @complexOf type _ ih =>
    rw [reparseType_complexOf] at h
    obtain ⟨type', htype, rfl⟩ := Option.map_eq_some_iff.mp h
    have hshrinks := ih htype
    exact hshrinks
  | @variadic type _ ih =>
    rw [reparseType_variadic] at h
    obtain ⟨type', htype, rfl⟩ := Option.map_eq_some_iff.mp h
    have hshrinks := ih htype
    exact hshrinks

/-- A type is read back exactly if it is plain. -/
theorem Ty.Constructible.reparseType_iff {type : Ty} (hctor : type.Constructible ctx) :
    reparseType ctx type = some type ↔ type.plain ctx.strings = true :=
  ⟨fun h ↦ (hctor.shrinks h).plain_of_eq rfl, hctor.reparseType_of_plain⟩

end Types

end DeclarativeMlir.Spec

import DeclarativeMlir.Spec.ConstraintSyntax

/-!
# Reading constraints

What the parser of each class of constraint makes of the text that its printer writes.
-/

namespace DeclarativeMlir.Spec

open TokenParsing DialectAsmParser

/-! ## Lexemes of printed texts -/

/-- Characters as lexemes. -/
def letters (text : List Char) : List Lexeme := text.map .char

section Lexemes

variable (ctx : Context)

theorem lexemes_eq_map (pieces : List Piece) : lexemes ctx pieces = pieces.map (lexeme ctx) := by
  induction pieces with
  | nil => rfl
  | cons piece pieces ih => rw [lexemes, ih, List.map_cons]

theorem parseTypeTexts_eq_mapM (texts : List TypeText) :
    parseTypeTexts ctx texts = texts.mapM (parseTypeText ctx) := by
  induction texts with
  | nil => rfl
  | cons text texts ih => rw [parseTypeTexts, ih, List.mapM_cons]

theorem parseAttrTexts_eq_mapM (texts : List AttrText) :
    parseAttrTexts ctx texts = texts.mapM (parseAttrText ctx) := by
  induction texts with
  | nil => rfl
  | cons text texts ih => rw [parseAttrTexts, ih, List.mapM_cons]

theorem printTypeTexts_eq_map (types : List Ty) :
    printTypeTexts types = types.map printTypeText := by
  induction types with
  | nil => rfl
  | cons type types ih => rw [printTypeTexts, ih, List.map_cons]

theorem printAttrTexts_eq_map (attrs : List Attribute) :
    printAttrTexts attrs = attrs.map printAttrText := by
  induction attrs with
  | nil => rfl
  | cons attr attrs ih => rw [printAttrTexts, ih, List.map_cons]

@[simp]
theorem lexemes_append (pieces pieces' : List Piece) :
    lexemes ctx (pieces ++ pieces') = lexemes ctx pieces ++ lexemes ctx pieces' := by
  simp [lexemes_eq_map]

@[simp]
theorem lexemes_chars (text : String) : lexemes ctx (chars text) = letters text.toList := by
  simp [lexemes_eq_map, chars, letters, lexeme]

@[simp]
theorem lexemes_angle (body : List Piece) :
    lexemes ctx (angle body) = .char '<' :: (lexemes ctx body ++ [.char '>']) := by
  simp [lexemes_eq_map, angle, lexeme]

theorem lexemes_quoted (text : String) :
    lexemes ctx (quoted text) = letters ('"' :: (text.toList ++ ['"'])) := by
  simp [lexemes_eq_map, quoted, chars, letters, lexeme]

/-- The items as they stand between commas: all but the first follow a space. -/
def spaced {T : Type} (space : T) : List (List T) → List (List T)
  | [] => []
  | item :: items => item :: items.map (space :: ·)

theorem interleaveComma_eq_interleave (items : List (List Piece)) :
    interleaveComma items = interleave (.char ',') id (spaced (.char ' ') items) := by
  have hcons (items : List (List Piece)) (item : List Piece) :
      interleaveComma (item :: items) =
        interleave (.char ',') id (item :: items.map (.char ' ' :: ·)) := by
    induction items generalizing item with
    | nil => rfl
    | cons item' items ih =>
      have htail := ih item'
      rw [interleaveComma, htail]
      cases items <;> simp [interleave]
  cases items with
  | nil => rfl
  | cons item items => exact hcons items item

theorem lexemes_interleave (items : List (List Piece)) :
    lexemes ctx (interleave (.char ',') id items) =
      interleave (.char ',') id (items.map (lexemes ctx)) := by
  induction items with
  | nil => rfl
  | cons item items ih =>
    cases items with
    | nil => rfl
    | cons item' items =>
      simp only [interleave, List.map_cons] at ih ⊢
      rw [lexemes_append, ← ih, lexemes]
      rfl

theorem lexemes_interleaveComma (items : List (List Piece)) :
    lexemes ctx (interleaveComma items) =
      interleave (.char ',') id (spaced (.char ' ') (items.map (lexemes ctx))) := by
  rw [interleaveComma_eq_interleave, lexemes_interleave]
  cases items with
  | nil => rfl
  | cons item items =>
    simp only [spaced, List.map_cons, List.map_map]
    rfl

end Lexemes

/-! ## Lexing -/

theorem takeChars_letters {test : Char → Bool} {text : List Char} {rest : List Lexeme}
    (htext : text.all test = true) (hrest : ∀ c, rest.head? = some (.char c) → test c = false) :
    takeChars test (letters text ++ rest) = (text, rest) := by
  induction text with
  | nil =>
    cases rest with
    | nil => rfl
    | cons lexeme rest =>
      cases lexeme with
      | char c =>
        have hc := hrest c rfl
        simp [letters, takeChars, hc]
      | type type => rfl
      | attr attr => rfl
  | cons c text ih =>
    rw [List.all_cons, Bool.and_eq_true] at htext
    have htail := ih htext.2
    rw [letters] at htail
    simp [letters, takeChars, htext.1, htail]

theorem dropWhile_isSpace_of_head {input : List Lexeme}
    (h : ∀ lexeme, input.head? = some lexeme → isSpace lexeme = false) :
    input.dropWhile isSpace = input := by
  cases input with
  | nil => rfl
  | cons lexeme input =>
    have hlexeme := h lexeme rfl
    simp [hlexeme]

section Punctuation

variable {c : Char}

theorem reads_optionalPunctuation (hc : c ≠ ' ') (rest : List Lexeme) :
    Reads (parseOptionalPunctuation c) [.char c] true rest := by
  have hspace : isSpace (.char c) = false := by simpa [isSpace] using hc
  simp [Reads, parseOptionalPunctuation, StateT.run, hspace]

theorem reads_no_optionalPunctuation {c' : Char} (hc : c' ≠ ' ') (hne : c' ≠ c)
    (rest : List Lexeme) : Reads (parseOptionalPunctuation c) [] false (.char c' :: rest) := by
  have hspace : isSpace (.char c') = false := by simpa [isSpace] using hc
  simp [Reads, parseOptionalPunctuation, StateT.run, hspace, hne]

theorem reads_punctuation (hc : c ≠ ' ') (rest : List Lexeme) :
    Reads (parsePunctuation c) [.char c] () rest :=
  Reads.bind_pure (reads_optionalPunctuation hc rest) (Reads.pure _ _)

/-- What stands in front of punctuation are spaces. -/
theorem run_parsePunctuation_eq_some {input rest : List Lexeme} {u : Unit}
    (h : (parsePunctuation c).run input = some (u, rest)) :
    input.dropWhile isSpace = .char c :: rest := by
  rw [parsePunctuation, run_bind_eq_some] at h
  obtain ⟨found, mid, hfound, h⟩ := h
  cases found with
  | false => exact absurd h (by simp [failure, StateT.failure, StateT.run])
  | true =>
    have hmid : mid = rest := (Prod.mk.inj (Option.some.inj h)).2
    rw [← hmid]
    simp only [parseOptionalPunctuation, StateT.run] at hfound
    split at hfound
    · rename_i c' rest' hinput
      split_ifs at hfound with hc'
      · have hrest' : rest' = mid := (Prod.mk.inj (Option.some.inj hfound)).2
        rw [hinput, hc', hrest']
      · simp at hfound
    · simp at hfound

end Punctuation

theorem yields_parameters {α : Type} {p : Parser Lexeme α} {body : List Lexeme} {result : Option α}
    (hp : Yields p body result [.char '>']) :
    Yields (parseParameters p) (.char '<' :: (body ++ [.char '>'])) result [] := by
  have hbind : result = (some ()).bind fun _ ↦ result.bind fun params ↦ (some ()).bind fun _ ↦
      some params := by cases result <;> rfl
  rw [hbind]
  apply Yields.bind_cons (reads_punctuation (by decide) _).yields
  intro _ _
  apply Yields.bind hp
  intro params _
  apply Yields.bind_pure (reads_punctuation (by decide) _).yields
  intro _ _
  exact Yields.pure _ _

theorem yields_checked {α β : Type} {p : Parser Lexeme α} {text : List Lexeme} {result : Option α}
    (hp : Yields p text result []) (getChecked : α → Option β) :
    Yields (p >>= fun a ↦ checked (getChecked a)) text (result.bind getChecked) [] := by
  apply Yields.bind_pure hp
  intro a _
  rfl

theorem yields_type (result : Option Ty) (rest : List Lexeme) :
    Yields DialectAsmParser.parseType [.type result] result rest := by
  cases result <;> simp [Yields, DialectAsmParser.parseType, StateT.run, isSpace]

theorem yields_attribute (result : Option Attribute) (rest : List Lexeme) :
    Yields DialectAsmParser.parseAttribute [.attr result] result rest := by
  cases result <;> simp [Yields, DialectAsmParser.parseAttribute, StateT.run, isSpace]

theorem reads_symbolRefAttr (root : String) (nested : List String) (rest : List Lexeme) :
    Reads parseSymbolRefAttr [.attr (some (.symbolRefAttr root nested))] (root, nested) rest := by
  simp [Reads, parseSymbolRefAttr, StateT.run, isSpace]

/-! ## Integers -/

theorem all_isDigit_repr (n : ℕ) : n.repr.toList.all Char.isDigit = true := by
  rw [List.all_eq_true, Nat.toList_repr]
  intro c hc
  exact Nat.isDigit_of_mem_toDigits (by decide) (by decide) hc

theorem repr_ne_nil (n : ℕ) : n.repr.toList ≠ [] := by
  rw [Nat.toList_repr]
  exact Nat.toDigits_ne_nil

/-- A word is not preceded by spaces. -/
theorem dropWhile_isSpace_letters {test : Char → Bool} (htest : test ' ' = false)
    {text : List Char} (htext : text.all test = true) (hne : text ≠ []) (rest : List Lexeme) :
    (letters text ++ rest).dropWhile isSpace = letters text ++ rest := by
  cases text with
  | nil => exact absurd rfl hne
  | cons c text =>
    apply dropWhile_isSpace_of_head
    intro lexeme hlexeme
    obtain rfl : Lexeme.char c = lexeme := by simpa [letters] using hlexeme
    have hc : test c = true := by
      rw [List.all_cons, Bool.and_eq_true] at htext
      exact htext.1
    have hne : c ≠ ' ' := by
      rintro rfl
      simp [htest] at hc
    simp [isSpace, hne]

theorem reads_integer {bound val : ℕ} (hval : val < bound) {rest : List Lexeme}
    (hrest : ∀ c, rest.head? = some (.char c) → c.isDigit = false) :
    Reads (parseInteger bound) (letters val.repr.toList) val rest := by
  have hspace := dropWhile_isSpace_letters (by decide) (all_isDigit_repr val) (repr_ne_nil val) rest
  have htake := takeChars_letters (all_isDigit_repr val) hrest
  have hdigits : Nat.ofDigitChars 10 val.repr.toList 0 = val := by
    rw [Nat.toList_repr]
    exact Nat.ofDigitChars_ten_toDigits
  have hempty : val.repr.toList.isEmpty = false := by
    rw [List.isEmpty_eq_false_iff]
    exact repr_ne_nil val
  have hrun : (parseInteger bound).run (letters val.repr.toList ++ rest) =
      if val.repr.toList.isEmpty then none
      else if Nat.ofDigitChars 10 val.repr.toList 0 < bound then
        some (Nat.ofDigitChars 10 val.repr.toList 0, rest)
      else none := by
    simp only [parseInteger, StateT.run, hspace, htake]
  rw [Reads, hrun, hempty, hdigits, if_neg Bool.false_ne_true, if_pos hval]

/-! ## Lists -/

/-- Each entry is a text with what it is read as. -/
theorem yields_items {α : Type} {item : Parser Lexeme α}
    {entries : List (List Lexeme × Option α)}
    (hspace : ∀ input, item.run (.char ' ' :: input) = item.run input)
    (hitem : ∀ entry ∈ entries, ∀ rest, rest.head? = some (.char ',') ∨ rest = [.char '>'] →
      Yields item entry.1 entry.2 rest) (hne : entries ≠ []) :
    Yields (items item parseOptionalComma)
      (interleave (.char ',') id (spaced (.char ' ') (entries.map Prod.fst)))
      (entries.mapM Prod.snd) [.char '>'] := by
  cases entries with
  | nil => exact absurd rfl hne
  | cons entry entries =>
    let padded := entries.map fun entry ↦ (Lexeme.char ' ' :: entry.1, entry.2)
    have htexts : spaced (.char ' ') ((entry :: entries).map Prod.fst) =
        (entry :: padded).map Prod.fst := by
      simp [spaced, padded]
    have hvalues : (entry :: entries).mapM Prod.snd = (entry :: padded).mapM Prod.snd := by
      rw [List.mapM_cons, List.mapM_cons, List.mapM_map]
      rfl
    have hpadded : ∀ entry' ∈ entry :: padded, ∀ rest,
        rest.head? = some (.char ',') ∨ rest = [.char '>'] →
          Yields item entry'.1 entry'.2 rest := by
      intro entry' hentry' rest hrest
      obtain rfl | hentry' := List.mem_cons.mp hentry'
      · exact hitem entry' (List.mem_cons_self ..) rest hrest
      · obtain ⟨original, horiginal, rfl⟩ := List.mem_map.mp hentry'
        have h := hitem original (List.mem_cons_of_mem _ horiginal) rest hrest
        rw [Yields, List.cons_append, hspace]
        exact h
    rw [htexts, hvalues, ← interleave_eq_interleave_map]
    exact Yields.items hpadded (fun _ ↦ reads_optionalPunctuation (by decide) _)
      (reads_no_optionalPunctuation (by decide) (by decide) _) (List.cons_ne_nil _ _)

/-! ## Keywords -/

theorem all_isIdChar_of_isKeyword {word : String} (h : isKeyword word = true) :
    word.toList.all isIdChar = true ∧ word.toList ≠ [] := by
  rw [isKeyword] at h
  split at h
  · simp at h
  · rename_i c cs hword
    simp only [Bool.and_eq_true, Bool.or_eq_true] at h
    rw [hword]
    refine ⟨?_, List.cons_ne_nil c cs⟩
    rw [List.all_cons, h.1.2, Bool.and_true]
    obtain hc | hc := h.1.1 <;> simp [isIdChar, Char.isAlphanum, hc]

theorem reads_dialectKeyword {word : String} (hword : isKeyword word = true) {rest : List Lexeme}
    (hrest : ∀ c, rest.head? = some (.char c) → isIdChar c = false) :
    Reads DialectAsmParser.parseKeyword (letters word.toList) word rest := by
  obtain ⟨hall, hne⟩ := all_isIdChar_of_isKeyword hword
  have hspace := dropWhile_isSpace_letters (by decide) hall hne rest
  have htake := takeChars_letters hall hrest
  simp only [Reads, DialectAsmParser.parseKeyword, StateT.run, hspace, htake, String.ofList_toList]
  rw [if_pos hword]

theorem isKeyword_getTypeName (kind : TypeKind) : isKeyword kind.getTypeName = true := by
  cases kind <;> decide

theorem isKeyword_getAttrName (kind : AttrKind) : isKeyword kind.getAttrName = true := by
  cases kind <;> decide

/-- The string switch finds each kind by its name. -/
theorem find?_getTypeName (kind : TypeKind) :
    (typeKinds.find? fun kind' ↦ kind'.getTypeName == kind.getTypeName) = some kind := by
  cases kind <;> decide

theorem find?_getAttrName (kind : AttrKind) :
    (attrKinds.find? fun kind' ↦ kind'.getAttrName == kind.getAttrName) = some kind := by
  cases kind <;> decide

section Named

variable (ctx : Context)

/-- A printed name leads back to its kind, up to the switch. -/
theorem parseTypeText_named (kind : TypeKind) {body : List Piece}
    (hbody : ∀ c, (lexemes ctx body).head? = some (.char c) → isIdChar c = false) :
    parseTypeText ctx (.dialect (chars kind.getTypeName ++ body)) =
      ((parseTypeOfKind ctx (SpecTypes.kindSwitch kind)).run (lexemes ctx body)).map Prod.fst := by
  have hname := reads_dialectKeyword (isKeyword_getTypeName kind) hbody
  rw [parseTypeText, lexemes_append, lexemes_chars, SpecDialect.parseType, hname.run_bind]
  simp only [find?_getTypeName]

theorem parseAttrText_named (kind : AttrKind) {body : List Piece}
    (hbody : ∀ c, (lexemes ctx body).head? = some (.char c) → isIdChar c = false) :
    parseAttrText ctx (.dialect (chars kind.getAttrName ++ body)) =
      ((parseAttrOfKind ctx kind).run (lexemes ctx body)).map Prod.fst := by
  have hname := reads_dialectKeyword (isKeyword_getAttrName kind) hbody
  rw [parseAttrText, lexemes_append, lexemes_chars, SpecDialect.parseAttribute, hname.run_bind]
  simp only [find?_getAttrName, SpecAttrs.kindSwitch]

end Named

/-! ## Classes -/

theorem map_fst_of_yields {α : Type} {p : Parser Lexeme α} {text : List Lexeme} {result : Option α}
    (h : Yields p text result []) : (p.run text).map Prod.fst = result := by
  have hrun : p.run text = result.map fun a ↦ (a, []) := by simpa [Yields] using h
  rw [hrun]
  cases result <;> rfl

theorem ends_angle (ctx : Context) (body : List Piece) (c : Char)
    (h : (lexemes ctx (angle body)).head? = some (.char c)) : isIdChar c = false := by
  obtain rfl : '<' = c := by simpa using h
  decide

theorem yields_width {verifyWidth : ℕ → Bool} {constraint : ℕ → LeafConstraint} {width : ℕ}
    (hwidth : width < 2 ^ 32) (ctx : Context) :
    Yields (NumericWidthType.parse verifyWidth constraint)
      (lexemes ctx (angle (printInteger width)))
      (NumericWidthType.getChecked verifyWidth constraint width) [] := by
  have hinteger : Reads (parseInteger (2 ^ 32)) _ width [.char '>'] :=
    reads_integer hwidth (by simp)
  rw [lexemes_angle, printInteger, lexemes_chars]
  exact yields_checked (yields_parameters hinteger.yields) _

theorem yields_typedAttr {verifyWidth : ℕ → Bool} {constraint : ℕ → LeafAttr} {width : ℕ}
    (hwidth : width < 2 ^ 32) (ctx : Context) :
    Yields (TypedAttr.parse verifyWidth constraint) (lexemes ctx (angle (printInteger width)))
      (TypedAttr.getChecked verifyWidth constraint width) [] := by
  have hinteger : Reads (parseInteger (2 ^ 32)) _ width [.char '>'] :=
    reads_integer hwidth (by simp)
  rw [lexemes_angle, printInteger, lexemes_chars]
  exact yields_checked (yields_parameters hinteger.yields) _

section Classes

variable (ctx : Context)

theorem yields_isa (root : String) (nested : List String) :
    Yields IsaType.parse (lexemes ctx (angle [.attr (.symbolRefAttr root nested)]))
      (IsaType.getChecked root nested) [] := by
  have href := reads_symbolRefAttr root nested [.char '>']
  rw [lexemes_angle]
  exact yields_checked (yields_parameters href.yields) fun ref ↦
    IsaType.getChecked ref.1 ref.2

theorem yields_isaAttr (root : String) (nested : List String) :
    Yields IsaAttr.parse (lexemes ctx (angle [.attr (.symbolRefAttr root nested)]))
      (IsaAttr.getChecked root nested) [] := by
  have href := reads_symbolRefAttr root nested [.char '>']
  rw [lexemes_angle]
  exact yields_checked (yields_parameters href.yields) fun ref ↦
    IsaAttr.getChecked ref.1 ref.2

/-- A list of types between angle brackets is read type by type. -/
theorem yields_typeList {texts : List TypeText} (hne : texts ≠ [])
    (getChecked : List Ty → Option Ty) :
    Yields (parseTypeList getChecked) (lexemes ctx (printTypeList texts))
      ((texts.mapM (parseTypeText ctx)).bind getChecked) [] := by
  let entries := texts.map fun text ↦
    ([Lexeme.type (parseTypeText ctx text)], parseTypeText ctx text)
  have htexts : (texts.map fun text ↦ [Piece.type text]).map (lexemes ctx) =
      entries.map Prod.fst := by
    simp [entries, lexemes, lexeme]
  have hvalues : texts.mapM (parseTypeText ctx) = entries.mapM Prod.snd := by
    rw [List.mapM_map]
    rfl
  have hentry : ∀ entry ∈ entries, ∀ rest : List Lexeme,
      rest.head? = some (.char ',') ∨ rest = [.char '>'] →
        Yields DialectAsmParser.parseType entry.1 entry.2 rest := by
    intro entry hentry rest _
    obtain ⟨text, -, rfl⟩ := List.mem_map.mp hentry
    exact yields_type _ rest
  rw [printTypeList, lexemes_angle, lexemes_interleaveComma, htexts, hvalues]
  apply yields_checked
  apply yields_parameters
  exact yields_items (fun _ ↦ rfl) hentry (by simpa [entries] using hne)

theorem yields_attrList {texts : List AttrText} (hne : texts ≠ [])
    (getChecked : List Attribute → Option Attribute) :
    Yields (parseAttrList getChecked) (lexemes ctx (printAttrList texts))
      ((texts.mapM (parseAttrText ctx)).bind getChecked) [] := by
  let entries := texts.map fun text ↦
    ([Lexeme.attr (parseAttrText ctx text)], parseAttrText ctx text)
  have htexts : (texts.map fun text ↦ [Piece.attr text]).map (lexemes ctx) =
      entries.map Prod.fst := by
    simp [entries, lexemes, lexeme]
  have hvalues : texts.mapM (parseAttrText ctx) = entries.mapM Prod.snd := by
    rw [List.mapM_map]
    rfl
  have hentry : ∀ entry ∈ entries, ∀ rest : List Lexeme,
      rest.head? = some (.char ',') ∨ rest = [.char '>'] →
        Yields DialectAsmParser.parseAttribute entry.1 entry.2 rest := by
    intro entry hentry rest _
    obtain ⟨text, -, rfl⟩ := List.mem_map.mp hentry
    exact yields_attribute _ rest
  rw [printAttrList, lexemes_angle, lexemes_interleaveComma, htexts, hvalues]
  apply yields_checked
  apply yields_parameters
  exact yields_items (fun _ ↦ rfl) hentry (by simpa [entries] using hne)

theorem lexemes_printIntegerList (dim : ℕ) (dims : List ℕ) :
    ∃ rest, lexemes ctx (printIntegerList (dim :: dims)) = letters dim.repr.toList ++ rest ∧
      ∀ c, rest.head? = some (.char c) → isIdChar c = false := by
  cases dims with
  | nil =>
    refine ⟨[], ?_, by simp⟩
    rw [List.append_nil]
    exact lexemes_chars ctx dim.repr
  | cons dim' dims =>
    refine ⟨lexemes ctx (.char ',' :: .char ' ' ::
      interleaveComma (printInteger dim' :: dims.map printInteger)), ?_, ?_⟩
    · rw [printIntegerList, List.map_cons, List.map_cons, interleaveComma, lexemes_append,
        printInteger, lexemes_chars]
    · intro c hc
      obtain rfl : ',' = c := by simpa [lexemes, lexeme] using hc
      decide

theorem reads_startsInteger (dims : List ℕ) :
    Reads startsInteger [] (!dims.isEmpty)
      (lexemes ctx (printIntegerList dims) ++ [.char '>']) := by
  cases dims with
  | nil => rfl
  | cons dim dims =>
    obtain ⟨rest, hrest, -⟩ := lexemes_printIntegerList ctx dim dims
    have hspace := dropWhile_isSpace_letters (by decide) (all_isDigit_repr dim) (repr_ne_nil dim)
      (rest ++ [.char '>'])
    have htake : (takeChars Char.isDigit
        (letters dim.repr.toList ++ (rest ++ [.char '>']))).1 ≠ [] := by
      have hall := all_isDigit_repr dim
      cases hdigits : dim.repr.toList with
      | nil => exact absurd hdigits (repr_ne_nil dim)
      | cons c digits =>
        rw [hdigits, List.all_cons, Bool.and_eq_true] at hall
        simp [letters, takeChars, hall.1]
    rw [Reads, hrest, List.nil_append, List.append_assoc]
    simp only [startsInteger, StateT.run, hspace]
    simpa using htake

theorem yields_integerList {dims : List ℕ} {bound : ℕ} (hdims : ∀ dim ∈ dims, dim < bound) :
    Yields (parseIntegerList bound) (lexemes ctx (printIntegerList dims)) (some dims)
      [.char '>'] := by
  let entries := dims.map fun dim ↦ (letters dim.repr.toList, some dim)
  have htexts : (dims.map printInteger).map (lexemes ctx) = entries.map Prod.fst := by
    simp [entries, printInteger]
  have hvalues : entries.mapM Prod.snd = some dims := by
    rw [List.mapM_map]
    have hpure : dims.mapM (m := Option) (fun dim ↦ Pure.pure (id dim)) = Pure.pure (dims.map id) :=
      List.mapM_pure
    rw [List.map_id] at hpure
    exact hpure
  have hentry : ∀ entry ∈ entries, ∀ rest : List Lexeme,
      rest.head? = some (.char ',') ∨ rest = [.char '>'] →
        Yields (parseInteger bound) entry.1 entry.2 rest := by
    intro entry hentry rest hrest
    obtain ⟨dim, hdim, rfl⟩ := List.mem_map.mp hentry
    apply (reads_integer (hdims dim hdim) _).yields
    intro c hc
    obtain hrest | rfl := hrest
    · obtain rfl : ',' = c := by simpa [hrest] using hc
      decide
    · obtain rfl : '>' = c := by simpa using hc
      decide
  have hstarts : some dims = (some (!dims.isEmpty)).bind fun _ ↦ some dims := rfl
  rw [hstarts]
  apply Yields.bind_nil (reads_startsInteger ctx dims).yields
  intro starts hstarts
  cases hstarts
  cases dims with
  | nil => exact Yields.pure _ _
  | cons dim dims =>
    have hitems := yields_items (fun _ ↦ rfl) hentry (by simp [entries])
    rw [printIntegerList, lexemes_interleaveComma, htexts, ← hvalues]
    exact hitems

theorem yields_rankedElements {dims : List ℕ} (hdims : ∀ dim ∈ dims, dim < 2 ^ 63) :
    Yields RankedElementsAttr.parse (lexemes ctx (angle (printIntegerList dims)))
      (RankedElementsAttr.getChecked dims) [] := by
  rw [lexemes_angle]
  exact yields_checked (yields_parameters (yields_integerList ctx hdims)) _

/-- The parameter of a class is a type. -/
theorem yields_ofType {α : Type} (f : Ty → α) (text : TypeText) :
    Yields (do
        let type ← parseParameters DialectAsmParser.parseType
        return f type) (lexemes ctx (angle [.type text])) ((parseTypeText ctx text).map f) [] := by
  have htype := yields_type (parseTypeText ctx text) [.char '>']
  have hmap : (parseTypeText ctx text).map f = (parseTypeText ctx text).bind fun type ↦
      some (f type) := Option.map_eq_bind
  rw [hmap, lexemes_angle]
  exact Yields.bind_pure (yields_parameters htype) fun type _ ↦ Yields.pure _ _

/-- The parameter of a class is an attribute. -/
theorem yields_ofAttr {α : Type} (getChecked : Attribute → Option α) (text : AttrText) :
    Yields (do
        let attr ← parseParameters DialectAsmParser.parseAttribute
        checked (getChecked attr)) (lexemes ctx (angle [.attr text]))
      ((parseAttrText ctx text).bind getChecked) [] := by
  have hattr := yields_attribute (parseAttrText ctx text) [.char '>']
  rw [lexemes_angle]
  exact yields_checked (yields_parameters hattr) getChecked

theorem yields_default (base default : AttrText) :
    Yields DefaultAttr.parse (lexemes ctx (angle [.attr base, .char ',', .attr default]))
      ((parseAttrText ctx base).bind fun baseAttr ↦
        (parseAttrText ctx default).map (.default baseAttr)) [] := by
  have hpair : Yields (do
      let baseAttr ← DialectAsmParser.parseAttribute
      parseComma
      let defaultAttr ← DialectAsmParser.parseAttribute
      return (baseAttr, defaultAttr)) (lexemes ctx [.attr base, .char ',', .attr default])
      ((parseAttrText ctx base).bind fun baseAttr ↦ (some ()).bind fun _ ↦
        (parseAttrText ctx default).bind fun defaultAttr ↦ some (baseAttr, defaultAttr))
      [.char '>'] := by
    apply Yields.bind_cons (yields_attribute _ _)
    intro baseAttr _
    apply Yields.bind_cons (reads_punctuation (by decide) _).yields
    intro _ _
    apply Yields.bind_cons (yields_attribute _ _)
    intro defaultAttr _
    exact Yields.pure _ _
  have hresult : ((parseAttrText ctx base).bind fun baseAttr ↦
      (parseAttrText ctx default).map (Attribute.default baseAttr)) =
      (((parseAttrText ctx base).bind fun baseAttr ↦ (some ()).bind fun _ ↦
        (parseAttrText ctx default).bind fun defaultAttr ↦ some (baseAttr, defaultAttr)).bind
          fun attrs ↦ some (.default attrs.1 attrs.2)) := by
    cases parseAttrText ctx base <;> cases parseAttrText ctx default <;> rfl
  rw [hresult, lexemes_angle]
  exact Yields.bind_pure (yields_parameters hpair) fun _ _ ↦ Yields.pure _ _

end Classes

end DeclarativeMlir.Spec

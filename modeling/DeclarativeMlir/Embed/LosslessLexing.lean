import DeclarativeMlir.Embed.FormatLexer
import Mathlib.Algebra.Ring.Parity

/-!
# Which format strings are lexed as a whole

A NUL ends the string for the lexer. The byte 255 is -1 as a signed `char`, which is `EOF`, so it
ends the lexing unless it stands in a literal.
-/

namespace DeclarativeMlir.Embed.FormatLexer

variable {ptr rest : Ptr} {token : Token} {text s t : List UInt8}

def IsWhitespace (c : UInt8) : Prop := c ∈ ([32, 9, newline, carriageReturn] : List UInt8)

instance (c : UInt8) : Decidable (IsWhitespace c) := inferInstanceAs (Decidable (c ∈ _))

/-- The spellings of the tokens with the whitespace between them are the whole string, and `eof` is
at its end. -/
structure Lossless (text : List UInt8) (lexed : List (List UInt8 × Token)) : Prop where
  text_eq : (lexed.flatMap fun (gap, token) ↦ gap ++ token.spelling) = text
  whitespace : ∀ gap token, (gap, token) ∈ lexed → ∀ c ∈ gap, IsWhitespace c
  eof_spelling : ∀ gap token, (gap, token) ∈ lexed → token.kind = .eof → token.spelling = []

/-- Every byte 255 is between the backquotes of a literal. -/
def Quoted (text : List UInt8) : Prop :=
  ∀ before after, text = before ++ 255 :: after → Odd (before.count backquote)

theorem quoted_of_not_mem (h : 255 ∉ text) : Quoted text := by
  intro before after htext
  exact absurd (htext ▸ List.mem_append_right before List.mem_cons_self) h

theorem append_eq_append_cons {before after : List UInt8} {c : UInt8}
    (h : s ++ t = before ++ c :: after) :
    (∃ after', s = before ++ c :: after') ∨
      ∃ before', before = s ++ before' ∧ t = before' ++ c :: after := by
  rcases List.append_eq_append_iff.mp h with ⟨before', hbefore, ht⟩ | ⟨middle, hs, hmiddle⟩
  · exact .inr ⟨before', hbefore, ht⟩
  · cases middle with
    | nil => exact .inr ⟨[], by simpa using hs.symm, by simpa using hmiddle.symm⟩
    | cons d middle =>
      obtain ⟨rfl, -⟩ := List.cons.inj hmiddle
      exact .inl ⟨middle, hs⟩

theorem quoted_append (hs : Quoted s) (heven : Even (s.count backquote)) :
    Quoted (s ++ t) ↔ Quoted t := by
  constructor
  · intro h before after ht
    have hodd := h (s ++ before) after (by rw [ht, List.append_assoc])
    rw [List.count_append, add_comm] at hodd
    exact (Nat.odd_add.mp hodd).mpr heven
  · intro ht before after htext
    rcases append_eq_append_cons htext with ⟨after', hs'⟩ | ⟨before', rfl, ht'⟩
    · exact hs before after' hs'
    · rw [List.count_append]
      exact heven.add_odd (ht before' after ht')

/-! ## What the lexer takes -/

/-- The kinds of the tokens that are punctuation or words. -/
def Kind.isPlain (kind : Kind) : Bool :=
  kind ∈ [.lParen, .rParen, .caret, .comma, .equal, .question, .identifier] || kind.isKeyword

/-- The text of a token and what is left behind it, for tokens other than `error`. -/
inductive Takes : Token → Ptr → Prop where
  | eof : Takes ⟨.eof, [0], []⟩ [0]
  | signed (rest : Ptr) : Takes ⟨.eof, 255 :: rest, [255]⟩ rest
  | literal (body rest : Ptr) (hbody : backquote ∉ body) :
      Takes ⟨.literal, backquote :: body ++ backquote :: rest,
        backquote :: body ++ [backquote]⟩ rest
  | var (word rest : Ptr) (hword : ∀ c ∈ word, c ≠ backquote ∧ c ≠ 255) :
      Takes ⟨.var, 36 :: word ++ rest, 36 :: word⟩ rest
  | plain (kind : Kind) (word rest : Ptr) (hkind : kind.isPlain)
      (hword : ∀ c ∈ word, c ≠ backquote ∧ c ≠ 255 ∧ c ≠ 36) : Takes ⟨kind, word ++ rest, word⟩ rest

namespace Takes

theorem loc_eq (h : Takes token rest) : token.loc = token.spelling ++ rest := by
  cases h <;> simp

theorem even (h : Takes token rest) : Even (token.spelling.count backquote) := by
  cases h with
  | eof => simp
  | signed rest => simp [backquote]
  | literal body rest hbody =>
    simp [List.count_eq_zero.mpr hbody, even_two]
  | var word rest hword =>
    have hcount := List.count_eq_zero.mpr fun hmem ↦ (hword backquote hmem).1 rfl
    rw [List.count_cons_of_ne (by decide), hcount]
    exact Even.zero
  | plain kind word rest hkind hword =>
    rw [List.count_eq_zero.mpr fun hmem ↦ (hword _ hmem).1 rfl]
    exact Even.zero

theorem quoted (h : Takes token rest) (hkind : token.kind ≠ .eof) : Quoted token.spelling := by
  cases h with
  | eof | signed rest => exact absurd rfl hkind
  | literal body rest hbody =>
    intro before after hsplit
    cases before with
    | nil => exact absurd (List.cons.inj hsplit).1 (by decide)
    | cons c before =>
      obtain ⟨rfl, htail⟩ := List.cons.inj hsplit
      have hbody' : body ++ [backquote] = before ++ 255 :: after := htail
      rcases append_eq_append_cons hbody' with ⟨after', rfl⟩ | ⟨before', rfl, hlast⟩
      · have hbefore : backquote ∉ before := fun hmem ↦ hbody (List.mem_append_left _ hmem)
        simp [List.count_eq_zero.mpr hbefore]
      · have hmem : (255 : UInt8) ∈ [backquote] := hlast ▸ List.mem_append_right _ List.mem_cons_self
        exact absurd hmem (by decide)
  | var word rest hword =>
    apply quoted_of_not_mem
    intro hmem
    exact (List.mem_cons.mp hmem).elim (by decide) fun hmem ↦ (hword _ hmem).2 rfl
  | plain kind word rest hplain hword => exact quoted_of_not_mem fun hmem ↦ (hword _ hmem).2.1 rfl

/-- A variable has its dollar sign, and no other token has one in front. -/
theorem head?_eq_dollar_iff (h : Takes token rest) :
    token.spelling.head? = some 36 ↔ token.kind = .var := by
  cases h with
  | eof | signed rest => simp
  | literal body rest hbody => simp [backquote]
  | var word rest hword => simp
  | plain kind word rest hplain hword =>
    constructor
    · intro hhead
      exact absurd rfl (hword 36 (List.mem_of_mem_head? hhead)).2.2
    · intro hkind
      obtain rfl : kind = .var := hkind
      contradiction

theorem spelling_literal (h : Takes token rest) (hkind : token.kind = .literal) :
    ∃ body, token.spelling = backquote :: body ++ [backquote] := by
  cases h with
  | eof | signed rest | var word rest hword => contradiction
  | literal body rest hbody => exact ⟨body, rfl⟩
  | plain kind word rest hplain hword =>
    obtain rfl : kind = .literal := hkind
    contradiction

end Takes

theorem formToken_append (kind : Kind) (word curPtr : Ptr) :
    formToken kind (word ++ curPtr) curPtr = (⟨kind, word ++ curPtr, word⟩, curPtr) := by
  simp [formToken]

theorem skipWhile_eq_some {p : ℤ → Bool} (h : skipWhile p ptr = some rest) :
    ∃ word, ptr = word ++ rest ∧ ∀ c ∈ word, p (toInt c) = true := by
  induction ptr with
  | nil => contradiction
  | cons c ptr ih =>
    unfold skipWhile at h
    split at h
    · rename_i hc
      obtain ⟨word, rfl, hword⟩ := ih h
      exact ⟨c :: word, rfl, List.forall_mem_cons.mpr ⟨hc, hword⟩⟩
    · exact ⟨[], (Option.some.inj h), by simp⟩

theorem plain_of_isIdentifierChar {c : UInt8} (h : isIdentifierChar (toInt c) = true) :
    c ≠ backquote ∧ c ≠ 255 ∧ c ≠ 36 := by
  refine ⟨?_, ?_, ?_⟩ <;> rintro rfl <;> revert h <;> decide

theorem isIdentifierChar_of_isVariableChar {c : ℤ} (h : isVariableChar c = true) :
    isIdentifierChar c = true := by
  rw [isIdentifierChar]
  rw [isVariableChar] at h
  rw [h, Bool.true_or]

theorem isIdentifierChar_of_isalpha {c : ℤ} (h : (isalpha c || c == underscore) = true) :
    isIdentifierChar c = true := by
  simp only [isIdentifierChar, isalnum, Bool.or_eq_true] at h ⊢
  tauto

theorem isPlain_identifierKind (str : List UInt8) : (identifierKind str).isPlain := by
  unfold identifierKind
  cases hfind : keywords.find? fun keyword ↦ bytes keyword.1 = str with
  | none => rfl
  | some keyword =>
    have hmem := List.mem_of_find?_eq_some hfind
    have hkinds : ∀ keyword ∈ keywords, keyword.2.isPlain := by decide
    exact hkinds keyword hmem

theorem takes_lexLiteral {before : List UInt8} (hbefore : backquote ∉ before)
    (h : lexLiteral (backquote :: before ++ ptr) ptr = some (token, rest))
    (herror : token.kind.isError = false) :
    Takes token rest ∧ token.loc = backquote :: before ++ ptr := by
  induction ptr generalizing before with
  | nil => contradiction
  | cons c ptr ih =>
    unfold lexLiteral at h
    split at h
    · obtain ⟨rfl, -⟩ := Prod.mk.inj (Option.some.inj h)
      contradiction
    · split at h
      · rename_i hc
        subst hc
        have htoken := formToken_append .literal (backquote :: before ++ [backquote]) ptr
        simp only [List.append_assoc, List.singleton_append] at htoken
        rw [htoken] at h
        obtain ⟨rfl, rfl⟩ := Prod.mk.inj (Option.some.inj h)
        exact ⟨.literal before ptr hbefore, rfl⟩
      · rename_i hc
        have happend : backquote :: before ++ c :: ptr = backquote :: (before ++ [c]) ++ ptr := by
          simp
        rw [happend] at h ⊢
        apply ih _ h
        intro hmem
        rcases List.mem_append.mp hmem with hmem | hmem
        · exact hbefore hmem
        · exact hc (List.mem_singleton.mp hmem).symm

theorem takes_lexVariable (h : lexVariable (36 :: ptr) ptr = some (token, rest))
    (herror : token.kind.isError = false) : Takes token rest ∧ token.loc = 36 :: ptr := by
  unfold lexVariable at h
  split at h
  · contradiction
  · split at h
    · obtain ⟨rfl, -⟩ := Prod.mk.inj (Option.some.inj h)
      contradiction
    · obtain ⟨ptr', hskip, htoken⟩ := Option.map_eq_some_iff.mp h
      obtain ⟨word, hptr, hword⟩ := skipWhile_eq_some hskip
      rw [hptr, ← List.cons_append, formToken_append] at htoken
      obtain ⟨rfl, rfl⟩ := Prod.mk.inj htoken
      rw [hptr]
      refine ⟨.var word ptr' fun c hc ↦ ?_, rfl⟩
      have hchar := isIdentifierChar_of_isVariableChar (hword c hc)
      exact ⟨(plain_of_isIdentifierChar hchar).1, (plain_of_isIdentifierChar hchar).2.1⟩

theorem takes_lexIdentifier {c : UInt8} (hc : (isalpha (toInt c) || toInt c == underscore) = true)
    (h : lexIdentifier (c :: ptr) ptr = some (token, rest)) :
    Takes token rest ∧ token.loc = c :: ptr := by
  obtain ⟨ptr', hskip, htoken⟩ := Option.map_eq_some_iff.mp h
  obtain ⟨word, rfl, hword⟩ := skipWhile_eq_some hskip
  rw [← List.cons_append, formToken_append] at htoken
  obtain ⟨rfl, rfl⟩ := Prod.mk.inj htoken
  refine ⟨.plain _ (c :: word) ptr' (isPlain_identifierKind _) ?_, rfl⟩
  refine List.forall_mem_cons.mpr ⟨plain_of_isIdentifierChar (isIdentifierChar_of_isalpha hc), ?_⟩
  exact fun d hd ↦ plain_of_isIdentifierChar (hword d hd)

theorem toInt_injective : Function.Injective toInt := by
  intro c d h
  have hc := c.toNat_lt
  have hd := d.toNat_lt
  simp only [toInt, UInt8.lt_iff_toNat_lt, UInt8.reduceToNat] at h
  rw [← UInt8.toNat_inj]
  split at h <;> split at h <;> omega

/-- A character that is read is the one at the pointer, or is skipped. -/
theorem getNextChar_eq_some {c : ℤ} (h : getNextChar ptr = some (c, rest)) :
    (ptr = [0] ∧ c = EOF ∧ rest = [0]) ∨
      (isSkipped c = true ∧ ∃ gap, ptr = gap ++ rest ∧ ∀ d ∈ gap, d = 0 ∨ IsWhitespace d) ∨
      ∃ d, ptr = d :: rest ∧ c = toInt d := by
  cases ptr with
  | nil => contradiction
  | cons curChar curPtr =>
    simp only [getNextChar] at h
    split at h
    · rename_i hnul
      subst hnul
      split at h
      · obtain ⟨rfl, rfl⟩ := Prod.mk.inj (Option.some.inj h)
        exact .inr (.inr ⟨0, rfl, rfl⟩)
      · rename_i hend
        obtain ⟨rfl, rfl⟩ := Prod.mk.inj (Option.some.inj h)
        rw [not_ne_iff.mp hend]
        exact .inl ⟨rfl, rfl, rfl⟩
    · split at h
      · rename_i hnewline
        have hspace : ∀ d, d = newline ∨ d = carriageReturn → d = 0 ∨ IsWhitespace d := by
          intro d hd
          simp only [IsWhitespace, List.mem_cons, List.not_mem_nil, or_false]
          exact .inr (.inr (.inr hd))
        cases curPtr with
        | nil => cases h
        | cons next curPtr =>
          simp only at h
          split at h
          · rename_i hnext
            obtain ⟨rfl, rfl⟩ := Prod.mk.inj (Option.some.inj h)
            refine .inr (.inl ⟨by decide, [curChar, next], rfl, ?_⟩)
            exact List.forall_mem_cons.mpr ⟨hspace _ hnewline,
              List.forall_mem_singleton.mpr (hspace _ hnext.1)⟩
          · obtain ⟨rfl, rfl⟩ := Prod.mk.inj (Option.some.inj h)
            exact .inr (.inl ⟨by decide, [curChar], rfl,
              List.forall_mem_singleton.mpr (hspace _ hnewline)⟩)
      · obtain ⟨rfl, rfl⟩ := Prod.mk.inj (Option.some.inj h)
        exact .inr (.inr ⟨curChar, rfl, rfl⟩)

theorem isWhitespace_of_isSkipped {c : UInt8} (h : isSkipped (toInt c) = true) :
    c = 0 ∨ IsWhitespace c := by
  simp only [isSkipped, List.mem_cons, List.not_mem_nil, or_false, decide_eq_true_eq] at h
  rcases h with h | h | h | h
  · exact .inl (toInt_injective (h.trans (by decide)))
  · exact .inr ((toInt_injective (h.trans (by decide)) : c = 32) ▸ by decide)
  · exact .inr ((toInt_injective (h.trans (by decide)) : c = 9) ▸ by decide)
  · exact .inr ((toInt_injective (h.trans (by decide)) : c = newline) ▸ by decide)

theorem plain_of_punctuation {c : UInt8} {kind : Kind} (h : punctuation (toInt c) = some kind) :
    kind.isPlain ∧ c ≠ backquote ∧ c ≠ 255 ∧ c ≠ 36 := by
  refine ⟨?_, ?_, ?_, ?_⟩
  · unfold punctuation at h
    split at h <;> first | contradiction | (obtain rfl := Option.some.inj h; decide)
  · rintro rfl
    have hnone : punctuation (toInt backquote) = none := by decide
    exact Option.some_ne_none kind (h.symm.trans hnone)
  · rintro rfl
    have hnone : punctuation (toInt 255) = none := by decide
    exact Option.some_ne_none kind (h.symm.trans hnone)
  · rintro rfl
    have hnone : punctuation (toInt 36) = none := by decide
    exact Option.some_ne_none kind (h.symm.trans hnone)

theorem eq_cons_of_getNextChar {c : ℤ} (h : getNextChar ptr = some (c, rest)) (hc : c ≠ EOF)
    (hskip : isSkipped c = false) : ∃ d, ptr = d :: rest ∧ c = toInt d := by
  rcases getNextChar_eq_some h with ⟨-, hend, -⟩ | ⟨hskip', -⟩ | hread
  · exact absurd hend hc
  · rw [hskip] at hskip'
    contradiction
  · exact hread

theorem isSkipped_of_punctuation {c : ℤ} {kind : Kind} (h : punctuation c = some kind) :
    isSkipped c = false := by
  unfold punctuation at h
  split at h <;> first | contradiction | decide

theorem lexToken_takes (h : lexToken ptr = some (token, rest))
    (herror : token.kind.isError = false) :
    Takes token rest ∧ ∃ gap, ptr = gap ++ token.loc ∧ ∀ c ∈ gap, c = 0 ∨ IsWhitespace c := by
  fun_induction lexToken ptr with
  | case1 => contradiction
  | case2 ptr curPtr hnext =>
    rcases getNextChar_eq_some hnext with ⟨rfl, -, rfl⟩ | ⟨hskip, -⟩ | ⟨d, rfl, hd⟩
    · obtain ⟨rfl, rfl⟩ := Prod.mk.inj (Option.some.inj h)
      exact ⟨.eof, [], rfl, by simp⟩
    · exact absurd hskip (by decide)
    · obtain rfl : (255 : UInt8) = d := toInt_injective hd
      rw [← List.singleton_append, formToken_append] at h
      obtain ⟨rfl, rfl⟩ := Prod.mk.inj (Option.some.inj h)
      exact ⟨.signed curPtr, [], rfl, by simp⟩
  | case3 ptr curChar curPtr hnext hc kind hkind =>
    obtain ⟨d, rfl, rfl⟩ := eq_cons_of_getNextChar hnext hc (isSkipped_of_punctuation hkind)
    obtain ⟨hkind, hchar⟩ := plain_of_punctuation hkind
    rw [← List.singleton_append, formToken_append] at h
    obtain ⟨rfl, rfl⟩ := Prod.mk.inj (Option.some.inj h)
    exact ⟨.plain kind [d] curPtr hkind (List.forall_mem_singleton.mpr hchar), [], rfl, by simp⟩
  | case4 ptr curChar curPtr hnext hc hnone hskip hlt ih =>
    obtain ⟨htakes, gap, rfl, hgap⟩ := ih h
    refine ⟨htakes, ?_⟩
    rcases getNextChar_eq_some hnext with ⟨-, hend, -⟩ | ⟨-, gap', rfl, hgap'⟩ | ⟨d, rfl, rfl⟩
    · exact absurd hend hc
    · refine ⟨gap' ++ gap, by rw [List.append_assoc], fun c hmem ↦ ?_⟩
      exact (List.mem_append.mp hmem).elim (hgap' c) (hgap c)
    · exact ⟨d :: gap, rfl, List.forall_mem_cons.mpr ⟨isWhitespace_of_isSkipped hskip, hgap⟩⟩
  | case5 ptr curPtr hnext hc hnone hskip =>
    obtain ⟨d, rfl, hd⟩ := eq_cons_of_getNextChar hnext hc (Bool.eq_false_iff.mpr hskip)
    obtain rfl := toInt_injective hd
    obtain ⟨htakes, hloc⟩ := takes_lexLiteral List.not_mem_nil h herror
    exact ⟨htakes, [], hloc.symm, by simp⟩
  | case6 ptr curPtr hnext hc hnone hskip hquote =>
    obtain ⟨d, rfl, hd⟩ := eq_cons_of_getNextChar hnext hc (Bool.eq_false_iff.mpr hskip)
    obtain rfl : (36 : UInt8) = d := toInt_injective hd
    obtain ⟨htakes, hloc⟩ := takes_lexVariable h herror
    exact ⟨htakes, [], hloc.symm, by simp⟩
  | case7 ptr curChar curPtr hnext hc hnone hskip hquote hdollar hident =>
    obtain ⟨d, rfl, rfl⟩ := eq_cons_of_getNextChar hnext hc (Bool.eq_false_iff.mpr hskip)
    obtain ⟨htakes, hloc⟩ := takes_lexIdentifier hident h
    exact ⟨htakes, [], hloc.symm, by simp⟩
  | case8 =>
    obtain ⟨rfl, -⟩ := Prod.mk.inj (Option.some.inj h)
    contradiction

/-! ## Whole strings -/

theorem skipped_append (gap : List UInt8) (token : Token) :
    skipped (gap ++ token.loc) token = gap := by
  simp [skipped]

theorem lexToken_nil : lexToken [] = none := by
  unfold lexToken
  rfl

theorem Lexes.ne_nil {lexed : List (List UInt8 × Token)} (h : Lexes ptr lexed) : ptr ≠ [] := by
  rintro rfl
  cases h with
  | eof hlex _ =>
    rw [lexToken_nil] at hlex
    contradiction
  | cons hlex _ _ _ =>
    rw [lexToken_nil] at hlex
    contradiction

theorem append_singleton_inj {c d : UInt8} (h : s ++ [c] = t ++ [d]) : s = t ∧ c = d := by
  obtain ⟨hs, hc⟩ := List.append_inj' h rfl
  exact ⟨hs, List.singleton_inj.mp hc⟩

theorem exists_eq_append_of_ne_nil {c : UInt8} (h : s ++ t = text ++ [c]) (ht : t ≠ []) :
    ∃ text', t = text' ++ [c] ∧ text = s ++ text' := by
  have hlast := t.dropLast_append_getLast ht
  rw [← hlast, ← List.append_assoc] at h
  obtain ⟨htext, hc⟩ := append_singleton_inj h
  exact ⟨t.dropLast, hc ▸ hlast.symm, htext.symm⟩

theorem not_quote_of_whitespace (h : ∀ c ∈ s, c = 0 ∨ IsWhitespace c) :
    255 ∉ s ∧ s.count backquote = 0 := by
  constructor
  · intro hmem
    exact absurd (h 255 hmem) (by decide)
  · apply List.count_eq_zero.mpr
    intro hmem
    exact absurd (h backquote hmem) (by decide)

theorem Lexes.lossless {lexed : List (List UInt8 × Token)} (h : Lexes ptr lexed)
    (hptr : ptr = text ++ [0]) (hnul : 0 ∉ text) (hquoted : Quoted text) : Lossless text lexed := by
  induction h generalizing text with
  | eof hlex hkind =>
    obtain ⟨htakes, gap, rfl, hgap⟩ := lexToken_takes hlex (by rw [hkind]; rfl)
    rw [skipped_append]
    cases htakes with
    | eof =>
      obtain ⟨rfl, -⟩ := append_singleton_inj hptr
      have hspace : ∀ c ∈ gap, IsWhitespace c := fun c hc ↦
        (hgap c hc).resolve_left fun hzero ↦ hnul (hzero ▸ hc)
      exact ⟨by simp, by simpa using hspace, by simp⟩
    | signed rest =>
      obtain ⟨text', hrest, rfl⟩ := exists_eq_append_of_ne_nil hptr (List.cons_ne_nil _ _)
      cases text' with
      | nil => exact absurd (List.cons.inj hrest).1 (by decide)
      | cons c text' =>
        obtain ⟨rfl, -⟩ := List.cons.inj hrest
        have hodd := hquoted gap text' rfl
        rw [(not_quote_of_whitespace hgap).2] at hodd
        exact absurd hodd (by decide)
    | literal body rest hbody => contradiction
    | var word rest hword => contradiction
    | plain kind word rest hplain hword =>
      obtain rfl : kind = .eof := hkind
      contradiction
  | cons hlex hkind herror hrest ih =>
    obtain ⟨htakes, gap, rfl, hgap⟩ := lexToken_takes hlex herror
    rw [skipped_append]
    rw [htakes.loc_eq, ← List.append_assoc] at hptr
    obtain ⟨text', hrest', rfl⟩ := exists_eq_append_of_ne_nil hptr hrest.ne_nil
    rw [List.append_assoc] at hnul hquoted
    obtain ⟨hbyte, hcount⟩ := not_quote_of_whitespace hgap
    rw [quoted_append (quoted_of_not_mem hbyte) (by rw [hcount]; exact Even.zero),
      quoted_append (htakes.quoted hkind) htakes.even] at hquoted
    have hnul' : 0 ∉ text' := fun hmem ↦
      hnul (List.mem_append_right _ (List.mem_append_right _ hmem))
    obtain ⟨htext, hspace, heof⟩ := ih hrest' hnul' hquoted
    constructor
    · rw [List.flatMap_cons, htext]
    · intro gap' token' hmem c hc
      rcases List.mem_cons.mp hmem with hhead | hmem
      · obtain ⟨rfl, rfl⟩ := Prod.mk.inj hhead
        exact (hgap c hc).resolve_left fun hzero ↦ hnul (hzero ▸ List.mem_append_left _ hc)
      · exact hspace gap' token' hmem c hc
    · intro gap' token' hmem heof'
      rcases List.mem_cons.mp hmem with hhead | hmem
      · obtain ⟨rfl, rfl⟩ := Prod.mk.inj hhead
        exact absurd heof' hkind
      · exact heof gap' token' hmem heof'

theorem Lexes.quoted {lexed : List (List UInt8 × Token)} (h : Lexes ptr lexed)
    (heof : ∀ gap token, (gap, token) ∈ lexed → token.kind = .eof → token.spelling = []) :
    ptr = (lexed.flatMap fun (gap, token) ↦ gap ++ token.spelling) ++ [0] ∧
      Quoted (lexed.flatMap fun (gap, token) ↦ gap ++ token.spelling) := by
  induction h with
  | eof hlex hkind =>
    obtain ⟨htakes, gap, rfl, hgap⟩ := lexToken_takes hlex (by rw [hkind]; rfl)
    have hspelling := heof _ _ (List.mem_singleton_self _) hkind
    cases htakes with
    | eof =>
      have hquoted := quoted_of_not_mem (not_quote_of_whitespace hgap).1
      have hskipped : skipped (gap ++ [0]) ⟨.eof, [0], []⟩ = gap :=
        skipped_append gap ⟨.eof, [0], []⟩
      simpa [hskipped] using hquoted
    | signed rest => contradiction
    | literal body rest hbody => contradiction
    | var word rest hword => contradiction
    | plain kind word rest hplain hword =>
      obtain rfl : kind = .eof := hkind
      contradiction
  | cons hlex hkind herror hrest ih =>
    obtain ⟨htakes, gap, rfl, hgap⟩ := lexToken_takes hlex herror
    obtain ⟨hrest', hquoted⟩ := ih fun gap' token' hmem ↦ heof gap' token' (.tail _ hmem)
    obtain ⟨hbyte, hcount⟩ := not_quote_of_whitespace hgap
    rw [skipped_append, List.flatMap_cons]
    constructor
    · rw [List.append_assoc, ← hrest', List.append_assoc, ← htakes.loc_eq]
    · rw [List.append_assoc,
        quoted_append (quoted_of_not_mem hbyte) (by rw [hcount]; exact Even.zero),
        quoted_append (htakes.quoted hkind) htakes.even]
      exact hquoted

/-- The lexer takes the whole string if and only if there is no NUL in it, and no byte 255 outside
of literals. -/
theorem lexing_lossless_iff (text : List UInt8) (lexed : List (List UInt8 × Token))
    (h : Lexes (cString text) lexed) : Lossless text lexed ↔ 0 ∉ text ∧ Quoted text := by
  constructor
  · intro hlossless
    obtain ⟨hptr, hquoted⟩ := h.quoted hlossless.eof_spelling
    rw [hlossless.text_eq] at hptr hquoted
    obtain ⟨htext, -⟩ := append_singleton_inj hptr
    refine ⟨fun hmem ↦ ?_, hquoted⟩
    have hnul := List.mem_takeWhile_imp (htext.symm ▸ hmem : (0 : UInt8) ∈ text.takeWhile (· ≠ 0))
    exact absurd hnul (by decide)
  · intro ⟨hnul, hquoted⟩
    have htext : text.takeWhile (· ≠ 0) = text :=
      List.takeWhile_eq_self_iff.mpr fun c hc ↦ decide_eq_true fun hzero ↦ hnul (hzero ▸ hc)
    exact h.lossless (by rw [cString, htext]) hnul hquoted

/-- At most `fuel` tokens. -/
def lexAll : ℕ → Ptr → Option (List (List UInt8 × Token))
  | 0, _ => none
  | fuel + 1, ptr => do
    let (token, rest) ← lexToken ptr
    if token.kind = .eof then some [(skipped ptr token, token)]
    else if token.kind.isError then none
    else (lexAll fuel rest).map ((skipped ptr token, token) :: ·)

theorem lexes_of_lexAll {fuel : ℕ} {lexed : List (List UInt8 × Token)}
    (h : lexAll fuel ptr = some lexed) : Lexes ptr lexed := by
  induction fuel generalizing ptr lexed with
  | zero => contradiction
  | succ fuel ih =>
    obtain ⟨⟨token, rest⟩, hlex, h⟩ := Option.bind_eq_some_iff.mp h
    simp only at h
    split at h
    · rename_i heof
      obtain rfl := Option.some.inj h
      exact .eof hlex heof
    · split at h
      · contradiction
      · rename_i hne herror
        obtain ⟨lexed, hrest, rfl⟩ := Option.map_eq_some_iff.mp h
        exact .cons hlex hne (Bool.eq_false_iff.mpr herror) (ih hrest)

/-- `$x ^` -/
def anchored : List UInt8 := bytes "$x ^"

theorem lexing_lossless_iff_anchored :
    Lossless anchored [([], ⟨.var, cString anchored, bytes "$x"⟩),
      ([32], ⟨.caret, [94, 0], [94]⟩), ([], ⟨.eof, [0], []⟩)] := by
  have hlex : lexAll 3 (cString anchored) = some [([], ⟨.var, cString anchored, bytes "$x"⟩),
      ([32], ⟨.caret, [94, 0], [94]⟩), ([], ⟨.eof, [0], []⟩)] := by decide +kernel
  exact (lexing_lossless_iff anchored _ (lexes_of_lexAll hlex)).mpr
    ⟨by decide, quoted_of_not_mem (by decide)⟩

/-- `type` is followed by a NUL in one string and by the byte 255 in the other; `$x` is lost. -/
theorem lexing_not_lossless :
    (∃ lexed, Lexes (cString (bytes "type" ++ 0 :: bytes "$x")) lexed ∧
      ¬ Lossless (bytes "type" ++ 0 :: bytes "$x") lexed) ∧
    ∃ lexed, Lexes (cString (bytes "type" ++ 255 :: bytes "$x")) lexed ∧
      ¬ Lossless (bytes "type" ++ 255 :: bytes "$x") lexed := by
  constructor
  · have hlex : lexAll 2 (cString (bytes "type" ++ 0 :: bytes "$x")) =
        some [([], ⟨.kwType, bytes "type" ++ [0], bytes "type"⟩), ([], ⟨.eof, [0], []⟩)] := by
      decide +kernel
    refine ⟨_, lexes_of_lexAll hlex, fun hlossless ↦ ?_⟩
    exact absurd hlossless.text_eq (by decide)
  · have hlex : lexAll 2 (cString (bytes "type" ++ 255 :: bytes "$x")) =
        some [([], ⟨.kwType, bytes "type" ++ [255, 36, 120, 0], bytes "type"⟩),
          ([], ⟨.eof, [255, 36, 120, 0], [255]⟩)] := by decide +kernel
    refine ⟨_, lexes_of_lexAll hlex, fun hlossless ↦ ?_⟩
    exact absurd hlossless.text_eq (by decide)

end DeclarativeMlir.Embed.FormatLexer

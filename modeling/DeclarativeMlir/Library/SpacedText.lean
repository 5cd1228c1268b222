import Mathlib.Data.List.Induction
import Mathlib.Algebra.Order.Ring.Int

/-!
# Texts with spaces

A text is put together from pieces with or without a space in front of them. A lexer finds the
tokens of every piece exactly if no piece without a space joins the text that it is put behind.
-/

namespace SpacedText

section Lexing

variable {Token : Type} (lex : List Char → List Token)

/-- A text of whole tokens. What stands behind a space is read on its own. -/
def Whole (text : List Char) : Prop :=
  ∀ after, lex (text ++ ' ' :: after) = lex text ++ lex after

/-- Tokens do not run over the border of two texts. -/
def Separate (first second : List Char) : Prop :=
  lex (first ++ second) = lex first ++ lex second

/-- A lexer that takes the longest token each time and skips spaces. -/
structure LawfulLexer : Prop where
  nil : lex [] = []
  whole_nil : Whole lex []
  /-- the end of a text stops a token like a space does -/
  append : ∀ {first second : List Char}, Whole lex first → Whole lex second →
    Separate lex first second → Whole lex (first ++ second)
  /-- tokens that are apart stay apart where the text behind them is cut off -/
  cut : ∀ {first second after : List Char} {tokens : List Token}, Whole lex first →
    Whole lex second → lex (first ++ second ++ after) = lex first ++ lex second ++ tokens →
    Separate lex first second

end Lexing

/-- A piece of a text. -/
structure Piece where
  spaced : Bool
  text : List Char

def Piece.render (piece : Piece) : List Char :=
  if piece.spaced then ' ' :: piece.text else piece.text

def render (pieces : List Piece) : List Char := pieces.flatMap Piece.render

@[simp]
theorem render_append (first second : List Piece) :
    render (first ++ second) = render first ++ render second := List.flatMap_append

@[simp]
theorem render_singleton (piece : Piece) : render [piece] = piece.render := by simp [render]

@[simp]
theorem render_cons (piece : Piece) (pieces : List Piece) :
    render (piece :: pieces) = piece.render ++ render pieces := List.flatMap_cons

section Pieces

variable {Token : Type} {lex : List Char → List Token}

variable (lex) in
/-- The tokens of the pieces in order. -/
def tokens (pieces : List Piece) : List Token := pieces.flatMap fun piece ↦ lex piece.text

@[simp]
theorem tokens_append (first second : List Piece) :
    tokens lex (first ++ second) = tokens lex first ++ tokens lex second := List.flatMap_append

@[simp]
theorem tokens_cons (piece : Piece) (pieces : List Piece) :
    tokens lex (piece :: pieces) = lex piece.text ++ tokens lex pieces := List.flatMap_cons

@[simp]
theorem tokens_nil : tokens lex [] = [] := rfl

variable (lex) in
/-- Every piece without a space is separate from the text in front of it. -/
def AllSeparate (pieces : List Piece) : Prop :=
  ∀ before piece after, pieces = before ++ piece :: after → piece.spaced = false →
    Separate lex (render before) piece.text

theorem allSeparate_nil : AllSeparate lex [] := by
  intro before piece after h
  exact absurd h.symm (List.append_ne_nil_of_right_ne_nil before (List.cons_ne_nil piece after))

theorem allSeparate_snoc {pieces : List Piece} {piece : Piece} :
    AllSeparate lex (pieces ++ [piece]) ↔
      AllSeparate lex pieces ∧
        (piece.spaced = false → Separate lex (render pieces) piece.text) := by
  constructor
  · intro h
    refine ⟨fun before it after heq ↦ ?_, h pieces piece [] rfl⟩
    exact h before it (after ++ [piece]) (by rw [heq, List.append_assoc, List.cons_append])
  · rintro ⟨hpieces, hlast⟩ before it after heq hspaced
    cases after using List.reverseRecOn with
    | nil =>
      obtain ⟨rfl, hit⟩ := List.append_inj' heq rfl
      obtain rfl := List.singleton_inj.mp hit
      exact hlast hspaced
    | append_singleton after last =>
      rw [← List.cons_append, ← List.append_assoc] at heq
      exact hpieces before it after (List.append_inj' heq rfl).1 hspaced

namespace LawfulLexer

variable (hlex : LawfulLexer lex)
include hlex

theorem lex_space (text : List Char) : lex (' ' :: text) = lex text := by
  have hspace := hlex.whole_nil text
  rwa [hlex.nil] at hspace

theorem whole_space {text : List Char} (h : Whole lex text) : Whole lex (' ' :: text) := by
  intro after
  rw [List.cons_append, hlex.lex_space, hlex.lex_space, h after]

theorem separate_space {first second : List Char} (h : Whole lex first) :
    Separate lex first (' ' :: second) := by
  rw [Separate, h second, hlex.lex_space]

theorem lex_render (piece : Piece) : lex piece.render = lex piece.text := by
  rw [Piece.render]
  split
  · exact hlex.lex_space _
  · rfl

theorem whole_render {piece : Piece} (h : Whole lex piece.text) : Whole lex piece.render := by
  rw [Piece.render]
  split
  · exact hlex.whole_space h
  · exact h

/-- One more piece. -/
theorem reads_snoc {pieces : List Piece} {piece : Piece} (hpiece : Whole lex piece.text)
    (hreads : lex (render pieces) = tokens lex pieces) (hwhole : Whole lex (render pieces))
    (hseparate : Separate lex (render pieces) piece.render) :
    lex (render (pieces ++ [piece])) = tokens lex (pieces ++ [piece]) ∧
      Whole lex (render (pieces ++ [piece])) := by
  rw [render_append, render_singleton, tokens_append, tokens_cons, tokens_nil, List.append_nil]
  constructor
  · rw [hseparate, hreads, hlex.lex_render]
  · exact hlex.append hwhole (hlex.whole_render hpiece) hseparate

/-- If the tokens of all pieces are read, those of the first ones are. -/
theorem reads_of_append {first second : List Piece}
    (hpieces : ∀ piece ∈ first, Whole lex piece.text)
    (h : lex (render (first ++ second)) = tokens lex (first ++ second)) :
    lex (render first) = tokens lex first ∧ Whole lex (render first) := by
  induction first using List.reverseRecOn generalizing second with
  | nil => exact ⟨hlex.nil, hlex.whole_nil⟩
  | append_singleton first piece ih =>
    rw [List.forall_mem_append, List.forall_mem_singleton] at hpieces
    rw [List.append_assoc, List.singleton_append] at h
    obtain ⟨hreads, hwhole⟩ := ih hpieces.1 h
    have hcut : lex (render first ++ piece.render ++ render second) =
        lex (render first) ++ lex piece.render ++ tokens lex second := by
      rw [hreads, hlex.lex_render, List.append_assoc, List.append_assoc]
      simpa using h
    exact hlex.reads_snoc hpieces.2 hreads hwhole
      (hlex.cut hwhole (hlex.whole_render hpieces.2) hcut)

/-- The tokens of the pieces are read exactly if every piece without a space is separate from the
text in front of it. -/
theorem reads_iff {pieces : List Piece} (hpieces : ∀ piece ∈ pieces, Whole lex piece.text) :
    lex (render pieces) = tokens lex pieces ↔ AllSeparate lex pieces := by
  constructor
  · rintro h before piece after rfl hspaced
    rw [List.forall_mem_append, List.forall_mem_cons] at hpieces
    obtain ⟨hreads, hwhole⟩ := hlex.reads_of_append hpieces.1 h
    apply hlex.cut hwhole hpieces.2.1
    · rw [hreads, List.append_assoc, List.append_assoc]
      simpa [Piece.render, hspaced] using h
  · intro h
    have hall : lex (render pieces) = tokens lex pieces ∧ Whole lex (render pieces) := by
      induction pieces using List.reverseRecOn with
      | nil => exact ⟨hlex.nil, hlex.whole_nil⟩
      | append_singleton pieces piece ih =>
        rw [List.forall_mem_append, List.forall_mem_singleton] at hpieces
        rw [allSeparate_snoc] at h
        obtain ⟨hreads, hwhole⟩ := ih hpieces.1 h.1
        apply hlex.reads_snoc hpieces.2 hreads hwhole
        cases hspaced : piece.spaced with
        | true =>
          rw [Piece.render, if_pos hspaced]
          exact hlex.separate_space hwhole
        | false =>
          rw [Piece.render, hspaced, if_neg Bool.false_ne_true]
          exact h.2 hspaced
    exact hall.1

end LawfulLexer

end Pieces

/-! ## Words -/

/-- The characters of names, numbers and variables. -/
def isWordChar (c : Char) : Bool := c.isAlphanum || c ∈ ['_', '.', '$', '%', '^', '@', '#', '!']

/-- A character in front of the tokens behind it, which begin with a word or not. -/
def consChar (c : Char) (inWord : Bool) : List (List Char) → List (List Char)
  | [] => if c = ' ' then [] else [[c]]
  | token :: rest =>
    if isWordChar c && inWord then (c :: token) :: rest
    else if c = ' ' then token :: rest else [c] :: token :: rest

def startsWord (text : List Char) : Bool := text.head?.any isWordChar

/-- The lexer that takes words as long as they get, and any other character but a space by
itself. -/
def words : List Char → List (List Char)
  | [] => []
  | c :: text => consChar c (startsWord text) (words text)

theorem words_cons (c : Char) (text : List Char) :
    words (c :: text) = consChar c (startsWord text) (words text) := rfl

/-- A word runs over the border of two texts. -/
def Joins (first second : List Char) : Prop :=
  first.getLast?.any isWordChar = true ∧ startsWord second = true

theorem consChar_append {c : Char} {inWord : Bool} {first : List (List Char)} (hne : first ≠ [])
    (second : List (List Char)) :
    consChar c inWord (first ++ second) = consChar c inWord first ++ second := by
  cases first with
  | nil => exact absurd rfl hne
  | cons token rest =>
    rw [List.cons_append, consChar, consChar]
    split_ifs <;> rfl

theorem consChar_of_not {c : Char} {inWord : Bool} (h : (isWordChar c && inWord) = false)
    (tokens : List (List Char)) :
    consChar c inWord tokens = consChar c false [] ++ tokens := by
  cases tokens with
  | nil => rw [List.append_nil, consChar, consChar]
  | cons token rest =>
    simp only [consChar, h, Bool.false_eq_true, if_false]
    split_ifs <;> rfl

theorem isWordChar_space : isWordChar ' ' = false := by decide

/-- A word is read as one token. -/
theorem words_of_startsWord {text : List Char} (h : startsWord text = true) :
    ∃ token rest, words text = token :: rest ∧ token ≠ [] := by
  cases text with
  | nil => cases h
  | cons c text =>
    have hspace : c ≠ ' ' := by
      rintro rfl
      rw [startsWord, List.head?_cons, Option.any_some, isWordChar_space] at h
      cases h
    rw [words]
    cases words text with
    | nil => exact ⟨[c], [], if_neg hspace, List.cons_ne_nil _ _⟩
    | cons token rest =>
      rw [consChar, if_neg hspace]
      split_ifs
      · exact ⟨c :: token, rest, rfl, List.cons_ne_nil _ _⟩
      · exact ⟨[c], token :: rest, rfl, List.cons_ne_nil _ _⟩

theorem separate_of_not_joins {first second : List Char} (h : ¬ Joins first second) :
    Separate words first second := by
  rw [Separate]
  induction first with
  | nil => rfl
  | cons c first ih =>
    cases first with
    | nil =>
      have hjoins : (isWordChar c && startsWord second) = false := by
        rw [Bool.eq_false_iff]
        intro htrue
        exact h (by simpa [Joins] using htrue)
      rw [List.singleton_append, words, consChar_of_not hjoins, words, words]
      rfl
    | cons d first =>
      have hrest : ¬ Joins (d :: first) second := by
        rw [Joins] at h ⊢
        rwa [List.getLast?_cons_cons] at h
      have hstart : startsWord (d :: first ++ second) = startsWord (d :: first) := rfl
      rw [List.cons_append, words_cons c, ih hrest, hstart, words_cons c]
      cases hword : isWordChar c && startsWord (d :: first) with
      | false => rw [consChar_of_not hword, consChar_of_not hword, List.append_assoc]
      | true =>
        rw [Bool.and_eq_true] at hword
        obtain ⟨token, rest, heq, -⟩ := words_of_startsWord hword.2
        exact consChar_append (by rw [heq]; exact List.cons_ne_nil _ _) _

/-- Where a word runs over the border, the last token in front of it becomes longer. -/
theorem words_of_joins {first second : List Char} (h : Joins first second) :
    ∃ tokens token more rest, words first = tokens ++ [token] ∧
      words (first ++ second) = tokens ++ (token ++ more) :: rest ∧ more ≠ [] := by
  induction first with
  | nil => cases h.1
  | cons c first ih =>
    cases first with
    | nil =>
      have hc : isWordChar c = true := by simpa using h.1
      have hspace : c ≠ ' ' := by
        rintro rfl
        rw [isWordChar_space] at hc
        cases hc
      obtain ⟨token, rest, heq, hne⟩ := words_of_startsWord h.2
      refine ⟨[], [c], token, rest, ?_, ?_, hne⟩
      · rw [words, words, consChar, if_neg hspace, List.nil_append]
      · rw [List.singleton_append, words, heq, h.2, consChar, hc]
        rfl
    | cons d first =>
      have hrest : Joins (d :: first) second := by
        rw [Joins, List.getLast?_cons_cons] at h
        exact h
      obtain ⟨tokens, token, more, rest, hfirst, hall, hmore⟩ := ih hrest
      have hstart : startsWord (d :: first ++ second) = startsWord (d :: first) := rfl
      rw [List.cons_append, words_cons c, words_cons c, hstart, hall, hfirst]
      cases hword : isWordChar c && startsWord (d :: first) with
      | false =>
        rw [consChar_of_not hword, consChar_of_not hword]
        exact ⟨consChar c false [] ++ tokens, token, more, rest, (List.append_assoc _ _ _).symm,
          (List.append_assoc _ _ _).symm, hmore⟩
      | true =>
        cases tokens with
        | nil =>
          refine ⟨[], c :: token, more, rest, ?_, ?_, hmore⟩
          · rw [List.nil_append, consChar, hword]
            rfl
          · rw [List.nil_append, consChar, hword]
            rfl
        | cons head tokens =>
          refine ⟨(c :: head) :: tokens, token, more, rest, ?_, ?_, hmore⟩
          · rw [List.cons_append, consChar, hword]
            rfl
          · rw [List.cons_append, consChar, hword]
            rfl

theorem whole_words (text : List Char) : Whole words text := by
  intro after
  have hspace : words (' ' :: after) = words after := by
    rw [words, consChar_of_not (by rw [isWordChar_space]; rfl)]
    rfl
  rw [separate_of_not_joins, hspace]
  intro h
  rw [Joins, startsWord, List.head?_cons, Option.any_some, isWordChar_space] at h
  exact Bool.false_ne_true h.2

theorem lawfulLexer_words : LawfulLexer words where
  nil := rfl
  whole_nil := whole_words []
  append := fun _ _ _ ↦ whole_words _
  cut := by
    intro first second after tokens _ _ h
    apply separate_of_not_joins
    intro hjoins
    have hsecond : Joins first (second ++ after) := by
      refine ⟨hjoins.1, ?_⟩
      cases second with
      | nil => cases hjoins.2
      | cons c second => exact hjoins.2
    obtain ⟨init, token, more, rest, hfirst, hall, hmore⟩ := words_of_joins hsecond
    rw [List.append_assoc, hall, hfirst, List.append_assoc, List.append_assoc,
      List.append_cancel_left_eq, List.singleton_append, List.cons.injEq] at h
    exact hmore (List.append_right_eq_self.mp h.1)

end SpacedText

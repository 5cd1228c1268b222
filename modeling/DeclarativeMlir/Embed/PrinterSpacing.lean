import DeclarativeMlir.Embed.GeneratedPython
import DeclarativeMlir.Library.SpacedText

/-!
# Spaces in printed ops

The text that a generated printer prints for an op. Whether a space is put in front of a piece is
decided when the printer is generated, as if every optional group were printed. Where a group that
ends with an opening bracket is absent, the piece behind it may be put directly behind what is in
front of the group.
-/

namespace DeclarativeMlir.Embed.OpGenerator

open Spec OpFormat PythonCode SpacedText

/-! ## Printed pieces -/

/-- An op as its printer sees it. -/
structure Printing where
  name : List Char
  /-- the condition of a group with this anchor holds -/
  present : Element → Bool
  /-- what is printed of an element -/
  text : Element → List Char

namespace Printing

variable (printing : Printing)

def isPresent (elements : List Element) (anchor : ℕ) : Bool :=
  (elements[anchor]?).any printing.present

/-- The elements of an item that are printed. -/
def printedElements : Item → List Element
  | .element element => [element]
  | .optional elements anchor => if printing.isPresent elements anchor then elements else []

/-- The elements that are printed. -/
def printed (items : List Item) : List Element := items.flatMap printing.printedElements

def elementPiece (flags : Flags) (element : Element) : Piece :=
  ⟨flags.spaceBefore element, printing.text element⟩

def elementPieces : Flags → List Element → List Piece
  | _, [] => []
  | flags, element :: elements =>
    printing.elementPiece flags element :: elementPieces (flags.next element) elements

/-- The flags behind a group do not depend on whether it is printed. -/
def itemPieces : Flags → List Item → List Piece
  | _, [] => []
  | flags, item :: items =>
    printing.elementPieces flags (printing.printedElements item) ++
      itemPieces (flags.nextAll item.elements) items

/-- The pieces that are printed for a format, with the name of the op first. -/
def pieces (items : List Item) : List Piece :=
  ⟨false, printing.name⟩ :: printing.itemPieces .start items

/-- The text that is printed for some items. -/
def textOf (items : List Item) : List Char := render (printing.pieces items)

-- The equations are made once, here, and not by all the proofs below at the same time.
attribute [grind =] printedElements elementPieces itemPieces

/-- The pieces are the texts of the name and of the elements that are printed. -/
theorem tokens_elementPieces {Token : Type} (lex : List Char → List Token) (flags : Flags)
    (elements : List Element) :
    tokens lex (printing.elementPieces flags elements) =
      elements.flatMap fun element ↦ lex (printing.text element) := by
  induction elements generalizing flags with
  | nil => rfl
  | cons element elements ih =>
    rw [elementPieces, tokens_cons, ih, List.flatMap_cons]
    rfl

theorem tokens_itemPieces {Token : Type} (lex : List Char → List Token) (flags : Flags)
    (items : List Item) :
    tokens lex (printing.itemPieces flags items) =
      (printing.printed items).flatMap fun element ↦ lex (printing.text element) := by
  induction items generalizing flags with
  | nil => rfl
  | cons item items ih =>
    rw [itemPieces, tokens_append, ih, tokens_elementPieces]
    simp only [printed, List.flatMap_cons, List.flatMap_append]

theorem elementPieces_append (flags : Flags) (first second : List Element) :
    printing.elementPieces flags (first ++ second) =
      printing.elementPieces flags first ++
        printing.elementPieces (flags.nextAll first) second := by
  induction first generalizing flags with
  | nil => rfl
  | cons element first ih =>
    rw [List.cons_append, elementPieces, ih, elementPieces, List.cons_append]
    rfl

theorem itemPieces_append (flags : Flags) (first second : List Item) :
    printing.itemPieces flags (first ++ second) =
      printing.itemPieces flags first ++
        printing.itemPieces (flags.nextAll (leaves first)) second := by
  induction first generalizing flags with
  | nil => rfl
  | cons item first ih =>
    have hflags : flags.nextAll (leaves (item :: first)) =
        (flags.nextAll item.elements).nextAll (leaves first) := List.foldl_append
    rw [List.cons_append, itemPieces, ih, itemPieces, hflags, List.append_assoc]

theorem itemPieces_singleton (flags : Flags) (item : Item) :
    printing.itemPieces flags [item] =
      printing.elementPieces flags (printing.printedElements item) := by
  rw [itemPieces, itemPieces, List.append_nil]

theorem exists_of_mem_elementPieces {flags : Flags} {elements : List Element} {piece : Piece}
    (h : piece ∈ printing.elementPieces flags elements) :
    ∃ element ∈ elements, piece.text = printing.text element := by
  induction elements generalizing flags with
  | nil => cases h
  | cons element elements ih =>
    rcases List.mem_cons.mp h with rfl | h
    · exact ⟨element, List.mem_cons_self .., rfl⟩
    · obtain ⟨other, hmem, htext⟩ := ih h
      exact ⟨other, List.mem_cons_of_mem _ hmem, htext⟩

theorem mem_printedElements {item : Item} {element : Element}
    (h : element ∈ printing.printedElements item) : element ∈ item.elements := by
  cases item with
  | element e => exact h
  | optional elements anchor =>
    rw [printedElements] at h
    split at h
    · exact h
    · cases h

theorem exists_of_mem_itemPieces {flags : Flags} {items : List Item} {piece : Piece}
    (h : piece ∈ printing.itemPieces flags items) :
    ∃ element ∈ leaves items, piece.text = printing.text element := by
  induction items generalizing flags with
  | nil => cases h
  | cons item items ih =>
    rw [itemPieces, List.mem_append] at h
    rcases h with h | h
    · obtain ⟨element, hmem, htext⟩ := printing.exists_of_mem_elementPieces h
      exact ⟨element, mem_leaves (List.mem_cons_self ..) (printing.mem_printedElements hmem),
        htext⟩
    · obtain ⟨element, hmem, htext⟩ := ih h
      exact ⟨element, List.mem_append_right _ hmem, htext⟩

/-- A piece is the name or an element. -/
theorem mem_pieces {items : List Item} {piece : Piece} (h : piece ∈ printing.pieces items) :
    piece.text = printing.name ∨ ∃ element ∈ leaves items, piece.text = printing.text element := by
  rcases List.mem_cons.mp h with rfl | h
  · exact .inl rfl
  · exact .inr (printing.exists_of_mem_itemPieces h)

/-- The flags behind some items. -/
def flagsAfter (items : List Item) : Flags := Flags.start.nextAll (leaves items)

theorem pieces_append (first second : List Item) :
    printing.pieces (first ++ second) =
      printing.pieces first ++ printing.itemPieces (flagsAfter first) second := by
  rw [pieces, itemPieces_append]
  rfl

theorem pieces_snoc (items : List Item) (item : Item) :
    printing.pieces (items ++ [item]) =
      printing.pieces items ++
        printing.elementPieces (flagsAfter items) (printing.printedElements item) := by
  rw [pieces_append, itemPieces_singleton]

end Printing

/-! ## Texts that are lexed -/

/-- A lexer of the syntax of ops: brackets and commas are tokens by themselves, but for `->`. -/
structure OpLexer {Token : Type} (lex : List Char → List Token) : Prop extends
    LawfulLexer lex where
  bracket : ∀ {before after : List Char} {c : Char}, c ∈ "<>()[],\x7d".toList →
    Whole lex before → (c = '>' → before.getLast? ≠ some '-') →
    lex (before ++ c :: after) = lex before ++ (lex [c] ++ lex after)
  literal : ∀ {text : String}, isValidLiteral text = true → Whole lex text.toList

/-- What is printed of an op. An attribute dictionary that is printed begins with a space, and ends
with a brace. -/
structure Printing.Lawful {Token : Type} (lex : List Char → List Token) (printing : Printing) :
    Prop where
  name : Whole lex printing.name ∧ printing.name.getLast? ≠ some '-'
  literal : ∀ text, printing.text (.literal text) = text.toList
  dict : ∀ withKeyword, printing.text (.attrDict withKeyword) = [] ∨
    ∃ inner, Whole lex inner ∧
      printing.text (.attrDict withKeyword) = ' ' :: (inner ++ ['\x7d'])
  element : ∀ element, (∀ text, element ≠ .literal text) →
    (∀ withKeyword, element ≠ .attrDict withKeyword) →
    Whole lex (printing.text element) ∧ (printing.text element).getLast? ≠ some '-'

namespace OpLexer

variable {Token : Type} {lex : List Char → List Token} (hlex : OpLexer lex)
include hlex

theorem separate_bracket {before : List Char} {c : Char} (hc : c ∈ "<>()[],\x7d".toList)
    (h : Whole lex before) (hminus : c = '>' → before.getLast? ≠ some '-') :
    Separate lex before [c] := by
  have hbracket : lex (before ++ [c]) = lex before ++ (lex [c] ++ lex []) :=
    hlex.bracket hc h hminus
  rwa [hlex.nil, List.append_nil] at hbracket

/-- Nothing joins a bracket. -/
theorem separate_after_bracket {before after : List Char} {c : Char}
    (hc : c ∈ "<>()[],\x7d".toList) (h : Whole lex before)
    (hminus : c = '>' → before.getLast? ≠ some '-') : Separate lex (before ++ [c]) after := by
  have hfirst := hlex.separate_bracket hc h hminus
  rw [Separate, List.append_assoc, List.singleton_append, hlex.bracket hc h hminus, hfirst,
    List.append_assoc]

theorem whole_bracket {c : Char} (hc : c ∈ "<>()[],\x7d".toList) : Whole lex [c] := by
  intro after
  have hbracket : lex ([] ++ c :: ' ' :: after) = lex [] ++ (lex [c] ++ lex (' ' :: after)) :=
    hlex.bracket hc hlex.whole_nil fun _ ↦ by simp
  rwa [hlex.nil, hlex.lex_space] at hbracket

end OpLexer

/-! ## Literals -/

/-- A bracket that no space is put behind. -/
def IsOpening (element : Element) : Prop :=
  ∃ text ∈ ["<", "(", "["], element = .literal text

/-- The literals of a format are valid. -/
def IsValid (element : Element) : Prop :=
  ∀ text, element = .literal text → isValidLiteral text = true

/-- A keyword does not begin with a punctuation. -/
theorem frontIn_keyword {text chars : String} (h : isKeywordLiteral text = true)
    (hchars : (chars.toList.any fun c ↦ c == '_' || c.isAlpha) = false) :
    frontIn text chars = false := by
  rw [isKeywordLiteral] at h
  rw [frontIn]
  cases hlist : text.toList with
  | nil => rfl
  | cons front rest =>
    rw [hlist] at h
    rw [List.head?_cons, Option.any_some, decide_eq_false_iff_not]
    intro hmem
    have hfront : (front == '_' || front.isAlpha) = true := h
    rw [List.any_eq_false] at hchars
    exact hchars front hmem hfront

def punctuations : List String := ["->", ":", ",", "=", "<", ">", "(", ")", "[", "]"]

/-- The punctuations that no space is put behind. -/
theorem opening_of_punctuation : ∀ text ∈ punctuations,
    (Flags.start.next (.literal text)).shouldEmitSpace = false → text ∈ ["<", "(", "["] := by
  decide

theorem isOpening_of_next {flags : Flags} {element : Element} (hvalid : IsValid element)
    (hdict : ∀ withKeyword, element ≠ .attrDict withKeyword)
    (h : (flags.next element).shouldEmitSpace = false) : IsOpening element := by
  cases element with
  | literal text =>
    cases hkeyword : isKeywordLiteral text with
    | true =>
      rw [Flags.next, frontIn_keyword hkeyword (by decide)] at h
      simp at h
    | false =>
      have hmem := punctuation_of_isValidLiteral (hvalid text rfl) hkeyword
      exact ⟨text, opening_of_punctuation text hmem h, rfl⟩
  | attrDict withKeyword => exact absurd rfl (hdict withKeyword)
  | _ => cases h

/-- The punctuations that stand without a space behind something that is not an opening bracket. -/
theorem bracket_of_punctuation : ∀ text ∈ punctuations, ∀ lastWasPunctuation,
    shouldPrintSpaceBeforeLiteral lastWasPunctuation text = false →
      text ∈ [",", "<", ">", "(", ")", "[", "]"] := by
  decide

/-- A literal that is printed without a space where a space could stand is a bracket or a comma. -/
theorem bracket_of_unspaced {flags : Flags} {text : String} (hvalid : isValidLiteral text = true)
    (hspace : flags.shouldEmitSpace = true) (h : flags.spaceBefore (.literal text) = false) :
    text ∈ [",", "<", ">", "(", ")", "[", "]"] := by
  rw [Flags.spaceBefore, hspace, Bool.true_and] at h
  cases hkeyword : isKeywordLiteral text with
  | true =>
    rw [shouldPrintSpaceBeforeLiteral] at h
    split_ifs at h
    · rw [frontIn_keyword hkeyword (by decide)] at h
      cases h
    · rw [frontIn_keyword hkeyword (by decide)] at h
      cases h
  | false =>
    exact bracket_of_punctuation text (punctuation_of_isValidLiteral hvalid hkeyword) _ h

/-- A literal does not end with a minus. -/
theorem getLast?_ne_minus {text : String} (h : isValidLiteral text = true) :
    text.toList.getLast? ≠ some '-' := by
  intro hlast
  have hmem := List.mem_of_getLast? hlast
  rw [isValidLiteral] at h
  split at h
  · rename_i heq
    rw [heq] at hmem
    cases hmem
  · rename_i front heq
    rw [heq, List.mem_singleton] at hmem
    subst hmem
    revert h
    decide
  · rename_i front rest hrest heq
    rw [Bool.or_eq_true, beq_iff_eq, Bool.and_eq_true, List.all_eq_true] at h
    rcases h with rfl | ⟨hfront, hall⟩
    · revert hlast
      decide
    · rw [heq, List.mem_cons] at hmem
      rcases hmem with rfl | hmem
      · revert hfront
        decide
      · have hminus := hall _ hmem
        revert hminus
        decide

/-! ## One element after another -/

section Steps

variable {Token : Type} {lex : List Char → List Token} (hlex : OpLexer lex) {printing : Printing}
  (hprinting : printing.Lawful lex)

/-- Pieces that keep apart, and do not end with a minus. -/
structure KeepApart (lex : List Char → List Token) (pieces : List Piece) : Prop where
  separate : AllSeparate lex pieces
  whole : Whole lex (render pieces)
  minus : (render pieces).getLast? ≠ some '-'

/-- Nothing joins the text where a space is left out. -/
def Closed (lex : List Char → List Token) (flags : Flags) (text : List Char) : Prop :=
  flags.shouldEmitSpace = false → ∀ after, Separate lex text after

theorem separate_nil (hlex : OpLexer lex) (text : List Char) : Separate lex text [] := by
  rw [Separate, hlex.nil, List.append_nil, List.append_nil]

include hlex hprinting

theorem whole_text {element : Element} (hvalid : IsValid element) :
    Whole lex (printing.text element) := by
  cases element with
  | literal text =>
    rw [hprinting.literal]
    exact hlex.literal (hvalid text rfl)
  | attrDict withKeyword =>
    rcases hprinting.dict withKeyword with hnil | ⟨inner, hinner, hdict⟩
    · rw [hnil]
      exact hlex.whole_nil
    · rw [hdict]
      apply hlex.whole_space
      have hbrace := hlex.separate_bracket (c := '\x7d') (by decide) hinner
        fun heq ↦ absurd heq (by decide)
      exact hlex.append hinner (hlex.whole_bracket (by decide)) hbrace
  | _ => exact (hprinting.element _ (fun _ ↦ Element.noConfusion) fun _ ↦ Element.noConfusion).1

omit hlex in
theorem minus_text {element : Element} (hvalid : IsValid element) :
    (printing.text element).getLast? ≠ some '-' := by
  cases element with
  | literal text =>
    rw [hprinting.literal]
    exact getLast?_ne_minus (hvalid text rfl)
  | attrDict withKeyword =>
    rcases hprinting.dict withKeyword with hnil | ⟨inner, hinner, hdict⟩
    · simp [hnil]
    · rw [hdict, ← List.cons_append, List.getLast?_concat]
      decide
  | _ => exact (hprinting.element _ (fun _ ↦ Element.noConfusion) fun _ ↦ Element.noConfusion).2

/-- One more element. -/
theorem KeepApart.snoc {pieces : List Piece} (h : KeepApart lex pieces) {flags : Flags}
    {element : Element} (hvalid : IsValid element)
    (hseparate : flags.spaceBefore element = false →
      Separate lex (render pieces) (printing.text element)) :
    KeepApart lex (pieces ++ [printing.elementPiece flags element]) := by
  have hwhole := whole_text hlex hprinting hvalid
  constructor
  · exact allSeparate_snoc.mpr ⟨h.separate, hseparate⟩
  · rw [render_append, render_singleton, Piece.render]
    cases hspace : flags.spaceBefore element with
    | true =>
      rw [Printing.elementPiece, hspace, if_pos rfl]
      exact hlex.append h.whole (hlex.whole_space hwhole) (hlex.separate_space h.whole)
    | false =>
      rw [Printing.elementPiece, hspace, if_neg Bool.false_ne_true]
      exact hlex.append h.whole hwhole (hseparate hspace)
  · have hminus := minus_text hprinting hvalid
    rw [render_append, render_singleton, Piece.render, List.getLast?_append]
    have htext : ∀ text : List Char, text.getLast? ≠ some '-' →
        (text.getLast?.or (render pieces).getLast?) ≠ some '-' := by
      intro text htext
      cases hlast : text.getLast? with
      | none => exact h.minus
      | some c =>
        rw [hlast] at htext
        exact htext
    split
    · apply htext
      rw [List.getLast?_cons]
      cases hlast : (printing.elementPiece flags element).text.getLast? with
      | none => decide
      | some c =>
        intro heq
        rw [Option.getD_some] at heq
        exact hminus (hlast.trans heq)
    · exact htext _ hminus

/-- A dictionary brings its space with it. -/
theorem separate_dict {pieces : List Piece} (h : KeepApart lex pieces) (withKeyword : Bool) :
    Separate lex (render pieces) (printing.text (.attrDict withKeyword)) := by
  rcases hprinting.dict withKeyword with hnil | ⟨inner, hinner, hdict⟩
  · rw [hnil]
    exact separate_nil hlex _
  · rw [hdict]
    exact hlex.separate_space h.whole

/-- Where a space could stand, an element that is printed without one keeps apart. -/
theorem separate_of_closed {pieces : List Piece} (h : KeepApart lex pieces) {flags : Flags}
    (hclosed : Closed lex flags (render pieces)) {element : Element} (hvalid : IsValid element)
    (hspace : flags.spaceBefore element = false) :
    Separate lex (render pieces) (printing.text element) := by
  cases hflag : flags.shouldEmitSpace with
  | false => exact hclosed hflag _
  | true =>
    cases element with
    | literal text =>
      have hmem := bracket_of_unspaced (hvalid text rfl) hflag hspace
      have hchar : ∃ c ∈ "<>()[],\x7d".toList, text.toList = [c] := by
        revert hmem
        simp only [List.mem_cons, List.not_mem_nil, or_false]
        rintro (rfl | rfl | rfl | rfl | rfl | rfl | rfl)
        all_goals exact ⟨_, by decide, rfl⟩
      obtain ⟨c, hc, htext⟩ := hchar
      rw [hprinting.literal, htext]
      exact hlex.separate_bracket hc h.whole fun _ ↦ h.minus
    | attrDict withKeyword => exact separate_dict hlex hprinting h withKeyword
    | _ =>
      rw [Flags.spaceBefore, hflag] at hspace
      · cases hspace
      · exact fun _ ↦ Element.noConfusion
      · exact fun _ ↦ Element.noConfusion

/-- Behind an element that is printed, nothing joins where a space is left out. -/
theorem closed_next {pieces : List Piece} (h : KeepApart lex pieces) (flags : Flags)
    {element : Element} (hvalid : IsValid element)
    (hdict : ∀ withKeyword, element ≠ .attrDict withKeyword) :
    Closed lex (flags.next element)
      (render (pieces ++ [printing.elementPiece flags element])) := by
  intro hnext after
  obtain ⟨text, hmem, rfl⟩ := isOpening_of_next hvalid hdict hnext
  have hchar : ∃ c ∈ "<>()[],\x7d".toList, c ≠ '>' ∧ text.toList = [c] := by
    revert hmem
    simp only [List.mem_cons, List.not_mem_nil, or_false]
    rintro (rfl | rfl | rfl)
    all_goals exact ⟨_, by decide, by decide, rfl⟩
  obtain ⟨c, hc, hne, htext⟩ := hchar
  rw [render_append, render_singleton, Piece.render, Printing.elementPiece, hprinting.literal,
    htext]
  split
  · have hspace : Whole lex (render pieces ++ [' ']) :=
      hlex.append h.whole (hlex.whole_space hlex.whole_nil) (hlex.separate_space h.whole)
    have hsep : Separate lex (render pieces ++ [' '] ++ [c]) after :=
      hlex.separate_after_bracket hc hspace fun heq ↦ absurd heq hne
    rwa [List.append_assoc, List.singleton_append] at hsep
  · exact hlex.separate_after_bracket hc h.whole fun heq ↦ absurd heq hne

/-- The elements of a group one after the other. -/
theorem keepApart_elements {elements : List Element}
    (hvalid : ∀ element ∈ elements, IsValid element)
    (hdict : ∀ element ∈ elements, ∀ withKeyword, element ≠ .attrDict withKeyword)
    {pieces : List Piece} (h : KeepApart lex pieces) {flags : Flags}
    (hclosed : Closed lex flags (render pieces)) :
    KeepApart lex (pieces ++ printing.elementPieces flags elements) ∧
      Closed lex (flags.nextAll elements)
        (render (pieces ++ printing.elementPieces flags elements)) := by
  induction elements generalizing pieces flags with
  | nil =>
    rw [Printing.elementPieces, List.append_nil]
    exact ⟨h, hclosed⟩
  | cons element elements ih =>
    rw [List.forall_mem_cons] at hvalid hdict
    have hnext := h.snoc hlex hprinting hvalid.1
      (separate_of_closed hlex hprinting h hclosed hvalid.1)
    have hall := ih hvalid.2 hdict.2 hnext (closed_next hlex hprinting h flags hvalid.1 hdict.1)
    rw [List.append_assoc, List.singleton_append] at hall
    exact hall

end Steps

/-! ## Groups that are absent -/

section Groups

variable {Token : Type} {lex : List Char → List Token} (printing : Printing)

/-- The items end with a group that is absent, with an opening bracket at its end, but for
attribute dictionaries of which nothing is printed. -/
structure Dangling (items before : List Item) (elements : List Element) (anchor : ℕ)
    (dicts : List Item) : Prop where
  items : items = before ++ .optional elements anchor :: dicts
  absent : printing.isPresent elements anchor = false
  opening : ∃ element, elements.getLast? = some element ∧ IsOpening element
  silent : ∀ item ∈ dicts, ∃ withKeyword, item = .element (.attrDict withKeyword) ∧
    printing.text (.attrDict withKeyword) = []

/-- Behind items that end like that, an element is printed first, where no space is put in front of
it. -/
def JoinsAt (items before : List Item) (element : Element) : Prop :=
  ∃ first item after elements anchor dicts, items = first ++ item :: after ∧
    Dangling printing first before elements anchor dicts ∧
    (printing.printedElements item).head? = some element ∧
    (∀ withKeyword, element ≠ .attrDict withKeyword) ∧
    (dicts = [] ∨ ∃ text, element = .literal text)

theorem Printing.flagsAfter_snoc (items : List Item) (item : Item) :
    Printing.flagsAfter (items ++ [item]) =
      (Printing.flagsAfter items).nextAll item.elements := by
  have hleaves : leaves (items ++ [item]) = leaves items ++ item.elements := by
    rw [leaves, List.flatMap_append, List.flatMap_singleton]
    rfl
  rw [Printing.flagsAfter, hleaves, Printing.flagsAfter, Flags.nextAll, List.foldl_append]
  rfl

variable {printing}

theorem next_of_isOpening {element : Element} (h : IsOpening element) (flags : Flags) :
    flags.next element = ⟨false, true⟩ := by
  obtain ⟨text, hmem, rfl⟩ := h
  have hall : ∀ text ∈ ["<", "(", "["], Flags.start.next (.literal text) = ⟨false, true⟩ := by
    decide
  exact hall text hmem

/-- The flags behind such items, and that they print no more than the items in front of the
group. -/
theorem Dangling.spec {items before : List Item} {elements : List Element} {anchor : ℕ}
    {dicts : List Item} (h : Dangling printing items before elements anchor dicts) :
    Printing.flagsAfter items = ⟨false, dicts.isEmpty⟩ ∧
      printing.textOf items = printing.textOf before := by
  obtain ⟨rfl, habsent, ⟨element, hlast, hopening⟩, hsilent⟩ := h
  induction dicts using List.reverseRecOn with
  | nil =>
    obtain ⟨front, rfl⟩ := List.getLast?_eq_some_iff.mp hlast
    constructor
    · rw [Printing.flagsAfter_snoc, Item.elements, Flags.nextAll, List.foldl_append]
      exact next_of_isOpening hopening _
    · rw [Printing.textOf, Printing.pieces_snoc, Printing.printedElements, habsent,
        if_neg Bool.false_ne_true, Printing.elementPieces, List.append_nil]
      rfl
  | append_singleton dicts dict ih =>
    rw [List.forall_mem_append, List.forall_mem_singleton] at hsilent
    obtain ⟨withKeyword, rfl, hnil⟩ := hsilent.2
    obtain ⟨hflags, htext⟩ := ih hsilent.1
    rw [← List.cons_append, ← List.append_assoc]
    constructor
    · rw [Printing.flagsAfter_snoc, hflags]
      simp [Item.elements, Flags.nextAll, Flags.next]
    · rw [← htext, Printing.textOf, Printing.pieces_snoc, render_append, Printing.textOf,
        Printing.printedElements, Printing.elementPieces, Printing.elementPieces, render_cons,
        Piece.render, Printing.elementPiece, Flags.spaceBefore, if_neg Bool.false_ne_true, hnil]
      simp [render]

/-- No space is put in front of the element that is printed there. -/
theorem Dangling.spaceBefore {items before : List Item} {elements : List Element} {anchor : ℕ}
    {dicts : List Item} (h : Dangling printing items before elements anchor dicts)
    {element : Element} (hdict : ∀ withKeyword, element ≠ .attrDict withKeyword) :
    (Printing.flagsAfter items).spaceBefore element = false ↔
      dicts = [] ∨ ∃ text, element = .literal text := by
  rw [h.spec.1]
  cases element with
  | literal text => simp [Flags.spaceBefore]
  | attrDict withKeyword => exact absurd rfl (hdict withKeyword)
  | _ => cases dicts <;> simp [Flags.spaceBefore]

/-- An accepted format: its literals are valid, and a group is not empty and has no attribute
dictionary. -/
structure PlainItem (item : Item) : Prop where
  valid : ∀ element ∈ item.elements, IsValid element
  group : ∀ elements anchor, item = .optional elements anchor → elements ≠ [] ∧
    ∀ element ∈ elements, ∀ withKeyword, element ≠ .attrDict withKeyword

theorem separate_of_allSeparate {items : List Item}
    (h : AllSeparate lex (printing.pieces items)) {before : List Item} {element : Element}
    (hjoins : JoinsAt printing items before element) :
    Separate lex (printing.textOf before) (printing.text element) := by
  obtain ⟨first, item, after, elements, anchor, dicts, rfl, hdangling, hhead, hdict, hspace⟩ :=
    hjoins
  obtain ⟨rest, hprinted⟩ := List.head?_eq_some_iff.mp hhead
  rw [Printing.pieces_append, Printing.itemPieces, hprinted, Printing.elementPieces,
    List.cons_append] at h
  have hseparate := h _ _ _ rfl ((hdangling.spaceBefore hdict).mpr hspace)
  rwa [← hdangling.spec.2]

variable (hlex : OpLexer lex) (hprinting : printing.Lawful lex)
include hlex hprinting

/-- The name of the op. -/
theorem keepApart_name : KeepApart lex (printing.pieces []) := by
  have hpieces : printing.pieces [] = [] ++ [⟨false, printing.name⟩] := rfl
  constructor
  · rw [hpieces, allSeparate_snoc]
    refine ⟨allSeparate_nil, fun _ ↦ ?_⟩
    change lex ([] ++ printing.name) = lex [] ++ lex printing.name
    rw [hlex.nil, List.nil_append, List.nil_append]
  · rw [hpieces, List.nil_append, render_singleton]
    exact hprinting.name.1
  · rw [hpieces, List.nil_append, render_singleton]
    exact hprinting.name.2

/-- The items leave a text that nothing joins, or end with a group that is absent. -/
def EndsApart (lex : List Char → List Token) (printing : Printing) (items : List Item) : Prop :=
  Closed lex (Printing.flagsAfter items) (printing.textOf items) ∨
    ∃ before elements anchor dicts, Dangling printing items before elements anchor dicts

/-- The elements of one more item that is printed, where the first one is separate. -/
theorem keepApart_printed {items : List Item} {item : Item}
    (h : KeepApart lex (printing.pieces items)) {element : Element} {elements : List Element}
    (hprinted : printing.printedElements item = element :: elements)
    (hitem : item.elements = element :: elements) (hplain : PlainItem item)
    (hdict : ∀ element ∈ item.elements, ∀ withKeyword, element ≠ .attrDict withKeyword)
    (hseparate : (Printing.flagsAfter items).spaceBefore element = false →
      Separate lex (render (printing.pieces items)) (printing.text element)) :
    KeepApart lex (printing.pieces (items ++ [item])) ∧
      EndsApart lex printing (items ++ [item]) := by
  have hvalid := hplain.valid
  rw [hitem, List.forall_mem_cons] at hvalid hdict
  have hnext := h.snoc hlex hprinting hvalid.1 hseparate
  have hall := keepApart_elements hlex hprinting hvalid.2 hdict.2 hnext
    (closed_next hlex hprinting h (Printing.flagsAfter items) hvalid.1 hdict.1)
  rw [List.append_assoc, List.singleton_append] at hall
  rw [EndsApart, Printing.textOf, Printing.pieces_snoc, hprinted, Printing.flagsAfter_snoc, hitem]
  exact ⟨hall.1, .inl hall.2⟩

omit hlex hprinting in
/-- A group that is absent. -/
theorem keepApart_absent {items : List Item} (h : KeepApart lex (printing.pieces items))
    {elements : List Element} {anchor : ℕ} (hplain : PlainItem (.optional elements anchor))
    (habsent : printing.isPresent elements anchor = false) :
    KeepApart lex (printing.pieces (items ++ [.optional elements anchor])) ∧
      EndsApart lex printing (items ++ [.optional elements anchor]) := by
  obtain ⟨hne, hdict⟩ := hplain.group elements anchor rfl
  have hpieces : printing.pieces (items ++ [.optional elements anchor]) =
      printing.pieces items := by
    rw [Printing.pieces_snoc, Printing.printedElements, habsent, if_neg Bool.false_ne_true,
      Printing.elementPieces, List.append_nil]
  refine ⟨hpieces ▸ h, ?_⟩
  obtain ⟨front, last, rfl⟩ := (List.eq_nil_or_concat' elements).resolve_left hne
  have hlast : last ∈ front ++ [last] := List.mem_append_right _ (List.mem_singleton_self _)
  have hflags : Printing.flagsAfter (items ++ [.optional (front ++ [last]) anchor]) =
      ((Printing.flagsAfter items).nextAll front).next last := by
    rw [Printing.flagsAfter_snoc, Item.elements, Flags.nextAll, List.foldl_append]
    rfl
  cases hflag : (((Printing.flagsAfter items).nextAll front).next last).shouldEmitSpace with
  | true =>
    left
    intro hfalse
    rw [hflags, hflag] at hfalse
    cases hfalse
  | false =>
    have hopening := isOpening_of_next (hplain.valid last hlast) (hdict last hlast) hflag
    exact .inr ⟨items, _, anchor, [], rfl, habsent,
      ⟨last, List.getLast?_concat, hopening⟩, by simp⟩

/-- An attribute dictionary. -/
theorem keepApart_dict {items : List Item} (h : KeepApart lex (printing.pieces items))
    (hend : EndsApart lex printing items) (withKeyword : Bool)
    (hvalid : IsValid (.attrDict withKeyword)) :
    KeepApart lex (printing.pieces (items ++ [.element (.attrDict withKeyword)])) ∧
      EndsApart lex printing (items ++ [.element (.attrDict withKeyword)]) := by
  have hpieces : printing.pieces (items ++ [.element (.attrDict withKeyword)]) =
      printing.pieces items ++
        [printing.elementPiece (Printing.flagsAfter items) (.attrDict withKeyword)] :=
    Printing.pieces_snoc ..
  have htext : printing.textOf (items ++ [.element (.attrDict withKeyword)]) =
      render (printing.pieces items) ++ printing.text (.attrDict withKeyword) := by
    rw [Printing.textOf, hpieces, render_append, render_singleton, Piece.render,
      Printing.elementPiece, Flags.spaceBefore, if_neg Bool.false_ne_true]
  have hnext : KeepApart lex (printing.pieces items ++
      [printing.elementPiece (Printing.flagsAfter items) (.attrDict withKeyword)]) :=
    h.snoc hlex hprinting hvalid fun _ ↦ separate_dict hlex hprinting h withKeyword
  refine ⟨hpieces ▸ hnext, ?_⟩
  rcases hprinting.dict withKeyword with hnil | ⟨inner, hinner, hdict⟩
  · rcases hend with hclosed | ⟨before, elements, anchor, dicts, hdangling⟩
    · left
      rw [Printing.flagsAfter_snoc, htext, hnil, List.append_nil]
      exact hclosed
    · right
      refine ⟨before, elements, anchor, dicts ++ [.element (.attrDict withKeyword)], ?_,
        hdangling.absent, hdangling.opening, ?_⟩
      · rw [hdangling.items, List.append_assoc, List.cons_append]
      · rw [List.forall_mem_append, List.forall_mem_singleton]
        exact ⟨hdangling.silent, withKeyword, rfl, hnil⟩
  · left
    intro _ after
    have hwhole : Whole lex (render (printing.pieces items) ++ ' ' :: inner) :=
      hlex.append h.whole (hlex.whole_space hinner) (hlex.separate_space h.whole)
    have hclosed : Separate lex
        (render (printing.pieces items) ++ ' ' :: inner ++ ['\x7d']) after :=
      hlex.separate_after_bracket (by decide) hwhole fun heq ↦ absurd heq (by decide)
    rw [htext, hdict]
    rwa [List.append_assoc, List.cons_append] at hclosed

/-- One more item. -/
theorem keepApart_snoc {items : List Item} {item : Item} (hplain : PlainItem item)
    (h : KeepApart lex (printing.pieces items)) (hend : EndsApart lex printing items)
    (hseparate : ∀ before element,
      (∃ elements anchor dicts, Dangling printing items before elements anchor dicts ∧
        (printing.printedElements item).head? = some element ∧
        (∀ withKeyword, element ≠ .attrDict withKeyword) ∧
        (dicts = [] ∨ ∃ text, element = .literal text)) →
      Separate lex (printing.textOf before) (printing.text element)) :
    KeepApart lex (printing.pieces (items ++ [item])) ∧
      EndsApart lex printing (items ++ [item]) := by
  have hfirst : ∀ element rest, printing.printedElements item = element :: rest →
      IsValid element → (∀ withKeyword, element ≠ .attrDict withKeyword) →
      (Printing.flagsAfter items).spaceBefore element = false →
      Separate lex (render (printing.pieces items)) (printing.text element) := by
    intro element rest hprinted hvalid hdict hspace
    rcases hend with hclosed | ⟨before, elements, anchor, dicts, hdangling⟩
    · exact separate_of_closed hlex hprinting h hclosed hvalid hspace
    · have htext := hseparate before element ⟨elements, anchor, dicts, hdangling,
        by rw [hprinted, List.head?_cons], hdict, (hdangling.spaceBefore hdict).mp hspace⟩
      rwa [← hdangling.spec.2] at htext
  cases item with
  | optional elements anchor =>
    cases hpresent : printing.isPresent elements anchor with
    | false => exact keepApart_absent h hplain hpresent
    | true =>
      obtain ⟨hne, hdict⟩ := hplain.group elements anchor rfl
      have hprinted : printing.printedElements (.optional elements anchor) = elements := by
        rw [Printing.printedElements, hpresent, if_pos rfl]
      cases elements with
      | nil => exact absurd rfl hne
      | cons element elements =>
        have hmem : element ∈ element :: elements := List.mem_cons_self ..
        exact keepApart_printed hlex hprinting h hprinted rfl hplain hdict
          (hfirst element elements hprinted (hplain.valid element hmem) (hdict element hmem))
  | element element =>
    have hvalid := hplain.valid element (List.mem_singleton_self _)
    by_cases hdict : ∃ withKeyword, element = .attrDict withKeyword
    · obtain ⟨withKeyword, rfl⟩ := hdict
      exact keepApart_dict hlex hprinting h hend withKeyword hvalid
    · rw [not_exists] at hdict
      exact keepApart_printed hlex hprinting h rfl rfl hplain
        (List.forall_mem_singleton.mpr hdict) (hfirst element [] rfl hvalid hdict)

/-- The pieces keep apart exactly if the elements do that are printed without a space behind a
group that is absent. -/
theorem allSeparate_pieces_iff {items : List Item} (hplain : ∀ item ∈ items, PlainItem item) :
    AllSeparate lex (printing.pieces items) ↔
      ∀ before element, JoinsAt printing items before element →
        Separate lex (printing.textOf before) (printing.text element) := by
  constructor
  · exact fun h before element hjoins ↦ separate_of_allSeparate h hjoins
  · intro h
    have hall : KeepApart lex (printing.pieces items) ∧ EndsApart lex printing items := by
      induction items using List.reverseRecOn with
      | nil =>
        refine ⟨keepApart_name hlex hprinting, .inl fun hflag ↦ ?_⟩
        cases hflag
      | append_singleton items item ih =>
        rw [List.forall_mem_append, List.forall_mem_singleton] at hplain
        have hitems := ih hplain.1 fun before element hjoins ↦ by
          obtain ⟨first, it, after, elements, anchor, dicts, rfl, hrest⟩ := hjoins
          exact h before element ⟨first, it, after ++ [item], elements, anchor, dicts,
            by rw [List.append_assoc, List.cons_append], hrest⟩
        apply keepApart_snoc hlex hprinting hplain.2 hitems.1 hitems.2
        rintro before element ⟨elements, anchor, dicts, hrest⟩
        exact h before element ⟨items, item, [], elements, anchor, dicts, rfl, hrest⟩
    exact hall.1.separate

end Groups

/-! ## Runs of the generated printer -/

section Runs

variable {md : Metadata} {op : OperationOp} {fmt : OperationFormat} {State : Type}
  {exec : State → Simple → State × List Char} {holds : State → Expr → Bool}

/-- The statements of the generated printer print the name and the elements of an op, and the
conditions tell which groups are present. -/
structure Printing.Executes (md : Metadata) (op : OperationOp) (fmt : OperationFormat)
    (exec : State → Simple → State × List Char) (holds : State → Expr → Bool)
    (printing : Printing) : Prop where
  name : ∀ s, (exec s (.expr (Expr.p "print" [Expr.op "getName" []]))).2 = printing.name
  print : ∀ s text, (exec s (.expr (Expr.p "print" [.str text]))).2 = text.toList
  call : ∀ s element call, printCall md op fmt element = some call →
    (exec s (.expr call)).2 = printing.text element
  region : ∀ s i s' text, Prints exec holds s (regionCode (regionName op i)) s' text →
    text = printing.text (.var (.region i))
  present : ∀ s element cond, anchorCondition op element = some cond →
    holds s cond = printing.present element

variable {printing : Printing} (hexec : printing.Executes md op fmt exec holds)
  (hliteral : ∀ text, printing.text (.literal text) = text.toList)
include hexec hliteral

theorem text_printElementCode {element : Element} (h : ∃ before, Lawful op before element)
    {s s' : State} {text : List Char}
    (hrun : Prints exec holds s (printElementCode md op fmt element) s' text) :
    text = printing.text element := by
  have hcall : ∀ call, printCall md op fmt element = some call →
      printElementCode md op fmt element = stmt (.expr call) → text = printing.text element := by
    intro call hcall hcode
    rw [hcode] at hrun
    rw [hrun.text_simple, hexec.call s element call hcall]
  cases element with
  | literal literal =>
    rw [hliteral, ← hexec.print s literal]
    exact hrun.text_simple
  | var v =>
    cases v with
    | region i => exact hexec.region s i s' text hrun
    | result i => exact h.elim fun before hlawful ↦ hlawful.elim
    | attr i => exact hcall _ rfl rfl
    | operand i => exact hcall _ rfl rfl
    | successor i => exact hcall _ rfl rfl
  | results => exact h.elim fun before hlawful ↦ hlawful.elim
  | attrDict withKeyword => exact hcall _ rfl rfl
  | functionalType inputs outputs => exact hcall _ rfl rfl
  | operands => exact hcall _ rfl rfl
  | successors => exact hcall _ rfl rfl
  | type arg => exact hcall _ rfl rfl
  | symbol i => exact hcall _ rfl rfl

theorem text_spacedCode {element : Element} (h : ∃ before, Lawful op before element)
    {flags : Flags} {s s' : State} {text : List Char}
    (hrun : Prints exec holds s (spacedCode md op fmt flags element) s' text) :
    text = (printing.elementPiece flags element).render := by
  obtain ⟨s₁, space, inner, hspace, helement, rfl⟩ := hrun.of_append
  rw [text_printElementCode hexec hliteral h helement, Piece.render, Printing.elementPiece]
  cases hflag : flags.spaceBefore element with
  | true =>
    rw [hflag, if_pos rfl] at hspace
    rw [hspace.text_simple, hexec.print]
    rfl
  | false =>
    rw [hflag, if_neg Bool.false_ne_true] at hspace
    cases hspace
    rfl

theorem text_printElementsCode {elements : List Element}
    (h : ∀ element ∈ elements, ∃ before, Lawful op before element) {flags : Flags}
    {s s' : State} {text : List Char}
    (hrun : Prints exec holds s (printElementsCode md op fmt flags elements) s' text) :
    text = render (printing.elementPieces flags elements) := by
  induction elements generalizing flags s text with
  | nil =>
    cases hrun
    rfl
  | cons element elements ih =>
    rw [List.forall_mem_cons] at h
    rw [printElementsCode] at hrun
    obtain ⟨s₁, first, rest, hfirst, hrest, rfl⟩ := hrun.of_append
    rw [Printing.elementPieces, render_cons, text_spacedCode hexec hliteral h.1 hfirst,
      ih h.2 hrest]

theorem text_printItemCode {item : Item} (hanchored : Item.Anchored op item)
    (h : ∀ element ∈ item.elements, ∃ before, Lawful op before element) {flags : Flags}
    {s s' : State} {text : List Char}
    (hrun : Prints exec holds s (printItemCode md op fmt flags item) s' text) :
    text = render (printing.elementPieces flags (printing.printedElements item)) := by
  cases item with
  | element element =>
    rw [Printing.printedElements, Printing.elementPieces, Printing.elementPieces, render_singleton]
    exact text_spacedCode hexec hliteral (h element (List.mem_singleton_self _)) hrun
  | optional elements anchor =>
    obtain ⟨cond, hcond⟩ := Option.isSome_iff_exists.mp hanchored
    obtain ⟨element, helement, hanchor⟩ := Option.bind_eq_some_iff.mp hcond
    have hpresent : ∀ s, holds s cond = printing.isPresent elements anchor := by
      intro s
      rw [hexec.present s element cond hanchor, Printing.isPresent, helement, Option.any_some]
    rw [printItemCode, hcond, Option.getD_some] at hrun
    rw [Printing.printedElements]
    cases hrun with
    | skip hfalse hrest =>
      cases hrest
      rw [← hpresent s, show holds s cond = false from hfalse, if_neg Bool.false_ne_true]
      rfl
    | ifThen htrue hbody hrest =>
      cases hrest
      rw [← hpresent s, htrue, if_pos rfl, List.append_nil]
      exact text_printElementsCode hexec hliteral h hbody

theorem text_printItemsCode {items : List Item} (hanchored : ∀ item ∈ items, Item.Anchored op item)
    (h : ∀ item ∈ items, ∀ element ∈ item.elements, ∃ before, Lawful op before element)
    {flags : Flags} {s s' : State} {text : List Char}
    (hrun : Prints exec holds s (printItemsCode md op fmt flags items) s' text) :
    text = render (printing.itemPieces flags items) := by
  induction items generalizing flags s text with
  | nil =>
    cases hrun
    rfl
  | cons item items ih =>
    rw [List.forall_mem_cons] at hanchored h
    rw [printItemsCode] at hrun
    obtain ⟨s₁, first, rest, hfirst, hrest, rfl⟩ := hrun.of_append
    rw [Printing.itemPieces, render_append,
      text_printItemCode hexec hliteral hanchored.1 h.1 hfirst, ih hanchored.2 h.2 hrest]

/-- What a run of the printer prints. -/
theorem text_printerCode (h : AcceptedFormat md op fmt) {s s' : State} {text : List Char}
    (hrun : Prints exec holds s (printerCode md op fmt) s' text) :
    text = printing.textOf fmt.items := by
  rw [printerCode] at hrun
  obtain ⟨s₁, name, rest, hname, hrest, rfl⟩ := hrun.of_append
  have hitems := text_printItemsCode hexec hliteral h.anchored
    (fun item hitem element helement ↦ h.element (mem_leaves hitem helement)) hrest
  rw [hname.text_simple, hexec.name, hitems, Printing.textOf, Printing.pieces, render_cons]
  rfl

end Runs

theorem AcceptedFormat.plainItems {md : Metadata} {op : OperationOp} {fmt : OperationFormat}
    (h : AcceptedFormat md op fmt) : ∀ item ∈ fmt.items, PlainItem item := by
  intro item hitem
  constructor
  · rintro element helement text rfl
    obtain ⟨before, hlawful⟩ := h.element (mem_leaves hitem helement)
    exact hlawful
  · rintro elements anchor rfl
    have hgroup := h.group hitem
    constructor
    · rintro rfl
      cases hgroup.starts
    · rintro element helement withKeyword rfl
      exact (hgroup.children _ helement).elim

/-- The text that a generated printer prints is lexed to the tokens of its pieces exactly if, at
every group that is absent and ends with an opening bracket, the element that is printed next
without a space does not join the text in front of the group. -/
theorem printer_keepsApart_iff {md : Metadata} {op : OperationOp} {fmt : OperationFormat}
    {tokens : List FormatToken} (h : parse md op tokens = .ok fmt) {Token State : Type}
    {lex : List Char → List Token} (hlex : OpLexer lex) {printing : Printing}
    (hprinting : printing.Lawful lex) {exec : State → Simple → State × List Char}
    {holds : State → Expr → Bool} (hexec : printing.Executes md op fmt exec holds) {code : Code}
    (hcode : Reads bodyIndent (genPrinter md op fmt ⟨[], bodyIndent⟩).lines code) {s s' : State}
    {text : List Char} (hrun : Prints exec holds s code s' text) :
    lex text = lex printing.name ++
        (printing.printed fmt.items).flatMap (fun element ↦ lex (printing.text element)) ↔
      ∀ before element, JoinsAt printing fmt.items before element →
        Separate lex (printing.textOf before) (printing.text element) := by
  have haccepted := acceptedFormat_of_parse h
  have hplain := haccepted.plainItems
  have hlines : (genPrinter md op fmt ⟨[], bodyIndent⟩).lines =
      (printerCode md op fmt).lines bodyIndent := by
    rw [genPrinter_eq md op fmt haccepted.anchored]
    rfl
  rw [hlines, reads_lines_iff] at hcode
  obtain ⟨-, rfl⟩ := hcode
  have htokens : SpacedText.tokens lex (printing.pieces fmt.items) = lex printing.name ++
      (printing.printed fmt.items).flatMap (fun element ↦ lex (printing.text element)) := by
    rw [Printing.pieces, tokens_cons, Printing.tokens_itemPieces]
  have hwhole : ∀ piece ∈ printing.pieces fmt.items, Whole lex piece.text := by
    intro piece hpiece
    rcases printing.mem_pieces hpiece with hname | ⟨element, helement, htext⟩
    · rw [hname]
      exact hprinting.name.1
    · obtain ⟨item, hitem, helement⟩ := List.mem_flatMap.mp helement
      rw [htext]
      exact whole_text hlex hprinting ((hplain item hitem).valid element helement)
  rw [← allSeparate_pieces_iff hlex hprinting hplain, ← hlex.reads_iff hwhole, htokens,
    text_printerCode hexec hprinting.literal haccepted hrun]
  rfl

/-! ## A group with a bracket at its end -/

theorem opLexer_words : OpLexer words where
  toLawfulLexer := lawfulLexer_words
  bracket := by
    intro before after c hc _ _
    have hchar : ∀ c ∈ "<>()[],\x7d".toList, isWordChar c = false := by
      have hany : "<>()[],\x7d".toList.any isWordChar = false := by decide
      intro c hc
      rw [List.any_eq_false] at hany
      exact eq_false_of_ne_true (hany c hc)
    have hbefore : ∀ text, Separate words before (c :: text) := by
      intro text
      apply separate_of_not_joins
      intro hjoins
      have hstart : isWordChar c = true := hjoins.2
      rw [hchar c hc] at hstart
      cases hstart
    have hafter : Separate words [c] after := by
      apply separate_of_not_joins
      intro hjoins
      have hlast : isWordChar c = true := hjoins.1
      rw [hchar c hc] at hlast
      cases hlast
    rw [hbefore, ← hafter]
    rfl
  literal := fun _ ↦ whole_words _

/-- An op with operands. -/
def thenOp : OperationOp where
  name := "call"
  opType := ⟨[⟨"args", .variadic (.leaf .any)⟩], [], List.nodup_singleton "args", List.nodup_nil⟩
  opAttrs := []
  opRegions := ⟨[], List.nodup_nil⟩
  opSuccs := ⟨[], List.nodup_nil⟩
  opTraits := [⟨"SameVariadicOperandSizes", []⟩]
  config := []

/-- `$args` and an opening bracket if there are operands, then a keyword, and their types -/
def thenFormat : OperationFormat where
  items := [.optional [.var (.operand 0), .literal "("] 0, .element (.literal "then"),
    .element (.attrDict false), .element (.literal ":"), .element (.type (.operand 0))]
  allOperands := false
  allOperandTypes := false
  allResultTypes := false
  resultTypes := []
  operandTypes := [.given]

/-- What a statement prints of an op with one operand. -/
def execThen (_ : Unit) : Simple → Unit × List Char
  | .expr (.call (.field (.name "p") "print") [.str text]) => ((), text.toList)
  | .expr (.call (.field (.name "p") "print") _) => ((), "call".toList)
  | .expr (.call (.field (.name "p") "printOperands") _) => ((), "%0".toList)
  | .expr (.call (.field (.name "p") "printTypes") _) => ((), "i32".toList)
  | _ => ((), [])

/-- There are operands, and no region. -/
def holdsThen (_ : Unit) : Expr → Bool
  | .not _ => false
  | _ => true

def thenPrinting : Printing where
  name := "call".toList
  present := fun _ ↦ true
  text
    | .literal text => text.toList
    | .var (.operand i) => if isVariadicOperand thenOp i then "%0".toList else []
    | .operands => "%0".toList
    | .type _ => "i32".toList
    | _ => []

theorem thenPrinting_lawful : thenPrinting.Lawful words where
  name := ⟨whole_words _, by decide⟩
  literal := fun _ ↦ rfl
  dict := fun _ ↦ .inl rfl
  element := by
    intro element hliteral _
    refine ⟨whole_words _, ?_⟩
    have hnil : ([] : List Char).getLast? ≠ some '-' := by decide
    have hoperand : "%0".toList.getLast? ≠ some '-' := by decide
    cases element with
    | literal text => exact absurd rfl (hliteral text)
    | operands => exact hoperand
    | type arg => exact (by decide : "i32".toList.getLast? ≠ some '-')
    | var v =>
      cases v with
      | operand i =>
        rw [thenPrinting]
        dsimp only
        split
        · exact hoperand
        · exact hnil
      | _ => exact hnil
    | _ => exact hnil

theorem thenPrinting_executes :
    thenPrinting.Executes .base thenOp thenFormat execThen holdsThen where
  name := fun _ ↦ rfl
  print := fun _ _ ↦ rfl
  call := by
    intro s element call hcall
    cases element with
    | literal text => cases hcall
    | var v =>
      cases v with
      | operand i =>
        obtain rfl := Option.some.inj hcall
        rw [thenPrinting]
        dsimp only
        split <;> rfl
      | attr i =>
        obtain rfl := Option.some.inj hcall
        rfl
      | successor i =>
        obtain rfl := Option.some.inj hcall
        split <;> rfl
      | _ => cases hcall
    | attrDict withKeyword =>
      obtain rfl := Option.some.inj hcall
      cases withKeyword <;> rfl
    | results => cases hcall
    | _ =>
      obtain rfl := Option.some.inj hcall
      rfl
  region := by
    intro s i s' text hrun
    obtain ⟨s₁, first, rest, hfirst, hrest, rfl⟩ := hrun.of_append
    rw [hfirst.text_simple]
    cases hrest with
    | skip _ hlast => exact hlast.text_simple
    | ifThen htrue _ _ => cases htrue
  present := by
    intro s element cond hcond
    cases element with
    | var v =>
      cases v with
      | attr i =>
        obtain rfl := Option.some.inj hcond
        rfl
      | operand i =>
        rw [anchorCondition] at hcond
        split at hcond
        · obtain rfl := Option.some.inj hcond
          rfl
        · cases hcond
      | _ => cases hcond
    | _ => cases hcond

theorem prints_thenFormat :
    Prints execThen holdsThen () (printerCode .base thenOp thenFormat) ()
      "call %0(then : i32".toList := by
  have hret : ∀ expr value, Simple.expr expr ≠ .ret value := fun _ _ ↦ Simple.noConfusion
  have hgroup : Prints execThen holdsThen ()
      (printElementsCode .base thenOp thenFormat .start [.var (.operand 0), .literal "("]) ()
      " %0(".toList :=
    .simple (hret _) (.simple (hret _) (.simple (hret _) (.nil ())))
  have hrest : Prints execThen holdsThen ()
      (printItemsCode .base thenOp thenFormat ⟨false, true⟩ (thenFormat.items.drop 1)) ()
      "then : i32".toList :=
    .simple (hret _) (.simple (hret _) (.simple (hret _) (.simple (hret _) (.simple (hret _)
      (.simple (hret _) (.nil ()))))))
  exact .simple (hret _) (.ifThen rfl hgroup hrest)

theorem printer_keepsApart_iff_then :
    words "call %0(then : i32".toList = words "call".toList ++
        (thenPrinting.printed thenFormat.items).flatMap
          (fun element ↦ words (thenPrinting.text element)) ↔
      ∀ before element, JoinsAt thenPrinting thenFormat.items before element →
        Separate words (thenPrinting.textOf before) (thenPrinting.text element) := by
  have hparse : parse .base thenOp [.lparen, .var "args", .caret, .literal "(", .rparen, .question,
      .literal "then", .keyword "attr-dict", .literal ":", .keyword "type", .lparen, .var "args",
      .rparen] = .ok thenFormat := rfl
  have hfilled : (printerCode .base thenOp thenFormat).Filled :=
    ⟨fun h ↦ Code.noConfusion h, trivial, trivial⟩
  have hcode : Reads bodyIndent (genPrinter .base thenOp thenFormat ⟨[], bodyIndent⟩).lines
      (printerCode .base thenOp thenFormat) := by
    rw [genPrinter_eq .base thenOp thenFormat (acceptedFormat_of_parse hparse).anchored]
    exact Reads.of_lines hfilled
  exact printer_keepsApart_iff hparse opLexer_words thenPrinting_lawful thenPrinting_executes hcode
    prints_thenFormat

end DeclarativeMlir.Embed.OpGenerator

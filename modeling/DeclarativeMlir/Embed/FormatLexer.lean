import Mathlib.Algebra.Order.Ring.Int
import Mathlib.Data.List.Basic
import Mathlib.Data.List.TakeWhile
import Mathlib.Tactic.Cases

/-!
# Lexing of format strings

The lexer reads the bytes of a format string through a pointer. The string ends at a NUL, and a
read behind it is a fault. Bytes are converted from a signed `char` to an `int`.
-/

namespace DeclarativeMlir.Embed.FormatLexer

/-- The memory from a pointer on, up to and with the NUL that ends the string. -/
abbrev Ptr := List UInt8

/-- `fmt.c_str()`, as `getMemBuffer` takes it. -/
def cString (text : List UInt8) : Ptr := text.takeWhile (· ≠ 0) ++ [0]

/-! ## Characters -/

def EOF : ℤ := -1

/-- The conversion of a signed `char`. -/
def toInt (c : UInt8) : ℤ := if c < 128 then c.toNat else c.toNat - 256

def isalpha (c : ℤ) : Bool := 65 ≤ c && c ≤ 90 || 97 ≤ c && c ≤ 122

def isalnum (c : ℤ) : Bool := isalpha c || 48 ≤ c && c ≤ 57

def newline : UInt8 := 10

def carriageReturn : UInt8 := 13

def backquote : UInt8 := 96

def underscore : ℤ := 95

def hyphen : ℤ := 45

def dollar : ℤ := 36

/-! ## Tokens -/

/-- The kinds of tokens; an error is printed when its token is formed. -/
inductive Kind where
  | eof
  | error (message : String)
  | lParen | rParen | caret | comma | equal | question
  | kwAttrDict | kwAttrDictWithKeyword | kwFunctionalType | kwOperands | kwResults
  | kwSuccessors | kwType | kwSymbol | kwDims
  | identifier | literal | var
  deriving DecidableEq, Repr

def Kind.isError : Kind → Bool
  | .error _ => true
  | _ => false

def Kind.isKeyword (kind : Kind) : Bool :=
  kind ∈ [.kwAttrDict, .kwAttrDictWithKeyword, .kwFunctionalType, .kwOperands, .kwResults,
    .kwSuccessors, .kwType, .kwSymbol, .kwDims]

structure Token where
  kind : Kind
  /-- where the spelling begins -/
  loc : Ptr
  spelling : List UInt8
  deriving DecidableEq, Repr

def formToken (kind : Kind) (tokStart curPtr : Ptr) : Token × Ptr :=
  (⟨kind, tokStart, tokStart.take (tokStart.length - curPtr.length)⟩, curPtr)

def emitError (loc curPtr : Ptr) (message : String) : Token × Ptr :=
  formToken (.error message) loc curPtr

def bytes (text : String) : List UInt8 := text.toList.map fun c ↦ c.toNat.toUInt8

def keywords : List (String × Kind) := [
  ("attr-dict", .kwAttrDict),
  ("attr-dict-with-keyword", .kwAttrDictWithKeyword),
  ("functional-type", .kwFunctionalType),
  ("operands", .kwOperands),
  ("results", .kwResults),
  ("successors", .kwSuccessors),
  ("type", .kwType),
  ("symbol", .kwSymbol),
  ("dims", .kwDims)]

def identifierKind (str : List UInt8) : Kind :=
  ((keywords.find? fun keyword ↦ bytes keyword.1 = str).map Prod.snd).getD .identifier

/-! ## The lexer -/

/-- The next character; the NUL that ends the buffer is not passed. -/
def getNextChar : Ptr → Option (ℤ × Ptr)
  | [] => none
  | curChar :: curPtr =>
    if curChar = 0 then
      if curPtr ≠ [] then some (0, curPtr) else some (EOF, [curChar])
    else if curChar = newline ∨ curChar = carriageReturn then
      match curPtr with
      | [] => none
      | next :: rest =>
        if (next = newline ∨ next = carriageReturn) ∧ next ≠ curChar then
          some (toInt newline, rest)
        else some (toInt newline, next :: rest)
    else some (toInt curChar, curPtr)

/-- Passes the characters for which `p` holds. -/
def skipWhile (p : ℤ → Bool) : Ptr → Option Ptr
  | [] => none
  | c :: curPtr => if p (toInt c) then skipWhile p curPtr else some (c :: curPtr)

def isVariableChar (c : ℤ) : Bool := isalnum c || c == underscore

def isIdentifierChar (c : ℤ) : Bool := isalnum c || c == underscore || c == hyphen

def lexLiteral (tokStart : Ptr) : Ptr → Option (Token × Ptr)
  | [] => none
  | curChar :: curPtr =>
    if curChar = 0 then
      some (emitError (curChar :: curPtr) curPtr "unexpected end of file in literal")
    else if curChar = backquote then some (formToken .literal tokStart curPtr)
    else lexLiteral tokStart curPtr

def lexVariable (tokStart : Ptr) : Ptr → Option (Token × Ptr)
  | [] => none
  | c :: curPtr =>
    if !isalpha (toInt c) && toInt c != underscore then
      some (emitError tokStart (c :: curPtr) "expected variable name")
    else (skipWhile isVariableChar (c :: curPtr)).map (formToken .var tokStart)

def lexIdentifier (tokStart curPtr : Ptr) : Option (Token × Ptr) :=
  (skipWhile isIdentifierChar curPtr).map fun curPtr ↦
    formToken (identifierKind (tokStart.take (tokStart.length - curPtr.length))) tokStart curPtr

def punctuation : ℤ → Option Kind
  | 94 => some .caret
  | 44 => some .comma
  | 61 => some .equal
  | 63 => some .question
  | 40 => some .lParen
  | 41 => some .rParen
  | _ => none

/-- The characters that are skipped: NUL, space, tab and newline. -/
def isSkipped (c : ℤ) : Bool := c ∈ ([0, 32, 9, 10] : List ℤ)

theorem getNextChar_length {tokStart curPtr : Ptr} {c : ℤ}
    (h : getNextChar tokStart = some (c, curPtr)) (hc : c ≠ EOF) :
    curPtr.length < tokStart.length := by
  unfold getNextChar at h
  split at h
  · contradiction
  · rename_i curChar rest
    rw [List.length_cons]
    split at h
    · split at h
      · obtain ⟨-, rfl⟩ := Prod.mk.inj (Option.some.inj h)
        exact Nat.lt_succ_self _
      · exact absurd (Prod.mk.inj (Option.some.inj h)).1.symm hc
    · split at h
      · split at h
        · contradiction
        · split at h
          · obtain ⟨-, rfl⟩ := Prod.mk.inj (Option.some.inj h)
            simp only [List.length_cons]
            omega
          · obtain ⟨-, rfl⟩ := Prod.mk.inj (Option.some.inj h)
            exact Nat.lt_succ_self _
      · obtain ⟨-, rfl⟩ := Prod.mk.inj (Option.some.inj h)
        exact Nat.lt_succ_self _

def lexToken (tokStart : Ptr) : Option (Token × Ptr) :=
  match hnext : getNextChar tokStart with
  | none => none
  | some (curChar, curPtr) =>
    if hc : curChar = EOF then some (formToken .eof tokStart curPtr)
    else match punctuation curChar with
      | some kind => some (formToken kind tokStart curPtr)
      | none =>
        if isSkipped curChar then
          have := getNextChar_length hnext hc
          lexToken curPtr
        else if curChar = toInt backquote then lexLiteral tokStart curPtr
        else if curChar = dollar then lexVariable tokStart curPtr
        else if isalpha curChar || curChar == underscore then lexIdentifier tokStart curPtr
        else some (emitError tokStart curPtr "unexpected character")
termination_by tokStart.length

/-- What is skipped in front of the token that is read at `ptr`. -/
def skipped (ptr : Ptr) (token : Token) : List UInt8 := ptr.take (ptr.length - token.loc.length)

/-- The lexer is called up to the token `eof`, without an error; each token with what is skipped in
front of it. -/
inductive Lexes : Ptr → List (List UInt8 × Token) → Prop where
  | eof {ptr token rest} (hlex : lexToken ptr = some (token, rest)) (hkind : token.kind = .eof) :
      Lexes ptr [(skipped ptr token, token)]
  | cons {ptr token rest lexed} (hlex : lexToken ptr = some (token, rest))
      (hkind : token.kind ≠ .eof) (herror : token.kind.isError = false) (hrest : Lexes rest lexed) :
      Lexes ptr ((skipped ptr token, token) :: lexed)

end DeclarativeMlir.Embed.FormatLexer

import DeclarativeMlir.Embed.FormatLexer
import DeclarativeMlir.Embed.OpFormat

/-!
# The parser of op formats on top of the lexer

The parser holds the current token, and asks the lexer for the next one when it consumes it. What
the assertions of the source exclude, and reads outside of a buffer or a spelling, are faults.
-/

namespace DeclarativeMlir.Embed.FormatParsing

open Spec CheckedParsing FormatLexer OpFormat

inductive Fault where
  /-- a token is consumed past the end of the format or past an error -/
  | advance
  /-- the spelling of a token has not got the delimiter that is removed -/
  | delimiter
  /-- a byte behind the NUL is read -/
  | pastEnd
  deriving DecidableEq, Repr

inductive Failure where
  | fault (fault : Fault)
  | error (e : FormatError)
  deriving DecidableEq, Repr

def Failure.isFault : Failure → Bool
  | .fault _ => true
  | .error _ => false

structure ParserState where
  curToken : Token
  seen : Seen
  deriving DecidableEq, Repr

/-- The input of the parser is the memory that the lexer has not passed. -/
abbrev FormatParser (α : Type) := Parser UInt8 ParserState Failure α

/-- The characters of ASCII stand for themselves. -/
def text (spelling : List UInt8) : String := String.ofList (spelling.map fun c ↦ Char.ofNat c.toNat)

def emitError {α : Type} (message : String) : FormatParser α := throw (.error (.other message none))

def curToken : FormatParser Token := do return (← get).state.curToken

def consumeToken : FormatParser Unit := fun s ↦
  if s.state.curToken.kind = .eof ∨ s.state.curToken.kind.isError then .error (.fault .advance)
  else match lexToken s.tokens with
    | none => .error (.fault .pastEnd)
    | some (token, curPtr) => .ok ((), ⟨curPtr, { s.state with curToken := token }⟩)

def parseToken (kind : Kind) (message : String) : FormatParser Unit := do
  if (← curToken).kind ≠ kind then emitError message
  consumeToken

/-- A check of what the format has bound. -/
def lift {α : Type} (x : Except FormatError α) : FormatParser α :=
  StateT.lift (x.mapError .error)

def bindSeen (bind : Seen → Except FormatError Seen) : FormatParser Unit := fun s ↦
  match bind s.state.seen with
  | .ok seen => .ok ((), { s with state.seen := seen })
  | .error e => .error (.error e)

def dropFront (delimiter : UInt8) : List UInt8 → FormatParser (List UInt8)
  | [] => throw (.fault .delimiter)
  | c :: spelling => if c = delimiter then return spelling else throw (.fault .delimiter)

def dropBack (delimiter : UInt8) (spelling : List UInt8) : FormatParser (List UInt8) :=
  if spelling.getLast? = some delimiter then return spelling.dropLast
  else throw (.fault .delimiter)

def parseVariable (op : OperationOp) (isTopLevel : Bool) : FormatParser Variable := do
  let varTok ← curToken
  consumeToken
  let name ← dropFront 36 varTok.spelling
  match findVariable op (text name) with
  | none => emitError "expected variable to refer to an argument, result, successor, or region"
  | some var => do
    bindSeen fun seen ↦ bindVariable op isTopLevel (text name) seen var
    return var

def parseLiteral : FormatParser Element := do
  let literalTok ← curToken
  consumeToken
  let value ← dropBack backquote (← dropFront backquote literalTok.spelling)
  if isValidLiteral (text value) then return .literal (text value)
  else emitError "expected valid literal"

def parseSymbolDirective (op : OperationOp) : FormatParser Element := do
  parseToken .lParen "expected `(` before argument list"
  let attr ← parseVariable op false
  parseToken .rParen "expected `)` after argument list"
  match attr with
  | .attr i => return .symbol i
  | _ => emitError "'symbol' directive expects attribute operand"

section Nested

variable (op : OperationOp) (parseElement : Bool → FormatParser Item)

def parseTypeDirectiveOperand : FormatParser TypeArg := do
  let item ← parseElement false
  let arg ← lift (typeOperand item)
  bindSeen fun seen ↦ bindTypes op seen arg
  return arg

def parseTypeDirective (isTopLevel : Bool) : FormatParser Element := do
  if !isTopLevel then emitError "'type' is only valid as a top-level directive"
  parseToken .lParen "expected '(' before argument list"
  let operand ← parseTypeDirectiveOperand op parseElement
  parseToken .rParen "expected ')' after argument list"
  return .type operand

def parseFunctionalTypeDirective (isTopLevel : Bool) : FormatParser Element := do
  if !isTopLevel then emitError "'functional-type' is only valid as a top-level directive"
  parseToken .lParen "expected '(' before argument list"
  let inputs ← parseTypeDirectiveOperand op parseElement
  parseToken .comma "expected ',' after inputs argument"
  let outputs ← parseTypeDirectiveOperand op parseElement
  parseToken .rParen "expected ')' after argument list"
  return .functionalType inputs outputs

def parseDirective (isTopLevel : Bool) : FormatParser Element := do
  let dirTok ← curToken
  consumeToken
  match dirTok.kind with
  | .kwAttrDict => do
    bindSeen (bindAttrDict isTopLevel)
    return .attrDict false
  | .kwAttrDictWithKeyword => do
    bindSeen (bindAttrDict isTopLevel)
    return .attrDict true
  | .kwFunctionalType => parseFunctionalTypeDirective op parseElement isTopLevel
  | .kwOperands => do
    bindSeen (bindOperands isTopLevel)
    return .operands
  | .kwResults => do
    bindSeen (bindResults isTopLevel)
    return .results
  | .kwSuccessors => do
    bindSeen (bindSuccessors isTopLevel)
    return .successors
  | .kwType => parseTypeDirective op parseElement isTopLevel
  | .kwSymbol => parseSymbolDirective op
  | _ => emitError "unknown directive"

end Nested

section Optional

variable (md : Metadata) (op : OperationOp) (parseElement : Bool → FormatParser Item)

def parseAnchor (group : Group) : FormatParser Bool := do
  if (← curToken).kind = .caret then
    if group.anchorIdx.isSome then
      emitError "only one element can be marked as the anchor of an optional group"
    consumeToken
    return true
  else return false

def parseOptionalChildElement (group : Group) : FormatParser Group := do
  let item ← parseElement true
  let isAnchor ← parseAnchor group
  match item with
  | .optional .. =>
    emitError "only literals, types, and variables can be used within an optional group"
  | .element child => do
    lift (checkChild md op isAnchor child)
    return {
      elements := group.elements ++ [child]
      seenVariables := group.seenVariables ++ child.operand?.toList
      anchorIdx := if isAnchor then some group.elements.length else group.anchorIdx }

def parseOptionalElements : ℕ → Group → FormatParser Group
  | 0, _ => throw (.error .outOfFuel)
  | fuel + 1, group => do
    let group ← parseOptionalChildElement md op parseElement group
    if (← curToken).kind = .rParen then return group
    else parseOptionalElements fuel group

def parseOptional (fuel : ℕ) (isTopLevel : Bool) : FormatParser Item := do
  if !isTopLevel then
    emitError "optional groups can only be used as top-level elements"
  consumeToken
  let group ← parseOptionalElements md op parseElement fuel ⟨[], [], none⟩
  consumeToken
  parseToken .question "expected '?' after optional group"
  lift (checkGroup group)

end Optional

def parseElement (md : Metadata) (op : OperationOp) : ℕ → Bool → FormatParser Item
  | 0, _ => throw (.error .outOfFuel)
  | fuel + 1, isTopLevel => do
    let token ← curToken
    if token.kind.isKeyword then
      .element <$> parseDirective op (parseElement md op fuel) isTopLevel
    else match token.kind with
      | .literal => .element <$> parseLiteral
      | .lParen => parseOptional md op (parseElement md op fuel) fuel isTopLevel
      | .var => (fun var ↦ .element (.var var)) <$> parseVariable op isTopLevel
      | _ => emitError "expected directive, literal, variable, or optional group"

def parseElements (md : Metadata) (op : OperationOp) : ℕ → FormatParser (List Item)
  | 0 => throw (.error .outOfFuel)
  | fuel + 1 => do
    if (← curToken).kind = .eof then return []
    else
      let item ← parseElement md op fuel true
      let items ← parseElements md op fuel
      return item :: items

/-- A parser of the format is made, and it parses. -/
def parse (md : Metadata) (op : OperationOp) (format : List UInt8) :
    Except Failure OperationFormat :=
  match lexToken (cString format) with
  | none => .error (.fault .pastEnd)
  | some (token, curPtr) => do
    let (items, s) ← (parseElements md op (format.length + 3)).run ⟨curPtr, ⟨token, .empty⟩⟩
    (verifyFormat md op items s.state.seen).mapError .error

end DeclarativeMlir.Embed.FormatParsing

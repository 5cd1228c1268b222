import Mathlib.Algebra.Order.Ring.Int
import Mathlib.Data.List.Basic
import Mathlib.Tactic.Cases

/-!
# Assembly formats

Tokens and literals of the format strings that describe the syntax of an op, a type or an attribute.
-/

namespace DeclarativeMlir.Embed

/-- The tokens of a format string. -/
inductive FormatToken where
  /-- text between backquotes -/
  | literal (text : String)
  /-- a name after a dollar sign -/
  | var (name : String)
  /-- the name of a directive -/
  | keyword (name : String)
  | identifier (text : String)
  | lparen
  | rparen
  | caret
  | comma
  | equal
  | question
  | error
  deriving DecidableEq, Repr

def isValidLiteral (value : String) : Bool :=
  match value.toList with
  | [] => false
  | [front] => front.isAlpha || front ∈ ['_', ':', ',', '=', '<', '>', '(', ')', '[', ']']
  | front :: rest =>
    value == "->" ||
      (front.isAlpha || front == '_') &&
        rest.all fun c ↦ c.isAlphanum || c == '_' || c == '$' || c == '.'

/-- A literal that is parsed by `parseKeyword`, and not by a parser of its own. -/
def isKeywordLiteral (value : String) : Bool :=
  match value.toList with
  | [] => false
  | front :: _ => front == '_' || front.isAlpha

end DeclarativeMlir.Embed

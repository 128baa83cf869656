import FourGL.Text.Span
import FourGL.Token.Kind

/-!
# Expressions

Expressions are the leaves of the tree: values, conditions and bounds inside statements. An operand
that could not be read leaves a placeholder.
-/

namespace FourGL

inductive LiteralKind where
  | number | string | yes | no | null
deriving DecidableEq

def LiteralKind.name : LiteralKind → String
  | number => "number"
  | string => "string"
  | yes => "true"
  | no => "false"
  | null => "null"

mutual

inductive Expression where
  /-- A literal as it is written, strings with their quotes. -/
  | literal (span : Span) (kind : LiteralKind) (text : String)
  | name (designator : Designator)
  | call (span : Span) (callee : Designator) (arguments : List Expression)
  /-- A sign or a negation. -/
  | unary (span : Span) (operator : Kind) (operand : Expression)
  /-- Two operands; LIKE and MATCHES may be negated. -/
  | binary (span : Span) (left : Expression) (operator : Kind) (negated : Bool) (right : Expression)
  | isNull (span : Span) (operand : Expression) (negated : Bool)
  | clipped (span : Span) (operand : Expression)
  | parenthesized (span : Span) (inner : Expression)
  /-- The place of an operand that could not be read. -/
  | missing (span : Span)

/-- The name of a variable or function and what is selected in it: `x`, `rec.field`,
`arr[i].name`, `rec.*`. -/
structure Designator where
  span : Span
  name : String
  accessors : List Accessor

/-- One step into a record or an array. -/
inductive Accessor where
  | member (name : String)
  | index (indices : List Expression)
  | allMembers

end

def Designator.isSimple (d : Designator) : Bool := d.accessors.isEmpty

namespace Expression

def span : Expression → Span
  | literal span .. | call span .. | unary span .. | binary span .. | isNull span
      .. | clipped span ..
  | parenthesized span .. | missing span => span
  | name d => d.span

def isMissing : Expression → Bool
  | missing _ => true
  | _ => false

def designator? : Expression → Option Designator
  | name d => some d
  | _ => none

end Expression

/-! ## Source text -/

mutual

/-- The expression as source text in one line, keywords in lowercase. A placeholder leaves no
trace. -/
def Expression.render : Expression → String
  | .literal _ _ text => text
  | .name d => d.render
  | .call _ callee arguments => callee.render ++ "(" ++ renderList arguments ++ ")"
  | .unary _ operator operand =>
    if operator = .keyword .NOT then "not " ++ operand.render else operator.text ++ operand.render
  | .binary _ left operator negated right =>
    left.render ++ (if negated then " not " else " ") ++ operator.text ++ " " ++ right.render
  | .isNull _ operand negated => operand.render ++ (if negated then " is not null" else " is null")
  | .clipped _ operand => operand.render ++ " clipped"
  | .parenthesized _ inner => "(" ++ inner.render ++ ")"
  | .missing _ => ""

/-- Expressions with commas between them. -/
def renderList : List Expression → String
  | [] => ""
  | [e] => e.render
  | e :: es => e.render ++ ", " ++ renderList es

def Designator.render : Designator → String
  | ⟨_, name, accessors⟩ => name ++ renderAccessors accessors

def renderAccessors : List Accessor → String
  | [] => ""
  | a :: as => a.render ++ renderAccessors as

def Accessor.render : Accessor → String
  | .member name => "." ++ name
  | .index indices => "[" ++ renderList indices ++ "]"
  | .allMembers => ".*"

end

/-! ## Visiting -/

mutual

/-- The expression and what is nested in it, each with its depth, from left to right. The indices in
the designator of a called function are passed over. -/
def Expression.visit (depth : Nat) : Expression → List (Nat × Expression)
  | .literal span kind text => [(depth, .literal span kind text)]
  | .name d => (depth, .name d) :: d.visit (depth + 1)
  | .call span callee arguments =>
    (depth, .call span callee arguments) :: visitList (depth + 1) arguments
  | .unary span operator operand =>
    (depth, .unary span operator operand) :: operand.visit (depth + 1)
  | .binary span left operator negated right =>
    (depth, .binary span left operator negated right) ::
      (left.visit (depth + 1) ++ right.visit (depth + 1))
  | .isNull span operand negated =>
    (depth, .isNull span operand negated) :: operand.visit (depth + 1)
  | .clipped span operand => (depth, .clipped span operand) :: operand.visit (depth + 1)
  | .parenthesized span inner => (depth, .parenthesized span inner) :: inner.visit (depth + 1)
  | .missing span => [(depth, .missing span)]

def visitList (depth : Nat) : List Expression → List (Nat × Expression)
  | [] => []
  | e :: es => e.visit depth ++ visitList depth es

def Designator.visit (depth : Nat) : Designator → List (Nat × Expression)
  | ⟨_, _, accessors⟩ => visitAccessors depth accessors

def visitAccessors (depth : Nat) : List Accessor → List (Nat × Expression)
  | [] => []
  | a :: as => a.visit depth ++ visitAccessors depth as

def Accessor.visit (depth : Nat) : Accessor → List (Nat × Expression)
  | .member _ | .allMembers => []
  | .index indices => visitList depth indices

end

end FourGL

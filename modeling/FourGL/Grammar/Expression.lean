import FourGL.Grammar.Operator
import FourGL.Grammar.Parser

/-!
# Reading expressions

Expressions are read by climbing the levels of their operators. Every operand nests one deeper than
the expression around it; where no level of nesting is left, one token is given up for a
placeholder. `deeper r` reads an operand whose operators have at least the rank `r`.
-/

namespace FourGL.Parser

/-- Reports that an expression should follow and leaves a placeholder. -/
def missingExpression : Parser Expression := do
  reportNext .expressionExpected []
  return .missing (.empty (← nextStart))

/-- Reads an expression, if one can start at the next token. -/
def expressionWith? (deeper : Nat → Parser Expression) : Parser (Option Expression) := do
  if (← peekKind).startsExpression then
    return some (← deeper Level.lowest.rank)
  else
    return none

/-- Reads an expression, or leaves a placeholder. -/
def expectExpressionWith (deeper : Nat → Parser Expression) : Parser Expression := do
  match ← expressionWith? deeper with
  | some e => return e
  | none => missingExpression

/-- Reads expressions with commas between them. -/
def expressionListWith (deeper : Nat → Parser Expression) : Parser (List Expression) :=
  commaList (do return some (← expectExpressionWith deeper))

/-! ## Designators -/

/-- The steps into a record or an array that can follow a name. -/
inductive Selection where
  | member
  | allMembers
  | index

/-- What the next tokens select. A keyword is the name of a member only on the same line. -/
def selection? : Parser (Option Selection) := do
  match ← peekKind with
  | .mark .dot =>
    let second ← peekAt 2
    if second.kind = .mark .asterisk then return some .allMembers
    else if second.kind.canBeName || (second.kind.isKeyword && !second.lineBreakBefore) then
      return some .member
    else return none
  | .mark .openBracket => return some .index
  | _ => return none

/-- Reads a step behind its dot or opening bracket. -/
def accessor (deeper : Nat → Parser Expression) : Selection → Parser Accessor
  | .member => do return .member (← next).text
  | .allMembers => do
    let _ ← next
    return .allMembers
  | .index => do
    let indices ← expressionListWith deeper
    let _ ← expect (.mark .closeBracket)
    return .index indices

/-- Reads a name and the steps behind it, if a name follows. -/
def designatorWith? (deeper : Nat → Parser Expression) : Parser (Option Designator) := do
  match ← name? with
  | none => return none
  | some (name, span) =>
    let accessors ← whileNext (fun _ => selection?)
      (fun as selection => do return as ++ [← accessor deeper selection]) []
    return some ⟨← spanFrom span.start, name, accessors⟩

/-! ## Operands -/

def literalKind? : Kind → Option LiteralKind
  | .number => some .number
  | .string => some .string
  | .keyword .TRUE => some .yes
  | .keyword .FALSE => some .no
  | .keyword .NULL => some .null
  | _ => none

/-- Reads the arguments of a call, of which the opening parenthesis comes next. -/
def callWith (deeper : Nat → Parser Expression) (callee : Designator) : Parser Expression := do
  let _ ← next
  let arguments ← if ← nextIs (.mark .closeParen) then pure [] else expressionListWith deeper
  let _ ← expect (.mark .closeParen)
  return .call (← spanFrom callee.span.start) callee arguments

/-- Reads a literal, a parenthesized expression, a name or a call. -/
def primaryWith (deeper : Nat → Parser Expression) : Parser Expression := do
  let t ← peek
  match literalKind? t.kind with
  | some kind =>
    let _ ← next
    return .literal (← spanFrom t.start) kind t.text
  | none =>
    if ← optional (.mark .openParen) then
      let inner ← expectExpressionWith deeper
      let _ ← expect (.mark .closeParen)
      return .parenthesized (← spanFrom t.start) inner
    else
      match ← designatorWith? deeper with
      | none => missingExpression
      | some d => if ← nextIs (.mark .openParen) then callWith deeper d else return .name d

/-- The rank that the operators in the operand of a sign or a negation have at least. -/
def operandRank? : Kind → Option Nat
  | .keyword .NOT => some Level.not.rank
  | .mark .minus | .mark .plus => some Level.unary.rank
  | _ => none

/-- Reads a primary expression with the signs or negations before it. -/
def unaryWith (deeper : Nat → Parser Expression) : Parser Expression := do
  let t ← peek
  match operandRank? t.kind with
  | none => primaryWith deeper
  | some rank =>
    let _ ← next
    let operand ← if (← peekKind).startsExpression then deeper rank else missingExpression
    return .unary (← spanFrom t.start) t.kind operand

/-! ## Operators -/

/-- How an expression goes on behind an operand. -/
inductive Continuation where
  | isNull
  | clipped
  | binary (operator : Kind) (negated : Bool) (level : Level)

/-- The operator at the next token, which is of kind `kind`: NOT before LIKE or MATCHES only negates
those. -/
def operatorBehind (kind : Kind) : Parser Kind := do
  if kind = .keyword .NOT then
    let second ← peekAt 2
    if second.kind = .keyword .LIKE ∨ second.kind = .keyword .MATCHES then return second.kind
    else return kind
  else return kind

/-- How the expression goes on, with operators of at least the rank `least`. -/
def continuation? (least : Nat) : Parser (Option Continuation) := do
  let kind ← peekKind
  if kind = .keyword .IS ∧ least ≤ Level.comparison.rank then return some .isNull
  else if kind = .keyword .CLIPPED ∧ least ≤ Level.format.rank then return some .clipped
  else
    let operator ← operatorBehind kind
    match operator.level? with
    | none => return none
    | some level =>
      if least ≤ level.rank then return some (.binary operator (operator != kind) level)
      else return none

/-- Goes on behind `left`, which starts at `start`; the first token of the continuation is read. -/
def continueWith (deeper : Nat → Parser Expression) (start : Nat) (left : Expression) :
    Continuation → Parser Expression
  | .isNull => do
    let negated ← optional (.keyword .NOT)
    let _ ← expect (.keyword .NULL)
    return .isNull (← spanFrom start) left negated
  | .clipped => do return .clipped (← spanFrom start) left
  | .binary operator negated level => do
    if negated then
      let _ ← next
    let right ← deeper (rightRank operator level)
    return .binary (← spanFrom start) left operator negated right

/-- Reads an operand and what goes on behind it, with operators of at least the rank `least`. -/
def operandWith (deeper : Nat → Parser Expression) (least : Nat) : Parser Expression := do
  let start ← nextStart
  let first ← unaryWith deeper
  whileNext (fun _ => continuation? least) (continueWith deeper start) first

/-- Gives up the next token, at which an expression would begin that nests too deep. -/
def giveUp : Parser Expression := do
  let start ← nextStart
  let _ ← next
  return .missing (← spanFrom start)

/-- Reads an expression with operators of at least the rank `least`. Where the limit of nesting is
reached, the next token is given up; `levels` bounds how many levels can be left until then. -/
def operandAt : (levels least : Nat) → Parser Expression
  | 0, _ => do
    reportLimit
    giveUp
  | levels + 1, least => nestedOr giveUp (operandWith (operandAt levels) least)

/-- An expression is given up, or some level is left for it. -/
theorem run_operandAt (levels least : Nat) (s : ParseState) :
    (operandAt levels least).run s = (operandAt 0 least).run s ∨
      s.nesting.isFull = false ∧ ∃ l, levels = l + 1 ∧
        (operandAt levels least).run s = (nested (operandWith (operandAt l) least)).run s := by
  cases levels with
  | zero => exact .inl rfl
  | succ l =>
    refine nestedOr_cases (P := fun s r => r = (operandAt 0 least).run s ∨
      s.nesting.isFull = false ∧
      ∃ k, l + 1 = k + 1 ∧ r = (nested (operandWith (operandAt k) least)).run s)
      (fun _ _ => .inl rfl) (fun _ hlimit => .inr ⟨hlimit, l, rfl, rfl⟩) s

/-! ## Expressions where some levels of nesting are left -/

def expression? (levels : Nat) : Parser (Option Expression) := expressionWith? (operandAt levels)

def expectExpression (levels : Nat) : Parser Expression := expectExpressionWith (operandAt levels)

def expressionList (levels : Nat) : Parser (List Expression) :=
  expressionListWith (operandAt levels)

def designator? (levels : Nat) : Parser (Option Designator) := designatorWith? (operandAt levels)

/-- Reads a designator or reports that a name should follow. -/
def expectDesignator (levels : Nat) : Parser (Option Designator) := do
  match ← designator? levels with
  | some d => return some d
  | none =>
    reportNext .identifierExpected []
    return none

/-- Reads designators with commas between them. -/
def designatorList (levels : Nat) : Parser (List Designator) := commaList (expectDesignator levels)

end FourGL.Parser

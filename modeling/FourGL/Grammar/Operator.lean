import FourGL.Token.Kind

/-!
# Operators

Binary operators bind on levels; an operator of a higher level binds tighter. All of them associate
to the left but exponentiation, which associates to the right.
-/

namespace FourGL

inductive Level where
  | lowest | or | and | not | comparison | concatenation
  /-- USING, and CLIPPED behind its operand. -/
  | format
  | additive | multiplicative | exponentiation | unary
deriving DecidableEq

namespace Level

def rank : Level → Nat
  | lowest => 0
  | or => 1
  | and => 2
  | not => 3
  | comparison => 4
  | concatenation => 5
  | format => 6
  | additive => 7
  | multiplicative => 8
  | exponentiation => 9
  | unary => 10

/-- From the loosest to the tightest. -/
def all : List Level :=
  [.lowest, .or, .and, .not, .comparison, .concatenation, .format, .additive, .multiplicative,
   .exponentiation, .unary]

/-- The next tighter level. -/
def next? (l : Level) : Option Level := all.find? fun m => m.rank == l.rank + 1

end Level

/-- The level of a binary operator, `none` for anything else. -/
def Kind.level? : Kind → Option Level
  | .keyword .OR => some .or
  | .keyword .AND => some .and
  | .mark .equal | .mark .doubleEqual | .mark .notEqual | .mark .lessGreater | .mark .less
  | .mark .lessEqual | .mark .greater | .mark .greaterEqual | .keyword .LIKE
  | .keyword .MATCHES => some .comparison
  | .mark .concat => some .concatenation
  | .keyword .USING => some .format
  | .mark .plus | .mark .minus => some .additive
  | .mark .asterisk | .mark .slash | .keyword .MOD => some .multiplicative
  | .mark .power => some .exponentiation
  | _ => none

/-- The least rank that an operator in the right operand may have. -/
def rightRank (operator : Kind) (l : Level) : Nat :=
  if operator = .mark .power then l.rank else l.rank + 1

/-- Whether an expression can start with a token of this kind. -/
def Kind.startsExpression : Kind → Bool
  | .number | .string | .keyword .TRUE | .keyword .FALSE | .keyword .NULL | .mark .openParen
  | .mark .plus | .mark .minus | .keyword .NOT => true
  | k => k.canBeName

end FourGL

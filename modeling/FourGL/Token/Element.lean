import FourGL.Diagnostic
import FourGL.Text.Alphabet
import FourGL.Token

/-!
# Lexical elements

What a text begins with. An element takes its first character and as many more as belong to it, so
every element is non-empty and the text behind it is shorter.
-/

namespace FourGL

/-- The element at the beginning of a text. -/
structure Element where
  kind : Kind
  /-- How many characters it takes after the first. -/
  more : Nat
  flags : Flags := {}
  /-- What is wrong with it; its text is the argument of the message. -/
  fault : Option Message := none

namespace Element

/-! ## Trivia -/

/-- A carriage return and the line feed behind it are one line break. -/
def lineBreak (c : Char) (cs : List Char) : Element where
  kind := .newLine
  more := if c = '\r' ∧ cs.head? = some '\n' then 1 else 0

def blanks (cs : List Char) : Element where
  kind := .whitespace
  more := (cs.takeWhile isBlank).length

/-- Comments start with a number sign, two hyphens or an opening brace. -/
def startsComment (c : Char) (cs : List Char) : Bool :=
  c == '#' || c == '\x7b' || (c == '-' && cs.head? == some '-')

/-- A comment in braces, behind the opening one. Such comments do not nest. -/
def blockComment (cs : List Char) : Element :=
  let inside := cs.takeWhile (· != '\x7d')
  if inside.length < cs.length then { kind := .comment, more := inside.length + 1 }
  else
    { kind := .comment
      more := inside.length
      flags := { unterminated := true }
      fault := some .unterminatedComment }

/-- A comment up to the end of the line, behind its first character. -/
def lineComment (cs : List Char) : Element where
  kind := .comment
  more := (cs.takeWhile fun c => !isLineBreak c).length

/-- The piece of trivia that the text begins with, if it begins with one. -/
def trivia? (c : Char) (cs : List Char) : Option Element :=
  if isLineBreak c then some (lineBreak c cs)
  else if isBlank c then some (blanks cs)
  else if startsComment c cs then some (if c = '\x7b' then blockComment cs else lineComment cs)
  else none

/-! ## Marks -/

def pairMark? : Char → Char → Option Mark
  | '*', '*' => some .power
  | '|', '|' => some .concat
  | '=', '=' => some .doubleEqual
  | '!', '=' => some .notEqual
  | '<', '>' => some .lessGreater
  | '<', '=' => some .lessEqual
  | '>', '=' => some .greaterEqual
  | _, _ => none

def singleMark? : Char → Option Mark
  | '+' => some .plus
  | '-' => some .minus
  | '*' => some .asterisk
  | '/' => some .slash
  | '=' => some .equal
  | '<' => some .less
  | '>' => some .greater
  | '(' => some .openParen
  | ')' => some .closeParen
  | '[' => some .openBracket
  | ']' => some .closeBracket
  | ',' => some .comma
  | '.' => some .dot
  | ':' => some .colon
  | ';' => some .semicolon
  | _ => none

/-- The longest mark that the text begins with. -/
def mark? (c : Char) (cs : List Char) : Option Element :=
  match cs.head?.bind (pairMark? c) with
  | some m => some { kind := .mark m, more := 1 }
  | none => (singleMark? c).map fun m => { kind := .mark m, more := 0 }

/-! ## String literals -/

/-- How many characters of a string literal come behind its opening quote, and whether the closing
quote is among them. A literal ends at the latest before a line break; a backslash keeps the quote
behind it from closing the literal. -/
def stringTail (quote : Char) : List Char → Nat × Bool
  | [] => (0, false)
  | '\\' :: c :: cs =>
    if isLineBreak c then (1, false)
    else
      let (n, closed) := stringTail quote cs
      (n + 2, closed)
  | c :: cs =>
    if c = quote then (1, true)
    else if isLineBreak c then (0, false)
    else
      let (n, closed) := stringTail quote cs
      (n + 1, closed)

def stringLiteral (quote : Char) (cs : List Char) : Element :=
  let (more, closed) := stringTail quote cs
  { kind := .string
    more
    flags := { unterminated := !closed, doubleQuoted := quote == '"' }
    fault := if closed then none else some .unterminatedString }

/-! ## Numbers -/

/-- How many digits `cs` begins with. -/
def digits (cs : List Char) : Nat := (cs.takeWhile Char.isDigit).length

/-- A decimal point and the digits behind it. A point before a letter is no decimal point: it
selects a member. -/
def fraction : List Char → Nat
  | '.' :: cs => if cs.head?.any startsName then 0 else digits cs + 1
  | _ => 0

/-- The exponent that `cs` begins with: its length and how many digits it has. The letter alone
makes an exponent. -/
def exponent? : List Char → Option (Nat × Nat)
  | c :: cs =>
    if c = 'e' ∨ c = 'E' then
      let sign := if cs.head? = some '+' ∨ cs.head? = some '-' then 1 else 0
      let n := digits (cs.drop sign)
      some (1 + sign + n, n)
    else none
  | [] => none

/-- A number whose mantissa goes on for `mantissa` characters of `cs`. -/
def numberOf (mantissa : Nat) (decimalPoint : Bool) (cs : List Char) : Element :=
  match exponent? (cs.drop mantissa) with
  | none => { kind := .number, more := mantissa, flags := { decimalPoint } }
  | some (length, n) =>
    { kind := .number
      more := mantissa + length
      flags := { scientific := true, decimalPoint, invalid := n == 0 }
      fault := if n = 0 then some .malformedNumber else none }

/-- Numbers start with a digit, or with a decimal point and a digit. -/
def number? (c : Char) (cs : List Char) : Option Element :=
  if c.isDigit then
    let whole := digits cs
    let fractional := fraction (cs.drop whole)
    some (numberOf (whole + fractional) (0 < fractional) cs)
  else if c = '.' ∧ 0 < digits cs then some (numberOf (digits cs) true cs)
  else none

/-! ## Words -/

/-- A keyword or an identifier. -/
def word (c : Char) (cs : List Char) : Element :=
  let tail := cs.takeWhile continuesName
  { kind := match Keyword.ofText? (String.ofList (c :: tail)) with
      | some k => .keyword k
      | none => .identifier
    more := tail.length }

/-! ## Elements of any kind -/

def unknown : Element where
  kind := .unknown
  more := 0
  flags := { invalid := true }
  fault := some .invalidCharacter

/-- The element that a text without trivia at its beginning begins with. -/
def significant (c : Char) (cs : List Char) : Element :=
  match number? c cs with
  | some e => e
  | none => match mark? c cs with
    | some e => e
    | none =>
      if c = '\'' ∨ c = '"' then stringLiteral c cs
      else if startsName c then word c cs
      else unknown

/-- The characters that an element takes. -/
def taken (e : Element) (c : Char) (cs : List Char) : List Char := c :: cs.take e.more

/-- The text behind an element. -/
def behind (e : Element) (cs : List Char) : List Char := cs.drop e.more

theorem taken_append_behind (e : Element) (c : Char) (cs : List Char) :
    e.taken c cs ++ e.behind cs = c :: cs := by
  simp [taken, behind]

theorem length_behind_le (e : Element) (cs : List Char) : (e.behind cs).length ≤ cs.length := by
  simp [behind]

/-- The token that an element makes at offset `pos`. -/
def token (e : Element) (lineBreakBefore : Bool) (pos : Nat) (c : Char) (cs : List Char) :
    Token where
  kind := e.kind
  start := pos
  stop := pos + (e.taken c cs).length
  text := String.ofList (e.taken c cs)
  flags := { e.flags with lineBreakBefore }

/-- What is to be said about an element at offset `pos`. -/
def issues (e : Element) (pos : Nat) (c : Char) (cs : List Char) : List Diagnostic :=
  match e.fault with
  | none => []
  | some m =>
    [.of m [String.ofList (e.taken c cs)] (some (.between pos (pos + (e.taken c cs).length)))]

/-- Whether a line ends inside the element. -/
def hasLineBreak (e : Element) (c : Char) (cs : List Char) : Bool := (e.taken c cs).any isLineBreak

end Element

end FourGL

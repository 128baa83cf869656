import FourGL.Text.Span
import FourGL.Token.Kind

/-!
# Tokens
-/

namespace FourGL

/-- What is remarkable about a token. -/
structure Flags where
  /-- A line break stands between the token and the one before it. -/
  lineBreakBefore : Bool := false
  unterminated : Bool := false
  /-- A number with an exponent. -/
  scientific : Bool := false
  decimalPoint : Bool := false
  doubleQuoted : Bool := false
  invalid : Bool := false
deriving DecidableEq

/-- The flags as one number, a bit for each. -/
def Flags.bits (f : Flags) : Nat :=
  let bit (b : Bool) (n : Nat) := if b then n else 0
  bit f.lineBreakBefore 1 + bit f.unterminated 2 + bit f.scientific 4 + bit f.decimalPoint 8 +
    bit f.doubleQuoted 16 + bit f.invalid 32

/-- A token and where it stands: `text` is what the source holds from `start` up to `stop`. -/
structure Token where
  kind : Kind
  start : Nat
  stop : Nat
  text : String := ""
  flags : Flags := {}
deriving DecidableEq

namespace Token

/-- The token of no characters that stands at the end of a text of length `pos`. -/
def endOfFile (pos : Nat) : Token := ⟨.endOfFile, pos, pos, "", {}⟩

def span (t : Token) : Span := .between t.start t.stop

def category (t : Token) : Category := t.kind.category

def lineBreakBefore (t : Token) : Bool := t.flags.lineBreakBefore

/-- Reads the escapes of a string literal: a backslash before `n`, `t` or `r` makes a control
character, before anything else it only lets that character stand for itself. -/
def unescape : List Char → List Char
  | '\\' :: c :: cs =>
    (if c = 'n' then '\n' else if c = 't' then '\t' else if c = 'r' then '\r' else c) :: unescape cs
  | c :: cs => c :: unescape cs
  | [] => []

/-- The contents of a string literal: without its quotes, the last of which may be missing. -/
def unquote (unterminated : Bool) (cs : List Char) : List Char :=
  let inner := cs.drop 1
  unescape (if unterminated then inner else inner.dropLast)

/-- What the token stands for: a keyword in lowercase, the contents of a string, else its text. -/
def value (t : Token) : String :=
  match t.kind with
  | .keyword k => k.text
  | .string => String.ofList (unquote t.flags.unterminated t.text.toList)
  | _ => t.text

end Token

end FourGL

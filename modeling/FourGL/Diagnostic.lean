import FourGL.Text.Span

/-!
# Diagnostics

What scanning and parsing have to say about a text. A problem never stops them: each is noted as a
diagnostic with a stable code, a severity and the stretch of text it is about.
-/

namespace FourGL

inductive Severity where
  | error
  | warning
deriving DecidableEq

def Severity.name : Severity → String
  | .error => "error"
  | .warning => "warning"

/-- The wording of a diagnostic. The places `\x7b0\x7d`, `\x7b1\x7d`, … stand for its
arguments. -/
structure Message where
  code : Nat
  severity : Severity := .error
  template : String

namespace Message

/-- Puts `new` in the place of every occurrence of `old`, from left to right. -/
def replaceAll (old new : List Char) : List Char → List Char
  | [] => []
  | c :: cs =>
    if old.isPrefixOf (c :: cs) then new ++ replaceAll old new (cs.drop (old.length - 1))
    else c :: replaceAll old new cs
termination_by cs => cs.length
decreasing_by all_goals simp only [List.length_cons, List.length_drop]; omega

/-- The place of the argument with number `i`. -/
def place (i : Nat) : List Char := '\x7b' :: (toString i).toList ++ ['\x7d']

/-- Fills in the arguments `args`, the first of which has number `i`, one after the other. Places
inside an argument are filled too when their turn comes. -/
def fillFrom (i : Nat) : List String → List Char → List Char
  | [], text => text
  | arg :: args, text => fillFrom (i + 1) args (replaceAll (place i) arg.toList text)

def fill (m : Message) (args : List String) : String :=
  String.ofList (fillFrom 0 args m.template.toList)

/-! ## The catalogue -/

def unterminatedString : Message where
  code := 1001
  template := "Unterminated string literal."

def unterminatedComment : Message where
  code := 1002
  template := "Unterminated comment; '\x7d' expected."

def invalidCharacter : Message where
  code := 1003
  template := "Invalid character '\x7b0\x7d'."

def malformedNumber : Message where
  code := 1004
  template := "Malformed numeric literal '\x7b0\x7d'."

def expected : Message where
  code := 2001
  template := "'\x7b0\x7d' expected."

def expressionExpected : Message where
  code := 2002
  template := "Expression expected."

def identifierExpected : Message where
  code := 2003
  template := "Identifier expected."

def unterminatedBlock : Message where
  code := 2004
  template := "A \x7b0\x7d statement must be terminated with '\x7b1\x7d'."

def noEnclosingBlock : Message where
  code := 2005
  template := "'\x7b0\x7d \x7b1\x7d' is not valid here: there is no enclosing \x7b1\x7d block."

def unexpectedToken : Message where
  code := 2006
  template := "Unexpected token '\x7b0\x7d'."

def unexpectedEnd : Message where
  code := 2007
  template := "Unexpected 'end \x7b0\x7d'."

def missingCounter : Message where
  code := 2008
  template := "Missing counter variable in for statement."

def typeExpected : Message where
  code := 2009
  template := "Type expected."

def returnOutsideFunction : Message where
  code := 2010
  template := "Return values are only allowed inside a function."

def requiresVersion : Message where
  code := 2011
  template := "'\x7b0\x7d' requires language version \x7b1\x7d or later."

def nestingTooDeep : Message where
  code := 2012
  template := "Maximum nesting depth exceeded."

def secondOtherwise : Message where
  code := 2013
  template := "A case statement can only have one 'otherwise' clause."

def unexpectedMember : Message where
  code := 2014
  template :=
    "Unexpected token '\x7b0\x7d' at module level; a function, main block or declaration was expected."

def secondMain : Message where
  code := 2015
  template := "A module can only contain one main block."

def misplacedModifier : Message where
  code := 2016
  template := "'\x7b0\x7d' modifier cannot be applied to \x7b1\x7d."

def emptyMenu : Message where
  code := 2018
  severity := .warning
  template := "A menu should define at least one command or action."

def alreadyDefined : Message where
  code := 2019
  template := "'\x7b0\x7d' is already defined in this scope."

def blockKeywordExpected : Message where
  code := 2020
  template := "A block keyword was expected after '\x7b0\x7d'."

def cursorRefused : Message where
  code := 2021
  template := "Cursor '\x7b0\x7d' cannot be declared here: no enclosing scope accepts it."

def cursorRedeclared : Message where
  code := 2022
  severity := .warning
  template := "Cursor '\x7b0\x7d' is redeclared inside the foreach that iterates it."

/-- Every message, by ascending code. -/
def catalogue : List Message :=
  [unterminatedString, unterminatedComment, invalidCharacter, malformedNumber, expected,
   expressionExpected, identifierExpected, unterminatedBlock, noEnclosingBlock, unexpectedToken,
   unexpectedEnd, missingCounter, typeExpected, returnOutsideFunction, requiresVersion,
   nestingTooDeep, secondOtherwise, unexpectedMember, secondMain, misplacedModifier, emptyMenu,
   alreadyDefined, blockKeywordExpected, cursorRefused, cursorRedeclared]

def ofCode? (code : Nat) : Option Message := catalogue.find? (·.code == code)

end Message

structure Diagnostic where
  file : Option String := none
  span : Option Span := none
  message : String
  code : Nat
  severity : Severity
deriving DecidableEq

namespace Diagnostic

/-- The diagnostic that says `m` about `span`. -/
def of (m : Message) (args : List String) (span : Option Span) : Diagnostic where
  span
  message := m.fill args
  code := m.code
  severity := m.severity

def isError (d : Diagnostic) : Bool := d.severity == .error

/-- Where the diagnostic starts; one without a place counts as standing at the beginning. -/
def start (d : Diagnostic) : Nat := (d.span.map Span.start).getD 0

def render (d : Diagnostic) : String :=
  let place := match d.file, d.span with
    | some file, some span => s!"{file}({span.start}): "
    | some file, none => s!"{file}: "
    | none, _ => ""
  place ++ s!"{d.severity.name} FGL{d.code}: {d.message}"

/-- Fills in the file where none is named. -/
def inFile (file : String) (d : Diagnostic) : Diagnostic :=
  { d with file := d.file.orElse fun _ => some file }

/-- Order by file, those without one first, then by start. -/
def notAfter (a b : Diagnostic) : Bool :=
  match a.file, b.file with
  | none, none => a.start ≤ b.start
  | none, some _ => true
  | some _, none => false
  | some f, some g => f < g || (f == g && a.start ≤ b.start)

/-- Diagnostics by file and start; those of one place keep their order. -/
def sorted (ds : List Diagnostic) : List Diagnostic := ds.mergeSort notAfter

def errorCount (ds : List Diagnostic) : Nat := ds.countP isError

end Diagnostic

end FourGL

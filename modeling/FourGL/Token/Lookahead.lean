import FourGL.Token.Scanner

/-!
# Looking ahead

The tokens of a text without its trivia, as a stream that can be inspected any number of tokens
ahead. The stream never ends: behind the last token stand ends of file.
-/

namespace FourGL

/-- A token that is not trivia, with the trivia before it and what was noticed while both were
read. -/
structure Lexeme where
  token : Token
  before : List Token
  issues : List Diagnostic

namespace Lexeme

/-- Gathers what was scanned around the tokens that are not trivia; `before` and `issues` wait for
the next of them. -/
def gather (before : List Token) (issues : List Diagnostic) : List Scanned → List Lexeme
  | [] => []
  | s :: ss =>
    if s.token.kind.isTrivia then gather (before ++ [s.token]) (issues ++ s.issues) ss
    else ⟨s.token, before, issues ++ s.issues⟩ :: gather [] [] ss

def ofText (mode : ScanMode) (text : String) : List Lexeme := gather [] [] (scan mode text)

end Lexeme

/-- A place in the stream of tokens of a text. -/
structure Lookahead where
  /-- The whole stream up to the end of file. -/
  stream : List Lexeme
  /-- How long the text is; ends of file stand there. -/
  length : Nat
  /-- What is still to be read. -/
  rest : List Lexeme
  /-- How many lexemes have been read. -/
  index : Nat := 0
  /-- How many lexemes have been read or inspected. -/
  seen : Nat := 0
  /-- The token read last. -/
  last : Token := .endOfFile 0
  /-- How many tokens have been read; ends of file do not count. -/
  consumed : Nat := 0
  /-- How many errors were noticed in what has been read. -/
  errors : Nat := 0

namespace Lookahead

def ofText (mode : ScanMode) (text : String) : Lookahead :=
  let stream := Lexeme.ofText mode text
  { stream, length := text.length, rest := stream }

/-- The token at `depth`, where the next one has depth 1; depth 0 counts as 1. -/
def tokenAt (q : Lookahead) (depth : Nat) : Token :=
  match q.rest[depth - 1]? with
  | some l => l.token
  | none => .endOfFile q.length

/-- Notes that the tokens up to `depth` have been inspected. -/
def inspect (q : Lookahead) (depth : Nat) : Lookahead :=
  { q with seen := max q.seen (q.index + max depth 1) }

/-- Reads one token. -/
def advance (q : Lookahead) : Lookahead :=
  match q.rest with
  | [] => { q with last := .endOfFile q.length }
  | l :: ls =>
    { q with
      rest := ls
      index := q.index + 1
      seen := max q.seen (q.index + 1)
      last := l.token
      consumed := if l.token.kind = .endOfFile then q.consumed else q.consumed + 1
      errors := q.errors + Diagnostic.errorCount l.issues }

/-- The lexemes read or inspected so far. -/
def seenLexemes (q : Lookahead) : List Lexeme := q.stream.take q.seen

/-- What was noticed in the part of the text seen so far. -/
def issues (q : Lookahead) : List Diagnostic := q.seenLexemes.flatMap (·.issues)

/-- The trivia in the part of the text seen so far. -/
def trivia (q : Lookahead) : List Token := q.seenLexemes.flatMap (·.before)

theorem length_rest_advance_le (q : Lookahead) : q.advance.rest.length ≤ q.rest.length := by
  unfold advance; split <;> simp_all

theorem length_rest_advance_lt {q : Lookahead} (h : q.rest ≠ []) :
    q.advance.rest.length < q.rest.length := by
  unfold advance; split <;> simp_all

end Lookahead

end FourGL

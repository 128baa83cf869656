import FourGL.Token.Scanner

/-!
# Insertion points

What stands before the place where a word is typed: the text is cut there and scanned, so that what
follows has no influence.
-/

namespace FourGL

/-- Whether a token of this kind may be a word that is being typed. -/
def Kind.isWord : Kind → Bool
  | .identifier | .keyword _ => true
  | _ => false

structure InsertionPoint where
  cursor : Nat
  /-- The tokens before the cursor, the nearest first. -/
  tokens : List Token

namespace InsertionPoint

/-- The place behind the first `offset` characters of `text`, or its end if there are fewer. -/
def ofText (text : String) (offset : Nat) : InsertionPoint :=
  let before := text.toList.take offset
  { cursor := before.length
    tokens := ((FourGL.tokens .default (String.ofList before)).filter
      (·.kind != .endOfFile)).reverse }

/-- The word that is being typed: it ends right at the cursor. -/
def typed? (p : InsertionPoint) : Option Token :=
  p.tokens.head?.filter fun t => t.stop == p.cursor && t.kind.isWord

def word (p : InsertionPoint) : String := (p.typed?.map Token.text).getD ""

def wordStart (p : InsertionPoint) : Nat := (p.typed?.map Token.start).getD p.cursor

/-- The tokens before the word, the nearest first. -/
def earlier (p : InsertionPoint) : List Token := if p.typed?.isSome then p.tokens.tail else p.tokens

/-- The token before the word; at the beginning of the text it counts as the end of a file. -/
def trigger (p : InsertionPoint) : Kind := (p.earlier.head?.map Token.kind).getD .endOfFile

def triggerSpan (p : InsertionPoint) : Option Span := p.earlier.head?.map Token.span

/-- The kinds of the tokens before the trigger, the nearest first. -/
def backward (p : InsertionPoint) : List Kind := p.earlier.tail.map Token.kind

end InsertionPoint

end FourGL

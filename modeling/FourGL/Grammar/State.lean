import FourGL.Token.Lookahead
import FourGL.Tree.Node

/-!
# What parsing has come to

A state holds the place in the text, the reports made so far and the names declared so far. Names
are collected by owner: the module, the block (a routine or a GLOBALS block) that is being read, or
a snippet of statements that stands alone.
-/

namespace FourGL

/-- Who declarations, cursors and returned values belong to. -/
inductive Owner where
  | module
  | block
  | snippet
deriving DecidableEq

/-- What one owner has collected. -/
structure Holding where
  scope : Scope := {}
  /-- How many values each RETURN returns. -/
  returns : List Nat := []

/-- A FOREACH around the place that is being read: it watches for statements that give the name of
its cursor away. -/
structure LoopCursor where
  name : String
  redeclared : List Cursor := []

/-- The names collected so far. -/
structure Names where
  module : Holding := {}
  block : Holding := {}
  snippet : Holding := {}
  /-- The FOREACH loops around the place, innermost first. -/
  loops : List LoopCursor := []
  /-- What all GLOBALS blocks together declare. -/
  globals : Scope := {}
  functions : List Signature := []
  imports : List String := []
  hasMain : Bool := false

namespace Names

def get (n : Names) : Owner → Holding
  | .module => n.module
  | .block => n.block
  | .snippet => n.snippet

def set (n : Names) (h : Holding) : Owner → Names
  | .module => { n with module := h }
  | .block => { n with block := h }
  | .snippet => { n with snippet := h }

/-- Declares a name for an owner; `none` when it is taken. -/
def declare? (n : Names) (owner : Owner) (d : Declaration) : Option Names :=
  ((n.get owner).scope.declare? d).map fun scope => n.set { n.get owner with scope } owner

/-- Notes a RETURN with so many values. -/
def noteReturn (n : Names) (owner : Owner) (arity : Nat) : Names :=
  n.set { n.get owner with returns := (n.get owner).returns ++ [arity] } owner

/-- Gives a cursor to the innermost loop over a cursor of that name; `none` if there is none. -/
def claim? (c : Cursor) : List LoopCursor → Option (List LoopCursor)
  | [] => none
  | l :: ls =>
    if sameName c.name l.name then some ({ l with redeclared := l.redeclared ++ [c] } :: ls)
    else (claim? c ls).map (l :: ·)

/-- Gives a cursor to a loop that iterates it, else to its owner; `none` if nobody takes it. -/
def bindCursor? (n : Names) (owner : Option Owner) (c : Cursor) : Option Names :=
  match claim? c n.loops with
  | some loops => some { n with loops }
  | none => owner.map fun o => n.set { n.get o with scope := (n.get o).scope.bindCursor c } o

end Names

/-- How deep statements and expressions may nest, both together. -/
def Parser.maxNesting : Nat := 200

/-- How deep statements and expressions nest. -/
structure Nesting where
  /-- How many of them are being read, one inside the other. -/
  depth : Nat := 0
  /-- The most there have been at a time. -/
  deepest : Nat := 0

namespace Nesting

/-- No level is left. -/
def isFull (n : Nesting) : Bool := decide (Parser.maxNesting ≤ n.depth)

def enter (n : Nesting) : Nesting := ⟨n.depth + 1, max n.deepest (n.depth + 1)⟩

def leave (n : Nesting) : Nesting := { n with depth := n.depth - 1 }

end Nesting

structure ParseState where
  input : Lookahead
  /-- What has been reported, the latest first. -/
  reports : List Diagnostic := []
  /-- Whether it has been reported that the text nests too deep. -/
  limitReported : Bool := false
  names : Names := {}
  nesting : Nesting := {}

namespace ParseState

def ofText (mode : ScanMode) (text : String) : ParseState where
  input := .ofText mode text

/-- How many lexemes are left to read. -/
def left (s : ParseState) : Nat := s.input.rest.length

/-- How many errors there are so far: those reported and those of the tokens read. -/
def errorCount (s : ParseState) : Nat := Diagnostic.errorCount s.reports + s.input.errors

/-- All that is to be said about the part of the text seen so far, in source order; at one place
what scanning noticed comes first. -/
def diagnostics (s : ParseState) : List Diagnostic :=
  Diagnostic.sorted (s.input.issues ++ s.reports.reverse)

end ParseState

end FourGL

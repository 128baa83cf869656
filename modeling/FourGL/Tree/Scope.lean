import FourGL.Text.Blank
import FourGL.Tree.Expression
import FourGL.Tree.TypeReference

/-!
# Declared names

A scope lists the names that a module, a routine or a GLOBALS block declares. Variables, constants
and types share one space of names; cursors have their own.
-/

namespace FourGL

structure Constant where
  name : String
  span : Span
  type : Option TypeReference
  value : Option Expression

structure TypeName where
  name : String
  span : Span
  type : TypeReference

inductive CursorKind where
  | prepared
  | declared
deriving DecidableEq

def CursorKind.name : CursorKind → String
  | prepared => "prepared"
  | declared => "declared"

/-- The name of a prepared statement or of a declared cursor. -/
structure Cursor where
  name : String
  span : Span
  kind : CursorKind
deriving DecidableEq

structure Scope where
  vars : List Variable := []
  constants : List Constant := []
  types : List TypeName := []
  cursors : List Cursor := []

/-- A declaration that claims a name in a scope. -/
inductive Declaration where
  | variable (v : Variable)
  | constant (c : Constant)
  | type (t : TypeName)

namespace Declaration

def name : Declaration → String
  | .variable v => v.name
  | .constant c => c.name
  | .type t => t.name

def span : Declaration → Span
  | .variable v => v.span
  | .constant c => c.span
  | .type t => t.span

end Declaration

namespace Scope

def isEmpty (s : Scope) : Bool :=
  s.vars.isEmpty && s.constants.isEmpty && s.types.isEmpty && s.cursors.isEmpty

/-- Whether a variable, constant or type of this name is declared, in any case. -/
def declares (s : Scope) (name : String) : Bool :=
  s.vars.any (sameName ·.name name) || s.constants.any (sameName ·.name name) ||
    s.types.any (sameName ·.name name)

/-- The scope with one more declaration; `none` when its name is taken. -/
def declare? (s : Scope) (d : Declaration) : Option Scope :=
  if s.declares d.name then none
  else match d with
    | .variable v => some { s with vars := s.vars ++ [v] }
    | .constant c => some { s with constants := s.constants ++ [c] }
    | .type t => some { s with types := s.types ++ [t] }

/-- Puts `c` in the place of the first cursor of its name, or at the end. -/
def placeCursor (c : Cursor) : List Cursor → List Cursor
  | [] => [c]
  | d :: ds => if sameName d.name c.name then c :: ds else d :: placeCursor c ds

/-- The scope with one more cursor, which replaces an earlier one of the same name. -/
def bindCursor (s : Scope) (c : Cursor) : Scope := { s with cursors := placeCursor c s.cursors }

/-- Variables, constants and types, in this order. -/
def declarations (s : Scope) : List Declaration :=
  s.vars.map .variable ++ s.constants.map .constant ++ s.types.map .type

/-- The scope with the declarations of another; names already taken keep their declaration. -/
def merge (s other : Scope) : Scope :=
  other.declarations.foldl (fun s d => (s.declare? d).getD s) s

end Scope

end FourGL

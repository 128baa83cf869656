import FourGL.Grammar.Form
import FourGL.Grammar.State

/-!
# What encloses a body

A context says what the blocks around a place mean for it: which words end it, where EXIT and
CONTINUE can go, and who owns what is declared there. A block reads its body in a context of its
own, so what it adds is gone behind it.
-/

namespace FourGL

structure Context where
  version : Version := .latest
  /-- The blocks that EXIT and CONTINUE can leave or repeat. -/
  exits : List Kind := []
  /-- The words that close an enclosing block behind END. -/
  ends : List Kind := []
  /-- The tokens at which the body stops. -/
  stops : List Kind := []
  /-- Statements that an enclosing block adds. -/
  extra : List Production := []
  vars : Option Owner := none
  returns : Option Owner := none
  cursors : Option Owner := none

namespace Context

/-- Directly inside a module. -/
def root (version : Version) : Context where
  version
  vars := some .module
  cursors := some .module

/-- In statements that stand alone. -/
def snippet (version : Version) : Context where
  version
  vars := some .snippet
  returns := some .snippet
  cursors := some .snippet

def withEnd (c : Context) (k : Kind) : Context := { c with ends := k :: c.ends }

def withExit (c : Context) (k : Kind) : Context := { c with exits := k :: c.exits }

def withStops (c : Context) (ks : List Kind) : Context := { c with stops := ks ++ c.stops }

/-- Inside a block that EXIT and CONTINUE can name. -/
def insideLoop (c : Context) (k : Keyword) :
    Context := (c.withEnd (.keyword k)).withExit (.keyword k)

/-- The words that end a routine whose END is missing. -/
def routineStops : List Kind :=
  [.keyword .FUNCTION, .keyword .MAIN, .keyword .PUBLIC, .keyword .PRIVATE, .keyword .GLOBALS]

/-- Inside a routine: nothing outside of it can be left, and its names are its own. -/
def routine (c : Context) (k : Kind) (returns : Option Owner) : Context :=
  { c with
    exits := []
    ends := k :: c.ends
    stops := routineStops
    extra := []
    vars := some .block
    returns
    cursors := some .block }

/-- Inside a GLOBALS block. -/
def insideGlobals (c : Context) : Context :=
  { (c.withEnd (.keyword .GLOBALS)).withStops
      [.keyword .FUNCTION, .keyword .MAIN, .keyword .GLOBALS] with
    vars := some .block }

/-- The words that open a clause of a menu. -/
def menuWords : List Kind := [.keyword .BEFORE, .keyword .COMMAND, .keyword .ON]

/-- Inside a clause of a menu. -/
def insideMenu (c : Context) : Context :=
  let c := (c.insideLoop .MENU).withStops menuWords
  { c with extra := c.extra ++ Production.menuStatements }

end Context

end FourGL

import FourGL.Token.Kind
import FourGL.Version

/-!
# Forms of statements

Each form of statement has words it can start with and a version from which on it is available.
Which forms can stand in a body is a list of productions, tried in order.
-/

namespace FourGL

inductive Form where
  | vars | constants | types | assignment | call | returnValues | output | sleep | setNull
  | exit | continueLoop | prepare | declare | cursor | whenever | run | ifThen | whileLoop | forLoop
  | foreachLoop | caseOf | tryBlock | menu | importModule | database | globals | main | function
  | menuControl
deriving DecidableEq

namespace Form

/-- What messages call the form. -/
def name : Form → String
  | vars => "define"
  | constants => "constant"
  | types => "type"
  | assignment => "let"
  | call => "call"
  | returnValues => "return"
  | output => "display"
  | sleep => "sleep"
  | setNull => "initialize"
  | exit => "exit"
  | continueLoop => "continue"
  | prepare => "prepare"
  | declare => "declare"
  | cursor => "cursor"
  | whenever => "whenever"
  | run => "run"
  | ifThen => "if"
  | whileLoop => "while"
  | forLoop => "for"
  | foreachLoop => "foreach"
  | caseOf => "case"
  | tryBlock => "try"
  | menu => "menu"
  | importModule => "import"
  | database => "database"
  | globals => "globals"
  | main => "main"
  | function => "function"
  | menuControl => "option"

/-- The version that brought the form. -/
def version : Form → Version
  | types => ⟨2, 20⟩
  | importModule => ⟨2, 30⟩
  | _ => .baseline

/-- The word behind which a form that may have an access modifier begins. -/
def modifiable? : Form → Option Keyword
  | vars => some .DEFINE
  | constants => some .CONSTANT
  | types => some .TYPE
  | main => some .MAIN
  | function => some .FUNCTION
  | _ => none

end Form

/-- A form with the words that it starts with in some body. -/
structure Production where
  form : Form
  /-- The first is the form's own word; the others may belong to other forms too. -/
  leading : List Keyword

namespace Production

def startsWith (p : Production) (word : Keyword) : Bool := p.leading.contains word

/-- Whether the word belongs to the form for sure. -/
def isOwnWord (p : Production) (word : Keyword) : Bool := p.leading.head? == some word

/-- Statements of routines and of the blocks in them. -/
def statements : List Production :=
  [⟨.vars, [.DEFINE]⟩, ⟨.constants, [.CONSTANT]⟩, ⟨.types, [.TYPE]⟩,
   ⟨.assignment, [.LET]⟩, ⟨.call, [.CALL]⟩, ⟨.returnValues, [.RETURN]⟩,
   ⟨.output, [.DISPLAY, .MESSAGE, .ERROR]⟩, ⟨.sleep, [.SLEEP]⟩,
   ⟨.setNull, [.INITIALIZE]⟩, ⟨.exit, [.EXIT]⟩, ⟨.continueLoop, [.CONTINUE]⟩,
   ⟨.prepare, [.PREPARE]⟩, ⟨.declare, [.DECLARE]⟩,
   ⟨.cursor, [.OPEN, .CLOSE, .FREE, .FETCH, .EXECUTE]⟩, ⟨.whenever, [.WHENEVER]⟩,
   ⟨.run, [.RUN]⟩, ⟨.ifThen, [.IF]⟩, ⟨.whileLoop, [.WHILE]⟩, ⟨.forLoop, [.FOR]⟩,
   ⟨.foreachLoop, [.FOREACH]⟩, ⟨.caseOf, [.CASE]⟩, ⟨.tryBlock, [.TRY]⟩,
   ⟨.menu, [.MENU]⟩]

/-- Declarations and routines of a module. -/
def members : List Production :=
  [⟨.importModule, [.IMPORT]⟩, ⟨.database, [.SCHEMA, .DATABASE]⟩,
   ⟨.globals, [.GLOBALS]⟩, ⟨.vars, [.DEFINE, .PUBLIC, .PRIVATE]⟩,
   ⟨.constants, [.CONSTANT, .PUBLIC, .PRIVATE]⟩,
   ⟨.types, [.TYPE, .PUBLIC, .PRIVATE]⟩, ⟨.main, [.MAIN, .PUBLIC, .PRIVATE]⟩,
   ⟨.function, [.FUNCTION, .PUBLIC, .PRIVATE]⟩]

/-- Declarations of a GLOBALS block. -/
def globalsMembers : List Production :=
  [⟨.vars, [.DEFINE]⟩, ⟨.constants, [.CONSTANT]⟩, ⟨.types, [.TYPE]⟩]

/-- Statements that a MENU adds to the bodies of its clauses. -/
def menuStatements : List Production := [⟨.menuControl, [.NEXT, .SHOW, .HIDE]⟩]

end Production

end FourGL

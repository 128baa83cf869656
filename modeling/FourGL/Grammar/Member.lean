import FourGL.Grammar.Compound
import FourGL.Grammar.Declaration

/-!
# Members of a module

IMPORT, SCHEMA and DATABASE, GLOBALS, MAIN and FUNCTION; and the forms of statements put together.
-/

namespace FourGL.Parser

/-- Whether a part follows the name of a module so far, the last part of which could be read. -/
def partFollows (state : String × Bool) : Parser (Option Unit) :=
  if state.2 then
    when (both (nextIs (.mark .dot)) (do return !(← peekAt 2).lineBreakBefore))
  else pure none

/-- Reads the parts of a module's name behind the first, each behind a dot on the same line. -/
def pathTail (first : String) : Parser String := do
  let part (state : String × Bool) (_ : Unit) : Parser (String × Bool) := do
    match ← expectNameText with
    | some name => return (state.1 ++ "." ++ name, true)
    | none => return (state.1, false)
  return (← whileNext partFollows part (first, true)).1

/-- Reads FGL or JAVA, which tell the kind of an imported module. -/
def importKind : Parser ImportKind := do
  if ← optional (.keyword .FGL) then return .fgl
  else if ← optional (.keyword .JAVA) then return .java
  else return .extension

/-- `IMPORT [FGL | JAVA] name {. name}` -/
def importStatement (o : Opening) : Parser Node := do
  let kind ← importKind
  match ← expectNameText with
  | none => closeStatement o (.importModule kind "")
  | some first =>
    let path ← pathTail first
    modifyNames fun n => { n with imports := n.imports ++ [path] }
    closeStatement o (.importModule kind path)

/-- `SCHEMA name` or `DATABASE name` -/
def databaseStatement (word : Keyword) (o : Opening) : Parser Node := do
  let name := (← expectNameText).getD ""
  closeStatement o (.database word name)

/-- Runs a parser inside a routine or a GLOBALS block; answers also what that block has
collected. -/
def insideBlock (p : Parser α) : Parser (α × Holding) := do
  let outer ← getNames
  setNames { outer with block := {}, loops := [] }
  let a ← p
  let inner ← getNames
  setNames { inner with block := outer.block, loops := outer.loops }
  return (a, inner.block)

/-- Declarations up to END GLOBALS, behind GLOBALS. -/
def globalsBlock (body : BodyParser) (ctx : Context) (o : Opening) : Parser Node := do
  let header ← headerStop o
  let ((children, stop), held) ← insideBlock (body ctx.insideGlobals
    { productions := Production.globalsMembers, terminator := some (.keyword .GLOBALS) })
  closeBlock o header .GLOBALS stop
  modifyNames fun n => { n with globals := n.globals.merge held.scope }
  closeNode o header (.globals held.scope) children

/-- `GLOBALS "file"` or `GLOBALS declarations END GLOBALS` -/
def globalsMember (body : BodyParser) (ctx : Context) (o : Opening) : Parser Node := do
  if ← nextIs .string then
    let file := (← next).value
    closeStatement o (.globalsFile file)
  else
    globalsBlock body ctx o

/-- Reads the body and the END of a routine whose header ends at `header`; `kind` makes its node of
what the routine has collected. -/
def routineBlock (body : BodyParser) (ctx : Context) (o : Opening) (header : Nat)
    (keyword : Keyword) (returns : Option Owner) (kind : Holding → NodeKind) : Parser Node := do
  let ((children, stop), held) ← insideBlock
    (statementsUpTo body (ctx.routine (.keyword keyword) returns) keyword)
  closeBlock o header keyword stop
  closeNode o header (kind held) children

/-- `MAIN ... END MAIN`, once in a module and without an access modifier. -/
def mainMember (body : BodyParser) (word : Keyword) (ctx : Context) (o : Opening) :
    Parser Node := do
  let access ← accessOf word
  unless access = .unstated do
    report .misplacedModifier [access.modifier, Keyword.MAIN.text] o.token.span
  let header ← headerStop o
  if (← getNames).hasMain then
    report .secondMain [] (.between o.token.start header)
  modifyNames fun n => { n with hasMain := true }
  routineBlock body ctx o header .MAIN none fun held => .main held.scope

/-- Reads the parameters of a function in their parentheses. -/
def parameters : Parser (List String) := do
  if ← expect (.mark .openParen) then
    let names ← if ← nextIs (.mark .closeParen) then pure [] else commaList expectNameText
    let _ ← expect (.mark .closeParen)
    return names
  else
    return []

/-- `[PUBLIC | PRIVATE] FUNCTION name([param {, param}]) ... END FUNCTION` -/
def functionMember (body : BodyParser) (word : Keyword) (ctx : Context) (o : Opening) :
    Parser Node := do
  let access ← accessOf word
  let named ← expectName
  let (name, nameSpan) := named.getD ("", .empty (← lastStop))
  let parameters ← parameters
  let header ← headerStop o
  if named.isSome then
    modifyNames fun n =>
      { n with functions := n.functions ++ [⟨name, nameSpan, access, parameters⟩] }
  routineBlock body ctx o header .FUNCTION (some .block) fun held =>
    .function access name nameSpan parameters held.scope held.returns

/-! ## All forms -/

/-- Reads the statement of a form, where `levels` levels of nesting are left inside it. -/
def formWith (levels : Nat) (body : BodyParser) : FormParser := fun form word ctx o =>
  match form with
  | .vars => variablesStatement word ctx o
  | .constants => constantsStatement levels word ctx o
  | .types => typesStatement word ctx o
  | .assignment => assignmentStatement levels o
  | .call => callStatement levels o
  | .returnValues => returnStatement levels ctx o
  | .output => outputStatement levels word o
  | .sleep => sleepStatement levels o
  | .setNull => setNullStatement levels o
  | .exit => exitStatement levels o
  | .continueLoop => continueStatement o
  | .prepare => prepareStatement levels ctx o
  | .declare => declareStatement levels ctx o
  | .cursor => cursorStatement levels word o
  | .whenever => wheneverStatement o
  | .run => runStatement levels o
  | .ifThen => ifStatement levels body ctx o
  | .whileLoop => whileStatement levels body ctx o
  | .forLoop => forStatement levels body ctx o
  | .foreachLoop => foreachStatement levels body ctx o
  | .caseOf => caseStatement levels body ctx o
  | .tryBlock => tryStatement body ctx o
  | .menu => menuStatement levels body ctx o
  | .importModule => importStatement o
  | .database => databaseStatement word o
  | .globals => globalsMember body ctx o
  | .main => mainMember body word ctx o
  | .function => functionMember body word ctx o
  | .menuControl => menuControlStatement levels word o

/-- Reads a body. Whether a statement in it nests too deep is decided by the counter of nesting;
`levels` bounds how many levels can be left until then. -/
def bodyAt : (levels : Nat) → BodyParser
  | 0 => bodyWith none
  | levels + 1 => bodyWith (some (formWith levels (bodyAt levels)))

end FourGL.Parser

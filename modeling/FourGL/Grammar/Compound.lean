import FourGL.Grammar.Simple

/-!
# Blocks inside routines

IF, WHILE, FOR, FOREACH, CASE, TRY and MENU: a header, a body or clauses, and an END. `levels`
levels of nesting are left for what is inside, and `body` reads a body there.
-/

namespace FourGL.Parser

/-- Reads a body of statements that END with `keyword` closes. -/
def statementsUpTo (body : BodyParser) (ctx : Context) (keyword : Keyword) :
    Parser (List Node × Stop) :=
  body ctx { terminator := some (.keyword keyword) }

/-- Reads the body and the END of a block whose header is read. -/
def simpleBlock (body : BodyParser) (ctx : Context) (o : Opening) (keyword : Keyword)
    (kind : NodeKind) : Parser Node := do
  let header ← headerStop o
  let (children, stop) ← statementsUpTo body ctx keyword
  closeBlock o header keyword stop
  closeNode o header kind children

/-- Reads a branch of a block behind the word that opens it; answers also why it stopped. -/
def branch (body : BodyParser) (ctx : Context) (keyword : Keyword) (kind : NodeKind) (o : Opening) :
    Parser (Node × Stop) := do
  let header ← headerStop o
  let (children, stop) ← statementsUpTo body ctx keyword
  return (← closeNode o header kind children, stop)

/-- Reads a second branch of a block, which `word` opens, if the first branch stopped there; answers
the children of the block and why the last branch stopped. -/
def secondBranch (body : BodyParser) (ctx : Context) (keyword word : Keyword) (kind : NodeKind)
    (first : List Node × Stop) : Parser (List Node × Stop) := do
  if first.2 = .stopToken (.keyword word) then
    let errors ← errorCount
    let (n, stop) ← branch body ctx keyword kind ⟨← next, errors⟩
    return (n.insert first.1, stop)
  else
    return first

/-- Reads a block of one or two branches behind its header. -/
def branchedBlock (body : BodyParser) (ctx : Context) (o : Opening) (keyword word : Keyword)
    (kind branchKind : NodeKind) : Parser Node := do
  let header ← headerStop o
  let ctx := ctx.withEnd (.keyword keyword)
  let first ← statementsUpTo body (ctx.withStops [.keyword word]) keyword
  let (children, stop) ← secondBranch body ctx keyword word branchKind first
  closeBlock o header keyword stop
  closeNode o header kind children

/-- `IF condition THEN ... [ELSE ...] END IF` -/
def ifStatement (levels : Nat) (body : BodyParser) (ctx : Context) (o : Opening) : Parser Node := do
  let condition ← expectExpression levels
  let _ ← expect (.keyword .THEN)
  branchedBlock body ctx o .IF .ELSE (.ifThen (some condition)) .elseClause

/-- `TRY ... [CATCH ...] END TRY` -/
def tryStatement (body : BodyParser) (ctx : Context) (o : Opening) : Parser Node :=
  branchedBlock body ctx o .TRY .CATCH .tryBlock .catchClause

/-- `WHILE condition ... END WHILE` -/
def whileStatement (levels : Nat) (body : BodyParser) (ctx : Context) (o : Opening) :
    Parser Node := do
  let condition ← expectExpression levels
  simpleBlock body (ctx.insideLoop .WHILE) o .WHILE (.whileLoop (some condition))

/-- Reads an expression behind a token that has to follow. -/
def expressionBehind (levels : Nat) (follows : Parser Bool) : Parser (Option Expression) := do
  if ← follows then some <$> expectExpression levels else return none

/-- `FOR counter = first TO last [STEP step] ... END FOR` -/
def forStatement (levels : Nat) (body : BodyParser) (ctx : Context) (o : Opening) :
    Parser Node := do
  let counter ← designator? levels
  if counter.isNone then
    reportNext .missingCounter []
  let first ← expressionBehind levels (expect (.mark .equal))
  let last ← expressionBehind levels (expect (.keyword .TO))
  let step ← expressionBehind levels (optional (.keyword .STEP))
  simpleBlock body (ctx.insideLoop .FOR) o .FOR (.forLoop counter first last step)

/-- Runs a parser inside a loop over a cursor; answers also which statements redeclare it. -/
def insideCursorLoop (cursor : String) (p : Parser α) : Parser (α × List Cursor) := do
  modifyNames fun n => { n with loops := { name := cursor } :: n.loops }
  let a ← p
  let names ← getNames
  setNames { names with loops := names.loops.tail }
  return (a, (names.loops.head?.map (·.redeclared)).getD [])

/-- Reports every statement that redeclares the cursor of a loop inside it. -/
def reportRedeclared : List Cursor → Parser Unit
  | [] => return ()
  | c :: cs => do
    report .cursorRedeclared [c.name] c.span
    reportRedeclared cs

/-- Reads the body and the END of a loop over a cursor whose header is read; `kind` makes its node
of the cursors redeclared inside. -/
def cursorLoop (body : BodyParser) (ctx : Context) (o : Opening) (cursor : String)
    (kind : List Cursor → NodeKind) : Parser Node := do
  let header ← headerStop o
  let ((children, stop), redeclared) ←
    insideCursorLoop cursor (statementsUpTo body (ctx.insideLoop .FOREACH) .FOREACH)
  reportRedeclared redeclared
  closeBlock o header .FOREACH stop
  closeNode o header (kind redeclared) children

/-- `FOREACH cursor [USING ...] [INTO ...] [WITH REOPTIMIZATION] ... END FOREACH` -/
def foreachStatement (levels : Nat) (body : BodyParser) (ctx : Context) (o : Opening) :
    Parser Node := do
  let cursor ← expectNameText
  let arguments ← listBehind levels .USING
  let into ← designatorsBehind levels .INTO
  let reoptimization ← nextAre (.keyword .WITH) (.keyword .REOPTIMIZATION)
  if reoptimization then
    let _ ← next
    let _ ← next
  cursorLoop body ctx o (cursor.getD "") (.foreachLoop cursor arguments into reoptimization)

/-! ## CASE -/

/-- Reads the body of a clause whose header is read. -/
def clauseBody (body : BodyParser) (ctx : Context) (o : Opening) (kind : NodeKind) :
    Parser Node := do
  let header ← headerStop o
  let (children, _) ← body ctx {}
  closeNode o header kind children

/-- The words that open a clause of a CASE. -/
def caseWords : List Kind := [.keyword .WHEN, .keyword .OTHERWISE]

/-- Whether a clause of a CASE starts at the next token. -/
def startsCaseClause : Parser Bool := do return caseWords.contains (← peekKind)

def isOtherwise (n : Node) : Bool := n.kind matches .otherwiseClause

/-- `WHEN values ...` or `OTHERWISE ...`, of which the latter may occur once. -/
def caseClause (levels : Nat) (body : BodyParser) (ctx : Context)
    (before : List Node) (o : Opening) : Parser Node := do
  if o.token.kind = .keyword .WHEN then
    let conditions ← expressionList levels
    clauseBody body ctx o (.whenClause conditions)
  else
    if before.any isOtherwise then
      report .secondOtherwise [] o.token.span
    clauseBody body ctx o .otherwiseClause

/-- `CASE [subject] {WHEN values ...} [OTHERWISE ...] END CASE` -/
def caseStatement (levels : Nat) (body : BodyParser) (ctx : Context) (o : Opening) :
    Parser Node := do
  let subject ← expression? levels
  let header ← headerStop o
  let (children, stop) ← clauses (ctx.withEnd (.keyword .CASE)) (.keyword .CASE) startsCaseClause
    (caseClause levels body ((ctx.insideLoop .CASE).withStops caseWords))
  closeBlock o header .CASE stop
  closeNode o header (.caseOf subject) children

/-! ## MENU -/

/-- Reads one key: a name, any keyword or a literal. -/
def menuKey : Parser (Option String) := do
  let t ← peek
  if t.kind.canBeName || t.kind.isKeyword || t.kind.isLiteral then
    return some (← next).value
  else
    reportNext .identifierExpected []
    return none

/-- Reads keys in parentheses behind KEY, if they follow. -/
def menuKeys : Parser (List String) := do
  if ← both (optional (.keyword .KEY)) (expect (.mark .openParen)) then
    let keys ← commaList menuKey
    let _ ← expect (.mark .closeParen)
    return keys
  else
    return []

/-- `[KEY (k {, k})] [name [help]]` behind COMMAND. The help stands on the line of the name. -/
def commandClause (levels : Nat) : Parser MenuClause := do
  let keys ← menuKeys
  let name ← expression? levels
  let help ← if name.isSome then expressionOnLine? levels else pure none
  return .command keys name help

/-- Whether a clause of a menu starts at the next token. -/
def startsMenuClause : Parser Bool := do
  match ← peekKind with
  | .keyword .BEFORE => secondIs (.keyword .MENU)
  | .keyword .COMMAND => return true
  | .keyword .ON =>
    let second := (← peekAt 2).kind
    return second == .keyword .ACTION || second == .keyword .IDLE
  | _ => return false

/-- Reads what a clause of a menu is about, behind its first word. -/
def menuClauseHeader (levels : Nat) (first : Kind) : Parser MenuClause := do
  if first = .keyword .COMMAND then
    commandClause levels
  else
    match (← next).kind with
    | .keyword .ACTION => return .action ((← expectNameText).getD "")
    | .keyword .IDLE => return .idle (some (← expectExpression levels))
    | _ => return .beforeMenu

/-- `BEFORE MENU ...`, `COMMAND ...`, `ON ACTION ...` or `ON IDLE ...` -/
def menuClause (levels : Nat) (body : BodyParser) (ctx : Context) (o : Opening) : Parser Node := do
  let clause ← menuClauseHeader levels o.token.kind
  clauseBody body ctx o (.menuOption clause)

def isSelectable (n : Node) : Bool :=
  match n.kind with
  | .menuOption clause => clause.isSelectable
  | _ => false

/-- Reads the clauses and the END of a menu whose header is read. -/
def menuBlock (levels : Nat) (body : BodyParser) (ctx : Context) (o : Opening)
    (title : Option Expression) : Parser Node := do
  let header ← headerStop o
  let (children, stop) ← clauses (ctx.withEnd (.keyword .MENU)) (.keyword .MENU) startsMenuClause
    fun _ o => menuClause levels body ctx.insideMenu o
  unless children.any isSelectable do
    report .emptyMenu [] (.between o.token.start header)
  closeBlock o header .MENU stop
  closeNode o header (.menu title) children

/-- `MENU [title] {clause ...} END MENU` -/
def menuStatement (levels : Nat) (body : BodyParser) (ctx : Context) (o : Opening) :
    Parser Node := do
  let title ← if (← peekKind) ∈ Context.menuWords then pure none else expression? levels
  menuBlock levels body ctx o title

end FourGL.Parser

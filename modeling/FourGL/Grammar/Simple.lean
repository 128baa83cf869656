import FourGL.Grammar.Body
import FourGL.Grammar.Expression

/-!
# Statements without a body

Each is read behind its first word, with a placeholder for anything that is missing, up to the last
token that belongs to it. `levels` levels of nesting are left for the expressions in it.
-/

namespace FourGL

/-- The blocks that EXIT can name. -/
def Keyword.isExitTarget : Keyword → Bool
  | .FOR | .FOREACH | .WHILE | .CASE | .MENU | .PROGRAM | .DIALOG | .INPUT | .DISPLAY => true
  | _ => false

namespace Parser

/-- Reads expressions if one can start at the next token. -/
def optionalList (levels : Nat) : Parser (List Expression) := do
  if (← peekKind).startsExpression then expressionList levels else return []

/-- Reads expressions behind a keyword, if it follows. -/
def listBehind (levels : Nat) (k : Keyword) : Parser (List Expression) := do
  if ← optional (.keyword k) then expressionList levels else return []

/-- Reads designators behind a keyword, if it follows. -/
def designatorsBehind (levels : Nat) (k : Keyword) : Parser (List Designator) := do
  if ← optional (.keyword k) then designatorList levels else return []

/-- Reads an expression if one can start at the next token and that is still on the line. -/
def expressionOnLine? (levels : Nat) : Parser (Option Expression) := do
  let t ← peek
  if t.kind.startsExpression && !t.lineBreakBefore then expression? levels else return none

/-- `LET target = expr {, expr}` -/
def assignmentStatement (levels : Nat) (o : Opening) : Parser Node := do
  let target ← expectDesignator levels
  let values ← if ← expect (.mark .equal) then expressionList levels else pure []
  closeStatement o (.assignment target values)

/-- `CALL name(args) [RETURNING v {, v}]` -/
def callStatement (levels : Nat) (o : Opening) : Parser Node := do
  let callee ← expression? levels
  match callee with
  | some (.call ..) => pure ()
  | some _ => reportNext .expected [Mark.openParen.text]
  | none => reportNext .identifierExpected []
  let returning ← designatorsBehind levels .RETURNING
  closeStatement o (.call callee returning)

/-- `RETURN [expr {, expr}]` -/
def returnStatement (levels : Nat) (ctx : Context) (o : Opening) : Parser Node := do
  let values ← optionalList levels
  match ctx.returns with
  | some owner => modifyNames (·.noteReturn owner values.length)
  | none =>
    unless values.isEmpty do
      report .returnOutsideFunction [] (.between o.token.start (← lastStop))
  closeStatement o (.returnValues values)

/-- Whether a group in parentheses goes on: so many are open, and it may be closed. -/
def groupGoesOn (state : Nat × Bool) : Parser (Option Unit) :=
  if state.2 then pure none else when (do return !(← nextIs .endOfFile))

/-- Skips a group in parentheses, of which the opening one comes next. -/
def skipGroup : Parser Unit := do
  let step (state : Nat × Bool) (_ : Unit) : Parser (Nat × Bool) := do
    match (← last).kind with
    | .mark .openParen => return (state.1 + 1, false)
    | .mark .closeParen => return (state.1 - 1, state.1 ≤ 1)
    | _ => return state
  let (_, closed) ← whileNext groupGoesOn step (0, false)
  unless closed do
    reportNext .expected [Mark.closeParen.text]

/-- `DISPLAY`, `MESSAGE` or `ERROR` with values, `AT row, column` and `ATTRIBUTES(...)`. The
coordinates are kept as further values, the attributes are skipped. -/
def outputStatement (levels : Nat) (word : Keyword) (o : Opening) : Parser Node := do
  let values ← optionalList levels
  let place ← listBehind levels .AT
  if ← nextAre (.keyword .ATTRIBUTES) (.mark .openParen) then
    let _ ← next
    skipGroup
  closeStatement o (.output word (values ++ place))

/-- `SLEEP seconds` -/
def sleepStatement (levels : Nat) (o : Opening) : Parser Node := do
  let seconds ← expectExpression levels
  closeStatement o (.sleep (some seconds))

/-- `INITIALIZE v {, v} TO NULL` -/
def setNullStatement (levels : Nat) (o : Opening) : Parser Node := do
  let targets ← designatorList levels
  if ← expect (.keyword .TO) then
    let _ ← expect (.keyword .NULL)
  closeStatement o (.setNull targets)

/-- Reads the name of a block behind EXIT or CONTINUE, or reports that one should follow. -/
def expectTarget (word : Keyword) (allowed : Keyword → Bool) : Parser (Option Keyword) := do
  let missing : Parser (Option Keyword) := do
    reportNext .blockKeywordExpected [word.text]
    return none
  match ← peekKind with
  | .keyword k =>
    if allowed k then
      let _ ← next
      return some k
    else missing
  | _ => missing

/-- `EXIT block` or `EXIT PROGRAM [code]` -/
def exitStatement (levels : Nat) (o : Opening) : Parser Node := do
  let target ← expectTarget .EXIT Keyword.isExitTarget
  let value ← if target = some .PROGRAM then expressionOnLine? levels else pure none
  closeStatement o (.exit target value)

/-- `CONTINUE block` -/
def continueStatement (o : Opening) : Parser Node := do
  let target ← expectTarget .CONTINUE fun k => k.isExitTarget && k != .PROGRAM
  closeStatement o (.continueLoop target)

/-- Gives a cursor to whoever takes it, or reports that nobody does. -/
def bindCursor (ctx : Context) (name : Option (String × Span)) (kind : CursorKind) :
    Parser Unit := do
  match name with
  | none => return ()
  | some (name, span) =>
    match (← getNames).bindCursor? ctx.cursors ⟨name, span, kind⟩ with
    | some names => setNames names
    | none => report .cursorRefused [name] span

/-- `PREPARE name FROM expr` -/
def prepareStatement (levels : Nat) (ctx : Context) (o : Opening) : Parser Node := do
  let name ← expectName
  bindCursor ctx name .prepared
  let source ← if ← expect (.keyword .FROM) then some <$> expectExpression levels else pure none
  closeStatement o (.prepare (name.map (·.1)) source)

/-- What a cursor is declared for: a prepared statement, or the text of one. -/
def cursorSource (levels : Nat) : Parser (Option String × Option Expression) := do
  if ← optional (.keyword .FOR) then
    return (← expectNameText, none)
  else if ← optional (.keyword .FROM) then
    return (none, some (← expectExpression levels))
  else
    reportNext .expected [Keyword.FOR.text]
    return (none, none)

/-- `DECLARE name [SCROLL] CURSOR [WITH HOLD] FOR prepared | FROM expr` -/
def declareStatement (levels : Nat) (ctx : Context) (o : Opening) : Parser Node := do
  let name ← expectName
  bindCursor ctx name .declared
  let scroll ← optional (.keyword .SCROLL)
  let _ ← expect (.keyword .CURSOR)
  let withHold ← both (optional (.keyword .WITH)) (expect (.keyword .HOLD))
  let (prepared, source) ← cursorSource levels
  closeStatement o (.declare (name.map (·.1)) scroll withHold prepared source)

/-- Reads the direction of a FETCH, which is one only before the name of a cursor. -/
def fetchDirection? : Parser (Option Keyword) := do
  match ← peekKind with
  | .keyword k =>
    if k = .NEXT ∨ k = .PREVIOUS ∨ k = .FIRST ∨ k = .LAST then
      if (← peekAt 2).kind.canBeName then
        let _ ← next
        return some k
      else return none
    else return none
  | _ => return none

/-- `OPEN c [USING ...]`, `CLOSE c`, `FREE c`, `FETCH [direction] c [INTO ...]` or
`EXECUTE p [USING ...] [INTO ...]` -/
def cursorStatement (levels : Nat) (word : Keyword) (o : Opening) : Parser Node := do
  let direction ← if word = .FETCH then fetchDirection? else pure none
  let name ← expectNameText
  let arguments ← if word = .OPEN ∨ word = .EXECUTE then listBehind levels .USING else pure []
  let into ← if word = .FETCH ∨ word = .EXECUTE then designatorsBehind levels .INTO else pure []
  closeStatement o (.cursor word name direction arguments into)

/-- Reads what a WHENEVER waits for. -/
def wheneverCondition : Parser String := do
  match ← peekKind with
  | .keyword .ANY =>
    let _ ← next
    let _ ← expect (.keyword .ERROR)
    return "any error"
  | .keyword .NOT =>
    let _ ← next
    let _ ← expect (.keyword .FOUND)
    return "not found"
  | .keyword .ERROR | .keyword .SQLERROR | .keyword .WARNING => return (← next).kind.text
  | _ =>
    reportNext .expected [Keyword.ERROR.text]
    return ""

/-- Reads CALL or GOTO and the name behind it. -/
def wheneverTarget : Parser String := do
  let word := (← next).kind.text
  match ← expectNameText with
  | some name => return word ++ " " ++ name
  | none => return word

/-- Reads what a WHENEVER does. -/
def wheneverAction : Parser String := do
  match ← peekKind with
  | .keyword .CONTINUE | .keyword .STOP | .keyword .RAISE => return (← next).kind.text
  | .keyword .CALL | .keyword .GOTO => wheneverTarget
  | _ =>
    reportNext .expected [Keyword.CONTINUE.text]
    return ""

/-- `WHENEVER condition action` -/
def wheneverStatement (o : Opening) : Parser Node := do
  let condition ← wheneverCondition
  let action ← wheneverAction
  closeStatement o (.whenever condition action)

/-- `RUN command [RETURNING v] [WITHOUT WAITING]` -/
def runStatement (levels : Nat) (o : Opening) : Parser Node := do
  let command ← expectExpression levels
  let returning ← if ← optional (.keyword .RETURNING) then expectDesignator levels
    else pure none
  let withoutWaiting ← both (optional (.keyword .WITHOUT)) (expect (.keyword .WAITING))
  closeStatement o (.run (some command) returning withoutWaiting)

/-- `NEXT OPTION name`, `SHOW OPTION ALL | names` or `HIDE OPTION ALL | names` -/
def menuControlStatement (levels : Nat) (word : Keyword) (o : Opening) : Parser Node := do
  let _ ← next
  if word = .NEXT then
    let option ← expectExpression levels
    closeStatement o (.menuControl word [option] false)
  else if ← optional (.keyword .ALL) then
    closeStatement o (.menuControl word [] true)
  else
    let options ← expressionList levels
    closeStatement o (.menuControl word options false)

end Parser

end FourGL
